import Ascendance.Core.Document
import Ascendance.Core.Keyset
import Mathlib.Data.Prod.Lex

/-!
# The new feed

The posts of the new feed are grouped by what they show: a plain repost shows the
post that it reposts, every other post shows itself. The newest post of a group
stands for it. Pages are cut by the creation time and the identifier of the posts.
-/

namespace Ascendance.Feed

open Ascendance.Core

/-- The fields of a post that the feeds look at; identifiers compare as the numbers they write. -/
structure Post where
  id : ℕ
  publicId : String
  createdAt : ℤ
  status : DocField String
  body : Option String
  image : Option ℕ
  repostOf : Option ℕ
  deriving DecidableEq, Repr

namespace Post

/-- `ACTIVE_POST_FILTER`. -/
def isActive (p : Post) : Bool := p.status.is "active" || !p.status.isPresent

/-- Neither text nor an image of its own. -/
def isBare (p : Post) : Bool := p.body.getD "" == "" && p.image.isNone

/-- The group of a post in `getVisibleIdentityStages`. -/
def visibleIdentityId (p : Post) : ℕ := if p.isBare then p.repostOf.getD p.id else p.id

/-- The creation time and the identifier, compared in this order. -/
def key (p : Post) : ℤ ×ₗ ℕ := toLex (p.createdAt, p.id)

end Post

/-- The collection of posts. -/
structure Posts where
  all : List Post
  nodup_ids : (all.map (·.id)).Nodup
  nodup_publicIds : (all.map (·.publicId)).Nodup

/-- `$group` with `$first`: the first row of every group. -/
def firstOfGroups {α κ : Type*} [DecidableEq κ] (group : α → κ) : List α → List α
  | [] => []
  | a :: rest => a :: (firstOfGroups group rest).filter fun b => group b ≠ group a

/-- Towards older posts or towards newer ones. -/
inductive Direction where
  | forward
  | backward
  deriving DecidableEq, Repr

/-- The payload of a cursor of the new feed: the post it stands at, and its exclusions. -/
structure NewCursor where
  anchor : Option (ℤ × ℕ)
  snapshotId : Option String
  deriving DecidableEq, Repr

/-- `buildCreatedAtCursorFilter`. -/
def createdAtCursorFilter (anchor : Option (ℤ × ℕ)) (direction : Direction) (p : Post) : Bool :=
  match anchor, direction with
  | none, _ => true
  | some (createdAt, id), .forward =>
    p.createdAt < createdAt || (p.createdAt == createdAt && p.id < id)
  | some (createdAt, id), .backward =>
    createdAt < p.createdAt || (p.createdAt == createdAt && id < p.id)

/-- `buildNewFeedPipeline`. -/
def newFeedPipeline (store : List Post) (limit : ℕ) (direction : Direction)
    (anchor : Option (ℤ × ℕ)) (seenIdentityIds : List ℕ) : List Post :=
  let groups := firstOfGroups Post.visibleIdentityId
    (Keyset.sortDesc Post.key (store.filter Post.isActive))
  let unseen := groups.filter fun p => p.visibleIdentityId ∉ seenIdentityIds
  let found := unseen.filter (createdAtCursorFilter anchor direction)
  let sorted := match direction with
    | .forward => Keyset.sortDesc Post.key found
    | .backward => Keyset.sortAsc Post.key found
  sorted.take (limit + 1)

/-- The cursor at a post. -/
def buildNewCursor (anchor : Post) (previous : Option NewCursor) : NewCursor where
  anchor := some (anchor.createdAt, anchor.id)
  snapshotId := previous.bind (·.snapshotId)

/-- A page of the new feed once the exclusions of its cursor are known. -/
def newFeedPage (store : List Post) (limit : ℕ) (cursor : Option NewCursor) (direction : Direction)
    (seenIdentityIds : List ℕ) : CursorPage Post NewCursor :=
  let found := newFeedPipeline store limit direction (cursor.bind (·.anchor)) seenIdentityIds
  let hasMore := decide (limit < found.length)
  let shown := if hasMore then found.take limit else found
  let results := match direction with
    | .forward => shown
    | .backward => shown.reverse
  { data := results
    hasMore := hasMore
    nextCursor :=
      if hasMore then
        (match direction with
          | .forward => results.getLast?
          | .backward => results.head?).map (buildNewCursor · cursor)
      else none
    prevCursor := results.head?.map (buildNewCursor · cursor) }

/-- The exclusions of a snapshot; a request whose snapshot is missing fails. -/
def getNewFeedWithCursor (store : List Post) (exclusions : String → Option (List ℕ)) (limit : ℕ)
    (cursor : Option NewCursor) (direction : Direction) : Option (CursorPage Post NewCursor) :=
  match cursor.bind (·.snapshotId) with
  | none => some (newFeedPage store limit cursor direction [])
  | some snapshotId => (exclusions snapshotId).map (newFeedPage store limit cursor direction)

end Ascendance.Feed
