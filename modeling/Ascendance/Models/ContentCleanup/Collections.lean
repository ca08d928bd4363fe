import Ascendance.Core.Document
import Ascendance.Core.Hex
import Ascendance.Core.Search
import Mathlib.Algebra.Group.Nat.Defs
import Mathlib.Data.Finset.Option
import Mathlib.Data.Finset.Union

/-!
# Content and what refers to it

The collections that `ContentCleanupService` reads and writes. A relation names a post
by its id or by its public id, and a comment by its id or by the text of it.
-/

namespace Ascendance.ContentCleanup

open Ascendance.Core

/-- The identifiers of the documents. -/
abbrev ObjectId := ℕ

/-- The twelve bytes of an id, two digits each. -/
def toHexString (id : ObjectId) : String :=
  String.ofList <| (List.range 24).reverse.map fun i => Hex.digits.getD (id / 16 ^ i % 16) '0'

/-- The kinds of posts. -/
inductive PostType
  | original
  | repost
  deriving DecidableEq, Repr

/-- A post, as far as the clean-up reads or writes it. -/
structure StoredPost where
  publicId : String
  user : ObjectId
  /-- The public id of the author's snapshot. -/
  author : Option String
  type : Option PostType
  status : Option String
  repostOf : Option ObjectId
  tags : List ObjectId
  image : Option ObjectId
  communityId : Option ObjectId
  likesCount : ℤ
  commentsCount : ℤ
  repostCount : ℤ
  deriving DecidableEq, Repr

/-- A comment, as far as the clean-up reads or writes it. -/
structure Comment where
  postId : ObjectId
  parentId : Option ObjectId
  image : Option ObjectId
  replyCount : ℤ
  likesCount : ℤ
  deriving DecidableEq, Repr

/-- A like, a favorite or a view of a post, or a like of a comment. -/
structure Mark where
  targetId : ObjectId
  userId : ObjectId
  deriving DecidableEq, Repr

/-- An entry of a user's action log. -/
structure UserAction where
  userId : ObjectId
  actionType : String
  targetId : ObjectId
  deriving DecidableEq, Repr

/-- A notification, by its recipient and target. -/
structure Notification where
  userId : String
  targetId : Option String
  deriving DecidableEq, Repr

/-- The interactions that leave a feed signal. -/
inductive SignalKind
  | like
  | repost
  deriving DecidableEq, Repr

/-- The trace that an interaction leaves in the feed. -/
structure FeedSignal where
  userId : ObjectId
  postId : ObjectId
  kind : SignalKind
  deriving DecidableEq, Repr

/-- A user's feed profile; every removed signal raises its revision. -/
structure FeedProfile where
  userId : ObjectId
  revision : ℤ
  deriving DecidableEq, Repr

/-- An image record, by the names of its stored file. -/
structure StoredImage where
  publicId : Option String
  url : Option String
  deriving DecidableEq, Repr

/-- A user, by the counter that the clean-up recomputes. -/
structure User where
  postCount : ℤ
  deriving DecidableEq, Repr

/-- A tag with the number of its uses. -/
structure Tag where
  count : ℤ
  modifiedAt : ℕ
  deriving DecidableEq, Repr

/-- A community, by the counter that the clean-up recomputes. -/
structure Community where
  postCount : ℤ
  deriving DecidableEq, Repr

/-- The collections that the clean-up touches. -/
structure Db where
  posts : Collection ObjectId StoredPost
  comments : Collection ObjectId Comment
  commentlikes : Collection ObjectId Mark
  postlikes : Collection ObjectId Mark
  favorites : Collection ObjectId Mark
  postviews : Collection ObjectId Mark
  useractions : Collection ObjectId UserAction
  notifications : Collection ObjectId Notification
  feedsignals : Collection ObjectId FeedSignal
  feedprofiles : Collection ObjectId FeedProfile
  images : Collection ObjectId StoredImage
  users : Collection ObjectId User
  tags : Collection ObjectId Tag
  communities : Collection ObjectId Community

/-- `activePostFilter`: the status is active, null or missing. -/
def StoredPost.isActive (p : StoredPost) : Bool := p.status.all (· == "active")

/-- Is the post a repost? -/
def StoredPost.isRepost (p : StoredPost) : Bool := p.type == some .repost

namespace Db

/-- The active reposts of a post. -/
def repostsOf (db : Db) (id : ObjectId) : ℕ :=
  db.posts.countDocuments fun p => p.repostOf == some id && p.isRepost && p.isActive

/-- The active posts of a user. -/
def postsOfUser (db : Db) (id : ObjectId) : ℕ :=
  db.posts.countDocuments fun p => p.user == id && p.isActive

/-- How often a tag stands in the active posts that are not reposts. -/
def usesOfTag (db : Db) (id : ObjectId) : ℕ :=
  ∑ post ∈ db.posts.find fun _ p => !p.isRepost && p.isActive, (db.posts.doc post).tags.count id

/-- The active posts of a community. -/
def postsOfCommunity (db : Db) (id : ObjectId) : ℕ :=
  db.posts.countDocuments fun p => p.communityId == some id && p.isActive

/-- Count the reposts of the given posts anew. -/
def recomputeRepostCounts (ids : Finset ObjectId) (db : Db) : Db :=
  { db with posts := db.posts.updateMany fun id p =>
      if id ∈ ids then { p with repostCount := db.repostsOf id } else p }

/-- Count the posts of the given users anew. -/
def recomputeUserPostCounts (ids : Finset ObjectId) (db : Db) : Db :=
  { db with users := db.users.updateMany fun id u =>
      if id ∈ ids then { u with postCount := db.postsOfUser id } else u }

/-- Count the uses of the given tags anew. -/
def recomputeTagCounts (ids : Finset ObjectId) (modifiedAt : ℕ) (db : Db) : Db :=
  { db with tags := db.tags.updateMany fun id t =>
      if id ∈ ids then { t with count := db.usesOfTag id, modifiedAt } else t }

/-- Count the posts of the given communities anew. -/
def recomputeCommunityPostCounts (ids : Finset ObjectId) (db : Db) : Db :=
  { db with communities := db.communities.updateMany fun id c =>
      if id ∈ ids then { c with postCount := db.postsOfCommunity id } else c }

/-- A post is in the frontier or reposts a post of it. -/
def reaches (frontier : Finset ObjectId) (id : ObjectId) (p : StoredPost) : Bool :=
  decide (id ∈ frontier) || p.repostOf.any fun target => decide (target ∈ frontier)

/-- The roots and what reposts them, directly or not: one query for each round. -/
def collectRounds (db : Db) (rounds : ℕ) (roots : Finset ObjectId) : Finset ObjectId :=
  collect (fun frontier => db.posts.find (reaches frontier)) rounds roots ∅

/-- More rounds than there are posts find nothing new. -/
def collectPostGraph (db : Db) (roots : Finset ObjectId) : Finset ObjectId :=
  db.collectRounds (db.posts.ids.card + 1) roots

/-- What the posts of a graph name. -/
def named (db : Db) (graph : Finset ObjectId) (f : StoredPost → Finset ObjectId) :
    Finset ObjectId :=
  graph.biUnion fun id => f (db.posts.doc id)

/-- The images of the given comments. -/
def commentImages (db : Db) (commentIds : Finset ObjectId) : Finset ObjectId :=
  commentIds.biUnion fun id => (db.comments.doc id).image.toFinset

/-- The images of comments go, and the comments forget them. -/
def removeCommentAttachments (commentIds : Finset ObjectId) (db : Db) : Db :=
  let imageIds := db.commentImages commentIds
  { db with
    images := if imageIds = ∅ then db.images
      else db.images.deleteMany fun id _ => decide (id ∈ imageIds)
    comments := if imageIds = ∅ then db.comments
      else db.comments.updateMany fun id c =>
        if id ∈ commentIds then { c with image := none } else c }

/-- A signal is about a post of the graph, or it is the one that a repost of the graph gave. -/
def isAffected (db : Db) (graph : Finset ObjectId) (s : FeedSignal) : Bool :=
  decide (s.postId ∈ graph) || (s.kind == .repost && decide (∃ id ∈ graph,
    (db.posts.doc id).isRepost = true ∧ (db.posts.doc id).user = s.userId ∧
      (db.posts.doc id).repostOf = some s.postId))

/-- Signals go, and who had one gets a new revision of the profile. -/
def removeSignals (graph : Finset ObjectId) (db : Db) : Db :=
  let affectedUsers := (db.feedsignals.find fun _ s => db.isAffected graph s).image fun id =>
    (db.feedsignals.doc id).userId
  { db with
    feedsignals := db.feedsignals.deleteMany fun _ s => db.isAffected graph s
    feedprofiles := db.feedprofiles.updateMany fun _ f =>
      if f.userId ∈ affectedUsers then { f with revision := f.revision + 1 } else f }

/-- The public ids of posts, without empty ones, and the texts of the ids of comments. -/
def notificationTargets (db : Db) (graph commentIds : Finset ObjectId) : Finset String :=
  (graph.image fun id => (db.posts.doc id).publicId).filter (· ≠ "") ∪ commentIds.image toHexString

/-- The deletions of `deletePostGraph`, after the signals. -/
def removeGraph (graph commentIds : Finset ObjectId) (db : Db) : Db :=
  let imageIds := db.named graph fun p => p.image.toFinset
  let targets := db.notificationTargets graph commentIds
  let db := db.removeCommentAttachments commentIds
  { db with
    commentlikes := db.commentlikes.deleteMany fun _ l => decide (l.targetId ∈ commentIds)
    comments := db.comments.deleteMany fun _ c => decide (c.postId ∈ graph)
    postlikes := db.postlikes.deleteMany fun _ l => decide (l.targetId ∈ graph)
    favorites := db.favorites.deleteMany fun _ l => decide (l.targetId ∈ graph)
    postviews := db.postviews.deleteMany fun _ l => decide (l.targetId ∈ graph)
    useractions := db.useractions.deleteMany fun _ a => decide (a.targetId ∈ graph ∪ commentIds)
    notifications := db.notifications.deleteMany fun _ n =>
      n.targetId.any fun target => decide (target ∈ targets)
    images := db.images.deleteMany fun id _ => decide (id ∈ imageIds)
    posts := db.posts.deleteMany fun id _ => decide (id ∈ graph) }

/-- Delete the posts with everything that hangs on them, then recompute what counted them. -/
def deletePostGraph (roots : Finset ObjectId) (modifiedAt : ℕ) (db : Db) : Db :=
  let graph := db.collectPostGraph roots
  let commentIds := db.comments.find fun _ c => decide (c.postId ∈ graph)
  let survivingRepostTargets :=
    db.named graph (fun p => if p.isRepost then p.repostOf.toFinset else ∅) \ graph
  let authors := db.named graph fun p => {p.user}
  let tagIds := db.named graph fun p => if p.isRepost then ∅ else p.tags.toFinset
  let communityIds := db.named graph fun p => p.communityId.toFinset
  if graph = ∅ then db
  else
    (db.removeSignals graph).removeGraph graph commentIds
    |> recomputeRepostCounts survivingRepostTargets
    |> recomputeUserPostCounts authors
    |> recomputeTagCounts tagIds modifiedAt
    |> recomputeCommunityPostCounts communityIds

end Db

/-- What the caller needs to delete the file of a removed image. -/
structure RemovedImageAsset where
  storagePublicId : Option String
  url : Option String
  ownerPublicId : String
  deriving DecidableEq, Repr

/-- What the caller is told of a removed post. -/
structure RemovedPostSummary where
  internalId : ObjectId
  publicId : String
  authorPublicId : String
  deriving DecidableEq, Repr

/-- What the clean-up hands to its caller. -/
structure ContentCleanupResult where
  posts : Multiset RemovedPostSummary
  imageAssets : Multiset RemovedImageAsset

/-- The asset of an image record that is there. -/
def Db.removedImage (db : Db) (ownerPublicId : String) (id : ObjectId) : Option RemovedImageAsset :=
  if id ∈ db.images.ids then
    some ⟨(db.images.doc id).publicId, (db.images.doc id).url, ownerPublicId⟩
  else none

/-- What `deletePostGraph` returns; the images of posts are read after those of comments have been
deleted. -/
def Db.cleanupResult (db : Db) (roots : Finset ObjectId) : ContentCleanupResult :=
  let graph := db.collectPostGraph roots
  let commentIds := db.comments.find fun _ c => decide (c.postId ∈ graph)
  { posts := graph.val.map fun id =>
      ⟨id, (db.posts.doc id).publicId, (db.posts.doc id).author.getD ""⟩
    imageAssets :=
      graph.val.filterMap (fun id => (db.posts.doc id).image.bind
        ((db.removeCommentAttachments commentIds).removedImage
          ((db.posts.doc id).author.getD ""))) +
      (db.commentImages commentIds).val.filterMap (db.removedImage "") }

end Ascendance.ContentCleanup
