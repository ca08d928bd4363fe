import Ascendance.Core.Isolation

/-!
# Recording post views

A view is one document under a unique pair of a post and a user, stored in the
transaction that increments the counter of the post. A Bloom filter in front of
it may answer anything or fail; calls of the handler interleave step by step.
-/

namespace Ascendance.PostViews

open Ascendance.Core

/-- The key of a document; the unique index on post and user is the key of a view. -/
inductive Key
  | user (id : ℕ)
  | post (id : ℕ)
  | view (postId userId : ℕ)
  deriving DecidableEq, Repr

/-- A user, by the flags that decide what may be viewed. -/
structure User where
  isAdmin : Bool
  isBanned : Bool
  deriving DecidableEq, Repr

/-- A post, by its owner, its state and its counter. -/
structure Post where
  /-- The owner, `post.user ?? post.author?._id`. -/
  user : Option ℕ
  isActive : Bool
  viewsCount : ℤ
  deriving DecidableEq, Repr

/-- The type of the document under a key. -/
abbrev Doc : Key → Type
  | .user _ => User
  | .post _ => Post
  | .view _ _ => Unit

instance : ∀ k, DecidableEq (Doc k)
  | .user _ => inferInstanceAs (DecidableEq User)
  | .post _ => inferInstanceAs (DecidableEq Post)
  | .view _ _ => inferInstanceAs (DecidableEq Unit)

/-- The users, the posts and the views. -/
abbrev Store := Database Key Doc

/-- Is the user the owner of the post? -/
def isPostOwnedBy (post : Post) (userId : ℕ) : Bool := post.user == some userId

/-- May the user view the post? -/
def canPostBeViewedBy (post : Post) (userId : ℕ) (user : User) : Bool :=
  if user.isAdmin then true
  else if user.isBanned && !isPostOwnedBy post userId then false
  else true

/-- Posts are found by their public identifier when they are active. -/
def findOneByPublicId (postId : ℕ) (db : Store) : Option Post :=
  (db.doc (.post postId)).filter Post.isActive

/-- The upsert of a view, and whether it inserted. -/
def recordView (postId userId : ℕ) (db : Store) : Store × Bool :=
  match db.doc (.view postId userId) with
  | some _ => (db, false)
  | none => (db.put (.view postId userId) (), true)

/-- Has the user viewed the post before? -/
def hasViewed (postId userId : ℕ) (db : Store) : Bool := (db.doc (.view postId userId)).isSome

/-- Count a view of the post. -/
def incrementViewCount (postId : ℕ) (db : Store) : Store :=
  db.update (.post postId) fun p : Post => { p with viewsCount := p.viewsCount + 1 }

/-- The body of the transaction. -/
def recordBody (postId userId : ℕ) (db : Store) : Store × Bool :=
  let (db, recorded) := recordView postId userId db
  (if recorded then incrementViewCount postId db else db, recorded)

/-- A user views a post. -/
structure RecordPostViewCommand where
  postId : ℕ
  userId : ℕ
  deriving DecidableEq, Repr

/-- How recording a view can fail. -/
inductive Failure
  | postNotFound
  | userNotFound
  | postAuthorization
  | duplicateKey
  | ambiguousTransactionCommit
  | other
  deriving DecidableEq, Repr

/-- Where a call of `execute` is; `marking` is about to add the view to the Bloom filter. -/
inductive Phase
  | idle
  | findingPost (command : RecordPostViewCommand)
  | findingUser (command : RecordPostViewCommand) (post : Post)
  | askingBloom (command : RecordPostViewCommand)
  | beginning (command : RecordPostViewCommand)
  | inside (command : RecordPostViewCommand) (snapshot : Committed Key Doc)
  | checkingAgain (command : RecordPostViewCommand)
  | marking (command : RecordPostViewCommand) (isNewView : Bool)
  | settled (command : RecordPostViewCommand) (outcome : Except Failure Bool)

/-- What follows the query for the user. -/
def afterUser (command : RecordPostViewCommand) (post : Post) : Option User → Phase
  | none => .settled command (.error .userNotFound)
  | some user =>
    if isPostOwnedBy post command.userId then .settled command (.ok false)
    else if canPostBeViewedBy post command.userId user then .askingBloom command
    else .settled command (.error .postAuthorization)

/-- A view document that was inserted: by which call, and whether the outcome of its commit was
reported as ambiguous. -/
structure Insertion where
  call : ℕ
  command : RecordPostViewCommand
  ambiguous : Bool
  deriving DecidableEq, Repr

/-- The committed documents, the calls, and the insertions so far, which no step reads. -/
structure World where
  state : Committed Key Doc
  phase : ℕ → Phase
  inserted : List Insertion

/-- A step of one call, with what its environment answers. -/
inductive Event
  | start (i : ℕ) (command : RecordPostViewCommand)
  /-- The next query, or the begin of a transaction. -/
  | advance (i : ℕ)
  /-- The answer of the Bloom filter; none when the read fails. -/
  | bloomRead (i : ℕ) (answer : Option Bool)
  /-- The seeding of the Bloom filter, which may fail. -/
  | bloomAdd (i : ℕ) (success : Bool)
  | commit (i : ℕ)
  /-- A commit that is reported as ambiguous; it was applied or not. -/
  | lose (i : ℕ) (applied : Bool)
  /-- The body runs again after a transient error or a write conflict. -/
  | retry (i : ℕ)
  /-- The insert meets a key that is taken. -/
  | duplicate (i : ℕ)
  /-- A query or the transaction fails for good. -/
  | fail (i : ℕ)

namespace World

/-- Nothing has been called. -/
def initial (state : Committed Key Doc) : World := ⟨state, fun _ => .idle, []⟩

/-- Put a call into another phase. -/
def setPhase (w : World) (i : ℕ) (phase : Phase) : World :=
  { w with phase := Function.update w.phase i phase }

/-- The commit of a body that ran on a snapshot. -/
def apply (w : World) (i : ℕ) (command : RecordPostViewCommand) (snapshot : Committed Key Doc)
    (ambiguous : Bool) (phase : Phase) : World :=
  let (after, recorded) := recordBody command.postId command.userId snapshot.db
  { state := snapshot.commit w.state after
    phase := Function.update w.phase i phase
    inserted := if recorded then ⟨i, command, ambiguous⟩ :: w.inserted else w.inserted }

/-- The documents that a body changes were not written since its snapshot. -/
def MayCommit (w : World) (command : RecordPostViewCommand) (snapshot : Committed Key Doc) : Prop :=
  snapshot.Fresh w.state (recordBody command.postId command.userId snapshot.db).1

instance (w : World) (command : RecordPostViewCommand) (snapshot : Committed Key Doc) :
    Decidable (w.MayCommit command snapshot) :=
  inferInstanceAs (Decidable (snapshot.Fresh w.state _))

/-- The effect of an event, where it can happen. -/
def step (w : World) : Event → Option World
  | .start i command =>
    match w.phase i with
    | .idle => some (w.setPhase i (.findingPost command))
    | _ => none
  | .advance i =>
    match w.phase i with
    | .findingPost command =>
      match findOneByPublicId command.postId w.state.db with
      | none => some (w.setPhase i (.settled command (.error .postNotFound)))
      | some post => some (w.setPhase i (.findingUser command post))
    | .findingUser command post =>
      some (w.setPhase i (afterUser command post (w.state.db.doc (.user command.userId))))
    | .beginning command => some (w.setPhase i (.inside command w.state))
    | .checkingAgain command =>
      if hasViewed command.postId command.userId w.state.db then
        some (w.setPhase i (.marking command false))
      else some (w.setPhase i (.settled command (.error .duplicateKey)))
    | _ => none
  | .bloomRead i answer =>
    match w.phase i with
    | .askingBloom command =>
      if answer = some true then some (w.setPhase i (.settled command (.ok false)))
      else some (w.setPhase i (.beginning command))
    | _ => none
  | .bloomAdd i _ =>
    match w.phase i with
    | .marking command isNewView => some (w.setPhase i (.settled command (.ok isNewView)))
    | _ => none
  | .commit i =>
    match w.phase i with
    | .inside command snapshot =>
      if w.MayCommit command snapshot then
        some (w.apply i command snapshot false (.marking command
          (recordBody command.postId command.userId snapshot.db).2))
      else none
    | _ => none
  | .lose i applied =>
    match w.phase i with
    | .inside command snapshot =>
      let lost := .settled command (.error .ambiguousTransactionCommit)
      if applied then
        if w.MayCommit command snapshot then some (w.apply i command snapshot true lost) else none
      else some (w.setPhase i lost)
    | _ => none
  | .retry i =>
    match w.phase i with
    | .inside command _ => some (w.setPhase i (.beginning command))
    | _ => none
  | .duplicate i =>
    match w.phase i with
    | .inside command snapshot =>
      if snapshot.Taken w.state (recordBody command.postId command.userId snapshot.db).1 then
        some (w.setPhase i (.checkingAgain command))
      else none
    | _ => none
  | .fail i =>
    match w.phase i with
    | .findingPost command | .findingUser command _ | .beginning command | .inside command _
    | .checkingAgain command => some (w.setPhase i (.settled command (.error .other)))
    | _ => none

end World

end Ascendance.PostViews
