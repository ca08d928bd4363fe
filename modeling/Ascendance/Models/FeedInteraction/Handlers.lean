import Ascendance.Core.Isolation
import Ascendance.Models.Social.Schema

/-!
# The effects of likes on the feed

A like or an unlike stages an event together with a user action. The handler of the event claims
the user action, which is marked, and adds to the scores of the user for the tags of the post.
Posts are deleted together with the user actions on them. A worker may handle an event any number
of times, and it may stop anywhere.
-/

namespace Ascendance.FeedInteraction

open Ascendance.Core
open Ascendance.Social (AppError)
open Ascendance.Social.Errors (notFound duplicateKey database)

/-- The key of a document. A like names its user action and its event by one number. -/
inductive Key
  | user (id : ℕ)
  | post (id : ℕ)
  | postLike (postId userId : ℕ)
  | userAction (id : ℕ)
  | userPreference (userId : ℕ) (tag : String)
  | event (id : ℕ)
  deriving DecidableEq, Repr

/-- A user. -/
structure User where
  isBanned : Bool
  deriving DecidableEq, Repr

/-- An active post. -/
structure Post where
  tags : List String
  likesCount : ℤ
  deriving DecidableEq, Repr

/-- What a user has done to a post. -/
inductive InteractionType
  | like
  | unlike
  deriving DecidableEq, Repr

/-- A user action; `feedEffectsApplied` is not set before its effects are claimed. -/
structure UserAction where
  userId : ℕ
  actionType : InteractionType
  targetId : ℕ
  feedEffectsApplied : Bool
  deriving DecidableEq, Repr

/-- How much a user likes a tag. -/
structure UserPreference where
  score : ℤ
  deriving DecidableEq, Repr

/-- `UserInteractedWithPostEvent` -/
structure InteractionEvent where
  userId : ℕ
  interactionType : InteractionType
  postId : ℕ
  tags : List String
  activityId : ℕ
  deriving DecidableEq, Repr

/-- The document under a key. -/
abbrev Doc : Key → Type
  | .user _ => User
  | .post _ => Post
  | .postLike _ _ => Unit
  | .userAction _ => UserAction
  | .userPreference _ _ => UserPreference
  | .event _ => InteractionEvent

instance : ∀ k, DecidableEq (Doc k)
  | .user _ => inferInstanceAs (DecidableEq User)
  | .post _ => inferInstanceAs (DecidableEq Post)
  | .postLike _ _ => inferInstanceAs (DecidableEq Unit)
  | .userAction _ => inferInstanceAs (DecidableEq UserAction)
  | .userPreference _ _ => inferInstanceAs (DecidableEq UserPreference)
  | .event _ => inferInstanceAs (DecidableEq InteractionEvent)

/-- The documents. -/
abbrev Store := Database Key Doc

/-- Users, posts and events have identifiers that are never used again. The identifier of a user
action may come back, when the action is inserted anew. -/
def serial : Key → Bool
  | .user _ | .post _ | .event _ => true
  | .postLike _ _ | .userAction _ | .userPreference _ _ => false

/-- How a call ends without an error; a handled event was skipped or recorded. -/
inductive Outcome
  | returned
  | skipped
  | recorded
  deriving DecidableEq, Repr

/-- What a handler throws: an error of the application, or a value that is no identifier. -/
inductive HandlerError
  | app (error : AppError)
  | cast (path : String)
  deriving DecidableEq, Repr

/-- A handler: reads and transactions, until it returns or throws. -/
abbrev Handler := Program Store HandlerError Outcome

/-- Read a document, or fail. -/
def require (k : Key) (error : AppError) (next : Doc k → Handler) : Handler :=
  .read fun db =>
    match db.doc k with
    | some d => next d
    | none => .done (.error (.app error))

/-- `UnitOfWork.executeInTransaction`; an error of the transaction is the handler's. -/
def executeInTransaction (body : Store → Except HandlerError Store) (next : Handler) : Handler :=
  .transact body fun
    | .ok _ => next
    | .error error => .done (.error error)

/-- `handleUnlike` for a post that the user likes, else `handleLike`. -/
def toggleLike (existingLike : Bool) (userId postId : ℕ) (db : Store) : Store :=
  if existingLike then
    (db.delete (.postLike postId userId)).update (.post postId) fun p : Post =>
      { p with likesCount := p.likesCount - 1 }
  else
    (db.put (.postLike postId userId) ()).update (.post postId) fun p : Post =>
      { p with likesCount := p.likesCount + 1 }

/-- The transaction of a like: the like is toggled, the user action is logged, and the event is
staged. -/
def likeBody (eventId userId postId : ℕ) (tags : List String) (db : Store) :
    Except HandlerError Store :=
  let existingLike := (db.doc (.postLike postId userId)).isSome
  let interactionType := if existingLike then InteractionType.unlike else .like
  match db.doc (.userAction eventId), db.doc (.event eventId) with
  | none, none =>
    let db := toggleLike existingLike userId postId db
    let db := db.put (.userAction eventId) (⟨userId, interactionType, postId, false⟩ : UserAction)
    .ok (db.put (.event eventId)
      (⟨userId, interactionType, postId, tags, eventId⟩ : InteractionEvent))
  | _, _ => .error (.app duplicateKey)

/-- `LikeActionByPublicIdCommandHandler` -/
def likeActionByPublicId (eventId userId postId : ℕ) : Handler :=
  require (.user userId) (notFound "User") fun _ =>
  require (.post postId) (notFound "Post") fun existingPost : Post =>
  executeInTransaction (likeBody eventId userId postId existingPost.tags) <|
  require (.post postId) (notFound "Post") fun _ => .done (.ok .returned)

/-- The documents that go with a post: itself, its likes and the user actions on it. -/
def goesWith (postIds : List ℕ) : ∀ k, Doc k → Bool
  | .post id, _ => decide (id ∈ postIds)
  | .postLike post _, _ => decide (post ∈ postIds)
  | .userAction _, action => decide (action.targetId ∈ postIds)
  | .user _, _ => false
  | .userPreference _ _, _ => false
  | .event _, _ => false

/-- `deletePostGraph`, for what `collectPostGraph` finds of some posts. -/
def deletePostGraph (postIds : List ℕ) (db : Store) : Store :=
  let collected := postIds.filter fun id => (db.doc (.post id)).isSome
  db.deleteMany (goesWith collected)

/-- The transaction that deletes posts. -/
def deletePosts (postIds : List ℕ) : Handler :=
  executeInTransaction (fun db => .ok (deletePostGraph postIds db)) (.done (.ok .returned))

/-- `claimFeedEffects`: the user action is inserted if it is not there, and marked if it is not
marked; the second step says whether it was. -/
def claimFeedEffects (activityId userId : ℕ) (actionType : InteractionType) (targetId : ℕ)
    (db : Store) : Bool × Store :=
  let action : UserAction := (db.doc (.userAction activityId)).getD
    ⟨userId, actionType, targetId, false⟩
  if action.feedEffectsApplied then (false, db)
  else (true, db.put (.userAction activityId)
    ({ action with feedEffectsApplied := true } : UserAction))

/-- The score of a tag, which is zero before it is stored. -/
def score (db : Store) (userId : ℕ) (tag : String) : ℤ :=
  match db.doc (.userPreference userId tag) with
  | some p => UserPreference.score p
  | none => 0

/-- `incrementTagScore` -/
def incrementTagScore (userId : ℕ) (increment : ℤ) (db : Store) (tag : String) : Store :=
  db.put (.userPreference userId tag) (⟨score db userId tag + increment⟩ : UserPreference)

/-- `getScoreIncrementForAction` -/
def getScoreIncrementForAction : InteractionType → ℤ
  | .like => 2
  | .unlike => -2

/-- The transaction of `recordInteraction`; a target that is no identifier cannot be cast. -/
def recordBody (event : InteractionEvent) (internalTargetId : Option ℕ) (db : Store) :
    Except HandlerError Store :=
  internalTargetId.elim (.error (.cast "targetId")) fun targetId =>
    let (claimed, db) :=
      claimFeedEffects event.activityId event.userId event.interactionType targetId db
    if claimed then
      .ok (event.tags.dedup.foldl (incrementTagScore event.userId
        (getScoreIncrementForAction event.interactionType)) db)
    else .ok db

/-- `FeedInteractionService.recordInteraction`: the target is the identifier of the post, if the
post is found. -/
def recordInteraction (event : InteractionEvent) : Handler :=
  require (.user event.userId) (notFound "User not found") fun _ =>
  .read fun db =>
    let internalTargetId := if (db.doc (.post event.postId)).isSome then some event.postId else none
    executeInTransaction (recordBody event internalTargetId) (.done (.ok .recorded))

/-- The actor and the post of an interaction are available. -/
def available (actor : Option User) (post : Option Post) : Bool :=
  actor.any (fun user => !user.isBanned) && post.isSome

/-- `FeedInteractionHandler.handle` -/
def handle (event : InteractionEvent) : Handler :=
  .read fun db =>
    let actor : Option User := db.doc (.user event.userId)
    .read fun db =>
      let post : Option Post := db.doc (.post event.postId)
      if available actor post then recordInteraction event
      else .done (.ok .skipped)

/-- A worker handles an event that is staged. -/
def deliver (eventId : ℕ) : Handler :=
  .read fun db =>
    match db.doc (.event eventId) with
    | some event => handle event
    | none => .done (.ok .skipped)

/-- The commands and the deliveries of events. -/
inductive Command
  | likeActionByPublicId (eventId userId postId : ℕ)
  | deletePosts (postIds : List ℕ)
  | deliver (eventId : ℕ)
  deriving DecidableEq, Repr

/-- The handler of a command. -/
def Command.handler : Command → Handler
  | likeActionByPublicId eventId userId postId =>
    FeedInteraction.likeActionByPublicId eventId userId postId
  | deletePosts postIds => FeedInteraction.deletePosts postIds
  | deliver eventId => FeedInteraction.deliver eventId

/-- The handlers on one database. -/
def runtime : Runtime Key Doc Command HandlerError Outcome where
  program := Command.handler
  serial := serial
  taken := .app duplicateKey
  conflict := .app (database "Transaction failed")

section Bodies

variable {db after : Store}

/-- A like leaves everything but the like and its post. -/
theorem toggleLike_doc (existingLike : Bool) (userId postId : ℕ) (db : Store) {k : Key}
    (hlike : k ≠ .postLike postId userId) (hpost : k ≠ .post postId) :
    (toggleLike existingLike userId postId db).doc k = db.doc k := by
  unfold toggleLike
  split
  · rw [Database.doc_update_ne _ _ hpost, Database.doc_delete_ne _ hlike]
  · rw [Database.doc_update_ne _ _ hpost, Database.doc_put_ne _ _ hlike]

/-- A like stores no post and deletes none. -/
theorem toggleLike_post (existingLike : Bool) (userId postId : ℕ) (db : Store) (id : ℕ) :
    ((toggleLike existingLike userId postId db).doc (.post id)).isSome =
      (db.doc (.post id)).isSome := by
  unfold toggleLike
  split
  · rw [Database.isSome_doc_update, Database.doc_delete_ne _ (by simp)]
  · rw [Database.isSome_doc_update, Database.doc_put_ne _ _ (by simp)]

/-- The transaction of a like stages an event and a user action that are new. -/
theorem likeBody_eq {eventId userId postId : ℕ} {tags : List String}
    (h : likeBody eventId userId postId tags db = .ok after) :
    db.doc (.userAction eventId) = none ∧ db.doc (.event eventId) = none ∧
      ∃ (existingLike : Bool) (type : InteractionType),
        after = ((toggleLike existingLike userId postId db).put (.userAction eventId)
          (⟨userId, type, postId, false⟩ : UserAction)).put (.event eventId)
          (⟨userId, type, postId, tags, eventId⟩ : InteractionEvent) := by
  unfold likeBody at h
  dsimp only at h
  split at h
  · next haction hevent => exact ⟨haction, hevent, _, _, (Except.ok.inj h).symm⟩
  · cases h

/-- The scores of some tags are raised, and nothing else changes. -/
theorem incrementTagScores_doc (userId : ℕ) (increment : ℤ) (tags : List String) (db : Store)
    {k : Key} (hk : ∀ tag, k ≠ .userPreference userId tag) :
    (tags.foldl (incrementTagScore userId increment) db).doc k = db.doc k := by
  induction tags generalizing db with
  | nil => rfl
  | cons tag tags ih =>
    rw [List.foldl_cons, ih]
    exact Database.doc_put_ne _ _ (hk tag)

/-- Raising the score of a tag raises it alone. -/
theorem score_incrementTagScore (userId user : ℕ) (increment : ℤ) (tag t : String) (db : Store) :
    score (incrementTagScore userId increment db tag) user t =
      score db user t + if user = userId ∧ t = tag then increment else 0 := by
  by_cases hk : Key.userPreference user t = .userPreference userId tag
  · obtain ⟨rfl, rfl⟩ := Key.userPreference.inj hk
    unfold incrementTagScore
    rw [score, Database.doc_put_self, if_pos ⟨rfl, rfl⟩]
  · have hne : ¬ (user = userId ∧ t = tag) := by
      rintro ⟨rfl, rfl⟩
      exact hk rfl
    rw [score, incrementTagScore, Database.doc_put_ne _ _ hk, if_neg hne, add_zero, score]

/-- Each tag of a list without repetitions is raised once. -/
theorem score_incrementTagScores (userId user : ℕ) (increment : ℤ) {tags : List String}
    (hnodup : tags.Nodup) (t : String) (db : Store) :
    score (tags.foldl (incrementTagScore userId increment) db) user t =
      score db user t + if user = userId ∧ t ∈ tags then increment else 0 := by
  induction tags generalizing db with
  | nil => simp
  | cons tag tags ih =>
    obtain ⟨hnot, hnodup⟩ := List.nodup_cons.mp hnodup
    rw [List.foldl_cons, ih hnodup, score_incrementTagScore, add_assoc]
    congr 1
    by_cases huser : user = userId
    · by_cases htag : t = tag
      · subst htag
        simp [huser, hnot]
      · simp [huser, htag]
    · simp [huser]

/-- The user action of an event is marked. -/
def marked (db : Store) (eventId : ℕ) : Bool :=
  (db.doc (.userAction eventId)).any fun action : UserAction => action.feedEffectsApplied

/-- Recording leaves a marked user action as it is, or marks it and raises the scores. -/
theorem recordBody_eq {event : InteractionEvent} {target : Option ℕ}
    (h : recordBody event target db = .ok after) :
    marked db event.activityId = true ∧ after = db ∨
      marked db event.activityId = false ∧ ∃ (targetId : ℕ) (action : UserAction),
        action = (db.doc (.userAction event.activityId)).getD
          (⟨event.userId, event.interactionType, targetId, false⟩ : UserAction) ∧
        after = event.tags.dedup.foldl (incrementTagScore event.userId
          (getScoreIncrementForAction event.interactionType))
          (db.put (.userAction event.activityId)
            ({ action with feedEffectsApplied := true } : UserAction)) := by
  unfold recordBody claimFeedEffects at h
  cases target with
  | none => cases h
  | some targetId =>
    unfold marked
    cases haction : db.doc (.userAction event.activityId) with
    | none =>
      rw [haction] at h
      exact .inr ⟨rfl, targetId, _, rfl, (Except.ok.inj h).symm⟩
    | some action =>
      rw [haction] at h
      cases hflag : action.feedEffectsApplied with
      | true =>
        simp [hflag] at h
        exact .inl ⟨hflag, h.symm⟩
      | false =>
        simp [hflag] at h
        exact .inr ⟨hflag, targetId, action, rfl, h.symm⟩

end Bodies

end Ascendance.FeedInteraction
