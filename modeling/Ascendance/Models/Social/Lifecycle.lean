import Ascendance.Models.Social.Content
import Mathlib.Data.Finset.Sort

/-!
# Account purges

What the participants of `AccountLifecycleService.purgeUser` do, one after the other,
inside the transaction of a ban or of an account deletion.
-/

namespace Ascendance.Social

open Ascendance.Core ContentCleanupService

/-- What happens to an account. -/
inductive AccountLifecycleAction
  | ban
  | delete
  deriving DecidableEq, Repr

/-- The follows of a user. -/
def followersOf (userId : ℕ) : ∀ k, Doc k → Bool := follows fun _ followee => followee == userId

/-- The follows by a user. -/
def followeesOf (userId : ℕ) : ∀ k, Doc k → Bool := follows fun follower _ => follower == userId

/-- The members of a community. -/
def membersOf (communityId : ℕ) : ∀ k, Doc k → Bool :=
  members fun community _ _ => community == communityId

/-- The order in which a query returns documents: the storage has an order of its own, and what it
leaves open follows by identifier. -/
def arrange (natural : List ℕ) (s : Finset ℕ) : List ℕ :=
  natural.dedup.filter (· ∈ s) ++ (s \ natural.toFinset).sort (· ≤ ·)

@[simp] theorem mem_arrange {natural : List ℕ} {s : Finset ℕ} {x : ℕ} :
    x ∈ arrange natural s ↔ x ∈ s := by
  unfold arrange
  simp only [List.mem_append, List.mem_filter, List.mem_dedup, decide_eq_true_eq, Finset.mem_sort,
    Finset.mem_sdiff, List.mem_toFinset]
  tauto

/-- An arrangement of a set lists every element once. -/
theorem nodup_arrange (natural : List ℕ) (s : Finset ℕ) : (arrange natural s).Nodup := by
  unfold arrange
  refine List.Nodup.append ((List.nodup_dedup _).filter _) (Finset.sort_nodup ..) ?_
  intro x hx hx'
  rw [Finset.mem_sort, Finset.mem_sdiff, List.mem_toFinset] at hx'
  exact hx'.2 (List.mem_dedup.mp (List.mem_of_mem_filter hx))

namespace AccountLifecycleService

/-- Likes of the user and of comments by the user go, and the comments become tombstones. -/
def tombstoneComments (userId : ℕ) (db : Store) : Store :=
  let authoredCommentIds :=
    db.find (comments fun _ c => c.userId == some userId || c.departedUserKey == some userId)
  let likedCommentIds := (db.find (commentLikes fun _ user => user == userId)).biUnion fun
    | .commentLike comment _ => {Key.comment comment}
    | _ => ∅
  db
  |>.deleteMany (commentLikes fun comment user =>
      user == userId || decide (.comment comment ∈ authoredCommentIds))
  |> recomputeCommentLikeCounts (authoredCommentIds ∪ likedCommentIds)
  |>.updateMany (onComments fun id c =>
      if .comment id ∈ authoredCommentIds then
        { c with userId := none, isDeleted := true, departedUserKey := some userId, likesCount :=
          0 }
      else c)

/-- Remove the likes of a user and count the likes of their posts anew. -/
def removePostInteractions (userId : ℕ) (db : Store) : Store :=
  let affectedPostIds := (db.find (postLikes fun _ user => user == userId)).biUnion fun
    | .postLike post _ => {Key.post post}
    | _ => ∅
  db
  |>.deleteMany (postLikes fun _ user => user == userId)
  |> recomputePostLikeCounts affectedPostIds

/-- `MongoAccountContentCleanupParticipant.cleanup` -/
def contentCleanup (userId : ℕ) (db : Store) : Store :=
  db
  |> deletePostGraph (findPostIdsByUser userId db)
  |> tombstoneComments userId
  |> removePostInteractions userId

/-- The follows of the user go, and the other users' counters are set to what is left. -/
def removeRelationshipsAndActivity (userId : ℕ) (db : Store) : Store :=
  let involved := follows fun follower followee => follower == userId || followee == userId
  let affectedUserIds := ((db.find involved).biUnion fun
    | .follow follower followee => {Key.user follower, Key.user followee}
    | _ => ∅).erase (.user userId)
  let db := db.deleteMany involved
  db.updateMany (onUsers fun id u =>
    if .user id ∈ affectedUserIds then
      { u with followerCount := db.count (followersOf id)
               followingCount := db.count (followeesOf id) }
    else u)

/-- `MongoAccountConversationCleanupParticipant.preserve`: the user leaves every conversation, and
the direct ones close. -/
def preserve (userId : ℕ) (db : Store) : Store :=
  db.updateMany (onConversations fun id c =>
    if userId ∈ c.participants ∨ userId ∈ c.departedParticipants then
      { c with participants := c.participants.filter (· ≠ userId)
               departedParticipants := c.departedParticipants.filter (· ≠ userId) ++ [userId]
               participantHash := .departed id userId
               isClosed := c.isClosed || !c.isGroup }
    else c)

/-- Who succeeds the creator first. -/
def rolePriority : Role → ℕ
  | .admin => 0
  | .moderator => 1
  | .member => 2

/-- The comparison of candidates, by role and then by age. -/
def Member.precedes (left right : Member) : Bool :=
  rolePriority left.role < rolePriority right.role ||
    rolePriority left.role == rolePriority right.role && left.joinedAt ≤ right.joinedAt

/-- The first candidate to take over a community. -/
def successor (natural : List ℕ) (userId communityId : ℕ) (db : Store) : Option ℕ :=
  let candidateIds := (db.find (members fun community user _ =>
    community == communityId && user != userId)).biUnion fun
    | .member _ user => {user}
    | _ => ∅
  let candidates := (arrange natural candidateIds).filterMap fun user =>
    (db.doc (.member communityId user)).map fun m : Member => (user, m)
  (candidates.mergeSort fun left right => Member.precedes left.2 right.2).head?.map Prod.fst

/-- One community that the user has created: it gets a successor or is deleted. -/
def cleanupCreated (natural : List ℕ) (userId communityId : ℕ) (db : Store) :
    Except AppError (Store × List ℕ) :=
  match successor natural userId communityId db with
  | some user =>
    let db := db.update (.community communityId) fun c : Community => { c with creatorId := user }
    .ok (db.update (.member communityId user) fun m : Member => { m with role := .admin }, [])
  | none =>
    let db := deletePostGraph (findPostIdsByCommunity communityId db) db
    let db := db.deleteMany (membersOf communityId)
    match db.doc (.community communityId) with
    | some _ => .ok (db.delete (.community communityId), [communityId])
    | none => .error (Errors.database "Failed to delete community during account cleanup")

/-- The loop over the created communities; it returns the deleted ones. -/
def cleanupAll (natural : List ℕ) (userId : ℕ) : List ℕ → Store → Except AppError (Store × List ℕ)
  | [], db => .ok (db, [])
  | communityId :: rest, db =>
    match cleanupCreated natural userId communityId db with
    | .error e => .error e
    | .ok (db, deleted) =>
      match cleanupAll natural userId rest db with
      | .error e => .error e
      | .ok (db, deleted') => .ok (db, deleted ++ deleted')

/-- `MongoAccountCommunityCleanupParticipant.cleanup` -/
def communityCleanup (natural : List ℕ) (userId : ℕ) (db : Store) : Except AppError Store :=
  let joined := (db.find (members fun _ user _ => user == userId)).biUnion fun
    | .member community _ => {community}
    | _ => ∅
  let created := (db.find (communities fun _ c => c.creatorId == userId)).biUnion fun
    | .community id => {id}
    | _ => ∅
  match cleanupAll natural userId (arrange natural created) db with
  | .error e => .error e
  | .ok (db, deletedCommunityIds) =>
    let db := db.deleteMany (members fun _ user _ => user == userId)
    let affectedCommunityIds := (joined ∪ created) \ deletedCommunityIds.toFinset
    let db := db.updateMany (onCommunities fun id c =>
      if id ∈ affectedCommunityIds then { c with memberCount := db.count (membersOf id) } else c)
    .ok (db.updateMany (onUsers fun _ u =>
      { u with joinedCommunities := u.joinedCommunities.filter (· ∉ deletedCommunityIds) }))

/-- `MongoAccountRecordCleanupParticipant.finalize` -/
def finalize (action : AccountLifecycleAction) (userId : ℕ) (db : Store) : Store :=
  match action with
  | .ban => db.update (.user userId) fun u : User =>
    { u with isBanned := true, followerCount := 0, followingCount := 0, postCount := 0
             joinedCommunities := [] }
  | .delete => db.delete (.user userId)

/-- The participants of a purge in their order, then the account itself. -/
def purgeUser (natural : List ℕ) (action : AccountLifecycleAction) (userId : ℕ) (db : Store) :
    Except AppError Store :=
  let db := contentCleanup userId db
  let db := removeRelationshipsAndActivity userId db
  let db := preserve userId db
  match communityCleanup natural userId db with
  | .error e => .error e
  | .ok db => .ok (finalize action userId db)

end AccountLifecycleService

end Ascendance.Social
