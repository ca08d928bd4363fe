import Ascendance.Models.Social.Follows
import Ascendance.Models.Social.MembershipBodies
import Ascendance.Models.Social.PostCounters

/-!
# What a purge leaves of an account

A purge goes through on every store, and nothing that belongs to the user is left: no posts and no
reposts of them, no likes, follows and memberships, no authored comments and created communities.
-/

namespace Ascendance.Social

open Ascendance.Core ContentCleanupService AccountLifecycleService

/-- Documents of the listed collections stay as they are, or go. -/
def Shrinks (C : List Collection) (db after : Store) : Prop :=
  ∀ k, k.collection ∈ C → ∀ d, after.doc k = some d → db.doc k = some d

/-- The collections of which a purge only deletes documents, once the comments are tombstones. -/
def shrinking : List Collection := [.comments, .commentLikes, .postLikes, .follows]

namespace Shrinks

variable {C D : List Collection} {db db' after : Store}

/-- Nothing grows from a store to itself. -/
theorem refl (db : Store) : Shrinks C db db := fun _ _ _ hd => hd

/-- Two shrinking changes shrink. -/
theorem trans (h : Shrinks C db db') (h' : Shrinks C db' after) : Shrinks C db after :=
  fun k hk d hd => h k hk d (h' k hk d hd)

private theorem of_confined (h : Confined D db after) (hcs : ∀ c ∈ D, c ∉ C) : Shrinks C db after :=
  fun k hk _ hd => (h k fun hmem => hcs _ hmem hk).symm.trans hd

/-- A deletion shrinks. -/
theorem deleteMany (p : ∀ k, Doc k → Bool) : Shrinks C db (db.deleteMany p) :=
  fun _ _ _ hd => (Database.doc_deleteMany_eq_some.mp hd).1

/-- Deleting posts shrinks the collections in question. -/
theorem deletePostGraph (roots : Finset Key) (db : Store) :
    Shrinks shrinking db (deletePostGraph roots db) := by
  unfold ContentCleanupService.deletePostGraph
  dsimp only
  split
  · exact .refl db
  · rw [deleteGraph_eq]
    exact .trans (.deleteMany _) (.of_confined (D := [.posts, .users, .communities])
      (.trans (.trans (.updateMany fun _ _ => onPosts_outside (by simp))
        (.updateMany fun _ _ => onUsers_outside (by simp)))
        (.updateMany fun _ _ => onCommunities_outside (by simp))) (by decide))

/-- Cleaning up a community shrinks the collections in question. -/
theorem cleanupCreated {natural : List ℕ} {userId communityId : ℕ} {deleted : List ℕ}
    (h : cleanupCreated natural userId communityId db = .ok (after, deleted)) :
    Shrinks shrinking db after := by
  rcases cleanupCreated_eq h with ⟨user, _, _, rfl⟩ | ⟨_, _, rfl⟩
  · exact .of_confined (D := [.communities, .members])
      (.trans (.update (by simp)) (.update (by simp))) (by decide)
  · have hgone : ∀ db : Store, Shrinks shrinking db (db.delete (.community communityId)) :=
      fun db => .of_confined (D := [.communities]) (.delete (by simp)) (by decide)
    exact ((deletePostGraph _ db).trans (.deleteMany _)).trans (hgone _)

end Shrinks

section Steps

variable {db after : Store} {userId : ℕ}

/-- Comments go with their posts. -/
theorem comment_deletePostGraph {roots : Finset Key} {id : ℕ} {c : Comment}
    (hc : (deletePostGraph roots db).doc (.comment id) = some c) :
    Key.post c.postId ∉ collectPostGraph roots db := by
  unfold deletePostGraph at hc
  dsimp only at hc
  split at hc
  · next hempty =>
    rw [hempty]
    exact Finset.notMem_empty _
  · have hrest : ∀ (s t u : Finset Key) (db : Store), (recomputeCommunityPostCounts u
        (recomputeUserPostCounts t (recomputeRepostCounts s db))).doc (.comment id) =
          db.doc (.comment id) := by
      intro s t u db
      exact Confined.trans (C := [.posts, .users, .communities])
        (.trans (.updateMany fun _ _ => onPosts_outside (by simp))
          (.updateMany fun _ _ => onUsers_outside (by simp)))
        (.updateMany fun _ _ => onCommunities_outside (by simp)) (.comment id) (by simp)
    rw [hrest, deleteGraph_eq, Database.doc_deleteMany_eq_some] at hc
    simpa [goesWith] using hc.2

/-- Comments of the user are tombstones. -/
theorem comment_tombstoneComments {id : ℕ} {c : Comment}
    (hc : (tombstoneComments userId db).doc (.comment id) = some c) : c.userId ≠ some userId := by
  unfold tombstoneComments recomputeCommentLikeCounts recompute at hc
  dsimp only at hc
  rw [Database.doc_updateMany, Database.doc_updateMany] at hc
  obtain ⟨c', hc', rfl⟩ := Option.map_eq_some_iff.mp hc
  obtain ⟨c₀, hc₀, rfl⟩ := Option.map_eq_some_iff.mp hc'
  obtain ⟨hstored, -⟩ := Database.doc_deleteMany_eq_some.mp hc₀
  change Comment.userId (if _ then _ else _) ≠ _
  split
  · simp
  · next hnot =>
    change Comment.userId (if _ then _ else _) ≠ _
    intro huser
    refine hnot (Database.mem_find.mpr ⟨c₀, hstored, ?_⟩)
    have hauthor : Comment.userId c₀ = some userId := by
      rw [← huser]
      split <;> rfl
    simp [hauthor]

/-- No like of a comment by the user is left. -/
private theorem commentLike_tombstoneComments (id : ℕ) :
    (tombstoneComments userId db).doc (.commentLike id userId) = none := by
  unfold tombstoneComments recomputeCommentLikeCounts recompute
  dsimp only
  rw [Database.doc_updateMany, Database.doc_updateMany, Database.doc_deleteMany]
  cases db.doc (.commentLike id userId) <;> simp [Option.filter]

/-- No like of a post by the user is left. -/
private theorem postLike_removePostInteractions (id : ℕ) :
    (removePostInteractions userId db).doc (.postLike id userId) = none := by
  unfold removePostInteractions recomputePostLikeCounts recompute
  dsimp only
  rw [Database.doc_updateMany, Database.doc_deleteMany]
  cases db.doc (.postLike id userId) <;> simp [Option.filter]

/-- The user has left every conversation, and the direct ones are closed. -/
theorem conversation_preserve {id : ℕ} {c : Conversation}
    (hc : (preserve userId db).doc (.conversation id) = some c) :
    userId ∉ c.participants ∧
      (userId ∈ c.departedParticipants → c.isGroup = false → c.isClosed = true) := by
  unfold preserve at hc
  rw [Database.doc_updateMany] at hc
  obtain ⟨c₀, hc₀, rfl⟩ := Option.map_eq_some_iff.mp hc
  rw [onConversations_conversation]
  split
  · refine ⟨by simp, fun _ hgroup => ?_⟩
    have hdirect : c₀.isGroup = false := hgroup
    simp [hdirect]
  · next hnot =>
    obtain ⟨hin, hleft⟩ := not_or.mp hnot
    exact ⟨hin, fun hdeparted => absurd hdeparted hleft⟩

/-- Content that goes leaves the communities and their creators. -/
theorem community_deletePostGraph (roots : Finset Key) {id : ℕ} {c : Community}
    (hc : (deletePostGraph roots db).doc (.community id) = some c) :
    ∃ c₀ : Community, db.doc (.community id) = some c₀ ∧ c₀.creatorId = c.creatorId := by
  obtain ⟨c₀, hc₀, hvalue⟩ := (sameMembership_deletePostGraph roots db).exists_of_doc
    (k := Key.community id) (by simp [membershipFields]) hc
  exact ⟨c₀, hc₀, (congrArg Prod.fst hvalue).symm⟩

/-- Deleting posts deletes no community. -/
private theorem community_deletePostGraph_ne_none (roots : Finset Key) {id : ℕ}
    (hc : db.doc (.community id) ≠ none) :
    (deletePostGraph roots db).doc (.community id) ≠ none := by
  obtain ⟨c, hc⟩ := Option.ne_none_iff_exists'.mp hc
  obtain ⟨c', hc', -⟩ := (sameMembership_deletePostGraph roots db).symm.exists_of_doc
    (k := Key.community id) (by simp [membershipFields]) hc
  simp [hc']

/-- One round deals with one community: it is deleted, or somebody else is its creator. -/
theorem cleanupCreated_complete (natural : List ℕ) (userId : ℕ) {communityId : ℕ}
    (hstored : db.doc (.community communityId) ≠ none) :
    ∃ db' deleted, cleanupCreated natural userId communityId db = .ok (db', deleted) ∧
      (∀ (c : Community), db'.doc (.community communityId) = some c → c.creatorId ≠ userId) ∧
      ∀ id, id ≠ communityId → (db.doc (.community id) ≠ none → db'.doc (.community id) ≠ none) ∧
        ∀ (c : Community), db'.doc (.community id) = some c →
          ∃ c₀ : Community, db.doc (.community id) = some c₀ ∧ c₀.creatorId = c.creatorId := by
  unfold cleanupCreated
  cases hsuccessor : successor natural userId communityId db with
  | some user =>
    have hmember : ∀ (f : Member → Member) (db : Store) id,
        (db.update (.member communityId user) f).doc (.community id) = db.doc (.community id) :=
      fun f db id => Database.doc_update_ne (k := Key.member communityId user) db f (by simp)
    refine ⟨_, _, rfl, fun c hc => ?_, fun id hid => ⟨fun h => ?_, fun c hc => ?_⟩⟩
    · rw [hmember, Database.doc_update_self] at hc
      obtain ⟨c₀, -, rfl⟩ := Option.map_eq_some_iff.mp hc
      exact (successor_member hsuccessor).1
    · rwa
        [hmember, Database.doc_update_ne (k := Key.community communityId) _ _ (by simpa using hid)]
    · rw [hmember, Database.doc_update_ne (k := Key.community communityId) _ _
        (by simpa using hid)] at hc
      exact ⟨c, hc, rfl⟩
  | none =>
    let graph := deletePostGraph (findPostIdsByCommunity communityId db) db
    have hmembers : ∀ id, (graph.deleteMany (membersOf communityId)).doc (.community id) =
        graph.doc (.community id) := fun id =>
      Confined.deleteMany (C := [.members]) (fun _ _ => members_outside (by simp)) (.community id)
        (by simp)
    obtain ⟨c, hc⟩ := Option.ne_none_iff_exists'.mp
      (community_deletePostGraph_ne_none (findPostIdsByCommunity communityId db) hstored)
    have hround : ((graph.deleteMany (membersOf communityId)).doc (.community communityId)) =
        some c := (hmembers communityId).trans hc
    dsimp only
    rw [show (Database.deleteMany (deletePostGraph (findPostIdsByCommunity communityId db) db)
      (membersOf communityId)).doc (.community communityId) = some c from hround]
    refine ⟨_, _, rfl, fun c hc => ?_, fun id hid => ⟨fun h => ?_, fun c hc => ?_⟩⟩
    · rw [Database.doc_delete_self] at hc
      cases hc
    · rw [Database.doc_delete_ne _ (by simpa using hid)]
      exact fun hnone => community_deletePostGraph_ne_none _ h ((hmembers id).symm.trans hnone)
    · rw [Database.doc_delete_ne _ (by simpa using hid)] at hc
      exact community_deletePostGraph _ ((hmembers id).symm.trans hc)

/-- The loop goes through, and no listed community is left to the user. -/
theorem cleanupAll_complete (natural : List ℕ) (userId : ℕ) {created : List ℕ}
    (hnodup : created.Nodup)
    (hstored : ∀ id ∈ created, db.doc (.community id) ≠ none) :
    ∃ db' deleted, cleanupAll natural userId created db = .ok (db', deleted) ∧
      ∀ id (c : Community), db'.doc (.community id) = some c →
        (id ∈ created → c.creatorId ≠ userId) ∧ (id ∉ created →
          ∃ c₀ : Community, db.doc (.community id) = some c₀ ∧ c₀.creatorId = c.creatorId) := by
  induction created generalizing db with
  | nil => exact ⟨db, [], rfl, fun id c hc => ⟨by simp, fun _ => ⟨c, hc, rfl⟩⟩⟩
  | cons communityId rest ih =>
    obtain ⟨hnot, hnodup⟩ := List.nodup_cons.mp hnodup
    obtain ⟨db', first, hround, hdone, hothers⟩ := cleanupCreated_complete natural userId
      (hstored communityId (List.mem_cons_self ..))
    have hstored' : ∀ id ∈ rest, db'.doc (.community id) ≠ none := fun id hid =>
      (hothers id (by rintro rfl; exact hnot hid)).1 (hstored id (List.mem_cons_of_mem _ hid))
    obtain ⟨db'', deleted, hrest, hleft⟩ := ih hnodup hstored'
    refine ⟨db'', first ++ deleted, ?_, fun id c hc => ⟨fun hid => ?_, fun hid => ?_⟩⟩
    · unfold cleanupAll
      rw [hround]
      dsimp only
      rw [hrest]
    · by_cases hmem : id ∈ rest
      · exact (hleft id c hc).1 hmem
      · obtain rfl := (List.mem_cons.mp hid).resolve_right hmem
        obtain ⟨c', hc', hsame⟩ := (hleft id c hc).2 hmem
        rw [← hsame]
        exact hdone c' hc'
    · obtain ⟨hne, hmem⟩ := not_or.mp fun h => hid (List.mem_cons.mpr h)
      obtain ⟨c', hc', hsame⟩ := (hleft id c hc).2 hmem
      obtain ⟨c₀, hc₀, hsame'⟩ := (hothers id hne).2 c' hc'
      exact ⟨c₀, hc₀, hsame'.trans hsame⟩

end Steps

/-- Nothing in a store belongs to a user any more. -/
structure Erased (userId : ℕ) (before after : Store) : Prop where
  posts : ∀ id (p : Post), after.doc (.post id) = some p → p.user ≠ userId
  reposts : ∀ id (p : Post) target (q : Post), after.doc (.post id) = some p →
    p.repostOf = some target → before.doc (.post target) = some q → q.user ≠ userId
  comments : ∀ id (c : Comment), after.doc (.comment id) = some c → c.userId ≠ some userId
  threads : ∀ id (c : Comment) (q : Post), after.doc (.comment id) = some c →
    before.doc (.post c.postId) = some q → q.user ≠ userId
  commentLikes : ∀ id, after.doc (.commentLike id userId) = none
  postLikes : ∀ id, after.doc (.postLike id userId) = none
  follows : ∀ follower followee, follower = userId ∨ followee = userId →
    after.doc (.follow follower followee) = none
  memberships : ∀ id, after.doc (.member id userId) = none
  communities : ∀ id (c : Community), after.doc (.community id) = some c → c.creatorId ≠ userId
  conversations : ∀ id (c : Conversation), after.doc (.conversation id) = some c →
    userId ∉ c.participants ∧
      (userId ∈ c.departedParticipants → c.isGroup = false → c.isClosed = true)

/-- The account is banned with empty counters, or it is gone. -/
def Closed (action : AccountLifecycleAction) (userId : ℕ) (after : Store) : Prop :=
  match action with
  | .ban => ∀ u : User, after.doc (.user userId) = some u → u.isBanned = true ∧
    u.followerCount = 0 ∧ u.followingCount = 0 ∧ u.postCount = 0 ∧ u.joinedCommunities = []
  | .delete => after.doc (.user userId) = none

section Purge

variable {db : Store} {userId : ℕ}

/-- The last step closes the account. -/
private theorem closed_finalize (action : AccountLifecycleAction) (userId : ℕ) (db : Store) :
    Closed action userId (finalize action userId db) := by
  cases action with
  | ban =>
    intro u hu
    dsimp only [finalize] at hu
    rw [Database.doc_update_self] at hu
    obtain ⟨u₀, -, rfl⟩ := Option.map_eq_some_iff.mp hu
    exact ⟨rfl, rfl, rfl, rfl, rfl⟩
  | delete => exact Database.doc_delete_self db _

/-- Finalising the account keeps the user erased. -/
theorem Erased.finalize {before : Store} (h : Erased userId before db)
    (action : AccountLifecycleAction) : Erased userId before (finalize action userId db) := by
  have hother : ∀ {k : Key}, k ≠ .user userId → (AccountLifecycleService.finalize action userId
      db).doc k = db.doc k := fun hk => finalize_other action hk
  exact {
    posts := fun id p hp => h.posts id p ((hother (by simp)).symm.trans hp)
    reposts := fun id p target q hp => h.reposts id p target q ((hother (by simp)).symm.trans hp)
    comments := fun id c hc => h.comments id c ((hother (by simp)).symm.trans hc)
    threads := fun id c q hc => h.threads id c q ((hother (by simp)).symm.trans hc)
    commentLikes := fun id => (hother (by simp)).trans (h.commentLikes id)
    postLikes := fun id => (hother (by simp)).trans (h.postLikes id)
    follows := fun follower followee hself =>
      (hother (by simp)).trans (h.follows follower followee hself)
    memberships := fun id => (hother (by simp)).trans (h.memberships id)
    communities := fun id c hc => h.communities id c ((hother (by simp)).symm.trans hc)
    conversations := fun id c hc => h.conversations id c ((hother (by simp)).symm.trans hc) }

/-- The clean-up of the content leaves no content of the user, and none that hangs on it. -/
theorem contentCleanup_complete (db : Store) {left : Store}
    (hstays : identity.Stays (contentCleanup userId db) left)
    (hshrinks : Shrinks shrinking (contentCleanup userId db) left) :
    (∀ id (p : Post), left.doc (.post id) = some p → p.user ≠ userId) ∧
    (∀ id (p : Post) target (q : Post), left.doc (.post id) = some p → p.repostOf = some target →
      db.doc (.post target) = some q → q.user ≠ userId) ∧
    (∀ id (c : Comment), left.doc (.comment id) = some c → c.userId ≠ some userId) ∧
    (∀ id (c : Comment) (q : Post), left.doc (.comment id) = some c →
      db.doc (.post c.postId) = some q → q.user ≠ userId) ∧
    (∀ id, left.doc (.commentLike id userId) = none) ∧
    ∀ id, left.doc (.postLike id userId) = none := by
  let roots := findPostIdsByUser userId db
  let graph := deletePostGraph roots db
  have hgraph : identity.Stays graph left :=
    .trans
      (.trans (stays_tombstoneComments userId graph) (stays_removePostInteractions userId _)) hstays
  -- The interactions with posts leave the comments and their likes.
  have hcomments : ∀ {k : Key}, k.collection ∉ [Collection.postLikes, .posts] →
      (contentCleanup userId db).doc k = (tombstoneComments userId graph).doc k :=
    fun hk => removePostInteractions_confined userId _ _ hk
  have hroot : ∀ {id : ℕ} {q : Post}, db.doc (.post id) = some q → q.user = userId →
      Key.post id ∈ collectPostGraph roots db := fun hq huser =>
    root_mem_collectPostGraph hq (Database.mem_find.mpr ⟨_, hq, by simp [huser]⟩)
  refine ⟨fun id p hp huser => ?_, fun id p target q hp htarget hq huser => ?_, fun id c hc => ?_,
    fun id c q hc hq huser => ?_, fun id => ?_, fun id => ?_⟩
  · obtain ⟨p', hp', hvalue⟩ := hgraph.exists_of_doc (identity_post id) hp
    obtain ⟨q, hq, huser'⟩ := user_of_stays (stays_deletePostGraph roots db) hp'
    have hmem := hroot hq (huser'.trans ((congrArg Prod.fst hvalue).trans huser))
    cases hp'.symm.trans (doc_deletePostGraph hmem)
  · obtain ⟨p', hp', hvalue⟩ := hgraph.exists_of_doc (identity_post id) hp
    obtain ⟨p₀, hp₀, hvalue'⟩ :=
      (stays_deletePostGraph (T := identity) roots db).exists_of_doc (identity_post id) hp'
    have htarget₀ : Post.repostOf p₀ = some target := by
      rw [← htarget]
      exact congrArg (fun i => i.2.2.1) (hvalue'.trans hvalue)
    have hmem := repost_mem_collectPostGraph hp₀ htarget₀ (hroot hq huser)
    cases hp'.symm.trans (doc_deletePostGraph hmem)
  · have hc' := hshrinks (.comment id) (by simp [shrinking]) c hc
    rw [hcomments (by simp)] at hc'
    exact comment_tombstoneComments hc'
  · obtain ⟨c', hc', hvalue⟩ := hgraph.exists_of_doc (identity_comment id) hc
    refine comment_deletePostGraph hc' ?_
    rw [show Comment.postId c' = c.postId from congrArg Prod.fst hvalue]
    exact hroot hq huser
  · cases hlike : left.doc (.commentLike id userId) with
    | none => rfl
    | some d =>
      have hd := hshrinks (.commentLike id userId) (by simp [shrinking]) d hlike
      rw [hcomments (by simp), commentLike_tombstoneComments] at hd
      cases hd
  · cases hlike : left.doc (.postLike id userId) with
    | none => rfl
    | some d =>
      have hd := hshrinks (.postLike id userId) (by simp [shrinking]) d hlike
      cases hd.symm.trans (postLike_removePostInteractions id)

private theorem cleanupCreated_confined {natural : List ℕ} {communityId : ℕ} {deleted : List ℕ}
    {after : Store} (h : cleanupCreated natural userId communityId db = .ok (after, deleted)) :
    Confined [.commentLikes, .comments, .postLikes, .posts, .users, .communities, .members] db
      after := by
  rcases cleanupCreated_eq h with ⟨user, _, _, rfl⟩ | ⟨_, _, rfl⟩
  · exact .trans (.update (by simp)) (.update (by simp))
  · exact .trans (.trans ((deletePostGraph_confined _ db).mono (by simp))
      (.deleteMany fun _ _ => members_outside (by simp))) (.delete (by simp))

/-- The clean-up of the communities goes through, and it leaves the user no community and no
membership. -/
theorem communityCleanup_complete (natural : List ℕ) (userId : ℕ) (db : Store) :
    ∃ left, communityCleanup natural userId db = .ok left ∧
      (∀ id, left.doc (.member id userId) = none) ∧
      ∀ id (c : Community), left.doc (.community id) = some c → c.creatorId ≠ userId := by
  have hstored : ∀ id ∈ arrange natural (createdBy userId db), db.doc (.community id) ≠ none := by
    intro id hid
    obtain ⟨c, hc, -⟩ := mem_createdBy.mp (mem_arrange.mp hid)
    simp [hc]
  obtain ⟨db', deleted, hall, hcreators⟩ :=
    cleanupAll_complete natural userId (nodup_arrange natural _) hstored
  let left := leaveCommunities userId
    ((joinedBy userId db ∪ createdBy userId db) \ deleted.toFinset) deleted db'
  have hcommunity : communityCleanup natural userId db = .ok left := by
    unfold communityCleanup
    dsimp only
    split
    · next error herror => cases herror.symm.trans hall
    · next db'' deleted' hok =>
      obtain ⟨rfl, rfl⟩ := Prod.mk.inj (Except.ok.inj (hok.symm.trans hall))
      rfl
  refine ⟨left, hcommunity, fun id => ?_, fun id c hc => ?_⟩
  · dsimp only [left, leaveCommunities]
    rw [Database.doc_updateMany, Database.doc_updateMany, Database.doc_deleteMany]
    cases db'.doc (.member id userId) <;> simp [Option.filter]
  · dsimp only [left, leaveCommunities] at hc
    rw [Database.doc_updateMany, Database.doc_updateMany] at hc
    obtain ⟨c', hc', rfl⟩ := Option.map_eq_some_iff.mp hc
    obtain ⟨c₀, hc₀, rfl⟩ := Option.map_eq_some_iff.mp hc'
    obtain ⟨hc₀, -⟩ := Database.doc_deleteMany_eq_some.mp hc₀
    have hcreator : Community.creatorId c₀ ≠ userId := by
      by_cases hid : id ∈ arrange natural (createdBy userId db)
      · exact (hcreators id c₀ hc₀).1 hid
      · obtain ⟨c₁, hc₁, hsame⟩ := (hcreators id c₀ hc₀).2 hid
        rw [← hsame]
        exact fun hself => hid (mem_arrange.mpr (mem_createdBy.mpr ⟨c₁, hc₁, hself⟩))
    change Community.creatorId (if _ then _ else _) ≠ userId
    split
    · exact hcreator
    · exact hcreator

/-- A purge leaves nothing of the user. -/
theorem erased_purgeUser {natural : List ℕ} {action : AccountLifecycleAction} {after : Store}
    (h : purgeUser natural action userId db = .ok after) :
    Erased userId db after ∧ Closed action userId after := by
  obtain ⟨left, hcommunity, rfl⟩ := purgeUser_eq h
  let content := contentCleanup userId db
  let alone := removeRelationshipsAndActivity userId content
  let parted := preserve userId alone
  obtain ⟨left', hcommunity', hmembers, hcreators⟩ :=
    communityCleanup_complete natural userId parted
  obtain rfl : left = left' := Except.ok.inj (hcommunity.symm.trans hcommunity')
  obtain ⟨db', deleted, hall, hleft⟩ := communityCleanup_eq hcommunity
  have hleave : Confined _ db' left := hleft ▸ leaveCommunities_confined userId _ deleted db'
  -- What the clean-up of the communities does not write stays.
  have hconfined : Confined
      [.commentLikes, .comments, .postLikes, .posts, .users, .communities, .members] parted left :=
    .trans (cleanupAll_relates .refl (fun _ _ _ => .trans) (fun _ _ _ _ => cleanupCreated_confined)
      hall) (hleave.mono (by simp))
  have hstays : identity.Stays content left :=
    .trans (.trans (.trans (.deleteMany _) stays_onUsers)
      ((preserve_confined userId alone).stays (by decide)))
      (.trans (cleanupAll_relates .refl (fun _ _ _ => .trans) (fun _ _ _ _ => stays_cleanupCreated)
        hall) (hleft ▸ .trans (.trans (.deleteMany _) stays_onCommunities) stays_onUsers))
  have hshrinks : Shrinks shrinking content left :=
    .trans (.trans (.trans (.deleteMany _) (.of_confined (D := [.users])
      (.updateMany fun _ _ => onUsers_outside (by simp)) (by decide)))
      (.of_confined (preserve_confined userId alone) (by decide)))
      (.trans (cleanupAll_relates .refl (fun _ _ _ => .trans) (fun _ _ _ _ => .cleanupCreated) hall)
        (.of_confined hleave (by decide)))
  obtain ⟨hposts, hreposts, hcomments, hthreads, hcommentLikes, hpostLikes⟩ :=
    contentCleanup_complete db hstays hshrinks
  refine ⟨Erased.finalize ⟨hposts, hreposts, hcomments, hthreads, hcommentLikes, hpostLikes,
    fun follower followee hself => ?_, hmembers, hcreators, fun id c hc => ?_⟩ action,
    closed_finalize action userId left⟩
  · rw [hconfined _ (by simp), preserve_confined userId alone _ (by simp)]
    exact follow_removeRelationshipsAndActivity hself
  · rw [hconfined _ (by simp)] at hc
    exact conversation_preserve hc

/-- A purge goes through on every store and leaves nothing of the user. -/
theorem purgeUser_complete (natural : List ℕ) (action : AccountLifecycleAction) (userId : ℕ)
    (db : Store) : ∃ after, purgeUser natural action userId db = .ok after ∧
      Erased userId db after ∧ Closed action userId after := by
  obtain ⟨left, hcommunity, -⟩ := communityCleanup_complete natural userId (preserve userId
    (removeRelationshipsAndActivity userId (contentCleanup userId db)))
  have hpurge : purgeUser natural action userId db = .ok (finalize action userId left) := by
    unfold purgeUser
    dsimp only
    rw [hcommunity]
  exact ⟨_, hpurge, erased_purgeUser hpurge⟩

end Purge

end Ascendance.Social
