import Ascendance.Models.Social.Effects

/-!
# The last active administrator

Every removal of an active administrator counts two of them in its snapshot and writes
the guard document. What was active when the guard was last written is active still,
so the other one remains.
-/

namespace Ascendance.Social

open Ascendance.Core ContentCleanupService AccountLifecycleService

/-- Whether a user is an administrator, and banned. -/
def flags (db : Store) (userId : ℕ) : Option (Bool × Bool) :=
  (db.doc (.user userId)).map fun u : User => (u.isAdmin, u.isBanned)

/-- An active administrator. -/
def ActiveAdmin (db : Store) (userId : ℕ) : Prop := flags db userId = some (true, false)

/-- The flags of all users and the guard are the same. -/
structure SameFlags (db db' : Store) : Prop where
  guard : db'.doc .adminMutationGuard = db.doc .adminMutationGuard
  user : ∀ userId, flags db' userId = flags db userId

namespace SameFlags

variable {db db' db'' : Store}

/-- A store has the same flags as itself. -/
theorem refl (db : Store) : SameFlags db db := ⟨rfl, fun _ => rfl⟩

/-- Equality of flags is transitive. -/
theorem trans (h : SameFlags db db') (h' : SameFlags db' db'') : SameFlags db db'' :=
  ⟨h'.guard.trans h.guard, fun userId => (h'.user userId).trans (h.user userId)⟩

/-- Inserting another document keeps the flags. -/
theorem put {k : Key} (d : Doc k) (hguard : k ≠ .adminMutationGuard) (huser : ∀ id, k ≠ .user id) :
    SameFlags db (db.put k d) := by
  refine ⟨Database.doc_put_ne db d hguard.symm, fun userId => ?_⟩
  unfold flags
  rw [Database.doc_put_ne db d (huser userId).symm]

/-- Deleting another document keeps the flags. -/
theorem delete {k : Key} (hguard : k ≠ .adminMutationGuard) (huser : ∀ id, k ≠ .user id) :
    SameFlags db (db.delete k) := by
  refine ⟨Database.doc_delete_ne db hguard.symm, fun userId => ?_⟩
  unfold flags
  rw [Database.doc_delete_ne db (huser userId).symm]

/-- A deletion that spares guard and users keeps the flags. -/
theorem deleteMany {p : ∀ k, Doc k → Bool} (hguard : ∀ d, p .adminMutationGuard d = false)
    (huser : ∀ id d, p (.user id) d = false) : SameFlags db (db.deleteMany p) := by
  refine ⟨?_, fun userId => ?_⟩
  · rw [Database.doc_deleteMany]
    simp [hguard]
  · unfold flags
    rw [Database.doc_deleteMany]
    simp [huser]

/-- An update that spares the guard and the flags of the users keeps them. -/
theorem updateMany {f : ∀ k, Doc k → Doc k} (hguard : ∀ d, f .adminMutationGuard d = d)
    (huser : ∀ id (d : User), ((f (.user id) d : User).isAdmin, (f (.user id) d : User).isBanned) =
      (d.isAdmin, d.isBanned)) : SameFlags db (db.updateMany f) := by
  refine ⟨?_, fun userId => ?_⟩
  · rw [Database.doc_updateMany]
    cases db.doc .adminMutationGuard <;> simp [hguard]
  · unfold flags
    rw [Database.doc_updateMany, Option.map_map]
    congr 1
    funext d
    exact huser userId d

/-- An update of another document keeps the flags. -/
theorem update {k : Key} {f : Doc k → Doc k} (hguard : k ≠ .adminMutationGuard)
    (huser : ∀ id, k ≠ .user id) : SameFlags db (db.update k f) := by
  refine ⟨Database.doc_update_ne db f hguard.symm, fun userId => ?_⟩
  unfold flags
  rw [Database.doc_update_ne db f (huser userId).symm]

/-- An update of a user that spares the flags keeps them. -/
theorem updateUser {id : ℕ} {f : User → User}
    (h : ∀ u, ((f u).isAdmin, (f u).isBanned) = (u.isAdmin, u.isBanned)) :
    SameFlags db (db.update (.user id) f) := by
  refine ⟨Database.doc_update_ne (k := Key.user id) db f (by simp), fun userId => ?_⟩
  unfold flags
  by_cases hid : userId = id
  · subst hid
    rw [Database.doc_update_self db (.user userId) f, Option.map_map]
    congr 1
    funext u
    exact h u
  · rw [Database.doc_update_ne (k := Key.user id) db f (by simpa using hid)]

end SameFlags

/-- Deleting a graph keeps the flags. -/
private theorem sameFlags_deleteGraph (graph : Finset Key) (db : Store) :
    SameFlags db (deleteGraph graph db) := by
  refine .trans (.trans (.trans (.deleteMany ?_ ?_) (.deleteMany ?_ ?_)) (.deleteMany ?_ ?_))
    (.deleteMany ?_ ?_)
  all_goals intros; simp

private theorem sameFlags_recompute {set : (ℕ → ℤ) → ∀ k, Doc k → Doc k}
    {entry : ℕ → ∀ k, Doc k → Bool}
    (hguard : ∀ count d, set count .adminMutationGuard d = d)
    (huser : ∀ count id (d : User), ((set count (.user id) d : User).isAdmin,
      (set count (.user id) d : User).isBanned) = (d.isAdmin, d.isBanned)) (db : Store) :
    SameFlags db (recompute set entry db) := .updateMany (hguard _) (huser _)

/-- Deleting posts keeps the flags. -/
private theorem sameFlags_deletePostGraph (roots : Finset Key) (db : Store) :
    SameFlags db (deletePostGraph roots db) := by
  unfold deletePostGraph
  dsimp only
  split
  · exact .refl db
  · refine .trans (.trans (.trans (sameFlags_deleteGraph _ _) (sameFlags_recompute ?_ ?_ _))
      (sameFlags_recompute ?_ ?_ _)) (sameFlags_recompute ?_ ?_ _)
    all_goals intros; simp
    split <;> simp

/-- Tombstones keep the flags. -/
private theorem sameFlags_tombstoneComments (userId : ℕ) (db : Store) :
    SameFlags db (tombstoneComments userId db) := by
  refine .trans (.trans (.deleteMany ?_ ?_) (sameFlags_recompute ?_ ?_ _)) (.updateMany ?_ ?_)
  all_goals intros; simp

/-- Taking interactions away keeps the flags. -/
private theorem sameFlags_removePostInteractions (userId : ℕ) (db : Store) :
    SameFlags db (removePostInteractions userId db) := by
  unfold removePostInteractions recomputePostLikeCounts
  refine .trans (.deleteMany ?_ ?_) (sameFlags_recompute ?_ ?_ _)
  all_goals intros; simp

/-- Cleaning up content keeps the flags. -/
private theorem sameFlags_contentCleanup (userId : ℕ) (db : Store) :
    SameFlags db (contentCleanup userId db) :=
  .trans (.trans (sameFlags_deletePostGraph _ _) (sameFlags_tombstoneComments _ _))
    (sameFlags_removePostInteractions _ _)

private theorem sameFlags_removeRelationshipsAndActivity (userId : ℕ) (db : Store) :
    SameFlags db (removeRelationshipsAndActivity userId db) := by
  refine .trans (.deleteMany ?_ ?_) (.updateMany ?_ ?_)
  all_goals intros; simp
  split <;> simp

private theorem sameFlags_preserve (userId : ℕ) (db : Store) :
    SameFlags db (preserve userId db) := by
  refine .updateMany ?_ ?_
  all_goals intros; simp

/-- Cleaning up a created community keeps the flags. -/
private theorem sameFlags_cleanupCreated {natural : List ℕ} {userId communityId : ℕ}
    {db db' : Store}
    {deleted : List ℕ} (h : cleanupCreated natural userId communityId db = .ok (db', deleted)) :
    SameFlags db db' := by
  unfold cleanupCreated at h
  split at h
  · obtain ⟨rfl, -⟩ := Prod.mk.inj (Except.ok.inj h)
    exact .trans (.update (by simp) (by simp)) (.update (by simp) (by simp))
  · dsimp only at h
    split at h
    · obtain ⟨rfl, -⟩ := Prod.mk.inj (Except.ok.inj h)
      refine .trans (.trans (sameFlags_deletePostGraph _ _) (.deleteMany ?_ ?_))
        (.delete (by simp) (by simp))
      all_goals intros; simp [membersOf]
    · cases h

/-- Cleaning up the created communities keeps the flags. -/
private theorem sameFlags_cleanupAll {natural : List ℕ} {userId : ℕ} {created deleted : List ℕ}
    {db db' : Store} (h : cleanupAll natural userId created db = .ok (db', deleted)) :
    SameFlags db db' := by
  induction created generalizing db deleted with
  | nil =>
    obtain ⟨rfl, -⟩ := Prod.mk.inj (Except.ok.inj h)
    exact .refl db
  | cons communityId rest ih =>
    unfold cleanupAll at h
    split at h
    · cases h
    · next hfirst =>
      split at h
      · cases h
      · next hrest =>
        obtain ⟨rfl, -⟩ := Prod.mk.inj (Except.ok.inj h)
        exact (sameFlags_cleanupCreated hfirst).trans (ih hrest)

/-- Cleaning up communities keeps the flags. -/
private theorem sameFlags_communityCleanup {natural : List ℕ} {userId : ℕ} {db db' : Store}
    (h : communityCleanup natural userId db = .ok db') : SameFlags db db' := by
  unfold communityCleanup at h
  dsimp only at h
  split at h
  · cases h
  · next hall =>
    rw [← Except.ok.inj h]
    refine .trans (.trans (.trans (sameFlags_cleanupAll hall) (.deleteMany ?_ ?_))
      (.updateMany ?_ ?_)) (.updateMany ?_ ?_)
    all_goals intros; simp

/-- A purge leaves the flags of the other users and the guard alone. -/
theorem purgeUser_flags {natural : List ℕ} {action : AccountLifecycleAction} {userId : ℕ}
    {db after : Store} (h : purgeUser natural action userId db = .ok after) :
    after.doc .adminMutationGuard = db.doc .adminMutationGuard ∧
      ∀ v, v ≠ userId → flags after v = flags db v := by
  unfold purgeUser at h
  dsimp only at h
  split at h
  · cases h
  · next db' hcommunity =>
    have hsame : SameFlags db db' :=
      .trans (.trans (.trans (sameFlags_contentCleanup _ _)
        (sameFlags_removeRelationshipsAndActivity _ _)) (sameFlags_preserve _ _))
        (sameFlags_communityCleanup hcommunity)
    rw [← Except.ok.inj h]
    unfold finalize
    cases action with
    | ban =>
      refine ⟨?_, fun v hv => ?_⟩
      · rw [Database.doc_update_ne _ _ (by simp), hsame.guard]
      · rw [← hsame.user v]
        unfold flags
        rw [Database.doc_update_ne _ _ (by simpa using hv)]
    | delete =>
      refine ⟨?_, fun v hv => ?_⟩
      · rw [Database.doc_delete_ne _ (by simp), hsame.guard]
      · rw [← hsame.user v]
        unfold flags
        rw [Database.doc_delete_ne _ (by simpa using hv)]

/-- Either every active administrator stays one, or the guard is written and one of them stays. -/
def Spares (db after : Store) : Prop :=
  (∀ v, ActiveAdmin db v → ActiveAdmin after v) ∨
    after.doc .adminMutationGuard ≠ db.doc .adminMutationGuard ∧
      ∃ v, ActiveAdmin db v ∧ ActiveAdmin after v

theorem SameFlags.spares {db after : Store} (h : SameFlags db after) : Spares db after :=
  .inl fun v hv => (h.user v).trans hv

/-- The active administrators are those that the filter finds. -/
private theorem activeAdmin_iff {db : Store} {v : ℕ} :
    ActiveAdmin db v ↔ Key.user v ∈ db.find activeAdmins := by
  unfold ActiveAdmin flags
  rw [Database.mem_find, Option.map_eq_some_iff]
  simp [activeAdmins]

/-- Beside an active administrator there is another one when two are counted. -/
theorem exists_other_activeAdmin {db : Store} (h : 1 < db.count activeAdmins) (userId : ℕ) :
    ∃ v, v ≠ userId ∧ ActiveAdmin db v := by
  obtain ⟨k, hk, hne⟩ := Finset.exists_mem_ne h (Key.user userId)
  obtain ⟨d, hd, hactive⟩ := Database.mem_find.mp hk
  cases k with
  | user v => exact ⟨v, by simpa using hne, activeAdmin_iff.mpr hk⟩
  | _ => simp [activeAdmins] at hactive

/-- The guard is written by a touch, and nothing else is. -/
theorem touch_spec {db db' : Store} (h : AdminRemovalGuardService.touch db = .ok db') :
    db'.doc .adminMutationGuard ≠ db.doc .adminMutationGuard ∧
      (∀ v, flags db' v = flags db v) ∧ db'.count activeAdmins = db.count activeAdmins := by
  unfold AdminRemovalGuardService.touch at h
  split at h
  · next guard hguard =>
    rw [← Except.ok.inj h]
    refine ⟨?_, fun v => ?_, Database.count_congr fun k => ?_⟩
    · rw [Database.doc_put_self, hguard]
      intro hsame
      have hversion := congrArg AdminMutationGuard.version (Option.some.inj hsame)
      simp at hversion
    · unfold flags
      rw [Database.doc_put_ne _ _ (by simp)]
    · by_cases hk : k = .adminMutationGuard
      · subst hk
        rw [hguard]
        simp [activeAdmins]
      · rw [Database.doc_put_ne _ _ hk]
  · cases h

/-- Removing the one or the other administrator after a touch spares another one. -/
theorem spares_of_touch {db db' after : Store} {userId : ℕ}
    (htouch : AdminRemovalGuardService.touch db = .ok db') (hcount : 1 < db'.count activeAdmins)
    (hguard : after.doc .adminMutationGuard = db'.doc .adminMutationGuard)
    (hflags : ∀ v, v ≠ userId → flags after v = flags db' v) : Spares db after := by
  obtain ⟨hchanged, hsame, -⟩ := touch_spec htouch
  obtain ⟨v, hne, hv⟩ := exists_other_activeAdmin hcount userId
  refine .inr ⟨by rwa [hguard], v, (hsame v).symm.trans hv, ?_⟩
  exact (hflags v hne).trans hv

/-- Changes to a user who is no active administrator spare them all. -/
theorem spares_of_inactive {db after : Store} {userId : ℕ} (hinactive : ¬ ActiveAdmin db userId)
    (hflags : ∀ v, v ≠ userId → flags after v = flags db v) : Spares db after := by
  refine .inl fun v hv => ?_
  have hne : v ≠ userId := by
    rintro rfl
    exact hinactive hv
  exact (hflags v hne).trans hv

/-- A demotion leaves an administrator. -/
private theorem demoteFromAdminBody_spares {adminId userId : ℕ} {db after : Store}
    (h : demoteFromAdminBody adminId userId db = .ok after) : Spares db after := by
  unfold demoteFromAdminBody at h
  split at h
  · cases h
  next user huser =>
  split at h
  · cases h
  split at h
  · cases h
  split at h
  · cases h
  next db' htouch =>
  split at h
  · cases h
  next hcount =>
  rw [← Except.ok.inj h]
  have hguard : (db'.update (.user userId) fun u : User => { u with isAdmin := false }).doc
      .adminMutationGuard = db'.doc .adminMutationGuard := Database.doc_update_ne _ _ (by simp)
  have hflags : ∀ v, v ≠ userId →
      flags (db'.update (.user userId) fun u : User => { u with isAdmin := false }) v =
        flags db' v := by
    intro v hv
    unfold flags
    rw [Database.doc_update_ne _ _ (by simpa using hv)]
  cases hbanned : user.isBanned with
  | false => exact spares_of_touch htouch (by simp [hbanned] at hcount; omega) hguard hflags
  | true =>
    have hinactive : ¬ ActiveAdmin db userId := by
      unfold ActiveAdmin flags
      rw [huser]
      simp [hbanned]
    exact spares_of_inactive hinactive fun v hv =>
      (hflags v hv).trans ((touch_spec htouch).2.1 v)

/-- A purge leaves an administrator. -/
private theorem purgeBody_spares {natural : List ℕ} {action : AccountLifecycleAction} {userId : ℕ}
    {db after : Store} (h : purgeBody natural action userId db = .ok after) : Spares db after := by
  unfold purgeBody at h
  split at h
  · cases h
  next user huser =>
  split at h
  · split at h
    · cases h
    next db' htouch =>
    split at h
    · cases h
    next hcount =>
    obtain ⟨hguard, hflags⟩ := purgeUser_flags h
    exact spares_of_touch htouch (by omega) hguard hflags
  · next hactive =>
    have hinactive : ¬ ActiveAdmin db userId := by
      unfold ActiveAdmin flags
      rw [huser]
      simpa using hactive
    exact spares_of_inactive hinactive (purgeUser_flags h).2

private theorem create_map_flags {k : Key} {d : Doc k} {f : Store → Store} {db after : Store}
    (h : (create k d db).map f = .ok after) (hguard : k ≠ .adminMutationGuard)
    (huser : ∀ id, k ≠ .user id) (hf : ∀ db', SameFlags db' (f db')) : SameFlags db after := by
  obtain ⟨-, rfl⟩ := create_map_eq_ok.mp h
  exact .trans (.put d hguard huser) (hf _)

private theorem create_flags {k : Key} {d : Doc k} {db after : Store}
    (h : create k d db = .ok after)
    (hguard : k ≠ .adminMutationGuard) (huser : ∀ id, k ≠ .user id) : SameFlags db after :=
  create_map_flags (f := id) (by rw [h]; rfl) hguard huser .refl

/-- Counting a comment keeps the flags. -/
private theorem sameFlags_countComment (postId : ℕ) (parentId : Option ℕ) (db : Store) :
    SameFlags db (countComment postId parentId db) := by
  cases parentId with
  | none => exact .update (by simp) (by simp)
  | some parent =>
    have hpost : SameFlags db (countComment postId none db) := .update (by simp) (by simp)
    exact hpost.trans (.update (k := .comment parent) (by simp) (by simp))

/-- Deleting a comment keeps the flags. -/
private theorem sameFlags_deleteCommentBody (id postId : ℕ) (parentId : Option ℕ) (db : Store) :
    SameFlags db (deleteCommentBody id postId parentId db) := by
  have hlikes : SameFlags db (db.deleteMany (likesOfComment id)) := by
    refine .deleteMany ?_ ?_
    all_goals intros; simp [likesOfComment]
  have hdelete : SameFlags db (recomputePostCommentCounts {.post postId}
      ((db.deleteMany (likesOfComment id)).delete (.comment id))) := by
    refine .trans (.trans hlikes (.delete (by simp) (by simp))) (sameFlags_recompute ?_ ?_ _)
    all_goals intros; simp
  unfold deleteCommentBody
  dsimp only
  split
  · exact hlikes.trans (.update (by simp) (by simp))
  · cases parentId with
    | none => exact hdelete
    | some parent =>
      refine hdelete.trans (sameFlags_recompute ?_ ?_ _)
      all_goals intros; simp

private theorem sameFlags_likeCommentBody (commentId userId : ℕ) (db : Store) :
    SameFlags db (likeCommentBody commentId userId db) := by
  unfold likeCommentBody
  split
  · exact .trans (.delete (by simp) (by simp)) (.update (by simp) (by simp))
  · exact .trans (.put _ (by simp) (by simp)) (.update (by simp) (by simp))

private theorem sameFlags_likePostBody (postId userId : ℕ) (db : Store) :
    SameFlags db (likePostBody postId userId db) := by
  unfold likePostBody
  split
  · exact .trans (.delete (by simp) (by simp)) (.update (by simp) (by simp))
  · exact .trans (.put _ (by simp) (by simp)) (.update (by simp) (by simp))

/-- A repost keeps the flags. -/
private theorem createRepostBody_flags {id userId target : ℕ} {db after : Store}
    (h : createRepostBody id userId target db = .ok after) : SameFlags db after := by
  unfold createRepostBody at h
  split at h
  · cases h
  · exact create_map_flags h (by simp) (by simp) fun db' =>
      .trans (.update (by simp) (by simp)) (.updateUser (by simp))

/-- An activated post keeps the flags. -/
private theorem activatePendingPostBody_flags {id userId : ℕ} {communityId : Option ℕ}
    {db after : Store}
    (h : activatePendingPostBody id userId communityId db = .ok after) : SameFlags db after := by
  unfold activatePendingPostBody at h
  split at h
  · cases h
  split at h
  · split at h
    · rw [← Except.ok.inj h]
      exact .trans (.update (by simp) (by simp)) (.updateUser (by simp))
    · rw [← Except.ok.inj h]
      exact .trans (.update (by simp) (by simp)) (.update (by simp) (by simp))
  · cases h

/-- Deleting a post keeps the flags. -/
private theorem deletePostBody_flags {requesterId postId : ℕ} {db after : Store}
    (h : deletePostBody requesterId postId db = .ok after) : SameFlags db after := by
  unfold deletePostBody at h
  split at h
  · cases h
  split at h
  · cases h
  split at h
  · cases h
  split at h
  · rw [← Except.ok.inj h]
    exact sameFlags_deletePostGraph _ _
  · cases h

/-- A follow keeps the flags. -/
private theorem setFollowStateBody_flags {followerId followeeId : ℕ} {shouldFollow : Bool}
    {db after : Store} (h : setFollowStateBody followerId followeeId shouldFollow db = .ok after) :
    SameFlags db after := by
  have hcounts : ∀ (db' : Store) (increment : ℤ), SameFlags db' (updateFollowerCount followeeId
      increment (updateFollowingCount followerId increment db')) := fun db' increment =>
    .trans (.updateUser (by simp)) (.updateUser (by simp))
  unfold setFollowStateBody addFollow removeFollow at h
  split at h <;> split at h
  · cases h
  · rw [← Except.ok.inj h]
    exact .trans (.put _ (by simp) (by simp)) (hcounts _ _)
  · rw [← Except.ok.inj h]
    exact .trans (.delete (by simp) (by simp)) (hcounts _ _)
  · cases h

private theorem sameFlags_removeMember (userId communityId : ℕ) (db : Store) :
    SameFlags db (removeMember userId communityId db) :=
  .trans (.trans (.delete (by simp) (by simp)) (.updateUser (by simp [pullJoinedCommunity])))
    (.update (by simp) (by simp))

/-- Leaving a community keeps the flags. -/
private theorem leaveCommunityBody_flags {userId communityId : ℕ} {db after : Store}
    (h : leaveCommunityBody userId communityId db = .ok after) : SameFlags db after := by
  unfold leaveCommunityBody at h
  split at h
  · cases h
  split at h
  · cases h
  · rw [← Except.ok.inj h]
    exact sameFlags_removeMember _ _ _

/-- Removing a member keeps the flags. -/
private theorem kickMemberBody_flags {adminId userId communityId : ℕ} {db after : Store}
    (h : kickMemberBody adminId userId communityId db = .ok after) : SameFlags db after := by
  unfold kickMemberBody at h
  split at h
  · split at h
    · cases h
    split at h
    · cases h
    · rw [← Except.ok.inj h]
      exact sameFlags_removeMember _ _ _
  · cases h

/-- Deleting a community keeps the flags. -/
private theorem deleteCommunityBody_flags {communityId : ℕ} {db after : Store}
    (h : deleteCommunityBody communityId db = .ok after) : SameFlags db after := by
  unfold deleteCommunityBody at h
  split at h
  · cases h
  · rw [← Except.ok.inj h]
    refine .trans (.trans (.trans (sameFlags_deletePostGraph _ _) (.deleteMany ?_ ?_))
      (.delete (by simp) (by simp))) (.updateMany ?_ ?_)
    all_goals intros; simp [membersOf, pullJoinedCommunity]

private theorem acquireForMutation_flags {id : ℕ} {db after : Store}
    (h : acquireForMutation id db = .ok after) : SameFlags db after := by
  unfold acquireForMutation at h
  split at h
  · rw [← Except.ok.inj h]
    exact .put _ (by simp) (by simp)
  · cases h

/-- A new conversation keeps the flags. -/
private theorem createConversation_flags {id first second : ℕ} {db after : Store}
    (h : createConversation id first second db = .ok after) : SameFlags db after := by
  unfold createConversation at h
  split at h
  · cases h
  · exact create_flags h (by simp) (by simp)

/-- A message keeps the flags. -/
private theorem sendMessageBody_flags {id senderId : ℕ} {conversationId recipientId : Option ℕ}
    {db after : Store} (h : sendMessageBody id senderId conversationId recipientId db = .ok after) :
    SameFlags db after := by
  obtain ⟨conversation, hresolve⟩ := sendMessageBody_cases h
  rcases resolveConversation_cases hresolve with hacquire | ⟨_, _, _, _, _, _, hcreate⟩
  · exact acquireForMutation_flags hacquire
  · exact createConversation_flags hcreate

/-- A user whose flags change to an active administrator's. -/
theorem spares_updateUser {db : Store} {id : ℕ} {f : User → User}
    (h : ∀ u, u.isAdmin = true → u.isBanned = false → (f u).isAdmin = true ∧
      (f u).isBanned = false) :
    Spares db (db.update (.user id) f) := by
  refine .inl fun v hv => ?_
  unfold ActiveAdmin flags at hv ⊢
  by_cases hid : v = id
  · subst hid
    rw [Database.doc_update_self db (.user v) f]
    obtain ⟨u, hu, hflags⟩ := Option.map_eq_some_iff.mp hv
    obtain ⟨hadmin, hbanned⟩ := h u (Prod.mk.inj hflags).1 (Prod.mk.inj hflags).2
    rw [hu]
    simp [hadmin, hbanned]
  · rwa [Database.doc_update_ne (k := Key.user id) db f (by simpa using hid)]

/-- What a command does to the flags of the users. -/
inductive FlagChange (db : Store) : Command → Store → Prop
  | same {c : Command} {after : Store} (h : SameFlags db after) : FlagChange db c after
  | promote {userId : ℕ} : FlagChange db (.promoteToAdmin userId)
      (db.update (.user userId) fun u : User => { u with isAdmin := true })
  | unban {userId : ℕ} : FlagChange db (.unbanUser userId)
      (db.update (.user userId) fun u : User => { u with isBanned := false })
  | demote {adminId userId : ℕ} {after : Store}
      (hbody : demoteFromAdminBody adminId userId db = .ok after) :
      FlagChange db (.demoteFromAdmin (some adminId) userId) after
  | ban {natural : List ℕ} {adminId userId : ℕ} {after : Store}
      (hbody : purgeBody natural .ban userId db = .ok after) :
      FlagChange db (.banUser natural adminId userId) after
  | delete {natural : List ℕ} {requestedBy : Option ℕ} {userId : ℕ} {after : Store}
      (hbody : purgeBody natural .delete userId db = .ok after) :
      FlagChange db (.deleteUser natural requestedBy userId) after

/-- The effect of a command is one of the listed changes of flags. -/
theorem effect_flagChange {before : Committed Key Doc → Committed Key Doc → Prop}
    {s : Committed Key Doc} {c : Command} {after : Store} (h : Effect before s c after) :
    FlagChange s.db c after := by
  cases h with
  | promoteToAdmin => exact .promote
  | unbanUser => exact .unban
  | demoteFromAdmin hbody => exact .demote hbody
  | banUser _ hbody => exact .ban hbody
  | deleteUser _ hbody => exact .delete hbody
  | setFollowState _ _ _ hbody => exact .same (setFollowStateBody_flags hbody)
  | createComment _ _ hbody =>
    exact .same (create_map_flags hbody (by simp) (by simp) (sameFlags_countComment _ _))
  | deleteComment => exact .same (sameFlags_deleteCommentBody _ _ _ _)
  | likeComment => exact .same (sameFlags_likeCommentBody _ _ _)
  | likeActionByPublicId => exact .same (sameFlags_likePostBody _ _ _)
  | repostPost _ _ hbody => exact .same (createRepostBody_flags hbody)
  | unrepostPost => exact .same (sameFlags_deletePostGraph _ _)
  | createPendingPost _ _ hbody => exact .same (create_flags hbody (by simp) (by simp))
  | activatePendingPost _ _ hbody => exact .same (activatePendingPostBody_flags hbody)
  | markPendingPostFailed => exact .same (SameFlags.update (by simp) (by simp))
  | deletePost hbody => exact .same (deletePostBody_flags hbody)
  | createCommunity _ hbody =>
    exact .same (create_map_flags hbody (by simp) (by simp) fun _ =>
      .trans (.put _ (by simp) (by simp)) (.updateUser (by simp [pushJoinedCommunity])))
  | joinCommunity _ _ hbody =>
    exact .same (create_map_flags hbody (by simp) (by simp) fun _ =>
      .trans (.updateUser (by simp [pushJoinedCommunity])) (.update (by simp) (by simp)))
  | leaveCommunity hbody => exact .same (leaveCommunityBody_flags hbody)
  | kickMember hbody => exact .same (kickMemberBody_flags hbody)
  | deleteCommunity hbody => exact .same (deleteCommunityBody_flags hbody)
  | createConversation _ _ hbody => exact .same (createConversation_flags hbody)
  | acquireConversation hbody => exact .same (acquireForMutation_flags hbody)
  | sendMessage _ hbody => exact .same (sendMessageBody_flags hbody)

/-- No command takes the last active administrator away on its snapshot. -/
theorem effect_spares {before : Committed Key Doc → Committed Key Doc → Prop}
    {s : Committed Key Doc} {c : Command} {after : Store} (h : Effect before s c after) :
    Spares s.db after := by
  cases effect_flagChange h with
  | same h => exact h.spares
  | promote => exact spares_updateUser fun u _ hbanned => ⟨rfl, hbanned⟩
  | unban => exact spares_updateUser fun u hadmin _ => ⟨hadmin, rfl⟩
  | demote hbody => exact demoteFromAdminBody_spares hbody
  | ban hbody => exact purgeBody_spares hbody
  | delete hbody => exact purgeBody_spares hbody

/-- What was active when the guard was last written is active. -/
def GuardedAdmins (earlier later : Committed Key Doc) : Prop :=
  later.revision .adminMutationGuard = earlier.revision .adminMutationGuard →
    ∀ v, ActiveAdmin earlier.db v → ActiveAdmin later.db v

/-- An active administrator is left, because every loss of one touches the guard. -/
def administratorDiscipline : Discipline Key Doc Command where
  serial := serial
  good := fun c => ∃ v, ActiveAdmin c.db v
  later := GuardedAdmins
  effect := fun c s after => ∃ before, Effect before s c after
  condition := fun _ _ _ _ => True

private theorem flags_of_doc_eq {db db' : Store} {v : ℕ}
    (h : db'.doc (.user v) = db.doc (.user v)) :
    flags db' v = flags db v := by
  unfold flags
  rw [h]

/-- The discipline keeps an active administrator. -/
private theorem administratorDiscipline_kept : administratorDiscipline.Kept where
  refl := fun _ _ _ hv => hv
  trans := by
    rintro a b c ⟨-, hsince, hlater⟩ ⟨-, hsince', hlater'⟩ hrev v hv
    have hle := (hsince .adminMutationGuard).1
    have hle' := (hsince' .adminMutationGuard).1
    exact hlater' (by omega) v (hlater (by omega) v hv)
  commit := by
    rintro c snapshot current after ⟨-, hsince, hlater⟩ ⟨v, hv⟩ hfresh - ⟨before, heffect⟩ -
    -- A user who stays active on the snapshot and is active now stays active.
    have hstays : ∀ v, (ActiveAdmin snapshot.db v → ActiveAdmin after v) →
        ActiveAdmin current.db v → ActiveAdmin (snapshot.commit current after).db v := by
      intro v hafter hactive
      by_cases hk : after.doc (.user v) = snapshot.db.doc (.user v)
      · exact (flags_of_doc_eq (Database.doc_merge_same hk)).trans hactive
      · have hsame := flags_of_doc_eq (hsince.unchanged hfresh hk)
        exact (flags_of_doc_eq (Database.doc_merge_changed hk)).trans
          (hafter (hsame.symm.trans hactive))
    rcases effect_spares heffect with hall | ⟨hguard, w, hw, hwafter⟩
    · exact ⟨⟨v, hstays v (hall v) hv⟩, fun _ v hv => hstays v (hall v) hv⟩
    · have hcurrent := hlater (hfresh _ hguard) w hw
      refine ⟨⟨w, hstays w (fun _ => hwafter) hcurrent⟩, fun hrev => ?_⟩
      have hsucc : (snapshot.commit current after).revision .adminMutationGuard =
          current.revision .adminMutationGuard + 1 := if_neg hguard
      omega

/-- In every run from a state with an active administrator there is one in every state. -/
theorem lastAdministrator_remains {c : Committed Key Doc} {userId : ℕ}
    (hactive : ActiveAdmin c.db userId) {es : List (Event Command)} {w : SocialWorld}
    (hrun : Run (Graph (World.step runtime)) (World.initial c) es w) :
    ∃ v, ActiveAdmin w.state.db v := by
  have hsound : administratorDiscipline.SoundWorld (World.initial c : SocialWorld) :=
    Discipline.soundWorld_initial ⟨userId, hactive⟩
  have hmeets : Run (Restrict (Graph (World.step runtime))
      (administratorDiscipline.Meets fun _ => True)) (World.initial c) es w :=
    hrun.restrict fun _ _ _ => ⟨fun _ _ _ _ => trivial, fun _ _ _ => trivial⟩
  exact (hsound.run administratorDiscipline_kept rfl
    (fun c _ => handler_sound (D := administratorDiscipline) (fun _ _ _ h => ⟨_, h⟩) c) hmeets).good

/-- Two administrators and the guard. -/
def twoAdministrators : Store :=
  let admin : User :=
    { isAdmin := true, isBanned := false, followerCount := 0, followingCount := 0, postCount := 0
      joinedCommunities := [] }
  ((Database.empty.put .adminMutationGuard ({ version := 0 } : AdminMutationGuard)).put
    (.user 1) admin).put (.user 2) admin

/-- Each demotes the other on a snapshot of its own; the second one runs again and fails. -/
theorem lastAdministrator_remains_mutualDemotion :
    ∃ w : SocialWorld, exec (World.step runtime) (World.initial (.ofDatabase twoAdministrators))
      [.start 0 (.demoteFromAdmin (some 1) 2), .start 1 (.demoteFromAdmin (some 2) 1),
        .advance 0, .advance 1, .advance 0, .retry 1, .advance 1, .advance 1] = some w ∧
      ∃ v, ActiveAdmin w.state.db v := by
  obtain ⟨w, hw⟩ := Option.isSome_iff_exists.mp (by decide +kernel :
    (exec (World.step runtime) (World.initial (.ofDatabase twoAdministrators) : SocialWorld)
      [.start 0 (.demoteFromAdmin (some 1) 2), .start 1 (.demoteFromAdmin (some 2) 1),
        .advance 0, .advance 1, .advance 0, .retry 1, .advance 1, .advance 1]).isSome = true)
  have hactive : ActiveAdmin (Committed.ofDatabase twoAdministrators).db 1 := rfl
  exact ⟨w, hw, lastAdministrator_remains hactive (exec_run hw)⟩

end Ascendance.Social
