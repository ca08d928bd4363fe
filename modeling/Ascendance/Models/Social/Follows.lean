import Ascendance.Core.Ledger
import Ascendance.Core.Moments
import Ascendance.Models.Social.Identity

/-!
# The follow graph

Users count their followers and those they follow. A follow moves both counters with it, and a
purge counts again what is left. A call that returns has seen the state that it asked for.
-/

namespace Ascendance.Social

open Ascendance.Core ContentCleanupService AccountLifecycleService Ledger

/-- The counters of a user. -/
inductive FollowCounter
  | followers (userId : ℕ)
  | following (userId : ℕ)
  deriving DecidableEq, Repr

namespace FollowCounter

/-- The user who holds the counter. -/
def user : FollowCounter → ℕ
  | followers userId | following userId => userId

/-- What the counter says. -/
def value : FollowCounter → User → ℤ
  | followers _, u => u.followerCount
  | following _, u => u.followingCount

/-- What the counter counts. -/
def entry : FollowCounter → ∀ k, Doc k → Bool
  | followers userId => followersOf userId
  | following userId => followeesOf userId

end FollowCounter

/-- The counters of followers and followees with what they count. -/
def followCounts : Ledger Key Doc FollowCounter where
  owner i := .user i.user
  value i u := i.value u
  entry := FollowCounter.entry

/-- A follow refers to the owners of its counters. -/
theorem followCounts_follows : followCounts.Follows references := by
  intro i k d h
  change Refers k (identity.value k d) (.user i.user)
  change i.entry k d = true at h
  cases i <;> cases k <;>
    simp_all [FollowCounter.entry, FollowCounter.user, followersOf, followeesOf, Refers]

/-- The fields that follows are about. -/
abbrev FollowFields : Key → Type
  | .user _ => ℤ × ℤ
  | _ => Unit

/-- The counters of the users and the follows. -/
def followFields : Trait Key Doc FollowFields where
  has k := k.collection ∈ [Collection.users, .follows]
  value
    | .user _, u => (u.followerCount, u.followingCount)
    | .adminMutationGuard, _ => ()
    | .follow _ _, _ => ()
    | .post _, _ => ()
    | .comment _, _ => ()
    | .postLike _ _, _ => ()
    | .commentLike _ _, _ => ()
    | .community _, _ => ()
    | .member _ _, _ => ()
    | .conversation _, _ => ()

section Same

variable {db after : Store} {i : FollowCounter} {n : ℤ}

/-- A change that leaves the follow fields the same leaves the follows. -/
theorem same_follow (h : followFields.Same db after) (follower followee : ℕ) :
    after.doc (.follow follower followee) = db.doc (.follow follower followee) := by
  have hsame := h (.follow follower followee) (by simp [followFields])
  simpa [Trait.of, followFields] using hsame

/-- A change that leaves the follow fields the same leaves the lags. -/
theorem followCounts_of_same (h : followFields.Same db after)
    (hlag : followCounts.LagsAt db i n) : followCounts.LagsAt after i n := by
  refine hlag.frame (fun u hu => ?_) fun k => ?_
  · obtain ⟨u', hu', hvalue⟩ := h.exists_of_doc (by simp [followCounts, followFields]) hu
    obtain ⟨hfollowers, hfollowing⟩ := Prod.mk.inj hvalue
    refine ⟨u', hu', ?_⟩
    cases i
    · exact hfollowers
    · exact hfollowing
  · cases k with
    | follow follower followee => rw [same_follow h]
    | _ =>
      cases i <;> simp [followCounts, FollowCounter.entry, followersOf, followeesOf]

/-- A change outside the users and the follows leaves the follow fields the same. -/
theorem Confined.sameFollows {C : List Collection} (h : Confined C db after)
    (hcs : ∀ c ∈ C, c ∉ [Collection.users, .follows]) : followFields.Same db after :=
  .of_doc_eq fun _ hk => h _ fun hmem => hcs _ hmem hk

/-- Updates of users that keep both counters keep the follow fields. -/
private theorem sameFollows_onUsers {f : ℕ → User → User}
    (h : ∀ id u, (f id u).followerCount = u.followerCount ∧
      (f id u).followingCount = u.followingCount) :
    followFields.Same db (db.updateMany (onUsers f)) := by
  refine .updateMany fun k d _ => ?_
  cases k <;> first | exact Prod.ext (h _ _).1 (h _ _).2 | rfl

/-- An update of a user that keeps the counters leaves the follow fields the same. -/
theorem sameFollows_updateUser {id : ℕ} {f : User → User}
    (h : ∀ u, (f u).followerCount = u.followerCount ∧ (f u).followingCount = u.followingCount) :
    followFields.Same db (db.update (.user id) f) :=
  .update (k := Key.user id) fun u => Prod.ext (h u).1 (h u).2

/-- Deleting posts leaves the follow fields the same. -/
theorem sameFollows_deletePostGraph (roots : Finset Key) (db : Store) :
    followFields.Same db (deletePostGraph roots db) := by
  unfold deletePostGraph
  dsimp only
  split
  · exact .refl db
  · refine .trans (.trans (.trans ((deleteGraph_confined _ _).sameFollows (by decide))
      (Confined.sameFollows (C := [.posts])
        (.updateMany fun _ _ => onPosts_outside (by simp)) (by decide)))
      (sameFollows_onUsers fun _ _ => ?_)) (Confined.sameFollows (C := [.communities])
        (.updateMany fun _ _ => onCommunities_outside (by simp)) (by decide))
    split <;> exact ⟨rfl, rfl⟩

/-- Counting a post leaves the follow fields the same. -/
theorem sameFollows_countPost (userId : ℕ) (communityId : Option ℕ) (db : Store) :
    followFields.Same db (countPost userId communityId db) := by
  cases communityId with
  | none => exact sameFollows_updateUser fun _ => ⟨rfl, rfl⟩
  | some community =>
      exact Confined.sameFollows (C := [.communities]) (.update (by simp)) (by decide)

/-- Counting a member leaves the follow fields the same. -/
theorem sameFollows_countMember (userId communityId : ℕ) (db : Store) :
    followFields.Same db (countMember userId communityId db) := by
  have hcount : ∀ db, Confined [.communities] db (incrementMemberCount communityId 1 db) :=
    fun _ => .update (by simp)
  have huser : followFields.Same db (db.update (.user userId) (pushJoinedCommunity communityId)) :=
    sameFollows_updateUser fun _ => ⟨rfl, rfl⟩
  exact huser.trans ((hcount _).sameFollows (by decide))

/-- Removing a member leaves the follow fields the same. -/
theorem sameFollows_removeMember (userId communityId : ℕ) (db : Store) :
    followFields.Same db (removeMember userId communityId db) := by
  have hdelete : Confined [.members] db (db.delete (.member communityId userId)) :=
    .delete (by simp)
  have hcount : ∀ db, Confined [.communities] db (incrementMemberCount communityId (-1) db) :=
    fun _ => .update (by simp)
  have huser : followFields.Same (db.delete (.member communityId userId))
      ((db.delete (.member communityId userId)).update (.user userId)
        (pullJoinedCommunity communityId)) := sameFollows_updateUser fun _ => ⟨rfl, rfl⟩
  exact .trans (.trans (hdelete.sameFollows (by decide)) huser) ((hcount _).sameFollows (by decide))

/-- Removing a community leaves the follow fields the same. -/
theorem sameFollows_removeCommunity (communityId : ℕ) (db : Store) :
    followFields.Same db (removeCommunity communityId db) :=
  .trans (.trans (Confined.sameFollows (C := [.members])
    (.deleteMany fun _ _ => members_outside (by simp)) (by decide))
    (Confined.sameFollows (C := [.communities]) (.delete (by simp)) (by decide)))
    (sameFollows_onUsers fun _ _ => ⟨rfl, rfl⟩)

/-- Cleaning up a created community keeps the follow fields. -/
private theorem sameFollows_cleanupCreated {natural : List ℕ} {userId communityId : ℕ}
    {deleted : List ℕ}
    (h : cleanupCreated natural userId communityId db = .ok (after, deleted)) :
    followFields.Same db after := by
  rcases cleanupCreated_eq h with ⟨user, _, _, rfl⟩ | ⟨_, _, rfl⟩
  · exact Confined.sameFollows (C := [.communities, .members])
      (.trans (.update (by simp)) (.update (by simp))) (by decide)
  · exact .trans (sameFollows_deletePostGraph _ _) (Confined.sameFollows
      (C := [.members, .communities]) (.trans (.deleteMany fun _ _ => members_outside (by simp))
        (.delete (by simp))) (by decide))

/-- Cleaning up communities keeps the follow fields. -/
private theorem sameFollows_communityCleanup {natural : List ℕ} {userId : ℕ}
    (h : communityCleanup natural userId db = .ok after) : followFields.Same db after := by
  obtain ⟨db', deleted, hall, rfl⟩ := communityCleanup_eq h
  have hcreated := cleanupAll_relates .refl (fun _ _ _ => .trans)
    (fun _ _ _ _ => sameFollows_cleanupCreated) hall
  refine hcreated.trans (.trans (Confined.sameFollows (C := [.members, .communities])
    (.trans (.deleteMany fun _ _ => members_outside (by simp))
      (.updateMany fun _ _ => onCommunities_outside (by simp))) (by decide))
    (sameFollows_onUsers fun _ _ => ⟨rfl, rfl⟩))

/-- Cleaning up content keeps the follow fields. -/
private theorem sameFollows_contentCleanup (userId : ℕ) (db : Store) :
    followFields.Same db (contentCleanup userId db) :=
  ((sameFollows_deletePostGraph _ db).trans
    ((tombstoneComments_confined userId _).sameFollows (by decide))).trans
    ((removePostInteractions_confined userId _).sameFollows (by decide))

end Same

section Bodies

variable {db after : Store} {i : FollowCounter}

/-- A step of one counter of a user. -/
theorem followCounts_update {n : ℤ} (h : followCounts.LagsAt db i n) {j : FollowCounter} (m : ℤ)
    {f : User → User} (hself : ∀ u, j.value (f u) = j.value u + m)
    (hother : ∀ i u, i.user = j.user → i ≠ j → i.value (f u) = i.value u) :
    followCounts.LagsAt (db.update (.user j.user) f) i (n - if i = j then m else 0) := by
  rw [update_user]
  refine LagsAt.updateMany h _ (fun k d => ?_) fun (u : User) => ?_
  · cases k <;> first | rfl | (cases i <;> rfl)
  · change i.value (if i.user = j.user then f u else u) = i.value u + _
    by_cases hij : i = j
    · subst hij
      rw [if_pos rfl, if_pos rfl, hself]
    · rw [if_neg hij, add_zero]
      by_cases huser : i.user = j.user
      · rw [if_pos huser, hother i u huser hij]
      · rw [if_neg huser]

/-- A counted follow moves two counters. -/
private theorem followCounts_countFollow {n : ℤ} (h : followCounts.LagsAt db i n)
    (followerId followeeId : ℕ) (m : ℤ) :
    followCounts.LagsAt (countFollow followerId followeeId m db) i
      (n - (if i = .following followerId then m else 0) -
        if i = .followers followeeId then m else 0) := by
  have hfollowing := followCounts_update (j := .following followerId) h m
    (f := fun u : User => { u with followingCount := u.followingCount + m })
    (fun _ => rfl) fun i u huser hi => by
      cases i with
      | followers userId => rfl
      | following userId => exact absurd (congrArg FollowCounter.following huser) hi
  refine followCounts_update (j := .followers followeeId) hfollowing m (fun _ => rfl)
    fun i u huser hi => ?_
  cases i with
  | followers userId => exact absurd (congrArg FollowCounter.followers huser) hi
  | following userId => rfl

/-- What a follow counts for. -/
theorem entry_follow (i : FollowCounter) (follower followee : ℕ) :
    ((followCounts.entry i (.follow follower followee) ()).toNat : ℤ) =
      (if i = .following follower then 1 else 0) + if i = .followers followee then 1 else 0 := by
  cases i with
  | followers userId =>
    by_cases hi : followee = userId <;>
      simp [followCounts, FollowCounter.entry, followersOf, hi, eq_comm (a := userId)]
  | following userId =>
    by_cases hi : follower = userId <;>
      simp [followCounts, FollowCounter.entry, followeesOf, hi, eq_comm (a := userId)]

/-- A follow and its counters move together. -/
theorem followCounts_setFollowStateBody {followerId followeeId : ℕ} {shouldFollow : Bool}
    (h : setFollowStateBody followerId followeeId shouldFollow db = .ok after)
    (hb : followCounts.Balanced db) : followCounts.Balanced after := by
  intro i
  have hstart := lagsAt_zero.mpr (hb i)
  have hentry := entry_follow i followerId followeeId
  rw [← lagsAt_zero]
  rcases setFollowStateBody_eq h with ⟨-, hfree, rfl⟩ | ⟨-, ⟨d, hstored⟩, rfl⟩
  · have hput := hstart.put (d := ()) hfree (by simp [followCounts])
    have hcounted := followCounts_countFollow hput followerId followeeId 1
    rw [hentry] at hcounted
    convert hcounted using 1
    omega
  · have hdelete := hstart.delete hstored
    have hcounted := followCounts_countFollow hdelete followerId followeeId (-1)
    rw [show d = () from rfl, hentry] at hcounted
    convert hcounted using 1
    split <;> split <;> rfl

/-- Whoever a follow counts for is named by it. -/
theorem user_of_entry {follower followee : ℕ}
    (h : followCounts.entry i (.follow follower followee) () = true) :
    i.user = follower ∨ i.user = followee := by
  cases i with
  | followers userId => exact .inr (beq_iff_eq.mp h).symm
  | following userId => exact .inl (beq_iff_eq.mp h).symm

/-- The users at either end of a follow with a user. -/
def involvedUsers (userId : ℕ) (db : Store) : Finset Key :=
  (db.find (follows fun follower followee => follower == userId || followee == userId)).biUnion fun
    | .follow follower followee => {Key.user follower, Key.user followee}
    | _ => ∅

/-- The users who lose a follow count again, and the others have lost none. -/
theorem followCounts_removeRelationshipsAndActivity {userId : ℕ} (hb : followCounts.Balanced db)
    (hi : i.user ≠ userId) :
    followCounts.BalancedAt (removeRelationshipsAndActivity userId db) i := by
  unfold removeRelationshipsAndActivity
  dsimp only
  refine balancedAt_updateMany (fun k d => ?_) fun (u : User) hu => ?_
  · cases k <;> first | rfl | (cases i <;> rfl)
  by_cases haffected : Key.user i.user ∈ (involvedUsers userId db).erase (.user userId)
  · refine (congrArg i.value (if_pos haffected)).trans ?_
    cases i <;> rfl
  · refine (congrArg i.value (if_neg haffected)).trans ?_
    have hlag := LagsAt.deleteMany
      (p := follows fun follower followee => follower == userId || followee == userId)
      (lagsAt_zero.mpr (hb i)) fun _ _ _ k d hd hentry => ?_
    · exact lagsAt_zero.mp hlag u hu
    cases k with
    | follow follower followee =>
      by_contra hinvolved
      have hfound := Database.mem_find.mpr ⟨d, hd, (Bool.not_eq_false _).mp hinvolved⟩
      refine haffected (Finset.mem_erase.mpr ⟨by simpa using hi, Finset.mem_biUnion.mpr
        ⟨_, hfound, ?_⟩⟩)
      rcases user_of_entry hentry with h | h <;> simp [h]
    | _ => rfl

/-- No follow of or by a purged user is left. -/
theorem follow_removeRelationshipsAndActivity {userId follower followee : ℕ}
    (h : follower = userId ∨ followee = userId) :
    (removeRelationshipsAndActivity userId db).doc (.follow follower followee) = none := by
  unfold removeRelationshipsAndActivity
  rw [Database.doc_updateMany, Database.doc_deleteMany]
  cases db.doc (.follow follower followee) with
  | none => rfl
  | some d => rcases h with rfl | rfl <;> simp [Option.filter]

/-- The account starts over without follows, or is gone. -/
theorem followCounts_finalize {action : AccountLifecycleAction} {userId : ℕ}
    (hb : ∀ i, i.user ≠ userId → followCounts.BalancedAt db i)
    (hgone : ∀ follower followee, follower = userId ∨ followee = userId →
      db.doc (.follow follower followee) = none) :
    followCounts.Balanced (finalize action userId db) := by
  intro i
  have hentry : ∀ k, ((finalize action userId db).doc k).any (followCounts.entry i k) =
      (db.doc k).any (followCounts.entry i k) := by
    intro k
    by_cases hk : k = .user userId
    · subst hk
      cases i <;> simp [followCounts, FollowCounter.entry, followersOf, followeesOf]
    · rw [finalize_other action hk]
  by_cases hi : i.user = userId
  · intro (u : User) hu
    have hzero : db.count (followCounts.entry i) = 0 := by
      refine Database.count_eq_zero.mpr fun k d hd => ?_
      cases k with
      | follow follower followee =>
        by_contra hcounts
        have huser := user_of_entry (by simpa using hcounts)
        rw [hi] at huser
        cases (hgone follower followee (huser.imp Eq.symm Eq.symm)).symm.trans hd
      | _ => cases i <;> simp [followCounts, FollowCounter.entry, followersOf, followeesOf]
    rw [Database.count_congr hentry, hzero]
    have hu : (finalize action userId db).doc (.user userId) = some u := hi ▸ hu
    cases action with
    | ban =>
      have hdoc := Database.doc_update_self db (.user userId) fun u : User =>
        { u with isBanned := true, followerCount := 0, followingCount := 0, postCount := 0
                 joinedCommunities := [] }
      obtain ⟨u', -, rfl⟩ := Option.map_eq_some_iff.mp (hdoc.symm.trans hu)
      cases i <;> rfl
    | delete => cases (Database.doc_delete_self db (.user userId)).symm.trans hu
  · refine lagsAt_zero.mp
      (LagsAt.frame (lagsAt_zero.mpr (hb i hi)) (fun u hu => ⟨u, ?_, rfl⟩) hentry)
    exact (finalize_other action (by simpa [followCounts] using hi)).symm.trans hu

/-- A purge keeps the follow counters balanced. -/
private theorem followCounts_purgeUser {natural : List ℕ} {action : AccountLifecycleAction}
    {userId : ℕ}
    (h : purgeUser natural action userId db = .ok after) (hb : followCounts.Balanced db) :
    followCounts.Balanced after := by
  obtain ⟨db', hcommunity, rfl⟩ := purgeUser_eq h
  have hrest : followFields.Same (removeRelationshipsAndActivity userId (contentCleanup userId db))
      db' := .trans ((preserve_confined userId _).sameFollows (by decide))
    (sameFollows_communityCleanup hcommunity)
  have hcontent : followCounts.Balanced (contentCleanup userId db) := fun i =>
    lagsAt_zero.mp (followCounts_of_same (sameFollows_contentCleanup userId db)
      (lagsAt_zero.mpr (hb i)))
  refine followCounts_finalize (fun i hi => ?_) fun follower followee hinvolved => ?_
  · exact lagsAt_zero.mp (followCounts_of_same hrest
      (lagsAt_zero.mpr (followCounts_removeRelationshipsAndActivity hcontent hi)))
  · rw [same_follow hrest, follow_removeRelationshipsAndActivity hinvolved]

/-- Purging a user keeps the counters of the follows. -/
theorem followCounts_purgeBody {natural : List ℕ} {action : AccountLifecycleAction} {userId : ℕ}
    (h : purgeBody natural action userId db = .ok after) (hb : followCounts.Balanced db) :
    followCounts.Balanced after := by
  rcases purgeBody_eq h with h | ⟨db', htouch, h⟩
  · exact followCounts_purgeUser h hb
  · refine followCounts_purgeUser h fun i => lagsAt_zero.mp ?_
    exact followCounts_of_same ((touch_confined htouch).sameFollows (by decide))
      (lagsAt_zero.mpr (hb i))

end Bodies

end Ascendance.Social
