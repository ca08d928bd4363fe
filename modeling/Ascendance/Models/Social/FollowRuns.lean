import Ascendance.Models.Social.Follows

/-!
# Follows in every run

Follows and purges leave the counters right on their snapshot. A call that finds nothing to do, or
whose transaction fails because there is nothing to do any more, has seen the state that it wants.
-/

namespace Ascendance.Social

open Ascendance.Core ContentCleanupService AccountLifecycleService Ledger

/-- What a command does to follows. -/
inductive FollowChange (db after : Store) : Prop
  | same (h : followFields.Same db after)
  | follow {followerId followeeId : ℕ} {shouldFollow : Bool} (hself : followerId ≠ followeeId)
      (hbody : setFollowStateBody followerId followeeId shouldFollow db = .ok after)
  | purge {natural : List ℕ} {action : AccountLifecycleAction} {userId : ℕ}
      (hbody : purgeBody natural action userId db = .ok after)

/-- Every effect changes the follows in one of the listed ways. -/
private theorem effect_followChange {before : Committed Key Doc → Committed Key Doc → Prop}
    {s : Committed Key Doc} {c : Command} {after : Store} (h : Effect before s c after) :
    FollowChange s.db after := by
  have hconfined : ∀ {C}, Confined C s.db after → (∀ c ∈ C, c ∉ [Collection.users, .follows]) →
      FollowChange s.db after := fun h hcs => .same (h.sameFollows hcs)
  cases h with
  | promoteToAdmin => exact .same (sameFollows_updateUser fun _ => ⟨rfl, rfl⟩)
  | unbanUser => exact .same (sameFollows_updateUser fun _ => ⟨rfl, rfl⟩)
  | demoteFromAdmin hbody =>
    obtain ⟨db, htouch, rfl⟩ := demoteFromAdminBody_eq hbody
    exact .same (((touch_confined htouch).sameFollows (by decide)).trans
      (sameFollows_updateUser fun _ => ⟨rfl, rfl⟩))
  | banUser _ hbody => exact .purge hbody
  | deleteUser _ hbody => exact .purge hbody
  | setFollowState _ _ hself hbody => exact .follow hself hbody
  | createComment _ _ hbody => exact hconfined (createCommentBody_confined hbody) (by decide)
  | deleteComment => exact hconfined (deleteCommentBody_confined _ _ _ _) (by decide)
  | likeComment => exact hconfined (likeCommentBody_confined _ _ _) (by decide)
  | likeActionByPublicId => exact hconfined (likePostBody_confined _ _ _) (by decide)
  | repostPost _ _ hbody =>
    obtain ⟨-, rfl⟩ := createRepostBody_eq hbody
    exact .same (.trans (Confined.sameFollows (C := [.posts])
      (.trans (.put _ (by simp)) (.update (by simp))) (by decide))
      (sameFollows_updateUser fun _ => ⟨rfl, rfl⟩))
  | unrepostPost => exact .same (sameFollows_deletePostGraph _ _)
  | createPendingPost _ _ hbody =>
    exact hconfined (C := [.posts]) (.create hbody (by simp)) (by decide)
  | activatePendingPost _ _ hbody =>
    obtain ⟨_, _, _, rfl⟩ := activatePendingPostBody_eq hbody
    exact .same (.trans (Confined.sameFollows (C := [.posts]) (.update (by simp)) (by decide))
      (sameFollows_countPost _ _ _))
  | markPendingPostFailed => exact hconfined (C := [.posts]) (.update (by simp)) (by decide)
  | deletePost hbody =>
    obtain ⟨_, rfl⟩ := deletePostBody_eq hbody
    exact .same (sameFollows_deletePostGraph _ _)
  | createCommunity _ hbody =>
    obtain ⟨-, rfl⟩ := create_map_eq_ok.mp hbody
    exact .same (.trans (Confined.sameFollows (C := [.communities, .members])
      (.trans (.put _ (by simp)) (.put _ (by simp))) (by decide))
      (sameFollows_updateUser fun _ => ⟨rfl, rfl⟩))
  | joinCommunity _ _ hbody =>
    obtain ⟨-, rfl⟩ := create_map_eq_ok.mp hbody
    exact .same (.trans (Confined.sameFollows (C := [.members]) (.put _ (by simp)) (by decide))
      (sameFollows_countMember _ _ _))
  | leaveCommunity hbody =>
    obtain ⟨_, _, _, rfl⟩ := leaveCommunityBody_eq hbody
    exact .same (sameFollows_removeMember _ _ _)
  | kickMember hbody =>
    obtain ⟨_, _, _, rfl⟩ := kickMemberBody_eq hbody
    exact .same (sameFollows_removeMember _ _ _)
  | deleteCommunity hbody =>
    obtain ⟨_, rfl⟩ := deleteCommunityBody_eq hbody
    exact .same ((sameFollows_deletePostGraph _ _).trans (sameFollows_removeCommunity _ _))
  | createConversation _ _ hbody => exact hconfined (createConversation_confined hbody) (by decide)
  | acquireConversation hbody => exact hconfined (acquireForMutation_confined hbody) (by decide)
  | sendMessage _ hbody => exact hconfined (sendMessageBody_confined hbody) (by decide)

namespace FollowChange

variable {db after : Store}

/-- A change of the follow graph keeps its counters. -/
theorem balanced (h : FollowChange db after) (hb : followCounts.Balanced db) :
    followCounts.Balanced after := by
  cases h with
  | same h => exact fun i => lagsAt_zero.mp (followCounts_of_same h (lagsAt_zero.mpr (hb i)))
  | follow _ hbody => exact followCounts_setFollowStateBody hbody hb
  | purge hbody => exact followCounts_purgeBody hbody hb

/-- Nobody comes to follow themselves. -/
theorem noSelfFollow (h : FollowChange db after) {id : ℕ} (hdb : db.doc (.follow id id) = none) :
    after.doc (.follow id id) = none := by
  cases h with
  | same h => rw [same_follow h, hdb]
  | @follow followerId followeeId _ hself hbody =>
    have hne : Key.follow id id ≠ .follow followerId followeeId := by
      intro heq
      obtain ⟨rfl, rfl⟩ := Key.follow.inj heq
      exact hself rfl
    rcases setFollowStateBody_eq hbody with ⟨-, -, rfl⟩ | ⟨-, -, rfl⟩
    · rw [countFollow_confined _ _ _ _ _ (by simp), Database.doc_put_ne _ _ hne, hdb]
    · rw [countFollow_confined _ _ _ _ _ (by simp), Database.doc_delete_ne _ hne, hdb]
  | purge hbody =>
    have hstays : identity.Stays db after := stays_purgeBody hbody
    rcases hstays (.follow id id) (by simp [identity, referring]) with hnone | hsame
    · exact Trait.of_eq_none.mp hnone
    · exact Trait.of_eq_none.mp (hsame.trans (Trait.of_eq_none.mpr hdb))

end FollowChange

/-- The counters of users are right, and nobody follows themselves. -/
structure FollowGraph (db : Store) : Prop where
  counts : followCounts.Balanced db
  noSelfFollow : ∀ id, db.doc (.follow id id) = none

/-- The discipline keeps the follow graph. -/
private theorem followGraph_kept :
    (discipline (fun c => FollowGraph c.db) (fun _ _ => True) fun _ _ _ _ => True).Kept := by
  refine discipline_kept (fun _ => trivial) (fun _ _ _ _ _ _ _ => trivial) ?_
  rintro c snapshot current after ⟨⟨hcoherent, hgraph⟩, hsince, -, -⟩ hcurrent hgraph' hfresh hnew
    heffect -
  have hchange := effect_followChange heffect
  refine ⟨⟨?_, fun id => ?_⟩, trivial⟩
  · exact balanced_commit followCounts_follows (fun _ => rfl) hgraph.counts hgraph'.counts
      (hchange.balanced hgraph.counts) hcoherent.known hcurrent.known hsince hfresh hnew
      (effect_introduces heffect fun _ hr => hr.2.1)
  · have hafter := hchange.noSelfFollow (hgraph.noSelfFollow id)
    exact (Database.doc_merge_same (hafter.trans (hgraph.noSelfFollow id).symm)).trans
      (hgraph'.noSelfFollow id)

/-- A call that returns normally has lived through a moment with the follow state that it wants. -/
def SeesFollowState : Command → List Store → Except AppError Unit → Prop
  | .setFollowState followerId followeeId shouldFollow, moments, .ok _ =>
    ∃ db ∈ moments, (db.doc (.follow followerId followeeId)).isSome = shouldFollow
  | _, _, _ => True

section Moments

variable {followerId followeeId : ℕ} {shouldFollow : Bool} {db after : Store}

/-- The transaction fails only where there is nothing to do. -/
theorem setFollowStateBody_error {error : AppError}
    (h : setFollowStateBody followerId followeeId shouldFollow db = .error error) :
    (db.doc (.follow followerId followeeId)).isSome = shouldFollow := by
  unfold setFollowStateBody addFollow removeFollow at h
  split at h
  · next hfollow =>
    split at h
    · next hstored => rw [hfollow, hstored]; rfl
    · cases h
  · next hfollow =>
    split at h
    · cases h
    · next hfree =>
      rw [hfree]
      simpa using hfollow

/-- Where it succeeds, it has changed the follow state to the one that it wants. -/
theorem setFollowStateBody_changes
    (h : setFollowStateBody followerId followeeId shouldFollow db = .ok after) :
    (after.doc (.follow followerId followeeId)).isSome = shouldFollow ∧
      after.doc (.follow followerId followeeId) ≠ db.doc (.follow followerId followeeId) := by
  rcases setFollowStateBody_eq h with ⟨rfl, hfree, rfl⟩ | ⟨rfl, ⟨d, hstored⟩, rfl⟩
  · rw [countFollow_confined _ _ _ _ _ (by simp), Database.doc_put_self, hfree]
    exact ⟨rfl, Option.some_ne_none _⟩
  · rw [countFollow_confined _ _ _ _ _ (by simp), Database.doc_delete_self, hstored]
    exact ⟨rfl, (Option.some_ne_none _).symm⟩

/-- The only new document is the follow. -/
theorem setFollowStateBody_stores
    (h : setFollowStateBody followerId followeeId shouldFollow db = .ok after) {k : Key}
    (hfree : db.doc k = none) (hstored : after.doc k ≠ none) :
    k = .follow followerId followeeId ∧ shouldFollow = true := by
  have hcount : ∀ (m : ℤ) (db : Store),
      ((countFollow followerId followeeId m db).doc k).isSome = (db.doc k).isSome := by
    intro m db
    unfold countFollow updateFollowerCount updateFollowingCount
    rw [Database.isSome_doc_update, Database.isSome_doc_update]
  rw [← Option.isSome_iff_ne_none] at hstored
  rcases setFollowStateBody_eq h with ⟨hfollow, -, rfl⟩ | ⟨-, -, rfl⟩
  · refine ⟨?_, hfollow⟩
    by_contra hk
    rw [hcount, Database.doc_put_ne db _ hk, hfree] at hstored
    cases hstored
  · rw [hcount] at hstored
    by_cases hk : k = .follow followerId followeeId
    · subst hk
      rw [Database.doc_delete_self] at hstored
      cases hstored
    · rw [Database.doc_delete_ne db hk, hfree] at hstored
      cases hstored

variable {c : Command} {moments : List Store}

private theorem ensures_throws (error : AppError) :
    (throws error).Ensures runtime.taken runtime.conflict (SeesFollowState c) moments := by
  cases c <;> trivial

private theorem ensures_require {k : Key} {error : AppError} {next : Doc k → Handler}
    (h : ∀ moments d, (next d).Ensures runtime.taken runtime.conflict (SeesFollowState c) moments) :
    (require k error next).Ensures runtime.taken runtime.conflict (SeesFollowState c) moments := by
  intro later db _ _
  dsimp only
  split
  · exact h later _
  · exact ensures_throws error

/-- A follow that returns has seen its state. -/
private theorem ensures_setFollowState :
    (setFollowState followerId followeeId shouldFollow).Ensures runtime.taken runtime.conflict
      (SeesFollowState (.setFollowState followerId followeeId shouldFollow)) moments := by
  refine ensures_require fun _ _ => ensures_require fun _ followee => ?_
  split
  · exact ensures_throws _
  split
  · exact ensures_throws _
  intro later db _ hdb
  dsimp only
  split
  · next hwas => exact ⟨db, hdb, hwas⟩
  refine ⟨fun later db error _ hdb hbody => ?_, fun later db after current _ hbody hcommitted => ?_,
    fun later db after current k _ hbody hcurrent hfree hstored htaken => ?_, fun _ _ => ?_⟩
  · dsimp only
    split
    · exact ⟨db, hdb, setFollowStateBody_error hbody⟩
    · exact ensures_throws _
  · obtain ⟨hstate, hchanged⟩ := setFollowStateBody_changes hbody
    exact ⟨_, hcommitted, by rw [Database.doc_merge_changed hchanged, hstate]⟩
  · -- Another call has stored the follow since.
    obtain ⟨rfl, rfl⟩ := setFollowStateBody_stores hbody hfree hstored
    dsimp only
    split
    · exact ⟨current, hcurrent, Option.isSome_iff_ne_none.mpr htaken⟩
    · exact ensures_throws _
  · dsimp only
    split
    · next hnoOp => cases shouldFollow <;> exact absurd hnoOp (by decide)
    · exact ensures_throws _

/-- Every handler has seen the follow state that it returns. -/
private theorem handler_sees (c : Command) :
    (runtime.program c).Ensures runtime.taken runtime.conflict (SeesFollowState c) [] := by
  cases c with
  | setFollowState followerId followeeId shouldFollow => exact ensures_setFollowState
  | _ => exact Program.ensures_of_forall fun _ _ => trivial

end Moments

/-- In every run users count their followers and those they follow, nobody follows themselves, and
a call that returns normally has lived through a moment with the follow state that it wants. -/
theorem followGraph {c : Committed Key Doc} (hcoherent : Coherent c) (hgraph : FollowGraph c.db)
    {es : List (Event Command)} {w : SocialWorld}
    (hrun : Run (Graph (World.step runtime)) (World.initial c) es w) :
    (∀ id (u : User), w.state.db.doc (.user id) = some u →
      u.followerCount = w.state.db.count (followersOf id) ∧
      u.followingCount = w.state.db.count (followeesOf id)) ∧
    (∀ id, w.state.db.doc (.follow id id) = none) ∧
    ∀ i followerId followeeId shouldFollow moments,
      w.task i = .running (.setFollowState followerId followeeId shouldFollow) moments returns →
      ∃ db ∈ moments, (db.doc (.follow followerId followeeId)).isSome = shouldFollow := by
  have hright : FollowGraph w.state.db := discipline_run followGraph_kept hcoherent hgraph
    (hrun.restrict fun _ _ _ _ _ _ _ => trivial)
  refine ⟨fun id u hu => ⟨?_, ?_⟩, hright.noSelfFollow, fun i _ _ _ moments htask => ?_⟩
  · exact hright.counts (.followers id) u hu
  · exact hright.counts (.following id) u hu
  · refine ensures_run (Q := SeesFollowState) (fun c moments later result hsub h => ?_) handler_sees
      hrun htask
    cases c with
    | setFollowState =>
      cases result with
      | error => trivial
      | ok =>
        obtain ⟨db, hdb, hstate⟩ := h
        exact ⟨db, hsub hdb, hstate⟩
    | _ => trivial

private theorem followGraph_twoUsers : FollowGraph twoUsers := by
  refine ⟨fun i (u : User) hu => ?_, fun id => twoUsers_eq_none (by simp)⟩
  rw [twoUsers_user hu, Database.count_eq_zero.mpr]
  · cases i <;> rfl
  · intro k d hd
    cases k with
    | follow follower followee =>
      cases (twoUsers_eq_none (k := .follow follower followee) (by simp)).symm.trans hd
    | _ => cases i <;> rfl

/-- Two calls for one follow: the second one fails on the unique index and returns normally. -/
theorem followGraph_twice :
    ∃ w : SocialWorld, exec (World.step runtime) (World.initial (.ofDatabase twoUsers))
      [.start 0 (.setFollowState 1 2 true), .start 1 (.setFollowState 1 2 true),
        .advance 0, .advance 0, .advance 0, .advance 0, .advance 1, .advance 1, .advance 1,
        .advance 1, .advance 0, .duplicate 1] = some w ∧
      (∀ id (u : User), w.state.db.doc (.user id) = some u →
        u.followerCount = w.state.db.count (followersOf id) ∧
        u.followingCount = w.state.db.count (followeesOf id)) ∧
      ∀ i moments, w.task i = .running (.setFollowState 1 2 true) moments returns →
        ∃ db ∈ moments, (db.doc (.follow 1 2)).isSome = true := by
  obtain ⟨w, hw⟩ := Option.isSome_iff_exists.mp (by decide +kernel :
    (exec (World.step runtime) (World.initial (.ofDatabase twoUsers) : SocialWorld)
      [.start 0 (.setFollowState 1 2 true), .start 1 (.setFollowState 1 2 true),
        .advance 0, .advance 0, .advance 0, .advance 0, .advance 1, .advance 1, .advance 1,
        .advance 1, .advance 0, .duplicate 1]).isSome = true)
  obtain ⟨hcounts, -, hsees⟩ :=
    followGraph (coherent_of_unreferring (by decide)) followGraph_twoUsers (exec_run hw)
  exact ⟨w, hw, hcounts, fun i => hsees i 1 2 true⟩

end Ascendance.Social
