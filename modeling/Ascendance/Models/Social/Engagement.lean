import Ascendance.Models.Social.Counters

/-!
# The engagement counters in every run

Every command leaves the counters right on its snapshot, and what it counts refers to a
document that the transaction writes or that was written before. So no increment is lost.
-/

namespace Ascendance.Social

open Ascendance.Core ContentCleanupService AccountLifecycleService Ledger

section Bodies

variable {db after : Store}

/-- An account purge leaves the counters right. -/
theorem balanced_purgeUser {natural : List ℕ} {action : AccountLifecycleAction} {userId : ℕ}
    (h : purgeUser natural action userId db = .ok after) (hthreaded : Threaded db)
    (hb : engagement.Balanced db) : engagement.Balanced after := by
  have hrelates := purgeUser_relates
    (R := fun a b => Threaded a ∧ engagement.Balanced a → Threaded b ∧ engagement.Balanced b)
    (fun a b c hab hbc ha => hbc (hab ha))
    (fun a b hconfined ⟨ht, hb⟩ => ⟨?_, balanced_of_confined hb hconfined (by decide)⟩)
    (fun roots a ⟨ht, hb⟩ => ⟨threaded_of_stays (stays_deletePostGraph roots a) ht,
      balanced_deletePostGraph roots ht hb⟩)
    (fun userId a ⟨ht, hb⟩ => ⟨threaded_of_stays (stays_tombstoneComments userId a) ht,
      balanced_tombstoneComments userId hb⟩)
    (fun userId a ⟨ht, hb⟩ => ⟨threaded_of_stays (stays_removePostInteractions userId a) ht,
      balanced_removePostInteractions userId hb⟩) h
  · exact (hrelates ⟨hthreaded, hb⟩).2
  · intro id postId parent t hid hparent
    refine ht id postId parent t ?_ ?_
    · rw [← hid]
      exact (Trait.of_congr (hconfined (.comment id) (by simp))).symm
    · rw [← hparent]
      exact (Trait.of_congr (hconfined (.comment parent) (by simp))).symm

/-- A purge keeps the counters balanced. -/
private theorem balanced_purgeBody {natural : List ℕ} {action : AccountLifecycleAction} {userId : ℕ}
    (h : purgeBody natural action userId db = .ok after) (hthreaded : Threaded db)
    (hb : engagement.Balanced db) : engagement.Balanced after := by
  rcases purgeBody_eq h with h | ⟨db', htouch, h⟩
  · exact balanced_purgeUser h hthreaded hb
  · have hconfined := touch_confined htouch
    exact balanced_purgeUser h (threaded_of_stays (hconfined.stays (by decide)) hthreaded)
      (balanced_of_confined hb hconfined (by decide))

/-- The counters of posts that leave the pending state do not matter. -/
theorem balanced_activatePendingPostBody {id userId : ℕ} {communityId : Option ℕ}
    (h : activatePendingPostBody id userId communityId db = .ok after)
    (horiginal : ∀ p : Post, db.doc (.post id) = some p → p.type = .original)
    (hb : engagement.Balanced db) : engagement.Balanced after := by
  obtain ⟨_, _, _, rfl⟩ := activatePendingPostBody_eq h
  have hactive :=
    balanced_updateOriginal (f := fun p : Post => { p with status := some .active }) hb
    horiginal fun _ => ⟨rfl, rfl, rfl, rfl⟩
  exact balanced_of_confined hactive (countPost_confined _ _ _) (by decide)

end Bodies

variable {before : Committed Key Doc → Committed Key Doc → Prop}
  {snapshot : Committed Key Doc} {after : Store} {c : Command}

/-- Every command leaves the counters right on its snapshot. -/
theorem effect_balanced (heffect : Effect before snapshot c after)
    (hthreaded : Threaded snapshot.db)
    (hb : engagement.Balanced snapshot.db)
    (hbefore : ∀ r, before r snapshot →
      Committed.Since serial r snapshot ∧ identity.Keeps r snapshot)
    (hnew : ∀ k, serial k = true → snapshot.db.doc k = none → after.doc k ≠ none →
      ¬ references.Cited snapshot.db k ∧ snapshot.revision k = 0) :
    engagement.Balanced after := by
  have hconfined : ∀ {C}, Confined C snapshot.db after → (∀ c ∈ C, c ∉ counted) →
      engagement.Balanced after := fun h hcs => balanced_of_confined hb h hcs
  -- What was read before is not what is new now.
  have hseen : ∀ {k d}, Seen before snapshot k d → snapshot.revision k ≠ 0 := by
    rintro k d ⟨r, hr, hd⟩
    have hpos := r.written k (by rw [hd]; rfl)
    have hle := ((hbefore r hr).1 k).1
    omega
  cases heffect with
  | promoteToAdmin => exact hconfined (C := [.users]) (.update (by simp)) (by decide)
  | unbanUser => exact hconfined (C := [.users]) (.update (by simp)) (by decide)
  | demoteFromAdmin hbody => exact hconfined (demoteFromAdminBody_confined hbody) (by decide)
  | banUser _ hbody => exact balanced_purgeBody hbody hthreaded hb
  | deleteUser _ hbody => exact balanced_purgeBody hbody hthreaded hb
  | setFollowState _ _ _ hbody => exact hconfined (setFollowStateBody_confined hbody) (by decide)
  | @createComment id userId postId parentId depth post _ hpost hparent hbody =>
    have hfree := (create_map_eq_ok.mp hbody).1
    have hstored : after.doc (.comment id) ≠ none := by
      obtain ⟨-, rfl⟩ := create_map_eq_ok.mp hbody
      cases parentId <;> simp [countComment, ← Option.isSome_iff_ne_none]
    obtain ⟨hcited, hzero⟩ := hnew _ rfl hfree hstored
    refine balanced_createCommentBody hbody hb hcited ?_
    rintro rfl
    obtain ⟨c, hc, -⟩ := hparent id rfl
    exact hseen hc hzero
  | deleteComment hcomment =>
    refine balanced_deleteCommentBody (fun t ht => ?_) hb
    obtain ⟨r, hr, hcomment⟩ := hcomment
    rcases (hbefore r hr).2 _ _ (identity_comment _) (Trait.of_eq_some hcomment) with hnone | hsame
    · rw [thread, hnone] at ht
      cases ht
    · exact Option.some.inj (ht.symm.trans hsame)
  | likeComment => exact balanced_likeCommentBody _ _ hb
  | likeActionByPublicId => exact balanced_likePostBody _ _ hb
  | @repostPost id userId target user post _ huser hpost hbody =>
    have hfree := (createRepostBody_eq hbody).1
    have hstored : after.doc (.post id) ≠ none := by
      obtain ⟨-, rfl⟩ := createRepostBody_eq hbody
      simp [countRepost, ← Option.isSome_iff_ne_none]
    obtain ⟨hcited, hzero⟩ := hnew _ rfl hfree hstored
    refine balanced_createRepostBody hbody hb hcited ?_
    rintro rfl
    exact hseen hpost hzero
  | unrepostPost => exact balanced_deletePostGraph _ hthreaded hb
  | @createPendingPost id _ _ _ _ _ _ _ hbody =>
    have hfree := (create_eq_ok.mp hbody).1
    have hstored : after.doc (.post id) ≠ none := by
      obtain ⟨-, rfl⟩ := create_eq_ok.mp hbody
      simp
    exact balanced_createPendingPostBody hbody hb (hnew _ rfl hfree hstored).1
  | activatePendingPost _ hpost hbody =>
    exact balanced_activatePendingPostBody hbody (fun p hp =>
      (identity_of_pending hpost (fun r hr => (hbefore r hr).2) hp).2.1) hb
  | markPendingPostFailed hpost =>
    exact balanced_updateOriginal hb (fun p hp =>
      (identity_of_pending hpost (fun r hr => (hbefore r hr).2) hp).2.1)
      fun _ => ⟨rfl, rfl, rfl, rfl⟩
  | deletePost hbody =>
    obtain ⟨_, rfl⟩ := deletePostBody_eq hbody
    exact balanced_deletePostGraph _ hthreaded hb
  | createCommunity _ hbody => exact hconfined (createCommunityBody_confined hbody) (by decide)
  | joinCommunity _ _ hbody => exact hconfined (joinCommunityBody_confined hbody) (by decide)
  | leaveCommunity hbody =>
    obtain ⟨_, _, _, rfl⟩ := leaveCommunityBody_eq hbody
    exact hconfined (removeMember_confined _ _ _) (by decide)
  | kickMember hbody =>
    obtain ⟨_, _, _, rfl⟩ := kickMemberBody_eq hbody
    exact hconfined (removeMember_confined _ _ _) (by decide)
  | deleteCommunity hbody =>
    obtain ⟨_, rfl⟩ := deleteCommunityBody_eq hbody
    exact balanced_of_confined (balanced_deletePostGraph _ hthreaded hb)
      (removeCommunity_confined _ _) (by decide)
  | createConversation _ _ hbody => exact hconfined (createConversation_confined hbody) (by decide)
  | acquireConversation hbody => exact hconfined (acquireForMutation_confined hbody) (by decide)
  | sendMessage _ hbody => exact hconfined (sendMessageBody_confined hbody) (by decide)

/-- The discipline keeps the counters balanced. -/
private theorem engagement_kept :
    (discipline (fun c => engagement.Balanced c.db) (fun _ _ => True) fun _ _ _ _ =>
      True).Kept := by
  refine discipline_kept (fun _ => trivial) (fun _ _ _ _ _ _ _ => trivial) ?_
  rintro c snapshot current after ⟨⟨hcoherent, hb⟩, hsince, hkeeps, -⟩ hcurrent hb' hfresh hnew
    heffect -
  have hbefore : ∀ r, Earlier (fun c => engagement.Balanced c.db) (fun _ _ => True) r snapshot →
      Committed.Since serial r snapshot ∧ identity.Keeps r snapshot :=
    fun r hr => ⟨hr.2.1, hr.2.2.1⟩
  have hafter : engagement.Balanced after := by
    refine effect_balanced heffect hcoherent.threaded hb hbefore fun k hk hfree hstored => ?_
    have hle := (hsince k).1
    have hzero := hnew k hk hfree hstored
    exact ⟨not_cited_of_new hcoherent.known hsince hnew hk hfree hstored, by omega⟩
  exact ⟨balanced_commit engagement_follows serial_engagement hb hb' hafter hcoherent.known
    hcurrent.known hsince hfresh hnew (effect_introduces heffect fun r hr => (hbefore r hr).1),
    trivial⟩

/-- In every run the counters of posts and comments say how many comments, replies, likes and
active reposts there are. -/
theorem engagementCounters {c : Committed Key Doc} (hcoherent : Coherent c)
    (hb : engagement.Balanced c.db) {es : List (Event Command)} {w : SocialWorld}
    (hrun : Run (Graph (World.step runtime)) (World.initial c) es w) :
    (∀ postId (p : Post), w.state.db.doc (.post postId) = some p →
      p.commentsCount = w.state.db.count (commentsOf postId) ∧
      p.likesCount = w.state.db.count (likesOfPost postId) ∧
      p.repostCount = w.state.db.count (repostsOf postId)) ∧
    ∀ commentId (c : Comment), w.state.db.doc (.comment commentId) = some c →
      c.replyCount = w.state.db.count (repliesOf commentId) ∧
      c.likesCount = w.state.db.count (likesOfComment commentId) := by
  have hright : engagement.Balanced w.state.db :=
    discipline_run engagement_kept hcoherent hb
      (hrun.restrict fun _ _ _ _ _ _ _ => trivial)
  refine ⟨fun postId p hp => ⟨?_, ?_, ?_⟩, fun commentId c hc => ⟨?_, ?_⟩⟩
  · exact hright (.comments postId) p hp
  · exact hright (.postLikes postId) p hp
  · exact hright (.reposts postId) p hp
  · exact hright (.replies commentId) c hc
  · exact hright (.commentLikes commentId) c hc

/-- A comment and a like meet on a new post; the like runs again. -/
theorem engagementCounters_commentAndLike :
    ∃ w : SocialWorld, exec (World.step runtime) (World.initial (.ofDatabase twoUsers))
      [.start 0 (.createPost 10 1 none true), .advance 0, .advance 0, .advance 0, .advance 0,
        .advance 0, .start 1 (.createComment 20 2 10 none), .start 2 (.likeActionByPublicId 1 10),
        .advance 1, .advance 2, .advance 1, .advance 2, .advance 1, .advance 2, .advance 1,
        .retry 2, .advance 2, .advance 2] = some w ∧
      ∀ postId (p : Post), w.state.db.doc (.post postId) = some p →
        p.commentsCount = w.state.db.count (commentsOf postId) ∧
        p.likesCount = w.state.db.count (likesOfPost postId) ∧
        p.repostCount = w.state.db.count (repostsOf postId) := by
  obtain ⟨w, hw⟩ := Option.isSome_iff_exists.mp (by decide +kernel :
    (exec (World.step runtime) (World.initial (.ofDatabase twoUsers) : SocialWorld)
      [.start 0 (.createPost 10 1 none true), .advance 0, .advance 0, .advance 0, .advance 0,
        .advance 0, .start 1 (.createComment 20 2 10 none), .start 2 (.likeActionByPublicId 1 10),
        .advance 1, .advance 2, .advance 1, .advance 2, .advance 1, .advance 2, .advance 1,
        .retry 2, .advance 2, .advance 2]).isSome = true)
  refine ⟨w, hw, (engagementCounters (coherent_of_unreferring (by decide)) ?_ (exec_run hw)).1⟩
  rintro (_ | _ | _ | _ | _) d hd <;> cases hd

end Ascendance.Social
