import Ascendance.Models.Social.PostCounters

/-!
# The post counters in every run

A commit leaves the counters of posts right on its snapshot. Only a deletion may leave the
counter of an author at the number of all active posts, those in communities included.
-/

namespace Ascendance.Social

open Ascendance.Core ContentCleanupService AccountLifecycleService Ledger

section Bodies

variable {db after : Store} {i : PostCounter}

/-- What keeps the fields that are counted keeps the counters. -/
private theorem balancedAt_of_same (h : postFields.Same db after)
    (hb : postCounts.BalancedAt db i) :
    postCounts.BalancedAt after i :=
  lagsAt_zero.mp (postCounts_of_same h (lagsAt_zero.mpr hb))

private theorem samePosts_countComment (postId : ℕ) (parentId : Option ℕ) (db : Store) :
    postFields.Same db (countComment postId parentId db) := by
  have hpost : postFields.Same db (countComment postId none db) :=
    samePosts_updatePost _ fun _ => rfl
  cases parentId with
  | none => exact hpost
  | some parent =>
    exact hpost.trans (Confined.samePosts (C := [.comments])
      (.update (k := Key.comment parent) (by simp)) (by decide))

/-- A comment keeps the fields that are counted. -/
private theorem samePosts_createCommentBody {id postId userId : ℕ} {parentId : Option ℕ} {depth : ℕ}
    (h : createCommentBody id postId userId parentId depth db = .ok after) :
    postFields.Same db after := by
  obtain ⟨-, rfl⟩ := create_map_eq_ok.mp h
  exact .trans (Confined.samePosts (C := [.comments]) (.put _ (by simp)) (by decide))
    (samePosts_countComment _ _ _)

/-- Deleting a comment keeps the fields that are counted. -/
private theorem samePosts_deleteCommentBody (id postId : ℕ) (parentId : Option ℕ) (db : Store) :
    postFields.Same db (deleteCommentBody id postId parentId db) := by
  have hlikes : postFields.Same db (db.deleteMany (likesOfComment id)) :=
    Confined.samePosts (C := [.commentLikes])
      (.deleteMany fun _ _ => commentLikes_outside (by simp)) (by decide)
  have hcomment : ∀ db : Store, postFields.Same db (db.delete (.comment id)) := fun db =>
    Confined.samePosts (C := [.comments]) (.delete (by simp)) (by decide)
  have hcount : ∀ db : Store, postFields.Same db (recomputePostCommentCounts {.post postId} db) :=
    fun db => samePosts_onPosts fun _ _ => by split <;> rfl
  unfold deleteCommentBody
  dsimp only
  split
  · exact hlikes.trans (Confined.samePosts (C := [.comments])
      (.update (k := Key.comment id) (by simp)) (by decide))
  · have hdelete := (hlikes.trans (hcomment _)).trans (hcount _)
    cases parentId with
    | none => exact hdelete
    | some parent =>
      exact hdelete.trans (Confined.samePosts (C := [.comments])
        (.updateMany fun _ _ => onComments_outside (by simp)) (by decide))

/-- A follow keeps the fields that are counted. -/
private theorem samePosts_setFollowStateBody {followerId followeeId : ℕ} {shouldFollow : Bool}
    (h : setFollowStateBody followerId followeeId shouldFollow db = .ok after) :
    postFields.Same db after := by
  have hcount : ∀ (increment : ℤ) {db' : Store}, Confined [.follows] db db' →
      postFields.Same db (countFollow followerId followeeId increment db') := by
    intro increment db' h
    exact ((h.samePosts (by decide)).trans (samePosts_updateUser followerId
      (f := fun u => { u with followingCount := u.followingCount + increment }) fun _ => rfl)).trans
      (samePosts_updateUser followeeId
        (f := fun u => { u with followerCount := u.followerCount + increment }) fun _ => rfl)
  rcases setFollowStateBody_eq h with ⟨_, _, rfl⟩ | ⟨_, _, rfl⟩
  · exact hcount 1 (.put _ (by simp))
  · exact hcount (-1) (.delete (by simp))

/-- A like keeps the fields that are counted. -/
private theorem samePosts_likePostBody (postId userId : ℕ) (db : Store) :
    postFields.Same db (likePostBody postId userId db) := by
  have hlikes : ∀ {db' : Store}, Confined [.postLikes] db db' → ∀ {f : Post → Post},
      (∀ p, (f p).content = p.content) → postFields.Same db (db'.update (.post postId) f) :=
    fun h _ hf => (Confined.samePosts h (by decide)).trans (samePosts_updatePost _ hf)
  unfold likePostBody
  split
  · exact hlikes (.delete (by simp)) fun _ => rfl
  · exact hlikes (.put _ (by simp)) fun _ => rfl

private theorem samePosts_countMember (userId communityId : ℕ) (db : Store) :
    postFields.Same db (countMember userId communityId db) :=
  (samePosts_updateUser userId (f := pushJoinedCommunity communityId) fun _ => rfl).trans
    (samePosts_updateCommunity communityId
      (f := fun c => { c with memberCount := c.memberCount + 1 }) fun _ => rfl)

/-- Removing a member keeps the fields that are counted. -/
private theorem samePosts_removeMember (userId communityId : ℕ) (db : Store) :
    postFields.Same db (removeMember userId communityId db) := by
  have hmember : postFields.Same db (db.delete (.member communityId userId)) :=
    Confined.samePosts (C := [.members]) (.delete (by simp)) (by decide)
  exact (hmember.trans (samePosts_updateUser userId (f := pullJoinedCommunity communityId)
    fun _ => rfl)).trans (samePosts_updateCommunity communityId
      (f := fun c => { c with memberCount := c.memberCount + -1 }) fun _ => rfl)

/-- A counter that has caught up is right. -/
theorem balancedAt_of_counted {p : Prop} [Decidable p]
    (h : postCounts.LagsAt after i (0 + ((decide p).toNat : ℤ) - if p then 1 else 0)) :
    postCounts.BalancedAt after i := by
  by_cases hp : p
  · rwa [if_pos hp, decide_eq_true hp, Bool.toNat_true, Nat.cast_one, zero_add, sub_self,
      lagsAt_zero] at h
  · rwa [if_neg hp, decide_eq_false hp, Bool.toNat_false, Nat.cast_zero, zero_add, sub_zero,
      lagsAt_zero] at h

/-- A repost counts for its author. -/
theorem balancedAt_createRepostBody {id userId target : ℕ}
    (h : createRepostBody id userId target db = .ok after) (hi : ∀ id, i ≠ .allOfUser id)
    (hb : postCounts.BalancedAt db i) : postCounts.BalancedAt after i := by
  obtain ⟨hfree, rfl⟩ := createRepostBody_eq h
  have hput := lagsAt_putPost (p := Post.repostFor userId target) (lagsAt_zero.mpr hb) hfree
  have htarget := postCounts_of_same (samePosts_updatePost target
    (f := fun p : Post => { p with repostCount := p.repostCount + 1 }) fun _ => rfl) hput
  have hcounted := lagsAt_countPost htarget hi userId none
  rw [counts_counterOf hi, show (Post.repostFor userId target).isActive = true from rfl,
    Bool.and_true] at hcounted
  exact balancedAt_of_counted hcounted

/-- A post that waits for its images does not count yet. -/
theorem balancedAt_createPendingPostBody {id userId : ℕ} {communityId : Option ℕ}
    (h : createPendingPostBody id userId communityId db = .ok after)
    (hb : postCounts.BalancedAt db i) : postCounts.BalancedAt after i := by
  obtain ⟨hfree, rfl⟩ := create_eq_ok.mp h
  have hput := lagsAt_putPost (p := Post.pending userId communityId) (lagsAt_zero.mpr hb) hfree
  rwa [show (Post.pending userId communityId).isActive = false from rfl, Bool.and_false,
    Bool.toNat_false, Nat.cast_zero, add_zero, lagsAt_zero] at hput

/-- A post that becomes active counts for what it was stored with. -/
theorem balancedAt_activatePendingPostBody {id userId : ℕ} {communityId : Option ℕ}
    (h : activatePendingPostBody id userId communityId db = .ok after)
    (hpost : ∀ p : Post, db.doc (.post id) = some p →
      p.user = userId ∧ p.communityId = communityId)
    (hi : ∀ id, i ≠ .allOfUser id) (hb : postCounts.BalancedAt db i) :
    postCounts.BalancedAt after i := by
  obtain ⟨p, hp, hpending, rfl⟩ := activatePendingPostBody_eq h
  obtain ⟨huser, hcommunity⟩ := hpost p hp
  have hactive := lagsAt_activate (lagsAt_zero.mpr hb) hp hpending
  have hcounted := lagsAt_countPost hactive hi userId communityId
  rw [counts_counterOf hi, huser, hcommunity] at hcounted
  exact balancedAt_of_counted hcounted

/-- A post that fails while it is pending never counted. -/
theorem balancedAt_markPendingPostFailedBody {id : ℕ}
    (hquiet : pendingPosts.Quiet db (.post id)) (hb : postCounts.BalancedAt db i) :
    postCounts.BalancedAt (markPendingPostFailedBody id db) i := by
  refine balancedAt_of_same (fun k hk => ?_) hb
  by_cases hid : k = .post id
  · subst hid
    unfold markPendingPostFailedBody Trait.of
    rw [Database.doc_update_self]
    cases hp : db.doc (.post id) with
    | none => rfl
    | some p =>
      have hpending : Post.status p = some .pending := hquiet p hp
      simp [postFields, Post.isActive, hpending]
  · exact Trait.of_congr (Database.doc_update_ne (k := Key.post id) db _ hid)

/-- A new community has no posts. -/
theorem balancedAt_createCommunityBody {id userId now : ℕ}
    (h : createCommunityBody id userId now db = .ok after)
    (hnew : ¬ references.Cited db (.community id)) (hb : postCounts.BalancedAt db i) :
    postCounts.BalancedAt after i := by
  obtain ⟨hfree, rfl⟩ := create_map_eq_ok.mp h
  have hcreator : ∀ db : Store, postFields.Same db (addCreator id userId now db) := fun db =>
    (Confined.samePosts (C := [.members]) (.put _ (by simp)) (by decide)).trans
      (samePosts_updateUser userId (f := pushJoinedCommunity id) fun _ => rfl)
  refine balancedAt_of_same (hcreator _) ?_
  by_cases hi : i = .ofCommunity id
  · subst hi
    have hnone : ∀ k (p : Doc k), db.doc k = some p →
        postCounts.entry (.ofCommunity id) k p = false := by
      intro k p hp
      by_contra hentry
      exact hnew ⟨k, p, hp, postCounts_follows (.ofCommunity id) k p (by simpa using hentry)⟩
    have hlag := lagsAt_new (d := ({ creatorId := userId, memberCount := 1, postCount := 0 } :
      Community)) rfl hnone
    exact lagsAt_zero.mp hlag
  · have hput := LagsAt.put (k := Key.community id) (d := (⟨userId, 1, 0⟩ : Community))
      (lagsAt_zero.mpr hb) hfree (by
        cases i with
        | ofCommunity j =>
          exact fun h => hi (congrArg PostCounter.ofCommunity (Key.community.inj h))
        | ofUser j | allOfUser j => exact Key.noConfusion)
    exact lagsAt_zero.mp hput

/-- What a deletion leaves of the counters of new posts. -/
theorem Recounts.balancedAt (h : Recounts db after) (hi : ∀ id, i ≠ .allOfUser id)
    (hb : postCounts.BalancedAt db i) :
    postCounts.BalancedAt after i ∨ ∃ id, i = .ofUser id ∧ LostPost db after id ∧
      postCounts.BalancedAt after (.allOfUser id) := by
  cases i with
  | ofUser id =>
    rcases h.users id with hkeeps | hlost
    · exact .inl (hkeeps _ rfl hb)
    · exact .inr ⟨id, rfl, hlost⟩
  | ofCommunity id => exact .inl (h.communities id hb)
  | allOfUser id => exact absurd rfl (hi id)

end Bodies

section Commits

variable {before : Committed Key Doc → Committed Key Doc → Prop}
  {snapshot current : Committed Key Doc} {after : Store} {c : Command} {i : PostCounter}

/-- Every command leaves the counters right, up to the counters of the authors of what it deletes.
-/
theorem effect_postCounts (heffect : Effect before snapshot c after) (hi : ∀ id, i ≠ .allOfUser id)
    (hb : postCounts.BalancedAt snapshot.db i)
    (hkeeps : ∀ r, before r snapshot → identity.Keeps r snapshot)
    (hpending : FindsPending c snapshot current after)
    (hnew : ∀ k, serial k = true → snapshot.db.doc k = none → after.doc k ≠ none →
      ¬ references.Cited snapshot.db k) :
    postCounts.BalancedAt after i ∨ ∃ id, i = .ofUser id ∧ LostPost snapshot.db after id ∧
      postCounts.BalancedAt after (.allOfUser id) := by
  have hsame : postFields.Same snapshot.db after → postCounts.BalancedAt after i :=
    fun h => balancedAt_of_same h hb
  have hconfined : ∀ {C}, Confined C snapshot.db after → (∀ c ∈ C, c ∉ posting) →
      postCounts.BalancedAt after i := fun h hcs => hsame (h.samePosts hcs)
  have hdeletes : Recounts snapshot.db after → _ := fun h => h.balancedAt hi hb
  cases heffect with
  | promoteToAdmin => exact .inl (hsame (samePosts_updateUser _ fun _ => rfl))
  | unbanUser => exact .inl (hsame (samePosts_updateUser _ fun _ => rfl))
  | demoteFromAdmin hbody =>
    obtain ⟨db', htouch, rfl⟩ := demoteFromAdminBody_eq hbody
    exact .inl (hsame (((touch_confined htouch).samePosts (by decide)).trans
      (samePosts_updateUser _ fun _ => rfl)))
  | banUser _ hbody => exact hdeletes (.purgeBody hbody)
  | deleteUser _ hbody => exact hdeletes (.purgeBody hbody)
  | setFollowState _ _ _ hbody => exact .inl (hsame (samePosts_setFollowStateBody hbody))
  | createComment _ _ hbody => exact .inl (hsame (samePosts_createCommentBody hbody))
  | deleteComment => exact .inl (hsame (samePosts_deleteCommentBody _ _ _ _))
  | likeComment => exact .inl (hconfined (likeCommentBody_confined _ _ _) (by decide))
  | likeActionByPublicId => exact .inl (hsame (samePosts_likePostBody _ _ _))
  | repostPost _ _ hbody => exact .inl (balancedAt_createRepostBody hbody hi hb)
  | unrepostPost => exact hdeletes (.deletePostGraph _ _)
  | createPendingPost _ _ hbody => exact .inl (balancedAt_createPendingPostBody hbody hb)
  | activatePendingPost _ hpost hbody =>
    refine .inl (balancedAt_activatePendingPostBody hbody (fun p hp => ?_) hi hb)
    obtain ⟨huser, -, -, hcommunity⟩ := identity_of_pending hpost hkeeps hp
    exact ⟨huser, hcommunity⟩
  | markPendingPostFailed => exact .inl (balancedAt_markPendingPostFailedBody hpending hb)
  | deletePost hbody =>
    obtain ⟨_, rfl⟩ := deletePostBody_eq hbody
    exact hdeletes (.deletePostGraph _ _)
  | @createCommunity id _ _ _ _ _ hbody =>
    have hfree := (create_map_eq_ok.mp hbody).1
    have hstored : after.doc (.community id) ≠ none := by
      obtain ⟨-, rfl⟩ := create_map_eq_ok.mp hbody
      simp [addCreator]
    exact .inl (balancedAt_createCommunityBody hbody (hnew _ rfl hfree hstored) hb)
  | joinCommunity _ _ hbody =>
    obtain ⟨-, rfl⟩ := create_map_eq_ok.mp hbody
    exact .inl (hsame ((Confined.samePosts (C := [.members]) (.put _ (by simp)) (by decide)).trans
      (samePosts_countMember _ _ _)))
  | leaveCommunity hbody =>
    obtain ⟨_, _, _, rfl⟩ := leaveCommunityBody_eq hbody
    exact .inl (hsame (samePosts_removeMember _ _ _))
  | kickMember hbody =>
    obtain ⟨_, _, _, rfl⟩ := kickMemberBody_eq hbody
    exact .inl (hsame (samePosts_removeMember _ _ _))
  | deleteCommunity hbody =>
    obtain ⟨_, rfl⟩ := deleteCommunityBody_eq hbody
    exact hdeletes ((Recounts.deletePostGraph _ _).trans (Recounts.removeCommunity _ _))
  | createConversation _ _ hbody =>
    exact .inl (hconfined (createConversation_confined hbody) (by decide))
  | acquireConversation hbody =>
    exact .inl (hconfined (acquireForMutation_confined hbody) (by decide))
  | sendMessage _ hbody => exact .inl (hconfined (sendMessageBody_confined hbody) (by decide))

/-- No author of a deleted post has an active post in a community left. -/
def NoCommunityPostsLeft (snapshot after : Store) : Prop :=
  ∀ userId, LostPost snapshot after userId → ∀ id (p : Post), after.doc (.post id) = some p →
    p.user = userId → p.isActive = true → p.communityId = none

/-- The counter of an author without posts in communities may be the number of active posts. -/
theorem balancedAt_ofUser {db : Store} {userId : ℕ}
    (hb : postCounts.BalancedAt db (.allOfUser userId))
    (hnone : ∀ id (p : Post), db.doc (.post id) = some p → p.user = userId → p.isActive = true →
      p.communityId = none) : postCounts.BalancedAt db (.ofUser userId) := by
  intro u hu
  refine (hb u hu).trans (congrArg Nat.cast (Database.count_congr fun k => ?_))
  cases k with
  | post id =>
    cases hp : db.doc (.post id) with
    | none => rfl
    | some p =>
      rw [Option.any_some, Option.any_some, Bool.eq_iff_iff]
      have hcommunity := hnone id p hp
      simp only [postCounts, posts_post, PostCounter.counts, Bool.and_eq_true, beq_iff_eq]
      tauto
  | _ => cases db.doc _ <;> rfl

/-- A commit keeps a counter that it leaves right on its snapshot. -/
theorem postCounts_commit {good : Committed Key Doc → Prop}
    {later : Committed Key Doc → Committed Key Doc → Prop}
    (hbefore : Earlier good later snapshot current) (hcoherent : Coherent current)
    (hfresh : Committed.Fresh snapshot current after)
    (hnew : Committed.NewKeys serial snapshot current after)
    (heffect : Effect (Earlier good later) snapshot c after)
    (hpending : FindsPending c snapshot current after) (hi : ∀ id, i ≠ .allOfUser id)
    (hsnapshot : postCounts.BalancedAt snapshot.db i)
    (hcurrent : postCounts.BalancedAt current.db i)
    (hlost : ∀ userId, i = .ofUser userId → LostPost snapshot.db after userId →
      ∀ id (p : Post), after.doc (.post id) = some p → p.user = userId → p.isActive = true →
        p.communityId = none) :
    postCounts.BalancedAt (snapshot.commit current after).db i := by
  obtain ⟨⟨hcoherent', -⟩, hsince, -⟩ := hbefore
  have huncited : ∀ k, serial k = true → snapshot.db.doc k = none → after.doc k ≠ none →
      ¬ references.Cited snapshot.db k := fun k hk hfree hstored =>
    not_cited_of_new hcoherent'.known hsince hnew hk hfree hstored
  have hafter : postCounts.BalancedAt after i := by
    rcases effect_postCounts heffect hi hsnapshot (fun r hr => hr.2.2.1) hpending huncited with
      hright | ⟨id, rfl, hgone, hall⟩
    · exact hright
    · exact balancedAt_ofUser hall (hlost id rfl hgone)
  exact balancedAt_commit postCounts_follows (serial_postCounts i) hsnapshot hcurrent hafter
    hcoherent'.known hcoherent.known hsince hfresh hnew
    (effect_introduces heffect fun r hr => hr.2.1)

end Commits

/-- The active posts of a user outside of communities. -/
def postsOutsideCommunities (userId : ℕ) : ∀ k, Doc k → Bool :=
  posts fun _ p => p.user == userId && p.communityId == none && p.isActive

/-- The discipline keeps the counters of communities. -/
private theorem communityPostCounts_kept :
    (discipline (fun c => ∀ id, postCounts.BalancedAt c.db (.ofCommunity id)) (fun _ _ => True)
      fun c snapshot current after => True ∧ FindsPending c snapshot current after).Kept := by
  refine discipline_kept (fun _ => trivial) (fun _ _ _ _ _ _ _ => trivial) ?_
  rintro c snapshot current after hbefore hcoherent hb hfresh hnew heffect ⟨-, hpending⟩
  exact ⟨fun id => postCounts_commit hbefore hcoherent hfresh hnew heffect hpending (by simp)
    (hbefore.1.2 id) (hb id) (by simp), trivial⟩

/-- In every run the counter of a community says how many active posts it has. -/
theorem communityPostCounts {c : Committed Key Doc} (hcoherent : Coherent c)
    (hb : ∀ id (community : Community), c.db.doc (.community id) = some community →
      community.postCount = c.db.count (postsOfCommunity id))
    {es : List (Event Command)} {w : SocialWorld}
    (hrun : Run (Graph (World.step runtime)) (World.initial c) es w) :
    ∀ id (community : Community), w.state.db.doc (.community id) = some community →
      community.postCount = w.state.db.count (postsOfCommunity id) :=
  have hfree : Run (Restrict (Graph (World.step runtime)) (World.Commits fun _ _ _ _ => True))
      (World.initial c) es w := hrun.restrict fun _ _ _ _ _ _ _ => trivial
  discipline_run_pending communityPostCounts_kept hcoherent hb hfree

private theorem communityPostCounts_twoUsers (id : ℕ) (community : Community)
    (h : (Committed.ofDatabase twoUsers).db.doc (.community id) = some community) :
    community.postCount = (Committed.ofDatabase twoUsers).db.count (postsOfCommunity id) := by
  cases (twoUsers_eq_none (k := .community id) (by simp)).symm.trans h

/-- Two posts of one community become active at once, and one of them goes; the second activation
runs again. -/
theorem communityPostCounts_overlap :
    ∃ w : SocialWorld, exec (World.step runtime) (World.initial (.ofDatabase twoUsers))
      [.start 0 (.createCommunity 5 1 0), .advance 0, .advance 0, .advance 0,
        .start 1 (.joinCommunity 2 5 0), .advance 1, .advance 1, .advance 1, .advance 1,
        .advance 1, .start 2 (.createPost 10 1 (some 5) true),
        .start 3 (.createPost 11 2 (some 5) true), .advance 2, .advance 3, .advance 2, .advance 3,
        .advance 2, .advance 3, .advance 2, .advance 3, .advance 2, .advance 3, .advance 2,
        .advance 3, .advance 2, .retry 3, .advance 3, .advance 3, .start 4 (.deletePost 1 10),
        .advance 4, .advance 4] = some w ∧
      ∀ id (community : Community), w.state.db.doc (.community id) = some community →
        community.postCount = w.state.db.count (postsOfCommunity id) := by
  obtain ⟨w, hw⟩ := Option.isSome_iff_exists.mp (by decide +kernel :
    (exec (World.step runtime) (World.initial (.ofDatabase twoUsers) : SocialWorld)
      [.start 0 (.createCommunity 5 1 0), .advance 0, .advance 0, .advance 0,
        .start 1 (.joinCommunity 2 5 0), .advance 1, .advance 1, .advance 1, .advance 1,
        .advance 1, .start 2 (.createPost 10 1 (some 5) true),
        .start 3 (.createPost 11 2 (some 5) true), .advance 2, .advance 3, .advance 2, .advance 3,
        .advance 2, .advance 3, .advance 2, .advance 3, .advance 2, .advance 3, .advance 2,
        .advance 3, .advance 2, .retry 3, .advance 3, .advance 3, .start 4 (.deletePost 1 10),
        .advance 4, .advance 4]).isSome = true)
  exact ⟨w, hw, communityPostCounts (coherent_of_unreferring (by decide))
    communityPostCounts_twoUsers (exec_run hw)⟩

/-- The discipline keeps the counters of users. -/
private theorem userPostCounts_kept :
    (discipline (fun c => ∀ id, postCounts.BalancedAt c.db (.ofUser id)) (fun _ _ => True)
      fun c snapshot current after => NoCommunityPostsLeft snapshot.db after ∧
        FindsPending c snapshot current after).Kept := by
  refine discipline_kept (fun _ => trivial) (fun _ _ _ _ _ _ _ => trivial) ?_
  rintro c snapshot current after hbefore hcoherent hb hfresh hnew heffect ⟨hleft, hpending⟩
  exact ⟨fun id => postCounts_commit hbefore hcoherent hfresh hnew heffect hpending (by simp)
    (hbefore.1.2 id) (hb id) (fun userId _ => hleft userId), trivial⟩

/-- The counter of a user says how many active posts outside of communities there are, in every run
whose deletions leave no author an active post in a community. -/
theorem userPostCounts {c : Committed Key Doc} (hcoherent : Coherent c)
    (hb : ∀ id (u : User), c.db.doc (.user id) = some u →
      u.postCount = c.db.count (postsOutsideCommunities id))
    {es : List (Event Command)} {w : SocialWorld}
    (hrun : Run (Restrict (Graph (World.step runtime)) (World.Commits fun _ snapshot _ after =>
      NoCommunityPostsLeft snapshot.db after)) (World.initial c) es w) :
    ∀ id (u : User), w.state.db.doc (.user id) = some u →
      u.postCount = w.state.db.count (postsOutsideCommunities id) :=
  discipline_run_pending userPostCounts_kept hcoherent hb hrun

/-- Two users without posts have nothing to count. -/
theorem userPostCounts_twoUsers (id : ℕ) (u : User)
    (hu : (Committed.ofDatabase twoUsers).db.doc (.user id) = some u) :
    u.postCount = (Committed.ofDatabase twoUsers).db.count (postsOutsideCommunities id) := by
  rw [twoUsers_user hu, Database.count_eq_zero.mpr]
  · rfl
  · intro k d hd
    cases k with
    | post id => cases (twoUsers_eq_none (k := .post id) (by simp)).symm.trans hd
    | _ => rfl

/-- Nothing is deleted, or no active post in a community is left. -/
def leavesNone (snapshot after : Store) : Bool :=
  decide ((∀ k ∈ snapshot.ids, k ∈ after.ids) ∨
    after.count (posts fun _ p => p.isActive && p.communityId.isSome) = 0)

/-- The check is enough. -/
theorem noCommunityPostsLeft_of_leavesNone {snapshot after : Store}
    (h : leavesNone snapshot after = true) : NoCommunityPostsLeft snapshot after := by
  rintro userId ⟨id, p, hp, -, hgone⟩ id' p' hp' - hactive
  rcases of_decide_eq_true h with hall | hnone
  · have hstored := hall (.post id) ((snapshot.mem_ids _).mpr (by rw [hp]; rfl))
    rw [after.mem_ids, hgone] at hstored
    cases hstored
  · simpa [hactive] using Database.count_eq_zero.mp hnone (.post id') p' hp'

/-- A user posts in a community and outside of it, and deletes the first post. -/
theorem userPostCounts_deletePost :
    ∃ w : SocialWorld, Run (Restrict (Graph (World.step runtime)) (World.Commits
        fun _ snapshot _ after => NoCommunityPostsLeft snapshot.db after))
        (World.initial (.ofDatabase twoUsers))
        [.start 0 (.createCommunity 5 1 0), .advance 0, .advance 0, .advance 0,
          .start 1 (.createPost 12 1 (some 5) true), .advance 1, .advance 1, .advance 1, .advance 1,
          .advance 1, .advance 1, .advance 1, .advance 1, .start 2 (.createPost 10 1 none true),
          .advance 2, .advance 2, .advance 2, .advance 2, .advance 2, .advance 2,
          .start 3 (.repostPost 11 2 10), .start 4 (.deletePost 1 12), .advance 3, .advance 3,
          .advance 3, .advance 4, .advance 3, .advance 3, .advance 4] w ∧
      ∀ id (u : User), w.state.db.doc (.user id) = some u →
        u.postCount = w.state.db.count (postsOutsideCommunities id) := by
  let left : Command → Committed Key Doc → Committed Key Doc → Store → Bool :=
    fun _ snapshot _ after => leavesNone snapshot.db after
  have hleft : ∀ c snapshot current after, left c snapshot current after = true →
      NoCommunityPostsLeft snapshot.db after := fun _ _ _ _ => noCommunityPostsLeft_of_leavesNone
  let check (w : SocialWorld) (e : Event Command) : Bool :=
    (w.attempt e).all fun (c, snapshot, after) => left c snapshot w.state after
  obtain ⟨w, hw⟩ := Option.isSome_iff_exists.mp (by decide +kernel :
    (exec (fun w e => if check w e then World.step runtime w e else none)
      (World.initial (.ofDatabase twoUsers) : SocialWorld)
      [.start 0 (.createCommunity 5 1 0), .advance 0, .advance 0, .advance 0,
        .start 1 (.createPost 12 1 (some 5) true), .advance 1, .advance 1, .advance 1, .advance 1,
        .advance 1, .advance 1, .advance 1, .advance 1, .start 2 (.createPost 10 1 none true),
        .advance 2, .advance 2, .advance 2, .advance 2, .advance 2, .advance 2,
        .start 3 (.repostPost 11 2 10), .start 4 (.deletePost 1 12), .advance 3, .advance 3,
        .advance 3, .advance 4, .advance 3, .advance 3, .advance 4]).isSome = true)
  have hrun := exec_restrict (fun w e h => World.commits_of_all hleft h) hw
  exact ⟨w, hrun, userPostCounts (coherent_of_unreferring (by decide)) userPostCounts_twoUsers hrun⟩

end Ascendance.Social
