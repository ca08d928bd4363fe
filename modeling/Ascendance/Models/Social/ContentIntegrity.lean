import Ascendance.Models.Social.ContentLinks

/-!
# Content that is referred to in every run

A comment, a like or a repost moves a counter of its target, so its transaction conflicts with a
deletion of the target. What is missing on the snapshot is not noticed, and leaves an orphan.
-/

namespace Ascendance.Social

open Ascendance.Core ContentCleanupService AccountLifecycleService

/-- A commit that stores a reference finds the target on its snapshot. -/
def FindsTargets : Command → Committed Key Doc → Committed Key Doc → Store → Prop
  | .createComment _ _ postId parentId, snapshot, _, _ =>
    snapshot.db.doc (.post postId) ≠ none ∧
      ∀ parent, parentId = some parent → snapshot.db.doc (.comment parent) ≠ none
  | .likeComment _ commentId, snapshot, _, _ => snapshot.db.doc (.comment commentId) ≠ none
  | .likeActionByPublicId _ postId, snapshot, _, _ => snapshot.db.doc (.post postId) ≠ none
  | .repostPost _ _ target, snapshot, _, _ => snapshot.db.doc (.post target) ≠ none
  | _, _, _, _ => True

section Bodies

variable {db after : Store}

/-- To count a stored document writes it. -/
theorem doc_counted {db' : Store} {k : Key} {f : Doc k → Doc k} {g : Doc k → ℤ}
    (hf : ∀ d, g (f d) = g d + 1) (hsame : db'.doc k = db.doc k) (hk : db.doc k ≠ none) :
    (db'.update k f).doc k ≠ db.doc k := by
  obtain ⟨d, hd⟩ := Option.ne_none_iff_exists'.mp hk
  rw [Database.doc_update_self, hsame, hd, Option.map_some]
  intro heq
  have hcount := hf d
  rw [Option.some.inj heq] at hcount
  omega

/-- A comment keeps the content linked when its post and its parent are there. -/
private theorem content_createCommentBody {id postId userId : ℕ} {parentId : Option ℕ} {depth : ℕ}
    (h : createCommentBody id postId userId parentId depth db = .ok after)
    (hl : contentLinks.Linked db) (hpost : db.doc (.post postId) ≠ none)
    (hparent : ∀ parent, parentId = some parent → db.doc (.comment parent) ≠ none) :
    contentLinks.Linked after ∧ contentLinks.Touches db after := by
  obtain ⟨hfree, rfl⟩ := create_map_eq_ok.mp h
  let comment : Comment := ⟨postId, parentId, depth, some userId, false, none, 0, 0⟩
  have hput : contentLinks.Linked (db.put (.comment id) comment) := by
    refine contentLinked_put hl fun o ⟨hrefers, _⟩ => ?_
    obtain rfl | ⟨parent, hparent', rfl⟩ := hrefers
    · exact hpost
    · exact hparent parent hparent'
  have hne : ∀ parent, parentId = some parent → Key.comment parent ≠ .comment id := by
    intro parent hparent' heq
    exact hparent parent hparent' (heq ▸ hfree)
  refine ⟨?_, contentTouches_of_new (stays_countComment _ _ _) fun o ⟨hrefers, _⟩ => ?_⟩
  · have hcounted := contentLinked_update (k := Key.post postId)
      (f := fun p : Post => { p with commentsCount := p.commentsCount + 1 }) hput
      (stays_updatePost fun _ => rfl)
    cases parentId with
    | none => exact hcounted
    | some parent => exact contentLinked_update hcounted (stays_updateComment fun _ => rfl)
  · have hdoc : ∀ {k : Key}, k ≠ .comment id → (db.put (.comment id) comment).doc k = db.doc k :=
      fun hk => Database.doc_put_ne db comment hk
    obtain rfl | ⟨parent, hparent', rfl⟩ := hrefers
    · have hcounted := doc_counted (k := Key.post postId) (g := Post.commentsCount)
        (f := fun p : Post => { p with commentsCount := p.commentsCount + 1 }) (fun _ => rfl)
        (hdoc (by simp)) hpost
      cases parentId with
      | none => exact hcounted
      | some parent =>
        dsimp only [countComment]
        rwa [Database.doc_update_ne (k := Key.comment parent) _ _ (by simp)]
    · obtain rfl : parentId = some parent := hparent'
      refine doc_counted (k := Key.comment parent) (g := Comment.replyCount) (fun _ => rfl) ?_
        (hparent parent rfl)
      rw [Database.doc_update_ne (k := Key.post postId) _ _ (by simp)]
      exact hdoc (hne parent rfl)

/-- A like of a comment that is there keeps the content linked. -/
private theorem content_likeCommentBody (commentId userId : ℕ) (hl : contentLinks.Linked db)
    (hcomment : db.doc (.comment commentId) ≠ none) :
    contentLinks.Linked (likeCommentBody commentId userId db) ∧
      contentLinks.Touches db (likeCommentBody commentId userId db) := by
  unfold likeCommentBody
  split
  · refine ⟨contentLinked_update (contentLinked_delete hl fun _ _ _ hneeds => ?_)
      (stays_updateComment fun _ => rfl),
      contentTouches_of_stays (.trans (.delete _) (stays_updateComment fun _ => rfl))⟩
    simp [contentLinks] at hneeds
  · refine ⟨contentLinked_update (contentLinked_put hl fun o ⟨hrefers, ho⟩ => ?_)
      (stays_updateComment fun _ => rfl),
      contentTouches_of_new (stays_updateComment fun _ => rfl) fun o ⟨hrefers, ho⟩ => ?_⟩
    · obtain rfl | rfl := hrefers
      · exact hcomment
      · simp at ho
    · obtain rfl | rfl := hrefers
      · exact doc_counted (k := Key.comment commentId) (g := Comment.likesCount) (fun _ => rfl)
          (Database.doc_put_ne db _ (by simp)) hcomment
      · simp at ho

/-- A like of a post that is there keeps the content linked. -/
private theorem content_likePostBody (postId userId : ℕ) (hl : contentLinks.Linked db)
    (hpost : db.doc (.post postId) ≠ none) :
    contentLinks.Linked (likePostBody postId userId db) ∧
      contentLinks.Touches db (likePostBody postId userId db) := by
  unfold likePostBody
  split
  · refine ⟨contentLinked_update (contentLinked_delete hl fun _ _ _ hneeds => ?_)
      (stays_updatePost fun _ => rfl),
      contentTouches_of_stays (.trans (.delete _) (stays_updatePost fun _ => rfl))⟩
    simp [contentLinks] at hneeds
  · refine ⟨contentLinked_update (contentLinked_put hl fun o ⟨hrefers, ho⟩ => ?_)
      (stays_updatePost fun _ => rfl),
      contentTouches_of_new (stays_updatePost fun _ => rfl) fun o ⟨hrefers, ho⟩ => ?_⟩
    · obtain rfl | rfl := hrefers
      · exact hpost
      · simp at ho
    · obtain rfl | rfl := hrefers
      · exact doc_counted (k := Key.post postId) (g := Post.likesCount) (fun _ => rfl)
          (Database.doc_put_ne db _ (by simp)) hpost
      · simp at ho

/-- A repost of a post that is there keeps the content linked. -/
private theorem content_createRepostBody {id userId target : ℕ}
    (h : createRepostBody id userId target db = .ok after) (hl : contentLinks.Linked db)
    (htarget : db.doc (.post target) ≠ none) :
    contentLinks.Linked after ∧ contentLinks.Touches db after := by
  obtain ⟨hfree, rfl⟩ := createRepostBody_eq h
  have hne : Key.post target ≠ .post id := fun heq => htarget (heq ▸ hfree)
  have hneeds : ∀ o, contentLinks.needs (.post id) (Post.repostFor userId target) o →
      o = .post target := by
    rintro o ⟨rfl | ⟨_, htarget', rfl⟩ | ⟨_, hcommunity, rfl⟩, ho⟩
    · simp at ho
    · rw [← Option.some.inj htarget']
    · cases hcommunity
  refine ⟨?_, contentTouches_of_new (stays_countRepost _ _ _) fun o ho => ?_⟩
  · refine contentLinked_update (contentLinked_update (contentLinked_put hl fun o ho => ?_)
      (stays_updatePost fun _ => rfl)) (stays_updateOther (k := Key.user userId) (by simp))
    rwa [hneeds o ho]
  · obtain rfl := hneeds o ho
    unfold countRepost
    rw [Database.doc_update_ne (k := Key.user userId) _ _ (by simp)]
    exact doc_counted (k := Key.post target) (g := Post.repostCount) (fun _ => rfl)
      (Database.doc_put_ne db _ hne) htarget

end Bodies

/-- A command that finds its targets leaves no orphans on its snapshot, and writes what new
documents refer to. -/
theorem effect_content {before : Committed Key Doc → Committed Key Doc → Prop}
    {snapshot current : Committed Key Doc} {after : Store} {c : Command}
    (heffect : Effect before snapshot c after) (hfinds : FindsTargets c snapshot current after)
    (hthreaded : Threaded snapshot.db) (hl : contentLinks.Linked snapshot.db) :
    contentLinks.Linked after ∧ contentLinks.Touches snapshot.db after := by
  have hconfined : ∀ {C}, Confined C snapshot.db after → (∀ c ∈ C, c ∉ counted) →
      contentLinks.Linked after ∧ contentLinks.Touches snapshot.db after := by
    refine fun h hcs => ⟨contentLinked_of_confined hl h hcs, ?_⟩
    rintro k o ⟨⟨d, hd, hneeds⟩, hnot⟩
    have hk : k.collection ∉ _ := fun hmem => hcs _ hmem (counted_of_needs hneeds).1
    exact absurd hneeds (hnot d ((h k hk).symm.trans hd))
  have hstays : identity.Stays snapshot.db after → contentLinks.Linked after →
      contentLinks.Linked after ∧ contentLinks.Touches snapshot.db after :=
    fun h hl => ⟨hl, contentTouches_of_stays h⟩
  have hgraph : ∀ roots, contentLinks.Linked (deletePostGraph roots snapshot.db) :=
    fun roots => contentLinked_deletePostGraph roots hthreaded hl
  cases heffect with
  | promoteToAdmin => exact hconfined (C := [.users]) (.update (by simp)) (by decide)
  | unbanUser => exact hconfined (C := [.users]) (.update (by simp)) (by decide)
  | demoteFromAdmin hbody => exact hconfined (demoteFromAdminBody_confined hbody) (by decide)
  | banUser _ hbody =>
      exact hstays (stays_purgeBody hbody) (contentLinked_purgeBody hbody hthreaded hl)
  | deleteUser _ hbody =>
    exact hstays (stays_purgeBody hbody) (contentLinked_purgeBody hbody hthreaded hl)
  | setFollowState _ _ _ hbody => exact hconfined (setFollowStateBody_confined hbody) (by decide)
  | createComment _ _ hbody => exact content_createCommentBody hbody hl hfinds.1 hfinds.2
  | deleteComment =>
    exact hstays (stays_deleteCommentBody _ _ _ _) (contentLinked_deleteCommentBody _ _ _ hl)
  | likeComment => exact content_likeCommentBody _ _ hl hfinds
  | likeActionByPublicId => exact content_likePostBody _ _ hl hfinds
  | repostPost _ _ hbody => exact content_createRepostBody hbody hl hfinds
  | unrepostPost => exact hstays (stays_deletePostGraph _ _) (hgraph _)
  | @createPendingPost id userId communityId _ _ _ _ _ hbody =>
    obtain ⟨hfree, rfl⟩ := create_eq_ok.mp hbody
    have hnone : ∀ o, ¬ contentLinks.needs (.post id) (Post.pending userId communityId) o := by
      rintro o ⟨rfl | ⟨_, htarget, _⟩ | ⟨_, _, rfl⟩, ho⟩
      · simp at ho
      · cases htarget
      · simp at ho
    exact ⟨contentLinked_put hl fun o ho => absurd ho (hnone o),
      contentTouches_of_new (.refl _) fun o ho => absurd ho (hnone o)⟩
  | activatePendingPost _ _ hbody =>
    have hactive := stays_activatePendingPostBody (T := identity) (fun _ _ _ => rfl) hbody
    obtain ⟨_, _, _, rfl⟩ := activatePendingPostBody_eq hbody
    exact hstays hactive (contentLinked_of_confined (contentLinked_update hl
      (stays_updateStatus fun _ _ => rfl)) (countPost_confined _ _ _) (by decide))
  | markPendingPostFailed =>
    exact hstays (stays_updateStatus fun _ _ => rfl)
      (contentLinked_update hl (stays_updateStatus fun _ _ => rfl))
  | deletePost hbody =>
    obtain ⟨_, rfl⟩ := deletePostBody_eq hbody
    exact hstays (stays_deletePostGraph _ _) (hgraph _)
  | createCommunity _ hbody => exact hconfined (createCommunityBody_confined hbody) (by decide)
  | joinCommunity _ _ hbody => exact hconfined (joinCommunityBody_confined hbody) (by decide)
  | leaveCommunity hbody =>
    obtain ⟨_, _, _, rfl⟩ := leaveCommunityBody_eq hbody
    exact hconfined (removeMember_confined _ _ _) (by decide)
  | kickMember hbody =>
    obtain ⟨_, _, _, rfl⟩ := kickMemberBody_eq hbody
    exact hconfined (removeMember_confined _ _ _) (by decide)
  | deleteCommunity hbody =>
    obtain ⟨_, rfl⟩ := deleteCommunityBody_eq hbody
    exact hstays ((stays_deletePostGraph _ _).trans (stays_removeCommunity _ _))
      (contentLinked_of_confined (hgraph _) (removeCommunity_confined _ _) (by decide))
  | createConversation _ _ hbody => exact hconfined (createConversation_confined hbody) (by decide)
  | acquireConversation hbody => exact hconfined (acquireForMutation_confined hbody) (by decide)
  | sendMessage _ hbody => exact hconfined (sendMessageBody_confined hbody) (by decide)

/-- The discipline keeps the content linked. -/
private theorem contentIntegrity_kept :
    (discipline (fun c => contentLinks.Linked c.db) contentLinks.Settled FindsTargets).Kept := by
  refine discipline_kept .refl (fun _ _ _ hab hbc h h' => .trans hab hbc h h') ?_
  rintro c snapshot current after
    ⟨⟨hcoherent, hl⟩, hsince, -, hsettled⟩ hcurrent hl' hfresh - heffect
    hfinds
  obtain ⟨hafter, htouches⟩ := effect_content heffect hfinds hcoherent.threaded hl
  exact ⟨Links.linked_commit_of_touches hl' hafter hsince hfresh hsettled htouches,
    Links.settled_commit hsince hfresh htouches⟩

/-- Where the content is linked, comments have their post and their parent, which is a comment of
the same post, likes have what is liked, and reposts have their target. -/
theorem content_of_linked {c : Committed Key Doc} (hcoherent : Coherent c)
    (hl : contentLinks.Linked c.db) :
    (∀ id (comment : Comment), c.db.doc (.comment id) = some comment →
      (∃ p : Post, c.db.doc (.post comment.postId) = some p) ∧
      ∀ parent, comment.parentId = some parent →
        ∃ c' : Comment, c.db.doc (.comment parent) = some c' ∧ c'.postId = comment.postId) ∧
    (∀ commentId userId, c.db.doc (.commentLike commentId userId) ≠ none →
      ∃ comment : Comment, c.db.doc (.comment commentId) = some comment) ∧
    (∀ postId userId, c.db.doc (.postLike postId userId) ≠ none →
      ∃ p : Post, c.db.doc (.post postId) = some p) ∧
    ∀ id (p : Post), c.db.doc (.post id) = some p → ∀ target, p.repostOf = some target →
      ∃ p' : Post, c.db.doc (.post target) = some p' := by
  have hstored : ∀ {k o : Key} {d : Doc k}, c.db.doc k = some d → references.needs k d o →
      o.collection ∈ [Collection.posts, .comments] → ∃ e, c.db.doc o = some e := by
    intro k o d hd hrefers ho
    obtain ⟨e, he, -⟩ := hl k d o hd ⟨hrefers, ho⟩
    exact ⟨e, he⟩
  refine ⟨fun id comment hc => ⟨hstored hc (.inl rfl) (by simp), fun parent hparent => ?_⟩,
    fun commentId userId hlike => ?_, fun postId userId hlike => ?_,
    fun id p hp target htarget => hstored hp (.inr (.inl ⟨target, htarget, rfl⟩)) (by simp)⟩
  · obtain ⟨c', hc'⟩ := hstored (o := .comment parent) hc (.inr ⟨parent, hparent, rfl⟩) (by simp)
    refine ⟨c', hc', hcoherent.threaded id comment.postId parent (c'.postId, c'.parentId) ?_
      (Trait.of_eq_some hc')⟩
    rw [thread, Trait.of_eq_some hc, ← hparent]
    rfl
  · obtain ⟨d, hd⟩ := Option.ne_none_iff_exists'.mp hlike
    exact hstored hd (.inl rfl) (by simp)
  · obtain ⟨d, hd⟩ := Option.ne_none_iff_exists'.mp hlike
    exact hstored hd (.inl rfl) (by simp)

/-- In every run whose commits find their targets on their snapshots, comments have their post and
their parent, which is a comment of the same post, likes have what is liked, and reposts have their
target. -/
theorem contentIntegrity {c : Committed Key Doc} (hcoherent : Coherent c)
    (hl : contentLinks.Linked c.db) {es : List (Event Command)} {w : SocialWorld}
    (hrun : Run (Restrict (Graph (World.step runtime)) (World.Commits FindsTargets))
      (World.initial c) es w) :
    (∀ id (c : Comment), w.state.db.doc (.comment id) = some c →
      (∃ p : Post, w.state.db.doc (.post c.postId) = some p) ∧
      ∀ parent, c.parentId = some parent →
        ∃ c' : Comment, w.state.db.doc (.comment parent) = some c' ∧ c'.postId = c.postId) ∧
    (∀ commentId userId, w.state.db.doc (.commentLike commentId userId) ≠ none →
      ∃ c : Comment, w.state.db.doc (.comment commentId) = some c) ∧
    (∀ postId userId, w.state.db.doc (.postLike postId userId) ≠ none →
      ∃ p : Post, w.state.db.doc (.post postId) = some p) ∧
    ∀ id (p : Post), w.state.db.doc (.post id) = some p → ∀ target, p.repostOf = some target →
      ∃ p' : Post, w.state.db.doc (.post target) = some p' := by
  obtain ⟨hcoherent', hl'⟩ := discipline_run_coherent contentIntegrity_kept hcoherent hl hrun
  exact content_of_linked hcoherent' hl'

/-- Users without content have it linked. -/
theorem contentLinked_twoUsers : contentLinks.Linked twoUsers := by
  rw [contentLinked_iff]
  intro k d o hd hneeds
  have hk : k.collection ≠ .users := by
    rintro hk
    cases k with
    | user => exact hneeds.1
    | _ => cases hk
  cases (twoUsers_eq_none hk).symm.trans hd

/-- A commit finds its targets, by evaluation. -/
def findsTargets : Command → Committed Key Doc → Committed Key Doc → Store → Bool
  | .createComment _ _ postId parentId, snapshot, _, _ =>
    (snapshot.db.doc (.post postId)).isSome &&
      parentId.all fun parent => (snapshot.db.doc (.comment parent)).isSome
  | .likeComment _ commentId, snapshot, _, _ => (snapshot.db.doc (.comment commentId)).isSome
  | .likeActionByPublicId _ postId, snapshot, _, _ => (snapshot.db.doc (.post postId)).isSome
  | .repostPost _ _ target, snapshot, _, _ => (snapshot.db.doc (.post target)).isSome
  | _, _, _, _ => true

/-- The evaluation is right. -/
theorem findsTargets_sound (c : Command) (snapshot current : Committed Key Doc) (after : Store)
    (h : findsTargets c snapshot current after = true) : FindsTargets c snapshot current after := by
  cases c with
  | createComment id userId postId parentId =>
    obtain ⟨hpost, hparent⟩ := Bool.and_eq_true_iff.mp h
    refine ⟨Option.isSome_iff_ne_none.mp hpost, ?_⟩
    rintro parent rfl
    exact Option.isSome_iff_ne_none.mp hparent
  | likeComment | likeActionByPublicId | repostPost => exact Option.isSome_iff_ne_none.mp h
  | _ => trivial

/-- A comment, a like and a repost come to a post, and the repost goes. -/
theorem contentIntegrity_unrepost :
    ∃ w : SocialWorld, Run (Restrict (Graph (World.step runtime)) (World.Commits FindsTargets))
        (World.initial (.ofDatabase twoUsers))
        [.start 0 (.createPost 10 1 none true), .advance 0, .advance 0, .advance 0, .advance 0,
          .advance 0, .start 1 (.createComment 20 2 10 none), .start 2 (.repostPost 11 2 10),
          .advance 1, .advance 2, .advance 1, .advance 2, .advance 1, .advance 2, .advance 1,
          .advance 2, .retry 2, .advance 2, .advance 2, .start 3 (.unrepostPost 2 10),
          .advance 3, .advance 3, .advance 3, .advance 3, .advance 3] w ∧
      ∀ id (p : Post), w.state.db.doc (.post id) = some p → ∀ target, p.repostOf = some target →
        ∃ p' : Post, w.state.db.doc (.post target) = some p' := by
  let check (w : SocialWorld) (e : Event Command) : Bool :=
    (w.attempt e).all fun (c, snapshot, after) => findsTargets c snapshot w.state after
  obtain ⟨w, hw⟩ := Option.isSome_iff_exists.mp (by decide +kernel :
    (exec (fun w e => if check w e then World.step runtime w e else none)
      (World.initial (.ofDatabase twoUsers) : SocialWorld)
      [.start 0 (.createPost 10 1 none true), .advance 0, .advance 0, .advance 0, .advance 0,
        .advance 0, .start 1 (.createComment 20 2 10 none), .start 2 (.repostPost 11 2 10),
        .advance 1, .advance 2, .advance 1, .advance 2, .advance 1, .advance 2, .advance 1,
        .advance 2, .retry 2, .advance 2, .advance 2, .start 3 (.unrepostPost 2 10),
        .advance 3, .advance 3, .advance 3, .advance 3, .advance 3]).isSome = true)
  have hrun := exec_restrict (fun w e h => World.commits_of_all findsTargets_sound h) hw
  exact ⟨w, hrun, (contentIntegrity (coherent_of_unreferring (by decide)) contentLinked_twoUsers
    hrun).2.2.2⟩

/-- A comment comes to a post that was deleted since its handler had read it. -/
theorem contentIntegrity_commentDeleted :
    ¬ ∀ (es : List (Event Command)) (w : SocialWorld),
      Run (Graph (World.step runtime)) (World.initial (.ofDatabase twoUsers)) es w →
      ∀ id (c : Comment), w.state.db.doc (.comment id) = some c →
        ∃ p : Post, w.state.db.doc (.post c.postId) = some p := by
  intro hclaim
  have horphan : ((exec (World.step runtime) (World.initial (.ofDatabase twoUsers) : SocialWorld)
      [.start 0 (.createPost 10 1 none true), .advance 0, .advance 0, .advance 0, .advance 0,
        .advance 0, .start 1 (.createComment 20 2 10 none), .advance 1, .advance 1,
        .start 2 (.deletePost 1 10), .advance 2, .advance 2, .advance 1, .advance 1]).any fun w =>
      ((w.state.db.doc (.comment 20)).any fun c : Comment => c.postId == 10) &&
        (w.state.db.doc (.post 10)).isNone) = true := by
    decide +kernel
  obtain ⟨w, hrun, horphan⟩ := exec_any horphan
  obtain ⟨hcomment, hgone⟩ := Bool.and_eq_true_iff.mp horphan
  cases hc : w.state.db.doc (.comment 20) with
  | none =>
    rw [hc] at hcomment
    cases hcomment
  | some c =>
    rw [hc] at hcomment
    have hpost : Comment.postId c = 10 := by simpa using hcomment
    obtain ⟨p, hp⟩ := hclaim _ w hrun 20 c hc
    rw [hpost, Option.isNone_iff_eq_none.mp hgone] at hp
    cases hp

end Ascendance.Social
