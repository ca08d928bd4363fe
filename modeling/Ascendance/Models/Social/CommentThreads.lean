import Ascendance.Models.Social.Identity

/-!
# Threads of comments

A reply lies one level below the comment it replies to, as long as both are stored: the depth
is computed from the parent that was read before the transaction, and nothing changes it or the
parent later. So the walk from a comment to the root of its thread ends, whatever is written
between its reads.
-/

namespace Ascendance.Social

open Ascendance.Core ContentCleanupService AccountLifecycleService

/-- Where a comment stands in its thread. -/
abbrev Place : Key → Type
  | .comment _ => Option ℕ × ℕ
  | _ => Unit

/-- The parents and the depths of comments. -/
def places : Trait Key Doc Place where
  has k := k.collection = .comments
  value
    | .comment _, c => (c.parentId, c.depth)
    | .post _, _ => ()
    | .adminMutationGuard, _ => ()
    | .user _, _ => ()
    | .follow _ _, _ => ()
    | .postLike _ _, _ => ()
    | .commentLike _ _, _ => ()
    | .community _, _ => ()
    | .member _ _, _ => ()
    | .conversation _, _ => ()

/-- The parent and the depth of a stored comment. -/
abbrev place (db : Store) (id : ℕ) : Option (Option ℕ × ℕ) := places.of db (.comment id)

private theorem serial_of_places {k : Key} (h : places.has k) :
    serial k = true ∨ Subsingleton (Place k) := by
  cases k with
  | comment id => exact .inl rfl
  | _ => cases h

section Bodies

variable {db after : Store}

/-- A change outside the comments moves no comment. -/
theorem Confined.places {C : List Collection} (h : Confined C db after) (hcs : .comments ∉ C) :
    places.Stays db after := by
  refine .of_doc_eq fun k hk => h k ?_
  rw [show k.collection = .comments from hk]
  exact hcs

private theorem places_onComments {f : ℕ → Comment → Comment}
    (h : ∀ id c, ((f id c).parentId, (f id c).depth) = (c.parentId, c.depth)) :
    places.Stays db (db.updateMany (onComments f)) := by
  refine .updateMany fun k d hk => ?_
  cases k with
  | comment id => exact h id d
  | _ => cases hk

private theorem places_updateComment {id : ℕ} {f : Comment → Comment}
    (h : ∀ c, ((f c).parentId, (f c).depth) = (c.parentId, c.depth)) :
    places.Stays db (db.update (.comment id) f) := .update (k := Key.comment id) h

/-- Deleting a graph keeps the place of comments. -/
private theorem places_deletePostGraph (roots : Finset Key) (db : Store) :
    places.Stays db (deletePostGraph roots db) := by
  unfold deletePostGraph
  dsimp only
  split
  · exact .refl db
  · exact .trans (.trans (.trans (.trans (.deleteMany _) (.deleteMany _)) (.deleteMany _))
      (.deleteMany _)) (Confined.places (C := [.posts, .users, .communities]) (.trans (.trans
      (.updateMany fun _ _ => onPosts_outside (by simp))
      (.updateMany fun _ _ => onUsers_outside (by simp)))
      (.updateMany fun _ _ => onCommunities_outside (by simp))) (by decide))

/-- Tombstones keep their place. -/
private theorem places_tombstoneComments (userId : ℕ) (db : Store) :
    places.Stays db (tombstoneComments userId db) :=
  .trans (.trans (.deleteMany _) (places_onComments fun _ _ => by split <;> rfl))
    (places_onComments fun _ _ => by split <;> rfl)

/-- A purge keeps the place of comments. -/
private theorem places_purgeBody {natural : List ℕ} {action : AccountLifecycleAction} {userId : ℕ}
    (h : purgeBody natural action userId db = .ok after) : places.Stays db after := by
  have hpurge : ∀ {db}, purgeUser natural action userId db = .ok after → places.Stays db after :=
    purgeUser_relates (fun _ _ _ => .trans) (fun _ _ h => h.places (by decide))
      places_deletePostGraph places_tombstoneComments
      fun _ _ => (removePostInteractions_confined _ _).places (by decide)
  rcases purgeBody_eq h with h | ⟨db', htouch, h⟩
  · exact hpurge h
  · exact ((touch_confined htouch).places (by decide)).trans (hpurge h)

private theorem places_deleteCommentBody (id postId : ℕ) (parentId : Option ℕ) (db : Store) :
    places.Stays db (deleteCommentBody id postId parentId db) := by
  have hdelete : places.Stays db (recomputePostCommentCounts {.post postId}
      ((db.deleteMany (likesOfComment id)).delete (.comment id))) :=
    .trans (.trans (.deleteMany _) (.delete _)) (Confined.places (C := [.posts])
      (.updateMany fun _ _ => onPosts_outside (by simp)) (by decide))
  unfold deleteCommentBody
  dsimp only
  split
  · exact .trans (.deleteMany _) (places_updateComment fun _ => rfl)
  · cases parentId with
    | none => exact hdelete
    | some parent => exact hdelete.trans (places_onComments fun _ _ => by split <;> rfl)

private theorem places_likeCommentBody (commentId userId : ℕ) (db : Store) :
    places.Stays db (likeCommentBody commentId userId db) := by
  unfold likeCommentBody
  split
  · exact .trans (.delete _) (places_updateComment fun _ => rfl)
  · exact .trans (Confined.places (C := [.commentLikes]) (.put _ (by simp)) (by decide))
      (places_updateComment fun _ => rfl)

/-- Counting a comment keeps the place of comments. -/
private theorem places_countComment (postId : ℕ) (parentId : Option ℕ) (db : Store) :
    places.Stays db (countComment postId parentId db) := by
  have hpost : places.Stays db (countComment postId none db) :=
    Confined.places (C := [.posts]) (.update (by simp)) (by decide)
  cases parentId with
  | none => exact hpost
  | some parent => exact hpost.trans (places_updateComment fun _ => rfl)

end Bodies

/-- A comment lies at the top, or one level below its parent as it was read earlier. -/
def Below (before : Committed Key Doc → Committed Key Doc → Prop) (s : Committed Key Doc)
    (parentId : Option ℕ) (depth : ℕ) : Prop :=
  match parentId with
  | none => depth = 0
  | some parent => ∃ c : Comment, Seen before s (.comment parent) c ∧ depth = c.depth + 1

/-- A new comment is stored one level below its parent. -/
def Deepens (before : Committed Key Doc → Committed Key Doc → Prop) (c : Command)
    (s : Committed Key Doc) (after : Store) : Prop :=
  ∀ id userId postId parentId, c = .createComment id userId postId parentId →
    ∃ depth, createCommentBody id postId userId parentId depth s.db = .ok after ∧
      Below before s parentId depth

/-- The handler reads the parent before the transaction and passes its depth on. -/
theorem deepens_handler {D : Discipline Key Doc Command} (c : Command) :
    (D.withEffect (Deepens D.Before)).Sound c [] c.handler := by
  cases c with
  | createComment id userId postId parentId =>
    have hbody : ∀ {past : List (Committed Key Doc)} {depth s after},
        (∀ r ∈ past, D.Before r s) →
        (∀ s, (∀ r ∈ past, D.Before r s) → Below D.Before s parentId depth) →
        createCommentBody id postId userId parentId depth s.db = .ok after →
        Deepens D.Before (.createComment id userId postId parentId) s after := by
      rintro past depth s after hpast hbelow hafter _ _ _ _ ⟨⟩
      exact ⟨depth, hafter, hbelow s hpast⟩
    refine sound_require fun r _ _ => sound_requirePost fun r' post hpost => ?_
    cases parentId with
    | none =>
      refine sound_executeInTransaction (fun s after hpast hafter => hbody hpast
        (fun _ _ => rfl) hafter) fun _ _ _ _ => ?_
      exact sound_require fun _ _ _ => trivial
    | some parent =>
      refine sound_require fun r'' parentComment hparent => ?_
      split
      · refine sound_executeInTransaction (fun s after hpast hafter => hbody hpast
          (fun s hpast =>
            ⟨parentComment, seen hpast (by simp) hparent, rfl⟩) hafter) fun _ _ _ _ => ?_
        exact sound_require fun _ _ _ => trivial
      · trivial
  | _ => exact .of_forall fun _ _ _ _ _ _ h => by cases h

section Commit

variable {before : Committed Key Doc → Committed Key Doc → Prop}
  {snapshot current : Committed Key Doc} {after : Store} {c : Command}

/-- A comment is gone, or where it was, or new and below its parent. -/
def Placed (before : Committed Key Doc → Committed Key Doc → Prop) (snapshot : Committed Key Doc)
    (after : Store) (id : ℕ) : Prop :=
  place after id = none ∨ place after id = place snapshot.db id ∨
    snapshot.db.doc (.comment id) = none ∧ ∀ parentId depth,
      place after id = some (parentId, depth) → Below before snapshot parentId depth

/-- A command moves no comment, and a new comment lies below its parent. -/
theorem effect_place (heffect : Effect before snapshot c after)
    (hdeepens : Deepens before c snapshot after) (id : ℕ) : Placed before snapshot after id := by
  have hstays : places.Stays snapshot.db after → Placed before snapshot after id :=
    fun h => (h (.comment id) rfl).imp_right .inl
  have hconfined : ∀ {C}, Confined C snapshot.db after → .comments ∉ C →
      Placed before snapshot after id := fun h hcs => hstays (h.places hcs)
  cases heffect with
  | promoteToAdmin => exact hconfined (C := [.users]) (.update (by simp)) (by decide)
  | unbanUser => exact hconfined (C := [.users]) (.update (by simp)) (by decide)
  | demoteFromAdmin hbody => exact hconfined (demoteFromAdminBody_confined hbody) (by decide)
  | banUser _ hbody => exact hstays (places_purgeBody hbody)
  | deleteUser _ hbody => exact hstays (places_purgeBody hbody)
  | setFollowState _ _ _ hbody => exact hconfined (setFollowStateBody_confined hbody) (by decide)
  | @createComment new userId postId parentId =>
    obtain ⟨depth, hbody, hbelow⟩ := hdeepens _ _ _ _ rfl
    obtain ⟨hfree, rfl⟩ := create_map_eq_ok.mp hbody
    rcases places_countComment _ _ _ (.comment id) rfl with hnone | hsame
    · exact .inl hnone
    · refine .inr ?_
      by_cases hid : id = new
      · subst hid
        refine .inr ⟨hfree, fun parentId depth' hplace => ?_⟩
        rw [place, hsame, Trait.of_eq_some (Database.doc_put_self ..)] at hplace
        obtain ⟨rfl, rfl⟩ := Prod.mk.inj (Option.some.inj hplace)
        exact hbelow
      · have hne : Key.comment id ≠ .comment new := fun h => hid (Key.comment.inj h)
        exact .inl (hsame.trans (Trait.of_congr (Database.doc_put_ne _ _ hne)))
  | deleteComment => exact hstays (places_deleteCommentBody _ _ _ _)
  | likeComment => exact hstays (places_likeCommentBody _ _ _)
  | likeActionByPublicId => exact hconfined (likePostBody_confined _ _ _) (by decide)
  | repostPost _ _ hbody => exact hconfined (createRepostBody_confined hbody) (by decide)
  | unrepostPost => exact hstays (places_deletePostGraph _ _)
  | createPendingPost _ _ hbody =>
    exact hconfined (C := [.posts]) (.create hbody (by simp)) (by decide)
  | activatePendingPost _ _ hbody =>
    obtain ⟨_, _, _, rfl⟩ := activatePendingPostBody_eq hbody
    exact hconfined (C := [.posts, .users, .communities]) (.trans (.update (by simp))
      ((countPost_confined _ _ _).mono (by simp))) (by decide)
  | markPendingPostFailed => exact hconfined (C := [.posts]) (.update (by simp)) (by decide)
  | deletePost hbody =>
    obtain ⟨_, rfl⟩ := deletePostBody_eq hbody
    exact hstays (places_deletePostGraph _ _)
  | createCommunity _ hbody => exact hconfined (createCommunityBody_confined hbody) (by decide)
  | joinCommunity _ _ hbody => exact hconfined (joinCommunityBody_confined hbody) (by decide)
  | leaveCommunity hbody =>
    obtain ⟨_, _, _, rfl⟩ := leaveCommunityBody_eq hbody
    exact hconfined (removeMember_confined _ _ _) (by decide)
  | kickMember hbody =>
    obtain ⟨_, _, _, rfl⟩ := kickMemberBody_eq hbody
    exact hconfined (removeMember_confined _ _ _) (by decide)
  | deleteCommunity hbody =>
    obtain ⟨_, rfl⟩ := deleteCommunityBody_eq hbody
    exact hstays ((places_deletePostGraph _ _).trans
      ((removeCommunity_confined _ _).places (by decide)))
  | createConversation _ _ hbody => exact hconfined (createConversation_confined hbody) (by decide)
  | acquireConversation hbody => exact hconfined (acquireForMutation_confined hbody) (by decide)
  | sendMessage _ hbody => exact hconfined (sendMessageBody_confined hbody) (by decide)

/-- Comments lie one level below their parents, and those that reply to none at the top. -/
def Nested (db : Store) : Prop :=
  ∀ id parentId depth, place db id = some (parentId, depth) → match parentId with
    | none => depth = 0
    | some parent => ∀ t, place db parent = some t → depth = t.2 + 1

/-- A parent is referred to. -/
theorem cited_of_place {db : Store} {id parent depth : ℕ}
    (h : place db id = some (some parent, depth)) : references.Cited db (.comment parent) := by
  obtain ⟨d, hd, hvalue⟩ := Option.map_eq_some_iff.mp h
  exact ⟨.comment id, d, hd, .inr ⟨parent, (Prod.mk.inj hvalue).1, rfl⟩⟩

/-- A commit keeps the place of comments. -/
private theorem places_commit (hsince : Committed.Since serial snapshot current)
    (hfresh : Committed.Fresh snapshot current after)
    (hnew : Committed.NewKeys serial snapshot current after)
    (heffect : Effect before snapshot c after) (hdeepens : Deepens before c snapshot after) :
    places.Keeps current (snapshot.commit current after) := by
  refine Trait.keeps_commit (fun _ => serial_of_places) hsince hfresh hnew fun k hk => ?_
  cases k with
  | comment id => exact (effect_place heffect hdeepens id).imp_right fun h => h.imp_right And.left
  | _ => cases hk

/-- A commit keeps comments nested. -/
private theorem nested_commit (hcurrent : Nested current.db) (hknown : references.Known current)
    (hsince : Committed.Since serial snapshot current)
    (hfresh : Committed.Fresh snapshot current after)
    (hnew : Committed.NewKeys serial snapshot current after)
    (heffect : Effect before snapshot c after) (hdeepens : Deepens before c snapshot after)
    (hbefore : ∀ r, before r snapshot → Committed.Since serial r current ∧ places.Keeps r current) :
    Nested (snapshot.commit current after).db := by
  have hplace := fun id => Trait.of_commit hsince hfresh (effect_place heffect hdeepens id)
  have hzero : ∀ {id t}, place after id = some t → snapshot.db.doc (.comment id) = none →
      current.revision (.comment id) = 0 := by
    intro id t ht hfree
    refine hnew (.comment id) rfl hfree fun hnone => ?_
    cases (Trait.of_eq_none.mpr hnone).symm.trans ht
  intro id parentId depth hid
  rcases hplace id with hnone | hsame | ⟨hmerge, hfree, hbelow⟩
  · cases hnone.symm.trans hid
  · have hold := hcurrent id parentId depth (hsame.symm.trans hid)
    cases parentId with
    | none => exact hold
    | some parent =>
      intro t hparent
      rcases hplace parent with hnone' | hsame' | ⟨hmerge', hfree', -⟩
      · cases hnone'.symm.trans hparent
      · exact hold t (hsame'.symm.trans hparent)
      · -- A parent that is named has been written, so it is not new.
        have hpos := hknown _ (cited_of_place (hsame.symm.trans hid))
        have hnever := hzero (hmerge'.symm.trans hparent) hfree'
        omega
  · have hnewly := hbelow parentId depth (hmerge.symm.trans hid)
    cases parentId with
    | none => exact hnewly
    | some parent =>
      intro t hparent
      obtain ⟨comment, ⟨r, hr, hcomment⟩, rfl⟩ := hnewly
      obtain ⟨hsince', hkeeps⟩ := hbefore r hr
      rcases hplace parent with hnone' | hsame' | ⟨hmerge', hfree', -⟩
      · cases hnone'.symm.trans hparent
      · rcases hkeeps (.comment parent) _ rfl (Trait.of_eq_some hcomment) with hnone | hsome
        · cases hnone.symm.trans (hsame'.symm.trans hparent)
        · obtain rfl := Option.some.inj (hsome.symm.trans (hsame'.symm.trans hparent))
          rfl
      · have hpos := r.written (.comment parent) (by rw [hcomment]; rfl)
        have hle := (hsince' (.comment parent)).1
        have hnever := hzero (hmerge'.symm.trans hparent) hfree'
        omega

end Commit

/-- Comments stay nested and where they are. -/
def nesting : Discipline Key Doc Command :=
  (discipline (fun c => Nested c.db) places.Keeps fun _ _ _ _ => True).withEffect
    fun c s after => Effect (Earlier (fun c => Nested c.db) places.Keeps) s c after ∧
      Deepens (Earlier (fun c => Nested c.db) places.Keeps) c s after

private theorem nesting_kept : nesting.Kept := by
  have hkept : (discipline (fun c => Nested c.db) places.Keeps
      (fun c snapshot _ after =>
        Deepens (Earlier (fun c => Nested c.db) places.Keeps) c snapshot after)).Kept := by
    refine discipline_kept (fun c => .refl c)
      (fun _ _ _ hab hbc => .trans (fun _ => serial_of_places) hab hbc) ?_
    rintro c snapshot current after ⟨-, hsince, -, hkeeps⟩ hcoherent hnested hfresh hnew heffect
      hdeepens
    exact ⟨nested_commit hnested hcoherent.known hsince hfresh hnew heffect hdeepens
      fun r hr => ⟨hr.2.1.trans hsince, .trans (fun _ => serial_of_places) hr.2.1 hsince hr.2.2.2
        hkeeps⟩, places_commit hsince hfresh hnew heffect hdeepens⟩
  exact ⟨hkept.refl, hkept.trans, fun c s t a hbefore hgood hfresh hnew heffect _ =>
    hkept.commit c s t a hbefore hgood hfresh hnew heffect.1 heffect.2⟩

private theorem nesting_sound (c : Command) : nesting.Sound c [] (runtime.program c) :=
  .and (handler_sound (D := discipline (fun c => Nested c.db) places.Keeps fun _ _ _ _ => True)
    (fun _ _ _ h => h) c)
    (deepens_handler (D := discipline (fun c => Nested c.db) places.Keeps fun _ _ _ _ => True) c)

/-- Worlds that a run goes through, each reached from the one before. -/
structure Passes (c : Committed Key Doc) (worlds : ℕ → SocialWorld) : Prop where
  start : ∃ es, Run (Graph (World.step runtime)) (World.initial c) es (worlds 0)
  next : ∀ n, ∃ es, Run (Graph (World.step runtime)) (worlds n) es (worlds (n + 1))

/-- Every run meets the discipline of nesting. -/
private theorem nesting_meets {w w' : SocialWorld} {es : List (Event Command)}
    (h : Run (Graph (World.step runtime)) w es w') :
    Run (Restrict (Graph (World.step runtime)) (nesting.Meets fun _ => True)) w es w' :=
  h.restrict fun _ _ _ => ⟨fun _ _ _ _ => trivial, fun _ _ _ => trivial⟩

/-- The worlds of a run are nested, and comments keep their places from each to the next. -/
theorem Passes.nesting {c : Committed Key Doc} {worlds : ℕ → SocialWorld} (h : Passes c worlds)
    (hcoherent : Coherent c) (hnested : Nested c.db) (n : ℕ) :
    nesting.SoundWorld (worlds n) ∧ nesting.Before (worlds n).state (worlds (n + 1)).state := by
  have hsound : ∀ n, Social.nesting.SoundWorld (worlds n) := by
    intro n
    induction n with
    | zero =>
      obtain ⟨es, hrun⟩ := h.start
      exact Discipline.SoundWorld.run nesting_kept rfl (fun c _ => nesting_sound c)
        (Discipline.soundWorld_initial ⟨hcoherent, hnested⟩) (nesting_meets hrun)
    | succ n ih =>
      obtain ⟨es, hrun⟩ := h.next n
      exact ih.run nesting_kept rfl (fun c _ => nesting_sound c) (nesting_meets hrun)
  obtain ⟨es, hrun⟩ := h.next n
  exact ⟨hsound n, (hsound n).before_run nesting_kept rfl (fun c _ => nesting_sound c)
    (nesting_meets hrun)⟩

/-- A parent that is read later still is where the reply found it. -/
theorem depth_of_parent {a b : Committed Key Doc} (h : nesting.Before a b) {id parent depth : ℕ}
    {t : Option ℕ × ℕ} (hid : place a.db id = some (some parent, depth))
    (hparent : place b.db parent = some t) : depth = t.2 + 1 := by
  obtain ⟨⟨hcoherent, hnested⟩, hsince, -, hkeeps⟩ := h
  cases hold : place a.db parent with
  | none =>
    -- A comment that is gone does not come back.
    have hpos := hcoherent.known _ (cited_of_place hid)
    have hgone := (hsince (.comment parent)).2.2 rfl hpos (Trait.of_eq_none.mp hold)
    cases (Trait.of_eq_none.mpr hgone).symm.trans hparent
  | some t' =>
    rcases hkeeps (.comment parent) t' rfl hold with hnone | hsame
    · cases hnone.symm.trans hparent
    · obtain rfl := Option.some.inj (hsame.symm.trans hparent)
      exact hnested id (some parent) depth hid _ hold

/-- So is its post. -/
theorem post_of_parent {a b : Committed Key Doc} (h : nesting.Before a b) {id postId parent : ℕ}
    {t : ℕ × Option ℕ} (hid : thread a.db id = some (postId, some parent))
    (hparent : thread b.db parent = some t) : t.1 = postId := by
  obtain ⟨⟨hcoherent, -⟩, hsince, hkeeps, -⟩ := h
  cases hold : thread a.db parent with
  | none =>
    have hpos := hcoherent.known _ (cited_of_thread hid)
    have hgone := (hsince (.comment parent)).2.2 rfl hpos (Trait.of_eq_none.mp hold)
    cases (Trait.of_eq_none.mpr hgone).symm.trans hparent
  | some t' =>
    rcases hkeeps _ t' (identity_comment parent) hold with hnone | hsame
    · cases hnone.symm.trans hparent
    · obtain rfl := Option.some.inj (hsame.symm.trans hparent)
      exact hcoherent.threaded id postId parent _ hid hold

/-- A comment as it is shown, apart from its texts and dates. -/
structure TransformedComment where
  id : ℕ
  postPublicId : Option ℕ
  parentId : Option ℕ
  replyCount : ℤ
  depth : ℕ
  likesCount : ℤ
  user : Option ℕ
  isDeleted : Bool
  deriving DecidableEq, Repr

/-- The stores that the queries for a comment, its author and its post read. -/
structure Reads where
  comments : Store
  users : Store
  posts : Store

namespace CommentRepository

/-- A deleted comment shows neither its author nor its likes. -/
def transformComment (db : Reads) (id : ℕ) (comment : Comment) : TransformedComment :=
  let post := if (db.posts.doc (.post comment.postId)).isSome then some comment.postId else none
  if comment.isDeleted then
    { id := id, postPublicId := post, parentId := comment.parentId
      replyCount := comment.replyCount, depth := comment.depth, likesCount := 0, user := none
      isDeleted := true }
  else
    { id := id, postPublicId := post, parentId := comment.parentId
      replyCount := comment.replyCount, depth := comment.depth, likesCount := comment.likesCount
      user := comment.userId.filter fun user => (db.users.doc (.user user)).isSome
      isDeleted := false }

/-- A comment as the client is shown it. -/
def findByIdTransformed (db : Reads) (commentId : ℕ) : Option TransformedComment :=
  (db.comments.doc (.comment commentId)).map (transformComment db commentId)

/-- The loop of `getCommentWithAncestors` from its `n`-th read on; `none` if it takes more than
the given rounds. -/
def ancestorsLoop (reads : ℕ → Reads) : (rounds n : ℕ) → (currentParentId : Option ℕ) →
    (ancestors : List TransformedComment) → Option (List TransformedComment)
  | _, _, none, ancestors => some ancestors
  | 0, _, some _, _ => none
  | rounds + 1, n, some currentParentId, ancestors =>
    match findByIdTransformed (reads n) currentParentId with
    | none => some ancestors
    | some parent => ancestorsLoop reads rounds (n + 1) parent.parentId (ancestors ++ [parent])

/-- A comment and the comments above it, the topmost first. -/
def getCommentWithAncestors (reads : ℕ → Reads) (rounds commentId : ℕ) :
    Option (Option TransformedComment × List TransformedComment) :=
  match findByIdTransformed (reads 0) commentId with
  | none => some (none, [])
  | some comment =>
    (ancestorsLoop reads rounds 1 comment.parentId []).map fun ancestors =>
      (some comment, ancestors.reverse)

/-- The ancestors of a comment, from its parent up, as the reads from the `n`-th on find them. -/
inductive Trail (reads : ℕ → Reads) : ℕ → TransformedComment → List TransformedComment → Prop
  | root {n : ℕ} {c : TransformedComment} (hparent : c.parentId = none) (hdepth : c.depth = 0) :
      Trail reads n c []
  | orphan {n parent : ℕ} {c : TransformedComment} (hparent : c.parentId = some parent)
      (hgone : (reads n).comments.doc (.comment parent) = none) : Trail reads n c []
  | reply {n : ℕ} {c p : TransformedComment} {ancestors : List TransformedComment}
      (hparent : c.parentId = some p.id) (hdepth : c.depth = p.depth + 1)
      (h : Trail reads (n + 1) p ancestors) : Trail reads n c (p :: ancestors)

/-- What `getCommentWithAncestors` returns with a comment: each ancestor is the parent of the next,
one level above it, and all are comments on one post; the first is a root, or its parent was gone
when it was looked up. -/
structure Breadcrumbs (reads : ℕ → Reads) (comment : TransformedComment)
    (ancestors : List TransformedComment) : Prop where
  parents : (ancestors ++ [comment]).IsChain fun a b => b.parentId = some a.id ∧
    b.depth = a.depth + 1
  post : ∃ postId, ∀ a ∈ ancestors ++ [comment], ∀ p, a.postPublicId = some p → p = postId
  top : ∀ a, (ancestors ++ [comment]).head? = some a →
    comment.depth = a.depth + ancestors.length ∧
      (a.parentId = none ∧ a.depth = 0 ∨ ∃ parent, a.parentId = some parent ∧
        (reads (ancestors.length + 1)).comments.doc (.comment parent) = none)

section Walk

variable {reads : ℕ → Reads} {n : ℕ} {c : TransformedComment} {ancestors : List TransformedComment}

/-- Each of the comments is the parent of the next, one level above it. -/
theorem Trail.parents (h : Trail reads n c ancestors) :
    (ancestors.reverse ++ [c]).IsChain fun a b => b.parentId = some a.id ∧
      b.depth = a.depth + 1 := by
  induction h with
  | root => exact .singleton _
  | orphan => exact .singleton _
  | reply hparent hdepth _ ih =>
    rw [List.reverse_cons]
    refine List.isChain_append.mpr ⟨ih, .singleton _, fun a ha b hb => ?_⟩
    rw [List.getLast?_append_of_ne_nil _ (List.cons_ne_nil _ _)] at ha
    obtain rfl := Option.some.inj ha
    obtain rfl := Option.some.inj hb
    exact ⟨hparent, hdepth⟩

/-- The topmost comment has no parent, or one that was deleted while the walk went on. -/
theorem Trail.top (h : Trail reads n c ancestors) :
    ∀ a, (ancestors.reverse ++ [c]).head? = some a → c.depth = a.depth + ancestors.length ∧
      (a.parentId = none ∧ a.depth = 0 ∨ ∃ parent, a.parentId = some parent ∧
        (reads (ancestors.length + n)).comments.doc (.comment parent) = none) := by
  induction h with
  | root hparent hdepth =>
    rintro a ⟨⟩
    exact ⟨rfl, .inl ⟨hparent, hdepth⟩⟩
  | orphan hparent hgone =>
    rintro a ⟨⟩
    exact ⟨rfl, .inr ⟨_, hparent, by simpa using hgone⟩⟩
  | @reply n c p ancestors hparent hdepth _ ih =>
    intro a ha
    rw [List.reverse_cons, List.head?_append_of_ne_nil _ (by simp)] at ha
    obtain ⟨hlength, htop⟩ := ih a ha
    rw [List.length_cons]
    refine ⟨by omega, ?_⟩
    rwa [show ancestors.length + 1 + n = ancestors.length + (n + 1) by omega]

/-- What a comment that is found shows of the document. -/
theorem findByIdTransformed_eq_some {db : Reads} {id : ℕ} {t : TransformedComment}
    (h : findByIdTransformed db id = some t) :
    ∃ d : Comment, db.comments.doc (.comment id) = some d ∧ t.id = id ∧
      t.parentId = d.parentId ∧ t.depth = d.depth ∧ ∀ p,
        t.postPublicId = some p → p = d.postId := by
  obtain ⟨d, hd, rfl⟩ := Option.map_eq_some_iff.mp h
  have hpost : ∀ p, (if (db.posts.doc (.post (Comment.postId d))).isSome then some d.postId
      else none) = some p → p = d.postId := by
    intro p hp
    split at hp
    · exact (Option.some.inj hp).symm
    · cases hp
  refine ⟨d, hd, ?_⟩
  unfold transformComment
  dsimp only
  split <;> exact ⟨rfl, rfl, rfl, hpost⟩

variable {worlds : ℕ → SocialWorld}

/-- From a comment that was read, the loop goes up the trail; each round goes one level up. -/
theorem ancestorsLoop_trail
    (hworlds : ∀ n, nesting.SoundWorld (worlds n) ∧
      nesting.Before (worlds n).state (worlds (n + 1)).state)
    (hreads : ∀ n, (reads n).comments = (worlds n).state.db) {k : ℕ} {d : Comment} {id : ℕ}
    (hd : (reads n).comments.doc (.comment id) = some d) (hparent : c.parentId = d.parentId)
    (hdepth : c.depth = d.depth) (hk : c.depth = k) :
    ∃ found, Trail reads (n + 1) c found ∧
      (∀ a ∈ found, ∀ p, a.postPublicId = some p → p = d.postId) ∧
      ∀ rounds, k < rounds → ∀ acc,
        ancestorsLoop reads rounds (n + 1) c.parentId acc = some (acc ++ found) := by
  induction k using Nat.strong_induction_on generalizing n c d id with
  | _ k ih =>
  have hround : ∀ rounds, k < rounds → ∃ more, rounds = more + 1 :=
    fun rounds h => Nat.exists_eq_add_one.mpr (Nat.zero_lt_of_lt h)
  obtain ⟨hsound, hbefore⟩ := hworlds n
  rw [hreads n] at hd
  have hplace : place (worlds n).state.db id = some (c.parentId, c.depth) := by
    rw [hparent, hdepth]
    exact Trait.of_eq_some hd
  cases hup : c.parentId with
  | none =>
    rw [hup] at hplace
    refine ⟨[], .root hup (hsound.good.2 id none c.depth hplace), by simp, fun rounds _ acc => ?_⟩
    rw [ancestorsLoop, List.append_nil]
  | some parent =>
    cases hfind : findByIdTransformed (reads (n + 1)) parent with
    | none =>
      refine ⟨[], .orphan hup (Option.map_eq_none_iff.mp hfind), by simp, fun rounds h acc => ?_⟩
      obtain ⟨more, rfl⟩ := hround rounds h
      rw [ancestorsLoop, hfind, List.append_nil]
    | some p =>
      obtain ⟨e, he, hid, hparent', hdepth', hpost'⟩ := findByIdTransformed_eq_some hfind
      have hstored := he
      rw [hreads (n + 1)] at hstored
      have hlevel : c.depth = p.depth + 1 := by
        rw [hdepth']
        rw [hup] at hplace
        exact depth_of_parent hbefore hplace (Trait.of_eq_some hstored)
      have hsame : e.postId = d.postId := by
        have hthread : thread (worlds n).state.db id = some (d.postId, some parent) := by
          rw [← hup, hparent]
          exact Trait.of_eq_some hd
        exact post_of_parent hbefore hthread (Trait.of_eq_some hstored)
      obtain ⟨found, htrail, hposts, hloop⟩ := ih p.depth (by omega) he hparent' hdepth' rfl
      refine ⟨p :: found, .reply (by rw [hup, hid]) hlevel htrail, fun a ha => ?_,
        fun rounds h acc => ?_⟩
      · rcases List.mem_cons.mp ha with rfl | ha
        · exact fun q hq => (hpost' q hq).trans hsame
        · exact fun q hq => (hposts a ha q hq).trans hsame
      · obtain ⟨more, rfl⟩ := hround rounds h
        rw [ancestorsLoop, hfind]
        exact (hloop more (by omega) (acc ++ [p])).trans
          (by rw [List.append_assoc, List.singleton_append])

end Walk

end CommentRepository

open CommentRepository

/-- Whatever is written between its reads, the walk from a comment to the root of its thread ends
after at most as many rounds as the comment is deep and one more, with the breadcrumbs. -/
theorem getCommentWithAncestors_breadcrumbs {c : Committed Key Doc} (hcoherent : Coherent c)
    (hnested : Nested c.db) {worlds : ℕ → SocialWorld} (hpasses : Passes c worlds)
    {reads : ℕ → Reads} (hreads : ∀ n, (reads n).comments = (worlds n).state.db) (commentId : ℕ) :
    ((worlds 0).state.db.doc (.comment commentId) = none ∧
      ∀ rounds, getCommentWithAncestors reads rounds commentId = some (none, [])) ∨
    ∃ comment ancestors, comment.id = commentId ∧ Breadcrumbs reads comment ancestors ∧
      ∀ rounds, comment.depth < rounds →
        getCommentWithAncestors reads rounds commentId = some (some comment, ancestors) := by
  cases hfind : findByIdTransformed (reads 0) commentId with
  | none =>
    refine .inl ⟨?_, fun rounds => by rw [getCommentWithAncestors, hfind]⟩
    rw [← hreads 0]
    exact Option.map_eq_none_iff.mp hfind
  | some comment =>
    obtain ⟨d, hd, hid, hparent, hdepth, hpost⟩ := findByIdTransformed_eq_some hfind
    obtain ⟨found, htrail, hposts, hloop⟩ :=
      ancestorsLoop_trail (hpasses.nesting hcoherent hnested) hreads hd hparent hdepth rfl
    refine .inr ⟨comment, found.reverse, hid, ⟨htrail.parents, ⟨d.postId, ?_⟩, ?_⟩, ?_⟩
    · intro a ha
      rcases List.mem_append.mp ha with ha | ha
      · exact hposts a (List.mem_reverse.mp ha)
      · rw [List.mem_singleton.mp ha]
        exact hpost
    · rw [List.length_reverse]
      exact htrail.top
    · intro rounds hrounds
      rw [getCommentWithAncestors, hfind]
      dsimp only
      rw [hloop rounds hrounds, List.nil_append, Option.map_some]

/-- A reply to a reply is read; then the root is deleted and leaves a tombstone, to which the walk
goes up. -/
theorem getCommentWithAncestors_tombstone :
    ∃ w w' : SocialWorld, Run (Graph (World.step runtime)) (World.initial (.ofDatabase twoUsers))
      [.start 0 (.createPost 10 1 none true), .advance 0, .advance 0, .advance 0, .advance 0,
        .advance 0, .advance 0, .start 1 (.createComment 20 2 10 none), .advance 1, .advance 1,
        .advance 1, .advance 1, .start 2 (.createComment 21 1 10 (some 20)), .advance 2, .advance 2,
        .advance 2, .advance 2, .advance 2, .start 3 (.createComment 22 2 10 (some 21)),
        .advance 3, .advance 3, .advance 3, .advance 3, .advance 3] w ∧
      Run (Graph (World.step runtime)) w [.start 4 (.deleteComment 2 20), .advance 4, .advance 4,
        .advance 4, .advance 4, .advance 4] w' ∧
      let reads (n : ℕ) : Reads :=
        let db := if n = 0 then w.state.db else w'.state.db
        ⟨db, db, db⟩
      ∃ comment ancestors, comment.id = 22 ∧ Breadcrumbs reads comment ancestors ∧
        ∀ rounds, comment.depth < rounds →
          getCommentWithAncestors reads rounds 22 = some (some comment, ancestors) := by
  let deletes : List (Event Command) := [.start 4 (.deleteComment 2 20), .advance 4, .advance 4,
    .advance 4, .advance 4, .advance 4]
  let check (w : SocialWorld) : Bool :=
    (w.state.db.doc (.comment 22)).isSome && (exec (World.step runtime) w deletes).isSome
  obtain ⟨w, hw, hcheck⟩ := exec_any (by decide +kernel :
    (exec (World.step runtime) (World.initial (.ofDatabase twoUsers) : SocialWorld)
      [.start 0 (.createPost 10 1 none true), .advance 0, .advance 0, .advance 0, .advance 0,
        .advance 0, .advance 0, .start 1 (.createComment 20 2 10 none), .advance 1, .advance 1,
        .advance 1, .advance 1, .start 2 (.createComment 21 1 10 (some 20)), .advance 2, .advance 2,
        .advance 2, .advance 2, .advance 2, .start 3 (.createComment 22 2 10 (some 21)),
        .advance 3, .advance 3, .advance 3, .advance 3, .advance 3]).any check = true)
  obtain ⟨hstored, hdeletes⟩ := Bool.and_eq_true_iff.mp hcheck
  obtain ⟨w', hw'⟩ := Option.isSome_iff_exists.mp hdeletes
  let worlds (n : ℕ) : SocialWorld := if n = 0 then w else w'
  have hpasses : Passes (.ofDatabase twoUsers) worlds := by
    refine ⟨⟨_, hw⟩, fun n => ?_⟩
    cases n with
    | zero => exact ⟨_, exec_run hw'⟩
    | succ n => exact ⟨[], .nil⟩
  have hnested : Nested twoUsers := by
    intro id parentId depth h
    obtain ⟨d, hd, -⟩ := Option.map_eq_some_iff.mp h
    cases (twoUsers_eq_none (k := .comment id) (by simp)).symm.trans hd
  refine ⟨w, w', hw, exec_run hw', ?_⟩
  refine (getCommentWithAncestors_breadcrumbs (coherent_of_unreferring (by decide)) hnested hpasses
    (fun n => ?_) 22).resolve_left fun hnone => ?_
  · cases n <;> rfl
  · have hsome : (w.state.db.doc (.comment 22)).isSome = true := hstored
    rw [show w.state.db.doc (.comment 22) = none from hnone.1] at hsome
    cases hsome

end Ascendance.Social
