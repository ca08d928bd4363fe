import Ascendance.Models.PostViews.Handler

/-!
# Views are counted once

A body that inserts a view writes the counter of its post, so the two move together on
whichever snapshot it commits. The pairs that were inserted are all different, and the call
that has inserted one is the only call that reports it.
-/

namespace Ascendance.PostViews

open Ascendance.Core

/-- How a call goes on without a commit. -/
inductive Moves (state : Committed Key Doc) : Phase → Phase → Prop
  | start (command : RecordPostViewCommand) : Moves state .idle (.findingPost command)
  | foundPost {command : RecordPostViewCommand} {post : Post}
      (h : findOneByPublicId command.postId state.db = some post) :
      Moves state (.findingPost command) (.findingUser command post)
  | foundUser {command : RecordPostViewCommand} {post : Post} (user : Option User) :
      Moves state (.findingUser command post) (afterUser command post user)
  | seen (command : RecordPostViewCommand) :
      Moves state (.askingBloom command) (.settled command (.ok false))
  | unseen (command : RecordPostViewCommand) :
      Moves state (.askingBloom command) (.beginning command)
  | begin (command : RecordPostViewCommand) :
      Moves state (.beginning command) (.inside command state)
  | retry (command : RecordPostViewCommand) (snapshot : Committed Key Doc) :
      Moves state (.inside command snapshot) (.beginning command)
  | duplicate (command : RecordPostViewCommand) (snapshot : Committed Key Doc) :
      Moves state (.inside command snapshot) (.checkingAgain command)
  | viewed (command : RecordPostViewCommand) :
      Moves state (.checkingAgain command) (.marking command false)
  | mark (command : RecordPostViewCommand) (isNewView : Bool) :
      Moves state (.marking command isNewView) (.settled command (.ok isNewView))
  | fail {phase : Phase} (command : RecordPostViewCommand) (failure : Failure)
      (h : ∀ c isNewView outcome, phase ≠ .marking c isNewView ∧ phase ≠ .settled c outcome) :
      Moves state phase (.settled command (.error failure))

/-- A step moves one call on, or commits its body. -/
inductive Steps (w : World) : World → Prop
  | move {i : ℕ} {phase : Phase} (h : Moves w.state (w.phase i) phase) :
      Steps w (w.setPhase i phase)
  | commit {i : ℕ} {command : RecordPostViewCommand} {snapshot : Committed Key Doc}
      (hphase : w.phase i = .inside command snapshot) (hmay : w.MayCommit command snapshot) :
      Steps w (w.apply i command snapshot false
        (.marking command (recordBody command.postId command.userId snapshot.db).2))
  | lose {i : ℕ} {command : RecordPostViewCommand} {snapshot : Committed Key Doc}
      (hphase : w.phase i = .inside command snapshot) (hmay : w.MayCommit command snapshot) :
      Steps w (w.apply i command snapshot true
        (.settled command (.error .ambiguousTransactionCommit)))

/-- An executed event is one of the listed steps. -/
theorem steps_of_step {w w' : World} {e : Event} (h : w.step e = some w') : Steps w w' := by
  have hmove : ∀ {i phase}, Moves w.state (w.phase i) phase → w.setPhase i phase = w' →
      Steps w w' := fun hm hw => hw ▸ .move hm
  cases e with
  | start i command =>
    simp only [World.step] at h
    split at h
    · next hphase => exact hmove (hphase ▸ .start command) (Option.some.inj h)
    · cases h
  | advance i =>
    simp only [World.step] at h
    split at h
    · next command hphase =>
      split at h
      · exact hmove (hphase ▸ .fail command _ (by simp)) (Option.some.inj h)
      · next hpost => exact hmove (hphase ▸ .foundPost hpost) (Option.some.inj h)
    · next hphase => exact hmove (hphase ▸ .foundUser _) (Option.some.inj h)
    · next hphase => exact hmove (hphase ▸ .begin _) (Option.some.inj h)
    · next command hphase =>
      split at h
      · exact hmove (hphase ▸ .viewed command) (Option.some.inj h)
      · exact hmove (hphase ▸ .fail command _ (by simp)) (Option.some.inj h)
    · cases h
  | bloomRead i answer =>
    simp only [World.step] at h
    split at h
    · next command hphase =>
      split at h
      · exact hmove (hphase ▸ .seen command) (Option.some.inj h)
      · exact hmove (hphase ▸ .unseen command) (Option.some.inj h)
    · cases h
  | bloomAdd i success =>
    simp only [World.step] at h
    split at h
    · next hphase => exact hmove (hphase ▸ .mark _ _) (Option.some.inj h)
    · cases h
  | commit i =>
    simp only [World.step] at h
    split at h
    · next command snapshot hphase =>
      split at h
      · next hmay =>
        exact Option.some.inj h ▸ .commit hphase hmay
      · cases h
    · cases h
  | lose i applied =>
    simp only [World.step] at h
    split at h
    · next command snapshot hphase =>
      split at h
      · split at h
        · next hmay =>
          exact Option.some.inj h ▸ .lose hphase hmay
        · cases h
      · exact hmove (hphase ▸ .fail command _ (by simp)) (Option.some.inj h)
    · cases h
  | retry i =>
    simp only [World.step] at h
    split at h
    · next hphase => exact hmove (hphase ▸ .retry _ _) (Option.some.inj h)
    · cases h
  | duplicate i =>
    simp only [World.step] at h
    split at h
    · next hphase =>
      split at h
      · exact hmove (hphase ▸ .duplicate _ _) (Option.some.inj h)
      · cases h
    · cases h
  | fail i =>
    simp only [World.step] at h
    split at h
    case h_6 => cases h
    all_goals
      next hphase => exact hmove (hphase ▸ .fail _ _ (by simp)) (Option.some.inj h)

section Commit

variable {postId userId : ℕ} {snapshot current : Committed Key Doc}

/-- Posts, users and views are never stored again under a new key. -/
abbrev Since (earlier later : Committed Key Doc) : Prop :=
  Committed.Since (fun _ => false) earlier later

/-- A body that finds the view changes nothing. -/
private theorem recordBody_of_viewed {db : Store} {d : Unit}
    (h : db.doc (.view postId userId) = some d) : recordBody postId userId db = (db, false) := by
  simp only [recordBody, recordView, h, Bool.false_eq_true, if_false]

/-- A body that finds no view inserts one and counts it. -/
private theorem recordBody_of_new {db : Store} (h : db.doc (.view postId userId) = none) :
    recordBody postId userId db =
      (incrementViewCount postId (db.put (.view postId userId) ()), true) := by
  simp only [recordBody, recordView, h, if_true]

/-- What a body computes on a snapshot without the view. -/
theorem doc_recordBody {db : Store} (h : db.doc (.view postId userId) = none) (k : Key)
    (hview : k ≠ .view postId userId) (hpost : k ≠ .post postId) :
    (recordBody postId userId db).1.doc k = db.doc k := by
  rw [recordBody_of_new h]
  exact (Database.doc_update_ne (k := Key.post postId) _ _ hpost).trans
    (Database.doc_put_ne _ _ hview)

/-- The body inserts its view. -/
private theorem view_recordBody {db : Store} (h : db.doc (.view postId userId) = none) :
    (recordBody postId userId db).1.doc (.view postId userId) = some () := by
  rw [recordBody_of_new h]
  exact (Database.doc_update_ne (k := Key.post postId) _ _ (by simp)).trans
    (Database.doc_put_self ..)

/-- The counter of a post after some more views. -/
def Post.viewed (n : ℤ) (p : Post) : Post := { p with viewsCount := p.viewsCount + n }

/-- The body counts one view of its post. -/
private theorem post_recordBody {db : Store} (h : db.doc (.view postId userId) = none) :
    (recordBody postId userId db).1.doc (.post postId) =
      (db.doc (.post postId)).map (Post.viewed 1) := by
  rw [recordBody_of_new h]
  refine (Database.doc_update_self _ (Key.post postId) _).trans ?_
  rw [Database.doc_put_ne _ _ (by simp)]
  rfl

variable (hsince : Since snapshot current)
  (hfresh : snapshot.Fresh current (recordBody postId userId snapshot.db).1)

include hsince hfresh in
/-- A view that is new on the snapshot is new at the commit. -/
theorem view_current (h : snapshot.db.doc (.view postId userId) = none) :
    current.db.doc (.view postId userId) = none := by
  rw [hsince.unchanged hfresh, h]
  rw [view_recordBody h, h]
  exact Option.some_ne_none ()

/-- The commit stores the view, counts it, and changes nothing else. -/
theorem doc_commit (h : snapshot.db.doc (.view postId userId) = none) (k : Key)
    (hview : k ≠ .view postId userId) (hpost : k ≠ .post postId) :
    (snapshot.commit current (recordBody postId userId snapshot.db).1).db.doc k =
      current.db.doc k :=
  Database.doc_merge_same (doc_recordBody h k hview hpost)

/-- The commit inserts the view. -/
private theorem view_commit (h : snapshot.db.doc (.view postId userId) = none) :
    (snapshot.commit current (recordBody postId userId snapshot.db).1).db.doc
      (.view postId userId) = some () := by
  refine (Database.doc_merge_changed ?_).trans (view_recordBody h)
  rw [view_recordBody h, h]
  exact Option.some_ne_none ()

include hsince hfresh in
/-- The commit counts one view of the post. -/
private theorem post_commit (h : snapshot.db.doc (.view postId userId) = none)
    (hstored : (snapshot.db.doc (.post postId)).isSome) :
    (snapshot.commit current (recordBody postId userId snapshot.db).1).db.doc (.post postId) =
      (current.db.doc (.post postId)).map (Post.viewed 1) := by
  obtain ⟨p, hp⟩ := Option.isSome_iff_exists.mp hstored
  have hchanged : (recordBody postId userId snapshot.db).1.doc (.post postId) ≠
      snapshot.db.doc (.post postId) := by
    rw [post_recordBody h, hp]
    intro heq
    have hcount := congrArg Post.viewsCount (Option.some.inj heq)
    simp only [Post.viewed] at hcount
    omega
  refine (Database.doc_merge_changed hchanged).trans ?_
  rw [post_recordBody h, hsince.unchanged hfresh hchanged]

end Commit

/-- A body that finds the view commits nothing. -/
theorem commit_self (snapshot current : Committed Key Doc) :
    (snapshot.commit current snapshot.db).db = current.db :=
  Database.ext_doc fun _ => Database.doc_merge_same rfl

/-- The post of a command was there in the beginning, and its user does not own it. -/
def Eligible (db : Store) (command : RecordPostViewCommand) : Prop :=
  ∃ p : Post, db.doc (.post command.postId) = some p ∧ p.user ≠ some command.userId

/-- What a call knows: the owner of the post, and that the user is not the owner. -/
def Informed (db : Store) (current : Committed Key Doc) : Phase → Prop
  | .findingUser command post =>
    ∃ p : Post, db.doc (.post command.postId) = some p ∧ p.user = post.user
  | .askingBloom command | .beginning command | .checkingAgain command => Eligible db command
  | .inside command snapshot =>
    Eligible db command ∧ Since snapshot current ∧
      (snapshot.db.doc (.post command.postId)).isSome
  | _ => True

/-- A call that returns true, or is about to. -/
def Reports (phase : Phase) (command : RecordPostViewCommand) : Prop :=
  phase = .marking command true ∨ phase = .settled command (.ok true)

/-- The views of a post that were inserted. -/
def insertedFor (inserted : List Insertion) (postId : ℕ) : ℕ :=
  inserted.countP fun ins => ins.command.postId == postId

/-- Counters, views and reports agree with the insertions so far. -/
structure Counted (db : Store) (w : World) : Prop where
  posts : ∀ postId, w.state.db.doc (.post postId) =
    (db.doc (.post postId)).map (Post.viewed (insertedFor w.inserted postId))
  views : ∀ command : RecordPostViewCommand,
    w.state.db.doc (.view command.postId command.userId) = some () ↔
      db.doc (.view command.postId command.userId) = some () ∨
        ∃ ins ∈ w.inserted, ins.command = command
  nodup : (w.inserted.map Insertion.command).Nodup
  new : ∀ ins ∈ w.inserted,
    db.doc (.view ins.command.postId ins.command.userId) = none ∧ Eligible db ins.command
  informed : ∀ i, Informed db w.state (w.phase i)
  reports : ∀ i command, Reports (w.phase i) command ↔ ⟨i, command, false⟩ ∈ w.inserted

section Invariant

variable {db : Store} {w : World}

/-- Nothing is inserted in the beginning. -/
private theorem counted_initial (c : Committed Key Doc) : Counted c.db (World.initial c) where
  posts := fun postId => by
    have hid : Post.viewed ((insertedFor [] postId : ℕ) : ℤ) = id := by
      funext p
      simp [insertedFor, Post.viewed]
    change c.db.doc (.post postId) =
      (c.db.doc (.post postId)).map (Post.viewed (insertedFor [] postId : ℕ))
    rw [hid, Option.map_id, id]
  views := fun command => by simp [World.initial]
  nodup := List.nodup_nil
  new := fun ins hins => by simp [World.initial] at hins
  informed := fun i => trivial
  reports := fun i command => by simp [World.initial, Reports]

/-- What a call has read stays known. -/
theorem Informed.mono {current later : Committed Key Doc} (h : Since current later) {phase : Phase}
    (hphase : Informed db current phase) : Informed db later phase := by
  cases phase with
  | inside command snapshot => exact ⟨hphase.1, hphase.2.1.trans h, hphase.2.2⟩
  | _ => exact hphase

/-- A stored post is the initial one with more views. -/
theorem Counted.post (h : Counted db w) {postId : ℕ} {p : Post}
    (hp : w.state.db.doc (.post postId) = some p) :
    ∃ p₀ : Post, db.doc (.post postId) = some p₀ ∧ p₀.user = p.user := by
  rw [h.posts] at hp
  obtain ⟨p₀, hp₀, rfl⟩ := Option.map_eq_some_iff.mp hp
  exact ⟨p₀, hp₀, rfl⟩

/-- A call that goes on knows what it has read. -/
theorem Moves.informed {i : ℕ} {phase : Phase} (hmoves : Moves w.state (w.phase i) phase)
    (h : Counted db w) : Informed db w.state phase := by
  have hi := h.informed i
  generalize w.phase i = before at hmoves hi
  cases hmoves with
  | start => trivial
  | @foundPost command post hpost =>
    exact h.post (Option.filter_eq_some_iff.mp hpost).1
  | @foundUser command post user =>
    obtain ⟨p₀, hp₀, huser⟩ := hi
    cases user with
    | none => trivial
    | some user =>
      simp only [afterUser]
      split
      · trivial
      · next howner =>
        split
        · refine ⟨p₀, hp₀, fun h => howner ?_⟩
          rw [isPostOwnedBy, ← huser, h, beq_self_eq_true]
        · trivial
  | seen => trivial
  | unseen => exact hi
  | begin command =>
    obtain ⟨p₀, hp₀, hne⟩ := hi
    refine ⟨⟨p₀, hp₀, hne⟩, .refl _ _, ?_⟩
    rw [h.posts, hp₀]
    rfl
  | retry => exact hi.1
  | duplicate => exact hi.1
  | viewed => trivial
  | mark => trivial
  | fail => trivial

/-- Going on does not change what a call reports. -/
theorem Moves.reports {state : Committed Key Doc} {before after : Phase}
    (h : Moves state before after) (command : RecordPostViewCommand) :
    Reports after command ↔ Reports before command := by
  cases h with
  | foundUser user =>
    cases user with
    | none => simp [Reports, afterUser]
    | some user =>
      simp only [afterUser]
      split
      · simp [Reports]
      · split <;> simp [Reports]
  | fail c failure hne =>
    have hmarking := (hne command true (.ok true)).1
    have hsettled := (hne command true (.ok true)).2
    simp [Reports, hmarking, hsettled]
  | _ => simp [Reports]

/-- A step inside a call keeps the counts. -/
theorem Counted.move (h : Counted db w) {i : ℕ} {phase : Phase}
    (hmoves : Moves w.state (w.phase i) phase) : Counted db (w.setPhase i phase) where
  posts := h.posts
  views := h.views
  nodup := h.nodup
  new := h.new
  informed := by
    intro j
    change Informed db w.state (Function.update w.phase i phase j)
    by_cases hj : j = i
    · rw [hj, Function.update_self]
      exact hmoves.informed h
    · rw [Function.update_of_ne hj]
      exact h.informed j
  reports := by
    intro j command
    change Reports (Function.update w.phase i phase j) command ↔ _
    by_cases hj : j = i
    · rw [hj, Function.update_self, hmoves.reports]
      exact h.reports i command
    · rw [Function.update_of_ne hj]
      exact h.reports j command

/-- The views of a post after one more insertion. -/
theorem insertedFor_cons (ins : Insertion) (inserted : List Insertion) (postId : ℕ) :
    insertedFor (ins :: inserted) postId =
      insertedFor inserted postId + if postId = ins.command.postId then 1 else 0 := by
  simp only [insertedFor, List.countP_cons, beq_iff_eq, eq_comm (a := postId)]

private theorem viewed_viewed (m n : ℤ) (p : Post) : (p.viewed m).viewed n = p.viewed (m + n) := by
  simp only [Post.viewed, add_assoc]

section Commits

variable {i : ℕ} {command : RecordPostViewCommand} {snapshot : Committed Key Doc}
  {ambiguous : Bool} {phase : Phase}

/-- A call in its transaction reports nothing yet. -/
theorem Counted.not_inserted (h : Counted db w) (hphase : w.phase i = .inside command snapshot)
    (c : RecordPostViewCommand) : ⟨i, c, false⟩ ∉ w.inserted := fun hc => by
  have hreport := (h.reports i c).mpr hc
  rw [hphase] at hreport
  rcases hreport with hreport | hreport <;> cases hreport

/-- After a commit every call knows as much as before. -/
theorem Counted.informed_apply (h : Counted db w) (hphase : w.phase i = .inside command snapshot)
    (hmay : w.MayCommit command snapshot) (hinformed : ∀ current, Informed db current phase)
    (j : ℕ) :
    Informed db (w.apply i command snapshot ambiguous phase).state
      ((w.apply i command snapshot ambiguous phase).phase j) := by
  have hi := h.informed i
  rw [hphase] at hi
  have hlater : Since w.state (snapshot.commit w.state
      (recordBody command.postId command.userId snapshot.db).1) :=
    Committed.since_commit hi.2.1 hmay fun _ hserial => by cases hserial
  change Informed db (snapshot.commit w.state _) (Function.update w.phase i phase j)
  by_cases hj : j = i
  · rw [hj, Function.update_self]
    exact hinformed _
  · rw [Function.update_of_ne hj]
    exact (h.informed j).mono hlater

/-- A commit that finds the view changes nothing. -/
theorem Counted.apply_viewed (h : Counted db w) (hphase : w.phase i = .inside command snapshot)
    (hmay : w.MayCommit command snapshot) (hinformed : ∀ current, Informed db current phase)
    (hreports : ∀ c, Reports phase c ↔ c = command ∧ ambiguous = false ∧
      (recordBody command.postId command.userId snapshot.db).2 = true)
    (hview : snapshot.db.doc (.view command.postId command.userId) ≠ none) :
    Counted db (w.apply i command snapshot ambiguous phase) := by
  obtain ⟨d, hd⟩ := Option.ne_none_iff_exists'.mp hview
  have hbody := recordBody_of_viewed hd
  have hdb : (w.apply i command snapshot ambiguous phase).state.db = w.state.db := by
    simp only [World.apply, hbody, commit_self]
  have hinserted : (w.apply i command snapshot ambiguous phase).inserted = w.inserted := by
    simp only [World.apply, hbody, Bool.false_eq_true, if_false]
  refine ⟨?_, ?_, ?_, ?_, h.informed_apply hphase hmay hinformed, fun j c => ?_⟩
  · rw [hdb, hinserted]
    exact h.posts
  · rw [hdb, hinserted]
    exact h.views
  · rw [hinserted]
    exact h.nodup
  · rw [hinserted]
    exact h.new
  · rw [hinserted]
    change Reports (Function.update w.phase i phase j) c ↔ _
    by_cases hj : j = i
    · rw [hj, Function.update_self, hreports, hbody]
      simpa using h.not_inserted hphase c
    · rw [Function.update_of_ne hj]
      exact h.reports j c

/-- A commit that inserts the view counts it. -/
theorem Counted.apply_new (h : Counted db w) (hphase : w.phase i = .inside command snapshot)
    (hmay : w.MayCommit command snapshot) (hinformed : ∀ current, Informed db current phase)
    (hreports : ∀ c, Reports phase c ↔ c = command ∧ ambiguous = false ∧
      (recordBody command.postId command.userId snapshot.db).2 = true)
    (hview : snapshot.db.doc (.view command.postId command.userId) = none) :
    Counted db (w.apply i command snapshot ambiguous phase) := by
  have hi := h.informed i
  rw [hphase] at hi
  obtain ⟨heligible, hsince, hstored⟩ := hi
  have hbody := recordBody_of_new hview
  have hinserted : (w.apply i command snapshot ambiguous phase).inserted =
      ⟨i, command, ambiguous⟩ :: w.inserted := by
    simp only [World.apply, hbody, if_true]
  -- The pair was not there in the beginning and was not inserted since.
  have hfirst : ¬ (db.doc (.view command.postId command.userId) = some () ∨
      ∃ ins ∈ w.inserted, ins.command = command) := fun hviewed => by
    rw [← h.views, view_current hsince hmay hview] at hviewed
    cases hviewed
  obtain ⟨hinitial, hfirst⟩ := not_or.mp hfirst
  refine ⟨fun postId => ?_, fun c => ?_, ?_, fun ins hins => ?_,
    h.informed_apply hphase hmay hinformed, fun j c => ?_⟩
  · rw [hinserted, insertedFor_cons]
    by_cases hid : postId = command.postId
    · subst hid
      refine (post_commit hsince hmay hview hstored).trans ?_
      rw [h.posts, Option.map_map, if_pos rfl]
      congr 1
      funext p
      exact viewed_viewed _ _ p
    · refine (doc_commit hview _ (by simp) fun heq => hid (Key.post.inj heq)).trans ?_
      rw [h.posts, if_neg hid, add_zero]
  · rw [hinserted]
    by_cases hc : c = command
    · subst hc
      refine iff_of_true (view_commit hview) (.inr ⟨_, List.mem_cons_self .., rfl⟩)
    · have hkey : Key.view c.postId c.userId ≠ .view command.postId command.userId := by
        intro heq
        obtain ⟨hpost, huser⟩ := Key.view.inj heq
        exact hc (by cases c; cases command; simp_all)
      refine (Iff.of_eq (congrArg (· = some ()) (doc_commit hview _ hkey (by simp)))).trans ?_
      rw [h.views]
      simp [Ne.symm hc]
  · rw [hinserted, List.map_cons, List.nodup_cons]
    refine ⟨fun hmem => hfirst ?_, h.nodup⟩
    obtain ⟨ins, hins, heq⟩ := List.mem_map.mp hmem
    exact ⟨ins, hins, heq⟩
  · rw [hinserted] at hins
    rcases List.mem_cons.mp hins with rfl | hins
    · refine ⟨?_, heligible⟩
      cases hdoc : db.doc (.view command.postId command.userId) with
      | none => rfl
      | some d => exact absurd hdoc hinitial
    · exact h.new ins hins
  · rw [hinserted, List.mem_cons]
    change Reports (Function.update w.phase i phase j) c ↔ _
    by_cases hj : j = i
    · rw [hj, Function.update_self, hreports, hbody]
      simp only [h.not_inserted hphase c, or_false, Insertion.mk.injEq, true_and, and_true]
      tauto
    · rw [Function.update_of_ne hj, h.reports j c]
      simp [hj]

/-- A commit leaves everything counted; a new view is reported unless its commit is ambiguous. -/
theorem Counted.apply (h : Counted db w) (hphase : w.phase i = .inside command snapshot)
    (hmay : w.MayCommit command snapshot) (hinformed : ∀ current, Informed db current phase)
    (hreports : ∀ c, Reports phase c ↔ c = command ∧ ambiguous = false ∧
      (recordBody command.postId command.userId snapshot.db).2 = true) :
    Counted db (w.apply i command snapshot ambiguous phase) := by
  by_cases hview : snapshot.db.doc (.view command.postId command.userId) = none
  · exact h.apply_new hphase hmay hinformed hreports hview
  · exact h.apply_viewed hphase hmay hinformed hreports hview

end Commits

/-- Every event keeps the counts. -/
theorem Counted.step (h : Counted db w) {w' : World} {e : Event} (hstep : w.step e = some w') :
    Counted db w' := by
  cases steps_of_step hstep with
  | move hmoves => exact h.move hmoves
  | commit hphase hmay =>
    refine h.apply hphase hmay (fun _ => trivial) fun c => ?_
    simp [Reports, eq_comm (a := c)]
  | lose hphase hmay =>
    refine h.apply hphase hmay (fun _ => trivial) fun c => ?_
    simp [Reports]

end Invariant

/-- In every run, counters grow by the view documents that are inserted, one for a pair of a post
and a user who does not own it, and exactly one call reports a view that is not ambiguous. -/
theorem postViews_once {c : Committed Key Doc} {es : List Event} {w : World}
    (hrun : Run (Graph World.step) (World.initial c) es w) :
    (∀ postId (p₀ : Post), c.db.doc (.post postId) = some p₀ →
      ∃ p : Post, w.state.db.doc (.post postId) = some p ∧
        p.viewsCount = p₀.viewsCount + insertedFor w.inserted postId) ∧
    (∀ command : RecordPostViewCommand,
      w.state.db.doc (.view command.postId command.userId) = some () ↔
        c.db.doc (.view command.postId command.userId) = some () ∨
          ∃ ins ∈ w.inserted, ins.command = command) ∧
    (w.inserted.map Insertion.command).Nodup ∧
    (∀ ins ∈ w.inserted, c.db.doc (.view ins.command.postId ins.command.userId) = none ∧
      ∃ p₀ : Post, c.db.doc (.post ins.command.postId) = some p₀ ∧
        p₀.user ≠ some ins.command.userId) ∧
    (∀ ins ∈ w.inserted, ins.ambiguous = false → ∃! i, Reports (w.phase i) ins.command) ∧
    ∀ i command, Reports (w.phase i) command → ⟨i, command, false⟩ ∈ w.inserted := by
  have h : Counted c.db w :=
    hrun.invariant (fun _ _ _ h hstep => h.step hstep) (counted_initial c)
  refine ⟨fun postId p₀ hp₀ => ?_, h.views, h.nodup, h.new, fun ins hins hambiguous => ?_,
    fun i command => (h.reports i command).mp⟩
  · exact ⟨p₀.viewed (insertedFor w.inserted postId), by rw [h.posts, hp₀]; rfl, rfl⟩
  · refine ⟨ins.call, (h.reports _ _).mpr (hambiguous ▸ hins), fun j hj => ?_⟩
    -- Another call that reports the same pair has inserted it too.
    have hsame := (List.inj_on_of_nodup_map h.nodup) ((h.reports j _).mp hj) hins rfl
    exact congrArg Insertion.call hsame

/-- A post of user 1, and user 2. -/
def onePost : Store :=
  ((Database.empty.put (.user 1) (⟨false, false⟩ : User)).put (.user 2)
    (⟨false, false⟩ : User)).put (.post 10) (⟨some 1, true, 0⟩ : Post)

/-- Two calls of one user meet, and the owner looks as well. -/
theorem postViews_once_duplicate :
    ∃ w, exec World.step (World.initial (.ofDatabase onePost))
      [.start 0 ⟨10, 2⟩, .start 1 ⟨10, 2⟩, .start 2 ⟨10, 1⟩, .advance 0, .advance 1, .advance 2,
        .advance 0, .advance 1, .advance 2, .bloomRead 0 none, .bloomRead 1 (some false),
        .advance 0, .advance 1, .commit 0, .duplicate 1, .advance 1, .bloomAdd 0 false,
        .bloomAdd 1 true] = some w ∧
      ∀ i command, Reports (w.phase i) command → ⟨i, command, false⟩ ∈ w.inserted := by
  obtain ⟨w, hw⟩ := Option.isSome_iff_exists.mp (by decide +kernel :
    (exec World.step (World.initial (.ofDatabase onePost))
      [.start 0 ⟨10, 2⟩, .start 1 ⟨10, 2⟩, .start 2 ⟨10, 1⟩, .advance 0, .advance 1, .advance 2,
        .advance 0, .advance 1, .advance 2, .bloomRead 0 none, .bloomRead 1 (some false),
        .advance 0, .advance 1, .commit 0, .duplicate 1, .advance 1, .bloomAdd 0 false,
        .bloomAdd 1 true]).isSome = true)
  exact ⟨w, hw, (postViews_once (exec_run hw)).2.2.2.2.2⟩

end Ascendance.PostViews
