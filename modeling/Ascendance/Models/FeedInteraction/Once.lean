import Ascendance.Models.FeedInteraction.Scores

/-!
# Events are applied once

A run of the handlers, with the events that it has applied so far.
-/

namespace Ascendance.FeedInteraction

open Ascendance.Core
open Ascendance.Social (AppError)

/-- The database, and what the handlers are doing. -/
abbrev FeedWorld := World Key Doc Command HandlerError Outcome

/-- The event that a step applies: the handler that goes on has marked its user action. -/
def applies (w w' : FeedWorld) : Event Command → List ℕ
  | .advance i => (w.task i).program.elim [] fun p => claims p.1 w.state.db w'.state.db
  | .start _ _ | .retry _ | .duplicate _ | .giveUp _ => []

/-- A run so far: the world, and the events whose effects were applied, in order. -/
structure Observed where
  world : FeedWorld
  applied : List ℕ

/-- A step of the world, with what it applies. -/
def Observed.step (h : Observed) (e : Event Command) : Option Observed :=
  (h.world.step runtime e).map fun w => ⟨w, h.applied ++ applies h.world w e⟩

/-- A handler ends as recorded only after a transaction that leaves the event marked. -/
def Awaits (eventId : ℕ) : Handler → Prop
  | .done result => result ≠ .ok .recorded
  | .read next => ∀ db, Staged db → Awaits eventId (next db)
  | .write _ next => ∀ db, Awaits eventId (next db)
  | .transact body next =>
    (∀ error, Awaits eventId (next (.error error))) ∧
      ∀ db after, body db = .ok after → marked after eventId = true

/-- The handler of an event that was not applied is still to apply it. -/
def Told (applied : List ℕ) : Task Key Doc Command HandlerError Outcome → Prop
  | .idle => True
  | .running c _ p => ∀ eventId, c = .deliver eventId → eventId ∈ applied ∨ Awaits eventId p
  | .inside c _ snapshot body next => ∀ eventId, c = .deliver eventId → eventId ∈ applied ∨
      Awaits eventId (.transact body next) ∧
        (marked snapshot.db eventId = true → eventId ∈ applied)

section Tasks

variable {applied applied' : List ℕ} {w w' : FeedWorld}

/-- A read that fails the handler does not end it as recorded. -/
private theorem awaits_require {eventId : ℕ} {k : Key} {error : AppError} {next : Doc k → Handler}
    (h : ∀ db d, Staged db → db.doc k = some d → Awaits eventId (next d)) :
    Awaits eventId (require k error next) := by
  intro db hstaged
  dsimp only
  split
  · next d hd => exact h db d hstaged hd
  · exact fun heq => nomatch heq

/-- Recording leaves the user action of the event marked. -/
theorem marked_of_recordBody {event : InteractionEvent} {target : Option ℕ} {db after : Store}
    (h : recordBody event target db = .ok after) : marked after event.activityId = true := by
  rcases recordBody_eq h with ⟨hmarked, rfl⟩ | ⟨-, targetId, action, -, rfl⟩
  · exact hmarked
  · rw [marked, incrementTagScores_doc _ _ _ _ (by simp), Database.doc_put_self]
    rfl

/-- The handler of an event applies it before it ends as recorded. -/
theorem deliver_awaits (eventId : ℕ) : Awaits eventId (deliver eventId) := by
  intro db hstaged
  dsimp only
  split
  · next event hevent =>
    intro _ _ _ _
    dsimp only
    split
    · refine awaits_require fun _ _ _ _ _ _ => ⟨fun _ heq => (nomatch heq), ?_⟩
      intro _ after hafter
      exact hstaged.named eventId event hevent ▸ marked_of_recordBody hafter
    · exact fun heq => nomatch heq
  · exact fun heq => nomatch heq

/-- More events are applied. -/
theorem Told.mono {t : Task Key Doc Command HandlerError Outcome} (h : Told applied t)
    (hsub : applied ⊆ applied') : Told applied' t := by
  cases t with
  | idle => trivial
  | running c moments p => exact fun eventId hc => (h eventId hc).imp_left fun hmem => hsub hmem
  | inside c moments snapshot body next =>
    intro eventId hc
    rcases h eventId hc with hmem | ⟨hawaits, hmarked⟩
    · exact .inl (hsub hmem)
    · exact .inr ⟨hawaits, fun h => hsub (hmarked h)⟩

/-- A commit of another task changes nothing for a task. -/
private theorem told_observe {t : Task Key Doc Command HandlerError Outcome} (h : Told applied t)
    (db : Store) : Told applied (t.observe db) := by
  cases t <;> exact h

/-- One task goes on. -/
private theorem told_setTask (h : ∀ j, Told applied (w.task j)) {i : ℕ}
    {t : Task Key Doc Command HandlerError Outcome} (ht : Told applied t) (j : ℕ) :
    Told applied ((w.setTask i t).task j) := by
  change Told applied (Function.update w.task i t j)
  by_cases hj : j = i
  · subst hj
    rwa [Function.update_self]
  · rw [Function.update_of_ne hj]
    exact h j

/-- A transaction fails. -/
private theorem told_failed {c : Command} {moments : List Store} {snapshot : Committed Key Doc}
    {body : Store → Except HandlerError Store} {next : Except HandlerError Unit → Handler}
    {error : HandlerError} (h : Told applied (.inside c moments snapshot body next)) :
    Told applied (.running c moments (next (.error error))) := fun eventId hc =>
  (h eventId hc).imp_right fun hawaits => hawaits.1.1 error

/-- A transaction that leaves an event marked applies it, if it was not marked before. -/
private theorem mem_of_commit {snapshot current : Committed Key Doc} {after : Store} {eventId : ℕ}
    (hsince : Committed.Since serial snapshot current)
    (hfresh : Committed.Fresh snapshot current after)
    (hmarked : marked snapshot.db eventId = true → eventId ∈ applied)
    (hafter : marked after eventId = true) :
    eventId ∈ applied ++
      claims (.deliver eventId) current.db (snapshot.commit current after).db := by
  cases hold : marked snapshot.db eventId with
  | true => exact List.mem_append_left _ (hmarked hold)
  | false =>
    have haction : after.doc (.userAction eventId) ≠ snapshot.db.doc (.userAction eventId) := by
      intro hsame
      rw [marked_congr hsame, hold] at hafter
      cases hafter
    obtain ⟨hcurrent, hmerged⟩ := hsince.changed hfresh haction
    refine List.mem_append_right _ ?_
    simp [claims, marked_congr hcurrent, marked_congr hmerged, hold, hafter]

/-- A step keeps what is told, with what it applies. -/
theorem told_step {e : Event Command} (hsteps : World.Steps runtime w e w')
    (hsound : discipline.SoundWorld w)
    (hmarked : ∀ eventId, marked w.state.db eventId = true → eventId ∈ applied)
    (htold : ∀ i, Told applied (w.task i)) (i : ℕ) :
    Told (applied ++ applies w w' e) (w'.task i) := by
  have hsub {more : List ℕ} : applied ⊆ applied ++ more := List.subset_append_left _ _
  cases hsteps with
  | @start j c htask =>
    have hnext : Told applied (.running c [w.state.db] (runtime.program c)) := by
      rintro eventId rfl
      exact .inr (deliver_awaits eventId)
    exact (told_setTask htold hnext i).mono hsub
  | @read j c moments next htask =>
    have ht := htask ▸ htold j
    have hnext : Told applied (.running c moments (next w.state.db)) := fun eventId hc =>
      (ht eventId hc).imp_right fun hawaits => hawaits w.state.db hsound.good
    exact (told_setTask htold hnext i).mono hsub
  | @write j c moments f next htask hnew =>
    have ht := htask ▸ htold j
    have hnext : Told applied (.running c moments (next w.state.db)) := fun eventId hc =>
      (ht eventId hc).imp_right fun hawaits => hawaits w.state.db
    exact (told_observe (told_setTask htold hnext i) _).mono hsub
  | @begin j c moments body next htask =>
    have ht := htask ▸ htold j
    have hnext : Told applied (.inside c moments w.state body next) := fun eventId hc =>
      (ht eventId hc).imp_right fun hawaits => ⟨hawaits, hmarked eventId⟩
    exact (told_setTask htold hnext i).mono hsub
  | @fail j c moments snapshot body next error htask hbody =>
    exact (told_setTask htold (told_failed (htask ▸ htold j)) i).mono hsub
  | @commit j c moments snapshot body next after htask hbody hfresh hnew =>
    have ht := htask ▸ htold j
    obtain ⟨⟨-, hsince, -⟩, -⟩ := (htask ▸ hsound.task j : discipline.SoundTask _ _)
    refine told_observe (told_setTask (fun k => (htold k).mono hsub) ?_ i) _
    rintro eventId rfl
    rcases ht eventId rfl with hmem | ⟨hawaits, hsnapshot⟩
    · exact .inl (hsub hmem)
    · rw [applies, htask]
      exact .inl (mem_of_commit hsince hfresh hsnapshot (hawaits.2 snapshot.db after hbody))
  | @retry j c moments snapshot body next htask =>
    have ht := htask ▸ htold j
    have hnext : Told applied (.running c moments (.transact body next)) := fun eventId hc =>
      (ht eventId hc).imp_right fun hawaits => hawaits.1
    exact (told_setTask htold hnext i).mono hsub
  | @duplicate j c moments snapshot body next after htask hbody htaken =>
    exact (told_setTask htold (told_failed (htask ▸ htold j)) i).mono hsub
  | @giveUp j c moments snapshot body next htask =>
    exact (told_setTask htold (told_failed (htask ▸ htold j)) i).mono hsub

end Tasks

/-- What holds in every run whose recordings find their post. -/
structure Observed.Accurate (start : Store) (h : Observed) : Prop where
  sound : discipline.SoundWorld h.world
  accounted : Accounted start h.world.state.db h.applied
  told : ∀ i, Told h.applied (h.world.task i)

/-- Steps whose recordings find their post. -/
def Finds (h : Observed) (e : Event Command) : Prop :=
  h.world.Commits (fun c snapshot _ _ => FindsPost c snapshot) e

section Runs

variable {start : Store} {h h' : Observed} {e : Event Command}

/-- A step leaves the documents and applies nothing, or it commits what is attempted. -/
theorem applies_step {w w' : FeedWorld} (hsteps : World.Steps runtime w e w') :
    w'.state = w.state ∧ applies w w' e = [] ∨ ∃ c snapshot after,
      w.attempt e = some (c, snapshot, after) ∧ Committed.Fresh snapshot w.state after ∧
      w'.state = snapshot.commit w.state after ∧
      applies w w' e = claims c w.state.db w'.state.db := by
  have hnone (c : Command) : claims c w.state.db w.state.db = [] := by
    cases c with
    | deliver eventId => simp [claims]
    | _ => rfl
  cases hsteps with
  | start htask | retry htask | duplicate htask | giveUp htask => exact .inl ⟨rfl, rfl⟩
  | read htask | begin htask | fail htask =>
    refine .inl ⟨rfl, ?_⟩
    rw [applies, htask]
    exact hnone _
  | write htask hnew =>
    refine .inr ⟨_, _, _, World.attempt_write htask, fun _ _ => rfl, rfl, ?_⟩
    rw [applies, htask]
    rfl
  | commit htask hbody hfresh =>
    refine .inr ⟨_, _, _, World.attempt_commit htask hbody, hfresh, rfl, ?_⟩
    rw [applies, htask]
    rfl

/-- Every command may start. -/
private theorem meets_of_finds (hfinds : Finds h e) :
    discipline.Meets (fun _ => True) h.world e := ⟨hfinds, fun _ _ _ => trivial⟩

/-- A step keeps the history accurate. -/
theorem Observed.Accurate.step (haccurate : h.Accurate start) (hfinds : Finds h e)
    (hstep : h.step e = some h') : h'.Accurate start := by
  obtain ⟨w, hw, rfl⟩ := Option.map_eq_some_iff.mp hstep
  refine ⟨haccurate.sound.step discipline_kept rfl (fun c _ => handler_sound c)
    (meets_of_finds hfinds) hw, ?_,
    told_step (World.steps_of_step hw) haccurate.sound haccurate.accounted.of_marked
      haccurate.told⟩
  rcases applies_step (World.steps_of_step hw) with
    ⟨hstate, hnone⟩ | ⟨c, snapshot, after, hattempt, hfresh, hstate, hclaims⟩
  · rw [hstate, hnone, List.append_nil]
    exact haccurate.accounted
  · obtain ⟨⟨hstaged, hsince, hkeeps⟩, heffect⟩ :=
      haccurate.sound.attempt discipline_kept.refl hattempt
    rw [hclaims, hstate]
    exact haccurate.accounted.change
      (fun eventId => (heffect.actionChange hstaged (hfinds c snapshot after hattempt)
        eventId).commit hsince hfresh)
      ((heffect.scoreChange hstaged).commit hsince hkeeps hfresh)

/-- So does a run. -/
theorem Observed.Accurate.run {es : List (Event Command)} (haccurate : h.Accurate start)
    (hrun : Run (Restrict (Graph Observed.step) Finds) h es h') : h'.Accurate start :=
  hrun.invariant (fun _ _ _ hi hstep => hi.step hstep.1 hstep.2) haccurate

/-- Before the first event the history is accurate. -/
theorem accurate_initial {c : Committed Key Doc} (hevents : ∀ id, c.db.doc (.event id) = none)
    (hactions : ∀ id, c.db.doc (.userAction id) = none) :
    Observed.Accurate c.db ⟨World.initial c, []⟩ := by
  refine ⟨Discipline.soundWorld_initial ⟨fun id event h => ?_, fun id event h => ?_⟩,
    ⟨List.nodup_nil, fun id h => ?_, by simp, by simp, by simp [earned, World.initial]⟩,
    fun _ => trivial⟩
  · cases (hevents id).symm.trans h
  · cases (hevents id).symm.trans h
  · rw [marked, show (World.initial c).state.db.doc (.userAction id) = none from hactions id] at h
    cases h

/-- A run develops the documents. -/
theorem Observed.Accurate.keeps {es : List (Event Command)} (haccurate : h.Accurate start)
    (hrun : Run (Restrict (Graph Observed.step) Finds) h es h') :
    Keeps h.world.state h'.world.state := by
  refine hrun.relates (I := Observed.Accurate start)
    (R := fun h h' => Keeps h.world.state h'.world.state)
    (fun _ _ _ hi hstep => hi.step hstep.1 hstep.2) (fun _ => discipline_kept.refl _)
    (fun _ _ _ hab hbc => hab.trans hbc) ?_ haccurate
  rintro _ e _ hi ⟨hfinds, hstep⟩
  obtain ⟨w, hw, rfl⟩ := Option.map_eq_some_iff.mp hstep
  exact (hi.sound.before_step discipline_kept rfl (meets_of_finds hfinds) hw).2.2

end Runs

/-- In every run in which an event is recorded only while its post is there, no event is applied
twice, the event of a handler that has recorded it is applied, the scores are two for every applied
like less two for every applied unlike, and the user action of an event does not come back. -/
theorem interactionEffects {c : Committed Key Doc} (hevents : ∀ id, c.db.doc (.event id) = none)
    (hactions : ∀ id, c.db.doc (.userAction id) = none) {es : List (Event Command)} {h : Observed}
    (hrun : Run (Restrict (Graph Observed.step) Finds) ⟨World.initial c, []⟩ es h) :
    h.applied.Nodup ∧
    (∀ i eventId moments, h.world.task i =
      .running (.deliver eventId) moments (.done (.ok .recorded)) → eventId ∈ h.applied) ∧
    (∀ userId tag, score h.world.state.db userId tag = score c.db userId tag +
      2 * ((h.applied.countP (carries h.world.state.db userId tag .like) : ℤ) -
        h.applied.countP (carries h.world.state.db userId tag .unlike))) ∧
    ∀ es' h', Run (Restrict (Graph Observed.step) Finds) h es' h' →
      ∀ eventId, h.world.state.db.doc (.event eventId) ≠ none →
        h.world.state.db.doc (.userAction eventId) = none →
        h'.world.state.db.doc (.userAction eventId) = none := by
  have haccurate := (accurate_initial hevents hactions).run hrun
  refine ⟨haccurate.accounted.once, fun i eventId moments htask => ?_, haccurate.accounted.scores,
    fun es' h' hrun' eventId => (haccurate.keeps hrun').gone eventId⟩
  have htold := haccurate.told i
  rw [htask] at htold
  exact (htold eventId rfl).resolve_right fun hawaits => hawaits rfl

/-- The post of an event that is recorded is on the snapshot. -/
def findsPost (c : Command) (snapshot _current : Committed Key Doc) (_after : Store) : Bool :=
  match c with
  | .deliver eventId => (snapshot.db.doc (.event eventId)).all fun event : InteractionEvent =>
      (snapshot.db.doc (.post event.postId)).isSome
  | .likeActionByPublicId _ _ _ | .deletePosts _ => true

/-- The check is enough. -/
theorem findsPost_sound (c : Command) (snapshot current : Committed Key Doc) (after : Store)
    (h : findsPost c snapshot current after = true) : FindsPost c snapshot := by
  rintro eventId event rfl hevent
  rw [findsPost, hevent] at h
  exact Option.isSome_iff_ne_none.mp h

/-- A user and a post with a tag. -/
def onePost : Store :=
  ((Database.empty : Store).put (.user 1) (⟨false⟩ : User)).put (.post 10) (⟨["a"], 0⟩ : Post)

/-- Two workers record one like together, and one of them runs again; then the post is deleted. -/
theorem interactionEffects_redelivery :
    ∃ h : Observed, Run (Restrict (Graph Observed.step) Finds)
        ⟨World.initial (.ofDatabase onePost), []⟩
        [.start 0 (.likeActionByPublicId 100 1 10), .advance 0, .advance 0, .advance 0, .advance 0,
          .start 1 (.deliver 100), .advance 1, .advance 1, .advance 1, .advance 1, .advance 1,
          .start 2 (.deliver 100), .advance 2, .advance 2, .advance 2, .advance 2, .advance 2,
          .advance 1, .advance 2, .advance 1, .retry 2, .advance 2, .advance 2,
          .start 3 (.deletePosts [10]), .advance 3, .advance 3] h ∧
      h.applied.Nodup ∧ ∀ userId tag, score h.world.state.db userId tag = score onePost userId tag +
        2 * ((h.applied.countP (carries h.world.state.db userId tag .like) : ℤ) -
          h.applied.countP (carries h.world.state.db userId tag .unlike)) := by
  let check (h : Observed) (e : Event Command) : Bool :=
    (h.world.attempt e).all fun (c, snapshot, after) => findsPost c snapshot h.world.state after
  obtain ⟨h, hh⟩ := Option.isSome_iff_exists.mp (by decide +kernel :
    (exec (fun h e => if check h e then Observed.step h e else none)
      (⟨World.initial (.ofDatabase onePost), []⟩ : Observed)
      [.start 0 (.likeActionByPublicId 100 1 10), .advance 0, .advance 0, .advance 0, .advance 0,
        .start 1 (.deliver 100), .advance 1, .advance 1, .advance 1, .advance 1, .advance 1,
        .start 2 (.deliver 100), .advance 2, .advance 2, .advance 2, .advance 2, .advance 2,
        .advance 1, .advance 2, .advance 1, .retry 2, .advance 2, .advance 2,
        .start 3 (.deletePosts [10]), .advance 3, .advance 3]).isSome = true)
  have hrun : Run (Restrict (Graph Observed.step) Finds) ⟨World.initial (.ofDatabase onePost), []⟩
      _ h := exec_restrict (fun h e hc => World.commits_of_all findsPost_sound hc) hh
  obtain ⟨honce, -, hscores, -⟩ := interactionEffects (fun _ => rfl) (fun _ => rfl) hrun
  exact ⟨h, hrun, honce, hscores⟩

/-- A worker has found the post of an event that was applied before; the post is deleted, and the
worker stores its user action again and applies the event a second time. -/
theorem interactionEffects_pendingClaim :
    ∃ h : Observed, Run (Graph Observed.step) ⟨World.initial (.ofDatabase onePost), []⟩
        [.start 0 (.likeActionByPublicId 100 1 10), .advance 0, .advance 0, .advance 0, .advance 0,
          .start 1 (.deliver 100), .advance 1, .advance 1, .advance 1, .advance 1, .advance 1,
          .advance 1, .advance 1, .start 2 (.deliver 100), .advance 2, .advance 2, .advance 2,
          .advance 2, .advance 2, .start 3 (.deletePosts [10]), .advance 3, .advance 3,
          .advance 2, .advance 2] h ∧
      ¬ h.applied.Nodup ∧ score h.world.state.db 1 "a" = 4 ∧
      h.world.state.db.doc (.post 10) = none ∧
      h.world.state.db.doc (.userAction 100) = some (⟨1, .like, 10, true⟩ : UserAction) := by
  have hrun : ((exec Observed.step (⟨World.initial (.ofDatabase onePost), []⟩ : Observed)
      [.start 0 (.likeActionByPublicId 100 1 10), .advance 0, .advance 0, .advance 0, .advance 0,
        .start 1 (.deliver 100), .advance 1, .advance 1, .advance 1, .advance 1, .advance 1,
        .advance 1, .advance 1, .start 2 (.deliver 100), .advance 2, .advance 2, .advance 2,
        .advance 2, .advance 2, .start 3 (.deletePosts [10]), .advance 3, .advance 3,
        .advance 2, .advance 2]).any fun h => decide (¬ h.applied.Nodup ∧
          score h.world.state.db 1 "a" = 4 ∧ h.world.state.db.doc (.post 10) = none ∧
          h.world.state.db.doc (.userAction 100) = some (⟨1, .like, 10, true⟩ : UserAction))) =
      true := by
    decide +kernel
  obtain ⟨h, hrun, htwice⟩ := exec_any hrun
  exact ⟨h, hrun, of_decide_eq_true htwice⟩

end Ascendance.FeedInteraction
