import Ascendance.Core.Transition
import Ascendance.Models.UnitOfWork.Call

/-!
# Honest outcomes

What a caller may conclude from the way a call settles. The environment answers
every commit consistently with the truth. A call is honest along every run whose
steps are definite, and a call that settles after any other step is not.
-/

namespace Ascendance.UnitOfWork

open Ascendance.Core

variable {β : Type}

/-- The attempt under way. -/
def Call.latest (c : Call β) : Attempt := c.attempts.headD .fresh

/-- One step of a call, without what the metrics are told. -/
def Call.next (c : Call β) (x : Event β) : Option (Call β) := (c.step x).map Prod.fst

/-- An executed event is one of the listed steps. -/
theorem Call.next_cases {c c' : Call β} {x : Event β} (h : c.next x = some c') :
    ∃ rs, Call.Stepped c x (c', rs) := by
  obtain ⟨⟨d, rs⟩, hs, rfl⟩ := Option.map_eq_some_iff.mp h
  exact ⟨rs, Call.step_cases hs⟩

/-- How the environment may answer a commit: after an unknown result anything may be
true, after a transient error the transaction is not committed, and after any other
error this try has not committed it. -/
def Consistent (c : Call β) : Event β → Prop
  | .commitFails error effect _ =>
    isUnknownTransactionCommitResult error = true ∨
      (effect = false ∧ (isTransientTransactionError error = true → c.latest.committed = false))
  | _ => True

/-- The steps of a call in a consistent environment. -/
def Answered : Call β → Event β → Call β → Prop := Restrict (Graph Call.next) Consistent

/-- The steps after which a definite answer is right. An error of a commit that is
neither unknown nor transient must not meet a transaction that is committed already, and
a body that has committed its own transaction must not throw, unless it reports that
the outcome is ambiguous and is not run again. -/
def Definite (c : Call β) : Event β → Prop
  | .commitFails error _ _ =>
    isUnknownTransactionCommitResult error = true ∨ isTransientTransactionError error = true ∨
      error.ambiguous = true ∨ c.latest.committed = false
  | .bodyThrows error =>
    c.latest.committed = true → error.ambiguous = true ∧
      ¬ (isRetryableTransactionBodyError error = true ∧ c.bodyAttempt < c.cfg.maxBodyAttempts)
  | _ => True

/-- What a caller may conclude. -/
structure Honest (c : Call β) : Prop where
  /-- After the call resolves, the last attempt is committed or its body ended it. -/
  resolved : ∀ v, c.phase = .settled (.resolved v) →
    ∃ a ∈ c.attempts.head?, a.committed = true ∨ a.endedByBody = true
  /-- After the call rejects with a definite error, no attempt is committed. -/
  rejected : ∀ e, c.phase = .settled (.rejected e) → e.ambiguous = false →
    ∀ a ∈ c.attempts, a.committed = false
  /-- The body is not run again after an attempt whose writes are committed. -/
  rerun : c.attempts.Pairwise fun later earlier => later.ran = true → earlier.committed = false

/-- A call with a committed latest attempt has attempts. -/
theorem Call.mem_of_latest {c : Call β} (h : c.latest.committed = true) :
    c.latest ∈ c.attempts := by
  unfold Call.latest at h ⊢
  cases hl : c.attempts with
  | nil => simp [hl, Attempt.fresh] at h
  | cons a l => simp

/-- The latest attempt and the earlier ones are all attempts. -/
theorem Call.mem_attempts {c : Call β} {a : Attempt} (h : a ∈ c.attempts) :
    a = c.latest ∨ a ∈ c.attempts.tail := by
  unfold Call.latest
  cases hl : c.attempts with
  | nil => simp [hl] at h
  | cons b l => simpa [hl] using h

/-- An error may end the attempt: its writes are not committed, or the error says that
the outcome is ambiguous and the body is not run again. -/
def MayReport (c : Call β) (error : Thrown) (caught : Caught) : Prop :=
  c.latest.committed = true → error.ambiguous = true ∧
    ¬ (Call.retryable error caught = true ∧ c.bodyAttempt < c.cfg.maxBodyAttempts)

/-- What holds of a call in each of its phases, as long as its steps are definite. -/
def CleanAt (c : Call β) : Phase β → Prop
  | .opening => c.attempts = []
  | .entering => c.attempts ≠ [] ∧ c.latest.committed = false
  | .backingOff => c.latest.committed = false
  | .running => c.attempts ≠ [] ∧ (c.inTransaction = true → c.latest.committed = false) ∧
      (c.inTransaction = false → c.latest.endedByBody = true)
  | .aborting error caught => MayReport c error caught
  | .committing _ => c.attempts ≠ []
  | .recommitting _ => c.attempts ≠ [] ∧ c.commitAttempt < c.cfg.maxCommitAttempts
  | .closing (.resolved _) | .settled (.resolved _) =>
    c.attempts ≠ [] ∧ (c.latest.committed = true ∨ c.latest.endedByBody = true)
  | .closing (.rejected error) | .settled (.rejected error) =>
    c.latest.committed = true → error.ambiguous = true

/-- Earlier attempts are not committed, and the phase fits the latest one. -/
structure Clean (c : Call β) : Prop where
  earlier : ∀ b ∈ c.attempts.tail, b.committed = false
  phase : CleanAt c c.phase

/-- A call that rejects stays clean when its error may be reported. -/
private theorem reject_clean {c : Call β} {error : Thrown}
    (he : ∀ b ∈ c.attempts.tail, b.committed = false)
    (h : c.latest.committed = true → error.ambiguous = true) : Clean (c.reject error).1 :=
  ⟨he, h⟩

/-- A call that enters an attempt stays clean when none is committed. -/
private theorem enter_clean {c : Call β} (n : Nat) (he : ∀ b ∈ c.attempts, b.committed = false) :
    Clean (c.enter n).1 := by
  unfold Call.enter
  split
  · exact ⟨he, by simp, rfl⟩
  · refine reject_clean (fun b hb => he b (List.mem_of_mem_tail hb)) fun hc => ?_
    exact absurd (he _ (Call.mem_of_latest hc)) (by simp [hc])

/-- A call that has aborted stays clean when its error may be reported. -/
private theorem afterAbort_clean {c : Call β} {error : Thrown} {caught : Caught} (ok : Bool)
    (he : ∀ b ∈ c.attempts.tail, b.committed = false) (h : MayReport c error caught) :
    Clean (c.afterAbort error caught ok).1 := by
  unfold Call.afterAbort
  split
  · next hr =>
    refine ⟨he, ?_⟩
    cases hc : c.latest.committed with
    | false => exact hc
    | true => exact absurd hr.2 (h hc).2
  · exact reject_clean he fun hc => (h hc).1

/-- A call that aborts stays clean when its error may be reported. -/
private theorem abortIfActive_clean {c : Call β} {error : Thrown} {caught : Caught}
    (he : ∀ b ∈ c.attempts.tail, b.committed = false) (h : MayReport c error caught) :
    Clean (c.abortIfActive error caught).1 := by
  unfold Call.abortIfActive
  split
  · exact ⟨he, h⟩
  · exact afterAbort_clean true he h

/-- A call that tries a commit stays clean. -/
private theorem tryCommit_clean {c : Call β} {n : Nat} (value : β)
    (he : ∀ b ∈ c.attempts.tail, b.committed = false) (hne : c.attempts ≠ [])
    (hn : n ≤ c.cfg.maxCommitAttempts) : Clean (c.tryCommit n value).1 := by
  unfold Call.tryCommit
  rw [if_pos hn]
  exact ⟨by simpa using he, by simpa [CleanAt] using hne⟩

/-- The latest attempt after it was changed. -/
theorem Call.mark_latest {c : Call β} (h : c.attempts ≠ []) (f : Attempt → Attempt) :
    (c.mark f).latest = f c.latest := by
  unfold Call.latest
  cases hl : c.attempts with
  | nil => exact absurd hl h
  | cons a l => simp [hl]

/-- A failed commit keeps a call clean when its error may be reported. -/
theorem commitFailed_clean {c : Call β} {error : Thrown} {effect : Bool} (value : β)
    (inTransaction : Bool) (he : ∀ b ∈ c.attempts.tail, b.committed = false)
    (hne : c.attempts ≠ []) (hcons : Consistent c (.commitFails error effect inTransaction))
    (hd : Definite c (.commitFails error effect inTransaction)) :
    Clean (({ c.mark (fun a => { a with committed := a.committed || effect }) with
      inTransaction := inTransaction } : Call β).commitFailed value error).1 := by
  have htail : ∀ b ∈ (c.mark fun a =>
      { a with committed := a.committed || effect }).attempts.tail, b.committed = false := by
    simpa using he
  unfold Call.commitFailed
  split
  · split
    · next hlt => exact ⟨htail, by simpa using hne, hlt.2⟩
    · exact reject_clean htail fun _ => rfl
  · next hu =>
    refine abortIfActive_clean htail fun hc => ?_
    -- The answer is known, so this try has not committed the transaction.
    obtain ⟨rfl, htrans⟩ := hcons.resolve_left hu
    have hl : c.latest.committed = true := by
      have hm := congrArg Attempt.committed
        (Call.mark_latest hne fun a => { a with committed := a.committed || false })
      exact (Bool.or_false _).symm.trans (hm.symm.trans hc)
    have hnt : isTransientTransactionError error ≠ true := fun ht =>
      absurd ((htrans ht).symm.trans hl) (by decide)
    rcases hd with hd | hd | hd | hd
    · exact absurd hd hu
    · exact absurd hd hnt
    · exact ⟨hd, fun hr => hnt hr.1⟩
    · exact absurd (hd.symm.trans hl) (by decide)

/-- A definite step in a consistent environment keeps a call clean. -/
theorem Clean.step {c c' : Call β} {x : Event β} (h : Clean c) (hx : Answered c x c')
    (hd : Definite c x) : Clean c' := by
  obtain ⟨hcons, hx⟩ := hx
  obtain ⟨rs, hstep⟩ := Call.next_cases hx
  have he := h.earlier
  have hp := h.phase
  have hall : c.latest.committed = false → ∀ b ∈ c.attempts, b.committed = false := by
    intro hl b hb
    rcases Call.mem_attempts hb with rfl | hb
    · exact hl
    · exact he b hb
  generalize hr : (c', rs) = r at hstep
  cases hstep with
  | sessionStarts hph =>
    rw [hph] at hp
    rw [show c' = (c.enter 1).1 from congrArg Prod.fst hr]
    exact enter_clean 1 (by simp [show c.attempts = [] from hp])
  | sessionFails hph error =>
    rw [hph] at hp
    obtain ⟨rfl, -⟩ := Prod.mk.inj hr
    refine ⟨he, fun hc => ?_⟩
    have hnil : c.attempts = [] := hp
    simp [Call.latest, hnil, Attempt.fresh] at hc
  | transactionStarts hph =>
    rw [hph] at hp
    obtain ⟨hne, hl⟩ := hp
    obtain ⟨rfl, -⟩ := Prod.mk.inj hr
    refine ⟨by simpa using he, by simpa using hne, fun _ => ?_, by simp⟩
    exact (congrArg Attempt.committed (Call.mark_latest hne _)).trans hl
  | transactionFails hph error =>
    rw [hph] at hp
    rw [show c' = _ from congrArg Prod.fst hr]
    exact abortIfActive_clean he fun hc => absurd (hp.2.symm.trans hc) (by decide)
  | bodyEnds hph hi committed =>
    rw [hph] at hp
    obtain ⟨rfl, -⟩ := Prod.mk.inj hr
    refine ⟨by simpa using he, ?_⟩
    simp only [Call.mark_phase, hph]
    refine ⟨by simpa using hp.1, by simp, fun _ => ?_⟩
    exact congrArg Attempt.endedByBody (Call.mark_latest hp.1 _)
  | bodyReturns hph value =>
    rw [hph] at hp
    obtain ⟨hne, -, hended⟩ := hp
    rw [show c' = _ from congrArg Prod.fst hr]
    cases hi : c.inTransaction with
    | true =>
      rw [if_pos rfl]
      exact tryCommit_clean value he hne c.cfg.maxCommitAttempts_pos
    | false =>
      rw [if_neg (by decide)]
      exact ⟨he, hne, Or.inr (hended hi)⟩
  | bodyThrows hph error =>
    rw [show c' = _ from congrArg Prod.fst hr]
    exact abortIfActive_clean he hd
  | aborts hph =>
    rw [hph] at hp
    rw [show c' = _ from congrArg Prod.fst hr]
    exact afterAbort_clean true he hp
  | abortFails hph inTransaction =>
    rw [hph] at hp
    rw [show c' = _ from congrArg Prod.fst hr]
    exact afterAbort_clean false he hp
  | waits hph =>
    rw [hph] at hp
    rw [show c' = _ from congrArg Prod.fst hr]
    exact enter_clean _ (hall hp)
  | recommits hph =>
    rw [hph] at hp
    rw [show c' = _ from congrArg Prod.fst hr]
    exact tryCommit_clean _ he hp.1 hp.2
  | commits hph =>
    rw [hph] at hp
    rw [show c' = _ from congrArg Prod.fst hr]
    have hne : c.attempts ≠ [] := hp
    refine ⟨by simpa [Call.resolve] using he, by simpa [Call.resolve] using hne, Or.inl ?_⟩
    exact congrArg Attempt.committed (Call.mark_latest hne _)
  | @commitFails value hph error effect inTransaction =>
    rw [hph] at hp
    rw [show c' = _ from congrArg Prod.fst hr]
    exact commitFailed_clean value inTransaction he hp hcons hd
  | @sessionEnds outcome hph =>
    rw [hph] at hp
    obtain ⟨rfl, -⟩ := Prod.mk.inj hr
    cases outcome with
    | resolved _ | rejected _ => exact ⟨he, hp⟩

/-- A call begins clean. -/
theorem start_clean (cfg : ResolvedTransactionConfig) : Clean (Call.start (β := β) cfg) :=
  ⟨by simp [Call.start], rfl⟩

/-- No attempt after a clean list of earlier ones reruns the body. -/
private theorem pairwise_of_tail {l : List Attempt} (h : ∀ b ∈ l.tail, b.committed = false) :
    l.Pairwise fun later earlier => later.ran = true → earlier.committed = false := by
  cases l with
  | nil => exact .nil
  | cons a t =>
    refine List.pairwise_cons.mpr ⟨fun b hb _ => h b hb, ?_⟩
    exact List.Pairwise.imp_of_mem (fun _ hb _ _ => h _ hb)
      (List.pairwise_of_forall fun _ _ => trivial)

/-- A clean call is honest. -/
theorem Clean.honest {c : Call β} (h : Clean c) : Honest c := by
  refine ⟨fun v hv => ?_, fun e hr ha b hb => ?_, pairwise_of_tail h.earlier⟩
  · have hp := h.phase
    rw [hv] at hp
    obtain ⟨hne, hl⟩ := hp
    unfold Call.latest at hl
    cases hc : c.attempts with
    | nil => exact absurd hc hne
    | cons a l => exact ⟨a, rfl, by simpa [hc] using hl⟩
  · have hp := h.phase
    rw [hr] at hp
    rcases Call.mem_attempts hb with rfl | hb
    · cases hc : c.latest.committed with
      | false => rfl
      | true => exact absurd (ha.symm.trans (hp hc)) (by decide)
    · exact h.earlier b hb

/-- Some attempt was run after one that is committed. -/
def Rerun (c : Call β) : Prop :=
  ¬ c.attempts.Pairwise fun later earlier => later.ran = true → earlier.committed = false

/-- What is wrong with a call that will not be honest, in each of its phases. -/
def DoomedAt (c : Call β) : Phase β → Prop
  | .entering => ∃ b ∈ c.attempts.tail, b.committed = true
  | .backingOff => ∃ b ∈ c.attempts, b.committed = true
  | .aborting error caught =>
    error.ambiguous = false ∧
      ((∃ b ∈ c.attempts.tail, b.committed = true) ∨
        ((∃ b ∈ c.attempts, b.committed = true) ∧ caught = .commit ∧
          isTransientTransactionError error = false))
  | .closing (.rejected error) | .settled (.rejected error) =>
    error.ambiguous = false ∧ ∃ b ∈ c.attempts, b.committed = true
  | _ => False

/-- A call that will not be honest. -/
def Doomed (c : Call β) : Prop := Rerun c ∨ DoomedAt c c.phase

/-- A step may push a fresh attempt and change the latest one, which stays run if it was. -/
def Grown (l l' : List Attempt) : Prop :=
  ∃ f : Attempt → Attempt, (∀ a, a.ran = true → (f a).ran = true) ∧
    (l' = l.modifyHead f ∨ l' = .fresh :: l.modifyHead f)

/-- Equal attempts have grown. -/
theorem Grown.of_eq {l l' : List Attempt} (h : l' = l) : Grown l l' :=
  ⟨id, fun _ hr => hr, Or.inl (by cases l <;> simp [h])⟩

private theorem enter_grown (c : Call β) (n : Nat) : Grown c.attempts (c.enter n).1.attempts := by
  rcases c.enter_attempts n with h | h
  · exact ⟨id, fun _ hr => hr, Or.inr (by cases hc : c.attempts <;> simp [h, hc])⟩
  · exact .of_eq h

/-- Trying a commit forgets no attempt. -/
private theorem tryCommit_grown (c : Call β) (n : Nat) (value : β) :
    Grown c.attempts (c.tryCommit n value).1.attempts := by
  unfold Call.tryCommit
  split
  · exact ⟨fun a => { a with commits := a.commits + 1 }, fun _ hr => hr, Or.inl rfl⟩
  · exact enter_grown c _

/-- The attempts grow with every step. -/
theorem step_grown {c : Call β} {x : Event β} {r : Call β × List Record}
    (h : Call.Stepped c x r) : Grown c.attempts r.1.attempts := by
  cases h with
  | sessionStarts _ | waits _ => exact enter_grown c _
  | recommits _ => exact tryCommit_grown c _ _
  | bodyReturns _ value =>
    split
    · exact tryCommit_grown c _ _
    · exact .of_eq rfl
  | transactionStarts _ => exact ⟨fun a => { a with ran := true }, fun _ _ => rfl, Or.inl rfl⟩
  | bodyEnds _ _ committed =>
    exact ⟨fun a => { a with committed := committed, endedByBody := true }, fun _ hr => hr,
      Or.inl rfl⟩
  | commits _ => exact ⟨fun a => { a with committed := true }, fun _ hr => hr, Or.inl rfl⟩
  | commitFails _ error effect inTransaction =>
    exact ⟨fun a => { a with committed := a.committed || effect }, fun _ hr => hr,
      Or.inl (by simp)⟩
  | sessionFails _ _ | transactionFails _ _ | bodyThrows _ _ | aborts _ | abortFails _ _
    | sessionEnds _ => exact .of_eq (by simp)

/-- A rerun stays a rerun. -/
theorem Rerun.step {c : Call β} {x : Event β} {r : Call β × List Record} (h : Rerun c)
    (hx : Call.Stepped c x r) : Rerun r.1 := by
  obtain ⟨f, hf, hl⟩ := step_grown hx
  intro hpw
  apply h
  have hm : (c.attempts.modifyHead f).Pairwise
      fun later earlier => later.ran = true → earlier.committed = false := by
    rcases hl with hl | hl
    · exact hl ▸ hpw
    · exact (List.pairwise_cons.mp (hl ▸ hpw)).2
  cases hc : c.attempts with
  | nil => exact .nil
  | cons a l =>
    rw [hc, List.modifyHead_cons, List.pairwise_cons] at hm
    exact List.pairwise_cons.mpr ⟨fun b hb hr => hm.1 b hb (hf a hr), hm.2⟩

/-- In every consistent run, a transaction under way is not committed. -/
structure Uncommitted (c : Call β) : Prop where
  entering : c.phase = .entering → c.attempts ≠ [] ∧ c.latest.committed = false
  running : c.phase = .running → c.inTransaction = true → c.latest.committed = false

private theorem enter_uncommitted (c : Call β) (n : Nat) : Uncommitted (c.enter n).1 := by
  unfold Call.enter
  split
  · exact ⟨fun _ => ⟨by simp, rfl⟩, by simp⟩
  · exact ⟨by simp [Call.reject], by simp [Call.reject]⟩

/-- After an abort a transaction under way is not committed. -/
private theorem afterAbort_uncommitted (c : Call β) (error : Thrown) (caught : Caught) (ok : Bool) :
    Uncommitted (c.afterAbort error caught ok).1 := by
  unfold Call.afterAbort
  split
  · exact ⟨by simp, by simp⟩
  · exact ⟨by simp [Call.reject], by simp [Call.reject]⟩

private theorem abortIfActive_uncommitted (c : Call β) (error : Thrown) (caught : Caught) :
    Uncommitted (c.abortIfActive error caught).1 := by
  unfold Call.abortIfActive
  split
  · exact ⟨by simp, by simp⟩
  · exact afterAbort_uncommitted ..

private theorem tryCommit_uncommitted (c : Call β) (n : Nat) (value : β) :
    Uncommitted (c.tryCommit n value).1 := by
  unfold Call.tryCommit
  split
  · exact ⟨by simp, by simp⟩
  · exact enter_uncommitted ..

/-- After a failed commit a transaction under way is not committed. -/
private theorem commitFailed_uncommitted (c : Call β) (value : β) (error : Thrown) :
    Uncommitted (c.commitFailed value error).1 := by
  unfold Call.commitFailed
  split
  · split
    · exact ⟨by simp, by simp⟩
    · exact ⟨by simp [Call.reject], by simp [Call.reject]⟩
  · exact abortIfActive_uncommitted ..

/-- Every step keeps a transaction under way uncommitted. -/
theorem Uncommitted.step {c : Call β} {x : Event β} {r : Call β × List Record}
    (h : Uncommitted c) (hx : Call.Stepped c x r) : Uncommitted r.1 := by
  cases hx with
  | sessionStarts _ | waits _ => exact enter_uncommitted ..
  | recommits _ => exact tryCommit_uncommitted ..
  | bodyReturns _ value =>
    split
    · exact tryCommit_uncommitted ..
    · exact ⟨by simp [Call.resolve], by simp [Call.resolve]⟩
  | transactionStarts hp =>
    obtain ⟨hne, hl⟩ := h.entering hp
    refine ⟨by simp, fun _ _ => ?_⟩
    exact (congrArg Attempt.committed (Call.mark_latest hne _)).trans hl
  | transactionFails _ _ | bodyThrows _ _ => exact abortIfActive_uncommitted ..
  | aborts _ | abortFails _ _ => exact afterAbort_uncommitted ..
  | bodyEnds hp _ _ => exact ⟨by simp [hp], by simp⟩
  | commits _ => exact ⟨by simp [Call.resolve], by simp [Call.resolve]⟩
  | commitFails _ _ _ _ => exact commitFailed_uncommitted ..
  | sessionFails _ _ | sessionEnds _ => exact ⟨by simp, by simp⟩

/-- A committed attempt stays committed when the latest attempt is marked. -/
private theorem committed_mark {l : List Attempt} {f : Attempt → Attempt}
    (hf : ∀ a, a.committed = true → (f a).committed = true)
    (h : ∃ b ∈ l, b.committed = true) : ∃ b ∈ l.modifyHead f, b.committed = true := by
  obtain ⟨b, hb, hc⟩ := h
  cases l with
  | nil => simp at hb
  | cons a t =>
    rcases List.mem_cons.mp hb with rfl | hb
    · exact ⟨f b, by simp, hf b hc⟩
    · exact ⟨b, by simp [hb], hc⟩

/-- A call that aborts over a committed attempt is doomed. -/
private theorem afterAbort_doomed {c : Call β} {error : Thrown} {caught : Caught} (ok : Bool)
    (ha : error.ambiguous = false) (h : ∃ b ∈ c.attempts, b.committed = true) :
    Doomed (c.afterAbort error caught ok).1 := by
  unfold Call.afterAbort
  split
  · exact Or.inr h
  · exact Or.inr ⟨ha, h⟩

/-- A call that runs its body again over a committed attempt is doomed. -/
private theorem enter_doomed {c : Call β} (n : Nat) (h : ∃ b ∈ c.attempts, b.committed = true) :
    Doomed (c.enter n).1 := by
  unfold Call.enter
  split
  · exact Or.inr h
  · exact Or.inr ⟨rfl, h⟩

/-- Starting an attempt after a committed one reruns the body. -/
theorem rerun_of_tail {c : Call β} {f : Attempt → Attempt} (hf : ∀ a, (f a).ran = true)
    (h : ∃ b ∈ c.attempts.tail, b.committed = true) {c' : Call β}
    (hc' : c'.attempts = c.attempts.modifyHead f) : Rerun c' := by
  obtain ⟨b, hb, hc⟩ := h
  intro hpw
  rw [hc'] at hpw
  cases hl : c.attempts with
  | nil => simp [hl] at hb
  | cons a t =>
    rw [hl, List.modifyHead_cons, List.pairwise_cons] at hpw
    have hn := hpw.1 b (by simpa [hl] using hb) (hf a)
    exact absurd (hn.symm.trans hc) (by decide)

/-- A doomed call stays doomed, whatever the driver answers. -/
theorem Doomed.step {c : Call β} {x : Event β} {r : Call β × List Record} (h : Doomed c)
    (hx : Call.Stepped c x r) (hdriver : ∀ e, x = .transactionFails e → e.ambiguous = false) :
    Doomed r.1 := by
  rcases h with h | h
  · exact Or.inl (h.step hx)
  cases hx with
  | sessionStarts hp | sessionFails hp _ | bodyEnds hp _ _ | bodyReturns hp _ | bodyThrows hp _
    | recommits hp | commits hp | commitFails hp _ _ _ => rw [hp] at h; exact h.elim
  | transactionStarts hp =>
    rw [hp] at h
    exact Or.inl (rerun_of_tail (fun _ => rfl) h rfl)
  | transactionFails hp error =>
    rw [hp] at h
    have ha := hdriver error rfl
    obtain ⟨b, hb, hc⟩ := h
    unfold Call.abortIfActive
    split
    · exact Or.inr ⟨ha, Or.inl ⟨b, hb, hc⟩⟩
    · exact afterAbort_doomed true ha ⟨b, List.mem_of_mem_tail hb, hc⟩
  | aborts hp | abortFails hp _ =>
    rw [hp] at h
    obtain ⟨ha, ⟨b, hb, hc⟩ | ⟨hall, -⟩⟩ := h
    · exact afterAbort_doomed _ ha ⟨b, List.mem_of_mem_tail hb, hc⟩
    · exact afterAbort_doomed _ ha hall
  | waits hp =>
    rw [hp] at h
    exact enter_doomed _ h
  | @sessionEnds outcome hp =>
    rw [hp] at h
    cases outcome with
    | resolved _ => exact h.elim
    | rejected _ => exact Or.inr h

/-- A step that is not definite dooms the call. -/
theorem doomed_of_not_definite {c : Call β} {x : Event β} {r : Call β × List Record}
    (hu : Uncommitted c) (hx : Call.Stepped c x r) (hd : ¬ Definite c x) : Doomed r.1 := by
  cases hx with
  | bodyThrows hp error =>
    simp only [Definite, Classical.not_imp] at hd
    obtain ⟨hl, hd⟩ := hd
    have hi : c.inTransaction = false := by
      cases hi : c.inTransaction with
      | false => rfl
      | true => exact absurd ((hu.running hp hi).symm.trans hl) (by decide)
    have hmem : ∃ b ∈ c.attempts, b.committed = true := ⟨_, Call.mem_of_latest hl, hl⟩
    unfold Call.abortIfActive Call.afterAbort
    rw [if_neg (by simp [hi])]
    split
    · exact Or.inr hmem
    · next hn =>
      refine Or.inr ⟨?_, hmem⟩
      cases ha : error.ambiguous with
      | false => rfl
      | true => exact absurd ⟨ha, fun hr => hn ⟨rfl, hr⟩⟩ hd
  | @commitFails value hp error effect inTransaction =>
    simp only [Definite, not_or, Bool.not_eq_true, Bool.not_eq_false] at hd
    obtain ⟨hu', ht, ha, hl⟩ := hd
    have hmem : ∃ b ∈ (c.mark fun a =>
        { a with committed := a.committed || effect }).attempts, b.committed = true :=
      committed_mark (fun a hc => by simp [hc]) ⟨_, Call.mem_of_latest hl, hl⟩
    unfold Call.commitFailed
    rw [if_neg (by simp [hu'])]
    unfold Call.abortIfActive
    split
    · exact Or.inr ⟨ha, Or.inr ⟨hmem, rfl, ht⟩⟩
    · exact afterAbort_doomed true ha hmem
  | sessionStarts _ | sessionFails _ _ | transactionStarts _ | transactionFails _ _
    | bodyEnds _ _ _ | bodyReturns _ _ | aborts _ | abortFails _ _ | waits _ | recommits _
    | commits _ | sessionEnds _ => exact absurd trivial hd

/-- A doomed call does not settle honestly. -/
theorem Doomed.not_honest {c : Call β} (h : Doomed c) {outcome : Outcome β}
    (hp : c.phase = .settled outcome) : ¬ Honest c := by
  intro hh
  rcases h with h | h
  · exact h hh.rerun
  · rw [hp] at h
    cases outcome with
    | resolved _ => exact h
    | rejected error =>
      obtain ⟨ha, b, hb, hc⟩ := h
      exact absurd ((hh.rejected error hp ha b hb).symm.trans hc) (by decide)

/-- A consistent run is definite in all its steps, or its call is doomed. -/
theorem definite_or_doomed {cfg : ResolvedTransactionConfig} {as : List (Event β)} {c : Call β}
    (h : Run Answered (Call.start cfg) as c)
    (hdriver : ∀ e, .transactionFails e ∈ as → e.ambiguous = false) :
    Uncommitted c ∧ (Run (Restrict Answered Definite) (Call.start cfg) as c ∨ Doomed c) := by
  induction h with
  | nil => exact ⟨⟨by simp [Call.start], by simp [Call.start]⟩, Or.inl .nil⟩
  | @snoc t u as a hrun hlast ih =>
    obtain ⟨hu, ih⟩ := ih fun e he => hdriver e (List.mem_append_left _ he)
    obtain ⟨rs, hx⟩ := Call.next_cases hlast.2
    refine ⟨hu.step hx, ?_⟩
    rcases ih with ih | ih
    · by_cases hd : Definite t a
      · exact Or.inl (ih.snoc ⟨hd, hlast⟩)
      · exact Or.inr (doomed_of_not_definite hu hx hd)
    · exact Or.inr (ih.step hx fun e he => hdriver e (by simp [he]))

/-- Along definite steps a call is honest, and a call that settles honestly has only made
definite steps, as long as the driver itself never reports an ambiguous outcome when it is
asked to start a transaction. -/
theorem executeInTransaction_honest (config : TransactionConfig) {as : List (Event β)}
    {c : Call β} (h : Run Answered (Call.start (resolveTransactionConfig config)) as c) :
    (Run (Restrict Answered Definite) (Call.start (resolveTransactionConfig config)) as c →
      Honest c) ∧
    (∀ outcome, c.phase = .settled outcome →
      (∀ e, .transactionFails e ∈ as → e.ambiguous = false) → Honest c →
      Run (Restrict Answered Definite) (Call.start (resolveTransactionConfig config)) as c) := by
  constructor
  · intro hrun
    exact (hrun.invariant (fun _ _ _ hc hx => hc.step hx.2 hx.1) (start_clean _)).honest
  · intro outcome hp hdriver hh
    rcases (definite_or_doomed h hdriver).2 with hrun | hd
    · exact hrun
    · exact absurd hh (hd.not_honest hp)

/-- An error that leaves the commit result unknown. -/
def unknownCommitResult : Thrown :=
  ⟨[⟨some ["UnknownTransactionCommitResult"], none, none, none⟩], some 0, false⟩

/-- A commit that takes effect while its answer is lost, and is tried again. -/
def lostCommit : List (Event Unit) :=
  [.sessionStarts, .transactionStarts, .bodyReturns (), .commitFails unknownCommitResult true false,
   .waits]

/-- When the second try succeeds, the call settles honestly. -/
theorem executeInTransaction_honest_lostCommit : ∃ c : Call Unit,
    c.phase = .settled (.resolved ()) ∧ Honest c := by
  have h : (exec Call.next (Call.start (resolveTransactionConfig .empty))
      (lostCommit ++ [.commits, .sessionEnds])).map Call.phase =
        some (.settled (.resolved ())) := by decide
  obtain ⟨c, hc, hp⟩ := Option.map_eq_some_iff.mp h
  have hrun := (exec_run hc).restrict (C := Consistent) (by
    simp [lostCommit, Consistent,
      show isUnknownTransactionCommitResult unknownCommitResult = true by
      decide])
  have hdef : ∀ x ∈ lostCommit ++ [.commits, .sessionEnds], ∀ d, Definite (β := Unit) d x := by
    simp [lostCommit, Definite, show isUnknownTransactionCommitResult unknownCommitResult = true by
      decide]
  exact ⟨c, hp, (executeInTransaction_honest .empty hrun).1 (hrun.restrict hdef)⟩

/-- When the second try is answered with an error without labels, the call rejects with
that error although its writes are committed. -/
theorem executeInTransaction_dishonest : ∃ (as : List (Event Unit)) (c : Call Unit),
    Run Answered (Call.start (resolveTransactionConfig .empty)) as c ∧
      c.phase = .settled (.rejected plainError) ∧ (∃ a ∈ c.attempts, a.committed = true) ∧
      ¬ Honest c := by
  have h : (exec Call.next (Call.start (resolveTransactionConfig .empty))
      (lostCommit ++ [.commitFails plainError false false, .sessionEnds])).map
        (fun c => (c.phase, c.attempts)) =
      some (.settled (.rejected plainError), [⟨true, true, false, 2⟩]) := by decide
  obtain ⟨c, hc, he⟩ := Option.map_eq_some_iff.mp h
  obtain ⟨hp, ha⟩ := Prod.mk.inj he
  have hcomm : ∃ a ∈ c.attempts, a.committed = true := ⟨_, ha ▸ List.mem_singleton_self _, rfl⟩
  refine ⟨_, c, (exec_run hc).restrict ?_, hp, hcomm, fun hh => ?_⟩
  · simp [lostCommit, Consistent,
      show isUnknownTransactionCommitResult unknownCommitResult = true by decide,
      show isTransientTransactionError plainError = false by decide]
  · obtain ⟨a, hmem, hcom⟩ := hcomm
    exact absurd ((hh.rejected _ hp rfl a hmem).symm.trans hcom) (by decide)

end Ascendance.UnitOfWork
