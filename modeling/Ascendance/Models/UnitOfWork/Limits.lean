import Ascendance.Models.UnitOfWork.World

/-!
# Limits of one call

The two loops of a call stay within its limits, and a call tells the metrics
tracker of an outcome exactly in the step that decides it.
-/

namespace Ascendance.UnitOfWork

open Ascendance.Core

variable {β : Type}

/-- How often the body ran. -/
def Call.bodyRuns (c : Call β) : Nat := c.attempts.countP (·.ran)

/-- What the inner loop has done in the latest attempt, in each phase. -/
def CountedAt (c : Call β) : Phase β → Prop
  | .opening => c.attempts = []
  | .entering | .running => ∃ a l, c.attempts = a :: l ∧ a.commits = 0
  | .committing _ => ∃ a l, c.attempts = a :: l ∧ a.commits = c.commitAttempt
  | .recommitting _ => ∃ a l, c.attempts = a :: l ∧ a.commits = c.commitAttempt ∧
      c.commitAttempt < c.cfg.maxCommitAttempts
  | .backingOff => c.attempts.length < c.cfg.maxBodyAttempts
  | .aborting _ _ | .closing _ | .settled _ => True

/-- The loops are within their limits. -/
structure Bounded (c : Call β) : Prop where
  bodyAttempt : c.bodyAttempt = c.attempts.length
  attempts : c.attempts.length ≤ c.cfg.maxBodyAttempts
  commits : ∀ a ∈ c.attempts, a.commits ≤ c.cfg.maxCommitAttempts
  counted : CountedAt c c.phase
  /-- Past the first start, the body has run unless a start has failed. -/
  ran : c.startFailed = true ∨ c.phase = .opening ∨ c.phase = .entering ∨ 0 < c.bodyRuns

/-- What is kept while the phase moves on after an attempt. -/
structure Within (c : Call β) : Prop where
  bodyAttempt : c.bodyAttempt = c.attempts.length
  attempts : c.attempts.length ≤ c.cfg.maxBodyAttempts
  commits : ∀ a ∈ c.attempts, a.commits ≤ c.cfg.maxCommitAttempts
  ran : c.startFailed = true ∨ 0 < c.bodyRuns

/-- A call within its limits that moves to a phase with the right count stays within them. -/
theorem Within.moves {c : Call β} (h : Within c) {phase : Phase β} (inTransaction : Bool)
    (hcounted : CountedAt c phase) :
    Bounded { c with phase := phase, inTransaction := inTransaction } := by
  refine ⟨h.bodyAttempt, h.attempts, h.commits, ?_, h.ran.imp id fun hr => Or.inr (Or.inr hr)⟩
  cases phase <;> exact hcounted

/-- Whether the transaction is active has no part in the limits. -/
theorem Within.active {c : Call β} (h : Within c) (inTransaction : Bool) :
    Within { c with inTransaction := inTransaction } :=
  ⟨h.bodyAttempt, h.attempts, h.commits, h.ran⟩

/-- A call that resolves stays within its limits. -/
theorem Within.resolve {c : Call β} (h : Within c) (value : β) : Bounded (c.resolve value).1 :=
  h.moves c.inTransaction trivial

/-- A call that rejects stays within its limits. -/
theorem Within.reject {c : Call β} (h : Within c) (error : Thrown) : Bounded (c.reject error).1 :=
  h.moves c.inTransaction trivial

/-- A call that has aborted stays within its limits. -/
theorem Within.afterAbort {c : Call β} (h : Within c) (error : Thrown) (caught : Caught)
    (ok : Bool) : Bounded (c.afterAbort error caught ok).1 := by
  unfold Call.afterAbort
  split
  · next hr =>
    have hlt : c.attempts.length < c.cfg.maxBodyAttempts := h.bodyAttempt ▸ hr.2.2
    exact h.moves c.inTransaction hlt
  · exact h.reject error

/-- A call that aborts stays within its limits. -/
theorem Within.abortIfActive {c : Call β} (h : Within c) (error : Thrown) (caught : Caught) :
    Bounded (c.abortIfActive error caught).1 := by
  unfold Call.abortIfActive
  split
  · exact h.moves c.inTransaction trivial
  · exact h.afterAbort error caught true

/-- The outer loop enters an attempt within its limit. -/
theorem enter_bounded {c : Call β} (hlt : c.attempts.length < c.cfg.maxBodyAttempts)
    (hc : ∀ a ∈ c.attempts, a.commits ≤ c.cfg.maxCommitAttempts) :
    Bounded (c.enter (c.attempts.length + 1)).1 := by
  unfold Call.enter
  rw [if_pos (by omega)]
  refine ⟨rfl, hlt, ?_, ⟨.fresh, c.attempts, rfl, rfl⟩, Or.inr (Or.inr (Or.inl rfl))⟩
  intro a ha
  rcases List.mem_cons.mp ha with rfl | ha
  · exact Nat.zero_le _
  · exact hc a ha

/-- Marking the latest attempt keeps the loops within their limits. -/
theorem Within.mark {c : Call β} (h : Within c) {f : Attempt → Attempt}
    (hr : ∀ a, a.ran = true → (f a).ran = true)
    (hc : ∀ a ∈ c.attempts.head?, (f a).commits ≤ c.cfg.maxCommitAttempts) :
    Within (c.mark f) := by
  refine ⟨by simpa using h.bodyAttempt, by simpa using h.attempts, ?_, h.ran.imp id fun hrun => ?_⟩
  · intro b hb
    cases hl : c.attempts with
    | nil => simp [hl] at hb
    | cons a l =>
      rw [Call.mark_attempts, hl, List.modifyHead_cons] at hb
      rcases List.mem_cons.mp hb with rfl | hb
      · exact hc a (by simp [hl])
      · exact h.commits b (by simp [hl, hb])
  · unfold Call.bodyRuns at hrun ⊢
    cases hl : c.attempts with
    | nil => simp [hl] at hrun
    | cons a l =>
      rw [hl, List.countP_cons] at hrun
      rw [Call.mark_attempts, hl, List.modifyHead_cons, List.countP_cons]
      by_cases har : a.ran = true
      · rw [if_pos (hr a har)]
        omega
      · rw [if_neg har] at hrun
        omega

/-- A call that has entered its first attempt and is past its start is within its limits. -/
theorem Bounded.within {c : Call β} (h : Bounded c) (h1 : c.phase ≠ .opening)
    (h2 : c.phase ≠ .entering) : Within c :=
  ⟨h.bodyAttempt, h.attempts, h.commits,
    h.ran.imp id fun hr => (hr.resolve_left h1).resolve_left h2⟩

/-- Marking the latest attempt without another commit keeps the loops within their limits. -/
theorem Within.mark_of_commits {c : Call β} (h : Within c) {f : Attempt → Attempt}
    (hr : ∀ a, a.ran = true → (f a).ran = true) (hc : ∀ a, (f a).commits = a.commits) :
    Within (c.mark f) :=
  h.mark hr fun a ha => by
    rw [hc]
    exact h.commits a (List.mem_of_mem_head? ha)

/-- A mark without another commit leaves the count of the inner loop right. -/
theorem CountedAt.mark {c : Call β} {phase : Phase β} (h : CountedAt c phase)
    {f : Attempt → Attempt} (hc : ∀ a, (f a).commits = a.commits) :
    CountedAt (c.mark f) phase := by
  cases phase with
  | opening =>
    have hnil : c.attempts = [] := h
    simp [CountedAt, hnil]
  | entering | running | committing _ =>
    obtain ⟨a, l, hl, ha⟩ := h
    exact ⟨f a, l, by simp [hl], (hc a).trans ha⟩
  | recommitting _ =>
    obtain ⟨a, l, hl, ha, hlt⟩ := h
    exact ⟨f a, l, by simp [hl], (hc a).trans ha, hlt⟩
  | backingOff =>
    have hlt : c.attempts.length < c.cfg.maxBodyAttempts := h
    simpa [CountedAt] using hlt
  | aborting _ _ | closing _ | settled _ => trivial

/-- The inner loop tries a commit within its limit. -/
theorem Within.tryCommit {c : Call β} (h : Within c) {n : Nat} (value : β)
    (hn : n < c.cfg.maxCommitAttempts) {a : Attempt} {l : List Attempt}
    (hl : c.attempts = a :: l) (ha : a.commits = n) : Bounded (c.tryCommit (n + 1) value).1 := by
  unfold Call.tryCommit
  rw [if_pos (show n + 1 ≤ c.cfg.maxCommitAttempts from hn)]
  have hm := h.mark (f := fun a => { a with commits := a.commits + 1 }) (fun _ hr => hr) (by
    simp only [hl, List.head?_cons, Option.mem_some_iff, forall_eq', ha]
    exact hn)
  refine ⟨hm.bodyAttempt, hm.attempts, hm.commits, ?_, hm.ran.imp id fun hr => Or.inr (Or.inr hr)⟩
  exact ⟨{ a with commits := a.commits + 1 }, l, by simp [hl], by simp [ha]⟩

/-- A commit that failed leaves the loops within their limits. -/
theorem Within.commitFailed {c : Call β} (h : Within c) {value : β}
    (hcounted : CountedAt c (.committing value)) (error : Thrown) :
    Bounded (c.commitFailed value error).1 := by
  unfold Call.commitFailed
  split
  · split
    · next hlt =>
      obtain ⟨a, l, hl, ha⟩ := hcounted
      exact h.moves c.inTransaction ⟨a, l, hl, ha, hlt.2⟩
    · exact h.reject _
  · exact h.abortIfActive error .commit

/-- A call begins within its limits. -/
theorem start_bounded (cfg : ResolvedTransactionConfig) : Bounded (Call.start (β := β) cfg) :=
  ⟨rfl, Nat.zero_le _, by simp [Call.start], rfl, Or.inr (Or.inl rfl)⟩

/-- The body of an attempt starts within the limits, and from then on it has run. -/
theorem Bounded.transactionStarts {c : Call β} (h : Bounded c) (hp : c.phase = .entering) :
    Bounded ({ c.mark (fun a => { a with ran := true }) with
      phase := .running
      inTransaction := true } : Call β) := by
  have hcount := h.counted
  rw [hp] at hcount
  obtain ⟨a, l, hl, ha⟩ := hcount
  have hb := h.bodyAttempt
  have hle := h.attempts
  rw [hl] at hb hle
  refine ⟨by simpa [hl] using hb, by simpa [hl] using hle, ?_,
    ⟨{ a with ran := true }, l, by simp [hl], ha⟩, Or.inr (Or.inr (Or.inr ?_))⟩
  · simp only [Call.mark_attempts, hl, List.modifyHead_cons, List.mem_cons]
    rintro b (rfl | hb)
    · exact h.commits a (by simp [hl])
    · exact h.commits b (by simp [hl, hb])
  · simp [Call.bodyRuns, hl]

/-- Every step keeps the loops within their limits. -/
theorem Bounded.step {c : Call β} {x : Event β} {r : Call β × List Record} (h : Bounded c)
    (hx : Call.Stepped c x r) : Bounded r.1 := by
  have hcount := h.counted
  cases hx with
  | sessionStarts hp =>
    rw [hp] at hcount
    have hnil : c.attempts = [] := hcount
    have he := enter_bounded (c := c) (by simpa [hnil] using c.cfg.maxBodyAttempts_pos) h.commits
    simpa [hnil] using he
  | sessionFails hp error =>
    exact ⟨h.bodyAttempt, h.attempts, h.commits, trivial, Or.inl rfl⟩
  | transactionStarts hp => exact h.transactionStarts hp
  | transactionFails hp error =>
    have hw : Within { c with startFailed := true } :=
      ⟨h.bodyAttempt, h.attempts, h.commits, Or.inl rfl⟩
    exact hw.abortIfActive error .body
  | bodyEnds hp hi committed =>
    have hw := h.within (by simp [hp]) (by simp [hp])
    have hmark := hw.mark_of_commits
      (f := fun a => { a with committed := committed, endedByBody := true })
      (fun _ hr => hr) fun _ => rfl
    exact hmark.moves false (hcount.mark fun _ => rfl)
  | bodyReturns hp value =>
    have hw := h.within (by simp [hp]) (by simp [hp])
    rw [hp] at hcount
    obtain ⟨a, l, hl, ha⟩ := hcount
    split
    · exact hw.tryCommit value c.cfg.maxCommitAttempts_pos hl ha
    · exact hw.resolve value
  | bodyThrows hp error =>
    exact (h.within (by simp [hp]) (by simp [hp])).abortIfActive error .body
  | @aborts error caught hp =>
    have hw := h.within (by simp [hp]) (by simp [hp])
    exact (hw.active false).afterAbort error caught true
  | @abortFails error caught hp inTransaction =>
    have hw := h.within (by simp [hp]) (by simp [hp])
    exact (hw.active inTransaction).afterAbort error caught false
  | waits hp =>
    rw [hp] at hcount
    rw [h.bodyAttempt]
    exact enter_bounded hcount h.commits
  | recommits hp =>
    have hw := h.within (by simp [hp]) (by simp [hp])
    rw [hp] at hcount
    obtain ⟨a, l, hl, ha, hlt⟩ := hcount
    exact hw.tryCommit _ hlt hl ha
  | commits hp =>
    have hw := h.within (by simp [hp]) (by simp [hp])
    have hmark := hw.mark_of_commits (f := fun a => { a with committed := true })
      (fun _ hr => hr) fun _ => rfl
    exact (hmark.active false).resolve _
  | @commitFails value hp error effect inTransaction =>
    have hw := h.within (by simp [hp]) (by simp [hp])
    rw [hp] at hcount
    have hmark := hw.mark_of_commits (f := fun a => { a with committed := a.committed || effect })
      (fun _ hr => hr) fun _ => rfl
    exact (hmark.active inTransaction).commitFailed (hcount.mark fun _ => rfl) error
  | sessionEnds hp =>
    exact (h.within (by simp [hp]) (by simp [hp])).moves false trivial

/-- No step changes the limits of a call. -/
theorem step_cfg {c : Call β} {x : Event β} {r : Call β × List Record}
    (hx : Call.Stepped c x r) : r.1.cfg = c.cfg := by
  cases hx with
  | sessionStarts _ | waits _ | recommits _ | transactionFails _ _ | bodyThrows _ _ | aborts _
    | abortFails _ _ | commitFails _ _ _ _ => simp
  | bodyReturns _ value => split <;> simp [Call.resolve]
  | sessionFails _ _ | transactionStarts _ | bodyEnds _ _ _ | commits _ | sessionEnds _ => rfl

/-- A record of an outcome. -/
def Record.isOutcome : Record → Bool
  | .success _ | .failure | .ambiguous | .rejected => true
  | .attempt | .commitAttempt | .retry _ => false

/-- The outcome of a call is decided. -/
def Call.isDecided (c : Call β) : Bool :=
  match c.phase with
  | .closing _ | .settled _ => true
  | _ => false

/-- A step from an undecided call records an outcome exactly when it decides the call. -/
def Tells (r : Call β × List Record) : Prop := r.2.countP Record.isOutcome = r.1.isDecided.toNat

private theorem rejectRecord_isOutcome (error : Thrown) :
    (Call.rejectRecord error).isOutcome = true := by
  unfold Call.rejectRecord
  split <;> rfl

private theorem reject_tells (c : Call β) (error : Thrown) : Tells (c.reject error) := by
  unfold Tells Call.reject
  rw [List.countP_singleton, rejectRecord_isOutcome]
  rfl

private theorem enter_tells (c : Call β) (n : Nat) : Tells (c.enter n) := by
  unfold Call.enter
  split
  · rfl
  · exact reject_tells c _

/-- What the metrics are told after an abort. -/
private theorem afterAbort_tells (c : Call β) (error : Thrown) (caught : Caught) (ok : Bool) :
    Tells (c.afterAbort error caught ok) := by
  unfold Call.afterAbort
  split
  · rfl
  · exact reject_tells c _

/-- What the metrics are told at an abort. -/
private theorem abortIfActive_tells (c : Call β) (error : Thrown) (caught : Caught) :
    Tells (c.abortIfActive error caught) := by
  unfold Call.abortIfActive
  split
  · rfl
  · exact afterAbort_tells c _ _ _

private theorem tryCommit_tells (c : Call β) (n : Nat) (value : β) :
    Tells (c.tryCommit n value) := by
  unfold Call.tryCommit
  split
  · rfl
  · exact enter_tells c _

/-- A step records an outcome exactly when it decides the call. -/
theorem step_tells {c : Call β} {x : Event β} {r : Call β × List Record}
    (hx : Call.Stepped c x r) :
    c.isDecided.toNat + r.2.countP Record.isOutcome = r.1.isDecided.toNat := by
  have hundecided : ∀ {p : Phase β}, c.phase = p →
      (∀ o, p ≠ .closing o) → (∀ o, p ≠ .settled o) → c.isDecided = false := by
    intro p hp hc hs
    unfold Call.isDecided
    rw [hp]
    cases p with
    | closing o => exact absurd rfl (hc o)
    | settled o => exact absurd rfl (hs o)
    | opening | entering | running | aborting _ _ | backingOff | committing _ | recommitting _ =>
      rfl
  have htells : ∀ {p : Phase β}, c.phase = p → (∀ o, p ≠ .closing o) → (∀ o, p ≠ .settled o) →
      Tells r → c.isDecided.toNat + r.2.countP Record.isOutcome = r.1.isDecided.toNat := by
    intro p hp hc hs ht
    rw [hundecided hp hc hs, Bool.toNat_false, Nat.zero_add]
    exact ht
  cases hx with
  | sessionStarts hp | waits hp => exact htells hp (by simp) (by simp) (enter_tells c _)
  | sessionFails hp error => exact htells hp (by simp) (by simp) (reject_tells c error)
  | recommits hp => exact htells hp (by simp) (by simp) (tryCommit_tells c _ _)
  | bodyReturns hp value =>
    refine htells hp (by simp) (by simp) ?_
    split
    · exact tryCommit_tells c _ _
    · rfl
  | transactionFails hp error | bodyThrows hp error =>
    exact htells hp (by simp) (by simp) (abortIfActive_tells _ _ _)
  | aborts hp | abortFails hp _ =>
    exact htells hp (by simp) (by simp) (afterAbort_tells _ _ _ _)
  | transactionStarts hp | commits hp => exact htells hp (by simp) (by simp) rfl
  | bodyEnds hp _ _ =>
    refine htells hp (by simp) (by simp) ?_
    simp [Tells, Call.isDecided, hp]
  | commitFails hp error effect inTransaction =>
    refine htells hp (by simp) (by simp) ?_
    unfold Call.commitFailed
    split
    · split
      · rfl
      · exact reject_tells _ _
    · exact abortIfActive_tells _ _ _
  | sessionEnds hp =>
    simp [Call.isDecided, hp]

/-- One record adds to the outcomes exactly when it is one. -/
theorem outcomes_record (m : Metrics) (x : Record) :
    (m.record x).outcomes = m.outcomes + x.isOutcome.toNat := by
  cases x with
  | attempt | commitAttempt => rfl
  | retry caught => cases caught <;> rfl
  | success attempt =>
    unfold Metrics.record
    simp only
    split <;> (simp [Metrics.outcomes, Record.isOutcome]; omega)
  | failure | ambiguous =>
    simp only [Metrics.record, Metrics.outcomes, Record.isOutcome, Bool.toNat_true]
    omega
  | rejected => rfl

/-- The outcomes that a list of records counts. -/
theorem outcomes_foldl (m : Metrics) (rs : List Record) :
    (rs.foldl Metrics.record m).outcomes = m.outcomes + rs.countP Record.isOutcome := by
  induction rs generalizing m with
  | nil => rfl
  | cons x rs ih =>
    rw [List.foldl_cons, ih, outcomes_record, List.countP_cons]
    cases x.isOutcome with
    | false => simp
    | true =>
      simp only [Bool.toNat_true, if_true]
      omega

end Ascendance.UnitOfWork
