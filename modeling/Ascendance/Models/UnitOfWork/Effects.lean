import Ascendance.Models.UnitOfWork.Honesty

/-!
# When a transaction takes effect

Along definite steps the writes of a body take effect with one answer to a commit, also if its
caller cannot tell; from then on the latest attempt is the committed one. The body leaves the
end of the transaction to the call.
-/

namespace Ascendance.UnitOfWork

variable {β : Type}

/-- The body has ended the transaction itself. -/
def Event.endsBody : Event β → Bool
  | .bodyEnds _ => true
  | _ => false

instance (c : Call β) (x : Event β) : Decidable (Consistent c x) := by
  cases x
  case commitFails => exact inferInstanceAs (Decidable (_ ∨ _))
  all_goals exact isTrue trivial

instance (c : Call β) (x : Event β) : Decidable (Definite c x) := by
  cases x
  case commitFails => exact inferInstanceAs (Decidable (_ ∨ _))
  case bodyThrows => exact inferInstanceAs (Decidable (_ → _))
  all_goals exact isTrue trivial

namespace Call

/-- The call has ended without saying whether it is committed. -/
def inDoubt (c : Call β) : Bool :=
  match c.phase with
  | .settled (.rejected error) => error.ambiguous
  | _ => false

/-- Whether the transaction takes effect with an answer to a commit. -/
def takesEffect (c : Call β) : Event β → Bool
  | .commits => !c.latest.committed
  | .commitFails _ effect _ => effect && !c.latest.committed
  | _ => false

/-- An attempt takes effect before it is known to be committed. -/
theorem committed_of_takesEffect {c : Call β} {x : Event β} (h : c.takesEffect x = true) :
    c.latest.committed = false := by
  cases x with
  | commits => simpa [takesEffect] using h
  | commitFails error effect inTransaction => exact (by simpa [takesEffect] using h : _ ∧ _).2
  | _ => cases h

/-- No body has ended its transaction. -/
def Untouched (c : Call β) : Prop := ∀ a ∈ c.attempts, a.endedByBody = false

@[simp] theorem latest_start (cfg : ResolvedTransactionConfig) :
    (Call.start (β := β) cfg).latest.committed = false := rfl

private theorem latest_congr {c c' : Call β} (h : c'.attempts = c.attempts) :
    c'.latest = c.latest := by
  simp only [latest, h]

private theorem committed_congr {c c' : Call β} (h : c'.attempts = c.attempts) :
    c'.latest.committed = c.latest.committed := by
  rw [latest_congr h]

/-- What a mark says of the latest attempt. -/
theorem committed_mark {c c' : Call β} (f : Attempt → Attempt) (hne : c.attempts ≠ [])
    (h : c'.attempts = (c.mark f).attempts) : c'.latest.committed = (f c.latest).committed := by
  rw [latest_congr h, mark_latest hne]

/-- Entering an attempt commits nothing. -/
private theorem committed_enter {c : Call β} (n : ℕ) (h : c.latest.committed = false) :
    (c.enter n).1.latest.committed = false := by
  rcases c.enter_attempts n with he | he
  · simp only [latest, he]
    rfl
  · rw [latest_congr he]
    exact h

/-- Trying a commit commits nothing by itself. -/
private theorem committed_tryCommit {c : Call β} {n : ℕ} (value : β) (hne : c.attempts ≠ [])
    (hn : n ≤ c.cfg.maxCommitAttempts) :
    (c.tryCommit n value).1.latest.committed = c.latest.committed := by
  unfold tryCommit
  rw [if_pos hn]
  exact committed_mark (fun a => { a with commits := a.commits + 1 }) hne rfl

/-- A definite step changes whether the writes are committed just when it takes effect. -/
theorem committed_next {c c' : Call β} {x : Event β} (hclean : Clean c) (hx : Answered c x c')
    (hd : Definite c x) (hbody : x.endsBody = false) :
    c'.latest.committed = (c.latest.committed || c.takesEffect x) := by
  obtain ⟨r, hstep, rfl⟩ : ∃ r, Stepped c x r ∧ c' = r.1 := by
    obtain ⟨rs, hstep⟩ := next_cases hx.2
    exact ⟨_, hstep, rfl⟩
  have hp := hclean.phase
  cases hstep with
  | sessionStarts hph =>
    rw [hph] at hp
    have hl : c.latest.committed = false := by
      simp only [latest, show c.attempts = [] from hp]
      rfl
    rw [committed_enter 1 hl, hl]
    rfl
  | sessionFails => exact (committed_congr rfl).trans (Bool.or_false _).symm
  | transactionStarts hph =>
    rw [hph] at hp
    exact (committed_mark (fun a => { a with ran := true }) hp.1 rfl).trans (Bool.or_false _).symm
  | transactionFails hph error =>
    exact (committed_congr (abortIfActive_attempts _ _ _)).trans (Bool.or_false _).symm
  | bodyEnds => cases hbody
  | bodyReturns hph value =>
    rw [hph] at hp
    simp only [takesEffect, Bool.or_false]
    cases c.inTransaction with
    | true => exact committed_tryCommit value hp.1 c.cfg.maxCommitAttempts_pos
    | false => exact committed_congr rfl
  | bodyThrows =>
    exact (committed_congr (abortIfActive_attempts _ _ _)).trans (Bool.or_false _).symm
  | aborts => exact (committed_congr (afterAbort_attempts _ _ _ _)).trans (Bool.or_false _).symm
  | abortFails => exact (committed_congr (afterAbort_attempts _ _ _ _)).trans (Bool.or_false _).symm
  | waits hph =>
    rw [hph] at hp
    rw [committed_enter _ hp, show c.latest.committed = false from hp]
    rfl
  | recommits hph =>
    rw [hph] at hp
    exact (committed_tryCommit _ hp.1 hp.2).trans (Bool.or_false _).symm
  | commits hph =>
    rw [hph] at hp
    refine (committed_mark (fun a => { a with committed := true }) hp rfl).trans ?_
    simp [takesEffect]
  | commitFails hph error effect inTransaction =>
    rw [hph] at hp
    refine (committed_mark (fun a => { a with committed := a.committed || effect }) hp (by
      rw [commitFailed_attempts])).trans ?_
    simp only [takesEffect]
    cases c.latest.committed <;> simp
  | sessionEnds => exact (committed_congr rfl).trans (Bool.or_false _).symm

private theorem untouched_congr {c c' : Call β} (h : c.Untouched) (he : c'.attempts = c.attempts) :
    c'.Untouched := fun a ha => h a (he ▸ ha)

/-- A change that keeps who ended an attempt touches none. -/
private theorem untouched_mark {c c' : Call β} (f : Attempt → Attempt) (h : c.Untouched)
    (hf : ∀ a, (f a).endedByBody = a.endedByBody) (he : c'.attempts = (c.mark f).attempts) :
    c'.Untouched := by
  intro a ha
  rw [he, mark_attempts] at ha
  cases hl : c.attempts with
  | nil => simp [hl] at ha
  | cons b l =>
    rw [hl, List.modifyHead_cons] at ha
    rcases List.mem_cons.mp ha with rfl | ha
    · exact (hf b).trans (h b (by simp [hl]))
    · exact h a (by simp [hl, ha])

private theorem untouched_enter {c : Call β} (n : ℕ) (h : c.Untouched) :
    (c.enter n).1.Untouched := by
  rcases c.enter_attempts n with he | he
  · intro a ha
    rcases List.mem_cons.mp (he ▸ ha) with rfl | ha
    · rfl
    · exact h a ha
  · exact untouched_congr h he

private theorem untouched_tryCommit {c : Call β} (n : ℕ) (value : β) (h : c.Untouched) :
    (c.tryCommit n value).1.Untouched := by
  unfold tryCommit
  split
  · exact untouched_mark (fun a => { a with commits := a.commits + 1 }) h (fun _ => rfl) rfl
  · exact untouched_enter _ h

/-- A call stays untouched until its body has ended. -/
theorem Untouched.next {c c' : Call β} {x : Event β} (h : c.Untouched) (hx : c.next x = some c')
    (hbody : x.endsBody = false) : c'.Untouched := by
  obtain ⟨r, hstep, rfl⟩ : ∃ r, Stepped c x r ∧ c' = r.1 := by
    obtain ⟨rs, hstep⟩ := next_cases hx
    exact ⟨_, hstep, rfl⟩
  cases hstep with
  | sessionStarts => exact untouched_enter 1 h
  | sessionFails => exact untouched_congr h rfl
  | transactionStarts => exact untouched_mark (fun a => { a with ran := true }) h (fun _ => rfl) rfl
  | transactionFails => exact untouched_congr h (abortIfActive_attempts _ _ _)
  | bodyEnds => cases hbody
  | bodyReturns hph value =>
    split
    · exact untouched_tryCommit 1 value h
    · exact untouched_congr h rfl
  | bodyThrows => exact untouched_congr h (abortIfActive_attempts _ _ _)
  | aborts => exact untouched_congr h (afterAbort_attempts _ _ _ _)
  | abortFails => exact untouched_congr h (afterAbort_attempts _ _ _ _)
  | waits => exact untouched_enter _ h
  | recommits => exact untouched_tryCommit _ _ h
  | commits => exact untouched_mark (fun a => { a with committed := true }) h (fun _ => rfl) rfl
  | commitFails hph error effect inTransaction =>
    exact untouched_mark (fun a => { a with committed := a.committed || effect }) h (fun _ => rfl)
      (commitFailed_attempts _ _ _)
  | sessionEnds => exact untouched_congr h rfl

/-- A clean call that resolves is committed, unless its body has ended the transaction. -/
theorem committed_of_resolved {c : Call β} {value : β} (hclean : Clean c) (h : c.Untouched)
    (hp : c.phase = .settled (.resolved value)) : c.latest.committed = true := by
  have hphase := hclean.phase
  rw [hp] at hphase
  obtain ⟨hne, hcommitted | hended⟩ := hphase
  · exact hcommitted
  · have hmem : c.latest ∈ c.attempts := by
      simp only [latest]
      cases hl : c.attempts with
      | nil => exact absurd hl hne
      | cons a l => simp
    exact absurd (hended.symm.trans (h _ hmem)) (by decide)

/-- A clean call that rejects with a definite error is not committed. -/
theorem committed_of_rejected {c : Call β} {error : Thrown} (hclean : Clean c)
    (hp : c.phase = .settled (.rejected error)) (he : error.ambiguous = false) :
    c.latest.committed = false := by
  have hphase := hclean.phase
  rw [hp] at hphase
  cases hl : c.latest.committed with
  | false => rfl
  | true => exact absurd (he.symm.trans (hphase hl)) (by decide)

end Call

end Ascendance.UnitOfWork
