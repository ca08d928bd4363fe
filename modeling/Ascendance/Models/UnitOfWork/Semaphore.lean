import Mathlib.Data.List.Nodup
import Mathlib.Data.Rat.Defs

/-!
# The transaction semaphore

Free permits and a queue of waiters in the order of arrival. A timer that fires
takes its waiter out of the queue; a release hands the permit to the first
waiter that is not settled, and frees it when there is none.
-/

namespace Ascendance.UnitOfWork

/-- A waiter in the queue. -/
structure SemaphoreWaiter (ι : Type) where
  /-- The caller that awaits the waiter's promise. -/
  id : ι
  settled : Bool
  /-- A timer is pending for the waiter. -/
  timer : Bool
  deriving DecidableEq, Repr

/-- The semaphore of one process. -/
structure TransactionSemaphore (ι : Type) where
  permits : Nat
  waiting : List (SemaphoreWaiter ι)
  deriving DecidableEq, Repr

namespace TransactionSemaphore

variable {ι : Type}

/-- `acquire`: take a free permit, or join the queue; true when a permit was taken. -/
def acquire (s : TransactionSemaphore ι) (id : ι) (timeoutMs : Option ℚ) :
    TransactionSemaphore ι × Bool :=
  if 0 < s.permits then ({ s with permits := s.permits - 1 }, true)
  else ({ s with waiting := s.waiting ++ [⟨id, false, timeoutMs.isSome⟩] }, false)

/-- The timer of a waiter fires; true when the waiter was rejected. -/
def timerFires [DecidableEq ι] (s : TransactionSemaphore ι) (id : ι) :
    TransactionSemaphore ι × Bool :=
  if s.waiting.any fun w => w.id == id && !w.settled && w.timer then
    ({ s with waiting := s.waiting.eraseP (·.id = id) }, true)
  else (s, false)

/-- The loop of `release`: settled waiters are passed over. -/
def shiftWaiter : List (SemaphoreWaiter ι) → List (SemaphoreWaiter ι) × Option ι
  | [] => ([], none)
  | w :: rest => if w.settled then shiftWaiter rest else (rest, some w.id)

/-- `release`: hand the permit to a waiter, or free it. -/
def release (s : TransactionSemaphore ι) : TransactionSemaphore ι × Option ι :=
  match shiftWaiter s.waiting with
  | (rest, some id) => ({ s with waiting := rest }, some id)
  | (rest, none) => (⟨s.permits + 1, rest⟩, none)

/-- Waiters are distinct and none of them is settled, and there is a queue only while no
permit is free. -/
structure Ready (s : TransactionSemaphore ι) : Prop where
  distinct : (s.waiting.map (·.id)).Nodup
  pending : ∀ w ∈ s.waiting, w.settled = false
  exhausted : s.waiting ≠ [] → s.permits = 0

/-- What `acquire` does. -/
theorem acquire_cases (s : TransactionSemaphore ι) (id : ι) (timeoutMs : Option ℚ) :
    (∃ n, s.permits = n + 1 ∧ s.acquire id timeoutMs = (⟨n, s.waiting⟩, true)) ∨
      (s.permits = 0 ∧ s.acquire id timeoutMs =
        (⟨0, s.waiting ++ [⟨id, false, timeoutMs.isSome⟩]⟩, false)) := by
  unfold acquire
  cases hp : s.permits with
  | zero =>
    right
    rw [if_neg (by omega)]
    exact ⟨rfl, by rw [← hp]⟩
  | succ n =>
    left
    rw [if_pos (by omega)]
    exact ⟨n, rfl, rfl⟩

/-- A semaphore that is ready hands a released permit to the first waiter. -/
theorem release_cases {s : TransactionSemaphore ι} (h : s.Ready) :
    (∃ w rest, s.waiting = w :: rest ∧ s.release = (⟨s.permits, rest⟩, some w.id)) ∨
      (s.waiting = [] ∧ s.release = (⟨s.permits + 1, []⟩, none)) := by
  unfold release
  cases hw : s.waiting with
  | nil => exact Or.inr ⟨rfl, rfl⟩
  | cons w rest =>
    have hs := h.pending w (by simp [hw])
    exact Or.inl ⟨w, rest, rfl, by simp [shiftWaiter, hs]⟩

/-- The queue without the waiter whose timer fired. -/
theorem timerFires_cases [DecidableEq ι] (s : TransactionSemaphore ι) (id : ι) :
    (id ∈ s.waiting.map (·.id) ∧
      s.timerFires id = (⟨s.permits, s.waiting.eraseP (·.id = id)⟩, true)) ∨
      s.timerFires id = (s, false) := by
  unfold timerFires
  split
  · next h =>
    obtain ⟨w, hw, hid⟩ := List.any_eq_true.mp h
    simp only [Bool.and_eq_true, beq_iff_eq] at hid
    exact Or.inl ⟨List.mem_map.mpr ⟨w, hw, hid.1.1⟩, rfl⟩
  · exact Or.inr rfl

/-- A waiting call may be appended when no permit is free. -/
theorem Ready.append {s : TransactionSemaphore ι} (h : s.Ready) {id : ι}
    (hid : id ∉ s.waiting.map (·.id)) (timer : Bool) :
    Ready ⟨0, s.waiting ++ [⟨id, false, timer⟩]⟩ := by
  refine ⟨?_, ?_, fun _ => rfl⟩
  · rw [List.map_append, List.map_singleton, List.nodup_append]
    refine ⟨h.distinct, List.nodup_singleton _, ?_⟩
    rintro a ha b hb hab
    have hb : b = id := List.mem_singleton.mp hb
    exact hid (hb ▸ hab ▸ ha)
  · intro w hw
    rcases List.mem_append.mp hw with hw | hw
    · exact h.pending w hw
    · rw [List.mem_singleton.mp hw]

/-- The first of the waiting calls may be taken out. -/
theorem Ready.tail {s : TransactionSemaphore ι} (h : s.Ready) {w : SemaphoreWaiter ι}
    {rest : List (SemaphoreWaiter ι)} (hw : s.waiting = w :: rest) :
    Ready ⟨s.permits, rest⟩ ∧ w.id ∉ rest.map (·.id) := by
  have hd := h.distinct
  rw [hw, List.map_cons, List.nodup_cons] at hd
  refine ⟨⟨hd.2, fun v hv => h.pending v (by simp [hw, hv]), fun _ => h.exhausted (by simp [hw])⟩,
    hd.1⟩

/-- Any of the waiting calls may be taken out. -/
theorem Ready.erase [DecidableEq ι] {s : TransactionSemaphore ι} (h : s.Ready) (id : ι) :
    Ready ⟨s.permits, s.waiting.eraseP (·.id = id)⟩ := by
  refine ⟨?_, fun w hw => h.pending w (List.mem_of_mem_eraseP hw), fun hne => h.exhausted ?_⟩
  · exact h.distinct.sublist (List.eraseP_sublist.map _)
  · rintro hn
    simp [hn] at hne

/-- Taking a call out takes its identifier out. -/
theorem map_eraseP_id [DecidableEq ι] (waiting : List (SemaphoreWaiter ι)) (id : ι) :
    (waiting.eraseP (·.id = id)).map (·.id) = (waiting.map (·.id)).erase id := by
  rw [List.erase_eq_eraseP, List.eraseP_map]
  congr 2
  ext w
  simp only [Function.comp_apply, beq_eq_decide, eq_comm]

/-- The waiters that stay when one of them is taken out. -/
theorem Ready.mem_erase [DecidableEq ι] {s : TransactionSemaphore ι} (h : s.Ready) (id j : ι) :
    j ∈ (s.waiting.eraseP (·.id = id)).map (·.id) ↔ j ∈ s.waiting.map (·.id) ∧ j ≠ id := by
  rw [map_eraseP_id, h.distinct.mem_erase_iff, and_comm]

end TransactionSemaphore

end Ascendance.UnitOfWork
