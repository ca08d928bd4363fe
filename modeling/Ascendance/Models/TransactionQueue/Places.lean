import Ascendance.Models.TransactionQueue.Queue
import Mathlib.Data.List.Nodup

/-!
# Where a job is

A job is in the queue of a priority, in the hands of a loop, or among the jobs
that were processed or that failed. The places are a function of the enqueued
jobs; a step that takes a job from one place to another changes it at one job.
-/

namespace Ascendance.TransactionQueue

/-- Where a job can be. -/
inductive Location
  | queue (priority : TransactionPriority)
  | hands (client : ℕ)
  | processed
  | failed
  deriving DecidableEq, Repr

/-- The identifiers of jobs. -/
def ids (jobs : List QueuedJob) : List ℕ := jobs.map (·.id)

/-- An identifier belongs to one of the jobs. -/
theorem mem_ids {jobs : List QueuedJob} {j : ℕ} : j ∈ ids jobs ↔ ∃ job ∈ jobs, job.id = j :=
  List.mem_map

/-- The identifiers of two lists of jobs. -/
theorem ids_append (jobs jobs' : List QueuedJob) : ids (jobs ++ jobs') = ids jobs ++ ids jobs' :=
  List.map_append

/-- Of distinct jobs, taking the last one away leaves the others. -/
theorem mem_ids_dropLast {jobs : List QueuedJob} {job : QueuedJob}
    (hlast : jobs.getLast? = some job)
    (hnodup : (ids jobs).Nodup) (j : ℕ) :
    j ∈ ids jobs.dropLast ↔ j ≠ job.id ∧ j ∈ ids jobs := by
  have hsplit : jobs.dropLast ++ [job] = jobs := List.dropLast_append_getLast? job hlast
  have hids : ids jobs = ids jobs.dropLast ++ [job.id] := by
    rw [← hsplit, ids_append, hsplit]
    rfl
  rw [hids] at hnodup ⊢
  have hnot : job.id ∉ ids jobs.dropLast := by
    intro hmem
    exact (List.nodup_append.mp hnodup).2.2 _ hmem _ (List.mem_singleton.mpr rfl) rfl
  rw [List.mem_append, List.mem_singleton]
  constructor
  · intro h
    exact ⟨fun he => hnot (he ▸ h), .inl h⟩
  · rintro ⟨hne, h | h⟩
    · exact h
    · exact absurd h hne

namespace World

/-- The job with an identifier is at a place. -/
def At (w : World) (j : ℕ) : Location → Prop
  | .queue p => j ∈ ids (w.queues p)
  | .hands c => (w.loops c).job.map (·.id) = some j
  | .processed => j ∈ ids w.processed
  | .failed => j ∈ ids w.failed

/-- Each enqueued job has one place, and nothing else has any. -/
def Placed (w : World) : Prop :=
  ∃ place : ℕ → Location, ∀ j l, w.At j l ↔ j < w.enqueued.length ∧ place j = l

variable {w w' : World}

/-- A job is in one place. -/
theorem Placed.unique (h : w.Placed) {j : ℕ} {l l' : Location} (hl : w.At j l)
    (hl' : w.At j l') : l = l' := by
  obtain ⟨place, hplace⟩ := h
  exact ((hplace j l).mp hl).2.symm.trans ((hplace j l').mp hl').2

/-- A job that is somewhere has been enqueued. -/
theorem Placed.lt (h : w.Placed) {j : ℕ} {l : Location} (hl : w.At j l) :
    j < w.enqueued.length := by
  obtain ⟨place, hplace⟩ := h
  exact ((hplace j l).mp hl).1

/-- Every enqueued job is in exactly one place. -/
theorem Placed.existsUnique (h : w.Placed) {j : ℕ} (hj : j < w.enqueued.length) :
    ∃! l, w.At j l := by
  obtain ⟨place, hplace⟩ := h
  refine ⟨place j, (hplace j _).mpr ⟨hj, rfl⟩, fun l hl => ((hplace j l).mp hl).2.symm⟩

/-- Nothing moves. -/
theorem Placed.same (h : w.Placed) (hat : ∀ j l, w'.At j l ↔ w.At j l)
    (hlen : w'.enqueued.length = w.enqueued.length) : w'.Placed := by
  obtain ⟨place, hplace⟩ := h
  refine ⟨place, fun j l => ?_⟩
  rw [hat, hlen]
  exact hplace j l

/-- One job moves from a place to another. -/
theorem Placed.move (h : w.Placed) {j₀ : ℕ} {l₀ l₁ : Location} (hfrom : w.At j₀ l₀)
    (hsource : ∀ j, w'.At j l₀ ↔ j ≠ j₀ ∧ w.At j l₀)
    (hdest : ∀ j, w'.At j l₁ ↔ j = j₀ ∨ w.At j l₁)
    (hother : ∀ j l, l ≠ l₀ → l ≠ l₁ → (w'.At j l ↔ w.At j l))
    (hlen : w'.enqueued.length = w.enqueued.length) : w'.Placed := by
  have hlt := h.lt hfrom
  have huniq : ∀ l, w.At j₀ l → l = l₀ := fun l hl => h.unique hl hfrom
  obtain ⟨place, hplace⟩ := h
  refine ⟨Function.update place j₀ l₁, fun j l => ?_⟩
  rw [hlen]
  by_cases hj : j = j₀
  · subst hj
    rw [Function.update_self]
    constructor
    · intro hat
      refine ⟨hlt, ?_⟩
      by_contra hl
      by_cases hl₀ : l = l₀
      · exact ((hsource j).mp (hl₀ ▸ hat)).1 rfl
      · exact hl₀ (huniq l ((hother j l hl₀ (Ne.symm hl)).mp hat))
    · rintro ⟨-, rfl⟩
      exact (hdest j).mpr (.inl rfl)
  · rw [Function.update_of_ne hj, ← hplace]
    by_cases hl₀ : l = l₀
    · rw [hl₀, hsource]
      exact and_iff_right hj
    · by_cases hl₁ : l = l₁
      · rw [hl₁, hdest]
        exact or_iff_right hj
      · exact hother j l hl₀ hl₁

/-- A new job takes the next identifier. -/
theorem Placed.add (h : w.Placed) {l₁ : Location}
    (hdest : ∀ j, w'.At j l₁ ↔ j = w.enqueued.length ∨ w.At j l₁)
    (hother : ∀ j l, l ≠ l₁ → (w'.At j l ↔ w.At j l))
    (hlen : w'.enqueued.length = w.enqueued.length + 1) : w'.Placed := by
  have hlt : ∀ {j l}, w.At j l → j < w.enqueued.length := fun hl => h.lt hl
  obtain ⟨place, hplace⟩ := h
  refine ⟨Function.update place w.enqueued.length l₁, fun j l => ?_⟩
  rw [hlen]
  by_cases hj : j = w.enqueued.length
  · subst hj
    rw [Function.update_self]
    constructor
    · intro hat
      refine ⟨Nat.lt_succ_self _, ?_⟩
      by_contra hl
      exact absurd (hlt ((hother _ l (Ne.symm hl)).mp hat)) (Nat.lt_irrefl _)
    · rintro ⟨-, rfl⟩
      exact (hdest _).mpr (.inl rfl)
  · have hsucc : j < w.enqueued.length + 1 ↔ j < w.enqueued.length := by omega
    rw [Function.update_of_ne hj, hsucc, ← hplace]
    by_cases hl : l = l₁
    · rw [hl, hdest]
      exact or_iff_right hj
    · exact hother j l hl

section Places

variable (w : World) (c : ℕ) (l : Loop)

/-- What a loop has in its hands after it has changed its stage. -/
theorem at_setLoop_hands (j d : ℕ) :
    (w.setLoop c l).At j (.hands d) ↔
      if d = c then l.job.map (·.id) = some j else w.At j (.hands d) := by
  simp only [At, setLoop]
  split
  · next h => rw [h, Function.update_self]
  · next h => rw [Function.update_of_ne h]

/-- A loop has its job in its hands. -/
theorem at_hands {j : ℕ} {job : QueuedJob} (hjob : (w.loops c).job = some job) :
    w.At j (.hands c) ↔ j = job.id := by
  simp only [At, hjob, Option.map_some, Option.some.injEq]
  exact eq_comm

/-- A loop without a job has none in its hands. -/
theorem not_at_hands {j : ℕ} (hjob : (w.loops c).job = none) : ¬ w.At j (.hands c) := by
  simp only [At, hjob, Option.map_none, reduceCtorEq, not_false_eq_true]

/-- A loop that takes a job. -/
theorem at_setLoop_takes {job : QueuedJob} (hjob : l.job = some job) (j : ℕ) :
    (w.setLoop c l).At j (.hands c) ↔ j = job.id := by
  refine at_hands _ _ ?_
  simp only [setLoop, Function.update_self, hjob]

/-- A loop that gives its job away. -/
theorem not_at_setLoop (hjob : l.job = none) (j : ℕ) : ¬ (w.setLoop c l).At j (.hands c) := by
  refine not_at_hands _ _ ?_
  simp only [setLoop, Function.update_self, hjob]

/-- A loop whose job stays the same moves nothing. -/
theorem at_setLoop_same (hjob : l.job.map (·.id) = (w.loops c).job.map (·.id)) (j : ℕ)
    (loc : Location) : (w.setLoop c l).At j loc ↔ w.At j loc := by
  cases loc with
  | queue p => rfl
  | hands d =>
    rw [at_setLoop_hands]
    split
    · next h => rw [hjob, h, At]
    · rfl
  | processed => rfl
  | failed => rfl

end Places

end World

end Ascendance.TransactionQueue
