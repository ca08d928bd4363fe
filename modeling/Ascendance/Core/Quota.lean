import Mathlib.Algebra.BigOperators.Field
import Mathlib.Algebra.Order.Field.Basic
import Mathlib.Algebra.Order.BigOperators.Group.Finset
import Mathlib.Tactic.Linarith
import Mathlib.Tactic.Ring

/-!
# Serving the largest deficit

Several kinds are served in turn, each according to its share of the total. The deficit
of a kind is what its share entitles it to, less what it was served. A scheduler that
always serves a kind with the largest deficit keeps every deficit within bounds that
depend on the number of kinds only.
-/

namespace Ascendance.Core.Quota

/-- One more turn for a kind. -/
def serve {ι : Type*} [DecidableEq ι] (taken : ι → ℕ) (j : ι) : ι → ℕ :=
  Function.update taken j (taken j + 1)

section Serve

variable {ι : Type*} [DecidableEq ι]

@[simp] theorem serve_self (taken : ι → ℕ) (j : ι) : serve taken j j = taken j + 1 :=
  Function.update_self ..

/-- Serving one group leaves the others alone. -/
theorem serve_of_ne (taken : ι → ℕ) {i j : ι} (h : i ≠ j) : serve taken j i = taken i :=
  Function.update_of_ne h ..

/-- Each serving adds one to the total. -/
theorem sum_serve [Fintype ι] (taken : ι → ℕ) (j : ι) :
    ∑ i, serve taken j i = ∑ i, taken i + 1 := by
  have hrest : ∑ i ∈ Finset.univ.erase j, serve taken j i = ∑ i ∈ Finset.univ.erase j, taken i :=
    Finset.sum_congr rfl fun i hi => serve_of_ne taken (Finset.ne_of_mem_erase hi)
  rw [← Finset.add_sum_erase _ _ (Finset.mem_univ j), hrest, serve_self,
    ← Finset.add_sum_erase _ taken (Finset.mem_univ j)]
  omega

end Serve

variable {ι K : Type*} [Field K]

/-- What a kind is entitled to after so many turns, less what it was served. -/
def deficit (share : ι → K) (taken : ι → ℕ) (turns : ℕ) (i : ι) : K :=
  turns * share i - taken i

/-- The deficits of shares that sum to one sum to the turns not taken. -/
private theorem sum_deficit [Fintype ι] {share : ι → K} (hshare : ∑ i, share i = 1) (taken : ι → ℕ)
    (turns : ℕ) : ∑ i, deficit share taken turns i = turns - (∑ i, taken i : ℕ) := by
  simp only [deficit]
  rw [Finset.sum_sub_distrib, ← Finset.mul_sum, hshare, mul_one, Nat.cast_sum]

variable [LinearOrder K]

/-- The kind has the largest deficit when the next turn begins. -/
def Largest (share : ι → K) (taken : ι → ℕ) (turns : ℕ) (j : ι) : Prop :=
  ∀ i, deficit share taken (turns + 1) i ≤ deficit share taken (turns + 1) j

variable [Fintype ι]

/-- Every turn so far went to some kind, and no kind was served much more than its share. -/
structure Balanced (share : ι → K) (taken : ι → ℕ) (turns : ℕ) : Prop where
  sum_taken : ∑ i, taken i = turns
  le_deficit : ∀ i, 1 / (Fintype.card ι : K) - 1 ≤ deficit share taken turns i

variable [IsStrictOrderedRing K]

/-- At the start every share is balanced. -/
theorem balanced_zero {share : ι → K} (hshare : ∑ i, share i = 1) :
    Balanced share (fun _ => 0) 0 := by
  have hcard : Fintype.card ι ≠ 0 := by
    intro h
    have hempty := Fintype.card_eq_zero_iff.mp h
    rw [Finset.univ_eq_empty, Finset.sum_empty] at hshare
    exact zero_ne_one hshare
  refine ⟨Finset.sum_const_zero, fun i => ?_⟩
  have hone : (1 : K) ≤ Fintype.card ι := by exact_mod_cast Nat.one_le_iff_ne_zero.mpr hcard
  have hle : 1 / (Fintype.card ι : K) ≤ 1 := (div_le_one (by linarith)).mpr hone
  simp only [deficit, Nat.cast_zero, zero_mul, sub_zero]
  linarith

/-- The largest deficit is at least the mean of all. -/
theorem Balanced.mean_le {share : ι → K} {taken : ι → ℕ} {turns : ℕ} {j : ι}
    (h : Balanced share taken turns) (hshare : ∑ i, share i = 1)
    (hj : Largest share taken turns j) :
    1 / (Fintype.card ι : K) ≤ deficit share taken (turns + 1) j := by
  have hcard : (0 : K) < Fintype.card ι := by
    exact_mod_cast Fintype.card_pos_iff.mpr ⟨j⟩
  have hsum : ∑ i, deficit share taken (turns + 1) i = 1 := by
    rw [sum_deficit hshare, h.sum_taken]
    push_cast
    ring
  have hle : ∑ i, deficit share taken (turns + 1) i ≤
      ∑ _i : ι, deficit share taken (turns + 1) j := Finset.sum_le_sum fun i _ => hj i
  rw [hsum, Finset.sum_const, Finset.card_univ, nsmul_eq_mul] at hle
  exact (div_le_iff₀' hcard).mpr hle

/-- One turn: serving the largest deficit keeps the balance. -/
theorem Balanced.serve [DecidableEq ι] {share : ι → K} {taken : ι → ℕ} {turns : ℕ} {j : ι}
    (h : Balanced share taken turns) (hshare : ∑ i, share i = 1) (hnonneg : ∀ i, 0 ≤ share i)
    (hj : Largest share taken turns j) : Balanced share (serve taken j) (turns + 1) := by
  refine ⟨by rw [sum_serve, h.sum_taken], fun i => ?_⟩
  by_cases hij : i = j
  · subst hij
    have hmean := h.mean_le hshare hj
    simp only [deficit, serve_self] at hmean ⊢
    push_cast at hmean ⊢
    linarith
  · have hbefore := h.le_deficit i
    have hentitled := hnonneg i
    simp only [deficit, serve_of_ne taken hij] at hbefore ⊢
    push_cast at hbefore ⊢
    linarith

/-- What the others were not served too much, no kind was served too little. -/
theorem Balanced.deficit_le {share : ι → K} {taken : ι → ℕ} {turns : ℕ}
    (h : Balanced share taken turns) (hshare : ∑ i, share i = 1) (i : ι) :
    deficit share taken turns i ≤
      ((Fintype.card ι : K) - 1) * (1 - 1 / (Fintype.card ι : K)) := by
  classical
  have hsum := sum_deficit hshare taken turns
  rw [h.sum_taken, sub_self, ← Finset.add_sum_erase _ _ (Finset.mem_univ i)] at hsum
  have hothers : ∑ _j ∈ Finset.univ.erase i, (1 / (Fintype.card ι : K) - 1) ≤
      ∑ j ∈ Finset.univ.erase i, deficit share taken turns j :=
    Finset.sum_le_sum fun j _ => h.le_deficit j
  have hcard : ((Finset.univ.erase i).card : K) = Fintype.card ι - 1 := by
    rw [Finset.card_erase_of_mem (Finset.mem_univ i), Finset.card_univ,
      Nat.cast_sub (Fintype.card_pos_iff.mpr ⟨i⟩), Nat.cast_one]
  rw [Finset.sum_const, nsmul_eq_mul, hcard] at hothers
  have hneg : ((Fintype.card ι : K) - 1) * (1 - 1 / (Fintype.card ι : K)) =
      -(((Fintype.card ι : K) - 1) * (1 / (Fintype.card ι : K) - 1)) := by ring
  rw [hneg]
  linarith

end Ascendance.Core.Quota
