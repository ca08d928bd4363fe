import Mathlib.Data.Finset.Card
import Mathlib.Data.Finset.SDiff

/-!
# Collecting by rounds

A search collects what is found from a frontier and goes on from what is new. When
everything that can be found lies in a finite set, the search ends and what it has
collected is closed.
-/

namespace Ascendance.Core

variable {α : Type*} [DecidableEq α]

/-- The rounds of a search, at most as many as there is fuel. -/
def collect (found : Finset α → Finset α) : ℕ → Finset α → Finset α → Finset α
  | 0, _, collected => collected
  | fuel + 1, frontier, collected =>
    let next := found frontier \ collected
    if next = ∅ then collected else collect found fuel next (collected ∪ next)

variable {found : Finset α → Finset α} {bound : Finset α}

/-- What is found beside the frontier's finds has been collected already. -/
def Collecting (found : Finset α → Finset α) (frontier collected : Finset α) : Prop :=
  found collected ⊆ collected ∪ found frontier

/-- A round keeps the account. -/
theorem Collecting.round (hunion : ∀ s t, found (s ∪ t) ⊆ found s ∪ found t)
    {frontier collected : Finset α} (h : Collecting found frontier collected) :
    Collecting found (found frontier \ collected) (collected ∪ (found frontier \ collected)) := by
  intro x hx
  rcases Finset.mem_union.mp (hunion _ _ hx) with hx | hx
  · refine Finset.mem_union_left _ ?_
    rw [Finset.union_sdiff_self_eq_union]
    exact h hx
  · exact Finset.mem_union_right _ hx

/-- What a round finds is not left for later. -/
theorem card_round (hbound : ∀ s, found s ⊆ bound) {frontier collected : Finset α} {fuel : ℕ}
    (hnext : found frontier \ collected ≠ ∅) (hfuel : (bound \ collected).card < fuel + 1) :
    (bound \ (collected ∪ (found frontier \ collected))).card < fuel := by
  obtain ⟨x, hx⟩ := Finset.nonempty_iff_ne_empty.mpr hnext
  have hless : (bound \ (collected ∪ (found frontier \ collected))).card <
      (bound \ collected).card := by
    apply Finset.card_lt_card
    refine Finset.ssubset_iff_of_subset (Finset.sdiff_subset_sdiff subset_rfl
      Finset.subset_union_left) |>.mpr ⟨x, ?_, ?_⟩
    · obtain ⟨hfound, hnot⟩ := Finset.mem_sdiff.mp hx
      exact Finset.mem_sdiff.mpr ⟨hbound _ hfound, hnot⟩
    · rw [Finset.mem_sdiff, not_and_not_right]
      exact fun _ => Finset.mem_union_right _ hx
  omega

/-- A search with enough fuel collects what its frontier finds and what that finds in turn. -/
theorem collect_closed (hbound : ∀ s, found s ⊆ bound)
    (hunion : ∀ s t, found (s ∪ t) ⊆ found s ∪ found t) {fuel : ℕ} {frontier collected : Finset α}
    (hfuel : (bound \ collected).card < fuel) (h : Collecting found frontier collected) :
    collected ∪ found frontier ⊆ collect found fuel frontier collected ∧
      found (collect found fuel frontier collected) ⊆ collect found fuel frontier collected := by
  induction fuel generalizing frontier collected with
  | zero => omega
  | succ fuel ih =>
    simp only [collect]
    split
    · next hnext =>
      have hsub : found frontier ⊆ collected := Finset.sdiff_eq_empty_iff_subset.mp hnext
      have hall : collected ∪ found frontier ⊆ collected := Finset.union_subset subset_rfl hsub
      exact ⟨hall, h.trans hall⟩
    · next hnext =>
      obtain ⟨hsub, hclosed⟩ := ih (card_round hbound hnext hfuel) (h.round hunion)
      refine ⟨?_, hclosed⟩
      rw [← Finset.union_sdiff_self_eq_union]
      exact Finset.subset_union_left.trans hsub

/-- Nothing else is collected. -/
theorem collect_subset (hbound : ∀ s, found s ⊆ bound) (fuel : ℕ) (frontier collected : Finset α) :
    collect found fuel frontier collected ⊆ collected ∪ bound := by
  induction fuel generalizing frontier collected with
  | zero => exact Finset.subset_union_left
  | succ fuel ih =>
    simp only [collect]
    split
    · exact Finset.subset_union_left
    · refine (ih _ _).trans ?_
      rw [Finset.union_assoc]
      exact Finset.union_subset_union subset_rfl
        (Finset.union_subset (Finset.sdiff_subset.trans (hbound _)) subset_rfl)

/-- What holds of everything that is found from what it holds of holds of all that is collected. -/
theorem collect_induct {P : α → Prop} (hfound : ∀ s : Finset α, (∀ x ∈ s, P x) → ∀ y ∈ found s, P y)
    (fuel : ℕ) {frontier collected : Finset α} (hfrontier : ∀ x ∈ frontier, P x)
    (hcollected : ∀ x ∈ collected, P x) : ∀ x ∈ collect found fuel frontier collected, P x := by
  induction fuel generalizing frontier collected with
  | zero => exact hcollected
  | succ fuel ih =>
    have hnext : ∀ x ∈ found frontier \ collected, P x := fun x hx =>
      hfound frontier hfrontier x (Finset.mem_sdiff.mp hx).1
    simp only [collect]
    split
    · exact hcollected
    · refine ih hnext fun x hx => ?_
      exact (Finset.mem_union.mp hx).elim (hcollected x) (hnext x)

/-- A search that had enough fuel ends the same with more. -/
theorem collect_stable (hbound : ∀ s, found s ⊆ bound) {fuel fuel' : ℕ}
    {frontier collected : Finset α} (hfuel : (bound \ collected).card < fuel) (hle : fuel ≤ fuel') :
    collect found fuel' frontier collected = collect found fuel frontier collected := by
  induction fuel generalizing fuel' frontier collected with
  | zero => omega
  | succ fuel ih =>
    obtain ⟨fuel', rfl⟩ := Nat.exists_eq_add_of_le' (Nat.le_trans (Nat.le_add_left 1 fuel) hle)
    simp only [collect]
    split
    · rfl
    · next hnext => exact ih (card_round hbound hnext hfuel) (by omega)

end Ascendance.Core
