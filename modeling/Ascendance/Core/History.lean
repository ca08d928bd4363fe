import Mathlib.Data.List.Basic

/-!
# Histories whose entries are justified

A history is a list of what has happened, the latest last. Each entry may need something to have
happened before it.
-/

namespace Ascendance.Core

variable {α : Type*} {J : List α → α → Prop} {history : List α} {a : α}

/-- Every entry is justified by the entries before it. -/
def Justified (J : List α → α → Prop) (history : List α) : Prop :=
  ∀ before a after, history = before ++ a :: after → J before a

/-- The empty history is justified. -/
theorem justified_nil : Justified J [] := by
  intro before a after h
  simp at h

/-- A justified action extends a justified history. -/
theorem Justified.concat (h : Justified J history) (ha : J history a) :
    Justified J (history ++ [a]) := by
  intro before b after heq
  rcases List.eq_nil_or_concat after with rfl | ⟨rest, c, rfl⟩
  · obtain ⟨rfl, hb⟩ := List.append_inj' heq rfl
    obtain rfl := List.singleton_inj.mp hb
    exact ha
  · have hsplit : history ++ [a] = (before ++ b :: rest) ++ [c] := by
      rw [heq, List.append_assoc, List.cons_append, List.concat_eq_append]
    exact h before b rest (List.append_inj' hsplit rfl).1

/-- What has happened is part of the history at every later time. -/
theorem exists_between_of_mem {before after : List α} {b c : α}
    (h : history = before ++ b :: after) (hc : c ∈ after) :
    ∃ between rest, history = before ++ b :: between ++ c :: rest := by
  obtain ⟨between, rest, rfl⟩ := List.append_of_mem hc
  exact ⟨between, rest, by rw [h, List.append_assoc, List.cons_append]⟩

end Ascendance.Core
