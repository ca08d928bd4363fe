import Mathlib.Data.List.Basic

/-!
# Lists

How an element is found in a list that was cut at a separator, extended, or changed
in one place.
-/

namespace Ascendance.Core

variable {α β : Type*}

/-- Two lists cut at their first separator agree on both sides. -/
theorem append_cons_inj {a : α} {l l' d d' : List α} (hl : a ∉ l) (hl' : a ∉ l')
    (h : l ++ a :: d = l' ++ a :: d') : l = l' ∧ d = d' := by
  rcases List.append_eq_append_iff.mp h with ⟨m, rfl, hm⟩ | ⟨m, rfl, hm⟩
  · cases m with
    | nil =>
      rw [List.append_nil]
      exact ⟨rfl, (List.cons.inj hm).2⟩
    | cons b m =>
      obtain ⟨rfl, -⟩ := List.cons.inj hm
      exact absurd (List.mem_append_right l List.mem_cons_self) hl'
  · cases m with
    | nil =>
      rw [List.append_nil]
      exact ⟨rfl, (List.cons.inj hm).2.symm⟩
    | cons b m =>
      obtain ⟨rfl, -⟩ := List.cons.inj hm
      exact absurd (List.mem_append_right l' List.mem_cons_self) hl

/-- Two lists cut at their last separator agree on both sides. -/
theorem append_cons_inj_last {a : α} {l l' d d' : List α} (hd : a ∉ d) (hd' : a ∉ d')
    (h : l ++ a :: d = l' ++ a :: d') : l = l' ∧ d = d' := by
  have hreverse : d.reverse ++ a :: l.reverse = d'.reverse ++ a :: l'.reverse := by
    simpa using congrArg List.reverse h
  obtain ⟨hright, hleft⟩ := append_cons_inj (by rwa [List.mem_reverse])
    (by rwa [List.mem_reverse]) hreverse
  exact ⟨List.reverse_injective hleft, List.reverse_injective hright⟩

/-- What a lookup finds is an entry. -/
theorem mem_of_lookup [BEq α] [LawfulBEq α] {key : α} {value : β} {entries : List (α × β)}
    (h : entries.lookup key = some value) : (key, value) ∈ entries := by
  obtain ⟨before, after, rfl, -⟩ := List.lookup_eq_some_iff.mp h
  exact List.mem_append_right before List.mem_cons_self

/-- An element of a list is at its place in an extended list. -/
theorem getElem?_append_of_some {l : List α} {i : ℕ} {a : α} (h : l[i]? = some a)
    (l' : List α) : (l ++ l')[i]? = some a := by
  rw [List.getElem?_append_left (List.getElem?_eq_some_iff.mp h).1]
  exact h

/-- An element of a list with one more is an old one or the last. -/
theorem getElem?_concat_cases {l : List α} {a b : α} {i : ℕ} (h : (l ++ [a])[i]? = some b) :
    l[i]? = some b ∨ i = l.length ∧ b = a := by
  rw [List.getElem?_append] at h
  split at h
  · exact .inl h
  · next hlen =>
    obtain ⟨hlt, hb⟩ := List.getElem?_eq_some_iff.mp h
    rw [List.length_singleton] at hlt
    have hi : i = l.length := by omega
    subst hi
    exact .inr ⟨rfl, by simpa using hb.symm⟩

/-- What stands in a list after a change was put there or stood there before. -/
theorem getElem?_set_cases {l : List α} {i n : ℕ} {a b : α} (h : (l.set n a)[i]? = some b) :
    i = n ∧ b = a ∨ i ≠ n ∧ l[i]? = some b := by
  rw [List.getElem?_set] at h
  split at h
  · next heq =>
    split at h
    · exact .inl ⟨heq.symm, (Option.some.inj h).symm⟩
    · cases h
  · next hne => exact .inr ⟨Ne.symm hne, h⟩

/-- An element of a list of which one was modified comes from the element that stood there. -/
theorem getElem?_modify_cases {l : List α} {n i : ℕ} {f : α → α} {b : α}
    (h : (l.modify n f)[i]? = some b) :
    ∃ a, l[i]? = some a ∧ (i = n ∧ b = f a ∨ i ≠ n ∧ b = a) := by
  rw [List.getElem?_modify] at h
  obtain ⟨a, ha, hb⟩ := Option.map_eq_some_iff.mp h
  refine ⟨a, ha, ?_⟩
  by_cases hn : n = i
  · exact .inl ⟨hn.symm, by simpa only [if_pos hn] using hb.symm⟩
  · exact .inr ⟨fun hi => hn hi.symm, by simpa only [if_neg hn] using hb.symm⟩

end Ascendance.Core
