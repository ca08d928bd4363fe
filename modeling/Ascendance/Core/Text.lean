import Mathlib.Data.List.Basic

/-!
# Texts

What the standard library does to strings: trimming, and joining parts with a
separator.
-/

namespace Ascendance.Core

/-- White space and line terminators, as `trim` removes them. -/
def isSpace (c : Char) : Bool :=
  c.toNat ∈ [0x9, 0xA, 0xB, 0xC, 0xD, 0x20, 0xA0, 0x1680, 0x2000, 0x2001, 0x2002, 0x2003, 0x2004,
    0x2005, 0x2006, 0x2007, 0x2008, 0x2009, 0x200A, 0x2028, 0x2029, 0x202F, 0x205F, 0x3000, 0xFEFF]

/-- `String.prototype.trim`. -/
def trim (s : String) : String :=
  String.ofList ((s.toList.dropWhile isSpace).reverse.dropWhile isSpace).reverse

/-- The digits `0` to `9`. -/
def isDecimalDigit (c : Char) : Bool := '0' ≤ c && c ≤ '9'

/-- The letters of the ASCII alphabet. -/
def isLetter (c : Char) : Bool := 'a' ≤ c && c ≤ 'z' || 'A' ≤ c && c ≤ 'Z'

/-- The hexadecimal digits in either case. -/
def isHexDigit (c : Char) : Bool :=
  isDecimalDigit c || 'a' ≤ c && c ≤ 'f' || 'A' ≤ c && c ≤ 'F'

/-- The text before the last occurrence of a character, and the text after it. -/
def aroundLast (sep : Char) (text : List Char) : List Char × List Char :=
  let reversed := text.reverse
  ((reversed.dropWhile (· ≠ sep)).tail.reverse, (reversed.takeWhile (· ≠ sep)).reverse)

/-- A present string that is not empty. -/
def nonempty (s : Option String) : Option String := s.filter (· ≠ "")

/-- The length of a string in UTF-16 code units. -/
def utf16Length (s : String) : ℕ :=
  s.toList.foldl (fun n c => n + if c.toNat < 0x10000 then 1 else 2) 0

/-- Trimming keeps a character that is no space. -/
private theorem dropWhile_ne_nil {l : List Char} {c : Char} (hc : c ∈ l) (hs : isSpace c = false) :
    c ∈ l.dropWhile isSpace := by
  induction l with
  | nil => cases hc
  | cons x xs ih =>
    rw [List.dropWhile_cons]
    split
    · next hx =>
      rcases List.mem_cons.mp hc with rfl | hmem
      · rw [hs] at hx
        cases hx
      · exact ih hmem
    · exact hc

/-- Trimming keeps every character that is not white space. -/
theorem mem_trim {s : String} {c : Char} (hc : c ∈ s.toList) (hs : isSpace c = false) :
    c ∈ (trim s).toList := by
  unfold trim
  rw [String.toList_ofList, List.mem_reverse]
  exact dropWhile_ne_nil (List.mem_reverse.mpr (dropWhile_ne_nil hc hs)) hs

/-- Trimming adds no character. -/
theorem mem_of_mem_trim {s : String} {c : Char} (h : c ∈ (trim s).toList) : c ∈ s.toList := by
  rw [trim, String.toList_ofList, List.mem_reverse] at h
  have hdrop := List.mem_reverse.mp ((List.dropWhile_sublist _).mem h)
  exact (List.dropWhile_sublist _).mem hdrop

/-- A text that starts with another character than white space is not blank. -/
theorem trim_append_ne {p : String} {c : Char} (hc : c ∈ p.toList) (hs : isSpace c = false)
    (s : String) : trim (p ++ s) ≠ "" := by
  intro h
  have hmem : c ∈ (p ++ s).toList := by
    rw [String.toList_append]
    exact List.mem_append_left _ hc
  have htrim := mem_trim hmem hs
  rw [h] at htrim
  cases htrim

/-- White space is outside of the visible characters of ASCII. -/
theorem isSpace_of_visible {c : Char} (h : 0x21 ≤ c.toNat ∧ c.toNat ≤ 0x7E) :
    isSpace c = false := by
  simp only [isSpace, List.mem_cons, List.not_mem_nil, or_false, decide_eq_false_iff_not]
  omega

/-- Padding in front is trimmed. -/
private theorem dropWhile_isSpace_append {pad text : List Char}
    (hpad : ∀ c ∈ pad, isSpace c = true) : (pad ++ text).dropWhile isSpace =
      text.dropWhile isSpace := by
  induction pad with
  | nil => rfl
  | cons c pad ih =>
    rw [List.cons_append, List.dropWhile_cons_of_pos (hpad c List.mem_cons_self)]
    exact ih fun d hd => hpad d (List.mem_cons_of_mem _ hd)

/-- A text without spaces is trimmed already. -/
private theorem dropWhile_isSpace_eq {text : List Char} (h : ∀ c ∈ text, isSpace c = false) :
    text.dropWhile isSpace = text := by
  cases text with
  | nil => rfl
  | cons c text =>
    rw [List.dropWhile_cons_of_neg]
    simp [h c List.mem_cons_self]

/-- Trimming removes the padding in front of a text without white space. -/
theorem trim_padded {pad : List Char} {text : String} (hpad : ∀ c ∈ pad, isSpace c = true)
    (htext : ∀ c ∈ text.toList, isSpace c = false) :
    trim (String.ofList (pad ++ text.toList)) = text := by
  rw [trim, String.toList_ofList, dropWhile_isSpace_append hpad, dropWhile_isSpace_eq htext,
    dropWhile_isSpace_eq fun c hc => htext c (List.mem_reverse.mp hc), List.reverse_reverse,
    String.ofList_toList]

/-- Joined parts have the characters of the parts and the separator. -/
theorem forall_mem_of_splitOn {p : Char → Bool} (sep : Char) (hsep : p sep = true)
    {text : List Char} (h : ∀ part ∈ text.splitOn sep, ∀ c ∈ part, p c = true) :
    ∀ c ∈ text, p c = true := by
  induction text with
  | nil => exact fun c hc => absurd hc List.not_mem_nil
  | cons d text ih =>
    rw [List.splitOn_cons_eq_if_modifyHead] at h
    split at h
    · next heq =>
      refine List.forall_mem_cons.mpr ⟨beq_iff_eq.mp heq ▸ hsep, ih fun part hpart => ?_⟩
      exact h part (List.mem_cons_of_mem _ hpart)
    · next hne =>
      cases hparts : text.splitOn sep with
      | nil => exact absurd hparts (List.splitOn_ne_nil _ _)
      | cons first parts =>
        rw [hparts, List.modifyHead_cons] at h
        have hfirst := h _ List.mem_cons_self
        refine List.forall_mem_cons.mpr ⟨hfirst d List.mem_cons_self, ih fun part hpart => ?_⟩
        rw [hparts] at hpart
        rcases List.mem_cons.mp hpart with rfl | hpart
        · exact fun c hc => hfirst c (List.mem_cons_of_mem _ hc)
        · exact h part (List.mem_cons_of_mem _ hpart)

/-- A text with `n` separators has `n + 1` parts. -/
theorem length_splitOn (sep : Char) (text : List Char) :
    (text.splitOn sep).length = text.count sep + 1 := by
  induction text with
  | nil => rfl
  | cons c text ih =>
    rw [List.splitOn_cons_eq_if_modifyHead, List.count_cons]
    split
    · rw [List.length_cons, ih]
    · rw [List.length_modifyHead, ih, Nat.add_zero]

/-- The last occurrence of a character. -/
theorem exists_eq_append_last {c : Char} {text : List Char} (h : c ∈ text) :
    ∃ before after, text = before ++ c :: after ∧ c ∉ after := by
  obtain ⟨after, before, heq, hafter⟩ := List.eq_append_cons_of_mem (List.mem_reverse.mpr h)
  refine ⟨before.reverse, after.reverse, ?_, fun hmem => hafter (List.mem_reverse.mp hmem)⟩
  rw [← List.reverse_reverse text, heq]
  simp

/-- Splitting at the last separator. -/
theorem aroundLast_append {sep : Char} {before after : List Char} (h : sep ∉ after) :
    aroundLast sep (before ++ sep :: after) = (before, after) := by
  have hall : ∀ c ∈ after.reverse, (decide (c ≠ sep)) = true := fun c hc =>
    decide_eq_true fun heq => h (heq ▸ List.mem_reverse.mp hc)
  simp only [aroundLast, List.reverse_append, List.reverse_cons, List.append_assoc,
    List.singleton_append]
  rw [List.dropWhile_append_of_pos hall, List.takeWhile_append_of_pos hall,
    List.dropWhile_cons_of_neg (by simp), List.takeWhile_cons_of_neg (by simp), List.tail_cons,
    List.append_nil, List.reverse_reverse, List.reverse_reverse]

/-- A text without the separator is all after the last one. -/
theorem aroundLast_of_not_mem {sep : Char} {text : List Char} (h : sep ∉ text) :
    aroundLast sep text = ([], text) := by
  have hall : ∀ c ∈ text.reverse, (decide (c ≠ sep)) = true := fun c hc =>
    decide_eq_true fun heq => h (heq ▸ List.mem_reverse.mp hc)
  have hdrop : text.reverse.dropWhile (fun c => decide (c ≠ sep)) = [] := by
    have := @List.dropWhile_append_of_pos _ _ _ [] hall
    rwa [List.append_nil] at this
  have htake : text.reverse.takeWhile (fun c => decide (c ≠ sep)) = text.reverse := by
    have := @List.takeWhile_append_of_pos _ _ _ [] hall
    rwa [List.append_nil, List.takeWhile_nil, List.append_nil] at this
  simp only [aroundLast, hdrop, htake, List.tail_nil, List.reverse_nil, List.reverse_reverse]

end Ascendance.Core
