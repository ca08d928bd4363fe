import Ascendance.Core.Json

/-!
# JSON text

The text of JSON without white space, and that it determines the JSON: no text of a
value followed by a delimiter begins the text of another value. A literal that is not
a numeral has a text of its own, that no JSON has.
-/

namespace Ascendance.Core

/-- The characters of a number literal. -/
def isNumeral (c : Char) : Bool := c.isDigit || ['+', '-', '.', 'e', 'E'].contains c

/-- A character inside a quoted text. -/
def escaped (c : Char) : List Char := if c = '"' ∨ c = '\\' then ['\\', c] else [c]

/-- A text between quotation marks. -/
def quoted (s : String) : List Char := '"' :: (s.toList.flatMap escaped ++ ['"'])

/-- A number literal as it stands; any other literal is marked and quoted. -/
def numberText (literal : String) : List Char :=
  if literal ≠ "" ∧ literal.toList.all isNumeral then literal.toList else '#' :: quoted literal

/-- The text of a scalar. -/
def scalarText : Scalar → List Char
  | .null => ['n', 'u', 'l', 'l']
  | .bool true => ['t', 'r', 'u', 'e']
  | .bool false => ['f', 'a', 'l', 's', 'e']
  | .number literal => numberText literal
  | .string s => quoted s

mutual

/-- The characters of a JSON document. -/
def jsonChars : Json → List Char
  | .leaf s => scalarText s
  | .array items => '[' :: ((itemsText items).drop 1 ++ [']'])
  | .object entries => '{' :: ((entriesText entries).drop 1 ++ ['}'])

/-- The items, with a comma before each. -/
def itemsText : List Json → List Char
  | [] => []
  | t :: ts => ',' :: (jsonChars t ++ itemsText ts)

/-- The entries of an object, each after a comma. -/
def entriesText : List (String × Json) → List Char
  | [] => []
  | (k, t) :: es => ',' :: (quoted k ++ ':' :: (jsonChars t ++ entriesText es))

end

/-- The text of a JSON document. -/
def jsonText (j : Json) : String := String.ofList (jsonChars j)

example : jsonText (.object [("a", .array [.leaf (.number "1"), .leaf .null])]) =
    "\x7b\"a\":[1,null]\x7d" := by decide

/-- What can follow a value: nothing, or a character that is in no numeral. -/
def Delimited (s : List Char) : Prop := ∀ c ∈ s.head?, isNumeral c = false

/-- An escaped character is known from the text that begins with it. -/
private theorem escaped_append {c c' : Char} {s s' : List Char}
    (h : escaped c ++ s = escaped c' ++ s') :
    c = c' ∧ s = s' := by
  unfold escaped at h
  split at h <;> split at h
  · simp only [List.cons_append, List.nil_append, List.cons.injEq, true_and] at h
    exact h
  · next hc' =>
    obtain ⟨rfl, -⟩ := List.cons.inj h
    exact absurd (.inr rfl) hc'
  · next hc _ =>
    obtain ⟨rfl, -⟩ := List.cons.inj h
    exact absurd (.inr rfl) hc
  · exact List.cons.inj h

/-- The characters of a quoted string are known up to its closing quote. -/
private theorem quoted_body {l l' s s' : List Char}
    (h : l.flatMap escaped ++ '"' :: s = l'.flatMap escaped ++ '"' :: s') : l = l' ∧ s = s' := by
  have hquote : ∀ (c : Char) (t u : List Char), '"' :: t ≠ escaped c ++ u := by
    intro c t u heq
    unfold escaped at heq
    split at heq
    · cases heq
    · next hc =>
      obtain ⟨rfl, -⟩ := List.cons.inj heq
      exact hc (.inl rfl)
  induction l generalizing l' with
  | nil =>
    cases l' with
    | nil => exact ⟨rfl, (List.cons.inj h).2⟩
    | cons c l' =>
      rw [List.flatMap_cons, List.append_assoc] at h
      exact absurd h (hquote c _ _)
  | cons c l ih =>
    cases l' with
    | nil =>
      rw [List.flatMap_cons, List.append_assoc] at h
      exact absurd h.symm (hquote c _ _)
    | cons c' l' =>
      rw [List.flatMap_cons, List.flatMap_cons, List.append_assoc, List.append_assoc] at h
      obtain ⟨rfl, hrest⟩ := escaped_append h
      obtain ⟨rfl, rfl⟩ := ih hrest
      exact ⟨rfl, rfl⟩

/-- A quoted string is known from the text that begins with it. -/
private theorem quoted_append {k k' : String} {s s' : List Char}
    (h : quoted k ++ s = quoted k' ++ s') :
    k = k' ∧ s = s' := by
  unfold quoted at h
  rw [List.cons_append, List.cons_append, List.append_assoc, List.append_assoc] at h
  obtain ⟨hk, rfl⟩ := quoted_body (List.cons.inj h).2
  exact ⟨String.toList_injective hk, rfl⟩

/-- A numeral is known from the text up to a delimiter. -/
private theorem numeral_append {l l' s s' : List Char} (hl : l.all isNumeral)
    (hl' : l'.all isNumeral)
    (hs : Delimited s) (hs' : Delimited s') (h : l ++ s = l' ++ s') : l = l' ∧ s = s' := by
  induction l generalizing l' with
  | nil =>
    cases l' with
    | nil => exact ⟨rfl, h⟩
    | cons c l' =>
      rw [List.nil_append] at h
      subst h
      rw [List.all_cons, Bool.and_eq_true_iff, hs c rfl] at hl'
      exact absurd hl'.1 Bool.false_ne_true
  | cons c l ih =>
    cases l' with
    | nil =>
      rw [List.nil_append] at h
      subst h
      rw [List.all_cons, Bool.and_eq_true_iff, hs' c rfl] at hl
      exact absurd hl.1 Bool.false_ne_true
    | cons c' l' =>
      rw [List.all_cons, Bool.and_eq_true_iff] at hl hl'
      obtain ⟨rfl, hrest⟩ := List.cons.inj h
      obtain ⟨rfl, rfl⟩ := ih hl.2 hl'.2 hrest
      exact ⟨rfl, rfl⟩

/-- What the first character of a text tells of the value. -/
inductive Kind
  | null | true | false | numeral | literal | string | array | object | other
  deriving DecidableEq

/-- The kind of document that a first character announces. -/
def charKind (c : Char) : Kind :=
  if isNumeral c then .numeral
  else match c with
    | 'n' => .null
    | 't' => .true
    | 'f' => .false
    | '#' => .literal
    | '"' => .string
    | '[' => .array
    | '\x7b' => .object
    | _ => .other

/-- The kind of a number literal. -/
def numberKind (literal : String) : Kind :=
  if literal ≠ "" ∧ literal.toList.all isNumeral then .numeral else .literal

/-- The kind of a JSON document. -/
def kind : Json → Kind
  | .leaf .null => .null
  | .leaf (.bool true) => .true
  | .leaf (.bool false) => .false
  | .leaf (.number literal) => numberKind literal
  | .leaf (.string _) => .string
  | .array _ => .array
  | .object _ => .object

/-- The first character of a number tells its kind. -/
private theorem numberText_head (literal : String) :
    ∃ c cs, numberText literal = c :: cs ∧ charKind c = numberKind literal := by
  unfold numberText numberKind
  split
  · next h =>
    obtain ⟨hne, hall⟩ := h
    cases hl : literal.toList with
    | nil => exact absurd (String.toList_injective hl) hne
    | cons c cs =>
      rw [hl, List.all_cons, Bool.and_eq_true_iff] at hall
      exact ⟨c, cs, rfl, if_pos hall.1⟩
  · exact ⟨_, _, rfl, by decide⟩

private theorem jsonChars_head (j : Json) :
    ∃ c cs, jsonChars j = c :: cs ∧ charKind c = kind j := by
  cases j with
  | leaf s =>
    cases s with
    | null => exact ⟨_, _, rfl, by decide⟩
    | bool b => cases b <;> exact ⟨_, _, rfl, by decide⟩
    | number literal => exact numberText_head literal
    | string t => exact ⟨_, _, rfl, rfl⟩
  | array items => exact ⟨_, _, rfl, rfl⟩
  | object entries => exact ⟨_, _, rfl, rfl⟩

/-- Equal texts begin with values of one kind. -/
private theorem kind_eq {j j' : Json} {s s' : List Char}
    (h : jsonChars j ++ s = jsonChars j' ++ s') :
    kind j = kind j' := by
  obtain ⟨c, cs, hj, hkind⟩ := jsonChars_head j
  obtain ⟨c', cs', hj', hkind'⟩ := jsonChars_head j'
  rw [hj, hj'] at h
  obtain ⟨rfl, -⟩ := List.cons.inj h
  exact hkind.symm.trans hkind'

/-- A number is known from the text up to a delimiter. -/
private theorem numberText_append {l l' : String} {s s' : List Char} (hs : Delimited s)
    (hs' : Delimited s') (hkind : numberKind l = numberKind l')
    (h : numberText l ++ s = numberText l' ++ s') : l = l' ∧ s = s' := by
  unfold numberKind at hkind
  unfold numberText at h
  split at h <;> split at h
  · next hl hl' =>
    obtain ⟨hchars, rfl⟩ := numeral_append hl.2 hl'.2 hs hs' h
    exact ⟨String.toList_injective hchars, rfl⟩
  · next hl hl' =>
    rw [if_pos hl, if_neg hl'] at hkind
    exact absurd hkind (by decide)
  · next hl hl' =>
    rw [if_neg hl, if_pos hl'] at hkind
    exact absurd hkind (by decide)
  · exact quoted_append (List.cons.inj h).2

private theorem numberKind_cases (literal : String) :
    numberKind literal = .numeral ∨ numberKind literal = .literal := by
  unfold numberKind
  split
  · exact .inl rfl
  · exact .inr rfl

private theorem numberKind_ne {literal : String} {k : Kind} (hnumeral : k ≠ .numeral)
    (hliteral : k ≠ .literal) : numberKind literal ≠ k := by
  rintro rfl
  exact (numberKind_cases literal).elim hnumeral hliteral

/-- Values that are built alike. -/
inductive Alike : Json → Json → Prop
  | null : Alike (.leaf .null) (.leaf .null)
  | bool (b : Bool) : Alike (.leaf (.bool b)) (.leaf (.bool b))
  | number (l l' : String) : Alike (.leaf (.number l)) (.leaf (.number l'))
  | string (s s' : String) : Alike (.leaf (.string s)) (.leaf (.string s'))
  | array (items items' : List Json) : Alike (.array items) (.array items')
  | object (entries entries' : List (String × Json)) : Alike (.object entries) (.object entries')

private theorem alike_of_kind {j j' : Json} (h : kind j = kind j') : Alike j j' := by
  rcases j with (_ | (_ | _) | literal | _) | _ | _ <;>
    rcases j' with (_ | (_ | _) | literal' | _) | _ | _
  all_goals
    first
    | constructor
    | cases h
    | exact (numberKind_ne (by intro hk; cases hk) (by intro hk; cases hk) h).elim
    | exact (numberKind_ne (by intro hk; cases hk) (by intro hk; cases hk) h.symm).elim

/-- No value begins with a closing bracket. -/
theorem jsonChars_ne_bracket (j : Json) (s s' : List Char) : ']' :: s' ≠ jsonChars j ++ s := by
  intro h
  obtain ⟨c, cs, hj, hkind⟩ := jsonChars_head j
  rw [hj] at h
  obtain ⟨rfl, -⟩ := List.cons.inj h
  have hother : kind j = .other := hkind.symm
  rcases j with (_ | (_ | _) | literal | _) | _ | _
  all_goals
    first
    | cases hother
    | exact numberKind_ne (by decide) (by decide) hother

/-- No text of the value, with what delimits it, begins the text of another value. -/
def Reads (j : Json) : Prop := ∀ j' s s', Delimited s → Delimited s' →
  jsonChars j ++ s = jsonChars j' ++ s' → j = j' ∧ s = s'

private theorem delimited_cons {c : Char} {s : List Char} (h : isNumeral c = false) :
    Delimited (c :: s) := by
  rintro c' hc'
  obtain rfl := Option.some.inj hc'
  exact h

/-- What follows an item of an array delimits it. -/
private theorem delimited_items (items : List Json) (s : List Char) :
    Delimited (itemsText items ++ ']' :: s) := by
  cases items with
  | nil => exact delimited_cons (by decide)
  | cons t ts =>
    rw [itemsText]
    exact delimited_cons (by decide)

/-- What follows an entry of an object delimits it. -/
private theorem delimited_entries (entries : List (String × Json)) (s : List Char) :
    Delimited (entriesText entries ++ '}' :: s) := by
  cases entries with
  | nil => exact delimited_cons (by decide)
  | cons e es =>
    rw [entriesText]
    exact delimited_cons (by decide)

/-- The items of an array are known from the text when every item is. -/
private theorem items_append {items items' : List Json} {s s' : List Char}
    (hitems : ∀ t ∈ items, Reads t)
    (h : itemsText items ++ ']' :: s = itemsText items' ++ ']' :: s') :
    items = items' ∧ s = s' := by
  induction items generalizing items' with
  | nil =>
    cases items' with
    | nil => exact ⟨rfl, (List.cons.inj h).2⟩
    | cons t ts => exact absurd (List.cons.inj h).1 (by decide)
  | cons t ts ih =>
    cases items' with
    | nil => exact absurd (List.cons.inj h).1 (by decide)
    | cons t' ts' =>
      rw [itemsText, itemsText, List.cons_append, List.cons_append, List.append_assoc,
        List.append_assoc] at h
      obtain ⟨rfl, hrest⟩ := hitems t List.mem_cons_self t' _ _ (delimited_items ts s)
        (delimited_items ts' s') (List.cons.inj h).2
      obtain ⟨rfl, rfl⟩ := ih (fun t' ht' => hitems t' (List.mem_cons_of_mem _ ht')) hrest
      exact ⟨rfl, rfl⟩

/-- The entries of an object are known from the text when every value is. -/
private theorem entries_append {entries entries' : List (String × Json)} {s s' : List Char}
    (hentries : ∀ e ∈ entries, Reads e.2)
    (h : entriesText entries ++ '}' :: s = entriesText entries' ++ '}' :: s') :
    entries = entries' ∧ s = s' := by
  induction entries generalizing entries' with
  | nil =>
    cases entries' with
    | nil => exact ⟨rfl, (List.cons.inj h).2⟩
    | cons e es => exact absurd (List.cons.inj h).1 (by decide)
  | cons e es ih =>
    cases entries' with
    | nil => exact absurd (List.cons.inj h).1 (by decide)
    | cons e' es' =>
      obtain ⟨k, t⟩ := e
      obtain ⟨k', t'⟩ := e'
      rw [entriesText, entriesText, List.cons_append, List.cons_append, List.append_assoc,
        List.append_assoc] at h
      obtain ⟨rfl, hvalue⟩ := quoted_append (List.cons.inj h).2
      rw [List.cons_append, List.cons_append, List.append_assoc, List.append_assoc] at hvalue
      obtain ⟨rfl, hrest⟩ := hentries (k, t) List.mem_cons_self t' _ _ (delimited_entries es s)
        (delimited_entries es' s') (List.cons.inj hvalue).2
      obtain ⟨rfl, rfl⟩ := ih (fun e he => hentries e (List.mem_cons_of_mem _ he)) hrest
      exact ⟨rfl, rfl⟩

/-- The comma before the first item can be put back. -/
theorem drop_items {items items' : List Json} {s s' : List Char}
    (h : (itemsText items).drop 1 ++ ']' :: s = (itemsText items').drop 1 ++ ']' :: s') :
    itemsText items ++ ']' :: s = itemsText items' ++ ']' :: s' := by
  cases items with
  | nil =>
    cases items' with
    | nil => exact h
    | cons t ts =>
      rw [itemsText, itemsText, List.drop_succ_cons, List.drop_zero, List.append_assoc] at h
      exact absurd h (jsonChars_ne_bracket t _ _)
  | cons t ts =>
    cases items' with
    | nil =>
      rw [itemsText, itemsText, List.drop_succ_cons, List.drop_zero, List.append_assoc] at h
      exact absurd h.symm (jsonChars_ne_bracket t _ _)
    | cons t' ts' =>
      rw [itemsText, itemsText] at h ⊢
      exact congrArg (List.cons ',') h

private theorem drop_entries {entries entries' : List (String × Json)} {s s' : List Char}
    (h : (entriesText entries).drop 1 ++ '\x7d' :: s =
      (entriesText entries').drop 1 ++ '\x7d' :: s') :
    entriesText entries ++ '\x7d' :: s = entriesText entries' ++ '\x7d' :: s' := by
  cases entries with
  | nil =>
    cases entries' with
    | nil => exact h
    | cons e es =>
      rw [entriesText, entriesText] at h
      exact absurd (List.cons.inj h).1 (by decide)
  | cons e es =>
    cases entries' with
    | nil =>
      rw [entriesText, entriesText] at h
      exact absurd (List.cons.inj h).1 (by decide)
    | cons e' es' =>
      rw [entriesText, entriesText] at h ⊢
      exact congrArg (List.cons ',') h

private theorem jsonChars_reads (j : Json) : Reads j := by
  induction j using Data.induct with
  | leaf t =>
    intro j' s s' hs hs' h
    have hkind := kind_eq h
    cases alike_of_kind hkind with
    | null => exact ⟨rfl, List.append_cancel_left h⟩
    | bool b => exact ⟨rfl, List.append_cancel_left h⟩
    | number l l' =>
      obtain ⟨rfl, rfl⟩ := numberText_append hs hs' hkind h
      exact ⟨rfl, rfl⟩
    | string k k' =>
      obtain ⟨rfl, rfl⟩ := quoted_append h
      exact ⟨rfl, rfl⟩
  | array items ih =>
    intro j' s s' _ _ h
    cases alike_of_kind (kind_eq h) with
    | array _ items' =>
      rw [jsonChars, jsonChars, List.cons_append, List.cons_append, List.append_assoc,
        List.append_assoc] at h
      obtain ⟨rfl, rfl⟩ := items_append ih (drop_items (List.cons.inj h).2)
      exact ⟨rfl, rfl⟩
  | object entries ih =>
    intro j' s s' _ _ h
    cases alike_of_kind (kind_eq h) with
    | object _ entries' =>
      rw [jsonChars, jsonChars, List.cons_append, List.cons_append, List.append_assoc,
        List.append_assoc] at h
      obtain ⟨rfl, rfl⟩ := entries_append ih (drop_entries (List.cons.inj h).2)
      exact ⟨rfl, rfl⟩

/-- A text determines its document. -/
theorem jsonText_injective : Function.Injective jsonText := by
  intro j j' h
  have hchars : jsonChars j = jsonChars j' := by
    have h' := congrArg String.toList h
    rwa [jsonText, jsonText, String.toList_ofList, String.toList_ofList] at h'
  refine (jsonChars_reads j j' [] [] ?_ ?_ (congrArg (· ++ []) hchars)).1
  · intro c hc
    cases hc
  · intro c hc
    cases hc

end Ascendance.Core
