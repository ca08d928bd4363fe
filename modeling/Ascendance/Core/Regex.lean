import Mathlib.Data.List.Infix

/-!
# Regular expressions

Patterns are matched by backtracking: the alternatives of a choice are tried in their order,
and repetitions take as much as they can first. The first match counts. Characters are of any
type; what a word is made of is a parameter of the patterns that ask for it.
-/

namespace Ascendance.Core

/-- A regular expression over characters, as far as the patterns of the source need one. -/
inductive Regex (α : Type*)
  | empty
  /-- One of the accepted characters. -/
  | one (accepts : α → Bool)
  /-- Any number of accepted characters. -/
  | many (accepts : α → Bool)
  | seq (first second : Regex α)
  | alt (first second : Regex α)
  /-- A match whose text is kept. -/
  | group (inner : Regex α)
  /-- A word begins or ends here. -/
  | boundary (isWord : α → Bool)
  | start
  | stop

/-- What a pattern matched, and the texts of its groups. -/
structure RegexMatch (α : Type*) where
  text : List α
  groups : List (List α)

namespace Regex

variable {α : Type*}

/-- One or more accepted characters. -/
def plus (accepts : α → Bool) : Regex α := seq (one accepts) (many accepts)

/-- One pattern after the other. -/
def all : List (Regex α) → Regex α := List.foldr seq empty

/-- The first pattern that leads to a match. -/
def any : List (Regex α) → Regex α
  | [] => one fun _ => false
  | [pattern] => pattern
  | pattern :: patterns => alt pattern (any patterns)

/-- The matches at the beginning of a text, the preferred one first; `before` is the character
in front of it. -/
def run : Regex α → (before : Option α) → List α → List (RegexMatch α)
  | empty, _, _ => [⟨[], []⟩]
  | one accepts, _, text =>
    match text with
    | [] => []
    | c :: _ => if accepts c then [⟨[c], []⟩] else []
  | many accepts, _, text => (text.takeWhile accepts).inits.reverse.map (⟨·, []⟩)
  | seq first second, before, text =>
    (first.run before text).flatMap fun m =>
      (second.run (m.text.getLast?.or before) (text.drop m.text.length)).map fun n =>
        ⟨m.text ++ n.text, m.groups ++ n.groups⟩
  | alt first second, before, text => first.run before text ++ second.run before text
  | group inner, before, text => (inner.run before text).map fun m => ⟨m.text, m.text :: m.groups⟩
  | boundary isWord, before, text =>
    if before.any isWord == text.head?.any isWord then [] else [⟨[], []⟩]
  | start, before, _ => if before.isNone then [⟨[], []⟩] else []
  | stop, _, text => if text.isEmpty then [⟨[], []⟩] else []

/-- The search of a text from each position; the first `skip` characters belong to the last
match. -/
def replaceFrom (pattern : Regex α) (replacement : RegexMatch α → List α) :
    (skip : ℕ) → (before : Option α) → List α → List α
  | _ + 1, _, [] => []
  | 0, before, [] =>
    match pattern.run before [] with
    | [] => []
    | m :: _ => replacement m
  | skip + 1, _, c :: text => replaceFrom pattern replacement skip (some c) text
  | 0, before, c :: text =>
    match pattern.run before (c :: text) with
    | [] => c :: replaceFrom pattern replacement 0 (some c) text
    | m :: _ =>
      if m.text.length = 0 then
        replacement m ++ c :: replaceFrom pattern replacement 0 (some c) text
      else replacement m ++ replaceFrom pattern replacement (m.text.length - 1) (some c) text

/-- `text.replace(pattern, replacement)`, for a pattern with the flag `g`. -/
def replace (pattern : Regex α) (replacement : RegexMatch α → List α) (text : List α) : List α :=
  replaceFrom pattern replacement 0 none text

/-- The search for a match, from each position. -/
def testFrom (pattern : Regex α) : (before : Option α) → List α → Bool
  | before, [] => !(pattern.run before []).isEmpty
  | before, c :: text => !(pattern.run before (c :: text)).isEmpty || testFrom pattern (some c) text

/-- `pattern.test(text)` -/
def test (pattern : Regex α) (text : List α) : Bool := testFrom pattern none text

end Regex

end Ascendance.Core
