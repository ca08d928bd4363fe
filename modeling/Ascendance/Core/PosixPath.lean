import Ascendance.Core.Text
import Mathlib.Data.List.TakeWhile

/-!
# Paths

The path functions of Node on POSIX systems. A text is the list of its characters, and an
absolute path in normal form the list of its names. A relative path that does not lead up
stays below the path that it starts from.
-/

namespace Ascendance.Core.PosixPath

/-- The name of a directory entry. -/
abbrev Name := List Char

/-- An absolute path in normal form: its names from the root. -/
abbrev Path := List Name

/-- One name of a text that is resolved against a path. -/
def step (path : Path) (name : Name) : Path :=
  if name = [] ∨ name = ['.'] then path
  else if name = ['.', '.'] then path.dropLast
  else path ++ [name]

/-- A text that starts with a slash is absolute. -/
def isAbsolute (text : List Char) : Bool := text.head? == some '/'

/-- Walk a path text from a directory, or from the root when it is absolute. -/
def enter (path : Path) (text : List Char) : Path :=
  (text.splitOn '/').foldl step (if isAbsolute text then [] else path)

/-- `path.resolve(base, ...segments)`, for an absolute base. -/
def resolve (base : Path) (segments : List (List Char)) : Path := segments.foldl enter base

/-- The text of names with slashes between them. -/
def join (names : List Name) : List Char := ['/'].intercalate names

/-- How many names two paths have in common from the root. -/
def commonLength : Path → Path → ℕ
  | a :: source, b :: target => if a = b then commonLength source target + 1 else 0
  | _, _ => 0

/-- The names of `path.relative`. -/
def relativeNames (source target : Path) : Path :=
  List.replicate (source.length - commonLength source target) ['.', '.'] ++
    target.drop (commonLength source target)

/-- `path.relative` -/
def relative (source target : Path) : List Char := join (relativeNames source target)

/-- The last name of a text, slashes at its end aside. -/
def basename (text : List Char) : Name :=
  (((text.reverse.dropWhile (· == '/')).takeWhile (· != '/'))).reverse

/-- The last name from its last dot on, unless it starts with that dot or is `..`. -/
def extname (text : List Char) : List Char :=
  let name := basename text
  let extension := (name.reverse.takeWhile (· != '.')).reverse
  if '.' ∉ name ∨ name.length = extension.length + 1 ∨ name = ['.', '.'] then []
  else '.' :: extension

example : extname "a/b.tar.PNG/".toList = ".PNG".toList ∧ extname ".png".toList = [] ∧
    extname "..png".toList = ".png".toList ∧ extname "a.".toList = ".".toList := by decide +kernel

/-- A name that is one step down. -/
structure Plain (name : Name) : Prop where
  ne_nil : name ≠ []
  ne_dot : name ≠ ['.']
  ne_dots : name ≠ ['.', '.']
  no_slash : '/' ∉ name

/-- A plain name goes one directory down. -/
private theorem step_plain (path : Path) {name : Name} (h : Plain name) :
    step path name = path ++ [name] := by
  rw [step, if_neg (not_or.mpr ⟨h.ne_nil, h.ne_dot⟩), if_neg h.ne_dots]

/-- Entering a plain name goes one level down. -/
theorem enter_plain (path : Path) {name : Name} (h : Plain name) :
    enter path name = path ++ [name] := by
  have hrelative : isAbsolute name = false := by
    refine Bool.eq_false_iff.mpr fun habsolute => h.no_slash ?_
    exact List.mem_of_mem_head? (beq_iff_eq.mp habsolute)
  rw [enter, hrelative, List.splitOn_eq_singleton h.no_slash]
  exact step_plain path h

/-- A text without a slash is its own last name. -/
theorem basename_plain {name : Name} (h : '/' ∉ name) : basename name = name := by
  have hchars : ∀ c ∈ name.reverse, c ≠ '/' := fun c hc heq =>
    h (heq ▸ List.mem_reverse.mp hc)
  have hdrop : name.reverse.dropWhile (· == '/') = name.reverse := by
    cases hname : name.reverse with
    | nil => rfl
    | cons c rest =>
      have hc := hchars c (hname ▸ List.mem_cons_self)
      rw [List.dropWhile_cons_of_neg]
      simpa using hc
  rw [basename, hdrop, List.takeWhile_eq_self_iff.mpr fun c hc => bne_iff_ne.mpr (hchars c hc),
    List.reverse_reverse]

/-- The last name of a path contains no slash. -/
theorem basename_no_slash (text : List Char) : '/' ∉ basename text := by
  intro hmem
  have hslash := List.mem_takeWhile_imp (List.mem_reverse.mp hmem)
  exact bne_iff_ne.mp hslash rfl

/-- A character of a joined path is a slash or belongs to one of the names. -/
theorem mem_join {names : List Name} {c : Char} (h : c ∈ join names) :
    c = '/' ∨ ∃ name ∈ names, c ∈ name := by
  rw [join] at h
  induction names with
  | nil => cases h
  | cons first names ih =>
    cases names with
    | nil =>
      rw [List.intercalate_singleton] at h
      exact .inr ⟨first, List.mem_cons_self, h⟩
    | cons second names =>
      rw [List.intercalate_cons_cons, List.append_assoc] at h
      rcases List.mem_append.mp h with h | h
      · exact .inr ⟨first, List.mem_cons_self, h⟩
      · rcases List.mem_append.mp h with h | h
        · exact .inl (List.mem_singleton.mp h)
        · rcases ih h with hslash | ⟨name, hname, hc⟩
          · exact .inl hslash
          · exact .inr ⟨name, List.mem_cons_of_mem _ hname, hc⟩

/-- The characters of the last name are characters of the path. -/
theorem mem_of_mem_basename {text : List Char} {c : Char} (h : c ∈ basename text) : c ∈ text := by
  have hdrop := (List.takeWhile_sublist _).mem (List.mem_reverse.mp h)
  exact List.mem_reverse.mp ((List.dropWhile_sublist _).mem hdrop)

/-- A path below a directory shares all of it. -/
private theorem commonLength_append (base rest : Path) :
    commonLength base (base ++ rest) = base.length := by
  induction base with
  | nil => cases rest <;> rfl
  | cons name base ih => rw [List.cons_append, commonLength, if_pos rfl, ih, List.length_cons]

/-- The path from a directory to one below it is the remaining names. -/
theorem relative_append (base rest : Path) : relative base (base ++ rest) = join rest := by
  rw [relative, relativeNames, commonLength_append, Nat.sub_self, List.drop_left]
  rfl

/-- A path that shares all of a directory is below it. -/
private theorem isPrefix_of_length_le {source target : Path}
    (h : source.length ≤ commonLength source target) : source <+: target := by
  induction source generalizing target with
  | nil => exact List.nil_prefix
  | cons a source ih =>
    cases target with
    | nil => exact absurd h (Nat.not_succ_le_zero _)
    | cons b target =>
      rw [commonLength] at h
      split at h
      · next heq =>
        rw [heq]
        exact List.cons_prefix_cons.mpr ⟨rfl, ih (Nat.le_of_succ_le_succ h)⟩
      · exact absurd h (Nat.not_succ_le_zero _)

/-- A relative path that does not start by going up stays below. -/
theorem isPrefix_of_relative {source target : Path}
    (h : ['.', '.'].isPrefixOf (relative source target) = false) : source <+: target := by
  refine isPrefix_of_length_le (Nat.le_of_not_lt fun hlt => ?_)
  obtain ⟨n, hn⟩ := Nat.exists_eq_succ_of_ne_zero (Nat.sub_ne_zero_of_lt hlt)
  have hnames : relative source target = ['.', '.'] ++
      (relative source target).drop 2 := by
    rw [relative, relativeNames, hn, List.replicate_succ, List.cons_append, join]
    cases List.replicate n ['.', '.'] ++ target.drop (commonLength source target) with
    | nil => rfl
    | cons name names => rw [List.intercalate_cons_cons]; rfl
  rw [hnames] at h
  cases h

end Ascendance.Core.PosixPath
