import Ascendance.Core.PropertyNames
import Mathlib.Data.Int.Notation

/-!
# Data and its JSON

Data is built from leaves by arrays and objects. The data of a program has more
leaves than JSON, which drops them or writes them as strings. An object lists its
properties in the order in which they are enumerated.
-/

namespace Ascendance.Core

/-- Leaves, arrays and objects; an object lists its own properties. -/
inductive Data (α : Type*)
  | leaf (a : α)
  | array (items : List (Data α))
  | object (entries : List (String × Data α))

/-- The leaves of JSON; a finite number is given by the literal that it is written as. -/
inductive Scalar
  | null
  | bool (b : Bool)
  | number (literal : String)
  | string (s : String)
  deriving DecidableEq, Repr

/-- The leaves of the data of a program; a date by its milliseconds. -/
inductive Leaf
  | undefined
  | scalar (s : Scalar)
  | date (time : ℤ)
  | objectId (hex : String)
  deriving DecidableEq, Repr

/-- What a JSON text denotes. -/
abbrev Json := Data Scalar

/-- A value of the language that is to be serialised. -/
abbrev Value := Data Leaf

namespace Data

variable {α β : Type*}

/-- Induction over arrays and objects. -/
theorem induct {P : Data α → Prop} (leaf : ∀ a, P (.leaf a))
    (array : ∀ items, (∀ t ∈ items, P t) → P (.array items))
    (object : ∀ entries, (∀ e ∈ entries, P e.2) → P (.object entries)) (t : Data α) : P t := by
  refine @Data.rec α P (fun items => ∀ t ∈ items, P t) (fun entries => ∀ e ∈ entries, P e.2)
    (fun e => P e.2) leaf array object ?_ ?_ ?_ ?_ ?_ t
  · exact fun t h => absurd h List.not_mem_nil
  · exact fun t items ht hitems => List.forall_mem_cons.mpr ⟨ht, hitems⟩
  · exact fun e h => absurd h List.not_mem_nil
  · exact fun e entries he hentries => List.forall_mem_cons.mpr ⟨he, hentries⟩
  · exact fun _ _ h => h

mutual

/-- Change the leaves. -/
def map (f : α → β) : Data α → Data β
  | .leaf a => .leaf (f a)
  | .array items => .array (mapItems f items)
  | .object entries => .object (mapEntries f entries)

/-- Map the leaves of each item. -/
def mapItems (f : α → β) : List (Data α) → List (Data β)
  | [] => []
  | t :: ts => t.map f :: mapItems f ts

/-- Map the leaves of each entry's value. -/
def mapEntries (f : α → β) : List (String × Data α) → List (String × Data β)
  | [] => []
  | (k, t) :: es => (k, t.map f) :: mapEntries f es

end

@[simp] theorem map_leaf (f : α → β) (a : α) : (leaf a).map f = leaf (f a) := rfl

@[simp] theorem map_array (f : α → β) (items : List (Data α)) :
    (array items).map f = array (items.map (map f)) := by
  have hitems : mapItems f items = items.map (map f) := by
    induction items with
    | nil => rfl
    | cons t ts ih => rw [mapItems, ih, List.map_cons]
  rw [map, hitems]

@[simp] theorem map_object (f : α → β) (entries : List (String × Data α)) :
    (object entries).map f = object (entries.map fun e => (e.1, e.2.map f)) := by
  have hentries : mapEntries f entries = entries.map fun e => (e.1, e.2.map f) := by
    induction entries with
    | nil => rfl
    | cons e es ih => rw [mapEntries, ih, List.map_cons]
  rw [map, hentries]

end Data

/-- The year, month and day of a day, counted from the first of January 1970. -/
def civilDate (day : ℤ) : ℤ × ℤ × ℤ :=
  let z := day + 719468
  let era := z / 146097
  let doe := z - era * 146097
  let yoe := (doe - doe / 1460 + doe / 36524 - doe / 146096) / 365
  let doy := doe - (365 * yoe + yoe / 4 - yoe / 100)
  let mp := (5 * doy + 2) / 153
  let month := if mp < 10 then mp + 3 else mp - 9
  (yoe + era * 400 + (if month ≤ 2 then 1 else 0), month, doy - (153 * mp + 2) / 5 + 1)

/-- A numeral with leading zeros. -/
def padded (width : ℕ) (n : ℤ) : String :=
  let digits := (toString n.toNat).toList
  String.ofList (List.replicate (width - digits.length) '0' ++ digits)

/-- `Date.prototype.toISOString`. -/
def toISOString (time : ℤ) : String :=
  let (year, month, day) := civilDate (time / 86400000)
  let ms := time % 86400000
  let yearText := if 0 ≤ year ∧ year ≤ 9999 then padded 4 year
    else (if year < 0 then "-" else "+") ++ padded 6 (max year (-year))
  yearText ++ "-" ++ padded 2 month ++ "-" ++ padded 2 day ++ "T" ++ padded 2 (ms / 3600000) ++
    ":" ++ padded 2 (ms / 60000 % 60) ++ ":" ++ padded 2 (ms / 1000 % 60) ++ "." ++
    padded 3 (ms % 1000) ++ "Z"

example : toISOString 1772150399999 = "2026-02-26T23:59:59.999Z" := by decide

namespace Data

/-- The value `undefined`. -/
def undefined : Value := .leaf .undefined

/-- A string value. -/
def string (s : String) : Value := .leaf (.scalar (.string s))

/-- A number value, by its decimal literal. -/
def number (n : ℕ) : Value := .leaf (.scalar (.number (toString n)))

/-- Is the value `undefined`? -/
def isUndefined : Value → Bool
  | .leaf .undefined => true
  | .leaf (.scalar _) | .leaf (.date _) | .leaf (.objectId _) | .array _ | .object _ => false

/-- Access to a property throws for `undefined` and `null`. -/
def get (v : Value) (k : String) : Except String Value :=
  match v with
  | .leaf .undefined | .leaf (.scalar .null) => .error "TypeError"
  | .object entries => .ok ((entries.lookup k).getD undefined)
  | .leaf (.scalar _) | .leaf (.date _) | .leaf (.objectId _) | .array _ => .ok undefined

/-- Optional access to a property. -/
def getOptional (v : Value) (k : String) : Value :=
  match v.get k with
  | .ok w => w
  | .error _ => undefined

/-- Equality with a string. -/
def isString (v : Value) (s : String) : Bool :=
  match v with
  | .leaf (.scalar (.string s')) => s' == s
  | .leaf _ | .array _ | .object _ => false

/-- Equality with a count. -/
def isNumber (v : Value) (n : ℕ) : Bool :=
  match v with
  | .leaf (.scalar (.number literal)) => literal == toString n
  | .leaf _ | .array _ | .object _ => false

/-- The string that a value is, if it is one. -/
def asString (v : Value) : Option String :=
  match v with
  | .leaf (.scalar (.string s)) => some s
  | .leaf _ | .array _ | .object _ => none

/-- Equality with a string that may be undefined. -/
def isStringOr (v : Value) (s : Option String) : Bool :=
  match s with
  | some s => v.isString s
  | none => v.isUndefined

/-- The test accepts exactly the string. -/
theorem isString_iff {v : Value} {s : String} : v.isString s = true ↔ v = string s := by
  unfold isString string
  split
  · simp
  · next h => simpa using h s
  · simp
  · simp

/-- The test accepts exactly the number. -/
theorem isNumber_iff {v : Value} {n : ℕ} : v.isNumber n = true ↔ v = number n := by
  unfold isNumber number
  split
  · simp
  · next h => simpa using h (toString n)
  · simp
  · simp

/-- The test accepts the string, or `undefined` where there is none. -/
theorem isStringOr_iff {v : Value} {s : Option String} :
    v.isStringOr s = true ↔ v = s.elim undefined string := by
  cases s with
  | some s => exact isString_iff
  | none =>
    simp only [isStringOr, Option.elim, undefined]
    unfold isUndefined
    split <;> simp

/-- A string value determines its string. -/
theorem string_inj {s t : String} (h : string s = string t) : s = t := by
  injection h with hleaf
  injection hleaf with hscalar
  injection hscalar

/-- A property that is not there reads as `undefined`. -/
theorem getOptional_object (entries : List (String × Value)) (k : String) :
    getOptional (.object entries) k = (entries.lookup k).getD undefined := rfl

end Data

mutual

/-- What `JSON.stringify` writes of a value, if it is not undefined. -/
def toJson : Value → Option Json
  | .leaf .undefined => none
  | .leaf (.scalar s) => some (.leaf s)
  | .leaf (.date time) => some (.leaf (.string (toISOString time)))
  | .leaf (.objectId hex) => some (.leaf (.string hex))
  | .array items => some (.array (itemsToJson items))
  | .object entries => some (.object (entriesToJson entries))

/-- The items of an array; one without a JSON form becomes `null`. -/
def itemsToJson : List Value → List Json
  | [] => []
  | t :: ts => (toJson t).getD (.leaf .null) :: itemsToJson ts

/-- The entries of an object; one without a JSON form is left out. -/
def entriesToJson : List (String × Value) → List (String × Json)
  | [] => []
  | (k, t) :: es =>
    match toJson t with
    | some j => (k, j) :: entriesToJson es
    | none => entriesToJson es

end

/-- What `JSON.parse` reads. -/
def ofJson (j : Json) : Value := j.map .scalar

/-- The items are converted one by one. -/
theorem itemsToJson_eq (items : List Value) :
    itemsToJson items = items.map fun t => (toJson t).getD (.leaf .null) := by
  induction items with
  | nil => rfl
  | cons t ts ih => rw [itemsToJson, ih, List.map_cons]

/-- The entries are converted one by one, and those without a JSON form dropped. -/
theorem entriesToJson_eq (entries : List (String × Value)) :
    entriesToJson entries = entries.filterMap fun e => (toJson e.2).map (Prod.mk e.1) := by
  induction entries with
  | nil => rfl
  | cons e es ih =>
    rw [entriesToJson, List.filterMap_cons]
    cases toJson e.2 with
    | some j => rw [ih, Option.map_some]
    | none => rw [ih, Option.map_none]

/-- Every value but `undefined` has a JSON form. -/
theorem isSome_toJson {v : Value} (h : v.isUndefined = false) : ∃ j, toJson v = some j := by
  cases v with
  | leaf l =>
    cases l with
    | undefined => cases h
    | scalar s => exact ⟨_, rfl⟩
    | date time => exact ⟨_, rfl⟩
    | objectId hex => exact ⟨_, rfl⟩
  | array items => exact ⟨_, rfl⟩
  | object entries => exact ⟨_, rfl⟩

/-- `undefined` has no JSON form. -/
theorem toJson_eq_none {v : Value} (h : v.isUndefined = true) : toJson v = none := by
  unfold Data.isUndefined at h
  split at h
  · rfl
  all_goals cases h

namespace Data

variable {α : Type*}

/-- The names of every object are distinct. -/
inductive WellFormed : Data α → Prop
  | leaf (a : α) : WellFormed (.leaf a)
  | array {items : List (Data α)} (h : ∀ t ∈ items, WellFormed t) : WellFormed (.array items)
  | object {entries : List (String × Data α)} (hnodup : (entries.map (·.1)).Nodup)
      (h : ∀ e ∈ entries, WellFormed e.2) : WellFormed (.object entries)

/-- The names of every object are in the order of enumeration. -/
inductive Canonical : Data α → Prop
  | leaf (a : α) : Canonical (.leaf a)
  | array {items : List (Data α)} (h : ∀ t ∈ items, Canonical t) : Canonical (.array items)
  | object {entries : List (String × Data α)} (hsorted : entries.Pairwise fun a b => KeyLt a.1 b.1)
      (h : ∀ e ∈ entries, Canonical e.2) : Canonical (.object entries)

/-- Mapping the leaves keeps the names of the entries distinct. -/
theorem WellFormed.map {β : Type*} (f : α → β) {t : Data α} (h : t.WellFormed) :
    (t.map f).WellFormed := by
  induction t using Data.induct with
  | leaf a => exact .leaf _
  | array items ih =>
    cases h with
    | array hitems =>
      rw [map_array]
      refine .array fun t ht => ?_
      obtain ⟨t, hmem, rfl⟩ := List.mem_map.mp ht
      exact ih t hmem (hitems t hmem)
  | object entries ih =>
    cases h with
    | object hnodup hentries =>
      rw [map_object]
      refine .object ?_ fun e he => ?_
      · rw [List.map_map]
        exact hnodup
      · obtain ⟨e, hmem, rfl⟩ := List.mem_map.mp he
        exact ih e hmem (hentries e hmem)

/-- Every object enumerates indices first; JSON text of such data is read as it was written. -/
inductive Enumerated : Data α → Prop
  | leaf (a : α) : Enumerated (.leaf a)
  | array {items : List (Data α)} (h : ∀ t ∈ items, Enumerated t) : Enumerated (.array items)
  | object {entries : List (String × Data α)}
      (hsorted : entries.Pairwise fun a b => KeyBefore a.1 b.1)
      (h : ∀ e ∈ entries, Enumerated e.2) : Enumerated (.object entries)

/-- Canonical data is in enumeration order. -/
theorem Canonical.enumerated {t : Data α} (h : t.Canonical) : t.Enumerated := by
  induction t using Data.induct with
  | leaf a => exact .leaf a
  | array items ih =>
    cases h with
    | array hitems => exact .array fun t ht => ih t ht (hitems t ht)
  | object entries ih =>
    cases h with
    | object hsorted hentries =>
      exact .object (hsorted.imp KeyLt.before) fun e he => ih e he (hentries e he)

/-- Canonical data has distinct names. -/
theorem Canonical.wellFormed {t : Data α} (h : t.Canonical) : t.WellFormed := by
  induction t using Data.induct with
  | leaf a => exact .leaf a
  | array items ih =>
    cases h with
    | array hitems => exact .array fun t ht => ih t ht (hitems t ht)
  | object entries ih =>
    cases h with
    | object hsorted hentries =>
      refine .object (List.pairwise_map.mpr (hsorted.imp fun hlt heq => ?_)) fun e he =>
        ih e he (hentries e he)
      rw [heq] at hlt
      exact hlt.asymm hlt

end Data

end Ascendance.Core
