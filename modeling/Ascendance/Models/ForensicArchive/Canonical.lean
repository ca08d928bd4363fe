import Ascendance.Core.Json

/-!
# Canonical JSON

`normalizeForJson` writes dates and object ids as strings, drops undefined
properties and sorts the others. The JSON of the result, read back, has the same
JSON again.
-/

namespace Ascendance.ForensicArchive

open Ascendance.Core

/-- Compare two strings by their code units. -/
def compareStrings (left right : String) : ℤ :=
  if jsLt left right then -1 else if jsLt right left then 1 else 0

/-- The stable sort of entries by their names. -/
def sortEntries (entries : List (String × Value)) : List (String × Value) :=
  entries.insertionSort fun a b => compareStrings a.1 b.1 ≤ 0

/-- Dates and identifiers become strings. -/
def normalizeLeaf : Leaf → Leaf
  | .undefined => .undefined
  | .scalar s => .scalar s
  | .date time => .scalar (.string (toISOString time))
  | .objectId hex => .scalar (.string hex)

mutual

/-- The normal form of a value: its leaves as JSON has them, its properties sorted. -/
def normalizeForJson : Value → Value
  | .leaf l => .leaf (normalizeLeaf l)
  | .array items => .array (normalizeItems items)
  | .object entries =>
    .object (fromEntries (sortEntries ((normalizeEntries entries).filter fun e =>
      !e.2.isUndefined)))

/-- The normal forms of the items. -/
def normalizeItems : List Value → List Value
  | [] => []
  | t :: ts => normalizeForJson t :: normalizeItems ts

/-- The normal forms of the properties. -/
def normalizeEntries : List (String × Value) → List (String × Value)
  | [] => []
  | (k, t) :: es => (k, normalizeForJson t) :: normalizeEntries es

end

/-- The JSON that `stableStringify` writes. -/
def canonical (v : Value) : Option Json := toJson (normalizeForJson v)

/-- What an array holds of an item. -/
def canonicalItem (v : Value) : Json := (canonical v).getD (.leaf .null)

/-- The comparison is that of the code units. -/
theorem compareStrings_le {left right : String} :
    compareStrings left right ≤ 0 ↔ utf16 left ≤ utf16 right := by
  unfold compareStrings
  split
  · next h => exact iff_of_true (by decide) (le_of_lt h)
  · next h =>
    split
    · next h' => exact iff_of_false (by decide) (not_le.mpr h')
    · next h' => exact iff_of_true (by decide) (not_lt.mp h')

private theorem sortEntries_eq (entries : List (String × Value)) :
    sortEntries entries = sortBy (fun e => utf16 e.1) entries := by
  have h := List.map_insertionSort (fun a b : String × Value => compareStrings a.1 b.1 ≤ 0)
    (fun a b => utf16 a.1 ≤ utf16 b.1) id entries fun a _ b _ => compareStrings_le
  rw [List.map_id, List.map_id] at h
  exact h

/-- The items are normalised one by one. -/
theorem normalizeItems_eq (items : List Value) :
    normalizeItems items = items.map normalizeForJson := by
  induction items with
  | nil => rfl
  | cons t ts ih => rw [normalizeItems, ih, List.map_cons]

/-- The properties are normalised one by one. -/
theorem normalizeEntries_eq (entries : List (String × Value)) :
    normalizeEntries entries = entries.map fun e => (e.1, normalizeForJson e.2) := by
  induction entries with
  | nil => rfl
  | cons e es ih => rw [normalizeEntries, ih, List.map_cons]

/-- The normal form of an object has its defined properties in their order. -/
theorem normalizeForJson_object (entries : List (String × Value)) :
    normalizeForJson (.object entries) = .object (enumerate
      ((entries.map fun e => (e.1, normalizeForJson e.2)).filter fun e => !e.2.isUndefined)) := by
  rw [normalizeForJson, sortEntries_eq, normalizeEntries_eq]
  rfl

/-- The canonical form of an array is that of its items. -/
theorem canonical_array (items : List Value) :
    canonical (.array items) = some (.array (items.map canonicalItem)) := by
  rw [canonical, normalizeForJson, normalizeItems_eq, toJson, itemsToJson_eq, List.map_map]
  rfl

/-- The properties that are not undefined, in the order of enumeration. -/
theorem canonical_object (entries : List (String × Value)) :
    canonical (.object entries) = some (.object (enumerate
      (entries.filterMap fun e => (canonical e.2).map (Prod.mk e.1)))) := by
  let defined := (entries.map fun e => (e.1, normalizeForJson e.2)).filter fun e =>
    !e.2.isUndefined
  have hjson : ∀ l : List (String × Value), (∀ e ∈ l, e.2.isUndefined = false) →
      l.filterMap (fun e => (toJson e.2).map (Prod.mk e.1)) =
        l.map fun e => (e.1, (toJson e.2).getD (.leaf .null)) := by
    intro l hl
    induction l with
    | nil => rfl
    | cons e l ih =>
      obtain ⟨j, hj⟩ := isSome_toJson (hl e List.mem_cons_self)
      rw [List.filterMap_cons, List.map_cons, ih fun e' he' => hl e' (List.mem_cons_of_mem e he'),
        hj, Option.map_some, Option.getD_some]
  have hdefined : ∀ e ∈ defined, e.2.isUndefined = false := by
    intro e he
    have hp := (List.mem_filter.mp he).2
    simpa only [Bool.not_eq_true'] using hp
  have hentries : entries.filterMap (fun e => (canonical e.2).map (Prod.mk e.1)) =
      defined.filterMap fun e => (toJson e.2).map (Prod.mk e.1) := by
    rw [List.filterMap_filter, List.filterMap_map]
    refine List.filterMap_congr fun e _ => ?_
    change (toJson (normalizeForJson e.2)).map (Prod.mk e.1) =
      if (!(normalizeForJson e.2).isUndefined) = true then
        (toJson (normalizeForJson e.2)).map (Prod.mk e.1) else none
    split
    · rfl
    · next h =>
      rw [toJson_eq_none (by simpa only [Bool.not_eq_true', Bool.not_eq_false] using h)]
      rfl
  rw [canonical, normalizeForJson_object, toJson, entriesToJson_eq]
  rw [hjson _ fun e he => hdefined e ((enumerate_perm defined).mem_iff.mp he), hentries,
    hjson defined hdefined]
  rw [enumerate_map fun e => (toJson e.2).getD (.leaf .null)]

/-- The JSON of well-formed data lists its properties in the order of enumeration. -/
theorem canonical_isCanonical {v : Value} (hv : v.WellFormed) {j : Json}
    (hj : canonical v = some j) : j.Canonical := by
  induction v using Data.induct generalizing j with
  | leaf l =>
    cases l with
    | undefined => cases hj
    | scalar s => exact Option.some.inj hj ▸ .leaf _
    | date time => exact Option.some.inj hj ▸ .leaf _
    | objectId hex => exact Option.some.inj hj ▸ .leaf _
  | array items ih =>
    cases hv with
    | array hitems =>
      rw [canonical_array] at hj
      obtain rfl := Option.some.inj hj
      refine .array fun t ht => ?_
      obtain ⟨v, hmem, rfl⟩ := List.mem_map.mp ht
      unfold canonicalItem
      cases hc : canonical v with
      | none => exact .leaf _
      | some j => exact ih v hmem (hitems v hmem) hc
  | object entries ih =>
    cases hv with
    | object hnodup hentries =>
      rw [canonical_object] at hj
      obtain rfl := Option.some.inj hj
      refine .object (enumerate_pairwise ?_) fun e he => ?_
      · exact hnodup.sublist (keys_filterMap_sublist canonical entries)
      · obtain ⟨e', hmem, hmap⟩ := List.mem_filterMap.mp ((enumerate_perm _).mem_iff.mp he)
        obtain ⟨j, hc, rfl⟩ := Option.map_eq_some_iff.mp hmap
        exact ih e' hmem (hentries e' hmem) hc

/-- Reading canonical JSON and writing it again changes nothing. -/
theorem canonical_ofJson {j : Json} (hj : j.Canonical) : canonical (ofJson j) = some j := by
  induction j using Data.induct with
  | leaf s => rfl
  | array items ih =>
    cases hj with
    | array hitems =>
      rw [ofJson, Data.map_array, canonical_array, List.map_map]
      have hid : items.map (canonicalItem ∘ Data.map Leaf.scalar) = items := by
        refine (List.map_congr_left fun t ht => ?_).trans (List.map_id items)
        change (canonical (ofJson t)).getD (.leaf .null) = t
        rw [ih t ht (hitems t ht)]
        rfl
      rw [hid]
  | object entries ih =>
    cases hj with
    | object hsorted hentries =>
      rw [ofJson, Data.map_object, canonical_object, List.filterMap_map]
      have hid : entries.filterMap ((fun e : String × Value => (canonical e.2).map (Prod.mk e.1)) ∘
          fun e => (e.1, e.2.map Leaf.scalar)) = entries := by
        refine (List.filterMap_congr fun e he => ?_).trans (List.filterMap_some)
        change (canonical (ofJson e.2)).map (Prod.mk e.1) = some e
        rw [ih e he (hentries e he)]
        rfl
      rw [hid, enumerate_eq hsorted]

/-- A value as it is read back from its canonical JSON. -/
def readBack (v : Value) : Value := (canonical v).elim .undefined ofJson

@[simp] theorem readBack_string (s : String) : readBack (.string s) = .string s := rfl

@[simp] theorem readBack_number (n : ℕ) : readBack (.number n) = .number n := rfl

@[simp] theorem readBack_undefined : readBack .undefined = .undefined := rfl

/-- Reading back what was written keeps the canonical form. -/
theorem canonical_readBack {v : Value} (hv : v.WellFormed) :
    canonical (readBack v) = canonical v := by
  unfold readBack
  cases hc : canonical v with
  | none => rfl
  | some j => exact canonical_ofJson (canonical_isCanonical hv hc)

/-- The properties that are read back are those that were written. -/
theorem readBack_getOptional {entries : List (String × Value)} (h : (entries.map (·.1)).Nodup)
    (k : String) : (readBack (.object entries)).getOptional k =
      readBack ((entries.lookup k).getD .undefined) := by
  have hkept := h.sublist (keys_filterMap_sublist canonical entries)
  rw [readBack, canonical_object, Option.elim_some, ofJson, Data.map_object,
    Data.getOptional_object, lookup_map, lookup_perm hkept (enumerate_perm _).symm,
    lookup_filterMap canonical h]
  cases entries.lookup k with
  | none => rfl
  | some v =>
    rw [Option.bind_some, Option.getD_some, readBack]
    cases canonical v with
    | none => rfl
    | some j => rfl

/-- An array is read back item by item. -/
theorem readBack_array {items : List Value} (h : ∀ v ∈ items, v.isUndefined = false) :
    readBack (.array items) = .array (items.map readBack) := by
  rw [readBack, canonical_array, Option.elim_some, ofJson, Data.map_array, List.map_map]
  refine congrArg Data.array (List.map_congr_left fun v hv => ?_)
  have hdefined : (normalizeForJson v).isUndefined = false := by
    cases v with
    | leaf l =>
      cases l with
      | undefined => exact absurd (h _ hv) (by decide)
      | scalar s => rfl
      | date time => rfl
      | objectId hex => rfl
    | array items => rfl
    | object entries => rfl
  obtain ⟨j, hj⟩ := isSome_toJson hdefined
  change ofJson (canonicalItem v) = readBack v
  rw [canonicalItem, readBack, canonical, hj]
  rfl

end Ascendance.ForensicArchive
