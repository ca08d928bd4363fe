import Mathlib.Data.List.AList

/-!
# Maps in insertion order

The map of the source language keeps its entries in the order in which their
keys were first set. It is an association list with distinct keys; setting a
key that is there replaces its value in place, a new key goes to the end.
-/

namespace Ascendance.Core

/-- A map whose entries keep the order in which their keys were added. -/
abbrev OrderedMap (κ ν : Type*) := AList fun _ : κ => ν

namespace OrderedMap

variable {κ ν : Type*} [DecidableEq κ]

/-- The value under a key. -/
def get (m : OrderedMap κ ν) (k : κ) : Option ν := AList.lookup k m

/-- Set a key in a list of entries: in place when it is there, else at the end. -/
def setEntries (k : κ) (v : ν) : List ((_ : κ) × ν) → List ((_ : κ) × ν)
  | [] => [⟨k, v⟩]
  | e :: es => if e.1 = k then ⟨k, v⟩ :: es else e :: setEntries k v es

/-- The keys keep their places, and a new key comes last. -/
theorem keys_setEntries (k : κ) (v : ν) (es : List ((_ : κ) × ν)) :
    (setEntries k v es).keys = if k ∈ es.keys then es.keys else es.keys ++ [k] := by
  induction es with
  | nil => rfl
  | cons e es ih =>
    by_cases he : e.1 = k
    · simp [setEntries, he]
    · simp only [setEntries, if_neg he, List.keys_cons, ih, List.mem_cons, Ne.symm he, false_or]
      split <;> rfl

/-- Writing an entry lists no key twice. -/
private theorem nodupKeys_setEntries (k : κ) (v : ν) {es : List ((_ : κ) × ν)} (h : es.NodupKeys) :
    (setEntries k v es).NodupKeys := by
  rw [List.NodupKeys, keys_setEntries]
  split
  · exact h
  · next hk => exact List.Nodup.append h (List.nodup_singleton k) (by simpa using hk)

/-- Set a key. -/
def set (m : OrderedMap κ ν) (k : κ) (v : ν) : OrderedMap κ ν :=
  ⟨setEntries k v m.entries, nodupKeys_setEntries k v m.nodupKeys⟩

/-- Drop a key. -/
def delete (m : OrderedMap κ ν) (k : κ) : OrderedMap κ ν := AList.erase k m

@[simp] theorem get_empty (k : κ) : get (∅ : OrderedMap κ ν) k = none := AList.lookup_empty k

/-- A key is in the map exactly when it has a value. -/
theorem mem_iff_get {m : OrderedMap κ ν} {k : κ} : k ∈ m ↔ ∃ v, get m k = some v := by
  rw [get, ← AList.lookup_isSome, Option.isSome_iff_exists]

/-- Reading a key that is not in the map gives nothing. -/
theorem get_eq_none {m : OrderedMap κ ν} {k : κ} : get m k = none ↔ k ∉ m := AList.lookup_eq_none

/-- What stands in the list of entries is what `get` finds. -/
theorem mem_entries_iff {m : OrderedMap κ ν} {k : κ} {v : ν} :
    (⟨k, v⟩ : (_ : κ) × ν) ∈ m.entries ↔ get m k = some v :=
  (AList.mem_lookup_iff (s := m)).symm

/-- The first entry decides when it has the key. -/
private theorem dlookup_cons (j : κ) (e : (_ : κ) × ν) (es : List ((_ : κ) × ν)) :
    List.dlookup j (e :: es) = if j = e.1 then some e.2 else List.dlookup j es := by
  split
  · next h =>
    subst h
    exact List.dlookup_cons_eq es e.1 e.2
  · next h => exact List.dlookup_cons_ne es e h

/-- Setting a key changes what is found under that key only. -/
private theorem dlookup_setEntries (j k : κ) (v : ν) (es : List ((_ : κ) × ν)) :
    List.dlookup j (setEntries k v es) = if j = k then some v else List.dlookup j es := by
  induction es with
  | nil => exact dlookup_cons j ⟨k, v⟩ []
  | cons e es ih =>
    by_cases hk : e.1 = k
    · rw [setEntries, if_pos hk, dlookup_cons, dlookup_cons, hk]
      split <;> rfl
    · rw [setEntries, if_neg hk, dlookup_cons, dlookup_cons, ih]
      by_cases hj : j = e.1
      · rw [if_pos hj, if_pos hj, if_neg fun h => hk (hj.symm.trans h)]
      · rw [if_neg hj, if_neg hj]

/-- Reading after a write. -/
theorem get_set (m : OrderedMap κ ν) (j k : κ) (v : ν) :
    get (set m k v) j = if j = k then some v else get m j := dlookup_setEntries j k v m.entries

@[simp] theorem get_set_self (m : OrderedMap κ ν) (k : κ) (v : ν) : get (set m k v) k = some v := by
  rw [get_set, if_pos rfl]

/-- Setting a key to what it has changes nothing. -/
theorem set_of_get {m : OrderedMap κ ν} {k : κ} {v : ν} (h : get m k = some v) :
    set m k v = m := by
  have hentries : ∀ es : List ((_ : κ) × ν), List.dlookup k es = some v →
      setEntries k v es = es := by
    intro es
    induction es with
    | nil => exact fun hnone => by cases hnone
    | cons e es ih =>
      intro hes
      rw [dlookup_cons] at hes
      rw [setEntries]
      split at hes
      · next hk =>
        subst hk
        rw [if_pos rfl, ← Option.some.inj hes]
      · next hk => rw [if_neg (Ne.symm hk), ih hes]
  exact AList.ext (hentries m.entries h)

/-- A write leaves the other keys alone. -/
theorem get_set_ne (m : OrderedMap κ ν) {j k : κ} (v : ν) (h : j ≠ k) :
    get (set m k v) j = get m j := by
  rw [get_set, if_neg h]

@[simp] theorem get_delete_self (m : OrderedMap κ ν) (k : κ) : get (delete m k) k = none :=
  AList.lookup_erase k m

/-- A deletion leaves the other keys alone. -/
theorem get_delete_ne (m : OrderedMap κ ν) {j k : κ} (h : j ≠ k) :
    get (delete m k) j = get m j := AList.lookup_erase_ne h

/-- Reading after a deletion. -/
theorem get_delete (m : OrderedMap κ ν) (j k : κ) :
    get (delete m k) j = if j = k then none else get m j := by
  split
  · next h => rw [h, get_delete_self]
  · next h => exact get_delete_ne m h

/-- The entry of a key among all entries. -/
theorem find?_entries (m : OrderedMap κ ν) (k : κ) :
    m.entries.find? (fun e => e.1 = k) = (get m k).map fun v => ⟨k, v⟩ := by
  have hentries : ∀ es : List ((_ : κ) × ν),
      es.find? (fun e => e.1 = k) = (List.dlookup k es).map fun v => ⟨k, v⟩ := by
    intro es
    induction es with
    | nil => rfl
    | cons e es ih =>
      rw [List.find?_cons, dlookup_cons]
      by_cases h : k = e.1
      · subst h
        simp
      · rw [if_neg h, ← ih]
        simp [Ne.symm h]
  exact hentries m.entries

omit [DecidableEq κ] in
private theorem nodup_entries (m : OrderedMap κ ν) : m.entries.Nodup := m.nodupKeys.nodup

private theorem notMem_delete (m : OrderedMap κ ν) (k : κ) (v : ν) :
    (⟨k, v⟩ : (_ : κ) × ν) ∉ (delete m k).entries := by
  rw [mem_entries_iff, get_delete_self]
  intro h
  cases h

/-- A write replaces the entry of its key, up to the order. -/
theorem entries_set_perm (m : OrderedMap κ ν) (k : κ) (v : ν) :
    (set m k v).entries.Perm (⟨k, v⟩ :: (delete m k).entries) := by
  refine (List.perm_ext_iff_of_nodup (nodup_entries _)
    (List.nodup_cons.mpr ⟨notMem_delete m k v, nodup_entries _⟩)).mpr fun e => ?_
  obtain ⟨j, u⟩ := e
  rw [List.mem_cons, mem_entries_iff, mem_entries_iff, get_set, get_delete]
  by_cases h : j = k
  · subst h
    simp [eq_comm]
  · simp [h]

/-- An entry can be taken out and put back, up to the order. -/
theorem entries_perm_delete {m : OrderedMap κ ν} {k : κ} {v : ν} (h : get m k = some v) :
    m.entries.Perm (⟨k, v⟩ :: (delete m k).entries) := by
  refine (List.perm_ext_iff_of_nodup (nodup_entries _)
    (List.nodup_cons.mpr ⟨notMem_delete m k v, nodup_entries _⟩)).mpr fun e => ?_
  obtain ⟨j, u⟩ := e
  rw [List.mem_cons, mem_entries_iff, mem_entries_iff, get_delete]
  by_cases hj : j = k
  · subst hj
    simp [h, eq_comm]
  · simp [hj]

/-- Deleting a key that is not there keeps the entries. -/
theorem delete_of_none {m : OrderedMap κ ν} {k : κ} (h : get m k = none) :
    (delete m k).entries.Perm m.entries := by
  refine (List.perm_ext_iff_of_nodup (nodup_entries _) (nodup_entries _)).mpr fun e => ?_
  obtain ⟨j, u⟩ := e
  rw [mem_entries_iff, mem_entries_iff, get_delete]
  split
  · next hj => rw [hj, h]
  · rfl

omit [DecidableEq κ] in
private theorem keys_mapEntries {μ : Type*} (f : κ → ν → μ) (es : List ((_ : κ) × ν)) :
    (es.map fun e => (⟨e.1, f e.1 e.2⟩ : (_ : κ) × μ)).keys = es.keys := by
  rw [List.keys, List.map_map]
  rfl

/-- Change every value. -/
def mapValues {μ : Type*} (f : κ → ν → μ) (m : OrderedMap κ ν) : OrderedMap κ μ :=
  ⟨m.entries.map fun e => ⟨e.1, f e.1 e.2⟩, by
    rw [List.NodupKeys, keys_mapEntries]
    exact m.nodupKeys⟩

/-- Keep the entries that pass a test. -/
def filterEntries (p : κ → ν → Bool) (m : OrderedMap κ ν) : OrderedMap κ ν :=
  ⟨m.entries.filter fun e => p e.1 e.2, m.nodupKeys.sublist List.filter_sublist⟩

/-- Change the value under a key, if there is one. -/
def modify (m : OrderedMap κ ν) (k : κ) (f : ν → ν) : OrderedMap κ ν :=
  (get m k).elim m fun v => set m k (f v)

/-- Reading from a map with mapped values. -/
theorem get_mapValues {μ : Type*} (f : κ → ν → μ) (m : OrderedMap κ ν) (k : κ) :
    get (mapValues f m) k = (get m k).map (f k) := by
  have hentries : ∀ es : List ((_ : κ) × ν),
      List.dlookup k (es.map fun e => (⟨e.1, f e.1 e.2⟩ : (_ : κ) × μ)) =
        (List.dlookup k es).map (f k) := by
    intro es
    induction es with
    | nil => rfl
    | cons e es ih =>
      rw [List.map_cons, dlookup_cons, dlookup_cons, ih]
      split
      · next h =>
        subst h
        rfl
      · rfl
  exact hentries m.entries

/-- Mapping the values commutes with a write. -/
theorem mapValues_set {μ : Type*} (f : κ → ν → μ) (m : OrderedMap κ ν) (k : κ) (v : ν) :
    mapValues f (set m k v) = set (mapValues f m) k (f k v) := by
  have hentries : ∀ es : List ((_ : κ) × ν),
      (setEntries k v es).map (fun e => (⟨e.1, f e.1 e.2⟩ : (_ : κ) × μ)) =
        setEntries k (f k v) (es.map fun e => ⟨e.1, f e.1 e.2⟩) := by
    intro es
    induction es with
    | nil => rfl
    | cons e es ih =>
      rw [setEntries, List.map_cons, setEntries]
      split
      · rfl
      · rw [List.map_cons, ih]
  exact AList.ext (hentries m.entries)

/-- Mapping the values commutes with a deletion. -/
theorem mapValues_delete {μ : Type*} (f : κ → ν → μ) (m : OrderedMap κ ν) (k : κ) :
    mapValues f (delete m k) = delete (mapValues f m) k := by
  have hentries : ∀ es : List ((_ : κ) × ν),
      (List.kerase k es).map (fun e => (⟨e.1, f e.1 e.2⟩ : (_ : κ) × μ)) =
        List.kerase k (es.map fun e => ⟨e.1, f e.1 e.2⟩) := by
    intro es
    rw [List.kerase, List.kerase, List.eraseP_map]
    rfl
  exact AList.ext (hentries m.entries)

omit [DecidableEq κ] in
/-- Mapping the values commutes with a filter that sees the same. -/
theorem mapValues_filterEntries {μ : Type*} {f : κ → ν → μ} {p : κ → ν → Bool}
    {q : κ → μ → Bool} (h : ∀ k v, q k (f k v) = p k v) (m : OrderedMap κ ν) :
    mapValues f (filterEntries p m) = filterEntries q (mapValues f m) := by
  apply AList.ext
  change List.map _ (List.filter _ _) = List.filter _ (List.map _ _)
  rw [List.filter_map]
  congr 1
  apply List.filter_congr
  intro e _
  exact (h e.1 e.2).symm

omit [DecidableEq κ] in
/-- Two maps over the values are one. -/
theorem mapValues_mapValues {μ ξ : Type*} (g : κ → μ → ξ) (f : κ → ν → μ) (m : OrderedMap κ ν) :
    mapValues g (mapValues f m) = mapValues (fun k v => g k (f k v)) m := by
  apply AList.ext
  change List.map _ (List.map _ _) = List.map _ _
  rw [List.map_map]
  rfl

/-- Mapping the values commutes with a modification. -/
theorem mapValues_modify {μ : Type*} {f : κ → ν → μ} {g : ν → ν} {h : μ → μ} {k : κ}
    (hcomm : ∀ v, f k (g v) = h (f k v)) (m : OrderedMap κ ν) :
    mapValues f (modify m k g) = modify (mapValues f m) k h := by
  rw [modify, modify, get_mapValues]
  cases get m k with
  | none => rfl
  | some v => exact (mapValues_set f m k (g v)).trans (congrArg _ (hcomm v))

/-- A modification that does not show in the changed values. -/
theorem mapValues_modify_eq {μ : Type*} {f : κ → ν → μ} {g : ν → ν} {k : κ}
    (hsame : ∀ v, f k (g v) = f k v) (m : OrderedMap κ ν) :
    mapValues f (modify m k g) = mapValues f m := by
  rw [mapValues_modify (h := id) hsame, modify, get_mapValues]
  cases hget : get m k with
  | none => rfl
  | some v =>
    have hvalue : get (mapValues f m) k = some (f k v) := by
      rw [get_mapValues, hget, Option.map_some]
    exact set_of_get hvalue

/-- Reading after a modification. -/
theorem get_modify (m : OrderedMap κ ν) (j k : κ) (f : ν → ν) :
    get (modify m k f) j = if j = k then (get m j).map f else get m j := by
  rw [modify]
  by_cases h : j = k
  · subst h
    rw [if_pos rfl]
    cases hget : get m j with
    | none => exact hget
    | some v => exact get_set_self m j (f v)
  · rw [if_neg h]
    cases get m k with
    | none => rfl
    | some v => exact get_set_ne m (f v) h

omit [DecidableEq κ] in
/-- Mapping the values keeps the keys. -/
theorem mem_mapValues {μ : Type*} {f : κ → ν → μ} {m : OrderedMap κ ν} {k : κ} :
    k ∈ mapValues f m ↔ k ∈ m := by
  rw [AList.mem_keys, AList.mem_keys, AList.keys, AList.keys, mapValues, keys_mapEntries]

/-- Reading from a filtered map. -/
theorem get_filterEntries (p : κ → ν → Bool) (m : OrderedMap κ ν) (k : κ) :
    get (filterEntries p m) k = (get m k).filter (p k) := by
  apply Option.ext
  intro v
  rw [← mem_entries_iff, Option.filter_eq_some_iff, ← mem_entries_iff]
  exact List.mem_filter

/-- There is at most one entry with a key. -/
theorem filter_entries (m : OrderedMap κ ν) (k : κ) :
    m.entries.filter (fun e => e.1 = k) =
      ((get m k).map fun v => (⟨k, v⟩ : (_ : κ) × ν)).toList := by
  have hentries : ∀ es : List ((_ : κ) × ν), es.NodupKeys →
      es.filter (fun e => e.1 = k) =
        ((List.dlookup k es).map fun v => (⟨k, v⟩ : (_ : κ) × ν)).toList := by
    intro es
    induction es with
    | nil => exact fun _ => rfl
    | cons e es ih =>
      intro hnodup
      obtain ⟨hnot, htail⟩ := List.nodupKeys_cons.mp hnodup
      rw [List.filter_cons, dlookup_cons, ih htail]
      by_cases h : e.1 = k
      · subst h
        rw [List.dlookup_eq_none.mpr hnot]
        simp
      · rw [if_neg (by simpa using h), if_neg (Ne.symm h)]
  exact hentries m.entries m.nodupKeys

end OrderedMap

end Ascendance.Core
