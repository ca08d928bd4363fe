import Ascendance.Core.Json
import Ascendance.Core.Lists
import Mathlib.Data.List.Basic

/-!
# Records inside nested data

A search for records goes through arrays and through the properties of an object
that it is told to enter. Records that are found are rewritten or read and not
searched further; properties and items can be removed on the same way.
-/

namespace Ascendance.Core

variable {α : Type*}

/-- The properties of an object. -/
abbrev Fields (α : Type*) := List (String × Data α)

namespace Fields

/-- Set a property: in place when the object has it, else at the end. -/
def set (k : String) (v : Data α) : Fields α → Fields α
  | [] => [(k, v)]
  | e :: es => if e.1 = k then (k, v) :: es else e :: set k v es

/-- The object `{ ...es, ...new }`. -/
def assign (es new : Fields α) : Fields α := new.foldl (fun es e => set e.1 e.2 es) es

/-- The properties outside a list of names. -/
def without (ks : List String) (es : Fields α) : Fields α := es.filter fun e => e.1 ∉ ks

/-- Change the values of the named properties. -/
def mapInside (inside : List String) (f : Data α → Data α) (es : Fields α) : Fields α :=
  es.map fun e => if e.1 ∈ inside then (e.1, f e.2) else e

private theorem lookup_cons_eq (k : String) (e : String × Data α) (es : Fields α) :
    List.lookup k (e :: es) = if e.1 = k then some e.2 else List.lookup k es := by
  rw [List.lookup_cons]
  by_cases h : e.1 = k
  · simp [h]
  · simp [h, beq_eq_false_iff_ne.mpr (Ne.symm h)]

/-- Reading a field after a write. -/
theorem lookup_set (j k : String) (v : Data α) (es : Fields α) :
    List.lookup j (set k v es) = if k = j then some v else List.lookup j es := by
  induction es with
  | nil => rw [set, lookup_cons_eq]
  | cons e es ih =>
    by_cases hk : e.1 = k
    · rw [set, if_pos hk, lookup_cons_eq, lookup_cons_eq, hk]
      split <;> rfl
    · rw [set, if_neg hk, lookup_cons_eq, lookup_cons_eq, ih]
      by_cases hj : e.1 = j
      · rw [if_pos hj, if_pos hj, if_neg fun h => hk (hj.trans h.symm)]
      · rw [if_neg hj, if_neg hj]

/-- Setting a field leaves the others. -/
private theorem lookup_set_ne {j k : String} (v : Data α) (es : Fields α) (h : j ≠ k) :
    List.lookup j (set k v es) = List.lookup j es := by
  rw [lookup_set, if_neg h.symm]

/-- A field that is not left out reads as before. -/
theorem lookup_without {k : String} {ks : List String} (h : k ∉ ks) (es : Fields α) :
    List.lookup k (without ks es) = List.lookup k es := by
  induction es with
  | nil => rfl
  | cons e es ih =>
    rw [without, List.filter_cons, lookup_cons_eq]
    by_cases hk : e.1 = k
    · rw [if_pos hk, if_pos (by simpa [hk] using h), lookup_cons_eq, if_pos hk]
    · rw [if_neg hk]
      split
      · rw [lookup_cons_eq, if_neg hk]
        exact ih
      · exact ih

/-- Setting a removed property leaves no trace. -/
theorem without_set_of_mem {k : String} {ks : List String} (h : k ∈ ks) (v : Data α)
    (es : Fields α) : without ks (set k v es) = without ks es := by
  induction es with
  | nil => simp [set, without, h]
  | cons e es ih =>
    by_cases hk : e.1 = k
    · simp [set, without, hk, h]
    · rw [set, if_neg hk, without, List.filter_cons, without, List.filter_cons]
      rw [without, without] at ih
      rw [ih]

/-- Setting any other property commutes with the removal. -/
theorem without_set_of_notMem {k : String} {ks : List String} (h : k ∉ ks) (v : Data α)
    (es : Fields α) : without ks (set k v es) = set k v (without ks es) := by
  induction es with
  | nil => simp [set, without, h]
  | cons e es ih =>
    by_cases hk : e.1 = k
    · simp [set, without, hk, h]
    · rw [set, if_neg hk]
      by_cases hm : e.1 ∈ ks
      · simpa [without, List.filter_cons, hm] using ih
      · simpa [without, List.filter_cons, hm, set, hk] using ih

/-- A field outside the mapped ones reads as before. -/
theorem lookup_mapInside_of_notMem {inside : List String} {k : String} (h : k ∉ inside)
    (f : Data α → Data α) (es : Fields α) :
    List.lookup k (mapInside inside f es) = List.lookup k es := by
  induction es with
  | nil => rfl
  | cons e es ih =>
    have htail : List.lookup k (mapInside inside f es) = List.lookup k es := ih
    rw [mapInside, List.map_cons, ← mapInside]
    by_cases hi : e.1 ∈ inside
    · have hne : e.1 ≠ k := fun he => h (he ▸ hi)
      rw [if_pos hi, lookup_cons_eq, lookup_cons_eq, if_neg hne, if_neg hne, htail]
    · rw [if_neg hi, lookup_cons_eq, lookup_cons_eq, htail]

/-- A mapped field reads as the image of what it held. -/
theorem lookup_mapInside_of_mem {inside : List String} {k : String} (h : k ∈ inside)
    (f : Data α → Data α) (es : Fields α) :
    List.lookup k (mapInside inside f es) = (List.lookup k es).map f := by
  induction es with
  | nil => rfl
  | cons e es ih =>
    have hhead : (if e.1 ∈ inside then (e.1, f e.2) else e).1 = e.1 := by split <;> rfl
    rw [mapInside, List.map_cons, ← mapInside, lookup_cons_eq, lookup_cons_eq, hhead, ih]
    by_cases hk : e.1 = k
    · have hmem : e.1 ∈ inside := hk ▸ h
      rw [if_pos hk, if_pos hk, if_pos hmem]
      rfl
    · rw [if_neg hk, if_neg hk]

/-- Setting a field outside commutes with a map inside. -/
private theorem mapInside_set {inside : List String} {k : String} (h : k ∉ inside)
    (f : Data α → Data α) (v : Data α) (es : Fields α) :
    mapInside inside f (set k v es) = set k v (mapInside inside f es) := by
  induction es with
  | nil => simp [mapInside, set, h]
  | cons e es ih =>
    by_cases hk : e.1 = k
    · simp [mapInside, set, hk, h]
    · have htail : mapInside inside f (set k v es) = set k v (mapInside inside f es) := ih
      rw [set, if_neg hk, mapInside, List.map_cons, ← mapInside, htail]
      conv_rhs => rw [mapInside, List.map_cons, ← mapInside]
      split <;> rw [set, if_neg hk]

/-- Two maps inside the same fields are one. -/
theorem mapInside_mapInside (inside : List String) (f g : Data α → Data α) (es : Fields α) :
    mapInside inside f (mapInside inside g es) = mapInside inside (f ∘ g) es := by
  unfold mapInside
  rw [List.map_map]
  apply List.map_congr_left
  intro e _
  by_cases h : e.1 ∈ inside <;> simp [h]

/-- Functions that agree on the values of the fields map them alike. -/
theorem mapInside_congr {inside : List String} {f g : Data α → Data α} {es : Fields α}
    (h : ∀ e ∈ es, f e.2 = g e.2) : mapInside inside f es = mapInside inside g es := by
  apply List.map_congr_left
  intro e he
  rw [h e he]

/-- Changes of properties commute when they commute at every value. -/
theorem mapInside_comm {inside inside' : List String} {f g : Data α → Data α} {es : Fields α}
    (h : ∀ e ∈ es, f (g e.2) = g (f e.2)) :
    mapInside inside f (mapInside inside' g es) = mapInside inside' g (mapInside inside f es) := by
  unfold mapInside
  rw [List.map_map, List.map_map]
  apply List.map_congr_left
  intro e he
  have hcomm := h e he
  by_cases hi : e.1 ∈ inside <;> by_cases hi' : e.1 ∈ inside' <;> simp [hi, hi', hcomm]

/-- Leaving fields out commutes with mapping inside fields. -/
theorem without_mapInside (ks inside : List String) (f : Data α → Data α) (es : Fields α) :
    without ks (mapInside inside f es) = mapInside inside f (without ks es) := by
  unfold without mapInside
  rw [List.filter_map]
  congr 1
  apply List.filter_congr
  intro e _
  by_cases h : e.1 ∈ inside <;> simp [h]

/-- A field that is not assigned reads as before. -/
theorem lookup_assign_of_notMem {k : String} {new : Fields α} (h : ∀ e ∈ new, e.1 ≠ k)
    (es : Fields α) : List.lookup k (assign es new) = List.lookup k es := by
  induction new generalizing es with
  | nil => rfl
  | cons e new ih =>
    have hset := lookup_set_ne e.2 es (h e List.mem_cons_self).symm
    exact (ih (fun e' he' => h e' (List.mem_cons_of_mem e he')) _).trans hset

/-- An assignment removes no field. -/
theorem lookup_assign_isSome {k : String} {es : Fields α} (h : (List.lookup k es).isSome = true)
    (new : Fields α) : (List.lookup k (assign es new)).isSome = true := by
  induction new generalizing es with
  | nil => exact h
  | cons e new ih =>
    apply ih
    rw [lookup_set]
    split
    · rfl
    · exact h

/-- Assigning fields that are left out changes nothing. -/
theorem without_assign {ks : List String} {new : Fields α} (h : ∀ e ∈ new, e.1 ∈ ks)
    (es : Fields α) : without ks (assign es new) = without ks es := by
  induction new generalizing es with
  | nil => rfl
  | cons e new ih =>
    have hset := without_set_of_mem (h e List.mem_cons_self) e.2 es
    exact (ih (fun e' he' => h e' (List.mem_cons_of_mem e he')) _).trans hset

/-- Leaving fields out commutes with assigning others. -/
theorem without_assign_of_notMem {ks : List String} {new : Fields α} (h : ∀ e ∈ new, e.1 ∉ ks)
    (es : Fields α) : without ks (assign es new) = assign (without ks es) new := by
  induction new generalizing es with
  | nil => rfl
  | cons e new ih =>
    have hset := without_set_of_notMem (h e List.mem_cons_self) e.2 es
    have htail := ih (fun e' he' => h e' (List.mem_cons_of_mem e he')) (set e.1 e.2 es)
    rw [hset] at htail
    exact htail

/-- Mapping inside fields commutes with assigning others. -/
theorem mapInside_assign {inside : List String} {new : Fields α} (h : ∀ e ∈ new, e.1 ∉ inside)
    (f : Data α → Data α) (es : Fields α) :
    mapInside inside f (assign es new) = assign (mapInside inside f es) new := by
  induction new generalizing es with
  | nil => rfl
  | cons e new ih =>
    have hset := mapInside_set (h e List.mem_cons_self) f e.2 es
    have htail := ih (fun e' he' => h e' (List.mem_cons_of_mem e he')) (set e.1 e.2 es)
    rw [hset] at htail
    exact htail

end Fields

namespace Data

mutual

/-- Rewrite the records that are found. -/
def rewrite (inside : List String) (here : Fields α → Option (Fields α)) : Data α → Data α
  | .leaf a => .leaf a
  | .array items => .array (rewriteItems inside here items)
  | .object es => .object ((here es).getD (rewriteFields inside here es))

/-- Rewrite each item of a list. -/
def rewriteItems (inside : List String) (here : Fields α → Option (Fields α)) :
    List (Data α) → List (Data α)
  | [] => []
  | t :: ts => t.rewrite inside here :: rewriteItems inside here ts

/-- Rewrite inside the named fields. -/
def rewriteFields (inside : List String) (here : Fields α → Option (Fields α)) :
    List (String × Data α) → List (String × Data α)
  | [] => []
  | (k, t) :: es =>
    (if k ∈ inside then (k, t.rewrite inside here) else (k, t)) :: rewriteFields inside here es

end

mutual

/-- The records that are found. Properties are entered in the order in which they are named. -/
def records (inside : List String) (here : Fields α → Bool) : Data α → List (Fields α)
  | .leaf _ => []
  | .array items => recordsItems inside here items
  | .object es =>
    if here es then [es]
    else inside.flatMap fun k => (List.lookup k (recordsFields inside here es)).getD []

/-- The records of each item of a list. -/
def recordsItems (inside : List String) (here : Fields α → Bool) :
    List (Data α) → List (Fields α)
  | [] => []
  | t :: ts => t.records inside here ++ recordsItems inside here ts

/-- The records of each field. -/
def recordsFields (inside : List String) (here : Fields α → Bool) :
    List (String × Data α) → List (String × List (Fields α))
  | [] => []
  | (k, t) :: es => (k, t.records inside here) :: recordsFields inside here es

end

mutual

/-- Remove properties from every object on the way. -/
def strip (inside : List String) (lost : Fields α → List String) : Data α → Data α
  | .leaf a => .leaf a
  | .array items => .array (stripItems inside lost items)
  | .object es => .object (Fields.without (lost es) (stripFields inside lost es))

/-- Strip each item of a list. -/
def stripItems (inside : List String) (lost : Fields α → List String) :
    List (Data α) → List (Data α)
  | [] => []
  | t :: ts => t.strip inside lost :: stripItems inside lost ts

/-- Strip inside the named fields. -/
def stripFields (inside : List String) (lost : Fields α → List String) :
    List (String × Data α) → List (String × Data α)
  | [] => []
  | (k, t) :: es =>
    (if k ∈ inside then (k, t.strip inside lost) else (k, t)) :: stripFields inside lost es

end

mutual

/-- Drop items from every array on the way. -/
def prune (inside : List String) (gone : Data α → Bool) : Data α → Data α
  | .leaf a => .leaf a
  | .array items => .array (pruneItems inside gone items)
  | .object es => .object (pruneFields inside gone es)

/-- Drop the items that are gone and prune the others. -/
def pruneItems (inside : List String) (gone : Data α → Bool) : List (Data α) → List (Data α)
  | [] => []
  | t :: ts =>
    if gone t then pruneItems inside gone ts else t.prune inside gone :: pruneItems inside gone ts

/-- Prune inside the named fields. -/
def pruneFields (inside : List String) (gone : Data α → Bool) :
    List (String × Data α) → List (String × Data α)
  | [] => []
  | (k, t) :: es =>
    (if k ∈ inside then (k, t.prune inside gone) else (k, t)) :: pruneFields inside gone es

end

section Equations

variable (inside : List String) (here : Fields α → Option (Fields α)) (is : Fields α → Bool)
  (lost : Fields α → List String) (gone : Data α → Bool)

@[simp] theorem rewrite_leaf (a : α) : (leaf a).rewrite inside here = leaf a := rfl

@[simp] theorem rewrite_array (items : List (Data α)) :
    (array items).rewrite inside here = array (items.map (rewrite inside here)) := by
  have hitems : rewriteItems inside here items = items.map (rewrite inside here) := by
    induction items with
    | nil => rfl
    | cons t ts ih => exact congrArg (List.cons _) ih
  exact congrArg array hitems

@[simp] theorem rewrite_object (es : Fields α) :
    (object es).rewrite inside here =
      object ((here es).getD (Fields.mapInside inside (rewrite inside here) es)) := by
  have hfields :
      rewriteFields inside here es = Fields.mapInside inside (rewrite inside here) es := by
    induction es with
    | nil => rfl
    | cons e es ih => exact congrArg (List.cons _) ih
  exact congrArg (fun fields => object ((here es).getD fields)) hfields

@[simp] theorem records_leaf (a : α) : (leaf a).records inside is = [] := rfl

@[simp] theorem records_array (items : List (Data α)) :
    (array items).records inside is = items.flatMap (records inside is) := by
  have hitems : recordsItems inside is items = items.flatMap (records inside is) := by
    induction items with
    | nil => rfl
    | cons t ts ih => exact congrArg (t.records inside is ++ ·) ih
  exact hitems

/-- A field of the records is the record of the field. -/
private theorem lookup_recordsFields (k : String) (es : Fields α) :
    List.lookup k (recordsFields inside is es) = (List.lookup k es).map (records inside is) := by
  induction es with
  | nil => rfl
  | cons e es ih =>
    change List.lookup k ((e.1, e.2.records inside is) :: recordsFields inside is es) = _
    rw [List.lookup_cons, List.lookup_cons, ih]
    split <;> rfl

@[simp] theorem records_object (es : Fields α) :
    (object es).records inside is = if is es then [es]
      else inside.flatMap fun k => ((List.lookup k es).map (records inside is)).getD [] := by
  have hfields : ∀ k, (List.lookup k (recordsFields inside is es)).getD [] =
      ((List.lookup k es).map (records inside is)).getD [] := by
    intro k
    rw [lookup_recordsFields]
  change (if is es then [es] else inside.flatMap _) = _
  simp only [hfields]

@[simp] theorem strip_leaf (a : α) : (leaf a).strip inside lost = leaf a := rfl

@[simp] theorem strip_array (items : List (Data α)) :
    (array items).strip inside lost = array (items.map (strip inside lost)) := by
  have hitems : stripItems inside lost items = items.map (strip inside lost) := by
    induction items with
    | nil => rfl
    | cons t ts ih => exact congrArg (List.cons _) ih
  exact congrArg array hitems

@[simp] theorem strip_object (es : Fields α) :
    (object es).strip inside lost =
      object (Fields.without (lost es) (Fields.mapInside inside (strip inside lost) es)) := by
  have hfields : stripFields inside lost es = Fields.mapInside inside (strip inside lost) es := by
    induction es with
    | nil => rfl
    | cons e es ih => exact congrArg (List.cons _) ih
  exact congrArg (fun fields => object (Fields.without (lost es) fields)) hfields

@[simp] theorem prune_leaf (a : α) : (leaf a).prune inside gone = leaf a := rfl

@[simp] theorem prune_array (items : List (Data α)) :
    (array items).prune inside gone =
      array ((items.filter fun t => !gone t).map (prune inside gone)) := by
  have hitems : pruneItems inside gone items =
      (items.filter fun t => !gone t).map (prune inside gone) := by
    induction items with
    | nil => rfl
    | cons t ts ih =>
      change (if gone t then pruneItems inside gone ts
        else t.prune inside gone :: pruneItems inside gone ts) = _
      rw [ih, List.filter_cons]
      cases gone t <;> rfl
  exact congrArg array hitems

@[simp] theorem prune_object (es : Fields α) :
    (object es).prune inside gone = object (Fields.mapInside inside (prune inside gone) es) := by
  have hfields : pruneFields inside gone es = Fields.mapInside inside (prune inside gone) es := by
    induction es with
    | nil => rfl
    | cons e es ih => exact congrArg (List.cons _) ih
  exact congrArg object hfields

end Equations

/-- Every record that is found is one that is searched for. -/
theorem of_mem_records {inside : List String} {is : Fields α → Bool} {t : Data α} {es : Fields α}
    (h : es ∈ t.records inside is) : is es = true := by
  induction t using Data.induct with
  | leaf a => cases h
  | array items ih =>
    rw [records_array] at h
    obtain ⟨t, ht, hmem⟩ := List.mem_flatMap.mp h
    exact ih t ht hmem
  | object entries ih =>
    rw [records_object] at h
    split at h
    · next his =>
      obtain rfl := List.mem_singleton.mp h
      exact his
    · obtain ⟨k, -, hmem⟩ := List.mem_flatMap.mp h
      cases hv : List.lookup k entries with
      | none =>
        rw [hv] at hmem
        cases hmem
      | some v =>
        rw [hv] at hmem
        exact ih (k, v) (mem_of_lookup hv) hmem

end Data

end Ascendance.Core
