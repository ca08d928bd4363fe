import Ascendance.Core.Json

/-!
# Sanitising values for Mongo

`sanitizeForMongo` rebuilds a value without the properties whose names are operators,
paths or names of the prototype chain, and without the properties that hold empty
objects. A date has no own properties, so that it is rebuilt as an empty object: the
function filters exactly the values from which it reaches no date.
-/

namespace Ascendance.Sanitizers

open Ascendance.Core

/-- The property names that are never taken over. -/
def dangerousKeys : List String := ["__proto__", "constructor", "prototype"]

/-- The properties that the loop skips before it looks at their values. -/
def isDangerousKey (key : String) : Bool :=
  key.toList.head? == some '$' || key.toList.contains '.' || dangerousKeys.contains key

/-- The test of the loop on a sanitised value: an object without own properties that is
neither an ObjectId nor an array. -/
def isEmptyObject : Value → Bool
  | .leaf .undefined | .leaf (.scalar _) | .leaf (.objectId _) | .array _ => false
  | .leaf (.date _) => true
  | .object entries => entries.isEmpty

mutual

/-- Drop the dangerous properties and those that are empty objects. -/
def sanitizeForMongo : Value → Value
  | .leaf .undefined => .leaf .undefined
  | .leaf (.scalar s) => .leaf (.scalar s)
  | .leaf (.objectId hex) => .leaf (.objectId hex)
  -- `typeof` a date is "object", and `Object.keys` of it is empty
  | .leaf (.date _) => .object []
  | .array items => .array (sanitizeItems items)
  | .object entries => .object (sanitizeEntries entries)

/-- Sanitise each item. -/
def sanitizeItems : List Value → List Value
  | [] => []
  | t :: ts => sanitizeForMongo t :: sanitizeItems ts

/-- The loop over the own properties, whose names are distinct. -/
def sanitizeEntries : List (String × Value) → List (String × Value)
  | [] => []
  | (key, t) :: es =>
    if isDangerousKey key then sanitizeEntries es
    else if isEmptyObject (sanitizeForMongo t) then sanitizeEntries es
    else (key, sanitizeForMongo t) :: sanitizeEntries es

end

private theorem sanitizeItems_eq (items : List Value) :
    sanitizeItems items = items.map sanitizeForMongo := by
  induction items with
  | nil => rfl
  | cons t ts ih => rw [sanitizeItems, ih, List.map_cons]

/-- Which properties are kept, and with which values. -/
theorem mem_sanitizeEntries {entries : List (String × Value)} {e : String × Value} :
    e ∈ sanitizeEntries entries ↔ ∃ t, (e.1, t) ∈ entries ∧ isDangerousKey e.1 = false ∧
      isEmptyObject (sanitizeForMongo t) = false ∧ e.2 = sanitizeForMongo t := by
  induction entries with
  | nil => simp [sanitizeEntries]
  | cons head es ih =>
    obtain ⟨key, t⟩ := head
    have hhead : (∃ t', (e.1, t') ∈ (key, t) :: es ∧ isDangerousKey e.1 = false ∧
        isEmptyObject (sanitizeForMongo t') = false ∧ e.2 = sanitizeForMongo t') ↔
        (e.1 = key ∧ isDangerousKey key = false ∧ isEmptyObject (sanitizeForMongo t) = false ∧
          e.2 = sanitizeForMongo t) ∨ e ∈ sanitizeEntries es := by
      rw [ih]
      constructor
      · rintro ⟨t', hmem, hkey, hempty, hvalue⟩
        rcases List.mem_cons.mp hmem with heq | hmem
        · obtain ⟨hname, rfl⟩ := Prod.mk.inj heq
          exact .inl ⟨hname, hname ▸ hkey, hempty, hvalue⟩
        · exact .inr ⟨t', hmem, hkey, hempty, hvalue⟩
      · rintro (⟨hname, hkey, hempty, hvalue⟩ | ⟨t', hmem, hrest⟩)
        · exact ⟨t, List.mem_cons.mpr (.inl (by rw [hname])), hname ▸ hkey, hempty, hvalue⟩
        · exact ⟨t', List.mem_cons_of_mem _ hmem, hrest⟩
    rw [hhead, sanitizeEntries]
    split
    · next hkey => simp [hkey]
    · next hkey =>
      split
      · next hempty => simp [hempty]
      · next hempty =>
        rw [List.mem_cons, Prod.ext_iff]
        simp [hkey, hempty]

/-- No object has a dangerous name, at any depth. -/
inductive Safe : Value → Prop
  | leaf (l : Leaf) : Safe (.leaf l)
  | array {items : List Value} (h : ∀ t ∈ items, Safe t) : Safe (.array items)
  | object {entries : List (String × Value)}
      (hkeys : ∀ e ∈ entries, isDangerousKey e.1 = false) (h : ∀ e ∈ entries, Safe e.2) :
      Safe (.object entries)

/-- A date is reached through arrays and through names that are not dangerous. -/
inductive ReachesDate : Value → Prop
  | date (time : ℤ) : ReachesDate (.leaf (.date time))
  | array {items : List Value} {t : Value} (hmem : t ∈ items) (h : ReachesDate t) :
      ReachesDate (.array items)
  | object {entries : List (String × Value)} {e : String × Value} (hmem : e ∈ entries)
      (hkey : isDangerousKey e.1 = false) (h : ReachesDate e.2) : ReachesDate (.object entries)

private theorem safe_sanitizeForMongo (v : Value) : Safe (sanitizeForMongo v) := by
  induction v using Data.induct with
  | leaf l =>
    cases l with
    | date time =>
      exact .object (fun e he => absurd he List.not_mem_nil) fun e he => absurd he List.not_mem_nil
    | undefined | scalar | objectId => exact .leaf _
  | array items ih =>
    rw [sanitizeForMongo, sanitizeItems_eq]
    refine .array fun t ht => ?_
    obtain ⟨t, hmem, rfl⟩ := List.mem_map.mp ht
    exact ih t hmem
  | object entries ih =>
    rw [sanitizeForMongo]
    refine .object (fun e he => ?_) fun e he => ?_
    · obtain ⟨_, _, hkey, _⟩ := mem_sanitizeEntries.mp he
      exact hkey
    · obtain ⟨t, hmem, _, _, hvalue⟩ := mem_sanitizeEntries.mp he
      exact hvalue ▸ ih _ hmem

private theorem not_reachesDate_sanitizeForMongo (v : Value) :
    ¬ReachesDate (sanitizeForMongo v) := by
  induction v using Data.induct with
  | leaf l =>
    cases l with
    | date time =>
      intro h
      cases h with
      | object hmem => cases hmem
    | undefined | scalar | objectId =>
      intro h
      cases h
  | array items ih =>
    rw [sanitizeForMongo, sanitizeItems_eq]
    intro h
    cases h with
    | array hmem h =>
      obtain ⟨t, ht, rfl⟩ := List.mem_map.mp hmem
      exact ih t ht h
  | object entries ih =>
    rw [sanitizeForMongo]
    intro h
    cases h with
    | object hmem hkey h =>
      obtain ⟨t, hmem, _, _, hvalue⟩ := mem_sanitizeEntries.mp hmem
      exact ih _ hmem (hvalue ▸ h)

/-- No date is left for the test of the loop. -/
theorem isEmptyObject_sanitizeForMongo {v : Value}
    (h : isEmptyObject (sanitizeForMongo v) = true) : sanitizeForMongo v = .object [] := by
  have hdate := not_reachesDate_sanitizeForMongo v
  unfold isEmptyObject at h
  split at h
  · cases h
  · cases h
  · cases h
  · cases h
  · next time heq => exact absurd (.date time) (heq ▸ hdate)
  · next heq => rw [heq, List.isEmpty_iff.mp h]

/-- Properties that are all kept as they are. -/
theorem sanitizeEntries_eq_self {entries : List (String × Value)}
    (h : ∀ e ∈ entries, isDangerousKey e.1 = false ∧ isEmptyObject e.2 = false ∧
      sanitizeForMongo e.2 = e.2) : sanitizeEntries entries = entries := by
  induction entries with
  | nil => rfl
  | cons e es ih =>
    obtain ⟨hkey, hempty, hvalue⟩ := h e List.mem_cons_self
    have hes := ih fun e he => h e (List.mem_cons_of_mem _ he)
    rw [sanitizeEntries, hvalue, hkey, hempty, hes]
    simp

/-- Sanitizing twice is sanitizing once. -/
private theorem sanitizeForMongo_idempotent (v : Value) :
    sanitizeForMongo (sanitizeForMongo v) = sanitizeForMongo v := by
  induction v using Data.induct with
  | leaf l => cases l <;> rfl
  | array items ih =>
    rw [sanitizeForMongo, sanitizeForMongo, sanitizeItems_eq, sanitizeItems_eq, List.map_map]
    exact congrArg Data.array (List.map_congr_left ih)
  | object entries ih =>
    rw [sanitizeForMongo, sanitizeForMongo]
    refine congrArg Data.object (sanitizeEntries_eq_self fun e he => ?_)
    obtain ⟨t, hmem, hkey, hempty, hvalue⟩ := mem_sanitizeEntries.mp he
    exact ⟨hkey, hvalue ▸ hempty, hvalue ▸ ih _ hmem⟩

mutual

/-- The second value is the first one without the properties that have dangerous names, or
whose values are or become empty objects. -/
inductive Cleaned : Value → Value → Prop
  | leaf (l : Leaf) : Cleaned (.leaf l) (.leaf l)
  | array {items items' : List Value} (h : CleanedItems items items') :
      Cleaned (.array items) (.array items')
  | object {entries entries' : List (String × Value)} (h : CleanedEntries entries entries') :
      Cleaned (.object entries) (.object entries')

/-- Every item of an array keeps its place. -/
inductive CleanedItems : List Value → List Value → Prop
  | nil : CleanedItems [] []
  | cons {t t' : Value} {ts ts' : List Value} (h : Cleaned t t') (hrest : CleanedItems ts ts') :
      CleanedItems (t :: ts) (t' :: ts')

/-- The properties that are kept stay in their order. -/
inductive CleanedEntries : List (String × Value) → List (String × Value) → Prop
  | nil : CleanedEntries [] []
  | dangerous {key : String} {t : Value} {es es' : List (String × Value)}
      (hkey : isDangerousKey key = true) (hrest : CleanedEntries es es') :
      CleanedEntries ((key, t) :: es) es'
  | empty {key : String} {t : Value} {es es' : List (String × Value)}
      (h : Cleaned t (.object [])) (hrest : CleanedEntries es es') :
      CleanedEntries ((key, t) :: es) es'
  | keep {key : String} {t t' : Value} {es es' : List (String × Value)}
      (hkey : isDangerousKey key = false) (h : Cleaned t t') (hne : t' ≠ .object [])
      (hrest : CleanedEntries es es') : CleanedEntries ((key, t) :: es) ((key, t') :: es')

end

/-- Cleaning keeps the dates that are reached, and with them the properties that lead there. -/
theorem Cleaned.reachesDate {v : Value} (hdate : ReachesDate v) {v' : Value}
    (h : Cleaned v v') : ReachesDate v' := by
  induction hdate generalizing v' with
  | date time =>
    cases h with
    | leaf => exact .date time
  | @array items t hmem _ ih =>
    cases h with
    | @array _ items' h =>
      have hitem : ∃ t' ∈ items', Cleaned t t' := by
        clear ih
        induction items generalizing items' with
        | nil => cases hmem
        | cons head ts ihitems =>
          cases h with
          | @cons _ t' _ ts' h hrest =>
            rcases List.mem_cons.mp hmem with rfl | hmem
            · exact ⟨t', List.mem_cons_self, h⟩
            · obtain ⟨t', hmem', ht'⟩ := ihitems hmem hrest
              exact ⟨t', List.mem_cons_of_mem _ hmem', ht'⟩
      obtain ⟨t', hmem', ht'⟩ := hitem
      exact .array hmem' (ih ht')
  | @object entries e hmem hkey _ ih =>
    cases h with
    | @object _ entries' h =>
      have hentry : ∃ t', (e.1, t') ∈ entries' ∧ Cleaned e.2 t' := by
        induction entries generalizing entries' with
        | nil => cases hmem
        | cons head es ihentries =>
          cases h with
          | dangerous hdangerous hrest =>
            rcases List.mem_cons.mp hmem with rfl | hmem
            · rw [hkey] at hdangerous
              cases hdangerous
            · exact ihentries hmem hrest
          | empty h hrest =>
            rcases List.mem_cons.mp hmem with rfl | hmem
            · -- a value from which a date is reached does not become empty
              cases ih h with
              | object hmem => cases hmem
            · exact ihentries hmem hrest
          | @keep key t t' _ es' _ h _ hrest =>
            rcases List.mem_cons.mp hmem with rfl | hmem
            · exact ⟨t', List.mem_cons_self, h⟩
            · obtain ⟨t', hmem', ht'⟩ := ihentries hmem hrest
              exact ⟨t', List.mem_cons_of_mem _ hmem', ht'⟩
      obtain ⟨t', hmem', ht'⟩ := hentry
      exact .object hmem' hkey (ih ht')

/-- Without a date in its way the function cleans. -/
theorem cleaned_sanitizeForMongo {v : Value} (h : ¬ReachesDate v) :
    Cleaned v (sanitizeForMongo v) := by
  induction v using Data.induct with
  | leaf l =>
    cases l with
    | date time => exact absurd (.date time) h
    | undefined | scalar | objectId => exact .leaf _
  | array items ih =>
    rw [sanitizeForMongo]
    refine .array ?_
    induction items with
    | nil => exact .nil
    | cons t ts ihitems =>
      rw [sanitizeItems]
      refine .cons (ih t List.mem_cons_self fun ht => h (.array List.mem_cons_self ht)) ?_
      refine ihitems (fun t' ht' => ih t' (List.mem_cons_of_mem _ ht')) fun hts => ?_
      cases hts with
      | array hmem ht => exact h (.array (List.mem_cons_of_mem _ hmem) ht)
  | object entries ih =>
    rw [sanitizeForMongo]
    refine .object ?_
    induction entries with
    | nil => exact .nil
    | cons e es ihentries =>
      obtain ⟨key, t⟩ := e
      have hrest : CleanedEntries es (sanitizeEntries es) := by
        refine ihentries (fun e' he' => ih e' (List.mem_cons_of_mem _ he')) fun hes => ?_
        cases hes with
        | object hmem hkey ht => exact h (.object (List.mem_cons_of_mem _ hmem) hkey ht)
      rw [sanitizeEntries]
      split
      · next hkey => exact .dangerous hkey hrest
      · next hkey =>
        have hkey : isDangerousKey key = false := Bool.not_eq_true _ ▸ hkey
        have ht := ih (key, t) List.mem_cons_self fun ht => h (.object List.mem_cons_self hkey ht)
        split
        · next hempty =>
          refine .empty ?_ hrest
          exact isEmptyObject_sanitizeForMongo hempty ▸ ht
        · next hempty =>
          refine .keep hkey ht (fun hobject => hempty ?_) hrest
          exact congrArg isEmptyObject hobject

/-- The result is safe and a fixed point; it is the value cleaned exactly if the value reaches
no date. -/
theorem sanitizeForMongo_exact_iff (v : Value) :
    (Safe (sanitizeForMongo v) ∧ sanitizeForMongo (sanitizeForMongo v) = sanitizeForMongo v ∧
      Cleaned v (sanitizeForMongo v)) ↔ ¬ReachesDate v := by
  constructor
  · rintro ⟨_, _, hcleaned⟩ hdate
    exact not_reachesDate_sanitizeForMongo v (hcleaned.reachesDate hdate)
  · exact fun h => ⟨safe_sanitizeForMongo v, sanitizeForMongo_idempotent v,
      cleaned_sanitizeForMongo h⟩

/-- A document with a date loses it. -/
theorem sanitizeForMongo_createdAt :
    ¬Cleaned (.object [("createdAt", .leaf (.date 0))])
      (sanitizeForMongo (.object [("createdAt", .leaf (.date 0))])) :=
  fun h => not_reachesDate_sanitizeForMongo _
    (h.reachesDate (.object List.mem_cons_self (by decide) (.date 0)))

end Ascendance.Sanitizers
