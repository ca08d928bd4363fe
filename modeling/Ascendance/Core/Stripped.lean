import Ascendance.Core.Records

/-!
# What a search sees of changed data

A search finds the rewritten records in rewritten data. Removing properties from every
record on the way keeps what a search decides as long as it does not decide by them; so
a rewriting of those properties only is invisible once they are removed.
-/

namespace Ascendance.Core.Data

variable {α : Type*} {inside inside' : List String} {here : Fields α → Option (Fields α)}
  {is : Fields α → Bool} {lost : Fields α → List String} {gone : Data α → Bool}
  {u : Fields α → Fields α}

/-- One object with its lost properties removed and its other properties changed. -/
def bare (inside : List String) (lost : Fields α → List String) (f : Data α → Data α)
    (es : Fields α) : Fields α :=
  Fields.without (lost es) (Fields.mapInside inside f es)

private theorem bare_eq (f : Data α → Data α) (es : Fields α) :
    bare inside lost f es = Fields.without (lost es) (Fields.mapInside inside f es) := rfl

/-- Stripping a record leaves its bare fields, stripped. -/
theorem strip_bare (es : Fields α) :
    (object es).strip inside lost = object (bare inside lost (strip inside lost) es) :=
  strip_object inside lost es

/-- A rewriting that commutes with the removal at each object commutes with it in depth. -/
theorem rewrite_strip (hlost : ∀ f es, lost (Fields.mapInside inside f es) = lost es)
    (hhere : ∀ f es, here (bare inside lost f es) = (here es).map (bare inside lost f))
    (t : Data α) :
    (t.strip inside lost).rewrite inside here = (t.rewrite inside here).strip inside lost := by
  induction t using Data.induct with
  | leaf a => rfl
  | array items ih =>
    simp only [strip_array, rewrite_array, List.map_map]
    refine congrArg array (List.map_congr_left fun t ht => ?_)
    exact ih t ht
  | object es ih =>
    rw [strip_bare, rewrite_object, rewrite_object, hhere, strip_bare]
    refine congrArg object ?_
    cases here es with
    | some es' => rfl
    | none =>
      simp only [Option.map_none, Option.getD_none, bare_eq]
      rw [hlost, ← Fields.without_mapInside, Fields.mapInside_mapInside, Fields.mapInside_mapInside]
      refine congrArg (Fields.without _) (Fields.mapInside_congr fun e he => ?_)
      exact ih e he

/-- A rewriting that changes nothing but lost properties is invisible. -/
theorem strip_rewrite (hlost : ∀ f es, lost (Fields.mapInside inside f es) = lost es)
    (hhere : ∀ f es es', here es = some es' → bare inside lost f es' = bare inside lost f es)
    (t : Data α) : (t.rewrite inside here).strip inside lost = t.strip inside lost := by
  induction t using Data.induct with
  | leaf a => rfl
  | array items ih =>
    simp only [strip_array, rewrite_array, List.map_map]
    refine congrArg array (List.map_congr_left fun t ht => ?_)
    exact ih t ht
  | object es ih =>
    rw [rewrite_object, strip_bare, strip_bare]
    refine congrArg object ?_
    cases hes : here es with
    | some es' => exact hhere _ es es' hes
    | none =>
      simp only [Option.getD_none, bare_eq]
      rw [hlost, Fields.mapInside_mapInside]
      refine congrArg (Fields.without _) (Fields.mapInside_congr fun e he => ?_)
      exact ih e he

/-- Dropping items commutes with the removal when the choice of the items does not depend on it. -/
theorem prune_strip (hlost : ∀ f es, lost (Fields.mapInside inside' f es) = lost es)
    (hgone : ∀ t : Data α, gone (t.strip inside lost) = gone t) (t : Data α) :
    (t.strip inside lost).prune inside' gone = (t.prune inside' gone).strip inside lost := by
  induction t using Data.induct with
  | leaf a => rfl
  | array items ih =>
    rw [strip_array, prune_array, prune_array, strip_array, List.filter_map, List.map_map,
      List.map_map]
    have hkept : (items.filter ((fun t => !gone t) ∘ strip inside lost)) =
        items.filter fun t => !gone t := by
      apply List.filter_congr
      intro t _
      simp only [Function.comp_apply, hgone]
    rw [hkept]
    refine congrArg array (List.map_congr_left fun t ht => ?_)
    exact ih t (List.mem_of_mem_filter ht)
  | object es ih =>
    rw [strip_object, prune_object, prune_object, strip_object, hlost, ← Fields.without_mapInside]
    refine congrArg (fun fields => object (Fields.without (lost es) fields))
      (Fields.mapInside_comm fun e he => ?_)
    exact ih e he

/-- The records of rewritten data are the rewritten records. -/
theorem records_rewrite (his : ∀ f es, is (Fields.mapInside inside f es) = is es)
    (hu : ∀ es, is es = true → is (u es) = true) (t : Data α) :
    (t.rewrite inside fun es => if is es then some (u es) else none).records inside is =
      (t.records inside is).map u := by
  induction t using Data.induct with
  | leaf a => rfl
  | array items ih =>
    rw [rewrite_array, records_array, records_array, List.flatMap_map, List.map_flatMap]
    apply List.flatMap_congr
    intro t ht
    exact ih t ht
  | object es ih =>
    cases hes : is es with
    | true => simp [hes, hu es hes]
    | false =>
      rw [rewrite_object, if_neg (by simp [hes]), Option.getD_none, records_object, his,
        records_object, if_neg (by simp [hes]), if_neg (by simp [hes]), List.map_flatMap]
      apply List.flatMap_congr
      intro k hk
      rw [Fields.lookup_mapInside_of_mem hk]
      cases hv : List.lookup k es with
      | none => rfl
      | some v => exact ih (k, v) (mem_of_lookup hv)

/-- The records of stripped data are the stripped records. -/
theorem records_strip (his : ∀ f es, is (bare inside lost f es) = is es)
    (hinside : ∀ es, ∀ k ∈ inside, k ∉ lost es) (t : Data α) :
    (t.strip inside lost).records inside is =
      (t.records inside is).map (bare inside lost (strip inside lost)) := by
  induction t using Data.induct with
  | leaf a => rfl
  | array items ih =>
    rw [strip_array, records_array, records_array, List.flatMap_map, List.map_flatMap]
    apply List.flatMap_congr
    intro t ht
    exact ih t ht
  | object es ih =>
    rw [strip_bare, records_object, his, records_object]
    cases is es with
    | true => rfl
    | false =>
      rw [if_neg Bool.false_ne_true, if_neg Bool.false_ne_true, List.map_flatMap]
      apply List.flatMap_congr
      intro k hk
      rw [bare_eq, Fields.lookup_without (hinside es k hk), Fields.lookup_mapInside_of_mem hk]
      cases hv : List.lookup k es with
      | none => rfl
      | some v => exact ih (k, v) (mem_of_lookup hv)

end Ascendance.Core.Data
