import Ascendance.Models.ErrorSerialization.Fields

/-!
# Bounded trees

Each call describes the node of its place, whatever stands below; one induction over the way to
a node then covers the tree. A mark is passed on upwards along the way.
-/

namespace Ascendance.ErrorSerialization

open Ascendance.Core

variable {ι : Type*}

section

variable [DecidableEq ι] {w : World ι} {error : Value ι} {place : Place}

section

variable {levels : ℕ} {active : List ι} {value : Value ι}

/-- What a call knows about its place: the value that stands there, and the objects above. -/
structure Called (w : World ι) (error : Value ι) (levels : ℕ) (place : Place) (active : List ι)
    (value : Value ι) : Prop where
  value : valueAt w error place = some value
  active : ∀ id, id ∈ active ↔ id ∈ objectsAbove w error place
  levels : place.length + levels = MAX_ERROR_DEPTH

omit [DecidableEq ι] in
private theorem eq_object_of_errorLike {object : ι} (h : errorLike w place value = some object) :
    value = .object object := by
  cases value with
  | object id =>
    rw [errorLike] at h
    split at h
    · rw [Option.some.inj h]
    · cases h
  | undefined | null | text | number | boolean | primitive => cases h

omit [DecidableEq ι] in
/-- One step deeper. -/
theorem Called.step {object : ι} {step : Step} {inner : Value ι}
    (h : Called w error (levels + 1) place active value)
    (hvalue : errorLike w place value = some object)
    (hinner : value.inside w place step = some inner) :
    Called w error levels (place ++ [step]) (object :: active) inner where
  value := by rw [valueAt_concat, h.value, Option.bind_some, hinner]
  active id := by
    rw [mem_objectsAbove_concat (eq_object_of_errorLike hvalue ▸ h.value), List.mem_cons,
      h.active id]
  levels := by
    rw [List.length_append, List.length_singleton, Nat.add_assoc, Nat.add_comm 1, h.levels]

end

end

end Ascendance.ErrorSerialization
