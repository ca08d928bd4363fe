import Mathlib.Data.Rat.Floor

/-!
# Numbers of the source language

A number is not-a-number, an infinity or finite. Finite values are rationals,
which contain every double.
-/

namespace Ascendance.Core

/-- A number of the source language. -/
inductive JsNumber
  | nan
  | infinity (negative : Bool)
  | finite (q : ℚ)
  deriving DecidableEq, Repr

namespace JsNumber

/-- `Number.isFinite`. -/
def isFinite : JsNumber → Bool
  | nan | infinity _ => false
  | finite _ => true

/-- `Number.isSafeInteger`: an integer whose magnitude is below `2 ^ 53`. -/
def isSafeInteger : JsNumber → Bool
  | nan | infinity _ => false
  | finite q => q.den == 1 && decide (q.num.natAbs < 2 ^ 53)

/-- The finite value that passes a test, or the fallback. -/
def finiteOr (n : JsNumber) (ok : ℚ → Bool) (fallback : ℚ) : ℚ :=
  match n with
  | nan | infinity _ => fallback
  | finite q => if ok q then q else fallback

/-- A safe integer of at least `least`, or the fallback. -/
def safeIntegerOr (n : JsNumber) (least : Int) (fallback : Int) : Int :=
  match n with
  | nan | infinity _ => fallback
  | finite q => if isSafeInteger (finite q) ∧ least ≤ q.num then q.num else fallback

/-- The bound holds of the configured value and of a fallback that meets it. -/
theorem le_safeIntegerOr (n : JsNumber) {least fallback : Int} (h : least ≤ fallback) :
    least ≤ n.safeIntegerOr least fallback := by
  cases n with
  | nan | infinity _ => exact h
  | finite q =>
    simp only [safeIntegerOr]
    split
    · next hq => exact hq.2
    · exact h

end JsNumber

end Ascendance.Core
