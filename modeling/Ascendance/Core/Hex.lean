import Mathlib.Data.List.Basic
import Mathlib.Data.Fintype.Basic

/-!
# Hexadecimal text

Bytes are written with two lower-case digits each and read in either case. Reading
gives back what was written, so the text of two byte strings is the same only if they are.
-/

namespace Ascendance.Core.Hex

/-- The lower-case digits. -/
def digits : List Char :=
  ['0', '1', '2', '3', '4', '5', '6', '7', '8', '9', 'a', 'b', 'c', 'd', 'e', 'f']

/-- The value of a digit in either case. -/
def value (c : Char) : Option ℕ :=
  if c.toLower ∈ digits then some (digits.idxOf c.toLower) else none

/-- The hexadecimal digit of a four-bit number. -/
def digit (n : Fin 16) : Char := digits.get n

/-- Reading the digit of a number gives the number back. -/
theorem value_digit (n : Fin 16) : value (digit n) = some n.val := by
  revert n
  decide

/-- The digits of a byte, the high one first. -/
def encodeByte (b : Fin 256) : List Char :=
  [digit ⟨b.val / 16, by omega⟩, digit ⟨b.val % 16, by omega⟩]

/-- Two digits for each byte. -/
def encode (bytes : List (Fin 256)) : List Char := bytes.flatMap encodeByte

/-- Read pairs of digits, up to the first that is none. -/
def decode : List Char → List ℕ
  | a :: b :: rest =>
    match value a, value b with
    | some x, some y => (16 * x + y) :: decode rest
    | _, _ => []
  | _ => []

/-- Decoding the digits of a byte string gives its bytes. -/
theorem decode_encode (bytes : List (Fin 256)) : decode (encode bytes) = bytes.map Fin.val := by
  induction bytes with
  | nil => rfl
  | cons b bytes ih =>
    have hb : 16 * (b.val / 16) + b.val % 16 = b.val := Nat.div_add_mod b.val 16
    change decode (_ :: _ :: encode bytes) = _
    simp only [decode, value_digit, ih, hb, List.map_cons]

/-- The text is twice as long as the byte string. -/
theorem length_encode (bytes : List (Fin 256)) : (encode bytes).length = 2 * bytes.length := by
  induction bytes with
  | nil => rfl
  | cons b bytes ih =>
    change ((encodeByte b) ++ encode bytes).length = _
    rw [List.length_append, ih, List.length_cons]
    change 2 + _ = _
    omega

/-- What is written consists of digits. -/
theorem isSome_value_of_mem_encode {bytes : List (Fin 256)} {c : Char} (h : c ∈ encode bytes) :
    (value c).isSome := by
  obtain ⟨b, -, hc⟩ := List.mem_flatMap.mp h
  obtain rfl | hc := List.mem_cons.mp hc
  · rw [value_digit]
    rfl
  · rw [List.mem_singleton.mp hc, value_digit]
    rfl

end Ascendance.Core.Hex
