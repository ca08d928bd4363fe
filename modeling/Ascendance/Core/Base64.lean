import Mathlib.Data.List.Basic

/-!
# Base64 for URLs

Three bytes are four digits of six bits; one or two bytes at the end are two or
three digits, and nothing is padded. Decoding takes both alphabets and passes over
everything else.
-/

namespace Ascendance.Core.Base64

/-- The digits of the alphabet for URLs, in their order. -/
def alphabet : List Char :=
  "ABCDEFGHIJKLMNOPQRSTUVWXYZabcdefghijklmnopqrstuvwxyz0123456789-_".toList

/-- The character of a digit. -/
def digit (n : ℕ) : Char := alphabet.getD n 'A'

/-- The digit of a character; the standard alphabet ends in other characters. -/
def value (c : Char) : Option ℕ :=
  if c = '+' then some 62 else if c = '/' then some 63 else alphabet.findIdx? (· == c)

/-- The digits of bytes. -/
def digits : List UInt8 → List ℕ
  | [] => []
  | [a] => [a.toNat / 4, a.toNat % 4 * 16]
  | [a, b] => [a.toNat / 4, a.toNat % 4 * 16 + b.toNat / 16, b.toNat % 16 * 4]
  | a :: b :: c :: bytes =>
    a.toNat / 4 :: (a.toNat % 4 * 16 + b.toNat / 16) :: (b.toNat % 16 * 4 + c.toNat / 64) ::
      c.toNat % 64 :: digits bytes

/-- The bytes of digits; bits that fill no byte are dropped. -/
def bytes : List ℕ → List UInt8
  | w :: x :: y :: z :: digits =>
    UInt8.ofNat (w * 4 + x / 16) :: UInt8.ofNat (x % 16 * 16 + y / 4) ::
      UInt8.ofNat (y % 4 * 64 + z) :: bytes digits
  | [w, x, y] => [UInt8.ofNat (w * 4 + x / 16), UInt8.ofNat (x % 16 * 16 + y / 4)]
  | [w, x] => [UInt8.ofNat (w * 4 + x / 16)]
  | _ => []

/-- The Base64 text of a byte string. -/
def encode (data : List UInt8) : List Char := (digits data).map digit

/-- The bytes that a Base64 text stands for; characters outside the alphabet are skipped. -/
def decode (text : List Char) : List UInt8 := bytes (text.filterMap value)

private theorem digits_lt (data : List UInt8) : ∀ n ∈ digits data, n < 64 := by
  fun_induction digits data with
  | case1 => simp
  | case2 a =>
    have ha := a.toNat_lt
    simp only [List.mem_cons, List.not_mem_nil, or_false, forall_eq_or_imp, forall_eq]
    omega
  | case3 a b =>
    have ha := a.toNat_lt
    have hb := b.toNat_lt
    simp only [List.mem_cons, List.not_mem_nil, or_false, forall_eq_or_imp, forall_eq]
    omega
  | case4 a b c data ih =>
    have ha := a.toNat_lt
    have hb := b.toNat_lt
    have hc := c.toNat_lt
    simp only [List.mem_cons, forall_eq_or_imp]
    refine ⟨by omega, by omega, by omega, by omega, ih⟩

/-- Three bytes give four digits, and fewer at the end give one more than their number. -/
private theorem length_digits (data : List UInt8) :
    (digits data).length = (4 * data.length + 2) / 3 := by
  fun_induction digits data with
  | case1 => rfl
  | case2 => simp only [List.length_cons, List.length_nil]
  | case3 => simp only [List.length_cons, List.length_nil]
  | case4 a b c data ih =>
    simp only [List.length_cons, ih]
    omega

private theorem ofNat_eq {a : UInt8} {n : ℕ} (h : n = a.toNat) : UInt8.ofNat n = a := by
  rw [h, UInt8.ofNat_toNat]

private theorem bytes_digits (data : List UInt8) : bytes (digits data) = data := by
  fun_induction digits data with
  | case1 => rfl
  | case2 a =>
    have ha := a.toNat_lt
    rw [bytes, ofNat_eq (a := a) (by omega)]
  | case3 a b =>
    have ha := a.toNat_lt
    have hb := b.toNat_lt
    rw [bytes, ofNat_eq (a := a) (by omega), ofNat_eq (a := b) (by omega)]
  | case4 a b c data ih =>
    have ha := a.toNat_lt
    have hb := b.toNat_lt
    have hc := c.toNat_lt
    rw [bytes, ih, ofNat_eq (a := a) (by omega), ofNat_eq (a := b) (by omega),
      ofNat_eq (a := c) (by omega)]

/-- Reading the character of a sextet gives the sextet back. -/
theorem value_digit {n : ℕ} (h : n < 64) : value (digit n) = some n := by
  have hall : ∀ m : Fin 64, value (digit m) = some m.val := by decide +kernel
  exact hall ⟨n, h⟩

/-- Decoding gives back the bytes that were encoded. -/
theorem decode_encode (data : List UInt8) : decode (encode data) = data := by
  have hvalues : (encode data).filterMap value = digits data := by
    unfold encode
    rw [List.filterMap_map]
    refine (List.filterMap_congr fun n hn => ?_).trans List.filterMap_some
    exact value_digit (digits_lt data n hn)
  unfold decode
  rw [hvalues, bytes_digits]

/-- Four characters stand for three bytes, rounded up and without padding. -/
theorem length_encode (data : List UInt8) :
    (encode data).length = (4 * data.length + 2) / 3 := by
  unfold encode
  rw [List.length_map, length_digits]

/-- A digit is a letter, a number, a hyphen or an underscore. -/
theorem mem_encode {data : List UInt8} {c : Char} (h : c ∈ encode data) :
    (c.isAlphanum || c == '-' || c == '_') = true := by
  have hall : ∀ m : Fin 64,
      ((digit m).isAlphanum || digit m == '-' || digit m == '_') = true := by decide +kernel
  obtain ⟨n, hn, rfl⟩ := List.mem_map.mp h
  exact hall ⟨n, digits_lt data n hn⟩

end Ascendance.Core.Base64
