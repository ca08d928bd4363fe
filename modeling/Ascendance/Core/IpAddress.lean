import Ascendance.Core.Text

/-!
# IP addresses

The test of `node:net` for the text of an IP address: dotted decimal without leading
zeros, or groups of hexadecimal digits, of which one run may be left out and the last
two may be in dotted decimal, with an optional zone. Such a text has no white space, no
comma and no bracket, and never exactly one colon.
-/

namespace Ascendance.Core

/-- The value of decimal digits. -/
def decimalValue (digits : List Char) : ℕ :=
  digits.foldl (fun n c => 10 * n + (c.toNat - '0'.toNat)) 0

/-- A number up to 255 without leading zeros. -/
def isOctet (text : List Char) : Bool :=
  text != [] && text.all isDecimalDigit && (text.head? != some '0' || text.length == 1) &&
    decimalValue text ≤ 255

/-- Four decimal octets separated by dots. -/
def isIPv4 (text : List Char) : Bool :=
  (text.splitOn '.').length == 4 && (text.splitOn '.').all isOctet

/-- One to four hexadecimal digits. -/
def isHexGroup (text : List Char) : Bool :=
  text != [] && text.length ≤ 4 && text.all isHexDigit

/-- How many groups a text has between colons; an IPv4 address at the end counts as two. -/
def groupCount (dotted : Bool) (text : List Char) : Option ℕ :=
  let groups := text.splitOn ':'
  if text = [] then some 0
  else if groups.all isHexGroup then some groups.length
  else if dotted && groups.dropLast.all isHexGroup && groups.getLast?.any isIPv4 then
    some (groups.length + 1)
  else none

/-- The texts on the two sides of the first `::`. -/
def cutDoubleColon : List Char → Option (List Char × List Char)
  | [] => none
  | [_] => none
  | c :: d :: text =>
    if c = ':' ∧ d = ':' then some ([], text)
    else (cutDoubleColon (d :: text)).map fun sides => (c :: sides.1, sides.2)

/-- Eight groups, or at most seven around one double colon. -/
def isIPv6Address (text : List Char) : Bool :=
  match cutDoubleColon text with
  | none => groupCount true text == some 8
  | some (left, right) =>
    match groupCount false left, groupCount true right with
    | some l, some r => l + r ≤ 7
    | _, _ => false

/-- The characters of a zone identifier. -/
def isZoneChar (c : Char) : Bool :=
  isDecimalDigit c || isLetter c || c == '-' || c == '.' || c == ':'

/-- An IPv6 address, with or without a zone after `%`. -/
def isIPv6 (text : List Char) : Bool :=
  match text.splitOn '%' with
  | [address] => isIPv6Address address
  | [address, zone] => isIPv6Address address && zone != [] && zone.all isZoneChar
  | _ => false

/-- `isIP` of `node:net`: 4, 6, or 0 for a text that is not an address. -/
def isIP (text : String) : ℕ :=
  if isIPv4 text.toList then 4 else if isIPv6 text.toList then 6 else 0

example : isIP "::ffff:10.0.0.1" = 6 ∧ isIP "fe80::1%eth0" = 6 ∧ isIP "1:2:3:4:5:6:7::" = 6 ∧
    isIP "10.0.0.01" = 0 ∧ isIP "1:2:3:4:5:6:7:8:9" = 0 ∧ isIP "::1::" = 0 := by
  decide +kernel

/-- The characters that addresses and zones are written with. -/
def isAddressChar (c : Char) : Bool :=
  isDecimalDigit c || isLetter c || c == '-' || c == '.' || c == ':' || c == '%'

private theorem isAddressChar_of_isZoneChar {c : Char} (h : isZoneChar c = true) :
    isAddressChar c = true := by
  unfold isAddressChar
  unfold isZoneChar at h
  rw [h]
  rfl

private theorem isZoneChar_of_isHexDigit {c : Char} (h : isHexDigit c = true) :
    isZoneChar c = true := by
  simp only [isHexDigit, isZoneChar, isLetter, Bool.or_eq_true, Bool.and_eq_true,
    decide_eq_true_eq, beq_iff_eq] at h ⊢
  have hf : 'f' ≤ 'z' := by decide
  have hF : 'F' ≤ 'Z' := by decide
  rcases h with (hdigit | ⟨ha, hc⟩) | ⟨ha, hc⟩
  · exact .inl (.inl (.inl (.inl hdigit)))
  · exact .inl (.inl (.inl (.inr (.inl ⟨ha, Char.le_trans hc hf⟩))))
  · exact .inl (.inl (.inl (.inr (.inr ⟨ha, Char.le_trans hc hF⟩))))

/-- An IPv4 address has only characters of a zone. -/
private theorem isZoneChar_of_isIPv4 {text : List Char} (h : isIPv4 text = true) :
    ∀ c ∈ text, isZoneChar c = true := by
  rw [isIPv4, Bool.and_eq_true, List.all_eq_true] at h
  refine forall_mem_of_splitOn '.' rfl fun part hpart c hc => ?_
  have hoctet := h.2 part hpart
  simp only [isOctet, Bool.and_eq_true, List.all_eq_true] at hoctet
  have hdigit := hoctet.1.1.2 c hc
  rw [isZoneChar, hdigit]
  rfl

private theorem isZoneChar_of_isHexGroup {text : List Char} (h : isHexGroup text = true) :
    ∀ c ∈ text, isZoneChar c = true := by
  simp only [isHexGroup, Bool.and_eq_true, List.all_eq_true] at h
  exact fun c hc => isZoneChar_of_isHexDigit (h.2 c hc)

/-- Counted groups have only characters of a zone. -/
private theorem isZoneChar_of_groupCount {dotted : Bool} {text : List Char} {n : ℕ}
    (h : groupCount dotted text = some n) : ∀ c ∈ text, isZoneChar c = true := by
  rw [groupCount] at h
  split at h
  · next hnil => exact fun c hc => absurd (hnil ▸ hc) List.not_mem_nil
  · split at h
    · next hall =>
      exact forall_mem_of_splitOn ':' rfl fun part hpart =>
        isZoneChar_of_isHexGroup (List.all_eq_true.mp hall part hpart)
    · split at h
      · next hlast =>
        rw [Bool.and_eq_true, Bool.and_eq_true, List.all_eq_true, Option.any_eq_true] at hlast
        obtain ⟨⟨_, hgroups⟩, last, hlast, hdotted⟩ := hlast
        refine forall_mem_of_splitOn ':' rfl fun part hpart => ?_
        rw [← List.dropLast_append_getLast? last hlast] at hpart
        rcases List.mem_append.mp hpart with hpart | hpart
        · exact isZoneChar_of_isHexGroup (hgroups part hpart)
        · rw [List.mem_singleton.mp hpart]
          exact isZoneChar_of_isIPv4 hdotted
      · cases h

/-- What is cut at a double colon is the text around it. -/
private theorem cutDoubleColon_eq {text left right : List Char}
    (h : cutDoubleColon text = some (left, right)) : text = left ++ ':' :: ':' :: right := by
  induction text generalizing left with
  | nil => cases h
  | cons c text ih =>
    cases text with
    | nil => cases h
    | cons d text =>
      rw [cutDoubleColon] at h
      split at h
      · next hcolons =>
        obtain ⟨rfl, rfl⟩ := hcolons
        obtain ⟨rfl, rfl⟩ := Prod.mk.inj (Option.some.inj h)
        rfl
      · obtain ⟨sides, hsides, heq⟩ := Option.map_eq_some_iff.mp h
        obtain ⟨rfl, rfl⟩ := Prod.mk.inj heq
        rw [ih hsides, List.cons_append]

/-- An IPv6 address without a zone has only characters of a zone. -/
private theorem isZoneChar_of_isIPv6Address {text : List Char} (h : isIPv6Address text = true) :
    ∀ c ∈ text, isZoneChar c = true := by
  rw [isIPv6Address] at h
  split at h
  · exact isZoneChar_of_groupCount (beq_iff_eq.mp h)
  · next left right hcut =>
    split at h
    · next l r hleft hright =>
      rw [cutDoubleColon_eq hcut]
      intro c hc
      rcases List.mem_append.mp hc with hc | hc
      · exact isZoneChar_of_groupCount hleft c hc
      · rcases List.mem_cons.mp hc with rfl | hc
        · rfl
        · rcases List.mem_cons.mp hc with rfl | hc
          · rfl
          · exact isZoneChar_of_groupCount hright c hc
    · cases h

/-- An IPv6 address has only characters of an address. -/
private theorem isAddressChar_of_isIPv6 {text : List Char} (h : isIPv6 text = true) :
    ∀ c ∈ text, isAddressChar c = true := by
  rw [isIPv6] at h
  refine forall_mem_of_splitOn '%' rfl ?_
  split at h
  · next address hparts =>
    rw [hparts]
    intro part hpart c hc
    rw [List.mem_singleton.mp hpart] at hc
    exact isAddressChar_of_isZoneChar (isZoneChar_of_isIPv6Address h c hc)
  · next address zone hparts =>
    rw [Bool.and_eq_true, Bool.and_eq_true, List.all_eq_true] at h
    rw [hparts]
    intro part hpart c hc
    rcases List.mem_cons.mp hpart with rfl | hpart
    · exact isAddressChar_of_isZoneChar (isZoneChar_of_isIPv6Address h.1.1 c hc)
    · rw [List.mem_singleton.mp hpart] at hc
      exact isAddressChar_of_isZoneChar (h.2 c hc)
  · cases h

/-- An address is an IPv4 address or an IPv6 address. -/
private theorem isIP_ne_zero_iff {text : String} :
    isIP text ≠ 0 ↔ isIPv4 text.toList = true ∨ isIPv6 text.toList = true := by
  rw [isIP]
  split
  · next h => simp [h]
  · next h =>
    split
    · next h6 => simp [h6]
    · next h6 => simp [h, h6]

/-- An address is written with the address characters only. -/
theorem isAddressChar_of_isIP {text : String} (h : isIP text ≠ 0) :
    ∀ c ∈ text.toList, isAddressChar c = true := by
  rcases isIP_ne_zero_iff.mp h with h4 | h6
  · exact fun c hc => isAddressChar_of_isZoneChar (isZoneChar_of_isIPv4 h4 c hc)
  · exact isAddressChar_of_isIPv6 h6

/-- No address character is white space. -/
theorem isSpace_of_isAddressChar {c : Char} (h : isAddressChar c = true) : isSpace c = false := by
  have hcode : 0x25 ≤ c.toNat ∧ c.toNat ≤ 0x7A := by
    simp only [isAddressChar, isDecimalDigit, isLetter, Bool.or_eq_true, Bool.and_eq_true,
      decide_eq_true_eq, beq_iff_eq, Char.le_def, UInt32.le_iff_toNat_le] at h
    rcases h with ((((⟨hl, hr⟩ | ⟨hl, hr⟩ | ⟨hl, hr⟩) | rfl) | rfl) | rfl) | rfl
    all_goals first | decide | exact ⟨Nat.le_trans (by decide) hl, Nat.le_trans hr (by decide)⟩
  exact isSpace_of_visible ⟨Nat.le_trans (by decide) hcode.1, Nat.le_trans hcode.2 (by decide)⟩

/-- Groups are at most two more than their colons. -/
private theorem count_of_groupCount {dotted : Bool} {text : List Char} {n : ℕ}
    (h : groupCount dotted text = some n) : n ≤ text.count ':' + 2 := by
  rw [groupCount, length_splitOn] at h
  split at h
  · exact Option.some.inj h ▸ Nat.zero_le _
  · split at h
    · have := Option.some.inj h
      omega
    · split at h
      · have := Option.some.inj h
        omega
      · cases h

/-- An IPv6 address has two colons. -/
private theorem count_of_isIPv6Address {text : List Char} (h : isIPv6Address text = true) :
    2 ≤ text.count ':' := by
  rw [isIPv6Address] at h
  split at h
  · have := count_of_groupCount (beq_iff_eq.mp h)
    omega
  · next left right hcut =>
    rw [cutDoubleColon_eq hcut, List.count_append, List.count_cons_self, List.count_cons_self]
    omega

private theorem count_of_isIPv6 {text : List Char} (h : isIPv6 text = true) :
    2 ≤ text.count ':' := by
  have htext : ['%'].intercalate (text.splitOn '%') = text := List.intercalate_splitOn '%'
  rw [isIPv6] at h
  split at h
  · next address hparts =>
    rw [hparts, List.intercalate_singleton] at htext
    exact htext ▸ count_of_isIPv6Address h
  · next address zone hparts =>
    rw [Bool.and_eq_true, Bool.and_eq_true] at h
    have haddress := count_of_isIPv6Address h.1.1
    rw [hparts, List.intercalate_cons_cons, List.intercalate_singleton] at htext
    rw [← htext, List.count_append, List.count_append]
    omega
  · cases h

private theorem count_of_isIPv4 {text : List Char} (h : isIPv4 text = true) :
    text.count ':' = 0 := by
  rw [isIPv4, Bool.and_eq_true, List.all_eq_true] at h
  have hchars : ∀ c ∈ text, (c != ':') = true := by
    refine forall_mem_of_splitOn '.' rfl fun part hpart c hc => ?_
    have hoctet := h.2 part hpart
    simp only [isOctet, Bool.and_eq_true, List.all_eq_true] at hoctet
    refine bne_iff_ne.mpr fun hcolon => ?_
    rw [hcolon] at hc
    cases hoctet.1.1.2 _ hc
  exact List.count_eq_zero.mpr fun hcolon => bne_iff_ne.mp (hchars ':' hcolon) rfl

/-- A text with a single colon is no address: it may be one with a port. -/
theorem count_of_isIP {text : String} (h : isIP text ≠ 0) : text.toList.count ':' ≠ 1 := by
  rcases isIP_ne_zero_iff.mp h with h4 | h6
  · rw [count_of_isIPv4 h4]
    decide
  · have := count_of_isIPv6 h6
    omega

/-- The empty text is no address. -/
theorem isIP_ne_nil {text : String} (h : isIP text ≠ 0) : text.toList ≠ [] := by
  intro hnil
  rw [isIP, hnil] at h
  exact h rfl

end Ascendance.Core
