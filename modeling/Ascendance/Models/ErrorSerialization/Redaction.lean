import Ascendance.Core.Regex
import Ascendance.Core.Text

/-!
# Redaction of texts

Before the text of an error is stored or logged, six patterns replace what looks like a
credential, one after the other. Keys of records are compared with a list of sensitive words,
after their spelling was normalized.

Texts are sequences of UTF-16 code units, since lengths and slices count these.
-/

namespace Ascendance.ErrorSerialization

open Ascendance.Core

/-- A string of the language: a list of its code units. -/
abbrev Text := List UInt16

/-- The text of a literal of the source; all of them are ASCII. -/
def units (s : String) : Text := s.toList.map fun c => UInt16.ofNat c.toNat

/-- The character of a code unit. A surrogate is taken for the character zero: no class below tells
them apart. -/
def character (u : UInt16) : Char := Char.ofNat u.toNat

/-- One code unit of a class. -/
def unitOf (accepts : Char → Bool) (u : UInt16) : Bool := accepts (character u)

/-- The characters that `\w` matches. -/
def isWord (u : UInt16) : Bool :=
  unitOf (fun c => isLetter c || isDecimalDigit c || c == '_') u

/-- A letter of a pattern with the flag `i`; the literals are written in lower case. -/
def lit (s : String) : Regex UInt16 :=
  .all <| s.toList.map fun c => .one <| unitOf fun d => d.toLower == c

/-- The given text, with its case. -/
def litExact (s : String) : Regex UInt16 :=
  .all <| s.toList.map fun c => .one <| unitOf (· == c)

/-- The upper-case letters. -/
def isUpper (u : UInt16) : Bool := unitOf (fun c => 'A' ≤ c && c ≤ 'Z') u

/-- The lower-case letters. -/
def isLower (u : UInt16) : Bool := unitOf (fun c => 'a' ≤ c && c ≤ 'z') u

/-- The decimal digits. -/
def isDigit (u : UInt16) : Bool := unitOf isDecimalDigit u

/-- `"$1_$2"` -/
def joinGroups (m : RegexMatch UInt16) : Text :=
  m.groups.headD [] ++ units "_" ++ (m.groups.tail.headD [])

/-- Only letters, digits and underscores are left when the case is changed. -/
def normalizeKey (key : Text) : Text :=
  let key := (Regex.seq (.group (.plus isUpper))
    (.group (.seq (.one isUpper) (.one isLower)))).replace joinGroups key
  let key := (Regex.seq (.group (.one fun u => isLower u || isDigit u))
    (.group (.one isUpper))).replace joinGroups key
  let key := (Regex.plus fun u => !isUpper u && !isLower u && !isDigit u).replace
    (fun _ => units "_") key
  let key := (Regex.plus (unitOf (· == '_'))).replace (fun _ => units "_") key
  let key := (Regex.alt (.seq .start (litExact "_")) (.seq (litExact "_") .stop)).replace
    (fun _ => []) key
  key.map fun u => UInt16.ofNat (character u).toLower.toNat

/-- A word of a normalised key that names a credential, a person or a content. -/
def SENSITIVE_KEY_PATTERN : Regex UInt16 :=
  .all [.any [.start, lit "_"],
    .any <| ["password", "passphrase", "token", "secret", "authorization", "cookie", "set_cookie",
      "api_key", "jwt", "bearer", "credential", "private_key", "encryption_key", "email",
      "username", "handle", "user_id", "user_public_id", "account_id", "profile_id", "actor_id",
      "subject_id", "owner_id", "author_id", "sender_id", "recipient_id", "session", "refresh",
      "request_body", "response_body", "raw_body", "payload", "notification", "content", "query",
      "filter", "update", "document", "errinfo", "origin", "referrer", "user_agent", "ip",
      "ip_address"].map lit,
    .any [.stop, lit "_"]]

/-- Does the key name something that is not shown? -/
def isSensitiveKey (key : Text) : Bool := SENSITIVE_KEY_PATTERN.test (normalizeKey key)

end Ascendance.ErrorSerialization
