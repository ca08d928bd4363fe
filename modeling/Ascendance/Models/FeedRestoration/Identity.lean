import Mathlib.Data.List.Basic

/-!
# Feed identities

A feed is named by its kind, its subject and its viewer. The identity is one
text; the values in it are percent encoded, so the character that separates
the feed from the location in a pair key never occurs in an identity.
-/

namespace Ascendance.FeedRestoration

/-- The character between the feed and the location of a pair key. -/
def separator : Char := Char.ofNat 0

/-- The identity of a feed: a text without the separator. -/
@[ext] structure FeedId where
  text : String
  noSeparator : separator ∉ text.toList
  deriving DecidableEq

/-- The upper-case hexadecimal digits. -/
def hexDigits : List Char :=
  ['0', '1', '2', '3', '4', '5', '6', '7', '8', '9', 'A', 'B', 'C', 'D', 'E', 'F']

/-- The digit of a number below 16. -/
def hexDigit (n : ℕ) : Char := hexDigits.getD n '0'

/-- A byte as a percent sign and two digits. -/
def percentByte (b : UInt8) : List Char := ['%', hexDigit (b.toNat / 16), hexDigit (b.toNat % 16)]

/-- The characters that `encodeURIComponent` leaves as they are. -/
def isUnreserved (c : Char) : Bool := c.isAlphanum || "-_.!~*'()".toList.contains c

/-- `encodeURIComponent`. -/
def encodeURIComponent (s : String) : String :=
  String.ofList (s.toList.flatMap fun c =>
    if isUnreserved c then [c] else (String.utf8EncodeChar c).flatMap percentByte)

/-- One labelled part of an identity; a missing value differs from every text. -/
def encodePart (part : String × Option String) : String :=
  match part.2 with
  | none => part.1 ++ ":0"
  | some value => part.1 ++ ":1:" ++ encodeURIComponent value

private theorem hexDigit_ne_separator (n : ℕ) : hexDigit n ≠ separator := by
  have hall : hexDigits.all (· != separator) = true := by decide
  rw [hexDigit, List.getD_eq_getElem?_getD]
  cases h : hexDigits[n]? with
  | none => decide
  | some c => exact bne_iff_ne.mp (List.all_eq_true.mp hall c (List.mem_of_getElem? h))

/-- An encoded value has no separator, whatever the value was. -/
theorem separator_notMem_encodeURIComponent (s : String) :
    separator ∉ (encodeURIComponent s).toList := by
  rw [encodeURIComponent, String.toList_ofList, List.mem_flatMap]
  rintro ⟨c, -, hc⟩
  split at hc
  · next h =>
    rw [List.mem_singleton] at hc
    subst hc
    revert h
    decide
  · obtain ⟨b, -, hb⟩ := List.mem_flatMap.mp hc
    rw [percentByte, List.mem_cons, List.mem_cons, List.mem_singleton] at hb
    rcases hb with hb | hb | hb
    · revert hb
      decide
    · exact hexDigit_ne_separator _ hb.symm
    · exact hexDigit_ne_separator _ hb.symm

/-- An encoded part holds no separator. -/
private theorem separator_notMem_encodePart {part : String × Option String}
    (h : separator ∉ part.1.toList) : separator ∉ (encodePart part).toList := by
  rw [encodePart]
  cases part.2 with
  | none =>
    rw [String.toList_append, List.mem_append]
    rintro (hc | hc)
    · exact h hc
    · revert hc
      decide
  | some value =>
    rw [String.toList_append, String.toList_append, List.mem_append, List.mem_append]
    rintro ((hc | hc) | hc)
    · exact h hc
    · revert hc
      decide
    · exact separator_notMem_encodeURIComponent value hc

/-- `makeFeedIdentity`. -/
def makeFeedIdentity (kind : String) (parts : List (String × Option String)) : String :=
  "feed:v1:" ++ kind ++ ":" ++ "|".intercalate (parts.map encodePart)

/-- Joining texts adds no separator that neither they nor the text between them have. -/
theorem separator_notMem_intercalate {between : String} (hb : separator ∉ between.toList) :
    ∀ {texts : List String}, (∀ t ∈ texts, separator ∉ t.toList) →
      separator ∉ (between.intercalate texts).toList
  | [], _ => by simp
  | [t], h => by simpa using h t
  | t :: u :: texts, h => by
    have htail : ∀ v ∈ u :: texts, separator ∉ v.toList :=
      fun v hv => h v (List.mem_cons_of_mem t hv)
    have ih := separator_notMem_intercalate hb htail
    rw [String.intercalate_cons_cons, String.toList_append, String.toList_append, List.mem_append,
      List.mem_append]
    rintro ((hc | hc) | hc)
    · exact h t List.mem_cons_self hc
    · exact hb hc
    · exact ih hc

/-- An identity whose kind and labels have no separator is a feed identity. -/
theorem separator_notMem_makeFeedIdentity {kind : String} {parts : List (String × Option String)}
    (hkind : separator ∉ kind.toList) (hparts : ∀ part ∈ parts, separator ∉ part.1.toList) :
    separator ∉ (makeFeedIdentity kind parts).toList := by
  have htexts : ∀ t ∈ parts.map encodePart, separator ∉ t.toList := by
    intro t ht
    obtain ⟨part, hpart, rfl⟩ := List.mem_map.mp ht
    exact separator_notMem_encodePart (hparts part hpart)
  rw [makeFeedIdentity]
  simp only [String.toList_append, List.mem_append]
  rintro (((hc | hc) | hc) | hc)
  · revert hc
    decide
  · exact hkind hc
  · revert hc
    decide
  · exact separator_notMem_intercalate (by decide) htexts hc

/-- The labels of the parts of an identity. -/
def labels : List String := ["viewer", "subject", "definition", "mode", "query"]

/-- A label holds no separator. -/
private theorem separator_notMem_label {label : String} (h : label ∈ labels) :
    separator ∉ label.toList := by
  have hall : ∀ l ∈ labels, separator ∉ l.toList := by decide
  exact hall label h

/-- The identity of a kind of feed, from its labelled parts. -/
def identityOf (kind : String) (parts : List (String × Option String))
    (hkind : separator ∉ kind.toList) (hparts : ∀ part ∈ parts, part.1 ∈ labels) : FeedId :=
  ⟨makeFeedIdentity kind parts,
    separator_notMem_makeFeedIdentity hkind fun part h => separator_notMem_label (hparts part h)⟩

namespace feedIdentities

/-- The feed of the followed users. -/
def following (viewer : Option String) : FeedId :=
  identityOf "following" [("viewer", viewer)] (by decide) (by simp [labels])

/-- The home feed. -/
def home (viewer : Option String) : FeedId :=
  identityOf "home" [("viewer", viewer)] (by decide) (by simp [labels])

/-- The feed of the latest posts. -/
def latest (viewer : Option String) : FeedId :=
  identityOf "latest" [("viewer", viewer)] (by decide) (by simp [labels])

/-- The trending feed. -/
def trending (viewer : Option String) : FeedId :=
  identityOf "trending" [("viewer", viewer)] (by decide) (by simp [labels])

/-- The recommended feed. -/
def forYou (viewer : Option String) : FeedId :=
  identityOf "for-you" [("viewer", viewer)] (by decide) (by simp [labels])

/-- The preview of a feed definition. -/
def preview (definition : String) (viewer : Option String) : FeedId :=
  identityOf "preview" [("definition", some definition), ("viewer", viewer)] (by decide)
    (by simp [labels])

/-- The feed of a community. -/
def community (subject viewer : Option String) : FeedId :=
  identityOf "community" [("subject", subject), ("viewer", viewer)] (by decide) (by simp [labels])

/-- The posts of a profile. -/
def profilePosts (subject viewer : Option String) : FeedId :=
  identityOf "profile-posts" [("subject", subject), ("viewer", viewer)] (by decide)
    (by simp [labels])

/-- The media of a profile. -/
def profileMedia (subject viewer : Option String) : FeedId :=
  identityOf "profile-media" [("subject", subject), ("viewer", viewer)] (by decide)
    (by simp [labels])

/-- The likes of a profile. -/
def profileLikes (subject viewer : Option String) : FeedId :=
  identityOf "profile-likes" [("subject", subject), ("viewer", viewer)] (by decide)
    (by simp [labels])

/-- The viewer's favourites. -/
def favorites (viewer : Option String) : FeedId :=
  identityOf "favorites" [("viewer", viewer)] (by decide) (by simp [labels])

/-- The results of a search. -/
def search (mode query : String) (viewer : Option String) : FeedId :=
  identityOf "search" [("mode", some mode), ("query", some query), ("viewer", viewer)] (by decide)
    (by simp [labels])

end feedIdentities

end Ascendance.FeedRestoration
