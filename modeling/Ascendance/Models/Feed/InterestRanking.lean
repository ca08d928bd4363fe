import Ascendance.Core.Quota
import Mathlib.Data.Rat.Cast.Order
import Mathlib.Algebra.Order.Ring.Rat
import Mathlib.Tactic.NormNum
import Mathlib.Tactic.Positivity

/-!
# Mixing formats

The entries of a personalised feed are grouped by the strongest interest that they
match. Within the positions of a group, `mixInterestFormats` hands out the entries of
the three formats by the shares that the profile gives to them; entries without a valid
format stay where they are. Numbers are exact.
-/

namespace Ascendance.Feed

open Ascendance.Core

/-- What a post consists of. -/
inductive ContentFormat
  | text
  | image
  | mixed
  deriving DecidableEq, Repr

instance : Fintype ContentFormat where
  elems := {.text, .image, .mixed}
  complete format := by cases format <;> decide

/-- All formats. -/
def contentFormats : List ContentFormat := [.text, .image, .mixed]

/-- `CONTENT_FORMATS.includes`. -/
def ContentFormat.ofString : String → Option ContentFormat
  | "text" => some .text
  | "image" => some .image
  | "mixed" => some .mixed
  | _ => none

/-- How much of a post is about a topic. -/
structure TopicWeight where
  id : String
  weight : ℚ

/-- What was stored with an entry. -/
structure ContentFeatures where
  topics : List TopicWeight
  format : String

/-- A user's scores for the formats. -/
structure InterestProfile where
  formats : ContentFormat → Option ℚ

/-- The share of each format in a feed. -/
abbrev InterestFormatShares := ContentFormat → ℚ

/-- The score that every format has from the start. -/
def interestFormatPrior : ℚ := 1

/-- `profile?.formats[format] ?? 0` -/
def formatScore (profile : Option InterestProfile) (format : ContentFormat) : ℚ :=
  (profile.bind (·.formats format)).getD 0

/-- The shares of the formats, by their scores and the prior. -/
def interestFormatShares (profile : Option InterestProfile) : Option InterestFormatShares :=
  let total := (contentFormats.map (formatScore profile)).sum
  if total ≤ 0 then none
  else some fun format => (formatScore profile format + interestFormatPrior) /
    (total + interestFormatPrior * contentFormats.length)

/-- A sum over the list of formats is a sum over all formats. -/
theorem sum_contentFormats (f : ContentFormat → ℚ) :
    (contentFormats.map f).sum = ∑ format, f format := by
  rw [show (Finset.univ : Finset ContentFormat) = {.text, .image, .mixed} from rfl,
    Finset.sum_insert (by decide), Finset.sum_insert (by decide), Finset.sum_singleton]
  simp [contentFormats]

/-- The shares that a profile with scores gives are a distribution. -/
theorem interestFormatShares_distribution {profile : Option InterestProfile}
    {shares : InterestFormatShares} (hscores : ∀ format, 0 ≤ formatScore profile format)
    (h : interestFormatShares profile = some shares) :
    (∀ format, 0 ≤ shares format) ∧ ∑ format, shares format = 1 := by
  simp only [interestFormatShares, sum_contentFormats] at h
  split at h
  · cases h
  · next htotal =>
    obtain rfl := Option.some.inj h
    have hpos : 0 < ∑ format, formatScore profile format := not_le.mp htotal
    have hprior : interestFormatPrior * contentFormats.length = 3 := by
      norm_num [interestFormatPrior, contentFormats]
    rw [hprior]
    refine ⟨fun format => ?_, ?_⟩
    · have hscore := hscores format
      rw [interestFormatPrior]
      positivity
    · have hsum : ∑ format : ContentFormat, (formatScore profile format + interestFormatPrior) =
          ∑ format, formatScore profile format + 3 := by
        rw [Finset.sum_add_distrib, Finset.sum_const, Finset.card_univ]
        norm_num [interestFormatPrior, show Fintype.card ContentFormat = 3 from rfl]
      rw [← Finset.sum_div, hsum, div_self]
      positivity

/-- A user's affinity to each topic. -/
abbrev Affinities := String → Option ℚ

/-- `affinities.get(id) ?? 0` -/
def affinity (affinities : Affinities) (id : String) : ℚ := (affinities id).getD 0

/-- The topic of the post that the user is most interested in. -/
def strongestInterest (features : Option ContentFeatures) (affinities : Affinities) :
    Option String :=
  features.bind fun features =>
    let matching := features.topics.filter fun topic => 0 < affinity affinities topic.id
    let sorted := matching.mergeSort fun a b =>
      b.weight * affinity affinities b.id - a.weight * affinity affinities a.id ≤ 0
    sorted.head?.map (·.id)

/-- The entries of a format and how many of them have a place. -/
structure Queue (T : Type*) where
  entries : List (T × ℕ)
  assigned : ℕ

/-- The queues of a topic and how many of its entries have a place. -/
structure FormatGroup (T : Type*) where
  assigned : ℕ
  queues : ContentFormat → Queue T

/-- A map with the groups; one that is not there is created empty when it is looked up. -/
abbrev Groups (T : Type*) := String → FormatGroup T

/-- A group without entries. -/
def emptyGroup (T : Type*) : FormatGroup T where
  assigned := 0
  queues _ := { entries := [], assigned := 0 }

variable {T : Type*} (contentFeatures : T → Option ContentFeatures) (affinities : Affinities)

/-- The group and the queue of an entry; none for an entry without a valid format. -/
def slotOf (entry : T) : Option (String × ContentFormat) :=
  (contentFeatures entry).bind fun features =>
    (ContentFormat.ofString features.format).map fun format =>
      ((strongestInterest (some features) affinities).getD "", format)

/-- The group that the map of slots has for an entry. -/
def groupOf (entry : T) : Option String := (slotOf contentFeatures affinities entry).map (·.1)

/-- Append an entry to the queue of its format. -/
def FormatGroup.push (group : FormatGroup T) (format : ContentFormat) (value : T)
    (position : ℕ) : FormatGroup T :=
  let queue := group.queues format
  { group with
    queues := Function.update group.queues format
      { queue with entries := queue.entries ++ [(value, position)] } }

/-- The first loop. -/
def addEntry (groups : Groups T) (entry : T × ℕ) : Groups T :=
  match slotOf contentFeatures affinities entry.1 with
  | none => groups
  | some (topic, format) =>
    Function.update groups topic ((groups topic).push format entry.1 entry.2)

/-- Sort the entries into the queues of their topics. -/
def groupEntries (entries : List T) : Groups T :=
  entries.zipIdx.foldl (addEntry contentFeatures affinities) fun _ => emptyGroup T

/-- A format whose queue has a next entry. -/
structure Available where
  format : ContentFormat
  position : ℕ
  deficit : ℚ

/-- The formats whose queue has an entry left, with their deficits. -/
def available (shares : InterestFormatShares) (group : FormatGroup T) : List Available :=
  contentFormats.flatMap fun format =>
    let queue := group.queues format
    match queue.entries[queue.assigned]? with
    | some next => [{ format, position := next.2,
                      deficit := group.assigned * shares format - queue.assigned }]
    | none => []

/-- The comparison: by the deficits, the largest one first, and by the positions. -/
def Available.compare (a b : Available) : ℚ :=
  if b.deficit - a.deficit ≠ 0 then b.deficit - a.deficit else (a.position : ℚ) - b.position

/-- The first one of the sorted formats. -/
def firstAvailable (formats : List Available) : Option Available :=
  (formats.mergeSort fun a b => a.compare b ≤ 0).head?

/-- What a position of the group gets; none if there is no queue left to take from. -/
def assign (shares : InterestFormatShares) (group : FormatGroup T) :
    Option (T × FormatGroup T) :=
  let group := { group with assigned := group.assigned + 1 }
  match firstAvailable (available shares group) with
  | none => none
  | some best =>
    let queue := group.queues best.format
    match queue.entries[queue.assigned]? with
    | none => none
    | some next =>
      some (next.1, { group with
        queues := Function.update group.queues best.format
          { queue with assigned := queue.assigned + 1 } })

/-- The second loop. -/
def assignAll (shares : InterestFormatShares) : Groups T → List T → Option (List T)
  | _, [] => some []
  | groups, entry :: entries =>
    match groupOf contentFeatures affinities entry with
    | none => (assignAll shares groups entries).map (entry :: ·)
    | some topic =>
      match assign shares (groups topic) with
      | none => none
      | some (value, group) =>
        (assignAll shares (Function.update groups topic group) entries).map (value :: ·)

/-- Give the places of each topic to its formats by their shares. -/
def mixInterestFormats (entries : List T) (shares : InterestFormatShares) : Option (List T) :=
  assignAll contentFeatures affinities shares
    (groupEntries contentFeatures affinities entries) entries

end Ascendance.Feed
