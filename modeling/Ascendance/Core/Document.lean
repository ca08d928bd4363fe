import Mathlib.Algebra.BigOperators.Group.Finset.Piecewise
import Mathlib.Data.Finset.Card
import Mathlib.Data.Finset.Insert
import Mathlib.Logic.Function.Basic

/-!
# Document collections

A field of a stored document is missing, null or a value, and the query
operators tell these apart. A collection keeps the ids it stores and one
document for each id. Single-document updates are atomic: they match by id and
filter, and they report how many documents they matched and how many they changed.
-/

namespace Ascendance.Core

/-- A document field: missing, explicitly null, or set. -/
inductive DocField (α : Type*)
  | missing
  | null
  | value (a : α)
  deriving DecidableEq, Repr, Inhabited

namespace DocField

variable {α : Type*}

/-- The operator `$exists: true`: an explicit null counts as present. -/
def isPresent : DocField α → Bool
  | missing => false
  | null | value _ => true

/-- Equality with null matches a missing field as well as an explicit null. -/
def isNull : DocField α → Bool
  | missing | null => true
  | value _ => false

/-- Comparison operators match set values only. -/
def holds (p : α → Bool) : DocField α → Bool
  | missing | null => false
  | value a => p a

/-- Equality with a given value. -/
def is [DecidableEq α] (f : DocField α) (a : α) : Bool := f.holds (· == a)

@[simp] theorem isPresent_missing : (missing : DocField α).isPresent = false := rfl
@[simp] theorem isPresent_value (a : α) : (value a).isPresent = true := rfl
@[simp] theorem isNull_missing : (missing : DocField α).isNull = true := rfl
@[simp] theorem isNull_value (a : α) : (value a).isNull = false := rfl
@[simp] theorem holds_missing (p : α → Bool) : (missing : DocField α).holds p = false := rfl
@[simp] theorem holds_value (p : α → Bool) (a : α) : (value a).holds p = p a := rfl

/-- Equality with a value matches exactly that value. -/
@[simp] theorem is_iff [DecidableEq α] (f : DocField α) (a : α) : f.is a = true ↔ f = value a := by
  cases f <;> simp [is, holds]

end DocField

/-- What a single-document update reports. -/
structure UpdateResult where
  /-- One when a document matched the filter. -/
  matchedCount : Nat
  /-- One when the matched document was changed. -/
  modifiedCount : Nat
  deriving DecidableEq, Repr

/-- The stored ids and the document of every id. -/
structure Collection (ι δ : Type*) where
  /-- The ids that are stored. -/
  ids : Finset ι
  /-- The document of each id; only stored ids are ever read. -/
  doc : ι → δ

namespace Collection

variable {ι δ : Type*} [DecidableEq ι]

/-- A collection without documents. -/
def empty [Inhabited δ] : Collection ι δ := ⟨∅, fun _ => default⟩

/-- Store a new document. -/
def insertOne (c : Collection ι δ) (i : ι) (d : δ) : Collection ι δ :=
  ⟨insert i c.ids, Function.update c.doc i d⟩

/-- The filter `_id = i` together with further conditions. -/
def Matches (c : Collection ι δ) (i : ι) (p : δ → Bool) : Prop := i ∈ c.ids ∧ p (c.doc i) = true

instance (c : Collection ι δ) (i : ι) (p : δ → Bool) : Decidable (c.Matches i p) :=
  inferInstanceAs (Decidable (_ ∧ _))

/-- Replace the document of one id by its update. -/
def modify (c : Collection ι δ) (i : ι) (f : δ → δ) : Collection ι δ :=
  { c with doc := Function.update c.doc i (f (c.doc i)) }

/-- Update the document with the given id if it also passes the filter. -/
def updateOne (c : Collection ι δ) (i : ι) (p : δ → Bool) (f : δ → δ) : Collection ι δ :=
  if c.Matches i p then c.modify i f else c

/-- The counts reported for the same update. -/
def updateResult [DecidableEq δ] (c : Collection ι δ) (i : ι) (p : δ → Bool) (f : δ → δ) :
    UpdateResult :=
  if c.Matches i p then ⟨1, if f (c.doc i) = c.doc i then 0 else 1⟩ else ⟨0, 0⟩

/-- The number of stored documents that pass a filter. -/
def countDocuments (c : Collection ι δ) (p : δ → Bool) : Nat :=
  (c.ids.filter fun i => p (c.doc i) = true).card

@[simp] theorem ids_insertOne (c : Collection ι δ) (i : ι) (d : δ) :
    (c.insertOne i d).ids = insert i c.ids := rfl

@[simp] theorem doc_insertOne_self (c : Collection ι δ) (i : ι) (d : δ) :
    (c.insertOne i d).doc i = d := by simp [insertOne]

@[simp] theorem doc_insertOne_ne (c : Collection ι δ) {i j : ι} (d : δ) (h : j ≠ i) :
    (c.insertOne i d).doc j = c.doc j := by simp [insertOne, h]

@[simp] theorem ids_modify (c : Collection ι δ) (i : ι) (f : δ → δ) :
    (c.modify i f).ids = c.ids := rfl

@[simp] theorem doc_modify_self (c : Collection ι δ) (i : ι) (f : δ → δ) :
    (c.modify i f).doc i = f (c.doc i) := by simp [modify]

@[simp] theorem doc_modify_ne (c : Collection ι δ) {i j : ι} (f : δ → δ) (h : j ≠ i) :
    (c.modify i f).doc j = c.doc j := by simp [modify, h]

/-- An update never adds or removes a document. -/
@[simp] theorem ids_updateOne (c : Collection ι δ) (i : ι) (p : δ → Bool) (f : δ → δ) :
    (c.updateOne i p f).ids = c.ids := by
  unfold updateOne; split <;> rfl

/-- An update that matches nothing changes nothing. -/
theorem updateOne_of_not_matches {c : Collection ι δ} {i : ι} {p : δ → Bool} (f : δ → δ)
    (h : ¬ c.Matches i p) : c.updateOne i p f = c := if_neg h

/-- An update whose filter matches is the modification itself. -/
theorem updateOne_of_matches {c : Collection ι δ} {i : ι} {p : δ → Bool} (f : δ → δ)
    (h : c.Matches i p) : c.updateOne i p f = c.modify i f := if_pos h

/-- A positive modification count is a match whose document changes. -/
theorem modifiedCount_pos [DecidableEq δ] {c : Collection ι δ} {i : ι} {p : δ → Bool}
    {f : δ → δ} :
    0 < (c.updateResult i p f).modifiedCount ↔ c.Matches i p ∧ f (c.doc i) ≠ c.doc i := by
  unfold updateResult
  by_cases hm : c.Matches i p <;> by_cases hf : f (c.doc i) = c.doc i <;> simp [hm, hf]

omit [DecidableEq ι] in
@[simp] theorem countDocuments_empty [Inhabited δ] (p : δ → Bool) :
    (empty : Collection ι δ).countDocuments p = 0 := by
  unfold countDocuments empty
  rw [Finset.filter_empty, Finset.card_empty]

/-- An update moves one document between the sides of a filter. -/
theorem countDocuments_modify (c : Collection ι δ) {i : ι} (hi : i ∈ c.ids) (f : δ → δ)
    (p : δ → Bool) : (c.modify i f).countDocuments p + (p (c.doc i)).toNat =
      c.countDocuments p + (p (f (c.doc i))).toNat := by
  unfold countDocuments
  simp only [Finset.card_filter, ids_modify]
  rw [← Finset.add_sum_erase _ _ hi, ← Finset.add_sum_erase c.ids _ hi]
  have hrest : ∀ j ∈ c.ids.erase i, (if p ((c.modify i f).doc j) = true then 1 else 0) =
      if p (c.doc j) = true then 1 else 0 := by
    intro j hj
    rw [doc_modify_ne c f (Finset.ne_of_mem_erase hj)]
  rw [Finset.sum_congr rfl hrest, doc_modify_self]
  cases p (c.doc i) <;> cases p (f (c.doc i)) <;> simp <;> omega

/-- A new document counts when it passes the filter. -/
theorem countDocuments_insertOne (c : Collection ι δ) {i : ι} (hi : i ∉ c.ids) (d : δ)
    (p : δ → Bool) :
    (c.insertOne i d).countDocuments p = c.countDocuments p + (p d).toNat := by
  unfold countDocuments
  simp only [Finset.card_filter, ids_insertOne]
  rw [Finset.sum_insert hi, add_comm]
  have hrest : ∀ j ∈ c.ids, (if p ((c.insertOne i d).doc j) = true then 1 else 0) =
      if p (c.doc j) = true then 1 else 0 := by
    intro j hj
    have hne : j ≠ i := fun he => hi (he ▸ hj)
    rw [doc_insertOne_ne c d hne]
  rw [Finset.sum_congr rfl hrest, doc_insertOne_self]
  cases hp : p d <;> simp

/-- Two filters that split the stored documents split their count. -/
theorem countDocuments_split (c : Collection ι δ) (p q r : δ → Bool)
    (h : ∀ i ∈ c.ids, p (c.doc i) = true ↔ (q (c.doc i) = true ∨ r (c.doc i) = true))
    (hd : ∀ i ∈ c.ids, ¬ (q (c.doc i) = true ∧ r (c.doc i) = true)) :
    c.countDocuments p = c.countDocuments q + c.countDocuments r := by
  unfold countDocuments
  rw [← Finset.card_union_of_disjoint]
  · congr 1
    ext i
    simp only [Finset.mem_filter, Finset.mem_union]
    constructor
    · rintro ⟨hi, hp⟩
      exact ((h i hi).mp hp).imp (And.intro hi) (And.intro hi)
    · rintro (⟨hi, hq⟩ | ⟨hi, hr⟩)
      · exact ⟨hi, (h i hi).mpr (Or.inl hq)⟩
      · exact ⟨hi, (h i hi).mpr (Or.inr hr)⟩
  · rw [Finset.disjoint_left]
    intro i hq hr
    simp only [Finset.mem_filter] at hq hr
    exact hd i hq.1 ⟨hq.2, hr.2⟩

omit [DecidableEq ι] in
/-- Filters that agree on the stored documents have one count. -/
theorem countDocuments_congr (c : Collection ι δ) {p q : δ → Bool}
    (h : ∀ i ∈ c.ids, p (c.doc i) = q (c.doc i)) : c.countDocuments p = c.countDocuments q := by
  unfold countDocuments
  congr 1
  apply Finset.filter_congr
  intro i hi
  rw [h i hi]

/-- A document is stored under an id. -/
def Has (c : Collection ι δ) (i : ι) (d : δ) : Prop := i ∈ c.ids ∧ c.doc i = d

/-- Delete the documents that pass a filter. -/
def deleteMany (c : Collection ι δ) (p : ι → δ → Bool) : Collection ι δ :=
  ⟨c.ids.filter fun i => p i (c.doc i) = false, c.doc⟩

/-- Update every document; what the update leaves as it is stays. -/
def updateMany (c : Collection ι δ) (f : ι → δ → δ) : Collection ι δ :=
  ⟨c.ids, fun i => f i (c.doc i)⟩

/-- The ids of the documents that pass a filter. -/
def find (c : Collection ι δ) (p : ι → δ → Bool) : Finset ι :=
  c.ids.filter fun i => p i (c.doc i) = true

section Relations

omit [DecidableEq ι]

variable {c : Collection ι δ} {i : ι} {d d' : δ}

/-- A key holds one document. -/
theorem Has.unique (h : c.Has i d) (h' : c.Has i d') : d = d' := h.2.symm.trans h'.2

@[simp] theorem has_deleteMany {p : ι → δ → Bool} :
    (c.deleteMany p).Has i d ↔ c.Has i d ∧ p i d = false := by
  unfold Has deleteMany
  rw [Finset.mem_filter]
  constructor
  · rintro ⟨⟨hi, hp⟩, rfl⟩
    exact ⟨⟨hi, rfl⟩, hp⟩
  · rintro ⟨⟨hi, rfl⟩, hp⟩
    exact ⟨⟨hi, hp⟩, rfl⟩

@[simp] theorem has_updateMany {f : ι → δ → δ} :
    (c.updateMany f).Has i d ↔ ∃ d₀, c.Has i d₀ ∧ d = f i d₀ := by
  unfold Has updateMany
  constructor
  · rintro ⟨hi, rfl⟩
    exact ⟨c.doc i, ⟨hi, rfl⟩, rfl⟩
  · rintro ⟨_, ⟨hi, rfl⟩, rfl⟩
    exact ⟨hi, rfl⟩

@[simp] theorem deleteMany_false : (c.deleteMany fun _ _ => false) = c := by
  simp [deleteMany]

@[simp] theorem updateMany_id : (c.updateMany fun _ d => d) = c := rfl

@[simp] theorem find_false : (c.find fun _ _ => false) = ∅ := by
  simp [find]

/-- A query returns the keys whose document matches. -/
theorem mem_find {p : ι → δ → Bool} : i ∈ c.find p ↔ ∃ d, c.Has i d ∧ p i d = true := by
  unfold find Has
  rw [Finset.mem_filter]
  constructor
  · rintro ⟨hi, hp⟩
    exact ⟨c.doc i, ⟨hi, rfl⟩, hp⟩
  · rintro ⟨_, ⟨hi, rfl⟩, hp⟩
    exact ⟨hi, hp⟩

/-- An update that the filter does not see leaves the count. -/
theorem countDocuments_updateMany {f : ι → δ → δ} {p : δ → Bool}
    (h : ∀ i d, p (f i d) = p d) : (c.updateMany f).countDocuments p = c.countDocuments p := by
  unfold countDocuments updateMany
  simp only [h]

end Relations

end Collection

end Ascendance.Core
