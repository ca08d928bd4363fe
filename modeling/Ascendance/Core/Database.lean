import Mathlib.Algebra.BigOperators.Group.Finset.Basic
import Mathlib.Algebra.BigOperators.Group.Finset.Piecewise
import Mathlib.Data.Finset.Card
import Mathlib.Logic.Function.Basic

/-!
# Databases

Finitely many documents under keys. The key of a document names its kind, so one
database holds all collections. Queries count documents, and two changes of one
database merge when they change different keys.
-/

namespace Ascendance.Core

/-- The documents under their keys, and the keys that have one. -/
structure Database (κ : Type*) (δ : κ → Type*) where
  doc : ∀ k, Option (δ k)
  ids : Finset κ
  mem_ids : ∀ k, k ∈ ids ↔ (doc k).isSome = true

namespace Database

variable {κ : Type*} {δ : κ → Type*}

/-- The keys follow from the documents. -/
theorem ext_doc {db db' : Database κ δ} (h : ∀ k, db.doc k = db'.doc k) : db = db' := by
  obtain ⟨doc, ids, mem_ids⟩ := db
  obtain ⟨doc', ids', mem_ids'⟩ := db'
  obtain rfl : doc = doc' := funext h
  congr 1
  ext k
  rw [mem_ids, mem_ids']

/-- A store without documents. -/
def empty : Database κ δ where
  doc := fun _ => none
  ids := ∅
  mem_ids := by simp

/-- The keys of the documents that pass a filter. -/
def find (db : Database κ δ) (p : ∀ k, δ k → Bool) : Finset κ :=
  db.ids.filter fun k => (db.doc k).any (p k) = true

/-- How many documents pass a filter. -/
def count (db : Database κ δ) (p : ∀ k, δ k → Bool) : ℕ := (db.find p).card

/-- Change every document, or delete it. -/
def alter (db : Database κ δ) (f : ∀ k, δ k → Option (δ k)) : Database κ δ where
  doc := fun k => (db.doc k).bind (f k)
  ids := db.ids.filter fun k => ((db.doc k).bind (f k)).isSome = true
  mem_ids := fun k => by
    rw [Finset.mem_filter, db.mem_ids]
    cases db.doc k <;> simp

/-- Delete the documents that pass a filter. -/
def deleteMany (db : Database κ δ) (p : ∀ k, δ k → Bool) : Database κ δ :=
  db.alter fun k d => if p k d then none else some d

/-- Update every document; what the update leaves as it is stays. -/
def updateMany (db : Database κ δ) (f : ∀ k, δ k → δ k) : Database κ δ :=
  db.alter fun k d => some (f k d)

section Keys

variable [DecidableEq κ]

/-- Store a document under a key. -/
def put (db : Database κ δ) (k : κ) (d : δ k) : Database κ δ where
  doc := Function.update db.doc k (some d)
  ids := insert k db.ids
  mem_ids := fun j => by
    rw [Finset.mem_insert, db.mem_ids]
    by_cases hj : j = k
    · subst hj
      simp
    · rw [Function.update_of_ne hj]
      simp [hj]

/-- Delete the document under a key. -/
def delete (db : Database κ δ) (k : κ) : Database κ δ :=
  db.alter fun j d => if j = k then none else some d

/-- Update the document under a key, if there is one. -/
def update (db : Database κ δ) (k : κ) (f : δ k → δ k) : Database κ δ :=
  match db.doc k with
  | some d => db.put k (f d)
  | none => db

end Keys

@[simp] theorem doc_alter (db : Database κ δ) (f : ∀ k, δ k → Option (δ k)) (k : κ) :
    (db.alter f).doc k = (db.doc k).bind (f k) := rfl

@[simp] theorem doc_updateMany (db : Database κ δ) (f : ∀ k, δ k → δ k) (k : κ) :
    (db.updateMany f).doc k = (db.doc k).map (f k) := by
  unfold updateMany
  rw [doc_alter]
  cases db.doc k <;> rfl

/-- A filter that every document passes leaves it. -/
@[simp] theorem filter_true {α : Type*} (o : Option α) : (o.filter fun _ => true) = o := by
  cases o <;> rfl

@[simp] theorem doc_deleteMany (db : Database κ δ) (p : ∀ k, δ k → Bool) (k : κ) :
    (db.deleteMany p).doc k = (db.doc k).filter fun d => !p k d := by
  unfold deleteMany
  rw [doc_alter]
  cases db.doc k with
  | none => rfl
  | some d => cases hp : p k d <;> simp [Option.filter, hp]

/-- A document is left by a deletion exactly when it was there and does not match. -/
theorem doc_deleteMany_eq_some {db : Database κ δ} {p : ∀ k, δ k → Bool} {k : κ} {d : δ k} :
    (db.deleteMany p).doc k = some d ↔ db.doc k = some d ∧ p k d = false := by
  rw [doc_deleteMany, Option.filter_eq_some_iff, Bool.not_eq_true']

/-- Two deletions in a row are one deletion by either condition. -/
theorem deleteMany_deleteMany (db : Database κ δ) (p q : ∀ k, δ k → Bool) :
    (db.deleteMany p).deleteMany q = db.deleteMany fun k d => p k d || q k d := by
  refine ext_doc fun k => ?_
  rw [doc_deleteMany, doc_deleteMany, doc_deleteMany]
  cases db.doc k with
  | none => rfl
  | some d => cases hp : p k d <;> cases hq : q k d <;> simp [Option.filter, hp, hq]

section Keys

variable [DecidableEq κ]

@[simp] theorem doc_put_self (db : Database κ δ) (k : κ) (d : δ k) :
    (db.put k d).doc k = some d := Function.update_self ..

@[simp] theorem doc_put_ne (db : Database κ δ) {j k : κ} (d : δ k) (h : j ≠ k) :
    (db.put k d).doc j = db.doc j := Function.update_of_ne h ..

@[simp] theorem doc_delete_self (db : Database κ δ) (k : κ) : (db.delete k).doc k = none := by
  unfold delete
  rw [doc_alter]
  cases db.doc k <;> simp

@[simp] theorem doc_delete_ne (db : Database κ δ) {j k : κ} (h : j ≠ k) :
    (db.delete k).doc j = db.doc j := by
  unfold delete
  rw [doc_alter]
  cases db.doc j <;> simp [h]

/-- Deleting a key that holds nothing changes nothing. -/
theorem delete_of_none {db : Database κ δ} {k : κ} (h : db.doc k = none) : db.delete k = db := by
  refine ext_doc fun j => ?_
  by_cases hj : j = k
  · subst hj
    rw [doc_delete_self, h]
  · rw [doc_delete_ne db hj]

@[simp] theorem doc_update_self (db : Database κ δ) (k : κ) (f : δ k → δ k) :
    (db.update k f).doc k = (db.doc k).map f := by
  unfold update
  split <;> simp_all

/-- Updates store and delete nothing. -/
@[simp] theorem isSome_doc_update (db : Database κ δ) (j k : κ) (f : δ k → δ k) :
    ((db.update k f).doc j).isSome = (db.doc j).isSome := by
  by_cases hj : j = k
  · subst hj
    rw [doc_update_self, Option.isSome_map]
  · unfold update
    split
    · rw [doc_put_ne _ _ hj]
    · rfl

@[simp] theorem doc_update_ne (db : Database κ δ) {j k : κ} (f : δ k → δ k) (h : j ≠ k) :
    (db.update k f).doc j = db.doc j := by
  unfold update
  split <;> simp [h]

end Keys

section Counts

variable {db db' : Database κ δ} {p q : ∀ k, δ k → Bool}

/-- A query returns the keys whose document matches. -/
theorem mem_find {k : κ} : k ∈ db.find p ↔ ∃ d, db.doc k = some d ∧ p k d = true := by
  unfold find
  rw [Finset.mem_filter, db.mem_ids]
  cases db.doc k <;> simp

/-- A count sums over any keys that hold the stored ones. -/
theorem count_eq_sum {s : Finset κ} (hs : db.ids ⊆ s) :
    db.count p = ∑ k ∈ s, ((db.doc k).any (p k)).toNat := by
  unfold count find
  rw [Finset.card_filter]
  have hterm : ∀ k, (if (db.doc k).any (p k) = true then 1 else 0) =
      ((db.doc k).any (p k)).toNat := by
    intro k
    cases (db.doc k).any (p k) <;> rfl
  simp only [hterm]
  apply Finset.sum_subset hs
  intro k _ hk
  rw [db.mem_ids] at hk
  cases hdoc : db.doc k with
  | none => rfl
  | some d => simp [hdoc] at hk

/-- Databases whose documents pass alike have the same count. -/
theorem count_congr (h : ∀ k, (db.doc k).any (p k) = (db'.doc k).any (q k)) :
    db.count p = db'.count q := by
  classical
  rw [count_eq_sum (s := db.ids ∪ db'.ids) Finset.subset_union_left,
    count_eq_sum (s := db.ids ∪ db'.ids) Finset.subset_union_right]
  exact Finset.sum_congr rfl fun k _ => by rw [h]

/-- Databases that differ at one key differ by it in their counts. -/
theorem count_change (k : κ) (h : ∀ j, j ≠ k → (db'.doc j).any (p j) = (db.doc j).any (p j)) :
    db'.count p + ((db.doc k).any (p k)).toNat = db.count p + ((db'.doc k).any (p k)).toNat := by
  classical
  have hk : k ∈ insert k (db.ids ∪ db'.ids) := Finset.mem_insert_self ..
  rw [count_eq_sum (s := insert k (db.ids ∪ db'.ids))
      (Finset.subset_union_right.trans (Finset.subset_insert _ _)),
    count_eq_sum (s := insert k (db.ids ∪ db'.ids))
      (Finset.subset_union_left.trans (Finset.subset_insert _ _)),
    ← Finset.add_sum_erase _ _ hk, ← Finset.add_sum_erase _ _ hk]
  have hrest : ∑ j ∈ (insert k (db.ids ∪ db'.ids)).erase k, ((db'.doc j).any (p j)).toNat =
      ∑ j ∈ (insert k (db.ids ∪ db'.ids)).erase k, ((db.doc j).any (p j)).toNat :=
    Finset.sum_congr rfl fun j hj => by rw [h j (Finset.ne_of_mem_erase hj)]
  rw [hrest]
  omega

/-- Inserting a document raises the count by one if it matches. -/
theorem count_put [DecidableEq κ] {k : κ} {d : δ k} (hk : db.doc k = none) :
    (db.put k d).count p = db.count p + (p k d).toNat := by
  have h : (db.put k d).count p + ((db.doc k).any (p k)).toNat =
      db.count p + (((db.put k d).doc k).any (p k)).toNat :=
    count_change k fun j hj => by rw [doc_put_ne db d hj]
  rw [doc_put_self, hk] at h
  simpa using h

/-- Deleting a document lowers the count by one if it matched. -/
theorem count_delete [DecidableEq κ] {k : κ} {d : δ k} (hk : db.doc k = some d) :
    (db.delete k).count p + (p k d).toNat = db.count p := by
  have h : (db.delete k).count p + ((db.doc k).any (p k)).toNat =
      db.count p + (((db.delete k).doc k).any (p k)).toNat :=
    count_change k fun j hj => by rw [doc_delete_ne db hj]
  rw [doc_delete_self, hk] at h
  simpa using h

/-- An update that keeps the condition of each document keeps the count. -/
theorem count_updateMany {f : ∀ k, δ k → δ k} (h : ∀ k d, p k (f k d) = p k d) :
    (db.updateMany f).count p = db.count p := by
  refine count_congr fun k => ?_
  rw [doc_updateMany]
  cases db.doc k <;> simp [h]

/-- What is counted is not deleted. -/
theorem count_deleteMany {q : ∀ k, δ k → Bool}
    (h : ∀ k d, db.doc k = some d → p k d = true → q k d = false) :
    (db.deleteMany q).count p = db.count p := by
  refine count_congr fun k => ?_
  rw [doc_deleteMany]
  cases hk : db.doc k with
  | none => rfl
  | some d =>
    cases hp : p k d with
    | false => cases hq : q k d <;> simp [Option.filter, hp, hq]
    | true => simp [Option.filter, h k d hk hp, hp]

/-- The count is zero exactly when no document matches. -/
theorem count_eq_zero : db.count p = 0 ↔ ∀ k d, db.doc k = some d → p k d = false := by
  unfold count
  rw [Finset.card_eq_zero, Finset.eq_empty_iff_forall_notMem]
  simp only [mem_find, not_exists, not_and, Bool.not_eq_true]

end Counts

section Merge

variable [DecidableEq κ] [∀ k, DecidableEq (δ k)]

/-- What was changed from one database to another, put over the current one. -/
def merge (before after current : Database κ δ) : Database κ δ where
  doc := fun k => if after.doc k = before.doc k then current.doc k else after.doc k
  ids := (current.ids ∪ after.ids).filter fun k =>
    (if after.doc k = before.doc k then current.doc k else after.doc k).isSome = true
  mem_ids := fun k => by
    rw [Finset.mem_filter, Finset.mem_union, current.mem_ids, after.mem_ids]
    split <;> simp_all

variable {before after current : Database κ δ} {p : ∀ k, δ k → Bool}

/-- A key that the transaction left alone keeps its current document. -/
theorem doc_merge_same {k : κ} (h : after.doc k = before.doc k) :
    (merge before after current).doc k = current.doc k := if_pos h

/-- A key that the transaction wrote holds what it wrote. -/
theorem doc_merge_changed {k : κ} (h : after.doc k ≠ before.doc k) :
    (merge before after current).doc k = after.doc k := if_neg h

/-- A merge adds the change of a count, when the changed keys are current. -/
theorem count_merge (h : ∀ k, after.doc k ≠ before.doc k → current.doc k = before.doc k) :
    (merge before after current).count p + before.count p = current.count p + after.count p := by
  let s := before.ids ∪ after.ids ∪ current.ids
  have hmerge : (merge before after current).ids ⊆ s := by
    intro k hk
    have hmem := Finset.mem_of_mem_filter k hk
    simp only [s, Finset.mem_union] at hmem ⊢
    tauto
  have hbefore : before.ids ⊆ s := fun k hk => by simp [s, hk]
  have hafter : after.ids ⊆ s := fun k hk => by simp [s, hk]
  have hcurrent : current.ids ⊆ s := fun k hk => by simp [s, hk]
  rw [count_eq_sum hmerge, count_eq_sum hbefore, count_eq_sum hcurrent, count_eq_sum hafter,
    ← Finset.sum_add_distrib, ← Finset.sum_add_distrib]
  apply Finset.sum_congr rfl
  intro k _
  by_cases hk : after.doc k = before.doc k
  · rw [doc_merge_same hk, hk]
  · rw [doc_merge_changed hk, h k hk, Nat.add_comm]

end Merge

end Database

end Ascendance.Core
