import Mathlib.Logic.Function.Basic
import Mathlib.Data.List.Basic

/-!
# Snapshot isolation

Every committed write of a document raises its revision. A transaction reads the
documents as they were when it began, and it commits only if no document that it
writes has been written since. What it wrote over is then what it had read.
-/

namespace Ascendance.Core

variable {κ δ : Type*}

/-- Committed documents with the number of writes each one has seen. -/
structure Versioned (κ δ : Type*) where
  doc : κ → Option δ
  revision : κ → ℕ

/-- The writes of a transaction, in order; writing nothing deletes. -/
abbrev Writes (κ δ : Type*) := List (κ × Option δ)

namespace Versioned

variable [DecidableEq κ]

/-- One committed write. -/
def write (db : Versioned κ δ) (k : κ) (d : Option δ) : Versioned κ δ where
  doc := Function.update db.doc k d
  revision := Function.update db.revision k (db.revision k + 1)

/-- Several writes, one after another. -/
def writes (db : Versioned κ δ) (ws : Writes κ δ) : Versioned κ δ :=
  ws.foldl (fun db w => db.write w.1 w.2) db

omit [DecidableEq κ] in
/-- No document among the writes was written after the snapshot. -/
def Fresh (snapshot db : Versioned κ δ) (ws : Writes κ δ) : Prop :=
  ∀ w ∈ ws, db.revision w.1 = snapshot.revision w.1

instance (snapshot db : Versioned κ δ) (ws : Writes κ δ) : Decidable (Fresh snapshot db ws) :=
  inferInstanceAs (Decidable (∀ w ∈ ws, db.revision w.1 = snapshot.revision w.1))

/-- The first committer wins. -/
def commit (snapshot db : Versioned κ δ) (ws : Writes κ δ) : Option (Versioned κ δ) :=
  if Fresh snapshot db ws then some (db.writes ws) else none

omit [DecidableEq κ] in
/-- The documents have developed from a snapshot: one that was not written is the same. -/
def Since (snapshot db : Versioned κ δ) : Prop :=
  ∀ k, snapshot.revision k ≤ db.revision k ∧
    (db.revision k = snapshot.revision k → db.doc k = snapshot.doc k)

omit [DecidableEq κ] in
/-- Every version is its own continuation. -/
theorem Since.refl (db : Versioned κ δ) : Since db db := fun _ => ⟨Nat.le_refl _, fun _ => rfl⟩

@[simp] theorem doc_write_self (db : Versioned κ δ) (k : κ) (d : Option δ) :
    (db.write k d).doc k = d := Function.update_self ..

@[simp] theorem doc_write_ne (db : Versioned κ δ) {j k : κ} (d : Option δ) (h : j ≠ k) :
    (db.write k d).doc j = db.doc j := Function.update_of_ne h ..

/-- A write develops the documents further. -/
theorem Since.write {snapshot db : Versioned κ δ} (h : Since snapshot db) (k : κ) (d : Option δ) :
    Since snapshot (db.write k d) := by
  intro j
  obtain ⟨hle, heq⟩ := h j
  by_cases hj : j = k
  · subst hj
    have hrev : (db.write j d).revision j = db.revision j + 1 := Function.update_self ..
    rw [hrev]
    exact ⟨by omega, fun h => by omega⟩
  · have hrev : (db.write k d).revision j = db.revision j := Function.update_of_ne hj ..
    rw [hrev, doc_write_ne db d hj]
    exact ⟨hle, heq⟩

/-- A transaction that commits writes over the documents that it had read. -/
theorem commit_eq_some {snapshot db db' : Versioned κ δ} {ws : Writes κ δ}
    (hsince : Since snapshot db) (h : commit snapshot db ws = some db') :
    db' = db.writes ws ∧ ∀ w ∈ ws, db.doc w.1 = snapshot.doc w.1 := by
  unfold commit at h
  split at h
  · next hf =>
    obtain rfl := Option.some.inj h
    exact ⟨rfl, fun w hw => (hsince w.1).2 (hf w hw)⟩
  · cases h

end Versioned

end Ascendance.Core
