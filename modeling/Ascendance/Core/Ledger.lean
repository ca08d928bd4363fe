import Ascendance.Core.Links
import Mathlib.Algebra.Order.Ring.Int

/-!
# Counters of documents

A counter is a field of one document that holds how many documents pass a filter.
Counters that every transaction leaves right on its own snapshot stay right under
snapshot isolation, when their owners keep their keys for good and when nothing is
counted for a key that was never used.
-/

namespace Ascendance.Core

variable {κ : Type*} {δ : κ → Type*} {ι : Type*}

/-- Counters: the key of the owner, the field, and the documents that it counts. -/
structure Ledger (κ : Type*) (δ : κ → Type*) (ι : Type*) where
  owner : ι → κ
  value : ∀ i, δ (owner i) → ℤ
  entry : ι → ∀ k, δ k → Bool

namespace Ledger

variable (L : Ledger κ δ ι)

/-- A counter is right, when its owner is there. -/
def BalancedAt (db : Database κ δ) (i : ι) : Prop :=
  ∀ d, db.doc (L.owner i) = some d → L.value i d = db.count (L.entry i)

/-- Every counter agrees with what it counts. -/
def Balanced (db : Database κ δ) : Prop := ∀ i, L.BalancedAt db i

/-- What is counted needs the owner of the counter. -/
def Follows (R : Links κ δ) : Prop := ∀ i k d, L.entry i k d = true → R.needs k d (L.owner i)

/-- A counter lags behind what it counts, when its owner is there. -/
def LagsAt (db : Database κ δ) (i : ι) (n : ℤ) : Prop :=
  ∀ d, db.doc (L.owner i) = some d → L.value i d + n = db.count (L.entry i)

variable {L} {db before after : Database κ δ} {i : ι} {n : ℤ}

/-- A lag of zero is balance. -/
theorem lagsAt_zero : L.LagsAt db i 0 ↔ L.BalancedAt db i := by
  unfold LagsAt BalancedAt
  simp only [add_zero]

/-- A counter lags as before when neither it nor what it counts changes. -/
theorem LagsAt.frame (h : L.LagsAt before i n)
    (howner : ∀ d, after.doc (L.owner i) = some d →
      ∃ d', before.doc (L.owner i) = some d' ∧ L.value i d = L.value i d')
    (hentry : ∀ k, (after.doc k).any (L.entry i k) = (before.doc k).any (L.entry i k)) :
    L.LagsAt after i n := by
  intro d hd
  obtain ⟨d', hd', hvalue⟩ := howner d hd
  rw [hvalue, h d' hd', Database.count_congr hentry]

section Steps

variable [DecidableEq κ]

/-- A new document is counted. -/
theorem LagsAt.put {k : κ} {d : δ k} (h : L.LagsAt db i n) (hk : db.doc k = none)
    (howner : L.owner i ≠ k) : L.LagsAt (db.put k d) i (n + (L.entry i k d).toNat) := by
  intro e he
  rw [Database.doc_put_ne db d howner] at he
  rw [Database.count_put hk, Nat.cast_add, ← h e he, add_assoc]

/-- The counters of a new document are ahead by what they start at. -/
theorem lagsAt_new {d : δ (L.owner i)} (hself : L.entry i (L.owner i) d = false)
    (hentry : ∀ k e, db.doc k = some e → L.entry i k e = false) :
    L.LagsAt (db.put (L.owner i) d) i (-L.value i d) := by
  intro e he
  rw [Database.doc_put_self] at he
  obtain rfl := Option.some.inj he
  rw [Database.count_eq_zero.mpr, add_neg_cancel]
  · rfl
  · intro k e he
    by_cases hk : k = L.owner i
    · subst hk
      rw [Database.doc_put_self] at he
      obtain rfl := Option.some.inj he
      exact hself
    · rw [Database.doc_put_ne db d hk] at he
      exact hentry k e he

/-- A counter without its owner is right. -/
theorem balancedAt_delete_owner : L.BalancedAt (db.delete (L.owner i)) i := by
  intro d hd
  rw [Database.doc_delete_self] at hd
  cases hd

/-- A deleted document is no longer counted. -/
theorem LagsAt.delete {k : κ} {d : δ k} (h : L.LagsAt db i n) (hk : db.doc k = some d) :
    L.LagsAt (db.delete k) i (n - (L.entry i k d).toNat) := by
  intro e he
  by_cases howner : L.owner i = k
  · subst howner
    rw [Database.doc_delete_self] at he
    cases he
  · rw [Database.doc_delete_ne db howner] at he
    have hcount := Database.count_delete (p := L.entry i) hk
    have hlag := h e he
    omega

end Steps

/-- An update moves the counter. -/
theorem LagsAt.updateMany {f : ∀ k, δ k → δ k} (h : L.LagsAt db i n) (m : ℤ)
    (hentry : ∀ k d, L.entry i k (f k d) = L.entry i k d)
    (hvalue : ∀ d, L.value i (f (L.owner i) d) = L.value i d + m) :
    L.LagsAt (db.updateMany f) i (n - m) := by
  intro e he
  rw [Database.doc_updateMany] at he
  obtain ⟨d, hd, rfl⟩ := Option.map_eq_some_iff.mp he
  rw [Database.count_updateMany hentry, ← h d hd, hvalue d]
  omega

/-- A counter is right when it is set to the count. -/
theorem balancedAt_updateMany {f : ∀ k, δ k → δ k}
    (hentry : ∀ k d, L.entry i k (f k d) = L.entry i k d)
    (hvalue : ∀ d, db.doc (L.owner i) = some d →
      L.value i (f (L.owner i) d) = db.count (L.entry i)) :
    L.BalancedAt (db.updateMany f) i := by
  intro e he
  rw [Database.doc_updateMany] at he
  obtain ⟨d, hd, rfl⟩ := Option.map_eq_some_iff.mp he
  rw [Database.count_updateMany hentry, hvalue d hd]

/-- A counter whose owner stays lags as before when what it counts stays. -/
theorem LagsAt.deleteMany {p : ∀ k, δ k → Bool} (h : L.LagsAt db i n)
    (hkeep : ∀ d, db.doc (L.owner i) = some d → p (L.owner i) d = false →
      ∀ k e, db.doc k = some e → L.entry i k e = true → p k e = false) :
    L.LagsAt (db.deleteMany p) i n := by
  intro d hd
  obtain ⟨hd, hp⟩ := Database.doc_deleteMany_eq_some.mp hd
  rw [Database.count_deleteMany (hkeep d hd hp), h d hd]

/-- Nothing is counted for a key that was not used. -/
theorem Follows.entry_eq_false {R : Links κ δ} (h : L.Follows R) {c : Committed κ δ}
    (hknown : R.Known c) (hrev : c.revision (L.owner i) = 0) {k : κ} {d : δ k}
    (hd : c.db.doc k = some d) : L.entry i k d = false := by
  by_contra hentry
  have hpos := hknown (L.owner i) ⟨k, d, hd, h i k d (by simpa using hentry)⟩
  omega

variable [DecidableEq κ] [∀ k, DecidableEq (δ k)] {snapshot current : Committed κ δ}
  {serial : κ → Bool}

/-- A counter stays right when a transaction commits that leaves it right on its snapshot. -/
theorem balancedAt_commit {R : Links κ δ} (hfollows : L.Follows R)
    (hserial : serial (L.owner i) = true)
    (hsnapshot : L.BalancedAt snapshot.db i) (hcurrent : L.BalancedAt current.db i)
    (hafter : L.BalancedAt after i) (hknown : R.Known snapshot) (hknown' : R.Known current)
    (hsince : Committed.Since serial snapshot current)
    (hfresh : Committed.Fresh snapshot current after)
    (hnew : Committed.NewKeys serial snapshot current after)
    (hintro : R.Introduces snapshot after) : L.BalancedAt (snapshot.commit current after).db i := by
  intro d hd
  have hmerge : (snapshot.commit current after).db.count (L.entry i) +
      snapshot.db.count (L.entry i) = current.db.count (L.entry i) + after.count (L.entry i) :=
    Database.count_merge fun k hk => hsince.unchanged hfresh hk
  by_cases ho : after.doc (L.owner i) = snapshot.db.doc (L.owner i)
  · have hcur : current.db.doc (L.owner i) = some d := (Database.doc_merge_same ho).symm.trans hd
    have hvalue := hcurrent d hcur
    suffices hsame : after.count (L.entry i) = snapshot.db.count (L.entry i) by omega
    cases hdoc : snapshot.db.doc (L.owner i) with
    | some d' =>
      have hright := hsnapshot d' hdoc
      have hright' := hafter d' (ho.trans hdoc)
      omega
    | none =>
      -- The owner was stored since the snapshot, so its key was not used before.
      have hrev : snapshot.revision (L.owner i) = 0 := by
        by_contra hpos
        have hgone := (hsince (L.owner i)).2.2 hserial (Nat.pos_of_ne_zero hpos) hdoc
        rw [hgone] at hcur
        cases hcur
      have hnone : snapshot.db.count (L.entry i) = 0 :=
        Database.count_eq_zero.mpr fun k d hd => hfollows.entry_eq_false hknown hrev hd
      rw [hnone, Database.count_eq_zero]
      intro k d hd
      by_contra hentry
      have hcited : R.Cited after (L.owner i) := ⟨k, d, hd, hfollows i k d (by simpa using hentry)⟩
      rcases hknown.of_introduces hintro hcited with hpos | hchanged
      · omega
      · exact hchanged ho
  · have haft : after.doc (L.owner i) = some d := (Database.doc_merge_changed ho).symm.trans hd
    have hvalue := hafter d haft
    have hcur := hsince.unchanged hfresh ho
    suffices hsame : current.db.count (L.entry i) = snapshot.db.count (L.entry i) by omega
    cases hdoc : snapshot.db.doc (L.owner i) with
    | some d' =>
      have hright := hsnapshot d' hdoc
      have hright' := hcurrent d' (hcur.trans hdoc)
      omega
    | none =>
      have hrev := hnew (L.owner i) hserial hdoc (by rw [haft]; simp)
      have hle := (hsince (L.owner i)).1
      have hnone : snapshot.db.count (L.entry i) = 0 :=
        Database.count_eq_zero.mpr fun k d hd => hfollows.entry_eq_false hknown (by omega) hd
      have hnone' : current.db.count (L.entry i) = 0 :=
        Database.count_eq_zero.mpr fun k d hd => hfollows.entry_eq_false hknown' hrev hd
      rw [hnone, hnone']

/-- A commit of a balanced transaction onto a balanced store leaves it balanced, although the store
has moved on since the snapshot. -/
theorem balanced_commit {R : Links κ δ} (hfollows : L.Follows R)
    (hserial : ∀ i, serial (L.owner i) = true)
    (hsnapshot : L.Balanced snapshot.db) (hcurrent : L.Balanced current.db)
    (hafter : L.Balanced after) (hknown : R.Known snapshot) (hknown' : R.Known current)
    (hsince : Committed.Since serial snapshot current)
    (hfresh : Committed.Fresh snapshot current after)
    (hnew : Committed.NewKeys serial snapshot current after)
    (hintro : R.Introduces snapshot after) : L.Balanced (snapshot.commit current after).db :=
  fun i => balancedAt_commit hfollows (hserial i) (hsnapshot i) (hcurrent i) (hafter i) hknown
    hknown' hsince hfresh hnew hintro

end Ledger

end Ascendance.Core
