import Ascendance.Core.Isolation

/-!
# Traits that documents keep

A trait is what a document does not change as long as it is stored. A program that read
a trait may rely on it later, when the key is never used again after the document is gone.
-/

namespace Ascendance.Core

variable {κ : Type*} {δ τ : κ → Type*}

/-- Which documents have the trait, and what it is. -/
structure Trait (κ : Type*) (δ τ : κ → Type*) where
  has : κ → Prop
  value : ∀ k, δ k → τ k

namespace Trait

variable (T : Trait κ δ τ)

/-- The trait of the document under a key. -/
def of (db : Database κ δ) (k : κ) : Option (τ k) := (db.doc k).map (T.value k)

/-- Documents keep the trait or go, and no document is new. -/
def Stays (db after : Database κ δ) : Prop :=
  ∀ k, T.has k → T.of after k = none ∨ T.of after k = T.of db k

/-- Every document has the trait that it had. -/
def Same (db after : Database κ δ) : Prop := ∀ k, T.has k → T.of after k = T.of db k

/-- Documents that were stored have kept the trait or are gone. -/
def Keeps (earlier later : Committed κ δ) : Prop :=
  ∀ k t, T.has k → T.of earlier.db k = some t → T.of later.db k = none ∨ T.of later.db k = some t

variable {T} {db db' db'' : Database κ δ} {k : κ}

/-- A trait is absent exactly where the document is. -/
theorem of_eq_none : T.of db k = none ↔ db.doc k = none := Option.map_eq_none_iff

/-- The trait of a document that is there. -/
theorem of_eq_some {d : δ k} (h : db.doc k = some d) : T.of db k = some (T.value k d) := by
  unfold of
  rw [h]
  rfl

/-- The trait depends on the document alone. -/
theorem of_congr (h : db'.doc k = db.doc k) : T.of db' k = T.of db k := by
  unfold of
  rw [h]

namespace Stays

/-- Nothing changes from a store to itself. -/
theorem refl (db : Database κ δ) : T.Stays db db := fun _ _ => .inr rfl

/-- What stays over two changes stays over both. -/
theorem trans (h : T.Stays db db') (h' : T.Stays db' db'') : T.Stays db db'' := by
  intro k hk
  rcases h' k hk with hnone | hsame
  · exact .inl hnone
  · rw [hsame]
    exact h k hk

/-- A change that spares the documents with the trait keeps it. -/
theorem of_doc_eq (h : ∀ k, T.has k → db'.doc k = db.doc k) : T.Stays db db' :=
  fun k hk => .inr (of_congr (h k hk))

/-- What has the trait now had it before. -/
theorem exists_of_doc (h : T.Stays db db') (hk : T.has k) {d : δ k} (hd : db'.doc k = some d) :
    ∃ d', db.doc k = some d' ∧ T.value k d' = T.value k d := by
  rcases h k hk with hnone | hsame
  · cases hd.symm.trans (of_eq_none.mp hnone)
  · exact Option.map_eq_some_iff.mp (hsame.symm.trans (of_eq_some hd))

/-- A deletion changes no trait of what it leaves. -/
theorem deleteMany (p : ∀ k, δ k → Bool) : T.Stays db (db.deleteMany p) := by
  intro k _
  unfold of
  rw [Database.doc_deleteMany]
  cases db.doc k with
  | none => exact .inl rfl
  | some d => cases hp : p k d <;> simp [Option.filter, hp]

/-- An update that keeps the trait of each document keeps it in the store. -/
theorem updateMany {f : ∀ k, δ k → δ k} (h : ∀ k d, T.has k → T.value k (f k d) = T.value k d) :
    T.Stays db (db.updateMany f) := by
  intro k hk
  unfold of
  rw [Database.doc_updateMany, Option.map_map]
  refine .inr ?_
  congr 1
  funext d
  exact h k d hk

section Keys

variable [DecidableEq κ]

/-- Deleting a document changes no trait of the others. -/
theorem delete (k : κ) : T.Stays db (db.delete k) := by
  intro j _
  by_cases hj : j = k
  · subst hj
    exact .inl (of_eq_none.mpr (Database.doc_delete_self db j))
  · exact .inr (of_congr (Database.doc_delete_ne db hj))

/-- An update that keeps the trait of a document keeps it in the store. -/
theorem update {f : δ k → δ k} (h : ∀ d, T.value k (f d) = T.value k d) :
    T.Stays db (db.update k f) := by
  intro j _
  by_cases hj : j = k
  · subst hj
    unfold of
    rw [Database.doc_update_self, Option.map_map]
    refine .inr ?_
    congr 1
    funext d
    exact h d
  · exact .inr (of_congr (Database.doc_update_ne db f hj))

end Keys

end Stays

namespace Same

/-- A store has the same traits as itself. -/
theorem refl (db : Database κ δ) : T.Same db db := fun _ _ => rfl

/-- Equality of traits is transitive. -/
theorem trans (h : T.Same db db') (h' : T.Same db' db'') : T.Same db db'' :=
  fun k hk => (h' k hk).trans (h k hk)

/-- A change that spares the documents with the trait leaves it the same. -/
theorem of_doc_eq (h : ∀ k, T.has k → db'.doc k = db.doc k) : T.Same db db' :=
  fun k hk => of_congr (h k hk)

/-- An update that keeps the trait of each document leaves it the same. -/
theorem updateMany {f : ∀ k, δ k → δ k} (h : ∀ k d, T.has k → T.value k (f k d) = T.value k d) :
    T.Same db (db.updateMany f) := by
  intro k hk
  unfold of
  rw [Database.doc_updateMany, Option.map_map]
  congr 1
  funext d
  exact h k d hk

/-- An update of one document that keeps its trait leaves the trait the same. -/
theorem update [DecidableEq κ] {f : δ k → δ k} (h : ∀ d, T.value k (f d) = T.value k d) :
    T.Same db (db.update k f) := by
  intro j _
  by_cases hj : j = k
  · subst hj
    unfold of
    rw [Database.doc_update_self, Option.map_map]
    congr 1
    funext d
    exact h d
  · exact of_congr (Database.doc_update_ne db f hj)

/-- What has the trait now had it before. -/
theorem exists_of_doc (h : T.Same db db') (hk : T.has k) {d : δ k} (hd : db'.doc k = some d) :
    ∃ d', db.doc k = some d' ∧ T.value k d = T.value k d' := by
  obtain ⟨d', hd', hvalue⟩ := Option.map_eq_some_iff.mp ((h k hk).symm.trans (of_eq_some hd))
  exact ⟨d', hd', hvalue.symm⟩

/-- Equality of traits is symmetric. -/
theorem symm (h : T.Same db db') : T.Same db' db := fun k hk => (h k hk).symm

end Same

/-- Every commit keeps the traits of itself. -/
theorem Keeps.refl (c : Committed κ δ) : T.Keeps c c := fun _ _ _ h => .inr h

/-- A document that is gone does not come back under a serial key, or only one trait is possible. -/
theorem Keeps.trans {serial : κ → Bool}
    (hserial : ∀ k, T.has k → serial k = true ∨ Subsingleton (τ k))
    {a b c : Committed κ δ} (hab : Committed.Since serial a b) (hbc : Committed.Since serial b c)
    (h : T.Keeps a b) (h' : T.Keeps b c) : T.Keeps a c := by
  intro k t hk ht
  rcases hserial k hk with hserial | hone
  swap
  · cases hc : T.of c.db k with
    | none => exact .inl rfl
    | some t' => exact .inr (congrArg some (Subsingleton.elim t' t))
  rcases h k t hk ht with hnone | hsame
  · have hstored : (a.db.doc k).isSome = true := by
      obtain ⟨d, hd, -⟩ := Option.map_eq_some_iff.mp ht
      rw [hd]
      rfl
    have hpos := a.written k hstored
    have hgone := (hbc k).2.2 hserial (hpos.trans_le (hab k).1) (of_eq_none.mp hnone)
    exact .inl (of_eq_none.mpr hgone)
  · exact h' k t hk hsame

section Commit

variable [DecidableEq κ] [∀ k, DecidableEq (δ k)] {snapshot current : Committed κ δ}
  {after : Database κ δ} {serial : κ → Bool} {New : Prop}

/-- After a commit, a document is gone, has its trait, or is what the transaction stored. -/
theorem of_commit (hsince : Committed.Since serial snapshot current)
    (hfresh : Committed.Fresh snapshot current after)
    (h : T.of after k = none ∨ T.of after k = T.of snapshot.db k ∨ New) :
    T.of (snapshot.commit current after).db k = none ∨
      T.of (snapshot.commit current after).db k = T.of current.db k ∨
      T.of (snapshot.commit current after).db k = T.of after k ∧ New := by
  by_cases hk : after.doc k = snapshot.db.doc k
  · exact .inr (.inl (of_congr (Database.doc_merge_same hk)))
  · have hmerge : T.of (snapshot.commit current after).db k = T.of after k :=
      of_congr (Database.doc_merge_changed hk)
    rcases h with hnone | hsame | hnew
    · exact .inl (hmerge.trans hnone)
    · exact .inr (.inl (hmerge.trans (hsame.trans (of_congr (hsince.unchanged hfresh hk)).symm)))
    · exact .inr (.inr ⟨hmerge, hnew⟩)

/-- Commits that only add documents under new keys keep the traits. -/
theorem keeps_commit (hserial : ∀ k, T.has k → serial k = true ∨ Subsingleton (τ k))
    (hsince : Committed.Since serial snapshot current)
    (hfresh : Committed.Fresh snapshot current after)
    (hnew : Committed.NewKeys serial snapshot current after)
    (h : ∀ k, T.has k →
      T.of after k = none ∨ T.of after k = T.of snapshot.db k ∨ snapshot.db.doc k = none) :
    T.Keeps current (snapshot.commit current after) := by
  intro k t hk ht
  rcases of_commit hsince hfresh (h k hk) with
    hnone | hsame | ⟨hafter, hfree⟩
  · exact .inl hnone
  · exact .inr (hsame.trans ht)
  · cases hstored : after.doc k with
    | none => exact .inl (hafter.trans (of_eq_none.mpr hstored))
    | some d =>
      rcases hserial k hk with hserial | hone
      swap
      · exact .inr (hafter.trans ((of_eq_some hstored).trans
          (congrArg some (Subsingleton.elim _ t))))
      obtain ⟨e, he, -⟩ := Option.map_eq_some_iff.mp ht
      have hzero := hnew k hserial hfree (by rw [hstored]; simp)
      have hpos := current.written k (by rw [he]; rfl)
      omega

end Commit

end Trait

end Ascendance.Core
