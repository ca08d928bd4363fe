import Ascendance.Core.Isolation

/-!
# What a program has lived through

What a program reads, the snapshots of its transactions and what it commits are among the
documents that were committed while it ran. A result may be justified by any of them.
-/

namespace Ascendance.Core

variable {κ : Type*} {δ : κ → Type*} {χ ε ρ : Type*} [DecidableEq κ] [∀ k, DecidableEq (δ k)]

namespace Program

variable (taken conflict : ε) (Q : List (Database κ δ) → Except ε ρ → Prop)

/-- However a program goes on from some moments, its result is justified by the moments that it
has lived through in the end. -/
def Ensures : List (Database κ δ) → Program (Database κ δ) ε ρ → Prop
  | moments, .done result => Q moments result
  | moments, .read next =>
    ∀ later db, moments ⊆ later → db ∈ later → Ensures later (next db)
  | moments, .write _ next =>
    ∀ later db, moments ⊆ later → db ∈ later → Ensures later (next db)
  | moments, .transact body next =>
    (∀ later db error, moments ⊆ later → db ∈ later → body db = .error error →
      Ensures later (next (.error error))) ∧
    (∀ later db after current, moments ⊆ later → body db = .ok after →
      Database.merge db after current ∈ later → Ensures later (next (.ok ()))) ∧
    (∀ later db after current k, moments ⊆ later → body db = .ok after → current ∈ later →
      db.doc k = none → after.doc k ≠ none → current.doc k ≠ none →
      Ensures later (next (.error taken))) ∧
    ∀ later, moments ⊆ later → Ensures later (next (.error conflict))

variable {taken conflict Q} {moments later : List (Database κ δ)}
  {p : Program (Database κ δ) ε ρ}

/-- More moments justify more. -/
theorem Ensures.mono (hQ : ∀ moments later result, moments ⊆ later → Q moments result →
      Q later result) (hsub : moments ⊆ later) (h : p.Ensures taken conflict Q moments) :
    p.Ensures taken conflict Q later := by
  cases p with
  | done result => exact hQ _ _ result hsub h
  | read next => exact fun l db hl => h l db (List.Subset.trans hsub hl)
  | write f next => exact fun l db hl => h l db (List.Subset.trans hsub hl)
  | transact body next =>
    obtain ⟨herror, hok, htaken, hconflict⟩ := h
    exact ⟨fun l db error hl => herror l db error (List.Subset.trans hsub hl),
      fun l db after current hl => hok l db after current (List.Subset.trans hsub hl),
      fun l db after current k hl => htaken l db after current k (List.Subset.trans hsub hl),
      fun l hl => hconflict l (List.Subset.trans hsub hl)⟩

/-- Programs whose results need no justification. -/
theorem ensures_of_forall (hQ : ∀ moments result, Q moments result) :
    p.Ensures taken conflict Q moments := by
  induction p generalizing moments with
  | done result => exact hQ moments result
  | read next ih => exact fun _ db _ _ => ih db
  | write f next ih => exact fun _ db _ _ => ih db
  | transact body next ih =>
    exact ⟨fun _ _ error _ _ _ => ih (.error error), fun _ _ _ _ _ _ _ => ih (.ok ()),
      fun _ _ _ _ _ _ _ _ _ _ _ => ih (.error taken), fun _ _ => ih (.error conflict)⟩

end Program

variable {r : Runtime κ δ χ ε ρ} {Q : χ → List (Database κ δ) → Except ε ρ → Prop}

/-- A task has lived through the current documents and through its snapshot. -/
def Task.Ensures (r : Runtime κ δ χ ε ρ) (Q : χ → List (Database κ δ) → Except ε ρ → Prop)
    (db : Database κ δ) : Task κ δ χ ε ρ → Prop
  | .idle => True
  | .running c moments p => db ∈ moments ∧ p.Ensures r.taken r.conflict (Q c) moments
  | .inside c moments snapshot body next => db ∈ moments ∧ snapshot.db ∈ moments ∧
      (Program.transact body next).Ensures r.taken r.conflict (Q c) moments

section Observe

variable (hQ : ∀ c moments later result, moments ⊆ later → Q c moments result → Q c later result)

include hQ

/-- What a task ensures is kept when it observes the store. -/
theorem Task.Ensures.observe {db : Database κ δ} {t : Task κ δ χ ε ρ} (h : t.Ensures r Q db)
    (db' : Database κ δ) : (t.observe db').Ensures r Q db' := by
  cases t with
  | idle => trivial
  | running c moments p => exact ⟨List.mem_cons_self .., h.2.mono (hQ _) (List.subset_cons_self ..)⟩
  | inside c moments snapshot body next =>
    exact ⟨List.mem_cons_self .., List.mem_cons_of_mem _ h.2.1,
      h.2.2.mono (hQ _) (List.subset_cons_self ..)⟩

/-- Every step leaves the tasks justified. -/
theorem ensures_step (hprogram : ∀ c, (r.program c).Ensures r.taken r.conflict (Q c) [])
    {w w' : World κ δ χ ε ρ} {e : Event χ} (h : ∀ i, (w.task i).Ensures r Q w.state.db)
    (hstep : w.step r e = some w') : ∀ i, (w'.task i).Ensures r Q w'.state.db := by
  have hset : ∀ {i : ℕ} {t : Task κ δ χ ε ρ}, t.Ensures r Q w.state.db →
      ∀ j, ((w.setTask i t).task j).Ensures r Q w.state.db := by
    intro i t ht j
    change (Function.update w.task i t j).Ensures r Q w.state.db
    by_cases hj : j = i
    · subst hj
      rwa [Function.update_self]
    · rw [Function.update_of_ne hj]
      exact h j
  cases World.steps_of_step hstep with
  | @start i c htask =>
      exact hset ⟨List.mem_singleton_self _, (hprogram c).mono (hQ _) (List.nil_subset _)⟩
  | @read i c moments next htask =>
    have ht := h i
    rw [htask] at ht
    exact hset ⟨ht.1, ht.2 _ _ (List.Subset.refl _) ht.1⟩
  | @write i c moments f next htask _ =>
    have ht := h i
    rw [htask] at ht
    have hnext : Task.Ensures r Q w.state.db (.running c moments (next w.state.db)) :=
      ⟨ht.1, ht.2 _ _ (List.Subset.refl _) ht.1⟩
    exact fun j => (hset hnext j).observe hQ _
  | @begin i c moments body next htask =>
    have ht := h i
    rw [htask] at ht
    exact hset ⟨ht.1, ht.1, ht.2⟩
  | @fail i c moments snapshot body next error htask hbody =>
    have ht := h i
    rw [htask] at ht
    exact hset ⟨ht.1, ht.2.2.1 _ _ error (List.Subset.refl _) ht.2.1 hbody⟩
  | @commit i c moments snapshot body next after htask hbody _ _ =>
    have ht := h i
    rw [htask] at ht
    intro j
    change Task.Ensures r Q _ ((Function.update w.task i _ j).observe _)
    by_cases hj : j = i
    · -- The task itself lives through its commit.
      rw [hj, Function.update_self]
      exact ⟨List.mem_cons_self .., ht.2.2.2.1 _ _ after w.state.db
        (List.subset_cons_self ..) hbody (List.mem_cons_self ..)⟩
    · rw [Function.update_of_ne hj]
      exact (h j).observe hQ _
  | @retry i c moments snapshot body next htask =>
    have ht := h i
    rw [htask] at ht
    exact hset ⟨ht.1, ht.2.2⟩
  | @duplicate i c moments snapshot body next after htask hbody htaken =>
    have ht := h i
    rw [htask] at ht
    obtain ⟨k, hfree, hstored, hcurrent⟩ := htaken
    exact hset ⟨ht.1, ht.2.2.2.2.1 _ _ after _ k (List.Subset.refl _) hbody ht.1 hfree
      hstored hcurrent⟩
  | @giveUp i c moments snapshot body next htask =>
    have ht := h i
    rw [htask] at ht
    exact hset ⟨ht.1, ht.2.2.2.2.2 _ (List.Subset.refl _)⟩

/-- In every run, what a program returns is justified by a moment of its execution. -/
theorem ensures_run (hprogram : ∀ c, (r.program c).Ensures r.taken r.conflict (Q c) [])
    {c : Committed κ δ} {es : List (Event χ)} {w : World κ δ χ ε ρ}
    (hrun : Run (Graph (World.step r)) (World.initial c) es w) {i : ℕ} {command : χ}
    {moments : List (Database κ δ)} {result : Except ε ρ}
    (htask : w.task i = .running command moments (.done result)) : Q command moments result := by
  have h : ∀ i, (w.task i).Ensures r Q w.state.db :=
    hrun.invariant (fun _ _ _ h hstep => ensures_step hQ hprogram h hstep) fun _ => trivial
  have ht := h i
  rw [htask] at ht
  exact ht.2

end Observe

end Ascendance.Core
