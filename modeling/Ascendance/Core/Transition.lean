import Mathlib.Data.List.Basic

/-!
# Labelled transition systems

A system is a step relation `step s a t` whose label `a` resolves every choice
the environment has. Runs list their labels in the order they were taken, so a
run is extended at its end and induction follows the last step. An executable
step returns an option; `Graph` reads it as a relation and `exec` runs it.
-/

namespace Ascendance.Core

variable {σ α : Type*}

/-- A finite run from a fixed first state, one label for each step. -/
inductive Run (step : σ → α → σ → Prop) (s : σ) : List α → σ → Prop
  | nil : Run step s [] s
  | snoc {t u : σ} {as : List α} {a : α} :
      Run step s as t → step t a u → Run step s (as ++ [a]) u

/-- The step relation of a partial step function. -/
def Graph (f : σ → α → Option σ) : σ → α → σ → Prop := fun s a t => f s a = some t

/-- The steps of a system whose source state and label meet a condition. -/
def Restrict (step : σ → α → σ → Prop) (C : σ → α → Prop) : σ → α → σ → Prop :=
  fun s a t => C s a ∧ step s a t

/-- Run a partial step function on a list of labels. -/
def exec (f : σ → α → Option σ) : σ → List α → Option σ
  | s, [] => some s
  | s, a :: as => (f s a).bind fun t => exec f t as

namespace Run

variable {step : σ → α → σ → Prop} {s t u : σ} {as bs : List α} {a : α}

/-- One step is a run. -/
theorem single (h : step s a t) : Run step s [a] t := by
  simpa only [List.nil_append] using Run.nil.snoc h

/-- Runs compose. -/
theorem append (h : Run step s as t) (h' : Run step t bs u) : Run step s (as ++ bs) u := by
  induction h' with
  | nil => simpa only [List.append_nil] using h
  | snoc _ hstep ih => simpa only [List.append_assoc] using ih.snoc hstep

/-- A run may also be extended at its first state. -/
theorem cons (h : step s a t) (h' : Run step t as u) : Run step s (a :: as) u :=
  (single h).append h'

/-- A property of the first state that every step keeps holds at the end. -/
theorem invariant {I : σ → Prop} (hstep : ∀ s a t, I s → step s a t → I t)
    (h : Run step s as t) (hs : I s) : I t := by
  induction h with
  | nil => exact hs
  | snoc _ hlast ih => exact hstep _ _ _ ih hlast

/-- A reflexive and transitive relation that every step from an invariant state
respects relates both ends of a run. -/
theorem relates {I : σ → Prop} {R : σ → σ → Prop} (hinv : ∀ s a t, I s → step s a t → I t)
    (hrefl : ∀ s, R s s) (htrans : ∀ s t u, R s t → R t u → R s u)
    (hstep : ∀ s a t, I s → step s a t → R s t) (h : Run step s as t) (hs : I s) : R s t := by
  induction h with
  | nil => exact hrefl _
  | snoc hrun hlast ih =>
    exact htrans _ _ _ ih (hstep _ _ _ (hrun.invariant hinv hs) hlast)

/-- A run of a smaller step relation is a run of a larger one. -/
theorem mono {step' : σ → α → σ → Prop} (hsub : ∀ s a t, step s a t → step' s a t)
    (h : Run step s as t) : Run step' s as t := by
  induction h with
  | nil => exact .nil
  | snoc _ hlast ih => exact ih.snoc (hsub _ _ _ hlast)

/-- A run whose labels meet a condition in every state is a restricted run. -/
theorem restrict {C : σ → α → Prop} (h : Run step s as t) (hc : ∀ a ∈ as, ∀ u, C u a) :
    Run (Restrict step C) s as t := by
  induction h with
  | nil => exact .nil
  | @snoc t u as a _ hlast ih =>
    have hpre := ih fun b hb => hc b (List.mem_append_left _ hb)
    exact hpre.snoc ⟨hc a (by simp) t, hlast⟩

/-- Forgetting the condition of a restricted run. -/
theorem of_restrict {C : σ → α → Prop} (h : Run (Restrict step C) s as t) : Run step s as t :=
  h.mono fun _ _ _ hstep => hstep.2

end Run

/-- Executing a step function gives a run of its graph. -/
theorem exec_run {f : σ → α → Option σ} {s t : σ} {as : List α} (h : exec f s as = some t) :
    Run (Graph f) s as t := by
  induction as generalizing s with
  | nil =>
    obtain rfl : s = t := Option.some.inj h
    exact .nil
  | cons a as ih =>
    obtain ⟨u, hu, ht⟩ := Option.bind_eq_some_iff.mp h
    exact .cons hu (ih ht)

/-- An execution that ends in a state with a property gives a run to such a state. -/
theorem exec_any {f : σ → α → Option σ} {s : σ} {as : List α} {p : σ → Bool}
    (h : (exec f s as).any p = true) : ∃ t, Run (Graph f) s as t ∧ p t = true := by
  obtain ⟨t, ht, hp⟩ := (Option.any_eq_true _ _).mp h
  exact ⟨t, exec_run ht, hp⟩

/-- Executing only the steps that pass a check gives a run restricted to what the check ensures. -/
theorem exec_restrict {f : σ → α → Option σ} {c : σ → α → Bool} {C : σ → α → Prop}
    (hc : ∀ s a, c s a = true → C s a) {s t : σ} {as : List α}
    (h : exec (fun s a => if c s a then f s a else none) s as = some t) :
    Run (Restrict (Graph f) C) s as t := by
  refine (exec_run h).mono ?_
  intro u a v hstep
  change (if c u a then f u a else none) = some v at hstep
  split at hstep
  next hcheck => exact ⟨hc u a hcheck, hstep⟩
  next => cases hstep

end Ascendance.Core
