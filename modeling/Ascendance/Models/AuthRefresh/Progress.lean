import Ascendance.Models.AuthRefresh.Lawful
import Mathlib.Algebra.BigOperators.Group.List.Basic
import Mathlib.Algebra.GroupWithZero.Nat

/-!
# Nobody waits for nothing

Whatever the promises have to do comes to an end, and then a caller that still waits waits for an
answer of the server: its own, or the one to the refresh. The refresh never waits for itself.
-/

namespace Ascendance.AuthRefresh

open Ascendance.Core

/-- A sum after a change at one place. -/
private theorem sum_map_set {α : Type} {l : List α} {f : α → ℕ} {i : ℕ} {a b : α}
    (h : l[i]? = some a) :
    ((l.set i b).map f).sum + f a = (l.map f).sum + f b := by
  induction l generalizing i with
  | nil => cases h
  | cons x l ih =>
    cases i with
    | zero =>
      obtain rfl := Option.some.inj h
      simp only [List.set_cons_zero, List.map_cons, List.sum_cons]
      omega
    | succ i =>
      have hrest := ih h
      simp only [List.set_cons_succ, List.map_cons, List.sum_cons]
      omega

namespace Client

/-- The steps that a promise still has to take. -/
def Flight.work : Flight → ℕ
  | .queued _ => 2
  | .posting _ => 1
  | .settled _ => 0

/-- What a call has still to do after its flight. -/
def Call.work : Call → ℕ
  | .waiting _ _ _ _ => 1
  | _ => 0

/-- A bound on what can run before the next macrotask. -/
def work (s : Client) : ℕ := (s.flights.map Flight.work).sum + (s.calls.map Call.work).sum

end Client

/-- What the promises do on their own. -/
def Event.isMicrotask : Event → Bool
  | .refresh _ _ => true
  | .clear _ => true
  | .resume _ _ => true
  | _ => false

open Client

/-- Each microtask is one step less to take. -/
theorem work_step {s s' : Client} {e : Event} (he : e.isMicrotask = true)
    (hstep : s.step e = some s') : s'.work + 1 = s.work := by
  cases steps_of_step hstep with
  | start => cases he
  | deleteAccount => cases he
  | respond => cases he
  | @refresh f cause uuid hf =>
    have hflights := sum_map_set (f := Flight.work) (b := .posting s.calls.length) hf
    have hcalls := congrArg (fun calls => (calls.map Call.work).sum)
      (send_calls_new s uuid .coordinator (.of refreshEndpoint cause))
    simp only [List.map_append, List.sum_append, List.map_cons, List.map_nil, List.sum_cons,
      List.sum_nil, Call.work, Flight.work] at hcalls hflights
    simp only [work]
    omega
  | @clear f k ok hf hk =>
    have hflights := sum_map_set (f := Flight.work) (b := .settled ok) hf
    simp only [Flight.work] at hflights
    simp only [work]
    omega
  | @rejectWaiting i f sender config status uuid hi hf =>
    have hcalls := sum_map_set (f := Call.work) (b := .rejected status) hi
    simp only [Call.work] at hcalls
    simp only [work, reject, setCall, log]
    omega
  | @sendAgain i f sender config status uuid hi hf =>
    have hcalls := sum_map_set (f := Call.work)
      (b := .sent sender (interceptRequest uuid s.previousClientRequestId config).1) hi
    have hknown : (s.send uuid i sender config).calls = s.calls.set i
        (.sent sender (interceptRequest uuid s.previousClientRequestId config).1) :=
      send_calls_known (List.getElem?_eq_some_iff.mp hi).1
    have hset := congrArg (fun calls => (calls.map Call.work).sum) hknown
    have hflights : (s.send uuid i sender config).flights = s.flights := rfl
    simp only [Call.work] at hcalls hset
    simp only [work, hflights]
    omega

/-- Every microtask takes one from the work. -/
private theorem work_run {s s' : Client} {es : List Event} (hes : ∀ e ∈ es, e.isMicrotask = true)
    (hrun : Run (Graph Client.step) s es s') : s'.work + es.length = s.work := by
  induction hrun with
  | nil => rfl
  | snoc hrun hlast ih =>
    have hone := work_step (hes _ (by simp)) hlast
    have hrest := ih fun e he => hes e (List.mem_append_left _ he)
    rw [List.length_append, List.length_singleton]
    omega

/-- While something is left to run, something can run. -/
theorem exists_microtask {s : Client} (h : ¬ s.Drained) :
    ∃ e s', e.isMicrotask = true ∧ s.step e = some s' := by
  by_contra hnone
  have hstuck : ∀ e, e.isMicrotask = true → s.step e = none := fun e he =>
    Option.eq_none_iff_forall_ne_some.mpr fun s' hstep => hnone ⟨e, s', he, hstep⟩
  refine h ⟨fun flight hflight => ?_, fun call hcall => ?_⟩
  · obtain ⟨f, hf⟩ := List.mem_iff_getElem?.mp hflight
    cases flight with
    | queued cause =>
      have hrefresh := hstuck (.refresh f 0) rfl
      simp only [step, hf] at hrefresh
      cases hrefresh
    | posting k =>
      have hclear := hstuck (.clear f) rfl
      simp only [step, hf, Option.map_eq_none_iff] at hclear
      rw [Flight.ready, hclear]
      rfl
    | settled ok => rfl
  · obtain ⟨i, hi⟩ := List.mem_iff_getElem?.mp hcall
    cases call with
    | waiting sender config status f =>
      have hresume := hstuck (.resume i 0) rfl
      simp only [step, hi] at hresume
      unfold Call.ready
      dsimp only
      split
      · next hf =>
        rw [hf] at hresume
        cases hresume
      · rfl
    | _ => rfl

/-- The promises run until nothing is left. -/
theorem exists_drained (s : Client) : ∃ es s', (∀ e ∈ es, e.isMicrotask = true) ∧
    Run (Graph Client.step) s es s' ∧ s'.Drained := by
  induction hn : s.work using Nat.strong_induction_on generalizing s with
  | _ n ih =>
  by_cases hdrained : s.Drained
  · exact ⟨[], s, by simp, .nil, hdrained⟩
  · obtain ⟨e, t, he, hstep⟩ := exists_microtask hdrained
    have hone := work_step he hstep
    obtain ⟨es, s', hes, hrun, hend⟩ := ih t.work (by omega) t rfl
    refine ⟨e :: es, s', fun e' he' => ?_, hrun.cons hstep, hend⟩
    rcases List.mem_cons.mp he' with rfl | he'
    · exact he
    · exact hes e' he'

/-- No request is under way. -/
def Answered (s : Client) : Prop :=
  ∀ (i : ℕ) sender config, s.calls[i]? ≠ some (.sent sender config)

/-- A promise that has nothing to do although nothing is under way is settled. -/
theorem settled_of_answered {s : Client} (h : Inv s) (hdrained : s.Drained) (hanswered : Answered s)
    {f : ℕ} {flight : Flight} (hf : s.flights[f]? = some flight) : ∃ ok, flight = .settled ok := by
  have hready := hdrained.1 flight (List.mem_of_getElem? hf)
  cases flight with
  | queued cause => cases hready
  | settled ok => exact ⟨ok, rfl⟩
  | posting k =>
    -- The call that refreshes never waits, so it is under way or settled.
    obtain ⟨headers, hmem⟩ := h.posting f k hf
    have habout : .sent k .coordinator refreshEndpoint headers ∈ about k s.history :=
      List.mem_filter.mpr ⟨hmem, beq_self_eq_true k⟩
    cases hk : s.calls[k]? with
    | none =>
      rw [h.unknown k (List.getElem?_eq_none_iff.mp hk)] at habout
      cases habout
    | some call =>
      cases call with
      | sent sender config => exact absurd hk (hanswered k sender config)
      | waiting sender config status f' =>
        obtain ⟨-, -, headers', hwaits, -⟩ := h.waits hk
        rw [hwaits] at habout
        simp at habout
      | _ => simp [Flight.ready, outcome, hk] at hready

/-- In every run the promises come to an end, in as many steps as they have left; and when nothing
is left to run and no request is under way, every call is settled and the coordinator is free. -/
theorem client_progress {es : List Event} {s : Client}
    (hrun : Run (Graph Client.step) .initial es s) :
    (∀ more s', (∀ e ∈ more, e.isMicrotask = true) → Run (Graph Client.step) s more s' →
      more.length ≤ s.work) ∧
    (∃ more s', (∀ e ∈ more, e.isMicrotask = true) ∧ Run (Graph Client.step) s more s' ∧
      s'.Drained) ∧
    (s.Drained → Answered s → s.refreshPromise = none ∧
      ∀ (i : ℕ) call, s.calls[i]? = some call → (s.outcome i).isSome = true) := by
  refine ⟨fun more s' hmore hrest => ?_, exists_drained s, fun hdrained hanswered => ?_⟩
  · have hwork := work_run hmore hrest
    omega
  have hinv := inv_run hrun
  constructor
  · by_contra hsome
    obtain ⟨f, hf⟩ := Option.ne_none_iff_exists'.mp hsome
    obtain ⟨flight, hflight, hopen⟩ := hinv.pending f hf
    obtain ⟨ok, rfl⟩ := settled_of_answered hinv hdrained hanswered hflight
    exact hopen ok rfl
  · intro i call hi
    cases call with
    | sent sender config => exact absurd hi (hanswered i sender config)
    | waiting sender config status f =>
      obtain ⟨flight, hflight, -⟩ := hinv.waiting i sender config status f hi
      obtain ⟨ok, rfl⟩ := settled_of_answered hinv hdrained hanswered hflight
      have hready := hdrained.2 _ (List.mem_of_getElem? hi)
      simp [Call.ready, hflight] at hready
    | _ => simp [outcome, hi]

/-- The refresh fails while two calls wait for it; both get their answers 401. -/
theorem client_progress_failed : ∃ s, Run (Graph Client.step) .initial
    [.start "/api/feed" 1, .start "/api/posts" 2, .respond 0 (some 401) 0, .refresh 0 3,
      .respond 1 (some 401) 0, .respond 2 (some 401) 0, .clear 0, .resume 1 0, .resume 0 0] s ∧
    s.refreshPromise = none ∧
      ∀ (i : ℕ) call, s.calls[i]? = some call → (s.outcome i).isSome = true := by
  obtain ⟨s, hrun, hend⟩ := exec_any (by decide +kernel :
    (exec Client.step .initial [.start "/api/feed" 1, .start "/api/posts" 2,
      .respond 0 (some 401) 0, .refresh 0 3, .respond 1 (some 401) 0, .respond 2 (some 401) 0,
      .clear 0, .resume 1 0, .resume 0 0]).any (fun s => decide (s.Drained ∧
        s.calls = [.rejected (some 401), .rejected (some 401), .rejected (some 401)])) = true)
  obtain ⟨hdrained, hcalls⟩ := of_decide_eq_true hend
  refine ⟨s, hrun, (client_progress hrun).2.2 hdrained fun i sender config hi => ?_⟩
  rw [hcalls] at hi
  simpa using List.mem_of_getElem? hi

end Ascendance.AuthRefresh
