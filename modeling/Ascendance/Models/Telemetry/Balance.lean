import Ascendance.Core.Lists
import Ascendance.Models.Telemetry.Flows

/-!
# Balance of the flows

While no two flows of one type are started in the same millisecond, every identifier
is new, every flow that was started is active, completed or abandoned, and it ends
once at most.
-/

namespace Ascendance.Telemetry

open Ascendance.Core

private theorem minus_not_digit {n : ℕ} : '-' ∉ (toString n).toList := by
  rw [Nat.toString_eq_ofList_toDigits, String.toList_ofList]
  intro h
  exact absurd (Nat.isDigit_of_mem_toDigits (by decide) (by decide) h) (by decide)

private theorem toString_inj {m n : ℕ} (h : (toString m).toList = (toString n).toList) : m = n := by
  rw [Nat.toString_eq_ofList_toDigits, Nat.toString_eq_ofList_toDigits, String.toList_ofList,
    String.toList_ofList] at h
  rw [← Nat.ofDigitChars_toDigits (b := 10) (n := m) (by decide) (by decide), h,
    Nat.ofDigitChars_toDigits (by decide) (by decide)]

/-- Flows that are started with another type or at another time have other identifiers. -/
theorem flowIdOf_inj {flowType flowType' : String} {now now' : ℕ}
    (h : flowIdOf flowType now = flowIdOf flowType' now') : flowType = flowType' ∧ now = now' := by
  have hchars := congrArg String.toList h
  simp only [flowIdOf, String.toList_append, List.append_assoc] at hchars
  obtain ⟨htype, hnow⟩ := append_cons_inj_last minus_not_digit minus_not_digit hchars
  exact ⟨String.toList_injective htype, toString_inj hnow⟩

/-- A property that is a string. -/
def FlowEvent.text (e : FlowEvent) (k : String) : Option String := (e.data k).bind Data.asString

/-- The identifier and the type of the flow that an event is about. -/
def FlowEvent.flow (e : FlowEvent) : Option String × Option String :=
  (e.text "flowId", e.text "flowType")

/-- The events of a kind for a type of flows. -/
def countEvents (log : List FlowEvent) (type : FlowEventType) (flowType : String) : ℕ :=
  log.countP fun e => e.type = type ∧ e.text "flowType" = some flowType

/-- The active flows of a type. -/
def countActive (flows : OrderedMap String FlowState) (flowType : String) : ℕ :=
  flows.entries.countP fun e => e.2.flowType = flowType

/-- The events of started flows. -/
def startsOf (log : List FlowEvent) : List FlowEvent := log.filter (·.type = .flow_start)

/-- The events of ended flows. -/
def endsOf (log : List FlowEvent) : List FlowEvent := log.filter (·.type ≠ .flow_start)

/-- Metadata that does not say which flow it is about. -/
def Leaves (metadata : Properties) : Prop :=
  metadata "flowId" = none ∧ metadata "flowType" = none

/-- The condition on a call: no flow of the type was started in this millisecond, and the
metadata replaces nothing that the service sets. -/
def Orderly (w : FlowWorld) : FlowAction → Prop
  | .startFlow flowType metadata _ => (flowType, w.clock) ∉ w.starts ∧ Leaves metadata
  | .completeFlow _ metadata => Leaves metadata ∧ metadata "duration" = none
  | .tick _ | .updateFlowActivity _ | .abandonFlow _ _ | .checkAbandonedFlows _ => True

instance (metadata : Properties) : Decidable (Leaves metadata) :=
  inferInstanceAs (Decidable (_ ∧ _))

instance (w : FlowWorld) (a : FlowAction) : Decidable (Orderly w a) :=
  match a with
  | .startFlow _ _ _ | .completeFlow _ _ => inferInstanceAs (Decidable (_ ∧ _))
  | .tick _ | .updateFlowActivity _ | .abandonFlow _ _ | .checkAbandonedFlows _ =>
    inferInstanceAs (Decidable True)

/-- The flows that were started, and how they stand. -/
structure Balanced (w : FlowWorld) : Prop where
  distinct : w.starts.Nodup
  ids : (startsOf w.log).map (·.text "flowId") =
    w.starts.map fun s => some (flowIdOf s.1 s.2)
  flows : ((startsOf w.log).map (·.flow)).Perm ((endsOf w.log).map (·.flow) ++
    w.activeFlows.entries.map fun e => (some e.1, some e.2.flowType))
  active : ∀ e ∈ w.activeFlows.entries, e.2.startedAt ≤ w.clock ∧
    ∃ start ∈ startsOf w.log, start.flow = (some e.1, some e.2.flowType) ∧
      start.now = e.2.startedAt
  ended : ∀ e ∈ endsOf w.log, ∃ start ∈ startsOf w.log, start.flow = e.flow ∧
    start.now ≤ e.now ∧ e.data "duration" = some (.number (e.now - start.now))

variable {w : FlowWorld}

/-- A start is appended to the starts. -/
private theorem startsOf_append (log : List FlowEvent) (e : FlowEvent) :
    startsOf (log ++ [e]) = startsOf log ++ if e.type = .flow_start then [e] else [] := by
  unfold startsOf
  rw [List.filter_append]
  by_cases h : e.type = .flow_start <;> simp [h]

/-- An end is appended to the ends. -/
private theorem endsOf_append (log : List FlowEvent) (e : FlowEvent) :
    endsOf (log ++ [e]) = endsOf log ++ if e.type = .flow_start then [] else [e] := by
  unfold endsOf
  rw [List.filter_append]
  by_cases h : e.type = .flow_start <;> simp [h]

/-- Time passes. -/
theorem Balanced.later (h : Balanced w) {clock : ℕ} (hle : w.clock ≤ clock) :
    Balanced { w with clock := clock } where
  distinct := h.distinct
  ids := h.ids
  flows := h.flows
  active e he := ⟨(h.active e he).1.trans hle, (h.active e he).2⟩
  ended := h.ended

/-- A flow that is active leaves with an event that tells its type and its duration. -/
theorem Balanced.finish (h : Balanced w) {flowId : String} {flow : FlowState} {e : FlowEvent}
    (hactive : w.activeFlows.get flowId = some flow) (htype : e.type ≠ .flow_start)
    (hnow : e.now = w.clock) (hflow : e.flow = (some flowId, some flow.flowType))
    (hduration : e.data "duration" = some (.number (w.clock - flow.startedAt))) :
    Balanced { w with log := w.log ++ [e], activeFlows := w.activeFlows.delete flowId } := by
  have hstarts : startsOf (w.log ++ [e]) = startsOf w.log := by
    rw [startsOf_append, if_neg htype, List.append_nil]
  have hends : endsOf (w.log ++ [e]) = endsOf w.log ++ [e] := by
    rw [endsOf_append, if_neg htype]
  obtain ⟨hstarted, start, hstart, hsame, hat⟩ :=
    h.active ⟨flowId, flow⟩ (OrderedMap.mem_entries_iff.mpr hactive)
  refine ⟨h.distinct, hstarts ▸ h.ids, ?_, fun e' he' => ?_, fun e' he' => ?_⟩
  · rw [hstarts, hends, List.map_append, List.map_singleton, hflow, List.append_assoc]
    exact h.flows.trans (((OrderedMap.entries_perm_delete hactive).map _).append_left _)
  · rw [hstarts]
    exact h.active e' ((OrderedMap.entries_perm_delete hactive).mem_iff.mpr
      (List.mem_cons_of_mem _ he'))
  · rw [hstarts]
    rw [hends] at he'
    rcases List.mem_append.mp he' with he' | he'
    · exact h.ended e' he'
    · obtain rfl := List.mem_singleton.mp he'
      exact ⟨start, hstart, hsame.trans hflow.symm, by rw [hat, hnow]; exact hstarted,
        by rw [hduration, hat, hnow]⟩

private theorem spread_of_none {data metadata : Properties} {k : String} (h : metadata k = none) :
    spread data metadata k = data k := by
  unfold spread
  rw [h]
  rfl

/-- An end carries the identifier and the type of its flow. -/
private theorem endData_flow {flowId : String} {flow : FlowState} {metadata : Properties}
    (hmetadata : Leaves metadata) (now : ℕ) (type : FlowEventType) :
    (⟨now, type, spread (w.endData flowId flow) metadata⟩ : FlowEvent).flow =
      (some flowId, some flow.flowType) := by
  change ((spread (w.endData flowId flow) metadata "flowId").bind _,
    (spread (w.endData flowId flow) metadata "flowType").bind _) = _
  rw [spread_of_none hmetadata.1, spread_of_none hmetadata.2]
  rfl

/-- An end carries the time since the start. -/
private theorem endData_duration (flowId : String) {flow : FlowState} {metadata : Properties}
    (hmetadata : metadata "duration" = none) :
    spread (w.endData flowId flow) metadata "duration" =
      some (.number (w.clock - flow.startedAt)) := by
  rw [spread_of_none hmetadata]
  rfl

/-- Completing a flow keeps the balance. -/
theorem Balanced.completeFlow (h : Balanced w) (flowId : String) {metadata : Properties}
    (hmetadata : Leaves metadata ∧ metadata "duration" = none) :
    Balanced (w.completeFlow flowId metadata) := by
  unfold FlowWorld.completeFlow
  cases hactive : w.activeFlows.get flowId with
  | none => exact h
  | some flow =>
    exact h.finish hactive (fun ht => FlowEventType.noConfusion ht) rfl
      (endData_flow hmetadata.1 _ _) (endData_duration flowId hmetadata.2)

/-- Abandoning an active flow keeps the balance. -/
theorem Balanced.abandon (h : Balanced w) {flowId : String} {flow : FlowState}
    (hactive : w.activeFlows.get flowId = some flow) (reason : String) :
    Balanced (w.abandon flowId flow reason) := by
  have hreason : properties [("reason", .string reason)] "duration" = none := rfl
  exact h.finish hactive (fun ht => FlowEventType.noConfusion ht) rfl
    (endData_flow ⟨rfl, rfl⟩ _ _) (endData_duration flowId hreason)

/-- Abandoning a flow keeps the balance. -/
theorem Balanced.abandonFlow (h : Balanced w) (flowId : String) (reason : Option String) :
    Balanced (w.abandonFlow flowId reason) := by
  unfold FlowWorld.abandonFlow
  cases hactive : w.activeFlows.get flowId with
  | none => exact h
  | some flow => exact h.abandon hactive _

/-- A checked flow is kept or abandoned. -/
private theorem checkFlow_cases (isUnload : Bool) (w : FlowWorld) (e : (_ : String) × FlowState) :
    FlowWorld.checkFlow isUnload w e = w ∨
      ∃ reason, FlowWorld.checkFlow isUnload w e = w.abandon e.1 e.2 reason := by
  unfold FlowWorld.checkFlow
  by_cases h : isUnload = true ∨ FLOW_TIMEOUT < w.clock - e.2.lastActivity
  · exact .inr ⟨_, if_pos h⟩
  · exact .inl (if_neg h)

/-- The sweep over flows that are all still active. -/
theorem Balanced.sweep (isUnload : Bool) {es : List ((_ : String) × FlowState)}
    (hkeys : es.NodupKeys) (h : Balanced w)
    (hactive : ∀ e ∈ es, w.activeFlows.get e.1 = some e.2) :
    Balanced (es.foldl (FlowWorld.checkFlow isUnload) w) := by
  induction es generalizing w with
  | nil => exact h
  | cons e es ih =>
    obtain ⟨hnew, hkeys⟩ := List.nodupKeys_cons.mp hkeys
    obtain ⟨hfirst, hrest⟩ := List.forall_mem_cons.mp hactive
    rw [List.foldl_cons]
    obtain hkept | ⟨reason, hended⟩ := checkFlow_cases isUnload w e
    · rw [hkept]
      exact ih hkeys h hrest
    · rw [hended]
      refine ih hkeys (h.abandon hfirst reason) fun e' he' => ?_
      have hne : e'.1 ≠ e.1 := fun heq => hnew (heq ▸ List.mem_keys_of_mem he')
      exact (OrderedMap.get_delete_ne _ hne).trans (hrest e' he')

/-- Abandoning the idle flows keeps the balance. -/
theorem Balanced.checkAbandonedFlows (h : Balanced w) (isUnload : Bool) :
    Balanced (w.checkAbandonedFlows isUnload) :=
  Balanced.sweep isUnload w.activeFlows.nodupKeys h fun _ he => OrderedMap.mem_entries_iff.mp he

/-- Noting activity keeps the balance. -/
theorem Balanced.updateFlowActivity (h : Balanced w) (flowId : String) :
    Balanced (w.updateFlowActivity flowId) := by
  unfold FlowWorld.updateFlowActivity
  cases hactive : w.activeFlows.get flowId with
  | none => exact h
  | some flow =>
    have hperm := OrderedMap.entries_set_perm w.activeFlows flowId
      { flow with lastActivity := w.clock }
    have hold := OrderedMap.entries_perm_delete hactive
    refine ⟨h.distinct, h.ids, ?_, fun e he => ?_, h.ended⟩
    · refine h.flows.trans (List.Perm.append_left _ ?_)
      let pair : ((_ : String) × FlowState) → Option String × Option String :=
        fun e => (some e.1, some e.2.flowType)
      exact (hold.map pair).trans (hperm.map pair).symm
    · rcases List.mem_cons.mp (hperm.mem_iff.mp he) with rfl | he
      · exact h.active ⟨flowId, flow⟩ (OrderedMap.mem_entries_iff.mpr hactive)
      · exact h.active e (hold.mem_iff.mpr (List.mem_cons_of_mem _ he))

/-- A flow of a type that was not started in this millisecond has a new identifier. -/
theorem Balanced.fresh (h : Balanced w) {flowType : String}
    (hnew : (flowType, w.clock) ∉ w.starts) :
    w.activeFlows.get (flowIdOf flowType w.clock) = none := by
  cases hactive : w.activeFlows.get (flowIdOf flowType w.clock) with
  | none => rfl
  | some flow =>
    obtain ⟨-, start, hstart, hflow, -⟩ := h.active _ (OrderedMap.mem_entries_iff.mpr hactive)
    have hid :
        some (flowIdOf flowType w.clock) ∈ w.starts.map fun s => some (flowIdOf s.1 s.2) := by
      rw [← h.ids]
      exact List.mem_map.mpr ⟨start, hstart, congrArg Prod.fst hflow⟩
    obtain ⟨⟨flowType', now⟩, hs, heq⟩ := List.mem_map.mp hid
    obtain ⟨rfl, rfl⟩ := flowIdOf_inj (Option.some.inj heq)
    exact absurd hs hnew

/-- Starting a flow under a new identifier keeps the balance. -/
theorem Balanced.startFlow (h : Balanced w) {flowType : String} {metadata : Properties}
    (delay : ℕ) (hnew : (flowType, w.clock) ∉ w.starts) (hmetadata : Leaves metadata) :
    Balanced (w.startFlow flowType metadata delay) := by
  have hperm := (OrderedMap.entries_set_perm w.activeFlows (flowIdOf flowType w.clock)
    ⟨flowIdOf flowType w.clock, flowType, w.clock + delay, w.clock + delay⟩).trans
      ((OrderedMap.delete_of_none (h.fresh hnew)).cons _)
  let data := properties
    [("flowId", .string (flowIdOf flowType w.clock)), ("flowType", .string flowType)]
  let e : FlowEvent := ⟨w.clock + delay, .flow_start, spread data metadata⟩
  have hflow : e.flow = (some (flowIdOf flowType w.clock), some flowType) := by
    change ((spread data metadata "flowId").bind _, (spread data metadata "flowType").bind _) = _
    rw [spread_of_none hmetadata.1, spread_of_none hmetadata.2]
    rfl
  have hstarts : startsOf (w.log ++ [e]) = startsOf w.log ++ [e] := by
    rw [startsOf_append, if_pos rfl]
  have hends : endsOf (w.log ++ [e]) = endsOf w.log := by
    rw [endsOf_append, if_pos rfl, List.append_nil]
  have hlater := h.later (Nat.le_add_right w.clock delay)
  have hkept : ∀ {start}, start ∈ startsOf w.log → start ∈ startsOf (w.log ++ [e]) :=
    fun hs => hstarts ▸ List.mem_append_left _ hs
  refine ⟨?_, ?_, ?_, fun e' he' => ?_, fun e' he' => ?_⟩
  · exact List.Nodup.append h.distinct (List.nodup_singleton _) (by simpa using hnew)
  · change (startsOf (w.log ++ [e])).map _ = (w.starts ++ [(flowType, w.clock)]).map _
    rw [hstarts, List.map_append, List.map_append, h.ids]
    exact congrArg _ (congrArg (fun t => [t]) (congrArg Prod.fst hflow))
  · change ((startsOf (w.log ++ [e])).map _).Perm ((endsOf (w.log ++ [e])).map _ ++ _)
    rw [hstarts, hends, List.map_append, List.map_singleton, hflow]
    let pair : ((_ : String) × FlowState) → Option String × Option String :=
      fun e => (some e.1, some e.2.flowType)
    refine (List.perm_append_singleton _ _).trans ?_
    refine ((h.flows.cons _).trans ?_).trans ((hperm.map pair).symm.append_left _)
    exact List.perm_middle.symm
  · rcases List.mem_cons.mp (hperm.mem_iff.mp he') with rfl | he'
    · exact ⟨Nat.le_refl _, e, hstarts ▸ List.mem_append_right _ (List.mem_singleton_self e),
        hflow, rfl⟩
    · obtain ⟨hle, start, hstart, hsame⟩ := hlater.active e' he'
      exact ⟨hle, start, hkept hstart, hsame⟩
  · obtain ⟨start, hstart, hsame⟩ := h.ended e' (hends ▸ he')
    exact ⟨start, hkept hstart, hsame⟩

/-- Every orderly action keeps the balance. -/
theorem Balanced.step (h : Balanced w) {a : FlowAction} (ha : Orderly w a) :
    Balanced (w.step a) := by
  cases a with
  | tick ms => exact h.later (Nat.le_add_right w.clock ms)
  | startFlow flowType metadata delay => exact h.startFlow delay ha.1 ha.2
  | updateFlowActivity flowId => exact h.updateFlowActivity flowId
  | completeFlow flowId metadata => exact h.completeFlow flowId ha
  | abandonFlow flowId reason => exact h.abandonFlow flowId reason
  | checkAbandonedFlows isUnload => exact h.checkAbandonedFlows isUnload

private theorem balanced_initial (clock : ℕ) : Balanced (.initial clock) where
  distinct := List.nodup_nil
  ids := rfl
  flows := .nil
  active _ he := absurd he List.not_mem_nil
  ended _ he := absurd he List.not_mem_nil

/-- An event that ends a flow tells that it was completed or that it was abandoned. -/
theorem countP_ends (log : List FlowEvent) (flowType : String) :
    (endsOf log).countP (fun e => e.text "flowType" = some flowType) =
      countEvents log .flow_complete flowType + countEvents log .flow_abandon flowType := by
  unfold endsOf countEvents
  rw [List.countP_filter]
  induction log with
  | nil => rfl
  | cons e log ih =>
    have hone : ∀ (type : FlowEventType) (p : Prop) [Decidable p],
        (if (decide p && decide (type ≠ .flow_start)) = true then 1 else 0) =
          (if decide (type = .flow_complete ∧ p) = true then 1 else 0) +
            if decide (type = .flow_abandon ∧ p) = true then 1 else 0 := by
      intro type p _
      cases type <;> by_cases hp : p <;> simp [hp]
    have := hone e.type (e.text "flowType" = some flowType)
    rw [List.countP_cons, List.countP_cons, List.countP_cons, ih]
    omega

/-- What is counted for a type of flows balances. -/
theorem Balanced.counts (h : Balanced w) (flowType : String) :
    countEvents w.log .flow_start flowType = countEvents w.log .flow_complete flowType +
      countEvents w.log .flow_abandon flowType + countActive w.activeFlows flowType := by
  have hcount := h.flows.countP_eq fun p => p.2 = some flowType
  have hends := countP_ends w.log flowType
  have hstarts : (startsOf w.log).countP (fun e => e.text "flowType" = some flowType) =
      countEvents w.log .flow_start flowType := by
    unfold startsOf countEvents
    rw [List.countP_filter]
    exact List.countP_congr fun e _ => by simp [and_comm]
  rw [List.countP_append, List.countP_map, List.countP_map, List.countP_map] at hcount
  have hactive : (w.activeFlows.entries.countP
      ((fun p : Option String × Option String => decide (p.2 = some flowType)) ∘
        fun e : (_ : String) × FlowState => (some e.1, some e.2.flowType))) =
      countActive w.activeFlows flowType :=
    List.countP_congr fun e _ => by simp
  rw [← hstarts, ← hends, ← hactive]
  exact hcount

/-- Every flow of an orderly run has an identifier of its own, the events of every type of
flows balance with the active flows, and a flow ends once at most, with the time since its
own start as its duration. -/
theorem flows_balance {clock : ℕ} {as : List FlowAction}
    (h :
      Run (Restrict (Graph fun w a => some (FlowWorld.step w a)) Orderly) (.initial clock) as w) :
    (w.starts.map fun s => flowIdOf s.1 s.2).Nodup ∧
      (∀ flowType, countEvents w.log .flow_start flowType =
        countEvents w.log .flow_complete flowType + countEvents w.log .flow_abandon flowType +
          countActive w.activeFlows flowType) ∧
      ((endsOf w.log).map (·.flow)).Nodup ∧
      ∀ e ∈ endsOf w.log, ∃ start ∈ startsOf w.log, start.flow = e.flow ∧
        start.now ≤ e.now ∧ e.data "duration" = some (.number (e.now - start.now)) := by
  have hw : Balanced w := by
    refine h.invariant (fun v a v' hv hstep => ?_) (balanced_initial clock)
    obtain ⟨ha, hnext⟩ := hstep
    obtain rfl := Option.some.inj hnext
    exact hv.step ha
  have hids : (w.starts.map fun s => flowIdOf s.1 s.2).Nodup :=
    hw.distinct.map fun s s' heq => by
      obtain ⟨htype, hnow⟩ := flowIdOf_inj heq
      exact Prod.ext htype hnow
  have hflows : ((startsOf w.log).map (·.flow)).Nodup := by
    have hfirst : ((startsOf w.log).map (·.text "flowId")).Nodup := by
      rw [hw.ids]
      exact (List.nodup_map_iff (Option.some_injective _)).mpr hids |> fun h => by
        rwa [List.map_map] at h
    refine List.Nodup.of_map Prod.fst ?_
    rw [List.map_map]
    exact hfirst
  exact ⟨hids, hw.counts, (List.nodup_append.mp (hw.flows.nodup_iff.mp hflows)).1, hw.ended⟩

/-- A post is created, and the next one is given up. -/
def twoFlows : List FlowAction :=
  [.startFlow "create_post" (properties [("hasImage", .leaf (.scalar (.bool true)))]) 0, .tick 4000,
    .completeFlow "create_post-1" (properties []), .startFlow "create_post" (properties []) 1,
    .tick 70000, .checkAbandonedFlows false]

/-- Of two flows one is completed and one still active. -/
theorem flows_balance_twoFlows :
    ∃ w : FlowWorld, countEvents w.log .flow_start "create_post" = 2 ∧
      countEvents w.log .flow_start "create_post" =
        countEvents w.log .flow_complete "create_post" +
          countEvents w.log .flow_abandon "create_post" +
          countActive w.activeFlows "create_post" := by
  have hexec : (exec (fun w a => if decide (Orderly w a) then some (FlowWorld.step w a) else none)
      (.initial 1) twoFlows).any
        (fun w => countEvents w.log .flow_start "create_post" == 2) = true := by
    decide +kernel
  obtain ⟨w, hw, hcount⟩ := (Option.any_eq_true _ _).mp hexec
  have hrun := exec_restrict (C := Orderly) (fun _ _ h => of_decide_eq_true h) hw
  exact ⟨w, by simpa using hcount, (flows_balance hrun).2.1 "create_post"⟩

/-- Two flows of one type in one millisecond have one identifier, and one entry. -/
theorem flows_collide :
    (exec (fun w a => some (FlowWorld.step w a)) (.initial 1)
      [.startFlow "create_post" (properties []) 0, .startFlow "create_post" (properties []) 0]).any
        (fun w => countEvents w.log .flow_start "create_post" == 2 &&
          countEvents w.log .flow_complete "create_post" +
            countEvents w.log .flow_abandon "create_post" +
            countActive w.activeFlows "create_post" == 1 &&
          w.starts.map (fun s => flowIdOf s.1 s.2) == ["create_post-1", "create_post-1"]) =
            true := by
  decide +kernel

end Ascendance.Telemetry
