import Ascendance.Core.Json
import Ascendance.Core.OrderedMap
import Ascendance.Core.Transition

/-!
# Flows

The flows of a client session. A flow is kept under an identifier made of its type
and the time, and leaves the map with the event that it was completed or abandoned.
The log keeps, besides each event, the time that its duration was computed from.
-/

namespace Ascendance.Telemetry

open Ascendance.Core

/-- An active flow. -/
structure FlowState where
  flowId : String
  flowType : String
  startedAt : ℕ
  lastActivity : ℕ
  deriving DecidableEq, Repr

/-- The events of a flow. -/
inductive FlowEventType
  | flow_start | flow_complete | flow_abandon
  deriving DecidableEq, Repr

/-- The properties of an object, `undefined` where there is none. -/
abbrev Properties := String → Option Value

/-- `{ ...properties, ...metadata }`. -/
def spread (properties metadata : Properties) : Properties :=
  fun k => (metadata k).or (properties k)

/-- An object with some properties. -/
def properties (entries : List (String × Value)) : Properties := fun k => entries.lookup k

/-- An event, and the reading of the clock that was used for it. -/
structure FlowEvent where
  now : ℕ
  type : FlowEventType
  data : Properties

/-- How long a flow may be idle. -/
def FLOW_TIMEOUT : ℕ := 60000

/-- The time, the active flows, everything that was tracked, and the types and times of
the calls of `startFlow`. -/
structure FlowWorld where
  clock : ℕ
  activeFlows : OrderedMap String FlowState
  log : List FlowEvent
  starts : List (String × ℕ)

/-- What can happen: time passes, or one of the methods is called. -/
inductive FlowAction
  | tick (ms : ℕ)
  /-- The two readings of the clock are that far apart. -/
  | startFlow (flowType : String) (metadata : Properties) (delay : ℕ)
  | updateFlowActivity (flowId : String)
  | completeFlow (flowId : String) (metadata : Properties)
  | abandonFlow (flowId : String) (reason : Option String)
  | checkAbandonedFlows (isUnload : Bool)

/-- The identifier that a call of `startFlow` returns. -/
def flowIdOf (flowType : String) (now : ℕ) : String := flowType ++ "-" ++ toString now

namespace FlowWorld

/-- Append an event to the log. -/
def track (w : FlowWorld) (type : FlowEventType) (data : Properties) : FlowWorld :=
  { w with log := w.log ++ [⟨w.clock, type, data⟩] }

/-- Start a flow; its identifier is made of its type and the time. -/
def startFlow (w : FlowWorld) (flowType : String) (metadata : Properties) (delay : ℕ) :
    FlowWorld :=
  let flowId := flowIdOf flowType w.clock
  let now := w.clock + delay
  let w := { w with
    clock := now
    activeFlows := w.activeFlows.set flowId ⟨flowId, flowType, now, now⟩
    starts := w.starts ++ [(flowType, w.clock)] }
  w.track .flow_start (spread
    (properties [("flowId", .string flowId), ("flowType", .string flowType)]) metadata)

/-- The flow is not idle. -/
def updateFlowActivity (w : FlowWorld) (flowId : String) : FlowWorld :=
  match w.activeFlows.get flowId with
  | none => w
  | some flow =>
    { w with activeFlows := w.activeFlows.set flowId { flow with lastActivity := w.clock } }

/-- The data of an event that ends a flow. -/
def endData (w : FlowWorld) (flowId : String) (flow : FlowState) : Properties :=
  properties [("flowId", .string flowId), ("flowType", .string flow.flowType),
    ("duration", .number (w.clock - flow.startedAt))]

/-- The flow has reached its end. -/
def completeFlow (w : FlowWorld) (flowId : String) (metadata : Properties) : FlowWorld :=
  match w.activeFlows.get flowId with
  | none => w
  | some flow =>
    let w := w.track .flow_complete (spread (w.endData flowId flow) metadata)
    { w with activeFlows := w.activeFlows.delete flowId }

/-- The end of a flow that is abandoned. -/
def abandon (w : FlowWorld) (flowId : String) (flow : FlowState) (reason : String) : FlowWorld :=
  let w := w.track .flow_abandon
    (spread (w.endData flowId flow) (properties [("reason", .string reason)]))
  { w with activeFlows := w.activeFlows.delete flowId }

/-- The flow is given up. -/
def abandonFlow (w : FlowWorld) (flowId : String) (reason : Option String) : FlowWorld :=
  match w.activeFlows.get flowId with
  | none => w
  | some flow => w.abandon flowId flow ((reason.filter (· ≠ "")).getD "explicit")

/-- One flow of the sweep. -/
def checkFlow (isUnload : Bool) (w : FlowWorld) (e : (_ : String) × FlowState) : FlowWorld :=
  if isUnload ∨ FLOW_TIMEOUT < w.clock - e.2.lastActivity then
    w.abandon e.1 e.2 (if isUnload then "page_unload" else "timeout")
  else w

/-- The sweep visits the flows that are in the map; it deletes none but the one it visits. -/
def checkAbandonedFlows (w : FlowWorld) (isUnload : Bool) : FlowWorld :=
  w.activeFlows.entries.foldl (checkFlow isUnload) w

/-- The effect of an action. -/
def step (w : FlowWorld) : FlowAction → FlowWorld
  | .tick ms => { w with clock := w.clock + ms }
  | .startFlow flowType metadata delay => w.startFlow flowType metadata delay
  | .updateFlowActivity flowId => w.updateFlowActivity flowId
  | .completeFlow flowId metadata => w.completeFlow flowId metadata
  | .abandonFlow flowId reason => w.abandonFlow flowId reason
  | .checkAbandonedFlows isUnload => w.checkAbandonedFlows isUnload

/-- No active flows. -/
def initial (clock : ℕ) : FlowWorld := ⟨clock, ∅, [], []⟩

end FlowWorld

end Ascendance.Telemetry
