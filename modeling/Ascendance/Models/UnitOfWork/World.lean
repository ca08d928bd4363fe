import Ascendance.Core.Document
import Ascendance.Core.Transition
import Ascendance.Models.UnitOfWork.Call
import Ascendance.Models.UnitOfWork.Semaphore

/-!
# Concurrent calls

Any number of calls share one semaphore and one metrics tracker. A call made
inside an active transaction only runs its work. Every other call acquires a
permit, and the continuation of an acquisition is a step of its own, because a
promise that is resolved is not yet awaited. The counters of a ticket record the
truth about its permit; no step looks at them.
-/

namespace Ascendance.UnitOfWork

open Ascendance.Core

/-- The counters of `TransactionMetricsTracker`. -/
structure Metrics where
  totalAttempts : Nat
  successfulTransactions : Nat
  failedTransactions : Nat
  retriedTransactions : Nat
  totalRetries : Nat
  commitAttempts : Nat
  bodyRetries : Nat
  commitRetries : Nat
  ambiguousTransactions : Nat
  rejectedTransactions : Nat
  deriving DecidableEq, Repr

/-- A tracker at its start. -/
def Metrics.empty : Metrics := ⟨0, 0, 0, 0, 0, 0, 0, 0, 0, 0⟩

/-- One call of the tracker. -/
def Metrics.record (m : Metrics) : Record → Metrics
  | .attempt => { m with totalAttempts := m.totalAttempts + 1 }
  | .commitAttempt => { m with commitAttempts := m.commitAttempts + 1 }
  | .retry .body => { m with bodyRetries := m.bodyRetries + 1 }
  | .retry .commit => { m with commitRetries := m.commitRetries + 1 }
  | .success attempt =>
    let m := { m with successfulTransactions := m.successfulTransactions + 1 }
    if 1 < attempt then
      { m with
        retriedTransactions := m.retriedTransactions + 1
        totalRetries := m.totalRetries + (attempt - 1) }
    else m
  | .failure => { m with failedTransactions := m.failedTransactions + 1 }
  | .ambiguous => { m with ambiguousTransactions := m.ambiguousTransactions + 1 }
  | .rejected => { m with rejectedTransactions := m.rejectedTransactions + 1 }

/-- All outcomes that were recorded. -/
def Metrics.outcomes (m : Metrics) : Nat :=
  m.successfulTransactions + m.failedTransactions + m.ambiguousTransactions +
    m.rejectedTransactions

/-- The number of a call. -/
abbrev CallId := Nat

/-- Where a call stands with its permit. -/
inductive Stage (β : Type)
  /-- Made inside an active transaction: only the work runs. -/
  | nested
  | nestedSettled
  /-- In the queue of the semaphore. -/
  | waiting
  /-- The timer has rejected the waiter; the call does not know yet. -/
  | timedOut
  /-- A permit is handed over; the call does not know yet. -/
  | granted
  | active (c : Call β)
  /-- Settled without a permit. -/
  | rejected

/-- A call with its configuration and the truth about its permit. -/
structure Ticket (β : Type) where
  config : TransactionConfig
  stage : Stage β
  /-- How often the call was given a permit. -/
  acquired : Nat
  /-- How often it has returned one. -/
  released : Nat

instance (β : Type) : Inhabited (Ticket β) := ⟨⟨.empty, .nested, 0, 0⟩⟩

/-- The unit of work of one process. -/
structure World (β : Type) where
  sem : TransactionSemaphore CallId
  metrics : Metrics
  calls : Collection CallId (Ticket β)

/-- The steps of the system. -/
inductive Action (β : Type)
  /-- A call, with the call whose session the caller's context carries. -/
  | call (id : CallId) (parent : Option CallId) (config : TransactionConfig)
  | timerFires (id : CallId)
  /-- The continuation after `acquire` runs. -/
  | resumes (id : CallId)
  | event (id : CallId) (x : Event β)
  | nestedEnds (id : CallId)
  deriving DecidableEq, Repr

variable {β : Type}

/-- A process with all its permits. -/
def World.initial (maxConcurrent : Nat) : World β := ⟨⟨maxConcurrent, []⟩, .empty, .empty⟩

namespace Ticket

/-- The same call at another stage. -/
def moveTo (stage : Stage β) (t : Ticket β) : Ticket β := { t with stage := stage }

/-- A permit is handed over. -/
def grant (t : Ticket β) : Ticket β := { t with stage := .granted, acquired := t.acquired + 1 }

/-- The call settles and returns its permit. -/
def settle (c : Call β) (t : Ticket β) : Ticket β :=
  { t with stage := .active c, released := t.released + 1 }

end Ticket

/-- The session of a call answers that it is in a transaction. -/
def World.inTransaction (w : World β) (id : CallId) : Bool :=
  if id ∈ w.calls.ids then
    match (w.calls.doc id).stage with
    | .active c => c.inTransaction
    | _ => false
  else false

/-- A call has settled. -/
def Call.isSettled (c : Call β) : Bool :=
  match c.phase with
  | .settled _ => true
  | _ => false

namespace World

/-- A permit comes back, and is handed to a waiter when there is one. -/
def release (w : World β) : World β :=
  match w.sem.release with
  | (sem, some id) => { w with sem := sem, calls := w.calls.modify id Ticket.grant }
  | (sem, none) => { w with sem := sem }

/-- A new call: inside an active transaction it runs its work, else it acquires a permit. -/
def call (w : World β) (id : CallId) (parent : Option CallId) (config : TransactionConfig) :
    World β :=
  if parent.any w.inTransaction then
    { w with calls := w.calls.insertOne id ⟨config, .nested, 0, 0⟩ }
  else
    match w.sem.acquire id (some (resolveTransactionConfig config).semaphoreWaitTimeoutMs) with
    | (sem, true) => { w with sem := sem, calls := w.calls.insertOne id ⟨config, .granted, 1, 0⟩ }
    | (sem, false) => { w with sem := sem, calls := w.calls.insertOne id ⟨config, .waiting, 0, 0⟩ }

/-- The timer of a waiter fires. -/
def timerFires (w : World β) (id : CallId) : World β :=
  match w.sem.timerFires id with
  | (sem, true) => { w with sem := sem, calls := w.calls.modify id (Ticket.moveTo .timedOut) }
  | (sem, false) => { w with sem := sem }

/-- The continuation after `acquire`: the call starts, or its rejection is recorded. -/
def resumes (w : World β) (id : CallId) : Option (World β) :=
  match (w.calls.doc id).stage with
  | .granted =>
    let c := Call.start (resolveTransactionConfig (w.calls.doc id).config)
    some { w with calls := w.calls.modify id (Ticket.moveTo (.active c)) }
  | .timedOut =>
    some { w with
      metrics := w.metrics.record .rejected
      calls := w.calls.modify id (Ticket.moveTo .rejected) }
  | _ => none

/-- One step of a call; in the step that settles it the permit is released. -/
def event (w : World β) (id : CallId) (x : Event β) : Option (World β) :=
  match (w.calls.doc id).stage with
  | .active c =>
    (c.step x).map fun r =>
      let w := { w with metrics := r.2.foldl Metrics.record w.metrics }
      if r.1.isSettled then
        { w with calls := w.calls.modify id (Ticket.settle r.1) }.release
      else { w with calls := w.calls.modify id (Ticket.moveTo (.active r.1)) }
  | _ => none

/-- The step function of the whole system. -/
def step (w : World β) : Action β → Option (World β)
  | .call id parent config => if id ∈ w.calls.ids then none else some (w.call id parent config)
  | .timerFires id => some (w.timerFires id)
  | .resumes id => if id ∈ w.calls.ids then w.resumes id else none
  | .event id x => if id ∈ w.calls.ids then w.event id x else none
  | .nestedEnds id =>
    if id ∈ w.calls.ids then
      match (w.calls.doc id).stage with
      | .nested => some { w with calls := w.calls.modify id (Ticket.moveTo .nestedSettled) }
      | _ => none
    else none

end World

end Ascendance.UnitOfWork
