import Ascendance.Core.Transition
import Ascendance.Models.Outbox.EventBus
import Ascendance.Models.Outbox.Repository

/-!
# Outbox workers

Any number of workers share one store and one clock. A worker's attempt at a
claimed record follows the loop of `tick`: the steps between two awaits are one
step here, and a step that awaits the database carries how it was answered. A
renewal may land at any point of an attempt, and a worker may crash at any point.
The journal lists the handler calls that happened; no step reads it.
-/

namespace Ascendance.Outbox

open Ascendance.Core

/-- The delay before the next attempt, for a random number between zero and one. -/
def retryDelayMs (cfg : OutboxConfig) (retryAttempt : Nat) (random : ℚ) : ℚ :=
  let baseDelay := cfg.baseDelayMs.finiteOr (0 < ·) 15000
  let maxDelay := cfg.maxDelayMs.finiteOr (baseDelay ≤ ·) 300000
  let exponentialDelay := min maxDelay (baseDelay * 2 ^ (retryAttempt - 1))
  let jitterWindow := exponentialDelay / 5
  let jitteredDelay := exponentialDelay - jitterWindow + random * jitterWindow * 2
  min maxDelay (max 1 ⌊jitteredDelay + 1 / 2⌋)

/-- The schedule recorded with a failure of an attempt that read `retries`. -/
def failureState (cfg : OutboxConfig) (retries : Nat) (failureTime : Int) (random : ℚ) :
    OutboxFailureState :=
  let retryAttempt := retries + 1
  if cfg.maxRetries ≤ retryAttempt then ⟨none, some failureTime⟩
  else ⟨some ⌊failureTime + retryDelayMs cfg retryAttempt random⌋, none⟩

/-- Where an attempt stands. -/
inductive Phase
  /-- Before the next handler of the loop, with the handlers still to visit. -/
  | looping (rest : List RegisteredEventHandler)
  /-- Awaiting a handler. -/
  | running (h : RegisteredEventHandler) (rest : List RegisteredEventHandler)
  /-- The handler has returned and its checkpoint comes next. -/
  | returned (h : RegisteredEventHandler) (rest : List RegisteredEventHandler)
  /-- In the catch clause, before the failure is recorded. -/
  | failing (message : String)
  /-- The work is over; a renewal under way is still awaited. -/
  | settled
  deriving DecidableEq, Repr

/-- One worker's attempt at one claimed record. -/
structure Attempt where
  /-- The claimed record as the claim returned it. -/
  record : OutboxEvent
  eventId : EventId
  /-- The local set of handler keys that need no further run. -/
  processedHandlers : List String
  /-- The error of a failed renewal. -/
  renewalFailure : Option String
  phase : Phase

/-- What a worker is doing. -/
inductive Worker
  | idle
  | busy (a : Attempt)
  | crashed

/-- A handler call, as the journal records it. -/
inductive Entry
  | invoked (id : EventId) (h : RegisteredEventHandler)
  | completed (id : EventId) (h : RegisteredEventHandler)
  deriving DecidableEq, Repr

/-- The store, the clock, the workers and the journal. -/
structure World where
  clock : Int
  outbox : Store
  worker : WorkerId → Worker
  journal : List Entry

/-- How the database answers: applied and answered, applied but answered with
an error, or neither applied nor answered. -/
inductive Reply
  | answered
  | lost (message : String)
  | refused (message : String)
  deriving DecidableEq, Repr

/-- The clock readings of a claim, in the order they are taken. -/
structure ClaimTimes where
  staleReadAt : Int
  now : Int
  startedAt : Int
  deriving DecidableEq, Repr

/-- The steps of a worker that is busy with a record. -/
inductive AttemptStep
  | nextHandler
  | handlerReturns
  | handlerThrows (message : String)
  | checkpoint (reply : Reply)
  | complete (processedAt : Int) (reply : Reply)
  | fail (failureTime : Int) (random : ℚ) (reply : Reply)
  | renew (startedAt : Int) (reply : Reply)
  | release
  deriving DecidableEq, Repr

/-- The clock reading that a step stores; steps that store none read the clock now. -/
def AttemptStep.reading (clock : Int) : AttemptStep → Int
  | .complete processedAt _ => processedAt
  | .fail failureTime _ _ => failureTime
  | .renew startedAt _ => startedAt
  | _ => clock

/-- The steps of the system. -/
inductive Action
  | advance (ms : Nat)
  | saveEvent (id : EventId) (eventType : String) (payload : EventPayload) (traceId : String)
      (createdAt : Int)
  | requeueExhaustedEvent (id : EventId)
  | claim (w : WorkerId) (id : EventId) (times : ClaimTimes) (lost : Bool)
  | attempt (w : WorkerId) (x : AttemptStep)
  | crash (w : WorkerId)
  deriving DecidableEq, Repr

/-- A store without records, all workers idle. -/
def World.initial (clock : Int) : World := ⟨clock, .empty, fun _ => .idle, []⟩

/-- The attempt that follows a claim. An event without handlers fails at once. -/
def Attempt.start (bus : EventBus) (id : EventId) (record : OutboxEvent) : Attempt where
  record := record
  eventId := id
  processedHandlers := record.processedHandlers
  renewalFailure := none
  phase :=
    match getRegisteredHandlers bus record.eventType with
    | [] => .failing "Outbox event has no registered handlers"
    | handlers => .looping handlers

namespace World

/-- Move one worker to a new phase of its attempt. -/
def setPhase (s : World) (w : WorkerId) (a : Attempt) (phase : Phase) : World :=
  { s with worker := Function.update s.worker w (.busy { a with phase := phase }) }

/-- The answer of a database call that reports whether a record was changed. -/
def answer (s : World) (w : WorkerId) (a : Attempt) (write : Store × Bool) (reply : Reply)
    (changed : Attempt) (ownershipLost : String) : World :=
  match reply with
  | .answered =>
    if write.2 then
      { s with outbox := write.1, worker := Function.update s.worker w (.busy changed) }
    else { s with outbox := write.1 }.setPhase w a (.failing ownershipLost)
  | .lost message => { s with outbox := write.1 }.setPhase w a (.failing message)
  | .refused message => s.setPhase w a (.failing message)

/-- The loop of `tick` for one worker, up to its next await. -/
def nextHandler (s : World) (w : WorkerId) (a : Attempt) : Option World :=
  match a.phase with
  | .looping (h :: rest) =>
    match a.renewalFailure with
    | some message => some (s.setPhase w a (.failing message))
    | none =>
      if h.key ∈ a.processedHandlers then some (s.setPhase w a (.looping rest))
      else some { s.setPhase w a (.running h rest) with
        journal := s.journal ++ [.invoked a.eventId h] }
  | _ => none

/-- A handler that returned is checkpointed by its key. -/
def checkpoint (s : World) (w : WorkerId) (a : Attempt) (reply : Reply) : Option World :=
  match a.phase, a.renewalFailure with
  | .returned _ _, some message => some (s.setPhase w a (.failing message))
  | .returned h rest, none =>
    let write := markHandlerProcessed s.outbox a.eventId h.key (some w.value)
    some (s.answer w a write reply
      { a with processedHandlers := a.processedHandlers ++ [h.key], phase := .looping rest }
      "Outbox event ownership lost before handler checkpoint")
  | _, _ => none

/-- After the last handler the event is acknowledged. -/
def complete (s : World) (w : WorkerId) (a : Attempt) (processedAt : Int) (reply : Reply) :
    Option World :=
  match a.phase, a.renewalFailure with
  | .looping [], some message => some (s.setPhase w a (.failing message))
  | .looping [], none =>
    let write := markAsProcessed s.outbox a.eventId (some w.value) processedAt
    some (s.answer w a write reply { a with phase := .settled }
      "Outbox event ownership lost before completion")
  | _, _ => none

/-- The catch clause records the failure with the schedule computed from the
record that the claim returned; an error of that write ends the attempt too. -/
def fail (cfg : OutboxConfig) (s : World) (w : WorkerId) (a : Attempt) (failureTime : Int)
    (random : ℚ) (reply : Reply) : Option World :=
  match a.phase with
  | .failing message =>
    let write := markAsFailed s.outbox a.eventId message (some w.value)
      (failureState cfg a.record.retries failureTime random)
    match reply with
    | .answered | .lost _ => some ({ s with outbox := write.1 }.setPhase w a .settled)
    | .refused _ => some (s.setPhase w a .settled)
  | _ => none

/-- The timer renews the claim unless a renewal has failed before. -/
def renew (s : World) (w : WorkerId) (a : Attempt) (startedAt : Int) (reply : Reply) :
    Option World :=
  match a.renewalFailure with
  | some _ => none
  | none =>
    let write := renewClaim s.outbox a.eventId w.value startedAt
    let failedWith (s : World) (message : String) : World := { s with
      worker := Function.update s.worker w (.busy { a with renewalFailure := some message }) }
    match reply with
    | .answered =>
      if write.2 then some { s with outbox := write.1 }
      else some (failedWith { s with outbox := write.1 }
        "Outbox event ownership lost during processing")
    | .lost message => some (failedWith { s with outbox := write.1 } message)
    | .refused message => some (failedWith s message)

/-- One step of a worker that is busy. -/
def attemptStep (cfg : OutboxConfig) (s : World) (w : WorkerId) (a : Attempt) :
    AttemptStep → Option World
  | .nextHandler => s.nextHandler w a
  | .handlerReturns =>
    match a.phase with
    | .running h rest => some { s.setPhase w a (.returned h rest) with
        journal := s.journal ++ [.completed a.eventId h] }
    | _ => none
  | .handlerThrows message =>
    match a.phase with
    | .running _ _ => some (s.setPhase w a (.failing message))
    | _ => none
  | .checkpoint reply => s.checkpoint w a reply
  | .complete processedAt reply => s.complete w a processedAt reply
  | .fail failureTime random reply => s.fail cfg w a failureTime random reply
  | .renew startedAt reply => s.renew w a startedAt reply
  | .release =>
    match a.phase with
    | .settled => some { s with worker := Function.update s.worker w .idle }
    | _ => none

/-- A claim by an idle worker, whose answer may be lost. -/
def claim (cfg : OutboxConfig) (bus : EventBus) (s : World) (w : WorkerId) (id : EventId)
    (times : ClaimTimes) (lost : Bool) : Option World :=
  if times.staleReadAt ≤ times.now ∧ times.now ≤ times.startedAt ∧ times.startedAt ≤ s.clock ∧
      Claimable s.outbox cfg.maxRetries times.now (times.staleReadAt - cfg.staleAfterMs) id then
    let outbox := claimPendingEvents s.outbox id w.value times.startedAt
    if lost then some { s with outbox := outbox }
    else some { s with
      outbox := outbox
      worker := Function.update s.worker w (.busy (.start bus id (outbox.doc id))) }
  else none

/-- The step function of the whole system. -/
def step (cfg : OutboxConfig) (bus : EventBus) (s : World) : Action → Option World
  | .advance ms => some { s with clock := s.clock + ms }
  | .saveEvent id eventType payload traceId createdAt =>
    if id ∉ s.outbox.ids ∧ createdAt ≤ s.clock then
      some { s with outbox := saveEvent s.outbox id eventType payload traceId createdAt }
    else none
  | .requeueExhaustedEvent id =>
    some { s with outbox := (requeueExhaustedEvent s.outbox cfg.maxRetries id).1 }
  | .claim w id times lost =>
    match s.worker w with
    | .idle => s.claim cfg bus w id times lost
    | _ => none
  | .attempt w x =>
    match s.worker w with
    | .busy a => if x.reading s.clock ≤ s.clock then s.attemptStep cfg w a x else none
    | _ => none
  | .crash w => some { s with worker := Function.update s.worker w .crashed }

end World

end Ascendance.Outbox
