import Ascendance.Core.Number
import Ascendance.Models.Outbox.Event
import Mathlib.Data.Finset.Max

/-!
# The outbox repository

Each method is its filter, its update and what it reports. The filters are not
alike: claiming looks at the retry count, the exhaustion and the schedule, owned
writes look at the owner only, renewing also looks at both flags, and requeueing
looks at the flags and the exhaustion.
-/

namespace Ascendance.Outbox

open Ascendance.Core

/-- The configured attempts limit when it is a positive safe integer, five otherwise. -/
def maxOutboxRetries (configured : JsNumber) : Nat := (configured.safeIntegerOr 1 5).toNat

/-- The configured claim timeout when it is a safe integer of at least one second. -/
def staleClaimMs (configured : JsNumber) : Int := configured.safeIntegerOr 1000 60000

/-- The deployment settings of the outbox. -/
structure OutboxConfig where
  /-- The constant `MAX_OUTBOX_RETRIES`. -/
  maxRetries : Nat
  /-- At least one attempt is made. -/
  maxRetries_pos : 0 < maxRetries
  /-- A claim is stale after this long. -/
  staleAfterMs : Int
  /-- Claims last for at least a second. -/
  staleAfterMs_ge : 1000 ≤ staleAfterMs
  /-- The configured first retry delay. -/
  baseDelayMs : JsNumber
  /-- The configured longest retry delay. -/
  maxDelayMs : JsNumber

/-- The settings read from the environment are always usable. -/
def OutboxConfig.ofEnv (attempts claimMs baseDelayMs maxDelayMs : JsNumber) :
    OutboxConfig where
  maxRetries := maxOutboxRetries attempts
  maxRetries_pos := by
    have h := attempts.le_safeIntegerOr (show (1 : Int) ≤ 5 by decide)
    unfold maxOutboxRetries
    omega
  staleAfterMs := staleClaimMs claimMs
  staleAfterMs_ge := claimMs.le_safeIntegerOr (by decide)
  baseDelayMs := baseDelayMs
  maxDelayMs := maxDelayMs

/-- The stored outbox records. -/
abbrev Store := Collection EventId OutboxEvent

/-- Unprocessed, below the retry limit and not exhausted. -/
def pendingFilter (maxRetries : Nat) (e : OutboxEvent) : Bool :=
  !e.processed && decide (e.retries < maxRetries) && !e.exhaustedAt.isPresent

/-- No next attempt is scheduled, or its time has come. -/
def dueFilter (now : Int) (e : OutboxEvent) : Bool :=
  !e.nextAttemptAt.isPresent || e.nextAttemptAt.holds (· ≤ now)

/-- Nobody is processing the event, or the claim is stale. -/
def unclaimedFilter (staleBefore : Int) (e : OutboxEvent) : Bool :=
  !e.processing || !e.processingStartedAt.isPresent || e.processingStartedAt.holds (· < staleBefore)

/-- The filter of `claimPendingEvents`. -/
def claimFilter (maxRetries : Nat) (now staleBefore : Int) (e : OutboxEvent) : Bool :=
  pendingFilter maxRetries e && dueFilter now e && unclaimedFilter staleBefore e

/-- The filter of owned writes: the owner is compared only when a worker id is given. -/
def buildOwnedFilter (workerId : Option String) (e : OutboxEvent) : Bool :=
  match workerId with
  | none => true
  | some w => w == "" || e.processingOwner.is w

/-- The filter of `renewClaim`. -/
def renewFilter (workerId : String) (e : OutboxEvent) : Bool :=
  e.processingOwner.is workerId && e.processing && !e.processed

/-- The filter of `requeueExhaustedEvent`. -/
def requeueFilter (maxRetries : Nat) (e : OutboxEvent) : Bool :=
  !e.processed && !e.processing && (decide (maxRetries ≤ e.retries) || e.exhaustedAt.isPresent)

/-- The update of `claimPendingEvents`. -/
def OutboxEvent.claimed (workerId : String) (startedAt : Int) (e : OutboxEvent) : OutboxEvent :=
  { e with
    processing := true
    processingOwner := .value workerId
    processingStartedAt := .value startedAt }

/-- The update of `markAsProcessed`. -/
def OutboxEvent.finished (processedAt : Int) (e : OutboxEvent) : OutboxEvent :=
  { e with
    processed := true
    processedAt := .value processedAt
    processing := false
    processingOwner := .missing
    processingStartedAt := .missing
    error := .missing
    nextAttemptAt := .missing
    exhaustedAt := .missing }

/-- The update of `markHandlerProcessed`: `$addToSet` keeps keys distinct. -/
def OutboxEvent.addHandler (handlerKey : String) (e : OutboxEvent) : OutboxEvent :=
  { e with processedHandlers :=
      if handlerKey ∈ e.processedHandlers then e.processedHandlers
      else e.processedHandlers ++ [handlerKey] }

/-- The schedule that accompanies a failure. -/
structure OutboxFailureState where
  nextAttemptAt : Option Int
  exhaustedAt : Option Int
  deriving DecidableEq, Repr

/-- The update of `markAsFailed`: exhaustion has precedence over a next attempt. -/
def OutboxEvent.failed (errorMessage : String) (failureState : OutboxFailureState)
    (e : OutboxEvent) : OutboxEvent :=
  let e := { e with
    retries := e.retries + 1
    error := .value errorMessage
    processing := false
    processingOwner := .missing
    processingStartedAt := .missing }
  match failureState.exhaustedAt, failureState.nextAttemptAt with
  | some d, _ => { e with exhaustedAt := .value d, nextAttemptAt := .missing }
  | none, some d => { e with nextAttemptAt := .value d, exhaustedAt := .missing }
  | none, none => e

/-- The update of `requeueExhaustedEvent`. -/
def OutboxEvent.requeued (e : OutboxEvent) : OutboxEvent :=
  { e with
    retries := 0
    processing := false
    error := .missing
    exhaustedAt := .missing
    nextAttemptAt := .missing
    processingOwner := .missing
    processingStartedAt := .missing }

/-- The update of `renewClaim`. -/
def OutboxEvent.renewed (startedAt : Int) (e : OutboxEvent) : OutboxEvent :=
  { e with processingStartedAt := .value startedAt }

/-- Store a new event. -/
def saveEvent (o : Store) (id : EventId) (eventType : String) (payload : EventPayload)
    (traceId : String) (createdAt : Int) : Store :=
  o.insertOne id (newEvent eventType payload traceId createdAt)

/-- The record that one round of `claimPendingEvents` may pick: it passes the
filter and no record that also passes was created earlier. -/
def Claimable (o : Store) (maxRetries : Nat) (now staleBefore : Int) (id : EventId) : Prop :=
  o.Matches id (claimFilter maxRetries now staleBefore) ∧
    ∀ j ∈ o.ids, claimFilter maxRetries now staleBefore (o.doc j) = true →
      (o.doc id).createdAt ≤ (o.doc j).createdAt

instance (o : Store) (maxRetries : Nat) (now staleBefore : Int) (id : EventId) :
    Decidable (Claimable o maxRetries now staleBefore id) :=
  inferInstanceAs (Decidable (_ ∧ _))

/-- One round of `claimPendingEvents`; the workers ask for one record at a time. -/
def claimPendingEvents (o : Store) (id : EventId) (workerId : String) (startedAt : Int) :
    Store :=
  o.modify id (OutboxEvent.claimed workerId startedAt)

/-- Acknowledge the event; true when the record was changed. -/
def markAsProcessed (o : Store) (id : EventId) (workerId : Option String) (processedAt : Int) :
    Store × Bool :=
  (o.updateOne id (buildOwnedFilter workerId) (.finished processedAt),
    decide (0 < (o.updateResult id (buildOwnedFilter workerId)
      (.finished processedAt)).modifiedCount))

/-- Checkpoint one handler; true when the record was changed. -/
def markHandlerProcessed (o : Store) (id : EventId) (handlerKey : String)
    (workerId : Option String) : Store × Bool :=
  (o.updateOne id (buildOwnedFilter workerId) (.addHandler handlerKey),
    decide (0 < (o.updateResult id (buildOwnedFilter workerId)
      (.addHandler handlerKey)).modifiedCount))

/-- Record a failure; true when the record was changed. -/
def markAsFailed (o : Store) (id : EventId) (errorMessage : String) (workerId : Option String)
    (failureState : OutboxFailureState) : Store × Bool :=
  (o.updateOne id (buildOwnedFilter workerId) (.failed errorMessage failureState),
    decide (0 < (o.updateResult id (buildOwnedFilter workerId)
      (.failed errorMessage failureState)).modifiedCount))

/-- Put an exhausted event back into circulation; true when the record was changed. -/
def requeueExhaustedEvent (o : Store) (maxRetries : Nat) (id : EventId) : Store × Bool :=
  (o.updateOne id (requeueFilter maxRetries) .requeued,
    decide (0 < (o.updateResult id (requeueFilter maxRetries) .requeued).modifiedCount))

/-- Renew a claim; true when the record was matched. -/
def renewClaim (o : Store) (id : EventId) (workerId : String) (startedAt : Int) :
    Store × Bool :=
  (o.updateOne id (renewFilter workerId) (.renewed startedAt),
    decide ((o.updateResult id (renewFilter workerId) (.renewed startedAt)).matchedCount = 1))

/-- The number of pending events. -/
def countPendingEvents (o : Store) (maxRetries : Nat) : Nat :=
  o.countDocuments (pendingFilter maxRetries)

/-- The backlog figures of the metrics. -/
structure OutboxBacklogStats where
  pendingCount : Nat
  exhaustedCount : Nat
  oldestPendingAt : WithTop Int

/-- The aggregation matches pending events by a null exhaustion date. -/
def backlogPendingFilter (maxRetries : Nat) (e : OutboxEvent) : Bool :=
  !e.processed && (decide (e.retries < maxRetries) && e.exhaustedAt.isNull)

/-- The aggregation matches exhausted events by either sign of exhaustion. -/
def backlogExhaustedFilter (maxRetries : Nat) (e : OutboxEvent) : Bool :=
  !e.processed && (decide (maxRetries ≤ e.retries) || !e.exhaustedAt.isNull)

/-- Both counts and the oldest pending creation date. -/
def getBacklogStats (o : Store) (maxRetries : Nat) : OutboxBacklogStats where
  pendingCount := o.countDocuments (backlogPendingFilter maxRetries)
  exhaustedCount := o.countDocuments (backlogExhaustedFilter maxRetries)
  oldestPendingAt := ((o.ids.filter fun i => backlogPendingFilter maxRetries (o.doc i)).image
    fun i => (o.doc i).createdAt).min

/-- A worker's own id is compared with the recorded owner. -/
@[simp] theorem buildOwnedFilter_worker (w : WorkerId) (e : OutboxEvent) :
    buildOwnedFilter (some w.value) e = true ↔ e.processingOwner = .value w.value := by
  simp [buildOwnedFilter, w.nonempty]

@[simp] theorem renewFilter_iff (w : String) (e : OutboxEvent) :
    renewFilter w e = true ↔
      e.processingOwner = .value w ∧ e.processing = true ∧ e.processed = false := by
  simp [renewFilter, and_assoc]

/-- The keys of a record only grow under a checkpoint. -/
theorem mem_addHandler (key k : String) (e : OutboxEvent) :
    k ∈ (e.addHandler key).processedHandlers ↔ k ∈ e.processedHandlers ∨ k = key := by
  unfold OutboxEvent.addHandler
  by_cases h : key ∈ e.processedHandlers
  · simp only [if_pos h]
    constructor
    · exact Or.inl
    · rintro (hk | rfl)
      · exact hk
      · exact h
  · simp only [if_neg h, List.mem_append, List.mem_singleton]

/-- A pending event can be claimed once its schedule and its claim have passed. -/
theorem claimFilter_eventually (cfg : OutboxConfig) (e : OutboxEvent)
    (h : pendingFilter cfg.maxRetries e = true) (hn : e.nextAttemptAt ≠ .null)
    (hs : e.processingStartedAt ≠ .null) (clock : Int) :
    ∃ d : Nat, claimFilter cfg.maxRetries (clock + d) (clock + d - cfg.staleAfterMs) e = true := by
  have hdue : ∃ m : Int, ∀ now, m ≤ now → dueFilter now e = true := by
    cases hx : e.nextAttemptAt with
    | missing => exact ⟨0, fun _ _ => by simp [dueFilter, hx]⟩
    | null => exact absurd hx hn
    | value a => exact ⟨a, fun now hle => by simp [dueFilter, hx, hle]⟩
  have hfree : ∃ m : Int, ∀ before, m < before → unclaimedFilter before e = true := by
    cases hx : e.processingStartedAt with
    | missing => exact ⟨0, fun _ _ => by simp [unclaimedFilter, hx]⟩
    | null => exact absurd hx hs
    | value a => exact ⟨a, fun before hlt => by simp [unclaimedFilter, hx, hlt]⟩
  obtain ⟨m, hm⟩ := hdue
  obtain ⟨m', hm'⟩ := hfree
  refine ⟨(m - clock).toNat + (m' - clock + cfg.staleAfterMs + 1).toNat, ?_⟩
  simp only [claimFilter, h, Bool.true_and, Bool.and_eq_true]
  have hstale := cfg.staleAfterMs_ge
  exact ⟨hm _ (by push_cast; omega), hm' _ (by push_cast; omega)⟩

end Ascendance.Outbox
