import Ascendance.Core.Document

/-!
# Outbox records

The stored document of one staged event, with the defaults of its schema. Dates
are milliseconds since the epoch. Optional date fields and the owner keep the
difference between a missing field and an explicit null, because the queries of
the repository look at both.
-/

namespace Ascendance.Outbox

open Ascendance.Core

/-- The object id of an outbox record. -/
abbrev EventId := Nat

/-- A worker's random identifier, which is never the empty string. -/
structure WorkerId where
  /-- The identifier written to `processingOwner`. -/
  value : String
  /-- `randomUUID` never returns an empty string. -/
  nonempty : value ≠ ""
  deriving DecidableEq, Repr

/-- The payload of a notification request. -/
structure NotificationPayload where
  receiverId : String
  actionType : String
  actorId : String
  actorUsername : Option String
  actorHandle : Option String
  actorAvatar : Option String
  targetId : Option String
  targetType : Option String
  targetPreview : Option String
  idempotencyKey : Option String
  messagePublicId : Option String
  deriving DecidableEq, Repr

/-- The same request under an idempotency key. -/
def NotificationPayload.withKey (p : NotificationPayload) (key : String) : NotificationPayload :=
  { p with idempotencyKey := some key }

/-- The event object handed to the store: its `payload` property, when it has
one, and the rest of its fields. -/
structure EventPayload where
  /-- The property `payload` of a notification request. -/
  payload : Option NotificationPayload
  /-- All other fields of the event, which the store never reads. -/
  body : String
  deriving DecidableEq, Repr, Inhabited

/-- The stored document of one event. -/
structure OutboxEvent where
  eventType : String
  payload : EventPayload
  traceId : String
  processed : Bool
  error : DocField String
  retries : Nat
  processing : Bool
  processingOwner : DocField String
  processingStartedAt : DocField Int
  nextAttemptAt : DocField Int
  exhaustedAt : DocField Int
  processedHandlers : List String
  createdAt : Int
  processedAt : DocField Int
  deriving DecidableEq, Repr, Inhabited

/-- The event type of notification requests. -/
def NotificationRequested : String := "NotificationRequestedEvent"

/-- A string that is present and not empty. -/
def truthy : Option String → Bool
  | none => false
  | some s => s != ""

/-- Notification requests without an idempotency key get one from the trace id. -/
def preparePayload (eventType : String) (payload : EventPayload) (traceId : String) :
    EventPayload :=
  match payload.payload with
  | none => payload
  | some p =>
    if eventType != NotificationRequested || truthy p.idempotencyKey then payload
    else { payload with payload := some (p.withKey ("notification:" ++ traceId)) }

/-- The document that `saveEvent` creates, with the schema defaults. -/
def newEvent (eventType : String) (payload : EventPayload) (traceId : String)
    (createdAt : Int) : OutboxEvent where
  eventType := eventType
  payload := preparePayload eventType payload traceId
  traceId := traceId
  processed := false
  error := .missing
  retries := 0
  processing := false
  processingOwner := .missing
  processingStartedAt := .missing
  nextAttemptAt := .missing
  exhaustedAt := .missing
  processedHandlers := []
  createdAt := createdAt
  processedAt := .missing

/-- Every stored notification request carries an idempotency key. -/
theorem preparePayload_key (payload : EventPayload) (traceId : String) (p : NotificationPayload)
    (h : (preparePayload NotificationRequested payload traceId).payload = some p) :
    truthy p.idempotencyKey = true := by
  unfold preparePayload at h
  cases hp : payload.payload with
  | none => simp [hp] at h
  | some q =>
    simp only [hp, bne_self_eq_false, Bool.false_or] at h
    by_cases hq : truthy q.idempotencyKey = true
    · rw [if_pos hq, hp] at h
      obtain rfl := Option.some.inj h
      exact hq
    · rw [if_neg hq] at h
      obtain rfl := Option.some.inj h
      simp [truthy, NotificationPayload.withKey]

/-- Preparing a payload twice adds nothing the second time. -/
theorem preparePayload_idem (eventType : String) (payload : EventPayload) (traceId : String) :
    preparePayload eventType (preparePayload eventType payload traceId) traceId =
      preparePayload eventType payload traceId := by
  cases hp : payload.payload with
  | none => simp only [preparePayload, hp]
  | some q =>
    by_cases hq : (eventType != NotificationRequested || truthy q.idempotencyKey) = true
    · have he : preparePayload eventType payload traceId = payload := by
        simp only [preparePayload, hp, if_pos hq]
      rw [he, he]
    · have he : preparePayload eventType payload traceId =
          { payload with payload := some (q.withKey ("notification:" ++ traceId)) } := by
        simp only [preparePayload, hp, if_neg hq]
      rw [he]
      simp [preparePayload, truthy, NotificationPayload.withKey]

end Ascendance.Outbox
