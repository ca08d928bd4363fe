import Ascendance.Core.Text
import Ascendance.Models.Outbox.Worker
import Ascendance.Models.Notifications.Store

/-!
# Handling a notification request

The handler drops requests that are stale and dispatches the command for the
others. The command trims its fields, fills in the actor, stores the
notification, pushes it to the cache and publishes it. Everything it reads of
accounts and conversations is given to the step that reads it.
-/

namespace Ascendance.Notifications

open Ascendance.Core Ascendance.Outbox

/-- The actor of notifications that the system itself sends. -/
def SystemActor.id : String := "system-monitor"

/-- What is read of an account. -/
structure Account where
  id : String
  isBanned : Bool
  username : String
  handle : String
  avatar : String
  deriving DecidableEq, Repr

/-- What is read of a conversation; a participant may have cleared it. -/
structure Conversation where
  id : String
  participants : List String
  hiddenFor : List String
  clearedAt : List (String × Int)
  deriving DecidableEq, Repr

/-- What is read of a message. -/
structure Message where
  conversation : String
  createdAt : Int
  deriving DecidableEq, Repr

/-- What one call of the handler reads. -/
structure Reads where
  receiver : Option Account
  actor : Option Account
  conversation : Option Conversation
  message : Option Message
  /-- The receiver is looking at the conversation. -/
  viewing : Bool
  /-- The actor as the command reads it again; a failed read counts as none. -/
  fallbackActor : Option Account
  /-- The configured avatar of the system. -/
  systemAvatar : String
  timestamp : Int
  deriving DecidableEq, Repr

/-- Receiver and actor exist and are not banned. -/
def Reads.accountsAvailable (r : Reads) (p : NotificationPayload) : Bool :=
  r.receiver.any (!·.isBanned) && (p.actorId == SystemActor.id || r.actor.any (!·.isBanned))

/-- Is the receiver of a message to be notified of it? -/
def isMessageNotificationEligible (r : Reads) (p : NotificationPayload)
    (receiverInternalId : String) : Bool :=
  if p.actionType ≠ "message" then true
  else if p.targetType ≠ some "conversation" ∨ ¬ truthy p.targetId ∨ ¬ truthy p.messagePublicId then
    false
  else match r.conversation, r.message with
    | some conversation, some message =>
      message.conversation == conversation.id &&
        conversation.participants.contains receiverInternalId &&
        !conversation.hiddenFor.contains receiverInternalId &&
        !(conversation.clearedAt.lookup receiverInternalId).any (message.createdAt ≤ ·) &&
        !r.viewing
    | _, _ => false

/-- A name of the actor: the trimmed one of the request, else the one of the account. -/
def actorField (given : Option String) (fallback : Option String) : Option String :=
  if truthy (given.map trim) then given.map trim else fallback.or (given.map trim)

/-- `CreateNotificationCommandHandler.execute` up to the store: the document and
the key under which it is stored once. -/
def createNotification (r : Reads) (p : NotificationPayload) :
    Except String (NotificationData × Option String) :=
  if p.receiverId = "" ∨ p.actionType = "" ∨ p.actorId = "" then
    .error "Missing required notification fields"
  else
    let fallback := if trim p.actorId ≠ SystemActor.id then r.fallbackActor else none
    let actorAvatar := actorField p.actorAvatar (fallback.map (·.avatar))
    .ok ({
      userId := trim p.receiverId
      actionType := p.actionType
      actorId := trim p.actorId
      actorUsername := actorField p.actorUsername (fallback.map (·.username))
      actorHandle := actorField p.actorHandle (fallback.map (·.handle))
      actorAvatar := (nonempty actorAvatar).getD r.systemAvatar
      targetId := p.targetId.map trim
      targetType := p.targetType.map trim
      targetPreview := p.targetPreview.map trim
      isRead := false
      timestamp := r.timestamp }, nonempty (p.idempotencyKey.map trim))

/-- The parts of an event id that are there, joined. -/
def buildRealtimeEventId (parts : List String) : String :=
  String.intercalate ":" (parts.filter (· ≠ ""))

/-- The event id under which a notification is published. -/
def Notification.eventId (n : Notification) : String :=
  buildRealtimeEventId ["new_notification", n.id]

/-- Where a call of the handler stands. -/
inductive CallPhase
  /-- Before the accounts are read. -/
  | handling (event : EventPayload)
  /-- `createOnce` looks for the key. -/
  | finding (data : NotificationData) (idempotencyKey : String)
  /-- `create`, or `createOnce` after it found no document. -/
  | inserting (data : NotificationData) (idempotencyKey : Option String)
  | pushing (n : Notification)
  | publishing (n : Notification)
  | returned
  | failed (message : String)
  deriving DecidableEq, Repr

/-- A call of the handler for one delivered event. -/
structure Call where
  eventId : EventId
  phase : CallPhase
  deriving DecidableEq, Repr

/-- The steps of a call; a step that awaits a store carries how it was answered. -/
inductive CallStep
  | read (r : Reads)
  | readFails (message : String)
  | find (reply : Reply)
  | insert (id : String) (reply : Reply)
  | push (reply : Reply)
  | publish (reply : Reply)
  deriving DecidableEq, Repr

/-- `NotificationRequestedHandler.handle` up to the command's first write. -/
def afterReads (r : Reads) (event : EventPayload) : CallPhase :=
  match event.payload, r.receiver with
  | none, _ => .failed "Cannot read properties of undefined (reading 'receiverId')"
  | some _, none => .returned
  | some p, some receiver =>
    if ¬ r.accountsAvailable p ∨ ¬ isMessageNotificationEligible r p receiver.id then .returned
    else match createNotification r p with
      | .error message => .failed message
      | .ok (data, none) => .inserting data none
      | .ok (data, some idempotencyKey) => .finding data idempotencyKey

/-- The key under which the notification of an event is stored once. -/
def storeKey (event : EventPayload) : Option String :=
  event.payload.bind fun p => nonempty (p.idempotencyKey.map trim)

/-- What a call knows of the event it handles; `Obtained` holds of the notifications that
deliveries of the event stored or found. -/
def CallPhase.Knows (Obtained : Notification → Prop) (event : EventPayload) : CallPhase → Prop
  | .handling e => e = event
  | .finding _ key => some key = storeKey event
  | .inserting _ key => key = storeKey event
  | .pushing n | .publishing n => Obtained n
  | .returned | .failed _ => True

/-- What is known of an event stays known when more notifications are obtained. -/
theorem CallPhase.Knows.mono {phase : CallPhase} {A B : Notification → Prop} {event : EventPayload}
    (h : phase.Knows A event) (hsub : ∀ n, A n → B n) : phase.Knows B event := by
  cases phase with
  | pushing n | publishing n => exact hsub n h
  | handling _ | finding _ _ | inserting _ _ | returned | failed _ => exact h

/-- The command passes the trimmed key on. -/
theorem createNotification_key {r : Reads} {p : NotificationPayload} {data : NotificationData}
    {key : Option String} (h : createNotification r p = .ok (data, key)) :
    key = nonempty (p.idempotencyKey.map trim) := by
  unfold createNotification at h
  split at h
  · cases h
  · exact (Prod.mk.inj (Except.ok.inj h)).2.symm

/-- After its reads the command knows the key of the event. -/
theorem afterReads_knows (r : Reads) (event : EventPayload) (Obtained : Notification → Prop) :
    (afterReads r event).Knows Obtained event := by
  unfold afterReads
  split
  · trivial
  · trivial
  · next p receiver hp _ =>
    split
    · trivial
    · split
      · trivial
      all_goals
        next hc =>
        unfold CallPhase.Knows storeKey
        rw [hp]
        exact createNotification_key hc

end Ascendance.Notifications
