import Ascendance.Core.Number
import Ascendance.Core.Transition
import Ascendance.Models.SecurityAudit.Event
import Mathlib.Data.Prod.Lex

/-!
# Recording audit events

Every instance of the service records one event after the other: it reads the latest stored
event, stores the new one with the hash of that one, and appends a line to a file. Several
instances share the store; the steps of their calls interleave, and each can fail. The database
removes stored events when they reach a certain age.
-/

namespace Ascendance.SecurityAudit

open Ascendance.Core

/-- A stored event, with the input that it was made from. -/
structure StoredEvent where
  id : ℕ
  eventId : String
  occurredAt : ℤ
  previousHash : String
  eventHash : String
  input : RecordSecurityAuditEventInput

/-- What the store sorts by. -/
def StoredEvent.key (event : StoredEvent) : ℤ ×ₗ ℕ := toLex (event.occurredAt, event.id)

/-- `findForArchiveRange({})` -/
def findForArchiveRange (store : List StoredEvent) : List StoredEvent :=
  sortBy StoredEvent.key store

/-- `findLatest()` -/
def findLatest (store : List StoredEvent) : Option StoredEvent :=
  (findForArchiveRange store).getLast?

/-- `latestEvent?.eventHash ?? GENESIS_HASH` -/
def latestHash (store : List StoredEvent) : String :=
  ((findLatest store).map (·.eventHash)).getD GENESIS_HASH

/-- The hash of an event. -/
def hashEvent (platform : Platform) (input : RecordSecurityAuditEventInput) (eventId : String)
    (occurredAt : ℤ) (previousHash : String) : String :=
  (hashOf platform (hashPayload platform input eventId occurredAt previousHash)).getD ""

/-- The file of the day of an event. -/
def auditLogPath (occurredAt : ℤ) : String :=
  "audit-" ++ String.ofList ((toISOString occurredAt).toList.take 10) ++ ".jsonl"

/-- The age in seconds at which the database removes an event, if it does; `raw` is the number
of days that the environment sets. -/
def resolveAuditTtlSeconds (raw : Option JsNumber) : Option ℤ :=
  match raw.getD (.finite 90) with
  | .finite days => if days ≤ 0 then none else some ⌊days * 24 * 60 * 60⌋
  | .nan | .infinity _ => none

/-- How far `recordNow` has come. -/
inductive Phase
  | idle
  | started (input : RecordSecurityAuditEventInput) (occurredAt : ℤ)
  | hashed (input : RecordSecurityAuditEventInput) (occurredAt : ℤ) (previousHash : String)
    (eventId : String)
  | stored (event : StoredEvent)

/-- The stored events, the lines of the files, and the calls of each instance. -/
structure State (ι : Type*) where
  store : List StoredEvent
  /-- The lines that were appended, each with its file. -/
  lines : List (String × String)
  /-- The calls that wait for the write queue of an instance. -/
  queue : ι → List RecordSecurityAuditEventInput
  phase : ι → Phase

/-- The end of `create`. -/
inductive Outcome
  | stored
  | failed
  /-- The event is stored, but the answer is lost. -/
  | unanswered
  deriving DecidableEq, Repr

/-- What can happen: an event is recorded, an instance takes its next step, the database expires an
event. -/
inductive Action (ι : Type*)
  | record (i : ι) (input : RecordSecurityAuditEventInput)
  | start (i : ι) (clock : ℤ)
  /-- `findLatest`, and the id that is drawn if the input has none. -/
  | read (i : ι) (succeeds : Bool) (uuid : String)
  | create (i : ι) (id : ℕ) (outcome : Outcome)
  | appendJsonlEvent (i : ι) (succeeds : Bool)
  /-- The database removes an event, at a reading of its own clock. -/
  | expire (eventId : String) (now : ℤ)

variable {ι : Type*} [DecidableEq ι]

namespace State

/-- Nothing is recorded. -/
def empty : State ι := ⟨[], [], fun _ => [], fun _ => .idle⟩

/-- Put an instance into another phase. -/
def setPhase (s : State ι) (i : ι) (phase : Phase) : State ι :=
  { s with phase := Function.update s.phase i phase }

/-- `create`: the index of event ids is unique, and so are the ids of documents. -/
def create (s : State ι) (i : ι) (event : StoredEvent) (outcome : Outcome) : Option (State ι) :=
  if outcome = .failed then some (s.setPhase i .idle)
  else if event.eventId ∈ s.store.map (·.eventId) ∨ event.id ∈ s.store.map (·.id) then none
  else
    let phase : Phase := if outcome = .stored then .stored event else .idle
    some { s.setPhase i phase with store := s.store ++ [event] }

/-- The index on `occurredAt` with `expireAfterSeconds`; there is none for zero seconds. -/
def expire (ttlSeconds : Option ℤ) (s : State ι) (eventId : String) (now : ℤ) :
    Option (State ι) :=
  match ttlSeconds with
  | some seconds =>
    if seconds ≠ 0 ∧ ∃ event ∈ s.store, event.eventId = eventId ∧
        event.occurredAt + seconds * 1000 < now then
      some { s with store := s.store.filter fun event => event.eventId ≠ eventId }
    else none
  | none => none

/-- The effect of an action, where it can happen. -/
def step (platform : Platform) (ttlSeconds : Option ℤ) (s : State ι) :
    Action ι → Option (State ι)
  | .record i input => some { s with queue := Function.update s.queue i (s.queue i ++ [input]) }
  | .start i clock =>
    match s.phase i, s.queue i with
    | .idle, input :: rest =>
      some { s.setPhase i (.started input (input.occurredAt.getD clock)) with
        queue := Function.update s.queue i rest }
    | _, _ => none
  | .read i succeeds uuid =>
    match s.phase i with
    | .started input occurredAt =>
      if succeeds then
        some (s.setPhase i (.hashed input occurredAt (latestHash s.store)
          (input.eventId.getD uuid)))
      else some (s.setPhase i .idle)
    | _ => none
  | .create i id outcome =>
    match s.phase i with
    | .hashed input occurredAt previousHash eventId =>
      s.create i ⟨id, eventId, occurredAt, previousHash,
        hashEvent platform input eventId occurredAt previousHash, input⟩ outcome
    | _ => none
  | .appendJsonlEvent i succeeds =>
    match s.phase i with
    | .stored event =>
      let line := (lineOf platform event.input event.eventId event.occurredAt event.previousHash
        event.eventHash).getD ""
      some { s.setPhase i .idle with
        lines := if succeeds then s.lines ++ [(auditLogPath event.occurredAt, line)]
          else s.lines }
    | _ => none
  | .expire eventId now => expire ttlSeconds s eventId now

/-- A step stores nothing, or the event that an instance has hashed, or it writes the line of the
event that an instance has stored, or it removes an event. -/
inductive Change (platform : Platform) (s : State ι) (a : Action ι) (s' : State ι) : Prop
  | other (hstore : s'.store = s.store) (hlines : s'.lines = s.lines)
    (hphase : ∀ i event, s'.phase i = .stored event → s.phase i = .stored event)
  | stored {i : ι} {id : ℕ} {outcome : Outcome} {input : RecordSecurityAuditEventInput}
    {occurredAt : ℤ} {previousHash eventId : String} {event : StoredEvent}
    (haction : a = .create i id outcome) (hsuccess : outcome ≠ .failed)
    (hhashed : s.phase i = .hashed input occurredAt previousHash eventId)
    (hevent : event = ⟨id, eventId, occurredAt, previousHash,
      hashEvent platform input eventId occurredAt previousHash, input⟩)
    (hid : eventId ∉ s.store.map (·.eventId)) (hstore : s'.store = s.store ++ [event])
    (hlines : s'.lines = s.lines)
    (hphase : ∀ i event', s'.phase i = .stored event' → event' = event ∨
      s.phase i = .stored event')
  | appended {i : ι} {event : StoredEvent} (hstored : s.phase i = .stored event)
    (hstore : s'.store = s.store)
    (hlines : s'.lines = s.lines ∨ s'.lines = s.lines ++ [(auditLogPath event.occurredAt,
      (lineOf platform event.input event.eventId event.occurredAt event.previousHash
        event.eventHash).getD "")])
    (hphase : ∀ i event, s'.phase i = .stored event → s.phase i = .stored event)
  | expired {eventId : String} {now : ℤ} (haction : a = .expire eventId now)
    (hstore : s'.store = s.store.filter fun event => event.eventId ≠ eventId)
    (hlines : s'.lines = s.lines)
    (hphase : ∀ i event, s'.phase i = .stored event → s.phase i = .stored event)

private theorem phase_setPhase {s : State ι} {i j : ι} {phase : Phase} {event : StoredEvent}
    (h : (s.setPhase i phase).phase j = .stored event) :
    phase = .stored event ∨ s.phase j = .stored event := by
  unfold setPhase at h
  dsimp only at h
  by_cases hij : j = i
  · subst hij
    rw [Function.update_self] at h
    exact .inl h
  · rw [Function.update_of_ne hij] at h
    exact .inr h

/-- An executed action is one of the listed changes. -/
theorem step_cases {platform : Platform} {ttlSeconds : Option ℤ} {s s' : State ι} {a : Action ι}
    (h : step platform ttlSeconds s a = some s') : Change platform s a s' := by
  cases a with
  | record i input =>
    obtain rfl := Option.some.inj h
    exact .other rfl rfl fun _ _ hphase => hphase
  | start i clock =>
    rw [step] at h
    split at h
    · obtain rfl := Option.some.inj h
      exact .other rfl rfl fun _ _ hphase => (phase_setPhase hphase).resolve_left (by simp)
    · cases h
  | read i succeeds uuid =>
    rw [step] at h
    split at h
    · split at h
      · obtain rfl := Option.some.inj h
        exact .other rfl rfl fun _ _ hphase => (phase_setPhase hphase).resolve_left (by simp)
      · obtain rfl := Option.some.inj h
        exact .other rfl rfl fun _ _ hphase => (phase_setPhase hphase).resolve_left (by simp)
    · cases h
  | create i id outcome =>
    rw [step] at h
    split at h
    · next input occurredAt previousHash eventId hhashed =>
      unfold create at h
      split at h
      · obtain rfl := Option.some.inj h
        exact .other rfl rfl fun _ _ hphase => (phase_setPhase hphase).resolve_left (by simp)
      · next hsuccess =>
        split at h
        · cases h
        · next hfresh =>
          obtain rfl := Option.some.inj h
          refine .stored rfl hsuccess hhashed rfl (fun hmem => hfresh (.inl hmem)) rfl rfl
            fun j event' hphase => ?_
          rcases phase_setPhase hphase with hnew | hold
          · split at hnew
            · exact .inl (Phase.stored.inj hnew).symm
            · cases hnew
          · exact .inr hold
    · cases h
  | appendJsonlEvent i succeeds =>
    rw [step] at h
    split at h
    · next event hstored =>
      obtain rfl := Option.some.inj h
      refine .appended hstored rfl ?_
        fun _ _ hphase => (phase_setPhase hphase).resolve_left (by simp)
      dsimp only
      split
      · exact .inr rfl
      · exact .inl rfl
    · cases h
  | expire eventId now =>
    rw [step, expire.eq_def] at h
    split at h
    · split at h
      · obtain rfl := Option.some.inj h
        exact .expired rfl rfl rfl fun _ _ hphase => hphase
      · cases h
    · cases h

end State

end Ascendance.SecurityAudit
