import Ascendance.Models.Notifications.Handler
import Ascendance.Models.Outbox.Payload

/-!
# Notification requests on the outbox

The workers of the outbox call the handler; between the moment a worker enters
it and the moment it returns or throws, the call takes its own steps on the
notification store. Their owners mark notifications as read, and notifications
are deleted together with the content, the account or the conversation they are
about. Three lists record which event
stored which notification, which one its deliveries stored or found, and under
which id it was published; no step reads them.
-/

namespace Ascendance.Notifications

open Ascendance.Core Ascendance.Outbox

/-- The key under which the bus checkpoints the handler. -/
def handlerKey : String := "NotificationRequestedHandler"

/-- The outbox, the stored notifications, the running calls of the handler and what they have
done. -/
structure System where
  outbox : World
  notifications : NotificationStore
  call : WorkerId → Option Call
  stored : List (EventId × String)
  obtained : List (EventId × Notification)
  published : List (EventId × String)

/-- A step of the outbox, a step of the call that a worker is in, or what happens to notifications
besides: their owner reads some, or some are deleted. -/
inductive Action where
  | outbox (act : Outbox.Action)
  | handler (w : WorkerId) (x : CallStep)
  | markAsRead (ids : List String)
  | deleteMany (ids : List String)

namespace System

/-- No events and no notifications. -/
def initial (clock : Int) : System := ⟨.initial clock, .empty, fun _ => none, [], [], []⟩

/-- Move the call of a worker to a new phase. -/
def setPhase (s : System) (w : WorkerId) (c : Call) (phase : CallPhase) : System :=
  { s with call := Function.update s.call w (some { c with phase := phase }) }

/-- The answer of an effect: `done` after it was applied, an error otherwise. -/
def answer (s : System) (w : WorkerId) (c : Call) (applied : System) (done : CallPhase) :
    Reply → System
  | .answered => applied.setPhase w c done
  | .lost message => applied.setPhase w c (.failed message)
  | .refused message => s.setPhase w c (.failed message)

/-- One step of a call. -/
def callStep (s : System) (w : WorkerId) (c : Call) : CallStep → Option System
  | .read r =>
    match c.phase with
    | .handling event => some (s.setPhase w c (afterReads r event))
    | _ => none
  | .readFails message =>
    match c.phase with
    | .handling _ => some (s.setPhase w c (.failed message))
    | _ => none
  | .find reply =>
    match c.phase with
    | .finding data key =>
      match s.notifications.findByKey key with
      | some n => some (s.answer w c s (.pushing n) reply)
      | none => some (s.answer w c s (.inserting data (some key)) reply)
    | _ => none
  | .insert id reply =>
    match c.phase with
    | .inserting data key =>
      let n : Notification := { data with id := id, idempotencyKey := key }
      match s.notifications.insert n with
      | some notifications =>
        some (s.answer w c
          { s with notifications := notifications, stored := s.stored ++ [(c.eventId, id)] }
          (.pushing n) reply)
      | none =>
        -- the server retries an upsert that lost the race, or reports the duplicate
        match key with
        | some k => some (s.answer w c s (.finding data k) reply)
        | none => some (s.setPhase w c (.failed "E11000 duplicate key error"))
    | _ => none
  | .push reply =>
    match c.phase with
    | .pushing n => some (s.answer w c s (.publishing n) reply)
    | _ => none
  | .publish reply =>
    match c.phase with
    | .publishing n =>
      some (s.answer w c { s with published := s.published ++ [(c.eventId, n.eventId)] }
        .returned reply)
    | _ => none

/-- The notification that a step of a call stores, or finds and is told of. -/
def obtains (s : System) (c : Call) : CallStep → Option Notification
  | .find .answered =>
    match c.phase with
    | .finding _ key => s.notifications.findByKey key
    | _ => none
  | .insert _ (.refused _) => none
  | .insert id _ =>
    match c.phase with
    | .inserting data key =>
      let n : Notification := { data with id := id, idempotencyKey := key }
      if s.notifications.Accepts n then some n else none
    | _ => none
  | _ => none

/-- Record what a delivery of an event has obtained. -/
def record (s : System) (i : EventId) (n : Option Notification) : System :=
  { s with obtained := s.obtained ++ (n.map fun n => (i, n)).toList }

/-- A worker leaves the handler only as the call ended. -/
def Admits (s : System) : Outbox.Action → Bool
  | .attempt w .handlerReturns => (s.call w).all (·.phase = .returned)
  | .attempt w (.handlerThrows message) => (s.call w).all (·.phase = .failed message)
  | _ => true

/-- The call that a worker enters when its attempt runs the handler. -/
def entered : Worker → Option Call
  | .busy a =>
    match a.phase with
    | .running h _ =>
      if h.key = handlerKey then some ⟨a.eventId, .handling a.record.payload⟩ else none
    | _ => none
  | _ => none

/-- The calls after a step of the outbox. -/
def callsAfter (s : System) (o : World) : Outbox.Action → WorkerId → Option Call
  | .attempt w .nextHandler => Function.update s.call w (entered (o.worker w))
  | .attempt w .handlerReturns | .attempt w (.handlerThrows _) | .crash w =>
    Function.update s.call w none
  | _ => s.call

/-- The effect of an action, where it can happen. -/
def step (cfg : OutboxConfig) (bus : EventBus) (s : System) : Action → Option System
  | .outbox act =>
    if s.Admits act then
      (s.outbox.step cfg bus act).map fun o => { s with outbox := o, call := s.callsAfter o act }
    else none
  | .handler w x => (s.call w).bind fun c =>
    (s.callStep w c x).map fun t => t.record c.eventId (s.obtains c x)
  | .markAsRead ids => some { s with notifications := s.notifications.markAsRead ids }
  | .deleteMany ids => some { s with notifications := s.notifications.deleteMany ids }

end System

/-- What deliveries of an event have obtained. -/
def Obtained (s : System) (i : EventId) (n : Notification) : Prop := (i, n) ∈ s.obtained

/-- A call moves on, finds a notification under its key, stores one, or publishes one. -/
inductive Moved (s : System) (w : WorkerId) (c : Call) (x : CallStep) : System → Prop
  | phase (phase : CallPhase)
      (hk : ∀ event, c.phase.Knows (Obtained s c.eventId) event →
        phase.Knows (Obtained s c.eventId) event) : Moved s w c x (s.setPhase w c phase)
  | found {n : Notification} (ho : s.obtains c x = some n) (hn : n ∈ s.notifications.docs)
      (hk : ∀ event, c.phase.Knows (Obtained s c.eventId) event →
        n.idempotencyKey = storeKey event) :
      Moved s w c x ((s.record c.eventId (some n)).setPhase w c (.pushing n))
  | stored {n : Notification} {notifications : NotificationStore} {phase : CallPhase}
      (ho : s.obtains c x = some n) (hn : s.notifications.insert n = some notifications)
      (hk : ∀ event, c.phase.Knows (Obtained s c.eventId) event →
        n.idempotencyKey = storeKey event)
      (hphase : phase = .pushing n ∨ ∃ message, phase = .failed message) :
      Moved s w c x (({ s with
        notifications := notifications
        stored := s.stored ++ [(c.eventId, n.id)] }.record c.eventId (some n)).setPhase w c phase)
  | published {n : Notification} {phase : CallPhase} (hp : c.phase = .publishing n)
      (hphase : phase = .returned ∨ ∃ message, phase = .failed message) :
      Moved s w c x ({ s with published := s.published ++ [(c.eventId, n.eventId)] }.setPhase w c
        phase)

section Calls

variable {cfg : OutboxConfig} {bus : EventBus} {s t : System} {w : WorkerId} {c : Call}

private theorem record_none (s : System) (i : EventId) : s.record i none = s := by
  simp [System.record]

/-- An effect that changes nothing is answered by a move. -/
theorem Moved.answer {x : CallStep} {done : CallPhase}
    (hk : ∀ event, c.phase.Knows (Obtained s c.eventId) event →
      done.Knows (Obtained s c.eventId) event) (reply : Reply) :
    Moved s w c x (s.answer w c s done reply) := by
  cases reply with
  | answered => exact .phase done hk
  | lost message | refused message => exact .phase (.failed message) fun _ _ => trivial

/-- The lookup of a key. -/
theorem find_moved {reply : Reply} (h : s.callStep w c (.find reply) = some t) :
    Moved s w c (.find reply) (t.record c.eventId (s.obtains c (.find reply))) := by
  obtain ⟨i, phase⟩ := c
  cases phase with
  | finding data key =>
    simp only [System.callStep] at h
    split at h
    · next n hn =>
      obtain rfl := Option.some.inj h
      cases reply with
      | answered =>
        have ho : s.obtains ⟨i, .finding data key⟩ (.find .answered) = some n := hn
        obtain ⟨hdoc, hkey⟩ := NotificationStore.findByKey_some hn
        rw [ho]
        exact .found ho hdoc fun event hk => hkey.trans hk
      | lost message | refused message =>
        rw [show s.obtains _ _ = none from rfl, record_none]
        exact .phase (.failed message) fun _ _ => trivial
    · next hn =>
      obtain rfl := Option.some.inj h
      have ho : s.obtains ⟨i, .finding data key⟩ (.find reply) = none := by
        cases reply with
        | answered => exact hn
        | lost message | refused message => rfl
      rw [ho, record_none]
      refine Moved.answer (fun _ hk => ?_) reply
      exact hk
  | _ => cases h

/-- The insertion of a notification. -/
theorem insert_moved {id : String} {reply : Reply}
    (h : s.callStep w c (.insert id reply) = some t) :
    Moved s w c (.insert id reply) (t.record c.eventId (s.obtains c (.insert id reply))) := by
  obtain ⟨i, phase⟩ := c
  cases phase with
  | inserting data key =>
    simp only [System.callStep] at h
    split at h
    · next notifications hn =>
      obtain rfl := Option.some.inj h
      have haccepts := NotificationStore.insert_accepts hn
      cases reply with
      | answered =>
        have ho : s.obtains ⟨i, .inserting data key⟩ (.insert id .answered) =
            some { data with id := id, idempotencyKey := key } := if_pos haccepts
        rw [ho]
        exact .stored ho hn (fun _ hk => hk) (.inl rfl)
      | lost message =>
        have ho : s.obtains ⟨i, .inserting data key⟩ (.insert id (.lost message)) =
            some { data with id := id, idempotencyKey := key } := if_pos haccepts
        rw [ho]
        exact .stored ho hn (fun _ hk => hk) (.inr ⟨message, rfl⟩)
      | refused message =>
        rw [show s.obtains _ _ = none from rfl, record_none]
        exact .phase (.failed message) fun _ _ => trivial
    · next hn =>
      have hrejects : ¬ s.notifications.Accepts { data with id := id, idempotencyKey := key } := by
        intro haccepts
        rw [NotificationStore.insert, dif_pos haccepts] at hn
        cases hn
      have ho : s.obtains ⟨i, .inserting data key⟩ (.insert id reply) = none := by
        cases reply with
        | answered | lost message => exact if_neg hrejects
        | refused message => rfl
      rw [ho, record_none]
      split at h
      · next k _ =>
        obtain rfl := Option.some.inj h
        refine Moved.answer (fun _ hk => ?_) reply
        exact hk
      · obtain rfl := Option.some.inj h
        exact .phase (.failed _) fun _ _ => trivial
  | _ => cases h

/-- A step of a call is one of the moves. -/
theorem handler_cases {x : CallStep} (h : s.step cfg bus (.handler w x) = some t) :
    ∃ c, s.call w = some c ∧ Moved s w c x t := by
  obtain ⟨c, hc, h⟩ := Option.bind_eq_some_iff.mp h
  obtain ⟨u, hu, rfl⟩ := Option.map_eq_some_iff.mp h
  refine ⟨c, hc, ?_⟩
  obtain ⟨i, phase⟩ := c
  cases x with
  | find reply => exact find_moved hu
  | insert id reply => exact insert_moved hu
  | read r =>
    rw [show s.obtains _ _ = none from rfl, record_none]
    cases phase with
    | handling event =>
      obtain rfl := Option.some.inj hu
      refine .phase _ fun event' hk => ?_
      obtain rfl : event = event' := hk
      exact afterReads_knows r event _
    | _ => cases hu
  | readFails message =>
    rw [show s.obtains _ _ = none from rfl, record_none]
    cases phase with
    | handling event =>
      obtain rfl := Option.some.inj hu
      exact .phase (.failed message) fun _ _ => trivial
    | _ => cases hu
  | push reply =>
    rw [show s.obtains _ _ = none from rfl, record_none]
    cases phase with
    | pushing n =>
      obtain rfl := Option.some.inj hu
      refine Moved.answer (fun _ hk => ?_) reply
      exact hk
    | _ => cases hu
  | publish reply =>
    rw [show s.obtains _ _ = none from rfl, record_none]
    cases phase with
    | publishing n =>
      obtain rfl := Option.some.inj hu
      cases reply with
      | answered => exact .published rfl (.inl rfl)
      | lost message => exact .published rfl (.inr ⟨message, rfl⟩)
      | refused message => exact .phase (.failed message) fun _ _ => trivial
    | _ => cases hu

/-- A call leaves the outbox alone. -/
theorem Moved.outbox_eq {x : CallStep} (h : Moved s w c x t) : t.outbox = s.outbox := by
  cases h <;> rfl

end Calls

/-- A call knows its event; what deliveries obtained has the key of the event, and only that was
stored and published. -/
structure Inv (cfg : OutboxConfig) (s : System) : Prop where
  outbox : Outbox.Inv cfg s.outbox
  faithful : Faithful s.outbox
  calls : ∀ w c, s.call w = some c → c.eventId ∈ s.outbox.outbox.ids ∧
    c.phase.Knows (Obtained s c.eventId) (s.outbox.outbox.doc c.eventId).payload
  obtained : ∀ i n, Obtained s i n → i ∈ s.outbox.outbox.ids ∧
    n.idempotencyKey = storeKey (s.outbox.outbox.doc i).payload
  stored : ∀ i id, (i, id) ∈ s.stored → ∃ n, Obtained s i n ∧ n.id = id
  published : ∀ i e, (i, e) ∈ s.published → ∃ n, Obtained s i n ∧ n.eventId = e

section Invariant

variable {cfg : OutboxConfig} {bus : EventBus} {s t : System}

/-- A call after a step of the outbox was there before, or the worker has just entered it. -/
theorem callsAfter_cases {o : World} {act : Outbox.Action} {w : WorkerId} {c : Call}
    (h : s.callsAfter o act w = some c) :
    s.call w = some c ∨ System.entered (o.worker w) = some c := by
  have hupdate : ∀ (v : WorkerId) (d : Option Call), Function.update s.call v d w = some c →
      s.call w = some c ∨ (w = v ∧ d = some c) := by
    intro v d hd
    by_cases hw : w = v
    · subst hw
      exact .inr ⟨rfl, by simpa using hd⟩
    · exact .inl (by simpa [hw] using hd)
  unfold System.callsAfter at h
  split at h
  · rcases hupdate _ _ h with h | ⟨rfl, h⟩
    · exact .inl h
    · exact .inr h
  · exact .inl ((hupdate _ _ h).resolve_right nofun)
  · exact .inl ((hupdate _ _ h).resolve_right nofun)
  · exact .inl ((hupdate _ _ h).resolve_right nofun)
  · exact .inl h

/-- A step of the outbox keeps the invariant. -/
theorem Inv.outboxStep (hi : Inv cfg s) {act : Outbox.Action}
    (hs : s.step cfg bus (.outbox act) = some t) : Inv cfg t := by
  simp only [System.step] at hs
  split at hs
  · obtain ⟨o, ho, rfl⟩ := Option.map_eq_some_iff.mp hs
    have hstep := step_cases ho
    have hkeep : ∀ i ∈ s.outbox.outbox.ids, i ∈ o.outbox.ids ∧
        (o.outbox.doc i).payload = (s.outbox.outbox.doc i).payload :=
      fun i hmem => hstep.payload hi.outbox hmem
    have hinv := hstep.inv hi.outbox
    have hfaithful := hstep.faithful hi.outbox hi.faithful
    have hold : ∀ w c, s.call w = some c → c.eventId ∈ o.outbox.ids ∧
        c.phase.Knows (Obtained s c.eventId) (o.outbox.doc c.eventId).payload := by
      intro w c hc
      obtain ⟨hmem, hk⟩ := hi.calls w c hc
      obtain ⟨hmem', hp⟩ := hkeep _ hmem
      rw [hp]
      exact ⟨hmem', hk⟩
    refine ⟨hinv, hfaithful, ?_, ?_, hi.stored, hi.published⟩
    · intro w c hc
      rcases callsAfter_cases hc with hc | hc
      · exact hold w c hc
      · -- a worker that has just entered the handler carries the stored payload
        unfold System.entered at hc
        split at hc
        · next a hb =>
          split at hc
          · split at hc
            · obtain rfl := Option.some.inj hc
              exact ⟨hinv.stored w a hb, hfaithful w a hb⟩
            · cases hc
          · cases hc
        · cases hc
    · intro i n hn
      obtain ⟨hmem, hkey⟩ := hi.obtained i n hn
      obtain ⟨hmem', hp⟩ := hkeep i hmem
      exact ⟨hmem', hp ▸ hkey⟩
  · cases hs

/-- Moving a call to a phase that knows its event keeps the invariant. -/
theorem Inv.setPhase (hi : Inv cfg s) {w : WorkerId} {c : Call}
    (hmem : c.eventId ∈ s.outbox.outbox.ids) {phase : CallPhase}
    (hk : phase.Knows (Obtained s c.eventId) (s.outbox.outbox.doc c.eventId).payload) :
    Inv cfg (s.setPhase w c phase) := by
  refine ⟨hi.outbox, hi.faithful, ?_, hi.obtained, hi.stored, hi.published⟩
  intro v d hd
  by_cases hv : v = w
  · subst hv
    obtain rfl : { c with phase := phase } = d := by simpa [System.setPhase] using hd
    exact ⟨hmem, hk⟩
  · exact hi.calls v d (by simpa [System.setPhase, hv] using hd)

/-- What was obtained after a step was obtained before or by the step. -/
theorem obtained_record {i j : EventId} {n m : Notification} :
    Obtained (s.record i (some n)) j m ↔ Obtained s j m ∨ (j = i ∧ m = n) := by
  simp [Obtained, System.record]

/-- Recording a notification with the key of its event keeps the invariant. -/
theorem Inv.record (hi : Inv cfg s) {i : EventId} (hmem : i ∈ s.outbox.outbox.ids)
    {n : Notification} (hkey : n.idempotencyKey = storeKey (s.outbox.outbox.doc i).payload) :
    Inv cfg (s.record i (some n)) := by
  refine ⟨hi.outbox, hi.faithful, ?_, ?_, ?_, ?_⟩
  · intro w c hc
    obtain ⟨hcm, hk⟩ := hi.calls w c hc
    exact ⟨hcm, hk.mono fun m hm => obtained_record.mpr (.inl hm)⟩
  · intro j m hm
    rcases obtained_record.mp hm with hm | ⟨rfl, rfl⟩
    · exact hi.obtained j m hm
    · exact ⟨hmem, hkey⟩
  · intro j id hj
    obtain ⟨m, hm, hid⟩ := hi.stored j id hj
    exact ⟨m, obtained_record.mpr (.inl hm), hid⟩
  · intro j e hj
    obtain ⟨m, hm, he⟩ := hi.published j e hj
    exact ⟨m, obtained_record.mpr (.inl hm), he⟩

/-- A call keeps the invariant. -/
theorem Inv.moved (hi : Inv cfg s) {w : WorkerId} {c : Call} {x : CallStep}
    (hc : s.call w = some c) (h : Moved s w c x t) : Inv cfg t := by
  obtain ⟨hmem, hk⟩ := hi.calls w c hc
  cases h with
  | phase phase hphase => exact hi.setPhase hmem (hphase _ hk)
  | found ho hn hkey =>
    exact (hi.record hmem (hkey _ hk)).setPhase hmem (obtained_record.mpr (.inr ⟨rfl, rfl⟩))
  | @stored n notifications phase ho hn hkey hphase =>
    have hr := hi.record hmem (hkey _ hk)
    have hstored : Inv cfg ({ s with
        notifications := notifications
        stored := s.stored ++ [(c.eventId, n.id)] }.record c.eventId (some n)) := by
      refine ⟨hr.outbox, hr.faithful, hr.calls, hr.obtained, fun j id hj => ?_, hr.published⟩
      rcases List.mem_append.mp hj with hj | hj
      · exact hr.stored j id hj
      · obtain ⟨rfl, rfl⟩ : j = c.eventId ∧ id = n.id := by simpa using hj
        exact ⟨n, obtained_record.mpr (.inr ⟨rfl, rfl⟩), rfl⟩
    refine hstored.setPhase hmem ?_
    rcases hphase with rfl | ⟨message, rfl⟩
    · exact obtained_record.mpr (.inr ⟨rfl, rfl⟩)
    · trivial
  | @published n phase hp hphase =>
    rw [hp] at hk
    have hpublished : Inv cfg { s with published := s.published ++ [(c.eventId, n.eventId)] } := by
      refine ⟨hi.outbox, hi.faithful, hi.calls, hi.obtained, hi.stored, fun j e hj => ?_⟩
      rcases List.mem_append.mp hj with hj | hj
      · exact hi.published j e hj
      · obtain ⟨rfl, rfl⟩ : j = c.eventId ∧ e = n.eventId := by simpa using hj
        exact ⟨n, hk, rfl⟩
    refine hpublished.setPhase hmem ?_
    rcases hphase with rfl | ⟨message, rfl⟩ <;> trivial

/-- Every action keeps the invariant. -/
theorem Inv.step (hi : Inv cfg s) {a : Action} (hs : s.step cfg bus a = some t) : Inv cfg t := by
  cases a with
  | outbox act => exact hi.outboxStep hs
  | handler w x =>
    obtain ⟨c, hc, hmoved⟩ := handler_cases hs
    exact hi.moved hc hmoved
  | markAsRead ids | deleteMany ids =>
    obtain rfl := Option.some.inj hs
    exact ⟨hi.outbox, hi.faithful, hi.calls, hi.obtained, hi.stored, hi.published⟩

end Invariant

end Ascendance.Notifications
