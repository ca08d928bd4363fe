import Ascendance.Models.Notifications.Delivery
import Ascendance.Models.Outbox.Delivery

/-!
# One notification for each request

Staging gives every request a key, and the key survives trimming. While it is
stored, the unique index keeps what any number of deliveries store down to one
document, whose id is the event id of every publication. Once it has been
deleted, a delivery that comes after stores another one.
-/

namespace Ascendance.Notifications

open Ascendance.Core Ascendance.Outbox

/-- A request as the commands build it: message requests carry a key of their own,
the others carry none. -/
def Requested (payload : EventPayload) : Prop :=
  ∃ p, payload.payload = some p ∧ (p.idempotencyKey = none ∨
    ∃ messagePublicId recipientId,
      p.idempotencyKey = some ("message:" ++ messagePublicId ++ ":" ++ recipientId))

/-- A staged request has a key that is not blank. -/
theorem storeKey_requested {payload : EventPayload} (h : Requested payload) (traceId : String) :
    ∃ key, storeKey (preparePayload NotificationRequested payload traceId) = some key := by
  have hstart : ∀ (given : String) (c : Char) (rest start : String), given = start ++ rest →
      c ∈ start.toList → isSpace c = false → nonempty (some (trim given)) = some (trim given) := by
    rintro given c rest start rfl hc hs
    simp [nonempty, trim_append_ne hc hs rest]
  obtain ⟨p, hp, hkey⟩ := h
  rcases hkey with hkey | ⟨messagePublicId, recipientId, hkey⟩
  · refine ⟨trim ("notification:" ++ traceId), ?_⟩
    have hprepared : preparePayload NotificationRequested payload traceId =
        { payload with payload := some (p.withKey ("notification:" ++ traceId)) } := by
      simp [preparePayload, hp, hkey, truthy]
    rw [hprepared]
    unfold storeKey
    rw [Option.bind_some]
    exact hstart _ 'n' traceId "notification:" rfl (by decide) (by decide)
  · have htext : "message:" ++ messagePublicId ++ ":" ++ recipientId =
        "message:" ++ (messagePublicId ++ ":" ++ recipientId) := by
      simp only [String.append_assoc]
    refine ⟨trim ("message:" ++ messagePublicId ++ ":" ++ recipientId), ?_⟩
    have hprepared : preparePayload NotificationRequested payload traceId = payload := by
      have htruthy : truthy p.idempotencyKey = true := by
        rw [hkey, htext]
        simp [truthy]
      simp [preparePayload, hp, htruthy]
    rw [hprepared]
    unfold storeKey
    rw [hp, Option.bind_some, hkey]
    exact hstart _ 'm' (messagePublicId ++ ":" ++ recipientId) "message:" htext (by decide)
      (by decide)

section Runs

variable {cfg : OutboxConfig} {bus : EventBus} {s t : System} {as : List Action}

/-- Nothing that deliveries of an event have obtained was deleted when another delivery of the
event obtains a notification. -/
def Standing (s : System) : Action → Prop
  | .handler w x => ∀ c m, s.call w = some c → s.obtains c x = some m →
      ∀ n, Obtained s c.eventId n → s.notifications.Holds n
  | .outbox _ | .markAsRead _ | .deleteMany _ => True

/-- The invariant holds before anything has happened. -/
theorem initial_inv (clock : Int) : Inv cfg (System.initial clock) where
  outbox := Outbox.initial_inv clock
  faithful := by
    intro w a hb
    cases hb
  calls := by
    intro w c hc
    cases hc
  obtained := by
    intro i n h
    cases h
  stored := by
    intro i id h
    cases h
  published := by
    intro i e h
    cases h

/-- The outbox either takes a step of its own or stays as it is. -/
theorem step_outbox {a : Action} (hs : s.step cfg bus a = some t) :
    (∃ act, a = .outbox act ∧ s.outbox.step cfg bus act = some t.outbox) ∨
      ((∀ act, a ≠ .outbox act) ∧ t.outbox = s.outbox) := by
  cases a with
  | outbox act =>
    simp only [System.step] at hs
    split at hs
    · obtain ⟨o, ho, rfl⟩ := Option.map_eq_some_iff.mp hs
      exact .inl ⟨act, rfl, ho⟩
    · cases hs
  | handler w x =>
    obtain ⟨c, -, hmoved⟩ := handler_cases hs
    exact .inr ⟨fun act h => (by cases h), hmoved.outbox_eq⟩
  | markAsRead ids | deleteMany ids =>
    obtain rfl := Option.some.inj hs
    exact .inr ⟨fun act h => (by cases h), rfl⟩

/-- A staged event keeps the payload it was staged with. -/
theorem staged_payload {clock : Int}
    (hrun : Run (Graph fun s a => System.step cfg bus s a) (.initial clock) as s) {i : EventId}
    {eventType traceId : String} {payload : EventPayload} {createdAt : Int}
    (h : .outbox (.saveEvent i eventType payload traceId createdAt) ∈ as) :
    i ∈ s.outbox.outbox.ids ∧
      (s.outbox.outbox.doc i).payload = preparePayload eventType payload traceId := by
  induction hrun with
  | nil => cases h
  | @snoc t u as a hrun hlast ih =>
    have hi : Inv cfg t :=
      hrun.invariant (fun _ _ _ hi hs => Inv.step hi hs) (initial_inv clock)
    rcases List.mem_append.mp h with h | h
    · obtain ⟨hmem, hp⟩ := ih h
      rcases step_outbox hlast with ⟨act, -, ho⟩ | ⟨-, ho⟩
      · obtain ⟨hmem', hp'⟩ := (step_cases ho).payload hi.outbox hmem
        exact ⟨hmem', hp'.trans hp⟩
      · rw [ho]
        exact ⟨hmem, hp⟩
    · obtain rfl := List.mem_singleton.mp h
      rcases step_outbox hlast with ⟨act, he, ho⟩ | ⟨hne, -⟩
      · obtain rfl := Action.outbox.inj he
        simp only [Outbox.World.step] at ho
        split at ho
        · obtain ho := Option.some.inj ho
          rw [← ho]
          simp [saveEvent, Collection.insertOne, newEvent]
        · cases ho
      · exact absurd rfl (hne _)

/-- Deliveries of an event with a key have obtained one notification, and stored it once. -/
def Single (s : System) : Prop :=
  ∀ i key, storeKey (s.outbox.outbox.doc i).payload = some key →
    (∀ n m, Obtained s i n → Obtained s i m → n.id = m.id) ∧ (s.stored.filter (·.1 = i)).length ≤ 1

/-- An event that has obtained nothing has stored nothing. -/
theorem Inv.stored_nil (hi : Inv cfg s) {i : EventId} (h : ∀ n, ¬ Obtained s i n) :
    s.stored.filter (·.1 = i) = [] := by
  refine List.filter_eq_nil_iff.mpr ?_
  rintro ⟨j, id⟩ hmem hj
  obtain rfl : j = i := of_decide_eq_true hj
  obtain ⟨n, hn, -⟩ := hi.stored j id hmem
  exact h n hn

/-- The notification that a step obtains, if it agrees with those that its event has obtained
before. -/
theorem Single.record (hs : Single s) {i : EventId} {n : Notification}
    (hsame : ∀ m, Obtained s i m → m.id = n.id) : Single (s.record i (some n)) := by
  intro j key hkey
  obtain ⟨hone, hcount⟩ := hs j key hkey
  refine ⟨fun a b ha hb => ?_, hcount⟩
  rcases obtained_record.mp ha with hold | ⟨rfl, rfl⟩
  · rcases obtained_record.mp hb with hold' | ⟨rfl, rfl⟩
    · exact hone a b hold hold'
    · exact hsame a hold
  · rcases obtained_record.mp hb with hold' | ⟨-, rfl⟩
    · exact (hsame b hold').symm
    · rfl

/-- A call keeps what was obtained for each event down to one notification. -/
theorem Single.moved (hi : Inv cfg s) (hs : Single s) {w : WorkerId} {c : Call} {x : CallStep}
    (hc : s.call w = some c) (hst : Standing s (.handler w x)) (h : Moved s w c x t) :
    Single t := by
  obtain ⟨-, hk⟩ := hi.calls w c hc
  cases h with
  | phase | published => exact hs
  | @found n ho hn hkey =>
    have hkey := hkey _ hk
    intro i key hi'
    by_cases hic : i = c.eventId
    · subst hic
      refine (hs.record fun m hm => ?_) c.eventId key hi'
      -- the key belongs to one of the stored documents
      obtain ⟨d, hd, hid, hdkey⟩ := hst c n hc ho m hm
      have hmkey := hdkey.trans (hi.obtained _ m hm).2
      obtain rfl : d = n := s.notifications.eq_of_key hd hn (hmkey.trans hi') (hkey.trans hi')
      exact hid.symm
    · obtain ⟨hone, hcount⟩ := hs i key hi'
      refine ⟨fun a b ha hb => hone a b ?_ ?_, hcount⟩
      · exact (obtained_record.mp ha).resolve_right fun h => hic h.1
      · exact (obtained_record.mp hb).resolve_right fun h => hic h.1
  | @stored n notifications phase ho hn hkey hphase =>
    have hkey := hkey _ hk
    intro i key hi'
    by_cases hic : i = c.eventId
    · subst hic
      -- a document with the key would have been in the way
      have hnone : ∀ m, ¬ Obtained s c.eventId m := by
        intro m hm
        obtain ⟨d, hd, -, hdkey⟩ := hst c n hc ho m hm
        have hmkey := hdkey.trans (hi.obtained _ m hm).2
        exact (NotificationStore.insert_accepts hn).key_ne (hkey.trans hi') hd (hmkey.trans hi')
      refine ⟨((hs.record fun m hm => absurd hm (hnone m)) c.eventId key hi').1, ?_⟩
      change ((s.stored ++ [(c.eventId, n.id)]).filter (·.1 = c.eventId)).length ≤ 1
      rw [List.filter_append, hi.stored_nil hnone]
      simp
    · obtain ⟨hone, hcount⟩ := hs i key hi'
      refine ⟨fun a b ha hb => hone a b ?_ ?_, ?_⟩
      · exact (obtained_record.mp ha).resolve_right fun h => hic h.1
      · exact (obtained_record.mp hb).resolve_right fun h => hic h.1
      · change ((s.stored ++ [(c.eventId, n.id)]).filter (·.1 = i)).length ≤ 1
        rw [List.filter_append, List.filter_singleton, decide_eq_false (Ne.symm hic)]
        simpa using hcount

/-- A step of the outbox leaves the keys of the events that have obtained something. -/
theorem Single.outboxStep (hi : Inv cfg s) (hs : Single s) {act : Outbox.Action}
    (h : s.step cfg bus (.outbox act) = some t) : Single t := by
  simp only [System.step] at h
  split at h
  · obtain ⟨o, ho, rfl⟩ := Option.map_eq_some_iff.mp h
    intro i key hkey
    by_cases hany : ∃ n, Obtained s i n
    · obtain ⟨n, hn⟩ := hany
      have hp := ((step_cases ho).payload hi.outbox (hi.obtained i n hn).1).2
      change storeKey (o.outbox.doc i).payload = some key at hkey
      rw [hp] at hkey
      exact hs i key hkey
    · have hnone : ∀ n, ¬ Obtained s i n := fun n hn => hany ⟨n, hn⟩
      refine ⟨fun n _ hn => absurd hn (hnone n), ?_⟩
      change (s.stored.filter (·.1 = i)).length ≤ 1
      rw [hi.stored_nil hnone]
      exact Nat.zero_le 1
  · cases h

/-- An action that meets the condition keeps each notification single. -/
theorem Single.step (hi : Inv cfg s) (hs : Single s) {a : Action} (hst : Standing s a)
    (h : s.step cfg bus a = some t) : Single t := by
  cases a with
  | outbox act => exact hs.outboxStep hi h
  | handler w x =>
    obtain ⟨c, hc, hmoved⟩ := handler_cases h
    exact hs.moved hi hc hst hmoved
  | markAsRead ids | deleteMany ids =>
    obtain rfl := Option.some.inj h
    exact hs

/-- However often workers deliver a staged request, and whatever fails on the way, it stores at
most one notification and is published under one event id, as long as no delivery of it obtains
a notification after one that was obtained before has been deleted. -/
theorem notification_once (cfg : OutboxConfig) (bus : EventBus) (clock : Int) {as : List Action}
    {s : System}
    (hrun : Run (Restrict (Graph fun s a => System.step cfg bus s a) Standing) (.initial clock)
      as s)
    {i : EventId} {payload : EventPayload} {traceId : String} {createdAt : Int}
    (hstaged : .outbox (.saveEvent i NotificationRequested payload traceId createdAt) ∈ as)
    (hrequested : Requested payload) :
    (s.stored.filter (·.1 = i)).length ≤ 1 ∧
      ∀ e e', (i, e) ∈ s.published → (i, e') ∈ s.published → e = e' := by
  obtain ⟨hi, hs⟩ : Inv cfg s ∧ Single s := hrun.invariant (I := fun s => Inv cfg s ∧ Single s)
    (fun _ _ _ h hstep => ⟨h.1.step hstep.2, h.2.step h.1 hstep.1 hstep.2⟩)
    ⟨initial_inv clock, fun i _ _ => ⟨fun _ _ h => (by cases h), Nat.zero_le 1⟩⟩
  obtain ⟨key, hkey⟩ := storeKey_requested hrequested traceId
  rw [← (staged_payload hrun.of_restrict hstaged).2] at hkey
  obtain ⟨hone, hcount⟩ := hs i key hkey
  refine ⟨hcount, fun e e' he he' => ?_⟩
  obtain ⟨n, hn, rfl⟩ := hi.published i e he
  obtain ⟨m, hm, rfl⟩ := hi.published i e' he'
  rw [Notification.eventId, Notification.eventId, hone n m hn hm]

end Runs

/-- A like, as its command requests the notification. -/
def likeRequest : EventPayload where
  payload := some {
    receiverId := "receiver"
    actionType := "like"
    actorId := "actor"
    actorUsername := some "name"
    actorHandle := some "handle"
    actorAvatar := some "avatar"
    targetId := some "post"
    targetType := some "post"
    targetPreview := none
    idempotencyKey := none
    messagePublicId := none }
  body := "NotificationRequestedEvent"

/-- Both accounts are there. -/
def availableReads : Reads where
  receiver := some ⟨"1", false, "receiver", "receiver", ""⟩
  actor := some ⟨"2", false, "name", "handle", "avatar"⟩
  conversation := none
  message := none
  viewing := false
  fallbackActor := none
  systemAvatar := "system"
  timestamp := 0

/-- A bus with the handler of notification requests. -/
def notificationBus : EventBus :=
  (EventBus.empty.subscribe ⟨some NotificationRequested, none⟩
    ⟨0, .object (some handlerKey)⟩).getD .empty

/-- A worker that stores and publishes a notification and crashes before its
checkpoint; the notification is read, and a second worker delivers the event again. -/
def redelivery : List Action :=
  let w := firstWorker
  let v := secondWorker
  [.outbox (.saveEvent 0 NotificationRequested likeRequest "trace" 0),
   .outbox (.claim w 0 ⟨0, 0, 0⟩ false), .outbox (.attempt w .nextHandler),
   .handler w (.read availableReads), .handler w (.find .answered),
   .handler w (.insert "n1" .answered), .handler w (.push .answered),
   .handler w (.publish .answered), .outbox (.crash w), .markAsRead ["n1"],
   .outbox (.advance 60001), .outbox (.claim v 0 ⟨60001, 60001, 60001⟩ false),
   .outbox (.attempt v .nextHandler), .handler v (.read availableReads),
   .handler v (.find .answered), .handler v (.push .answered), .handler v (.publish .answered),
   .outbox (.attempt v .handlerReturns)]

/-- The check that nothing was deleted, for a run that is executed. -/
def standing (s : System) : Action → Bool
  | .handler w x => (s.call w).all fun c => (s.obtains c x).isNone ||
      s.obtained.all fun entry => entry.1 ≠ c.eventId || decide (s.notifications.Holds entry.2)
  | _ => true

private theorem standing_sound (s : System) (a : Action) (h : standing s a = true) :
    Standing s a := by
  cases a with
  | handler w x =>
    intro c m hc ho n hn
    simp only [standing, hc, ho, Option.all_some, Option.isNone_some, Bool.false_or] at h
    have hentry := List.all_eq_true.mp h (c.eventId, n) hn
    simpa using hentry
  | outbox act | markAsRead ids | deleteMany ids => trivial

/-- Two deliveries of one request publish it twice and store it once. -/
theorem notification_once_redelivered : ∃ s,
    Run (Restrict (Graph fun s a => System.step .default notificationBus s a) Standing)
      (.initial 0) redelivery s ∧
      s.published = [(0, "new_notification:n1"), (0, "new_notification:n1")] ∧
      (s.stored.filter (·.1 = 0)).length ≤ 1 := by
  have h : (exec (fun s a => if standing s a then System.step .default notificationBus s a
      else none) (.initial 0) redelivery).map (·.published) =
        some [(0, "new_notification:n1"), (0, "new_notification:n1")] := by decide
  obtain ⟨s, hs, hp⟩ := Option.map_eq_some_iff.mp h
  have hrun := exec_restrict standing_sound hs
  have hrequested : Requested likeRequest := ⟨_, rfl, .inl rfl⟩
  have honce := notification_once .default notificationBus 0 hrun (i := 0)
    (List.mem_cons_self ..) hrequested
  exact ⟨s, hrun, hp, honce.1⟩

/-- A worker stores and publishes the notification of a like and crashes before its checkpoint;
the post is deleted with its notifications, and a second worker delivers the event again. -/
def deletedBetween : List Action :=
  let w := firstWorker
  let v := secondWorker
  [.outbox (.saveEvent 0 NotificationRequested likeRequest "trace" 0),
   .outbox (.claim w 0 ⟨0, 0, 0⟩ false), .outbox (.attempt w .nextHandler),
   .handler w (.read availableReads), .handler w (.find .answered),
   .handler w (.insert "n1" .answered), .handler w (.push .answered),
   .handler w (.publish .answered), .outbox (.crash w), .deleteMany ["n1"],
   .outbox (.advance 60001), .outbox (.claim v 0 ⟨60001, 60001, 60001⟩ false),
   .outbox (.attempt v .nextHandler), .handler v (.read availableReads),
   .handler v (.find .answered), .handler v (.insert "n2" .answered),
   .handler v (.push .answered), .handler v (.publish .answered),
   .outbox (.attempt v .handlerReturns)]

/-- A delivery after the deletion stores a second notification and publishes it under another
event id. -/
theorem notification_storedAgain : ∃ s,
    Run (Graph fun s a => System.step .default notificationBus s a) (.initial 0)
      deletedBetween s ∧ Requested likeRequest ∧
      .outbox (.saveEvent 0 NotificationRequested likeRequest "trace" 0) ∈ deletedBetween ∧
      ¬ (s.stored.filter (·.1 = 0)).length ≤ 1 ∧
      ¬ ∀ e e', (0, e) ∈ s.published → (0, e') ∈ s.published → e = e' := by
  have h : (exec (fun s a => System.step .default notificationBus s a) (.initial 0)
      deletedBetween).map (fun s => (s.stored, s.published)) =
        some ([(0, "n1"), (0, "n2")],
          [(0, "new_notification:n1"), (0, "new_notification:n2")]) := by decide
  obtain ⟨s, hs, hboth⟩ := Option.map_eq_some_iff.mp h
  obtain ⟨hstored, hpublished⟩ := Prod.mk.inj hboth
  refine ⟨s, exec_run hs, ⟨_, rfl, .inl rfl⟩, List.mem_cons_self .., ?_, ?_⟩
  · rw [hstored]
    decide
  · rw [hpublished]
    intro hsame
    exact absurd (hsame "new_notification:n1" "new_notification:n2" (by simp) (by simp)) (by decide)

end Ascendance.Notifications
