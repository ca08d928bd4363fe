import Ascendance.Models.Outbox.Worker

/-!
# What one step can do

Every later invariant is derived from two inversions. An attempt's step is one of
a few outcomes, each with the write it makes, the attempt it leaves and the
handler calls it adds. A step of the system either leaves a record alone or
touches it by one of the six updates, whose filter the record then passed.
-/

namespace Ascendance.Outbox

open Ascendance.Core

/-- The writes of an attempt under its owner's filter, each with the phase that makes it. -/
inductive OwnedWrite (cfg : OutboxConfig) (w : WorkerId) (a : Attempt) :
    (OutboxEvent → Bool) → (OutboxEvent → OutboxEvent) → Prop
  | checkpoint {h : RegisteredEventHandler} {rest : List RegisteredEventHandler}
      (hp : a.phase = .returned h rest) :
      OwnedWrite cfg w a (buildOwnedFilter (some w.value)) (.addHandler h.key)
  | complete (hp : a.phase = .looping []) (processedAt : Int) :
      OwnedWrite cfg w a (buildOwnedFilter (some w.value)) (.finished processedAt)
  | fail {message : String} (hp : a.phase = .failing message) (failureTime : Int) (random : ℚ) :
      OwnedWrite cfg w a (buildOwnedFilter (some w.value))
        (.failed message (failureState cfg a.record.retries failureTime random))

/-- An attempt whose work is over or has failed. -/
def Phase.ended : Phase → Bool
  | .failing _ | .settled => true
  | .looping _ | .running _ _ | .returned _ _ => false

/-- What one step of an attempt can do: the store, the attempt and the journal
entries it leaves. -/
inductive Outcome (cfg : OutboxConfig) (s : World) (w : WorkerId) (a : Attempt) :
    Store → Attempt → List Entry → Prop
  | skip {h : RegisteredEventHandler} {rest : List RegisteredEventHandler}
      (hp : a.phase = .looping (h :: rest)) (hk : h.key ∈ a.processedHandlers) :
      Outcome cfg s w a s.outbox { a with phase := .looping rest } []
  | invoke {h : RegisteredEventHandler} {rest : List RegisteredEventHandler}
      (hp : a.phase = .looping (h :: rest)) (hk : h.key ∉ a.processedHandlers) :
      Outcome cfg s w a s.outbox { a with phase := .running h rest } [.invoked a.eventId h]
  | returns {h : RegisteredEventHandler} {rest : List RegisteredEventHandler}
      (hp : a.phase = .running h rest) :
      Outcome cfg s w a s.outbox { a with phase := .returned h rest } [.completed a.eventId h]
  | checkpointed {h : RegisteredEventHandler} {rest : List RegisteredEventHandler}
      (hp : a.phase = .returned h rest)
      (hm : s.outbox.Matches a.eventId (buildOwnedFilter (some w.value))) :
      Outcome cfg s w a (s.outbox.modify a.eventId (.addHandler h.key))
        { a with processedHandlers := a.processedHandlers ++ [h.key], phase := .looping rest } []
  | ends (phase : Phase) (he : phase.ended = true) :
      Outcome cfg s w a s.outbox { a with phase := phase } []
  | writes {p : OutboxEvent → Bool} {f : OutboxEvent → OutboxEvent} (hw : OwnedWrite cfg w a p f)
      (phase : Phase) (he : phase.ended = true) :
      Outcome cfg s w a (s.outbox.updateOne a.eventId p f) { a with phase := phase } []
  | renews (startedAt : Int) (failure : Option String) :
      Outcome cfg s w a
        (s.outbox.updateOne a.eventId (renewFilter w.value) (.renewed startedAt))
        { a with renewalFailure := failure } []
  | renewalFails (message : String) :
      Outcome cfg s w a s.outbox { a with renewalFailure := some message } []

/-- The world an outcome leads to. -/
def World.after (s : World) (w : WorkerId) (o : Store) (a : Attempt) (es : List Entry) : World :=
  { s with
    outbox := o
    worker := Function.update s.worker w (.busy a)
    journal := s.journal ++ es }

private theorem after_nil (s : World) (w : WorkerId) (o : Store) (a : Attempt) :
    s.after w o a [] =
      { s with outbox := o, worker := Function.update s.worker w (.busy a) } := by
  simp only [World.after, List.append_nil]

/-- A write that is answered in some way either succeeds with a change, or ends
the attempt with or without having been applied. -/
theorem answer_cases (s : World) (w : WorkerId) (a changed : Attempt) (write : Store × Bool)
    (reply : Reply) (ownershipLost : String) :
    (write.2 = true ∧ s.answer w a write reply changed ownershipLost =
      s.after w write.1 changed []) ∨
    (∃ phase : Phase, phase.ended = true ∧
      (s.answer w a write reply changed ownershipLost =
          s.after w write.1 { a with phase := phase } [] ∨
        s.answer w a write reply changed ownershipLost =
          s.after w s.outbox { a with phase := phase } [])) := by
  simp only [after_nil]
  cases reply with
  | answered =>
    cases hw : write.2 with
    | true => exact Or.inl ⟨rfl, by simp [World.answer, hw]⟩
    | false =>
      exact Or.inr ⟨.failing ownershipLost, rfl, Or.inl (by
        simp [World.answer, hw, World.setPhase])⟩
  | lost message => exact Or.inr ⟨.failing message, rfl, Or.inl rfl⟩
  | refused message => exact Or.inr ⟨.failing message, rfl, Or.inr rfl⟩

section Outcomes

variable {cfg : OutboxConfig} {s t : World} {w : WorkerId} {a : Attempt}

/-- The next handler is skipped or invoked, or a failed renewal ends the attempt. -/
theorem nextHandler_cases (h : s.nextHandler w a = some t) :
    ∃ o a' es, Outcome cfg s w a o a' es ∧ t = s.after w o a' es := by
  simp only [World.nextHandler] at h
  split at h
  · next g rest hp =>
    split at h
    · next message _ =>
      obtain rfl := Option.some.inj h
      exact ⟨_, _, _, .ends (.failing message) rfl, (after_nil ..).symm⟩
    · split at h
      · next hk =>
        obtain rfl := Option.some.inj h
        exact ⟨_, _, _, .skip hp hk, (after_nil ..).symm⟩
      · next hk =>
        obtain rfl := Option.some.inj h
        exact ⟨_, _, _, .invoke hp hk, rfl⟩
  · cases h

/-- A checkpoint is recorded, or the attempt fails with or without it. -/
theorem checkpoint_cases {reply : Reply} (h : s.checkpoint w a reply = some t) :
    ∃ o a' es, Outcome cfg s w a o a' es ∧ t = s.after w o a' es := by
  simp only [World.checkpoint] at h
  split at h
  · next message hp _ =>
    obtain rfl := Option.some.inj h
    exact ⟨_, _, _, .ends (.failing message) rfl, (after_nil ..).symm⟩
  · next g rest hp _ =>
    obtain rfl := Option.some.inj h
    rcases answer_cases s w a
      { a with processedHandlers := a.processedHandlers ++ [g.key], phase := .looping rest }
      (markHandlerProcessed s.outbox a.eventId g.key (some w.value)) reply
      "Outbox event ownership lost before handler checkpoint"
      with ⟨hc, ht⟩ | ⟨phase, he, ht | ht⟩
    · have hm := (Collection.modifiedCount_pos.mp (of_decide_eq_true hc)).1
      refine ⟨_, _, _, .checkpointed hp hm, ht.trans ?_⟩
      simp only [markHandlerProcessed, Collection.updateOne_of_matches _ hm]
    · exact ⟨_, _, _, .writes (.checkpoint hp) phase he, ht⟩
    · exact ⟨_, _, _, .ends phase he, ht⟩
  · cases h

/-- The record is finished, or the attempt fails with or without that. -/
theorem complete_cases {processedAt : Int} {reply : Reply}
    (h : s.complete w a processedAt reply = some t) :
    ∃ o a' es, Outcome cfg s w a o a' es ∧ t = s.after w o a' es := by
  simp only [World.complete] at h
  split at h
  · next message hp _ =>
    obtain rfl := Option.some.inj h
    exact ⟨_, _, _, .ends (.failing message) rfl, (after_nil ..).symm⟩
  · next hp _ =>
    obtain rfl := Option.some.inj h
    rcases answer_cases s w a { a with phase := .settled }
      (markAsProcessed s.outbox a.eventId (some w.value) processedAt) reply
      "Outbox event ownership lost before completion"
      with ⟨_, ht⟩ | ⟨phase, he, ht | ht⟩
    · exact ⟨_, _, _, .writes (.complete hp processedAt) .settled rfl, ht⟩
    · exact ⟨_, _, _, .writes (.complete hp processedAt) phase he, ht⟩
    · exact ⟨_, _, _, .ends phase he, ht⟩
  · cases h

/-- A failure is recorded unless its write is refused, and the attempt is over. -/
theorem fail_cases {failureTime : Int} {random : ℚ} {reply : Reply}
    (h : s.fail cfg w a failureTime random reply = some t) :
    ∃ o a' es, Outcome cfg s w a o a' es ∧ t = s.after w o a' es := by
  simp only [World.fail] at h
  split at h
  · next message hp =>
    cases reply with
    | answered | lost _ =>
      obtain rfl := Option.some.inj h
      exact ⟨_, _, _, .writes (.fail hp failureTime random) .settled rfl, (after_nil ..).symm⟩
    | refused _ =>
      obtain rfl := Option.some.inj h
      exact ⟨_, _, _, .ends .settled rfl, (after_nil ..).symm⟩
  · cases h

/-- A renewal leaves its time on the record unless its write is refused. -/
theorem renew_cases {startedAt : Int} {reply : Reply} (hb : s.worker w = .busy a)
    (h : s.renew w a startedAt reply = some t) :
    ∃ o a' es, Outcome cfg s w a o a' es ∧ t = s.after w o a' es := by
  simp only [World.renew] at h
  split at h
  · cases h
  · next hr =>
    cases reply with
    | answered =>
      simp only at h
      split at h
      · next hw =>
        obtain rfl := Option.some.inj h
        refine ⟨_, _, _, .renews startedAt none, ?_⟩
        have ha : { a with renewalFailure := none } = a := by rw [← hr]
        rw [after_nil, ha, ← hb, Function.update_eq_self]
        rfl
      · obtain rfl := Option.some.inj h
        exact ⟨_, _, _, .renews startedAt (some _), (after_nil ..).symm⟩
    | lost message =>
      obtain rfl := Option.some.inj h
      exact ⟨_, _, _, .renews startedAt (some message), (after_nil ..).symm⟩
    | refused message =>
      obtain rfl := Option.some.inj h
      exact ⟨_, _, _, .renewalFails message, (after_nil ..).symm⟩

/-- Every step of a busy worker is one of the outcomes, or the release after its work is over. -/
theorem attemptStep_cases {x : AttemptStep} (hb : s.worker w = .busy a)
    (h : s.attemptStep cfg w a x = some t) :
    (∃ o a' es, Outcome cfg s w a o a' es ∧ t = s.after w o a' es) ∨
      (x = .release ∧ t = { s with worker := Function.update s.worker w .idle }) := by
  cases x with
  | nextHandler => exact .inl (nextHandler_cases h)
  | handlerReturns =>
    left
    simp only [World.attemptStep] at h
    split at h
    · next g rest hp =>
      obtain rfl := Option.some.inj h
      exact ⟨_, _, _, .returns hp, rfl⟩
    · cases h
  | handlerThrows message =>
    left
    simp only [World.attemptStep] at h
    split at h
    · obtain rfl := Option.some.inj h
      exact ⟨_, _, _, .ends (.failing message) rfl, (after_nil ..).symm⟩
    · cases h
  | checkpoint reply => exact .inl (checkpoint_cases h)
  | complete processedAt reply => exact .inl (complete_cases h)
  | fail failureTime random reply => exact .inl (fail_cases h)
  | renew startedAt reply => exact .inl (renew_cases hb h)
  | release =>
    right
    simp only [World.attemptStep] at h
    split at h
    · exact ⟨rfl, (Option.some.inj h).symm⟩
    · cases h

end Outcomes

/-- What one step of the system can do. -/
inductive Stepped (cfg : OutboxConfig) (bus : EventBus) (s : World) : World → Prop
  | advance (ms : Nat) : Stepped cfg bus s { s with clock := s.clock + ms }
  | saved {id : EventId} (hid : id ∉ s.outbox.ids) (eventType : String) (payload : EventPayload)
      (traceId : String) (createdAt : Int) :
      Stepped cfg bus s
        { s with outbox := saveEvent s.outbox id eventType payload traceId createdAt }
  | requeued (id : EventId) :
      Stepped cfg bus s { s with
        outbox := s.outbox.updateOne id (requeueFilter cfg.maxRetries) .requeued }
  | claimLost {w : WorkerId} (hw : s.worker w = .idle) {id : EventId} {now staleBefore : Int}
      (startedAt : Int) (hc : Claimable s.outbox cfg.maxRetries now staleBefore id) :
      Stepped cfg bus s { s with outbox := claimPendingEvents s.outbox id w.value startedAt }
  | claimed {w : WorkerId} (hw : s.worker w = .idle) {id : EventId} {now staleBefore : Int}
      (startedAt : Int) (hc : Claimable s.outbox cfg.maxRetries now staleBefore id) :
      Stepped cfg bus s (s.after w (claimPendingEvents s.outbox id w.value startedAt)
        (.start bus id ((s.outbox.doc id).claimed w.value startedAt)) [])
  | outcome {w : WorkerId} {a a' : Attempt} {o : Store} {es : List Entry}
      (hb : s.worker w = .busy a) (ho : Outcome cfg s w a o a' es) :
      Stepped cfg bus s (s.after w o a' es)
  | left (w : WorkerId) {x : Worker} (hx : ∀ a, x ≠ .busy a) :
      Stepped cfg bus s { s with worker := Function.update s.worker w x }

/-- Every step of the system is one of these. -/
theorem step_cases {cfg : OutboxConfig} {bus : EventBus} {s t : World} {act : Action}
    (h : s.step cfg bus act = some t) : Stepped cfg bus s t := by
  cases act with
  | advance ms =>
    obtain rfl := Option.some.inj h
    exact .advance ms
  | saveEvent id eventType payload traceId createdAt =>
    simp only [World.step] at h
    split at h
    · next hid =>
      obtain rfl := Option.some.inj h
      exact .saved hid.1 eventType payload traceId createdAt
    · cases h
  | requeueExhaustedEvent id =>
    obtain rfl := Option.some.inj h
    exact .requeued id
  | claim w id times lost =>
    simp only [World.step] at h
    split at h
    · next hw =>
      simp only [World.claim] at h
      split at h
      · next hc =>
        cases lost with
        | true =>
          obtain rfl := Option.some.inj h
          exact .claimLost hw times.startedAt hc.2.2.2
        | false =>
          obtain rfl := Option.some.inj h
          have hd : Stepped cfg bus s _ := .claimed hw times.startedAt hc.2.2.2
          rw [after_nil] at hd
          simpa [claimPendingEvents] using hd
      · cases h
    · cases h
  | attempt w x =>
    simp only [World.step] at h
    split at h
    · next a hb =>
      split at h
      · rcases attemptStep_cases hb h with ⟨o, a', es, ho, rfl⟩ | ⟨_, rfl⟩
        · exact .outcome hb ho
        · exact .left w (by simp)
      · cases h
    · cases h
  | crash w =>
    obtain rfl := Option.some.inj h
    exact .left w (by simp)

/-- The six updates of a stored record, each with the worker that makes it and
with the condition that lets it through. -/
inductive Touch (cfg : OutboxConfig) (e : OutboxEvent) : Option WorkerId → OutboxEvent → Prop
  | claim (w : WorkerId) {now staleBefore : Int} (startedAt : Int)
      (hf : claimFilter cfg.maxRetries now staleBefore e = true) :
      Touch cfg e (some w) (e.claimed w.value startedAt)
  | checkpoint (w : WorkerId) (key : String) (ho : e.processingOwner = .value w.value) :
      Touch cfg e (some w) (e.addHandler key)
  | complete (w : WorkerId) (processedAt : Int) (ho : e.processingOwner = .value w.value) :
      Touch cfg e (some w) (e.finished processedAt)
  | fail (w : WorkerId) (message : String) (failureTime : Int) (random : ℚ)
      (ho : e.processingOwner = .value w.value) :
      Touch cfg e (some w) (e.failed message (failureState cfg e.retries failureTime random))
  | renew (w : WorkerId) (startedAt : Int) (hf : renewFilter w.value e = true) :
      Touch cfg e (some w) (e.renewed startedAt)
  | requeue (hf : requeueFilter cfg.maxRetries e = true) : Touch cfg e none e.requeued

/-- The owner fields of a failed record do not depend on the schedule. -/
@[simp] theorem failed_processingOwner (message : String) (st : OutboxFailureState)
    (e : OutboxEvent) : (e.failed message st).processingOwner = .missing := by
  unfold OutboxEvent.failed
  rcases st with ⟨_ | _, _ | _⟩ <;> rfl

/-- After a touch, only the toucher can be the recorded owner. -/
theorem Touch.owner {cfg : OutboxConfig} {e e' : OutboxEvent} {actor : Option WorkerId}
    (h : Touch cfg e actor e') {v : WorkerId} (hv : e'.processingOwner = .value v.value) :
    actor = some v := by
  have hinj : ∀ w : WorkerId, w.value = v.value → some w = some v := by
    rintro ⟨_, _⟩ rfl
    rfl
  cases h with
  | claim w _ _ => exact hinj w (by simpa [OutboxEvent.claimed] using hv)
  | checkpoint w _ ho => exact hinj w (DocField.value.inj (ho.symm.trans hv))
  | complete _ _ _ => simp [OutboxEvent.finished] at hv
  | fail _ _ _ _ _ => simp at hv
  | renew w _ hf =>
    have ho := ((renewFilter_iff _ _).mp hf).1
    exact hinj w (DocField.value.inj (ho.symm.trans hv))
  | requeue _ => simp [OutboxEvent.requeued] at hv

/-- A checkpoint appends its key unless it is there already. -/
theorem addHandler_grows (key : String) (e : OutboxEvent) :
    e.processedHandlers <+: (e.addHandler key).processedHandlers := by
  unfold OutboxEvent.addHandler
  split
  · exact List.prefix_rfl
  · exact List.prefix_append _ _

/-- Every touch keeps the checkpoints in their order and only appends. -/
theorem Touch.processedHandlers {cfg : OutboxConfig} {e e' : OutboxEvent}
    {actor : Option WorkerId} (h : Touch cfg e actor e') :
    e.processedHandlers <+: e'.processedHandlers := by
  cases h with
  | checkpoint _ key _ => exact addHandler_grows key e
  | fail _ message failureTime random _ =>
    unfold OutboxEvent.failed
    rcases failureState cfg e.retries failureTime random with ⟨_ | _, _ | _⟩ <;>
      exact List.prefix_rfl
  | claim _ _ _ | complete _ _ _ | renew _ _ _ | requeue _ => exact List.prefix_rfl

end Ascendance.Outbox
