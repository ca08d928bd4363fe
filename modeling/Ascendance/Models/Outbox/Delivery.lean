import Ascendance.Models.Outbox.Invariant

/-!
# Delivery protocol

Ownership, finality and progress of records over whole runs. Finality and the
growth of checkpoints are relations between the two ends of a run; they follow
from what one touch does to one record.
-/

namespace Ascendance.Outbox

open Ascendance.Core

variable {cfg : OutboxConfig} {bus : EventBus}

/-- How a stored record may change over a run: it stays stored, a processed record
is final, and checkpoints are only appended. -/
def Grows (s t : World) : Prop :=
  ∀ i ∈ s.outbox.ids, i ∈ t.outbox.ids ∧
    ((s.outbox.doc i).processed = true → t.outbox.doc i = s.outbox.doc i) ∧
    (s.outbox.doc i).processedHandlers <+: (t.outbox.doc i).processedHandlers

/-- A world grows to itself. -/
theorem Grows.refl (s : World) : Grows s s := fun _ hi => ⟨hi, fun _ => rfl, List.prefix_rfl⟩

/-- Growth composes. -/
theorem Grows.trans {s t u : World} (h : Grows s t) (h' : Grows t u) : Grows s u := by
  intro i hi
  obtain ⟨ht, hf, hg⟩ := h i hi
  obtain ⟨hu, hf', hg'⟩ := h' i ht
  refine ⟨hu, fun hp => ?_, hg.trans hg'⟩
  have he := hf hp
  exact (hf' (he ▸ hp)).trans he

/-- A sound record that is processed is touched by nothing. -/
theorem Touch.unprocessed {e e' : OutboxEvent} {actor : Option WorkerId}
    (h : Touch cfg e actor e') (hs : Sound cfg e) : e.processed = false := by
  cases h with
  | claim w _ hf => simp_all [claimFilter, pendingFilter]
  | checkpoint w _ ho | complete w _ ho | fail w _ _ _ ho => exact (hs.owned ho).2.1
  | renew w _ hf => exact ((renewFilter_iff _ _).mp hf).2.2
  | requeue hf => simp_all [requeueFilter]

/-- One step lets records grow. -/
theorem Stepped.grows {s t : World} (hinv : Inv cfg s) (h : Stepped cfg bus s t) : Grows s t := by
  intro i hi
  obtain ⟨ht, hd | ⟨_, hd⟩⟩ := h.touch hinv hi
  · rw [hd]
    exact ⟨ht, fun _ => rfl, List.prefix_rfl⟩
  · refine ⟨ht, fun hp => ?_, hd.processedHandlers⟩
    have hn := hd.unprocessed (hinv.sound i hi)
    exact absurd (hn.symm.trans hp) (by decide)

/-- Records grow over every run. -/
theorem Runs.grows {s t : World} {as : List Action} (h : Runs cfg bus s as t) (hs : Inv cfg s) :
    Grows s t :=
  Run.relates (I := Inv cfg) (fun _ _ _ hi hstep => (step_cases hstep).inv hi) Grows.refl
    (fun _ _ _ => Grows.trans) (fun _ _ _ hi hstep => (step_cases hstep).grows hi) h hs

/-- A write under the filter of a worker that is not the owner changes nothing. -/
theorem attempt_not_owner {s t : World} {w : WorkerId} {a : Attempt} {x : AttemptStep}
    (hb : s.worker w = .busy a) (h : s.step cfg bus (.attempt w x) = some t)
    (hn : (s.outbox.doc a.eventId).processingOwner ≠ .value w.value) : t.outbox = s.outbox := by
  have hfilter : ¬ s.outbox.Matches a.eventId (buildOwnedFilter (some w.value)) :=
    fun hm => hn ((buildOwnedFilter_worker w _).mp hm.2)
  have hrenew : ¬ s.outbox.Matches a.eventId (renewFilter w.value) :=
    fun hm => hn ((renewFilter_iff _ _).mp hm.2).1
  simp only [World.step, hb] at h
  split at h
  · rcases attemptStep_cases hb h with ⟨o, a', es, ho, rfl⟩ | ⟨_, rfl⟩
    · cases ho with
      | skip _ _ | invoke _ _ | returns _ | ends _ _ | renewalFails _ => rfl
      | checkpointed _ hm => exact absurd hm hfilter
      | writes hw _ _ =>
        cases hw <;> exact Collection.updateOne_of_not_matches _ hfilter
      | renews _ _ => exact Collection.updateOne_of_not_matches _ hrenew
    · rfl
  · cases h

/-- No method changes a processed record that is sound. -/
theorem processed_refuses {o : Store} {i : EventId} (hs : Sound cfg (o.doc i))
    (hp : (o.doc i).processed = true) :
    (∀ now staleBefore, ¬ Claimable o cfg.maxRetries now staleBefore i) ∧
      (∀ (w : WorkerId) message st, (markAsFailed o i message (some w.value) st).2 = false) ∧
      (∀ (w : WorkerId) key, (markHandlerProcessed o i key (some w.value)).2 = false) ∧
      (requeueExhaustedEvent o cfg.maxRetries i).2 = false := by
  have hno : ∀ w : WorkerId, ¬ o.Matches i (buildOwnedFilter (some w.value)) := by
    intro w hm
    have ho := (hs.owned ((buildOwnedFilter_worker w _).mp hm.2)).2.1
    exact absurd (ho.symm.trans hp) (by decide)
  refine ⟨fun now staleBefore hc => ?_, fun w message st => ?_, fun w key => ?_, ?_⟩
  · have hf := hc.1.2
    simp [claimFilter, pendingFilter, hp] at hf
  · exact decide_eq_false fun hm => hno w (Collection.modifiedCount_pos.mp hm).1
  · exact decide_eq_false fun hm => hno w (Collection.modifiedCount_pos.mp hm).1
  · refine decide_eq_false fun hm => ?_
    have hf := (Collection.modifiedCount_pos.mp hm).1.2
    simp [requeueFilter, hp] at hf

/-- What the delivery protocol promises of a state. -/
structure Delivery (cfg : OutboxConfig) (bus : EventBus) (s : World) : Prop where
  /-- At most one worker is the recorded owner of a record. -/
  owner_unique : ∀ i ∈ s.outbox.ids, ∀ v w : WorkerId,
    (s.outbox.doc i).processingOwner = .value v.value →
    (s.outbox.doc i).processingOwner = .value w.value → v = w
  /-- A step of an attempt whose worker is not the recorded owner changes no record. -/
  owner_only : ∀ (w : WorkerId) (a : Attempt) (x : AttemptStep) (t : World),
    s.worker w = .busy a → (s.outbox.doc a.eventId).processingOwner ≠ .value w.value →
    s.step cfg bus (.attempt w x) = some t → t.outbox = s.outbox
  /-- A processed record never changes again, and every method refuses it. -/
  processed_final : ∀ i ∈ s.outbox.ids, (s.outbox.doc i).processed = true →
    ∀ (as : List Action) (t : World), Runs cfg bus s as t →
      t.outbox.doc i = s.outbox.doc i ∧
      (∀ now staleBefore, ¬ Claimable t.outbox cfg.maxRetries now staleBefore i) ∧
      (∀ (w : WorkerId) message st,
        (markAsFailed t.outbox i message (some w.value) st).2 = false) ∧
      (∀ (w : WorkerId) key, (markHandlerProcessed t.outbox i key (some w.value)).2 = false) ∧
      (requeueExhaustedEvent t.outbox cfg.maxRetries i).2 = false
  /-- Checkpoints are only ever appended. -/
  handlers_grow : ∀ i ∈ s.outbox.ids, ∀ (as : List Action) (t : World), Runs cfg bus s as t →
    (s.outbox.doc i).processedHandlers <+: (t.outbox.doc i).processedHandlers
  /-- No record disappears, and an unprocessed one is exhausted or becomes claimable
  by waiting. -/
  not_lost : ∀ i ∈ s.outbox.ids,
    (∀ (as : List Action) (t : World), Runs cfg bus s as t → i ∈ t.outbox.ids) ∧
    ((s.outbox.doc i).processed = false → (s.outbox.doc i).exhaustedAt.isPresent = true ∨
      ∃ d : Nat, claimFilter cfg.maxRetries (s.clock + d) (s.clock + d - cfg.staleAfterMs)
        (s.outbox.doc i) = true)

/-- An unprocessed record that is not exhausted becomes claimable by waiting. -/
theorem Sound.claimable {e : OutboxEvent} (h : Sound cfg e) (hp : e.processed = false)
    (clock : Int) : e.exhaustedAt.isPresent = true ∨ ∃ d : Nat,
      claimFilter cfg.maxRetries (clock + d) (clock + d - cfg.staleAfterMs) e = true := by
  rcases h.exhausted hp with ⟨_, ⟨d, hd⟩, _⟩ | ⟨hr, hx, hn⟩
  · exact Or.inl (by simp [hd])
  · right
    refine claimFilter_eventually cfg e ?_ hn ?_ clock
    · simp [pendingFilter, hp, hr, hx]
    · rcases h.owner with ⟨_, _, d, hd⟩ | ⟨_, _, hd⟩ <;> simp [hd]

/-- Every state of every run of any number of workers keeps the delivery protocol. -/
theorem outbox_delivery (cfg : OutboxConfig) (bus : EventBus) (clock : Int) {as : List Action}
    {s : World} (h : Runs cfg bus (.initial clock) as s) : Delivery cfg bus s := by
  have hinv := h.inv (initial_inv clock)
  refine ⟨?_, ?_, ?_, ?_, ?_⟩
  · rintro i _ ⟨v, _⟩ ⟨w, _⟩ hv hw
    obtain rfl : v = w := DocField.value.inj (hv.symm.trans hw)
    rfl
  · intro w a x t hb hn hstep
    exact attempt_not_owner hb hstep hn
  · intro i hi hp bs t hrun
    obtain ⟨ht, hf, _⟩ := hrun.grows hinv i hi
    have hd := hf hp
    exact ⟨hd, processed_refuses ((hrun.inv hinv).sound i ht) (hd ▸ hp)⟩
  · intro i hi bs t hrun
    exact (hrun.grows hinv i hi).2.2
  · intro i hi
    exact ⟨fun bs t hrun => (hrun.grows hinv i hi).1,
      fun hp => (hinv.sound i hi).claimable hp s.clock⟩

/-- Settings as the environment's defaults give them. -/
def OutboxConfig.default : OutboxConfig :=
  .ofEnv (.finite 5) (.finite 60000) (.finite 15000) (.finite 300000)

/-- An event class with a static type. -/
def TestEvent : EventClass := ⟨some "TestEvent", some "TestEvent"⟩

/-- Instances of one handler class. -/
def testHandler (identity : Nat) : EventHandler := ⟨identity, .object (some "TestEventHandler")⟩

/-- A bus with these handlers for the test event. -/
def testBus (handlers : List EventHandler) : EventBus :=
  (EventBus.empty.subscribeAll TestEvent handlers).getD .empty

/-- A worker. -/
def firstWorker : WorkerId := ⟨"first", by decide⟩

/-- Another worker. -/
def secondWorker : WorkerId := ⟨"second", by decide⟩

/-- A worker that claims an event, runs its handler, loses the event to a second
worker after the claim timeout and then tries to checkpoint. -/
def takeover : List Action :=
  let w := firstWorker
  let v := secondWorker
  [.saveEvent 0 "TestEvent" ⟨none, "test"⟩ "trace" 0,
   .claim w 0 ⟨0, 0, 0⟩ false, .attempt w .nextHandler, .attempt w .handlerReturns,
   .advance 60001,
   .claim v 0 ⟨60001, 60001, 60001⟩ false, .attempt v .nextHandler, .attempt v .handlerReturns,
   .attempt w (.checkpoint .answered),
   .attempt v (.checkpoint .answered), .attempt v (.complete 60001 .answered)]

/-- The protocol holds after a take-over, where the second worker has acknowledged the event. -/
theorem outbox_delivery_takeover : ∃ s : World,
    Delivery .default (testBus [testHandler 0]) s ∧ (s.outbox.doc 0).processed = true := by
  have h : (exec (fun s act => World.step .default (testBus [testHandler 0]) s act) (.initial 0)
      takeover).map (fun s => (s.outbox.doc 0).processed) = some true := by decide
  obtain ⟨s, hs, hp⟩ := Option.map_eq_some_iff.mp h
  exact ⟨s, outbox_delivery .default _ 0 (exec_run hs), hp⟩

end Ascendance.Outbox
