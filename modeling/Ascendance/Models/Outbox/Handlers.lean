import Ascendance.Models.Outbox.Delivery

/-!
# Handler completeness

Completion is inferred from checkpoint keys. The invariant ties the keys to the
journal: a checkpoint has a completed call behind it, the local set of an attempt
covers the part of the handler list it has passed, and an acknowledged record has
a checkpoint for the key of every subscribed handler.
-/

namespace Ascendance.Outbox

open Ascendance.Core

variable {cfg : OutboxConfig} {bus : EventBus}

/-- Where an attempt stands in the list of subscribed handlers. -/
def Progress (bus : EventBus) (journal : List Entry) (a : Attempt) : Prop :=
  let passed (rest : List RegisteredEventHandler) := ∃ done,
    getRegisteredHandlers bus a.record.eventType = done ++ rest ∧
      ∀ h ∈ done, h.key ∈ a.processedHandlers
  match a.phase with
  | .looping rest => passed rest
  | .running h rest => passed (h :: rest)
  | .returned h rest => passed (h :: rest) ∧ .completed a.eventId h ∈ journal
  | .failing _ | .settled => True

/-- Checkpoints, calls and attempts fit together. -/
structure HandlerInv (bus : EventBus) (s : World) : Prop where
  /-- Only subscribed handlers are called. -/
  subscribed : ∀ i h, Entry.completed i h ∈ s.journal →
    i ∈ s.outbox.ids ∧ h ∈ getRegisteredHandlers bus (s.outbox.doc i).eventType
  /-- A checkpoint has a completed call behind it. -/
  checkpoints : ∀ i ∈ s.outbox.ids, ∀ k ∈ (s.outbox.doc i).processedHandlers,
    ∃ h, Entry.completed i h ∈ s.journal ∧ h.key = k
  /-- An acknowledged record has a checkpoint for every subscribed handler. -/
  acknowledged : ∀ i ∈ s.outbox.ids, (s.outbox.doc i).processed = true →
    ∀ h ∈ getRegisteredHandlers bus (s.outbox.doc i).eventType,
      h.key ∈ (s.outbox.doc i).processedHandlers
  /-- An attempt knows the type of its record. -/
  record : ∀ w a, s.worker w = .busy a →
    a.record.eventType = (s.outbox.doc a.eventId).eventType
  /-- An attempt has passed only handlers whose keys it holds. -/
  progress : ∀ w a, s.worker w = .busy a → Progress bus s.journal a

/-- An update that keeps what the handler loop looks at. -/
structure Kept (e e' : OutboxEvent) : Prop where
  eventType : e'.eventType = e.eventType
  processed : e'.processed = e.processed
  processedHandlers : e'.processedHandlers = e.processedHandlers

/-- An event keeps its own fields. -/
theorem Kept.refl (e : OutboxEvent) : Kept e e := ⟨rfl, rfl, rfl⟩

private theorem failed_kept (e : OutboxEvent) (message : String) (st : OutboxFailureState) :
    Kept e (e.failed message st) := by
  unfold OutboxEvent.failed
  rcases st with ⟨_ | _, _ | _⟩ <;> exact ⟨rfl, rfl, rfl⟩

/-- How one step changes a record: not at all for the handler loop, by the checkpoint of a
handler that returned, or by the acknowledgement of an attempt that passed all handlers. -/
inductive Marked (s : World) (i : EventId) : OutboxEvent → Prop
  | kept {e : OutboxEvent} (h : Kept (s.outbox.doc i) e) : Marked s i e
  | checkpoint {w : WorkerId} {a : Attempt} {h : RegisteredEventHandler}
      {rest : List RegisteredEventHandler} (hb : s.worker w = .busy a) (hi : a.eventId = i)
      (hp : a.phase = .returned h rest) : Marked s i ((s.outbox.doc i).addHandler h.key)
  | complete {w : WorkerId} {a : Attempt} (hb : s.worker w = .busy a) (hi : a.eventId = i)
      (hp : a.phase = .looping []) (ho : (s.outbox.doc i).processingOwner = .value w.value)
      (processedAt : Int) : Marked s i ((s.outbox.doc i).finished processedAt)

/-- An outcome marks every record. -/
theorem Outcome.marked {s : World} {w : WorkerId} {a a' : Attempt} {o : Store} {es : List Entry}
    (hb : s.worker w = .busy a) (h : Outcome cfg s w a o a' es) (i : EventId) :
    Marked s i (o.doc i) := by
  cases h with
  | skip _ _ | invoke _ _ | returns _ | ends _ _ | renewalFails _ => exact .kept (.refl _)
  | @checkpointed g rest hp _ =>
    by_cases hi : i = a.eventId
    · subst hi
      rw [Collection.doc_modify_self]
      exact .checkpoint hb rfl hp
    · rw [Collection.doc_modify_ne _ _ hi]
      exact .kept (.refl _)
  | @writes p f hw phase _ =>
    rcases doc_updateOne s.outbox a.eventId i p f with hd | ⟨rfl, hf, hd⟩
    · rw [hd]
      exact .kept (.refl _)
    · rw [hd]
      cases hw with
      | checkpoint hp => exact .checkpoint hb rfl hp
      | complete hp processedAt =>
        exact .complete hb rfl hp ((buildOwnedFilter_worker w _).mp hf) processedAt
      | fail _ _ _ => exact .kept (failed_kept ..)
  | renews startedAt _ =>
    rcases doc_updateOne s.outbox a.eventId i (renewFilter w.value) (.renewed startedAt) with
      hd | ⟨rfl, _, hd⟩
    · rw [hd]
      exact .kept (.refl _)
    · rw [hd]
      exact .kept ⟨rfl, rfl, rfl⟩

/-- A step marks every stored record. -/
theorem Stepped.marked {s t : World} (h : Stepped cfg bus s t) {i : EventId}
    (hi : i ∈ s.outbox.ids) : Marked s i (t.outbox.doc i) := by
  have hclaim : ∀ (w : WorkerId) id startedAt,
      Marked s i ((claimPendingEvents s.outbox id w.value startedAt).doc i) := by
    intro w id startedAt
    unfold claimPendingEvents
    by_cases hid : i = id
    · subst hid
      rw [Collection.doc_modify_self]
      exact .kept ⟨rfl, rfl, rfl⟩
    · rw [Collection.doc_modify_ne _ _ hid]
      exact .kept (.refl _)
  cases h with
  | advance _ | left _ _ => exact .kept (.refl _)
  | @saved id hid _ _ _ _ =>
    have hne : i ≠ id := fun he => hid (he ▸ hi)
    rw [show (saveEvent s.outbox id _ _ _ _).doc i = s.outbox.doc i by
      simp [saveEvent, Collection.insertOne, hne]]
    exact .kept (.refl _)
  | requeued id =>
    rcases doc_updateOne s.outbox id i (requeueFilter cfg.maxRetries) .requeued with
      hd | ⟨rfl, _, hd⟩
    · rw [hd]
      exact .kept (.refl _)
    · rw [hd]
      exact .kept ⟨rfl, rfl, rfl⟩
  | claimLost _ startedAt _ | claimed _ startedAt _ => exact hclaim _ _ startedAt
  | outcome hb ho => exact ho.marked hb i

/-- A marked record keeps its type. -/
theorem Marked.eventType {s : World} {i : EventId} {e : OutboxEvent} (h : Marked s i e) :
    e.eventType = (s.outbox.doc i).eventType := by
  cases h with
  | kept h => exact h.eventType
  | checkpoint _ _ _ | complete _ _ _ _ _ => rfl

/-- The journal only grows, by at most one call: one that an attempt starts or one that ends. -/
inductive Called (s : World) : List Entry → Prop
  | none : Called s []
  | invoked {w : WorkerId} {a : Attempt} {h : RegisteredEventHandler}
      {rest : List RegisteredEventHandler} (hb : s.worker w = .busy a)
      (hp : a.phase = .looping (h :: rest)) (hk : h.key ∉ a.processedHandlers) :
      Called s [.invoked a.eventId h]
  | completed {w : WorkerId} {a : Attempt} {h : RegisteredEventHandler}
      {rest : List RegisteredEventHandler} (hb : s.worker w = .busy a)
      (hp : a.phase = .running h rest) : Called s [.completed a.eventId h]

/-- The calls of one step. -/
theorem Stepped.called {s t : World} (h : Stepped cfg bus s t) :
    ∃ es, t.journal = s.journal ++ es ∧ Called s es := by
  cases h with
  | advance _ | saved _ _ _ _ _ | requeued _ | claimLost _ _ _ | left _ _ =>
    exact ⟨[], (List.append_nil _).symm, .none⟩
  | claimed _ _ _ => exact ⟨[], rfl, .none⟩
  | @outcome w a a' o es hb ho =>
    refine ⟨es, rfl, ?_⟩
    cases ho with
    | invoke hp hk => exact .invoked hb hp hk
    | returns hp => exact .completed hb hp
    | skip _ _ | checkpointed _ _ | ends _ _ | writes _ _ _ | renews _ _ | renewalFails _ =>
      exact .none

/-- Progress in a journal is progress in a longer one. -/
theorem Progress.mono {journal es : List Entry} {a : Attempt} (h : Progress bus journal a) :
    Progress bus (journal ++ es) a := by
  unfold Progress at h ⊢
  cases hp : a.phase with
  | returned g rest =>
    simp only [hp] at h ⊢
    exact ⟨h.1, List.mem_append_left _ h.2⟩
  | looping _ | running _ _ =>
    simp only [hp] at h ⊢
    exact h
  | failing _ | settled => trivial

/-- A phase that has ended owes nothing. -/
theorem Progress.ended {journal : List Entry} {a : Attempt} (h : a.phase.ended = true) :
    Progress bus journal a := by
  unfold Progress
  cases hp : a.phase with
  | failing _ | settled => trivial
  | looping _ | running _ _ | returned _ _ => simp [hp, Phase.ended] at h

/-- A new attempt has passed no handler. -/
theorem start_progress (journal : List Entry) (id : EventId) (record : OutboxEvent) :
    Progress bus journal (.start bus id record) := by
  cases hl : getRegisteredHandlers bus record.eventType with
  | nil => exact .ended (by simp [Attempt.start, hl, Phase.ended])
  | cons g gs =>
    simp only [Progress, Attempt.start, hl]
    exact ⟨[], rfl, by simp⟩

/-- An outcome moves an attempt forward in its list. -/
theorem Outcome.progress {s : World} {w : WorkerId} {a a' : Attempt} {o : Store}
    {es : List Entry} (h : Outcome cfg s w a o a' es) (hpr : Progress bus s.journal a) :
    Progress bus (s.journal ++ es) a' := by
  cases h with
  | @skip g' rest hp hk =>
    simp only [Progress, hp] at hpr
    obtain ⟨done, hl, hd⟩ := hpr
    refine ⟨done ++ [g'], by simp [hl], fun g hg => ?_⟩
    rcases List.mem_append.mp hg with hg | hg
    · exact hd g hg
    · rwa [List.mem_singleton.mp hg]
  | invoke hp _ =>
    simp only [Progress, hp] at hpr
    exact hpr
  | returns hp =>
    simp only [Progress, hp] at hpr
    exact ⟨hpr, by simp⟩
  | @checkpointed g' rest hp _ =>
    simp only [Progress, hp] at hpr
    obtain ⟨⟨done, hl, hd⟩, _⟩ := hpr
    refine ⟨done ++ [g'], by simp [hl], fun g hg => List.mem_append.mpr ?_⟩
    rcases List.mem_append.mp hg with hg | hg
    · exact Or.inl (hd g hg)
    · exact Or.inr (by simp [List.mem_singleton.mp hg])
  | ends _ he | writes _ _ he => exact .ended he
  | renews _ _ | renewalFails _ => exact hpr.mono

/-- A step keeps the attempt of a worker, starts one from a claim, or moves it by an outcome. -/
theorem Stepped.progress {s t : World} (hinv : HandlerInv bus s) (h : Stepped cfg bus s t)
    {v : WorkerId} {b : Attempt} (hb : t.worker v = .busy b) :
    Progress bus t.journal b := by
  cases h with
  | advance _ | saved _ _ _ _ _ | requeued _ | claimLost _ _ _ => exact hinv.progress v b hb
  | @claimed w hw id _ _ startedAt hc =>
    by_cases hv : v = w
    · subst hv
      obtain rfl : Attempt.start bus id _ = b := by simpa [World.after] using hb
      exact start_progress ..
    · exact (hinv.progress v b (by simpa [World.after, hv] using hb)).mono
  | @outcome w a a' o es hw ho =>
    by_cases hv : v = w
    · subst hv
      obtain rfl : a' = b := by simpa [World.after] using hb
      exact ho.progress (hinv.progress v a hw)
    · exact (hinv.progress v b (by simpa [World.after, hv] using hb)).mono
  | @left w x hx =>
    by_cases hv : v = w
    · subst hv
      exact absurd (by simpa using hb) (hx b)
    · exact hinv.progress v b (by simpa [hv] using hb)

/-- An attempt after a step was started on the stored record or was there before. -/
theorem Stepped.record {s t : World} (hsinv : Inv cfg s) (hinv : HandlerInv bus s)
    (h : Stepped cfg bus s t) {v : WorkerId} {b : Attempt} (hb : t.worker v = .busy b) :
    b.record.eventType = (t.outbox.doc b.eventId).eventType := by
  have hkeep : ∀ u c, s.worker u = .busy c →
      c.record.eventType = (t.outbox.doc c.eventId).eventType := fun u c hc =>
    (hinv.record u c hc).trans (h.marked (hsinv.stored u c hc)).eventType.symm
  cases h with
  | advance _ | saved _ _ _ _ _ | requeued _ | claimLost _ _ _ => exact hkeep v b hb
  | @claimed w hw id _ _ startedAt hc =>
    by_cases hv : v = w
    · subst hv
      obtain rfl : Attempt.start bus id _ = b := by simpa [World.after] using hb
      simp [World.after, Attempt.start, claimPendingEvents, OutboxEvent.claimed]
    · exact hkeep v b (by simpa [World.after, hv] using hb)
  | @outcome w a a' o es hw ho =>
    by_cases hv : v = w
    · subst hv
      obtain rfl : a' = b := by simpa [World.after] using hb
      rw [ho.attempt.1, ho.attempt.2]
      exact hkeep v a hw
    · exact hkeep v b (by simpa [World.after, hv] using hb)
  | @left w x hx =>
    by_cases hv : v = w
    · subst hv
      exact absurd (by simpa using hb) (hx b)
    · exact hkeep v b (by simpa [hv] using hb)

/-- The keys of an attempt that has passed all handlers cover them. -/
theorem Progress.all {journal : List Entry} {a : Attempt} (h : Progress bus journal a)
    (hp : a.phase = .looping []) :
    ∀ g ∈ getRegisteredHandlers bus a.record.eventType, g.key ∈ a.processedHandlers := by
  simp only [Progress, hp, List.append_nil] at h
  obtain ⟨done, hl, hd⟩ := h
  rwa [hl]

/-- Every step keeps the handler invariant. -/
theorem Stepped.handlerInv {s t : World} (hsinv : Inv cfg s) (hinv : HandlerInv bus s)
    (h : Stepped cfg bus s t) : HandlerInv bus t := by
  obtain ⟨es, hj, hcalled⟩ := h.called
  have hold : ∀ i g, Entry.completed i g ∈ s.journal → Entry.completed i g ∈ t.journal :=
    fun i g hg => hj ▸ List.mem_append_left _ hg
  refine ⟨?_, ?_, ?_, fun v b hb => h.record hsinv hinv hb, fun v b hb => h.progress hinv hb⟩
  · intro i g hg
    have hs : i ∈ s.outbox.ids ∧ g ∈ getRegisteredHandlers bus (s.outbox.doc i).eventType := by
      rw [hj] at hg
      rcases List.mem_append.mp hg with hg | hg
      · exact hinv.subscribed i g hg
      · cases hcalled with
        | none | invoked _ _ _ => simp at hg
        | @completed w a g' rest hb hp =>
          obtain ⟨rfl, rfl⟩ : i = a.eventId ∧ g = g' := by simpa using hg
          have hpr := hinv.progress w a hb
          simp only [Progress, hp] at hpr
          obtain ⟨done, hl, _⟩ := hpr
          refine ⟨hsinv.stored w a hb, ?_⟩
          rw [← hinv.record w a hb, hl]
          simp
    obtain ⟨hi, hg'⟩ := hs
    exact ⟨(h.touch hsinv hi).1, (h.marked hi).eventType ▸ hg'⟩
  · intro i hi k hk
    by_cases hs : i ∈ s.outbox.ids
    · have hm := h.marked hs
      generalize t.outbox.doc i = e at hm hk
      cases hm with
      | kept hkept =>
        obtain ⟨g, hg, hgk⟩ := hinv.checkpoints i hs k (hkept.processedHandlers ▸ hk)
        exact ⟨g, hold i g hg, hgk⟩
      | @checkpoint w a g rest hb hid hp =>
        rcases (mem_addHandler _ _ _).mp hk with hk | rfl
        · obtain ⟨g, hg, hgk⟩ := hinv.checkpoints i hs k hk
          exact ⟨g, hold i g hg, hgk⟩
        · have hpr := hinv.progress w a hb
          simp only [Progress, hp] at hpr
          exact ⟨g, hold i g (hid ▸ hpr.2), rfl⟩
      | complete _ _ _ _ _ =>
        obtain ⟨g, hg, hgk⟩ := hinv.checkpoints i hs k hk
        exact ⟨g, hold i g hg, hgk⟩
    · obtain ⟨_, _, _, _, hd⟩ := h.appears hi hs
      simp [hd, newEvent] at hk
  · intro i hi hp g hg
    by_cases hs : i ∈ s.outbox.ids
    · have hm := h.marked hs
      rw [hm.eventType] at hg
      generalize t.outbox.doc i = e at hm hp hg ⊢
      cases hm with
      | kept hkept =>
        rw [hkept.processedHandlers]
        exact hinv.acknowledged i hs (hkept.processed ▸ hp) g hg
      | checkpoint _ _ _ =>
        exact (mem_addHandler _ _ _).mpr (Or.inl (hinv.acknowledged i hs hp g hg))
      | @complete w a hb hid hph ho _ =>
        subst hid
        -- The owner's local set is the stored one, and it covers the whole list.
        have hc := (hsinv.current w a hb ho).handlers (by simp [hph, Phase.ended])
        rw [← hinv.record w a hb] at hg
        exact (hc g.key).mpr ((hinv.progress w a hb).all hph g hg)
    · obtain ⟨_, _, _, _, hd⟩ := h.appears hi hs
      simp [hd, newEvent] at hp

private theorem initial_handlerInv (clock : Int) : HandlerInv bus (World.initial clock) := by
  refine ⟨?_, ?_, ?_, ?_, ?_⟩ <;> simp [World.initial, Collection.empty]

/-- The handler invariant holds along every run. -/
theorem Runs.handlerInv {clock : Int} {s : World} {as : List Action}
    (h : Runs cfg bus (.initial clock) as s) : HandlerInv bus s :=
  (Run.invariant (I := fun s => Inv cfg s ∧ HandlerInv bus s)
    (fun _ _ _ hi hstep => ⟨(step_cases hstep).inv hi.1,
      (step_cases hstep).handlerInv hi.1 hi.2⟩) h
    ⟨initial_inv clock, initial_handlerInv clock⟩).2

/-- Only a step of an attempt starts a call, and it starts the next handler of its list. -/
theorem invoked_cases {s t : World} {act : Action} {i : EventId} {h : RegisteredEventHandler}
    (hstep : s.step cfg bus act = some t) (hj : t.journal = s.journal ++ [.invoked i h]) :
    ∃ w x a rest, act = .attempt w x ∧ s.worker w = .busy a ∧ a.eventId = i ∧
      a.phase = .looping (h :: rest) ∧ h.key ∉ a.processedHandlers := by
  have hsame : t.journal ≠ s.journal := by simp [hj]
  cases act with
  | advance _ | requeueExhaustedEvent _ | crash _ =>
    obtain rfl := Option.some.inj hstep
    exact absurd rfl hsame
  | saveEvent _ _ _ _ _ =>
    simp only [World.step] at hstep
    split at hstep
    · obtain rfl := Option.some.inj hstep
      exact absurd rfl hsame
    · cases hstep
  | claim w id times lost =>
    simp only [World.step, World.claim] at hstep
    split at hstep
    · split at hstep
      · cases lost <;>
        · obtain rfl := Option.some.inj hstep
          exact absurd rfl hsame
      · cases hstep
    · cases hstep
  | attempt w x =>
    simp only [World.step] at hstep
    split at hstep
    · next a hb =>
      split at hstep
      · rcases attemptStep_cases hb hstep with ⟨o, a', es, ho, rfl⟩ | ⟨_, rfl⟩
        · obtain rfl : es = [.invoked i h] := List.append_cancel_left hj
          cases ho with
          | @invoke _ rest hp hk => exact ⟨w, x, a, rest, rfl, hb, rfl, hp, hk⟩
        · exact absurd rfl hsame
      · cases hstep
    · cases hstep

/-- What the handler loop promises of a state. -/
structure HandlerDelivery (cfg : OutboxConfig) (bus : EventBus) (s : World) : Prop where
  /-- An acknowledged event has run to completion every subscribed handler that shares its key
  with no other one. -/
  completed : ∀ i ∈ s.outbox.ids, (s.outbox.doc i).processed = true →
    ∀ h ∈ getRegisteredHandlers bus (s.outbox.doc i).eventType,
      (∀ g ∈ getRegisteredHandlers bus (s.outbox.doc i).eventType, g.key = h.key → g = h) →
      .completed i h ∈ s.journal
  /-- A handler whose checkpoint is stored is called only by a worker that is not the
  recorded owner. -/
  invoked : ∀ act t i h, s.step cfg bus act = some t → t.journal = s.journal ++ [.invoked i h] →
    h.key ∈ (s.outbox.doc i).processedHandlers →
    ∃ w x, act = .attempt w x ∧ (s.outbox.doc i).processingOwner ≠ .value w.value

/-- Every run keeps the promises of the handler loop. -/
theorem outbox_handlerDelivery (cfg : OutboxConfig) (bus : EventBus) (clock : Int)
    {as : List Action} {s : World} (h : Runs cfg bus (.initial clock) as s) :
    HandlerDelivery cfg bus s := by
  have hinv := h.inv (initial_inv clock)
  have hhinv := h.handlerInv
  refine ⟨?_, ?_⟩
  · intro i hi hp g hg halone
    -- The checkpoint of its key was written by a completed handler with that key.
    obtain ⟨g', hc, hk⟩ := hhinv.checkpoints i hi g.key (hhinv.acknowledged i hi hp g hg)
    obtain rfl := halone g' (hhinv.subscribed i g' hc).2 hk
    exact hc
  · intro act t i g hstep hj hk
    obtain ⟨w, x, a, rest, rfl, hb, rfl, hph, hnk⟩ := invoked_cases hstep hj
    refine ⟨w, x, rfl, fun ho => hnk ?_⟩
    exact ((hinv.current w a hb ho).handlers (by simp [hph, Phase.ended]) g.key).mp hk

/-- The promises hold after a take-over, where the second worker has acknowledged the event. -/
theorem outbox_handlerDelivery_takeover : ∃ s : World,
    HandlerDelivery .default (testBus [testHandler 0]) s ∧ (s.outbox.doc 0).processed = true := by
  have h : (exec (fun s act => World.step .default (testBus [testHandler 0]) s act) (.initial 0)
      takeover).map (fun s => (s.outbox.doc 0).processed) = some true := by decide
  obtain ⟨s, hs, hp⟩ := Option.map_eq_some_iff.mp h
  exact ⟨s, outbox_handlerDelivery .default _ 0 (exec_run hs), hp⟩

/-- An event with two handlers of one class, where the first handler runs. -/
def collision : List Action :=
  let w := firstWorker
  [.saveEvent 0 "TestEvent" ⟨none, "test"⟩ "trace" 0,
   .claim w 0 ⟨0, 0, 0⟩ false, .attempt w .nextHandler, .attempt w .handlerReturns,
   .attempt w (.checkpoint .answered), .attempt w .nextHandler,
   .attempt w (.complete 0 .answered)]

/-- A worker that claims an event and does nothing until a second worker has taken the
event over and has checkpointed its handler. -/
def overtaken : List Action :=
  let w := firstWorker
  let v := secondWorker
  [.saveEvent 0 "TestEvent" ⟨none, "test"⟩ "trace" 0,
   .claim w 0 ⟨0, 0, 0⟩ false, .advance 60001,
   .claim v 0 ⟨60001, 60001, 60001⟩ false, .attempt v .nextHandler, .attempt v .handlerReturns,
   .attempt v (.checkpoint .answered)]

/-- Handlers of one class share a key, so the second one is never run and the event is
acknowledged all the same; and an overtaken worker calls a handler again after its
checkpoint was stored. -/
theorem outbox_handlers_incomplete :
    (∃ as s, Runs .default (testBus [testHandler 0, testHandler 1]) (.initial 0) as s ∧
      (s.outbox.doc 0).processed = true ∧
      .completed 0 ⟨"TestEventHandler", testHandler 1⟩ ∉ s.journal ∧
      ⟨"TestEventHandler", testHandler 1⟩ ∈
        getRegisteredHandlers (testBus [testHandler 0, testHandler 1]) "TestEvent") ∧
    ∃ as s w t, Runs .default (testBus [testHandler 0]) (.initial 0) as s ∧
      "TestEventHandler" ∈ (s.outbox.doc 0).processedHandlers ∧
      s.step .default (testBus [testHandler 0]) (.attempt w .nextHandler) = some t ∧
      t.journal = s.journal ++ [.invoked 0 ⟨"TestEventHandler", testHandler 0⟩] := by
  constructor
  · have h : (exec (fun s act => World.step .default (testBus [testHandler 0, testHandler 1]) s act)
        (.initial 0) collision).map (fun s => ((s.outbox.doc 0).processed,
          decide (Entry.completed 0 ⟨"TestEventHandler", testHandler 1⟩ ∈ s.journal))) =
        some (true, false) := by decide
    obtain ⟨s, hs, he⟩ := Option.map_eq_some_iff.mp h
    obtain ⟨hp, hc⟩ := Prod.mk.inj he
    exact ⟨collision, s, exec_run hs, hp, of_decide_eq_false hc, by decide⟩
  · have h : (exec (fun s act => World.step .default (testBus [testHandler 0]) s act)
        (.initial 0) overtaken).bind (fun s => (World.step .default (testBus [testHandler 0]) s
          (.attempt firstWorker .nextHandler)).map fun t =>
        (decide ("TestEventHandler" ∈ (s.outbox.doc 0).processedHandlers),
          decide (t.journal = s.journal ++
            [.invoked 0 ⟨"TestEventHandler", testHandler 0⟩]))) = some (true, true) := by decide
    obtain ⟨s, hs, he⟩ := Option.bind_eq_some_iff.mp h
    obtain ⟨t, ht, he⟩ := Option.map_eq_some_iff.mp he
    obtain ⟨hk, hj⟩ := Prod.mk.inj he
    exact ⟨overtaken, s, _, t, exec_run hs, of_decide_eq_true hk, ht, of_decide_eq_true hj⟩

end Ascendance.Outbox
