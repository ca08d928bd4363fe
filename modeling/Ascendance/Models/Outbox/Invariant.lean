import Ascendance.Models.Outbox.Lifecycle

/-!
# The outbox invariant

A stored record is sound: its flags, owner, schedule and retry count fit
together. A worker that is still the recorded owner of the record it works on has
a current view of it: the retry count it read at the claim is the stored one, and
its local handler set is the stored one. Nothing is said about a worker that has
lost its record, and the owner filter is what makes that enough.
-/

namespace Ascendance.Outbox

open Ascendance.Core

/-- The fields of a stored record fit together. -/
structure Sound (cfg : OutboxConfig) (e : OutboxEvent) : Prop where
  /-- An event is being processed exactly while it has an owner and a start. -/
  owner : (e.processing = true ∧ (∃ w, e.processingOwner = .value w) ∧
      ∃ d, e.processingStartedAt = .value d) ∨
    (e.processing = false ∧ e.processingOwner = .missing ∧ e.processingStartedAt = .missing)
  /-- A processed event has neither owner nor schedule. -/
  processed : e.processed = true →
    e.processing = false ∧ e.nextAttemptAt = .missing ∧ e.exhaustedAt = .missing
  /-- The retry count stays within the limit. -/
  retries : e.processed = false → e.retries ≤ cfg.maxRetries
  /-- The exhaustion date is present exactly at the limit, and then nothing else is. -/
  exhausted : e.processed = false →
    (e.retries = cfg.maxRetries ∧ (∃ d, e.exhaustedAt = .value d) ∧ e.nextAttemptAt = .missing ∧
      e.processing = false) ∨
    (e.retries < cfg.maxRetries ∧ e.exhaustedAt = .missing ∧ e.nextAttemptAt ≠ .null)

/-- A worker's view of a record it still owns. -/
structure Current (a : Attempt) (e : OutboxEvent) : Prop where
  processed : e.processed = false
  retries : e.retries = a.record.retries
  handlers : a.phase.ended = false → ∀ k, k ∈ e.processedHandlers ↔ k ∈ a.processedHandlers

/-- The invariant of the whole system. -/
structure Inv (cfg : OutboxConfig) (s : World) : Prop where
  sound : ∀ i ∈ s.outbox.ids, Sound cfg (s.outbox.doc i)
  stored : ∀ w a, s.worker w = .busy a → a.eventId ∈ s.outbox.ids
  current : ∀ w a, s.worker w = .busy a →
    (s.outbox.doc a.eventId).processingOwner = .value w.value → Current a (s.outbox.doc a.eventId)

variable {cfg : OutboxConfig} {bus : EventBus} {e : OutboxEvent}

/-- A new record is sound. -/
private theorem newEvent_sound (eventType : String) (payload : EventPayload) (traceId : String)
    (createdAt : Int) : Sound cfg (newEvent eventType payload traceId createdAt) where
  owner := Or.inr ⟨rfl, rfl, rfl⟩
  processed := by simp [newEvent]
  retries := by simp [newEvent]
  exhausted := fun _ => Or.inr ⟨cfg.maxRetries_pos, rfl, by simp [newEvent]⟩

/-- A record with an owner is unprocessed and below the limit. -/
theorem Sound.owned (h : Sound cfg e) {w : String} (ho : e.processingOwner = .value w) :
    e.processing = true ∧ e.processed = false ∧ e.retries < cfg.maxRetries ∧
      e.exhaustedAt = .missing := by
  rcases h.owner with ⟨hp, _, _⟩ | ⟨_, hm, _⟩
  · have hn : e.processed = false := by
      cases hd : e.processed with
      | false => rfl
      | true => exact absurd ((h.processed hd).1.symm.trans hp) (by decide)
    rcases h.exhausted hn with ⟨_, _, _, hq⟩ | ⟨hr, hx, _⟩
    · exact absurd (hq.symm.trans hp) (by decide)
    · exact ⟨hp, hn, hr, hx⟩
  · exact absurd (hm.symm.trans ho) (by simp)

/-- A record that may be claimed is pending. -/
private theorem claimFilter_pending {now staleBefore : Int}
    (hf : claimFilter cfg.maxRetries now staleBefore e = true) :
    e.processed = false ∧ e.retries < cfg.maxRetries ∧ e.exhaustedAt = .missing := by
  simp only [claimFilter, pendingFilter, Bool.and_eq_true, Bool.not_eq_true',
    decide_eq_true_eq] at hf
  obtain ⟨⟨⟨⟨hp, hr⟩, hx⟩, _⟩, _⟩ := hf
  refine ⟨hp, hr, ?_⟩
  cases he : e.exhaustedAt with
  | missing => rfl
  | null | value _ => simp [he, DocField.isPresent] at hx

/-- A claimed record is sound. -/
private theorem claimed_sound (h : Sound cfg e) (w : String) (startedAt : Int)
    {now staleBefore : Int}
    (hf : claimFilter cfg.maxRetries now staleBefore e = true) :
    Sound cfg (e.claimed w startedAt) := by
  obtain ⟨hp, hr, hx⟩ := claimFilter_pending hf
  refine ⟨Or.inl ⟨rfl, ⟨w, rfl⟩, ⟨startedAt, rfl⟩⟩, ?_, fun _ => hr.le,
    fun _ => Or.inr ⟨hr, hx, ?_⟩⟩
  · intro hd
    exact absurd (hp.symm.trans hd) (by decide)
  · rcases h.exhausted hp with ⟨he, _⟩ | ⟨_, _, hn⟩
    · omega
    · exact hn

private theorem addHandler_sound (h : Sound cfg e) (key : String) : Sound cfg (e.addHandler key) :=
  ⟨h.owner, h.processed, h.retries, h.exhausted⟩

/-- A finished record is sound. -/
private theorem finished_sound (processedAt : Int) : Sound cfg (e.finished processedAt) where
  owner := Or.inr ⟨rfl, rfl, rfl⟩
  processed := fun _ => ⟨rfl, rfl, rfl⟩
  retries := by simp [OutboxEvent.finished]
  exhausted := by simp [OutboxEvent.finished]

/-- The worker's schedule fits the stored record because both count the same retries. -/
theorem failed_sound (h : Sound cfg e) {w : String} (ho : e.processingOwner = .value w)
    (message : String) (failureTime : Int) (random : ℚ) :
    Sound cfg (e.failed message (failureState cfg e.retries failureTime random)) := by
  obtain ⟨_, hp, hr, hx⟩ := h.owned ho
  unfold OutboxEvent.failed failureState
  by_cases hl : cfg.maxRetries ≤ e.retries + 1
  · simp only [if_pos hl]
    refine ⟨Or.inr ⟨rfl, rfl, rfl⟩, ?_, fun _ => hr, fun _ => Or.inl ⟨?_, ⟨_, rfl⟩, rfl, rfl⟩⟩
    · intro hd
      exact absurd (hp.symm.trans hd) (by decide)
    · exact le_antisymm hr hl
  · simp only [if_neg hl]
    refine ⟨Or.inr ⟨rfl, rfl, rfl⟩, ?_, fun _ => hr, fun _ => Or.inr ⟨?_, rfl, by simp⟩⟩
    · intro hd
      exact absurd (hp.symm.trans hd) (by decide)
    · exact not_le.mp hl

/-- A renewed record is sound. -/
private theorem renewed_sound (h : Sound cfg e) {w : String} (hf : renewFilter w e = true)
    (startedAt : Int) : Sound cfg (e.renewed startedAt) := by
  obtain ⟨ho, hp, _⟩ := (renewFilter_iff _ _).mp hf
  exact ⟨Or.inl ⟨hp, ⟨w, ho⟩, ⟨startedAt, rfl⟩⟩, h.processed, h.retries, h.exhausted⟩

private theorem requeued_sound (hf : requeueFilter cfg.maxRetries e = true) :
    Sound cfg e.requeued := by
  simp only [requeueFilter, Bool.and_eq_true, Bool.not_eq_true'] at hf
  refine ⟨Or.inr ⟨rfl, rfl, rfl⟩, ?_, fun _ => Nat.zero_le _,
    fun _ => Or.inr ⟨cfg.maxRetries_pos, rfl, by simp [OutboxEvent.requeued]⟩⟩
  intro hd
  exact absurd (hf.1.1.symm.trans hd) (by decide)

/-- Every touch keeps a record sound. -/
theorem Touch.sound {actor : Option WorkerId} {e' : OutboxEvent} (h : Touch cfg e actor e')
    (hs : Sound cfg e) : Sound cfg e' := by
  cases h with
  | claim w startedAt hf => exact claimed_sound hs _ _ hf
  | checkpoint w key _ => exact addHandler_sound hs key
  | complete w processedAt _ => exact finished_sound processedAt
  | fail w message failureTime random ho => exact failed_sound hs ho message failureTime random
  | renew w startedAt hf => exact renewed_sound hs hf startedAt
  | requeue hf => exact requeued_sound hf

/-- An update under a filter either leaves a record alone or applies to it. -/
theorem doc_updateOne (o : Store) (i j : EventId) (p : OutboxEvent → Bool)
    (f : OutboxEvent → OutboxEvent) :
    (o.updateOne i p f).doc j = o.doc j ∨
      (j = i ∧ p (o.doc i) = true ∧ (o.updateOne i p f).doc j = f (o.doc i)) := by
  by_cases hm : o.Matches i p
  · rw [Collection.updateOne_of_matches f hm]
    by_cases hj : j = i
    · subst hj
      exact Or.inr ⟨rfl, hm.2, Collection.doc_modify_self o j f⟩
    · exact Or.inl (Collection.doc_modify_ne o f hj)
  · rw [Collection.updateOne_of_not_matches f hm]
    exact Or.inl rfl

/-- An owned write touches its record under the owner's name. -/
theorem OwnedWrite.touch {w : WorkerId} {a : Attempt} {p : OutboxEvent → Bool}
    {f : OutboxEvent → OutboxEvent} (h : OwnedWrite cfg w a p f) (hp : p e = true)
    (hr : e.processingOwner = .value w.value → e.retries = a.record.retries) :
    Touch cfg e (some w) (f e) := by
  cases h with
  | checkpoint _ => exact .checkpoint w _ ((buildOwnedFilter_worker w e).mp hp)
  | complete _ processedAt => exact .complete w processedAt ((buildOwnedFilter_worker w e).mp hp)
  | fail _ failureTime random =>
    have ho := (buildOwnedFilter_worker w e).mp hp
    rw [← hr ho]
    exact .fail w _ failureTime random ho

/-- An outcome touches no record but its own, and that one under the worker's name. -/
theorem Outcome.touch {s : World} (hinv : Inv cfg s) {w : WorkerId} {a a' : Attempt} {o : Store}
    {es : List Entry} (hb : s.worker w = .busy a) (h : Outcome cfg s w a o a' es) (i : EventId) :
    o.doc i = s.outbox.doc i ∨
      (i = a.eventId ∧ Touch cfg (s.outbox.doc i) (some w) (o.doc i)) := by
  have hr := fun ho => (hinv.current w a hb ho).retries
  cases h with
  | skip _ _ | invoke _ _ | returns _ | ends _ _ | renewalFails _ => exact Or.inl rfl
  | @checkpointed g rest _ hm =>
    by_cases hi : i = a.eventId
    · subst hi
      right
      refine ⟨rfl, ?_⟩
      rw [Collection.doc_modify_self]
      exact .checkpoint w _ ((buildOwnedFilter_worker w _).mp hm.2)
    · exact Or.inl (Collection.doc_modify_ne _ _ hi)
  | @writes p f hw phase _ =>
    rcases doc_updateOne s.outbox a.eventId i p f with hd | ⟨rfl, hp, hd⟩
    · exact Or.inl hd
    · rw [hd]
      exact Or.inr ⟨rfl, hw.touch hp hr⟩
  | renews startedAt _ =>
    rcases doc_updateOne s.outbox a.eventId i (renewFilter w.value) (.renewed startedAt) with
      hd | ⟨rfl, hp, hd⟩
    · exact Or.inl hd
    · rw [hd]
      exact Or.inr ⟨rfl, .renew w startedAt hp⟩

/-- An outcome keeps the stored ids. -/
theorem Outcome.ids {s : World} {w : WorkerId} {a a' : Attempt} {o : Store} {es : List Entry}
    (h : Outcome cfg s w a o a' es) : o.ids = s.outbox.ids := by
  cases h <;> simp

/-- An outcome keeps the record an attempt works on and what it read of it. -/
theorem Outcome.attempt {s : World} {w : WorkerId} {a a' : Attempt} {o : Store} {es : List Entry}
    (h : Outcome cfg s w a o a' es) : a'.eventId = a.eventId ∧ a'.record = a.record := by
  cases h <;> exact ⟨rfl, rfl⟩

/-- A worker that is the owner after its own step has a current view. -/
theorem Outcome.current {s : World} (hinv : Inv cfg s) {w : WorkerId} {a a' : Attempt} {o : Store}
    {es : List Entry} (hb : s.worker w = .busy a) (h : Outcome cfg s w a o a' es)
    (ho : (o.doc a.eventId).processingOwner = .value w.value) : Current a' (o.doc a.eventId) := by
  have hc := hinv.current w a hb
  cases h with
  | skip hp _ | invoke hp _ | returns hp =>
    have hc := hc ho
    exact ⟨hc.processed, hc.retries, fun _ => hc.handlers (by simp [hp, Phase.ended])⟩
  | ends _ he =>
    have hc := hc ho
    exact ⟨hc.processed, hc.retries, fun hn => absurd (he.symm.trans hn) (by decide)⟩
  | renewalFails _ =>
    have hc := hc ho
    exact ⟨hc.processed, hc.retries, hc.handlers⟩
  | @checkpointed g rest hp hm =>
    have hc := hc ((buildOwnedFilter_worker w _).mp hm.2)
    rw [Collection.doc_modify_self]
    refine ⟨hc.processed, hc.retries, fun _ k => ?_⟩
    rw [mem_addHandler, hc.handlers (by simp [hp, Phase.ended]), List.mem_append,
      List.mem_singleton]
  | @writes p f hw phase he =>
    have hv : phase.ended = false → False := fun hn => absurd (he.symm.trans hn) (by decide)
    rcases doc_updateOne s.outbox a.eventId a.eventId p f with hd | ⟨_, hp, hd⟩
    · rw [hd] at ho ⊢
      have hc := hc ho
      exact ⟨hc.processed, hc.retries, fun hn => (hv hn).elim⟩
    · rw [hd] at ho ⊢
      cases hw with
      | checkpoint _ =>
        have hc := hc ho
        exact ⟨hc.processed, hc.retries, fun hn => (hv hn).elim⟩
      | complete _ _ => simp [OutboxEvent.finished] at ho
      | fail _ _ _ => simp at ho
  | renews startedAt failure =>
    rcases doc_updateOne s.outbox a.eventId a.eventId (renewFilter w.value)
      (.renewed startedAt) with hd | ⟨_, hp, hd⟩
    · rw [hd] at ho ⊢
      have hc := hc ho
      exact ⟨hc.processed, hc.retries, hc.handlers⟩
    · rw [hd]
      have hc := hc ((renewFilter_iff _ _).mp hp).1
      exact ⟨hc.processed, hc.retries, hc.handlers⟩

/-- A claim touches its record under the worker's name. -/
private theorem claim_touch {s : World} {id : EventId} (w : WorkerId) {now staleBefore : Int}
    (startedAt : Int) (hc : Claimable s.outbox cfg.maxRetries now staleBefore id) (i : EventId) :
    (claimPendingEvents s.outbox id w.value startedAt).doc i = s.outbox.doc i ∨
      Touch cfg (s.outbox.doc i) (some w)
        ((claimPendingEvents s.outbox id w.value startedAt).doc i) := by
  unfold claimPendingEvents
  by_cases hi : i = id
  · subst hi
    rw [Collection.doc_modify_self]
    exact Or.inr (.claim w startedAt hc.1.2)
  · exact Or.inl (Collection.doc_modify_ne _ _ hi)

/-- One step of the system never removes a record, and it leaves a stored record
alone or touches it. -/
theorem Stepped.touch {s t : World} (hinv : Inv cfg s) (h : Stepped cfg bus s t) {i : EventId}
    (hi : i ∈ s.outbox.ids) : i ∈ t.outbox.ids ∧ (t.outbox.doc i = s.outbox.doc i ∨
      ∃ actor, Touch cfg (s.outbox.doc i) actor (t.outbox.doc i)) := by
  cases h with
  | advance _ | left _ _ => exact ⟨hi, Or.inl rfl⟩
  | @saved id hid _ _ _ _ =>
    have hne : i ≠ id := fun he => hid (he ▸ hi)
    exact ⟨Finset.mem_insert_of_mem hi, Or.inl (by simp [saveEvent, Collection.insertOne, hne])⟩
  | requeued id =>
    refine ⟨by simpa using hi, ?_⟩
    rcases doc_updateOne s.outbox id i (requeueFilter cfg.maxRetries) .requeued with
      hd | ⟨rfl, hp, hd⟩
    · exact Or.inl hd
    · exact Or.inr ⟨none, hd.symm ▸ .requeue hp⟩
  | claimLost _ startedAt hc =>
    exact ⟨hi, (claim_touch _ startedAt hc i).imp id fun ht => ⟨_, ht⟩⟩
  | claimed _ startedAt hc =>
    exact ⟨hi, (claim_touch _ startedAt hc i).imp id fun ht => ⟨_, ht⟩⟩
  | outcome hb ho =>
    refine ⟨by simpa [World.after, ho.ids] using hi, ?_⟩
    exact (ho.touch hinv hb i).imp id fun ht => ⟨_, ht.2⟩

/-- A record that appears is a new event. -/
theorem Stepped.appears {s t : World} (h : Stepped cfg bus s t) {i : EventId}
    (hi : i ∈ t.outbox.ids) (hn : i ∉ s.outbox.ids) :
    ∃ eventType payload traceId createdAt,
      t.outbox.doc i = newEvent eventType payload traceId createdAt := by
  cases h with
  | advance _ | left _ _ => exact absurd hi hn
  | @saved id _ eventType payload traceId createdAt =>
    have he : i = id := (Finset.mem_insert.mp hi).resolve_right hn
    subst he
    exact ⟨eventType, payload, traceId, createdAt, by simp [saveEvent, Collection.insertOne]⟩
  | requeued id => exact absurd (by simpa using hi) hn
  | claimLost _ _ _ | claimed _ _ _ => exact absurd hi hn
  | outcome _ ho => exact absurd (by simpa [World.after, ho.ids] using hi) hn

/-- A worker that did not move keeps its current view: another worker's touch
takes the ownership away. -/
private theorem current_frame (actor : Option WorkerId) {s : World} (hinv : Inv cfg s) {o : Store}
    {v : WorkerId} {b : Attempt} (hb : s.worker v = .busy b) (hne : actor ≠ some v)
    (hd : o.doc b.eventId = s.outbox.doc b.eventId ∨
      Touch cfg (s.outbox.doc b.eventId) actor (o.doc b.eventId))
    (ho : (o.doc b.eventId).processingOwner = .value v.value) :
    Current b (o.doc b.eventId) := by
  rcases hd with hd | hd
  · rw [hd] at ho ⊢
    exact hinv.current v b hb ho
  · exact absurd (hd.owner ho) hne

/-- Every step keeps the invariant. -/
theorem Stepped.inv {s t : World} (hinv : Inv cfg s) (h : Stepped cfg bus s t) : Inv cfg t := by
  have hsound : ∀ i ∈ t.outbox.ids, Sound cfg (t.outbox.doc i) := by
    intro i hi
    by_cases hs : i ∈ s.outbox.ids
    · rcases (h.touch hinv hs).2 with hd | ⟨_, hd⟩
      · rw [hd]
        exact hinv.sound i hs
      · exact hd.sound (hinv.sound i hs)
    · obtain ⟨_, _, _, _, hd⟩ := h.appears hi hs
      rw [hd]
      exact newEvent_sound ..
  refine ⟨hsound, ?_, ?_⟩
  · intro v b hb
    cases h with
    | advance _ => exact hinv.stored v b hb
    | saved _ _ _ _ _ => exact Finset.mem_insert_of_mem (hinv.stored v b hb)
    | requeued id => simpa using hinv.stored v b hb
    | claimLost _ _ _ => exact hinv.stored v b hb
    | @claimed w hw id _ _ startedAt hc =>
      by_cases hv : v = w
      · subst hv
        obtain rfl : Attempt.start bus id _ = b := by simpa [World.after] using hb
        exact hc.1.1
      · exact hinv.stored v b (by simpa [World.after, hv] using hb)
    | @outcome w a a' o es hw ho =>
      by_cases hv : v = w
      · subst hv
        obtain rfl : a' = b := by simpa [World.after] using hb
        simpa [World.after, ho.ids, ho.attempt.1] using hinv.stored v a hw
      · simpa [World.after, ho.ids] using
          hinv.stored v b (by simpa [World.after, hv] using hb)
    | @left w x hx =>
      by_cases hv : v = w
      · subst hv
        exact absurd (by simpa using hb) (hx b)
      · exact hinv.stored v b (by simpa [hv] using hb)
  · intro v b hb ho
    cases h with
    | advance _ => exact hinv.current v b hb ho
    | @saved id hid _ _ _ _ =>
      have hne : b.eventId ≠ id := fun he => hid (he ▸ hinv.stored v b hb)
      exact current_frame none hinv hb (by simp)
        (Or.inl (by simp [saveEvent, Collection.insertOne, hne])) ho
    | requeued id =>
      refine current_frame none hinv hb (by simp) ?_ ho
      rcases doc_updateOne s.outbox id b.eventId (requeueFilter cfg.maxRetries) .requeued with
        hd | ⟨rfl, hp, hd⟩
      · exact Or.inl hd
      · exact Or.inr (hd.symm ▸ .requeue hp)
    | @claimLost w hw id _ _ startedAt hc =>
      have hne : some w ≠ some v := by
        rintro ⟨⟩
        simp [hw] at hb
      exact current_frame (some w) hinv hb hne (claim_touch w startedAt hc b.eventId) ho
    | @claimed w hw id _ _ startedAt hc =>
      by_cases hv : v = w
      · subst hv
        obtain rfl : Attempt.start bus id _ = b := by simpa [World.after] using hb
        have hp := (claimFilter_pending hc.1.2).1
        simp only [World.after, Attempt.start, claimPendingEvents, Collection.doc_modify_self]
        exact ⟨hp, rfl, fun _ _ => Iff.rfl⟩
      · exact current_frame (some w) hinv (by simpa [World.after, hv] using hb)
          (fun he => hv (Option.some.inj he).symm) (claim_touch w startedAt hc b.eventId) ho
    | @outcome w a a' o es hw hout =>
      by_cases hv : v = w
      · subst hv
        obtain rfl : a' = b := by simpa [World.after] using hb
        simp only [World.after, hout.attempt.1] at ho ⊢
        exact hout.current hinv hw ho
      · exact current_frame (some w) hinv (by simpa [World.after, hv] using hb)
          (fun he => hv (Option.some.inj he).symm)
          ((hout.touch hinv hw b.eventId).imp id And.right) ho
    | @left w x hx =>
      by_cases hv : v = w
      · subst hv
        exact absurd (by simpa using hb) (hx b)
      · exact hinv.current v b (by simpa [hv] using hb) ho

/-- The runs of the system. -/
abbrev Runs (cfg : OutboxConfig) (bus : EventBus) : World → List Action → World → Prop :=
  Run (Graph fun s act => World.step cfg bus s act)

/-- The invariant holds before anything has happened. -/
theorem initial_inv (clock : Int) : Inv cfg (World.initial clock) :=
  ⟨by simp [World.initial, Collection.empty], by simp [World.initial], by simp [World.initial]⟩

/-- The invariant holds along every run. -/
theorem Runs.inv {s t : World} {as : List Action} (h : Runs cfg bus s as t) (hs : Inv cfg s) :
    Inv cfg t :=
  Run.invariant (fun _ _ _ hi hstep => (step_cases hstep).inv hi) h hs

end Ascendance.Outbox
