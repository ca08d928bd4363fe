import Ascendance.Models.Outbox.Delivery

/-!
# Retry state

What a sound record says about retries and exhaustion, and what follows for the
backlog figures and for the requeue operation.
-/

namespace Ascendance.Outbox

open Ascendance.Core

variable {cfg : OutboxConfig} {bus : EventBus} {e : OutboxEvent}

/-- How the retry fields of an unprocessed record fit together. -/
structure RetryFields (cfg : OutboxConfig) (e : OutboxEvent) : Prop where
  retries_le : e.retries ≤ cfg.maxRetries
  exhausted_iff : e.exhaustedAt.isPresent = true ↔ e.retries = cfg.maxRetries
  not_both : ¬ (e.nextAttemptAt.isPresent = true ∧ e.exhaustedAt.isPresent = true)
  processing_iff : e.processing = true ↔ e.processingOwner.isPresent = true

/-- The retry fields of a sound record that is not processed fit together. -/
theorem Sound.retryFields (h : Sound cfg e) (hp : e.processed = false) : RetryFields cfg e := by
  have howner : e.processing = true ↔ e.processingOwner.isPresent = true := by
    rcases h.owner with ⟨ho, ⟨w, hw⟩, _⟩ | ⟨ho, hw, _⟩ <;> simp [ho, hw]
  rcases h.exhausted hp with ⟨hr, ⟨d, hd⟩, hn, _⟩ | ⟨hr, hx, _⟩
  · exact ⟨hr.le, by simp [hr, hd], by simp [hn], howner⟩
  · exact ⟨hr.le, by simp [hx, hr.ne], by simp [hx], howner⟩

/-- An unprocessed sound record is counted as pending exactly when it is not exhausted. -/
theorem Sound.backlogPending_iff (h : Sound cfg e) (hp : e.processed = false) :
    backlogPendingFilter cfg.maxRetries e = true ↔ e.exhaustedAt.isPresent = false := by
  rcases h.exhausted hp with ⟨hr, ⟨d, hd⟩, _⟩ | ⟨hr, hx, _⟩
  · simp [backlogPendingFilter, hd]
  · simp [backlogPendingFilter, hp, hr, hx]

/-- An unprocessed sound record is counted as exhausted exactly when it is. -/
theorem Sound.backlogExhausted_iff (h : Sound cfg e) (hp : e.processed = false) :
    backlogExhaustedFilter cfg.maxRetries e = true ↔ e.exhaustedAt.isPresent = true := by
  rcases h.exhausted hp with ⟨hr, ⟨d, hd⟩, _⟩ | ⟨hr, hx, _⟩
  · simp [backlogExhaustedFilter, hp, hd]
  · simp [backlogExhaustedFilter, hx, hr]

/-- On sound records the filter of the count and that of the aggregation agree. -/
theorem Sound.pendingFilter_eq (h : Sound cfg e) :
    pendingFilter cfg.maxRetries e = backlogPendingFilter cfg.maxRetries e := by
  cases hp : e.processed with
  | true => simp [pendingFilter, backlogPendingFilter, hp]
  | false =>
    rcases h.exhausted hp with ⟨hr, _⟩ | ⟨hr, hx, _⟩
    · simp [pendingFilter, backlogPendingFilter, hr]
    · simp [pendingFilter, backlogPendingFilter, hp, hr, hx]

/-- A sound record passes the requeue filter exactly when it is unprocessed and exhausted. -/
theorem Sound.requeueFilter_iff (h : Sound cfg e) :
    requeueFilter cfg.maxRetries e = true ↔
      e.processed = false ∧ e.exhaustedAt.isPresent = true := by
  cases hp : e.processed with
  | true => simp [requeueFilter, hp]
  | false =>
    rcases h.exhausted hp with ⟨hr, ⟨d, hd⟩, _, hq⟩ | ⟨hr, hx, _⟩
    · simp [requeueFilter, hp, hd, hq]
    · simp [requeueFilter, hx, hr]

/-- An exhausted record is changed by a requeue: its retry count drops. -/
theorem Sound.requeued_ne (h : Sound cfg e) (hf : requeueFilter cfg.maxRetries e = true) :
    e.requeued ≠ e := by
  obtain ⟨hp, hx⟩ := h.requeueFilter_iff.mp hf
  have hr := (h.retryFields hp).exhausted_iff.mp hx
  intro he
  have hz : 0 = e.retries := congrArg OutboxEvent.retries he
  have hpos := cfg.maxRetries_pos
  omega

/-- A requeued record passes the claim filter at any time. -/
theorem requeued_claimable (hp : e.processed = false) (now staleBefore : Int) :
    claimFilter cfg.maxRetries now staleBefore e.requeued = true := by
  simp [claimFilter, pendingFilter, dueFilter, unclaimedFilter, OutboxEvent.requeued, hp,
    cfg.maxRetries_pos]

/-- What the retry protocol promises of the stored records. -/
structure RetryState (cfg : OutboxConfig) (o : Store) : Prop where
  /-- The retry fields of every unprocessed record fit together. -/
  fields : ∀ i ∈ o.ids, (o.doc i).processed = false → RetryFields cfg (o.doc i)
  /-- An unprocessed record is counted on exactly one side of the backlog. -/
  backlog_split : ∀ i ∈ o.ids, (o.doc i).processed = false →
    (backlogPendingFilter cfg.maxRetries (o.doc i) = true ↔
      ¬ backlogExhaustedFilter cfg.maxRetries (o.doc i) = true)
  /-- Both counts add up to the number of unprocessed records. -/
  backlog_sum : (getBacklogStats o cfg.maxRetries).pendingCount +
    (getBacklogStats o cfg.maxRetries).exhaustedCount = o.countDocuments fun e => !e.processed
  /-- The exhausted count is the number of unprocessed records with an exhaustion date. -/
  backlog_exhausted : (getBacklogStats o cfg.maxRetries).exhaustedCount =
    o.countDocuments fun e => !e.processed && e.exhaustedAt.isPresent
  /-- Both ways of counting pending records agree. -/
  pending_count : (getBacklogStats o cfg.maxRetries).pendingCount =
    countPendingEvents o cfg.maxRetries
  /-- A requeue succeeds exactly on a stored, unprocessed and exhausted record. -/
  requeue_iff : ∀ i, (requeueExhaustedEvent o cfg.maxRetries i).2 = true ↔
    i ∈ o.ids ∧ (o.doc i).processed = false ∧ (o.doc i).exhaustedAt.isPresent = true
  /-- A record that was requeued matches the claim filter at any time. -/
  requeue_claimable : ∀ i, (requeueExhaustedEvent o cfg.maxRetries i).2 = true →
    ∀ now staleBefore, (requeueExhaustedEvent o cfg.maxRetries i).1.Matches i
      (claimFilter cfg.maxRetries now staleBefore)

/-- A requeue of a store of sound records succeeds exactly where its filter matches. -/
theorem requeueExhaustedEvent_iff {o : Store} (hs : ∀ i ∈ o.ids, Sound cfg (o.doc i))
    (i : EventId) : (requeueExhaustedEvent o cfg.maxRetries i).2 = true ↔
      o.Matches i (requeueFilter cfg.maxRetries) := by
  simp only [requeueExhaustedEvent, decide_eq_true_eq, Collection.modifiedCount_pos]
  exact ⟨And.left, fun hm => ⟨hm, (hs i hm.1).requeued_ne hm.2⟩⟩

/-- A store of sound records keeps the retry protocol. -/
theorem retryState_of_sound {o : Store} (hs : ∀ i ∈ o.ids, Sound cfg (o.doc i)) :
    RetryState cfg o := by
  refine ⟨fun i hi => (hs i hi).retryFields, ?_, ?_, ?_, ?_, ?_, ?_⟩
  · intro i hi hp
    rw [(hs i hi).backlogPending_iff hp, (hs i hi).backlogExhausted_iff hp, Bool.not_eq_true]
  · refine (Collection.countDocuments_split o _ _ _ ?_ ?_).symm
    · intro i hi
      cases hp : (o.doc i).processed with
      | true => simp [backlogPendingFilter, backlogExhaustedFilter, hp]
      | false =>
        rw [(hs i hi).backlogPending_iff hp, (hs i hi).backlogExhausted_iff hp]
        cases (o.doc i).exhaustedAt.isPresent <;> simp
    · rintro i hi ⟨hq, hr⟩
      have hp : (o.doc i).processed = false := by
        simp only [backlogPendingFilter, Bool.and_eq_true, Bool.not_eq_true'] at hq
        exact hq.1
      rw [(hs i hi).backlogPending_iff hp] at hq
      rw [(hs i hi).backlogExhausted_iff hp, hq] at hr
      exact absurd hr (by decide)
  · refine Collection.countDocuments_congr o fun i hi => ?_
    cases hp : (o.doc i).processed with
    | true => simp [backlogExhaustedFilter, hp]
    | false =>
      rw [Bool.eq_iff_iff, (hs i hi).backlogExhausted_iff hp]
      simp
  · exact Collection.countDocuments_congr o fun i hi => (hs i hi).pendingFilter_eq.symm
  · intro i
    rw [requeueExhaustedEvent_iff hs i]
    exact and_congr_right fun hi => (hs i hi).requeueFilter_iff
  · intro i hi now staleBefore
    have hm := (requeueExhaustedEvent_iff hs i).mp hi
    simp only [requeueExhaustedEvent, Collection.updateOne_of_matches _ hm]
    refine ⟨hm.1, ?_⟩
    rw [Collection.doc_modify_self]
    exact requeued_claimable ((hs i hm.1).requeueFilter_iff.mp hm.2).1 now staleBefore

/-- Every run of workers, failures, take-overs and requeues keeps the retry protocol. -/
theorem outbox_retryState (cfg : OutboxConfig) (bus : EventBus) (clock : Int)
    {as : List Action} {s : World} (h : Runs cfg bus (.initial clock) as s) :
    RetryState cfg s.outbox :=
  retryState_of_sound (h.inv (initial_inv clock)).sound

/-- Two events without handlers and one attempt at the first, with a single attempt allowed. -/
def exhaustion : List Action :=
  let w := firstWorker
  [.saveEvent 0 "TestEvent" ⟨none, "test"⟩ "trace" 0,
   .saveEvent 1 "TestEvent" ⟨none, "test"⟩ "trace" 0,
   .claim w 0 ⟨0, 0, 0⟩ false, .attempt w (.fail 0 0 .answered), .attempt w .release]

/-- The protocol holds where one event is exhausted and another is pending. -/
theorem outbox_retryState_exhaustion : ∃ s : World,
    RetryState (.ofEnv (.finite 1) .nan .nan .nan) s.outbox ∧
      (s.outbox.doc 0).exhaustedAt.isPresent = true := by
  have h : (exec (fun s act => World.step (.ofEnv (.finite 1) .nan .nan .nan) .empty s act)
      (.initial 0) exhaustion).map (fun s => (s.outbox.doc 0).exhaustedAt.isPresent) =
        some true := by decide
  obtain ⟨s, hs, hx⟩ := Option.map_eq_some_iff.mp h
  exact ⟨s, outbox_retryState _ .empty 0 (exec_run hs), hx⟩

end Ascendance.Outbox
