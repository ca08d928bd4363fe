import Ascendance.Models.UnitOfWork.Limits

/-!
# Accounting

Every permit is free or held by exactly one call, and the recorded outcomes are
those of the decided calls, along every run of any number of calls. A release is
two changes: the settled call gives its permit up, and a waiter may take it. The
invariant therefore allows for permits that are in no hand.
-/

namespace Ascendance.UnitOfWork

open Ascendance.Core

variable {β : Type}

/-- The call holds a permit. -/
def Stage.holds : Stage β → Bool
  | .granted => true
  | .active c => !c.isSettled
  | .nested | .nestedSettled | .waiting | .timedOut | .rejected => false

/-- The outcome of the call is recorded. -/
def Stage.decided : Stage β → Bool
  | .active c => c.isDecided
  | .rejected => true
  | .nested | .nestedSettled | .waiting | .timedOut | .granted => false

/-- The call made its own acquisition and has settled. -/
def Stage.settled : Stage β → Bool
  | .active c => c.isSettled
  | .rejected => true
  | .nested | .nestedSettled | .waiting | .timedOut | .granted => false

/-- The outcome is recorded and the session is still ending. -/
def Stage.closing : Stage β → Bool
  | .active c => c.isDecided && !c.isSettled
  | .nested | .nestedSettled | .waiting | .timedOut | .granted | .rejected => false

/-- The call is in the queue. -/
def Stage.queued : Stage β → Bool
  | .waiting => true
  | .nested | .nestedSettled | .timedOut | .granted | .active _ | .rejected => false

/-- The call of the ticket holds a permit. -/
def Ticket.holds (t : Ticket β) : Bool := t.stage.holds

/-- The outcome of the ticket's call is recorded. -/
def Ticket.decided (t : Ticket β) : Bool := t.stage.decided

private theorem Stage.queued_iff (s : Stage β) : s.queued = true ↔ s = .waiting := by
  cases s <;> simp [Stage.queued]

/-- A settled call is decided. -/
theorem Call.isDecided_of_isSettled {c : Call β} (h : c.isSettled = true) : c.isDecided = true := by
  unfold Call.isSettled at h
  unfold Call.isDecided
  split at h
  · next hp => rw [hp]
  · cases h

/-- A call that can take a step has not settled. -/
theorem not_isSettled_of_step {c : Call β} {x : Event β} {r : Call β × List Record}
    (hx : Call.Stepped c x r) : c.isSettled = false := by
  unfold Call.isSettled
  cases hx <;> simp [*]

/-- The counters of a ticket fit its stage, and an active call is within its limits. -/
def TicketOk (t : Ticket β) : Prop :=
  match t.stage with
  | .nested | .nestedSettled | .waiting | .timedOut | .rejected => t.acquired = 0 ∧ t.released = 0
  | .granted => t.acquired = 1 ∧ t.released = 0
  | .active c => t.acquired = 1 ∧ t.released = c.isSettled.toNat ∧
      c.cfg = resolveTransactionConfig t.config ∧ Bounded c

/-- The invariant, with a number of permits that are in no hand. -/
structure Balanced (maxConcurrent spare : Nat) (w : World β) : Prop where
  ready : w.sem.Ready
  queue : ∀ i, i ∈ w.sem.waiting.map (·.id) ↔
    i ∈ w.calls.ids ∧ (w.calls.doc i).stage.queued = true
  permits : w.sem.permits + w.calls.countDocuments Ticket.holds + spare = maxConcurrent
  tickets : ∀ i ∈ w.calls.ids, TicketOk (w.calls.doc i)
  outcomes : w.metrics.outcomes = w.calls.countDocuments Ticket.decided

/-- Changing a ticket that is not queued before or after keeps the queue. -/
private theorem queue_modify {calls : Collection CallId (Ticket β)} {i : CallId}
    {f : Ticket β → Ticket β} (hq : (calls.doc i).stage.queued = false)
    (hf : (f (calls.doc i)).stage.queued = false) (j : CallId) :
    (j ∈ (calls.modify i f).ids ∧ ((calls.modify i f).doc j).stage.queued = true) ↔
      (j ∈ calls.ids ∧ (calls.doc j).stage.queued = true) := by
  by_cases hj : j = i
  · subst hj
    simp [hq, hf]
  · simp [Collection.doc_modify_ne calls f hj]

/-- Changing a ticket keeps every ticket in order. -/
private theorem tickets_modify {calls : Collection CallId (Ticket β)} {i : CallId}
    {f : Ticket β → Ticket β} (h : ∀ j ∈ calls.ids, TicketOk (calls.doc j))
    (hf : TicketOk (f (calls.doc i))) :
    ∀ j ∈ (calls.modify i f).ids, TicketOk ((calls.modify i f).doc j) := by
  intro j hj
  by_cases he : j = i
  · subst he
    rwa [Collection.doc_modify_self]
  · rw [Collection.doc_modify_ne calls f he]
    exact h j hj

/-- Moving a ticket between stages outside the queue. -/
theorem Balanced.modify {maxConcurrent spare spare' : Nat} {w : World β}
    (h : Balanced maxConcurrent spare w) {i : CallId} (hi : i ∈ w.calls.ids)
    {f : Ticket β → Ticket β} {m : Metrics}
    (hq : (w.calls.doc i).stage.queued = false) (hf : (f (w.calls.doc i)).stage.queued = false)
    (hok : TicketOk (f (w.calls.doc i)))
    (hholds : (f (w.calls.doc i)).holds.toNat + spare' = (w.calls.doc i).holds.toNat + spare)
    (hm : m.outcomes + (w.calls.doc i).decided.toNat =
      w.metrics.outcomes + (f (w.calls.doc i)).decided.toNat) :
    Balanced maxConcurrent spare' { w with metrics := m, calls := w.calls.modify i f } := by
  have hcount := w.calls.countDocuments_modify hi f Ticket.holds
  have hdec := w.calls.countDocuments_modify hi f Ticket.decided
  have hp := h.permits
  have ho := h.outcomes
  refine ⟨h.ready, fun j => (h.queue j).trans (queue_modify hq hf j).symm, ?_,
    tickets_modify h.tickets hok, ?_⟩
  · simp only at hcount ⊢
    omega
  · simp only at hdec ⊢
    omega

/-- A permit that is in no hand goes to the first waiter, or becomes free. -/
theorem Balanced.release {maxConcurrent spare : Nat} {w : World β}
    (h : Balanced maxConcurrent (spare + 1) w) : Balanced maxConcurrent spare w.release := by
  have hp := h.permits
  unfold World.release
  rcases TransactionSemaphore.release_cases h.ready with ⟨v, rest, hw, hr⟩ | ⟨hw, hr⟩
  · rw [hr]
    obtain ⟨hready, hnot⟩ := h.ready.tail hw
    have hv : v.id ∈ w.calls.ids ∧ (w.calls.doc v.id).stage.queued = true :=
      (h.queue v.id).mp (by simp [hw])
    have hstage := (Stage.queued_iff _).mp hv.2
    have hcount := w.calls.countDocuments_modify hv.1 Ticket.grant Ticket.holds
    have hdec := w.calls.countDocuments_modify hv.1 Ticket.grant Ticket.decided
    have hok := h.tickets v.id hv.1
    have hh : (w.calls.doc v.id).holds = false := by simp [Ticket.holds, hstage, Stage.holds]
    have hd : (w.calls.doc v.id).decided = false := by simp [Ticket.decided, hstage, Stage.decided]
    rw [hh, show (w.calls.doc v.id).grant.holds = true from rfl] at hcount
    rw [hd, show (w.calls.doc v.id).grant.decided = false from rfl] at hdec
    simp only [TicketOk, hstage] at hok
    refine ⟨hready, fun j => ?_, ?_, tickets_modify h.tickets ?_, ?_⟩
    · by_cases hj : j = v.id
      · subst hj
        simp [hnot, Ticket.grant, Stage.queued]
      · have hqj := h.queue j
        simp only [hw, List.map_cons, List.mem_cons, hj, false_or] at hqj
        simpa [Collection.doc_modify_ne w.calls Ticket.grant hj] using hqj
    · simp only [Bool.toNat_true, Bool.toNat_false] at hcount ⊢
      omega
    · simp [TicketOk, Ticket.grant, hok]
    · have ho := h.outcomes
      simp only [Bool.toNat_false] at hdec ⊢
      omega
  · rw [hr]
    refine ⟨⟨by simp, by simp, by simp⟩, fun j => ?_, ?_, h.tickets, h.outcomes⟩
    · simpa [hw] using h.queue j
    · simp only
      omega

/-- The queue after a ticket was inserted. -/
private theorem insert_queue {calls : Collection CallId (Ticket β)} {i : CallId}
    (hi : i ∉ calls.ids)
    (t : Ticket β) (j : CallId) :
    (j ∈ (calls.insertOne i t).ids ∧ ((calls.insertOne i t).doc j).stage.queued = true) ↔
      (j ∈ calls.ids ∧ (calls.doc j).stage.queued = true) ∨ (j = i ∧ t.stage.queued = true) := by
  by_cases hj : j = i
  · subst hj
    simp [hi]
  · simp [hj]

/-- Inserting a ticket keeps every ticket in order. -/
private theorem insert_tickets {calls : Collection CallId (Ticket β)} {i : CallId}
    (h : ∀ j ∈ calls.ids, TicketOk (calls.doc j)) {t : Ticket β} (ht : TicketOk t) :
    ∀ j ∈ (calls.insertOne i t).ids, TicketOk ((calls.insertOne i t).doc j) := by
  intro j hj
  by_cases he : j = i
  · subst he
    rwa [Collection.doc_insertOne_self]
  · rw [Collection.doc_insertOne_ne calls t he]
    exact h j ((Finset.mem_insert.mp hj).resolve_left he)

/-- A new call keeps the accounts balanced. -/
private theorem call_balanced {maxConcurrent : Nat} {w : World β} (h : Balanced maxConcurrent 0 w)
    {id : CallId} (hid : id ∉ w.calls.ids) (parent : Option CallId) (config : TransactionConfig) :
    Balanced maxConcurrent 0 (w.call id parent config) := by
  have hp := h.permits
  have ho := h.outcomes
  have hcount := fun t => w.calls.countDocuments_insertOne hid t Ticket.holds
  have hdec := fun t => w.calls.countDocuments_insertOne hid t Ticket.decided
  unfold World.call
  split
  · refine ⟨h.ready, fun j => ?_, ?_, insert_tickets h.tickets ⟨rfl, rfl⟩, ?_⟩
    · rw [insert_queue hid, h.queue j]
      simp [Stage.queued]
    · simpa [hcount, show (⟨config, .nested, 0, 0⟩ : Ticket β).holds = false from rfl] using hp
    · rw [hdec]; exact ho
  · rcases w.sem.acquire_cases id
      (some (resolveTransactionConfig config).semaphoreWaitTimeoutMs) with
      ⟨n, hn, hr⟩ | ⟨hn, hr⟩
    · rw [hr]
      refine ⟨⟨h.ready.distinct, h.ready.pending, fun hne => ?_⟩, fun j => ?_, ?_,
        insert_tickets h.tickets ⟨rfl, rfl⟩, ?_⟩
      · exact absurd (h.ready.exhausted hne) (by omega)
      · rw [insert_queue hid, ← h.queue j]
        simp [Stage.queued]
      · simp only [hcount, Ticket.holds, Stage.holds, Bool.toNat_true]
        omega
      · rw [hdec]; exact ho
    · rw [hr]
      have hnq : id ∉ w.sem.waiting.map (·.id) := fun hm => hid ((h.queue id).mp hm).1
      refine ⟨h.ready.append hnq _, fun j => ?_, ?_, insert_tickets h.tickets ⟨rfl, rfl⟩, ?_⟩
      · rw [insert_queue hid, ← h.queue j]
        simp [Stage.queued]
      · simp only [hcount, Ticket.holds, Stage.holds, Bool.toNat_false]
        omega
      · rw [hdec]; exact ho

/-- A timer keeps the accounts balanced. -/
private theorem timerFires_balanced {maxConcurrent : Nat} {w : World β}
    (h : Balanced maxConcurrent 0 w)
    (id : CallId) : Balanced maxConcurrent 0 (w.timerFires id) := by
  unfold World.timerFires
  rcases w.sem.timerFires_cases id with ⟨hmem, hr⟩ | hr
  · rw [hr]
    obtain ⟨hid, hq⟩ := (h.queue id).mp hmem
    have hstage := (Stage.queued_iff _).mp hq
    have hcount := w.calls.countDocuments_modify hid (Ticket.moveTo .timedOut)
      Ticket.holds
    have hdec := w.calls.countDocuments_modify hid (Ticket.moveTo .timedOut)
      Ticket.decided
    have hh : (w.calls.doc id).holds = false := by simp [Ticket.holds, hstage, Stage.holds]
    have hd : (w.calls.doc id).decided = false := by simp [Ticket.decided, hstage, Stage.decided]
    rw [hh, show ((w.calls.doc id).moveTo .timedOut).holds = false from rfl] at hcount
    rw [hd, show ((w.calls.doc id).moveTo .timedOut).decided = false from rfl] at hdec
    have hok := h.tickets id hid
    simp only [TicketOk, hstage] at hok
    have hp := h.permits
    have ho := h.outcomes
    refine ⟨h.ready.erase id, fun j => ?_, ?_, tickets_modify h.tickets ?_, ?_⟩
    · rw [h.ready.mem_erase, h.queue j]
      by_cases hj : j = id
      · subst hj
        simp [Ticket.moveTo, Stage.queued]
      · simp [hj]
    · simp only at hcount ⊢
      omega
    · simp [TicketOk, Ticket.moveTo, hok]
    · simp only at hdec ⊢
      omega
  · rw [hr]
    exact h

/-- A call that resumes keeps the accounts balanced. -/
private theorem resumes_balanced {maxConcurrent : Nat} {w w' : World β}
    (h : Balanced maxConcurrent 0 w)
    {id : CallId} (hid : id ∈ w.calls.ids) (hr : w.resumes id = some w') :
    Balanced maxConcurrent 0 w' := by
  have hok := h.tickets id hid
  unfold World.resumes at hr
  split at hr
  · next hs =>
    obtain rfl := Option.some.inj hr
    simp only [TicketOk, hs] at hok
    refine h.modify hid (by simp [hs, Stage.queued]) rfl ?_ ?_ ?_
    · exact ⟨hok.1, hok.2, rfl, start_bounded _⟩
    · simp [hs, Ticket.holds, Ticket.moveTo, Stage.holds, Call.isSettled, Call.start]
    · simp [hs, Ticket.decided, Ticket.moveTo, Stage.decided, Call.isDecided, Call.start]
  · next hs =>
    obtain rfl := Option.some.inj hr
    simp only [TicketOk, hs] at hok
    refine h.modify hid (by simp [hs, Stage.queued]) rfl hok ?_ ?_
    · simp [hs, Ticket.holds, Ticket.moveTo, Stage.holds]
    · simp [hs, Ticket.decided, Ticket.moveTo, Stage.decided, outcomes_record, Record.isOutcome]
  · cases hr

/-- An event of a call keeps the accounts balanced. -/
private theorem event_balanced {maxConcurrent : Nat} {w w' : World β}
    (h : Balanced maxConcurrent 0 w)
    {id : CallId} (hid : id ∈ w.calls.ids) {x : Event β} (hr : w.event id x = some w') :
    Balanced maxConcurrent 0 w' := by
  have hok := h.tickets id hid
  unfold World.event at hr
  split at hr
  · next c hs =>
    obtain ⟨⟨c', rs⟩, hstep, rfl⟩ := Option.map_eq_some_iff.mp hr
    have hx := Call.step_cases hstep
    have hns := not_isSettled_of_step hx
    have htells := step_tells hx
    simp only [TicketOk, hs, hns, Bool.toNat_false] at hok
    obtain ⟨ha, hrel, hcfg, hb⟩ := hok
    have hcfg' : c'.cfg = resolveTransactionConfig (w.calls.doc id).config :=
      (step_cfg hx).trans hcfg
    have hmetric : (rs.foldl Metrics.record w.metrics).outcomes + c.isDecided.toNat =
        w.metrics.outcomes + c'.isDecided.toNat := by
      rw [outcomes_foldl]
      simp only at htells
      omega
    simp only
    split
    · next hsettled =>
      apply Balanced.release
      refine h.modify hid (by simp [hs, Stage.queued]) rfl ?_ ?_ ?_
      · exact ⟨ha, by simp [Ticket.settle, hrel, hsettled], hcfg', hb.step hx⟩
      · simp [hs, Ticket.holds, Ticket.settle, Stage.holds, hns, hsettled]
      · simpa [hs, Ticket.decided, Ticket.settle, Stage.decided] using hmetric
    · next hsettled =>
      refine h.modify hid (by simp [hs, Stage.queued]) rfl ?_ ?_ ?_
      · exact ⟨ha, by simp [Ticket.moveTo, hrel, hsettled], hcfg', hb.step hx⟩
      · simp [hs, Ticket.holds, Ticket.moveTo, Stage.holds, hns, hsettled]
      · simpa [hs, Ticket.decided, Ticket.moveTo, Stage.decided] using hmetric
  · cases hr

/-- Every step of the system keeps the balance. -/
theorem Balanced.step {maxConcurrent : Nat} {w w' : World β} (h : Balanced maxConcurrent 0 w)
    {act : Action β} (hstep : w.step act = some w') : Balanced maxConcurrent 0 w' := by
  cases act with
  | call id parent config =>
    simp only [World.step] at hstep
    split at hstep
    · cases hstep
    · next hid =>
      obtain rfl := Option.some.inj hstep
      exact call_balanced h hid parent config
  | timerFires id =>
    obtain rfl := Option.some.inj hstep
    exact timerFires_balanced h id
  | resumes id =>
    simp only [World.step] at hstep
    split at hstep
    · next hid => exact resumes_balanced h hid hstep
    · cases hstep
  | event id x =>
    simp only [World.step] at hstep
    split at hstep
    · next hid => exact event_balanced h hid hstep
    · cases hstep
  | nestedEnds id =>
    simp only [World.step] at hstep
    split at hstep
    · next hid =>
      split at hstep
      · next hs =>
        obtain rfl := Option.some.inj hstep
        have hok := h.tickets id hid
        simp only [TicketOk, hs] at hok
        refine h.modify hid (by simp [hs, Stage.queued]) rfl hok ?_ ?_
        · simp [hs, Ticket.holds, Ticket.moveTo, Stage.holds]
        · simp [hs, Ticket.decided, Ticket.moveTo, Stage.decided]
      · cases hstep
    · cases hstep

private theorem initial_balanced (maxConcurrent : Nat) :
    Balanced maxConcurrent 0 (World.initial (β := β) maxConcurrent) := by
  refine
    ⟨⟨by simp [World.initial], by simp [World.initial], by simp [World.initial]⟩, ?_, ?_, ?_, ?_⟩
  · simp [World.initial, Collection.empty]
  · simp [World.initial]
  · simp [World.initial, Collection.empty]
  · simp [World.initial, Metrics.outcomes, Metrics.empty]

/-- The runs of the system. -/
abbrev Runs : World β → List (Action β) → World β → Prop := Run (Graph World.step)

/-- What the accounts of a state say about one call that made its own acquisition. -/
structure TicketAccount (t : Ticket β) : Prop where
  /-- A call that was rejected before it started never had a permit. -/
  rejected : t.stage = .rejected → t.acquired = 0 ∧ t.released = 0
  /-- A call inside an active transaction needs no permit. -/
  nested : t.stage = .nested ∨ t.stage = .nestedSettled → t.acquired = 0 ∧ t.released = 0
  /-- A call that waits has no permit. -/
  waiting : t.stage = .waiting ∨ t.stage = .timedOut → t.acquired = 0 ∧ t.released = 0
  /-- From acquisition until it settles a call holds the one permit it was given. -/
  holds : t.stage.holds = true → t.acquired = 1 ∧ t.released = 0
  /-- A call that settled after it started has returned its permit once. -/
  settled : ∀ c, t.stage = .active c → c.isSettled = true → t.acquired = 1 ∧ t.released = 1
  /-- The body of a settled call ran at least once, unless a start has failed. -/
  bodyRuns_pos : ∀ c, t.stage = .active c → c.isSettled = true → c.startFailed = false →
    0 < c.bodyRuns
  /-- The body never runs more often than its limit allows. -/
  bodyRuns_le : ∀ c, t.stage = .active c →
    c.bodyRuns ≤ (resolveTransactionConfig t.config).maxBodyAttempts
  /-- No body attempt is followed by more commits than the limit allows. -/
  commits_le : ∀ c, t.stage = .active c → ∀ a ∈ c.attempts,
    a.commits ≤ (resolveTransactionConfig t.config).maxCommitAttempts

/-- What the accounts of a state say. -/
structure Accounts (maxConcurrent : Nat) (w : World β) : Prop where
  /-- Every permit is free or held. -/
  permits : w.sem.permits + w.calls.countDocuments Ticket.holds = maxConcurrent
  calls : ∀ i ∈ w.calls.ids, TicketAccount (w.calls.doc i)
  /-- The recorded outcomes are those of the settled calls and of the calls whose session is
  still ending. -/
  outcomes : w.metrics.outcomes = w.calls.countDocuments (fun t => t.stage.settled) +
    w.calls.countDocuments fun t => t.stage.closing

/-- The account of a ticket whose counters fit its stage. -/
theorem TicketOk.account {t : Ticket β} (h : TicketOk t) : TicketAccount t := by
  have hactive : ∀ c, t.stage = .active c → t.acquired = 1 ∧ t.released = c.isSettled.toNat ∧
      c.cfg = resolveTransactionConfig t.config ∧ Bounded c := by
    intro c hc
    simpa only [TicketOk, hc] using h
  refine ⟨fun hs => ?_, fun hs => ?_, fun hs => ?_, fun hs => ?_, fun c hc hset => ?_,
    fun c hc hset hf => ?_, fun c hc => ?_, fun c hc a ha => ?_⟩
  · simpa only [TicketOk, hs] using h
  · rcases hs with hs | hs <;> simpa only [TicketOk, hs] using h
  · rcases hs with hs | hs <;> simpa only [TicketOk, hs] using h
  · unfold Stage.holds at hs
    split at hs
    · next hst => simpa only [TicketOk, hst] using h
    · next c hst =>
      obtain ⟨ha, hr, -⟩ := hactive c hst
      exact ⟨ha, by simpa [hr] using hs⟩
    all_goals cases hs
  · obtain ⟨ha, hr, -⟩ := hactive c hc
    exact ⟨ha, by simp [hr, hset]⟩
  · have hb := (hactive c hc).2.2.2
    have hph : ∀ p : Phase β, c.phase = p → (∀ o, p ≠ .settled o) → False := by
      intro p hp hne
      unfold Call.isSettled at hset
      split at hset
      · next o ho => exact hne o (hp.symm.trans ho)
      · cases hset
    rcases hb.ran with hr | hr | hr | hr
    · exact absurd (hf.symm.trans hr) (by decide)
    · exact (hph _ hr (by simp)).elim
    · exact (hph _ hr (by simp)).elim
    · exact hr
  · obtain ⟨-, -, hcfg, hb⟩ := hactive c hc
    calc c.bodyRuns ≤ c.attempts.length := List.countP_le_length
      _ ≤ c.cfg.maxBodyAttempts := hb.attempts
      _ = (resolveTransactionConfig t.config).maxBodyAttempts := by rw [hcfg]
  · obtain ⟨-, -, hcfg, hb⟩ := hactive c hc
    exact hcfg ▸ hb.commits a ha

/-- A decided ticket is settled or closing, and never both. -/
theorem decided_split (w : World β) : w.calls.countDocuments Ticket.decided =
    w.calls.countDocuments (fun t => t.stage.settled) +
      w.calls.countDocuments fun t => t.stage.closing := by
  apply Collection.countDocuments_split
  · intro i _
    unfold Ticket.decided
    cases hs : (w.calls.doc i).stage with
    | active c =>
      simp only [Stage.decided, Stage.settled, Stage.closing]
      cases hset : c.isSettled with
      | false => simp
      | true => simp [Call.isDecided_of_isSettled hset]
    | nested | nestedSettled | waiting | timedOut | granted | rejected =>
      simp [Stage.decided, Stage.settled, Stage.closing]
  · rintro i _ ⟨hset, hclo⟩
    cases hs : (w.calls.doc i).stage with
    | active c =>
      simp only [hs, Stage.settled, Stage.closing] at hset hclo
      simp [hset] at hclo
    | nested | nestedSettled | waiting | timedOut | granted | rejected =>
      simp [hs, Stage.closing] at hclo

/-- The accounts are right along every run of any number of calls. -/
theorem unitOfWork_accounts (maxConcurrent : Nat) {as : List (Action β)} {w : World β}
    (h : Runs (World.initial maxConcurrent) as w) : Accounts maxConcurrent w := by
  have hb : Balanced maxConcurrent 0 w :=
    Run.invariant (fun _ _ _ hi hstep => Balanced.step hi hstep) h (initial_balanced maxConcurrent)
  exact ⟨hb.permits, fun i hi => (hb.tickets i hi).account, hb.outcomes.trans (decided_split w)⟩

/-- One call that commits at its first try, up to the end of its session. -/
def oneCommit : List (Action Unit) :=
  [.call 0 none .empty, .resumes 0, .event 0 .sessionStarts, .event 0 .transactionStarts,
   .event 0 (.bodyReturns ()), .event 0 .commits]

/-- The accounts are right when the call has settled, and it is counted once. -/
theorem unitOfWork_accounts_oneCommit : ∃ w : World Unit,
    Accounts 50 w ∧ w.calls.countDocuments (fun t => t.stage.settled) = 1 := by
  have h : (exec World.step (World.initial 50) (oneCommit ++ [.event 0 .sessionEnds])).map
      (fun w => w.calls.countDocuments fun t => t.stage.settled) = some 1 := by decide
  obtain ⟨w, hw, hc⟩ := Option.map_eq_some_iff.mp h
  exact ⟨w, unitOfWork_accounts 50 (exec_run hw), hc⟩

/-- While the session of the call is still ending, its success is recorded and it has not
settled. -/
theorem unitOfWork_outcomes_ahead : ∃ (as : List (Action Unit)) (w : World Unit),
    Runs (World.initial 50) as w ∧ w.metrics.outcomes = 1 ∧
      w.calls.countDocuments (fun t => t.stage.settled) = 0 := by
  have h : (exec World.step (World.initial 50) oneCommit).map (fun w =>
      (w.metrics.outcomes, w.calls.countDocuments fun t => t.stage.settled)) = some (1, 0) := by
    decide
  obtain ⟨w, hw, he⟩ := Option.map_eq_some_iff.mp h
  obtain ⟨ho, hc⟩ := Prod.mk.inj he
  exact ⟨oneCommit, w, exec_run hw, ho, hc⟩

end Ascendance.UnitOfWork
