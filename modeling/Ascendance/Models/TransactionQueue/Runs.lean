import Ascendance.Models.TransactionQueue.Conservation

/-!
# Runs of the transaction queue

The popped job exists only in the hands of its loop, so a push back that fails
takes the job along. That is the one step that loses a job.
-/

namespace Ascendance.TransactionQueue

open Ascendance.Core

/-- The job of an enqueue has a handler and at least one attempt, and no push back is lost. -/
def Event.Kept (registered : String → Bool) : Event → Prop
  | .enqueue jobName _ maxAttempts => registered jobName = true ∧ 1 ≤ maxAttempts
  | .pushLost _ => False
  | _ => True

instance (registered : String → Bool) (e : Event) : Decidable (e.Kept registered) := by
  cases e <;> unfold Event.Kept <;> infer_instance

namespace World

variable {w w' : World} {registered : String → Bool}

/-- The invariant holds when nothing is enqueued. -/
theorem Invariant.initial : Invariant registered World.initial where
  placed := by
    refine ⟨fun _ => .processed, fun j l => ⟨fun h => ?_, fun h => absurd h.1 (Nat.not_lt_zero _)⟩⟩
    cases l with
    | queue p => exact absurd h List.not_mem_nil
    | hands c => cases h
    | processed => exact absurd h List.not_mem_nil
    | failed => exact absurd h List.not_mem_nil
  queueNodup _ := List.nodup_nil
  processedNodup := List.nodup_nil
  failedNodup := List.nodup_nil
  queued _ _ h := absurd h List.not_mem_nil
  loops _ := .idle rfl
  processed _ h := absurd h List.not_mem_nil
  failed _ h := absurd h List.not_mem_nil
  fresh _ _ := rfl
  sorted := .nil
  readers _ h := absurd h List.not_mem_nil
  client _ h := by cases h

/-- The blocking client stays or goes away. -/
theorem Invariant.release (hi : Invariant registered w) (processing : Bool) {client : Option ℕ}
    (startup : Option Startup) (hclient : ∀ c, client = some c → w.blockingClient = some c) :
    Invariant registered { w with
      isProcessing := processing
      blockingClient := client
      startupPromise := startup } :=
  hi.control processing startup (Nat.le_refl _) fun c hc =>
    ⟨hi.client c (hclient c hc), .inl (hclient c hc)⟩

/-- Giving up a client keeps the invariant. -/
theorem Invariant.giveUp (hi : Invariant registered w) (client : ℕ) :
    Invariant registered (w.giveUp client) := by
  unfold World.giveUp
  split
  · refine hi.release false w.startupPromise ?_
    intro c hc
    cases hc
  · exact hi

private theorem giveUp_loops (client : ℕ) : (w.giveUp client).loops = w.loops := by
  unfold World.giveUp
  split <;> rfl

/-- Starting to process keeps the invariant. -/
theorem Invariant.startProcessing (hi : Invariant registered w) :
    Invariant registered w.startProcessing := by
  unfold World.startProcessing
  split
  · exact hi
  · split
    · exact hi
    · refine hi.control w.isProcessing _ (Nat.le_succ _) ?_
      intro c hc
      obtain rfl := Option.some.inj hc
      exact ⟨Nat.lt_succ_self _, .inr rfl⟩

/-- A client whose loop is launched has had none before. -/
theorem Invariant.connected (hi : Invariant registered w) {client : ℕ}
    (hloop : (w.loops client).job = none) : Invariant registered (w.connected client) := by
  unfold World.connected
  split
  · exact hi.release w.isProcessing _ fun _ hc => hc
  · exact (hi.release true _ fun _ hc => hc).setIdle hloop rfl

/-- A loop without a job may crash. -/
theorem Invariant.raise (hi : Invariant registered w) {c : ℕ}
    (hloop : (w.loops c).job = none) : Invariant registered (w.raise c) := by
  unfold World.raise
  split
  · exact hi.setIdle hloop rfl
  · exact hi.setIdle hloop rfl

/-- A client has no loop before its startup launches it. -/
structure Launches (w : World) : Prop where
  fresh : ∀ c, w.nextClient ≤ c → w.loops c = .absent
  starting : ∀ c, w.startupPromise = some ⟨c, false⟩ → c < w.nextClient ∧ w.loops c = .absent

/-- No loop has been launched. -/
theorem Launches.initial : World.initial.Launches where
  fresh _ _ := rfl
  starting _ h := by cases h

/-- Loops that have been launched go on, and no startup begins. -/
theorem Launches.same (hl : w.Launches) (hnext : w'.nextClient = w.nextClient)
    (hstartup : ∀ c, w'.startupPromise = some ⟨c, false⟩ → w.startupPromise = some ⟨c, false⟩)
    (hloops : ∀ c, w.loops c = .absent → w'.loops c = .absent) : w'.Launches where
  fresh c hc := hloops c (hl.fresh c (hnext ▸ hc))
  starting c hc := by
    obtain ⟨hlt, habsent⟩ := hl.starting c (hstartup c hc)
    exact ⟨hnext ▸ hlt, hloops c habsent⟩

private theorem setLoop_absent {c : ℕ} (hne : w.loops c ≠ .absent) (l : Loop) (d : ℕ)
    (hd : w.loops d = .absent) : (w.setLoop c l).loops d = .absent := by
  have hdc : d ≠ c := fun h => hne (h ▸ hd)
  simp only [World.setLoop, Function.update_of_ne hdc]
  exact hd

/-- A launched loop may change its stage. -/
theorem Launches.setLoop (hl : w.Launches) {c : ℕ} (hne : w.loops c ≠ .absent) (l : Loop) :
    (w.setLoop c l).Launches :=
  hl.same rfl (fun _ h => h) (setLoop_absent hne l)

/-- A launched loop may crash. -/
theorem Launches.raise (hl : w.Launches) {c : ℕ} (hne : w.loops c ≠ .absent) :
    (w.raise c).Launches := hl.setLoop hne _

/-- Giving up a client keeps the launches. -/
theorem Launches.giveUp (hl : w.Launches) (c : ℕ) : (w.giveUp c).Launches := by
  unfold World.giveUp
  split
  · exact hl.same rfl (fun _ h => h) fun _ h => h
  · exact hl

/-- Starting to process keeps the launches. -/
theorem Launches.startProcessing (hl : w.Launches) : w.startProcessing.Launches := by
  unfold World.startProcessing
  split
  · exact hl
  · split
    · exact hl
    · constructor
      · intro c hc
        exact hl.fresh c (Nat.le_of_succ_le hc)
      · intro c hc
        obtain rfl : w.nextClient = c := (Startup.mk.inj (Option.some.inj hc)).1
        exact ⟨Nat.lt_succ_self _, hl.fresh _ (Nat.le_refl _)⟩

/-- A connected client may launch its loop. -/
theorem Launches.connected (hl : w.Launches) {c : ℕ} (hc : c < w.nextClient) :
    (w.connected c).Launches := by
  unfold World.connected
  split
  · refine hl.same rfl (fun d hd => ?_) fun _ h => h
    cases hd
  · constructor
    · intro d hd
      have hdc : d ≠ c := fun h => absurd hc (Nat.not_lt.mpr (h ▸ hd))
      simp only [World.setLoop, Function.update_of_ne hdc]
      exact hl.fresh d hd
    · intro d hd
      cases hd

/-- The invariant of the jobs and that of the launches. -/
structure Good (registered : String → Bool) (w : World) : Prop where
  invariant : Invariant registered w
  launches : w.Launches

/-- A loop without a job may change its stage. -/
theorem Good.setIdle (hg : Good registered w) {c : ℕ} (hne : w.loops c ≠ .absent)
    (hold : (w.loops c).job = none) {l : Loop} (hnew : l.job = none) :
    Good registered (w.setLoop c l) :=
  ⟨hg.invariant.setIdle hold hnew, hg.launches.setLoop hne l⟩

/-- A loop without a job may crash. -/
theorem Good.raise (hg : Good registered w) {c : ℕ} (hne : w.loops c ≠ .absent)
    (hjob : (w.loops c).job = none) : Good registered (w.raise c) :=
  ⟨hg.invariant.raise hjob, hg.launches.raise hne⟩

/-- A crashed loop ends. -/
theorem Good.crashHandled (hg : Good registered w) {c : ℕ} (hl : w.loops c = .crashed) :
    Good registered ((w.giveUp c).setLoop c .ended) := by
  have hgiven : Good registered (w.giveUp c) := ⟨hg.invariant.giveUp c, hg.launches.giveUp c⟩
  have hloop : (w.giveUp c).loops c = .crashed := by rw [giveUp_loops, hl]
  refine hgiven.setIdle ?_ ?_ rfl
  · rw [hloop]
    simp
  · rw [hloop]
    rfl

/-- Every step of a loop that loses no job keeps the invariants. -/
theorem Good.loopStep (hg : Good registered w) {e : Event} (he : e.Kept registered) {c : ℕ}
    (hc : e.client = some c) {l : Loop} (hl : w.loops c = l)
    (h : w.loopStep registered e l = some w') : Good registered w' := by
  have hi := hg.invariant
  have hne : l ≠ .absent → w.loops c ≠ .absent := fun h => hl ▸ h
  have hidle : l.job = none → (w.loops c).job = none := fun h => hl ▸ h
  unfold World.loopStep at h
  split at h <;> try obtain rfl := Option.some.inj hc
  · split at h
    · cases h
    · obtain rfl := Option.some.inj h
      exact hg.setIdle (hne (by simp)) (hidle rfl) rfl
  · split at h
    · next howns =>
      obtain rfl := Option.some.inj h
      refine ⟨(hi.issueRead howns).setIdle (hidle rfl) rfl, ?_⟩
      exact hg.launches.same rfl (fun _ hs => hs) (setLoop_absent (hne (by simp)) _)
    · cases h
  · obtain ⟨p, -, hmap⟩ := Option.bind_eq_some_iff.mp h
    obtain ⟨job, hlast, rfl⟩ := Option.map_eq_some_iff.mp hmap
    refine ⟨hi.popped (hidle rfl) hlast, ?_⟩
    exact hg.launches.same rfl (fun _ hs => hs) (setLoop_absent (hne (by simp)) _)
  · obtain rfl := Option.some.inj h
    exact hg.setIdle (hne (by simp)) (hidle rfl) rfl
  · split at h
    · obtain rfl := Option.some.inj h
      exact hg.setIdle (hne (by simp)) (hidle rfl) rfl
    · obtain rfl := Option.some.inj h
      exact hg.raise (hne (by simp)) (hidle rfl)
  · obtain rfl := Option.some.inj h
    refine ⟨hi.permit hl, ?_⟩
    exact hg.launches.same rfl (fun _ hs => hs) (setLoop_absent (hne (by simp)) _)
  · obtain rfl := Option.some.inj h
    refine ⟨hi.handlerSucceeds hl, ?_⟩
    exact hg.launches.same rfl (fun _ hs => hs) (setLoop_absent (hne (by simp)) _)
  · obtain rfl := Option.some.inj h
    refine ⟨hi.handlerFails hl, ?_⟩
    unfold World.handlerFails
    split
    · exact hg.launches.setLoop (hne (by simp)) _
    · exact hg.launches.same rfl (fun _ hs => hs) (setLoop_absent (hne (by simp)) _)
  · obtain rfl := Option.some.inj h
    refine ⟨hi.pushTakesEffect hl, ?_⟩
    exact hg.launches.same rfl (fun _ hs => hs) (setLoop_absent (hne (by simp)) _)
  · obtain rfl := Option.some.inj h
    split
    · exact hg.setIdle (hne (by simp)) (hidle rfl) rfl
    · exact hg.raise (hne (by simp)) (hidle rfl)
  · exact he.elim
  · obtain rfl := Option.some.inj h
    exact hg.crashHandled hl
  · cases h

/-- Every event that loses no job keeps the invariants. -/
theorem Good.step (hg : Good registered w) {e : Event} (he : e.Kept registered)
    (h : w.step registered e = some w') : Good registered w' := by
  have hi := hg.invariant
  cases e with
  | enqueue jobName priority maxAttempts =>
    obtain rfl := Option.some.inj h
    exact ⟨hi.enqueue jobName priority maxAttempts he.1 he.2,
      hg.launches.same rfl (fun _ hs => hs) fun _ hd => hd⟩
  | startProcessing =>
    obtain rfl := Option.some.inj h
    exact ⟨hi.startProcessing, hg.launches.startProcessing⟩
  | connected =>
    simp only [World.step] at h
    split at h
    · next c hstartup =>
      obtain rfl := Option.some.inj h
      obtain ⟨hlt, habsent⟩ := hg.launches.starting c hstartup
      exact ⟨hi.connected (by rw [habsent]; rfl), hg.launches.connected hlt⟩
    · cases h
  | connectFails =>
    simp only [World.step] at h
    split at h
    · next c hstartup =>
      obtain rfl := Option.some.inj h
      refine ⟨(hi.giveUp c).release _ _ fun _ hc => hc, ?_⟩
      refine (hg.launches.giveUp c).same rfl (fun d hd => ?_) fun _ hd => hd
      cases hd
    · cases h
  | startupSettled =>
    simp only [World.step] at h
    split at h
    · obtain rfl := Option.some.inj h
      refine ⟨hi.release w.isProcessing none fun _ hc => hc, ?_⟩
      refine hg.launches.same rfl (fun d hd => ?_) fun _ hd => hd
      cases hd
    · cases h
  | stopProcessing =>
    obtain rfl := Option.some.inj h
    refine ⟨hi.release false w.startupPromise fun c hc => ?_, ?_⟩
    · cases hc
    · exact hg.launches.same rfl (fun _ hs => hs) fun _ hd => hd
  | exit c | issueRead c | popped c | poppedNothing c | readFails c _ | permit c
  | handlerSucceeds c | handlerFails c | pushTakesEffect c | pushReplies c _ | pushLost c
  | crashHandled c => exact hg.loopStep he rfl rfl h

/-- Each job is in one place, once, and has had the handler runs that its place promises. -/
structure Conserved (w : World) : Prop where
  onePlace : ∀ j < w.enqueued.length, ∃! l, w.At j l
  queuedOnce : ∀ p, (ids (w.queues p)).Nodup
  processedOnce : (ids w.processed).Nodup
  failedOnce : (ids w.failed).Nodup
  /-- A job keeps its priority, and its attempts are the runs of its handler. -/
  queued : ∀ p, ∀ job ∈ w.queues p,
    Genuine w.enqueued job ∧ job.priority = p ∧ job.attempts = w.runs job.id
  /-- The run that the loop is about to start is counted already. -/
  held : ∀ c job, (w.loops c).job = some job → Genuine w.enqueued job ∧
    (job.attempts = w.runs job.id ∨ job.attempts = w.runs job.id + 1)
  processed : ∀ job ∈ w.processed, Genuine w.enqueued job
  failed : ∀ job ∈ w.failed, Genuine w.enqueued job ∧ (w.runs job.id : ℤ) = job.maxAttempts
  /-- No loop issues a blocking read after a later one has. -/
  reads : w.reads.Pairwise (· ≤ ·)
  /-- And none whose client is not the current one can. -/
  oneReader : ∀ c d, w.Owns c → w.Owns d → c = d

/-- The job in the hands of a loop is genuine, and its attempts are its runs. -/
theorem LoopOk.held {enqueued : List QueuedJob} {runs : ℕ → ℕ} {l : Loop} {job : QueuedJob}
    (h : LoopOk enqueued runs registered l) (hjob : l.job = some job) :
    Genuine enqueued job ∧ (job.attempts = runs job.id ∨ job.attempts = runs job.id + 1) := by
  cases l with
  | acquiring q job' =>
    obtain rfl := Option.some.inj hjob
    exact ⟨h.1.genuine, .inr h.2⟩
  | handling q job' =>
    obtain rfl := Option.some.inj hjob
    exact ⟨h.1.genuine, .inl h.2⟩
  | requeueing q job' =>
    obtain rfl := Option.some.inj hjob
    exact ⟨h.ok.genuine, .inl h.attempts⟩
  | absent | check | reading | replying | crashed | ended => cases hjob

/-- Under the invariant no job is lost or doubled. -/
theorem Invariant.conserved (hi : Invariant registered w) : w.Conserved where
  onePlace _ hj := hi.placed.existsUnique hj
  queuedOnce := hi.queueNodup
  processedOnce := hi.processedNodup
  failedOnce := hi.failedNodup
  queued p job hjob :=
    have hok := hi.queued p job hjob
    ⟨hok.ok.genuine, hok.ok.priority, hok.attempts⟩
  held c _ hjob := LoopOk.held (hi.loops c) hjob
  processed := hi.processed
  failed := hi.failed
  reads := hi.sorted
  oneReader _ _ hc hd := Option.some.inj (hc.2.symm.trans hd.2)

end World

open World in
/-- In every run of enqueues with a handler and at least one attempt, of starts, stops,
handler outcomes and failing commands, in which each push back that is sent takes effect. -/
theorem transactionQueue_conserves {registered : String → Bool} {events : List Event} {w : World}
    (hrun : Run (Restrict (Graph (World.step registered)) fun _ e => e.Kept registered)
      World.initial events w) : w.Conserved := by
  have hgood : Good registered w :=
    hrun.invariant (fun _ _ _ hg h => hg.step h.1 h.2) ⟨Invariant.initial, Launches.initial⟩
  exact hgood.invariant.conserved

/-- The handler of the first job fails, and so does the push back. -/
def lostRetry : List Event :=
  [.enqueue "sendWelcome" .normal 3, .startProcessing, .connected, .issueRead 0, .popped 0,
    .permit 0, .handlerFails 0, .pushLost 0]

/-- What is left of it. -/
def afterLostRetry : World :=
  (exec (World.step fun _ => true) World.initial lostRetry).get (by decide +kernel)

private theorem afterLostRetry_at (l : Location) : ¬ afterLostRetry.At 0 l := by
  cases l with
  | queue p =>
    cases p with
    | critical => exact List.not_mem_nil
    | high => exact List.not_mem_nil
    | normal => exact List.not_mem_nil
    | low => exact List.not_mem_nil
  | hands c =>
    refine World.not_at_hands afterLostRetry c ?_
    cases c with
    | zero => rfl
    | succ c => rfl
  | processed => exact List.not_mem_nil
  | failed => exact List.not_mem_nil

/-- A job whose push back fails is in no place any more. -/
theorem transactionQueue_loses :
    ¬ ∀ events w, Run (Graph (World.step fun _ => true)) World.initial events w → w.Conserved := by
  intro hall
  have hrun : Run (Graph (World.step fun _ => true)) World.initial lostRetry afterLostRetry :=
    exec_run (Option.some_get _).symm
  obtain ⟨l, hl, -⟩ := (hall _ _ hrun).onePlace 0 Nat.one_pos
  exact afterLostRetry_at l hl

/-- A job is stopped on during its run, pushed back, and fails in the loop of the next start. -/
def retried : List Event :=
  [.enqueue "sendWelcome" .normal 2, .startProcessing, .connected, .startupSettled, .issueRead 0,
    .popped 0, .permit 0, .stopProcessing, .handlerFails 0, .startProcessing, .connected,
    .issueRead 1, .pushTakesEffect 0, .pushReplies 0 true, .exit 0, .popped 1, .permit 1,
    .handlerFails 1]

/-- A job that fails twice is in the list of the failed ones. -/
theorem transactionQueue_conserves_retried :
    ∃ w, Run (Restrict (Graph (World.step fun _ => true)) fun _ e => e.Kept fun _ => true)
        World.initial retried w ∧
      w.failed = [⟨0, "sendWelcome", .normal, 2, 2⟩] ∧ w.reads = [0, 1] ∧ w.Conserved := by
  obtain ⟨w, hrun, hw⟩ : ∃ w, Run (Graph (World.step fun _ => true)) World.initial retried w ∧
      decide (w.failed = [⟨0, "sendWelcome", .normal, 2, 2⟩] ∧ w.reads = [0, 1]) = true :=
    exec_any (by decide +kernel)
  have hall : ∀ e ∈ retried, e.Kept fun _ => true := by decide
  have hkept := hrun.restrict fun e he _ => hall e he
  obtain ⟨hfailed, hreads⟩ := of_decide_eq_true hw
  exact ⟨w, hkept, hfailed, hreads, transactionQueue_conserves hkept⟩

end Ascendance.TransactionQueue
