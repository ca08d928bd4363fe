import Ascendance.Models.TransactionQueue.Places

/-!
# Conservation of jobs

While every push back that is sent takes effect, each job stays in one place with
as many attempts as its handler has had runs. Clients are numbered in the order of
their starts, so a loop that a later one has replaced never reads again.
-/

namespace Ascendance.TransactionQueue

open Ascendance.Core

/-- A job is one that was enqueued, but for its attempts. -/
def Genuine (enqueued : List QueuedJob) (job : QueuedJob) : Prop :=
  ∃ original, enqueued[job.id]? = some original ∧
    job = { original with attempts := job.attempts }

/-- A job of a queue, in it or in the hands of a loop. -/
structure JobOk (enqueued : List QueuedJob) (registered : String → Bool)
    (q : TransactionPriority) (job : QueuedJob) : Prop where
  priority : job.priority = q
  genuine : Genuine enqueued job
  registered : registered job.jobName = true
  bound : job.attempts ≤ job.maxAttempts

/-- A job that may wait in a queue: its handler has had as many runs as it has attempts. -/
structure QueuedOk (enqueued : List QueuedJob) (runs : ℕ → ℕ) (registered : String → Bool)
    (q : TransactionPriority) (job : QueuedJob) : Prop where
  ok : JobOk enqueued registered q job
  attempts : job.attempts = runs job.id
  left : job.attempts < job.maxAttempts

/-- What a loop holds. -/
def LoopOk (enqueued : List QueuedJob) (runs : ℕ → ℕ) (registered : String → Bool) : Loop → Prop
  | .acquiring q job => JobOk enqueued registered q job ∧ job.attempts = runs job.id + 1
  | .handling q job => JobOk enqueued registered q job ∧ job.attempts = runs job.id
  | .requeueing q job => QueuedOk enqueued runs registered q job
  | .absent | .check | .reading | .replying | .crashed | .ended => True

section Append

variable {enqueued : List QueuedJob} {runs runs' : ℕ → ℕ} {registered : String → Bool}
  {q : TransactionPriority} {job : QueuedJob}

/-- A genuine job has been enqueued. -/
theorem Genuine.lt (h : Genuine enqueued job) : job.id < enqueued.length := by
  obtain ⟨original, hget, -⟩ := h
  exact (List.getElem?_eq_some_iff.mp hget).1

/-- A job is genuine whatever its attempts. -/
theorem Genuine.attempts (h : Genuine enqueued job) (attempts : ℤ) :
    Genuine enqueued { job with attempts } := by
  obtain ⟨original, hget, hjob⟩ := h
  refine ⟨original, hget, ?_⟩
  rw [hjob]

/-- A genuine job stays so when more is enqueued. -/
theorem Genuine.append (h : Genuine enqueued job) (l : List QueuedJob) :
    Genuine (enqueued ++ l) job := by
  obtain ⟨original, hget, hjob⟩ := h
  refine ⟨original, ?_, hjob⟩
  rw [List.getElem?_append_left (List.getElem?_eq_some_iff.mp hget).1]
  exact hget

/-- A job in order stays so when more is enqueued. -/
theorem JobOk.append (h : JobOk enqueued registered q job) (l : List QueuedJob) :
    JobOk (enqueued ++ l) registered q job where
  priority := h.priority
  genuine := h.genuine.append l
  registered := h.registered
  bound := h.bound

/-- A queued job in order stays so when more is enqueued. -/
theorem QueuedOk.append (h : QueuedOk enqueued runs registered q job) (l : List QueuedJob) :
    QueuedOk (enqueued ++ l) runs registered q job :=
  ⟨h.ok.append l, h.attempts, h.left⟩

/-- Runs of other jobs are nothing to a job that waits. -/
theorem QueuedOk.congr (h : QueuedOk enqueued runs registered q job)
    (hruns : runs' job.id = runs job.id) : QueuedOk enqueued runs' registered q job where
  ok := h.ok
  attempts := by
    rw [hruns]
    exact h.attempts
  left := h.left

/-- A loop in order stays so when more is enqueued. -/
theorem LoopOk.append {loop : Loop} (h : LoopOk enqueued runs registered loop)
    (l : List QueuedJob) : LoopOk (enqueued ++ l) runs registered loop := by
  cases loop with
  | acquiring q job => exact ⟨h.1.append l, h.2⟩
  | handling q job => exact ⟨h.1.append l, h.2⟩
  | requeueing q job => exact QueuedOk.append h l
  | absent | check | reading | replying | crashed | ended => trivial

/-- A loop in order depends on the runs of its job only. -/
theorem LoopOk.congr {loop : Loop} (h : LoopOk enqueued runs registered loop)
    (hruns : ∀ job, loop.job = some job → runs' job.id = runs job.id) :
    LoopOk enqueued runs' registered loop := by
  cases loop with
  | acquiring q job =>
    refine ⟨h.1, ?_⟩
    rw [hruns job rfl]
    exact h.2
  | handling q job =>
    refine ⟨h.1, ?_⟩
    rw [hruns job rfl]
    exact h.2
  | requeueing q job => exact QueuedOk.congr h (hruns job rfl)
  | absent | check | reading | replying | crashed | ended => trivial

/-- A loop without a job is fine as it is. -/
theorem LoopOk.idle {loop : Loop} (h : loop.job = none) :
    LoopOk enqueued runs registered loop := by
  cases loop with
  | acquiring q job => cases h
  | handling q job => cases h
  | requeueing q job => cases h
  | absent | check | reading | replying | crashed | ended => trivial

end Append

namespace World

/-- What holds in every state: every job is in one place, and its runs are as its place says. -/
structure Invariant (registered : String → Bool) (w : World) : Prop where
  placed : w.Placed
  queueNodup : ∀ p, (ids (w.queues p)).Nodup
  processedNodup : (ids w.processed).Nodup
  failedNodup : (ids w.failed).Nodup
  queued : ∀ p, ∀ job ∈ w.queues p, QueuedOk w.enqueued w.runs registered p job
  loops : ∀ c, LoopOk w.enqueued w.runs registered (w.loops c)
  processed : ∀ job ∈ w.processed, Genuine w.enqueued job
  failed : ∀ job ∈ w.failed, Genuine w.enqueued job ∧ (w.runs job.id : ℤ) = job.maxAttempts
  fresh : ∀ j, w.enqueued.length ≤ j → w.runs j = 0
  sorted : w.reads.Pairwise (· ≤ ·)
  readers : ∀ d ∈ w.reads, d < w.nextClient ∧ ∀ c, w.blockingClient = some c → d ≤ c
  client : ∀ c, w.blockingClient = some c → c < w.nextClient

variable {w w' : World} {registered : String → Bool}

/-- Changing a loop keeps every loop in order. -/
private theorem Invariant.loops_setLoop (hi : Invariant registered w) {c : ℕ} {l : Loop}
    (hl : LoopOk w.enqueued w.runs registered l) (d : ℕ) :
    LoopOk w.enqueued w.runs registered ((w.setLoop c l).loops d) := by
  by_cases hd : d = c
  · subst hd
    simp only [World.setLoop, Function.update_self]
    exact hl
  · simp only [World.setLoop, Function.update_of_ne hd]
    exact hi.loops d

/-- A loop may change its stage while it keeps its job. -/
theorem Invariant.setLoop (hi : Invariant registered w) {c : ℕ} {l : Loop}
    (hjob : l.job.map (·.id) = (w.loops c).job.map (·.id))
    (hl : LoopOk w.enqueued w.runs registered l) :
    Invariant registered (w.setLoop c l) where
  placed := hi.placed.same (at_setLoop_same w c l hjob) rfl
  queueNodup := hi.queueNodup
  processedNodup := hi.processedNodup
  failedNodup := hi.failedNodup
  queued := hi.queued
  loops := hi.loops_setLoop hl
  processed := hi.processed
  failed := hi.failed
  fresh := hi.fresh
  sorted := hi.sorted
  readers := hi.readers
  client := hi.client

/-- A loop that holds no job goes on to another place without one. -/
theorem Invariant.setIdle (hi : Invariant registered w) {c : ℕ} {l : Loop}
    (hold : (w.loops c).job = none) (hnew : l.job = none) :
    Invariant registered (w.setLoop c l) := by
  refine hi.setLoop ?_ (.idle hnew)
  rw [hold, hnew]

/-- Starting and stopping: the blocking client stays, goes away, or is a new one. -/
theorem Invariant.control (hi : Invariant registered w) (processing : Bool) {client : Option ℕ}
    (startup : Option Startup) {next : ℕ} (hnext : w.nextClient ≤ next)
    (hclient : ∀ c, client = some c →
      c < next ∧ (w.blockingClient = some c ∨ c = w.nextClient)) :
    Invariant registered { w with
      isProcessing := processing
      blockingClient := client
      startupPromise := startup
      nextClient := next } where
  placed := hi.placed
  queueNodup := hi.queueNodup
  processedNodup := hi.processedNodup
  failedNodup := hi.failedNodup
  queued := hi.queued
  loops := hi.loops
  processed := hi.processed
  failed := hi.failed
  fresh := hi.fresh
  sorted := hi.sorted
  readers d hd := by
    obtain ⟨hlt, hle⟩ := hi.readers d hd
    refine ⟨Nat.lt_of_lt_of_le hlt hnext, fun c hc => ?_⟩
    rcases (hclient c hc).2 with hold | rfl
    · exact hle c hold
    · exact Nat.le_of_lt hlt
  client c hc := (hclient c hc).1

/-- The owner reads: no loop of a later client has read. -/
theorem Invariant.issueRead (hi : Invariant registered w) {c : ℕ} (howns : w.Owns c) :
    Invariant registered { w with reads := w.reads ++ [c] } where
  placed := hi.placed
  queueNodup := hi.queueNodup
  processedNodup := hi.processedNodup
  failedNodup := hi.failedNodup
  queued := hi.queued
  loops := hi.loops
  processed := hi.processed
  failed := hi.failed
  fresh := hi.fresh
  sorted := by
    refine List.pairwise_append.mpr ⟨hi.sorted, List.pairwise_singleton _ _, fun d hd e he => ?_⟩
    obtain rfl := List.mem_singleton.mp he
    exact (hi.readers d hd).2 e howns.2
  readers d hd := by
    rcases List.mem_append.mp hd with hd | hd
    · exact hi.readers d hd
    · obtain rfl := List.mem_singleton.mp hd
      refine ⟨hi.client d howns.2, fun e he => ?_⟩
      exact Nat.le_of_eq (Option.some.inj (howns.2.symm.trans he))
  client := hi.client

/-- Taking a job from its queue keeps the invariant. -/
theorem Invariant.popped (hi : Invariant registered w) {c : ℕ} {p : TransactionPriority}
    {job : QueuedJob} (hloop : (w.loops c).job = none) (hlast : (w.queues p).getLast? = some job) :
    Invariant registered (w.popped registered c p job) := by
  have hmem : job ∈ w.queues p := List.mem_of_getLast? hlast
  have hok := hi.queued p job hmem
  have hids := mem_ids_dropLast hlast (hi.queueNodup p)
  have hsub : (w.queues p).dropLast.Sublist (w.queues p) := List.dropLast_sublist _
  have hw : w.popped registered c p job =
      ({ w with queues := Function.update w.queues p (w.queues p).dropLast }).setLoop c
        (.acquiring p { job with attempts := job.attempts + 1 }) := by
    rw [World.popped, if_pos hok.ok.registered]
  rw [hw]
  constructor
  case placed =>
    refine @Placed.move w _ hi.placed job.id (.queue p) (.hands c)
      (mem_ids.mpr ⟨job, hmem, rfl⟩) (fun j => ?_) (fun j => ?_) (fun j l hl₀ hl₁ => ?_) rfl
    · simp only [At, World.setLoop, Function.update_self]
      exact hids j
    · rw [at_setLoop_takes _ _ _ rfl]
      exact (or_iff_left (not_at_hands w c hloop)).symm
    · cases l with
      | queue p' =>
        have hp : p' ≠ p := fun h => hl₀ (by rw [h])
        simp only [At, World.setLoop, Function.update_of_ne hp]
      | hands d =>
        have hd : d ≠ c := fun h => hl₁ (by rw [h])
        rw [at_setLoop_hands, if_neg hd]
        rfl
      | processed => rfl
      | failed => rfl
  case queueNodup =>
    intro p'
    by_cases hp : p' = p
    · subst hp
      simp only [World.setLoop, Function.update_self]
      exact (hi.queueNodup p').sublist (hsub.map _)
    · simp only [World.setLoop, Function.update_of_ne hp]
      exact hi.queueNodup p'
  case queued =>
    intro p' job' hjob'
    by_cases hp : p' = p
    · subst hp
      simp only [World.setLoop, Function.update_self] at hjob'
      exact hi.queued p' job' (hsub.subset hjob')
    · simp only [World.setLoop, Function.update_of_ne hp] at hjob'
      exact hi.queued p' job' hjob'
  case loops =>
    refine hi.loops_setLoop
      ⟨⟨hok.ok.priority, hok.ok.genuine.attempts _, hok.ok.registered, hok.left⟩, ?_⟩
    exact congrArg (· + 1) hok.attempts
  case processedNodup => exact hi.processedNodup
  case failedNodup => exact hi.failedNodup
  case processed => exact hi.processed
  case failed => exact hi.failed
  case fresh => exact hi.fresh
  case sorted => exact hi.sorted
  case readers => exact hi.readers
  case client => exact hi.client

/-- A run of the handler starts; the other jobs that wait are not this one. -/
theorem Invariant.permit (hi : Invariant registered w) {c : ℕ} {q : TransactionPriority}
    {job : QueuedJob} (hloop : w.loops c = .acquiring q job) :
    Invariant registered { w.setLoop c (.handling q job) with
      runs := Function.update w.runs job.id (w.runs job.id + 1) } := by
  have hjob : (w.loops c).job = some job := by rw [hloop]; rfl
  have hat : w.At job.id (.hands c) := (at_hands w c hjob).mpr rfl
  have hok := hi.loops c
  rw [hloop] at hok
  have hruns : ∀ {j l}, w.At j l → l ≠ .hands c →
      Function.update w.runs job.id (w.runs job.id + 1) j = w.runs j := by
    intro j l hl hne
    refine Function.update_of_ne (fun hj => hne ?_) _ _
    exact hi.placed.unique hl (hj ▸ hat)
  constructor
  case placed =>
    refine hi.placed.same (fun j l => at_setLoop_same w c _ ?_ j l) rfl
    rw [hjob]
    rfl
  case queued =>
    intro p job' hjob'
    exact (hi.queued p job' hjob').congr
      (@hruns _ (.queue p) (mem_ids.mpr ⟨job', hjob', rfl⟩) (by simp))
  case loops =>
    intro d
    by_cases hd : d = c
    · subst hd
      simp only [World.setLoop, Function.update_self]
      refine ⟨hok.1, ?_⟩
      rw [Function.update_self, hok.2]
      rfl
    · simp only [World.setLoop, Function.update_of_ne hd]
      refine LoopOk.congr (hi.loops d) fun job' hjob' => @hruns _ (.hands d) ?_ ?_
      · exact (at_hands w d hjob').mpr rfl
      · intro h
        exact hd (Location.hands.inj h)
  case failed =>
    intro job' hjob'
    have hsame := @hruns job'.id .failed (mem_ids.mpr ⟨job', hjob', rfl⟩) (by simp)
    exact ⟨(hi.failed job' hjob').1, (congrArg Nat.cast hsame).trans (hi.failed job' hjob').2⟩
  case fresh =>
    intro j hj
    have hne : j ≠ job.id := by
      rintro rfl
      exact absurd hok.1.genuine.lt (Nat.not_lt.mpr hj)
    exact (Function.update_of_ne hne _ _).trans (hi.fresh j hj)
  case queueNodup => exact hi.queueNodup
  case processedNodup => exact hi.processedNodup
  case failedNodup => exact hi.failedNodup
  case processed => exact hi.processed
  case sorted => exact hi.sorted
  case readers => exact hi.readers
  case client => exact hi.client

/-- A job in the hands of a loop is new to every other place. -/
theorem nodup_append_held (hi : Invariant registered w) {c : ℕ} {job : QueuedJob}
    (hjob : (w.loops c).job = some job) {jobs : List QueuedJob} {l : Location}
    (hnodup : (ids jobs).Nodup) (hat : ∀ j ∈ ids jobs, w.At j l) (hl : l ≠ .hands c) :
    (ids (jobs ++ [job])).Nodup := by
  rw [ids_append]
  refine List.nodup_append.mpr ⟨hnodup, List.nodup_singleton _, fun j hj j' hj' heq => ?_⟩
  have hj₀ : j = job.id := heq.trans (List.mem_singleton.mp hj')
  exact hl (hi.placed.unique (hat j hj) ((at_hands w c hjob).mpr hj₀))

/-- The push back took effect: the job waits again in the queue it came from. -/
theorem Invariant.pushTakesEffect (hi : Invariant registered w) {c : ℕ} {q : TransactionPriority}
    {job : QueuedJob} (hloop : w.loops c = .requeueing q job) :
    Invariant registered { w.setLoop c .replying with
      queues := Function.update w.queues q (w.queues q ++ [job]) } := by
  have hjob : (w.loops c).job = some job := by rw [hloop]; rfl
  have hat : w.At job.id (.hands c) := (at_hands w c hjob).mpr rfl
  have hok := hi.loops c
  rw [hloop] at hok
  constructor
  case placed =>
    refine @Placed.move w _ hi.placed job.id (.hands c) (.queue q) hat
      (fun j => ?_) (fun j => ?_) (fun j l hl₀ hl₁ => ?_) rfl
    · rw [at_hands w c hjob]
      refine ⟨fun h => absurd h (not_at_setLoop w c _ rfl j), fun h => absurd h.2 h.1⟩
    · simp only [At, Function.update_self, ids_append, List.mem_append]
      exact (or_comm.trans (or_congr_left List.mem_singleton))
    · cases l with
      | queue p =>
        have hp : p ≠ q := fun h => hl₁ (by rw [h])
        simp only [At, Function.update_of_ne hp]
      | hands d =>
        have hd : d ≠ c := fun h => hl₀ (by rw [h])
        simp only [At, World.setLoop, Function.update_of_ne hd]
      | processed => rfl
      | failed => rfl
  case queueNodup =>
    intro p
    by_cases hp : p = q
    · subst hp
      simp only [Function.update_self]
      exact @nodup_append_held w registered hi c job hjob _ (.queue p) (hi.queueNodup p)
        (fun j hj => hj) (by simp)
    · simp only [Function.update_of_ne hp]
      exact hi.queueNodup p
  case queued =>
    intro p job' hjob'
    by_cases hp : p = q
    · subst hp
      simp only [Function.update_self] at hjob'
      rcases List.mem_append.mp hjob' with hjob' | hjob'
      · exact hi.queued p job' hjob'
      · obtain rfl := List.mem_singleton.mp hjob'
        exact hok
    · simp only [Function.update_of_ne hp] at hjob'
      exact hi.queued p job' hjob'
  case loops => exact hi.loops_setLoop (.idle rfl)
  case processedNodup => exact hi.processedNodup
  case failedNodup => exact hi.failedNodup
  case processed => exact hi.processed
  case failed => exact hi.failed
  case fresh => exact hi.fresh
  case sorted => exact hi.sorted
  case readers => exact hi.readers
  case client => exact hi.client

/-- The handler ran to its end. -/
theorem Invariant.handlerSucceeds (hi : Invariant registered w) {c : ℕ} {q : TransactionPriority}
    {job : QueuedJob} (hloop : w.loops c = .handling q job) :
    Invariant registered
      { w.setLoop c .check with processed := w.processed ++ [job] } := by
  have hjob : (w.loops c).job = some job := by rw [hloop]; rfl
  have hat : w.At job.id (.hands c) := (at_hands w c hjob).mpr rfl
  have hok := hi.loops c
  rw [hloop] at hok
  constructor
  case placed =>
    refine @Placed.move w _ hi.placed job.id (.hands c) .processed hat
      (fun j => ?_) (fun j => ?_) (fun j l hl₀ hl₁ => ?_) rfl
    · rw [at_hands w c hjob]
      exact ⟨fun h => absurd h (not_at_setLoop w c _ rfl j), fun h => absurd h.2 h.1⟩
    · simp only [At, ids_append, List.mem_append]
      exact or_comm.trans (or_congr_left List.mem_singleton)
    · cases l with
      | queue p => rfl
      | hands d =>
        have hd : d ≠ c := fun h => hl₀ (by rw [h])
        simp only [At, World.setLoop, Function.update_of_ne hd]
      | processed => exact absurd rfl hl₁
      | failed => rfl
  case processedNodup =>
    exact @nodup_append_held w registered hi c job hjob _ .processed hi.processedNodup
      (fun j hj => hj) (by simp)
  case processed =>
    intro job' hjob'
    rcases List.mem_append.mp hjob' with hjob' | hjob'
    · exact hi.processed job' hjob'
    · obtain rfl := List.mem_singleton.mp hjob'
      exact hok.1.genuine
  case loops => exact hi.loops_setLoop (.idle rfl)
  case queueNodup => exact hi.queueNodup
  case failedNodup => exact hi.failedNodup
  case queued => exact hi.queued
  case failed => exact hi.failed
  case fresh => exact hi.fresh
  case sorted => exact hi.sorted
  case readers => exact hi.readers
  case client => exact hi.client

/-- The handler failed in its last run. -/
theorem Invariant.lastRun (hi : Invariant registered w) {c : ℕ} {q : TransactionPriority}
    {job : QueuedJob} (hloop : w.loops c = .handling q job)
    (hlast : ¬ job.attempts < job.maxAttempts) :
    Invariant registered { w.setLoop c .check with failed := w.failed ++ [job] } := by
  have hjob : (w.loops c).job = some job := by rw [hloop]; rfl
  have hat : w.At job.id (.hands c) := (at_hands w c hjob).mpr rfl
  have hok := hi.loops c
  rw [hloop] at hok
  constructor
  case placed =>
    refine @Placed.move w _ hi.placed job.id (.hands c) .failed hat
      (fun j => ?_) (fun j => ?_) (fun j l hl₀ hl₁ => ?_) rfl
    · rw [at_hands w c hjob]
      exact ⟨fun h => absurd h (not_at_setLoop w c _ rfl j), fun h => absurd h.2 h.1⟩
    · simp only [At, ids_append, List.mem_append]
      exact or_comm.trans (or_congr_left List.mem_singleton)
    · cases l with
      | queue p => rfl
      | hands d =>
        have hd : d ≠ c := fun h => hl₀ (by rw [h])
        simp only [At, World.setLoop, Function.update_of_ne hd]
      | processed => rfl
      | failed => exact absurd rfl hl₁
  case failedNodup =>
    exact @nodup_append_held w registered hi c job hjob _ .failed hi.failedNodup
      (fun j hj => hj) (by simp)
  case failed =>
    intro job' hjob'
    rcases List.mem_append.mp hjob' with hjob' | hjob'
    · exact hi.failed job' hjob'
    · obtain rfl := List.mem_singleton.mp hjob'
      refine ⟨hok.1.genuine, ?_⟩
      have hbound := hok.1.bound
      have hruns : (w.runs job'.id : ℤ) = job'.attempts := hok.2.symm
      have hmax : job'.attempts = job'.maxAttempts := by omega
      exact hruns.trans hmax
  case loops => exact hi.loops_setLoop (.idle rfl)
  case queueNodup => exact hi.queueNodup
  case processedNodup => exact hi.processedNodup
  case queued => exact hi.queued
  case processed => exact hi.processed
  case fresh => exact hi.fresh
  case sorted => exact hi.sorted
  case readers => exact hi.readers
  case client => exact hi.client

/-- A handler that fails keeps the invariant. -/
theorem Invariant.handlerFails (hi : Invariant registered w) {c : ℕ} {q : TransactionPriority}
    {job : QueuedJob} (hloop : w.loops c = .handling q job) :
    Invariant registered (w.handlerFails c q job) := by
  have hok := hi.loops c
  rw [hloop] at hok
  simp only [World.handlerFails]
  split
  · next hleft => exact hi.setLoop (by rw [hloop]; rfl) ⟨hok.1, hok.2, hleft⟩
  · next hlast => exact hi.lastRun hloop hlast

/-- The first push of a job. -/
theorem Invariant.enqueue (hi : Invariant registered w) (jobName : String)
    (priority : TransactionPriority) (maxAttempts : ℤ) (hname : registered jobName = true)
    (hmax : 1 ≤ maxAttempts) : Invariant registered (w.enqueue jobName priority maxAttempts) := by
  have hgenuine : ∀ {job}, Genuine w.enqueued job → Genuine
      (w.enqueue jobName priority maxAttempts).enqueued job := fun h => h.append _
  constructor
  case placed =>
    refine @Placed.add w _ hi.placed (.queue priority) (fun j => ?_) (fun j l hl => ?_) ?_
    · simp only [At, World.enqueue, Function.update_self]
      exact List.mem_cons
    · cases l with
      | queue p =>
        have hp : p ≠ priority := fun h => hl (by rw [h])
        simp only [At, World.enqueue, Function.update_of_ne hp]
      | hands d => rfl
      | processed => rfl
      | failed => rfl
    · simp only [World.enqueue, List.length_append, List.length_singleton]
  case queueNodup =>
    intro p
    by_cases hp : p = priority
    · subst hp
      simp only [World.enqueue, Function.update_self]
      refine List.nodup_cons.mpr ⟨fun hmem => ?_, hi.queueNodup p⟩
      exact absurd (@Placed.lt w hi.placed _ (.queue p) hmem) (Nat.lt_irrefl _)
    · simp only [World.enqueue, Function.update_of_ne hp]
      exact hi.queueNodup p
  case queued =>
    intro p job hjob
    by_cases hp : p = priority
    · subst hp
      simp only [World.enqueue, Function.update_self] at hjob
      rcases List.mem_cons.mp hjob with rfl | hjob
      · refine ⟨⟨rfl, ?_, hname, ?_⟩, ?_, ?_⟩
        · exact ⟨⟨w.enqueued.length, jobName, p, 0, maxAttempts⟩,
            List.getElem?_concat_length, rfl⟩
        · exact Int.le_trans Int.one_nonneg hmax
        · exact (congrArg Nat.cast (hi.fresh _ (Nat.le_refl _))).symm
        · exact hmax
      · exact (hi.queued p job hjob).append _
    · simp only [World.enqueue, Function.update_of_ne hp] at hjob
      exact (hi.queued p job hjob).append _
  case loops => exact fun c => LoopOk.append (hi.loops c) _
  case processed => exact fun job hjob => hgenuine (hi.processed job hjob)
  case failed => exact fun job hjob => (hi.failed job hjob).imp_left hgenuine
  case fresh =>
    intro j hj
    simp only [World.enqueue, List.length_append, List.length_singleton] at hj
    exact hi.fresh j (Nat.le_of_succ_le hj)
  case processedNodup => exact hi.processedNodup
  case failedNodup => exact hi.failedNodup
  case sorted => exact hi.sorted
  case readers => exact hi.readers
  case client => exact hi.client

end World

end Ascendance.TransactionQueue
