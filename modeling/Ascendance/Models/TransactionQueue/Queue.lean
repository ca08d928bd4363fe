import Ascendance.Core.Transition
import Mathlib.Data.Int.Notation
import Mathlib.Logic.Function.Basic

/-!
# The transaction queue

Jobs wait in one Redis list for each priority. A processing loop, one for each
blocking client that a start has connected, pops a job, runs its handler, and
pushes the job back when the handler fails and attempts are left. Starts, stops,
loops and Redis replies interleave in any order.
-/

namespace Ascendance.TransactionQueue

open Ascendance.Core

/-- The priorities of the queues. -/
inductive TransactionPriority
  | critical
  | high
  | normal
  | low
  deriving DecidableEq, Repr

/-- A job with the runs it has had and may have. -/
structure QueuedJob where
  id : ℕ
  jobName : String
  priority : TransactionPriority
  attempts : ℤ
  maxAttempts : ℤ
  deriving DecidableEq, Repr

/-- Where a processing loop stands. -/
inductive Loop
  | absent
  /-- About to evaluate the condition of the loop, or asleep before that. -/
  | check
  | reading
  /-- Popped from a queue; the read permit is not there yet. -/
  | acquiring (queueName : TransactionPriority) (job : QueuedJob)
  | handling (queueName : TransactionPriority) (job : QueuedJob)
  /-- The handler failed and the push back has been sent. -/
  | requeueing (queueName : TransactionPriority) (job : QueuedJob)
  /-- The push back took effect; its reply is outstanding. -/
  | replying
  | crashed
  | ended
  deriving DecidableEq, Repr

/-- The job in the hands of a loop. -/
def Loop.job : Loop → Option QueuedJob
  | .acquiring _ job | .handling _ job | .requeueing _ job => some job
  | .absent | .check | .reading | .replying | .crashed | .ended => none

/-- A startup under way: its client, and whether it is over but for its promise. -/
structure Startup where
  client : ℕ
  settled : Bool
  deriving DecidableEq, Repr

/-- The service, its queues and loops, and what has happened to the jobs. -/
structure World where
  queues : TransactionPriority → List QueuedJob
  isProcessing : Bool
  blockingClient : Option ℕ
  startupPromise : Option Startup
  /-- The loop of each blocking client. -/
  loops : ℕ → Loop
  nextClient : ℕ
  /-- The jobs as they were enqueued; a job's identifier is its place here. -/
  enqueued : List QueuedJob
  /-- How often the handler of a job has been run. -/
  runs : ℕ → ℕ
  processed : List QueuedJob
  failed : List QueuedJob
  /-- The clients whose loops issued blocking reads, oldest first. -/
  reads : List ℕ

/-- What can happen: jobs are enqueued, processing is started and stopped, a loop takes its next
step. -/
inductive Event
  /-- A job's first push takes effect, whatever is reported to the caller. -/
  | enqueue (jobName : String) (priority : TransactionPriority) (maxAttempts : ℤ)
  | startProcessing
  | connected
  | connectFails
  | startupSettled
  | stopProcessing
  | exit (client : ℕ)
  | issueRead (client : ℕ)
  /-- The read returns the job at the end of the first queue that has one. -/
  | popped (client : ℕ)
  | poppedNothing (client : ℕ)
  | readFails (client : ℕ) (retryable : Bool)
  | permit (client : ℕ)
  | handlerSucceeds (client : ℕ)
  | handlerFails (client : ℕ)
  | pushTakesEffect (client : ℕ)
  | pushReplies (client : ℕ) (ok : Bool)
  /-- The push back fails without having taken effect. -/
  | pushLost (client : ℕ)
  | crashHandled (client : ℕ)

/-- The client whose loop takes a step. -/
def Event.client : Event → Option ℕ
  | .exit c | .issueRead c | .popped c | .poppedNothing c | .readFails c _ | .permit c
  | .handlerSucceeds c | .handlerFails c | .pushTakesEffect c | .pushReplies c _ | .pushLost c
  | .crashHandled c => some c
  | .enqueue _ _ _ | .startProcessing | .connected | .connectFails | .startupSettled
  | .stopProcessing => none

/-- The queues in the order in which a blocking read looks at them. -/
def readOrder : List TransactionPriority := [.critical, .high, .normal, .low]

namespace World

/-- Nothing is enqueued and nothing runs. -/
def initial : World where
  queues := fun _ => []
  isProcessing := false
  blockingClient := none
  startupPromise := none
  loops := fun _ => .absent
  nextClient := 0
  enqueued := []
  runs := fun _ => 0
  processed := []
  failed := []
  reads := []

/-- The condition of the loop of a client. -/
def Owns (w : World) (client : ℕ) : Prop := w.isProcessing = true ∧ w.blockingClient = some client

instance (w : World) (client : ℕ) : Decidable (w.Owns client) := by
  unfold Owns
  infer_instance

/-- Put the loop of a client into another stage. -/
def setLoop (w : World) (client : ℕ) (l : Loop) : World :=
  { w with loops := Function.update w.loops client l }

/-- The queue that a blocking read pops from. -/
def firstQueue (w : World) : Option TransactionPriority :=
  readOrder.find? fun p => w.queues p ≠ []

/-- `enqueue`, its push. -/
def enqueue (w : World) (jobName : String) (priority : TransactionPriority) (maxAttempts : ℤ) :
    World :=
  let job : QueuedJob := ⟨w.enqueued.length, jobName, priority, 0, maxAttempts⟩
  { w with
    queues := Function.update w.queues priority (job :: w.queues priority)
    enqueued := w.enqueued ++ [job] }

/-- `startProcessing`: a startup under way is shared. -/
def startProcessing (w : World) : World :=
  if w.startupPromise.isSome then w
  else if w.isProcessing then w
  else { w with
    blockingClient := some w.nextClient
    startupPromise := some ⟨w.nextClient, false⟩
    nextClient := w.nextClient + 1 }

/-- The client has connected; unless it was stopped meanwhile, its loop is launched. -/
def connected (w : World) (client : ℕ) : World :=
  if w.blockingClient ≠ some client then { w with startupPromise := some ⟨client, true⟩ }
  else
    ({ w with isProcessing := true, startupPromise := some ⟨client, true⟩ }).setLoop client .check

/-- A client that failed is given up, if it is still the current one. -/
def giveUp (w : World) (client : ℕ) : World :=
  if w.blockingClient = some client then { w with blockingClient := none, isProcessing := false }
  else w

/-- An error inside the loop ends it when it has been stopped, and crashes it otherwise. -/
def raise (w : World) (client : ℕ) : World :=
  w.setLoop client (if w.Owns client then .crashed else .ended)

/-- A job has been popped: it is lost to its queue, and a job without a handler is dropped. -/
def popped (w : World) (registered : String → Bool) (client : ℕ) (p : TransactionPriority)
    (job : QueuedJob) : World :=
  let w := { w with queues := Function.update w.queues p (w.queues p).dropLast }
  let job := { job with attempts := job.attempts + 1 }
  w.setLoop client (if registered job.jobName then .acquiring p job else .check)

/-- The handler of a job has failed: push it back, or count it as failed. -/
def handlerFails (w : World) (client : ℕ) (queueName : TransactionPriority) (job : QueuedJob) :
    World :=
  if job.attempts < job.maxAttempts then w.setLoop client (.requeueing queueName job)
  else { w.setLoop client .check with failed := w.failed ++ [job] }

/-- A step of the loop of a client. -/
def loopStep (w : World) (registered : String → Bool) : Event → Loop → Option World
  | .exit c, .check => if w.Owns c then none else some (w.setLoop c .ended)
  | .issueRead c, .check =>
    if w.Owns c then some { w.setLoop c .reading with reads := w.reads ++ [c] } else none
  | .popped c, .reading =>
    w.firstQueue.bind fun p => (w.queues p).getLast?.map fun job => w.popped registered c p job
  | .poppedNothing c, .reading => some (w.setLoop c .check)
  | .readFails c retryable, .reading =>
    if w.Owns c ∧ retryable = true then some (w.setLoop c .check) else some (w.raise c)
  | .permit c, .acquiring q job =>
    some { w.setLoop c (.handling q job) with
      runs := Function.update w.runs job.id (w.runs job.id + 1) }
  | .handlerSucceeds c, .handling _ job =>
    some { w.setLoop c .check with processed := w.processed ++ [job] }
  | .handlerFails c, .handling q job => some (w.handlerFails c q job)
  | .pushTakesEffect c, .requeueing q job =>
    some { w.setLoop c .replying with
      queues := Function.update w.queues q (w.queues q ++ [job]) }
  | .pushReplies c ok, .replying => some (if ok then w.setLoop c .check else w.raise c)
  | .pushLost c, .requeueing _ _ => some (w.raise c)
  | .crashHandled c, .crashed => some ((w.giveUp c).setLoop c .ended)
  | _, _ => none

/-- The effect of an event, where it can happen. -/
def step (registered : String → Bool) (w : World) (e : Event) : Option World :=
  match e with
  | .enqueue jobName priority maxAttempts => some (w.enqueue jobName priority maxAttempts)
  | .startProcessing => some w.startProcessing
  | .connected =>
    match w.startupPromise with
    | some ⟨client, false⟩ => some (w.connected client)
    | _ => none
  | .connectFails =>
    match w.startupPromise with
    | some ⟨client, false⟩ =>
      some { w.giveUp client with startupPromise := some ⟨client, true⟩ }
    | _ => none
  | .startupSettled =>
    match w.startupPromise with
    | some ⟨_, true⟩ => some { w with startupPromise := none }
    | _ => none
  | .stopProcessing => some { w with isProcessing := false, blockingClient := none }
  | .exit c | .issueRead c | .popped c | .poppedNothing c | .readFails c _ | .permit c
  | .handlerSucceeds c | .handlerFails c | .pushTakesEffect c | .pushReplies c _ | .pushLost c
  | .crashHandled c => w.loopStep registered e (w.loops c)

end World

end Ascendance.TransactionQueue
