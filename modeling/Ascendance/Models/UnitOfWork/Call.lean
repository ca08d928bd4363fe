import Ascendance.Models.UnitOfWork.Errors

/-!
# One transactional call

A call of `executeInTransaction` that opens its own transaction. The steps
between two awaits are one step here. The driver, the body and the session are
the environment: every event says what one of them did. The list of attempts
records the truth about each body attempt; no step looks at it.
-/

namespace Ascendance.UnitOfWork

open Ascendance.Core

/-- The configuration of a call; every field may be missing. -/
structure TransactionConfig where
  maxAttempts : Option JsNumber
  maxBodyAttempts : Option JsNumber
  maxCommitAttempts : Option JsNumber
  semaphoreWaitTimeoutMs : Option JsNumber
  deriving DecidableEq, Repr

/-- The configuration without any field. -/
def TransactionConfig.empty : TransactionConfig := ⟨none, none, none, none⟩

/-- The limits and the timeout that a call works with. -/
structure ResolvedTransactionConfig where
  maxBodyAttempts : Nat
  /-- The body may be tried at least once. -/
  maxBodyAttempts_pos : 0 < maxBodyAttempts
  maxCommitAttempts : Nat
  /-- A commit may be tried at least once. -/
  maxCommitAttempts_pos : 0 < maxCommitAttempts
  semaphoreWaitTimeoutMs : ℚ

/-- A missing or non-finite limit is the fallback; others are rounded down and at least one. -/
def resolveAttemptLimit (value : Option JsNumber) (fallback : Nat) : Nat :=
  match value with
  | none | some .nan | some (.infinity _) => fallback
  | some (.finite q) => (max 1 ⌊q⌋).toNat

/-- Every resolved limit is at least one. -/
theorem resolveAttemptLimit_pos (value : Option JsNumber) {fallback : Nat} (h : 0 < fallback) :
    0 < resolveAttemptLimit value fallback := by
  unfold resolveAttemptLimit
  split
  · exact h
  · exact h
  · exact h
  · omega

/-- The limits of a call, where the old common limit stands in for a missing one. -/
def resolveTransactionConfig (config : TransactionConfig) : ResolvedTransactionConfig where
  maxBodyAttempts := resolveAttemptLimit (config.maxBodyAttempts <|> config.maxAttempts) 8
  maxBodyAttempts_pos := resolveAttemptLimit_pos _ (by decide)
  maxCommitAttempts := resolveAttemptLimit (config.maxCommitAttempts <|> config.maxAttempts) 8
  maxCommitAttempts_pos := resolveAttemptLimit_pos _ (by decide)
  semaphoreWaitTimeoutMs :=
    match config.semaphoreWaitTimeoutMs with
    | none | some .nan | some (.infinity _) => 30000
    | some (.finite q) => max 0 q

/-- The truth about one body attempt. -/
structure Attempt where
  /-- The body was invoked. -/
  ran : Bool
  /-- Its writes are committed. -/
  committed : Bool
  /-- The body ended the transaction itself. -/
  endedByBody : Bool
  /-- How often a commit was tried. -/
  commits : Nat
  deriving DecidableEq, Repr

/-- An attempt about to start. -/
def Attempt.fresh : Attempt := ⟨false, false, false, 0⟩

/-- How a call ends. -/
inductive Outcome (β : Type)
  | resolved (value : β)
  | rejected (error : Thrown)
  deriving DecidableEq, Repr

/-- Where an error that ends an attempt was caught. -/
inductive Caught
  | body
  | commit
  deriving DecidableEq, Repr

/-- Where a call stands. -/
inductive Phase (β : Type)
  /-- Awaiting `startSession`. -/
  | opening
  /-- Before `startTransaction`. -/
  | entering
  /-- Awaiting the body. -/
  | running
  /-- Awaiting `abortTransaction` after an error. -/
  | aborting (error : Thrown) (caught : Caught)
  /-- Awaiting the delay before the body is run again. -/
  | backingOff
  /-- Awaiting `commitTransaction`, with the value of the body. -/
  | committing (value : β)
  /-- Awaiting the delay before the commit is tried again. -/
  | recommitting (value : β)
  /-- The outcome is recorded and `endSession` is awaited. -/
  | closing (outcome : Outcome β)
  | settled (outcome : Outcome β)
  deriving DecidableEq, Repr

/-- A call that holds a permit. -/
structure Call (β : Type) where
  cfg : ResolvedTransactionConfig
  phase : Phase β
  /-- The loop variable of the outer loop. -/
  bodyAttempt : Nat
  /-- The loop variable of the inner loop. -/
  commitAttempt : Nat
  /-- What the driver's session answers to `inTransaction`. -/
  inTransaction : Bool
  /-- The body attempts, the latest first. -/
  attempts : List Attempt
  /-- `startSession` or `startTransaction` has failed. -/
  startFailed : Bool

/-- What the metrics tracker is told. -/
inductive Record
  | attempt
  | commitAttempt
  | retry (caught : Caught)
  | success (attempt : Nat)
  | failure
  | ambiguous
  | rejected
  deriving DecidableEq, Repr

/-- What the environment does. -/
inductive Event (β : Type)
  | sessionStarts
  | sessionFails (error : Thrown)
  | transactionStarts
  | transactionFails (error : Thrown)
  /-- The running body commits or aborts the transaction itself. -/
  | bodyEnds (committed : Bool)
  | bodyReturns (value : β)
  | bodyThrows (error : Thrown)
  | aborts
  | abortFails (inTransaction : Bool)
  | waits
  | commits
  /-- The commit is answered with an error; it may have taken effect all the same. -/
  | commitFails (error : Thrown) (effect : Bool) (inTransaction : Bool)
  | sessionEnds
  deriving DecidableEq, Repr

variable {β : Type}

/-- A call that was just given its permit. -/
def Call.start (cfg : ResolvedTransactionConfig) : Call β :=
  ⟨cfg, .opening, 0, 0, false, [], false⟩

namespace Call

/-- Change the latest attempt. -/
def mark (c : Call β) (f : Attempt → Attempt) : Call β :=
  { c with attempts := c.attempts.modifyHead f }

/-- The call resolves: a success is recorded. -/
def resolve (c : Call β) (value : β) : Call β × List Record :=
  ({ c with phase := .closing (.resolved value) }, [.success c.bodyAttempt])

/-- What the outer catch clause records of an error. -/
def rejectRecord (error : Thrown) : Record :=
  if error.ambiguous then .ambiguous else .failure

/-- The call rejects: the outer catch clause records the error. -/
def reject (c : Call β) (error : Thrown) : Call β × List Record :=
  ({ c with phase := .closing (.rejected error) }, [rejectRecord error])

/-- The head of the outer loop. -/
def enter (c : Call β) (bodyAttempt : Nat) : Call β × List Record :=
  if bodyAttempt ≤ c.cfg.maxBodyAttempts then
    ({ c with
      phase := .entering
      bodyAttempt := bodyAttempt
      attempts := .fresh :: c.attempts }, [.attempt])
  else c.reject plainError

/-- The head of the inner loop; past its limit the outer loop goes on. -/
def tryCommit (c : Call β) (commitAttempt : Nat) (value : β) : Call β × List Record :=
  if commitAttempt ≤ c.cfg.maxCommitAttempts then
    ({ c.mark (fun a => { a with commits := a.commits + 1 }) with
      phase := .committing value
      commitAttempt := commitAttempt }, [.commitAttempt])
  else c.enter (c.bodyAttempt + 1)

/-- Whether an error lets the body be run again. -/
def retryable (error : Thrown) : Caught → Bool
  | .body => isRetryableTransactionBodyError error
  | .commit => isTransientTransactionError error

/-- The catch clauses of both loops after `abortIfActive`. -/
def afterAbort (c : Call β) (error : Thrown) (caught : Caught) (abortSucceeded : Bool) :
    Call β × List Record :=
  if abortSucceeded ∧ retryable error caught ∧ c.bodyAttempt < c.cfg.maxBodyAttempts then
    ({ c with phase := .backingOff }, [.retry .body])
  else c.reject error

/-- `abortIfActive`: a transaction that is not active needs no abort. -/
def abortIfActive (c : Call β) (error : Thrown) (caught : Caught) : Call β × List Record :=
  if c.inTransaction then ({ c with phase := .aborting error caught }, [])
  else c.afterAbort error caught true

/-- The inner catch clause for an error of `commitTransaction`. -/
def commitFailed (c : Call β) (value : β) (error : Thrown) : Call β × List Record :=
  if isUnknownTransactionCommitResult error then
    if ¬ isMaxTimeMSExpiredError error ∧ c.commitAttempt < c.cfg.maxCommitAttempts then
      ({ c with phase := .recommitting value }, [.retry .commit])
    else c.reject (ambiguousTransactionCommitError error)
  else c.abortIfActive error .commit

/-- One step of a call, with what it tells the metrics tracker. -/
def step (c : Call β) : Event β → Option (Call β × List Record)
  | .sessionStarts =>
    match c.phase with
    | .opening => some (c.enter 1)
    | _ => none
  | .sessionFails error =>
    match c.phase with
    | .opening =>
      some ({ c with phase := .settled (.rejected error), startFailed := true },
        [rejectRecord error])
    | _ => none
  | .transactionStarts =>
    match c.phase with
    | .entering =>
      some ({ c.mark (fun a => { a with ran := true }) with
        phase := .running
        inTransaction := true }, [])
    | _ => none
  | .transactionFails error =>
    match c.phase with
    | .entering => some ({ c with startFailed := true }.abortIfActive error .body)
    | _ => none
  | .bodyEnds committed =>
    match c.phase, c.inTransaction with
    | .running, true =>
      some ({ c.mark (fun a => { a with committed := committed, endedByBody := true }) with
        inTransaction := false }, [])
    | _, _ => none
  | .bodyReturns value =>
    match c.phase with
    | .running => some (if c.inTransaction then c.tryCommit 1 value else c.resolve value)
    | _ => none
  | .bodyThrows error =>
    match c.phase with
    | .running => some (c.abortIfActive error .body)
    | _ => none
  | .aborts =>
    match c.phase with
    | .aborting error caught =>
        some ({ c with inTransaction := false }.afterAbort error caught true)
    | _ => none
  | .abortFails inTransaction =>
    match c.phase with
    | .aborting error caught =>
      some ({ c with inTransaction := inTransaction }.afterAbort error caught false)
    | _ => none
  | .waits =>
    match c.phase with
    | .backingOff => some (c.enter (c.bodyAttempt + 1))
    | .recommitting value => some (c.tryCommit (c.commitAttempt + 1) value)
    | _ => none
  | .commits =>
    match c.phase with
    | .committing value =>
      some ({ c.mark (fun a => { a with committed := true }) with
        inTransaction := false }.resolve value)
    | _ => none
  | .commitFails error effect inTransaction =>
    match c.phase with
    | .committing value =>
      some ({ c.mark (fun a => { a with committed := a.committed || effect }) with
        inTransaction := inTransaction }.commitFailed value error)
    | _ => none
  | .sessionEnds =>
    match c.phase with
    | .closing outcome => some ({ c with phase := .settled outcome, inTransaction := false }, [])
    | _ => none

@[simp] theorem mark_attempts (c : Call β) (f : Attempt → Attempt) :
    (c.mark f).attempts = c.attempts.modifyHead f := rfl

@[simp] theorem mark_phase (c : Call β) (f : Attempt → Attempt) :
    (c.mark f).phase = c.phase := rfl

@[simp] theorem mark_cfg (c : Call β) (f : Attempt → Attempt) : (c.mark f).cfg = c.cfg := rfl

@[simp] theorem mark_bodyAttempt (c : Call β) (f : Attempt → Attempt) :
    (c.mark f).bodyAttempt = c.bodyAttempt := rfl

@[simp] theorem reject_attempts (c : Call β) (error : Thrown) :
    (c.reject error).1.attempts = c.attempts := rfl

@[simp] theorem afterAbort_attempts (c : Call β) (error : Thrown) (caught : Caught) (ok : Bool) :
    (c.afterAbort error caught ok).1.attempts = c.attempts := by
  unfold afterAbort; split <;> rfl

@[simp] theorem abortIfActive_attempts (c : Call β) (error : Thrown) (caught : Caught) :
    (c.abortIfActive error caught).1.attempts = c.attempts := by
  unfold abortIfActive; split <;> simp

@[simp] theorem commitFailed_attempts (c : Call β) (value : β) (error : Thrown) :
    (c.commitFailed value error).1.attempts = c.attempts := by
  unfold commitFailed
  split
  · split <;> rfl
  · simp

@[simp] theorem enter_cfg (c : Call β) (n : Nat) : (c.enter n).1.cfg = c.cfg := by
  unfold enter; split <;> rfl

@[simp] theorem tryCommit_cfg (c : Call β) (n : Nat) (value : β) :
    (c.tryCommit n value).1.cfg = c.cfg := by
  unfold tryCommit; split <;> simp

@[simp] theorem afterAbort_cfg (c : Call β) (error : Thrown) (caught : Caught) (ok : Bool) :
    (c.afterAbort error caught ok).1.cfg = c.cfg := by
  unfold afterAbort; split <;> rfl

@[simp] theorem abortIfActive_cfg (c : Call β) (error : Thrown) (caught : Caught) :
    (c.abortIfActive error caught).1.cfg = c.cfg := by
  unfold abortIfActive; split <;> simp

@[simp] theorem commitFailed_cfg (c : Call β) (value : β) (error : Thrown) :
    (c.commitFailed value error).1.cfg = c.cfg := by
  unfold commitFailed
  split
  · split <;> rfl
  · simp

/-- The head of the outer loop adds a fresh attempt, or nothing past the limit. -/
theorem enter_attempts (c : Call β) (n : Nat) :
    (c.enter n).1.attempts = .fresh :: c.attempts ∨ (c.enter n).1.attempts = c.attempts := by
  unfold enter
  split
  · exact Or.inl rfl
  · exact Or.inr rfl

/-- What one step can do, for each event and the phase it is possible in. -/
inductive Stepped (c : Call β) : Event β → Call β × List Record → Prop
  | sessionStarts (hp : c.phase = .opening) : Stepped c .sessionStarts (c.enter 1)
  | sessionFails (hp : c.phase = .opening) (error : Thrown) :
      Stepped c (.sessionFails error)
        ({ c with phase := .settled (.rejected error), startFailed := true },
          [rejectRecord error])
  | transactionStarts (hp : c.phase = .entering) :
      Stepped c .transactionStarts
        ({ c.mark (fun a => { a with ran := true }) with
          phase := .running
          inTransaction := true }, [])
  | transactionFails (hp : c.phase = .entering) (error : Thrown) :
      Stepped c (.transactionFails error) ({ c with startFailed := true }.abortIfActive error .body)
  | bodyEnds (hp : c.phase = .running) (hi : c.inTransaction = true) (committed : Bool) :
      Stepped c (.bodyEnds committed)
        ({ c.mark (fun a => { a with committed := committed, endedByBody := true }) with
          inTransaction := false }, [])
  | bodyReturns (hp : c.phase = .running) (value : β) :
      Stepped c (.bodyReturns value)
        (if c.inTransaction then c.tryCommit 1 value else c.resolve value)
  | bodyThrows (hp : c.phase = .running) (error : Thrown) :
      Stepped c (.bodyThrows error) (c.abortIfActive error .body)
  | aborts {error : Thrown} {caught : Caught} (hp : c.phase = .aborting error caught) :
      Stepped c .aborts ({ c with inTransaction := false }.afterAbort error caught true)
  | abortFails {error : Thrown} {caught : Caught} (hp : c.phase = .aborting error caught)
      (inTransaction : Bool) :
      Stepped c (.abortFails inTransaction)
        ({ c with inTransaction := inTransaction }.afterAbort error caught false)
  | waits (hp : c.phase = .backingOff) : Stepped c .waits (c.enter (c.bodyAttempt + 1))
  | recommits {value : β} (hp : c.phase = .recommitting value) :
      Stepped c .waits (c.tryCommit (c.commitAttempt + 1) value)
  | commits {value : β} (hp : c.phase = .committing value) :
      Stepped c .commits
        ({ c.mark (fun a => { a with committed := true }) with
          inTransaction := false }.resolve value)
  | commitFails {value : β} (hp : c.phase = .committing value) (error : Thrown) (effect : Bool)
      (inTransaction : Bool) :
      Stepped c (.commitFails error effect inTransaction)
        ({ c.mark (fun a => { a with committed := a.committed || effect }) with
          inTransaction := inTransaction }.commitFailed value error)
  | sessionEnds {outcome : Outcome β} (hp : c.phase = .closing outcome) :
      Stepped c .sessionEnds ({ c with phase := .settled outcome, inTransaction := false }, [])

/-- Every step is one of these. -/
theorem step_cases {c : Call β} {x : Event β} {r : Call β × List Record}
    (h : c.step x = some r) : Stepped c x r := by
  cases x with
  | sessionStarts =>
    simp only [step] at h
    split at h
    · next hp => exact Option.some.inj h ▸ .sessionStarts hp
    · cases h
  | sessionFails error =>
    simp only [step] at h
    split at h
    · next hp => exact Option.some.inj h ▸ .sessionFails hp error
    · cases h
  | transactionStarts =>
    simp only [step] at h
    split at h
    · next hp => exact Option.some.inj h ▸ .transactionStarts hp
    · cases h
  | transactionFails error =>
    simp only [step] at h
    split at h
    · next hp => exact Option.some.inj h ▸ .transactionFails hp error
    · cases h
  | bodyEnds committed =>
    simp only [step] at h
    split at h
    · next hp hi => exact Option.some.inj h ▸ .bodyEnds hp hi committed
    · cases h
  | bodyReturns value =>
    simp only [step] at h
    split at h
    · next hp => exact Option.some.inj h ▸ .bodyReturns hp value
    · cases h
  | bodyThrows error =>
    simp only [step] at h
    split at h
    · next hp => exact Option.some.inj h ▸ .bodyThrows hp error
    · cases h
  | aborts =>
    simp only [step] at h
    split at h
    · next hp => exact Option.some.inj h ▸ .aborts hp
    · cases h
  | abortFails inTransaction =>
    simp only [step] at h
    split at h
    · next hp => exact Option.some.inj h ▸ .abortFails hp inTransaction
    · cases h
  | waits =>
    simp only [step] at h
    split at h
    · next hp => exact Option.some.inj h ▸ .waits hp
    · next hp => exact Option.some.inj h ▸ .recommits hp
    · cases h
  | commits =>
    simp only [step] at h
    split at h
    · next hp => exact Option.some.inj h ▸ .commits hp
    · cases h
  | commitFails error effect inTransaction =>
    simp only [step] at h
    split at h
    · next hp => exact Option.some.inj h ▸ .commitFails hp error effect inTransaction
    · cases h
  | sessionEnds =>
    simp only [step] at h
    split at h
    · next hp => exact Option.some.inj h ▸ .sessionEnds hp
    · cases h

end Call

end Ascendance.UnitOfWork
