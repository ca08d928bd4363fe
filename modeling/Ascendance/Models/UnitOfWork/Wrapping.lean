import Ascendance.Models.UnitOfWork.Errors

/-!
# Wrapped errors

An error that the driver throws inside a transaction passes the catch blocks of the
repositories before the unit of work inspects it. Some rethrow it, some attach it as the
cause of an error of the application, and some make an error of its message only; after
those the labels of the driver are lost.

The texts and codes for clients are read by none of them, and left out but for the names and
messages.
-/

namespace Ascendance.UnitOfWork

open Ascendance.Core

/-- Every reference leads to an object. -/
structure Thrown.Closed (error : Thrown) : Prop where
  value : ∀ i, error.value = some i → i < error.objects.length
  cause : ∀ o ∈ error.objects, ∀ i, o.cause = some i → i < error.objects.length

/-- A caught value, with what the catch blocks read of it. -/
structure CaughtError where
  thrown : Thrown
  closed : thrown.Closed
  /-- `error instanceof Error` -/
  isError : Bool
  /-- `error instanceof AppError` -/
  isAppError : Bool
  /-- The name of an object, if it is a string. -/
  name : Option String
  /-- The keys of the property `keyValue`, if it is there. -/
  keyValue : Option (List String)
  /-- `getErrorMessage(error)` -/
  message : String
  /-- `error instanceof Error ? error.message : String(error)` -/
  text : String

/-- The keys of `errorMap`. -/
inductive ErrorType
  | validationError
  | unauthorizedError
  | authenticationError
  | pathError
  | notFoundError
  | forbiddenError
  | duplicateError
  | internalServerError
  | storageError
  | uploadError
  | feedError
  | unknownError
  | transactionError
  | uowError
  | databaseError
  | securityError
  | configError
  | conflictError
  deriving DecidableEq, Repr

/-- The name that the class gives to its errors. -/
def ErrorType.name : ErrorType → String
  | validationError => "ValidationError"
  | unauthorizedError => "UnauthorizedError"
  | authenticationError => "AuthenticationError"
  | pathError => "PathError"
  | notFoundError => "NotFoundError"
  | forbiddenError => "ForbiddenError"
  | duplicateError => "DuplicateError"
  | internalServerError => "InternalServerError"
  | storageError => "StorageError"
  | uploadError => "UploadError"
  | feedError => "FeedError"
  | unknownError => "UnknownError"
  | transactionError => "TransactionError"
  | uowError => "UoWError"
  | databaseError => "DatabaseError"
  | securityError => "SecurityError"
  | configError => "ConfigError"
  | conflictError => "ConflictError"

/-- The objects of an error with a cause: those of the cause, and one that refers to it. -/
def Thrown.attached (cause : Thrown) : Thrown where
  objects := cause.objects ++ [⟨none, none, none, cause.value⟩]
  value := some cause.objects.length
  ambiguous := false

private theorem Thrown.Closed.attached {cause : Thrown} (h : cause.Closed) :
    cause.attached.Closed := by
  have hlength : cause.attached.objects.length = cause.objects.length + 1 := List.length_append
  constructor
  · intro i hi
    rw [hlength, ← Option.some.inj hi]
    exact Nat.lt_succ_self _
  · intro o ho i hi
    rw [hlength]
    rcases List.mem_append.mp ho with ho | ho
    · exact Nat.lt_succ_of_lt (h.cause o ho i hi)
    · rw [List.mem_singleton.mp ho] at hi
      exact Nat.lt_succ_of_lt (h.value i hi)

private theorem plainError_closed : plainError.Closed := by
  constructor
  · intro i hi
    exact Option.some.inj hi ▸ Nat.zero_lt_one
  · intro o ho i hi
    rw [List.mem_singleton.mp ho] at hi
    cases hi

/-- An error of the application. -/
def createError (type : ErrorType) (message : String) (cause : Option CaughtError) :
    CaughtError where
  thrown := (cause.map (·.thrown.attached)).getD plainError
  closed := by
    cases cause with
    | none => exact plainError_closed
    | some cause => exact cause.closed.attached
  isError := true
  isAppError := true
  name := some type.name
  keyValue := none
  message := message
  text := message

/-- `getErrorCode(error)` -/
def CaughtError.code (error : CaughtError) : Option ErrorCode :=
  (error.thrown.value.bind (error.thrown.objects[·]?)).bind (·.code)

/-- `error.code === 11000` -/
def CaughtError.isDuplicateCode (error : CaughtError) : Bool :=
  error.code == some (.number (.finite 11000))

/-- Is it a violation of a unique index? -/
def isMongoDBDuplicateKeyError (error : CaughtError) : Bool :=
  error.isDuplicateCode && error.keyValue.isSome

/-- Keep an error of the application, wrap any other. -/
def wrapError (error : CaughtError) (fallbackType : ErrorType) : CaughtError :=
  if error.isAppError then error else createError fallbackType error.message (some error)

/-- Translate an error of the database. -/
def handleMongoError (error : CaughtError) : CaughtError :=
  if error.isAppError then error
  else if isMongoDBDuplicateKeyError error then
    createError .duplicateError "Resource already exists (duplicate key)." (some error)
  else if error.name = some "ValidationError" then
    createError .validationError error.message (some error)
  else if error.name = some "CastError" then
    createError .validationError "Invalid ID or data format provided." (some error)
  else createError .databaseError error.text (some error)

/-- What a catch block of a repository does with an error. Messages are fixed, or those of the
error. -/
inductive CatchBlock
  /-- `handleMongoError(error)`, in the repositories of comments, follows, posts and users. -/
  | handleMongo
  /-- A duplicate gets an error of its own with a cause, as for follows. -/
  | duplicateOrMongo (message : String)
  /-- `throw wrapError(error, type)`, as for reading posts. -/
  | wrap (type : ErrorType)
  /-- Only instances of `Error` are wrapped, as for preferences and actions of users. -/
  | wrapErrors
  /-- An error with the cause: `PostWriteRepository`, the outbox, tags, post views, users. -/
  | attach (type : ErrorType) (message : Option String)
  /-- An error without the cause: messages, conversations, audit events, logs, images, tags. -/
  | discard (type : ErrorType) (message : Option String)
  /-- `throw error`, as for notifications. -/
  | rethrow
  /-- Errors of the application are rethrown, others go into one with or without the cause; both
  kinds are in `FeedReadDao`. -/
  | rethrowApp (keepCause : Bool) (message : Option String)
  /-- Only errors with the name of validation errors are rethrown, in the repository of images. -/
  | rethrowValidation
  /-- A duplicate is not an error; others go into one with or without the cause, for likes of posts
  and of comments. -/
  | falseOnDuplicate (keepCause : Bool)
  /-- A duplicate is not an error outside of transactions, for post views. -/
  | falseOutsideSession (session : Bool)
  /-- Duplicates lose the cause, in `UserWriteRepository.handleWriteError`. -/
  | duplicateOrDatabase

/-- An error of a type, with the message or that of the cause. -/
def errorFrom (type : ErrorType) (message : Option String) (error : CaughtError)
    (keepCause : Bool) : CaughtError :=
  createError type (message.getD error.text) (if keepCause then some error else none)

/-- The error that a block throws; none if it returns. -/
def CatchBlock.run (block : CatchBlock) (error : CaughtError) : Option CaughtError :=
  match block with
  | handleMongo => some (handleMongoError error)
  | duplicateOrMongo message =>
    if isMongoDBDuplicateKeyError error then some (createError .duplicateError message (some error))
    else some (handleMongoError error)
  | wrap type => some (wrapError error type)
  | wrapErrors =>
    if error.isError then some (wrapError error .internalServerError)
    else some (createError .internalServerError error.text none)
  | attach type message => some (errorFrom type message error true)
  | discard type message => some (errorFrom type message error false)
  | rethrow => some error
  | rethrowApp keepCause message =>
    if error.isAppError then some error else some (errorFrom .databaseError message error keepCause)
  | rethrowValidation =>
    if error.name = some "ValidationError" then some error
    else some (errorFrom .databaseError none error false)
  | falseOnDuplicate keepCause =>
    if error.isDuplicateCode then none else some (errorFrom .databaseError none error keepCause)
  | falseOutsideSession session =>
    if error.isDuplicateCode then if session then some error else none
    else some (errorFrom .databaseError (some "Failed to record post view") error true)
  | duplicateOrDatabase =>
    if isMongoDBDuplicateKeyError error then
      let field := (error.keyValue.bind (·.head?)).getD "undefined"
      some (createError .duplicateError (field ++ " already exists") none)
    else some (errorFrom .databaseError none error true)

/-- The catch block of `PostWriteRepository.updateCommentCount`. -/
def postWriteRepositoryUpdateCommentCount : CatchBlock := .attach .databaseError none

/-- The catch block of `PostWriteRepository.updateLikeCount`. -/
def postWriteRepositoryUpdateLikeCount : CatchBlock := .attach .databaseError none

/-- The catch block of `PostLikeRepository.addLike`. -/
def postLikeRepositoryAddLike : CatchBlock := .falseOnDuplicate true

/-- The catch block of `CommentLikeRepository.addLike`. -/
def commentLikeRepositoryAddLike : CatchBlock := .falseOnDuplicate false

/-- The error that comes out of blocks one after the other. -/
def passThrough : List CatchBlock → CaughtError → Option CaughtError
  | [], error => some error
  | block :: blocks, error => (block.run error).bind (passThrough blocks)

/-- The block rethrows the error, attaches it as the cause, or returns. -/
def CatchBlock.keepsCause (block : CatchBlock) (error : CaughtError) : Bool :=
  match block with
  | handleMongo | duplicateOrMongo _ | wrap _ | attach _ _ | rethrow | falseOutsideSession _ => true
  | wrapErrors => error.isError
  | discard _ _ => false
  | rethrowApp keepCause _ => error.isAppError || keepCause
  | rethrowValidation => error.name == some "ValidationError"
  | falseOnDuplicate keepCause => error.isDuplicateCode || keepCause
  | duplicateOrDatabase => !isMongoDBDuplicateKeyError error

/-- No block on the way drops the cause of the error that it meets. -/
def CauseKept : List CatchBlock → CaughtError → Prop
  | [], _ => True
  | block :: blocks, error =>
    block.keepsCause error = true ∧ ∀ error', block.run error = some error' →
      CauseKept blocks error'

/-- The body may be run again after the error. -/
def CaughtError.retryable (error : CaughtError) : Bool :=
  isRetryableTransactionBodyError error.thrown

/-- The chain of an error with a cause is its object, and the chain of the cause. -/
theorem chained_attached {cause : Thrown} (h : cause.Closed) (o : ErrorObject) :
    Chained cause.attached o ↔ o = ⟨none, none, none, cause.value⟩ ∨ Chained cause o := by
  have hlast : cause.attached.objects[cause.objects.length]? =
      some ⟨none, none, none, cause.value⟩ := by
    simp [Thrown.attached]
  have hbefore : ∀ i, i < cause.objects.length →
      cause.attached.objects[i]? = cause.objects[i]? := fun i hi =>
    List.getElem?_append_left hi
  have honChain : ∀ i, OnChain cause i → i < cause.objects.length ∧ OnChain cause.attached i := by
    intro i hi
    induction hi with
    | thrown hvalue => exact ⟨h.value _ hvalue, .cause (.thrown rfl) hlast hvalue⟩
    | @cause i j o _ ho hc ih =>
      exact ⟨h.cause o (List.mem_of_getElem? ho) j hc, .cause ih.2 ((hbefore i ih.1).trans ho) hc⟩
  have hback : ∀ i, OnChain cause.attached i → i = cause.objects.length ∨ OnChain cause i := by
    intro i hi
    induction hi with
    | thrown hvalue => exact .inl (Option.some.inj hvalue).symm
    | @cause i j o _ ho hc ih =>
      rcases ih with rfl | hi
      · rw [hlast] at ho
        rw [← Option.some.inj ho] at hc
        exact .inr (.thrown hc)
      · rw [hbefore i (honChain i hi).1] at ho
        exact .inr (.cause hi ho hc)
  constructor
  · rintro ⟨i, hi, ho⟩
    rcases hback i hi with rfl | hi
    · rw [hlast] at ho
      exact .inl (Option.some.inj ho).symm
    · rw [hbefore i (honChain i hi).1] at ho
      exact .inr ⟨i, hi, ho⟩
  · rintro (rfl | ⟨i, hi, ho⟩)
    · exact ⟨_, .thrown rfl, hlast⟩
    · exact ⟨i, (honChain i hi).2, (hbefore i (honChain i hi).1).trans ho⟩

/-- A body is run again after a transient error without an unknown commit, whatever object of the
chain has the labels. -/
theorem isRetryableTransactionBodyError_iff (error : Thrown) :
    isRetryableTransactionBodyError error = true ↔
      (∃ o, Chained error o ∧ o.hasLabel "TransientTransactionError" = true) ∧
        ¬∃ o, Chained error o ∧ o.hasLabel "UnknownTransactionCommitResult" = true := by
  rw [← isTransientTransactionError_iff, ← isUnknownTransactionCommitResult_iff]
  simp only [isRetryableTransactionBodyError, isTransientTransactionError,
    isUnknownTransactionCommitResult, Bool.and_eq_true, Bool.not_eq_true', Bool.not_eq_true]
  exact and_comm

/-- Attaching a cause keeps the labels of its chain. -/
private theorem hasLabel_attached {cause : Thrown} (h : cause.Closed) (label : String) :
    (∃ o, Chained cause.attached o ∧ o.hasLabel label = true) ↔
      ∃ o, Chained cause o ∧ o.hasLabel label = true := by
  constructor
  · rintro ⟨o, ho, hlabel⟩
    rcases (chained_attached h o).mp ho with rfl | ho
    · cases hlabel
    · exact ⟨o, ho, hlabel⟩
  · rintro ⟨o, ho, hlabel⟩
    exact ⟨o, (chained_attached h o).mpr (.inr ho), hlabel⟩

/-- A cause keeps the evidence. -/
@[simp] theorem retryable_createError (type : ErrorType) (message : String) (error : CaughtError) :
    (createError type message (some error)).retryable = error.retryable := by
  apply Bool.eq_iff_iff.mpr
  change isRetryableTransactionBodyError error.thrown.attached = true ↔ _
  rw [isRetryableTransactionBodyError_iff, hasLabel_attached error.closed,
    hasLabel_attached error.closed, ← isRetryableTransactionBodyError_iff]
  rfl

/-- Without the cause there is none. -/
@[simp] theorem retryable_createError_none (type : ErrorType) (message : String) :
    (createError type message none).retryable = false := rfl

/-- A wrapped error may be run again when it keeps a cause that may. -/
private theorem retryable_errorFrom (type : ErrorType) (message : Option String)
    (error : CaughtError)
    (keepCause : Bool) :
    (errorFrom type message error keepCause).retryable = (keepCause && error.retryable) := by
  cases keepCause with
  | false => rfl
  | true => exact retryable_createError type _ error

/-- Wrapping keeps whether an error may be run again. -/
private theorem retryable_wrapError (error : CaughtError) (type : ErrorType) :
    (wrapError error type).retryable = error.retryable := by
  unfold wrapError
  split
  · rfl
  · exact retryable_createError type _ error

/-- Translating a database error keeps whether it may be run again. -/
private theorem retryable_handleMongoError (error : CaughtError) :
    (handleMongoError error).retryable = error.retryable := by
  unfold handleMongoError
  split
  · rfl
  · split
    · exact retryable_createError _ _ error
    · split
      · exact retryable_createError _ _ error
      · split
        · exact retryable_createError _ _ error
        · exact retryable_createError _ _ error

/-- One block: the evidence is what it was, or the block dropped the cause. -/
theorem CatchBlock.retryable_run {block : CatchBlock} {error error' : CaughtError}
    (h : block.run error = some error') :
    error'.retryable = (block.keepsCause error && error.retryable) := by
  cases block with
  | handleMongo =>
    obtain rfl := Option.some.inj h
    exact retryable_handleMongoError error
  | duplicateOrMongo message =>
    rw [run] at h
    split at h
    · obtain rfl := Option.some.inj h
      exact retryable_createError _ _ error
    · obtain rfl := Option.some.inj h
      exact retryable_handleMongoError error
  | wrap type =>
    obtain rfl := Option.some.inj h
    exact retryable_wrapError error type
  | wrapErrors =>
    rw [run] at h
    rw [keepsCause]
    split at h
    · next herror =>
      obtain rfl := Option.some.inj h
      rw [herror, Bool.true_and, retryable_wrapError]
    · next herror =>
      obtain rfl := Option.some.inj h
      rw [eq_false_of_ne_true herror]
      rfl
  | attach type message =>
    obtain rfl := Option.some.inj h
    exact retryable_errorFrom type message error true
  | discard type message =>
    obtain rfl := Option.some.inj h
    exact retryable_errorFrom type message error false
  | rethrow =>
    obtain rfl := Option.some.inj h
    rfl
  | rethrowApp keepCause message =>
    rw [run] at h
    rw [keepsCause]
    split at h
    · next happ =>
      obtain rfl := Option.some.inj h
      rw [happ]
      rfl
    · next happ =>
      obtain rfl := Option.some.inj h
      rw [eq_false_of_ne_true happ, Bool.false_or]
      exact retryable_errorFrom _ message error keepCause
  | rethrowValidation =>
    rw [run] at h
    rw [keepsCause]
    split at h
    · next hname =>
      obtain rfl := Option.some.inj h
      rw [beq_iff_eq.mpr hname]
      rfl
    · next hname =>
      obtain rfl := Option.some.inj h
      rw [beq_false_of_ne hname]
      rfl
  | falseOnDuplicate keepCause =>
    rw [run] at h
    rw [keepsCause]
    split at h
    · cases h
    · next hcode =>
      obtain rfl := Option.some.inj h
      rw [eq_false_of_ne_true hcode, Bool.false_or]
      exact retryable_errorFrom _ none error keepCause
  | falseOutsideSession session =>
    rw [run] at h
    split at h
    · split at h
      · obtain rfl := Option.some.inj h
        rfl
      · cases h
    · obtain rfl := Option.some.inj h
      exact retryable_errorFrom _ _ error true
  | duplicateOrDatabase =>
    rw [run] at h
    rw [keepsCause]
    split at h
    · next hduplicate =>
      obtain rfl := Option.some.inj h
      rw [hduplicate]
      rfl
    · next hduplicate =>
      obtain rfl := Option.some.inj h
      rw [eq_false_of_ne_true hduplicate]
      exact retryable_errorFrom _ none error true

/-- An error of the application as `createError` makes it: without a code of the driver. -/
def CaughtError.Made (error : CaughtError) : Prop := error.isAppError = true ∧ error.code = none

private theorem made_createError (type : ErrorType) (message : String)
    (cause : Option CaughtError) :
    (createError type message cause).Made := by
  refine ⟨rfl, ?_⟩
  cases cause with
  | none => rfl
  | some cause => simp [CaughtError.code, createError, Thrown.attached]

/-- No block takes an error of the application for a duplicate. -/
theorem CatchBlock.run_made (block : CatchBlock) {error : CaughtError} (h : error.Made) :
    ∃ error', block.run error = some error' ∧ error'.Made := by
  have hcode : error.isDuplicateCode = false := by
    rw [CaughtError.isDuplicateCode, h.2]
    rfl
  have hduplicate : isMongoDBDuplicateKeyError error = false := by
    rw [isMongoDBDuplicateKeyError, hcode, Bool.false_and]
  have hmongo : handleMongoError error = error := by rw [handleMongoError, if_pos h.1]
  have hwrap : ∀ type, wrapError error type = error := fun type => by rw [wrapError, if_pos h.1]
  cases block with
  | handleMongo => exact ⟨error, by rw [run, hmongo], h⟩
  | duplicateOrMongo message => exact ⟨error, by simp [run, hduplicate, hmongo], h⟩
  | wrap type => exact ⟨error, by rw [run, hwrap], h⟩
  | wrapErrors =>
    rw [run]
    split
    · exact ⟨error, by rw [hwrap], h⟩
    · exact ⟨_, rfl, made_createError _ _ _⟩
  | attach type message => exact ⟨_, rfl, made_createError _ _ _⟩
  | discard type message => exact ⟨_, rfl, made_createError _ _ _⟩
  | rethrow => exact ⟨error, rfl, h⟩
  | rethrowApp keepCause message => exact ⟨error, by simp [run, h.1], h⟩
  | rethrowValidation =>
    rw [run]
    split
    · exact ⟨error, rfl, h⟩
    · exact ⟨_, rfl, made_createError _ _ _⟩
  | falseOnDuplicate keepCause =>
      exact ⟨_, if_neg (ne_true_of_eq_false hcode), made_createError _ _ _⟩
  | falseOutsideSession session =>
      exact ⟨_, if_neg (ne_true_of_eq_false hcode), made_createError _ _ _⟩
  | duplicateOrDatabase =>
      exact ⟨_, if_neg (ne_true_of_eq_false hduplicate), made_createError _ _ _⟩

/-- A block that drops the cause throws an error of the application. -/
theorem CatchBlock.run_dropped {block : CatchBlock} {error : CaughtError}
    (h : block.keepsCause error = false) :
    ∃ error', block.run error = some error' ∧ error'.Made := by
  cases block with
  | handleMongo | duplicateOrMongo | wrap | attach | rethrow | falseOutsideSession => cases h
  | wrapErrors =>
    rw [keepsCause] at h
    exact ⟨_, if_neg (ne_true_of_eq_false h), made_createError _ _ _⟩
  | discard type message => exact ⟨_, rfl, made_createError _ _ _⟩
  | rethrowApp keepCause message =>
    rw [keepsCause, Bool.or_eq_false_iff] at h
    exact ⟨_, if_neg (ne_true_of_eq_false h.1), made_createError _ _ _⟩
  | rethrowValidation =>
    have hname : error.name ≠ some "ValidationError" := by simpa [keepsCause] using h
    exact ⟨_, if_neg hname, made_createError _ _ _⟩
  | falseOnDuplicate keepCause =>
    rw [keepsCause, Bool.or_eq_false_iff] at h
    exact ⟨_, if_neg (ne_true_of_eq_false h.1), made_createError _ _ _⟩
  | duplicateOrDatabase =>
    have hduplicate : isMongoDBDuplicateKeyError error = true := by simpa [keepsCause] using h
    exact ⟨_, if_pos hduplicate, made_createError _ _ _⟩

/-- The catch blocks pass every error on. -/
private theorem passThrough_made (blocks : List CatchBlock) {error : CaughtError} (h : error.Made) :
    ∃ error', passThrough blocks error = some error' := by
  induction blocks generalizing error with
  | nil => exact ⟨error, rfl⟩
  | cons block blocks ih =>
    obtain ⟨error', hrun, hmade⟩ := block.run_made h
    obtain ⟨last, hlast⟩ := ih hmade
    exact ⟨last, by rw [passThrough, hrun, Option.bind_some, hlast]⟩

/-- Blocks never add evidence. -/
theorem retryable_passThrough_of_not {blocks : List CatchBlock} {error last : CaughtError}
    (h : error.retryable = false) (hpass : passThrough blocks error = some last) :
    last.retryable = false := by
  induction blocks generalizing error with
  | nil => exact Option.some.inj hpass ▸ h
  | cons block blocks ih =>
    obtain ⟨error', hrun, hrest⟩ := Option.bind_eq_some_iff.mp hpass
    refine ih ?_ hrest
    rw [CatchBlock.retryable_run hrun, h, Bool.and_false]

/-- The evidence survives exactly if no block drops the cause. -/
theorem retryable_passThrough_iff {error : CaughtError} (h : error.retryable = true)
    (blocks : List CatchBlock) :
    (∀ last, passThrough blocks error = some last → last.retryable = true) ↔
      CauseKept blocks error := by
  induction blocks generalizing error with
  | nil => exact iff_of_true (fun last hlast => Option.some.inj hlast ▸ h) trivial
  | cons block blocks ih =>
    rw [CauseKept]
    cases hkeeps : block.keepsCause error with
    | true =>
      rw [eq_self, true_and]
      have hnext : ∀ error', block.run error = some error' → error'.retryable = true :=
        fun error' hrun => by rw [CatchBlock.retryable_run hrun, hkeeps, h, Bool.true_and]
      constructor
      · intro hall error' hrun
        refine (ih (hnext error' hrun)).mp fun last hlast => hall last ?_
        rw [passThrough, hrun, Option.bind_some, hlast]
      · intro hkept last hlast
        obtain ⟨error', hrun, hrest⟩ := Option.bind_eq_some_iff.mp hlast
        exact (ih (hnext error' hrun)).mpr (hkept error' hrun) last hrest
    | false =>
      refine iff_of_false (fun hall => ?_) fun hkept => Bool.noConfusion hkept.1
      obtain ⟨error', hrun, hmade⟩ := CatchBlock.run_dropped hkeeps
      obtain ⟨last, hlast⟩ := passThrough_made blocks hmade
      have hlost : error'.retryable = false := by
        rw [CatchBlock.retryable_run hrun, hkeeps, Bool.false_and]
      have hfalse := retryable_passThrough_of_not hlost hlast
      rw [hall last (by rw [passThrough, hrun, Option.bind_some, hlast])] at hfalse
      cases hfalse

/-- The evidence survives the catch blocks exactly if none of them drops the cause, no block makes
an error retryable that is not transient, and the inspection sees every object of the chain. -/
theorem retryEvidence_survives (error : CaughtError) (blocks : List CatchBlock) :
    (error.retryable = true →
      ((∀ last, passThrough blocks error = some last → last.retryable = true) ↔
        CauseKept blocks error)) ∧
    (isTransientTransactionError error.thrown = false →
      ∀ last, passThrough blocks error = some last → last.retryable = false) ∧
    (isRetryableTransactionBodyError error.thrown = true ↔
      (∃ o, Chained error.thrown o ∧ o.hasLabel "TransientTransactionError" = true) ∧
        ¬∃ o, Chained error.thrown o ∧ o.hasLabel "UnknownTransactionCommitResult" = true) := by
  refine ⟨fun h => retryable_passThrough_iff h blocks, fun h last hpass => ?_,
    isRetryableTransactionBodyError_iff error.thrown⟩
  refine retryable_passThrough_of_not ?_ hpass
  rw [CaughtError.retryable, isRetryableTransactionBodyError]
  exact Bool.and_eq_false_imp.mpr fun _ => h

/-- A write conflict, as the driver throws it. -/
def writeConflict : CaughtError where
  thrown := ⟨[⟨some ["TransientTransactionError"], some (.number (.finite 112)),
    some "WriteConflict", none⟩], some 0, false⟩
  closed := by
    refine ⟨fun i hi => Option.some.inj hi ▸ Nat.zero_lt_one, fun o ho i hi => ?_⟩
    rw [List.mem_singleton.mp ho] at hi
    cases hi
  isError := true
  isAppError := false
  name := some "MongoServerError"
  keyValue := none
  message := "WriteConflict"
  text := "WriteConflict"

/-- A write conflict stays retryable through the counter of comments. -/
theorem retryEvidence_survives_updateCommentCount :
    (∀ last, passThrough [postWriteRepositoryUpdateCommentCount, .handleMongo] writeConflict =
      some last → last.retryable = true) :=
  ((retryEvidence_survives writeConflict [postWriteRepositoryUpdateCommentCount, .handleMongo]).1
    (by decide)).mpr ⟨rfl, fun _ _ => ⟨rfl, fun _ _ => trivial⟩⟩

/-- A write conflict in a like of a comment is not retried. -/
theorem retryEvidence_lost_addLike :
    writeConflict.retryable = true ∧
      (passThrough [commentLikeRepositoryAddLike] writeConflict).map (·.retryable) =
        some false := by
  decide

end Ascendance.UnitOfWork
