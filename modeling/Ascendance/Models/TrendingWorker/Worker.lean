import Ascendance.Core.OrderedMap
import Ascendance.Core.Transition
import Mathlib.Data.List.Basic

/-!
# The trending worker

Messages of the interaction stream are coalesced for each post and flushed in
chunks: a database read, a projection to scores, a cache write, and then the
acknowledgement of the chunk's messages. What fails goes back to the pending
map. The world keeps a history of what was received, read, written and
acknowledged; a read is entered when it returns, with the length that the
history had when it was issued.
-/

namespace Ascendance.TrendingWorker

open Ascendance.Core

/-- The fields of a stream message that may name a post. -/
structure MessageFields where
  postId : Option String
  postPublicId : Option String
  post : Option String
  deriving DecidableEq, Repr

/-- The post that a message names; an empty name is none. -/
def MessageFields.named (fields : MessageFields) : Option String :=
  (fields.postId.or (fields.postPublicId.or fields.post)).filter (· ≠ "")

/-- The messages of a post that are not projected. -/
structure PendingDeltas where
  lastSeen : ℕ
  messageIds : List String
  deriving DecidableEq, Repr

/-- A post and what is pending for it, as the map lists them. -/
abbrev PendingEntry := (_ : String) × PendingDeltas

/-- How a repository result is read: what makes an entry of it a post, and the score of
a post at some time, which fails on a post that it cannot be computed from. -/
structure Scoring (FeedPost Score : Type*) where
  publicId : FeedPost → Option String
  calculateTrendingScore : ℕ → FeedPost → Option Score

variable {FeedPost Score : Type*}

/-- The posts of a result by their identifiers; the last of several wins. Fails on an entry
that is no post. -/
def postMap (scoring : Scoring FeedPost Score) :
    List FeedPost → OrderedMap String FeedPost → Option (OrderedMap String FeedPost)
  | [], m => some m
  | post :: posts, m =>
    match scoring.publicId post with
    | none => none
    | some id => postMap scoring posts (m.set id post)

/-- The updates of the posts that were found. -/
def updatesFor (scoring : Scoring FeedPost Score) (now : ℕ) (m : OrderedMap String FeedPost) :
    List String → Option (List (String × Score))
  | [] => some []
  | postId :: postIds =>
    match m.get postId with
    | none => updatesFor scoring now m postIds
    | some post =>
      match scoring.calculateTrendingScore now post, updatesFor scoring now m postIds with
      | some score, some updates => some ((postId, score) :: updates)
      | _, _ => none

/-- `preparePendingUpdates`, without a result when it throws. The identifiers that were not
found are only logged. -/
def preparePendingUpdates (scoring : Scoring FeedPost Score) (now : ℕ) (posts : List FeedPost)
    (postIds : List String) : Option (List (String × Score)) :=
  (postMap scoring posts ∅).bind fun m => updatesFor scoring now m postIds

/-- What happened, oldest first. -/
inductive Record (FeedPost Score : Type*)
  | received (id : String)
  | flushStarted (entries : List PendingEntry)
  /-- A read that was issued when the history had `since` records, and what it returned. -/
  | read (since : ℕ) (postIds : List String) (now : ℕ) (posts : List FeedPost)
  | written (updates : List (String × Score))
  /-- An acknowledgement by the handler, or by the flush that started at an index. -/
  | acknowledged (flush : Option ℕ) (ids : List String)

/-- Where a flush stands with its current chunk. -/
inductive Phase (Score : Type*)
  | between
  | reading (since : ℕ) (chunk : List PendingEntry)
  | writing (chunk : List PendingEntry) (updates : List (String × Score))
  | acknowledging (chunk : List PendingEntry)

/-- A running flush: the index of its start in the history, what it took out, the
entries of later chunks, and its phase. -/
structure Flush (Score : Type*) where
  since : ℕ
  entries : List PendingEntry
  rest : List PendingEntry
  phase : Phase Score

/-- The pending entries, the running flush, and what has happened. -/
structure World (FeedPost Score : Type*) where
  clock : ℕ
  stopping : Bool
  pending : OrderedMap String PendingDeltas
  /-- The running flush; `flushing` when there is one. -/
  flush : Option (Flush Score)
  history : List (Record FeedPost Score)

/-- How many posts are read at once. -/
def CHUNK_SIZE : ℕ := 50

/-- Append an identifier that is not in the list. -/
def pushId (ids : List String) (id : String) : List String :=
  if id ∈ ids then ids else ids ++ [id]

/-- One entry of `requeueEntries`. -/
def requeueEntry (pending : OrderedMap String PendingDeltas) (e : PendingEntry) :
    OrderedMap String PendingDeltas :=
  match pending.get e.1 with
  | none => pending.set e.1 e.2
  | some existing =>
    pending.set e.1
      ⟨max existing.lastSeen e.2.lastSeen, e.2.messageIds.foldl pushId existing.messageIds⟩

/-- Put a chunk back that was not written. -/
def requeueEntries (pending : OrderedMap String PendingDeltas) (entries : List PendingEntry) :
    OrderedMap String PendingDeltas := entries.foldl requeueEntry pending

/-- The message identifiers of a chunk. -/
def messageIds (chunk : List PendingEntry) : List String := chunk.flatMap fun e => e.2.messageIds

/-- The post identifiers of a chunk. -/
def postIds (chunk : List PendingEntry) : List String := chunk.map (·.1)

/-- What can happen: messages are delivered, and a flush takes its steps or fails. -/
inductive Event (FeedPost : Type*)
  | tick (ms : ℕ)
  | stop
  | start
  /-- A message is delivered, for the first time or by a reclaim. -/
  | deliver (id : String)
  | startFlush
  | issueRead
  /-- The read returns an array of posts, or something that is no array. -/
  | readReturns (posts : Option (List FeedPost))
  | readFails
  | writeSucceeds
  | writeFails
  | ackSucceeds
  | ackFails
  /-- Something else throws inside the flush. -/
  | throw
  | finish

namespace World

/-- Enter a record in the history. -/
def enter (w : World FeedPost Score) (r : Record FeedPost Score) : World FeedPost Score :=
  { w with history := w.history ++ [r] }

/-- Coalesce a message of a post. -/
def coalesce (w : World FeedPost Score) (id postId : String) : World FeedPost Score :=
  let existing := (w.pending.get postId).getD ⟨w.clock, []⟩
  { w with pending := w.pending.set postId ⟨w.clock, pushId existing.messageIds id⟩ }

/-- `handleStreamMessage`: a message that names no post is acknowledged at once. -/
def handleStreamMessage (w : World FeedPost Score) (id : String) (fields : MessageFields) :
    World FeedPost Score :=
  if w.stopping then w
  else
    let w := w.enter (.received id)
    match fields.named with
    | none => w.enter (.acknowledged none [id])
    | some postId => w.coalesce id postId

/-- The flush goes on to another phase. -/
def goTo (w : World FeedPost Score) (fl : Flush Score) (phase : Phase Score) :
    World FeedPost Score := { w with flush := some { fl with phase := phase } }

/-- The chunk goes back to the pending map. -/
def requeue (w : World FeedPost Score) (chunk : List PendingEntry) : World FeedPost Score :=
  { w with pending := requeueEntries w.pending chunk }

/-- The read of a chunk has returned posts. -/
def project (w : World FeedPost Score) (scoring : Scoring FeedPost Score) (fl : Flush Score)
    (since : ℕ) (chunk : List PendingEntry) (posts : List FeedPost) : World FeedPost Score :=
  let w := w.enter (.read since (postIds chunk) w.clock posts)
  match preparePendingUpdates scoring w.clock posts (postIds chunk) with
  | none => { w.requeue chunk with flush := none }
  | some updates => w.goTo fl (.writing chunk updates)

/-- The cache write of a chunk has succeeded; its messages are acknowledged, if it has any. -/
def acknowledge (w : World FeedPost Score) (fl : Flush Score) (chunk : List PendingEntry)
    (updates : List (String × Score)) : World FeedPost Score :=
  let w := w.enter (.written updates)
  if messageIds chunk = [] then w.goTo fl .between
  else
    (w.enter (.acknowledged (some fl.since) (messageIds chunk))).goTo fl (.acknowledging chunk)

/-- A step of the flush in a phase; no step is possible in the others. -/
def flushStep (w : World FeedPost Score) (scoring : Scoring FeedPost Score) (fl : Flush Score) :
    Event FeedPost → Phase Score → Option (World FeedPost Score)
  | .issueRead, .between =>
    if fl.rest = [] then none
    else some { w with
      flush := some { fl with
        rest := fl.rest.drop CHUNK_SIZE
        phase := .reading w.history.length (fl.rest.take CHUNK_SIZE) } }
  | .readReturns none, .reading _ chunk => some { w.requeue chunk with flush := none }
  | .readReturns (some posts), .reading since chunk =>
    some (w.project scoring fl since chunk posts)
  | .readFails, .reading _ chunk => some ((w.requeue chunk).goTo fl .between)
  | .writeSucceeds, .writing chunk updates => some (w.acknowledge fl chunk updates)
  | .writeFails, .writing chunk _ => some ((w.requeue chunk).goTo fl .between)
  | .ackSucceeds, .acknowledging _ => some (w.goTo fl .between)
  | .ackFails, .acknowledging chunk => some ((w.requeue chunk).goTo fl .between)
  | .throw, _ => some { w with flush := none }
  | .finish, .between => if fl.rest = [] then some { w with flush := none } else none
  | _, _ => none

/-- A step of the worker, over what the stream holds under each identifier. -/
def step (stream : String → MessageFields) (scoring : Scoring FeedPost Score)
    (w : World FeedPost Score) (e : Event FeedPost) : Option (World FeedPost Score) :=
  match e with
  | .tick ms => some { w with clock := w.clock + ms }
  | .stop => some { w with stopping := true }
  | .start => some { w with stopping := false }
  | .deliver id => some (w.handleStreamMessage id (stream id))
  | .startFlush =>
    if w.flush.isSome ∨ w.pending.entries = [] then none
    else some { w.enter (.flushStarted w.pending.entries) with
      flush := some ⟨w.history.length, w.pending.entries, w.pending.entries, .between⟩
      pending := ∅ }
  | e => w.flush.bind fun fl => w.flushStep scoring fl e fl.phase

/-- Nothing is pending. -/
def initial : World FeedPost Score := ⟨0, false, ∅, none, []⟩

end World

end Ascendance.TrendingWorker
