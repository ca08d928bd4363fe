import Ascendance.Core.OrderedMap
import Ascendance.Core.Transition
import Mathlib.Data.Finset.Erase
import Mathlib.Data.Finset.Insert

/-!
# The profile sync worker

Changes of avatars, names and handles are coalesced for each user and flushed to
the author snapshots of the user's posts. A flush takes all pending updates out
and puts back those it could not write. Posts and users come and go meanwhile;
a user's public identifier and its object identifier are one identifier here.
-/

namespace Ascendance.ProfileSync

open Ascendance.Core

/-- The parts of an author snapshot that the worker keeps up to date. -/
inductive Field
  | avatarUrl
  | username
  | handle
  deriving DecidableEq, Repr

/-- The kinds of messages. -/
inductive MessageType
  | avatarChanged
  | usernameChanged
  deriving DecidableEq, Repr

/-- A message about a changed profile. -/
structure ProfileSnapshotMessage where
  type : MessageType
  userPublicId : ℕ
  avatarUrl : Option String
  username : Option String
  handle : Option String
  deriving DecidableEq, Repr

/-- The newest values of a user that are not written. -/
structure PendingProfileUpdate where
  avatarUrl : Option String
  username : Option String
  handle : Option String
  lastSeen : ℕ
  deriving DecidableEq, Repr

/-- The pending value of a field. -/
def PendingProfileUpdate.get (updates : PendingProfileUpdate) : Field → Option String
  | .avatarUrl => updates.avatarUrl
  | .username => updates.username
  | .handle => updates.handle

/-- The value that a message brings for a field; a name in an avatar message counts for nothing. -/
def ProfileSnapshotMessage.value (message : ProfileSnapshotMessage) : Field → Option String
  | .avatarUrl => if message.type = .avatarChanged then message.avatarUrl else none
  | .username => if message.type = .usernameChanged then message.username else none
  | .handle => message.handle

/-- The author as a post carries it. -/
structure AuthorSnapshot where
  username : Option String
  handle : Option String
  avatarUrl : Option String
  deriving DecidableEq, Repr

/-- The written value of a field. -/
def AuthorSnapshot.get (snapshot : AuthorSnapshot) : Field → Option String
  | .avatarUrl => snapshot.avatarUrl
  | .username => snapshot.username
  | .handle => snapshot.handle

/-- A post with the snapshot of its author. -/
structure Post where
  author : ℕ
  snapshot : AuthorSnapshot
  deriving DecidableEq, Repr

/-- A user and its pending update, as the map lists them. -/
abbrev PendingEntry := (_ : ℕ) × PendingProfileUpdate

/-- A flush: what it took out, what it has still to handle, and whether the user of
the first of these has been found, so that the write comes next. -/
structure Flush where
  entries : List PendingEntry
  rest : List PendingEntry
  writing : Bool

/-- The worker, the database, and what has been received and written so far. -/
structure World where
  clock : ℕ
  users : Finset ℕ
  posts : ℕ → Option Post
  /-- Identifiers of deleted posts are not used again. -/
  deleted : ℕ → Bool
  pendingUpdates : OrderedMap ℕ PendingProfileUpdate
  /-- The running flush; `flushing` when there is one. -/
  flush : Option Flush
  /-- The messages received, in order. -/
  messages : List ProfileSnapshotMessage
  /-- The posts of a user that existed at the last write of a field for it, once there was one. -/
  lastWrite : ℕ → Field → Option (ℕ → Bool)

/-- A pending update with the fields that a message brings. -/
def coalesce (clock : ℕ) (existing : PendingProfileUpdate) (message : ProfileSnapshotMessage) :
    PendingProfileUpdate :=
  let existing :=
    if message.type = .avatarChanged ∧ message.avatarUrl ≠ none then
      { existing with avatarUrl := message.avatarUrl } else existing
  let existing :=
    if message.type = .usernameChanged ∧ message.username ≠ none then
      { existing with username := message.username } else existing
  let existing :=
    if message.handle ≠ none then { existing with handle := message.handle } else existing
  { existing with lastSeen := clock }

/-- `handleMessage`. -/
def handleMessage (clock : ℕ) (pendingUpdates : OrderedMap ℕ PendingProfileUpdate)
    (message : ProfileSnapshotMessage) : OrderedMap ℕ PendingProfileUpdate :=
  let existing := (pendingUpdates.get message.userPublicId).getD ⟨none, none, none, clock⟩
  pendingUpdates.set message.userPublicId (coalesce clock existing message)

/-- `requeuePendingUpdate`. -/
def requeuePendingUpdate (pendingUpdates : OrderedMap ℕ PendingProfileUpdate)
    (userPublicId : ℕ) (failedUpdate : PendingProfileUpdate) :
    OrderedMap ℕ PendingProfileUpdate :=
  match pendingUpdates.get userPublicId with
  | none => pendingUpdates.set userPublicId failedUpdate
  | some pendingUpdate =>
    let pendingIsNewer := failedUpdate.lastSeen ≤ pendingUpdate.lastSeen
    let newer := if pendingIsNewer then pendingUpdate else failedUpdate
    let older := if pendingIsNewer then failedUpdate else pendingUpdate
    pendingUpdates.set userPublicId
      { lastSeen := max pendingUpdate.lastSeen failedUpdate.lastSeen
        avatarUrl := newer.avatarUrl.or older.avatarUrl
        username := newer.username.or older.username
        handle := newer.handle.or older.handle }

/-- The loop of the handler that catches a throw. -/
def requeueAll (pendingUpdates : OrderedMap ℕ PendingProfileUpdate) (entries : List PendingEntry) :
    OrderedMap ℕ PendingProfileUpdate :=
  entries.foldl (fun m e => requeuePendingUpdate m e.1 e.2) pendingUpdates

/-- Whether `snapshotUpdates` has no keys. -/
def PendingProfileUpdate.isEmpty (updates : PendingProfileUpdate) : Bool :=
  updates.avatarUrl.isNone && updates.username.isNone && updates.handle.isNone

/-- The `$set` of an update. -/
def AuthorSnapshot.apply (snapshot : AuthorSnapshot) (updates : PendingProfileUpdate) :
    AuthorSnapshot where
  username := updates.username.or snapshot.username
  handle := updates.handle.or snapshot.handle
  avatarUrl := updates.avatarUrl.or snapshot.avatarUrl

namespace World

/-- `updateAuthorSnapshot` on those of the user's posts that it takes effect on. -/
def updateAuthorSnapshot (w : World) (user : ℕ) (updates : PendingProfileUpdate)
    (taken : ℕ → Bool) : World :=
  { w with
    posts := fun id => (w.posts id).map fun post =>
      if post.author = user ∧ taken id then
        { post with snapshot := post.snapshot.apply updates } else post
    lastWrite := fun u f =>
      if u = user ∧ (updates.get f).isSome then
        some fun id => (w.posts id).any fun post => post.author = user
      else w.lastWrite u f }

end World

/-- One step of the worker or of the world around it. -/
inductive Event
  | tick (ms : ℕ)
  | message (message : ProfileSnapshotMessage)
  | startFlush
  | lookup
  | lookupFails
  | write
  /-- The write fails after it took effect on some of the posts. -/
  | writeFails (taken : ℕ → Bool)
  /-- Something else throws inside the batch. -/
  | throw
  | finish
  | createUser (id : ℕ)
  | deleteUser (id : ℕ)
  | createPost (id : ℕ) (post : Post)
  | deletePost (id : ℕ)

namespace World

/-- Where a running flush stands: the entry it handles and those after it. -/
structure Current where
  flush : Flush
  entry : PendingEntry
  rest : List PendingEntry

/-- Where the flush stands, if its next access is a write, or if it is a lookup. -/
def current (w : World) (writing : Bool) : Option Current :=
  match w.flush with
  | none => none
  | some fl =>
    match fl.rest with
    | [] => none
    | e :: rest => if fl.writing = writing then some ⟨fl, e, rest⟩ else none

/-- The flush goes on to the next entry. -/
def next (w : World) (c : Current) : World :=
  { w with flush := some { c.flush with rest := c.rest, writing := false } }

/-- The flush puts its entry back and goes on to the next. -/
def requeue (w : World) (c : Current) : World :=
  { w.next c with
    pendingUpdates := requeuePendingUpdate w.pendingUpdates c.entry.1 c.entry.2 }

/-- The user has been looked up: without it, or without fields to write, the entry is done. -/
def lookedUp (w : World) (c : Current) : World :=
  if c.entry.1 ∉ w.users then w.next c
  else if c.entry.2.isEmpty then w.next c
  else { w with flush := some { c.flush with writing := true } }

/-- The effect of an event, where it can happen. -/
def step (w : World) : Event → Option World
  | .tick ms => some { w with clock := w.clock + ms }
  | .message message =>
    some { w with
      pendingUpdates := handleMessage w.clock w.pendingUpdates message
      messages := w.messages ++ [message] }
  | .startFlush =>
    if w.flush.isSome ∨ w.pendingUpdates.entries = [] then none
    else some { w with
      flush := some ⟨w.pendingUpdates.entries, w.pendingUpdates.entries, false⟩
      pendingUpdates := ∅ }
  | .lookup => (w.current false).map w.lookedUp
  | .lookupFails => (w.current false).map w.requeue
  | .write => (w.current true).map fun c =>
      (w.updateAuthorSnapshot c.entry.1 c.entry.2 fun _ => true).next c
  | .writeFails taken => (w.current true).map fun c =>
      (w.updateAuthorSnapshot c.entry.1 c.entry.2 taken).requeue c
  | .throw =>
    match w.flush with
    | some fl =>
      some { w with flush := none, pendingUpdates := requeueAll w.pendingUpdates fl.entries }
    | none => none
  | .finish =>
    match w.flush with
    | some fl => if fl.rest = [] then some { w with flush := none } else none
    | none => none
  | .createUser id =>
    -- identifiers are new: nothing has been received for them
    if w.messages.any fun m => m.userPublicId = id then none
    else some { w with users := insert id w.users }
  | .deleteUser id => some { w with users := w.users.erase id }
  | .createPost id post =>
    if (w.posts id).isSome ∨ w.deleted id then none
    else some { w with posts := Function.update w.posts id (some post) }
  | .deletePost id =>
    some { w with
      posts := Function.update w.posts id none
      deleted := Function.update w.deleted id true }

end World

end Ascendance.ProfileSync
