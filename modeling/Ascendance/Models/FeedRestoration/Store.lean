import Ascendance.Core.Number
import Ascendance.Core.OrderedMap
import Ascendance.Models.FeedRestoration.Identity
import Mathlib.Data.Finset.Card

/-!
# The feed restoration store

One anchor to return to, the pairs of a feed and a location that are on screen,
and for each pair the posts that arrived since it was loaded. Listeners are
called at the end of an operation only, so what they do comes after it; the
revision that they read is kept.
-/

namespace Ascendance.FeedRestoration

open Ascendance.Core

/-- The place in a feed to which a return scrolls. -/
structure FeedAnchorCapture where
  feedId : FeedId
  postId : String
  top : JsNumber
  sourceLocationKey : String

/-- What `getPending` reports. -/
structure FeedPendingSnapshot where
  hasPending : Bool
  isUnknown : Bool
  count : ℕ
  deriving DecidableEq

/-- A pair that is on screen. -/
structure ActiveFeedPair where
  feedId : FeedId
  registrations : ℕ

/-- The posts that wait for a pair. -/
structure FeedPendingState where
  unknown : Bool
  postIds : Finset String
  version : ℕ
  deriving DecidableEq

/-- The variables that a returned unregister callback closes over. -/
structure Callback where
  key : String
  registered : Bool
  deriving DecidableEq

/-- The store, with the callbacks it has returned in the order of their creation. -/
structure Store where
  restoration : Option FeedAnchorCapture
  activePairs : OrderedMap String ActiveFeedPair
  pending : OrderedMap String FeedPendingState
  revision : ℕ
  nextPendingVersion : ℕ
  callbacks : List Callback

/-- How many pending posts are counted one by one. -/
def MAX_KNOWN_PENDING_POSTS : ℕ := 500

/-- Nothing is pending. -/
def EMPTY_PENDING : FeedPendingSnapshot := ⟨false, false, 0⟩

/-- The key of a pair in the maps. -/
def pairKey (feedId : FeedId) (locationKey : String) : String :=
  feedId.text ++ String.ofList [separator] ++ locationKey

/-- `!feedId`. -/
def FeedId.isEmpty (feedId : FeedId) : Bool := feedId.text = ""

namespace Store

/-- A store that nothing has been done with. -/
def initial : Store := ⟨none, ∅, ∅, 0, 0, []⟩

/-- Tell the subscribers that something has changed. -/
def emit (s : Store) : Store := { s with revision := s.revision + 1 }

/-- The captured anchor of a feed at a location. -/
def getRestoration (s : Store) (feedId : FeedId) (locationKey : String) :
    Option FeedAnchorCapture :=
  if feedId.isEmpty ∨ locationKey = "" then none
  else s.restoration.filter fun r =>
    decide (r.feedId = feedId) && decide (r.sourceLocationKey = locationKey)

/-- Is there an anchor to restore for the pair? -/
def isRestorationFor (s : Store) (feedId : FeedId) (locationKey : String) : Bool :=
  (s.getRestoration feedId locationKey).isSome

/-- The key of the anchor. -/
def restorationKey (s : Store) : Option String :=
  s.restoration.map fun r => pairKey r.feedId r.sourceLocationKey

/-- Drop what waits for a pair unless it is on screen or the anchor's. -/
def pruneKey (s : Store) (key : String) : Store :=
  if some key = s.restorationKey then s
  else if key ∈ s.activePairs then s
  else { s with pending := s.pending.delete key }

/-- Forget what is pending for the pairs no longer in use. -/
def pruneOrphanedPending (s : Store) : Store := s.pending.keys.foldl pruneKey s

/-- Remember where a feed is left. -/
def captureAnchor (s : Store) (capture : FeedAnchorCapture) : Store :=
  if capture.feedId.isEmpty ∨ capture.postId = "" ∨ capture.sourceLocationKey = "" ∨
      ¬capture.top.isFinite then s
  else ({ s with restoration := some capture }).pruneOrphanedPending.emit

/-- Take the anchor of a pair, if there is one. -/
def consumeRestoration (s : Store) (feedId : FeedId) (locationKey : String) : Bool × Store :=
  match s.getRestoration feedId locationKey with
  | none => (false, s)
  | some _ => (true, ({ s with restoration := none }).emit)

/-- An anchor for the same location in another feed is given up. -/
def dropOtherFeed (s : Store) (feedId : FeedId) (locationKey : String) : Store :=
  if s.restoration.any fun r =>
      decide (r.sourceLocationKey = locationKey) && !decide (r.feedId = feedId) then
    { s with restoration := none }
  else s

/-- One more registration of a pair. -/
def addRegistration (s : Store) (feedId : FeedId) (key : String) : Store :=
  match s.activePairs.get key with
  | some activePair =>
    let activePair := { activePair with registrations := activePair.registrations + 1 }
    { s with activePairs := s.activePairs.set key activePair }
  | none => { s with activePairs := s.activePairs.set key ⟨feedId, 1⟩ }

/-- `registerSession`, with the index of the callback that it returns; for an
empty feed or location it returns one that does nothing. -/
def registerSession (s : Store) (feedId : FeedId) (locationKey : String) : Option ℕ × Store :=
  if feedId.isEmpty ∨ locationKey = "" then (none, s)
  else
    let key := pairKey feedId locationKey
    let s := (((s.dropOtherFeed feedId locationKey).addRegistration feedId
      key).pruneOrphanedPending).emit
    (some s.callbacks.length, { s with callbacks := s.callbacks ++ [⟨key, true⟩] })

/-- A session of a pair ends. -/
def unregisterSession (s : Store) (key : String) : Store :=
  match s.activePairs.get key with
  | none => s
  | some activePair =>
    let activePair := { activePair with registrations := activePair.registrations - 1 }
    let activePairs :=
      if activePair.registrations = 0 then s.activePairs.delete key
      else s.activePairs.set key activePair
    ({ s with activePairs := activePairs }).emit

/-- A call of the callback with this index. -/
def unregister (s : Store) (i : ℕ) : Store :=
  match s.callbacks[i]? with
  | none => s
  | some callback =>
    if !callback.registered then s
    else ({ s with callbacks := s.callbacks.set i { callback with registered := false } }
      ).unregisterSession callback.key

/-- What is pending for a pair. -/
def getPending (s : Store) (feedId : FeedId) (locationKey : String) : FeedPendingSnapshot :=
  if feedId.isEmpty ∨ locationKey = "" then EMPTY_PENDING
  else
    let key := pairKey feedId locationKey
    if key ∉ s.activePairs ∧ !s.isRestorationFor feedId locationKey then EMPTY_PENDING
    else
      match s.pending.get key with
      | none => EMPTY_PENDING
      | some pending =>
        ⟨pending.unknown || decide (0 < pending.postIds.card), pending.unknown,
          if pending.unknown then 0 else pending.postIds.card⟩

/-- The version of what is pending for a pair. -/
def getPendingVersion (s : Store) (feedId : FeedId) (locationKey : String) : Option ℕ :=
  (s.pending.get (pairKey feedId locationKey)).map (·.version)

/-- The key of the anchor, when it is in this feed. -/
def anchorTargets (s : Store) (feedId : FeedId) : List String :=
  (s.restoration.filter fun r => decide (r.feedId = feedId)).toList.map fun r =>
    pairKey feedId r.sourceLocationKey

/-- The keys that a mark for a feed reaches: a set that keeps its order. -/
def pendingTargets (s : Store) (feedId : FeedId) : List String :=
  s.anchorTargets feedId ++ (s.activePairs.entries.filter fun e =>
    decide (e.2.feedId = feedId) && !(s.anchorTargets feedId).contains e.1).map (·.1)

/-- What a loop over the waiting posts does with one entry. -/
inductive Visit
  | skip
  | write (unknown : Bool) (postIds : Finset String)
  | drop

/-- One turn of such a loop; an entry that is written gets the next version. -/
def visit (decision : Option FeedPendingState → Visit) (s : Store) (key : String) : Store :=
  match decision (s.pending.get key) with
  | .skip => s
  | .write unknown postIds =>
    { s with
      pending := s.pending.set key ⟨unknown, postIds, s.nextPendingVersion + 1⟩
      nextPendingVersion := s.nextPendingVersion + 1 }
  | .drop => { s with pending := s.pending.delete key }

/-- Whether a turn changes something. -/
def Visit.isChange : Visit → Bool
  | skip => false
  | write _ _ | drop => true

/-- A loop over keys; listeners hear of it when a turn changed something. -/
def visitAll (decision : Option FeedPendingState → Visit) (keys : List String) (s : Store) :
    Store :=
  let t := keys.foldl (visit decision) s
  if keys.any fun key => (decision (s.pending.get key)).isChange then t.emit else t

/-- The turn of `markKnownPostPending`. -/
def markKnown (postId : String) (entry : Option FeedPendingState) : Visit :=
  let pending := entry.getD ⟨false, ∅, 0⟩
  if pending.unknown then .write true pending.postIds
  else if postId ∈ pending.postIds then .skip
  else if MAX_KNOWN_PENDING_POSTS ≤ pending.postIds.card then .write true ∅
  else .write false (insert postId pending.postIds)

/-- A post is pending in a feed. -/
def markKnownPostPending (s : Store) (feedId : FeedId) (postId : String) : Store :=
  if feedId.isEmpty ∨ postId = "" then s
  else s.visitAll (markKnown postId) (s.pendingTargets feedId)

/-- The turn of `markUnknownPostPending`. -/
def markUnknown (_ : Option FeedPendingState) : Visit := .write true ∅

/-- Posts that are not known one by one are pending in a feed. -/
def markUnknownPostPending (s : Store) (feedId : FeedId) : Store :=
  if feedId.isEmpty then s else s.visitAll markUnknown (s.pendingTargets feedId)

/-- The turn of `removePendingPost`. -/
def removeKnown (postId : String) : Option FeedPendingState → Visit
  | none => .skip
  | some pending =>
    if pending.unknown ∨ postId ∉ pending.postIds then .skip
    else if pending.postIds.erase postId = ∅ then .drop
    else .write false (pending.postIds.erase postId)

/-- A post is pending nowhere any more. -/
def removePendingPost (s : Store) (postId : String) : Store :=
  if postId = "" then s else s.visitAll (removeKnown postId) s.pending.keys

/-- The version that `clearPending` expects: none given, or `null`, or a number. -/
inductive ExpectedVersion
  | undefined
  | value (version : Option ℕ)
  deriving DecidableEq

/-- Whether a stored version is the expected one. -/
def ExpectedVersion.accepts : ExpectedVersion → ℕ → Bool
  | undefined, _ => true
  | value expected, version => expected == some version

/-- Nothing is pending for a pair any more, unless more has come since the expected version. -/
def clearPending (s : Store) (feedId : FeedId) (locationKey : String)
    (expectedVersion : ExpectedVersion) : Bool × Store :=
  let key := pairKey feedId locationKey
  match s.pending.get key with
  | none => (false, s)
  | some pending =>
    if !expectedVersion.accepts pending.version then (false, s)
    else (true, ({ s with pending := s.pending.delete key }).emit)

end Store

end Ascendance.FeedRestoration
