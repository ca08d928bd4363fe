import Ascendance.Core.Keyspace
import Ascendance.Core.Transition
import Ascendance.Models.Feed.Snapshot

/-!
# Requests for pages of a snapshot

The first page of a feed takes the snapshot of its context and of the current
generation, or creates it; the pages after it find the snapshot by the cursor. A
process keeps the creations in flight in a map, and a creation writes with `NX`
and reads back what is stored. Processes share only the store. A process that
stops is one whose requests take no more steps.
-/

namespace Ascendance.Feed

open Ascendance.Core

/-- The hash of a context and the size of a snapshot as text. -/
structure Platform where
  hashFeedCursorScope : String → String
  byteLength : FeedCursorSnapshot → ℕ

/-- What a handler expects of the snapshot that a cursor names. -/
structure SnapshotVariant where
  feed : FeedCursorFeed
  order : FeedCursorOrder
  source : FeedCursorSource
  scope : Option String
  deriving DecidableEq, Repr

/-- What a snapshot is of. -/
def FeedCursorSnapshot.variant (snapshot : FeedCursorSnapshot) : SnapshotVariant :=
  ⟨snapshot.feed, snapshot.order, snapshot.source, snapshot.scope⟩

/-- Snapshots under their identifiers; the keys put `feed_cursor_snapshot:v1:` before them. -/
abbrev SnapshotStore := Keyspace String FeedCursorSnapshot

namespace Platform

variable (p : Platform)

/-- The checks that a snapshot passes before it is written and after it is read. -/
def accepts (snapshot : FeedCursorSnapshot) : Bool :=
  assertFeedCursorSnapshot snapshot &&
    decide (p.byteLength snapshot ≤ MAX_FEED_CURSOR_SNAPSHOT_BYTES)

/-- The identifier of the snapshot of a context in the generation of a time. -/
def snapshotId (clock : ℕ) (contextKey : String) : String :=
  p.hashFeedCursorScope contextKey ++ "." ++
    toString (clock / (FEED_CURSOR_SNAPSHOT_GENERATION_SECONDS * 1000))

/-- The stored snapshot of a well-formed name, if it is accepted. -/
def getFeedCursorSnapshot (snapshots : SnapshotStore) (clock : ℕ) (id : String) :
    Option FeedCursorSnapshot :=
  if isSnapshotId id then (snapshots.get clock id).filter p.accepts else none

/-- A snapshot of another variant counts as missing. -/
def requireFeedCursorSnapshot (snapshots : SnapshotStore) (clock : ℕ) (id : String)
    (expected : SnapshotVariant) : Option FeedCursorSnapshot :=
  (p.getFeedCursorSnapshot snapshots clock id).filter (·.variant = expected)

end Platform

/-- A cursor of a feed, with the snapshot that it was minted from. -/
structure SnapshotCursor where
  snapshotId : String
  expected : SnapshotVariant
  expiresAt : ℕ
  snapshot : FeedCursorSnapshot
  deriving DecidableEq, Repr

/-- `encodeFeedCursorPayload`: every cursor gets the full time to live. -/
def mintCursor (clock : ℕ) (id : String) (snapshot : FeedCursorSnapshot) : SnapshotCursor where
  snapshotId := id
  expected := snapshot.variant
  expiresAt := clock / 1000 + FEED_CURSOR_TTL_SECONDS
  snapshot := snapshot

/-- `assertExpiry`. -/
def SnapshotCursor.unexpired (cursor : SnapshotCursor) (clock : ℕ) : Bool :=
  clock / 1000 < cursor.expiresAt

/-- Where a request stands. -/
inductive Request where
  | idle
  | reading (process : ℕ) (id : String)
  | missing (process : ℕ) (id : String)
  | building (process : ℕ) (id : String)
  | writing (process : ℕ) (id : String) (snapshot : FeedCursorSnapshot)
  | readingBack (process : ℕ) (id : String)
  /-- The creation has an outcome, and the request that began it has not resumed yet. -/
  | settled (process : ℕ) (id : String) (result : Option FeedCursorSnapshot)
  /-- The request waits for a creation that another one began. -/
  | waiting (process : ℕ) (id : String) (creator : ℕ)
  | served (id : String) (snapshot : FeedCursorSnapshot)
  | failed
  deriving DecidableEq, Repr

namespace Request

/-- The creation in flight that the request has begun. -/
def creates : Request → Option (ℕ × String)
  | building process id => some (process, id)
  | writing process id _ => some (process, id)
  | readingBack process id => some (process, id)
  | settled process id _ => some (process, id)
  | _ => none

/-- The outcome of the creation that a request has begun. -/
def outcome : Request → Option (Option FeedCursorSnapshot)
  | settled _ _ result => some result
  | served _ snapshot => some (some snapshot)
  | failed => some none
  | _ => none

/-- A request with an outcome. -/
def done (id : String) : Option FeedCursorSnapshot → Request
  | some snapshot => served id snapshot
  | none => failed

end Request

/-- How a write to the store ends. -/
inductive Reply where
  | answered
  | lost
  | refused
  deriving DecidableEq, Repr

/-- The last three fields record what was ever stored, the time of each of these writes, and the
cursors ever minted. -/
structure World where
  clock : ℕ
  snapshots : SnapshotStore
  snapshotBuilds : ℕ → String → Option ℕ
  request : ℕ → Request
  stored : List (String × FeedCursorSnapshot)
  writes : List (String × FeedCursorSnapshot × ℕ)
  cursors : List SnapshotCursor

/-- A read takes whether it is answered, a build its result. -/
inductive Action where
  | advance (ms : ℕ)
  | start (r process : ℕ) (contextKey : String)
  | lookUp (r : ℕ) (answered : Bool)
  | resolve (r : ℕ)
  | build (r : ℕ) (result : Option FeedCursorSnapshot)
  | write (r : ℕ) (reply : Reply)
  | readBack (r : ℕ) (answered : Bool)
  | finish (r : ℕ)
  | join (r : ℕ)
  | resume (r cursor : ℕ) (answered : Bool)
  | mint (r : ℕ)

namespace World

/-- A world in which nothing is stored and nothing requested. -/
def init : World := ⟨0, .empty, fun _ _ => none, fun _ => .idle, [], [], []⟩

/-- Put a request into another state. -/
def setRequest (w : World) (r : ℕ) (q : Request) : World :=
  { w with request := Function.update w.request r q }

/-- Note or forget which request builds a snapshot in a process. -/
def setBuild (w : World) (process : ℕ) (id : String) (creator : Option ℕ) : World :=
  { w with
    snapshotBuilds := Function.update w.snapshotBuilds process
      (Function.update (w.snapshotBuilds process) id creator) }

/-- The write of a creation. -/
def store (w : World) (id : String) (snapshot : FeedCursorSnapshot) : World :=
  { w with
    snapshots := w.snapshots.setNxEx w.clock id FEED_CURSOR_SNAPSHOT_TTL_SECONDS snapshot
    stored := if (w.snapshots.entry w.clock id).isNone then (id, snapshot) :: w.stored
      else w.stored
    writes := if (w.snapshots.entry w.clock id).isNone then (id, snapshot, w.clock) :: w.writes
      else w.writes }

end World

namespace Platform

variable (p : Platform)

/-- The effect of an action, where it can happen. -/
def step (w : World) : Action → Option World
  | .advance ms => some { w with clock := w.clock + ms }
  | .start r process contextKey =>
    match w.request r with
    | .idle => some (w.setRequest r (.reading process (p.snapshotId w.clock contextKey)))
    | _ => none
  | .lookUp r answered =>
    match w.request r with
    | .reading process id =>
      if answered then
        match p.getFeedCursorSnapshot w.snapshots w.clock id with
        | some snapshot => some (w.setRequest r (.served id snapshot))
        | none => some (w.setRequest r (.missing process id))
      else some (w.setRequest r .failed)
    | _ => none
  | .resolve r =>
    match w.request r with
    | .missing process id =>
      match w.snapshotBuilds process id with
      | some creator => some (w.setRequest r (.waiting process id creator))
      | none => some ((w.setRequest r (.building process id)).setBuild process id (some r))
    | _ => none
  | .build r result =>
    match w.request r with
    | .building process id =>
      match result.filter p.accepts with
      | some snapshot => some (w.setRequest r (.writing process id snapshot))
      | none => some (w.setRequest r (.settled process id none))
    | _ => none
  | .write r reply =>
    match w.request r with
    | .writing process id snapshot =>
      match reply with
      | .answered => some ((w.store id snapshot).setRequest r (.readingBack process id))
      | .lost => some ((w.store id snapshot).setRequest r (.settled process id none))
      | .refused => some (w.setRequest r (.settled process id none))
    | _ => none
  | .readBack r answered =>
    match w.request r with
    | .readingBack process id =>
      if answered then
        some (w.setRequest r
          (.settled process id (p.getFeedCursorSnapshot w.snapshots w.clock id)))
      else some (w.setRequest r (.settled process id none))
    | _ => none
  | .finish r =>
    match w.request r with
    | .settled process id result =>
      if w.snapshotBuilds process id = some r then
        some ((w.setRequest r (.done id result)).setBuild process id none)
      else some (w.setRequest r (.done id result))
    | _ => none
  | .join r =>
    match w.request r with
    | .waiting _ id creator =>
      (w.request creator).outcome.map fun result => w.setRequest r (.done id result)
    | _ => none
  | .resume r cursor answered =>
    match w.request r, w.cursors[cursor]? with
    | .idle, some c =>
      if c.unexpired w.clock then
        some (w.setRequest r (.done c.snapshotId (if answered then
          p.requireFeedCursorSnapshot w.snapshots w.clock c.snapshotId c.expected else none)))
      else none
    | _, _ => none
  | .mint r =>
    match w.request r with
    | .served id snapshot =>
        some { w with cursors := w.cursors ++ [mintCursor w.clock id snapshot] }
    | _ => none

end Platform

/-- The steps, each with what it requires and what it changes. -/
inductive Step (p : Platform) (w : World) : Action → World → Prop
  | advance (ms : ℕ) : Step p w (.advance ms) { w with clock := w.clock + ms }
  | started {r process : ℕ} {contextKey : String} (h : w.request r = .idle) :
      Step p w (.start r process contextKey)
        (w.setRequest r (.reading process (p.snapshotId w.clock contextKey)))
  | found {r process : ℕ} {id : String} {snapshot : FeedCursorSnapshot}
      (h : w.request r = .reading process id)
      (hs : p.getFeedCursorSnapshot w.snapshots w.clock id = some snapshot) :
      Step p w (.lookUp r true) (w.setRequest r (.served id snapshot))
  | missed {r process : ℕ} {id : String} (h : w.request r = .reading process id)
      (hs : p.getFeedCursorSnapshot w.snapshots w.clock id = none) :
      Step p w (.lookUp r true) (w.setRequest r (.missing process id))
  | unread {r process : ℕ} {id : String} (h : w.request r = .reading process id) :
      Step p w (.lookUp r false) (w.setRequest r .failed)
  | collided {r process creator : ℕ} {id : String} (h : w.request r = .missing process id)
      (hb : w.snapshotBuilds process id = some creator) :
      Step p w (.resolve r) (w.setRequest r (.waiting process id creator))
  | began {r process : ℕ} {id : String} (h : w.request r = .missing process id)
      (hb : w.snapshotBuilds process id = none) :
      Step p w (.resolve r)
        ((w.setRequest r (.building process id)).setBuild process id (some r))
  | built {r process : ℕ} {id : String} {snapshot : FeedCursorSnapshot}
      (h : w.request r = .building process id) (ha : p.accepts snapshot = true) :
      Step p w (.build r (some snapshot)) (w.setRequest r (.writing process id snapshot))
  | unbuilt {r process : ℕ} {id : String} {result : Option FeedCursorSnapshot}
      (h : w.request r = .building process id) (ha : result.filter p.accepts = none) :
      Step p w (.build r result) (w.setRequest r (.settled process id none))
  | wrote {r process : ℕ} {id : String} {snapshot : FeedCursorSnapshot}
      (h : w.request r = .writing process id snapshot) :
      Step p w (.write r .answered)
        ((w.store id snapshot).setRequest r (.readingBack process id))
  | lost {r process : ℕ} {id : String} {snapshot : FeedCursorSnapshot}
      (h : w.request r = .writing process id snapshot) :
      Step p w (.write r .lost) ((w.store id snapshot).setRequest r (.settled process id none))
  | refused {r process : ℕ} {id : String} {snapshot : FeedCursorSnapshot}
      (h : w.request r = .writing process id snapshot) :
      Step p w (.write r .refused) (w.setRequest r (.settled process id none))
  | reread {r process : ℕ} {id : String} (h : w.request r = .readingBack process id) :
      Step p w (.readBack r true) (w.setRequest r
        (.settled process id (p.getFeedCursorSnapshot w.snapshots w.clock id)))
  | unreread {r process : ℕ} {id : String} (h : w.request r = .readingBack process id) :
      Step p w (.readBack r false) (w.setRequest r (.settled process id none))
  | finished {r process : ℕ} {id : String} {result : Option FeedCursorSnapshot}
      (h : w.request r = .settled process id result)
      (hb : w.snapshotBuilds process id = some r) :
      Step p w (.finish r) ((w.setRequest r (.done id result)).setBuild process id none)
  | replaced {r process : ℕ} {id : String} {result : Option FeedCursorSnapshot}
      (h : w.request r = .settled process id result)
      (hb : w.snapshotBuilds process id ≠ some r) :
      Step p w (.finish r) (w.setRequest r (.done id result))
  | joined {r process creator : ℕ} {id : String} {result : Option FeedCursorSnapshot}
      (h : w.request r = .waiting process id creator)
      (ho : (w.request creator).outcome = some result) :
      Step p w (.join r) (w.setRequest r (.done id result))
  | resumed {r n : ℕ} {answered : Bool} {cursor : SnapshotCursor} (h : w.request r = .idle)
      (hc : w.cursors[n]? = some cursor) (hu : cursor.unexpired w.clock = true) :
      Step p w (.resume r n answered) (w.setRequest r (.done cursor.snapshotId (if answered then
        p.requireFeedCursorSnapshot w.snapshots w.clock cursor.snapshotId cursor.expected
        else none)))
  | minted {r : ℕ} {id : String} {snapshot : FeedCursorSnapshot}
      (h : w.request r = .served id snapshot) :
      Step p w (.mint r) { w with cursors := w.cursors ++ [mintCursor w.clock id snapshot] }

variable {p : Platform}

/-- A lookup finds the snapshot, misses it or fails. -/
theorem Platform.step_lookUp {w w' : World} {r : ℕ} {answered : Bool}
    (h : p.step w (.lookUp r answered) = some w') : Step p w (.lookUp r answered) w' := by
  simp only [Platform.step] at h
  split at h
  next process id hr =>
    cases answered with
    | false =>
      obtain rfl := Option.some.inj h
      exact .unread hr
    | true =>
      rw [if_pos rfl] at h
      split at h
      next snapshot hs =>
        obtain rfl := Option.some.inj h
        exact .found hr hs
      next hs =>
        obtain rfl := Option.some.inj h
        exact .missed hr hs
  next => cases h

/-- A miss joins the build under way or begins one. -/
theorem Platform.step_resolve {w w' : World} {r : ℕ}
    (h : p.step w (.resolve r) = some w') : Step p w (.resolve r) w' := by
  simp only [Platform.step] at h
  split at h
  next process id hr =>
    split at h
    next creator hb =>
      obtain rfl := Option.some.inj h
      exact .collided hr hb
    next hb =>
      obtain rfl := Option.some.inj h
      exact .began hr hb
  next => cases h

/-- A build gives a snapshot that fits or none. -/
theorem Platform.step_build {w w' : World} {r : ℕ} {result : Option FeedCursorSnapshot}
    (h : p.step w (.build r result) = some w') : Step p w (.build r result) w' := by
  simp only [Platform.step] at h
  split at h
  next process id hr =>
    split at h
    next snapshot hs =>
      obtain rfl := Option.some.inj h
      obtain ⟨rfl, ha⟩ := Option.filter_eq_some_iff.mp hs
      exact .built hr ha
    next hs =>
      obtain rfl := Option.some.inj h
      exact .unbuilt hr hs
  next => cases h

/-- A write is answered, lost or refused. -/
theorem Platform.step_write {w w' : World} {r : ℕ} {reply : Reply}
    (h : p.step w (.write r reply) = some w') : Step p w (.write r reply) w' := by
  simp only [Platform.step] at h
  split at h
  next process id snapshot hr =>
    cases reply with
    | answered =>
      obtain rfl := Option.some.inj h
      exact .wrote hr
    | lost =>
      obtain rfl := Option.some.inj h
      exact .lost hr
    | refused =>
      obtain rfl := Option.some.inj h
      exact .refused hr
  next => cases h

/-- The read after a write is answered or not. -/
theorem Platform.step_readBack {w w' : World} {r : ℕ} {answered : Bool}
    (h : p.step w (.readBack r answered) = some w') : Step p w (.readBack r answered) w' := by
  simp only [Platform.step] at h
  split at h
  next process id hr =>
    cases answered with
    | false =>
      obtain rfl := Option.some.inj h
      exact .unreread hr
    | true =>
      obtain rfl := Option.some.inj h
      exact .reread hr
  next => cases h

/-- A build that ends leaves the map to a build that replaced it. -/
theorem Platform.step_finish {w w' : World} {r : ℕ}
    (h : p.step w (.finish r) = some w') : Step p w (.finish r) w' := by
  simp only [Platform.step] at h
  split at h
  next process id result hr =>
    split at h
    next hb =>
      obtain rfl := Option.some.inj h
      exact .finished hr hb
    next hb =>
      obtain rfl := Option.some.inj h
      exact .replaced hr hb
  next => cases h

/-- The step function takes no other steps. -/
theorem Platform.step_cases {w w' : World} {a : Action} (h : p.step w a = some w') :
    Step p w a w' := by
  cases a with
  | advance ms =>
    obtain rfl := Option.some.inj h
    exact .advance ms
  | start r process contextKey =>
    simp only [Platform.step] at h
    split at h
    next hr =>
      obtain rfl := Option.some.inj h
      exact .started hr
    next => cases h
  | lookUp r answered => exact Platform.step_lookUp h
  | resolve r => exact Platform.step_resolve h
  | build r result => exact Platform.step_build h
  | write r reply => exact Platform.step_write h
  | readBack r answered => exact Platform.step_readBack h
  | finish r => exact Platform.step_finish h
  | join r =>
    simp only [Platform.step] at h
    split at h
    next process id creator hr =>
      obtain ⟨result, ho, rfl⟩ := Option.map_eq_some_iff.mp h
      exact .joined hr ho
    next => cases h
  | resume r n answered =>
    simp only [Platform.step] at h
    split at h
    next cursor hr hc =>
      split at h
      next hu =>
        obtain rfl := Option.some.inj h
        exact .resumed hr hc hu
      next => cases h
    next => cases h
  | mint r =>
    simp only [Platform.step] at h
    split at h
    next id snapshot hr =>
      obtain rfl := Option.some.inj h
      exact .minted hr
    next => cases h

/-- The step function takes all of them. -/
theorem Platform.step_of {w w' : World} {a : Action} (h : Step p w a w') :
    p.step w a = some w' := by
  cases h with
  | advance ms => rfl
  | built hr ha =>
    have hfilter := Option.filter_some_pos ha
    simp only [Platform.step, hr, hfilter]
  | unbuilt hr ha => simp only [Platform.step, hr, ha]
  | finished hr hb => simp only [Platform.step, hr, if_pos hb]
  | replaced hr hb => simp only [Platform.step, hr, if_neg hb]
  | joined hr ho => simp only [Platform.step, hr, ho, Option.map_some]
  | resumed hr hc hu => simp only [Platform.step, hr, hc, if_pos hu]
  | _ => simp only [Platform.step, if_true, Bool.false_eq_true, if_false, *]

end Ascendance.Feed
