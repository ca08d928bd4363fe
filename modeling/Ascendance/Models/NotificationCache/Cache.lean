import Ascendance.Core.Transition
import Mathlib.Data.Int.Notation
import Mathlib.Data.List.Nodup
import Mathlib.Logic.Function.Basic

/-!
# The notification cache

A user's notifications are a Redis list of identifiers and a hash for each of
them. A call is a sequence of round trips; a transaction of commands is one, and
the round trips of any number of calls interleave. Keys with a time to live can
be gone at any moment, and a call can end at any of its round trips.
-/

namespace Ascendance.NotificationCache

open Ascendance.Core

/-- The elements between two positions; negative ones count from the end. -/
def lRange {α : Type*} (l : List α) (start stop : ℤ) : List α :=
  let first := (if start < 0 then start + l.length else start).toNat
  let last := if stop < 0 then stop + l.length else stop
  (l.drop first).take (last - first + 1).toNat

/-- A range of a list leaves elements out. -/
theorem lRange_sublist {α : Type*} (l : List α) (start stop : ℤ) :
    (lRange l start stop).Sublist l :=
  (List.take_sublist _ _).trans (List.drop_sublist _ _)

/-- Keeping a positive number of elements. -/
theorem lRange_eq_take {α : Type*} (l : List α) {n : ℤ} (hn : 1 ≤ n) :
    lRange l 0 (n - 1) = l.take n.toNat := by
  have hlast : ¬ n - 1 < 0 := by omega
  have hcount : n - 1 - (0 : ℕ) + 1 = n := by omega
  simp only [lRange, Int.lt_irrefl, if_false, if_neg hlast, Int.toNat_zero, List.drop_zero, hcount]

/-- A notification; `content` is what this component only carries along. -/
structure INotification (Content : Type*) where
  id : String
  isRead : Bool
  timestamp : String
  content : Content

/-- A hash that exists; `expires` when it has been given a time to live. -/
structure Hash (Content : Type*) where
  data : Option (INotification Content)
  isRead : Bool
  timestamp : Option String
  expires : Bool

/-- The keys of the cache. -/
inductive Key
  | list (userId : String)
  | hash (id : String)
  deriving DecidableEq, Repr

/-- The calls of the cache service. -/
inductive Request (Content : Type*)
  | pushNotification (userId : String) (notification : INotification Content) (maxCount : ℤ)
  | backfillNotifications (userId : String) (notifications : List (INotification Content))
      (maxCount : ℤ)
  | markNotificationRead (notificationId : String)
  | markNotificationsRead (notificationIds : List String)
  | clearNotificationCaches (userIds notificationIds : List String)
  | getUserNotifications (userId : String) (page limit : ℤ)

/-- How far a call is. -/
inductive Call (Content : Type*)
  | begin (r : Request Content)
  /-- A backfill has deleted the list; its transaction is next. -/
  | refill (userId : String) (notifications : List (INotification Content)) (maxCount : ℤ)
  /-- A clearing reads the lists of the users left and collects their identifiers. -/
  | collect (userIds left : List String) (ids : List String)
  | delete (chunks : List (List Key))
  /-- The page of identifiers has been read; the hashes are next. -/
  | fetch (ids : List String)
  | ended

/-- The keys, the calls, and the pages that were returned. -/
structure World (Content : Type*) where
  /-- A list without elements does not exist. Every list has a time to live. -/
  lists : String → List String
  hashes : String → Option (Hash Content)
  calls : List (Call Content)
  pages : List (List (INotification Content))
  /-- The maximum of the last transaction that wrote the list of a user. -/
  maxCount : String → ℤ

/-- What can happen: a call begins, takes its next round trip or is aborted, a key expires. -/
inductive Event (Content : Type*)
  | call (r : Request Content)
  /-- The next round trip of a call. -/
  | roundTrip (k : ℕ)
  /-- A command of a call fails without effect, or its process is gone. -/
  | abort (k : ℕ)
  | listExpires (userId : String)
  | hashExpires (id : String)

section Hashes

variable {Content : Type*} (hashes : String → Option (Hash Content))

/-- `HSET` of the fields of a notification and `EXPIRE`. -/
def storeNotification (n : INotification Content) : String → Option (Hash Content) :=
  Function.update hashes n.id (some ⟨some n, n.isRead, some n.timestamp, true⟩)

/-- `HSET` of `isRead`: a hash that is not there is made, without a time to live. -/
def setRead (id : String) : String → Option (Hash Content) :=
  Function.update hashes id <| some <| match hashes id with
    | some h => { h with isRead := true }
    | none => ⟨none, true, none, false⟩

/-- The notification of a hash, as it is returned. -/
def toNotification (id : String) : Option (INotification Content) :=
  (hashes id).bind fun h => h.data.map fun n => { n with isRead := h.isRead }

end Hashes

/-- Add to a set that keeps the order of insertion. -/
def addId (ids : List String) (id : String) : List String := if id ∈ ids then ids else ids ++ [id]

namespace World

variable {Content : Type*} (w : World Content)

/-- An empty cache. -/
def initial : World Content where
  lists := fun _ => []
  hashes := fun _ => none
  calls := []
  pages := []
  maxCount := fun _ => 0

/-- Put a call into another state. -/
def setCall (k : ℕ) (c : Call Content) : World Content := { w with calls := w.calls.set k c }

/-- The MULTI of a push: the notification at the head of a list without it. -/
def push (userId : String) (n : INotification Content) (maxCount : ℤ) : World Content :=
  { w with
    hashes := storeNotification w.hashes n
    lists := Function.update w.lists userId
      (lRange (n.id :: (w.lists userId).filter (· ≠ n.id)) 0 (maxCount - 1))
    maxCount := Function.update w.maxCount userId maxCount }

/-- The MULTI of a backfill: the notifications at the end of the list. -/
def refill (userId : String) (notifications : List (INotification Content)) (maxCount : ℤ) :
    World Content :=
  { w with
    hashes := notifications.foldl storeNotification w.hashes
    lists := Function.update w.lists userId
      (lRange (w.lists userId ++ notifications.map (·.id)) 0 (maxCount - 1))
    maxCount := Function.update w.maxCount userId maxCount }

/-- `DEL` of keys. -/
def del (keys : List Key) : World Content :=
  { w with
    lists := fun userId => if Key.list userId ∈ keys then [] else w.lists userId
    hashes := fun id => if Key.hash id ∈ keys then none else w.hashes id }

/-- The keys that `clearNotificationCaches` deletes, in its order. -/
def clearKeys (userIds ids : List String) : List Key := userIds.map .list ++ ids.map .hash

/-- The first round trip of a call, and how far the call is then. -/
def request : Request Content → World Content × Call Content
  | .pushNotification userId n maxCount => (w.push userId n maxCount, .ended)
  | .backfillNotifications userId notifications maxCount =>
    (w.del [.list userId], .refill userId notifications maxCount)
  | .markNotificationRead id => ({ w with hashes := setRead w.hashes id }, .ended)
  | .markNotificationsRead ids => ({ w with hashes := ids.foldl setRead w.hashes }, .ended)
  | .clearNotificationCaches userIds notificationIds =>
    (w, .collect userIds userIds (notificationIds.foldl addId []))
  | .getUserNotifications userId page limit =>
    let start := (page - 1) * limit
    (w, .fetch (lRange (w.lists userId) start (start + limit - 1)))

/-- A round trip of a call. -/
def roundTrip : Call Content → Option (World Content × Call Content)
  | .begin r => some (w.request r)
  | .refill userId notifications maxCount => some (w.refill userId notifications maxCount, .ended)
  | .collect userIds (userId :: left) ids =>
    some (w, .collect userIds left ((w.lists userId).foldl addId ids))
  | .collect userIds [] ids => some (w, .delete ((clearKeys userIds ids).toChunks 500))
  | .delete (keys :: chunks) => some (w.del keys, .delete chunks)
  | .delete [] => some (w, .ended)
  | .fetch ids =>
    some ({ w with pages := w.pages ++ [ids.filterMap (toNotification w.hashes)] }, .ended)
  | .ended => none

/-- The effect of an event, where it can happen. -/
def step (w : World Content) : Event Content → Option (World Content)
  | .call r => some { w with calls := w.calls ++ [.begin r] }
  | .roundTrip k =>
    w.calls[k]?.bind fun c => (w.roundTrip c).map fun r => r.1.setCall k r.2
  | .abort k => some (w.setCall k .ended)
  | .listExpires userId => some (w.del [.list userId])
  | .hashExpires id =>
    if (w.hashes id).any (·.expires) then some (w.del [.hash id]) else none

end World

end Ascendance.NotificationCache
