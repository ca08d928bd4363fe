import Mathlib.Data.List.Nodup
import Mathlib.Data.List.Basic

/-!
# Stored notifications

The collection carries its indexes: no two documents share an id, and no two
documents that have an idempotency key share it.
-/

namespace Ascendance.Notifications

/-- The fields that a command fills in. -/
structure NotificationData where
  userId : String
  actionType : String
  actorId : String
  actorUsername : Option String
  actorHandle : Option String
  actorAvatar : String
  targetId : Option String
  targetType : Option String
  targetPreview : Option String
  isRead : Bool
  timestamp : Int
  deriving DecidableEq, Repr

/-- A stored notification. -/
structure Notification extends NotificationData where
  id : String
  idempotencyKey : Option String
  deriving DecidableEq, Repr

/-- The documents in the order they were inserted. -/
structure NotificationStore where
  docs : List Notification
  /-- The primary index. -/
  ids_nodup : (docs.map (·.id)).Nodup
  /-- The unique and sparse index on `idempotencyKey`. -/
  keys_nodup : (docs.filterMap (·.idempotencyKey)).Nodup

namespace NotificationStore

/-- No notifications. -/
def empty : NotificationStore := ⟨[], .nil, .nil⟩

/-- The document a key finds. -/
def findByKey (s : NotificationStore) (idempotencyKey : String) : Option Notification :=
  s.docs.find? (·.idempotencyKey = some idempotencyKey)

/-- No index rejects the document. -/
def Accepts (s : NotificationStore) (n : Notification) : Prop :=
  n.id ∉ s.docs.map (·.id) ∧ ∀ k ∈ n.idempotencyKey, k ∉ s.docs.filterMap (·.idempotencyKey)

instance (s : NotificationStore) (n : Notification) : Decidable (s.Accepts n) := instDecidableAnd

/-- Insert a document; a duplicate in one of the indexes is an error. -/
def insert (s : NotificationStore) (n : Notification) : Option NotificationStore :=
  if h : s.Accepts n then
    some {
      docs := s.docs ++ [n]
      ids_nodup := by
        rw [List.map_append]
        exact s.ids_nodup.append (List.nodup_singleton _) (by simpa using h.1)
      keys_nodup := by
        rw [List.filterMap_append]
        refine s.keys_nodup.append ?_ ?_
        · cases hk : n.idempotencyKey <;> simp [hk]
        · cases hk : n.idempotencyKey with
          | none => simp [hk]
          | some k => simpa [hk] using h.2 k hk }
  else none

/-- Delete the documents with some ids. -/
def deleteMany (s : NotificationStore) (ids : List String) : NotificationStore where
  docs := s.docs.filter (·.id ∉ ids)
  ids_nodup := s.ids_nodup.sublist (List.filter_sublist.map _)
  keys_nodup := s.keys_nodup.sublist (List.filter_sublist.filterMap _)

/-- Mark the documents with some ids as read. -/
def markAsRead (s : NotificationStore) (ids : List String) : NotificationStore where
  docs := s.docs.map fun n => { n with isRead := n.isRead || decide (n.id ∈ ids) }
  ids_nodup := by
    rw [List.map_map]
    exact s.ids_nodup
  keys_nodup := by
    rw [List.filterMap_map]
    exact s.keys_nodup

/-- A notification is stored, whether or not it has been read since it was seen. -/
def Holds (s : NotificationStore) (n : Notification) : Prop :=
  ∃ d ∈ s.docs, d.id = n.id ∧ d.idempotencyKey = n.idempotencyKey

instance (s : NotificationStore) (n : Notification) : Decidable (s.Holds n) :=
  inferInstanceAs (Decidable (∃ d ∈ s.docs, _))

/-- An insertion succeeds only where the unique index allows it. -/
theorem insert_accepts {s s' : NotificationStore} {n : Notification} (h : s.insert n = some s') :
    s.Accepts n := by
  by_contra hn
  rw [insert, dif_neg hn] at h
  cases h

/-- No document with its key is there when a document with a key is accepted. -/
theorem Accepts.key_ne {s : NotificationStore} {n m : Notification} (h : s.Accepts n) {k : String}
    (hnk : n.idempotencyKey = some k) (hm : m ∈ s.docs) : m.idempotencyKey ≠ some k := fun hmk =>
  h.2 k hnk (List.mem_filterMap.mpr ⟨m, hm, hmk⟩)

/-- What is found under a key is stored and has the key. -/
theorem findByKey_some {s : NotificationStore} {k : String} {n : Notification}
    (h : s.findByKey k = some n) : n ∈ s.docs ∧ n.idempotencyKey = some k :=
  ⟨List.mem_of_find?_eq_some h, by simpa using List.find?_some h⟩

/-- A key belongs to one notification. -/
private theorem key_unique {l : List Notification} (h : (l.filterMap (·.idempotencyKey)).Nodup)
    {n m : Notification} (hn : n ∈ l) (hm : m ∈ l) {k : String} (hnk : n.idempotencyKey = some k)
    (hmk : m.idempotencyKey = some k) : n = m := by
  induction l with
  | nil => cases hn
  | cons x xs ih =>
    have hmem : ∀ y ∈ xs, y.idempotencyKey = some k →
        k ∈ xs.filterMap (·.idempotencyKey) := fun y hy hk => List.mem_filterMap.mpr ⟨y, hy, hk⟩
    rw [List.filterMap_cons] at h
    have hhead : x.idempotencyKey = some k → k ∉ xs.filterMap (·.idempotencyKey) := by
      intro hk
      rw [hk] at h
      exact (List.nodup_cons.mp h).1
    have htail : (xs.filterMap (·.idempotencyKey)).Nodup := by
      split at h
      · exact h
      · exact (List.nodup_cons.mp h).2
    rcases List.mem_cons.mp hn with hnx | hn <;> rcases List.mem_cons.mp hm with hmx | hm
    · rw [hnx, hmx]
    · exact absurd (hmem m hm hmk) (hhead (hnx ▸ hnk))
    · exact absurd (hmem n hn hnk) (hhead (hmx ▸ hmk))
    · exact ih htail hn hm

/-- A key belongs to at most one document. -/
theorem eq_of_key (s : NotificationStore) {n m : Notification} (hn : n ∈ s.docs) (hm : m ∈ s.docs)
    {k : String} (hnk : n.idempotencyKey = some k) (hmk : m.idempotencyKey = some k) : n = m :=
  key_unique s.keys_nodup hn hm hnk hmk

end NotificationStore

end Ascendance.Notifications
