import Ascendance.Models.ProfileSync.Worker

/-!
# Pending profile updates beside a flush

What is pending for a field is always the latest value, and so is what a flush
holds for a field that has nothing newer pending. Messages, taking everything
out and putting entries back keep it so; a message arrives later than anything
a flush holds, so what is put back only fills gaps.
-/

namespace Ascendance.ProfileSync

open Ascendance.Core

/-- The value of the latest message for a field of a user. -/
def latest (messages : List ProfileSnapshotMessage) (user : ℕ) (f : Field) : Option String :=
  (messages.filterMap fun m => if m.userPublicId = user then m.value f else none).getLast?

/-- The newest value after one more message. -/
theorem latest_append (messages : List ProfileSnapshotMessage) (m : ProfileSnapshotMessage)
    (user : ℕ) (f : Field) :
    latest (messages ++ [m]) user f =
      if m.userPublicId = user then (m.value f).or (latest messages user f)
      else latest messages user f := by
  unfold latest
  rw [List.filterMap_append, List.getLast?_append]
  split
  · next h =>
    cases hv : m.value f <;> simp [h, hv]
  · next h => simp [h]

/-- What is pending for a field of a user. -/
def pendingField (m : OrderedMap ℕ PendingProfileUpdate) (user : ℕ) (f : Field) : Option String :=
  (m.get user).bind (·.get f)

private theorem pendingField_of_get {m : OrderedMap ℕ PendingProfileUpdate} {user : ℕ}
    {p : PendingProfileUpdate} (h : m.get user = some p) (f : Field) :
    pendingField m user f = p.get f := by
  rw [pendingField, h]
  rfl

/-- A message replaces the pending values it carries. -/
private theorem get_coalesce (clock : ℕ) (existing : PendingProfileUpdate)
    (message : ProfileSnapshotMessage) (f : Field) :
    (coalesce clock existing message).get f = (message.value f).or (existing.get f) := by
  cases ht : message.type <;> cases ha : message.avatarUrl <;> cases hn : message.username <;>
    cases hh : message.handle <;> cases f <;>
    simp [coalesce, PendingProfileUpdate.get, ProfileSnapshotMessage.value, ht, ha, hn, hh]

/-- A message takes over the fields it brings. -/
theorem pendingField_handleMessage (clock : ℕ) (m : OrderedMap ℕ PendingProfileUpdate)
    (message : ProfileSnapshotMessage) (user : ℕ) (f : Field) :
    pendingField (handleMessage clock m message) user f =
      if message.userPublicId = user then (message.value f).or (pendingField m user f)
      else pendingField m user f := by
  unfold pendingField handleMessage
  rw [OrderedMap.get_set]
  by_cases h : user = message.userPublicId
  · subst h
    rw [if_pos rfl, if_pos rfl, Option.bind_some, get_coalesce]
    cases m.get message.userPublicId with
    | none => cases f <;> rfl
    | some p => rfl
  · rw [if_neg h, if_neg (Ne.symm h)]

/-- After a message every pending update is as recent as before, or was seen now. -/
theorem get_handleMessage {clock : ℕ} {m : OrderedMap ℕ PendingProfileUpdate}
    {message : ProfileSnapshotMessage} {user : ℕ} {p : PendingProfileUpdate}
    (h : (handleMessage clock m message).get user = some p) :
    p.lastSeen = clock ∨ m.get user = some p := by
  rw [handleMessage, OrderedMap.get_set] at h
  split at h
  · obtain rfl := Option.some.inj h
    exact .inl rfl
  · exact .inr h

/-- Where the pending update is not older, putting back only fills its gaps. -/
theorem get_requeuePendingUpdate (m : OrderedMap ℕ PendingProfileUpdate) (user : ℕ)
    (failed : PendingProfileUpdate)
    (hseen : ∀ p, m.get user = some p → failed.lastSeen ≤ p.lastSeen) (j : ℕ) :
    ∃ p : PendingProfileUpdate,
      (∀ q, m.get user = some q → p.lastSeen = q.lastSeen) ∧
      (m.get user = none → p.lastSeen = failed.lastSeen) ∧
      (∀ f, p.get f = (pendingField m user f).or (failed.get f)) ∧
      (requeuePendingUpdate m user failed).get j = if j = user then some p else m.get j := by
  unfold requeuePendingUpdate
  cases hm : m.get user with
  | none =>
    refine ⟨failed, fun _ h => (nomatch h), fun _ => rfl, fun f => ?_,
      OrderedMap.get_set m j user failed⟩
    rw [pendingField, hm]
    rfl
  | some q =>
    have hle := hseen q hm
    refine ⟨_, ?_, fun h => (nomatch h), fun f => ?_, OrderedMap.get_set m j user _⟩
    · intro q' hq'
      obtain rfl := Option.some.inj hq'
      exact max_eq_left hle
    · rw [pendingField_of_get hm]
      cases f <;> simp [PendingProfileUpdate.get, hle]

/-- A map of pending updates beside the entries that a flush holds. -/
structure Consistent (held : List PendingEntry) (messages : List ProfileSnapshotMessage)
    (clock : ℕ) (m : OrderedMap ℕ PendingProfileUpdate) : Prop where
  pending : ∀ u f v, pendingField m u f = some v → latest messages u f = some v
  recent : ∀ u p, m.get u = some p → p.lastSeen ≤ clock
  distinct : ∀ e ∈ held, ∀ e' ∈ held, e.1 = e'.1 → e = e'
  seen : ∀ e ∈ held, e.2.lastSeen ≤ clock
  order : ∀ e ∈ held, ∀ p, m.get e.1 = some p → e.2.lastSeen ≤ p.lastSeen
  held : ∀ e ∈ held, ∀ f v, e.2.get f = some v → pendingField m e.1 f = none →
    latest messages e.1 f = some v

namespace Consistent

variable {held : List PendingEntry} {messages : List ProfileSnapshotMessage} {clock : ℕ}
  {m : OrderedMap ℕ PendingProfileUpdate}

/-- Putting back a held entry fills the gaps of what is pending for its user. -/
theorem pendingField_requeue (h : Consistent held messages clock m) {e : PendingEntry}
    (he : e ∈ held) (u : ℕ) (f : Field) :
    pendingField (requeuePendingUpdate m e.1 e.2) u f =
      if u = e.1 then (pendingField m u f).or (e.2.get f) else pendingField m u f := by
  obtain ⟨p, -, -, hp, hget⟩ := get_requeuePendingUpdate m e.1 e.2 (h.order e he) u
  rw [pendingField, hget]
  split
  · next hu => rw [Option.bind_some, hp, hu]
  · rfl

/-- Putting an update back keeps the pending updates consistent. -/
theorem requeue (h : Consistent held messages clock m) {e : PendingEntry} (he : e ∈ held) :
    Consistent held messages clock (requeuePendingUpdate m e.1 e.2) := by
  have hfield := h.pendingField_requeue he
  have hget := get_requeuePendingUpdate m e.1 e.2 (h.order e he)
  constructor
  case pending =>
    intro u f v hv
    rw [hfield] at hv
    split at hv
    · next hu =>
      subst hu
      cases hp : pendingField m e.1 f with
      | none =>
        rw [hp, Option.none_or] at hv
        exact h.held e he f v hv hp
      | some w =>
        rw [hp, Option.some_or] at hv
        exact h.pending e.1 f v (hp.trans hv)
    · exact h.pending u f v hv
  case recent =>
    intro u p hp
    obtain ⟨q, hold, hnew, -, hq⟩ := hget u
    rw [hq] at hp
    split at hp
    · obtain rfl := Option.some.inj hp
      cases hm : m.get e.1 with
      | none => exact (hnew hm).trans_le (h.seen e he)
      | some r => exact (hold r hm).trans_le (h.recent e.1 r hm)
    · exact h.recent u p hp
  case distinct => exact h.distinct
  case seen => exact h.seen
  case order =>
    intro e' he' p hp
    obtain ⟨q, hold, hnew, -, hq⟩ := hget e'.1
    rw [hq] at hp
    split at hp
    · next hu =>
      obtain rfl := Option.some.inj hp
      cases hm : m.get e.1 with
      | none => exact (congrArg (·.2.lastSeen) (h.distinct e' he' e he hu)).trans_le (hnew hm).ge
      | some r => exact (h.order e' he' r (hu ▸ hm)).trans_eq (hold r hm).symm
    · exact h.order e' he' p hp
  case held =>
    intro e' he' f v hv hnone
    rw [hfield] at hnone
    split at hnone
    · next hu => exact h.held e' he' f v hv (hu ▸ (Option.or_eq_none_iff.mp hnone).1)
    · exact h.held e' he' f v hv hnone

/-- Putting back loses nothing that is pending, and the entry's own fields are pending after it. -/
theorem pending_requeueAll : ∀ (es : List PendingEntry) {m : OrderedMap ℕ PendingProfileUpdate},
    Consistent held messages clock m → (∀ e ∈ es, e ∈ held) →
      Consistent held messages clock (requeueAll m es) ∧
        ∀ u f, ((pendingField m u f).isSome ∨ ∃ e ∈ es, e.1 = u ∧ (e.2.get f).isSome) →
          (pendingField (requeueAll m es) u f).isSome
  | [], _, h, _ => ⟨h, fun u f hp => hp.resolve_right fun ⟨_, he, _⟩ => List.not_mem_nil he⟩
  | e :: es, m, h, hes => by
    have he := hes e List.mem_cons_self
    obtain ⟨hrest, hpending⟩ := pending_requeueAll es (h.requeue he)
      fun e' he' => hes e' (List.mem_cons_of_mem e he')
    refine ⟨hrest, fun u f hp => hpending u f ?_⟩
    rw [h.pendingField_requeue he]
    rcases hp with hp | ⟨e', he', rfl, hf⟩
    · left
      split
      · next hu => simp [Option.isSome_or, hp]
      · exact hp
    · rcases List.mem_cons.mp he' with rfl | he'
      · exact .inl (by simp [Option.isSome_or, hf])
      · exact .inr ⟨e', he', rfl, hf⟩

/-- A message keeps what is pending and what is held in order. -/
theorem message (h : Consistent held messages clock m) (message : ProfileSnapshotMessage) :
    Consistent held (messages ++ [message]) clock (handleMessage clock m message) := by
  constructor
  case pending =>
    intro u f v hv
    rw [pendingField_handleMessage] at hv
    rw [latest_append]
    split at hv
    · next hu =>
      rw [if_pos hu]
      cases hm : message.value f with
      | none =>
        rw [hm, Option.none_or] at hv
        exact h.pending u f v hv
      | some w =>
        rw [hm] at hv
        exact hv
    · next hu =>
      rw [if_neg hu]
      exact h.pending u f v hv
  case recent =>
    intro u p hp
    rcases get_handleMessage hp with hnow | hold
    · exact hnow.le
    · exact h.recent u p hold
  case distinct => exact h.distinct
  case seen => exact h.seen
  case order =>
    intro e he p hp
    rcases get_handleMessage hp with hnow | hold
    · exact (h.seen e he).trans_eq hnow.symm
    · exact h.order e he p hold
  case held =>
    intro e he f v hv hnone
    rw [pendingField_handleMessage] at hnone
    rw [latest_append]
    split at hnone
    · next hu =>
      obtain ⟨hvalue, hold⟩ := Option.or_eq_none_iff.mp hnone
      rw [if_pos hu, hvalue, Option.none_or]
      exact h.held e he f v hv hold
    · next hu =>
      rw [if_neg hu]
      exact h.held e he f v hv hnone

/-- Time passes. -/
theorem later (h : Consistent held messages clock m) {clock' : ℕ} (hle : clock ≤ clock') :
    Consistent held messages clock' m where
  pending := h.pending
  recent u p hp := (h.recent u p hp).trans hle
  distinct := h.distinct
  seen e he := (h.seen e he).trans hle
  order := h.order
  held := h.held

/-- When a flush ends, what it held no longer counts. -/
theorem release (h : Consistent held messages clock m) : Consistent [] messages clock m where
  pending := h.pending
  recent := h.recent
  distinct _ he := absurd he List.not_mem_nil
  seen _ he := absurd he List.not_mem_nil
  order _ he := absurd he List.not_mem_nil
  held _ he := absurd he List.not_mem_nil

/-- A stored entry is what is pending of its user. -/
private theorem pendingField_of_mem {e : PendingEntry} (he : e ∈ m.entries) (f : Field) :
    pendingField m e.1 f = e.2.get f := pendingField_of_get (OrderedMap.mem_entries_iff.mp he) f

/-- A flush takes everything out. -/
theorem takeOut (h : Consistent held messages clock m) :
    Consistent m.entries messages clock ∅ where
  pending _ _ _ hv := nomatch hv
  recent _ _ hp := nomatch hp
  distinct _ he _ he' hkey := m.nodupKeys.eq_of_fst_eq he he' hkey
  seen e he := h.recent e.1 e.2 (OrderedMap.mem_entries_iff.mp he)
  order _ _ _ hp := nomatch hp
  held e he f v hv _ := h.pending e.1 f v ((pendingField_of_mem he f).trans hv)

end Consistent

end Ascendance.ProfileSync
