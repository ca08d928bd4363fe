import Ascendance.Models.ProfileSync.Pending

/-!
# Profile sync is last-writer-wins

A field whose latest value is neither pending nor still in the flush has been
written to every post of the user that existed at its last write.
-/

namespace Ascendance.ProfileSync

open Ascendance.Core

/-- An update replaces the fields it has. -/
private theorem get_apply (snapshot : AuthorSnapshot) (updates : PendingProfileUpdate) (f : Field) :
    (snapshot.apply updates).get f = (updates.get f).or (snapshot.get f) := by
  cases f <;> rfl

private theorem PendingProfileUpdate.get_of_isEmpty {updates : PendingProfileUpdate}
    (h : updates.isEmpty = true) (f : Field) : updates.get f = none := by
  simp only [PendingProfileUpdate.isEmpty, Bool.and_eq_true, Option.isNone_iff_eq_none] at h
  cases f
  · exact h.1.1
  · exact h.1.2
  · exact h.2

namespace World

/-- What the running flush took out. -/
def held (w : World) : List PendingEntry := w.flush.elim [] Flush.entries

/-- What the running flush has still to handle. -/
def rest (w : World) : List PendingEntry := w.flush.elim [] Flush.rest

/-- A value for the field of the user is pending or still in the flush. -/
def Waiting (w : World) (u : ℕ) (f : Field) : Prop :=
  (pendingField w.pendingUpdates u f).isSome ∨ ∃ e ∈ w.rest, e.1 = u ∧ (e.2.get f).isSome

/-- The field of the user has been written, and the posts of the user that existed at the
last write carry the value. -/
def Carried (w : World) (u : ℕ) (f : Field) (v : String) : Prop :=
  u ∈ w.users → ∃ existed, w.lastWrite u f = some existed ∧
    ∀ id post, w.posts id = some post → post.author = u → existed id = true →
      post.snapshot.get f = some v

/-- What holds in every reachable world: the newest value of each field waits, is carried or is
written. -/
structure Invariant (w : World) : Prop where
  consistent : Consistent w.held w.messages w.clock w.pendingUpdates
  rest : ∀ e ∈ w.rest, e ∈ w.held
  written : ∀ u f existed id, w.lastWrite u f = some existed → existed id = true →
    (w.posts id).isSome ∨ w.deleted id = true
  covered : ∀ u f v, latest w.messages u f = some v → w.Waiting u f ∨ w.Carried u f v

/-- The current entry is the first of those left. -/
private theorem current_eq_some {w : World} {writing : Bool} {c : Current}
    (h : w.current writing = some c) :
    w.flush = some c.flush ∧ c.flush.rest = c.entry :: c.rest := by
  unfold current at h
  split at h
  · cases h
  · next fl hfl =>
    split at h
    · cases h
    · next e rest hrest =>
      split at h
      · obtain rfl := Option.some.inj h
        exact ⟨hfl, hrest⟩
      · cases h

section Current

variable {w : World} {writing : Bool} {c : Current}

private theorem held_of_current (h : w.current writing = some c) : w.held = c.flush.entries := by
  rw [held, (current_eq_some h).1]
  rfl

private theorem rest_of_current (h : w.current writing = some c) : w.rest = c.entry :: c.rest := by
  rw [rest, (current_eq_some h).1]
  exact (current_eq_some h).2

private theorem Invariant.entry_mem (hi : w.Invariant) (h : w.current writing = some c) :
    c.entry ∈ w.held := hi.rest _ (rest_of_current h ▸ List.mem_cons_self)

/-- Going on drops the current entry and nothing else. -/
theorem Waiting.next (h : w.current writing = some c) {u : ℕ} {f : Field} (hw : w.Waiting u f) :
    (w.next c).Waiting u f ∨
      c.entry.1 = u ∧ (c.entry.2.get f).isSome ∧ pendingField w.pendingUpdates u f = none := by
  cases hp : pendingField w.pendingUpdates u f with
  | some v => exact .inl (.inl (by rw [World.next, hp]; rfl))
  | none =>
    obtain ⟨e, he, hu, hf⟩ := hw.resolve_left (by simp [hp])
    rw [rest_of_current h] at he
    rcases List.mem_cons.mp he with rfl | he
    · exact .inr ⟨hu, hf, rfl⟩
    · exact .inl (.inr ⟨e, he, hu, hf⟩)

/-- Putting the current entry back leaves everything waiting. -/
theorem Waiting.requeue (hi : w.Invariant) (h : w.current writing = some c) {u : ℕ} {f : Field}
    (hw : w.Waiting u f) : (w.requeue c).Waiting u f := by
  have hfield := hi.consistent.pendingField_requeue (hi.entry_mem h) u f
  rcases hw.next h with (hp | hrest) | ⟨rfl, hf, -⟩
  · left
    rw [World.requeue, hfield]
    split
    · simp only [World.next] at hp
      simp [Option.isSome_or, hp]
    · exact hp
  · exact .inr hrest
  · left
    rw [World.requeue, hfield, if_pos rfl]
    simp [Option.isSome_or, hf]

private theorem Invariant.next_consistent (hi : w.Invariant) (h : w.current writing = some c) :
    Consistent (w.next c).held w.messages w.clock w.pendingUpdates ∧
      ∀ e ∈ (w.next c).rest, e ∈ (w.next c).held := by
  have hheld : (w.next c).held = w.held := (held_of_current h).symm
  rw [hheld]
  exact ⟨hi.consistent, fun e he => hi.rest e (rest_of_current h ▸ List.mem_cons_of_mem _ he)⟩

/-- Writing a user's posts leaves carried what the update does not write. -/
theorem Carried.updateAuthorSnapshot {u : ℕ} {f : Field} {v : String} (hc : w.Carried u f v)
    (user : ℕ) (updates : PendingProfileUpdate) (taken : ℕ → Bool)
    (hother : ¬(u = user ∧ (updates.get f).isSome)) :
    (w.updateAuthorSnapshot user updates taken).Carried u f v := by
  intro hu
  obtain ⟨existed, hexisted, hcarried⟩ := hc hu
  refine ⟨existed, ?_, fun id post hpost hauthor hlast => ?_⟩
  · simp only [World.updateAuthorSnapshot, if_neg hother]
    exact hexisted
  obtain ⟨old, hold, rfl⟩ := Option.map_eq_some_iff.mp hpost
  split at hauthor
  · next hwritten =>
    have hnone : updates.get f = none := by
      cases hf : updates.get f with
      | none => rfl
      | some x => exact absurd ⟨hauthor.symm.trans hwritten.1, by simp [hf]⟩ hother
    rw [if_pos hwritten, get_apply, hnone, Option.none_or]
    exact hcarried id old hold hauthor hlast
  · next hkept =>
    rw [if_neg hkept]
    exact hcarried id old hold hauthor hlast

/-- A write that succeeds leaves its value in all posts of the user. -/
theorem carried_write {u : ℕ} {f : Field} {v : String} {updates : PendingProfileUpdate}
    (hf : updates.get f = some v) :
    (w.updateAuthorSnapshot u updates fun _ => true).Carried u f v := by
  refine fun _ => ⟨_, if_pos ⟨rfl, by simp [hf]⟩, fun id post hpost hauthor _ => ?_⟩
  obtain ⟨old, -, rfl⟩ := Option.map_eq_some_iff.mp hpost
  split at hauthor
  · next hwritten => rw [if_pos hwritten, get_apply, hf, Option.some_or]
  · next hkept => exact absurd ⟨hauthor, rfl⟩ hkept

end Current

section Steps

variable {w : World} {c : Current}

/-- A message keeps the invariant. -/
theorem Invariant.message (hi : w.Invariant) (m : ProfileSnapshotMessage) :
    Invariant { w with
      pendingUpdates := handleMessage w.clock w.pendingUpdates m
      messages := w.messages ++ [m] } where
  consistent := hi.consistent.message m
  rest := hi.rest
  written := hi.written
  covered u f v hv := by
    have hfield := pendingField_handleMessage w.clock w.pendingUpdates m u f
    by_cases hnew : m.userPublicId = u ∧ (m.value f).isSome
    · refine .inl (.inl ?_)
      rw [hfield, if_pos hnew.1]
      simp [Option.isSome_or, hnew.2]
    · have hold : latest w.messages u f = some v := by
        rw [latest_append] at hv
        split at hv
        · next hu =>
          have hnone : m.value f = none := by simpa using fun h => hnew ⟨hu, h⟩
          rwa [hnone, Option.none_or] at hv
        · exact hv
      refine (hi.covered u f v hold).imp_left fun hw => hw.imp_left fun hp => ?_
      rw [hfield]
      split
      · simp [Option.isSome_or, hp]
      · exact hp

/-- Beginning a flush keeps the invariant. -/
theorem Invariant.startFlush (hi : w.Invariant) (hflush : w.flush = none) :
    Invariant { w with
      flush := some ⟨w.pendingUpdates.entries, w.pendingUpdates.entries, false⟩
      pendingUpdates := ∅ } where
  consistent := hi.consistent.takeOut
  rest _ he := he
  written := hi.written
  covered u f v hv := by
    refine (hi.covered u f v hv).imp_left fun hw => ?_
    rcases hw with hp | ⟨e, he, -⟩
    · right
      obtain ⟨p, hget, hf⟩ : ∃ p, w.pendingUpdates.get u = some p ∧ (p.get f).isSome := by
        rw [pendingField] at hp
        cases hget : w.pendingUpdates.get u with
        | none => simp [hget] at hp
        | some p => exact ⟨p, rfl, by simpa [hget] using hp⟩
      exact ⟨⟨u, p⟩, OrderedMap.mem_entries_iff.mpr hget, rfl, hf⟩
    · rw [World.rest, hflush] at he
      exact absurd he List.not_mem_nil

/-- Reading a user keeps the invariant. -/
theorem Invariant.lookedUp (hi : w.Invariant) (h : w.current false = some c) :
    (w.lookedUp c).Invariant := by
  obtain ⟨hconsistent, hrest⟩ := hi.next_consistent h
  rw [World.lookedUp]
  split
  · next huser =>
    refine ⟨hconsistent, hrest, hi.written, fun u f v hv => ?_⟩
    rcases hi.covered u f v hv with hw | hc
    · refine (hw.next h).imp_right ?_
      rintro ⟨rfl, -, -⟩ hu
      exact absurd hu huser
    · exact .inr hc
  · split
    · next hempty =>
      refine ⟨hconsistent, hrest, hi.written, fun u f v hv => ?_⟩
      refine (hi.covered u f v hv).imp_left fun hw => (hw.next h).resolve_right ?_
      rintro ⟨-, hf, -⟩
      rw [PendingProfileUpdate.get_of_isEmpty hempty f] at hf
      cases hf
    · have hheld : World.held { w with flush := some { c.flush with writing := true } } = w.held :=
        (held_of_current h).symm
      have hsame :
          World.rest { w with flush := some { c.flush with writing := true } } = w.rest := by
        rw [World.rest, World.rest, (current_eq_some h).1]
        rfl
      refine ⟨hheld ▸ hi.consistent, ?_, hi.written, fun u f v hv => ?_⟩
      · rw [hheld, hsame]
        exact hi.rest
      · refine (hi.covered u f v hv).imp_left fun hw => ?_
        rw [Waiting, hsame]
        exact hw

/-- Putting an update back keeps the invariant. -/
theorem Invariant.requeue (hi : w.Invariant) {writing : Bool} (h : w.current writing = some c) :
    (w.requeue c).Invariant where
  consistent := by
    have hheld : (w.requeue c).held = w.held := (held_of_current h).symm
    rw [hheld]
    exact hi.consistent.requeue (hi.entry_mem h)
  rest := (hi.next_consistent h).2
  written := hi.written
  covered u f v hv := (hi.covered u f v hv).imp_left fun hw => hw.requeue hi h

/-- Which posts exist is not a matter of what their snapshots carry. -/
theorem written_updateAuthorSnapshot (hi : w.Invariant) (user : ℕ)
    (updates : PendingProfileUpdate) (taken : ℕ → Bool) (u : ℕ) (f : Field)
    (existed : ℕ → Bool) (id : ℕ)
    (hlast : (w.updateAuthorSnapshot user updates taken).lastWrite u f = some existed)
    (hid : existed id = true) :
    ((w.updateAuthorSnapshot user updates taken).posts id).isSome ∨
      (w.updateAuthorSnapshot user updates taken).deleted id = true := by
  simp only [updateAuthorSnapshot, Option.isSome_map] at hlast ⊢
  split at hlast
  · left
    obtain rfl := Option.some.inj hlast
    cases hpost : w.posts id with
    | none => simp [hpost] at hid
    | some post => rfl
  · exact hi.written u f existed id hlast hid

/-- Writing an update keeps the invariant. -/
theorem Invariant.write (hi : w.Invariant) (h : w.current true = some c) :
    ((w.updateAuthorSnapshot c.entry.1 c.entry.2 fun _ => true).next c).Invariant where
  consistent := (hi.next_consistent h).1
  rest := (hi.next_consistent h).2
  written := written_updateAuthorSnapshot hi _ _ _
  covered u f v hv := by
    by_cases hown : u = c.entry.1 ∧ (c.entry.2.get f).isSome
    · obtain ⟨rfl, hf⟩ := hown
      cases hp : pendingField w.pendingUpdates c.entry.1 f with
      | some x => exact .inl (.inl (by simp [World.next, updateAuthorSnapshot, hp]))
      | none =>
        -- nothing newer is pending, so the value written is the latest
        obtain ⟨x, hx⟩ := Option.isSome_iff_exists.mp hf
        have hlatest := hi.consistent.held c.entry (hi.entry_mem h) f x hx hp
        obtain rfl := Option.some.inj (hlatest.symm.trans hv)
        exact .inr (carried_write (w := w) hx)
    · rcases hi.covered u f v hv with hw | hc
      · left
        exact (hw.next h).resolve_right fun ⟨hu, hf, _⟩ => hown ⟨hu.symm, hf⟩
      · exact .inr (hc.updateAuthorSnapshot _ _ _ hown)

/-- A write that fails half-way keeps the invariant. -/
theorem Invariant.writeFails (hi : w.Invariant) (h : w.current true = some c)
    (taken : ℕ → Bool) :
    ((w.updateAuthorSnapshot c.entry.1 c.entry.2 taken).requeue c).Invariant where
  consistent := (hi.requeue h).consistent
  rest := (hi.requeue h).rest
  written := written_updateAuthorSnapshot hi _ _ _
  covered u f v hv := by
    by_cases hown : u = c.entry.1 ∧ (c.entry.2.get f).isSome
    · obtain ⟨rfl, hf⟩ := hown
      left
      exact Waiting.requeue hi h
        (.inr ⟨c.entry, rest_of_current h ▸ List.mem_cons_self, rfl, hf⟩)
    · rcases hi.covered u f v hv with hw | hc
      · exact .inl (hw.requeue hi h)
      · exact .inr (hc.updateAuthorSnapshot _ _ _ hown)

/-- A flush that throws keeps the invariant. -/
theorem Invariant.throw (hi : w.Invariant) {fl : Flush} (hflush : w.flush = some fl) :
    Invariant { w with
      flush := none
      pendingUpdates := requeueAll w.pendingUpdates fl.entries } := by
  have hheld : w.held = fl.entries := by rw [held, hflush]; rfl
  obtain ⟨hconsistent, hpending⟩ :=
    Consistent.pending_requeueAll fl.entries hi.consistent fun e he => hheld ▸ he
  refine ⟨hconsistent.release, fun e he => absurd he List.not_mem_nil, hi.written,
    fun u f v hv => (hi.covered u f v hv).imp_left fun hw => .inl (hpending u f ?_)⟩
  refine hw.imp_right ?_
  rintro ⟨e, he, hu, hf⟩
  exact ⟨e, hheld ▸ hi.rest e he, hu, hf⟩

/-- The end of a flush keeps the invariant. -/
theorem Invariant.finish (hi : w.Invariant) {fl : Flush} (hflush : w.flush = some fl)
    (hrest : fl.rest = []) : Invariant { w with flush := none } where
  consistent := hi.consistent.release
  rest e he := absurd he List.not_mem_nil
  written := hi.written
  covered u f v hv := by
    refine (hi.covered u f v hv).imp_left fun hw => .inl (hw.resolve_right ?_)
    rintro ⟨e, he, -⟩
    rw [World.rest, hflush, Option.elim_some, hrest] at he
    exact absurd he List.not_mem_nil

/-- A new user has no messages, and keeps the invariant. -/
theorem Invariant.createUser (hi : w.Invariant) {id : ℕ}
    (hnone : ¬ w.messages.any fun m => decide (m.userPublicId = id)) :
    Invariant { w with users := insert id w.users } := by
  refine ⟨hi.consistent, hi.rest, hi.written, fun u f v hv => ?_⟩
  refine (hi.covered u f v hv).imp_right fun hc hu => hc ?_
  refine (Finset.mem_insert.mp hu).resolve_left ?_
  rintro rfl
  obtain ⟨m, hm, hvalue⟩ := List.mem_filterMap.mp (List.mem_of_getLast? hv)
  split at hvalue
  · next hid => exact hnone (List.any_eq_true.mpr ⟨m, hm, decide_eq_true hid⟩)
  · cases hvalue

/-- A new post was there at no write, and keeps the invariant. -/
theorem Invariant.createPost (hi : w.Invariant) {id : ℕ} {post : Post}
    (hnew : ¬ ((w.posts id).isSome ∨ w.deleted id = true)) :
    Invariant { w with posts := Function.update w.posts id (some post) } := by
  have hne : ∀ u f existed j, w.lastWrite u f = some existed → existed j = true → j ≠ id := by
    rintro u f existed j hlast hj rfl
    exact hnew (hi.written u f existed j hlast hj)
  refine ⟨hi.consistent, hi.rest, fun u f existed j hlast hj => ?_, fun u f v hv => ?_⟩
  · simp only [Function.update_of_ne (hne u f existed j hlast hj)]
    exact hi.written u f existed j hlast hj
  · refine (hi.covered u f v hv).imp_right fun hc hu => ?_
    obtain ⟨existed, hlast, hcarried⟩ := hc hu
    refine ⟨existed, hlast, fun j p hp hauthor hj => ?_⟩
    simp only [Function.update_of_ne (hne u f existed j hlast hj)] at hp
    exact hcarried j p hp hauthor hj

/-- A deleted post is written no more, and its end keeps the invariant. -/
theorem Invariant.deletePost (hi : w.Invariant) (id : ℕ) :
    Invariant { w with
      posts := Function.update w.posts id none
      deleted := Function.update w.deleted id true } := by
  refine ⟨hi.consistent, hi.rest, fun u f existed j hlast hj => ?_, fun u f v hv => ?_⟩
  · by_cases hid : j = id
    · exact .inr (by simp [hid])
    · simp only [Function.update_of_ne hid]
      exact hi.written u f existed j hlast hj
  · refine (hi.covered u f v hv).imp_right fun hc hu => ?_
    obtain ⟨existed, hlast, hcarried⟩ := hc hu
    refine ⟨existed, hlast, fun j p hp hauthor hj => ?_⟩
    by_cases hid : j = id
    · simp [hid] at hp
    · simp only [Function.update_of_ne hid] at hp
      exact hcarried j p hp hauthor hj

end Steps

/-- Every step keeps the invariant. -/
theorem Invariant.step {w w' : World} (hi : w.Invariant) {e : Event} (h : w.step e = some w') :
    w'.Invariant := by
  cases e with
  | tick ms =>
    obtain rfl := Option.some.inj h
    exact ⟨hi.consistent.later (Nat.le_add_right _ _), hi.rest, hi.written, hi.covered⟩
  | message m =>
    obtain rfl := Option.some.inj h
    exact hi.message m
  | startFlush =>
    rw [World.step] at h
    split at h
    · cases h
    · next hc =>
      obtain rfl := Option.some.inj h
      exact hi.startFlush (by simpa using fun hs => hc (.inl hs))
  | lookup =>
    obtain ⟨c, hc, rfl⟩ := Option.map_eq_some_iff.mp h
    exact hi.lookedUp hc
  | lookupFails =>
    obtain ⟨c, hc, rfl⟩ := Option.map_eq_some_iff.mp h
    exact hi.requeue hc
  | write =>
    obtain ⟨c, hc, rfl⟩ := Option.map_eq_some_iff.mp h
    exact hi.write hc
  | writeFails taken =>
    obtain ⟨c, hc, rfl⟩ := Option.map_eq_some_iff.mp h
    exact hi.writeFails hc taken
  | throw =>
    rw [World.step] at h
    split at h
    · next fl hfl =>
      obtain rfl := Option.some.inj h
      exact hi.throw hfl
    · cases h
  | finish =>
    rw [World.step] at h
    split at h
    · next fl hfl =>
      split at h
      · next hrest =>
        obtain rfl := Option.some.inj h
        exact hi.finish hfl hrest
      · cases h
    · cases h
  | createUser id =>
    rw [World.step] at h
    split at h
    · cases h
    · next hnone =>
      obtain rfl := Option.some.inj h
      exact hi.createUser hnone
  | deleteUser id =>
    obtain rfl := Option.some.inj h
    refine ⟨hi.consistent, hi.rest, hi.written, fun u f v hv => ?_⟩
    exact (hi.covered u f v hv).imp_right fun hc hu => hc (Finset.mem_of_mem_erase hu)
  | createPost id post =>
    rw [World.step] at h
    split at h
    · cases h
    · next hnew =>
      obtain rfl := Option.some.inj h
      exact hi.createPost hnew
  | deletePost id =>
    obtain rfl := Option.some.inj h
    exact hi.deletePost id

/-- A worker that has received nothing yet, over any users and posts. -/
structure Fresh (w : World) : Prop where
  pendingUpdates : w.pendingUpdates = ∅
  flush : w.flush = none
  messages : w.messages = []
  lastWrite : ∀ u f, w.lastWrite u f = none

/-- The invariant holds at the start. -/
theorem Fresh.invariant {w : World} (h : w.Fresh) : w.Invariant where
  consistent := by
    rw [held, h.flush, h.pendingUpdates]
    exact ⟨fun _ _ _ hv => (nomatch hv), fun _ _ hp => (nomatch hp),
      fun _ he => absurd he List.not_mem_nil, fun _ he => absurd he List.not_mem_nil,
      fun _ he => absurd he List.not_mem_nil, fun _ he => absurd he List.not_mem_nil⟩
  rest e he := by
    rw [World.rest, h.flush] at he
    exact absurd he List.not_mem_nil
  written u f existed id hlast := by
    rw [h.lastWrite u f] at hlast
    cases hlast
  covered u f v hv := by
    rw [h.messages] at hv
    cases hv

end World

/-- Whatever messages come, however flushes run and fail: when nothing is pending and no
flush runs, each field of an existing user for which a message arrived has been written, and
the posts of the user that existed at its last write carry the value of its latest message. -/
theorem profileSync_lastWriterWins {w₀ w : World} {events : List Event} (hfresh : w₀.Fresh)
    (hrun : Run (Graph World.step) w₀ events w) (hpending : w.pendingUpdates = ∅)
    (hflush : w.flush = none) {u : ℕ} (hu : u ∈ w.users) {f : Field} {v : String}
    (hlatest : latest w.messages u f = some v) :
    ∃ existed, w.lastWrite u f = some existed ∧
      ∀ id post, w.posts id = some post → post.author = u → existed id = true →
        post.snapshot.get f = some v := by
  have hi : w.Invariant := hrun.invariant (fun _ _ _ hi h => World.Invariant.step hi h)
    hfresh.invariant
  rcases hi.covered u f v hlatest with (hp | ⟨e, he, -⟩) | hc
  · rw [hpending] at hp
    cases hp
  · rw [World.rest, hflush] at he
    exact absurd he List.not_mem_nil
  · exact hc hu

/-- One user with one post, and a worker that has received nothing. -/
def onePost : World where
  clock := 0
  users := {1}
  posts := Function.update (fun _ => none) 7 (some ⟨1, ⟨some "ann", some "ann", none⟩⟩)
  deleted := fun _ => false
  pendingUpdates := ∅
  flush := none
  messages := []
  lastWrite := fun _ _ => none

/-- A name is written, but the write is reported as failed; a newer, empty name arrives before
that; a throw puts the older one back once more, and the next flush writes the newer one. -/
def retried : List Event :=
  [.message ⟨.usernameChanged, 1, none, some "bob", none⟩, .startFlush, .lookup,
    .message ⟨.usernameChanged, 1, none, some "", none⟩, .writeFails (fun _ => true), .throw,
    .startFlush, .lookup, .write, .finish]

/-- Nothing is pending, no flush runs, and the empty name is the latest. -/
def World.settled (w : World) : Bool :=
  decide (w.pendingUpdates.entries = []) && w.flush.isNone && decide (1 ∈ w.users) &&
    decide (latest w.messages 1 .username = some "")

/-- An update that fails at first is written when it is tried again. -/
theorem profileSync_lastWriterWins_retried :
    ∃ w, Run (Graph World.step) onePost retried w ∧ w.settled = true ∧
      ∃ existed, w.lastWrite 1 .username = some existed ∧
        ∀ id post, w.posts id = some post → post.author = 1 → existed id = true →
          post.snapshot.get .username = some "" := by
  obtain ⟨w, hrun, hsettled⟩ :
      ∃ w, Run (Graph World.step) onePost retried w ∧ w.settled = true :=
    exec_any (by decide +kernel)
  have hparts := hsettled
  simp only [World.settled, Bool.and_eq_true, decide_eq_true_eq, Option.isNone_iff_eq_none]
    at hparts
  obtain ⟨⟨⟨hpending, hflush⟩, huser⟩, hlatest⟩ := hparts
  exact ⟨w, hrun, hsettled, profileSync_lastWriterWins ⟨rfl, rfl, rfl, fun _ _ => rfl⟩ hrun
    (AList.ext hpending) hflush huser hlatest⟩

end Ascendance.ProfileSync
