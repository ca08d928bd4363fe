import Ascendance.Models.FeedRestoration.Entries

/-!
# Runs of the store and the pairs on screen

Every operation is an event; a run is any list of them. The registrations of a
run are read off its events alone. The count of an active pair is the number of
its outstanding registrations, so a pair is active while it has one.
-/

namespace Ascendance.FeedRestoration

open Ascendance.Core

/-- A call on the store or of a callback that it returned. -/
inductive Event
  | captureAnchor (capture : FeedAnchorCapture)
  | consumeRestoration (feedId : FeedId) (locationKey : String)
  | registerSession (feedId : FeedId) (locationKey : String)
  | unregister (i : ℕ)
  | markKnownPostPending (feedId : FeedId) (postId : String)
  | markUnknownPostPending (feedId : FeedId)
  | removePendingPost (postId : String)
  | clearPending (feedId : FeedId) (locationKey : String) (expectedVersion : Store.ExpectedVersion)

/-- The event marks posts of a feed. -/
def Event.IsMark : Event → Prop
  | .markKnownPostPending _ _ | .markUnknownPostPending _ => True
  | _ => False

/-- The event is accepted and prunes what waits for pairs that are not tracked. -/
def Event.Prunes : Event → Prop
  | .captureAnchor capture =>
    ¬(capture.feedId.isEmpty ∨ capture.postId = "" ∨ capture.sourceLocationKey = "" ∨
      ¬capture.top.isFinite)
  | .registerSession feedId locationKey => ¬(feedId.isEmpty ∨ locationKey = "")
  | _ => False

namespace Store

/-- The effect of a call on the store. -/
def step (s : Store) : Event → Store
  | .captureAnchor capture => s.captureAnchor capture
  | .consumeRestoration feedId locationKey => (s.consumeRestoration feedId locationKey).2
  | .registerSession feedId locationKey => (s.registerSession feedId locationKey).2
  | .unregister i => s.unregister i
  | .markKnownPostPending feedId postId => s.markKnownPostPending feedId postId
  | .markUnknownPostPending feedId => s.markUnknownPostPending feedId
  | .removePendingPost postId => s.removePendingPost postId
  | .clearPending feedId locationKey expectedVersion =>
    (s.clearPending feedId locationKey expectedVersion).2

/-- The store after a list of calls. -/
def run (s : Store) (events : List Event) : Store := events.foldl step s

/-- Runs compose. -/
theorem run_append (s : Store) (es es' : List Event) : s.run (es ++ es') = (s.run es).run es' :=
  List.foldl_append

end Store

/-- A registration of a pair, outstanding until its callback is called. -/
structure Registration where
  feedId : FeedId
  locationKey : String
  outstanding : Bool

/-- The callback of a registration. -/
def Registration.callback (r : Registration) : Callback :=
  ⟨pairKey r.feedId r.locationKey, r.outstanding⟩

/-- The registrations after one more event; an empty feed or location is no registration. -/
def registrationsAfter (rs : List Registration) : Event → List Registration
  | .registerSession feedId locationKey =>
    if feedId.isEmpty ∨ locationKey = "" then rs else rs ++ [⟨feedId, locationKey, true⟩]
  | .unregister i => rs.modify i fun r => { r with outstanding := false }
  | _ => rs

/-- The registrations that a list of events makes. -/
def registrations (events : List Event) : List Registration := events.foldl registrationsAfter []

namespace Store

/-- The pair is on screen. -/
def IsActive (s : Store) (feedId : FeedId) (locationKey : String) : Prop :=
  pairKey feedId locationKey ∈ s.activePairs

/-- The pair is on screen or it is the anchor's. -/
def Tracked (s : Store) (feedId : FeedId) (locationKey : String) : Prop :=
  s.IsActive feedId locationKey ∨ s.isRestorationFor feedId locationKey = true

/-- The registrations that the entry of a key counts. -/
def registered (s : Store) (key : String) : ℕ := (s.activePairs.get key).elim 0 (·.registrations)

/-- The store agrees with the registrations made so far. -/
structure Sound (s : Store) (rs : List Registration) : Prop where
  callbacks : s.callbacks = rs.map Registration.callback
  named : ∀ r ∈ rs, ¬(r.feedId.isEmpty ∨ r.locationKey = "")
  counted : ∀ key, s.registered key = s.callbacks.count ⟨key, true⟩
  positive : ∀ key a, s.activePairs.get key = some a → 0 < a.registrations
  feeds : ∀ key a, s.activePairs.get key = some a → ∃ l, key = pairKey a.feedId l
  anchored : ∀ r, s.restoration = some r → ¬(r.feedId.isEmpty ∨ r.sourceLocationKey = "")

/-- The empty store is sound. -/
theorem sound_initial : initial.Sound [] where
  callbacks := rfl
  named _ h := absurd h List.not_mem_nil
  counted _ := rfl
  positive _ _ h := nomatch h
  feeds _ _ h := nomatch h
  anchored _ h := nomatch h

variable {s t : Store} {rs : List Registration}

/-- What leaves the sessions alone keeps the agreement. -/
theorem Sound.of_same (h : s.Sound rs) (hactive : t.activePairs = s.activePairs)
    (hcallbacks : t.callbacks = s.callbacks)
    (hanchored : ∀ r, t.restoration = some r →
      ¬(r.feedId.isEmpty ∨ r.sourceLocationKey = "")) : t.Sound rs where
  callbacks := hcallbacks.trans h.callbacks
  named := h.named
  counted key := by rw [registered, hactive, hcallbacks]; exact h.counted key
  positive key a ha := h.positive key a (hactive ▸ ha)
  feeds key a ha := h.feeds key a (hactive ▸ ha)
  anchored := hanchored

/-- A key is active when a callback of it is still to be called. -/
theorem Sound.mem_iff (h : s.Sound rs) (key : String) :
    key ∈ s.activePairs ↔ ⟨key, true⟩ ∈ s.callbacks := by
  rw [← List.count_pos_iff, ← h.counted key, registered, OrderedMap.mem_iff_get]
  cases ha : s.activePairs.get key with
  | none => simp
  | some a => simpa using h.positive key a ha

/-- A pair is active when it has an outstanding registration. -/
theorem Sound.isActive_iff (h : s.Sound rs) (f : FeedId) (l : String) :
    s.IsActive f l ↔ ∃ r ∈ rs, r.feedId = f ∧ r.locationKey = l ∧ r.outstanding = true := by
  rw [IsActive, h.mem_iff, h.callbacks, List.mem_map]
  constructor
  · rintro ⟨r, hr, he⟩
    obtain ⟨hkey, hout⟩ := Callback.mk.injEq .. ▸ he
    obtain ⟨hf, hl⟩ := pairKey_inj hkey
    exact ⟨r, hr, hf, hl, hout⟩
  · rintro ⟨r, hr, rfl, rfl, hout⟩
    exact ⟨r, hr, by rw [Registration.callback, hout]⟩

/-- An active pair is named. -/
private theorem Sound.named_of_active (h : s.Sound rs) {f : FeedId} {l : String}
    (ha : s.IsActive f l) :
    ¬(f.isEmpty ∨ l = "") := by
  obtain ⟨r, hr, rfl, rfl, -⟩ := (h.isActive_iff f l).mp ha
  exact h.named r hr

/-- A restoration is for a pair exactly when it names it. -/
theorem isRestorationFor_iff {f : FeedId} {l : String} :
    s.isRestorationFor f l = true ↔ ¬(f.isEmpty ∨ l = "") ∧
      ∃ r, s.restoration = some r ∧ r.feedId = f ∧ r.sourceLocationKey = l := by
  rw [isRestorationFor, getRestoration]
  split
  · next h => simp [h]
  · next h => simp [h, Option.any_eq_true]

/-- A tracked pair has names. -/
theorem Sound.named_of_tracked (h : s.Sound rs) {f : FeedId} {l : String} (ht : s.Tracked f l) :
    ¬(f.isEmpty ∨ l = "") :=
  ht.elim h.named_of_active fun hr => (isRestorationFor_iff.mp hr).1

/-- Pruning keeps exactly what is tracked. -/
theorem Sound.kept_iff (h : s.Sound rs) (f : FeedId) (l : String) :
    s.Kept (pairKey f l) ↔ s.Tracked f l := by
  rw [Kept, Tracked, IsActive, isRestorationFor_iff, or_comm, restorationKey]
  refine or_congr_right ⟨fun hk => ?_, ?_⟩
  · obtain ⟨r, hr, hkey⟩ := Option.map_eq_some_iff.mp hk.symm
    obtain ⟨rfl, rfl⟩ := pairKey_inj hkey
    exact ⟨h.anchored r hr, r, hr, rfl, rfl⟩
  · rintro ⟨-, r, hr, rfl, rfl⟩
    rw [hr]
    rfl

@[simp] theorem dropOtherFeed_activePairs (s : Store) (f : FeedId) (l : String) :
    (s.dropOtherFeed f l).activePairs = s.activePairs := by
  unfold dropOtherFeed
  split <;> rfl

@[simp] theorem dropOtherFeed_callbacks (s : Store) (f : FeedId) (l : String) :
    (s.dropOtherFeed f l).callbacks = s.callbacks := by
  unfold dropOtherFeed
  split <;> rfl

private theorem dropOtherFeed_restoration {f : FeedId} {l : String} {r : FeedAnchorCapture}
    (h : (s.dropOtherFeed f l).restoration = some r) : s.restoration = some r := by
  unfold dropOtherFeed at h
  split at h
  · cases h
  · exact h

@[simp] theorem addRegistration_restoration (s : Store) (f : FeedId) (key : String) :
    (s.addRegistration f key).restoration = s.restoration := by
  unfold addRegistration
  split <;> rfl

@[simp] theorem addRegistration_callbacks (s : Store) (f : FeedId) (key : String) :
    (s.addRegistration f key).callbacks = s.callbacks := by
  unfold addRegistration
  split <;> rfl

/-- The entry of a pair after one more registration. -/
theorem get_addRegistration (s : Store) (f : FeedId) (key j : String) :
    (s.addRegistration f key).activePairs.get j =
      if j = key then some ⟨((s.activePairs.get key).elim f (·.feedId)), s.registered key + 1⟩
      else s.activePairs.get j := by
  unfold addRegistration registered
  cases s.activePairs.get key with
  | none => exact OrderedMap.get_set _ j key _
  | some a => exact OrderedMap.get_set _ j key _

/-- An accepted registration adds a callback and one to the count of its pair. -/
theorem Sound.registerSession (h : s.Sound rs) {f : FeedId} {l : String}
    (hname : ¬(f.isEmpty ∨ l = "")) :
    (s.registerSession f l).2.Sound (rs ++ [⟨f, l, true⟩]) := by
  rw [Store.registerSession, if_neg hname]
  have hentry : ∀ j a, (((s.dropOtherFeed f l).addRegistration f (pairKey f l)).activePairs.get
      j = some a → j = pairKey f l ∧ a.feedId = f ∧ a.registrations = s.registered j + 1 ∨
        j ≠ pairKey f l ∧ s.activePairs.get j = some a) := by
    intro j a ha
    rw [get_addRegistration, dropOtherFeed_activePairs] at ha
    split at ha
    · next hj =>
      obtain rfl := Option.some.inj ha
      refine .inl ⟨hj, ?_, by rw [hj, registered, registered, dropOtherFeed_activePairs]⟩
      cases hold : s.activePairs.get (pairKey f l) with
      | none => rfl
      | some b =>
        obtain ⟨k, hk⟩ := h.feeds _ b hold
        exact (pairKey_inj hk).1.symm
    · next hj => exact .inr ⟨hj, ha⟩
  have hcount : ∀ j, registered ((s.dropOtherFeed f l).addRegistration f (pairKey f l)) j =
      s.registered j + if j = pairKey f l then 1 else 0 := by
    intro j
    rw [registered, get_addRegistration, registered, registered, dropOtherFeed_activePairs]
    split
    · next hj => rw [hj]; rfl
    · rfl
  constructor
  case callbacks => simp [Store.emit, h.callbacks, Registration.callback]
  case named =>
    intro r hr
    rcases List.mem_append.mp hr with hr | hr
    · exact h.named r hr
    · obtain rfl := List.mem_singleton.mp hr
      exact hname
  case counted =>
    intro j
    have hj := hcount j
    rw [h.counted] at hj
    simp only [registered, Store.emit, prune_activePairs, prune_callbacks,
      addRegistration_callbacks, dropOtherFeed_callbacks, List.count_append,
      List.count_singleton] at hj ⊢
    rw [hj]
    rcases eq_or_ne j (pairKey f l) with rfl | hk
    · simp
    · simp [hk, hk.symm]
  case positive =>
    intro j a ha
    simp only [Store.emit, prune_activePairs] at ha
    rcases hentry j a ha with ⟨-, -, hr⟩ | ⟨-, hold⟩
    · omega
    · exact h.positive j a hold
  case feeds =>
    intro j a ha
    simp only [Store.emit, prune_activePairs] at ha
    rcases hentry j a ha with ⟨rfl, rfl, -⟩ | ⟨-, hold⟩
    · exact ⟨l, rfl⟩
    · exact h.feeds j a hold
  case anchored =>
    intro r hr
    simp only [Store.emit, prune_restoration, addRegistration_restoration] at hr
    exact h.anchored r (dropOtherFeed_restoration hr)

@[simp] theorem unregisterSession_callbacks (s : Store) (key : String) :
    (s.unregisterSession key).callbacks = s.callbacks := by
  unfold unregisterSession
  split <;> rfl

@[simp] theorem unregisterSession_restoration (s : Store) (key : String) :
    (s.unregisterSession key).restoration = s.restoration := by
  unfold unregisterSession
  split <;> rfl

/-- The entry of a key after one registration of it ends. -/
theorem get_unregisterSession {key : String} {a : ActiveFeedPair}
    (ha : s.activePairs.get key = some a) (j : String) :
    (s.unregisterSession key).activePairs.get j =
      if j = key then
        if a.registrations - 1 = 0 then none else some ⟨a.feedId, a.registrations - 1⟩
      else s.activePairs.get j := by
  simp only [unregisterSession, ha, Store.emit]
  split
  · next h0 => exact OrderedMap.get_delete _ j key
  · next h0 => exact OrderedMap.get_set _ j key _

/-- The callback of an outstanding registration takes one from the count of its pair. -/
theorem Sound.endRegistration (h : s.Sound rs) {i : ℕ} {r : Registration}
    (hi : s.callbacks[i]? = some ⟨pairKey r.feedId r.locationKey, true⟩)
    (hnamed : ∀ q ∈ rs.set i { r with outstanding := false },
      ¬(q.feedId.isEmpty ∨ q.locationKey = "")) :
    (({ s with
        callbacks := s.callbacks.set i ⟨pairKey r.feedId r.locationKey, false⟩ }
      ).unregisterSession (pairKey r.feedId r.locationKey)).Sound
      (rs.set i { r with outstanding := false }) := by
  obtain ⟨hlt, hcallback⟩ := List.getElem?_eq_some_iff.mp hi
  have hmem : pairKey r.feedId r.locationKey ∈ s.activePairs :=
    (h.mem_iff _).mpr (List.mem_of_getElem? hi)
  obtain ⟨a, ha⟩ := OrderedMap.mem_iff_get.mp hmem
  generalize hkey : pairKey r.feedId r.locationKey = key at *
  have hentry := get_unregisterSession
    (s := { s with callbacks := s.callbacks.set i ⟨key, false⟩ }) ha
  constructor
  case callbacks => simp [h.callbacks, List.map_set, Registration.callback, hkey]
  case named => exact hnamed
  case counted =>
    intro j
    have hj := h.counted j
    rw [registered, hentry, unregisterSession_callbacks, List.count_set hlt, hcallback, ← hj,
      registered]
    rcases eq_or_ne j key with rfl | hne
    · rw [if_pos rfl, ha]
      split
      · next h0 => simpa using h0.symm
      · simp
    · simp [hne, hne.symm]
  case positive =>
    intro j b hb
    rw [hentry] at hb
    split at hb
    · split at hb
      · cases hb
      · obtain rfl := Option.some.inj hb
        exact Nat.pos_of_ne_zero ‹_›
    · exact h.positive j b hb
  case feeds =>
    intro j b hb
    rw [hentry] at hb
    split at hb
    · split at hb
      · cases hb
      · next hj _ =>
        obtain rfl := Option.some.inj hb
        exact h.feeds j a (hj ▸ ha)
    · exact h.feeds j b hb
  case anchored =>
    intro q hq
    rw [unregisterSession_restoration] at hq
    exact h.anchored q hq

/-- A call of a callback ends its registration, and a second call does nothing. -/
theorem Sound.unregister (h : s.Sound rs) (i : ℕ) :
    (s.unregister i).Sound (rs.modify i fun r => { r with outstanding := false }) := by
  unfold Store.unregister
  cases hi : s.callbacks[i]? with
  | none =>
    have hlen : rs.length ≤ i := by simpa [h.callbacks] using hi
    rw [List.modify_eq_self hlen]
    exact h
  | some callback =>
    obtain ⟨r, hget, rfl⟩ : ∃ r, rs[i]? = some r ∧ r.callback = callback := by
      simpa [h.callbacks] using hi
    have hclosed : rs.modify i (fun r => { r with outstanding := false }) =
        rs.set i { r with outstanding := false } := by
      rw [List.modify_eq_set_getElem?, hget]
      rfl
    have hnamed : ∀ q ∈ rs.set i { r with outstanding := false },
        ¬(q.feedId.isEmpty ∨ q.locationKey = "") := by
      intro q hq
      rcases List.mem_or_eq_of_mem_set hq with hq | rfl
      · exact h.named q hq
      · exact h.named r (List.mem_of_getElem? hget)
    rw [hclosed]
    cases hout : r.outstanding with
    | false =>
      have hsame : { r with outstanding := false } = r := by rw [← hout]
      obtain ⟨hlt, hr⟩ := List.getElem?_eq_some_iff.mp hget
      rw [hsame, ← hr, List.set_getElem_self]
      simpa [Registration.callback, hr, hout] using h
    | true =>
      simp only [Registration.callback, hout, Bool.not_true, Bool.false_eq_true, if_false] at hi ⊢
      exact h.endRegistration hi hnamed

/-- Every event keeps the agreement with the registrations. -/
theorem Sound.step (h : s.Sound rs) (e : Event) : (s.step e).Sound (registrationsAfter rs e) := by
  cases e with
  | captureAnchor capture =>
    rw [Store.step, captureAnchor]
    split
    · exact h
    · next hc =>
      refine h.of_same (by simp [emit]) (by simp [emit]) fun r hr => ?_
      simp only [emit, prune_restoration, Option.some.injEq] at hr
      subst hr
      exact fun hempty => hc (hempty.imp_right fun hl => .inr (.inl hl))
  | consumeRestoration f l =>
    rw [Store.step, consumeRestoration]
    split
    · exact h
    · exact h.of_same rfl rfl fun _ hr => nomatch hr
  | registerSession f l =>
    rw [Store.step, registrationsAfter]
    split
    · next hname =>
      rw [Store.registerSession, if_pos hname]
      exact h
    · next hname => exact h.registerSession hname
  | unregister i => exact h.unregister i
  | markKnownPostPending f p =>
    rw [Store.step, markKnownPostPending]
    split
    · exact h
    · exact h.of_same (by simp) (by simp) (by simpa using h.anchored)
  | markUnknownPostPending f =>
    rw [Store.step, markUnknownPostPending]
    split
    · exact h
    · exact h.of_same (by simp) (by simp) (by simpa using h.anchored)
  | removePendingPost p =>
    rw [Store.step, removePendingPost]
    split
    · exact h
    · exact h.of_same (by simp) (by simp) (by simpa using h.anchored)
  | clearPending f l v =>
    rw [Store.step, clearPending]
    split
    · exact h
    · split
      · exact h
      · exact h.of_same rfl rfl h.anchored

/-- Every run from an unused store agrees with its registrations. -/
theorem sound_run (events : List Event) : (initial.run events).Sound (registrations events) := by
  induction events using List.reverseRecOn with
  | nil => exact sound_initial
  | append_singleton events e ih =>
    rw [run_append, registrations, List.foldl_append]
    exact ih.step e

end Store

end Ascendance.FeedRestoration
