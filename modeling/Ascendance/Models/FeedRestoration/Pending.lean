import Ascendance.Models.FeedRestoration.Sessions

/-!
# What a tracked pair reports

While a pair is on screen or the anchor's, every event acts on its content as
the event's effect: a mark for its feed, a removal, a clearing that succeeded.
Replaying these effects gives what is reported at the end of such a period.
-/

namespace Ascendance.FeedRestoration

open Ascendance.Core

namespace Store

variable {s : Store} {rs : List Registration}

/-- The content of a pair. -/
def content (s : Store) (f : FeedId) (l : String) : Content :=
  contentOf (s.pending.get (pairKey f l))

/-- The effect of an event on the content of a pair. -/
def effect (f : FeedId) (l : String) (s : Store) (e : Event) (c : Content) : Content :=
  match e with
  | .markKnownPostPending g p => if g = f ∧ p ≠ "" then c.mark p else c
  | .markUnknownPostPending g => if g = f then .unknown else c
  | .removePendingPost p => if p ≠ "" then c.remove p else c
  | .clearPending g k v =>
    if g = f ∧ k = l ∧ (s.clearPending g k v).1 = true then .known ∅ else c
  | _ => c

/-- The effects of a list of events, in their order. -/
def replay (f : FeedId) (l : String) : Store → List Event → Content → Content
  | _, [], c => c
  | s, e :: es, c => replay f l (s.step e) es (effect f l s e c)

/-- The pair is tracked before, between and after the events. -/
def TrackedThroughout (f : FeedId) (l : String) : Store → List Event → Prop
  | s, [] => s.Tracked f l
  | s, e :: es => s.Tracked f l ∧ TrackedThroughout f l (s.step e) es

instance (s : Store) (f : FeedId) (l : String) : Decidable (s.Tracked f l) :=
  inferInstanceAs (Decidable (pairKey f l ∈ s.activePairs ∨ s.isRestorationFor f l = true))

instance decidableTrackedThroughout (f : FeedId) (l : String) :
    ∀ (es : List Event) (s : Store), Decidable (TrackedThroughout f l s es)
  | [], s => inferInstanceAs (Decidable (s.Tracked f l))
  | e :: es, s =>
    have := decidableTrackedThroughout f l es (s.step e)
    inferInstanceAs (Decidable (s.Tracked f l ∧ TrackedThroughout f l (s.step e) es))

/-- A pair that is tracked throughout is tracked at the start. -/
theorem TrackedThroughout.tracked {f : FeedId} {l : String} {es : List Event}
    (h : TrackedThroughout f l s es) : s.Tracked f l := by
  cases es with
  | nil => exact h
  | cons e es => exact h.1

/-- A pair that is tracked throughout is tracked at the end. -/
theorem TrackedThroughout.tracked_run {f : FeedId} {l : String} : ∀ {es : List Event} {s : Store},
    TrackedThroughout f l s es → (s.run es).Tracked f l
  | [], _, h => h
  | _ :: _, _, h => h.2.tracked_run

/-- The targets of a feed are its restoration and its active pairs. -/
theorem mem_pendingTargets {f : FeedId} {key : String} :
    key ∈ s.pendingTargets f ↔
      (∃ r, s.restoration = some r ∧ r.feedId = f ∧ key = pairKey f r.sourceLocationKey) ∨
        ∃ a, s.activePairs.get key = some a ∧ a.feedId = f := by
  have hanchor : key ∈ s.anchorTargets f ↔
      ∃ r, s.restoration = some r ∧ r.feedId = f ∧ key = pairKey f r.sourceLocationKey := by
    simp only [anchorTargets, List.mem_map, Option.mem_toList, Option.filter_eq_some_iff,
      decide_eq_true_eq]
    constructor
    · rintro ⟨r, ⟨hr, hf⟩, rfl⟩
      exact ⟨r, hr, hf, rfl⟩
    · rintro ⟨r, hr, hf, rfl⟩
      exact ⟨r, ⟨hr, hf⟩, rfl⟩
  rw [pendingTargets, List.mem_append, hanchor]
  refine or_congr_right' fun hnot => ?_
  simp only [List.mem_map, List.mem_filter, Bool.and_eq_true, decide_eq_true_eq,
    Bool.not_eq_true', List.contains_eq_mem, decide_eq_false_iff_not]
  constructor
  · rintro ⟨e, ⟨he, hf, -⟩, rfl⟩
    exact ⟨e.2, OrderedMap.mem_entries_iff.mp he, hf⟩
  · rintro ⟨a, ha, hf⟩
    exact ⟨⟨key, a⟩, ⟨OrderedMap.mem_entries_iff.mpr ha, hf, fun hm => hnot (hanchor.mp hm)⟩, rfl⟩

private theorem nodup_pendingTargets (s : Store) (f : FeedId) : (s.pendingTargets f).Nodup := by
  have hanchor : (s.anchorTargets f).Nodup := by
    rw [anchorTargets]
    cases s.restoration.filter fun r => decide (r.feedId = f) <;> simp
  have hactive : ((s.activePairs.entries.filter fun e =>
      decide (e.2.feedId = f) && !(s.anchorTargets f).contains e.1).map (·.1)).Nodup :=
    List.Nodup.sublist (List.filter_sublist.map _) s.activePairs.keys_nodup
  refine List.nodup_append.mpr ⟨hanchor, hactive, ?_⟩
  rintro key hkey _ hm rfl
  obtain ⟨e, he, rfl⟩ := List.mem_map.mp hm
  have hnot := (List.mem_filter.mp he).2
  simp [hkey] at hnot

/-- A mark reaches a tracked pair when it is for the feed of the pair. -/
theorem Sound.mem_pendingTargets_iff (h : s.Sound rs) {f g : FeedId} {l : String}
    (ht : s.Tracked f l) : pairKey f l ∈ s.pendingTargets g ↔ g = f := by
  rw [mem_pendingTargets]
  constructor
  · rintro (⟨r, -, -, hkey⟩ | ⟨a, ha, rfl⟩)
    · exact (pairKey_inj hkey).1.symm
    · obtain ⟨k, hk⟩ := h.feeds _ a ha
      exact (pairKey_inj hk).1.symm
  · rintro rfl
    rcases ht with ht | ht
    · obtain ⟨a, ha⟩ := OrderedMap.mem_iff_get.mp ht
      obtain ⟨k, hk⟩ := h.feeds _ a ha
      exact .inr ⟨a, ha, (pairKey_inj hk).1.symm⟩
    · obtain ⟨-, r, hr, hf, rfl⟩ := isRestorationFor_iff.mp ht
      exact .inl ⟨r, hr, hf, rfl⟩

/-- A loop of marks for a feed acts on the tracked pairs of the feed. -/
theorem Sound.content_visitAll (h : s.Sound rs) {f g : FeedId} {l : String} (ht : s.Tracked f l)
    {decision : Option FeedPendingState → Visit} {act : Content → Content}
    (hact : Acts decision act) :
    (s.visitAll decision (s.pendingTargets g)).content f l =
      if g = f then act (s.content f l) else s.content f l := by
  rw [content, contentOf_visitAll hact _ (nodup_pendingTargets s g) s]
  simp only [h.mem_pendingTargets_iff ht]
  rfl

/-- Removing a post acts on every content. -/
theorem content_removePendingPost (s : Store) (f : FeedId) (l : String) {p : String} (hp : p ≠ "") :
    (s.removePendingPost p).content f l = (s.content f l).remove p := by
  rw [removePendingPost, if_neg hp, content,
    contentOf_visitAll (acts_removeKnown p) _ s.pending.keys_nodup s]
  split
  · rfl
  · next hkey =>
    rw [content, OrderedMap.get_eq_none.mpr fun hm => hkey (AList.mem_keys.mp hm)]
    rfl

/-- Different pairs have different keys. -/
private theorem pairKey_ne {f g : FeedId} {l k : String} (h : ¬(g = f ∧ k = l)) :
    pairKey f l ≠ pairKey g k := by
  intro hkey
  obtain ⟨rfl, rfl⟩ := pairKey_inj hkey
  exact h ⟨rfl, rfl⟩

/-- Clearing empties the content of its own pair, when it succeeds. -/
theorem content_clearPending (s : Store) (f : FeedId) (l : String) (g : FeedId) (k : String)
    (v : ExpectedVersion) :
    (s.clearPending g k v).2.content f l =
      if g = f ∧ k = l ∧ (s.clearPending g k v).1 = true then .known ∅ else s.content f l := by
  rw [clearPending]
  cases hp : s.pending.get (pairKey g k) with
  | none => simp
  | some pending =>
    cases hv : v.accepts pending.version with
    | false => simp [hv]
    | true =>
      simp only [hv, content, emit, Bool.not_true, Bool.false_eq_true, if_false, and_true]
      rw [OrderedMap.get_delete]
      by_cases hpair : g = f ∧ k = l
      · obtain ⟨rfl, rfl⟩ := hpair
        simp [contentOf]
      · rw [if_neg (pairKey_ne hpair), if_neg hpair]

@[simp] theorem dropOtherFeed_pending (s : Store) (f : FeedId) (l : String) :
    (s.dropOtherFeed f l).pending = s.pending := by
  unfold dropOtherFeed
  split <;> rfl

@[simp] theorem addRegistration_pending (s : Store) (f : FeedId) (key : String) :
    (s.addRegistration f key).pending = s.pending := by
  unfold addRegistration
  split <;> rfl

@[simp] theorem unregister_pending (s : Store) (i : ℕ) : (s.unregister i).pending = s.pending := by
  unfold unregister
  split
  · rfl
  · split
    · rfl
    · unfold unregisterSession
      split <;> rfl

@[simp] theorem dropOtherFeed_nextPendingVersion (s : Store) (f : FeedId) (l : String) :
    (s.dropOtherFeed f l).nextPendingVersion = s.nextPendingVersion := by
  unfold dropOtherFeed
  split <;> rfl

@[simp] theorem addRegistration_nextPendingVersion (s : Store) (f : FeedId) (key : String) :
    (s.addRegistration f key).nextPendingVersion = s.nextPendingVersion := by
  unfold addRegistration
  split <;> rfl

@[simp] theorem unregister_nextPendingVersion (s : Store) (i : ℕ) :
    (s.unregister i).nextPendingVersion = s.nextPendingVersion := by
  unfold unregister
  split
  · rfl
  · split
    · rfl
    · unfold unregisterSession
      split <;> rfl

/-- An event acts on the content of a pair that is tracked before and after it as its effect. -/
theorem Sound.content_step (h : s.Sound rs) {f : FeedId} {l : String} (ht : s.Tracked f l)
    (e : Event) (ht' : (s.step e).Tracked f l) :
    (s.step e).content f l = effect f l s e (s.content f l) := by
  have hname := h.named_of_tracked ht
  cases e with
  | captureAnchor capture =>
    have hkept := ((h.step _).kept_iff f l).mpr ht'
    rw [Store.step, Store.captureAnchor] at hkept ⊢
    split
    · rfl
    · next hc =>
      rw [if_neg hc] at hkept
      have hkept' : Kept { s with restoration := some capture } (pairKey f l) := by
        simpa [Kept, restorationKey, emit] using hkept
      exact congrArg contentOf (get_prune_of_kept hkept')
  | consumeRestoration g k =>
    rw [Store.step, consumeRestoration]
    split <;> rfl
  | registerSession g k =>
    have hkept := ((h.step _).kept_iff f l).mpr ht'
    rw [Store.step, Store.registerSession] at hkept ⊢
    split
    · rfl
    · next hc =>
      rw [if_neg hc] at hkept
      have hkept' : Kept ((s.dropOtherFeed g k).addRegistration g (pairKey g k))
          (pairKey f l) := by
        simpa [Kept, restorationKey, emit] using hkept
      refine congrArg contentOf ((get_prune_of_kept hkept').trans ?_)
      rw [addRegistration_pending, dropOtherFeed_pending]
  | unregister i =>
    rw [Store.step, content, unregister_pending]
    rfl
  | markKnownPostPending g p =>
    rw [Store.step, markKnownPostPending, effect]
    by_cases hp : p = ""
    · rw [if_pos (.inr hp), if_neg fun hn => hn.2 hp]
    · by_cases hg : g = f
      · subst hg
        rw [if_neg fun hc => hname (.inl (hc.resolve_right hp)), if_pos ⟨rfl, hp⟩,
          h.content_visitAll ht (acts_markKnown p), if_pos rfl]
      · have hother : ¬(g = f ∧ p ≠ "") := fun hc => hg hc.1
        rw [if_neg hother]
        split
        · rfl
        · rw [h.content_visitAll ht (acts_markKnown p), if_neg hg]
  | markUnknownPostPending g =>
    rw [Store.step, markUnknownPostPending, effect]
    by_cases hg : g = f
    · subst hg
      rw [if_neg fun hc => hname (.inl hc), if_pos rfl, h.content_visitAll ht acts_markUnknown,
        if_pos rfl]
    · rw [if_neg hg]
      split
      · rfl
      · rw [h.content_visitAll ht acts_markUnknown, if_neg hg]
  | removePendingPost p =>
    rw [Store.step, effect]
    split
    · next hp => exact content_removePendingPost s f l hp
    · next hp =>
      rw [removePendingPost, if_pos (not_not.mp hp)]
  | clearPending g k v => exact content_clearPending s f l g k v

/-- The content after a run is what replaying its calls makes of the content before. -/
theorem Sound.content_run {f : FeedId} {l : String} : ∀ (es : List Event) {s : Store}
    {rs : List Registration}, s.Sound rs → TrackedThroughout f l s es →
      (s.run es).content f l = replay f l s es (s.content f l)
  | [], _, _, _, _ => rfl
  | e :: es, s, rs, h, ht => by
    have hrest := Sound.content_run es (h.step e) ht.2
    rw [h.content_step ht.1 e ht.2.tracked] at hrest
    exact hrest

/-- What is reported for a tracked pair is its content. -/
theorem Sound.getPending_eq (h : s.Sound rs) {f : FeedId} {l : String} (ht : s.Tracked f l) :
    s.getPending f l = (s.content f l).report := by
  have hactive : ¬(pairKey f l ∉ s.activePairs ∧ !s.isRestorationFor f l) := by
    rintro ⟨hn, hr⟩
    rcases ht with ht | ht
    · exact hn ht
    · rw [ht] at hr
      cases hr
  simp only [getPending, if_neg (h.named_of_tracked ht), if_neg hactive, content]
  cases s.pending.get (pairKey f l) with
  | none => rfl
  | some pending =>
    by_cases hu : pending.unknown
    · simp [contentOf, Content.report, hu]
    · simp [contentOf, Content.report, hu]

/-- Nothing is reported for any other pair. -/
theorem getPending_of_not_tracked {f : FeedId} {l : String} (ht : ¬s.Tracked f l) :
    s.getPending f l = EMPTY_PENDING := by
  rw [Tracked, IsActive, not_or] at ht
  rw [getPending]
  split
  · rfl
  · exact if_pos ⟨ht.1, by simpa using ht.2⟩

end Store

end Ascendance.FeedRestoration
