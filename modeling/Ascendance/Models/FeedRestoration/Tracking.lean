import Ascendance.Models.FeedRestoration.Pending

/-!
# Versions, and the whole contract of pending posts

A version that is taken is above every version taken before. So a version names
one entry of one pair, and finding it again means that nothing happened to it.
-/

namespace Ascendance.FeedRestoration

open Ascendance.Core

namespace Store

/-- Versions are taken from the counter and no two entries share one. -/
structure Versioned (s : Store) : Prop where
  bound : ∀ key p, s.pending.get key = some p → p.version ≤ s.nextPendingVersion
  distinct : ∀ key p key' p', s.pending.get key = some p → s.pending.get key' = some p' →
    p.version = p'.version → key = key'

/-- Each entry of `t` is one of `s` or has a version that `s` had not taken. -/
structure Later (s t : Store) : Prop where
  counter : s.nextPendingVersion ≤ t.nextPendingVersion
  entries : ∀ key p, t.pending.get key = some p →
    s.pending.get key = some p ∨ s.nextPendingVersion < p.version

/-- A store is as late as itself. -/
theorem Later.refl (s : Store) : s.Later s := ⟨le_rfl, fun _ _ h => .inl h⟩

/-- The order of stores in time is transitive. -/
theorem Later.trans {s t u : Store} (h : s.Later t) (h' : t.Later u) : s.Later u where
  counter := h.counter.trans h'.counter
  entries key p hp := by
    rcases h'.entries key p hp with ht | hlt
    · exact h.entries key p ht
    · exact .inr (h.counter.trans_lt hlt)

/-- A version of `s` that stands in `t` stands there in the same entry. -/
theorem Later.entry {s t : Store} (h : s.Later t) {key : String} {p : FeedPendingState}
    (hp : t.pending.get key = some p) (hv : p.version ≤ s.nextPendingVersion) :
    s.pending.get key = some p :=
  (h.entries key p hp).resolve_right fun hlt => absurd hv (Nat.not_le.mpr hlt)

/-- One more operation after `s`: versions stay in order. -/
structure Advances (s t : Store) : Prop where
  versioned : t.Versioned
  later : s.Later t

/-- A store with versions advances to itself. -/
theorem Versioned.advances {s : Store} (h : s.Versioned) : s.Advances s := ⟨h, .refl s⟩

variable {s t u : Store}

/-- A change outside the pending entries advances no version. -/
theorem Advances.of_same (h : s.Advances t) (hpending : u.pending = t.pending)
    (hnext : u.nextPendingVersion = t.nextPendingVersion) : s.Advances u := by
  refine ⟨⟨fun key p hp => ?_, fun key p key' p' hp hp' => ?_⟩, ⟨?_, fun key p hp => ?_⟩⟩
  · rw [hnext]
    exact h.versioned.bound key p (hpending ▸ hp)
  · exact h.versioned.distinct key p key' p' (hpending ▸ hp) (hpending ▸ hp')
  · rw [hnext]
    exact h.later.counter
  · exact h.later.entries key p (hpending ▸ hp)

/-- Dropping an entry takes no version. -/
theorem Advances.delete (h : s.Advances t) (key : String) :
    s.Advances { t with pending := t.pending.delete key } := by
  have hold : ∀ j p, (t.pending.delete key).get j = some p → t.pending.get j = some p := by
    intro j p hp
    rw [OrderedMap.get_delete] at hp
    split at hp
    · cases hp
    · exact hp
  refine ⟨⟨fun j p hp => ?_, fun j p j' p' hp hp' => ?_⟩, ⟨h.later.counter, fun j p hp => ?_⟩⟩
  · exact h.versioned.bound j p (hold j p hp)
  · exact h.versioned.distinct j p j' p' (hold j p hp) (hold j' p' hp')
  · exact h.later.entries j p (hold j p hp)

/-- Writing an entry takes the next version for it. -/
theorem Advances.write (h : s.Advances t) (key : String) (unknown : Bool)
    (postIds : Finset String) :
    s.Advances { t with
      pending := t.pending.set key ⟨unknown, postIds, t.nextPendingVersion + 1⟩
      nextPendingVersion := t.nextPendingVersion + 1 } := by
  have hentry : ∀ j p,
      (t.pending.set key ⟨unknown, postIds, t.nextPendingVersion + 1⟩).get j = some p →
        j = key ∧ p.version = t.nextPendingVersion + 1 ∨
          j ≠ key ∧ t.pending.get j = some p := by
    intro j p hp
    rw [OrderedMap.get_set] at hp
    split at hp
    · next hj =>
      obtain rfl := Option.some.inj hp
      exact .inl ⟨hj, rfl⟩
    · next hj => exact .inr ⟨hj, hp⟩
  refine ⟨⟨fun j p hp => ?_, fun j p j' p' hp hp' he => ?_⟩, ⟨?_, fun j p hp => ?_⟩⟩
  · rcases hentry j p hp with ⟨-, hv⟩ | ⟨-, hp⟩
    · exact hv.le
    · exact (h.versioned.bound j p hp).trans (Nat.le_succ _)
  · rcases hentry j p hp with ⟨hj, hv⟩ | ⟨hj, hp⟩ <;>
      rcases hentry j' p' hp' with ⟨hj', hv'⟩ | ⟨hj', hp'⟩
    · rw [hj, hj']
    · have hb := h.versioned.bound j' p' hp'
      omega
    · have hb := h.versioned.bound j p hp
      omega
    · exact h.versioned.distinct j p j' p' hp hp' he
  · exact h.later.counter.trans (Nat.le_succ _)
  · rcases hentry j p hp with ⟨-, hv⟩ | ⟨-, hp⟩
    · exact .inr (hv ▸ Nat.lt_succ_of_le h.later.counter)
    · exact h.later.entries j p hp

/-- A visit gives a new version to what it changes. -/
theorem Advances.visit (h : s.Advances t) (decision : Option FeedPendingState → Visit)
    (key : String) : s.Advances (t.visit decision key) := by
  unfold Store.visit
  split
  · exact h
  · exact h.write key _ _
  · exact h.delete key

/-- Visits to several keys give new versions to what they change. -/
theorem Advances.visitAll (h : s.Advances t) (decision : Option FeedPendingState → Visit)
    (keys : List String) : s.Advances (t.visitAll decision keys) :=
  visitAll_induct decision (fun _ key hu => hu.visit decision key)
    (fun _ hu => hu.of_same rfl rfl) keys h

/-- Pruning gives no version a second time. -/
theorem Advances.prune (h : s.Advances t) : s.Advances t.pruneOrphanedPending :=
  prune_induct (fun _ key hu => hu.delete key) h

/-- Every event keeps the versions in order. -/
theorem Versioned.step (h : s.Versioned) (e : Event) : s.Advances (s.step e) := by
  have hs := h.advances
  cases e with
  | captureAnchor capture =>
    rw [Store.step, captureAnchor]
    split
    · exact hs
    · have hset : s.Advances { s with restoration := some capture } := hs.of_same rfl rfl
      exact hset.prune.of_same rfl rfl
  | consumeRestoration f l =>
    rw [Store.step, consumeRestoration]
    split
    · exact hs
    · exact hs.of_same rfl rfl
  | registerSession f l =>
    rw [Store.step, registerSession]
    split
    · exact hs
    · have hadd : s.Advances ((s.dropOtherFeed f l).addRegistration f (pairKey f l)) :=
        hs.of_same (by simp) (by simp)
      exact hadd.prune.of_same rfl rfl
  | unregister i => exact hs.of_same (unregister_pending s i) (unregister_nextPendingVersion s i)
  | markKnownPostPending f p =>
    rw [Store.step, markKnownPostPending]
    split
    · exact hs
    · exact hs.visitAll _ _
  | markUnknownPostPending f =>
    rw [Store.step, markUnknownPostPending]
    split
    · exact hs
    · exact hs.visitAll _ _
  | removePendingPost p =>
    rw [Store.step, removePendingPost]
    split
    · exact hs
    · exact hs.visitAll _ _
  | clearPending f l v =>
    rw [Store.step, clearPending]
    split
    · exact hs
    · split
      · exact hs
      · exact (hs.delete _).of_same rfl rfl

/-- Versions only grow along a run. -/
theorem Versioned.run : ∀ (es : List Event) {s : Store}, s.Versioned → s.Advances (s.run es)
  | [], _, h => h.advances
  | e :: es, s, h => by
    have hstep := h.step e
    have hrest := Versioned.run es hstep.versioned
    exact ⟨hrest.versioned, hstep.later.trans hrest.later⟩

private theorem versioned_run (events : List Event) : (initial.run events).Versioned := by
  have hinit : initial.Versioned := ⟨fun _ _ h => (nomatch h), fun _ _ _ _ h => (nomatch h)⟩
  exact (hinit.run events).versioned

/-- The stored entry of a pair. -/
def entry (s : Store) (f : FeedId) (l : String) : Option FeedPendingState :=
  s.pending.get (pairKey f l)

/-- The entry of the pair is the same in every state of the run. -/
def Untouched (f : FeedId) (l : String) (s : Store) (es : List Event) : Prop :=
  ∀ before, before <+: es → (s.run before).entry f l = s.entry f l

/-- A version that is read again stands for the same pair, which nothing touched since. -/
theorem Versioned.untouched (h : s.Versioned) {f g : FeedId} {l k : String} {v : ℕ}
    {es : List Event} (hread : s.getPendingVersion f l = some v)
    (hagain : (s.run es).getPendingVersion g k = some v) :
    (g = f ∧ k = l) ∧ Untouched f l s es := by
  obtain ⟨p, hp, hpv⟩ := Option.map_eq_some_iff.mp hread
  obtain ⟨q, hq, hqv⟩ := Option.map_eq_some_iff.mp hagain
  have hbound : q.version ≤ s.nextPendingVersion := hqv ▸ hpv ▸ h.bound _ p hp
  have hstart := (h.run es).later.entry hq hbound
  have hkey := h.distinct _ q _ p hstart hp (hqv.trans hpv.symm)
  obtain ⟨rfl, rfl⟩ := pairKey_inj hkey
  refine ⟨⟨rfl, rfl⟩, ?_⟩
  rintro before ⟨after, rfl⟩
  have hmiddle := h.run before
  rw [run_append] at hq
  have hthere := (hmiddle.versioned.run after).later.entry hq
    (hbound.trans hmiddle.later.counter)
  exact hthere.trans hstart.symm

/-- Clearing succeeds when there is an entry and its version is accepted. -/
theorem clearPending_eq_true {f : FeedId} {l : String} {v : ExpectedVersion} :
    (s.clearPending f l v).1 = true ↔
      ∃ p, s.entry f l = some p ∧ v.accepts p.version = true := by
  rw [clearPending, entry]
  cases s.pending.get (pairKey f l) with
  | none => simp
  | some p => cases hv : v.accepts p.version <;> simp [hv]

/-- Clearing with a version read before succeeds only when nothing touched the pair since. -/
theorem Versioned.clearPending_untouched (h : s.Versioned) {f : FeedId} {l : String}
    {es : List Event}
    (hclear : ((s.run es).clearPending f l (.value (s.getPendingVersion f l))).1 = true) :
    Untouched f l s es := by
  obtain ⟨p, hp, hv⟩ := clearPending_eq_true.mp hclear
  have hread : s.getPendingVersion f l = some p.version := by
    simpa [ExpectedVersion.accepts] using hv
  have hagain : (s.run es).getPendingVersion f l = some p.version := congrArg (·.map (·.version)) hp
  exact (h.untouched hread hagain).2

variable {rs : List Registration}

/-- A mark reaches tracked pairs only. -/
theorem Sound.tracked_of_mem_pendingTargets (h : s.Sound rs) {f g : FeedId} {l : String}
    (hm : pairKey f l ∈ s.pendingTargets g) : s.Tracked f l := by
  rcases mem_pendingTargets.mp hm with ⟨r, hr, rfl, hkey⟩ | ⟨a, ha, -⟩
  · obtain ⟨rfl, rfl⟩ := pairKey_inj hkey
    exact .inr (isRestorationFor_iff.mpr ⟨h.anchored r hr, r, hr, rfl, rfl⟩)
  · exact .inl (OrderedMap.mem_iff_get.mpr ⟨a, ha⟩)

/-- A mark changes nothing for a pair that is not tracked. -/
private theorem Sound.entry_mark (h : s.Sound rs) {f : FeedId} {l : String} (ht : ¬s.Tracked f l)
    {e : Event} (he : e.IsMark) : (s.step e).entry f l = s.entry f l := by
  have hnot : ∀ g, pairKey f l ∉ s.pendingTargets g :=
    fun g hm => ht (h.tracked_of_mem_pendingTargets hm)
  cases e with
  | markKnownPostPending g p =>
    rw [Store.step, markKnownPostPending]
    split
    · rfl
    · exact get_visitAll_of_notMem _ (hnot g) s
  | markUnknownPostPending g =>
    rw [Store.step, markUnknownPostPending]
    split
    · rfl
    · exact get_visitAll_of_notMem _ (hnot g) s
  | _ => exact he.elim

/-- Capturing an anchor and registering a session discard what waits for other pairs. -/
theorem Sound.entry_prune (h : s.Sound rs) {f : FeedId} {l : String} {e : Event} (he : e.Prunes)
    (ht : ¬(s.step e).Tracked f l) : (s.step e).entry f l = none := by
  have hkept := mt ((h.step e).kept_iff f l).mp ht
  cases e with
  | captureAnchor capture =>
    rw [Store.step, captureAnchor, if_neg he] at hkept ⊢
    exact get_prune_of_not_kept (by simpa [Kept, restorationKey, emit] using hkept)
  | registerSession g k =>
    rw [Store.step, Store.registerSession, if_neg he] at hkept ⊢
    exact get_prune_of_not_kept (by simpa [Kept, restorationKey, emit] using hkept)
  | _ => exact he.elim

end Store

open Store in
/-- Pending posts of the store, after any events, for any feed and location. The pair is
active exactly while it has an outstanding registration. Over a period in which it is
tracked the report at the end is the report at the start carried through the effects of
the events. A version that was read is found again only while nothing touched the pair,
and clearing with it succeeds only then. A pair that is not tracked reports nothing, is
reached by no mark, and loses what waits for it at the next anchor or session. -/
theorem feedRestoration_pending (events : List Event) (f : FeedId) (l : String) :
    let s := initial.run events
    (s.IsActive f l ↔
      ∃ r ∈ registrations events, r.feedId = f ∧ r.locationKey = l ∧ r.outstanding = true) ∧
    (∀ later, TrackedThroughout f l s later →
      s.getPending f l = (s.content f l).report ∧
      (s.run later).getPending f l = (replay f l s later (s.content f l)).report) ∧
    (∀ later g k v, s.getPendingVersion f l = some v →
      (s.run later).getPendingVersion g k = some v →
        (g = f ∧ k = l) ∧ Untouched f l s later) ∧
    (∀ later,
      ((s.run later).clearPending f l (.value (s.getPendingVersion f l))).1 = true →
        Untouched f l s later) ∧
    (¬s.Tracked f l → s.getPending f l = EMPTY_PENDING ∧
      ∀ e : Event, e.IsMark → (s.step e).entry f l = s.entry f l) ∧
    ∀ e : Event, e.Prunes → ¬(s.step e).Tracked f l → (s.step e).entry f l = none := by
  intro s
  have hsound := sound_run events
  have hversions := versioned_run events
  refine ⟨hsound.isActive_iff f l, fun later ht => ⟨hsound.getPending_eq ht.tracked, ?_⟩,
    fun later g k v => hversions.untouched, fun later => hversions.clearPending_untouched,
    fun ht => ⟨getPending_of_not_tracked ht, fun e => hsound.entry_mark ht⟩,
    fun e he => hsound.entry_prune he⟩
  have hend : (s.run later).Sound (registrations (events ++ later)) := by
    rw [← run_append]
    exact sound_run (events ++ later)
  rw [hend.getPending_eq ht.tracked_run, hsound.content_run later ht]

open Store in
/-- A home feed on screen receives two posts, one of them twice, and one goes away. -/
theorem feedRestoration_pending_home :
    let home := feedIdentities.home none
    let s := initial.run [.registerSession home "a"]
    let later : List Event := [.markKnownPostPending home "p", .markKnownPostPending home "q",
      .markKnownPostPending home "p", .removePendingPost "q"]
    TrackedThroughout home "a" s later ∧ s.getPending home "a" = EMPTY_PENDING ∧
      (s.run later).getPending home "a" = ⟨true, false, 1⟩ := by
  intro home s later
  have htracked : TrackedThroughout home "a" s later := by decide +kernel
  obtain ⟨hstart, hend⟩ :=
    (feedRestoration_pending [.registerSession home "a"] home "a").2.1 later htracked
  refine ⟨htracked, hstart.trans (by decide +kernel), hend.trans (by decide +kernel)⟩

end Ascendance.FeedRestoration
