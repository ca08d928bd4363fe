import Ascendance.Models.Feed.SnapshotAgreement

/-!
# Lifetimes of cursors

A cursor lives for its full time from the page that minted it, its snapshot from the
write of its creation. The cursor can only be sure of its snapshot when the second in
which it was minted began at most a millisecond after that write.
-/

namespace Ascendance.Feed

open Ascendance.Core

/-- A snapshot that is stored under an identifier until the last moment of a cursor. -/
def World.Keeps (w : World) (id : String) (snapshot : FeedCursorSnapshot) (expiresAt : ℕ) : Prop :=
  ∃ e, w.snapshots.entry w.clock id = some e ∧ e.value = snapshot ∧
    WithTop.some (expiresAt * 1000 - 1) ≤ e.expireAt

/-- The second of the clock began at most a millisecond after a snapshot was written. -/
def World.Fresh (w : World) (id : String) (snapshot : FeedCursorSnapshot) : Prop :=
  ∃ writtenAt, (id, snapshot, writtenAt) ∈ w.writes ∧ w.clock / 1000 * 1000 ≤ writtenAt + 1

/-- A cursor is minted only from a snapshot that has just been written. -/
def Prompt (w : World) : Action → Prop
  | .mint r => ∀ id snapshot, w.request r = .served id snapshot → w.Fresh id snapshot
  | _ => True

section Lifetimes

variable {p : Platform} {w w' : World} {a : Action}

/-- A cursor is unexpired until the last millisecond before its expiry. -/
theorem unexpired_iff (cursor : SnapshotCursor) (clock : ℕ) :
    cursor.unexpired clock = true ↔ clock < cursor.expiresAt * 1000 := by
  unfold SnapshotCursor.unexpired
  rw [decide_eq_true_iff]
  omega

/-- The snapshot of a kept cursor is found by the expectations of the cursor. -/
theorem World.Keeps.require {id : String} {snapshot : FeedCursorSnapshot} {expiresAt clock : ℕ}
    (h : ∃ e, w.snapshots id = some e ∧ e.value = snapshot ∧
      WithTop.some (expiresAt * 1000 - 1) ≤ e.expireAt)
    (hk : p.Known w.stored id snapshot) (hu : clock < expiresAt * 1000) :
    p.requireFeedCursorSnapshot w.snapshots clock id snapshot.variant = some snapshot := by
  obtain ⟨e, he, rfl, hlast⟩ := h
  obtain ⟨-, hid, haccepts⟩ := hk
  have hlive : WithTop.some clock ≤ WithTop.some (expiresAt * 1000 - 1) :=
    WithTop.coe_le_coe.mpr (by omega)
  have hentry := Keyspace.entry_eq_some.mpr ⟨he, hlive.trans hlast⟩
  unfold Platform.requireFeedCursorSnapshot Platform.getFeedCursorSnapshot Keyspace.get
  rw [if_pos hid, hentry, Option.map_some, Option.filter_some, if_pos haccepts, Option.filter_some,
    if_pos (decide_eq_true rfl)]

/-- When a snapshot expires that is written at a time. -/
def expiry (writtenAt : ℕ) : WithTop ℕ :=
  Keyspace.after writtenAt FEED_CURSOR_SNAPSHOT_TTL_SECONDS

/-- Every entry comes from a write, and the entry of a write stays until it expires. -/
structure World.Dated (w : World) : Prop where
  entries : ∀ id e, w.snapshots id = some e →
    ∃ writtenAt, (id, e.value, writtenAt) ∈ w.writes ∧ e.expireAt = expiry writtenAt
  stays : ∀ id snapshot writtenAt, (id, snapshot, writtenAt) ∈ w.writes →
    WithTop.some w.clock ≤ expiry writtenAt →
    w.snapshots id = some ⟨snapshot, expiry writtenAt⟩

/-- Writing a snapshot notes when it was written. -/
theorem World.Dated.store (hd : w.Dated) (id : String) (snapshot : FeedCursorSnapshot) :
    (w.store id snapshot).Dated := by
  unfold World.store
  cases hlive : w.snapshots.entry w.clock id with
  | some live =>
    rw [Keyspace.setNxEx_of_some hlive]
    exact hd
  | none =>
    rw [Keyspace.setNxEx_of_none hlive]
    constructor
    · intro id' e he
      by_cases hid : id' = id
      · subst hid
        simp only [Keyspace.setEx, Keyspace.put_self] at he
        obtain rfl := Option.some.inj he
        exact ⟨w.clock, List.mem_cons_self, rfl⟩
      · simp only [Keyspace.setEx_ne _ _ _ _ hid] at he
        obtain ⟨writtenAt, hmem, hexpire⟩ := hd.entries id' e he
        exact ⟨writtenAt, List.mem_cons_of_mem _ hmem, hexpire⟩
    · intro id' snapshot' writtenAt hmem hnow
      rcases List.mem_cons.mp hmem with hnew | hold
      · cases hnew
        exact Keyspace.put_self ..
      · have hentry := hd.stays id' snapshot' writtenAt hold hnow
        -- Nothing is written over an entry that has not expired.
        have hid : id' ≠ id := by
          rintro rfl
          rw [Keyspace.entry_eq_some.mpr ⟨hentry, hnow⟩] at hlive
          cases hlive
        exact (Keyspace.setEx_ne _ _ _ _ hid).trans hentry

/-- Every action keeps the dates of the stored snapshots. -/
theorem World.Dated.step (hd : w.Dated) (h : p.step w a = some w') : w'.Dated := by
  cases Platform.step_cases h with
  | advance ms =>
    refine ⟨hd.entries,
      fun id snapshot writtenAt hmem hnow => hd.stays id snapshot writtenAt hmem ?_⟩
    exact (WithTop.coe_le_coe.mpr (Nat.le_add_right _ _)).trans hnow
  | wrote hr => exact ⟨(hd.store _ _).entries, (hd.store _ _).stays⟩
  | lost hr => exact ⟨(hd.store _ _).entries, (hd.store _ _).stays⟩
  | _ => exact ⟨hd.entries, hd.stays⟩

/-- A snapshot that has just been written is one that stays to the end of the cursor. -/
theorem World.Dated.fresh_iff (hd : w.Dated) (id : String) (snapshot : FeedCursorSnapshot) :
    w.Fresh id snapshot ↔ w.Keeps id snapshot (mintCursor w.clock id snapshot).expiresAt := by
  have hlast : ∀ writtenAt, WithTop.some
      ((w.clock / 1000 + FEED_CURSOR_TTL_SECONDS) * 1000 - 1) ≤ expiry writtenAt ↔
      w.clock / 1000 * 1000 ≤ writtenAt + 1 := by
    intro writtenAt
    unfold expiry Keyspace.after FEED_CURSOR_SNAPSHOT_TTL_SECONDS FEED_CURSOR_TTL_SECONDS
    rw [WithTop.coe_le_coe]
    omega
  constructor
  · rintro ⟨writtenAt, hmem, hsecond⟩
    have hend := (hlast writtenAt).mpr hsecond
    have hnow : WithTop.some w.clock ≤ expiry writtenAt := by
      refine le_trans (WithTop.coe_le_coe.mpr ?_) hend
      unfold FEED_CURSOR_TTL_SECONDS
      omega
    have hentry := hd.stays id snapshot writtenAt hmem hnow
    exact ⟨_, Keyspace.entry_eq_some.mpr ⟨hentry, hnow⟩, rfl, hend⟩
  · rintro ⟨e, he, rfl, hend⟩
    obtain ⟨writtenAt, hmem, hexpire⟩ := hd.entries id e (Keyspace.entry_eq_some.mp he).1
    rw [hexpire] at hend
    exact ⟨writtenAt, hmem, (hlast writtenAt).mp hend⟩

/-- Every cursor has expired or has its snapshot to the end. -/
def World.Lasting (w : World) : Prop :=
  ∀ c ∈ w.cursors, c.expiresAt * 1000 ≤ w.clock ∨
    ∃ e, w.snapshots c.snapshotId = some e ∧ e.value = c.snapshot ∧
      WithTop.some (c.expiresAt * 1000 - 1) ≤ e.expireAt

/-- A write leaves a snapshot that has not expired. -/
theorem World.Lasting.store (hl : w.Lasting) (id : String) (snapshot : FeedCursorSnapshot) :
    (w.store id snapshot).Lasting := by
  intro c hc
  rcases hl c hc with hold | ⟨e, he, hvalue, hlast⟩
  · exact .inl hold
  · by_cases hexpired : c.expiresAt * 1000 ≤ w.clock
    · exact .inl hexpired
    · have hnow : WithTop.some w.clock ≤ WithTop.some (c.expiresAt * 1000 - 1) :=
        WithTop.coe_le_coe.mpr (by omega)
      have hentry := Keyspace.entry_eq_some.mpr ⟨he, hnow.trans hlast⟩
      refine .inr ⟨e, ?_, hvalue, hlast⟩
      change w.snapshots.setNxEx w.clock id FEED_CURSOR_SNAPSHOT_TTL_SECONDS snapshot c.snapshotId =
        some e
      cases hlive : w.snapshots.entry w.clock id with
      | some live => rwa [Keyspace.setNxEx_of_some hlive]
      | none =>
        have hne : c.snapshotId ≠ id := by
          rintro rfl
          rw [hentry] at hlive
          cases hlive
        rwa [Keyspace.setNxEx_of_none hlive, Keyspace.setEx_ne _ _ _ _ hne]

/-- A prompt action keeps every cursor within the life of its snapshot. -/
theorem World.Lasting.step (hd : w.Dated) (hl : w.Lasting) (hp : Prompt w a)
    (h : p.step w a = some w') :
    w'.Lasting := by
  cases Platform.step_cases h with
  | advance ms =>
    intro c hc
    rcases hl c hc with hold | hkept
    · exact .inl (hold.trans (Nat.le_add_right _ _))
    · exact .inr hkept
  | wrote hr => exact hl.store _ _
  | lost hr => exact hl.store _ _
  | minted hr =>
    intro c hc
    rcases List.mem_append.mp hc with hc | hc
    · exact hl c hc
    · obtain rfl := List.mem_singleton.mp hc
      obtain ⟨e, he, hvalue, hlast⟩ := (hd.fresh_iff _ _).mp (hp _ _ hr)
      exact .inr ⟨e, (Keyspace.entry_eq_some.mp he).1, hvalue, hlast⟩
  | _ => exact hl

/-- A cursor minted now is good for its whole life exactly when its snapshot stays so long. -/
theorem resolves_iff_keeps (hi : w.Consistent p) {r : ℕ} {id : String}
    {snapshot : FeedCursorSnapshot} (hr : w.request r = .served id snapshot) :
    (∀ ms, (mintCursor w.clock id snapshot).unexpired (w.clock + ms) = true →
      p.requireFeedCursorSnapshot w.snapshots (w.clock + ms) id snapshot.variant = some snapshot) ↔
      w.Keeps id snapshot (mintCursor w.clock id snapshot).expiresAt := by
  have hk := hi.requests r
  rw [hr] at hk
  have hlife : w.clock < (w.clock / 1000 + FEED_CURSOR_TTL_SECONDS) * 1000 := by
    unfold FEED_CURSOR_TTL_SECONDS
    omega
  constructor
  · intro hall
    have hfound : ∀ ms, w.clock + ms < (w.clock / 1000 + FEED_CURSOR_TTL_SECONDS) * 1000 →
        ∃ e, w.snapshots.entry (w.clock + ms) id = some e ∧ e.value = snapshot := by
      intro ms hms
      have hrequire := hall ms ((unexpired_iff _ _).mpr hms)
      have hget := (Option.filter_eq_some_iff.mp hrequire).1
      unfold Platform.getFeedCursorSnapshot at hget
      split at hget
      next => exact Option.map_eq_some_iff.mp (Option.filter_eq_some_iff.mp hget).1
      next => cases hget
    -- The last moment of the cursor shows how long the snapshot stays.
    obtain ⟨e, he, hvalue⟩ := hfound
      ((w.clock / 1000 + FEED_CURSOR_TTL_SECONDS) * 1000 - 1 - w.clock) (by omega)
    refine ⟨e, Keyspace.entry_mono (Nat.le_add_right _ _) he, hvalue, ?_⟩
    have hlast := (Keyspace.entry_eq_some.mp he).2
    rwa [Nat.add_sub_cancel' (by omega)] at hlast
  · rintro ⟨e, he, hvalue, hlast⟩ ms hms
    exact World.Keeps.require ⟨e, (Keyspace.entry_eq_some.mp he).1, hvalue, hlast⟩ hk
      ((unexpired_iff _ _).mp hms)

/-- A cursor minted now is good for its whole life exactly when its snapshot has just been
written. -/
theorem resolves_iff_fresh (hi : w.Consistent p) (hd : w.Dated) {r : ℕ} {id : String}
    {snapshot : FeedCursorSnapshot} (hr : w.request r = .served id snapshot) :
    (∀ ms, (mintCursor w.clock id snapshot).unexpired (w.clock + ms) = true →
      p.requireFeedCursorSnapshot w.snapshots (w.clock + ms) id snapshot.variant = some snapshot) ↔
      w.Fresh id snapshot :=
  (resolves_iff_keeps hi hr).trans (hd.fresh_iff id snapshot).symm

/-- In a run that mints cursors only from snapshots that have just been written, every
unexpired cursor leads to the snapshot that it was minted from. -/
theorem cursorLifetime {actions : List Action}
    (h : Run (Restrict (Graph p.step) Prompt) World.init actions w) :
    ∀ c ∈ w.cursors, c.unexpired w.clock = true →
      p.requireFeedCursorSnapshot w.snapshots w.clock c.snapshotId c.expected =
        some c.snapshot := by
  have hi := World.consistent_run h.of_restrict
  have hl : w.Lasting := (h.invariant (I := fun w => w.Dated ∧ w.Lasting)
    (fun _ _ _ hw hs => ⟨hw.1.step hs.2, hw.2.step hw.1 hs.1 hs.2⟩)
    ⟨⟨fun _ _ he => (by cases he), fun _ _ _ hmem => (by cases hmem)⟩,
      fun _ hc => (by cases hc)⟩).2
  intro c hc hu
  obtain ⟨hk, hexpected⟩ := hi.cursors c hc
  have hlt := (unexpired_iff c w.clock).mp hu
  rw [hexpected]
  rcases hl c hc with hold | hkept
  · omega
  · exact World.Keeps.require hkept hk hlt

/-- The check of a cursor whose snapshot has just been written. -/
def prompt (w : World) : Action → Bool
  | .mint r =>
    match w.request r with
    | .served id snapshot => w.writes.any fun written => written.1 = id ∧
        written.2.1 = snapshot ∧ w.clock / 1000 * 1000 ≤ written.2.2 + 1
    | _ => true
  | _ => true

private theorem prompt_sound (w : World) (a : Action) (h : prompt w a = true) : Prompt w a := by
  cases a with
  | mint r =>
    intro id snapshot hr
    simp only [prompt, hr] at h
    obtain ⟨⟨_, _, writtenAt⟩, hmem, hwritten⟩ := List.any_eq_true.mp h
    obtain ⟨rfl, rfl, hsecond⟩ := of_decide_eq_true hwritten
    exact ⟨writtenAt, hmem, hsecond⟩
  | _ => trivial

/-- A first page creates the snapshot. -/
def firstPage (r : ℕ) : List Action :=
  [.start r 0 "trending", .lookUp r true, .resolve r, .build r (some (trendingSnapshot ["a"])),
    .write r .answered, .readBack r true, .finish r]

/-- A cursor minted in the second of the write leads to its snapshot until it expires. -/
theorem cursorLifetime_firstPage : ∃ w c,
    Run (Restrict (Graph smallPlatform.step) Prompt) World.init
      (firstPage 0 ++ [.mint 0, .advance 3599999]) w ∧
    c ∈ w.cursors ∧ c.unexpired w.clock = true ∧
    smallPlatform.requireFeedCursorSnapshot w.snapshots w.clock c.snapshotId c.expected =
      some c.snapshot := by
  let c := mintCursor 0 (smallPlatform.snapshotId 0 "trending") (trendingSnapshot ["a"])
  have hrun : (exec (fun s a => if prompt s a then smallPlatform.step s a else none) World.init
      (firstPage 0 ++ [.mint 0, .advance 3599999])).map (fun w => (w.cursors, w.clock)) =
      some ([c], 3599999) := by
    decide +kernel
  obtain ⟨w, hexec, hboth⟩ := Option.map_eq_some_iff.mp hrun
  obtain ⟨hcursors, hclock⟩ := Prod.mk.inj hboth
  have hw := exec_restrict prompt_sound hexec
  have hc : c ∈ w.cursors := by
    rw [hcursors]
    exact List.mem_singleton.mpr rfl
  have hu : c.unexpired w.clock = true := by
    rw [hclock]
    decide
  exact ⟨w, c, hw, hc, hu, cursorLifetime hw c hc hu⟩

/-- A page that takes the snapshot five seconds later has a cursor that outlives it. -/
theorem cursorLifetime_reused :
    ¬ ∀ (p : Platform) (actions : List Action) (w : World),
      Run (Graph p.step) World.init actions w → ∀ c ∈ w.cursors, c.unexpired w.clock = true →
        p.requireFeedCursorSnapshot w.snapshots w.clock c.snapshotId c.expected =
          some c.snapshot := by
  intro hclaim
  let c := mintCursor 5000 (smallPlatform.snapshotId 0 "trending") (trendingSnapshot ["a"])
  have hrun : (exec smallPlatform.step World.init (firstPage 0 ++
      [.advance 5000, .start 1 1 "trending", .lookUp 1 true, .mint 1, .advance 3597000])).map
        (fun w => (w.cursors, w.clock, smallPlatform.requireFeedCursorSnapshot w.snapshots w.clock
          c.snapshotId c.expected)) = some ([c], 3602000, none) := by
    decide +kernel
  obtain ⟨w, hexec, hall⟩ := Option.map_eq_some_iff.mp hrun
  obtain ⟨hcursors, hrest⟩ := Prod.mk.inj hall
  obtain ⟨hclock, hnone⟩ := Prod.mk.inj hrest
  have hc : c ∈ w.cursors := by
    rw [hcursors]
    exact List.mem_singleton.mpr rfl
  have hu : c.unexpired w.clock = true := by
    rw [hclock]
    decide
  have hfound := hclaim smallPlatform _ w (exec_run hexec) c hc hu
  rw [hnone] at hfound
  cases hfound

end Lifetimes

end Ascendance.Feed
