import Ascendance.Models.Feed.TrendingPages
import Mathlib.Data.List.ReduceOption

/-!
# Walks over the trending feed

A walk shows the posts of its snapshot, and after them the new feed without the
identities that the last page of the snapshot excludes.
-/

namespace Ascendance.Feed

open Ascendance.Core

/-- The order of the exclusions does not matter. -/
theorem newFeed_congr {store : List Post} {seen seen' : List ℕ} (h : ∀ id, id ∈ seen ↔ id ∈ seen') :
    newFeed store seen = newFeed store seen' := by
  unfold newFeed
  simp only [h]

namespace TrendingServer

variable {server : TrendingServer} {limit : ℕ}

/-- All walks from a cursor show some posts, and there is one. -/
def Shows (server : TrendingServer) (limit k : ℕ) (cursor : Option TrendingCursor)
    (posts : List Post) : Prop :=
  (∃ pages, Keyset.Walk (server.read limit) k cursor pages) ∧
    ∀ pages, Keyset.Walk (server.read limit) k cursor pages → pages.flatMap (·.data) = posts

/-- A page without a next cursor is all that a walk shows. -/
theorem shows_last {k : ℕ} {cursor : Option TrendingCursor} {page : TrendingPage}
    (hread : server.getTrendingFeed limit cursor = some page) (hnext : page.nextCursor = none) :
    server.Shows limit k cursor page.data := by
  refine ⟨⟨_, .last hread hnext⟩, fun pages hpages => ?_⟩
  rw [hpages.eq_single hread hnext, List.flatMap_singleton]

/-- A walk shows a page and then what it shows from the next cursor on. -/
theorem shows_more {k : ℕ} {cursor : Option TrendingCursor} {page : TrendingPage}
    {next : TrendingCursor} {posts : List Post}
    (hread : server.getTrendingFeed limit cursor = some page)
    (hnext : page.nextCursor = some next) (h : server.Shows limit (k + 1) (some next) posts) :
    server.Shows limit k cursor (page.data ++ posts) := by
  obtain ⟨⟨pages, hpages⟩, hall⟩ := h
  refine ⟨⟨_, .more hread hnext hpages⟩, fun pages hpages => ?_⟩
  obtain ⟨rest, rfl, hrest⟩ := hpages.tail hread hnext
  rw [List.flatMap_cons, hall rest hrest]

/-- A page of the new phase. -/
def newPhasePage (snapshotId : Option String) (p : CursorPage Post (ℤ ×ₗ ℕ)) : TrendingPage where
  data := p.data
  hasMore := p.hasMore
  nextCursor := p.nextCursor.map fun k => .new (toCursor snapshotId k)
  prevCursor := none

/-- In the new phase a walk shows what the cursor leaves of the new feed. -/
theorem shows_newPhase (hlimit : 1 ≤ limit) {cursor : NewCursor} {excluded : List ℕ}
    (h : Excludes server.exclusions (some cursor) excluded) (k : ℕ) :
    server.Shows limit k (some (.new cursor))
      (Keyset.window Post.key (anchorKey (some cursor)) (newFeed server.store.all excluded)) := by
  have hdesc := descending_newFeed server.store.nodup_ids excluded
  let write : Option (ℤ ×ₗ ℕ) → Option TrendingCursor := fun c =>
    some (.new ⟨c.map ofLex, cursor.snapshotId⟩)
  have hread : ∀ k c, server.read limit k (write c) =
      (Keyset.readForward Post.key limit (fun _ => newFeed server.store.all excluded) k c).map
        (newPhasePage cursor.snapshotId) := by
    intro k c
    have hexcluded : Excludes server.exclusions (some ⟨c.map ofLex, cursor.snapshotId⟩) excluded :=
      h
    have hanchor : anchorKey (some ⟨c.map ofLex, cursor.snapshotId⟩) = c := by
      cases c <;> rfl
    change (getNewFeedWithCursor _ _ _ (some ⟨c.map ofLex, cursor.snapshotId⟩) _).map _ = _
    rw [getNewFeed_eq _ hexcluded, newFeedPage_forward server.store.nodup_ids, hanchor]
    let page := Keyset.forwardPage Post.key limit
      (Keyset.window Post.key c (newFeed server.store.all excluded))
    have hnext : (page.nextCursor.map (toCursor cursor.snapshotId)).map TrendingCursor.new =
        page.nextCursor.map fun k => .new (toCursor cursor.snapshotId k) := Option.map_map ..
    exact congrArg (fun next => some (CursorPage.mk page.data page.hasMore next none)) hnext
  have hstart : write (anchorKey (some cursor)) = some (.new cursor) := by
    obtain ⟨anchor, snapshotId⟩ := cursor
    cases anchor <;> rfl
  have hkeep : Keyset.Keeps Post.key (fun _ => newFeed server.store.all excluded) fun _ _ => true :=
    Keyset.keeps_fixed _
  constructor
  · obtain ⟨pages, hpages⟩ :=
      Keyset.walk_exists hkeep (fun _ => hdesc) hlimit k (anchorKey (some cursor))
    have hwalk := hpages.map write (fun _ => rfl) (fun _ => rfl) hread
    rw [hstart] at hwalk
    exact ⟨_, hwalk⟩
  · intro pages hpages
    rw [← hstart] at hpages
    obtain ⟨pages, hwalk, rfl⟩ :=
      Keyset.Walk.of_map write (fun _ => rfl) (fun _ => rfl) hread _ hpages
    rw [List.flatMap_map]
    exact Keyset.walk_eq hdesc hlimit hwalk

/-- The cursor at which the new phase starts excludes what was seen. -/
theorem newStartCursor_excludes (seen : List ℕ) : ∃ stored,
    Excludes server.exclusions (server.newStartCursor seen) stored ∧
      (∀ id, id ∈ stored ↔ id ∈ seen) ∧ anchorKey (server.newStartCursor seen) = none := by
  unfold newStartCursor
  cases seen with
  | nil => exact ⟨[], rfl, fun _ => Iff.rfl, rfl⟩
  | cons id seen =>
    obtain ⟨stored, hstored, hmem⟩ := server.exclusions_id (id :: seen)
    exact ⟨stored, hstored, hmem, rfl⟩

/-- From the last page of a snapshot on, a walk shows its posts and then the new feed without
what the page excludes. -/
theorem shows_complete (hlimit : 1 ≤ limit) {snapshot : FeedCursorSnapshot} {current : List Post}
    {consumed : ℕ} {seen : List ℕ}
    (hseen : server.collectVisibleInternalIds snapshot consumed current = seen)
    (hfits : seen.dedup.length ≤ MAX_FEED_CURSOR_SNAPSHOT_ITEMS)
    (hstart : limit ≤ current.length → seen ≠ []) {cursor : Option TrendingCursor} (k : ℕ)
    (hread : server.getTrendingFeed limit cursor =
      server.completeWithNewFeed snapshot current consumed limit) :
    server.Shows limit k cursor (current ++ newFeed server.store.all seen) := by
  obtain ⟨stored, hexcluded, hmem, hanchor⟩ := @newStartCursor_excludes server seen.dedup
  have hfeed : newFeed server.store.all seen = newFeed server.store.all stored :=
    newFeed_congr fun id => by rw [hmem, List.mem_dedup]
  have hdesc := descending_newFeed server.store.nodup_ids stored
  have hpage : ∀ n, getNewFeedWithCursor server.store.all server.exclusions n
      (server.newStartCursor seen.dedup) .forward =
        some ((Keyset.forwardPage Post.key n (newFeed server.store.all stored)).mapCursor
          (toCursor ((server.newStartCursor seen.dedup).bind (·.snapshotId)))) := by
    intro n
    rw [getNewFeed_eq _ hexcluded, newFeedPage_forward server.store.nodup_ids, hanchor]
    rfl
  unfold completeWithNewFeed at hread
  simp only [hseen] at hread
  rw [if_neg (not_lt.mpr hfits), hpage, hpage] at hread
  rw [hfeed]
  by_cases hneeded : 0 < limit - current.length
  · rw [if_pos hneeded, Option.map_some] at hread
    rcases Keyset.forwardPage_next Post.key (newFeed server.store.all stored) hneeded with
      ⟨-, hnext, hdata⟩ | ⟨-, init, last, hrows, hdata, hnext⟩
    · have hlast := @shows_last server limit k cursor _ hread (by
        change ((Keyset.forwardPage Post.key _ _).nextCursor.map _).map _ = none
        rw [hnext]
        rfl)
      change server.Shows limit k cursor
        (current ++ (Keyset.forwardPage Post.key _ _).data) at hlast
      rwa [hdata] at hlast
    · have hrest := @shows_newPhase server limit hlimit _ stored
        (hexcluded.toCursor last.key) (k + 1)
      have hbelow : Keyset.window Post.key (some last.key) (newFeed server.store.all stored) = _ :=
        hdesc.older_last (c := none) hrows
      rw [show anchorKey (some (toCursor _ last.key)) = some last.key from rfl, hbelow] at hrest
      have hmore := @shows_more server limit k cursor _ _ _ hread (by
        change ((Keyset.forwardPage Post.key _ _).nextCursor.map _).map _ = _
        rw [hnext]
        rfl) hrest
      change server.Shows limit k cursor
        (current ++ (Keyset.forwardPage Post.key _ _).data ++ _) at hmore
      rw [hdata, List.append_assoc, List.append_assoc, List.singleton_append, ← hrows] at hmore
      exact hmore
  · rw [if_neg hneeded, Option.bind_some] at hread
    cases hrows : newFeed server.store.all stored with
    | nil =>
      rw [hrows] at hread
      rw [List.append_nil]
      exact shows_last hread rfl
    | cons first rest =>
      have hne : seen.dedup.isEmpty = false := by
        rw [← Bool.not_eq_true, List.isEmpty_iff, List.dedup_eq_nil]
        exact hstart (by omega)
      have hnew : server.newStartCursor seen.dedup =
          some ⟨none, some (server.exclusionId seen.dedup)⟩ := by
        unfold newStartCursor
        rw [hne]
        rfl
      rw [hrows, hnew] at hread
      rw [hnew] at hexcluded
      have hrest := shows_newPhase hlimit hexcluded (k + 1)
      rw [hrows] at hrest
      exact shows_more hread rfl hrest

/-- Where the last page of some entries begins. -/
def lastOffset (n limit : ℕ) : ℕ := limit * ((n - 1) / limit)

/-- The last page begins at the last multiple of the limit. -/
private theorem eq_lastOffset {n j : ℕ} (hn : limit * j < n ∨ n = 0 ∧ j = 0)
    (hlast : n - limit * j ≤ limit) : limit * j = lastOffset n limit := by
  unfold lastOffset
  rcases hn with hlt | ⟨rfl, rfl⟩
  · have hdiv : (n - 1) / limit = j := by
      apply Nat.div_eq_of_lt_le
      · rw [Nat.mul_comm]
        omega
      · rw [Nat.succ_mul, Nat.mul_comm]
        omega
    rw [hdiv]
  · rw [Nat.zero_sub, Nat.zero_div]

section Phase

variable {snapshot : FeedCursorSnapshot} {rows : List (Option Post)} {next : ℕ → TrendingCursor}

/-- What holds at the last page, and before a page when it holds after it, holds at all pages
of a snapshot. -/
theorem snapshot_induction (hlimit : 1 ≤ limit)
    (hpage : ∀ offset < rows.length, server.getTrendingFeed limit (some (next offset)) =
      server.snapshotPage snapshot rows next offset limit)
    {P : ℕ → Option TrendingCursor → ℕ → Prop}
    (hlast : ∀ k cursor, server.getTrendingFeed limit cursor = server.completeWithNewFeed snapshot
      (rows.drop (lastOffset rows.length limit)).reduceOption rows.length limit →
        P k cursor (lastOffset rows.length limit))
    (hmore : ∀ k cursor offset, server.getTrendingFeed limit cursor =
      some (CursorPage.mk ((rows.drop offset).take limit).reduceOption true
        (some (next (offset + limit))) none) →
        P (k + 1) (some (next (offset + limit))) (offset + limit) → P k cursor offset)
    (k j : ℕ) (cursor : Option TrendingCursor)
    (hoffset : limit * j < rows.length ∨ rows.length = 0 ∧ j = 0)
    (hread : server.getTrendingFeed limit cursor =
      server.snapshotPage snapshot rows next (limit * j) limit) : P k cursor (limit * j) := by
  induction hn : rows.length - limit * j using Nat.strongRecOn generalizing k j cursor with
  | _ n ih =>
    unfold snapshotPage at hread
    rw [List.length_drop] at hread
    by_cases hleft : limit < rows.length - limit * j
    · rw [if_pos hleft] at hread
      have hstep : limit * (j + 1) = limit * j + limit := Nat.mul_succ limit j
      have hlt : limit * (j + 1) < rows.length := by omega
      have hless : rows.length - limit * (j + 1) < n := by omega
      apply hmore k cursor _ hread
      rw [← hstep]
      exact ih _ hless (k + 1) (j + 1) _ (.inl hlt) (hpage _ hlt) rfl
    · rw [if_neg hleft] at hread
      rw [eq_lastOffset hoffset (not_lt.mp hleft)] at hread ⊢
      exact hlast k cursor hread

/-- From the first page on, a walk shows all posts of the snapshot and then the new feed
without what the last page excludes. -/
theorem shows_snapshot (hlimit : 1 ≤ limit)
    (hpage : ∀ offset < rows.length, server.getTrendingFeed limit (some (next offset)) =
      server.snapshotPage snapshot rows next offset limit)
    {cursor : Option TrendingCursor}
    (hread : server.getTrendingFeed limit cursor =
      server.snapshotPage snapshot rows next 0 limit) {seen : List ℕ}
    (hseen : server.collectVisibleInternalIds snapshot rows.length
      (rows.drop (lastOffset rows.length limit)).reduceOption = seen)
    (hstart : (rows.drop (lastOffset rows.length limit)).reduceOption ≠ [] → seen ≠ [])
    (hfits : seen.dedup.length ≤ MAX_FEED_CURSOR_SNAPSHOT_ITEMS) :
    server.Shows limit 0 cursor (rows.reduceOption ++ newFeed server.store.all seen) := by
  have hall := snapshot_induction hlimit hpage
    (P := fun k cursor offset => server.Shows limit k cursor
      ((rows.drop offset).reduceOption ++ newFeed server.store.all seen)) ?_ ?_ 0 0 cursor ?_ hread
  · exact hall
  · intro k cursor hread
    refine shows_complete hlimit hseen hfits (fun hle => hstart ?_) k hread
    rw [Ne, ← List.length_eq_zero_iff]
    omega
  · intro k cursor offset hread hrest
    have hshows := shows_more hread rfl hrest
    rw [← List.append_assoc, ← List.reduceOption_append, ← List.drop_drop,
      List.take_append_drop] at hshows
    exact hshows
  · rw [Nat.mul_zero]
    omega

/-- A walk needs room for its exclusions. -/
theorem fits_of_walk (hlimit : 1 ≤ limit)
    (hpage : ∀ offset < rows.length, server.getTrendingFeed limit (some (next offset)) =
      server.snapshotPage snapshot rows next offset limit)
    {cursor : Option TrendingCursor}
    (hread : server.getTrendingFeed limit cursor =
      server.snapshotPage snapshot rows next 0 limit) {seen : List ℕ}
    (hseen : server.collectVisibleInternalIds snapshot rows.length
      (rows.drop (lastOffset rows.length limit)).reduceOption = seen)
    (hwalk : ∃ pages, Keyset.Walk (server.read limit) 0 cursor pages) :
    seen.dedup.length ≤ MAX_FEED_CURSOR_SNAPSHOT_ITEMS := by
  by_contra hfull
  have hall := snapshot_induction hlimit hpage
    (P := fun k cursor _ => ¬ ∃ pages, Keyset.Walk (server.read limit) k cursor pages)
    ?_ ?_ 0 0 cursor ?_ hread
  · exact hall hwalk
  · rintro k cursor hread ⟨pages, hpages⟩
    unfold completeWithNewFeed at hread
    simp only [hseen] at hread
    rw [if_pos (not_le.mp hfull)] at hread
    cases hpages with
    | last hp _ => cases hread.symm.trans hp
    | more hp _ _ => cases hread.symm.trans hp
  · rintro k cursor offset hread hrest ⟨pages, hpages⟩
    obtain ⟨rest, -, hw⟩ := hpages.tail hread rfl
    exact hrest ⟨rest, hw⟩
  · rw [Nat.mul_zero]
    omega

end Phase

end TrendingServer

end Ascendance.Feed
