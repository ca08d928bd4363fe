import Ascendance.Models.Feed.DeltaLoop

/-!
# The pages that a client has loaded

Every page begins where the one before it ended, and it comes from the cache or from the
collection. A cached page was read after the post at its cursor was stored. What was inserted
since is newer and belongs above its rows, so the pages leave no row of the feed out, whatever
their ages.
-/

namespace Ascendance.Feed

open Ascendance.Core

/-- Pages that are loaded one after the other from a cursor, the first one at `k` and the last one
at `start` at the latest. -/
inductive Loads (server : FeedServer) (limit start : ℕ) :
    ℕ → Option NewCursor → List CachedNewFeed → Prop
  | last {k : ℕ} {cursor : Option NewCursor} {entry : CachedNewFeed} (hk : k ≤ start)
      (h : server.load k limit cursor = some entry) : Loads server limit start k cursor [entry]
  | more {k k' : ℕ} {cursor : Option NewCursor} {entry : CachedNewFeed} {next : NewCursor}
      {loads : List CachedNewFeed} (h : server.load k limit cursor = some entry)
      (hnext : entry.page.nextCursor = some next) (hk : k ≤ k')
      (hloads : Loads server limit start k' (some next) loads) :
      Loads server limit start k cursor (entry :: loads)

/-- The rows of some pages. -/
abbrev shownRows (loads : List CachedNewFeed) : List Post := loads.flatMap (·.page.data)

section Loading

variable {server : FeedServer} {news : ℕ → List Post} {limit start k : ℕ} {c : Option (ℤ ×ₗ ℕ)}
  {entry : CachedNewFeed} {loads : List CachedNewFeed}

/-- A post is stored at the key of a cursor. -/
def Anchored (server : FeedServer) (k : ℕ) (c : Option (ℤ ×ₗ ℕ)) : Prop :=
  ∀ key ∈ c, ∃ q ∈ (server.stores k).all, q.key = key

/-- A loaded page is the forward page of its time, and its cursor was anchored then. -/
theorem FeedServer.load_spec (h : server.load k limit (walkCursor none c) = some entry)
    (ha : Anchored server k c) : entry.readAt ≤ k ∧ Anchored server entry.readAt c ∧
      entry.page = (Keyset.forwardPage Post.key limit
        (Keyset.window Post.key c (server.feed entry.readAt))).mapCursor (toCursor none) := by
  have hpage : ∀ m page, getNewFeedWithCursor (server.stores m).all server.exclusions limit
      (walkCursor none c) .forward = some page → page = (Keyset.forwardPage Post.key limit
        (Keyset.window Post.key c (server.feed m))).mapCursor (toCursor none) := by
    intro m page hread
    have heq := @readNewFeed_eq server.stores server.exclusions [] limit none rfl rfl m c
    exact (Option.some.inj (heq.symm.trans hread)).symm
  rcases Option.or_eq_some_iff.mp h with hcached | ⟨-, hfresh⟩
  · obtain ⟨hle, hread⟩ := server.cached_read hcached
    refine ⟨hle, ?_, hpage _ _ hread⟩
    rintro key rfl
    exact server.cached_anchor hcached
  · obtain ⟨page, hread, rfl⟩ := Option.map_eq_some_iff.mp hfresh
    exact ⟨le_rfl, ha, hpage _ _ hread⟩

/-- The next cursor of a loaded page stands at its last row. -/
theorem nextCursor_eq (hlimit : 1 ≤ limit) {rows : List Post} {next : NewCursor}
    (hnext : ((Keyset.forwardPage Post.key limit rows).mapCursor (toCursor none)).nextCursor =
      some next) : ∃ init last, (Keyset.forwardPage Post.key limit rows).data = init ++ [last] ∧
        next = toCursor none last.key := by
  obtain ⟨key, hkey, rfl⟩ := Option.map_eq_some_iff.mp hnext
  rcases Keyset.forwardPage_next Post.key rows hlimit with
    ⟨-, hnone, -⟩ | ⟨-, init, last, -, hdata, hlast⟩
  · rw [hnone] at hkey
    cases hkey
  · obtain rfl := Option.some.inj (hlast.symm.trans hkey)
    exact ⟨init, last, hdata, rfl⟩

/-- Pages are loaded after the first one. -/
private theorem Loads.le_start {cursor : Option NewCursor}
    (h : Loads server limit start k cursor loads) :
    k ≤ start := by
  induction h with
  | last hk => exact hk
  | more _ _ hk _ ih => exact hk.trans ih

/-- A row of a window that is not older than the last row of its page stands on the page. -/
theorem mem_forwardPage (hlimit : 1 ≤ limit) {rows : List Post}
    (hdesc : Keyset.Descending Post.key rows) {p : Post} (hp : p ∈ rows)
    (hlast : ∀ last ∈ (Keyset.forwardPage Post.key limit rows).data.getLast?, last.key ≤ p.key) :
    p ∈ (Keyset.forwardPage Post.key limit rows).data := by
  change ∀ last ∈ (rows.take limit).getLast?, last.key ≤ p.key at hlast
  change p ∈ rows.take limit
  rw [← List.take_append_drop limit rows] at hp hdesc
  refine (List.mem_append.mp hp).resolve_right fun hdrop => ?_
  obtain ⟨last, hmem⟩ : ∃ last, last ∈ (rows.take limit).getLast? := by
    refine Option.isSome_iff_exists.mp (List.getLast?_isSome.mpr ?_)
    rw [Ne, List.take_eq_nil_iff, not_or]
    refine ⟨by omega, ?_⟩
    rintro rfl
    simp at hdrop
  have hlt := (List.pairwise_append.mp hdesc).2.2 last (List.mem_of_getLast? hmem) p hdrop
  exact absurd (hlast last hmem) (not_le.mpr hlt)

/-- What the rows of some pages are that were loaded from a cursor. -/
structure Shown (server : FeedServer) (start : ℕ) (c : Option (ℤ ×ₗ ℕ))
    (loads : List CachedNewFeed) : Prop where
  below : ∀ p ∈ shownRows loads, ∀ key ∈ c, p.key < key
  descending : Keyset.Descending Post.key (shownRows loads)
  read : ∀ entry ∈ loads, entry.readAt ≤ start ∧
    ∀ p ∈ entry.page.data, p ∈ server.feed entry.readAt
  anchored : ∀ entry ∈ loads.head?, Anchored server entry.readAt c
  /-- A row of the feed that is not newer than a post of the first page's time is among them. -/
  complete : ∀ entry ∈ loads.head?, ∀ q ∈ (server.stores entry.readAt).all,
    ∀ p ∈ server.feed start, p.key ≤ q.key → (∀ key ∈ c, p.key < key) →
      (∀ last ∈ (shownRows loads).getLast?, last.key ≤ p.key) → p ∈ shownRows loads

/-- One page. -/
theorem shown_page (hins : Insertions server.stores news) (hlimit : 1 ≤ limit) (hk : k ≤ start)
    (h : server.load k limit (walkCursor none c) = some entry) (ha : Anchored server k c) :
    Shown server start c [entry] := by
  obtain ⟨hle, hanchored, hpage⟩ := server.load_spec h ha
  have hdesc := descending_newFeed (server.stores entry.readAt).nodup_ids []
  have hdata : entry.page.data = (Keyset.forwardPage Post.key limit
      (Keyset.window Post.key c (server.feed entry.readAt))).data := by rw [hpage]; rfl
  have hsub : entry.page.data.Sublist (Keyset.window Post.key c (server.feed entry.readAt)) := by
    rw [hdata]
    exact List.take_sublist limit _
  have hwindow : ∀ p, p ∈ Keyset.window Post.key c (server.feed entry.readAt) ↔
      p ∈ server.feed entry.readAt ∧ ∀ key ∈ c, p.key < key := by
    intro p
    cases c with
    | none => simp [Keyset.window]
    | some key => simp [Keyset.window, Keyset.older]
  have hone : ∀ e ∈ [entry].head?, e = entry := fun e he => (Option.some.inj he).symm
  have hrows : shownRows [entry] = entry.page.data := List.flatMap_singleton ..
  refine ⟨?_, ?_, ?_, ?_, ?_⟩
  · intro p hp
    rw [hrows] at hp
    exact ((hwindow p).mp (hsub.subset hp)).2
  · rw [hrows]
    exact (hdesc.window c).sublist hsub
  · intro e he
    obtain rfl := List.mem_singleton.mp he
    exact ⟨hle.trans hk, fun p hp => ((hwindow p).mp (hsub.subset hp)).1⟩
  · intro e he
    exact hone e he ▸ hanchored
  · intro e he q hq p hp hkey hbelow hlast
    obtain rfl := hone e he
    rw [hrows, hdata] at hlast ⊢
    -- What is not newer than a stored post was there when the page was read.
    have hstored := hins.mem_earlier (hle.trans hk) (mem_newFeed.mp hp).1 hq hkey
    have hfeed := ((hins.mem_feed (hle.trans hk) hstored).mp hp).1
    exact mem_forwardPage hlimit (hdesc.window c) ((hwindow p).mpr ⟨hfeed, hbelow⟩) hlast

/-- A page before others that begin at its last row. -/
theorem Shown.cons (hpage : Shown server start c [entry]) {init : List Post} {last : Post}
    (hdata : entry.page.data = init ++ [last])
    (hloads : Shown server start (some last.key) loads) (hne : loads ≠ []) :
    Shown server start c (entry :: loads) := by
  have hrows : shownRows (entry :: loads) = entry.page.data ++ shownRows loads :=
    List.flatMap_cons ..
  have hsingle : shownRows [entry] = entry.page.data := List.flatMap_singleton ..
  have hpdesc := hpage.descending
  have hpbelow := hpage.below
  rw [hsingle] at hpdesc hpbelow
  have hlastmem : last ∈ entry.page.data := by simp [hdata]
  refine ⟨?_, ?_, ?_, ?_, ?_⟩
  · intro p hp key hkey
    rw [hrows] at hp
    rcases List.mem_append.mp hp with hp | hp
    · exact hpbelow p hp key hkey
    · exact (hloads.below p hp _ rfl).trans (hpbelow last hlastmem key hkey)
  · rw [hrows]
    refine List.pairwise_append.mpr ⟨hpdesc, hloads.descending, fun p hp q hq => ?_⟩
    have hlast : last.key ≤ p.key := hpdesc.last_le (by rw [hdata]; simp) hp
    exact (hloads.below q hq _ rfl).trans_le hlast
  · intro e he
    rcases List.mem_cons.mp he with rfl | he
    · exact hpage.read e (List.mem_cons_self ..)
    · exact hloads.read e he
  · exact hpage.anchored
  · intro e he q hq p hp hkey hbelow hlast
    rw [hrows] at hlast ⊢
    by_cases hlt : p.key < last.key
    · -- The row belongs to the later pages; their cursor stands at the last row of this one.
      obtain ⟨first, later, rfl⟩ := List.exists_cons_of_ne_nil hne
      obtain ⟨anchor, hanchor, hkey'⟩ := hloads.anchored first rfl last.key rfl
      refine List.mem_append_right _ (hloads.complete first rfl anchor hanchor p hp
        (hlt.le.trans hkey'.ge) (fun key hkey => Option.some.inj hkey ▸ hlt) fun l hl => ?_)
      exact hlast l (List.mem_getLast?_append_of_mem_getLast? hl)
    · refine List.mem_append_left _ ?_
      have hmem := hpage.complete e he q hq p hp hkey hbelow
      rw [hsingle] at hmem
      refine hmem fun l hl => ?_
      obtain rfl : last = l := by simpa [hdata] using hl
      exact not_lt.mp hlt

/-- Pages that are loaded one after the other leave nothing out. -/
theorem Loads.shown (hins : Insertions server.stores news) (hlimit : 1 ≤ limit)
    {cursor : Option NewCursor} (h : Loads server limit start k cursor loads)
    (hc : cursor = walkCursor none c) (ha : Anchored server k c) :
    loads ≠ [] ∧ Shown server start c loads := by
  induction h generalizing c with
  | last hk h =>
    subst hc
    exact ⟨List.cons_ne_nil _ _, shown_page hins hlimit hk h ha⟩
  | @more k k' cursor entry next loads h hnext hk hloads ih =>
    subst hc
    refine ⟨List.cons_ne_nil _ _, ?_⟩
    have hpage := shown_page hins hlimit (hk.trans hloads.le_start) h ha
    obtain ⟨hle, -, heq⟩ := server.load_spec h ha
    rw [heq] at hnext
    obtain ⟨init, last, hdata, rfl⟩ := nextCursor_eq hlimit hnext
    replace hdata : entry.page.data = init ++ [last] := by rw [heq]; exact hdata
    have hread := (hpage.read entry (List.mem_cons_self ..)).2 last (by simp [hdata])
    obtain ⟨hne, hshown⟩ := @ih (some last.key) rfl fun key hkey =>
      ⟨last, hins.mem_later (hle.trans hk) (mem_newFeed.mp hread).1, Option.some.inj hkey⟩
    exact hpage.cons hdata hshown hne

/-- The pages that are left when the first ones are dropped were loaded from a cursor, too. -/
theorem Loads.drop (hins : Insertions server.stores news) (hlimit : 1 ≤ limit)
    {dropped : List CachedNewFeed} (hne : loads ≠ [])
    (h : Loads server limit start k (walkCursor none c) (dropped ++ loads))
    (ha : Anchored server k c) :
    ∃ k' c', Loads server limit start k' (walkCursor none c') loads ∧ Anchored server k' c' := by
  induction dropped generalizing k c with
  | nil => exact ⟨k, c, h, ha⟩
  | cons entry dropped ih =>
    rw [List.cons_append] at h
    generalize hrest : dropped ++ loads = rest at h
    cases h with
    | last _ _ => exact absurd (List.append_eq_nil_iff.mp hrest).2 hne
    | @more _ k' _ _ next _ h hnext hk hloads =>
      subst hrest
      have hpage := shown_page hins hlimit (hk.trans hloads.le_start) h ha
      obtain ⟨hle, -, heq⟩ := server.load_spec h ha
      rw [heq] at hnext
      obtain ⟨init, last, hdata, rfl⟩ := nextCursor_eq hlimit hnext
      replace hdata : entry.page.data = init ++ [last] := by rw [heq]; exact hdata
      have hread := (hpage.read entry (List.mem_cons_self ..)).2 last (by simp [hdata])
      exact @ih k' (some last.key) hloads fun key hkey =>
        ⟨last, hins.mem_later (hle.trans hk) (mem_newFeed.mp hread).1, Option.some.inj hkey⟩

end Loading

end Ascendance.Feed
