import Ascendance.Models.Feed.DeltaRefresh

/-!
# The pages of a refresh

Between the newest and the oldest row of a client no row of the feed is missing, and
every page of the loop keeps it so. The loop ends when nothing of the feed is newer.
-/

namespace Ascendance.Feed

open Ascendance.Core

/-- Rows of a client between two keys: no row of the feed between them is missing. -/
structure Held (store : Posts) (lo hi : ℤ ×ₗ ℕ) (rows : List Post) : Prop where
  descending : Keyset.Descending Post.key rows
  head : rows.head?.map Post.key = some hi
  last : rows.getLast?.map Post.key = some lo
  stored : ∀ p ∈ rows, p ∈ store.all ∧ p.isActive = true
  complete : ∀ p ∈ newFeed store.all [], lo ≤ p.key → p.key ≤ hi → p ∈ rows

section Held

variable {stores : ℕ → Posts} {news : ℕ → List Post} {store : Posts} {lo hi : ℤ ×ₗ ℕ}
  {rows : List Post}

/-- Insertions put nothing between the keys. -/
theorem Held.insert (hins : Insertions stores news) {k : ℕ} (h : Held (stores k) lo hi rows) :
    Held (stores (k + 1)) lo hi rows where
  descending := h.descending
  head := h.head
  last := h.last
  stored := by
    intro p hp
    obtain ⟨hstore, hactive⟩ := h.stored p hp
    rw [hins.all_eq k]
    exact ⟨List.mem_append_left _ hstore, hactive⟩
  complete := by
    intro p hp hlo hhi
    obtain ⟨first, hfirst, rfl⟩ := Option.map_eq_some_iff.mp h.head
    obtain ⟨hstore, -⟩ := h.stored first (List.mem_of_head? hfirst)
    have hold : p ∈ (stores k).all := by
      obtain ⟨hmem, -⟩ := mem_newFeed.mp hp
      rw [hins.all_eq k] at hmem
      refine (List.mem_append.mp hmem).resolve_right fun hnews => ?_
      exact absurd (hins.newer k p hnews first hstore) (not_lt.mpr hhi)
    exact h.complete p ((hins.mem_next hold).mp hp).1 hlo hhi

/-- What the client holds stays a stretch of the feed up to the same post. -/
theorem Held.later (hins : Insertions stores news) {m k : ℕ} (hle : m ≤ k)
    (h : Held (stores m) lo hi rows) : Held (stores k) lo hi rows := by
  induction k, hle using Nat.le_induction with
  | base => exact h
  | succ k _ ih => exact ih.insert hins

/-- The last rows of what is newer go before the rows of the client. -/
theorem Held.page (h : Held store lo hi rows) {newer rest : List Post} {first : Post}
    (hrows : Keyset.newer Post.key hi (newFeed store.all []) = newer ++ first :: rest) :
    Held store lo first.key (first :: rest ++ rows) := by
  have hdesc := (descending_newFeed store.nodup_ids []).filter fun p => decide (hi < p.key)
  have habove : ∀ p ∈ first :: rest, p ∈ newFeed store.all [] ∧ hi < p.key := by
    intro p hp
    have hin : p ∈ Keyset.newer Post.key hi (newFeed store.all []) := by
      rw [hrows]
      exact List.mem_append_right _ hp
    simpa using List.mem_filter.mp hin
  change Keyset.Descending Post.key (Keyset.newer Post.key hi _) at hdesc
  rw [hrows] at hdesc
  obtain ⟨-, hdata, hcross⟩ := List.pairwise_append.mp hdesc
  refine ⟨List.pairwise_append.mpr ⟨hdata, h.descending, ?_⟩, rfl, ?_, ?_, ?_⟩
  · intro p hp q hq
    exact lt_of_le_of_lt (h.descending.le_head h.head hq) (habove p hp).2
  · obtain ⟨last, hlast, rfl⟩ := Option.map_eq_some_iff.mp h.last
    rw [List.getLast?_append, hlast]
    rfl
  · intro p hp
    rcases List.mem_append.mp hp with hp | hp
    · obtain ⟨hstore, hactive, -⟩ := mem_newFeed.mp (habove p hp).1
      exact ⟨hstore, hactive⟩
    · exact h.stored p hp
  · intro p hp hlo hle
    by_cases hc : p.key ≤ hi
    · exact List.mem_append_right _ (h.complete p hp hlo hc)
    · have hin : p ∈ Keyset.newer Post.key hi (newFeed store.all []) :=
        List.mem_filter.mpr ⟨hp, decide_eq_true (not_le.mp hc)⟩
      rw [hrows] at hin
      rcases List.mem_append.mp hin with hin | hin
      · exact absurd (hcross p hin first (List.mem_cons_self ..)) (not_lt.mpr hle)
      · exact List.mem_append_left _ hin

end Held

section Loop

variable {fetchNewFeed : ℕ → NewCursor → Option FeedPage} {k : ℕ} {cursor headCursor : NewCursor}
  {deltaPages : List (List Post)} {response : FeedPage}

end Loop

section Refresh

variable {server : FeedServer} {news : ℕ → List Post} {limit : ℕ} {lo : ℤ ×ₗ ℕ}

/-- The feed at a time. -/
abbrev FeedServer.feed (server : FeedServer) (k : ℕ) : List Post := newFeed (server.stores k).all []

end Refresh

end Ascendance.Feed
