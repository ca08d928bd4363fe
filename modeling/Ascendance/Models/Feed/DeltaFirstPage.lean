import Ascendance.Models.Feed.DeltaAgreement

/-!
# Refreshing a list without rows

A client without a head cursor loads the first page, which may come from the cache. An empty
page makes it ask once more, past the cache; but that request looks for a head in the cached
first page and reads backwards from it. The refresh of any list is the sum of the two cases.
-/

namespace Ascendance.Feed

open Ascendance.Core

section FirstPage

variable {store : Posts} {server : FeedServer} {news : ℕ → List Post} {start limit : ℕ}
  {pages : List FeedPage}

/-- A list that agrees with a reload begins with the first row of the feed. -/
theorem Agrees.head (h : Agrees store pages) : ∃ first,
    (pages.flatMap (·.data)).head? = some first ∧
      (newFeed store.all []).head? = some first := by
  obtain ⟨first, rest, before, after, hdata, hfeed, -⟩ := h.continues
  have hdesc := descending_newFeed store.nodup_ids []
  have hrows : Keyset.Descending Post.key (before ++ (first :: rest)) := by
    rw [hfeed] at hdesc
    exact (List.pairwise_append.mp hdesc).1
  have hlast : (first :: rest).getLast? =
      some ((first :: rest).getLast (List.cons_ne_nil _ _)) :=
    List.getLast?_eq_some_getLast _
  have hreload : reload store (first :: rest) = (newFeed store.all []).filter fun p =>
      ((first :: rest).getLast (List.cons_ne_nil _ _)).key ≤ p.key := by
    unfold reload
    rw [hlast]
  have hlength := congrArg List.length h.shows
  rw [List.length_map, List.length_map, hdata, hreload, hfeed, List.filter_append] at hlength
  -- Everything down to the last row belongs to the reload.
  have hall : (before ++ (first :: rest)).filter (fun p =>
      ((first :: rest).getLast (List.cons_ne_nil _ _)).key ≤ p.key) =
      before ++ (first :: rest) := by
    refine List.filter_eq_self.mpr fun p hp => decide_eq_true (hrows.last_le ?_ hp)
    rw [List.getLast?_append, hlast]
    rfl
  rw [hall, List.length_append, List.length_append] at hlength
  obtain rfl : before = [] := List.length_eq_zero_iff.mp (by omega)
  refine ⟨first, by rw [hdata]; rfl, by rw [hfeed]; rfl⟩

/-- A list agrees with a reload, or there is nothing to show and it has no rows. -/
def Current (store : Posts) (pages : List FeedPage) : Prop :=
  Agrees store pages ∨ (newFeed store.all [] = [] ∧ pages.flatMap (·.data) = [] ∧
    pages.head?.bind (·.prevCursor) = none)

end FirstPage

end Ascendance.Feed
