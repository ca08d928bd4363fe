import Ascendance.Models.Feed.LoadedPages

/-!
# A refreshed list and a reload

All rows of a delta are newer than the rows of the client, so the client keeps all of
them. The list it gets is a stretch of the feed exactly when every row in it still
stands for its group at the last page.
-/

namespace Ascendance.Feed

open Ascendance.Core

section Refresh

variable {server : FeedServer} {news : ℕ → List Post}

/-- The time of the last page of a refresh. -/
def lastRead (start : ℕ) (deltaPages : List (List Post)) : ℕ := start + (deltaPages.length - 1)

/-- From the time on at which a page was read, no inserted post shows what a row of it shows:
a row of the loaded pages, or of the pages of the refresh. -/
structure Apart (news : ℕ → List Post) (start : ℕ) (loads : List CachedNewFeed)
    (deltaPages : List (List Post)) : Prop where
  loaded : ∀ entry ∈ loads, ∀ p ∈ entry.page.data, ∀ t, entry.readAt ≤ t →
    t < lastRead start deltaPages → staysNewest (news t) p = true
  delta : ∀ i page, deltaPages[i]? = some page → ∀ p ∈ page, ∀ t, start + i ≤ t →
    t < lastRead start deltaPages → staysNewest (news t) p = true

end Refresh

/-- What a fresh load shows that reaches as far back as a list. -/
def reload (store : Posts) (shown : List Post) : List Post :=
  match shown.getLast? with
  | none => []
  | some oldest => (newFeed store.all []).filter fun p => oldest.key ≤ p.key

/-- The rows of some pages are a stretch of the feed, and their head cursor stands at the
first one. -/
def InStep (store : Posts) (pages : List FeedPage) : Prop :=
  ∃ first rest before after, pages.flatMap (·.data) = first :: rest ∧
    newFeed store.all [] = before ++ first :: rest ++ after ∧
    pages.head?.bind (·.prevCursor) = some (toCursor none first.key)

/-- Some pages show what a reload shows, every group once, and the next refresh can go on
from their head cursor. -/
structure Agrees (store : Posts) (pages : List FeedPage) : Prop where
  shows : (pages.flatMap (·.data)).map Post.visibleIdentityId =
    (reload store (pages.flatMap (·.data))).map Post.visibleIdentityId
  once : ((pages.flatMap (·.data)).map Post.visibleIdentityId).Nodup
  continues : InStep store pages

section Agreement

variable {store : Posts} {pages : List FeedPage} {lo hi : ℤ ×ₗ ℕ}

/-- A list in step with the server holds a stretch of the feed. -/
theorem InStep.held (h : InStep store pages) : ∃ lo hi, Held store lo hi (pages.flatMap (·.data)) ∧
    pages.head?.bind (·.prevCursor) = some (toCursor none hi) ∧
    ∀ p ∈ pages.flatMap (·.data), p ∈ newFeed store.all [] := by
  obtain ⟨first, rest, before, after, hdata, hfeed, hcursor⟩ := h
  have hdesc := descending_newFeed store.nodup_ids []
  rw [hfeed] at hdesc
  obtain ⟨hfirst, -, hafter⟩ := List.pairwise_append.mp hdesc
  obtain ⟨-, hrows, hbefore⟩ := List.pairwise_append.mp hfirst
  have hmem : ∀ p ∈ first :: rest, p ∈ newFeed store.all [] := by
    intro p hp
    rw [hfeed]
    exact List.mem_append_left _ (List.mem_append_right _ hp)
  refine ⟨((first :: rest).getLast (List.cons_ne_nil _ _)).key, first.key, ?_, hcursor, ?_⟩
  · rw [hdata]
    refine ⟨hrows, rfl, ?_, ?_, ?_⟩
    · rw [List.getLast?_eq_some_getLast (List.cons_ne_nil _ _)]
      rfl
    · intro p hp
      obtain ⟨hstore, hactive, -⟩ := mem_newFeed.mp (hmem p hp)
      exact ⟨hstore, hactive⟩
    · intro p hp hlo hhi
      rw [hfeed] at hp
      rcases List.mem_append.mp hp with hp | hp
      · rcases List.mem_append.mp hp with hp | hp
        · exact absurd (hbefore p hp first (List.mem_cons_self ..)) (not_lt.mpr hhi)
        · exact hp
      · have hlast := List.getLast_mem (List.cons_ne_nil first rest)
        exact absurd (hafter _ (List.mem_append_right _ hlast) p hp) (not_lt.mpr hlo)
  · rw [hdata]
    exact hmem

end Agreement

section Pages

variable {store : Posts} {pages : List FeedPage}

end Pages

section Result

variable {server : FeedServer} {news : ℕ → List Post} {start limit : ℕ} {pages : List FeedPage}

end Result

end Ascendance.Feed
