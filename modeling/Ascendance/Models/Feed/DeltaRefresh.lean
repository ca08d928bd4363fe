import Ascendance.Models.Feed.NewFeedInsertion

/-!
# Refreshing the new feed

A client keeps the pages that it has loaded. A refresh reads backward pages from the
cursor of its first row until a page has no more, and puts the rows it has not got yet
before the first page. Pages of a load may come from a cache and be older than the load;
those of a refresh are read from the collection.
-/

namespace Ascendance.Feed

open Ascendance.Core

/-- A page of posts. -/
abbrev FeedPage := CursorPage Post NewCursor

/-- A page of the cache, and when it was read from the collection. Its `headCursor` is the
previous cursor of the page. -/
structure CachedNewFeed where
  page : FeedPage
  readAt : ℕ

/-- What the requests of a client meet: the posts, the exclusions and the cached pages, each at
the time of a request. -/
structure FeedServer where
  stores : ℕ → Posts
  exclusions : String → Option (List ℕ)
  /-- The pages under their cursors and limits. -/
  cached : ℕ → Option NewCursor → ℕ → Option CachedNewFeed
  /-- A cached page was read by a request before. -/
  cached_read : ∀ {k limit cursor entry}, cached k cursor limit = some entry →
    entry.readAt ≤ k ∧ getNewFeedWithCursor (stores entry.readAt).all exclusions limit cursor
      .forward = some entry.page
  /-- The cursor of that request stood at a post that was stored. -/
  cached_anchor : ∀ {k limit c entry}, cached k (some (toCursor none c)) limit = some entry →
    ∃ q ∈ (stores entry.readAt).all, q.key = c

namespace FeedServer

/-- The page without `forceRefresh`: the cached one, or one that is read now. -/
def load (server : FeedServer) (k limit : ℕ) (cursor : Option NewCursor) : Option CachedNewFeed :=
  (server.cached k cursor limit).or
    ((getNewFeedWithCursor (server.stores k).all server.exclusions limit cursor .forward).map
      fun page => ⟨page, k⟩)

end FeedServer

end Ascendance.Feed
