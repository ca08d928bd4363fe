import Ascendance.Models.Feed.NewFeedPaging
import Ascendance.Models.Feed.SnapshotPage
import Ascendance.Models.Feed.SnapshotStore
import Mathlib.Algebra.Order.Ring.Rat

/-!
# The trending feed

The trending feed pages over a snapshot, of the sorted set in Redis or of a ranking in
MongoDB. Its last page goes over to the new feed, with the identities that the snapshot
has shown as exclusions. A walk keeps its snapshots, so they are fixed here.
-/

namespace Ascendance.Feed

open Ascendance.Core

/-- A cursor of the trending feed, in its trending phase or in its new phase. -/
inductive TrendingCursor where
  | redis (offset : ℕ)
  | mongo (offset : ℕ)
  | new (cursor : NewCursor)
  deriving DecidableEq, Repr

/-- A page of the trending feed. -/
abbrev TrendingPage := CursorPage Post TrendingCursor

/-- What the pages of a walk meet. The members of the sorted set come with their scores, the
best first, and there are none when Redis does not answer. The exclusions of a snapshot are
those it was created with, in some order. -/
structure TrendingServer where
  platform : Platform
  objectIdText : ℕ → String
  parseObjectId : String → Option ℕ
  parseObjectId_text : ∀ id, parseObjectId (objectIdText id) = some id
  store : Posts
  trendingPosts : Option (List (String × Rat))
  /-- Recent enough and liked often enough. -/
  isTrending : Post → Bool
  trendScore : Post → Rat
  exclusionId : List ℕ → String
  exclusions : String → Option (List ℕ)
  exclusions_id : ∀ seen, ∃ stored, exclusions (exclusionId seen) = some stored ∧
    ∀ id, id ∈ stored ↔ id ∈ seen

namespace TrendingServer

variable (server : TrendingServer)

/-- The active post with a property that no two posts share. -/
def findActive (is : Post → Bool) : Option Post :=
  server.store.all.find? fun p => p.isActive && is p

/-- `findPostsByPublicIds`, its posts put in the order of the identifiers. -/
def findPostsByPublicIds (publicIds : List String) : List Post :=
  publicIds.filterMap fun publicId => server.findActive fun p => p.publicId == publicId

/-- The internal identifiers of the active posts with the given public ones. -/
def findInternalIdsByPublicIds (publicIds : List String) : List ℕ :=
  (server.store.all.filter fun p => p.isActive && p.publicId ∈ publicIds).map (·.id)

/-- `repostOf` of a projected post: the reposted post, if it is active. -/
def projectedRepostOf (p : Post) : Option Post :=
  p.repostOf.bind fun original => server.findActive fun q => q.id == original

/-- `post.repostOf?.publicId ?? post.publicId`. -/
def visiblePublicId (p : Post) : String :=
  ((server.projectedRepostOf p).map (·.publicId)).getD p.publicId

/-- The snapshot of the ranked set, unless it is too long. -/
def buildRedisSnapshot (items : List (String × Rat)) : Option FeedCursorSnapshot :=
  if items.length > MAX_FEED_CURSOR_SNAPSHOT_ITEMS then none
  else
    some
      { feed := .trending
        order := .trending
        source := .redis
        scope := none
        entries := items.map fun item => ⟨item.1, item.1, item.1, some item.2, none⟩
        excludedIdentityIds := none }

/-- The trend score and the identifier, compared in this order. -/
def trendKey (p : Post) : Rat ×ₗ ℕ := toLex (server.trendScore p, p.id)

/-- `buildTrendingSnapshotPipeline`. -/
def trendingGroups : List Post :=
  (Keyset.sortDesc server.trendKey (firstOfGroups Post.visibleIdentityId
    (Keyset.sortDesc server.trendKey
      (server.store.all.filter fun p => p.isActive && server.isTrending p)))).take
        (MAX_FEED_CURSOR_SNAPSHOT_ITEMS + 1)

/-- The entry of a post in a ranking. -/
def scoreEntry (p : Post) : FeedCursorSnapshotEntry where
  id := server.objectIdText p.id
  publicId := p.publicId
  visibleIdentityId := server.objectIdText p.visibleIdentityId
  score := some (server.trendScore p)
  reason := none

/-- The snapshot of the scored posts, unless they are too many. -/
def buildScoreSnapshot (results : List Post) : Option FeedCursorSnapshot :=
  if results.length > MAX_FEED_CURSOR_SNAPSHOT_ITEMS then none
  else
    some
      { feed := .trending
        order := .trending
        source := .mongo
        scope := none
        entries := results.map server.scoreEntry
        excludedIdentityIds := none }

/-- `getOrCreateFeedCursorSnapshot`: a snapshot that does not pass the checks is an error. -/
def createSnapshot (snapshot : Option FeedCursorSnapshot) : Option FeedCursorSnapshot :=
  snapshot.filter server.platform.accepts

/-- `collectVisibleInternalIds`. -/
def collectVisibleInternalIds (snapshot : FeedCursorSnapshot) (consumedOffset : ℕ)
    (currentPosts : List Post) : List ℕ :=
  let visiblePublicIds := currentPosts.map server.visiblePublicId
  let consumed := snapshot.entries.take consumedOffset
  match snapshot.source with
  | .mongo =>
    consumed.filterMap (fun entry => server.parseObjectId entry.visibleIdentityId) ++
      server.findInternalIdsByPublicIds visiblePublicIds
  | .redis =>
    let posts := server.findPostsByPublicIds (consumed.map (·.publicId))
    server.findInternalIdsByPublicIds (visiblePublicIds ++ posts.map server.visiblePublicId)

/-- The cursor at which the new phase starts. -/
def newStartCursor (seen : List ℕ) : Option NewCursor :=
  if seen.isEmpty then none else some ⟨none, some (server.exclusionId seen)⟩

/-- `completeWithNewFeed`; more exclusions than a snapshot takes are an error. -/
def completeWithNewFeed (snapshot : FeedCursorSnapshot) (trendingPosts : List Post)
    (consumedOffset limit : ℕ) : Option TrendingPage :=
  let seen := (server.collectVisibleInternalIds snapshot consumedOffset trendingPosts).dedup
  let start := server.newStartCursor seen
  let needed := limit - trendingPosts.length
  if seen.length > MAX_FEED_CURSOR_SNAPSHOT_ITEMS then none
  else if 0 < needed then
    (getNewFeedWithCursor server.store.all server.exclusions needed start .forward).map
      fun backfill =>
        { data := trendingPosts ++ backfill.data
          hasMore := backfill.hasMore
          nextCursor := backfill.nextCursor.map .new
          prevCursor := none }
  else
    (getNewFeedWithCursor server.store.all server.exclusions 1 start .forward).bind fun peek =>
      if peek.data.isEmpty then
        some
          { data := trendingPosts
            hasMore := false
            nextCursor := none
            prevCursor := none }
      else
        start.map fun cursor =>
          { data := trendingPosts
            hasMore := true
            nextCursor := some (.new cursor)
            prevCursor := none }

/-- A page of a snapshot in Redis: `paginateSnapshot` and what `execute` does with its posts. -/
def redisPage (snapshot : FeedCursorSnapshot) (offset limit : ℕ) : Option TrendingPage :=
  let page := (snapshot.entries.drop offset).take (limit + 1)
  let visible := page.take limit
  let consumedOffset := offset + visible.length
  let posts := server.findPostsByPublicIds (visible.map (·.publicId))
  if page.length > limit then
    some
      { data := posts
        hasMore := true
        nextCursor := if visible.isEmpty then none else some (.redis consumedOffset)
        prevCursor := none }
  else if visible.isEmpty then server.completeWithNewFeed snapshot [] offset limit
  else server.completeWithNewFeed snapshot posts consumedOffset limit

/-- Whether a query for identifiers finds the post of an entry. -/
def isStored (id : String) : Bool :=
  server.store.all.any fun p => p.isActive && server.objectIdText p.id == id

/-- A page of a ranking: `FeedReadDao.getTrendingFeedWithCursor` and what `execute` does. -/
def mongoPage (offset limit : ℕ) : Option TrendingPage :=
  (server.createSnapshot (server.buildScoreSnapshot server.trendingGroups)).bind fun snapshot =>
    let page := readScoreSnapshotPage server.isStored snapshot offset limit
    let posts := page.data.filterMap fun shown =>
      server.findActive fun p => server.objectIdText p.id == shown.id
    if page.hasMore then
      some
        { data := posts
          hasMore := true
          nextCursor := some (.mongo page.nextOffset)
          prevCursor := none }
    else server.completeWithNewFeed snapshot posts page.nextOffset limit

/-- `GetTrendingFeedQueryHandler.execute`. A sorted set without members leads to the ranking,
and so does Redis when it does not answer. -/
def getTrendingFeed (limit : ℕ) (cursor : Option TrendingCursor) : Option TrendingPage :=
  match cursor with
  | some (.new cursor) =>
    (getNewFeedWithCursor server.store.all server.exclusions limit (some cursor) .forward).map
      fun result =>
        { data := result.data
          hasMore := result.hasMore
          nextCursor := result.nextCursor.map .new
          prevCursor := none }
  | some (.mongo offset) => server.mongoPage offset limit
  | some (.redis offset) =>
    server.trendingPosts.bind fun items =>
      (server.createSnapshot (buildRedisSnapshot items)).bind fun snapshot =>
        server.redisPage snapshot offset limit
  | none =>
    match server.trendingPosts with
    | none => server.mongoPage 0 limit
    | some items =>
      (server.createSnapshot (buildRedisSnapshot items)).bind fun snapshot =>
        if snapshot.entries.isEmpty then server.mongoPage 0 limit
        else server.redisPage snapshot 0 limit

/-- The page of a walk. -/
abbrev read (limit _k : ℕ) (cursor : Option TrendingCursor) : Option TrendingPage :=
  server.getTrendingFeed limit cursor

end TrendingServer

end Ascendance.Feed
