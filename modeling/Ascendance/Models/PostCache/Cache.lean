import Ascendance.Core.OrderedMap
import Ascendance.Core.Records

/-!
# The posts in the query cache

The client keeps the result of every query under its key. A post stands in many of
them: in the pages of feeds, as a query of its own and inside its reposts. An
interaction with the post changes every copy, and a failed like is rolled back from
what was found before it.
-/

namespace Ascendance.PostCache

open Ascendance.Core

/-- Cached values other than arrays and objects; counts are integers. -/
inductive Leaf
  | undefined
  | null
  | bool (b : Bool)
  | number (n : ℤ)
  | nan
  | string (s : String)
  deriving DecidableEq, Repr

/-- The data of a cached query. -/
abbrev CacheData := Data Leaf

/-- The record of a post. -/
abbrev Post := Fields Leaf

/-- A property; a missing one reads as undefined. -/
def read (k : String) (record : Post) : CacheData :=
  (List.lookup k record).getD (.leaf .undefined)

/-- Does the value count as true? -/
def truthy : CacheData → Bool
  | .leaf .undefined | .leaf .null | .leaf .nan => false
  | .leaf (.bool b) => b
  | .leaf (.number n) => n != 0
  | .leaf (.string s) => s != ""
  | .array _ | .object _ => true

/-- `value + n`. -/
def plus (n : ℤ) : CacheData → Leaf
  | .leaf (.number k) => .number (k + n)
  | .leaf .null => .number n
  | .leaf (.bool b) => .number (b.toInt + n)
  | .leaf .undefined | .leaf .nan | .leaf (.string _) | .array _ | .object _ => .nan

/-- `Math.max(0, value)`. -/
def maxZero : Leaf → Leaf
  | .number n => .number (max 0 n)
  | a => a

/-- `value || 0`. -/
def orZero (v : CacheData) : CacheData := if truthy v then v else .leaf (.number 0)

/-- The record of a post: it has its id and a number of likes. -/
def isPost (publicId : String) (record : Post) : Bool :=
  (match List.lookup "publicId" record with
    | some (.leaf (.string s)) => s == publicId
    | _ => false) && (List.lookup "likes" record).isSome

/-- The properties that are searched for posts. -/
def searched : List String := ["pages", "data", "posts", "repostOf"]

/-- Rewrite every copy of a post in the data. -/
def updatePostInCache (publicId : String) (updater : Post → Post) : CacheData → CacheData :=
  Data.rewrite searched fun record =>
    if isPost publicId record then some (updater record) else none

/-- The copies of a post that an update reaches, in the order in which it reaches them. -/
def copies (publicId : String) : CacheData → List Post := Data.records searched (isPost publicId)

/-- An item of a list that is the post. -/
def isItem (publicId : String) : CacheData → Bool
  | .object record =>
    match List.lookup "publicId" record with
    | some (.leaf (.string s)) => s == publicId
    | _ => false
  | .leaf _ | .array _ => false

/-- Drop a deleted post from the lists of the data. -/
def filterOutDeletedPost (publicId : String) : CacheData → CacheData :=
  Data.prune ["pages", "data", "posts"] (isItem publicId)

/-- `{ ...post, likes, isLikedByViewer: shouldLike }`, where the count follows the viewer's like. -/
def likedOptimistically (shouldLike : Bool) (post : Post) : Post :=
  Fields.assign post
    [("likes", .leaf (maxZero (plus
        (shouldLike.toInt - (truthy (read "isLikedByViewer" post)).toInt) (read "likes" post)))),
      ("isLikedByViewer", .leaf (.bool shouldLike))]

/-- The server's answer to a like. -/
def likeConfirmed (likes : ℤ) (isLikedByViewer : Bool) (post : Post) : Post :=
  Fields.assign post
    [("likes", .leaf (.number likes)), ("isLikedByViewer", .leaf (.bool isLikedByViewer)),
      ("viewerLikeStateKnown", .leaf (.bool true))]

/-- The likes of an earlier copy. -/
def likeRolledBack (previous post : Post) : Post :=
  Fields.assign post
    [("likes", read "likes" previous), ("isLikedByViewer", read "isLikedByViewer" previous)]

/-- The number of likes that the server reports. -/
def likesCounted (newLikes : ℤ) (post : Post) : Post :=
  Fields.assign post [("likes", .leaf (.number newLikes))]

/-- The viewer has reposted the post. -/
def applyRepostState (post : Post) : Post :=
  Fields.assign post
    [("repostCount", .leaf (plus 1 (orZero (read "repostCount" post)))),
      ("isRepostedByViewer", .leaf (.bool true))]

/-- The viewer has taken the repost back. -/
def clearRepostState (post : Post) : Post :=
  Fields.assign post
    [("repostCount", .leaf (maxZero (plus (-1) (orZero (read "repostCount" post))))),
      ("isRepostedByViewer", .leaf (.bool false))]

/-- The post with its edited text. -/
def bodyEdited (body editedAt : Leaf) (post : Post) : Post :=
  Fields.assign post [("body", .leaf body), ("editedAt", .leaf editedAt)]

/-- An element of a query key. -/
inductive KeyPart
  | text (s : String)
  | number (n : ℤ)
  | missing
  | texts (ss : List String)
  deriving DecidableEq, Repr

/-- The key of a query. -/
abbrev QueryKey := List KeyPart

/-- The first parts of the keys whose data hold posts. -/
def postInteractionCacheKeys : List String :=
  ["followingFeed", "posts", "personalizedFeed", "userPosts", "forYouFeed", "feedPreview",
    "hotTopicPosts", "interestFeed", "trendingFeed", "newFeed", "images", "userImages", "post",
    "image", "postsByTag", "favorites", "community-posts", "userLikedPosts", "userPostsPage",
    "userLikedPostsPage", "query"]

/-- Does the key belong to such a query? -/
def postInteractionQueryFilter : QueryKey → Bool
  | .text s :: _ => postInteractionCacheKeys.contains s
  | _ => false

/-- The data of the queries, in the order in which the queries were made. -/
abbrev Queries := OrderedMap QueryKey CacheData

/-- `setQueriesData` with a function that leaves missing data missing. -/
def setQueriesData (filter : QueryKey → Bool) (f : CacheData → CacheData) (queries : Queries) :
    Queries :=
  queries.mapValues fun k data => if filter k then f data else data

/-- The data of a query; a query without data has none. -/
def getQueryData (queries : Queries) (k : QueryKey) : CacheData :=
  (queries.get k).getD (.leaf .undefined)

/-- Rewrite every copy of a post in the cache. -/
def updatePostCaches (postPublicId : String) (updater : Post → Post) : Queries → Queries :=
  setQueriesData postInteractionQueryFilter (updatePostInCache postPublicId updater)

/-- Drop a deleted post from the feeds. -/
def removePostFromFeedCaches (publicId : String) : Queries → Queries :=
  setQueriesData postInteractionQueryFilter (filterOutDeletedPost publicId)

/-- The queries that a deleted post takes with it: its own and those of its comments. -/
def isDetailOrComments (postPublicId : String) (k : QueryKey) (data : CacheData) : Bool :=
  ((k.head? == some (.text "post") || k.head? == some (.text "image")) &&
      (k.contains (.text postPublicId) || isItem postPublicId data)) ||
    k.take 3 == [.text "comments", .text "post", .text postPublicId]

/-- Drop the queries of a deleted post and its comments. -/
def removePostDetailAndCommentCaches (postPublicId : String) (queries : Queries) : Queries :=
  queries.filterEntries fun k data => !isDetailOrComments postPublicId k data

/-- One call of a mutation with the post that it is about. -/
structure Mutation where
  id : ℕ
  postPublicId : String
  deriving DecidableEq, Repr

/-- The cache with the contexts of the likes and favorites under way. -/
@[ext]
structure Client where
  queries : Queries
  /-- `previousPosts`. -/
  likeContext : Mutation → Option (List (QueryKey × Post))
  /-- `previousPost`. -/
  favoriteContext : Mutation → Option CacheData

namespace Client

/-- For each query that holds the post, the first copy of it. -/
def previousPosts (c : Client) (postPublicId : String) : List (QueryKey × Post) :=
  c.queries.entries.filterMap fun e =>
    if postInteractionQueryFilter e.1 then
      (copies postPublicId e.2).head?.map fun post => (e.1, post)
    else none

/-- The key of the query of a single post. -/
def detailKey (postPublicId : String) : QueryKey := [.text "post", .text postPublicId]

/-- `value?.isLikedByViewer`. -/
def likedOf : CacheData → CacheData
  | .object record => read "isLikedByViewer" record
  | .leaf _ | .array _ => .leaf .undefined

/-- `!(detail ?? previousPosts[0]?.post)?.isLikedByViewer`. -/
def shouldLike (c : Client) (postPublicId : String) : Bool :=
  !truthy (match getQueryData c.queries (detailKey postPublicId) with
    | .leaf .undefined | .leaf .null =>
      ((c.previousPosts postPublicId).head?.map fun e => read "isLikedByViewer" e.2).getD
        (.leaf .undefined)
    | detail => likedOf detail)

/-- `useLikePost`: `onMutate` after the fetches are cancelled. -/
def likeOnMutate (c : Client) (m : Mutation) : Client where
  queries := updatePostCaches m.postPublicId
    (likedOptimistically (c.shouldLike m.postPublicId)) c.queries
  likeContext := Function.update c.likeContext m (some (c.previousPosts m.postPublicId))
  favoriteContext := c.favoriteContext

/-- The server has confirmed a like. -/
def likeOnSuccess (c : Client) (m : Mutation) (likes : ℤ) (isLikedByViewer : Bool) : Client :=
  { c with
    queries := updatePostCaches m.postPublicId (likeConfirmed likes isLikedByViewer) c.queries }

/-- Every query gets the likes of the copy that was found first in it. -/
def rollBack (postPublicId : String) (previousPosts : List (QueryKey × Post))
    (queries : Queries) : Queries :=
  previousPosts.foldl (fun queries e =>
    queries.modify e.1 (updatePostInCache postPublicId (likeRolledBack e.2))) queries

/-- The server has refused a like; the copies go back to what they were. -/
def likeOnError (c : Client) (m : Mutation) : Client :=
  { c with queries := rollBack m.postPublicId ((c.likeContext m).getD []) c.queries }

/-- `old ? { ...old, isFavoritedByViewer } : old` for the post's own query. -/
def favorited (shouldFavorite : Bool) : CacheData → CacheData
  | .object record =>
    .object (Fields.assign record [("isFavoritedByViewer", .leaf (.bool shouldFavorite))])
  | data => data

/-- `useFavoritePost`. -/
def favoriteOnMutate (c : Client) (m : Mutation) (shouldFavorite : Bool) : Client where
  queries := c.queries.modify (detailKey m.postPublicId) (favorited shouldFavorite)
  likeContext := c.likeContext
  favoriteContext := Function.update c.favoriteContext m
    (some (getQueryData c.queries (detailKey m.postPublicId)))

/-- The server has refused a favourite; the post goes back to what it was. -/
def favoriteOnError (c : Client) (m : Mutation) : Client :=
  match c.favoriteContext m with
  | some previousPost =>
    if truthy previousPost then
      { c with queries := c.queries.set (detailKey m.postPublicId) previousPost }
    else c
  | none => c

end Client

/-- What happens to the cache, in any order. -/
inductive Event
  /-- A query is made, its data is fetched or replaced, or it is dropped. -/
  | made (key : QueryKey)
  | fetched (key : QueryKey) (data : CacheData)
  | dropped (key : QueryKey)
  | like (m : Mutation)
  | likeSucceeds (m : Mutation) (likes : ℤ) (isLikedByViewer : Bool)
  | likeFails (m : Mutation)
  | favorite (m : Mutation) (shouldFavorite : Bool)
  | favoriteFails (m : Mutation)
  /-- The socket event `like_update`. -/
  | likeUpdate (imageId : String) (newLikes : ℤ)
  | reposted (postPublicId : String)
  | unreposted (postPublicId : String)
  | edited (publicId : String) (body editedAt : Leaf)
  | deleted (publicId : String)

namespace Client

/-- The effect of an event on the cache. -/
def step (c : Client) : Event → Client
  | .made key =>
    { c with
      queries := if key ∈ c.queries then c.queries else c.queries.set key (.leaf .undefined) }
  | .fetched key data => { c with queries := c.queries.set key data }
  | .dropped key => { c with queries := c.queries.delete key }
  | .like m => c.likeOnMutate m
  | .likeSucceeds m likes isLikedByViewer => c.likeOnSuccess m likes isLikedByViewer
  | .likeFails m => c.likeOnError m
  | .favorite m shouldFavorite => c.favoriteOnMutate m shouldFavorite
  | .favoriteFails m => c.favoriteOnError m
  | .likeUpdate imageId newLikes =>
    { c with queries := updatePostCaches imageId (likesCounted newLikes) c.queries }
  | .reposted postPublicId =>
    { c with queries := updatePostCaches postPublicId applyRepostState c.queries }
  | .unreposted postPublicId =>
    { c with queries := updatePostCaches postPublicId clearRepostState c.queries }
  | .edited publicId body editedAt =>
    { c with queries := updatePostCaches publicId (bodyEdited body editedAt) c.queries }
  | .deleted publicId =>
    { c with
      queries :=
        removePostDetailAndCommentCaches publicId (removePostFromFeedCaches publicId c.queries) }

/-- The cache after a list of events. -/
def run (c : Client) (es : List Event) : Client := es.foldl step c

end Client

end Ascendance.PostCache
