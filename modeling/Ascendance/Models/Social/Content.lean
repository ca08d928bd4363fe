import Ascendance.Core.Search
import Ascendance.Models.Social.Schema
import Mathlib.Data.Finset.Option
import Mathlib.Data.Finset.Union

/-!
# Posts, comments and likes

What the content handlers do inside their transactions. Creation and likes adjust
counters by one, removal recomputes them from what is left.
-/

namespace Ascendance.Social

open Ascendance.Core

/-- `activePostFilter`: the status is active or missing. -/
def Post.isActive (p : Post) : Bool := p.status == some .active || p.status == none

/-- The comments of a post. -/
def commentsOf (postId : ℕ) : ∀ k, Doc k → Bool := comments fun _ c => c.postId == postId

/-- The replies to a comment. -/
def repliesOf (commentId : ℕ) : ∀ k, Doc k → Bool :=
  comments fun _ c => c.parentId == some commentId

/-- The likes of a post. -/
def likesOfPost (postId : ℕ) : ∀ k, Doc k → Bool := postLikes fun post _ => post == postId

/-- The likes of a comment. -/
def likesOfComment (commentId : ℕ) : ∀ k, Doc k → Bool :=
  commentLikes fun comment _ => comment == commentId

/-- The active reposts of a post. -/
def repostsOf (postId : ℕ) : ∀ k, Doc k → Bool :=
  posts fun _ p => p.repostOf == some postId && p.type == .repost && p.isActive

/-- The active posts of a user. -/
def postsOfUser (userId : ℕ) : ∀ k, Doc k → Bool := posts fun _ p => p.user == userId && p.isActive

/-- The active posts of a community. -/
def postsOfCommunity (communityId : ℕ) : ∀ k, Doc k → Bool :=
  posts fun _ p => p.communityId == some communityId && p.isActive

namespace ContentCleanupService

/-- Set a counter of the named documents of one collection to a count of the stored ones. -/
def recompute (set : (ℕ → ℤ) → ∀ k, Doc k → Doc k) (entry : ℕ → ∀ k, Doc k → Bool) (db : Store) :
    Store :=
  db.updateMany (set fun id => db.count (entry id))

/-- Count the likes of the given posts anew. -/
def recomputePostLikeCounts (ids : Finset Key) : Store → Store :=
  recompute (fun count => onPosts fun id p =>
    if .post id ∈ ids then { p with likesCount := count id } else p) likesOfPost

/-- Count the likes of the given comments anew. -/
def recomputeCommentLikeCounts (ids : Finset Key) : Store → Store :=
  recompute (fun count => onComments fun id c =>
    if .comment id ∈ ids then { c with likesCount := count id } else c) likesOfComment

/-- Count the comments of the given posts anew. -/
def recomputePostCommentCounts (ids : Finset Key) : Store → Store :=
  recompute (fun count => onPosts fun id p =>
    if .post id ∈ ids then { p with commentsCount := count id } else p) commentsOf

/-- Count the replies to the given comments anew. -/
def recomputeCommentReplyCounts (ids : Finset Key) : Store → Store :=
  recompute (fun count => onComments fun id c =>
    if .comment id ∈ ids then { c with replyCount := count id } else c) repliesOf

/-- Count the reposts of the given posts anew. -/
def recomputeRepostCounts (ids : Finset Key) : Store → Store :=
  recompute (fun count => onPosts fun id p =>
    if .post id ∈ ids then { p with repostCount := count id } else p) repostsOf

/-- Count the posts of the given users anew. -/
def recomputeUserPostCounts (ids : Finset Key) : Store → Store :=
  recompute (fun count => onUsers fun id u =>
    if .user id ∈ ids then { u with postCount := count id } else u) postsOfUser

/-- Count the posts of the given communities anew. -/
def recomputeCommunityPostCounts (ids : Finset Key) : Store → Store :=
  recompute (fun count => onCommunities fun id c =>
    if .community id ∈ ids then { c with postCount := count id } else c) postsOfCommunity

/-- The posts of a user. -/
def findPostIdsByUser (userId : ℕ) (db : Store) : Finset Key :=
  db.find (posts fun _ p => p.user == userId)

/-- The posts of a community. -/
def findPostIdsByCommunity (communityId : ℕ) (db : Store) : Finset Key :=
  db.find (posts fun _ p => p.communityId == some communityId)

/-- A post is in the frontier or reposts a post of it. -/
def reaches (frontier : Finset Key) (id : ℕ) (p : Post) : Bool :=
  decide (.post id ∈ frontier) || p.repostOf.any fun target => decide (.post target ∈ frontier)

/-- The roots and everything that reposts them, directly or not, in rounds of one query. -/
def collectPostGraph (roots : Finset Key) (db : Store) : Finset Key :=
  collect (fun frontier => db.find (posts (reaches frontier))) (db.ids.card + 1) roots ∅

/-- The keys that the posts among some keys name. -/
def named (f : Post → Option Key) (graph : Finset Key) (db : Store) : Finset Key :=
  graph.biUnion fun
    | .post id => ((db.doc (.post id)).bind f).toFinset
    | _ => ∅

/-- The deletions of `deletePostGraph`: the posts go with their comments and all likes. -/
def deleteGraph (graph : Finset Key) (db : Store) : Store :=
  let commentIds := db.find (comments fun _ c => decide (.post c.postId ∈ graph))
  db
  |>.deleteMany (commentLikes fun comment _ => decide (.comment comment ∈ commentIds))
  |>.deleteMany (comments fun _ c => decide (.post c.postId ∈ graph))
  |>.deleteMany (postLikes fun post _ => decide (.post post ∈ graph))
  |>.deleteMany (posts fun id _ => decide (.post id ∈ graph))

/-- Delete the posts with everything that hangs on them, then recompute what counted them. -/
def deletePostGraph (roots : Finset Key) (db : Store) : Store :=
  let graph := collectPostGraph roots db
  let survivingRepostTargets :=
    named (fun p => if p.type = .repost then p.repostOf.map .post else none) graph db \ graph
  let authors := named (fun p => some (.user p.user)) graph db
  let communityIds := named (fun p => p.communityId.map .community) graph db
  if graph = ∅ then db
  else
    deleteGraph graph db
    |> recomputeRepostCounts survivingRepostTargets
    |> recomputeUserPostCounts authors
    |> recomputeCommunityPostCounts communityIds

end ContentCleanupService

open ContentCleanupService

/-- The counters that a comment increments, where their documents are still found. -/
def countComment (postId : ℕ) (parentId : Option ℕ) (db : Store) : Store :=
  let db := db.update (.post postId) fun p : Post => { p with commentsCount := p.commentsCount + 1 }
  match parentId with
  | none => db
  | some parent =>
    db.update (.comment parent) fun c : Comment => { c with replyCount := c.replyCount + 1 }

/-- The transaction of `CreateCommentCommandHandler.execute`, with the identifiers that were read
before it. -/
def createCommentBody (id postId userId : ℕ) (parentId : Option ℕ) (depth : ℕ) (db : Store) :
    Except AppError Store :=
  (create (.comment id)
    ({ postId := postId, parentId := parentId, depth := depth, userId := some userId
       isDeleted := false, departedUserKey := none, replyCount := 0, likesCount := 0 } : Comment)
    db).map (countComment postId parentId)

/-- The transaction of `DeleteCommentCommandHandler.execute`; the post and the parent are those of
the comment as it was read before. -/
def deleteCommentBody (id postId : ℕ) (parentId : Option ℕ) (db : Store) : Store :=
  let hasReplies := 0 < db.count (repliesOf id)
  let db := db.deleteMany (likesOfComment id)
  if hasReplies then
    db.update (.comment id) fun c : Comment =>
      { c with isDeleted := true, userId := none, likesCount := 0 }
  else
    let db := recomputePostCommentCounts {.post postId} (db.delete (.comment id))
    match parentId with
    | none => db
    | some parent => recomputeCommentReplyCounts {.comment parent} db

/-- The transaction of `LikeCommentCommandHandler.execute`. -/
def likeCommentBody (commentId userId : ℕ) (db : Store) : Store :=
  match db.doc (.commentLike commentId userId) with
  | some _ =>
    (db.delete (.commentLike commentId userId)).update (.comment commentId) fun c : Comment =>
      { c with likesCount := c.likesCount - 1 }
  | none =>
    (db.put (.commentLike commentId userId) ()).update (.comment commentId) fun c : Comment =>
      { c with likesCount := c.likesCount + 1 }

/-- The transaction of `LikeActionByPublicIdCommandHandler.execute`. -/
def likePostBody (postId userId : ℕ) (db : Store) : Store :=
  match db.doc (.postLike postId userId) with
  | some _ =>
    (db.delete (.postLike postId userId)).update (.post postId) fun p : Post =>
      { p with likesCount := p.likesCount - 1 }
  | none =>
    (db.put (.postLike postId userId) ()).update (.post postId) fun p : Post =>
      { p with likesCount := p.likesCount + 1 }

/-- A post as the schema creates it: the counters are zero and the status is active. -/
def Post.new (user : ℕ) : Post where
  user := user
  status := some .active
  type := .original
  repostOf := none
  communityId := none
  likesCount := 0
  commentsCount := 0
  repostCount := 0

/-- A post that waits for its images. -/
def Post.pending (user : ℕ) (communityId : Option ℕ) : Post :=
  { Post.new user with status := some .pending, communityId := communityId }

/-- The reposts of a post by a user. -/
def repostsBy (userId target : ℕ) : ∀ k, Doc k → Bool :=
  posts fun _ p => p.user == userId && p.repostOf == some target && p.type == .repost

/-- The counters that a repost increments, where their documents are still found. -/
def countRepost (userId target : ℕ) (db : Store) : Store :=
  let db := db.update (.post target) fun p : Post => { p with repostCount := p.repostCount + 1 }
  db.update (.user userId) fun u : User => { u with postCount := u.postCount + 1 }

/-- The transaction of `RepostPostCommandHandler.createRepost`; a user reposts a post once. -/
def createRepostBody (id userId target : ℕ) (db : Store) : Except AppError Store :=
  if 0 < db.count (repostsBy userId target) then .error Errors.duplicateKey
  else
    (create (.post id) ({ Post.new userId with type := .repost, repostOf := some target } : Post)
      db).map (countRepost userId target)

/-- The transaction of `CreatePostCommandHandler.createPendingPost`. -/
def createPendingPostBody (id userId : ℕ) (communityId : Option ℕ) (db : Store) :
    Except AppError Store :=
  create (.post id) (Post.pending userId communityId) db

/-- The transaction of `CreatePostCommandHandler.activatePendingPost`: a post outside of
communities counts for its author, another one for its community. -/
def activatePendingPostBody (id userId : ℕ) (communityId : Option ℕ) (db : Store) :
    Except AppError Store :=
  match db.doc (.post id) with
  | none => .error (Errors.conflict "Pending post could not be activated")
  | some post =>
    if post.status = some .pending then
      let db := db.update (.post id) fun p : Post => { p with status := some .active }
      match communityId with
      | none =>
        .ok (db.update (.user userId) fun u : User => { u with postCount := u.postCount + 1 })
      | some community =>
        .ok (db.update (.community community) fun c : Community =>
          { c with postCount := c.postCount + 1 })
    else .error (Errors.conflict "Pending post could not be activated")

/-- The transaction of `CreatePostCommandHandler.markPendingPostFailed`. -/
def markPendingPostFailedBody (id : ℕ) (db : Store) : Store :=
  db.update (.post id) fun p : Post => { p with status := some .failed }

end Ascendance.Social
