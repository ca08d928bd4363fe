import Ascendance.Models.Social.Lifecycle

/-!
# The command handlers

Each handler reads committed documents, one query after the other, and then runs its
transaction with what it has read. A command names the request and what its environment
adds: the identifiers that are generated, the clock and the order of query results.
-/

namespace Ascendance.Social

open Ascendance.Core ContentCleanupService AccountLifecycleService

/-- A handler: reads, single writes and transactions, until it returns or throws. -/
abbrev Handler := Program Store AppError Unit

/-- Return normally. -/
def returns : Handler := .done (.ok ())

/-- The handler throws. -/
def throws (error : AppError) : Handler := .done (.error error)

/-- Read a document, or fail. -/
def require (k : Key) (error : AppError) (next : Doc k → Handler) : Handler :=
  .read fun db =>
    match db.doc k with
    | some d => next d
    | none => throws error

/-- `findByPublicId` of the posts finds active ones only. -/
def requirePost (id : ℕ) (error : AppError) (next : Post → Handler) : Handler :=
  require (.post id) error fun post : Post => if post.isActive then next post else throws error

/-- `UnitOfWork.executeInTransaction`; an error of the transaction is the handler's. -/
def executeInTransaction (body : Store → Except AppError Store) (next : Handler) : Handler :=
  .transact body fun
    | .ok _ => next
    | .error error => throws error

/-- The identifier of the document that `findOne` returns. -/
def findOne (ids : Finset ℕ) : Option ℕ := (ids.sort (· ≤ ·)).head?

namespace AdminRemovalGuardService

/-- `touch` writes the guard document, so that two removals never commit on one snapshot. -/
def touch (db : Store) : Except AppError Store :=
  match db.doc .adminMutationGuard with
  | some (guard : AdminMutationGuard) =>
    .ok (db.put .adminMutationGuard ({ version := guard.version + 1 } : AdminMutationGuard))
  | none => .error (Errors.internal "Admin removal guard is not initialized")

end AdminRemovalGuardService

/-- `{ isAdmin: true, isBanned: false }` -/
def activeAdmins : ∀ k, Doc k → Bool := users fun _ u => u.isAdmin && !u.isBanned

/-- The error that keeps an active administrator. -/
def lastAdministrator : AppError :=
  Errors.validation "At least one active administrator must remain"

/-- `PromoteToAdminCommandHandler`: a read, then a single write. -/
def promoteToAdmin (userId : ℕ) : Handler :=
  require (.user userId) (Errors.notFound "User") fun user : User =>
    if user.isAdmin then throws (Errors.validation "User is already an admin")
    else
      .write (fun db => db.update (.user userId) fun u : User => { u with isAdmin := true })
        fun db =>
        match db.doc (.user userId) with
        | some _ => returns
        | none => throws (Errors.internal "Failed to update user during promotion")

/-- `UnbanUserCommandHandler`: a read, then a single write. -/
def unbanUser (userId : ℕ) : Handler :=
  require (.user userId) (Errors.notFound "User") fun _ =>
    .write (fun db => db.update (.user userId) fun u : User => { u with isBanned := false })
      fun db =>
      match db.doc (.user userId) with
      | some _ => returns
      | none => throws (Errors.internal "Failed to update user during unban")

/-- The transaction of a demotion: the guard is touched before the administrators are counted. -/
def demoteFromAdminBody (adminId userId : ℕ) (db : Store) : Except AppError Store :=
  match db.doc (.user userId) with
  | none => .error (Errors.notFound "User")
  | some (user : User) =>
    if user.isAdmin = false then .error (Errors.validation "User is not an admin")
    else if adminId = userId then
      .error (Errors.validation "Administrators cannot demote themselves")
    else match AdminRemovalGuardService.touch db with
      | .error error => .error error
      | .ok db =>
        if user.isBanned = false ∧ db.count activeAdmins ≤ 1 then .error lastAdministrator
        else .ok (db.update (.user userId) fun u : User => { u with isAdmin := false })

/-- `DemoteFromAdminCommandHandler`. -/
def demoteFromAdmin (adminId : Option ℕ) (userId : ℕ) : Handler :=
  match adminId with
  | none => throws (Errors.authentication "Admin user is required")
  | some adminId => executeInTransaction (demoteFromAdminBody adminId userId) returns

/-- The transaction of a ban and of an account deletion. -/
def purgeBody (natural : List ℕ) (action : AccountLifecycleAction) (userId : ℕ) (db : Store) :
    Except AppError Store :=
  match db.doc (.user userId) with
  | none => .error (Errors.notFound "User")
  | some (user : User) =>
    if user.isAdmin && !user.isBanned then
      match AdminRemovalGuardService.touch db with
      | .error error => .error error
      | .ok db =>
        if db.count activeAdmins ≤ 1 then .error lastAdministrator
        else purgeUser natural action userId db
    else purgeUser natural action userId db

/-- `BanUserCommandHandler`: the account is purged and banned. -/
def banUser (natural : List ℕ) (adminId userId : ℕ) : Handler :=
  if userId = adminId then
    throws (Errors.validation "Administrators cannot ban their own account")
  else
    require (.user userId) (Errors.notFound "User") fun _ =>
    require (.user adminId) (Errors.notFound "Admin user") fun _ =>
    executeInTransaction (purgeBody natural .ban userId) <|
    require (.user userId) (Errors.internal "Failed to load user after ban") fun _ => returns

/-- `DeleteUserCommandHandler`: the account is purged and deleted. -/
def deleteUser (natural : List ℕ) (requestedBy : Option ℕ) (userId : ℕ) : Handler :=
  if requestedBy = some userId then
    throws (Errors.validation
      "Administrators cannot delete their own account from the admin panel")
  else
    require (.user userId) (Errors.notFound "User") fun _ =>
    executeInTransaction (purgeBody natural .delete userId) returns

/-- Insert a follow; the unique index allows one for each pair. -/
def addFollow (followerId followeeId : ℕ) (db : Store) : Except AppError Store :=
  match db.doc (.follow followerId followeeId) with
  | some _ => .error (Errors.duplicate "Already following this user")
  | none => .ok (db.put (.follow followerId followeeId) ())

/-- Delete a follow that is there. -/
def removeFollow (followerId followeeId : ℕ) (db : Store) : Except AppError Store :=
  match db.doc (.follow followerId followeeId) with
  | some _ => .ok (db.delete (.follow followerId followeeId))
  | none => .error ⟨.NotFoundError, "Not following this user"⟩

/-- Count a followee of the user. -/
def updateFollowingCount (userId : ℕ) (increment : ℤ) (db : Store) : Store :=
  db.update (.user userId) fun u : User => { u with followingCount := u.followingCount + increment }

/-- Count a follower of the user. -/
def updateFollowerCount (userId : ℕ) (increment : ℤ) (db : Store) : Store :=
  db.update (.user userId) fun u : User => { u with followerCount := u.followerCount + increment }

/-- The transaction of a follow: the document, then the two counters. -/
def setFollowStateBody (followerId followeeId : ℕ) (shouldFollow : Bool) (db : Store) :
    Except AppError Store :=
  if shouldFollow then
    (addFollow followerId followeeId db).map fun db =>
      updateFollowerCount followeeId 1 (updateFollowingCount followerId 1 db)
  else
    (removeFollow followerId followeeId db).map fun db =>
      updateFollowerCount followeeId (-1) (updateFollowingCount followerId (-1) db)

/-- Has another call reached the wanted state in the meantime? -/
def isConcurrentNoOp (error : AppError) (shouldFollow : Bool) : Bool :=
  shouldFollow && error.name == .DuplicateError || !shouldFollow && error.name == .NotFoundError

/-- Follow or unfollow, unless the wanted state is there. -/
def setFollowState (followerId followeeId : ℕ) (shouldFollow : Bool) : Handler :=
  require (.user followerId) (Errors.notFound "User") fun _ =>
  require (.user followeeId) (Errors.notFound "User") fun followee : User =>
  if shouldFollow && followee.isBanned then throws (Errors.notFound "User")
  else if followerId = followeeId then throws (Errors.validation "Cannot follow yourself")
  else
    .read fun db =>
      let wasFollowing := (db.doc (.follow followerId followeeId)).isSome
      if wasFollowing = shouldFollow then returns
      else
        .transact (setFollowStateBody followerId followeeId shouldFollow) fun
          | .ok _ => returns
          | .error error => if isConcurrentNoOp error shouldFollow then returns else throws error

/-- `CreateCommentCommandHandler`: the depth is read from the parent outside the transaction. -/
def createComment (id userId postId : ℕ) (parentId : Option ℕ) : Handler :=
  require (.user userId) (Errors.notFound "User") fun _ =>
  requirePost postId (Errors.notFound "Post") fun _ =>
  let create depth :=
    executeInTransaction (createCommentBody id postId userId parentId depth) <|
    require (.comment id) (Errors.internal "Failed to retrieve created comment") fun _ => returns
  match parentId with
  | none => create 0
  | some parent =>
    require (.comment parent) (Errors.notFound "Comment") fun parentComment : Comment =>
    if parentComment.postId = postId then create (parentComment.depth + 1)
    else throws (Errors.validation "Parent comment does not belong to the same post")

/-- `DeleteCommentCommandHandler`: the author, the owner of the post or an administrator may
delete. -/
def deleteComment (userId commentId : ℕ) : Handler :=
  require (.user userId) (Errors.notFound "User") fun user : User =>
  require (.comment commentId) (Errors.notFound "Comment") fun comment : Comment =>
  if comment.isDeleted then throws (Errors.validation "Comment has already been deleted")
  else
    require (.post comment.postId) (Errors.notFound "Post") fun post : Post =>
    if comment.userId = some userId ∨ post.user = userId ∨ user.isAdmin = true then
      executeInTransaction
        (fun db => .ok (deleteCommentBody commentId comment.postId comment.parentId db)) returns
    else
      throws (Errors.forbidden "You can only delete your own comments or comments on your posts")

/-- The transaction of a like; a like that another call has stored since is a validation error. -/
def executeLike (body : Store → Store) (target : String) (next : Handler) : Handler :=
  .transact (fun db => .ok (body db)) fun
    | .ok _ => next
    | .error error =>
      if error.name = .DuplicateError then
        throws (Errors.validation ("like already exists for user and " ++ target))
      else throws error

/-- `LikeCommentCommandHandler`: a like, or an unlike where there is one. -/
def likeComment (userId commentId : ℕ) : Handler :=
  require (.user userId) (Errors.notFound "User") fun _ =>
  require (.comment commentId) (Errors.notFound "Comment") fun _ =>
  executeLike (likeCommentBody commentId userId) "comment" <|
  require (.comment commentId) (Errors.notFound "Comment") fun _ => returns

/-- `LikeActionByPublicIdCommandHandler`: a like, or an unlike where there is one. -/
def likeActionByPublicId (userId postId : ℕ) : Handler :=
  require (.user userId) (Errors.notFound "User") fun _ =>
  requirePost postId (Errors.notFound "Post") fun _ =>
  executeLike (likePostBody postId userId) "post" <|
  requirePost postId (Errors.notFound "Post") fun _ => returns

/-- `RepostPostCommandHandler`: a duplicate that another call has made counts as done. -/
def repostPost (id userId target : ℕ) : Handler :=
  require (.user userId) (Errors.notFound "User") fun _ =>
  requirePost target (Errors.notFound "Post") fun _ =>
  .read fun db =>
    if 0 < db.count (repostsBy userId target) then
      throws (Errors.validation "Post already reposted by this user")
    else
      .transact (createRepostBody id userId target) fun
        | .ok _ => requirePost id (Errors.notFound "Resource") fun _ => returns
        | .error error =>
          if error.name = .DuplicateError then
            .read fun db => if 0 < db.count (repostsBy userId target) then returns else throws error
          else throws error

/-- `UnrepostPostCommandHandler`: the repost is deleted with its graph. -/
def unrepostPost (userId target : ℕ) : Handler :=
  require (.user userId) (Errors.notFound "User") fun _ =>
  requirePost target (Errors.notFound "Post") fun _ =>
  .read fun db =>
    let reposts := (db.find (repostsBy userId target)).biUnion fun
      | .post id => {id}
      | _ => ∅
    match findOne reposts with
    | none => throws ⟨.NotFoundError, "You have not reposted this post"⟩
    | some repost =>
      executeInTransaction (fun db => .ok (deletePostGraph {.post repost} db)) returns

/-- `validateDeletePermission` -/
def mayDelete (requesterId : ℕ) (requester : User) (post : Post) (db : Store) : Bool :=
  post.user == requesterId || requester.isAdmin ||
    post.communityId.any fun community =>
      (db.doc (.member community requesterId)).any fun m : Member =>
        m.role == .admin || m.role == .moderator

/-- The transaction of a deletion: post and requester are read inside it. -/
def deletePostBody (requesterId postId : ℕ) (db : Store) : Except AppError Store :=
  match db.doc (.post postId) with
  | none => .error ⟨.PostNotFoundError, "Post not found"⟩
  | some (post : Post) =>
    if post.isActive = false then .error ⟨.PostNotFoundError, "Post not found"⟩
    else match db.doc (.user requesterId) with
      | none => .error ⟨.UserNotFoundError, "User not found"⟩
      | some (requester : User) =>
        if mayDelete requesterId requester post db then .ok (deletePostGraph {.post postId} db)
        else
          .error ⟨.PostAuthorizationError, "You do not have permission to perform this action"⟩

/-- `DeletePostCommandHandler`. -/
def deletePost (requesterId postId : ℕ) : Handler :=
  executeInTransaction (deletePostBody requesterId postId) returns

/-- Compensation of a post that never became active; its own failure is logged only. -/
def markPendingPostFailed (id : ℕ) (error : AppError) : Handler :=
  .transact (fun db => .ok (markPendingPostFailedBody id db)) fun _ => throws error

/-- What follows the creation of a pending post: its images are uploaded, and it becomes active. -/
def activatePendingPost (id userId : ℕ) (communityId : Option ℕ) (uploaded : Bool) : Handler :=
  if uploaded then
    .transact (activatePendingPostBody id userId communityId) fun
      | .ok _ =>
        requirePost id ⟨.PostNotFoundError, "Post not found after creation"⟩ fun _ => returns
      | .error error => markPendingPostFailed id error
  else markPendingPostFailed id (Errors.internal "Image upload failed")

/-- `CreatePostCommandHandler`: a pending post first, activated when its file is uploaded. -/
def createPost (id userId : ℕ) (communityId : Option ℕ) (uploaded : Bool) : Handler :=
  let create :=
    executeInTransaction (createPendingPostBody id userId communityId) <|
    activatePendingPost id userId communityId uploaded
  require (.user userId) ⟨.UserNotFoundError, "User not found"⟩ fun _ =>
  match communityId with
  | none => create
  | some community =>
    require (.community community) (Errors.notFound "Community") fun _ =>
    require (.member community userId)
      (Errors.forbidden "You must be a member of the community to post") fun _ => create

/-- `$push` with `$position: 0` and `$slice: 10`. -/
def pushJoinedCommunity (communityId : ℕ) (u : User) : User :=
  { u with joinedCommunities := (communityId :: u.joinedCommunities).take 10 }

/-- Take a community from those that the user has joined. -/
def pullJoinedCommunity (communityId : ℕ) (u : User) : User :=
  { u with joinedCommunities := u.joinedCommunities.filter (· ≠ communityId) }

/-- Count a member of the community. -/
def incrementMemberCount (communityId : ℕ) (increment : ℤ) (db : Store) : Store :=
  db.update (.community communityId) fun c : Community =>
    { c with memberCount := c.memberCount + increment }

/-- The creator becomes a member and lists the community. -/
def addCreator (id userId now : ℕ) (db : Store) : Store :=
  let db := db.put (.member id userId) ({ role := .admin, joinedAt := now } : Member)
  db.update (.user userId) (pushJoinedCommunity id)

/-- The transaction of a new community: its creator is its first administrator. -/
def createCommunityBody (id userId now : ℕ) (db : Store) : Except AppError Store :=
  (create (.community id) ({ creatorId := userId, memberCount := 1, postCount := 0 } : Community)
    db).map (addCreator id userId now)

/-- `CreateCommunityCommandHandler`. -/
def createCommunity (id userId now : ℕ) : Handler :=
  require (.user userId) (Errors.notFound "User") fun _ =>
  executeInTransaction (createCommunityBody id userId now) returns

/-- The new member lists the community and is counted, where the documents are still found. -/
def countMember (userId communityId : ℕ) (db : Store) : Store :=
  let db := db.update (.user userId) (pushJoinedCommunity communityId)
  incrementMemberCount communityId 1 db

/-- The transaction of a new member; the unique index allows one for each user. -/
def joinCommunityBody (userId communityId now : ℕ) (db : Store) : Except AppError Store :=
  (create (.member communityId userId) ({ role := .member, joinedAt := now } : Member)
    db).map (countMember userId communityId)

/-- `JoinCommunityCommandHandler`: the community is read outside the transaction. -/
def joinCommunity (userId communityId now : ℕ) : Handler :=
  require (.user userId) (Errors.notFound "User") fun _ =>
  require (.community communityId) (Errors.notFound "Community") fun _ =>
  .read fun db =>
    if (db.doc (.member communityId userId)).isSome then
      throws (Errors.validation "User is already a member of this community")
    else executeInTransaction (joinCommunityBody userId communityId now) returns

/-- The members of a community with a role. -/
def membersWithRole (communityId : ℕ) (role : Role) : ∀ k, Doc k → Bool :=
  members fun community _ m => community == communityId && m.role == role

/-- A membership ends: the member, the profile entry and the count. -/
def removeMember (userId communityId : ℕ) (db : Store) : Store :=
  let db := db.delete (.member communityId userId)
  let db := db.update (.user userId) (pullJoinedCommunity communityId)
  incrementMemberCount communityId (-1) db

/-- The transaction of a member who leaves: the last administrator stays. -/
def leaveCommunityBody (userId communityId : ℕ) (db : Store) : Except AppError Store :=
  match db.doc (.member communityId userId) with
  | none => .error (Errors.validation "User is not a member of this community")
  | some (member : Member) =>
    if member.role = .admin ∧ db.count (membersWithRole communityId .admin) ≤ 1 then
      .error (Errors.validation
        "The last community admin cannot leave; delete the community instead")
    else .ok (removeMember userId communityId db)

/-- `LeaveCommunityCommandHandler`. -/
def leaveCommunity (userId communityId : ℕ) : Handler :=
  require (.user userId) (Errors.notFound "User") fun _ =>
  require (.community communityId) (Errors.notFound "Community") fun _ =>
  executeInTransaction (leaveCommunityBody userId communityId) returns

/-- The transaction of a member who is removed: never an administrator. -/
def kickMemberBody (adminId userId communityId : ℕ) (db : Store) : Except AppError Store :=
  if (db.doc (.member communityId adminId)).any fun m : Member =>
      m.role == .admin || m.role == .moderator then
    match db.doc (.member communityId userId) with
    | none => .error (Errors.notFound "Resource")
    | some (member : Member) =>
      if member.role = .admin then .error (Errors.forbidden "Cannot kick an admin")
      else .ok (removeMember userId communityId db)
  else .error (Errors.forbidden "Only admins or moderators can kick members")

/-- `KickMemberCommandHandler`. -/
def kickMember (adminId userId communityId : ℕ) : Handler :=
  require (.community communityId) (Errors.notFound "Community") fun _ =>
  require (.user adminId) (Errors.notFound "User") fun _ =>
  require (.user userId) (Errors.notFound "User") fun _ =>
  executeInTransaction (kickMemberBody adminId userId communityId) returns

/-- The transaction of a deleted community: its posts, its members, itself. -/
def deleteCommunityBody (communityId : ℕ) (db : Store) : Except AppError Store :=
  match db.doc (.community communityId) with
  | none => .error (Errors.notFound "Community")
  | some _ =>
    let db := deletePostGraph (findPostIdsByCommunity communityId db) db
    let db := db.deleteMany (membersOf communityId)
    let db := db.delete (.community communityId)
    .ok (db.updateMany (onUsers fun _ => pullJoinedCommunity communityId))

/-- `DeleteCommunityCommandHandler`: the role is read outside the transaction. -/
def deleteCommunity (userId communityId : ℕ) : Handler :=
  require (.community communityId) (Errors.notFound "Community") fun _ =>
  require (.user userId) (Errors.notFound "User") fun _ =>
  .read fun db =>
    if (db.doc (.member communityId userId)).any fun m : Member => m.role == .admin then
      executeInTransaction (deleteCommunityBody communityId) returns
    else throws (Errors.forbidden "Only community admins can delete the community")

/-- `acquireForMutation` -/
def acquireForMutation (id : ℕ) (db : Store) : Except AppError Store :=
  match db.doc (.conversation id) with
  | some (c : Conversation) =>
    .ok (db.put (.conversation id) ({ c with version := c.version + 1 } : Conversation))
  | none => .error (Errors.notFound "Conversation")

/-- The key of two participants, in either order. -/
def buildParticipantHash (first second : ℕ) : ParticipantHash :=
  .of (min first second) (max first second)

/-- The identifiers of the conversations with a participant hash. -/
def findByParticipantHash (hash : ParticipantHash) (db : Store) : Option ℕ :=
  findOne ((db.find (conversations fun _ c => c.participantHash == hash)).biUnion fun
    | .conversation id => {id}
    | _ => ∅)

/-- Store a direct conversation; the hash is unique. -/
def createConversation (id first second : ℕ) (db : Store) : Except AppError Store :=
  match findByParticipantHash (buildParticipantHash first second) db with
  | some _ => .error Errors.duplicateKey
  | none =>
    create (.conversation id)
      ({ participants := [first, second], departedParticipants := []
         participantHash := buildParticipantHash first second
         isGroup := false, isLocked := false, isClosed := false, version := 0 } : Conversation) db

/-- `InitiateConversationCommandHandler`: find a conversation or create one, then acquire it. -/
def initiateConversation (id userId recipientId : ℕ) : Handler :=
  if userId = recipientId then
    throws (Errors.validation "You cannot start a conversation with yourself")
  else
    require (.user recipientId) (Errors.notFound "User") fun recipient : User =>
    if recipient.isBanned then throws (Errors.notFound "User")
    else
      require (.user userId) (Errors.notFound "User") fun _ =>
      .read fun db =>
        match findByParticipantHash (buildParticipantHash userId recipientId) db with
        | some conversation => executeInTransaction (acquireForMutation conversation) returns
        | none =>
          executeInTransaction (createConversation id userId recipientId) <|
          executeInTransaction (acquireForMutation id) returns

/-- The conversation that a message goes to is acquired, or created for its recipient. -/
def resolveConversation (id senderId : ℕ) (conversationId recipientId : Option ℕ) (db : Store) :
    Except AppError (ℕ × Store) :=
  match conversationId, recipientId with
  | some conversation, _ => (acquireForMutation conversation db).map (conversation, ·)
  | none, none => .error (Errors.validation "Recipient is required")
  | none, some recipient =>
    match db.doc (.user recipient) with
    | none => .error (Errors.notFound "User")
    | some (u : User) =>
      if u.isBanned then .error (Errors.notFound "User")
      else match findByParticipantHash (buildParticipantHash senderId recipient) db with
        | some conversation => (acquireForMutation conversation db).map (conversation, ·)
        | none => (createConversation id senderId recipient db).map (id, ·)

/-- The transaction of a message: its conversation is found or created, then written. -/
def sendMessageBody (id senderId : ℕ) (conversationId recipientId : Option ℕ) (db : Store) :
    Except AppError Store :=
  match resolveConversation id senderId conversationId recipientId db with
  | .error error => .error error
  | .ok (conversation, db) =>
    match db.doc (.conversation conversation) with
    | none => .error (Errors.notFound "Conversation")
    | some (c : Conversation) =>
      if senderId ∉ c.participants then
        .error (Errors.forbidden "You do not have access to this conversation")
      else if c.isLocked then .error (Errors.forbidden "Conversation locked by admin")
      else if c.isClosed then
        .error (Errors.validation
          "This conversation is closed because a participant is unavailable")
      else .ok db

/-- `SendMessageCommandHandler`. -/
def sendMessage (id senderId : ℕ) (conversationId recipientId : Option ℕ) : Handler :=
  require (.user senderId) (Errors.notFound "User") fun _ =>
  if conversationId = none ∧ recipientId = none then
    throws (Errors.validation "Recipient is required when no conversation is provided")
  else if conversationId = none ∧ recipientId = some senderId then
    throws (Errors.validation "You cannot start a conversation with yourself")
  else executeInTransaction (sendMessageBody id senderId conversationId recipientId) returns

/-- The commands that write users, follows, posts, comments, likes, communities or conversations. -/
inductive Command
  | promoteToAdmin (userId : ℕ)
  | unbanUser (userId : ℕ)
  | demoteFromAdmin (adminId : Option ℕ) (userId : ℕ)
  | banUser (natural : List ℕ) (adminId userId : ℕ)
  | deleteUser (natural : List ℕ) (requestedBy : Option ℕ) (userId : ℕ)
  | setFollowState (followerId followeeId : ℕ) (shouldFollow : Bool)
  | createComment (id userId postId : ℕ) (parentId : Option ℕ)
  | deleteComment (userId commentId : ℕ)
  | likeComment (userId commentId : ℕ)
  | likeActionByPublicId (userId postId : ℕ)
  | repostPost (id userId target : ℕ)
  | unrepostPost (userId target : ℕ)
  | createPost (id userId : ℕ) (communityId : Option ℕ) (uploaded : Bool)
  | deletePost (requesterId postId : ℕ)
  | createCommunity (id userId now : ℕ)
  | joinCommunity (userId communityId now : ℕ)
  | leaveCommunity (userId communityId : ℕ)
  | kickMember (adminId userId communityId : ℕ)
  | deleteCommunity (userId communityId : ℕ)
  | initiateConversation (id userId recipientId : ℕ)
  | sendMessage (id senderId : ℕ) (conversationId recipientId : Option ℕ)
  deriving DecidableEq, Repr

/-- The handler of a command. -/
def Command.handler : Command → Handler
  | promoteToAdmin userId => Social.promoteToAdmin userId
  | unbanUser userId => Social.unbanUser userId
  | demoteFromAdmin adminId userId => Social.demoteFromAdmin adminId userId
  | banUser natural adminId userId => Social.banUser natural adminId userId
  | deleteUser natural requestedBy userId => Social.deleteUser natural requestedBy userId
  | setFollowState followerId followeeId shouldFollow =>
    Social.setFollowState followerId followeeId shouldFollow
  | createComment id userId postId parentId => Social.createComment id userId postId parentId
  | deleteComment userId commentId => Social.deleteComment userId commentId
  | likeComment userId commentId => Social.likeComment userId commentId
  | likeActionByPublicId userId postId => Social.likeActionByPublicId userId postId
  | repostPost id userId target => Social.repostPost id userId target
  | unrepostPost userId target => Social.unrepostPost userId target
  | createPost id userId communityId uploaded => Social.createPost id userId communityId uploaded
  | deletePost requesterId postId => Social.deletePost requesterId postId
  | createCommunity id userId now => Social.createCommunity id userId now
  | joinCommunity userId communityId now => Social.joinCommunity userId communityId now
  | leaveCommunity userId communityId => Social.leaveCommunity userId communityId
  | kickMember adminId userId communityId => Social.kickMember adminId userId communityId
  | deleteCommunity userId communityId => Social.deleteCommunity userId communityId
  | initiateConversation id userId recipientId =>
    Social.initiateConversation id userId recipientId
  | sendMessage id senderId conversationId recipientId =>
    Social.sendMessage id senderId conversationId recipientId

/-- The handlers on one database. -/
def runtime : Runtime Key Doc Command AppError Unit where
  program := Command.handler
  serial := serial
  taken := Errors.duplicateKey
  conflict := Errors.database "Transaction failed"

/-- The store and the running commands. -/
abbrev SocialWorld := World Key Doc Command AppError Unit

end Ascendance.Social
