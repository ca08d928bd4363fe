import Ascendance.Core.Isolation

/-!
# The social collections

Users, follows, posts, comments, likes, communities, memberships and direct
conversations are the documents of one database. The key of a document names its
collection and its identifiers; what a unique index covers is part of the key.
-/

namespace Ascendance.Social

open Ascendance.Core

/-- The key of a document. -/
inductive Key
  | adminMutationGuard
  | user (id : ℕ)
  | follow (followerId followeeId : ℕ)
  | post (id : ℕ)
  | comment (id : ℕ)
  | postLike (postId userId : ℕ)
  | commentLike (commentId userId : ℕ)
  | community (id : ℕ)
  | member (communityId userId : ℕ)
  | conversation (id : ℕ)
  deriving DecidableEq, Repr

/-- The guard document; every touch raises its version. -/
structure AdminMutationGuard where
  version : ℕ
  deriving DecidableEq, Repr

/-- A user, by the flags, the counters and the list of communities. -/
structure User where
  isAdmin : Bool
  isBanned : Bool
  followerCount : ℤ
  followingCount : ℤ
  postCount : ℤ
  /-- The communities that the profile lists, newest first. -/
  joinedCommunities : List ℕ
  deriving DecidableEq, Repr

/-- How far a post has been published. -/
inductive PostStatus
  | pending
  | active
  | failed
  deriving DecidableEq, Repr

/-- The kinds of posts. -/
inductive PostType
  | original
  | repost
  deriving DecidableEq, Repr

/-- A post, by its references, its state and its counters. -/
structure Post where
  user : ℕ
  /-- Documents from before the field was introduced have none. -/
  status : Option PostStatus
  type : PostType
  repostOf : Option ℕ
  communityId : Option ℕ
  likesCount : ℤ
  commentsCount : ℤ
  repostCount : ℤ
  deriving DecidableEq, Repr

/-- A comment, by its place, its author and its counters. -/
structure Comment where
  postId : ℕ
  parentId : Option ℕ
  depth : ℕ
  userId : Option ℕ
  isDeleted : Bool
  departedUserKey : Option ℕ
  replyCount : ℤ
  likesCount : ℤ
  deriving DecidableEq, Repr

/-- A community, by its creator and its counters. -/
structure Community where
  creatorId : ℕ
  memberCount : ℤ
  postCount : ℤ
  deriving DecidableEq, Repr

/-- The roles of a member. -/
inductive Role
  | admin
  | moderator
  | member
  deriving DecidableEq, Repr

/-- A membership. -/
structure Member where
  role : Role
  joinedAt : ℕ
  deriving DecidableEq, Repr

/-- The hash of the participants, or the mark of a conversation that one has left. -/
inductive ParticipantHash
  | of (first second : ℕ)
  | departed (conversation user : ℕ)
  deriving DecidableEq, Repr

/-- A conversation, by its participants and its flags. -/
structure Conversation where
  participants : List ℕ
  departedParticipants : List ℕ
  participantHash : ParticipantHash
  isGroup : Bool
  isLocked : Bool
  isClosed : Bool
  /-- The version that `acquireForMutation` increments. -/
  version : ℕ
  deriving DecidableEq, Repr

/-- What is stored under a key. -/
abbrev Doc : Key → Type
  | .adminMutationGuard => AdminMutationGuard
  | .user _ => User
  | .follow _ _ => Unit
  | .post _ => Post
  | .comment _ => Comment
  | .postLike _ _ => Unit
  | .commentLike _ _ => Unit
  | .community _ => Community
  | .member _ _ => Member
  | .conversation _ => Conversation

instance : ∀ k, DecidableEq (Doc k)
  | .adminMutationGuard => inferInstanceAs (DecidableEq AdminMutationGuard)
  | .user _ => inferInstanceAs (DecidableEq User)
  | .follow _ _ => inferInstanceAs (DecidableEq Unit)
  | .post _ => inferInstanceAs (DecidableEq Post)
  | .comment _ => inferInstanceAs (DecidableEq Comment)
  | .postLike _ _ => inferInstanceAs (DecidableEq Unit)
  | .commentLike _ _ => inferInstanceAs (DecidableEq Unit)
  | .community _ => inferInstanceAs (DecidableEq Community)
  | .member _ _ => inferInstanceAs (DecidableEq Member)
  | .conversation _ => inferInstanceAs (DecidableEq Conversation)

/-- The collections of the commands. -/
abbrev Store := Database Key Doc

/-- Identifiers are generated and never used again; keys made of other identifiers may be. -/
def serial : Key → Bool
  | .user _ | .post _ | .comment _ | .community _ | .conversation _ => true
  | _ => false

/-- A condition on users. -/
def users (p : ℕ → User → Bool) : ∀ k, Doc k → Bool
  | .user id, d => p id d
  | _, _ => false

/-- A condition on follows. -/
def follows (p : ℕ → ℕ → Bool) : ∀ k, Doc k → Bool
  | .follow followerId followeeId, _ => p followerId followeeId
  | _, _ => false

/-- A condition on posts. -/
def posts (p : ℕ → Post → Bool) : ∀ k, Doc k → Bool
  | .post id, d => p id d
  | _, _ => false

/-- A condition on comments. -/
def comments (p : ℕ → Comment → Bool) : ∀ k, Doc k → Bool
  | .comment id, d => p id d
  | _, _ => false

/-- A condition on likes of posts. -/
def postLikes (p : ℕ → ℕ → Bool) : ∀ k, Doc k → Bool
  | .postLike postId userId, _ => p postId userId
  | _, _ => false

/-- A condition on likes of comments. -/
def commentLikes (p : ℕ → ℕ → Bool) : ∀ k, Doc k → Bool
  | .commentLike commentId userId, _ => p commentId userId
  | _, _ => false

/-- A condition on communities. -/
def communities (p : ℕ → Community → Bool) : ∀ k, Doc k → Bool
  | .community id, d => p id d
  | _, _ => false

/-- A condition on members. -/
def members (p : ℕ → ℕ → Member → Bool) : ∀ k, Doc k → Bool
  | .member communityId userId, d => p communityId userId d
  | _, _ => false

/-- A condition on conversations. -/
def conversations (p : ℕ → Conversation → Bool) : ∀ k, Doc k → Bool
  | .conversation id, d => p id d
  | _, _ => false

/-- A change of users. -/
def onUsers (f : ℕ → User → User) : ∀ k, Doc k → Doc k
  | .user id, d => f id d
  | _, d => d

/-- A change of posts. -/
def onPosts (f : ℕ → Post → Post) : ∀ k, Doc k → Doc k
  | .post id, d => f id d
  | _, d => d

/-- A change of comments. -/
def onComments (f : ℕ → Comment → Comment) : ∀ k, Doc k → Doc k
  | .comment id, d => f id d
  | _, d => d

/-- A change of communities. -/
def onCommunities (f : ℕ → Community → Community) : ∀ k, Doc k → Doc k
  | .community id, d => f id d
  | _, d => d

/-- A change of conversations. -/
def onConversations (f : ℕ → Conversation → Conversation) : ∀ k, Doc k → Doc k
  | .conversation id, d => f id d
  | _, d => d

section Collections

variable {k : Key}

@[simp] theorem users_user (p : ℕ → User → Bool) (id : ℕ) :
    users p (.user id) = p id := rfl

@[simp] theorem users_of_ne (p : ℕ → User → Bool) (h : ∀ id, k ≠ .user id) :
    users p k = fun _ => false := by
  funext d
  cases k <;> simp_all [users]

@[simp] theorem follows_follow (p : ℕ → ℕ → Bool) (followerId followeeId : ℕ) :
    follows p (.follow followerId followeeId) = fun _ => p followerId followeeId := rfl

@[simp] theorem follows_of_ne (p : ℕ → ℕ → Bool)
    (h : ∀ followerId followeeId, k ≠ .follow followerId followeeId) :
    follows p k = fun _ => false := by
  funext d
  cases k <;> simp_all [follows]

@[simp] theorem posts_post (p : ℕ → Post → Bool) (id : ℕ) :
    posts p (.post id) = p id := rfl

@[simp] theorem posts_of_ne (p : ℕ → Post → Bool) (h : ∀ id, k ≠ .post id) :
    posts p k = fun _ => false := by
  funext d
  cases k <;> simp_all [posts]

@[simp] theorem comments_comment (p : ℕ → Comment → Bool) (id : ℕ) :
    comments p (.comment id) = p id := rfl

@[simp] theorem comments_of_ne (p : ℕ → Comment → Bool) (h : ∀ id, k ≠ .comment id) :
    comments p k = fun _ => false := by
  funext d
  cases k <;> simp_all [comments]

@[simp] theorem postLikes_postLike (p : ℕ → ℕ → Bool) (postId userId : ℕ) :
    postLikes p (.postLike postId userId) = fun _ => p postId userId := rfl

@[simp] theorem postLikes_of_ne (p : ℕ → ℕ → Bool)
    (h : ∀ postId userId, k ≠ .postLike postId userId) :
    postLikes p k = fun _ => false := by
  funext d
  cases k <;> simp_all [postLikes]

@[simp] theorem commentLikes_commentLike (p : ℕ → ℕ → Bool) (commentId userId : ℕ) :
    commentLikes p (.commentLike commentId userId) = fun _ => p commentId userId := rfl

@[simp] theorem commentLikes_of_ne (p : ℕ → ℕ → Bool)
    (h : ∀ commentId userId, k ≠ .commentLike commentId userId) :
    commentLikes p k = fun _ => false := by
  funext d
  cases k <;> simp_all [commentLikes]

@[simp] theorem communities_community (p : ℕ → Community → Bool) (id : ℕ) :
    communities p (.community id) = p id := rfl

@[simp] theorem communities_of_ne (p : ℕ → Community → Bool) (h : ∀ id, k ≠ .community id) :
    communities p k = fun _ => false := by
  funext d
  cases k <;> simp_all [communities]

@[simp] theorem members_member (p : ℕ → ℕ → Member → Bool) (communityId userId : ℕ) :
    members p (.member communityId userId) = p communityId userId := rfl

@[simp] theorem members_of_ne (p : ℕ → ℕ → Member → Bool)
    (h : ∀ communityId userId, k ≠ .member communityId userId) :
    members p k = fun _ => false := by
  funext d
  cases k <;> simp_all [members]

@[simp] theorem conversations_conversation (p : ℕ → Conversation → Bool) (id : ℕ) :
    conversations p (.conversation id) = p id := rfl

@[simp] theorem conversations_of_ne (p : ℕ → Conversation → Bool) (h : ∀ id, k ≠ .conversation id) :
    conversations p k = fun _ => false := by
  funext d
  cases k <;> simp_all [conversations]

@[simp] theorem onUsers_user (f : ℕ → User → User) (id : ℕ) :
    onUsers f (.user id) = f id := rfl

@[simp] theorem onUsers_of_ne (f : ℕ → User → User) (h : ∀ id, k ≠ .user id) :
    onUsers f k = id := by
  funext d
  cases k <;> simp_all [onUsers]

@[simp] theorem onPosts_post (f : ℕ → Post → Post) (id : ℕ) :
    onPosts f (.post id) = f id := rfl

@[simp] theorem onPosts_of_ne (f : ℕ → Post → Post) (h : ∀ id, k ≠ .post id) :
    onPosts f k = id := by
  funext d
  cases k <;> simp_all [onPosts]

@[simp] theorem onComments_comment (f : ℕ → Comment → Comment) (id : ℕ) :
    onComments f (.comment id) = f id := rfl

@[simp] theorem onComments_of_ne (f : ℕ → Comment → Comment) (h : ∀ id, k ≠ .comment id) :
    onComments f k = id := by
  funext d
  cases k <;> simp_all [onComments]

@[simp] theorem onCommunities_community (f : ℕ → Community → Community) (id : ℕ) :
    onCommunities f (.community id) = f id := rfl

@[simp] theorem onCommunities_of_ne (f : ℕ → Community → Community) (h : ∀ id, k ≠ .community id) :
    onCommunities f k = id := by
  funext d
  cases k <;> simp_all [onCommunities]

@[simp] theorem onConversations_conversation (f : ℕ → Conversation → Conversation) (id : ℕ) :
    onConversations f (.conversation id) = f id := rfl

@[simp] theorem onConversations_of_ne (f : ℕ → Conversation → Conversation)
    (h : ∀ id, k ≠ .conversation id) : onConversations f k = id := by
  funext d
  cases k <;> simp_all [onConversations]

end Collections

section Updates

variable (db : Store) (id : ℕ)

/-- An update of one user as an update of many. -/
theorem update_user (f : User → User) :
    db.update (.user id) f = db.updateMany (onUsers fun j d => if j = id then f d else d) := by
  refine Database.ext_doc fun k => ?_
  by_cases hk : k = .user id
  · subst hk
    rw [Database.doc_update_self db (.user id) f, Database.doc_updateMany]
    simp
  · rw [Database.doc_update_ne db f hk, Database.doc_updateMany]
    cases k <;> simp_all

/-- An update of one post as an update of many. -/
theorem update_post (f : Post → Post) :
    db.update (.post id) f = db.updateMany (onPosts fun j d => if j = id then f d else d) := by
  refine Database.ext_doc fun k => ?_
  by_cases hk : k = .post id
  · subst hk
    rw [Database.doc_update_self db (.post id) f, Database.doc_updateMany]
    simp
  · rw [Database.doc_update_ne db f hk, Database.doc_updateMany]
    cases k <;> simp_all

/-- An update of one comment as an update of many. -/
theorem update_comment (f : Comment → Comment) :
    db.update (.comment id) f =
      db.updateMany (onComments fun j d => if j = id then f d else d) := by
  refine Database.ext_doc fun k => ?_
  by_cases hk : k = .comment id
  · subst hk
    rw [Database.doc_update_self db (.comment id) f, Database.doc_updateMany]
    simp
  · rw [Database.doc_update_ne db f hk, Database.doc_updateMany]
    cases k <;> simp_all

/-- An update of one community as an update of many. -/
theorem update_community (f : Community → Community) :
    db.update (.community id) f =
      db.updateMany (onCommunities fun j d => if j = id then f d else d) := by
  refine Database.ext_doc fun k => ?_
  by_cases hk : k = .community id
  · subst hk
    rw [Database.doc_update_self db (.community id) f, Database.doc_updateMany]
    simp
  · rw [Database.doc_update_ne db f hk, Database.doc_updateMany]
    cases k <;> simp_all

end Updates

/-- The names of the errors. -/
inductive ErrorName
  | ValidationError
  | AuthenticationError
  | ForbiddenError
  | NotFoundError
  | DuplicateError
  | ConflictError
  | DatabaseError
  | InternalServerError
  | PostNotFoundError
  | PostAuthorizationError
  | UserNotFoundError
  deriving DecidableEq, Repr

/-- An error as the client is told of it. -/
structure AppError where
  name : ErrorName
  message : String
  deriving DecidableEq, Repr

namespace Errors

/-- The input is not valid. -/
def validation (message : String) : AppError := ⟨.ValidationError, message⟩
/-- Nobody is logged in. -/
def authentication (message : String) : AppError := ⟨.AuthenticationError, message⟩
/-- The user may not do this. -/
def forbidden (message : String) : AppError := ⟨.ForbiddenError, message⟩
/-- A document is not there. -/
def notFound (resourceType : String) : AppError := ⟨.NotFoundError, resourceType ++ " not found"⟩
/-- The document is there already. -/
def duplicate (message : String) : AppError := ⟨.DuplicateError, message⟩
/-- The document has changed in the meantime. -/
def conflict (message : String) : AppError := ⟨.ConflictError, message⟩
/-- The database has failed. -/
def database (message : String) : AppError := ⟨.DatabaseError, message⟩
/-- Something has gone wrong inside. -/
def internal (message : String) : AppError := ⟨.InternalServerError, message⟩

/-- What `handleMongoError` makes of a key that a unique index has. -/
def duplicateKey : AppError := duplicate "Resource already exists (duplicate key)."

end Errors

/-- Store a new document; its key must be free. -/
def create (k : Key) (d : Doc k) (db : Store) : Except AppError Store :=
  match db.doc k with
  | none => .ok (db.put k d)
  | some _ => .error Errors.duplicateKey

/-- Creating a document succeeds exactly under a free key. -/
theorem create_eq_ok {k : Key} {d : Doc k} {db after : Store} :
    create k d db = .ok after ↔ db.doc k = none ∧ db.put k d = after := by
  unfold create
  split <;> simp [*]

/-- What is computed on top of a new document. -/
theorem create_map_eq_ok {k : Key} {d : Doc k} {db after : Store} {f : Store → Store} :
    (create k d db).map f = .ok after ↔ db.doc k = none ∧ f (db.put k d) = after := by
  unfold create
  split
  · next h => simp [Except.map, h]
  · next h => simp [Except.map, h]

end Ascendance.Social
