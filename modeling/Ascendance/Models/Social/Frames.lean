import Ascendance.Models.Social.Effects

/-!
# The collections that a command writes

Each transaction changes documents of a few collections and leaves the others alone.
-/

namespace Ascendance.Social

open Ascendance.Core ContentCleanupService AccountLifecycleService

/-- The collections of the store. -/
inductive Collection
  | guards
  | users
  | follows
  | posts
  | comments
  | postLikes
  | commentLikes
  | communities
  | members
  | conversations
  deriving DecidableEq, Repr

/-- The collection of a key. -/
def Key.collection : Key → Collection
  | .adminMutationGuard => .guards
  | .user _ => .users
  | .follow _ _ => .follows
  | .post _ => .posts
  | .comment _ => .comments
  | .postLike _ _ => .postLikes
  | .commentLike _ _ => .commentLikes
  | .community _ => .communities
  | .member _ _ => .members
  | .conversation _ => .conversations

attribute [simp] Key.collection

/-- Only documents of the listed collections have changed. -/
def Confined (C : List Collection) (db after : Store) : Prop :=
  ∀ k, k.collection ∉ C → after.doc k = db.doc k

namespace Confined

variable {C C' : List Collection} {db db' db'' : Store}

/-- Nothing changes from a store to itself. -/
theorem refl (db : Store) : Confined C db db := fun _ _ => rfl

/-- Two confined changes are confined. -/
theorem trans (h : Confined C db db') (h' : Confined C db' db'') : Confined C db db'' :=
  fun k hk => (h' k hk).trans (h k hk)

/-- A change that is confined to some collections is confined to more. -/
theorem mono (hsub : C ⊆ C') (h : Confined C db db') : Confined C' db db' :=
  fun k hk => h k fun hmem => hk (hsub hmem)

/-- Inserting a document is confined to its collection. -/
theorem put {k : Key} (d : Doc k) (h : k.collection ∈ C) : Confined C db (db.put k d) :=
  fun _ hj => Database.doc_put_ne db d fun he => hj (he ▸ h)

/-- Deleting a document is confined to its collection. -/
theorem delete {k : Key} (h : k.collection ∈ C) : Confined C db (db.delete k) :=
  fun _ hj => Database.doc_delete_ne db fun he => hj (he ▸ h)

/-- Updating a document is confined to its collection. -/
theorem update {k : Key} {f : Doc k → Doc k} (h : k.collection ∈ C) :
    Confined C db (db.update k f) :=
  fun _ hj => Database.doc_update_ne db f fun he => hj (he ▸ h)

/-- A deletion that matches in some collections only is confined to them. -/
theorem deleteMany {p : ∀ k, Doc k → Bool} (h : ∀ k d, k.collection ∉ C → p k d = false) :
    Confined C db (db.deleteMany p) := by
  intro k hk
  rw [Database.doc_deleteMany]
  simp [h k _ hk]

/-- An update that changes some collections only is confined to them. -/
theorem updateMany {f : ∀ k, Doc k → Doc k} (h : ∀ k d, k.collection ∉ C → f k d = d) :
    Confined C db (db.updateMany f) := by
  intro k hk
  rw [Database.doc_updateMany]
  cases db.doc k <;> simp [h k _ hk]

/-- Creating a document is confined to its collection. -/
theorem create {k : Key} {d : Doc k} {after : Store} (hok : create k d db = .ok after)
    (h : k.collection ∈ C) : Confined C db after := by
  unfold Social.create at hok
  split at hok
  · rw [← Except.ok.inj hok]
    exact put d h
  · cases hok

private theorem create_map {k : Key} {d : Doc k} {f : Store → Store} {after : Store}
    (hok : (Social.create k d db).map f = .ok after) (h : k.collection ∈ C)
    (hf : ∀ db', Confined C db' (f db')) : Confined C db after := by
  obtain ⟨-, rfl⟩ := create_map_eq_ok.mp hok
  exact (put d h).trans (hf _)

end Confined

section Outside

variable {C : List Collection} {k : Key} {d : Doc k}

/-- A condition on follows matches nothing else. -/
theorem follows_outside {p : ℕ → ℕ → Bool} (hcs : .follows ∈ C) (hk : k.collection ∉ C) :
    follows p k d = false := by
  cases k <;> first | rfl | exact absurd hcs hk

/-- A condition on posts matches nothing else. -/
theorem posts_outside {p : ℕ → Post → Bool} (hcs : .posts ∈ C) (hk : k.collection ∉ C) :
    posts p k d = false := by
  cases k <;> first | rfl | exact absurd hcs hk

/-- A condition on comments matches nothing else. -/
theorem comments_outside {p : ℕ → Comment → Bool} (hcs : .comments ∈ C) (hk : k.collection ∉ C) :
    comments p k d = false := by
  cases k <;> first | rfl | exact absurd hcs hk

/-- A condition on likes of posts matches nothing else. -/
theorem postLikes_outside {p : ℕ → ℕ → Bool} (hcs : .postLikes ∈ C) (hk : k.collection ∉ C) :
    postLikes p k d = false := by
  cases k <;> first | rfl | exact absurd hcs hk

/-- A condition on likes of comments matches nothing else. -/
theorem commentLikes_outside {p : ℕ → ℕ → Bool} (hcs : .commentLikes ∈ C) (hk : k.collection ∉ C) :
    commentLikes p k d = false := by
  cases k <;> first | rfl | exact absurd hcs hk

/-- A condition on members matches nothing else. -/
theorem members_outside {p : ℕ → ℕ → Member → Bool} (hcs : .members ∈ C) (hk : k.collection ∉ C) :
    members p k d = false := by
  cases k <;> first | rfl | exact absurd hcs hk

/-- A change of users changes nothing else. -/
theorem onUsers_outside {f : ℕ → User → User} (hcs : .users ∈ C) (hk : k.collection ∉ C) :
    onUsers f k d = d := by
  cases k <;> first | rfl | exact absurd hcs hk

/-- A change of posts changes nothing else. -/
theorem onPosts_outside {f : ℕ → Post → Post} (hcs : .posts ∈ C) (hk : k.collection ∉ C) :
    onPosts f k d = d := by
  cases k <;> first | rfl | exact absurd hcs hk

/-- A change of comments changes nothing else. -/
theorem onComments_outside {f : ℕ → Comment → Comment} (hcs : .comments ∈ C)
    (hk : k.collection ∉ C) :
    onComments f k d = d := by
  cases k <;> first | rfl | exact absurd hcs hk

/-- A change of communities changes nothing else. -/
theorem onCommunities_outside {f : ℕ → Community → Community} (hcs : .communities ∈ C)
    (hk : k.collection ∉ C) :
    onCommunities f k d = d := by
  cases k <;> first | rfl | exact absurd hcs hk

private theorem onConversations_outside {f : ℕ → Conversation → Conversation}
    (hcs : .conversations ∈ C) (hk : k.collection ∉ C) :
    onConversations f k d = d := by
  cases k <;> first | rfl | exact absurd hcs hk

end Outside

/-- Touching the guard writes the guard alone. -/
theorem touch_confined {db after : Store} (h : AdminRemovalGuardService.touch db = .ok after) :
    Confined [.guards] db after := by
  unfold AdminRemovalGuardService.touch at h
  split at h
  · rw [← Except.ok.inj h]
    exact .put _ (by simp)
  · cases h

/-- A demotion touches the guard, then takes the flag from the user. -/
theorem demoteFromAdminBody_eq {adminId userId : ℕ} {db after : Store}
    (h : demoteFromAdminBody adminId userId db = .ok after) :
    ∃ db', AdminRemovalGuardService.touch db = .ok db' ∧
      after = db'.update (.user userId) fun u : User => { u with isAdmin := false } := by
  unfold demoteFromAdminBody at h
  split at h
  · cases h
  split at h
  · cases h
  split at h
  · cases h
  split at h
  · cases h
  next db' htouch =>
  split at h
  · cases h
  · exact ⟨db', htouch, (Except.ok.inj h).symm⟩

/-- A demotion writes guards and users. -/
theorem demoteFromAdminBody_confined {adminId userId : ℕ} {db after : Store}
    (h : demoteFromAdminBody adminId userId db = .ok after) :
    Confined [.guards, .users] db after := by
  obtain ⟨db', htouch, rfl⟩ := demoteFromAdminBody_eq h
  exact .trans ((touch_confined htouch).mono (by simp)) (.update (by simp))

/-- Both users' counters follow a follow. -/
def countFollow (followerId followeeId : ℕ) (increment : ℤ) (db : Store) : Store :=
  updateFollowerCount followeeId increment (updateFollowingCount followerId increment db)

/-- Counting a follow writes users. -/
theorem countFollow_confined (followerId followeeId : ℕ) (increment : ℤ) (db : Store) :
    Confined [.users] db (countFollow followerId followeeId increment db) :=
  .trans (.update (by simp)) (.update (by simp))

/-- A follow is inserted or deleted, and counted. -/
theorem setFollowStateBody_eq {followerId followeeId : ℕ} {shouldFollow : Bool} {db after : Store}
    (h : setFollowStateBody followerId followeeId shouldFollow db = .ok after) :
    (shouldFollow = true ∧ db.doc (.follow followerId followeeId) = none ∧
      after = countFollow followerId followeeId 1 (db.put (.follow followerId followeeId) ())) ∨
    (shouldFollow = false ∧ (∃ d, db.doc (.follow followerId followeeId) = some d) ∧
      after = countFollow followerId followeeId (-1)
        (db.delete (.follow followerId followeeId))) := by
  unfold setFollowStateBody addFollow removeFollow at h
  split at h
  · next hfollow =>
    split at h
    · cases h
    · next hfree => exact .inl ⟨hfollow, hfree, (Except.ok.inj h).symm⟩
  · next hfollow =>
    split at h
    · next d hd => exact .inr ⟨by simpa using hfollow, ⟨d, hd⟩, (Except.ok.inj h).symm⟩
    · cases h

/-- Setting a follow writes follows and users. -/
theorem setFollowStateBody_confined {followerId followeeId : ℕ} {shouldFollow : Bool}
    {db after : Store} (h : setFollowStateBody followerId followeeId shouldFollow db = .ok after) :
    Confined [.follows, .users] db after := by
  rcases setFollowStateBody_eq h with ⟨_, _, rfl⟩ | ⟨_, _, rfl⟩
  · exact .trans (.put _ (by simp)) ((countFollow_confined _ _ _ _).mono (by simp))
  · exact .trans (.delete (by simp)) ((countFollow_confined _ _ _ _).mono (by simp))

/-- Creating a community writes communities, members and users. -/
theorem createCommunityBody_confined {id userId now : ℕ} {db after : Store}
    (h : createCommunityBody id userId now db = .ok after) :
    Confined [.communities, .members, .users] db after :=
  .create_map h (by simp) fun _ => .trans (.put _ (by simp)) (.update (by simp))

/-- Joining a community writes communities, members and users. -/
theorem joinCommunityBody_confined {userId communityId now : ℕ} {db after : Store}
    (h : joinCommunityBody userId communityId now db = .ok after) :
    Confined [.communities, .members, .users] db after :=
  .create_map h (by simp) fun _ => .trans (.update (by simp)) (.update (by simp))

/-- Removing a member writes communities, members and users. -/
theorem removeMember_confined (userId communityId : ℕ) (db : Store) :
    Confined [.communities, .members, .users] db (removeMember userId communityId db) :=
  .trans (.trans (.delete (by simp)) (.update (by simp))) (.update (by simp))

/-- Who leaves is a member, and not the last administrator. -/
theorem leaveCommunityBody_eq {userId communityId : ℕ} {db after : Store}
    (h : leaveCommunityBody userId communityId db = .ok after) :
    ∃ m : Member, db.doc (.member communityId userId) = some m ∧
      (m.role = .admin → 1 < db.count (membersWithRole communityId .admin)) ∧
      after = removeMember userId communityId db := by
  unfold leaveCommunityBody at h
  split at h
  · cases h
  next m hm =>
  split at h
  · cases h
  · next hadmin =>
    refine ⟨m, hm, fun hrole => ?_, (Except.ok.inj h).symm⟩
    have hcount := not_and.mp hadmin hrole
    omega

/-- Who is removed is a member, and no administrator. -/
theorem kickMemberBody_eq {adminId userId communityId : ℕ} {db after : Store}
    (h : kickMemberBody adminId userId communityId db = .ok after) :
    ∃ m : Member, db.doc (.member communityId userId) = some m ∧ m.role ≠ .admin ∧
      after = removeMember userId communityId db := by
  unfold kickMemberBody at h
  split at h
  · split at h
    · cases h
    next m hm =>
    split at h
    · cases h
    · next hrole => exact ⟨m, hm, hrole, (Except.ok.inj h).symm⟩
  · cases h

/-- Acquiring a conversation writes conversations. -/
theorem acquireForMutation_confined {id : ℕ} {db after : Store}
    (h : acquireForMutation id db = .ok after) : Confined [.conversations] db after := by
  unfold acquireForMutation at h
  split at h
  · rw [← Except.ok.inj h]
    exact .put _ (by simp)
  · cases h

/-- Creating a conversation writes conversations. -/
theorem createConversation_confined {id first second : ℕ} {db after : Store}
    (h : createConversation id first second db = .ok after) :
    Confined [.conversations] db after := by
  unfold createConversation at h
  split at h
  · cases h
  · exact .create h (by simp)

/-- Sending a message writes conversations. -/
theorem sendMessageBody_confined {id senderId : ℕ} {conversationId recipientId : Option ℕ}
    {db after : Store} (h : sendMessageBody id senderId conversationId recipientId db = .ok after) :
    Confined [.conversations] db after := by
  obtain ⟨conversation, hresolve⟩ := sendMessageBody_cases h
  rcases resolveConversation_cases hresolve with hacquire | ⟨_, _, _, _, _, _, hcreate⟩
  · exact acquireForMutation_confined hacquire
  · exact createConversation_confined hcreate

/-- Deleting a graph writes posts, comments and their likes. -/
theorem deleteGraph_confined (graph : Finset Key) (db : Store) :
    Confined [.commentLikes, .comments, .postLikes, .posts] db (deleteGraph graph db) := by
  exact .trans (.trans (.trans (.deleteMany fun _ _ => commentLikes_outside (by simp))
    (.deleteMany fun _ _ => comments_outside (by simp)))
    (.deleteMany fun _ _ => postLikes_outside (by simp)))
    (.deleteMany fun _ _ => posts_outside (by simp))

/-- Deleting posts writes these, users and communities. -/
theorem deletePostGraph_confined (roots : Finset Key) (db : Store) :
    Confined [.commentLikes, .comments, .postLikes, .posts, .users, .communities] db
      (deletePostGraph roots db) := by
  unfold deletePostGraph
  dsimp only
  split
  · exact .refl db
  · exact .trans (.trans (.trans ((deleteGraph_confined _ _).mono (by simp))
      (.updateMany fun _ _ => onPosts_outside (by simp)))
      (.updateMany fun _ _ => onUsers_outside (by simp)))
      (.updateMany fun _ _ => onCommunities_outside (by simp))

/-- Counting a comment touches posts and comments only. -/
private theorem countComment_confined (postId : ℕ) (parentId : Option ℕ) (db : Store) :
    Confined [.posts, .comments] db (countComment postId parentId db) := by
  cases parentId with
  | none => exact .update (by simp)
  | some parent => exact .trans (.update (by simp)) (.update (by simp))

/-- Creating a comment writes posts and comments. -/
theorem createCommentBody_confined {id postId userId : ℕ} {parentId : Option ℕ} {depth : ℕ}
    {db after : Store} (h : createCommentBody id postId userId parentId depth db = .ok after) :
    Confined [.posts, .comments] db after :=
  .create_map h (by simp) fun _ => countComment_confined _ _ _

/-- Deleting a comment writes posts, comments and their likes. -/
theorem deleteCommentBody_confined (id postId : ℕ) (parentId : Option ℕ) (db : Store) :
    Confined [.commentLikes, .comments, .posts] db (deleteCommentBody id postId parentId db) := by
  have hlikes :
      Confined [.commentLikes, .comments, .posts] db (db.deleteMany (likesOfComment id)) :=
    .deleteMany fun _ _ => commentLikes_outside (by simp)
  have hposts : ∀ db : Store, Confined [.commentLikes, .comments, .posts] db
      (recomputePostCommentCounts {.post postId} db) :=
    fun _ => .updateMany fun _ _ => onPosts_outside (by simp)
  unfold deleteCommentBody
  dsimp only
  split
  · exact hlikes.trans (.update (by simp))
  · cases parentId with
    | none => exact (hlikes.trans (.delete (by simp))).trans (hposts _)
    | some parent =>
      exact ((hlikes.trans (.delete (by simp))).trans (hposts _)).trans
        (.updateMany fun _ _ => onComments_outside (by simp))

/-- Liking a comment writes comments and their likes. -/
theorem likeCommentBody_confined (commentId userId : ℕ) (db : Store) :
    Confined [.commentLikes, .comments] db (likeCommentBody commentId userId db) := by
  unfold likeCommentBody
  split
  · exact .trans (.delete (by simp)) (.update (by simp))
  · exact .trans (.put _ (by simp)) (.update (by simp))

/-- Liking a post writes posts and their likes. -/
theorem likePostBody_confined (postId userId : ℕ) (db : Store) :
    Confined [.postLikes, .posts] db (likePostBody postId userId db) := by
  unfold likePostBody
  split
  · exact .trans (.delete (by simp)) (.update (by simp))
  · exact .trans (.put _ (by simp)) (.update (by simp))

/-- A repost as it is stored. -/
def Post.repostFor (user target : ℕ) : Post :=
  { Post.new user with type := .repost, repostOf := some target }

/-- A repost is inserted under a new key, and counted. -/
theorem createRepostBody_eq {id userId target : ℕ} {db after : Store}
    (h : createRepostBody id userId target db = .ok after) :
    db.doc (.post id) = none ∧
      after = countRepost userId target (db.put (.post id) (Post.repostFor userId target)) := by
  unfold createRepostBody at h
  split at h
  · cases h
  · obtain ⟨hfree, rfl⟩ := create_map_eq_ok.mp h
    exact ⟨hfree, rfl⟩

/-- Reposting writes posts and users. -/
theorem createRepostBody_confined {id userId target : ℕ} {db after : Store}
    (h : createRepostBody id userId target db = .ok after) :
    Confined [.posts, .users] db after := by
  obtain ⟨-, rfl⟩ := createRepostBody_eq h
  exact .trans (.put _ (by simp)) (.trans (.update (by simp)) (.update (by simp)))

/-- The counter that an activated post increments, where its document is still found. -/
def countPost (userId : ℕ) (communityId : Option ℕ) (db : Store) : Store :=
  match communityId with
  | none => db.update (.user userId) fun u : User => { u with postCount := u.postCount + 1 }
  | some community =>
    db.update (.community community) fun c : Community => { c with postCount := c.postCount + 1 }

/-- Counting a post writes users and communities. -/
theorem countPost_confined (userId : ℕ) (communityId : Option ℕ) (db : Store) :
    Confined [.users, .communities] db (countPost userId communityId db) := by
  cases communityId <;> exact .update (by simp)

/-- A pending post becomes active, and is counted. -/
theorem activatePendingPostBody_eq {id userId : ℕ} {communityId : Option ℕ} {db after : Store}
    (h : activatePendingPostBody id userId communityId db = .ok after) :
    ∃ p : Post, db.doc (.post id) = some p ∧ p.status = some .pending ∧
      after = countPost userId communityId
        (db.update (.post id) fun p : Post => { p with status := some .active }) := by
  unfold activatePendingPostBody at h
  split at h
  · cases h
  next p hp =>
  split at h
  · next hpending =>
    cases communityId <;> exact ⟨p, hp, hpending, (Except.ok.inj h).symm⟩
  · cases h

/-- A post that is there is deleted with its graph. -/
theorem deletePostBody_eq {requesterId postId : ℕ} {db after : Store}
    (h : deletePostBody requesterId postId db = .ok after) :
    (∃ p : Post, db.doc (.post postId) = some p) ∧ after = deletePostGraph {.post postId} db := by
  unfold deletePostBody at h
  split at h
  · cases h
  next p hp =>
  split at h
  · cases h
  split at h
  · cases h
  split at h
  · exact ⟨⟨p, hp⟩, (Except.ok.inj h).symm⟩
  · cases h

/-- What is left to do for a community when its posts are gone. -/
def removeCommunity (communityId : ℕ) (db : Store) : Store :=
  ((db.deleteMany (membersOf communityId)).delete (.community communityId)).updateMany
    (onUsers fun _ => pullJoinedCommunity communityId)

/-- Removing a community writes members, communities and users. -/
theorem removeCommunity_confined (communityId : ℕ) (db : Store) :
    Confined [.members, .communities, .users] db (removeCommunity communityId db) :=
  .trans (.trans (.deleteMany fun _ _ => members_outside (by simp)) (.delete (by simp)))
    (.updateMany fun _ _ => onUsers_outside (by simp))

/-- A community that is there is deleted with its posts. -/
theorem deleteCommunityBody_eq {communityId : ℕ} {db after : Store}
    (h : deleteCommunityBody communityId db = .ok after) :
    (∃ c : Community, db.doc (.community communityId) = some c) ∧
      after = removeCommunity communityId
        (deletePostGraph (findPostIdsByCommunity communityId db) db) := by
  unfold deleteCommunityBody at h
  split at h
  · cases h
  · next c hc => exact ⟨⟨c, hc⟩, (Except.ok.inj h).symm⟩

/-- A purge writes the guard first when the user is an active administrator. -/
theorem purgeBody_eq {natural : List ℕ} {action : AccountLifecycleAction} {userId : ℕ}
    {db after : Store} (h : purgeBody natural action userId db = .ok after) :
    purgeUser natural action userId db = .ok after ∨
      ∃ db', AdminRemovalGuardService.touch db = .ok db' ∧
        purgeUser natural action userId db' = .ok after := by
  unfold purgeBody at h
  split at h
  · cases h
  split at h
  · split at h
    · cases h
    next db' htouch =>
    split at h
    · cases h
    · exact .inr ⟨db', htouch, h⟩
  · exact .inl h

/-- Tombstoning comments writes comments and their likes. -/
theorem tombstoneComments_confined (userId : ℕ) (db : Store) :
    Confined [.commentLikes, .comments] db (tombstoneComments userId db) :=
  .trans (.trans (.deleteMany fun _ _ => commentLikes_outside (by simp))
    (.updateMany fun _ _ => onComments_outside (by simp)))
    (.updateMany fun _ _ => onComments_outside (by simp))

/-- Removing the likes of a user writes posts and their likes. -/
theorem removePostInteractions_confined (userId : ℕ) (db : Store) :
    Confined [.postLikes, .posts] db (removePostInteractions userId db) :=
  .trans (.deleteMany fun _ _ => postLikes_outside (by simp))
    (.updateMany fun _ _ => onPosts_outside (by simp))

/-- Removing relationships touches follows and users only. -/
private theorem removeRelationshipsAndActivity_confined (userId : ℕ) (db : Store) :
    Confined [.follows, .users] db (removeRelationshipsAndActivity userId db) :=
  .trans (.deleteMany fun _ _ => follows_outside (by simp))
    (.updateMany fun _ _ => onUsers_outside (by simp))

/-- Preserving a user writes conversations. -/
theorem preserve_confined (userId : ℕ) (db : Store) :
    Confined [.conversations] db (preserve userId db) :=
  .updateMany fun _ _ => onConversations_outside (by simp)

/-- Finalising an account writes users. -/
theorem finalize_confined (action : AccountLifecycleAction) (userId : ℕ) (db : Store) :
    Confined [.users] db (finalize action userId db) := by
  cases action
  · exact .update (by simp)
  · exact .delete (by simp)

/-- Finalising an account leaves everything but its user alone. -/
theorem finalize_other {userId : ℕ} {db : Store} (action : AccountLifecycleAction) {k : Key}
    (h : k ≠ .user userId) : (finalize action userId db).doc k = db.doc k := by
  cases action with
  | ban => exact Database.doc_update_ne (k := Key.user userId) db _ h
  | delete => exact Database.doc_delete_ne db h

/-- The communities of a user. -/
def joinedBy (userId : ℕ) (db : Store) : Finset ℕ :=
  (db.find (members fun _ user _ => user == userId)).biUnion fun
    | .member community _ => {community}
    | _ => ∅

/-- The communities that a user has created. -/
def createdBy (userId : ℕ) (db : Store) : Finset ℕ :=
  (db.find (communities fun _ c => c.creatorId == userId)).biUnion fun
    | .community id => {id}
    | _ => ∅

/-- What is left to do when the created communities are taken care of. -/
def leaveCommunities (userId : ℕ) (affectedCommunityIds : Finset ℕ) (deletedCommunityIds : List ℕ)
    (db : Store) : Store :=
  let db := db.deleteMany (members fun _ user _ => user == userId)
  let db := db.updateMany (onCommunities fun id c =>
    if id ∈ affectedCommunityIds then { c with memberCount := db.count (membersOf id) } else c)
  db.updateMany (onUsers fun _ u =>
    { u with joinedCommunities := u.joinedCommunities.filter (· ∉ deletedCommunityIds) })

/-- Leaving communities writes members, communities and users. -/
theorem leaveCommunities_confined (userId : ℕ) (affected : Finset ℕ) (deleted : List ℕ)
    (db : Store) :
    Confined [.members, .communities, .users] db (leaveCommunities userId affected deleted db) :=
  .trans (.trans (.deleteMany fun _ _ => members_outside (by simp))
    (.updateMany fun _ _ => onCommunities_outside (by simp)))
    (.updateMany fun _ _ => onUsers_outside (by simp))

/-- The communities of a user are cleaned up one by one, the others are left. -/
theorem communityCleanup_eq {natural : List ℕ} {userId : ℕ} {db after : Store}
    (h : communityCleanup natural userId db = .ok after) :
    ∃ db' deleted,
      cleanupAll natural userId (arrange natural (createdBy userId db)) db = .ok (db', deleted) ∧
      after = leaveCommunities userId
        ((joinedBy userId db ∪ createdBy userId db) \ deleted.toFinset) deleted db' := by
  unfold communityCleanup at h
  dsimp only at h
  split at h
  · cases h
  · next db' deleted hall => exact ⟨db', deleted, hall, (Except.ok.inj h).symm⟩

/-- A created community gets a successor, or goes with its posts and members. -/
theorem cleanupCreated_eq {natural : List ℕ} {userId communityId : ℕ} {db after : Store}
    {deleted : List ℕ} (h : cleanupCreated natural userId communityId db = .ok (after, deleted)) :
    (∃ user, successor natural userId communityId db = some user ∧ deleted = [] ∧
      after = (db.update (.community communityId) fun c : Community =>
        { c with creatorId := user }).update (.member communityId user) fun m : Member =>
          { m with role := .admin }) ∨
    (successor natural userId communityId db = none ∧ deleted = [communityId] ∧
      after = ((deletePostGraph (findPostIdsByCommunity communityId db) db).deleteMany
        (membersOf communityId)).delete (.community communityId)) := by
  unfold cleanupCreated at h
  split at h
  · next user hsuccessor =>
    obtain ⟨rfl, rfl⟩ := Prod.mk.inj (Except.ok.inj h)
    exact .inl ⟨user, hsuccessor, rfl, rfl⟩
  · next hsuccessor =>
    dsimp only at h
    split at h
    · obtain ⟨rfl, rfl⟩ := Prod.mk.inj (Except.ok.inj h)
      exact .inr ⟨hsuccessor, rfl, rfl⟩
    · cases h

/-- A user is purged participant after participant, and finalised. -/
theorem purgeUser_eq {natural : List ℕ} {action : AccountLifecycleAction} {userId : ℕ}
    {db after : Store} (h : purgeUser natural action userId db = .ok after) :
    ∃ db', communityCleanup natural userId (preserve userId
        (removeRelationshipsAndActivity userId (contentCleanup userId db))) = .ok db' ∧
      after = finalize action userId db' := by
  unfold purgeUser at h
  dsimp only at h
  split at h
  · cases h
  · next db' hcommunity => exact ⟨db', hcommunity, (Except.ok.inj h).symm⟩

/-- The loop over the created communities respects what each round respects. -/
theorem cleanupAll_relates {R : Store → Store → Prop} (hrefl : ∀ db, R db db)
    (htrans : ∀ a b c, R a b → R b c → R a c) {natural : List ℕ} {userId : ℕ}
    (hround : ∀ communityId db db' deleted,
      cleanupCreated natural userId communityId db = .ok (db', deleted) → R db db')
    {created deleted : List ℕ} {db db' : Store}
    (h : cleanupAll natural userId created db = .ok (db', deleted)) : R db db' := by
  induction created generalizing db deleted with
  | nil =>
    obtain ⟨rfl, -⟩ := Prod.mk.inj (Except.ok.inj h)
    exact hrefl db
  | cons communityId rest ih =>
    unfold cleanupAll at h
    split at h
    · cases h
    next hfirst =>
    split at h
    · cases h
    next hrest =>
    obtain ⟨rfl, -⟩ := Prod.mk.inj (Except.ok.inj h)
    exact htrans _ _ _ (hround _ _ _ _ hfirst) (ih hrest)

/-- A purge respects what the content clean-ups respect, when the rest does not matter. -/
theorem purgeUser_relates {R : Store → Store → Prop}
    (htrans : ∀ a b c, R a b → R b c → R a c)
    (hconfined : ∀ a b,
      Confined [.follows, .users, .conversations, .communities, .members] a b → R a b)
    (hgraph : ∀ roots db, R db (deletePostGraph roots db))
    (htombstones : ∀ userId db, R db (tombstoneComments userId db))
    (hinteractions : ∀ userId db, R db (removePostInteractions userId db))
    {natural : List ℕ} {action : AccountLifecycleAction} {userId : ℕ} {db after : Store}
    (h : purgeUser natural action userId db = .ok after) : R db after := by
  have hround : ∀ communityId db db' deleted,
      cleanupCreated natural userId communityId db = .ok (db', deleted) → R db db' := by
    intro communityId db db' deleted hround
    rcases cleanupCreated_eq hround with ⟨_, _, _, rfl⟩ | ⟨_, _, rfl⟩
    · exact hconfined _ _ (.trans (.update (by simp)) (.update (by simp)))
    · exact htrans _ _ _ (hgraph _ _) (hconfined _ _ (.trans
        (.deleteMany fun _ _ => members_outside (by simp)) (.delete (by simp))))
  obtain ⟨db', hcommunity, rfl⟩ := purgeUser_eq h
  obtain ⟨db'', deleted, hall, rfl⟩ := communityCleanup_eq hcommunity
  exact htrans _ _ _ (hgraph _ db) (htrans _ _ _ (htombstones userId _)
    (htrans _ _ _ (hinteractions userId _) (htrans _ _ _ (hconfined _ _ (.trans
      ((removeRelationshipsAndActivity_confined userId _).mono (by simp))
      ((preserve_confined userId _).mono (by simp)))) (htrans _ _ _ (cleanupAll_relates
        (fun db => hconfined _ _ (.refl db)) htrans hround hall) (hconfined _ _ (.trans
          ((leaveCommunities_confined _ _ _ _).mono (by simp))
          ((finalize_confined action userId _).mono (by simp))))))))

end Ascendance.Social
