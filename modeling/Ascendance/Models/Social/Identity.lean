import Ascendance.Core.Links
import Ascendance.Core.Trait
import Ascendance.Models.Social.Frames

/-!
# What documents keep and refer to

A post keeps its author, its kind, its target and its community as long as it is stored, a
comment its post and its parent; follows, likes and memberships are their keys. These fields
name other documents, which have been written, and a reply belongs to the post of its parent.
-/

namespace Ascendance.Social

open Ascendance.Core ContentCleanupService AccountLifecycleService

/-- The fields that nothing changes. -/
abbrev Identity : Key → Type
  | .post _ => ℕ × PostType × Option ℕ × Option ℕ
  | .comment _ => ℕ × Option ℕ
  | _ => Unit

/-- The collections whose documents refer to others. -/
def referring : List Collection :=
  [.posts, .comments, .follows, .postLikes, .commentLikes, .members]

/-- What a document refers to; it never changes. -/
def identity : Trait Key Doc Identity where
  has k := k.collection ∈ referring
  value
    | .post _, p => (p.user, p.type, p.repostOf, p.communityId)
    | .comment _, c => (c.postId, c.parentId)
    | .adminMutationGuard, _ => ()
    | .user _, _ => ()
    | .follow _ _, _ => ()
    | .postLike _ _, _ => ()
    | .commentLike _ _, _ => ()
    | .community _, _ => ()
    | .member _ _, _ => ()
    | .conversation _, _ => ()

/-- The keys that a document names. -/
def Refers : ∀ k, Identity k → Key → Prop
  | .post _, (user, _, repostOf, communityId), o =>
    o = .user user ∨ (∃ target, repostOf = some target ∧ o = .post target) ∨
      ∃ community, communityId = some community ∧ o = .community community
  | .comment _, (postId, parentId), o =>
    o = .post postId ∨ ∃ parent, parentId = some parent ∧ o = .comment parent
  | .follow follower followee, _, o => o = .user follower ∨ o = .user followee
  | .postLike post user, _, o => o = .post post ∨ o = .user user
  | .commentLike comment user, _, o => o = .comment comment ∨ o = .user user
  | .member community user, _, o => o = .community community ∨ o = .user user
  | _, _, _ => False

/-- Documents need what they refer to. -/
def references : Links Key Doc where
  needs k d o := Refers k (identity.value k d) o
  serves _ _ _ := True

/-- The post and the parent of a stored comment. -/
abbrev thread (db : Store) (id : ℕ) : Option (ℕ × Option ℕ) := identity.of db (.comment id)

private theorem serial_of_identity {k : Key} (h : identity.has k) :
    serial k = true ∨ Subsingleton (Identity k) := by
  cases k with
  | post id => exact .inl rfl
  | comment id => exact .inl rfl
  | follow follower followee => exact .inr inferInstance
  | postLike post user => exact .inr inferInstance
  | commentLike comment user => exact .inr inferInstance
  | member community user => exact .inr inferInstance
  | _ => simp [identity, referring] at h

/-- The posts have an identity. -/
theorem identity_post (id : ℕ) : identity.has (.post id) := by simp [identity, referring]

/-- The comments have an identity. -/
theorem identity_comment (id : ℕ) : identity.has (.comment id) := by simp [identity, referring]

/-- Whatever refers to something has an identity. -/
theorem identity_of_refers {k o : Key} {t : Identity k} (h : Refers k t o) : identity.has k := by
  cases k <;> simp_all [identity, referring, Refers]

/-- What a post is, apart from its counters. -/
def Post.content (p : Post) : ℕ × Option PostStatus × PostType × Option ℕ × Option ℕ :=
  (p.user, p.status, p.type, p.repostOf, p.communityId)

/-- Where a comment stands. -/
def Comment.place (c : Comment) : ℕ × Option ℕ := (c.postId, c.parentId)

/-- A trait that counters do not show. -/
class Lasting {τ : Key → Type} (T : Trait Key Doc τ) : Prop where
  referring : ∀ k, T.has k → k.collection ∈ referring
  post : ∀ id (p q : Post), q.content = p.content → T.value (.post id) q = T.value (.post id) p
  comment : ∀ id (c d : Comment), d.place = c.place →
    T.value (.comment id) d = T.value (.comment id) c
  other : ∀ k, k.collection ∉ [Collection.posts, .comments] → Subsingleton (τ k)

instance : Lasting identity where
  referring := fun _ hk => hk
  post := by
    intro id p q h
    simp only [Post.content, Prod.mk.injEq] at h
    simp [identity, h]
  comment := fun _ _ _ h => h
  other := by
    intro k hk
    cases k with
    | post id => simp at hk
    | comment id => simp at hk
    | _ => infer_instance

section Lasting

variable {τ : Key → Type} {T : Trait Key Doc τ} [Lasting T]

/-- A change outside the referring collections keeps the trait. -/
theorem Confined.stays {C : List Collection} {db after : Store} (h : Confined C db after)
    (hcs : ∀ c ∈ C, c ∉ referring) : T.Stays db after :=
  .of_doc_eq fun k hk => h k fun hmem => hcs _ hmem (Lasting.referring k hk)

/-- An update of counters. -/
theorem stays_updateMany {db : Store} {f : ∀ k, Doc k → Doc k}
    (hposts : ∀ id (p : Post), Post.content (f (.post id) p) = p.content)
    (hcomments : ∀ id (c : Comment), Comment.place (f (.comment id) c) = c.place) :
    T.Stays db (db.updateMany f) := by
  refine .updateMany fun k d _ => ?_
  cases k with
  | post id => exact Lasting.post id d _ (hposts id d)
  | comment id => exact Lasting.comment id d _ (hcomments id d)
  | _ => exact (Lasting.other (T := T) _ (by simp)).elim _ _

/-- A change of posts that spares their content keeps the trait. -/
theorem stays_onPosts {db : Store} {f : ℕ → Post → Post}
    (h : ∀ id p, (f id p).content = p.content) :
    T.Stays db (db.updateMany (onPosts f)) := stays_updateMany h fun _ _ => rfl

/-- A change of comments that spares their place keeps the trait. -/
theorem stays_onComments {db : Store} {f : ℕ → Comment → Comment}
    (h : ∀ id c, (f id c).place = c.place) :
    T.Stays db (db.updateMany (onComments f)) := stays_updateMany (fun _ _ => rfl) h

/-- A change of users keeps the trait. -/
theorem stays_onUsers {db : Store} {f : ℕ → User → User} :
    T.Stays db (db.updateMany (onUsers f)) := stays_updateMany (fun _ _ => rfl) fun _ _ => rfl

/-- A change of communities keeps the trait. -/
theorem stays_onCommunities {db : Store} {f : ℕ → Community → Community} :
    T.Stays db (db.updateMany (onCommunities f)) :=
  stays_updateMany (fun _ _ => rfl) fun _ _ => rfl

/-- An update of a post that spares its content keeps the trait. -/
theorem stays_updatePost {db : Store} {id : ℕ} {f : Post → Post}
    (h : ∀ p, (f p).content = p.content) : T.Stays db (db.update (.post id) f) :=
  .update (k := Key.post id) fun p => Lasting.post id p _ (h p)

/-- An update of a comment that spares its place keeps the trait. -/
theorem stays_updateComment {db : Store} {id : ℕ} {f : Comment → Comment}
    (h : ∀ c, (f c).place = c.place) : T.Stays db (db.update (.comment id) f) :=
  .update (k := Key.comment id) fun c => Lasting.comment id c _ (h c)

/-- An update of another document keeps the trait. -/
theorem stays_updateOther {db : Store} {k : Key} {f : Doc k → Doc k}
    (h : k.collection ∉ [Collection.posts, .comments]) : T.Stays db (db.update k f) :=
  .update fun _ => (Lasting.other (T := T) k h).elim _ _

/-- Counting comments of posts keeps the trait. -/
theorem stays_recomputePostCommentCounts (ids : Finset Key) (db : Store) :
    T.Stays db (recomputePostCommentCounts ids db) :=
  stays_onPosts fun _ _ => by split <;> rfl

/-- Counting replies to comments keeps the trait. -/
theorem stays_recomputeCommentReplyCounts (ids : Finset Key) (db : Store) :
    T.Stays db (recomputeCommentReplyCounts ids db) :=
  stays_onComments fun _ _ => by split <;> rfl

/-- Deleting posts keeps the trait of what is left. -/
theorem stays_deletePostGraph (roots : Finset Key) (db : Store) :
    T.Stays db (deletePostGraph roots db) := by
  unfold deletePostGraph
  dsimp only
  split
  · exact .refl db
  · refine .trans (.trans (.trans (.trans (.trans (.trans (.deleteMany _) (.deleteMany _))
      (.deleteMany _)) (.deleteMany _)) (stays_onPosts ?_)) stays_onUsers)
      stays_onCommunities
    · intro _ _
      split <;> rfl

/-- Tombstoning comments keeps the trait. -/
theorem stays_tombstoneComments (userId : ℕ) (db : Store) :
    T.Stays db (tombstoneComments userId db) :=
  .trans (.trans (.deleteMany _) (stays_onComments fun _ _ => by split <;> rfl))
    (stays_onComments fun _ _ => by split <;> rfl)

/-- Removing the likes of a user keeps the trait. -/
theorem stays_removePostInteractions (userId : ℕ) (db : Store) :
    T.Stays db (removePostInteractions userId db) :=
  .trans (.deleteMany _) (stays_onPosts fun _ _ => by split <;> rfl)

/-- Cleaning up a community keeps the trait. -/
theorem stays_cleanupCreated {natural : List ℕ} {userId communityId : ℕ} {db after : Store}
    {deleted : List ℕ} (h : cleanupCreated natural userId communityId db = .ok (after, deleted)) :
    T.Stays db after := by
  rcases cleanupCreated_eq h with ⟨user, _, _, rfl⟩ | ⟨_, _, rfl⟩
  · exact .trans (stays_updateOther (k := Key.community communityId) (by simp))
      (stays_updateOther (k := Key.member communityId user) (by simp))
  · exact .trans (.trans (stays_deletePostGraph _ _) (.deleteMany _)) (.delete _)

/-- Finalising an account keeps the trait. -/
theorem stays_finalize (action : AccountLifecycleAction) (userId : ℕ) (db : Store) :
    T.Stays db (finalize action userId db) :=
  (finalize_confined action userId db).stays (by decide)

/-- A purge keeps every trait. -/
private theorem stays_purgeUser {natural : List ℕ} {action : AccountLifecycleAction} {userId : ℕ}
    {db after : Store} (h : purgeUser natural action userId db = .ok after) :
    T.Stays db after := by
  obtain ⟨db', hcommunity, rfl⟩ := purgeUser_eq h
  obtain ⟨db'', deleted, hall, rfl⟩ := communityCleanup_eq hcommunity
  have hcontent : T.Stays db (contentCleanup userId db) :=
    .trans (.trans (stays_deletePostGraph _ _) (stays_tombstoneComments _ _))
      (stays_removePostInteractions _ _)
  have hrelations : T.Stays db
      (removeRelationshipsAndActivity userId (contentCleanup userId db)) :=
    hcontent.trans (.trans (.deleteMany _) stays_onUsers)
  have hconversations := hrelations.trans ((preserve_confined userId _).stays (by decide))
  have hcreated := hconversations.trans (cleanupAll_relates .refl (fun _ _ _ => .trans)
    (fun _ _ _ _ => stays_cleanupCreated) hall)
  exact (hcreated.trans (.trans (.trans (.deleteMany _) stays_onCommunities) stays_onUsers)).trans
    (stays_finalize _ _ _)

/-- Purging a user keeps the trait. -/
theorem stays_purgeBody {natural : List ℕ} {action : AccountLifecycleAction} {userId : ℕ}
    {db after : Store} (h : purgeBody natural action userId db = .ok after) :
    T.Stays db after := by
  rcases purgeBody_eq h with h | ⟨db', htouch, h⟩
  · exact stays_purgeUser h
  · exact ((touch_confined htouch).stays (by decide)).trans (stays_purgeUser h)

/-- Removing a member keeps every trait. -/
private theorem stays_removeMember (userId communityId : ℕ) (db : Store) :
    T.Stays db (removeMember userId communityId db) :=
  .trans (.trans (.delete _) (stays_updateOther (k := Key.user userId) (by simp)))
    (stays_updateOther (k := Key.community communityId) (by simp))

/-- Removing a community keeps the trait. -/
theorem stays_removeCommunity (communityId : ℕ) (db : Store) :
    T.Stays db (removeCommunity communityId db) :=
  .trans (.trans (.deleteMany _) (.delete _)) stays_onUsers

/-- Deleting a comment keeps the trait. -/
theorem stays_deleteCommentBody (id postId : ℕ) (parentId : Option ℕ) (db : Store) :
    T.Stays db (deleteCommentBody id postId parentId db) := by
  have hdelete : T.Stays db (recomputePostCommentCounts {.post postId}
      ((db.deleteMany (likesOfComment id)).delete (.comment id))) :=
    .trans (.trans (.deleteMany _) (.delete _)) (stays_recomputePostCommentCounts _ _)
  unfold deleteCommentBody
  dsimp only
  split
  · exact .trans (.deleteMany _) (stays_updateComment fun _ => rfl)
  · cases parentId with
    | none => exact hdelete
    | some parent => exact hdelete.trans (stays_recomputeCommentReplyCounts _ _)

/-- Counting a comment keeps the trait. -/
theorem stays_countComment (postId : ℕ) (parentId : Option ℕ) (db : Store) :
    T.Stays db (countComment postId parentId db) := by
  have hpost : T.Stays db (countComment postId none db) := stays_updatePost fun _ => rfl
  cases parentId with
  | none => exact hpost
  | some parent => exact hpost.trans (stays_updateComment fun _ => rfl)

/-- Counting a repost keeps the trait. -/
theorem stays_countRepost (userId target : ℕ) (db : Store) :
    T.Stays db (countRepost userId target db) := by
  refine .trans ?_ (stays_updateOther (k := Key.user userId) (by simp))
  exact stays_updatePost fun _ => rfl

omit [Lasting T] in
/-- A trait that does not show the status of posts. -/
theorem stays_updateStatus {db : Store} {id : ℕ} {status : Option PostStatus}
    (hstatus : ∀ id (p : Post), T.value (.post id) { p with status := status } =
      T.value (.post id) p) :
    T.Stays db (db.update (.post id) fun p : Post => { p with status := status }) :=
  .update (k := Key.post id) fun p => hstatus id p

/-- Activating a post keeps a trait that does not see its status. -/
theorem stays_activatePendingPostBody {id userId : ℕ} {communityId : Option ℕ} {db after : Store}
    (hstatus : ∀ id status (p : Post), T.value (.post id) { p with status := status } =
      T.value (.post id) p)
    (h : activatePendingPostBody id userId communityId db = .ok after) : T.Stays db after := by
  obtain ⟨_, _, _, rfl⟩ := activatePendingPostBody_eq h
  exact .trans (stays_updateStatus fun id => hstatus id _)
    ((countPost_confined _ _ _).stays (by decide))

/-- Counting a follow keeps every trait. -/
private theorem stays_countFollow (followerId followeeId : ℕ) (increment : ℤ) (db : Store) :
    T.Stays db (countFollow followerId followeeId increment db) :=
  (countFollow_confined _ _ _ _).stays (by decide)

private theorem stays_put {db : Store} {k : Key} {d e : Doc k} (h : db.doc k = some e)
    (hk : k.collection ∉ [Collection.posts, .comments]) : T.Stays db (db.put k d) := by
  intro j _
  by_cases hj : j = k
  · subst hj
    rw [Trait.of_eq_some (Database.doc_put_self ..), Trait.of_eq_some h]
    exact .inr (congrArg some ((Lasting.other (T := T) j hk).elim _ _))
  · exact .inr (Trait.of_congr (Database.doc_put_ne db d hj))

end Lasting

/-- A new comment replies to a comment of its post, as it was read earlier. -/
def RepliesTo (before : Committed Key Doc → Committed Key Doc → Prop) (s : Committed Key Doc)
    (postId : ℕ) (parentId : Option ℕ) : Prop :=
  ∀ parent, parentId = some parent →
    ∃ c : Comment, Seen before s (.comment parent) c ∧ c.postId = postId

/-- A new document refers to what was read earlier or is stored with it. -/
def RefersBack (before : Committed Key Doc → Committed Key Doc → Prop) (s : Committed Key Doc)
    (after : Store) (k : Key) (d : Doc k) : Prop :=
  ∀ o, references.needs k d o → (∃ e, Seen before s o e) ∨ after.doc o ≠ s.db.doc o

/-- A command stores at most one new document that refers to others. -/
inductive Authors {τ : Key → Type} (T : Trait Key Doc τ)
    (before : Committed Key Doc → Committed Key Doc → Prop) (s : Committed Key Doc)
    (after : Store) : Prop
  | nothing (h : T.Stays s.db after)
  | new (k : Key) (d : Doc k) (hfree : s.db.doc k = none) (hrefers : RefersBack before s after k d)
      (hreplies : ∀ id, k = .comment id → ∀ postId parentId,
        thread (s.db.put k d) id = some (postId, parentId) → RepliesTo before s postId parentId)
      (h : T.Stays (s.db.put k d) after)

private theorem thread_put {db : Store} {id : ℕ} {c : Comment} :
    thread (db.put (.comment id) c) id = some (c.postId, c.parentId) :=
  Trait.of_eq_some (Database.doc_put_self ..)

section Effects

variable {τ : Key → Type} {T : Trait Key Doc τ} [Lasting T]
  {before : Committed Key Doc → Committed Key Doc → Prop} {s : Committed Key Doc} {after : Store}

/-- A like of a comment has its author seen. -/
private theorem authors_likeCommentBody {commentId userId : ℕ} {user : User} {comment : Comment}
    (huser : Seen before s (.user userId) user)
    (hcomment : Seen before s (.comment commentId) comment) :
    Authors T before s (likeCommentBody commentId userId s.db) := by
  unfold likeCommentBody
  split
  · exact .nothing (.trans (.delete _) (stays_updateComment fun _ => rfl))
  · next hfree =>
    refine .new _ _ hfree ?_ (by simp) (stays_updateComment fun _ => rfl)
    rintro o (rfl | rfl)
    · exact .inl ⟨_, hcomment⟩
    · exact .inl ⟨_, huser⟩

/-- A like of a post has its author seen. -/
private theorem authors_likePostBody {postId userId : ℕ} {user : User} {post : Post}
    (huser : Seen before s (.user userId) user) (hpost : Seen before s (.post postId) post) :
    Authors T before s (likePostBody postId userId s.db) := by
  unfold likePostBody
  split
  · exact .nothing (.trans (.delete _) (stays_updatePost fun _ => rfl))
  · next hfree =>
    refine .new _ _ hfree ?_ (by simp) (stays_updatePost fun _ => rfl)
    rintro o (rfl | rfl)
    · exact .inl ⟨_, hpost⟩
    · exact .inl ⟨_, huser⟩

/-- A follow has its authors seen. -/
private theorem authors_setFollowStateBody {followerId followeeId : ℕ} {shouldFollow : Bool}
    {follower followee : User} (hfollower : Seen before s (.user followerId) follower)
    (hfollowee : Seen before s (.user followeeId) followee)
    (h : setFollowStateBody followerId followeeId shouldFollow s.db = .ok after) :
    Authors T before s after := by
  rcases setFollowStateBody_eq h with ⟨_, hfree, rfl⟩ | ⟨_, _, rfl⟩
  · refine .new _ _ hfree ?_ (by simp) (stays_countFollow _ _ _ _)
    rintro o (rfl | rfl)
    · exact .inl ⟨_, hfollower⟩
    · exact .inl ⟨_, hfollowee⟩
  · exact .nothing (.trans (.delete _) (stays_countFollow _ _ _ _))

/-- A repost has its author seen. -/
private theorem authors_createRepostBody {id userId target : ℕ} {user : User} {post : Post}
    (huser : Seen before s (.user userId) user) (hpost : Seen before s (.post target) post)
    (h : createRepostBody id userId target s.db = .ok after) : Authors T before s after := by
  obtain ⟨hfree, rfl⟩ := createRepostBody_eq h
  refine .new _ _ hfree ?_ (by simp) (stays_countRepost _ _ _)
  rintro o (rfl | ⟨_, htarget, rfl⟩ | ⟨_, hcommunity, _⟩)
  · exact .inl ⟨_, huser⟩
  · obtain rfl := Option.some.inj htarget
    exact .inl ⟨_, hpost⟩
  · cases hcommunity

/-- A community has its author seen. -/
private theorem authors_createCommunityBody {id userId now : ℕ} {user : User}
    (huser : Seen before s (.user userId) user)
    (h : createCommunityBody id userId now s.db = .ok after) : Authors T before s after := by
  obtain ⟨hfree, rfl⟩ := create_map_eq_ok.mp h
  have hcommunity : ∀ {db : Store} {c : Community}, T.Stays db (db.put (.community id) c) :=
    Confined.stays (C := [.communities]) (.put _ (by simp)) (by decide)
  have hlist : ∀ {db : Store} {f : User → User}, T.Stays db (db.update (.user userId) f) :=
    stays_updateOther (k := Key.user userId) (by simp)
  cases hmember : s.db.doc (.member id userId) with
  | some m =>
    refine .nothing (.trans (hcommunity.trans (stays_put (k := Key.member id userId) (e := m) ?_
      (by simp))) hlist)
    rw [Database.doc_put_ne _ _ (by simp), hmember]
  | none =>
    let m : Member := { role := .admin, joinedAt := now }
    refine .new (.member id userId) m hmember ?_
      (by simp) (.trans (.of_doc_eq fun k hk => ?_) hlist)
    · rintro o (rfl | rfl)
      · refine .inr ?_
        unfold addCreator
        rw [Database.doc_update_ne (k := Key.user userId) _ _ (by simp),
          Database.doc_put_ne _ _ (by simp), Database.doc_put_self, hfree]
        simp
      · exact .inl ⟨_, huser⟩
    · by_cases hj : k = .member id userId
      · subst hj
        rw [Database.doc_put_self, Database.doc_put_self]
      · rw [Database.doc_put_ne _ _ hj, Database.doc_put_ne _ _ hj, Database.doc_put_ne]
        rintro rfl
        simpa [referring] using Lasting.referring _ hk

/-- What commands store, and that they keep the traits of the rest; only a post that is being
created changes its status. -/
theorem effect_authors {c : Command} (h : Effect before s c after)
    (hstatus : ∀ id userId communityId uploaded, c = .createPost id userId communityId uploaded →
      ∀ id status (p : Post), T.value (.post id) { p with status := status } =
        T.value (.post id) p) : Authors T before s after := by
  have hconfined : ∀ {C}, Confined C s.db after → (∀ c ∈ C, c ∉ referring) →
      Authors T before s after := fun h hcs => .nothing (h.stays hcs)
  cases h with
  | promoteToAdmin => exact hconfined (C := [.users]) (.update (by simp)) (by decide)
  | unbanUser => exact hconfined (C := [.users]) (.update (by simp)) (by decide)
  | demoteFromAdmin hbody => exact hconfined (demoteFromAdminBody_confined hbody) (by decide)
  | banUser _ hbody => exact .nothing (stays_purgeBody hbody)
  | deleteUser _ hbody => exact .nothing (stays_purgeBody hbody)
  | setFollowState hfollower hfollowee _ hbody =>
    exact authors_setFollowStateBody hfollower hfollowee hbody
  | createComment hpost hparent hbody =>
    obtain ⟨hfree, rfl⟩ := create_map_eq_ok.mp hbody
    refine .new _ _ hfree ?_ ?_ (stays_countComment _ _ _)
    · rintro o (rfl | ⟨parent, hparent', rfl⟩)
      · exact .inl ⟨_, hpost⟩
      · obtain ⟨c, hc, -⟩ := hparent parent hparent'
        exact .inl ⟨_, hc⟩
    · rintro _ hid _ _ hthread
      obtain rfl := Key.comment.inj hid
      rw [thread_put] at hthread
      obtain ⟨rfl, rfl⟩ := Prod.mk.inj (Option.some.inj hthread)
      exact hparent
  | deleteComment => exact .nothing (stays_deleteCommentBody _ _ _ _)
  | likeComment huser hcomment => exact authors_likeCommentBody huser hcomment
  | likeActionByPublicId huser hpost => exact authors_likePostBody huser hpost
  | repostPost huser hpost hbody => exact authors_createRepostBody huser hpost hbody
  | unrepostPost => exact .nothing (stays_deletePostGraph _ _)
  | createPendingPost huser hcommunity hbody =>
    obtain ⟨hfree, rfl⟩ := create_eq_ok.mp hbody
    refine .new _ _ hfree ?_ (by simp) (.refl _)
    rintro o (rfl | ⟨_, htarget, _⟩ | ⟨community, hcommunity', rfl⟩)
    · exact .inl ⟨_, huser⟩
    · cases htarget
    · exact .inl (hcommunity community hcommunity')
  | activatePendingPost _ _ hbody =>
    exact .nothing (stays_activatePendingPostBody (hstatus _ _ _ _ rfl) hbody)
  | markPendingPostFailed =>
    exact .nothing (stays_updateStatus fun id => hstatus _ _ _ _ rfl id _)
  | deletePost hbody =>
    obtain ⟨_, rfl⟩ := deletePostBody_eq hbody
    exact .nothing (stays_deletePostGraph _ _)
  | createCommunity huser hbody => exact authors_createCommunityBody huser hbody
  | joinCommunity huser hcommunity hbody =>
    obtain ⟨hfree, rfl⟩ := create_map_eq_ok.mp hbody
    refine .new _ _ hfree ?_ (by simp) (.trans (stays_updateOther (k := Key.user _) (by simp))
      (stays_updateOther (k := Key.community _) (by simp)))
    rintro o (rfl | rfl)
    · exact .inl ⟨_, hcommunity⟩
    · exact .inl ⟨_, huser⟩
  | leaveCommunity hbody =>
    obtain ⟨_, _, _, rfl⟩ := leaveCommunityBody_eq hbody
    exact .nothing (stays_removeMember _ _ _)
  | kickMember hbody =>
    obtain ⟨_, _, _, rfl⟩ := kickMemberBody_eq hbody
    exact .nothing (stays_removeMember _ _ _)
  | deleteCommunity hbody =>
    obtain ⟨_, rfl⟩ := deleteCommunityBody_eq hbody
    exact .nothing ((stays_deletePostGraph _ _).trans (stays_removeCommunity _ _))
  | createConversation _ _ hbody => exact hconfined (createConversation_confined hbody) (by decide)
  | acquireConversation hbody => exact hconfined (acquireForMutation_confined hbody) (by decide)
  | sendMessage _ hbody => exact hconfined (sendMessageBody_confined hbody) (by decide)

end Effects

/-- Replies belong to the posts of their parents. -/
def Threaded (db : Store) : Prop :=
  ∀ id postId parent t, thread db id = some (postId, some parent) → thread db parent = some t →
    t.1 = postId

/-- Comments that keep their identity stay threaded. -/
theorem threaded_of_stays {db after : Store} (h : identity.Stays db after) (ht : Threaded db) :
    Threaded after := by
  intro id postId parent t hid hparent
  rcases h _ (identity_comment id) with hnone | hsame
  · rw [thread, hnone] at hid
    cases hid
  rcases h _ (identity_comment parent) with hnone' | hsame'
  · rw [thread, hnone'] at hparent
    cases hparent
  exact ht id postId parent t (hsame.symm.trans hid) (hsame'.symm.trans hparent)

section Commit

variable {before : Committed Key Doc → Committed Key Doc → Prop}
  {snapshot current : Committed Key Doc} {after : Store} {c : Command}

/-- What a command stores newly was not there, and a new comment replies to what was read. -/
theorem effect_identity (heffect : Effect before snapshot c after) {k : Key} (hk : identity.has k) :
    identity.of after k = none ∨ identity.of after k = identity.of snapshot.db k ∨
      snapshot.db.doc k = none ∧ ∀ id, k = .comment id → ∀ postId parentId,
        thread after id = some (postId, parentId) → RepliesTo before snapshot postId parentId := by
  cases effect_authors (T := identity) heffect (fun _ _ _ _ _ _ _ _ => rfl) with
  | nothing h => exact (h k hk).imp_right .inl
  | new j d hfree _ hreplies h =>
    rcases h k hk with hnone | hsame
    · exact .inl hnone
    · by_cases hj : k = j
      · subst hj
        refine .inr (.inr ⟨hfree, fun id hid postId parentId hthread => ?_⟩)
        subst hid
        exact hreplies id rfl postId parentId (hsame.symm.trans hthread)
      · exact .inr (.inl (hsame.trans (Trait.of_congr (Database.doc_put_ne _ d hj))))

/-- A parent is referred to. -/
theorem cited_of_thread {db : Store} {id postId parent : ℕ}
    (h : thread db id = some (postId, some parent)) : references.Cited db (.comment parent) := by
  obtain ⟨d, hd, hvalue⟩ := Option.map_eq_some_iff.mp h
  refine ⟨.comment id, d, hd, ?_⟩
  change Refers (.comment id) (identity.value (.comment id) d) _
  rw [hvalue]
  exact .inr ⟨parent, rfl, rfl⟩

/-- What stays refers to what it referred to. -/
theorem cited_of_stays {db after : Store} (h : identity.Stays db after) {o : Key}
    (ho : references.Cited after o) : references.Cited db o := by
  obtain ⟨k, d, hd, hrefers⟩ := ho
  rcases h k (identity_of_refers hrefers) with hnone | hsame
  · rw [Trait.of_eq_none.mp hnone] at hd
    cases hd
  · rw [Trait.of_eq_some hd] at hsame
    obtain ⟨d', hd', hvalue⟩ := Option.map_eq_some_iff.mp hsame.symm
    refine ⟨k, d', hd', ?_⟩
    change Refers k (identity.value k d') o
    rw [hvalue]
    exact hrefers

/-- Commands refer to what was read earlier or is stored. -/
theorem effect_introduces (heffect : Effect before snapshot c after)
    (hbefore : ∀ r, before r snapshot → Committed.Since serial r snapshot) :
    references.Introduces snapshot after := by
  intro o ho
  cases effect_authors (T := identity) heffect (fun _ _ _ _ _ _ _ _ => rfl) with
  | nothing h => exact .inl (cited_of_stays h ho)
  | new k d hfree hrefers _ h =>
    obtain ⟨j, e, he, hneeds⟩ := cited_of_stays h ho
    by_cases hj : j = k
    · subst hj
      rw [Database.doc_put_self] at he
      obtain rfl := Option.some.inj he
      refine .inr ((hrefers o hneeds).imp ?_ id)
      rintro ⟨f, r, hr, hf⟩
      exact (r.written o (by rw [hf]; rfl)).trans_le (hbefore r hr o).1
    · rw [Database.doc_put_ne _ _ hj] at he
      exact .inl ⟨j, e, he, hneeds⟩

/-- A commit keeps identities. -/
private theorem identity_commit (hsince : Committed.Since serial snapshot current)
    (hfresh : Committed.Fresh snapshot current after)
    (hnew : Committed.NewKeys serial snapshot current after)
    (heffect : Effect before snapshot c after) :
    identity.Keeps current (snapshot.commit current after) :=
  Trait.keeps_commit (fun _ => serial_of_identity) hsince hfresh hnew fun _ hk =>
    (effect_identity heffect hk).imp_right fun h => h.imp_right And.left

/-- A commit keeps comments threaded. -/
private theorem threaded_commit (hcurrent : Threaded current.db) (hknown : references.Known current)
    (hsince : Committed.Since serial snapshot current)
    (hfresh : Committed.Fresh snapshot current after)
    (hnew : Committed.NewKeys serial snapshot current after)
    (heffect : Effect before snapshot c after)
    (hbefore :
      ∀ r, before r snapshot → Committed.Since serial r current ∧ identity.Keeps r current) :
    Threaded (snapshot.commit current after).db := by
  have hthread :=
    fun id => Trait.of_commit hsince hfresh (effect_identity heffect (identity_comment id))
  have hzero : ∀ {id t}, thread after id = some t → snapshot.db.doc (.comment id) = none →
      current.revision (.comment id) = 0 := by
    intro id t ht hfree
    refine hnew (.comment id) rfl hfree fun hnone => ?_
    rw [thread, Trait.of_eq_none.mpr hnone] at ht
    cases ht
  intro id postId parent t hid hparent
  rcases hthread id with hnone | hsame | ⟨hmerge, hfree, hreplies⟩
  · rw [thread, hnone] at hid
    cases hid
  · rw [thread, hsame] at hid
    rcases hthread parent with hnone' | hsame' | ⟨hmerge', hfree', -⟩
    · rw [thread, hnone'] at hparent
      cases hparent
    · exact hcurrent id postId parent t hid (hsame'.symm.trans hparent)
    · have hpos := hknown _ (cited_of_thread hid)
      have hnever := hzero (hmerge'.symm.trans hparent) hfree'
      omega
  · -- The parent of a new comment was read before, so it is not new, and it kept its post.
    obtain ⟨comment, ⟨r, hr, hcomment⟩, rfl⟩ :=
      hreplies id rfl postId (some parent) (hmerge.symm.trans hid) parent rfl
    obtain ⟨hsince', hkeeps⟩ := hbefore r hr
    rcases hthread parent with hnone' | hsame' | ⟨hmerge', hfree', -⟩
    · rw [thread, hnone'] at hparent
      cases hparent
    · rw [thread, hsame'] at hparent
      rcases hkeeps _ _ (identity_comment parent) (Trait.of_eq_some hcomment) with hnone | hsome
      · rw [hnone] at hparent
        cases hparent
      · rw [hsome] at hparent
        rw [← Option.some.inj hparent]
        rfl
    · have hpos := r.written (.comment parent) (by rw [hcomment]; rfl)
      have hle := (hsince' (.comment parent)).1
      have hnever := hzero (hmerge'.symm.trans hparent) hfree'
      omega

/-- References are known, and replies belong to the posts of their parents. -/
structure Coherent (c : Committed Key Doc) : Prop where
  known : references.Known c
  threaded : Threaded c.db

/-- Documents that do not refer to others are coherent. -/
theorem coherent_of_unreferring {db : Store} (h : ∀ k ∈ db.ids, k.collection ∉ referring) :
    Coherent (.ofDatabase db) := by
  have hnone : ∀ k, identity.has k → db.doc k = none := by
    intro k hk
    by_contra hstored
    exact h k ((db.mem_ids k).mpr (Option.isSome_iff_ne_none.mpr hstored)) hk
  refine ⟨?_, ?_⟩
  · rintro o ⟨k, d, hd, hrefers⟩
    rw [show (Committed.ofDatabase db).db.doc k = _ from hnone k (identity_of_refers hrefers)] at hd
    cases hd
  · intro id postId parent t hid
    have hgone : thread db id = none := Trait.of_eq_none.mpr (hnone _ (identity_comment id))
    cases hgone.symm.trans hid

/-- A user as registration stores it. -/
def User.new : User where
  isAdmin := false
  isBanned := false
  followerCount := 0
  followingCount := 0
  postCount := 0
  joinedCommunities := []

/-- Two users and nothing else. -/
def twoUsers : Store := (Database.empty.put (.user 1) User.new).put (.user 2) User.new

private theorem ids_twoUsers : ∀ k ∈ twoUsers.ids, k = .user 1 ∨ k = .user 2 := by decide

/-- The store of two users holds nothing else. -/
theorem twoUsers_eq_none {k : Key} (hk : k.collection ≠ .users) : twoUsers.doc k = none := by
  by_contra hstored
  have hmem := (twoUsers.mem_ids k).mpr (Option.isSome_iff_ne_none.mpr hstored)
  rcases ids_twoUsers k hmem with rfl | rfl <;> exact hk rfl

/-- The two users are new. -/
theorem twoUsers_user {id : ℕ} {u : User} (hu : twoUsers.doc (.user id) = some u) :
    u = User.new := by
  have hmem := (twoUsers.mem_ids (.user id)).mpr (by rw [hu]; rfl)
  rcases ids_twoUsers _ hmem with h | h <;> obtain rfl := Key.user.inj h <;> cases hu <;> rfl

/-- A commit keeps the store coherent. -/
private theorem coherent_commit (hsnapshot : Coherent snapshot) (hcurrent : Coherent current)
    (hsince : Committed.Since serial snapshot current) (hkeeps : identity.Keeps snapshot current)
    (hfresh : Committed.Fresh snapshot current after)
    (hnew : Committed.NewKeys serial snapshot current after)
    (heffect : Effect before snapshot c after)
    (hbefore : ∀ r, before r snapshot →
      Committed.Since serial r snapshot ∧ identity.Keeps r snapshot) :
    Coherent (snapshot.commit current after) where
  known := Links.known_commit hsnapshot.known hcurrent.known hsince
    (effect_introduces heffect fun r hr => (hbefore r hr).1)
  threaded := threaded_commit hcurrent.threaded hcurrent.known hsince hfresh hnew heffect
    fun r hr => ⟨(hbefore r hr).1.trans hsince,
      .trans (fun _ => serial_of_identity) (hbefore r hr).1 hsince (hbefore r hr).2 hkeeps⟩

end Commit

/-- Good documents and what they have become. -/
def Earlier (good : Committed Key Doc → Prop) (later : Committed Key Doc → Committed Key Doc → Prop)
    (r s : Committed Key Doc) : Prop :=
  (Coherent r ∧ good r) ∧ Committed.Since serial r s ∧ identity.Keeps r s ∧ later r s

/-- What the commands keep, when their commits meet a condition. -/
def discipline (good : Committed Key Doc → Prop)
    (later : Committed Key Doc → Committed Key Doc → Prop)
    (condition : Command → Committed Key Doc → Committed Key Doc → Store → Prop) :
    Discipline Key Doc Command where
  serial := serial
  good := fun c => Coherent c ∧ good c
  later := fun a b => identity.Keeps a b ∧ later a b
  effect := fun c s after => Effect (Earlier good later) s c after
  condition := condition

variable {good : Committed Key Doc → Prop}
  {later : Committed Key Doc → Committed Key Doc → Prop}
  {condition : Command → Committed Key Doc → Committed Key Doc → Store → Prop}

/-- A property is kept when every commit on coherent documents keeps it. -/
theorem discipline_kept (hrefl : ∀ c, later c c)
    (htrans : ∀ a b c, Committed.Since serial a b → Committed.Since serial b c →
      later a b → later b c → later a c)
    (hcommit : ∀ c snapshot current after, Earlier good later snapshot current →
      Coherent current → good current →
      Committed.Fresh snapshot current after → Committed.NewKeys serial snapshot current after →
      Effect (Earlier good later) snapshot c after → condition c snapshot current after →
      good (snapshot.commit current after) ∧ later current (snapshot.commit current after)) :
    (discipline good later condition).Kept where
  refl := fun c => ⟨.refl c, hrefl c⟩
  trans := by
    rintro a b c ⟨-, hsince, hkeeps, hlater⟩ ⟨-, hsince', hkeeps', hlater'⟩
    exact ⟨.trans (fun _ => serial_of_identity) hsince hsince' hkeeps hkeeps',
      htrans a b c hsince hsince' hlater hlater'⟩
  commit := by
    rintro c snapshot current after hbefore hcurrent hfresh hnew heffect hcond
    obtain ⟨hsnapshot, hsince, hkeeps, -⟩ := id hbefore
    obtain ⟨hgood, hlater⟩ := hcommit c snapshot current after hbefore hcurrent.1 hcurrent.2 hfresh
      hnew heffect hcond
    exact ⟨⟨coherent_commit hsnapshot.1 hcurrent.1 hsince hkeeps hfresh hnew heffect
      fun _ hr => ⟨hr.2.1, hr.2.2.1⟩, hgood⟩, identity_commit hsince hfresh hnew heffect, hlater⟩

/-- A property that is kept holds in every run whose commits meet the condition, and the documents
are coherent. -/
theorem discipline_run_coherent (hkept : (discipline good later condition).Kept)
    {c : Committed Key Doc} (hcoherent : Coherent c) (hgood : good c) {es : List (Event Command)}
    {w : SocialWorld}
    (hrun : Run (Restrict (Graph (World.step runtime)) (World.Commits condition))
      (World.initial c) es w) : Coherent w.state ∧ good w.state := by
  have hsound : (discipline good later condition).SoundWorld (World.initial c : SocialWorld) :=
    Discipline.soundWorld_initial ⟨hcoherent, hgood⟩
  have hmeets : Run (Restrict (Graph (World.step runtime))
      ((discipline good later condition).Meets fun _ => True)) (World.initial c) es w :=
    hrun.mono fun _ _ _ h => ⟨⟨h.1, fun _ _ _ => trivial⟩, h.2⟩
  exact (hsound.run hkept rfl
    (fun c _ => handler_sound (D := discipline good later condition) (fun _ _ _ h => h) c)
    hmeets).good

/-- What a discipline keeps holds after every run whose commits meet its condition. -/
theorem discipline_run (hkept : (discipline good later condition).Kept) {c : Committed Key Doc}
    (hcoherent : Coherent c) (hgood : good c) {es : List (Event Command)} {w : SocialWorld}
    (hrun : Run (Restrict (Graph (World.step runtime)) (World.Commits condition))
      (World.initial c) es w) : good w.state :=
  (discipline_run_coherent hkept hcoherent hgood hrun).2

/-- A post that was stored as pending is an original post of its author, if it is stored. -/
theorem identity_of_pending {before : Committed Key Doc → Committed Key Doc → Prop}
    {snapshot : Committed Key Doc} {id userId : ℕ} {communityId : Option ℕ}
    (hpost : Seen before snapshot (.post id) (Post.pending userId communityId))
    (hkeeps : ∀ r, before r snapshot → identity.Keeps r snapshot) {p : Post}
    (hp : snapshot.db.doc (.post id) = some p) :
    p.user = userId ∧ p.type = .original ∧ p.repostOf = none ∧ p.communityId = communityId := by
  obtain ⟨r, hr, hpending⟩ := hpost
  rcases hkeeps r hr _ _ (identity_post id) (Trait.of_eq_some hpending) with hnone | hsame
  · rw [Trait.of_eq_none.mp hnone] at hp
    cases hp
  · simpa [identity, Post.pending, Post.new] using
      Option.some.inj ((Trait.of_eq_some hp).symm.trans hsame)

/-- Nothing refers to a key that was never used. -/
theorem not_cited_of_new {snapshot current : Committed Key Doc} {after : Store}
    (hknown : references.Known snapshot) (hsince : Committed.Since serial snapshot current)
    (hnew : Committed.NewKeys serial snapshot current after) {k : Key} (hk : serial k = true)
    (hfree : snapshot.db.doc k = none) (hstored : after.doc k ≠ none) :
    ¬ references.Cited snapshot.db k := by
  intro hcited
  have hpos := hknown k hcited
  have hle := (hsince k).1
  have hzero := hnew k hk hfree hstored
  omega

end Ascendance.Social
