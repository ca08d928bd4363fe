import Ascendance.Core.Rely
import Ascendance.Models.Social.Handlers

/-!
# What the handlers commit

For each command, what its writes and transactions compute on their snapshot, together
with what the handler had read before. Invariants of the system are proved against these
cases; the handlers themselves are not unfolded again.
-/

namespace Ascendance.Social

open Ascendance.Core ContentCleanupService

/-- A document was read from a state before the snapshot. -/
def Seen (before : Committed Key Doc → Committed Key Doc → Prop) (s : Committed Key Doc) (k : Key)
    (d : Doc k) : Prop := ∃ r, before r s ∧ r.db.doc k = some d

/-- What a command commits on a snapshot. -/
inductive Effect (before : Committed Key Doc → Committed Key Doc → Prop) (s : Committed Key Doc) :
    Command → Store → Prop
  | promoteToAdmin {userId : ℕ} {user : User} (huser : Seen before s (.user userId) user)
      (hadmin : user.isAdmin = false) :
      Effect before s (.promoteToAdmin userId)
        (s.db.update (.user userId) fun u : User => { u with isAdmin := true })
  | unbanUser {userId : ℕ} {user : User} (huser : Seen before s (.user userId) user) :
      Effect before s (.unbanUser userId)
        (s.db.update (.user userId) fun u : User => { u with isBanned := false })
  | demoteFromAdmin {adminId userId : ℕ} {after : Store}
      (hbody : demoteFromAdminBody adminId userId s.db = .ok after) :
      Effect before s (.demoteFromAdmin (some adminId) userId) after
  | banUser {natural : List ℕ} {adminId userId : ℕ} {after : Store} (hself : userId ≠ adminId)
      (hbody : purgeBody natural .ban userId s.db = .ok after) :
      Effect before s (.banUser natural adminId userId) after
  | deleteUser {natural : List ℕ} {requestedBy : Option ℕ} {userId : ℕ} {after : Store}
      (hself : requestedBy ≠ some userId)
      (hbody : purgeBody natural .delete userId s.db = .ok after) :
      Effect before s (.deleteUser natural requestedBy userId) after
  | setFollowState {followerId followeeId : ℕ} {shouldFollow : Bool} {follower followee : User}
      {after : Store} (hfollower : Seen before s (.user followerId) follower)
      (hfollowee : Seen before s (.user followeeId) followee) (hself : followerId ≠ followeeId)
      (hbody : setFollowStateBody followerId followeeId shouldFollow s.db = .ok after) :
      Effect before s (.setFollowState followerId followeeId shouldFollow) after
  | createComment {id userId postId : ℕ} {parentId : Option ℕ} {depth : ℕ} {post : Post}
      {after : Store}
      (hpost : Seen before s (.post postId) post)
      (hparent : ∀ parent, parentId = some parent →
        ∃ c : Comment, Seen before s (.comment parent) c ∧ c.postId = postId)
      (hbody : createCommentBody id postId userId parentId depth s.db = .ok after) :
      Effect before s (.createComment id userId postId parentId) after
  | deleteComment {userId commentId : ℕ} {comment : Comment}
      (hcomment : Seen before s (.comment commentId) comment) :
      Effect before s (.deleteComment userId commentId)
        (deleteCommentBody commentId comment.postId comment.parentId s.db)
  | likeComment {userId commentId : ℕ} {user : User} {comment : Comment}
      (huser : Seen before s (.user userId) user)
      (hcomment : Seen before s (.comment commentId) comment) :
      Effect before s (.likeComment userId commentId) (likeCommentBody commentId userId s.db)
  | likeActionByPublicId {userId postId : ℕ} {user : User} {post : Post}
      (huser : Seen before s (.user userId) user) (hpost : Seen before s (.post postId) post) :
      Effect before s (.likeActionByPublicId userId postId) (likePostBody postId userId s.db)
  | repostPost {id userId target : ℕ} {user : User} {post : Post} {after : Store}
      (huser : Seen before s (.user userId) user) (hpost : Seen before s (.post target) post)
      (hbody : createRepostBody id userId target s.db = .ok after) :
      Effect before s (.repostPost id userId target) after
  | unrepostPost {userId target repost : ℕ} {post : Post}
      (hpost : Seen before s (.post repost) post) :
      Effect before s (.unrepostPost userId target) (deletePostGraph {.post repost} s.db)
  | createPendingPost {id userId : ℕ} {communityId : Option ℕ} {uploaded : Bool} {user : User}
      {after : Store}
      (huser : Seen before s (.user userId) user)
      (hcommunity : ∀ community, communityId = some community →
        ∃ c : Community, Seen before s (.community community) c)
      (hbody : createPendingPostBody id userId communityId s.db = .ok after) :
      Effect before s (.createPost id userId communityId uploaded) after
  | activatePendingPost {id userId : ℕ} {communityId : Option ℕ} {uploaded : Bool} {user : User}
      {after : Store} (huser : Seen before s (.user userId) user)
      (hpost : Seen before s (.post id) (Post.pending userId communityId))
      (hbody : activatePendingPostBody id userId communityId s.db = .ok after) :
      Effect before s (.createPost id userId communityId uploaded) after
  | markPendingPostFailed {id userId : ℕ} {communityId : Option ℕ} {uploaded : Bool}
      (hpost : Seen before s (.post id) (Post.pending userId communityId)) :
      Effect before s (.createPost id userId communityId uploaded)
        (markPendingPostFailedBody id s.db)
  | deletePost {requesterId postId : ℕ} {after : Store}
      (hbody : deletePostBody requesterId postId s.db = .ok after) :
      Effect before s (.deletePost requesterId postId) after
  | createCommunity {id userId now : ℕ} {user : User} {after : Store}
      (huser : Seen before s (.user userId) user)
      (hbody : createCommunityBody id userId now s.db = .ok after) :
      Effect before s (.createCommunity id userId now) after
  | joinCommunity {userId communityId now : ℕ} {user : User} {community : Community}
      {after : Store} (huser : Seen before s (.user userId) user)
      (hcommunity : Seen before s (.community communityId) community)
      (hbody : joinCommunityBody userId communityId now s.db = .ok after) :
      Effect before s (.joinCommunity userId communityId now) after
  | leaveCommunity {userId communityId : ℕ} {after : Store}
      (hbody : leaveCommunityBody userId communityId s.db = .ok after) :
      Effect before s (.leaveCommunity userId communityId) after
  | kickMember {adminId userId communityId : ℕ} {after : Store}
      (hbody : kickMemberBody adminId userId communityId s.db = .ok after) :
      Effect before s (.kickMember adminId userId communityId) after
  | deleteCommunity {userId communityId : ℕ} {after : Store}
      (hbody : deleteCommunityBody communityId s.db = .ok after) :
      Effect before s (.deleteCommunity userId communityId) after
  | createConversation {id userId recipientId : ℕ} {user recipient : User} {after : Store}
      (huser : Seen before s (.user userId) user)
      (hrecipient : Seen before s (.user recipientId) recipient)
      (hbody : createConversation id userId recipientId s.db = .ok after) :
      Effect before s (.initiateConversation id userId recipientId) after
  | acquireConversation {id userId recipientId conversation : ℕ} {after : Store}
      (hbody : acquireForMutation conversation s.db = .ok after) :
      Effect before s (.initiateConversation id userId recipientId) after
  | sendMessage {id senderId : ℕ} {conversationId recipientId : Option ℕ} {sender : User}
      {after : Store} (hsender : Seen before s (.user senderId) sender)
      (hbody : sendMessageBody id senderId conversationId recipientId s.db = .ok after) :
      Effect before s (.sendMessage id senderId conversationId recipientId) after

/-- A conversation is acquired, or created for a recipient who is not banned. -/
theorem resolveConversation_cases {id senderId conversation : ℕ}
    {conversationId recipientId : Option ℕ} {db db' : Store}
    (h : resolveConversation id senderId conversationId recipientId db = .ok (conversation, db')) :
    acquireForMutation conversation db = .ok db' ∨
      ∃ recipient, ∃ u : User, recipientId = some recipient ∧
        db.doc (.user recipient) = some u ∧ u.isBanned = false ∧ conversation = id ∧
        createConversation id senderId recipient db = .ok db' := by
  have hmap : ∀ {x : Except AppError Store} {j : ℕ}, x.map (j, ·) = .ok (conversation, db') →
      j = conversation ∧ x = .ok db' := by
    intro x j hx
    cases x with
    | error e => cases hx
    | ok y =>
      obtain ⟨rfl, rfl⟩ := Prod.mk.inj (Except.ok.inj hx)
      exact ⟨rfl, rfl⟩
  unfold resolveConversation at h
  split at h
  · obtain ⟨rfl, hacquire⟩ := hmap h
    exact .inl hacquire
  · cases h
  · next recipient =>
    split at h
    · cases h
    next u hu =>
    split at h
    · cases h
    next hbanned =>
    split at h
    · obtain ⟨rfl, hacquire⟩ := hmap h
      exact .inl hacquire
    · obtain ⟨rfl, hcreate⟩ := hmap h
      exact .inr ⟨recipient, u, rfl, hu, by simpa using hbanned, rfl, hcreate⟩

/-- A message changes nothing but its conversation. -/
theorem sendMessageBody_cases {id senderId : ℕ} {conversationId recipientId : Option ℕ}
    {db after : Store} (h : sendMessageBody id senderId conversationId recipientId db = .ok after) :
    ∃ conversation,
      resolveConversation id senderId conversationId recipientId db =
        .ok (conversation, after) := by
  unfold sendMessageBody at h
  split at h
  · cases h
  next conversation db' hresolve =>
  split at h
  · cases h
  split at h
  · cases h
  split at h
  · cases h
  split at h
  · cases h
  · rw [← Except.ok.inj h]
    exact ⟨conversation, hresolve⟩

section Sound

variable {D : Discipline Key Doc Command} {c : Command} {past : List (Committed Key Doc)}

/-- A handler that reads is sound when it goes on soundly. -/
private theorem sound_read {next : Store → Handler}
    (h : ∀ s : Committed Key Doc, D.Sound c (s :: past) (next s.db)) :
    D.Sound c past (.read next) := fun s _ _ => h s

/-- A handler that writes is sound when its write is an effect and it goes on soundly. -/
private theorem sound_write {f : Store → Store} {next : Store → Handler}
    (hwrite : ∀ s, (∀ r ∈ past, D.Before r s) → D.effect c s (f s.db))
    (hnext : ∀ s : Committed Key Doc, D.Sound c (s :: past) (next s.db)) :
    D.Sound c past (.write f next) := fun s _ hpast => ⟨hwrite s hpast, hnext s⟩

/-- Reading a document is sound when what follows it is. -/
theorem sound_require {k : Key} {error : AppError} {next : Doc k → Handler}
    (h : ∀ s d, s.db.doc k = some d → D.Sound c (s :: past) (next d)) :
    D.Sound c past (require k error next) := by
  refine sound_read fun s => ?_
  split
  · next d hd => exact h s d hd
  · trivial

/-- Reading a post is sound when what follows it is. -/
theorem sound_requirePost {id : ℕ} {error : AppError} {next : Post → Handler}
    (h : ∀ s d, s.db.doc (.post id) = some d → D.Sound c (s :: past) (next d)) :
    D.Sound c past (requirePost id error next) := by
  refine sound_require fun s d hd => ?_
  split
  · exact h s d hd
  · trivial

/-- A transaction is sound when its body has the effect and what follows it is sound. -/
theorem sound_executeInTransaction {body : Store → Except AppError Store} {next : Handler}
    (hbody : ∀ s after, (∀ r ∈ past, D.Before r s) → body s.db = .ok after → D.effect c s after)
    (hnext : ∀ snapshot current after, body snapshot.db = .ok after →
      D.Sound c (Committed.commit snapshot current after :: past) next) :
    D.Sound c past (executeInTransaction body next) := by
  exact ⟨fun s after _ hpast hafter => hbody s after hpast hafter, fun _ => trivial, hnext⟩

/-- A like is sound when its body is an effect and it goes on soundly. -/
private theorem sound_executeLike {body : Store → Store} {target : String} {next : Handler}
    (hbody : ∀ s, (∀ r ∈ past, D.Before r s) → D.effect c s (body s.db))
    (hnext : ∀ s, D.Sound c (s :: past) next) : D.Sound c past (executeLike body target next) := by
  refine ⟨fun s after _ hpast hafter => ?_, fun error => ?_, fun _ _ _ _ => hnext _⟩
  · obtain rfl := Except.ok.inj hafter
    exact hbody s hpast
  · dsimp only
    split <;> trivial

/-- What `findOne` returns is among the candidates. -/
theorem mem_of_findOne {ids : Finset ℕ} {id : ℕ} (h : findOne ids = some id) : id ∈ ids := by
  have hmem := List.mem_of_head? h
  rwa [Finset.mem_sort] at hmem

/-- A state that was read is before the snapshot of a later transaction. -/
theorem seen {s r : Committed Key Doc} {k : Key} {d : Doc k}
    (hpast : ∀ r ∈ past, D.Before r s) (hr : r ∈ past) (hd : r.db.doc k = some d) :
    Seen D.Before s k d := ⟨r, hpast r hr, hd⟩

end Sound

section Handlers

variable {D : Discipline Key Doc Command}
  (heffect : ∀ c s after, Effect D.Before s c after → D.effect c s after)

include heffect

/-- A body that always succeeds commits what it returns. -/
theorem effect_ok {c : Command} {s : Committed Key Doc} {after after' : Store}
    (h : (Except.ok after : Except AppError Store) = .ok after')
    (he : Effect D.Before s c after) : D.effect c s after' := by
  obtain rfl := Except.ok.inj h
  exact heffect c s after he

/-- A promotion was decided on a user who was no administrator. -/
theorem sound_promoteToAdmin (userId : ℕ) :
    D.Sound (.promoteToAdmin userId) [] (promoteToAdmin userId) := by
  refine sound_require fun r user huser => ?_
  split
  · trivial
  · next hadmin =>
    refine sound_write (fun s hpast => heffect _ _ _ (.promoteToAdmin
      (seen hpast (by simp) huser) (by simpa using hadmin))) fun s => ?_
    split <;> trivial

/-- An unban was decided on a user who was there. -/
theorem sound_unbanUser (userId : ℕ) :
    D.Sound (.unbanUser userId) [] (unbanUser userId) := by
  refine sound_require fun r user huser => sound_write (fun s hpast => heffect _ _ _
    (.unbanUser (seen hpast (by simp) huser))) fun s => ?_
  split <;> trivial

/-- A demotion commits its transaction only. -/
theorem sound_demoteFromAdmin (adminId : Option ℕ) (userId : ℕ) :
    D.Sound (.demoteFromAdmin adminId userId) [] (demoteFromAdmin adminId userId) := by
  cases adminId with
  | none => trivial
  | some adminId =>
    exact sound_executeInTransaction
      (fun s after _ hbody => heffect _ _ _ (.demoteFromAdmin hbody)) fun _ _ _ _ => trivial

/-- A ban commits the purge of another user only. -/
theorem sound_banUser (natural : List ℕ) (adminId userId : ℕ) :
    D.Sound (.banUser natural adminId userId) [] (banUser natural adminId userId) := by
  unfold banUser
  split
  · trivial
  · next hself =>
    refine sound_require fun _ _ _ => sound_require fun _ _ _ => sound_executeInTransaction
      (fun s after _ hbody => heffect _ _ _ (.banUser hself hbody)) fun _ _ _ _ => ?_
    exact sound_require fun _ _ _ => trivial

/-- A deletion commits the purge of another user only. -/
theorem sound_deleteUser (natural : List ℕ) (requestedBy : Option ℕ) (userId : ℕ) :
    D.Sound (.deleteUser natural requestedBy userId) []
      (deleteUser natural requestedBy userId) := by
  unfold deleteUser
  split
  · trivial
  · next hself =>
    exact sound_require fun _ _ _ => sound_executeInTransaction
      (fun s after _ hbody => heffect _ _ _ (.deleteUser hself hbody)) fun _ _ _ _ => trivial

/-- A follow is set between two users who were there. -/
theorem sound_setFollowState (followerId followeeId : ℕ) (shouldFollow : Bool) :
    D.Sound (.setFollowState followerId followeeId shouldFollow) []
      (setFollowState followerId followeeId shouldFollow) := by
  refine sound_require fun r follower hfollower => sound_require fun r' followee hfollowee => ?_
  split
  · trivial
  split
  · trivial
  · next hself =>
    refine sound_read fun s => ?_
    dsimp only
    split
    · trivial
    · refine ⟨fun s after _ hpast hbody => heffect _ _ _ (.setFollowState
        (seen hpast (by simp) hfollower) (seen hpast (by simp) hfollowee) hself hbody),
        fun error => ?_, fun _ _ _ _ => trivial⟩
      dsimp only
      split <;> trivial

/-- A comment is created under a post, and a parent of the same post, that were there. -/
theorem sound_createComment (id userId postId : ℕ) (parentId : Option ℕ) :
    D.Sound (.createComment id userId postId parentId) []
      (createComment id userId postId parentId) := by
  refine sound_require fun _ _ _ => sound_requirePost fun r post hpost => ?_
  cases parentId with
  | none =>
    refine sound_executeInTransaction (fun s after hpast hbody => heffect _ _ _ (.createComment
      (seen hpast (by simp) hpost) (by simp) hbody)) fun _ _ _ _ => ?_
    exact sound_require fun _ _ _ => trivial
  | some parent =>
    refine sound_require fun r' parentComment hparent => ?_
    split
    · next hsame =>
      refine sound_executeInTransaction (fun s after hpast hbody => heffect _ _ _ (.createComment
        (seen hpast (by simp) hpost) (fun p hp => ?_) hbody)) fun _ _ _ _ => ?_
      · obtain rfl := Option.some.inj hp
        exact ⟨parentComment, seen hpast (by simp) hparent, hsame⟩
      · exact sound_require fun _ _ _ => trivial
    · trivial

/-- A comment is deleted from where it was read. -/
theorem sound_deleteComment (userId commentId : ℕ) :
    D.Sound (.deleteComment userId commentId) [] (deleteComment userId commentId) := by
  refine sound_require fun _ user _ => sound_require fun r comment hcomment => ?_
  split
  · trivial
  refine sound_require fun _ post _ => ?_
  split
  · exact sound_executeInTransaction
      (fun s after hpast hbody => effect_ok heffect hbody (.deleteComment
      (seen hpast (by simp) hcomment))) fun _ _ _ _ => trivial
  · trivial

/-- A comment that was there is liked by a user who was there. -/
theorem sound_likeComment (userId commentId : ℕ) :
    D.Sound (.likeComment userId commentId) [] (likeComment userId commentId) := by
  refine sound_require fun r user huser => sound_require fun r' comment hcomment => ?_
  refine sound_executeLike (fun s hpast => heffect _ _ _ (.likeComment
    (seen hpast (by simp) huser) (seen hpast (by simp) hcomment))) fun _ => ?_
  exact sound_require fun _ _ _ => trivial

/-- A post that was there is liked by a user who was there. -/
theorem sound_likeActionByPublicId (userId postId : ℕ) :
    D.Sound (.likeActionByPublicId userId postId) [] (likeActionByPublicId userId postId) := by
  refine sound_require fun r user huser => sound_requirePost fun r' post hpost => ?_
  refine sound_executeLike (fun s hpast => heffect _ _ _ (.likeActionByPublicId
    (seen hpast (by simp) huser) (seen hpast (by simp) hpost))) fun _ => ?_
  exact sound_requirePost fun _ _ _ => trivial

/-- A post that was there is reposted by a user who was there. -/
theorem sound_repostPost (id userId target : ℕ) :
    D.Sound (.repostPost id userId target) [] (repostPost id userId target) := by
  refine sound_require fun r user huser => sound_requirePost fun r' post hpost => ?_
  refine sound_read fun s => ?_
  split
  · trivial
  · refine ⟨fun s after _ hpast hbody => heffect _ _ _ (.repostPost
      (seen hpast (by simp) huser) (seen hpast (by simp) hpost) hbody), fun error => ?_,
      fun _ _ _ _ => sound_requirePost fun _ _ _ => trivial⟩
    dsimp only
    split
    · refine sound_read fun s => ?_
      split <;> trivial
    · trivial

/-- A repost that was there is deleted. -/
theorem sound_unrepostPost (userId target : ℕ) :
    D.Sound (.unrepostPost userId target) [] (unrepostPost userId target) := by
  refine sound_require fun r user huser => sound_requirePost fun r' post hpost => ?_
  refine sound_read fun s => ?_
  dsimp only
  split
  · trivial
  · next repost hrepost =>
    obtain ⟨k, hk, hmem⟩ := Finset.mem_biUnion.mp (mem_of_findOne hrepost)
    obtain ⟨d, hd, -⟩ := Database.mem_find.mp hk
    cases k with
    | post id =>
      obtain rfl := Finset.mem_singleton.mp hmem
      exact sound_executeInTransaction (fun t after hpast hbody => effect_ok heffect hbody
        (.unrepostPost (seen hpast (by simp) hd))) fun _ _ _ _ => trivial
    | _ => simp at hmem

/-- A post whose upload has failed was created as pending. -/
theorem sound_markPendingPostFailed {id userId : ℕ} {communityId : Option ℕ} {uploaded : Bool}
    {past : List (Committed Key Doc)} {r : Committed Key Doc} {error : AppError}
    (hpost : r.db.doc (.post id) = some (Post.pending userId communityId)) (hr : r ∈ past) :
    D.Sound (.createPost id userId communityId uploaded) past (markPendingPostFailed id error) :=
  ⟨fun _ _ _ hpast hbody => effect_ok heffect hbody
    (.markPendingPostFailed (seen hpast hr hpost)), fun _ => trivial, fun _ _ _ _ => trivial⟩

/-- A post is activated, or marked as failed, after it was created as pending. -/
theorem sound_activatePendingPost {id userId : ℕ} {communityId : Option ℕ} {uploaded : Bool}
    {past : List (Committed Key Doc)} {r t : Committed Key Doc} {user : User}
    (huser : r.db.doc (.user userId) = some user) (hr : r ∈ past)
    (hpost : t.db.doc (.post id) = some (Post.pending userId communityId)) (ht : t ∈ past) :
    D.Sound (.createPost id userId communityId uploaded) past
      (activatePendingPost id userId communityId uploaded) := by
  unfold activatePendingPost
  split
  · exact ⟨fun s after _ hpast hbody => heffect _ _ _
      (.activatePendingPost (seen hpast hr huser) (seen hpast ht hpost) hbody),
      fun _ => sound_markPendingPostFailed heffect hpost ht,
      fun _ _ _ _ => sound_requirePost fun _ _ _ => trivial⟩
  · exact sound_markPendingPostFailed heffect hpost ht

omit heffect in
/-- The commit of a pending post stores it. -/
theorem pending_of_commit {id userId : ℕ} {communityId : Option ℕ}
    {snapshot current : Committed Key Doc} {after : Store}
    (h : createPendingPostBody id userId communityId snapshot.db = .ok after) :
    (snapshot.commit current after).db.doc (.post id) =
      some (Post.pending userId communityId) := by
  obtain ⟨hfree, rfl⟩ := create_eq_ok.mp h
  rw [show (snapshot.commit current _).db.doc (.post id) = _ from
    Database.doc_merge_changed (by rw [Database.doc_put_self, hfree]; simp),
    Database.doc_put_self]

/-- A pending post is created, then activated or marked as failed. -/
theorem sound_createPost (id userId : ℕ) (communityId : Option ℕ) (uploaded : Bool) :
    D.Sound (.createPost id userId communityId uploaded) []
      (createPost id userId communityId uploaded) := by
  refine sound_require fun r user huser => ?_
  cases communityId with
  | none =>
    exact sound_executeInTransaction (fun s after hpast hbody => heffect _ _ _
      (.createPendingPost (seen hpast (by simp) huser) (by simp) hbody))
      fun _ _ _ hbody => sound_activatePendingPost heffect huser (by simp)
        (pending_of_commit hbody) (List.mem_cons_self ..)
  | some community =>
    refine sound_require fun r' c hc => sound_require fun _ _ _ =>
      sound_executeInTransaction (fun s after hpast hbody => heffect _ _ _
        (.createPendingPost (seen hpast (by simp) huser) (fun community' h => ?_) hbody))
        fun _ _ _ hbody => sound_activatePendingPost heffect huser (by simp)
          (pending_of_commit hbody) (List.mem_cons_self ..)
    obtain rfl := Option.some.inj h
    exact ⟨c, seen hpast (by simp) hc⟩

/-- A deletion of a post commits its transaction only. -/
theorem sound_deletePost (requesterId postId : ℕ) :
    D.Sound (.deletePost requesterId postId) [] (deletePost requesterId postId) := by
  exact sound_executeInTransaction
    (fun s after _ hbody => heffect _ _ _ (.deletePost hbody)) fun _ _ _ _ => trivial

/-- A community is created by a user who was there. -/
theorem sound_createCommunity (id userId now : ℕ) :
    D.Sound (.createCommunity id userId now) [] (createCommunity id userId now) := by
  exact sound_require fun r user huser => sound_executeInTransaction
    (fun s after hpast hbody => heffect _ _ _
      (.createCommunity (seen hpast (by simp) huser) hbody)) fun _ _ _ _ => trivial

/-- A community that was there is joined by a user who was there. -/
theorem sound_joinCommunity (userId communityId now : ℕ) :
    D.Sound (.joinCommunity userId communityId now) [] (joinCommunity userId communityId now) := by
  refine sound_require fun r user huser => sound_require fun r' community hcommunity => ?_
  refine sound_read fun s => ?_
  split
  · trivial
  · exact sound_executeInTransaction (fun s after hpast hbody => heffect _ _ _ (.joinCommunity
      (seen hpast (by simp) huser) (seen hpast (by simp) hcommunity) hbody)) fun _ _ _ _ => trivial

/-- A leave commits its transaction only. -/
theorem sound_leaveCommunity (userId communityId : ℕ) :
    D.Sound (.leaveCommunity userId communityId) [] (leaveCommunity userId communityId) := by
  exact sound_require fun _ _ _ => sound_require fun _ _ _ => sound_executeInTransaction
    (fun s after _ hbody => heffect _ _ _ (.leaveCommunity hbody)) fun _ _ _ _ => trivial

/-- A removal of a member commits its transaction only. -/
theorem sound_kickMember (adminId userId communityId : ℕ) :
    D.Sound (.kickMember adminId userId communityId) []
      (kickMember adminId userId communityId) := by
  exact sound_require fun _ _ _ => sound_require fun _ _ _ => sound_require fun _ _ _ =>
    sound_executeInTransaction
      (fun s after _ hbody => heffect _ _ _ (.kickMember hbody)) fun _ _ _ _ => trivial

/-- A deletion of a community commits its transaction only. -/
theorem sound_deleteCommunity (userId communityId : ℕ) :
    D.Sound (.deleteCommunity userId communityId) [] (deleteCommunity userId communityId) := by
  refine sound_require fun _ _ _ => sound_require fun _ _ _ => ?_
  refine sound_read fun s => ?_
  split
  · exact sound_executeInTransaction
      (fun s after _ hbody => heffect _ _ _ (.deleteCommunity hbody)) fun _ _ _ _ => trivial
  · trivial

/-- A conversation is created between two users who were there, or acquired. -/
theorem sound_initiateConversation (id userId recipientId : ℕ) :
    D.Sound (.initiateConversation id userId recipientId) []
      (initiateConversation id userId recipientId) := by
  unfold initiateConversation
  split
  · trivial
  refine sound_require fun r recipient hrecipient => ?_
  split
  · trivial
  refine sound_require fun r' user huser => sound_read fun s => ?_
  split
  · exact sound_executeInTransaction
      (fun t after _ hbody => heffect _ _ _ (.acquireConversation hbody)) fun _ _ _ _ => trivial
  · exact sound_executeInTransaction (fun t after hpast hbody => heffect _ _ _
        (.createConversation (seen hpast (by simp) huser) (seen hpast (by simp) hrecipient) hbody))
      fun _ _ _ _ => sound_executeInTransaction
        (fun t after _ hbody => heffect _ _ _ (.acquireConversation hbody)) fun _ _ _ _ => trivial

/-- A message is sent by a user who was there. -/
theorem sound_sendMessage (id senderId : ℕ) (conversationId recipientId : Option ℕ) :
    D.Sound (.sendMessage id senderId conversationId recipientId) []
      (sendMessage id senderId conversationId recipientId) := by
  refine sound_require fun r sender hsender => ?_
  split
  · trivial
  split
  · trivial
  · exact sound_executeInTransaction (fun s after hpast hbody => heffect _ _ _ (.sendMessage
      (seen hpast (by simp) hsender) hbody)) fun _ _ _ _ => trivial

/-- What the handlers commit is an effect of their commands. -/
theorem handler_sound (c : Command) : D.Sound c [] c.handler := by
  cases c with
  | promoteToAdmin userId => exact sound_promoteToAdmin heffect userId
  | unbanUser userId => exact sound_unbanUser heffect userId
  | demoteFromAdmin adminId userId => exact sound_demoteFromAdmin heffect adminId userId
  | banUser natural adminId userId => exact sound_banUser heffect natural adminId userId
  | deleteUser natural requestedBy userId =>
    exact sound_deleteUser heffect natural requestedBy userId
  | setFollowState followerId followeeId shouldFollow =>
    exact sound_setFollowState heffect followerId followeeId shouldFollow
  | createComment id userId postId parentId =>
    exact sound_createComment heffect id userId postId parentId
  | deleteComment userId commentId => exact sound_deleteComment heffect userId commentId
  | likeComment userId commentId => exact sound_likeComment heffect userId commentId
  | likeActionByPublicId userId postId => exact sound_likeActionByPublicId heffect userId postId
  | repostPost id userId target => exact sound_repostPost heffect id userId target
  | unrepostPost userId target => exact sound_unrepostPost heffect userId target
  | createPost id userId communityId uploaded =>
    exact sound_createPost heffect id userId communityId uploaded
  | deletePost requesterId postId => exact sound_deletePost heffect requesterId postId
  | createCommunity id userId now => exact sound_createCommunity heffect id userId now
  | joinCommunity userId communityId now => exact sound_joinCommunity heffect userId communityId now
  | leaveCommunity userId communityId => exact sound_leaveCommunity heffect userId communityId
  | kickMember adminId userId communityId =>
    exact sound_kickMember heffect adminId userId communityId
  | deleteCommunity userId communityId => exact sound_deleteCommunity heffect userId communityId
  | initiateConversation id userId recipientId =>
    exact sound_initiateConversation heffect id userId recipientId
  | sendMessage id senderId conversationId recipientId =>
    exact sound_sendMessage heffect id senderId conversationId recipientId

end Handlers

end Ascendance.Social
