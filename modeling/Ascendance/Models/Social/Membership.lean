import Ascendance.Core.Ledger
import Ascendance.Models.Social.Identity

/-!
# Communities and their members

A community counts its members, and its creator is its only administrator. Memberships
belong to communities, and profiles list communities of their users.
-/

namespace Ascendance.Social

open Ascendance.Core ContentCleanupService AccountLifecycleService Ledger

/-- The fields that memberships are about. -/
abbrev MembershipFields : Key → Type
  | .user _ => List ℕ
  | .community _ => ℕ × ℤ
  | .member _ _ => Member
  | _ => Unit

/-- What the membership invariant reads of users, communities and members. -/
def membershipFields : Trait Key Doc MembershipFields where
  has k := k.collection ∈ [Collection.users, .communities, .members]
  value
    | .user _, u => u.joinedCommunities
    | .community _, c => (c.creatorId, c.memberCount)
    | .member _ _, m => m
    | .adminMutationGuard, _ => ()
    | .follow _ _, _ => ()
    | .post _, _ => ()
    | .comment _, _ => ()
    | .postLike _ _, _ => ()
    | .commentLike _ _, _ => ()
    | .conversation _, _ => ()

/-- The member counts of communities. -/
def memberCounts : Ledger Key Doc ℕ where
  owner id := .community id
  value _ c := Community.memberCount c
  entry := membersOf

/-- A community needs its creator as an administrator, a membership its community, and a profile
the memberships that it lists. -/
def memberLinks : Links Key Doc where
  needs
    | .community id, c, o => o = .member id c.creatorId
    | .member community _, _, o => o = .community community
    | .user id, u, o => ∃ community ∈ u.joinedCommunities, o = .member community id
    | _, _, _ => False
  serves
    | .community _, .member _ _, m => m.role = .admin
    | _, _, _ => True

/-- An administrator needs the community as its creator. -/
def adminLinks : Links Key Doc where
  needs
    | .member community _, m, o => m.role = .admin ∧ o = .community community
    | _, _, _ => False
  serves
    | .member _ user, .community _, c => c.creatorId = user
    | _, _, _ => True

/-- What holds of communities, memberships and profiles. -/
structure Membership (db : Store) : Prop where
  counts : memberCounts.Balanced db
  links : memberLinks.Linked db
  admins : adminLinks.Linked db
  nodup : ∀ id (u : User), db.doc (.user id) = some u → u.joinedCommunities.Nodup

namespace Membership

variable {db after : Store}

/-- The creator of a community is an administrator of it. -/
theorem creator (h : Membership db) {id : ℕ} {c : Community}
    (hc : db.doc (.community id) = some c) :
    ∃ m : Member, db.doc (.member id c.creatorId) = some m ∧ m.role = .admin :=
  h.links (.community id) c _ hc rfl

/-- A member is one of a community that is there. -/
theorem home (h : Membership db) {community user : ℕ} {m : Member}
    (hm : db.doc (.member community user) = some m) :
    ∃ c : Community, db.doc (.community community) = some c := by
  obtain ⟨c, hc, -⟩ := h.links (.member community user) m _ hm rfl
  exact ⟨c, hc⟩

/-- A listed community has the user as a member. -/
theorem listed (h : Membership db) {user community : ℕ} {u : User}
    (hu : db.doc (.user user) = some u) (hlist : community ∈ u.joinedCommunities) :
    ∃ m : Member, db.doc (.member community user) = some m := by
  obtain ⟨m, hm, -⟩ := h.links (.user user) u _ hu ⟨community, hlist, rfl⟩
  exact ⟨m, hm⟩

/-- An administrator is the creator. -/
theorem admin (h : Membership db) {community user : ℕ} {m : Member}
    (hm : db.doc (.member community user) = some m) (hrole : m.role = .admin) :
    ∃ c : Community, db.doc (.community community) = some c ∧ c.creatorId = user :=
  h.admins (.member community user) m _ hm ⟨hrole, rfl⟩

/-- The membership invariant, from its parts. -/
theorem mk' (hcounts : memberCounts.Balanced db)
    (hcreator : ∀ id (c : Community), db.doc (.community id) = some c →
      ∃ m : Member, db.doc (.member id c.creatorId) = some m ∧ m.role = .admin)
    (hhome : ∀ community user (m : Member), db.doc (.member community user) = some m →
      ∃ c : Community, db.doc (.community community) = some c ∧
        (m.role = .admin → c.creatorId = user))
    (hlisted : ∀ user community (u : User), db.doc (.user user) = some u →
      community ∈ u.joinedCommunities → ∃ m : Member, db.doc (.member community user) = some m)
    (hnodup : ∀ id (u : User), db.doc (.user id) = some u → u.joinedCommunities.Nodup) :
    Membership db where
  counts := hcounts
  nodup := hnodup
  links := by
    intro k d o hd hneeds
    cases k with
    | community id =>
      obtain rfl := hneeds
      obtain ⟨m, hm, hrole⟩ := hcreator id d hd
      exact ⟨m, hm, hrole⟩
    | member community user =>
      obtain rfl := hneeds
      obtain ⟨c, hc, -⟩ := hhome community user d hd
      exact ⟨c, hc, trivial⟩
    | user id =>
      obtain ⟨community, hlist, rfl⟩ := hneeds
      obtain ⟨m, hm⟩ := hlisted id community d hd hlist
      exact ⟨m, hm, trivial⟩
    | _ => exact hneeds.elim
  admins := by
    intro k d o hd hneeds
    cases k with
    | member community user =>
      obtain ⟨hrole, rfl⟩ := hneeds
      obtain ⟨c, hc, hcreator⟩ := hhome community user d hd
      exact ⟨c, hc, hcreator hrole⟩
    | _ => exact hneeds.elim

end Membership

section Same

variable {db after : Store}

/-- A change that leaves the membership fields the same leaves the members. -/
theorem same_member (h : membershipFields.Same db after) (community user : ℕ) :
    after.doc (.member community user) = db.doc (.member community user) := by
  have hsame := h (.member community user) (by simp [membershipFields])
  simpa [Trait.of, membershipFields] using hsame

/-- A change that leaves the membership fields the same leaves creators and counters. -/
theorem same_community (h : membershipFields.Same db after) {id : ℕ} {c : Community}
    (hc : after.doc (.community id) = some c) :
    ∃ c' : Community, db.doc (.community id) = some c' ∧ c.creatorId = c'.creatorId ∧
      c.memberCount = c'.memberCount := by
  obtain ⟨c', hc', hvalue⟩ := h.exists_of_doc (by simp [membershipFields]) hc
  exact ⟨c', hc', Prod.mk.inj hvalue⟩

/-- A change that leaves the membership fields the same leaves the lists of the users. -/
theorem same_user (h : membershipFields.Same db after) {id : ℕ} {u : User}
    (hu : after.doc (.user id) = some u) :
    ∃ u' : User, db.doc (.user id) = some u' ∧ u.joinedCommunities = u'.joinedCommunities :=
  h.exists_of_doc (by simp [membershipFields]) hu

/-- Counts do not change with what is no membership. -/
theorem memberCounts_of_same {i : ℕ} {n : ℤ} (h : membershipFields.Same db after)
    (hlag : memberCounts.LagsAt db i n) : memberCounts.LagsAt after i n := by
  refine hlag.frame (fun c hc => ?_) fun k => ?_
  · obtain ⟨c', hc', -, hcount⟩ := same_community h hc
    exact ⟨c', hc', hcount⟩
  · cases k with
    | member community user => rw [same_member h]
    | _ =>
      unfold memberCounts membersOf
      simp

/-- A change that leaves the membership fields the same keeps the invariant. -/
theorem membership_of_same (h : membershipFields.Same db after) (hm : Membership db) :
    Membership after := by
  refine .mk' (fun i => lagsAt_zero.mp (memberCounts_of_same h (lagsAt_zero.mpr (hm.counts i))))
    (fun id c hc => ?_) (fun community user m hmem => ?_) (fun user community u hu hlist => ?_)
    fun id u hu => ?_
  · obtain ⟨c', hc', hcreator, -⟩ := same_community h hc
    rw [hcreator, same_member h]
    exact hm.creator hc'
  · rw [same_member h] at hmem
    obtain ⟨c, hc⟩ := hm.home hmem
    obtain ⟨c', hc', hcreator, -⟩ := same_community h.symm hc
    refine ⟨c', hc', fun hrole => ?_⟩
    obtain ⟨c'', hc'', hcreator'⟩ := hm.admin hmem hrole
    obtain rfl := Option.some.inj (hc''.symm.trans hc)
    rw [← hcreator, hcreator']
  · obtain ⟨u', hu', hsame⟩ := same_user h hu
    rw [hsame] at hlist
    rw [same_member h]
    exact hm.listed hu' hlist
  · obtain ⟨u', hu', hsame⟩ := same_user h hu
    rw [hsame]
    exact hm.nodup id u' hu'

/-- A change outside users, communities and members leaves the fields the same. -/
theorem Confined.sameMembership {C : List Collection} (h : Confined C db after)
    (hcs : ∀ c ∈ C, c ∉ [Collection.users, .communities, .members]) :
    membershipFields.Same db after :=
  .of_doc_eq fun _ hk => h _ fun hmem => hcs _ hmem hk

/-- A change of users that spares their lists leaves the fields the same. -/
theorem sameMembership_onUsers {f : ℕ → User → User}
    (h : ∀ id u, (f id u).joinedCommunities = u.joinedCommunities) :
    membershipFields.Same db (db.updateMany (onUsers f)) := by
  refine .updateMany fun k d _ => ?_
  cases k <;> first | exact h _ _ | rfl

/-- Updates of communities that keep creator and count keep the membership fields. -/
private theorem sameMembership_onCommunities {f : ℕ → Community → Community}
    (h : ∀ id c, (f id c).creatorId = c.creatorId ∧ (f id c).memberCount = c.memberCount) :
    membershipFields.Same db (db.updateMany (onCommunities f)) := by
  refine .updateMany fun k d _ => ?_
  cases k <;> first | exact Prod.ext (h _ _).1 (h _ _).2 | rfl

private theorem sameMembership_updateUser {id : ℕ} {f : User → User}
    (h : ∀ u, (f u).joinedCommunities = u.joinedCommunities) :
    membershipFields.Same db (db.update (.user id) f) := .update (k := Key.user id) h

/-- Deleting posts leaves the membership fields the same. -/
theorem sameMembership_deletePostGraph (roots : Finset Key) (db : Store) :
    membershipFields.Same db (deletePostGraph roots db) := by
  unfold deletePostGraph
  dsimp only
  split
  · exact .refl db
  · refine .trans (.trans (.trans ((deleteGraph_confined _ _).sameMembership (by decide))
      (Confined.sameMembership (C := [.posts])
        (.updateMany fun _ _ => onPosts_outside (by simp)) (by decide)))
      (sameMembership_onUsers fun _ _ => ?_)) (sameMembership_onCommunities fun _ _ => ?_)
    · split <;> rfl
    · split <;> exact ⟨rfl, rfl⟩

/-- Counting a post keeps the membership fields. -/
private theorem sameMembership_countPost (userId : ℕ) (communityId : Option ℕ) (db : Store) :
    membershipFields.Same db (countPost userId communityId db) := by
  cases communityId with
  | none => exact sameMembership_updateUser fun _ => rfl
  | some community => exact .update (k := Key.community community) fun _ => rfl

/-- Counting a follow keeps the membership fields. -/
private theorem sameMembership_countFollow (followerId followeeId : ℕ) (increment : ℤ)
    (db : Store) :
    membershipFields.Same db (countFollow followerId followeeId increment db) := by
  have hfollowing : membershipFields.Same db (updateFollowingCount followerId increment db) :=
    sameMembership_updateUser fun _ => rfl
  exact hfollowing.trans (sameMembership_updateUser fun _ => rfl)

/-- A follow keeps the membership fields. -/
private theorem sameMembership_setFollowStateBody {followerId followeeId : ℕ} {shouldFollow : Bool}
    (h : setFollowStateBody followerId followeeId shouldFollow db = .ok after) :
    membershipFields.Same db after := by
  rcases setFollowStateBody_eq h with ⟨_, _, rfl⟩ | ⟨_, _, rfl⟩
  · exact .trans (Confined.sameMembership (C := [.follows]) (.put _ (by simp)) (by decide))
      (sameMembership_countFollow _ _ _ _)
  · exact .trans (Confined.sameMembership (C := [.follows]) (.delete (by simp)) (by decide))
      (sameMembership_countFollow _ _ _ _)

end Same

/-- What a command does to memberships. -/
inductive MembershipChange (s : Committed Key Doc) : Command → Store → Prop
  | same {c : Command} {after : Store} (h : membershipFields.Same s.db after) :
      MembershipChange s c after
  | create {id userId now : ℕ} {after : Store}
      (hbody : createCommunityBody id userId now s.db = .ok after) :
      MembershipChange s (.createCommunity id userId now) after
  | join {userId communityId now : ℕ} {after : Store}
      (hbody : joinCommunityBody userId communityId now s.db = .ok after) :
      MembershipChange s (.joinCommunity userId communityId now) after
  | remove {c : Command} {userId communityId : ℕ} {m : Member}
      (hm : s.db.doc (.member communityId userId) = some m)
      (hrole : m.role = .admin → 1 < s.db.count (membersWithRole communityId .admin)) :
      MembershipChange s c (removeMember userId communityId s.db)
  | delete {userId communityId : ℕ} {after : Store}
      (hbody : deleteCommunityBody communityId s.db = .ok after) :
      MembershipChange s (.deleteCommunity userId communityId) after
  | purge {c : Command} {natural : List ℕ} {action : AccountLifecycleAction} {userId : ℕ}
      {after : Store} (hbody : purgeBody natural action userId s.db = .ok after) :
      MembershipChange s c after

/-- The effect of a command is one of the listed changes of memberships. -/
theorem effect_membershipChange {before : Committed Key Doc → Committed Key Doc → Prop}
    {s : Committed Key Doc} {c : Command} {after : Store} (h : Effect before s c after) :
    MembershipChange s c after := by
  have hconfined : ∀ {C} {c : Command}, Confined C s.db after →
      (∀ c ∈ C, c ∉ [Collection.users, .communities, .members]) → MembershipChange s c after :=
    fun h hcs => .same (h.sameMembership hcs)
  cases h with
  | promoteToAdmin => exact .same (sameMembership_updateUser fun _ => rfl)
  | unbanUser => exact .same (sameMembership_updateUser fun _ => rfl)
  | demoteFromAdmin hbody =>
    obtain ⟨db, htouch, rfl⟩ := demoteFromAdminBody_eq hbody
    exact .same (((touch_confined htouch).sameMembership (by decide)).trans
      (sameMembership_updateUser fun _ => rfl))
  | banUser _ hbody => exact .purge hbody
  | deleteUser _ hbody => exact .purge hbody
  | setFollowState _ _ _ hbody => exact .same (sameMembership_setFollowStateBody hbody)
  | createComment _ _ hbody => exact hconfined (createCommentBody_confined hbody) (by decide)
  | deleteComment => exact hconfined (deleteCommentBody_confined _ _ _ _) (by decide)
  | likeComment => exact hconfined (likeCommentBody_confined _ _ _) (by decide)
  | likeActionByPublicId => exact hconfined (likePostBody_confined _ _ _) (by decide)
  | repostPost _ _ hbody =>
    obtain ⟨-, rfl⟩ := createRepostBody_eq hbody
    exact .same (.trans (Confined.sameMembership (C := [.posts])
      (.trans (.put _ (by simp)) (.update (by simp))) (by decide))
      (sameMembership_updateUser fun _ => rfl))
  | unrepostPost => exact .same (sameMembership_deletePostGraph _ _)
  | createPendingPost _ _ hbody =>
    exact hconfined (C := [.posts]) (.create hbody (by simp)) (by decide)
  | activatePendingPost _ _ hbody =>
    obtain ⟨_, _, _, rfl⟩ := activatePendingPostBody_eq hbody
    exact .same (.trans (Confined.sameMembership (C := [.posts]) (.update (by simp)) (by decide))
      (sameMembership_countPost _ _ _))
  | markPendingPostFailed => exact hconfined (C := [.posts]) (.update (by simp)) (by decide)
  | deletePost hbody =>
    obtain ⟨_, rfl⟩ := deletePostBody_eq hbody
    exact .same (sameMembership_deletePostGraph _ _)
  | createCommunity _ hbody => exact .create hbody
  | joinCommunity _ _ hbody => exact .join hbody
  | leaveCommunity hbody =>
    obtain ⟨m, hm, hrole, rfl⟩ := leaveCommunityBody_eq hbody
    exact .remove hm hrole
  | kickMember hbody =>
    obtain ⟨m, hm, hrole, rfl⟩ := kickMemberBody_eq hbody
    exact .remove hm fun h => absurd h hrole
  | deleteCommunity hbody => exact .delete hbody
  | createConversation _ _ hbody => exact hconfined (createConversation_confined hbody) (by decide)
  | acquireConversation hbody => exact hconfined (acquireForMutation_confined hbody) (by decide)
  | sendMessage _ hbody => exact hconfined (sendMessageBody_confined hbody) (by decide)

end Ascendance.Social
