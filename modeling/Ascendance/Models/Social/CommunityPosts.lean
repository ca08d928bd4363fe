import Ascendance.Models.Social.ContentIntegrity
import Ascendance.Models.Social.Membership
import Ascendance.Models.Social.PostCounters

/-!
# Posts of communities in every run

A deletion of a community takes the posts along that it finds on its snapshot. The transaction that
stores a pending post writes nothing of the community, so the two do not conflict: a post stays
without its community when it comes after the deletion, or when the deletion has not seen it.
-/

namespace Ascendance.Social

open Ascendance.Core ContentCleanupService AccountLifecycleService

/-- Posts of a community have it stored. -/
def Housed (db : Store) : Prop :=
  ∀ id (p : Post) community, db.doc (.post id) = some p → p.communityId = some community →
    db.doc (.community community) ≠ none

/-- A community that went has left no posts. -/
def Cleared (db after : Store) : Prop :=
  ∀ community, db.doc (.community community) ≠ none → after.doc (.community community) = none →
    ∀ id (p : Post), after.doc (.post id) = some p → p.communityId ≠ some community

section Bodies

variable {db db' after : Store}

/-- The community of a post is part of its identity. -/
theorem communityId_of_value {id : ℕ} {p q : Post}
    (h : identity.value (.post id) p = identity.value (.post id) q) :
    p.communityId = q.communityId := congrArg (fun t => t.2.2.2) h

/-- Posts keep their community. -/
theorem communityId_of_stays (h : identity.Stays db after) {id : ℕ} {p : Post}
    (hp : after.doc (.post id) = some p) :
    ∃ q : Post, db.doc (.post id) = some q ∧ q.communityId = p.communityId := by
  obtain ⟨q, hq, hvalue⟩ := h.exists_of_doc (identity_post id) hp
  exact ⟨q, hq, communityId_of_value hvalue⟩

/-- No community went. -/
private theorem cleared_of_stored
    (h : ∀ id, db.doc (.community id) ≠ none → after.doc (.community id) ≠ none) :
    Cleared db after := fun community hstored hgone => absurd hgone (h community hstored)

/-- A change that leaves the membership fields the same leaves the communities. -/
private theorem cleared_of_same (h : membershipFields.Same db after) : Cleared db after :=
  cleared_of_stored fun id hstored => by
    obtain ⟨c, hc⟩ := Option.ne_none_iff_exists'.mp hstored
    obtain ⟨c', hc', -⟩ := same_community h.symm hc
    simp [hc']

/-- What goes with the posts that are left alone has left no posts. -/
theorem Cleared.trans (h : Cleared db db') (h' : Cleared db' after)
    (hstays : identity.Stays db' after) : Cleared db after := by
  intro community hstored hgone id p hp
  cases hmid : db'.doc (.community community) with
  | none =>
    obtain ⟨q, hq, hsame⟩ := communityId_of_stays hstays hp
    rw [← hsame]
    exact h community hstored hmid id q hq
  | some c => exact h' community (by simp [hmid]) hgone id p hp

/-- Posts were only deleted, and communities went with their posts. -/
private def Clears (db after : Store) : Prop := identity.Stays db after ∧ Cleared db after

private theorem Clears.refl (db : Store) : Clears db db :=
  ⟨.refl db, cleared_of_stored fun _ hstored => hstored⟩

private theorem Clears.trans (h : Clears db db') (h' : Clears db' after) : Clears db after :=
  ⟨h.1.trans h'.1, h.2.trans h'.2 h'.1⟩

/-- A change outside the communities clears when posts stay. -/
private theorem clears_of_confined {C : List Collection} (h : Confined C db after)
    (hC : .communities ∉ C) (hstays : identity.Stays db after) : Clears db after :=
  ⟨hstays, cleared_of_stored fun id hstored => by rwa [h (.community id) hC]⟩

/-- Updates of communities clear. -/
private theorem clears_onCommunities {f : ℕ → Community → Community} :
    Clears db (db.updateMany (onCommunities f)) :=
  ⟨stays_onCommunities, cleared_of_stored fun id hstored => by
    rw [Database.doc_updateMany]
    exact fun hnone => hstored (Option.map_eq_none_iff.mp hnone)⟩

private theorem clears_onUsers {f : ℕ → User → User} : Clears db (db.updateMany (onUsers f)) :=
  clears_of_confined (C := [.users]) (.updateMany fun _ _ => onUsers_outside (by simp)) (by simp)
    stays_onUsers

/-- Deleting posts clears. -/
private theorem clears_deletePostGraph (roots : Finset Key) (db : Store) :
    Clears db (deletePostGraph roots db) :=
  ⟨stays_deletePostGraph roots db, cleared_of_same (sameMembership_deletePostGraph roots db)⟩

private theorem clears_deleteMembers (p : ℕ → ℕ → Member → Bool) (db : Store) :
    Clears db (db.deleteMany (members p)) :=
  clears_of_confined (C := [.members]) (.deleteMany fun _ _ => members_outside (by simp)) (by simp)
    (.deleteMany _)

/-- The posts of a community go with it. -/
theorem communityId_deletePostGraph {communityId id : ℕ} {p : Post}
    (hp : (deletePostGraph (findPostIdsByCommunity communityId db) db).doc (.post id) = some p) :
    p.communityId ≠ some communityId := by
  intro hcommunity
  obtain ⟨q, hq, hsame⟩ := communityId_of_stays (stays_deletePostGraph _ db) hp
  have hroot : Key.post id ∈ findPostIdsByCommunity communityId db :=
    Database.mem_find.mpr ⟨q, hq, by simp [hsame, hcommunity]⟩
  cases hp.symm.trans (doc_deletePostGraph (root_mem_collectPostGraph hq hroot))

/-- A community without posts may go. -/
private theorem clears_deleteCommunity {communityId : ℕ}
    (hnone : ∀ id (p : Post), db.doc (.post id) = some p → p.communityId ≠ some communityId) :
    Clears db (db.delete (.community communityId)) := by
  refine ⟨.delete _, fun community hstored hgone id p hp => ?_⟩
  rw [Database.doc_delete_ne db (by simp)] at hp
  by_cases hcommunity : community = communityId
  · rw [hcommunity]
    exact hnone id p hp
  · rw [Database.doc_delete_ne db (by simpa using hcommunity)] at hgone
    exact absurd hgone hstored

/-- A community goes with its posts and members. -/
private theorem clears_deleteWithPosts (communityId : ℕ) (db : Store) :
    Clears db (((deletePostGraph (findPostIdsByCommunity communityId db) db).deleteMany
      (membersOf communityId)).delete (.community communityId)) := by
  refine ((clears_deletePostGraph _ db).trans (clears_deleteMembers _ _)).trans
    (clears_deleteCommunity fun id p hp => ?_)
  exact communityId_deletePostGraph (Database.doc_deleteMany_eq_some.mp hp).1

/-- A created community gets a successor, or goes with its posts. -/
private theorem clears_cleanupCreated {natural : List ℕ} {userId communityId : ℕ}
    {deleted : List ℕ}
    (h : cleanupCreated natural userId communityId db = .ok (after, deleted)) :
    Clears db after := by
  have hstays := stays_cleanupCreated (T := identity) h
  rcases cleanupCreated_eq h with ⟨user, _, _, rfl⟩ | ⟨_, _, rfl⟩
  · refine ⟨hstays, cleared_of_stored fun id hstored => ?_⟩
    rwa [Database.doc_update_ne (k := Key.member communityId user) _ _ (by simp),
      ← Option.isSome_iff_ne_none, Database.isSome_doc_update, Option.isSome_iff_ne_none]
  · exact clears_deleteWithPosts communityId db

/-- A purge takes no community from its posts. -/
private theorem clears_purgeUser {natural : List ℕ} {action : AccountLifecycleAction} {userId : ℕ}
    (h : purgeUser natural action userId db = .ok after) : Clears db after := by
  obtain ⟨db', hcommunity, rfl⟩ := purgeUser_eq h
  obtain ⟨db'', deleted, hall, rfl⟩ := communityCleanup_eq hcommunity
  have hcontent : ∀ db, Clears db (contentCleanup userId db) := fun db =>
    ((clears_deletePostGraph _ db).trans (clears_of_confined (tombstoneComments_confined userId _)
      (by simp) (stays_tombstoneComments userId _))).trans (clears_of_confined
      (removePostInteractions_confined userId _) (by simp) (stays_removePostInteractions userId _))
  have hrelations : ∀ db, Clears db (removeRelationshipsAndActivity userId db) := fun db =>
    (clears_of_confined (C := [.follows]) (.deleteMany fun _ _ => follows_outside (by simp))
      (by simp) (.deleteMany _)).trans clears_onUsers
  have hconversations : ∀ db, Clears db (preserve userId db) := fun db =>
    clears_of_confined (preserve_confined userId db) (by simp)
      ((preserve_confined userId db).stays (by decide))
  have hleave : ∀ affected db, Clears db (leaveCommunities userId affected deleted db) :=
    fun _ db => ((clears_deleteMembers _ db).trans clears_onCommunities).trans clears_onUsers
  exact (((((hcontent db).trans (hrelations _)).trans (hconversations _)).trans
    (cleanupAll_relates .refl (fun _ _ _ => .trans) (fun _ _ _ _ => clears_cleanupCreated)
      hall)).trans (hleave _ _)).trans (clears_of_confined (finalize_confined action userId _)
      (by simp) (stays_finalize action userId _))

/-- What a command takes away leaves no post without its community. -/
theorem effect_cleared {before : Committed Key Doc → Committed Key Doc → Prop}
    {snapshot : Committed Key Doc} {c : Command} (heffect : Effect before snapshot c after) :
    Cleared snapshot.db after := by
  cases effect_membershipChange heffect with
  | same h => exact cleared_of_same h
  | @create community userId _ _ hbody =>
    obtain ⟨-, rfl⟩ := create_map_eq_ok.mp hbody
    refine cleared_of_stored fun id hstored => ?_
    unfold addCreator
    dsimp only
    rw [Database.doc_update_ne (k := Key.user userId) _ _ (by simp),
      Database.doc_put_ne _ (k := Key.member community userId) _ (by simp)]
    by_cases hid : Key.community id = .community community
    · obtain rfl := Key.community.inj hid
      rw [Database.doc_put_self]
      exact Option.some_ne_none _
    · rwa [Database.doc_put_ne _ _ hid]
  | @join userId communityId _ _ hbody =>
    obtain ⟨-, rfl⟩ := create_map_eq_ok.mp hbody
    refine cleared_of_stored fun id hstored => ?_
    rw [← Option.isSome_iff_ne_none] at hstored ⊢
    simpa [countMember, incrementMemberCount] using hstored
  | remove =>
    refine cleared_of_stored fun id hstored => ?_
    rw [← Option.isSome_iff_ne_none] at hstored ⊢
    simpa [removeMember, incrementMemberCount] using hstored
  | delete hbody =>
    obtain ⟨-, rfl⟩ := deleteCommunityBody_eq hbody
    exact ((clears_deleteWithPosts _ _).trans clears_onUsers).2
  | purge hbody =>
    rcases purgeBody_eq hbody with h | ⟨db', htouch, h⟩
    · exact (clears_purgeUser h).2
    · have hconfined := touch_confined htouch
      exact ((clears_of_confined hconfined (by simp) (hconfined.stays (by decide))).trans
        (clears_purgeUser h)).2

end Bodies

/-- A post finds its community when it is stored, and the deletion of a community finds its posts on
its snapshot. -/
structure FindsCommunities (snapshot current : Committed Key Doc) (after : Store) : Prop where
  stored : ∀ id (p : Post) community, snapshot.db.doc (.post id) = none →
    after.doc (.post id) = some p → p.communityId = some community →
    current.db.doc (.community community) ≠ none
  seen : ∀ community, snapshot.db.doc (.community community) ≠ none →
    after.doc (.community community) = none → ∀ id (p : Post), current.db.doc (.post id) = some p →
    p.communityId = some community → snapshot.db.doc (.post id) ≠ none

/-- A commit that finds communities and posts leaves no post without its community. -/
private theorem housed_commit {before : Committed Key Doc → Committed Key Doc → Prop}
    {snapshot current : Committed Key Doc} {after : Store} {c : Command}
    (hcurrent : Housed current.db) (hsince : Committed.Since serial snapshot current)
    (hkeeps : identity.Keeps snapshot current) (hfresh : Committed.Fresh snapshot current after)
    (heffect : Effect before snapshot c after)
    (hfinds : FindsCommunities snapshot current after) :
    Housed (snapshot.commit current after).db := by
  intro id p community hp hcommunity
  -- The community was there before, and it does not go with this commit.
  suffices h : current.db.doc (.community community) ≠ none ∧
      (after.doc (.community community) ≠ snapshot.db.doc (.community community) →
        after.doc (.community community) ≠ none) by
    by_cases hsame : after.doc (.community community) = snapshot.db.doc (.community community)
    · rw [show (snapshot.commit current after).db.doc _ = _ from Database.doc_merge_same hsame]
      exact h.1
    · rw [show (snapshot.commit current after).db.doc _ = _ from Database.doc_merge_changed hsame]
      exact h.2 hsame
  have hcleared := effect_cleared heffect community
  by_cases hpost : after.doc (.post id) = snapshot.db.doc (.post id)
  · have hp' : current.db.doc (.post id) = some p := (Database.doc_merge_same hpost).symm.trans hp
    refine ⟨hcurrent id p community hp' hcommunity, fun hchanged hgone => ?_⟩
    have hstored : snapshot.db.doc (.community community) ≠ none :=
      fun hnone => hchanged (hgone.trans hnone.symm)
    obtain ⟨q, hq⟩ := Option.ne_none_iff_exists'.mp
      (hfinds.seen community hstored hgone id p hp' hcommunity)
    -- The post is the one that the deletion has seen.
    refine hcleared hstored hgone id q (hpost.trans hq) ?_
    rcases hkeeps _ _ (identity_post id) (Trait.of_eq_some hq) with hnone | hsome
    · cases hp'.symm.trans (Trait.of_eq_none.mp hnone)
    · have hvalue := Option.some.inj (hsome.symm.trans (Trait.of_eq_some hp'))
      exact (communityId_of_value hvalue).trans hcommunity
  · have hp' : after.doc (.post id) = some p := (Database.doc_merge_changed hpost).symm.trans hp
    refine ⟨?_, fun hchanged hgone => ?_⟩
    · rcases effect_identity heffect (identity_post id) with hnone | hsame | ⟨hnew, -⟩
      · cases hp'.symm.trans (Trait.of_eq_none.mp hnone)
      · obtain ⟨q, hq, hvalue⟩ := Option.map_eq_some_iff.mp
          (hsame.symm.trans (Trait.of_eq_some hp'))
        exact hcurrent id q community ((hsince.unchanged hfresh hpost).trans hq)
          ((communityId_of_value hvalue).trans hcommunity)
      · exact hfinds.stored id p community hnew hp' hcommunity
    · have hstored : snapshot.db.doc (.community community) ≠ none :=
        fun hnone => hchanged (hgone.trans hnone.symm)
      exact hcleared hstored hgone id p hp' hcommunity

/-- What is referred to is there, on the snapshot or when the commit comes. -/
def FindsReferences (c : Command) (snapshot current : Committed Key Doc) (after : Store) : Prop :=
  FindsTargets c snapshot current after ∧ FindsCommunities snapshot current after

/-- The discipline keeps content linked and housed. -/
private theorem contentReferences_kept :
    (discipline (fun c => contentLinks.Linked c.db ∧ Housed c.db) contentLinks.Settled
      FindsReferences).Kept := by
  refine discipline_kept .refl (fun _ _ _ hab hbc h h' => .trans hab hbc h h') ?_
  rintro c snapshot current after ⟨⟨hcoherent, hl, -⟩, hsince, hkeeps, hsettled⟩ -
    ⟨hl', hhoused'⟩ hfresh - heffect ⟨htargets, hcommunities⟩
  obtain ⟨hafter, htouches⟩ := effect_content heffect htargets hcoherent.threaded hl
  exact ⟨⟨Links.linked_commit_of_touches hl' hafter hsince hfresh hsettled htouches,
    housed_commit hhoused' hsince hkeeps hfresh heffect hcommunities⟩,
    Links.settled_commit hsince hfresh htouches⟩

/-- In every run whose commits find what they refer to, comments have their post and their parent,
likes have what is liked, reposts have their target, and posts of communities have their
community. -/
theorem contentReferences {c : Committed Key Doc} (hcoherent : Coherent c)
    (hl : contentLinks.Linked c.db) (hhoused : Housed c.db) {es : List (Event Command)}
    {w : SocialWorld}
    (hrun : Run (Restrict (Graph (World.step runtime)) (World.Commits FindsReferences))
      (World.initial c) es w) :
    (∀ id (c : Comment), w.state.db.doc (.comment id) = some c →
      (∃ p : Post, w.state.db.doc (.post c.postId) = some p) ∧
      ∀ parent, c.parentId = some parent →
        ∃ c' : Comment, w.state.db.doc (.comment parent) = some c' ∧ c'.postId = c.postId) ∧
    (∀ commentId userId, w.state.db.doc (.commentLike commentId userId) ≠ none →
      ∃ c : Comment, w.state.db.doc (.comment commentId) = some c) ∧
    (∀ postId userId, w.state.db.doc (.postLike postId userId) ≠ none →
      ∃ p : Post, w.state.db.doc (.post postId) = some p) ∧
    (∀ id (p : Post), w.state.db.doc (.post id) = some p → ∀ target, p.repostOf = some target →
      ∃ p' : Post, w.state.db.doc (.post target) = some p') ∧
    ∀ id (p : Post), w.state.db.doc (.post id) = some p →
      ∀ communityId, p.communityId = some communityId →
        ∃ community : Community, w.state.db.doc (.community communityId) = some community := by
  obtain ⟨hcoherent', hl', hhoused'⟩ :=
    discipline_run_coherent contentReferences_kept hcoherent ⟨hl, hhoused⟩ hrun
  obtain ⟨hcomments, hcommentLikes, hpostLikes, hreposts⟩ := content_of_linked hcoherent' hl'
  exact ⟨hcomments, hcommentLikes, hpostLikes, hreposts, fun id p hp communityId hcommunity =>
    Option.ne_none_iff_exists'.mp (hhoused' id p communityId hp hcommunity)⟩

/-- What a commit refers to is there, and nothing is deleted or nothing has come since the
snapshot. -/
def findsReferences (c : Command) (snapshot current : Committed Key Doc) (after : Store) : Bool :=
  findsTargets c snapshot current after &&
  decide (after.count (posts fun id p => (snapshot.db.doc (.post id)).isNone &&
    p.communityId.any fun community => (current.db.doc (.community community)).isNone) = 0) &&
  decide ((∀ k ∈ snapshot.db.ids, k ∈ after.ids) ∨ ∀ k ∈ current.db.ids, k ∈ snapshot.db.ids)

/-- The check is enough. -/
theorem findsReferences_sound (c : Command) (snapshot current : Committed Key Doc) (after : Store)
    (h : findsReferences c snapshot current after = true) :
    FindsReferences c snapshot current after := by
  obtain ⟨h, hkept⟩ := Bool.and_eq_true_iff.mp h
  obtain ⟨htargets, hnew⟩ := Bool.and_eq_true_iff.mp h
  refine ⟨findsTargets_sound c snapshot current after htargets,
    fun id p community hfree hp hcommunity hgone => ?_,
    fun community hstored hgone id p hp hcommunity => ?_⟩
  · have hnone := Database.count_eq_zero.mp (of_decide_eq_true hnew) (.post id) p hp
    simp [hfree, hcommunity, hgone] at hnone
  · rw [← Option.isSome_iff_ne_none, ← snapshot.db.mem_ids]
    rcases of_decide_eq_true hkept with hall | hall
    · have hmem := hall (.community community)
        ((snapshot.db.mem_ids _).mpr (Option.isSome_iff_ne_none.mpr hstored))
      rw [after.mem_ids, hgone] at hmem
      cases hmem
    · exact hall (.post id) ((current.db.mem_ids _).mpr (by rw [hp]; rfl))

private theorem housed_twoUsers : Housed twoUsers := by
  intro id p community hp
  cases (twoUsers_eq_none (k := .post id) (by simp)).symm.trans hp

/-- A community goes with its post, while somebody posts in another one. -/
theorem contentReferences_deleteCommunity :
    ∃ w : SocialWorld, Run (Restrict (Graph (World.step runtime)) (World.Commits FindsReferences))
        (World.initial (.ofDatabase twoUsers))
        [.start 0 (.createCommunity 5 1 0), .advance 0, .advance 0, .advance 0,
          .start 1 (.createPost 10 1 (some 5) true), .advance 1, .advance 1, .advance 1, .advance 1,
          .advance 1, .advance 1, .advance 1, .advance 1, .start 2 (.createCommunity 6 2 0),
          .advance 2, .advance 2, .advance 2, .start 3 (.createPost 11 2 (some 6) true),
          .start 4 (.deleteCommunity 1 5), .advance 3, .advance 4, .advance 3, .advance 4,
          .advance 3, .advance 4, .advance 3, .advance 4, .advance 4, .advance 3, .advance 3,
          .advance 3, .advance 3] w ∧
      ∀ id (p : Post), w.state.db.doc (.post id) = some p →
        ∀ communityId, p.communityId = some communityId →
          ∃ community : Community, w.state.db.doc (.community communityId) = some community := by
  let check (w : SocialWorld) (e : Event Command) : Bool :=
    (w.attempt e).all fun (c, snapshot, after) => findsReferences c snapshot w.state after
  obtain ⟨w, hw⟩ := Option.isSome_iff_exists.mp (by decide +kernel :
    (exec (fun w e => if check w e then World.step runtime w e else none)
      (World.initial (.ofDatabase twoUsers) : SocialWorld)
      [.start 0 (.createCommunity 5 1 0), .advance 0, .advance 0, .advance 0,
        .start 1 (.createPost 10 1 (some 5) true), .advance 1, .advance 1, .advance 1, .advance 1,
        .advance 1, .advance 1, .advance 1, .advance 1, .start 2 (.createCommunity 6 2 0),
        .advance 2, .advance 2, .advance 2, .start 3 (.createPost 11 2 (some 6) true),
        .start 4 (.deleteCommunity 1 5), .advance 3, .advance 4, .advance 3, .advance 4,
        .advance 3, .advance 4, .advance 3, .advance 4, .advance 4, .advance 3, .advance 3,
        .advance 3, .advance 3]).isSome = true)
  have hrun := exec_restrict (fun w e h => World.commits_of_all findsReferences_sound h) hw
  exact ⟨w, hrun, (contentReferences (coherent_of_unreferring (by decide)) contentLinked_twoUsers
    housed_twoUsers hrun).2.2.2.2⟩

/-- A post comes to a community that was deleted since its handler had read it. -/
theorem contentReferences_pendingPost :
    ¬ ∀ (es : List (Event Command)) (w : SocialWorld),
      Run (Graph (World.step runtime)) (World.initial (.ofDatabase twoUsers)) es w →
      ∀ id (p : Post), w.state.db.doc (.post id) = some p →
        ∀ communityId, p.communityId = some communityId →
          ∃ community : Community, w.state.db.doc (.community communityId) = some community := by
  intro hhoused
  have horphan : ((exec (World.step runtime) (World.initial (.ofDatabase twoUsers) : SocialWorld)
      [.start 0 (.createCommunity 5 1 0), .advance 0, .advance 0, .advance 0,
        .start 1 (.createPost 10 1 (some 5) true), .advance 1, .advance 1, .advance 1,
        .start 2 (.deleteCommunity 1 5), .advance 2, .advance 2, .advance 2, .advance 2, .advance 2,
        .advance 1, .advance 1]).any fun w =>
      ((w.state.db.doc (.post 10)).any fun p : Post => p.communityId == some 5) &&
        (w.state.db.doc (.community 5)).isNone) = true := by
    decide +kernel
  obtain ⟨w, hrun, horphan⟩ := exec_any horphan
  obtain ⟨hpost, hgone⟩ := Bool.and_eq_true_iff.mp horphan
  obtain ⟨p, hp, hcommunity⟩ := (Option.any_eq_true _ _).mp hpost
  obtain ⟨community, hstored⟩ := hhoused _ w hrun 10 p hp 5 (eq_of_beq hcommunity)
  cases (Option.isNone_iff_eq_none.mp hgone).symm.trans hstored

end Ascendance.Social
