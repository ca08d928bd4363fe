import Ascendance.Models.Social.Counters
import Ascendance.Models.Social.PendingPosts

/-!
# Post counters

An active post counts for its community, or for its author outside of communities. A deletion
counts the posts of communities again, and those of the authors with the posts in communities.
-/

namespace Ascendance.Social

open Ascendance.Core ContentCleanupService AccountLifecycleService Ledger

/-- The counters of posts, and what a deletion sets the counter of an author to. -/
inductive PostCounter
  | ofUser (userId : ℕ)
  | ofCommunity (communityId : ℕ)
  | allOfUser (userId : ℕ)
  deriving DecidableEq, Repr

namespace PostCounter

/-- The document that holds the counter. -/
def owner : PostCounter → Key
  | ofUser id | allOfUser id => .user id
  | ofCommunity id => .community id

/-- What the counter says. -/
def value : ∀ i : PostCounter, Doc i.owner → ℤ
  | ofUser _, u | allOfUser _, u => User.postCount u
  | ofCommunity _, c => Community.postCount c

/-- The posts that count when they are active. -/
def counts : PostCounter → Post → Bool
  | ofUser id, p => p.user == id && p.communityId == none
  | ofCommunity id, p => p.communityId == some id
  | allOfUser id, p => p.user == id

end PostCounter

/-- The counters of posts with what they count. -/
def postCounts : Ledger Key Doc PostCounter where
  owner := PostCounter.owner
  value := PostCounter.value
  entry i := posts fun _ p => i.counts p && p.isActive

/-- A post refers to the owners of its counters. -/
theorem postCounts_follows : postCounts.Follows references := by
  intro i k d h
  change Refers k (identity.value k d) i.owner
  cases k with
  | post id =>
    obtain ⟨hcounts, -⟩ := Bool.and_eq_true_iff.mp h
    cases i <;> simp_all [PostCounter.counts, PostCounter.owner, Refers, identity]
  | _ => cases h

/-- The owners of the counters are written one transaction after the other. -/
theorem serial_postCounts (i : PostCounter) : serial (postCounts.owner i) = true := by
  cases i <;> rfl

/-- The counter that a new post moves. -/
def counterOf (userId : ℕ) : Option ℕ → PostCounter
  | none => .ofUser userId
  | some communityId => .ofCommunity communityId

/-- The fields that the counters are about. -/
abbrev PostFields : Key → Type
  | .user _ | .community _ => ℤ
  | .post _ => ℕ × Option ℕ × Bool
  | _ => Unit

/-- The collections of the counters and of what they count. -/
def posting : List Collection := [.users, .posts, .communities]

/-- What the post counters read of users, communities and posts. -/
def postFields : Trait Key Doc PostFields where
  has k := k.collection ∈ posting
  value
    | .user _, u => u.postCount
    | .community _, c => c.postCount
    | .post _, p => (p.user, p.communityId, p.isActive)
    | .adminMutationGuard, _ => ()
    | .follow _ _, _ => ()
    | .comment _, _ => ()
    | .postLike _ _, _ => ()
    | .commentLike _ _, _ => ()
    | .member _ _, _ => ()
    | .conversation _, _ => ()

section Same

variable {db after : Store} {i : PostCounter} {n : ℤ}

private theorem postFields_owner (i : PostCounter) : postFields.has i.owner := by
  cases i <;> simp [postFields, posting, PostCounter.owner]

/-- What counts shows in the fields. -/
theorem entry_of_fields {k : Key} {d e : Doc k} (hk : postFields.has k)
    (h : postFields.value k d = postFields.value k e) :
    postCounts.entry i k d = postCounts.entry i k e := by
  cases k with
  | post id =>
    obtain ⟨huser, hrest⟩ := Prod.mk.inj h
    obtain ⟨hcommunity, hactive⟩ := Prod.mk.inj hrest
    cases i <;> simp [postCounts, PostCounter.counts, huser, hcommunity, hactive]
  | _ => rfl

/-- A change that leaves the post fields the same leaves the lags. -/
theorem postCounts_of_same (h : postFields.Same db after) (hlag : postCounts.LagsAt db i n) :
    postCounts.LagsAt after i n := by
  refine hlag.frame (fun d hd => ?_) fun k => ?_
  · obtain ⟨d', hd', hvalue⟩ := h.exists_of_doc (postFields_owner i) hd
    refine ⟨d', hd', ?_⟩
    cases i <;> exact hvalue
  · by_cases hk : postFields.has k
    · cases hdoc : after.doc k with
      | none => rw [Trait.of_eq_none.mp ((h k hk).symm.trans (Trait.of_eq_none.mpr hdoc))]
      | some d =>
        obtain ⟨d', hd', hvalue⟩ := h.exists_of_doc hk hdoc
        rw [hd', Option.any_some, Option.any_some, entry_of_fields hk hvalue]
    · have hentry : postCounts.entry i k = fun _ => false := by
        cases k with
        | post id => exact absurd (by simp [postFields, posting]) hk
        | _ => rfl
      rw [hentry]
      cases after.doc k <;> cases db.doc k <;> rfl

/-- A change outside the posting collections leaves the post fields the same. -/
theorem Confined.samePosts {C : List Collection} (h : Confined C db after)
    (hcs : ∀ c ∈ C, c ∉ posting) : postFields.Same db after :=
  .of_doc_eq fun _ hk => h _ fun hmem => hcs _ hmem hk

private theorem samePosts_onUsers {f : ℕ → User → User}
    (h : ∀ id u, (f id u).postCount = u.postCount) :
    postFields.Same db (db.updateMany (onUsers f)) := by
  refine .updateMany fun k d _ => ?_
  cases k <;> first | exact h _ _ | rfl

private theorem samePosts_onCommunities {f : ℕ → Community → Community}
    (h : ∀ id c, (f id c).postCount = c.postCount) :
    postFields.Same db (db.updateMany (onCommunities f)) := by
  refine .updateMany fun k d _ => ?_
  cases k <;> first | exact h _ _ | rfl

/-- A change of posts that spares their content leaves the post fields the same. -/
theorem samePosts_onPosts {f : ℕ → Post → Post} (h : ∀ id p, (f id p).content = p.content) :
    postFields.Same db (db.updateMany (onPosts f)) := by
  refine .updateMany fun k d _ => ?_
  cases k with
  | post id =>
    have hcontent := h id d
    simp only [Post.content, Prod.mk.injEq] at hcontent
    simp [postFields, Post.isActive, hcontent]
  | _ => rfl

/-- An update of a user that spares the counter leaves the post fields the same. -/
theorem samePosts_updateUser (id : ℕ) {f : User → User} (h : ∀ u, (f u).postCount = u.postCount) :
    postFields.Same db (db.update (.user id) f) := .update (k := Key.user id) h

/-- An update of a community that spares the counter leaves the post fields the same. -/
theorem samePosts_updateCommunity (id : ℕ) {f : Community → Community}
    (h : ∀ c, (f c).postCount = c.postCount) : postFields.Same db (db.update (.community id) f) :=
  .update (k := Key.community id) h

/-- An update of a post that spares its content leaves the post fields the same. -/
theorem samePosts_updatePost (id : ℕ) {f : Post → Post} (h : ∀ p, (f p).content = p.content) :
    postFields.Same db (db.update (.post id) f) := by
  rw [update_post]
  refine samePosts_onPosts fun j p => ?_
  split
  · exact h p
  · rfl

end Same

section Steps

variable {db after : Store} {i : PostCounter} {n : ℤ}

/-- A post is counted by the one counter of its place. -/
theorem counts_counterOf (hi : ∀ id, i ≠ .allOfUser id) (p : Post) :
    i.counts p = decide (i = counterOf p.user p.communityId) := by
  cases i with
  | ofUser id =>
    cases hcommunity : p.communityId <;>
      simp [PostCounter.counts, counterOf, hcommunity, eq_comm (a := id), beq_eq_decide]
  | ofCommunity id =>
    cases hcommunity : p.communityId <;>
      simp [PostCounter.counts, counterOf, hcommunity, eq_comm (a := id), beq_eq_decide]
  | allOfUser id => exact absurd rfl (hi id)

/-- A new post is counted when it is active. -/
theorem lagsAt_putPost {id : ℕ} {p : Post} (h : postCounts.LagsAt db i n)
    (hfree : db.doc (.post id) = none) :
    postCounts.LagsAt (db.put (.post id) p) i (n + (i.counts p && p.isActive).toNat) :=
  LagsAt.put h hfree (by cases i <;> simp [postCounts, PostCounter.owner])

/-- A post that becomes active is counted. -/
theorem lagsAt_activate {id : ℕ} {p : Post} (h : postCounts.LagsAt db i n)
    (hp : db.doc (.post id) = some p) (hpending : p.status = some .pending) :
    postCounts.LagsAt (db.update (.post id) fun p : Post => { p with status := some .active }) i
      (n + (i.counts p).toNat) := by
  have howner : postCounts.owner i ≠ .post id := by cases i <;> simp [postCounts, PostCounter.owner]
  let activate : Post → Post := fun p => { p with status := some .active }
  have hchange : (db.update (.post id) activate).count (postCounts.entry i) +
      ((db.doc (.post id)).any (postCounts.entry i (.post id))).toNat =
      db.count (postCounts.entry i) +
        (((db.update (.post id) activate).doc (.post id)).any
          (postCounts.entry i (.post id))).toNat :=
    Database.count_change (Key.post id) fun j hj => by
      rw [Database.doc_update_ne (k := Key.post id) db _ hj]
  have hbefore : postCounts.entry i (.post id) p = false := by
    simp [postCounts, Post.isActive, hpending]
  have hafter : postCounts.entry i (.post id) (activate p) = i.counts p := by
    cases i <;> simp [postCounts, Post.isActive, PostCounter.counts, activate]
  rw [Database.doc_update_self, hp, Option.map_some, Option.any_some, Option.any_some, hbefore,
    hafter] at hchange
  intro d hd
  rw [Database.doc_update_ne (k := Key.post id) _ _ howner] at hd
  have hlag := h d hd
  change _ = ((db.update (.post id) activate).count (postCounts.entry i) : ℤ)
  simp only [Bool.toNat_false] at hchange
  omega

/-- Counting a post takes one from the lag of its counter. -/
theorem lagsAt_countPost (h : postCounts.LagsAt db i n) (hi : ∀ id, i ≠ .allOfUser id)
    (userId : ℕ) (communityId : Option ℕ) :
    postCounts.LagsAt (countPost userId communityId db) i
      (n - if i = counterOf userId communityId then 1 else 0) := by
  cases communityId with
  | none =>
    dsimp only [countPost]
    rw [update_user]
    refine LagsAt.updateMany h _ (fun k d => by cases k <;> rfl) fun d => ?_
    cases i with
    | ofUser id =>
      change User.postCount (if id = userId then _ else d) = User.postCount d + _
      by_cases hid : id = userId <;> simp [counterOf, hid]
    | ofCommunity id => exact (add_zero _).symm
    | allOfUser id => exact absurd rfl (hi id)
  | some community =>
    dsimp only [countPost]
    rw [update_community]
    refine LagsAt.updateMany h _ (fun k d => by cases k <;> rfl) fun d => ?_
    cases i with
    | ofCommunity id =>
      change Community.postCount (if id = community then _ else d) = Community.postCount d + _
      by_cases hid : id = community <;> simp [counterOf, hid]
    | ofUser id => exact (add_zero _).symm
    | allOfUser id => exact absurd rfl (hi id)

end Steps

section Deletions

variable {db after : Store} {i : PostCounter}

/-- Posts that do not count may go. -/
theorem balancedAt_deletePosts {graph : Finset Key} (hb : postCounts.BalancedAt db i)
    (hi : ∀ id p, Key.post id ∈ graph → db.doc (.post id) = some p → i.counts p = false) :
    postCounts.BalancedAt (deleteGraph graph db) i := by
  rw [deleteGraph_eq, ← lagsAt_zero]
  refine LagsAt.deleteMany (lagsAt_zero.mpr hb) fun _ _ _ k p hp hentry => ?_
  cases k with
  | post id =>
    obtain ⟨hcounts, -⟩ := Bool.and_eq_true_iff.mp hentry
    have hnot : Key.post id ∉ graph := fun hmem => by
      rw [hi id p hmem hp] at hcounts
      cases hcounts
    simpa [goesWith] using hnot
  | _ => cases hentry

/-- The authors are counted by all their active posts, and the others as before. -/
theorem balancedAt_recomputeUserPostCounts {ids : Finset Key}
    (h : (postCounts.BalancedAt db i ∧ i.owner ∉ ids) ∨
      ∃ userId, i = .allOfUser userId ∧ Key.user userId ∈ ids) :
    postCounts.BalancedAt (recomputeUserPostCounts ids db) i := by
  refine balancedAt_updateMany (fun k d => by cases k <;> rfl) fun d hd => ?_
  rcases h with ⟨hb, hnot⟩ | ⟨userId, rfl, hmem⟩
  · rw [← hb d hd]
    cases i with
    | ofUser id | allOfUser id => exact congrArg User.postCount (if_neg hnot)
    | ofCommunity id => rfl
  · exact congrArg User.postCount (if_pos hmem)

/-- Counting posts again balances the communities counted. -/
private theorem balancedAt_recomputeCommunityPostCounts {ids : Finset Key}
    (h : postCounts.BalancedAt db i ∨ ∃ id, i = .ofCommunity id ∧ Key.community id ∈ ids) :
    postCounts.BalancedAt (recomputeCommunityPostCounts ids db) i := by
  refine balancedAt_updateMany (fun k d => by cases k <;> rfl) fun d hd => ?_
  by_cases hids : ∃ id, i = .ofCommunity id ∧ Key.community id ∈ ids
  · obtain ⟨id, rfl, hmem⟩ := hids
    exact congrArg Community.postCount (if_pos hmem)
  · rw [← h.resolve_right hids d hd]
    cases i with
    | ofUser id | allOfUser id => rfl
    | ofCommunity id => exact congrArg Community.postCount (if_neg fun hmem => hids ⟨id, rfl, hmem⟩)

/-- What a deletion of a graph does to the posts and the counters. -/
theorem deletePostGraph_cases (roots : Finset Key) (db : Store) :
    deletePostGraph roots db = db ∧ collectPostGraph roots db = ∅ ∨
      ∃ db', postFields.Same (deleteGraph (collectPostGraph roots db) db) db' ∧
        deletePostGraph roots db = recomputeCommunityPostCounts
          (named (fun p => p.communityId.map .community) (collectPostGraph roots db) db)
          (recomputeUserPostCounts
            (named (fun p => some (.user p.user)) (collectPostGraph roots db) db) db') := by
  unfold deletePostGraph
  dsimp only
  split
  · next hempty => exact .inl ⟨rfl, hempty⟩
  · refine .inr ⟨_, samePosts_onPosts fun id p => ?_, rfl⟩
    split <;> rfl

/-- What a post of the graph names is among the names. -/
theorem mem_named {f : Post → Option Key} {graph : Finset Key} {id : ℕ} {p : Post} {o : Key}
    (hp : db.doc (.post id) = some p) (hmem : Key.post id ∈ graph) (ho : f p = some o) :
    o ∈ named f graph db :=
  Finset.mem_biUnion.mpr ⟨.post id, hmem, by simp [hp, ho]⟩

/-- The collected posts are gone. -/
theorem doc_deletePostGraph {roots : Finset Key} {id : ℕ}
    (hmem : Key.post id ∈ collectPostGraph roots db) :
    (deletePostGraph roots db).doc (.post id) = none := by
  rcases deletePostGraph_cases roots db with ⟨-, hempty⟩ | ⟨db', hsame, heq⟩
  · rw [hempty] at hmem
    cases hmem
  · have hgone : (deleteGraph (collectPostGraph roots db) db).doc (.post id) = none := by
      rw [deleteGraph_eq, Database.doc_deleteMany]
      cases db.doc (.post id) <;> simp [Option.filter, goesWith, hmem]
    have hnone :=
      (hsame (.post id) (by simp [postFields, posting])).trans (Trait.of_eq_none.mpr hgone)
    rw [heq]
    simp [recomputeCommunityPostCounts, recomputeUserPostCounts, recompute,
      Trait.of_eq_none.mp hnone]

/-- Posts keep their author. -/
theorem user_of_stays (h : identity.Stays db after) {id : ℕ} {p : Post}
    (hp : after.doc (.post id) = some p) :
    ∃ q : Post, db.doc (.post id) = some q ∧ q.user = p.user := by
  obtain ⟨q, hq, hvalue⟩ := h.exists_of_doc (identity_post id) hp
  exact ⟨q, hq, congrArg Prod.fst hvalue⟩

/-- A post of the user is gone. -/
def LostPost (db after : Store) (userId : ℕ) : Prop :=
  ∃ (id : ℕ) (p : Post), db.doc (.post id) = some p ∧ p.user = userId ∧ after.doc (.post id) = none

/-- Posts were only deleted. The counter of an author is as right as before, or it was set to the
number of active posts. -/
structure Recounts (db after : Store) : Prop where
  stays : identity.Stays db after
  communities : ∀ id, postCounts.BalancedAt db (.ofCommunity id) →
    postCounts.BalancedAt after (.ofCommunity id)
  users : ∀ id, (∀ i, i.owner = .user id → postCounts.BalancedAt db i →
      postCounts.BalancedAt after i) ∨
    LostPost db after id ∧ postCounts.BalancedAt after (.allOfUser id)

namespace Recounts

variable {db' : Store}

/-- A change that leaves fields and identities the same recounts. -/
theorem of_same (h : postFields.Same db after) (hstays : identity.Stays db after) :
    Recounts db after where
  stays := hstays
  communities := fun _ hb => lagsAt_zero.mp (postCounts_of_same h (lagsAt_zero.mpr hb))
  users := fun _ => .inl fun _ _ hb => lagsAt_zero.mp (postCounts_of_same h (lagsAt_zero.mpr hb))

/-- Nothing to recount. -/
theorem refl (db : Store) : Recounts db db := .of_same (.refl db) (.refl db)

/-- Two recounting changes recount. -/
theorem trans (h : Recounts db db') (h' : Recounts db' after) : Recounts db after where
  stays := h.stays.trans h'.stays
  communities := fun id hb => h'.communities id (h.communities id hb)
  users := by
    intro id
    rcases h'.users id with hkeeps' | ⟨⟨post, p', hp', huser, hgone⟩, hall⟩
    · rcases h.users id with hkeeps | ⟨⟨post, p, hp, huser, hgone⟩, hall⟩
      · exact .inl fun i hi hb => hkeeps' i hi (hkeeps i hi hb)
      · refine .inr ⟨⟨post, p, hp, huser, ?_⟩, hkeeps' _ rfl hall⟩
        -- A post that is gone stays gone.
        rcases h'.stays _ (identity_post post) with hnone | hsame
        · exact Trait.of_eq_none.mp hnone
        · exact Trait.of_eq_none.mp (hsame.trans (Trait.of_eq_none.mpr hgone))
    · -- The lost post had the same author at first.
      obtain ⟨p, hp, hsame⟩ := user_of_stays h.stays hp'
      exact .inr ⟨⟨post, p, hp, hsame.trans huser, hgone⟩, hall⟩

/-- Deleting posts recounts. -/
theorem deletePostGraph (roots : Finset Key) (db : Store) :
    Recounts db (deletePostGraph roots db) := by
  refine ⟨stays_deletePostGraph roots db, fun id hb => ?_, fun id => ?_⟩
  · rcases deletePostGraph_cases roots db with ⟨heq, -⟩ | ⟨db', hsame, heq⟩
    · rwa [heq]
    · rw [heq]
      refine balancedAt_recomputeCommunityPostCounts ?_
      by_cases hid : Key.community id ∈
          named (fun p => p.communityId.map .community) (collectPostGraph roots db) db
      · exact .inr ⟨id, rfl, hid⟩
      · refine .inl (balancedAt_recomputeUserPostCounts (.inl ⟨?_, ?_⟩))
        · refine lagsAt_zero.mp (postCounts_of_same hsame (lagsAt_zero.mpr
            (balancedAt_deletePosts hb fun post p hmem hp => ?_)))
          by_contra hcounts
          have hcommunity : p.communityId = some id := by simpa [PostCounter.counts] using hcounts
          exact hid (mem_named hp hmem (by rw [hcommunity]; rfl))
        · intro hmem
          obtain ⟨k, -, hk⟩ := Finset.mem_biUnion.mp hmem
          cases k with
          | post post =>
            cases hp : db.doc (.post post) <;> simp [hp, PostCounter.owner] at hk
          | _ => cases hk
  · rcases deletePostGraph_cases roots db with ⟨heq, -⟩ | ⟨db', hsame, heq⟩
    · exact .inl fun i _ hb => by rwa [heq]
    · by_cases hid : ∃ (post : ℕ) (p : Post), db.doc (.post post) = some p ∧ p.user = id ∧
          Key.post post ∈ collectPostGraph roots db
      · obtain ⟨post, p, hp, huser, hmem⟩ := hid
        refine .inr ⟨⟨post, p, hp, huser, doc_deletePostGraph hmem⟩, ?_⟩
        rw [heq]
        exact balancedAt_recomputeCommunityPostCounts (.inl (balancedAt_recomputeUserPostCounts
          (.inr ⟨id, rfl, mem_named hp hmem (by rw [huser])⟩)))
      · refine .inl fun i hi hb => ?_
        rw [heq]
        refine balancedAt_recomputeCommunityPostCounts (.inl (balancedAt_recomputeUserPostCounts
          (.inl ⟨?_, fun hmem => ?_⟩)))
        · refine lagsAt_zero.mp (postCounts_of_same hsame (lagsAt_zero.mpr
            (balancedAt_deletePosts hb fun post p hmem hp => ?_)))
          by_contra hcounts
          refine hid ⟨post, p, hp, ?_, hmem⟩
          cases i <;> simp_all [PostCounter.counts, PostCounter.owner]
        · obtain ⟨k, hk, hnamed⟩ := Finset.mem_biUnion.mp hmem
          cases k with
          | post post =>
            cases hp : db.doc (.post post) with
            | none => simp [hp] at hnamed
            | some p =>
              refine hid ⟨post, p, hp, ?_, hk⟩
              simp [hp, hi] at hnamed
              exact hnamed.symm
          | _ => cases hnamed

/-- Deleting a community recounts. -/
theorem deleteCommunity (id : ℕ) (db : Store) : Recounts db (db.delete (.community id)) := by
  have hkeeps : ∀ i, postCounts.BalancedAt db i →
      postCounts.BalancedAt (db.delete (.community id)) i := by
    intro i hb
    cases hc : db.doc (.community id) with
    | none => rwa [Database.delete_of_none hc]
    | some c =>
      have hlag := (lagsAt_zero.mpr hb).delete hc
      rwa [show postCounts.entry i (.community id) c = false from rfl, Bool.toNat_false,
        Nat.cast_zero, sub_zero, lagsAt_zero] at hlag
  exact ⟨.delete _, fun id => hkeeps _, fun _ => .inl fun i _ => hkeeps i⟩

private theorem deleteMembers (p : ℕ → ℕ → Member → Bool) (db : Store) :
    Recounts db (db.deleteMany (members p)) :=
  .of_same (Confined.samePosts (C := [.members])
    (.deleteMany fun _ _ => members_outside (by simp)) (by decide)) (.deleteMany _)

/-- The account of a user without posts may have a counter of zero. -/
theorem finalize {userId : ℕ} (action : AccountLifecycleAction)
    (hnone : ∀ id (p : Post), db.doc (.post id) = some p → p.user ≠ userId) :
    Recounts db (finalize action userId db) := by
  have hkeeps : ∀ i, postCounts.BalancedAt db i →
      postCounts.BalancedAt (AccountLifecycleService.finalize action userId db) i := by
    intro i hb
    cases action with
    | ban =>
      dsimp only [AccountLifecycleService.finalize]
      rw [update_user]
      refine balancedAt_updateMany (fun k d => by cases k <;> rfl) fun d hd => ?_
      have hzero : ∀ i, i.owner = .user userId → db.count (postCounts.entry i) = 0 := by
        intro i hi
        refine Database.count_eq_zero.mpr fun k p hp => ?_
        cases k with
        | post id =>
          have huser := hnone id p hp
          cases i <;> simp_all [postCounts, PostCounter.counts, PostCounter.owner]
        | _ => rfl
      by_cases hi : i.owner = .user userId
      · rw [hzero i hi]
        cases i with
        | ofUser id | allOfUser id => exact congrArg User.postCount (if_pos (Key.user.inj hi))
        | ofCommunity id => cases hi
      · rw [← hb d hd]
        cases i with
        | ofUser id | allOfUser id =>
          exact congrArg User.postCount (if_neg fun h => hi (congrArg Key.user h))
        | ofCommunity id => rfl
    | delete =>
      dsimp only [AccountLifecycleService.finalize]
      cases hu : db.doc (.user userId) with
      | none => rwa [Database.delete_of_none hu]
      | some u =>
        have hlag := (lagsAt_zero.mpr hb).delete hu
        rwa [show postCounts.entry i (.user userId) u = false from rfl, Bool.toNat_false,
          Nat.cast_zero, sub_zero, lagsAt_zero] at hlag
  exact ⟨stays_finalize action userId db, fun id => hkeeps _, fun _ => .inl fun i _ => hkeeps i⟩

/-- Cleaning up the content of a user recounts. -/
theorem contentCleanup (userId : ℕ) (db : Store) : Recounts db (contentCleanup userId db) := by
  have htombstones : ∀ db, Recounts db (tombstoneComments userId db) := fun db =>
    .of_same ((tombstoneComments_confined userId db).samePosts (by decide))
      (stays_tombstoneComments userId db)
  have hinteractions : ∀ db, Recounts db (removePostInteractions userId db) := fun db => by
    refine .of_same (.trans (Confined.samePosts (C := [.postLikes])
      (.deleteMany fun _ _ => postLikes_outside (by simp)) (by decide))
      (samePosts_onPosts fun _ _ => ?_)) (stays_removePostInteractions userId db)
    split <;> rfl
  exact ((deletePostGraph _ db).trans (htombstones _)).trans (hinteractions _)

/-- Cleaning up a community recounts. -/
theorem cleanupCreated {natural : List ℕ} {userId communityId : ℕ} {deleted : List ℕ}
    (h : cleanupCreated natural userId communityId db = .ok (after, deleted)) :
    Recounts db after := by
  have hstays := stays_cleanupCreated (T := identity) h
  rcases cleanupCreated_eq h with ⟨user, _, _, rfl⟩ | ⟨_, _, rfl⟩
  · have hmember : ∀ (f : Member → Member) (db : Store),
        postFields.Same db (db.update (.member communityId user) f) := fun f db =>
      Confined.samePosts (C := [.members]) (.update (k := Key.member communityId user) (by simp))
        (by decide)
    have hcreator : ∀ db : Store, postFields.Same db
        (db.update (.community communityId) fun c : Community => { c with creatorId := user }) :=
      fun db => samePosts_updateCommunity _ fun _ => rfl
    exact .of_same ((hcreator _).trans (hmember _ _)) hstays
  · exact ((deletePostGraph _ db).trans (deleteMembers _ _)).trans (deleteCommunity _ _)

/-- No post of the user is left by the clean-up of the content. -/
theorem user_contentCleanup {userId id : ℕ} {p : Post}
    (hp : (AccountLifecycleService.contentCleanup userId db).doc (.post id) = some p) :
    p.user ≠ userId := by
  rintro rfl
  let graph := ContentCleanupService.deletePostGraph (findPostIdsByUser p.user db) db
  have hstays : identity.Stays graph (AccountLifecycleService.contentCleanup p.user db) :=
    .trans (stays_tombstoneComments _ _) (stays_removePostInteractions _ _)
  obtain ⟨q, hq, huser⟩ := user_of_stays hstays hp
  obtain ⟨q', hq', huser'⟩ := user_of_stays (stays_deletePostGraph _ db) hq
  have hroot : Key.post id ∈ findPostIdsByUser p.user db :=
    Database.mem_find.mpr ⟨q', hq', by simp [huser, huser']⟩
  cases hq.symm.trans (doc_deletePostGraph (root_mem_collectPostGraph hq' hroot))

/-- The participants of a purge recount. -/
theorem purgeUser {natural : List ℕ} {action : AccountLifecycleAction} {userId : ℕ}
    (h : purgeUser natural action userId db = .ok after) : Recounts db after := by
  obtain ⟨db', hcommunity, rfl⟩ := purgeUser_eq h
  obtain ⟨db'', deleted, hall, hleft⟩ := communityCleanup_eq hcommunity
  have hrelations : ∀ db, Recounts db (removeRelationshipsAndActivity userId db) := fun db =>
    .of_same (.trans (Confined.samePosts (C := [.follows])
      (.deleteMany fun _ _ => follows_outside (by simp)) (by decide))
      (samePosts_onUsers fun _ _ => by split <;> rfl)) (.trans (.deleteMany _) stays_onUsers)
  have hconversations : ∀ db, Recounts db (preserve userId db) := fun db =>
    .of_same ((preserve_confined userId db).samePosts (by decide))
      ((preserve_confined userId db).stays (by decide))
  have hleave : Recounts db'' db' := by
    rw [hleft]
    exact (deleteMembers _ db'').trans (.of_same
      (.trans (samePosts_onCommunities fun _ _ => by split <;> rfl)
        (samePosts_onUsers fun _ _ => rfl)) (.trans stays_onCommunities stays_onUsers))
  have hrest : Recounts (AccountLifecycleService.contentCleanup userId db) db' :=
    (((hrelations _).trans (hconversations _)).trans (cleanupAll_relates refl (fun _ _ _ => trans)
      (fun _ _ _ _ => cleanupCreated) hall)).trans hleave
  refine ((contentCleanup userId db).trans hrest).trans (finalize action fun id p hp => ?_)
  obtain ⟨q, hq, huser⟩ := user_of_stays hrest.stays hp
  rw [← huser]
  exact user_contentCleanup hq

/-- The transaction of a purge recounts. -/
theorem purgeBody {natural : List ℕ} {action : AccountLifecycleAction} {userId : ℕ}
    (h : purgeBody natural action userId db = .ok after) : Recounts db after := by
  rcases purgeBody_eq h with h | ⟨db', htouch, h⟩
  · exact purgeUser h
  · have hconfined := touch_confined htouch
    exact (of_same (hconfined.samePosts (by decide)) (hconfined.stays (by decide))).trans
      (purgeUser h)

/-- Removing a community recounts. -/
theorem removeCommunity (communityId : ℕ) (db : Store) :
    Recounts db (removeCommunity communityId db) :=
  ((deleteMembers _ db).trans (deleteCommunity communityId _)).trans
    (.of_same (samePosts_onUsers fun _ _ => rfl) stays_onUsers)

end Recounts

end Deletions

end Ascendance.Social
