import Ascendance.Models.Social.PostCounterRuns

/-!
# The post counter of one user

A creation counts posts outside of communities, and a deletion counts all active posts of the
authors of what it takes away. The two agree on a user as long as no deletion of one of the user's
posts leaves the user an active post in a community.
-/

namespace Ascendance.Social

open Ascendance.Core Ledger

/-- No active post of the user in a community is left where a post of the user is deleted. -/
def LeavesNoneInCommunities (userId : ℕ) (snapshot after : Store) : Prop :=
  LostPost snapshot after userId → ∀ id (p : Post), after.doc (.post id) = some p →
    p.user = userId → p.isActive = true → p.communityId = none

/-- A recount of all active posts is right for the posts outside of communities exactly when there
are no others. -/
theorem balancedAt_ofUser_iff {db : Store} {userId : ℕ} {u : User}
    (hu : db.doc (.user userId) = some u) (hall : postCounts.BalancedAt db (.allOfUser userId)) :
    postCounts.BalancedAt db (.ofUser userId) ↔ ∀ id (p : Post), db.doc (.post id) = some p →
      p.user = userId → p.isActive = true → p.communityId = none := by
  refine ⟨fun hb id p hp huser hactive => ?_, balancedAt_ofUser hall⟩
  have hcount : (db.count (postCounts.entry (.ofUser userId)) : ℤ) =
      db.count (postCounts.entry (.allOfUser userId)) := (hb u hu).symm.trans (hall u hu)
  have hsubset : db.find (postCounts.entry (.ofUser userId)) ⊆
      db.find (postCounts.entry (.allOfUser userId)) := by
    intro k hk
    obtain ⟨d, hd, hentry⟩ := Database.mem_find.mp hk
    refine Database.mem_find.mpr ⟨d, hd, ?_⟩
    cases k with
    | post id =>
      simp only [postCounts, posts_post, PostCounter.counts, Bool.and_eq_true] at hentry ⊢
      exact ⟨hentry.1.1, hentry.2⟩
    | _ => cases hentry
  have hsame := Finset.eq_of_subset_of_card_le hsubset (Int.ofNat_inj.mp hcount).ge
  have hmem : Key.post id ∈ db.find (postCounts.entry (.ofUser userId)) := by
    rw [hsame]
    exact Database.mem_find.mpr ⟨p, hp, by simp [postCounts, PostCounter.counts, huser, hactive]⟩
  obtain ⟨q, hq, hentry⟩ := Database.mem_find.mp hmem
  obtain rfl := Option.some.inj (hq.symm.trans hp)
  simp only [postCounts, posts_post, PostCounter.counts, Bool.and_eq_true, beq_iff_eq] at hentry
  exact hentry.1.2

/-- The discipline keeps the counter of one user. -/
private theorem userPostCount_kept (userId : ℕ) :
    (discipline (fun c => postCounts.BalancedAt c.db (.ofUser userId)) (fun _ _ => True)
      fun c snapshot current after => LeavesNoneInCommunities userId snapshot.db after ∧
        FindsPending c snapshot current after).Kept := by
  refine discipline_kept (fun _ => trivial) (fun _ _ _ _ _ _ _ => trivial) ?_
  rintro c snapshot current after hbefore hcoherent hb hfresh hnew heffect ⟨hleft, hpending⟩
  refine ⟨postCounts_commit hbefore hcoherent hfresh hnew heffect hpending (by simp) hbefore.1.2
    hb fun id hid => ?_, trivial⟩
  obtain rfl := PostCounter.ofUser.inj hid
  exact hleft

/-- In every run the counter of a user is the number of the user's active posts outside of
communities, as long as no deletion of one of the user's posts leaves the user an active post in a
community. -/
theorem userPostCount_agrees {c : Committed Key Doc} (hcoherent : Coherent c) {userId : ℕ}
    (hb : ∀ u : User, c.db.doc (.user userId) = some u →
      u.postCount = c.db.count (postsOutsideCommunities userId))
    {es : List (Event Command)} {w : SocialWorld}
    (hrun : Run (Restrict (Graph (World.step runtime)) (World.Commits fun _ snapshot _ after =>
      LeavesNoneInCommunities userId snapshot.db after)) (World.initial c) es w) :
    ∀ u : User, w.state.db.doc (.user userId) = some u →
      u.postCount = w.state.db.count (postsOutsideCommunities userId) :=
  discipline_run_pending (userPostCount_kept userId) hcoherent hb hrun

/-- A user posts in a community and outside of it. -/
def postsTwice : List (Event Command) :=
  [.start 0 (.createCommunity 5 1 0), .advance 0, .advance 0, .advance 0,
    .start 1 (.createPost 12 1 (some 5) true), .advance 1, .advance 1, .advance 1, .advance 1,
    .advance 1, .advance 1, .advance 1, .advance 1, .start 2 (.createPost 11 1 none true),
    .advance 2, .advance 2, .advance 2, .advance 2, .advance 2, .advance 2]

/-- The user posts once more outside of it, and deletes that post. -/
def postsAndDeletes : List (Event Command) :=
  postsTwice ++ [.start 3 (.createPost 10 1 none true), .advance 3, .advance 3, .advance 3,
    .advance 3, .advance 3, .advance 3, .start 4 (.deletePost 1 10), .advance 4, .advance 4]

/-- The user deletes the post in the community, and only the other one is left to count. -/
theorem userPostCount_agrees_deletePost :
    ∃ w : SocialWorld, Run (Restrict (Graph (World.step runtime)) (World.Commits
        fun _ snapshot _ after => LeavesNoneInCommunities 1 snapshot.db after))
        (World.initial (.ofDatabase twoUsers))
        (postsTwice ++ [.start 3 (.deletePost 1 12), .advance 3, .advance 3]) w ∧
      ∀ u : User, w.state.db.doc (.user 1) = some u →
        u.postCount = w.state.db.count (postsOutsideCommunities 1) := by
  let left : Command → Committed Key Doc → Committed Key Doc → Store → Bool :=
    fun _ snapshot _ after => leavesNone snapshot.db after
  have hleft : ∀ c snapshot current after, left c snapshot current after = true →
      LeavesNoneInCommunities 1 snapshot.db after :=
    fun _ _ _ _ h => noCommunityPostsLeft_of_leavesNone h 1
  let check (w : SocialWorld) (e : Event Command) : Bool :=
    (w.attempt e).all fun (c, snapshot, after) => left c snapshot w.state after
  obtain ⟨w, hw⟩ := Option.isSome_iff_exists.mp (by decide +kernel :
    (exec (fun w e => if check w e then World.step runtime w e else none)
      (World.initial (.ofDatabase twoUsers) : SocialWorld)
      (postsTwice ++ [.start 3 (.deletePost 1 12), .advance 3, .advance 3])).isSome = true)
  have hrun := exec_restrict (fun w e h => World.commits_of_all hleft h) hw
  exact ⟨w, hrun, userPostCount_agrees (coherent_of_unreferring (by decide))
    (userPostCounts_twoUsers 1) hrun⟩

/-- The posts that are stored for a user. -/
def postsOf (userId : ℕ) (db : Store) (id : ℕ) : Option Post :=
  Option.filter (fun p : Post => p.user == userId) (db.doc (.post id))

/-- What both runs leave. -/
def PostsLeft (postCount : ℤ) (db : Store) : Prop :=
  (∃ u : User, db.doc (.user 1) = some u ∧ u.isBanned = false ∧ u.postCount = postCount) ∧
    (∀ k ∈ db.ids, k.collection = .posts → k = .post 11 ∨ k = .post 12) ∧
    db.doc (.post 11) = some (Post.new 1) ∧
    db.doc (.post 12) = some ({ Post.new 1 with communityId := some 5 } : Post)

instance (postCount : ℤ) (db : Store) : Decidable (PostsLeft postCount db) := instDecidableAnd

/-- Both runs leave the same posts. -/
private theorem PostsLeft.postsOf {postCount : ℤ} {db : Store} (h : PostsLeft postCount db) :
    postsOf 1 db = fun id =>
      if id = 11 then some (Post.new 1)
      else if id = 12 then some { Post.new 1 with communityId := some 5 }
      else none := by
  obtain ⟨-, hids, houtside, hinside⟩ := h
  funext id
  by_cases h11 : id = 11
  · subst h11
    rw [Social.postsOf, houtside]
    rfl
  · by_cases h12 : id = 12
    · subst h12
      rw [Social.postsOf, hinside]
      rfl
    · have hnone : db.doc (.post id) = none := by
        by_contra hstored
        have hmem := (db.mem_ids _).mpr (Option.isSome_iff_ne_none.mpr hstored)
        rcases hids _ hmem rfl with heq | heq
        · exact h11 (Key.post.inj heq)
        · exact h12 (Key.post.inj heq)
      rw [Social.postsOf, hnone, if_neg h11, if_neg h12]
      rfl

/-- After the same posts, which one run has counted as they came and another one when a post was
deleted, the counter is 1 or 2. -/
theorem userPostCount_differs :
    ¬ ∃ count : ℕ → (ℕ → Option Post) → ℤ, ∀ (es : List (Event Command)) (w : SocialWorld),
      Run (Graph (World.step runtime)) (World.initial (.ofDatabase twoUsers)) es w →
      ∀ userId (u : User), w.state.db.doc (.user userId) = some u → u.isBanned = false →
        u.postCount = count userId (postsOf userId w.state.db) := by
  rintro ⟨count, hcount⟩
  have hleaves : ∀ (postCount : ℤ) (es : List (Event Command)),
      ((exec (World.step runtime) (World.initial (.ofDatabase twoUsers) : SocialWorld) es).any
        fun w => decide (PostsLeft postCount w.state.db)) = true →
      postCount = count 1 fun id =>
        if id = 11 then some (Post.new 1)
        else if id = 12 then some { Post.new 1 with communityId := some 5 }
        else none := by
    intro postCount es hexec
    obtain ⟨w, hrun, hw⟩ := exec_any hexec
    have hdb := of_decide_eq_true hw
    obtain ⟨u, hu, hactive, rfl⟩ := hdb.1
    rw [hcount es w hrun 1 u hu hactive, hdb.postsOf]
  have hone := hleaves 1 postsTwice (by decide +kernel)
  have htwo := hleaves 2 postsAndDeletes (by decide +kernel)
  omega

end Ascendance.Social
