import Ascendance.Core.Ledger
import Ascendance.Models.Social.Identity
import Ascendance.Models.Social.PostGraph

/-!
# Engagement counters

The counters of posts and comments are right in every state. Each transaction leaves them
right on its snapshot, by a step for every document it counts or by counting again.
-/

namespace Ascendance.Social

open Ascendance.Core ContentCleanupService AccountLifecycleService Ledger

/-- The counters of posts and comments, with the identifier of their document. -/
inductive Counter
  | comments (postId : ℕ)
  | postLikes (postId : ℕ)
  | reposts (postId : ℕ)
  | replies (commentId : ℕ)
  | commentLikes (commentId : ℕ)
  deriving DecidableEq, Repr

namespace Counter

/-- The document that holds the counter. -/
def owner : Counter → Key
  | comments id | postLikes id | reposts id => .post id
  | replies id | commentLikes id => .comment id

/-- What the counter says. -/
def value : ∀ i : Counter, Doc i.owner → ℤ
  | comments _, p => Post.commentsCount p
  | postLikes _, p => Post.likesCount p
  | reposts _, p => Post.repostCount p
  | replies _, c => Comment.replyCount c
  | commentLikes _, c => Comment.likesCount c

/-- What the counter counts. -/
def entry : Counter → ∀ k, Doc k → Bool
  | comments id => commentsOf id
  | postLikes id => likesOfPost id
  | reposts id => repostsOf id
  | replies id => repliesOf id
  | commentLikes id => likesOfComment id

end Counter

/-- The counters of posts and comments with what they count. -/
def engagement : Ledger Key Doc Counter where
  owner := Counter.owner
  value := Counter.value
  entry := Counter.entry

/-- What is counted refers to the owner of its counter. -/
theorem engagement_follows : engagement.Follows references := by
  intro i k d h
  change Refers k (identity.value k d) i.owner
  change i.entry k d = true at h
  cases i <;> cases k <;> simp_all [Counter.entry, commentsOf, likesOfPost, repostsOf, repliesOf,
    likesOfComment, Refers, identity, Counter.owner]

/-- The owners of the counters are written one transaction after the other. -/
theorem serial_engagement (i : Counter) : serial (engagement.owner i) = true := by
  cases i <;> rfl

/-- The collections that hold the counters and what they count. -/
def counted : List Collection := [.posts, .comments, .postLikes, .commentLikes]

/-- Documents of other collections do not count. -/
private theorem entry_outside (i : Counter) {k : Key} (hk : k.collection ∉ counted) (d : Doc k) :
    i.entry k d = false := by
  cases i with
  | comments id => exact comments_outside (by simp [counted]) hk
  | postLikes id => exact postLikes_outside (by simp [counted]) hk
  | reposts id => exact posts_outside (by simp [counted]) hk
  | replies id => exact comments_outside (by simp [counted]) hk
  | commentLikes id => exact commentLikes_outside (by simp [counted]) hk

private theorem owner_counted (i : Counter) : i.owner.collection ∈ counted := by
  cases i <;> simp [counted, Counter.owner]

section Steps

variable {db after : Store} {i : Counter} {n : ℤ}

/-- Transactions on other collections leave the counters alone. -/
theorem lagsAt_of_confined {C : List Collection} (h : engagement.LagsAt db i n)
    (hconfined : Confined C db after) (hcs : ∀ c ∈ C, c ∉ counted) :
    engagement.LagsAt after i n := by
  have hsame : ∀ k, k.collection ∈ counted → after.doc k = db.doc k :=
    fun k hk => hconfined k fun hmem => hcs _ hmem hk
  refine h.frame (fun d hd => ⟨d, (hsame _ (owner_counted i)).symm.trans hd, rfl⟩) fun k => ?_
  by_cases hk : k.collection ∈ counted
  · rw [hsame k hk]
  · have hentry : engagement.entry i k = fun _ => false := funext (entry_outside i hk)
    rw [hentry]
    cases after.doc k <;> cases db.doc k <;> rfl

/-- A change outside the counted collections keeps the counters. -/
theorem balanced_of_confined {C : List Collection} (h : engagement.Balanced db)
    (hconfined : Confined C db after) (hcs : ∀ c ∈ C, c ∉ counted) :
    engagement.Balanced after :=
  fun i => lagsAt_zero.mp (lagsAt_of_confined (lagsAt_zero.mpr (h i)) hconfined hcs)

/-- Move one counter, where its document is still found. -/
def bump (m : ℤ) (db : Store) : Counter → Store
  | .comments id => db.update (.post id) fun p : Post =>
      { p with commentsCount := p.commentsCount + m }
  | .postLikes id => db.update (.post id) fun p : Post => { p with likesCount := p.likesCount + m }
  | .reposts id => db.update (.post id) fun p : Post => { p with repostCount := p.repostCount + m }
  | .replies id => db.update (.comment id) fun c : Comment =>
      { c with replyCount := c.replyCount + m }
  | .commentLikes id =>
    db.update (.comment id) fun c : Comment => { c with likesCount := c.likesCount + m }

/-- Updates of posts that leave what counts as a repost leave what is counted. -/
theorem entry_onPosts {f : ℕ → Post → Post}
    (hkeep : ∀ id p, (f id p).repostOf = p.repostOf ∧ (f id p).type = p.type ∧
      (f id p).isActive = p.isActive) (k : Key) (d : Doc k) :
    engagement.entry i k (onPosts f k d) = engagement.entry i k d := by
  cases k with
  | post id =>
    obtain ⟨hrepostOf, htype, hactive⟩ := hkeep id d
    cases i <;> simp [engagement, Counter.entry, repostsOf, commentsOf, likesOfPost, repliesOf,
      likesOfComment, hrepostOf, htype, hactive]
  | _ => rfl

/-- Updates of comments that leave their threads leave what is counted. -/
theorem entry_onComments {f : ℕ → Comment → Comment}
    (hkeep : ∀ id c, (f id c).postId = c.postId ∧ (f id c).parentId = c.parentId) (k : Key)
    (d : Doc k) : engagement.entry i k (onComments f k d) = engagement.entry i k d := by
  cases k with
  | comment id =>
    obtain ⟨hpost, hparent⟩ := hkeep id d
    cases i <;> simp [engagement, Counter.entry, repostsOf, commentsOf, likesOfPost, repliesOf,
      likesOfComment, hpost, hparent]
  | _ => rfl

/-- An update of posts moves the counters they carry. -/
private theorem lagsAt_onPosts {f : ℕ → Post → Post} (h : engagement.LagsAt db i n)
    (m : Counter → ℤ)
    (hkeep : ∀ id p, (f id p).repostOf = p.repostOf ∧ (f id p).type = p.type ∧
      (f id p).isActive = p.isActive)
    (hcomments : ∀ id p, (f id p).commentsCount = p.commentsCount + m (.comments id))
    (hlikes : ∀ id p, (f id p).likesCount = p.likesCount + m (.postLikes id))
    (hreposts : ∀ id p, (f id p).repostCount = p.repostCount + m (.reposts id))
    (hreplies : ∀ id, m (.replies id) = 0) (hcommentLikes : ∀ id, m (.commentLikes id) = 0) :
    engagement.LagsAt (db.updateMany (onPosts f)) i (n - m i) := by
  refine LagsAt.updateMany h _ (entry_onPosts hkeep) fun d => ?_
  cases i with
  | comments id => exact hcomments id d
  | postLikes id => exact hlikes id d
  | reposts id => exact hreposts id d
  | replies id => rw [hreplies, add_zero]; rfl
  | commentLikes id => rw [hcommentLikes, add_zero]; rfl

/-- An update of comments moves the counters they carry. -/
private theorem lagsAt_onComments {f : ℕ → Comment → Comment} (h : engagement.LagsAt db i n)
    (m : Counter → ℤ)
    (hkeep : ∀ id c, (f id c).postId = c.postId ∧ (f id c).parentId = c.parentId)
    (hreplies : ∀ id c, (f id c).replyCount = c.replyCount + m (.replies id))
    (hlikes : ∀ id c, (f id c).likesCount = c.likesCount + m (.commentLikes id))
    (hcomments : ∀ id, m (.comments id) = 0) (hpostLikes : ∀ id, m (.postLikes id) = 0)
    (hreposts : ∀ id, m (.reposts id) = 0) :
    engagement.LagsAt (db.updateMany (onComments f)) i (n - m i) := by
  refine LagsAt.updateMany h _ (entry_onComments hkeep) fun d => ?_
  cases i with
  | comments id => rw [hcomments, add_zero]; rfl
  | postLikes id => rw [hpostLikes, add_zero]; rfl
  | reposts id => rw [hreposts, add_zero]; rfl
  | replies id => exact hreplies id d
  | commentLikes id => exact hlikes id d

/-- A bumped counter moves by its amount. -/
private theorem lagsAt_bump (h : engagement.LagsAt db i n) (j : Counter) (m : ℤ) :
    engagement.LagsAt (bump m db j) i (n - if i = j then m else 0) := by
  cases j with
  | comments id | postLikes id | reposts id =>
    dsimp only [bump]
    rw [update_post]
    refine lagsAt_onPosts h (fun i => if i = _ then m else 0) (fun j p => ?_) (fun j p => ?_)
      (fun j p => ?_) (fun j p => ?_) (by simp) (by simp)
    all_goals by_cases hj : j = id <;> simp [hj, Post.isActive]
  | replies id | commentLikes id =>
    dsimp only [bump]
    rw [update_comment]
    refine lagsAt_onComments h (fun i => if i = _ then m else 0) (fun j c => ?_) (fun j c => ?_)
      (fun j c => ?_) (by simp) (by simp) (by simp)
    all_goals by_cases hj : j = id <;> simp [hj]

/-- A new post or comment that nothing refers to has counters of zero. -/
theorem lagsAt_put {k : Key} {d : Doc k} (hb : engagement.Balanced db) (hfree : db.doc k = none)
    (hnew : ¬ references.Cited db k) (hself : ¬ references.needs k d k)
    (hzero : ∀ (i : Counter) (hi : i.owner = k), i.value (hi ▸ d) = 0) :
    engagement.LagsAt (db.put k d) i (engagement.entry i k d).toNat := by
  by_cases hi : i.owner = k
  · subst hi
    have hentry : engagement.entry i i.owner d = false := by
      by_contra h
      exact hself (engagement_follows i _ _ (by simpa using h))
    have hlag := lagsAt_new (L := engagement) hentry fun j e (he : db.doc j = some e) => by
      by_contra h
      exact hnew ⟨j, e, he, engagement_follows i j e (by simpa using h)⟩
    rw [show engagement.value i d = 0 from hzero i rfl, neg_zero] at hlag
    rw [hentry]
    exact hlag
  · have hput := LagsAt.put (lagsAt_zero.mpr (hb i)) hfree (d := d) hi
    rwa [zero_add] at hput

end Steps

/-- What a comment counts for: its post and its parent. -/
theorem entry_comment (i : Counter) (id : ℕ) (c : Comment) :
    ((engagement.entry i (.comment id) c).toNat : ℤ) =
      (if i = .comments c.postId then 1 else 0) +
        if c.parentId.any (i = .replies ·) then 1 else 0 := by
  cases i with
  | comments q =>
    by_cases hq : q = c.postId
    · subst hq
      simp [engagement, Counter.entry, commentsOf]
    · simp [engagement, Counter.entry, commentsOf, hq, Ne.symm hq]
  | replies q =>
    cases hparent : c.parentId with
    | none => simp [engagement, Counter.entry, repliesOf, hparent]
    | some parent =>
      by_cases hq : q = parent
      · subst hq
        simp [engagement, Counter.entry, repliesOf, hparent]
      · simp [engagement, Counter.entry, repliesOf, hparent, hq, Ne.symm hq]
  | postLikes q => simp [engagement, Counter.entry, likesOfPost]
  | reposts q => simp [engagement, Counter.entry, repostsOf]
  | commentLikes q => simp [engagement, Counter.entry, likesOfComment]

/-- A like counts for its post. -/
theorem entry_postLike (i : Counter) (post user : ℕ) (d : Doc (.postLike post user)) :
    ((engagement.entry i (.postLike post user) d).toNat : ℤ) =
      if i = .postLikes post then 1 else 0 := by
  cases i with
  | postLikes q =>
    by_cases hq : q = post
    · subst hq
      simp [engagement, Counter.entry, likesOfPost]
    · simp [engagement, Counter.entry, likesOfPost, hq, Ne.symm hq]
  | comments q => simp [engagement, Counter.entry, commentsOf]
  | replies q => simp [engagement, Counter.entry, repliesOf]
  | reposts q => simp [engagement, Counter.entry, repostsOf]
  | commentLikes q => simp [engagement, Counter.entry, likesOfComment]

/-- A like counts for its comment. -/
theorem entry_commentLike (i : Counter) (comment user : ℕ) (d : Doc (.commentLike comment user)) :
    ((engagement.entry i (.commentLike comment user) d).toNat : ℤ) =
      if i = .commentLikes comment then 1 else 0 := by
  cases i with
  | commentLikes q =>
    by_cases hq : q = comment
    · subst hq
      simp [engagement, Counter.entry, likesOfComment]
    · simp [engagement, Counter.entry, likesOfComment, hq, Ne.symm hq]
  | comments q => simp [engagement, Counter.entry, commentsOf]
  | replies q => simp [engagement, Counter.entry, repliesOf]
  | reposts q => simp [engagement, Counter.entry, repostsOf]
  | postLikes q => simp [engagement, Counter.entry, likesOfPost]

/-- An active repost counts for its target. -/
theorem entry_post (i : Counter) (id : ℕ) (p : Post) :
    ((engagement.entry i (.post id) p).toNat : ℤ) =
      if p.type = .repost ∧ p.isActive = true ∧ p.repostOf.any (i = .reposts ·) = true
        then 1 else 0 := by
  cases i with
  | reposts q =>
    cases htarget : p.repostOf with
    | none => simp [engagement, Counter.entry, repostsOf, htarget]
    | some target =>
      by_cases hq : q = target
      · subst hq
        cases htype : p.type <;> cases hactive : p.isActive <;>
          simp [engagement, Counter.entry, repostsOf, htarget, htype, hactive]
      · simp [engagement, Counter.entry, repostsOf, htarget, hq, Ne.symm hq]
  | comments q => simp [engagement, Counter.entry, commentsOf]
  | replies q => simp [engagement, Counter.entry, repliesOf]
  | commentLikes q => simp [engagement, Counter.entry, likesOfComment]
  | postLikes q => simp [engagement, Counter.entry, likesOfPost]

section Bodies

variable {db after : Store}

/-- Creating a comment keeps the counters. -/
theorem balanced_createCommentBody {id postId userId : ℕ} {parentId : Option ℕ} {depth : ℕ}
    (h : createCommentBody id postId userId parentId depth db = .ok after)
    (hb : engagement.Balanced db) (hnew : ¬ references.Cited db (.comment id))
    (hparent : parentId ≠ some id) : engagement.Balanced after := by
  obtain ⟨hfree, rfl⟩ := create_map_eq_ok.mp h
  intro i
  rw [← lagsAt_zero]
  have hput : engagement.LagsAt _ i _ := lagsAt_put (k := .comment id) (d := ⟨postId, parentId,
    depth, some userId, false, none, 0, 0⟩) hb hfree hnew
    (by rintro (hself | ⟨parent, rfl, hself⟩) <;> simp_all)
    (fun i hi => by cases i <;> cases hi <;> rfl)
  have hcounted := lagsAt_bump hput (.comments postId) 1
  rw [entry_comment, add_sub_cancel_left] at hcounted
  cases parentId with
  | none => exact hcounted
  | some parent =>
    have hcounted' := lagsAt_bump hcounted (.replies parent) 1
    simp only [Option.any_some, decide_eq_true_eq, sub_self] at hcounted'
    exact hcounted'

/-- Liking a comment keeps the counters. -/
theorem balanced_likeCommentBody (commentId userId : ℕ) (hb : engagement.Balanced db) :
    engagement.Balanced (likeCommentBody commentId userId db) := by
  intro i
  rw [← lagsAt_zero]
  have hzero := lagsAt_zero.mpr (hb i)
  unfold likeCommentBody
  split
  · next d hd =>
    have hstep := lagsAt_bump (hzero.delete hd) (.commentLikes commentId) (-1)
    rw [entry_commentLike] at hstep
    have hn : ∀ p : Prop,
        [Decidable p] → (0 - if p then (1 : ℤ) else 0) - (if p then -1 else 0) = 0 := by
      intro p _
      split <;> rfl
    rw [hn] at hstep
    exact hstep
  · next hfree =>
    have hput := LagsAt.put (d := ()) hzero hfree (by cases i <;> simp [engagement, Counter.owner])
    have hstep := lagsAt_bump hput (.commentLikes commentId) 1
    rw [entry_commentLike, zero_add, sub_self] at hstep
    exact hstep

/-- Liking a post keeps the counters. -/
theorem balanced_likePostBody (postId userId : ℕ) (hb : engagement.Balanced db) :
    engagement.Balanced (likePostBody postId userId db) := by
  intro i
  rw [← lagsAt_zero]
  have hzero := lagsAt_zero.mpr (hb i)
  unfold likePostBody
  split
  · next d hd =>
    have hstep := lagsAt_bump (hzero.delete hd) (.postLikes postId) (-1)
    rw [entry_postLike] at hstep
    have hn : ∀ p : Prop,
        [Decidable p] → (0 - if p then (1 : ℤ) else 0) - (if p then -1 else 0) = 0 := by
      intro p _
      split <;> rfl
    rw [hn] at hstep
    exact hstep
  · next hfree =>
    have hput := LagsAt.put (d := ()) hzero hfree (by cases i <;> simp [engagement, Counter.owner])
    have hstep := lagsAt_bump hput (.postLikes postId) 1
    rw [entry_postLike, zero_add, sub_self] at hstep
    exact hstep

/-- Reposting keeps the counters. -/
theorem balanced_createRepostBody {id userId target : ℕ}
    (h : createRepostBody id userId target db = .ok after)
    (hb : engagement.Balanced db) (hnew : ¬ references.Cited db (.post id))
    (hself : target ≠ id) : engagement.Balanced after := by
  obtain ⟨hfree, rfl⟩ := createRepostBody_eq h
  intro i
  rw [← lagsAt_zero]
  have hput : engagement.LagsAt _ i _ := lagsAt_put (k := .post id)
    (d := Post.repostFor userId target) hb hfree hnew
    (by rintro (hself' | ⟨_, htarget, hself'⟩ | ⟨_, _, hself'⟩) <;> simp_all [Post.repostFor])
    (fun i hi => by cases i <;> cases hi <;> rfl)
  have hcounted := lagsAt_bump hput (.reposts target) 1
  rw [entry_post] at hcounted
  simp only [Post.repostFor, Post.new, Post.isActive, Option.any_some, decide_eq_true_eq,
    beq_self_eq_true,
    Bool.true_or, true_and, sub_self] at hcounted
  exact lagsAt_of_confined (C := [.users]) hcounted (.update (by simp)) (by decide)

/-- Creating a pending post keeps the counters. -/
theorem balanced_createPendingPostBody {id userId : ℕ} {communityId : Option ℕ}
    (h : createPendingPostBody id userId communityId db = .ok after)
    (hb : engagement.Balanced db) (hnew : ¬ references.Cited db (.post id)) :
    engagement.Balanced after := by
  obtain ⟨hfree, rfl⟩ := create_eq_ok.mp h
  intro i
  rw [← lagsAt_zero]
  have hput :=
    lagsAt_put (i := i) (k := .post id) (d := Post.pending userId communityId) hb hfree hnew
    (by
      rintro (hself' | ⟨_, htarget, hself'⟩ | ⟨_, _, hself'⟩) <;> simp_all [Post.pending, Post.new])
    (fun i hi => by cases i <;> cases hi <;> rfl)
  rw [entry_post] at hput
  exact hput

/-- A change of an original post does not matter. -/
theorem balanced_updateOriginal {id : ℕ} {f : Post → Post} (hb : engagement.Balanced db)
    (horiginal : ∀ p : Post, db.doc (.post id) = some p → p.type = .original)
    (hkeep : ∀ p, (f p).type = p.type ∧ (f p).commentsCount = p.commentsCount ∧
      (f p).likesCount = p.likesCount ∧ (f p).repostCount = p.repostCount) :
    engagement.Balanced (db.update (.post id) f) := by
  intro i
  rw [← lagsAt_zero, update_post]
  refine LagsAt.frame (lagsAt_zero.mpr (hb i)) (fun d hd => ?_) fun k => ?_
  · rw [Database.doc_updateMany] at hd
    obtain ⟨d', hd', rfl⟩ := Option.map_eq_some_iff.mp hd
    refine ⟨d', hd', ?_⟩
    cases i with
    | comments j =>
      exact (apply_ite Post.commentsCount ..).trans (by rw [(hkeep d').2.1]; exact ite_self _)
    | postLikes j =>
      exact (apply_ite Post.likesCount ..).trans (by rw [(hkeep d').2.2.1]; exact ite_self _)
    | reposts j =>
      exact (apply_ite Post.repostCount ..).trans (by rw [(hkeep d').2.2.2]; exact ite_self _)
    | replies j | commentLikes j => rfl
  · have hfalse : ∀ p : Post, p.type = .original → engagement.entry i (.post id) p = false := by
      intro p hp
      cases i <;> simp [engagement, Counter.entry, commentsOf, repliesOf, likesOfPost,
        likesOfComment, repostsOf, hp]
    rw [Database.doc_updateMany]
    cases hk : db.doc k with
    | none => rfl
    | some d =>
      by_cases hid : k = .post id
      · subst hid
        have hp := horiginal d hk
        simp [hfalse d hp, hfalse (f d) ((hkeep d).1.trans hp)]
      · cases k <;> simp_all

/-- To count again sets the counters of the named documents and leaves the others. -/
theorem balancedAt_recompute {set : (ℕ → ℤ) → ∀ k, Doc k → Doc k} {entry : ℕ → ∀ k, Doc k → Bool}
    {j : ℕ → Counter} {ids : Finset Key} {i : Counter}
    (hcounter : ∀ id, engagement.entry (j id) = entry id)
    (hentry : ∀ count i k d, engagement.entry i k (set count k d) = engagement.entry i k d)
    (hset : ∀ count id (d : Doc (j id).owner), (j id).owner ∈ ids →
      (j id).value (set count (j id).owner d) = count id)
    (hkeep : ∀ count (i : Counter) (d : Doc i.owner), (∀ id, i = j id → i.owner ∉ ids) →
      i.value (set count i.owner d) = i.value d)
    (h : engagement.BalancedAt db i ∨ ∃ id, i = j id ∧ i.owner ∈ ids) :
    engagement.BalancedAt (recompute set entry db) i := by
  refine balancedAt_updateMany (hentry _ i) fun d hd => ?_
  by_cases hids : ∃ id, i = j id ∧ i.owner ∈ ids
  · obtain ⟨id, rfl, hmem⟩ := hids
    rw [hcounter]
    exact hset _ id d hmem
  · have hbalanced := h.resolve_right hids d hd
    rw [← hbalanced]
    exact hkeep _ i d fun id hi hmem => hids ⟨id, hi, hmem⟩

/-- Counting likes again balances the posts counted. -/
private theorem balancedAt_recomputePostLikeCounts {ids : Finset Key} {i : Counter}
    (h : engagement.BalancedAt db i ∨ ∃ id, i = .postLikes id ∧ i.owner ∈ ids) :
    engagement.BalancedAt (recomputePostLikeCounts ids db) i := by
  refine balancedAt_recompute (fun _ => rfl) (fun count i => entry_onPosts fun id p => ?_)
    (fun count id d hmem => ?_) (fun count i d hnot => ?_) h
  · split <;> exact ⟨rfl, rfl, rfl⟩
  · exact congrArg Post.likesCount (if_pos hmem)
  · cases i with
    | postLikes id => exact congrArg Post.likesCount (if_neg (hnot id rfl))
    | comments id => exact (apply_ite Post.commentsCount ..).trans (ite_self _)
    | reposts id => exact (apply_ite Post.repostCount ..).trans (ite_self _)
    | replies id | commentLikes id => rfl

/-- Counting comments again balances the posts counted. -/
private theorem balancedAt_recomputePostCommentCounts {ids : Finset Key} {i : Counter}
    (h : engagement.BalancedAt db i ∨ ∃ id, i = .comments id ∧ i.owner ∈ ids) :
    engagement.BalancedAt (recomputePostCommentCounts ids db) i := by
  refine balancedAt_recompute (fun _ => rfl) (fun count i => entry_onPosts fun id p => ?_)
    (fun count id d hmem => ?_) (fun count i d hnot => ?_) h
  · split <;> exact ⟨rfl, rfl, rfl⟩
  · exact congrArg Post.commentsCount (if_pos hmem)
  · cases i with
    | comments id => exact congrArg Post.commentsCount (if_neg (hnot id rfl))
    | postLikes id => exact (apply_ite Post.likesCount ..).trans (ite_self _)
    | reposts id => exact (apply_ite Post.repostCount ..).trans (ite_self _)
    | replies id | commentLikes id => rfl

/-- Counting reposts again balances the posts counted. -/
private theorem balancedAt_recomputeRepostCounts {ids : Finset Key} {i : Counter}
    (h : engagement.BalancedAt db i ∨ ∃ id, i = .reposts id ∧ i.owner ∈ ids) :
    engagement.BalancedAt (recomputeRepostCounts ids db) i := by
  refine balancedAt_recompute (fun _ => rfl) (fun count i => entry_onPosts fun id p => ?_)
    (fun count id d hmem => ?_) (fun count i d hnot => ?_) h
  · split <;> exact ⟨rfl, rfl, rfl⟩
  · exact congrArg Post.repostCount (if_pos hmem)
  · cases i with
    | reposts id => exact congrArg Post.repostCount (if_neg (hnot id rfl))
    | postLikes id => exact (apply_ite Post.likesCount ..).trans (ite_self _)
    | comments id => exact (apply_ite Post.commentsCount ..).trans (ite_self _)
    | replies id | commentLikes id => rfl

/-- Counting replies again balances the comments counted. -/
private theorem balancedAt_recomputeCommentReplyCounts {ids : Finset Key} {i : Counter}
    (h : engagement.BalancedAt db i ∨ ∃ id, i = .replies id ∧ i.owner ∈ ids) :
    engagement.BalancedAt (recomputeCommentReplyCounts ids db) i := by
  refine balancedAt_recompute (fun _ => rfl) (fun count i => entry_onComments fun id c => ?_)
    (fun count id d hmem => ?_) (fun count i d hnot => ?_) h
  · split <;> exact ⟨rfl, rfl⟩
  · exact congrArg Comment.replyCount (if_pos hmem)
  · cases i with
    | replies id => exact congrArg Comment.replyCount (if_neg (hnot id rfl))
    | commentLikes id => exact (apply_ite Comment.likesCount ..).trans (ite_self _)
    | comments id | postLikes id | reposts id => rfl

/-- Counting likes again balances the comments counted. -/
private theorem balancedAt_recomputeCommentLikeCounts {ids : Finset Key} {i : Counter}
    (h : engagement.BalancedAt db i ∨ ∃ id, i = .commentLikes id ∧ i.owner ∈ ids) :
    engagement.BalancedAt (recomputeCommentLikeCounts ids db) i := by
  refine balancedAt_recompute (fun _ => rfl) (fun count i => entry_onComments fun id c => ?_)
    (fun count id d hmem => ?_) (fun count i d hnot => ?_) h
  · split <;> exact ⟨rfl, rfl⟩
  · exact congrArg Comment.likesCount (if_pos hmem)
  · cases i with
    | commentLikes id => exact congrArg Comment.likesCount (if_neg (hnot id rfl))
    | replies id => exact (apply_ite Comment.replyCount ..).trans (ite_self _)
    | comments id | postLikes id | reposts id => rfl

/-- What goes with the posts of a graph. -/
def goesWith (graph : Finset Key) (db : Store) (k : Key) (d : Doc k) : Bool :=
  commentLikes (fun comment _ => decide (.comment comment ∈
      db.find (comments fun _ c => decide (.post c.postId ∈ graph)))) k d ||
    (comments (fun _ c => decide (.post c.postId ∈ graph)) k d ||
      (postLikes (fun post _ => decide (.post post ∈ graph)) k d ||
        posts (fun id _ => decide (.post id ∈ graph)) k d))

/-- Deleting a graph of posts is one deletion. -/
theorem deleteGraph_eq (graph : Finset Key) (db : Store) :
    deleteGraph graph db = db.deleteMany (goesWith graph db) := by
  unfold deleteGraph
  dsimp only
  rw [Database.deleteMany_deleteMany, Database.deleteMany_deleteMany,
    Database.deleteMany_deleteMany]
  rfl

/-- The targets outside of a graph that the reposts in it name. -/
def survivingTargets (graph : Finset Key) (db : Store) : Finset Key :=
  named (fun p => if p.type = .repost then p.repostOf.map .post else none) graph db \ graph

/-- A repost of a post outside of the graph is outside, or its target is counted again. -/
theorem mem_survivingTargets {graph : Finset Key} {id target : ℕ} {p : Post}
    (hp : db.doc (.post id) = some p) (htype : p.type = .repost)
    (htarget : p.repostOf = some target) (hid : Key.post id ∈ graph)
    (hnot : Key.post target ∉ graph) : Key.post target ∈ survivingTargets graph db := by
  refine Finset.mem_sdiff.mpr ⟨Finset.mem_biUnion.mpr ⟨.post id, hid, ?_⟩, hnot⟩
  simp [hp, htype, htarget]

/-- The deletions of a graph leave the other counters right. -/
theorem balancedAt_deleteGraph {graph : Finset Key} {i : Counter} (hb : engagement.BalancedAt db i)
    (hthreaded : Threaded db)
    (hi : ¬ ∃ id, i = .reposts id ∧ i.owner ∈ survivingTargets graph db) :
    engagement.BalancedAt (deleteGraph graph db) i := by
  rw [deleteGraph_eq, ← lagsAt_zero]
  refine LagsAt.deleteMany (lagsAt_zero.mpr hb) fun d hd hstays k e he hentry => ?_
  cases i with
  | comments q =>
    cases k with
    | comment id =>
      obtain rfl : e.postId = q := by simpa [engagement, Counter.entry, commentsOf] using hentry
      simpa [goesWith, engagement, Counter.owner] using hstays
    | _ => simp [engagement, Counter.entry, commentsOf] at hentry
  | postLikes q =>
    cases k with
    | postLike post user =>
      obtain rfl : post = q := by simpa [engagement, Counter.entry, likesOfPost] using hentry
      simpa [goesWith, engagement, Counter.owner] using hstays
    | _ => simp [engagement, Counter.entry, likesOfPost] at hentry
  | reposts q =>
    cases k with
    | post id =>
      have hnot : Key.post q ∉ graph := by
        simpa [goesWith, engagement, Counter.owner] using hstays
      obtain ⟨⟨htarget, htype⟩, -⟩ :
        (e.repostOf = some q ∧ e.type = .repost) ∧ e.isActive = true := by
        simpa [engagement, Counter.entry, repostsOf] using hentry
      have hid : Key.post id ∉ graph :=
        fun hid => hi ⟨q, rfl, mem_survivingTargets he htype htarget hid hnot⟩
      simpa [goesWith] using hid
    | _ => simp [engagement, Counter.entry, repostsOf] at hentry
  | replies q =>
    cases k with
    | comment id =>
      have hparent : e.parentId = some q := by
        simpa [engagement, Counter.entry, repliesOf] using hentry
      have hsame : Comment.postId d = e.postId :=
        hthreaded id e.postId q _ (by rw [thread, Trait.of_eq_some he, ← hparent]; rfl)
          (Trait.of_eq_some hd)
      have hpost : Key.post (Comment.postId d) ∉ graph := by
        simpa [goesWith, engagement, Counter.owner] using hstays
      rw [hsame] at hpost
      simpa [goesWith] using hpost
    | _ => simp [engagement, Counter.entry, repliesOf] at hentry
  | commentLikes q =>
    cases k with
    | commentLike comment user =>
      obtain rfl : comment = q := by simpa [engagement, Counter.entry, likesOfComment] using hentry
      have hpost : Key.post (Comment.postId d) ∉ graph := by
        simpa [goesWith, engagement, Counter.owner] using hstays
      have hnot :
          Key.comment comment ∉ db.find (comments fun _ c => decide (.post c.postId ∈ graph)) := by
        intro hmem
        obtain ⟨d', hd', hgraph⟩ := Database.mem_find.mp hmem
        obtain rfl : d' = d := Option.some.inj (hd'.symm.trans hd)
        exact hpost (by simpa using hgraph)
      simpa [goesWith] using hnot
    | _ => simp [engagement, Counter.entry, likesOfComment] at hentry

/-- Deleting a graph of posts keeps the counters. -/
theorem balanced_deletePostGraph (roots : Finset Key) (hthreaded : Threaded db)
    (hb : engagement.Balanced db) : engagement.Balanced (deletePostGraph roots db) := by
  unfold deletePostGraph
  dsimp only
  split
  · exact hb
  · refine balanced_of_confined (C := [.users, .communities]) (fun i =>
      balancedAt_recomputeRepostCounts ?_) (.trans
        (.updateMany fun _ _ => onUsers_outside (by simp))
        (.updateMany fun _ _ => onCommunities_outside (by simp))) (by decide)
    by_cases hi : ∃ id, i = .reposts id ∧ i.owner ∈ survivingTargets (collectPostGraph roots db) db
    · exact .inr hi
    · exact .inl (balancedAt_deleteGraph (hb i) hthreaded hi)

/-- Counters that do not count the deleted likes of posts stay right. -/
theorem balancedAt_deletePostLikes {p : ℕ → ℕ → Bool} {i : Counter}
    (hb : engagement.BalancedAt db i)
    (h : ∀ id user d, i = .postLikes id → db.doc (.postLike id user) = some d →
      p id user = false) : engagement.BalancedAt (db.deleteMany (postLikes p)) i := by
  rw [← lagsAt_zero]
  refine LagsAt.deleteMany (lagsAt_zero.mpr hb) fun _ _ _ k e he hentry => ?_
  cases k with
  | postLike post user =>
    cases i with
    | postLikes q =>
      obtain rfl : post = q := by simpa [engagement, Counter.entry, likesOfPost] using hentry
      exact h post user e rfl he
    | _ => simp [engagement, Counter.entry, commentsOf, repliesOf, repostsOf, likesOfComment]
        at hentry
  | _ => rfl

/-- Counters that do not count the deleted likes of comments stay right. -/
theorem balancedAt_deleteCommentLikes {p : ℕ → ℕ → Bool} {i : Counter}
    (hb : engagement.BalancedAt db i)
    (h : ∀ id user d, i = .commentLikes id → db.doc (.commentLike id user) = some d →
      p id user = false) : engagement.BalancedAt (db.deleteMany (commentLikes p)) i := by
  rw [← lagsAt_zero]
  refine LagsAt.deleteMany (lagsAt_zero.mpr hb) fun _ _ _ k e he hentry => ?_
  cases k with
  | commentLike comment user =>
    cases i with
    | commentLikes q =>
      obtain rfl : comment = q := by simpa [engagement, Counter.entry, likesOfComment] using hentry
      exact h comment user e rfl he
    | _ => simp [engagement, Counter.entry, commentsOf, repliesOf, repostsOf, likesOfPost]
        at hentry
  | _ => rfl

/-- Removing the likes of a user keeps the counters. -/
theorem balanced_removePostInteractions (userId : ℕ) (hb : engagement.Balanced db) :
    engagement.Balanced (removePostInteractions userId db) := by
  unfold removePostInteractions
  dsimp only
  intro i
  refine balancedAt_recomputePostLikeCounts ?_
  by_cases hi : ∃ id user d, i = .postLikes id ∧ db.doc (.postLike id user) = some d ∧
      user = userId
  · obtain ⟨id, user, d, rfl, hd, rfl⟩ := hi
    refine .inr ⟨id, rfl, Finset.mem_biUnion.mpr ⟨.postLike id user, ?_, ?_⟩⟩
    · exact Database.mem_find.mpr ⟨d, hd, by simp⟩
    · exact Finset.mem_singleton_self _
  · refine .inl (balancedAt_deletePostLikes (hb i) fun id user d hid hd => ?_)
    simpa using fun huser => hi ⟨id, user, d, hid, hd, huser⟩

/-- A comment without likes whose count is set to zero. -/
theorem balanced_onComments {f : ℕ → Comment → Comment} (hb : engagement.Balanced db)
    (hkeep : ∀ id c, (f id c).postId = c.postId ∧ (f id c).parentId = c.parentId)
    (hreplies : ∀ id c, (f id c).replyCount = c.replyCount)
    (hlikes : ∀ id c, db.doc (.comment id) = some c → (f id c).likesCount = c.likesCount ∨
      (f id c).likesCount = 0 ∧ ∀ user, db.doc (.commentLike id user) = none) :
    engagement.Balanced (db.updateMany (onComments f)) := by
  intro i
  refine balancedAt_updateMany (entry_onComments hkeep) fun d hd => ?_
  rw [← hb i d hd]
  cases i with
  | comments q | postLikes q | reposts q => rfl
  | replies q => exact hreplies q d
  | commentLikes q =>
    rcases hlikes q d hd with hsame | ⟨hzero, hnone⟩
    · exact hsame
    · refine Eq.trans hzero ?_
      rw [hb _ d hd, Database.count_eq_zero.mpr]
      · rfl
      · intro k e he
        cases k with
        | commentLike comment user =>
          by_contra hentry
          obtain rfl : comment = q := by
            simpa [engagement, Counter.entry, likesOfComment] using hentry
          rw [hnone user] at he
          cases he
        | _ => rfl

private theorem recomputeCommentLikeCounts_confined (ids : Finset Key) (db : Store) :
    Confined [.comments] db (recomputeCommentLikeCounts ids db) :=
  .updateMany fun _ _ => onComments_outside (by simp)

/-- Comments that a user wrote go without their likes, and the user's other likes go. -/
theorem balanced_tombstoneComments (userId : ℕ) (hb : engagement.Balanced db) :
    engagement.Balanced (tombstoneComments userId db) := by
  unfold tombstoneComments
  dsimp only
  generalize db.find (comments fun _ c =>
    c.userId == some userId || c.departedUserKey == some userId) = authored
  refine balanced_onComments (fun i => balancedAt_recomputeCommentLikeCounts ?_)
    (fun id c => by split <;> exact ⟨rfl, rfl⟩) (fun id c => by split <;> rfl) fun id c hc => ?_
  · by_cases hi : ∃ id, i = .commentLikes id ∧ (Key.comment id ∈ authored ∨
        ∃ d, db.doc (.commentLike id userId) = some d)
    · obtain ⟨id, rfl, hid⟩ := hi
      refine .inr ⟨id, rfl, Finset.mem_union.mpr (hid.imp_right ?_)⟩
      rintro ⟨d, hd⟩
      refine Finset.mem_biUnion.mpr ⟨.commentLike id userId, ?_, Finset.mem_singleton_self _⟩
      exact Database.mem_find.mpr ⟨d, hd, by simp⟩
    · refine .inl (balancedAt_deleteCommentLikes (hb i) fun id user d hid hd => ?_)
      have hnot : Key.comment id ∉ authored := fun hmem => hi ⟨id, hid, .inl hmem⟩
      have huser : user ≠ userId := by
        rintro rfl
        exact hi ⟨id, hid, .inr ⟨d, hd⟩⟩
      simp [hnot, huser]
  · split
    · next hid =>
      refine .inr ⟨rfl, fun user => ?_⟩
      rw [recomputeCommentLikeCounts_confined _ _ (.commentLike id user) (by simp),
        Database.doc_deleteMany]
      cases db.doc (.commentLike id user) <;> simp [Option.filter, hid]
    · exact .inl rfl

/-- Deleting a comment keeps the counters. -/
theorem balanced_deleteCommentBody {id postId : ℕ} {parentId : Option ℕ}
    (hthread : ∀ t, thread db id = some t → t = (postId, parentId)) (hb : engagement.Balanced db) :
    engagement.Balanced (deleteCommentBody id postId parentId db) := by
  have hlikes : ∀ i, i ≠ .commentLikes id →
      engagement.BalancedAt (db.deleteMany (likesOfComment id)) i := by
    intro i hi
    refine balancedAt_deleteCommentLikes (hb i) fun id' user d hid hd => ?_
    simpa using fun h : id' = id => hi (h ▸ hid)
  have hthreads : identity.Stays db (db.deleteMany (likesOfComment id)) := .deleteMany _
  unfold deleteCommentBody
  dsimp only
  split
  · rw [update_comment]
    intro i
    refine balancedAt_updateMany (entry_onComments fun j c => ?_) fun d hd => ?_
    · split <;> exact ⟨rfl, rfl⟩
    cases i with
    | comments q | postLikes q | reposts q => exact hlikes _ (by simp) d hd
    | replies q =>
      exact (apply_ite Comment.replyCount ..).trans ((ite_self _).trans (hlikes _ (by simp) d hd))
    | commentLikes q =>
      by_cases hq : q = id
      · subst hq
        refine (congrArg Comment.likesCount (if_pos rfl)).trans ?_
        rw [Database.count_eq_zero.mpr]
        · rfl
        · intro k e he
          exact (Database.doc_deleteMany_eq_some.mp he).2
      · exact (congrArg Comment.likesCount (if_neg hq)).trans
          (hlikes _ (fun h => hq (Counter.commentLikes.inj h)) d hd)
  · -- The counters of the post and of the parent are counted again.
    have hdeleted : ∀ i, i ≠ .comments postId → parentId.any (i = .replies ·) = false →
        engagement.BalancedAt ((db.deleteMany (likesOfComment id)).delete (.comment id)) i := by
      intro i hpost hparent
      by_cases howner : i.owner = .comment id
      · have hgone : engagement.BalancedAt
            ((db.deleteMany (likesOfComment id)).delete (engagement.owner i)) i :=
          balancedAt_delete_owner
        rwa [show engagement.owner i = _ from howner] at hgone
      have hbefore := hlikes i (by rintro rfl; exact howner rfl)
      cases hc : (db.deleteMany (likesOfComment id)).doc (.comment id) with
      | none => rwa [Database.delete_of_none hc]
      | some c =>
        have hdelete := (lagsAt_zero.mpr hbefore).delete hc
        have ht := hthread (c.postId, c.parentId) (by
          rcases hthreads _ (identity_comment id) with hnone | hsame
          · rw [Trait.of_eq_none.mp hnone] at hc
            cases hc
          · exact hsame.symm.trans (Trait.of_eq_some hc))
        obtain ⟨rfl, rfl⟩ := Prod.mk.inj ht
        rw [entry_comment, if_neg hpost, hparent] at hdelete
        exact lagsAt_zero.mp hdelete
    have hcomments : ∀ i, parentId.any (i = .replies ·) = false →
        engagement.BalancedAt (recomputePostCommentCounts {.post postId}
          ((db.deleteMany (likesOfComment id)).delete (.comment id))) i := by
      intro i hparent
      refine balancedAt_recomputePostCommentCounts ?_
      by_cases hi : i = .comments postId
      · exact .inr ⟨postId, hi, by rw [hi]; exact Finset.mem_singleton_self _⟩
      · exact .inl (hdeleted i hi hparent)
    cases parentId with
    | none => exact fun i => hcomments i rfl
    | some parent =>
      refine fun i => balancedAt_recomputeCommentReplyCounts ?_
      by_cases hi : i = .replies parent
      · exact .inr ⟨parent, hi, by rw [hi]; exact Finset.mem_singleton_self _⟩
      · exact .inl (hcomments i (by simpa using hi))

end Bodies

end Ascendance.Social
