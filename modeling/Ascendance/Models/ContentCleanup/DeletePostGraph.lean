import Ascendance.Models.ContentCleanup.Collections

/-!
# What `deletePostGraph` does

The graph of the roots is what reposts them, over any number of steps and whatever the
reposts look like. Every collection afterwards is described by the one before.
-/

namespace Ascendance.ContentCleanup

open Ascendance.Core

namespace Db

variable {db : Db} {roots : Finset ObjectId} {id : ObjectId}

/-- The roots, stored or not, and every stored post that reposts what is included. -/
inductive Included (db : Db) (roots : Finset ObjectId) : ObjectId → Prop
  | root {id : ObjectId} (h : id ∈ roots) : Included db roots id
  | repost {id target : ObjectId} {p : StoredPost} (hp : db.posts.Has id p)
    (hrepost : p.repostOf = some target) (h : Included db roots target) : Included db roots id

/-- What a round finds: the posts of the set and those that repost one of it. -/
private theorem mem_find_reaches {s : Finset ObjectId} : id ∈ db.posts.find (reaches s) ↔
    ∃ p, db.posts.Has id p ∧ (id ∈ s ∨ ∃ target ∈ s, p.repostOf = some target) := by
  rw [Collection.mem_find]
  apply exists_congr
  intro p
  apply and_congr_right
  intro _
  unfold reaches
  rw [Bool.or_eq_true, decide_eq_true_iff, Option.any_eq_true]
  constructor
  · rintro (h | ⟨target, htarget, h⟩)
    · exact .inl h
    · exact .inr ⟨target, of_decide_eq_true h, htarget⟩
  · rintro (h | ⟨target, h, htarget⟩)
    · exact .inl h
    · exact .inr ⟨target, htarget, decide_eq_true h⟩

private theorem find_reaches_subset (s : Finset ObjectId) :
    db.posts.find (reaches s) ⊆ db.posts.ids :=
  Finset.filter_subset ..

/-- What two sets of roots reach together is reached from one of them. -/
theorem find_reaches_union (s t : Finset ObjectId) : db.posts.find (reaches (s ∪ t)) ⊆
    db.posts.find (reaches s) ∪ db.posts.find (reaches t) := by
  intro id h
  obtain ⟨p, hp, hreach⟩ := mem_find_reaches.mp h
  rw [Finset.mem_union, mem_find_reaches, mem_find_reaches]
  rcases hreach with hid | ⟨target, ht, hrepost⟩
  · rcases Finset.mem_union.mp hid with hid | hid
    · exact .inl ⟨p, hp, .inl hid⟩
    · exact .inr ⟨p, hp, .inl hid⟩
  · rcases Finset.mem_union.mp ht with ht | ht
    · exact .inl ⟨p, hp, .inr ⟨target, ht, hrepost⟩⟩
    · exact .inr ⟨p, hp, .inr ⟨target, ht, hrepost⟩⟩

/-- The search ends: rounds beyond the number of posts change nothing. -/
theorem collectRounds_stable {rounds : ℕ} (h : db.posts.ids.card < rounds) :
    db.collectRounds rounds roots = db.collectPostGraph roots := by
  refine collect_stable find_reaches_subset (Nat.lt_succ_of_le ?_) h
  exact Finset.card_le_card Finset.sdiff_subset

/-- The graph is what is included and stored. -/
theorem mem_collectPostGraph : id ∈ db.collectPostGraph roots ↔
    (∃ p, db.posts.Has id p) ∧ db.Included roots id := by
  constructor
  · intro h
    constructor
    · have hbound : ∀ s, db.posts.find (reaches s) ⊆ db.posts.ids := find_reaches_subset
      have hsub := collect_subset hbound _ roots ∅ h
      rw [Finset.empty_union] at hsub
      exact ⟨_, hsub, rfl⟩
    · refine collect_induct (P := db.Included roots) (fun s hs id' hid' => ?_) _
        (fun x hx => .root hx) (fun x hx => absurd hx (Finset.notMem_empty x)) id h
      obtain ⟨p, hp, hreach⟩ := mem_find_reaches.mp hid'
      rcases hreach with hid | ⟨target, ht, hrepost⟩
      · exact hs id' hid
      · exact .repost hp hrepost (hs target ht)
  · rintro ⟨⟨p, hp⟩, hincluded⟩
    have hempty : Collecting (fun frontier => db.posts.find (reaches frontier)) roots ∅ := by
      intro id' hid'
      obtain ⟨q, -, hreach⟩ := mem_find_reaches.mp hid'
      rcases hreach with hid | ⟨target, ht, -⟩
      · exact absurd hid (Finset.notMem_empty id')
      · exact absurd ht (Finset.notMem_empty target)
    obtain ⟨hroots, hclosed⟩ := collect_closed find_reaches_subset find_reaches_union
      (Nat.lt_succ_of_le (Finset.card_le_card Finset.sdiff_subset)) hempty
    rw [Finset.empty_union] at hroots
    induction hincluded generalizing p with
    | root h => exact hroots (mem_find_reaches.mpr ⟨p, hp, .inl h⟩)
    | @repost id target q hq hrepost hincluded ih =>
      -- A target that is not stored is a root: nothing else is included that is not stored.
      cases hincluded with
      | root h => exact hroots (mem_find_reaches.mpr ⟨q, hq, .inr ⟨target, h, hrepost⟩⟩)
      | repost ht _ _ =>
        exact hclosed (mem_find_reaches.mpr ⟨q, hq, .inr ⟨target, ih _ ht, hrepost⟩⟩)

/-- A comment on a post of the graph. -/
def CommentIn (db : Db) (graph : Finset ObjectId) (id : ObjectId) : Prop :=
  ∃ c, db.comments.Has id c ∧ c.postId ∈ graph

/-- A post of the graph with a property. -/
def PostIn (db : Db) (graph : Finset ObjectId) (P : StoredPost → Prop) : Prop :=
  ∃ id p, id ∈ graph ∧ db.posts.Has id p ∧ P p

/-- A signal about a post of the graph, or one that a repost of the graph gave. -/
def SignalIn (db : Db) (graph : Finset ObjectId) (s : FeedSignal) : Prop :=
  s.postId ∈ graph ∨ s.kind = .repost ∧
    db.PostIn graph fun p => p.isRepost = true ∧ p.user = s.userId ∧ p.repostOf = some s.postId

section

open Classical

/-- The database after a deletion, collection by collection. -/
structure Deletes (db : Db) (graph : Finset ObjectId) (modifiedAt : ℕ) (after : Db) : Prop where
  /-- The posts of the graph are gone, and a post that lost a repost is counted again. -/
  posts : ∀ id p, after.posts.Has id p ↔ id ∉ graph ∧ ∃ p₀, db.posts.Has id p₀ ∧
    p = if db.PostIn graph fun r => r.isRepost = true ∧ r.repostOf = some id then
        { p₀ with repostCount := after.repostsOf id }
      else p₀
  comments : ∀ id c, after.comments.Has id c ↔ db.comments.Has id c ∧ c.postId ∉ graph
  commentlikes : ∀ id l, after.commentlikes.Has id l ↔
    db.commentlikes.Has id l ∧ ¬db.CommentIn graph l.targetId
  postlikes : ∀ id l, after.postlikes.Has id l ↔ db.postlikes.Has id l ∧ l.targetId ∉ graph
  favorites : ∀ id l, after.favorites.Has id l ↔ db.favorites.Has id l ∧ l.targetId ∉ graph
  postviews : ∀ id l, after.postviews.Has id l ↔ db.postviews.Has id l ∧ l.targetId ∉ graph
  useractions : ∀ id a, after.useractions.Has id a ↔
    db.useractions.Has id a ∧ a.targetId ∉ graph ∧ ¬db.CommentIn graph a.targetId
  notifications : ∀ id n, after.notifications.Has id n ↔ db.notifications.Has id n ∧
    ∀ target, n.targetId = some target →
      ¬(target ≠ "" ∧ db.PostIn graph fun p => p.publicId = target) ∧
        ¬∃ comment, db.CommentIn graph comment ∧ toHexString comment = target
  feedsignals : ∀ id s, after.feedsignals.Has id s ↔
    db.feedsignals.Has id s ∧ ¬db.SignalIn graph s
  feedprofiles : ∀ id f, after.feedprofiles.Has id f ↔ ∃ f₀, db.feedprofiles.Has id f₀ ∧
    f = if ∃ i s, db.feedsignals.Has i s ∧ db.SignalIn graph s ∧ s.userId = f₀.userId then
        { f₀ with revision := f₀.revision + 1 }
      else f₀
  images : ∀ id i, after.images.Has id i ↔ db.images.Has id i ∧
    ¬(db.PostIn graph fun p => p.image = some id) ∧
      ¬∃ comment c, db.comments.Has comment c ∧ c.postId ∈ graph ∧ c.image = some id
  users : ∀ id u, after.users.Has id u ↔ ∃ u₀, db.users.Has id u₀ ∧
    u = if db.PostIn graph fun p => p.user = id then { u₀ with postCount := after.postsOfUser id }
      else u₀
  tags : ∀ id t, after.tags.Has id t ↔ ∃ t₀, db.tags.Has id t₀ ∧
    t = if db.PostIn graph fun p => p.isRepost = false ∧ id ∈ p.tags then
        { t₀ with count := after.usesOfTag id, modifiedAt }
      else t₀
  communities : ∀ id c, after.communities.Has id c ↔ ∃ c₀, db.communities.Has id c₀ ∧
    c = if db.PostIn graph fun p => p.communityId = some id then
        { c₀ with postCount := after.postsOfCommunity id }
      else c₀

end

/-- A name is collected exactly when a post of the graph holds it. -/
theorem mem_named {graph : Finset ObjectId} {f : StoredPost → Finset ObjectId}
    (hgraph : graph ⊆ db.posts.ids) :
    id ∈ db.named graph f ↔ db.PostIn graph fun p => id ∈ f p := by
  unfold named
  rw [Finset.mem_biUnion]
  constructor
  · rintro ⟨post, hpost, hid⟩
    exact ⟨post, _, hpost, ⟨hgraph hpost, rfl⟩, hid⟩
  · rintro ⟨post, p, hpost, hp, hid⟩
    exact ⟨post, hpost, hp.2 ▸ hid⟩

/-- The collected comments are those of the graph. -/
private theorem mem_commentIds {graph : Finset ObjectId} :
    id ∈ (db.comments.find fun _ c => decide (c.postId ∈ graph)) ↔ db.CommentIn graph id := by
  rw [Collection.mem_find]
  exact exists_congr fun c => and_congr_right fun _ => decide_eq_true_iff

/-- The affected signals are those about the graph. -/
private theorem isAffected_iff {graph : Finset ObjectId} (hgraph : graph ⊆ db.posts.ids)
    {s : FeedSignal} :
    db.isAffected graph s = true ↔ db.SignalIn graph s := by
  unfold isAffected SignalIn
  rw [Bool.or_eq_true, decide_eq_true_iff, Bool.and_eq_true, beq_iff_eq, decide_eq_true_iff]
  refine or_congr_right (and_congr_right fun _ => ?_)
  constructor
  · rintro ⟨post, hpost, hrepost⟩
    exact ⟨post, _, hpost, ⟨hgraph hpost, rfl⟩, hrepost⟩
  · rintro ⟨post, p, hpost, hp, hrepost⟩
    exact ⟨post, hpost, hp.2 ▸ hrepost⟩

private theorem collectPostGraph_subset : db.collectPostGraph roots ⊆ db.posts.ids := by
  intro id h
  obtain ⟨⟨p, hp⟩, -⟩ := mem_collectPostGraph.mp h
  exact hp.1

/-- Without posts there is nothing to do. -/
theorem removeSignals_empty : db.removeSignals ∅ = db := by
  simp [removeSignals, isAffected]

private theorem removeGraph_empty : db.removeGraph ∅ ∅ = db := by
  simp [removeGraph, named, notificationTargets, removeCommentAttachments, commentImages]

/-- The deletion without its test for an empty graph. -/
theorem deletePostGraph_eq (db : Db) (roots : Finset ObjectId) (modifiedAt : ℕ) :
    db.deletePostGraph roots modifiedAt =
      let graph := db.collectPostGraph roots
      (((((db.removeSignals graph).removeGraph graph
        (db.comments.find fun _ c => decide (c.postId ∈ graph))).recomputeRepostCounts
          (db.named graph (fun p => if p.isRepost then p.repostOf.toFinset else ∅) \ graph)
        ).recomputeUserPostCounts (db.named graph fun p => {p.user})
        ).recomputeTagCounts (db.named graph fun p => if p.isRepost then ∅ else p.tags.toFinset)
          modifiedAt
        ).recomputeCommunityPostCounts (db.named graph fun p => p.communityId.toFinset) := by
  unfold deletePostGraph
  dsimp only
  split
  · next hempty =>
    simp [hempty, removeSignals_empty, removeGraph_empty, named, recomputeRepostCounts,
      recomputeUserPostCounts, recomputeTagCounts, recomputeCommunityPostCounts]
  · rfl

/-- Only the images of comments that are deleted are touched. -/
theorem comments_removeCommentAttachments {graph commentIds : Finset ObjectId}
    (h : ∀ id, id ∈ commentIds ↔ db.CommentIn graph id) {c : Comment} (hc : c.postId ∉ graph) :
    (db.removeCommentAttachments commentIds).comments.Has id c ↔ db.comments.Has id c := by
  unfold removeCommentAttachments
  dsimp only
  split
  · rfl
  · rw [Collection.has_updateMany]
    constructor
    · rintro ⟨c₀, hc₀, rfl⟩
      split at hc
      · next hid =>
        obtain ⟨c₁, hc₁, hpost⟩ := (h id).mp hid
        rw [hc₁.unique hc₀] at hpost
        exact absurd hpost hc
      · next hid => rwa [if_neg hid]
    · intro hhas
      refine ⟨c, hhas, ?_⟩
      rw [if_neg]
      intro hid
      obtain ⟨c₁, hc₁, hpost⟩ := (h id).mp hid
      rw [hc₁.unique hhas] at hpost
      exact hc hpost

/-- The images of the deleted comments go, and no other. -/
private theorem images_removeCommentAttachments {commentIds : Finset ObjectId} {i : StoredImage} :
    (db.removeCommentAttachments commentIds).images.Has id i ↔
      db.images.Has id i ∧ id ∉ db.commentImages commentIds := by
  unfold removeCommentAttachments
  dsimp only
  split
  · next hempty => simp [hempty]
  · rw [Collection.has_deleteMany, decide_eq_false_iff_not]

/-- The images of the collected comments. -/
private theorem mem_commentImages {graph commentIds : Finset ObjectId}
    (h : ∀ id, id ∈ commentIds ↔ db.CommentIn graph id) : id ∈ db.commentImages commentIds ↔
      ∃ comment c, db.comments.Has comment c ∧ c.postId ∈ graph ∧ c.image = some id := by
  unfold commentImages
  rw [Finset.mem_biUnion]
  constructor
  · rintro ⟨comment, hcomment, hid⟩
    obtain ⟨c, hc, hpost⟩ := (h comment).mp hcomment
    exact ⟨comment, c, hc, hpost, hc.2 ▸ Option.mem_toFinset.mp hid⟩
  · rintro ⟨comment, c, hc, hpost, hid⟩
    exact ⟨comment, (h comment).mpr ⟨c, hc, hpost⟩, Option.mem_toFinset.mpr (hc.2 ▸ hid)⟩

/-- What notifications may point at: a post of the graph or one of its comments. -/
private theorem mem_notificationTargets {graph commentIds : Finset ObjectId}
    (hgraph : graph ⊆ db.posts.ids) (h : ∀ id, id ∈ commentIds ↔ db.CommentIn graph id)
    {target : String} : target ∈ db.notificationTargets graph commentIds ↔
      (target ≠ "" ∧ db.PostIn graph fun p => p.publicId = target) ∨
        ∃ comment, db.CommentIn graph comment ∧ toHexString comment = target := by
  unfold notificationTargets
  rw [Finset.mem_union, Finset.mem_filter, Finset.mem_image, Finset.mem_image]
  refine or_congr ?_ (exists_congr fun comment => and_congr_left fun _ => h comment)
  rw [and_comm]
  refine and_congr_right fun _ => ?_
  constructor
  · rintro ⟨post, hpost, rfl⟩
    exact ⟨post, _, hpost, ⟨hgraph hpost, rfl⟩, rfl⟩
  · rintro ⟨post, p, hpost, hp, rfl⟩
    exact ⟨post, hpost, by rw [hp.2]⟩

/-- The counters of reposts are not counted. -/
theorem repostsOf_recomputeRepostCounts (ids : Finset ObjectId) (db : Db) (id : ObjectId) :
    (db.recomputeRepostCounts ids).repostsOf id = db.repostsOf id := by
  refine Collection.countDocuments_updateMany
    (f := fun id (p : StoredPost) =>
      if id ∈ ids then { p with repostCount := db.repostsOf id } else p)
    (p := fun p : StoredPost => p.repostOf == some id && p.isRepost && p.isActive) fun i d => ?_
  split
  · rfl
  · rfl

/-- Some documents of a collection are changed. -/
theorem has_changed {δ : Type} {c : Collection ObjectId δ} {Q : ObjectId → δ → Prop}
    [∀ id d, Decidable (Q id d)] {P : δ → Prop} [∀ d, Decidable (P d)]
    (h : ∀ d, c.Has id d → (Q id d ↔ P d)) (f : ObjectId → δ → δ) {d : δ} :
    (c.updateMany fun id d => if Q id d then f id d else d).Has id d ↔
      ∃ d₀, c.Has id d₀ ∧ d = if P d₀ then f id d₀ else d₀ := by
  rw [Collection.has_updateMany]
  refine exists_congr fun d₀ => and_congr_right fun hd₀ => ?_
  rw [if_congr (h d₀ hd₀) rfl rfl]

/-- The documents that name nothing of a set stay. -/
theorem has_deleteMany_mem {α δ : Type} [DecidableEq α] {c : Collection ObjectId δ} {f : δ → α}
    {graph : Finset α} {d : δ} :
    (c.deleteMany fun _ d => decide (f d ∈ graph)).Has id d ↔ c.Has id d ∧ f d ∉ graph := by
  rw [Collection.has_deleteMany, decide_eq_false_iff_not]

/-- The posts outside the graph that lose a repost. -/
theorem mem_named_reposts {graph : Finset ObjectId} (hgraph : graph ⊆ db.posts.ids)
    (hid : id ∉ graph) :
    id ∈ db.named graph (fun p => if p.isRepost then p.repostOf.toFinset else ∅) \ graph ↔
      db.PostIn graph fun r => r.isRepost = true ∧ r.repostOf = some id := by
  rw [Finset.mem_sdiff, and_iff_left hid, mem_named hgraph]
  refine exists_congr fun post => exists_congr fun r => ?_
  refine and_congr_right fun _ => and_congr_right fun _ => ?_
  cases hr : r.isRepost <;> simp [hr]

/-- The tags of the posts that are no reposts. -/
theorem mem_named_tags {graph : Finset ObjectId} (hgraph : graph ⊆ db.posts.ids) :
    id ∈ db.named graph (fun p => if p.isRepost then ∅ else p.tags.toFinset) ↔
      db.PostIn graph fun p => p.isRepost = false ∧ id ∈ p.tags := by
  rw [mem_named hgraph]
  refine exists_congr fun post => exists_congr fun p => ?_
  refine and_congr_right fun _ => and_congr_right fun _ => ?_
  cases hp : p.isRepost <;> simp [hp]

/-- The users with a signal that goes. -/
theorem mem_affectedUsers {graph : Finset ObjectId} (hgraph : graph ⊆ db.posts.ids)
    {user : ObjectId} :
    user ∈ (db.feedsignals.find fun _ s => db.isAffected graph s).image
        (fun id => (db.feedsignals.doc id).userId) ↔
      ∃ i s, db.feedsignals.Has i s ∧ db.SignalIn graph s ∧ s.userId = user := by
  rw [Finset.mem_image]
  constructor
  · rintro ⟨i, hi, huser⟩
    obtain ⟨s, hs, haffected⟩ := Collection.mem_find.mp hi
    exact ⟨i, s, hs, (isAffected_iff hgraph).mp haffected, hs.2 ▸ huser⟩
  · rintro ⟨i, s, hs, haffected, huser⟩
    exact ⟨i, Collection.mem_find.mpr ⟨s, hs, (isAffected_iff hgraph).mpr haffected⟩,
      hs.2 ▸ huser⟩

open Classical in
/-- Every collection after the deletion. -/
theorem deletePostGraph_deletes (db : Db) (roots : Finset ObjectId) (modifiedAt : ℕ) :
    db.Deletes (db.collectPostGraph roots) modifiedAt (db.deletePostGraph roots modifiedAt) := by
  rw [deletePostGraph_eq]
  dsimp only
  generalize hg : db.collectPostGraph roots = graph
  have hgraph : graph ⊆ db.posts.ids := hg ▸ collectPostGraph_subset
  have hcomments : ∀ id, id ∈ (db.comments.find fun _ c => decide (c.postId ∈ graph)) ↔
      db.CommentIn graph id := fun id => mem_commentIds
  generalize db.comments.find (fun _ c => decide (c.postId ∈ graph)) = commentIds at hcomments
  constructor
  case posts =>
    intro id p
    have hstays : ∀ p₀, (db.posts.deleteMany fun id _ => decide (id ∈ graph)).Has id p₀ →
        id ∉ graph := fun p₀ hp₀ => of_decide_eq_false (Collection.has_deleteMany.mp hp₀).2
    refine (has_changed (Q := fun id _ => id ∈ _ \ graph)
      (fun p₀ hp₀ => mem_named_reposts hgraph (hstays p₀ hp₀))
      fun id p => { p with repostCount := _ }).trans ?_
    rw [← exists_and_left]
    refine exists_congr fun p₀ => ?_
    rw [Collection.has_deleteMany, decide_eq_false_iff_not, and_comm (a := id ∉ graph),
      and_right_comm, ← repostsOf_recomputeRepostCounts]
    rfl
  case comments =>
    intro id c
    change (((db.removeSignals graph).removeCommentAttachments commentIds).comments.deleteMany
      fun _ c => decide (c.postId ∈ graph)).Has id c ↔ _
    rw [Collection.has_deleteMany, decide_eq_false_iff_not]
    have hsame : ∀ id, id ∈ commentIds ↔ (db.removeSignals graph).CommentIn graph id := hcomments
    exact and_congr_left fun hpost => comments_removeCommentAttachments hsame hpost
  case commentlikes =>
    intro id l
    change (db.commentlikes.deleteMany fun _ l => decide (l.targetId ∈ commentIds)).Has id l ↔ _
    rw [Collection.has_deleteMany, decide_eq_false_iff_not, hcomments]
  case postlikes =>
    intro id l
    exact has_deleteMany_mem (c := db.postlikes)
  case favorites =>
    intro id l
    exact has_deleteMany_mem (c := db.favorites)
  case postviews =>
    intro id l
    exact has_deleteMany_mem (c := db.postviews)
  case useractions =>
    intro id a
    change (db.useractions.deleteMany fun _ a =>
      decide (a.targetId ∈ graph ∪ commentIds)).Has id a ↔ _
    rw [Collection.has_deleteMany, decide_eq_false_iff_not, Finset.mem_union, hcomments, not_or]
  case notifications =>
    intro id n
    change (db.notifications.deleteMany fun _ n => n.targetId.any fun target =>
      decide (target ∈ db.notificationTargets graph commentIds)).Has id n ↔ _
    rw [Collection.has_deleteMany]
    refine and_congr_right fun _ => ?_
    cases n.targetId with
    | none => simp
    | some target =>
      simp only [Option.any_some, decide_eq_false_iff_not, mem_notificationTargets hgraph hcomments,
        not_or, Option.some.injEq, forall_eq']
  case feedsignals =>
    intro id s
    change (db.feedsignals.deleteMany fun _ s => db.isAffected graph s).Has id s ↔ _
    rw [Collection.has_deleteMany, ← Bool.not_eq_true, isAffected_iff hgraph]
  case feedprofiles =>
    intro id f
    refine has_changed (c := db.feedprofiles) (Q := fun _ f => f.userId ∈ _) (fun f₀ _ => ?_)
      fun _ f => { f with revision := f.revision + 1 }
    exact mem_affectedUsers hgraph
  case images =>
    intro id i
    change (((db.removeSignals graph).removeCommentAttachments commentIds).images.deleteMany
      fun id _ => decide (id ∈ db.named graph fun p => p.image.toFinset)).Has id i ↔ _
    have hsame : ∀ id, id ∈ commentIds ↔ (db.removeSignals graph).CommentIn graph id := hcomments
    rw [Collection.has_deleteMany, decide_eq_false_iff_not, mem_named hgraph,
      images_removeCommentAttachments, mem_commentImages hsame]
    simp only [Option.mem_toFinset, Option.mem_def]
    exact ⟨fun ⟨⟨hi, hc⟩, hp⟩ => ⟨hi, hp, hc⟩, fun ⟨hi, hp, hc⟩ => ⟨⟨hi, hc⟩, hp⟩⟩
  case users =>
    intro id u
    refine has_changed (c := db.users) (Q := fun id _ => id ∈ _) (fun u₀ _ => ?_)
      fun id u => { u with postCount := _ }
    rw [mem_named hgraph]
    simp only [Finset.mem_singleton, eq_comm]
  case tags =>
    intro id t
    exact has_changed (c := db.tags) (Q := fun id _ => id ∈ _)
      (fun t₀ _ => mem_named_tags hgraph) fun id t => { t with count := _, modifiedAt }
  case communities =>
    intro id c
    refine has_changed (c := db.communities) (Q := fun id _ => id ∈ _) (fun c₀ _ => ?_)
      fun id c => { c with postCount := _ }
    rw [mem_named hgraph]
    simp only [Option.mem_toFinset, Option.mem_def]

/-- The graph is closed and nothing more, the rounds end, and the deletion leaves nothing that
refers to it and counts again what it takes away. -/
theorem deletePostGraph_integrity (db : Db) (roots : Finset ObjectId) (modifiedAt : ℕ) :
    (∀ more, db.collectRounds (db.posts.ids.card + 1 + more) roots = db.collectPostGraph roots) ∧
    (∀ id, id ∈ db.collectPostGraph roots ↔ (∃ p, db.posts.Has id p) ∧ db.Included roots id) ∧
    db.Deletes (db.collectPostGraph roots) modifiedAt (db.deletePostGraph roots modifiedAt) :=
  ⟨fun _ => collectRounds_stable (Nat.lt_of_lt_of_le (Nat.lt_succ_self _) (Nat.le_add_right _ _)),
    fun _ => mem_collectPostGraph, deletePostGraph_deletes db roots modifiedAt⟩

/-- A post of one user, a post of nobody with a tag that stands there twice, and a reply to it whose
parent is a comment on the first. -/
def mixed : Db where
  posts := ⟨{7, 8}, fun id =>
    ⟨"", if id = 7 then 1 else 2, none, some .original, some "active", none,
      if id = 7 then [3] else [3, 3], none, none, 0, 0, 0⟩⟩
  comments := ⟨{4, 5}, fun id => if id = 4 then ⟨7, none, none, 1, 0⟩ else ⟨8, some 4, none, 0, 0⟩⟩
  commentlikes := ⟨∅, fun _ => ⟨0, 0⟩⟩
  postlikes := ⟨∅, fun _ => ⟨0, 0⟩⟩
  favorites := ⟨∅, fun _ => ⟨0, 0⟩⟩
  postviews := ⟨∅, fun _ => ⟨0, 0⟩⟩
  useractions := ⟨∅, fun _ => ⟨0, "", 0⟩⟩
  notifications := ⟨∅, fun _ => ⟨"", none⟩⟩
  feedsignals := ⟨∅, fun _ => ⟨0, 0, .like⟩⟩
  feedprofiles := ⟨∅, fun _ => ⟨0, 0⟩⟩
  images := ⟨∅, fun _ => ⟨none, none⟩⟩
  users := ⟨{1}, fun _ => ⟨1⟩⟩
  tags := ⟨{3}, fun _ => ⟨3, 0⟩⟩
  communities := ⟨∅, fun _ => ⟨0⟩⟩

/-- The author's counter changes, a reply elsewhere keeps the id of a deleted comment, and the tag
of one post counts twice. -/
theorem deletePostGraph_mixed :
    ((mixed.users.doc 1).postCount = 1 ∧
      ((mixed.deletePostGraph {7} 0).users.doc 1).postCount = 0) ∧
    (5 ∈ (mixed.deletePostGraph {7} 0).comments.ids ∧
      ((mixed.deletePostGraph {7} 0).comments.doc 5).parentId = some 4 ∧
      4 ∈ mixed.comments.ids ∧ 4 ∉ (mixed.deletePostGraph {7} 0).comments.ids) ∧
    ((mixed.deletePostGraph {7} 0).posts.ids = {8} ∧
      ((mixed.deletePostGraph {7} 0).tags.doc 3).count = 2) := by
  decide +kernel

end Db

end Ascendance.ContentCleanup
