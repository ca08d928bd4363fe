import Ascendance.Models.Feed.NewFeed
import Mathlib.Data.Finset.Max

/-!
# Pages of the new feed

The feed without pages: the newest active post of every group that is not excluded,
newest first. The pipeline of a page reads a window of it.
-/

namespace Ascendance.Feed

open Ascendance.Core

/-- No active post of the group of a post is newer. -/
def isNewest (store : List Post) (p : Post) : Bool :=
  store.all fun q => !(q.isActive && q.visibleIdentityId == p.visibleIdentityId) || q.key ≤ p.key

/-- The whole feed. -/
def newFeed (store : List Post) (excluded : List ℕ) : List Post :=
  Keyset.sortDesc Post.key
    (store.filter fun p => p.isActive && isNewest store p && p.visibleIdentityId ∉ excluded)

section Groups

variable {α κ γ : Type*} [DecidableEq κ] [LinearOrder γ] {group : α → κ} {key : α → γ} {l : List α}

omit [LinearOrder γ] in
/-- Taking the first of each group leaves elements out. -/
theorem firstOfGroups_sublist : (firstOfGroups group l).Sublist l := by
  induction l with
  | nil => exact List.Sublist.refl _
  | cons a l ih => exact (List.filter_sublist.trans ih).cons_cons a

omit [LinearOrder γ] in
/-- Every group has one row. -/
theorem nodup_firstOfGroups : ((firstOfGroups group l).map group).Nodup := by
  induction l with
  | nil => exact List.nodup_nil
  | cons a l ih =>
    rw [firstOfGroups, List.map_cons, List.nodup_cons]
    constructor
    · intro hmem
      obtain ⟨b, hb, hgroup⟩ := List.mem_map.mp hmem
      have hne := (List.mem_filter.mp hb).2
      simp [hgroup] at hne
    · exact ih.sublist (List.filter_sublist.map group)

/-- The first row of a group is the one with the highest key. -/
theorem mem_firstOfGroups (h : Keyset.Descending key l) {a : α} :
    a ∈ firstOfGroups group l ↔ a ∈ l ∧ ∀ b ∈ l, group b = group a → key b ≤ key a := by
  induction l with
  | nil => simp [firstOfGroups]
  | cons first l ih =>
    obtain ⟨hfirst, hl⟩ := List.pairwise_cons.mp h
    rw [firstOfGroups, List.mem_cons, List.mem_filter, ih hl]
    constructor
    · rintro (rfl | ⟨⟨ha, hmax⟩, hne⟩)
      · refine ⟨List.mem_cons_self .., ?_⟩
        intro b hb _
        rcases List.mem_cons.mp hb with rfl | hb
        · exact le_rfl
        · exact (hfirst b hb).le
      · refine ⟨List.mem_cons_of_mem _ ha, ?_⟩
        intro b hb hgroup
        rcases List.mem_cons.mp hb with rfl | hb
        · simp [hgroup] at hne
        · exact hmax b hb hgroup
    · rintro ⟨ha, hmax⟩
      rcases List.mem_cons.mp ha with rfl | ha
      · exact .inl rfl
      · right
        refine ⟨⟨ha, fun b hb => hmax b (List.mem_cons_of_mem _ hb)⟩, ?_⟩
        -- The first row is newer, so it is of another group.
        rw [decide_eq_true_iff]
        intro hgroup
        exact absurd (hmax first (List.mem_cons_self ..) hgroup.symm) (not_le.mpr (hfirst a ha))

end Groups

section Pipeline

variable {store : List Post} {seen : List ℕ} {limit : ℕ} {anchor : Option (ℤ × ℕ)}

/-- Posts with different identifiers have different keys. -/
theorem nodup_keys (h : (store.map (·.id)).Nodup) : (store.map Post.key).Nodup := by
  have hids : (store.map Post.key).map (fun k => (ofLex k).2) = store.map (·.id) := by
    rw [List.map_map]
    rfl
  rw [← hids] at h
  exact List.Nodup.of_map _ h

/-- Posts with different identifiers have different keys. -/
private theorem nodup_keys_filter (h : (store.map (·.id)).Nodup) (p : Post → Bool) :
    ((store.filter p).map Post.key).Nodup :=
  (nodup_keys h).sublist (List.filter_sublist.map _)

/-- The feed is ordered by falling key. -/
theorem descending_newFeed (h : (store.map (·.id)).Nodup) (seen : List ℕ) :
    Keyset.Descending Post.key (newFeed store seen) :=
  Keyset.descending_sortDesc (nodup_keys_filter h _)

/-- The feed shows the newest active post of each identity that is not excluded. -/
theorem mem_newFeed {p : Post} : p ∈ newFeed store seen ↔
    p ∈ store ∧ p.isActive = true ∧ p.visibleIdentityId ∉ seen ∧
      ∀ q ∈ store, q.isActive = true → q.visibleIdentityId = p.visibleIdentityId →
        q.key ≤ p.key := by
  unfold newFeed
  rw [Keyset.mem_sortDesc, List.mem_filter, Bool.and_eq_true, Bool.and_eq_true, decide_eq_true_iff]
  have hnewest : isNewest store p = true ↔ ∀ q ∈ store, q.isActive = true →
      q.visibleIdentityId = p.visibleIdentityId → q.key ≤ p.key := by
    unfold isNewest
    rw [List.all_eq_true]
    apply forall₂_congr
    intro q _
    cases q.isActive <;> simp [imp_iff_not_or]
  rw [hnewest]
  tauto

/-- Every active post that is not excluded has one that stands for it. -/
theorem exists_newest {p : Post} (hp : p ∈ store) (hactive : p.isActive = true)
    (hseen : p.visibleIdentityId ∉ seen) :
    ∃ newest ∈ newFeed store seen, newest.visibleIdentityId = p.visibleIdentityId := by
  let group := store.filter fun q => q.isActive && q.visibleIdentityId == p.visibleIdentityId
  have hgroup : ∀ q, q ∈ group ↔ q ∈ store ∧ q.isActive = true ∧
      q.visibleIdentityId = p.visibleIdentityId := by
    intro q
    rw [List.mem_filter, Bool.and_eq_true, beq_iff_eq]
  have hne : group.toFinset.Nonempty :=
    ⟨p, List.mem_toFinset.mpr ((hgroup p).mpr ⟨hp, hactive, rfl⟩)⟩
  obtain ⟨newest, hnewest, hmax⟩ := group.toFinset.exists_max_image Post.key hne
  obtain ⟨hstore, hnewestActive, hsame⟩ := (hgroup newest).mp (List.mem_toFinset.mp hnewest)
  refine ⟨newest, mem_newFeed.mpr ⟨hstore, hnewestActive, by rwa [hsame], ?_⟩, hsame⟩
  intro q hq hqa hqs
  exact hmax q (List.mem_toFinset.mpr ((hgroup q).mpr ⟨hq, hqa, hqs.trans hsame⟩))

/-- The feed shows no group twice. -/
theorem nodup_identities (h : (store.map (·.id)).Nodup) :
    ((newFeed store seen).map Post.visibleIdentityId).Nodup := by
  have hdesc := descending_newFeed h seen
  refine List.pairwise_map.mpr (hdesc.imp_of_mem ?_)
  intro p q hp hq hlt hsame
  obtain ⟨-, -, -, hmax⟩ := mem_newFeed.mp hq
  obtain ⟨hstore, hactive, -, -⟩ := mem_newFeed.mp hp
  exact absurd (hmax p hstore hactive hsame) (not_le.mpr hlt)

/-- The stages before the cursor give the whole feed. -/
theorem groups_eq_newFeed (h : (store.map (·.id)).Nodup) :
    (firstOfGroups Post.visibleIdentityId
      (Keyset.sortDesc Post.key (store.filter Post.isActive))).filter
        (fun p => p.visibleIdentityId ∉ seen) = newFeed store seen := by
  have hsorted := Keyset.descending_sortDesc (nodup_keys_filter h Post.isActive)
  have hfirsts := hsorted.sublist (@firstOfGroups_sublist _ _ _ Post.visibleIdentityId _)
  have hgroups := hfirsts.filter fun p => decide (p.visibleIdentityId ∉ seen)
  apply hgroups.eq (descending_newFeed h seen)
  intro p
  rw [List.mem_filter, mem_firstOfGroups hsorted, mem_newFeed, decide_eq_true_iff]
  simp only [Keyset.mem_sortDesc, List.mem_filter]
  constructor
  · rintro ⟨⟨⟨hp, hactive⟩, hmax⟩, hseen⟩
    exact ⟨hp, hactive, hseen, fun q hq hqa hgroup => hmax q ⟨hq, hqa⟩ hgroup⟩
  · rintro ⟨hp, hactive, hseen, hmax⟩
    exact ⟨⟨⟨hp, hactive⟩, fun q hq hgroup => hmax q hq.1 hq.2 hgroup⟩, hseen⟩

/-- The filter of a cursor compares keys. -/
theorem createdAtCursorFilter_forward (anchor : ℤ × ℕ) (p : Post) :
    createdAtCursorFilter (some anchor) .forward p = decide (p.key < toLex anchor) := by
  obtain ⟨createdAt, id⟩ := anchor
  unfold createdAtCursorFilter Post.key
  rw [Bool.eq_iff_iff, decide_eq_true_iff, Prod.Lex.toLex_lt_toLex]
  simp

/-- Backwards, the filter passes the posts above the anchor. -/
theorem createdAtCursorFilter_backward (anchor : ℤ × ℕ) (p : Post) :
    createdAtCursorFilter (some anchor) .backward p = decide (toLex anchor < p.key) := by
  obtain ⟨createdAt, id⟩ := anchor
  unfold createdAtCursorFilter Post.key
  rw [Bool.eq_iff_iff, decide_eq_true_iff, Prod.Lex.toLex_lt_toLex]
  simp only [Bool.or_eq_true, Bool.and_eq_true, decide_eq_true_iff, beq_iff_eq]
  rw [@eq_comm _ createdAt p.createdAt]

/-- A forward query returns the rows after its anchor. -/
private theorem newFeedPipeline_forward (h : (store.map (·.id)).Nodup) :
    newFeedPipeline store limit .forward anchor seen =
      (Keyset.window Post.key (anchor.map toLex) (newFeed store seen)).take (limit + 1) := by
  have hdesc := descending_newFeed h seen
  unfold newFeedPipeline
  simp only [groups_eq_newFeed h]
  rw [(hdesc.filter _).sortDesc_eq]
  congr 1
  cases anchor with
  | none => exact List.filter_eq_self.mpr fun _ _ => rfl
  | some c => exact List.filter_congr fun p _ => createdAtCursorFilter_forward c p

/-- A backward query returns the rows before its anchor, the nearest first. -/
private theorem newFeedPipeline_backward (h : (store.map (·.id)).Nodup) :
    newFeedPipeline store limit .backward anchor seen =
      (Keyset.newerWindow Post.key (anchor.map toLex) (newFeed store seen)).reverse.take
      (limit + 1) := by
  have hdesc := descending_newFeed h seen
  unfold newFeedPipeline
  simp only [groups_eq_newFeed h]
  rw [Keyset.sortAsc_eq (hdesc.filter _).nodup_keys, (hdesc.filter _).sortDesc_eq]
  congr 2
  cases anchor with
  | none => exact List.filter_eq_self.mpr fun _ _ => rfl
  | some c => exact List.filter_congr fun p _ => createdAtCursorFilter_backward c p

/-- The cursor that stands at a key. -/
def toCursor (snapshotId : Option String) (k : ℤ ×ₗ ℕ) : NewCursor where
  anchor := some (ofLex k)
  snapshotId := snapshotId

/-- The key that a cursor stands at. -/
def anchorKey (cursor : Option NewCursor) : Option (ℤ ×ₗ ℕ) := (cursor.bind (·.anchor)).map toLex

/-- One row more than the limit tells whether there are more. -/
theorem limit_lt_length_take (rows : List Post) (limit : ℕ) :
    limit < (rows.take (limit + 1)).length ↔ limit < rows.length := by
  rw [List.length_take]
  omega

/-- The extra row is not shown. -/
private theorem shown_eq_take (rows : List Post) (limit : ℕ) :
    (if decide (limit < (rows.take (limit + 1)).length) = true then
      (rows.take (limit + 1)).take limit else rows.take (limit + 1)) = rows.take limit := by
  simp only [limit_lt_length_take, decide_eq_true_iff]
  split
  · rw [List.take_take, Nat.min_eq_left (Nat.le_succ limit)]
  · rw [List.take_of_length_le (by omega), List.take_of_length_le (by omega)]

/-- A forward page is a page of the window below the cursor. -/
theorem newFeedPage_forward (h : (store.map (·.id)).Nodup) (cursor : Option NewCursor) :
    newFeedPage store limit cursor .forward seen =
      (Keyset.forwardPage Post.key limit
        (Keyset.window Post.key (anchorKey cursor) (newFeed store seen))).mapCursor
          (toCursor (cursor.bind (·.snapshotId))) := by
  unfold newFeedPage Keyset.forwardPage CursorPage.mapCursor anchorKey
  rw [newFeedPipeline_forward h]
  generalize Keyset.window Post.key _ (newFeed store seen) = rows
  simp only [shown_eq_take]
  simp only [limit_lt_length_take, decide_eq_true_iff, Option.map_map]
  congr 1
  split
  · rw [Option.map_map]
    rfl
  · rfl

/-- A backward page is a page of the window above the cursor. -/
theorem newFeedPage_backward (h : (store.map (·.id)).Nodup) (cursor : Option NewCursor) :
    newFeedPage store limit cursor .backward seen =
      (Keyset.backwardPage Post.key limit
        (Keyset.newerWindow Post.key (anchorKey cursor) (newFeed store seen))).mapCursor
          (toCursor (cursor.bind (·.snapshotId))) := by
  unfold newFeedPage Keyset.backwardPage CursorPage.mapCursor anchorKey
  rw [newFeedPipeline_backward h]
  generalize Keyset.newerWindow Post.key _ (newFeed store seen) = rows
  simp only [shown_eq_take]
  simp only [limit_lt_length_take, decide_eq_true_iff, Option.map_map, List.length_reverse]
  rw [List.take_reverse, List.reverse_reverse]
  congr 1
  split
  · rw [Option.map_map]
    rfl
  · rfl

end Pipeline

/-- What a cursor excludes. -/
def Excludes (exclusions : String → Option (List ℕ)) (cursor : Option NewCursor)
    (excluded : List ℕ) : Prop :=
  match cursor.bind (·.snapshotId) with
  | none => excluded = []
  | some snapshotId => exclusions snapshotId = some excluded

/-- The forward page of a time, with one collection a time. -/
def readNewFeed (stores : ℕ → Posts) (exclusions : String → Option (List ℕ)) (limit k : ℕ)
    (cursor : Option NewCursor) : Option (CursorPage Post NewCursor) :=
  getNewFeedWithCursor (stores k).all exclusions limit cursor .forward

/-- The cursor of a walk that begins at a cursor. -/
def walkCursor (start : Option NewCursor) : Option (ℤ ×ₗ ℕ) → Option NewCursor
  | none => start
  | some k => some (toCursor (start.bind (·.snapshotId)) k)

section Requests

variable {stores : ℕ → Posts} {exclusions : String → Option (List ℕ)} {excluded : List ℕ}
  {limit : ℕ} {start cursor : Option NewCursor}

/-- With known exclusions a request is answered by a page of the feed. -/
theorem getNewFeed_eq (store : List Post) (h : Excludes exclusions cursor excluded)
    (direction : Direction) : getNewFeedWithCursor store exclusions limit cursor direction =
      some (newFeedPage store limit cursor direction excluded) := by
  unfold getNewFeedWithCursor
  unfold Excludes at h
  cases hs : cursor.bind (·.snapshotId) with
  | none =>
    rw [hs] at h
    rw [show excluded = [] from h]
  | some snapshotId =>
    rw [hs] at h
    change (exclusions snapshotId).map _ = _
    rw [show exclusions snapshotId = some excluded from h]
    rfl

/-- The next cursor keeps the exclusions. -/
theorem Excludes.toCursor (h : Excludes exclusions cursor excluded) (k : ℤ ×ₗ ℕ) :
    Excludes exclusions (some (toCursor (cursor.bind (·.snapshotId)) k)) excluded := h

/-- A walk of requests reads the pages of the whole feed. -/
theorem readNewFeed_eq (hstart : start.bind (·.anchor) = none)
    (h : Excludes exclusions start excluded) (k : ℕ) (c : Option (ℤ ×ₗ ℕ)) :
    readNewFeed stores exclusions limit k (walkCursor start c) =
      (Keyset.readForward Post.key limit (fun k => newFeed (stores k).all excluded) k c).map
        (·.mapCursor (toCursor (start.bind (·.snapshotId)))) := by
  unfold readNewFeed
  cases c with
  | none =>
    change getNewFeedWithCursor (stores k).all exclusions limit start .forward = _
    rw [getNewFeed_eq _ h, newFeedPage_forward (stores k).nodup_ids, anchorKey, hstart]
    rfl
  | some c =>
    change getNewFeedWithCursor (stores k).all exclusions limit (some (toCursor _ c)) .forward = _
    rw [getNewFeed_eq _ (h.toCursor c), newFeedPage_forward (stores k).nodup_ids]
    rfl

/-- Translating the cursors leaves the posts alone. -/
theorem data_mapCursor {γ δ : Type*} (f : γ → δ) (pages : List (CursorPage Post γ)) :
    (pages.map (·.mapCursor f)).flatMap (·.data) = pages.flatMap (·.data) := by
  rw [List.flatMap_map]
  rfl

/-- A page is a stretch of the feed, and its previous cursor stands at its first row. -/
theorem getNewFeed_between (store : Posts) (h : Excludes exclusions cursor excluded)
    {direction : Direction} {page : CursorPage Post NewCursor}
    (hpage : getNewFeedWithCursor store.all exclusions limit cursor direction = some page) :
    (∃ before after, newFeed store.all excluded = before ++ page.data ++ after) ∧
      page.prevCursor =
        page.data.head?.map fun p => toCursor (cursor.bind (·.snapshotId)) p.key := by
  rw [getNewFeed_eq _ h] at hpage
  obtain rfl := Option.some.inj hpage
  have hdesc := descending_newFeed store.nodup_ids excluded
  cases direction with
  | forward =>
    rw [newFeedPage_forward store.nodup_ids]
    exact ⟨hdesc.forwardPage_between (anchorKey cursor) limit, Option.map_map ..⟩
  | backward =>
    rw [newFeedPage_backward store.nodup_ids]
    exact ⟨hdesc.backwardPage_between (anchorKey cursor) limit, Option.map_map ..⟩

/-- Before a page, a backward request reads the last rows. -/
theorem getNewFeed_before (store : Posts) (h : Excludes exclusions cursor excluded)
    {before data after : List Post} {first : Post} (hhead : data.head? = some first)
    (hfeed : newFeed store.all excluded = before ++ data ++ after) :
    ∃ back, getNewFeedWithCursor store.all exclusions limit
        (some (toCursor (cursor.bind (·.snapshotId)) first.key)) .backward = some back ∧
      back.data = before.drop (before.length - limit) ∧
      back.hasMore = decide (limit < before.length) := by
  have hdesc := descending_newFeed store.nodup_ids excluded
  rw [hfeed] at hdesc
  refine ⟨_, getNewFeed_eq _ (h.toCursor first.key) _, ?_⟩
  have hkey : anchorKey (some (toCursor (cursor.bind (·.snapshotId)) first.key)) =
      some first.key := rfl
  rw [newFeedPage_backward store.nodup_ids, hfeed, hkey, hdesc.newerWindow_head hhead]
  exact ⟨rfl, rfl⟩

end Requests

/-- On posts that stay, the forward pages from a cursor without an anchor put the whole
feed together. Before every page with rows, a backward request reads as many rows as its
limit allows. -/
theorem newFeedPaging (store : Posts) (exclusions : String → Option (List ℕ))
    (excluded : List ℕ) (limit : ℕ) (hlimit : 1 ≤ limit) :
    (∀ start : Option NewCursor, start.bind (·.anchor) = none →
      Excludes exclusions start excluded →
      (∃ pages, Keyset.Walk (readNewFeed (fun _ => store) exclusions limit) 0 start pages) ∧
      ∀ pages, Keyset.Walk (readNewFeed (fun _ => store) exclusions limit) 0 start pages →
        pages.flatMap (·.data) = newFeed store.all excluded) ∧
    ∀ (cursor : Option NewCursor) (direction : Direction) (page : CursorPage Post NewCursor),
      Excludes exclusions cursor excluded →
      getNewFeedWithCursor store.all exclusions limit cursor direction = some page →
      page.data ≠ [] →
      ∃ previous back before after, page.prevCursor = some previous ∧
        getNewFeedWithCursor store.all exclusions limit (some previous) .backward = some back ∧
        newFeed store.all excluded = before ++ back.data ++ page.data ++ after ∧
        back.data.length = min limit (before ++ back.data).length ∧
        (back.hasMore = true ↔ before ≠ []) := by
  have hdesc := descending_newFeed store.nodup_ids excluded
  constructor
  · intro start hstart hexcluded
    have hread := @readNewFeed_eq (fun _ => store) exclusions excluded limit start hstart hexcluded
    have hkeep : Keyset.Keeps Post.key (fun _ => newFeed store.all excluded) fun _ _ => true :=
      Keyset.keeps_fixed _
    constructor
    · obtain ⟨pages, hpages⟩ := Keyset.walk_exists hkeep (fun _ => hdesc) hlimit 0 none
      exact ⟨_, hpages.map (walkCursor start) (fun _ => rfl) (fun _ => rfl) hread⟩
    · intro pages hpages
      obtain ⟨pages, hwalk, rfl⟩ :=
        Keyset.Walk.of_map (walkCursor start) (fun _ => rfl) (fun _ => rfl) hread none hpages
      rw [data_mapCursor]
      exact Keyset.walk_eq hdesc hlimit hwalk
  · intro cursor direction page hexcluded hpage hne
    obtain ⟨⟨before, after, hfeed⟩, hprev⟩ := getNewFeed_between store hexcluded hpage
    obtain ⟨first, rest, hdata⟩ := List.exists_cons_of_ne_nil hne
    have hhead : page.data.head? = some first := by rw [hdata]; rfl
    obtain ⟨back, hback, hrows, hmore⟩ :=
      @getNewFeed_before exclusions excluded limit cursor store hexcluded _ _ _ _ hhead hfeed
    rw [hhead] at hprev
    refine ⟨_, back, before.take (before.length - limit), after, hprev, hback, ?_, ?_, ?_⟩
    · rw [hrows, List.take_append_drop]
      exact hfeed
    · rw [hrows, List.take_append_drop, List.length_drop]
      omega
    · rw [hmore, decide_eq_true_iff, Ne, List.take_eq_nil_iff, ← List.length_eq_zero_iff]
      omega

/-- An active original post. -/
def originalPost (id : ℕ) (createdAt : ℤ) : Post where
  id := id
  publicId := toString id
  createdAt := createdAt
  status := .value "active"
  body := some "text"
  image := none
  repostOf := none

/-- An active repost without text or an image. -/
def plainRepost (id : ℕ) (createdAt : ℤ) (repostOf : ℕ) : Post :=
  { originalPost id createdAt with
    body := none
    repostOf := some repostOf }

/-- Three posts of one time, the last of them a repost of the first. -/
def tiedPosts : Posts where
  all := [originalPost 1 5, originalPost 2 5, plainRepost 3 5 1]
  nodup_ids := by decide
  nodup_publicIds := by decide +kernel

/-- Two posts of the same time are shown in the order of their identifiers. -/
theorem newFeedPaging_ties :
    (∀ pages, Keyset.Walk (readNewFeed (fun _ => tiedPosts) (fun _ => none) 1) 0 none pages →
      pages.flatMap (·.data) = [plainRepost 3 5 1, originalPost 2 5]) ∧
    ∃ previous back before after,
      previous = toCursor none (originalPost 2 5).key ∧
      getNewFeedWithCursor tiedPosts.all (fun _ => none) 1 (some previous) .backward = some back ∧
      [plainRepost 3 5 1, originalPost 2 5] =
        before ++ back.data ++ [originalPost 2 5] ++ after := by
  have hfeed : newFeed tiedPosts.all [] = [plainRepost 3 5 1, originalPost 2 5] := by
    decide +kernel
  obtain ⟨hwalk, hback⟩ := newFeedPaging tiedPosts (fun _ => none) [] 1 (by decide)
  rw [hfeed] at hwalk hback
  refine ⟨(hwalk none rfl rfl).2, ?_⟩
  obtain ⟨previous, back, before, after, hprev, hread, hrows, -⟩ :=
    hback (some (toCursor none (plainRepost 3 5 1).key)) .forward
      { data := [originalPost 2 5]
        hasMore := false
        nextCursor := none
        prevCursor := some (toCursor none (originalPost 2 5).key) } rfl (by decide +kernel)
      (List.cons_ne_nil _ _)
  exact ⟨previous, back, before, after, (Option.some.inj hprev).symm, hread, hrows⟩

end Ascendance.Feed
