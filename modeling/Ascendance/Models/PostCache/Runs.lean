import Ascendance.Models.PostCache.Interactions

/-!
# Runs seen from one post

Without the interaction properties of other posts a client is a client again, and
every event acts on it as it acts on the whole: an event about another post not at
all. So a run, whatever its order, leaves of a post's copies and of everything else
around them what the run without the other posts' interactions leaves.
-/

namespace Ascendance.PostCache

open Ascendance.Core

/-- An event that may change more than the interaction properties of other posts. -/
def Event.concerns (p : String) : Event → Bool
  | .like m | .likeSucceeds m _ _ | .likeFails m => m.postPublicId == p
  | .likeUpdate q _ | .reposted q | .unreposted q | .edited q _ _ => q == p
  | .made _ | .fetched _ _ | .dropped _ | .favorite _ _ | .favoriteFails _ | .deleted _ => true

/-- The data of one query, without other posts where posts are updated. -/
def seenData (p : String) (k : QueryKey) (data : CacheData) : CacheData :=
  if postInteractionQueryFilter k then withoutOthers p data else data

/-- What is seen of a copy of the post. -/
def seenPost (p : String) (post : Post) : Post :=
  Data.bare searched (lost p) (withoutOthers p) post

/-- What is seen of an event. -/
def Event.seen (p : String) : Event → Event
  | .fetched key data => .fetched key (seenData p key data)
  | e => e

/-- The client without other posts' interactions. -/
def Client.seen (p : String) (c : Client) : Client where
  queries := c.queries.mapValues (seenData p)
  likeContext m := if m.postPublicId = p
    then (c.likeContext m).map (List.map fun e => (e.1, seenPost p e.2)) else none
  favoriteContext m := (c.favoriteContext m).map (withoutOthers p)

/-- The empty cache. -/
def Client.initial : Client := ⟨∅, fun _ => none, fun _ => none⟩

/-- Data that is no object or the record of the post. -/
def Named (p : String) (data : CacheData) : Prop :=
  ∀ record, data = .object record → List.lookup "publicId" record = some (.leaf (.string p))

/-- A fetch for the query of a post brings this post. -/
def Event.Named (p : String) : Event → Prop
  | .fetched key data => key = Client.detailKey p → PostCache.Named p data
  | _ => True

/-- A like remembers copies of its post from where posts are updated. -/
def Client.Formed (c : Client) : Prop :=
  ∀ m l, c.likeContext m = some l → ∀ e ∈ l,
    postInteractionQueryFilter e.1 = true ∧ isPost m.postPublicId e.2 = true

/-- The own query of the post and its snapshots hold the post. -/
structure Client.Tidy (p : String) (c : Client) : Prop where
  detail : Named p (getQueryData c.queries (Client.detailKey p))
  snapshots : ∀ m data, m.postPublicId = p → c.favoriteContext m = some data → Named p data
  formed : c.Formed

variable {p q : String} {c : Client} {u : Post → Post} {data : CacheData} {queries : Queries}

private theorem named_leaf (a : Leaf) : Named p (.leaf a) := fun _ h => by cases h

/-- A record names the post when it holds its identifier. -/
theorem named_object {record : Post} :
    Named p (.object record) ↔ List.lookup "publicId" record = some (.leaf (.string p)) := by
  constructor
  · intro h
    exact h record rfl
  · rintro h _ ⟨⟩
    exact h

/-- An update keeps data named. -/
private theorem named_updated (hu : Interaction u) (h : Named p data) :
    Named p (updatePostInCache q u data) := by
  cases data with
  | leaf a => exact h
  | array items =>
    intro record hrecord
    rw [updatePostInCache, Data.rewrite_array] at hrecord
    cases hrecord
  | object record =>
    rw [updatePostInCache, Data.rewrite_object]
    apply named_object.mpr
    rw [← named_object.mp h]
    split
    · exact hu.keeps (by decide) record
    · exact Fields.lookup_mapInside_of_notMem (by decide) _ record

private theorem named_filtered (h : Named p data) : Named p (filterOutDeletedPost q data) := by
  cases data with
  | leaf a => exact h
  | array items =>
    intro record hrecord
    rw [filterOutDeletedPost, Data.prune_array] at hrecord
    cases hrecord
  | object record =>
    rw [filterOutDeletedPost, Data.prune_object]
    apply named_object.mpr
    rw [← named_object.mp h]
    exact Fields.lookup_mapInside_of_notMem (by decide) _ record

private theorem named_favorited (shouldFavorite : Bool) (h : Named p data) :
    Named p (Client.favorited shouldFavorite data) := by
  cases data with
  | leaf a => exact h
  | array items => exact h
  | object record =>
    apply named_object.mpr
    rw [← named_object.mp h]
    apply Fields.lookup_assign_of_notMem
    simp

private theorem getQueryData_set (key k : QueryKey) (data : CacheData) :
    getQueryData (queries.set key data) k = if k = key then data else getQueryData queries k := by
  rw [getQueryData, getQueryData, OrderedMap.get_set]
  split <;> rfl

/-- A change that keeps missing data missing reaches every query that it is for. -/
theorem getQueryData_setQueriesData {f : CacheData → CacheData} (filter : QueryKey → Bool)
    (hf : f (.leaf .undefined) = .leaf .undefined) (k : QueryKey) :
    getQueryData (setQueriesData filter f queries) k =
      if filter k then f (getQueryData queries k) else getQueryData queries k := by
  rw [getQueryData, getQueryData, setQueriesData, OrderedMap.get_mapValues]
  cases queries.get k with
  | none =>
    rw [Option.map_none, Option.getD_none, hf]
    split <;> rfl
  | some data => rfl

private theorem named_updateCaches (hu : Interaction u) {k : QueryKey}
    (h : Named p (getQueryData queries k)) :
    Named p (getQueryData (updatePostCaches q u queries) k) := by
  rw [updatePostCaches, getQueryData_setQueriesData _ rfl]
  split
  · exact named_updated hu h
  · exact h

private theorem named_modify {f : CacheData → CacheData} {key k : QueryKey}
    (hf : ∀ data, Named p data → Named p (f data)) (h : Named p (getQueryData queries k)) :
    Named p (getQueryData (queries.modify key f) k) := by
  rw [getQueryData, OrderedMap.get_modify]
  rw [getQueryData] at h
  split
  · cases hget : queries.get k with
    | none => exact named_leaf _
    | some data =>
      rw [hget] at h
      exact hf data h
  · exact h

/-- A roll back keeps data named. -/
private theorem named_rollBack {l : List (QueryKey × Post)} {k : QueryKey}
    (h : Named p (getQueryData queries k)) :
    Named p (getQueryData (Client.rollBack q l queries) k) := by
  induction l generalizing queries with
  | nil => exact h
  | cons e l ih =>
    apply ih
    exact named_modify (fun data => named_updated (interaction_rolledBack e.2)) h

/-- A deletion keeps data named. -/
private theorem named_deleted {k : QueryKey} (h : Named p (getQueryData queries k)) :
    Named p (getQueryData (removePostDetailAndCommentCaches q
      (removePostFromFeedCaches q queries)) k) := by
  have hfiltered : Named p (getQueryData (removePostFromFeedCaches q queries) k) := by
    rw [removePostFromFeedCaches, getQueryData_setQueriesData _ rfl]
    split
    · exact named_filtered h
    · exact h
  rw [getQueryData, removePostDetailAndCommentCaches, OrderedMap.get_filterEntries]
  rw [getQueryData] at hfiltered
  cases hget : (removePostFromFeedCaches q queries).get k with
  | none => exact named_leaf _
  | some data =>
    rw [hget] at hfiltered
    rw [Option.filter_some]
    split
    · exact hfiltered
    · exact named_leaf _

/-- A previous post is a copy in an entry that the like touches. -/
private theorem Client.of_mem_previousPosts {e : QueryKey × Post} (h : e ∈ c.previousPosts q) :
    postInteractionQueryFilter e.1 = true ∧ isPost q e.2 = true := by
  obtain ⟨d, -, hd⟩ := List.mem_filterMap.mp h
  split at hd
  · next hfilter =>
    obtain ⟨post, hhead, rfl⟩ := Option.map_eq_some_iff.mp hd
    exact ⟨hfilter, isPost_of_mem_copies (List.mem_of_mem_head? hhead)⟩
  · cases hd

/-- The copies that a like remembers are of its post. -/
theorem Client.Formed.of_mem (h : c.Formed) {m : Mutation} {e : QueryKey × Post}
    (hmem : e ∈ (c.likeContext m).getD []) :
    postInteractionQueryFilter e.1 = true ∧ isPost m.postPublicId e.2 = true := by
  cases hc : c.likeContext m with
  | none =>
    rw [hc] at hmem
    cases hmem
  | some l =>
    rw [hc] at hmem
    exact h m l hc e hmem

/-- Every event keeps the cache well formed. -/
theorem Client.Formed.step (h : c.Formed) (e : Event) : (c.step e).Formed := by
  cases e with
  | like m =>
    intro m' l hl
    change Function.update c.likeContext m (some (c.previousPosts m.postPublicId)) m' = some l at hl
    rw [Function.update_apply] at hl
    split at hl
    · next hm =>
      obtain rfl := Option.some.inj hl
      subst hm
      exact fun e he => Client.of_mem_previousPosts he
    · exact h m' l hl
  | favoriteFails m =>
    change (c.favoriteOnError m).Formed
    unfold Client.favoriteOnError
    split
    · split
      · exact h
      · exact h
    · exact h
  | made | fetched | dropped | likeSucceeds | likeFails | favorite | likeUpdate | reposted
  | unreposted | edited | deleted => exact h

/-- An event with named data keeps the cache tidy. -/
theorem Client.Tidy.step (h : c.Tidy p) {e : Event} (he : e.Named p) : (c.step e).Tidy p := by
  have hformed := h.formed.step e
  cases e with
  | made key =>
    refine ⟨?_, h.snapshots, hformed⟩
    change Named p (getQueryData (if key ∈ c.queries then c.queries
      else c.queries.set key (.leaf .undefined)) _)
    split
    · exact h.detail
    · rw [getQueryData_set]
      split
      · exact named_leaf _
      · exact h.detail
  | fetched key data =>
    refine ⟨?_, h.snapshots, hformed⟩
    change Named p (getQueryData (c.queries.set key data) _)
    rw [getQueryData_set]
    split
    · next hkey => exact he hkey.symm
    · exact h.detail
  | dropped key =>
    refine ⟨?_, h.snapshots, hformed⟩
    change Named p (getQueryData (c.queries.delete key) _)
    rw [getQueryData, OrderedMap.get_delete]
    split
    · exact named_leaf _
    · exact h.detail
  | like m =>
    exact ⟨named_updateCaches (interaction_liked _) h.detail, h.snapshots, hformed⟩
  | likeSucceeds m likes isLikedByViewer =>
    exact ⟨named_updateCaches (interaction_confirmed _ _) h.detail, h.snapshots, hformed⟩
  | likeFails m => exact ⟨named_rollBack h.detail, h.snapshots, hformed⟩
  | favorite m shouldFavorite =>
    refine ⟨named_modify (fun data => named_favorited _) h.detail, fun m' data hp hdata => ?_,
      hformed⟩
    change Function.update c.favoriteContext m
      (some (getQueryData c.queries (detailKey m.postPublicId))) m' = some data at hdata
    rw [Function.update_apply] at hdata
    split at hdata
    · next hm =>
      obtain rfl := Option.some.inj hdata
      rw [← hm, hp]
      exact h.detail
    · exact h.snapshots m' data hp hdata
  | favoriteFails m =>
    change (c.favoriteOnError m).Tidy p
    unfold Client.favoriteOnError
    split
    · next previousPost hcontext =>
      split
      · refine ⟨?_, h.snapshots, h.formed⟩
        change Named p (getQueryData (c.queries.set (detailKey m.postPublicId) previousPost) _)
        rw [getQueryData_set]
        split
        · next hkey =>
          refine h.snapshots m previousPost ?_ hcontext
          simpa [detailKey] using hkey.symm
        · exact h.detail
      · exact h
    · exact h
  | likeUpdate imageId newLikes =>
    exact ⟨named_updateCaches (interaction_counted _) h.detail, h.snapshots, hformed⟩
  | reposted postPublicId =>
    exact ⟨named_updateCaches interaction_reposted h.detail, h.snapshots, hformed⟩
  | unreposted postPublicId =>
    exact ⟨named_updateCaches interaction_unreposted h.detail, h.snapshots, hformed⟩
  | edited publicId body editedAt =>
    exact ⟨named_updateCaches (interaction_edited _ _) h.detail, h.snapshots, hformed⟩
  | deleted publicId => exact ⟨named_deleted h.detail, h.snapshots, hformed⟩

/-- The empty cache is tidy. -/
theorem Client.tidy_initial : Client.initial.Tidy p where
  detail := named_leaf _
  snapshots _ _ _ h := by cases h
  formed _ _ h := by cases h

/-- An update of the post is seen as such. -/
private theorem seenData_updated (hu : Interaction u) (k : QueryKey) (data : CacheData) :
    seenData p k (if postInteractionQueryFilter k then updatePostInCache p u data else data) =
      if postInteractionQueryFilter k then updatePostInCache p u (seenData p k data)
      else seenData p k data := by
  unfold seenData
  split
  · rw [updatePostInCache_withoutOthers hu]
  · rfl

/-- An interaction with the post acts on what is seen. -/
theorem seen_updateCaches (hu : Interaction u) :
    (updatePostCaches p u queries).mapValues (seenData p) =
      updatePostCaches p u (queries.mapValues (seenData p)) := by
  rw [updatePostCaches, setQueriesData, setQueriesData, OrderedMap.mapValues_mapValues,
    OrderedMap.mapValues_mapValues]
  congr 1
  funext k data
  exact seenData_updated hu k data

/-- An update of another post is not seen. -/
private theorem seenData_hidden (hu : Interaction u) (hne : q ≠ p) {k : QueryKey}
    (hk : postInteractionQueryFilter k = true) (data : CacheData) :
    seenData p k (updatePostInCache q u data) = seenData p k data := by
  rw [seenData, if_pos hk, seenData, if_pos hk]
  exact withoutOthers_updatePostInCache hu hne data

/-- An interaction with another post is not seen. -/
theorem hidden_updateCaches (hu : Interaction u) (hne : q ≠ p) :
    (updatePostCaches q u queries).mapValues (seenData p) = queries.mapValues (seenData p) := by
  rw [updatePostCaches, setQueriesData, OrderedMap.mapValues_mapValues]
  congr 1
  funext k data
  split
  · next hk => exact seenData_hidden hu hne hk data
  · rfl

/-- The copies of the post are seen as they are, without the others inside. -/
theorem copies_seenPost (data : CacheData) :
    copies p (withoutOthers p data) = (copies p data).map (seenPost p) :=
  copies_withoutOthers data

/-- What a like remembers is seen of the cache. -/
theorem Client.previousPosts_seen :
    (c.seen p).previousPosts p = (c.previousPosts p).map fun e => (e.1, seenPost p e.2) := by
  unfold Client.previousPosts Client.seen
  change List.filterMap _ (List.map _ _) = _
  rw [List.filterMap_map, List.map_filterMap]
  apply List.filterMap_congr
  intro e _
  simp only [Function.comp_apply, seenData]
  split
  · rw [copies_seenPost, List.head?_map, Option.map_map, Option.map_map]
    rfl
  · rfl

/-- Reading a query commutes with seeing. -/
theorem getQueryData_seen (k : QueryKey) :
    getQueryData (c.seen p).queries k = seenData p k (getQueryData c.queries k) := by
  rw [getQueryData, Client.seen, OrderedMap.get_mapValues, getQueryData]
  cases c.queries.get k with
  | none =>
    unfold seenData
    split <;> rfl
  | some data => rfl

/-- The query of a single post holds posts. -/
theorem detailKey_filter (p : String) :
    postInteractionQueryFilter (Client.detailKey p) = true := by
  simp [Client.detailKey, postInteractionQueryFilter, postInteractionCacheKeys]

/-- The like that is toggled is read from the post's own records. -/
theorem Client.shouldLike_seen (h : c.Tidy p) : (c.seen p).shouldLike p = c.shouldLike p := by
  have hpost : ∀ e ∈ c.previousPosts p, read "isLikedByViewer" (seenPost p e.2) =
      read "isLikedByViewer" e.2 :=
    fun e he => read_bare (Client.of_mem_previousPosts he).2 (by decide) _
  have hfallback : ((c.previousPosts p).map fun e => (e.1, seenPost p e.2)).head?.map
      (fun e => read "isLikedByViewer" e.2) =
      (c.previousPosts p).head?.map fun e => read "isLikedByViewer" e.2 := by
    rw [List.head?_map, Option.map_map]
    cases hhead : (c.previousPosts p).head? with
    | none => rfl
    | some e => exact congrArg some (hpost e (List.mem_of_mem_head? hhead))
  unfold Client.shouldLike
  rw [getQueryData_seen, Client.previousPosts_seen, hfallback, seenData,
    if_pos (detailKey_filter p)]
  have hdetail := h.detail
  cases hdata : getQueryData c.queries (detailKey p) with
  | leaf a => rfl
  | array items =>
    rw [withoutOthers, Data.strip_array]
    rfl
  | object record =>
    rw [hdata] at hdetail
    have hlost : lost p record = [] := by
      rw [lost, named_object.mp hdetail]
      exact if_pos rfl
    have hread : read "isLikedByViewer" (Data.bare searched (lost p) (withoutOthers p) record) =
        read "isLikedByViewer" record := by
      rw [Data.bare, hlost, read, Fields.lookup_without List.not_mem_nil,
        Fields.lookup_mapInside_of_notMem (by decide)]
      rfl
    rw [withoutOthers, Data.strip_bare]
    exact congrArg (!truthy ·) hread

private theorem rolledBack_seenPost {previous : Post} (h : isPost p previous = true) :
    likeRolledBack (seenPost p previous) = likeRolledBack previous := by
  unfold likeRolledBack seenPost
  rw [read_bare h (by decide), read_bare h (by decide)]

/-- A rollback of the post acts on what is seen. -/
theorem seen_rollBack {l : List (QueryKey × Post)} (hl : ∀ e ∈ l, isPost p e.2 = true) :
    (Client.rollBack p l queries).mapValues (seenData p) =
      Client.rollBack p (l.map fun e => (e.1, seenPost p e.2))
        (queries.mapValues (seenData p)) := by
  induction l generalizing queries with
  | nil => rfl
  | cons e l ih =>
    have hmodify : (queries.modify e.1 (updatePostInCache p (likeRolledBack e.2))).mapValues
        (seenData p) = (queries.mapValues (seenData p)).modify e.1
          (updatePostInCache p (likeRolledBack (seenPost p e.2))) := by
      rw [rolledBack_seenPost (hl e List.mem_cons_self)]
      apply OrderedMap.mapValues_modify
      intro data
      unfold seenData
      split
      · exact (updatePostInCache_withoutOthers (interaction_rolledBack e.2) data).symm
      · rfl
    refine (ih fun e' he' => hl e' (List.mem_cons_of_mem e he')).trans ?_
    rw [hmodify]
    rfl

/-- A rollback of another post is not seen. -/
theorem hidden_rollBack {l : List (QueryKey × Post)} (hne : q ≠ p)
    (hl : ∀ e ∈ l, postInteractionQueryFilter e.1 = true) :
    (Client.rollBack q l queries).mapValues (seenData p) = queries.mapValues (seenData p) := by
  induction l generalizing queries with
  | nil => rfl
  | cons e l ih =>
    have hmodify : (queries.modify e.1 (updatePostInCache q (likeRolledBack e.2))).mapValues
        (seenData p) = queries.mapValues (seenData p) := by
      apply OrderedMap.mapValues_modify_eq
      intro data
      exact seenData_hidden (interaction_rolledBack e.2) hne (hl e List.mem_cons_self) data
    exact (ih fun e' he' => hl e' (List.mem_cons_of_mem e he')).trans hmodify

/-- A filter is seen as a filter. -/
private theorem seenData_filtered (k : QueryKey) (data : CacheData) :
    seenData p k (if postInteractionQueryFilter k then filterOutDeletedPost q data else data) =
      if postInteractionQueryFilter k then filterOutDeletedPost q (seenData p k data)
      else seenData p k data := by
  unfold seenData
  split
  · rw [filterOutDeletedPost_withoutOthers]
  · rfl

private theorem isItem_seenData (k : QueryKey) (data : CacheData) :
    isItem q (seenData p k data) = isItem q data := by
  unfold seenData
  split
  · exact isItem_withoutOthers data
  · rfl

/-- The deletion of another post acts on what is seen. -/
theorem seen_deleted :
    (removePostDetailAndCommentCaches q (removePostFromFeedCaches q queries)).mapValues
        (seenData p) =
      removePostDetailAndCommentCaches q
        (removePostFromFeedCaches q (queries.mapValues (seenData p))) := by
  have hfeeds : (removePostFromFeedCaches q queries).mapValues (seenData p) =
      removePostFromFeedCaches q (queries.mapValues (seenData p)) := by
    unfold removePostFromFeedCaches setQueriesData
    rw [OrderedMap.mapValues_mapValues, OrderedMap.mapValues_mapValues]
    congr 1
    funext k data
    exact seenData_filtered k data
  rw [removePostDetailAndCommentCaches, removePostDetailAndCommentCaches, ← hfeeds]
  apply OrderedMap.mapValues_filterEntries
  intro k data
  rw [isDetailOrComments, isDetailOrComments, isItem_seenData]

/-- No data are seen as none. -/
theorem seenData_undefined (k : QueryKey) :
    seenData p k (.leaf .undefined) = .leaf .undefined := by
  unfold seenData
  split <;> rfl

/-- Hiding the other posts changes no truth. -/
theorem truthy_withoutOthers (data : CacheData) : truthy (withoutOthers p data) = truthy data := by
  cases data with
  | leaf a => rfl
  | array items =>
    rw [withoutOthers, Data.strip_array]
    rfl
  | object record =>
    rw [withoutOthers, Data.strip_bare]
    rfl

/-- Marking a favorite changes no property that an interaction with another post changes. -/
theorem favorited_withoutOthers (shouldFavorite : Bool) (data : CacheData) :
    Client.favorited shouldFavorite (withoutOthers p data) =
      withoutOthers p (Client.favorited shouldFavorite data) := by
  cases data with
  | leaf a => rfl
  | array items =>
    simp only [withoutOthers, Data.strip_array, Client.favorited]
  | object record =>
    have hlost : lost p (Fields.assign record
        [("isFavoritedByViewer", .leaf (.bool shouldFavorite))]) = lost p record :=
      lost_congr (Fields.lookup_assign_of_notMem (by simp) record)
    simp only [withoutOthers, Data.strip_bare, Client.favorited, Data.bare]
    rw [hlost,
      Fields.mapInside_assign (by simp [searched]), Fields.without_assign_of_notMem]
    simp only [List.mem_singleton, forall_eq]
    exact fun h => absurd (lost_subset p record h) (by decide)

end Ascendance.PostCache
