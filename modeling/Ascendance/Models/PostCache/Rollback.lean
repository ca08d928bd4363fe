import Ascendance.Models.PostCache.Independence

/-!
# Rolling a like back

A failed like gives every query the likes of the copy that was found first in it before
the like. Other posts do not matter in between, so the rollback restores what the cache
showed of the post exactly when the copies within each query agreed.
-/

namespace Ascendance.PostCache

open Ascendance.Core

/-- What a copy shows of the likes. -/
def likeState (post : Post) : CacheData × CacheData :=
  (read "likes" post, read "isLikedByViewer" post)

/-- What the copies of a post under a key show of its likes. -/
def Client.likeStates (c : Client) (p : String) (key : QueryKey) : List (CacheData × CacheData) :=
  (copies p (getQueryData c.queries key)).map likeState

variable {p : String} {c d : Client} {u : Post → Post} {queries : Queries}

/-- An update changes every copy of the post. -/
private theorem copies_updated (hu : Interaction u) (data : CacheData) :
    copies p (updatePostInCache p u data) = (copies p data).map u := by
  apply Data.records_rewrite
  · exact fun f record => isPost_mapInside f record
  · exact fun record h => hu.isPost h

/-- A copy that was rolled back has the like of the previous one. -/
private theorem likeState_rolledBack (previous post : Post) :
    likeState (likeRolledBack previous post) = likeState previous := by
  simp [likeState, likeRolledBack, Fields.assign, read, Fields.lookup_set]

private theorem likeStates_of_seen (h : c.seen p = d.seen p) (key : QueryKey) :
    c.likeStates p key = d.likeStates p key := by
  have hdata := congrArg (fun s : Client => getQueryData s.queries key) h
  simp only [getQueryData_seen, seenData] at hdata
  split at hdata
  · have hstates : ∀ data : CacheData,
        (copies p data).map likeState = (copies p (withoutOthers p data)).map likeState := by
      intro data
      rw [copies_seenPost, List.map_map]
      apply List.map_congr_left
      intro post hpost
      have hread := isPost_of_mem_copies hpost
      exact (Prod.ext (read_bare hread (by decide) _) (read_bare hread (by decide) _)).symm
    rw [Client.likeStates, Client.likeStates, hstates, hdata, ← hstates]
  · rw [Client.likeStates, Client.likeStates, hdata]

/-- Rolling back an entry goes through the previous posts of its key. -/
private theorem get_rollBack (l : List (QueryKey × Post)) (key : QueryKey) :
    (Client.rollBack p l queries).get key = (queries.get key).map fun data =>
      (l.filter fun e => e.1 = key).foldl
        (fun data e => updatePostInCache p (likeRolledBack e.2) data) data := by
  induction l generalizing queries with
  | nil => exact Option.map_id'.symm
  | cons e l ih =>
    have hstep : Client.rollBack p (e :: l) queries =
        Client.rollBack p l (queries.modify e.1 (updatePostInCache p (likeRolledBack e.2))) := rfl
    rw [hstep, ih, OrderedMap.get_modify, List.filter_cons]
    by_cases hk : e.1 = key
    · rw [if_pos hk.symm, if_pos (by simpa using hk), Option.map_map]
      rfl
    · rw [if_neg (Ne.symm hk), if_neg (by simpa using hk)]

/-- A like looks into each query once. -/
theorem previousPosts_filter (p : String) (key : QueryKey) :
    ((c.previousPosts p).filter fun e => e.1 = key) =
      if postInteractionQueryFilter key then
        ((copies p (getQueryData c.queries key)).head?.map fun post => (key, post)).toList
      else [] := by
  have hfirst : ∀ e : (_ : QueryKey) × CacheData, ∀ x,
      (if postInteractionQueryFilter e.1 then
        (copies p e.2).head?.map fun post => (e.1, post) else none) = some x → x.1 = e.1 := by
    intro e x hx
    split at hx
    · obtain ⟨post, -, rfl⟩ := Option.map_eq_some_iff.mp hx
      rfl
    · cases hx
  have hfilter : ((c.previousPosts p).filter fun e => e.1 = key) =
      (c.queries.entries.filter fun e => e.1 = key).filterMap fun e =>
        if postInteractionQueryFilter e.1 then
          (copies p e.2).head?.map fun post => (e.1, post) else none := by
    rw [Client.previousPosts, List.filter_filterMap, List.filterMap_filter]
    apply List.filterMap_congr
    intro e _
    cases hx : (if postInteractionQueryFilter e.1 then
        (copies p e.2).head?.map fun post => (e.1, post) else none) with
    | none => simp
    | some x =>
      by_cases hk : e.1 = key <;> simp [hfirst e x hx, hk]
  rw [hfilter, OrderedMap.filter_entries, getQueryData]
  cases c.queries.get key with
  | none =>
    change [] = _
    split <;> rfl
  | some data =>
    change List.filterMap _ [_] = _
    rw [Option.getD_some]
    split
    · next hkey =>
      rw [List.filterMap_cons, if_pos hkey]
      cases (copies p data).head? <;> rfl
    · next hkey => rw [List.filterMap_cons, if_neg hkey, List.filterMap_nil]

/-- A like that fails at once leaves in each query what the first copy showed. -/
theorem likeStates_failed (m : Mutation) (key : QueryKey)
    (hkey : postInteractionQueryFilter key = true) :
    ((c.likeOnMutate m).likeOnError m).likeStates m.postPublicId key =
      (c.likeStates m.postPublicId key).map fun _ =>
        ((c.likeStates m.postPublicId key).head?).getD (.leaf .undefined, .leaf .undefined) := by
  have hcontext : ((c.likeOnMutate m).likeContext m).getD [] = c.previousPosts m.postPublicId := by
    change (Function.update c.likeContext m _ m).getD [] = _
    rw [Function.update_self]
    rfl
  have hqueries : ((c.likeOnMutate m).likeOnError m).queries =
      Client.rollBack m.postPublicId (c.previousPosts m.postPublicId)
        (c.likeOnMutate m).queries := by
    rw [← hcontext]
    rfl
  have hliked : getQueryData (c.likeOnMutate m).queries key =
      updatePostInCache m.postPublicId (likedOptimistically (c.shouldLike m.postPublicId))
        (getQueryData c.queries key) := by
    change getQueryData (updatePostCaches _ _ _) key = _
    rw [updatePostCaches, getQueryData_setQueriesData _ rfl, if_pos hkey]
  have hcopies := copies_updated (p := m.postPublicId)
    (interaction_liked (c.shouldLike m.postPublicId)) (getQueryData c.queries key)
  have hdata : getQueryData ((c.likeOnMutate m).likeOnError m).queries key =
      ((copies m.postPublicId (getQueryData c.queries key)).head?.toList).foldl
        (fun data post => updatePostInCache m.postPublicId (likeRolledBack post) data)
        (getQueryData (c.likeOnMutate m).queries key) := by
    rw [hqueries, getQueryData, get_rollBack, previousPosts_filter, if_pos hkey]
    cases (copies m.postPublicId (getQueryData c.queries key)).head? <;>
      unfold getQueryData <;> cases (c.likeOnMutate m).queries.get key <;> rfl
  rw [Client.likeStates, hdata, hliked, Client.likeStates]
  cases hl : copies m.postPublicId (getQueryData c.queries key) with
  | nil =>
    rw [hl] at hcopies
    exact congrArg (List.map likeState) hcopies
  | cons first rest =>
    rw [hl] at hcopies
    change (copies _ (updatePostInCache _ (likeRolledBack first) _)).map likeState = _
    rw [copies_updated (interaction_rolledBack first), hcopies, List.map_map, List.map_map,
      List.map_map]
    apply List.map_congr_left
    intro post _
    exact likeState_rolledBack first _

/-- Entries that a like does not touch keep their like. -/
private theorem likeStates_elsewhere (m : Mutation) (key : QueryKey)
    (hkey : postInteractionQueryFilter key = false) :
    ((c.likeOnMutate m).likeOnError m).likeStates m.postPublicId key =
      c.likeStates m.postPublicId key := by
  have hnone : ((((c.likeOnMutate m).likeContext m).getD []).filter fun e => e.1 = key) = [] := by
    change (((Function.update c.likeContext m _ m).getD []).filter _) = _
    rw [Function.update_self, Option.getD_some, previousPosts_filter, if_neg (by simp [hkey])]
  have hdata : getQueryData ((c.likeOnMutate m).likeOnError m).queries key =
      getQueryData c.queries key := by
    change ((Client.rollBack _ _ _).get key).getD _ = _
    rw [get_rollBack, hnone]
    change (((c.likeOnMutate m).queries.get key).map fun data => data).getD _ = _
    rw [Option.map_id']
    change getQueryData (updatePostCaches _ _ _) key = _
    rw [updatePostCaches, getQueryData_setQueriesData _ rfl, if_neg (by simp [hkey])]
  rw [Client.likeStates, hdata, Client.likeStates]

/-- A well-formed cache is well formed after every list of events. -/
theorem Client.Formed.run (h : c.Formed) (es : List Event) : (c.run es).Formed := by
  induction es generalizing c with
  | nil => exact h
  | cons e es ih => exact ih (h.step e)

/-- Events about other posts change nothing that is seen of the post. -/
private theorem Client.run_hidden (h : c.Formed) {es : List Event}
    (hes : ∀ e ∈ es, e.concerns p = false) : (c.run es).seen p = c.seen p := by
  induction es generalizing c with
  | nil => rfl
  | cons e es ih =>
    have htail := ih (h.step e) fun e' he' => hes e' (List.mem_cons_of_mem e he')
    exact htail.trans (Client.step_hidden h (hes e List.mem_cons_self))

/-- A like fails after any number of interactions with other posts. In every query that is updated
the copies then show what the first of them showed before the like; so the cache shows of the post
what it showed before exactly when the copies within each query agreed. -/
theorem like_rolled_back (m : Mutation) (before : List Event) {es : List Event}
    (hes : ∀ e ∈ es, e.concerns m.postPublicId = false) :
    let c := Client.initial.run before
    let c' := c.run (.like m :: es ++ [.likeFails m])
    (∀ key, postInteractionQueryFilter key = true →
      ∀ first ∈ (c.likeStates m.postPublicId key).head?,
        c'.likeStates m.postPublicId key = (c.likeStates m.postPublicId key).map fun _ => first) ∧
    ((∀ key, c'.likeStates m.postPublicId key = c.likeStates m.postPublicId key) ↔
      ∀ key, postInteractionQueryFilter key = true →
        ∀ s ∈ c.likeStates m.postPublicId key, ∀ t ∈ c.likeStates m.postPublicId key, s = t) := by
  intro c c'
  have hformed : c.Formed := Client.tidy_initial (p := m.postPublicId).formed.run before
  have hbetween := Client.run_hidden (hformed.step (.like m)) hes
  have hrun : c' = ((c.step (.like m)).run es).likeOnError m := by
    change Client.run c _ = _
    rw [Client.run, List.foldl_append]
    rfl
  have hsame : c'.seen m.postPublicId = ((c.likeOnMutate m).likeOnError m).seen m.postPublicId := by
    rw [hrun, Client.likeOnError_seen ((hformed.step _).run es), hbetween]
    exact (Client.likeOnError_seen (hformed.step (.like m)) m).symm
  have hstates := likeStates_of_seen hsame
  have hfirst : ∀ key, postInteractionQueryFilter key = true →
      ∀ first ∈ (c.likeStates m.postPublicId key).head?,
        c'.likeStates m.postPublicId key =
          (c.likeStates m.postPublicId key).map fun _ => first := by
    intro key hkey first hmem
    rw [hstates, likeStates_failed m key hkey, Option.mem_def.mp hmem]
    rfl
  refine ⟨hfirst, fun h key hkey => ?_, fun h key => ?_⟩
  · -- The restored states are copies of one.
    intro s hs t ht
    cases hl : c.likeStates m.postPublicId key with
    | nil =>
      rw [hl] at hs
      cases hs
    | cons first rest =>
      have hconst := hfirst key hkey first (by rw [hl]; rfl)
      rw [h key] at hconst
      rw [hconst] at hs ht
      obtain ⟨-, -, rfl⟩ := List.mem_map.mp hs
      obtain ⟨-, -, rfl⟩ := List.mem_map.mp ht
      rfl
  · cases hkey : postInteractionQueryFilter key with
    | false => rw [hstates, likeStates_elsewhere m key hkey]
    | true =>
      cases hl : c.likeStates m.postPublicId key with
      | nil => rw [hstates, likeStates_failed m key hkey, hl, List.map_nil]
      | cons first rest =>
        rw [hfirst key hkey first (by rw [hl]; rfl), ← hl]
        conv_rhs => rw [← List.map_id (c.likeStates m.postPublicId key)]
        apply List.map_congr_left
        intro s hs
        exact h key hkey first (by simp [hl]) s hs

/-- The count of the repost is not restored: its copy had not agreed with the first. -/
theorem like_rolled_back_disagreeing :
    let c := Client.initial.run opened
    let c' :=
      c.run (.like ⟨0, "a"⟩ :: [.like ⟨1, "b"⟩, .likeFails ⟨1, "b"⟩] ++ [.likeFails ⟨0, "a"⟩])
    ¬ ∀ key, c'.likeStates "a" key = c.likeStates "a" key := by
  intro c c' h
  have hothers : ∀ e ∈ [Event.like ⟨1, "b"⟩, .likeFails ⟨1, "b"⟩], e.concerns "a" = false := by
    simp [Event.concerns]
  have hagree := (like_rolled_back ⟨0, "a"⟩ opened hothers).2.mp h feedKey (by decide)
  have hstates : c.likeStates "a" feedKey =
      [(.leaf (.number 3), .leaf (.bool false)), (.leaf (.number 5), .leaf (.bool false))] := rfl
  rw [hstates] at hagree
  have hsame := hagree _ (List.mem_cons_self ..) _ (List.mem_cons_of_mem _ (List.mem_cons_self ..))
  cases hsame

end Ascendance.PostCache
