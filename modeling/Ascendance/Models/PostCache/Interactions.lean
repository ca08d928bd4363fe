import Ascendance.Core.Stripped
import Ascendance.Models.PostCache.Cache

/-!
# Interactions with other posts

For a given post the interaction properties of all other posts are set aside. What is
left of the cache does not depend on the interactions with other posts, their failures
and their live counts: a run shows of the post what the same run without them shows.
-/

namespace Ascendance.PostCache

open Ascendance.Core

/-- The properties that the interactions with a post change. -/
def interactionFields : List String :=
  ["likes", "isLikedByViewer", "viewerLikeStateKnown", "repostCount", "isRepostedByViewer",
    "body", "editedAt"]

private theorem interactionFields_outside {k : String} (h : k ∈ interactionFields) :
    k ∉ searched := by
  revert k
  decide

/-- A change inside keeps what is read of a post. -/
private theorem read_mapInside {k : String} (h : k ∉ searched) (f : CacheData → CacheData)
    (post : Post) :
    read k (Fields.mapInside searched f post) = read k post := by
  rw [read, read, Fields.lookup_mapInside_of_notMem h]

/-- An updater that changes interaction properties by what they are. -/
structure Interaction (u : Post → Post) : Prop where
  keeps : ∀ {k}, k ∉ interactionFields → ∀ post, List.lookup k (u post) = List.lookup k post
  likes : ∀ post, (List.lookup "likes" post).isSome = true →
    (List.lookup "likes" (u post)).isSome = true
  hidden : ∀ f post, Fields.without interactionFields (Fields.mapInside searched f (u post)) =
    Fields.without interactionFields (Fields.mapInside searched f post)
  commutes : ∀ f post, u (Fields.mapInside searched f post) = Fields.mapInside searched f (u post)

/-- A spread with new values of interaction properties. -/
theorem interaction_assign {patch : Post → Fields Leaf}
    (hfields : ∀ post, ∀ e ∈ patch post, e.1 ∈ interactionFields)
    (hpatch : ∀ f post, patch (Fields.mapInside searched f post) = patch post) :
    Interaction fun post => Fields.assign post (patch post) where
  keeps hk post := by
    apply Fields.lookup_assign_of_notMem
    rintro e he rfl
    exact hk (hfields post e he)
  likes post h := Fields.lookup_assign_isSome h _
  hidden f post := by
    rw [Fields.mapInside_assign fun e he => interactionFields_outside (hfields post e he)]
    exact Fields.without_assign (hfields post) _
  commutes f post := by
    rw [hpatch, Fields.mapInside_assign fun e he => interactionFields_outside (hfields post e he)]

/-- The optimistic like touches the fields of an interaction only. -/
theorem interaction_liked (shouldLike : Bool) : Interaction (likedOptimistically shouldLike) := by
  apply interaction_assign
  · intro post
    simp [interactionFields]
  · intro f post
    rw [read_mapInside (by decide), read_mapInside (by decide)]

/-- The confirmed like touches the fields of an interaction only. -/
theorem interaction_confirmed (likes : ℤ) (isLikedByViewer : Bool) :
    Interaction (likeConfirmed likes isLikedByViewer) := by
  apply interaction_assign
  · intro post
    simp [interactionFields]
  · intro f post
    rfl

/-- The rolled back like touches the fields of an interaction only. -/
theorem interaction_rolledBack (previous : Post) : Interaction (likeRolledBack previous) := by
  apply interaction_assign
  · intro post
    simp [interactionFields]
  · intro f post
    rfl

/-- A new count touches the fields of an interaction only. -/
theorem interaction_counted (newLikes : ℤ) : Interaction (likesCounted newLikes) := by
  apply interaction_assign
  · intro post
    simp [interactionFields]
  · intro f post
    rfl

/-- A repost touches the fields of an interaction only. -/
theorem interaction_reposted : Interaction applyRepostState := by
  apply interaction_assign
  · intro post
    simp [interactionFields]
  · intro f post
    rw [read_mapInside (by decide)]

/-- A repost taken back touches the fields of an interaction only. -/
theorem interaction_unreposted : Interaction clearRepostState := by
  apply interaction_assign
  · intro post
    simp [interactionFields]
  · intro f post
    rw [read_mapInside (by decide)]

/-- An edit touches the fields of an interaction only. -/
theorem interaction_edited (body editedAt : Leaf) : Interaction (bodyEdited body editedAt) := by
  apply interaction_assign
  · intro post
    simp [interactionFields]
  · intro f post
    rfl

/-- What a record loses: the interaction properties if it has the id of another post. -/
def lost (publicId : String) (record : Post) : List String :=
  match List.lookup "publicId" record with
  | some (.leaf (.string s)) => if s = publicId then [] else interactionFields
  | _ => []

/-- Cached data without the interaction properties of other posts. -/
def withoutOthers (publicId : String) : CacheData → CacheData :=
  Data.strip searched (lost publicId)

variable {p q : String} {u : Post → Post} {f : CacheData → CacheData}

/-- Only the fields of an interaction are lost. -/
theorem lost_subset (p : String) (record : Post) : lost p record ⊆ interactionFields := by
  unfold lost
  split
  · split <;> simp
  · simp

/-- What is lost depends on the identifier alone. -/
theorem lost_congr {record record' : Post}
    (h : List.lookup "publicId" record = List.lookup "publicId" record') :
    lost p record = lost p record' := by
  rw [lost, lost, h]

/-- A record keeps the properties that neither are searched nor can be lost. -/
theorem lookup_bare {k : String} (hk : k ∉ interactionFields) (hs : k ∉ searched)
    (f : CacheData → CacheData) (record : Post) :
    List.lookup k (Data.bare searched (lost p) f record) = List.lookup k record := by
  rw [Data.bare, Fields.lookup_without fun h => hk (lost_subset p record h),
    Fields.lookup_mapInside_of_notMem hs]

private theorem lookup_publicId_bare (f : CacheData → CacheData) (record : Post) :
    List.lookup "publicId" (Data.bare searched (lost p) f record) =
      List.lookup "publicId" record :=
  lookup_bare (by decide) (by decide) f record

private theorem lost_mapInside (f : CacheData → CacheData) (record : Post) :
    lost p (Fields.mapInside searched f record) = lost p record :=
  lost_congr (Fields.lookup_mapInside_of_notMem (by decide) f record)

/-- What is searched for: a record with the identifier and with likes. -/
private theorem isPost_iff {record : Post} : isPost p record = true ↔
    List.lookup "publicId" record = some (.leaf (.string p)) ∧
      (List.lookup "likes" record).isSome = true := by
  unfold isPost
  split
  · next s h => simp [h]
  · next h =>
    rw [Bool.false_and]
    exact ⟨fun hfalse => absurd hfalse Bool.false_ne_true, fun hp => absurd hp.1 (h p)⟩

/-- The post itself loses nothing. -/
theorem lost_of_isPost {record : Post} (h : isPost p record = true) : lost p record = [] := by
  rw [lost, (isPost_iff.mp h).1]
  exact if_pos rfl

/-- Another post loses its interactions. -/
private theorem lost_of_other {record : Post} (h : isPost q record = true) (hne : q ≠ p) :
    lost p record = interactionFields := by
  rw [lost, (isPost_iff.mp h).1]
  exact if_neg hne

/-- The post itself loses nothing. -/
private theorem bare_of_isPost {record : Post} (h : isPost p record = true)
    (f : CacheData → CacheData) :
    Data.bare searched (lost p) f record = Fields.mapInside searched f record := by
  rw [Data.bare, lost_of_isPost h]
  exact List.filter_eq_self.mpr fun e _ => by simp

/-- A record is of its post whatever is changed inside. -/
theorem isPost_mapInside (f : CacheData → CacheData) (record : Post) :
    isPost p (Fields.mapInside searched f record) = isPost p record := by
  unfold isPost
  rw [Fields.lookup_mapInside_of_notMem (by decide), Fields.lookup_mapInside_of_notMem (by decide)]

/-- Setting other posts aside does not hide the post. -/
theorem isPost_bare (f : CacheData → CacheData) (record : Post) :
    isPost p (Data.bare searched (lost p) f record) = isPost p record := by
  cases h : isPost p record with
  | true =>
    rw [bare_of_isPost h, isPost_mapInside]
    exact h
  | false =>
    rw [Bool.eq_false_iff, ne_eq, isPost_iff, lookup_publicId_bare]
    rintro ⟨hid, hlikes⟩
    have hnone : lost p record = [] := by
      rw [lost, hid]
      exact if_pos rfl
    rw [Data.bare, hnone, Fields.lookup_without List.not_mem_nil,
      Fields.lookup_mapInside_of_notMem (by decide)] at hlikes
    exact absurd (isPost_iff.mpr ⟨hid, hlikes⟩) (by simp [h])

/-- An interaction leaves a record that of its post. -/
theorem Interaction.isPost (hu : Interaction u) {record : Post} (h : isPost p record = true) :
    isPost p (u record) = true := by
  obtain ⟨hid, hlikes⟩ := isPost_iff.mp h
  exact isPost_iff.mpr ⟨(hu.keeps (by decide) record).trans hid, hu.likes record hlikes⟩

/-- An interaction with the post itself does not depend on the others. -/
theorem updatePostInCache_withoutOthers (hu : Interaction u) (data : CacheData) :
    updatePostInCache p u (withoutOthers p data) =
      withoutOthers p (updatePostInCache p u data) := by
  apply Data.rewrite_strip (fun f record => lost_mapInside f record)
  intro f record
  rw [isPost_bare]
  split
  · next h =>
    rw [bare_of_isPost h, hu.commutes, Option.map_some, bare_of_isPost (hu.isPost h)]
  · rfl

/-- An interaction with another post leaves no trace. -/
theorem withoutOthers_updatePostInCache (hu : Interaction u) (hne : q ≠ p) (data : CacheData) :
    withoutOthers p (updatePostInCache q u data) = withoutOthers p data := by
  apply Data.strip_rewrite (fun f record => lost_mapInside f record)
  intro f record record' h
  split at h
  · next hpost =>
    obtain rfl := Option.some.inj h
    rw [Data.bare, Data.bare, lost_of_other hpost hne, lost_of_other (hu.isPost hpost) hne]
    exact hu.hidden f record
  · cases h

/-- Hiding the other posts moves no item. -/
theorem isItem_withoutOthers (data : CacheData) :
    isItem q (withoutOthers p data) = isItem q data := by
  cases data with
  | leaf a => rfl
  | array items =>
    rw [withoutOthers, Data.strip_array]
    rfl
  | object record =>
    rw [withoutOthers, Data.strip_bare, isItem, lookup_publicId_bare]
    rfl

/-- Dropping a post commutes with hiding the others. -/
theorem filterOutDeletedPost_withoutOthers (data : CacheData) :
    filterOutDeletedPost q (withoutOthers p data) =
      withoutOthers p (filterOutDeletedPost q data) := by
  apply Data.prune_strip
  · intro f record
    exact lost_congr (Fields.lookup_mapInside_of_notMem (by decide) f record)
  · exact isItem_withoutOthers

/-- The copies of the post stay when the others are hidden. -/
theorem copies_withoutOthers (data : CacheData) :
    copies p (withoutOthers p data) =
      (copies p data).map (Data.bare searched (lost p) (withoutOthers p)) := by
  apply Data.records_strip (fun f record => isPost_bare f record)
  intro record k hk hlost
  exact interactionFields_outside (lost_subset p record hlost) hk

/-- A copy of a post is a record of it. -/
theorem isPost_of_mem_copies {data : CacheData} {post : Post} (h : post ∈ copies p data) :
    isPost p post = true := Data.of_mem_records h

/-- The copies of the post read the same. -/
theorem read_bare {k : String} {post : Post} (hpost : isPost p post = true) (hk : k ∉ searched)
    (f : CacheData → CacheData) : read k (Data.bare searched (lost p) f post) = read k post := by
  rw [bare_of_isPost hpost, read_mapInside hk]

end Ascendance.PostCache
