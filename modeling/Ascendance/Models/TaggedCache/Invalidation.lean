import Ascendance.Models.TaggedCache.Store
import Mathlib.Data.Finset.Sort
import Mathlib.Data.String.Basic

/-!
# The commands of an invalidation

An invalidation builds three pipelines. The results of the first two are matched by
position with the tags and with the keys, and the third removes keys from sets and
deletes. In what order Redis lists the members of a set is a parameter.
-/

namespace Ascendance.TaggedCache

open Ascendance.Core

/-- A command of the last pipeline. -/
inductive Command
  /-- `SREM` of a key from the set of a tag. -/
  | sRem (tag key : String)
  | del (key : String)
  | delKeyTags (key : String)
  | delTag (tag : String)
  deriving DecidableEq, Repr

namespace Cache

/-- The effect of a command on the cache. -/
def exec (c : Cache) : Command → Cache
  | .sRem tag key => { c with tags := c.tags.sRem c.clock tag key }
  | .del key => { c with values := c.values.del key }
  | .delKeyTags key => { c with keyTags := c.keyTags.del key }
  | .delTag tag => { c with tags := c.tags.del tag }

variable (members : Finset String → List String)

/-- The first pipeline: the members of the requested tag sets. -/
def fetchTags (c : Cache) (uniqueTags : List String) : List (List String) :=
  uniqueTags.map fun tag => members (c.tags.sMembers c.clock tag)

/-- The keys that are found, each once, in the order in which they are found. -/
def keysToDelete (uniqueTags : List String) (tagResults : List (List String)) : List String :=
  (uniqueTags.zipIdx.flatMap fun e => tagResults[e.2]?.getD []).eraseDups

/-- The second pipeline: the tags of the keys. -/
def fetchKeyTags (c : Cache) (keys : List String) : List (List String) :=
  keys.map fun key => members (c.keyTags.sMembers c.clock key)

/-- The commands for a key: it leaves its other tags, and is deleted with its tags. -/
def keyCommands (uniqueTags : List String) (key : String) (keyTags : List String) : List Command :=
  ((keyTags.filter (· ∉ uniqueTags)).map fun tag => .sRem tag key) ++ [.del key, .delKeyTags key]

/-- The third pipeline. -/
def deleteCommands (uniqueTags keys : List String) (keyTagResults : List (List String)) :
    List Command :=
  (keys.zipIdx.flatMap fun e => keyCommands uniqueTags e.1 (keyTagResults[e.2]?.getD [])) ++
    uniqueTags.map .delTag

/-- `invalidateByTags`, without anything in between. -/
def runInvalidation (c : Cache) (tags : List String) : Cache :=
  if tags = [] then c
  else
    let uniqueTags := tags.eraseDups
    let keys := keysToDelete uniqueTags (c.fetchTags members uniqueTags)
    (deleteCommands uniqueTags keys (c.fetchKeyTags members keys)).foldl exec c

end Cache

section Commands

variable {c : Cache} {cmds : List Command}

private theorem clock_exec : (cmds.foldl Cache.exec c).clock = c.clock := by
  induction cmds generalizing c with
  | nil => rfl
  | cons cmd cmds ih =>
    rw [List.foldl_cons, ih]
    cases cmd <;> rfl

private theorem entry_del {ν : Type} (ks : Keyspace String ν) (clock : ℕ) (k key : String) :
    (ks.del k).entry clock key = if key = k then none else ks.entry clock key := by
  unfold Keyspace.del
  split
  · next h =>
    subst h
    exact Keyspace.entry_put_self ks clock key none
  · next h => exact Keyspace.entry_put_ne ks clock none h

/-- A value is gone when it is deleted. -/
theorem values_exec (key : String) : (cmds.foldl Cache.exec c).values.entry c.clock key =
    if .del key ∈ cmds then none else c.values.entry c.clock key := by
  induction cmds generalizing c with
  | nil => rfl
  | cons cmd cmds ih =>
    have hclock : (c.exec cmd).clock = c.clock := by cases cmd <;> rfl
    rw [List.foldl_cons, ← hclock, ih, hclock]
    cases cmd with
    | del k =>
      change (if _ then none else (c.values.del k).entry c.clock key) = _
      rw [entry_del]
      by_cases hk : key = k <;> by_cases hmem : Command.del key ∈ cmds <;> simp [hk, hmem]
    | sRem _ _ | delKeyTags _ | delTag _ => simp [Cache.exec]

/-- The tags of a key are gone exactly when a command deletes them. -/
private theorem keyTags_exec (key : String) : (cmds.foldl Cache.exec c).keyTags.entry c.clock key =
    if .delKeyTags key ∈ cmds then none else c.keyTags.entry c.clock key := by
  induction cmds generalizing c with
  | nil => rfl
  | cons cmd cmds ih =>
    have hclock : (c.exec cmd).clock = c.clock := by cases cmd <;> rfl
    rw [List.foldl_cons, ← hclock, ih, hclock]
    cases cmd with
    | delKeyTags k =>
      change (if _ then none else (c.keyTags.del k).entry c.clock key) = _
      rw [entry_del]
      by_cases hk : key = k <;> by_cases hmem : Command.delKeyTags key ∈ cmds <;> simp [hk, hmem]
    | sRem _ _ | del _ | delTag _ => simp [Cache.exec]

/-- A key stays in the set of a tag that is not deleted, unless it is removed from it. -/
theorem mem_tags_exec (tag key : String) :
    key ∈ (cmds.foldl Cache.exec c).tags.sMembers c.clock tag ↔
      key ∈ c.tags.sMembers c.clock tag ∧ .delTag tag ∉ cmds ∧ .sRem tag key ∉ cmds := by
  induction cmds generalizing c with
  | nil => simp
  | cons cmd cmds ih =>
    have hclock : (c.exec cmd).clock = c.clock := by cases cmd <;> rfl
    rw [List.foldl_cons, ← hclock, ih, hclock]
    cases cmd with
    | sRem t k =>
      change key ∈ (c.tags.sRem c.clock t k).sMembers c.clock tag ∧ _ ↔ _
      rw [Keyspace.mem_sMembers_sRem]
      simp only [List.mem_cons, Command.sRem.injEq, reduceCtorEq, false_or, not_or, and_assoc]
      tauto
    | delTag t =>
      change key ∈ (c.tags.del t).sMembers c.clock tag ∧ _ ↔ _
      unfold Keyspace.sMembers Keyspace.get
      rw [entry_del]
      by_cases ht : tag = t <;> simp [ht]
    | del _ | delKeyTags _ => simp [Cache.exec]

end Commands

/-- Results that are matched by position belong to the elements that they were read for. -/
theorem flatMap_zipIdx {α β γ : Type} (l : List α) (f : α → List β) (g : α → List β → List γ) :
    (l.zipIdx.flatMap fun e => g e.1 ((l.map f)[e.2]?.getD [])) = l.flatMap fun a => g a (f a) := by
  have hfirst : (l.zipIdx.flatMap fun e => g e.1 (f e.1)) = l.flatMap fun a => g a (f a) := by
    rw [← List.flatMap_map Prod.fst fun a => g a (f a), List.zipIdx_map_fst]
  rw [← hfirst]
  refine List.flatMap_congr fun e he => ?_
  have hget : l[e.2]? = some e.1 := List.mk_mem_zipIdx_iff_getElem?.mp he
  rw [List.getElem?_map, hget]
  rfl

section Pipelines

variable {members : Finset String → List String} (hmembers : ∀ s a, a ∈ members s ↔ a ∈ s)
  {c : Cache} {tags : List String}

/-- The commands of an invalidation. -/
def invalidationCommands (members : Finset String → List String) (c : Cache) (tags : List String) :
    List Command :=
  Cache.deleteCommands tags.eraseDups
    (Cache.keysToDelete tags.eraseDups (c.fetchTags members tags.eraseDups))
    (c.fetchKeyTags members
      (Cache.keysToDelete tags.eraseDups (c.fetchTags members tags.eraseDups)))

/-- A key is found when the set of a requested tag lists it. -/
def Found (c : Cache) (tags : List String) (key : String) : Prop :=
  ∃ tag ∈ tags, key ∈ c.tags.sMembers c.clock tag

include hmembers in
/-- The keys to delete are those found under the tags. -/
private theorem mem_keysToDelete {key : String} :
    key ∈ Cache.keysToDelete tags.eraseDups (c.fetchTags members tags.eraseDups) ↔
      Found c tags key := by
  unfold Cache.keysToDelete Cache.fetchTags Found
  rw [flatMap_zipIdx _ _ fun _ keys => keys, List.mem_eraseDups, List.mem_flatMap]
  simp only [List.mem_eraseDups, hmembers]

/-- The commands: those of each key found, and one for each tag. -/
private theorem invalidationCommands_eq : invalidationCommands members c tags =
    ((Cache.keysToDelete tags.eraseDups (c.fetchTags members tags.eraseDups)).flatMap fun key =>
      Cache.keyCommands tags.eraseDups key (members (c.keyTags.sMembers c.clock key))) ++
        tags.eraseDups.map .delTag := by
  unfold invalidationCommands Cache.deleteCommands Cache.fetchKeyTags
  rw [flatMap_zipIdx _ _ (Cache.keyCommands tags.eraseDups)]

private theorem runInvalidation_eq (h : tags ≠ []) : c.runInvalidation members tags =
    (invalidationCommands members c tags).foldl Cache.exec c := if_neg h

include hmembers

/-- A value is deleted when its key was found. -/
private theorem del_mem {key : String} :
    .del key ∈ invalidationCommands members c tags ↔ Found c tags key := by
  rw [invalidationCommands_eq, ← mem_keysToDelete hmembers]
  simp [Cache.keyCommands]

private theorem delKeyTags_mem {key : String} :
    .delKeyTags key ∈ invalidationCommands members c tags ↔ Found c tags key := by
  rw [invalidationCommands_eq, ← mem_keysToDelete hmembers]
  simp [Cache.keyCommands]

omit hmembers in
/-- The sets of the given tags are deleted. -/
private theorem delTag_mem {tag : String} :
    .delTag tag ∈ invalidationCommands members c tags ↔ tag ∈ tags := by
  rw [invalidationCommands_eq]
  simp [Cache.keyCommands]

/-- A key that was found leaves the sets of its other tags. -/
private theorem sRem_mem {tag key : String} : .sRem tag key ∈ invalidationCommands members c tags ↔
    Found c tags key ∧ tag ∈ c.keyTags.sMembers c.clock key ∧ tag ∉ tags := by
  rw [invalidationCommands_eq, ← mem_keysToDelete hmembers]
  simp [Cache.keyCommands, hmembers]

/-- The keys found are gone with their tags, and no other. -/
private theorem values_runInvalidation (key : String) :
    (Found c tags key →
      (c.runInvalidation members tags).values.entry c.clock key = none ∧
      (c.runInvalidation members tags).keyTags.entry c.clock key = none) ∧
    (¬Found c tags key →
      (c.runInvalidation members tags).values.entry c.clock key = c.values.entry c.clock key ∧
      (c.runInvalidation members tags).keyTags.entry c.clock key =
        c.keyTags.entry c.clock key) := by
  by_cases htags : tags = []
  · subst htags
    refine ⟨fun ⟨tag, htag, _⟩ => absurd htag List.not_mem_nil, fun _ => ⟨rfl, rfl⟩⟩
  · rw [runInvalidation_eq htags, values_exec, keyTags_exec]
    exact ⟨fun h => ⟨if_pos ((del_mem hmembers).mpr h), if_pos ((delKeyTags_mem hmembers).mpr h)⟩,
      fun h => ⟨if_neg fun hmem => h ((del_mem hmembers).mp hmem),
        if_neg fun hmem => h ((delKeyTags_mem hmembers).mp hmem)⟩⟩

/-- What stays in the set of a tag. -/
private theorem mem_runInvalidation (tag key : String) :
    key ∈ (c.runInvalidation members tags).tags.sMembers c.clock tag ↔
      key ∈ c.tags.sMembers c.clock tag ∧ tag ∉ tags ∧
        ¬(Found c tags key ∧ tag ∈ c.keyTags.sMembers c.clock key) := by
  by_cases htags : tags = []
  · subst htags
    have hnone : ¬Found c [] key := fun ⟨tag, htag, _⟩ => absurd htag List.not_mem_nil
    simp [Cache.runInvalidation, hnone]
  · rw [runInvalidation_eq htags, mem_tags_exec, delTag_mem, sRem_mem hmembers]
    tauto

omit hmembers in
private theorem foldl_delTag (uniqueTags : List String) (c : Cache) :
    (uniqueTags.map .delTag).foldl Cache.exec c =
      { c with tags := c.tags.delMany uniqueTags.toFinset } := by
  induction uniqueTags generalizing c with
  | nil => rfl
  | cons tag uniqueTags ih =>
    rw [List.map_cons, List.foldl_cons, ih]
    have hdel : (c.tags.del tag).delMany uniqueTags.toFinset =
        c.tags.delMany (tag :: uniqueTags).toFinset := by
      ext t : 1
      unfold Keyspace.delMany Keyspace.del
      by_cases ht : t = tag
      · simp [ht]
      · simp [ht, Keyspace.put_ne]
    exact congrArg (fun ks => { c with tags := ks }) hdel

/-- Invalidating twice is invalidating once. -/
private theorem runInvalidation_twice :
    (c.runInvalidation members tags).runInvalidation members tags =
    c.runInvalidation members tags := by
  by_cases htags : tags = []
  · subst htags
    rfl
  · have hclock : (c.runInvalidation members tags).clock = c.clock := by
      rw [runInvalidation_eq htags]
      exact clock_exec
    have hnone : Cache.keysToDelete tags.eraseDups
        ((c.runInvalidation members tags).fetchTags members tags.eraseDups) = [] := by
      refine List.eq_nil_iff_forall_not_mem.mpr fun key hkey => ?_
      obtain ⟨tag, htag, hmem⟩ := (mem_keysToDelete hmembers).mp hkey
      rw [hclock] at hmem
      exact ((mem_runInvalidation hmembers tag key).mp hmem).2.1 htag
    rw [runInvalidation_eq htags, invalidationCommands_eq, hnone, List.flatMap_nil,
      List.nil_append, foldl_delTag]
    rw [runInvalidation_eq htags, invalidationCommands_eq, List.foldl_append, foldl_delTag]
    unfold Keyspace.delMany
    simp only [← ite_or, or_self]

omit hmembers in
private theorem tags_runInvalidation {tag : String} (htag : tag ∈ tags) :
    (c.runInvalidation members tags).tags.entry c.clock tag = none := by
  rw [runInvalidation_eq (List.ne_nil_of_mem htag), invalidationCommands_eq, List.foldl_append,
    foldl_delTag]
  change (Keyspace.delMany _ tags.eraseDups.toFinset).entry c.clock tag = none
  rw [Keyspace.entry_delMany, if_pos (by simpa using htag)]

/-- The commands do what one deletion of the keys and the tags does. -/
theorem runInvalidation_agrees (key tag : String) :
    (c.runInvalidation members tags).values.entry c.clock key =
      (c.invalidateByTags tags).values.entry c.clock key ∧
    (c.runInvalidation members tags).keyTags.entry c.clock key =
      (c.invalidateByTags tags).keyTags.entry c.clock key ∧
    (key ∈ (c.runInvalidation members tags).tags.sMembers c.clock tag ↔
      key ∈ (c.invalidateByTags tags).tags.sMembers c.clock tag) := by
  by_cases htags : tags = []
  · subst htags
    exact ⟨rfl, rfl, Iff.rfl⟩
  · have hfound : key ∈ c.keysOfTags tags ↔ Found c tags key := by
      simp [Cache.keysOfTags, Found]
    obtain ⟨hgone, hkept⟩ := values_runInvalidation hmembers key
    rw [mem_runInvalidation hmembers]
    unfold Cache.invalidateByTags
    rw [if_neg htags]
    refine ⟨?_, ?_, ?_⟩
    · change _ = (c.values.delMany (c.keysOfTags tags)).entry c.clock key
      rw [Keyspace.entry_delMany]
      by_cases h : Found c tags key
      · rw [(hgone h).1, if_pos (hfound.mpr h)]
      · rw [(hkept h).1, if_neg fun hmem => h (hfound.mp hmem)]
    · change _ = (c.keyTags.delMany (c.keysOfTags tags)).entry c.clock key
      rw [Keyspace.entry_delMany]
      by_cases h : Found c tags key
      · rw [(hgone h).2, if_pos (hfound.mpr h)]
      · rw [(hkept h).2, if_neg fun hmem => h (hfound.mp hmem)]
    · change _ ↔ key ∈ (Keyspace.delMany (c.tags.sRemMany c.clock fun tag =>
        if tag ∈ tags then ∅ else (c.keysOfTags tags).filter fun key => tag ∈ c.tagsOfKeys key)
          tags.toFinset).sMembers c.clock tag
      rw [Keyspace.mem_sMembers_delMany, Keyspace.mem_sMembers_sRemMany, List.mem_toFinset]
      by_cases htag : tag ∈ tags
      · simp [htag]
      · rw [if_neg htag, Finset.mem_filter, hfound]
        simp only [htag, not_false_eq_true, true_and, and_true]
        rfl

/-- Every live key is in the sets of exactly the tags that are listed for it. -/
def Consistent (c : Cache) : Prop :=
  ∀ key e, c.values.entry c.clock key = some e →
    ∀ tag, key ∈ c.tags.sMembers c.clock tag ↔ tag ∈ c.keyTags.sMembers c.clock key

/-- Every live key with a requested tag is gone, with its tags and from all sets; the sets
of the requested tags are gone; a live key with none of them keeps its value, its tags and
its memberships; and a second invalidation changes nothing. -/
theorem invalidateByTags_removes (hc : Consistent c) (tags : List String) :
    (∀ key e, c.values.entry c.clock key = some e →
      (∃ tag ∈ tags, tag ∈ c.keyTags.sMembers c.clock key) →
      (c.runInvalidation members tags).values.entry c.clock key = none ∧
      (c.runInvalidation members tags).keyTags.entry c.clock key = none ∧
      ∀ tag, key ∉ (c.runInvalidation members tags).tags.sMembers c.clock tag) ∧
    (∀ tag ∈ tags, (c.runInvalidation members tags).tags.entry c.clock tag = none) ∧
    (∀ key e, c.values.entry c.clock key = some e →
      (∀ tag ∈ tags, tag ∉ c.keyTags.sMembers c.clock key) →
      (c.runInvalidation members tags).values.entry c.clock key = some e ∧
      (c.runInvalidation members tags).keyTags.entry c.clock key = c.keyTags.entry c.clock key ∧
      ∀ tag, key ∈ (c.runInvalidation members tags).tags.sMembers c.clock tag ↔
        key ∈ c.tags.sMembers c.clock tag) ∧
    (c.runInvalidation members tags).runInvalidation members tags =
      c.runInvalidation members tags := by
  refine ⟨fun key e he htag => ?_, fun tag htag => tags_runInvalidation htag,
    fun key e he hnone => ?_, runInvalidation_twice hmembers⟩
  · have hfound : Found c tags key := by
      obtain ⟨tag, hmem, hkey⟩ := htag
      exact ⟨tag, hmem, (hc key e he tag).mpr hkey⟩
    obtain ⟨hvalue, hkeyTags⟩ := (values_runInvalidation hmembers key).1 hfound
    refine ⟨hvalue, hkeyTags, fun tag hmem => ?_⟩
    obtain ⟨hold, -, hnot⟩ := (mem_runInvalidation hmembers tag key).mp hmem
    exact hnot ⟨hfound, (hc key e he tag).mp hold⟩
  · have hfound : ¬Found c tags key := fun ⟨tag, hmem, hkey⟩ =>
      hnone tag hmem ((hc key e he tag).mp hkey)
    obtain ⟨hvalue, hkeyTags⟩ := (values_runInvalidation hmembers key).2 hfound
    refine ⟨hvalue.trans he, hkeyTags, fun tag => ?_⟩
    rw [mem_runInvalidation hmembers]
    constructor
    · exact And.left
    · exact fun hmem => ⟨hmem, fun htag => hfound ⟨tag, htag, hmem⟩, fun h => hfound h.1⟩

end Pipelines

/-- Two keys of which one tag is common. -/
def overlapping : Cache where
  clock := 0
  values := fun key => if key = "a" ∨ key = "b" then some ⟨.table [], ⊤⟩ else none
  tags := fun tag =>
    if tag = "x" then some ⟨{"a"}, ⊤⟩ else if tag = "y" then some ⟨{"a", "b"}, ⊤⟩ else none
  keyTags := fun key =>
    if key = "a" then some ⟨{"x", "y"}, ⊤⟩ else if key = "b" then some ⟨{"y"}, ⊤⟩ else none

private theorem overlapping_consistent : Consistent overlapping := by
  intro key e he tag
  have hkey : key = "a" ∨ key = "b" := by
    by_contra hnot
    simp [Keyspace.entry, overlapping, hnot] at he
  by_cases hx : tag = "x" <;> by_cases hy : tag = "y" <;>
    obtain rfl | rfl := hkey <;>
    simp_all [Keyspace.sMembers, Keyspace.get, Keyspace.entry, Entry.isLive, overlapping,
      Option.filter_some]

/-- One of the keys has the requested tag. -/
theorem invalidateByTags_removes_overlapping :
    ((overlapping.runInvalidation (fun s => s.sort (· ≤ ·)) ["x", "x"]).values.entry 0 "a" = none ∧
      "a" ∉ (overlapping.runInvalidation (fun s => s.sort (· ≤ ·)) ["x", "x"]).tags.sMembers 0 "y")
        ∧
    "b" ∈
      (overlapping.runInvalidation (fun s => s.sort (· ≤ ·)) ["x", "x"]).tags.sMembers 0 "y" := by
  obtain ⟨hgone, -, hkept, -⟩ := invalidateByTags_removes (c := overlapping)
    (fun s a => Finset.mem_sort (· ≤ ·)) overlapping_consistent ["x", "x"]
  have ha : overlapping.values.entry overlapping.clock "a" = some ⟨.table [], ⊤⟩ := rfl
  have hb : overlapping.values.entry overlapping.clock "b" = some ⟨.table [], ⊤⟩ := rfl
  obtain ⟨hvalue, -, htags⟩ := hgone "a" _ ha ⟨"x", by decide, by decide⟩
  obtain ⟨-, -, hmem⟩ := hkept "b" _ hb (by decide)
  exact ⟨⟨hvalue, htags "y"⟩, (hmem "y").mpr (by decide)⟩

end Ascendance.TaggedCache
