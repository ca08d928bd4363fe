import Ascendance.Models.TaggedCache.Store

/-!
# The index of the tagged cache

A key is indexed when its tag sets list it, and its own set lists its tags, for
as long as it lives. A write indexes its key and keeps the others indexed, as
long as it gives no tag set an expiry that some other member outlives.
-/

namespace Ascendance.TaggedCache

open Ascendance.Core

/-- A key is in the sets of the tags of its last write for as long as it lives. -/
def Cache.IndexedAt (c : Cache) (last : String → List String) (key : String) : Prop :=
  ∀ e, c.values.entry c.clock key = some e → ∀ tag ∈ last key,
    c.tags.Holds c.clock tag key e.expireAt ∧ c.keyTags.Holds c.clock key tag e.expireAt

/-- Every live value is found under the tags it was last written with. -/
def Cache.Indexed (c : Cache) (last : String → List String) : Prop := ∀ key, c.IndexedAt last key

/-- Where the set of a tag that is written has no expiry, no member that is not
written itself outlives the write. -/
def Cache.Covers (c : Cache) (last : String → List String) (written : List (String × List String))
    (seconds : Option ℕ) : Prop :=
  ∀ s, seconds = some s → ∀ entry ∈ written, ∀ tag ∈ entry.2,
    ∀ set, c.tags.entry c.clock tag = some set → set.expireAt = ⊤ →
    ∀ key ∉ written.map (·.1), ∀ e, c.values.entry c.clock key = some e → tag ∈ last key →
      e.expireAt ≤ Keyspace.after c.clock s

/-- What a write of one key does. -/
structure Stored (c c' : Cache) (key : String) (tags : List String) (seconds : Option ℕ) :
    Prop where
  clock : c'.clock = c.clock
  value : ∃ v, c'.values.entry c.clock key = some ⟨v, lifetime c.clock seconds⟩
  others : ∀ k, k ≠ key → c'.values.entry c.clock k = c.values.entry c.clock k
  othersTags : ∀ k, k ≠ key → c'.keyTags.entry c.clock k = c.keyTags.entry c.clock k
  unlinked : ∀ tag, tag ∉ tags → c'.tags.entry c.clock tag = c.tags.entry c.clock tag
  linked : ∀ tag ∈ tags, c'.tags.Holds c.clock tag key (lifetime c.clock seconds) ∧
    c'.keyTags.Holds c.clock key tag (lifetime c.clock seconds)
  /-- Other members stay, unless a set without expiry gets one too early for them. -/
  kept : ∀ tag k u, c.tags.Holds c.clock tag k u →
    (∀ s, seconds = some s → tag ∈ tags → ∀ set, c.tags.entry c.clock tag = some set →
      set.expireAt = ⊤ → u ≤ Keyspace.after c.clock s) → c'.tags.Holds c.clock tag k u
  /-- A write with time to live leaves an expiry. -/
  expiring : ∀ s, seconds = some s → ∀ tag ∈ tags, ∀ set, c'.tags.entry c.clock tag = some set →
    set.expireAt ≠ ⊤

section Joining

variable {clock : ℕ} {key : String} {seconds : Option ℕ} {ks : Keyspace String (Finset String)}
  {tags : List String} {tag : String}

private theorem entry_joinTag_ne (ks : Keyspace String (Finset String)) {j : String} (h : j ≠ tag) :
    (joinTag clock key seconds ks tag).entry clock j = ks.entry clock j := by
  unfold joinTag
  split
  · rw [Keyspace.entry_sAddGt_ne _ _ _ _ h]
  · rw [Keyspace.entry_persist_ne _ _ h, Keyspace.entry_sAdd_ne _ _ _ h]

/-- The key is in the set of its tag for its lifetime. -/
private theorem holds_joinTag (ks : Keyspace String (Finset String)) :
    (joinTag clock key seconds ks tag).Holds clock tag key (lifetime clock seconds) := by
  unfold joinTag
  split
  · exact Keyspace.holds_sAddGt ..
  · exact Keyspace.holds_sAdd_persist ..

/-- Joining one tag shortens no other membership. -/
private theorem holds_joinTag_of_holds {j k : String} {u : WithTop ℕ} (h : ks.Holds clock j k u)
    (hlim : ∀ s, seconds = some s → j = tag → ∀ set, ks.entry clock j = some set →
      set.expireAt = ⊤ → u ≤ Keyspace.after clock s) :
    (joinTag clock key seconds ks tag).Holds clock j k u := by
  unfold joinTag
  split
  · next s => exact h.sAddGt key (hlim s rfl)
  · exact (h.sAdd tag key).persist tag

/-- A join with time to live leaves an expiry. -/
theorem expireAt_joinTag {s : ℕ} {set : Entry (Finset String)}
    (h : (joinTag clock key (some s) ks tag).entry clock tag = some set) : set.expireAt ≠ ⊤ := by
  obtain ⟨e, he, -, -, htop, -⟩ := ks.entry_sAddGt_self clock tag key s
  obtain rfl := Option.some.inj (he.symm.trans h)
  exact htop

private theorem entry_joinTags_ne (ks : Keyspace String (Finset String)) {j : String}
    (h : j ∉ tags) :
    (tags.foldl (joinTag clock key seconds) ks).entry clock j = ks.entry clock j := by
  induction tags generalizing ks with
  | nil => rfl
  | cons t ts ih =>
    rw [List.mem_cons, not_or] at h
    rw [List.foldl_cons, ih _ h.2, entry_joinTag_ne ks h.1]

/-- The members of the sets that a key joins stay. -/
theorem holds_joinTags_of_holds {j k : String} {u : WithTop ℕ} (h : ks.Holds clock j k u)
    (hlim : ∀ s, seconds = some s → j ∈ tags → ∀ set, ks.entry clock j = some set →
      set.expireAt = ⊤ → u ≤ Keyspace.after clock s) :
    (tags.foldl (joinTag clock key seconds) ks).Holds clock j k u := by
  induction tags generalizing ks with
  | nil => exact h
  | cons t ts ih =>
    rw [List.foldl_cons]
    apply ih
    · apply holds_joinTag_of_holds h
      rintro s hs rfl
      exact hlim s hs (List.mem_cons_self ..)
    · intro s hs hj set hset htop
      by_cases ht : j = t
      · -- The first join has left an expiry.
        subst hs ht
        exact absurd htop (expireAt_joinTag hset)
      · rw [entry_joinTag_ne ks ht] at hset
        exact hlim s hs (List.mem_cons_of_mem _ hj) set hset htop

/-- The key stays in every set that it joins. -/
theorem holds_joinTags (ks : Keyspace String (Finset String)) (h : tag ∈ tags) :
    (tags.foldl (joinTag clock key seconds) ks).Holds clock tag key (lifetime clock seconds) := by
  induction tags generalizing ks with
  | nil => cases h
  | cons t ts ih =>
    rw [List.foldl_cons]
    by_cases ht : tag = t
    · subst ht
      apply holds_joinTags_of_holds (holds_joinTag ks)
      rintro s rfl - set - -
      exact le_rfl
    · exact ih _ ((List.mem_cons.mp h).resolve_left ht)

/-- Joins with time to live leave expiries. -/
theorem expireAt_joinTags {s : ℕ} (ks : Keyspace String (Finset String)) (h : tag ∈ tags)
    {set : Entry (Finset String)}
    (hset : (tags.foldl (joinTag clock key (some s)) ks).entry clock tag = some set) :
    set.expireAt ≠ ⊤ := by
  induction tags generalizing ks with
  | nil => cases h
  | cons t ts ih =>
    rw [List.foldl_cons] at hset
    by_cases hts : tag ∈ ts
    · exact ih _ hts hset
    · obtain rfl : tag = t := (List.mem_cons.mp h).resolve_right hts
      rw [entry_joinTags_ne _ hts] at hset
      exact expireAt_joinTag hset

/-- The tags that a key gets are there. -/
theorem holds_addKeyTags (ks : Keyspace String (Finset String)) (h : tag ∈ tags) :
    (tags.foldl (fun ks tag => ks.sAdd clock key tag) ks).Holds clock key tag
      (WithTop.some clock) := by
  have hkeep : ∀ (ts : List String) (ks : Keyspace String (Finset String)),
      ks.Holds clock key tag (WithTop.some clock) →
      (ts.foldl (fun ks tag => ks.sAdd clock key tag) ks).Holds clock key tag
        (WithTop.some clock) := by
    intro ts
    induction ts with
    | nil => exact fun ks hks => hks
    | cons t ts ih => exact fun ks hks => ih _ (hks.sAdd key t)
  induction tags generalizing ks with
  | nil => cases h
  | cons t ts ih =>
    rw [List.foldl_cons]
    by_cases ht : tag = t
    · subst ht
      exact hkeep ts _ (ks.holds_sAdd clock key tag)
    · exact ih _ ((List.mem_cons.mp h).resolve_left ht)

private theorem entry_addKeyTags_ne (ks : Keyspace String (Finset String)) {j : String}
    (h : j ≠ key) :
    (tags.foldl (fun ks tag => ks.sAdd clock key tag) ks).entry clock j = ks.entry clock j := by
  induction tags generalizing ks with
  | nil => rfl
  | cons t ts ih => rw [List.foldl_cons, ih, Keyspace.entry_sAdd_ne _ _ _ h]

end Joining

namespace Cache

variable {c c' : Cache} {key : String} {tags : List String} {seconds : Option ℕ}

/-- Joining tags and adding tags are independent, so one loop does what two do. -/
theorem foldl_addToTag (c : Cache) :
    tags.foldl (fun c tag => c.addToTag key seconds tag) c =
      { c with tags := tags.foldl (joinTag c.clock key seconds) c.tags } := by
  induction tags generalizing c with
  | nil => rfl
  | cons t ts ih => exact ih (c.addToTag key seconds t)

private theorem foldl_addKeyTag (c : Cache) :
    tags.foldl (fun c tag => c.addKeyTag key tag) c =
      { c with keyTags := tags.foldl (fun ks tag => ks.sAdd c.clock key tag) c.keyTags } := by
  induction tags generalizing c with
  | nil => rfl
  | cons t ts ih => exact ih (c.addKeyTag key t)

/-- Linking a key tag by tag is linking it. -/
private theorem linkEach_eq_link (c : Cache) (key : String) (tags : List String)
    (seconds : Option ℕ) :
    c.linkEach key tags seconds = c.link key tags seconds := by
  have hboth : tags.foldl (fun c tag => (c.addToTag key seconds tag).addKeyTag key tag) c =
      { c with
        tags := tags.foldl (joinTag c.clock key seconds) c.tags
        keyTags := tags.foldl (fun ks tag => ks.sAdd c.clock key tag) c.keyTags } := by
    induction tags generalizing c with
    | nil => rfl
    | cons t ts ih => exact ih ((c.addToTag key seconds t).addKeyTag key t)
  unfold linkEach link
  rw [hboth, foldl_addToTag, foldl_addKeyTag]

@[simp] theorem clock_put (c : Cache) (key : String) (value : CachedValue)
    (seconds : Option ℕ) : (c.put key value seconds).clock = c.clock := by cases seconds <;> rfl

@[simp] theorem tags_put (c : Cache) (key : String) (value : CachedValue) (seconds : Option ℕ) :
    (c.put key value seconds).tags = c.tags := by cases seconds <;> rfl

@[simp] theorem keyTags_put (c : Cache) (key : String) (value : CachedValue)
    (seconds : Option ℕ) : (c.put key value seconds).keyTags = c.keyTags := by
  cases seconds <;> rfl

/-- What a write leaves is read while it lives. -/
theorem entry_put_self (c : Cache) (key : String) (value : CachedValue) (seconds : Option ℕ) :
    (c.put key value seconds).values.entry c.clock key =
      some ⟨value, lifetime c.clock seconds⟩ := by
  cases seconds with
  | none => exact c.values.entry_set_self c.clock key value
  | some seconds => exact c.values.entry_setEx_self c.clock key seconds value

/-- A write leaves the other keys alone. -/
theorem entry_put_ne (c : Cache) (value : CachedValue) (seconds : Option ℕ) {k : String}
    (h : k ≠ key) :
    (c.put key value seconds).values.entry c.clock k = c.values.entry c.clock k := by
  cases seconds <;> exact Keyspace.entry_put_ne _ _ _ h

@[simp] theorem clock_link (c : Cache) (key : String) (tags : List String) (seconds : Option ℕ) :
    (c.link key tags seconds).clock = c.clock := by
  unfold link
  rw [foldl_addToTag, foldl_addKeyTag]
  cases seconds <;> rfl

@[simp] theorem values_link (c : Cache) (key : String) (tags : List String) (seconds : Option ℕ) :
    (c.link key tags seconds).values = c.values := by
  unfold link
  rw [foldl_addToTag, foldl_addKeyTag]
  cases seconds <;> rfl

/-- The sets of the tags after a key was linked. -/
private theorem tags_link (c : Cache) (key : String) (tags : List String) (seconds : Option ℕ) :
    (c.link key tags seconds).tags = tags.foldl (joinTag c.clock key seconds) c.tags := by
  unfold link
  rw [foldl_addToTag, foldl_addKeyTag]
  cases seconds <;> rfl

private theorem entry_keyTags_link_ne (c : Cache) (tags : List String) (seconds : Option ℕ)
    {k : String}
    (h : k ≠ key) :
    (c.link key tags seconds).keyTags.entry c.clock k = c.keyTags.entry c.clock k := by
  unfold link
  rw [foldl_addToTag, foldl_addKeyTag]
  cases seconds with
  | none => exact (Keyspace.entry_persist_ne _ _ h).trans (entry_addKeyTags_ne _ h)
  | some seconds => exact (Keyspace.entry_expire_ne _ _ _ h).trans (entry_addKeyTags_ne _ h)

/-- A linked key knows its tags for its lifetime. -/
private theorem holds_keyTags_link (c : Cache) (key : String) (seconds : Option ℕ) {tag : String}
    (h : tag ∈ tags) :
    (c.link key tags seconds).keyTags.Holds c.clock key tag (lifetime c.clock seconds) := by
  have hadded : (tags.foldl (fun ks tag => ks.sAdd c.clock key tag) c.keyTags).Holds c.clock key tag
      (WithTop.some c.clock) := holds_addKeyTags c.keyTags h
  unfold link
  rw [foldl_addToTag, foldl_addKeyTag]
  cases seconds with
  | none => exact hadded.persist_self
  | some seconds => exact hadded.expire_self seconds

/-- A write with tags. -/
theorem stored_link (c : Cache) (key : String) (value : CachedValue) (tags : List String)
    (seconds : Option ℕ) :
    Stored c ((c.put key value seconds).link key tags seconds) key tags seconds where
  clock := by rw [clock_link, clock_put]
  value := by
    rw [values_link]
    exact ⟨value, c.entry_put_self key value seconds⟩
  others := by
    intro k hk
    rw [values_link]
    exact c.entry_put_ne value seconds hk
  othersTags := by
    intro k hk
    have hlink := (c.put key value seconds).entry_keyTags_link_ne tags seconds hk
    rwa [clock_put, keyTags_put] at hlink
  unlinked := by
    intro tag htag
    rw [tags_link, clock_put, tags_put]
    exact entry_joinTags_ne _ htag
  linked := by
    intro tag htag
    have hown := (c.put key value seconds).holds_keyTags_link key seconds htag
    rw [clock_put] at hown
    rw [tags_link, clock_put, tags_put]
    exact ⟨holds_joinTags _ htag, hown⟩
  kept := by
    intro tag k u h hlim
    rw [tags_link, clock_put, tags_put]
    exact holds_joinTags_of_holds h hlim
  expiring := by
    rintro s rfl tag htag set hset
    rw [tags_link, clock_put, tags_put] at hset
    exact expireAt_joinTags _ htag hset

/-- A write without tags. -/
theorem stored_put (c : Cache) (key : String) (value : CachedValue) (seconds : Option ℕ) :
    Stored c (c.put key value seconds) key [] seconds where
  clock := clock_put ..
  value := ⟨value, c.entry_put_self key value seconds⟩
  others := fun _ hk => c.entry_put_ne value seconds hk
  othersTags := by simp
  unlinked := by simp
  linked := by simp
  kept := by
    intro tag k u h _
    rwa [tags_put]
  expiring := by simp

end Cache

section Writes

variable {c c' : Cache} {last : String → List String} {key : String} {tags : List String}
  {seconds : Option ℕ}

/-- The written key is indexed. -/
theorem Stored.indexedAt_self (h : Stored c c' key tags seconds) :
    c'.IndexedAt (Function.update last key tags) key := by
  intro e he tag htag
  obtain ⟨v, hv⟩ := h.value
  rw [h.clock, hv] at he
  obtain rfl := Option.some.inj he
  rw [Function.update_self] at htag
  rw [h.clock]
  exact h.linked tag htag

/-- Another key stays indexed if the write covers it. -/
theorem Stored.indexedAt_ne (h : Stored c c' key tags seconds) {k : String} (hk : k ≠ key)
    (hi : c.IndexedAt last k)
    (hc : ∀ s, seconds = some s → ∀ tag ∈ tags, ∀ set, c.tags.entry c.clock tag = some set →
      set.expireAt = ⊤ → ∀ e, c.values.entry c.clock k = some e → tag ∈ last k →
        e.expireAt ≤ Keyspace.after c.clock s) :
    c'.IndexedAt (Function.update last key tags) k := by
  intro e he tag htag
  rw [h.clock, h.others k hk] at he
  rw [Function.update_of_ne hk] at htag
  obtain ⟨hset, hown⟩ := hi e he tag htag
  rw [h.clock]
  constructor
  · apply h.kept tag k e.expireAt hset
    intro s hs hmem set hentry htop
    exact hc s hs tag hmem set hentry htop e he htag
  · obtain ⟨own, howns, hin, hexp⟩ := hown
    exact ⟨own, (h.othersTags k hk).trans howns, hin, hexp⟩

/-- Repeated tags make no difference. -/
theorem Stored.of_eraseDups (h : Stored c c' key tags.eraseDups seconds) :
    Stored c c' key tags seconds where
  clock := h.clock
  value := h.value
  others := h.others
  othersTags := h.othersTags
  unlinked := fun tag ht => h.unlinked tag fun hmem => ht (List.mem_eraseDups.mp hmem)
  linked := fun tag ht => h.linked tag (List.mem_eraseDups.mpr ht)
  kept := fun tag k u hu hlim =>
    h.kept tag k u hu fun s hs hmem => hlim s hs (List.mem_eraseDups.mp hmem)
  expiring := fun s hs tag ht => h.expiring s hs tag (List.mem_eraseDups.mpr ht)

private theorem eraseDups_eq_nil {tags : List String} (h : tags.eraseDups = []) : tags = [] := by
  rw [List.eq_nil_iff_forall_not_mem]
  intro tag ht
  have hmem := List.mem_eraseDups.mpr ht
  rw [h] at hmem
  cases hmem

/-- What was set is stored with its tags. -/
private theorem stored_setEntry (c : Cache) (entry : TaggedCacheEntry) (seconds : Option ℕ) :
    Stored c (c.setEntry seconds entry) entry.key entry.tags seconds := by
  unfold Cache.setEntry
  dsimp only
  split
  next hnil =>
    rw [eraseDups_eq_nil hnil]
    exact c.stored_put entry.key entry.value seconds
  · rw [Cache.linkEach_eq_link]
    exact (c.stored_link entry.key entry.value _ seconds).of_eraseDups

/-- A value that was set is stored with its tags. -/
private theorem stored_setWithTags (c : Cache) (key : String) (value : CachedValue)
    (tags : List String)
    {ttl : Option Int} (h : ¬ ttl.any (· ≤ 0)) :
    Stored c (c.setWithTags key value tags ttl) key tags (ttl.map Int.toNat) := by
  unfold Cache.setWithTags
  split
  next hnil =>
    subst hnil
    cases ttl with
    | none => exact c.stored_put key value none
    | some t =>
      have hpos : ¬ t ≤ 0 := by simpa using h
      unfold Cache.set
      dsimp only
      rw [if_neg hpos]
      exact c.stored_put key value (some t.toNat)
  · exact (c.stored_link key value _ _).of_eraseDups

/-- A patched value is stored with its tags. -/
private theorem stored_patchWithTags (c : Cache) (key : String) (patch : List (String × String))
    (tags : List String) {ttl : Option Int} (h : ¬ ttl.any (· ≤ 0)) :
    Stored c (c.patchWithTags key patch tags ttl) key tags (ttl.map Int.toNat) := by
  unfold Cache.patchWithTags
  dsimp only
  rw [if_neg h]
  split
  next hnil =>
    rw [eraseDups_eq_nil hnil]
    exact c.stored_put key _ _
  · rw [Cache.linkEach_eq_link]
    exact (c.stored_link key _ _ _).of_eraseDups

/-- Several writes of one time to live. Keys that are still to be written need not be indexed. -/
theorem indexed_setEntries {entries : List TaggedCacheEntry}
    (hi : ∀ k, k ∉ entries.map (·.key) → c.IndexedAt last k)
    (hc : c.Covers last (entries.map fun entry => (entry.key, entry.tags)) seconds) :
    (entries.foldl (Cache.setEntry seconds) c).Indexed
      ((entries.map fun entry => (entry.key, entry.tags)).foldl
        (fun last entry => Function.update last entry.1 entry.2) last) := by
  induction entries generalizing c last with
  | nil => exact fun k => hi k (by simp)
  | cons entry entries ih =>
    have hs := stored_setEntry c entry seconds
    rw [List.foldl_cons, List.map_cons, List.foldl_cons]
    apply ih
    · intro k hk
      by_cases hself : k = entry.key
      · subst hself
        exact hs.indexedAt_self
      · have hout : k ∉ (entry :: entries).map (·.key) := by
          rw [List.map_cons, List.mem_cons, not_or]
          exact ⟨hself, hk⟩
        apply hs.indexedAt_ne hself (hi k hout)
        intro s hs' tag htag set hset htop e he hlast
        exact hc s hs' _ (List.mem_cons_self ..) tag htag set hset htop k (by simpa using hout) e he
          hlast
    · rintro s rfl other hother tag htag set hset htop k hk e he hlast
      rw [hs.clock] at hset he ⊢
      -- A set that still has no expiry is none of the sets that this entry joined.
      have hnot : tag ∉ entry.tags := fun hmem => hs.expiring s rfl tag hmem set hset htop
      rw [hs.unlinked tag hnot] at hset
      by_cases hself : k = entry.key
      · subst hself
        obtain ⟨v, hv⟩ := hs.value
        obtain rfl := Option.some.inj (hv.symm.trans he)
        exact le_rfl
      · rw [hs.others k hself] at he
        rw [Function.update_of_ne hself] at hlast
        exact hc s rfl other (List.mem_cons_of_mem _ hother) tag htag set hset htop k
          (by simpa [hself] using hk) e he hlast

/-- What the deletion of one key does. -/
structure Discarded (c c' : Cache) (key : String) : Prop where
  clock : c'.clock = c.clock
  value : c'.values.entry c.clock key = none
  others : ∀ k, k ≠ key → c'.values.entry c.clock k = c.values.entry c.clock k
  othersTags : ∀ k, k ≠ key → c'.keyTags.entry c.clock k = c.keyTags.entry c.clock k
  kept : ∀ tag k u, k ≠ key → c.tags.Holds c.clock tag k u → c'.tags.Holds c.clock tag k u

/-- A discarded key is gone, and no other. -/
private theorem discarded_discard (c : Cache) (key : String) (tags : List String) :
    Discarded c (c.discard key tags) key where
  clock := rfl
  value := c.values.entry_del_self c.clock key
  others := fun _ hk => c.values.entry_put_ne c.clock none hk
  othersTags := fun _ hk => c.keyTags.entry_put_ne c.clock none hk
  kept := by
    intro tag k u hk h
    unfold Cache.discard
    dsimp only
    generalize c.tags = ks at h
    induction tags generalizing ks with
    | nil => exact h
    | cons t ts ih => exact ih _ (h.sRem t fun _ => hk)

/-- Deleting a value without its tags. -/
theorem discarded_del (c : Cache) (key : String) :
    Discarded c { c with values := c.values.del key } key where
  clock := rfl
  value := c.values.entry_del_self c.clock key
  others := fun _ hk => c.values.entry_put_ne c.clock none hk
  othersTags := fun _ _ => rfl
  kept := fun _ _ _ _ h => h

/-- A deletion keeps every key indexed, whatever tags its own key is said to have. -/
theorem Discarded.indexed (h : Discarded c c' key) (hi : c.Indexed last) (tags : List String) :
    c'.Indexed (Function.update last key tags) := by
  intro k e he tag htag
  rw [h.clock] at he ⊢
  by_cases hk : k = key
  · subst hk
    rw [h.value] at he
    cases he
  · rw [h.others k hk] at he
    rw [Function.update_of_ne hk] at htag
    obtain ⟨hset, own, howns, hin, hexp⟩ := hi k e he tag htag
    exact ⟨h.kept tag k _ hk hset, own, (h.othersTags k hk).trans howns, hin, hexp⟩

/-- Discarding several keys keeps the index. -/
private theorem indexed_discardAll {entries : List TaggedCacheEntry} (hi : c.Indexed last) :
    (entries.foldl (fun c entry => c.discard entry.key entry.tags.eraseDups) c).Indexed
      ((entries.map fun entry => (entry.key, entry.tags)).foldl
        (fun last entry => Function.update last entry.1 entry.2) last) := by
  induction entries generalizing c last with
  | nil => exact hi
  | cons entry entries ih =>
    exact ih ((discarded_discard c entry.key entry.tags.eraseDups).indexed hi entry.tags)

/-- A write of one key keeps every key indexed if it covers the others. -/
theorem Stored.indexed (h : Stored c c' key tags seconds) (hi : c.Indexed last)
    (hc : c.Covers last [(key, tags)] seconds) : c'.Indexed (Function.update last key tags) := by
  intro k
  by_cases hk : k = key
  · subst hk
    exact h.indexedAt_self
  · apply h.indexedAt_ne hk (hi k)
    intro s hs tag htag set hset htop e he hlast
    exact hc s hs (key, tags) (List.mem_cons_self ..) tag htag set hset htop k (by simpa using hk) e
      he hlast

/-- Setting without a lifetime discards the key. -/
private theorem discarded_setWithTags (c : Cache) (key : String) (value : CachedValue)
    (tags : List String) {ttl : Option Int} (h : ttl.any (· ≤ 0)) :
    Discarded c (c.setWithTags key value tags ttl) key := by
  cases ttl with
  | none => cases h
  | some t =>
    have hneg : t ≤ 0 := by simpa using h
    unfold Cache.setWithTags Cache.set
    simp only [hneg, if_true, Option.any_some, decide_true]
    split
    · exact discarded_del c key
    · exact discarded_discard c key _

/-- Patching without a lifetime discards the key. -/
private theorem discarded_patchWithTags (c : Cache) (key : String) (patch : List (String × String))
    (tags : List String) {ttl : Option Int} (h : ttl.any (· ≤ 0)) :
    Discarded c (c.patchWithTags key patch tags ttl) key := by
  unfold Cache.patchWithTags
  dsimp only
  rw [if_pos h]
  split
  · exact discarded_del c key
  · exact discarded_discard c key _

/-- Every write keeps every key indexed if it covers the keys that it does not write. -/
theorem Cache.Indexed.write (hi : c.Indexed last) (w : Write)
    (hc : ¬ w.ttl.any (· ≤ 0) → c.Covers last w.written (w.ttl.map Int.toNat)) :
    (c.write w).Indexed (w.record last) := by
  cases w with
  | setWithTags key value tags ttl =>
    by_cases ht : ttl.any (· ≤ 0)
    · exact (discarded_setWithTags c key value tags ht).indexed hi tags
    · exact (stored_setWithTags c key value tags ht).indexed hi (hc ht)
  | patchWithTags key patch tags ttl =>
    by_cases ht : ttl.any (· ≤ 0)
    · exact (discarded_patchWithTags c key patch tags ht).indexed hi tags
    · exact (stored_patchWithTags c key patch tags ht).indexed hi (hc ht)
  | setManyWithTags entries ttl =>
    change (c.setManyWithTags entries ttl).Indexed _
    unfold Cache.setManyWithTags
    split
    · exact indexed_discardAll hi
    next ht => exact indexed_setEntries (fun k _ => hi k) (hc ht)

/-- Time takes no key out of the sets that it is in. -/
theorem Cache.Indexed.advance (hi : c.Indexed last) (ms : ℕ) : (c.advance ms).Indexed last := by
  intro key e he tag htag
  have hnow := Keyspace.entry_mono (Nat.le_add_right c.clock ms) he
  obtain ⟨hset, hown⟩ := hi key e hnow tag htag
  have hlive := (Keyspace.entry_eq_some.mp he).2
  exact ⟨hset.mono hlive, hown.mono hlive⟩

end Writes

end Ascendance.TaggedCache
