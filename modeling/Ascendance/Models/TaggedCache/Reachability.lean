import Ascendance.Core.Transition
import Ascendance.Models.TaggedCache.Indexing

/-!
# Writes and invalidations

Writes are single steps. An invalidation takes three: it reads the tag sets, it
reads the tags of their keys, and it deletes what it has read. The last field of
the state records the tags of the last write of each key.
-/

namespace Ascendance.TaggedCache

open Ascendance.Core

/-- Where an invalidation stands. -/
inductive Invalidation where
  | idle
  | tagsRead (tags : List String) (keys : Finset String)
  | keysRead (tags : List String) (keys : Finset String) (keyTags : String → Finset String)

/-- The cache, the running invalidations, and the tags each key was last written with. -/
structure World where
  cache : Cache
  call : ℕ → Invalidation
  last : String → List String

/-- What can happen: time passes, a key is written, an invalidation takes its next round trip. -/
inductive Action where
  | advance (ms : ℕ)
  | write (w : Write)
  | fetchTags (call : ℕ) (tags : List String)
  | fetchKeyTags (call : ℕ)
  | deleteKeys (call : ℕ)
  /-- An invalidation that fails; a retry is a new one. -/
  | abandon (call : ℕ)

namespace World

/-- An empty cache. -/
def init : World := ⟨.empty, fun _ => .idle, fun _ => []⟩

/-- Put an invalidation into another state. -/
def setCall (w : World) (call : ℕ) (i : Invalidation) : World :=
  { w with call := Function.update w.call call i }

/-- The effect of an action, where it can happen. -/
def step (w : World) : Action → Option World
  | .advance ms => some { w with cache := w.cache.advance ms }
  | .write wr => some { w with cache := w.cache.write wr, last := wr.record w.last }
  | .fetchTags call tags =>
    match w.call call with
    | .idle =>
      if tags = [] then some w else some (w.setCall call (.tagsRead tags (w.cache.keysOfTags tags)))
    | _ => none
  | .fetchKeyTags call =>
    match w.call call with
    | .tagsRead tags keys => some (w.setCall call (.keysRead tags keys w.cache.tagsOfKeys))
    | _ => none
  | .deleteKeys call =>
    match w.call call with
    | .keysRead tags keys keyTags =>
      some { w.setCall call .idle with cache := w.cache.deleteKeys tags keys keyTags }
    | _ => none
  | .abandon call => some (w.setCall call .idle)

end World

/-- A write with time to live gives no tag set without expiry one that a live member outlives. -/
def Covered (w : World) : Action → Prop
  | .write wr => ¬ wr.ttl.any (· ≤ 0) → w.cache.Covers w.last wr.written (wr.ttl.map Int.toNat)
  | _ => True

/-- A deletion has read every live key that carries one of its tags. -/
def Listed (w : World) : Action → Prop
  | .deleteKeys call => ∀ tags keys keyTags, w.call call = .keysRead tags keys keyTags →
      ∀ tag ∈ tags, ∀ key e, w.cache.values.entry w.cache.clock key = some e → tag ∈ w.last key →
        key ∈ keys
  | _ => True

/-- The action belongs to no invalidation. -/
def Writing : Action → Prop
  | .advance _ | .write _ => True
  | _ => False

section Deletions

variable {c : Cache} {last : String → List String} {tags : List String} {keys : Finset String}
  {keyTags : String → Finset String}

/-- A deletion keeps the keys indexed exactly when it has read every live key that
carries one of its tags. -/
theorem indexed_deleteKeys_iff (hi : c.Indexed last) :
    (c.deleteKeys tags keys keyTags).Indexed last ↔
      ∀ tag ∈ tags, ∀ key e, c.values.entry c.clock key = some e → tag ∈ last key → key ∈ keys := by
  constructor
  · intro h tag htag key e he hlast
    by_contra hkey
    have hlive : (c.deleteKeys tags keys keyTags).values.entry c.clock key = some e := by
      change (c.values.delMany keys).entry c.clock key = some e
      rw [Keyspace.entry_delMany, if_neg hkey]
      exact he
    obtain ⟨⟨set, hset, -⟩, -⟩ := h key e hlive tag hlast
    change (Keyspace.delMany _ tags.toFinset).entry c.clock tag = some set at hset
    rw [Keyspace.entry_delMany, if_pos (List.mem_toFinset.mpr htag)] at hset
    cases hset
  · intro hall key e he tag hlast
    change (c.values.delMany keys).entry c.clock key = some e at he
    rw [Keyspace.entry_delMany] at he
    split at he
    · cases he
    next hkey =>
    have htag : tag ∉ tags := fun hmem => hkey (hall tag hmem key e he hlast)
    obtain ⟨hset, hown⟩ := hi key e he tag hlast
    refine ⟨(hset.sRemMany ?_).delMany (by simpa using htag), hown.delMany hkey⟩
    rw [if_neg htag, Finset.mem_filter]
    exact fun hmem => hkey hmem.1

/-- An invalidation on its own deletes every key that the set of one of its tags lists. -/
theorem invalidateByTags_deletes {tag key : String} (htag : tag ∈ tags)
    (hkey : key ∈ c.tags.sMembers c.clock tag) :
    (c.invalidateByTags tags).values.entry c.clock key = none := by
  have hkeys : key ∈ c.keysOfTags tags :=
    Finset.mem_biUnion.mpr ⟨tag, List.mem_toFinset.mpr htag, hkey⟩
  unfold Cache.invalidateByTags
  rw [if_neg (List.ne_nil_of_mem htag)]
  change (c.values.delMany _).entry c.clock key = none
  rw [Keyspace.entry_delMany, if_pos hkeys]

end Deletions

section Runs

variable {w w' : World} {a : Action}

/-- The three steps of an invalidation with nothing in between. -/
theorem exec_invalidation {call : ℕ} (hc : w.call call = .idle) {tags : List String}
    (htags : tags ≠ []) :
    ∃ w', exec World.step w [.fetchTags call tags, .fetchKeyTags call, .deleteKeys call] = some w' ∧
      w'.cache = w.cache.invalidateByTags tags := by
  let fetched := w.setCall call (.tagsRead tags (w.cache.keysOfTags tags))
  let read := fetched.setCall call (.keysRead tags (w.cache.keysOfTags tags) w.cache.tagsOfKeys)
  refine ⟨{ read.setCall call .idle with cache := w.cache.invalidateByTags tags }, ?_, rfl⟩
  have hfirst : w.step (.fetchTags call tags) = some fetched := by
    simp only [World.step, hc, htags, if_false]
    rfl
  have hsecond : fetched.step (.fetchKeyTags call) = some read := by
    simp [World.step, fetched, read, World.setCall]
  have hthird : read.step (.deleteKeys call) =
      some { read.setCall call .idle with cache := w.cache.invalidateByTags tags } := by
    simp [World.step, fetched, read, World.setCall, Cache.invalidateByTags, htags]
  simp only [exec, hfirst, hsecond, hthird, Option.bind_some]

/-- An action whose tags live long enough and whose listing is complete keeps the index. -/
theorem indexed_step (hi : w.cache.Indexed w.last) (hcovered : Covered w a) (hlisted : Listed w a)
    (hs : w.step a = some w') : w'.cache.Indexed w'.last := by
  cases a with
  | advance ms =>
    obtain rfl := Option.some.inj hs
    exact hi.advance ms
  | write wr =>
    obtain rfl := Option.some.inj hs
    exact hi.write wr hcovered
  | fetchTags call tags =>
    simp only [World.step] at hs
    split at hs
    · split at hs <;> obtain rfl := Option.some.inj hs <;> exact hi
    · cases hs
  | fetchKeyTags call =>
    simp only [World.step] at hs
    split at hs
    · obtain rfl := Option.some.inj hs
      exact hi
    · cases hs
  | deleteKeys call =>
    simp only [World.step] at hs
    split at hs
    next tags keys keyTags hc =>
      obtain rfl := Option.some.inj hs
      exact (indexed_deleteKeys_iff hi).mpr (hlisted tags keys keyTags hc)
    · cases hs
  | abandon call =>
    obtain rfl := Option.some.inj hs
    exact hi

/-- The empty cache is indexed. -/
theorem indexed_init : World.init.cache.Indexed World.init.last := by
  intro key e he
  cases he

/-- Every state of a run without uncovered writes and unlisted deletions is indexed. -/
theorem indexed_run {as : List Action}
    (h : Run (Restrict (Graph World.step) fun w a => Covered w a ∧ Listed w a) .init as w) :
    w.cache.Indexed w.last :=
  h.invariant (I := fun w => w.cache.Indexed w.last)
    (fun _ _ _ hi hs => indexed_step hi hs.1.1 hs.1.2 hs.2) indexed_init

/-- In every run of covered writes, a live key is in the set of every tag of its last
write, the tag is among its own, and neither set expires before the key. -/
theorem taggedCache_reachable {as : List Action}
    (hrun : Run (Restrict (Graph World.step) fun w a => Covered w a ∧ Writing a) .init as w)
    {key : String} {e : Entry CachedValue}
    (hlive : w.cache.values.entry w.cache.clock key = some e) {tag : String}
    (htag : tag ∈ w.last key) :
    key ∈ w.cache.tags.sMembers w.cache.clock tag ∧
    tag ∈ w.cache.keyTags.sMembers w.cache.clock key ∧
    (∃ set, w.cache.tags.entry w.cache.clock tag = some set ∧ e.expireAt ≤ set.expireAt) ∧
    (∃ own, w.cache.keyTags.entry w.cache.clock key = some own ∧ e.expireAt ≤ own.expireAt) := by
  have hlisted : ∀ (w : World) (a : Action), Writing a → Listed w a := by
    intro w a ha
    cases a with
    | deleteKeys call => cases ha
    | _ => trivial
  have hi : w.cache.Indexed w.last :=
    indexed_run (hrun.mono fun u a v hs => ⟨⟨hs.1.1, hlisted u a hs.1.2⟩, hs.2⟩)
  obtain ⟨hset, hown⟩ := hi key e hlive tag htag
  refine ⟨hset.mem_sMembers, hown.mem_sMembers, ?_, ?_⟩
  · obtain ⟨set, hentry, -, hexp⟩ := hset
    exact ⟨set, hentry, hexp⟩
  · obtain ⟨own, hentry, -, hexp⟩ := hown
    exact ⟨own, hentry, hexp⟩

/-- In every run of covered writes and listed deletions, a live key is in the set of
every tag of its last write, so an invalidation of that tag on its own deletes it. -/
theorem invalidateByTags_complete {as : List Action}
    (hrun : Run (Restrict (Graph World.step) fun w a => Covered w a ∧ Listed w a) .init as w)
    {key : String} {e : Entry CachedValue}
    (hlive : w.cache.values.entry w.cache.clock key = some e) {tag : String}
    (htag : tag ∈ w.last key) :
    key ∈ w.cache.tags.sMembers w.cache.clock tag ∧
    ∀ call, w.call call = .idle → ∃ w',
      exec World.step w [.fetchTags call [tag], .fetchKeyTags call, .deleteKeys call] = some w' ∧
        w'.cache.values.entry w'.cache.clock key = none := by
  have hmem := ((indexed_run hrun) key e hlive tag htag).1.mem_sMembers
  refine ⟨hmem, ?_⟩
  intro call hc
  obtain ⟨w', hexec, hcache⟩ := exec_invalidation hc (List.cons_ne_nil tag [])
  refine ⟨w', hexec, ?_⟩
  rw [hcache]
  exact invalidateByTags_deletes (List.mem_singleton_self tag) hmem

end Runs

/-- A write of a value. -/
def setKey (key : String) (tags : List String) (ttl : Option Int) : Action :=
  .write (.setWithTags key (.other key) tags ttl)

/-- The first write of all is covered, with or without time to live. -/
theorem covered_init (key : String) (tags : List String) (ttl : Option Int) :
    Covered .init (setKey key tags ttl) := by
  intro _ s _ entry _ tag _ set hset
  cases hset

/-- A key that was written is in the set of its tag. -/
theorem taggedCache_reachable_written : ∃ w,
    exec World.step .init [setKey "a" ["t"] (some 10), .advance 9000] = some w ∧
      "a" ∈ w.cache.tags.sMembers w.cache.clock "t" := by
  refine ⟨_, rfl, ?_⟩
  have hwrite : Restrict (Graph World.step) (fun w a => Covered w a ∧ Writing a) .init
      (setKey "a" ["t"] (some 10)) _ := ⟨⟨covered_init "a" ["t"] (some 10), trivial⟩, rfl⟩
  have hadvance : ∀ w : World, Restrict (Graph World.step) (fun w a => Covered w a ∧ Writing a) w
      (.advance 9000) { w with cache := w.cache.advance 9000 } :=
    fun w => ⟨⟨trivial, trivial⟩, rfl⟩
  exact (taggedCache_reachable ((Run.single hwrite).snoc (hadvance _)) rfl
    (List.mem_singleton_self "t")).1

/-- A set without expiry is given one, and its first member outlives it. -/
theorem taggedCache_unreachable : ∃ w,
    exec World.step .init [setKey "a" ["t"] none, setKey "b" ["t"] (some 10), .advance 10001] =
        some w ∧
      w.cache.values.get w.cache.clock "a" = some (.other "a") ∧ w.last "a" = ["t"] ∧
      "a" ∉ w.cache.tags.sMembers w.cache.clock "t" := by
  refine ⟨_, rfl, rfl, rfl, ?_⟩
  decide

/-- A key that was written is gone after its tag is invalidated. -/
theorem invalidateByTags_complete_written : ∃ w,
    exec World.step .init [setKey "a" ["t"] (some 10)] = some w ∧
      ∃ w', exec World.step w [.fetchTags 0 ["t"], .fetchKeyTags 0, .deleteKeys 0] = some w' ∧
        w'.cache.values.entry w'.cache.clock "a" = none := by
  refine ⟨_, rfl, ?_⟩
  have hwrite : Restrict (Graph World.step) (fun w a => Covered w a ∧ Listed w a) .init
      (setKey "a" ["t"] (some 10)) _ := ⟨⟨covered_init "a" ["t"] (some 10), trivial⟩, rfl⟩
  exact (invalidateByTags_complete (Run.single hwrite) rfl (List.mem_singleton_self "t")).2 0 rfl

/-- A write between the reads and the deletion of an invalidation loses its set, and
no later invalidation finds its key. -/
theorem invalidateByTags_misses : ∃ w,
    exec World.step .init [setKey "a" ["t"] (some 10), .fetchTags 0 ["t"], .fetchKeyTags 0,
      setKey "b" ["t"] (some 10), .deleteKeys 0] = some w ∧
      w.last "b" = ["t"] ∧ "b" ∉ w.cache.tags.sMembers w.cache.clock "t" ∧
      ∃ w', exec World.step w [.fetchTags 1 ["t"], .fetchKeyTags 1, .deleteKeys 1] = some w' ∧
        w'.cache.values.get w'.cache.clock "b" = some (.other "b") := by
  refine ⟨_, rfl, rfl, ?_, _, rfl, rfl⟩
  decide

end Ascendance.TaggedCache
