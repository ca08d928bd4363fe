import Ascendance.Core.Keyspace
import Mathlib.Data.Finset.Union

/-!
# The tagged cache in Redis

A cached value is stored under its own key, the keys of a tag in the set
`tag:<tag>` and the tags of a key in the set `key_tags:<key>`. The keys of the
cache start with neither of these, so the three families stay apart and
`ensureSetKey` finds nothing but sets. Every write is one transaction.
-/

namespace Ascendance.TaggedCache

open Ascendance.Core

/-- A cached text as Lua decodes it: a table with the texts of its fields, or anything else. -/
inductive CachedValue where
  | table (fields : List (String × String))
  | other (text : String)
  deriving DecidableEq, Repr

/-- The fields of a table; another value is replaced. -/
def CachedValue.fields : Option CachedValue → List (String × String)
  | some (.table fields) => fields
  | _ => []

/-- The value of a key after a patch of some fields. -/
def CachedValue.patch (raw : Option CachedValue) (patch : List (String × String)) : CachedValue :=
  .table (patch ++ (CachedValue.fields raw).filter fun field => field.1 ∉ patch.map (·.1))

/-- An entry of a bulk write. -/
structure TaggedCacheEntry where
  key : String
  value : CachedValue
  tags : List String
  deriving DecidableEq, Repr

/-- The values, the keys of each tag and the tags of each key. -/
structure Cache where
  clock : ℕ
  values : Keyspace String CachedValue
  tags : Keyspace String (Finset String)
  keyTags : Keyspace String (Finset String)

/-- When a value expires that is stored with or without seconds to live. -/
def lifetime (clock : ℕ) (seconds : Option ℕ) : WithTop ℕ := seconds.elim ⊤ (Keyspace.after clock)

/-- `SADD` to a tag set, with an expiry that covers the key. -/
def joinTag (clock : ℕ) (key : String) (seconds : Option ℕ) (tags : Keyspace String (Finset String))
    (tag : String) : Keyspace String (Finset String) :=
  match seconds with
  | some seconds => tags.sAddGt clock tag key seconds
  | none => (tags.sAdd clock tag key).persist clock tag

namespace Cache

/-- A cache without keys. -/
def empty : Cache := ⟨0, .empty, .empty, .empty⟩

/-- `SET`, with `EX` or without. -/
def put (c : Cache) (key : String) (value : CachedValue) : Option ℕ → Cache
  | some seconds => { c with values := c.values.setEx c.clock key seconds value }
  | none => { c with values := c.values.set key value }

/-- The key joins a tag set: `EXPIRE` with `NX` and with `GT`, or `PERSIST`. -/
def addToTag (c : Cache) (key : String) (seconds : Option ℕ) (tag : String) : Cache :=
  { c with tags := joinTag c.clock key seconds c.tags tag }

/-- Note a tag of a key. -/
def addKeyTag (c : Cache) (key tag : String) : Cache :=
  { c with keyTags := c.keyTags.sAdd c.clock key tag }

/-- `EXPIRE` or `PERSIST` of the tags of a key. -/
def expireKeyTags (c : Cache) (key : String) : Option ℕ → Cache
  | some seconds => { c with keyTags := c.keyTags.expire c.clock key seconds }
  | none => { c with keyTags := c.keyTags.persist c.clock key }

/-- The two loops of `setWithTags`. -/
def link (c : Cache) (key : String) (tags : List String) (seconds : Option ℕ) : Cache :=
  (tags.foldl (fun c tag => c.addKeyTag key tag)
    (tags.foldl (fun c tag => c.addToTag key seconds tag) c)).expireKeyTags key seconds

/-- The one loop of `patchWithTags` and `setManyWithTags`. -/
def linkEach (c : Cache) (key : String) (tags : List String) (seconds : Option ℕ) : Cache :=
  (tags.foldl (fun c tag => (c.addToTag key seconds tag).addKeyTag key tag) c).expireKeyTags key
    seconds

/-- The deletion of a key that a write without time to live makes. -/
def discard (c : Cache) (key : String) (tags : List String) : Cache :=
  { c with
    values := c.values.del key
    keyTags := c.keyTags.del key
    tags := tags.foldl (fun ks tag => ks.sRem c.clock tag key) c.tags }

/-- `set` of the JSON cache. -/
def set (c : Cache) (key : String) (value : CachedValue) : Option Int → Cache
  | some ttl =>
    if ttl ≤ 0 then { c with values := c.values.del key } else c.put key value (some ttl.toNat)
  | none => c.put key value none

/-- Write a value and index it under its tags. -/
def setWithTags (c : Cache) (key : String) (value : CachedValue) (tags : List String)
    (ttl : Option Int) : Cache :=
  if tags = [] then c.set key value ttl
  else
    let uniqueTags := tags.eraseDups
    if ttl.any (· ≤ 0) then c.discard key uniqueTags
    else (c.put key value (ttl.map Int.toNat)).link key uniqueTags (ttl.map Int.toNat)

/-- `PATCH_WITH_TAGS_SCRIPT`. -/
def patchWithTags (c : Cache) (key : String) (patch : List (String × String)) (tags : List String)
    (ttl : Option Int) : Cache :=
  let uniqueTags := tags.eraseDups
  if ttl.any (· ≤ 0) then
    if uniqueTags = [] then { c with values := c.values.del key } else c.discard key uniqueTags
  else
    let c' := c.put key (.patch (c.values.get c.clock key) patch) (ttl.map Int.toNat)
    if uniqueTags = [] then c' else c'.linkEach key uniqueTags (ttl.map Int.toNat)

/-- One entry of `setManyWithTags`. -/
def setEntry (seconds : Option ℕ) (c : Cache) (entry : TaggedCacheEntry) : Cache :=
  let uniqueTags := entry.tags.eraseDups
  let c' := c.put entry.key entry.value seconds
  if uniqueTags = [] then c' else c'.linkEach entry.key uniqueTags seconds

/-- Write several values and index each under its tags. -/
def setManyWithTags (c : Cache) (entries : List TaggedCacheEntry) (ttl : Option Int) : Cache :=
  if ttl.any (· ≤ 0) then
    entries.foldl (fun c entry => c.discard entry.key entry.tags.eraseDups) c
  else entries.foldl (setEntry (ttl.map Int.toNat)) c

end Cache

/-- The writes of the cache. -/
inductive Write where
  | setWithTags (key : String) (value : CachedValue) (tags : List String) (ttl : Option Int)
  | patchWithTags (key : String) (patch : List (String × String)) (tags : List String)
      (ttl : Option Int)
  | setManyWithTags (entries : List TaggedCacheEntry) (ttl : Option Int)
  deriving DecidableEq, Repr

namespace Write

/-- The time to live that a write asks for. -/
def ttl : Write → Option Int
  | setWithTags _ _ _ ttl | patchWithTags _ _ _ ttl | setManyWithTags _ ttl => ttl

/-- The keys that a write writes, each with its tags. -/
def written : Write → List (String × List String)
  | setWithTags key _ tags _ | patchWithTags key _ tags _ => [(key, tags)]
  | setManyWithTags entries _ => entries.map fun entry => (entry.key, entry.tags)

/-- The tags of the last write of each key, after this one. -/
def record (last : String → List String) (w : Write) : String → List String :=
  w.written.foldl (fun last entry => Function.update last entry.1 entry.2) last

end Write

namespace Cache

/-- The cache after a write. -/
def write (c : Cache) : Write → Cache
  | .setWithTags key value tags ttl => c.setWithTags key value tags ttl
  | .patchWithTags key patch tags ttl => c.patchWithTags key patch tags ttl
  | .setManyWithTags entries ttl => c.setManyWithTags entries ttl

/-- The first round trip: the members of the tag sets. -/
def keysOfTags (c : Cache) (tags : List String) : Finset String :=
  tags.toFinset.biUnion (c.tags.sMembers c.clock)

/-- The second round trip: the tags of the keys. -/
def tagsOfKeys (c : Cache) (key : String) : Finset String := c.keyTags.sMembers c.clock key

/-- The third round trip: the keys leave their other tags and are deleted with their
tags, and so are the requested tag sets. -/
def deleteKeys (c : Cache) (tags : List String) (keys : Finset String)
    (keyTags : String → Finset String) : Cache :=
  { c with
    values := c.values.delMany keys
    keyTags := c.keyTags.delMany keys
    tags := (c.tags.sRemMany c.clock fun tag =>
      if tag ∈ tags then ∅ else keys.filter fun key => tag ∈ keyTags key).delMany tags.toFinset }

/-- An invalidation without anything in between. -/
def invalidateByTags (c : Cache) (tags : List String) : Cache :=
  if tags = [] then c else c.deleteKeys tags (c.keysOfTags tags) c.tagsOfKeys

/-- Time passes. -/
def advance (c : Cache) (ms : ℕ) : Cache := { c with clock := c.clock + ms }

end Cache

end Ascendance.TaggedCache
