import Ascendance.Models.ForensicArchive.Bundle

/-!
# What verification accepts

A bundle that is built is accepted when it is read back. A bundle that is accepted
for a day and a hash of records has the records with that hash, their chain, and
the manifest that goes with them; what it has besides is not looked at.
-/

namespace Ascendance.ForensicArchive

open Ascendance.Core

/-- A record as it is archived: an object with the identifier of its event. -/
structure RecordOk (r : Value) : Prop where
  wellFormed : r.WellFormed
  shape : ∃ entries e, r = .object entries ∧ (entries.map (·.1)).Nodup ∧
    entries.lookup "eventId" = some (.string e)

/-- Normalizing lists no key twice. -/
private theorem normalized_nodup {entries : List (String × Value)} (h : (entries.map (·.1)).Nodup) :
    ((enumerate ((entries.map fun e => (e.1, normalizeForJson e.2)).filter fun e =>
      !e.2.isUndefined)).map (·.1)).Nodup := by
  refine ((enumerate_perm _).map _).nodup_iff.mpr ?_
  refine List.Nodup.sublist (List.filter_sublist.map _) ?_
  rw [List.map_map]
  exact h

/-- A normalized value is well formed. -/
private theorem wellFormed_normalizeForJson {v : Value} (hv : v.WellFormed) :
    (normalizeForJson v).WellFormed := by
  induction v using Data.induct with
  | leaf l => exact .leaf _
  | array items ih =>
    cases hv with
    | array hitems =>
      rw [normalizeForJson, normalizeItems_eq]
      refine .array fun t ht => ?_
      obtain ⟨v, hmem, rfl⟩ := List.mem_map.mp ht
      exact ih v hmem (hitems v hmem)
  | object entries ih =>
    cases hv with
    | object hnodup hentries =>
      rw [normalizeForJson_object]
      refine .object (normalized_nodup hnodup) fun e he => ?_
      have hmem := (List.mem_filter.mp ((enumerate_perm _).mem_iff.mp he)).1
      obtain ⟨e', he', rfl⟩ := List.mem_map.mp hmem
      exact ih e' he' (hentries e' he')

/-- A normalized record is in order. -/
private theorem recordOk_normalize (r : ForensicRecord) :
    RecordOk (normalizeForJson (.object r.entries)) := by
  have hnodup : (r.entries.map (·.1)).Nodup := by
    cases r.wellFormed with
    | object hnodup _ => exact hnodup
  refine ⟨wellFormed_normalizeForJson r.wellFormed, _, r.eventId, normalizeForJson_object _,
    normalized_nodup hnodup, ?_⟩
  rw [lookup_eq_some_iff (normalized_nodup hnodup), (enumerate_perm _).mem_iff]
  have hmem := (lookup_eq_some_iff hnodup).mp r.eventId_eq
  exact List.mem_filter.mpr ⟨List.mem_map.mpr ⟨_, hmem, rfl⟩, rfl⟩

/-- The canonical records have what the verifier reads. -/
theorem canonicalRecords_ok (records : List ForensicRecord) :
    ∀ r ∈ canonicalRecords records, RecordOk r := by
  intro r hr
  obtain ⟨record, -, rfl⟩ := List.mem_map.mp hr
  exact recordOk_normalize record

/-- Records are ordered by their time and then by their identifier. -/
private theorem compareRecords_le {left right : ForensicRecord} :
    compareRecords left right ≤ 0 ↔
      toLex (left.recordedAt, utf16 left.eventId) ≤
        toLex (right.recordedAt, utf16 right.eventId) := by
  rw [Prod.Lex.toLex_le_toLex]
  unfold compareRecords
  dsimp only
  split
  · next h => constructor <;> intro h' <;> omega
  · next h =>
    rw [compareStrings_le]
    constructor
    · exact fun hle => .inr ⟨by omega, hle⟩
    · rintro (hlt | ⟨-, hle⟩)
      · omega
      · exact hle

/-- The order in which records are read is nothing to the archive. -/
theorem canonicalRecords_perm {records records' : List ForensicRecord}
    (hdistinct : (records.map fun r => (r.recordedAt, r.eventId)).Nodup)
    (hperm : records.Perm records') : canonicalRecords records' = canonicalRecords records := by
  let key : ForensicRecord → ℤ ×ₗ List ℕ := fun r => toLex (r.recordedAt, utf16 r.eventId)
  have hsort : ∀ l : List ForensicRecord,
      l.insertionSort (fun left right => compareRecords left right ≤ 0) = sortBy key l := by
    intro l
    have h := List.map_insertionSort (fun a b => compareRecords a b ≤ 0)
      (fun a b => key a ≤ key b) id l fun a _ b _ => compareRecords_le
    rw [List.map_id, List.map_id] at h
    exact h
  have hkeys : records.Pairwise fun a b => key a ≠ key b := by
    refine (List.pairwise_map.mp hdistinct).imp fun hne heq => hne ?_
    obtain ⟨htime, hid⟩ := Prod.mk.inj (toLex.injective heq)
    exact Prod.ext htime (utf16_injective hid)
  have hkeys' : records'.Pairwise fun a b => key a ≠ key b :=
    hperm.pairwise hkeys fun h => Ne.symm h
  unfold canonicalRecords
  rw [hsort, hsort]
  refine congrArg (List.map _) (List.Perm.eq_of_pairwise ?_ (sortBy_strict hkeys')
    (sortBy_strict hkeys) ?_)
  · exact fun a b _ _ hab hba => absurd hba (lt_asymm hab)
  · exact (sortBy_perm key records').trans (hperm.symm.trans (sortBy_perm key records).symm)

private theorem lookup_optionalProperty (k k' : String) (s : Option String) :
    (optionalProperty k s).lookup k' = if k' = k then s.map Data.string else none := by
  cases s with
  | none => simp [optionalProperty]
  | some s =>
    simp only [optionalProperty, Option.map_some, Option.toList_some, List.lookup_cons,
      List.lookup_nil]
    by_cases h : k' = k
    · simp [h]
    · simp [h, beq_eq_false_iff_ne.mpr h]

section Hashing

variable {Text : Type*} (stringify : Json → Text) (sha256 : Text → String)

/-- The checked fields of a manifest, and what they are for some records. -/
def fields (date : String) (start stop : ℤ) (records : List Value) : List (String × Value) :=
  let events := buildEvents stringify sha256 GENESIS_HASH records
  let optional : Option String → Value := fun s => (s.map .string).getD .undefined
  [("version", .number ARCHIVE_VERSION), ("archiveType", .string ARCHIVE_TYPE),
    ("date", .string date), ("windowStart", .string (toISOString start)),
    ("windowEnd", .string (toISOString stop)), ("eventCount", .number events.length),
    ("firstEventId", optional (events.head?.bind fun event => eventIdOf event.record)),
    ("lastEventId", optional (events.getLast?.bind fun event => eventIdOf event.record)),
    ("firstEventHash", optional (events.head?.map (·.eventHash))),
    ("finalEventHash", .string ((events.getLast?.map (·.eventHash)).getD GENESIS_HASH)),
    ("recordsSha256", .string (stableHash stringify sha256 (.array records)))]

/-- The manifest has the listed fields. -/
private theorem buildManifest_fields (date : String) (start stop createdAt : ℤ)
    (records : List Value) :
    ∀ f ∈ fields stringify sha256 date start stop records,
      (buildManifest stringify sha256 date start stop createdAt records).getOptional f.1 = f.2 := by
  intro f hf
  simp only [fields, List.mem_cons, List.not_mem_nil, or_false] at hf
  rcases hf with rfl | rfl | rfl | rfl | rfl | rfl | rfl | rfl | rfl | rfl | rfl
  all_goals
    simp only [buildManifest, Data.getOptional_object, List.lookup_append,
      lookup_optionalProperty, List.lookup_cons]
    simp

/-- The manifest names the order of the records. -/
theorem buildManifest_ordering (date : String) (start stop createdAt : ℤ) (records : List Value) :
    (buildManifest stringify sha256 date start stop createdAt records).getOptional "ordering" =
      .array [.string "recordedAt", .string "eventId"] := by
  simp only [buildManifest, Data.getOptional_object, List.lookup_append, lookup_optionalProperty,
    List.lookup_cons]
  simp

/-- The hash of an event is that of the canonical JSON of its record. -/
theorem eventHash_congr {r r' : Value} (h : canonical r' = canonical r) (previousHash : String) :
    eventHash stringify sha256 r' previousHash = eventHash stringify sha256 r previousHash := by
  unfold eventHash stableHash canonicalItem
  rw [canonical_object, canonical_object]
  simp only [List.filterMap_cons, h]

/-- The records as they are read back. -/
theorem readBack_record {r : Value} (h : RecordOk r) :
    canonical (readBack r) = canonical r ∧ r.isUndefined = false ∧
      ∃ e, eventIdOf r = some e ∧ (readBack r).get "eventId" = .ok (.string e) := by
  refine ⟨canonical_readBack h.wellFormed, ?_⟩
  obtain ⟨entries, e, rfl, hnodup, hlookup⟩ := h.shape
  refine ⟨rfl, e, ?_, ?_⟩
  · rw [eventIdOf, Data.getOptional_object, hlookup]
    rfl
  · have hget := readBack_getOptional hnodup "eventId"
    rw [hlookup] at hget
    rw [readBack, canonical_object, Option.elim_some, ofJson, Data.map_object] at hget ⊢
    exact congrArg Except.ok hget

/-- The properties of an event are distinct. -/
theorem event_nodup (event : ForensicArchiveEvent) :
    ((([("record", event.record), ("previousHash", .string event.previousHash),
      ("eventHash", .string event.eventHash)] : List (String × Value))).map (·.1)).Nodup := by
  simp

/-- The parts of an event as it is read back. -/
theorem readBack_event (event : ForensicArchiveEvent) :
    (readBack event.toValue).getOptional "record" = readBack event.record ∧
      (readBack event.toValue).getOptional "previousHash" = .string event.previousHash ∧
      (readBack event.toValue).getOptional "eventHash" = .string event.eventHash ∧
      ((readBack event.toValue).get "record") = .ok (readBack event.record) := by
  have hget := readBack_getOptional (event_nodup event)
  have hrecord : (readBack event.toValue).getOptional "record" = readBack event.record :=
    hget "record"
  refine ⟨hrecord, hget "previousHash", hget "eventHash", ?_⟩
  rw [ForensicArchiveEvent.toValue, readBack, canonical_object, Option.elim_some, ofJson,
    Data.map_object] at hrecord ⊢
  exact congrArg Except.ok hrecord

/-- The hash that a chain ends with. -/
def lastHash (previousHash : String) (events : List ForensicArchiveEvent) : String :=
  (events.getLast?.map (·.eventHash)).getD previousHash

/-- The last hash of a chain is that of its remainder. -/
theorem lastHash_cons (previousHash : String) (event : ForensicArchiveEvent)
    (events : List ForensicArchiveEvent) :
    lastHash previousHash (event :: events) = lastHash event.eventHash events := by
  unfold lastHash
  rw [List.getLast?_cons]
  cases events.getLast? <;> rfl

/-- The chain that was built is accepted. -/
private theorem verifyChain_built (date previousHash : String) {records : List Value}
    (hok : ∀ r ∈ records, RecordOk r) :
    verifyChain stringify sha256 date previousHash
        ((buildEvents stringify sha256 previousHash records).map fun e => readBack e.toValue) =
      .ok (lastHash previousHash (buildEvents stringify sha256 previousHash records)) := by
  induction records generalizing previousHash with
  | nil => rfl
  | cons r records ih =>
    obtain ⟨hrecord, hprevious, hhash, -⟩ := readBack_event
      ⟨r, previousHash, eventHash stringify sha256 r previousHash⟩
    have hcanonical := (readBack_record (hok r List.mem_cons_self)).1
    rw [buildEvents, lastHash_cons, List.map_cons, verifyChain, hrecord, hprevious, hhash,
      eventHash_congr stringify sha256 hcanonical]
    simp only [Data.isString_iff.mpr, Bool.and_self, if_true]
    exact ih _ fun r' hr' => hok r' (List.mem_cons_of_mem r hr')

private theorem optionalProperty_wellFormed {k : String} {s : Option String} :
    ∀ e ∈ optionalProperty k s, e.2.WellFormed := by
  intro e he
  cases s with
  | none => cases he
  | some s =>
    obtain rfl := List.mem_singleton.mp he
    exact .leaf _

/-- The names of a manifest are distinct. -/
theorem buildManifest_shape (date : String) (start stop createdAt : ℤ) (records : List Value) :
    ∃ entries, buildManifest stringify sha256 date start stop createdAt records = .object entries ∧
      (entries.map (·.1)).Nodup ∧ ∀ e ∈ entries, e.2.WellFormed := by
  refine ⟨_, rfl, ?_, ?_⟩
  swap
  · intro e he
    simp only [List.mem_append, List.mem_cons, List.not_mem_nil, or_false] at he
    obtain (((hmem | hmem) | hmem) | hmem) | hmem := he
    · rcases hmem with rfl | rfl | rfl | rfl | rfl | rfl | rfl | rfl
      case inr.inr.inr.inr.inr.inl =>
        refine .array fun v hv => ?_
        simp only [List.mem_cons, List.not_mem_nil, or_false] at hv
        rcases hv with rfl | rfl <;> exact .leaf _
      all_goals exact .leaf _
    · exact optionalProperty_wellFormed e hmem
    · exact optionalProperty_wellFormed e hmem
    · exact optionalProperty_wellFormed e hmem
    · rcases hmem with rfl | rfl <;> exact .leaf _
  have hkeys : ∀ k (s : Option String),
      ((optionalProperty k s).map (·.1)).Sublist [k] := by
    intro k s
    cases s with
    | none => exact List.nil_sublist _
    | some s => exact List.Sublist.refl _
  simp only [List.map_append]
  refine List.Nodup.sublist
    (((((List.Sublist.refl _).append (hkeys _ _)).append (hkeys _ _)).append (hkeys _ _)).append
      (List.Sublist.refl _)) ?_
  simp only [List.map_cons, List.map_nil]
  decide

/-- A property of the manifest that was read back is the property read back. -/
private theorem readBack_manifest (date : String) (start stop createdAt : ℤ) (records : List Value)
    (k : String) :
    (readBack (buildManifest stringify sha256 date start stop createdAt records)).getOptional k =
      readBack
        ((buildManifest stringify sha256 date start stop createdAt records).getOptional k) := by
  obtain ⟨entries, hmanifest, hnodup, -⟩ :=
    buildManifest_shape stringify sha256 date start stop createdAt records
  rw [hmanifest]
  exact readBack_getOptional hnodup k

private theorem readBack_optional (s : Option String) :
    (readBack ((s.map Data.string).getD .undefined)).isStringOr s = true := by
  cases s with
  | none => rfl
  | some s => exact Data.isString_iff.mpr rfl

/-- The chain holds the records in their order. -/
theorem buildEvents_records (previousHash : String) (records : List Value) :
    (buildEvents stringify sha256 previousHash records).map (·.record) = records := by
  induction records generalizing previousHash with
  | nil => rfl
  | cons r records ih => rw [buildEvents, List.map_cons, ih]

private theorem mapM_ok {α β : Type} {f : α → Except String β} {g : α → β} {l : List α}
    (h : ∀ a ∈ l, f a = .ok (g a)) : l.mapM f = .ok (l.map g) := by
  induction l with
  | nil => rfl
  | cons a l ih =>
    rw [List.mapM_cons, h a List.mem_cons_self, ih fun b hb => h b (List.mem_cons_of_mem a hb)]
    rfl

/-- The manifest and the events of a bundle that was read back. -/
private theorem buildBundle_parts (date : String) (start stop createdAt : ℤ)
    (records : List Value) :
    let events := buildEvents stringify sha256 GENESIS_HASH records
    let bundle := buildBundle stringify sha256 date start stop createdAt records
    (readBack bundle).getOptional "manifest" =
      readBack (buildManifest stringify sha256 date start stop createdAt records) ∧
    (readBack bundle).getOptional "events" =
      .array (events.map fun event => readBack event.toValue) := by
  have hnodup : ((([("manifest", buildManifest stringify sha256 date start stop createdAt records),
      ("events", .array ((buildEvents stringify sha256 GENESIS_HASH records).map (·.toValue)))] :
      List (String × Value))).map (·.1)).Nodup := by simp
  have hget := readBack_getOptional hnodup
  refine ⟨hget "manifest", (hget "events").trans ?_⟩
  refine (readBack_array fun v hv => ?_).trans (congrArg Data.array List.map_map)
  obtain ⟨event, -, rfl⟩ := List.mem_map.mp hv
  rfl

/-- The identifiers at the ends, as they are read from the bundle that was read back. -/
theorem archivedEventId_built {records : List Value} (hok : ∀ r ∈ records, RecordOk r)
    {event : Option ForensicArchiveEvent}
    (hevent : ∀ e, event = some e → e.record ∈ records) :
    archivedEventId (event.map fun e => readBack e.toValue) =
      .ok (event.bind fun e => eventIdOf e.record) := by
  cases event with
  | none => rfl
  | some e =>
    obtain ⟨-, -, id, hid, hget⟩ := readBack_record (hok e.record (hevent e rfl))
    obtain ⟨hrecord, -⟩ := readBack_event e
    rw [Option.map_some, archivedEventId, hrecord, hget, Option.bind_some, hid]
    rfl

/-- The fields of the manifest that was read back are the listed ones. -/
theorem manifest_field (date : String) (start stop createdAt : ℤ) (records : List Value)
    (f : String × Value) (hf : f ∈ fields stringify sha256 date start stop records) :
    (readBack (buildManifest stringify sha256 date start stop createdAt records)).getOptional f.1 =
      readBack f.2 := by
  rw [readBack_manifest stringify sha256 date start stop createdAt records,
    buildManifest_fields stringify sha256 date start stop createdAt records f hf]

/-- The manifest that was read back is accepted. -/
theorem checkManifest_built (date : String) (start stop createdAt : ℤ) (records : List Value) :
    checkManifest (readBack (buildManifest stringify sha256 date start stop createdAt records)) date
      start stop = true := by
  have hfield := manifest_field stringify sha256 date start stop createdAt records
  have hordering := readBack_manifest stringify sha256 date start stop createdAt records "ordering"
  rw [buildManifest_ordering] at hordering
  unfold checkManifest
  rw [hfield ("version", .number ARCHIVE_VERSION) (by simp [fields]),
    hfield ("archiveType", .string ARCHIVE_TYPE) (by simp [fields]),
    hfield ("date", .string date) (by simp [fields]),
    hfield ("windowStart", .string (toISOString start)) (by simp [fields]),
    hfield ("windowEnd", .string (toISOString stop)) (by simp [fields]), hordering]
  simp only [readBack_number, readBack_string, Data.isNumber_iff.mpr, Data.isString_iff.mpr,
    Bool.and_self, Bool.true_and]
  rfl

/-- The records of the events that were read back. -/
theorem events_records (records : List Value) :
    ((buildEvents stringify sha256 GENESIS_HASH records).map fun event =>
      readBack event.toValue).mapM (fun event => event.get "record") =
        .ok (records.map readBack) := by
  have hbuilt := buildEvents_records stringify sha256 GENESIS_HASH records
  refine (mapM_ok (g := fun event => event.getOptional "record") fun v hv => ?_).trans ?_
  · obtain ⟨event, -, rfl⟩ := List.mem_map.mp hv
    obtain ⟨hrecord, -, -, hget⟩ := readBack_event event
    rw [hget, hrecord]
  · rw [List.map_map]
    refine congrArg Except.ok ?_
    calc (buildEvents stringify sha256 GENESIS_HASH records).map
          ((fun event => event.getOptional "record") ∘ fun event => readBack event.toValue)
        = (buildEvents stringify sha256 GENESIS_HASH records).map (readBack ∘ (·.record)) :=
          List.map_congr_left fun event _ => (readBack_event event).1
      _ = records.map readBack := by rw [← List.map_map, hbuilt]

/-- Canonical records have the same hash after they were read back. -/
theorem stableHash_readBack {records : List Value} (hok : ∀ r ∈ records, RecordOk r) :
    stableHash stringify sha256 (.array (records.map readBack)) =
      stableHash stringify sha256 (.array records) := by
  have hitems : (records.map readBack).map canonicalItem = records.map canonicalItem := by
    rw [List.map_map]
    refine List.map_congr_left fun r hr => ?_
    exact congrArg (Option.getD · (.leaf .null)) (readBack_record (hok r hr)).1
  unfold stableHash
  rw [canonicalItem, canonicalItem, canonical_array, canonical_array, hitems]

/-- The hash and the number of the records are accepted. -/
theorem checkRecords_built (date : String) (start stop createdAt : ℤ) {records : List Value}
    (hok : ∀ r ∈ records, RecordOk r) :
    checkRecords stringify sha256
      (readBack (buildManifest stringify sha256 date start stop createdAt records))
      ((buildEvents stringify sha256 GENESIS_HASH records).map fun event => readBack event.toValue)
      (records.map readBack) (stableHash stringify sha256 (.array records)) = true := by
  have hfield := manifest_field stringify sha256 date start stop createdAt records
  unfold checkRecords
  rw [stableHash_readBack stringify sha256 hok,
    hfield ("recordsSha256", .string (stableHash stringify sha256 (.array records)))
      (by simp [fields]), hfield ("eventCount",
    .number (buildEvents stringify sha256 GENESIS_HASH records).length) (by simp [fields])]
  simp only [readBack_number, readBack_string, Data.isNumber_iff.mpr, Data.isString_iff.mpr,
    List.length_map, Bool.and_self]

/-- The ends of the chain are accepted. -/
theorem checkEnds_built (date : String) (start stop createdAt : ℤ) (records : List Value) :
    checkEnds (readBack (buildManifest stringify sha256 date start stop createdAt records))
      ((buildEvents stringify sha256 GENESIS_HASH records).map fun event => readBack event.toValue)
      ((buildEvents stringify sha256 GENESIS_HASH records).head?.bind fun event =>
        eventIdOf event.record)
      ((buildEvents stringify sha256 GENESIS_HASH records).getLast?.bind fun event =>
        eventIdOf event.record)
      (lastHash GENESIS_HASH (buildEvents stringify sha256 GENESIS_HASH records)) = true := by
  have hfield := manifest_field stringify sha256 date start stop createdAt records
  have hhead : ((buildEvents stringify sha256 GENESIS_HASH records).map fun event =>
      readBack event.toValue).head?.bind (fun event => (event.getOptional "eventHash").asString) =
        (buildEvents stringify sha256 GENESIS_HASH records).head?.map (·.eventHash) := by
    rw [List.head?_map]
    cases (buildEvents stringify sha256 GENESIS_HASH records).head? with
    | none => rfl
    | some event =>
      rw [Option.map_some, Option.bind_some, (readBack_event event).2.2.1]
      rfl
  have hoptional : ∀ k (t : Option String),
      (k, (t.map Data.string).getD .undefined) ∈ fields stringify sha256 date start stop records →
      ((readBack (buildManifest stringify sha256 date start stop createdAt
        records)).getOptional k).isStringOr t = true := fun k t hf => by
    rw [hfield _ hf]
    exact readBack_optional t
  unfold checkEnds
  rw [hhead, hoptional "firstEventId" _ (by simp [fields]),
    hoptional "lastEventId" _ (by simp [fields]), hoptional "firstEventHash" _ (by simp [fields]),
    hfield ("finalEventHash", .string (lastHash GENESIS_HASH
      (buildEvents stringify sha256 GENESIS_HASH records))) (by simp [fields, lastHash])]
  exact Data.isString_iff.mpr rfl

/-- What is built from canonical records is accepted when it is read back. -/
theorem buildBundle_verifies (date : String) (start stop createdAt : ℤ) {records : List Value}
    (hok : ∀ r ∈ records, RecordOk r) :
    verifyBundle stringify sha256
      (readBack (buildBundle stringify sha256 date start stop createdAt records)) date start stop
      (stableHash stringify sha256 (.array records)) = .ok () := by
  obtain ⟨hmanifest, hevents⟩ :=
    buildBundle_parts stringify sha256 date start stop createdAt records
  have hmem : ∀ e ∈ buildEvents stringify sha256 GENESIS_HASH records, e.record ∈ records := by
    intro e he
    rw [← buildEvents_records stringify sha256 GENESIS_HASH records]
    exact List.mem_map.mpr ⟨e, he, rfl⟩
  have hfirst := archivedEventId_built hok fun e he => hmem e (List.mem_of_head? he)
  have hlast := archivedEventId_built hok fun e he => hmem e (List.mem_of_getLast? he)
  rw [verifyBundle, hevents, hmanifest]
  simp only [checkManifest_built, if_true]
  rw [verifyEvents, events_records, verifyChain_built stringify sha256 date GENESIS_HASH hok,
    List.head?_map, List.getLast?_map, hfirst, hlast]
  simp only [bind, Except.bind,
    checkRecords_built stringify sha256 date start stop createdAt hok, checkEnds_built, if_true]

end Hashing

end Ascendance.ForensicArchive
