import Ascendance.Models.ForensicArchive.Verified
import Mathlib.Data.Set.Function

/-!
# What is accepted was built

A bundle that is accepted for a day and a hash of records has the records with that
hash, their chain, and the manifest that goes with them. The hash is taken to be
injective. What a bundle has besides is not looked at.
-/

namespace Ascendance.ForensicArchive

open Ascendance.Core

/-- A value that `JSON.parse` can read, or a property that is not there. -/
def Parsed (v : Value) : Prop := v = .undefined ∨ ∃ j : Json, j.WellFormed ∧ v = ofJson j

/-- A parsed value has distinct property names. -/
theorem Parsed.wellFormed {v : Value} (h : Parsed v) : v.WellFormed := by
  obtain rfl | ⟨j, hj, rfl⟩ := h
  · exact .leaf _
  · exact hj.map _

/-- A property of a parsed value is parsed. -/
theorem Parsed.getOptional {v : Value} (h : Parsed v) (k : String) : Parsed (v.getOptional k) := by
  obtain rfl | ⟨j, hj, rfl⟩ := h
  · exact .inl rfl
  · cases hj with
    | leaf s => cases s <;> exact .inl rfl
    | array _ =>
      rw [ofJson, Data.map_array]
      exact .inl rfl
    | @object entries hnodup hentries =>
      rw [ofJson, Data.map_object, Data.getOptional_object, lookup_map]
      cases hlookup : entries.lookup k with
      | none => exact .inl rfl
      | some j => exact .inr ⟨j, hentries _ ((lookup_eq_some_iff hnodup).mp hlookup), rfl⟩

/-- The items of a parsed array are parsed. -/
theorem Parsed.items {items : List Value} (h : Parsed (.array items)) : ∀ v ∈ items, Parsed v := by
  obtain h | ⟨j, hj, h⟩ := h
  · cases h
  · cases hj with
    | leaf s => cases h
    | object _ _ =>
      rw [ofJson, Data.map_object] at h
      cases h
    | array hitems =>
      rw [ofJson, Data.map_array] at h
      obtain rfl := Data.array.inj h
      intro v hv
      obtain ⟨j, hj, rfl⟩ := List.mem_map.mp hv
      exact .inr ⟨j, hitems j hj, rfl⟩

private theorem exists_canonical_ofJson (j : Json) : ∃ j', canonical (ofJson j) = some j' := by
  cases j with
  | leaf s => exact ⟨_, rfl⟩
  | array items =>
    rw [ofJson, Data.map_array]
    exact ⟨_, canonical_array _⟩
  | object entries =>
    rw [ofJson, Data.map_object]
    exact ⟨_, canonical_object _⟩

/-- What has a string for its canonical form is the string. -/
private theorem canonical_ofJson_string {j : Json} {s : String}
    (h : canonical (ofJson j) = some (.leaf (.string s))) : ofJson j = .string s := by
  cases j with
  | leaf t =>
    have ht : Data.leaf t = .leaf (.string s) := Option.some.inj h
    rw [ht]
    rfl
  | array items =>
    rw [ofJson, Data.map_array, canonical_array] at h
    cases h
  | object entries =>
    rw [ofJson, Data.map_object, canonical_object] at h
    cases h

/-- The first property of a name is read from the canonical JSON too. -/
theorem lookup_canonical_ofJson (props : List (String × Json)) (k : String) :
    ((props.map fun e => (e.1, ofJson e.2)).filterMap fun e =>
      (canonical e.2).map (Prod.mk e.1)).lookup k =
        (props.lookup k).map fun j => canonicalItem (ofJson j) := by
  rw [← lookup_map, List.filterMap_map]
  refine congrArg (List.lookup k) ?_
  rw [← List.filterMap_eq_map]
  refine List.filterMap_congr fun e _ => ?_
  obtain ⟨j, hj⟩ := exists_canonical_ofJson e.2
  change (canonical (ofJson e.2)).map (Prod.mk e.1) = some (e.1, canonicalItem (ofJson e.2))
  rw [canonicalItem, hj]
  rfl

/-- A parsed value with the canonical JSON of a record has its identifier. -/
theorem Parsed.get_eventId {v r : Value} (hv : Parsed v) (hr : RecordOk r)
    (hcanonical : canonical v = canonical r) :
    ∃ e, eventIdOf r = some e ∧ v.get "eventId" = .ok (.string e) := by
  obtain ⟨entries, e, rfl, hnodup, hlookup⟩ := hr.shape
  have hid : eventIdOf (.object entries) = some e := by
    rw [eventIdOf, Data.getOptional_object, hlookup]
    rfl
  refine ⟨e, hid, ?_⟩
  rw [canonical_object] at hcanonical
  obtain rfl | ⟨j, -, rfl⟩ := hv
  · cases hcanonical
  · cases j with
    | leaf s => cases hcanonical
    | array items =>
      rw [ofJson, Data.map_array, canonical_array] at hcanonical
      cases hcanonical
    | object props =>
      rw [ofJson, Data.map_object] at hcanonical ⊢
      rw [canonical_object] at hcanonical
      have hperm := ((enumerate_perm _).symm.trans (.of_eq (Data.object.inj
        (Option.some.inj hcanonical)))).trans (enumerate_perm _)
      have hsame := lookup_perm (hnodup.sublist (keys_filterMap_sublist canonical entries))
        hperm.symm "eventId"
      rw [lookup_filterMap canonical hnodup, hlookup] at hsame
      obtain ⟨j, hj, hitem⟩ :=
        Option.map_eq_some_iff.mp ((lookup_canonical_ofJson props "eventId").symm.trans hsame)
      obtain ⟨j', hj'⟩ := exists_canonical_ofJson j
      rw [canonicalItem, hj', Option.getD_some] at hitem
      have hstring := canonical_ofJson_string (hj'.trans (congrArg some hitem))
      change Except.ok (((props.map fun e => (e.1, ofJson e.2)).lookup "eventId").getD .undefined) =
        Except.ok (.string e)
      rw [lookup_map, hj, Option.map_some, Option.getD_some, hstring]

/-- An event that is read agrees with one that is built: its record up to canonical JSON. -/
structure EventMatches (v : Value) (event : ForensicArchiveEvent) : Prop where
  record : canonical (v.getOptional "record") = canonical event.record
  previousHash : v.getOptional "previousHash" = .string event.previousHash
  eventHash : v.getOptional "eventHash" = .string event.eventHash

private theorem getOptional_of_get {v w : Value} {k : String} (h : v.get k = .ok w) :
    v.getOptional k = w := by
  rw [Data.getOptional, h]

/-- Reading one property of all values. -/
private theorem mapM_get {k : String} {events archived : List Value}
    (h : events.mapM (fun event => event.get k) = .ok archived) :
    archived = events.map fun event => event.getOptional k := by
  induction events generalizing archived with
  | nil => exact (Except.ok.inj h).symm
  | cons event events ih =>
    rw [List.mapM_cons] at h
    cases hget : event.get k with
    | error e =>
      rw [hget] at h
      cases h
    | ok w =>
      cases hrest : events.mapM fun event => event.get k with
      | error e =>
        rw [hget, hrest] at h
        cases h
      | ok ws =>
        rw [hget, hrest] at h
        obtain rfl := Except.ok.inj h
        rw [List.map_cons, getOptional_of_get hget, ih hrest]

/-- The item that an array has of a record is not the one it has of a missing value. -/
theorem canonical_of_item {v r : Value} (hr : RecordOk r)
    (h : canonicalItem v = canonicalItem r) : canonical v = canonical r := by
  obtain ⟨entries, e, rfl, -, -⟩ := hr.shape
  unfold canonicalItem at h
  rw [canonical_object] at h ⊢
  cases hv : canonical v with
  | none =>
    rw [hv] at h
    cases h
  | some j =>
    rw [hv] at h
    exact congrArg some h

section Lists

variable {γ δ : Type*} {R : γ → δ → Prop} {l : List γ} {m : List δ}

private theorem forall₂_head? (h : List.Forall₂ R l m) : Option.Rel R l.head? m.head? := by
  cases h with
  | nil => exact .none
  | cons hab _ => exact .some hab

private theorem forall₂_getLast? (h : List.Forall₂ R l m) : Option.Rel R l.getLast? m.getLast? := by
  rw [List.getLast?_eq_head?_reverse, List.getLast?_eq_head?_reverse]
  exact forall₂_head? (List.forall₂_reverse_iff.mpr h)

end Lists

section Hashing

variable {Text : Type*} {stringify : Json → Text} {sha256 : Text → String}

/-- The canonical form of a value is canonical. -/
theorem canonicalItem_isCanonical {v : Value} (hv : v.WellFormed) :
    (canonicalItem v).Canonical := by
  unfold canonicalItem
  cases hc : canonical v with
  | none => exact .leaf _
  | some j => exact canonical_isCanonical hv hc

/-- Arrays with one hash have the same items. -/
theorem canonicalItem_inj (hinj : Set.InjOn (sha256 ∘ stringify) {j | j.Canonical})
    {items items' : List Value} (hitems : ∀ v ∈ items, v.WellFormed)
    (hitems' : ∀ v ∈ items', v.WellFormed)
    (h : stableHash stringify sha256 (.array items) = stableHash stringify sha256 (.array items')) :
    items.map canonicalItem = items'.map canonicalItem := by
  have heq := hinj (canonicalItem_isCanonical (.array hitems))
    (canonicalItem_isCanonical (.array hitems')) h
  rw [canonicalItem, canonicalItem, canonical_array, canonical_array] at heq
  exact Data.array.inj heq

/-- Records with equal canonical forms match one by one. -/
private theorem records_match {events records : List Value} (hok : ∀ r ∈ records, RecordOk r)
    (h : (events.map fun event => event.getOptional "record").map canonicalItem =
      records.map canonicalItem) :
    List.Forall₂ (fun event r => canonical (event.getOptional "record") = canonical r)
      events records := by
  induction events generalizing records with
  | nil =>
    obtain rfl := List.map_eq_nil_iff.mp h.symm
    exact .nil
  | cons event events ih =>
    cases records with
    | nil => cases h
    | cons r records =>
      obtain ⟨hitem, hitems⟩ := List.cons.inj h
      exact .cons (canonical_of_item (hok r List.mem_cons_self) hitem)
        (ih (fun r' hr' => hok r' (List.mem_cons_of_mem r hr')) hitems)

/-- A chain that is right is the chain that is built for its records. -/
theorem verifyChain_matches {date previousHash finalHash : String} {events records : List Value}
    (hrecords : List.Forall₂ (fun event r => canonical (event.getOptional "record") = canonical r)
      events records)
    (h : verifyChain stringify sha256 date previousHash events = .ok finalHash) :
    List.Forall₂ EventMatches events (buildEvents stringify sha256 previousHash records) ∧
      finalHash = lastHash previousHash (buildEvents stringify sha256 previousHash records) := by
  induction hrecords generalizing previousHash with
  | nil => exact ⟨.nil, (Except.ok.inj h).symm⟩
  | @cons event r events records hrecord _ ih =>
    rw [verifyChain] at h
    split at h
    · next hright =>
      obtain ⟨hprevious, hhash⟩ := Bool.and_eq_true_iff.mp hright
      rw [eventHash_congr stringify sha256 hrecord] at h hhash
      obtain ⟨hevents, hfinal⟩ := ih h
      refine ⟨.cons ⟨hrecord, ?_, ?_⟩ hevents, ?_⟩
      · exact Data.isString_iff.mp hprevious
      · exact Data.isString_iff.mp hhash
      · rw [hfinal, buildEvents, lastHash_cons]
    · cases h

/-- The identifier that is read from an event is that of its record. -/
theorem archivedEventId_matches {v : Option Value} {event : Option ForensicArchiveEvent}
    (h : Option.Rel EventMatches v event) (hparsed : ∀ w, v = some w → Parsed w)
    (hok : ∀ e, event = some e → RecordOk e.record) :
    archivedEventId v = .ok (event.bind fun e => eventIdOf e.record) := by
  cases h with
  | none => rfl
  | @some w e hmatches =>
    obtain ⟨id, hid, hget⟩ := ((hparsed w rfl).getOptional "record").get_eventId (hok e rfl)
      hmatches.record
    rw [archivedEventId, hget, Option.bind_some, hid]
    rfl

variable (stringify sha256)

/-- A bundle has the manifest and the events that are built for the records. -/
structure Agrees (bundle : Value) (date : String) (start stop : ℤ) (records : List Value) :
    Prop where
  fields : ∀ f ∈ fields stringify sha256 date start stop records,
    (bundle.getOptional "manifest").getOptional f.1 = f.2
  ordering : ∃ more, (bundle.getOptional "manifest").getOptional "ordering" =
    .array (.string "recordedAt" :: .string "eventId" :: more)
  events : ∃ events, bundle.getOptional "events" = .array events ∧
    List.Forall₂ EventMatches events (buildEvents stringify sha256 GENESIS_HASH records)

variable {stringify sha256}

/-- The ordering begins with the time and the identifier. -/
private theorem checkOrdering_iff {v : Value} : checkOrdering v = true ↔
    ∃ more, v = .array (.string "recordedAt" :: .string "eventId" :: more) := by
  constructor
  · intro h
    unfold checkOrdering at h
    split at h
    · next items =>
      match items with
      | [] => cases h
      | [first] =>
        rw [Bool.and_eq_true_iff] at h
        cases h.2
      | first :: second :: more =>
        obtain ⟨hfirst, hsecond⟩ := Bool.and_eq_true_iff.mp h
        refine ⟨more, ?_⟩
        rw [Data.isString_iff.mp hfirst, Data.isString_iff.mp hsecond]
    · cases h
    · cases h
  · rintro ⟨more, rfl⟩
    rfl

/-- A manifest passes when its fixed properties have the expected values. -/
private theorem checkManifest_iff {manifest : Value} {date : String} {start stop : ℤ} :
    checkManifest manifest date start stop = true ↔
      manifest.getOptional "version" = .number ARCHIVE_VERSION ∧
      manifest.getOptional "archiveType" = .string ARCHIVE_TYPE ∧
      manifest.getOptional "date" = .string date ∧
      manifest.getOptional "windowStart" = .string (toISOString start) ∧
      manifest.getOptional "windowEnd" = .string (toISOString stop) ∧
      ∃ more, manifest.getOptional "ordering" =
        .array (.string "recordedAt" :: .string "eventId" :: more) := by
  unfold checkManifest
  simp only [Bool.and_eq_true_iff, Data.isNumber_iff, Data.isString_iff, checkOrdering_iff,
    and_assoc]

/-- An accepted bundle has accepted parts. -/
private theorem verifyBundle_parts {bundle : Value} {date hash : String} {start stop : ℤ}
    (h : verifyBundle stringify sha256 bundle date start stop hash = .ok ()) :
    ∃ events, bundle.getOptional "events" = .array events ∧
      checkManifest (bundle.getOptional "manifest") date start stop = true ∧
      verifyEvents stringify sha256 (bundle.getOptional "manifest") date events hash = .ok () := by
  unfold verifyBundle at h
  dsimp only at h
  split at h
  · next events hevents =>
    split at h
    · next hmanifest => exact ⟨events, hevents, hmanifest, h⟩
    · cases h
  · cases h
  · cases h

/-- Accepted events pass every check. -/
private theorem verifyEvents_parts {manifest : Value} {date hash : String} {events : List Value}
    (h : verifyEvents stringify sha256 manifest date events hash = .ok ()) :
    ∃ finalHash firstEventId lastEventId,
      checkRecords stringify sha256 manifest events
        (events.map fun event => event.getOptional "record") hash = true ∧
      verifyChain stringify sha256 date GENESIS_HASH events = .ok finalHash ∧
      archivedEventId events.head? = .ok firstEventId ∧
      archivedEventId events.getLast? = .ok lastEventId ∧
      checkEnds manifest events firstEventId lastEventId finalHash = true := by
  unfold verifyEvents at h
  cases hmapM : events.mapM fun event => event.get "record" with
  | error e =>
    rw [hmapM] at h
    cases h
  | ok archived =>
    rw [hmapM, mapM_get hmapM] at h
    simp only [bind, Except.bind] at h
    split at h
    · next hrecords =>
      cases hchain : verifyChain stringify sha256 date GENESIS_HASH events with
      | error e =>
        simp only [hchain] at h
        cases h
      | ok finalHash =>
        cases hfirst : archivedEventId events.head? with
        | error e =>
          simp only [hchain, hfirst] at h
          cases h
        | ok firstEventId =>
          cases hlast : archivedEventId events.getLast? with
          | error e =>
            simp only [hchain, hfirst, hlast] at h
            cases h
          | ok lastEventId =>
            simp only [hchain, hfirst, hlast] at h
            split at h
            · next hends => exact ⟨_, _, _, hrecords, rfl, rfl, rfl, hends⟩
            · cases h
    · cases h

/-- Matching events have the same hash. -/
private theorem eventHash_matches {v : Option Value} {event : Option ForensicArchiveEvent}
    (h : Option.Rel EventMatches v event) :
    (v.bind fun w => (w.getOptional "eventHash").asString) = event.map (·.eventHash) := by
  cases h with
  | none => rfl
  | some hmatches =>
    rw [Option.bind_some, hmatches.eventHash]
    rfl

private theorem optional_eq (s : Option String) :
    s.elim Data.undefined Data.string = (s.map Data.string).getD .undefined := by
  cases s <;> rfl

/-- A bundle that is accepted for the hash of some records agrees with them. -/
theorem verifyBundle_agrees (hinj : Set.InjOn (sha256 ∘ stringify) {j | j.Canonical})
    {bundle : Json} (hbundle : bundle.WellFormed) {date : String} {start stop : ℤ}
    {records : List Value} (hok : ∀ r ∈ records, RecordOk r)
    (h : verifyBundle stringify sha256 (ofJson bundle) date start stop
      (stableHash stringify sha256 (.array records)) = .ok ()) :
    Agrees stringify sha256 (ofJson bundle) date start stop records := by
  obtain ⟨events, hevents, hmanifest, hverify⟩ := verifyBundle_parts h
  obtain ⟨finalHash, firstEventId, lastEventId, hrecords, hchain, hfirst, hlast, hends⟩ :=
    verifyEvents_parts hverify
  obtain ⟨hversion, htype, hdate, hstart, hstop, hordering⟩ := checkManifest_iff.mp hmanifest
  unfold checkRecords at hrecords
  simp only [Bool.and_eq_true_iff, Data.isString_iff, Data.isNumber_iff] at hrecords
  obtain ⟨⟨harchived, hexpected⟩, hcount⟩ := hrecords
  unfold checkEnds at hends
  simp only [Bool.and_eq_true_iff, Data.isString_iff, Data.isStringOr_iff, optional_eq] at hends
  obtain ⟨⟨⟨hfirstId, hlastId⟩, hfirstHash⟩, hfinalHash⟩ := hends
  have hparsed : ∀ v ∈ events, Parsed v :=
    Parsed.items (hevents ▸ Parsed.getOptional (.inr ⟨bundle, hbundle, rfl⟩) "events")
  have hmatch : List.Forall₂
      (fun event r => canonical (event.getOptional "record") = canonical r) events records := by
    have hhash := Data.string_inj (harchived.symm.trans hexpected)
    refine records_match hok (canonicalItem_inj hinj ?_ (fun r hr => (hok r hr).wellFormed) hhash)
    intro v hv
    obtain ⟨event, he, rfl⟩ := List.mem_map.mp hv
    exact ((hparsed event he).getOptional "record").wellFormed
  obtain ⟨hbuilt, rfl⟩ := verifyChain_matches hmatch hchain
  have hmem : ∀ e ∈ buildEvents stringify sha256 GENESIS_HASH records, RecordOk e.record := by
    intro e he
    refine hok _ ?_
    rw [← buildEvents_records stringify sha256 GENESIS_HASH records]
    exact List.mem_map.mpr ⟨e, he, rfl⟩
  rw [archivedEventId_matches (forall₂_head? hbuilt)
    (fun w hw => hparsed w (List.mem_of_head? hw))
    (fun e he => hmem e (List.mem_of_head? he))] at hfirst
  rw [archivedEventId_matches (forall₂_getLast? hbuilt)
    (fun w hw => hparsed w (List.mem_of_getLast? hw))
    (fun e he => hmem e (List.mem_of_getLast? he))] at hlast
  obtain rfl := Except.ok.inj hfirst
  obtain rfl := Except.ok.inj hlast
  rw [eventHash_matches (forall₂_head? hbuilt)] at hfirstHash
  refine ⟨?_, hordering, events, hevents, hbuilt⟩
  intro f hf
  simp only [fields, List.mem_cons, List.not_mem_nil, or_false] at hf
  rcases hf with rfl | rfl | rfl | rfl | rfl | rfl | rfl | rfl | rfl | rfl | rfl
  · exact hversion
  · exact htype
  · exact hdate
  · exact hstart
  · exact hstop
  · rw [← hbuilt.length_eq]
    exact hcount
  · exact hfirstId
  · exact hlastId
  · exact hfirstHash
  · exact hfinalHash
  · exact hexpected

end Hashing

end Ascendance.ForensicArchive
