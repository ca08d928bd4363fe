import Ascendance.Core.Json
import Ascendance.Core.JsonText

/-!
# Audit events

The payload of an event is written with sorted properties and without undefined ones, and its
hash is stored beside it. The line of the log file has both, and the hash of what is read from
the line is the one that stands there.
-/

namespace Ascendance.SecurityAudit

open Ascendance.Core

/-- What the platform computes: the hash of a text in hexadecimal digits, and the comparison of
names in the locale. -/
structure Platform where
  sha256 : String → String
  localeCompare : String → String → ℤ

/-- The hash before the first event. -/
def GENESIS_HASH : String := String.ofList (List.replicate 64 '0')

/-- A buffer is given as the text of its base64. -/
def normalizeLeaf : Leaf → Leaf
  | .undefined => .undefined
  | .scalar s => .scalar s
  | .date time => .scalar (.string (toISOString time))
  | .objectId hex => .scalar (.string hex)

/-- The stable sort of entries by their names. -/
def sortEntries (platform : Platform) (entries : List (String × Value)) :
    List (String × Value) :=
  entries.insertionSort fun left right => platform.localeCompare left.1 right.1 ≤ 0

mutual

/-- The normal form of a value: without what is undefined, its properties sorted. -/
def normalizeForJson (platform : Platform) : Value → Value
  | .leaf l => .leaf (normalizeLeaf l)
  | .array items => .array ((normalizeItems platform items).filter fun t => !t.isUndefined)
  | .object entries =>
    .object (fromEntries (sortEntries platform ((normalizeEntries platform entries).filter
      fun e => !e.2.isUndefined)))

/-- The normal forms of the items. -/
def normalizeItems (platform : Platform) : List Value → List Value
  | [] => []
  | t :: ts => normalizeForJson platform t :: normalizeItems platform ts

/-- The normal forms of the properties. -/
def normalizeEntries (platform : Platform) : List (String × Value) → List (String × Value)
  | [] => []
  | (k, t) :: es => (k, normalizeForJson platform t) :: normalizeEntries platform es

end

/-- `JSON.stringify(value)`, if the value is not undefined. -/
def stringify (v : Value) : Option String := (toJson v).map jsonText

/-- The text of the normal form. -/
def stableStringify (platform : Platform) (v : Value) : Option String :=
  stringify (normalizeForJson platform v)

/-- What a caller records. -/
structure RecordSecurityAuditEventInput where
  eventId : Option String
  eventType : String
  occurredAt : Option ℤ
  actor : Value
  target : Value
  request : Value
  session : Value
  outcome : String
  reason : Value
  metadata : Value

/-- The properties that are hashed. -/
def payload (input : RecordSecurityAuditEventInput) (eventId : String) (occurredAt : ℤ)
    (previousHash : String) : Value :=
  .object [("eventId", .string eventId), ("eventType", .string input.eventType),
    ("occurredAt", .string (toISOString occurredAt)), ("actor", input.actor),
    ("target", input.target), ("request", input.request), ("session", input.session),
    ("outcome", .string input.outcome), ("reason", input.reason), ("metadata", input.metadata),
    ("previousHash", .string previousHash)]

/-- What is hashed of an event. -/
def hashPayload (platform : Platform) (input : RecordSecurityAuditEventInput) (eventId : String)
    (occurredAt : ℤ) (previousHash : String) : Value :=
  normalizeForJson platform (payload input eventId occurredAt previousHash)

/-- The hash of a value; there is none of undefined. -/
def hashOf (platform : Platform) (v : Value) : Option String :=
  (stableStringify platform v).map platform.sha256

/-- `{ ...value, eventHash }` -/
def withEventHash (v : Value) (eventHash : String) : Value :=
  match v with
  | .object entries => .object (entries ++ [("eventHash", .string eventHash)])
  | v => v

/-- What is read from a line, without the hash. -/
def withoutEventHash : Json → Json
  | .object entries => .object (entries.filter fun e => e.1 != "eventHash")
  | j => j

/-- The hash that stands in a line. -/
def eventHashOf : Json → Option String
  | .object entries => (entries.lookup "eventHash").bind fun
    | .leaf (.string s) => some s
    | _ => none
  | _ => none

/-- The hash of what is read from a line, computed again. -/
def recomputedHash (platform : Platform) (j : Json) : Option String :=
  hashOf platform (ofJson (withoutEventHash j))

variable (platform : Platform)

/-- The items are normalised one by one. -/
theorem normalizeItems_eq (items : List Value) :
    normalizeItems platform items = items.map (normalizeForJson platform) := by
  induction items with
  | nil => rfl
  | cons t ts ih => rw [normalizeItems, ih, List.map_cons]

/-- The properties are normalised one by one. -/
theorem normalizeEntries_eq (entries : List (String × Value)) :
    normalizeEntries platform entries =
      entries.map fun e => (e.1, normalizeForJson platform e.2) := by
  induction entries with
  | nil => rfl
  | cons e es ih => rw [normalizeEntries, ih, List.map_cons]

/-- The entries of a normalized object, up to their order. -/
theorem normalizeForJson_object (entries : List (String × Value)) :
    ∃ entries', normalizeForJson platform (.object entries) = .object entries' ∧
      entries'.Perm ((entries.map fun e => (e.1, normalizeForJson platform e.2)).filter
        fun e => !e.2.isUndefined) := by
  refine ⟨_, rfl, ?_⟩
  rw [← normalizeEntries_eq platform]
  exact (fromEntries_perm _).trans (List.perm_insertionSort _ _)

/-- What is read is written as it was. -/
theorem toJson_ofJson (j : Json) : toJson (ofJson j) = some j := by
  induction j using Data.induct with
  | leaf s => rfl
  | array items ih =>
    rw [ofJson, Data.map_array, toJson, itemsToJson_eq, List.map_map]
    refine congrArg (some ∘ Data.array) ?_
    conv_rhs => rw [← List.map_id items]
    exact List.map_congr_left fun t ht => by
      rw [Function.comp_apply, id_eq]
      exact congrArg (·.getD (.leaf .null)) (ih t ht)
  | object entries ih =>
    rw [ofJson, Data.map_object, toJson, entriesToJson_eq, List.filterMap_map]
    refine congrArg (some ∘ Data.object) ?_
    conv_rhs => rw [← List.filterMap_some (l := entries)]
    refine List.filterMap_congr fun e he => ?_
    rw [Function.comp_apply]
    exact congrArg (Option.map (Prod.mk e.1)) (ih e he)

/-- A normalized value is undefined or JSON. -/
theorem normalizeForJson_isJson (v : Value) :
    (normalizeForJson platform v).isUndefined = true ∨
      ∃ j, normalizeForJson platform v = ofJson j := by
  induction v using Data.induct with
  | leaf l =>
    cases l with
    | undefined => exact .inl rfl
    | scalar s => exact .inr ⟨.leaf s, rfl⟩
    | date time => exact .inr ⟨.leaf (.string (toISOString time)), rfl⟩
    | objectId hex => exact .inr ⟨.leaf (.string hex), rfl⟩
  | array items ih =>
    right
    have hitems : ∃ js : List Json, (normalizeItems platform items).filter
        (fun t => !t.isUndefined) = js.map ofJson := by
      rw [normalizeItems_eq platform]
      induction items with
      | nil => exact ⟨[], rfl⟩
      | cons t ts ihts =>
        obtain ⟨js, hjs⟩ := ihts fun t' ht' => ih t' (List.mem_cons_of_mem _ ht')
        rw [List.map_cons]
        rcases ih t List.mem_cons_self with hundefined | ⟨j, hj⟩
        · refine ⟨js, ?_⟩
          rw [List.filter_cons_of_neg (by simp [hundefined]), hjs]
        · refine ⟨j :: js, ?_⟩
          have hdefined : (ofJson j).isUndefined = false := by cases j <;> rfl
          rw [hj, List.filter_cons_of_pos (by simp [hdefined]), hjs, List.map_cons]
    obtain ⟨js, hjs⟩ := hitems
    exact ⟨.array js, by rw [normalizeForJson, hjs, ofJson, Data.map_array]; rfl⟩
  | object entries ih =>
    right
    obtain ⟨entries', heq, hperm⟩ := normalizeForJson_object platform entries
    have hvalues : ∀ e ∈ entries', ∃ j, e.2 = ofJson j := by
      intro e he
      obtain ⟨hmem, hdefined⟩ := List.mem_filter.mp (hperm.mem_iff.mp he)
      obtain ⟨e₀, he₀, rfl⟩ := List.mem_map.mp hmem
      rcases ih e₀ he₀ with hundefined | hj
      · rw [hundefined] at hdefined
        cases hdefined
      · exact hj
    have hentries : ∃ js : List (String × Json), entries' = js.map fun e => (e.1, ofJson e.2) := by
      clear heq hperm
      induction entries' with
      | nil => exact ⟨[], rfl⟩
      | cons e es ihes =>
        obtain ⟨js, hjs⟩ := ihes fun e' he' => hvalues e' (List.mem_cons_of_mem _ he')
        obtain ⟨j, hj⟩ := hvalues e List.mem_cons_self
        exact ⟨(e.1, j) :: js, by rw [List.map_cons, ← hjs, ← hj]⟩
    obtain ⟨js, hjs⟩ := hentries
    exact ⟨.object js, by rw [heq, hjs, ofJson, Data.map_object]; rfl⟩

/-- The value is an object with distinct names, none of which is that of the hash, and with the id
of an event. -/
structure Carries (v : Value) (eventId : String) (entries : List (String × Value)) : Prop where
  eq : v = .object entries
  nodup : (entries.map (·.1)).Nodup
  no_hash : "eventHash" ∉ entries.map (·.1)
  id : ("eventId", .string eventId) ∈ entries

/-- A payload carries one event. -/
theorem Carries.unique {v : Value} {eventId eventId' : String}
    {entries entries' : List (String × Value)} (h : Carries v eventId entries)
    (h' : Carries v eventId' entries') : eventId = eventId' := by
  obtain rfl : entries = entries' := Data.object.inj (h.eq.symm.trans h'.eq)
  have heq := List.inj_on_of_nodup_map h.nodup h.id h'.id rfl
  exact Data.string_inj (congrArg Prod.snd heq)

/-- Normalization keeps the names and the id. -/
theorem Carries.normalize {v : Value} {eventId : String} {entries : List (String × Value)}
    (h : Carries v eventId entries) :
    ∃ entries', Carries (normalizeForJson platform v) eventId entries' := by
  obtain ⟨entries', heq, hperm⟩ := normalizeForJson_object platform entries
  have hkeys : ((entries.map fun e => (e.1, normalizeForJson platform e.2)).filter
      fun e => !e.2.isUndefined).map (·.1) |>.Sublist (entries.map (·.1)) := by
    refine (List.filter_sublist.map _).trans ?_
    rw [List.map_map]
    exact List.Sublist.refl _
  have hsame := (hperm.map (·.1)).mem_iff (a := "eventHash")
  refine ⟨entries', h.eq ▸ heq, ((hperm.map _).nodup_iff).mpr (h.nodup.sublist hkeys),
    fun hmem => h.no_hash (hkeys.subset (hsame.mp hmem)), hperm.mem_iff.mpr ?_⟩
  exact List.mem_filter.mpr ⟨List.mem_map.mpr ⟨_, h.id, rfl⟩, rfl⟩

section

variable (input : RecordSecurityAuditEventInput) (eventId : String) (occurredAt : ℤ)
  (previousHash : String)

/-- A payload carries its event and its previous hash. -/
private theorem payload_carries :
    ∃ entries, Carries (payload input eventId occurredAt previousHash) eventId
    entries := by
  refine ⟨_, rfl, ?_, ?_, List.mem_cons_self⟩
  · simp only [List.map_cons, List.map_nil]
    decide
  · simp only [List.map_cons, List.map_nil]
    decide

/-- A hashed payload carries its event and its previous hash. -/
private theorem hashPayload_carries : ∃ entries,
    Carries (hashPayload platform input eventId occurredAt previousHash) eventId entries := by
  obtain ⟨entries, h⟩ := payload_carries input eventId occurredAt previousHash
  exact h.normalize platform

/-- What is hashed is JSON. -/
theorem hashPayload_isJson :
    ∃ j, hashPayload platform input eventId occurredAt previousHash = ofJson j := by
  obtain ⟨entries, h⟩ := hashPayload_carries platform input eventId occurredAt previousHash
  rcases normalizeForJson_isJson platform
    (payload input eventId occurredAt previousHash) with hundefined | hj
  · rw [hashPayload] at h
    rw [h.eq] at hundefined
    cases hundefined
  · exact hj

end

/-- Every event has a hash, and the hash is that of a value with the id. -/
theorem hashOf_hashPayload (platform : Platform) (input : RecordSecurityAuditEventInput)
    (eventId : String) (occurredAt : ℤ) (previousHash : String) :
    ∃ j entries, Carries (ofJson j) eventId entries ∧
      hashOf platform (hashPayload platform input eventId occurredAt previousHash) =
        some (platform.sha256 (jsonText j)) := by
  obtain ⟨entries, h⟩ := hashPayload_carries platform input eventId occurredAt previousHash
  obtain ⟨entries', h'⟩ := h.normalize platform
  rcases normalizeForJson_isJson platform
    (hashPayload platform input eventId occurredAt previousHash) with hundefined | ⟨j, hj⟩
  · rw [h'.eq] at hundefined
    cases hundefined
  · refine ⟨j, entries', hj ▸ h', ?_⟩
    rw [hashOf, stableStringify, stringify, hj, toJson_ofJson]
    rfl

/-- Events with one hash have one id. -/
theorem eventId_of_hash {platform : Platform} (hinj : Function.Injective platform.sha256)
    {input input' : RecordSecurityAuditEventInput} {eventId eventId' : String}
    {occurredAt occurredAt' : ℤ} {previousHash previousHash' : String}
    (h : hashOf platform (hashPayload platform input eventId occurredAt previousHash) =
      hashOf platform (hashPayload platform input' eventId' occurredAt' previousHash')) :
    eventId = eventId' := by
  obtain ⟨j, entries, hcarries, hhash⟩ :=
    hashOf_hashPayload platform input eventId occurredAt previousHash
  obtain ⟨j', entries', hcarries', hhash'⟩ :=
    hashOf_hashPayload platform input' eventId' occurredAt' previousHash'
  rw [hhash, hhash'] at h
  obtain rfl := jsonText_injective (hinj (Option.some.inj h))
  exact hcarries.unique hcarries'

/-- The line of an event. -/
def lineOf (platform : Platform) (input : RecordSecurityAuditEventInput) (eventId : String)
    (occurredAt : ℤ) (previousHash eventHash : String) : Option String :=
  stringify (withEventHash (hashPayload platform input eventId occurredAt previousHash) eventHash)

/-- What is read from the line of an event has the hash that stands there. -/
theorem recomputedHash_lineOf {platform : Platform} {input : RecordSecurityAuditEventInput}
    {eventId : String} {occurredAt : ℤ} {previousHash eventHash : String}
    (hhash : hashOf platform (hashPayload platform input eventId occurredAt previousHash) =
      some eventHash) :
    ∃ j, lineOf platform input eventId occurredAt previousHash eventHash = some (jsonText j) ∧
      eventHashOf j = some eventHash ∧ recomputedHash platform j = some eventHash := by
  obtain ⟨j, hj⟩ := hashPayload_isJson platform input eventId occurredAt previousHash
  obtain ⟨values, h⟩ := hashPayload_carries platform input eventId occurredAt previousHash
  cases j with
  | leaf s =>
    rw [hj] at h
    cases h.eq
  | array items =>
    rw [hj, ofJson, Data.map_array] at h
    cases h.eq
  | object entries =>
    have hnames : values.map (·.1) = entries.map (·.1) := by
      have heq := h.eq
      rw [hj, ofJson, Data.map_object] at heq
      rw [← Data.object.inj heq, List.map_map]
      rfl
    have hno := hnames ▸ h.no_hash
    have hwith : withEventHash (ofJson (.object entries)) eventHash =
        ofJson (.object (entries ++ [("eventHash", .leaf (.string eventHash))])) := by
      rw [ofJson, ofJson, Data.map_object, Data.map_object, List.map_append]
      rfl
    refine ⟨_, by rw [lineOf, hj, hwith, stringify, toJson_ofJson]; rfl, ?_, ?_⟩
    · have hlookup : entries.lookup "eventHash" = none := by
        refine List.lookup_eq_none_iff.mpr fun e he => ?_
        exact bne_iff_ne.mpr fun heq => hno (List.mem_map.mpr ⟨e, he, heq.symm⟩)
      rw [eventHashOf, List.lookup_append, hlookup]
      rfl
    · have hfilter : withoutEventHash
          (.object (entries ++ [("eventHash", .leaf (.string eventHash))])) = .object entries := by
        rw [withoutEventHash, List.filter_append, List.filter_eq_self.mpr]
        · simp
        · exact fun e he => bne_iff_ne.mpr fun heq => hno (List.mem_map.mpr ⟨e, he, heq⟩)
      rw [recomputedHash, hfilter, ← hj, hhash]

end Ascendance.SecurityAudit
