import Ascendance.Models.ForensicArchive.Canonical
import Mathlib.Data.Prod.Lex

/-!
# Bundles

What `sealDate` archives, and what it checks of an archive that is there. The text
of JSON and SHA-256 are parameters.
-/

namespace Ascendance.ForensicArchive

open Ascendance.Core

/-- A persisted record: its properties, among them the two that order the records. -/
structure ForensicRecord where
  entries : List (String × Value)
  wellFormed : (Data.object entries).WellFormed
  recordedAt : ℤ
  eventId : String
  recordedAt_eq : entries.lookup "recordedAt" = some (.leaf (.date recordedAt))
  eventId_eq : entries.lookup "eventId" = some (.string eventId)

/-- Records are ordered by their time, then by their identifier. -/
def compareRecords (left right : ForensicRecord) : ℤ :=
  let timeDifference := left.recordedAt - right.recordedAt
  if timeDifference ≠ 0 then timeDifference else compareStrings left.eventId right.eventId

/-- The records in their order, each in its normal form. -/
def canonicalRecords (records : List ForensicRecord) : List Value :=
  (records.insertionSort fun left right => compareRecords left right ≤ 0).map fun record =>
    normalizeForJson (.object record.entries)

/-- The hash before the first event. -/
def GENESIS_HASH : String := String.ofList (List.replicate 64 '0')

/-- The version of the manifest. -/
def ARCHIVE_VERSION : ℕ := 1

/-- The type of the archive. -/
def ARCHIVE_TYPE : String := "forensic-operational-errors"

/-- A record with the hash of the event before it and its own. -/
structure ForensicArchiveEvent where
  record : Value
  previousHash : String
  eventHash : String

/-- The `eventId` of a record, if it is a string. -/
def eventIdOf (record : Value) : Option String := (record.getOptional "eventId").asString

section Hashing

variable {Text : Type*} (stringify : Json → Text) (sha256 : Text → String)

/-- The hash of the canonical JSON of an array or an object. -/
def stableHash (v : Value) : String := sha256 (stringify (canonicalItem v))

/-- The hash of a record after the given one. -/
def eventHash (record : Value) (previousHash : String) : String :=
  stableHash stringify sha256 (.object [("record", record), ("previousHash", .string previousHash)])

/-- Chain the records from a hash on. -/
def buildEvents (previousHash : String) : List Value → List ForensicArchiveEvent
  | [] => []
  | record :: records =>
    let hash := eventHash stringify sha256 record previousHash
    ⟨record, previousHash, hash⟩ :: buildEvents hash records

/-- The value that is archived for an event. -/
def ForensicArchiveEvent.toValue (event : ForensicArchiveEvent) : Value :=
  .object [("record", event.record), ("previousHash", .string event.previousHash),
    ("eventHash", .string event.eventHash)]

/-- A property that is left out when there is no value. -/
def optionalProperty (k : String) (s : Option String) : List (String × Value) :=
  (s.map fun s => (k, Data.string s)).toList

/-- The manifest of the chained records. -/
def buildManifest (date : String) (start stop createdAt : ℤ) (records : List Value) : Value :=
  let events := buildEvents stringify sha256 GENESIS_HASH records
  .object <|
    [("version", .number ARCHIVE_VERSION), ("archiveType", .string ARCHIVE_TYPE),
      ("date", .string date), ("windowStart", .string (toISOString start)),
      ("windowEnd", .string (toISOString stop)),
      ("ordering", .array [.string "recordedAt", .string "eventId"]),
      ("createdAt", .string (toISOString createdAt)), ("eventCount", .number events.length)] ++
    optionalProperty "firstEventId" (events.head?.bind fun event => eventIdOf event.record) ++
    optionalProperty "lastEventId" (events.getLast?.bind fun event => eventIdOf event.record) ++
    optionalProperty "firstEventHash" (events.head?.map (·.eventHash)) ++
    [("finalEventHash", .string ((events.getLast?.map (·.eventHash)).getD GENESIS_HASH)),
      ("recordsSha256", .string (stableHash stringify sha256 (.array records)))]

/-- The manifest with the events. -/
def buildBundle (date : String) (start stop createdAt : ℤ) (records : List Value) : Value :=
  .object [("manifest", buildManifest stringify sha256 date start stop createdAt records),
    ("events", .array ((buildEvents stringify sha256 GENESIS_HASH records).map (·.toValue)))]

/-- The manifest is not the one of the day. -/
def manifestError (date : String) : String := "Invalid forensic archive manifest for " ++ date

/-- The records are not the expected ones. -/
def conflictError (date : String) : String :=
  "Forensic sealed-day integrity conflict for " ++ date

/-- The events are not chained. -/
def chainError (date : String) : String := "Invalid forensic archive chain for " ++ date

/-- Does the ordering begin with the two expected names? -/
def checkOrdering (ordering : Value) : Bool :=
  match ordering with
  | .array items => items[0]?.any (·.isString "recordedAt") && items[1]?.any (·.isString "eventId")
  | .leaf _ | .object _ => false

/-- A manifest that is not an object has no version. -/
def checkManifest (manifest : Value) (date : String) (start stop : ℤ) : Bool :=
  (manifest.getOptional "version").isNumber ARCHIVE_VERSION &&
  (manifest.getOptional "archiveType").isString ARCHIVE_TYPE &&
  (manifest.getOptional "date").isString date &&
  (manifest.getOptional "windowStart").isString (toISOString start) &&
  (manifest.getOptional "windowEnd").isString (toISOString stop) &&
  checkOrdering (manifest.getOptional "ordering")

/-- The chain from an event on; the hash of the last event, if it is right. -/
def verifyChain (date previousHash : String) : List Value → Except String String
  | [] => .ok previousHash
  | event :: events =>
    -- What is not an object has no `previousHash` either.
    let expected := eventHash stringify sha256 (event.getOptional "record") previousHash
    if (event.getOptional "previousHash").isString previousHash &&
        (event.getOptional "eventHash").isString expected then
      verifyChain date expected events
    else .error (chainError date)

/-- `typeof event?.record.eventId === "string" ? event.record.eventId : undefined`. -/
def archivedEventId (event : Option Value) : Except String (Option String) :=
  match event with
  | none => .ok none
  | some event => ((event.getOptional "record").get "eventId").map (·.asString)

/-- Do the hashes and the count of the records agree? -/
def checkRecords (manifest : Value) (events records : List Value) (expectedRecordsSha256 : String) :
    Bool :=
  (manifest.getOptional "recordsSha256").isString (stableHash stringify sha256 (.array records)) &&
  (manifest.getOptional "recordsSha256").isString expectedRecordsSha256 &&
  (manifest.getOptional "eventCount").isNumber events.length

/-- Do the first and the last event agree with the manifest? -/
def checkEnds (manifest : Value) (events : List Value) (firstEventId lastEventId : Option String)
    (finalHash : String) : Bool :=
  (manifest.getOptional "firstEventId").isStringOr firstEventId &&
  (manifest.getOptional "lastEventId").isStringOr lastEventId &&
  (manifest.getOptional "firstEventHash").isStringOr
    (events.head?.bind fun event => (event.getOptional "eventHash").asString) &&
  (manifest.getOptional "finalEventHash").isString finalHash

/-- Check the events against the manifest. -/
def verifyEvents (manifest : Value) (date : String) (events : List Value)
    (expectedRecordsSha256 : String) : Except String Unit := do
  let records ← events.mapM fun event => event.get "record"
  if checkRecords stringify sha256 manifest events records expectedRecordsSha256 then
    let finalHash ← verifyChain stringify sha256 date GENESIS_HASH events
    let firstEventId ← archivedEventId events.head?
    let lastEventId ← archivedEventId events.getLast?
    if checkEnds manifest events firstEventId lastEventId finalHash then .ok ()
    else .error (chainError date)
  else .error (conflictError date)

/-- Check the bundle of a day. -/
def verifyBundle (bundle : Value) (date : String) (start stop : ℤ)
    (expectedRecordsSha256 : String) : Except String Unit :=
  let manifest := bundle.getOptional "manifest"
  match bundle.getOptional "events" with
  | .array events =>
    if checkManifest manifest date start stop then
      verifyEvents stringify sha256 manifest date events expectedRecordsSha256
    else .error (manifestError date)
  | .leaf _ | .object _ => .error (manifestError date)

end Hashing

end Ascendance.ForensicArchive
