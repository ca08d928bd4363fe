import Ascendance.Core.Number
import Ascendance.Models.Feed.Snapshot

/-!
# Payloads of feed cursors

The payload of a cursor is an object of the source language. Its order decides
which other fields it has; the checks run when a cursor is minted and again when
it is read.
-/

namespace Ascendance.Feed

open Ascendance.Core

/-- The errors of the codec: the client's and the configuration's. -/
inductive FeedCursorError where
  | validation (message : String)
  | config (message : String)
  deriving DecidableEq, Repr

/-- A result or an error of the codec. -/
abbrev Checked := Except FeedCursorError

/-- Throw unless a condition holds. -/
def ensure (holds : Bool) (message : String) : Checked Unit :=
  if holds then .ok () else .error (.validation message)

/-- A value that a payload may hold. -/
inductive JsValue where
  | undefined
  | null
  | bool (value : Bool)
  | number (value : JsNumber)
  | string (text : String)
  | array (items : List JsValue)
  | object (fields : List (String × JsValue))

/-- The properties of an object, in their order. -/
abbrev JsObject := List (String × JsValue)

namespace JsValue

/-- Is the value `undefined`? -/
def isUndefined : JsValue → Bool
  | undefined => true
  | _ => false

/-- Is the value a string that passes the test? -/
def isString (v : JsValue) (test : String → Bool) : Bool :=
  match v with
  | string text => test text
  | _ => false

/-- Is the value a safe integer that passes the test? -/
def isInteger (v : JsValue) (test : ℤ → Bool) : Bool :=
  match v with
  | number (.finite q) => (JsNumber.finite q).isSafeInteger && test q.num
  | _ => false

end JsValue

namespace JsObject

/-- The property names of an object. -/
def keys (o : JsObject) : List String := o.map (·.1)

/-- A property that an object does not have is undefined. -/
def get (o : JsObject) (key : String) : JsValue := (o.lookup key).getD .undefined

/-- Has the object a property that is not `undefined`? -/
def has (o : JsObject) (key : String) : Bool := !(JsObject.get o key).isUndefined

/-- A property that a literal gives after spreading an object. -/
def set (o : JsObject) (key : String) (v : JsValue) : JsObject :=
  if key ∈ keys o then o.map fun field => if field.1 = key then (key, v) else field
  else o ++ [(key, v)]

/-- The properties that are written as JSON. -/
def defined (o : JsObject) : JsObject := o.filter fun field => !field.2.isUndefined

end JsObject

/-- The name of a feed in a cursor. -/
def FeedCursorFeed.text : FeedCursorFeed → String
  | .new => "new"
  | .personalized => "personalized"
  | .forYou => "for-you"
  | .trending => "trending"
  | .preview => "preview"

/-- The name of a source in a cursor. -/
def FeedCursorSource.text : FeedCursorSource → String
  | .mongo => "mongo"
  | .redis => "redis"

/-- The name of an order in a cursor. -/
def FeedCursorOrder.text : FeedCursorOrder → String
  | .new => "new-created-at-id-desc-v1"
  | .personalized => "personalized-created-at-id-desc-v1"
  | .personalizedRanked => "personalized-rank-score-id-desc-v1"
  | .forYou => "for-you-rank-score-id-desc-v1"
  | .trending => "trending-score-id-desc-v1"
  | .trendingNew => "trending-new-created-at-id-desc-v1"
  | .previewLatest => "preview-created-at-id-desc-v1"
  | .previewRelevant => "preview-rank-score-id-desc-v1"

/-- All orders. -/
def orders : List FeedCursorOrder :=
  [.new, .personalized, .personalizedRanked, .forYou, .trending, .trendingNew, .previewLatest,
    .previewRelevant]

/-- The order that a value names. -/
def orderOf (v : JsValue) : Option FeedCursorOrder :=
  orders.find? fun order => v.isString (· == order.text)

/-- The version of the payload. -/
def FEED_CURSOR_VERSION : ℤ := 2

/-- The bound on the length of an encoded cursor. -/
def MAX_FEED_CURSOR_ENCODED_LENGTH : ℕ := 2048

/-- The largest offset into a snapshot. -/
def MAX_OFFSET : ℤ := 1000000

/-- The properties that every payload has. -/
def BASE_KEYS : List String := ["version", "feed", "order", "source", "expiresAt"]

/-- `OBJECT_ID_PATTERN`. -/
def isObjectId (s : String) : Bool :=
  s.toList.length == 24 && s.toList.all fun c =>
    c.isDigit || ('a' ≤ c && c ≤ 'f') || ('A' ≤ c && c ≤ 'F')

/-- The number that digits write. -/
def readDigits (cs : List Char) : Option ℕ :=
  if cs.all Char.isDigit then some (cs.foldl (fun n c => n * 10 + (c.toNat - 48)) 0) else none

/-- The year at the start of a date: four digits, or a sign and six for years outside these. -/
def readYear : List Char → Option (ℤ × List Char)
  | '+' :: a :: b :: c :: d :: e :: f :: rest =>
    (readDigits [a, b, c, d, e, f]).bind fun n => if 9999 < n then some (n, rest) else none
  | '-' :: a :: b :: c :: d :: e :: f :: rest =>
    (readDigits [a, b, c, d, e, f]).bind fun n => if 0 < n then some (-n, rest) else none
  | a :: b :: c :: d :: rest => (readDigits [a, b, c, d]).map fun n => (n, rest)
  | _ => none

/-- The days of a month. -/
def daysInMonth (year : ℤ) (month : ℕ) : ℕ :=
  if month = 2 then
    if year % 4 = 0 ∧ (year % 100 ≠ 0 ∨ year % 400 = 0) then 29 else 28
  else if month ∈ [4, 6, 9, 11] then 30 else 31

/-- A day and a time of day within the times that a date can have. -/
def isTime (year : ℤ) (month day hour minute second ms : ℕ) : Bool :=
  let date := year * 10000 + month * 100 + day
  decide (1 ≤ month ∧ month ≤ 12 ∧ 1 ≤ day ∧ day ≤ daysInMonth year month ∧
    hour ≤ 23 ∧ minute ≤ 59 ∧ second ≤ 59 ∧ -2718209580 ≤ date ∧
    (date < 2757600913 ∨ date = 2757600913 ∧ hour = 0 ∧ minute = 0 ∧ second = 0 ∧ ms = 0))

/-- The texts that `toISOString` writes. -/
def isIsoDate (s : String) : Bool :=
  match readYear s.toList with
  | some (year, ['-', m₁, m₂, '-', d₁, d₂, 'T', h₁, h₂, ':', n₁, n₂, ':', s₁, s₂, '.', f₁, f₂, f₃,
      'Z']) =>
    match readDigits [m₁, m₂], readDigits [d₁, d₂], readDigits [h₁, h₂], readDigits [n₁, n₂],
      readDigits [s₁, s₂], readDigits [f₁, f₂, f₃] with
    | some month, some day, some hour, some minute, some second, some ms =>
      isTime year month day hour minute second ms
    | _, _, _, _, _, _ => false
  | _ => false

/-- A date of a cursor; its length is bounded before it is read. -/
def isCursorDate (s : String) : Bool := decide (utf16Length s ≤ 32) && isIsoDate s

/-- No other properties are there. -/
def assertExactKeys (payload : JsObject) (allowedKeys : List String) : Checked Unit :=
  ensure (payload.keys.all fun key => key ∈ allowedKeys) "Feed cursor contains unknown properties"

/-- The value is the expected text. -/
def assertLiteral (value : JsValue) (expected : String) : Checked Unit :=
  ensure (value.isString (· == expected)) "Invalid feed cursor variant"

/-- The value names a source. -/
def assertFeedSource (value : JsValue) : Checked Unit :=
  ensure (value.isString (· == "mongo") || value.isString (· == "redis"))
    "Feed cursor source is not supported"

/-- The source that a variant fixes, or any. -/
def assertSource (value : JsValue) : Option FeedCursorSource → Checked Unit
  | none => assertFeedSource value
  | some source => assertLiteral value source.text

/-- The value is a date in the format of the cursors. -/
def assertDate (value : JsValue) : Checked Unit :=
  ensure (value.isString isCursorDate) "Invalid feed cursor date"

/-- The value is the identifier of a document. -/
def assertObjectId (value : JsValue) : Checked Unit :=
  ensure (value.isString isObjectId) "Invalid feed cursor identity"

/-- The value is a hash. -/
def assertHash (value : JsValue) (field : String) : Checked Unit :=
  ensure (value.isString isHash) ("Invalid feed cursor " ++ field)

/-- The value is the identifier of a snapshot. -/
def assertSnapshotId (value : JsValue) : Checked Unit :=
  ensure (value.isString isSnapshotId) "Invalid feed cursor snapshot"

/-- The value, if any, is the identifier of a snapshot. -/
def assertOptionalSnapshotId (value : JsValue) : Checked Unit :=
  if value.isUndefined then pure () else assertSnapshotId value

/-- The value is an offset within its bound. -/
def assertOffset (value : JsValue) : Checked Unit :=
  ensure (value.isInteger fun n => 0 ≤ n ∧ n ≤ MAX_OFFSET) "Invalid feed cursor offset"

/-- The value is a time that has not passed. -/
def assertExpiry (value : JsValue) (clock : ℕ) : Checked Unit := do
  ensure (value.isInteger fun _ => true) "Invalid feed cursor expiry"
  ensure (value.isInteger fun n => (clock / 1000 : ℕ) < n) "Feed cursor has expired"

/-- The payload has an anchor. -/
def assertRequiredAnchor (payload : JsObject) : Checked Unit := do
  assertDate (payload.get "createdAt")
  assertObjectId (payload.get "_id")

/-- The payload has a whole anchor or none. -/
def assertOptionalAnchor (payload : JsObject) : Checked Unit := do
  ensure (payload.has "createdAt" == payload.has "_id") "Invalid feed cursor anchor"
  if payload.has "createdAt" then assertRequiredAnchor payload else pure ()

/-- The cursor carries no envelope. -/
def assertNoTrendingEnvelope (hasTrendingNewEnvelope : Bool) : Checked Unit :=
  ensure (!hasTrendingNewEnvelope) "Feed cursor ordering is not supported"

/-- A cursor that continues nothing. -/
def assertContinuation (payload : JsObject) : Checked Unit :=
  ensure (payload.has "createdAt" || payload.has "snapshotId")
    "Invalid feed cursor continuation state"

/-- The payload of a cursor into a snapshot. -/
def assertSnapshotCursor (payload : JsObject) (feed : FeedCursorFeed)
    (source : Option FeedCursorSource) (requiresScope : Bool) : Checked Unit := do
  assertExactKeys payload
    (BASE_KEYS ++ ["snapshotId", "offset"] ++ if requiresScope then ["scope"] else [])
  assertLiteral (payload.get "feed") feed.text
  assertSource (payload.get "source") source
  assertSnapshotId (payload.get "snapshotId")
  assertOffset (payload.get "offset")
  if requiresScope then assertHash (payload.get "scope") "scope" else pure ()

/-- The checks that the orders have of their own. -/
def assertVariant (payload : JsObject) (hasTrendingNewEnvelope : Bool) :
    FeedCursorOrder → Checked Unit
  | .new => do
    assertExactKeys payload (BASE_KEYS ++ ["phase", "createdAt", "_id", "snapshotId"])
    assertLiteral (payload.get "feed") "new"
    assertLiteral (payload.get "source") "mongo"
    assertLiteral (payload.get "phase") "new"
    assertOptionalAnchor payload
    assertOptionalSnapshotId (payload.get "snapshotId")
    assertContinuation payload
    assertNoTrendingEnvelope hasTrendingNewEnvelope
  | .personalized => do
    assertExactKeys payload (BASE_KEYS ++ ["phase", "createdAt", "_id", "scope"])
    assertLiteral (payload.get "feed") "personalized"
    assertLiteral (payload.get "source") "mongo"
    ensure ((payload.get "phase").isString fun s => s == "personalized" || s == "backfill")
      "Invalid personalized feed cursor phase"
    assertRequiredAnchor payload
    assertHash (payload.get "scope") "scope"
    assertNoTrendingEnvelope hasTrendingNewEnvelope
  | .personalizedRanked => do
    assertSnapshotCursor payload .personalized (some .mongo) true
    assertNoTrendingEnvelope hasTrendingNewEnvelope
  | .forYou => do
    assertSnapshotCursor payload .forYou none true
    assertNoTrendingEnvelope hasTrendingNewEnvelope
  | .previewLatest | .previewRelevant => do
    assertSnapshotCursor payload .preview (some .mongo) true
    assertNoTrendingEnvelope hasTrendingNewEnvelope
  | .trending => do
    assertExactKeys payload (BASE_KEYS ++ ["phase", "snapshotId", "offset"])
    assertLiteral (payload.get "feed") "trending"
    assertFeedSource (payload.get "source")
    assertLiteral (payload.get "phase") "trending"
    assertSnapshotId (payload.get "snapshotId")
    assertOffset (payload.get "offset")
    assertNoTrendingEnvelope hasTrendingNewEnvelope
  | .trendingNew => do
    assertExactKeys payload (BASE_KEYS ++ ["phase", "snapshotId", "createdAt", "_id"])
    assertLiteral (payload.get "feed") "trending"
    assertLiteral (payload.get "source") "mongo"
    assertLiteral (payload.get "phase") "new"
    assertOptionalSnapshotId (payload.get "snapshotId")
    assertOptionalAnchor payload
    assertContinuation payload
    ensure hasTrendingNewEnvelope "Feed cursor ordering is not supported"

/-- The payload is one that the codec would write. -/
def assertFeedCursorPayload (payload : JsObject) (hasTrendingNewEnvelope : Bool) (clock : ℕ) :
    Checked Unit := do
  ensure ((payload.get "version").isInteger (· == FEED_CURSOR_VERSION))
    "Unsupported feed cursor version"
  assertExpiry (payload.get "expiresAt") clock
  match orderOf (payload.get "order") with
  | some order => assertVariant payload hasTrendingNewEnvelope order
  | none => throw (.validation "Feed cursor ordering is not supported")

end Ascendance.Feed
