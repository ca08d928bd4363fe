import Ascendance.Core.Base64
import Ascendance.Models.Feed.CursorVariant

/-!
# Feed cursors

A cursor is the payload as JSON, in base64 for URLs, with a signature of that text
after a dot. The cursors of the new phase of the trending feed stand in an envelope.
-/

namespace Ascendance.Feed

open Ascendance.Core

/-- JSON as bytes, and the digest of a text under a secret. -/
structure CursorPrimitives where
  stringify : JsObject → List UInt8
  parse : List UInt8 → Option JsValue
  hmac : String → String → List UInt8
  length_hmac : ∀ secret text, (hmac secret text).length = 32

/-- JSON writes an object, and reads its defined properties back. -/
structure CursorPrimitives.WritesJson (p : CursorPrimitives) (o : JsObject) : Prop where
  stringify_ne_nil : p.stringify o ≠ []
  parse_stringify : p.parse (p.stringify o) = some (.object o.defined)

/-- The variables of the environment of a process. -/
structure CursorEnv where
  feedCursorSecret : Option String
  jwtSecret : Option String
  nodeEnv : Option String

/-- The feed and the orders that a reader takes, and the source if it minds. -/
structure CursorExpectation where
  feed : FeedCursorFeed
  orders : List FeedCursorOrder
  source : Option FeedCursorSource

/-- The secret of the signature, from the environment. -/
def getFeedCursorSecret (env : CursorEnv) : Checked String :=
  match (env.feedCursorSecret.or env.jwtSecret).filter (· ≠ "") with
  | some secret => .ok secret
  | none =>
    if env.nodeEnv = some "test" then .ok "ascendance-feed-cursor-test-secret-v2"
    else .error (.config "FEED_CURSOR_SECRET or JWT_SECRET must be configured")

/-- The encoded payload and its signature. -/
def encodeAuthenticatedCursor (p : CursorPrimitives) (payload : JsObject) (secret : String) :
    String :=
  let encodedPayload := String.ofList (Base64.encode (p.stringify payload))
  let signature := String.ofList (Base64.encode (p.hmac secret encodedPayload))
  encodedPayload ++ "." ++ signature

/-- The text before the only dot is read once the signature after it has been compared. -/
def decodeAuthenticatedCursor (p : CursorPrimitives) (cursor : String) (secret : String) :
    Option JsObject :=
  let encodedPayload := String.ofList (cursor.toList.takeWhile (· ≠ '.'))
  match cursor.toList.dropWhile (· ≠ '.') with
  | _ :: signature =>
    if encodedPayload ≠ "" ∧ '.' ∉ signature ∧ isHash (String.ofList signature) = true ∧
        Base64.decode signature = p.hmac secret encodedPayload then
      match p.parse (Base64.decode encodedPayload.toList) with
      | some (.object fields) => some fields
      | _ => none
    else none
  | [] => none

/-- The mark before the cursors of the second trending phase. -/
def envelope : String := "new_phase:"

/-- The payload with the version and the expiry of a cursor minted at a time. -/
def completePayload (payload : JsObject) (clock : ℕ) : JsObject :=
  (payload.set "version" (.number (.finite FEED_CURSOR_VERSION))).set "expiresAt"
    (.number (.finite ((clock / 1000 + FEED_CURSOR_TTL_SECONDS : ℕ) : ℤ)))

/-- Complete a payload, check it, sign it and check its size. -/
def encodeFeedCursorPayload (p : CursorPrimitives) (env : CursorEnv) (payload : JsObject)
    (hasTrendingNewEnvelope : Bool) (clock : ℕ) : Checked String := do
  let complete := completePayload payload clock
  assertFeedCursorPayload complete hasTrendingNewEnvelope clock
  let secret ← getFeedCursorSecret env
  let encoded := encodeAuthenticatedCursor p complete secret
  ensure (utf16Length encoded ≤ MAX_FEED_CURSOR_ENCODED_LENGTH)
    "Feed cursor exceeds the maximum encoded size"
  return encoded

/-- Encode a cursor without an envelope. -/
def encodeFeedCursor (p : CursorPrimitives) (env : CursorEnv) (payload : JsObject) (clock : ℕ) :
    Checked String :=
  encodeFeedCursorPayload p env payload false clock

/-- Encode a cursor of the second trending phase. -/
def encodeTrendingNewCursor (p : CursorPrimitives) (env : CursorEnv) (payload : JsObject)
    (clock : ℕ) : Checked String := do
  let encoded := envelope ++ (← encodeFeedCursorPayload p env payload true clock)
  ensure (utf16Length encoded ≤ MAX_FEED_CURSOR_ENCODED_LENGTH)
    "Feed cursor exceeds the maximum encoded size"
  return encoded

/-- Does the cursor carry the envelope? -/
def hasTrendingNewEnvelope (cursor : String) : Bool :=
  envelope.toList.isPrefixOf cursor.toList

/-- The cursor without its envelope. -/
def cursorToken (cursor : String) : String :=
  if hasTrendingNewEnvelope cursor then
    String.ofList (cursor.toList.drop envelope.toList.length)
  else cursor

/-- Decode a cursor and check its signature, its payload and its feed. -/
def decodeFeedCursor (p : CursorPrimitives) (env : CursorEnv) (cursor : String)
    (expected : CursorExpectation) (clock : ℕ) : Checked JsObject := do
  ensure (utf16Length cursor ≤ MAX_FEED_CURSOR_ENCODED_LENGTH)
    "Feed cursor exceeds the maximum encoded size"
  ensure (!(hasTrendingNewEnvelope cursor && expected.feed ≠ .trending))
    "Feed cursor does not match this feed"
  let secret ← getFeedCursorSecret env
  match decodeAuthenticatedCursor p (cursorToken cursor) secret with
  | none => throw (.validation "Invalid or unauthenticated feed cursor")
  | some payload => do
    assertFeedCursorPayload payload (hasTrendingNewEnvelope cursor) clock
    ensure ((payload.get "feed").isString (· == expected.feed.text))
      "Feed cursor does not match this feed"
    ensure (expected.orders.any fun order => (payload.get "order").isString (· == order.text))
      "Feed cursor ordering is not supported"
    ensure (expected.source.all fun source => (payload.get "source").isString (· == source.text))
      "Feed cursor source is not supported"
    return payload

end Ascendance.Feed
