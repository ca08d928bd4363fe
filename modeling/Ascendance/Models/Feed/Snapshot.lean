import Ascendance.Core.Text

/-!
# Feed snapshots

A ranked feed is paged over a snapshot of its ranking, which is stored in Redis
and named by an identifier in the cursors of the feed.
-/

namespace Ascendance.Feed

/-- The feeds that have cursors. -/
inductive FeedCursorFeed where
  | new
  | personalized
  | forYou
  | trending
  | preview
  deriving DecidableEq, Repr

/-- The stores that a snapshot is built from. -/
inductive FeedCursorSource where
  | mongo
  | redis
  deriving DecidableEq, Repr

/-- `FEED_CURSOR_ORDER`. -/
inductive FeedCursorOrder where
  | new
  | personalized
  | personalizedRanked
  | forYou
  | trending
  | trendingNew
  | previewLatest
  | previewRelevant
  deriving DecidableEq, Repr

/-- How long a cursor is valid. -/
def FEED_CURSOR_TTL_SECONDS : ℕ := 60 * 60

/-- How long a snapshot is kept. -/
def FEED_CURSOR_SNAPSHOT_TTL_SECONDS : ℕ := FEED_CURSOR_TTL_SECONDS

/-- How long a context keeps the name of its snapshot. -/
def FEED_CURSOR_SNAPSHOT_GENERATION_SECONDS : ℕ := 5 * 60

/-- The bound on the entries of a snapshot. -/
def MAX_FEED_CURSOR_SNAPSHOT_ITEMS : ℕ := 5000

/-- The bound on the size of a snapshot. -/
def MAX_FEED_CURSOR_SNAPSHOT_BYTES : ℕ := 2 * 1024 * 1024

/-- The bound on the texts of a snapshot. -/
def MAX_SNAPSHOT_STRING_LENGTH : ℕ := 128

/-- The identifiers of an entry are texts of object identifiers; a score is a finite number. -/
structure FeedCursorSnapshotEntry where
  id : String
  publicId : String
  visibleIdentityId : String
  score : Option Rat
  reason : Option String
  deriving DecidableEq, Repr

/-- A list of posts as a request has ranked it. -/
structure FeedCursorSnapshot where
  feed : FeedCursorFeed
  order : FeedCursorOrder
  source : FeedCursorSource
  scope : Option String
  entries : List FeedCursorSnapshotEntry
  excludedIdentityIds : Option (List String)
  deriving DecidableEq, Repr

/-- A character of base64 for URLs. -/
def isBase64Url (c : Char) : Bool := c.isAlphanum || c == '-' || c == '_'

/-- `HASH_PATTERN`. -/
def isHash (s : String) : Bool := s.toList.length == 43 && s.toList.all isBase64Url

/-- `SNAPSHOT_ID_PATTERN`. -/
def isSnapshotId (s : String) : Bool :=
  isHash (String.ofList (s.toList.take 43)) &&
    match s.toList.drop 43 with
    | '.' :: digits => 1 ≤ digits.length && digits.length ≤ 12 && digits.all Char.isDigit
    | _ => false

/-- The reasons a ranking may give. -/
def isReason (s : String) : Bool :=
  let isWord (word : List Char) := 1 ≤ word.length && word.length ≤ 32 && word.all Char.isLower
  s ∈ ["format:text", "format:image", "format:mixed", "activity"] ||
    match s.toList with
    | 'c' :: 'h' :: 'o' :: 's' :: 'e' :: 'n' :: ':' :: word => isWord word
    | 'l' :: 'e' :: 'a' :: 'r' :: 'n' :: 'e' :: 'd' :: ':' :: word => isWord word
    | _ => false

/-- The feeds with the orders, sources and scopes that they have. -/
def FeedCursorSnapshot.isKnownVariant (snapshot : FeedCursorSnapshot) : Bool :=
  match snapshot.feed, snapshot.order, snapshot.source, snapshot.scope with
  | .preview, .previewLatest, .mongo, some _ | .preview, .previewRelevant, .mongo, some _ => true
  | .new, .new, .mongo, none => true
  | .personalized, .personalizedRanked, .mongo, some _ => true
  | .forYou, .forYou, _, some _ => true
  | .trending, .trending, _, none => true
  | _, _, _, _ => false

/-- An identifier of an entry or an exclusion. -/
def isSnapshotString (s : String) : Bool :=
  s ≠ "" && Core.utf16Length s ≤ MAX_SNAPSHOT_STRING_LENGTH

/-- `assertFeedCursorSnapshot`. -/
def assertFeedCursorSnapshot (snapshot : FeedCursorSnapshot) : Bool :=
  snapshot.isKnownVariant &&
    snapshot.scope.all isHash &&
    decide (snapshot.entries.length ≤ MAX_FEED_CURSOR_SNAPSHOT_ITEMS) &&
    snapshot.excludedIdentityIds.all (·.length ≤ MAX_FEED_CURSOR_SNAPSHOT_ITEMS) &&
    snapshot.entries.all (fun entry =>
      isSnapshotString entry.id && isSnapshotString entry.publicId &&
        isSnapshotString entry.visibleIdentityId && entry.reason.all isReason) &&
    decide ((snapshot.entries.map (·.id)).Nodup) &&
    (snapshot.excludedIdentityIds.getD []).all isSnapshotString &&
    decide (snapshot.excludedIdentityIds.getD []).Nodup

end Ascendance.Feed
