import Ascendance.Core.OrderedMap
import Ascendance.Core.Text
import Mathlib.Data.Finset.Card
import Mathlib.Data.Rat.Defs

/-!
# Scroll depth

A client session reports a threshold when its maximum depth in a feed passes one;
the server counts a reported depth under every threshold that it reaches. How a
client rounds the share of the items that were seen is a parameter.
-/

namespace Ascendance.Telemetry

open Ascendance.Core

/-- A call of `trackScrollDepth`. -/
structure ScrollCall where
  feedId : String
  visibleIndex : ℕ
  totalItems : ℕ
  deriving DecidableEq, Repr

/-- The data of a `scroll_depth` event. -/
structure ScrollEvent where
  feedId : String
  depth : ℕ
  itemsViewed : ℕ
  totalItems : ℕ
  deriving DecidableEq, Repr

/-- The depths that the client sends. -/
def thresholds : List ℕ := [25, 50, 75, 90, 100]

/-- The first threshold between two depths. -/
def crossedThreshold (currentMax depthPercent : ℕ) : Option ℕ :=
  thresholds.find? fun t => t ≤ depthPercent ∧ currentMax < t

section Client

variable (depthPercent : ℕ → ℕ → ℕ)

/-- The maxima of the feeds after a call, and the event that is tracked. -/
def trackScrollDepth (maxScrollDepths : OrderedMap String ℕ) (call : ScrollCall) :
    OrderedMap String ℕ × Option ScrollEvent :=
  if call.totalItems = 0 then (maxScrollDepths, none)
  else
    let depth := depthPercent call.visibleIndex call.totalItems
    let currentMax := (maxScrollDepths.get call.feedId).getD 0
    if currentMax < depth then
      (maxScrollDepths.set call.feedId depth, (crossedThreshold currentMax depth).map fun t =>
        ⟨call.feedId, t, call.visibleIndex, call.totalItems⟩)
    else (maxScrollDepths, none)

/-- The events of the calls of a session. -/
def trackCalls (maxScrollDepths : OrderedMap String ℕ) : List ScrollCall → List ScrollEvent
  | [] => []
  | call :: calls =>
    let (maxima, event) := trackScrollDepth depthPercent maxScrollDepths call
    event.toList ++ trackCalls maxima calls

/-- What a session tracks. -/
def sessionEvents (calls : List ScrollCall) : List ScrollEvent :=
  trackCalls depthPercent ∅ calls

/-- The depth that a call reaches; a call without items reaches none. -/
def callDepth (call : ScrollCall) : ℕ :=
  if call.totalItems = 0 then 0 else depthPercent call.visibleIndex call.totalItems

/-- The maximum depth that a session reaches in a feed. -/
def maxDepth (feedId : String) (calls : List ScrollCall) : ℕ :=
  ((calls.filter (·.feedId = feedId)).map (callDepth depthPercent)).foldl max 0

end Client

/-- The depths that the server counts. -/
def SCROLL_THRESHOLDS : List ℕ := [25, 50, 75, 90, 100]

/-- The feed under which all further feeds are counted. -/
def OTHER_DIMENSION : String := "__other__"

/-- How many feeds are counted one by one. -/
def MAX_FEED_DIMENSIONS : ℕ := 128

/-- The bound on the name of a feed. -/
def MAX_FEED_ID_LENGTH : ℕ := 512

/-- What is counted of a feed. -/
structure ScrollDepthAggregate where
  count : ℕ
  totalDepth : ℕ
  /-- The counts under `SCROLL_THRESHOLDS`. -/
  reachedThresholds : ℕ → ℕ

/-- What a bucket holds of feeds. -/
structure MetricsBucket where
  scrollDepths : OrderedMap String ScrollDepthAggregate
  feedDimensions : Finset String
  invalidEvents : ℕ
  coalescedDimensions : ℕ

/-- Nothing is counted. -/
def createEmptyBucket : MetricsBucket := ⟨∅, {OTHER_DIMENSION}, 0, 0⟩

/-- The trimmed name, unless it is empty or too long. -/
def normalizeDimension (value : Option String) (maxLength : ℕ) : Option String :=
  value.bind fun value =>
    let normalized := trim value
    if normalized ≠ "" ∧ utf16Length normalized ≤ maxLength then some normalized else none

/-- The dimension under which a feed is counted. -/
def MetricsBucket.admitDimension (bucket : MetricsBucket) (dimension : String) :
    MetricsBucket × String :=
  if dimension ∈ bucket.feedDimensions then (bucket, dimension)
  else if bucket.feedDimensions.card < MAX_FEED_DIMENSIONS then
    ({ bucket with feedDimensions := insert dimension bucket.feedDimensions }, dimension)
  else ({ bucket with coalescedDimensions := bucket.coalescedDimensions + 1 }, OTHER_DIMENSION)

/-- An aggregate with one more depth. -/
def ScrollDepthAggregate.add (aggregate : ScrollDepthAggregate) (depth : ℕ) :
    ScrollDepthAggregate where
  count := aggregate.count + 1
  totalDepth := aggregate.totalDepth + depth
  reachedThresholds t :=
    if t ∈ SCROLL_THRESHOLDS ∧ t ≤ depth then aggregate.reachedThresholds t + 1
    else aggregate.reachedThresholds t

/-- `processScrollDepth`; what is not a string, or not a finite number, is not given. -/
def MetricsBucket.processScrollDepth (bucket : MetricsBucket) (feedId : Option String)
    (depth : Option ℚ) : MetricsBucket :=
  match normalizeDimension feedId MAX_FEED_ID_LENGTH, depth with
  | some feedId, some depth =>
    if depth.den = 1 ∧ 0 ≤ depth.num ∧ depth.num ≤ 100 then
      let (bucket, admittedFeedId) := bucket.admitDimension feedId
      let aggregate := (bucket.scrollDepths.get admittedFeedId).getD ⟨0, 0, fun _ => 0⟩
      { bucket with
        scrollDepths :=
          bucket.scrollDepths.set admittedFeedId (aggregate.add depth.num.toNat) }
    else { bucket with invalidEvents := bucket.invalidEvents + 1 }
  | _, _ => { bucket with invalidEvents := bucket.invalidEvents + 1 }

/-- A bucket after the events that were delivered to it. -/
def processEvents (events : List ScrollEvent) : MetricsBucket :=
  events.foldl (fun bucket event => bucket.processScrollDepth event.feedId (event.depth : ℚ))
    createEmptyBucket

/-- A feed in the summary of a bucket. -/
structure ScrollDepthSummary where
  feedId : String
  avgMaxDepth : ℕ
  reachedThresholds : ℕ → ℕ

/-- The feeds of `computeSummary`; the average is rounded half up. -/
def MetricsBucket.computeSummary (bucket : MetricsBucket) : List ScrollDepthSummary :=
  bucket.scrollDepths.entries.map fun e => {
    feedId := e.1
    avgMaxDepth := if 0 < e.2.count then (2 * e.2.totalDepth + e.2.count) / (2 * e.2.count) else 0
    reachedThresholds := e.2.reachedThresholds }

/-- The count of a feed under a threshold; a feed without events has none. -/
def reachedThresholds (summary : List ScrollDepthSummary) (feedId : String) (t : ℕ) : ℕ :=
  (summary.find? (·.feedId = feedId)).elim 0 (·.reachedThresholds t)

/-- The summary reports what the bucket has counted. -/
theorem reachedThresholds_summary (bucket : MetricsBucket) (feedId : String) (t : ℕ) :
    reachedThresholds bucket.computeSummary feedId t =
      (bucket.scrollDepths.get feedId).elim 0 (·.reachedThresholds t) := by
  unfold reachedThresholds MetricsBucket.computeSummary
  rw [List.find?_map]
  change ((bucket.scrollDepths.entries.find? fun e => e.1 = feedId).map _).elim 0 _ = _
  rw [OrderedMap.find?_entries]
  cases bucket.scrollDepths.get feedId <;> rfl

end Ascendance.Telemetry
