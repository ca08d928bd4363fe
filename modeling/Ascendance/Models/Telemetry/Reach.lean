import Ascendance.Models.Telemetry.Scroll
import Mathlib.Algebra.Order.BigOperators.Group.List
import Mathlib.Algebra.Order.Ring.Nat
import Mathlib.Data.List.Induction
import Mathlib.Data.Rat.Lemmas

/-!
# Sessions that reach a threshold

A session that passes several thresholds in one call reports the lowest of them only,
and one that passes them one after another is counted again under those it reported
before. So the server counts every session once just for the feeds in which no session
comes as far as the second threshold.
-/

namespace Ascendance.Telemetry

open Ascendance.Core

/-- A crossed threshold is above the old depth and not above the new one. -/
private theorem crossedThreshold_spec {c d t : ℕ} (h : crossedThreshold c d = some t) :
    t ∈ thresholds ∧ c < t ∧ t ≤ d := by
  have hp := List.find?_some h
  have hmem := List.mem_of_find?_eq_some h
  simp only [decide_eq_true_eq] at hp
  exact ⟨hmem, hp.2, hp.1⟩

/-- The lowest threshold is reported first. -/
theorem crossedThreshold_first {c d : ℕ} (hc : c < 25) (hd : 25 ≤ d) :
    crossedThreshold c d = some 25 := by
  unfold crossedThreshold thresholds
  rw [List.find?_cons_of_pos (by simp [hc, hd])]

private theorem threshold_ge {t : ℕ} (h : t ∈ thresholds) : 25 ≤ t ∧ t ≤ 100 ∧
    (t < 50 → t = 25) := by
  simp only [thresholds, List.mem_cons, List.not_mem_nil, or_false] at h
  omega

section Client

variable {depthPercent : ℕ → ℕ → ℕ} {maxima : OrderedMap String ℕ}

/-- The maximum depth in a feed so far. -/
def currentMax (maxima : OrderedMap String ℕ) (feedId : String) : ℕ := (maxima.get feedId).getD 0

variable (depthPercent maxima) in
/-- What a call does to the maxima. -/
theorem trackScrollDepth_max (call : ScrollCall) (feedId : String) :
    currentMax (trackScrollDepth depthPercent maxima call).1 feedId =
      if call.feedId = feedId then max (currentMax maxima feedId) (callDepth depthPercent call)
      else currentMax maxima feedId := by
  unfold trackScrollDepth callDepth currentMax
  split
  · simp
  · dsimp only
    split
    · next h =>
      rw [OrderedMap.get_set]
      by_cases hf : call.feedId = feedId
      · subst hf
        simp only [if_true, Option.getD_some]
        omega
      · rw [if_neg hf, if_neg (Ne.symm hf)]
    · next h =>
      by_cases hf : call.feedId = feedId
      · subst hf
        simp only [if_true]
        omega
      · rw [if_neg hf]

/-- The event that a call tracks. -/
theorem trackScrollDepth_event (call : ScrollCall) :
    (trackScrollDepth depthPercent maxima call).2 =
      (crossedThreshold (currentMax maxima call.feedId) (callDepth depthPercent call)).map fun t =>
        ⟨call.feedId, t, call.visibleIndex, call.totalItems⟩ := by
  have hnone : ∀ {c d : ℕ}, ¬c < d → crossedThreshold c d = none := by
    intro c d h
    refine List.find?_eq_none.mpr fun t _ => ?_
    simp only [decide_eq_true_eq]
    omega
  unfold trackScrollDepth callDepth
  split
  · rw [hnone (by omega)]
    rfl
  · dsimp only
    split
    · rfl
    · next h =>
      rw [currentMax, hnone h]
      rfl

/-- The maximum depth in a feed after more calls. -/
def depthAfter (depthPercent : ℕ → ℕ → ℕ) (feedId : String) (c : ℕ) (calls : List ScrollCall) : ℕ :=
  ((calls.filter (·.feedId = feedId)).map (callDepth depthPercent)).foldl max c

private theorem depthAfter_cons (feedId : String) (c : ℕ) (call : ScrollCall)
    (calls : List ScrollCall) :
    depthAfter depthPercent feedId c (call :: calls) = depthAfter depthPercent feedId
      (if call.feedId = feedId then max c (callDepth depthPercent call) else c) calls := by
  unfold depthAfter
  by_cases h : call.feedId = feedId <;> simp [h]

variable (depthPercent) in
private theorem le_depthAfter (feedId : String) (c : ℕ) (calls : List ScrollCall) :
    c ≤ depthAfter depthPercent feedId c calls := by
  induction calls generalizing c with
  | nil => exact Nat.le_refl c
  | cons call calls ih =>
    rw [depthAfter_cons]
    refine Nat.le_trans ?_ (ih _)
    split
    · exact Nat.le_max_left _ _
    · exact Nat.le_refl c

/-- A depth stays below a bound when every call does. -/
private theorem depthAfter_lt {feedId : String} {c n : ℕ} {calls : List ScrollCall} :
    depthAfter depthPercent feedId c calls < n ↔
      c < n ∧ ∀ call ∈ calls, call.feedId = feedId → callDepth depthPercent call < n := by
  induction calls generalizing c with
  | nil => simp [depthAfter]
  | cons call calls ih =>
    rw [depthAfter_cons, ih, List.forall_mem_cons]
    by_cases h : call.feedId = feedId
    · rw [if_pos h, max_lt_iff, and_assoc]
      simp only [h, true_implies]
    · rw [if_neg h]
      simp only [h, false_implies, true_and]

/-- The events in a feed. -/
def feedEvents (feedId : String) (events : List ScrollEvent) : List ScrollEvent :=
  events.filter (·.feedId = feedId)

/-- The events of a feed after one more call. -/
private theorem feedEvents_cons (feedId : String) (call : ScrollCall) (calls : List ScrollCall) :
    feedEvents feedId (trackCalls depthPercent maxima (call :: calls)) =
      feedEvents feedId (trackScrollDepth depthPercent maxima call).2.toList ++
        feedEvents feedId
          (trackCalls depthPercent (trackScrollDepth depthPercent maxima call).1 calls) := by
  rw [trackCalls]
  exact List.filter_append ..

/-- The event of a call is in the feed of the call, between the maxima. -/
theorem callEvent_depth {feedId : String} {call : ScrollCall} {e : ScrollEvent}
    (h : e ∈ feedEvents feedId (trackScrollDepth depthPercent maxima call).2.toList) :
    call.feedId = feedId ∧ e.depth ∈ thresholds ∧ currentMax maxima feedId < e.depth ∧
      e.depth ≤ callDepth depthPercent call := by
  obtain ⟨he, hfeed⟩ := List.mem_filter.mp h
  rw [Option.mem_toList, trackScrollDepth_event] at he
  obtain ⟨t, ht, rfl⟩ := Option.map_eq_some_iff.mp he
  obtain rfl : call.feedId = feedId := by simpa using hfeed
  exact ⟨rfl, crossedThreshold_spec ht⟩

/-- A reported depth is a threshold between the maximum before and the maximum after. -/
theorem feedEvents_depth {feedId : String} {calls : List ScrollCall} {e : ScrollEvent}
    (h : e ∈ feedEvents feedId (trackCalls depthPercent maxima calls)) :
    e.depth ∈ thresholds ∧ currentMax maxima feedId < e.depth ∧
      e.depth ≤ depthAfter depthPercent feedId (currentMax maxima feedId) calls := by
  induction calls generalizing maxima with
  | nil => cases h
  | cons call calls ih =>
    have hafter := trackScrollDepth_max depthPercent maxima call feedId
    rw [feedEvents_cons, List.mem_append] at h
    rw [depthAfter_cons, ← hafter]
    rcases h with h | h
    · obtain ⟨hfeed, hmem, hlt, hle⟩ := callEvent_depth h
      have hlater := le_depthAfter depthPercent feedId
        (currentMax (trackScrollDepth depthPercent maxima call).1 feedId) calls
      rw [if_pos hfeed] at hafter
      exact ⟨hmem, hlt, by omega⟩
    · obtain ⟨hmem, hlt, hle⟩ := ih h
      refine ⟨hmem, Nat.lt_of_le_of_lt ?_ hlt, hle⟩
      rw [hafter]
      split <;> omega

/-- A session that reaches the first threshold reports it. -/
theorem exists_first {feedId : String} {calls : List ScrollCall}
    (hbefore : currentMax maxima feedId < 25)
    (hafter : 25 ≤ depthAfter depthPercent feedId (currentMax maxima feedId) calls) :
    ∃ e ∈ feedEvents feedId (trackCalls depthPercent maxima calls), e.depth = 25 := by
  induction calls generalizing maxima with
  | nil => exact absurd hafter (Nat.not_le.mpr hbefore)
  | cons call calls ih =>
    have hnext := trackScrollDepth_max depthPercent maxima call feedId
    rw [feedEvents_cons]
    rw [depthAfter_cons, ← hnext] at hafter
    by_cases hreached : currentMax (trackScrollDepth depthPercent maxima call).1 feedId < 25
    · obtain ⟨e, he, hdepth⟩ := ih hreached hafter
      exact ⟨e, List.mem_append_right _ he, hdepth⟩
    · rw [hnext] at hreached
      split at hreached
      · next hfeed =>
        have hdepth : 25 ≤ callDepth depthPercent call := by omega
        subst hfeed
        rw [trackScrollDepth_event, crossedThreshold_first hbefore hdepth]
        exact ⟨_, List.mem_append_left _ (by simp [feedEvents]; rfl), rfl⟩
      · exact absurd hbefore hreached

/-- A session that does not reach the second threshold reports once at most. -/
theorem feedEvents_length_le {feedId : String} {calls : List ScrollCall}
    (hafter : depthAfter depthPercent feedId (currentMax maxima feedId) calls < 50) :
    (feedEvents feedId (trackCalls depthPercent maxima calls)).length ≤ 1 := by
  induction calls generalizing maxima with
  | nil => exact Nat.zero_le 1
  | cons call calls ih =>
    have hnext := trackScrollDepth_max depthPercent maxima call feedId
    rw [feedEvents_cons, List.length_append]
    rw [depthAfter_cons, ← hnext] at hafter
    have hcall :
        (feedEvents feedId (trackScrollDepth depthPercent maxima call).2.toList).length ≤ 1 :=
      (List.length_filter_le _ _).trans
      (by cases (trackScrollDepth depthPercent maxima call).2 <;> simp)
    cases hevent : feedEvents feedId (trackScrollDepth depthPercent maxima call).2.toList with
    | nil =>
      rw [List.length_nil, Nat.zero_add]
      exact ih hafter
    | cons e es =>
      -- The maximum is past the first threshold now, and the second is not reached.
      obtain ⟨hfeed, hmem, -, hle⟩ := callEvent_depth (hevent ▸ List.mem_cons_self)
      have hlater : feedEvents feedId
          (trackCalls depthPercent (trackScrollDepth depthPercent maxima call).1 calls) = [] := by
        refine List.eq_nil_iff_forall_not_mem.mpr fun e' he' => ?_
        obtain ⟨hmem', hlt, hle'⟩ := feedEvents_depth he'
        have := threshold_ge hmem
        have := threshold_ge hmem'
        rw [if_pos hfeed] at hnext
        omega
      rw [hlater, List.length_nil, Nat.add_zero, ← hevent]
      exact hcall

end Client

/-- The identifiers are dimensions, and there is room for all of them in a bucket. -/
structure FitsLimit (feedIds : List String) : Prop where
  normalized : ∀ feedId ∈ feedIds,
    normalizeDimension (some feedId) MAX_FEED_ID_LENGTH = some (trim feedId)
  few : (insert OTHER_DIMENSION (feedIds.map trim).toFinset).card ≤ MAX_FEED_DIMENSIONS

/-- A bucket has counted some events, all in dimensions of a set. -/
structure Counted (dimensions : Finset String) (events : List ScrollEvent)
    (bucket : MetricsBucket) : Prop where
  admitted : bucket.feedDimensions ⊆ dimensions
  counts : ∀ feedId, ∀ t ∈ SCROLL_THRESHOLDS,
    (bucket.scrollDepths.get feedId).elim 0 (·.reachedThresholds t) =
      events.countP fun e => trim e.feedId = feedId ∧ t ≤ e.depth

variable {dimensions : Finset String} {events : List ScrollEvent} {bucket : MetricsBucket}

/-- A dimension is admitted as itself while there is room for all. -/
theorem admitDimension_self (hsub : bucket.feedDimensions ⊆ dimensions)
    (hcard : dimensions.card ≤ MAX_FEED_DIMENSIONS) {dimension : String}
    (hmem : dimension ∈ dimensions) :
    ∃ admitted ⊆ dimensions,
      bucket.admitDimension dimension =
        ({ bucket with feedDimensions := admitted }, dimension) := by
  unfold MetricsBucket.admitDimension
  split
  · exact ⟨bucket.feedDimensions, hsub, rfl⟩
  · next hnew =>
    have hlt : bucket.feedDimensions.card < dimensions.card :=
      Finset.card_lt_card ⟨hsub, fun hall => hnew (hall hmem)⟩
    rw [if_pos (Nat.lt_of_lt_of_le hlt hcard)]
    exact ⟨_, Finset.insert_subset hmem hsub, rfl⟩

/-- Processing an event of a known feed keeps the counts. -/
theorem Counted.process (h : Counted dimensions events bucket)
    (hcard : dimensions.card ≤ MAX_FEED_DIMENSIONS) {e : ScrollEvent}
    (hnormalized : normalizeDimension (some e.feedId) MAX_FEED_ID_LENGTH = some (trim e.feedId))
    (hmem : trim e.feedId ∈ dimensions) (hdepth : e.depth ≤ 100) :
    Counted dimensions (events ++ [e])
      (bucket.processScrollDepth (some e.feedId) (e.depth : ℚ)) := by
  obtain ⟨admitted, hadmitted, hadmit⟩ := admitDimension_self h.admitted hcard hmem
  have hvalid : ((e.depth : ℚ).den = 1 ∧ 0 ≤ (e.depth : ℚ).num ∧ (e.depth : ℚ).num ≤ 100) := by
    rw [Rat.num_natCast, Rat.den_natCast]
    omega
  have hprocess : bucket.processScrollDepth (some e.feedId) (e.depth : ℚ) =
      { bucket with
        feedDimensions := admitted
        scrollDepths := bucket.scrollDepths.set (trim e.feedId)
          (((bucket.scrollDepths.get (trim e.feedId)).getD ⟨0, 0, fun _ => 0⟩).add e.depth) } := by
    unfold MetricsBucket.processScrollDepth
    rw [hnormalized]
    dsimp only
    rw [if_pos hvalid, hadmit]
    simp only [Rat.num_natCast, Int.toNat_natCast]
  rw [hprocess]
  refine ⟨hadmitted, fun feedId t ht => ?_⟩
  have hold := h.counts feedId t ht
  rw [List.countP_append, ← hold, OrderedMap.get_set]
  by_cases hfeed : feedId = trim e.feedId
  · subst hfeed
    rw [if_pos rfl]
    cases bucket.scrollDepths.get (trim e.feedId) with
    | none => by_cases hle : t ≤ e.depth <;> simp [ScrollDepthAggregate.add, ht, hle]
    | some aggregate => by_cases hle : t ≤ e.depth <;> simp [ScrollDepthAggregate.add, ht, hle]
  · rw [if_neg hfeed]
    simp [Ne.symm hfeed]

private theorem counted_empty (hother : OTHER_DIMENSION ∈ dimensions) :
    Counted dimensions [] createEmptyBucket :=
  ⟨Finset.singleton_subset_iff.mpr hother, fun _ _ _ => rfl⟩

/-- The count of a feed is the number of the events that reach the threshold. -/
theorem processEvents_counts {feedIds : List String} (hfits : FitsLimit feedIds)
    (hevents : ∀ e ∈ events, e.feedId ∈ feedIds ∧ e.depth ∈ thresholds) (feedId : String) {t : ℕ}
    (ht : t ∈ thresholds) :
    reachedThresholds (processEvents events).computeSummary feedId t =
      events.countP fun e => trim e.feedId = feedId ∧ t ≤ e.depth := by
  have hmem : ∀ id ∈ feedIds, trim id ∈ insert OTHER_DIMENSION (feedIds.map trim).toFinset :=
    fun id hid => Finset.mem_insert_of_mem (List.mem_toFinset.mpr (List.mem_map_of_mem hid))
  have hcounted : Counted (insert OTHER_DIMENSION (feedIds.map trim).toFinset) events
      (processEvents events) := by
    induction events using List.reverseRecOn with
    | nil => exact counted_empty (Finset.mem_insert_self _ _)
    | append_singleton events e ih =>
      obtain ⟨hid, hdepth⟩ := hevents e (List.mem_append_right _ (List.mem_singleton_self e))
      have hbefore := ih fun e' he' => hevents e' (List.mem_append_left _ he')
      unfold processEvents at hbefore ⊢
      rw [List.foldl_append]
      exact hbefore.process hfits.few (hfits.normalized _ hid) (hmem _ hid)
        (threshold_ge hdepth).2.1
  rw [reachedThresholds_summary]
  exact hcounted.counts feedId t ht

section Sessions

variable {depthPercent : ℕ → ℕ → ℕ} {calls : List ScrollCall} {f : String} {t : ℕ}

/-- No call comes to the second threshold in a feed, and none to the first in another
feed that the server counts under the same dimension. -/
def StaysBelow (depthPercent : ℕ → ℕ → ℕ) (f : String) (calls : List ScrollCall) : Prop :=
  ∀ call ∈ calls, (call.feedId = f → callDepth depthPercent call < 50) ∧
    (call.feedId ≠ f → trim call.feedId = trim f → callDepth depthPercent call < 25)

/-- The events of a session that count for a feed under a threshold. -/
def counted (depthPercent : ℕ → ℕ → ℕ) (f : String) (t : ℕ) (calls : List ScrollCall) : ℕ :=
  (sessionEvents depthPercent calls).countP fun e => trim e.feedId = trim f ∧ t ≤ e.depth

/-- The largest depth is below a bound when every call is. -/
private theorem maxDepth_lt {n : ℕ} (hn : 0 < n) : maxDepth depthPercent f calls < n ↔
    ∀ call ∈ calls, call.feedId = f → callDepth depthPercent call < n :=
  depthAfter_lt.trans (and_iff_right hn)

/-- An event has a threshold that its feed has reached. -/
private theorem session_depth {e : ScrollEvent} (he : e ∈ sessionEvents depthPercent calls) :
    e.depth ∈ thresholds ∧ e.depth ≤ maxDepth depthPercent e.feedId calls := by
  have hmem : e ∈ feedEvents e.feedId (trackCalls depthPercent ∅ calls) :=
    List.mem_filter.mpr ⟨he, by simp⟩
  obtain ⟨hdepth, -, hle⟩ := feedEvents_depth hmem
  exact ⟨hdepth, hle⟩

/-- Events of two kinds that exclude each other. -/
theorem countP_add_le {α : Type} {p q r : α → Prop} [DecidablePred p] [DecidablePred q]
    [DecidablePred r] {l : List α} (hp : ∀ a, p a → r a) (hq : ∀ a, q a → r a)
    (hpq : ∀ a, p a → ¬q a) :
    l.countP (fun a => p a) + l.countP (fun a => q a) ≤ l.countP (fun a => r a) := by
  induction l with
  | nil => exact Nat.le_refl 0
  | cons a l ih =>
    simp only [List.countP_cons, decide_eq_true_eq]
    have hpa := hp a
    have hqa := hq a
    have hpqa := hpq a
    by_cases h : p a <;> by_cases h' : q a <;> simp_all <;> omega

/-- Sums of which one is at least the other for each member agree for each member. -/
theorem eq_of_sum_eq {α : Type} {a b : α → ℕ} {l : List α} (hle : ∀ x ∈ l, b x ≤ a x)
    (hsum : (l.map a).sum = (l.map b).sum) : ∀ x ∈ l, a x = b x := by
  have hsums : ∀ l : List α, (∀ x ∈ l, b x ≤ a x) → (l.map b).sum ≤ (l.map a).sum :=
    fun l h => List.sum_le_sum h
  induction l with
  | nil => exact fun x hx => absurd hx List.not_mem_nil
  | cons y l ih =>
    obtain ⟨hy, hl⟩ := List.forall_mem_cons.mp hle
    have := hsums l hl
    simp only [List.map_cons, List.sum_cons] at hsum
    exact List.forall_mem_cons.mpr ⟨by omega, ih hl (by omega)⟩

/-- A feed that has reached the first threshold is counted there. -/
private theorem counted_first_ge :
    (if 25 ≤ maxDepth depthPercent f calls then 1 else 0) ≤ counted depthPercent f 25 calls := by
  split
  · next hreached =>
    obtain ⟨e, he, hdepth⟩ := @exists_first depthPercent ∅ f calls (Nat.succ_pos 24) hreached
    obtain ⟨hmem, hfeed⟩ := List.mem_filter.mp he
    refine List.countP_pos_iff.mpr ⟨e, hmem, ?_⟩
    simp only [decide_eq_true_eq] at hfeed ⊢
    exact ⟨by rw [hfeed], by omega⟩
  · exact Nat.zero_le _

/-- A session that stays below is counted once or not at all. -/
theorem counted_of_staysBelow (h : StaysBelow depthPercent f calls) (ht : t ∈ thresholds) :
    counted depthPercent f t calls = if t ≤ maxDepth depthPercent f calls then 1 else 0 := by
  have hmax : maxDepth depthPercent f calls < 50 :=
    (maxDepth_lt (Nat.succ_pos 49)).mpr fun call hcall => (h call hcall).1
  have hdepths : ∀ e ∈ sessionEvents depthPercent calls, trim e.feedId = trim f →
      e.feedId = f ∧ e.depth = 25 := by
    intro e he htrim
    obtain ⟨hmem, hle⟩ := session_depth he
    have hthreshold := threshold_ge hmem
    by_cases hfeed : e.feedId = f
    · rw [hfeed] at hle
      exact ⟨hfeed, hthreshold.2.2 (by omega)⟩
    · have hother : maxDepth depthPercent e.feedId calls < 25 :=
        (maxDepth_lt (Nat.succ_pos 24)).mpr fun call hcall hcallFeed =>
          (h call hcall).2 (hcallFeed ▸ hfeed) (hcallFeed ▸ htrim)
      omega
  have hcount : counted depthPercent f t calls =
      (feedEvents f (sessionEvents depthPercent calls)).countP fun e => t ≤ e.depth := by
    unfold counted feedEvents
    rw [List.countP_filter]
    refine List.countP_congr fun e he => ?_
    simp only [decide_eq_true_eq, Bool.and_eq_true]
    constructor
    · exact fun ⟨htrim, hle⟩ => ⟨hle, (hdepths e he htrim).1⟩
    · exact fun ⟨hle, hfeed⟩ => ⟨hfeed ▸ rfl, hle⟩
  have hthreshold := threshold_ge ht
  rw [hcount]
  split
  · next hreached =>
    -- The session reached the first threshold and reported it, once.
    obtain ⟨e, he, hdepth⟩ := @exists_first depthPercent ∅ f calls (Nat.succ_pos 24)
      (show 25 ≤ maxDepth depthPercent f calls by omega)
    have hpositive : 0 < (feedEvents f (sessionEvents depthPercent calls)).countP
        fun e => t ≤ e.depth :=
      List.countP_pos_iff.mpr ⟨e, he, by simp only [decide_eq_true_eq]; omega⟩
    have hlength := @feedEvents_length_le depthPercent ∅ f calls hmax
    have hle := List.countP_le_length (p := fun e : ScrollEvent => decide (t ≤ e.depth))
      (l := feedEvents f (sessionEvents depthPercent calls))
    unfold sessionEvents at hle hpositive ⊢
    omega
  · next hreached =>
    refine List.countP_eq_zero.mpr fun e he => ?_
    obtain ⟨hmem, hfeed⟩ := List.mem_filter.mp he
    obtain ⟨-, hle⟩ := session_depth hmem
    simp only [decide_eq_true_eq] at hfeed ⊢
    rw [hfeed] at hle
    omega

/-- A session that is counted once or not at all under the first threshold, as its maximum
tells, reaches no threshold in other feeds of the dimension and reports no higher one. -/
theorem staysBelow_of_counted (hfirst : counted depthPercent f 25 calls =
      if 25 ≤ maxDepth depthPercent f calls then 1 else 0) :
    counted depthPercent f 50 calls = 0 ∧
      ∀ g, g ≠ f → trim g = trim f → maxDepth depthPercent g calls < 25 := by
  have hreport : ∀ g, trim g = trim f → 25 ≤ maxDepth depthPercent g calls →
      ∃ e ∈ sessionEvents depthPercent calls, e.feedId = g ∧ e.depth = 25 := by
    intro g _ hreached
    obtain ⟨e, he, hdepth⟩ := @exists_first depthPercent ∅ g calls (Nat.succ_pos 24) hreached
    obtain ⟨hmem, hfeed⟩ := List.mem_filter.mp he
    exact ⟨e, hmem, by simpa using hfeed, hdepth⟩
  constructor
  · by_cases hreached : 25 ≤ maxDepth depthPercent f calls
    · obtain ⟨e, he, hfeed, hdepth⟩ := hreport f rfl hreached
      have hboth : counted depthPercent f 50 calls +
          (sessionEvents depthPercent calls).countP
            (fun e => trim e.feedId = trim f ∧ e.depth = 25) ≤
          counted depthPercent f 25 calls :=
        countP_add_le (fun e he => ⟨he.1, by omega⟩) (fun e he => ⟨he.1, by omega⟩)
          (fun e he he' => by omega)
      have hpositive : 0 < (sessionEvents depthPercent calls).countP
          fun e => trim e.feedId = trim f ∧ e.depth = 25 :=
        List.countP_pos_iff.mpr ⟨e, he, by simp [hfeed, hdepth]⟩
      rw [hfirst, if_pos hreached] at hboth
      omega
    · rw [if_neg hreached] at hfirst
      refine Nat.le_zero.mp (hfirst ▸ List.countP_mono_left fun e _ h => ?_)
      simp only [decide_eq_true_eq] at h ⊢
      exact ⟨h.1, by omega⟩
  · intro g hg htrim
    by_contra hreached
    obtain ⟨e, he, hfeed, hdepth⟩ := hreport g htrim (by omega)
    have hother : 0 < (sessionEvents depthPercent calls).countP
        fun e => trim e.feedId = trim f ∧ 25 ≤ e.depth ∧ e.feedId ≠ f :=
      List.countP_pos_iff.mpr ⟨e, he, by simp [hfeed, hdepth, hg, htrim]⟩
    by_cases hself : 25 ≤ maxDepth depthPercent f calls
    · obtain ⟨e', he', hfeed', hdepth'⟩ := hreport f rfl hself
      have hown : 0 < (sessionEvents depthPercent calls).countP
          fun e => e.feedId = f ∧ 25 ≤ e.depth :=
        List.countP_pos_iff.mpr ⟨e', he', by simp [hfeed', hdepth']⟩
      have hboth : (sessionEvents depthPercent calls).countP
            (fun e => e.feedId = f ∧ 25 ≤ e.depth) +
          (sessionEvents depthPercent calls).countP
            (fun e => trim e.feedId = trim f ∧ 25 ≤ e.depth ∧ e.feedId ≠ f) ≤
          counted depthPercent f 25 calls :=
        countP_add_le (fun e he => ⟨congrArg trim he.1, he.2⟩) (fun e he => ⟨he.1, he.2.1⟩)
          (fun e he he' => he'.2.2 he.1)
      rw [hfirst, if_pos hself] at hboth
      omega
    · rw [if_neg hself] at hfirst
      have hle : (sessionEvents depthPercent calls).countP
          (fun e => trim e.feedId = trim f ∧ 25 ≤ e.depth ∧ e.feedId ≠ f) ≤
            counted depthPercent f 25 calls := by
        refine List.countP_mono_left fun e _ h => ?_
        simp only [decide_eq_true_eq] at h ⊢
        exact ⟨h.1, h.2.1⟩
      omega

/-- An event belongs to a feed that was scrolled. -/
private theorem feedId_of_event {maxima : OrderedMap String ℕ} {e : ScrollEvent}
    (he : e ∈ trackCalls depthPercent maxima calls) : ∃ call ∈ calls, call.feedId = e.feedId := by
  induction calls generalizing maxima with
  | nil => cases he
  | cons call calls ih =>
    rw [trackCalls] at he
    rcases List.mem_append.mp he with he | he
    · have hmem : e ∈ feedEvents e.feedId (trackScrollDepth depthPercent maxima call).2.toList :=
        List.mem_filter.mpr ⟨he, by simp⟩
      exact ⟨call, List.mem_cons_self, (callEvent_depth hmem).1⟩
    · obtain ⟨call', hcall', hfeed⟩ := ih he
      exact ⟨call', List.mem_cons_of_mem call hcall', hfeed⟩

private theorem countP_eq_sum {α : Type} (p : α → Prop) [DecidablePred p] (l : List α) :
    l.countP (fun a => p a) = (l.map fun a => if p a then 1 else 0).sum := by
  induction l with
  | nil => rfl
  | cons a l ih =>
    rw [List.countP_cons, ih, List.map_cons, List.sum_cons, Nat.add_comm]
    simp

/-- The server counts every session once under each threshold that its maximum depth in
a feed reaches, if and only if no session comes to the second threshold in that feed or
to the first in another feed with the same trimmed identifier. -/
theorem scrollDepth_counts (depthPercent : ℕ → ℕ → ℕ) (sessions : List (List ScrollCall))
    (hfits : FitsLimit (sessions.flatten.map (·.feedId))) {delivered : List ScrollEvent}
    (hdelivered : delivered.Perm (sessions.flatMap (sessionEvents depthPercent))) (f : String) :
    (∀ t ∈ thresholds, reachedThresholds (processEvents delivered).computeSummary (trim f) t =
      sessions.countP fun calls => t ≤ maxDepth depthPercent f calls) ↔
    ∀ calls ∈ sessions, StaysBelow depthPercent f calls := by
  have hevents : ∀ e ∈ delivered,
      e.feedId ∈ sessions.flatten.map (·.feedId) ∧ e.depth ∈ thresholds := by
    intro e he
    obtain ⟨calls, hcalls, he⟩ := List.mem_flatMap.mp (hdelivered.mem_iff.mp he)
    obtain ⟨call, hcall, hfeed⟩ := feedId_of_event he
    exact ⟨List.mem_map.mpr ⟨call, List.mem_flatten.mpr ⟨calls, hcalls, hcall⟩, hfeed⟩,
      (session_depth he).1⟩
  have hsum : ∀ t ∈ thresholds,
      reachedThresholds (processEvents delivered).computeSummary (trim f) t =
        (sessions.map (counted depthPercent f t)).sum := by
    intro t ht
    rw [processEvents_counts hfits hevents (trim f) ht, hdelivered.countP_eq, List.countP_flatMap]
    rfl
  have hsessions : ∀ t, sessions.countP (fun calls => t ≤ maxDepth depthPercent f calls) =
      (sessions.map fun calls => if t ≤ maxDepth depthPercent f calls then 1 else 0).sum :=
    fun t => countP_eq_sum _ sessions
  constructor
  · intro h
    have hfirst := eq_of_sum_eq (fun calls _ => counted_first_ge)
      ((hsum 25 (by decide)).symm.trans ((h 25 (by decide)).trans (hsessions 25)))
    have hsecond : ∀ calls ∈ sessions, maxDepth depthPercent f calls < 50 := by
      have hnone : (sessions.map (counted depthPercent f 50)).sum = 0 :=
        List.sum_eq_zero fun n hn => by
          obtain ⟨calls, hcalls, rfl⟩ := List.mem_map.mp hn
          exact (staysBelow_of_counted (hfirst calls hcalls)).1
      have hcount := (h 50 (by decide)).symm.trans ((hsum 50 (by decide)).trans hnone)
      intro calls hcalls
      have := List.countP_eq_zero.mp hcount calls hcalls
      simpa using this
    intro calls hcalls call hcall
    refine ⟨(maxDepth_lt (Nat.succ_pos 49)).mp (hsecond calls hcalls) call hcall, ?_⟩
    intro hfeed htrim
    have hother := (staysBelow_of_counted (hfirst calls hcalls)).2 call.feedId hfeed htrim
    exact (maxDepth_lt (Nat.succ_pos 24)).mp hother call hcall rfl
  · intro h t ht
    rw [hsum t ht, hsessions]
    refine congrArg List.sum (List.map_congr_left fun calls hcalls => ?_)
    exact counted_of_staysBelow (h calls hcalls) ht

/-- The percentage of exact division, rounded half up. -/
def roundedPercent (visibleIndex totalItems : ℕ) : ℕ :=
  (200 * visibleIndex + totalItems) / (2 * totalItems)

/-- A session that scrolls a third of the feed, and one that stays at its start. -/
def shallowSessions : List (List ScrollCall) :=
  [[⟨"/home-feed", 2, 20⟩, ⟨"/home-feed", 7, 20⟩], [⟨"/home-feed", 1, 20⟩]]

/-- Shallow sessions are counted under the thresholds they have reached. -/
theorem scrollDepth_counts_shallow :
    reachedThresholds (processEvents [⟨"/home-feed", 25, 7, 20⟩]).computeSummary
      (trim "/home-feed") 25 =
        shallowSessions.countP fun calls => 25 ≤ maxDepth roundedPercent "/home-feed" calls :=
  (scrollDepth_counts roundedPercent shallowSessions
    ⟨by decide, by decide⟩ (.of_eq (by decide)) "/home-feed").mpr
      (by unfold StaysBelow; decide) 25 (by decide)

/-- A session that jumps to the end of a feed is not counted at its end, and one that
scrolls through it is counted at its first quarter more than once. -/
theorem scrollDepth_miscounts :
    (reachedThresholds (processEvents (sessionEvents roundedPercent
      [⟨"/home-feed", 20, 20⟩])).computeSummary "/home-feed" 100 = 0 ∧
      100 ≤ maxDepth roundedPercent "/home-feed" [⟨"/home-feed", 20, 20⟩]) ∧
    reachedThresholds (processEvents (sessionEvents roundedPercent
      [⟨"/home-feed", 6, 20⟩, ⟨"/home-feed", 12, 20⟩])).computeSummary "/home-feed" 25 = 2 := by
  decide +kernel

end Sessions

end Ascendance.Telemetry
