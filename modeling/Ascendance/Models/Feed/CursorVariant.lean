import Ascendance.Models.Feed.CursorPayload

/-!
# Variants of feed cursors

What a payload of an order may hold, as a table: the feed, the sources, the phases
and which of the other fields are there. The checks accept exactly the payloads
that the table describes.
-/

namespace Ascendance.Feed

open Ascendance.Core

/-- Whether a variant has a field. -/
inductive Presence where
  | forbidden
  | optional
  | required
  deriving DecidableEq, Repr

/-- A field is there as it should and passes its test. -/
def Presence.Holds (p : Presence) (test : String → Bool) (v : JsValue) : Prop :=
  match p with
  | .forbidden => v = .undefined
  | .optional => v = .undefined ∨ ∃ text, v = .string text ∧ test text = true
  | .required => ∃ text, v = .string text ∧ test text = true

/-- What distinguishes the payloads of the orders. -/
structure CursorVariant where
  feed : FeedCursorFeed
  sources : List FeedCursorSource
  phases : List String
  anchor : Presence
  snapshotId : Presence
  scope : Presence
  hasOffset : Bool

/-- The variants, by the orders that name them. -/
def variantOf : FeedCursorOrder → CursorVariant
  | .new => ⟨.new, [.mongo], ["new"], .optional, .optional, .forbidden, false⟩
  | .personalized =>
    ⟨.personalized, [.mongo], ["personalized", "backfill"], .required, .forbidden, .required, false⟩
  | .personalizedRanked => ⟨.personalized, [.mongo], [], .forbidden, .required, .required, true⟩
  | .forYou => ⟨.forYou, [.mongo, .redis], [], .forbidden, .required, .required, true⟩
  | .trending =>
    ⟨.trending, [.mongo, .redis], ["trending"], .forbidden, .required, .forbidden, true⟩
  | .trendingNew => ⟨.trending, [.mongo], ["new"], .optional, .optional, .forbidden, false⟩
  | .previewLatest => ⟨.preview, [.mongo], [], .forbidden, .required, .required, true⟩
  | .previewRelevant => ⟨.preview, [.mongo], [], .forbidden, .required, .required, true⟩

namespace CursorVariant

/-- The properties that a payload of the variant may have. -/
def keys (v : CursorVariant) : List String :=
  BASE_KEYS ++ (if v.phases = [] then [] else ["phase"]) ++
    (if v.anchor = .forbidden then [] else ["createdAt", "_id"]) ++
    (if v.snapshotId = .forbidden then [] else ["snapshotId"]) ++
    (if v.scope = .forbidden then [] else ["scope"]) ++ if v.hasOffset then ["offset"] else []

/-- A payload has the fields of a variant with values from their domains, and no others. -/
structure Conforms (v : CursorVariant) (payload : JsObject) : Prop where
  keys : ∀ key ∈ payload.keys, key ∈ v.keys
  feed : payload.get "feed" = .string v.feed.text
  source : ∃ source ∈ v.sources, payload.get "source" = .string source.text
  phase : v.phases ≠ [] → ∃ phase ∈ v.phases, payload.get "phase" = .string phase
  createdAt : v.anchor.Holds isCursorDate (payload.get "createdAt")
  id : v.anchor.Holds isObjectId (payload.get "_id")
  together : payload.get "createdAt" = .undefined ↔ payload.get "_id" = .undefined
  snapshotId : v.snapshotId.Holds isSnapshotId (payload.get "snapshotId")
  scope : v.scope.Holds isHash (payload.get "scope")
  offset : v.hasOffset = true → ∃ n : ℤ, payload.get "offset" = .number (.finite n) ∧
    0 ≤ n ∧ n ≤ MAX_OFFSET
  continues : payload.get "createdAt" ≠ .undefined ∨ payload.get "snapshotId" ≠ .undefined

end CursorVariant

section Objects

variable {o : JsObject} {k j : String} {v : JsValue}

/-- A property that is not there reads as `undefined`. -/
theorem JsObject.get_of_notMem (h : k ∉ o.keys) : o.get k = .undefined := by
  unfold JsObject.get
  rw [List.lookup_eq_none_iff.mpr]
  · rfl
  · intro field hfield
    rw [bne_iff_ne]
    exact fun heq => h (heq ▸ List.mem_map_of_mem hfield)

/-- The test accepts `undefined` alone. -/
theorem JsValue.isUndefined_iff : v.isUndefined = true ↔ v = .undefined := by
  cases v <;> simp [JsValue.isUndefined]

/-- The test accepts the strings that pass it. -/
theorem JsValue.isString_iff {test : String → Bool} :
    v.isString test = true ↔ ∃ text, v = .string text ∧ test text = true := by
  cases v <;> simp [JsValue.isString]

/-- The test accepts one text. -/
theorem JsValue.isString_beq {text : String} :
    v.isString (· == text) = true ↔ v = .string text := by
  cases v <;> simp [JsValue.isString]

/-- A safe integer that passes a test. -/
theorem JsValue.isInteger_iff {test : ℤ → Bool} :
    v.isInteger test = true ↔
      ∃ n : ℤ, v = .number (.finite n) ∧ n.natAbs < 2 ^ 53 ∧ test n = true := by
  constructor
  · intro h
    cases v with
    | number n =>
      cases n with
      | finite q =>
        simp only [JsValue.isInteger, JsNumber.isSafeInteger, Bool.and_eq_true, beq_iff_eq,
          decide_eq_true_iff] at h
        obtain ⟨⟨hden, hsafe⟩, htest⟩ := h
        have hq : (q.num : ℚ) = q := Rat.den_eq_one_iff q |>.mp hden
        exact ⟨q.num, by rw [hq], hsafe, htest⟩
      | _ => cases h
    | _ => cases h
  · rintro ⟨n, rfl, hsafe, htest⟩
    unfold JsValue.isInteger JsNumber.isSafeInteger
    simp only [Rat.den_intCast, Rat.num_intCast, htest, Bool.and_true, beq_self_eq_true,
      Bool.true_and]
    exact decide_eq_true hsafe

end Objects

section Checks

variable {payload : JsObject} {value : JsValue}

/-- A check succeeds exactly when its condition holds. -/
theorem ensure_iff {holds : Bool} {message : String} :
    ensure holds message = .ok () ↔ holds = true := by
  cases holds <;> simp [ensure]

/-- Checks one after the other accept what all of them accept. -/
theorem checked_bind_iff {α : Type} {x : Checked Unit} {f : Unit → Checked α} {a : α} :
    (x >>= f) = .ok a ↔ x = .ok () ∧ f () = .ok a := by
  cases x with
  | error e => simp [bind, Except.bind]
  | ok u => simp [bind, Except.bind]

/-- The keys pass when all are allowed. -/
private theorem assertExactKeys_iff {allowedKeys : List String} :
    assertExactKeys payload allowedKeys = .ok () ↔ ∀ key ∈ payload.keys, key ∈ allowedKeys := by
  unfold assertExactKeys
  rw [ensure_iff, List.all_eq_true]
  simp only [decide_eq_true_iff]

/-- A literal passes when it is the expected text. -/
private theorem assertLiteral_iff {expected : String} :
    assertLiteral value expected = .ok () ↔ value = .string expected := by
  unfold assertLiteral
  rw [ensure_iff, JsValue.isString_beq]

/-- The source is one of two. -/
private theorem assertFeedSource_iff : assertFeedSource value = .ok () ↔
    ∃ source ∈ [FeedCursorSource.mongo, .redis], value = .string source.text := by
  unfold assertFeedSource
  rw [ensure_iff, Bool.or_eq_true, JsValue.isString_beq, JsValue.isString_beq]
  simp [FeedCursorSource.text]

private theorem assertHash_iff {field : String} :
    assertHash value field = .ok () ↔ Presence.required.Holds isHash value := by
  unfold assertHash
  rw [ensure_iff, JsValue.isString_iff]
  rfl

private theorem assertSnapshotId_iff :
    assertSnapshotId value = .ok () ↔ Presence.required.Holds isSnapshotId value := by
  unfold assertSnapshotId
  rw [ensure_iff, JsValue.isString_iff]
  rfl

private theorem assertOptionalSnapshotId_iff :
    assertOptionalSnapshotId value = .ok () ↔ Presence.optional.Holds isSnapshotId value := by
  unfold assertOptionalSnapshotId
  split
  next h =>
    have hv := JsValue.isUndefined_iff.mp h
    exact iff_of_true rfl (.inl hv)
  next h =>
    have hv : value ≠ .undefined := fun hv => h (JsValue.isUndefined_iff.mpr hv)
    rw [assertSnapshotId_iff]
    exact ⟨.inr, fun hp => hp.resolve_left hv⟩

/-- An offset is an integer within its bounds. -/
private theorem assertOffset_iff : assertOffset value = .ok () ↔
    ∃ n : ℤ, value = .number (.finite n) ∧ 0 ≤ n ∧ n ≤ MAX_OFFSET := by
  unfold assertOffset
  rw [ensure_iff, JsValue.isInteger_iff]
  constructor
  · rintro ⟨n, hn, -, hrange⟩
    exact ⟨n, hn, of_decide_eq_true hrange⟩
  · rintro ⟨n, hn, hrange⟩
    refine ⟨n, hn, ?_, decide_eq_true hrange⟩
    unfold MAX_OFFSET at hrange
    omega

/-- An anchor has a date and an identifier. -/
private theorem assertRequiredAnchor_iff : assertRequiredAnchor payload = .ok () ↔
    Presence.required.Holds isCursorDate (payload.get "createdAt") ∧
      Presence.required.Holds isObjectId (payload.get "_id") := by
  unfold assertRequiredAnchor assertDate assertObjectId
  rw [checked_bind_iff, ensure_iff, ensure_iff, JsValue.isString_iff, JsValue.isString_iff]
  rfl

private theorem has_iff {k : String} : payload.has k = true ↔ payload.get k ≠ .undefined := by
  unfold JsObject.has
  rw [Bool.not_eq_true', Ne, ← JsValue.isUndefined_iff, Bool.not_eq_true]

/-- Both fields of an anchor are there and valid, or neither is there. -/
theorem assertOptionalAnchor_iff : assertOptionalAnchor payload = .ok () ↔
    Presence.optional.Holds isCursorDate (payload.get "createdAt") ∧
      Presence.optional.Holds isObjectId (payload.get "_id") ∧
      (payload.get "createdAt" = .undefined ↔ payload.get "_id" = .undefined) := by
  have hnot : ∀ k, payload.has k = false ↔ payload.get k = .undefined := by
    intro k
    rw [← Bool.not_eq_true, has_iff, not_not]
  unfold assertOptionalAnchor
  rw [checked_bind_iff, ensure_iff, beq_iff_eq]
  cases hc : payload.has "createdAt" with
  | false =>
    have hcreated := (hnot _).mp hc
    rw [if_neg (by simp), hcreated]
    constructor
    · rintro ⟨hid, -⟩
      have hundefined := (hnot _).mp hid.symm
      exact ⟨.inl rfl, .inl hundefined, iff_of_true rfl hundefined⟩
    · rintro ⟨-, -, hiff⟩
      exact ⟨((hnot _).mpr (hiff.mp rfl)).symm, rfl⟩
  | true =>
    have hcreated := has_iff.mp hc
    rw [if_pos rfl, assertRequiredAnchor_iff]
    constructor
    · rintro ⟨hid, hdate, hobject⟩
      exact ⟨.inr hdate, .inr hobject, iff_of_false hcreated (has_iff.mp hid.symm)⟩
    · rintro ⟨hdate, hobject, hiff⟩
      have hid : payload.get "_id" ≠ .undefined := fun h => hcreated (hiff.mpr h)
      exact ⟨(has_iff.mpr hid).symm, hdate.resolve_left hcreated, hobject.resolve_left hid⟩

/-- A cursor continues at an anchor or in a snapshot. -/
private theorem assertContinuation_iff : assertContinuation payload = .ok () ↔
    payload.get "createdAt" ≠ .undefined ∨ payload.get "snapshotId" ≠ .undefined := by
  unfold assertContinuation
  rw [ensure_iff, Bool.or_eq_true, has_iff, has_iff]

private theorem assertNoTrendingEnvelope_iff {envelope : Bool} :
    assertNoTrendingEnvelope envelope = .ok () ↔ envelope = false := by
  unfold assertNoTrendingEnvelope
  rw [ensure_iff, Bool.not_eq_true']

/-- An expiry is a safe integer that lies ahead. -/
theorem assertExpiry_iff {clock : ℕ} : assertExpiry value clock = .ok () ↔
    ∃ n : ℤ, value = .number (.finite n) ∧ n.natAbs < 2 ^ 53 ∧ (clock / 1000 : ℕ) < n := by
  unfold assertExpiry
  rw [checked_bind_iff, ensure_iff, ensure_iff, JsValue.isInteger_iff, JsValue.isInteger_iff]
  constructor
  · rintro ⟨-, n, hn, hsafe, hahead⟩
    exact ⟨n, hn, hsafe, of_decide_eq_true hahead⟩
  · rintro ⟨n, hn, hsafe, hahead⟩
    exact ⟨⟨n, hn, hsafe, rfl⟩, n, hn, hsafe, decide_eq_true hahead⟩

/-- A value names an order exactly when it is the order's text. -/
theorem orderOf_iff {order : FeedCursorOrder} :
    orderOf value = some order ↔ value = .string order.text := by
  constructor
  · intro h
    unfold orderOf at h
    have hfound := List.find?_some h
    exact JsValue.isString_beq.mp hfound
  · rintro rfl
    cases order <;> rfl

/-- A field that a variant does not have is undefined in its payloads. -/
theorem forbidden_of_keys {variant : CursorVariant} {k : String}
    (h : ∀ key ∈ payload.keys, key ∈ variant.keys) (hk : k ∉ variant.keys) :
    payload.get k = .undefined :=
  JsObject.get_of_notMem fun hmem => hk (h k hmem)

private theorem Presence.Holds.ne_undefined {test : String → Bool}
    (h : Presence.required.Holds test value) :
    value ≠ .undefined := by
  obtain ⟨text, rfl, -⟩ := h
  exact fun h => JsValue.noConfusion h

/-- The source is the given one, or one of two when none is given. -/
private theorem assertSource_iff {source : Option FeedCursorSource} :
    assertSource value source = .ok () ↔
    ∃ s ∈ source.elim [.mongo, .redis] fun s => [s], value = .string (FeedCursorSource.text s) := by
  cases source with
  | none => exact assertFeedSource_iff
  | some source => simp [assertSource, assertLiteral_iff]

/-- The variant of a cursor that stands for an offset of a snapshot. -/
def snapshotVariant (feed : FeedCursorFeed) (source : Option FeedCursorSource) : CursorVariant :=
  ⟨feed, source.elim [.mongo, .redis] fun s => [s], [], .forbidden, .required, .required, true⟩

/-- The checks of a cursor that stands for an offset of a snapshot. -/
theorem assertSnapshotCursor_iff {feed : FeedCursorFeed} {source : Option FeedCursorSource} :
    assertSnapshotCursor payload feed source true = .ok () ↔
      (snapshotVariant feed source).Conforms payload := by
  have hkeys : ∀ key, key ∈ BASE_KEYS ++ ["snapshotId", "offset"] ++ ["scope"] ↔
      key ∈ (snapshotVariant feed source).keys := by
    intro key
    simp [snapshotVariant, CursorVariant.keys]
    tauto
  unfold assertSnapshotCursor
  simp only [checked_bind_iff, assertExactKeys_iff, assertLiteral_iff, assertSource_iff,
    assertSnapshotId_iff, assertOffset_iff, assertHash_iff, if_true, hkeys]
  constructor
  · rintro ⟨hkeys, hfeed, hsource, hsnapshot, hoffset, hscope⟩
    have hcreated : payload.get "createdAt" = .undefined := forbidden_of_keys hkeys
      (by simp [snapshotVariant, CursorVariant.keys, BASE_KEYS])
    have hid : payload.get "_id" = .undefined := forbidden_of_keys hkeys
      (by simp [snapshotVariant, CursorVariant.keys, BASE_KEYS])
    exact ⟨hkeys, hfeed, hsource, fun h => absurd rfl h, hcreated, hid, iff_of_true hcreated hid,
      hsnapshot, hscope, fun _ => hoffset, .inr hsnapshot.ne_undefined⟩
  · intro h
    exact ⟨h.keys, h.feed, h.source, h.snapshotId, h.offset rfl, h.scope⟩

/-- The phase is one of two. -/
private theorem assertPhase_iff : ensure ((payload.get "phase").isString fun s =>
      s == "personalized" || s == "backfill") "Invalid personalized feed cursor phase" = .ok () ↔
    ∃ phase ∈ ["personalized", "backfill"], payload.get "phase" = .string phase := by
  rw [ensure_iff, JsValue.isString_iff]
  constructor
  · rintro ⟨text, htext, hphase⟩
    exact ⟨text, by simpa using hphase, htext⟩
  · rintro ⟨text, hphase, htext⟩
    exact ⟨text, htext, by simpa using hphase⟩

section Orders

variable {envelope : Bool}

/-- The variants that page by dates, or by an exclusion alone. -/
theorem conforms_newPhase {feed : FeedCursorFeed} :
    (CursorVariant.mk feed [.mongo] ["new"] .optional .optional .forbidden false).Conforms payload ↔
      (∀ key ∈ payload.keys, key ∈ BASE_KEYS ++ ["phase", "createdAt", "_id", "snapshotId"]) ∧
      payload.get "feed" = .string feed.text ∧ payload.get "source" = .string "mongo" ∧
      payload.get "phase" = .string "new" ∧
      (Presence.optional.Holds isCursorDate (payload.get "createdAt") ∧
        Presence.optional.Holds isObjectId (payload.get "_id") ∧
        (payload.get "createdAt" = .undefined ↔ payload.get "_id" = .undefined)) ∧
      Presence.optional.Holds isSnapshotId (payload.get "snapshotId") ∧
      (payload.get "createdAt" ≠ .undefined ∨ payload.get "snapshotId" ≠ .undefined) := by
  constructor
  · intro h
    obtain ⟨source, hsource, hsourceText⟩ := h.source
    obtain ⟨phase, hphase, hphaseText⟩ := h.phase (List.cons_ne_nil _ _)
    obtain rfl := List.mem_singleton.mp hsource
    obtain rfl := List.mem_singleton.mp hphase
    exact ⟨h.keys, h.feed, hsourceText, hphaseText, ⟨h.createdAt, h.id, h.together⟩, h.snapshotId,
      h.continues⟩
  · rintro ⟨hkeys, hfeed, hsource, hphase, ⟨hdate, hid, htogether⟩, hsnapshot, hcontinues⟩
    have hscope : payload.get "scope" = .undefined :=
      JsObject.get_of_notMem fun hmem => by simpa [BASE_KEYS] using hkeys _ hmem
    exact
      { keys := hkeys
        feed := hfeed
        source := ⟨.mongo, List.mem_singleton.mpr rfl, hsource⟩
        phase := fun _ => ⟨"new", List.mem_singleton.mpr rfl, hphase⟩
        createdAt := hdate
        id := hid
        together := htogether
        snapshotId := hsnapshot
        scope := hscope
        offset := fun h => by cases h
        continues := hcontinues }

/-- What a payload of the personalized feed must look like. -/
private theorem conforms_personalized : (variantOf .personalized).Conforms payload ↔
      (∀ key ∈ payload.keys, key ∈ BASE_KEYS ++ ["phase", "createdAt", "_id", "scope"]) ∧
      payload.get "feed" = .string "personalized" ∧ payload.get "source" = .string "mongo" ∧
      (∃ phase ∈ ["personalized", "backfill"], payload.get "phase" = .string phase) ∧
      (Presence.required.Holds isCursorDate (payload.get "createdAt") ∧
        Presence.required.Holds isObjectId (payload.get "_id")) ∧
      Presence.required.Holds isHash (payload.get "scope") := by
  constructor
  · intro h
    obtain ⟨source, hsource, hsourceText⟩ := h.source
    obtain rfl := List.mem_singleton.mp hsource
    exact ⟨h.keys, h.feed, hsourceText, h.phase (List.cons_ne_nil _ _),
      ⟨h.createdAt, h.id⟩, h.scope⟩
  · rintro ⟨hkeys, hfeed, hsource, hphase, ⟨hdate, hid⟩, hscope⟩
    have hsnapshot : payload.get "snapshotId" = .undefined :=
      JsObject.get_of_notMem fun hmem => by simpa [BASE_KEYS] using hkeys _ hmem
    exact
      { keys := hkeys
        feed := hfeed
        source := ⟨.mongo, List.mem_singleton.mpr rfl, hsource⟩
        phase := fun _ => hphase
        createdAt := hdate
        id := hid
        together := iff_of_false hdate.ne_undefined hid.ne_undefined
        snapshotId := hsnapshot
        scope := hscope
        offset := fun h => by cases h
        continues := .inl hdate.ne_undefined }

/-- What a payload of the trending feed must look like. -/
private theorem conforms_trending : (variantOf .trending).Conforms payload ↔
      (∀ key ∈ payload.keys, key ∈ BASE_KEYS ++ ["phase", "snapshotId", "offset"]) ∧
      payload.get "feed" = .string "trending" ∧
      (∃ source ∈ [FeedCursorSource.mongo, .redis], payload.get "source" = .string source.text) ∧
      payload.get "phase" = .string "trending" ∧
      Presence.required.Holds isSnapshotId (payload.get "snapshotId") ∧
      ∃ n : ℤ, payload.get "offset" = .number (.finite n) ∧ 0 ≤ n ∧ n ≤ MAX_OFFSET := by
  constructor
  · intro h
    obtain ⟨phase, hphase, hphaseText⟩ := h.phase (List.cons_ne_nil _ _)
    obtain rfl := List.mem_singleton.mp hphase
    exact ⟨h.keys, h.feed, h.source, hphaseText, h.snapshotId, h.offset rfl⟩
  · rintro ⟨hkeys, hfeed, hsource, hphase, hsnapshot, hoffset⟩
    have hforbidden : ∀ k ∈ ["createdAt", "_id", "scope"], payload.get k = .undefined := by
      intro k hk
      refine JsObject.get_of_notMem fun hmem => ?_
      have hallowed := hkeys k hmem
      simp only [BASE_KEYS, List.cons_append, List.nil_append, List.mem_cons, List.not_mem_nil,
        or_false] at hk hallowed
      rcases hk with rfl | rfl | rfl <;> simp at hallowed
    have hdate := hforbidden "createdAt" (by simp)
    have hid := hforbidden "_id" (by simp)
    exact
      { keys := hkeys
        feed := hfeed
        source := hsource
        phase := fun _ => ⟨"trending", List.mem_singleton.mpr rfl, hphase⟩
        createdAt := hdate
        id := hid
        together := iff_of_true hdate hid
        snapshotId := hsnapshot
        scope := hforbidden "scope" (by simp)
        offset := fun _ => hoffset
        continues := .inr hsnapshot.ne_undefined }

/-- The checks of an order accept the payloads of its variant, in the envelope of the order. -/
theorem assertVariant_iff {order : FeedCursorOrder} :
    assertVariant payload envelope order = .ok () ↔
      (variantOf order).Conforms payload ∧ (envelope = true ↔ order = .trendingNew) := by
  have hplain : ∀ order : FeedCursorOrder, order ≠ .trendingNew →
      (envelope = false ↔ (envelope = true ↔ order = .trendingNew)) := by
    intro order hne
    simp [hne]
  have hsnapshot : ∀ (feed : FeedCursorFeed) (source : Option FeedCursorSource),
      (do assertSnapshotCursor payload feed source true
          assertNoTrendingEnvelope envelope) = .ok () ↔
        (snapshotVariant feed source).Conforms payload ∧ envelope = false := by
    intro feed source
    rw [checked_bind_iff, assertSnapshotCursor_iff, assertNoTrendingEnvelope_iff]
  cases order with
  | new =>
    have hvariant := @conforms_newPhase payload .new
    change _ ↔ (CursorVariant.mk _ _ _ _ _ _ _).Conforms payload ∧ _
    rw [← hplain .new (by decide), hvariant]
    simp only [assertVariant, checked_bind_iff, assertExactKeys_iff, assertLiteral_iff,
      assertOptionalAnchor_iff, assertOptionalSnapshotId_iff, assertContinuation_iff,
      assertNoTrendingEnvelope_iff, FeedCursorFeed.text, and_assoc]
  | personalized =>
    rw [← hplain .personalized (by decide), conforms_personalized]
    simp only [assertVariant, checked_bind_iff, assertExactKeys_iff, assertLiteral_iff,
      assertPhase_iff, assertRequiredAnchor_iff, assertHash_iff, assertNoTrendingEnvelope_iff,
      and_assoc]
  | personalizedRanked =>
    rw [← hplain .personalizedRanked (by decide)]
    exact hsnapshot .personalized (some .mongo)
  | forYou =>
    rw [← hplain .forYou (by decide)]
    exact hsnapshot .forYou none
  | trending =>
    rw [← hplain .trending (by decide), conforms_trending]
    simp only [assertVariant, checked_bind_iff, assertExactKeys_iff, assertLiteral_iff,
      assertFeedSource_iff, assertSnapshotId_iff, assertOffset_iff, assertNoTrendingEnvelope_iff,
      and_assoc]
  | trendingNew =>
    have hvariant := @conforms_newPhase payload .trending
    have hkeys : ∀ key, key ∈ BASE_KEYS ++ ["phase", "snapshotId", "createdAt", "_id"] ↔
        key ∈ BASE_KEYS ++ ["phase", "createdAt", "_id", "snapshotId"] := by
      intro key
      simp only [List.mem_append, List.mem_cons]
      tauto
    have henvelope : envelope = true ↔
        (envelope = true ↔ FeedCursorOrder.trendingNew = .trendingNew) := by
      simp
    change _ ↔ (CursorVariant.mk _ _ _ _ _ _ _).Conforms payload ∧ _
    rw [← henvelope, hvariant]
    simp only [assertVariant, checked_bind_iff, assertExactKeys_iff, assertLiteral_iff,
      assertOptionalAnchor_iff, assertOptionalSnapshotId_iff, assertContinuation_iff, ensure_iff,
      FeedCursorFeed.text, hkeys]
    constructor
    · rintro ⟨hallowed, hfeed, hsource, hphase, hid, hanchor, hcontinues, henv⟩
      exact ⟨⟨hallowed, hfeed, hsource, hphase, hanchor, hid, hcontinues⟩, henv⟩
    · rintro ⟨⟨hallowed, hfeed, hsource, hphase, hanchor, hid, hcontinues⟩, henv⟩
      exact ⟨hallowed, hfeed, hsource, hphase, hid, hanchor, hcontinues, henv⟩
  | previewLatest =>
    rw [← hplain .previewLatest (by decide)]
    exact hsnapshot .preview (some .mongo)
  | previewRelevant =>
    rw [← hplain .previewRelevant (by decide)]
    exact hsnapshot .preview (some .mongo)

end Orders

/-- The checks accept the unexpired payloads of the current version that a variant
describes, each in the envelope of its order. -/
theorem assertFeedCursorPayload_iff {envelope : Bool} {clock : ℕ} :
    assertFeedCursorPayload payload envelope clock = .ok () ↔
      payload.get "version" = .number (.finite FEED_CURSOR_VERSION) ∧
      (∃ n : ℤ, payload.get "expiresAt" = .number (.finite n) ∧ n.natAbs < 2 ^ 53 ∧
        (clock / 1000 : ℕ) < n) ∧
      ∃ order : FeedCursorOrder, payload.get "order" = .string order.text ∧
        (variantOf order).Conforms payload ∧ (envelope = true ↔ order = .trendingNew) := by
  unfold assertFeedCursorPayload
  rw [checked_bind_iff, checked_bind_iff, ensure_iff, JsValue.isInteger_iff, assertExpiry_iff]
  have hversion : (∃ n : ℤ, payload.get "version" = .number (.finite n) ∧ n.natAbs < 2 ^ 53 ∧
      (n == FEED_CURSOR_VERSION) = true) ↔
      payload.get "version" = .number (.finite FEED_CURSOR_VERSION) := by
    constructor
    · rintro ⟨n, hn, -, heq⟩
      rwa [← eq_of_beq heq]
    · intro h
      exact ⟨FEED_CURSOR_VERSION, h, by decide, by decide⟩
  rw [hversion]
  refine and_congr_right fun _ => and_congr_right fun _ => ?_
  cases h : orderOf (payload.get "order") with
  | none =>
    refine iff_of_false (fun h => by cases h) ?_
    rintro ⟨order, horder, -⟩
    rw [orderOf_iff.mpr horder] at h
    cases h
  | some order =>
    have htext := orderOf_iff.mp h
    refine assertVariant_iff.trans ⟨fun hv => ⟨order, htext, hv⟩, ?_⟩
    rintro ⟨order', horder', hv⟩
    have hsame := orderOf_iff.mpr horder'
    rw [h] at hsame
    obtain rfl := Option.some.inj hsame
    exact hv

end Checks

end Ascendance.Feed
