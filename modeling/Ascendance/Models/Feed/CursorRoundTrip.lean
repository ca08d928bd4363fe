import Ascendance.Models.Feed.CursorCodec

/-!
# What cursors carry

A cursor that was minted is read back as its payload, and whatever is read was
signed with the secret and belongs where it is read.
-/

namespace Ascendance.Feed

open Ascendance.Core

namespace JsObject

variable {o : JsObject} {k j : String} {v : JsValue}

/-- Setting a property appends its name at most once. -/
private theorem keys_set (o : JsObject) (k : String) (v : JsValue) :
    (o.set k v).keys = if k ∈ o.keys then o.keys else o.keys ++ [k] := by
  unfold JsObject.set
  split
  next h =>
    unfold JsObject.keys
    rw [List.map_map]
    apply List.map_congr_left
    intro field _
    by_cases hf : field.1 = k
    · simp [hf]
    · simp [hf]
  next h =>
    unfold JsObject.keys
    rw [List.map_append]
    rfl

private theorem nodup_keys_set (h : o.keys.Nodup) (k : String) (v : JsValue) :
    (o.set k v).keys.Nodup := by
  rw [keys_set]
  split
  next => exact h
  next hk =>
    rw [List.nodup_append]
    refine ⟨h, by simp, ?_⟩
    rintro a ha b hb rfl
    exact hk (List.mem_singleton.mp hb ▸ ha)

private theorem get_cons (field : String × JsValue) (o : JsObject) (k : String) :
    JsObject.get (field :: o) k = if k = field.1 then field.2 else o.get k := by
  unfold JsObject.get
  rw [List.lookup_cons]
  by_cases hk : k = field.1
  · simp [hk]
  · have hbeq : (k == field.1) = false := beq_eq_false_iff_ne.mpr hk
    simp [hk, hbeq]

/-- A property that is not in front is read behind. -/
private theorem get_append_of_notMem (h : k ∉ o.keys) (o' : JsObject) :
    JsObject.get (o ++ o') k = JsObject.get o' k := by
  induction o with
  | nil => rfl
  | cons field o ih =>
    rw [JsObject.keys, List.map_cons, List.mem_cons, not_or] at h
    rw [List.cons_append, get_cons, if_neg h.1]
    exact ih h.2

/-- A property in front hides the one behind. -/
private theorem get_append_of_mem (h : k ∈ o.keys) (o' : JsObject) :
    JsObject.get (o ++ o') k = o.get k := by
  induction o with
  | nil => cases h
  | cons field o ih =>
    rw [List.cons_append, get_cons, get_cons]
    split
    · rfl
    next hne => exact ih ((List.mem_cons.mp h).resolve_left hne)

/-- Reading a property that was written. -/
theorem get_set_self (o : JsObject) (k : String) (v : JsValue) : (o.set k v).get k = v := by
  unfold JsObject.set
  split
  next h =>
    induction o with
    | nil => cases h
    | cons field o ih =>
      rw [List.map_cons, get_cons]
      by_cases hf : field.1 = k
      · simp [hf]
      · rw [if_neg hf, if_neg (Ne.symm hf)]
        exact ih ((List.mem_cons.mp h).resolve_left (Ne.symm hf))
  next h =>
    rw [get_append_of_notMem h, get_cons, if_pos rfl]

/-- Writing a property leaves the others alone. -/
theorem get_set_ne (h : j ≠ k) (v : JsValue) : (o.set k v).get j = o.get j := by
  unfold JsObject.set
  split
  next hk =>
    clear hk
    induction o with
    | nil => rfl
    | cons field o ih =>
      rw [List.map_cons, get_cons, get_cons, ih]
      by_cases hf : field.1 = k
      · have hj : j ≠ field.1 := fun hj => h (hj.trans hf)
        rw [if_pos hf, if_neg h, if_neg hj]
      · rw [if_neg hf]
  next hk =>
    by_cases hj : j ∈ o.keys
    · exact get_append_of_mem hj _
    · rw [get_append_of_notMem hj, get_cons, if_neg h, get_of_notMem hj]
      rfl

/-- Leaving out undefined properties changes no property. -/
theorem get_defined (h : o.keys.Nodup) (k : String) : o.defined.get k = o.get k := by
  induction o with
  | nil => rfl
  | cons field o ih =>
    obtain ⟨hfield, ho⟩ := List.nodup_cons.mp h
    rw [get_cons]
    unfold JsObject.defined at ih ⊢
    cases hu : field.2.isUndefined with
    | true =>
      rw [List.filter_cons_of_neg (by simp [hu]), ih ho]
      split
      next hk =>
        subst hk
        rw [get_of_notMem hfield, JsValue.isUndefined_iff.mp hu]
      next => rfl
    | false =>
      rw [List.filter_cons_of_pos (by simp [hu]), get_cons, ih ho]

private theorem keys_defined : ∀ key ∈ o.defined.keys, key ∈ o.keys := by
  intro key hkey
  obtain ⟨field, hfield, rfl⟩ := List.mem_map.mp hkey
  exact List.mem_map_of_mem (List.mem_of_mem_filter hfield)

end JsObject

/-- A variant looks at the properties of an object, and at no key that it has not. -/
theorem CursorVariant.Conforms.congr {variant : CursorVariant} {o o' : JsObject}
    (h : variant.Conforms o) (hget : ∀ k, o'.get k = o.get k)
    (hkeys : ∀ key ∈ o'.keys, key ∈ o.keys) : variant.Conforms o' where
  keys := fun key hkey => h.keys key (hkeys key hkey)
  feed := (hget _).trans h.feed
  source := by simpa only [hget] using h.source
  phase := by simpa only [hget] using h.phase
  createdAt := by simpa only [hget] using h.createdAt
  id := by simpa only [hget] using h.id
  together := by simpa only [hget] using h.together
  snapshotId := by simpa only [hget] using h.snapshotId
  scope := by simpa only [hget] using h.scope
  offset := by simpa only [hget] using h.offset
  continues := by simpa only [hget] using h.continues

section Texts

variable {p : CursorPrimitives} {o fields : JsObject} {secret secret' cursor : String}

/-- The characters of an encoded text: none of them is a dot or a colon. -/
theorem mem_encodeAuthenticatedCursor {c : Char}
    (h : c ∈ (encodeAuthenticatedCursor p o secret).toList) :
    c = '.' ∨ isBase64Url c = true := by
  unfold encodeAuthenticatedCursor at h
  simp only [String.toList_append, String.toList_ofList, List.mem_append] at h
  rcases h with (h | h) | h
  · exact .inr (Base64.mem_encode h)
  · left
    simpa using h
  · exact .inr (Base64.mem_encode h)

/-- A cursor is as long as its two encoded parts and the dot. -/
theorem length_encodeAuthenticatedCursor (o : JsObject) (secret : String) :
    (encodeAuthenticatedCursor p o secret).toList.length =
      (4 * (p.stringify o).length + 2) / 3 + 44 := by
  unfold encodeAuthenticatedCursor
  simp only [String.toList_append, String.toList_ofList, List.length_append, Base64.length_encode,
    p.length_hmac]
  rfl

/-- No character takes more than two code units. -/
theorem utf16Length_le (s : String) : utf16Length s ≤ 2 * s.toList.length := by
  have hfold : ∀ (l : List Char) (n : ℕ),
      l.foldl (fun n c => n + if c.toNat < 0x10000 then 1 else 2) n ≤ n + 2 * l.length := by
    intro l
    induction l with
    | nil => exact fun n => Nat.le_refl n
    | cons c l ih =>
      intro n
      have hrest := ih (n + if c.toNat < 0x10000 then 1 else 2)
      rw [List.foldl_cons, List.length_cons]
      split at hrest <;> split <;> omega
  have hall := hfold s.toList 0
  rwa [Nat.zero_add] at hall

private theorem dot_notMem_encode (data : List UInt8) : '.' ∉ Base64.encode data := by
  intro h
  have hdot := Base64.mem_encode h
  revert hdot
  decide

/-- The signature of a text has the form that the reader expects. -/
theorem isHash_signature (p : CursorPrimitives) (secret text : String) :
    isHash (String.ofList (Base64.encode (p.hmac secret text))) = true := by
  unfold isHash
  rw [String.toList_ofList, Base64.length_encode, p.length_hmac, Bool.and_eq_true, List.all_eq_true]
  exact ⟨rfl, fun c hc => Base64.mem_encode hc⟩

/-- A text with one dot, cut at the dot. -/
theorem takeWhile_dot {before after : List Char} (h : '.' ∉ before) :
    (before ++ '.' :: after).takeWhile (· ≠ '.') = before ∧
      (before ++ '.' :: after).dropWhile (· ≠ '.') = '.' :: after := by
  have hall : ∀ c ∈ before, decide (c ≠ '.') = true := by
    intro c hc
    rw [decide_eq_true_iff]
    rintro rfl
    exact h hc
  rw [List.takeWhile_append_of_pos hall, List.dropWhile_append_of_pos hall]
  simp

/-- The two parts of an encoded text. -/
theorem toList_encodeAuthenticatedCursor :
    ∃ signature, (encodeAuthenticatedCursor p o secret).toList =
        Base64.encode (p.stringify o) ++ '.' :: signature ∧
      signature =
        Base64.encode (p.hmac secret (String.ofList (Base64.encode (p.stringify o)))) := by
  refine ⟨_, ?_, rfl⟩
  unfold encodeAuthenticatedCursor
  simp only [String.toList_append, String.toList_ofList, List.append_assoc]
  rfl

/-- What an encoded text is read as, whatever the secret of the reader. -/
theorem decodeAuthenticatedCursor_minted (hjson : p.WritesJson o)
    (h : decodeAuthenticatedCursor p (encodeAuthenticatedCursor p o secret) secret' = some fields) :
    fields = o.defined := by
  obtain ⟨signature, htext, -⟩ := @toList_encodeAuthenticatedCursor p o secret
  obtain ⟨htake, hdrop⟩ := @takeWhile_dot _ signature (dot_notMem_encode (p.stringify o))
  unfold decodeAuthenticatedCursor at h
  rw [htext, htake, hdrop] at h
  simp only [String.toList_ofList, Base64.decode_encode, hjson.parse_stringify] at h
  split at h
  · exact (Option.some.inj h).symm
  · cases h

/-- A reader with the secret reads the defined properties of what was encoded. -/
theorem decodeAuthenticatedCursor_encode (hjson : p.WritesJson o) :
    decodeAuthenticatedCursor p (encodeAuthenticatedCursor p o secret) secret = some o.defined := by
  obtain ⟨signature, htext, hsignature⟩ := @toList_encodeAuthenticatedCursor p o secret
  obtain ⟨htake, hdrop⟩ := @takeWhile_dot _ signature (dot_notMem_encode (p.stringify o))
  have hne : String.ofList (Base64.encode (p.stringify o)) ≠ "" := by
    intro h
    have hlist := congrArg String.toList h
    rw [String.toList_ofList] at hlist
    have hdata := congrArg Base64.decode hlist
    rw [Base64.decode_encode] at hdata
    exact hjson.stringify_ne_nil hdata
  unfold decodeAuthenticatedCursor
  rw [htext, htake, hdrop, hsignature]
  simp only [String.toList_ofList, Base64.decode_encode, hjson.parse_stringify]
  rw [if_pos ⟨hne, dot_notMem_encode _, isHash_signature .., trivial⟩]

/-- What is read was signed with the secret. -/
theorem decodeAuthenticatedCursor_authentic
    (h : decodeAuthenticatedCursor p cursor secret = some fields) :
    ∃ encodedPayload signature, cursor = encodedPayload ++ "." ++ signature ∧
      Base64.decode signature.toList = p.hmac secret encodedPayload ∧
      p.parse (Base64.decode encodedPayload.toList) = some (.object fields) := by
  unfold decodeAuthenticatedCursor at h
  simp only at h
  split at h
  next c signature hdrop =>
    split at h
    next hcheck =>
      split at h
      next fields' hparse =>
        obtain rfl := Option.some.inj h
        refine ⟨_, String.ofList signature, ?_, ?_, hparse⟩
        · have hdot : c = '.' := by
            have hhead := List.head?_dropWhile_not (fun c : Char => decide (c ≠ '.')) cursor.toList
            rw [hdrop] at hhead
            simpa using hhead
          rw [← String.toList_inj]
          have hcat := List.takeWhile_append_dropWhile (p := fun c : Char => decide (c ≠ '.'))
            (l := cursor.toList)
          rw [hdrop, hdot] at hcat
          simp only [String.toList_append, String.toList_ofList, List.append_assoc]
          exact hcat.symm
        · rw [String.toList_ofList]
          exact hcheck.2.2.2
      next => cases h
    next => cases h
  next => cases h

end Texts

section Cursors

variable {p : CursorPrimitives} {env : CursorEnv} {payload : JsObject} {cursor : String}
  {expected : CursorExpectation} {clock later : ℕ}

/-- The payload belongs to the feed, one of the orders and the source that a reader takes. -/
structure CursorExpectation.Takes (expected : CursorExpectation) (payload : JsObject) : Prop where
  feed : payload.get "feed" = .string expected.feed.text
  order : ∃ order ∈ expected.orders, payload.get "order" = .string order.text
  source : ∀ source ∈ expected.source, payload.get "source" = .string source.text

private theorem checked_bind_text_iff {α : Type} {x : Checked String} {f : String → Checked α}
    {a : α} :
    (x >>= f) = .ok a ↔ ∃ text, x = .ok text ∧ f text = .ok a := by
  cases x <;> simp [bind, Except.bind]

/-- Feeds have different names. -/
private theorem text_feed_injective {feed feed' : FeedCursorFeed} (h : feed.text = feed'.text) :
    feed = feed' := by
  revert h
  cases feed <;> cases feed' <;> decide

/-- What the reader accepts, check by check. -/
theorem decodeFeedCursor_iff : decodeFeedCursor p env cursor expected clock = .ok payload ↔
    utf16Length cursor ≤ MAX_FEED_CURSOR_ENCODED_LENGTH ∧
    (hasTrendingNewEnvelope cursor = true → expected.feed = .trending) ∧
    (∃ secret, getFeedCursorSecret env = .ok secret ∧
      decodeAuthenticatedCursor p (cursorToken cursor) secret = some payload) ∧
    assertFeedCursorPayload payload (hasTrendingNewEnvelope cursor) clock = .ok () ∧
    expected.Takes payload := by
  have htakes : ((payload.get "feed").isString (· == expected.feed.text) = true ∧
      (expected.orders.any fun order => (payload.get "order").isString (· == order.text)) = true ∧
      (expected.source.all fun source =>
        (payload.get "source").isString (· == source.text)) = true) ↔ expected.Takes payload := by
    simp only [JsValue.isString_beq, List.any_eq_true, Option.all_eq_true]
    exact ⟨fun ⟨hfeed, horder, hsource⟩ => ⟨hfeed, horder, hsource⟩,
      fun h => ⟨h.feed, h.order, h.source⟩⟩
  have hfeed : (!(hasTrendingNewEnvelope cursor && decide (expected.feed ≠ .trending))) = true ↔
      (hasTrendingNewEnvelope cursor = true → expected.feed = .trending) := by
    cases hasTrendingNewEnvelope cursor <;> simp
  unfold decodeFeedCursor
  simp only [checked_bind_iff, checked_bind_text_iff, ensure_iff, decide_eq_true_iff, hfeed]
  refine and_congr_right fun _ => and_congr_right fun _ => ?_
  constructor
  · rintro ⟨secret, hsecret, hread⟩
    cases hdecoded : decodeAuthenticatedCursor p (cursorToken cursor) secret with
    | none =>
      rw [hdecoded] at hread
      cases hread
    | some fields =>
      rw [hdecoded] at hread
      simp only [checked_bind_iff, ensure_iff] at hread
      obtain ⟨hassert, hfeed, horder, hsource, hreturn⟩ := hread
      obtain rfl := Except.ok.inj hreturn
      exact ⟨⟨secret, hsecret, hdecoded⟩, hassert, htakes.mp ⟨hfeed, horder, hsource⟩⟩
  · rintro ⟨⟨secret, hsecret, hdecoded⟩, hassert, ht⟩
    obtain ⟨hfeed, horder, hsource⟩ := htakes.mpr ht
    refine ⟨secret, hsecret, ?_⟩
    rw [hdecoded]
    simp only [checked_bind_iff, ensure_iff]
    exact ⟨hassert, hfeed, horder, hsource, rfl⟩

/-- The colon of the envelope is no character of an encoded text. -/
theorem not_hasTrendingNewEnvelope {o : JsObject} {secret : String} :
    hasTrendingNewEnvelope (encodeAuthenticatedCursor p o secret) = false := by
  rw [← Bool.not_eq_true]
  intro h
  unfold hasTrendingNewEnvelope at h
  have hcolon : ':' ∈ envelope.toList := by decide
  have hmem := (List.isPrefixOf_iff_prefix.mp h).subset hcolon
  rcases mem_encodeAuthenticatedCursor hmem with hdot | hbase
  · revert hdot
    decide
  · revert hbase
    decide

/-- A cursor minted by one of the two encoders. -/
def Mints (p : CursorPrimitives) (env : CursorEnv) (payload : JsObject) (clock : ℕ)
    (cursor : String) : Prop :=
  encodeFeedCursor p env payload clock = .ok cursor ∨
    encodeTrendingNewCursor p env payload clock = .ok cursor

/-- What is minted has passed the checks, and its token is the signed payload. -/
theorem Mints.spec (h : Mints p env payload clock cursor) :
    ∃ secret, getFeedCursorSecret env = .ok secret ∧
      assertFeedCursorPayload (completePayload payload clock)
        (hasTrendingNewEnvelope cursor) clock =
        .ok () ∧
      cursorToken cursor = encodeAuthenticatedCursor p (completePayload payload clock) secret ∧
      utf16Length cursor ≤ MAX_FEED_CURSOR_ENCODED_LENGTH := by
  rcases h with h | h
  · unfold encodeFeedCursor encodeFeedCursorPayload at h
    simp only [checked_bind_iff, checked_bind_text_iff, ensure_iff, decide_eq_true_iff] at h
    obtain ⟨hassert, secret, hsecret, hlength, hreturn⟩ := h
    obtain rfl := Except.ok.inj hreturn
    have hplain := @not_hasTrendingNewEnvelope p (completePayload payload clock) secret
    refine ⟨secret, hsecret, ?_, ?_, hlength⟩
    · rwa [hplain]
    · unfold cursorToken
      rw [hplain]
      rfl
  · unfold encodeTrendingNewCursor encodeFeedCursorPayload at h
    simp only [checked_bind_iff, checked_bind_text_iff, ensure_iff, decide_eq_true_iff] at h
    obtain ⟨encoded, ⟨hassert, secret, hsecret, -, hencoded⟩, hlength, hreturn⟩ := h
    obtain rfl := Except.ok.inj hencoded
    obtain rfl := Except.ok.inj hreturn
    have henvelope : hasTrendingNewEnvelope (envelope ++
        encodeAuthenticatedCursor p (completePayload payload clock) secret) = true := by
      unfold hasTrendingNewEnvelope
      rw [String.toList_append]
      exact List.isPrefixOf_iff_prefix.mpr (List.prefix_append _ _)
    refine ⟨secret, hsecret, ?_, ?_, hlength⟩
    · rwa [henvelope]
    · unfold cursorToken
      rw [if_pos henvelope, String.toList_append, List.drop_left, String.ofList_toList]

private theorem get_completePayload_version :
    (completePayload payload clock).get "version" = .number (.finite FEED_CURSOR_VERSION) := by
  unfold completePayload
  rw [JsObject.get_set_ne (by decide), JsObject.get_set_self]

/-- A completed payload expires after the lifetime of cursors. -/
private theorem get_completePayload_expiresAt : (completePayload payload clock).get "expiresAt" =
    .number (.finite ((clock / 1000 + FEED_CURSOR_TTL_SECONDS : ℕ) : ℤ)) := by
  unfold completePayload
  rw [JsObject.get_set_self]

/-- Minting leaves every other property as it is. -/
theorem get_completePayload {key : String} (hversion : key ≠ "version")
    (hexpires : key ≠ "expiresAt") : (completePayload payload clock).get key = payload.get key := by
  unfold completePayload
  rw [JsObject.get_set_ne hexpires, JsObject.get_set_ne hversion]

/-- A completed payload has no property twice. -/
private theorem nodup_completePayload (h : payload.keys.Nodup) :
    (completePayload payload clock).keys.Nodup :=
  JsObject.nodup_keys_set (JsObject.nodup_keys_set h _ _) _ _

/-- The checks that a payload passed when it was minted, it passes until it expires. -/
theorem assertFeedCursorPayload_later {hasEnvelope : Bool} (hkeys : payload.keys.Nodup)
    (h : assertFeedCursorPayload (completePayload payload clock) hasEnvelope clock = .ok ())
    (hlater : later / 1000 < clock / 1000 + FEED_CURSOR_TTL_SECONDS) :
    assertFeedCursorPayload (completePayload payload clock).defined hasEnvelope later = .ok () := by
  have hdistinct : (completePayload payload clock).keys.Nodup := nodup_completePayload hkeys
  have hget := JsObject.get_defined hdistinct
  obtain ⟨hversion, ⟨n, hn, hsafe, -⟩, order, horder, hconforms, henvelope⟩ :=
    assertFeedCursorPayload_iff.mp h
  refine assertFeedCursorPayload_iff.mpr ⟨(hget _).trans hversion, ?_, order,
    (hget _).trans horder, hconforms.congr hget JsObject.keys_defined, henvelope⟩
  refine ⟨n, (hget _).trans hn, hsafe, ?_⟩
  rw [get_completePayload_expiresAt] at hn
  have hcast : (((clock / 1000 + FEED_CURSOR_TTL_SECONDS : ℕ) : ℤ) : ℚ) = (n : ℚ) :=
    JsNumber.finite.inj (JsValue.number.inj hn)
  have hexpires : ((clock / 1000 + FEED_CURSOR_TTL_SECONDS : ℕ) : ℤ) = n := Int.cast_inj.mp hcast
  omega

/-- What the reader knows of a cursor that it accepts. -/
structure CursorAccepted (p : CursorPrimitives) (env : CursorEnv) (cursor : String)
    (expected : CursorExpectation) (clock : ℕ) (payload : JsObject) : Prop where
  authentic : ∃ secret encodedPayload signature, getFeedCursorSecret env = .ok secret ∧
    cursor = (if hasTrendingNewEnvelope cursor then envelope else "") ++
      (encodedPayload ++ "." ++ signature) ∧
    Base64.decode signature.toList = p.hmac secret encodedPayload ∧
    p.parse (Base64.decode encodedPayload.toList) = some (.object payload)
  version : payload.get "version" = .number (.finite FEED_CURSOR_VERSION)
  unexpired : ∃ n : ℤ, payload.get "expiresAt" = .number (.finite n) ∧ (clock / 1000 : ℕ) < n
  variant : ∃ order ∈ expected.orders, payload.get "order" = .string order.text ∧
    (variantOf order).feed = expected.feed ∧ (variantOf order).Conforms payload ∧
    (hasTrendingNewEnvelope cursor = true ↔ order = .trendingNew)
  taken : expected.Takes payload

/-- A cursor is its token, in the envelope or not. -/
theorem envelope_append_cursorToken (cursor : String) :
    cursor = (if hasTrendingNewEnvelope cursor then envelope else "") ++ cursorToken cursor := by
  unfold cursorToken
  rw [← String.toList_inj]
  split
  next h =>
    obtain ⟨rest, hrest⟩ := List.isPrefixOf_iff_prefix.mp h
    rw [String.toList_append, String.toList_ofList, ← hrest, List.drop_left]
  next => simp

/-- A cursor that is decoded is accepted. -/
private theorem decodeFeedCursor_accepted
    (h : decodeFeedCursor p env cursor expected clock = .ok payload) :
    CursorAccepted p env cursor expected clock payload := by
  obtain ⟨-, -, ⟨secret, hsecret, hdecoded⟩, hassert, htakes⟩ := decodeFeedCursor_iff.mp h
  obtain ⟨hversion, ⟨n, hn, -, hahead⟩, order, horder, hconforms, henvelope⟩ :=
    assertFeedCursorPayload_iff.mp hassert
  refine ⟨?_, hversion, ⟨n, hn, hahead⟩, ?_, htakes⟩
  · obtain ⟨encodedPayload, signature, htoken, hmac, hparse⟩ :=
      decodeAuthenticatedCursor_authentic hdecoded
    refine ⟨secret, encodedPayload, signature, hsecret, ?_, hmac, hparse⟩
    rw [← htoken]
    exact envelope_append_cursorToken cursor
  · obtain ⟨order', hmem, horder'⟩ := htakes.order
    have hsame : order = order' := by
      have hfirst := orderOf_iff.mpr horder
      rw [orderOf_iff.mpr horder'] at hfirst
      exact (Option.some.inj hfirst).symm
    subst hsame
    have hfeed := hconforms.feed
    rw [htakes.feed] at hfeed
    exact ⟨order, hmem, horder, (text_feed_injective (JsValue.string.inj hfeed)).symm, hconforms,
      henvelope⟩

/-- The properties of a minted payload, apart from the two that minting gives. -/
theorem get_minted {key : String} (h : payload.keys.Nodup) (hversion : key ≠ "version")
    (hexpires : key ≠ "expiresAt") :
    (completePayload payload clock).defined.get key = payload.get key :=
  (JsObject.get_defined (nodup_completePayload h) key).trans
    (get_completePayload hversion hexpires)

/-- A payload that differs in its version and expiry only is taken alike. -/
theorem CursorExpectation.Takes.congr {o o' : JsObject} (h : expected.Takes o)
    (hget : ∀ key, key ≠ "version" → key ≠ "expiresAt" → o'.get key = o.get key) :
    expected.Takes o' where
  feed := (hget _ (by decide) (by decide)).trans h.feed
  order := by
    obtain ⟨order, hmem, horder⟩ := h.order
    exact ⟨order, hmem, (hget _ (by decide) (by decide)).trans horder⟩
  source := fun source hsource => (hget _ (by decide) (by decide)).trans (h.source source hsource)

/-- A minted cursor is read back as its payload until it expires, wherever the payload
belongs; a cursor that is read was signed with the secret and is an unexpired payload of
a variant that the reader takes; and a minted cursor is read nowhere else. -/
theorem feedCursorCodec (p : CursorPrimitives) (env : CursorEnv) :
    (∀ payload clock cursor, payload.keys.Nodup → p.WritesJson (completePayload payload clock) →
      Mints p env payload clock cursor → ∀ expected later, expected.Takes payload →
      later / 1000 < clock / 1000 + FEED_CURSOR_TTL_SECONDS →
      ∃ decoded, decodeFeedCursor p env cursor expected later = .ok decoded ∧
        decoded = (completePayload payload clock).defined ∧
        decoded.get "version" = .number (.finite FEED_CURSOR_VERSION) ∧
        decoded.get "expiresAt" =
          .number (.finite ((clock / 1000 + FEED_CURSOR_TTL_SECONDS : ℕ) : ℤ)) ∧
        ∀ key, key ≠ "version" → key ≠ "expiresAt" → decoded.get key = payload.get key) ∧
    (∀ cursor expected clock payload,
      decodeFeedCursor p env cursor expected clock = .ok payload →
      CursorAccepted p env cursor expected clock payload) ∧
    (∀ payload clock cursor, payload.keys.Nodup → p.WritesJson (completePayload payload clock) →
      Mints p env payload clock cursor → ∀ env' expected later decoded,
      decodeFeedCursor p env' cursor expected later = .ok decoded → expected.Takes payload) := by
  refine ⟨?_, fun cursor expected clock payload h => decodeFeedCursor_accepted h, ?_⟩
  · intro payload clock cursor hkeys hjson hmints expected later htakes hlater
    obtain ⟨secret, hsecret, hassert, htoken, hlength⟩ := hmints.spec
    have hdistinct : (completePayload payload clock).keys.Nodup := nodup_completePayload hkeys
    have hget := JsObject.get_defined hdistinct
    refine ⟨_, decodeFeedCursor_iff.mpr ⟨hlength, ?_, ⟨secret, hsecret, ?_⟩,
      assertFeedCursorPayload_later hkeys hassert hlater, ?_⟩, rfl,
      (hget _).trans get_completePayload_version, (hget _).trans get_completePayload_expiresAt,
      fun key => get_minted hkeys⟩
    · intro henvelope
      obtain ⟨-, -, order, -, hconforms, hiff⟩ := assertFeedCursorPayload_iff.mp hassert
      obtain rfl := hiff.mp henvelope
      have hfeed := hconforms.feed
      rw [get_completePayload (by decide) (by decide), htakes.feed] at hfeed
      exact text_feed_injective (JsValue.string.inj hfeed)
    · rw [htoken]
      exact decodeAuthenticatedCursor_encode hjson
    · exact htakes.congr fun key => get_minted hkeys
  · intro payload clock cursor hkeys hjson hmints env' expected later decoded hdecode
    obtain ⟨secret, -, -, htoken, -⟩ := hmints.spec
    obtain ⟨-, -, ⟨secret', -, hdecoded⟩, -, htakes⟩ := decodeFeedCursor_iff.mp hdecode
    rw [htoken] at hdecoded
    obtain rfl := decodeAuthenticatedCursor_minted hjson hdecoded
    exact htakes.congr fun key hversion hexpires => (get_minted hkeys hversion hexpires).symm

end Cursors

section NewCursor

/-- The JSON of a property whose texts need no escapes. -/
def writeField : String × JsValue → String
  | (key, .string text) => "\x22" ++ key ++ "\x22:\x22" ++ text ++ "\x22"
  | (key, .number (.finite q)) => "\x22" ++ key ++ "\x22:" ++ toString q.num
  | (key, _) => "\x22" ++ key ++ "\x22:null"

/-- An object as bytes, in the order of its fields. -/
def writeJson (o : JsObject) : List UInt8 :=
  ("\x7b" ++ String.intercalate "," (o.map writeField) ++ "\x7d").toList.map
    fun c => UInt8.ofNat c.toNat

private theorem writeJson_eq (o : JsObject) : writeJson o =
    (['\x7b'] ++ [','].intercalate ((o.map writeField).map String.toList) ++ ['\x7d']).map
      fun c => UInt8.ofNat c.toNat := by
  unfold writeJson
  rw [String.toList_append, String.toList_append, String.toList_intercalate]
  rfl

/-- The payload of a cursor into the newest posts. -/
def newPayload : JsObject :=
  [("feed", .string "new"), ("order", .string "new-created-at-id-desc-v1"),
    ("source", .string "mongo"), ("phase", .string "new"),
    ("createdAt", .string "2026-07-17T00:00:00.000Z"), ("_id", .string "000000000000000000000001")]

/-- The digest of the text of the payload minted at the first moment, under the test secret. -/
def newDigest : List UInt8 :=
  [90, 65, 66, 149, 138, 201, 92, 180, 232, 200, 217, 246, 118, 78, 157, 52, 181, 20, 131, 32, 234,
    13, 117, 185, 211, 58, 231, 109, 83, 185, 144, 206]

/-- A parser for that payload and a constant signature. -/
def newPrimitives : CursorPrimitives where
  stringify := writeJson
  parse := fun bytes =>
    if bytes = writeJson (completePayload newPayload 0) then
      some (.object (completePayload newPayload 0).defined)
    else none
  hmac := fun _ _ => newDigest
  length_hmac := fun _ _ => rfl

private theorem stringify_newPrimitives : newPrimitives.stringify = writeJson := rfl

/-- The environment of a test run. -/
def testEnv : CursorEnv := ⟨some "feed-cursor-representation-test-secret", none, some "test"⟩

/-- The payload is minted: it passes the checks and its cursor is short enough. -/
theorem encodeFeedCursor_newPayload : encodeFeedCursor newPrimitives testEnv newPayload 0 =
    .ok (encodeAuthenticatedCursor newPrimitives (completePayload newPayload 0)
      "feed-cursor-representation-test-secret") := by
  have hassert : assertFeedCursorPayload (completePayload newPayload 0) false 0 = .ok () := by
    decide +kernel
  have hsecret : getFeedCursorSecret testEnv = .ok "feed-cursor-representation-test-secret" := by
    decide +kernel
  have hjson : (newPrimitives.stringify (completePayload newPayload 0)).length ≤ 700 := by
    rw [stringify_newPrimitives, writeJson_eq]
    decide +kernel
  have hlength : utf16Length (encodeAuthenticatedCursor newPrimitives (completePayload newPayload 0)
      "feed-cursor-representation-test-secret") ≤ MAX_FEED_CURSOR_ENCODED_LENGTH := by
    have hbound : ∀ n ≤ 700, 2 * ((4 * n + 2) / 3 + 44) ≤ MAX_FEED_CURSOR_ENCODED_LENGTH := by
      unfold MAX_FEED_CURSOR_ENCODED_LENGTH
      omega
    refine (utf16Length_le _).trans ?_
    rw [length_encodeAuthenticatedCursor]
    exact hbound _ hjson
  unfold encodeFeedCursor encodeFeedCursorPayload
  simp only [checked_bind_iff, checked_bind_text_iff, ensure_iff, decide_eq_true_iff]
  exact ⟨hassert, _, hsecret, hlength, rfl⟩

/-- The cursor is read for the new feed in the last second before it expires. -/
theorem feedCursorCodec_newPayload : ∃ cursor decoded,
    encodeFeedCursor newPrimitives testEnv newPayload 0 = .ok cursor ∧
    decodeFeedCursor newPrimitives testEnv cursor ⟨.new, [.new], some .mongo⟩ 3599999 =
      .ok decoded ∧
    decoded.get "_id" = .string "000000000000000000000001" := by
  have hjson : newPrimitives.WritesJson (completePayload newPayload 0) := by
    constructor
    · rw [stringify_newPrimitives, writeJson_eq]
      simp
    · simp only [newPrimitives, if_true]
  have htakes : CursorExpectation.Takes ⟨.new, [.new], some .mongo⟩ newPayload :=
    { feed := JsValue.isString_beq.mp (by decide +kernel)
      order := ⟨.new, List.mem_singleton.mpr rfl, JsValue.isString_beq.mp (by decide +kernel)⟩
      source := fun source hsource => by
        obtain rfl := Option.some.inj hsource
        exact JsValue.isString_beq.mp (by decide +kernel) }
  obtain ⟨decoded, hdecoded, -, -, -, hsame⟩ := (feedCursorCodec newPrimitives testEnv).1
    newPayload 0 _ (by decide) hjson (.inl encodeFeedCursor_newPayload) _ 3599999 htakes (by decide)
  exact ⟨_, decoded, encodeFeedCursor_newPayload, hdecoded, hsame "_id" (by decide) (by decide)⟩

end NewCursor

end Ascendance.Feed
