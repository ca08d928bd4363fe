import Ascendance.Core.JsonText
import Ascendance.Models.ForensicArchive.Envelope
import Mathlib.Logic.Function.Basic

/-!
# Agreement of archives

An archive that is written for a day and its records is accepted for them, in
whatever order the records are read; and what is accepted for a day and the hash of
its records agrees with what would be built.
-/

namespace Ascendance.ForensicArchive

open Ascendance.Core

section Agreement

variable {Bytes : Type} (p : Platform Bytes) (date : String) (start stop createdAt : ℤ)

/-- A manifest is well formed. -/
private theorem buildManifest_wellFormed (records : List Value) :
    (buildManifest p.stringify p.sha256 date start stop createdAt records).WellFormed := by
  obtain ⟨entries, hmanifest, hnodup, hentries⟩ :=
    buildManifest_shape p.stringify p.sha256 date start stop createdAt records
  rw [hmanifest]
  exact .object hnodup hentries

/-- The events of well formed records are well formed. -/
private theorem buildEvents_wellFormed (previousHash : String) {records : List Value}
    (hrecords : ∀ r ∈ records, r.WellFormed) :
    ∀ e ∈ buildEvents p.stringify p.sha256 previousHash records, e.toValue.WellFormed := by
  intro e he
  have hrecord : e.record ∈ records := by
    rw [← buildEvents_records p.stringify p.sha256 previousHash records]
    exact List.mem_map.mpr ⟨e, he, rfl⟩
  refine .object (event_nodup e) fun f hf => ?_
  simp only [List.mem_cons, List.not_mem_nil, or_false] at hf
  rcases hf with rfl | rfl | rfl
  · exact hrecords _ hrecord
  · exact .leaf _
  · exact .leaf _

/-- The bundle of some records. -/
def bundleOf (records : List ForensicRecord) : Value :=
  buildBundle p.stringify p.sha256 date start stop createdAt (canonicalRecords records)

/-- A bundle has distinct property names. -/
theorem bundleOf_wellFormed (records : List ForensicRecord) :
    (bundleOf p date start stop createdAt records).WellFormed := by
  refine .object (by simp) fun e he => ?_
  simp only [List.mem_cons, List.not_mem_nil, or_false] at he
  rcases he with rfl | rfl
  · exact buildManifest_wellFormed p date start stop createdAt _
  · refine .array fun v hv => ?_
    obtain ⟨event, hevent, rfl⟩ := List.mem_map.mp hv
    exact buildEvents_wellFormed p GENESIS_HASH
      (fun r hr => (canonicalRecords_ok records r hr).wellFormed) event hevent

variable {p}

/-- A bundle is read back as it was built. -/
private theorem ofJson_bundleOf (records : List ForensicRecord) :
    ofJson (canonicalItem (bundleOf p date start stop createdAt records)) =
      readBack (bundleOf p date start stop createdAt records) := by
  rw [bundleOf, buildBundle, canonicalItem, readBack, canonical_object]
  rfl

/-- The archive of some records is accepted for them. -/
theorem checkArchive_archive (hp : p.Exact) (iv : Bytes) (archiveFileName : String)
    (records : List ForensicRecord) :
    p.checkArchive (p.archiveContents iv (bundleOf p date start stop createdAt records)
      archiveFileName) archiveFileName date start stop (p.expectedRecordsSha256 records) =
        .ok () := by
  have hwell := bundleOf_wellFormed p date start stop createdAt records
  unfold Platform.checkArchive
  rw [Platform.decryptBundle_archiveContents hp iv hwell, ofJson_bundleOf]
  simp only [bind, Except.bind]
  exact buildBundle_verifies p.stringify p.sha256 date start stop createdAt
    (canonicalRecords_ok records)

/-- What is built is accepted whatever the order of the records, and what is accepted
agrees with what would be built: in the fields of the manifest but the time of creation,
in the records up to canonical JSON, and in the hashes of their chain. -/
theorem forensicArchive_agrees (hp : p.Exact) (records : List ForensicRecord)
    (hdistinct : (records.map fun r => (r.recordedAt, r.eventId)).Nodup) :
    (∀ records', records.Perm records' →
      (∀ createdAt, bundleOf p date start stop createdAt records' =
        bundleOf p date start stop createdAt records) ∧
      p.expectedRecordsSha256 records' = p.expectedRecordsSha256 records ∧
      ∀ createdAt iv archiveFileName, p.checkArchive
        (p.archiveContents iv (bundleOf p date start stop createdAt records') archiveFileName)
        archiveFileName date start stop (p.expectedRecordsSha256 records') = .ok ()) ∧
    ∀ bundle : Json, bundle.WellFormed →
      verifyBundle p.stringify p.sha256 (ofJson bundle) date start stop
        (p.expectedRecordsSha256 records) = .ok () →
      Agrees p.stringify p.sha256 (ofJson bundle) date start stop (canonicalRecords records) := by
  refine ⟨fun records' hperm => ?_, fun bundle hbundle h => ?_⟩
  · have hsame := canonicalRecords_perm hdistinct hperm
    refine ⟨fun createdAt => ?_, ?_, fun createdAt iv archiveFileName => ?_⟩
    · rw [bundleOf, bundleOf, hsame]
    · rw [Platform.expectedRecordsSha256, Platform.expectedRecordsSha256, hsame]
    · exact checkArchive_archive date start stop createdAt hp iv archiveFileName records'
  · exact verifyBundle_agrees hp.stringify_injOn hbundle (canonicalRecords_ok records) h

end Agreement

/-- The text of a record. -/
def recordText (eventId : String) : String :=
  "\x7b\"eventId\":\"" ++ eventId ++ "\",\"recordedAt\":\"2026-02-26T23:59:59.999Z\"\x7d"

/-- The text of an event before it is hashed. -/
def eventText (previousHash eventId : String) : String :=
  "\x7b\"previousHash\":\"" ++ previousHash ++ "\",\"record\":" ++ recordText eventId ++ "\x7d"

/-- The digests of the texts that are hashed for them, and for a day without records. -/
def digests : List (String × String) :=
  [("[]", "4f53cda18c2baa0c0354bb5f9a3ecbe5ed12ab4d8e11ba873c2f11161202b945"),
    ("[" ++ recordText "e1" ++ "," ++ recordText "e2" ++ "]",
      "b046a7a4196c02dcb7ec87e1aecf5a5ebe27a2727420b84fd5bee3c68c1fcd44"),
    (eventText GENESIS_HASH "e1",
      "2bb8d7e5c961e245dbdfee903704fbea92888aae31e86ea6c7a1060cb785a1f9"),
    (eventText "2bb8d7e5c961e245dbdfee903704fbea92888aae31e86ea6c7a1060cb785a1f9" "e2",
      "24a77806036c2f0bf6144073cc51a8fc76aba3704d7be1a2295a3a5faeb6b28d")]

/-- The digest of a text, if it is one of these, and else the text. -/
def digest (text : String) : String := (digests.lookup text).getD ("sha256:" ++ text)

/-- The digest of the tests is a listed one, or its text marked. -/
private theorem digest_cases (text : String) :
    (∃ e ∈ digests, e.1 = text ∧ digest text = e.2) ∨ digest text = "sha256:" ++ text := by
  unfold digest
  cases hlookup : digests.lookup text with
  | none => exact .inr rfl
  | some value =>
    have hnodup : (digests.map (·.1)).Nodup := by decide +kernel
    exact .inl ⟨_, (lookup_eq_some_iff hnodup).mp hlookup, rfl, rfl⟩

private theorem digest_injective : Function.Injective digest := by
  have hvalues : ∀ e ∈ digests, ∀ text, e.2 ≠ "sha256:" ++ text := by
    have hheads : ∀ e ∈ digests, e.2.toList.head? ≠ some 's' := by decide +kernel
    intro e he text h
    refine hheads e he ?_
    rw [h, String.toList_append]
    rfl
  have hdistinct : ∀ e ∈ digests, ∀ e' ∈ digests, e.2 = e'.2 → e.1 = e'.1 := by decide +kernel
  intro text text' h
  obtain ⟨e, he, rfl, hvalue⟩ | hplain := digest_cases text
  · obtain ⟨e', he', rfl, hvalue'⟩ | hplain' := digest_cases text'
    · exact hdistinct e he e' he' (hvalue.symm.trans (h.trans hvalue'))
    · exact absurd (hvalue.symm.trans (h.trans hplain')) (hvalues e he text')
  · obtain ⟨e', he', rfl, hvalue'⟩ | hplain' := digest_cases text'
    · exact absurd (hvalue'.symm.trans (h.symm.trans hplain)) (hvalues e' he' text)
    · exact String.append_right_inj _ |>.mp (hplain.symm.trans (h.trans hplain'))

/-- Nothing is compressed or encrypted here. -/
noncomputable def plainPlatform : Platform String where
  stringify := jsonText
  parse := Function.partialInv fun j => jsonText j ++ "\n"
  line text := text ++ "\n"
  sha256 := digest
  base64 := id
  ofBase64 := id
  gzip := id
  gunzip := some
  encrypt _ _ bytes := (bytes, "")
  decrypt _ _ _ bytes := some bytes

/-- The plain platform parses what it writes. -/
theorem plainPlatform_exact : plainPlatform.Exact where
  parse_line j _ := by
    refine Function.partialInv_left (f := fun j => jsonText j ++ "\n") (fun j j' h => ?_) j
    exact jsonText_injective (String.append_left_inj _ |>.mp h)
  sha256_injective := digest_injective
  ofBase64_base64 _ := rfl
  gunzip_gzip _ := rfl
  decrypt_encrypt _ _ _ := rfl

/-- A record of the last millisecond of its day. -/
def exampleRecord (id : String) : ForensicRecord where
  entries := [("recordedAt", .leaf (.date 1772150399999)), ("eventId", .string id)]
  wellFormed := by
    refine .object (by simp) fun e he => ?_
    simp only [List.mem_cons, List.not_mem_nil, or_false] at he
    rcases he with rfl | rfl <;> exact .leaf _
  recordedAt := 1772150399999
  eventId := id
  recordedAt_eq := rfl
  eventId_eq := rfl

/-- The bundle of the two records as it is read. -/
def exampleBundle : Json :=
  canonicalItem (buildBundle jsonText digest "2026-02-26" 1772064000000 1772150400000 1772150700000
    (canonicalRecords [exampleRecord "e2", exampleRecord "e1"]))

private theorem exampleBundle_wellFormed : exampleBundle.WellFormed :=
  (canonicalItem_isCanonical (bundleOf_wellFormed plainPlatform "2026-02-26" 1772064000000
    1772150400000 1772150700000 [exampleRecord "e2", exampleRecord "e1"])).wellFormed

example : (((ofJson exampleBundle).getOptional "manifest").getOptional "finalEventHash").isString
    "24a77806036c2f0bf6144073cc51a8fc76aba3704d7be1a2295a3a5faeb6b28d" := by decide +kernel

/-- Two records are archived alike in either order. -/
theorem forensicArchive_agrees_twoRecords :
    bundleOf plainPlatform "2026-02-26" 1772064000000 1772150400000 1772150700000
        [exampleRecord "e1", exampleRecord "e2"] =
      bundleOf plainPlatform "2026-02-26" 1772064000000 1772150400000 1772150700000
        [exampleRecord "e2", exampleRecord "e1"] ∧
    Agrees jsonText digest (ofJson exampleBundle) "2026-02-26" 1772064000000 1772150400000
      (canonicalRecords [exampleRecord "e2", exampleRecord "e1"]) := by
  obtain ⟨hbuilt, haccepted⟩ := forensicArchive_agrees "2026-02-26" 1772064000000 1772150400000
    plainPlatform_exact [exampleRecord "e2", exampleRecord "e1"] (by decide +kernel)
  refine ⟨(hbuilt _ (.swap _ _ [])).1 _, ?_⟩
  refine haccepted exampleBundle exampleBundle_wellFormed ?_
  change verifyBundle plainPlatform.stringify plainPlatform.sha256 (ofJson (canonicalItem
    (bundleOf plainPlatform "2026-02-26" 1772064000000 1772150400000 1772150700000
      [exampleRecord "e2", exampleRecord "e1"]))) _ _ _ _ = _
  rw [ofJson_bundleOf]
  exact buildBundle_verifies plainPlatform.stringify plainPlatform.sha256 "2026-02-26" 1772064000000
    1772150400000 1772150700000 (canonicalRecords_ok _)

/-- A bundle of an empty day whose ordering has one name more. -/
def longOrderingBundle : Json :=
  .object [("events", .array []), ("manifest", .object
    [("archiveType", .leaf (.string "forensic-operational-errors")),
      ("createdAt", .leaf (.string "2026-02-27T00:05:00.000Z")),
      ("date", .leaf (.string "2026-02-26")), ("eventCount", .leaf (.number "0")),
      ("finalEventHash", .leaf (.string GENESIS_HASH)),
      ("ordering", .array [.leaf (.string "recordedAt"), .leaf (.string "eventId"),
        .leaf (.string "payload")]),
      ("recordsSha256", .leaf (.string
        "4f53cda18c2baa0c0354bb5f9a3ecbe5ed12ab4d8e11ba873c2f11161202b945")),
      ("version", .leaf (.number "1")),
      ("windowEnd", .leaf (.string "2026-02-27T00:00:00.000Z")),
      ("windowStart", .leaf (.string "2026-02-26T00:00:00.000Z"))])]

/-- A bundle whose ordering has a third entry is accepted, although none is built so. -/
theorem longOrdering_accepted :
    verifyBundle plainPlatform.stringify plainPlatform.sha256 (ofJson longOrderingBundle)
      "2026-02-26" 1772064000000 1772150400000 (plainPlatform.expectedRecordsSha256 []) = .ok () ∧
    ∀ createdAt, canonical (((ofJson longOrderingBundle).getOptional "manifest").getOptional
      "ordering") ≠ canonical (((bundleOf plainPlatform "2026-02-26" 1772064000000 1772150400000
        createdAt []).getOptional "manifest").getOptional "ordering") := by
  refine ⟨by decide +kernel, fun createdAt h => ?_⟩
  have hbuilt := buildManifest_ordering plainPlatform.stringify plainPlatform.sha256 "2026-02-26"
    1772064000000 1772150400000 createdAt (canonicalRecords [])
  change canonical _ = canonical ((buildManifest plainPlatform.stringify plainPlatform.sha256
    "2026-02-26" 1772064000000 1772150400000 createdAt (canonicalRecords [])).getOptional
      "ordering") at h
  rw [hbuilt] at h
  exact absurd (congrArg (Option.map jsonText) h) (by decide +kernel)

end Ascendance.ForensicArchive
