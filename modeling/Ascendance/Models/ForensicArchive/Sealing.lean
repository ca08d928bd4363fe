import Ascendance.Core.Files
import Ascendance.Models.ForensicArchive.Agreement

/-!
# Sealing a day

The archive of a day and the file with its checksum are two files, and any number of
processes may try to make them. Who loses a race goes on with the archive that is there.
-/

namespace Ascendance.ForensicArchive

open Ascendance.Core Ascendance.Core.Files Ascendance.Core.Script

/-- The files of a sealed day. -/
inductive FinalPath
  | archive
  | sidecar
  deriving DecidableEq, Repr

/-- Texts as bytes. -/
structure Utf8 (Bytes : Type) where
  encode : String → Bytes
  decode : Bytes → String
  decode_encode : ∀ s, decode (encode s) = s

/-- A UTC day that is over. -/
structure Day where
  archiveDirectory : String
  date : String
  start : ℤ
  stop : ℤ

/-- The name of the archive of a day. -/
def Day.archiveFileName (day : Day) : String := "forensic-" ++ day.date ++ ".v1.json.gz.enc"

/-- The path of the archive of a day. -/
def Day.archivePath (day : Day) : String := day.archiveDirectory ++ "/" ++ day.archiveFileName

/-- A call of `sealDate`, with what it reads from the database, the clock and the source of
randomness. -/
structure SealRequest (Bytes : Type) where
  persistedRecords : List ForensicRecord
  createdAt : ℤ
  iv : Bytes
  temporaryPath : FinalPath → ℕ

/-- What the caller is told of a sealed day. -/
structure ForensicArchiveResult where
  archivePath : String
  archiveSha256 : String
  eventCount : ℕ
  reusedExistingArchive : Bool
  deriving DecidableEq, Repr

section Programs

variable {Bytes : Type} (p : Platform Bytes) (utf8 : Utf8 Bytes) (day : Day)

/-- Something outside the files of the day. -/
def perform : Script FinalPath Bytes Unit := .await .done

/-- Create a file and write its contents. -/
def writeFile (path : ℕ) (contents : Bytes) : Script FinalPath Bytes Unit :=
  .create path (utf8.encode "") <| onSuccess fun created =>
    if created then .write path contents .done
    else .done (.error "EEXIST: file already exists, open")

/-- A missing file is an error. -/
def readExisting (name : FinalPath) : Script FinalPath Bytes Bytes :=
  .readFile name <| onSuccess fun contents =>
    .done (contents.elim (.error "ENOENT: no such file or directory, open") .ok)

/-- Write a temporary file and link it to its final name, unless that exists. -/
def writeAtomicallyExclusive (temporaryPath : ℕ) (finalPath : FinalPath) (contents : Bytes) :
    Script FinalPath Bytes Bool := do
  writeFile utf8 temporaryPath contents
  tryFinally
    (do
      -- The file is opened, synchronised and closed.
      perform
      tryFinally perform perform
      .link temporaryPath finalPath .done)
    (ignoreErrors (.unlink temporaryPath .done))

/-- The checksum beside the archive is another one. -/
def checksumConflict : String :=
  "Forensic archive checksum conflict: " ++ day.archivePath ++ ".sha256"

/-- The text of the file with the checksum. -/
def checksum (archiveSha256 : String) : String :=
  archiveSha256 ++ "  " ++ day.archiveFileName ++ "\n"

/-- Write the checksum beside the archive, or compare it with the one there. -/
def ensureSha256Sidecar (temporaryPath : ℕ) (archiveSha256 : String) :
    Script FinalPath Bytes Unit :=
  let expected := checksum day archiveSha256
  .readFile .sidecar <| onSuccess fun existing =>
    match existing with
    | some existing =>
      .done (if utf8.decode existing = expected then .ok () else .error (checksumConflict day))
    | none => do
      let created ← writeAtomicallyExclusive utf8 temporaryPath .sidecar (utf8.encode expected)
      if created then .done (.ok ())
      else do
        let racedValue ← readExisting .sidecar
        .done (if utf8.decode racedValue = expected then .ok () else .error (checksumConflict day))

/-- What the call makes of its records. -/
def SealRequest.contents (r : SealRequest Bytes) : Bytes :=
  p.archiveContents r.iv
    (bundleOf p day.date day.start day.stop r.createdAt r.persistedRecords) day.archiveFileName

/-- `decryptBundle` and `verifyBundle` of an archive that another call made. -/
def SealRequest.check (r : SealRequest Bytes) (archive : Bytes) : Except String Unit :=
  p.checkArchive archive day.archiveFileName day.date day.start day.stop
    (p.expectedRecordsSha256 r.persistedRecords)

/-- The checksum of the archive is put beside it. -/
def finishSeal (r : SealRequest Bytes) (archiveContents : Bytes) (reusedExistingArchive : Bool) :
    Script FinalPath Bytes ForensicArchiveResult := do
  let archiveSha256 := p.sha256 archiveContents
  ensureSha256Sidecar utf8 day (r.temporaryPath .sidecar) archiveSha256
  return ⟨day.archivePath, archiveSha256, r.persistedRecords.length, reusedExistingArchive⟩

/-- Seal a day: check the archive that is there, or write one. -/
def sealDate (r : SealRequest Bytes) : Script FinalPath Bytes ForensicArchiveResult := do
  -- The records are read, and the directory is made.
  perform
  perform
  .readFile .archive <| onSuccess fun existingArchive =>
    match existingArchive with
    | some existingArchive => do
      .done (r.check p day existingArchive)
      finishSeal p utf8 day r existingArchive true
    | none => do
      let archiveContents := r.contents p day
      let created ← writeAtomicallyExclusive utf8 (r.temporaryPath .archive) .archive
        archiveContents
      if created then finishSeal p utf8 day r archiveContents false
      else do
        let racedArchive ← readExisting .archive
        .done (r.check p day racedArchive)
        finishSeal p utf8 day r racedArchive true

end Programs

section Sealing

variable {Bytes : Type} (p : Platform Bytes) (utf8 : Utf8 Bytes) (day : Day)

/-- An archive is one of a call's records, and beside it stands its own checksum. -/
structure Sealed (f : FinalPath → Option Bytes) : Prop where
  archive : ∀ b, f .archive = some b → ∃ r : SealRequest Bytes, b = r.contents p day
  sidecar : ∀ x, f .sidecar = some x →
    ∃ b, f .archive = some b ∧ x = utf8.encode (checksum day (p.sha256 b))

/-- A call makes the archive of its own records, or the checksum of an archive that it accepts. -/
def Permits (r : SealRequest Bytes) (f : FinalPath → Option Bytes) : FinalPath → Bytes → Prop
  | .archive, b => b = r.contents p day
  | .sidecar, x => ∃ b, f .archive = some b ∧ r.check p day b = .ok () ∧
    x = utf8.encode (checksum day (p.sha256 b))

/-- The archive is written once, and the checksum is that of the archive. -/
def sealing : Discipline FinalPath Bytes (SealRequest Bytes) where
  good := Sealed p utf8 day
  permits := Permits p utf8 day
  kept r f n d h hnone hpermits := by
    cases n with
    | archive =>
      refine ⟨fun b hb => ⟨r, ?_⟩, fun x hx => ?_⟩
      · exact (Option.some.inj hb).symm.trans hpermits
      · obtain ⟨b, hb, -⟩ := h.sidecar x hx
        rw [hnone] at hb
        cases hb
    | sidecar =>
      obtain ⟨b, hb, -, rfl⟩ := hpermits
      exact ⟨h.archive, fun x hx => ⟨b, hb, (Option.some.inj hx).symm⟩⟩

/-- A call that returns has found its archive and the checksum of it. -/
def Returned (r : SealRequest Bytes) (f : FinalPath → Option Bytes)
    (result : Except String ForensicArchiveResult) : Prop :=
  ∀ a, result = .ok a → ∃ b, f .archive = some b ∧ r.check p day b = .ok () ∧
    a.archiveSha256 = p.sha256 b ∧ f .sidecar = some (utf8.encode (checksum day (p.sha256 b)))

variable {p utf8 day} {r : SealRequest Bytes} {seen : FinalPath → Option Bytes} {path : ℕ}

/-- The archive that is there is the one that was accepted. -/
theorem Sealed.sidecar_eq {f : FinalPath → Option Bytes} (h : Sealed p utf8 day f) {b x : Bytes}
    (hb : f .archive = some b) (hx : f .sidecar = some x) :
    x = utf8.encode (checksum day (p.sha256 b)) := by
  obtain ⟨b', hb', rfl⟩ := h.sidecar x hx
  rw [Option.some.inj (hb.symm.trans hb')]

/-- A finished action is sound when its result is right. -/
private theorem perform_sound
    {Q : (FinalPath → Option Bytes) → Claim Bytes → Except String Unit → Prop}
    {own : Claim Bytes} (h : ∀ result, Q seen own result) :
    Sound (sealing p utf8 day) r Q seen own perform := h

/-- After a file was written it holds the contents. -/
private theorem writeFile_sound (contents : Bytes) : Sound (sealing p utf8 day) r
    (fun _ own result => result = .ok () → own = some (path, some contents)) seen none
    (writeFile utf8 path contents) := by
  refine ⟨rfl, ?_, fun h => (by cases h), fun e h => (by cases h)⟩
  exact ⟨⟨none, rfl⟩, fun _ => rfl, fun e h => (by cases h)⟩

/-- The final file holds the contents, or it was there before. -/
theorem writeAtomicallyExclusive_sound {name : FinalPath} {contents : Bytes}
    (hpermits : ∀ f, Sealed p utf8 day f → Extends seen f → f name = none →
      Permits p utf8 day r f name contents) :
    Sound (sealing p utf8 day) r (fun f own result => ∀ created, result = .ok created →
      own = none ∧ (created = true → f name = some contents) ∧ (created = false → f name ≠ none))
      seen none (writeAtomicallyExclusive utf8 path name contents) := by
  refine Sound.bind (writeFile_sound contents) (fun seen₁ own₁ _ hext₁ hown₁ => ?_)
    fun _ _ e _ _ created h => (by cases h)
  obtain rfl := hown₁ rfl
  -- What is linked is linked before the temporary file is removed.
  refine Sound.andThen (Q := fun f own result => (∃ x, own = some (path, x)) ∧
    ∀ created, result = .ok created →
      (created = true → f name = some contents) ∧ (created = false → f name ≠ none)) ?_ ?_
  · refine Sound.bind (Q := fun _ own _ => own = some (path, some contents))
      (perform_sound fun _ => rfl) (fun seen₂ own₂ _ hext₂ hown₂ => ?_)
      fun _ _ e _ hown => ⟨⟨_, hown⟩, fun created h => (by cases h)⟩
    refine Sound.bind (Q := fun _ own _ => own = some (path, some contents)) ?_
      (fun seen₃ own₃ _ hext₃ hown₃ => ?_)
      fun _ _ e _ hown => ⟨⟨_, hown⟩, fun created h => (by cases h)⟩
    · rintro (e | _)
      · rintro (e' | _) <;> exact hown₂
      · rintro (e' | _) <;> exact hown₂
    · have hext := (hext₁.trans hext₂).trans hext₃
      refine ⟨contents, hown₃, fun f hgood hextf hnone => ⟨?_, ⟨_, hown₃⟩, ?_⟩,
        fun f hgood hextf hsome => ⟨⟨_, hown₃⟩, ?_⟩, fun e => ⟨⟨_, hown₃⟩, ?_⟩⟩
      · exact hpermits f hgood (hext.trans hextf) hnone
      · rintro created h
        obtain rfl := Except.ok.inj h
        exact ⟨fun _ => Function.update_self .., fun h => by cases h⟩
      · rintro created h
        obtain rfl := Except.ok.inj h
        exact ⟨fun h => (by cases h), fun _ => hsome⟩
      · exact fun created h => by cases h
  · rintro seen₂ own₂ result hext₂ ⟨hown₂, hresult⟩
    refine ⟨hown₂, fun _ created h => ⟨rfl, hresult created h⟩⟩

/-- What is compared is the text that was written. -/
theorem compare_sound {f : FinalPath → Option Bytes} {own : Claim Bytes} {x : Bytes}
    {expected : String} (hx : f .sidecar = some x) (heq : x = utf8.encode expected) :
    Sound (sealing p utf8 day) r
      (fun f _ result => result = .ok () → f .sidecar = some (utf8.encode expected)) f own
      (.done (if utf8.decode x = expected then .ok () else .error (checksumConflict day))) :=
  fun _ => heq ▸ hx

/-- After the sidecar was ensured it holds the checksum of the archive. -/
private theorem ensureSha256Sidecar_sound {b : Bytes} (hb : seen .archive = some b)
    (hcheck : r.check p day b = .ok ()) : Sound (sealing p utf8 day) r
    (fun f _ result => result = .ok () →
      f .sidecar = some (utf8.encode (checksum day (p.sha256 b)))) seen none
    (ensureSha256Sidecar utf8 day path (p.sha256 b)) := by
  refine ⟨fun f hgood hext => ?_, fun e h => (by cases h)⟩
  have hbf := hext .archive b hb
  unfold onSuccess
  cases hx : f .sidecar with
  | some x => exact compare_sound hx (hgood.sidecar_eq hbf hx)
  | none =>
    refine Sound.bind (writeAtomicallyExclusive_sound fun f' _ hext' _ => ?_)
      (fun f₁ own₁ created hext₁ hcreated => ?_) fun _ _ e _ _ h => (by cases h)
    · exact ⟨b, hext' .archive b hbf, hcheck, rfl⟩
    · obtain ⟨rfl, hnew, -⟩ := hcreated created rfl
      split
      · next h => exact fun _ => hnew h
      · refine ⟨fun f₂ hgood₂ hext₂ => ?_, fun e h => (by cases h)⟩
        cases hx₂ : f₂ .sidecar with
        | none => exact fun h => by cases h
        | some x =>
          exact compare_sound hx₂ (hgood₂.sidecar_eq (hext₂ _ b (hext₁ _ b hbf)) hx₂)

/-- An archive that a call made or accepted gets its checksum. -/
theorem finishSeal_sound {b : Bytes} {reused : Bool} (hb : seen .archive = some b)
    (hcheck : r.check p day b = .ok ()) : Sound (sealing p utf8 day) r
    (fun f _ result => Returned p utf8 day r f result) seen none
    (finishSeal p utf8 day r b reused) := by
  refine Sound.bind (ensureSha256Sidecar_sound hb hcheck) (fun f own _ hext hsidecar => ?_)
    fun _ _ e _ _ a h => (by cases h)
  intro a ha
  obtain rfl := Except.ok.inj ha
  exact ⟨b, hext _ b hb, hcheck, rfl, hsidecar rfl⟩

/-- Only what is accepted gets that far. -/
theorem check_sound {b : Bytes} {reused : Bool} (hb : seen .archive = some b) :
    Sound (sealing p utf8 day) r (fun f _ result => Returned p utf8 day r f result) seen none
      (do
        .done (r.check p day b)
        finishSeal p utf8 day r b reused) := by
  change Sound _ _ _ _ _ ((Script.done (r.check p day b)).andThen (onSuccess _))
  rw [Script.andThen]
  cases hcheck : r.check p day b with
  | error e => exact fun a h => by cases h
  | ok => exact finishSeal_sound hb hcheck

/-- Sealing a date is sound at every process. -/
private theorem sealDate_sound (hp : p.Exact) (r : SealRequest Bytes) : Sound (sealing p utf8 day) r
    (fun f _ result => Returned p utf8 day r f result) (fun _ => none) none
    (sealDate p utf8 day r) := by
  have hthrown : ∀ (f : FinalPath → Option Bytes) (e : String),
      Returned p utf8 day r f (.error e) := fun f e a h => by cases h
  rintro (e | _)
  · exact hthrown (fun _ => none) e
  rintro (e | _)
  · exact hthrown (fun _ => none) e
  refine ⟨fun f hgood hext => ?_, fun e => hthrown (fun _ => none) e⟩
  unfold onSuccess
  cases hb : f .archive with
  | some b => exact check_sound hb
  | none =>
    refine Sound.bind (writeAtomicallyExclusive_sound fun f' _ _ _ => rfl)
      (fun f₁ own₁ created hext₁ hcreated => ?_) fun _ _ e _ _ => hthrown _ e
    obtain ⟨rfl, hnew, -⟩ := hcreated created rfl
    split
    · next h =>
      exact finishSeal_sound (hnew h)
        (checkArchive_archive day.date day.start day.stop r.createdAt hp r.iv _ r.persistedRecords)
    · refine ⟨fun f₂ hgood₂ hext₂ => ?_, fun e => hthrown _ e⟩
      cases hb₂ : f₂ .archive with
      | none => exact hthrown _ _
      | some b => exact check_sound hb₂

/-- What the records of a call are in an archive. -/
def SealRequest.archived (r : SealRequest Bytes) : List Json :=
  (canonicalRecords r.persistedRecords).map canonicalItem

/-- An archive is accepted for the records that are in it and for no others. -/
theorem SealRequest.check_archived (hp : p.Exact) {r r' : SealRequest Bytes}
    (h : r.check p day (r'.contents p day) = .ok ()) : r.archived = r'.archived := by
  have hwell := bundleOf_wellFormed p day.date day.start day.stop r'.createdAt r'.persistedRecords
  have hbundle := (canonicalItem_isCanonical hwell).wellFormed
  have hown := checkArchive_archive day.date day.start day.stop r'.createdAt hp r'.iv
    day.archiveFileName r'.persistedRecords
  unfold SealRequest.check SealRequest.contents Platform.checkArchive at h
  unfold Platform.checkArchive at hown
  rw [Platform.decryptBundle_archiveContents hp r'.iv hwell] at h hown
  simp only [bind, Except.bind] at h hown
  -- The hash in the bundle is both that of its own records and that of the call's records.
  have hhash : ∀ records : List ForensicRecord,
      ("recordsSha256", Data.string (stableHash p.stringify p.sha256
        (.array (canonicalRecords records)))) ∈
      fields p.stringify p.sha256 day.date day.start day.stop (canonicalRecords records) := by
    intro records
    unfold fields
    simp
  have hleft := (verifyBundle_agrees hp.stringify_injOn hbundle
    (canonicalRecords_ok r.persistedRecords) h).fields _ (hhash r.persistedRecords)
  have hright := (verifyBundle_agrees hp.stringify_injOn hbundle
    (canonicalRecords_ok r'.persistedRecords) hown).fields _ (hhash r'.persistedRecords)
  have heq := Data.leaf.inj (hleft.symm.trans hright)
  exact canonicalItem_inj hp.stringify_injOn
    (fun v hv => (canonicalRecords_ok r.persistedRecords v hv).wellFormed)
    (fun v hv => (canonicalRecords_ok r'.persistedRecords v hv).wellFormed)
    (Scalar.string.inj (Leaf.scalar.inj heq))

variable (p utf8 day)

/-- A directory in which nobody has sealed the day. -/
def unsealed (temporary : ℕ → Option Bytes) :
    World FinalPath Bytes ForensicArchiveResult (SealRequest Bytes) :=
  ⟨⟨fun _ => none, temporary⟩, fun _ => none⟩

/-- What is promised of every state. -/
structure WriteOnce (w : World FinalPath Bytes ForensicArchiveResult (SealRequest Bytes)) :
    Prop where
  /-- A file that is there stays as it is. -/
  unchanged : ∀ events : List (Event (SealRequest Bytes) Bytes), Extends w.dir.file
    (events.foldl (World.advance (sealDate p utf8 day)) w).dir.file
  archive : ∀ b, w.dir.file .archive = some b → ∃ r : SealRequest Bytes, b = r.contents p day
  sidecar : ∀ x, w.dir.file .sidecar = some x → ∃ b, w.dir.file .archive = some b ∧
    x = utf8.encode (checksum day (p.sha256 b))
  /-- Unless it ends before, a call comes to an end. -/
  ends : ∀ i r s, w.task i = some (r, s) → ∃ k result, ((List.replicate k (Event.step i)).foldl
    (World.advance (sealDate p utf8 day)) w).task i = some (r, .done result)
  returned : ∀ i r a, w.task i = some (r, .done (.ok a)) → ∃ b, w.dir.file .archive = some b ∧
    a.archiveSha256 = p.sha256 b ∧
    w.dir.file .sidecar = some (utf8.encode (checksum day (p.sha256 b)))
  /-- A call with other records than the archive does not return, and does nothing to the files. -/
  conflict : ∀ i r s (r' : SealRequest Bytes), w.task i = some (r, s) →
    w.dir.file .archive = some (r'.contents p day) → r.archived ≠ r'.archived →
      (∀ a, s ≠ .done (.ok a)) ∧ ∀ e : Event (SealRequest Bytes) Bytes, e.task = i →
        (w.advance (sealDate p utf8 day) e).dir.file = w.dir.file

variable {p utf8 day}

/-- What holds of the files says that they are written once. -/
private theorem writeOnce_of_holds (hp : p.Exact)
    {w : World FinalPath Bytes ForensicArchiveResult (SealRequest Bytes)} {owns : ℕ → Claim Bytes}
    (h : Holds (sealing p utf8 day) (Returned p utf8 day) w owns) : WriteOnce p utf8 day w := by
  have hreturned : ∀ i r a, w.task i = some (r, .done (.ok a)) →
      ∃ b, w.dir.file .archive = some b ∧ r.check p day b = .ok () ∧
        a.archiveSha256 = p.sha256 b ∧
        w.dir.file .sidecar = some (utf8.encode (checksum day (p.sha256 b))) := by
    intro i r a hi
    obtain ⟨seen, hext, hs⟩ := h.sound i r _ hi
    obtain ⟨b, hb, hcheck, hsha, hx⟩ := hs a rfl
    exact ⟨b, hext _ b hb, hcheck, hsha, hext _ _ hx⟩
  refine ⟨fun events => (h.run (sealDate_sound hp) events).2, h.good.archive, h.good.sidecar,
    fun i r s hi => finishes _ hi, fun i r a hi => ?_, fun i r s r' hi hb hne => ⟨?_, ?_⟩⟩
  · obtain ⟨b, hb, -, hsha, hx⟩ := hreturned i r a hi
    exact ⟨b, hb, hsha, hx⟩
  · rintro a rfl
    obtain ⟨b, hb', hcheck, -⟩ := hreturned i r a hi
    obtain rfl := Option.some.inj (hb'.symm.trans hb)
    exact hne (SealRequest.check_archived hp hcheck)
  · rintro e rfl
    rcases (h.advance (sealDate_sound hp) e).2 with heq | ⟨r₁, s₁, hi₁, heq | ⟨n, d, hnone, hd, -⟩⟩
    · exact heq.symm
    · exact heq
    · obtain ⟨rfl, -⟩ := Prod.mk.inj (Option.some.inj (hi₁.symm.trans hi))
      cases n with
      | archive =>
        rw [hb] at hnone
        cases hnone
      | sidecar =>
        obtain ⟨b, hb', hcheck, -⟩ := hd
        obtain rfl := Option.some.inj (hb'.symm.trans hb)
        exact absurd (SealRequest.check_archived hp hcheck) hne

/-- Whatever processes seal the day, and whatever fails, an archive and its checksum are written
once. -/
theorem sealing_writeOnce (hp : p.Exact) (temporary : ℕ → Option Bytes)
    (events : List (Event (SealRequest Bytes) Bytes)) :
    WriteOnce p utf8 day
      (events.foldl (World.advance (sealDate p utf8 day)) (unsealed temporary)) := by
  have hinitial : Holds (sealing p utf8 day) (Returned p utf8 day)
      (unsealed temporary) fun _ => none :=
    .initial ⟨fun b hb => (by cases hb), fun x hx => (by cases hx)⟩
  obtain ⟨⟨owns, h⟩, -⟩ := hinitial.run (sealDate_sound hp) events
  exact writeOnce_of_holds hp h

end Sealing

/-- Texts that are their own bytes. -/
def plainUtf8 : Utf8 String := ⟨id, id, fun _ => rfl⟩

/-- The day of the examples. -/
def exampleDay : Day := ⟨"/var/forensic-archives", "2026-02-26", 1772064000000, 1772150400000⟩

/-- A request to seal that day. -/
def exampleRequest (persistedRecords : List ForensicRecord) (iv : String) (first : ℕ) :
    SealRequest String :=
  ⟨persistedRecords, 1772150700000, iv, fun name => if name = .archive then first else first + 1⟩

/-- Two processes write their archives; one has linked its own, and crashes, when the other, which
has read a record more, comes to link. -/
theorem sealing_writeOnce_race : WriteOnce plainPlatform plainUtf8 exampleDay
    (([.start 0 (exampleRequest [exampleRecord "e1"] "iv0" 0),
      .start 1 (exampleRequest [exampleRecord "e1", exampleRecord "e2"] "iv1" 2),
      .step 0, .step 0, .step 0, .step 1, .step 1, .step 1, .step 0, .step 0, .step 1,
      .chunk 1 "\x7b", .step 1, .step 0, .step 0, .step 0, .step 0, .crash 0, .step 1, .step 1,
      .step 1, .step 1] :
      List (Event (SealRequest String) String)).foldl
      (World.advance (sealDate plainPlatform plainUtf8 exampleDay)) (unsealed fun _ => none)) :=
  sealing_writeOnce plainPlatform_exact _ _

end Ascendance.ForensicArchive
