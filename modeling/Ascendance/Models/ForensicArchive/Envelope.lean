import Ascendance.Models.ForensicArchive.Accepted

/-!
# Archives

The bytes of an archive: the JSON of a bundle, compressed, encrypted and put into an
envelope. JSON text, compression, encryption, base64 and SHA-256 are parameters.
-/

namespace Ascendance.ForensicArchive

open Ascendance.Core

/-- What `JSON`, `zlib`, `crypto` and `Buffer` do; texts and buffers are bytes. -/
structure Platform (Bytes : Type) where
  stringify : Json → Bytes
  parse : Bytes → Option Json
  /-- A text with a line break after it. -/
  line : Bytes → Bytes
  sha256 : Bytes → String
  base64 : Bytes → String
  ofBase64 : String → Bytes
  gzip : Bytes → Bytes
  gunzip : Bytes → Option Bytes
  /-- AES-256-GCM under the key of the service: the ciphertext and its tag. -/
  encrypt : (iv : Bytes) → (aad : String) → Bytes → Bytes × Bytes
  decrypt : (iv : Bytes) → (aad : String) → (authTag ciphertext : Bytes) → Option Bytes

/-- Text, compression and encryption lose nothing, and digests do not collide. -/
structure Platform.Exact {Bytes : Type} (p : Platform Bytes) : Prop where
  parse_line : ∀ j : Json, j.Enumerated → p.parse (p.line (p.stringify j)) = some j
  sha256_injective : Function.Injective p.sha256
  ofBase64_base64 : ∀ b, p.ofBase64 (p.base64 b) = b
  gunzip_gzip : ∀ b, p.gunzip (p.gzip b) = some b
  decrypt_encrypt : ∀ iv aad b,
    p.decrypt iv aad (p.encrypt iv aad b).2 (p.encrypt iv aad b).1 = some b

/-- The encrypted bundle with what is needed to decrypt it. -/
structure EncryptionEnvelope where
  iv : String
  authTag : String
  ciphertext : String

/-- The envelope as it is written. -/
def EncryptionEnvelope.toJson (envelope : EncryptionEnvelope) : Json :=
  .object [("version", .leaf (.number "1")), ("algorithm", .leaf (.string "aes-256-gcm")),
    ("iv", .leaf (.string envelope.iv)), ("authTag", .leaf (.string envelope.authTag)),
    ("ciphertext", .leaf (.string envelope.ciphertext))]

/-- The envelope is not one. -/
def envelopeError : String := "Invalid forensic archive encryption envelope"

/-- What is not an object has no version either. -/
def parseEnvelope (value : Value) : Except String EncryptionEnvelope :=
  if (value.getOptional "version").isNumber 1 &&
      (value.getOptional "algorithm").isString "aes-256-gcm" then
    match (value.getOptional "iv").asString, (value.getOptional "authTag").asString,
      (value.getOptional "ciphertext").asString with
    | some iv, some authTag, some ciphertext => .ok ⟨iv, authTag, ciphertext⟩
    | _, _, _ => .error envelopeError
  else .error envelopeError

namespace Platform

variable {Bytes : Type} (p : Platform Bytes)

/-- Encrypt a compressed bundle and wrap it into an envelope. -/
def encryptBundle (iv : Bytes) (compressedBundle : Bytes) (archiveFileName : String) : Bytes :=
  let (ciphertext, authTag) := p.encrypt iv archiveFileName compressedBundle
  p.line (p.stringify (EncryptionEnvelope.toJson
    ⟨p.base64 iv, p.base64 authTag, p.base64 ciphertext⟩))

/-- Unwrap, decrypt, decompress and parse an archive. -/
def decryptBundle (encryptedArchive : Bytes) (archiveFileName : String) : Except String Value := do
  let parsedEnvelope ← (p.parse encryptedArchive).elim (.error envelopeError) .ok
  let envelope ← parseEnvelope (ofJson parsedEnvelope)
  let compressed ← (p.decrypt (p.ofBase64 envelope.iv) archiveFileName
    (p.ofBase64 envelope.authTag) (p.ofBase64 envelope.ciphertext)).elim
      (.error "Unsupported state or unable to authenticate data") .ok
  let plaintext ← (p.gunzip compressed).elim (.error "incorrect header check") .ok
  let bundle ← (p.parse plaintext).elim (.error "Invalid forensic archive bundle") .ok
  return ofJson bundle

/-- The archive of a bundle. -/
def archiveContents (iv : Bytes) (bundle : Value) (archiveFileName : String) : Bytes :=
  p.encryptBundle iv (p.gzip (p.line (p.stringify (canonicalItem bundle)))) archiveFileName

/-- The hash that an archive of the records has to have. -/
def expectedRecordsSha256 (records : List ForensicRecord) : String :=
  stableHash p.stringify p.sha256 (.array (canonicalRecords records))

/-- What is done with an archive that is there. -/
def checkArchive (contents : Bytes) (archiveFileName date : String) (start stop : ℤ)
    (expectedRecordsSha256 : String) : Except String Unit := do
  let bundle ← p.decryptBundle contents archiveFileName
  verifyBundle p.stringify p.sha256 bundle date start stop expectedRecordsSha256

end Platform

/-- An envelope is parsed as it was written. -/
private theorem parseEnvelope_toJson (envelope : EncryptionEnvelope) :
    parseEnvelope (ofJson envelope.toJson) = .ok envelope := by
  rfl

/-- An envelope is written in enumeration order. -/
theorem EncryptionEnvelope.enumerated (envelope : EncryptionEnvelope) :
    envelope.toJson.Enumerated := by
  refine .object ?_ ?_
  · refine List.pairwise_map.mp (pairwise_keyBefore ?_ (by simp))
    simp only [List.map_cons, List.map_nil]
    decide
  · intro e he
    simp only [List.mem_cons, List.not_mem_nil, or_false] at he
    rcases he with rfl | rfl | rfl | rfl | rfl <;> exact .leaf _

namespace Platform

variable {Bytes : Type} {p : Platform Bytes}

/-- An archive holds its bundle. -/
theorem decryptBundle_archiveContents (hp : p.Exact) (iv : Bytes) {bundle : Value}
    (hbundle : bundle.WellFormed) (archiveFileName : String) :
    p.decryptBundle (p.archiveContents iv bundle archiveFileName) archiveFileName =
      .ok (ofJson (canonicalItem bundle)) := by
  have henvelope := hp.parse_line _ (EncryptionEnvelope.enumerated ⟨p.base64 iv,
    p.base64 (p.encrypt iv archiveFileName
      (p.gzip (p.line (p.stringify (canonicalItem bundle))))).2,
    p.base64 (p.encrypt iv archiveFileName
      (p.gzip (p.line (p.stringify (canonicalItem bundle))))).1⟩)
  have hplain := hp.parse_line _ (canonicalItem_isCanonical hbundle).enumerated
  unfold decryptBundle archiveContents encryptBundle
  dsimp only
  rw [henvelope]
  simp only [Option.elim_some, bind, Except.bind, parseEnvelope_toJson, hp.ofBase64_base64,
    hp.decrypt_encrypt, hp.gunzip_gzip, hplain]
  rfl

/-- Canonical documents with one hash are one document. -/
theorem Exact.stringify_injOn (hp : p.Exact) :
    Set.InjOn (p.sha256 ∘ p.stringify) {j | j.Canonical} := by
  intro j hj j' hj' h
  have hread := hp.parse_line j (Data.Canonical.enumerated hj)
  rw [hp.sha256_injective h, hp.parse_line j' (Data.Canonical.enumerated hj')] at hread
  exact (Option.some.inj hread).symm

end Platform

end Ascendance.ForensicArchive
