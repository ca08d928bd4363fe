import Ascendance.Models.Session.Service
import Mathlib.Algebra.Group.Nat.Defs

/-!
# The classification of refresh tokens

The service classifies a presented token by itself, and the rotation and revocation
scripts decide again. Records are stored by a login and are decoded and encoded again by
the scripts, which write numbers with fourteen significant digits.
-/

namespace Ascendance.Session

open Ascendance.Core

/-- A SHA-256 digest. -/
structure Sha256 where
  bytes : List (Fin 256)
  length : bytes.length = 32
  deriving DecidableEq, Repr

/-- `digest("hex")`. -/
def Sha256.hex (digest : Sha256) : String := String.ofList (Hex.encode digest.bytes)

private theorem isSha256Hex_hex (digest : Sha256) : isSha256Hex digest.hex = true := by
  have hlength : (Hex.encode digest.bytes).length = 64 := by
    rw [Hex.length_encode, digest.length]
  simpa [isSha256Hex, Sha256.hex, hlength] using fun c hc => Hex.isSome_value_of_mem_encode hc

/-- `hashesMatch`: the bytes are compared. -/
def hashesMatch (storedHash presentedHash : String) : Bool :=
  isSha256Hex storedHash && isSha256Hex presentedHash &&
    Hex.decode storedHash.toList == Hex.decode presentedHash.toList

/-- `hashesMatch` of a field; one that is no text does not match. -/
def LuaValue.matches (v : LuaValue) (presentedHash : String) : Bool :=
  match v with
  | .string storedHash => hashesMatch storedHash presentedHash
  | _ => false

/-- `v ?? 0`, as a number. -/
def LuaValue.numberOrZero : LuaValue → Option Int
  | .nil | .null => some 0
  | .number n => some n
  | _ => none

/-- What the presented token is to the session. -/
inductive TokenMatch
  | current
  | recentlyRotated
  | unknown
  deriving DecidableEq, Repr

/-- `classifyRefreshTokenMatch`. -/
def classifyRefreshTokenMatch (session : SessionTable) (presentedHash : String) (now : Int) :
    TokenMatch :=
  if session.refreshTokenHash.matches presentedHash then .current
  else if session.previousRefreshTokenHash.matches presentedHash ∧
      session.previousRefreshTokenGraceUntil.numberOrZero.any (now ≤ ·) then .recentlyRotated
  else .unknown

/-- A number with at most fourteen significant digits; a tie goes to the even one. -/
def significant (n : ℕ) : ℕ :=
  let unit := 10 ^ ((Nat.toDigits 10 n).length - 14)
  let quotient := n / unit
  if unit < 2 * (n % unit) ∨ (2 * (n % unit) = unit ∧ quotient % 2 = 1) then (quotient + 1) * unit
  else quotient * unit

/-- What `cjson.encode` makes of a value. -/
def LuaValue.reencode : LuaValue → LuaValue
  | .number n => .number (if n < 0 then -(significant n.natAbs) else significant n.natAbs)
  | v => v

/-- The record after a script has decoded and encoded it. -/
def SessionTable.reencode (t : SessionTable) : SessionTable where
  sid := t.sid.reencode
  publicId := t.publicId.reencode
  isEmailVerified := t.isEmailVerified.reencode
  authVersion := t.authVersion.reencode
  refreshTokenHash := t.refreshTokenHash.reencode
  refreshVersion := t.refreshVersion.reencode
  previousRefreshTokenHash := t.previousRefreshTokenHash.reencode
  previousRefreshTokenGraceUntil := t.previousRefreshTokenGraceUntil.reencode
  createdAt := t.createdAt.reencode
  lastSeenAt := t.lastSeenAt.reencode
  ip := t.ip.reencode
  userAgent := t.userAgent.reencode
  status := t.status.reencode

/-- The session that a script may write. -/
def Command.script : Command → Option String
  | .compareAndRotate input => some input.sid
  | .touch input => some input.sid
  | .markEmailVerified input => some input.sid
  | _ => none

namespace SessionStore

/-- The session under a sid is encoded. -/
def encode (s : SessionStore) (sid : String) : SessionStore :=
  match s.session sid with
  | some ⟨.record t, _⟩ => s.patch sid t.reencode
  | _ => s

/-- The store after a command. A script that writes a session encodes all of it. -/
def runEncoded (s : SessionStore) (c : Command) : SessionStore :=
  match c.script with
  | none => s.run c
  | some sid =>
    if (s.run c).sessions.get (s.run c).clock sid = s.sessions.get s.clock sid then s.run c
    else (s.run c).encode sid

end SessionStore

/-- A login: its user has a public id, and the hash of its token is a digest. -/
structure LoginInput extends CreateSessionInput where
  publicId_ne : publicId ≠ ""
  isDigest : ∃ digest : Sha256, refreshTokenHash = digest.hex

/-- The commands as the service issues them: the hashes that are stored are digests. -/
inductive ServiceCall
  | createSession (input : LoginInput) (now : Int) (ttlSeconds : ℕ+)
  | rotateRefreshToken (input : RotationInput) (nextRefreshTokenHash : Sha256)
  | touch (input : TouchInput)
  | markEmailVerified (input : PatchInput)
  | revokeByRefreshToken (input : RevocationInput)
  | remove (sid publicId : String)
  | advance (ms : ℕ)

/-- The command that a call of the service runs. -/
def ServiceCall.command : ServiceCall → Command
  | .createSession input now ttlSeconds => 
    .save (Session.createSession input.toCreateSessionInput now) ttlSeconds
  | .rotateRefreshToken input next =>
    .compareAndRotate { input with nextRefreshTokenHash := next.hex }
  | .touch input => .touch input
  | .markEmailVerified input => .markEmailVerified input
  | .revokeByRefreshToken input => .revokeByRefreshToken input
  | .remove sid publicId => .remove sid publicId
  | .advance ms => .advance ms

/-- The store after some calls. -/
def storeAfter (calls : List ServiceCall) : SessionStore :=
  calls.foldl (fun s call => s.runEncoded call.command) .empty

/-- What the record of a session looks like after any number of writes. -/
structure Issued (sid : String) (t : SessionTable) : Prop where
  sid : t.sid = .string sid
  publicId : ∃ publicId, t.publicId = .string publicId ∧ publicId ≠ ""
  isEmailVerified : ∃ b, t.isEmailVerified = .boolean b
  refreshTokenHash : ∃ digest : Sha256, t.refreshTokenHash = .string digest.hex
  refreshVersion : ∃ n, 0 ≤ n ∧ t.refreshVersion = .number n
  previous : (t.previousRefreshTokenHash = .nil ∧ t.previousRefreshTokenGraceUntil = .nil) ∨
    ∃ (digest : Sha256) (graceUntil : Int), t.previousRefreshTokenHash = .string digest.hex ∧
      t.previousRefreshTokenGraceUntil = .number graceUntil
  createdAt : ∃ n, t.createdAt = .number n
  lastSeenAt : ∃ n, t.lastSeenAt = .number n
  status : t.status = .string "active"

section Records

variable {sid : String} {t : SessionTable}

/-- A new session is one that the service issues. -/
private theorem issued_createSession (input : LoginInput) (now : Int) :
    Issued input.sid (createSession input.toCreateSessionInput now).toTable where
  sid := rfl
  publicId := ⟨input.publicId, rfl, input.publicId_ne⟩
  isEmailVerified := ⟨input.isEmailVerified, rfl⟩
  refreshTokenHash := by
    obtain ⟨digest, hdigest⟩ := input.isDigest
    exact ⟨digest, congrArg LuaValue.string hdigest⟩
  refreshVersion := ⟨0, le_rfl, rfl⟩
  previous := .inl ⟨rfl, rfl⟩
  createdAt := ⟨now, rfl⟩
  lastSeenAt := ⟨now, rfl⟩
  status := rfl

/-- Encoding changes the values of numbers only. -/
theorem Issued.reencode (h : Issued sid t) : Issued sid t.reencode where
  sid := congrArg LuaValue.reencode h.sid
  publicId := by
    obtain ⟨publicId, hp, hne⟩ := h.publicId
    exact ⟨publicId, congrArg LuaValue.reencode hp, hne⟩
  isEmailVerified := by
    obtain ⟨b, hb⟩ := h.isEmailVerified
    exact ⟨b, congrArg LuaValue.reencode hb⟩
  refreshTokenHash := by
    obtain ⟨digest, hd⟩ := h.refreshTokenHash
    exact ⟨digest, congrArg LuaValue.reencode hd⟩
  refreshVersion := by
    obtain ⟨n, hn, hversion⟩ := h.refreshVersion
    refine ⟨significant n.natAbs, Int.natCast_nonneg _, ?_⟩
    change t.refreshVersion.reencode = _
    rw [hversion]
    exact congrArg LuaValue.number (if_neg (not_lt.mpr hn))
  previous := by
    obtain ⟨hhash, hgrace⟩ | ⟨digest, graceUntil, hhash, hgrace⟩ := h.previous
    · exact .inl ⟨congrArg LuaValue.reencode hhash, congrArg LuaValue.reencode hgrace⟩
    · exact .inr ⟨digest, _, congrArg LuaValue.reencode hhash, congrArg LuaValue.reencode hgrace⟩
  createdAt := by
    obtain ⟨n, hn⟩ := h.createdAt
    exact ⟨_, congrArg LuaValue.reencode hn⟩
  lastSeenAt := by
    obtain ⟨n, hn⟩ := h.lastSeenAt
    exact ⟨_, congrArg LuaValue.reencode hn⟩
  status := congrArg LuaValue.reencode h.status

/-- A touched record is as the service issued it. -/
theorem Issued.touched (h : Issued sid t) (lastSeenAt : Int) :
    Issued sid { t with lastSeenAt := .number lastSeenAt } :=
  { h with lastSeenAt := ⟨lastSeenAt, rfl⟩ }

/-- A verified record is as the service issued it. -/
theorem Issued.verified (h : Issued sid t) :
    Issued sid { t with isEmailVerified := .boolean true } :=
  { h with isEmailVerified := ⟨true, rfl⟩ }

/-- A rotated record is as the service issued it. -/
theorem Issued.rotated (h : Issued sid t) {input : RotationInput} {next : Sha256}
    (hnext : input.nextRefreshTokenHash = next.hex)
    (hversion : t.refreshVersion.orZero.tonumber = some input.expectedRefreshVersion) :
    Issued sid (t.rotated input input.expectedRefreshVersion) where
  sid := h.sid
  publicId := h.publicId
  isEmailVerified := h.isEmailVerified
  refreshTokenHash := ⟨next, congrArg LuaValue.string hnext⟩
  refreshVersion := by
    obtain ⟨n, hn, heq⟩ := h.refreshVersion
    rw [heq] at hversion
    obtain rfl : n = input.expectedRefreshVersion := Option.some.inj hversion
    exact ⟨_, by omega, rfl⟩
  previous := by
    obtain ⟨digest, hdigest⟩ := h.refreshTokenHash
    exact .inr ⟨digest, _, hdigest, rfl⟩
  createdAt := h.createdAt
  lastSeenAt := by
    obtain ⟨n, hn⟩ := h.lastSeenAt
    change ∃ n, ite _ _ _ = _
    split
    · exact ⟨_, rfl⟩
    · exact ⟨n, hn⟩
  status := h.status

end Records

/-- Every session in the store was issued under its sid. -/
def AllIssued (s : SessionStore) : Prop :=
  ∀ sid e, s.session sid = some e → ∃ t, e.value = .record t ∧ Issued sid t

section Stores

variable {s : SessionStore}

/-- Replacing a record by an issued one keeps the store. -/
theorem AllIssued.patch (h : AllIssued s) {sid : String} {t t' : SessionTable}
    {expireAt : WithTop ℕ} (hlive : s.session sid = some ⟨.record t, expireAt⟩)
    (ht : Issued sid t → Issued sid t') : AllIssued (s.patch sid t') := by
  intro j e he
  by_cases hj : j = sid
  · subst hj
    rw [SessionStore.session_patch_self hlive] at he
    obtain rfl := Option.some.inj he
    obtain ⟨t₀, hvalue, hissued⟩ := h j _ hlive
    obtain rfl : t = t₀ := by simpa using hvalue
    exact ⟨t', rfl, ht hissued⟩
  · rw [SessionStore.session_patch_ne s t' hj] at he
    exact h j e he

/-- Removing a session keeps the store. -/
theorem AllIssued.remove (h : AllIssued s) (sid publicId : String) :
    AllIssued (s.remove sid publicId) := by
  intro j e he
  by_cases hj : j = sid
  · subst hj
    simp at he
  · rw [SessionStore.session_remove_ne s publicId hj] at he
    exact h j e he

/-- Saving a new session keeps the store. -/
theorem AllIssued.save (h : AllIssued s) (input : LoginInput) (now : Int) (ttlSeconds : ℕ+) :
    AllIssued (s.save (createSession input.toCreateSessionInput now) ttlSeconds) := by
  intro j e he
  by_cases hj : j = (createSession input.toCreateSessionInput now).sid
  · subst hj
    rw [SessionStore.session_save_self] at he
    obtain rfl := Option.some.inj he
    exact ⟨_, rfl, issued_createSession input now⟩
  · rw [SessionStore.session_save_ne s _ ttlSeconds hj] at he
    exact h j e he

/-- Rotating a token keeps the store. -/
theorem AllIssued.rotate (h : AllIssued s) {input : RotationInput} {next : Sha256}
    {t : SessionTable} {expireAt : WithTop ℕ}
    (hlive : s.session input.sid = some ⟨.record t, expireAt⟩)
    (hnext : input.nextRefreshTokenHash = next.hex)
    (hversion : t.refreshVersion.orZero.tonumber = some input.expectedRefreshVersion) :
    AllIssued (s.rotate input (t.rotated input input.expectedRefreshVersion)) := by
  intro j e he
  by_cases hj : j = input.sid
  · subst hj
    rw [SessionStore.session_rotate_self] at he
    obtain rfl := Option.some.inj he
    obtain ⟨t₀, hvalue, hissued⟩ := h _ _ hlive
    obtain rfl : t = t₀ := by simpa using hvalue
    exact ⟨_, rfl, hissued.rotated hnext hversion⟩
  · rw [SessionStore.session_rotate_ne s input _ hj] at he
    exact h j e he

/-- A touch moves the time of the last access, if it writes. -/
theorem touch_writes (s : SessionStore) (input : TouchInput) :
    (s.touch input).1 = s ∨ ∃ t expireAt, s.session input.sid = some ⟨.record t, expireAt⟩ ∧
      (s.touch input).1 = s.patch input.sid { t with lastSeenAt := .number input.lastSeenAt } := by
  unfold SessionStore.touch
  split
  · exact .inl rfl
  · exact .inl rfl
  · next t h =>
    obtain ⟨expireAt, hlive⟩ := SessionStore.get_eq_some h
    split
    · split
      · exact .inl rfl
      split
      · exact .inl rfl
      split
      · exact .inr ⟨t, expireAt, hlive, rfl⟩
      · exact .inl rfl
    · exact .inl rfl

/-- A verified address is marked, if anything is written. -/
theorem markEmailVerified_writes (s : SessionStore) (input : PatchInput) :
    (s.markEmailVerified input).1 = s ∨
      ∃ t expireAt, s.session input.sid = some ⟨.record t, expireAt⟩ ∧
        (s.markEmailVerified input).1 =
          s.patch input.sid { t with isEmailVerified := .boolean true } := by
  unfold SessionStore.markEmailVerified
  split
  · exact .inl rfl
  · exact .inl rfl
  · next t h =>
    obtain ⟨expireAt, hlive⟩ := SessionStore.get_eq_some h
    split
    · split
      · exact .inl rfl
      split
      · exact .inl rfl
      split
      · exact .inl rfl
      · exact .inr ⟨t, expireAt, hlive, rfl⟩
    · exact .inl rfl

/-- Every call of the service keeps the store. -/
theorem AllIssued.run (h : AllIssued s) (call : ServiceCall) : AllIssued (s.run call.command) := by
  cases call with
  | createSession input now ttlSeconds => exact h.save input now ttlSeconds
  | rotateRefreshToken input next =>
    let rotation : RotationInput := { input with nextRefreshTokenHash := next.hex }
    change AllIssued (s.compareAndRotate rotation).1
    obtain ⟨t, expireAt, hlive, hr, heq⟩ | ⟨-, heq | ⟨-, heq⟩ | heq⟩ :=
      SessionStore.compareAndRotate_cases s rotation
    · rw [heq]
      exact h.rotate hlive rfl hr.version
    · rw [heq]
      exact h
    · rw [heq]
      exact h
    · rw [heq]
      exact h.remove _ _
  | touch input =>
    change AllIssued (s.touch input).1
    obtain heq | ⟨t, expireAt, hlive, heq⟩ := touch_writes s input
    · rwa [heq]
    · rw [heq]
      exact h.patch hlive fun ht => ht.touched _
  | markEmailVerified input =>
    change AllIssued (s.markEmailVerified input).1
    obtain heq | ⟨t, expireAt, hlive, heq⟩ := markEmailVerified_writes s input
    · rwa [heq]
    · rw [heq]
      exact h.patch hlive Issued.verified
  | revokeByRefreshToken input =>
    change AllIssued (s.revokeByRefreshToken input).1
    obtain heq | ⟨publicId, heq⟩ := SessionStore.revokeByRefreshToken_cases s input
    · rwa [heq]
    · rw [heq]
      exact h.remove _ _
  | remove sid publicId => exact h.remove sid publicId
  | advance ms => exact fun j e he => h j e (SessionStore.session_advance he)

/-- Encoding a record again keeps the store. -/
theorem AllIssued.encode (h : AllIssued s) (sid : String) : AllIssued (s.encode sid) := by
  unfold SessionStore.encode
  split
  · next t expireAt hlive => exact h.patch hlive Issued.reencode
  · exact h

/-- Every call keeps the sessions issued. -/
private theorem AllIssued.runEncoded (h : AllIssued s) (call : ServiceCall) :
    AllIssued (s.runEncoded call.command) := by
  unfold SessionStore.runEncoded
  split
  · exact h.run call
  · split
    · exact h.run call
    · exact (h.run call).encode _

private theorem allIssued_storeAfter (calls : List ServiceCall) : AllIssued (storeAfter calls) := by
  unfold storeAfter
  have hall : ∀ (calls : List ServiceCall) (s : SessionStore), AllIssued s →
      AllIssued (calls.foldl (fun s call => s.runEncoded call.command) s) := by
    intro calls
    induction calls with
    | nil => exact fun _ h => h
    | cons call calls ih => exact fun s h => ih _ (h.runEncoded call)
  exact hall calls _ fun sid e he => by cases he

end Stores

/-- Hashes match when they are equal. -/
private theorem hashesMatch_hex (stored presented : Sha256) :
    hashesMatch stored.hex presented.hex = true ↔ stored.hex = presented.hex := by
  constructor
  · intro h
    unfold hashesMatch at h
    rw [isSha256Hex_hex, isSha256Hex_hex, Bool.true_and, Bool.true_and, beq_iff_eq] at h
    unfold Sha256.hex at h ⊢
    rw [String.toList_ofList, String.toList_ofList, Hex.decode_encode, Hex.decode_encode] at h
    rw [List.map_injective_iff.mpr Fin.val_injective h]
  · intro h
    rw [h]
    simp [hashesMatch, isSha256Hex_hex]

section Decisions

variable {s : SessionStore} {sid : String} {t : SessionTable} {expireAt : WithTop ℕ}
  {presented : Sha256}

/-- An issued session compares its current hash. -/
private theorem Issued.matches_current (h : Issued sid t) :
    t.refreshTokenHash.matches presented.hex = true ↔
      t.refreshTokenHash = .string presented.hex := by
  obtain ⟨digest, hd⟩ := h.refreshTokenHash
  rw [hd, LuaValue.string.injEq]
  exact hashesMatch_hex digest presented

/-- An issued session compares its previous hash. -/
private theorem Issued.matches_previous (h : Issued sid t) :
    t.previousRefreshTokenHash.matches presented.hex = true ↔
      t.previousRefreshTokenHash = .string presented.hex := by
  obtain ⟨hhash, -⟩ | ⟨digest, graceUntil, hhash, -⟩ := h.previous
  · rw [hhash]
    simp [LuaValue.matches]
  · rw [hhash, LuaValue.string.injEq]
    exact hashesMatch_hex digest presented

/-- A previous hash has a grace. -/
theorem Issued.graceUntil (h : Issued sid t) {hash : String}
    (hprevious : t.previousRefreshTokenHash = .string hash) :
    ∃ graceUntil, t.previousRefreshTokenGraceUntil = .number graceUntil := by
  obtain ⟨hhash, -⟩ | ⟨-, graceUntil, -, hgrace⟩ := h.previous
  · rw [hhash] at hprevious
    cases hprevious
  · exact ⟨graceUntil, hgrace⟩

/-- An issued record has fields of the expected types. -/
theorem Issued.wellTyped (h : Issued sid t) : t.wellTyped = true := by
  obtain ⟨publicId, hp, -⟩ := h.publicId
  obtain ⟨digest, hd⟩ := h.refreshTokenHash
  unfold SessionTable.wellTyped
  rw [h.sid, hp, hd, h.status]
  rfl

/-- An issued record is an active session of its identifier. -/
theorem Issued.expected (h : Issued sid t) :
    isExpectedActiveRefreshSession (.record t) sid = true := by
  obtain ⟨publicId, hp, hne⟩ := h.publicId
  obtain ⟨b, hb⟩ := h.isEmailVerified
  obtain ⟨digest, hd⟩ := h.refreshTokenHash
  obtain ⟨n, hn, hversion⟩ := h.refreshVersion
  obtain ⟨created, hcreated⟩ := h.createdAt
  obtain ⟨seen, hseen⟩ := h.lastSeenAt
  unfold isExpectedActiveRefreshSession
  obtain ⟨hhash, hgrace⟩ | ⟨previous, graceUntil, hhash, hgrace⟩ := h.previous
  · simp [h.sid, hp, hb, hd, hversion, hcreated, hseen, h.status, hhash, hgrace, hne, hn,
      LuaValue.isText, LuaValue.isBoolean, LuaValue.isHash, LuaValue.isNumber, LuaValue.isVersion,
      isSha256Hex_hex]
  · simp [h.sid, hp, hb, hd, hversion, hcreated, hseen, h.status, hhash, hgrace, hne, hn,
      LuaValue.isText, LuaValue.isBoolean, LuaValue.isHash, LuaValue.isNumber, LuaValue.isVersion,
      isSha256Hex_hex]

variable (presented) in
/-- What the service decides. -/
theorem Issued.classify (h : Issued sid t) (now : Int) :
    (t.refreshTokenHash = .string presented.hex →
      classifyRefreshTokenMatch t presented.hex now = .current) ∧
    (t.refreshTokenHash ≠ .string presented.hex →
      t.previousRefreshTokenHash ≠ .string presented.hex →
      classifyRefreshTokenMatch t presented.hex now = .unknown) ∧
    ∀ graceUntil, t.refreshTokenHash ≠ .string presented.hex →
      t.previousRefreshTokenHash = .string presented.hex →
      t.previousRefreshTokenGraceUntil = .number graceUntil →
      classifyRefreshTokenMatch t presented.hex now =
        if now ≤ graceUntil then .recentlyRotated else .unknown := by
  unfold classifyRefreshTokenMatch
  refine ⟨fun hcurrent => if_pos (h.matches_current.mpr hcurrent), fun hcurrent hprevious => ?_,
    fun graceUntil hcurrent hprevious hgrace => ?_⟩
  · rw [if_neg fun hm => hcurrent (h.matches_current.mp hm),
      if_neg fun hboth => hprevious (h.matches_previous.mp hboth.1)]
  · rw [if_neg fun hm => hcurrent (h.matches_current.mp hm), hgrace]
    simp [h.matches_previous.mpr hprevious, LuaValue.numberOrZero]

/-- What the rotation script decides. -/
theorem Issued.compareAndRotate {input : RotationInput} (h : Issued input.sid t)
    (hlive : s.session input.sid = some ⟨.record t, expireAt⟩)
    (hpublicId : t.publicId = .string input.publicId)
    (hpresented : input.presentedRefreshTokenHash = presented.hex) :
    (∀ graceUntil, t.previousRefreshTokenHash = .string presented.hex →
      t.previousRefreshTokenGraceUntil = .number graceUntil →
      (s.compareAndRotate input).2.outcome =
        if input.now ≤ graceUntil then .stalePrevious else .mismatch) ∧
    (t.previousRefreshTokenHash ≠ .string presented.hex →
      t.refreshTokenHash ≠ .string presented.hex →
      (s.compareAndRotate input).2.outcome = .mismatch) ∧
    (t.previousRefreshTokenHash ≠ .string presented.hex →
      t.refreshTokenHash = .string presented.hex →
      (s.compareAndRotate input).2.outcome = .rotated ∨
        (s.compareAndRotate input).2.outcome = .versionConflict) := by
  have hget : s.sessions.get s.clock input.sid = some (.record t) :=
    SessionStore.get_of_session hlive
  obtain ⟨n, -, hversion⟩ := h.refreshVersion
  unfold SessionStore.compareAndRotate
  rw [hget]
  simp only [h.wellTyped, h.sid, hpublicId, h.status, hpresented, not_true_eq_false, if_false,
    ne_eq, or_self]
  refine ⟨fun graceUntil hprevious hgrace => ?_, fun hprevious hcurrent => ?_,
    fun hprevious hcurrent => ?_⟩
  · rw [if_pos hprevious, hgrace]
    simp only [LuaValue.orZero, LuaValue.tonumber, ge_iff_le]
    split <;> rfl
  · rw [if_neg hprevious, if_pos hcurrent]
  · rw [if_neg hprevious, if_neg (not_not_intro hcurrent), hversion]
    simp only [LuaValue.orZero, LuaValue.tonumber]
    split
    · exact .inr rfl
    · exact .inl rfl

/-- What the revocation script decides. -/
theorem Issued.revokeByRefreshToken {input : RevocationInput} (h : Issued input.sid t)
    (hlive : s.session input.sid = some ⟨.record t, expireAt⟩)
    (hpresented : input.presentedRefreshTokenHash = presented.hex) :
    (t.refreshTokenHash = .string presented.hex →
      (s.revokeByRefreshToken input).2 = .revoked) ∧
    (t.refreshTokenHash ≠ .string presented.hex →
      t.previousRefreshTokenHash ≠ .string presented.hex →
      (s.revokeByRefreshToken input).2 = .mismatch) ∧
    ∀ graceUntil, t.refreshTokenHash ≠ .string presented.hex →
      t.previousRefreshTokenHash = .string presented.hex →
      t.previousRefreshTokenGraceUntil = .number graceUntil →
      (s.revokeByRefreshToken input).2 =
        if input.now ≤ graceUntil then .revoked else .mismatch := by
  have hget : s.sessions.get s.clock input.sid = some (.record t) :=
    SessionStore.get_of_session hlive
  obtain ⟨publicId, hpublicId, -⟩ := h.publicId
  unfold SessionStore.revokeByRefreshToken
  rw [hget]
  simp only [h.wellTyped, h.sid, hpublicId, h.status, hpresented, not_true_eq_false, if_false,
    ne_eq]
  refine ⟨fun hcurrent => ?_, fun hcurrent hprevious => ?_,
    fun graceUntil hcurrent hprevious hgrace => ?_⟩
  · by_cases hprevious : t.previousRefreshTokenHash = .string presented.hex
    · obtain ⟨graceUntil, hgrace⟩ := h.graceUntil hprevious
      rw [if_pos hprevious, hgrace]
      simp only [LuaValue.orZero, LuaValue.tonumber]
      rw [if_pos (.inl hcurrent)]
    · rw [if_neg hprevious, if_pos hcurrent]
  · rw [if_neg hprevious, if_neg hcurrent]
  · rw [if_pos hprevious, hgrace]
    simp only [LuaValue.orZero, LuaValue.tonumber, hcurrent, false_or, ge_iff_le]
    split <;> rfl

end Decisions

/-- Whatever the service called: every live session is one that a refresh expects; unless
the presented hash is both the current and the previous one, the service and the rotation
script decide alike; and the revocation script revokes what the service knows. -/
theorem refresh_classification (calls : List ServiceCall) {sid : String} {t : SessionTable}
    {expireAt : WithTop ℕ} (hlive : (storeAfter calls).session sid = some ⟨.record t, expireAt⟩)
    (presented : Sha256) (now : Int) :
    isExpectedActiveRefreshSession (.record t) sid = true ∧
    (¬(t.refreshTokenHash = .string presented.hex ∧
        t.previousRefreshTokenHash = .string presented.hex) →
      ∀ input : RotationInput, input.sid = sid → t.publicId = .string input.publicId →
        input.presentedRefreshTokenHash = presented.hex → input.now = now →
        (classifyRefreshTokenMatch t presented.hex now = .current ↔
          ((storeAfter calls).compareAndRotate input).2.outcome = .rotated ∨
            ((storeAfter calls).compareAndRotate input).2.outcome = .versionConflict) ∧
        (classifyRefreshTokenMatch t presented.hex now = .recentlyRotated ↔
          ((storeAfter calls).compareAndRotate input).2.outcome = .stalePrevious) ∧
        (classifyRefreshTokenMatch t presented.hex now = .unknown ↔
          ((storeAfter calls).compareAndRotate input).2.outcome = .mismatch)) ∧
    ∀ input : RevocationInput, input.sid = sid →
      input.presentedRefreshTokenHash = presented.hex → input.now = now →
      (((storeAfter calls).revokeByRefreshToken input).2 = .revoked ↔
        classifyRefreshTokenMatch t presented.hex now ≠ .unknown) := by
  obtain ⟨t₀, hvalue, h⟩ := allIssued_storeAfter calls sid _ hlive
  obtain rfl : t = t₀ := by simpa using hvalue
  obtain ⟨hcurrentMatch, hunknown, hrecent⟩ := h.classify presented now
  refine ⟨h.expected, ?_, ?_⟩
  · rintro hdistinct input rfl hpublicId hpresented rfl
    obtain ⟨hstale, hmismatch, hrotates⟩ := h.compareAndRotate hlive hpublicId hpresented
    by_cases hcurrent : t.refreshTokenHash = .string presented.hex
    · have hprevious : t.previousRefreshTokenHash ≠ .string presented.hex := fun hprevious =>
        hdistinct ⟨hcurrent, hprevious⟩
      rw [hcurrentMatch hcurrent]
      obtain houtcome | houtcome := hrotates hprevious hcurrent <;> simp [houtcome]
    · by_cases hprevious : t.previousRefreshTokenHash = .string presented.hex
      · obtain ⟨graceUntil, hgrace⟩ := h.graceUntil hprevious
        rw [hrecent graceUntil hcurrent hprevious hgrace, hstale graceUntil hprevious hgrace]
        split <;> simp
      · rw [hunknown hcurrent hprevious, hmismatch hprevious hcurrent]
        simp
  · rintro input rfl hpresented rfl
    obtain ⟨hrevoked, hmismatch, hgraceful⟩ := h.revokeByRefreshToken hlive hpresented
    by_cases hcurrent : t.refreshTokenHash = .string presented.hex
    · rw [hcurrentMatch hcurrent, hrevoked hcurrent]
      simp
    · by_cases hprevious : t.previousRefreshTokenHash = .string presented.hex
      · obtain ⟨graceUntil, hgrace⟩ := h.graceUntil hprevious
        rw [hrecent graceUntil hcurrent hprevious hgrace,
          hgraceful graceUntil hcurrent hprevious hgrace]
        split <;> simp
      · rw [hunknown hcurrent hprevious, hmismatch hcurrent hprevious]
        simp

/-- The digest with one byte throughout. -/
def digestOf (b : Fin 256) : Sha256 := ⟨List.replicate 32 b, List.length_replicate⟩

/-- A login with the hash of all `aa`. -/
def firstSession : LoginInput where
  sid := "sid"
  publicId := "user"
  isEmailVerified := false
  authVersion := none
  refreshTokenHash := (digestOf 170).hex
  ip := none
  userAgent := none
  publicId_ne := by decide
  isDigest := ⟨digestOf 170, rfl⟩

/-- A refresh with that hash. -/
def firstRefresh : RotationInput where
  sid := "sid"
  publicId := "user"
  presentedRefreshTokenHash := (digestOf 170).hex
  nextRefreshTokenHash := ""
  expectedRefreshVersion := 0
  now := 1
  previousRefreshTokenGraceUntil := 900001
  ttlSeconds := 60
  ip := none
  userAgent := none

/-- A login and a refresh. -/
def refreshed : List ServiceCall :=
  [.createSession firstSession 0 60, .rotateRefreshToken firstRefresh (digestOf 187)]

/-- The first hash at the end of its grace. -/
theorem refresh_classification_refreshed :
    ∃ t expireAt, (storeAfter refreshed).session "sid" = some ⟨.record t, expireAt⟩ ∧
      isExpectedActiveRefreshSession (.record t) "sid" = true ∧
      ((storeAfter refreshed).compareAndRotate { firstRefresh with now := 900001 }).2.outcome =
        .stalePrevious ∧
      ((storeAfter refreshed).revokeByRefreshToken ⟨"sid", (digestOf 170).hex, 900001⟩).2 =
        .revoked := by
  obtain ⟨t, expireAt, hlive, hpublicId, hcurrent, hmatch⟩ : ∃ t expireAt,
      (storeAfter refreshed).session "sid" = some ⟨.record t, expireAt⟩ ∧
      t.publicId = .string "user" ∧ t.refreshTokenHash ≠ .string (digestOf 170).hex ∧
      classifyRefreshTokenMatch t (digestOf 170).hex 900001 = .recentlyRotated :=
    ⟨_, _, rfl, rfl, by decide +kernel, by decide +kernel⟩
  obtain ⟨hexpected, hrotation, hrevocation⟩ :=
    refresh_classification refreshed hlive (digestOf 170) 900001
  obtain ⟨-, hstale, -⟩ := hrotation (fun hboth => hcurrent hboth.1)
    { firstRefresh with now := 900001 } rfl hpublicId rfl rfl
  refine ⟨t, expireAt, hlive, hexpected, hstale.mp hmatch, (hrevocation _ rfl rfl rfl).mpr ?_⟩
  rw [hmatch]
  decide

/-- A rotation to the presented token itself makes it the current and the previous one, and
a hash in upper case is compared as bytes by the service only. -/
theorem refresh_classification_disagrees :
    (∃ t expireAt,
      (storeAfter [.createSession firstSession 0 60,
        .rotateRefreshToken firstRefresh (digestOf 170)]).session "sid" =
          some ⟨.record t, expireAt⟩ ∧
      classifyRefreshTokenMatch t (digestOf 170).hex 1 = .current ∧
      ((storeAfter [.createSession firstSession 0 60,
        .rotateRefreshToken firstRefresh (digestOf 170)]).compareAndRotate
          firstRefresh).2.outcome = .stalePrevious) ∧
    ∃ t expireAt,
      (storeAfter [.createSession firstSession 0 60]).session "sid" = some ⟨.record t, expireAt⟩ ∧
      isSha256Hex (String.ofList (List.replicate 64 'A')) = true ∧
      classifyRefreshTokenMatch t (String.ofList (List.replicate 64 'A')) 1 = .current ∧
      ((storeAfter [.createSession firstSession 0 60]).compareAndRotate
        { firstRefresh with
          presentedRefreshTokenHash := String.ofList (List.replicate 64 'A') }).2.outcome =
        .mismatch := by
  refine ⟨⟨_, _, rfl, by decide +kernel, by decide +kernel⟩,
    ⟨_, _, rfl, by decide +kernel, by decide +kernel, by decide +kernel⟩⟩

end Ascendance.Session
