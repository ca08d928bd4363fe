import Ascendance.Models.Session.Record

/-!
# The session scripts

Each script runs as one step. A step of the store either leaves the sessions
alone, deletes one, rewrites the metadata of one, rotates one or stores one;
every invariant is derived from that inversion.
-/

namespace Ascendance.Session

open Ascendance.Core

/-- The arguments of the rotation script. -/
structure RotationInput where
  sid : String
  publicId : String
  presentedRefreshTokenHash : String
  nextRefreshTokenHash : String
  expectedRefreshVersion : Int
  now : Int
  previousRefreshTokenGraceUntil : Int
  ttlSeconds : ℕ+
  ip : Option String
  userAgent : Option String

/-- Its outcomes; a comparison of `nil` with a number fails the script. -/
inductive RotationOutcome where
  | rotated
  | stalePrevious
  | missing
  | revoked
  | mismatch
  | identityMismatch
  | invalidRecord
  | versionConflict
  | scriptError
  deriving DecidableEq, Repr

/-- What the rotation script returns: only a rotation carries the session. -/
structure RotationResult where
  outcome : RotationOutcome
  session : Option SessionTable
  deriving DecidableEq, Repr

/-- How a patch of a session ends. -/
inductive PatchOutcome where
  | updated
  | missing
  | identityMismatch
  | invalidRecord
  deriving DecidableEq, Repr

/-- How a revocation by refresh token ends. -/
inductive RevocationOutcome where
  | revoked
  | missing
  | inactive
  | mismatch
  | identityMismatch
  | invalidRecord
  | scriptError
  deriving DecidableEq, Repr

/-- What a touch is given. -/
structure TouchInput where
  sid : String
  publicId : String
  lastSeenAt : Int

/-- What a patch is given. -/
structure PatchInput where
  sid : String
  publicId : String

/-- What a revocation by refresh token is given. -/
structure RevocationInput where
  sid : String
  presentedRefreshTokenHash : String
  now : Int

/-- The session after a rotation from its current version. -/
def SessionTable.rotated (t : SessionTable) (input : RotationInput) (currentVersion : Int) :
    SessionTable :=
  { t with
    previousRefreshTokenHash := t.refreshTokenHash
    previousRefreshTokenGraceUntil := .number input.previousRefreshTokenGraceUntil
    refreshTokenHash := .string input.nextRefreshTokenHash
    refreshVersion := .number (currentVersion + 1)
    lastSeenAt :=
      if input.now > t.lastSeenAt.orZero.tonumber.getD 0 then .number input.now else t.lastSeenAt
    ip := input.ip.elim t.ip .string
    userAgent := input.userAgent.elim t.userAgent .string }

/-- The types that the rotation and revocation scripts insist on. -/
def SessionTable.wellTyped (t : SessionTable) : Bool :=
  t.sid.isString && t.publicId.isString && t.refreshTokenHash.isString && t.status.isString

namespace SessionStore

/-- Store a rotated session and link it again. -/
def rotate (s : SessionStore) (input : RotationInput) (t : SessionTable) : SessionStore :=
  { s with sessions := s.sessions.setEx s.clock input.sid input.ttlSeconds (.record t) }.link
    input.publicId input.sid input.ttlSeconds

/-- `COMPARE_AND_ROTATE_SESSION_SCRIPT`. -/
def compareAndRotate (s : SessionStore) (input : RotationInput) : SessionStore × RotationResult :=
  match s.sessions.get s.clock input.sid with
  | none => (s.removeMembership input.publicId input.sid, ⟨.missing, none⟩)
  | some .invalid => (s, ⟨.invalidRecord, none⟩)
  | some (.record t) =>
    if ¬ t.wellTyped then (s, ⟨.invalidRecord, none⟩)
    else if t.sid ≠ .string input.sid ∨ t.publicId ≠ .string input.publicId then
      (s, ⟨.identityMismatch, none⟩)
    else if t.status ≠ .string "active" then (s, ⟨.revoked, none⟩)
    else if t.previousRefreshTokenHash = .string input.presentedRefreshTokenHash then
      match t.previousRefreshTokenGraceUntil.orZero.tonumber with
      | none => (s, ⟨.scriptError, none⟩)
      | some graceUntil =>
        if graceUntil ≥ input.now then (s, ⟨.stalePrevious, none⟩)
        else (s.remove input.sid input.publicId, ⟨.mismatch, none⟩)
    else if t.refreshTokenHash ≠ .string input.presentedRefreshTokenHash then
      (s.remove input.sid input.publicId, ⟨.mismatch, none⟩)
    else
      match t.refreshVersion.orZero.tonumber with
      | none => (s, ⟨.versionConflict, none⟩)
      | some currentVersion =>
        if currentVersion ≠ input.expectedRefreshVersion then (s, ⟨.versionConflict, none⟩)
        else (s.rotate input (t.rotated input currentVersion),
          ⟨.rotated, some (t.rotated input currentVersion)⟩)

/-- `SET` with `KEEPTTL` of a rewritten session. -/
def patch (s : SessionStore) (sid : String) (t : SessionTable) : SessionStore :=
  { s with sessions := s.sessions.setKeepTtl s.clock sid (.record t) }

/-- `TOUCH_SESSION_SCRIPT`. -/
def touch (s : SessionStore) (input : TouchInput) : SessionStore × PatchOutcome :=
  match s.sessions.get s.clock input.sid with
  | none => (s, .missing)
  | some .invalid => (s, .invalidRecord)
  | some (.record t) =>
    match t.lastSeenAt with
    | .number lastSeenAt =>
      if ¬ (t.sid.isString ∧ t.publicId.isString) then (s, .invalidRecord)
      else if t.sid ≠ .string input.sid ∨ t.publicId ≠ .string input.publicId then
        (s, .identityMismatch)
      else if input.lastSeenAt > lastSeenAt then
        (s.patch input.sid { t with lastSeenAt := .number input.lastSeenAt }, .updated)
      else (s, .updated)
    | _ => (s, .invalidRecord)

/-- `MARK_SESSION_EMAIL_VERIFIED_SCRIPT`. -/
def markEmailVerified (s : SessionStore) (input : PatchInput) : SessionStore × PatchOutcome :=
  match s.sessions.get s.clock input.sid with
  | none => (s, .missing)
  | some .invalid => (s, .invalidRecord)
  | some (.record t) =>
    match t.isEmailVerified with
    | .boolean isEmailVerified =>
      if ¬ (t.sid.isString ∧ t.publicId.isString) then (s, .invalidRecord)
      else if t.sid ≠ .string input.sid ∨ t.publicId ≠ .string input.publicId then
        (s, .identityMismatch)
      else if isEmailVerified then (s, .updated)
      else (s.patch input.sid { t with isEmailVerified := .boolean true }, .updated)
    | _ => (s, .invalidRecord)

/-- `REVOKE_REFRESH_SESSION_SCRIPT`. The index key comes from the record. -/
def revokeByRefreshToken (s : SessionStore) (input : RevocationInput) :
    SessionStore × RevocationOutcome :=
  match s.sessions.get s.clock input.sid with
  | none => (s, .missing)
  | some .invalid => (s, .invalidRecord)
  | some (.record t) =>
    match t.publicId with
    | .string publicId =>
      if ¬ t.wellTyped then (s, .invalidRecord)
      else if t.sid ≠ .string input.sid then (s, .identityMismatch)
      else if t.status ≠ .string "active" then (s, .inactive)
      else if t.previousRefreshTokenHash = .string input.presentedRefreshTokenHash then
        match t.previousRefreshTokenGraceUntil.orZero.tonumber with
        | none => (s, .scriptError)
        | some graceUntil =>
          if t.refreshTokenHash = .string input.presentedRefreshTokenHash ∨
              graceUntil ≥ input.now then
            (s.remove input.sid publicId, .revoked)
          else (s.remove input.sid publicId, .mismatch)
      else if t.refreshTokenHash = .string input.presentedRefreshTokenHash then
        (s.remove input.sid publicId, .revoked)
      else (s.remove input.sid publicId, .mismatch)
    | _ => (s, .invalidRecord)

end SessionStore

/-- The commands that reach the store, each one atomic. -/
inductive Command where
  | save (session : AuthSessionRecord) (ttlSeconds : ℕ+)
  | compareAndRotate (input : RotationInput)
  | touch (input : TouchInput)
  | markEmailVerified (input : PatchInput)
  | revokeByRefreshToken (input : RevocationInput)
  | remove (sid publicId : String)
  | advance (ms : ℕ)

/-- The store after a command. -/
def SessionStore.run (s : SessionStore) : Command → SessionStore
  | .save session ttlSeconds => s.save session ttlSeconds
  | .compareAndRotate input => (s.compareAndRotate input).1
  | .touch input => (s.touch input).1
  | .markEmailVerified input => (s.markEmailVerified input).1
  | .revokeByRefreshToken input => (s.revokeByRefreshToken input).1
  | .remove sid publicId => s.remove sid publicId
  | .advance ms => s.advance ms

/-- What the scripts compare before they accept a token, and the expiry of the key. -/
structure Credentials where
  refreshTokenHash : LuaValue
  previousRefreshTokenHash : LuaValue
  previousRefreshTokenGraceUntil : LuaValue
  refreshVersion : LuaValue
  status : LuaValue
  deriving DecidableEq

/-- The fields of a record that decide which tokens it accepts. -/
def SessionTable.credentials (t : SessionTable) : Credentials :=
  ⟨t.refreshTokenHash, t.previousRefreshTokenHash, t.previousRefreshTokenGraceUntil,
    t.refreshVersion, t.status⟩

/-- A rewrite of metadata: the identity, the credentials and the version of the
user's password stay. -/
structure Patched (t t' : SessionTable) : Prop where
  sid : t'.sid = t.sid
  publicId : t'.publicId = t.publicId
  authVersion : t'.authVersion = t.authVersion
  credentials : t'.credentials = t.credentials

/-- The rotation script accepts the arguments for a session. -/
structure Rotatable (t : SessionTable) (input : RotationInput) : Prop where
  sid : t.sid = .string input.sid
  publicId : t.publicId = .string input.publicId
  status : t.status = .string "active"
  previous : t.previousRefreshTokenHash ≠ .string input.presentedRefreshTokenHash
  current : t.refreshTokenHash = .string input.presentedRefreshTokenHash
  version : t.refreshVersion.orZero.tonumber = some input.expectedRefreshVersion

/-- What one command can do to the store. -/
inductive Effect (s : SessionStore) : Command → SessionStore → Prop
  | none (c : Command) : Effect s c s
  | unlink (c : Command) (publicId : String) {sid : String} (hdead : s.session sid = none) :
      Effect s c (s.removeMembership publicId sid)
  | remove (c : Command) (sid publicId : String) : Effect s c (s.remove sid publicId)
  | patch (c : Command) {sid : String} {t t' : SessionTable} {expireAt : WithTop ℕ}
      (hlive : s.session sid = some ⟨.record t, expireAt⟩) (hp : Patched t t') :
      Effect s c (s.patch sid t')
  | rotate {input : RotationInput} {t : SessionTable} {expireAt : WithTop ℕ}
      (hlive : s.session input.sid = some ⟨.record t, expireAt⟩) (hr : Rotatable t input) :
      Effect s (.compareAndRotate input)
        (s.rotate input (t.rotated input input.expectedRefreshVersion))
  | save (session : AuthSessionRecord) (ttlSeconds : ℕ+) :
      Effect s (.save session ttlSeconds) (s.save session ttlSeconds)
  | advance (ms : ℕ) : Effect s (.advance ms) (s.advance ms)

namespace SessionStore

variable {s : SessionStore}

/-- A `GET` that finds a value reads a live entry. -/
theorem get_eq_some {sid : String} {v : SessionValue} (h : s.sessions.get s.clock sid = some v) :
    ∃ expireAt, s.session sid = some ⟨v, expireAt⟩ := by
  obtain ⟨⟨value, expireAt⟩, he, rfl⟩ := Option.map_eq_some_iff.mp h
  exact ⟨expireAt, he⟩

/-- What a live entry holds is what `GET` returns. -/
theorem get_of_session {sid : String} {e : Entry SessionValue} (h : s.session sid = some e) :
    s.sessions.get s.clock sid = some e.value := by
  unfold Keyspace.get
  rw [show s.sessions.entry s.clock sid = some e from h]
  rfl

/-- No value is read where no session is. -/
theorem get_eq_none {sid : String} :
    s.sessions.get s.clock sid = none ↔ s.session sid = none := Option.map_eq_none_iff

/-- The rotation script rotates an accepted session, and otherwise at most removes it. -/
theorem compareAndRotate_cases (s : SessionStore) (input : RotationInput) :
    (∃ t expireAt, s.session input.sid = some ⟨.record t, expireAt⟩ ∧ Rotatable t input ∧
      s.compareAndRotate input =
        (s.rotate input (t.rotated input input.expectedRefreshVersion),
          ⟨.rotated, some (t.rotated input input.expectedRefreshVersion)⟩)) ∨
    ((s.compareAndRotate input).2.outcome ≠ .rotated ∧
      ((s.compareAndRotate input).1 = s ∨
        (s.session input.sid = none ∧
          (s.compareAndRotate input).1 = s.removeMembership input.publicId input.sid) ∨
        (s.compareAndRotate input).1 = s.remove input.sid input.publicId)) := by
  unfold compareAndRotate
  split
  · next h =>
    exact .inr ⟨nofun, .inr (.inl ⟨get_eq_none.mp h, rfl⟩)⟩
  · exact .inr ⟨nofun, .inl rfl⟩
  · next t h =>
    obtain ⟨expireAt, hlive⟩ := get_eq_some h
    split
    · exact .inr ⟨nofun, .inl rfl⟩
    split
    · exact .inr ⟨nofun, .inl rfl⟩
    next hid =>
    split
    · exact .inr ⟨nofun, .inl rfl⟩
    next hstatus =>
    split
    · split
      · exact .inr ⟨nofun, .inl rfl⟩
      · split
        · exact .inr ⟨nofun, .inl rfl⟩
        · exact .inr ⟨nofun, .inr (.inr rfl)⟩
    next hprevious =>
    split
    · exact .inr ⟨nofun, .inr (.inr rfl)⟩
    next hcurrent =>
    split
    · exact .inr ⟨nofun, .inl rfl⟩
    next currentVersion hversion =>
    split
    · exact .inr ⟨nofun, .inl rfl⟩
    next hexpected =>
    push Not at hid hstatus hcurrent hexpected
    subst hexpected
    exact .inl ⟨t, expireAt, hlive, ⟨hid.1, hid.2, hstatus, hprevious, hcurrent, hversion⟩, rfl⟩

/-- `touch` at most rewrites the metadata of a live session. -/
theorem touch_cases (s : SessionStore) (input : TouchInput) :
    (s.touch input).1 = s ∨
      ∃ t t' expireAt, s.session input.sid = some ⟨.record t, expireAt⟩ ∧ Patched t t' ∧
        (s.touch input).1 = s.patch input.sid t' := by
  unfold touch
  split
  · exact .inl rfl
  · exact .inl rfl
  · next t h =>
    obtain ⟨expireAt, hlive⟩ := get_eq_some h
    split
    · split
      · exact .inl rfl
      split
      · exact .inl rfl
      split
      · exact .inr ⟨t, { t with lastSeenAt := .number input.lastSeenAt }, expireAt, hlive,
          ⟨rfl, rfl, rfl, rfl⟩, rfl⟩
      · exact .inl rfl
    · exact .inl rfl

/-- `markEmailVerified` at most rewrites the metadata of a live session. -/
theorem markEmailVerified_cases (s : SessionStore) (input : PatchInput) :
    (s.markEmailVerified input).1 = s ∨
      ∃ t t' expireAt, s.session input.sid = some ⟨.record t, expireAt⟩ ∧ Patched t t' ∧
        (s.markEmailVerified input).1 = s.patch input.sid t' := by
  unfold markEmailVerified
  split
  · exact .inl rfl
  · exact .inl rfl
  · next t h =>
    obtain ⟨expireAt, hlive⟩ := get_eq_some h
    split
    · split
      · exact .inl rfl
      split
      · exact .inl rfl
      split
      · exact .inl rfl
      · exact .inr ⟨t, { t with isEmailVerified := .boolean true }, expireAt, hlive,
          ⟨rfl, rfl, rfl, rfl⟩, rfl⟩
    · exact .inl rfl

/-- The revocation script at most removes the session it addresses. -/
theorem revokeByRefreshToken_cases (s : SessionStore) (input : RevocationInput) :
    (s.revokeByRefreshToken input).1 = s ∨
      ∃ publicId, (s.revokeByRefreshToken input).1 = s.remove input.sid publicId := by
  unfold revokeByRefreshToken
  split
  · exact .inl rfl
  · exact .inl rfl
  · split
    · next publicId _ =>
      split
      · exact .inl rfl
      split
      · exact .inl rfl
      split
      · exact .inl rfl
      split
      · split
        · exact .inl rfl
        split <;> exact .inr ⟨publicId, rfl⟩
      split <;> exact .inr ⟨publicId, rfl⟩
    · exact .inl rfl

/-- Every command has one of the effects. -/
theorem run_effect (s : SessionStore) (c : Command) : Effect s c (s.run c) := by
  cases c with
  | save session ttlSeconds => exact .save session ttlSeconds
  | compareAndRotate input =>
    change Effect s _ (s.compareAndRotate input).1
    rcases compareAndRotate_cases s input with ⟨t, expireAt, hlive, hr, he⟩ | ⟨-, he⟩
    · rw [he]
      exact .rotate hlive hr
    · rcases he with he | ⟨hdead, he⟩ | he
      · rw [he]
        exact .none _
      · rw [he]
        exact .unlink _ _ hdead
      · rw [he]
        exact .remove _ _ _
  | touch input =>
    change Effect s _ (s.touch input).1
    rcases touch_cases s input with he | ⟨t, t', expireAt, hlive, hp, he⟩
    · rw [he]
      exact .none _
    · rw [he]
      exact .patch _ hlive hp
  | markEmailVerified input =>
    change Effect s _ (s.markEmailVerified input).1
    rcases markEmailVerified_cases s input with he | ⟨t, t', expireAt, hlive, hp, he⟩
    · rw [he]
      exact .none _
    · rw [he]
      exact .patch _ hlive hp
  | revokeByRefreshToken input =>
    change Effect s _ (s.revokeByRefreshToken input).1
    rcases revokeByRefreshToken_cases s input with he | ⟨publicId, he⟩
    · rw [he]
      exact .none _
    · rw [he]
      exact .remove _ _ _
  | remove sid publicId => exact .remove _ sid publicId
  | advance ms => exact .advance ms

/-- A patched session keeps its expiry. -/
theorem session_patch_self {sid : String} {e : Entry SessionValue} (h : s.session sid = some e)
    (t : SessionTable) : (s.patch sid t).session sid = some ⟨.record t, e.expireAt⟩ :=
  Keyspace.entry_setKeepTtl_self h _

/-- A patch leaves the other sessions alone. -/
theorem session_patch_ne (s : SessionStore) (t : SessionTable) {sid k : String} (h : k ≠ sid) :
    (s.patch sid t).session k = s.session k := s.sessions.entry_put_ne s.clock _ h

/-- A rotated session has a new expiry. -/
theorem session_rotate_self (s : SessionStore) (input : RotationInput) (t : SessionTable) :
    (s.rotate input t).session input.sid =
      some ⟨.record t, Keyspace.after s.clock input.ttlSeconds⟩ :=
  s.sessions.entry_setEx_self s.clock input.sid input.ttlSeconds _

/-- A rotation leaves the other sessions alone. -/
theorem session_rotate_ne (s : SessionStore) (input : RotationInput) (t : SessionTable) {k : String}
    (h : k ≠ input.sid) : (s.rotate input t).session k = s.session k :=
  s.sessions.entry_put_ne s.clock _ h

/-- What a command can do to the session under a sid that it does not store. -/
theorem run_session {c : Command} {sid : String}
    (hsave : ∀ session ttlSeconds, c = .save session ttlSeconds → session.sid ≠ sid)
    {e' : Entry SessionValue} (h' : (s.run c).session sid = some e') :
    s.session sid = some e' ∨
    (∃ t t', s.session sid = some ⟨.record t, e'.expireAt⟩ ∧ Patched t t' ∧
      e'.value = .record t') ∨
    (∃ input t expireAt, c = .compareAndRotate input ∧ input.sid = sid ∧
      s.session sid = some ⟨.record t, expireAt⟩ ∧ Rotatable t input ∧
      e'.value = .record (t.rotated input input.expectedRefreshVersion)) := by
  have heffect := s.run_effect c
  generalize s.run c = s' at heffect h'
  cases heffect with
  | none => exact .inl h'
  | unlink _ publicId hdead => exact .inl h'
  | remove _ j publicId =>
    by_cases hj : sid = j
    · subst hj
      simp at h'
    · rw [session_remove_ne s publicId hj] at h'
      exact .inl h'
  | @patch _ j t t' expireAt hlive hp =>
    by_cases hj : sid = j
    · subst hj
      rw [session_patch_self hlive] at h'
      obtain rfl := Option.some.inj h'
      exact .inr (.inl ⟨t, t', hlive, hp, rfl⟩)
    · rw [session_patch_ne s t' hj] at h'
      exact .inl h'
  | @rotate input t expireAt hlive hr =>
    by_cases hj : sid = input.sid
    · subst hj
      rw [session_rotate_self] at h'
      obtain rfl := Option.some.inj h'
      exact .inr (.inr ⟨input, t, expireAt, rfl, rfl, hlive, hr, rfl⟩)
    · rw [session_rotate_ne s input _ hj] at h'
      exact .inl h'
  | save session ttlSeconds =>
    rw [session_save_ne s session ttlSeconds (hsave session ttlSeconds rfl).symm] at h'
    exact .inl h'
  | advance ms => exact .inl (session_advance h')

/-- A session that is gone stays gone until its sid is stored again. -/
theorem run_dead {c : Command} {sid : String}
    (hsave : ∀ session ttlSeconds, c = .save session ttlSeconds → session.sid ≠ sid)
    (hdead : s.session sid = none) : (s.run c).session sid = none := by
  cases h' : (s.run c).session sid with
  | none => rfl
  | some e' =>
    rcases run_session hsave h' with h | ⟨t, t', h, -⟩ | ⟨input, t, expireAt, -, -, h, -⟩ <;>
      rw [hdead] at h <;> cases h

end SessionStore

end Ascendance.Session
