import Ascendance.Core.Text
import Ascendance.Models.Session.Service

/-!
# Users and their sessions

What the authentication service reads of a user and makes of a session record.
-/

namespace Ascendance.Credentials

open Ascendance.Core Ascendance.Session

/-- The fields of a user that authentication reads. -/
structure UserDocument where
  /-- The stored hash. -/
  password : String
  authVersion : Option Int
  resetToken : Option String
  resetTokenExpires : Option Int
  isBanned : Bool
  isEmailVerified : Bool
  deriving DecidableEq, Repr

/-- `user.authVersion ?? 0`. -/
def UserDocument.version (u : UserDocument) : Int := u.authVersion.getD 0

/-- The update that changes a password, by a change or by a reset. -/
def UserDocument.passwordChanged (u : UserDocument) (password : String) : UserDocument :=
  { u with
    password := password
    authVersion := some (u.version + 1)
    resetToken := none
    resetTokenExpires := none }

/-- What the service is configured with. Hashing takes a salt. -/
structure Settings where
  publicId : String
  hashPassword : String → String → String
  verifyPassword : String → String → Bool
  refreshRotationGraceMs : Int
  accessTouchIntervalMs : Int

/-- The checks of `assertAccessSession` on the record it reads. -/
def accessible (t : SessionTable) (sid publicId : String) : Bool :=
  t.sid == .string sid && t.status == .string "active" && t.publicId == .string publicId

/-- A number that satisfies a condition. -/
def isNumberWith (p : Int → Bool) : LuaValue → Bool
  | .number n => p n
  | _ => false

/-- The successor that a refresh mints, with the context of the request. -/
structure Successor where
  refreshTokenHash : String
  ttlSeconds : ℕ+
  ip : Option String
  userAgent : Option String
  deriving DecidableEq

/-- The arguments `rotateRefreshToken` passes to the script for the record it read. -/
def rotationInput (cfg : Settings) (sid publicId : String) (current : SessionTable)
    (presentedRefreshTokenHash : String) (next : Successor) (now : Int) : RotationInput where
  sid := sid
  publicId := publicId
  presentedRefreshTokenHash := presentedRefreshTokenHash
  nextRefreshTokenHash := next.refreshTokenHash
  expectedRefreshVersion :=
    match current.refreshVersion with
    | .number n => n
    | _ => 0
  now := now
  previousRefreshTokenGraceUntil := now + cfg.refreshRotationGraceMs
  ttlSeconds := next.ttlSeconds
  ip := next.ip
  userAgent := next.userAgent

/-- `touchSessionOnAccess` skips a session that was seen recently. -/
def recentlySeen (cfg : Settings) (t : SessionTable) (now : Int) : Bool :=
  isNumberWith (fun lastSeenAt => now - lastSeenAt < cfg.accessTouchIntervalMs) t.lastSeenAt

end Ascendance.Credentials
