import Ascendance.Core.Hex
import Ascendance.Models.Session.Scripts

/-!
# Sessions as the service sees them

What the service stores at a login, and what it checks of a record before a refresh.
-/

namespace Ascendance.Session

open Ascendance.Core

/-- What the service is given by `createSession`, with the hash of the refresh token. -/
structure CreateSessionInput where
  sid : String
  publicId : String
  isEmailVerified : Bool
  authVersion : Option Int
  refreshTokenHash : String
  ip : Option String
  userAgent : Option String
  deriving DecidableEq, Repr

/-- The record of `createSession`. -/
def createSession (input : CreateSessionInput) (now : Int) : AuthSessionRecord where
  sid := input.sid
  publicId := input.publicId
  isEmailVerified := input.isEmailVerified
  authVersion := input.authVersion.getD 0
  refreshTokenHash := input.refreshTokenHash
  refreshVersion := 0
  previousRefreshTokenHash := none
  previousRefreshTokenGraceUntil := none
  createdAt := now
  lastSeenAt := now
  ip := input.ip
  userAgent := input.userAgent

/-- `SHA256_HEX_REGEX`, which takes either case. -/
def isSha256Hex (s : String) : Bool := s.length = 64 && s.toList.all fun c => (Hex.value c).isSome

/-- Is the value a boolean? -/
def LuaValue.isBoolean : LuaValue → Bool
  | .boolean _ => true
  | _ => false

/-- Is the value a number? -/
def LuaValue.isNumber : LuaValue → Bool
  | .number _ => true
  | _ => false

/-- A text that matches `SHA256_HEX_REGEX`. -/
def LuaValue.isHash : LuaValue → Bool
  | .string s => isSha256Hex s
  | _ => false

/-- A text that is not empty. -/
def LuaValue.isText : LuaValue → Bool
  | .string s => s ≠ ""
  | _ => false

/-- An integer that is not negative, or undefined. -/
def LuaValue.isVersion : LuaValue → Bool
  | .nil => true
  | .number n => 0 ≤ n
  | _ => false

/-- `isExpectedActiveRefreshSession`; an absent field is `undefined`. -/
def isExpectedActiveRefreshSession (value : SessionValue) (expectedSid : String) : Bool :=
  match value with
  | .invalid => false
  | .record session =>
    session.sid = .string expectedSid && session.publicId.isText &&
      session.isEmailVerified.isBoolean && session.refreshTokenHash.isHash &&
      session.createdAt.isNumber && session.lastSeenAt.isNumber &&
      session.status = .string "active" && session.refreshVersion.isVersion &&
      (session.previousRefreshTokenHash = .nil || session.previousRefreshTokenHash.isHash) &&
      (session.previousRefreshTokenGraceUntil = .nil ||
        session.previousRefreshTokenGraceUntil.isNumber) &&
      (decide (session.previousRefreshTokenHash = .nil) ==
        decide (session.previousRefreshTokenGraceUntil = .nil))

end Ascendance.Session
