import Ascendance.Core.Keyspace
import Mathlib.Data.PNat.Defs

/-!
# Session records in Redis

A session is stored as JSON under its own key, and its id is a member of the
index of its user. The scripts decode the JSON into a Lua table, so a field
holds whatever the JSON held; the typed record is what a login stores.
-/

namespace Ascendance.Session

open Ascendance.Core

/-- A decoded JSON value in Lua. An absent field is `nil`, a JSON null is not. -/
inductive LuaValue where
  | nil
  | null
  | boolean (b : Bool)
  | number (n : Int)
  | string (s : String)
  | table
  deriving DecidableEq, Repr

namespace LuaValue

/-- Is the value a string? -/
def isString : LuaValue → Bool
  | string _ => true
  | _ => false

/-- `v or 0`. -/
def orZero : LuaValue → LuaValue
  | nil | boolean false => number 0
  | v => v

/-- `tonumber`, on the integers that the service writes. -/
def tonumber : LuaValue → Option Int
  | number n => some n
  | string s => s.toInt?
  | _ => none

end LuaValue

/-- The fields of a decoded session. -/
structure SessionTable where
  sid : LuaValue
  publicId : LuaValue
  isEmailVerified : LuaValue
  authVersion : LuaValue
  refreshTokenHash : LuaValue
  refreshVersion : LuaValue
  previousRefreshTokenHash : LuaValue
  previousRefreshTokenGraceUntil : LuaValue
  createdAt : LuaValue
  lastSeenAt : LuaValue
  ip : LuaValue
  userAgent : LuaValue
  status : LuaValue
  deriving DecidableEq, Repr

/-- What `cjson.decode` makes of a stored text: a table, or anything else. -/
inductive SessionValue where
  | invalid
  | record (t : SessionTable)
  deriving DecidableEq, Repr

/-- The record that a login stores; its status is always `active`. -/
structure AuthSessionRecord where
  sid : String
  publicId : String
  isEmailVerified : Bool
  authVersion : Int
  refreshTokenHash : String
  refreshVersion : Int
  previousRefreshTokenHash : Option String
  previousRefreshTokenGraceUntil : Option Int
  createdAt : Int
  lastSeenAt : Int
  ip : Option String
  userAgent : Option String
  deriving DecidableEq, Repr

/-- `JSON.stringify` leaves an undefined field out. -/
def AuthSessionRecord.toTable (session : AuthSessionRecord) : SessionTable where
  sid := .string session.sid
  publicId := .string session.publicId
  isEmailVerified := .boolean session.isEmailVerified
  authVersion := .number session.authVersion
  refreshTokenHash := .string session.refreshTokenHash
  refreshVersion := .number session.refreshVersion
  previousRefreshTokenHash := session.previousRefreshTokenHash.elim .nil .string
  previousRefreshTokenGraceUntil := session.previousRefreshTokenGraceUntil.elim .nil .number
  createdAt := .number session.createdAt
  lastSeenAt := .number session.lastSeenAt
  ip := session.ip.elim .nil .string
  userAgent := session.userAgent.elim .nil .string
  status := .string "active"

/-- The keys `session:<sid>` and `user:sessions:<publicId>`, and the clock of Redis in
milliseconds. -/
structure SessionStore where
  clock : ℕ
  sessions : Keyspace String SessionValue
  index : Keyspace String (Finset String)

namespace SessionStore

/-- A store without sessions. -/
def empty : SessionStore := ⟨0, .empty, .empty⟩

/-- The session stored under a sid, with its expiry. -/
def session (s : SessionStore) (sid : String) : Option (Entry SessionValue) :=
  s.sessions.entry s.clock sid

/-- `SADD` of the sid to the index of its user, then `EXPIRE` with `NX` and with `GT`. -/
def link (s : SessionStore) (publicId sid : String) (ttlSeconds : ℕ+) : SessionStore :=
  { s with
    index := ((s.index.sAdd s.clock publicId sid).expireNx s.clock publicId ttlSeconds).expireGt
      s.clock publicId ttlSeconds }

/-- `SREM` of the sid from the index of a user. -/
def removeMembership (s : SessionStore) (publicId sid : String) : SessionStore :=
  { s with index := s.index.sRem s.clock publicId sid }

/-- The transaction that stores a session and links it to its user. -/
def save (s : SessionStore) (session : AuthSessionRecord) (ttlSeconds : ℕ+) : SessionStore :=
  { s with
    sessions := s.sessions.setEx s.clock session.sid ttlSeconds (.record session.toTable) }.link
      session.publicId session.sid ttlSeconds

/-- `DEL` of the session key and `SREM` of its sid. -/
def remove (s : SessionStore) (sid publicId : String) : SessionStore :=
  { s with sessions := s.sessions.del sid }.removeMembership publicId sid

/-- The session identifiers in the index of a user. -/
def getUserSessionIds (s : SessionStore) (publicId : String) : Finset String :=
  s.index.sMembers s.clock publicId

/-- One `DEL` of the listed session keys and the index key. -/
def deleteUserSessions (s : SessionStore) (publicId : String) (sessionIds : Finset String) :
    SessionStore :=
  { s with
    sessions := s.sessions.delMany sessionIds
    index := s.index.del publicId }

/-- Time passes. -/
def advance (s : SessionStore) (ms : ℕ) : SessionStore := { s with clock := s.clock + ms }

@[simp] theorem clock_link (s : SessionStore) (publicId sid : String) (ttlSeconds : ℕ+) :
    (s.link publicId sid ttlSeconds).clock = s.clock := rfl

@[simp] theorem session_link (s : SessionStore) (publicId sid k : String) (ttlSeconds : ℕ+) :
    (s.link publicId sid ttlSeconds).session k = s.session k := rfl

@[simp] theorem session_removeMembership (s : SessionStore) (publicId sid k : String) :
    (s.removeMembership publicId sid).session k = s.session k := rfl

/-- A saved session is read until it expires. -/
theorem session_save_self (s : SessionStore) (session : AuthSessionRecord) (ttlSeconds : ℕ+) :
    (s.save session ttlSeconds).session session.sid =
      some ⟨.record session.toTable, Keyspace.after s.clock ttlSeconds⟩ :=
  s.sessions.entry_setEx_self s.clock session.sid ttlSeconds _

/-- Saving a session leaves the others alone. -/
theorem session_save_ne (s : SessionStore) (session : AuthSessionRecord) (ttlSeconds : ℕ+)
    {k : String} (h : k ≠ session.sid) : (s.save session ttlSeconds).session k = s.session k :=
  s.sessions.entry_put_ne s.clock _ h

@[simp] theorem session_remove_self (s : SessionStore) (sid publicId : String) :
    (s.remove sid publicId).session sid = none := s.sessions.entry_del_self s.clock sid

/-- Removing a session leaves the others alone. -/
theorem session_remove_ne (s : SessionStore) (publicId : String) {sid k : String} (h : k ≠ sid) :
    (s.remove sid publicId).session k = s.session k := s.sessions.entry_put_ne s.clock _ h

/-- Revoking sessions removes these and no others. -/
theorem session_deleteUserSessions (s : SessionStore) (publicId : String)
    (sessionIds : Finset String) (k : String) :
    (s.deleteUserSessions publicId sessionIds).session k =
      if k ∈ sessionIds then none else s.session k :=
  s.sessions.entry_delMany sessionIds s.clock k

/-- Time brings no session back and changes none that is still there. -/
theorem session_advance {s : SessionStore} {ms : ℕ} {k : String} {e : Entry SessionValue}
    (h : (s.advance ms).session k = some e) : s.session k = some e :=
  Keyspace.entry_mono (Nat.le_add_right _ _) h

/-- A member that is removed is no longer listed. -/
theorem notMem_getUserSessionIds_remove (s : SessionStore) (sid publicId : String) :
    sid ∉ (s.remove sid publicId).getUserSessionIds publicId :=
  s.index.notMem_sMembers_sRem s.clock publicId sid

end SessionStore

end Ascendance.Session
