import Ascendance.Core.Snapshot
import Ascendance.Core.Transition
import Ascendance.Models.Credentials.Service
import Ascendance.Models.Outbox.Worker

/-!
# Passwords, reset tokens and sessions

Calls of one user run side by side, one step for each await. User lookups read
the committed document, a password change runs under snapshot isolation, and
every command to Redis may be answered, lost or refused. The clean-up after a
rejection or a change is a command like any other, and it may never come. The
last five fields record what happened; no step reads them, apart from the
identifiers that are drawn at random and so are new.
-/

namespace Ascendance.Credentials

open Ascendance.Core Ascendance.Session
open Ascendance.Outbox (Reply)

/-- A login that stored its session, with the number of changes before its lookup. -/
structure Login where
  sid : String
  epoch : ℕ
  deriving DecidableEq, Repr

/-- A success on a session, with the number of changes before its lookup. -/
structure Success where
  sid : String
  epoch : ℕ
  deriving DecidableEq, Repr

/-- A reset token as it was stored, with the number of changes by then. -/
structure Token where
  hash : String
  expires : Int
  epoch : ℕ
  deriving DecidableEq, Repr

/-- A committed change of the password. -/
inductive Change where
  | changed (current new : String)
  | reset (tokenHash : String) (now : Int)
  deriving DecidableEq, Repr

/-- Where a call stands. -/
inductive Call where
  | idle
  /-- `login` has verified the password. -/
  | loggingIn (user : UserDocument) (epoch : ℕ)
  /-- `assertAccessSession` has read the session. -/
  | accessing (sid : String) (t : SessionTable)
  /-- It has looked the user up. -/
  | touching (sid : String) (t : SessionTable) (epoch : ℕ)
  /-- `refreshSession` has read the session. -/
  | refreshing (sid : String) (t : SessionTable) (presented : String)
  /-- It has looked the user up. -/
  | rotating (sid publicId : String) (t : SessionTable) (presented : String) (epoch : ℕ)
  /-- `requestPasswordReset` has found the user and read the clock. -/
  | requesting (expires : Int)
  /-- `consumePasswordResetToken` has read the clock. -/
  | resetting (tokenHash newPassword : String) (now : Int)
  /-- `changePassword` between two attempts of its transaction, or in one. -/
  | changing (current new : String) (snapshot : Option (Versioned String UserDocument))

/-- The user's document, the session store, the running calls, and what has happened to the
credentials. -/
structure World where
  clock : ℕ
  users : Versioned String UserDocument
  store : SessionStore
  call : ℕ → Call
  logins : List Login
  successes : List Success
  tokens : List Token
  changes : List Change
  /-- The stored passwords, the first one and those of the changes. -/
  passwords : List String

/-- What can happen: time passes, the user is edited, or one of the calls takes its next step. -/
inductive Action where
  | advance (ms : ℕ)
  /-- Any other update of the user. -/
  | updateUser (isBanned isEmailVerified : Bool)
  | deleteUser
  | command (c : Command)
  | removeMembership (publicId sid : String)
  | deleteUserSessions (publicId : String) (sessionIds : Finset String)
  | login (call : ℕ) (password : String)
  | createSession (call : ℕ) (sid refreshTokenHash : String) (ttlSeconds : ℕ+)
      (ip userAgent : Option String) (reply : Reply)
  | assertAccessSession (call : ℕ) (sid : String)
  | accessLookup (call : ℕ)
  | accessTouch (call : ℕ) (reply : Reply)
  | refreshSession (call : ℕ) (sid presented : String)
  | refreshLookup (call : ℕ)
  | rotateRefreshToken (call : ℕ) (next : Successor) (reply : Reply)
  | requestPasswordReset (call : ℕ)
  | storeResetToken (call : ℕ) (tokenHash : String)
  | resetPassword (call : ℕ) (tokenHash newPassword : String)
  | consumePasswordResetToken (call : ℕ) (salt : String)
  | changePassword (call : ℕ) (current new : String)
  | beginChange (call : ℕ)
  | commitChange (call : ℕ) (salt : String)
  | abortChange (call : ℕ)
  /-- A call that fails, at any point and for any reason. -/
  | abandon (call : ℕ)

namespace World

/-- The state after the registration of a user. -/
def init (cfg : Settings) (user : UserDocument) : World where
  clock := 0
  users := ⟨fun k => if k = cfg.publicId then some user else none, fun _ => 0⟩
  store := .empty
  call := fun _ => .idle
  logins := []
  successes := []
  tokens :=
    match user.resetToken, user.resetTokenExpires with
    | some tokenHash, some expires => [⟨tokenHash, expires, 0⟩]
    | _, _ => []
  changes := []
  passwords := [user.password]

/-- The number of changes so far. -/
def epoch (w : World) : ℕ := w.changes.length

/-- The document of the user whose credentials are followed. -/
def user (cfg : Settings) (w : World) : Option UserDocument := w.users.doc cfg.publicId

/-- Put a call into another state. -/
def setCall (w : World) (call : ℕ) (c : Call) : World :=
  { w with call := Function.update w.call call c }

/-- A command to Redis: refused, or applied and answered, or applied and lost. -/
def redis (w : World) (call : ℕ) (store : SessionStore) (success : Option Success) :
    Reply → World
  | .answered =>
    { w.setCall call .idle with store := store, successes := w.successes ++ success.toList }
  | .lost _ => { w.setCall call .idle with store := store }
  | .refused _ => w.setCall call .idle

/-- `login` up to the session: the lookup, the password and the ban. -/
def login (cfg : Settings) (w : World) (call : ℕ) (password : String) : World :=
  match w.user cfg with
  | none => w
  | some u =>
    if ¬ cfg.verifyPassword password u.password ∨ u.isBanned then w
    else w.setCall call (.loggingIn u w.epoch)

/-- The session of a login; its sid is a new random identifier. -/
def createSession (cfg : Settings) (w : World) (call : ℕ) (sid refreshTokenHash : String)
    (ttlSeconds : ℕ+) (ip userAgent : Option String) (reply : Reply) : Option World :=
  match w.call call with
  | .loggingIn u epoch =>
    if sid ∈ w.logins.map (·.sid) then none
    else
      let session := Session.createSession
        ⟨sid, cfg.publicId, u.isEmailVerified, some u.version, refreshTokenHash, ip, userAgent⟩
        w.clock
      match reply with
      | .refused _ => some (w.setCall call .idle)
      | _ => some { w.setCall call .idle with
        store := w.store.save session ttlSeconds
        logins := w.logins ++ [⟨sid, epoch⟩] }
  | _ => none

/-- `assertAccessSession` up to the lookup. -/
def assertAccessSession (cfg : Settings) (w : World) (call : ℕ) (sid : String) : World :=
  match w.store.sessions.get w.store.clock sid with
  | some (.record t) =>
    if accessible t sid cfg.publicId then w.setCall call (.accessing sid t) else w
  | _ => w

/-- `assertCurrentAuthVersion`. -/
def accessLookup (cfg : Settings) (w : World) (call : ℕ) : Option World :=
  match w.call call with
  | .accessing sid t =>
    match w.user cfg with
    | none => some (w.setCall call .idle)
    | some u =>
      if t.authVersion = .number u.version then some (w.setCall call (.touching sid t w.epoch))
      else some (w.setCall call .idle)
  | _ => none

/-- `touchSessionOnAccess`, the end of `assertAccessSession`. -/
def accessTouch (cfg : Settings) (w : World) (call : ℕ) (reply : Reply) : Option World :=
  match w.call call with
  | .touching sid t epoch =>
    if recentlySeen cfg t w.clock then
      some { w.setCall call .idle with successes := w.successes ++ [⟨sid, epoch⟩] }
    else
      let (store, outcome) := w.store.touch ⟨sid, cfg.publicId, w.clock⟩
      some (w.redis call store (if outcome = .updated then some ⟨sid, epoch⟩ else none) reply)
  | _ => none

/-- `getRefreshSession`. -/
def refreshSession (w : World) (call : ℕ) (sid presented : String) : World :=
  match w.store.sessions.get w.store.clock sid with
  | some (.record t) =>
    if isExpectedActiveRefreshSession (.record t) sid then
      w.setCall call (.refreshing sid t presented)
    else w
  | _ => w

/-- The lookup of `refreshSession`, by the id in the record. -/
def refreshLookup (w : World) (call : ℕ) : Option World :=
  match w.call call with
  | .refreshing sid t presented =>
    match t.publicId with
    | .string publicId =>
      match w.users.doc publicId with
      | none => some (w.setCall call .idle)
      | some u =>
        if u.isBanned ∨ t.authVersion ≠ .number u.version then some (w.setCall call .idle)
        else some (w.setCall call (.rotating sid publicId t presented w.epoch))
    | _ => some (w.setCall call .idle)
  | _ => none

/-- The end of `refreshSession`. -/
def rotateRefreshToken (cfg : Settings) (w : World) (call : ℕ) (next : Successor) (reply : Reply) :
    Option World :=
  match w.call call with
  | .rotating sid publicId t presented epoch =>
    let (store, result) :=
      w.store.compareAndRotate (rotationInput cfg sid publicId t presented next w.clock)
    some (w.redis call store (if result.outcome = .rotated then some ⟨sid, epoch⟩ else none) reply)
  | _ => none

/-- `requestPasswordReset` up to the update; a token expires after an hour. -/
def requestPasswordReset (cfg : Settings) (w : World) (call : ℕ) : World :=
  match w.user cfg with
  | none => w
  | some _ => w.setCall call (.requesting (w.clock + 3600000))

/-- The update of `requestPasswordReset`; the token is a new random one. -/
def storeResetToken (cfg : Settings) (w : World) (call : ℕ) (tokenHash : String) : Option World :=
  match w.call call, w.user cfg with
  | .requesting expires, some u =>
    if tokenHash ∈ w.tokens.map (·.hash) then none
    else some { w.setCall call .idle with
      users := w.users.write cfg.publicId
        (some { u with resetToken := some tokenHash, resetTokenExpires := some expires })
      tokens := w.tokens ++ [⟨tokenHash, expires, w.epoch⟩] }
  | _, _ => none

/-- The filter of `consumePasswordResetToken`. -/
def resetFilter (u : UserDocument) (tokenHash : String) (now : Int) : Bool :=
  u.resetToken == some tokenHash && u.resetTokenExpires.any (now < ·)

/-- `consumePasswordResetToken`: one update that finds the token and changes the password. -/
def consumePasswordResetToken (cfg : Settings) (w : World) (call : ℕ) (salt : String) :
    Option World :=
  match w.call call, w.user cfg with
  | .resetting tokenHash newPassword now, some u =>
    if resetFilter u tokenHash now then
      let password := cfg.hashPassword salt newPassword
      some { w.setCall call .idle with
        users := w.users.write cfg.publicId (some (u.passwordChanged password))
        changes := w.changes ++ [.reset tokenHash now]
        passwords := w.passwords ++ [password] }
    else some (w.setCall call .idle)
  | _, _ => none

/-- `changePassword` up to its transaction. -/
def changePassword (w : World) (call : ℕ) (current new : String) : World :=
  if utf16Length new < 3 ∨ current = new then w else w.setCall call (.changing current new none)

/-- The transaction begins, finds the user and verifies the current password. -/
def beginChange (cfg : Settings) (w : World) (call : ℕ) : Option World :=
  match w.call call with
  | .changing current new none =>
    match w.user cfg with
    | none => some (w.setCall call .idle)
    | some u =>
      if cfg.verifyPassword current u.password then
        some (w.setCall call (.changing current new (some w.users)))
      else some (w.setCall call .idle)
  | _ => none

/-- The transaction commits what it made of its snapshot. -/
def commitChange (cfg : Settings) (w : World) (call : ℕ) (salt : String) : Option World :=
  match w.call call with
  | .changing current new (some snapshot) =>
    (snapshot.doc cfg.publicId).bind fun u =>
      let password := cfg.hashPassword salt new
      (snapshot.commit w.users [(cfg.publicId, some (u.passwordChanged password))]).map fun users =>
        { w.setCall call .idle with
          users := users
          changes := w.changes ++ [.changed current new]
          passwords := w.passwords ++ [password] }
  | _ => none

/-- The transaction is aborted, and the body will run again. -/
def abortChange (w : World) (call : ℕ) : Option World :=
  match w.call call with
  | .changing current new (some _) => some (w.setCall call (.changing current new none))
  | _ => none

/-- A new call; the identifier must be free. -/
def start (w w' : World) (call : ℕ) : Option World :=
  match w.call call with
  | .idle => some w'
  | _ => none

/-- The session commands of others: anything but a login. -/
def foreign (w : World) : Command → Option World
  | .save _ _ | .advance _ => none
  | c => some { w with store := w.store.run c }

/-- The effect of an action, where it can happen. -/
def step (cfg : Settings) (w : World) : Action → Option World
  | .advance ms => some { w with clock := w.clock + ms, store := w.store.run (.advance ms) }
  | .updateUser isBanned isEmailVerified =>
    (w.user cfg).map fun u => { w with
      users := w.users.write cfg.publicId
        (some { u with isBanned := isBanned, isEmailVerified := isEmailVerified }) }
  | .deleteUser => some { w with users := w.users.write cfg.publicId none }
  | .command c => w.foreign c
  | .removeMembership publicId sid => some { w with store := w.store.removeMembership publicId sid }
  | .deleteUserSessions publicId sessionIds =>
    some { w with store := w.store.deleteUserSessions publicId sessionIds }
  | .login call password => w.start (w.login cfg call password) call
  | .createSession call sid refreshTokenHash ttlSeconds ip userAgent reply =>
    w.createSession cfg call sid refreshTokenHash ttlSeconds ip userAgent reply
  | .assertAccessSession call sid => w.start (w.assertAccessSession cfg call sid) call
  | .accessLookup call => w.accessLookup cfg call
  | .accessTouch call reply => w.accessTouch cfg call reply
  | .refreshSession call sid presented => w.start (w.refreshSession call sid presented) call
  | .refreshLookup call => w.refreshLookup call
  | .rotateRefreshToken call next reply => w.rotateRefreshToken cfg call next reply
  | .requestPasswordReset call => w.start (w.requestPasswordReset cfg call) call
  | .storeResetToken call tokenHash => w.storeResetToken cfg call tokenHash
  | .resetPassword call tokenHash newPassword =>
    w.start (w.setCall call (.resetting tokenHash newPassword w.clock)) call
  | .consumePasswordResetToken call salt => w.consumePasswordResetToken cfg call salt
  | .changePassword call current new => w.start (w.changePassword call current new) call
  | .beginChange call => w.beginChange cfg call
  | .commitChange call salt => w.commitChange cfg call salt
  | .abortChange call => w.abortChange call
  | .abandon call => some (w.setCall call .idle)

end World

end Ascendance.Credentials
