import Ascendance.Core.Transition
import Mathlib.Data.Int.Notation

/-!
# The socket servers

The sockets of any number of server nodes, the connection handlers that count and
authenticate them, the session checks under way, client events and emits. Every
await is a step of its own. A fetch of sockets asks the nodes one by one, and each
answers with its sockets that are in the room and still connected.

Bans, revocations and password changes are changes of what the stores answer and
disconnects; a disconnect may come at any moment for any reason.
-/

namespace Ascendance.SocketServer

open Ascendance.Core

/-- The part of a token that sockets use; `exp` is there when it is a finite number. -/
structure DecodedUser where
  publicId : String
  sid : String
  exp : Option ℤ
  deriving DecidableEq, Repr

/-- The configuration of the servers. -/
structure Config where
  nodes : List ℕ
  /-- `SOCKET_CONNECTION_LIMIT_PER_USER`. -/
  connectionLimit : ℕ
  /-- `SOCKET_EVENT_RATE_LIMIT_MAX`. -/
  eventMax : ℕ
  /-- `SOCKET_EVENT_RATE_LIMIT_WINDOW_MS`. -/
  eventWindow : ℤ

/-- The await at which the connection handler of a socket stands. -/
inductive Phase
  | connected
  | joiningSession
  | joiningConnections
  | counting
  | checking
  | joiningUser
  /-- The middleware and the handlers are registered. -/
  | ready
  /-- The handler returned early. -/
  | closed
  deriving DecidableEq, Repr

/-- A socket with the rooms it is in and how far its admission is. -/
structure Socket where
  user : DecodedUser
  node : ℕ
  connected : Bool
  authenticated : Bool
  /-- In the session room, in the connections room and in the user's own room. -/
  inSessionRoom : Bool
  inConnections : Bool
  inUserRoom : Bool
  phase : Phase
  /-- The count of the user's connections: when it started, the nodes that have not answered,
  and the sockets that were found. -/
  startedAt : ℕ
  left : List ℕ
  found : List ℕ
  eventCount : ℕ
  eventWindowStartedAt : ℤ

/-- What a session check is for. -/
inductive Task
  | connection
  | clientEvent (n : ℕ)
  /-- A timer, or a presence update. -/
  | revalidation
  /-- One socket of an emit; a socket of another node is known by a copy of its data. -/
  | emit (n : ℕ) (isLocal : Bool)
  deriving DecidableEq, Repr

/-- How far a check of a session is. -/
inductive CheckPhase
  | expiry
  | session
  | account
  | expiryAgain
  | over
  deriving DecidableEq, Repr

/-- `assertSocketSession` for the user of a socket. -/
structure Check where
  task : Task
  socket : ℕ
  user : DecodedUser
  phase : CheckPhase
  deriving DecidableEq, Repr

/-- An emit: its addressee if it is directed, the nodes that have not answered, and the sockets
still to be validated with the copies of their `authenticated`. -/
structure Emit where
  target : Option String
  node : ℕ
  left : List ℕ
  found : List (ℕ × Bool)
  deriving DecidableEq, Repr

/-- A client event that waits for the budget of its user. -/
structure Arrival where
  socket : ℕ
  waiting : Bool
  deriving DecidableEq, Repr

/-- What the servers have done, as far as deliveries are concerned. -/
inductive Record
  | emitCalled (n : ℕ) (target : Option String)
  | eventArrived (n socket : ℕ)
  | countStarted (socket : ℕ)
  | checkStarted (k : ℕ) (user : DecodedUser)
  /-- The store had an active session of the user, with the current credentials. -/
  | sessionLive (k : ℕ) (user : DecodedUser)
  /-- The account was there, verified and not banned. -/
  | accountActive (k : ℕ) (user : DecodedUser)
  | checkPassed (k : ℕ) (now : ℤ)
  | emitted (n socket : ℕ)
  | handled (n socket : ℕ)
  deriving DecidableEq, Repr

/-- The sockets of all nodes, the running checks, emissions and events, and what has happened. -/
structure World where
  sockets : List Socket
  checks : List Check
  emits : List Emit
  arrivals : List Arrival
  /-- What has happened, newest first. -/
  history : List Record
  /-- The clock, in milliseconds. -/
  now : ℤ
  /-- The answers of the stores: for a session and its user, and for an account. -/
  sessions : String → String → Bool
  accounts : String → Bool

/-- What can happen: clients connect and send, the handlers take their steps, timers fire, nodes
answer. -/
inductive Event
  /-- A handshake has been accepted. -/
  | connects (node : ℕ) (user : DecodedUser)
  | disconnects (s : ℕ)
  /-- The connection handler of a socket goes on after joining a room. -/
  | continues (s : ℕ)
  | nodeCounts (s node : ℕ)
  | countReturns (s : ℕ)
  | countFails (s : ℕ)
  | eventArrives (s : ℕ)
  | budget (n : ℕ) (allowed : Bool)
  | timerFires (s : ℕ)
  | emits (node : ℕ) (target : Option String)
  | nodeAnswers (n node : ℕ)
  /-- The next socket that an emit has found. -/
  | emitValidates (n : ℕ)
  | checkRuns (k : ℕ)
  /-- A read of a check throws, or the check times out. -/
  | checkFails (k : ℕ)
  | sessionChanges (sid publicId : String) (live : Bool)
  | accountChanges (publicId : String) (active : Bool)
  | tick (milliseconds : ℕ)

/-- The token has not expired. -/
def DecodedUser.unexpired (u : DecodedUser) (now : ℤ) : Bool :=
  u.exp.any fun exp => decide (now < exp * 1000)

namespace World

/-- No sockets. -/
def initial : World where
  sockets := []
  checks := []
  emits := []
  arrivals := []
  history := []
  now := 0
  sessions := fun _ _ => false
  accounts := fun _ => false

variable (w : World)

/-- Change a socket. -/
def modify (s : ℕ) (f : Socket → Socket) : World := { w with sockets := w.sockets.modify s f }

/-- Note what has happened. -/
def record (r : Record) : World := { w with history := r :: w.history }

/-- The `disconnect` listener clears the flag in the same turn. -/
def disconnect (s : ℕ) : World :=
  w.modify s fun so => { so with
    connected := false
    authenticated := false
    inSessionRoom := false
    inConnections := false
    inUserRoom := false }

/-- The sockets of a node that a fetch finds. -/
def localSockets (node : ℕ) (p : Socket → Bool) : List (ℕ × Socket) :=
  (w.sockets.zipIdx.filter fun x => x.1.node == node && x.1.connected && p x.1).map Prod.swap

/-- Begin a check of a socket's user. -/
def startCheck (task : Task) (s : ℕ) (user : DecodedUser) : World :=
  { w with
    checks := w.checks ++ [⟨task, s, user, .expiry⟩]
    history := .checkStarted w.checks.length user :: w.history }

/-- A check failed, or there is nothing to check. -/
def reject (task : Task) (s : ℕ) : World :=
  match task with
  | .connection => (w.disconnect s).modify s fun so => { so with phase := .closed }
  | .clientEvent _ | .revalidation | .emit _ true => w.disconnect s
  | .emit _ false => w

/-- `validateSocketSession`, up to its first await. -/
def validate (task : Task) (s : ℕ) (user : DecodedUser) (authenticated : Bool) : World :=
  if authenticated then w.startCheck task s user else w.reject task s

/-- What a successful check allows. -/
def accept (task : Task) (s : ℕ) (so : Socket) : World :=
  match task with
  | .connection =>
    -- The handler of the socket stands at this check.
    if so.phase ≠ .checking then w
    else if so.connected then
      w.modify s fun so =>
        { so with authenticated := true, inUserRoom := true, phase := .joiningUser }
    else w.modify s fun so => { so with phase := .closed }
  | .clientEvent n => if so.authenticated && so.connected then w.record (.handled n s) else w
  | .revalidation => w
  | .emit n isLocal => if !isLocal || so.authenticated then w.record (.emitted n s) else w

/-- Put a check into another phase. -/
def setCheck (k : ℕ) (phase : CheckPhase) : World :=
  { w with checks := w.checks.modify k fun c => { c with phase } }

/-- The next step of a check: `assertActiveSession`, and the expiry once more after it. -/
def runCheck (k : ℕ) (c : Check) (so : Socket) : Option World :=
  let failed := (w.setCheck k .over).reject c.task c.socket
  match c.phase with
  | .expiry =>
    if c.user.sid ≠ "" ∧ c.user.unexpired w.now = true then some (w.setCheck k .session)
    else some failed
  | .session =>
    if w.sessions c.user.sid c.user.publicId then
      some ((w.setCheck k .account).record (.sessionLive k c.user))
    else some failed
  | .account =>
    if w.accounts c.user.publicId then
      some ((w.setCheck k .expiryAgain).record (.accountActive k c.user))
    else some failed
  | .expiryAgain =>
    if c.user.unexpired w.now then
      some (((w.setCheck k .over).record (.checkPassed k w.now)).accept c.task c.socket so)
    else some failed
  | .over => none

/-- The handler of a new connection goes on, up to its next await. -/
def handleConnection (cfg : Config) (s : ℕ) (so : Socket) : Option World :=
  match so.phase with
  | .connected =>
    if so.user.sid = "" then
      some ((w.disconnect s).modify s fun so => { so with phase := .closed })
    else some (w.modify s fun so => { so with inSessionRoom := true, phase := .joiningSession })
  | .joiningSession =>
    if so.user.publicId = "" then
      some ((w.disconnect s).modify s fun so => { so with phase := .closed })
    else some (w.modify s fun so => { so with inConnections := true, phase := .joiningConnections })
  | .joiningConnections =>
    some ((w.modify s fun so => { so with
      phase := .counting
      startedAt := w.history.length
      left := cfg.nodes
      found := [] }).record (.countStarted s))
  | .joiningUser =>
    if so.connected then
      -- `disconnectAtSessionExpiry`; the handlers are registered in any case.
      let w := if so.user.unexpired w.now then w else w.disconnect s
      some (w.modify s fun so => { so with
        phase := .ready
        eventCount := 0
        eventWindowStartedAt := w.now })
    else some (w.modify s fun so => { so with phase := .closed })
  | .counting | .checking | .ready | .closed => none

/-- A node answers the count of a socket. -/
def nodeCounts (s node : ℕ) (so : Socket) : Option World :=
  if so.phase = .counting ∧ node ∈ so.left then
    let here := (w.localSockets node fun x =>
      x.inConnections && x.user.publicId == so.user.publicId).map (·.1)
    some (w.modify s fun so => { so with
      left := so.left.filter (· ≠ node)
      found := so.found ++ here })
  else none

/-- `enforceConnectionLimit`, when all nodes have answered. -/
def countReturns (cfg : Config) (s : ℕ) (so : Socket) : Option World :=
  if so.phase = .counting ∧ so.left = [] then
    if so.found.length ≤ cfg.connectionLimit then
      some ((w.modify s fun so => { so with phase := .checking }).startCheck .connection s so.user)
    else some ((w.disconnect s).modify s fun so => { so with phase := .closed })
  else none

/-- The event count of a socket and the start of its window, with one more event. -/
def countEvent (cfg : Config) (so : Socket) : ℕ × ℤ :=
  if cfg.eventWindow ≤ w.now - so.eventWindowStartedAt then (1, w.now)
  else (so.eventCount + 1, so.eventWindowStartedAt)

/-- An event of a client has arrived. -/
def arrive (s : ℕ) (waiting : Bool) : World := { w with arrivals := w.arrivals ++ [⟨s, waiting⟩] }

/-- The per-event middleware, up to its first await. -/
def eventArrives (cfg : Config) (s : ℕ) (so : Socket) : World :=
  let counted := w.countEvent cfg so
  let w := w.record (.eventArrived w.arrivals.length s)
  if so.phase ≠ .ready then w.arrive s false
  else
    let w := w.modify s fun so => { so with
      eventCount := counted.1
      eventWindowStartedAt := counted.2 }
    if so.connected = false ∨ cfg.eventMax < counted.1 then (w.disconnect s).arrive s false
    else w.arrive s true

/-- The budget of the user is consumed; then the session is validated. -/
def budget (n : ℕ) (a : Arrival) (so : Socket) (allowed : Bool) : World :=
  let w := { w with arrivals := w.arrivals.set n ⟨a.socket, false⟩ }
  if allowed then w.validate (.clientEvent n) a.socket so.user so.authenticated
  else w.disconnect a.socket

/-- Begin an emission to the sockets of all nodes. -/
def emit (cfg : Config) (node : ℕ) (target : Option String) : World :=
  { w with
    emits := w.emits ++ [⟨target, node, cfg.nodes, []⟩]
    history := .emitCalled w.emits.length target :: w.history }

/-- A socket is in what an emit fetches. -/
def inRoom (target : Option String) (so : Socket) : Bool :=
  target.all fun userPublicId => so.inUserRoom && so.user.publicId == userPublicId

/-- A node tells the emission its sockets. -/
def nodeAnswers (n node : ℕ) (e : Emit) : Option World :=
  if node ∈ e.left then
    let here := (w.localSockets node (inRoom e.target)).map fun x => (x.1, x.2.authenticated)
    some { w with emits := w.emits.set n { e with
      left := e.left.filter (· ≠ node)
      found := e.found ++ here } }
  else none

/-- The socket of a directed emit is the addressee's. -/
def addressed (target : Option String) (user : DecodedUser) : Bool :=
  target.all fun userPublicId => user.publicId == userPublicId

/-- The next socket that was found: a socket of the same node is read as it is now. -/
def emitValidates (n : ℕ) (e : Emit) : Option World :=
  match e.left, e.found with
  | [], (s, copy) :: found =>
    w.sockets[s]?.map fun so =>
      let w := { w with emits := w.emits.set n { e with found } }
      let isLocal := so.node == e.node
      if addressed e.target so.user then
        w.validate (.emit n isLocal) s so.user (if isLocal then so.authenticated else copy)
      else w
  | _, _ => none

/-- A new socket of a user at a node. -/
def connects (cfg : Config) (node : ℕ) (user : DecodedUser) : Option World :=
  if node ∈ cfg.nodes then
    some { w with sockets := w.sockets ++ [{
      user, node
      connected := true
      authenticated := false
      inSessionRoom := false
      inConnections := false
      inUserRoom := false
      phase := .connected
      startedAt := 0
      left := []
      found := []
      eventCount := 0
      eventWindowStartedAt := w.now }] }
  else none

/-- The effect of an event, where it can happen. -/
def step (cfg : Config) (w : World) (e : Event) : Option World :=
  match e with
  | .connects node user => w.connects cfg node user
  | .disconnects s => some (w.disconnect s)
  | .continues s => w.sockets[s]?.bind fun so => w.handleConnection cfg s so
  | .nodeCounts s node => w.sockets[s]?.bind fun so => w.nodeCounts s node so
  | .countReturns s => w.sockets[s]?.bind fun so => w.countReturns cfg s so
  | .countFails s => w.sockets[s]?.bind fun so =>
    if so.phase = .counting then
      some ((w.disconnect s).modify s fun so => { so with phase := .closed })
    else none
  | .eventArrives s => w.sockets[s]?.map fun so => w.eventArrives cfg s so
  | .budget n allowed => w.arrivals[n]?.bind fun a => w.sockets[a.socket]?.bind fun so =>
    if a.waiting then some (w.budget n a so allowed) else none
  | .timerFires s => w.sockets[s]?.bind fun so =>
    if so.phase = .ready then some (w.validate .revalidation s so.user so.authenticated) else none
  | .emits node target => some (w.emit cfg node target)
  | .nodeAnswers n node => w.emits[n]?.bind fun e => w.nodeAnswers n node e
  | .emitValidates n => w.emits[n]?.bind fun e => w.emitValidates n e
  | .checkRuns k => w.checks[k]?.bind fun c => w.sockets[c.socket]?.bind fun so => w.runCheck k c so
  | .checkFails k => w.checks[k]?.bind fun c =>
    if c.phase = .over then none else some ((w.setCheck k .over).reject c.task c.socket)
  | .sessionChanges sid publicId live =>
    some { w with sessions := fun sid' publicId' =>
      if sid' = sid ∧ publicId' = publicId then live else w.sessions sid' publicId' }
  | .accountChanges publicId active =>
    some { w with accounts := fun publicId' =>
      if publicId' = publicId then active else w.accounts publicId' }
  | .tick milliseconds => some { w with now := w.now + milliseconds }

end World

end Ascendance.SocketServer
