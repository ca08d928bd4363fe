import Ascendance.Models.SocketServer.Limit
import Mathlib.Algebra.GroupWithZero.Nat
import Mathlib.Algebra.Order.BigOperators.Group.List
import Mathlib.Algebra.Order.Group.Nat

/-!
# The admission of a valid socket

One socket is watched from its connection on, while its session stays valid and no limit
is reached. A broadcast fetches it as soon as it is connected, and validates it whether its
handler has authenticated it or not.
-/

namespace Ascendance.SocketServer

open Ascendance.Core

/-- The watched socket: its index, its server and its user. -/
structure Watch where
  socket : ℕ
  server : ℕ
  user : DecodedUser

namespace Watch

variable (o : Watch)

/-- The session and the account of the user are valid. -/
def valid (w : World) : Bool :=
  w.sessions o.user.sid o.user.publicId && w.accounts o.user.publicId &&
    o.user.unexpired w.now && o.user.sid ≠ "" && o.user.publicId ≠ ""

/-- The steps of traffic on the server of a socket that nothing rejects: no other reason
disconnects it, its session checks do not fail or time out, and no limit is reached. -/
def permits (cfg : Config) (w : World) : Event → Bool
  | .connects node user =>
    w.sockets.length ≠ o.socket || (node = o.server && user = o.user)
  | .disconnects s => s ≠ o.socket
  | .countFails s => s ≠ o.socket
  | .countReturns s =>
    s ≠ o.socket || w.sockets[s]?.all fun so => so.found.length ≤ cfg.connectionLimit
  | .eventArrives s =>
    s ≠ o.socket || w.sockets[s]?.all fun so => (w.countEvent cfg so).1 ≤ cfg.eventMax
  | .budget n allowed => allowed || w.arrivals[n]?.all fun a => a.socket ≠ o.socket
  | .emits node _ => node = o.server
  | .checkFails k => w.checks[k]?.all fun c => c.socket ≠ o.socket
  | _ => true

/-- A step of such traffic. -/
def step (cfg : Config) (w : World) (e : Event) : Option World :=
  if o.permits cfg w e then
    (w.step cfg e).filter fun w' => w'.sockets.length ≤ o.socket || o.valid w'
  else none

/-- A broadcast does not validate the socket before it is authenticated. -/
def undisturbed (w : World) : Event → Bool
  | .emitValidates n => w.emits[n]?.all fun e =>
    e.target.isSome || (e.found.head?.map Prod.fst ≠ some o.socket) ||
      w.sockets[o.socket]?.all (·.authenticated)
  | _ => true

/-- A step of the connection handler of the socket. -/
def handles (w : World) : Event → Bool
  | .continues s => s = o.socket
  | .nodeCounts s _ => s = o.socket
  | .countReturns s => s = o.socket
  | .checkRuns k => w.checks[k]?.any fun c => c.task = .connection && c.socket = o.socket
  | _ => false

end Watch

/-- The steps that a check has still to take. -/
def CheckPhase.left : CheckPhase → ℕ
  | .expiry => 4
  | .session => 3
  | .account => 2
  | .expiryAgain => 1
  | .over => 0

private theorem CheckPhase.left_eq_zero {p : CheckPhase} : p.left = 0 ↔ p = .over := by
  cases p <;> simp [CheckPhase.left]

/-- The steps that are left of a check, if it is the one of the connection handler. -/
def Check.left (s : ℕ) (c : Check) : ℕ :=
  if c.task = .connection ∧ c.socket = s then c.phase.left else 0

/-- The steps that are left of the handler of a socket. -/
def Socket.remaining (cfg : Config) (checks : ℕ) (so : Socket) : ℕ :=
  match so.phase with
  | .connected => 9 + cfg.nodes.length
  | .joiningSession => 8 + cfg.nodes.length
  | .joiningConnections => 7 + cfg.nodes.length
  | .counting => 6 + so.left.length
  | .checking => 1 + checks
  | .joiningUser => 1
  | .ready | .closed => 0

/-- The steps that are left of its checks. -/
def checksLeft (s : ℕ) (checks : List Check) : ℕ := (checks.map (Check.left s)).sum

/-- The steps that the admission of a socket has still to take. -/
def World.remaining (cfg : Config) (s : ℕ) (w : World) : ℕ :=
  w.sockets[s]?.elim 0 (Socket.remaining cfg (checksLeft s w.checks))

/-- A new check has all its steps left. -/
private theorem checksLeft_append (s : ℕ) (checks : List Check) (c : Check) :
    checksLeft s (checks ++ [c]) = checksLeft s checks + c.left s := by
  unfold checksLeft
  rw [List.map_append, List.sum_append]
  simp

/-- A check that goes on takes its steps from the sum. -/
theorem checksLeft_modify (s : ℕ) {checks : List Check} {k : ℕ} {c : Check}
    (hc : checks[k]? = some c) (f : Check → Check) :
    checksLeft s (checks.modify k f) + c.left s = checksLeft s checks + (f c).left s := by
  unfold checksLeft
  induction checks generalizing k with
  | nil => simp at hc
  | cons b checks ih =>
    cases k with
    | zero =>
      obtain rfl := Option.some.inj hc
      simp only [List.modify_zero_cons, List.map_cons, List.sum_cons]
      omega
    | succ k =>
      have hrest := ih (k := k) (by simpa using hc)
      simp only [List.modify_succ_cons, List.map_cons, List.sum_cons]
      omega

/-- A check has no more left than all of them. -/
private theorem le_checksLeft (s : ℕ) {checks : List Check} {k : ℕ} {c : Check}
    (hc : checks[k]? = some c) : c.left s ≤ checksLeft s checks :=
  List.single_le_sum (fun _ _ => Nat.zero_le _) _
    (List.mem_map_of_mem (List.mem_of_getElem? hc))

/-- The watched socket is connected, and marked exactly when its check has passed. -/
structure SocketKept (o : Watch) (so : Socket) : Prop where
  user : so.user = o.user
  node : so.node = o.server
  connected : so.connected = true
  open_ : so.phase ≠ .closed
  marked : so.authenticated = so.phase.mayAuthenticate
  room : so.inUserRoom = so.phase.mayAuthenticate

/-- The watched socket, if it is there yet, with what refers to it. -/
structure Kept (o : Watch) (me : Option Socket) (checks : List Check) (emits : List Emit)
    (arrivals : List Arrival) : Prop where
  socket : ∀ so, me = some so → SocketKept o so
  checked : ∀ c ∈ checks, c.socket = o.socket → me.isSome ∧ c.user = o.user
  /-- The handler has one check, while it waits for it. -/
  idle : ∀ so, me = some so → so.phase ≠ .checking → checksLeft o.socket checks = 0
  checking : ∀ so, me = some so → so.phase = .checking → ∃ (k : ℕ) (c : Check),
    checks[k]? = some c ∧ c.task = .connection ∧ c.socket = o.socket ∧ c.phase ≠ .over ∧
      checksLeft o.socket checks = c.left o.socket
  found : ∀ e ∈ emits, e.node = o.server ∧ ∀ x ∈ e.found, x.1 = o.socket →
    ∃ so, me = some so ∧ (e.target.isSome → so.authenticated = true)
  waiting : ∀ a ∈ arrivals, a.socket = o.socket → a.waiting = true →
    ∃ so, me = some so ∧ so.authenticated = true

/-- The admission of the watched socket is where it should be. -/
def World.Kept (o : Watch) (w : World) : Prop :=
  SocketServer.Kept o w.sockets[o.socket]? w.checks w.emits w.arrivals

section Kept

variable {cfg : Config} {o : Watch} {me : Option Socket} {so so' : Socket} {checks : List Check}
  {emits : List Emit} {arrivals : List Arrival}

/-- A socket that goes on and stays marked keeps its place. -/
theorem Kept.update (h : Kept o (some so) checks emits arrivals) (hso : SocketKept o so')
    (hmarked : so.authenticated = true → so'.authenticated = true)
    (hchecking : so'.phase = .checking ↔ so.phase = .checking) :
    Kept o (some so') checks emits arrivals where
  socket := fun _ heq => Option.some.inj heq ▸ hso
  checked c hc hsocket := ⟨rfl, (h.checked c hc hsocket).2⟩
  idle := fun _ heq hp => h.idle so rfl fun hc => hp (Option.some.inj heq ▸ hchecking.mpr hc)
  checking := fun _ heq hp => h.checking so rfl (hchecking.mp (Option.some.inj heq ▸ hp))
  found e he := by
    refine ⟨(h.found e he).1, fun x hx hsocket => ?_⟩
    obtain ⟨so₀, heq, hauth⟩ := (h.found e he).2 x hx hsocket
    obtain rfl := Option.some.inj heq
    exact ⟨so', rfl, fun htarget => hmarked (hauth htarget)⟩
  waiting a ha hsocket hw := by
    obtain ⟨so₀, heq, hauth⟩ := h.waiting a ha hsocket hw
    obtain rfl := Option.some.inj heq
    exact ⟨so', rfl, hmarked hauth⟩

/-- Another check starts. -/
theorem Kept.addCheck (h : Kept o me checks emits arrivals) {c : Check}
    (hc : c.socket = o.socket → me.isSome ∧ c.user = o.user)
    (hleft : c.left o.socket = 0) : Kept o me (checks ++ [c]) emits arrivals where
  socket := h.socket
  checked b hb hsocket := by
    obtain hb | hb := List.mem_append.mp hb
    · exact h.checked b hb hsocket
    · obtain rfl := List.mem_singleton.mp hb
      exact hc hsocket
  idle so heq hp := by rw [checksLeft_append, h.idle so heq hp, hleft]
  checking so heq hp := by
    obtain ⟨k, b, hb, htask, hsocket, hphase, hsum⟩ := h.checking so heq hp
    refine ⟨k, b, ?_, htask, hsocket, hphase, by rw [checksLeft_append, hsum, hleft]; rfl⟩
    exact (List.getElem?_append_left (List.getElem?_eq_some_iff.mp hb).1).trans hb
  found := h.found
  waiting := h.waiting

private theorem Kept.checked_modify (h : Kept o me checks emits arrivals) {k : ℕ}
    {phase : CheckPhase}
    {b : Check} (hb : b ∈ checks.modify k fun c => { c with phase })
    (hsocket : b.socket = o.socket) :
    me.isSome ∧ b.user = o.user := by
  obtain ⟨j, hj⟩ := List.getElem?_of_mem hb
  rw [List.getElem?_modify] at hj
  obtain ⟨b₀, hb₀, rfl⟩ := Option.map_eq_some_iff.mp hj
  have hold := h.checked b₀ (List.mem_of_getElem? hb₀)
  split at hsocket <;> split <;> exact hold hsocket

/-- While the handler waits, its check is the only one that has steps left. -/
theorem Kept.unique (h : Kept o (some so) checks emits arrivals) {k : ℕ} {c : Check}
    (hc : checks[k]? = some c) (hleft : c.left o.socket ≠ 0) :
    so.phase = .checking ∧ checksLeft o.socket checks = c.left o.socket := by
  have hle := le_checksLeft o.socket hc
  have hphase : so.phase = .checking := by
    by_contra hne
    have hzero := h.idle so rfl hne
    omega
  obtain ⟨j, b, hb, -, -, -, hone⟩ := h.checking so rfl hphase
  refine ⟨hphase, ?_⟩
  by_cases hj : j = k
  · subst hj
    obtain rfl := Option.some.inj (hc.symm.trans hb)
    exact hone
  · -- Without its check nothing would be left.
    have hsum := checksLeft_modify o.socket hb fun c => { c with phase := .over }
    have hover : ({ b with phase := .over } : Check).left o.socket = 0 := by
      unfold Check.left
      split <;> rfl
    have hget : (checks.modify j fun c => { c with phase := .over })[k]? = some c := by
      rw [List.getElem?_modify, hc]
      simp [hj]
    have hstill := le_checksLeft o.socket hget
    omega

/-- A check that is not the one of the handler goes on. -/
theorem Kept.setCheck (h : Kept o me checks emits arrivals) {k : ℕ} {c : Check}
    (hc : checks[k]? = some c) (phase : CheckPhase) (hleft : c.left o.socket = 0)
    (hleft' : ({ c with phase } : Check).left o.socket = 0) :
    Kept o me (checks.modify k fun c => { c with phase }) emits arrivals := by
  have hsum := checksLeft_modify o.socket hc fun c => { c with phase }
  rw [hleft, hleft', Nat.add_zero, Nat.add_zero] at hsum
  refine ⟨h.socket, fun b hb hsocket => ?_, fun so heq hp => hsum.trans (h.idle so heq hp),
    fun so heq hp => ?_, h.found, h.waiting⟩
  · exact h.checked_modify hb hsocket
  · obtain ⟨j, b, hb, htask, hsocket, hphase, hone⟩ := h.checking so heq hp
    have hj : k ≠ j := by
      rintro rfl
      obtain rfl := Option.some.inj (hc.symm.trans hb)
      rw [Check.left, if_pos ⟨htask, hsocket⟩] at hleft
      exact hphase (CheckPhase.left_eq_zero.mp hleft)
    exact ⟨j, b, by rw [List.getElem?_modify, hb]; simp [hj], htask, hsocket, hphase,
      hsum.trans hone⟩

end Kept

namespace World

/-- What traffic can change about a socket. -/
def about (s : ℕ) (w : World) : Option Socket × List Check × List Emit × List Arrival :=
  (w.sockets[s]?, w.checks, w.emits, w.arrivals)

section About

variable {cfg : Config} {o : Watch} {w w' : World} {s t : ℕ}

/-- What is kept depends on what is about the socket. -/
private theorem Kept.of_about (h : w.Kept o) (habout : w'.about o.socket = w.about o.socket) :
    w'.Kept o := by
  obtain ⟨hsocket, hchecks, hemits, harrivals⟩ : w'.sockets[o.socket]? = w.sockets[o.socket]? ∧
      w'.checks = w.checks ∧ w'.emits = w.emits ∧ w'.arrivals = w.arrivals := by
    simpa [about] using habout
  unfold World.Kept
  rw [hsocket, hchecks, hemits, harrivals]
  exact h

/-- What remains depends on what is about the socket. -/
private theorem remaining_of_about (habout : w'.about s = w.about s) :
    w'.remaining cfg s = w.remaining cfg s := by
  obtain ⟨hsocket, hchecks, -⟩ : w'.sockets[s]? = w.sockets[s]? ∧ w'.checks = w.checks ∧
      w'.emits = w.emits ∧ w'.arrivals = w.arrivals := by
    simpa [about] using habout
  unfold World.remaining
  rw [hsocket, hchecks]

private theorem sockets_modify_self (f : Socket → Socket) :
    (w.modify s f).sockets[s]? = w.sockets[s]?.map f := by
  unfold World.modify
  rw [List.getElem?_modify]
  simp

private theorem about_modify (h : t ≠ s) (f : Socket → Socket) :
    (w.modify t f).about s = w.about s := by
  unfold about World.modify
  rw [List.getElem?_modify]
  simp [h]

private theorem about_disconnect (h : t ≠ s) : (w.disconnect t).about s = w.about s :=
  about_modify h _

private theorem about_reject (h : t ≠ s) (task : Task) : (w.reject task t).about s = w.about s := by
  unfold World.reject
  split
  · exact (about_modify h _).trans (about_disconnect h)
  · exact about_disconnect h
  · exact about_disconnect h
  · exact about_disconnect h
  · rfl

end About

/-- A step keeps the socket and takes its handler no step back; a step of the handler takes it
on. -/
structure Advances (cfg : Config) (o : Watch) (handled : Bool) (w w' : World) : Prop where
  kept : w'.Kept o
  remaining : w.sockets[o.socket]?.isSome →
    w'.remaining cfg o.socket ≤ w.remaining cfg o.socket
  handled : handled = true → w'.remaining cfg o.socket < w.remaining cfg o.socket

section Steps

variable {cfg : Config} {o : Watch} {w w' : World} {so : Socket}

/-- Steps that do not concern the socket. -/
theorem Advances.same (h : w.Kept o) (habout : w'.about o.socket = w.about o.socket) :
    Advances cfg o false w w' where
  kept := h.of_about habout
  remaining _ := (remaining_of_about habout).le
  handled hf := by cases hf

/-- The socket goes on. -/
theorem Advances.update (h : w.Kept o) (hso : w.sockets[o.socket]? = some so) {so' : Socket}
    (hsockets : w'.sockets[o.socket]? = some so') (hchecks : w'.checks = w.checks)
    (hemits : w'.emits = w.emits) (harrivals : w'.arrivals = w.arrivals)
    (hkept : SocketKept o so') (hmarked : so.authenticated = true → so'.authenticated = true)
    (hchecking : so'.phase = .checking ↔ so.phase = .checking)
    (hremaining : so'.remaining cfg (checksLeft o.socket w.checks) <
      so.remaining cfg (checksLeft o.socket w.checks)) : Advances cfg o true w w' := by
  have hlt : w'.remaining cfg o.socket < w.remaining cfg o.socket := by
    unfold World.remaining
    rw [hsockets, hso, hchecks]
    exact hremaining
  refine ⟨?_, fun _ => hlt.le, fun _ => hlt⟩
  unfold World.Kept at h ⊢
  rw [hsockets, hchecks, hemits, harrivals]
  rw [hso] at h
  exact h.update hkept hmarked hchecking

private theorem Kept.socketKept (h : w.Kept o) (hso : w.sockets[o.socket]? = some so) :
    SocketKept o so := SocketServer.Kept.socket h so hso

/-- The handler goes on after joining a room. -/
theorem advances_handleConnection (h : w.Kept o) (hvalid : o.valid w = true)
    (hso : w.sockets[o.socket]? = some so)
    (hstep : w.handleConnection cfg o.socket so = some w') : Advances cfg o true w w' := by
  have hkept := h.socketKept hso
  obtain ⟨⟨⟨⟨-, -⟩, hexp⟩, hsid⟩, hpublicId⟩ : (((w.sessions o.user.sid o.user.publicId = true ∧
      w.accounts o.user.publicId = true) ∧ o.user.unexpired w.now = true) ∧ o.user.sid ≠ "") ∧
      o.user.publicId ≠ "" := by
    simpa [Watch.valid] using hvalid
  have hmarked : ∀ phase, so.phase = phase → so.authenticated = phase.mayAuthenticate ∧
      so.inUserRoom = phase.mayAuthenticate := fun phase hphase =>
    hphase ▸ ⟨hkept.marked, hkept.room⟩
  unfold World.handleConnection at hstep
  split at hstep
  · next hphase =>
    obtain ⟨hauth, hroom⟩ := hmarked _ hphase
    rw [hkept.user, if_neg hsid] at hstep
    obtain rfl := Option.some.inj hstep
    refine .update h hso ((sockets_modify_self _).trans (congrArg _ hso)) rfl rfl rfl
      ⟨hkept.user, hkept.node, hkept.connected, nofun, hauth, hroom⟩ id ?_ ?_
    · simp [hphase]
    · unfold Socket.remaining
      rw [hphase]
      dsimp only
      omega
  · next hphase =>
    obtain ⟨hauth, hroom⟩ := hmarked _ hphase
    rw [hkept.user, if_neg hpublicId] at hstep
    obtain rfl := Option.some.inj hstep
    refine .update h hso ((sockets_modify_self _).trans (congrArg _ hso)) rfl rfl rfl
      ⟨hkept.user, hkept.node, hkept.connected, nofun, hauth, hroom⟩ id ?_ ?_
    · simp [hphase]
    · unfold Socket.remaining
      rw [hphase]
      dsimp only
      omega
  · next hphase =>
    obtain ⟨hauth, hroom⟩ := hmarked _ hphase
    obtain rfl := Option.some.inj hstep
    refine .update h hso ((sockets_modify_self _).trans (congrArg _ hso)) rfl rfl rfl
      ⟨hkept.user, hkept.node, hkept.connected, nofun, hauth, hroom⟩ id ?_ ?_
    · simp [hphase]
    · unfold Socket.remaining
      rw [hphase]
      dsimp only
      omega
  · next hphase =>
    obtain ⟨hauth, hroom⟩ := hmarked _ hphase
    rw [if_pos hkept.connected, hkept.user, if_pos hexp] at hstep
    obtain rfl := Option.some.inj hstep
    refine .update h hso ((sockets_modify_self _).trans (congrArg _ hso)) rfl rfl rfl
      ⟨hkept.user, hkept.node, hkept.connected, nofun, hauth, hroom⟩ id (by simp [hphase]) ?_
    unfold Socket.remaining
    rw [hphase]
    exact Nat.one_pos
  all_goals cases hstep

/-- A node answers the count of the handler. -/
theorem advances_nodeCounts (h : w.Kept o) {node : ℕ} (hso : w.sockets[o.socket]? = some so)
    (hstep : w.nodeCounts o.socket node so = some w') : Advances cfg o true w w' := by
  have hkept := h.socketKept hso
  unfold World.nodeCounts at hstep
  split at hstep
  · next hphase =>
    obtain ⟨hcounting, hnode⟩ := hphase
    obtain rfl := Option.some.inj hstep
    refine .update h hso ((sockets_modify_self _).trans (congrArg _ hso)) rfl rfl rfl
      ⟨hkept.user, hkept.node, hkept.connected, hkept.open_, hkept.marked, hkept.room⟩ id .rfl ?_
    have hlt : (so.left.filter (· ≠ node)).length < so.left.length :=
      List.length_filter_lt_length_iff_exists.mpr ⟨node, hnode, by simp⟩
    unfold Socket.remaining
    rw [hcounting]
    dsimp only
    omega
  · cases hstep

/-- The count has returned, within the limit, and the check starts. -/
theorem advances_countReturns (h : w.Kept o) (hso : w.sockets[o.socket]? = some so)
    (hlimit : so.found.length ≤ cfg.connectionLimit)
    (hstep : w.countReturns cfg o.socket so = some w') : Advances cfg o true w w' := by
  have hkept := h.socketKept hso
  unfold World.countReturns at hstep
  split at hstep
  · next hphase =>
    obtain ⟨hcounting, hleft⟩ := hphase
    obtain rfl := Option.some.inj hstep
    have hzero : checksLeft o.socket w.checks = 0 :=
      SocketServer.Kept.idle h so hso (by rw [hcounting]; nofun)
    have hnew : Check.left o.socket ⟨.connection, o.socket, so.user, .expiry⟩ = 4 :=
      if_pos ⟨rfl, rfl⟩
    have hsockets :
        (w.modify o.socket fun so => { so with phase := .checking }).sockets[o.socket]? =
        some { so with phase := .checking } := (sockets_modify_self _).trans (congrArg _ hso)
    have hlt : ((w.modify o.socket fun so => { so with phase := .checking }).startCheck .connection
        o.socket so.user).remaining cfg o.socket < w.remaining cfg o.socket := by
      unfold World.remaining World.startCheck
      rw [hsockets, hso]
      change 1 + checksLeft o.socket (w.checks ++ _) < so.remaining cfg _
      rw [checksLeft_append, hzero, hnew]
      unfold Socket.remaining
      rw [hcounting, hleft]
      exact Nat.lt_succ_self 5
    refine ⟨?_, fun _ => hlt.le, fun _ => hlt⟩
    have hold : SocketServer.Kept o (some so) w.checks w.emits w.arrivals := hso ▸ h
    unfold World.Kept World.startCheck
    rw [hsockets]
    refine ⟨fun _ heq => ?_, fun c hc hsocket => ?_, fun _ heq hp => ?_, fun _ _ _ => ?_,
      fun e he => ?_, fun a ha hsocket hw => ?_⟩
    · obtain rfl := Option.some.inj heq
      refine ⟨hkept.user, hkept.node, hkept.connected, nofun, ?_, ?_⟩
      · exact hkept.marked.trans (by rw [hcounting]; rfl)
      · exact hkept.room.trans (by rw [hcounting]; rfl)
    · obtain hc | hc := List.mem_append.mp hc
      · exact ⟨rfl, (hold.checked c hc hsocket).2⟩
      · obtain rfl := List.mem_singleton.mp hc
        exact ⟨rfl, hkept.user⟩
    · obtain rfl := Option.some.inj heq
      exact absurd rfl hp
    · refine ⟨w.checks.length, ⟨.connection, o.socket, so.user, .expiry⟩,
        List.getElem?_concat_length, rfl, rfl, nofun, ?_⟩
      change checksLeft o.socket (w.checks ++ _) = _
      rw [checksLeft_append, hzero, Nat.zero_add]
    · refine ⟨(hold.found e he).1, fun x hx hsocket => ?_⟩
      obtain ⟨so₀, heq, hauth⟩ := (hold.found e he).2 x hx hsocket
      obtain rfl := Option.some.inj heq
      exact ⟨_, rfl, hauth⟩
    · obtain ⟨so₀, heq, hauth⟩ := hold.waiting a ha hsocket hw
      obtain rfl := Option.some.inj heq
      exact ⟨_, rfl, hauth⟩
  · cases hstep

/-- A check that is not the one of the handler starts. -/
theorem advances_startCheck (h : w.Kept o) (task : Task) (s : ℕ) (user : DecodedUser)
    (hs : s = o.socket → w.sockets[o.socket]?.isSome ∧ user = o.user)
    (htask : s = o.socket → task ≠ .connection) :
    Advances cfg o false w (w.startCheck task s user) := by
  have hleft : Check.left o.socket ⟨task, s, user, .expiry⟩ = 0 :=
    if_neg fun hc => htask hc.2 hc.1
  refine ⟨SocketServer.Kept.addCheck h hs hleft, fun _ => ?_, nofun⟩
  unfold World.remaining World.startCheck
  rw [checksLeft_append, hleft]
  exact le_rfl

/-- A session of a user is validated: the watched socket is marked. -/
theorem advances_validate (h : w.Kept o) {task : Task} {s : ℕ} (hso : w.sockets[s]? = some so)
    {authenticated : Bool} (hs : s = o.socket → authenticated = true) (htask : task ≠ .connection) :
    Advances cfg o false w (w.validate task s so.user authenticated) := by
  unfold World.validate
  split
  · refine advances_startCheck h task s so.user (fun hs => ?_) fun _ => htask
    subst hs
    exact ⟨hso ▸ rfl, (h.socketKept hso).user⟩
  · next hauth => exact .same h (about_reject (fun heq => hauth (hs heq)) task)

/-- What a check allows concerns its own socket, and only the check of the handler changes it. -/
theorem about_accept {task : Task} {s t : ℕ} (h : s ≠ t ∨ task ≠ .connection) (so : Socket) :
    (w.accept task s so).about t = w.about t := by
  unfold World.accept
  split
  · obtain h | h := h
    · split
      · rfl
      · split
        · exact about_modify h _
        · exact about_modify h _
    · exact absurd rfl h
  · split <;> rfl
  · rfl
  · split <;> rfl

/-- An advance does not see what is not about the socket. -/
theorem Advances.about {handled : Bool} {w'' : World} (h : Advances cfg o handled w w')
    (habout : w''.about o.socket = w'.about o.socket) : Advances cfg o handled w w'' := by
  have hremaining : w''.remaining cfg o.socket = w'.remaining cfg o.socket :=
    remaining_of_about habout
  exact ⟨h.kept.of_about habout, fun hso => hremaining ▸ h.remaining hso,
    fun hh => hremaining ▸ h.handled hh⟩

/-- A check that is not the one of the handler goes on or ends. -/
theorem advances_setOther (h : w.Kept o) {k : ℕ} {c : Check} (hc : w.checks[k]? = some c)
    (hother : ¬(c.task = .connection ∧ c.socket = o.socket)) (phase : CheckPhase) :
    Advances cfg o false w (w.setCheck k phase) := by
  have hleft : c.left o.socket = 0 := if_neg hother
  have hleft' : ({ c with phase } : Check).left o.socket = 0 := if_neg hother
  refine ⟨SocketServer.Kept.setCheck h hc phase hleft hleft', fun _ => ?_, nofun⟩
  have hsum := checksLeft_modify o.socket hc fun c => { c with phase }
  rw [hleft, hleft', Nat.add_zero, Nat.add_zero] at hsum
  unfold World.remaining World.setCheck
  rw [hsum]

/-- The check of the handler goes on. -/
theorem advances_setMine (h : w.Kept o) {k : ℕ} {c : Check} (hc : w.checks[k]? = some c)
    (htask : c.task = .connection) (hsocket : c.socket = o.socket)
    (hso : w.sockets[o.socket]? = some so) {phase : CheckPhase}
    (hphase : phase.left + 1 = c.phase.left) (hnot : phase ≠ .over) :
    Advances cfg o true w (w.setCheck k phase) := by
  have hold : SocketServer.Kept o (some so) w.checks w.emits w.arrivals := hso ▸ h
  have hleft : c.left o.socket = c.phase.left := if_pos ⟨htask, hsocket⟩
  have hleft' : ({ c with phase } : Check).left o.socket = phase.left := if_pos ⟨htask, hsocket⟩
  obtain ⟨hchecking, hone⟩ := hold.unique hc (by omega)
  have hsum := checksLeft_modify o.socket hc fun c => { c with phase }
  have hlt : (w.setCheck k phase).remaining cfg o.socket < w.remaining cfg o.socket := by
    unfold World.remaining World.setCheck
    rw [hso]
    change so.remaining cfg _ < so.remaining cfg _
    unfold Socket.remaining
    rw [hchecking]
    dsimp only
    omega
  refine ⟨?_, fun _ => hlt.le, fun _ => hlt⟩
  unfold World.Kept World.setCheck
  rw [hso]
  refine ⟨hold.socket, fun b hb hs => hold.checked_modify hb hs, fun so' heq hp => ?_,
    fun so' heq hp => ?_, hold.found, hold.waiting⟩
  · obtain rfl := Option.some.inj heq
    exact absurd hchecking hp
  · refine ⟨k, { c with phase }, ?_, htask, hsocket, hnot, ?_⟩
    · rw [List.getElem?_modify, hc]
      simp
    · change checksLeft o.socket (w.checks.modify k fun c => { c with phase }) =
        ({ c with phase } : Check).left o.socket
      omega

/-- The handler goes on after its check. -/
theorem accept_connection {s : ℕ} (hphase : so.phase = .checking)
    (hconnected : so.connected = true) :
    w.accept .connection s so = w.modify s fun so => { so with
      authenticated := true, inUserRoom := true, phase := .joiningUser } := by
  unfold World.accept
  dsimp only
  rw [if_neg (not_not_intro hphase), if_pos hconnected]

/-- The check of the handler passes. -/
theorem advances_pass (h : w.Kept o) {k : ℕ} {c : Check} (hc : w.checks[k]? = some c)
    (htask : c.task = .connection) (hsocket : c.socket = o.socket)
    (hso : w.sockets[o.socket]? = some so) (hphase : c.phase = .expiryAgain) (r : Record) :
    Advances cfg o true w (((w.setCheck k .over).record r).accept .connection o.socket so) := by
  have hold : SocketServer.Kept o (some so) w.checks w.emits w.arrivals := hso ▸ h
  have hkept := h.socketKept hso
  have hleft : c.left o.socket = 1 := (if_pos ⟨htask, hsocket⟩).trans (by rw [hphase]; rfl)
  have hleft' : ({ c with phase := .over } : Check).left o.socket = 0 := if_pos ⟨htask, hsocket⟩
  obtain ⟨hchecking, hone⟩ := hold.unique hc (by omega)
  have hsum := checksLeft_modify o.socket hc fun c => { c with phase := .over }
  have hzero : checksLeft o.socket (w.checks.modify k fun c => { c with phase := .over }) = 0 := by
    omega
  rw [accept_connection hchecking hkept.connected]
  have hsockets : (((w.setCheck k .over).record r).modify o.socket fun so => { so with
        authenticated := true, inUserRoom := true, phase := .joiningUser }).sockets[o.socket]? =
      some { so with authenticated := true, inUserRoom := true, phase := .joiningUser } :=
    (sockets_modify_self _).trans (congrArg (Option.map _) hso)
  have hlt : (((w.setCheck k .over).record r).modify o.socket fun so => { so with
        authenticated := true, inUserRoom := true, phase := .joiningUser }).remaining cfg o.socket <
      w.remaining cfg o.socket := by
    unfold World.remaining
    rw [hsockets, hso]
    change 1 < so.remaining cfg _
    unfold Socket.remaining
    rw [hchecking]
    dsimp only
    omega
  refine ⟨?_, fun _ => hlt.le, fun _ => hlt⟩
  unfold World.Kept
  rw [hsockets]
  refine ⟨fun so' heq => ?_, fun b hb hs => ⟨rfl, (hold.checked_modify hb hs).2⟩,
    fun _ _ _ => hzero,
    fun so' heq hp => ?_, fun e he => ?_, fun a ha hs hw => ?_⟩
  · obtain rfl := Option.some.inj heq
    exact ⟨hkept.user, hkept.node, hkept.connected, nofun, rfl, rfl⟩
  · obtain rfl := Option.some.inj heq
    cases hp
  · exact ⟨(hold.found e he).1, fun x hx hs => ⟨_, rfl, fun _ => rfl⟩⟩
  · exact ⟨_, rfl, rfl⟩

/-- The stores answer positively for the watched socket. -/
theorem check_sound (h : w.Kept o) {k : ℕ} {c : Check} (hc : w.checks[k]? = some c)
    (hvalid : o.valid w = true) (hsocket : c.socket = o.socket) :
    (c.user.sid ≠ "" ∧ c.user.unexpired w.now = true) ∧
      w.sessions c.user.sid c.user.publicId = true ∧ w.accounts c.user.publicId = true := by
  obtain ⟨⟨⟨⟨hsession, haccount⟩, hexp⟩, hsid⟩, -⟩ :
      (((w.sessions o.user.sid o.user.publicId = true ∧ w.accounts o.user.publicId = true) ∧
      o.user.unexpired w.now = true) ∧ o.user.sid ≠ "") ∧ o.user.publicId ≠ "" := by
    simpa [Watch.valid] using hvalid
  rw [(SocketServer.Kept.checked h c (List.mem_of_getElem? hc) hsocket).2]
  exact ⟨⟨hsid, hexp⟩, hsession, haccount⟩

/-- The check of the handler runs. -/
theorem advances_runMine (h : w.Kept o) {k : ℕ} {c : Check} (hc : w.checks[k]? = some c)
    (htask : c.task = .connection) (hsocket : c.socket = o.socket)
    (hso : w.sockets[o.socket]? = some so) (hvalid : o.valid w = true)
    (hstep : w.runCheck k c so = some w') : Advances cfg o true w w' := by
  obtain ⟨hfirst, hsession, haccount⟩ := check_sound h hc hvalid hsocket
  unfold World.runCheck at hstep
  split at hstep
  · next hphase =>
    rw [if_pos hfirst] at hstep
    obtain rfl := Option.some.inj hstep
    exact advances_setMine h hc htask hsocket hso (by rw [hphase]; rfl) nofun
  · next hphase =>
    rw [if_pos hsession] at hstep
    obtain rfl := Option.some.inj hstep
    have hnext : Advances cfg o true w (w.setCheck k .account) :=
      advances_setMine h hc htask hsocket hso (by rw [hphase]; rfl) nofun
    exact hnext.about rfl
  · next hphase =>
    rw [if_pos haccount] at hstep
    obtain rfl := Option.some.inj hstep
    have hnext : Advances cfg o true w (w.setCheck k .expiryAgain) :=
      advances_setMine h hc htask hsocket hso (by rw [hphase]; rfl) nofun
    exact hnext.about rfl
  · next hphase =>
    rw [if_pos hfirst.2, htask, hsocket] at hstep
    obtain rfl := Option.some.inj hstep
    exact advances_pass h hc htask hsocket hso hphase _
  · cases hstep

/-- Another check runs; of the watched socket, it does not fail. -/
theorem advances_runOther (h : w.Kept o) {k : ℕ} {c : Check} (hc : w.checks[k]? = some c)
    (hother : ¬(c.task = .connection ∧ c.socket = o.socket))
    (hvalid : c.socket = o.socket → o.valid w = true) (hstep : w.runCheck k c so = some w') :
    Advances cfg o false w w' := by
  have hsound := fun hsocket => check_sound h hc (hvalid hsocket) hsocket
  have hfailed : c.socket ≠ o.socket → Advances cfg o false w
      ((w.setCheck k .over).reject c.task c.socket) := fun hne =>
    (advances_setOther h hc hother .over).about (about_reject hne c.task)
  unfold World.runCheck at hstep
  split at hstep
  · split at hstep
    · obtain rfl := Option.some.inj hstep
      exact advances_setOther h hc hother .session
    · next hcond =>
      obtain rfl := Option.some.inj hstep
      exact hfailed fun hsocket => hcond (hsound hsocket).1
  · split at hstep
    · obtain rfl := Option.some.inj hstep
      exact (advances_setOther h hc hother .account).about rfl
    · next hcond =>
      obtain rfl := Option.some.inj hstep
      exact hfailed fun hsocket => hcond (hsound hsocket).2.1
  · split at hstep
    · obtain rfl := Option.some.inj hstep
      exact (advances_setOther h hc hother .expiryAgain).about rfl
    · next hcond =>
      obtain rfl := Option.some.inj hstep
      exact hfailed fun hsocket => hcond (hsound hsocket).2.2
  · split at hstep
    · obtain rfl := Option.some.inj hstep
      refine (advances_setOther h hc hother .over).about (about_accept ?_ so)
      by_cases hsocket : c.socket = o.socket
      · exact .inr fun htask => hother ⟨htask, hsocket⟩
      · exact .inl hsocket
    · next hcond =>
      obtain rfl := Option.some.inj hstep
      exact hfailed fun hsocket => hcond (hsound hsocket).1.2
  · cases hstep

/-- Two advances are one. -/
theorem Advances.trans {w'' : World} (h : Advances cfg o false w w')
    (h' : Advances cfg o false w' w'')
    (hsome : w.sockets[o.socket]?.isSome → w'.sockets[o.socket]?.isSome) :
    Advances cfg o false w w'' where
  kept := h'.kept
  remaining hso := (h'.remaining (hsome hso)).trans (h.remaining hso)
  handled := nofun

/-- The socket changes in ways that do not matter here. -/
theorem Advances.touch (h : w.Kept o) (hso : w.sockets[o.socket]? = some so) {so' : Socket}
    (hsockets : w'.sockets[o.socket]? = some so') (hchecks : w'.checks = w.checks)
    (hemits : w'.emits = w.emits) (harrivals : w'.arrivals = w.arrivals)
    (hkept : SocketKept o so') (hmarked : so'.authenticated = so.authenticated)
    (hphase : so'.phase = so.phase) (hleft : so'.left = so.left) : Advances cfg o false w w' := by
  refine ⟨?_, fun _ => ?_, nofun⟩
  · unfold World.Kept at h ⊢
    rw [hsockets, hchecks, hemits, harrivals]
    rw [hso] at h
    exact h.update hkept hmarked.trans (by rw [hphase])
  · unfold World.remaining Socket.remaining
    rw [hsockets, hso, hchecks]
    change Socket.remaining cfg _ so' ≤ Socket.remaining cfg _ so
    unfold Socket.remaining
    rw [hphase, hleft]

/-- An event waits, of a socket that is marked. -/
theorem advances_arrive (h : w.Kept o) {s : ℕ} {waiting : Bool}
    (hs : s = o.socket → waiting = true →
      ∃ so, w.sockets[o.socket]? = some so ∧ so.authenticated = true) :
    Advances cfg o false w (w.arrive s waiting) := by
  refine ⟨⟨h.socket, h.checked, h.idle, h.checking, h.found, fun a ha hsocket hw => ?_⟩,
    fun _ => le_rfl, nofun⟩
  obtain ha | ha := List.mem_append.mp ha
  · exact SocketServer.Kept.waiting h a ha hsocket hw
  · obtain rfl := List.mem_singleton.mp ha
    exact hs hsocket hw

/-- A client event of the watched socket is within the limit. -/
theorem advances_eventArrives (h : w.Kept o) {s : ℕ} (hso : w.sockets[s]? = some so)
    (hlimit : s = o.socket → (w.countEvent cfg so).1 ≤ cfg.eventMax) :
    Advances cfg o false w (w.eventArrives cfg s so) := by
  have hrecord : ∀ r, Advances cfg o false w (w.record r) := fun _ => .same h rfl
  unfold World.eventArrives
  dsimp only
  split
  · exact (hrecord _).trans (advances_arrive (hrecord _).kept nofun) id
  · next hready =>
    have hready : so.phase = .ready := not_not.mp hready
    by_cases hs : s = o.socket
    · subst hs
      have hkept := h.socketKept hso
      have hauth : so.authenticated = true := hkept.marked.trans (by rw [hready]; rfl)
      have hcond : ¬(so.connected = false ∨ cfg.eventMax < (w.countEvent cfg so).1) := by
        rintro (hc | hc)
        · exact absurd (hkept.connected.symm.trans hc) nofun
        · exact absurd (hlimit rfl) (not_le.mpr hc)
      rw [if_neg hcond]
      have hcount :
          Advances cfg o false w ((w.record (.eventArrived w.arrivals.length o.socket)).modify
          o.socket fun so' => { so' with
            eventCount := (w.countEvent cfg so).1
            eventWindowStartedAt := (w.countEvent cfg so).2 }) :=
        .touch h hso ((sockets_modify_self _).trans (congrArg (Option.map _) hso)) rfl rfl rfl
          ⟨hkept.user, hkept.node, hkept.connected, hkept.open_, hkept.marked, hkept.room⟩
          rfl rfl rfl
      refine hcount.trans (advances_arrive hcount.kept fun _ _ => ?_) fun _ => ?_
      · exact ⟨_, (sockets_modify_self _).trans (congrArg (Option.map _) hso), hauth⟩
      · rw [sockets_modify_self]
        exact congrArg Option.isSome (congrArg (Option.map _) hso)
    · have hcount : Advances cfg o false w ((w.record (.eventArrived w.arrivals.length s)).modify
          s fun so' => { so' with
            eventCount := (w.countEvent cfg so).1
            eventWindowStartedAt := (w.countEvent cfg so).2 }) := .same h (about_modify hs _)
      have hsome : (w.modify s fun so' => { so' with
          eventCount := (w.countEvent cfg so).1
          eventWindowStartedAt := (w.countEvent cfg so).2 }).sockets[o.socket]? =
          w.sockets[o.socket]? := congrArg Prod.fst (about_modify hs _)
      split
      · have hgone := hcount.about (about_disconnect hs)
        refine hgone.trans (advances_arrive hgone.kept nofun) fun hso => ?_
        exact (congrArg Option.isSome ((congrArg Prod.fst (about_disconnect hs)).trans hsome)).trans
          hso
      · exact hcount.trans (advances_arrive hcount.kept fun heq => absurd heq hs) fun hso =>
          (congrArg Option.isSome hsome).trans hso

/-- A budget answer advances the socket or leaves it. -/
private theorem advances_budget (h : w.Kept o) {n : ℕ} {a : Arrival} (ha : w.arrivals[n]? = some a)
    (hso : w.sockets[a.socket]? = some so) {allowed : Bool}
    (hwaiting : a.waiting = true) (hallowed : a.socket = o.socket → allowed = true) :
    Advances cfg o false w (w.budget n a so allowed) := by
  have hset : Advances cfg o false w { w with arrivals := w.arrivals.set n ⟨a.socket, false⟩ } := by
    refine ⟨⟨h.socket, h.checked, h.idle, h.checking, h.found, fun b hb hsocket hw => ?_⟩,
      fun _ => le_rfl, nofun⟩
    obtain hb | rfl := List.mem_or_eq_of_mem_set hb
    · exact SocketServer.Kept.waiting h b hb hsocket hw
    · cases hw
  unfold World.budget
  dsimp only
  split
  · refine hset.trans (advances_validate hset.kept hso (fun hsocket => ?_) nofun) id
    obtain ⟨so₀, hso₀, hauth⟩ :=
      SocketServer.Kept.waiting h a (List.mem_of_getElem? ha) hsocket hwaiting
    rw [hsocket, hso₀] at hso
    exact Option.some.inj hso ▸ hauth
  · next hnot =>
    exact hset.about (about_disconnect fun hsocket => hnot (hallowed hsocket))

/-- An emit leaves the socket. -/
private theorem advances_emit (h : w.Kept o) (target : Option String) :
    Advances cfg o false w (w.emit cfg o.server target) := by
  refine ⟨⟨h.socket, h.checked, h.idle, h.checking, fun e he => ?_, h.waiting⟩,
    fun _ => le_rfl, nofun⟩
  obtain he | he := List.mem_append.mp he
  · exact SocketServer.Kept.found h e he
  · obtain rfl := List.mem_singleton.mp he
    exact ⟨rfl, fun x hx => absurd hx List.not_mem_nil⟩

/-- What an emit finds and has not validated changes. -/
theorem advances_setEmit (h : w.Kept o) {n : ℕ} {e e' : Emit} (he : w.emits[n]? = some e)
    (hnode : e'.node = e.node) (hfound : ∀ x ∈ e'.found, x.1 = o.socket → x ∈ e.found ∨
      ∃ so, w.sockets[o.socket]? = some so ∧ (e'.target.isSome → so.authenticated = true))
    (htarget : e'.target = e.target) :
    Advances cfg o false w { w with emits := w.emits.set n e' } := by
  refine ⟨⟨h.socket, h.checked, h.idle, h.checking, fun b hb => ?_, h.waiting⟩,
    fun _ => le_rfl, nofun⟩
  obtain hb | rfl := List.mem_or_eq_of_mem_set hb
  · exact SocketServer.Kept.found h b hb
  · obtain ⟨hserver, hold⟩ := SocketServer.Kept.found h e (List.mem_of_getElem? he)
    refine ⟨hnode.trans hserver, fun x hx hsocket => ?_⟩
    obtain hx | hx := hfound x hx hsocket
    · rw [htarget]
      exact hold x hx hsocket
    · exact hx

/-- An answer of a node leaves the socket. -/
private theorem advances_nodeAnswers (h : w.Kept o) {n node : ℕ} {e : Emit}
    (he : w.emits[n]? = some e)
    (hstep : w.nodeAnswers n node e = some w') : Advances cfg o false w w' := by
  unfold World.nodeAnswers at hstep
  split at hstep
  · obtain rfl := Option.some.inj hstep
    refine advances_setEmit h he rfl (fun x hx hsocket => ?_) rfl
    obtain hx | hx := List.mem_append.mp hx
    · exact .inl hx
    · obtain ⟨⟨t, so⟩, hlocal, rfl⟩ := List.mem_map.mp hx
      obtain ⟨⟨so', t'⟩, hmem, heq⟩ := List.mem_map.mp hlocal
      obtain ⟨rfl, rfl⟩ : t' = t ∧ so' = so := by simpa using heq
      obtain ⟨hget, hp⟩ := List.mem_filter.mp hmem
      have hso : w.sockets[o.socket]? = some so' := hsocket ▸ List.mem_zipIdx_iff_getElem?.mp hget
      have hkept := h.socketKept hso
      refine .inr ⟨so', hso, fun htarget => ?_⟩
      obtain ⟨userPublicId, huser⟩ : ∃ userPublicId, e.target = some userPublicId :=
        Option.isSome_iff_exists.mp htarget
      have hroom : so'.inUserRoom = true := by
        simp only [inRoom, huser, Option.all_some, Bool.and_eq_true] at hp
        exact hp.2.1
      exact hkept.marked.trans (hkept.room.symm.trans hroom)
  · cases hstep

/-- The checks before a delivery leave the socket when they do not disturb it. -/
private theorem advances_emitValidates (h : w.Kept o) {n : ℕ} {e : Emit} (he : w.emits[n]? = some e)
    (hundisturbed : o.undisturbed w (.emitValidates n) = true)
    (hstep : w.emitValidates n e = some w') : Advances cfg o false w w' := by
  unfold World.emitValidates at hstep
  split at hstep
  · next s copy found hleft hfound =>
    obtain ⟨so, hso, rfl⟩ := Option.map_eq_some_iff.mp hstep
    have hset : Advances cfg o false w { w with emits := w.emits.set n { e with found } } :=
      advances_setEmit h he rfl (fun x hx _ => .inl (hfound ▸ List.mem_cons_of_mem _ hx)) rfl
    dsimp only
    split
    · refine hset.trans (advances_validate hset.kept hso (fun hsocket => ?_) nofun) id
      obtain ⟨hserver, hmarked⟩ := SocketServer.Kept.found h e (List.mem_of_getElem? he)
      rw [hsocket] at hso
      have hlocal : (so.node == e.node) = true := by
        rw [(h.socketKept hso).node, hserver]
        exact BEq.rfl
      rw [if_pos hlocal]
      cases htarget : e.target with
      | none =>
        unfold Watch.undisturbed at hundisturbed
        dsimp only at hundisturbed
        rw [he, hso, Option.all_some, Option.all_some, htarget, hfound] at hundisturbed
        simpa [hsocket] using hundisturbed
      | some userPublicId =>
        obtain ⟨so₀, hso₀, hauth⟩ := hmarked (s, copy) (hfound ▸ List.mem_cons_self) hsocket
        obtain rfl := Option.some.inj (hso.symm.trans hso₀)
        exact hauth (by rw [htarget]; rfl)
    · exact hset
  · cases hstep

/-- A connection leaves the others, and makes the watched one. -/
private theorem advances_connects (h : w.Kept o) {node : ℕ} {user : DecodedUser}
    (hwatch : w.sockets.length = o.socket → node = o.server ∧ user = o.user)
    (hstep : w.connects cfg node user = some w') : Advances cfg o false w w' := by
  unfold World.connects at hstep
  split at hstep
  · obtain rfl := Option.some.inj hstep
    by_cases hlength : w.sockets.length = o.socket
    · obtain ⟨rfl, rfl⟩ := hwatch hlength
      have hnone : w.sockets[o.socket]? = none := List.getElem?_eq_none hlength.le
      have hold : SocketServer.Kept o none w.checks w.emits w.arrivals := hnone ▸ h
      have hzero : checksLeft o.socket w.checks = 0 := by
        refine List.sum_eq_zero fun n hn => ?_
        obtain ⟨c, hc, rfl⟩ := List.mem_map.mp hn
        exact if_neg fun hmine => absurd (hold.checked c hc hmine.2).1 nofun
      refine ⟨?_, fun hsome => ?_, nofun⟩
      · unfold World.Kept
        dsimp only
        rw [← hlength, List.getElem?_concat_length]
        refine ⟨fun so heq => ?_, fun c hc hsocket => ⟨rfl, ?_⟩, fun _ _ _ => ?_,
          fun so heq hp => ?_, fun e he => ?_, fun a ha hsocket hw => ?_⟩
        · obtain rfl := Option.some.inj heq
          exact ⟨rfl, rfl, rfl, nofun, rfl, rfl⟩
        · exact (hold.checked c hc hsocket).2
        · exact hzero
        · obtain rfl := Option.some.inj heq
          cases hp
        · refine ⟨(hold.found e he).1, fun x hx hsocket => ?_⟩
          obtain ⟨so, heq, -⟩ := (hold.found e he).2 x hx hsocket
          cases heq
        · obtain ⟨so, heq, -⟩ := hold.waiting a ha hsocket hw
          cases heq
      · rw [hnone] at hsome
        cases hsome
    · refine .same h ?_
      have hsame : ∀ so : Socket, (w.sockets ++ [so])[o.socket]? = w.sockets[o.socket]? := by
        intro so
        rw [List.getElem?_append]
        split
        · rfl
        · rw [List.getElem?_eq_none (by simp; omega), List.getElem?_eq_none (by omega)]
      exact Prod.ext (hsame _) rfl
  · cases hstep

/-- The handlers of other sockets. -/
theorem advances_otherHandler (h : w.Kept o) {s : ℕ} (hs : s ≠ o.socket)
    (hstep : w.handleConnection cfg s so = some w') : Advances cfg o false w w' := by
  unfold World.handleConnection at hstep
  split at hstep
  · split at hstep <;> obtain rfl := Option.some.inj hstep
    · exact .same h ((about_modify hs _).trans (about_disconnect hs))
    · exact .same h (about_modify hs _)
  · split at hstep <;> obtain rfl := Option.some.inj hstep
    · exact .same h ((about_modify hs _).trans (about_disconnect hs))
    · exact .same h (about_modify hs _)
  · obtain rfl := Option.some.inj hstep
    exact .same h (about_modify hs _)
  · split at hstep <;> obtain rfl := Option.some.inj hstep
    · split
      · exact .same h (about_modify hs _)
      · exact .same h ((about_modify hs _).trans (about_disconnect hs))
    · exact .same h (about_modify hs _)
  all_goals cases hstep

/-- A count for another socket leaves this one. -/
private theorem advances_otherCount (h : w.Kept o) {s node : ℕ} (hs : s ≠ o.socket)
    (hstep : w.nodeCounts s node so = some w') : Advances cfg o false w w' := by
  unfold World.nodeCounts at hstep
  split at hstep
  · obtain rfl := Option.some.inj hstep
    exact .same h (about_modify hs _)
  · cases hstep

/-- A returned count for another socket leaves this one. -/
private theorem advances_otherReturn (h : w.Kept o) {s : ℕ} (hs : s ≠ o.socket)
    (hstep : w.countReturns cfg s so = some w') : Advances cfg o false w w' := by
  unfold World.countReturns at hstep
  split at hstep
  · split at hstep <;> obtain rfl := Option.some.inj hstep
    · have hmodify : Advances cfg o false w (w.modify s fun so => { so with phase := .checking }) :=
        .same h (about_modify hs _)
      exact hmodify.trans (advances_startCheck hmodify.kept _ _ _ (fun heq => absurd heq hs)
        fun heq => absurd heq hs) fun hso =>
          (congrArg (fun x => x.1.isSome) (about_modify hs _)).trans hso
    · exact .same h ((about_modify hs _).trans (about_disconnect hs))
  · cases hstep

/-- The handler goes on with its own checks and is left alone by the others. -/
private theorem advances_runCheck (h : w.Kept o) {k : ℕ} {c : Check}
    (hc : w.checks[k]? = some c) (hso : w.sockets[c.socket]? = some so)
    (hvalid : c.socket = o.socket → o.valid w = true) (hstep : w.runCheck k c so = some w') :
    Advances cfg o (o.handles w (.checkRuns k)) w w' := by
  by_cases hmine : c.task = .connection ∧ c.socket = o.socket
  · have hown : o.handles w (.checkRuns k) = true := by simp [Watch.handles, hc, hmine]
    rw [hown]
    exact advances_runMine h hc hmine.1 hmine.2 (hmine.2 ▸ hso) (hvalid hmine.2) hstep
  · have hother : o.handles w (.checkRuns k) = false := by
      simpa [Watch.handles, hc] using hmine
    rw [hother]
    exact advances_runOther h hc hmine hvalid hstep

/-- One step of traffic. -/
theorem Kept.step (h : w.Kept o) (hvalid : w.sockets.length ≤ o.socket ∨ o.valid w = true)
    {e : Event} (hundisturbed : o.undisturbed w e = true) (hstep : o.step cfg w e = some w') :
    Advances cfg o (o.handles w e) w w' := by
  unfold Watch.step at hstep
  split at hstep
  case isFalse => cases hstep
  next hpermits =>
  obtain ⟨hstep, -⟩ := Option.filter_eq_some_iff.mp hstep
  have hlive : ∀ {so : Socket}, w.sockets[o.socket]? = some so → o.valid w = true := fun hso =>
    hvalid.resolve_left fun hle => by
      rw [List.getElem?_eq_none hle] at hso
      cases hso
  unfold World.step at hstep
  cases e with
  | connects node user =>
    refine advances_connects h (fun hlength => ?_) hstep
    simpa [Watch.permits, hlength] using hpermits
  | disconnects s =>
    obtain rfl := Option.some.inj hstep
    exact .same h (about_disconnect (by simpa [Watch.permits] using hpermits))
  | continues s =>
    obtain ⟨so, hso, hstep⟩ := Option.bind_eq_some_iff.mp hstep
    by_cases hs : s = o.socket
    · subst hs
      simpa [Watch.handles] using advances_handleConnection h (hlive hso) hso hstep
    · simpa [Watch.handles, hs] using advances_otherHandler h hs hstep
  | nodeCounts s node =>
    obtain ⟨so, hso, hstep⟩ := Option.bind_eq_some_iff.mp hstep
    by_cases hs : s = o.socket
    · subst hs
      simpa [Watch.handles] using advances_nodeCounts h hso hstep
    · simpa [Watch.handles, hs] using advances_otherCount h hs hstep
  | countReturns s =>
    obtain ⟨so, hso, hstep⟩ := Option.bind_eq_some_iff.mp hstep
    by_cases hs : s = o.socket
    · subst hs
      have hlimit : so.found.length ≤ cfg.connectionLimit := by
        simpa [Watch.permits, hso] using hpermits
      simpa [Watch.handles] using advances_countReturns h hso hlimit hstep
    · simpa [Watch.handles, hs] using advances_otherReturn h hs hstep
  | countFails s =>
    obtain ⟨so, hso, hstep⟩ := Option.bind_eq_some_iff.mp hstep
    have hs : s ≠ o.socket := by simpa [Watch.permits] using hpermits
    split at hstep
    · obtain rfl := Option.some.inj hstep
      exact .same h ((about_modify hs _).trans (about_disconnect hs))
    · cases hstep
  | eventArrives s =>
    obtain ⟨so, hso, rfl⟩ := Option.map_eq_some_iff.mp hstep
    refine advances_eventArrives h hso fun hs => ?_
    subst hs
    simpa [Watch.permits, hso] using hpermits
  | budget n allowed =>
    obtain ⟨a, ha, hstep⟩ := Option.bind_eq_some_iff.mp hstep
    obtain ⟨so, hso, hstep⟩ := Option.bind_eq_some_iff.mp hstep
    split at hstep
    · next hwaiting =>
      obtain rfl := Option.some.inj hstep
      refine advances_budget h ha hso hwaiting fun hsocket => ?_
      simpa [Watch.permits, ha, hsocket] using hpermits
    · cases hstep
  | timerFires s =>
    obtain ⟨so, hso, hstep⟩ := Option.bind_eq_some_iff.mp hstep
    split at hstep
    · next hready =>
      obtain rfl := Option.some.inj hstep
      refine advances_validate h hso (fun hs => ?_) nofun
      subst hs
      exact (h.socketKept hso).marked.trans (by rw [hready]; rfl)
    · cases hstep
  | emits node target =>
    obtain rfl := Option.some.inj hstep
    obtain rfl : node = o.server := by simpa [Watch.permits] using hpermits
    exact advances_emit h target
  | nodeAnswers n node =>
    obtain ⟨e, he, hstep⟩ := Option.bind_eq_some_iff.mp hstep
    exact advances_nodeAnswers h he hstep
  | emitValidates n =>
    obtain ⟨e, he, hstep⟩ := Option.bind_eq_some_iff.mp hstep
    exact advances_emitValidates h he hundisturbed hstep
  | checkRuns k =>
    obtain ⟨c, hc, hstep⟩ := Option.bind_eq_some_iff.mp hstep
    obtain ⟨so, hso, hstep⟩ := Option.bind_eq_some_iff.mp hstep
    exact advances_runCheck h hc hso (fun hsocket => hlive (hsocket ▸ hso)) hstep
  | checkFails k =>
    obtain ⟨c, hc, hstep⟩ := Option.bind_eq_some_iff.mp hstep
    have hs : c.socket ≠ o.socket := by simpa [Watch.permits, hc] using hpermits
    split at hstep
    · cases hstep
    · obtain rfl := Option.some.inj hstep
      exact (advances_setOther h hc (fun hmine => hs hmine.2) .over).about (about_reject hs c.task)
  | sessionChanges _ _ _ | accountChanges _ _ | tick _ =>
    obtain rfl := Option.some.inj hstep
    exact .same h rfl

/-- Until the handler is done, its next step is possible. -/
theorem handler_enabled (h : w.Kept o) (hso : w.sockets[o.socket]? = some so)
    (hphase : so.phase ≠ .ready) : ∃ e, o.handles w e = true ∧ (w.step cfg e).isSome := by
  have hcontinues : (w.handleConnection cfg o.socket so).isSome →
      ∃ e, o.handles w e = true ∧ (w.step cfg e).isSome := fun hsome => by
    refine ⟨.continues o.socket, by simp [Watch.handles], ?_⟩
    unfold World.step
    dsimp only
    rwa [hso]
  cases hp : so.phase with
  | connected =>
    refine hcontinues ?_
    unfold World.handleConnection
    rw [hp]
    dsimp only
    split <;> rfl
  | joiningSession =>
    refine hcontinues ?_
    unfold World.handleConnection
    rw [hp]
    dsimp only
    split <;> rfl
  | joiningConnections =>
    refine hcontinues ?_
    unfold World.handleConnection
    rw [hp]
    rfl
  | joiningUser =>
    refine hcontinues ?_
    unfold World.handleConnection
    rw [hp]
    dsimp only
    split <;> rfl
  | counting =>
    cases hleft : so.left with
    | nil =>
      refine ⟨.countReturns o.socket, by simp [Watch.handles], ?_⟩
      unfold World.step
      dsimp only
      rw [hso]
      change (w.countReturns cfg o.socket so).isSome
      unfold World.countReturns
      rw [if_pos ⟨hp, hleft⟩]
      split <;> rfl
    | cons node _ =>
      refine ⟨.nodeCounts o.socket node, by simp [Watch.handles], ?_⟩
      unfold World.step
      dsimp only
      rw [hso]
      change (w.nodeCounts o.socket node so).isSome
      unfold World.nodeCounts
      rw [if_pos ⟨hp, hleft ▸ List.mem_cons_self⟩]
      rfl
  | checking =>
    obtain ⟨k, c, hc, htask, hsocket, hnot, -⟩ := SocketServer.Kept.checking h so hso hp
    refine ⟨.checkRuns k, by simp [Watch.handles, hc, htask, hsocket], ?_⟩
    unfold World.step
    dsimp only
    rw [hc]
    change ((w.sockets[c.socket]?).bind fun so => w.runCheck k c so).isSome
    rw [hsocket, hso]
    change (w.runCheck k c so).isSome
    unfold World.runCheck
    cases hc : c.phase with
    | «over» => exact absurd hc hnot
    | expiry | session | account | expiryAgain =>
      dsimp only
      split <;> rfl
  | ready => exact absurd hp hphase
  | closed => exact absurd hp (h.socketKept hso).open_

private theorem kept_initial : (initial : World).Kept o where
  socket _ heq := by cases heq
  checked _ hc := absurd hc List.not_mem_nil
  idle _ heq := by cases heq
  checking _ heq := by cases heq
  found _ he := absurd he List.not_mem_nil
  waiting _ ha := absurd ha List.not_mem_nil

end Steps

end World

/-- In every run of traffic in which no broadcast validates the socket before it is
authenticated: the socket is connected; when its handler is done, it is authenticated and in
the room of its user; until then the next step of the handler is possible, each one takes it
on, and no other step takes it back. -/
theorem validSocket_stays {cfg : Config} {o : Watch} {events : List Event} {w : World}
    (hrun : Run (Restrict (Graph (o.step cfg)) fun w e => o.undisturbed w e = true)
      World.initial events w) {so : Socket} (hso : w.sockets[o.socket]? = some so) :
    so.connected = true ∧
    (so.phase = .ready → so.authenticated = true ∧ so.inUserRoom = true) ∧
    (so.phase ≠ .ready → ∃ e, o.handles w e = true ∧ (w.step cfg e).isSome) ∧
    ∀ e w', o.undisturbed w e = true → o.step cfg w e = some w' →
      w'.remaining cfg o.socket ≤ w.remaining cfg o.socket ∧
      (o.handles w e = true → w'.remaining cfg o.socket < w.remaining cfg o.socket) := by
  obtain ⟨hkept, hvalid⟩ : w.Kept o ∧ (w.sockets.length ≤ o.socket ∨ o.valid w = true) := by
    refine hrun.invariant (I := fun w => w.Kept o ∧
      (w.sockets.length ≤ o.socket ∨ o.valid w = true)) (fun w e w' hw hstep => ?_)
      ⟨World.kept_initial, .inl (Nat.zero_le _)⟩
    refine ⟨(hw.1.step hw.2 hstep.1 hstep.2).kept, ?_⟩
    have hfilter : o.step cfg w e = some w' := hstep.2
    unfold Watch.step at hfilter
    split at hfilter
    · simpa using (Option.filter_eq_some_iff.mp hfilter).2
    · cases hfilter
  have hsocket := hkept.socketKept hso
  refine ⟨hsocket.connected, fun hready => ?_, World.handler_enabled hkept hso,
    fun e w' hundisturbed hstep => ?_⟩
  · rw [hsocket.marked, hsocket.room, hready]
    exact ⟨rfl, rfl⟩
  · have hadvances := hkept.step hvalid hundisturbed hstep
    exact ⟨hadvances.remaining (by rw [hso]; rfl), hadvances.handled⟩

/-- A user's first socket on the only server. -/
def firstSocket : Watch := ⟨0, 0, ⟨"alice", "s1", some 900⟩⟩

/-- A single node with room for one connection of a user. -/
def oneServer : Config := ⟨[0], 1, 60, 60000⟩

/-- The socket connects, and its handler counts the connections. -/
def connecting : List Event :=
  [.sessionChanges "s1" "alice" true, .accountChanges "alice" true, .connects 0 firstSocket.user,
    .continues 0, .continues 0, .continues 0, .nodeCounts 0 0, .countReturns 0]

/-- A broadcast fetches the socket while its session is checked, and reaches it afterwards. -/
def admitted : List Event :=
  connecting ++ [.emits 0 none, .checkRuns 0, .checkRuns 0, .nodeAnswers 0 0, .checkRuns 0,
    .checkRuns 0, .emitValidates 0, .continues 0]

/-- The first socket is admitted and stays so. -/
theorem validSocket_stays_admitted : ∃ w so,
    Run
      (Restrict (Graph (firstSocket.step oneServer)) fun w e => firstSocket.undisturbed w e = true)
      World.initial admitted w ∧ w.sockets[0]? = some so ∧ so.phase = .ready ∧
      so.authenticated = true ∧ so.inUserRoom = true := by
  have hexec : (exec (fun w e => if firstSocket.undisturbed w e then firstSocket.step oneServer w e
      else none) World.initial admitted).any (fun w => w.sockets[0]?.any (·.phase = .ready)) =
        true :=
    by decide +kernel
  obtain ⟨w, hw, hphase⟩ := (Option.any_eq_true _ _).mp hexec
  obtain ⟨so, hso, hready⟩ := (Option.any_eq_true _ _).mp hphase
  have hrun : Run (Restrict (Graph (firstSocket.step oneServer)) fun w e =>
      firstSocket.undisturbed w e = true) World.initial admitted w :=
    exec_restrict (fun _ _ h => h) hw
  have hready := of_decide_eq_true hready
  exact ⟨w, so, hrun, hso, hready, (validSocket_stays hrun hso).2.1 hready⟩

/-- The same broadcast reaches the socket before its check has passed. -/
theorem validSocket_dropped : ∃ w so,
    Run (Graph (firstSocket.step oneServer)) World.initial (connecting ++
      [.emits 0 none, .nodeAnswers 0 0, .emitValidates 0, .checkRuns 0, .checkRuns 0, .checkRuns 0,
        .checkRuns 0]) w ∧
      w.sockets[firstSocket.socket]? = some so ∧ so.connected = false ∧ so.phase = .closed := by
  have hexec : (exec (firstSocket.step oneServer) World.initial (connecting ++
      [.emits 0 none, .nodeAnswers 0 0, .emitValidates 0, .checkRuns 0, .checkRuns 0, .checkRuns 0,
        .checkRuns 0])).any (fun w => w.sockets[0]?.any fun so =>
          !so.connected && so.phase = .closed) = true := by decide +kernel
  obtain ⟨w, hrun, hw⟩ := exec_any hexec
  obtain ⟨so, hso, hdropped⟩ := (Option.any_eq_true _ _).mp hw
  obtain ⟨hconnected, hphase⟩ : so.connected = false ∧ so.phase = .closed := by
    simpa using hdropped
  exact ⟨w, so, hrun, hso, hconnected, hphase⟩

end Ascendance.SocketServer
