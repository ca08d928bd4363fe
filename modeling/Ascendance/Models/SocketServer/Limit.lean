import Ascendance.Core.Lists
import Ascendance.Models.SocketServer.Server
import Mathlib.Data.List.MinMax
import Mathlib.Data.List.Perm.Subperm

/-!
# The connection limit

A socket joins the room of its user's connections before it starts to count, so of
the sockets of a user that have passed, the one that started its count last has
found all the others that are still connected.
-/

namespace Ascendance.SocketServer

open Ascendance.Core

/-- The elements with a property are no more than indices among which they all are. -/
theorem countP_le_of_indices {α : Type*} {p : α → Bool} {l : List α} {found : List ℕ}
    (h : ∀ i a, l[i]? = some a → p a = true → i ∈ found) : l.countP p ≤ found.length := by
  have hcount : l.countP p = ((l.zipIdx.filter (p ∘ Prod.fst)).map Prod.snd).length := by
    rw [List.length_map, ← List.countP_eq_length_filter, ← List.countP_map, List.zipIdx_map_fst]
  have hnodup : ((l.zipIdx.filter (p ∘ Prod.fst)).map Prod.snd).Nodup := by
    refine List.Nodup.sublist (List.filter_sublist.map _) ?_
    rw [List.zipIdx_map_snd]
    exact List.nodup_range'
  rw [hcount]
  refine (hnodup.subperm fun i hi => ?_).length_le
  obtain ⟨⟨a, j⟩, hmem, rfl⟩ := List.mem_map.mp hi
  obtain ⟨hget, hp⟩ := List.mem_filter.mp hmem
  exact h j a (List.mem_zipIdx_iff_getElem?.mp hget) hp

/-- The socket has joined the room, or is gone. -/
def Phase.hasJoined : Phase → Bool
  | .joiningConnections | .counting | .checking | .joiningUser | .ready => true
  | .connected | .joiningSession | .closed => false

/-- Has the socket begun to count? -/
def Phase.hasCounted : Phase → Bool
  | .counting | .checking | .joiningUser | .ready => true
  | .connected | .joiningSession | .joiningConnections | .closed => false

/-- Has the socket passed the count? -/
def Phase.hasPassed : Phase → Bool
  | .checking | .joiningUser | .ready => true
  | .connected | .joiningSession | .joiningConnections | .counting | .closed => false

/-- A socket may be marked in these phases only. -/
def Phase.mayAuthenticate : Phase → Bool
  | .joiningUser | .ready => true
  | .connected | .joiningSession | .joiningConnections | .counting | .checking | .closed => false

/-- Who may authenticate has passed the limit. -/
private theorem Phase.hasPassed_of_mayAuthenticate {p : Phase} (h : p.mayAuthenticate = true) :
    p.hasPassed = true := by
  cases p <;> first | rfl | cases h

/-- Who has passed the limit was counted. -/
private theorem Phase.hasCounted_of_hasPassed {p : Phase} (h : p.hasPassed = true) :
    p.hasCounted = true := by
  cases p <;> first | rfl | cases h

/-- Of a socket by itself. -/
structure SocketOk (cfg : Config) (time : ℕ) (so : Socket) : Prop where
  node : so.node ∈ cfg.nodes
  live : so.authenticated = true → so.connected = true ∧ so.phase.mayAuthenticate = true
  joined : so.phase.hasJoined = true → so.connected = true → so.inConnections = true
  started : so.phase.hasCounted = true → so.startedAt < time
  passed : so.phase.hasPassed = true → so.left = [] ∧ so.found.length ≤ cfg.connectionLimit

/-- A count has found each connected socket whose own count started before it, on the nodes
that have answered. -/
def Sees (so : Socket) (t : ℕ) (other : Socket) : Prop :=
  so.phase.hasCounted = true → other.phase.hasCounted = true → other.user.publicId =
    so.user.publicId →
    other.startedAt ≤ so.startedAt → other.connected = true → other.node ∉ so.left → t ∈ so.found

/-- What the sockets know of each other's counts. -/
structure Counts (cfg : Config) (sockets : List Socket) (time : ℕ) : Prop where
  ok : ∀ (s : ℕ) so, sockets[s]? = some so → SocketOk cfg time so
  sees : ∀ (s t : ℕ) so other, sockets[s]? = some so → sockets[t]? = some other → Sees so t other

variable {cfg : Config} {sockets : List Socket} {time : ℕ}

/-- A socket that is in order stays so. -/
theorem SocketOk.mono {so : Socket} (h : SocketOk cfg time so) {time' : ℕ} (hle : time ≤ time') :
    SocketOk cfg time' so :=
  ⟨h.node, h.live, h.joined, fun hc => Nat.lt_of_lt_of_le (h.started hc) hle, h.passed⟩

/-- The counts stay in order as time passes. -/
theorem Counts.mono (h : Counts cfg sockets time) {time' : ℕ} (hle : time ≤ time') :
    Counts cfg sockets time' :=
  ⟨fun s so hs => (h.ok s so hs).mono hle, h.sees⟩

/-- The limit: the last of the sockets to start its count has found them all. -/
theorem Counts.le_limit (h : Counts cfg sockets time) (userPublicId : String) :
    sockets.countP (fun so => so.user.publicId == userPublicId && so.authenticated) ≤
      cfg.connectionLimit := by
  let marked := sockets.filter fun so => so.user.publicId == userPublicId && so.authenticated
  have hmarked : ∀ {s : ℕ} {so}, sockets[s]? = some so → so ∈ marked →
      so.user.publicId = userPublicId ∧ so.connected = true ∧ so.phase.hasPassed = true := by
    intro s so hs hso
    have hp := (List.mem_filter.mp hso).2
    rw [Bool.and_eq_true, beq_iff_eq] at hp
    obtain ⟨hconnected, hphase⟩ := (h.ok s so hs).live hp.2
    exact ⟨hp.1, hconnected, Phase.hasPassed_of_mayAuthenticate hphase⟩
  cases hlast : marked.argmax (·.startedAt) with
  | none =>
    have hnone : marked.length = 0 := congrArg List.length (List.argmax_eq_none.mp hlast)
    rw [List.countP_eq_length_filter]
    exact Nat.le_trans (Nat.le_of_eq hnone) (Nat.zero_le _)
  | some so =>
    have hso := List.argmax_mem (Option.mem_def.mpr hlast)
    obtain ⟨s, hs⟩ := List.getElem?_of_mem (List.mem_filter.mp hso).1
    obtain ⟨huser, -, hpassed⟩ := hmarked hs hso
    obtain ⟨hleft, hlimit⟩ := (h.ok s so hs).passed hpassed
    refine Nat.le_trans (countP_le_of_indices fun t other ht hp => ?_) hlimit
    have hto : other ∈ marked := List.mem_filter.mpr ⟨List.mem_of_getElem? ht, hp⟩
    obtain ⟨huser', hconnected, hpassed'⟩ := hmarked ht hto
    refine h.sees s t so other hs ht (Phase.hasCounted_of_hasPassed hpassed)
      (Phase.hasCounted_of_hasPassed hpassed') (huser'.trans huser.symm) ?_ hconnected ?_
    · exact List.le_of_mem_argmax hto (Option.mem_def.mpr hlast)
    · rw [hleft]
      exact List.not_mem_nil

/-- A socket goes on, or goes away, with the count it has. -/
structure Replaces (cfg : Config) (so so' : Socket) : Prop where
  user : so'.user = so.user
  node : so'.node = so.node
  startedAt : so'.startedAt = so.startedAt
  left : so'.left = so.left
  found : so'.found = so.found
  connected : so'.connected = true → so.connected = true
  counted : so'.phase.hasCounted = true → so.phase.hasCounted = true
  live : so'.authenticated = true → so'.connected = true ∧ so'.phase.mayAuthenticate = true
  joined : so'.phase.hasJoined = true → so'.connected = true → so'.inConnections = true
  passed : so'.phase.hasPassed = true →
    so'.left = [] ∧ so'.found.length ≤ cfg.connectionLimit

/-- A socket that replaces one in order is in order. -/
theorem Replaces.ok {so so' : Socket} (hr : Replaces cfg so so') (h : SocketOk cfg time so) :
    SocketOk cfg time so' where
  node := hr.node ▸ h.node
  live := hr.live
  joined := hr.joined
  started hc := hr.startedAt ▸ h.started (hr.counted hc)
  passed := hr.passed

/-- Replacing a socket keeps the counts. -/
theorem Counts.modify (h : Counts cfg sockets time) {s : ℕ} {f : Socket → Socket}
    (hf : ∀ so, sockets[s]? = some so → Replaces cfg so (f so)) :
    Counts cfg (sockets.modify s f) time where
  ok t other ht := by
    obtain ⟨old, hold, ⟨rfl, rfl⟩ | ⟨-, rfl⟩⟩ := getElem?_modify_cases ht
    · exact (hf old hold).ok (h.ok t old hold)
    · exact h.ok t other hold
  sees a b ao bo ha hb := by
    have hsame : ∀ {t : ℕ} {other},
        (sockets.modify s f)[t]? = some other → ∃ old, sockets[t]? = some old ∧
        other.user = old.user ∧ other.node = old.node ∧ other.startedAt = old.startedAt ∧
        other.left = old.left ∧ other.found = old.found ∧
        (other.connected = true → old.connected = true) ∧
        (other.phase.hasCounted = true → old.phase.hasCounted = true) := by
      intro t other ht
      obtain ⟨old, hold, ⟨rfl, rfl⟩ | ⟨-, rfl⟩⟩ := getElem?_modify_cases ht
      · have hr := hf old hold
        exact ⟨old, hold, hr.user, hr.node, hr.startedAt, hr.left, hr.found, hr.connected,
          hr.counted⟩
      · exact ⟨other, hold, rfl, rfl, rfl, rfl, rfl, id, id⟩
    obtain ⟨a', ha', hau, -, has, hal, haf, -, hac⟩ := hsame ha
    obtain ⟨b', hb', hbu, hbn, hbs, -, -, hbconn, hbc⟩ := hsame hb
    intro hcounted hcounted' huser hstart hconnected hnode
    rw [haf]
    refine h.sees a b a' b' ha' hb' (hac hcounted) (hbc hcounted') ?_ ?_ (hbconn hconnected) ?_
    · rw [← hau, ← hbu]
      exact huser
    · rw [← has, ← hbs]
      exact hstart
    · rw [← hal, ← hbn]
      exact hnode

/-- A new socket has not counted. -/
theorem Counts.connect (h : Counts cfg sockets time) {so : Socket} (hnode : so.node ∈ cfg.nodes)
    (hauth : so.authenticated = false) (hphase : so.phase = .connected) :
    Counts cfg (sockets ++ [so]) time where
  ok s so' hs := by
    rcases getElem?_concat_cases hs with hold | ⟨-, rfl⟩
    · exact h.ok s so' hold
    · constructor
      · exact hnode
      · simp [hauth]
      · simp [hphase, Phase.hasJoined]
      · simp [hphase, Phase.hasCounted]
      · simp [hphase, Phase.hasPassed]
  sees s t so' other hs ht hcounted hcounted' := by
    rcases getElem?_concat_cases hs with hs | ⟨-, rfl⟩
    · rcases getElem?_concat_cases ht with ht | ⟨-, rfl⟩
      · exact h.sees s t so' other hs ht hcounted hcounted'
      · rw [hphase] at hcounted'
        cases hcounted'
    · rw [hphase] at hcounted
      cases hcounted

/-- The count of a socket starts: all nodes are to answer, and it started after all others. -/
theorem Counts.start (h : Counts cfg sockets time) {s : ℕ} {so : Socket}
    (hs : sockets[s]? = some so) (hphase : so.phase = .joiningConnections) :
    Counts cfg (sockets.modify s fun so => { so with
      phase := .counting
      startedAt := time
      left := cfg.nodes
      found := [] }) (time + 1) where
  ok t other ht := by
    obtain ⟨old, hold, ⟨rfl, rfl⟩ | ⟨-, rfl⟩⟩ := getElem?_modify_cases ht
    · obtain rfl := Option.some.inj (hs.symm.trans hold)
      have hok := h.ok t so hs
      refine ⟨hok.node, fun hauth => ?_, fun _ hc => ?_, fun _ => Nat.lt_succ_self _, ?_⟩
      · have hmay := (hok.live hauth).2
        rw [hphase] at hmay
        cases hmay
      · exact hok.joined (by rw [hphase]; rfl) hc
      · simp [Phase.hasPassed]
    · exact (h.ok t other hold).mono (Nat.le_succ _)
  sees a b ao bo ha hb hcounted hcounted' huser hstart hconnected hnode := by
    obtain ⟨a', ha', ⟨rfl, rfl⟩ | ⟨-, rfl⟩⟩ := getElem?_modify_cases ha
    · obtain ⟨b', hb', ⟨rfl, rfl⟩ | ⟨-, rfl⟩⟩ := getElem?_modify_cases hb
      · exact absurd (h.ok b b' hb').node hnode
      · exact absurd (h.ok b bo hb').node hnode
    · obtain ⟨b', hb', ⟨rfl, rfl⟩ | ⟨-, rfl⟩⟩ := getElem?_modify_cases hb
      · exact absurd ((h.ok a ao ha').started hcounted) (Nat.not_lt.mpr hstart)
      · exact h.sees a b ao bo ha' hb' hcounted hcounted' huser hstart hconnected hnode

/-- A node answers: it has found every socket of the user that is connected there. -/
theorem Counts.answer (h : Counts cfg sockets time) {s node : ℕ} {so : Socket} {here : List ℕ}
    (hs : sockets[s]? = some so) (hphase : so.phase = .counting)
    (hhere :
      ∀ (t : ℕ) other, sockets[t]? = some other → other.node = node → other.connected = true →
      other.inConnections = true → other.user.publicId = so.user.publicId → t ∈ here) :
    Counts cfg (sockets.modify s fun so => { so with
      left := so.left.filter (· ≠ node)
      found := so.found ++ here }) time where
  ok t other ht := by
    obtain ⟨old, hold, ⟨rfl, rfl⟩ | ⟨-, rfl⟩⟩ := getElem?_modify_cases ht
    · obtain rfl := Option.some.inj (hs.symm.trans hold)
      have hok := h.ok t so hs
      refine ⟨hok.node, hok.live, hok.joined, hok.started, fun hp => ?_⟩
      rw [hphase] at hp
      cases hp
    · exact h.ok t other hold
  sees a b ao bo ha hb hcounted hcounted' huser hstart hconnected hnode := by
    have hb' : ∃ b', sockets[b]? = some b' ∧ b'.user = bo.user ∧ b'.node = bo.node ∧
        b'.startedAt = bo.startedAt ∧ b'.connected = bo.connected ∧ b'.phase = bo.phase := by
      obtain ⟨b', hb', ⟨rfl, rfl⟩ | ⟨-, rfl⟩⟩ := getElem?_modify_cases hb
      · exact ⟨b', hb', rfl, rfl, rfl, rfl, rfl⟩
      · exact ⟨bo, hb', rfl, rfl, rfl, rfl, rfl⟩
    obtain ⟨b', hb', hbu, hbn, hbs, hbc, hbp⟩ := hb'
    rw [← hbu] at huser
    rw [← hbs] at hstart
    rw [← hbc] at hconnected
    rw [← hbn] at hnode
    rw [← hbp] at hcounted'
    obtain ⟨a', ha', ⟨rfl, rfl⟩ | ⟨-, rfl⟩⟩ := getElem?_modify_cases ha
    · obtain rfl := Option.some.inj (hs.symm.trans ha')
      refine List.mem_append.mpr ?_
      by_cases hat : b'.node = node
      · have hjoined := (h.ok b b' hb').joined ?_ hconnected
        · exact .inr (hhere b b' hb' hat hconnected hjoined huser)
        · revert hcounted'
          cases b'.phase <;> simp [Phase.hasCounted, Phase.hasJoined]
      · refine .inl (h.sees a b so b' hs hb' hcounted hcounted' huser hstart hconnected ?_)
        intro hleft
        exact hnode (List.mem_filter.mpr ⟨hleft, decide_eq_true hat⟩)
    · exact h.sees a b ao b' ha' hb' hcounted hcounted' huser hstart hconnected hnode

namespace World

variable {w w' : World}

/-- The counts of a world; its history is the clock of their starts. -/
def Limited (cfg : Config) (w : World) : Prop := Counts cfg w.sockets w.history.length

/-- The limit depends on the sockets and the length of the history only. -/
theorem Limited.of_eq (h : w.Limited cfg) (hsockets : w'.sockets = w.sockets)
    (hhistory : w.history.length ≤ w'.history.length) : w'.Limited cfg := by
  unfold Limited
  rw [hsockets]
  exact Counts.mono h hhistory

/-- A record keeps the limit. -/
theorem Limited.record (h : w.Limited cfg) (r : Record) : (w.record r).Limited cfg :=
  h.of_eq rfl (Nat.le_succ _)

/-- Replacing a socket keeps the limit. -/
theorem Limited.modify (h : w.Limited cfg) {s : ℕ} {f : Socket → Socket}
    (hf : ∀ so, w.sockets[s]? = some so → Replaces cfg so (f so)) :
    (w.modify s f).Limited cfg := Counts.modify h hf

/-- Disconnecting a socket keeps the limit. -/
theorem Limited.disconnect (h : w.Limited cfg) (s : ℕ) : (w.disconnect s).Limited cfg := by
  refine h.modify fun so hs => ?_
  refine ⟨rfl, rfl, rfl, rfl, rfl, ?_, id, ?_, ?_, (Counts.ok h s so hs).passed⟩
  · exact fun hc => absurd hc Bool.false_ne_true
  · exact fun ha => absurd ha Bool.false_ne_true
  · exact fun _ hc => absurd hc Bool.false_ne_true

/-- The handler of a socket that is not marked returns early. -/
theorem Limited.close (h : w.Limited cfg) {s : ℕ}
    (hauth : ∀ so, w.sockets[s]? = some so → so.authenticated = false) :
    (w.modify s fun so => { so with phase := .closed }).Limited cfg := by
  refine h.modify fun so hs => ⟨rfl, rfl, rfl, rfl, rfl, id, ?_, ?_, ?_, ?_⟩
  · exact fun hp => absurd hp Bool.false_ne_true
  · exact fun ha => absurd ((hauth so hs).symm.trans ha) Bool.false_ne_true
  · exact fun hp => absurd hp Bool.false_ne_true
  · exact fun hp => absurd hp Bool.false_ne_true

/-- A socket that was disconnected is marked no more. -/
private theorem disconnect_unmarked (s : ℕ) (so : Socket)
    (hs : (w.disconnect s).sockets[s]? = some so) :
    so.connected = false ∧ so.authenticated = false := by
  obtain ⟨old, -, ⟨-, rfl⟩ | ⟨hne, -⟩⟩ := getElem?_modify_cases hs
  · exact ⟨rfl, rfl⟩
  · exact absurd rfl hne

/-- Closing a socket keeps the limit. -/
private theorem Limited.disconnectAndClose (h : w.Limited cfg) (s : ℕ) :
    ((w.disconnect s).modify s fun so => { so with phase := .closed }).Limited cfg :=
  (h.disconnect s).close fun so hs => (disconnect_unmarked s so hs).2

/-- Beginning a check keeps the limit. -/
theorem Limited.startCheck (h : w.Limited cfg) (task : Task) (s : ℕ) (user : DecodedUser) :
    (w.startCheck task s user).Limited cfg := h.of_eq rfl (Nat.le_succ _)

/-- Refusing a socket keeps the limit. -/
theorem Limited.reject (h : w.Limited cfg) (task : Task) (s : ℕ) :
    (w.reject task s).Limited cfg := by
  unfold World.reject
  split
  · exact h.disconnectAndClose s
  · exact h.disconnect s
  · exact h.disconnect s
  · exact h.disconnect s
  · exact h

/-- Validating a socket keeps the limit. -/
theorem Limited.validate (h : w.Limited cfg) (task : Task) (s : ℕ) (user : DecodedUser)
    (authenticated : Bool) : (w.validate task s user authenticated).Limited cfg := by
  unfold World.validate
  split
  · exact h.startCheck task s user
  · exact h.reject task s

/-- A disconnected socket is not marked. -/
theorem Limited.unmarked (h : w.Limited cfg) {s : ℕ} {so : Socket} (hs : w.sockets[s]? = some so)
    (hconnected : ¬ so.connected = true) : so.authenticated = false := by
  by_contra hauth
  exact hconnected ((Counts.ok h s so hs).live (Bool.eq_true_of_not_eq_false hauth)).1

/-- Closing a socket that is gone keeps the limit. -/
private theorem Limited.closeGone (h : w.Limited cfg) {s : ℕ} {so : Socket}
    (hs : w.sockets[s]? = some so)
    (hconnected : ¬ so.connected = true) :
    (w.modify s fun so => { so with phase := .closed }).Limited cfg := by
  refine h.close fun so' hs' => ?_
  obtain rfl := Option.some.inj (hs.symm.trans hs')
  exact h.unmarked hs hconnected

/-- The one step that marks a socket: it is connected and has passed. -/
theorem Limited.accept (h : w.Limited cfg) (task : Task) {s : ℕ} {so : Socket}
    (hs : w.sockets[s]? = some so) : (w.accept task s so).Limited cfg := by
  unfold World.accept
  split
  · split
    · exact h
    · next hphase =>
      have hchecking : so.phase = .checking := Decidable.not_not.mp hphase
      split
      · next hconnected =>
        refine h.modify fun so' hs' => ?_
        obtain rfl := Option.some.inj (hs.symm.trans hs')
        have hok := Counts.ok h s so hs
        refine ⟨rfl, rfl, rfl, rfl, rfl, id, ?_, fun _ => ⟨hconnected, rfl⟩, ?_, ?_⟩
        · exact fun _ => by rw [hchecking]; rfl
        · exact fun _ => hok.joined (by rw [hchecking]; rfl)
        · exact fun _ => hok.passed (by rw [hchecking]; rfl)
      · next hconnected => exact h.closeGone hs hconnected
  · split
    · exact h.record _
    · exact h
  · exact h
  · split
    · exact h.record _
    · exact h

/-- A check may change its phase. -/
theorem Limited.setCheck (h : w.Limited cfg) (k : ℕ) (phase : CheckPhase) :
    (w.setCheck k phase).Limited cfg := h.of_eq rfl (Nat.le_refl _)

/-- A step of a check keeps the limit. -/
theorem Limited.runCheck (h : w.Limited cfg) {k : ℕ} {c : Check} {so : Socket}
    (hs : w.sockets[c.socket]? = some so) (hstep : w.runCheck k c so = some w') :
    w'.Limited cfg := by
  have hfailed : ((w.setCheck k .over).reject c.task c.socket).Limited cfg :=
    (h.setCheck k .over).reject c.task c.socket
  unfold World.runCheck at hstep
  dsimp only at hstep
  split at hstep
  · split at hstep
    · obtain rfl := Option.some.inj hstep
      exact h.setCheck k .session
    · exact Option.some.inj hstep ▸ hfailed
  · split at hstep
    · obtain rfl := Option.some.inj hstep
      exact (h.setCheck k .account).record _
    · exact Option.some.inj hstep ▸ hfailed
  · split at hstep
    · obtain rfl := Option.some.inj hstep
      exact (h.setCheck k .expiryAgain).record _
    · exact Option.some.inj hstep ▸ hfailed
  · split at hstep
    · obtain rfl := Option.some.inj hstep
      exact ((h.setCheck k .over).record _).accept c.task hs
    · exact Option.some.inj hstep ▸ hfailed
  · cases hstep

/-- A handler that has joined a room, or registered its listeners. -/
theorem Limited.handleConnection (h : w.Limited cfg) {s : ℕ} {so : Socket}
    (hs : w.sockets[s]? = some so) (hstep : w.handleConnection cfg s so = some w') :
    w'.Limited cfg := by
  have hok := Counts.ok h s so hs
  have hunmarked : so.phase.mayAuthenticate = false → so.authenticated = false := by
    intro hphase
    by_contra hauth
    have hmay := (hok.live (Bool.eq_true_of_not_eq_false hauth)).2
    exact Bool.false_ne_true (hphase.symm.trans hmay)
  unfold World.handleConnection at hstep
  split at hstep
  · next hphase =>
    split at hstep
    · exact Option.some.inj hstep ▸ h.disconnectAndClose s
    · obtain rfl := Option.some.inj hstep
      refine h.modify fun so' hs' => ?_
      obtain rfl := Option.some.inj (hs.symm.trans hs')
      refine ⟨rfl, rfl, rfl, rfl, rfl, id, ?_, ?_, ?_, ?_⟩
      · exact fun hp => absurd hp Bool.false_ne_true
      · exact fun ha => absurd ((hunmarked (by rw [hphase]; rfl)).symm.trans ha) Bool.false_ne_true
      · exact fun hp => absurd hp Bool.false_ne_true
      · exact fun hp => absurd hp Bool.false_ne_true
  · next hphase =>
    split at hstep
    · exact Option.some.inj hstep ▸ h.disconnectAndClose s
    · obtain rfl := Option.some.inj hstep
      refine h.modify fun so' hs' => ?_
      obtain rfl := Option.some.inj (hs.symm.trans hs')
      refine ⟨rfl, rfl, rfl, rfl, rfl, id, ?_, ?_, fun _ _ => rfl, ?_⟩
      · exact fun hp => absurd hp Bool.false_ne_true
      · exact fun ha => absurd ((hunmarked (by rw [hphase]; rfl)).symm.trans ha) Bool.false_ne_true
      · exact fun hp => absurd hp Bool.false_ne_true
  · next hphase =>
    obtain rfl := Option.some.inj hstep
    exact Counts.start h hs hphase
  · next hphase =>
    split at hstep
    · next hconnected =>
      have hready : ∀ {w' : World}, w'.Limited cfg →
          (∀ so', w'.sockets[s]? = some so' → so'.phase = .joiningUser) →
          (w'.modify s fun so => { so with
            phase := .ready, eventCount := 0, eventWindowStartedAt := w.now }).Limited cfg := by
        intro w' h' hphase'
        refine h'.modify fun so' hs' => ?_
        have hok' := Counts.ok h' s so' hs'
        have hp := hphase' so' hs'
        refine ⟨rfl, rfl, rfl, rfl, rfl, id, ?_, ?_, ?_, ?_⟩
        · exact fun _ => by rw [hp]; rfl
        · exact fun ha => ⟨(hok'.live ha).1, rfl⟩
        · exact fun _ => hok'.joined (by rw [hp]; rfl)
        · exact fun _ => hok'.passed (by rw [hp]; rfl)
      obtain rfl := Option.some.inj hstep
      split
      · refine hready h fun so' hs' => ?_
        obtain rfl := Option.some.inj (hs.symm.trans hs')
        exact hphase
      · refine hready (h.disconnect s) fun so' hs' => ?_
        obtain ⟨old, hold, ⟨-, rfl⟩ | ⟨hne, -⟩⟩ := getElem?_modify_cases hs'
        · obtain rfl := Option.some.inj (hs.symm.trans hold)
          exact hphase
        · exact absurd rfl hne
    · next hconnected => exact Option.some.inj hstep ▸ h.closeGone hs hconnected
  all_goals cases hstep

/-- A connected socket of a node is found there. -/
private theorem mem_localSockets {node : ℕ} {p : Socket → Bool} {s : ℕ} {so : Socket}
    (hs : w.sockets[s]? = some so) (hnode : so.node = node) (hconnected : so.connected = true)
    (hp : p so = true) : (s, so) ∈ w.localSockets node p := by
  refine List.mem_map.mpr ⟨(so, s), List.mem_filter.mpr ⟨?_, ?_⟩, rfl⟩
  · exact List.mem_zipIdx_iff_getElem?.mpr hs
  · simp only [hnode, hconnected, hp, BEq.rfl, Bool.and_self]

/-- A node's answer to a count keeps the limit. -/
theorem Limited.nodeCounts (h : w.Limited cfg) {s node : ℕ} {so : Socket}
    (hs : w.sockets[s]? = some so) (hstep : w.nodeCounts s node so = some w') :
    w'.Limited cfg := by
  unfold World.nodeCounts at hstep
  split at hstep
  · next hphase =>
    obtain rfl := Option.some.inj hstep
    refine Counts.answer h hs hphase.1 fun t other ht hnode hconnected hjoined huser => ?_
    refine List.mem_map.mpr ⟨(t, other), mem_localSockets ht hnode hconnected ?_, rfl⟩
    simp only [hjoined, huser, BEq.rfl, Bool.and_self]
  · cases hstep

/-- The end of a count keeps the limit. -/
theorem Limited.countReturns (h : w.Limited cfg) {s : ℕ} {so : Socket}
    (hs : w.sockets[s]? = some so) (hstep : w.countReturns cfg s so = some w') :
    w'.Limited cfg := by
  unfold World.countReturns at hstep
  split at hstep
  · next hphase =>
    split at hstep
    · next hlimit =>
      obtain rfl := Option.some.inj hstep
      refine Limited.startCheck (h.modify fun so' hs' => ?_) _ _ _
      obtain rfl := Option.some.inj (hs.symm.trans hs')
      have hok := Counts.ok h s so hs
      refine ⟨rfl, rfl, rfl, rfl, rfl, id, ?_, fun ha => ?_, ?_, fun _ => ⟨hphase.2, hlimit⟩⟩
      · exact fun _ => by rw [hphase.1]; rfl
      · have hmay := (hok.live ha).2
        rw [hphase.1] at hmay
        cases hmay
      · exact fun _ => hok.joined (by rw [hphase.1]; rfl)
    · exact Option.some.inj hstep ▸ h.disconnectAndClose s
  · cases hstep

/-- Counting the events of a socket changes nothing else of it. -/
theorem Limited.countEvent (h : w.Limited cfg) (s count : ℕ) (startedAt : ℤ) :
    (w.modify s fun so => { so with
      eventCount := count, eventWindowStartedAt := startedAt }).Limited cfg := by
  refine h.modify fun so hs => ?_
  have hok := Counts.ok h s so hs
  exact ⟨rfl, rfl, rfl, rfl, rfl, id, id, hok.live, hok.joined, hok.passed⟩

/-- An arriving event keeps the limit. -/
theorem Limited.arrive (h : w.Limited cfg) (s : ℕ) (waiting : Bool) :
    (w.arrive s waiting).Limited cfg := h.of_eq rfl (Nat.le_refl _)

/-- An event from a client keeps the limit. -/
theorem Limited.eventArrives (h : w.Limited cfg) (s : ℕ) (so : Socket) :
    (w.eventArrives cfg s so).Limited cfg := by
  unfold World.eventArrives
  dsimp only
  split
  · exact (h.record _).arrive s false
  · split
    · exact (((h.record _).countEvent s _ _).disconnect s).arrive s false
    · exact ((h.record _).countEvent s _ _).arrive s true

/-- Charging an event keeps the limit. -/
theorem Limited.budget (h : w.Limited cfg) (n : ℕ) (a : Arrival) (so : Socket) (allowed : Bool) :
    (w.budget n a so allowed).Limited cfg := by
  have harrivals : Limited cfg { w with arrivals := w.arrivals.set n ⟨a.socket, false⟩ } :=
    h.of_eq rfl (Nat.le_refl _)
  unfold World.budget
  split
  · exact harrivals.validate _ _ _ _
  · exact harrivals.disconnect _

/-- Validating an emission keeps the limit. -/
theorem Limited.emitValidates (h : w.Limited cfg) {n : ℕ} {e : Emit}
    (hstep : w.emitValidates n e = some w') : w'.Limited cfg := by
  unfold World.emitValidates at hstep
  split at hstep
  · obtain ⟨so, -, rfl⟩ := Option.map_eq_some_iff.mp hstep
    dsimp only
    split
    · refine Limited.validate ?_ _ _ _ _
      exact h.of_eq rfl (Nat.le_refl _)
    · exact h.of_eq rfl (Nat.le_refl _)
  · cases hstep

/-- Every event keeps the limit. -/
theorem Limited.step (h : w.Limited cfg) {e : Event} (hstep : w.step cfg e = some w') :
    w'.Limited cfg := by
  cases e with
  | connects node user =>
    simp only [World.step, World.connects] at hstep
    split at hstep
    · next hnode =>
      obtain rfl := Option.some.inj hstep
      exact Counts.connect h hnode rfl rfl
    · cases hstep
  | disconnects s =>
    obtain rfl := Option.some.inj hstep
    exact h.disconnect s
  | continues s =>
    obtain ⟨so, hs, hstep⟩ := Option.bind_eq_some_iff.mp hstep
    exact h.handleConnection hs hstep
  | nodeCounts s node =>
    obtain ⟨so, hs, hstep⟩ := Option.bind_eq_some_iff.mp hstep
    exact h.nodeCounts hs hstep
  | countReturns s =>
    obtain ⟨so, hs, hstep⟩ := Option.bind_eq_some_iff.mp hstep
    exact h.countReturns hs hstep
  | countFails s =>
    obtain ⟨so, hs, hstep⟩ := Option.bind_eq_some_iff.mp hstep
    split at hstep
    · exact Option.some.inj hstep ▸ h.disconnectAndClose s
    · cases hstep
  | eventArrives s =>
    obtain ⟨so, hs, rfl⟩ := Option.map_eq_some_iff.mp hstep
    exact h.eventArrives s so
  | budget n allowed =>
    obtain ⟨a, -, hstep⟩ := Option.bind_eq_some_iff.mp hstep
    obtain ⟨so, -, hstep⟩ := Option.bind_eq_some_iff.mp hstep
    split at hstep
    · exact Option.some.inj hstep ▸ h.budget n a so allowed
    · cases hstep
  | timerFires s =>
    obtain ⟨so, -, hstep⟩ := Option.bind_eq_some_iff.mp hstep
    split at hstep
    · exact Option.some.inj hstep ▸ h.validate _ _ _ _
    · cases hstep
  | emits node target =>
    obtain rfl := Option.some.inj hstep
    exact h.of_eq rfl (Nat.le_succ _)
  | nodeAnswers n node =>
    obtain ⟨e, -, hstep⟩ := Option.bind_eq_some_iff.mp hstep
    unfold World.nodeAnswers at hstep
    split at hstep
    · obtain rfl := Option.some.inj hstep
      exact h.of_eq rfl (Nat.le_refl _)
    · cases hstep
  | emitValidates n =>
    obtain ⟨e, -, hstep⟩ := Option.bind_eq_some_iff.mp hstep
    exact h.emitValidates hstep
  | checkRuns k =>
    obtain ⟨c, -, hstep⟩ := Option.bind_eq_some_iff.mp hstep
    obtain ⟨so, hs, hstep⟩ := Option.bind_eq_some_iff.mp hstep
    exact h.runCheck hs hstep
  | checkFails k =>
    obtain ⟨c, -, hstep⟩ := Option.bind_eq_some_iff.mp hstep
    split at hstep
    · cases hstep
    · exact Option.some.inj hstep ▸ (h.setCheck k .over).reject c.task c.socket
  | sessionChanges sid publicId live =>
    obtain rfl := Option.some.inj hstep
    exact h.of_eq rfl (Nat.le_refl _)
  | accountChanges publicId active =>
    obtain rfl := Option.some.inj hstep
    exact h.of_eq rfl (Nat.le_refl _)
  | tick milliseconds =>
    obtain rfl := Option.some.inj hstep
    exact h.of_eq rfl (Nat.le_refl _)

/-- Before anything has happened the limit is kept. -/
theorem limited_initial : World.initial.Limited cfg where
  ok s so hs := by cases hs
  sees s t so other hs := by cases hs

end World

end Ascendance.SocketServer
