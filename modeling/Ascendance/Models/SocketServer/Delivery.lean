import Ascendance.Models.SocketServer.Limit

/-!
# Deliveries and their session checks

A check leaves its steps in the history as it takes them. Since the history only
grows, the trail of a check that has passed is there, in order, before whatever
the check allows, and it begins after the emit or the client event it is for.
-/

namespace Ascendance.SocketServer

open Ascendance.Core

/-- The user of each socket, which never changes. -/
def World.userOf (w : World) (s : ℕ) : Option DecodedUser := w.sockets[s]?.map (·.user)

/-- A session check of the user that started after a record passed: the store had the session,
the account was active, and the token had not expired. Newest first. -/
def Checked (user : DecodedUser) (origin : Record) (earlier : List Record) : Prop :=
  ∃ k now, user.unexpired now = true ∧
    [.checkPassed k now, .accountActive k user, .sessionLive k user, .checkStarted k user,
      origin].Sublist earlier

/-- What must have happened before a record. -/
def Record.Due (users : ℕ → Option DecodedUser) (earlier : List Record) : Record → Prop
  | .emitted n s => ∃ user target, users s = some user ∧ World.addressed target user = true ∧
      Checked user (.emitCalled n target) earlier
  | .handled n s => ∃ user, users s = some user ∧ Checked user (.eventArrived n s) earlier
  | .emitCalled _ _ | .eventArrived _ _ | .countStarted _ | .checkStarted _ _ | .sessionLive _ _
  | .accountActive _ _ | .checkPassed _ _ => True

/-- Every record was due when it was written. -/
def Sound (users : ℕ → Option DecodedUser) : List Record → Prop
  | [] => True
  | r :: earlier => r.Due users earlier ∧ Sound users earlier

/-- A record of a sound history was due. -/
private theorem Sound.due {users : ℕ → Option DecodedUser} {later earlier : List Record}
    {r : Record}
    (h : Sound users (later ++ r :: earlier)) : r.Due users earlier := by
  induction later with
  | nil => exact h.1
  | cons _ later ih => exact ih h.2

/-- A record that is due stays so when more users are known. -/
theorem Record.Due.mono {users users' : ℕ → Option DecodedUser} {earlier : List Record} {r : Record}
    (hu : ∀ s u, users s = some u → users' s = some u) (h : r.Due users earlier) :
    r.Due users' earlier := by
  cases r with
  | emitted n s =>
    obtain ⟨user, target, huser, hrest⟩ := h
    exact ⟨user, target, hu s user huser, hrest⟩
  | handled n s =>
    obtain ⟨user, huser, hrest⟩ := h
    exact ⟨user, hu s user huser, hrest⟩
  | emitCalled _ _ | eventArrived _ _ | countStarted _ | checkStarted _ _ | sessionLive _ _
  | accountActive _ _ | checkPassed _ _ => trivial

/-- A sound history stays so when more users are known. -/
theorem Sound.mono {users users' : ℕ → Option DecodedUser} {history : List Record}
    (hu : ∀ s u, users s = some u → users' s = some u) (h : Sound users history) :
    Sound users' history := by
  induction history with
  | nil => trivial
  | cons r earlier ih => exact ⟨h.1.mono hu, ih h.2⟩

/-- What a check is for, as the history has it. -/
def Task.Origin (s : ℕ) (user : DecodedUser) (r : Record) : Task → Prop
  | .emit n _ => ∃ target, World.addressed target user = true ∧ r = .emitCalled n target
  | .clientEvent n => r = .eventArrived n s
  | .connection | .revalidation => True

/-- What a check has left in the history. -/
def Check.trail (k : ℕ) (c : Check) (origin : Record) : List Record :=
  match c.phase with
  | .expiry | .session => [.checkStarted k c.user, origin]
  | .account => [.sessionLive k c.user, .checkStarted k c.user, origin]
  | .expiryAgain => [.accountActive k c.user, .sessionLive k c.user, .checkStarted k c.user, origin]
  | .over => []

/-- Does the task deliver something? -/
def Task.delivers : Task → Bool
  | .emit _ _ | .clientEvent _ => true
  | .connection | .revalidation => false

/-- A check that delivers has its origin in the history. -/
def CheckOk (history : List Record) (k : ℕ) (c : Check) : Prop :=
  c.task.delivers = true →
    ∃ origin, c.task.Origin c.socket c.user origin ∧ (c.trail k origin).Sublist history

namespace World

variable {cfg : Config} {w w' : World}

/-- What holds in every state: the history is sound, and what is under way has its origin. -/
structure Delivers (w : World) : Prop where
  sound : Sound w.userOf w.history
  checks : ∀ (k : ℕ) c, w.checks[k]? = some c → CheckOk w.history k c
  owners : ∀ (k : ℕ) c, w.checks[k]? = some c → w.userOf c.socket = some c.user
  emits : ∀ (n : ℕ) e, w.emits[n]? = some e → .emitCalled n e.target ∈ w.history
  arrivals : ∀ (n : ℕ) a, w.arrivals[n]? = some a → .eventArrived n a.socket ∈ w.history

/-- Changes that keep the user keep all of them. -/
private theorem userOf_modify (s : ℕ) {f : Socket → Socket} (hf : ∀ so, (f so).user = so.user) :
    (w.modify s f).userOf = w.userOf := by
  funext t
  simp only [World.userOf, World.modify, List.getElem?_modify, Option.map_eq_map, Option.map_map]
  congr 1
  funext so
  simp only [Function.comp]
  split
  · exact hf so
  · rfl

/-- The invariant holds before anything has happened. -/
theorem Delivers.initial : World.initial.Delivers where
  sound := trivial
  checks k c h := by cases h
  owners k c h := by cases h
  emits n e h := by cases h
  arrivals n a h := by cases h

/-- Sockets change, and there may be more of them. -/
theorem Delivers.withSockets (hd : w.Delivers) {sockets : List Socket}
    (hu : ∀ s u, w.userOf s = some u → World.userOf { w with sockets } s = some u) :
    Delivers { w with sockets } where
  sound := hd.sound.mono hu
  checks := hd.checks
  owners k c hc := hu _ _ (hd.owners k c hc)
  emits := hd.emits
  arrivals := hd.arrivals

/-- A change that keeps the user of a socket keeps the invariant. -/
theorem Delivers.modify (hd : w.Delivers) (s : ℕ) {f : Socket → Socket}
    (hf : ∀ so, (f so).user = so.user) : (w.modify s f).Delivers := by
  refine hd.withSockets fun t u hu => ?_
  rw [← hu]
  exact congrFun (userOf_modify s hf) t

/-- Disconnecting a socket keeps the invariant. -/
theorem Delivers.disconnect (hd : w.Delivers) (s : ℕ) : (w.disconnect s).Delivers :=
  hd.modify s fun _ => rfl

/-- The history grows by what is due. -/
theorem Delivers.record (hd : w.Delivers) {r : Record} (hr : r.Due w.userOf w.history) :
    (w.record r).Delivers where
  sound := ⟨hr, hd.sound⟩
  checks k c hc hdelivers := by
    obtain ⟨origin, horigin, htrail⟩ := hd.checks k c hc hdelivers
    exact ⟨origin, horigin, htrail.cons r⟩
  owners := hd.owners
  emits n e he := List.mem_cons_of_mem r (hd.emits n e he)
  arrivals n a ha := List.mem_cons_of_mem r (hd.arrivals n a ha)

/-- Beginning a check with its origin keeps the invariant. -/
theorem Delivers.startCheck (hd : w.Delivers) {task : Task} {s : ℕ} {user : DecodedUser}
    (huser : w.userOf s = some user)
    (horigin : task.delivers = true → ∃ origin, task.Origin s user origin ∧ origin ∈ w.history) :
    (w.startCheck task s user).Delivers where
  sound := ⟨trivial, hd.sound⟩
  checks k c hc hdelivers := by
    rcases getElem?_concat_cases hc with hold | ⟨rfl, rfl⟩
    · obtain ⟨origin, horigin, htrail⟩ := hd.checks k c hold hdelivers
      exact ⟨origin, horigin, htrail.cons _⟩
    · obtain ⟨origin, ho, hmem⟩ := horigin hdelivers
      exact ⟨origin, ho, (List.singleton_sublist.mpr hmem).cons_cons _⟩
  owners k c hc := by
    rcases getElem?_concat_cases hc with hold | ⟨-, rfl⟩
    · exact hd.owners k c hold
    · exact huser
  emits n e he := List.mem_cons_of_mem _ (hd.emits n e he)
  arrivals n a ha := List.mem_cons_of_mem _ (hd.arrivals n a ha)

/-- Refusing a socket keeps the invariant. -/
theorem Delivers.reject (hd : w.Delivers) (task : Task) (s : ℕ) : (w.reject task s).Delivers := by
  unfold World.reject
  split
  · exact (hd.disconnect s).modify s fun _ => rfl
  · exact hd.disconnect s
  · exact hd.disconnect s
  · exact hd.disconnect s
  · exact hd

/-- Validating a socket with its origin keeps the invariant. -/
theorem Delivers.validate (hd : w.Delivers) {task : Task} {s : ℕ} {user : DecodedUser}
    (authenticated : Bool) (huser : w.userOf s = some user)
    (horigin : task.delivers = true → ∃ origin, task.Origin s user origin ∧ origin ∈ w.history) :
    (w.validate task s user authenticated).Delivers := by
  unfold World.validate
  split
  · exact hd.startCheck huser horigin
  · exact hd.reject task s

/-- The checks after one has moved on. -/
private theorem getElem?_setCheck {k j : ℕ} {phase : CheckPhase} {c : Check}
    (h : (w.setCheck k phase).checks[j]? = some c) :
    ∃ old, w.checks[j]? = some old ∧ (j = k ∧ c = { old with phase } ∨ j ≠ k ∧ c = old) := by
  simp only [World.setCheck, List.getElem?_modify, Option.map_eq_map] at h
  obtain ⟨old, hold, hc⟩ := Option.map_eq_some_iff.mp h
  refine ⟨old, hold, ?_⟩
  by_cases hj : k = j
  · exact .inl ⟨hj.symm, by simpa only [if_pos hj] using hc.symm⟩
  · exact .inr ⟨fun h => hj h.symm, by simpa only [if_neg hj] using hc.symm⟩

/-- A check goes on, and leaves in the history what its trail gains. -/
theorem Delivers.advance (hd : w.Delivers) {k : ℕ} {c : Check} (hc : w.checks[k]? = some c)
    {phase : CheckPhase} (new : List Record)
    (hdue : ∀ r ∈ new, ∀ users earlier, r.Due users earlier)
    (htrail : ∀ origin, ({ c with phase } : Check).trail k origin = [] ∨
      ({ c with phase } : Check).trail k origin = new ++ c.trail k origin) :
    Delivers { w.setCheck k phase with history := new ++ w.history } where
  sound := by
    have hgrow : ∀ l : List Record, (∀ r ∈ l, ∀ users earlier, r.Due users earlier) →
        Sound w.userOf (l ++ w.history) := by
      intro l hl
      induction l with
      | nil => exact hd.sound
      | cons r l ih =>
        exact ⟨hl r List.mem_cons_self _ _, ih fun r' hr' => hl r' (List.mem_cons_of_mem r hr')⟩
    exact hgrow new hdue
  checks j c' hc' hdelivers := by
    obtain ⟨old, hold, ⟨rfl, rfl⟩ | ⟨-, rfl⟩⟩ := getElem?_setCheck hc'
    · obtain rfl := Option.some.inj (hc.symm.trans hold)
      obtain ⟨origin, horigin, hsub⟩ := hd.checks j c hc hdelivers
      refine ⟨origin, horigin, ?_⟩
      rcases htrail origin with hnil | happend
      · rw [hnil]
        exact List.nil_sublist _
      · rw [happend]
        exact (List.Sublist.refl new).append hsub
    · obtain ⟨origin, horigin, hsub⟩ := hd.checks j c' hold hdelivers
      exact ⟨origin, horigin, hsub.trans (List.sublist_append_right new _)⟩
  owners j c' hc' := by
    obtain ⟨old, hold, ⟨rfl, rfl⟩ | ⟨-, rfl⟩⟩ := getElem?_setCheck hc'
    · exact hd.owners j old hold
    · exact hd.owners j c' hold
  emits n e he := List.mem_append_right _ (hd.emits n e he)
  arrivals n a ha := List.mem_append_right _ (hd.arrivals n a ha)

/-- What a check that has passed allows is due. -/
theorem Delivers.accept (hd : w.Delivers) {task : Task} {s : ℕ} {so : Socket} {user : DecodedUser}
    (huser : w.userOf s = some user)
    (hchecked : task.delivers = true →
      ∃ origin, task.Origin s user origin ∧ Checked user origin w.history) :
    (w.accept task s so).Delivers := by
  unfold World.accept
  split
  · split
    · exact hd
    · split
      · exact hd.modify s fun _ => rfl
      · exact hd.modify s fun _ => rfl
  · next n =>
    split
    · obtain ⟨_, rfl, hpassed⟩ := hchecked rfl
      exact hd.record ⟨user, huser, hpassed⟩
    · exact hd
  · exact hd
  · next n isLocal =>
    split
    · obtain ⟨_, ⟨target, haddressed, rfl⟩, hpassed⟩ := hchecked rfl
      exact hd.record ⟨user, target, huser, haddressed, hpassed⟩
    · exact hd

/-- A step of a check keeps the invariant. -/
theorem Delivers.runCheck (hd : w.Delivers) {k : ℕ} {c : Check} (hc : w.checks[k]? = some c)
    {so : Socket} (hstep : w.runCheck k c so = some w') : w'.Delivers := by
  have hover : (w.setCheck k .over).Delivers :=
    hd.advance hc [] (fun r hr => absurd hr List.not_mem_nil) fun _ => .inl rfl
  have hfailed := hover.reject c.task c.socket
  unfold World.runCheck at hstep
  dsimp only at hstep
  split at hstep
  · next hphase =>
    split at hstep
    · obtain rfl := Option.some.inj hstep
      refine hd.advance hc [] (fun r hr => absurd hr List.not_mem_nil) fun _ => .inr ?_
      simp only [Check.trail, hphase, List.nil_append]
    · exact Option.some.inj hstep ▸ hfailed
  · next hphase =>
    split at hstep
    · obtain rfl := Option.some.inj hstep
      refine hd.advance hc [.sessionLive k c.user] (fun r hr => ?_) fun _ => .inr ?_
      · obtain rfl := List.mem_singleton.mp hr
        exact fun _ _ => trivial
      · simp only [Check.trail, hphase, List.singleton_append]
    · exact Option.some.inj hstep ▸ hfailed
  · next hphase =>
    split at hstep
    · obtain rfl := Option.some.inj hstep
      refine hd.advance hc [.accountActive k c.user] (fun r hr => ?_) fun _ => .inr ?_
      · obtain rfl := List.mem_singleton.mp hr
        exact fun _ _ => trivial
      · simp only [Check.trail, hphase, List.singleton_append]
    · exact Option.some.inj hstep ▸ hfailed
  · next hphase =>
    split at hstep
    · next hunexpired =>
      obtain rfl := Option.some.inj hstep
      refine (hover.record (r := .checkPassed k w.now) trivial).accept (hd.owners k c hc) ?_
      intro hdelivers
      obtain ⟨origin, horigin, htrail⟩ := hd.checks k c hc hdelivers
      simp only [Check.trail, hphase] at htrail
      exact ⟨origin, horigin, k, w.now, hunexpired, htrail.cons_cons _⟩
    · exact Option.some.inj hstep ▸ hfailed
  · cases hstep

/-- A step of the connection handler keeps the invariant. -/
theorem Delivers.handleConnection (hd : w.Delivers) {s : ℕ} {so : Socket}
    (hstep : w.handleConnection cfg s so = some w') : w'.Delivers := by
  unfold World.handleConnection at hstep
  split at hstep
  · split at hstep
    · exact Option.some.inj hstep ▸ (hd.disconnect s).modify s fun _ => rfl
    · exact Option.some.inj hstep ▸ hd.modify s fun _ => rfl
  · split at hstep
    · exact Option.some.inj hstep ▸ (hd.disconnect s).modify s fun _ => rfl
    · exact Option.some.inj hstep ▸ hd.modify s fun _ => rfl
  · obtain rfl := Option.some.inj hstep
    refine Delivers.record (r := .countStarted s) ?_ trivial
    exact hd.modify s fun _ => rfl
  · split at hstep
    · obtain rfl := Option.some.inj hstep
      split
      · exact hd.modify s fun _ => rfl
      · exact (hd.disconnect s).modify s fun _ => rfl
    · exact Option.some.inj hstep ▸ hd.modify s fun _ => rfl
  all_goals cases hstep

/-- Counting the connections keeps the invariant. -/
theorem Delivers.countReturns (hd : w.Delivers) {s : ℕ} {so : Socket}
    (hs : w.sockets[s]? = some so) (hstep : w.countReturns cfg s so = some w') : w'.Delivers := by
  unfold World.countReturns at hstep
  split at hstep
  · split at hstep
    · obtain rfl := Option.some.inj hstep
      have hphase := hd.modify (f := fun so => { so with phase := .checking }) s fun _ => rfl
      refine hphase.startCheck ?_ fun h => by cases h
      refine (congrFun (userOf_modify s ?_) s).trans ?_
      · exact fun _ => rfl
      · simp only [World.userOf, hs, Option.map_some]
    · exact Option.some.inj hstep ▸ (hd.disconnect s).modify s fun _ => rfl
  · cases hstep

/-- An event arrives, and may be passed on to the budget. -/
theorem Delivers.arrive (hd : w.Delivers) {s : ℕ}
    (harrived : .eventArrived w.arrivals.length s ∈ w.history) (waiting : Bool) :
    (w.arrive s waiting).Delivers where
  sound := hd.sound
  checks := hd.checks
  owners := hd.owners
  emits := hd.emits
  arrivals n a ha := by
    rcases getElem?_concat_cases ha with hold | ⟨rfl, rfl⟩
    · exact hd.arrivals n a hold
    · exact harrived

/-- An event from a client keeps the invariant. -/
theorem Delivers.eventArrives (hd : w.Delivers) (s : ℕ) (so : Socket) :
    (w.eventArrives cfg s so).Delivers := by
  have hrecorded : (w.record (.eventArrived w.arrivals.length s)).Delivers := hd.record trivial
  unfold World.eventArrives
  dsimp only
  split
  · exact hrecorded.arrive List.mem_cons_self false
  · split
    · refine Delivers.arrive (Delivers.disconnect ?_ s) List.mem_cons_self false
      exact hrecorded.modify s fun _ => rfl
    · refine Delivers.arrive ?_ List.mem_cons_self true
      exact hrecorded.modify s fun _ => rfl

/-- Charging an event keeps the invariant. -/
theorem Delivers.budget (hd : w.Delivers) {n : ℕ} {a : Arrival} (ha : w.arrivals[n]? = some a)
    {so : Socket} (hs : w.sockets[a.socket]? = some so) (allowed : Bool) :
    (w.budget n a so allowed).Delivers := by
  have harrivals : Delivers { w with arrivals := w.arrivals.set n ⟨a.socket, false⟩ } := by
    refine ⟨hd.sound, hd.checks, hd.owners, hd.emits, fun m b hb => ?_⟩
    rw [List.getElem?_set] at hb
    split at hb
    · next hn =>
      split at hb
      · obtain rfl := Option.some.inj hb
        exact hn ▸ hd.arrivals n a ha
      · cases hb
    · exact hd.arrivals m b hb
  unfold World.budget
  split
  · refine harrivals.validate _ ?_ fun _ => ⟨_, rfl, hd.arrivals n a ha⟩
    simp only [World.userOf, hs, Option.map_some]
  · exact harrivals.disconnect _

/-- An emit keeps its target. -/
theorem Delivers.setEmit (hd : w.Delivers) {n : ℕ} {e : Emit} (he : w.emits[n]? = some e)
    (e' : Emit) (htarget : e'.target = e.target) :
    Delivers { w with emits := w.emits.set n e' } where
  sound := hd.sound
  checks := hd.checks
  owners := hd.owners
  emits m b hb := by
    rw [List.getElem?_set] at hb
    split at hb
    · next hn =>
      split at hb
      · obtain rfl := Option.some.inj hb
        rw [htarget]
        exact hn ▸ hd.emits n e he
      · cases hb
    · exact hd.emits m b hb
  arrivals := hd.arrivals

/-- Validating an emission keeps the invariant. -/
theorem Delivers.emitValidates (hd : w.Delivers) {n : ℕ} {e : Emit} (he : w.emits[n]? = some e)
    (hstep : w.emitValidates n e = some w') : w'.Delivers := by
  unfold World.emitValidates at hstep
  split at hstep
  · next s copy found hleft hfound =>
    obtain ⟨so, hs, rfl⟩ := Option.map_eq_some_iff.mp hstep
    have hset := hd.setEmit he { e with found } rfl
    dsimp only
    split
    · next haddressed =>
      refine hset.validate _ ?_ fun _ => ⟨_, ⟨e.target, haddressed, rfl⟩, hd.emits n e he⟩
      simp only [World.userOf, hs, Option.map_some]
    · exact hset
  · cases hstep

/-- Every event keeps the invariant. -/
theorem Delivers.step (hd : w.Delivers) {e : Event} (hstep : w.step cfg e = some w') :
    w'.Delivers := by
  cases e with
  | connects node user =>
    simp only [World.step, World.connects] at hstep
    split at hstep
    · obtain rfl := Option.some.inj hstep
      refine hd.withSockets fun s u hu => ?_
      obtain ⟨so, hs, rfl⟩ := Option.map_eq_some_iff.mp hu
      have hlt : s < w.sockets.length := (List.getElem?_eq_some_iff.mp hs).1
      simp only [World.userOf, List.getElem?_append_left hlt, hs, Option.map_some]
    · cases hstep
  | disconnects s =>
    obtain rfl := Option.some.inj hstep
    exact hd.disconnect s
  | continues s =>
    obtain ⟨so, -, hstep⟩ := Option.bind_eq_some_iff.mp hstep
    exact hd.handleConnection hstep
  | nodeCounts s node =>
    obtain ⟨so, -, hstep⟩ := Option.bind_eq_some_iff.mp hstep
    unfold World.nodeCounts at hstep
    split at hstep
    · exact Option.some.inj hstep ▸ hd.modify s fun _ => rfl
    · cases hstep
  | countReturns s =>
    obtain ⟨so, hs, hstep⟩ := Option.bind_eq_some_iff.mp hstep
    exact hd.countReturns hs hstep
  | countFails s =>
    obtain ⟨so, -, hstep⟩ := Option.bind_eq_some_iff.mp hstep
    split at hstep
    · exact Option.some.inj hstep ▸ (hd.disconnect s).modify s fun _ => rfl
    · cases hstep
  | eventArrives s =>
    obtain ⟨so, -, rfl⟩ := Option.map_eq_some_iff.mp hstep
    exact hd.eventArrives s so
  | budget n allowed =>
    obtain ⟨a, ha, hstep⟩ := Option.bind_eq_some_iff.mp hstep
    obtain ⟨so, hs, hstep⟩ := Option.bind_eq_some_iff.mp hstep
    split at hstep
    · exact Option.some.inj hstep ▸ hd.budget ha hs allowed
    · cases hstep
  | timerFires s =>
    obtain ⟨so, hs, hstep⟩ := Option.bind_eq_some_iff.mp hstep
    split at hstep
    · obtain rfl := Option.some.inj hstep
      refine hd.validate _ ?_ fun h => by cases h
      simp only [World.userOf, hs, Option.map_some]
    · cases hstep
  | emits node target =>
    obtain rfl := Option.some.inj hstep
    have hrecorded := hd.record (r := .emitCalled w.emits.length target) trivial
    refine ⟨hrecorded.sound, hrecorded.checks, hrecorded.owners, fun n e he => ?_,
      hrecorded.arrivals⟩
    rcases getElem?_concat_cases he with hold | ⟨rfl, rfl⟩
    · exact hrecorded.emits n e hold
    · exact List.mem_cons_self
  | nodeAnswers n node =>
    obtain ⟨e, he, hstep⟩ := Option.bind_eq_some_iff.mp hstep
    unfold World.nodeAnswers at hstep
    split at hstep
    · obtain rfl := Option.some.inj hstep
      exact hd.setEmit he _ rfl
    · cases hstep
  | emitValidates n =>
    obtain ⟨e, he, hstep⟩ := Option.bind_eq_some_iff.mp hstep
    exact hd.emitValidates he hstep
  | checkRuns k =>
    obtain ⟨c, hc, hstep⟩ := Option.bind_eq_some_iff.mp hstep
    obtain ⟨so, -, hstep⟩ := Option.bind_eq_some_iff.mp hstep
    exact hd.runCheck hc hstep
  | checkFails k =>
    obtain ⟨c, hc, hstep⟩ := Option.bind_eq_some_iff.mp hstep
    split at hstep
    · cases hstep
    · obtain rfl := Option.some.inj hstep
      refine Delivers.reject ?_ c.task c.socket
      exact hd.advance hc [] (fun r hr => absurd hr List.not_mem_nil) fun _ => .inl rfl
  | sessionChanges sid publicId live =>
    obtain rfl := Option.some.inj hstep
    exact ⟨hd.sound, hd.checks, hd.owners, hd.emits, hd.arrivals⟩
  | accountChanges publicId active =>
    obtain rfl := Option.some.inj hstep
    exact ⟨hd.sound, hd.checks, hd.owners, hd.emits, hd.arrivals⟩
  | tick milliseconds =>
    obtain rfl := Option.some.inj hstep
    exact ⟨hd.sound, hd.checks, hd.owners, hd.emits, hd.arrivals⟩

end World

/-- In every run of any number of nodes: what is emitted on a socket, and what reaches a
handler, comes after a session check of the socket's user that started after the emit was
called, or after the event arrived, and passed; a directed emit reaches its addressee only; and
no more sockets of a user are marked than the limit. -/
theorem socketDelivery {cfg : Config} {events : List Event} {w : World}
    (hrun : Run (Graph (World.step cfg)) World.initial events w) :
    (∀ later earlier n s, w.history = later ++ .emitted n s :: earlier →
      ∃ user target, w.userOf s = some user ∧ World.addressed target user = true ∧
        Checked user (.emitCalled n target) earlier) ∧
    (∀ later earlier n s, w.history = later ++ .handled n s :: earlier →
      ∃ user, w.userOf s = some user ∧ Checked user (.eventArrived n s) earlier) ∧
    ∀ userPublicId, w.sockets.countP (fun so =>
      so.user.publicId == userPublicId && so.authenticated) ≤ cfg.connectionLimit := by
  have hd : w.Delivers :=
    hrun.invariant (fun _ _ _ hd h => World.Delivers.step hd h) World.Delivers.initial
  have hl : w.Limited cfg :=
    hrun.invariant (fun _ _ _ hl h => World.Limited.step hl h) World.limited_initial
  refine ⟨fun later earlier n s hhistory => ?_, fun later earlier n s hhistory => ?_,
    Counts.le_limit hl⟩
  · have hsound := hd.sound
    rw [hhistory] at hsound
    exact hsound.due
  · have hsound := hd.sound
    rw [hhistory] at hsound
    exact hsound.due

/-- Two nodes that allow a user one connection. -/
def pair : Config := ⟨[0, 1], 1, 60, 60000⟩

/-- The user of the examples. -/
def alice : DecodedUser := ⟨"alice", "s1", some 900⟩

/-- Two sockets of a user on two nodes count at the same time, and only the one whose count
starts later finds both. The first is authenticated, is sent an emit, and sends an event; then
its session is revoked, and another emit finds it no more. -/
def twoNodes : List Event :=
  [.sessionChanges "s1" "alice" true, .accountChanges "alice" true, .connects 0 alice,
    .connects 1 alice, .continues 0, .continues 0, .continues 0, .nodeCounts 0 0, .nodeCounts 0 1,
    .continues 1, .continues 1, .continues 1, .countReturns 0, .nodeCounts 1 1, .nodeCounts 1 0,
    .countReturns 1, .checkRuns 0, .checkRuns 0, .checkRuns 0, .checkRuns 0, .continues 0,
    .emits 1 (some "alice"), .nodeAnswers 0 0, .nodeAnswers 0 1, .emitValidates 0, .checkRuns 1,
    .checkRuns 1, .checkRuns 1, .checkRuns 1, .eventArrives 0, .budget 0 true, .checkRuns 2,
    .checkRuns 2, .checkRuns 2, .checkRuns 2, .sessionChanges "s1" "alice" false,
    .emits 0 none, .nodeAnswers 1 0, .nodeAnswers 1 1, .emitValidates 1, .checkRuns 3, .checkRuns 3]

/-- Two sockets on two nodes; the one beyond the limit receives nothing. -/
theorem socketDelivery_twoNodes :
    ∃ w, Run (Graph (World.step pair)) World.initial twoNodes w ∧
      w.history.filter (fun r => r == .emitted 0 0 || r == .emitted 1 0 || r == .handled 0 0) =
        [.handled 0 0, .emitted 0 0] ∧
      w.sockets.map (·.connected) = [false, false] ∧
      w.sockets.countP (fun so => so.user.publicId == "alice" && so.authenticated) ≤ 1 := by
  obtain ⟨w, hrun, hw⟩ : ∃ w, Run (Graph (World.step pair)) World.initial twoNodes w ∧
      decide (w.history.filter (fun r => r == .emitted 0 0 || r == .emitted 1 0 ||
        r == .handled 0 0) = [.handled 0 0, .emitted 0 0] ∧
        w.sockets.map (·.connected) = [false, false]) = true := exec_any (by decide +kernel)
  obtain ⟨hhistory, hsockets⟩ := of_decide_eq_true hw
  exact ⟨w, hrun, hhistory, hsockets, (socketDelivery hrun).2.2 "alice"⟩

end Ascendance.SocketServer
