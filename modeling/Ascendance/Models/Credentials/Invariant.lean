import Ascendance.Models.Credentials.World

/-!
# What the version of a user counts

The version of the user is its first version plus the changes of its password. A
session carries the version its login read, through every rewrite of its record,
so equal versions mean that no change lies between the two lookups.
-/

namespace Ascendance.Credentials

open Ascendance.Core Ascendance.Session
open Ascendance.Outbox (Reply)

/-- The user, the tokens and the changes fit together. -/
structure Ledger (cfg : Settings) (v₀ : Int) (users : Versioned String UserDocument)
    (tokens : List Token) (changes : List Change) (passwords : List String) : Prop where
  version : ∀ u, users.doc cfg.publicId = some u → u.version = v₀ + changes.length
  count : passwords.length = changes.length + 1
  password : ∀ u, users.doc cfg.publicId = some u → passwords[changes.length]? = some u.password
  /-- The token of the user was stored after the last change. -/
  token : ∀ u tokenHash expires, users.doc cfg.publicId = some u → u.resetToken = some tokenHash →
    u.resetTokenExpires = some expires → ⟨tokenHash, expires, changes.length⟩ ∈ tokens
  nodup : (tokens.map (·.hash)).Nodup
  /-- A reset found its token unexpired, with no change since it was stored. -/
  resets : ∀ k tokenHash now, changes[k]? = some (.reset tokenHash now) →
    ∃ token ∈ tokens, token.hash = tokenHash ∧ now < token.expires ∧ token.epoch = k
  /-- A change verified its current password against the one in force and stored its new one. -/
  changed : ∀ k current new, changes[k]? = some (.changed current new) →
    ∃ password salt, passwords[k]? = some password ∧
      cfg.verifyPassword current password = true ∧
      passwords[k + 1]? = some (cfg.hashPassword salt new)

/-- The attempts under way have snapshots that the documents developed from. -/
def Attempts (cfg : Settings) (users : Versioned String UserDocument) (call : ℕ → Call) : Prop :=
  ∀ i current new snapshot, call i = .changing current new (some snapshot) →
    snapshot.Since users ∧
    ∀ u, snapshot.doc cfg.publicId = some u → cfg.verifyPassword current u.password = true

/-- A record of the user carries the version that its login read. -/
def Carries (cfg : Settings) (v₀ : Int) (logins : List Login) (sid : String) (t : SessionTable) :
    Prop :=
  t.publicId = .string cfg.publicId ∧
    ∃ epoch : ℕ, t.authVersion = .number (v₀ + epoch) ∧ ⟨sid, epoch⟩ ∈ logins

/-- Every stored session is the record of a login. -/
def Recorded (cfg : Settings) (v₀ : Int) (logins : List Login) (store : SessionStore) : Prop :=
  ∀ sid e, store.session sid = some e → ∃ t, e.value = .record t ∧ Carries cfg v₀ logins sid t

/-- What a call knows of the session it works on. -/
def Call.Knows (cfg : Settings) (v₀ : Int) (logins : List Login) : Call → Prop
  | .loggingIn u epoch => u.version = v₀ + epoch
  | .accessing sid t | .refreshing sid t _ => Carries cfg v₀ logins sid t
  | .touching sid _ epoch | .rotating sid _ _ _ epoch => ⟨sid, epoch⟩ ∈ logins
  | .idle | .requesting _ | .resetting _ _ _ | .changing _ _ _ => True

/-- What holds in every reachable world: the ledger of versions and tokens, the calls' knowledge,
the stored sessions and the sessions that were let in. -/
structure Inv (cfg : Settings) (v₀ : Int) (w : World) : Prop where
  ledger : Ledger cfg v₀ w.users w.tokens w.changes w.passwords
  attempts : Attempts cfg w.users w.call
  calls : ∀ i, (w.call i).Knows cfg v₀ w.logins
  sessions : Recorded cfg v₀ w.logins w.store
  successes : ∀ x ∈ w.successes, ⟨x.sid, x.epoch⟩ ∈ w.logins
  logins : (w.logins.map (·.sid)).Nodup

variable {cfg : Settings} {v₀ : Int} {w w' : World}

section Users

variable {users : Versioned String UserDocument} {tokens : List Token} {changes : List Change}
  {passwords : List String} {u : UserDocument}

/-- An update of other fields. -/
theorem Ledger.write (h : Ledger cfg v₀ users tokens changes passwords)
    (hu : users.doc cfg.publicId = some u) {u' : UserDocument} (hp : u'.password = u.password)
    (hv : u'.authVersion = u.authVersion) (ht : u'.resetToken = u.resetToken)
    (he : u'.resetTokenExpires = u.resetTokenExpires) :
    Ledger cfg v₀ (users.write cfg.publicId (some u')) tokens changes passwords where
  version := by
    intro x hx
    obtain rfl : u' = x := by simpa using hx
    unfold UserDocument.version
    rw [hv]
    exact h.version u hu
  count := h.count
  password := by
    intro x hx
    obtain rfl : u' = x := by simpa using hx
    rw [hp]
    exact h.password u hu
  token := by
    intro x tokenHash expires hx hxt hxe
    obtain rfl : u' = x := by simpa using hx
    exact h.token u tokenHash expires hu (ht ▸ hxt) (he ▸ hxe)
  nodup := h.nodup
  resets := h.resets
  changed := h.changed

/-- Deleting the user keeps the ledger. -/
theorem Ledger.delete (h : Ledger cfg v₀ users tokens changes passwords) :
    Ledger cfg v₀ (users.write cfg.publicId none) tokens changes passwords where
  version := by simp
  count := h.count
  password := by simp
  token := by simp
  nodup := h.nodup
  resets := h.resets
  changed := h.changed

/-- A new token is stored. -/
theorem Ledger.store (h : Ledger cfg v₀ users tokens changes passwords)
    (hu : users.doc cfg.publicId = some u) {tokenHash : String} {expires : Int}
    (hn : tokenHash ∉ tokens.map (·.hash)) :
    Ledger cfg v₀ (users.write cfg.publicId
        (some { u with resetToken := some tokenHash, resetTokenExpires := some expires }))
      (tokens ++ [⟨tokenHash, expires, changes.length⟩]) changes passwords where
  version := by
    intro x hx
    obtain rfl : { u with
      resetToken := some tokenHash, resetTokenExpires := some expires } = x := by simpa using hx
    exact h.version u hu
  count := h.count
  password := by
    intro x hx
    obtain rfl : { u with
      resetToken := some tokenHash, resetTokenExpires := some expires } = x := by simpa using hx
    exact h.password u hu
  token := by
    intro x t e hx hxt hxe
    obtain rfl : { u with
      resetToken := some tokenHash, resetTokenExpires := some expires } = x := by simpa using hx
    obtain rfl : tokenHash = t := by simpa using hxt
    obtain rfl : expires = e := by simpa using hxe
    exact List.mem_append_right _ (List.mem_singleton_self _)
  nodup := by
    rw [List.map_append]
    exact h.nodup.append (List.nodup_singleton _) (by simpa using hn)
  resets := by
    intro k t now hk
    obtain ⟨token, hmem, htoken⟩ := h.resets k t now hk
    exact ⟨token, List.mem_append_left _ hmem, htoken⟩
  changed := h.changed

/-- The changes before the last one, and the last one. -/
theorem getElem_append_change {change : Change} {k : ℕ} {c : Change}
    (h : (changes ++ [change])[k]? = some c) :
    changes[k]? = some c ∨ (k = changes.length ∧ c = change) := by
  rcases Nat.lt_or_ge k changes.length with hlt | hge
  · rw [List.getElem?_append_left hlt] at h
    exact .inl h
  · rw [List.getElem?_append_right hge] at h
    obtain ⟨hlen, hc⟩ := List.getElem?_eq_some_iff.mp h
    have hk : k = changes.length := by
      simp only [List.length_singleton] at hlen
      omega
    subst hk
    exact .inr ⟨rfl, by simpa using hc.symm⟩

/-- A change of the password, by a call that changes it or by one that resets it. -/
theorem Ledger.change (h : Ledger cfg v₀ users tokens changes passwords)
    (hu : users.doc cfg.publicId = some u) (salt new : String) {change : Change}
    (hreset : ∀ tokenHash now, change = .reset tokenHash now →
      ∃ expires, u.resetToken = some tokenHash ∧ u.resetTokenExpires = some expires ∧ now < expires)
    (hchanged : ∀ current new', change = .changed current new' →
      new' = new ∧ cfg.verifyPassword current u.password = true) :
    Ledger cfg v₀
      (users.write cfg.publicId (some (u.passwordChanged (cfg.hashPassword salt new)))) tokens
      (changes ++ [change]) (passwords ++ [cfg.hashPassword salt new]) := by
  have hkeep : ∀ {k : ℕ} {p : String}, passwords[k]? = some p →
      (passwords ++ [cfg.hashPassword salt new])[k]? = some p := by
    intro k p hp
    obtain ⟨hlt, -⟩ := List.getElem?_eq_some_iff.mp hp
    rw [List.getElem?_append_left hlt]
    exact hp
  have hlast : (passwords ++ [cfg.hashPassword salt new])[changes.length + 1]? =
      some (cfg.hashPassword salt new) := by
    rw [← h.count]
    simp
  constructor
  · intro x hx
    obtain rfl : u.passwordChanged (cfg.hashPassword salt new) = x := by simpa using hx
    have hv := h.version u hu
    unfold UserDocument.version UserDocument.passwordChanged at *
    simp only [Option.getD_some, List.length_append, List.length_singleton]
    unfold UserDocument.version
    omega
  · simp [h.count]
  · intro x hx
    obtain rfl : u.passwordChanged (cfg.hashPassword salt new) = x := by simpa using hx
    rw [List.length_append, List.length_singleton]
    exact hlast
  · intro x tokenHash expires hx hxt
    obtain rfl : u.passwordChanged (cfg.hashPassword salt new) = x := by simpa using hx
    cases hxt
  · exact h.nodup
  · intro k tokenHash now hk
    rcases getElem_append_change hk with hk | ⟨rfl, rfl⟩
    · exact h.resets k tokenHash now hk
    · obtain ⟨expires, htoken, hexpires, hnow⟩ := hreset tokenHash now rfl
      exact ⟨_, h.token u tokenHash expires hu htoken hexpires, rfl, hnow, rfl⟩
  · intro k current new' hk
    rcases getElem_append_change hk with hk | ⟨rfl, rfl⟩
    · obtain ⟨password, salt', hp, hv, hn⟩ := h.changed k current new' hk
      exact ⟨password, salt', hkeep hp, hv, hkeep hn⟩
    · obtain ⟨rfl, hv⟩ := hchanged current new' rfl
      exact ⟨u.password, salt, hkeep (h.password u hu), hv, hlast⟩

/-- Writes only develop the documents further. -/
theorem Attempts.write {call : ℕ → Call} (h : Attempts cfg users call) (k : String)
    (d : Option UserDocument) : Attempts cfg (users.write k d) call := by
  intro i current new snapshot hc
  obtain ⟨hsince, hv⟩ := h i current new snapshot hc
  exact ⟨hsince.write k d, hv⟩

/-- A call that is not in an attempt adds none. -/
theorem Attempts.update {call : ℕ → Call} (h : Attempts cfg users call) (i : ℕ) {c : Call}
    (hc : ∀ current new snapshot, c ≠ .changing current new (some snapshot)) :
    Attempts cfg users (Function.update call i c) := by
  intro j current new snapshot hj
  by_cases hji : j = i
  · subst hji
    exact absurd (by simpa using hj) (hc current new snapshot)
  · exact h j current new snapshot (by simpa [hji] using hj)

end Users

section Sessions

variable {logins logins' : List Login} {s : SessionStore} {sid : String} {t t' : SessionTable}

/-- A ticket that a login backs is backed after further logins. -/
theorem Carries.mono (h : Carries cfg v₀ logins sid t) (hsub : logins ⊆ logins') :
    Carries cfg v₀ logins' sid t := by
  obtain ⟨hid, epoch, hv, hl⟩ := h
  exact ⟨hid, epoch, hv, hsub hl⟩

/-- A rewrite of metadata carries the version along. -/
theorem Carries.patched (h : Carries cfg v₀ logins sid t) (hp : Patched t t') :
    Carries cfg v₀ logins sid t' := by
  obtain ⟨hid, epoch, hv, hl⟩ := h
  exact ⟨hp.publicId.trans hid, epoch, hp.authVersion.trans hv, hl⟩

/-- Sessions recorded by logins are recorded after further logins. -/
theorem Recorded.mono (h : Recorded cfg v₀ logins s) (hsub : logins ⊆ logins') :
    Recorded cfg v₀ logins' s := by
  intro sid e he
  obtain ⟨t, ht, hc⟩ := h sid e he
  exact ⟨t, ht, hc.mono hsub⟩

/-- What `GET` decodes is the record of a login. -/
theorem Recorded.get (h : Recorded cfg v₀ logins s)
    (hg : s.sessions.get s.clock sid = some (.record t)) : Carries cfg v₀ logins sid t := by
  obtain ⟨expireAt, he⟩ := SessionStore.get_eq_some hg
  obtain ⟨t', ht, hc⟩ := h sid _ he
  obtain rfl : t = t' := by simpa using ht
  exact hc

/-- Every command but a login leaves records of logins. -/
theorem Recorded.run (h : Recorded cfg v₀ logins s) {c : Command}
    (hc : ∀ session ttlSeconds, c ≠ .save session ttlSeconds) :
    Recorded cfg v₀ logins (s.run c) := by
  intro sid e' he'
  rcases SessionStore.run_session (fun session ttlSeconds hs => absurd hs (hc _ _)) he' with
    he | ⟨t, t', he, hp, hv⟩ | ⟨input, t, expireAt, -, -, he, -, hv⟩
  · exact h sid e' he
  · obtain ⟨t₁, ht₁, hcarries⟩ := h sid _ he
    obtain rfl : t = t₁ := by simpa using ht₁
    exact ⟨t', hv, hcarries.patched hp⟩
  · obtain ⟨t₁, ht₁, hcarries⟩ := h sid _ he
    obtain rfl : t = t₁ := by simpa using ht₁
    -- The rotation script replaces other fields than the owner and the version.
    exact ⟨_, hv, hcarries⟩

/-- Revoking sessions keeps the others recorded. -/
theorem Recorded.deleteUserSessions (h : Recorded cfg v₀ logins s) (publicId : String)
    (sessionIds : Finset String) :
    Recorded cfg v₀ logins (s.deleteUserSessions publicId sessionIds) := by
  intro sid e he
  rw [SessionStore.session_deleteUserSessions] at he
  split at he
  · cases he
  · exact h sid e he

/-- A login stores the version that it read. -/
theorem Recorded.save (h : Recorded cfg v₀ logins s) {session : AuthSessionRecord} {epoch : ℕ}
    (ttlSeconds : ℕ+) (hid : session.publicId = cfg.publicId)
    (hv : session.authVersion = v₀ + epoch) :
    Recorded cfg v₀ (logins ++ [⟨session.sid, epoch⟩]) (s.save session ttlSeconds) := by
  intro sid e he
  by_cases hs : sid = session.sid
  · subst hs
    rw [SessionStore.session_save_self] at he
    obtain rfl := Option.some.inj he
    refine ⟨_, rfl, congrArg LuaValue.string hid, epoch, congrArg LuaValue.number hv, ?_⟩
    exact List.mem_append_right _ (List.mem_singleton_self _)
  · rw [SessionStore.session_save_ne s session ttlSeconds hs] at he
    exact h.mono (List.subset_append_left _ _) sid e he

/-- What a call knows it knows after further logins. -/
theorem Call.Knows.mono {c : Call} (h : c.Knows cfg v₀ logins) (hsub : logins ⊆ logins') :
    c.Knows cfg v₀ logins' := by
  cases c with
  | loggingIn u epoch => exact h
  | accessing sid t => exact Carries.mono h hsub
  | refreshing sid t presented => exact Carries.mono h hsub
  | touching sid t epoch => exact hsub h
  | rotating sid publicId t presented epoch => exact hsub h
  | idle | requesting | resetting | changing => trivial

end Sessions

/-- The invariant holds at the start. -/
theorem Inv.init (cfg : Settings) (user : UserDocument) :
    Inv cfg user.version (World.init cfg user) where
  ledger := {
    version := by
      intro u hu
      obtain rfl : user = u := by simpa [World.init] using hu
      simp [World.init]
    count := rfl
    password := by
      intro u hu
      obtain rfl : user = u := by simpa [World.init] using hu
      rfl
    token := by
      intro u tokenHash expires hu ht he
      obtain rfl : user = u := by simpa [World.init] using hu
      simp [World.init, ht, he]
    nodup := by
      unfold World.init
      dsimp only
      split
      · exact List.nodup_singleton _
      · exact List.nodup_nil
    resets := by
      intro k tokenHash now hk
      simp [World.init] at hk
    changed := by
      intro k current new hk
      simp [World.init] at hk }
  attempts := by
    intro i current new snapshot hc
    cases hc
  calls := fun i => trivial
  sessions := by
    intro sid e he
    cases he
  successes := by
    intro x hx
    cases hx
  logins := List.nodup_nil

/-- A call moves on and nothing else changes. -/
theorem Inv.setCall (hi : Inv cfg v₀ w) (i : ℕ) {c : Call} (hk : c.Knows cfg v₀ w.logins)
    (hc : ∀ current new snapshot, c ≠ .changing current new (some snapshot)) :
    Inv cfg v₀ (w.setCall i c) where
  ledger := hi.ledger
  attempts := hi.attempts.update i hc
  calls := by
    intro j
    by_cases hj : j = i
    · subst hj
      simpa [World.setCall] using hk
    · simpa [World.setCall, hj] using hi.calls j
  sessions := hi.sessions
  successes := hi.successes
  logins := hi.logins

/-- A call that gives up keeps the invariant. -/
theorem Inv.idle (hi : Inv cfg v₀ w) (i : ℕ) : Inv cfg v₀ (w.setCall i .idle) :=
  hi.setCall i trivial (by simp)

/-- The last command of a call, with the success that its answer would be. -/
theorem Inv.redis (hi : Inv cfg v₀ w) (i : ℕ) {store : SessionStore} {success : Option Success}
    (hs : Recorded cfg v₀ w.logins store)
    (hx : ∀ x, success = some x → (⟨x.sid, x.epoch⟩ : Login) ∈ w.logins) (reply : Reply) :
    Inv cfg v₀ (w.redis i store success reply) := by
  have hidle := hi.idle i
  cases reply with
  | answered =>
    refine ⟨hidle.ledger, hidle.attempts, hidle.calls, hs, ?_, hidle.logins⟩
    intro x hmem
    rcases List.mem_append.mp hmem with hmem | hmem
    · exact hi.successes x hmem
    · exact hx x (by simpa using hmem)
  | lost _ => exact ⟨hidle.ledger, hidle.attempts, hidle.calls, hs, hidle.successes, hidle.logins⟩
  | refused _ => exact hidle

/-- A login keeps the invariant. -/
theorem Inv.login (hi : Inv cfg v₀ w) (i : ℕ) (password : String) :
    Inv cfg v₀ (w.login cfg i password) := by
  unfold World.login
  split
  · exact hi
  next u hu =>
  split
  · exact hi
  · exact hi.setCall i (hi.ledger.version u hu) (by simp)

/-- Creating a session keeps the invariant. -/
theorem Inv.createSession (hi : Inv cfg v₀ w) {i : ℕ} {sid refreshTokenHash : String}
    {ttlSeconds : ℕ+} {ip userAgent : Option String} {reply : Reply}
    (hs : w.createSession cfg i sid refreshTokenHash ttlSeconds ip userAgent reply = some w') :
    Inv cfg v₀ w' := by
  unfold World.createSession at hs
  split at hs
  next u epoch hc =>
    split at hs
    · cases hs
    next hnew =>
    have hknows : u.version = v₀ + epoch := by simpa [hc, Call.Knows] using hi.calls i
    have hidle := hi.idle i
    have hstored : ∀ session : AuthSessionRecord, session.sid = sid →
        session.publicId = cfg.publicId → session.authVersion = u.version →
        Inv cfg v₀ { w.setCall i .idle with
          store := w.store.save session ttlSeconds, logins := w.logins ++ [⟨sid, epoch⟩] } := by
      rintro session rfl hid hv
      have hsub : w.logins ⊆ w.logins ++ [⟨session.sid, epoch⟩] := List.subset_append_left _ _
      refine ⟨hidle.ledger, hidle.attempts, ?_, ?_, ?_, ?_⟩
      · exact fun j => (hidle.calls j).mono hsub
      · exact hi.sessions.save ttlSeconds hid (hv.trans hknows)
      · exact fun x hx => hsub (hi.successes x hx)
      · rw [List.map_append]
        exact hi.logins.append (List.nodup_singleton _) (by simpa using hnew)
    cases reply with
    | refused error =>
      obtain rfl := Option.some.inj hs
      exact hidle
    | answered =>
      obtain rfl := Option.some.inj hs
      exact hstored _ rfl rfl rfl
    | lost error =>
      obtain rfl := Option.some.inj hs
      exact hstored _ rfl rfl rfl
  · cases hs

/-- Beginning to check an access token keeps the invariant. -/
theorem Inv.assertAccessSession (hi : Inv cfg v₀ w) (i : ℕ) (sid : String) :
    Inv cfg v₀ (w.assertAccessSession cfg i sid) := by
  unfold World.assertAccessSession
  split
  next t ht =>
    split
    · exact hi.setCall i (hi.sessions.get ht) (by simp)
    · exact hi
  · exact hi

/-- Equal versions mean that the login read the user after the same change. -/
theorem Inv.current (hi : Inv cfg v₀ w) {sid : String} {t : SessionTable} {u : UserDocument}
    (ht : Carries cfg v₀ w.logins sid t) (hu : w.user cfg = some u)
    (hv : t.authVersion = .number u.version) : (⟨sid, w.epoch⟩ : Login) ∈ w.logins := by
  obtain ⟨-, epoch, hepoch, hlogin⟩ := ht
  have hversion : u.version = v₀ + w.changes.length := hi.ledger.version u hu
  rw [hv, LuaValue.number.injEq] at hepoch
  obtain rfl : w.epoch = epoch := by
    unfold World.epoch
    omega
  exact hlogin

/-- Reading the user of an access token keeps the invariant. -/
theorem Inv.accessLookup (hi : Inv cfg v₀ w) {i : ℕ} (hs : w.accessLookup cfg i = some w') :
    Inv cfg v₀ w' := by
  unfold World.accessLookup at hs
  split at hs
  next sid t hc =>
    split at hs
    · obtain rfl := Option.some.inj hs
      exact hi.idle i
    next u hu =>
    have hknows : Carries cfg v₀ w.logins sid t := by simpa [hc, Call.Knows] using hi.calls i
    split at hs
    next hv =>
      obtain rfl := Option.some.inj hs
      exact hi.setCall i (hi.current hknows hu hv) (by simp)
    · obtain rfl := Option.some.inj hs
      exact hi.idle i
  · cases hs

/-- Touching the session of an access token keeps the invariant. -/
theorem Inv.accessTouch (hi : Inv cfg v₀ w) {i : ℕ} {reply : Reply}
    (hs : w.accessTouch cfg i reply = some w') : Inv cfg v₀ w' := by
  unfold World.accessTouch at hs
  split at hs
  next sid t epoch hc =>
    have hknows : ⟨sid, epoch⟩ ∈ w.logins := by simpa [hc, Call.Knows] using hi.calls i
    split at hs
    · obtain rfl := Option.some.inj hs
      change Inv cfg v₀ (w.redis i w.store (some ⟨sid, epoch⟩) .answered)
      exact hi.redis i hi.sessions (by simpa using hknows) _
    · obtain rfl := Option.some.inj hs
      apply hi.redis i
      · exact hi.sessions.run (c := .touch ⟨sid, cfg.publicId, w.clock⟩) (by simp)
      · intro x hx
        obtain rfl := Option.some.inj (Option.ite_none_right_eq_some.mp hx).2
        exact hknows
  · cases hs

/-- Beginning a refresh keeps the invariant. -/
theorem Inv.refreshSession (hi : Inv cfg v₀ w) (i : ℕ) (sid presented : String) :
    Inv cfg v₀ (w.refreshSession i sid presented) := by
  unfold World.refreshSession
  split
  next t ht =>
    split
    · exact hi.setCall i (hi.sessions.get ht) (by simp)
    · exact hi
  · exact hi

/-- Reading the user of a refresh keeps the invariant. -/
theorem Inv.refreshLookup (hi : Inv cfg v₀ w) {i : ℕ} (hs : w.refreshLookup i = some w') :
    Inv cfg v₀ w' := by
  unfold World.refreshLookup at hs
  split at hs
  next sid t presented hc =>
    have hknows : Carries cfg v₀ w.logins sid t := by simpa [hc, Call.Knows] using hi.calls i
    split at hs
    next publicId hid =>
      obtain rfl : publicId = cfg.publicId := by simpa [hid] using hknows.1
      split at hs
      · obtain rfl := Option.some.inj hs
        exact hi.idle i
      next u hu =>
      split at hs
      · obtain rfl := Option.some.inj hs
        exact hi.idle i
      next hv =>
        push Not at hv
        obtain rfl := Option.some.inj hs
        exact hi.setCall i (hi.current hknows hu hv.2) (by simp)
    · obtain rfl := Option.some.inj hs
      exact hi.idle i
  · cases hs

/-- Rotating the refresh token keeps the invariant. -/
theorem Inv.rotateRefreshToken (hi : Inv cfg v₀ w) {i : ℕ} {next : Successor} {reply : Reply}
    (hs : w.rotateRefreshToken cfg i next reply = some w') : Inv cfg v₀ w' := by
  unfold World.rotateRefreshToken at hs
  split at hs
  next sid publicId t presented epoch hc =>
    have hknows : ⟨sid, epoch⟩ ∈ w.logins := by simpa [hc, Call.Knows] using hi.calls i
    obtain rfl := Option.some.inj hs
    apply hi.redis i
    · exact hi.sessions.run (c := .compareAndRotate _) (by simp)
    · intro x hx
      obtain rfl := Option.some.inj (Option.ite_none_right_eq_some.mp hx).2
      exact hknows
  · cases hs

/-- Requesting a password reset keeps the invariant. -/
theorem Inv.requestPasswordReset (hi : Inv cfg v₀ w) (i : ℕ) :
    Inv cfg v₀ (w.requestPasswordReset cfg i) := by
  unfold World.requestPasswordReset
  split
  · exact hi
  · exact hi.setCall i trivial (by simp)

/-- Storing a reset token keeps the invariant. -/
theorem Inv.storeResetToken (hi : Inv cfg v₀ w) {i : ℕ} {tokenHash : String}
    (hs : w.storeResetToken cfg i tokenHash = some w') : Inv cfg v₀ w' := by
  unfold World.storeResetToken at hs
  split at hs
  next expires u hc hu =>
    split at hs
    · cases hs
    next hnew =>
    obtain rfl := Option.some.inj hs
    have hidle := hi.idle i
    exact ⟨hi.ledger.store hu hnew, hidle.attempts.write _ _, hidle.calls, hi.sessions,
      hi.successes, hi.logins⟩
  · cases hs

/-- Consuming a reset token keeps the invariant. -/
theorem Inv.consumePasswordResetToken (hi : Inv cfg v₀ w) {i : ℕ} {salt : String}
    (hs : w.consumePasswordResetToken cfg i salt = some w') : Inv cfg v₀ w' := by
  unfold World.consumePasswordResetToken at hs
  split at hs
  next tokenHash newPassword now u hc hu =>
    have hidle := hi.idle i
    split at hs
    next hf =>
      obtain rfl := Option.some.inj hs
      refine ⟨hi.ledger.change hu salt newPassword ?_ (by simp), hidle.attempts.write _ _,
        hidle.calls, hi.sessions, hi.successes, hi.logins⟩
      intro tokenHash' now' hchange
      obtain ⟨rfl, rfl⟩ : tokenHash = tokenHash' ∧ now = now' := by simpa using hchange
      rw [World.resetFilter, Bool.and_eq_true, Option.any_eq_true_iff_get] at hf
      obtain ⟨htoken, hsome, hnow⟩ := hf
      exact ⟨_, by simpa using htoken, (Option.some_get hsome).symm, by simpa using hnow⟩
    · obtain rfl := Option.some.inj hs
      exact hidle
  · cases hs

/-- Beginning a change of the password keeps the invariant. -/
theorem Inv.changePassword (hi : Inv cfg v₀ w) (i : ℕ) (current new : String) :
    Inv cfg v₀ (w.changePassword i current new) := by
  unfold World.changePassword
  split
  · exact hi
  · exact hi.setCall i trivial (by simp)

/-- An attempt begins: its snapshot is what is committed. -/
theorem Inv.beginChange (hi : Inv cfg v₀ w) {i : ℕ} (hs : w.beginChange cfg i = some w') :
    Inv cfg v₀ w' := by
  unfold World.beginChange at hs
  split at hs
  next current new hc =>
    split at hs
    · obtain rfl := Option.some.inj hs
      exact hi.idle i
    next u hu =>
    split at hs
    next hv =>
      obtain rfl := Option.some.inj hs
      have hidle : Inv cfg v₀ (w.setCall i .idle) := hi.idle i
      refine ⟨hi.ledger, ?_, ?_, hi.sessions, hi.successes, hi.logins⟩
      · intro j current' new' snapshot hj
        by_cases hji : j = i
        · subst hji
          obtain ⟨rfl, rfl, rfl⟩ : current = current' ∧ new = new' ∧ w.users = snapshot := by
            simpa [World.setCall] using hj
          refine ⟨.refl _, ?_⟩
          intro u' hu'
          obtain rfl : u = u' := Option.some.inj (hu.symm.trans hu')
          exact hv
        · exact hi.attempts j current' new' snapshot (by simpa [World.setCall, hji] using hj)
      · intro j
        by_cases hji : j = i
        · subst hji
          simp [World.setCall, Call.Knows]
        · simpa [World.setCall, hji] using hi.calls j
    · obtain rfl := Option.some.inj hs
      exact hi.idle i
  · cases hs

/-- An attempt commits: the user is still the one of its snapshot. -/
theorem Inv.commitChange (hi : Inv cfg v₀ w) {i : ℕ} {salt : String}
    (hs : w.commitChange cfg i salt = some w') : Inv cfg v₀ w' := by
  unfold World.commitChange at hs
  split at hs
  next current new snapshot hc =>
    obtain ⟨u, hu, hs⟩ := Option.bind_eq_some_iff.mp hs
    obtain ⟨users, hcommit, rfl⟩ := Option.map_eq_some_iff.mp hs
    obtain ⟨hsince, hverify⟩ := hi.attempts i current new snapshot hc
    obtain ⟨rfl, hsame⟩ := Versioned.commit_eq_some hsince hcommit
    have hnow : w.users.doc cfg.publicId = some u := (hsame _ (List.mem_singleton_self _)).trans hu
    have hidle := hi.idle i
    refine ⟨hi.ledger.change hnow salt new (by simp) ?_, hidle.attempts.write _ _, hidle.calls,
      hi.sessions, hi.successes, hi.logins⟩
    intro current' new' hchange
    obtain ⟨rfl, rfl⟩ : current = current' ∧ new = new' := by simpa using hchange
    exact ⟨rfl, hverify u hu⟩
  · cases hs

/-- Aborting a change of the password keeps the invariant. -/
theorem Inv.abortChange (hi : Inv cfg v₀ w) {i : ℕ} (hs : w.abortChange i = some w') :
    Inv cfg v₀ w' := by
  unfold World.abortChange at hs
  split at hs
  · obtain rfl := Option.some.inj hs
    exact hi.setCall i trivial (by simp)
  · cases hs

/-- Commands of others are no logins. -/
theorem Inv.foreign (hi : Inv cfg v₀ w) {c : Command} (hs : w.foreign c = some w') :
    Inv cfg v₀ w' := by
  unfold World.foreign at hs
  split at hs
  · cases hs
  · cases hs
  next hsave _ =>
    obtain rfl := Option.some.inj hs
    exact ⟨hi.ledger, hi.attempts, hi.calls, hi.sessions.run hsave, hi.successes, hi.logins⟩

private theorem World.start_eq_some {i : ℕ} {v : World} (hs : w.start v i = some w') : w' = v := by
  unfold World.start at hs
  split at hs
  · exact (Option.some.inj hs).symm
  · cases hs

/-- Every step keeps the invariant. -/
theorem Inv.step {a : Action} (hi : Inv cfg v₀ w) (hs : w.step cfg a = some w') :
    Inv cfg v₀ w' := by
  cases a with
  | advance ms =>
    obtain rfl := Option.some.inj hs
    exact ⟨hi.ledger, hi.attempts, hi.calls, hi.sessions.run (by simp), hi.successes, hi.logins⟩
  | updateUser isBanned isEmailVerified =>
    obtain ⟨u, hu, rfl⟩ := Option.map_eq_some_iff.mp hs
    exact ⟨hi.ledger.write hu rfl rfl rfl rfl, hi.attempts.write _ _, hi.calls, hi.sessions,
      hi.successes, hi.logins⟩
  | deleteUser =>
    obtain rfl := Option.some.inj hs
    exact ⟨hi.ledger.delete, hi.attempts.write _ _, hi.calls, hi.sessions, hi.successes, hi.logins⟩
  | command c => exact hi.foreign hs
  | removeMembership publicId sid =>
    obtain rfl := Option.some.inj hs
    exact ⟨hi.ledger, hi.attempts, hi.calls, hi.sessions, hi.successes, hi.logins⟩
  | deleteUserSessions publicId sessionIds =>
    obtain rfl := Option.some.inj hs
    exact ⟨hi.ledger, hi.attempts, hi.calls, hi.sessions.deleteUserSessions publicId sessionIds,
      hi.successes, hi.logins⟩
  | login call password =>
    rw [World.start_eq_some hs]
    exact hi.login call password
  | createSession call sid refreshTokenHash ttlSeconds ip userAgent reply =>
    exact hi.createSession hs
  | assertAccessSession call sid =>
    rw [World.start_eq_some hs]
    exact hi.assertAccessSession call sid
  | accessLookup call => exact hi.accessLookup hs
  | accessTouch call reply => exact hi.accessTouch hs
  | refreshSession call sid presented =>
    rw [World.start_eq_some hs]
    exact hi.refreshSession call sid presented
  | refreshLookup call => exact hi.refreshLookup hs
  | rotateRefreshToken call next reply => exact hi.rotateRefreshToken hs
  | requestPasswordReset call =>
    rw [World.start_eq_some hs]
    exact hi.requestPasswordReset call
  | storeResetToken call tokenHash => exact hi.storeResetToken hs
  | resetPassword call tokenHash newPassword =>
    rw [World.start_eq_some hs]
    exact hi.setCall call trivial (by simp)
  | consumePasswordResetToken call salt => exact hi.consumePasswordResetToken hs
  | changePassword call current new =>
    rw [World.start_eq_some hs]
    exact hi.changePassword call current new
  | beginChange call => exact hi.beginChange hs
  | commitChange call salt => exact hi.commitChange hs
  | abortChange call => exact hi.abortChange hs
  | abandon call =>
    obtain rfl := Option.some.inj hs
    exact hi.idle call

end Ascendance.Credentials
