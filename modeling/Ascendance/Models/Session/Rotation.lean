import Ascendance.Models.Session.Scripts
import Ascendance.Core.Transition

/-!
# Refresh-token rotation

The history of a session lists its rotations. Its chain starts with the hash
the login stored and continues with the hash each rotation stored; the record
holds the last two hashes of the chain and counts its rotations.
-/

namespace Ascendance.Session

open Ascendance.Core

/-- A rotation that succeeded. -/
structure Rotation where
  presented : String
  next : String
  deriving DecidableEq

/-- A store together with what happened to one session since its login. -/
structure History where
  store : SessionStore
  /-- Every hash that was meant to be stored for the session. -/
  issued : Finset String
  rotations : List Rotation

/-- The hash that a rotation of a session would store. -/
def Command.nextHashes (sid : String) : Command → Finset String
  | .compareAndRotate input => if input.sid = sid then {input.nextRefreshTokenHash} else ∅
  | _ => ∅

/-- The rotation of a session that a command makes. -/
def SessionStore.rotationBy (s : SessionStore) (sid : String) : Command → List Rotation
  | .compareAndRotate input =>
    if input.sid = sid ∧ (s.compareAndRotate input).2.outcome = .rotated then
      [⟨input.presentedRefreshTokenHash, input.nextRefreshTokenHash⟩]
    else []
  | _ => []

/-- A login makes its own sid and a refresh makes its own next token. -/
def Command.Fresh (sid : String) (issued : Finset String) (c : Command) : Prop :=
  (match c with
    | .save session _ => session.sid ≠ sid
    | _ => True) ∧ Disjoint (c.nextHashes sid) issued

instance (sid : String) (issued : Finset String) (c : Command) :
    Decidable (c.Fresh sid issued) := by
  cases c <;> exact instDecidableAnd

namespace History

/-- The history that starts with a login. -/
def start (s : SessionStore) (session : AuthSessionRecord) (ttlSeconds : ℕ+) : History :=
  ⟨s.save session ttlSeconds, {session.refreshTokenHash}, []⟩

/-- The history after a command. -/
def after (sid : String) (h : History) (c : Command) : History :=
  ⟨h.store.run c, h.issued ∪ c.nextHashes sid, h.rotations ++ h.store.rotationBy sid c⟩

/-- A command whose new hash has not been issued before. -/
def step (sid : String) (h : History) (c : Command) : Option History :=
  if c.Fresh sid h.issued then some (h.after sid c) else none

/-- A command is recorded when its hash is fresh. -/
private theorem step_eq_some {sid : String} {h h' : History} {c : Command} :
    h.step sid c = some h' ↔ c.Fresh sid h.issued ∧ h' = h.after sid c := by
  unfold step
  split
  · next hf => simp [hf, eq_comm]
  · next hf => simp [hf]

end History

/-- The hashes a session has had, the login's first. -/
def chain (session : AuthSessionRecord) (rotations : List Rotation) : List String :=
  session.refreshTokenHash :: rotations.map (·.next)

/-- A record holds the last two hashes of its chain and counts its rotations. -/
structure Chained (session : AuthSessionRecord) (rotations : List Rotation) (t : SessionTable) :
    Prop where
  sid : t.sid = .string session.sid
  publicId : t.publicId = .string session.publicId
  status : t.status = .string "active"
  refreshVersion : t.refreshVersion = .number (session.refreshVersion + rotations.length)
  current : (chain session rotations).getLast?.map .string = some t.refreshTokenHash
  previous :
    t.previousRefreshTokenHash = (chain session rotations).dropLast.getLast?.elim .nil .string
  graceUntil : ∃ graceUntil, t.previousRefreshTokenGraceUntil.orZero.tonumber = some graceUntil

/-- The presented hash is the previous one and its grace has not passed. -/
def InGrace (t : SessionTable) (input : RotationInput) : Prop :=
  t.previousRefreshTokenHash = .string input.presentedRefreshTokenHash ∧
    ∃ graceUntil, t.previousRefreshTokenGraceUntil.orZero.tonumber = some graceUntil ∧
      input.now ≤ graceUntil

section Chains

variable {session : AuthSessionRecord} {rotations : List Rotation} {t t' : SessionTable}

/-- A rotation extends the chain. -/
private theorem chain_append (session : AuthSessionRecord) (rotations : List Rotation)
    (r : Rotation) :
    chain session (rotations ++ [r]) = chain session rotations ++ [r.next] := by
  simp [chain]

private theorem chain_ne_nil (session : AuthSessionRecord) (rotations : List Rotation) :
    chain session rotations ≠ [] := List.cons_ne_nil _ _

/-- The current hash of a record ends its chain. -/
theorem Chained.getLast {current : String} (h : Chained session rotations t)
    (hc : t.refreshTokenHash = .string current) :
    (chain session rotations).getLast (chain_ne_nil session rotations) = current := by
  have hlast := h.current
  rw [List.getLast?_eq_some_getLast (chain_ne_nil session rotations), hc] at hlast
  simpa using hlast

/-- A chained record passes the type checks of the scripts. -/
theorem Chained.wellTyped (h : Chained session rotations t) : t.wellTyped = true := by
  obtain ⟨current, -, hc⟩ := Option.map_eq_some_iff.mp h.current
  unfold SessionTable.wellTyped
  rw [h.sid, h.publicId, h.status, ← hc]
  rfl

/-- The record of a login starts its chain. -/
theorem Chained.login (hfirst : session.previousRefreshTokenHash = none) :
    Chained session [] session.toTable where
  sid := rfl
  publicId := rfl
  status := rfl
  refreshVersion := by simp [AuthSessionRecord.toTable]
  current := rfl
  previous := by simp [AuthSessionRecord.toTable, hfirst, chain]
  graceUntil := by
    unfold AuthSessionRecord.toTable
    cases session.previousRefreshTokenGraceUntil with
    | none => exact ⟨0, rfl⟩
    | some g => exact ⟨g, rfl⟩

/-- Metadata rewrites keep a record chained. -/
theorem Chained.patched (h : Chained session rotations t) (hp : Patched t t') :
    Chained session rotations t' := by
  have hc := hp.credentials
  unfold SessionTable.credentials at hc
  injection hc with h1 h2 h3 h4 h5
  refine ⟨hp.sid.trans h.sid, hp.publicId.trans h.publicId, h5.trans h.status,
    h4.trans h.refreshVersion, ?_, h2.trans h.previous, ?_⟩
  · rw [h1]
    exact h.current
  · rw [h3]
    exact h.graceUntil

/-- A rotation continues the chain of the record it accepted. -/
theorem Chained.rotated {input : RotationInput} (h : Chained session rotations t)
    (hr : Rotatable t input) :
    Chained session
      (rotations ++ [⟨input.presentedRefreshTokenHash, input.nextRefreshTokenHash⟩])
      (t.rotated input input.expectedRefreshVersion) where
  sid := h.sid
  publicId := h.publicId
  status := h.status
  refreshVersion := by
    have hversion := hr.version
    rw [h.refreshVersion] at hversion
    have hexpected : session.refreshVersion + rotations.length = input.expectedRefreshVersion :=
      Option.some.inj hversion
    unfold SessionTable.rotated
    rw [← hexpected]
    simp [Int.add_assoc]
  current := by
    rw [chain_append, List.getLast?_concat]
    rfl
  previous := by
    rw [chain_append, List.dropLast_concat,
      List.getLast?_eq_some_getLast (chain_ne_nil session rotations), h.getLast hr.current]
    exact hr.current
  graceUntil := ⟨input.previousRefreshTokenGraceUntil, rfl⟩

end Chains

/-- What holds of a session in every state of its history. -/
structure Tracked (session : AuthSessionRecord) (h : History) : Prop where
  chained : ∀ e, h.store.session session.sid = some e →
    ∃ t, e.value = .record t ∧ Chained session h.rotations t
  issued : ∀ x ∈ chain session h.rotations, x ∈ h.issued
  nodup : (chain session h.rotations).Nodup
  presented : h.rotations.map (·.presented) = (chain session h.rotations).dropLast

section Steps

variable {session : AuthSessionRecord} {h h' : History} {c : Command}

/-- A command that does not rotate the session leaves its history as long as it was. -/
private theorem Tracked.idle (ht : Tracked session h)
    (hr : h.store.rotationBy session.sid c = [])
    (hs : ∀ e, (h.store.run c).session session.sid = some e →
      ∃ t, e.value = .record t ∧ Chained session h.rotations t) :
    Tracked session (h.after session.sid c) := by
  have hrotations : (h.after session.sid c).rotations = h.rotations := by
    unfold History.after
    rw [hr, List.append_nil]
  constructor
  · rw [hrotations]
    exact hs
  · rw [hrotations]
    intro x hx
    exact Finset.mem_union_left _ (ht.issued x hx)
  · rw [hrotations]
    exact ht.nodup
  · rw [hrotations]
    exact ht.presented

private theorem Command.Fresh.save_ne {sid : String} {issued : Finset String}
    (hf : c.Fresh sid issued) :
    ∀ session ttlSeconds, c = .save session ttlSeconds → session.sid ≠ sid := by
  rintro session ttlSeconds rfl
  exact hf.1

/-- A rotation is the only command that is recorded, and it was accepted. -/
theorem SessionStore.rotationBy_cases (s : SessionStore) (sid : String) (c : Command) :
    s.rotationBy sid c = [] ∨
    ∃ input t expireAt, c = .compareAndRotate input ∧ input.sid = sid ∧
      s.session sid = some ⟨.record t, expireAt⟩ ∧ Rotatable t input ∧
      s.run c = s.rotate input (t.rotated input input.expectedRefreshVersion) ∧
      s.rotationBy sid c =
        [⟨input.presentedRefreshTokenHash, input.nextRefreshTokenHash⟩] := by
  cases c with
  | compareAndRotate input =>
    by_cases hr : input.sid = sid ∧ (s.compareAndRotate input).2.outcome = .rotated
    · rcases s.compareAndRotate_cases input with ⟨t, expireAt, hlive, hrot, he⟩ | ⟨hne, -⟩
      · refine .inr ⟨input, t, expireAt, rfl, hr.1, ?_, hrot, ?_, if_pos hr⟩
        · rw [← hr.1]
          exact hlive
        · change (s.compareAndRotate input).1 = _
          rw [he]
      · exact absurd hr.2 hne
    · exact .inl (if_neg hr)
  | _ => exact .inl rfl

/-- Every step keeps the history tracked. -/
theorem Tracked.step (ht : Tracked session h) (hs : h.step session.sid c = some h') :
    Tracked session h' := by
  obtain ⟨hf, rfl⟩ := History.step_eq_some.mp hs
  rcases h.store.rotationBy_cases session.sid c with
    hnone | ⟨input, t, expireAt, rfl, hsid, hlive, hrot, hrun, hby⟩
  · apply ht.idle hnone
    intro e' he'
    rcases SessionStore.run_session hf.save_ne he' with
      he | ⟨t, t', he, hp, hv⟩ | ⟨input, t, expireAt, rfl, hsid, he, hrot, hv⟩
    · exact ht.chained e' he
    · obtain ⟨t₀, hv₀, hch⟩ := ht.chained _ he
      obtain rfl : t = t₀ := by simpa using hv₀
      exact ⟨t', hv, hch.patched hp⟩
    · -- an accepted rotation would have been recorded
      rcases h.store.compareAndRotate_cases input with ⟨_, _, _, _, heq⟩ | ⟨-, hsame | hdead | hrem⟩
      · simp [SessionStore.rotationBy, hsid, heq] at hnone
      · change (h.store.compareAndRotate input).1.session session.sid = some e' at he'
        rw [hsame] at he'
        exact ht.chained e' he'
      · rw [hsid, he] at hdead
        cases hdead.1
      · change (h.store.compareAndRotate input).1.session session.sid = some e' at he'
        rw [hrem, ← hsid] at he'
        simp at he'
  · obtain ⟨t₀, hv₀, hch⟩ := ht.chained _ hlive
    obtain rfl : t = t₀ := by simpa using hv₀
    have hfresh : input.nextRefreshTokenHash ∉ h.issued := by
      have hdisj := hf.2
      simpa [Command.nextHashes, hsid] using hdisj
    have hnew : input.nextRefreshTokenHash ∉ chain session h.rotations :=
      fun hmem => hfresh (ht.issued _ hmem)
    have hrotations : (h.after session.sid (.compareAndRotate input)).rotations =
        h.rotations ++ [⟨input.presentedRefreshTokenHash, input.nextRefreshTokenHash⟩] := by
      unfold History.after
      rw [hby]
    constructor
    · intro e' he'
      change (h.store.run (.compareAndRotate input)).session session.sid = some e' at he'
      rw [hrun, ← hsid, SessionStore.session_rotate_self] at he'
      obtain rfl := Option.some.inj he'
      rw [hrotations]
      exact ⟨_, rfl, hch.rotated hrot⟩
    · rw [hrotations, chain_append]
      intro x hx
      rcases List.mem_append.mp hx with hx | hx
      · exact Finset.mem_union_left _ (ht.issued x hx)
      · apply Finset.mem_union_right
        simp_all [Command.nextHashes]
    · rw [hrotations, chain_append]
      exact List.nodup_append.mpr ⟨ht.nodup, List.nodup_singleton _, by
        rintro x hx y hy rfl
        rw [List.mem_singleton] at hy
        subst hy
        exact hnew hx⟩
    · rw [hrotations, chain_append, List.dropLast_concat, List.map_append, ht.presented]
      have hlast := hch.getLast hrot.current
      rw [List.map_singleton, ← hlast]
      exact List.dropLast_append_getLast (chain_ne_nil session h.rotations)

/-- The history of a login is tracked from the start. -/
theorem Tracked.start (s : SessionStore) (ttlSeconds : ℕ+)
    (hfirst : session.previousRefreshTokenHash = none) :
    Tracked session (History.start s session ttlSeconds) where
  chained := by
    intro e he
    unfold History.start at he
    rw [SessionStore.session_save_self] at he
    obtain rfl := Option.some.inj he
    exact ⟨_, rfl, .login hfirst⟩
  issued := by simp [chain, History.start]
  nodup := by simp [chain, History.start]
  presented := by simp [chain, History.start]

/-- Every hash is presented to at most one rotation. -/
theorem Tracked.presented_nodup (ht : Tracked session h) :
    (h.rotations.map (·.presented)).Nodup := by
  rw [ht.presented]
  exact ht.nodup.sublist (List.dropLast_sublist _)

end Steps

section Replays

variable {session : AuthSessionRecord} {rotations : List Rotation} {t : SessionTable}
  {s : SessionStore} {expireAt : WithTop ℕ} {input : RotationInput}

/-- The previous hash changes nothing within its grace. -/
theorem compareAndRotate_inGrace (hlive : s.session input.sid = some ⟨.record t, expireAt⟩)
    (ht : Chained session rotations t) (hsid : input.sid = session.sid)
    (hpub : input.publicId = session.publicId) (hg : InGrace t input) :
    s.compareAndRotate input = (s, ⟨.stalePrevious, none⟩) := by
  obtain ⟨hprevious, graceUntil, hgrace, hnow⟩ := hg
  have hidentity : ¬ (t.sid ≠ .string input.sid ∨ t.publicId ≠ .string input.publicId) := by
    rw [hsid, hpub, ht.sid, ht.publicId]
    simp
  unfold SessionStore.compareAndRotate
  rw [SessionStore.get_of_session hlive]
  simp only
  rw [if_neg (by simp [ht.wellTyped]), if_neg hidentity, if_neg (by simp [ht.status]),
    if_pos hprevious, hgrace]
  exact if_pos hnow

/-- A hash that is neither the current one nor in its grace removes the session. -/
theorem compareAndRotate_reuse (hlive : s.session input.sid = some ⟨.record t, expireAt⟩)
    (ht : Chained session rotations t) (hsid : input.sid = session.sid)
    (hpub : input.publicId = session.publicId)
    (hcurrent : t.refreshTokenHash ≠ .string input.presentedRefreshTokenHash)
    (hg : ¬ InGrace t input) :
    s.compareAndRotate input = (s.remove input.sid input.publicId, ⟨.mismatch, none⟩) := by
  obtain ⟨graceUntil, hgrace⟩ := ht.graceUntil
  have hidentity : ¬ (t.sid ≠ .string input.sid ∨ t.publicId ≠ .string input.publicId) := by
    rw [hsid, hpub, ht.sid, ht.publicId]
    simp
  unfold SessionStore.compareAndRotate
  rw [SessionStore.get_of_session hlive]
  simp only
  rw [if_neg (by simp [ht.wellTyped]), if_neg hidentity, if_neg (by simp [ht.status])]
  split
  · next hprevious =>
    have hlate : ¬ graceUntil ≥ input.now := fun hnow => hg ⟨hprevious, graceUntil, hgrace, hnow⟩
    rw [hgrace]
    exact if_neg hlate
  · rfl

/-- A session that is gone is never rotated. -/
theorem compareAndRotate_dead (hdead : s.session input.sid = none) :
    (s.compareAndRotate input).2.outcome ≠ .rotated := by
  unfold SessionStore.compareAndRotate
  rw [SessionStore.get_eq_none.mpr hdead]
  exact nofun

/-- A session that is gone stays gone for the rest of its history. -/
theorem dead_of_run {sid : String} {h h' : History} {cs : List Command}
    (hrun : Run (Graph (History.step sid)) h cs h') (hdead : h.store.session sid = none) :
    h'.store.session sid = none := by
  refine Run.invariant (I := fun h => h.store.session sid = none) ?_ hrun hdead
  intro h c h' hd hs
  obtain ⟨hf, rfl⟩ := History.step_eq_some.mp hs
  exact SessionStore.run_dead hf.save_ne hd

end Replays

/-- What a metadata rewrite must not change: the credentials and the expiry of every session. -/
def SessionStore.credentials (s : SessionStore) (sid : String) :
    Option (Option Credentials × WithTop ℕ) :=
  (s.session sid).map fun e =>
    (match e.value with
      | .invalid => none
      | .record t => some t.credentials, e.expireAt)

/-- A patch keeps the credentials. -/
private theorem credentials_patch {s : SessionStore} {sid : String} {t t' : SessionTable}
    {expireAt : WithTop ℕ} (hlive : s.session sid = some ⟨.record t, expireAt⟩)
    (hp : Patched t t') : (s.patch sid t').credentials = s.credentials := by
  funext k
  unfold SessionStore.credentials
  by_cases hk : k = sid
  · subst hk
    rw [SessionStore.session_patch_self hlive, hlive]
    simp [hp.credentials]
  · rw [SessionStore.session_patch_ne s t' hk]

/-- A touch keeps the credentials. -/
private theorem credentials_touch (s : SessionStore) (input : TouchInput) :
    (s.touch input).1.credentials = s.credentials := by
  rcases s.touch_cases input with he | ⟨t, t', expireAt, hlive, hp, he⟩
  · rw [he]
  · rw [he]
    exact credentials_patch hlive hp

/-- A verified address keeps the credentials. -/
private theorem credentials_markEmailVerified (s : SessionStore) (input : PatchInput) :
    (s.markEmailVerified input).1.credentials = s.credentials := by
  rcases s.markEmailVerified_cases input with he | ⟨t, t', expireAt, hlive, hp, he⟩
  · rw [he]
  · rw [he]
    exact credentials_patch hlive hp

/-- After a login, whatever the clients send: each hash is rotated at most once, the
record follows its chain, a replay within its grace changes nothing, any other
replay ends the session for good, and metadata rewrites touch no credential. -/
theorem refresh_rotation {s : SessionStore} {session : AuthSessionRecord} {ttlSeconds : ℕ+}
    {cs : List Command} {h : History} (hfirst : session.previousRefreshTokenHash = none)
    (hrun : Run (Graph (History.step session.sid)) (.start s session ttlSeconds) cs h) :
    (h.rotations.map (·.presented)).Nodup ∧
    (∀ e, h.store.session session.sid = some e →
      ∃ t, e.value = .record t ∧ Chained session h.rotations t) ∧
    (∀ t expireAt, h.store.session session.sid = some ⟨.record t, expireAt⟩ →
      ∀ input : RotationInput, input.sid = session.sid → input.publicId = session.publicId →
        (InGrace t input → h.store.compareAndRotate input = (h.store, ⟨.stalePrevious, none⟩)) ∧
        (t.refreshTokenHash ≠ .string input.presentedRefreshTokenHash → ¬ InGrace t input →
          (h.store.compareAndRotate input).2.outcome = .mismatch ∧
          (h.store.compareAndRotate input).1.session session.sid = none ∧
          session.sid ∉
            (h.store.compareAndRotate input).1.getUserSessionIds session.publicId ∧
          ∀ cs' h', Run (Graph (History.step session.sid))
              (h.after session.sid (.compareAndRotate input)) cs' h' →
            ∀ later : RotationInput, later.sid = session.sid →
              (h'.store.compareAndRotate later).2.outcome ≠ .rotated)) ∧
    (∀ input, (h.store.touch input).1.credentials = h.store.credentials) ∧
    (∀ input, (h.store.markEmailVerified input).1.credentials = h.store.credentials) := by
  have htracked : Tracked session h :=
    hrun.invariant (fun _ _ _ ht hs => ht.step hs) (.start s ttlSeconds hfirst)
  refine ⟨htracked.presented_nodup, htracked.chained, ?_, credentials_touch h.store,
    credentials_markEmailVerified h.store⟩
  intro t expireAt hlive input hsid hpub
  obtain ⟨t₀, hv₀, hch⟩ := htracked.chained _ hlive
  obtain rfl : t = t₀ := by simpa using hv₀
  rw [← hsid] at hlive
  refine ⟨compareAndRotate_inGrace hlive hch hsid hpub, ?_⟩
  intro hcurrent hg
  have hreuse := compareAndRotate_reuse hlive hch hsid hpub hcurrent hg
  have hdead : (h.store.compareAndRotate input).1.session session.sid = none := by
    rw [hreuse, ← hsid]
    exact SessionStore.session_remove_self ..
  refine ⟨by rw [hreuse], hdead, ?_, ?_⟩
  · rw [hreuse, ← hsid, ← hpub]
    exact SessionStore.notMem_getUserSessionIds_remove h.store input.sid input.publicId
  · intro cs' h' hrun' later hlater
    apply compareAndRotate_dead
    rw [hlater]
    exact dead_of_run hrun' hdead

/-- The record that a login stores. -/
def firstLogin : AuthSessionRecord where
  sid := "sid"
  publicId := "user"
  isEmailVerified := false
  authVersion := 0
  refreshTokenHash := "h0"
  refreshVersion := 0
  previousRefreshTokenHash := none
  previousRefreshTokenGraceUntil := none
  createdAt := 0
  lastSeenAt := 0
  ip := none
  userAgent := none

/-- A refresh of that login. -/
def refresh (presented next : String) (expected now : Int) : RotationInput where
  sid := "sid"
  publicId := "user"
  presentedRefreshTokenHash := presented
  nextRefreshTokenHash := next
  expectedRefreshVersion := expected
  now := now
  previousRefreshTokenGraceUntil := now + 900000
  ttlSeconds := 2592000
  ip := none
  userAgent := none

/-- Two refreshes race, the winner is refreshed again, and the first token is replayed. -/
def racedRefreshes : List Command :=
  [.compareAndRotate (refresh "h0" "h1" 0 5), .compareAndRotate (refresh "h0" "h2" 0 6),
    .advance 7, .compareAndRotate (refresh "h1" "h3" 1 8), .touch ⟨"sid", "user", 9⟩]

/-- Of two refreshes with one token the second is answered by the grace window. -/
theorem refresh_rotation_raced :
    ∃ h, exec (History.step "sid") (.start .empty firstLogin 2592000) racedRefreshes = some h ∧
      h.rotations = [⟨"h0", "h1"⟩, ⟨"h1", "h3"⟩] ∧ (h.rotations.map (·.presented)).Nodup := by
  have hrotations : (exec (History.step "sid") (.start .empty firstLogin 2592000)
      racedRefreshes).map (·.rotations) = some [⟨"h0", "h1"⟩, ⟨"h1", "h3"⟩] := by decide
  obtain ⟨h, hexec, hr⟩ := Option.map_eq_some_iff.mp hrotations
  have hrun : Run (Graph (History.step firstLogin.sid)) (.start .empty firstLogin 2592000)
      racedRefreshes h := exec_run hexec
  exact ⟨h, hexec, hr, (refresh_rotation rfl hrun).1⟩

end Ascendance.Session
