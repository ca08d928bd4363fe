import Ascendance.Models.Session.Rotation

/-!
# Revoking all sessions of a user

The call reads the index of the user and then deletes what it read together
with the index. Other commands run between the two.
-/

namespace Ascendance.Session

open Ascendance.Core

/-- The store and the calls that have read an index and not yet deleted it. -/
structure World where
  store : SessionStore
  revoking : ℕ → Option (String × Finset String)

/-- A command of the store, or one of the two round trips of a revocation. -/
inductive Action where
  | command (c : Command)
  | getUserSessionIds (call : ℕ) (publicId : String)
  | deleteUserSessions (call : ℕ)

namespace World

/-- No sessions and no calls. -/
def init : World := ⟨.empty, fun _ => none⟩

/-- `revokeAllSessionsForUser` takes two steps; every other command takes one. -/
def step (w : World) : Action → Option World
  | .command c => some { w with store := w.store.run c }
  | .getUserSessionIds call publicId =>
    if (w.revoking call).isSome then none
    else some { w with
      revoking := Function.update w.revoking call
        (some (publicId, w.store.getUserSessionIds publicId)) }
  | .deleteUserSessions call =>
    match w.revoking call with
    | none => none
    | some (publicId, sessionIds) => some {
      store := w.store.deleteUserSessions publicId sessionIds
      revoking := Function.update w.revoking call none }

end World

namespace SessionStore

/-- A session of a user is live, with its expiry. -/
def Live (s : SessionStore) (publicId sid : String) (expireAt : WithTop ℕ) : Prop :=
  ∃ t, s.session sid = some ⟨.record t, expireAt⟩ ∧ t.publicId = .string publicId

/-- Every live session is in the index of its user, which does not expire before it. -/
def Indexed (s : SessionStore) : Prop :=
  ∀ publicId sid expireAt, s.Live publicId sid expireAt →
    s.index.Holds s.clock publicId sid expireAt

/-- Every index has an expiry, so `NX` leaves it alone. -/
def Expiring (s : SessionStore) : Prop :=
  ∀ publicId e, s.index.entry s.clock publicId = some e → e.expireAt ≠ ⊤

end SessionStore

/-- The deletion of a call finds no session of the user that the call did not list. -/
def Listed (w : World) : Action → Prop
  | .deleteUserSessions call => ∀ publicId sessionIds,
      w.revoking call = some (publicId, sessionIds) →
      ∀ sid expireAt, w.store.Live publicId sid expireAt → sid ∈ sessionIds
  | _ => True

section Linking

variable {s : SessionStore} {publicId sid : String} {ttlSeconds : ℕ+}

/-- Linking leaves a set with the sid whose expiry covers the session and every other member. -/
theorem entry_link_self (sid : String) (ttlSeconds : ℕ+) (he : s.Expiring) :
    ∃ e, (s.link publicId sid ttlSeconds).index.entry s.clock publicId = some e ∧
      sid ∈ e.value ∧ Keyspace.after s.clock ttlSeconds ≤ e.expireAt ∧ e.expireAt ≠ ⊤ ∧
      ∀ e₀, s.index.entry s.clock publicId = some e₀ →
        e₀.value ⊆ e.value ∧ e₀.expireAt ≤ e.expireAt := by
  obtain ⟨e, hentry, hmem, hcover, htop, hold⟩ :=
    s.index.entry_sAddGt_self s.clock publicId sid ttlSeconds
  refine ⟨e, hentry, hmem, hcover, htop, ?_⟩
  intro e₀ he₀
  obtain ⟨hsub, hle, -⟩ := hold e₀ he₀
  exact ⟨hsub, hle (he publicId e₀ he₀)⟩

private theorem entry_link_ne {k : String} (h : k ≠ publicId) :
    (s.link publicId sid ttlSeconds).index.entry s.clock k = s.index.entry s.clock k :=
  s.index.entry_sAddGt_ne s.clock sid ttlSeconds h

private theorem expiring_link (he : s.Expiring) : (s.link publicId sid ttlSeconds).Expiring := by
  intro k e hk
  by_cases hp : k = publicId
  · subst hp
    obtain ⟨e', he', -, -, htop, -⟩ := entry_link_self sid ttlSeconds he
    rw [SessionStore.clock_link, he'] at hk
    obtain rfl := Option.some.inj hk
    exact htop
  · rw [SessionStore.clock_link, entry_link_ne hp] at hk
    exact he k e hk

/-- Linking keeps every member that is held. -/
theorem holds_link (he : s.Expiring) {k j : String} {expireAt : WithTop ℕ}
    (h : s.index.Holds s.clock k j expireAt) :
    (s.link publicId sid ttlSeconds).index.Holds s.clock k j expireAt := by
  obtain ⟨e₀, he₀, hmem, hexp⟩ := h
  by_cases hp : k = publicId
  · subst hp
    obtain ⟨e, hlink, -, -, -, hold⟩ := entry_link_self sid ttlSeconds he
    obtain ⟨hsub, hle⟩ := hold e₀ he₀
    exact ⟨e, hlink, hsub hmem, hexp.trans hle⟩
  · refine ⟨e₀, ?_, hmem, hexp⟩
    rw [entry_link_ne hp]
    exact he₀

/-- The linked session is held until it expires. -/
theorem holds_link_self (he : s.Expiring) :
    (s.link publicId sid ttlSeconds).index.Holds s.clock publicId sid
      (Keyspace.after s.clock ttlSeconds) := by
  obtain ⟨e, hlink, hmem, hexp, -⟩ := entry_link_self sid ttlSeconds he
  exact ⟨e, hlink, hmem, hexp⟩

end Linking

namespace SessionStore

variable {s : SessionStore}

/-- Removing an index entry keeps the expiries. -/
theorem Expiring.removeMembership (he : s.Expiring) (publicId sid : String) :
    (s.removeMembership publicId sid).Expiring := by
  intro k e hk
  obtain ⟨e₀, he₀, hexp⟩ := Keyspace.expireAt_sRem hk
  rw [hexp]
  exact he k e₀ he₀

/-- A session that a command leaves live was live before with the same expiry, or
the command linked it. -/
theorem Live.of_link {publicId sid owner k : String} {ttlSeconds : ℕ+} {s' : SessionStore}
    {t : SessionTable} (hs' : s' = { s with
      sessions :=
        s.sessions.setEx s.clock sid ttlSeconds (.record t) }.link publicId sid ttlSeconds)
    (ht : t.publicId = .string publicId) {expireAt : WithTop ℕ} (h : s'.Live owner k expireAt) :
    (k ≠ sid ∧ s.Live owner k expireAt) ∨
      (k = sid ∧ owner = publicId ∧ expireAt = Keyspace.after s.clock ttlSeconds) := by
  subst hs'
  obtain ⟨t', hlive, howner⟩ := h
  by_cases hk : k = sid
  · subst hk
    right
    have hself := s.sessions.entry_setEx_self s.clock k ttlSeconds (.record t)
    rw [session_link] at hlive
    change Keyspace.entry _ _ _ = _ at hlive
    rw [hself] at hlive
    obtain ⟨rfl, rfl⟩ : t = t' ∧ Keyspace.after s.clock ttlSeconds = expireAt := by
      simpa using hlive
    rw [ht] at howner
    exact ⟨rfl, by simpa using howner.symm, rfl⟩
  · left
    refine ⟨hk, t', ?_, howner⟩
    rw [session_link] at hlive
    change Keyspace.entry _ _ _ = _ at hlive
    rwa [Keyspace.setEx, Keyspace.entry_put_ne _ _ _ hk] at hlive

/-- Storing a session and linking it keeps every live session indexed. -/
theorem Indexed.setEx_link (hi : s.Indexed) (he : s.Expiring) {publicId sid : String}
    {ttlSeconds : ℕ+} {t : SessionTable} (ht : t.publicId = .string publicId) :
    ({ s with sessions := s.sessions.setEx s.clock sid ttlSeconds (.record t) }.link publicId sid
      ttlSeconds).Indexed := by
  intro owner k expireAt hlive
  have hex : ({ s with
      sessions := s.sessions.setEx s.clock sid ttlSeconds (.record t) } : SessionStore).Expiring :=
    he
  rcases Live.of_link rfl ht hlive with ⟨-, hold⟩ | ⟨rfl, rfl, rfl⟩
  · exact holds_link hex (hi owner k expireAt hold)
  · exact holds_link_self hex

/-- Removing the membership of a session that is gone keeps the others indexed. -/
theorem Indexed.removeMembership (hi : s.Indexed) (publicId : String) {sid : String}
    (hdead : s.session sid = none) : (s.removeMembership publicId sid).Indexed := by
  intro owner k expireAt hlive
  have hne : k ≠ sid := by
    rintro rfl
    obtain ⟨t, ht, -⟩ := hlive
    rw [session_removeMembership, hdead] at ht
    cases ht
  exact (hi owner k expireAt hlive).sRem publicId fun _ => hne

/-- Removing a session keeps the others indexed. -/
theorem Indexed.remove (hi : s.Indexed) (sid publicId : String) :
    (s.remove sid publicId).Indexed := by
  have hdel : ({ s with sessions := s.sessions.del sid } : SessionStore).Indexed := by
    rintro owner k expireAt ⟨t, ht, howner⟩
    by_cases hk : k = sid
    · subst hk
      have hgone := s.sessions.entry_del_self s.clock k
      change Keyspace.entry _ _ _ = _ at ht
      rw [hgone] at ht
      cases ht
    · have hkeep := s.sessions.entry_put_ne s.clock none hk
      change Keyspace.entry _ _ _ = _ at ht
      exact hi owner k expireAt ⟨t, hkeep.symm.trans ht, howner⟩
  exact hdel.removeMembership publicId (s.sessions.entry_del_self s.clock sid)

/-- Every single command keeps the indexes. -/
theorem Indexed.run (hi : s.Indexed) (he : s.Expiring) (c : Command) :
    (s.run c).Indexed ∧ (s.run c).Expiring := by
  have heffect := s.run_effect c
  generalize s.run c = s' at heffect
  cases heffect with
  | none => exact ⟨hi, he⟩
  | unlink _ publicId hdead =>
      exact ⟨hi.removeMembership publicId hdead, he.removeMembership publicId _⟩
  | remove _ sid publicId =>
    have hex : ({ s with sessions := s.sessions.del sid } : SessionStore).Expiring := he
    exact ⟨hi.remove sid publicId, hex.removeMembership publicId sid⟩
  | @patch _ j t t' expireAt hlive hp =>
    refine ⟨?_, he⟩
    rintro owner k expireAt' ⟨t₁, ht₁, howner⟩
    apply hi owner k expireAt'
    by_cases hk : k = j
    · subst hk
      rw [session_patch_self hlive] at ht₁
      obtain ⟨rfl, rfl⟩ : t' = t₁ ∧ expireAt = expireAt' := by simpa using ht₁
      exact ⟨t, hlive, hp.publicId.symm.trans howner⟩
    · rw [session_patch_ne s t' hk] at ht₁
      exact ⟨t₁, ht₁, howner⟩
  | rotate hlive hr => exact ⟨hi.setEx_link he hr.publicId, expiring_link he⟩
  | save session ttlSeconds => exact ⟨hi.setEx_link he rfl, expiring_link he⟩
  | advance ms =>
    constructor
    · rintro owner k expireAt ⟨t, ht, howner⟩
      have hheld := hi owner k expireAt ⟨t, session_advance ht, howner⟩
      exact hheld.mono (Keyspace.entry_eq_some.mp ht).2
    · intro publicId e hk
      exact he publicId e (Keyspace.entry_mono (Nat.le_add_right _ _) hk)

/-- Deleting what a call listed keeps the sessions indexed exactly when it listed
every session of the user that is live by then. -/
theorem indexed_deleteUserSessions_iff (hi : s.Indexed) (publicId : String)
    (sessionIds : Finset String) :
    (s.deleteUserSessions publicId sessionIds).Indexed ↔
      ∀ sid expireAt, s.Live publicId sid expireAt → sid ∈ sessionIds := by
  constructor
  · rintro h sid expireAt ⟨t, ht, howner⟩
    by_contra hmem
    have hlive : (s.deleteUserSessions publicId sessionIds).session sid =
        some ⟨.record t, expireAt⟩ := by
      rw [session_deleteUserSessions, if_neg hmem]
      exact ht
    obtain ⟨e, hentry, -⟩ := h publicId sid expireAt ⟨t, hlive, howner⟩
    change (s.index.del publicId).entry s.clock publicId = some e at hentry
    rw [Keyspace.entry_del_self] at hentry
    cases hentry
  · rintro hall owner sid expireAt ⟨t, ht, howner⟩
    rw [session_deleteUserSessions] at ht
    split at ht
    · cases ht
    next hmem =>
    have hne : owner ≠ publicId := by
      rintro rfl
      exact hmem (hall sid expireAt ⟨t, ht, howner⟩)
    obtain ⟨e, hentry, hin, hexp⟩ := hi owner sid expireAt ⟨t, ht, howner⟩
    refine ⟨e, ?_, hin, hexp⟩
    change (s.index.del publicId).entry s.clock owner = some e
    rw [Keyspace.del, Keyspace.entry_put_ne _ _ _ hne]
    exact hentry

/-- Revoking sessions keeps the expiries of the others. -/
theorem Expiring.deleteUserSessions (he : s.Expiring) (publicId : String)
    (sessionIds : Finset String) : (s.deleteUserSessions publicId sessionIds).Expiring := by
  intro k e hk
  change (s.index.del publicId).entry s.clock k = some e at hk
  by_cases hp : k = publicId
  · subst hp
    rw [Keyspace.entry_del_self] at hk
    cases hk
  · rw [Keyspace.del, Keyspace.entry_put_ne _ _ _ hp] at hk
    exact he k e hk

end SessionStore

/-- The action stores a session under the sid. -/
def Action.Stores (sid : String) : Action → Prop
  | .command (.save session _) => session.sid = sid
  | _ => False

section Runs

variable {w w' : World} {a : Action}

/-- The system in which every deletion finds only listed sessions. -/
abbrev ListedStep : World → Action → World → Prop := Restrict (Graph World.step) Listed

/-- Every listed step keeps the sessions indexed. -/
theorem indexed_step (hi : w.store.Indexed ∧ w.store.Expiring) (hs : ListedStep w a w') :
    w'.store.Indexed ∧ w'.store.Expiring := by
  obtain ⟨hl, hs⟩ := hs
  change w.step a = some w' at hs
  cases a with
  | command c =>
    obtain rfl := Option.some.inj hs
    exact hi.1.run hi.2 c
  | getUserSessionIds call publicId =>
    simp only [World.step] at hs
    split at hs
    · cases hs
    · obtain rfl := Option.some.inj hs
      exact hi
  | deleteUserSessions call =>
    simp only [World.step] at hs
    split at hs
    · cases hs
    · next publicId sessionIds hr =>
      obtain rfl := Option.some.inj hs
      have hall := hl publicId sessionIds hr
      exact ⟨(SessionStore.indexed_deleteUserSessions_iff hi.1 publicId sessionIds).mpr hall,
        hi.2.deleteUserSessions publicId sessionIds⟩

/-- An empty store is indexed. -/
theorem indexed_init : World.init.store.Indexed ∧ World.init.store.Expiring := by
  constructor
  · rintro publicId sid expireAt ⟨t, ht, -⟩
    cases ht
  · intro publicId e he
    cases he

/-- Until its sid is stored again a session is gone or still belongs to its user. -/
def Owned (publicId sid : String) (w : World) : Prop :=
  ∀ e, w.store.session sid = some e → w.store.Live publicId sid e.expireAt

/-- A session stays its owner's until one of that identifier is stored. -/
theorem Owned.step {publicId sid : String} (h : Owned publicId sid w) (hn : ¬ a.Stores sid)
    (hs : w.step a = some w') : Owned publicId sid w' := by
  rintro ⟨v, expireAt'⟩ he'
  cases a with
  | command c =>
    obtain rfl := Option.some.inj hs
    have hsave : ∀ session ttlSeconds, c = .save session ttlSeconds → session.sid ≠ sid := by
      rintro session ttlSeconds rfl
      exact hn
    rcases SessionStore.run_session hsave he' with
      he | ⟨t, t', he, hp, hv⟩ | ⟨input, t, expireAt, rfl, rfl, he, hr, hv⟩
    · obtain ⟨t, ht, howner⟩ := h _ he
      obtain rfl : v = .record t := by simpa using he.symm.trans ht
      exact ⟨t, he', howner⟩
    · obtain ⟨t₁, ht₁, howner⟩ := h _ he
      obtain rfl : t = t₁ := by simpa using he.symm.trans ht₁
      obtain rfl : v = .record t' := hv
      exact ⟨t', he', hp.publicId.trans howner⟩
    · obtain ⟨t₁, ht₁, howner⟩ := h _ he
      obtain rfl : t = t₁ := by simpa using he.symm.trans ht₁
      obtain rfl : v = .record (t.rotated input input.expectedRefreshVersion) := hv
      exact ⟨_, he', howner⟩
  | getUserSessionIds call user =>
    simp only [World.step] at hs
    split at hs
    · cases hs
    · obtain rfl := Option.some.inj hs
      exact h _ he'
  | deleteUserSessions call =>
    simp only [World.step] at hs
    split at hs
    · cases hs
    · next user sessionIds hr =>
      obtain rfl := Option.some.inj hs
      rw [SessionStore.session_deleteUserSessions] at he'
      split at he'
      · cases he'
      next hmem =>
      obtain ⟨t, ht, howner⟩ := h _ he'
      refine ⟨t, ?_, howner⟩
      rw [SessionStore.session_deleteUserSessions, if_neg hmem]
      exact ht

/-- A session is gone, or a call has listed it and is about to delete it. -/
def Doomed (call : ℕ) (sid : String) (w : World) : Prop :=
  w.store.session sid = none ∨
    ∃ publicId sessionIds, w.revoking call = some (publicId, sessionIds) ∧ sid ∈ sessionIds

/-- A session that a call is about to delete stays so until one of that identifier is stored. -/
theorem Doomed.step {call : ℕ} {sid : String} (h : Doomed call sid w) (hn : ¬ a.Stores sid)
    (hs : w.step a = some w') : Doomed call sid w' := by
  cases a with
  | command c =>
    obtain rfl := Option.some.inj hs
    have hsave : ∀ session ttlSeconds, c = .save session ttlSeconds → session.sid ≠ sid := by
      rintro session ttlSeconds rfl
      exact hn
    exact h.imp (SessionStore.run_dead hsave) id
  | getUserSessionIds other user =>
    simp only [World.step] at hs
    split at hs
    · cases hs
    · next hfree =>
      obtain rfl := Option.some.inj hs
      refine h.imp id ?_
      rintro ⟨publicId, sessionIds, hr, hmem⟩
      have hne : call ≠ other := by
        rintro rfl
        exact hfree (by rw [hr]; rfl)
      exact ⟨publicId, sessionIds, (Function.update_of_ne hne ..).trans hr, hmem⟩
  | deleteUserSessions other =>
    simp only [World.step] at hs
    split at hs
    · cases hs
    · next user deleted hr =>
      obtain rfl := Option.some.inj hs
      by_cases hdel : sid ∈ deleted
      · left
        rw [SessionStore.session_deleteUserSessions, if_pos hdel]
      · rcases h with hdead | ⟨publicId, sessionIds, hr', hmem⟩
        · left
          rw [SessionStore.session_deleteUserSessions, if_neg hdel]
          exact hdead
        · right
          have hne : call ≠ other := by
            rintro rfl
            rw [hr] at hr'
            cases hr'
            exact hdel hmem
          exact ⟨publicId, sessionIds, (Function.update_of_ne hne ..).trans hr', hmem⟩

/-- Reading the index of the owner dooms the session. -/
theorem Doomed.listed {publicId sid : String} {call : ℕ} (hi : w.store.Indexed)
    (ho : Owned publicId sid w) (hs : w.step (.getUserSessionIds call publicId) = some w') :
    Doomed call sid w' := by
  simp only [World.step] at hs
  split at hs
  · cases hs
  obtain rfl := Option.some.inj hs
  cases hlive : w.store.session sid with
  | none => exact .inl hlive
  | some e =>
    have hheld := hi publicId sid e.expireAt (ho e hlive)
    exact .inr ⟨publicId, _, Function.update_self .., hheld.mem_sMembers⟩

/-- The deletion that a call is about to make removes the session. -/
theorem Doomed.removed {sid : String} {call : ℕ} (h : Doomed call sid w)
    (hs : w.step (.deleteUserSessions call) = some w') : w'.store.session sid = none := by
  simp only [World.step] at hs
  split at hs
  · cases hs
  next user deleted hr =>
  obtain rfl := Option.some.inj hs
  rw [SessionStore.session_deleteUserSessions]
  split
  · rfl
  next hdel =>
  rcases h with hdead | ⟨publicId, sessionIds, hr', hmem⟩
  · exact hdead
  · rw [hr] at hr'
    cases hr'
    exact absurd hmem hdel

/-- A property that every step without a second login under the sid keeps. -/
private theorem run_unless_stored {sid : String} {P : World → Prop}
    (hP : ∀ w a w', P w → ¬ a.Stores sid → w.step a = some w' → P w') {as : List Action}
    (hrun : Run ListedStep w as w') (hn : ∀ a ∈ as, ¬ a.Stores sid) (h : P w) : P w' := by
  have hguarded : Run (Restrict ListedStep fun _ a => ¬ a.Stores sid) w as w' :=
    hrun.restrict fun a ha _ => hn a ha
  exact hguarded.invariant (fun _ _ _ hp hs => hP _ _ _ hp hs.1 hs.2.2) h

/-- A saved session is in the index of its owner. -/
private theorem owned_save (w : World) (session : AuthSessionRecord) (ttlSeconds : ℕ+) :
    Owned session.publicId session.sid
      { w with store := w.store.run (.save session ttlSeconds) } := by
  intro e he
  have hself := w.store.session_save_self session ttlSeconds
  change (w.store.save session ttlSeconds).session session.sid = some e at he
  rw [hself] at he
  obtain rfl := Option.some.inj he
  exact ⟨session.toTable, hself, rfl⟩

end Runs

/-- As long as no login lands between the two steps of a call unseen, every live
session is in the index of its user, which outlives it; and a call that starts
after a login removes that session, whatever ran in between. -/
theorem revokeAllSessionsForUser_complete {as : List Action} {w : World}
    (hrun : Run ListedStep .init as w) :
    w.store.Indexed ∧
    ∀ session ttlSeconds w₁ bs w₂ call w₃ cs w₄ w₅,
      ListedStep w (.command (.save session ttlSeconds)) w₁ → Run ListedStep w₁ bs w₂ →
      ListedStep w₂ (.getUserSessionIds call session.publicId) w₃ → Run ListedStep w₃ cs w₄ →
      ListedStep w₄ (.deleteUserSessions call) w₅ →
      (∀ a ∈ bs ++ cs, ¬ a.Stores session.sid) → w₅.store.session session.sid = none := by
  have hinv := hrun.invariant (fun _ _ _ hi hs => indexed_step hi hs) indexed_init
  refine ⟨hinv.1, ?_⟩
  intro session ttlSeconds w₁ bs w₂ call w₃ cs w₄ w₅ hsave hbs hlist hcs hdelete hn
  have hinv₁ := indexed_step hinv hsave
  have hinv₂ := hbs.invariant (fun _ _ _ hi hs => indexed_step hi hs) hinv₁
  obtain rfl := Option.some.inj hsave.2
  have howned := run_unless_stored (fun _ _ _ ho hn hs => Owned.step ho hn hs) hbs
    (fun a ha => hn a (List.mem_append_left _ ha)) (owned_save w session ttlSeconds)
  have hdoomed := run_unless_stored (fun _ _ _ hd hn hs => Doomed.step hd hn hs) hcs
    (fun a ha => hn a (List.mem_append_right _ ha)) (Doomed.listed hinv₂.1 howned hlist.2)
  exact hdoomed.removed hdelete.2

/-- A session that is refreshed while it is being revoked. -/
theorem revokeAllSessionsForUser_complete_refreshed :
    ∃ w₁ w₂ w₃ w₄, World.init.step (.command (.save firstLogin 2592000)) = some w₁ ∧
      w₁.step (.getUserSessionIds 0 "user") = some w₂ ∧
      w₂.step (.command (.compareAndRotate (refresh "h0" "h1" 0 5))) = some w₃ ∧
      w₃.step (.deleteUserSessions 0) = some w₄ ∧ w₄.store.session "sid" = none := by
  refine ⟨_, _, _, _, rfl, rfl, rfl, rfl, ?_⟩
  refine (revokeAllSessionsForUser_complete .nil).2 firstLogin 2592000 _ [] _ 0 _
    [.command (.compareAndRotate (refresh "h0" "h1" 0 5))] _ _ ⟨trivial, rfl⟩ .nil ⟨trivial, rfl⟩
    (.single ⟨trivial, rfl⟩) ⟨?_, rfl⟩ (by simp [Action.Stores])
  rintro publicId sessionIds hr k expireAt ⟨t, ht, -⟩
  obtain rfl : k = "sid" := by
    by_contra hk
    have hsaved : (World.init.store.run (.save firstLogin 2592000)).session k = none :=
      World.init.store.session_save_ne firstLogin 2592000 hk
    have hdead := SessionStore.run_dead (c := .compareAndRotate (refresh "h0" "h1" 0 5))
      (fun _ _ h => by cases h) hsaved
    exact Option.some_ne_none _ (ht.symm.trans hdead)
  cases hr
  decide

/-- A login between the two steps of a call loses its index entry, and the next
call misses it. -/
theorem revokeAllSessionsForUser_misses :
    ∃ w, exec World.step .init [.getUserSessionIds 0 "user",
        .command (.save firstLogin 2592000), .deleteUserSessions 0,
        .getUserSessionIds 1 "user", .deleteUserSessions 1] = some w ∧
      ¬ w.store.Indexed ∧ w.store.session "sid" ≠ none := by
  refine ⟨_, rfl, ?_, by decide⟩
  intro hi
  obtain ⟨e, he, -⟩ := hi "user" "sid" _ ⟨_, rfl, rfl⟩
  cases he

end Ascendance.Session
