import Ascendance.Models.Credentials.Invariant

/-!
# A change of the password ends the old credentials

A session that is accepted after a change belongs to a login after it, and a
reset token is spent at most once, while it is the last one and no change has
come in between. A second success with the same current password is a change of
a password that was set again in the meantime.
-/

namespace Ascendance.Credentials

open Ascendance.Core Ascendance.Session

variable {cfg : Settings} {v₀ : Int} {w : World}

/-- Two logins of one session are the same login. -/
theorem Inv.login_unique (hi : Inv cfg v₀ w) {a b : Login} (ha : a ∈ w.logins) (hb : b ∈ w.logins)
    (h : a.sid = b.sid) : a = b :=
  List.inj_on_of_nodup_map hi.logins ha hb h

/-- A success after a change is on a session whose login came after it. -/
theorem Inv.success_login (hi : Inv cfg v₀ w) {x : Success} (hx : x ∈ w.successes) :
    (∃ login ∈ w.logins, login.sid = x.sid) ∧
      ∀ login ∈ w.logins, login.sid = x.sid → x.epoch ≤ login.epoch := by
  have hmem := hi.successes x hx
  refine ⟨⟨_, hmem, rfl⟩, ?_⟩
  intro login hlogin hsid
  obtain rfl := hi.login_unique hlogin hmem hsid
  exact Nat.le_refl _

section Ledger

variable {users : Versioned String UserDocument} {tokens : List Token} {changes : List Change}
  {passwords : List String} {j k : ℕ}

/-- A reset spends the token under its hash, unexpired and with no change since it was stored. -/
theorem Ledger.reset_token (h : Ledger cfg v₀ users tokens changes passwords) {tokenHash : String}
    {now : Int} (hk : changes[k]? = some (.reset tokenHash now)) :
    (∃ token ∈ tokens, token.hash = tokenHash) ∧
      ∀ token ∈ tokens, token.hash = tokenHash → now < token.expires ∧ token.epoch = k := by
  obtain ⟨token, hmem, hhash, hnow, hepoch⟩ := h.resets k tokenHash now hk
  refine ⟨⟨token, hmem, hhash⟩, ?_⟩
  intro token' hmem' hhash'
  obtain rfl := List.inj_on_of_nodup_map h.nodup hmem' hmem (hhash'.trans hhash.symm)
  exact ⟨hnow, hepoch⟩

/-- A token is spent at most once. -/
theorem Ledger.reset_unique (h : Ledger cfg v₀ users tokens changes passwords) {tokenHash : String}
    {now now' : Int} (hj : changes[j]? = some (.reset tokenHash now))
    (hk : changes[k]? = some (.reset tokenHash now')) : j = k := by
  obtain ⟨⟨token, hmem, hhash⟩, hjs⟩ := h.reset_token hj
  obtain ⟨-, hks⟩ := h.reset_token hk
  exact (hjs token hmem hhash).2.symm.trans (hks token hmem hhash).2

/-- Of two successes with the same current password, another change lies in between,
or the new password of the first one passes for its current one. -/
theorem Ledger.changed_again (h : Ledger cfg v₀ users tokens changes passwords)
    {current new new' : String} (hlt : j < k) (hj : changes[j]? = some (.changed current new))
    (hk : changes[k]? = some (.changed current new')) :
    j + 1 < k ∨ ∃ salt, cfg.verifyPassword current (cfg.hashPassword salt new) = true := by
  by_cases hnext : j + 1 < k
  · exact .inl hnext
  · have hk' : k = j + 1 := by omega
    subst hk'
    obtain ⟨-, salt, -, -, hstored⟩ := h.changed j current new hj
    obtain ⟨password, -, hforce, hverify, -⟩ := h.changed (j + 1) current new' hk
    obtain rfl : cfg.hashPassword salt new = password := Option.some.inj (hstored.symm.trans hforce)
    exact .inr ⟨salt, hverify⟩

end Ledger

/-- In every run: what is accepted after a change of the password belongs to a
login after it; a reset token changes the password at most once, by a call that
read the clock before its expiry and with no change since it was stored; and
between two successes with one current password lies another change. -/
theorem passwordChange_endsCredentials (cfg : Settings) (user : UserDocument) {as : List Action}
    {w : World} (hrun : Run (Graph (World.step cfg)) (.init cfg user) as w) :
    (∀ x ∈ w.successes, (∃ login ∈ w.logins, login.sid = x.sid) ∧
      ∀ login ∈ w.logins, login.sid = x.sid → x.epoch ≤ login.epoch) ∧
    (∀ (j k : ℕ) (tokenHash : String) (now now' : Int),
      w.changes[j]? = some (.reset tokenHash now) →
      w.changes[k]? = some (.reset tokenHash now') → j = k) ∧
    (∀ (k : ℕ) (tokenHash : String) (now : Int), w.changes[k]? = some (.reset tokenHash now) →
      (∃ token ∈ w.tokens, token.hash = tokenHash) ∧
        ∀ token ∈ w.tokens, token.hash = tokenHash → now < token.expires ∧ token.epoch = k) ∧
    (∀ (j k : ℕ) (current new new' : String), j < k → w.changes[j]? = some (.changed current new) →
      w.changes[k]? = some (.changed current new') →
      j + 1 < k ∨ ∃ salt, cfg.verifyPassword current (cfg.hashPassword salt new) = true) := by
  have hi : Inv cfg user.version w :=
    hrun.invariant (fun _ _ _ h hs => h.step hs) (.init cfg user)
  refine ⟨fun x hx => hi.success_login hx, ?_, ?_, ?_⟩
  · intro j k tokenHash now now' hj hk
    exact hi.ledger.reset_unique hj hk
  · intro k tokenHash now hk
    exact hi.ledger.reset_token hk
  · intro j k current new new' hlt hj hk
    exact hi.ledger.changed_again hlt hj hk

/-- A hash that shows its salt and its password. -/
def plainSettings : Settings where
  publicId := "user"
  hashPassword salt password := salt ++ ":" ++ password
  verifyPassword password hash :=
    hash.toList.dropWhile (· ≠ ':') == ':' :: password.toList
  refreshRotationGraceMs := 900000
  accessTouchIntervalMs := 300000

/-- A user with the password `old`. -/
def registeredUser : UserDocument where
  password := "s:old"
  authVersion := none
  resetToken := none
  resetTokenExpires := none
  isBanned := false
  isEmailVerified := true

/-- Two calls present the password `old` and both are in an attempt. The first one
commits, a third call changes the password back, and the second one runs again. -/
def changedTwice : List Action :=
  [.changePassword 0 "old" "new", .changePassword 1 "old" "two", .beginChange 0, .beginChange 1,
    .commitChange 0 "a", .changePassword 2 "new" "old", .beginChange 2, .commitChange 2 "b",
    .abortChange 1, .beginChange 1, .commitChange 1 "c"]

/-- A call presents its token in time and is overtaken by the expiry. -/
def consumedLate : List Action :=
  [.requestPasswordReset 0, .storeResetToken 0 "hash", .advance 3599999,
    .resetPassword 1 "hash" "new", .advance 5, .consumePasswordResetToken 1 "a"]

/-- A login and a change; the old session is refused and that of a new login accepted. -/
def loggedInAgain : List Action :=
  [.login 0 "old", .login 1 "old", .createSession 0 "first" "h0" 604800 none none .answered,
    .changePassword 2 "old" "new", .beginChange 2, .commitChange 2 "a",
    .createSession 1 "second" "h1" 604800 none none .answered,
    .login 3 "new", .createSession 3 "third" "h2" 604800 none none .answered,
    .assertAccessSession 4 "first", .accessLookup 4,
    .assertAccessSession 5 "second", .accessLookup 5,
    .assertAccessSession 6 "third", .accessLookup 6, .accessTouch 6 .answered]

/-- A login after the change is let in with the new version, the two before it are not. -/
theorem passwordChange_endsCredentials_loggedInAgain : ∃ w,
    exec (World.step plainSettings) (.init plainSettings registeredUser) loggedInAgain = some w ∧
      w.logins = [⟨"first", 0⟩, ⟨"second", 0⟩, ⟨"third", 1⟩] ∧ w.successes = [⟨"third", 1⟩] ∧
      ∀ x ∈ w.successes, ∀ login ∈ w.logins, login.sid = x.sid → x.epoch ≤ login.epoch := by
  have h : (exec (World.step plainSettings) (.init plainSettings registeredUser)
      loggedInAgain).map (fun w => (w.logins, w.successes)) =
        some ([⟨"first", 0⟩, ⟨"second", 0⟩, ⟨"third", 1⟩], [⟨"third", 1⟩]) := by decide
  obtain ⟨w, hw, hls⟩ := Option.map_eq_some_iff.mp h
  obtain ⟨hl, hs⟩ := Prod.mk.inj hls
  have hends := passwordChange_endsCredentials plainSettings registeredUser (exec_run hw)
  exact ⟨w, hw, hl, hs, fun x hx => (hends.1 x hx).2⟩

/-- Two concurrent calls with one current password may both succeed, and a token may
change the password after its expiry. -/
theorem passwordChange_succeedsTwice :
    (∃ w, exec (World.step plainSettings) (.init plainSettings registeredUser)
        (changedTwice.take 2) = some w ∧
      w.call 0 = .changing "old" "new" none ∧ w.call 1 = .changing "old" "two" none ∧
      ∃ w', exec (World.step plainSettings) w (changedTwice.drop 2) = some w' ∧
        w'.changes = [.changed "old" "new", .changed "new" "old", .changed "old" "two"]) ∧
    (∃ w, exec (World.step plainSettings) (.init plainSettings registeredUser)
        consumedLate = some w ∧ w.changes = [.reset "hash" 3599999] ∧ w.tokens =
          [⟨"hash", 3600000, 0⟩] ∧
      w.clock = 3600004) := by
  constructor
  · refine ⟨_, rfl, rfl, rfl, _, rfl, rfl⟩
  · refine ⟨_, rfl, rfl, rfl, rfl⟩

end Ascendance.Credentials
