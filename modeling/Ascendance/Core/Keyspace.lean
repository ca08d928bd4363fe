import Mathlib.Data.Finset.Basic
import Mathlib.Order.WithBot
import Mathlib.Logic.Function.Basic

/-!
# Keys that expire

A keyspace stores one value for a key together with the time it expires at. A
key that has expired is no longer there for any command. Sets are values too: a
set that loses its last member disappears with its expiry.
-/

namespace Ascendance.Core

/-- A stored value and when it expires; the top element stands for never. -/
structure Entry (ν : Type*) where
  value : ν
  expireAt : WithTop ℕ

/-- The entry is there at a time. -/
def Entry.isLive {ν : Type*} (e : Entry ν) (clock : ℕ) : Bool :=
  decide (WithTop.some clock ≤ e.expireAt)

/-- The entries of a store, expired ones included. -/
abbrev Keyspace (κ ν : Type*) := κ → Option (Entry ν)

namespace Keyspace

variable {κ ν α : Type*} [DecidableEq κ]

/-- A store without keys. -/
def empty : Keyspace κ ν := fun _ => none

omit [DecidableEq κ] in
/-- The entry that commands see. -/
def entry (ks : Keyspace κ ν) (clock : ℕ) (k : κ) : Option (Entry ν) :=
  (ks k).filter (·.isLive clock)

omit [DecidableEq κ] in
/-- `GET`. -/
def get (ks : Keyspace κ ν) (clock : ℕ) (k : κ) : Option ν := (ks.entry clock k).map (·.value)

/-- The time that many seconds from now. -/
def after (clock seconds : ℕ) : WithTop ℕ := WithTop.some (clock + seconds * 1000)

/-- Replace the entry of a key. -/
def put (ks : Keyspace κ ν) (k : κ) (e : Option (Entry ν)) : Keyspace κ ν := Function.update ks k e

/-- `SET` with `EX`. -/
def setEx (ks : Keyspace κ ν) (clock : ℕ) (k : κ) (seconds : ℕ) (v : ν) : Keyspace κ ν :=
  ks.put k (some ⟨v, after clock seconds⟩)

/-- `SET` with `NX` and `EX`: only a key that is not there is set. -/
def setNxEx (ks : Keyspace κ ν) (clock : ℕ) (k : κ) (seconds : ℕ) (v : ν) : Keyspace κ ν :=
  match ks.entry clock k with
  | some _ => ks
  | none => ks.setEx clock k seconds v

/-- `SET` without `EX`: a value that does not expire. -/
def set (ks : Keyspace κ ν) (k : κ) (v : ν) : Keyspace κ ν := ks.put k (some ⟨v, ⊤⟩)

/-- `SET` with `KEEPTTL`. -/
def setKeepTtl (ks : Keyspace κ ν) (clock : ℕ) (k : κ) (v : ν) : Keyspace κ ν :=
  ks.put k (some ⟨v, (ks.entry clock k).elim ⊤ (·.expireAt)⟩)

/-- `DEL`. -/
def del (ks : Keyspace κ ν) (k : κ) : Keyspace κ ν := ks.put k none

/-- `DEL` of several keys. -/
def delMany (ks : Keyspace κ ν) (keys : Finset κ) : Keyspace κ ν :=
  fun k => if k ∈ keys then none else ks k

/-- `EXPIRE` with `NX`: only a key without expiry gets one. -/
def expireNx (ks : Keyspace κ ν) (clock : ℕ) (k : κ) (seconds : ℕ) : Keyspace κ ν :=
  match ks.entry clock k with
  | some e => if e.expireAt = ⊤ then ks.put k (some ⟨e.value, after clock seconds⟩) else ks
  | none => ks

/-- `EXPIRE` with `GT`: the expiry is only ever moved later, and a key without one keeps it. -/
def expireGt (ks : Keyspace κ ν) (clock : ℕ) (k : κ) (seconds : ℕ) : Keyspace κ ν :=
  match ks.entry clock k with
  | some e =>
    if e.expireAt < after clock seconds then ks.put k (some ⟨e.value, after clock seconds⟩) else ks
  | none => ks

/-- `EXPIRE`. -/
def expire (ks : Keyspace κ ν) (clock : ℕ) (k : κ) (seconds : ℕ) : Keyspace κ ν :=
  match ks.entry clock k with
  | some e => ks.put k (some ⟨e.value, after clock seconds⟩)
  | none => ks

/-- `PERSIST`. -/
def persist (ks : Keyspace κ ν) (clock : ℕ) (k : κ) : Keyspace κ ν :=
  match ks.entry clock k with
  | some e => ks.put k (some ⟨e.value, ⊤⟩)
  | none => ks

/-- `SADD`. -/
def sAdd [DecidableEq α] (ks : Keyspace κ (Finset α)) (clock : ℕ) (k : κ) (a : α) :
    Keyspace κ (Finset α) :=
  match ks.entry clock k with
  | some e => ks.put k (some ⟨insert a e.value, e.expireAt⟩)
  | none => ks.put k (some ⟨{a}, ⊤⟩)

/-- `SREM`. -/
def sRem [DecidableEq α] (ks : Keyspace κ (Finset α)) (clock : ℕ) (k : κ) (a : α) :
    Keyspace κ (Finset α) :=
  match ks.entry clock k with
  | some e =>
    if e.value.erase a = ∅ then ks.del k else ks.put k (some ⟨e.value.erase a, e.expireAt⟩)
  | none => ks

omit [DecidableEq κ] in
/-- `SREM` of some members of every set. -/
def sRemMany [DecidableEq α] (ks : Keyspace κ (Finset α)) (clock : ℕ) (members : κ → Finset α) :
    Keyspace κ (Finset α) := fun k =>
  match ks.entry clock k with
  | some e =>
    if members k = ∅ then some e
    else if e.value \ members k = ∅ then none
    else some ⟨e.value \ members k, e.expireAt⟩
  | none => none

/-- `SADD`, then `EXPIRE` with `NX` and with `GT`. -/
def sAddGt [DecidableEq α] (ks : Keyspace κ (Finset α)) (clock : ℕ) (k : κ) (a : α)
    (seconds : ℕ) : Keyspace κ (Finset α) :=
  ((ks.sAdd clock k a).expireNx clock k seconds).expireGt clock k seconds

omit [DecidableEq κ] in
/-- `SMEMBERS`. -/
def sMembers (ks : Keyspace κ (Finset α)) (clock : ℕ) (k : κ) : Finset α := (ks.get clock k).getD ∅

@[simp] theorem put_self (ks : Keyspace κ ν) (k : κ) (e : Option (Entry ν)) :
    ks.put k e k = e := Function.update_self ..

@[simp] theorem put_ne (ks : Keyspace κ ν) {j k : κ} (e : Option (Entry ν)) (h : j ≠ k) :
    ks.put k e j = ks j := Function.update_of_ne h ..

omit [DecidableEq κ] in
/-- What a lookup finds is stored and has not expired. -/
theorem entry_eq_some {ks : Keyspace κ ν} {clock : ℕ} {k : κ} {e : Entry ν} :
    ks.entry clock k = some e ↔ ks k = some e ∧ WithTop.some clock ≤ e.expireAt := by
  unfold entry
  rw [Option.filter_eq_some_iff]
  simp [Entry.isLive]

omit [DecidableEq κ] in
/-- A key that is there later was there before, with the same entry. -/
theorem entry_mono {ks : Keyspace κ ν} {clock clock' : ℕ} (h : clock ≤ clock') {k : κ} {e : Entry ν}
    (he : ks.entry clock' k = some e) : ks.entry clock k = some e := by
  obtain ⟨hk, hl⟩ := entry_eq_some.mp he
  exact entry_eq_some.mpr ⟨hk, le_trans (WithTop.coe_le_coe.mpr h) hl⟩

/-- Other keys keep their entries. -/
theorem entry_put_ne (ks : Keyspace κ ν) (clock : ℕ) {j k : κ} (e : Option (Entry ν)) (h : j ≠ k) :
    (ks.put k e).entry clock j = ks.entry clock j := by
  unfold entry
  rw [put_ne ks e h]

/-- What a write leaves is read while it lives. -/
theorem entry_put_self (ks : Keyspace κ ν) (clock : ℕ) (k : κ) (e : Option (Entry ν)) :
    (ks.put k e).entry clock k = e.filter (·.isLive clock) := by
  unfold entry
  rw [put_self]

@[simp] theorem entry_del_self (ks : Keyspace κ ν) (clock : ℕ) (k : κ) :
    (ks.del k).entry clock k = none := by
  unfold del
  rw [entry_put_self]
  rfl

/-- A deletion of several keys removes these and no others. -/
theorem entry_delMany (ks : Keyspace κ ν) (keys : Finset κ) (clock : ℕ) (k : κ) :
    (ks.delMany keys).entry clock k = if k ∈ keys then none else ks.entry clock k := by
  unfold entry delMany
  split <;> rfl

private theorem le_after (clock seconds : ℕ) : WithTop.some clock ≤ after clock seconds := by
  unfold after
  exact WithTop.coe_le_coe.mpr (Nat.le_add_right _ _)

/-- A key that was just set is there. -/
theorem entry_setEx_self (ks : Keyspace κ ν) (clock : ℕ) (k : κ) (seconds : ℕ) (v : ν) :
    (ks.setEx clock k seconds v).entry clock k = some ⟨v, after clock seconds⟩ :=
  entry_eq_some.mpr ⟨put_self .., le_after clock seconds⟩

/-- `NX` leaves a key that is there as it is. -/
theorem setNxEx_of_some {ks : Keyspace κ ν} {clock : ℕ} {k : κ} {e : Entry ν}
    (h : ks.entry clock k = some e) (seconds : ℕ) (v : ν) : ks.setNxEx clock k seconds v = ks := by
  unfold setNxEx
  rw [h]

/-- Writing where nothing lives succeeds. -/
theorem setNxEx_of_none {ks : Keyspace κ ν} {clock : ℕ} {k : κ} (h : ks.entry clock k = none)
    (seconds : ℕ) (v : ν) : ks.setNxEx clock k seconds v = ks.setEx clock k seconds v := by
  unfold setNxEx
  rw [h]

/-- A write leaves the other keys alone. -/
theorem setEx_ne (ks : Keyspace κ ν) (clock : ℕ) {j k : κ} (seconds : ℕ) (v : ν) (h : j ≠ k) :
    ks.setEx clock k seconds v j = ks j := put_ne ks _ h

/-- A value set without an expiry is read without one. -/
theorem entry_set_self (ks : Keyspace κ ν) (clock : ℕ) (k : κ) (v : ν) :
    (ks.set k v).entry clock k = some ⟨v, ⊤⟩ := entry_eq_some.mpr ⟨put_self .., le_top⟩

/-- A live key keeps its expiry when its value is replaced. -/
theorem entry_setKeepTtl_self {ks : Keyspace κ ν} {clock : ℕ} {k : κ} {e : Entry ν}
    (h : ks.entry clock k = some e) (v : ν) :
    (ks.setKeepTtl clock k v).entry clock k = some ⟨v, e.expireAt⟩ := by
  refine entry_eq_some.mpr ⟨?_, (entry_eq_some.mp h).2⟩
  unfold setKeepTtl
  rw [put_self, h]
  rfl

/-- Adding creates a set without expiry, or keeps the expiry of the set. -/
theorem entry_sAdd_self [DecidableEq α] (ks : Keyspace κ (Finset α)) (clock : ℕ) (k : κ) (a : α) :
    (ks.sAdd clock k a).entry clock k =
      some ((ks.entry clock k).elim ⟨{a}, ⊤⟩ fun e => ⟨insert a e.value, e.expireAt⟩) := by
  unfold sAdd
  cases h : ks.entry clock k with
  | none => exact entry_eq_some.mpr ⟨put_self .., le_top⟩
  | some e => exact entry_eq_some.mpr ⟨put_self .., (entry_eq_some.mp h).2⟩

/-- Adding a member leaves the other keys alone. -/
theorem entry_sAdd_ne [DecidableEq α] (ks : Keyspace κ (Finset α)) (clock : ℕ) {j k : κ} (a : α)
    (h : j ≠ k) : (ks.sAdd clock k a).entry clock j = ks.entry clock j := by
  unfold sAdd
  split <;> rw [entry_put_ne _ _ _ h]

/-- `NX` only sets an expiry that is missing. -/
theorem entry_expireNx_self {ks : Keyspace κ ν} {clock : ℕ} {k : κ} {e : Entry ν}
    (h : ks.entry clock k = some e) (seconds : ℕ) :
    (ks.expireNx clock k seconds).entry clock k =
      some ⟨e.value, if e.expireAt = ⊤ then after clock seconds else e.expireAt⟩ := by
  unfold expireNx
  rw [h]
  simp only
  split
  · exact entry_eq_some.mpr ⟨put_self .., le_after ..⟩
  · exact h

private theorem entry_expireNx_ne (ks : Keyspace κ ν) (clock seconds : ℕ) {j k : κ} (h : j ≠ k) :
    (ks.expireNx clock k seconds).entry clock j = ks.entry clock j := by
  unfold expireNx
  split
  · split
    · rw [entry_put_ne _ _ _ h]
    · rfl
  · rfl

/-- `GT` leaves the later of the two expiries. -/
theorem entry_expireGt_self {ks : Keyspace κ ν} {clock : ℕ} {k : κ} {e : Entry ν}
    (h : ks.entry clock k = some e) (seconds : ℕ) :
    ∃ expireAt, (ks.expireGt clock k seconds).entry clock k = some ⟨e.value, expireAt⟩ ∧
      e.expireAt ≤ expireAt ∧ after clock seconds ≤ expireAt ∧
      (expireAt = e.expireAt ∨ expireAt = after clock seconds) := by
  unfold expireGt
  rw [h]
  simp only
  split
  · next hlt =>
    exact ⟨after clock seconds, entry_eq_some.mpr ⟨put_self .., le_after ..⟩, hlt.le, le_rfl,
      .inr rfl⟩
  · next hge => exact ⟨e.expireAt, h, le_rfl, not_lt.mp hge, .inl rfl⟩

private theorem entry_expireGt_ne (ks : Keyspace κ ν) (clock seconds : ℕ) {j k : κ} (h : j ≠ k) :
    (ks.expireGt clock k seconds).entry clock j = ks.entry clock j := by
  unfold expireGt
  split
  · split
    · rw [entry_put_ne _ _ _ h]
    · rfl
  · rfl

/-- A new expiry replaces the old one. -/
private theorem entry_expire_self {ks : Keyspace κ ν} {clock : ℕ} {k : κ} {e : Entry ν}
    (h : ks.entry clock k = some e) (seconds : ℕ) :
    (ks.expire clock k seconds).entry clock k = some ⟨e.value, after clock seconds⟩ := by
  unfold expire
  rw [h]
  exact entry_eq_some.mpr ⟨put_self .., le_after ..⟩

/-- Setting an expiry leaves the other keys alone. -/
theorem entry_expire_ne (ks : Keyspace κ ν) (clock seconds : ℕ) {j k : κ} (h : j ≠ k) :
    (ks.expire clock k seconds).entry clock j = ks.entry clock j := by
  unfold expire
  split
  · rw [entry_put_ne _ _ _ h]
  · rfl

/-- A persisted entry has no expiry. -/
private theorem entry_persist_self {ks : Keyspace κ ν} {clock : ℕ} {k : κ} {e : Entry ν}
    (h : ks.entry clock k = some e) :
    (ks.persist clock k).entry clock k = some ⟨e.value, ⊤⟩ := by
  unfold persist
  rw [h]
  exact entry_eq_some.mpr ⟨put_self .., le_top⟩

/-- Dropping an expiry leaves the other keys alone. -/
theorem entry_persist_ne (ks : Keyspace κ ν) (clock : ℕ) {j k : κ} (h : j ≠ k) :
    (ks.persist clock k).entry clock j = ks.entry clock j := by
  unfold persist
  split
  · rw [entry_put_ne _ _ _ h]
  · rfl

/-- The set gets the member and an expiry that covers the seconds. An earlier expiry
is only moved later, but a set without one gets the expiry of the new member. -/
theorem entry_sAddGt_self [DecidableEq α] (ks : Keyspace κ (Finset α)) (clock : ℕ) (k : κ) (a : α)
    (seconds : ℕ) :
    ∃ e, (ks.sAddGt clock k a seconds).entry clock k = some e ∧ a ∈ e.value ∧
      after clock seconds ≤ e.expireAt ∧ e.expireAt ≠ ⊤ ∧
      ∀ e₀, ks.entry clock k = some e₀ → e₀.value ⊆ e.value ∧
        (e₀.expireAt ≠ ⊤ → e₀.expireAt ≤ e.expireAt) ∧
        (e₀.expireAt = ⊤ → e.expireAt = after clock seconds) := by
  have hafter : after clock seconds ≠ ⊤ := WithTop.coe_ne_top
  have hadd := ks.entry_sAdd_self clock k a
  cases h : ks.entry clock k with
  | none =>
    rw [h] at hadd
    have hnx := entry_expireNx_self hadd seconds
    obtain ⟨expireAt, hgt, -, hcover, heq⟩ := entry_expireGt_self hnx seconds
    simp only [Option.elim_none, if_true, or_self] at heq
    exact ⟨_, hgt, by simp, hcover, heq ▸ hafter, fun e₀ he₀ => by cases he₀⟩
  | some e₀ =>
    rw [h] at hadd
    have hnx := entry_expireNx_self hadd seconds
    by_cases htop : e₀.expireAt = ⊤
    · simp only [Option.elim_some, htop, if_true] at hnx
      obtain ⟨expireAt, hgt, -, hcover, heq⟩ := entry_expireGt_self hnx seconds
      rw [or_self] at heq
      refine ⟨_, hgt, by simp, hcover, heq ▸ hafter, ?_⟩
      intro e₁ he₁
      obtain rfl := Option.some.inj he₁
      exact ⟨Finset.subset_insert _ _, fun hne => absurd htop hne, fun _ => heq⟩
    · simp only [Option.elim_some, htop, if_false] at hnx
      obtain ⟨expireAt, hgt, hle, hcover, heq⟩ := entry_expireGt_self hnx seconds
      refine ⟨_, hgt, by simp, hcover, ?_, ?_⟩
      · rcases heq with heq | heq
        · exact heq ▸ htop
        · exact heq ▸ hafter
      · intro e₁ he₁
        obtain rfl := Option.some.inj he₁
        exact ⟨Finset.subset_insert _ _, fun _ => hle, fun heq' => absurd heq' htop⟩

/-- Adding a member and prolonging its set leaves the other keys alone. -/
theorem entry_sAddGt_ne [DecidableEq α] (ks : Keyspace κ (Finset α)) (clock : ℕ) {j k : κ} (a : α)
    (seconds : ℕ) (h : j ≠ k) :
    (ks.sAddGt clock k a seconds).entry clock j = ks.entry clock j := by
  unfold sAddGt
  rw [entry_expireGt_ne _ _ _ h, entry_expireNx_ne _ _ _ h, entry_sAdd_ne _ _ _ h]

private theorem entry_sRem_ne [DecidableEq α] (ks : Keyspace κ (Finset α)) (clock : ℕ) {j k : κ}
    (a : α)
    (h : j ≠ k) : (ks.sRem clock k a).entry clock j = ks.entry clock j := by
  unfold sRem del
  split
  · split <;> rw [entry_put_ne _ _ _ h]
  · rfl

/-- Removing a member keeps the expiry of a set that is still there. -/
theorem expireAt_sRem [DecidableEq α] {ks : Keyspace κ (Finset α)} {clock : ℕ} {k j : κ} {a : α}
    {e' : Entry (Finset α)} (h : (ks.sRem clock k a).entry clock j = some e') :
    ∃ e, ks.entry clock j = some e ∧ e'.expireAt = e.expireAt := by
  by_cases hj : j = k
  · subst hj
    unfold sRem at h
    cases he : ks.entry clock j with
    | none =>
      rw [he] at h
      simp [he] at h
    | some e =>
      rw [he] at h
      simp only at h
      split at h
      · simp at h
      · obtain ⟨h, -⟩ := entry_eq_some.mp h
        rw [put_self] at h
        obtain rfl := Option.some.inj h
        exact ⟨e, rfl, rfl⟩
  · rw [entry_sRem_ne _ _ _ hj] at h
    exact ⟨e', h, rfl⟩

/-- A removed member is no longer listed. -/
theorem notMem_sMembers_sRem [DecidableEq α] (ks : Keyspace κ (Finset α)) (clock : ℕ) (k : κ)
    (a : α) : a ∉ (ks.sRem clock k a).sMembers clock k := by
  unfold sMembers get sRem
  cases h : ks.entry clock k with
  | none => simp [h]
  | some e =>
    simp only
    split
    · simp
    · have hl := (entry_eq_some.mp h).2
      rw [entry_put_self, Option.filter_some, if_pos (by simpa [Entry.isLive] using hl)]
      simp

/-- The members that a set keeps. -/
theorem mem_sMembers_sRem [DecidableEq α] (ks : Keyspace κ (Finset α)) (clock : ℕ) {k j : κ}
    {a b : α} : b ∈ (ks.sRem clock k a).sMembers clock j ↔
      b ∈ ks.sMembers clock j ∧ ¬(j = k ∧ b = a) := by
  by_cases hj : j = k
  · subst hj
    unfold sMembers get sRem
    cases h : ks.entry clock j with
    | none => simp [h]
    | some e =>
      simp only
      split
      · next hempty =>
        have hmem : b ∈ e.value → b = a := fun hb => by
          by_contra hne
          exact absurd (hempty ▸ Finset.mem_erase.mpr ⟨hne, hb⟩) (Finset.notMem_empty b)
        simpa using hmem
      · have hl := (entry_eq_some.mp h).2
        rw [entry_put_self, Option.filter_some, if_pos (by simpa [Entry.isLive] using hl)]
        simp [and_comm]
  · unfold sMembers get
    rw [entry_sRem_ne ks clock a hj]
    simp [hj]

omit [DecidableEq κ] in
/-- What is left of the sets is live. -/
theorem entry_sRemMany [DecidableEq α] (ks : Keyspace κ (Finset α)) (clock : ℕ)
    (members : κ → Finset α) (k : κ) :
    (ks.sRemMany clock members).entry clock k = ks.sRemMany clock members k := by
  change (ks.sRemMany clock members k).filter (·.isLive clock) = _
  unfold sRemMany
  cases h : ks.entry clock k with
  | none => rfl
  | some e =>
    have hl := (entry_eq_some.mp h).2
    simp only
    split_ifs
    · rw [Option.filter_some, if_pos (by simpa [Entry.isLive] using hl)]
    · rfl
    · rw [Option.filter_some, if_pos (by simpa [Entry.isLive] using hl)]

omit [DecidableEq κ] in
/-- Removing members from several sets leaves the other members. -/
theorem mem_sMembers_sRemMany [DecidableEq α] (ks : Keyspace κ (Finset α)) (clock : ℕ)
    (members : κ → Finset α) {k : κ} {a : α} :
    a ∈ (ks.sRemMany clock members).sMembers clock k ↔
      a ∈ ks.sMembers clock k ∧ a ∉ members k := by
  unfold sMembers get
  rw [entry_sRemMany]
  unfold sRemMany
  cases h : ks.entry clock k with
  | none => simp
  | some e =>
    simp only
    split_ifs with hmembers hempty
    · simp [hmembers]
    · have hmem : a ∈ e.value → a ∈ members k := fun ha => by
        by_contra hne
        exact absurd (hempty ▸ Finset.mem_sdiff.mpr ⟨ha, hne⟩) (Finset.notMem_empty a)
      simpa using hmem
    · simp

/-- Deleting sets leaves the members of the others. -/
theorem mem_sMembers_delMany (ks : Keyspace κ (Finset α)) (clock : ℕ) (keys : Finset κ) {k : κ}
    {a : α} : a ∈ (ks.delMany keys).sMembers clock k ↔ a ∈ ks.sMembers clock k ∧ k ∉ keys := by
  unfold sMembers get
  rw [entry_delMany]
  by_cases h : k ∈ keys <;> simp [h]

/-- A member of a live set that stays at least until a time. -/
def Holds (ks : Keyspace κ (Finset α)) (clock : ℕ) (k : κ) (a : α) (until_ : WithTop ℕ) : Prop :=
  ∃ e, ks.entry clock k = some e ∧ a ∈ e.value ∧ until_ ≤ e.expireAt

omit [DecidableEq κ] in
/-- A member is held for as long as the time it stays until. -/
theorem Holds.mono {ks : Keyspace κ (Finset α)} {clock clock' : ℕ} {k : κ} {a : α}
    {until_ : WithTop ℕ} (h : Holds ks clock k a until_) (hl : WithTop.some clock' ≤ until_) :
    Holds ks clock' k a until_ := by
  obtain ⟨e, he, ha, hu⟩ := h
  exact ⟨e, entry_eq_some.mpr ⟨(entry_eq_some.mp he).1, hl.trans hu⟩, ha, hu⟩

omit [DecidableEq κ] in
/-- What a set holds is read from it. -/
theorem Holds.mem_sMembers {ks : Keyspace κ (Finset α)} {clock : ℕ} {k : κ} {a : α}
    {until_ : WithTop ℕ} (h : Holds ks clock k a until_) : a ∈ ks.sMembers clock k := by
  obtain ⟨e, he, ha, -⟩ := h
  simpa [sMembers, get, he] using ha

/-- Removing another member keeps the members that are held. -/
theorem Holds.sRem [DecidableEq α] {ks : Keyspace κ (Finset α)} {clock : ℕ} {k : κ} {a : α}
    {until_ : WithTop ℕ} (h : Holds ks clock k a until_) (j : κ) {b : α} (hne : k = j → a ≠ b) :
    Holds (ks.sRem clock j b) clock k a until_ := by
  obtain ⟨e, he, ha, hu⟩ := h
  by_cases hj : k = j
  · subst hj
    have hmem : a ∈ e.value.erase b := Finset.mem_erase.mpr ⟨hne rfl, ha⟩
    unfold Keyspace.sRem
    rw [he]
    simp only
    rw [if_neg (Finset.ne_empty_of_mem hmem)]
    exact ⟨_, entry_eq_some.mpr ⟨put_self .., (entry_eq_some.mp he).2⟩, hmem, hu⟩
  · refine ⟨e, ?_, ha, hu⟩
    rwa [entry_sRem_ne _ _ _ hj]

/-- Adding a member to any set keeps what another holds. -/
theorem Holds.sAdd [DecidableEq α] {ks : Keyspace κ (Finset α)} {clock : ℕ} {k : κ} {a : α}
    {until_ : WithTop ℕ} (h : Holds ks clock k a until_) (j : κ) (b : α) :
    Holds (ks.sAdd clock j b) clock k a until_ := by
  obtain ⟨e, he, ha, hu⟩ := h
  by_cases hj : k = j
  · subst hj
    have hadd := ks.entry_sAdd_self clock k b
    rw [he] at hadd
    exact ⟨_, hadd, Finset.mem_insert_of_mem ha, hu⟩
  · exact ⟨e, (entry_sAdd_ne _ _ _ hj).trans he, ha, hu⟩

/-- Dropping an expiry keeps what the sets hold. -/
theorem Holds.persist {ks : Keyspace κ (Finset α)} {clock : ℕ} {k : κ} {a : α}
    {until_ : WithTop ℕ} (h : Holds ks clock k a until_) (j : κ) :
    Holds (ks.persist clock j) clock k a until_ := by
  obtain ⟨e, he, ha, hu⟩ := h
  by_cases hj : k = j
  · subst hj
    exact ⟨_, entry_persist_self he, ha, le_top⟩
  · exact ⟨e, (entry_persist_ne _ _ hj).trans he, ha, hu⟩

/-- A set whose expiry is only moved later keeps what it holds. A set without expiry
gets one, which must not end too early. -/
theorem Holds.sAddGt [DecidableEq α] {ks : Keyspace κ (Finset α)} {clock : ℕ} {k : κ} {a : α}
    {until_ : WithTop ℕ} (h : Holds ks clock k a until_) {j : κ} {seconds : ℕ} (b : α)
    (hlim :
      k = j → ∀ e, ks.entry clock k = some e → e.expireAt = ⊤ → until_ ≤ after clock seconds) :
    Holds (ks.sAddGt clock j b seconds) clock k a until_ := by
  obtain ⟨e, he, ha, hu⟩ := h
  by_cases hj : k = j
  · subst hj
    obtain ⟨e', he', -, hcover, -, hold⟩ := ks.entry_sAddGt_self clock k b seconds
    obtain ⟨hsub, hle, -⟩ := hold e he
    refine ⟨e', he', hsub ha, ?_⟩
    by_cases htop : e.expireAt = ⊤
    · exact (hlim rfl e he htop).trans hcover
    · exact hu.trans (hle htop)
  · exact ⟨e, (entry_sAddGt_ne _ _ _ _ hj).trans he, ha, hu⟩

/-- The new member stays for its seconds. -/
theorem holds_sAddGt [DecidableEq α] (ks : Keyspace κ (Finset α)) (clock : ℕ) (k : κ) (a : α)
    (seconds : ℕ) : Holds (ks.sAddGt clock k a seconds) clock k a (after clock seconds) := by
  obtain ⟨e, he, ha, hcover, -⟩ := ks.entry_sAddGt_self clock k a seconds
  exact ⟨e, he, ha, hcover⟩

/-- A new member is there now. -/
theorem holds_sAdd [DecidableEq α] (ks : Keyspace κ (Finset α)) (clock : ℕ) (k : κ) (a : α) :
    Holds (ks.sAdd clock k a) clock k a (WithTop.some clock) := by
  have hadd := ks.entry_sAdd_self clock k a
  refine ⟨_, hadd, ?_, (entry_eq_some.mp hadd).2⟩
  cases ks.entry clock k <;> simp

/-- A new expiry bounds how long the set holds its members. -/
theorem Holds.expire_self {ks : Keyspace κ (Finset α)} {clock : ℕ} {k : κ} {a : α}
    {until_ : WithTop ℕ} (h : Holds ks clock k a until_) (seconds : ℕ) :
    Holds (ks.expire clock k seconds) clock k a (after clock seconds) := by
  obtain ⟨e, he, ha, -⟩ := h
  exact ⟨_, entry_expire_self he seconds, ha, le_rfl⟩

/-- Without an expiry the set holds its members for ever. -/
theorem Holds.persist_self {ks : Keyspace κ (Finset α)} {clock : ℕ} {k : κ} {a : α}
    {until_ : WithTop ℕ} (h : Holds ks clock k a until_) :
    Holds (ks.persist clock k) clock k a ⊤ := by
  obtain ⟨e, he, ha, -⟩ := h
  exact ⟨_, entry_persist_self he, ha, le_rfl⟩

/-- The new member of a set without expiry stays. -/
theorem holds_sAdd_persist [DecidableEq α] (ks : Keyspace κ (Finset α)) (clock : ℕ) (k : κ)
    (a : α) : Holds ((ks.sAdd clock k a).persist clock k) clock k a ⊤ :=
  (ks.holds_sAdd clock k a).persist_self

omit [DecidableEq κ] in
/-- A member that is not removed stays. -/
theorem Holds.sRemMany [DecidableEq α] {ks : Keyspace κ (Finset α)} {clock : ℕ} {k : κ} {a : α}
    {until_ : WithTop ℕ} (h : Holds ks clock k a until_) {members : κ → Finset α}
    (hne : a ∉ members k) : Holds (ks.sRemMany clock members) clock k a until_ := by
  obtain ⟨e, he, ha, hu⟩ := h
  have hmem : a ∈ e.value \ members k := Finset.mem_sdiff.mpr ⟨ha, hne⟩
  have hlive := (entry_eq_some.mp he).2
  by_cases hm : members k = ∅
  · refine ⟨e, entry_eq_some.mpr ⟨?_, hlive⟩, ha, hu⟩
    unfold Keyspace.sRemMany
    rw [he]
    exact if_pos hm
  · refine ⟨⟨e.value \ members k, e.expireAt⟩, entry_eq_some.mpr ⟨?_, hlive⟩, hmem, hu⟩
    unfold Keyspace.sRemMany
    rw [he]
    dsimp only
    rw [if_neg hm, if_neg (Finset.ne_empty_of_mem hmem)]

/-- Deleting other keys keeps what the set holds. -/
theorem Holds.delMany {ks : Keyspace κ (Finset α)} {clock : ℕ} {k : κ} {a : α}
    {until_ : WithTop ℕ} (h : Holds ks clock k a until_) {keys : Finset κ} (hk : k ∉ keys) :
    Holds (ks.delMany keys) clock k a until_ := by
  obtain ⟨e, he, ha, hu⟩ := h
  refine ⟨e, ?_, ha, hu⟩
  rw [entry_delMany, if_neg hk]
  exact he

end Keyspace

end Ascendance.Core
