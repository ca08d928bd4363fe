import Ascendance.Core.Keyspace
import Ascendance.Core.OrderedMap

/-!
# Sorted sets

Members with scores, under a key that may expire. A set that loses its last member
is gone, with its expiry.
-/

namespace Ascendance.Core

/-- The members of a sorted set and their scores. -/
abbrev SortedSet (α : Type*) := OrderedMap α ℕ

/-- What is stored under the key of a sorted set. -/
abbrev SortedSetKey (α : Type*) := Option (Entry (SortedSet α))

namespace SortedSet

variable {α : Type*} [DecidableEq α]

omit [DecidableEq α] in
/-- The members whose scores are above a bound. -/
def above (s : SortedSet α) (bound : ℕ) : SortedSet α :=
  ⟨s.entries.filter fun e => bound < e.2, s.nodupKeys.sublist List.filter_sublist⟩

omit [DecidableEq α] in
/-- The greatest score. -/
def latest (s : SortedSet α) : ℕ := (s.entries.map (·.2)).foldl max 0

/-- The members above a bound are those with a score above it. -/
private theorem get_above (s : SortedSet α) (bound : ℕ) (a : α) :
    (s.above bound).get a = (s.get a).filter (bound < ·) := by
  refine Option.ext fun score => ?_
  rw [← OrderedMap.mem_entries_iff, Option.filter_eq_some_iff, ← OrderedMap.mem_entries_iff]
  simp [above]

omit [DecidableEq α] in
private theorem le_foldl_max (l : List ℕ) (n : ℕ) :
    n ≤ l.foldl max n ∧ ∀ m ∈ l, m ≤ l.foldl max n := by
  induction l generalizing n with
  | nil => exact ⟨Nat.le_refl n, fun m hm => absurd hm List.not_mem_nil⟩
  | cons k l ih =>
    obtain ⟨hle, hall⟩ := ih (max n k)
    refine ⟨(Nat.le_max_left n k).trans hle, List.forall_mem_cons.mpr ⟨?_, hall⟩⟩
    exact (Nat.le_max_right n k).trans hle

/-- No score exceeds the latest one. -/
theorem get_le_latest {s : SortedSet α} {a : α} {score : ℕ} (h : s.get a = some score) :
    score ≤ s.latest :=
  (le_foldl_max _ 0).2 score (List.mem_map.mpr ⟨_, OrderedMap.mem_entries_iff.mpr h, rfl⟩)

/-- A set that is not empty has a member. -/
theorem exists_get {s : SortedSet α} (h : s.entries ≠ []) : ∃ a score, s.get a = some score := by
  obtain ⟨e, he⟩ := List.exists_mem_of_ne_nil _ h
  exact ⟨e.1, e.2, OrderedMap.mem_entries_iff.mp he⟩

/-- A set with a score has an entry. -/
private theorem entries_ne_nil {s : SortedSet α} {a : α} {score : ℕ} (h : s.get a = some score) :
    s.entries ≠ [] := List.ne_nil_of_mem (OrderedMap.mem_entries_iff.mpr h)

omit [DecidableEq α] in
/-- The entry that commands see. -/
def live (key : SortedSetKey α) (clock : ℕ) : SortedSetKey α := key.filter (·.isLive clock)

omit [DecidableEq α] in
/-- Keep the expiry; an empty set is removed. -/
def replace (e : Entry (SortedSet α)) (s : SortedSet α) : SortedSetKey α :=
  if s.entries = [] then none else some ⟨s, e.expireAt⟩

omit [DecidableEq α] in
/-- `ZREMRANGEBYSCORE` from the least score. -/
def zRemRangeByScore (key : SortedSetKey α) (clock bound : ℕ) : SortedSetKey α :=
  (live key clock).bind fun e => replace e (e.value.above bound)

/-- `ZREM`. -/
def zRem (key : SortedSetKey α) (clock : ℕ) (a : α) : SortedSetKey α :=
  (live key clock).bind fun e => replace e (e.value.delete a)

/-- `ZADD`; a new key does not expire. -/
def zAdd (key : SortedSetKey α) (clock : ℕ) (a : α) (score : ℕ) : Entry (SortedSet α) :=
  match live key clock with
  | some e => ⟨e.value.set a score, e.expireAt⟩
  | none => ⟨OrderedMap.set ∅ a score, ⊤⟩

omit [DecidableEq α] in
/-- `PEXPIREAT`; a time that has come deletes the key. -/
def pExpireAt (e : Entry (SortedSet α)) (clock time : ℕ) : SortedSetKey α :=
  if time ≤ clock then none else some ⟨e.value, WithTop.some time⟩

omit [DecidableEq α] in
/-- `ZCARD`. -/
def zCard (key : SortedSetKey α) (clock : ℕ) : ℕ :=
  (live key clock).elim 0 fun e => e.value.entries.length

/-- The score of a member that commands see. -/
def score (key : SortedSetKey α) (clock : ℕ) (a : α) : Option ℕ :=
  (live key clock).bind fun e => e.value.get a

omit [DecidableEq α] in
/-- Every score is at most the expiry of its key. -/
def Covered (key : SortedSetKey α) : Prop :=
  ∀ e, key = some e → ∀ m ∈ e.value.entries, WithTop.some m.2 ≤ e.expireAt

section Scores

variable {key : SortedSetKey α} {clock clock' bound : ℕ} {a b : α}

omit [DecidableEq α] in
/-- A key is live until its expiry. -/
private theorem live_eq_some {e : Entry (SortedSet α)} :
    live key clock = some e ↔ key = some e ∧ WithTop.some clock ≤ e.expireAt := by
  unfold live
  rw [Option.filter_eq_some_iff]
  simp [Entry.isLive]

private theorem score_of_none (h : live key clock = none) : score key clock a = none := by
  rw [score, h]
  rfl

private theorem score_replace {e : Entry (SortedSet α)} (he : live key clock = some e)
    (s : SortedSet α) :
    score (replace e s) clock a = s.get a := by
  obtain ⟨-, hlive⟩ := live_eq_some.mp he
  unfold replace score
  split
  · next hempty =>
    cases hget : s.get a with
    | none => rfl
    | some n => exact absurd hempty (entries_ne_nil hget)
  · have hnow : live (some (⟨s, e.expireAt⟩ : Entry (SortedSet α))) clock = some ⟨s, e.expireAt⟩ :=
      live_eq_some.mpr ⟨rfl, hlive⟩
    rw [hnow]
    rfl

/-- Only the scores above the bound are left. -/
theorem score_zRemRangeByScore : score (zRemRangeByScore key clock bound) clock a =
    (score key clock a).filter (bound < ·) := by
  unfold zRemRangeByScore
  cases he : live key clock with
  | none =>
    rw [score_of_none he]
    rfl
  | some e =>
    rw [Option.bind_some, score_replace he, get_above, score, he]
    rfl

/-- Removing a member leaves the scores of the others. -/
theorem score_zRem : score (zRem key clock b) clock a =
    if a = b then none else score key clock a := by
  unfold zRem
  cases he : live key clock with
  | none =>
    rw [score_of_none he]
    split <;> rfl
  | some e =>
    rw [Option.bind_some, score_replace he, OrderedMap.get_delete, score, he]
    rfl

/-- Adding a member sets its score and keeps the others. -/
theorem get_zAdd {n : ℕ} : (zAdd key clock b n).value.get a =
    if a = b then some n else score key clock a := by
  unfold zAdd score
  cases live key clock with
  | none =>
    rw [OrderedMap.get_set, OrderedMap.get_empty]
    rfl
  | some e => exact OrderedMap.get_set _ _ _ _

/-- A set with an expiry to come keeps its scores. -/
theorem score_pExpireAt {e : Entry (SortedSet α)} {time : ℕ} (h : clock < time) :
    score (pExpireAt e clock time) clock a = e.value.get a := by
  have hnow : live (some (⟨e.value, WithTop.some time⟩ : Entry (SortedSet α))) clock =
      some ⟨e.value, WithTop.some time⟩ :=
    live_eq_some.mpr ⟨rfl, WithTop.coe_le_coe.mpr (Nat.le_of_lt h)⟩
  unfold pExpireAt score
  rw [if_neg (Nat.not_le.mpr h), hnow]
  rfl

/-- The set is not empty when a member has a score. -/
theorem zCard_pos : 0 < zCard key clock ↔ ∃ a n, score key clock a = some n := by
  unfold zCard score
  cases live key clock with
  | none => simp
  | some e =>
    rw [Option.elim_some, List.length_pos_iff]
    constructor
    · exact fun h => exists_get h
    · rintro ⟨a, n, h⟩
      exact entries_ne_nil h

/-- No score of a covered key is later than its expiry. -/
private theorem Covered.score_le (h : Covered key) {e : Entry (SortedSet α)} (he : key = some e)
    {n : ℕ}
    (hget : e.value.get a = some n) : WithTop.some n ≤ e.expireAt :=
  h e he ⟨a, n⟩ (OrderedMap.mem_entries_iff.mpr hget)

/-- A score that has not come keeps its key alive. -/
theorem Covered.score_later (h : Covered key) (hle : clock ≤ clock') :
    (score key clock' a).filter (clock' < ·) = (score key clock a).filter (clock' < ·) := by
  refine Option.ext fun n => ?_
  rw [Option.filter_eq_some_iff, Option.filter_eq_some_iff]
  refine and_congr_left fun hn => ?_
  have hlt : clock' < n := by simpa using hn
  unfold score
  rw [Option.bind_eq_some_iff, Option.bind_eq_some_iff]
  constructor
  · rintro ⟨e, he, hget⟩
    obtain ⟨hkey, hlive⟩ := live_eq_some.mp he
    exact ⟨e, live_eq_some.mpr ⟨hkey, (WithTop.coe_le_coe.mpr hle).trans hlive⟩, hget⟩
  · rintro ⟨e, he, hget⟩
    obtain ⟨hkey, -⟩ := live_eq_some.mp he
    have hcovered := h.score_le hkey hget
    exact ⟨e, live_eq_some.mpr
      ⟨hkey, (WithTop.coe_le_coe.mpr (Nat.le_of_lt hlt)).trans hcovered⟩, hget⟩

/-- A set with fewer scores is still covered by its expiry. -/
theorem Covered.replace (h : Covered key) {e : Entry (SortedSet α)} (he : key = some e)
    {s : SortedSet α} (hsub : ∀ a n, s.get a = some n → e.value.get a = some n) :
    Covered (replace e s) := by
  intro e' he' m hm
  unfold SortedSet.replace at he'
  split at he'
  · cases he'
  · obtain rfl := Option.some.inj he'
    exact h.score_le he (hsub m.1 m.2 (OrderedMap.mem_entries_iff.mp hm))

/-- Removing scores keeps the set covered. -/
theorem Covered.zRemRangeByScore (h : Covered key) :
    Covered (zRemRangeByScore key clock bound) := by
  unfold SortedSet.zRemRangeByScore
  cases he : live key clock with
  | none =>
    intro e he
    cases he
  | some e =>
    refine h.replace (live_eq_some.mp he).1 fun a n hget => ?_
    rw [get_above] at hget
    exact (Option.filter_eq_some_iff.mp hget).1

/-- Removing a member keeps the set covered. -/
theorem Covered.zRem (h : Covered key) : Covered (zRem key clock b) := by
  unfold SortedSet.zRem
  cases he : live key clock with
  | none =>
    intro e he
    cases he
  | some e =>
    refine h.replace (live_eq_some.mp he).1 fun a n hget => ?_
    rw [OrderedMap.get_delete] at hget
    split at hget
    · cases hget
    · exact hget

/-- A set that expires with its latest score is covered. -/
theorem covered_pExpireAt (e : Entry (SortedSet α)) :
    Covered (pExpireAt e clock e.value.latest) := by
  intro e' he' m hm
  unfold pExpireAt at he'
  split at he'
  · cases he'
  · obtain rfl := Option.some.inj he'
    exact WithTop.coe_le_coe.mpr (get_le_latest (OrderedMap.mem_entries_iff.mp hm))

end Scores

end SortedSet

end Ascendance.Core
