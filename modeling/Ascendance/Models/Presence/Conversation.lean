import Ascendance.Core.SortedSet
import Ascendance.Core.Transition

/-!
# Conversation presence

The sockets of a user that view a conversation, each with a lease of its own in one
sorted set. The scripts run against the clock of Redis, and are atomic.
-/

namespace Ascendance.Presence

open Ascendance.Core

/-- `TIME`: the seconds and the microseconds of a clock in microseconds. -/
def redisTime (clock : ℕ) : ℕ × ℕ := (clock / 1000000, clock % 1000000)

/-- The milliseconds that the scripts compute from `TIME`. -/
def now (clock : ℕ) : ℕ := (redisTime clock).1 * 1000 + (redisTime clock).2 / 1000

/-- What can happen: time passes, or one of the scripts runs. -/
inductive Action
  | tick (microseconds : ℕ)
  | markConversationPresence (socketId : String) (ttlSeconds : ℕ)
  | clearConversationPresence (socketId : String)
  | isConversationActive
  deriving DecidableEq, Repr

/-- The clock, the key of a user and a conversation, and what was done, newest first. -/
structure World where
  clock : ℕ
  key : SortedSetKey String
  history : List (ℕ × Action)

/-- When the most recent mark of a socket runs out, if it was not cleared since. -/
def lease (socketId : String) : List (ℕ × Action) → Option ℕ
  | [] => none
  | (at_, .markConversationPresence socket ttlSeconds) :: history =>
    if socket = socketId then some (at_ + ttlSeconds * 1000) else lease socketId history
  | (_, .clearConversationPresence socket) :: history =>
    if socket = socketId then none else lease socketId history
  | (_, .tick _) :: history | (_, .isConversationActive) :: history => lease socketId history

namespace World

/-- `MARK_CONVERSATION_PRESENCE_SCRIPT`. -/
def markConversationPresence (w : World) (socketId : String) (ttlSeconds : ℕ) :
    SortedSetKey String :=
  let now := now w.clock
  let expiresAt := now + ttlSeconds * 1000
  let key := SortedSet.zRemRangeByScore w.key now now
  let entry := SortedSet.zAdd key now socketId expiresAt
  SortedSet.pExpireAt entry now entry.value.latest

/-- A socket leaves the conversation. -/
def clearConversationPresence (w : World) (socketId : String) : SortedSetKey String :=
  SortedSet.zRem w.key (now w.clock) socketId

/-- `IS_CONVERSATION_ACTIVE_SCRIPT`, and whether its count is positive. -/
def isConversationActive (w : World) : SortedSetKey String × Bool :=
  let now := now w.clock
  let key := SortedSet.zRemRangeByScore w.key now now
  (key, 0 < SortedSet.zCard key now)

/-- The key after an action. -/
def act (w : World) : Action → SortedSetKey String
  | .tick _ => w.key
  | .markConversationPresence socketId ttlSeconds => w.markConversationPresence socketId ttlSeconds
  | .clearConversationPresence socketId => w.clearConversationPresence socketId
  | .isConversationActive => w.isConversationActive.1

/-- Run an action and note when it ran. -/
def step (w : World) (a : Action) : World where
  clock := match a with
    | .tick microseconds => w.clock + microseconds
    | .markConversationPresence _ _ | .clearConversationPresence _ | .isConversationActive =>
        w.clock
  key := w.act a
  history := (now w.clock, a) :: w.history

/-- No socket is present. -/
def initial (clock : ℕ) : World := ⟨clock, none, []⟩

end World

/-- The scores that are in the future are the leases that have not run out. -/
structure Sound (w : World) : Prop where
  covered : SortedSet.Covered w.key
  leases : ∀ socketId, (SortedSet.score w.key (now w.clock) socketId).filter (now w.clock < ·) =
    (lease socketId w.history).filter (now w.clock < ·)

private theorem now_eq (clock : ℕ) : now clock = clock / 1000 := by
  unfold now redisTime
  omega

variable {w : World}

/-- Passing time keeps the world sound. -/
theorem Sound.tick (h : Sound w) (microseconds : ℕ) : Sound (w.step (.tick microseconds)) := by
  have hle : now w.clock ≤ now (w.clock + microseconds) := by
    rw [now_eq, now_eq]
    omega
  refine ⟨h.covered, fun socketId => ?_⟩
  have hlater : ∀ o : Option ℕ, (o.filter (now w.clock < ·)).filter
      (now (w.clock + microseconds) < ·) = o.filter (now (w.clock + microseconds) < ·) := by
    intro o
    refine Option.ext fun n => ?_
    rw [Option.filter_eq_some_iff, Option.filter_eq_some_iff, Option.filter_eq_some_iff]
    simp only [decide_eq_true_eq]
    constructor
    · exact fun ⟨⟨ho, _⟩, hn⟩ => ⟨ho, hn⟩
    · exact fun ⟨ho, hn⟩ => ⟨⟨ho, Nat.lt_of_le_of_lt hle hn⟩, hn⟩
  change (SortedSet.score w.key (now (w.clock + microseconds)) socketId).filter
    (now (w.clock + microseconds) < ·) =
      (lease socketId w.history).filter (now (w.clock + microseconds) < ·)
  rw [h.covered.score_later hle, ← hlater, h.leases, hlater]

private theorem Sound.isConversationActive (h : Sound w) :
    Sound (w.step .isConversationActive) := by
  refine ⟨h.covered.zRemRangeByScore, fun socketId => ?_⟩
  change (SortedSet.score (SortedSet.zRemRangeByScore w.key (now w.clock) (now w.clock))
    (now w.clock) socketId).filter (now w.clock < ·) = _
  rw [SortedSet.score_zRemRangeByScore, Option.filter_filter]
  simp only [Bool.and_self]
  exact h.leases socketId

/-- Clearing a presence keeps the set sound. -/
private theorem Sound.clearConversationPresence (h : Sound w) (socketId : String) :
    Sound (w.step (.clearConversationPresence socketId)) := by
  refine ⟨h.covered.zRem, fun other => ?_⟩
  change (SortedSet.score (SortedSet.zRem w.key (now w.clock) socketId) (now w.clock) other).filter
    (now w.clock < ·) = (if socketId = other then none else lease other w.history).filter _
  rw [SortedSet.score_zRem]
  by_cases hsocket : other = socketId
  · rw [if_pos hsocket, if_pos hsocket.symm]
    rfl
  · rw [if_neg hsocket, if_neg (Ne.symm hsocket)]
    exact h.leases other

/-- Marking a presence keeps the set sound. -/
private theorem Sound.markConversationPresence (h : Sound w) (socketId : String) (ttlSeconds : ℕ) :
    Sound (w.step (.markConversationPresence socketId ttlSeconds)) := by
  let entry := SortedSet.zAdd (SortedSet.zRemRangeByScore w.key (now w.clock) (now w.clock))
    (now w.clock) socketId (now w.clock + ttlSeconds * 1000)
  have hget : ∀ other, (entry.value.get other).filter (now w.clock < ·) =
      (if socketId = other then some (now w.clock + ttlSeconds * 1000)
        else lease other w.history).filter (now w.clock < ·) := by
    intro other
    rw [SortedSet.get_zAdd, SortedSet.score_zRemRangeByScore]
    by_cases hsocket : other = socketId
    · rw [if_pos hsocket, if_pos hsocket.symm]
    · rw [if_neg hsocket, if_neg (Ne.symm hsocket), Option.filter_filter]
      simp only [Bool.and_self]
      exact h.leases other
  refine ⟨SortedSet.covered_pExpireAt entry, fun other => ?_⟩
  change (SortedSet.score (SortedSet.pExpireAt entry (now w.clock) entry.value.latest)
    (now w.clock) other).filter (now w.clock < ·) =
      (if socketId = other then some (now w.clock + ttlSeconds * 1000)
        else lease other w.history).filter (now w.clock < ·)
  rw [← hget other]
  by_cases hlatest : now w.clock < entry.value.latest
  · rw [SortedSet.score_pExpireAt hlatest]
  · -- Nothing is left that has not run out.
    have hnone : (entry.value.get other).filter (now w.clock < ·) = none := by
      refine Option.filter_eq_none_iff.mpr fun n hn => ?_
      have := SortedSet.get_le_latest hn
      simp only [decide_eq_true_eq]
      omega
    rw [hnone, SortedSet.pExpireAt, if_pos (Nat.not_lt.mp hlatest)]
    rfl

/-- Every action keeps the world sound. -/
theorem Sound.step (h : Sound w) (a : Action) : Sound (w.step a) := by
  cases a with
  | tick microseconds => exact h.tick microseconds
  | markConversationPresence socketId ttlSeconds =>
    exact h.markConversationPresence socketId ttlSeconds
  | clearConversationPresence socketId => exact h.clearConversationPresence socketId
  | isConversationActive => exact h.isConversationActive

/-- A world without sockets is sound. -/
theorem sound_initial (clock : ℕ) : Sound (.initial clock) where
  covered _ he := by cases he
  leases _ := rfl

/-- In every run, the conversation is active exactly when the most recent mark of some
socket was not cleared since and has not run out, and then the key has the lease. -/
theorem conversationPresence {clock : ℕ} {as : List Action}
    (h : Run (Graph fun w a => some (World.step w a)) (.initial clock) as w) :
    (w.isConversationActive.2 = true ↔
      ∃ socketId time, lease socketId w.history = some time ∧ now w.clock < time) ∧
    ∀ socketId time, lease socketId w.history = some time → now w.clock < time →
      SortedSet.score w.key (now w.clock) socketId = some time := by
  have hw : Sound w := by
    refine h.invariant (fun v a v' hv hstep => ?_) (sound_initial clock)
    obtain rfl := Option.some.inj hstep
    exact hv.step a
  constructor
  · change decide (0 < SortedSet.zCard _ _) = true ↔ _
    rw [decide_eq_true_eq, SortedSet.zCard_pos]
    refine exists_congr fun socketId => exists_congr fun time => ?_
    rw [SortedSet.score_zRemRangeByScore, hw.leases, Option.filter_eq_some_iff,
      decide_eq_true_eq]
  · intro socketId time hlease hlater
    have hscore := hw.leases socketId
    rw [hlease, Option.filter_some, if_pos (by simpa using hlater)] at hscore
    exact (Option.filter_eq_some_iff.mp hscore).1

/-- One socket keeps sending heartbeats, the other is gone and shortened its lease before. -/
def heartbeats : List Action :=
  [.markConversationPresence "dead" 90, .markConversationPresence "dead" 10, .tick 9000000,
    .markConversationPresence "alive" 90, .tick 60000000, .clearConversationPresence "alive"]

/-- A socket that has died is present until its lease ends, one that beats stays so. -/
theorem conversationPresence_heartbeats :
    ∃ w : World, lease "dead" w.history = some 10000 ∧ now w.clock = 69000 ∧
      (w.isConversationActive.2 = true ↔
        ∃ socketId time, lease socketId w.history = some time ∧ now w.clock < time) := by
  have hexec : (exec (fun w a => some (World.step w a)) (.initial 0) heartbeats).any
      (fun w => lease "dead" w.history == some 10000 && now w.clock == 69000) = true := by
    decide +kernel
  obtain ⟨w, hrun, hw⟩ := exec_any hexec
  simp only [Bool.and_eq_true, beq_iff_eq] at hw
  exact ⟨w, hw.1, hw.2, (conversationPresence hrun).1⟩

end Ascendance.Presence
