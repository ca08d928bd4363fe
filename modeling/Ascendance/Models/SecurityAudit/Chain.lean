import Ascendance.Models.SecurityAudit.Service
import Mathlib.Data.List.Chain
import Mathlib.Data.List.Sort

/-!
# The chain of events

Every line that was written holds the hash of what it says. The stored events are one chain as
long as an event is stored only while the one it was hashed after is still the latest, and with a
time after all others, and as long as only the latest event is ever removed.
-/

namespace Ascendance.SecurityAudit

open Ascendance.Core

variable {ι : Type*} [DecidableEq ι] {platform : Platform} {ttlSeconds : Option ℤ}

/-- The hash of an event is that of its properties. -/
def StoredEvent.Hashed (platform : Platform) (event : StoredEvent) : Prop :=
  hashOf platform (hashPayload platform event.input event.eventId event.occurredAt
    event.previousHash) = some event.eventHash

/-- A line whose JSON has the hash of the rest of it. -/
def Verifies (platform : Platform) (line : String) : Prop :=
  ∃ j, line = jsonText j ∧ ∃ eventHash, eventHashOf j = some eventHash ∧
    recomputedHash platform j = some eventHash

/-- A hashed event carries the hash of its payload. -/
private theorem hashed_hashEvent (platform : Platform) (input : RecordSecurityAuditEventInput)
    (eventId : String) (occurredAt : ℤ) (previousHash : String) :
    hashOf platform (hashPayload platform input eventId occurredAt previousHash) =
      some (hashEvent platform input eventId occurredAt previousHash) := by
  obtain ⟨j, -, -, hhash⟩ := hashOf_hashPayload platform input eventId occurredAt previousHash
  rw [hashEvent, hhash]
  rfl

/-- The line of an event verifies. -/
theorem verifies_lineOf {event : StoredEvent} (h : event.Hashed platform) :
    Verifies platform ((lineOf platform event.input event.eventId event.occurredAt
      event.previousHash event.eventHash).getD "") := by
  obtain ⟨j, hline, hj⟩ := recomputedHash_lineOf h
  exact ⟨j, by rw [hline]; rfl, event.eventHash, hj⟩

/-- Events have their hashes, and lines verify. -/
structure Sound (platform : Platform) (s : State ι) : Prop where
  store : ∀ event ∈ s.store, event.Hashed platform
  phase : ∀ i event, s.phase i = .stored event → event.Hashed platform
  lines : ∀ line ∈ s.lines, Verifies platform line.2

omit [DecidableEq ι] in
/-- The empty log is sound. -/
theorem Sound.empty : Sound platform (State.empty : State ι) where
  store event h := by cases h
  phase i event h := by cases h
  lines line h := by cases h

/-- Every action keeps the log sound. -/
theorem Sound.step {s s' : State ι} {a : Action ι} (h : Sound platform s)
    (hstep : State.step platform ttlSeconds s a = some s') : Sound platform s' := by
  cases State.step_cases hstep with
  | other hstore hlines hphase =>
    exact ⟨hstore ▸ h.store, fun i event hi => h.phase i event (hphase i event hi),
      hlines ▸ h.lines⟩
  | @stored i id outcome input occurredAt previousHash eventId event haction hsuccess hhashed hevent
      hid hstore hlines hphase =>
    have hnew : event.Hashed platform :=
      hevent ▸ hashed_hashEvent platform input eventId occurredAt previousHash
    refine ⟨fun event' hmem => ?_, fun j event' hj => ?_, hlines ▸ h.lines⟩
    · rw [hstore] at hmem
      rcases List.mem_append.mp hmem with hmem | hmem
      · exact h.store event' hmem
      · exact List.mem_singleton.mp hmem ▸ hnew
    · rcases hphase j event' hj with rfl | hold
      · exact hnew
      · exact h.phase j event' hold
  | @appended i event hstored hstore hlines hphase =>
    refine ⟨hstore ▸ h.store, fun j event' hj => h.phase j event' (hphase j event' hj), ?_⟩
    rcases hlines with hlines | hlines
    · exact hlines ▸ h.lines
    · intro line hmem
      rw [hlines] at hmem
      rcases List.mem_append.mp hmem with hmem | hmem
      · exact h.lines line hmem
      · rw [List.mem_singleton.mp hmem]
        exact verifies_lineOf (h.phase i event hstored)
  | expired haction hstore hlines hphase =>
    refine ⟨fun event hmem => ?_, fun i event hi => h.phase i event (hphase i event hi),
      hlines ▸ h.lines⟩
    rw [hstore] at hmem
    exact h.store event (List.mem_of_mem_filter hmem)

/-- An event is stored while the latest event is still the one that was read, and it comes after
all of them. An event that is removed is the latest one. -/
def InOrder (s : State ι) : Action ι → Prop
  | .create i id outcome => outcome = .failed ∨
    ∀ input occurredAt previousHash eventId,
      s.phase i = .hashed input occurredAt previousHash eventId →
        previousHash = latestHash s.store ∧
          ∀ event ∈ s.store, event.key < toLex (occurredAt, id)
  | .expire eventId _ => ∀ event ∈ findLatest s.store, event.eventId = eventId
  | .record _ _ | .start _ _ | .read _ _ _ | .appendJsonlEvent _ _ => True

/-- Events in their order, each linked to the one before. -/
structure Linked (store : List StoredEvent) : Prop where
  sorted : store.Pairwise fun a b => a.key < b.key
  linked : store.IsChain fun a b => b.previousHash = a.eventHash
  first : ∀ event ∈ store.head?, event.previousHash = GENESIS_HASH
  ids : (store.map (·.eventId)).Nodup

/-- A store in order is listed as it is. -/
private theorem findForArchiveRange_eq {store : List StoredEvent}
    (h : store.Pairwise fun a b => a.key < b.key) : findForArchiveRange store = store := by
  have : Std.Total fun a b : StoredEvent => a.key ≤ b.key := ⟨fun a b => le_total a.key b.key⟩
  have : IsTrans StoredEvent fun a b => a.key ≤ b.key := ⟨fun _ _ _ hab hbc => le_trans hab hbc⟩
  exact (h.imp le_of_lt).insertionSort_eq

/-- The latest hash of a store in order is that of its last event. -/
private theorem latestHash_eq {store : List StoredEvent}
    (h : store.Pairwise fun a b => a.key < b.key) :
    latestHash store = (store.getLast?.map (·.eventHash)).getD GENESIS_HASH := by
  rw [latestHash, findLatest, findForArchiveRange_eq h]

/-- One more event at the end. -/
theorem Linked.concat {store : List StoredEvent} (h : Linked store) {event : StoredEvent}
    (hprevious : event.previousHash = latestHash store) (hkey : ∀ e ∈ store, e.key < event.key)
    (hid : event.eventId ∉ store.map (·.eventId)) : Linked (store ++ [event]) := by
  rw [latestHash_eq h.sorted] at hprevious
  constructor
  · refine List.pairwise_append.mpr ⟨h.sorted, List.pairwise_singleton _ _, fun e he e' he' => ?_⟩
    exact List.mem_singleton.mp he' ▸ hkey e he
  · refine List.isChain_append.mpr ⟨h.linked, List.isChain_singleton _, fun e he e' he' => ?_⟩
    obtain rfl := Option.some.inj he'
    rw [hprevious, he]
    rfl
  · intro e he
    cases store with
    | nil =>
      obtain rfl := Option.some.inj he
      exact hprevious
    | cons first rest => exact h.first e he
  · rw [List.map_append]
    exact h.ids.append (List.nodup_singleton _) fun eventId hmem hmem' => by
      rw [List.mem_singleton.mp hmem'] at hmem
      exact hid hmem

/-- One event less at the end. -/
theorem Linked.removeLatest {store : List StoredEvent} (h : Linked store) {eventId : String}
    (hlatest : ∀ event ∈ findLatest store, event.eventId = eventId) :
    Linked (store.filter fun event => event.eventId ≠ eventId) := by
  rw [findLatest, findForArchiveRange_eq h.sorted] at hlatest
  rcases List.eq_nil_or_concat' store with rfl | ⟨earlier, latest, rfl⟩
  · exact h
  obtain rfl := hlatest latest List.getLast?_concat
  have hids := h.ids
  rw [List.map_append, List.map_singleton, List.nodup_append] at hids
  -- Event ids are distinct, so the filter takes the last event and no other one.
  have hkeep : earlier.filter (fun event => event.eventId ≠ latest.eventId) = earlier :=
    List.filter_eq_self.mpr fun event hevent => decide_eq_true
      (hids.2.2 _ (List.mem_map_of_mem hevent) _ List.mem_cons_self)
  have hfilter : (earlier ++ [latest]).filter (fun event => event.eventId ≠ latest.eventId) =
      earlier := by
    rw [List.filter_append, hkeep, List.filter_singleton, decide_eq_false (not_not_intro rfl)]
    exact List.append_nil earlier
  rw [hfilter]
  have hinitial : earlier <+: earlier ++ [latest] := List.prefix_append _ _
  refine ⟨h.sorted.sublist hinitial.sublist, h.linked.prefix hinitial, fun event hevent => ?_,
    h.ids.sublist (hinitial.sublist.map _)⟩
  refine h.first event ?_
  rw [List.head?_append, hevent]
  rfl

/-- A step in order keeps the chain linked. -/
private theorem linked_step {s s' : State ι} {a : Action ι} (h : Linked s.store)
    (horder : InOrder s a)
    (hstep : State.step platform ttlSeconds s a = some s') : Linked s'.store := by
  cases State.step_cases hstep with
  | other hstore => exact hstore ▸ h
  | appended _ hstore => exact hstore ▸ h
  | stored haction hsuccess hhashed hevent hid hstore =>
    subst haction hevent
    obtain ⟨hprevious, hkey⟩ := horder.resolve_left hsuccess _ _ _ _ hhashed
    rw [hstore]
    exact h.concat hprevious hkey hid
  | expired haction hstore =>
    subst haction
    rw [hstore]
    exact h.removeLatest horder

/-- The hashes that events name as the previous ones: the genesis, and those of all but the last. -/
theorem previousHashes_eq {first : StoredEvent} {rest : List StoredEvent}
    (h : (first :: rest).IsChain fun a b => b.previousHash = a.eventHash) :
    (first :: rest).map (·.previousHash) =
      first.previousHash :: ((first :: rest).dropLast.map (·.eventHash)) := by
  induction rest generalizing first with
  | nil => rfl
  | cons second rest ih =>
    obtain ⟨hsecond, hrest⟩ := List.isChain_cons_cons.mp h
    rw [List.map_cons, ih hrest, List.dropLast_cons_cons, List.map_cons, hsecond]

/-- No two events name one hash. -/
theorem Linked.noForks {store : List StoredEvent} (h : Linked store)
    (hinj : Function.Injective platform.sha256)
    (hgenesis : ∀ text, platform.sha256 text ≠ GENESIS_HASH)
    (hhashed : ∀ event ∈ store, event.Hashed platform) :
    (store.map (·.previousHash)).Nodup := by
  have hhashes : (store.map (·.eventHash)).Nodup := by
    refine List.pairwise_map.mpr ((List.pairwise_map.mp h.ids).imp_of_mem ?_)
    intro a b ha hb hne heq
    have ha := hhashed a ha
    have hb := hhashed b hb
    rw [StoredEvent.Hashed] at ha hb
    exact hne (eventId_of_hash hinj (ha.trans ((congrArg some heq).trans hb.symm)))
  cases store with
  | nil => exact List.nodup_nil
  | cons first rest =>
    rw [previousHashes_eq h.linked, h.first first rfl]
    refine List.nodup_cons.mpr ⟨fun hmem => ?_, hhashes.sublist ((List.dropLast_sublist _).map _)⟩
    obtain ⟨event, hevent, heq⟩ := List.mem_map.mp hmem
    have hsome := hhashed event (List.dropLast_subset _ hevent)
    obtain ⟨j, -, -, hhash⟩ := hashOf_hashPayload platform event.input event.eventId
      event.occurredAt event.previousHash
    rw [StoredEvent.Hashed, hhash, heq] at hsome
    exact hgenesis _ (Option.some.inj hsome)

/-- The listed events are one chain from the genesis, without forks. -/
structure OneChain (events : List StoredEvent) : Prop where
  first : ∀ event ∈ events.head?, event.previousHash = GENESIS_HASH
  linked : events.IsChain fun a b => b.previousHash = a.eventHash
  noForks : (events.map (·.previousHash)).Nodup

/-- In every run the lines verify, and the events are one chain if each was stored in order and
only the latest one was ever removed. -/
theorem securityAudit_chain (platform : Platform) (ttlSeconds : Option ℤ)
    (hinj : Function.Injective platform.sha256)
    (hgenesis : ∀ text, platform.sha256 text ≠ GENESIS_HASH) {actions : List (Action ι)}
    {s : State ι} (hrun : Run (Graph (State.step platform ttlSeconds)) State.empty actions s) :
    (∀ line ∈ s.lines, Verifies platform line.2) ∧
      (Run (Restrict (Graph (State.step platform ttlSeconds)) InOrder) State.empty actions s →
        OneChain (findForArchiveRange s.store)) := by
  have hsound : Sound platform s := by
    induction hrun with
    | nil => exact Sound.empty
    | snoc _ hstep ih => exact ih.step hstep
  refine ⟨hsound.lines, fun horder => ?_⟩
  have hlinked : Linked s.store := by
    clear hsound hrun
    induction horder with
    | nil => exact ⟨.nil, .nil, fun event h => (by cases h), .nil⟩
    | snoc _ hstep ih => exact linked_step ih hstep.1 hstep.2
  rw [findForArchiveRange_eq hlinked.sorted]
  exact ⟨hlinked.first, hlinked.linked, hlinked.noForks hinj hgenesis hsound.store⟩

/-- A platform whose hashes are the texts with a mark. -/
def marking : Platform where
  sha256 text := text ++ "#"
  localeCompare a b := if a < b then -1 else if b < a then 1 else 0

private theorem marking_injective : Function.Injective marking.sha256 := fun _ _ h =>
  (String.append_left_inj "#").mp h

private theorem marking_ne_genesis (text : String) : marking.sha256 text ≠ GENESIS_HASH := by
  intro h
  have hmem : '#' ∈ GENESIS_HASH.toList := by
    rw [← h, marking, String.toList_append]
    exact List.mem_append_right _ List.mem_cons_self
  exact absurd hmem (by decide)

/-- A login of somebody. -/
def login : RecordSecurityAuditEventInput where
  eventId := none
  eventType := "login"
  occurredAt := none
  actor := .object [("type", .string "user")]
  target := .undefined
  request := .undefined
  session := .undefined
  outcome := "success"
  reason := .undefined
  metadata := .undefined

/-- The check of the order, for a run that is executed. -/
def inOrder (s : State ι) : Action ι → Bool
  | .create i id _ =>
    match s.phase i with
    | .hashed _ occurredAt previousHash _ => previousHash == latestHash s.store &&
        s.store.all fun event => decide (event.key < toLex (occurredAt, id))
    | _ => true
  | .expire eventId _ => (findLatest s.store).all (·.eventId == eventId)
  | _ => true

omit [DecidableEq ι] in
private theorem inOrder_of {s : State ι} {a : Action ι} (h : inOrder s a = true) : InOrder s a := by
  cases a with
  | create i id outcome =>
    refine .inr fun input occurredAt previousHash eventId hphase => ?_
    rw [inOrder, hphase] at h
    obtain ⟨hprevious, hkeys⟩ := Bool.and_eq_true_iff.mp h
    exact ⟨beq_iff_eq.mp hprevious, fun event hevent =>
      of_decide_eq_true (List.all_eq_true.mp hkeys event hevent)⟩
  | record i input => trivial
  | start i clock => trivial
  | read i succeeds uuid => trivial
  | appendJsonlEvent i succeeds => trivial
  | expire eventId now =>
    intro event hevent
    rw [inOrder, Option.mem_def.mp hevent] at h
    exact beq_iff_eq.mp h

/-- Two logins, one after the other. -/
theorem securityAudit_chain_logins : ∃ actions s,
    Run (Graph (State.step (ι := Unit) marking (resolveAuditTtlSeconds none))) State.empty
      actions s ∧ s.store.length = 2 ∧ OneChain (findForArchiveRange s.store) := by
  have hexec : (exec (fun s a => if inOrder s a then
        State.step marking (resolveAuditTtlSeconds none) s a else none)
      (State.empty : State Unit) [.record () login, .record () login, .start () 1,
        .read () true "a", .create () 0 .stored, .appendJsonlEvent () true, .start () 2,
        .read () true "b", .create () 1 .stored]).any (fun s => s.store.length == 2) = true := by
    decide +kernel
  obtain ⟨s, hs, hlength⟩ := (Option.any_eq_true _ _).mp hexec
  have hrun := exec_restrict (fun _ _ => inOrder_of) hs
  exact ⟨_, s, hrun.of_restrict, beq_iff_eq.mp hlength,
    (securityAudit_chain marking _ marking_injective marking_ne_genesis hrun.of_restrict).2 hrun⟩

/-- Two instances read before either of them stores. -/
def forking : List (Action Bool) :=
  [.record false login, .record true login, .start false 1, .start true 1,
    .read false true "a", .read true true "b", .create false 0 .stored, .create true 1 .stored]

/-- Two logins of one instance, a second apart, and 90 days later the first one is removed. -/
def expiring : List (Action Bool) :=
  [.record false login, .record false login, .start false 0, .read false true "a",
    .create false 0 .stored, .appendJsonlEvent false true, .start false 1000,
    .read false true "b", .create false 1 .stored, .expire "a" 7776000001]

/-- Two events that were hashed after the same one both name the genesis; and once the first
event has expired, the first that is listed names an event that is gone. -/
theorem securityAudit_forks : ∃ platform : Platform, Function.Injective platform.sha256 ∧
    (∀ text, platform.sha256 text ≠ GENESIS_HASH) ∧
    (∃ s, Run (Graph (State.step platform (resolveAuditTtlSeconds none))) State.empty forking s ∧
      ¬OneChain (findForArchiveRange s.store)) ∧
    ∃ s, Run (Graph (State.step platform (resolveAuditTtlSeconds none))) State.empty expiring s ∧
      ¬OneChain (findForArchiveRange s.store) := by
  refine ⟨marking, marking_injective, marking_ne_genesis, ?_, ?_⟩
  · obtain ⟨s, hrun, hs⟩ : ∃ s, Run (Graph (State.step marking (resolveAuditTtlSeconds none)))
        State.empty forking s ∧ decide ((findForArchiveRange s.store).map (·.previousHash) =
          [GENESIS_HASH, GENESIS_HASH]) = true := exec_any (by decide +kernel)
    refine ⟨s, hrun, fun hchain => ?_⟩
    have hnodup := hchain.noForks
    rw [of_decide_eq_true hs] at hnodup
    exact (List.nodup_cons.mp hnodup).1 List.mem_cons_self
  · obtain ⟨s, hrun, hs⟩ : ∃ s, Run (Graph (State.step marking (resolveAuditTtlSeconds none)))
        State.empty expiring s ∧ (findForArchiveRange s.store).head?.any
          (fun event => decide (event.previousHash ≠ GENESIS_HASH)) = true :=
      exec_any (by decide +kernel)
    refine ⟨s, hrun, fun hchain => ?_⟩
    obtain ⟨event, hfirst, hprevious⟩ := (Option.any_eq_true _ _).mp hs
    exact of_decide_eq_true hprevious (hchain.first event hfirst)

end Ascendance.SecurityAudit
