import Ascendance.Core.Transition
import Ascendance.Models.UnitOfWork.Semaphore

/-!
# Permits of the semaphore

What becomes of the calls of `acquire` over a run of the semaphore: each waits, is
granted a permit or is rejected by its timer, and the order of the grants is that of
the calls.
-/

namespace Ascendance.UnitOfWork

open Ascendance.Core

/-- A semaphore and the calls of `acquire`, each list in the order of its events. -/
structure Traffic (ι : Type) where
  semaphore : TransactionSemaphore ι
  arrived : List ι
  granted : List ι
  rejected : List ι
  /-- The grants that are not released. -/
  outstanding : List ι
  deriving DecidableEq, Repr

/-- What can happen at a semaphore. -/
inductive SemaphoreEvent (ι : Type)
  | acquire (id : ι) (timeoutMs : Option ℚ)
  | timer (id : ι)
  /-- The release of the permit that a call was granted. -/
  | release (id : ι)

namespace Traffic

variable {ι : Type} [DecidableEq ι]

/-- All permits are free. -/
def initial (permits : ℕ) : Traffic ι := ⟨⟨permits, []⟩, [], [], [], []⟩

/-- The promise of a call is resolved. -/
def grant (s : Traffic ι) (id : ι) : Traffic ι :=
  { s with granted := s.granted ++ [id], outstanding := s.outstanding ++ [id] }

/-- A call asks for a permit. -/
def acquire (s : Traffic ι) (id : ι) (timeoutMs : Option ℚ) : Traffic ι :=
  let (semaphore, now) := s.semaphore.acquire id timeoutMs
  let s := { s with semaphore := semaphore, arrived := s.arrived ++ [id] }
  if now then s.grant id else s

/-- The timer of a waiting call fires. -/
def timer (s : Traffic ι) (id : ι) : Traffic ι :=
  let (semaphore, fired) := s.semaphore.timerFires id
  { s with semaphore := semaphore, rejected := if fired then s.rejected ++ [id] else s.rejected }

/-- A permit is given back. -/
def release (s : Traffic ι) (id : ι) : Traffic ι :=
  let (semaphore, next) := s.semaphore.release
  let s := { s with semaphore := semaphore, outstanding := s.outstanding.erase id }
  next.elim s s.grant

/-- Every call is made once; a release matches a grant that is outstanding. -/
def step (s : Traffic ι) : SemaphoreEvent ι → Option (Traffic ι)
  | .acquire id timeoutMs => if id ∈ s.arrived then none else some (s.acquire id timeoutMs)
  | .timer id => some (s.timer id)
  | .release id => if id ∈ s.outstanding then some (s.release id) else none

/-- The permits are free or outstanding, and the calls that were not rejected were
granted a permit or wait for one in the order of their arrival. -/
structure Sound (permits : ℕ) (s : Traffic ι) : Prop where
  ready : s.semaphore.Ready
  conserved : s.semaphore.permits + s.outstanding.length = permits
  distinct : s.arrived.Nodup
  known : s.rejected ⊆ s.arrived
  order : s.arrived.filter (· ∉ s.rejected) = s.granted ++ s.semaphore.waiting.map (·.id)
  granted : s.outstanding ⊆ s.granted

variable {permits : ℕ} {s t : Traffic ι}

/-- The free semaphore is sound. -/
theorem sound_initial (permits : ℕ) : (initial permits : Traffic ι).Sound permits where
  ready := ⟨List.nodup_nil, by simp [initial], fun h => absurd rfl h⟩
  conserved := rfl
  distinct := List.nodup_nil
  known := List.nil_subset _
  order := rfl
  granted := List.nil_subset _

/-- A call that arrives comes last. -/
theorem Sound.order_acquire (hs : s.Sound permits) {id : ι} (hid : id ∉ s.arrived) :
    (s.arrived ++ [id]).filter (· ∉ s.rejected) =
      s.granted ++ s.semaphore.waiting.map (·.id) ++ [id] := by
  have hkept : id ∉ s.rejected := fun hmem => hid (hs.known hmem)
  rw [List.filter_append, hs.order]
  simp [hkept]

/-- Who was granted or waits has arrived and was not rejected. -/
private theorem Sound.waiting_arrived (hs : s.Sound permits) {id : ι}
    (hid : id ∈ s.granted ++ s.semaphore.waiting.map (·.id)) :
    id ∈ s.arrived ∧ id ∉ s.rejected := by
  rw [← hs.order, List.mem_filter] at hid
  simpa using hid

/-- Asking for a permit keeps the traffic sound. -/
theorem Sound.acquire (hs : s.Sound permits) {id : ι} (hid : id ∉ s.arrived)
    (timeoutMs : Option ℚ) : (s.acquire id timeoutMs).Sound permits := by
  have hdistinct : (s.arrived ++ [id]).Nodup :=
    List.Nodup.append hs.distinct (List.nodup_singleton id) (by simpa using hid)
  have hknown : s.rejected ⊆ s.arrived ++ [id] := fun j hj =>
    List.mem_append_left _ (hs.known hj)
  have horder := hs.order_acquire hid
  obtain ⟨n, hpermits, hacquire⟩ | ⟨hpermits, hacquire⟩ :=
    s.semaphore.acquire_cases id timeoutMs
  · -- A permit is free, so nobody waits.
    have hwaiting : s.semaphore.waiting = [] := by
      by_contra hne
      have := hs.ready.exhausted hne
      omega
    unfold Traffic.acquire
    rw [hacquire]
    refine ⟨⟨hs.ready.distinct, hs.ready.pending, fun hne => absurd hwaiting hne⟩, ?_, hdistinct,
      hknown, ?_, ?_⟩
    · have := hs.conserved
      simp only [if_true, grant, List.length_append, List.length_singleton]
      omega
    · simpa [grant, hwaiting] using horder
    · exact List.append_subset.mpr ⟨List.Subset.trans hs.granted (List.subset_append_left _ _),
        List.subset_append_right _ _⟩
  · have hwaits : id ∉ s.semaphore.waiting.map (·.id) := fun hmem =>
      hid (hs.waiting_arrived (List.mem_append_right _ hmem)).1
    unfold Traffic.acquire
    rw [hacquire]
    refine ⟨hs.ready.append hwaits _, ?_, hdistinct, hknown, ?_, hs.granted⟩
    · have := hs.conserved
      simp only [Bool.false_eq_true, if_false]
      omega
    · simpa using horder

/-- Nobody is granted twice or waits twice. -/
private theorem Sound.distinct_order (hs : s.Sound permits) :
    (s.granted ++ s.semaphore.waiting.map (·.id)).Nodup := by
  rw [← hs.order]
  exact hs.distinct.filter _

/-- The calls that stay when one of those that wait is rejected. -/
theorem Sound.order_timer (hs : s.Sound permits) {id : ι}
    (hid : id ∈ s.semaphore.waiting.map (·.id)) :
    s.arrived.filter (· ∉ s.rejected ++ [id]) =
      s.granted ++ (s.semaphore.waiting.eraseP (·.id = id)).map (·.id) := by
  have hdistinct := hs.distinct_order
  have hnew : id ∉ s.granted := fun hmem => (List.nodup_append.mp hdistinct).2.2 id hmem id hid rfl
  calc s.arrived.filter (· ∉ s.rejected ++ [id])
      = (s.arrived.filter (· ∉ s.rejected)).filter (· ≠ id) := by
        rw [List.filter_filter]
        refine List.filter_congr fun j _ => ?_
        simp [and_comm]
    _ = (s.granted ++ s.semaphore.waiting.map (·.id)).erase id := by
        rw [hs.order, hdistinct.erase_eq_filter]
        refine List.filter_congr fun j _ => ?_
        by_cases hj : j = id <;> simp [hj]
    _ = s.granted ++ (s.semaphore.waiting.map (·.id)).erase id := List.erase_append_right _ hnew
    _ = _ := by rw [TransactionSemaphore.map_eraseP_id]

/-- A timer keeps the traffic sound. -/
theorem Sound.timer (hs : s.Sound permits) (id : ι) : (s.timer id).Sound permits := by
  obtain ⟨hid, hfires⟩ | hfires := s.semaphore.timerFires_cases id
  · unfold Traffic.timer
    rw [hfires]
    refine ⟨hs.ready.erase id, hs.conserved, hs.distinct, ?_, hs.order_timer hid, hs.granted⟩
    refine List.append_subset.mpr ⟨hs.known, List.cons_subset.mpr ⟨?_, List.nil_subset _⟩⟩
    exact (hs.waiting_arrived (List.mem_append_right _ hid)).1
  · unfold Traffic.timer
    rw [hfires]
    exact ⟨hs.ready, hs.conserved, hs.distinct, hs.known, hs.order, hs.granted⟩

/-- Giving a permit back keeps the traffic sound. -/
theorem Sound.release (hs : s.Sound permits) {id : ι} (hid : id ∈ s.outstanding) :
    (s.release id).Sound permits := by
  have hlength := List.length_erase_add_one hid
  have hconserved := hs.conserved
  have hheld : s.outstanding.erase id ⊆ s.granted := List.Subset.trans List.erase_subset hs.granted
  obtain ⟨w, rest, hwaiting, hrelease⟩ | ⟨hwaiting, hrelease⟩ := s.semaphore.release_cases hs.ready
  · -- The permit goes to the first of those that wait.
    unfold Traffic.release
    rw [hrelease]
    refine ⟨(hs.ready.tail hwaiting).1, ?_, hs.distinct, hs.known, ?_, ?_⟩
    · simp only [Option.elim_some, grant, List.length_append, List.length_singleton]
      omega
    · have horder := hs.order
      rw [hwaiting, List.map_cons, List.append_cons] at horder
      exact horder
    · exact List.append_subset.mpr ⟨List.Subset.trans hheld (List.subset_append_left _ _),
        List.subset_append_right _ _⟩
  · unfold Traffic.release
    rw [hrelease]
    refine ⟨⟨List.nodup_nil, by simp, fun hne => absurd rfl hne⟩, ?_, hs.distinct, hs.known, ?_,
      hheld⟩
    · simp only [Option.elim_none]
      omega
    · have horder := hs.order
      rw [hwaiting] at horder
      exact horder

/-- Every event keeps the traffic sound. -/
theorem Sound.step (hs : s.Sound permits) {e : SemaphoreEvent ι} (h : s.step e = some t) :
    t.Sound permits := by
  cases e with
  | acquire id timeoutMs =>
    simp only [Traffic.step] at h
    split at h
    · cases h
    · next hid =>
      obtain rfl := Option.some.inj h
      exact hs.acquire hid timeoutMs
  | timer id =>
    obtain rfl := Option.some.inj h
    exact hs.timer id
  | release id =>
    simp only [Traffic.step] at h
    split at h
    · next hid =>
      obtain rfl := Option.some.inj h
      exact hs.release hid
    · cases h

/-- Permits are conserved, there is a queue only while none is free, the calls that are
not rejected are granted in the order of their arrival, and a call that was rejected is
neither granted a permit nor still in the queue. -/
theorem semaphore_conserves {events : List (SemaphoreEvent ι)}
    (h : Run (Graph step) (initial permits) events s) :
    s.semaphore.permits + s.outstanding.length = permits ∧
      (s.semaphore.waiting ≠ [] → s.semaphore.permits = 0) ∧
      s.arrived.filter (· ∉ s.rejected) = s.granted ++ s.semaphore.waiting.map (·.id) ∧
      ∀ id ∈ s.rejected, id ∈ s.arrived ∧ id ∉ s.granted ∧ id ∉ s.semaphore.waiting.map (·.id) := by
  have hs : s.Sound permits :=
    h.invariant (fun _ _ _ hs hstep => hs.step hstep) (sound_initial permits)
  refine ⟨hs.conserved, hs.ready.exhausted, hs.order, fun id hid => ⟨hs.known hid, ?_, ?_⟩⟩
  · exact fun hmem => (hs.waiting_arrived (List.mem_append_left _ hmem)).2 hid
  · exact fun hmem => (hs.waiting_arrived (List.mem_append_right _ hmem)).2 hid

/-- With one permit the second call is rejected and the third is granted it. -/
def overtaken : List (SemaphoreEvent ℕ) :=
  [.acquire 1 none, .acquire 2 (some 30000), .acquire 3 none, .timer 2, .release 1]

/-- A call that gives up is overtaken by the next one. -/
theorem semaphore_conserves_overtaken :
    ∃ s : Traffic ℕ, s.granted = [1, 3] ∧
      s.arrived.filter (· ∉ s.rejected) = s.granted ++ s.semaphore.waiting.map (·.id) := by
  have hexec : (exec step (initial 1) overtaken).any (fun s => s.granted == [1, 3]) = true := by
    decide
  obtain ⟨s, hrun, hgranted⟩ := exec_any hexec
  exact ⟨s, by simpa using hgranted, (semaphore_conserves hrun).2.2.1⟩

end Traffic

end Ascendance.UnitOfWork
