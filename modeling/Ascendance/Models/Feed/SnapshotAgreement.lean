import Ascendance.Models.Feed.SnapshotStore

/-!
# Agreement on snapshots

Every request is served a snapshot that was stored under its identifier, because
a creation reads back what the store has. An identifier has one content as long as
nothing is written after a snapshot stored earlier under it has expired.
-/

namespace Ascendance.Feed

open Ascendance.Core

/-- A snapshot that was stored under an identifier, both of them valid. -/
def Platform.Known (p : Platform) (stored : List (String × FeedCursorSnapshot)) (id : String)
    (snapshot : FeedCursorSnapshot) : Prop :=
  (id, snapshot) ∈ stored ∧ isSnapshotId id = true ∧ p.accepts snapshot = true

namespace Request

/-- What a request holds has been checked, and what it is served has been stored. -/
def Sound (p : Platform) (stored : List (String × FeedCursorSnapshot)) : Request → Prop
  | writing _ _ snapshot => p.accepts snapshot = true
  | settled _ id result => ∀ snapshot, result = some snapshot → p.Known stored id snapshot
  | served id snapshot => p.Known stored id snapshot
  | _ => True

/-- The request is the creation of a snapshot, or it has ended with an outcome. -/
def Attends (q : Request) (process : ℕ) (id : String) : Prop :=
  q.creates = some (process, id) ∨ (∃ snapshot, q = served id snapshot) ∨ q = failed

/-- A sound request stays sound when more is stored. -/
theorem Sound.mono {p : Platform} {stored stored' : List (String × FeedCursorSnapshot)}
    {q : Request}
    (h : q.Sound p stored) (hsub : stored ⊆ stored') : q.Sound p stored' := by
  cases q with
  | settled process id result =>
    intro snapshot hr
    obtain ⟨hmem, hvalid⟩ := h snapshot hr
    exact ⟨hsub hmem, hvalid⟩
  | served id snapshot => exact ⟨hsub h.1, h.2⟩
  | _ => exact h

/-- A request that is done is sound when its result is known. -/
private theorem sound_done {p : Platform} {stored : List (String × FeedCursorSnapshot)}
    {id : String}
    {result : Option FeedCursorSnapshot}
    (h : ∀ snapshot, result = some snapshot → p.Known stored id snapshot) :
    (done id result).Sound p stored := by
  cases result with
  | none => trivial
  | some snapshot => exact h snapshot rfl

private theorem creates_done (id : String) (result : Option FeedCursorSnapshot) :
    (done id result).creates = none := by
  cases result <;> rfl

private theorem attends_done (process : ℕ) (id : String) (result : Option FeedCursorSnapshot) :
    (done id result).Attends process id := by
  cases result with
  | none => exact .inr (.inr rfl)
  | some snapshot => exact .inr (.inl ⟨snapshot, rfl⟩)

/-- A request that is done does not wait. -/
private theorem done_ne_waiting {process creator : ℕ} {id id' : String}
    {result : Option FeedCursorSnapshot} :
    done id result ≠ waiting process id' creator := by
  cases result <;> exact fun h => Request.noConfusion h

end Request

/-- What holds between the store, the requests, the creations in flight and the cursors. -/
structure World.Consistent (p : Platform) (w : World) : Prop where
  entries : ∀ id e, w.snapshots id = some e → (id, e.value) ∈ w.stored ∧ p.accepts e.value = true
  requests : ∀ r, (w.request r).Sound p w.stored
  builds : ∀ process id r,
    w.snapshotBuilds process id = some r ↔ (w.request r).creates = some (process, id)
  waits : ∀ r process id creator, w.request r = .waiting process id creator →
    (w.request creator).Attends process id
  cursors : ∀ c ∈ w.cursors,
    p.Known w.stored c.snapshotId c.snapshot ∧ c.expected = c.snapshot.variant

section Updates

variable {p : Platform} {w : World} {r process : ℕ} {id : String} {x : Request}

private theorem World.setRequest_request (w : World) (r r' : ℕ) (x : Request) :
    (w.setRequest r x).request r' = if r' = r then x else w.request r' := Function.update_apply ..

private theorem World.setRequest_self (w : World) (r : ℕ) (x : Request) :
    (w.setRequest r x).request r = x := Function.update_self ..

private theorem World.setBuild_builds (w : World) (process process' : ℕ) (id id' : String)
    (creator : Option ℕ) :
    (w.setBuild process id creator).snapshotBuilds process' id' =
      if process' = process ∧ id' = id then creator else w.snapshotBuilds process' id' := by
  unfold World.setBuild
  simp only [Function.update_apply]
  by_cases hprocess : process' = process
  · subst hprocess
    by_cases hid : id' = id
    · simp [hid]
    · simp [hid]
  · simp [hprocess]

/-- What was stored stays stored. -/
private theorem World.subset_stored_store (w : World) (id : String)
    (snapshot : FeedCursorSnapshot) :
    w.stored ⊆ (w.store id snapshot).stored := by
  intro s hs
  change s ∈ if (w.snapshots.entry w.clock id).isNone then (id, snapshot) :: w.stored else w.stored
  split
  · exact List.mem_cons_of_mem _ hs
  · exact hs

/-- A read finds a snapshot that was stored, and passes its checks. -/
theorem World.Consistent.known_get (hi : w.Consistent p) {snapshot : FeedCursorSnapshot}
    (h : p.getFeedCursorSnapshot w.snapshots w.clock id = some snapshot) :
    p.Known w.stored id snapshot := by
  unfold Platform.getFeedCursorSnapshot at h
  split at h
  next hid =>
    obtain ⟨hget, haccepts⟩ := Option.filter_eq_some_iff.mp h
    obtain ⟨e, he, rfl⟩ := Option.map_eq_some_iff.mp hget
    exact ⟨(hi.entries id e (Keyspace.entry_eq_some.mp he).1).1, hid, haccepts⟩
  next => cases h

/-- Waiting requests still have what they wait for when a request moves on. -/
theorem World.Consistent.waits_setRequest (hi : w.Consistent p)
    (hattends : ∀ process id, (w.request r).Attends process id → x.Attends process id)
    (hwaits : ∀ process id creator, x = .waiting process id creator →
      (w.request creator).Attends process id) (r' process : ℕ) (id : String) (creator : ℕ)
    (h : (w.setRequest r x).request r' = .waiting process id creator) :
    ((w.setRequest r x).request creator).Attends process id := by
  have hold : (w.request creator).Attends process id := by
    rw [World.setRequest_request] at h
    split at h
    · exact hwaits process id creator h
    · exact hi.waits r' process id creator h
  rw [World.setRequest_request]
  split
  next hc => exact hattends process id (hc ▸ hold)
  next => exact hold

/-- Changing one request keeps the others sound. -/
private theorem World.Consistent.requests_setRequest (hi : w.Consistent p) (hx : x.Sound p w.stored)
    (r' : ℕ) : ((w.setRequest r x).request r').Sound p w.stored := by
  rw [World.setRequest_request]
  split
  · exact hx
  · exact hi.requests r'

/-- A request that moves on within a creation, or outside of any. -/
theorem World.Consistent.setRequest (hi : w.Consistent p) (hx : x.Sound p w.stored)
    (hcreates : x.creates = (w.request r).creates)
    (hattends : ∀ process id, (w.request r).Attends process id → x.Attends process id)
    (hwaits : ∀ process id creator, x = .waiting process id creator →
      (w.request creator).Attends process id) : (w.setRequest r x).Consistent p where
  entries := hi.entries
  requests := hi.requests_setRequest hx
  builds := by
    intro process id r'
    have hb := hi.builds process id r'
    rw [World.setRequest_request]
    split
    next hr =>
      subst hr
      rwa [hcreates]
    next => exact hb
  waits := hi.waits_setRequest hattends hwaits
  cursors := hi.cursors

/-- A request that is in no creation and has no outcome moves on outside of creations. -/
theorem World.Consistent.outside (hi : w.Consistent p) (hcreates : (w.request r).creates = none)
    (houtcome : (w.request r).outcome = none) (hx : x.Sound p w.stored) (hnew : x.creates = none)
    (hwaits : ∀ process id creator, x = .waiting process id creator →
      (w.request creator).Attends process id) : (w.setRequest r x).Consistent p := by
  refine hi.setRequest hx (hnew.trans hcreates.symm) ?_ hwaits
  rintro process id (ha | ⟨snapshot, ha⟩ | ha)
  · rw [hcreates] at ha
    cases ha
  · rw [ha] at houtcome
    cases houtcome
  · rw [ha] at houtcome
    cases houtcome

/-- A request moves on within its creation. -/
theorem World.Consistent.within (hi : w.Consistent p)
    (hcreates : (w.request r).creates = some (process, id)) (hx : x.Sound p w.stored)
    (hnew : x.creates = some (process, id)) : (w.setRequest r x).Consistent p := by
  refine hi.setRequest hx (hnew.trans hcreates.symm) ?_ ?_
  · rintro process' id' (ha | ⟨snapshot, ha⟩ | ha)
    · exact .inl (hnew.trans (hcreates.symm.trans ha))
    · rw [ha] at hcreates
      cases hcreates
    · rw [ha] at hcreates
      cases hcreates
  · rintro process' id' creator rfl
    cases hnew

/-- A request that begins a creation where none is in flight. -/
theorem World.Consistent.begin (hi : w.Consistent p) (h : w.request r = .missing process id)
    (hb : w.snapshotBuilds process id = none) :
    ((w.setRequest r (.building process id)).setBuild process id (some r)).Consistent p where
  entries := hi.entries
  requests := hi.requests_setRequest trivial
  builds := by
    intro process' id' r'
    have hold := hi.builds process' id' r'
    change _ ↔ ((w.setRequest r _).request r').creates = _
    rw [World.setBuild_builds, World.setRequest_request]
    by_cases hr : r' = r
    · subst hr
      rw [h] at hold
      rw [if_pos rfl]
      split
      next heq =>
        obtain ⟨rfl, rfl⟩ := heq
        simp [Request.creates]
      next hne =>
        have hno : ¬ w.snapshotBuilds process' id' = some r' := fun hs => by
          cases hold.mp hs
        refine iff_of_false hno ?_
        simp only [Request.creates, Option.some.injEq, Prod.mk.injEq]
        exact fun heq => hne ⟨heq.1.symm, heq.2.symm⟩
    · rw [if_neg hr, ← hold]
      split
      next heq =>
        obtain ⟨rfl, rfl⟩ := heq
        rw [hb]
        simpa using fun hrr : r = r' => hr hrr.symm
      next => rfl
  waits := by
    apply hi.waits_setRequest
    · intro process' id' ha
      rw [h] at ha
      simp [Request.Attends, Request.creates] at ha
    · intro process' id' creator hx
      cases hx
  cursors := hi.cursors

/-- A request whose creation is over. -/
theorem World.Consistent.finish (hi : w.Consistent p) {result : Option FeedCursorSnapshot}
    (h : w.request r = .settled process id result) :
    ((w.setRequest r (.done id result)).setBuild process id none).Consistent p where
  entries := hi.entries
  requests := by
    have hsound := hi.requests r
    rw [h] at hsound
    exact hi.requests_setRequest (Request.sound_done hsound)
  builds := by
    intro process' id' r'
    have hold := hi.builds process' id' r'
    have hown := (hi.builds process id r).mpr (by rw [h]; rfl)
    change _ ↔ ((w.setRequest r _).request r').creates = _
    rw [World.setBuild_builds, World.setRequest_request]
    by_cases hr : r' = r
    · subst hr
      rw [if_pos rfl, Request.creates_done]
      split
      next => simp
      next hne =>
        have hno : ¬ w.snapshotBuilds process' id' = some r' := by
          intro hs
          have hc := hold.mp hs
          rw [h] at hc
          simp only [Request.creates, Option.some.injEq, Prod.mk.injEq] at hc
          exact hne ⟨hc.1.symm, hc.2.symm⟩
        exact iff_of_false hno (by simp)
    · rw [if_neg hr, ← hold]
      split
      next heq =>
        obtain ⟨rfl, rfl⟩ := heq
        rw [hown]
        simpa using fun hrr : r = r' => hr hrr.symm
      next => rfl
  waits := by
    apply hi.waits_setRequest
    · intro process' id' ha
      rw [h] at ha
      have heq : (process, id) = (process', id') := by
        simpa [Request.Attends, Request.creates] using ha
      obtain ⟨rfl, rfl⟩ := Prod.mk.inj heq
      exact Request.attends_done process id result
    · intro process' id' creator hx
      exact absurd hx Request.done_ne_waiting
  cursors := hi.cursors

/-- Writing a snapshot that passes its checks. -/
theorem World.Consistent.store (hi : w.Consistent p) {snapshot : FeedCursorSnapshot}
    (ha : p.accepts snapshot = true) : (w.store id snapshot).Consistent p where
  entries := by
    intro id' e he
    change w.snapshots.setNxEx w.clock id FEED_CURSOR_SNAPSHOT_TTL_SECONDS snapshot id' =
      some e at he
    change (id', e.value) ∈ (if (w.snapshots.entry w.clock id).isNone then _ else _) ∧ _
    cases hlive : w.snapshots.entry w.clock id with
    | some live =>
      rw [Keyspace.setNxEx_of_some hlive] at he
      exact hi.entries id' e he
    | none =>
      rw [Keyspace.setNxEx_of_none hlive] at he
      by_cases hid : id' = id
      · subst hid
        have hput := Keyspace.entry_setEx_self w.snapshots w.clock id'
          FEED_CURSOR_SNAPSHOT_TTL_SECONDS snapshot
        rw [(Keyspace.entry_eq_some.mp hput).1] at he
        obtain rfl := Option.some.inj he
        exact ⟨List.mem_cons_self .., ha⟩
      · rw [Keyspace.setEx_ne _ _ _ _ hid] at he
        obtain ⟨hmem, haccepts⟩ := hi.entries id' e he
        exact ⟨List.mem_cons_of_mem _ hmem, haccepts⟩
  requests := fun r' => (hi.requests r').mono (w.subset_stored_store id snapshot)
  builds := hi.builds
  waits := hi.waits
  cursors := by
    intro c hc
    obtain ⟨⟨hmem, hvalid⟩, hexpected⟩ := hi.cursors c hc
    exact ⟨⟨w.subset_stored_store id snapshot hmem, hvalid⟩, hexpected⟩

end Updates

section Steps

variable {p : Platform} {w w' : World} {a : Action}

/-- What a waiting request is given was stored under its identifier. -/
theorem Request.Attends.known {q : Request} {process : ℕ} {id : String}
    {stored : List (String × FeedCursorSnapshot)} {result : Option FeedCursorSnapshot}
    (h : q.Attends process id) (hs : q.Sound p stored) (ho : q.outcome = some result)
    (snapshot : FeedCursorSnapshot) (hr : result = some snapshot) : p.Known stored id snapshot := by
  rcases h with hc | ⟨snapshot', rfl⟩ | rfl
  · cases q with
    | settled process' id' result' =>
      simp only [Request.creates, Option.some.injEq, Prod.mk.injEq] at hc
      obtain ⟨-, rfl⟩ := hc
      obtain rfl := Option.some.inj ho
      exact hs snapshot hr
    | served => cases hc
    | failed => cases hc
    | _ => cases ho
  · obtain rfl := Option.some.inj ho
    obtain rfl := Option.some.inj hr
    exact hs
  · obtain rfl := Option.some.inj ho
    cases hr

/-- A cursor leads to a snapshot that was stored under its identifier. -/
theorem World.Consistent.known_require (hi : w.Consistent p) {id : String}
    {expected : SnapshotVariant} {snapshot : FeedCursorSnapshot}
    (h : p.requireFeedCursorSnapshot w.snapshots w.clock id expected = some snapshot) :
    p.Known w.stored id snapshot :=
  hi.known_get (Option.filter_eq_some_iff.mp h).1

/-- Every step keeps the world consistent. -/
theorem World.Consistent.step (hi : w.Consistent p) (h : p.step w a = some w') :
    w'.Consistent p := by
  cases Platform.step_cases h with
  | advance ms => exact ⟨hi.entries, hi.requests, hi.builds, hi.waits, hi.cursors⟩
  | started hr =>
    exact hi.outside (by rw [hr]; rfl) (by rw [hr]; rfl) trivial rfl fun _ _ _ hx => by cases hx
  | found hr hs =>
    exact hi.outside (by rw [hr]; rfl) (by rw [hr]; rfl) (hi.known_get hs) rfl
      fun _ _ _ hx => by cases hx
  | missed hr hs =>
    exact hi.outside (by rw [hr]; rfl) (by rw [hr]; rfl) trivial rfl fun _ _ _ hx => by cases hx
  | unread hr =>
    exact hi.outside (by rw [hr]; rfl) (by rw [hr]; rfl) trivial rfl fun _ _ _ hx => by cases hx
  | collided hr hb =>
    refine hi.outside (by rw [hr]; rfl) (by rw [hr]; rfl) trivial rfl ?_
    intro process id creator hx
    obtain ⟨rfl, rfl, rfl⟩ := Request.waiting.inj hx
    exact .inl ((hi.builds _ _ _).mp hb)
  | began hr hb => exact hi.begin hr hb
  | built hr ha => exact hi.within (by rw [hr]; rfl) ha rfl
  | unbuilt hr ha => exact hi.within (by rw [hr]; rfl) (fun _ hx => by cases hx) rfl
  | @wrote r process id snapshot hr =>
    have haccepts := hi.requests r
    rw [hr] at haccepts
    exact (hi.store haccepts).within (congrArg Request.creates hr) trivial rfl
  | @lost r process id snapshot hr =>
    have haccepts := hi.requests r
    rw [hr] at haccepts
    exact (hi.store haccepts).within (congrArg Request.creates hr) (fun _ hx => by cases hx) rfl
  | refused hr => exact hi.within (by rw [hr]; rfl) (fun _ hx => by cases hx) rfl
  | reread hr => exact hi.within (by rw [hr]; rfl) (fun _ hx => hi.known_get hx) rfl
  | unreread hr => exact hi.within (by rw [hr]; rfl) (fun _ hx => by cases hx) rfl
  | finished hr hb => exact hi.finish hr
  | replaced hr hb => exact absurd ((hi.builds _ _ _).mpr (by rw [hr]; rfl)) hb
  | @joined r process creator id result hr ho =>
    refine hi.outside (by rw [hr]; rfl) (by rw [hr]; rfl) ?_ (Request.creates_done ..) ?_
    · exact Request.sound_done ((hi.waits _ _ _ _ hr).known (hi.requests creator) ho)
    · exact fun _ _ _ hx => absurd hx Request.done_ne_waiting
  | @resumed r n answered cursor hr hc hu =>
    refine hi.outside (by rw [hr]; rfl) (by rw [hr]; rfl) ?_ (Request.creates_done ..) ?_
    · apply Request.sound_done
      intro snapshot hs
      split at hs
      · exact hi.known_require hs
      · cases hs
    · exact fun _ _ _ hx => absurd hx Request.done_ne_waiting
  | @minted r id snapshot hr =>
    refine ⟨hi.entries, hi.requests, hi.builds, hi.waits, ?_⟩
    intro c hc
    rcases List.mem_append.mp hc with hc | hc
    · exact hi.cursors c hc
    · have hsound := hi.requests r
      rw [hr] at hsound
      obtain rfl := List.mem_singleton.mp hc
      exact ⟨hsound, rfl⟩

/-- Nothing is inconsistent in the beginning. -/
private theorem World.consistent_init (p : Platform) : World.init.Consistent p where
  entries := fun _ _ h => by cases h
  requests := fun _ => trivial
  builds := fun _ _ _ => iff_of_false (fun h => by cases h) (fun h => by cases h)
  waits := fun _ _ _ _ h => by cases h
  cursors := fun _ h => by cases h

/-- Every reachable world is consistent. -/
theorem World.consistent_run {as : List Action} (h : Run (Graph p.step) World.init as w) :
    w.Consistent p :=
  h.invariant (I := World.Consistent p) (fun _ _ _ hi hs => hi.step hs) (World.consistent_init p)

end Steps

/-- A write finds the snapshot that was stored earlier under its identifier. -/
def Timely (w : World) : Action → Prop
  | .write r reply => ∀ process id snapshot earlier, w.request r = .writing process id snapshot →
      reply ≠ .refused → (id, earlier) ∈ w.stored → w.snapshots.entry w.clock id ≠ none
  | _ => True

/-- No two contents were stored under one identifier. -/
def World.Agrees (w : World) : Prop :=
  ∀ id snapshot snapshot', (id, snapshot) ∈ w.stored → (id, snapshot') ∈ w.stored →
    snapshot = snapshot'

section Agreement

variable {p : Platform} {w w' : World} {a : Action}

/-- A write adds a content only under an identifier that has none. -/
theorem World.Agrees.store (hg : w.Agrees) {id : String} {snapshot : FeedCursorSnapshot}
    (hlive : ∀ earlier, (id, earlier) ∈ w.stored → w.snapshots.entry w.clock id ≠ none) :
    (w.store id snapshot).Agrees := by
  intro id' s s' hs hs'
  change _ ∈ (if (w.snapshots.entry w.clock id).isNone then _ else _) at hs hs'
  cases hentry : w.snapshots.entry w.clock id with
  | some live =>
    rw [hentry] at hs hs'
    exact hg id' s s' hs hs'
  | none =>
    rw [hentry] at hs hs'
    have hnone : ∀ earlier, (id, earlier) ∉ w.stored :=
      fun earlier hmem => hlive earlier hmem hentry
    rcases List.mem_cons.mp hs with hnew | hold <;> rcases List.mem_cons.mp hs' with hnew' | hold'
    · rw [(Prod.mk.inj hnew).2, (Prod.mk.inj hnew').2]
    · rw [(Prod.mk.inj hnew).1] at hold'
      exact absurd hold' (hnone s')
    · rw [(Prod.mk.inj hnew').1] at hold
      exact absurd hold (hnone s)
    · exact hg id' s s' hold hold'

/-- A timely action keeps the agreement. -/
theorem World.Agrees.step (hg : w.Agrees) (ht : Timely w a) (h : p.step w a = some w') :
    w'.Agrees := by
  cases Platform.step_cases h with
  | wrote hr => exact hg.store fun earlier hmem => ht _ _ _ earlier hr (by decide) hmem
  | lost hr => exact hg.store fun earlier hmem => ht _ _ _ earlier hr (by decide) hmem
  | _ => exact hg

/-- In every timely run the requests agree. -/
private theorem World.agrees_run {as : List Action}
    (h : Run (Restrict (Graph p.step) Timely) World.init as w) : w.Agrees :=
  h.invariant (I := World.Agrees) (fun _ _ _ hg hs => hg.step hs.1 hs.2)
    (fun _ _ _ hs => by cases hs)

/-- The identifier of a request that has begun and not failed. -/
def Request.name : Request → Option String
  | .reading _ id | .missing _ id | .building _ id | .writing _ id _ | .readingBack _ id
  | .settled _ id _ | .waiting _ id _ | .served id _ => some id
  | .idle | .failed => none

/-- The request goes by an identifier, or it has failed. -/
def World.Named (w : World) (r : ℕ) (id : String) : Prop :=
  w.request r = .failed ∨ (w.request r).name = some id

/-- A request that fails or keeps its name leaves the name known. -/
theorem World.Named.setRequest {r r' : ℕ} {id : String} {x : Request} (hn : w.Named r id)
    (hx : r' = r → x = .failed ∨ x.name = some id) : (w.setRequest r' x).Named r id := by
  unfold World.Named
  rw [World.setRequest_request]
  split
  next h => exact hx h.symm
  next => exact hn

/-- A request keeps its identifier. -/
theorem World.Named.step {r : ℕ} {id : String} (hn : w.Named r id) (h : p.step w a = some w') :
    w'.Named r id := by
  -- The identifier that a named request holds in a state that it leaves.
  have hold : ∀ {r' : ℕ} {q : Request} {id' : String}, w.request r' = q → q.name = some id' →
      r' = r → id' = id := by
    rintro r' q id' rfl hname rfl
    rcases hn with hf | hn
    · rw [hf] at hname
      cases hname
    · exact Option.some.inj (hname.symm.trans hn)
  have hdone : ∀ {r' : ℕ} {q : Request} {id' : String} (result : Option FeedCursorSnapshot),
      w.request r' = q → q.name = some id' → r' = r →
        Request.done id' result = .failed ∨ (Request.done id' result).name = some id := by
    intro r' q id' result hq hname hr
    cases result with
    | none => exact .inl rfl
    | some snapshot => exact .inr (congrArg some (hold hq hname hr))
  cases Platform.step_cases h with
  | advance ms => exact hn
  | started hr =>
    refine hn.setRequest ?_
    rintro rfl
    rcases hn with hf | hn
    · rw [hr] at hf
      cases hf
    · rw [hr] at hn
      cases hn
  | unread hr => exact hn.setRequest fun _ => .inl rfl
  | began hr hb => exact hn.setRequest fun heq => .inr (congrArg some (hold hr rfl heq))
  | wrote hr =>
    exact World.Named.setRequest (w := w.store _ _) hn fun heq =>
      .inr (congrArg some (hold hr rfl heq))
  | lost hr =>
    exact World.Named.setRequest (w := w.store _ _) hn fun heq =>
      .inr (congrArg some (hold hr rfl heq))
  | @finished r' process id' result hr hb => exact hn.setRequest (hdone result hr rfl)
  | @replaced r' process id' result hr hb => exact hn.setRequest (hdone result hr rfl)
  | @joined r' process creator id' result hr ho => exact hn.setRequest (hdone result hr rfl)
  | resumed hr hc hu =>
    refine hn.setRequest ?_
    rintro rfl
    rcases hn with hf | hn
    · rw [hr] at hf
      cases hf
    · rw [hr] at hn
      cases hn
  | minted hr => exact hn
  | found hr hs => exact hn.setRequest fun heq => .inr (congrArg some (hold hr rfl heq))
  | missed hr hs => exact hn.setRequest fun heq => .inr (congrArg some (hold hr rfl heq))
  | collided hr hb => exact hn.setRequest fun heq => .inr (congrArg some (hold hr rfl heq))
  | built hr ha => exact hn.setRequest fun heq => .inr (congrArg some (hold hr rfl heq))
  | unbuilt hr ha => exact hn.setRequest fun heq => .inr (congrArg some (hold hr rfl heq))
  | refused hr => exact hn.setRequest fun heq => .inr (congrArg some (hold hr rfl heq))
  | reread hr => exact hn.setRequest fun heq => .inr (congrArg some (hold hr rfl heq))
  | unreread hr => exact hn.setRequest fun heq => .inr (congrArg some (hold hr rfl heq))

/-- A request is served under the identifier that it looked up. -/
theorem World.named_run {r process : ℕ} {id id' : String} {s : FeedCursorSnapshot}
    {as : List Action} (hr : w.request r = .reading process id) (h : Run (Graph p.step) w as w')
    (hs : w'.request r = .served id' s) : id' = id := by
  have hfirst : w.Named r id := .inr (by rw [hr]; rfl)
  have hlast :=
    h.invariant (I := fun w => w.Named r id) (fun _ _ _ hn hstep => hn.step hstep) hfirst
  rcases hlast with hf | hn
  · rw [hs] at hf
    cases hf
  · rw [hs] at hn
    exact Option.some.inj hn

end Agreement

/-- The request that takes the step. -/
def Action.request : Action → Option ℕ
  | .advance _ => none
  | .start r _ _ | .lookUp r _ | .resolve r | .build r _ | .write r _ | .readBack r _
  | .finish r | .join r | .resume r _ _ | .mint r => some r

section Failures

variable {p : Platform} {w : World} {r process : ℕ} {id : String}

/-- A build that fails ends its creation and changes nothing else. -/
theorem Platform.step_fail (hi : w.Consistent p) (h : w.request r = .building process id)
    {result : Option FeedCursorSnapshot} (hr : result.filter p.accepts = none) :
    exec p.step w [.build r result, .finish r] =
      some ((w.setRequest r .failed).setBuild process id none) := by
  have hbuild : w.snapshotBuilds process id = some r := (hi.builds _ _ _).mpr (by rw [h]; rfl)
  have hfirst : p.step w (.build r result) = some (w.setRequest r (.settled process id none)) := by
    simp only [Platform.step, h, hr]
  have hsecond : p.step (w.setRequest r (.settled process id none)) (.finish r) =
      some ((w.setRequest r .failed).setBuild process id none) := by
    have hb : (w.setRequest r (.settled process id none)).snapshotBuilds process id = some r :=
      hbuild
    simp only [Platform.step, World.setRequest_self, if_pos hb]
    simp only [World.setRequest, Function.update_idem, Request.done]
  rw [exec, hfirst, Option.bind_some, exec, hsecond]
  rfl

/-- Whoever waits for a creation can go on as soon as it is no longer in flight. -/
theorem Platform.step_join (hi : w.Consistent p) {creator : ℕ}
    (h : w.request r = .waiting process id creator)
    (hb : w.snapshotBuilds process id ≠ some creator) : p.step w (.join r) ≠ none := by
  simp only [Platform.step, h]
  rcases hi.waits _ _ _ _ h with hc | ⟨snapshot, hc⟩ | hc
  · exact absurd ((hi.builds _ _ _).mpr hc) hb
  · rw [hc]
    exact Option.some_ne_none _
  · rw [hc]
    exact Option.some_ne_none _

/-- What a creation has written, it reads back at once. -/
theorem Platform.getFeedCursorSnapshot_store (hid : isSnapshotId id = true)
    {snapshot : FeedCursorSnapshot} (ha : p.accepts snapshot = true)
    (hnone : w.snapshots.entry w.clock id = none) :
    p.getFeedCursorSnapshot (w.store id snapshot).snapshots w.clock id = some snapshot := by
  unfold Platform.getFeedCursorSnapshot Keyspace.get
  change (if _ then (Option.map _ ((w.snapshots.setNxEx _ _ _ _).entry _ _)).filter _ else _) = _
  rw [if_pos hid, Keyspace.setNxEx_of_none hnone, Keyspace.entry_setEx_self, Option.map_some,
    Option.filter_some, if_pos ha]

/-- A valid identifier that a read does not find has no snapshot. -/
theorem World.Consistent.entry_eq_none (hi : w.Consistent p) (hid : isSnapshotId id = true)
    (hget : p.getFeedCursorSnapshot w.snapshots w.clock id = none) :
    w.snapshots.entry w.clock id = none := by
  cases he : w.snapshots.entry w.clock id with
  | none => rfl
  | some e =>
    have ha := (hi.entries id e (Keyspace.entry_eq_some.mp he).1).2
    unfold Platform.getFeedCursorSnapshot Keyspace.get at hget
    rw [if_pos hid, he, Option.map_some, Option.filter_some, if_pos ha] at hget
    cases hget

/-- The steps of a request that is served from the store. -/
theorem Platform.exec_found (h : w.request r = .idle) {contextKey : String}
    {snapshot : FeedCursorSnapshot}
    (hget : p.getFeedCursorSnapshot w.snapshots w.clock (p.snapshotId w.clock contextKey) =
      some snapshot) :
    ∃ w', exec p.step w [.start r process contextKey, .lookUp r true] = some w' ∧
      w'.request r = .served (p.snapshotId w.clock contextKey) snapshot := by
  have hstart := Platform.step_of (@Step.started p w r process contextKey h)
  set w₁ := w.setRequest r (.reading process (p.snapshotId w.clock contextKey))
  have hfound := Platform.step_of (@Step.found p w₁ r process _ snapshot
    (World.setRequest_self w r _) hget)
  refine ⟨_, ?_, World.setRequest_self w₁ r _⟩
  rw [exec, hstart, Option.bind_some, exec, hfound]
  rfl

/-- The steps of a request that creates its snapshot. -/
theorem Platform.exec_created (hi : w.Consistent p) (h : w.request r = .idle) {contextKey : String}
    (hid : isSnapshotId (p.snapshotId w.clock contextKey) = true)
    (hb : w.snapshotBuilds process (p.snapshotId w.clock contextKey) = none)
    (hget : p.getFeedCursorSnapshot w.snapshots w.clock (p.snapshotId w.clock contextKey) = none)
    {snapshot : FeedCursorSnapshot} (ha : p.accepts snapshot = true) :
    ∃ w', exec p.step w [.start r process contextKey, .lookUp r true, .resolve r,
        .build r (some snapshot), .write r .answered, .readBack r true, .finish r] = some w' ∧
      w'.request r = .served (p.snapshotId w.clock contextKey) snapshot := by
  have hback := p.getFeedCursorSnapshot_store hid ha (hi.entry_eq_none hid hget)
  have hstart := Platform.step_of (@Step.started p w r process contextKey h)
  generalize p.snapshotId w.clock contextKey = id at *
  set w₁ := w.setRequest r (.reading process id)
  have hmissed := Platform.step_of (@Step.missed p w₁ r process id
    (World.setRequest_self w r _) hget)
  set w₂ := w₁.setRequest r (.missing process id)
  have hbegan := Platform.step_of (@Step.began p w₂ r process id
    (World.setRequest_self w₁ r _) hb)
  set w₃ := (w₂.setRequest r (.building process id)).setBuild process id (some r) with hw₃
  have hbuilt := Platform.step_of (@Step.built p w₃ r process id snapshot
    (World.setRequest_self w₂ r _) ha)
  set w₄ := w₃.setRequest r (.writing process id snapshot)
  have hwrote := Platform.step_of (@Step.wrote p w₄ r process id snapshot
    (World.setRequest_self w₃ r _))
  set w₅ := (w₄.store id snapshot).setRequest r (.readingBack process id)
  have hreread := Platform.step_of (@Step.reread p w₅ r process id
    (World.setRequest_self (w₄.store id snapshot) r _))
  have hsame : p.getFeedCursorSnapshot w₅.snapshots w₅.clock id = some snapshot := hback
  rw [hsame] at hreread
  set w₆ := w₅.setRequest r (.settled process id (some snapshot))
  have hown : w₆.snapshotBuilds process id = some r := by
    change w₃.snapshotBuilds process id = some r
    rw [hw₃, World.setBuild_builds, if_pos ⟨rfl, rfl⟩]
  have hfinished := Platform.step_of (@Step.finished p w₆ r process id (some snapshot)
    (World.setRequest_self w₅ r _) hown)
  refine ⟨(w₆.setRequest r (.done id (some snapshot))).setBuild process id none, ?_,
    World.setRequest_self w₆ r _⟩
  simp only [exec, hstart, hmissed, hbegan, hbuilt, hwrote, hreread, hfinished, Option.bind_some]

/-- Where no creation is in flight, a new request with a build that succeeds is served
by its own steps, whatever happened before. -/
theorem Platform.exec_serve (hi : w.Consistent p) (h : w.request r = .idle) {contextKey : String}
    (hid : isSnapshotId (p.snapshotId w.clock contextKey) = true)
    (hb : w.snapshotBuilds process (p.snapshotId w.clock contextKey) = none)
    {snapshot : FeedCursorSnapshot} (ha : p.accepts snapshot = true) :
    ∃ actions w' served, (∀ a ∈ actions, a.request = some r) ∧ exec p.step w actions = some w' ∧
      w'.request r = .served (p.snapshotId w.clock contextKey) served := by
  cases hget : p.getFeedCursorSnapshot w.snapshots w.clock (p.snapshotId w.clock contextKey) with
  | some served =>
    obtain ⟨w', hexec, hserved⟩ := @Platform.exec_found p w r process h contextKey served hget
    exact ⟨_, w', served, by simp [Action.request], hexec, hserved⟩
  | none =>
    obtain ⟨w', hexec, hserved⟩ := Platform.exec_created hi h hid hb hget ha
    exact ⟨_, w', snapshot, by simp [Action.request], hexec, hserved⟩

end Failures

/-- As long as no write comes after a snapshot stored earlier under its identifier has expired, all
requests served under an identifier, the one they looked up, are served the one content that was
stored under it. A build that fails ends its creation and changes nothing else, whoever waits for it
can go on, and a later request with a build that succeeds is served. -/
theorem snapshotAgreement {p : Platform} {actions : List Action} {w : World}
    (h : Run (Restrict (Graph p.step) Timely) World.init actions w) :
    (∀ r r' id s s', w.request r = .served id s → w.request r' = .served id s' → s = s') ∧
    (∀ r id s, w.request r = .served id s → (id, s) ∈ w.stored) ∧
    (∀ r process id as w' id' s, w.request r = .reading process id → Run (Graph p.step) w as w' →
      w'.request r = .served id' s → id' = id) ∧
    (∀ id s s', (id, s) ∈ w.stored → (id, s') ∈ w.stored → s = s') ∧
    (∀ r process id result, w.request r = .building process id → result.filter p.accepts = none →
      exec p.step w [.build r result, .finish r] =
        some ((w.setRequest r .failed).setBuild process id none)) ∧
    (∀ r process id creator, w.request r = .waiting process id creator →
      w.snapshotBuilds process id ≠ some creator → p.step w (.join r) ≠ none) ∧
    (∀ r process contextKey snapshot, w.request r = .idle →
      isSnapshotId (p.snapshotId w.clock contextKey) = true →
      w.snapshotBuilds process (p.snapshotId w.clock contextKey) = none →
      p.accepts snapshot = true →
      ∃ actions w' served, (∀ a ∈ actions, a.request = some r) ∧
        exec p.step w actions = some w' ∧
        w'.request r = .served (p.snapshotId w.clock contextKey) served) := by
  have hi := World.consistent_run h.of_restrict
  have hagrees := World.agrees_run h
  have hstored : ∀ r id s, w.request r = .served id s → (id, s) ∈ w.stored := by
    intro r id s hr
    have hsound := hi.requests r
    rw [hr] at hsound
    exact hsound.1
  refine ⟨?_, hstored, ?_, hagrees, ?_, ?_, ?_⟩
  · intro r r' id s s' hr hr'
    exact hagrees id s s' (hstored r id s hr) (hstored r' id s' hr')
  · exact fun r process id as w' id' s hr hrun hs => World.named_run hr hrun hs
  · exact fun r process id result hr hresult => p.step_fail hi hr hresult
  · exact fun r process id creator hr hb => p.step_join hi hr hb
  · exact fun r process contextKey snapshot hr hid hb ha => p.exec_serve hi hr hid hb ha

section Processes

/-- A platform with one name for every snapshot. -/
def smallPlatform : Platform := ⟨fun _ => String.ofList (List.replicate 43 'h'), fun _ => 0⟩

/-- The trending feed with some posts. -/
def trendingSnapshot (ids : List String) : FeedCursorSnapshot where
  feed := .trending
  order := .trending
  source := .redis
  scope := none
  entries := ids.map fun id => ⟨id, id, id, some 1, none⟩
  excludedIdentityIds := none

/-- Two processes build the snapshot of one context at the same time. -/
def bothBuild : List Action :=
  [.start 0 0 "trending", .start 1 1 "trending", .lookUp 0 true, .lookUp 1 true, .resolve 0,
    .resolve 1, .build 0 (some (trendingSnapshot ["a"]))]

/-- The first request writes its snapshot and reads it back. -/
def firstWrites : List Action := [.write 0 .answered, .readBack 0 true, .finish 0]

/-- The second request writes another snapshot and reads it back. -/
def secondWrites : List Action :=
  [.build 1 (some (trendingSnapshot ["a", "b"])), .write 1 .answered, .readBack 1 true, .finish 1]

/-- The check of a write that finds what was stored earlier. -/
def timely (w : World) : Action → Bool
  | .write r _ =>
    match w.request r with
    | .writing _ id _ =>
      (w.snapshots.entry w.clock id).isSome || w.stored.all fun earlier => earlier.1 ≠ id
    | _ => true
  | _ => true

private theorem timely_sound (w : World) (a : Action) (h : timely w a = true) : Timely w a := by
  cases a with
  | write r reply =>
    intro process id snapshot earlier hr _ hstored hnone
    simp only [timely, hr, hnone, Option.isSome_none, Bool.false_or, List.all_eq_true] at h
    simpa using h _ hstored
  | _ => trivial

/-- The second process is served what the first one has stored. -/
theorem snapshotAgreement_bothBuild : ∃ w id,
    Run (Restrict (Graph smallPlatform.step) Timely) World.init
      (bothBuild ++ firstWrites ++ secondWrites) w ∧
    w.request 0 = .served id (trendingSnapshot ["a"]) ∧
    ∀ s, w.request 1 = .served id s → s = trendingSnapshot ["a"] := by
  have hrun : (exec (fun s a => if timely s a then smallPlatform.step s a else none) World.init
      (bothBuild ++ firstWrites ++ secondWrites)).map (·.request 0) =
      some (.served (smallPlatform.snapshotId 0 "trending") (trendingSnapshot ["a"])) := by
    decide +kernel
  obtain ⟨w, hexec, hserved⟩ := Option.map_eq_some_iff.mp hrun
  have hw := exec_restrict timely_sound hexec
  exact ⟨w, _, hw, hserved, fun s hs => (snapshotAgreement hw).1 1 0 _ s _ hs hserved⟩

/-- Without the condition a build may be written after the first snapshot has expired. -/
theorem snapshotAgreement_lateBuild :
    ¬ ∀ (p : Platform) (actions : List Action) (w : World),
      Run (Graph p.step) World.init actions w →
      ∀ r r' id s s', w.request r = .served id s → w.request r' = .served id s' → s = s' := by
  intro hclaim
  have hrun : (exec smallPlatform.step World.init
      (bothBuild ++ firstWrites ++ .advance 3600001 :: secondWrites)).map
        (fun w => (w.request 0, w.request 1)) =
      some (.served (smallPlatform.snapshotId 0 "trending") (trendingSnapshot ["a"]),
        .served (smallPlatform.snapshotId 0 "trending") (trendingSnapshot ["a", "b"])) := by
    decide +kernel
  obtain ⟨w, hexec, hboth⟩ := Option.map_eq_some_iff.mp hrun
  obtain ⟨hfirst, hsecond⟩ := Prod.mk.inj hboth
  have hsame := hclaim smallPlatform _ w (exec_run hexec) 0 1 _ _ _ hfirst hsecond
  exact absurd hsame (by decide)

end Processes

end Ascendance.Feed
