import Ascendance.Core.Isolation

/-!
# Invariants of isolated programs

A property of committed documents holds in every world that programs reach when every
commit keeps it. A commit may use that the property held at its snapshot and at every read
before, how the documents have developed since, and what its body computes.
-/

namespace Ascendance.Core

variable {κ : Type*} {δ : κ → Type*} {χ ε ρ : Type*} [DecidableEq κ] [∀ k, DecidableEq (δ k)]

/-- What commits keep: a property of the documents, a relation to later documents beside
`Since`, what a command computes on a snapshot, and a condition on its commits. -/
structure Discipline (κ : Type*) (δ : κ → Type*) (χ : Type*) where
  serial : κ → Bool
  good : Committed κ δ → Prop
  later : Committed κ δ → Committed κ δ → Prop
  effect : χ → Committed κ δ → Database κ δ → Prop
  condition : χ → Committed κ δ → Committed κ δ → Database κ δ → Prop

namespace Discipline

variable (D : Discipline κ δ χ)

/-- Good documents and later ones. -/
def Before (earlier current : Committed κ δ) : Prop :=
  D.good earlier ∧ Committed.Since D.serial earlier current ∧ D.later earlier current

/-- Every commit keeps the property. -/
structure Kept : Prop where
  refl : ∀ c, D.later c c
  trans : ∀ a b c, D.Before a b → D.Before b c → D.later a c
  commit : ∀ c snapshot current after, D.Before snapshot current → D.good current →
    Committed.Fresh snapshot current after → Committed.NewKeys D.serial snapshot current after →
    D.effect c snapshot after → D.condition c snapshot current after →
    D.good (snapshot.commit current after) ∧ D.later current (snapshot.commit current after)

/-- What a program commits is an effect of its command, whatever it reads before. -/
def Sound (c : χ) : List (Committed κ δ) → Program (Database κ δ) ε ρ → Prop
  | _, .done _ => True
  | past, .read next => ∀ s, D.good s → (∀ r ∈ past, D.Before r s) → Sound c (s :: past) (next s.db)
  | past, .write f next =>
    ∀ s, D.good s → (∀ r ∈ past, D.Before r s) →
      D.effect c s (f s.db) ∧ Sound c (s :: past) (next s.db)
  | past, .transact body next =>
    (∀ s after, D.good s → (∀ r ∈ past, D.Before r s) → body s.db = .ok after →
      D.effect c s after) ∧
    (∀ error, Sound c past (next (.error error))) ∧
    ∀ snapshot current after, body snapshot.db = .ok after →
      Sound c (Committed.commit snapshot current after :: past) (next (.ok ()))

/-- The same discipline with another effect of the commands. -/
def withEffect (D : Discipline κ δ χ) (effect : χ → Committed κ δ → Database κ δ → Prop) :
    Discipline κ δ χ := { D with effect := effect }

/-- The invariant of a task. -/
def SoundTask (current : Committed κ δ) : Task κ δ χ ε ρ → Prop
  | .idle => True
  | .running c _ p => ∃ past, (∀ r ∈ past, D.Before r current) ∧ D.Sound c past p
  | .inside c _ snapshot body next => D.Before snapshot current ∧
      ∃ past, (∀ r ∈ past, D.Before r snapshot) ∧ D.Sound c past (.transact body next)

/-- The state is good and every task is sound for it. -/
structure SoundWorld (w : World κ δ χ ε ρ) : Prop where
  good : D.good w.state
  task : ∀ i, D.SoundTask w.state (w.task i)

/-- The commit of an event meets the condition, and only allowed commands start. -/
def Meets (allowed : χ → Prop) (w : World κ δ χ ε ρ) (e : Event χ) : Prop :=
  (∀ c snapshot after, w.attempt e = some (c, snapshot, after) →
    D.condition c snapshot w.state after) ∧
  ∀ i c, e = .start i c → allowed c

variable {D}

omit [DecidableEq κ] [∀ k, DecidableEq (δ k)] in
/-- An observation before one that comes before a third comes before the third. -/
theorem Before.trans (htrans : ∀ a b c, D.Before a b → D.Before b c → D.later a c)
    {a b c : Committed κ δ} (hab : D.Before a b) (hbc : D.Before b c) : D.Before a c :=
  ⟨hab.1, hab.2.1.trans hbc.2.1, htrans a b c hab hbc⟩

section Programs

variable {c : χ} {past : List (Committed κ δ)} {p : Program (Database κ δ) ε ρ}

/-- Whatever a program commits is an effect that everything has. -/
theorem Sound.of_forall (h : ∀ s after, D.effect c s after) : D.Sound c past p := by
  induction p generalizing past with
  | done result => trivial
  | read next ih => exact fun s _ _ => ih s.db
  | write f next ih => exact fun s _ _ => ⟨h s _, ih s.db⟩
  | transact body next ih =>
    exact ⟨fun s after _ _ _ => h s after, fun error => ih _, fun _ _ _ _ => ih _⟩

/-- A program whose commits have two effects has both. -/
theorem Sound.and {e f : χ → Committed κ δ → Database κ δ → Prop}
    (h : (D.withEffect e).Sound c past p) (h' : (D.withEffect f).Sound c past p) :
    (D.withEffect fun c s after => e c s after ∧ f c s after).Sound c past p := by
  induction p generalizing past with
  | done result => trivial
  | read next ih => exact fun s hs hpast => ih s.db (h s hs hpast) (h' s hs hpast)
  | write g next ih =>
    intro s hs hpast
    obtain ⟨heffect, hnext⟩ := h s hs hpast
    obtain ⟨heffect', hnext'⟩ := h' s hs hpast
    exact ⟨⟨heffect, heffect'⟩, ih s.db hnext hnext'⟩
  | transact body next ih =>
    obtain ⟨hbody, herror, hok⟩ := h
    obtain ⟨hbody', herror', hok'⟩ := h'
    exact ⟨fun s after hs hpast hafter => ⟨hbody s after hs hpast hafter,
      hbody' s after hs hpast hafter⟩, fun error => ih _ (herror error) (herror' error),
      fun s t after hafter => ih _ (hok s t after hafter) (hok' s t after hafter)⟩

end Programs

/-- Tasks stay sound when the documents develop. -/
theorem SoundTask.observe (htrans : ∀ a b c, D.Before a b → D.Before b c → D.later a c)
    {current next : Committed κ δ} (h : D.Before current next) {t : Task κ δ χ ε ρ}
    (ht : D.SoundTask current t) (db : Database κ δ) : D.SoundTask next (t.observe db) := by
  cases t with
  | idle => trivial
  | running c moments p =>
    obtain ⟨past, hpast, hp⟩ := ht
    exact ⟨past, fun r hr => (hpast r hr).trans htrans h, hp⟩
  | inside c moments snapshot body next =>
    obtain ⟨hsnapshot, hrest⟩ := ht
    exact ⟨hsnapshot.trans htrans h, hrest⟩

/-- Replacing a task by a sound one keeps the world sound. -/
theorem SoundWorld.setTask {w : World κ δ χ ε ρ} (h : D.SoundWorld w) {i : ℕ}
    {t : Task κ δ χ ε ρ} (ht : D.SoundTask w.state t) : D.SoundWorld (w.setTask i t) := by
  refine ⟨h.good, fun j => ?_⟩
  by_cases hj : j = i
  · subst hj
    change D.SoundTask w.state (Function.update w.task j t j)
    rwa [Function.update_self]
  · change D.SoundTask w.state (Function.update w.task i t j)
    rw [Function.update_of_ne hj]
    exact h.task j

/-- A commit of an effect keeps the world sound. -/
theorem SoundWorld.commit (hkept : D.Kept) {w : World κ δ χ ε ρ} (h : D.SoundWorld w) {c : χ}
    {snapshot : Committed κ δ} {after : Database κ δ} (hsnapshot : D.Before snapshot w.state)
    (hfresh : Committed.Fresh snapshot w.state after)
    (hnew : Committed.NewKeys D.serial snapshot w.state after) (heffect : D.effect c snapshot after)
    (hcondition : D.condition c snapshot w.state after) :
    D.SoundWorld (w.commit snapshot after) := by
  obtain ⟨hgood, hlater⟩ :=
    hkept.commit c snapshot w.state after hsnapshot h.good hfresh hnew heffect hcondition
  have hbefore : D.Before w.state (snapshot.commit w.state after) :=
    ⟨h.good, Committed.since_commit hsnapshot.2.1 hfresh hnew, hlater⟩
  exact ⟨hgood, fun i => (h.task i).observe hkept.trans hbefore _⟩

/-- After the commit of its own transaction a task has read what it committed. -/
theorem SoundWorld.commit_own (hkept : D.Kept) {w : World κ δ χ ε ρ} (h : D.SoundWorld w) {c : χ}
    {snapshot : Committed κ δ} {after : Database κ δ} (hsnapshot : D.Before snapshot w.state)
    (hfresh : Committed.Fresh snapshot w.state after)
    (hnew : Committed.NewKeys D.serial snapshot w.state after) (heffect : D.effect c snapshot after)
    (hcondition : D.condition c snapshot w.state after) {past : List (Committed κ δ)}
    (hpast : ∀ r ∈ past, D.Before r w.state) {moments : List (Database κ δ)} {i : ℕ}
    {p : Program (Database κ δ) ε ρ}
    (hp : D.Sound c (Committed.commit snapshot w.state after :: past) p) :
    D.SoundWorld ((w.setTask i (.running c moments p)).commit snapshot after) := by
  have hcommitted := h.commit hkept hsnapshot hfresh hnew heffect hcondition
  have hbefore : D.Before w.state (snapshot.commit w.state after) :=
    ⟨h.good, Committed.since_commit hsnapshot.2.1 hfresh hnew,
      (hkept.commit c snapshot w.state after hsnapshot h.good hfresh hnew heffect hcondition).2⟩
  refine ⟨hcommitted.good, fun j => ?_⟩
  change D.SoundTask _ ((Function.update w.task i (.running c moments p) j).observe _)
  by_cases hj : j = i
  · rw [hj, Function.update_self]
    refine ⟨_, fun r hr => ?_, hp⟩
    rcases List.mem_cons.mp hr with rfl | hr
    · exact ⟨hcommitted.good, Committed.Since.refl _ _, hkept.refl _⟩
    · exact (hpast r hr).trans hkept.trans hbefore
  · rw [Function.update_of_ne hj]
    exact hcommitted.task j

variable {r : Runtime κ δ χ ε ρ} {allowed : χ → Prop}

/-- What a sound world attempts to commit is an effect of its command. -/
theorem SoundWorld.attempt (hrefl : ∀ c, D.later c c) {w : World κ δ χ ε ρ} (h : D.SoundWorld w)
    {e : Event χ} {c : χ} {snapshot : Committed κ δ} {after : Database κ δ}
    (hattempt : w.attempt e = some (c, snapshot, after)) :
    D.Before snapshot w.state ∧ D.effect c snapshot after := by
  obtain ⟨i, rfl, ⟨moments, f, next, htask, rfl, rfl⟩ | ⟨moments, body, next, htask, hbody⟩⟩ :=
    World.attempt_cases hattempt
  · have ht := h.task i
    rw [htask] at ht
    obtain ⟨past, hpast, hp⟩ := ht
    exact ⟨⟨h.good, Committed.Since.refl _ _, hrefl _⟩, (hp w.state h.good hpast).1⟩
  · have ht := h.task i
    rw [htask] at ht
    obtain ⟨hsnapshot, past, hpast, hp⟩ := ht
    exact ⟨hsnapshot, hp.1 snapshot after hsnapshot.1 hpast hbody⟩

/-- Every step keeps the world sound. -/
theorem SoundWorld.step (hkept : D.Kept) (hserial : D.serial = r.serial)
    (hprogram : ∀ c, allowed c → D.Sound c [] (r.program c)) {w w' : World κ δ χ ε ρ} {e : Event χ}
    (h : D.SoundWorld w) (hmeets : D.Meets allowed w e) (hstep : w.step r e = some w') :
    D.SoundWorld w' := by
  obtain ⟨hcondition, hallowed⟩ := hmeets
  have hself : D.Before w.state w.state :=
    ⟨h.good, Committed.Since.refl _ _, hkept.refl _⟩
  have ht := h.task
  cases World.steps_of_step hstep with
  | @start i c htask => exact h.setTask ⟨[], by simp, hprogram c (hallowed i c rfl)⟩
  | @read i c moments next htask =>
    have ht := ht i
    rw [htask] at ht
    obtain ⟨past, hpast, hp⟩ := ht
    refine h.setTask ⟨w.state :: past, fun r hr => ?_, hp _ h.good hpast⟩
    rcases List.mem_cons.mp hr with rfl | hr
    · exact hself
    · exact hpast r hr
  | @write i c moments f next htask hnew =>
    have ht := ht i
    rw [htask] at ht
    obtain ⟨past, hpast, hp⟩ := ht
    obtain ⟨heffect, hnext⟩ := hp w.state h.good hpast
    have hset : D.SoundWorld (w.setTask i (.running c moments (next w.state.db))) := by
      refine h.setTask ⟨w.state :: past, fun r hr => ?_, hnext⟩
      rcases List.mem_cons.mp hr with rfl | hr
      · exact hself
      · exact hpast r hr
    exact hset.commit hkept hself (fun _ _ => rfl) (hserial ▸ hnew) heffect
      (hcondition c w.state _ (World.attempt_write htask))
  | @begin i c moments body next htask =>
    have ht := ht i
    rw [htask] at ht
    obtain ⟨past, hpast, hp⟩ := ht
    exact h.setTask ⟨hself, past, hpast, hp⟩
  | @fail i c moments snapshot body next error htask hbody =>
    have ht := ht i
    rw [htask] at ht
    obtain ⟨hsnapshot, past, hpast, hp⟩ := ht
    exact h.setTask ⟨past, fun r hr => (hpast r hr).trans hkept.trans hsnapshot, hp.2.1 _⟩
  | @commit i c moments snapshot body next after htask hbody hfresh hnew =>
    have ht := ht i
    rw [htask] at ht
    obtain ⟨hsnapshot, past, hpast, hp⟩ := ht
    exact h.commit_own hkept hsnapshot hfresh (hserial ▸ hnew)
      (hp.1 snapshot after hsnapshot.1 hpast hbody)
      (hcondition c snapshot after (World.attempt_commit htask hbody))
      (fun r hr => (hpast r hr).trans hkept.trans hsnapshot)
      (hp.2.2 snapshot w.state after hbody)
  | @retry i c moments snapshot body next htask =>
    have ht := ht i
    rw [htask] at ht
    obtain ⟨hsnapshot, past, hpast, hp⟩ := ht
    exact h.setTask ⟨past, fun r hr => (hpast r hr).trans hkept.trans hsnapshot, hp⟩
  | @duplicate i c moments snapshot body next after htask hbody htaken =>
    have ht := ht i
    rw [htask] at ht
    obtain ⟨hsnapshot, past, hpast, hp⟩ := ht
    exact h.setTask ⟨past, fun r hr => (hpast r hr).trans hkept.trans hsnapshot, hp.2.1 _⟩
  | @giveUp i c moments snapshot body next htask =>
    have ht := ht i
    rw [htask] at ht
    obtain ⟨hsnapshot, past, hpast, hp⟩ := ht
    exact h.setTask ⟨past, fun r hr => (hpast r hr).trans hkept.trans hsnapshot, hp.2.1 _⟩

/-- So does every run. -/
theorem SoundWorld.run (hkept : D.Kept) (hserial : D.serial = r.serial)
    (hprogram : ∀ c, allowed c → D.Sound c [] (r.program c)) {w w' : World κ δ χ ε ρ}
    {es : List (Event χ)} (h : D.SoundWorld w)
    (hrun : Run (Restrict (Graph (World.step r)) (D.Meets allowed)) w es w') : D.SoundWorld w' :=
  hrun.invariant (fun _ _ _ h hstep => h.step hkept hserial hprogram hstep.1 hstep.2) h

/-- What a step commits develops the documents. -/
theorem SoundWorld.before_step (hkept : D.Kept) (hserial : D.serial = r.serial)
    {w w' : World κ δ χ ε ρ} {e : Event χ} (h : D.SoundWorld w) (hmeets : D.Meets allowed w e)
    (hstep : w.step r e = some w') : D.Before w.state w'.state := by
  have hself : D.Before w.state w.state := ⟨h.good, Committed.Since.refl _ _, hkept.refl _⟩
  have hcommit : ∀ c snapshot after, w.attempt e = some (c, snapshot, after) →
      Committed.Fresh snapshot w.state after →
      Committed.NewKeys D.serial snapshot w.state after →
      D.Before w.state (snapshot.commit w.state after) := by
    intro c snapshot after hattempt hfresh hnew
    obtain ⟨hsnapshot, heffect⟩ := h.attempt hkept.refl hattempt
    exact ⟨h.good, Committed.since_commit hsnapshot.2.1 hfresh hnew,
      (hkept.commit c snapshot w.state after hsnapshot h.good hfresh hnew heffect
        (hmeets.1 c snapshot after hattempt)).2⟩
  cases World.steps_of_step hstep with
  | write htask hnew =>
    exact hcommit _ _ _ (World.attempt_write htask) (fun _ _ => rfl) (hserial ▸ hnew)
  | commit htask hbody hfresh hnew =>
    exact hcommit _ _ _ (World.attempt_commit htask hbody) hfresh (hserial ▸ hnew)
  | _ => exact hself

/-- What a run commits develops the documents. -/
theorem SoundWorld.before_run (hkept : D.Kept) (hserial : D.serial = r.serial)
    (hprogram : ∀ c, allowed c → D.Sound c [] (r.program c)) {w w' : World κ δ χ ε ρ}
    {es : List (Event χ)} (h : D.SoundWorld w)
    (hrun : Run (Restrict (Graph (World.step r)) (D.Meets allowed)) w es w') :
    D.Before w.state w'.state := by
  induction hrun with
  | nil => exact ⟨h.good, Committed.Since.refl _ _, hkept.refl _⟩
  | snoc hrun hlast ih =>
    have hsound := h.run hkept hserial hprogram hrun
    exact ih.trans hkept.trans (hsound.before_step hkept hserial hlast.1 hlast.2)

/-- A world without tasks is sound when its state is good. -/
theorem soundWorld_initial {c : Committed κ δ} (h : D.good c) :
    D.SoundWorld (World.initial c : World κ δ χ ε ρ) := ⟨h, fun _ => trivial⟩

end Discipline

end Ascendance.Core
