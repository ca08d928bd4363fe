import Ascendance.Core.Database
import Ascendance.Core.Transition

/-!
# Programs under snapshot isolation

A program reads committed documents and runs transactions. A transaction computes
on the documents as they were when it began, and it commits when no document that
it changes was written since; otherwise its body runs again. Every step of any
number of programs may come between.
-/

namespace Ascendance.Core

/-- Committed documents, with the number of writes that each key has seen. -/
structure Committed (κ : Type*) (δ : κ → Type*) where
  db : Database κ δ
  revision : κ → ℕ
  written : ∀ k, (db.doc k).isSome = true → 0 < revision k

namespace Committed

/-- Documents that were written once each. -/
def ofDatabase {κ : Type*} {δ : κ → Type*} (db : Database κ δ) : Committed κ δ where
  db := db
  revision := fun k => if (db.doc k).isSome then 1 else 0
  written := fun k hk => by rw [if_pos hk]; exact Nat.one_pos

variable {κ : Type*} {δ : κ → Type*} [DecidableEq κ] [∀ k, DecidableEq (δ k)]
  {snapshot current : Committed κ δ} {after : Database κ δ} {serial : κ → Bool}

/-- No document that a transaction changes was written after its snapshot. -/
def Fresh (snapshot current : Committed κ δ) (after : Database κ δ) : Prop :=
  ∀ k, after.doc k ≠ snapshot.db.doc k → current.revision k = snapshot.revision k

/-- New documents with serial keys take keys that were never used. -/
def NewKeys (serial : κ → Bool) (snapshot current : Committed κ δ) (after : Database κ δ) : Prop :=
  ∀ k, serial k = true → snapshot.db.doc k = none → after.doc k ≠ none → current.revision k = 0

omit [∀ k, DecidableEq (δ k)] in
/-- A document that changed is there before or after. -/
private theorem changed_mem {db after : Database κ δ} {k : κ} (h : after.doc k ≠ db.doc k) :
    k ∈ db.ids ∪ after.ids := by
  rw [Finset.mem_union, db.mem_ids, after.mem_ids]
  cases hdb : db.doc k <;> cases hafter : after.doc k <;> simp_all

/-- A transaction stores a new document under a key that was taken since its snapshot. -/
def Taken (snapshot current : Committed κ δ) (after : Database κ δ) : Prop :=
  ∃ k, snapshot.db.doc k = none ∧ after.doc k ≠ none ∧ current.db.doc k ≠ none

instance (snapshot current : Committed κ δ) (after : Database κ δ) :
    Decidable (Fresh snapshot current after) :=
  decidable_of_iff (∀ k ∈ snapshot.db.ids ∪ after.ids, after.doc k ≠ snapshot.db.doc k →
    current.revision k = snapshot.revision k)
    ⟨fun h k hk => h k (changed_mem hk) hk, fun h k _ hk => h k hk⟩

instance (serial : κ → Bool) (snapshot current : Committed κ δ) (after : Database κ δ) :
    Decidable (NewKeys serial snapshot current after) :=
  decidable_of_iff (∀ k ∈ after.ids, serial k = true → snapshot.db.doc k = none →
    after.doc k ≠ none → current.revision k = 0)
    ⟨fun h k hs hn ha => h k ((after.mem_ids k).mpr (Option.isSome_iff_ne_none.mpr ha)) hs hn ha,
      fun h k _ => h k⟩

instance (snapshot current : Committed κ δ) (after : Database κ δ) :
    Decidable (Taken snapshot current after) :=
  decidable_of_iff (∃ k ∈ after.ids, snapshot.db.doc k = none ∧ after.doc k ≠ none ∧
    current.db.doc k ≠ none)
    ⟨fun ⟨k, _, h⟩ => ⟨k, h⟩, fun ⟨k, h⟩ =>
      ⟨k, (after.mem_ids k).mpr (Option.isSome_iff_ne_none.mpr h.2.1), h⟩⟩

/-- The commit of a transaction: every changed key is written once more. -/
def commit (snapshot current : Committed κ δ) (after : Database κ δ) : Committed κ δ where
  db := Database.merge snapshot.db after current.db
  revision := fun k =>
    if after.doc k = snapshot.db.doc k then current.revision k else current.revision k + 1
  written := fun k hk => by
    by_cases h : after.doc k = snapshot.db.doc k
    · rw [Database.doc_merge_same h] at hk
      rw [if_pos h]
      exact current.written k hk
    · rw [if_neg h]
      exact Nat.succ_pos _

/-- What a transaction leaves as it is, its commit leaves. -/
theorem doc_commit_same {k : κ} (h : after.doc k = snapshot.db.doc k) :
    (commit snapshot current after).db.doc k = current.db.doc k := Database.doc_merge_same h

/-- What a transaction changes, its commit stores. -/
theorem doc_commit_changed {k : κ} (h : after.doc k ≠ snapshot.db.doc k) :
    (commit snapshot current after).db.doc k = after.doc k := Database.doc_merge_changed h

/-- The documents have developed from earlier ones: a key that was not written has its document,
and a serial key whose document is gone stays without. -/
def Since (serial : κ → Bool) (earlier later : Committed κ δ) : Prop :=
  ∀ k, earlier.revision k ≤ later.revision k ∧
    (later.revision k = earlier.revision k → later.db.doc k = earlier.db.doc k) ∧
    (serial k = true → 0 < earlier.revision k → earlier.db.doc k = none → later.db.doc k = none)

omit [DecidableEq κ] [∀ k, DecidableEq (δ k)] in
/-- Every commit is its own continuation. -/
theorem Since.refl (serial : κ → Bool) (c : Committed κ δ) : Since serial c c :=
  fun _ => ⟨le_rfl, fun _ => rfl, fun _ _ h => h⟩

omit [DecidableEq κ] [∀ k, DecidableEq (δ k)] in
/-- Continuations compose. -/
theorem Since.trans {a b c : Committed κ δ} (hab : Since serial a b) (hbc : Since serial b c) :
    Since serial a c := by
  intro k
  obtain ⟨hle, hsame, hgone⟩ := hab k
  obtain ⟨hle', hsame', hgone'⟩ := hbc k
  refine ⟨hle.trans hle', fun h => ?_, fun hs hpos hnone => ?_⟩
  · rw [hsame' (by omega), hsame (by omega)]
  · exact hgone' hs (hpos.trans_le hle) (hgone hs hpos hnone)

omit [DecidableEq κ] [∀ k, DecidableEq (δ k)] in
/-- What a transaction changes, it had read as it is. -/
theorem Since.unchanged (h : Since serial snapshot current) (hfresh : Fresh snapshot current after)
    {k : κ} (hk : after.doc k ≠ snapshot.db.doc k) : current.db.doc k = snapshot.db.doc k :=
  (h k).2.1 (hfresh k hk)

/-- What a transaction changes was as on its snapshot, and becomes what it has computed. -/
theorem Since.changed (h : Since serial snapshot current) (hfresh : Fresh snapshot current after)
    {k : κ} (hk : after.doc k ≠ snapshot.db.doc k) : current.db.doc k = snapshot.db.doc k ∧
      (commit snapshot current after).db.doc k = after.doc k :=
  ⟨h.unchanged hfresh hk, doc_commit_changed hk⟩

/-- A commit develops the documents further. -/
theorem since_commit (h : Since serial snapshot current) (hfresh : Fresh snapshot current after)
    (hnew : NewKeys serial snapshot current after) :
    Since serial current (commit snapshot current after) := by
  intro k
  by_cases hk : after.doc k = snapshot.db.doc k
  · have hdoc : (commit snapshot current after).db.doc k = current.db.doc k := doc_commit_same hk
    have hrev : (commit snapshot current after).revision k = current.revision k := if_pos hk
    rw [hdoc, hrev]
    exact ⟨le_rfl, fun _ => rfl, fun _ _ h => h⟩
  · have hdoc : (commit snapshot current after).db.doc k = after.doc k := doc_commit_changed hk
    have hrev : (commit snapshot current after).revision k = current.revision k + 1 := if_neg hk
    rw [hdoc, hrev]
    refine ⟨Nat.le_succ _, fun h => by omega, fun hs hpos hnone => ?_⟩
    by_contra hafter
    rw [h.unchanged hfresh hk] at hnone
    have hzero := hnew k hs hnone hafter
    omega

end Committed

/-- What a handler does: reads, single writes that also read, and transactions. -/
inductive Program (σ ε ρ : Type*) where
  | done (result : Except ε ρ)
  | read (next : σ → Program σ ε ρ)
  | write (f : σ → σ) (next : σ → Program σ ε ρ)
  | transact (body : σ → Except ε σ) (next : Except ε Unit → Program σ ε ρ)

/-- A program with its command, in a transaction or not, and the documents that were committed
while it ran. -/
inductive Task (κ : Type*) (δ : κ → Type*) (χ ε ρ : Type*) where
  | idle
  | running (command : χ) (moments : List (Database κ δ)) (p : Program (Database κ δ) ε ρ)
  | inside (command : χ) (moments : List (Database κ δ)) (snapshot : Committed κ δ)
      (body : Database κ δ → Except ε (Database κ δ))
      (next : Except ε Unit → Program (Database κ δ) ε ρ)

/-- The committed documents and the tasks on them. -/
structure World (κ : Type*) (δ : κ → Type*) (χ ε ρ : Type*) where
  state : Committed κ δ
  task : ℕ → Task κ δ χ ε ρ

/-- What can happen to the tasks: a command starts, a task takes its next step, its transaction is
retried, its reply is lost and it runs again, or it gives up. -/
inductive Event (χ : Type*) where
  | start (i : ℕ) (command : χ)
  | advance (i : ℕ)
  | retry (i : ℕ)
  | duplicate (i : ℕ)
  | giveUp (i : ℕ)

/-- No program runs yet. -/
def World.initial {κ : Type*} {δ : κ → Type*} {χ ε ρ : Type*} (c : Committed κ δ) :
    World κ δ χ ε ρ := ⟨c, fun _ => .idle⟩

/-- How programs run: the program of a command, the keys that are never used again, and the
errors of a transaction that meets a taken key or is not tried again. -/
structure Runtime (κ : Type*) (δ : κ → Type*) (χ ε ρ : Type*) where
  program : χ → Program (Database κ δ) ε ρ
  serial : κ → Bool
  taken : ε
  conflict : ε

namespace Task

variable {κ : Type*} {δ : κ → Type*} {χ ε ρ : Type*}

/-- The command of a task and how it goes on. -/
def program : Task κ δ χ ε ρ → Option (χ × Program (Database κ δ) ε ρ)
  | idle => none
  | running c _ p => some (c, p)
  | inside c _ _ body next => some (c, .transact body next)

/-- A task lives through a commit. -/
def observe (db : Database κ δ) : Task κ δ χ ε ρ → Task κ δ χ ε ρ
  | idle => idle
  | running c moments p => running c (db :: moments) p
  | inside c moments snapshot body next => inside c (db :: moments) snapshot body next

@[simp] theorem program_observe (t : Task κ δ χ ε ρ) (db : Database κ δ) :
    (t.observe db).program = t.program := by
  cases t <;> rfl

end Task

namespace World

variable {κ : Type*} {δ : κ → Type*} {χ ε ρ : Type*} [DecidableEq κ] [∀ k, DecidableEq (δ k)]

omit [DecidableEq κ] [∀ k, DecidableEq (δ k)] in
/-- One task goes on. -/
def setTask (w : World κ δ χ ε ρ) (i : ℕ) (t : Task κ δ χ ε ρ) : World κ δ χ ε ρ :=
  { w with task := Function.update w.task i t }

/-- A commit, which every task lives through. -/
def commit (w : World κ δ χ ε ρ) (snapshot : Committed κ δ) (after : Database κ δ) :
    World κ δ χ ε ρ where
  state := snapshot.commit w.state after
  task := fun i => (w.task i).observe (snapshot.commit w.state after).db

/-- What an event would commit: for which command, on which snapshot, and what is computed. -/
def attempt (w : World κ δ χ ε ρ) : Event χ → Option (χ × Committed κ δ × Database κ δ)
  | .advance i =>
    match w.task i with
    | .running c _ (.write f _) => some (c, w.state, f w.state.db)
    | .inside c _ snapshot body _ =>
      match body snapshot.db with
      | .ok after => some (c, snapshot, after)
      | .error _ => none
    | _ => none
  | _ => none

/-- What an event would commit meets a condition. -/
def Commits (condition : χ → Committed κ δ → Committed κ δ → Database κ δ → Prop)
    (w : World κ δ χ ε ρ) (e : Event χ) : Prop :=
  ∀ c snapshot after, w.attempt e = some (c, snapshot, after) →
    condition c snapshot w.state after

/-- The transition of an event; none when it cannot happen. -/
def step (r : Runtime κ δ χ ε ρ) (w : World κ δ χ ε ρ) (e : Event χ) : Option (World κ δ χ ε ρ) :=
  match e with
  | .start i c =>
    match w.task i with
    | .idle => some (w.setTask i (.running c [w.state.db] (r.program c)))
    | _ => none
  | .advance i =>
    match w.task i with
    | .idle => none
    | .running _ _ (.done _) => none
    | .running c moments (.read next) =>
      some (w.setTask i (.running c moments (next w.state.db)))
    | .running c moments (.transact body next) =>
      some (w.setTask i (.inside c moments w.state body next))
    | .running c moments (.write f next) =>
      if Committed.NewKeys r.serial w.state w.state (f w.state.db) then
        some ((w.setTask i (.running c moments (next w.state.db))).commit w.state (f w.state.db))
      else none
    | .inside c moments snapshot body next =>
      match body snapshot.db with
      | .error error => some (w.setTask i (.running c moments (next (.error error))))
      | .ok after =>
        if Committed.Fresh snapshot w.state after ∧
            Committed.NewKeys r.serial snapshot w.state after then
          some ((w.setTask i (.running c moments (next (.ok ())))).commit snapshot after)
        else none
  | .retry i =>
    match w.task i with
    | .inside c moments _ body next => some (w.setTask i (.running c moments (.transact body next)))
    | _ => none
  | .duplicate i =>
    match w.task i with
    | .inside c moments snapshot body next =>
      match body snapshot.db with
      | .ok after =>
        if Committed.Taken snapshot w.state after then
          some (w.setTask i (.running c moments (next (.error r.taken))))
        else none
      | .error _ => none
    | _ => none
  | .giveUp i =>
    match w.task i with
    | .inside c moments _ _ next =>
        some (w.setTask i (.running c moments (next (.error r.conflict))))
    | _ => none

/-- What an event does, case by case. -/
inductive Steps (r : Runtime κ δ χ ε ρ) (w : World κ δ χ ε ρ) : Event χ → World κ δ χ ε ρ → Prop
  | start {i : ℕ} {c : χ} (htask : w.task i = .idle) :
      Steps r w (.start i c) (w.setTask i (.running c [w.state.db] (r.program c)))
  | read {i : ℕ} {c : χ} {moments : List (Database κ δ)}
      {next : Database κ δ → Program (Database κ δ) ε ρ}
      (htask : w.task i = .running c moments (.read next)) :
      Steps r w (.advance i) (w.setTask i (.running c moments (next w.state.db)))
  | write {i : ℕ} {c : χ} {moments : List (Database κ δ)} {f : Database κ δ → Database κ δ}
      {next : Database κ δ → Program (Database κ δ) ε ρ}
      (htask : w.task i = .running c moments (.write f next))
      (hnew : Committed.NewKeys r.serial w.state w.state (f w.state.db)) :
      Steps r w (.advance i)
        ((w.setTask i (.running c moments (next w.state.db))).commit w.state (f w.state.db))
  | begin {i : ℕ} {c : χ} {moments : List (Database κ δ)}
      {body : Database κ δ → Except ε (Database κ δ)}
      {next : Except ε Unit → Program (Database κ δ) ε ρ}
      (htask : w.task i = .running c moments (.transact body next)) :
      Steps r w (.advance i) (w.setTask i (.inside c moments w.state body next))
  | fail {i : ℕ} {c : χ} {moments : List (Database κ δ)} {snapshot : Committed κ δ}
      {body : Database κ δ → Except ε (Database κ δ)}
      {next : Except ε Unit → Program (Database κ δ) ε ρ} {error : ε}
      (htask : w.task i = .inside c moments snapshot body next)
      (hbody : body snapshot.db = .error error) :
      Steps r w (.advance i) (w.setTask i (.running c moments (next (.error error))))
  | commit {i : ℕ} {c : χ} {moments : List (Database κ δ)} {snapshot : Committed κ δ}
      {body : Database κ δ → Except ε (Database κ δ)}
      {next : Except ε Unit → Program (Database κ δ) ε ρ} {after : Database κ δ}
      (htask : w.task i = .inside c moments snapshot body next)
      (hbody : body snapshot.db = .ok after) (hfresh : Committed.Fresh snapshot w.state after)
      (hnew : Committed.NewKeys r.serial snapshot w.state after) :
      Steps r w (.advance i)
        ((w.setTask i (.running c moments (next (.ok ())))).commit snapshot after)
  | retry {i : ℕ} {c : χ} {moments : List (Database κ δ)} {snapshot : Committed κ δ}
      {body : Database κ δ → Except ε (Database κ δ)}
      {next : Except ε Unit → Program (Database κ δ) ε ρ}
      (htask : w.task i = .inside c moments snapshot body next) :
      Steps r w (.retry i) (w.setTask i (.running c moments (.transact body next)))
  | duplicate {i : ℕ} {c : χ} {moments : List (Database κ δ)} {snapshot : Committed κ δ}
      {body : Database κ δ → Except ε (Database κ δ)}
      {next : Except ε Unit → Program (Database κ δ) ε ρ} {after : Database κ δ}
      (htask : w.task i = .inside c moments snapshot body next)
      (hbody : body snapshot.db = .ok after) (htaken : Committed.Taken snapshot w.state after) :
      Steps r w (.duplicate i) (w.setTask i (.running c moments (next (.error r.taken))))
  | giveUp {i : ℕ} {c : χ} {moments : List (Database κ δ)} {snapshot : Committed κ δ}
      {body : Database κ δ → Except ε (Database κ δ)}
      {next : Except ε Unit → Program (Database κ δ) ε ρ}
      (htask : w.task i = .inside c moments snapshot body next) :
      Steps r w (.giveUp i) (w.setTask i (.running c moments (next (.error r.conflict))))

/-- One executed event is one of the listed steps. -/
theorem steps_of_step {r : Runtime κ δ χ ε ρ} {w w' : World κ δ χ ε ρ} {e : Event χ}
    (h : w.step r e = some w') : Steps r w e w' := by
  cases e with
  | start i c =>
    simp only [step] at h
    split at h
    · next htask => exact Option.some.inj h ▸ .start htask
    · cases h
  | retry i =>
    simp only [step] at h
    split at h
    · next htask => exact Option.some.inj h ▸ .retry htask
    · cases h
  | duplicate i =>
    simp only [step] at h
    split at h
    · next htask =>
      split at h
      · next hbody =>
        split at h
        · next htaken => exact Option.some.inj h ▸ .duplicate htask hbody htaken
        · cases h
      · cases h
    · cases h
  | giveUp i =>
    simp only [step] at h
    split at h
    · next htask => exact Option.some.inj h ▸ .giveUp htask
    · cases h
  | advance i =>
    simp only [step] at h
    split at h
    · cases h
    · cases h
    · next htask => exact Option.some.inj h ▸ .read htask
    · next htask => exact Option.some.inj h ▸ .begin htask
    · next htask =>
      split at h
      · next hnew => exact Option.some.inj h ▸ .write htask hnew
      · cases h
    · next htask =>
      split at h
      · next hbody => exact Option.some.inj h ▸ .fail htask hbody
      · next hbody =>
        split at h
        · next hcommit => exact Option.some.inj h ▸ .commit htask hbody hcommit.1 hcommit.2
        · cases h

section Attempts

omit [DecidableEq κ] [∀ k, DecidableEq (δ k)]

/-- A write and a transaction attempt what they compute. -/
theorem attempt_write {w : World κ δ χ ε ρ} {i : ℕ} {c : χ} {moments : List (Database κ δ)}
    {f : Database κ δ → Database κ δ} {next : Database κ δ → Program (Database κ δ) ε ρ}
    (htask : w.task i = .running c moments (.write f next)) :
    w.attempt (.advance i) = some (c, w.state, f w.state.db) := by
  simp only [attempt, htask]

/-- A transaction whose body succeeds is about to commit what the body returned. -/
theorem attempt_commit {w : World κ δ χ ε ρ} {i : ℕ} {c : χ} {moments : List (Database κ δ)}
    {snapshot : Committed κ δ} {body : Database κ δ → Except ε (Database κ δ)}
    {next : Except ε Unit → Program (Database κ δ) ε ρ} {after : Database κ δ}
    (htask : w.task i = .inside c moments snapshot body next)
    (hbody : body snapshot.db = .ok after) :
    w.attempt (.advance i) = some (c, snapshot, after) := by
  simp only [attempt, htask, hbody]

/-- Only these attempt to commit. -/
theorem attempt_cases {w : World κ δ χ ε ρ} {e : Event χ} {c : χ} {snapshot : Committed κ δ}
    {after : Database κ δ} (h : w.attempt e = some (c, snapshot, after)) :
    ∃ i, e = .advance i ∧
      ((∃ moments f next, w.task i = .running c moments (.write f next) ∧ snapshot = w.state ∧
        after = f w.state.db) ∨
      ∃ moments body next, w.task i = .inside c moments snapshot body next ∧
        body snapshot.db = .ok after) := by
  cases e with
  | advance i =>
    refine ⟨i, rfl, ?_⟩
    simp only [attempt] at h
    split at h
    · next f next htask =>
      obtain ⟨rfl, hrest⟩ := Prod.mk.inj (Option.some.inj h)
      obtain ⟨rfl, rfl⟩ := Prod.mk.inj hrest
      exact .inl ⟨_, _, _, htask, rfl, rfl⟩
    · next htask =>
      split at h
      · next hbody =>
        obtain ⟨rfl, hrest⟩ := Prod.mk.inj (Option.some.inj h)
        obtain ⟨rfl, rfl⟩ := Prod.mk.inj hrest
        exact .inr ⟨_, _, _, htask, hbody⟩
      · cases h
    · cases h
  | _ => cases h

/-- A condition that every attempt passes is met. -/
theorem commits_of_all {w : World κ δ χ ε ρ} {e : Event χ}
    {condition : χ → Committed κ δ → Committed κ δ → Database κ δ → Prop}
    {check : χ → Committed κ δ → Committed κ δ → Database κ δ → Bool}
    (hcheck : ∀ c snapshot current after, check c snapshot current after = true →
      condition c snapshot current after)
    (h : ((w.attempt e).all fun (c, snapshot, after) => check c snapshot w.state after) = true) :
    w.Commits condition e := by
  intro c snapshot after hattempt
  rw [hattempt] at h
  exact hcheck c snapshot w.state after h

end Attempts

end World

end Ascendance.Core
