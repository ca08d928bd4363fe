import Mathlib.Data.Nat.Notation
import Mathlib.Logic.Function.Basic

/-!
# Files that are written once

A process writes a file under a name of its own and links it to its final name. A link is
atomic and fails when there is a file already. Between two steps of a process any others
may take steps, every operation may fail, and a process may end anywhere.
-/

namespace Ascendance.Core

/-- The files under final names, which all processes know, and the temporary ones. -/
structure Directory (ν δ : Type) where
  file : ν → Option δ
  temporary : ℕ → Option δ

/-- What a process does with a directory: operations, and what follows their results. Errors are
their messages. -/
inductive Script (ν δ α : Type)
  | done (result : Except String α)
  /-- An operation that changes no file and reads none. -/
  | await (next : Except String Unit → Script ν δ α)
  /-- A missing file is not an error. -/
  | readFile (name : ν) (next : Except String (Option δ) → Script ν δ α)
  /-- A new file with some first contents, unless there is a file. -/
  | create (path : ℕ) (data : δ) (next : Except String Bool → Script ν δ α)
  /-- The contents are written in any number of pieces. -/
  | write (path : ℕ) (data : δ) (next : Except String Unit → Script ν δ α)
  /-- Another name for a file, unless there is a file. -/
  | link (path : ℕ) (name : ν) (next : Except String Bool → Script ν δ α)
  | unlink (path : ℕ) (next : Except String Unit → Script ν δ α)

namespace Script

variable {ν δ α β : Type}

/-- What follows a script, whether it throws or not. -/
def andThen : Script ν δ α → (Except String α → Script ν δ β) → Script ν δ β
  | done result, f => f result
  | await next, f => .await fun r => (next r).andThen f
  | readFile name next, f => .readFile name fun r => (next r).andThen f
  | create path data next, f => .create path data fun r => (next r).andThen f
  | write path data next, f => .write path data fun r => (next r).andThen f
  | link path name next, f => .link path name fun r => (next r).andThen f
  | unlink path next, f => .unlink path fun r => (next r).andThen f

/-- An error is thrown on. -/
def onSuccess (f : α → Script ν δ β) : Except String α → Script ν δ β
  | .ok a => f a
  | .error e => done (.error e)

instance : Monad (Script ν δ) where
  pure a := done (.ok a)
  bind s f := s.andThen (onSuccess f)

/-- `try` and `finally`. -/
def tryFinally (s : Script ν δ α) (cleanup : Script ν δ Unit) : Script ν δ α :=
  s.andThen fun r => cleanup.andThen (onSuccess fun _ => done r)

/-- `catch(() => undefined)`. -/
def ignoreErrors (s : Script ν δ Unit) : Script ν δ Unit := s.andThen fun _ => done (.ok ())

end Script

/-- The contents of a temporary file are replaced. -/
def Directory.fill {ν δ : Type} (d : Directory ν δ) (path : ℕ) (data : δ) : Directory ν δ :=
  ⟨d.file, Function.update d.temporary path ((d.temporary path).map fun _ => data)⟩

/-- Write, or with `none` remove, the temporary file at a path. -/
def Directory.setTemporary {ν δ : Type} (d : Directory ν δ) (path : ℕ) (data : Option δ) :
    Directory ν δ :=
  ⟨d.file, Function.update d.temporary path data⟩

/-- Put data under a final name. -/
def Directory.setFile {ν δ : Type} [DecidableEq ν] (d : Directory ν δ) (name : ν) (data : δ) :
    Directory ν δ :=
  ⟨Function.update d.file name (some data), d.temporary⟩

namespace Script

variable {ν δ α β : Type} [DecidableEq ν]

/-- The next operation succeeds. -/
def step (d : Directory ν δ) : Script ν δ α → Directory ν δ × Script ν δ α
  | done result => (d, done result)
  | await next => (d, next (.ok ()))
  | readFile name next => (d, next (.ok (d.file name)))
  | create path data next =>
    if (d.temporary path).isSome then (d, next (.ok false))
    else (d.setTemporary path (some data), next (.ok true))
  | write path data next => (d.fill path data, next (.ok ()))
  | link path name next =>
    match d.temporary path, d.file name with
    | none, _ => (d, next (.error "ENOENT: no such file or directory, link"))
    | some _, some _ => (d, next (.ok false))
    | some data, none => (d.setFile name data, next (.ok true))
  | unlink path next =>
    if (d.temporary path).isSome then (d.setTemporary path none, next (.ok ()))
    else (d, next (.error "ENOENT: no such file or directory, unlink"))

/-- A piece is written. -/
def chunk (d : Directory ν δ) (data : δ) : Script ν δ α → Directory ν δ
  | write path _ _ => d.fill path data
  | done _ | await _ | readFile _ _ | create _ _ _ | link _ _ _ | unlink _ _ => d

/-- The next operation fails. -/
def fail (error : String) : Script ν δ α → Script ν δ α
  | done result => done result
  | await next => next (.error error)
  | readFile _ next => next (.error error)
  | create _ _ next => next (.error error)
  | write _ _ next => next (.error error)
  | link _ _ next => next (.error error)
  | unlink _ next => next (.error error)

end Script

namespace Files

variable {ν δ α χ : Type} [DecidableEq ν]

/-- A directory and the processes that work in it, each with its command. -/
structure World (ν δ α χ : Type) where
  dir : Directory ν δ
  task : ℕ → Option (χ × Script ν δ α)

/-- What can happen to the running tasks: a task starts a command, takes a step, receives a chunk of
its input, fails or crashes. -/
inductive Event (χ δ : Type)
  | start (i : ℕ) (c : χ)
  | step (i : ℕ)
  | chunk (i : ℕ) (data : δ)
  | fail (i : ℕ) (error : String)
  | crash (i : ℕ)

/-- The process that an event is one of. -/
def Event.task : Event χ δ → ℕ
  | start i _ | step i | chunk i _ | fail i _ | crash i => i

namespace World

variable (program : χ → Script ν δ α)

/-- The effect of one event on the directory and on the task it names. -/
def advance (w : World ν δ α χ) : Event χ δ → World ν δ α χ
  | .start i c => { w with task := Function.update w.task i (some (c, program c)) }
  | .step i => (w.task i).elim w fun (c, s) =>
    ⟨(s.step w.dir).1, Function.update w.task i (some (c, (s.step w.dir).2))⟩
  | .chunk i data => (w.task i).elim w fun (_, s) => { w with dir := s.chunk w.dir data }
  | .fail i error => (w.task i).elim w fun (c, s) =>
    { w with task := Function.update w.task i (some (c, s.fail error)) }
  | .crash i => { w with task := Function.update w.task i none }

variable {program} {w : World ν δ α χ} {i : ℕ} {c : χ} {s : Script ν δ α}

private theorem advance_step (h : w.task i = some (c, s)) : w.advance program (.step i) =
    ⟨(s.step w.dir).1, Function.update w.task i (some (c, (s.step w.dir).2))⟩ := by
  rw [advance, h, Option.elim_some]

private theorem advance_chunk (h : w.task i = some (c, s)) (data : δ) :
    w.advance program (.chunk i data) = ⟨s.chunk w.dir data, w.task⟩ := by
  rw [advance, h, Option.elim_some]

private theorem advance_fail (h : w.task i = some (c, s)) (error : String) :
    w.advance program (.fail i error) =
      ⟨w.dir, Function.update w.task i (some (c, s.fail error))⟩ := by
  rw [advance, h, Option.elim_some]

end World

/-- Files that are there stay as they are. -/
def Extends (f f' : ν → Option δ) : Prop := ∀ n d, f n = some d → f' n = some d

omit [DecidableEq ν] in
/-- A directory extends itself. -/
theorem Extends.refl (f : ν → Option δ) : Extends f f := fun _ _ h => h

omit [DecidableEq ν] in
/-- Extensions compose. -/
theorem Extends.trans {f f' f'' : ν → Option δ} (h : Extends f f') (h' : Extends f' f'') :
    Extends f f'' :=
  fun n d hd => h' n d (h n d hd)

/-- Filling a free name is an extension. -/
theorem Extends.update {f : ν → Option δ} {n : ν} (h : f n = none) (d : δ) :
    Extends f (Function.update f n (some d)) := by
  intro m x hx
  have hne : m ≠ n := by
    rintro rfl
    rw [h] at hx
    cases hx
  rw [Function.update_of_ne hne, hx]

/-- What holds of the files, and what a command may link: what it links keeps what holds. -/
structure Discipline (ν δ χ : Type) [DecidableEq ν] where
  good : (ν → Option δ) → Prop
  permits : χ → (ν → Option δ) → ν → δ → Prop
  kept : ∀ c f n d, good f → f n = none → permits c f n d → good (Function.update f n (some d))

/-- The temporary file that a process has made and not removed, and its contents when they are
known. -/
abbrev Claim (δ : Type) := Option (ℕ × Option δ)

/-- A claim is right. -/
def Claim.Holds (d : Directory ν δ) (own : Claim δ) : Prop :=
  ∀ t x, own = some (t, x) → ∃ y, d.temporary t = some y ∧ ∀ z, x = some z → y = z

variable (D : Discipline ν δ χ)

/-- A script links only what its command may, and ends as it should, when the files were `seen`
and whatever is linked meanwhile. -/
def Sound (c : χ) (Q : (ν → Option δ) → Claim δ → Except String α → Prop) :
    (ν → Option δ) → Claim δ → Script ν δ α → Prop
  | seen, own, .done r => Q seen own r
  | seen, own, .await next => ∀ r, Sound c Q seen own (next r)
  | seen, own, .readFile name next =>
    (∀ f, D.good f → Extends seen f → Sound c Q f own (next (.ok (f name)))) ∧
      ∀ e, Sound c Q seen own (next (.error e))
  | seen, own, .create path _ next => own = none ∧
    Sound c Q seen (some (path, none)) (next (.ok true)) ∧
      Sound c Q seen none (next (.ok false)) ∧ ∀ e, Sound c Q seen none (next (.error e))
  | seen, own, .write path data next => (∃ x, own = some (path, x)) ∧
    Sound c Q seen (some (path, some data)) (next (.ok ())) ∧
      ∀ e, Sound c Q seen (some (path, none)) (next (.error e))
  | seen, own, .link path name next => ∃ data, own = some (path, some data) ∧
    (∀ f, D.good f → Extends seen f → f name = none → D.permits c f name data ∧
      Sound c Q (Function.update f name (some data)) own (next (.ok true))) ∧
    (∀ f, D.good f → Extends seen f → f name ≠ none → Sound c Q f own (next (.ok false))) ∧
      ∀ e, Sound c Q seen own (next (.error e))
  | seen, own, .unlink path next => (∃ x, own = some (path, x)) ∧
    ∀ r, Sound c Q seen none (next r)

variable {D} {c : χ} {seen seen' : ν → Option δ} {own : Claim δ}

/-- What follows a script starts from what the script promises. -/
theorem Sound.andThen {β : Type} {Q : (ν → Option δ) → Claim δ → Except String α → Prop}
    {R : (ν → Option δ) → Claim δ → Except String β → Prop} {s : Script ν δ α}
    {f : Except String α → Script ν δ β} (hs : Sound D c Q seen own s)
    (hf : ∀ seen' own' r, Extends seen seen' → Q seen' own' r → Sound D c R seen' own' (f r)) :
    Sound D c R seen own (s.andThen f) := by
  induction s generalizing seen own with
  | done r => exact hf seen own r (.refl seen) hs
  | await next ih => exact fun r => ih r (hs r) hf
  | readFile name next ih =>
    refine ⟨fun f' hgood hext => ?_, fun e => ih _ (hs.2 e) hf⟩
    exact ih _ (hs.1 f' hgood hext) fun seen' own' r h => hf seen' own' r (hext.trans h)
  | create path data next ih =>
    obtain ⟨hown, hnew, hold, herror⟩ := hs
    exact ⟨hown, ih _ hnew hf, ih _ hold hf, fun e => ih _ (herror e) hf⟩
  | write path data next ih =>
    obtain ⟨hown, hwritten, herror⟩ := hs
    exact ⟨hown, ih _ hwritten hf, fun e => ih _ (herror e) hf⟩
  | link path name next ih =>
    obtain ⟨data, hown, hlinked, hold, herror⟩ := hs
    refine ⟨data, hown, fun f' hgood hext hnone => ?_, fun f' hgood hext hsome => ?_,
      fun e => ih _ (herror e) hf⟩
    · obtain ⟨hpermits, hnext⟩ := hlinked f' hgood hext hnone
      refine ⟨hpermits, ih _ hnext fun seen' own' r h => hf seen' own' r ?_⟩
      exact (hext.trans (.update hnone data)).trans h
    · exact ih _ (hold f' hgood hext hsome) fun seen' own' r h => hf seen' own' r (hext.trans h)
  | unlink path next ih =>
    obtain ⟨hown, hnext⟩ := hs
    exact ⟨hown, fun r => ih _ (hnext r) hf⟩

/-- What follows a success, when errors are thrown on. -/
theorem Sound.bind {β : Type} {Q : (ν → Option δ) → Claim δ → Except String α → Prop}
    {R : (ν → Option δ) → Claim δ → Except String β → Prop} {s : Script ν δ α}
    {f : α → Script ν δ β} (hs : Sound D c Q seen own s)
    (hok : ∀ seen' own' a, Extends seen seen' → Q seen' own' (.ok a) →
      Sound D c R seen' own' (f a))
    (herror : ∀ seen' own' e, Extends seen seen' → Q seen' own' (.error e) →
      R seen' own' (.error e)) :
    Sound D c R seen own (s >>= f) := by
  refine Sound.andThen hs fun seen' own' r hext hQ => ?_
  cases r with
  | ok a => exact hok seen' own' a hext hQ
  | error e => exact herror seen' own' e hext hQ

/-- What a step does to the files: nothing, or it links what its command may. -/
def Changes (D : Discipline ν δ χ) (c : χ) (f f' : ν → Option δ) : Prop :=
  f' = f ∨ ∃ n d, f n = none ∧ D.permits c f n d ∧ f' = Function.update f n (some d)

/-- A permitted change never alters a file that is there. -/
theorem Changes.extends {f f' : ν → Option δ} (h : Changes D c f f') : Extends f f' := by
  rcases h with rfl | ⟨n, d, hnone, -, rfl⟩
  · exact .refl _
  · exact .update hnone d

/-- A permitted change keeps every file good. -/
theorem Changes.good {f f' : ν → Option δ} (h : Changes D c f f') (hf : D.good f) : D.good f' := by
  rcases h with rfl | ⟨n, d, hnone, hpermits, rfl⟩
  · exact hf
  · exact D.kept c f n d hf hnone hpermits

/-- What a step does to the temporary files: the process keeps to its own one, or makes one. -/
structure Moves (d : Directory ν δ) (own : Claim δ) (d' : Directory ν δ) (own' : Claim δ) :
    Prop where
  others : ∀ t x, d.temporary t = some x → (∀ y, own ≠ some (t, y)) → d'.temporary t = some x
  path : ∀ t x, own' = some (t, x) → (∃ y, own = some (t, y)) ∨ d.temporary t = none
  holds : own'.Holds d'

omit [DecidableEq ν] in
/-- Standing still is a permitted move. -/
theorem Moves.refl {d : Directory ν δ} (h : own.Holds d) : Moves d own d own where
  others _ _ ht _ := ht
  path _ x hx := .inl ⟨x, hx⟩
  holds := h

omit [DecidableEq ν] in
/-- A process forgets its temporary file. -/
theorem Moves.forget (d : Directory ν δ) (own : Claim δ) : Moves d own d none where
  others _ _ ht _ := ht
  path _ _ hx := by cases hx
  holds _ _ hx := by cases hx

omit [DecidableEq ν] in
/-- The contents of the process's own file are replaced. -/
theorem Moves.fill {d : Directory ν δ} {path : ℕ} {x x' : Option δ} {data : δ}
    (h : Claim.Holds d (some (path, x))) (hx : ∀ z, x' = some z → data = z) :
    Moves d (some (path, x)) (d.fill path data) (some (path, x')) where
  others t y ht hne := by
    have hpath : t ≠ path := fun heq => hne x (by rw [heq])
    exact (Function.update_of_ne hpath ..).trans ht
  path t y hy := by
    obtain ⟨rfl, rfl⟩ := Prod.mk.inj (Option.some.inj hy)
    exact .inl ⟨x, rfl⟩
  holds t y hy := by
    obtain ⟨rfl, rfl⟩ := Prod.mk.inj (Option.some.inj hy)
    obtain ⟨z, hz, -⟩ := h path x rfl
    refine ⟨data, ?_, hx⟩
    exact (Function.update_self ..).trans (by rw [hz, Option.map_some])

/-- A sound script whose operation succeeds does what it may, and the rest is sound. -/
theorem Sound.step {Q : (ν → Option δ) → Claim δ → Except String α → Prop} {s : Script ν δ α}
    {d : Directory ν δ} (hs : Sound D c Q seen own s) (hgood : D.good d.file)
    (hext : Extends seen d.file) (hown : own.Holds d) :
    Changes D c d.file (s.step d).1.file ∧ ∃ own', Moves d own (s.step d).1 own' ∧
      ∃ seen', Extends seen' (s.step d).1.file ∧ Sound D c Q seen' own' (s.step d).2 := by
  cases s with
  | done r => exact ⟨.inl rfl, own, .refl hown, seen, hext, hs⟩
  | await next => exact ⟨.inl rfl, own, .refl hown, seen, hext, hs _⟩
  | readFile name next => exact ⟨.inl rfl, own, .refl hown, d.file, .refl _, hs.1 _ hgood hext⟩
  | create path data next =>
    obtain ⟨rfl, hnew, hold, -⟩ := hs
    rw [Script.step]
    split
    · exact ⟨.inl rfl, none, .refl hown, seen, hext, hold⟩
    · next hnone =>
      have hfree : d.temporary path = none := Option.not_isSome_iff_eq_none.mp hnone
      refine ⟨.inl rfl, some (path, none), ⟨fun t x ht _ => ?_, fun t x hx => ?_, ?_⟩, seen, hext,
        hnew⟩
      · have hpath : t ≠ path := by
          rintro rfl
          rw [hfree] at ht
          cases ht
        exact (Function.update_of_ne hpath ..).trans ht
      · obtain ⟨rfl, -⟩ := Prod.mk.inj (Option.some.inj hx)
        exact .inr hfree
      · intro t x hx
        obtain ⟨rfl, rfl⟩ := Prod.mk.inj (Option.some.inj hx)
        exact ⟨data, Function.update_self .., fun z hz => by cases hz⟩
  | write path data next =>
    obtain ⟨⟨x, rfl⟩, hwritten, -⟩ := hs
    exact ⟨.inl rfl, _, .fill hown fun z hz => Option.some.inj hz, seen, hext, hwritten⟩
  | link path name next =>
    obtain ⟨data, rfl, hlinked, hold, herror⟩ := hs
    obtain ⟨y, hy, hdata⟩ := hown path (some data) rfl
    obtain rfl := hdata data rfl
    rw [Script.step]
    rw [hy]
    cases hfile : d.file name with
    | none =>
      obtain ⟨hpermits, hnext⟩ := hlinked d.file hgood hext hfile
      refine ⟨.inr ⟨name, y, hfile, hpermits, rfl⟩, some (path, some y), ?_, _, .refl _, hnext⟩
      exact ⟨fun t x ht _ => ht, fun t x hx => .inl ⟨x, hx⟩, hown⟩
    | some z =>
      have hsome : d.file name ≠ none := by
        rw [hfile]
        exact Option.some_ne_none z
      exact ⟨.inl rfl, _, .refl hown, d.file, .refl _, hold d.file hgood hext hsome⟩
  | unlink path next =>
    obtain ⟨⟨x, rfl⟩, hnext⟩ := hs
    rw [Script.step]
    split
    · refine ⟨.inl rfl, none, ⟨fun t y ht hne => ?_, fun t y hy => (by cases hy),
        fun t y hy => (by cases hy)⟩, seen, hext, hnext _⟩
      have hpath : t ≠ path := fun heq => hne x (by rw [heq])
      exact (Function.update_of_ne hpath ..).trans ht
    · exact ⟨.inl rfl, none, .forget d _, seen, hext, hnext _⟩

/-- An operation that fails changes no file. -/
theorem Sound.fail {Q : (ν → Option δ) → Claim δ → Except String α → Prop} {s : Script ν δ α}
    {d : Directory ν δ} (hs : Sound D c Q seen own s) (hown : own.Holds d) (error : String) :
    ∃ own', Moves d own d own' ∧ Sound D c Q seen own' (s.fail error) := by
  cases s with
  | done r => exact ⟨own, .refl hown, hs⟩
  | await next => exact ⟨own, .refl hown, hs _⟩
  | readFile name next => exact ⟨own, .refl hown, hs.2 error⟩
  | create path data next =>
    obtain ⟨rfl, -, -, herror⟩ := hs
    exact ⟨none, .refl hown, herror error⟩
  | write path data next =>
    obtain ⟨⟨x, rfl⟩, -, herror⟩ := hs
    refine ⟨some (path, none), ⟨fun _ _ ht _ => ht, fun t y hy => ?_, fun t y hy => ?_⟩,
      herror error⟩
    · obtain ⟨rfl, -⟩ := Prod.mk.inj (Option.some.inj hy)
      exact .inl ⟨x, rfl⟩
    · obtain ⟨rfl, rfl⟩ := Prod.mk.inj (Option.some.inj hy)
      obtain ⟨z, hz, -⟩ := hown path x rfl
      exact ⟨z, hz, fun _ h => by cases h⟩
  | link path name next =>
    obtain ⟨data, -, -, -, herror⟩ := hs
    exact ⟨own, .refl hown, herror error⟩
  | unlink path next => exact ⟨none, .forget d own, hs.2 _⟩

/-- A piece that is written is written to the process's own file. -/
theorem Sound.chunk {Q : (ν → Option δ) → Claim δ → Except String α → Prop} {s : Script ν δ α}
    {d : Directory ν δ} (hs : Sound D c Q seen own s) (hown : own.Holds d) (data : δ) :
    (s.chunk d data).file = d.file ∧
      ∃ own', Moves d own (s.chunk d data) own' ∧ Sound D c Q seen own' s := by
  cases s with
  | write path data' next =>
    obtain ⟨⟨x, rfl⟩, hnext⟩ := hs
    exact ⟨rfl, some (path, none), .fill hown (fun z hz => by cases hz), ⟨none, rfl⟩, hnext⟩
  | done | await | readFile | create | link | unlink => exact ⟨rfl, own, .refl hown, hs⟩

/-- The files are good, no two processes have one temporary file, and every script is sound. -/
structure Holds (D : Discipline ν δ χ) (Q : χ → (ν → Option δ) → Except String α → Prop)
    (w : World ν δ α χ) (own : ℕ → Claim δ) : Prop where
  good : D.good w.dir.file
  claims : ∀ i, (own i).Holds w.dir
  apart : ∀ i j t x y, own i = some (t, x) → own j = some (t, y) → i = j
  sound : ∀ i c s, w.task i = some (c, s) → ∃ seen, Extends seen w.dir.file ∧
    Sound D c (fun f _ r => Q c f r) seen (own i) s

variable {Q : χ → (ν → Option δ) → Except String α → Prop} {w : World ν δ α χ}
  {owns : ℕ → Claim δ} {i : ℕ}

/-- One process moves. -/
theorem Holds.move (h : Holds D Q w owns) {d : Directory ν δ} {own' : Claim δ}
    {task : Option (χ × Script ν δ α)} (hgood : D.good d.file) (hext : Extends w.dir.file d.file)
    (hmoves : Moves w.dir (owns i) d own')
    (hsound : ∀ c s, task = some (c, s) → ∃ seen, Extends seen d.file ∧
      Sound D c (fun f _ r => Q c f r) seen own' s) :
    Holds D Q ⟨d, Function.update w.task i task⟩ (Function.update owns i own') where
  good := hgood
  claims j := by
    by_cases hj : j = i
    · subst hj
      rw [Function.update_self]
      exact hmoves.holds
    · rw [Function.update_of_ne hj]
      intro t x hx
      obtain ⟨y, hy, hdata⟩ := h.claims j t x hx
      exact ⟨y, hmoves.others t y hy fun z hz => hj (h.apart j i t x z hx hz), hdata⟩
  apart j k t x y hj hk := by
    -- A file that another process has made is there, so it is not a new one.
    have hother : ∀ j x y, j ≠ i → owns j = some (t, x) → own' = some (t, y) → False := by
      intro j x y hji hx hy
      rcases hmoves.path t y hy with ⟨z, hz⟩ | hnone
      · exact hji (h.apart j i t x z hx hz)
      · obtain ⟨z, hz, -⟩ := h.claims j t x hx
        rw [hnone] at hz
        cases hz
    by_cases hji : j = i
    · by_cases hki : k = i
      · rw [hji, hki]
      · subst hji
        rw [Function.update_self] at hj
        rw [Function.update_of_ne hki] at hk
        exact (hother k y x hki hk hj).elim
    · rw [Function.update_of_ne hji] at hj
      by_cases hki : k = i
      · subst hki
        rw [Function.update_self] at hk
        exact (hother j x y hji hj hk).elim
      · rw [Function.update_of_ne hki] at hk
        exact h.apart j k t x y hj hk
  sound j c s hs := by
    by_cases hj : j = i
    · subst hj
      rw [Function.update_self]
      exact hsound c s ((Function.update_self j task w.task).symm.trans hs)
    · rw [Function.update_of_ne hj]
      obtain ⟨seen, hseen, hsound⟩ := h.sound j c s
        ((Function.update_of_ne hj task w.task).symm.trans hs)
      exact ⟨seen, hseen.trans hext, hsound⟩

variable {program : χ → Script ν δ α}

/-- Every event keeps what holds, and what it links its command may. -/
theorem Holds.advance (h : Holds D Q w owns)
    (hprogram : ∀ c, Sound D c (fun f _ r => Q c f r) (fun _ => none) none (program c))
    (e : Event χ δ) : (∃ owns', Holds D Q (w.advance program e) owns') ∧
      (w.dir.file = (w.advance program e).dir.file ∨ ∃ c s, w.task e.task = some (c, s) ∧
        Changes D c w.dir.file (w.advance program e).dir.file) := by
  have hnothing : Extends (fun _ => none) w.dir.file := fun n d hd => by cases hd
  cases e with
  | start i c =>
    refine ⟨⟨_, h.move (i := i) h.good (.refl _) (.forget _ _) fun c' s hs => ?_⟩, .inl rfl⟩
    obtain ⟨rfl, rfl⟩ := Prod.mk.inj (Option.some.inj hs)
    exact ⟨_, hnothing, hprogram c⟩
  | crash i =>
    exact ⟨⟨_, h.move (i := i) h.good (.refl _) (.forget _ _) fun c' s hs => by cases hs⟩, .inl rfl⟩
  | step i =>
    cases htask : w.task i with
    | none =>
      rw [World.advance, htask]
      exact ⟨⟨owns, h⟩, .inl rfl⟩
    | some task =>
      obtain ⟨c, s⟩ := task
      rw [World.advance_step htask]
      obtain ⟨seen, hseen, hs⟩ := h.sound i c s htask
      obtain ⟨hchanges, own', hmoves, seen', hseen', hs'⟩ := hs.step h.good hseen (h.claims i)
      refine ⟨⟨_, h.move (hchanges.good h.good) hchanges.extends hmoves fun c' s' hs => ?_⟩,
        .inr ⟨c, s, htask, hchanges⟩⟩
      obtain ⟨rfl, rfl⟩ := Prod.mk.inj (Option.some.inj hs)
      exact ⟨seen', hseen', hs'⟩
  | chunk i data =>
    cases htask : w.task i with
    | none =>
      rw [World.advance, htask]
      exact ⟨⟨owns, h⟩, .inl rfl⟩
    | some task =>
      obtain ⟨c, s⟩ := task
      rw [World.advance_chunk htask data]
      obtain ⟨seen, hseen, hs⟩ := h.sound i c s htask
      obtain ⟨hfile, own', hmoves, hs'⟩ := hs.chunk (h.claims i) data
      have hmoved : Holds D Q ⟨s.chunk w.dir data, Function.update w.task i (some (c, s))⟩
          (Function.update owns i own') := by
        refine h.move (hfile ▸ h.good) (hfile ▸ .refl _) hmoves fun c' s' hs => ?_
        obtain ⟨rfl, rfl⟩ := Prod.mk.inj (Option.some.inj hs)
        exact ⟨seen, hfile ▸ hseen, hs'⟩
      rw [← htask, Function.update_eq_self] at hmoved
      exact ⟨⟨_, hmoved⟩, .inl hfile.symm⟩
  | fail i error =>
    cases htask : w.task i with
    | none =>
      rw [World.advance, htask]
      exact ⟨⟨owns, h⟩, .inl rfl⟩
    | some task =>
      obtain ⟨c, s⟩ := task
      rw [World.advance_fail htask error]
      obtain ⟨seen, hseen, hs⟩ := h.sound i c s htask
      obtain ⟨own', hmoves, hs'⟩ := hs.fail (h.claims i) error
      refine ⟨⟨_, h.move h.good (.refl _) hmoves fun c' s' hs => ?_⟩, .inl rfl⟩
      obtain ⟨rfl, rfl⟩ := Prod.mk.inj (Option.some.inj hs)
      exact ⟨seen, hseen, hs'⟩

/-- Along every sequence of events each task's outline holds and no file is altered. -/
theorem Holds.run (h : Holds D Q w owns)
    (hprogram : ∀ c, Sound D c (fun f _ r => Q c f r) (fun _ => none) none (program c))
    (events : List (Event χ δ)) : (∃ owns', Holds D Q (events.foldl (World.advance program) w)
      owns') ∧ Extends w.dir.file (events.foldl (World.advance program) w).dir.file := by
  induction events generalizing w owns with
  | nil => exact ⟨⟨owns, h⟩, .refl _⟩
  | cons e events ih =>
    obtain ⟨⟨owns', h'⟩, hchanges⟩ := h.advance hprogram e
    obtain ⟨hheld, hext⟩ := ih h'
    refine ⟨hheld, Extends.trans ?_ hext⟩
    rcases hchanges with heq | ⟨c, s, -, hchanges⟩
    · exact heq ▸ .refl _
    · exact hchanges.extends

/-- A world without processes. -/
theorem Holds.initial {d : Directory ν δ} (hgood : D.good d.file) :
    Holds D Q (⟨d, fun _ => none⟩ : World ν δ α χ) fun _ => none where
  good := hgood
  claims _ _ _ hx := by cases hx
  apart _ _ _ _ _ hx := by cases hx
  sound _ _ _ hs := by cases hs

/-- A process whose steps are taken, and succeed, comes to an end. -/
theorem finishes (program : χ → Script ν δ α) {c : χ} {s : Script ν δ α}
    (h : w.task i = some (c, s)) : ∃ k r, ((List.replicate k (Event.step i)).foldl
      (World.advance program) w).task i = some (c, .done r) := by
  have hstep : ∀ {w : World ν δ α χ} {s : Script ν δ α}, w.task i = some (c, s) →
      (w.advance program (.step i)).task i = some (c, (s.step w.dir).2) := by
    intro w s h
    rw [World.advance_step h]
    exact Function.update_self ..
  have hnext : ∀ {w : World ν δ α χ} {s s' : Script ν δ α}, w.task i = some (c, s) →
      (s.step w.dir).2 = s' →
      (∀ w' : World ν δ α χ, w'.task i = some (c, s') → ∃ k r, ((List.replicate k
        (Event.step i)).foldl (World.advance program) w').task i = some (c, .done r)) →
      ∃ k r, ((List.replicate k (Event.step i)).foldl (World.advance program) w).task i =
        some (c, .done r) := by
    intro w s s' h hs hfinish
    obtain ⟨k, r, hk⟩ := hfinish _ (hs ▸ hstep h)
    exact ⟨k + 1, r, hk⟩
  induction s generalizing w with
  | done r => exact ⟨0, r, h⟩
  | await next ih => exact hnext h rfl fun w' hw' => ih _ hw'
  | readFile name next ih => exact hnext h rfl fun w' hw' => ih _ hw'
  | create path data next ih =>
    refine hnext h rfl ?_
    rw [Script.step]
    split <;> exact fun w' hw' => ih _ hw'
  | write path data next ih => exact hnext h rfl fun w' hw' => ih _ hw'
  | link path name next ih =>
    refine hnext h rfl ?_
    rw [Script.step]
    split <;> exact fun w' hw' => ih _ hw'
  | unlink path next ih =>
    refine hnext h rfl ?_
    rw [Script.step]
    split <;> exact fun w' hw' => ih _ hw'

end Files

end Ascendance.Core
