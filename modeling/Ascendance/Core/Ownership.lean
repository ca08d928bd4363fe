import Ascendance.Core.Isolation

/-!
# Documents in the hands of one program

A program that stores a document under a new key may own it for a while: it alone changes what
matters about it. Until it lets go, the document is as the program wants it, or gone.
-/

namespace Ascendance.Core

variable {κ : Type*} {δ : κ → Type*} {χ ε ρ : Type*}

/-- What a program may come to. -/
inductive Program.Leads (p : Program (Database κ δ) ε ρ) : Program (Database κ δ) ε ρ → Prop
  | refl : Leads p p
  | read {next : Database κ δ → Program (Database κ δ) ε ρ} (h : Leads p (.read next))
      (db : Database κ δ) : Leads p (next db)
  | write {f : Database κ δ → Database κ δ} {next : Database κ δ → Program (Database κ δ) ε ρ}
      (h : Leads p (.write f next)) (db : Database κ δ) : Leads p (next db)
  | transact {body : Database κ δ → Except ε (Database κ δ)}
      {next : Except ε Unit → Program (Database κ δ) ε ρ} (h : Leads p (.transact body next))
      (result : Except ε Unit) : Leads p (next result)

/-- Which keys the program of a command owns, and what it keeps of their documents. -/
structure Ownership (κ : Type*) (δ : κ → Type*) (χ ε ρ : Type*) where
  owns : χ → Program (Database κ δ) ε ρ → κ → Prop
  quiet : ∀ k, δ k → Prop

namespace Ownership

variable (O : Ownership κ δ χ ε ρ)

/-- A document is as its owner wants it, or gone. -/
def Quiet (db : Database κ δ) (k : κ) : Prop := ∀ d, db.doc k = some d → O.quiet k d

/-- Programs come to own what they store under new keys, and leave it quiet while they own it. -/
structure Lawful (r : Runtime κ δ χ ε ρ) : Prop where
  serial : ∀ c p k, O.owns c p k → r.serial k = true
  start : ∀ c k, ¬ O.owns c (r.program c) k
  read : ∀ c next db k, (r.program c).Leads (.read next) → O.owns c (next db) k →
    O.owns c (.read next) k
  write : ∀ c f next db k, (r.program c).Leads (.write f next) → O.owns c (next db) k →
    O.owns c (.write f next) k ∧ (O.Quiet db k → O.Quiet (f db) k)
  fail : ∀ c body next error k, (r.program c).Leads (.transact body next) →
    O.owns c (next (.error error)) k → O.owns c (.transact body next) k
  commit : ∀ c body next db after k, (r.program c).Leads (.transact body next) →
    body db = .ok after → O.owns c (next (.ok ())) k →
    O.owns c (.transact body next) k ∧ (O.Quiet db k → O.Quiet after k) ∨
      db.doc k = none ∧ after.doc k ≠ none ∧ O.Quiet after k

/-- What an event attempts leaves the documents of others quiet. -/
def Respects (serial : κ → Bool) (w : World κ δ χ ε ρ) (e : Event χ) : Prop :=
  ∀ c snapshot after, w.attempt e = some (c, snapshot, after) →
    Committed.Since serial snapshot w.state ∧
    ∀ i p k, e = .advance i → (w.task i).program = some (c, p) → serial k = true →
      ¬ O.owns c p k → snapshot.db.doc k ≠ none → O.Quiet snapshot.db k → O.Quiet after k

/-- What programs own is quiet, and it has one owner. -/
structure Held (r : Runtime κ δ χ ε ρ) (w : World κ δ χ ε ρ) : Prop where
  leads : ∀ i c p, (w.task i).program = some (c, p) → (r.program c).Leads p
  owned : ∀ i c p k, (w.task i).program = some (c, p) → O.owns c p k →
    0 < w.state.revision k ∧ O.Quiet w.state.db k
  snapshot : ∀ i c moments s body next k, w.task i = .inside c moments s body next →
    O.owns c (.transact body next) k → O.Quiet s.db k
  unique : ∀ i j c d p q k, (w.task i).program = some (c, p) → (w.task j).program = some (d, q) →
    O.owns c p k → O.owns d q k → i = j

variable {O} {r : Runtime κ δ χ ε ρ}

/-- Before any task has started the ownership invariant holds. -/
theorem held_initial (c : Committed κ δ) : O.Held r (World.initial c : World κ δ χ ε ρ) where
  leads := fun _ _ _ h => by cases h
  owned := fun _ _ _ _ h => by cases h
  snapshot := fun _ _ _ _ _ _ _ h => by cases h
  unique := fun _ _ _ _ _ _ _ h => by cases h

variable [DecidableEq κ] [∀ k, DecidableEq (δ k)] {w : World κ δ χ ε ρ}

omit [DecidableEq κ] [∀ k, DecidableEq (δ k)] in
/-- A task that goes on without a commit owns no more than before. -/
theorem Held.setTask (h : O.Held r w) {i : ℕ} {c : χ} {p : Program (Database κ δ) ε ρ}
    {t : Task κ δ χ ε ρ} (ht : t.program = some (c, p)) (hleads : (r.program c).Leads p)
    (howns : ∀ k, O.owns c p k → ∃ q, (w.task i).program = some (c, q) ∧ O.owns c q k)
    (hsnapshot : ∀ c moments s body next k, t = .inside c moments s body next →
      O.owns c (.transact body next) k → O.Quiet s.db k) : O.Held r (w.setTask i t) := by
  -- Every task of the new world owns what it owned in the old one.
  have hback : ∀ {j d q}, ((w.setTask i t).task j).program = some (d, q) →
      (r.program d).Leads q ∧
        ∀ k, O.owns d q k → ∃ q', (w.task j).program = some (d, q') ∧ O.owns d q' k := by
    intro j d q hq
    by_cases hj : j = i
    · subst hj
      have hself : (w.setTask j t).task j = t := Function.update_self ..
      rw [hself, ht] at hq
      obtain ⟨rfl, rfl⟩ := Prod.mk.inj (Option.some.inj hq)
      exact ⟨hleads, howns⟩
    · have hother : (w.setTask i t).task j = w.task j := Function.update_of_ne hj ..
      rw [hother] at hq
      exact ⟨h.leads j d q hq, fun k hk => ⟨q, hq, hk⟩⟩
  refine ⟨fun j d q hq => (hback hq).1, fun j d q k hq hk => ?_,
    fun j d moments s body next k hj hk => ?_,
    fun j l d e q q' k hq hq' hk hk' => ?_⟩
  · obtain ⟨q', hq', hk'⟩ := (hback hq).2 k hk
    exact h.owned j d q' k hq' hk'
  · by_cases hji : j = i
    · subst hji
      have hself : (w.setTask j t).task j = t := Function.update_self ..
      exact hsnapshot d moments s body next k (hself.symm.trans hj) hk
    · have hother : (w.setTask i t).task j = w.task j := Function.update_of_ne hji ..
      exact h.snapshot j d moments s body next k (hother.symm.trans hj) hk
  · obtain ⟨p', hp', hown⟩ := (hback hq).2 k hk
    obtain ⟨p'', hp'', hown'⟩ := (hback hq').2 k hk'
    exact h.unique j l d e p' p'' k hp' hp'' hown hown'

/-- A commit that leaves a document quiet on its snapshot leaves it quiet. -/
theorem quiet_commit {snapshot current : Committed κ δ} {after : Database κ δ} {serial : κ → Bool}
    (hsince : Committed.Since serial snapshot current)
    (hfresh : Committed.Fresh snapshot current after)
    (hnew : Committed.NewKeys serial snapshot current after) {k : κ} (hserial : serial k = true)
    (hpos : 0 < current.revision k) (hquiet : O.Quiet current.db k)
    (hkeeps : snapshot.db.doc k ≠ none → O.Quiet snapshot.db k → O.Quiet after k) :
    0 < (snapshot.commit current after).revision k ∧
      O.Quiet (snapshot.commit current after).db k := by
  have hle : current.revision k ≤ (snapshot.commit current after).revision k := by
    change _ ≤ if after.doc k = snapshot.db.doc k then _ else _
    split <;> omega
  refine ⟨hpos.trans_le hle, fun d hd => ?_⟩
  by_cases hk : after.doc k = snapshot.db.doc k
  · exact hquiet d ((Database.doc_merge_same hk).symm.trans hd)
  · have hafter : after.doc k = some d := (Database.doc_merge_changed hk).symm.trans hd
    have hcurrent := hsince.unchanged hfresh hk
    refine hkeeps (fun hnone => ?_) (fun e he => hquiet e (hcurrent.trans he)) d hafter
    have hzero := hnew k hserial hnone (by rw [hafter]; exact Option.some_ne_none d)
    omega

/-- A commit moves on the program of the task that commits, and no other. -/
theorem program_commit {i : ℕ} {c : χ} {q : Program (Database κ δ) ε ρ}
    {moments : List (Database κ δ)} {snapshot : Committed κ δ} {after : Database κ δ} (j : ℕ) :
    (((w.setTask i (.running c moments q)).commit snapshot after).task j).program =
      if j = i then some (c, q) else (w.task j).program := by
  change ((Function.update w.task i (.running c moments q) j).observe _).program = _
  rw [Task.program_observe]
  by_cases hj : j = i
  · rw [hj, Function.update_self, if_pos rfl]
    rfl
  · rw [Function.update_of_ne hj, if_neg hj]

/-- A task that is inside a transaction after another one's commit was inside it before. -/
theorem inside_commit {i j : ℕ} {c d : χ} {q : Program (Database κ δ) ε ρ}
    {moments moments' : List (Database κ δ)} {snapshot s : Committed κ δ} {after : Database κ δ}
    {body : Database κ δ → Except ε (Database κ δ)}
    {next : Except ε Unit → Program (Database κ δ) ε ρ}
    (hj : ((w.setTask i (.running c moments q)).commit snapshot after).task j =
      .inside d moments' s body next) :
    ∃ moments'', w.task j = .inside d moments'' s body next := by
  change (Function.update w.task i (.running c moments q) j).observe _ = _ at hj
  by_cases hji : j = i
  · subst hji
    rw [Function.update_self] at hj
    cases hj
  · rw [Function.update_of_ne hji] at hj
    cases htask : w.task j with
    | inside d' moments'' s' body' next' =>
      rw [htask] at hj
      cases hj
      exact ⟨moments'', rfl⟩
    | _ =>
      rw [htask] at hj
      cases hj

/-- A task that commits keeps what it owned, or comes to own what it stores. -/
theorem Held.commit (hlawful : O.Lawful r) (h : O.Held r w) {i : ℕ} {c : χ}
    {p q : Program (Database κ δ) ε ρ} {moments : List (Database κ δ)} {snapshot : Committed κ δ}
    {after : Database κ δ} (htask : (w.task i).program = some (c, p))
    (hrespects : O.Respects r.serial w (.advance i))
    (hattempt : w.attempt (.advance i) = some (c, snapshot, after))
    (hfresh : Committed.Fresh snapshot w.state after)
    (hnew : Committed.NewKeys r.serial snapshot w.state after) (hleads : (r.program c).Leads q)
    (howns : ∀ k, O.owns c q k → O.owns c p k ∧ (O.Quiet snapshot.db k → O.Quiet after k) ∨
      snapshot.db.doc k = none ∧ after.doc k ≠ none ∧ O.Quiet after k) :
    O.Held r ((w.setTask i (.running c moments q)).commit snapshot after) := by
  obtain ⟨hsince, hothers⟩ := hrespects c snapshot after hattempt
  -- An owner after the commit was one before, or it commits and the document is new.
  have hback : ∀ {j d q' k},
      (((w.setTask i (.running c moments q)).commit snapshot after).task j).program =
        some (d, q') → O.owns d q' k →
      (∃ p', (w.task j).program = some (d, p') ∧ O.owns d p' k) ∨
        j = i ∧ w.state.revision k = 0 := by
    intro j d q' k hq hk
    rw [program_commit] at hq
    split at hq
    · next hj =>
      obtain ⟨rfl, rfl⟩ := Prod.mk.inj (Option.some.inj hq)
      rcases howns k hk with ⟨hown, -⟩ | ⟨hnone, hstored, -⟩
      · exact Or.inl ⟨p, hj ▸ htask, hown⟩
      · exact Or.inr ⟨hj, hnew k (hlawful.serial c q k hk) hnone hstored⟩
    · exact Or.inl ⟨q', hq, hk⟩
  refine ⟨fun j d q' hq => ?_, fun j d q' k hq hk => ?_, fun j d moments' s body next k hj hk => ?_,
    fun j l d e q' q'' k hq hq' hk hk' => ?_⟩
  · rw [program_commit] at hq
    split at hq
    · obtain ⟨rfl, rfl⟩ := Prod.mk.inj (Option.some.inj hq)
      exact hleads
    · exact h.leads j d q' hq
  · have hserial := hlawful.serial d q' k hk
    rw [program_commit] at hq
    split at hq
    · obtain ⟨rfl, rfl⟩ := Prod.mk.inj (Option.some.inj hq)
      rcases howns k hk with ⟨hown, hkeeps⟩ | ⟨hnone, hstored, hquiet⟩
      · obtain ⟨hpos, hcurrent⟩ := h.owned i c p k htask hown
        exact quiet_commit hsince hfresh hnew hserial hpos hcurrent fun _ => hkeeps
      · have hchanged : after.doc k ≠ snapshot.db.doc k := by rwa [hnone]
        have hrevision : (snapshot.commit w.state after).revision k = w.state.revision k + 1 :=
          if_neg hchanged
        refine ⟨(Nat.succ_pos _).trans_eq hrevision.symm, fun d hd => ?_⟩
        exact hquiet d ((Database.doc_merge_changed hchanged).symm.trans hd)
    · next hj =>
      obtain ⟨hpos, hcurrent⟩ := h.owned j d q' k hq hk
      have hother : ¬ O.owns c p k := fun hown => hj (h.unique _ i _ c _ p _ hq htask hk hown)
      exact quiet_commit hsince hfresh hnew hserial hpos hcurrent
        (hothers i p k rfl htask hserial hother)
  · obtain ⟨moments'', htask'⟩ := inside_commit hj
    exact h.snapshot j d moments'' s body next k htask' hk
  · rcases hback hq hk with ⟨p', hp', hown⟩ | ⟨hj, hzero⟩
    · rcases hback hq' hk' with ⟨p'', hp'', hown'⟩ | ⟨-, hzero'⟩
      · exact h.unique j l d e p' p'' k hp' hp'' hown hown'
      · exact absurd hzero' (h.owned j d p' k hp' hown).1.ne'
    · rcases hback hq' hk' with ⟨p'', hp'', hown'⟩ | ⟨hl, -⟩
      · exact absurd hzero (h.owned l e p'' k hp'' hown').1.ne'
      · exact hj.trans hl.symm

/-- Every step leaves owned documents quiet. -/
theorem Held.step (hlawful : O.Lawful r) (h : O.Held r w) {w' : World κ δ χ ε ρ} {e : Event χ}
    (hrespects : O.Respects r.serial w e) (hstep : w.step r e = some w') : O.Held r w' := by
  have hprogram : ∀ {i t c p}, w.task i = t → t.program = some (c, p) →
      (w.task i).program = some (c, p) := fun htask ht => htask ▸ ht
  cases World.steps_of_step hstep with
  | @start i c htask =>
    exact h.setTask rfl .refl (fun k hk => absurd hk (hlawful.start c k)) (by simp)
  | @read i c moments next htask =>
    have hp := hprogram htask rfl
    have hleads := h.leads i c _ hp
    exact h.setTask rfl (hleads.read _)
      (fun k hk => ⟨_, hp, hlawful.read c next _ k hleads hk⟩) (by simp)
  | @write i c moments f next htask hnew =>
    have hp := hprogram htask rfl
    have hleads := h.leads i c _ hp
    exact h.commit hlawful hp hrespects (World.attempt_write htask) (fun _ _ => rfl) hnew
      (hleads.write _) fun k hk => .inl (hlawful.write c f next _ k hleads hk)
  | @begin i c moments body next htask =>
    have hp := hprogram htask rfl
    refine h.setTask rfl (h.leads i c _ hp) (fun k hk => ⟨_, hp, hk⟩) ?_
    intro d moments' s body' next' k heq hk
    cases heq
    exact (h.owned i c _ k hp hk).2
  | @fail i c moments snapshot body next error htask hbody =>
    have hp := hprogram htask rfl
    have hleads := h.leads i c _ hp
    exact h.setTask rfl (hleads.transact _)
      (fun k hk => ⟨_, hp, hlawful.fail c body next error k hleads hk⟩) (by simp)
  | @commit i c moments snapshot body next after htask hbody hfresh hnew =>
    have hp := hprogram htask rfl
    have hleads := h.leads i c _ hp
    exact h.commit hlawful hp hrespects (World.attempt_commit htask hbody) hfresh hnew
      (hleads.transact _) fun k hk => hlawful.commit c body next _ after k hleads hbody hk
  | @retry i c moments snapshot body next htask =>
    have hp := hprogram htask rfl
    exact h.setTask rfl (h.leads i c _ hp) (fun k hk => ⟨_, hp, hk⟩) (by simp)
  | @duplicate i c moments snapshot body next after htask hbody htaken =>
    have hp := hprogram htask rfl
    have hleads := h.leads i c _ hp
    exact h.setTask rfl (hleads.transact _)
      (fun k hk => ⟨_, hp, hlawful.fail c body next _ k hleads hk⟩) (by simp)
  | @giveUp i c moments snapshot body next htask =>
    have hp := hprogram htask rfl
    have hleads := h.leads i c _ hp
    exact h.setTask rfl (hleads.transact _)
      (fun k hk => ⟨_, hp, hlawful.fail c body next _ k hleads hk⟩) (by simp)

end Ownership

end Ascendance.Core
