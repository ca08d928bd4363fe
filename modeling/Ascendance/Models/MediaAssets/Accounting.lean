import Ascendance.Models.MediaAssets.Safety

/-!
# No file is left behind

A stored file is in use, its cleanup is requested, or a command answers for it. Five things
lose files: a process that stops, an ambiguous commit, an upload or a deletion that fails, and
two updates of one profile at once.
-/

namespace Ascendance.MediaAssets

open Ascendance.Core

open UnitOfWork (Consistent Definite)

/-- The files that a command answers for: after the commit also the old one of a profile. -/
def Task.holdings (t : Task) : List Asset :=
  t.pending ++ t.condemned ++ if t.committed then t.old.toList else []

/-- A stored file is in use, on its way to be deleted, or held by a task. -/
inductive Accounted (s : System) (a : Asset) : Prop
  | used (h : s.db.Refers a)
  | requested (h : a ∈ s.db.outbox)
  | held {i : ℕ} {t : Task} (hi : s.tasks[i]? = some t) (h : a ∈ t.holdings)

/-- The profile is as the command has read it. -/
def Task.UpToDate (t : Task) (db : Database) : Prop :=
  ∀ slot ∈ t.command.replaces, slot.owner ∈ db.documents ∧ db.media slot = t.old

instance (t : Task) (db : Database) : Decidable (t.UpToDate db) :=
  inferInstanceAs (Decidable (∀ slot ∈ t.command.replaces, _))

/-- The steps that lose no file. -/
def Tidy (s : System) : Event → Prop
  | .uploadFails _ stored => stored = false
  | .transaction i event => ∀ t ∈ s.tasks[i]?, ∀ call ∈ t.stage.call?,
      Consistent call event ∧ Definite call event ∧
      (call.takesEffect event = true → t.UpToDate s.db) ∧
      ∀ call' ∈ call.next event, call'.inDoubt = false
  | .deleteImage i ok => ok = true ∨ ∀ t ∈ s.tasks[i]?, t.stage.queued = true
  | .deleteOld _ ok => ok = true
  | .crash i => ∀ t ∈ s.tasks[i]?, t.holdings = []
  | _ => True

instance (s : System) (e : Event) : Decidable (Tidy s e) := by
  cases e
  case uploadFails => exact inferInstanceAs (Decidable (_ = _))
  case transaction => exact inferInstanceAs (Decidable (∀ t ∈ s.tasks[_]?, _))
  case deleteImage => exact inferInstanceAs (Decidable (_ ∨ _))
  case deleteOld => exact inferInstanceAs (Decidable (_ = _))
  case crash => exact inferInstanceAs (Decidable (∀ t ∈ s.tasks[_]?, _))
  all_goals exact isTrue trivial

theorem Tidy.regular {s : System} {e : Event} (h : Tidy s e) : Regular s e := by
  cases e with
  | transaction i event =>
    intro t hi call hcall
    obtain ⟨hconsistent, hdefinite, -⟩ := h t hi call hcall
    exact ⟨hconsistent, hdefinite⟩
  | _ => trivial

private theorem Settled.weaken {staged : List (Slot × Asset)} {db db' : Database}
    (except : Option Asset)
    (h : Settled staged none db db') : Settled staged except db db' where
  placed := h.placed
  kept slot a hs := (h.kept slot a hs).imp id (Or.imp id nofun)
  requests := h.requests

/-- The transaction of a command loses no file but the old one of a profile. -/
theorem Task.Formed.settled {t : Task} (ht : t.Formed) {db db' : Database}
    (hlen : t.command.uploads.length ≤ t.staged.length) (hdb : db.Sound)
    (hnew : ∀ slot a, (slot, a) ∈ t.staged → ¬ db.Refers a) (hcurrent : t.UpToDate db)
    (h : t.command.write t.staged db = some db') : Settled t.staged t.old db db' := by
  cases hreplaces : t.command.replaces with
  | none =>
    exact ((Command.write_spec ht.staged ht.assets hdb hnew h).2 hreplaces).weaken t.old
  | some slot =>
    obtain ⟨user, howner, huploads, hwrite⟩ := Command.profile_of_replaces hreplaces
    obtain ⟨a, hstaged⟩ := ht.staged.single huploads hlen
    obtain rfl := Option.some.inj ((hwrite _ _).symm.trans h)
    obtain ⟨hin, hold⟩ := hcurrent slot hreplaces
    rw [howner] at hin
    rw [hstaged]
    exact updateProfile_settled hin hold

/-- What holds in every state: the invariant, and every stored file is accounted for. -/
structure Books (s : System) : Prop where
  inv : Inv s
  accounted : ∀ a ∈ s.stored, Accounted s a
  queued : ∀ (i : ℕ) t a rest, s.tasks[i]? = some t → t.stage = .deleting a true rest →
    a ∈ s.stored → a ∈ s.db.outbox

namespace Task

private theorem condemned_nil {t : Task} (hu : t.undecided = true) : t.condemned = [] := by
  unfold undecided at hu
  unfold condemned
  split <;> simp_all

private theorem committed_eq_false {t : Task} (hu : t.undecided = false) : t.committed = false := by
  unfold undecided at hu
  unfold committed
  split <;> simp_all

/-- What a command holds: pending files, files it is to delete, and the old one after its commit. -/
private theorem mem_holdings {t : Task} {a : Asset} :
    a ∈ t.holdings ↔ a ∈ t.pending ∨ a ∈ t.condemned ∨ (t.committed = true ∧ t.old = some a) := by
  unfold holdings
  rw [List.mem_append, List.mem_append, or_assoc]
  cases t.committed <;> simp

/-- Before its commit a command holds its staged files. -/
private theorem mem_staged_of_holdings {t : Task} {a : Asset} (h : a ∈ t.holdings)
    (hu : t.undecided = true) (hc : t.committed = false) : a ∈ t.staged.map Prod.snd := by
  rcases mem_holdings.mp h with h | h | ⟨hcommitted, -⟩
  · exact (mem_pending h).1
  · rw [condemned_nil hu] at h
    cases h
  · exact absurd (hcommitted.symm.trans hc) (by decide)

/-- After its transaction a command holds what it is about to delete. -/
theorem mem_condemned_of_holdings {t : Task} {a : Asset} (h : a ∈ t.holdings)
    (hu : t.undecided = false) : a ∈ t.condemned := by
  rcases mem_holdings.mp h with h | h | ⟨hcommitted, -⟩
  · rw [pending_nil (Or.inl hu)] at h
    cases h
  · exact h
  · exact absurd (hcommitted.symm.trans (committed_eq_false hu)) (by decide)

private theorem holdings_of_pending {t : Task} {a : Asset} (h : a ∈ t.pending) : a ∈ t.holdings :=
  mem_holdings.mpr (Or.inl h)

private theorem holdings_of_condemned {t : Task} {a : Asset} (h : a ∈ t.condemned) :
    a ∈ t.holdings :=
  mem_holdings.mpr (Or.inr (Or.inl h))

private theorem holdings_of_old {t : Task} {a : Asset} (hc : t.committed = true)
    (h : t.old = some a) :
    a ∈ t.holdings :=
  mem_holdings.mpr (Or.inr (Or.inr ⟨hc, h⟩))

private theorem not_deleting_of_undecided {t : Task} (hu : t.undecided = true) (a : Asset)
    (queued : Bool)
    (rest : List Asset) : t.stage ≠ .deleting a queued rest := by
  intro h
  simp [undecided, h] at hu

end Task

section Steps

variable {s s' : System} {i : ℕ} {t : Task}

/-- A step of one task. -/
theorem Books.setTask (h : Books s) (s' : System) {t' : Task} (hinv : Inv (s'.setTask i t'))
    (hi : s.tasks[i]? = some t) (htasks : s'.tasks = s.tasks)
    (hstored : ∀ a ∈ s'.stored, a ∈ s.stored ∨ (s.next ≤ a ∧ a ∈ t'.holdings))
    (hused : ∀ a, s.db.Refers a → s'.db.Refers a ∨ a ∈ s'.db.outbox ∨ a ∈ t'.holdings)
    (hrequested : ∀ a ∈ s.db.outbox, a ∈ s'.db.outbox)
    (hheld : ∀ a ∈ s'.stored, a ∈ t.holdings → s'.db.Refers a ∨ a ∈ s'.db.outbox ∨ a ∈ t'.holdings)
    (hqueued : ∀ a rest, t'.stage = .deleting a true rest → a ∈ s'.stored → a ∈ s'.db.outbox) :
    Books (s'.setTask i t') := by
  have hself : (s'.setTask i t').tasks[i]? = some t' :=
    System.getElem?_setTask_self (htasks ▸ hi)
  have hfind :
      ∀ a, s'.db.Refers a ∨ a ∈ s'.db.outbox ∨ a ∈ t'.holdings → Accounted (s'.setTask i t') a := by
    rintro a (ha | ha | ha)
    · exact .used ha
    · exact .requested ha
    · exact .held hself ha
  refine ⟨hinv, fun a ha => ?_, fun j u a rest hj hstage ha => ?_⟩
  · rcases hstored a ha with hold | ⟨-, hholds⟩
    · cases h.accounted a hold with
      | used hrefers => exact hfind a (hused a hrefers)
      | requested hout => exact .requested (hrequested a hout)
      | @held j u hj hholds =>
        by_cases hji : j = i
        · subst hji
          obtain rfl := Option.some.inj (hi.symm.trans hj)
          exact hfind a (hheld a ha hholds)
        · refine .held (i := j) ?_ hholds
          rw [System.getElem?_setTask_ne hji, htasks]
          exact hj
    · exact .held hself hholds
  · by_cases hji : j = i
    · subst hji
      obtain rfl := Option.some.inj (hself.symm.trans hj)
      exact hqueued a rest hstage ha
    · rw [System.getElem?_setTask_ne hji, htasks] at hj
      refine hrequested a (h.queued j u a rest hj hstage ?_)
      refine (hstored a ha).resolve_right fun hnew => ?_
      have hmem : a ∈ u.condemned := by simp [Task.condemned, hstage]
      exact absurd (h.inv.condemned j u hj a hmem).known (not_lt.mpr hnew.1)

/-- Starting a command keeps the books. -/
theorem Books.start (h : Books s) (command : Command) : Books { s with tasks := s.tasks ++
    [Task.advance ⟨command, command.replaces.bind s.db.media, [], .uploading⟩] } := by
  refine ⟨h.inv.start command, fun a ha => ?_, fun j u a rest hj hstage ha => ?_⟩
  · cases h.accounted a ha with
    | used hrefers => exact .used hrefers
    | requested hout => exact .requested hout
    | @held j u hj hholds =>
      refine .held (i := j) ?_ hholds
      exact (List.getElem?_append_left (List.getElem?_eq_some_iff.mp hj).1).trans hj
  · by_cases hlt : j < s.tasks.length
    · exact h.queued j u a rest ((List.getElem?_append_left hlt).symm.trans hj) hstage ha
    · have hj' : j = s.tasks.length := by
        have hbound := (List.getElem?_eq_some_iff.mp hj).1
        rw [List.length_append, List.length_singleton] at hbound
        omega
      subst hj'
      obtain rfl := Option.some.inj (List.getElem?_concat_length.symm.trans hj)
      exact absurd hstage (Task.not_deleting_of_undecided (Task.advance_undecided _) _ _ _)

/-- A step inside the transaction keeps the books. -/
theorem Books.proceed (h : Books s) (hi : s.tasks[i]? = some t) {call call' : UnitOfWork.Call Unit}
    {event : UnitOfWork.Event Unit} {db : Database} (hstage : t.stage = .transacting call)
    (hbody : event.endsBody = false) (hnext : call.next event = some call')
    (hdb : (if call.takesEffect event then t.command.write t.staged s.db else some s.db) = some db)
    (hconsistent : Consistent call event) (hdefinite : Definite call event)
    (hcurrent : call.takesEffect event = true → t.UpToDate s.db) :
    Books ({ s with db := db }.setTask i { t with stage := .transacting call' }) := by
  have hinv := h.inv.proceed hi hstage hbody hnext hdb hconsistent hdefinite
  have hformed := h.inv.formed i t hi
  obtain ⟨hclean, -, hlen⟩ := hformed.call call hstage
  have hcommitted : Task.committed { t with stage := .transacting call' } =
      (call.latest.committed || call.takesEffect event) :=
    UnitOfWork.Call.committed_next hclean ⟨hconsistent, hnext⟩ hdefinite hbody
  have hundecided : t.undecided = true := by simp only [Task.undecided, hstage]
  have hbefore : t.committed = call.latest.committed := by simp only [Task.committed, hstage]
  cases heffect : call.takesEffect event with
  | false =>
    rw [heffect, Bool.or_false, ← hbefore] at hcommitted
    rw [heffect, if_neg Bool.false_ne_true] at hdb
    obtain rfl := Option.some.inj hdb
    refine h.setTask s hinv hi rfl (fun a ha => Or.inl ha) (fun a ha => Or.inl ha)
      (fun a ha => ha) (fun a _ hholds => Or.inr (Or.inr ?_))
        fun _ _ hdeleting => by cases hdeleting
    cases hc : t.committed with
    | false =>
      have hmem := Task.mem_staged_of_holdings hholds hundecided hc
      refine Task.holdings_of_pending ?_
      rw [Task.pending_eq rfl (hcommitted.trans hc)]
      exact hmem
    | true =>
      rcases Task.mem_holdings.mp hholds with hp | hcond | ⟨-, hold⟩
      · exact absurd ((Task.mem_pending hp).2.symm.trans hc) (by decide)
      · simp [Task.condemned, hstage] at hcond
      · exact Task.holdings_of_old (hcommitted.trans hc) hold
  | true =>
    rw [heffect, if_pos rfl] at hdb
    rw [heffect, Bool.or_true] at hcommitted
    have hnot : t.committed = false := by
      rw [hbefore]
      exact UnitOfWork.Call.committed_of_takesEffect heffect
    have hnew : ∀ slot a, (slot, a) ∈ t.staged → ¬ s.db.Refers a := fun slot a hmem => by
      refine (h.inv.claimed i t hi a ?_).2
      rw [Task.pending_eq hundecided hnot]
      exact List.mem_map.mpr ⟨(slot, a), hmem, rfl⟩
    have hsettled := hformed.settled hlen h.inv.sound hnew (hcurrent heffect) hdb
    refine h.setTask ({ s with db := db }) hinv hi rfl (fun a ha => Or.inl ha)
      (fun a hrefers => ?_) hsettled.requests (fun a _ hholds => Or.inl ?_)
        fun _ _ hdeleting => by cases hdeleting
    · obtain ⟨slot, hs⟩ := hrefers
      exact (hsettled.kept slot a hs).imp id
        (Or.imp id fun hold => Task.holdings_of_old hcommitted hold)
    · obtain ⟨⟨slot, b⟩, hmem, rfl⟩ :=
        List.mem_map.mp (Task.mem_staged_of_holdings hholds hundecided hnot)
      exact ⟨slot, hsettled.placed slot b hmem⟩

/-- What a command holds at the end of its transaction it goes on to delete, unless it has placed it
or the outcome is ambiguous. -/
theorem Books.settle (h : Books s) (hi : s.tasks[i]? = some t) {call : UnitOfWork.Call Unit}
    (hstage : t.stage = .transacting call)
    (hclear : call.inDoubt = false) : Books (s.setTask i (t.afterCall call)) := by
  have hinv := h.inv.settle hi hstage
  obtain ⟨hclean, huntouched, -⟩ := (h.inv.formed i t hi).call call hstage
  have hundecided : t.undecided = true := by simp only [Task.undecided, hstage]
  have hcommitted : t.committed = call.latest.committed := by simp only [Task.committed, hstage]
  refine h.setTask s hinv hi rfl (fun a ha => Or.inl ha) (fun a ha => Or.inl ha) (fun a ha => ha)
    (fun a _ hholds => Or.inr (Or.inr ?_)) fun a rest hdeleting => ?_
  · unfold Task.afterCall
    split
    · next value hphase =>
      have hdone := UnitOfWork.Call.committed_of_resolved hclean huntouched hphase
      rcases Task.mem_holdings.mp hholds with hp | hcond | ⟨-, hold⟩
      · exact absurd ((Task.mem_pending hp).2.symm.trans (hcommitted.trans hdone)) (by decide)
      · simp [Task.condemned, hstage] at hcond
      · exact Task.holdings_of_condemned (by simp [Task.condemned, hold])
    · next error hphase =>
      simp only [UnitOfWork.Call.inDoubt, hphase] at hclear
      have hnot := UnitOfWork.Call.committed_of_rejected hclean hphase hclear
      rw [if_neg (by simp [hclear])]
      refine Task.holdings_of_condemned ?_
      rw [Task.cleanUp_condemned]
      exact Task.mem_staged_of_holdings hholds hundecided (hcommitted.trans hnot)
    · have hsame : { t with stage := .transacting call } = t := by rw [← hstage]
      rw [hsame]
      exact hholds
  · -- A cleanup starts with a file that is not queued.
    unfold Task.afterCall at hdeleting
    split at hdeleting
    · split at hdeleting <;> cases hdeleting
    · split at hdeleting
      · cases hdeleting
      · exact absurd hdeleting (t.cleanUp_not_queued _ _ _)
    · cases hdeleting

/-- An uploaded file is pending. -/
theorem Books.upload (h : Books s) {slot : Asset → Slot} (hi : s.tasks[i]? = some t)
    (hstage : t.stage = .uploading)
    (hinv : Inv (s.store.setTask i
      (Task.advance { t with staged := t.staged ++ [(slot s.next, s.next)] }))) :
    Books (s.store.setTask i
      (Task.advance { t with staged := t.staged ++ [(slot s.next, s.next)] })) := by
  have hpending : ∀ a ∈ t.staged.map Prod.snd, a ∈ Task.holdings (Task.advance { t with
      staged := t.staged ++ [(slot s.next, s.next)] }) := fun a ha => by
    refine Task.holdings_of_pending ?_
    rw [Task.advance_pending, List.map_append]
    exact List.mem_append_left _ ha
  refine h.setTask (s.store) hinv hi rfl (fun a ha => ?_) (fun a ha => Or.inl ha)
    (fun a ha => ha) (fun a _ hholds => Or.inr (Or.inr (hpending a ?_))) fun a rest hdeleting => ?_
  · refine (Finset.mem_insert.mp ha).symm.imp id ?_
    rintro rfl
    refine ⟨le_rfl, Task.holdings_of_pending ?_⟩
    rw [Task.advance_pending, List.map_append]
    exact List.mem_append_right _ (List.mem_singleton_self _)
  · exact Task.mem_staged_of_holdings hholds (by simp [Task.undecided, hstage])
      (by simp [Task.committed, hstage])
  · exact absurd hdeleting (Task.not_deleting_of_undecided (Task.advance_undecided _) _ _ _)

/-- Once its request is stored a file may be deleted. -/
theorem Books.queueDurable (h : Books s) {a : Asset} {rest : List Asset} (ok : Bool)
    (hi : s.tasks[i]? = some t) (hstage : t.stage = .queueing a rest)
    (hinv : Inv ((if ok then s.request a else s).setTask i
      { t with stage := .deleting a ok rest })) :
    Books ((if ok then s.request a else s).setTask i { t with stage := .deleting a ok rest }) := by
  have hholds : ∀ b, b ∈ t.holdings → b ∈ Task.holdings { t with stage := .deleting a ok rest } :=
    fun b hb => Task.holdings_of_condemned (by
      have hmem := Task.mem_condemned_of_holdings hb (by simp [Task.undecided, hstage])
      simpa [Task.condemned, hstage] using hmem)
  cases ok with
  | false =>
    exact h.setTask s hinv hi rfl (fun b hb => Or.inl hb) (fun b hb => Or.inl hb)
      (fun b hb => hb) (fun b _ hb => Or.inr (Or.inr (hholds b hb)))
      fun _ _ hdeleting => by cases hdeleting
  | true =>
    refine h.setTask (s.request a) hinv hi rfl (fun b hb => Or.inl hb)
      (fun b hb => Or.inl hb) (fun b hb => List.mem_append_left _ hb)
      (fun b _ hb => Or.inr (Or.inr (hholds b hb))) fun b rest' hdeleting _ => ?_
    obtain ⟨rfl, -⟩ := Stage.deleting.inj hdeleting
    exact List.mem_append_right _ (List.mem_singleton_self _)

/-- A file whose deletion fails is still requested when its request was stored. -/
theorem Books.deleteImage (h : Books s) {a : Asset} {queued : Bool} {rest : List Asset} (ok : Bool)
    (hi : s.tasks[i]? = some t) (hstage : t.stage = .deleting a queued rest)
    (hqueued : ok = true ∨ queued = true)
    (hinv : Inv ((if ok then s.discard a else s).setTask i (t.cleanUp rest))) :
    Books ((if ok then s.discard a else s).setTask i (t.cleanUp rest)) := by
  have hholds : ∀ b, b ≠ a → b ∈ t.holdings → b ∈ (t.cleanUp rest).holdings := fun b hne hb => by
    have hmem := Task.mem_condemned_of_holdings hb (by simp [Task.undecided, hstage])
    simp only [Task.condemned, hstage] at hmem
    refine Task.holdings_of_condemned ?_
    rw [Task.cleanUp_condemned]
    exact (List.mem_cons.mp hmem).resolve_left hne
  have hnone : ∀ (s'' : System) b rest', (t.cleanUp rest).stage = .deleting b true rest' →
      b ∈ s''.stored → b ∈ s''.db.outbox :=
    fun _ b rest' hdeleting => absurd hdeleting (t.cleanUp_not_queued _ _ _)
  cases ok with
  | false =>
    refine h.setTask s hinv hi rfl (fun b hb => Or.inl hb) (fun b hb => Or.inl hb)
      (fun b hb => hb) (fun b hstored hb => Or.inr ?_) (hnone s)
    by_cases hba : b = a
    · subst hba
      obtain rfl := hqueued.resolve_left Bool.false_ne_true
      exact Or.inl (h.queued i t b rest hi hstage hstored)
    · exact Or.inr (hholds b hba hb)
  | true =>
    exact h.setTask (s.discard a) hinv hi rfl
      (fun b hb => Or.inl (Finset.mem_of_mem_erase hb)) (fun b hb => Or.inl hb) (fun b hb => hb)
      (fun b hstored hb => Or.inr (Or.inr (hholds b (Finset.ne_of_mem_erase hstored) hb)))
      (hnone (s.discard a))

/-- The worker takes a request away with its file only. -/
theorem Books.cleanup (h : Books s) {a : Asset} (acknowledged : Bool)
    (hinv : Inv (if acknowledged then
      { s.discard a with db := { s.db with outbox := s.db.outbox.erase a } } else s.discard a)) :
    Books (if acknowledged then
      { s.discard a with db := { s.db with outbox := s.db.outbox.erase a } } else s.discard a) := by
  have herased : ∀ b ∈ s.stored.erase a, b ≠ a ∧ b ∈ s.stored := fun b hb =>
    Finset.mem_erase.mp hb
  cases acknowledged with
  | false =>
    refine ⟨hinv, fun b hb => ?_, fun j u b rest hj hstage hb =>
      h.queued j u b rest hj hstage (herased b hb).2⟩
    cases h.accounted b (herased b hb).2 with
    | used hrefers => exact .used hrefers
    | requested hout => exact .requested hout
    | held hi hholds => exact .held hi hholds
  | true =>
    refine ⟨hinv, fun b hb => ?_, fun j u b rest hj hstage hb => ?_⟩
    · cases h.accounted b (herased b hb).2 with
      | used hrefers => exact .used hrefers
      | requested hout => exact .requested ((List.mem_erase_of_ne (herased b hb).1).mpr hout)
      | held hi hholds => exact .held hi hholds
    · refine (List.mem_erase_of_ne (herased b hb).1).mpr ?_
      exact h.queued j u b rest hj hstage (herased b hb).2

end Steps

/-- A tidy event keeps the books. -/
theorem Books.step {s s' : System} {e : Event} (h : Books s) (htidy : Tidy s e)
    (hstep : s.step e = some s') : Books s' := by
  have hinv := h.inv.step htidy.regular hstep
  cases System.steps_of_step hstep with
  | register =>
    refine ⟨hinv, fun a ha => ?_, h.queued⟩
    cases h.accounted a ha with
    | used hrefers => exact .used hrefers
    | requested hout => exact .requested hout
    | held hi hholds => exact .held hi hholds
  | start => exact h.start _
  | upload hi hstage hslot => exact h.upload hi hstage hinv
  | @uploadFails i t stored hi hstage =>
    obtain rfl : stored = false := htidy
    refine h.setTask s hinv hi rfl (fun a ha => Or.inl ha) (fun a ha => Or.inl ha)
      (fun a ha => ha) (fun a _ hholds => Or.inr (Or.inr (Task.holdings_of_condemned ?_)))
      fun a rest hdeleting => absurd hdeleting (t.cleanUp_not_queued _ _ _)
    rw [Task.cleanUp_condemned]
    exact Task.mem_staged_of_holdings hholds (by simp [Task.undecided, hstage])
      (by simp [Task.committed, hstage])
  | @transaction i t call call' event db hi hstage hbody hnext hdb =>
    obtain ⟨hconsistent, hdefinite, hcurrent, hclear⟩ :=
      htidy t hi call (Stage.call?_eq hstage)
    have hproceed := h.proceed hi hstage hbody hnext hdb hconsistent hdefinite hcurrent
    have hsettle := hproceed.settle (t := { t with stage := .transacting call' })
      (System.getElem?_setTask_self (s := { s with db := db }) hi) rfl
      (hclear call' hnext)
    rw [afterCall_stage] at hsettle
    simpa only [System.setTask, List.set_set] using hsettle
  | queueDurable ok hi hstage => exact h.queueDurable ok hi hstage hinv
  | @deleteImage i t a queued rest ok hi hstage =>
    refine h.deleteImage ok hi hstage (htidy.imp id fun hqueued => ?_) hinv
    simpa only [hstage, Stage.queued] using hqueued t hi
  | @deleteOld i t a ok hi hstage =>
    obtain rfl : ok = true := htidy
    refine h.setTask (s.discard a) hinv hi rfl
      (fun b hb => Or.inl (Finset.mem_of_mem_erase hb)) (fun b hb => Or.inl hb) (fun b hb => hb)
      (fun b hstored hb => ?_)
        fun _ _ hdeleting => by cases hdeleting
    have hmem := Task.mem_condemned_of_holdings hb (by simp [Task.undecided, hstage])
    simp only [Task.condemned, hstage] at hmem
    exact absurd (List.mem_singleton.mp hmem) (Finset.ne_of_mem_erase hstored)
  | @crash i t hi =>
    exact h.setTask s hinv hi rfl (fun b hb => Or.inl hb) (fun b hb => Or.inl hb)
      (fun b hb => hb) (fun b _ hb => absurd (htidy t hi ▸ hb) List.not_mem_nil)
        fun _ _ hdeleting => by cases hdeleting
  | cleanup acknowledged ha => exact h.cleanup acknowledged hinv

private theorem books_initial : Books .initial where
  inv := inv_initial
  accounted a ha := absurd ha (Finset.notMem_empty a)
  queued i t a rest hi := by simp [System.initial] at hi

/-- Every tidy run keeps the books. -/
private theorem books_run {es : List Event} {s : System}
    (hrun : Run (Restrict (Graph System.step) Tidy) .initial es s) : Books s :=
  hrun.invariant (fun _ _ _ h hstep => h.step hstep.1 hstep.2) books_initial

/-- No command is under way, and the worker has nothing to do. -/
structure System.AtRest (s : System) : Prop where
  done : ∀ t ∈ s.tasks, t.stage.isDone = true
  processed : s.db.outbox = []

/-- In every tidy run every stored file is accounted for; and when the system is at rest, just the
files are stored that an image record, a user or a community uses. -/
theorem media_accounted {es : List Event} {s : System}
    (hrun : Run (Restrict (Graph System.step) Tidy) .initial es s) :
    (∀ a ∈ s.stored, Accounted s a) ∧ (s.AtRest → ∀ a, a ∈ s.stored ↔ s.db.Refers a) := by
  have h := books_run hrun
  refine ⟨h.accounted, fun hrest a => ⟨fun ha => ?_, h.inv.used a⟩⟩
  cases h.accounted a ha with
  | used hrefers => exact hrefers
  | requested hout =>
    rw [hrest.processed] at hout
    cases hout
  | @held i t hi hholds =>
    have hdone := Stage.eq_done (hrest.done t (List.mem_of_getElem? hi))
    have hmem := Task.mem_condemned_of_holdings hholds (by simp [Task.undecided, hdone])
    simp [Task.condemned, hdone] at hmem

/-- A transaction that is committed at once, or whose body throws. -/
def transactionOf (task : ℕ) (ok : Bool) : List Event :=
  let events : List (UnitOfWork.Event Unit) :=
    if ok then [.sessionStarts, .transactionStarts, .bodyReturns (), .commits, .sessionEnds]
    else
      [.sessionStarts, .transactionStarts, .bodyThrows UnitOfWork.plainError, .aborts, .sessionEnds]
  events.map (.transaction task)

/-- A community replaces its avatar and fails to replace it once more, and a user replaces hers. The
file of the failed update is deleted by the worker, since the first try to delete it fails. -/
def threeUpdates : List Event :=
  [.register 1, .start (.createCommunity 7 true), .upload 0] ++ transactionOf 0 true ++
    [.start (.updateCommunity 7 true true), .upload 1, .upload 1] ++ transactionOf 1 true ++
    [.start (.updateCommunity 7 true false), .upload 2] ++ transactionOf 2 false ++
    [.queueDurable 2 true, .deleteImage 2 false, .cleanup 0 false, .cleanup 0 true, .cleanup 3 true,
      .start (.updateAvatar 1), .upload 3] ++ transactionOf 3 true ++
    [.start (.updateAvatar 1), .upload 4] ++ transactionOf 4 true ++ [.deleteOld 4 true]

/-- After three updates the stored files are those in use. -/
theorem media_accounted_threeUpdates : ∃ s : System, s.AtRest ∧
    ∀ a, a ∈ s.stored ↔ s.db.Refers a := by
  obtain ⟨s, hs, hrest⟩ := (Option.any_eq_true _ _).mp (by decide +kernel :
    (exec
      (fun s e => if decide (Tidy s e) then System.step s e else none) .initial threeUpdates).any
      (fun s => decide ((∀ t ∈ s.tasks, t.stage.isDone = true) ∧ s.db.outbox = [])) = true)
  obtain ⟨hdone, hprocessed⟩ := of_decide_eq_true hrest
  have hatRest : s.AtRest := ⟨hdone, hprocessed⟩
  exact ⟨s, hatRest, (media_accounted (exec_restrict (fun _ _ => of_decide_eq_true) hs)).2 hatRest⟩

end Ascendance.MediaAssets
