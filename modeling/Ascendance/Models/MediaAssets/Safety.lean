import Ascendance.Models.MediaAssets.Commands

/-!
# Files in use are stored

A file is staged by one command, comes into use with its transaction and is let go at most
once. What the commands and the worker delete has been let go, or was never in use, and does
not come back.
-/

namespace Ascendance.MediaAssets

open Ascendance.Core

open UnitOfWork (Answered Consistent Definite Clean)

/-- The staged files are the first uploads of the command. -/
def Staged (command : Command) (staged : List (Slot × Asset)) : Prop :=
  ∀ (k : ℕ) slot a, staged[k]? = some (slot, a) → ∃ f, command.uploads[k]? = some f ∧ slot = f a

section Staged

variable {command : Command} {staged : List (Slot × Asset)} {slot : Slot} {a : Asset}

/-- Before the first upload nothing is staged. -/
theorem Staged.nil : Staged command [] := fun _ _ _ h => by cases h

/-- The next upload is staged for its slot. -/
theorem Staged.concat (h : Staged command staged) {f : Asset → Slot}
    (hf : command.uploads[staged.length]? = some f) : Staged command (staged ++ [(f a, a)]) := by
  intro k slot b hk
  rcases Nat.lt_or_ge k staged.length with hlt | hge
  · rw [List.getElem?_append_left hlt] at hk
    exact h k slot b hk
  · rw [List.getElem?_append_right hge] at hk
    obtain ⟨hzero, hpair⟩ := List.getElem?_eq_some_iff.mp hk
    have hk' : k = staged.length := by
      rw [List.length_singleton] at hzero
      omega
    subst hk'
    rw [List.getElem_singleton, Prod.mk.injEq] at hpair
    obtain ⟨rfl, rfl⟩ := hpair
    exact ⟨f, hf, rfl⟩

/-- What is staged is for a slot of the command. -/
theorem Staged.mem (h : Staged command staged) (hmem : (slot, a) ∈ staged) :
    ∃ f ∈ command.uploads, slot = f a := by
  obtain ⟨k, hk⟩ := List.getElem?_of_mem hmem
  obtain ⟨f, hf, hslot⟩ := h k slot a hk
  exact ⟨f, List.mem_of_getElem? hf, hslot⟩

/-- Two uploads of a command are for different slots. -/
theorem Command.uploads_apart {i j : ℕ} (hij : i < j) {f g : Asset → Slot}
    (hi : command.uploads[i]? = some f) (hj : command.uploads[j]? = some g) (a b : Asset) :
    f a ≠ g b := by
  have hlen := (List.getElem?_eq_some_iff.mp hj).1
  cases command with
  | updateCommunity community avatar coverPhoto =>
    match avatar, coverPhoto with
    | true, true =>
      have hlen' : j < 2 := hlen
      obtain rfl : j = 1 := by omega
      obtain rfl : i = 0 := by omega
      obtain rfl := Option.some.inj hi
      obtain rfl := Option.some.inj hj
      simp
    | true, false | false, true =>
      have hlen' : j < 1 := hlen
      omega
    | false, false => cases hlen
  | createCommunity community avatar =>
    have hlen' : j < 1 := by
      cases avatar with
      | true => exact hlen
      | false => cases hlen
    omega
  | remove documents cleared => cases hlen
  | _ =>
    have hlen' : j < 1 := hlen
    omega

/-- Files that are distinct are staged for distinct slots. -/
theorem Staged.apart (h : Staged command staged) (hassets : (staged.map Prod.snd).Nodup) :
    Apart staged := by
  refine ⟨?_, hassets⟩
  rw [List.nodup_iff_getElem?_ne_getElem?]
  intro i j hij hj heq
  rw [List.length_map] at hj
  have hi := hij.trans hj
  rw [List.getElem?_map, List.getElem?_map, List.getElem?_eq_getElem hi,
    List.getElem?_eq_getElem hj] at heq
  obtain ⟨f, hf, hfi⟩ := h i _ _ (List.getElem?_eq_getElem hi)
  obtain ⟨g, hg, hgj⟩ := h j _ _ (List.getElem?_eq_getElem hj)
  have hslots : staged[i].1 = staged[j].1 := Option.some.inj heq
  exact Command.uploads_apart hij hf hg staged[i].2 staged[j].2 (hfi.symm.trans (hslots.trans hgj))

/-- What the transaction of a command does. -/
theorem Command.write_spec {db db' : Database} (hfor : Staged command staged)
    (hassets : (staged.map Prod.snd).Nodup) (hdb : db.Sound)
    (hnew : ∀ slot a, (slot, a) ∈ staged → ¬ db.Refers a)
    (h : command.write staged db = some db') :
    Wrote staged db db' ∧ (command.replaces = none → Settled staged none db db') := by
  have hapart := hfor.apart hassets
  have howner : ∀ owner, (∀ f ∈ command.uploads, ∀ a, (f a).owner = owner) →
      ∀ slot a, (slot, a) ∈ staged → slot.owner = owner := by
    intro owner huploads slot a hmem
    obtain ⟨f, hf, rfl⟩ := hfor.mem hmem
    exact huploads f hf a
  cases command with
  | attach =>
    have hwrote := create_wrote hdb hapart hnew
      (fun slot a hmem => List.mem_map.mpr ⟨_, hmem, rfl⟩) h
    exact ⟨hwrote.1, fun _ => hwrote.2⟩
  | updateAvatar user | updateCover user =>
    obtain rfl := Option.some.inj h
    exact ⟨updateProfile_wrote hdb hapart hnew (howner _ (by simp [uploads])), nofun⟩
  | createCommunity community avatar =>
    have huploads := howner (.community community) (by cases avatar <;> simp [uploads])
    have hwrote := create_wrote hdb hapart hnew
      (fun slot a hmem => List.mem_singleton.mpr (huploads slot a hmem)) h
    exact ⟨hwrote.1, fun _ => hwrote.2⟩
  | updateCommunity community avatar coverPhoto =>
    have hwrote := updateCommunity_wrote hdb hapart hnew
      (howner _ (by cases avatar <;> cases coverPhoto <;> simp [uploads])) h
    exact ⟨hwrote.1, fun _ => hwrote.2⟩
  | remove documents cleared =>
    have hnone : staged = [] := by
      refine List.eq_nil_iff_forall_not_mem.mpr fun ⟨slot, a⟩ hp => ?_
      obtain ⟨f, hf, -⟩ := hfor.mem hp
      cases hf
    subst hnone
    have hwrote := remove_wrote hdb h
    exact ⟨hwrote.1, fun _ => hwrote.2⟩

/-- The commands that replace a file themselves update a profile. -/
theorem Command.profile_of_replaces (h : command.replaces = some slot) :
    ∃ user, slot.owner = .user user ∧ command.uploads = [fun _ => slot] ∧
      ∀ staged db, command.write staged db = some (db.updateProfile user staged) := by
  cases command with
  | updateAvatar user | updateCover user =>
    obtain rfl := Option.some.inj h
    exact ⟨user, rfl, rfl, fun _ _ => rfl⟩
  | _ => cases h

/-- A command with one upload stages one file. -/
theorem Staged.single (h : Staged command staged) (huploads : command.uploads = [fun _ => slot])
    (hlen : command.uploads.length ≤ staged.length) : ∃ a, staged = [(slot, a)] := by
  match staged with
  | [] => simp [huploads] at hlen
  | [(slot', a)] =>
    obtain ⟨f, hf, rfl⟩ := h.mem (List.mem_singleton_self _)
    rw [huploads, List.mem_singleton] at hf
    exact ⟨a, by rw [hf]⟩
  | _ :: q :: _ =>
    obtain ⟨f, hf, -⟩ := h 1 q.1 q.2 rfl
    rw [huploads] at hf
    cases hf

/-- With the transaction the new file of a profile takes the place of the old one. -/
theorem Command.write_replaces {db db' : Database} (hfor : Staged command staged)
    (hlen : command.uploads.length ≤ staged.length) (hdb : db.Sound)
    (hslot : command.replaces = some slot) (hs : db.media slot = some a)
    (h : command.write staged db = some db') :
    ∃ b, (slot, b) ∈ staged ∧ db'.media slot = some b := by
  obtain ⟨user, howner, huploads, hwrite⟩ := profile_of_replaces hslot
  obtain ⟨b, rfl⟩ := hfor.single huploads hlen
  obtain rfl := Option.some.inj ((hwrite _ _).symm.trans h)
  refine ⟨b, List.mem_singleton_self _, ?_⟩
  have hin := hdb.owned slot a hs
  rw [howner] at hin
  simp only [Database.updateProfile]
  rw [if_pos hin]
  exact Apart.media_put ⟨List.nodup_singleton _, List.nodup_singleton _⟩ (List.mem_singleton_self _)

end Staged

namespace Task

/-- The writes of the command are committed while its transaction is under way. -/
def committed (t : Task) : Bool :=
  match t.stage with
  | .transacting call => call.latest.committed
  | _ => false

/-- The transaction is not settled. -/
def undecided (t : Task) : Bool :=
  match t.stage with
  | .uploading | .transacting _ => true
  | _ => false

/-- The files that the command may still bring into use. -/
def pending (t : Task) : List Asset :=
  if t.undecided && !t.committed then t.staged.map Prod.snd else []

/-- The files that the command is about to delete. -/
def condemned (t : Task) : List Asset :=
  match t.stage with
  | .queueing a rest | .deleting a _ rest => a :: rest
  | .deletingOld a => [a]
  | _ => []

/-- What holds of a task by itself. -/
structure Formed (t : Task) : Prop where
  staged : Staged t.command t.staged
  assets : (t.staged.map Prod.snd).Nodup
  call : ∀ call, t.stage = .transacting call → Clean call ∧ call.Untouched ∧
    t.command.uploads.length ≤ t.staged.length

/-- A pending file is staged and not committed. -/
theorem mem_pending {t : Task} {a : Asset} (h : a ∈ t.pending) :
    a ∈ t.staged.map Prod.snd ∧ t.committed = false := by
  unfold pending at h
  split at h
  · next hc => exact ⟨h, by simpa using (Bool.and_eq_true_iff.mp hc).2⟩
  · cases h

/-- Before the commit the staged files are pending. -/
theorem pending_eq {t : Task} (hu : t.undecided = true) (hc : t.committed = false) :
    t.pending = t.staged.map Prod.snd := by
  simp [pending, hu, hc]

/-- After the commit no file is pending. -/
theorem pending_nil {t : Task} (h : t.undecided = false ∨ t.committed = true) : t.pending = [] := by
  rcases h with h | h <;> simp [pending, h]

end Task

/-- The file has been let go: it is not in use and does not come back. -/
structure Free (s : System) (a : Asset) : Prop where
  known : a < s.next
  unused : ¬ s.db.Refers a
  unclaimed : ∀ (i : ℕ) t, s.tasks[i]? = some t → a ∉ t.pending

/-- The file that a profile had before, as long as the command has not settled. -/
structure Recalled (s : System) (t : Task) (a : Asset) : Prop where
  known : a < s.next
  unclaimed : ∀ (i : ℕ) u, s.tasks[i]? = some u → a ∉ u.pending
  inPlace : ∀ slot, s.db.media slot = some a → t.command.replaces = some slot ∧ t.committed = false

/-- What holds in every state: used files are stored, and what will be deleted is not used. -/
structure Inv (s : System) : Prop where
  sound : s.db.Sound
  known : ∀ a ∈ s.stored, a < s.next
  used : ∀ a, s.db.Refers a → a ∈ s.stored
  claimed : ∀ (i : ℕ) t, s.tasks[i]? = some t → ∀ a ∈ t.pending, a ∈ s.stored ∧ ¬ s.db.Refers a
  disjoint : ∀ (i j : ℕ) t u, s.tasks[i]? = some t → s.tasks[j]? = some u → i ≠ j →
    ∀ a ∈ t.pending, a ∉ u.pending
  condemned : ∀ (i : ℕ) t, s.tasks[i]? = some t → ∀ a ∈ t.condemned, Free s a
  requested : ∀ a ∈ s.db.outbox, Free s a
  formed : ∀ (i : ℕ) t, s.tasks[i]? = some t → t.Formed
  recalled : ∀ (i : ℕ) t, s.tasks[i]? = some t → t.undecided = true → ∀ a, t.old = some a →
    Recalled s t a

/-- A step that changes one task, which has held the given files. -/
structure Moves (s s' : System) (i : ℕ) (held : List Asset) : Prop where
  mine : ∀ a ∈ held, ∃ t, s.tasks[i]? = some t ∧ a ∈ t.pending
  next : s.next ≤ s'.next
  media : ∀ slot a, s'.db.media slot = some a → a ∈ held ∨ s.db.media slot = some a
  others : ∀ (j : ℕ) t, s'.tasks[j]? = some t → j ≠ i → s.tasks[j]? = some t
  kept : ∀ a ∈ s.stored, ¬ Free s a → a ∈ s'.stored
  arrived : ∀ a ∈ s'.stored, a ∈ s.stored ∨ (s.next ≤ a ∧ a < s'.next)
  pending : ∀ t, s'.tasks[i]? = some t → ∀ a ∈ t.pending,
    (a ∈ held ∧ ¬ s'.db.Refers a) ∨ (s.next ≤ a ∧ a ∈ s'.stored)

section Moves

variable {s s' : System} {i : ℕ} {held : List Asset}

private theorem Inv.lt_of_refers (h : Inv s) {a : Asset} (ha : s.db.Refers a) : a < s.next :=
  h.known a (h.used a ha)

/-- A pending file was stored. -/
private theorem Inv.lt_of_pending (h : Inv s) {j : ℕ} {t : Task} {a : Asset}
    (hj : s.tasks[j]? = some t)
    (ha : a ∈ t.pending) : a < s.next :=
  h.known a (h.claimed j t hj a ha).1

/-- A file in use was written by the task or was in use before. -/
theorem Moves.refers (hm : Moves s s' i held) {a : Asset} (h : s'.db.Refers a) :
    a ∈ held ∨ s.db.Refers a :=
  let ⟨slot, hs⟩ := h
  (hm.media slot a hs).imp id fun hold => ⟨slot, hold⟩

/-- What is pending after the step was held by the task, is new, or is pending for another. -/
theorem Moves.claim (hm : Moves s s' i held) {j : ℕ} {t : Task} {a : Asset}
    (hj : s'.tasks[j]? = some t) (ha : a ∈ t.pending) :
    (j = i ∧ (a ∈ held ∨ s.next ≤ a)) ∨ (j ≠ i ∧ s.tasks[j]? = some t) := by
  by_cases hji : j = i
  · subst hji
    exact Or.inl ⟨rfl, (hm.pending t hj a ha).imp And.left And.left⟩
  · exact Or.inr ⟨hji, hm.others j t hj hji⟩

/-- A free file stays free while a task moves. -/
theorem Free.moves {a : Asset} (h : Free s a) (hm : Moves s s' i held) : Free s' a where
  known := h.known.trans_le hm.next
  unused hrefers := by
    rcases hm.refers hrefers with hheld | hold
    · obtain ⟨t, hi, ha⟩ := hm.mine a hheld
      exact h.unclaimed i t hi ha
    · exact h.unused hold
  unclaimed j t hj ha := by
    rcases hm.claim hj ha with ⟨-, hheld | hnew⟩ | ⟨-, hold⟩
    · obtain ⟨u, hi, ha'⟩ := hm.mine a hheld
      exact h.unclaimed i u hi ha'
    · exact absurd h.known (not_lt.mpr hnew)
    · exact h.unclaimed j t hold ha

/-- The file that a task recalls stays so while another task moves. -/
theorem Recalled.moves {t t' : Task} {a : Asset} (h : Recalled s t a) (hm : Moves s s' i held)
    (hsame : t'.command = t.command)
    (hcommit : ∀ slot, s'.db.media slot = some a → t.committed = false → t'.committed = false) :
    Recalled s' t' a where
  known := h.known.trans_le hm.next
  unclaimed j u hj ha := by
    rcases hm.claim hj ha with ⟨-, hheld | hnew⟩ | ⟨-, hold⟩
    · obtain ⟨v, hi, ha'⟩ := hm.mine a hheld
      exact h.unclaimed i v hi ha'
    · exact absurd h.known (not_lt.mpr hnew)
    · exact h.unclaimed j u hold ha
  inPlace slot hs := by
    rcases hm.media slot a hs with hheld | hold
    · obtain ⟨v, hi, ha'⟩ := hm.mine a hheld
      exact absurd ha' (h.unclaimed i v hi)
    · obtain ⟨hslot, hnot⟩ := h.inPlace slot hold
      exact ⟨hsame ▸ hslot, hcommit slot hs hnot⟩

/-- A move of a task keeps the invariant when its own part of it is kept. -/
theorem Inv.moves (h : Inv s) (hm : Moves s s' i held) (hsound : s'.db.Sound)
    (hrequested : ∀ a ∈ s'.db.outbox, a ∈ s.db.outbox ∨ Free s' a)
    (htask : ∀ t, s'.tasks[i]? = some t → t.Formed ∧ (∀ a ∈ t.condemned, Free s' a) ∧
      (t.undecided = true → ∀ a, t.old = some a → Recalled s' t a)) : Inv s' where
  sound := hsound
  known a ha := by
    rcases hm.arrived a ha with hold | ⟨-, hlt⟩
    · exact (h.known a hold).trans_le hm.next
    · exact hlt
  used a ha := by
    rcases hm.refers ha with hheld | hold
    · obtain ⟨t, hi, hp⟩ := hm.mine a hheld
      exact hm.kept a (h.claimed i t hi a hp).1 fun hfree => hfree.unclaimed i t hi hp
    · exact hm.kept a (h.used a hold) fun hfree => hfree.unused hold
  claimed j t hj a ha := by
    by_cases hji : j = i
    · subst hji
      rcases hm.pending t hj a ha with ⟨hheld, hnot⟩ | ⟨hnew, hstored⟩
      · obtain ⟨u, hi, hp⟩ := hm.mine a hheld
        exact ⟨hm.kept a (h.claimed j u hi a hp).1 fun hfree => hfree.unclaimed j u hi hp, hnot⟩
      · refine ⟨hstored, fun hrefers => ?_⟩
        rcases hm.refers hrefers with hheld | hold
        · obtain ⟨u, hi, hp⟩ := hm.mine a hheld
          exact absurd (h.lt_of_pending hi hp) (not_lt.mpr hnew)
        · exact absurd (h.lt_of_refers hold) (not_lt.mpr hnew)
    · have hold := hm.others j t hj hji
      refine ⟨hm.kept a (h.claimed j t hold a ha).1 fun hfree => hfree.unclaimed j t hold ha,
        fun hrefers => ?_⟩
      rcases hm.refers hrefers with hheld | hused
      · obtain ⟨u, hi, hp⟩ := hm.mine a hheld
        exact h.disjoint j i t u hold hi hji a ha hp
      · exact (h.claimed j t hold a ha).2 hused
  disjoint j k t u hj hk hjk a ha hb := by
    rcases hm.claim hj ha with ⟨rfl, hheld | hnew⟩ | ⟨hji, hold⟩
    · obtain ⟨v, hi, hp⟩ := hm.mine a hheld
      exact h.disjoint j k v u hi (hm.others k u hk (Ne.symm hjk)) hjk a hp hb
    · exact absurd (h.lt_of_pending (hm.others k u hk (Ne.symm hjk)) hb) (not_lt.mpr hnew)
    · rcases hm.claim hk hb with ⟨rfl, hheld | hnew⟩ | ⟨-, hold'⟩
      · obtain ⟨v, hi, hp⟩ := hm.mine a hheld
        exact h.disjoint j k t v hold hi hjk a ha hp
      · exact absurd (h.lt_of_pending hold ha) (not_lt.mpr hnew)
      · exact h.disjoint j k t u hold hold' hjk a ha hb
  condemned j t hj a ha := by
    by_cases hji : j = i
    · subst hji
      exact (htask t hj).2.1 a ha
    · exact (h.condemned j t (hm.others j t hj hji) a ha).moves hm
  requested a ha := (hrequested a ha).elim (fun hold => (h.requested a hold).moves hm) id
  formed j t hj := by
    by_cases hji : j = i
    · subst hji
      exact (htask t hj).1
    · exact h.formed j t (hm.others j t hj hji)
  recalled j t hj hu a ha := by
    by_cases hji : j = i
    · subst hji
      exact (htask t hj).2.2 hu a ha
    · exact (h.recalled j t (hm.others j t hj hji) hu a ha).moves hm rfl fun _ _ hnot => hnot

end Moves

namespace System

/-- The task that is put into another state is in it. -/
theorem getElem?_setTask_self {s : System} {i : ℕ} {t t' : Task} (hi : s.tasks[i]? = some t) :
    (s.setTask i t').tasks[i]? = some t' :=
  List.getElem?_set_self (List.getElem?_eq_some_iff.mp hi).1

/-- The other tasks are left alone. -/
theorem getElem?_setTask_ne {s : System} {i j : ℕ} {t' : Task} (hj : j ≠ i) :
    (s.setTask i t').tasks[j]? = s.tasks[j]? :=
  List.getElem?_set_ne (Ne.symm hj)

private theorem arrived_store {s : System} {a : Asset} (ha : a ∈ s.store.stored) :
    a ∈ s.stored ∨ (s.next ≤ a ∧ a < s.store.next) := by
  rcases Finset.mem_insert.mp ha with rfl | hold
  · exact Or.inr ⟨le_rfl, Nat.lt_succ_self s.next⟩
  · exact Or.inl hold

end System

namespace Task

/-- A clean-up condemns the files it is given. -/
theorem cleanUp_condemned (t : Task) (l : List Asset) : (t.cleanUp l).condemned = l := by
  cases l with
  | nil => rfl
  | cons a rest =>
    unfold cleanUp condemned
    cases t.command.queuesCleanup <;> rfl

private theorem cleanUp_undecided (t : Task) (l : List Asset) :
    (t.cleanUp l).undecided = false := by
  cases l with
  | nil => rfl
  | cons a rest =>
    unfold cleanUp undecided
    cases t.command.queuesCleanup <;> rfl

/-- The first file of a cleanup is not queued yet. -/
theorem cleanUp_not_queued (t : Task) (l : List Asset) (a : Asset) (rest : List Asset) :
    (t.cleanUp l).stage ≠ .deleting a true rest := by
  cases l with
  | nil => simp [cleanUp]
  | cons b l =>
    unfold cleanUp
    cases t.command.queuesCleanup <;> simp

private theorem Formed.of_decided {t t' : Task} (h : t.Formed) (hcommand : t'.command = t.command)
    (hstaged : t'.staged = t.staged) (hdone : t'.undecided = false) : t'.Formed where
  staged := by
    rw [hcommand, hstaged]
    exact h.staged
  assets := by
    rw [hstaged]
    exact h.assets
  call call hcall := by simp [undecided, hcall] at hdone

/-- A task that begins a clean-up is well formed. -/
theorem Formed.cleanUp {t : Task} (h : t.Formed) (l : List Asset) : (t.cleanUp l).Formed := by
  refine h.of_decided ?_ ?_ (cleanUp_undecided t l)
  · cases l <;> rfl
  · cases l <;> rfl

/-- A command goes on uploading until its uploads are staged. -/
private theorem advance_stage (t : Task) :
    t.advance.stage = .uploading ∨ t.command.uploads.length ≤ t.staged.length ∧
      t.advance.stage = .transacting (.start (UnitOfWork.resolveTransactionConfig .empty)) := by
  unfold advance
  by_cases h : t.staged.length < t.command.uploads.length
  · simp [h]
  · exact Or.inr ⟨not_lt.mp h, if_neg h⟩

private theorem advance_committed (t : Task) : t.advance.committed = false := by
  rcases t.advance_stage with h | ⟨-, h⟩
  · simp only [committed, h]
  · simp only [committed, h, UnitOfWork.Call.latest_start]

/-- A task that goes on has not decided. -/
theorem advance_undecided (t : Task) : t.advance.undecided = true := by
  rcases t.advance_stage with h | ⟨-, h⟩ <;> simp only [undecided, h]

private theorem advance_condemned (t : Task) : t.advance.condemned = [] := by
  rcases t.advance_stage with h | ⟨-, h⟩ <;> simp only [condemned, h]

/-- A task that goes on has its staged files pending. -/
theorem advance_pending (t : Task) : t.advance.pending = t.staged.map Prod.snd :=
  pending_eq t.advance_undecided t.advance_committed

/-- A command whose staged files fit is well formed. -/
private theorem advance_formed {t : Task} (hstaged : Staged t.command t.staged)
    (hassets : (t.staged.map Prod.snd).Nodup) : t.advance.Formed where
  staged := hstaged
  assets := hassets
  call call hcall := by
    rcases t.advance_stage with h | ⟨hlen, h⟩
    · exact absurd (h.symm.trans hcall) (by simp)
    · obtain rfl := Stage.transacting.inj (h.symm.trans hcall)
      exact ⟨UnitOfWork.start_clean _, nofun, hlen⟩

end Task

section Steps

variable {s s' : System} {i : ℕ} {t : Task}

/-- A step of one task that leaves the references as they are. -/
theorem Inv.moves_setTask (h : Inv s) (hi : s.tasks[i]? = some t) (s' : System) (t' : Task)
    (htasks : s'.tasks = s.tasks) (hmedia : s'.db.media = s.db.media) (hnext : s.next ≤ s'.next)
    (hkept : ∀ a ∈ s.stored, ¬ Free s a → a ∈ s'.stored)
    (harrived : ∀ a ∈ s'.stored, a ∈ s.stored ∨ (s.next ≤ a ∧ a < s'.next))
    (hpending : ∀ a ∈ t'.pending, a ∈ t.pending ∨ (s.next ≤ a ∧ a ∈ s'.stored)) :
    Moves s (s'.setTask i t') i t.pending where
  mine a ha := ⟨t, hi, ha⟩
  next := hnext
  media slot a hs := Or.inr (by rw [← hmedia]; exact hs)
  others j u hj hne := by
    rw [← htasks, ← System.getElem?_setTask_ne hne]
    exact hj
  kept := hkept
  arrived := harrived
  pending u hu a ha := by
    obtain rfl := Option.some.inj (hu.symm.trans (System.getElem?_setTask_self (htasks ▸ hi)))
    refine (hpending a ha).imp (fun hold => ⟨hold, fun ⟨slot, hs⟩ => ?_⟩) id
    exact (h.claimed i t hi a hold).2 ⟨slot, hmedia ▸ hs⟩

/-- What a task gives up is let go. -/
theorem Inv.free_of_pending (h : Inv s) (hi : s.tasks[i]? = some t) {t' : Task}
    (hm : Moves s (s'.setTask i t') i t.pending) (htasks : s'.tasks = s.tasks)
    (hmedia : s'.db.media = s.db.media) (hgone : t'.pending = []) {a : Asset}
    (ha : a ∈ t.pending) : Free (s'.setTask i t') a where
  known := (h.lt_of_pending hi ha).trans_le hm.next
  unused := fun ⟨slot, hs⟩ => (h.claimed i t hi a ha).2 ⟨slot, hmedia ▸ hs⟩
  unclaimed j u hj hb := by
    by_cases hji : j = i
    · subst hji
      rw [System.getElem?_setTask_self (htasks ▸ hi)] at hj
      obtain rfl := Option.some.inj hj
      rw [hgone] at hb
      cases hb
    · exact h.disjoint i j t u hi (hm.others j u hj hji) (Ne.symm hji) a ha hb

/-- A task that only deletes what it has to. -/
theorem Inv.condemn (h : Inv s) (hi : s.tasks[i]? = some t) (s' : System) {t' : Task}
    (htasks : s'.tasks = s.tasks) (hmedia : s'.db.media = s.db.media)
    (hdocs : s'.db.documents = s.db.documents) (hnext : s'.next = s.next)
    (hkept : ∀ a ∈ s.stored, ¬ Free s a → a ∈ s'.stored) (hsub : ∀ a ∈ s'.stored, a ∈ s.stored)
    (hrequested : ∀ a ∈ s'.db.outbox, a ∈ s.db.outbox ∨ a ∈ t.condemned)
    (hformed : t'.Formed) (hdone : t'.undecided = false)
    (hcondemned : ∀ a ∈ t'.condemned, a ∈ t.condemned) : Inv (s'.setTask i t') := by
  have hm := h.moves_setTask hi s' t' htasks hmedia hnext.ge hkept
    (fun a ha => Or.inl (hsub a ha)) fun a ha => by
      rw [Task.pending_nil (Or.inl hdone)] at ha
      cases ha
  refine h.moves hm ⟨fun slot a hs => ?_, fun slot slot' a hs hs' => ?_⟩ (fun a ha => ?_)
    fun u hu => ?_
  · have hold := h.sound.owned slot a (hmedia ▸ hs)
    rwa [← hdocs] at hold
  · exact h.sound.sole slot slot' a (hmedia ▸ hs) (hmedia ▸ hs')
  · exact (hrequested a ha).imp id fun hcond => (h.condemned i t hi a hcond).moves hm
  · rw [System.getElem?_setTask_self (htasks ▸ hi)] at hu
    obtain rfl := Option.some.inj hu
    refine ⟨hformed, fun a ha => (h.condemned i t hi a (hcondemned a ha)).moves hm, fun hu' => ?_⟩
    exact absurd (hu'.symm.trans hdone) (by decide)

/-- A step that no task takes. -/
theorem Inv.frame (h : Inv s) (s' : System) (htasks : s'.tasks = s.tasks)
    (hmedia : s'.db.media = s.db.media)
    (hdocs : s.db.documents ⊆ s'.db.documents) (hnext : s'.next = s.next)
    (hkept : ∀ a ∈ s.stored, ¬ Free s a → a ∈ s'.stored) (hsub : ∀ a ∈ s'.stored, a ∈ s.stored)
    (hrequested : ∀ a ∈ s'.db.outbox, a ∈ s.db.outbox) : Inv s' := by
  have hnone : ∀ u, s'.tasks[s.tasks.length]? ≠ some u := by
    intro u hu
    rw [htasks, List.getElem?_eq_none_iff.mpr le_rfl] at hu
    cases hu
  have hm : Moves s s' s.tasks.length [] :=
    { mine := nofun
      next := hnext.ge
      media := fun slot a hs => Or.inr (hmedia ▸ hs)
      others := fun j u hj _ => htasks ▸ hj
      kept := hkept
      arrived := fun a ha => Or.inl (hsub a ha)
      pending := fun u hu => absurd hu (hnone u) }
  refine h.moves hm ⟨fun slot a hs => ?_, fun slot slot' a hs hs' => ?_⟩
    (fun a ha => Or.inl (hrequested a ha)) fun u hu => absurd hu (hnone u)
  · exact hdocs (h.sound.owned slot a (hmedia ▸ hs))
  · exact h.sound.sole slot slot' a (hmedia ▸ hs) (hmedia ▸ hs')

/-- Starting a command keeps the invariant. -/
theorem Inv.start (h : Inv s) (command : Command) : Inv { s with tasks := s.tasks ++
    [Task.advance ⟨command, command.replaces.bind s.db.media, [], .uploading⟩] } := by
  generalize ht : (⟨command, command.replaces.bind s.db.media, [], .uploading⟩ : Task) = t
  have hself : ∀ u, (s.tasks ++ [t.advance])[s.tasks.length]? = some u → u = t.advance := by
    intro u hu
    exact (Option.some.inj (List.getElem?_concat_length.symm.trans hu)).symm
  have hpending : t.advance.pending = [] := by
    rw [t.advance_pending, ← ht]
    rfl
  have hm : Moves s { s with tasks := s.tasks ++ [t.advance] } s.tasks.length [] :=
    { mine := nofun
      next := le_rfl
      media := fun slot a hs => Or.inr hs
      others := fun j u hj hne => by
        have hlt : j < s.tasks.length + 1 := by
          simpa using (List.getElem?_eq_some_iff.mp hj).1
        exact (List.getElem?_append_left (by omega)).symm.trans hj
      kept := fun a ha _ => ha
      arrived := fun a ha => Or.inl ha
      pending := fun u hu a ha => by
        rw [hself u hu, hpending] at ha
        cases ha }
  refine h.moves hm ⟨h.sound.owned, h.sound.sole⟩ (fun a ha => Or.inl ha) fun u hu => ?_
  obtain rfl := hself u hu
  refine ⟨?_, fun a ha => ?_, fun _ a hold => ?_⟩
  · subst ht
    exact Task.advance_formed Staged.nil List.nodup_nil
  · rw [t.advance_condemned] at ha
    cases ha
  · subst ht
    obtain ⟨slot, hslot, hs⟩ := Option.bind_eq_some_iff.mp hold
    refine ⟨h.lt_of_refers ⟨slot, hs⟩, fun j u hj ha => ?_, fun slot' hs' => ?_⟩
    · rcases hm.claim hj ha with ⟨-, hheld | hnew⟩ | ⟨-, hold'⟩
      · cases hheld
      · exact absurd (h.lt_of_refers ⟨slot, hs⟩) (not_lt.mpr hnew)
      · exact (h.claimed j u hold' a ha).2 ⟨slot, hs⟩
    · refine ⟨?_, Task.advance_committed _⟩
      rw [h.sound.sole slot' slot a hs' hs]
      exact hslot

/-- An upload keeps the invariant. -/
theorem Inv.upload (h : Inv s) (hi : s.tasks[i]? = some t) (hstage : t.stage = .uploading)
    {slot : Asset → Slot} (hslot : t.command.uploads[t.staged.length]? = some slot) :
    Inv (s.store.setTask i (Task.advance { t with
      staged := t.staged ++ [(slot s.next, s.next)] })) := by
  have hformed := h.formed i t hi
  have hold : t.pending = t.staged.map Prod.snd :=
    Task.pending_eq (by simp [Task.undecided, hstage]) (by simp [Task.committed, hstage])
  have hnew : s.next ∉ t.staged.map Prod.snd := by
    rw [← hold]
    exact fun ha => lt_irrefl _ (h.lt_of_pending hi ha)
  have hm := h.moves_setTask hi s.store (Task.advance { t with
      staged := t.staged ++ [(slot s.next, s.next)] }) rfl rfl (Nat.le_succ _)
    (fun a ha _ => Finset.mem_insert_of_mem ha) (fun a ha => System.arrived_store ha) fun a ha => ?_
  · refine h.moves hm ⟨h.sound.owned, h.sound.sole⟩ (fun a ha => Or.inl ha) fun u hu => ?_
    rw [System.getElem?_setTask_self (s := s.store) hi] at hu
    obtain rfl := Option.some.inj hu
    refine ⟨Task.advance_formed (hformed.staged.concat hslot) ?_, fun a ha => ?_,
      fun _ a hold' => ?_⟩
    · have hnodup := hformed.assets.concat hnew
      rw [List.concat_eq_append] at hnodup
      rwa [List.map_append]
    · rw [Task.advance_condemned] at ha
      cases ha
    · exact (h.recalled i t hi (by simp [Task.undecided, hstage]) a hold').moves hm rfl
        fun _ _ _ => Task.advance_committed _
  · rw [Task.advance_pending, List.map_append] at ha
    rcases List.mem_append.mp ha with ha | ha
    · exact Or.inl (hold ▸ ha)
    · obtain rfl := List.mem_singleton.mp ha
      exact Or.inr ⟨le_rfl, Finset.mem_insert_self _ _⟩

/-- A command that gives up its staged files and goes on to delete them, or ends. -/
theorem Inv.giveUp (h : Inv s) (hi : s.tasks[i]? = some t) (s' : System) {t' : Task}
    (htasks : s'.tasks = s.tasks) (hdb : s'.db = s.db) (hnext : s.next ≤ s'.next)
    (hkept : ∀ a ∈ s.stored, a ∈ s'.stored)
    (harrived : ∀ a ∈ s'.stored, a ∈ s.stored ∨ (s.next ≤ a ∧ a < s'.next))
    (hformed : t'.Formed) (hdone : t'.undecided = false)
    (hcondemned : ∀ a ∈ t'.condemned, a ∈ t.pending ∨ Free s a) : Inv (s'.setTask i t') := by
  have hgone := Task.pending_nil (Or.inl hdone)
  have hmedia : s'.db.media = s.db.media := congrArg Database.media hdb
  have hm := h.moves_setTask hi s' t' htasks hmedia hnext (fun a ha _ => hkept a ha) harrived
    (by simp [hgone])
  refine h.moves hm ?_ (fun a ha => Or.inl ?_) fun u hu => ?_
  · have hsound := h.sound
    rwa [← hdb] at hsound
  · rw [← hdb]
    exact ha
  · obtain rfl := Option.some.inj (hu.symm.trans (System.getElem?_setTask_self (htasks ▸ hi)))
    refine ⟨hformed, fun a ha => ?_, fun hu' => absurd (hu'.symm.trans hdone) (by decide)⟩
    exact (hcondemned a ha).elim (h.free_of_pending hi hm htasks hmedia hgone) fun hfree =>
      hfree.moves hm

/-- A step of the transaction that leaves open whether it has committed moves nothing. -/
theorem Inv.proceed_idle (h : Inv s) (hi : s.tasks[i]? = some t)
    {call call' : UnitOfWork.Call Unit} (hstage : t.stage = .transacting call)
    (hformed' : Task.Formed { t with stage := .transacting call' })
    (hcommitted : call'.latest.committed = call.latest.committed) :
    Inv (s.setTask i { t with stage := .transacting call' }) := by
  have hundecided : t.undecided = true := by simp only [Task.undecided, hstage]
  have hbefore : t.committed = call.latest.committed := by simp only [Task.committed, hstage]
  have hsame : Task.committed { t with stage := .transacting call' } = t.committed :=
    hcommitted.trans hbefore.symm
  have hm := h.moves_setTask hi s { t with stage := .transacting call' } rfl rfl
    le_rfl (fun a ha _ => ha) (fun a ha => Or.inl ha) fun a ha => by
      obtain ⟨hmem, hnot⟩ := Task.mem_pending ha
      rw [Task.pending_eq hundecided (hsame ▸ hnot)]
      exact Or.inl hmem
  refine h.moves hm h.sound (fun a ha => Or.inl ha) fun u hu => ?_
  obtain rfl := Option.some.inj (hu.symm.trans (System.getElem?_setTask_self hi))
  refine ⟨hformed', nofun, fun _ a ha => ?_⟩
  exact (h.recalled i t hi hundecided a ha).moves hm rfl fun _ _ hnot => hsame.trans hnot

/-- The commit of a transaction puts what was uploaded in its places. -/
theorem Inv.proceed_commits (h : Inv s) (hi : s.tasks[i]? = some t)
    {call call' : UnitOfWork.Call Unit} {db : Database} (hstage : t.stage = .transacting call)
    (hformed' : Task.Formed { t with stage := .transacting call' })
    (hnot : call.latest.committed = false) (hafter : call'.latest.committed = true)
    (hdb : t.command.write t.staged s.db = some db) :
    Inv ({ s with db := db }.setTask i { t with stage := .transacting call' }) := by
  have hformed := h.formed i t hi
  obtain ⟨-, -, hlen⟩ := hformed.call call hstage
  have hundecided : t.undecided = true := by simp only [Task.undecided, hstage]
  have hbefore : t.committed = call.latest.committed := by simp only [Task.committed, hstage]
  have hheld : t.pending = t.staged.map Prod.snd :=
    Task.pending_eq hundecided (hbefore.trans hnot)
  have hnew : ∀ slot a, (slot, a) ∈ t.staged → ¬ s.db.Refers a := fun slot a hmem =>
    (h.claimed i t hi a (hheld ▸ List.mem_map.mpr ⟨(slot, a), hmem, rfl⟩)).2
  have hwrote := (Command.write_spec hformed.staged hformed.assets h.sound hnew hdb).1
  have hdone : Task.committed { t with stage := .transacting call' } = true := hafter
  have hself : ∀ u,
      ({ s with db := db }.setTask i { t with stage := .transacting call' }).tasks[i]? =
      some u → u = { t with stage := .transacting call' } := fun u hu =>
    Option.some.inj (hu.symm.trans (System.getElem?_setTask_self (s := { s with db := db }) hi))
  have hm : Moves s ({ s with db := db }.setTask i { t with stage := .transacting call' }) i
      t.pending :=
    { mine := fun a ha => ⟨t, hi, ha⟩
      next := le_rfl
      media := fun slot a hs => (hwrote.media slot a hs).imp
        (fun hmem => hheld ▸ List.mem_map.mpr ⟨(slot, a), hmem, rfl⟩) id
      others := fun j u hj hne =>
        (System.getElem?_setTask_ne (s := { s with db := db }) hne).symm.trans hj
      kept := fun a ha _ => ha
      arrived := fun a ha => Or.inl ha
      pending := fun u hu a ha => by
        rw [hself u hu, Task.pending_nil (Or.inr hdone)] at ha
        cases ha }
  refine h.moves hm hwrote.sound (fun a ha => ?_) fun u hu => ?_
  · refine (hwrote.requested a ha).imp id fun ⟨hused, hgone⟩ => ⟨h.lt_of_refers hused, hgone, ?_⟩
    -- What was in use is pending for nobody.
    intro j u hj hb
    rcases hm.claim hj hb with ⟨-, hmine | hfresh⟩ | ⟨-, hold⟩
    · exact (h.claimed i t hi a hmine).2 hused
    · exact absurd (h.lt_of_refers hused) (not_lt.mpr hfresh)
    · exact (h.claimed j u hold a hb).2 hused
  · obtain rfl := hself u hu
    refine ⟨hformed', nofun, fun _ a ha => ?_⟩
    have hrecalled := h.recalled i t hi hundecided a ha
    refine hrecalled.moves hm rfl fun slot hs _ => ?_
    -- The old file is no longer in its place.
    exfalso
    rcases hm.media slot a hs with hmine | hold
    · exact hrecalled.unclaimed i t hi hmine
    · obtain ⟨b, hb, hs'⟩ := Command.write_replaces hformed.staged hlen h.sound
        (hrecalled.inPlace slot hold).1 hold hdb
      obtain rfl : b = a := Option.some.inj (hs'.symm.trans hs)
      exact hrecalled.unclaimed i t hi (hheld ▸ List.mem_map.mpr ⟨(slot, b), hb, rfl⟩)

/-- A step of the transaction of a command, before what follows on its end. -/
theorem Inv.proceed (h : Inv s) (hi : s.tasks[i]? = some t) {call call' : UnitOfWork.Call Unit}
    {event : UnitOfWork.Event Unit} {db : Database} (hstage : t.stage = .transacting call)
    (hbody : event.endsBody = false) (hnext : call.next event = some call')
    (hdb : (if call.takesEffect event then t.command.write t.staged s.db else some s.db) = some db)
    (hconsistent : Consistent call event) (hdefinite : Definite call event) :
    Inv ({ s with db := db }.setTask i { t with stage := .transacting call' }) := by
  have hformed := h.formed i t hi
  obtain ⟨hclean, huntouched, hlen⟩ := hformed.call call hstage
  have hanswered : Answered call event call' := ⟨hconsistent, hnext⟩
  have hcommitted := UnitOfWork.Call.committed_next hclean hanswered hdefinite hbody
  have hformed' : Task.Formed { t with stage := .transacting call' } :=
    { staged := hformed.staged
      assets := hformed.assets
      call := fun c hc => by
        obtain rfl := Stage.transacting.inj hc
        exact ⟨hclean.step hanswered hdefinite, huntouched.next hnext hbody, hlen⟩ }
  cases heffect : call.takesEffect event with
  | false =>
    rw [heffect, Bool.or_false] at hcommitted
    rw [heffect, if_neg Bool.false_ne_true] at hdb
    obtain rfl := Option.some.inj hdb
    exact h.proceed_idle hi hstage hformed' hcommitted
  | true =>
    rw [heffect, Bool.or_true] at hcommitted
    rw [heffect, if_pos rfl] at hdb
    have hnot := UnitOfWork.Call.committed_of_takesEffect heffect
    exact h.proceed_commits hi hstage hformed' hnot hcommitted hdb

/-- What follows on the end of a transaction. -/
theorem Inv.settle (h : Inv s) (hi : s.tasks[i]? = some t) {call : UnitOfWork.Call Unit}
    (hstage : t.stage = .transacting call) : Inv (s.setTask i (t.afterCall call)) := by
  have hformed := h.formed i t hi
  obtain ⟨hclean, huntouched, -⟩ := hformed.call call hstage
  have hundecided : t.undecided = true := by simp only [Task.undecided, hstage]
  have hcommitted : t.committed = call.latest.committed := by simp only [Task.committed, hstage]
  have hgiveUp : ∀ t' : Task, t'.command = t.command → t'.staged = t.staged → t'.undecided = false →
      (∀ a ∈ t'.condemned, a ∈ t.pending ∨ Free s a) → Inv (s.setTask i t') :=
    fun t' hcommand hstaged hdone => h.giveUp hi s rfl rfl le_rfl (fun a ha => ha)
      (fun a ha => Or.inl ha) (hformed.of_decided hcommand hstaged hdone) hdone
  unfold Task.afterCall
  split
  · next value hphase =>
    have hdone := UnitOfWork.Call.committed_of_resolved hclean huntouched hphase
    cases hold : t.old with
    | none => exact hgiveUp _ rfl rfl rfl nofun
    | some a =>
      refine hgiveUp _ rfl rfl rfl fun b hb => Or.inr ?_
      obtain rfl := List.mem_singleton.mp hb
      have hrecalled := h.recalled i t hi hundecided b hold
      refine ⟨hrecalled.known, fun ⟨slot, hs⟩ => ?_, hrecalled.unclaimed⟩
      have hnot := (hrecalled.inPlace slot hs).2
      rw [hcommitted, hdone] at hnot
      cases hnot
  · next error hphase =>
    split
    · exact hgiveUp _ rfl rfl rfl nofun
    · next hambiguous =>
      have hnot := UnitOfWork.Call.committed_of_rejected hclean hphase (by simpa using hambiguous)
      refine h.giveUp hi s rfl rfl le_rfl (fun a ha => ha) (fun a ha => Or.inl ha)
        (hformed.cleanUp _) (t.cleanUp_undecided _) fun a ha => Or.inl ?_
      rw [t.cleanUp_condemned] at ha
      rw [Task.pending_eq hundecided (hcommitted.trans hnot)]
      exact ha
  · have hsame : { t with stage := .transacting call } = t := by rw [← hstage]
    rw [hsame]
    obtain ⟨hlt, rfl⟩ := List.getElem?_eq_some_iff.mp hi
    have htasks : s.tasks.set i s.tasks[i] = s.tasks := List.set_getElem_self hlt
    unfold System.setTask
    rw [htasks]
    exact h

/-- An upload that throws turns what was uploaded over to the cleanup. -/
theorem Inv.uploadFails (h : Inv s) (hi : s.tasks[i]? = some t) (hstage : t.stage = .uploading)
    (stored : Bool) :
    Inv ((if stored then s.store else s).setTask i (t.cleanUp (t.staged.map Prod.snd))) := by
  have hformed := (h.formed i t hi).cleanUp (t.staged.map Prod.snd)
  have hpending :
      ∀ a ∈ (t.cleanUp (t.staged.map Prod.snd)).condemned, a ∈ t.pending ∨ Free s a := by
    intro a ha
    rw [t.cleanUp_condemned] at ha
    rw [Task.pending_eq (by simp [Task.undecided, hstage]) (by simp [Task.committed, hstage])]
    exact Or.inl ha
  cases stored with
  | false =>
    exact h.giveUp hi s rfl rfl le_rfl (fun a ha => ha) (fun a ha => Or.inl ha) hformed
      (t.cleanUp_undecided _) hpending
  | true =>
    exact h.giveUp hi s.store rfl rfl (Nat.le_succ _)
      (fun a ha => Finset.mem_insert_of_mem ha) (fun a ha => System.arrived_store ha) hformed
      (t.cleanUp_undecided _) hpending

/-- A task that is to delete no more than before may move on. -/
theorem Inv.lets (h : Inv s) (hi : s.tasks[i]? = some t) {t' : Task} (hformed : t'.Formed)
    (hdone : t'.undecided = false) (hcondemned : ∀ a ∈ t'.condemned, a ∈ t.condemned) :
    Inv (s.setTask i t') :=
  h.condemn hi s rfl rfl rfl rfl (fun _ ha _ => ha) (fun _ ha => ha) (fun _ ha => Or.inl ha)
    hformed hdone hcondemned

/-- A task may request the cleanup of a file that it is to delete. -/
theorem Inv.requests (h : Inv s) (hi : s.tasks[i]? = some t) {a : Asset} (hmem : a ∈ t.condemned)
    (ok : Bool) {t' : Task} (hformed : t'.Formed) (hdone : t'.undecided = false)
    (hcondemned : ∀ b ∈ t'.condemned, b ∈ t.condemned) :
    Inv ((if ok then s.request a else s).setTask i t') := by
  cases ok with
  | false => exact h.lets hi hformed hdone hcondemned
  | true =>
    refine h.condemn hi (s.request a) rfl rfl rfl rfl (fun b hb _ => hb) (fun b hb => hb)
      (fun b hb => ?_) hformed hdone hcondemned
    rcases List.mem_append.mp hb with hb | hb
    · exact Or.inl hb
    · obtain rfl := List.mem_singleton.mp hb
      exact Or.inr hmem

/-- A task may delete a file that it is to delete. -/
theorem Inv.discards (h : Inv s) (hi : s.tasks[i]? = some t) {a : Asset} (hmem : a ∈ t.condemned)
    (ok : Bool) {t' : Task} (hformed : t'.Formed) (hdone : t'.undecided = false)
    (hcondemned : ∀ b ∈ t'.condemned, b ∈ t.condemned) :
    Inv ((if ok then s.discard a else s).setTask i t') := by
  cases ok with
  | false => exact h.lets hi hformed hdone hcondemned
  | true =>
    refine h.condemn hi (s.discard a) rfl rfl rfl rfl (fun b hb hused => ?_)
      (fun b hb => Finset.mem_of_mem_erase hb) (fun b hb => Or.inl hb) hformed hdone hcondemned
    refine Finset.mem_erase.mpr ⟨fun hba => hused ?_, hb⟩
    exact hba ▸ h.condemned i t hi a hmem

/-- The cleanup worker deletes a requested file, which nothing uses. -/
theorem Inv.cleanup (h : Inv s) {a : Asset} (ha : a ∈ s.db.outbox) (acknowledged : Bool) :
    Inv (if acknowledged then
      { s.discard a with db := { s.db with outbox := s.db.outbox.erase a } } else s.discard a) := by
  have hkept : ∀ b ∈ s.stored, ¬ Free s b → b ∈ s.stored.erase a := fun b hb hused =>
    Finset.mem_erase.mpr ⟨fun hba => hused (hba ▸ h.requested a ha), hb⟩
  cases acknowledged with
  | false =>
    exact h.frame (s.discard a) rfl rfl subset_rfl rfl hkept
      (fun b hb => Finset.mem_of_mem_erase hb) fun b hb => hb
  | true =>
    exact h.frame _ rfl rfl subset_rfl rfl hkept (fun b hb => Finset.mem_of_mem_erase hb)
      fun b hb => List.mem_of_mem_erase hb

end Steps

/-- The environment answers each transaction consistently, and its answers leave no doubt. -/
def Regular (s : System) : Event → Prop
  | .transaction i event => ∀ t ∈ s.tasks[i]?, ∀ call ∈ t.stage.call?,
      Consistent call event ∧ Definite call event
  | _ => True

/-- What follows a call does not depend on the stage before it. -/
theorem afterCall_stage (t : Task) (stage : Stage) (call : UnitOfWork.Call Unit) :
    Task.afterCall { t with stage := stage } call = t.afterCall call := by
  unfold Task.afterCall
  split
  · rfl
  · split
    · rfl
    · change Task.cleanUp _ (t.staged.map Prod.snd) = _
      cases t.staged.map Prod.snd <;> rfl
  · rfl

/-- Every regular event keeps the invariant. -/
theorem Inv.step {s s' : System} {e : Event} (h : Inv s) (hregular : Regular s e)
    (hstep : s.step e = some s') : Inv s' := by
  cases System.steps_of_step hstep with
  | @register user =>
    have hdocs := Finset.subset_insert (Owner.user user) s.db.documents
    exact h.frame _ rfl rfl hdocs rfl (fun a ha _ => ha) (fun a ha => ha) fun a ha => ha
  | start => exact h.start _
  | upload hi hstage hslot => exact h.upload hi hstage hslot
  | uploadFails stored hi hstage => exact h.uploadFails hi hstage stored
  | @transaction i t call call' event db hi hstage hbody hnext hdb =>
    obtain ⟨hconsistent, hdefinite⟩ := hregular t hi call (Stage.call?_eq hstage)
    have hproceed := h.proceed hi hstage hbody hnext hdb hconsistent hdefinite
    have hsettle := hproceed.settle (t := { t with stage := .transacting call' })
      (System.getElem?_setTask_self (s := { s with db := db }) hi) rfl
    rw [afterCall_stage] at hsettle
    simpa only [System.setTask, List.set_set] using hsettle
  | @queueDurable i t a rest ok hi hstage =>
    refine h.requests hi (by simp [Task.condemned, hstage]) ok
      ((h.formed i t hi).of_decided rfl rfl rfl) rfl fun b hb => ?_
    simpa [Task.condemned, hstage] using hb
  | @deleteImage i t a queued rest ok hi hstage =>
    refine h.discards hi (by simp [Task.condemned, hstage]) ok ((h.formed i t hi).cleanUp rest)
      (t.cleanUp_undecided rest) fun b hb => ?_
    rw [t.cleanUp_condemned] at hb
    simp [Task.condemned, hstage, hb]
  | @deleteOld i t a ok hi hstage =>
    exact h.discards hi (by simp [Task.condemned, hstage]) ok
      ((h.formed i t hi).of_decided rfl rfl rfl) rfl nofun
  | @crash i t hi => exact h.lets hi ((h.formed i t hi).of_decided rfl rfl rfl) rfl nofun
  | cleanup acknowledged ha => exact h.cleanup ha acknowledged

/-- The invariant holds when nothing is stored. -/
theorem inv_initial : Inv .initial := by
  have hempty : ∀ (i : ℕ) t, System.initial.tasks[i]? ≠ some t := fun i t hi => by
    simp [System.initial] at hi
  exact
    { sound := ⟨fun _ _ hs => (by cases hs), fun _ _ _ hs => (by cases hs)⟩
      known := fun a ha => absurd ha (Finset.notMem_empty a)
      used := fun _ ⟨_, hs⟩ => by cases hs
      claimed := fun i t hi => absurd hi (hempty i t)
      disjoint := fun i j t u hi => absurd hi (hempty i t)
      condemned := fun i t hi => absurd hi (hempty i t)
      requested := fun a ha => absurd ha List.not_mem_nil
      formed := fun i t hi => absurd hi (hempty i t)
      recalled := fun i t hi => absurd hi (hempty i t) }

/-- The invariant holds after every regular run. -/
theorem inv_run {es : List Event} {s : System}
    (hrun : Run (Restrict (Graph System.step) Regular) .initial es s) : Inv s :=
  hrun.invariant (fun _ _ _ h hstep => h.step hstep.1 hstep.2) inv_initial

/-- In every run every file that an image record, a user or a community refers to is stored, one of
them refers to it, and neither a command nor the worker is about to delete it. -/
theorem media_stored {es : List Event} {s : System}
    (hrun : Run (Restrict (Graph System.step) Regular) .initial es s) :
    s.db.Sound ∧ ∀ a, s.db.Refers a → a ∈ s.stored ∧ a ∉ s.db.outbox ∧
      ∀ t ∈ s.tasks, a ∉ t.condemned := by
  have h := inv_run hrun
  refine ⟨h.sound, fun a ha => ⟨h.used a ha, fun hout => (h.requested a hout).unused ha, ?_⟩⟩
  intro t ht hcondemned
  obtain ⟨i, hi⟩ := List.getElem?_of_mem ht
  exact (h.condemned i t hi a hcondemned).unused ha

/-- A commit that takes effect while its answer is lost, and is tried again. -/
def lostAnswer (task : ℕ) : List Event :=
  [.sessionStarts, .transactionStarts, .bodyReturns (),
    .commitFails UnitOfWork.unknownCommitResult true false, .waits, .commits,
    .sessionEnds].map (.transaction task)

/-- Two updates of one avatar, the later one with a lost answer; the first file is deleted. -/
def twoAvatars : List Event :=
  [.register 1, .start (.updateAvatar 1), .upload 0] ++ lostAnswer 0 ++
    [.start (.updateAvatar 1), .upload 1] ++ lostAnswer 1 ++ [.deleteOld 1 true]

private theorem regular_twoAvatars : ∀ e ∈ twoAvatars, ∀ s, Regular s e := by
  have hunknown :
      UnitOfWork.isUnknownTransactionCommitResult UnitOfWork.unknownCommitResult = true := by
    decide
  simp [twoAvatars, lostAnswer, Regular, Consistent, Definite, hunknown]

/-- After two avatars the second one is stored. -/
theorem media_stored_twoAvatars : ∃ s,
    Run (Restrict (Graph System.step) Regular) .initial twoAvatars s ∧ 1 ∈ s.stored := by
  obtain ⟨s, hs, hmedia⟩ := exec_any (by decide +kernel :
    (exec System.step .initial twoAvatars).any (fun s =>
      decide (s.db.media ⟨.user 1, .avatar⟩ = some 1)) = true)
  have hrun := hs.restrict regular_twoAvatars
  exact ⟨s, hrun, ((media_stored hrun).2 1 ⟨_, of_decide_eq_true hmedia⟩).1⟩

end Ascendance.MediaAssets
