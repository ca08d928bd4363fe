import Ascendance.Core.Lists
import Mathlib.Data.Finset.Erase
import Mathlib.Data.Finset.Insert
import Mathlib.Data.Finset.SDiff
import Mathlib.Data.List.Dedup

/-!
# Documents that refer to files

Image records, users and communities refer to files in the storage. A transaction changes
documents and references together and queues the requests to delete the files that it lets go.
The copies of an avatar's URL that posts, comments and notifications carry are no references:
no command looks at them when it deletes a file.
-/

namespace Ascendance.MediaAssets

open Ascendance.Core

/-- A file in the storage, by its identifier there. -/
abbrev Asset := ℕ

/-- The documents whose files the commands look after. No two image records have the same file. -/
inductive Owner where
  | image (storagePublicId : Asset)
  | user (id : ℕ)
  | community (id : ℕ)
  deriving DecidableEq, Repr

/-- Is the owner an image record? -/
def Owner.isImage : Owner → Bool
  | .image _ => true
  | _ => false

/-- The places of a document that hold a file. -/
inductive Field where
  | file
  | avatar
  | cover
  deriving DecidableEq, Repr

/-- A place that holds a file. -/
structure Slot where
  owner : Owner
  field : Field
  deriving DecidableEq, Repr

/-- The documents, their files and the requested clean-ups. -/
structure Database where
  documents : Finset Owner
  media : Slot → Option Asset
  /-- `ImageAssetCleanupRequestedEvent`s that are not processed. -/
  outbox : List Asset

namespace Database

/-- No documents. -/
def empty : Database where
  documents := ∅
  media := fun _ => none
  outbox := []

/-- The file is in use by an image record, a user or a community. -/
def Refers (db : Database) (a : Asset) : Prop := ∃ slot, db.media slot = some a

/-- The files of a document. -/
def assets (db : Database) (owner : Owner) : List Asset :=
  ([.file, .avatar, .cover].filterMap fun field => db.media ⟨owner, field⟩).dedup

/-- The files of a document are those in its slots. -/
private theorem mem_assets {db : Database} {owner : Owner} {a : Asset} :
    a ∈ db.assets owner ↔ ∃ slot, slot.owner = owner ∧ db.media slot = some a := by
  rw [assets, List.mem_dedup, List.mem_filterMap]
  constructor
  · rintro ⟨field, -, h⟩
    exact ⟨⟨owner, field⟩, rfl, h⟩
  · rintro ⟨⟨owner, field⟩, rfl, h⟩
    refine ⟨field, ?_, h⟩
    cases field <;> simp

/-- The references after an update. -/
def put (db : Database) (staged : List (Slot × Asset)) : Database :=
  { db with media := fun slot => (staged.lookup slot).or (db.media slot) }

/-- Insert documents that refer to the staged files; the keys are unique. -/
def create (db : Database) (owners : List Owner) (staged : List (Slot × Asset)) : Option Database :=
  if ∀ owner ∈ owners, owner ∉ db.documents then
    some { db.put staged with documents := db.documents ∪ owners.toFinset }
  else none

/-- `findByIdAndUpdate` of a user's avatar or cover: nothing happens without the user. -/
def updateProfile (db : Database) (user : ℕ) (staged : List (Slot × Asset)) : Database :=
  if .user user ∈ db.documents then db.put staged else db

/-- The transaction of `updateCommunity`, which requests the deletion of the replaced files. -/
def updateCommunity (db : Database) (community : ℕ) (staged : List (Slot × Asset)) :
    Option Database :=
  if .community community ∈ db.documents then
    let updated := db.put staged
    let retained := updated.assets (.community community)
    let replaced := (db.assets (.community community)).filter (· ∉ retained)
    some { updated with outbox := updated.outbox ++ replaced }
  else none

/-- Delete documents and clear others, and request the deletion of their files. Image records that
are gone are skipped. -/
def remove (db : Database) (documents cleared : List Owner) : Option Database :=
  if ∀ owner ∈ documents ++ cleared, owner.isImage = true ∨ owner ∈ db.documents then
    let owners := (documents ++ cleared).filter (· ∈ db.documents)
    some
      { documents := db.documents \ documents.toFinset
        media := fun slot => if slot.owner ∈ documents ++ cleared then none else db.media slot
        outbox := db.outbox ++ owners.flatMap db.assets }
  else none

end Database

/-- Staged files and the slots that they are for are distinct. -/
structure Apart (staged : List (Slot × Asset)) : Prop where
  slots : (staged.map Prod.fst).Nodup
  assets : (staged.map Prod.snd).Nodup

/-- The documents of all references are there, and no file has two. -/
structure Database.Sound (db : Database) : Prop where
  owned : ∀ slot a, db.media slot = some a → slot.owner ∈ db.documents
  sole : ∀ slot slot' a, db.media slot = some a → db.media slot' = some a → slot = slot'

/-- A staged file has one slot. -/
private theorem Apart.eq_of_mem {staged : List (Slot × Asset)} (h : Apart staged)
    {slot slot' : Slot}
    {a : Asset} (hs : (slot, a) ∈ staged) (hs' : (slot', a) ∈ staged) : slot = slot' :=
  congrArg Prod.fst (List.inj_on_of_nodup_map h.assets hs hs' rfl)

section Put

variable {db : Database} {staged : List (Slot × Asset)} {slot : Slot} {a : Asset}

/-- Where the slots are distinct, every entry is found. -/
theorem Apart.lookup (h : Apart staged) (hmem : (slot, a) ∈ staged) :
    staged.lookup slot = some a := by
  cases hl : staged.lookup slot with
  | none =>
    have hno := List.lookup_eq_none_iff.mp hl (slot, a) hmem
    simp at hno
  | some b =>
    have hin := mem_of_lookup hl
    have hsame := List.inj_on_of_nodup_map h.slots hin hmem rfl
    rw [(Prod.mk.inj hsame).2]

/-- A file in a slot was written now or was there before. -/
theorem media_put (h : (db.put staged).media slot = some a) :
    (slot, a) ∈ staged ∨ (staged.lookup slot = none ∧ db.media slot = some a) := by
  simp only [Database.put] at h
  cases hl : staged.lookup slot with
  | none => exact Or.inr ⟨rfl, by simpa [hl] using h⟩
  | some b =>
    obtain rfl : b = a := by simpa [hl] using h
    exact Or.inl (mem_of_lookup hl)

/-- What is written is in its slot. -/
theorem Apart.media_put (h : Apart staged) (hmem : (slot, a) ∈ staged) :
    (db.put staged).media slot = some a := by
  simp [Database.put, h.lookup hmem]

private theorem media_put_kept (hl : staged.lookup slot = none) :
    (db.put staged).media slot = db.media slot := by
  simp [Database.put, hl]

end Put

/-- A transaction refers to nothing but its staged files and those that were in use, and requests
the deletion of files that it lets go. -/
structure Wrote (staged : List (Slot × Asset)) (db db' : Database) : Prop where
  sound : db'.Sound
  media : ∀ slot a, db'.media slot = some a → (slot, a) ∈ staged ∨ db.media slot = some a
  requested : ∀ a ∈ db'.outbox, a ∈ db.outbox ∨ (db.Refers a ∧ ¬ db'.Refers a)

/-- A transaction uses its staged files, and lets none go but the excepted one without a request. -/
structure Settled (staged : List (Slot × Asset)) (except : Option Asset) (db db' : Database) :
    Prop where
  placed : ∀ slot a, (slot, a) ∈ staged → db'.media slot = some a
  kept : ∀ slot a, db.media slot = some a → db'.Refers a ∨ a ∈ db'.outbox ∨ except = some a
  requests : ∀ a ∈ db.outbox, a ∈ db'.outbox

section Writes

variable {db db' : Database} {staged : List (Slot × Asset)}

/-- Writing files that are new keeps the references sound. -/
private theorem put_sound (hdb : db.Sound) (hstaged : Apart staged)
    (hnew : ∀ slot a, (slot, a) ∈ staged → ¬ db.Refers a) {documents : Finset Owner}
    (hdocs : db.documents ⊆ documents)
    (howned : ∀ slot a, (slot, a) ∈ staged → slot.owner ∈ documents) :
    Database.Sound { db.put staged with documents := documents } where
  owned slot a h := by
    rcases media_put h with hin | ⟨-, hold⟩
    · exact howned slot a hin
    · exact hdocs (hdb.owned slot a hold)
  sole slot slot' a h h' := by
    rcases media_put h with hin | ⟨-, hold⟩ <;> rcases media_put h' with hin' | ⟨-, hold'⟩
    · exact hstaged.eq_of_mem hin hin'
    · exact absurd ⟨slot', hold'⟩ (hnew slot a hin)
    · exact absurd ⟨slot, hold⟩ (hnew slot' a hin')
    · exact hdb.sole slot slot' a hold hold'

/-- Creating documents writes the staged files and nothing else. -/
theorem create_wrote (hdb : db.Sound) (hstaged : Apart staged)
    (hnew : ∀ slot a, (slot, a) ∈ staged → ¬ db.Refers a) {owners : List Owner}
    (howned : ∀ slot a, (slot, a) ∈ staged → slot.owner ∈ owners)
    (h : db.create owners staged = some db') :
    Wrote staged db db' ∧ Settled staged none db db' := by
  simp only [Database.create] at h
  split at h
  case isFalse => cases h
  next habsent =>
    obtain rfl := Option.some.inj h
    refine ⟨⟨?_, fun slot a hs => (media_put hs).imp id And.right, fun a ha => Or.inl ha⟩,
      fun slot a hin => hstaged.media_put hin, fun slot a hs => Or.inl ⟨slot, ?_⟩, fun a ha => ha⟩
    · refine put_sound hdb hstaged hnew Finset.subset_union_left fun slot a hin => ?_
      exact Finset.mem_union_right _ (List.mem_toFinset.mpr (howned slot a hin))
    · -- The slots of new documents were not in use.
      have hl : staged.lookup slot = none := by
        cases hl : staged.lookup slot with
        | none => rfl
        | some b =>
            exact absurd (hdb.owned slot a hs) (habsent _ (howned slot b (mem_of_lookup hl)))
      exact (media_put_kept hl).trans hs

/-- Updating a profile writes the staged files and nothing else. -/
theorem updateProfile_wrote (hdb : db.Sound) (hstaged : Apart staged)
    (hnew : ∀ slot a, (slot, a) ∈ staged → ¬ db.Refers a) {user : ℕ}
    (howned : ∀ slot a, (slot, a) ∈ staged → slot.owner = .user user) :
    Wrote staged db (db.updateProfile user staged) := by
  unfold Database.updateProfile
  split
  · next hin =>
    refine ⟨?_, fun slot a hs => (media_put hs).imp id And.right, fun a ha => Or.inl ha⟩
    exact put_sound hdb hstaged hnew subset_rfl fun slot a hmem => howned slot a hmem ▸ hin
  · exact ⟨hdb, fun slot a hs => Or.inr hs, fun a ha => Or.inl ha⟩

/-- Nothing is lost when the user is there and the new file takes the place of the excepted one. -/
theorem updateProfile_settled {user : ℕ} {slot : Slot} {a : Asset} {except : Option Asset}
    (hin : .user user ∈ db.documents) (hold : db.media slot = except) :
    Settled [(slot, a)] except db (db.updateProfile user [(slot, a)]) := by
  unfold Database.updateProfile
  rw [if_pos hin]
  have hapart : Apart [(slot, a)] := ⟨List.nodup_singleton _, List.nodup_singleton _⟩
  refine ⟨fun slot a hmem => hapart.media_put hmem, fun slot' b hs => ?_, fun b hb => hb⟩
  by_cases heq : slot' = slot
  · subst heq
    exact Or.inr (Or.inr (hold.symm.trans hs))
  · refine Or.inl ⟨slot', (media_put_kept ?_).trans hs⟩
    simp [List.lookup_cons, beq_false_of_ne heq]

/-- Updating a community writes the staged files and nothing else. -/
theorem updateCommunity_wrote (hdb : db.Sound) (hstaged : Apart staged)
    (hnew : ∀ slot a, (slot, a) ∈ staged → ¬ db.Refers a) {community : ℕ}
    (howned : ∀ slot a, (slot, a) ∈ staged → slot.owner = .community community)
    (h : db.updateCommunity community staged = some db') :
    Wrote staged db db' ∧ Settled staged none db db' := by
  simp only [Database.updateCommunity] at h
  split at h
  case isFalse => cases h
  next hin =>
    obtain rfl := Option.some.inj h
    refine ⟨⟨?_, fun slot a hs => (media_put hs).imp id And.right, fun a ha => ?_⟩,
      fun slot a hmem => hstaged.media_put hmem, fun slot a hs => ?_,
      fun a ha => List.mem_append_left _ ha⟩
    · have hput := put_sound hdb hstaged hnew subset_rfl fun slot a hmem => howned slot a hmem ▸ hin
      exact ⟨hput.owned, hput.sole⟩
    · rcases List.mem_append.mp ha with ha | ha
      · exact Or.inl ha
      · -- A replaced file was the community's, and nothing else refers to it.
        obtain ⟨hbefore, hafter⟩ := List.mem_filter.mp ha
        obtain ⟨slot, howner, hs⟩ := Database.mem_assets.mp hbefore
        refine Or.inr ⟨⟨slot, hs⟩, fun ⟨slot', hs'⟩ => ?_⟩
        have hgone := of_decide_eq_true hafter
        rcases media_put hs' with hmem | ⟨-, hold⟩
        · exact hnew slot' a hmem ⟨slot, hs⟩
        · refine hgone (Database.mem_assets.mpr ⟨slot', ?_, hs'⟩)
          rw [hdb.sole slot' slot a hold hs, howner]
    · by_cases hafter : (db.put staged).Refers a
      · exact Or.inl hafter
      · refine Or.inr (Or.inl (List.mem_append_right _ (List.mem_filter.mpr ⟨?_, ?_⟩)))
        · refine Database.mem_assets.mpr ⟨slot, ?_, hs⟩
          cases hl : staged.lookup slot with
          | none => exact absurd ⟨slot, (media_put_kept hl).trans hs⟩ hafter
          | some b => exact howned slot b (mem_of_lookup hl)
        · refine decide_eq_true fun hmem => hafter ?_
          obtain ⟨slot', -, hs'⟩ := Database.mem_assets.mp hmem
          exact ⟨slot', hs'⟩

/-- Removing documents writes no file. -/
theorem remove_wrote (hdb : db.Sound) {documents cleared : List Owner}
    (h : db.remove documents cleared = some db') :
    Wrote [] db db' ∧ Settled [] none db db' := by
  simp only [Database.remove] at h
  split at h
  case isFalse => cases h
  obtain rfl := Option.some.inj h
  have hkept : ∀ slot a,
      (if slot.owner ∈ documents ++ cleared then none else db.media slot) = some a →
      slot.owner ∉ documents ++ cleared ∧ db.media slot = some a := by
    intro slot a hs
    split at hs
    · cases hs
    · next hnot => exact ⟨hnot, hs⟩
  refine ⟨⟨⟨fun slot a hs => ?_, fun slot slot' a hs hs' => ?_⟩,
    fun slot a hs => Or.inr (hkept slot a hs).2, fun a ha => ?_⟩, nofun, fun slot a hs => ?_,
    fun a ha => List.mem_append_left _ ha⟩
  · obtain ⟨hnot, hold⟩ := hkept slot a hs
    refine Finset.mem_sdiff.mpr ⟨hdb.owned slot a hold, fun hin => hnot ?_⟩
    exact List.mem_append_left _ (List.mem_toFinset.mp hin)
  · exact hdb.sole slot slot' a (hkept slot a hs).2 (hkept slot' a hs').2
  · rcases List.mem_append.mp ha with ha | ha
    · exact Or.inl ha
    · obtain ⟨owner, howner, hmem⟩ := List.mem_flatMap.mp ha
      obtain ⟨slot, rfl, hs⟩ := Database.mem_assets.mp hmem
      refine Or.inr ⟨⟨slot, hs⟩, fun ⟨slot', hs'⟩ => ?_⟩
      obtain ⟨hnot, hold⟩ := hkept slot' a hs'
      rw [hdb.sole slot' slot a hold hs] at hnot
      exact hnot (List.mem_filter.mp howner).1
  · by_cases hin : slot.owner ∈ documents ++ cleared
    · refine Or.inr (Or.inl (List.mem_append_right _ (List.mem_flatMap.mpr ⟨slot.owner, ?_, ?_⟩)))
      · exact List.mem_filter.mpr ⟨hin, decide_eq_true (hdb.owned slot a hs)⟩
      · exact Database.mem_assets.mpr ⟨slot, rfl, hs⟩
    · exact Or.inl ⟨slot, by simpa only [if_neg hin] using hs⟩

end Writes

end Ascendance.MediaAssets
