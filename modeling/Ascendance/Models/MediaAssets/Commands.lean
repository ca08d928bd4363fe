import Ascendance.Models.MediaAssets.Documents
import Ascendance.Models.UnitOfWork.Effects

/-!
# Commands that change media

A command uploads its files, runs its transaction and then deletes what turned out to be of no
use: the new files after a failure, the old one of a profile after the commit. Any number of
commands run at once, a process may stop at any point, and a worker deletes the files whose
cleanup was requested.
-/

namespace Ascendance.MediaAssets

open Ascendance.Core

/-- The commands, with the documents that they are about. -/
inductive Command where
  /-- `createPost` and `AttachmentTransactionService.run`. -/
  | attach
  | updateAvatar (user : ℕ)
  | updateCover (user : ℕ)
  | createCommunity (community : ℕ) (avatar : Bool)
  | updateCommunity (community : ℕ) (avatar coverPhoto : Bool)
  /-- A deletion, with the documents that are only cleared. -/
  | remove (documents cleared : List Owner)
  deriving DecidableEq, Repr

namespace Command

/-- `deletePost`, `unrepostPost` and `deleteComment`. -/
def deleteContent (images : List Asset) : Command := .remove (images.map .image) []

/-- Delete a community with the images of its posts. -/
def deleteCommunity (community : ℕ) (images : List Asset) : Command :=
  .remove (.community community :: images.map .image) []

/-- `purgeUser`, which also deletes the communities that nobody takes over. -/
def deleteUser (user : ℕ) (images : List Asset) (communities : List ℕ) : Command :=
  .remove (.user user :: images.map .image ++ communities.map .community) []

/-- `purgeUser` for a user that is banned and stays. -/
def banUser (user : ℕ) (images : List Asset) (communities : List ℕ) : Command :=
  .remove (images.map .image ++ communities.map .community) [.user user]

/-- The files that a command uploads, by the slots that they are for. -/
def uploads : Command → List (Asset → Slot)
  | .attach => [fun a => ⟨.image a, .file⟩]
  | .updateAvatar user => [fun _ => ⟨.user user, .avatar⟩]
  | .updateCover user => [fun _ => ⟨.user user, .cover⟩]
  | .createCommunity community avatar =>
    if avatar then [fun _ => ⟨.community community, .avatar⟩] else []
  | .updateCommunity community avatar coverPhoto =>
    let avatars : List (Asset → Slot) :=
      if avatar then [fun _ => ⟨.community community, .avatar⟩] else []
    let covers : List (Asset → Slot) :=
      if coverPhoto then [fun _ => ⟨.community community, .cover⟩] else []
    avatars ++ covers
  | .remove _ _ => []

/-- The document that must be there when the command starts. -/
def target : Command → Option Owner
  | .updateAvatar user | .updateCover user => some (.user user)
  | .updateCommunity community _ _ => some (.community community)
  | _ => none

/-- The slot whose file is deleted after the commit. -/
def replaces : Command → Option Slot
  | .updateAvatar user => some ⟨.user user, .avatar⟩
  | .updateCover user => some ⟨.user user, .cover⟩
  | _ => none

/-- Whether the cleanup of new files is queued before they are deleted. -/
def queuesCleanup : Command → Bool
  | .updateAvatar _ | .updateCover _ => false
  | _ => true

/-- The transaction; it throws where there is no result. -/
def write (staged : List (Slot × Asset)) (db : Database) : Command → Option Database
  | .attach => db.create (staged.map fun p => p.1.owner) staged
  | .updateAvatar user | .updateCover user => some (db.updateProfile user staged)
  | .createCommunity community _ => db.create [.community community] staged
  | .updateCommunity community _ _ => db.updateCommunity community staged
  | .remove documents cleared => db.remove documents cleared

end Command

/-- Where a command stands. -/
inductive Stage where
  | uploading
  | transacting (call : UnitOfWork.Call Unit)
  /-- Before `queueDurable` for the first file. -/
  | queueing (asset : Asset) (rest : List Asset)
  /-- Before `deleteImage` for the first file. -/
  | deleting (asset : Asset) (queued : Bool) (rest : List Asset)
  | deletingOld (asset : Asset)
  | done

/-- The transaction under way. -/
def Stage.call? : Stage → Option (UnitOfWork.Call Unit)
  | .transacting call => some call
  | _ => none

/-- The cleanup of the file that is deleted next is queued. -/
def Stage.queued : Stage → Bool
  | .deleting _ queued _ => queued
  | _ => false

/-- Is the command over? -/
def Stage.isDone : Stage → Bool
  | .done => true
  | _ => false

/-- A stage that is over is the last one. -/
theorem Stage.eq_done {stage : Stage} (h : stage.isDone = true) : stage = .done := by
  cases stage <;> first | rfl | cases h

/-- A command in its transaction has a call. -/
theorem Stage.call?_eq {stage : Stage} {call : UnitOfWork.Call Unit}
    (h : stage = .transacting call) : stage.call? = some call := by
  rw [h]
  rfl

/-- A running command with the files it has uploaded. -/
structure Task where
  command : Command
  /-- The file that the profile had when the command read it. -/
  old : Option Asset
  staged : List (Slot × Asset)
  stage : Stage

namespace Task

/-- The next upload, or the transaction after the last one. -/
def advance (t : Task) : Task :=
  { t with stage :=
      if t.staged.length < t.command.uploads.length then .uploading
      else .transacting (.start (UnitOfWork.resolveTransactionConfig .empty)) }

/-- The cleanup of new files. -/
def cleanUp (t : Task) : List Asset → Task
  | [] => { t with stage := .done }
  | a :: rest =>
    { t with stage :=
        if t.command.queuesCleanup then .queueing a rest else .deleting a false rest }

/-- What follows on a step of the transaction. After an ambiguous commit the files are kept. -/
def afterCall (t : Task) (call : UnitOfWork.Call Unit) : Task :=
  match call.phase with
  | .settled (.resolved _) =>
    { t with stage := match t.old with
        | some a => .deletingOld a
        | none => .done }
  | .settled (.rejected error) =>
    if error.ambiguous then { t with stage := .done } else t.cleanUp (t.staged.map Prod.snd)
  | _ => { t with stage := .transacting call }

end Task

/-- The database, the stored files and the running commands. -/
structure System where
  db : Database
  stored : Finset Asset
  /-- The next identifier that the storage gives. -/
  next : Asset
  tasks : List Task

namespace System

/-- Nothing is stored and nothing runs. -/
def initial : System where
  db := .empty
  stored := ∅
  next := 0
  tasks := []

/-- Put a task into another state. -/
def setTask (s : System) (i : ℕ) (t : Task) : System := { s with tasks := s.tasks.set i t }

/-- Ask for a file to be deleted. -/
def request (s : System) (a : Asset) : System :=
  { s with db := { s.db with outbox := s.db.outbox ++ [a] } }

/-- Delete a file. -/
def discard (s : System) (a : Asset) : System := { s with stored := s.stored.erase a }

/-- A file arrives in the storage. -/
def store (s : System) : System := { s with stored := insert s.next s.stored, next := s.next + 1 }

end System

/-- What can happen: commands start and take their steps, processes stop, files are cleaned up. -/
inductive Event where
  | register (user : ℕ)
  | start (command : Command)
  | upload (task : ℕ)
  /-- An upload throws; the file may be stored all the same. -/
  | uploadFails (task : ℕ) (stored : Bool)
  | transaction (task : ℕ) (event : UnitOfWork.Event Unit)
  | queueDurable (task : ℕ) (ok : Bool)
  | deleteImage (task : ℕ) (ok : Bool)
  | deleteOld (task : ℕ) (ok : Bool)
  /-- The process of the task stops. -/
  | crash (task : ℕ)
  /-- The worker deletes a file; it may stop before it has acknowledged the event. -/
  | cleanup (asset : Asset) (acknowledged : Bool)

namespace System

/-- The effect of an event, where it can happen. -/
def step (s : System) : Event → Option System
  | .register user =>
    if .user user ∈ s.db.documents then none
    else some { s with db := { s.db with documents := insert (.user user) s.db.documents } }
  | .start command =>
    if ∀ owner ∈ command.target, owner ∈ s.db.documents then
      some { s with tasks := s.tasks ++
        [Task.advance ⟨command, command.replaces.bind s.db.media, [], .uploading⟩] }
    else none
  | .upload i => s.tasks[i]?.bind fun t =>
    match t.stage, t.command.uploads[t.staged.length]? with
    | .uploading, some slot =>
      some
        (s.store.setTask i (Task.advance { t with staged := t.staged ++ [(slot s.next, s.next)] }))
    | _, _ => none
  | .uploadFails i stored => s.tasks[i]?.bind fun t =>
    match t.stage with
    | .uploading =>
      some ((if stored then s.store else s).setTask i (t.cleanUp (t.staged.map Prod.snd)))
    | _ => none
  | .transaction i event => s.tasks[i]?.bind fun t =>
    match t.stage, event.endsBody with
    | .transacting call, false => (call.next event).bind fun call' =>
      let db := if call.takesEffect event then t.command.write t.staged s.db else some s.db
      db.map fun db => { s with db := db }.setTask i (t.afterCall call')
    | _, _ => none
  | .queueDurable i ok => s.tasks[i]?.bind fun t =>
    match t.stage with
    | .queueing a rest =>
      some ((if ok then s.request a else s).setTask i { t with stage := .deleting a ok rest })
    | _ => none
  | .deleteImage i ok => s.tasks[i]?.bind fun t =>
    match t.stage with
    | .deleting a _ rest =>
      some ((if ok then s.discard a else s).setTask i (t.cleanUp rest))
    | _ => none
  | .deleteOld i ok => s.tasks[i]?.bind fun t =>
    match t.stage with
    | .deletingOld a =>
      some ((if ok then s.discard a else s).setTask i { t with stage := .done })
    | _ => none
  | .crash i => s.tasks[i]?.map fun t => s.setTask i { t with stage := .done }
  | .cleanup a acknowledged =>
    if a ∈ s.db.outbox then
      some (if acknowledged then
        { s.discard a with db := { s.db with outbox := s.db.outbox.erase a } } else s.discard a)
    else none

/-- What an event does, case by case. -/
inductive Steps (s : System) : Event → System → Prop
  | register {user : ℕ} (hnew : .user user ∉ s.db.documents) :
      Steps s (.register user)
        { s with db := { s.db with documents := insert (.user user) s.db.documents } }
  | start {command : Command} (htarget : ∀ owner ∈ command.target, owner ∈ s.db.documents) :
      Steps s (.start command) { s with tasks := s.tasks ++
        [Task.advance ⟨command, command.replaces.bind s.db.media, [], .uploading⟩] }
  | upload {i : ℕ} {t : Task} {slot : Asset → Slot} (hi : s.tasks[i]? = some t)
      (hstage : t.stage = .uploading) (hslot : t.command.uploads[t.staged.length]? = some slot) :
      Steps s (.upload i) (s.store.setTask i
        (Task.advance { t with staged := t.staged ++ [(slot s.next, s.next)] }))
  | uploadFails {i : ℕ} {t : Task} (stored : Bool) (hi : s.tasks[i]? = some t)
      (hstage : t.stage = .uploading) :
      Steps s (.uploadFails i stored)
        ((if stored then s.store else s).setTask i (t.cleanUp (t.staged.map Prod.snd)))
  | transaction {i : ℕ} {t : Task} {call call' : UnitOfWork.Call Unit}
      {event : UnitOfWork.Event Unit} {db : Database} (hi : s.tasks[i]? = some t)
      (hstage : t.stage = .transacting call) (hbody : event.endsBody = false)
      (hnext : call.next event = some call')
      (hdb :
        (if call.takesEffect event then t.command.write t.staged s.db else some s.db) = some db) :
      Steps s (.transaction i event) ({ s with db := db }.setTask i (t.afterCall call'))
  | queueDurable {i : ℕ} {t : Task} {a : Asset} {rest : List Asset} (ok : Bool)
      (hi : s.tasks[i]? = some t) (hstage : t.stage = .queueing a rest) :
      Steps s (.queueDurable i ok)
        ((if ok then s.request a else s).setTask i { t with stage := .deleting a ok rest })
  | deleteImage {i : ℕ} {t : Task} {a : Asset} {queued : Bool} {rest : List Asset} (ok : Bool)
      (hi : s.tasks[i]? = some t) (hstage : t.stage = .deleting a queued rest) :
      Steps s (.deleteImage i ok) ((if ok then s.discard a else s).setTask i (t.cleanUp rest))
  | deleteOld {i : ℕ} {t : Task} {a : Asset} (ok : Bool) (hi : s.tasks[i]? = some t)
      (hstage : t.stage = .deletingOld a) :
      Steps s (.deleteOld i ok)
        ((if ok then s.discard a else s).setTask i { t with stage := .done })
  | crash {i : ℕ} {t : Task} (hi : s.tasks[i]? = some t) :
      Steps s (.crash i) (s.setTask i { t with stage := .done })
  | cleanup {a : Asset} (acknowledged : Bool) (ha : a ∈ s.db.outbox) :
      Steps s (.cleanup a acknowledged)
        (if acknowledged then
          { s.discard a with db := { s.db with outbox := s.db.outbox.erase a } } else s.discard a)

/-- An executed event is one of the listed steps. -/
theorem steps_of_step {s s' : System} {e : Event} (h : s.step e = some s') : Steps s e s' := by
  cases e with
  | register user =>
    simp only [step] at h
    split at h
    · cases h
    · next hnew => exact Option.some.inj h ▸ .register hnew
  | start command =>
    simp only [step] at h
    split at h
    · next htarget => exact Option.some.inj h ▸ .start htarget
    · cases h
  | upload i =>
    obtain ⟨t, hi, h⟩ := Option.bind_eq_some_iff.mp h
    split at h
    · next hstage hslot => exact Option.some.inj h ▸ .upload hi hstage hslot
    · cases h
  | uploadFails i stored =>
    obtain ⟨t, hi, h⟩ := Option.bind_eq_some_iff.mp h
    split at h
    · next hstage => exact Option.some.inj h ▸ .uploadFails stored hi hstage
    · cases h
  | transaction i event =>
    obtain ⟨t, hi, h⟩ := Option.bind_eq_some_iff.mp h
    split at h
    · next hstage hbody =>
      obtain ⟨call', hnext, h⟩ := Option.bind_eq_some_iff.mp h
      obtain ⟨db, hdb, rfl⟩ := Option.map_eq_some_iff.mp h
      exact .transaction hi hstage hbody hnext hdb
    · cases h
  | queueDurable i ok =>
    obtain ⟨t, hi, h⟩ := Option.bind_eq_some_iff.mp h
    split at h
    · next hstage => exact Option.some.inj h ▸ .queueDurable ok hi hstage
    · cases h
  | deleteImage i ok =>
    obtain ⟨t, hi, h⟩ := Option.bind_eq_some_iff.mp h
    split at h
    · next hstage => exact Option.some.inj h ▸ .deleteImage ok hi hstage
    · cases h
  | deleteOld i ok =>
    obtain ⟨t, hi, h⟩ := Option.bind_eq_some_iff.mp h
    split at h
    · next hstage => exact Option.some.inj h ▸ .deleteOld ok hi hstage
    · cases h
  | crash i =>
    obtain ⟨t, hi, rfl⟩ := Option.map_eq_some_iff.mp h
    exact .crash hi
  | cleanup a acknowledged =>
    simp only [step] at h
    split at h
    · next ha => exact Option.some.inj h ▸ .cleanup acknowledged ha
    · cases h

end System

end Ascendance.MediaAssets
