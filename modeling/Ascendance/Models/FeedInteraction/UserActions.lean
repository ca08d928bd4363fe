import Ascendance.Core.Rely
import Ascendance.Models.FeedInteraction.Handlers

/-!
# User actions and the events on them

A user action is staged with its event. It stays until its post is deleted, and it does not come
back when events are recorded only while their posts are there.
-/

namespace Ascendance.FeedInteraction

open Ascendance.Core
open Ascendance.Social (AppError)

/-- Events name their user action, which stands as long as the post is there. -/
structure Staged (db : Store) : Prop where
  named : ∀ eventId (event : InteractionEvent), db.doc (.event eventId) = some event →
    event.activityId = eventId
  stands : ∀ eventId (event : InteractionEvent), db.doc (.event eventId) = some event →
    db.doc (.post event.postId) ≠ none → ∃ action : UserAction,
      db.doc (.userAction eventId) = some action ∧ action.targetId = event.postId

/-- Events stay as they are, and user actions of events that are gone stay away. -/
structure Keeps (earlier later : Committed Key Doc) : Prop where
  events : ∀ eventId (event : InteractionEvent), earlier.db.doc (.event eventId) = some event →
    later.db.doc (.event eventId) = some event
  gone : ∀ eventId, earlier.db.doc (.event eventId) ≠ none →
    earlier.db.doc (.userAction eventId) = none → later.db.doc (.userAction eventId) = none

/-- What a command commits on a snapshot. -/
inductive Effect (s : Committed Key Doc) : Command → Store → Prop
  | like {eventId userId postId : ℕ} {tags : List String} {after : Store}
      (hbody : likeBody eventId userId postId tags s.db = .ok after) :
      Effect s (.likeActionByPublicId eventId userId postId) after
  | delete {postIds : List ℕ} : Effect s (.deletePosts postIds) (deletePostGraph postIds s.db)
  | record {eventId : ℕ} {event : InteractionEvent} {target : Option ℕ} {after : Store}
      (hevent : s.db.doc (.event eventId) = some event)
      (hbody : recordBody event target s.db = .ok after) :
      Effect s (.deliver eventId) after

/-- An event is recorded on a snapshot that has its post. -/
def FindsPost (c : Command) (snapshot : Committed Key Doc) : Prop :=
  ∀ eventId (event : InteractionEvent), c = .deliver eventId →
    snapshot.db.doc (.event eventId) = some event → snapshot.db.doc (.post event.postId) ≠ none

/-- What the handlers keep, when the posts of recorded events are there. -/
def discipline : Discipline Key Doc Command where
  serial := serial
  good := fun c => Staged c.db
  later := Keeps
  effect := fun c s after => Effect s c after
  condition := fun c s _ _ => FindsPost c s

section Sound

variable {c : Command} {past : List (Committed Key Doc)}

/-- Reading a document is sound when what follows it is. -/
private theorem sound_require {k : Key} {error : AppError} {next : Doc k → Handler}
    (h : ∀ s d, s.db.doc k = some d → discipline.Sound c (s :: past) (next d)) :
    discipline.Sound c past (require k error next) := by
  intro s _ _
  dsimp only
  split
  · next d hd => exact h s d hd
  · trivial

/-- A transaction is sound when its body has an effect. -/
private theorem sound_executeInTransaction {body : Store → Except HandlerError Store}
    {next : Handler} (hbody : ∀ s after, (∀ r ∈ past, discipline.Before r s) →
      body s.db = .ok after → Effect s c after)
    (hnext : ∀ s, discipline.Sound c (s :: past) next) :
    discipline.Sound c past (executeInTransaction body next) :=
  ⟨fun s after _ hpast hafter => hbody s after hpast hafter, fun _ => trivial,
    fun _ _ _ _ => hnext _⟩

/-- What a handler commits is an effect of its command. -/
theorem handler_sound (c : Command) : discipline.Sound c [] c.handler := by
  cases c with
  | likeActionByPublicId eventId userId postId =>
    exact sound_require fun _ _ _ => sound_require fun _ _ _ => sound_executeInTransaction
      (fun s after _ hafter => .like hafter) fun _ => sound_require fun _ _ _ => trivial
  | deletePosts postIds =>
    refine sound_executeInTransaction (fun s after _ hafter => ?_) fun _ => trivial
    obtain rfl := Except.ok.inj hafter
    exact .delete
  | deliver eventId =>
    intro r _ _
    dsimp only
    split
    · next event hevent =>
      intro _ _ _ _ _ _
      dsimp only
      split
      · refine sound_require fun _ _ _ => fun _ _ _ => sound_executeInTransaction
          (fun s after hpast hafter => .record ?_ hafter) fun _ => trivial
        exact (hpast r (by simp)).2.2.events eventId event hevent
      · trivial
    · trivial

end Sound

/-- What a command does to the user action of an event, and to the event. -/
inductive ActionChange (db after : Store) (c : Command) (eventId : ℕ) : Prop
  | same (haction : after.doc (.userAction eventId) = db.doc (.userAction eventId))
      (hevent : after.doc (.event eventId) = db.doc (.event eventId))
  | stage {userId postId : ℕ} {tags : List String} {type : InteractionType}
      (hfree : db.doc (.userAction eventId) = none) (hnew : db.doc (.event eventId) = none)
      (haction : after.doc (.userAction eventId) =
        some (⟨userId, type, postId, false⟩ : UserAction))
      (hevent : after.doc (.event eventId) =
        some (⟨userId, type, postId, tags, eventId⟩ : InteractionEvent))
  | delete {action : UserAction} (hold : db.doc (.userAction eventId) = some action)
      (haction : after.doc (.userAction eventId) = none)
      (hstored : db.doc (.post action.targetId) ≠ none)
      (hgone : after.doc (.post action.targetId) = none)
      (hevent : after.doc (.event eventId) = db.doc (.event eventId))
  | mark {action : UserAction} (hc : c = .deliver eventId)
      (hold : db.doc (.userAction eventId) = some action)
      (hunmarked : action.feedEffectsApplied = false)
      (haction : after.doc (.userAction eventId) =
        some ({ action with feedEffectsApplied := true } : UserAction))
      (hevent : after.doc (.event eventId) = db.doc (.event eventId))

section Effects

variable {snapshot : Committed Key Doc} {after : Store} {c : Command}

/-- Deleting posts deletes the user actions on them. -/
private theorem actionChange_deletePostGraph (postIds : List ℕ) (db : Store) (c : Command)
    (eventId : ℕ) : ActionChange db (deletePostGraph postIds db) c eventId := by
  let collected := postIds.filter fun id => (db.doc (.post id)).isSome
  have hevent : (deletePostGraph postIds db).doc (.event eventId) = db.doc (.event eventId) := by
    change (db.deleteMany (goesWith collected)).doc (.event eventId) = _
    rw [Database.doc_deleteMany]
    exact Database.filter_true _
  have haction : (deletePostGraph postIds db).doc (.userAction eventId) =
      (db.doc (.userAction eventId)).filter fun action => !goesWith collected _ action :=
    Database.doc_deleteMany db _ _
  cases hold : db.doc (.userAction eventId) with
  | none =>
    rw [hold] at haction
    exact .same (haction.trans hold.symm) hevent
  | some action =>
    by_cases hmem : UserAction.targetId action ∈ collected
    · refine .delete hold ?_ ?_ ?_ hevent
      · rw [haction, hold]
        simp [goesWith, hmem]
      · exact Option.isSome_iff_ne_none.mp (List.mem_filter.mp hmem).2
      · change (db.deleteMany (goesWith collected)).doc (.post action.targetId) = none
        rw [Database.doc_deleteMany]
        cases db.doc (.post (UserAction.targetId action)) <;> simp [goesWith, hmem]
    · refine .same ?_ hevent
      rw [haction, hold]
      simp [goesWith, hmem]

/-- An effect changes a user action in one of the listed ways. -/
theorem Effect.actionChange (heffect : Effect snapshot c after) (hstaged : Staged snapshot.db)
    (hfinds : FindsPost c snapshot) (eventId : ℕ) :
    ActionChange snapshot.db after c eventId := by
  cases heffect with
  | @like e userId postId tags _ hbody =>
    obtain ⟨hfree, hnew, existingLike, type, rfl⟩ := likeBody_eq hbody
    by_cases he : eventId = e
    · subst he
      refine .stage hfree hnew ?_ (Database.doc_put_self _ _ _)
      rw [Database.doc_put_ne _ _ (by simp), Database.doc_put_self]
    · refine .same ?_ ?_
      · rw [Database.doc_put_ne _ _ (by simp), Database.doc_put_ne _ _ (by simpa using he),
          toggleLike_doc _ _ _ _ (by simp) (by simp)]
      · rw [Database.doc_put_ne _ _ (by simpa using he), Database.doc_put_ne _ _ (by simp),
          toggleLike_doc _ _ _ _ (by simp) (by simp)]
  | delete => exact actionChange_deletePostGraph _ _ _ _
  | @record e event target _ hevent hbody =>
    have hname := hstaged.named e event hevent
    rcases recordBody_eq hbody with ⟨-, rfl⟩ | ⟨hunmarked, targetId, action, haction, rfl⟩
    · exact .same rfl rfl
    · have hevents : ∀ id, (event.tags.dedup.foldl (incrementTagScore event.userId
          (getScoreIncrementForAction event.interactionType))
          (snapshot.db.put (.userAction event.activityId)
            ({ action with feedEffectsApplied := true } : UserAction))).doc (.event id) =
          snapshot.db.doc (.event id) := fun id => by
        rw [incrementTagScores_doc _ _ _ _ (by simp), Database.doc_put_ne _ _ (by simp)]
      by_cases he : eventId = e
      · -- The post is there, and so is the user action.
        subst he
        obtain ⟨old, hold, -⟩ :=
          hstaged.stands eventId event hevent (hfinds eventId event rfl hevent)
        rw [hname] at haction hunmarked ⊢
        rw [hold, Option.getD_some] at haction
        subst haction
        refine .mark rfl hold ?_ ?_ (hname ▸ hevents eventId)
        · simpa [marked, hold] using hunmarked
        · rw [incrementTagScores_doc _ _ _ _ (by simp), Database.doc_put_self]
      · refine .same ?_ (hevents eventId)
        rw [incrementTagScores_doc _ _ _ _ (by simp),
          Database.doc_put_ne _ _ (by simpa [hname] using he)]

/-- No effect stores a post. -/
theorem Effect.post (heffect : Effect snapshot c after) {id : ℕ}
    (h : after.doc (.post id) ≠ none) : snapshot.db.doc (.post id) ≠ none := by
  rw [← Option.isSome_iff_ne_none] at h ⊢
  cases heffect with
  | like hbody =>
    obtain ⟨-, -, existingLike, type, rfl⟩ := likeBody_eq hbody
    rwa [Database.doc_put_ne _ _ (by simp), Database.doc_put_ne _ _ (by simp),
      toggleLike_post] at h
  | delete =>
    unfold deletePostGraph at h
    dsimp only at h
    rw [Database.doc_deleteMany] at h
    cases hp : snapshot.db.doc (.post id) with
    | none => simp [hp] at h
    | some p => rfl
  | record hevent hbody =>
    rcases recordBody_eq hbody with ⟨-, rfl⟩ | ⟨-, _, _, -, rfl⟩
    · exact h
    · rwa [incrementTagScores_doc _ _ _ _ (by simp), Database.doc_put_ne _ _ (by simp)] at h

end Effects

section Kept

variable {snapshot current : Committed Key Doc} {after : Store} {c : Command}

/-- A commit changes a user action as its transaction did. -/
theorem ActionChange.commit {eventId : ℕ} (h : ActionChange snapshot.db after c eventId)
    (hsince : Committed.Since serial snapshot current)
    (hfresh : Committed.Fresh snapshot current after) :
    ActionChange current.db (snapshot.commit current after).db c eventId := by
  have hsame {k : Key} (hk : after.doc k = snapshot.db.doc k) :
      (snapshot.commit current after).db.doc k = current.db.doc k := Committed.doc_commit_same hk
  have hchanged {k : Key} := hsince.changed hfresh (k := k)
  cases h with
  | same haction hevent => exact .same (hsame haction) (hsame hevent)
  | stage hfree hfree' haction hevent =>
    obtain ⟨hcurrent, hmerged⟩ := hchanged (k := .userAction eventId) (by rw [haction, hfree]; simp)
    obtain ⟨hcurrent', hmerged'⟩ := hchanged (k := .event eventId) (by rw [hevent, hfree']; simp)
    exact .stage (hcurrent.trans hfree) (hcurrent'.trans hfree') (hmerged.trans haction)
      (hmerged'.trans hevent)
  | @delete action hold haction hstored hgone hevent =>
    obtain ⟨hcurrent, hmerged⟩ := hchanged (k := .userAction eventId) (by rw [haction, hold]; simp)
    obtain ⟨hcurrent', hmerged'⟩ := hchanged (k := .post action.targetId)
      (by rw [hgone]; exact hstored.symm)
    exact .delete (hcurrent.trans hold) (hmerged.trans haction) (hcurrent' ▸ hstored)
      (hmerged'.trans hgone) (hsame hevent)
  | @mark action hc hold hunmarked haction hevent =>
    obtain ⟨hcurrent, hmerged⟩ := hchanged (k := .userAction eventId) (by
      rw [haction, hold]
      intro heq
      rw [← Option.some.inj heq] at hunmarked
      cases hunmarked)
    exact .mark hc (hcurrent.trans hold) hunmarked (hmerged.trans haction) (hsame hevent)

variable {db db' : Store} {eventId : ℕ}

/-- Events stay as they are. -/
theorem ActionChange.event (h : ActionChange db db' c eventId) {event : InteractionEvent}
    (hevent : db.doc (.event eventId) = some event) :
    db'.doc (.event eventId) = some event := by
  cases h with
  | stage _ hnew => cases hevent.symm.trans hnew
  | same _ hsame | delete _ _ _ _ hsame | mark _ _ _ _ hsame => exact hsame.trans hevent

/-- The user action of an event that is staged does not come back. -/
theorem ActionChange.gone (h : ActionChange db db' c eventId)
    (hevent : db.doc (.event eventId) ≠ none) (hgone : db.doc (.userAction eventId) = none) :
    db'.doc (.userAction eventId) = none := by
  cases h with
  | same hsame => exact hsame.trans hgone
  | stage _ hnew => exact absurd hnew hevent
  | delete _ hnone => exact hnone
  | mark _ hold => cases hold.symm.trans hgone

/-- Events keep their user action, unless the post goes. -/
theorem ActionChange.staged (h : ∀ eventId, ActionChange db db' c eventId)
    (hpost : ∀ id, db'.doc (.post id) ≠ none → db.doc (.post id) ≠ none) (hstaged : Staged db) :
    Staged db' := by
  refine ⟨fun eventId event hevent => ?_, fun eventId event hevent hstored => ?_⟩
  · cases h eventId with
    | stage _ _ _ hnew => exact Option.some.inj (hnew.symm.trans hevent) ▸ rfl
    | same _ hsame | delete _ _ _ _ hsame | mark _ _ _ _ hsame =>
      exact hstaged.named eventId event (hsame.symm.trans hevent)
  · have hstands (hsame : db'.doc (.event eventId) = db.doc (.event eventId)) :=
      hstaged.stands eventId event (hsame.symm.trans hevent) (hpost _ hstored)
    cases h eventId with
    | same haction hsame =>
      obtain ⟨action, hold, htarget⟩ := hstands hsame
      exact ⟨action, haction.trans hold, htarget⟩
    | stage _ _ haction hnew =>
      exact ⟨_, haction, Option.some.inj (hnew.symm.trans hevent) ▸ rfl⟩
    | delete hold _ _ hgone hsame =>
      -- The post of a deleted user action is deleted with it.
      obtain ⟨action, hold', htarget⟩ := hstands hsame
      obtain rfl := Option.some.inj (hold.symm.trans hold')
      exact absurd (htarget ▸ hgone) hstored
    | mark _ hold _ haction hsame =>
      obtain ⟨action, hold', htarget⟩ := hstands hsame
      obtain rfl := Option.some.inj (hold.symm.trans hold')
      exact ⟨_, haction, htarget⟩

/-- A post that a commit leaves was there when it came. -/
private theorem post_of_commit (hsince : Committed.Since serial snapshot current)
    (hfresh : Committed.Fresh snapshot current after) (heffect : Effect snapshot c after) (id : ℕ)
    (h : (snapshot.commit current after).db.doc (.post id) ≠ none) :
    current.db.doc (.post id) ≠ none := by
  by_cases hk : after.doc (.post id) = snapshot.db.doc (.post id)
  · rwa [Committed.doc_commit_same hk] at h
  · obtain ⟨hcurrent, hmerged⟩ := hsince.changed hfresh hk
    rw [hmerged] at h
    rw [hcurrent]
    exact heffect.post h

/-- Keeping composes. -/
theorem Keeps.trans {a b c : Committed Key Doc} (h : Keeps a b) (h' : Keeps b c) : Keeps a c := by
  refine ⟨fun eventId event hevent => h'.events eventId event (h.events eventId event hevent),
    fun eventId hevent hgone => h'.gone eventId ?_ (h.gone eventId hevent hgone)⟩
  obtain ⟨event, hevent⟩ := Option.ne_none_iff_exists'.mp hevent
  rw [h.events eventId event hevent]
  exact Option.some_ne_none _

/-- The discipline is kept. -/
theorem discipline_kept : discipline.Kept where
  refl _ := ⟨fun _ _ h => h, fun _ _ h => h⟩
  trans _ _ _ hab hbc := hab.2.2.trans hbc.2.2
  commit c snapshot current after hbefore hstaged hfresh _ heffect hfinds := by
    obtain ⟨hstaged', hsince, -⟩ := hbefore
    have hchange (eventId : ℕ) :=
      (heffect.actionChange hstaged' hfinds eventId).commit hsince hfresh
    exact ⟨ActionChange.staged hchange (post_of_commit hsince hfresh heffect) hstaged,
      fun eventId _ => (hchange eventId).event, fun eventId => (hchange eventId).gone⟩

end Kept

end Ascendance.FeedInteraction
