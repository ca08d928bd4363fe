import Ascendance.Models.FeedInteraction.UserActions

/-!
# The scores of tags

An event is applied when its user action becomes marked. The scores are what the applied events
have earned, and no event is applied twice.
-/

namespace Ascendance.FeedInteraction

open Ascendance.Core

/-- What a command does to the scores, and to the user action that it claims. -/
inductive ScoreChange (db after : Store) (c : Command) : Prop
  | same (hscores : ∀ userId tag,
        after.doc (.userPreference userId tag) = db.doc (.userPreference userId tag))
      (haction : ∀ eventId, c = .deliver eventId →
        after.doc (.userAction eventId) = db.doc (.userAction eventId))
  | apply {eventId : ℕ} {event : InteractionEvent} (hc : c = .deliver eventId)
      (hevent : db.doc (.event eventId) = some event) (hunmarked : marked db eventId = false)
      (hmarked : marked after eventId = true)
      (hscores : ∀ userId tag, score after userId tag = score db userId tag +
        if userId = event.userId ∧ tag ∈ event.tags then
          getScoreIncrementForAction event.interactionType else 0)

section Scores

variable {snapshot current : Committed Key Doc} {after : Store} {c : Command}

/-- Scores are read from the preferences. -/
theorem score_congr {db db' : Store} {userId : ℕ} {tag : String}
    (h : db'.doc (.userPreference userId tag) = db.doc (.userPreference userId tag)) :
    score db' userId tag = score db userId tag := by
  rw [score, h, score]

/-- Marks are read from the user actions. -/
theorem marked_congr {db db' : Store} {eventId : ℕ}
    (h : db'.doc (.userAction eventId) = db.doc (.userAction eventId)) :
    marked db' eventId = marked db eventId := by
  rw [marked, h, marked]

/-- An effect leaves the scores, or it applies one event. -/
theorem Effect.scoreChange (heffect : Effect snapshot c after) (hstaged : Staged snapshot.db) :
    ScoreChange snapshot.db after c := by
  cases heffect with
  | like hbody =>
    obtain ⟨-, -, existingLike, type, rfl⟩ := likeBody_eq hbody
    refine .same (fun userId tag => ?_) (by simp)
    rw [Database.doc_put_ne _ _ (by simp), Database.doc_put_ne _ _ (by simp),
      toggleLike_doc _ _ _ _ (by simp) (by simp)]
  | delete =>
    refine .same (fun userId tag => ?_) (by simp)
    unfold deletePostGraph
    dsimp only
    rw [Database.doc_deleteMany]
    exact Database.filter_true _
  | @record eventId event target _ hevent hbody =>
    rcases recordBody_eq hbody with ⟨-, rfl⟩ | ⟨hunmarked, targetId, action, -, rfl⟩
    · exact .same (fun _ _ => rfl) fun _ _ => rfl
    · rw [hstaged.named eventId event hevent] at hunmarked ⊢
      refine .apply rfl hevent hunmarked ?_ fun userId tag => ?_
      · rw [marked, incrementTagScores_doc _ _ _ _ (by simp), Database.doc_put_self]
        rfl
      · have hput : score (snapshot.db.put (.userAction eventId)
            ({ action with feedEffectsApplied := true } : UserAction)) userId tag =
            score snapshot.db userId tag := score_congr (Database.doc_put_ne _ _ (by simp))
        simp only [score_incrementTagScores _ _ _ event.tags.nodup_dedup, List.mem_dedup, hput]

/-- A commit changes the scores as its transaction did. -/
theorem ScoreChange.commit (h : ScoreChange snapshot.db after c)
    (hsince : Committed.Since serial snapshot current) (hkeeps : Keeps snapshot current)
    (hfresh : Committed.Fresh snapshot current after) :
    ScoreChange current.db (snapshot.commit current after).db c := by
  cases h with
  | same hscores haction =>
    exact .same (fun userId tag => Committed.doc_commit_same (hscores userId tag))
      fun eventId hc => Committed.doc_commit_same (haction eventId hc)
  | @apply eventId event hc hevent hunmarked hmarked hscores =>
    have haction : after.doc (.userAction eventId) ≠ snapshot.db.doc (.userAction eventId) := by
      intro hsame
      rw [marked_congr hsame, hunmarked] at hmarked
      cases hmarked
    obtain ⟨hcurrent, hmerged⟩ := hsince.changed hfresh haction
    refine .apply hc (hkeeps.events eventId event hevent) ((marked_congr hcurrent).trans hunmarked)
      ((marked_congr hmerged).trans hmarked) fun userId tag => ?_
    by_cases hk : after.doc (.userPreference userId tag) =
        snapshot.db.doc (.userPreference userId tag)
    · have hzero := hscores userId tag
      rw [score_congr hk] at hzero
      rw [score_congr (Committed.doc_commit_same hk)]
      omega
    · obtain ⟨hcurrent, hmerged⟩ := hsince.changed hfresh hk
      rw [score_congr hmerged, score_congr hcurrent]
      exact hscores userId tag

end Scores

/-- The event whose user action a command has marked. -/
def claims (c : Command) (db after : Store) : List ℕ :=
  match c with
  | .deliver eventId => if !marked db eventId && marked after eventId then [eventId] else []
  | .likeActionByPublicId _ _ _ | .deletePosts _ => []

/-- An event is an interaction of one kind, of a user with a post that carries a tag. -/
def carries (db : Store) (userId : ℕ) (tag : String) (type : InteractionType) (eventId : ℕ) :
    Bool :=
  (db.doc (.event eventId)).any fun event : InteractionEvent =>
    decide (event.userId = userId ∧ event.interactionType = type ∧ tag ∈ event.tags)

/-- Two for every applied like that carries the tag, less two for every such unlike. -/
def earned (db : Store) (applied : List ℕ) (userId : ℕ) (tag : String) : ℤ :=
  2 * ((applied.countP (carries db userId tag .like) : ℤ) -
    applied.countP (carries db userId tag .unlike))

/-- Every marked user action is of an applied event, every event is applied once, and the scores
are what the applied events have earned. -/
structure Accounted (start db : Store) (applied : List ℕ) : Prop where
  once : applied.Nodup
  of_marked : ∀ eventId, marked db eventId = true → eventId ∈ applied
  marked : ∀ eventId ∈ applied, db.doc (.userAction eventId) ≠ none → marked db eventId = true
  staged : ∀ eventId ∈ applied, db.doc (.event eventId) ≠ none
  scores : ∀ userId tag, score db userId tag = score start userId tag +
    earned db applied userId tag

section Accounts

variable {start db db' : Store} {c : Command} {applied : List ℕ}

/-- A user action that becomes marked is claimed, and one that is marked stays so. -/
theorem ActionChange.marked {eventId : ℕ} (h : ActionChange db db' c eventId) :
    (marked db' eventId = true → marked db eventId = true ∨ eventId ∈ claims c db db') ∧
      (marked db eventId = true → db'.doc (.userAction eventId) ≠ none →
        marked db' eventId = true) := by
  cases h with
  | same haction =>
    rw [marked_congr haction]
    exact ⟨.inl, fun h _ => h⟩
  | stage hfree _ haction =>
    simp [FeedInteraction.marked, hfree, haction]
  | delete hold haction =>
    simp [FeedInteraction.marked, haction]
  | mark hc hold hunmarked haction =>
    subst hc
    simp [FeedInteraction.marked, claims, hold, haction, hunmarked]

/-- What an event earns. -/
theorem earned_concat {eventId : ℕ} {event : InteractionEvent}
    (hevent : db.doc (.event eventId) = some event) (userId : ℕ) (tag : String) :
    earned db (applied ++ [eventId]) userId tag = earned db applied userId tag +
      if userId = event.userId ∧ tag ∈ event.tags then
        getScoreIncrementForAction event.interactionType else 0 := by
  unfold earned
  rw [List.countP_append, List.countP_append, List.countP_singleton, List.countP_singleton]
  simp only [carries, hevent, Option.any_some, decide_eq_true_eq]
  by_cases huser : userId = event.userId
  · by_cases htag : tag ∈ event.tags
    · cases htype : event.interactionType <;>
        simp [huser, htag, getScoreIncrementForAction] <;> omega
    · simp [htag]
  · simp [huser, Ne.symm huser]

/-- What events earn does not change while they stay. -/
theorem earned_congr (h : ∀ eventId ∈ applied, db'.doc (.event eventId) = db.doc (.event eventId))
    (userId : ℕ) (tag : String) :
    earned db' applied userId tag = earned db applied userId tag := by
  have hcount (type : InteractionType) : applied.countP (carries db' userId tag type) =
      applied.countP (carries db userId tag type) :=
    List.countP_congr fun eventId hmem => by rw [carries, h eventId hmem, carries]
  rw [earned, hcount, hcount, earned]

/-- A command keeps the accounts. -/
theorem Accounted.change (h : Accounted start db applied)
    (haction : ∀ eventId, ActionChange db db' c eventId) (hscore : ScoreChange db db' c) :
    Accounted start db' (applied ++ claims c db db') := by
  have hevents (eventId : ℕ) (hmem : eventId ∈ applied) :
      db'.doc (.event eventId) = db.doc (.event eventId) := by
    obtain ⟨event, hevent⟩ := Option.ne_none_iff_exists'.mp (h.staged eventId hmem)
    rw [hevent, (haction eventId).event hevent]
  have hofMarked (eventId : ℕ) (hmarked : FeedInteraction.marked db' eventId = true) :
      eventId ∈ applied ++ claims c db db' := by
    rcases (haction eventId).marked.1 hmarked with hold | hclaimed
    · exact List.mem_append_left _ (h.of_marked eventId hold)
    · exact List.mem_append_right _ hclaimed
  have hmarked (eventId : ℕ) (hmem : eventId ∈ applied)
      (hstored : db'.doc (.userAction eventId) ≠ none) :
      FeedInteraction.marked db' eventId = true := by
    refine (haction eventId).marked.2 (h.marked eventId hmem fun hgone => hstored ?_) hstored
    exact (haction eventId).gone (h.staged eventId hmem) hgone
  cases hscore with
  | same hscores hactions =>
    have hnone : claims c db db' = [] := by
      cases c with
      | deliver eventId => simp [claims, marked_congr (hactions eventId rfl)]
      | _ => rfl
    rw [hnone, List.append_nil] at hofMarked ⊢
    refine ⟨h.once, hofMarked, hmarked, fun eventId hmem => ?_, fun userId tag => ?_⟩
    · rw [hevents eventId hmem]
      exact h.staged eventId hmem
    · rw [score_congr (hscores userId tag), earned_congr hevents, h.scores]
  | @apply eventId event hc hevent hunmarked hnow hscores =>
    subst hc
    have hclaims : claims (.deliver eventId) db db' = [eventId] := by
      simp [claims, hunmarked, hnow]
    have hevent' := (haction eventId).event hevent
    rw [hclaims] at hofMarked ⊢
    -- An event that was applied before has a marked user action or none, and none comes back.
    have hnot : eventId ∉ applied := by
      intro hmem
      have hgone : db.doc (.userAction eventId) = none := by
        by_contra hstored
        rw [h.marked eventId hmem hstored] at hunmarked
        cases hunmarked
      rw [FeedInteraction.marked, (haction eventId).gone (h.staged eventId hmem) hgone] at hnow
      cases hnow
    refine ⟨?_, hofMarked, fun id hmem hstored => ?_, fun id hmem => ?_, fun userId tag => ?_⟩
    · exact h.once.append (List.nodup_singleton _) (List.disjoint_singleton.mpr hnot)
    · rcases List.mem_append.mp hmem with hmem | hmem
      · exact hmarked id hmem hstored
      · exact List.mem_singleton.mp hmem ▸ hnow
    · rcases List.mem_append.mp hmem with hmem | hmem
      · rw [hevents id hmem]
        exact h.staged id hmem
      · rw [List.mem_singleton.mp hmem, hevent']
        exact Option.some_ne_none _
    · rw [hscores, h.scores, earned_concat hevent', earned_congr hevents, add_assoc]

end Accounts

end Ascendance.FeedInteraction
