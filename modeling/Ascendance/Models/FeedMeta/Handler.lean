import Ascendance.Core.Transition
import Mathlib.Data.Nat.Notation

/-!
# The metadata of a post

A like or an unlike commits with its event. A call of the event's handler reads the
post, records the interaction, and then writes the number of likes it has read into the
entry of the post's metadata, which takes the place of the post's own numbers in every
feed while it lives. Calls interleave, and an event can be delivered any number of times.
-/

namespace Ascendance.FeedMeta

open Ascendance.Core

/-- The fields of a post's metadata; those that were never written are absent. -/
structure PostMeta where
  likes : Option ℕ
  commentsCount : Option ℕ
  viewsCount : Option ℕ
  deriving DecidableEq, Repr

/-- `PATCH_WITH_TAGS_SCRIPT`: the fields of the patch replace those of the entry that is there. -/
def PostMeta.patch (old : Option PostMeta) (p : PostMeta) : PostMeta where
  likes := p.likes <|> old.bind (·.likes)
  commentsCount := p.commentsCount <|> old.bind (·.commentsCount)
  viewsCount := p.viewsCount <|> old.bind (·.viewsCount)

/-- What `enrichFeedWithCurrentData` shows of a post as its number of likes. -/
def enrichLikes (metadata : Option PostMeta) (itemLikes : ℕ) : ℕ :=
  (metadata.bind (·.likes)).getD itemLikes

/-- The interactions with a post. -/
inductive InteractionType
  | like
  | unlike
  | comment
  | commentDeleted
  deriving DecidableEq, Repr

/-- The handler writes the likes after this interaction. -/
def InteractionType.changesLikes : InteractionType → Bool
  | .like | .unlike => true
  | .comment | .commentDeleted => false

/-- A `UserInteractedWithPostEvent` of the post; `handled` when a call of its handler has
returned. -/
structure Interaction where
  userId : String
  interactionType : InteractionType
  handled : Bool
  deriving DecidableEq, Repr

/-- How far a call of the handler is; `likesCount` is what it has read. -/
inductive Phase
  | started
  | read (likesCount : ℕ)
  | recorded (likesCount : ℕ)
  | streamed (likesCount : ℕ)
  /-- The entry has been written; the message about it is left. -/
  | patched
  /-- The actor is not there or banned, so there is nothing to do. -/
  | skipped
  | over
  deriving DecidableEq, Repr

/-- A call of the handler: the event it handles and how far it is. -/
structure Call where
  event : ℕ
  phase : Phase
  deriving DecidableEq, Repr

/-- A post, its events and the calls of their handlers. -/
structure World where
  likers : List String
  likesCount : ℕ
  metadata : Option PostMeta
  events : List Interaction
  calls : List Call
  deriving DecidableEq, Repr

/-- What can happen: users interact, and the calls of the handler take their steps. -/
inductive Event
  /-- `LikeActionByPublicIdCommand` of a user commits: a like, or an unlike of what they like. -/
  | toggles (userId : String)
  /-- A comment of the post is created or deleted. -/
  | comments (userId : String) (deleted : Bool)
  /-- A worker hands an event to the handler. -/
  | delivers (event : ℕ)
  | reads (k : ℕ) (available : Bool)
  /-- The interaction is recorded, then written to the stream. -/
  | continues (k : ℕ)
  /-- The script runs; a call that does not get its answer repeats it. -/
  | patches (k : ℕ) (acknowledged : Bool)
  | returns (k : ℕ)
  /-- A step of a call throws, or its process is gone. -/
  | fails (k : ℕ)
  /-- The entry expires, or an invalidation deletes it. -/
  | expires
  /-- Another component patches the entry: its views or comments, or numbers it has read. -/
  | patchedElsewhere (patch : PostMeta)
  deriving DecidableEq, Repr

namespace World

variable (w : World)

/-- A post without likes and without a cached entry. -/
def initial : World := ⟨[], 0, none, [], []⟩

/-- Append an interaction to the events. -/
def queue (userId : String) (interactionType : InteractionType) : World :=
  { w with events := w.events ++ [⟨userId, interactionType, false⟩] }

/-- Like the post, or take the like back. -/
def toggle (userId : String) : World :=
  if userId ∈ w.likers then
    { w with likers := w.likers.erase userId, likesCount := w.likesCount - 1 }.queue userId .unlike
  else { w with likers := userId :: w.likers, likesCount := w.likesCount + 1 }.queue userId .like

/-- Put a call into another phase. -/
def setPhase (k : ℕ) (phase : Phase) : World :=
  { w with calls := w.calls.modify k fun c => { c with phase } }

/-- Merge a patch into the cached entry. -/
def patch (p : PostMeta) : World := { w with metadata := some (PostMeta.patch w.metadata p) }

/-- `updatePostLikeMeta`, up to the script. -/
def updatePostLikeMeta (newTotalLikes : ℕ) : World := w.patch ⟨some newTotalLikes, none, none⟩

/-- A call returns; only the calls of likes and unlikes have written something. -/
def finish (k : ℕ) (c : Call) : Option World :=
  let done := { w with events := w.events.modify c.event fun e => { e with handled := true } }
  match c.phase with
  | .patched | .skipped => some (done.setPhase k .over)
  | .streamed _ =>
    if (w.events[c.event]?).all (·.interactionType.changesLikes) then none
    else some (done.setPhase k .over)
  | .started | .read _ | .recorded _ | .over => none

/-- A call runs the script, with or without getting its answer. -/
def patches (k : ℕ) (acknowledged : Bool) (c : Call) : Option World :=
  match c.phase with
  | .streamed likesCount =>
    if (w.events[c.event]?).any (·.interactionType.changesLikes) then
      let written := w.updatePostLikeMeta likesCount
      some (if acknowledged then written.setPhase k .patched else written)
    else none
  | .started | .read _ | .recorded _ | .patched | .skipped | .over => none

/-- The effect of an event, where it can happen. -/
def step (w : World) : Event → Option World
  | .toggles userId => some (w.toggle userId)
  | .comments userId deleted =>
    some (w.queue userId (if deleted then .commentDeleted else .comment))
  | .delivers event =>
    if event < w.events.length then some { w with calls := w.calls ++ [⟨event, .started⟩] }
    else none
  | .reads k available => (w.calls[k]?).bind fun c =>
    if c.phase = .started then
      some (w.setPhase k (if available then .read w.likesCount else .skipped))
    else none
  | .continues k => (w.calls[k]?).bind fun c => match c.phase with
    | .read likesCount => some (w.setPhase k (.recorded likesCount))
    | .recorded likesCount => some (w.setPhase k (.streamed likesCount))
    | .started | .streamed _ | .patched | .skipped | .over => none
  | .patches k acknowledged => (w.calls[k]?).bind fun c => w.patches k acknowledged c
  | .returns k => (w.calls[k]?).bind fun c => w.finish k c
  | .fails k => (w.calls[k]?).map fun _ => w.setPhase k .over
  | .expires => some { w with metadata := none }
  | .patchedElsewhere p => some (w.patch p)

end World

/-- The likes of the entry, if it is there, are those of the post. -/
def World.Current (w : World) : Prop :=
  ∀ likes, (w.metadata.bind (·.likes)) = some likes → likes = w.likesCount

/-- Every like and unlike has been handled. -/
def World.AllHandled (w : World) : Prop :=
  ∀ e ∈ w.events, e.interactionType.changesLikes = true → e.handled = true

instance (w : World) : Decidable w.Current :=
  decidable_of_iff (∀ likes ∈ w.metadata.bind (·.likes), likes = w.likesCount) Iff.rfl

instance (w : World) : Decidable w.AllHandled :=
  inferInstanceAs (Decidable (∀ e ∈ w.events, e.interactionType.changesLikes = true →
    e.handled = true))

/-- A feed shows the post's own number of likes when the entry is current. -/
theorem World.Current.enrichLikes {w : World} (h : w.Current) :
    enrichLikes w.metadata w.likesCount = w.likesCount := by
  unfold FeedMeta.enrichLikes
  cases hlikes : w.metadata.bind (·.likes) with
  | none => rfl
  | some likes => exact h likes hlikes

end Ascendance.FeedMeta
