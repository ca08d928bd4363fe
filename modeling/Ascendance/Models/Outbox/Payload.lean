import Ascendance.Models.Outbox.Invariant

/-!
# What is delivered

The payload of an event is written once, by the command that stages it. Every
attempt hands its handlers that payload, whoever owns the record by then.
-/

namespace Ascendance.Outbox

open Ascendance.Core

variable {cfg : OutboxConfig} {bus : EventBus} {s t : World}

/-- No update of a stored record changes its payload. -/
theorem Touch.payload {e e' : OutboxEvent} {actor : Option WorkerId} (h : Touch cfg e actor e') :
    e'.payload = e.payload := by
  cases h with
  | checkpoint _ key _ =>
    unfold OutboxEvent.addHandler
    split <;> rfl
  | fail _ message failureTime random _ =>
    unfold OutboxEvent.failed
    rcases failureState cfg e.retries failureTime random with ⟨_ | _, _ | _⟩ <;> rfl
  | claim _ _ _ | complete _ _ _ | renew _ _ _ | requeue _ => rfl

/-- A stored event stays, with its payload. -/
theorem Stepped.payload (hinv : Inv cfg s) (h : Stepped cfg bus s t) {i : EventId}
    (hi : i ∈ s.outbox.ids) :
    i ∈ t.outbox.ids ∧ (t.outbox.doc i).payload = (s.outbox.doc i).payload := by
  obtain ⟨hit, hd | ⟨actor, hd⟩⟩ := h.touch hinv hi
  · exact ⟨hit, by rw [hd]⟩
  · exact ⟨hit, hd.payload⟩

/-- Every attempt carries the payload of the event it works on. -/
def Faithful (s : World) : Prop :=
  ∀ w a, s.worker w = .busy a → a.record.payload = (s.outbox.doc a.eventId).payload

/-- Every step keeps the payloads. -/
theorem Stepped.faithful (hinv : Inv cfg s) (hf : Faithful s) (h : Stepped cfg bus s t) :
    Faithful t := by
  -- a worker that did not move keeps the record it read, and its payload is still the stored one
  have hframe : ∀ w a, s.worker w = .busy a →
      a.record.payload = (t.outbox.doc a.eventId).payload := by
    intro w a hb
    rw [(h.payload hinv (hinv.stored w a hb)).2]
    exact hf w a hb
  intro v b hb
  cases h with
  | advance _ | saved _ _ _ _ _ | requeued _ | claimLost _ _ _ => exact hframe v b hb
  | @claimed w hw id _ _ startedAt hc =>
    by_cases hv : v = w
    · subst hv
      obtain rfl : Attempt.start bus id _ = b := by simpa [World.after] using hb
      simp only [World.after, Attempt.start, claimPendingEvents, Collection.doc_modify_self]
    · exact hframe v b (by simpa [World.after, hv] using hb)
  | @outcome w a a' o es hw ho =>
    by_cases hv : v = w
    · subst hv
      obtain rfl : a' = b := by simpa [World.after] using hb
      have hkeep := hframe v a hw
      rw [← ho.attempt.1, ← ho.attempt.2] at hkeep
      exact hkeep
    · exact hframe v b (by simpa [World.after, hv] using hb)
  | @left w x hx =>
    by_cases hv : v = w
    · subst hv
      exact absurd (by simpa using hb) (hx b)
    · exact hframe v b (by simpa [hv] using hb)

end Ascendance.Outbox
