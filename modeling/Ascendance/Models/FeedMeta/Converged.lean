import Ascendance.Models.FeedMeta.Handler

/-!
# The likes in a post's metadata

A like that has not been handled, with no call that is past its write, will be followed
by a write. As long as a write of other numbers than the post's own leaves such a like,
the entry is current again when all of them have been handled.
-/

namespace Ascendance.FeedMeta

open Ascendance.Core

/-- A like or an unlike is left to be handled, and each of its calls has its write ahead. -/
def World.Owed (w : World) (i : ℕ) : Prop :=
  (∃ e, w.events[i]? = some e ∧ e.interactionType.changesLikes = true ∧ e.handled = false) ∧
    ∀ c ∈ w.calls, c.event = i → c.phase ≠ .patched ∧ c.phase ≠ .skipped

/-- Another write is owed, by an event with a property. -/
def World.Owes (w : World) (P : ℕ → Prop) : Prop := ∃ i < w.events.length, w.Owed i ∧ P i

/-- What a call is about to write. -/
def Phase.toWrite : Phase → Option ℕ
  | .streamed likesCount => some likesCount
  | .started | .read _ | .recorded _ | .patched | .skipped | .over => none

/-- What is written, or left as it is by a call without an actor, is the number of the post's
likes, or another write is owed. -/
def Event.Safe (w : World) : Event → Prop
  | .patches k acknowledged => ∀ c ∈ w.calls[k]?, ∀ likes ∈ c.phase.toWrite,
    likes = w.likesCount ∨ w.Owes fun i => acknowledged = true → i ≠ c.event
  | .reads k available => available = false → ∀ c ∈ w.calls[k]?,
    w.Current ∨ w.Owes fun i => i ≠ c.event
  | .patchedElsewhere p => ∀ likes ∈ p.likes,
    likes = w.likesCount ∨ w.Owes fun _ => True
  | .toggles _ | .comments _ _ | .delivers _ | .continues _ | .returns _ | .fails _ | .expires =>
    True

instance (w : World) (i : ℕ) : Decidable (w.Owed i) :=
  inferInstanceAs (Decidable ((∃ e ∈ w.events[i]?, e.interactionType.changesLikes = true ∧
    e.handled = false) ∧ ∀ c ∈ w.calls, c.event = i → c.phase ≠ .patched ∧ c.phase ≠ .skipped))

instance (w : World) (P : ℕ → Prop) [DecidablePred P] : Decidable (w.Owes P) :=
  inferInstanceAs (Decidable (∃ i < w.events.length, w.Owed i ∧ P i))

instance (w : World) (e : Event) : Decidable (e.Safe w) := by
  unfold Event.Safe
  split <;> infer_instance

section Owed

variable {w w' : World} {i k : ℕ}

/-- Calls of known events, and a write owed unless the entry is current. -/
structure World.Kept (w : World) : Prop where
  known : ∀ c ∈ w.calls, c.event < w.events.length
  owes : w.Current ∨ ∃ i, w.Owed i

/-- An owed phase is that of some call. -/
theorem World.Owes.exists {P : ℕ → Prop} (h : w.Owes P) : ∃ i, w.Owed i ∧ P i := by
  obtain ⟨i, -, hi⟩ := h
  exact ⟨i, hi⟩

theorem World.Owed.owes (h : w.Owed i) {P : ℕ → Prop} (hP : P i) : w.Owes P := by
  obtain ⟨e, he, -⟩ := h.1
  exact ⟨i, (List.getElem?_eq_some_iff.mp he).1, h, hP⟩

/-- A call after a change is an old one or the changed one. -/
private theorem mem_modify {l : List Call} {f : Call → Call} {c : Call} (h : c ∈ l.modify k f) :
    c ∈ l ∨ ∃ b, l[k]? = some b ∧ c = f b := by
  obtain ⟨j, hj⟩ := List.mem_iff_getElem?.mp h
  rw [List.getElem?_modify] at hj
  obtain ⟨b, hb, rfl⟩ := Option.map_eq_some_iff.mp hj
  split
  · next heq => exact .inr ⟨b, heq ▸ hb, rfl⟩
  · exact .inl (List.mem_of_getElem? hb)

/-- The phase of a call of another event changes, or to one that has its write ahead. -/
theorem World.Owed.setPhase (h : w.Owed i) {phase : Phase}
    (hcall : ∀ c, w.calls[k]? = some c → c.event = i → phase ≠ .patched ∧ phase ≠ .skipped) :
    (w.setPhase k phase).Owed i := by
  refine ⟨h.1, fun c hc hevent => ?_⟩
  rcases mem_modify hc with hold | ⟨b, hb, rfl⟩
  · exact h.2 c hold hevent
  · exact hcall b hb hevent

/-- A call may change its phase while something still owes the current count. -/
theorem World.Kept.setPhase (h : w.Kept) {phase : Phase}
    (howes : w.Current ∨ ∃ i, (w.setPhase k phase).Owed i) : (w.setPhase k phase).Kept where
  known c hc := by
    rcases mem_modify hc with hold | ⟨b, hb, rfl⟩
    · exact h.known c hold
    · exact h.known b (List.mem_of_getElem? hb)
  owes := howes

/-- A call goes on, its write still ahead or its part over. -/
theorem World.Kept.goesOn (h : w.Kept) {phase : Phase}
    (hphase : phase ≠ .patched ∧ phase ≠ .skipped) : (w.setPhase k phase).Kept := by
  refine h.setPhase (h.owes.imp_right ?_)
  rintro ⟨i, hi⟩
  exact ⟨i, hi.setPhase fun _ _ _ => hphase⟩

/-- A new event settles nothing. -/
theorem World.Owed.queue (h : w.Owed i) (userId : String) (t : InteractionType) :
    (w.queue userId t).Owed i := by
  obtain ⟨⟨e, he, hlikes, hhandled⟩, hcalls⟩ := h
  refine ⟨⟨e, ?_, hlikes, hhandled⟩, hcalls⟩
  exact (List.getElem?_append_left (List.getElem?_eq_some_iff.mp he).1).trans he

/-- A new like is owed. -/
theorem owed_queue (hknown : ∀ c ∈ w.calls, c.event < w.events.length) (userId : String)
    {t : InteractionType} (ht : t.changesLikes = true) :
    (w.queue userId t).Owed w.events.length := by
  refine ⟨⟨⟨userId, t, false⟩, ?_, ht, rfl⟩, fun c hc hevent => ?_⟩
  · exact List.getElem?_concat_length
  · have hlt := hknown c hc
    omega

/-- Queued calls know their events. -/
private theorem known_queue (hknown : ∀ c ∈ w.calls, c.event < w.events.length) (userId : String)
    (t : InteractionType) :
    ∀ c ∈ (w.queue userId t).calls, c.event < (w.queue userId t).events.length := by
  intro c hc
  have hlt := hknown c hc
  have hlength : (w.queue userId t).events.length = w.events.length + 1 := by
    simp [World.queue]
  omega

end Owed

namespace World

variable {w w' : World} {k : ℕ}

/-- The invariant holds before anything has happened. -/
theorem Kept.initial : initial.Kept where
  known _ hc := absurd hc List.not_mem_nil
  owes := .inl fun _ h => by cases h

/-- A like or an unlike keeps the invariant. -/
theorem Kept.toggle (h : w.Kept) (userId : String) : (w.toggle userId).Kept := by
  unfold World.toggle
  split
  · exact ⟨known_queue h.known userId .unlike, .inr ⟨_, owed_queue h.known userId rfl⟩⟩
  · exact ⟨known_queue h.known userId .like, .inr ⟨_, owed_queue h.known userId rfl⟩⟩

/-- Handing out an event keeps the invariant. -/
theorem Kept.delivers (h : w.Kept) {event : ℕ} (hevent : event < w.events.length) :
    Kept { w with calls := w.calls ++ [⟨event, .started⟩] } where
  known c hc := by
    rcases List.mem_append.mp hc with hold | hnew
    · exact h.known c hold
    · obtain rfl := List.mem_singleton.mp hnew
      exact hevent
  owes := by
    refine h.owes.imp_right ?_
    rintro ⟨i, hevents, hcalls⟩
    refine ⟨i, hevents, fun c hc hci => ?_⟩
    rcases List.mem_append.mp hc with hold | hnew
    · exact hcalls c hold hci
    · obtain rfl := List.mem_singleton.mp hnew
      exact ⟨by simp, by simp⟩

/-- A patch with the likes of the post makes the entry current. -/
theorem current_patch {p : PostMeta} (hlikes : p.likes = some w.likesCount) :
    (w.patch p).Current := by
  intro likes hget
  have heq : (PostMeta.patch w.metadata p).likes = some likes := hget
  unfold PostMeta.patch at heq
  rw [hlikes] at heq
  exact (Option.some.inj heq).symm

/-- A patch of other fields leaves the likes. -/
theorem Current.patch (h : w.Current) {p : PostMeta} (hlikes : p.likes = none) :
    (w.patch p).Current := by
  intro likes hget
  have heq : (PostMeta.patch w.metadata p).likes = some likes := hget
  unfold PostMeta.patch at heq
  rw [hlikes] at heq
  exact h likes heq

/-- A safe patch keeps the invariant. -/
theorem Kept.patches (h : w.Kept) {c : Call} {acknowledged : Bool} (hc : w.calls[k]? = some c)
    (hsafe : (Event.patches k acknowledged).Safe w) (hstep : w.patches k acknowledged c = some w') :
    w'.Kept := by
  unfold World.patches at hstep
  split at hstep
  · next likes hphase =>
    split at hstep
    · obtain rfl := Option.some.inj hstep
      rcases hsafe c hc likes (by rw [hphase]; rfl) with rfl | howes
      · have hcurrent : (w.updatePostLikeMeta w.likesCount).Current := current_patch rfl
        have hkept : (w.updatePostLikeMeta w.likesCount).Kept := ⟨h.known, .inl hcurrent⟩
        split
        · exact hkept.setPhase (.inl hcurrent)
        · exact hkept
      · obtain ⟨i, hi, hother⟩ := howes.exists
        have hkept : (w.updatePostLikeMeta likes).Kept := ⟨h.known, .inr ⟨i, hi⟩⟩
        split
        · next hack =>
          have howed : (w.updatePostLikeMeta likes).Owed i := hi
          refine hkept.setPhase (.inr ⟨i, howed.setPhase ?_⟩)
          intro b hb hbi
          obtain rfl := Option.some.inj (hc.symm.trans hb)
          exact absurd hbi.symm (hother hack)
        · exact hkept
    · cases hstep
  all_goals cases hstep

/-- A call that returns was past its write, or it is not one of a like. -/
theorem Kept.finish (h : w.Kept) {c : Call} (hc : w.calls[k]? = some c)
    (hstep : w.finish k c = some w') : w'.Kept := by
  have hmem := List.mem_of_getElem? hc
  have hmain : (∀ i, w.Owed i → i ≠ c.event) → Kept (({ w with
      events := w.events.modify c.event fun e => { e with handled := true } } : World).setPhase k
        .over) := by
    intro hother
    have hkept : Kept { w with
        events := w.events.modify c.event fun e => { e with handled := true } } := by
      refine ⟨fun b hb => by simpa using h.known b hb, h.owes.imp_right ?_⟩
      rintro ⟨i, hi⟩
      obtain ⟨⟨e, he, hlikes, hhandled⟩, hcalls⟩ := hi
      refine ⟨i, ⟨e, ?_, hlikes, hhandled⟩, hcalls⟩
      have hne := hother i ⟨⟨e, he, hlikes, hhandled⟩, hcalls⟩
      exact (List.getElem?_modify_ne _ _ hne.symm).trans he
    exact hkept.goesOn ⟨by decide, by decide⟩
  have hpast : c.phase = .patched ∨ c.phase = .skipped → ∀ i, w.Owed i → i ≠ c.event := by
    rintro hphase i hi rfl
    obtain ⟨hpatched, hskipped⟩ := hi.2 c hmem rfl
    exact hphase.elim hpatched hskipped
  unfold World.finish at hstep
  dsimp only at hstep
  split at hstep
  · next hphase =>
    obtain rfl := Option.some.inj hstep
    exact hmain (hpast (.inl hphase))
  · next hphase =>
    obtain rfl := Option.some.inj hstep
    exact hmain (hpast (.inr hphase))
  · split at hstep
    · cases hstep
    · next hlikes =>
      obtain rfl := Option.some.inj hstep
      refine hmain ?_
      rintro i ⟨⟨e, he, hchanges, -⟩, -⟩ rfl
      rw [he] at hlikes
      exact hlikes hchanges
  all_goals cases hstep

/-- Every safe event keeps the invariant. -/
theorem Kept.step (h : w.Kept) {e : Event} (hsafe : e.Safe w) (hstep : w.step e = some w') :
    w'.Kept := by
  cases e with
  | toggles userId =>
    obtain rfl := Option.some.inj hstep
    exact h.toggle userId
  | comments userId deleted =>
    obtain rfl := Option.some.inj hstep
    refine ⟨known_queue h.known userId _, h.owes.imp_right ?_⟩
    rintro ⟨i, hi⟩
    exact ⟨i, hi.queue userId _⟩
  | delivers event =>
    simp only [World.step] at hstep
    split at hstep
    · next hevent =>
      obtain rfl := Option.some.inj hstep
      exact h.delivers hevent
    · cases hstep
  | reads k available =>
    obtain ⟨c, hc, hread⟩ := Option.bind_eq_some_iff.mp hstep
    split at hread
    · obtain rfl := Option.some.inj hread
      cases available with
      | true => exact h.goesOn ⟨by simp, by simp⟩
      | false =>
        refine h.setPhase ((hsafe rfl c hc).imp_right fun howes => ?_)
        obtain ⟨i, hi, hother⟩ := howes.exists
        refine ⟨i, hi.setPhase fun b hb hbi => ?_⟩
        obtain rfl := Option.some.inj (hc.symm.trans hb)
        exact absurd hbi.symm hother
    · cases hread
  | continues k =>
    obtain ⟨c, -, hcontinue⟩ := Option.bind_eq_some_iff.mp hstep
    split at hcontinue
    · obtain rfl := Option.some.inj hcontinue
      exact h.goesOn ⟨by simp, by simp⟩
    · obtain rfl := Option.some.inj hcontinue
      exact h.goesOn ⟨by simp, by simp⟩
    all_goals cases hcontinue
  | patches k acknowledged =>
    obtain ⟨c, hc, hpatch⟩ := Option.bind_eq_some_iff.mp hstep
    exact h.patches hc hsafe hpatch
  | returns k =>
    obtain ⟨c, hc, hreturn⟩ := Option.bind_eq_some_iff.mp hstep
    exact h.finish hc hreturn
  | fails k =>
    obtain ⟨c, -, rfl⟩ := Option.map_eq_some_iff.mp hstep
    exact h.goesOn ⟨by decide, by decide⟩
  | expires =>
    obtain rfl := Option.some.inj hstep
    exact ⟨h.known, .inl fun _ hget => by cases hget⟩
  | patchedElsewhere p =>
    obtain rfl := Option.some.inj hstep
    refine ⟨h.known, ?_⟩
    cases hlikes : p.likes with
    | none => exact h.owes.imp_left fun hcurrent => hcurrent.patch hlikes
    | some likes =>
      rcases hsafe likes hlikes with rfl | howed
      · exact .inl (current_patch hlikes)
      · obtain ⟨i, hi, -⟩ := howed.exists
        exact .inr ⟨i, hi⟩

end World

/-- In every run whose writes carry the post's likes or leave a write owed: once every like and
unlike has been handled, the likes of the entry are those of the post. -/
theorem likeCounts_converge {events : List Event} {w : World}
    (hrun : Run (Restrict (Graph World.step) fun w e => e.Safe w) World.initial events w)
    (hall : w.AllHandled) : w.Current := by
  have hkept : w.Kept := hrun.invariant (I := World.Kept)
    (fun _ _ _ h hstep => h.step hstep.1 hstep.2) World.Kept.initial
  refine hkept.owes.resolve_right ?_
  rintro ⟨i, ⟨e, he, hlikes, hhandled⟩, -⟩
  rw [hall e (List.mem_of_getElem? he) hlikes] at hhandled
  cases hhandled

section Lost

variable {w w' : World} {i k : ℕ} {c : Call}

/-- What is owed after another event's call changed was owed before. -/
theorem World.Owed.of_setPhase {phase : Phase} (h : (w.setPhase k phase).Owed i)
    (hc : w.calls[k]? = some c) (hne : c.event ≠ i) : w.Owed i := by
  refine ⟨h.1, fun b hb hbi => ?_⟩
  obtain ⟨j, hj⟩ := List.mem_iff_getElem?.mp hb
  have hjk : k ≠ j := by
    rintro rfl
    obtain rfl := Option.some.inj (hc.symm.trans hj)
    exact hne hbi
  exact h.2 b (List.mem_of_getElem? ((List.getElem?_modify_ne _ _ hjk).trans hj)) hbi

/-- The event of a call past its write is not owed. -/
theorem World.Owed.ne_of_setPhase {phase : Phase} (h : (w.setPhase k phase).Owed i)
    (hc : w.calls[k]? = some c) (hphase : phase = .patched ∨ phase = .skipped) : c.event ≠ i := by
  intro hci
  have hmem : { c with phase } ∈ (w.setPhase k phase).calls := by
    refine List.mem_of_getElem? (i := k) ?_
    exact (List.getElem?_modify_eq _ _ _).trans (congrArg (Option.map _) hc)
  obtain ⟨hpatched, hskipped⟩ := h.2 _ hmem hci
  exact hphase.elim hpatched hskipped

/-- A step that does not meet the condition leaves other likes in the entry, and no write owed. -/
theorem lost_of_unsafe {e : Event} (hsafe : ¬ e.Safe w) (hstep : w.step e = some w') :
    ¬ w'.Current ∧ ∀ i, ¬ w'.Owed i := by
  have hwritten : ∀ likes, likes ≠ w.likesCount → ∀ p : PostMeta, p.likes = some likes →
      ¬ (w.patch p).Current := by
    intro likes hne p hlikes hcurrent
    refine hne (hcurrent likes ?_)
    change (PostMeta.patch w.metadata p).likes = some likes
    unfold PostMeta.patch
    rw [hlikes]
    rfl
  cases e with
  | patches k acknowledged =>
    simp only [Event.Safe, not_forall, not_or] at hsafe
    obtain ⟨c, hc, likes, hlikes, hne, hnone⟩ := hsafe
    obtain ⟨b, hb, hpatch⟩ := Option.bind_eq_some_iff.mp hstep
    obtain rfl := Option.some.inj (hc.symm.trans hb)
    unfold World.patches at hpatch
    split at hpatch
    · next n hphase =>
      obtain rfl : n = likes := Option.some.inj (by rw [hphase] at hlikes; exact hlikes)
      split at hpatch
      · obtain rfl := Option.some.inj hpatch
        cases acknowledged with
        | true =>
          refine ⟨hwritten _ hne _ rfl, fun i hi => ?_⟩
          have hother := hi.ne_of_setPhase (c := c) hc (.inl rfl)
          have hold : (w.updatePostLikeMeta n).Owed i := hi.of_setPhase (c := c) hc hother
          exact hnone (World.Owed.owes (w := w) hold fun _ => hother.symm)
        | false =>
          refine ⟨hwritten _ hne _ rfl, fun i hi => ?_⟩
          have hold : w.Owed i := hi
          exact hnone (hold.owes fun hack => absurd hack (by decide))
      · cases hpatch
    all_goals cases hpatch
  | reads k available =>
    simp only [Event.Safe, not_forall, not_or] at hsafe
    obtain ⟨rfl, c, hc, hstale, hnone⟩ := hsafe
    obtain ⟨b, hb, hread⟩ := Option.bind_eq_some_iff.mp hstep
    obtain rfl := Option.some.inj (hc.symm.trans hb)
    split at hread
    · obtain rfl := Option.some.inj hread
      refine ⟨hstale, fun i hi => ?_⟩
      have hother := hi.ne_of_setPhase hc (.inr rfl)
      exact hnone ((hi.of_setPhase hc hother).owes hother.symm)
    · cases hread
  | patchedElsewhere p =>
    simp only [Event.Safe, not_forall, not_or] at hsafe
    obtain ⟨likes, hlikes, hne, hnone⟩ := hsafe
    obtain rfl := Option.some.inj hstep
    refine ⟨hwritten likes hne p hlikes, fun i hi => ?_⟩
    have hold : w.Owed i := hi
    exact hnone (hold.owes trivial)
  | toggles | comments | delivers | continues | returns | fails | expires =>
    exact absurd trivial hsafe

/-- A call past its write returns, and its event is handled. -/
theorem step_returns (hc : w.calls[k]? = some c)
    (hphase : c.phase = .patched ∨ c.phase = .skipped) :
    w.step (.returns k) = some (({ w with
      events := w.events.modify c.event fun e => { e with handled := true } } : World).setPhase k
        .over) := by
  have hbind : w.step (.returns k) = w.finish k c := by
    simp only [World.step, hc, Option.bind_some]
  rw [hbind]
  unfold World.finish
  rcases hphase with hphase | hphase <;> rw [hphase]

/-- Nothing is owed by a call's return. -/
theorem owed_of_returns (hc : w.calls[k]? = some c) (h : World.Owed (({ w with
      events := w.events.modify c.event fun e => { e with handled := true } } : World).setPhase k
        .over) i) : w.Owed i := by
  obtain ⟨e, he, hlikes, hhandled⟩ := h.1
  have hget : (w.events.modify c.event fun e => { e with handled := true })[i]? = some e := he
  have hne : c.event ≠ i := by
    rintro rfl
    rw [List.getElem?_modify_eq] at hget
    obtain ⟨b, -, rfl⟩ := Option.map_eq_some_iff.mp hget
    cases hhandled
  rw [List.getElem?_modify_ne _ _ hne] at hget
  exact ⟨⟨e, hget, hlikes, hhandled⟩, (h.of_setPhase (c := c) hc hne).2⟩

/-- Changing an element that no longer matches lowers the count. -/
private theorem countP_modify_lt {l : List Interaction} {e : Interaction}
    {p : Interaction → Bool} {f : Interaction → Interaction} (hi : l[i]? = some e)
    (hp : p e = true) (hf : ¬ p (f e) = true) : (l.modify i f).countP p < l.countP p := by
  induction l generalizing i with
  | nil => cases hi
  | cons b l ih =>
    cases i with
    | zero =>
      obtain rfl : b = e := Option.some.inj hi
      rw [List.modify_zero_cons, List.countP_cons_of_neg hf, List.countP_cons_of_pos hp]
      omega
    | succ i =>
      have hlt := ih (i := i) hi
      rw [List.modify_succ_cons, List.countP_cons, List.countP_cons]
      omega

/-- When no write is owed, the calls that are past their writes return one by one, by induction on
the number of likes left to be handled. -/
theorem returns_all (hnone : ∀ i, ¬ w.Owed i) :
    ∃ es w', Run (Graph World.step) w es w' ∧ w'.AllHandled ∧ w'.metadata = w.metadata ∧
      w'.likesCount = w.likesCount := by
  induction hn : w.events.countP (fun e => e.interactionType.changesLikes && !e.handled) using
    Nat.strongRecOn generalizing w with
  | ind n ih =>
    by_cases hall : w.AllHandled
    · exact ⟨[], w, .nil, hall, rfl, rfl⟩
    · obtain ⟨e, hmem, hlikes, hhandled⟩ : ∃ e ∈ w.events,
          e.interactionType.changesLikes = true ∧ e.handled = false := by
        simpa [World.AllHandled] using hall
      obtain ⟨i, hi⟩ := List.mem_iff_getElem?.mp hmem
      obtain ⟨c, hcmem, hci, hphase⟩ : ∃ c ∈ w.calls, c.event = i ∧
          (c.phase = .patched ∨ c.phase = .skipped) := by
        by_contra hnot
        refine hnone i ⟨⟨e, hi, hlikes, hhandled⟩, fun c hc hci => ?_⟩
        constructor
        · exact fun hp => hnot ⟨c, hc, hci, .inl hp⟩
        · exact fun hp => hnot ⟨c, hc, hci, .inr hp⟩
      obtain ⟨k, hk⟩ := List.mem_iff_getElem?.mp hcmem
      subst hci
      have hfewer : (w.events.modify c.event fun e => { e with handled := true }).countP
          (fun e => e.interactionType.changesLikes && !e.handled) < n := by
        rw [← hn]
        exact countP_modify_lt hi (by simp [hlikes, hhandled]) (by simp)
      obtain ⟨es, w', hrun, hdone, hmeta, hcount⟩ :=
        ih _ hfewer (fun j hj => hnone j (owed_of_returns hk hj)) rfl
      exact ⟨.returns k :: es, w', .cons (step_returns hk hphase) hrun, hdone, hmeta, hcount⟩

end Lost

/-- After a step that does not meet the condition there is a run in which every like and unlike
is handled and the likes of the entry are others than those of the post. -/
theorem likeCounts_diverge {w w' : World} {e : Event} (hsafe : ¬ e.Safe w)
    (hstep : w.step e = some w') :
    ∃ es w'', Run (Graph World.step) w' es w'' ∧ w''.AllHandled ∧ ¬ w''.Current := by
  obtain ⟨hstale, hnone⟩ := lost_of_unsafe hsafe hstep
  obtain ⟨es, w'', hrun, hall, hmeta, hcount⟩ := returns_all hnone
  refine ⟨es, w'', hrun, hall, fun hcurrent => hstale ?_⟩
  unfold World.Current at hcurrent ⊢
  rwa [hmeta, hcount] at hcurrent

/-- Two users like the post. The first like's handler reads the post before the second like and
writes after the second one's handler. -/
def overtaken : List Event :=
  [.toggles "alice", .delivers 0, .reads 0 true, .toggles "bob", .delivers 1, .reads 1 true,
    .continues 1, .continues 1, .patches 1 true, .returns 1,
    .continues 0, .continues 0, .patches 0 true, .returns 0]

/-- A patch that was overtaken by a later one leaves the older count. -/
theorem likeCounts_overtaken : ∃ w, Run (Graph World.step) World.initial overtaken w ∧
    w.AllHandled ∧ w.likesCount = 2 ∧ enrichLikes w.metadata w.likesCount = 1 ∧ ¬ w.Current := by
  obtain ⟨w, hrun, hw⟩ : ∃ w, Run (Graph World.step) World.initial overtaken w ∧
      decide (w.AllHandled ∧ w.likesCount = 2 ∧ enrichLikes w.metadata w.likesCount = 1 ∧
        ¬ w.Current) = true := exec_any (by decide +kernel)
  exact ⟨w, hrun, of_decide_eq_true hw⟩

/-- The first like's handler writes a number that is out of date while the second like is owed,
and its event is delivered again. -/
def redelivered : List Event :=
  [.toggles "alice", .delivers 0, .reads 0 true, .toggles "bob", .continues 0, .continues 0,
    .patches 0 true, .fails 0, .delivers 1, .reads 1 true, .delivers 0, .reads 2 true,
    .continues 1, .continues 1, .continues 2, .continues 2, .patches 2 true, .returns 2,
    .patchedElsewhere ⟨none, none, some 7⟩, .patches 1 false, .patches 1 true, .returns 1]

/-- An event handled twice leaves the current count. -/
theorem likeCounts_converge_redelivered :
    ∃ w, Run (Restrict (Graph World.step) fun w e => e.Safe w) World.initial redelivered w ∧
      w.AllHandled ∧ w.metadata = some ⟨some 2, none, some 7⟩ ∧ w.Current := by
  obtain ⟨w, hexec, hw⟩ := (Option.any_eq_true _ _).mp
    (show (exec (fun w (e : Event) => if decide (e.Safe w) then w.step e else none)
        World.initial redelivered).any (fun w => decide (w.AllHandled ∧
          w.metadata = some ⟨some 2, none, some 7⟩)) = true by decide +kernel)
  have hrun := exec_restrict (C := fun w (e : Event) => e.Safe w)
    (fun _ _ h => of_decide_eq_true h) hexec
  obtain ⟨hall, hmeta⟩ := of_decide_eq_true hw
  exact ⟨w, hrun, hall, hmeta, likeCounts_converge hrun hall⟩

end Ascendance.FeedMeta
