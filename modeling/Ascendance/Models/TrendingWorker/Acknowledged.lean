import Ascendance.Core.Lists
import Ascendance.Models.TrendingWorker.Worker

/-!
# Only projected work is acknowledged

Every identifier that is pending, or that a flush holds, was received before: what
a flush holds, before the flush started. So an acknowledgement by a flush comes
after a read that was issued after the message was received, and after the write of
what that read gave.
-/

namespace Ascendance.TrendingWorker

open Ascendance.Core

variable {FeedPost Score : Type*} {stream : String → MessageFields}
  {scoring : Scoring FeedPost Score}

/-- The message was received before an index of the history. -/
def ReceivedBefore (h : List (Record FeedPost Score)) (i : ℕ) (id : String) : Prop :=
  ∃ k, k < i ∧ h[k]? = some (.received id)

/-- The message was held by the flush that started at an index. -/
def PartOf (h : List (Record FeedPost Score)) (n : ℕ) (id : String) : Prop :=
  ∃ entries, h[n]? = some (.flushStarted entries) ∧ ∃ e ∈ entries, id ∈ e.2.messageIds

/-- Before an index of the history the post was read, by a read that was issued after the
message was received, and it was not found or the score computed from it was written. -/
def Projected (scoring : Scoring FeedPost Score) (h : List (Record FeedPost Score)) (k : ℕ)
    (id postId : String) : Prop :=
  ∃ since j ids now posts m, ReceivedBefore h since id ∧ since ≤ j ∧ j < k ∧
    h[j]? = some (.read since ids now posts) ∧ postId ∈ ids ∧ postMap scoring posts ∅ = some m ∧
    (m.get postId = none ∨
      ∃ post score i updates, m.get postId = some post ∧
        scoring.calculateTrendingScore now post = some score ∧ j < i ∧ i < k ∧
        h[i]? = some (.written updates) ∧ (postId, score) ∈ updates)

section Histories

variable {h : List (Record FeedPost Score)} {i k n : ℕ} {id postId : String}

/-- What was received stays received. -/
theorem ReceivedBefore.append (hr : ReceivedBefore h i id) (l : List (Record FeedPost Score)) :
    ReceivedBefore (h ++ l) i id := by
  obtain ⟨k, hk, hget⟩ := hr
  exact ⟨k, hk, getElem?_append_of_some hget l⟩

/-- What was received before a moment was received before a later one. -/
theorem ReceivedBefore.mono (hr : ReceivedBefore h i id) (hi : i ≤ k) : ReceivedBefore h k id := by
  obtain ⟨j, hj, hget⟩ := hr
  exact ⟨j, Nat.lt_of_lt_of_le hj hi, hget⟩

/-- What was part of a flush stays part of it. -/
theorem PartOf.append (hp : PartOf h n id) (l : List (Record FeedPost Score)) :
    PartOf (h ++ l) n id := by
  obtain ⟨entries, hget, he⟩ := hp
  exact ⟨entries, getElem?_append_of_some hget l, he⟩

/-- What was projected stays projected. -/
theorem Projected.append (hp : Projected scoring h k id postId)
    (l : List (Record FeedPost Score)) : Projected scoring (h ++ l) k id postId := by
  obtain ⟨since, j, ids, now, posts, m, hr, hsince, hj, hread, hid, hm, hfound⟩ := hp
  refine ⟨since, j, ids, now, posts, m, hr.append l, hsince, hj, getElem?_append_of_some hread l,
    hid, hm, hfound.imp_right ?_⟩
  rintro ⟨post, score, i, updates, hpost, hscore, hji, hik, hwritten, hu⟩
  exact ⟨post, score, i, updates, hpost, hscore, hji, hik, getElem?_append_of_some hwritten l, hu⟩

end Histories

/-- The messages of the entries were received before an index, and they name the posts that
they stand under. -/
def Origin (stream : String → MessageFields) (h : List (Record FeedPost Score)) (i : ℕ)
    (entries : List PendingEntry) : Prop :=
  ∀ e ∈ entries, ∀ id ∈ e.2.messageIds,
    ReceivedBefore h i id ∧ (stream id).named = some e.1

section Origins

variable {h : List (Record FeedPost Score)} {i k : ℕ} {entries : List PendingEntry}
  {m : OrderedMap String PendingDeltas}

/-- Entries with an origin keep it. -/
theorem Origin.append (ho : Origin stream h i entries) (l : List (Record FeedPost Score)) :
    Origin stream (h ++ l) i entries := fun e he id hid =>
  ⟨(ho e he id hid).1.append l, (ho e he id hid).2⟩

/-- Entries with an origin before a moment have one before a later moment. -/
theorem Origin.mono (ho : Origin stream h i entries) (hi : i ≤ k) : Origin stream h k entries :=
  fun e he id hid => ⟨(ho e he id hid).1.mono hi, (ho e he id hid).2⟩

/-- The messages of a pending entry were received and name its post. -/
theorem Origin.get (ho : Origin stream h i m.entries) {postId : String} {d : PendingDeltas}
    (hd : m.get postId = some d) {id : String} (hid : id ∈ d.messageIds) :
    ReceivedBefore h i id ∧ (stream id).named = some postId :=
  ho ⟨postId, d⟩ (OrderedMap.mem_entries_iff.mpr hd) id hid

/-- Setting the entry of a post whose messages have that origin. -/
theorem Origin.set (ho : Origin stream h i m.entries) {postId : String} {d : PendingDeltas}
    (hd : ∀ id ∈ d.messageIds, ReceivedBefore h i id ∧ (stream id).named = some postId) :
    Origin stream h i (m.set postId d).entries := by
  rintro ⟨p, d'⟩ he id hid
  have hget := OrderedMap.mem_entries_iff.mp he
  rw [OrderedMap.get_set] at hget
  split at hget
  · next hp =>
    obtain rfl := Option.some.inj hget
    exact hp ▸ hd id hid
  · exact ho.get hget hid

/-- A pushed list holds the new identifier and old ones. -/
private theorem mem_pushId {ids : List String} {a b : String} (hb : b ∈ pushId ids a) :
    b ∈ ids ∨ b = a := by
  unfold pushId at hb
  split at hb
  · exact .inl hb
  · exact (List.mem_append.mp hb).imp_right List.mem_singleton.mp

private theorem mem_foldl_pushId {b : String} : ∀ (as ids : List String),
    b ∈ as.foldl pushId ids → b ∈ ids ∨ b ∈ as
  | [], _, hb => .inl hb
  | a :: as, ids, hb => by
    rcases mem_foldl_pushId as (pushId ids a) hb with hb | hb
    · refine (mem_pushId hb).imp_right ?_
      rintro rfl
      exact List.mem_cons_self
    · exact .inr (List.mem_cons_of_mem a hb)

/-- Putting an entry back keeps the origins. -/
theorem Origin.requeueEntry (ho : Origin stream h i m.entries) {e : PendingEntry}
    (he : Origin stream h i [e]) : Origin stream h i (requeueEntry m e).entries := by
  have hids := he e (List.mem_singleton.mpr rfl)
  unfold TrendingWorker.requeueEntry
  split
  · exact ho.set hids
  · next existing hget =>
    refine ho.set fun id hid => ?_
    rcases mem_foldl_pushId _ _ hid with hold | hnew
    · exact ho.get hget hold
    · exact hids id hnew

/-- Putting a chunk back keeps the origins. -/
theorem Origin.requeueEntries {chunk : List PendingEntry} (hc : Origin stream h i chunk)
    (ho : Origin stream h i m.entries) : Origin stream h i (requeueEntries m chunk).entries := by
  induction chunk generalizing m with
  | nil => exact ho
  | cons e chunk ih =>
    have hhead : Origin stream h i [e] := fun e' he' =>
      hc e' (List.mem_singleton.mp he' ▸ List.mem_cons_self)
    exact ih (fun e' he' => hc e' (List.mem_cons_of_mem e he')) (ho.requeueEntry hhead)

end Origins

/-- Every post that the projection was asked for is missing or among the updates. -/
theorem updatesFor_spec {now : ℕ} {m : OrderedMap String FeedPost} :
    ∀ {ids : List String} {updates : List (String × Score)},
      updatesFor scoring now m ids = some updates → ∀ p ∈ ids, m.get p = none ∨
        ∃ post score, m.get p = some post ∧
          scoring.calculateTrendingScore now post = some score ∧ (p, score) ∈ updates
  | [], _, _, p, hp => absurd hp List.not_mem_nil
  | postId :: ids, updates, h, p, hp => by
    unfold updatesFor at h
    cases hget : m.get postId with
    | none =>
      simp only [hget] at h
      rcases List.mem_cons.mp hp with rfl | hp
      · exact .inl hget
      · exact updatesFor_spec h p hp
    | some post =>
      simp only [hget] at h
      split at h
      · next score rest hscore hrest =>
        obtain rfl := Option.some.inj h
        rcases List.mem_cons.mp hp with rfl | hp
        · exact .inr ⟨post, score, hget, hscore, List.mem_cons_self⟩
        · refine (updatesFor_spec hrest p hp).imp_right ?_
          rintro ⟨post', score', hpost, hscore', hmem⟩
          exact ⟨post', score', hpost, hscore', List.mem_cons_of_mem _ hmem⟩
      · cases h

/-- What a flush that started at an index knows of its chunk in each phase. -/
def PhaseOk (scoring : Scoring FeedPost Score) (h : List (Record FeedPost Score)) (since : ℕ)
    (entries : List PendingEntry) : Phase Score → Prop
  | .between => True
  | .reading issued chunk => chunk ⊆ entries ∧ since ≤ issued ∧ issued ≤ h.length
  | .writing chunk updates => chunk ⊆ entries ∧ ∃ issued j now posts,
      since ≤ issued ∧ issued ≤ j ∧ h[j]? = some (.read issued (postIds chunk) now posts) ∧
        preparePendingUpdates scoring now posts (postIds chunk) = some updates
  | .acknowledging chunk => chunk ⊆ entries

/-- What holds of a running flush. -/
structure FlushOk (stream : String → MessageFields) (scoring : Scoring FeedPost Score)
    (h : List (Record FeedPost Score)) (fl : Flush Score) : Prop where
  started : h[fl.since]? = some (.flushStarted fl.entries)
  origin : Origin stream h fl.since fl.entries
  rest : fl.rest ⊆ fl.entries
  phase : PhaseOk scoring h fl.since fl.entries fl.phase

/-- The acknowledgement of a message at an index of the history. -/
structure Justified (stream : String → MessageFields) (scoring : Scoring FeedPost Score)
    (h : List (Record FeedPost Score)) (k : ℕ) (flush : Option ℕ) (id : String) : Prop where
  projected : ∀ postId, (stream id).named = some postId → Projected scoring h k id postId
  part : ∀ n, flush = some n → PartOf h n id

namespace World

/-- What holds in every state: pending entries have an origin, acknowledgements are justified. -/
structure Invariant (stream : String → MessageFields) (scoring : Scoring FeedPost Score)
    (w : World FeedPost Score) : Prop where
  pending : Origin stream w.history w.history.length w.pending.entries
  flush : ∀ fl, w.flush = some fl → FlushOk stream scoring w.history fl
  acknowledged : ∀ k flush ids, w.history[k]? = some (.acknowledged flush ids) →
    ∀ id ∈ ids, Justified stream scoring w.history k flush id

end World

section Extended

variable {h : List (Record FeedPost Score)}

/-- A phase in order stays so. -/
theorem PhaseOk.append {since : ℕ} {entries : List PendingEntry} {phase : Phase Score}
    (hp : PhaseOk scoring h since entries phase) (l : List (Record FeedPost Score)) :
    PhaseOk scoring (h ++ l) since entries phase := by
  cases phase with
  | between => trivial
  | reading issued chunk =>
    obtain ⟨hsub, hsince, hlen⟩ := hp
    rw [PhaseOk, List.length_append]
    exact ⟨hsub, hsince, Nat.le_add_right_of_le hlen⟩
  | writing chunk updates =>
    obtain ⟨hsub, issued, j, now, posts, hsince, hj, hread, hprepared⟩ := hp
    exact ⟨hsub, issued, j, now, posts, hsince, hj, getElem?_append_of_some hread l, hprepared⟩
  | acknowledging chunk => exact hp

/-- A flush in order stays so. -/
theorem FlushOk.append {fl : Flush Score} (hfl : FlushOk stream scoring h fl)
    (l : List (Record FeedPost Score)) : FlushOk stream scoring (h ++ l) fl where
  started := getElem?_append_of_some hfl.started l
  origin := hfl.origin.append l
  rest := hfl.rest
  phase := hfl.phase.append l

/-- What is justified stays justified. -/
theorem Justified.append {k : ℕ} {flush : Option ℕ} {id : String}
    (hj : Justified stream scoring h k flush id) (l : List (Record FeedPost Score)) :
    Justified stream scoring (h ++ l) k flush id where
  projected postId hp := (hj.projected postId hp).append l
  part n hn := (hj.part n hn).append l

end Extended

namespace World

variable {w : World FeedPost Score}

/-- A record may be entered when, if it is an acknowledgement, it is justified. -/
theorem Invariant.enter (hi : w.Invariant stream scoring) {r : Record FeedPost Score}
    (hr : ∀ flush ids, r = .acknowledged flush ids → ∀ id ∈ ids,
      Justified stream scoring (w.history ++ [r]) w.history.length flush id) :
    (w.enter r).Invariant stream scoring where
  pending := (hi.pending.append [r]).mono (by simp [World.enter])
  flush fl hfl := (hi.flush fl hfl).append [r]
  acknowledged k flush ids hk id hid := by
    rcases getElem?_concat_cases hk with hold | ⟨rfl, hnew⟩
    · exact (hi.acknowledged k flush ids hold id hid).append [r]
    · exact hr flush ids hnew.symm id hid

/-- Pending entries that come from the stream keep the invariant. -/
private theorem Invariant.setPending (hi : w.Invariant stream scoring)
    {m : OrderedMap String PendingDeltas}
    (hm : Origin stream w.history w.history.length m.entries) :
    Invariant stream scoring { w with pending := m } := ⟨hm, hi.flush, hi.acknowledged⟩

/-- A flush in order keeps the invariant. -/
private theorem Invariant.setFlush (hi : w.Invariant stream scoring) {fl : Flush Score}
    (hfl : FlushOk stream scoring w.history fl) :
    Invariant stream scoring { w with flush := some fl } where
  pending := hi.pending
  flush _ hfl' := Option.some.inj hfl' ▸ hfl
  acknowledged := hi.acknowledged

/-- The end of a flush keeps the invariant. -/
private theorem Invariant.endFlush (hi : w.Invariant stream scoring) :
    Invariant stream scoring { w with flush := none } where
  pending := hi.pending
  flush _ hfl := nomatch hfl
  acknowledged := hi.acknowledged

/-- Merging a message into the pending entries keeps the invariant. -/
theorem Invariant.coalesce (hi : w.Invariant stream scoring) {id postId : String}
    (hid : ReceivedBefore w.history w.history.length id)
    (hnamed : (stream id).named = some postId) :
    (w.coalesce id postId).Invariant stream scoring := by
  refine hi.setPending (hi.pending.set fun id' hid' => ?_)
  rcases mem_pushId hid' with hold | rfl
  · cases hget : w.pending.get postId with
    | none => simp [hget] at hold
    | some d =>
      rw [hget, Option.getD_some] at hold
      exact hi.pending.get hget hold
  · exact ⟨hid, hnamed⟩

/-- Handling a message keeps the invariant. -/
theorem Invariant.handleStreamMessage (hi : w.Invariant stream scoring) (id : String) :
    (w.handleStreamMessage id (stream id)).Invariant stream scoring := by
  unfold World.handleStreamMessage
  split
  · exact hi
  · have hreceived : (w.enter (.received id)).Invariant stream scoring :=
      hi.enter fun _ _ hr => nomatch hr
    dsimp only
    split
    · next hnamed =>
      refine hreceived.enter fun flush ids hr id' hid' => ?_
      obtain ⟨rfl, rfl⟩ : none = flush ∧ [id] = ids := by simpa using hr
      obtain rfl := List.mem_singleton.mp hid'
      exact ⟨fun p hp => (nomatch hnamed.symm.trans hp), fun n hn => (nomatch hn)⟩
    · next postId hnamed =>
      refine hreceived.coalesce ⟨w.history.length, ?_, ?_⟩ hnamed
      · simp [World.enter]
      · simp [World.enter]

/-- Beginning a flush keeps the invariant. -/
theorem Invariant.startFlush (hi : w.Invariant stream scoring) :
    Invariant stream scoring { w.enter (.flushStarted w.pending.entries) with
      flush := some ⟨w.history.length, w.pending.entries, w.pending.entries, .between⟩
      pending := ∅ } := by
  have hstarted : (w.enter (.flushStarted w.pending.entries)).Invariant stream scoring :=
    hi.enter fun _ _ hr => nomatch hr
  refine (hstarted.setPending (m := ∅) fun e he => absurd he List.not_mem_nil).setFlush
    ⟨?_, hi.pending.append _, List.Subset.refl _, trivial⟩
  simp [World.enter]

section Flushes

variable {fl : Flush Score} {chunk : List PendingEntry}

/-- A chunk of a flush may be put back. -/
theorem Invariant.requeue (hi : w.Invariant stream scoring) (hfl : w.flush = some fl)
    (hchunk : chunk ⊆ fl.entries) : (w.requeue chunk).Invariant stream scoring := by
  have hok := hi.flush fl hfl
  have hlen := (List.getElem?_eq_some_iff.mp hok.started).1
  refine hi.setPending (Origin.requeueEntries (fun e he => ?_) hi.pending)
  exact hok.origin.mono (Nat.le_of_lt hlen) e (hchunk he)

/-- A flush may go to a phase that is in order. -/
theorem Invariant.goTo (hi : w.Invariant stream scoring) (hfl : w.flush = some fl)
    {phase : Phase Score} (hphase : PhaseOk scoring w.history fl.since fl.entries phase) :
    (w.goTo fl phase).Invariant stream scoring := by
  have hok := hi.flush fl hfl
  exact hi.setFlush ⟨hok.started, hok.origin, hok.rest, hphase⟩

/-- Reading a chunk keeps the invariant. -/
theorem Invariant.issueRead (hi : w.Invariant stream scoring) (hfl : w.flush = some fl) :
    Invariant stream scoring { w with
      flush := some { fl with
        rest := fl.rest.drop CHUNK_SIZE
        phase := .reading w.history.length (fl.rest.take CHUNK_SIZE) } } := by
  have hok := hi.flush fl hfl
  have hlen := (List.getElem?_eq_some_iff.mp hok.started).1
  refine hi.setFlush ⟨hok.started, hok.origin, ?_, ?_, Nat.le_of_lt hlen, Nat.le_refl _⟩
  · exact fun e he => hok.rest (List.mem_of_mem_drop he)
  · exact fun e he => hok.rest (List.mem_of_mem_take he)

/-- Projecting the posts that were read keeps the invariant. -/
theorem Invariant.project (hi : w.Invariant stream scoring) (hfl : w.flush = some fl)
    {issued : ℕ} (hphase : fl.phase = .reading issued chunk) (posts : List FeedPost) :
    (w.project scoring fl issued chunk posts).Invariant stream scoring := by
  have hok := hi.flush fl hfl
  obtain ⟨hsub, hsince, hlen⟩ : chunk ⊆ fl.entries ∧ fl.since ≤ issued ∧
      issued ≤ w.history.length := by
    have hp := hok.phase
    rw [hphase] at hp
    exact hp
  have hread : (w.enter (.read issued (postIds chunk) w.clock posts)).Invariant stream scoring :=
    hi.enter fun _ _ hr => nomatch hr
  unfold World.project
  dsimp only
  split
  · exact (hread.requeue hfl hsub).endFlush
  · next updates hprepared =>
    refine hread.goTo hfl ⟨hsub, issued, w.history.length, w.clock, posts, hsince, hlen, ?_,
      hprepared⟩
    simp [World.enter]

/-- The messages of a chunk whose updates have just been written may be acknowledged. -/
theorem Invariant.justified (hi : w.Invariant stream scoring) (hfl : w.flush = some fl)
    {updates : List (String × Score)} (hphase : fl.phase = .writing chunk updates) {id : String}
    (hid : id ∈ messageIds chunk) (r : Record FeedPost Score) :
    Justified stream scoring ((w.enter (.written updates)).history ++ [r])
      (w.enter (.written updates)).history.length (some fl.since) id := by
  have hok := hi.flush fl hfl
  obtain ⟨hsub, issued, j, now, posts, hsince, hj, hread, hprepared⟩ :
      PhaseOk scoring w.history fl.since fl.entries (.writing chunk updates) := hphase ▸ hok.phase
  obtain ⟨e, he, hmem⟩ := List.mem_flatMap.mp hid
  obtain ⟨hreceived, hnamed⟩ := hok.origin e (hsub he) id hmem
  have hlen : (w.enter (.written updates)).history.length = w.history.length + 1 := by
    simp [World.enter]
  have hjlt := (List.getElem?_eq_some_iff.mp hread).1
  obtain ⟨m, hm, hupdates⟩ := Option.bind_eq_some_iff.mp hprepared
  refine Justified.append ⟨fun postId hp => ?_, fun n hn => ?_⟩ [r]
  · obtain rfl := Option.some.inj (hnamed.symm.trans hp)
    have hasked : e.1 ∈ postIds chunk := List.mem_map_of_mem he
    refine ⟨issued, j, postIds chunk, now, posts, m, (hreceived.mono hsince).append _, hj, by omega,
      getElem?_append_of_some hread _, hasked, hm, ?_⟩
    refine (updatesFor_spec hupdates e.1 hasked).imp_right ?_
    rintro ⟨post, score, hpost, hscore, hu⟩
    exact ⟨post, score, w.history.length, updates, hpost, hscore, hjlt, by omega,
      by simp [World.enter], hu⟩
  · obtain rfl := Option.some.inj hn
    exact ⟨fl.entries, getElem?_append_of_some hok.started _, e, hsub he, hmem⟩

/-- Acknowledging a written chunk keeps the invariant. -/
theorem Invariant.acknowledge (hi : w.Invariant stream scoring) (hfl : w.flush = some fl)
    {updates : List (String × Score)} (hphase : fl.phase = .writing chunk updates) :
    (w.acknowledge fl chunk updates).Invariant stream scoring := by
  have hwritten : (w.enter (.written updates)).Invariant stream scoring :=
    hi.enter fun _ _ hr => nomatch hr
  have hsub : chunk ⊆ fl.entries := by
    have hp := (hi.flush fl hfl).phase
    rw [hphase] at hp
    exact hp.1
  unfold World.acknowledge
  dsimp only
  split
  · exact hwritten.goTo hfl trivial
  · refine Invariant.goTo (hwritten.enter fun flush ids hr id hid => ?_) hfl hsub
    obtain ⟨rfl, rfl⟩ : some fl.since = flush ∧ messageIds chunk = ids := by simpa using hr
    exact hi.justified hfl hphase hid _

/-- Every step of a flush keeps the invariant. -/
theorem Invariant.flushStep (hi : w.Invariant stream scoring) (hfl : w.flush = some fl)
    {e : Event FeedPost} {w' : World FeedPost Score}
    (h : w.flushStep scoring fl e fl.phase = some w') : w'.Invariant stream scoring := by
  have hp := (hi.flush fl hfl).phase
  unfold World.flushStep at h
  split at h
  · split at h
    · cases h
    · obtain rfl := Option.some.inj h
      exact hi.issueRead hfl
  · next hphase =>
    rw [hphase] at hp
    obtain rfl := Option.some.inj h
    exact (hi.requeue hfl hp.1).endFlush
  · next hphase =>
    obtain rfl := Option.some.inj h
    exact hi.project hfl hphase _
  · next hphase =>
    rw [hphase] at hp
    obtain rfl := Option.some.inj h
    exact (hi.requeue hfl hp.1).goTo hfl trivial
  · next hphase =>
    obtain rfl := Option.some.inj h
    exact hi.acknowledge hfl hphase
  · next hphase =>
    rw [hphase] at hp
    obtain rfl := Option.some.inj h
    exact (hi.requeue hfl hp.1).goTo hfl trivial
  · obtain rfl := Option.some.inj h
    exact hi.goTo hfl trivial
  · next hphase =>
    rw [hphase] at hp
    obtain rfl := Option.some.inj h
    exact (hi.requeue hfl hp).goTo hfl trivial
  · obtain rfl := Option.some.inj h
    exact hi.endFlush
  · split at h
    · obtain rfl := Option.some.inj h
      exact hi.endFlush
    · cases h
  · cases h

end Flushes

/-- Every event keeps the invariant. -/
theorem Invariant.step (hi : w.Invariant stream scoring) {e : Event FeedPost}
    {w' : World FeedPost Score} (h : w.step stream scoring e = some w') :
    w'.Invariant stream scoring := by
  unfold World.step at h
  split at h
  · obtain rfl := Option.some.inj h
    exact ⟨hi.pending, hi.flush, hi.acknowledged⟩
  · obtain rfl := Option.some.inj h
    exact ⟨hi.pending, hi.flush, hi.acknowledged⟩
  · obtain rfl := Option.some.inj h
    exact ⟨hi.pending, hi.flush, hi.acknowledged⟩
  · obtain rfl := Option.some.inj h
    exact hi.handleStreamMessage _
  · split at h
    · cases h
    · obtain rfl := Option.some.inj h
      exact hi.startFlush
  · obtain ⟨fl, hfl, hstep⟩ := Option.bind_eq_some_iff.mp h
    exact hi.flushStep hfl hstep

private theorem invariant_initial :
    Invariant stream scoring (initial : World FeedPost Score) where
  pending _ he := absurd he List.not_mem_nil
  flush _ hfl := nomatch hfl
  acknowledged _ _ _ hk := nomatch hk

end World

/-- In every run, whatever is delivered, fails or throws: a message that names a post is
acknowledged only after a read of the post that was issued after the message was received,
which did not find the post or whose score was then written. And a flush acknowledges only
what it took out when it started: what arrives for its posts meanwhile is not among it,
unless it was delivered before as well. -/
theorem trendingWorker_acknowledges {events : List (Event FeedPost)} {w : World FeedPost Score}
    (hrun : Run (Graph (World.step stream scoring)) World.initial events w) {k : ℕ}
    {flush : Option ℕ} {ids : List String}
    (hack : w.history[k]? = some (.acknowledged flush ids)) {id : String} (hid : id ∈ ids) :
    (∀ postId, (stream id).named = some postId → Projected scoring w.history k id postId) ∧
      ∀ n, flush = some n → PartOf w.history n id := by
  have hi : w.Invariant stream scoring :=
    hrun.invariant (fun _ _ _ hi h => World.Invariant.step hi h) World.invariant_initial
  have hjustified := hi.acknowledged k flush ids hack id hid
  exact ⟨hjustified.projected, hjustified.part⟩

/-- Every message names the post `p`. -/
def oneTopic : String → MessageFields := fun _ => ⟨some "p", none, none⟩

/-- Posts are identifiers with a count of likes, which is their score. -/
def likesScoring : Scoring (String × ℕ) ℕ := ⟨fun post => some post.1, fun _ post => some post.2⟩

/-- A second message of the post arrives while the flush of the first is reading. -/
def overtaken : List (Event (String × ℕ)) :=
  [.deliver "1", .startFlush, .issueRead, .deliver "2", .readReturns (some [("p", 3)]),
    .writeSucceeds]

/-- What is acknowledged at an index, if that record is an acknowledgement. -/
def ackedAt (w : World (String × ℕ) ℕ) (k : ℕ) : List String :=
  match w.history[k]? with
  | some (.acknowledged _ ids) => ids
  | _ => []

private theorem mem_ackedAt {w : World (String × ℕ) ℕ} {k : ℕ} {id : String}
    (h : id ∈ ackedAt w k) :
    ∃ flush ids, w.history[k]? = some (.acknowledged flush ids) ∧ id ∈ ids := by
  unfold ackedAt at h
  split at h
  · next flush ids hk => exact ⟨flush, ids, hk, h⟩
  · exact absurd h List.not_mem_nil

/-- A message that overtakes a flush is acknowledged after its own projection. -/
theorem trendingWorker_acknowledges_overtaken :
    ∃ w, Run (Graph (World.step oneTopic likesScoring)) World.initial overtaken w ∧
      ackedAt w 5 = ["1"] ∧ Projected likesScoring w.history 5 "1" "p" := by
  obtain ⟨w, hrun, hacked⟩ :
      ∃ w, Run (Graph (World.step oneTopic likesScoring)) World.initial overtaken w ∧
        decide (ackedAt w 5 = ["1"]) = true := exec_any (by decide +kernel)
  have hids := of_decide_eq_true hacked
  obtain ⟨flush, ids, hack, hid⟩ := mem_ackedAt (hids ▸ List.mem_singleton.mpr rfl)
  exact ⟨w, hrun, hids, (trendingWorker_acknowledges hrun hack hid).1 "p" rfl⟩

end Ascendance.TrendingWorker
