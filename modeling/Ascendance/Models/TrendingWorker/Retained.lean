import Ascendance.Models.TrendingWorker.Acknowledged

/-!
# What a flush keeps

One flush, from its start until it returns or throws, for any chunk size. What it meets is
given for each chunk: the messages that are delivered while its read, its write and its
acknowledgement are awaited, and how these end.
-/

namespace Ascendance.TrendingWorker

open Ascendance.Core

/-- A message that is delivered during a flush. -/
structure Arrival where
  now : ℕ
  stopping : Bool
  id : String
  deriving DecidableEq, Repr

/-- What a chunk meets. -/
structure ChunkRun (FeedPost : Type*) where
  whileReading : List Arrival
  /-- The read fails, or returns an array of posts or something that is no array. -/
  read : Option (Option (List FeedPost))
  now : ℕ
  whileWriting : List Arrival
  written : Bool
  whileAcknowledging : List Arrival
  acknowledged : Bool

/-- How far a flush has come: the pending map, what it acknowledged, and whether it threw. -/
structure Settled where
  pending : OrderedMap String PendingDeltas
  acked : List String
  threw : Bool

section Flush

variable {FeedPost Score : Type*} (stream : String → MessageFields)
  (scoring : Scoring FeedPost Score)

/-- `handleStreamMessage`, for the pending map. -/
def receive (pending : OrderedMap String PendingDeltas) (a : Arrival) :
    OrderedMap String PendingDeltas :=
  if a.stopping then pending
  else
    match (stream a.id).named with
    | none => pending
    | some postId =>
      let existing := (pending.get postId).getD ⟨a.now, []⟩
      pending.set postId ⟨a.now, pushId existing.messageIds a.id⟩

/-- The pending entries after a list of messages. -/
def receiveAll (pending : OrderedMap String PendingDeltas) (as : List Arrival) :
    OrderedMap String PendingDeltas := as.foldl (receive stream) pending

/-- What the projection of a chunk makes of the result of its read. -/
def projection (run : ChunkRun FeedPost) (chunk : List PendingEntry)
    (result : Option (List FeedPost)) : Option (List (String × Score)) :=
  result.bind fun posts => preparePendingUpdates scoring run.now posts (postIds chunk)

/-- One turn of the loop. -/
def flushChunk (pending : OrderedMap String PendingDeltas) (run : ChunkRun FeedPost)
    (chunk : List PendingEntry) : Settled :=
  let pending := receiveAll stream pending run.whileReading
  match run.read with
  | none => ⟨requeueEntries pending chunk, [], false⟩
  | some result =>
    match projection scoring run chunk result with
    | none => ⟨requeueEntries pending chunk, [], true⟩
    | some _ =>
      let pending := receiveAll stream pending run.whileWriting
      if !run.written then ⟨requeueEntries pending chunk, [], false⟩
      else if messageIds chunk = [] then ⟨pending, [], false⟩
      else
        let pending := receiveAll stream pending run.whileAcknowledging
        if run.acknowledged then ⟨pending, messageIds chunk, false⟩
        else ⟨requeueEntries pending chunk, [], false⟩

/-- The loop; a throw leaves it. -/
def flushChunks (pending : OrderedMap String PendingDeltas) :
    List (ChunkRun FeedPost × List PendingEntry) → Settled
  | [] => ⟨pending, [], false⟩
  | (run, chunk) :: later =>
    let s := flushChunk stream scoring pending run chunk
    if s.threw then s
    else
      let t := flushChunks s.pending later
      ⟨t.pending, s.acked ++ t.acked, t.threw⟩

/-- The slices of a list. -/
def chunks {α : Type*} (chunkSize : ℕ) (l : List α) : List (List α) :=
  (List.range ((l.length + chunkSize - 1) / chunkSize)).map fun k =>
    (l.drop (k * chunkSize)).take chunkSize

/-- The chunks of a map with what each of them meets. -/
def turns (chunkSize : ℕ) (runs : ℕ → ChunkRun FeedPost)
    (pending : OrderedMap String PendingDeltas) : List (ChunkRun FeedPost × List PendingEntry) :=
  (chunks chunkSize pending.entries).zipIdx.map fun c => (runs c.2, c.1)

/-- `flushPending`, when no flush is running. -/
def flushPending (chunkSize : ℕ) (runs : ℕ → ChunkRun FeedPost)
    (pending : OrderedMap String PendingDeltas) : Settled :=
  if pending.entries = [] then ⟨pending, [], false⟩
  else flushChunks stream scoring ∅ (turns chunkSize runs pending)

/-- The worker handles a message in this way. -/
theorem pending_handleStreamMessage (w : World FeedPost Score) (id : String) :
    (w.handleStreamMessage id (stream id)).pending =
      receive stream w.pending ⟨w.clock, w.stopping, id⟩ := by
  unfold World.handleStreamMessage receive
  by_cases hstop : w.stopping = true
  · rw [if_pos hstop, if_pos hstop]
  · rw [if_neg hstop, if_neg hstop]
    cases (stream id).named <;> rfl

end Flush

/-- The message is pending under a post. -/
def Pending (m : OrderedMap String PendingDeltas) (postId id : String) : Prop :=
  ∃ d, m.get postId = some d ∧ id ∈ d.messageIds

/-- The message stands in an entry of the post. -/
def Lists (entries : List PendingEntry) (postId id : String) : Prop :=
  ∃ e ∈ entries, e.1 = postId ∧ id ∈ e.2.messageIds

/-- A message of the post was delivered to a worker that is not stopping. -/
def Arrived (stream : String → MessageFields) (as : List Arrival) (postId id : String) : Prop :=
  ∃ a ∈ as, a.stopping = false ∧ (stream a.id).named = some postId ∧ a.id = id

/-- No message is twice in one entry. -/
def Distinct (entries : List PendingEntry) : Prop := ∀ e ∈ entries, e.2.messageIds.Nodup

section Updates

variable {stream : String → MessageFields} {m : OrderedMap String PendingDeltas}
  {postId id : String}

private theorem pending_iff_lists : Pending m postId id ↔ Lists m.entries postId id := by
  constructor
  · rintro ⟨d, hd, hid⟩
    exact ⟨⟨postId, d⟩, OrderedMap.mem_entries_iff.mpr hd, rfl, hid⟩
  · rintro ⟨⟨p, d⟩, he, rfl, hid⟩
    exact ⟨d, OrderedMap.mem_entries_iff.mp he, hid⟩

private theorem mem_pushId_iff {ids : List String} {a b : String} :
    b ∈ pushId ids a ↔ b ∈ ids ∨ b = a := by
  unfold pushId
  split
  · next ha => exact ⟨.inl, fun h => h.elim (fun hb => hb) fun hb => hb ▸ ha⟩
  · rw [List.mem_append, List.mem_singleton]

private theorem nodup_pushId {ids : List String} (h : ids.Nodup) (a : String) :
    (pushId ids a).Nodup := by
  unfold pushId
  split
  · exact h
  · next ha =>
    exact List.Nodup.append h (List.nodup_singleton a) (by simpa using ha)

private theorem mem_foldl_pushId_iff {as ids : List String} {b : String} :
    b ∈ as.foldl pushId ids ↔ b ∈ ids ∨ b ∈ as := by
  induction as generalizing ids with
  | nil => simp
  | cons a as ih => rw [List.foldl_cons, ih, mem_pushId_iff, List.mem_cons, or_assoc]

private theorem nodup_foldl_pushId {as ids : List String} (h : ids.Nodup) :
    (as.foldl pushId ids).Nodup := by
  induction as generalizing ids with
  | nil => exact h
  | cons a as ih => exact ih (nodup_pushId h a)

/-- Setting an entry changes what is pending under its post. -/
theorem pending_set {d : PendingDeltas} {p : String} :
    Pending (m.set p d) postId id ↔
      (postId = p ∧ id ∈ d.messageIds) ∨ (postId ≠ p ∧ Pending m postId id) := by
  unfold Pending
  rw [OrderedMap.get_set]
  by_cases h : postId = p <;> simp [h]

/-- Writing an entry without repetitions keeps the entries so. -/
theorem Distinct.set (h : Distinct m.entries) {p : String} {d : PendingDeltas}
    (hd : d.messageIds.Nodup) : Distinct (m.set p d).entries := by
  rintro ⟨j, d'⟩ he
  have hget := OrderedMap.mem_entries_iff.mp he
  rw [OrderedMap.get_set] at hget
  split at hget
  · obtain rfl := Option.some.inj hget
    exact hd
  · exact h ⟨j, d'⟩ (OrderedMap.mem_entries_iff.mpr hget)

/-- An entry names no message twice. -/
theorem Distinct.get (h : Distinct m.entries) {p : String} {d : PendingDeltas}
    (hd : m.get p = some d) : d.messageIds.Nodup := h ⟨p, d⟩ (OrderedMap.mem_entries_iff.mpr hd)

private theorem Lists.append_iff {es fs : List PendingEntry} :
    Lists (es ++ fs) postId id ↔ Lists es postId id ∨ Lists fs postId id := by
  unfold Lists
  simp only [List.mem_append, or_and_right, exists_or]

/-- A received arrival is pending. -/
private theorem pending_receive {a : Arrival} :
    Pending (receive stream m a) postId id ↔ Pending m postId id ∨
      Arrived stream [a] postId id := by
  unfold receive Arrived
  by_cases hstop : a.stopping = true
  · simp [hstop]
  · rw [if_neg hstop]
    cases hnamed : (stream a.id).named with
    | none => simp [hnamed]
    | some p =>
      simp only
      rw [pending_set, mem_pushId_iff]
      by_cases hp : postId = p
      · subst hp
        cases hget : m.get postId <;> simp [Pending, hget, hnamed, hstop, @eq_comm _ id a.id]
      · simp [hp, hnamed, Ne.symm hp]

/-- Receiving a message keeps the entries without repetitions. -/
theorem Distinct.receive (h : Distinct m.entries) (a : Arrival) :
    Distinct (receive stream m a).entries := by
  unfold TrendingWorker.receive
  split
  · exact h
  · split
    · exact h
    · next p _ =>
      refine h.set (nodup_pushId ?_ _)
      cases hget : m.get p with
      | none => exact List.nodup_nil
      | some d => exact h.get hget

private theorem Arrived.append_iff {as bs : List Arrival} : Arrived stream (as ++ bs) postId id ↔
    Arrived stream as postId id ∨ Arrived stream bs postId id := by
  unfold Arrived
  simp only [List.mem_append, or_and_right, exists_or]

/-- Received arrivals are pending. -/
private theorem pending_receiveAll {as : List Arrival} :
    Pending (receiveAll stream m as) postId id ↔
      Pending m postId id ∨ Arrived stream as postId id := by
  unfold receiveAll
  induction as generalizing m with
  | nil => simp [Arrived]
  | cons a as ih =>
    rw [List.foldl_cons, ih, pending_receive, or_assoc, ← Arrived.append_iff]
    rfl

private theorem receiveAll_append (as bs : List Arrival) :
    receiveAll stream m (as ++ bs) = receiveAll stream (receiveAll stream m as) bs :=
  List.foldl_append

/-- Receiving lists no identifier twice. -/
private theorem Distinct.receiveAll (h : Distinct m.entries) (as : List Arrival) :
    Distinct (receiveAll stream m as).entries := by
  unfold TrendingWorker.receiveAll
  induction as generalizing m with
  | nil => exact h
  | cons a as ih => exact ih (h.receive a)

/-- An entry that is put back is pending again. -/
private theorem pending_requeueEntry {e : PendingEntry} :
    Pending (requeueEntry m e) postId id ↔ Pending m postId id ∨ Lists [e] postId id := by
  unfold requeueEntry Lists
  cases hget : m.get e.1 with
  | none =>
    simp only
    rw [pending_set]
    by_cases hp : postId = e.1
    · subst hp
      simp [Pending, hget]
    · simp [hp, Ne.symm hp]
  | some existing =>
    simp only
    rw [pending_set, mem_foldl_pushId_iff]
    by_cases hp : postId = e.1
    · subst hp
      simp [Pending, hget]
    · simp [hp, Ne.symm hp]

/-- Putting an entry back keeps the entries without repetitions. -/
theorem Distinct.requeueEntry (h : Distinct m.entries) {e : PendingEntry}
    (he : e.2.messageIds.Nodup) : Distinct (requeueEntry m e).entries := by
  unfold TrendingWorker.requeueEntry
  split
  · exact h.set he
  · next hget => exact h.set (nodup_foldl_pushId (h.get hget))

/-- Entries that are put back are pending again. -/
private theorem pending_requeueEntries {chunk : List PendingEntry} :
    Pending (requeueEntries m chunk) postId id ↔ Pending m postId id ∨ Lists chunk postId id := by
  unfold requeueEntries
  induction chunk generalizing m with
  | nil => simp [Lists]
  | cons e chunk ih =>
    rw [List.foldl_cons, ih, pending_requeueEntry, or_assoc]
    unfold Lists
    simp only [List.mem_cons, List.not_mem_nil, or_false, exists_eq_left, or_and_right, exists_or]

/-- Putting a chunk back keeps the entries without repetitions. -/
theorem Distinct.requeueEntries {chunk : List PendingEntry} (h : Distinct m.entries)
    (hchunk : Distinct chunk) : Distinct (requeueEntries m chunk).entries := by
  unfold TrendingWorker.requeueEntries
  induction chunk generalizing m with
  | nil => exact h
  | cons e chunk ih =>
    exact ih (h.requeueEntry (hchunk e List.mem_cons_self)) fun e' he' =>
      hchunk e' (List.mem_cons_of_mem e he')

end Updates

section Chunk

variable {FeedPost Score : Type*} {stream : String → MessageFields}
  {scoring : Scoring FeedPost Score} {m : OrderedMap String PendingDeltas}
  {run : ChunkRun FeedPost} {chunk : List PendingEntry} {postId id : String}

/-- The read of a chunk returns something that cannot be projected. -/
def ChunkRun.throws (scoring : Scoring FeedPost Score) (run : ChunkRun FeedPost)
    (chunk : List PendingEntry) : Bool :=
  run.read.any fun result => (projection scoring run chunk result).isNone

/-- The messages that are delivered before the turn of a chunk ends. -/
def ChunkRun.arrivals (scoring : Scoring FeedPost Score) (run : ChunkRun FeedPost)
    (chunk : List PendingEntry) : List Arrival :=
  run.whileReading ++
    if run.read.isNone ∨ run.throws scoring chunk then []
    else run.whileWriting ++
      if run.written ∧ messageIds chunk ≠ [] then run.whileAcknowledging else []

variable (stream scoring m run chunk) in
/-- What a turn of the loop does: the chunk is acknowledged or goes back, and what is
delivered is pending. -/
theorem flushChunk_spec : (flushChunk stream scoring m run chunk).threw = run.throws scoring chunk ∧
    ((flushChunk stream scoring m run chunk).acked = messageIds chunk ∧
        run.throws scoring chunk = false ∧
        (flushChunk stream scoring m run chunk).pending =
          receiveAll stream m (run.arrivals scoring chunk) ∨
      (flushChunk stream scoring m run chunk).acked = [] ∧
        (flushChunk stream scoring m run chunk).pending =
          requeueEntries (receiveAll stream m (run.arrivals scoring chunk)) chunk) := by
  unfold flushChunk ChunkRun.arrivals ChunkRun.throws
  cases hread : run.read with
  | none => simp
  | some result =>
    cases hprojection : projection scoring run chunk result with
    | none => simp [hprojection]
    | some updates =>
      cases hwritten : run.written with
      | false => simp [hprojection, receiveAll_append]
      | true =>
        by_cases hids : messageIds chunk = []
        · simp [hprojection, hids, receiveAll_append]
        · cases run.acknowledged <;> simp [hprojection, hids, receiveAll_append]

/-- Under which posts a message is pending after a turn. -/
theorem pending_flushChunk (h : Pending (flushChunk stream scoring m run chunk).pending postId id) :
    Pending m postId id ∨ Arrived stream (run.arrivals scoring chunk) postId id ∨
      Lists chunk postId id := by
  obtain ⟨-, ⟨-, -, hpending⟩ | ⟨-, hpending⟩⟩ := flushChunk_spec stream scoring m run chunk
  · rw [hpending, pending_receiveAll] at h
    exact h.imp_right .inl
  · rw [hpending, pending_requeueEntries, pending_receiveAll, or_assoc] at h
    exact h

/-- What is pending before a turn, or is delivered during it, is pending after it. -/
theorem pending_flushChunk_of (h : Pending m postId id ∨
    Arrived stream (run.arrivals scoring chunk) postId id) :
    Pending (flushChunk stream scoring m run chunk).pending postId id := by
  rw [← pending_receiveAll] at h
  obtain ⟨-, ⟨-, -, hpending⟩ | ⟨-, hpending⟩⟩ := flushChunk_spec stream scoring m run chunk
  · rwa [hpending]
  · rw [hpending, pending_requeueEntries]
    exact .inl h

end Chunk

section Loop

variable {FeedPost Score : Type*}

/-- The entries of a list of chunks. -/
def entriesOf (ts : List (ChunkRun FeedPost × List PendingEntry)) : List PendingEntry :=
  ts.flatMap (·.2)

/-- The chunks that have their turn: those up to the first whose projection throws. -/
def visited (scoring : Scoring FeedPost Score) :
    List (ChunkRun FeedPost × List PendingEntry) → List (ChunkRun FeedPost × List PendingEntry)
  | [] => []
  | (run, chunk) :: later =>
    (run, chunk) :: if run.throws scoring chunk then [] else visited scoring later

/-- The entries of the chunks after the first whose projection throws. -/
def unvisited (scoring : Scoring FeedPost Score) :
    List (ChunkRun FeedPost × List PendingEntry) → List PendingEntry
  | [] => []
  | (run, chunk) :: later =>
    if run.throws scoring chunk then entriesOf later else unvisited scoring later

/-- The messages that are delivered before the flush settles. -/
def arrivals (scoring : Scoring FeedPost Score)
    (ts : List (ChunkRun FeedPost × List PendingEntry)) : List Arrival :=
  (visited scoring ts).flatMap fun t => t.1.arrivals scoring t.2

variable {stream : String → MessageFields} {scoring : Scoring FeedPost Score}
  {m : OrderedMap String PendingDeltas} {ts : List (ChunkRun FeedPost × List PendingEntry)}
  {postId id : String}

/-- A turn, and the later ones unless its projection throws. -/
theorem flushChunks_cons (run : ChunkRun FeedPost) (chunk : List PendingEntry) :
    flushChunks stream scoring m ((run, chunk) :: ts) =
      if run.throws scoring chunk then flushChunk stream scoring m run chunk
      else
        ⟨(flushChunks stream scoring (flushChunk stream scoring m run chunk).pending ts).pending,
          (flushChunk stream scoring m run chunk).acked ++
            (flushChunks stream scoring (flushChunk stream scoring m run chunk).pending ts).acked,
          (flushChunks stream scoring
            (flushChunk stream scoring m run chunk).pending ts).threw⟩ := by
  rw [← (flushChunk_spec stream scoring m run chunk).1]
  rfl

variable (scoring ts) in
/-- The entries of a flush are visited or not. -/
private theorem visited_append_unvisited :
    entriesOf (visited scoring ts) ++ unvisited scoring ts = entriesOf ts := by
  induction ts with
  | nil => rfl
  | cons t later ih =>
    obtain ⟨run, chunk⟩ := t
    unfold visited unvisited
    unfold entriesOf at ih ⊢
    rw [List.flatMap_cons, List.flatMap_cons]
    split
    · simp
    · rw [List.append_assoc, ih]

/-- A message that is pending in the end was pending before, arrived, or stood in a chunk
that had its turn. -/
theorem pending_flushChunks (h : Pending (flushChunks stream scoring m ts).pending postId id) :
    Pending m postId id ∨ Arrived stream (arrivals scoring ts) postId id ∨
      Lists (entriesOf (visited scoring ts)) postId id := by
  induction ts generalizing m with
  | nil => exact .inl h
  | cons t later ih =>
    obtain ⟨run, chunk⟩ := t
    rw [flushChunks_cons] at h
    unfold arrivals visited entriesOf
    simp only [List.flatMap_cons]
    by_cases hthrows : run.throws scoring chunk = true
    · rw [if_pos hthrows] at h ⊢
      simpa using pending_flushChunk h
    · rw [if_neg hthrows] at h ⊢
      rw [Arrived.append_iff, Lists.append_iff]
      obtain h | h | h := ih h
      · obtain h | h | h := pending_flushChunk h
        · exact .inl h
        · exact .inr (.inl (.inl h))
        · exact .inr (.inr (.inl h))
      · exact .inr (.inl (.inr h))
      · exact .inr (.inr (.inr h))

/-- What was pending before or arrived is pending in the end. -/
theorem pending_flushChunks_of
    (h : Pending m postId id ∨ Arrived stream (arrivals scoring ts) postId id) :
    Pending (flushChunks stream scoring m ts).pending postId id := by
  induction ts generalizing m with
  | nil => exact h.elim (fun hp => hp) fun ⟨_, ha, _⟩ => absurd ha List.not_mem_nil
  | cons t later ih =>
    obtain ⟨run, chunk⟩ := t
    rw [flushChunks_cons]
    unfold arrivals visited at h
    rw [List.flatMap_cons, Arrived.append_iff, ← or_assoc] at h
    by_cases hthrows : run.throws scoring chunk = true
    · rw [if_pos hthrows] at h ⊢
      exact pending_flushChunk_of (h.resolve_right fun ⟨_, ha, _⟩ => absurd ha List.not_mem_nil)
    · rw [if_neg hthrows] at h ⊢
      exact ih (h.imp_left pending_flushChunk_of)

/-- Only messages of chunks that had their turn are acknowledged. -/
theorem acked_flushChunks (h : id ∈ (flushChunks stream scoring m ts).acked) :
    ∃ postId, Lists (entriesOf (visited scoring ts)) postId id := by
  induction ts generalizing m with
  | nil => exact absurd h List.not_mem_nil
  | cons t later ih =>
    obtain ⟨run, chunk⟩ := t
    have hchunk : id ∈ (flushChunk stream scoring m run chunk).acked →
        ∃ postId, Lists chunk postId id := fun hmem => by
      obtain ⟨-, ⟨hacked, -⟩ | ⟨hacked, -⟩⟩ := flushChunk_spec stream scoring m run chunk
      · rw [hacked] at hmem
        obtain ⟨e, he, hid⟩ := List.mem_flatMap.mp hmem
        exact ⟨e.1, e, he, rfl, hid⟩
      · rw [hacked] at hmem
        exact absurd hmem List.not_mem_nil
    rw [flushChunks_cons] at h
    unfold visited entriesOf
    simp only [List.flatMap_cons, Lists.append_iff]
    by_cases hthrows : run.throws scoring chunk = true
    · rw [if_pos hthrows] at h
      exact (hchunk h).imp fun _ => .inl
    · rw [if_neg hthrows] at h ⊢
      obtain h | h := List.mem_append.mp h
      · exact (hchunk h).imp fun _ => .inl
      · exact (ih h).imp fun _ => .inr

/-- A message of a chunk that had its turn is acknowledged or pending again. -/
theorem kept_flushChunks (h : Lists (entriesOf (visited scoring ts)) postId id) :
    id ∈ (flushChunks stream scoring m ts).acked ∨
      Pending (flushChunks stream scoring m ts).pending postId id := by
  induction ts generalizing m with
  | nil => exact absurd h.choose_spec.1 List.not_mem_nil
  | cons t later ih =>
    obtain ⟨run, chunk⟩ := t
    have hchunk : Lists chunk postId id → id ∈ (flushChunk stream scoring m run chunk).acked ∨
        Pending (flushChunk stream scoring m run chunk).pending postId id := fun hlists => by
      obtain ⟨-, ⟨hacked, -⟩ | ⟨-, hpending⟩⟩ := flushChunk_spec stream scoring m run chunk
      · obtain ⟨e, he, -, hid⟩ := hlists
        exact .inl (hacked ▸ List.mem_flatMap.mpr ⟨e, he, hid⟩)
      · exact .inr (hpending ▸ pending_requeueEntries.mpr (.inr hlists))
    unfold visited entriesOf at h
    rw [flushChunks_cons]
    simp only [List.flatMap_cons, Lists.append_iff] at h
    by_cases hthrows : run.throws scoring chunk = true
    · rw [if_pos hthrows] at h ⊢
      exact hchunk (h.resolve_right fun ⟨_, he, _⟩ => absurd he List.not_mem_nil)
    · rw [if_neg hthrows] at h ⊢
      obtain h | h := h
      · obtain h | h := hchunk h
        · exact .inl (List.mem_append_left _ h)
        · exact .inr (pending_flushChunks_of (.inl h))
      · exact (ih h).imp_left (List.mem_append_right _)

/-- No turn puts a message twice into an entry. -/
theorem Distinct.flushChunks (h : Distinct m.entries) (hts : Distinct (entriesOf ts)) :
    Distinct (flushChunks stream scoring m ts).pending.entries := by
  induction ts generalizing m with
  | nil => exact h
  | cons t later ih =>
    obtain ⟨run, chunk⟩ := t
    have hchunk : Distinct (flushChunk stream scoring m run chunk).pending.entries := by
      obtain ⟨-, ⟨-, -, hpending⟩ | ⟨-, hpending⟩⟩ := flushChunk_spec stream scoring m run chunk
      · exact hpending ▸ h.receiveAll _
      · exact hpending ▸ (h.receiveAll _).requeueEntries fun e he =>
          hts e (List.mem_append_left _ he)
    rw [flushChunks_cons]
    split
    · exact hchunk
    · exact ih hchunk fun e he => hts e (List.mem_append_right _ he)

end Loop

/-- The slices of a list in order are the list. -/
private theorem flatten_slices {α : Type*} (l : List α) (n count : ℕ) :
    ((List.range count).map fun k => (l.drop (k * n)).take n).flatten = l.take (count * n) := by
  induction count with
  | zero => simp
  | succ count ih =>
    rw [List.range_succ, List.map_append, List.flatten_append, ih, Nat.succ_mul, List.take_add]
    simp

/-- The chunks are the whole list. -/
theorem flatten_chunks {α : Type*} {chunkSize : ℕ} (h : 0 < chunkSize) (l : List α) :
    (chunks chunkSize l).flatten = l := by
  have hlength : l.length ≤ (l.length + chunkSize - 1) / chunkSize * chunkSize := by
    have hmod := Nat.mod_lt (l.length + chunkSize - 1) h
    have hdiv := Nat.div_add_mod' (l.length + chunkSize - 1) chunkSize
    omega
  unfold chunks
  rw [flatten_slices, List.take_of_length_le hlength]

section Retained

variable {FeedPost Score : Type*} {stream : String → MessageFields}
  {scoring : Scoring FeedPost Score} {chunkSize : ℕ} {runs : ℕ → ChunkRun FeedPost}
  {pending : OrderedMap String PendingDeltas}

variable (runs pending) in
/-- The turns of a flush take every pending entry. -/
private theorem entriesOf_turns (h : 0 < chunkSize) :
    entriesOf (turns chunkSize runs pending) = pending.entries := by
  have hmap : (turns chunkSize runs pending).map Prod.snd = chunks chunkSize pending.entries := by
    unfold turns
    rw [List.map_map]
    exact List.zipIdx_map_fst ..
  unfold entriesOf
  rw [List.flatMap_def, hmap, flatten_chunks h]

/-- An empty map has no turns. -/
theorem flushPending_eq :
    flushPending stream scoring chunkSize runs pending =
      flushChunks stream scoring ∅ (turns chunkSize runs pending) := by
  unfold flushPending
  split
  · next h =>
    have hempty : pending = ∅ := AList.ext h
    subst hempty
    have hcount : (0 + chunkSize - 1) / chunkSize = 0 := by
      cases chunkSize with
      | zero => rfl
      | succ n => exact Nat.div_eq_of_lt (by omega)
    unfold turns chunks
    change _ = flushChunks stream scoring ∅ (((List.range ((0 + chunkSize - 1) / chunkSize)).map
      fun k => ([].drop (k * chunkSize)).take chunkSize).zipIdx.map fun c => (runs c.2, c.1))
    rw [hcount]
    rfl
  · rfl

/-- No message is twice in an entry, and every message stands under the post it names. -/
structure Sound (stream : String → MessageFields) (pending : OrderedMap String PendingDeltas) :
    Prop where
  distinct : Distinct pending.entries
  named : ∀ postId id, Pending pending postId id → (stream id).named = some postId

private theorem sound_empty : Sound stream ∅ where
  distinct _ he := absurd he List.not_mem_nil
  named postId id h := by
    obtain ⟨d, hd, -⟩ := h
    simp at hd

/-- Receiving a message keeps the pending entries sound. -/
theorem Sound.receive (h : Sound stream pending) (a : Arrival) :
    Sound stream (receive stream pending a) where
  distinct := h.distinct.receive a
  named postId id hp := by
    obtain hp | ⟨b, -, -, hnamed, rfl⟩ := pending_receive.mp hp
    · exact h.named postId id hp
    · exact hnamed

/-- A flush keeps the pending entries sound. -/
private theorem Sound.flushPending (h : Sound stream pending) (hsize : 0 < chunkSize) :
    Sound stream (flushPending stream scoring chunkSize runs pending).pending where
  distinct := by
    rw [flushPending_eq]
    refine Distinct.flushChunks (fun _ he => absurd he List.not_mem_nil) ?_
    rw [entriesOf_turns runs pending hsize]
    exact h.distinct
  named postId id hp := by
    rw [flushPending_eq] at hp
    obtain hp | ⟨b, -, -, hnamed, rfl⟩ | hp := pending_flushChunks hp
    · exact sound_empty.named postId id hp
    · exact hnamed
    · refine h.named postId id (pending_iff_lists.mpr ?_)
      rw [← entriesOf_turns runs pending hsize, ← visited_append_unvisited scoring]
      exact Lists.append_iff.mpr (.inl hp)

/-- The pending maps of a worker, which receives messages and flushes. -/
inductive Reachable (stream : String → MessageFields) (scoring : Scoring FeedPost Score)
    (chunkSize : ℕ) : OrderedMap String PendingDeltas → Prop
  | empty : Reachable stream scoring chunkSize ∅
  | receive {pending : OrderedMap String PendingDeltas} (a : Arrival) :
      Reachable stream scoring chunkSize pending →
        Reachable stream scoring chunkSize (receive stream pending a)
  | flushPending {pending : OrderedMap String PendingDeltas} (runs : ℕ → ChunkRun FeedPost) :
      Reachable stream scoring chunkSize pending →
        Reachable stream scoring chunkSize
          (flushPending stream scoring chunkSize runs pending).pending

/-- Every reachable set of pending entries is sound. -/
theorem Reachable.sound (h : Reachable stream scoring chunkSize pending) (hsize : 0 < chunkSize) :
    Sound stream pending := by
  induction h with
  | empty => exact sound_empty
  | receive a _ ih => exact ih.receive a
  | flushPending runs _ ih => exact ih.flushPending hsize

/-- Receiving keeps pending entries reachable. -/
private theorem Reachable.receiveAll (h : Reachable stream scoring chunkSize pending)
    (as : List Arrival) :
    Reachable stream scoring chunkSize (receiveAll stream pending as) := by
  induction as generalizing pending with
  | nil => exact h
  | cons a as ih => exact ih (h.receive a)

/-- The messages that were pending are acknowledged or pending again under their posts, no
message is twice in an entry, and the messages that arrived are pending. -/
structure Retained (stream : String → MessageFields) (scoring : Scoring FeedPost Score)
    (chunkSize : ℕ) (runs : ℕ → ChunkRun FeedPost) (pending : OrderedMap String PendingDeltas) :
    Prop where
  kept : ∀ postId id, Pending pending postId id →
    id ∈ (flushPending stream scoring chunkSize runs pending).acked ∨
      Pending (flushPending stream scoring chunkSize runs pending).pending postId id
  distinct : Distinct (flushPending stream scoring chunkSize runs pending).pending.entries
  arrived : ∀ postId id,
    Arrived stream (arrivals scoring (turns chunkSize runs pending)) postId id →
      Pending (flushPending stream scoring chunkSize runs pending).pending postId id

/-- An entry that had its turn is not in a chunk that had none. -/
theorem notLists_visited (hsize : 0 < chunkSize) {postId id id' : String}
    (h : Lists (unvisited scoring (turns chunkSize runs pending)) postId id) :
    ¬Lists (entriesOf (visited scoring (turns chunkSize runs pending))) postId id' := by
  rintro ⟨e, he, hpost, -⟩
  obtain ⟨e', he', hpost', -⟩ := h
  have hkeys := pending.nodupKeys
  rw [← entriesOf_turns runs pending hsize, ← visited_append_unvisited scoring,
    List.NodupKeys, List.keys, List.map_append] at hkeys
  exact (List.nodup_append.mp hkeys).2.2 e.1 (List.mem_map_of_mem he) e'.1 (List.mem_map_of_mem he')
    (hpost.trans hpost'.symm)

/-- A flush keeps every message exactly if those of the chunks that a throw leaves without a
turn were delivered again. -/
theorem flushPending_retains (hsize : 0 < chunkSize) (hsound : Sound stream pending) :
    Retained stream scoring chunkSize runs pending ↔
      ∀ postId id, Lists (unvisited scoring (turns chunkSize runs pending)) postId id →
        Arrived stream (arrivals scoring (turns chunkSize runs pending)) postId id := by
  have hsplit : ∀ postId id, Pending pending postId id ↔
      Lists (entriesOf (visited scoring (turns chunkSize runs pending))) postId id ∨
        Lists (unvisited scoring (turns chunkSize runs pending)) postId id := fun postId id => by
    rw [← Lists.append_iff, visited_append_unvisited scoring, entriesOf_turns runs pending hsize,
      pending_iff_lists]
  constructor
  · intro h postId id hlists
    have hpending := (hsplit postId id).mpr (.inr hlists)
    have hkept := h.kept postId id hpending
    rw [flushPending_eq] at hkept
    obtain hacked | hkept := hkept
    · obtain ⟨postId', hvisited⟩ := acked_flushChunks hacked
      have hnamed := hsound.named postId' id ((hsplit postId' id).mpr (.inl hvisited))
      rw [hsound.named postId id hpending] at hnamed
      obtain rfl := Option.some.inj hnamed
      exact absurd hvisited (notLists_visited hsize hlists)
    · obtain hp | harrived | hvisited := pending_flushChunks hkept
      · obtain ⟨d, hd, -⟩ := hp
        simp at hd
      · exact harrived
      · exact absurd hvisited (notLists_visited hsize hlists)
  · intro h
    refine ⟨fun postId id hp => ?_, (hsound.flushPending hsize).distinct, fun postId id ha => ?_⟩
    · rw [flushPending_eq]
      obtain hvisited | hlists := (hsplit postId id).mp hp
      · exact kept_flushChunks hvisited
      · exact .inr (pending_flushChunks_of (.inr (h postId id hlists)))
    · rw [flushPending_eq]
      exact pending_flushChunks_of (.inr ha)

end Retained

/-- The messages of the examples name themselves. -/
def ownTopic : String → MessageFields := fun id => ⟨some id, none, none⟩

/-- A read that returns no array, during which messages are delivered. -/
def malformed (as : List Arrival) : ChunkRun (String × ℕ) :=
  ⟨as, some none, 0, [], true, [], true⟩

/-- Messages of two posts. -/
def twoPosts : OrderedMap String PendingDeltas :=
  receiveAll ownTopic ∅ [⟨0, false, "p"⟩, ⟨0, false, "q"⟩]

/-- The message of the chunk that has no turn is delivered again. -/
theorem flushPending_retains_redelivered :
    Retained ownTopic likesScoring 1 (fun _ => malformed [⟨1, false, "q"⟩]) twoPosts ∧
      (flushPending ownTopic likesScoring 1
        (fun _ => malformed [⟨1, false, "q"⟩]) twoPosts).threw :=
    by
  have hreachable : Reachable ownTopic likesScoring 1 twoPosts := Reachable.empty.receiveAll _
  refine ⟨(flushPending_retains Nat.one_pos (hreachable.sound Nat.one_pos)).mpr ?_, by decide⟩
  have hlater : unvisited likesScoring
      (turns 1 (fun _ => malformed [⟨1, false, "q"⟩]) twoPosts) = [⟨"q", ⟨0, ["q"]⟩⟩] := by decide
  rw [hlater]
  rintro postId id ⟨e, he, rfl, hid⟩
  obtain rfl := List.mem_singleton.mp he
  obtain rfl := List.mem_singleton.mp hid
  exact ⟨⟨1, false, "q"⟩, by decide, by decide, by decide, rfl⟩

/-- A name of a given length. -/
def nameOf (length : ℕ) : String := String.ofList (List.replicate length 'p')

/-- Messages of one post more than a chunk takes. -/
def crowd : OrderedMap String PendingDeltas :=
  receiveAll ownTopic ∅ ((List.range (CHUNK_SIZE + 1)).map fun i => ⟨0, false, nameOf (i + 1)⟩)

/-- The projection of the first chunk throws, and the message of the last post is lost. -/
theorem flushPending_loses : ∃ pending, Reachable ownTopic likesScoring CHUNK_SIZE pending ∧
    ¬Retained ownTopic likesScoring CHUNK_SIZE (fun _ => malformed []) pending := by
  refine ⟨crowd, Reachable.empty.receiveAll _, fun h => ?_⟩
  have hpending : crowd.get (nameOf (CHUNK_SIZE + 1)) = some ⟨0, [nameOf (CHUNK_SIZE + 1)]⟩ := by
    decide +kernel
  have hlost : (flushPending ownTopic likesScoring CHUNK_SIZE (fun _ => malformed []) crowd).acked =
      [] ∧ (flushPending ownTopic likesScoring CHUNK_SIZE (fun _ => malformed []) crowd).pending.get
        (nameOf (CHUNK_SIZE + 1)) = none := by decide +kernel
  obtain hacked | ⟨d, hd, -⟩ := h.kept _ _ ⟨_, hpending, List.mem_singleton.mpr rfl⟩
  · rw [hlost.1] at hacked
    exact absurd hacked List.not_mem_nil
  · rw [hlost.2] at hd
    cases hd

end Ascendance.TrendingWorker
