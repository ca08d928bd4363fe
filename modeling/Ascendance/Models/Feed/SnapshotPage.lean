import Ascendance.Models.Feed.Snapshot

/-!
# Pages of a snapshot

A page is read in batches of entries. The query of a batch returns the posts that
are still there and eligible, as many as the page still needs. The entries stand
with their positions in the snapshot.
-/

namespace Ascendance.Feed

/-- What a page shows of an entry: the post, with the score and the reason of the snapshot. -/
structure SnapshotPost where
  id : String
  score : Option Rat
  feedReason : Option String
  deriving DecidableEq, Repr

/-- A page of a snapshot. -/
structure SnapshotPage where
  data : List SnapshotPost
  hasMore : Bool
  nextOffset : ℕ
  deriving DecidableEq, Repr

/-- `buildSnapshotHydrationPipeline`: the eligible posts in the order of their identifiers. -/
def hydrate (eligible : String → Bool) (objectIds : List String) (limit : ℕ) : List String :=
  (objectIds.eraseDups.filter eligible).take limit

/-- The loop over a batch; it ends when the page has one post more than it shows. -/
def collectBatch (limit : ℕ) (posts : List String) :
    List (FeedCursorSnapshotEntry × ℕ) → List (FeedCursorSnapshotEntry × ℕ) →
      List (FeedCursorSnapshotEntry × ℕ)
  | [], collected => collected
  | entry :: batch, collected =>
    if entry.1.id ∈ posts then
      if (collected ++ [entry]).length > limit then collected ++ [entry]
      else collectBatch limit posts batch (collected ++ [entry])
    else collectBatch limit posts batch collected

/-- `batchSize`. -/
def batchSize (limit : ℕ) : ℕ := max (limit * 2) 50

private theorem batchSize_pos (limit : ℕ) : 0 < batchSize limit := by
  unfold batchSize
  omega

/-- The loop over the batches of the entries that are left. -/
def collectBatches (eligible : String → Bool) (limit : ℕ)
    (entries collected : List (FeedCursorSnapshotEntry × ℕ)) : List (FeedCursorSnapshotEntry × ℕ) :=
  if collected.length ≤ limit ∧ entries ≠ [] then
    let batch := entries.take (batchSize limit)
    let posts := hydrate eligible (batch.map (·.1.id)) (limit + 1 - collected.length)
    collectBatches eligible limit (entries.drop (batchSize limit))
      (collectBatch limit posts batch collected)
  else collected
termination_by entries.length
decreasing_by
  have hne : 0 < entries.length := List.length_pos_of_ne_nil (by tauto)
  have hsize := batchSize_pos limit
  rw [List.length_drop]
  omega

/-- What is shown of an entry. -/
def showEntry (entry : FeedCursorSnapshotEntry) : SnapshotPost where
  id := entry.id
  score := entry.score
  feedReason := entry.reason.filter (· ≠ "")

/-- Read a page from an offset on, past the posts that are not eligible. -/
def readScoreSnapshotPage (eligible : String → Bool) (snapshot : FeedCursorSnapshot)
    (offset limit : ℕ) : SnapshotPage :=
  let collected := collectBatches eligible limit (snapshot.entries.zipIdx.drop offset) []
  let visible := collected.take limit
  { data := visible.map fun entry => showEntry entry.1
    hasMore := collected.length > limit
    nextOffset := (visible.getLast?.map fun entry => entry.2 + 1).getD snapshot.entries.length }

section Reading

variable {eligible : String → Bool} {limit : ℕ}
  {entries batch collected : List (FeedCursorSnapshotEntry × ℕ)}

private theorem eraseDups_of_nodup {l : List String} (h : l.Nodup) : l.eraseDups = l := by
  induction l with
  | nil => rfl
  | cons a l ih =>
    obtain ⟨hmem, hl⟩ := List.nodup_cons.mp h
    have hfilter : l.filter (fun b => !b == a) = l := by
      rw [List.filter_eq_self]
      intro b hb
      have hne : b ≠ a := fun heq => hmem (heq ▸ hb)
      simpa using hne
    rw [List.eraseDups_cons, hfilter, ih hl]

/-- A batch whose query returned the eligible posts that the page needs. -/
theorem collectBatch_eq {posts : List String} (hlen : collected.length ≤ limit)
    (honly : ∀ entry ∈ batch, entry.1.id ∈ posts → eligible entry.1.id = true)
    (hall : ∀ entry ∈ (batch.filter fun entry => eligible entry.1.id).take
      (limit + 1 - collected.length), entry.1.id ∈ posts) :
    collectBatch limit posts batch collected = collected ++
      (batch.filter fun entry => eligible entry.1.id).take (limit + 1 - collected.length) := by
  induction batch generalizing collected with
  | nil => simp [collectBatch]
  | cons entry batch ih =>
    have honly' : ∀ e ∈ batch, e.1.id ∈ posts → eligible e.1.id = true :=
      fun e he => honly e (List.mem_cons_of_mem _ he)
    by_cases he : eligible entry.1.id = true
    · have hneed : limit + 1 - collected.length = (limit - collected.length) + 1 := by omega
      have hfilter : (entry :: batch).filter (fun entry => eligible entry.1.id) =
          entry :: batch.filter fun entry => eligible entry.1.id := List.filter_cons_of_pos he
      rw [hfilter, hneed, List.take_succ_cons] at hall ⊢
      have hmem : entry.1.id ∈ posts := hall entry (List.mem_cons_self ..)
      rw [collectBatch, if_pos hmem]
      by_cases hfull : (collected ++ [entry]).length > limit
      · have hzero : limit - collected.length = 0 := by
          rw [List.length_append, List.length_singleton] at hfull
          omega
        rw [if_pos hfull, hzero, List.take_zero]
      · rw [List.length_append, List.length_singleton] at hfull
        have hrest : limit + 1 - (collected ++ [entry]).length = limit - collected.length := by
          rw [List.length_append, List.length_singleton]
          omega
        rw [List.length_append, List.length_singleton, if_neg hfull, ih ?_ honly' ?_, hrest]
        · simp
        · rw [List.length_append, List.length_singleton]
          omega
        · rw [hrest]
          exact fun e he => hall e (List.mem_cons_of_mem _ he)
    · have hmem : entry.1.id ∉ posts := fun hm => he (honly entry (List.mem_cons_self ..) hm)
      have hfilter : (entry :: batch).filter (fun entry => eligible entry.1.id) =
          batch.filter fun entry => eligible entry.1.id := List.filter_cons_of_neg he
      rw [hfilter] at hall ⊢
      rw [collectBatch, if_neg hmem]
      exact ih hlen honly' hall

/-- What the query of a batch returns. -/
theorem collectBatch_hydrate (hlen : collected.length ≤ limit)
    (hnodup : (batch.map (·.1.id)).Nodup) :
    collectBatch limit (hydrate eligible (batch.map (·.1.id)) (limit + 1 - collected.length)) batch
        collected = collected ++
      (batch.filter fun entry => eligible entry.1.id).take (limit + 1 - collected.length) := by
  have hquery : hydrate eligible (batch.map (·.1.id)) (limit + 1 - collected.length) =
      ((batch.filter fun entry => eligible entry.1.id).take (limit + 1 - collected.length)).map
        (·.1.id) := by
    unfold hydrate
    rw [eraseDups_of_nodup hnodup, List.filter_map, ← List.map_take]
    rfl
  apply collectBatch_eq hlen
  · intro entry _ hmem
    rw [hquery] at hmem
    obtain ⟨other, hother, hid⟩ := List.mem_map.mp hmem
    have hel := (List.mem_filter.mp (List.mem_of_mem_take hother)).2
    rwa [← hid]
  · intro entry hentry
    rw [hquery]
    exact List.mem_map_of_mem hentry

/-- The batches together collect the first eligible entries, one more than the page shows. -/
theorem collectBatches_eq (hlen : collected.length ≤ limit + 1)
    (hnodup : (entries.map (·.1.id)).Nodup) :
    collectBatches eligible limit entries collected = collected ++
      (entries.filter fun entry => eligible entry.1.id).take (limit + 1 - collected.length) := by
  induction hn : entries.length using Nat.strongRecOn generalizing entries collected with
  | _ n ih =>
    rw [collectBatches]
    split
    next hgo =>
      obtain ⟨hle, hne⟩ := hgo
      have hsplit := List.take_append_drop (batchSize limit) entries
      have hbatch : ((entries.take (batchSize limit)).map (·.1.id)).Nodup :=
        hnodup.sublist ((List.take_sublist _ _).map _)
      have hrest : ((entries.drop (batchSize limit)).map (·.1.id)).Nodup :=
        hnodup.sublist ((List.drop_sublist _ _).map _)
      dsimp only
      rw [collectBatch_hydrate hle hbatch]
      have hpos : 0 < entries.length := List.length_pos_of_ne_nil hne
      have hsize := batchSize_pos limit
      rw [ih _ (by rw [List.length_drop]; omega) ?_ hrest rfl]
      · conv_rhs => rw [← hsplit, List.filter_append, List.take_append]
        rw [List.append_assoc]
        congr 3
        rw [List.length_append, List.length_take]
        omega
      · rw [List.length_append, List.length_take]
        omega
    next hstop =>
      by_cases hnil : entries = []
      · subst hnil
        simp
      · have hfull : ¬ collected.length ≤ limit := fun hle => hstop ⟨hle, hnil⟩
        have hzero : limit + 1 - collected.length = 0 := by omega
        rw [hzero, List.take_zero, List.append_nil]

end Reading

end Ascendance.Feed
