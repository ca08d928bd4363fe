import Ascendance.Models.Feed.SnapshotPage

/-!
# Walks over a snapshot

A walk follows the offsets of the pages. Between two pages posts may become
ineligible, and a post that has become ineligible stays so.
-/

namespace Ascendance.Feed

/-- The pages from an offset, the first one read at a time, until one has no more. -/
inductive Walk (read : ℕ → ℕ → SnapshotPage) : ℕ → ℕ → List SnapshotPage → Prop
  | last {k offset : ℕ} (h : (read k offset).hasMore = false) :
      Walk read k offset [read k offset]
  | more {k offset : ℕ} {pages : List SnapshotPage} (h : (read k offset).hasMore = true)
      (hw : Walk read (k + 1) (read k offset).nextOffset pages) :
      Walk read k offset (read k offset :: pages)

section Pages

variable {eligible : String → Bool} {snapshot : FeedCursorSnapshot} {offset limit : ℕ}

/-- The eligible entries from an offset, with their positions. -/
def remaining (eligible : String → Bool) (snapshot : FeedCursorSnapshot) (offset : ℕ) :
    List (FeedCursorSnapshotEntry × ℕ) :=
  (snapshot.entries.zipIdx.drop offset).filter fun entry => eligible entry.1.id

private theorem zipIdx_drop_map_id (snapshot : FeedCursorSnapshot) (offset : ℕ) :
    (snapshot.entries.zipIdx.drop offset).map (·.1.id) =
      (snapshot.entries.drop offset).map (·.id) := by
  have hids :=
    congrArg (List.map FeedCursorSnapshotEntry.id) (List.zipIdx_map_fst 0 snapshot.entries)
  rw [List.map_map] at hids
  rw [List.map_drop, List.map_drop]
  exact congrArg (List.drop offset) hids

/-- A page shows the first eligible entries and knows whether there are others. -/
theorem readScoreSnapshotPage_eq (hnodup : (snapshot.entries.map (·.id)).Nodup) :
    readScoreSnapshotPage eligible snapshot offset limit =
      { data := ((remaining eligible snapshot offset).take limit).map fun entry => showEntry entry.1
        hasMore := decide ((remaining eligible snapshot offset).length > limit)
        nextOffset := (((remaining eligible snapshot offset).take limit).getLast?.map
          fun entry => entry.2 + 1).getD snapshot.entries.length } := by
  have hids : ((snapshot.entries.zipIdx.drop offset).map (·.1.id)).Nodup := by
    rw [zipIdx_drop_map_id, List.map_drop]
    exact hnodup.sublist (List.drop_sublist _ _)
  have hcollected : collectBatches eligible limit (snapshot.entries.zipIdx.drop offset) [] =
      (remaining eligible snapshot offset).take (limit + 1) := by
    rw [collectBatches_eq (Nat.zero_le _) hids]
    rfl
  have htake : ((remaining eligible snapshot offset).take (limit + 1)).take limit =
      (remaining eligible snapshot offset).take limit := by
    rw [List.take_take, Nat.min_eq_left (Nat.le_succ limit)]
  have hmore : decide (((remaining eligible snapshot offset).take (limit + 1)).length > limit) =
      decide ((remaining eligible snapshot offset).length > limit) := by
    rw [List.length_take]
    congr 1
    rw [eq_iff_iff]
    omega
  unfold readScoreSnapshotPage
  simp only [hcollected, htake, hmore]

/-- An eligible entry cuts the entries in two, and the eligible ones with them. -/
theorem remaining_split {init more : List (FeedCursorSnapshotEntry × ℕ)}
    {last : FeedCursorSnapshotEntry × ℕ}
    (h : remaining eligible snapshot offset = init ++ last :: more) :
    ∃ passed,
      snapshot.entries.drop offset = passed ++ last.1 :: snapshot.entries.drop (last.2 + 1) ∧
      last.2 = offset + passed.length ∧ eligible last.1.id = true ∧
      (passed.filter fun entry => eligible entry.id) = init.map (·.1) ∧
      ((snapshot.entries.drop (last.2 + 1)).filter fun entry => eligible entry.id) =
        more.map (·.1) := by
  obtain ⟨l₁, l₂, hl, hl₁, hl₂⟩ := List.filter_eq_append_iff.mp h
  obtain ⟨m₁, m₂, rfl, hm₁, hlast, hm₂⟩ := List.filter_eq_cons_iff.mp hl₂
  have hall : snapshot.entries.zipIdx.drop offset = (l₁ ++ m₁) ++ last :: m₂ := by
    rw [hl, List.append_assoc]
  have hindex : last.2 = offset + (l₁ ++ m₁).length := by
    have hget : (snapshot.entries.zipIdx.drop offset)[(l₁ ++ m₁).length]? = some last := by
      rw [hall, List.getElem?_append_right (Nat.le_refl _), Nat.sub_self]
      rfl
    rw [List.getElem?_drop, List.getElem?_zipIdx, Option.map_eq_some_iff] at hget
    obtain ⟨entry, -, rfl⟩ := hget
    exact Nat.zero_add _
  have hfst : ∀ n, (snapshot.entries.zipIdx.drop n).map (·.1) = snapshot.entries.drop n := by
    intro n
    rw [List.map_drop]
    exact congrArg (List.drop n) (List.zipIdx_map_fst 0 snapshot.entries)
  have hafter : m₂ = snapshot.entries.zipIdx.drop (last.2 + 1) := by
    have hcut : (l₁ ++ m₁ ++ last :: m₂).drop ((l₁ ++ m₁).length + 1) = m₂ := by
      rw [List.append_cons]
      exact List.drop_left' (by rw [List.length_append, List.length_singleton])
    rw [hindex, Nat.add_assoc, ← List.drop_drop, hall, hcut]
  have hmap : ∀ l : List (FeedCursorSnapshotEntry × ℕ),
      ((l.map (·.1)).filter fun entry => eligible entry.id) =
        (l.filter fun entry => eligible entry.1.id).map (·.1) := fun l => List.filter_map
  refine ⟨(l₁ ++ m₁).map (·.1), ?_, ?_, hlast, ?_, ?_⟩
  · rw [← hfst offset, hall, List.map_append, List.map_cons, hafter, hfst]
  · rw [hindex, List.length_map]
  · have hnil : m₁.filter (fun entry => eligible entry.1.id) = [] :=
      List.filter_eq_nil_iff.mpr fun e he => hm₁ e he
    rw [hmap, List.filter_append, hl₁, hnil, List.append_nil]
  · rw [← hfst, hmap, ← hafter, hm₂]

/-- A page finds nothing, or it ends right after an entry that it shows. -/
theorem readScoreSnapshotPage_cases (hnodup : (snapshot.entries.map (·.id)).Nodup)
    (hlimit : 1 ≤ limit) {p : SnapshotPage}
    (hp : readScoreSnapshotPage eligible snapshot offset limit = p) :
    (p.data = [] ∧ p.hasMore = false ∧ p.nextOffset = snapshot.entries.length ∧
      ∀ entry ∈ snapshot.entries.drop offset, eligible entry.id = false) ∨
    (∃ passed, snapshot.entries.drop offset = passed ++ snapshot.entries.drop p.nextOffset ∧
      passed ≠ [] ∧ p.nextOffset = offset + passed.length ∧
      p.data = (passed.filter fun entry => eligible entry.id).map showEntry ∧
      (p.hasMore = true ↔ ∃ entry ∈ snapshot.entries.drop p.nextOffset,
        eligible entry.id = true)) := by
  rw [readScoreSnapshotPage_eq hnodup] at hp
  by_cases hnil : remaining eligible snapshot offset = []
  · left
    rw [hnil] at hp
    subst hp
    refine ⟨by simp, by simp, by simp, ?_⟩
    intro entry hentry
    obtain ⟨n, hn⟩ := List.getElem?_of_mem hentry
    have hpos : (entry, offset + n) ∈ snapshot.entries.zipIdx.drop offset := by
      apply List.mem_of_getElem? (i := n)
      rw [List.getElem?_drop] at hn
      rw [List.getElem?_drop, List.getElem?_zipIdx, hn, Nat.zero_add]
      rfl
    have hnot := List.filter_eq_nil_iff.mp hnil _ hpos
    simpa using hnot
  · right
    have hne : (remaining eligible snapshot offset).take limit ≠ [] := by
      rw [Ne, List.take_eq_nil_iff, not_or]
      exact ⟨by omega, hnil⟩
    have htake := (List.dropLast_append_getLast hne).symm
    set init := ((remaining eligible snapshot offset).take limit).dropLast
    set last := ((remaining eligible snapshot offset).take limit).getLast hne
    have hrest : remaining eligible snapshot offset =
        init ++ last :: (remaining eligible snapshot offset).drop limit := by
      have happ := List.take_append_drop limit (remaining eligible snapshot offset)
      rw [htake, List.append_assoc] at happ
      exact happ.symm
    obtain ⟨passed, hdrop, hindex, hlast, hinit, hmore⟩ := remaining_split hrest
    subst hp
    rw [htake]
    simp only [List.getLast?_append, List.getLast?_singleton, Option.some_or, Option.map_some,
      Option.getD_some]
    rw [List.append_cons] at hdrop
    refine ⟨passed ++ [last.1], hdrop, by simp, ?_, ?_, ?_⟩
    · rw [List.length_append, List.length_singleton]
      omega
    · rw [List.filter_append, hinit, List.filter_singleton, hlast]
      simp [List.map_append, List.map_map, Function.comp_def]
    · have hlen : limit < (remaining eligible snapshot offset).length ↔
          (remaining eligible snapshot offset).drop limit ≠ [] := by
        rw [Ne, List.drop_eq_nil_iff]
        omega
      have hleft : (∃ entry ∈ snapshot.entries.drop (last.2 + 1), eligible entry.id = true) ↔
          ((snapshot.entries.drop (last.2 + 1)).filter fun entry => eligible entry.id) ≠ [] := by
        simp [List.filter_eq_nil_iff]
      rw [decide_eq_true_iff, gt_iff_lt, hlen, hleft, hmore, Ne, Ne, List.map_eq_nil_iff]

/-- A page has more exactly when some entry after its last one is eligible. -/
theorem hasMore_iff (hnodup : (snapshot.entries.map (·.id)).Nodup) (hlimit : 1 ≤ limit)
    (offset : ℕ) :
    (readScoreSnapshotPage eligible snapshot offset limit).hasMore = true ↔
      ∃ entry ∈ snapshot.entries.drop
        (readScoreSnapshotPage eligible snapshot offset limit).nextOffset,
        eligible entry.id = true := by
  rcases readScoreSnapshotPage_cases hnodup hlimit rfl with ⟨-, hmore, hnext, -⟩ |
    ⟨passed, -, -, -, -, hmore⟩
  · rw [hmore, hnext, List.drop_length]
    simp
  · exact hmore

end Pages

section Walks

variable {eligible : ℕ → String → Bool} {snapshot : FeedCursorSnapshot} {limit : ℕ}

/-- The page that a walk reads at a time. -/
abbrev readAt (eligible : ℕ → String → Bool) (snapshot : FeedCursorSnapshot) (limit : ℕ) :
    ℕ → ℕ → SnapshotPage :=
  fun k offset => readScoreSnapshotPage (eligible k) snapshot offset limit

/-- Every walk ends, since a page with more moves the offset on. -/
theorem walk_exists (hnodup : (snapshot.entries.map (·.id)).Nodup) (hlimit : 1 ≤ limit)
    (k offset : ℕ) : ∃ pages, Walk (readAt eligible snapshot limit) k offset pages := by
  induction hn : snapshot.entries.length - offset using Nat.strongRecOn generalizing k offset with
  | _ n ih =>
    cases hmore : (readAt eligible snapshot limit k offset).hasMore with
    | false => exact ⟨_, .last hmore⟩
    | true =>
      rcases readScoreSnapshotPage_cases hnodup hlimit
        (p := readAt eligible snapshot limit k offset)
        rfl with ⟨-, hno, -⟩ | ⟨passed, hdrop, hne, hnext, -⟩
      · rw [hmore] at hno
        cases hno
      · have hpos := List.length_pos_of_ne_nil hne
        have hlen := congrArg List.length hdrop
        rw [List.length_drop, List.length_append] at hlen
        obtain ⟨pages, hpages⟩ := ih _ (by omega) (k + 1)
          (readAt eligible snapshot limit k offset).nextOffset rfl
        exact ⟨_, .more hmore hpages⟩

/-- A walk shows entries in their order, and every one that stays eligible. -/
theorem walk_shows (hnodup : (snapshot.entries.map (·.id)).Nodup) (hlimit : 1 ≤ limit)
    {k offset : ℕ} {pages : List SnapshotPage}
    (hw : Walk (readAt eligible snapshot limit) k offset pages) :
    List.Sublist (pages.flatMap (·.data)) ((snapshot.entries.drop offset).map showEntry) ∧
      ∀ entry ∈ snapshot.entries.drop offset,
        (∀ j < pages.length, eligible (k + j) entry.id = true) →
          showEntry entry ∈ pages.flatMap (·.data) := by
  induction hw with
  | @last k offset hmore =>
    rw [List.flatMap_singleton]
    rcases readScoreSnapshotPage_cases hnodup hlimit (p := readAt eligible snapshot limit k offset)
      rfl with ⟨hdata, -, -, hnone⟩ | ⟨passed, hdrop, -, -, hdata, hiff⟩
    · rw [hdata]
      refine ⟨List.nil_sublist _, ?_⟩
      intro entry hentry hel
      have hnow := hel 0 (by simp)
      rw [Nat.add_zero, hnone entry hentry] at hnow
      cases hnow
    · rw [hdata, hdrop]
      constructor
      · exact ((List.filter_sublist).trans (List.sublist_append_left _ _)).map _
      · intro entry hentry hel
        have hnow : eligible k entry.id = true := hel 0 (by simp)
        rcases List.mem_append.mp hentry with hin | hout
        · exact List.mem_map_of_mem (List.mem_filter.mpr ⟨hin, hnow⟩)
        · rw [hiff.mpr ⟨entry, hout, hnow⟩] at hmore
          cases hmore
  | @more k offset pages hmore hw ih =>
    rw [List.flatMap_cons]
    rcases readScoreSnapshotPage_cases hnodup hlimit (p := readAt eligible snapshot limit k offset)
      rfl with ⟨-, hno, -⟩ | ⟨passed, hdrop, -, -, hdata, -⟩
    · rw [hmore] at hno
      cases hno
    · obtain ⟨hsub, hall⟩ := ih
      rw [hdata, hdrop]
      constructor
      · rw [List.map_append]
        exact (List.filter_sublist.map _).append hsub
      · intro entry hentry hel
        rcases List.mem_append.mp hentry with hin | hout
        · have hnow : eligible k entry.id = true := hel 0 (by simp)
          exact List.mem_append_left _ (List.mem_map_of_mem (List.mem_filter.mpr ⟨hin, hnow⟩))
        · apply List.mem_append_right
          apply hall entry hout
          intro j hj
          rw [Nat.add_assoc, Nat.add_comm 1 j]
          exact hel (j + 1) (by rw [List.length_cons]; omega)

/-- From the first offset on, pages show every entry at most once, in the order of
the snapshot, and every entry that is eligible to the end; the pages come to an
end, and each of them has more exactly when an entry after its last one is eligible. -/
theorem snapshotWalk (hnodup : (snapshot.entries.map (·.id)).Nodup) (hlimit : 1 ≤ limit)
    (hnever : ∀ k id, eligible (k + 1) id = true → eligible k id = true) :
    (∃ pages, Walk (readAt eligible snapshot limit) 0 0 pages) ∧
    (∀ pages, Walk (readAt eligible snapshot limit) 0 0 pages →
      ((pages.flatMap (·.data)).map (·.id)).Nodup ∧
      List.Sublist (pages.flatMap (·.data)) (snapshot.entries.map showEntry) ∧
      ∀ entry ∈ snapshot.entries, eligible (pages.length - 1) entry.id = true →
        showEntry entry ∈ pages.flatMap (·.data)) ∧
    (∀ k offset, (readAt eligible snapshot limit k offset).hasMore = true ↔
      ∃ entry ∈ snapshot.entries.drop (readAt eligible snapshot limit k offset).nextOffset,
        eligible k entry.id = true) := by
  refine ⟨walk_exists hnodup hlimit 0 0, ?_, fun k offset => hasMore_iff hnodup hlimit offset⟩
  intro pages hw
  obtain ⟨hsub, hall⟩ := walk_shows hnodup hlimit hw
  rw [List.drop_zero] at hsub hall
  refine ⟨?_, hsub, ?_⟩
  · have hids := hsub.map (·.id)
    rw [List.map_map] at hids
    exact hnodup.sublist hids
  · intro entry hentry hlast
    apply hall entry hentry
    intro j hj
    -- What is eligible at the last page was eligible at all pages before.
    have hdown : ∀ d, ∀ k, eligible (k + d) entry.id = true → eligible k entry.id = true := by
      intro d
      induction d with
      | zero => exact fun k h => h
      | succ d ih => exact fun k h => ih k (hnever _ _ h)
    apply hdown (pages.length - 1 - j)
    rwa [Nat.zero_add, Nat.add_sub_cancel' (by omega)]

end Walks

/-- A snapshot of three posts. -/
def threePosts : FeedCursorSnapshot where
  feed := .trending
  order := .trending
  source := .mongo
  scope := none
  entries := [⟨"a", "pa", "a", some 3, none⟩, ⟨"b", "pb", "b", some 2, none⟩,
    ⟨"c", "pc", "c", some 1, none⟩]
  excludedIdentityIds := none

/-- The second post becomes inactive after the first page. -/
def secondLeaves (k : ℕ) (id : String) : Bool := id ≠ "b" || k == 0

/-- A walk through three posts, one of which ceases to be eligible. -/
theorem snapshotWalk_threePosts :
    ∃ pages, Walk (readAt secondLeaves threePosts 1) 0 0 pages ∧
      ((pages.flatMap (·.data)).map (·.id)).Nodup ∧
      ⟨"c", some 1, none⟩ ∈ pages.flatMap (·.data) := by
  have hnever : ∀ k id, secondLeaves (k + 1) id = true → secondLeaves k id = true := by
    intro k id h
    simp only [secondLeaves, Bool.or_eq_true] at h ⊢
    exact h.imp_right fun h => by simp at h
  obtain ⟨⟨pages, hw⟩, hall, -⟩ :=
    @snapshotWalk secondLeaves threePosts 1 (by decide) (Nat.le_refl 1) hnever
  obtain ⟨hnodup, -, hshown⟩ := hall pages hw
  exact ⟨pages, hw, hnodup, hshown ⟨"c", "pc", "c", some 1, none⟩ (by decide) rfl⟩

end Ascendance.Feed
