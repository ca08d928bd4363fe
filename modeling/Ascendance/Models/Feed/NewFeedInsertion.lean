import Ascendance.Models.Feed.NewFeedPaging

/-!
# Insertions between the pages of the new feed

New posts are newer than everything stored, so none of them gets below a cursor. A
new post that shows what an older one shows takes its place, and when the older one
stands below the cursor of a walk, the walk shows neither.
-/

namespace Ascendance.Feed

open Ascendance.Core

/-- Between two times new posts are inserted, newer than everything stored. -/
structure Insertions (stores : ℕ → Posts) (news : ℕ → List Post) : Prop where
  all_eq : ∀ k, (stores (k + 1)).all = (stores k).all ++ news k
  newer : ∀ k, ∀ p ∈ news k, ∀ q ∈ (stores k).all, q.key < p.key

/-- No active post of the inserted ones shows what a post shows. -/
def staysNewest (inserted : List Post) (p : Post) : Bool :=
  inserted.all fun q => !(q.isActive && q.visibleIdentityId == p.visibleIdentityId)

/-- A post stays the newest of its identity when none of the inserted posts shares it. -/
theorem staysNewest_iff {inserted : List Post} {p : Post} : staysNewest inserted p = true ↔
    ∀ q ∈ inserted, q.isActive = true → q.visibleIdentityId ≠ p.visibleIdentityId := by
  unfold staysNewest
  rw [List.all_eq_true]
  apply forall₂_congr
  intro q _
  cases q.isActive <;> simp

/-- No inserted post shows what a post of the feed below a cursor shows. -/
def Undisturbed (store : List Post) (excluded : List ℕ) (cursor : NewCursor)
    (inserted : List Post) : Prop :=
  ∀ q ∈ inserted, q.isActive = true → ∀ p ∈ newFeed store excluded,
    createdAtCursorFilter cursor.anchor .forward p = true →
      q.visibleIdentityId ≠ p.visibleIdentityId

section Insertion

variable {stores : ℕ → Posts} {news : ℕ → List Post} {excluded : List ℕ}

/-- A post that was stored stands in the next feed if no inserted one takes its place. -/
theorem Insertions.mem_next (h : Insertions stores news) {k : ℕ} {p : Post}
    (hp : p ∈ (stores k).all) : p ∈ newFeed (stores (k + 1)).all excluded ↔
      p ∈ newFeed (stores k).all excluded ∧ staysNewest (news k) p = true := by
  rw [mem_newFeed, mem_newFeed, h.all_eq k, staysNewest_iff]
  constructor
  · rintro ⟨-, hactive, hseen, hmax⟩
    refine ⟨⟨hp, hactive, hseen, fun q hq => hmax q (List.mem_append_left _ hq)⟩, ?_⟩
    intro q hq hqa hsame
    exact absurd (hmax q (List.mem_append_right _ hq) hqa hsame) (not_le.mpr (h.newer k q hq p hp))
  · rintro ⟨⟨-, hactive, hseen, hmax⟩, hstays⟩
    refine ⟨List.mem_append_left _ hp, hactive, hseen, ?_⟩
    intro q hq hqa hsame
    rcases List.mem_append.mp hq with hq | hq
    · exact hmax q hq hqa hsame
    · exact absurd hsame (hstays q hq hqa)

/-- A stored post stays stored. -/
theorem Insertions.mem_later (h : Insertions stores news) {m k : ℕ} (hle : m ≤ k) {p : Post}
    (hp : p ∈ (stores m).all) : p ∈ (stores k).all := by
  induction k, hle using Nat.le_induction with
  | base => exact hp
  | succ k _ ih =>
    rw [h.all_eq k]
    exact List.mem_append_left _ ih

/-- What is not newer than a stored post was stored before. -/
theorem Insertions.mem_earlier (h : Insertions stores news) {m k : ℕ} (hle : m ≤ k) {p q : Post}
    (hp : p ∈ (stores k).all) (hq : q ∈ (stores m).all) (hkey : p.key ≤ q.key) :
    p ∈ (stores m).all := by
  induction k, hle using Nat.le_induction with
  | base => exact hp
  | succ k hle ih =>
    rw [h.all_eq k] at hp
    refine ih ((List.mem_append.mp hp).resolve_right fun hnews => ?_)
    exact absurd (h.newer k p hnews q (h.mem_later hle hq)) (not_lt.mpr hkey)

/-- A stored post stands in a later feed if it stood in the feed and nothing inserted since took
its place. -/
theorem Insertions.mem_feed (h : Insertions stores news) {m k : ℕ} (hle : m ≤ k) {p : Post}
    (hp : p ∈ (stores m).all) : p ∈ newFeed (stores k).all excluded ↔
      p ∈ newFeed (stores m).all excluded ∧
        ∀ t, m ≤ t → t < k → staysNewest (news t) p = true := by
  induction k, hle using Nat.le_induction with
  | base => exact ⟨fun hfeed => ⟨hfeed, fun t ht hlt => absurd hlt (not_lt.mpr ht)⟩, And.left⟩
  | succ k hle ih =>
    rw [h.mem_next (h.mem_later hle hp), ih]
    constructor
    · rintro ⟨⟨hfeed, hbefore⟩, hnow⟩
      refine ⟨hfeed, fun t ht hlt => ?_⟩
      rcases Nat.lt_succ_iff_lt_or_eq.mp hlt with hlt | rfl
      · exact hbefore t ht hlt
      · exact hnow
    · rintro ⟨hfeed, hall⟩
      exact ⟨⟨hfeed, fun t ht hlt => hall t ht (Nat.lt_succ_of_lt hlt)⟩, hall k hle k.lt_succ_self⟩

/-- Below a row of the feed, insertions only take rows away. -/
theorem Insertions.keeps (h : Insertions stores news) (excluded : List ℕ) :
    Keyset.Keeps Post.key (fun k => newFeed (stores k).all excluded)
      fun k => staysNewest (news k) := by
  intro k a ha
  have hold := descending_newFeed (stores k).nodup_ids excluded
  have hnew := descending_newFeed (stores (k + 1)).nodup_ids excluded
  obtain ⟨hastore, -⟩ := mem_newFeed.mp ha
  apply (hnew.filter _).eq ((hold.filter _).filter _)
  intro p
  rw [List.mem_filter, List.mem_filter, List.mem_filter, decide_eq_true_iff]
  constructor
  · rintro ⟨hp, hlt⟩
    -- An inserted post is newer than the row.
    have hstored : p ∈ (stores k).all := by
      obtain ⟨hmem, -⟩ := mem_newFeed.mp hp
      rw [h.all_eq k] at hmem
      refine (List.mem_append.mp hmem).resolve_right fun hnews => ?_
      exact lt_asymm hlt (h.newer k p hnews a hastore)
    obtain ⟨hfeed, hstays⟩ := (h.mem_next hstored).mp hp
    exact ⟨⟨hfeed, hlt⟩, hstays⟩
  · rintro ⟨⟨hfeed, hlt⟩, hstays⟩
    exact ⟨(h.mem_next (mem_newFeed.mp hfeed).1).mpr ⟨hfeed, hstays⟩, hlt⟩

/-- Posts out of one feed show every group once exactly when they are the whole feed. -/
theorem shown_once_iff {store : Posts} {shown : List Post}
    (hsub : shown.Sublist (newFeed store.all excluded)) :
    (∀ p ∈ store.all, p.isActive = true → p.visibleIdentityId ∉ excluded →
      (shown.map Post.visibleIdentityId).count p.visibleIdentityId = 1) ↔
      ∀ p ∈ newFeed store.all excluded, p ∈ shown := by
  have hnodup := @nodup_identities _ excluded store.nodup_ids
  constructor
  · intro hall p hp
    obtain ⟨hstore, hactive, hseen, -⟩ := mem_newFeed.mp hp
    have hcount := hall p hstore hactive hseen
    obtain ⟨q, hq, hsame⟩ :=
      List.mem_map.mp (List.count_pos_iff.mp (lt_of_lt_of_eq one_pos hcount.symm))
    rwa [← List.inj_on_of_nodup_map hnodup (hsub.subset hq) hp hsame]
  · intro hall p hp hactive hseen
    obtain ⟨newest, hnewest, hsame⟩ := exists_newest hp hactive hseen
    rw [← hsame]
    exact List.count_eq_one_of_mem (hnodup.sublist (hsub.map _))
      (List.mem_map_of_mem (hall newest hnewest))

/-- A cursor of the feed leaves the rows below its key. -/
theorem undisturbed_iff {store : List Post} {snapshotId : Option String} {k : ℤ ×ₗ ℕ}
    {inserted : List Post} : Undisturbed store excluded (toCursor snapshotId k) inserted ↔
      ∀ p ∈ Keyset.older Post.key k (newFeed store excluded), staysNewest inserted p = true := by
  have hfilter : ∀ p : Post,
      createdAtCursorFilter (toCursor snapshotId k).anchor .forward p = decide (p.key < k) :=
    createdAtCursorFilter_forward (ofLex k)
  unfold Undisturbed
  constructor
  · intro h p hp
    obtain ⟨hfeed, hlt⟩ := List.mem_filter.mp hp
    rw [staysNewest_iff]
    intro q hq hqa
    exact h q hq hqa p hfeed ((hfilter p).trans hlt)
  · intro h q hq hqa p hp hlt
    exact staysNewest_iff.mp (h p (List.mem_filter.mpr ⟨hp, (hfilter p).symm.trans hlt⟩)) q hq hqa

/-- While posts are inserted between the pages of a walk, it shows everything that was
visible at its first page once exactly when no inserted post shows what a post below the
cursor of the walk shows. -/
theorem newFeedInsertion (h : Insertions stores news) (exclusions : String → Option (List ℕ))
    (limit : ℕ) (hlimit : 1 ≤ limit) (start : Option NewCursor)
    (hstart : start.bind (·.anchor) = none) (hexcluded : Excludes exclusions start excluded) :
    (∃ pages, Keyset.Walk (readNewFeed stores exclusions limit) 0 start pages) ∧
    ∀ pages, Keyset.Walk (readNewFeed stores exclusions limit) 0 start pages →
      ((∀ p ∈ (stores 0).all, p.isActive = true → p.visibleIdentityId ∉ excluded →
        ((pages.flatMap (·.data)).map Post.visibleIdentityId).count p.visibleIdentityId = 1) ↔
      ∀ (j : ℕ) (page : CursorPage Post NewCursor) (cursor : NewCursor), pages[j]? = some page →
        page.nextCursor = some cursor →
          Undisturbed (stores j).all excluded cursor (news j)) := by
  have hread := @readNewFeed_eq stores exclusions excluded limit start hstart hexcluded
  have hkeep := h.keeps excluded
  have hdesc := fun k => descending_newFeed (stores k).nodup_ids excluded
  constructor
  · obtain ⟨pages, hpages⟩ := Keyset.walk_exists hkeep hdesc hlimit 0 none
    exact ⟨_, hpages.map (walkCursor start) (fun _ => rfl) (fun _ => rfl) hread⟩
  · intro pages hpages
    obtain ⟨pages, hwalk, rfl⟩ :=
      Keyset.Walk.of_map (walkCursor start) (fun _ => rfl) (fun _ => rfl) hread none hpages
    have hsub := Keyset.walk_sublist hkeep hdesc hlimit hwalk
    have hshows := Keyset.walk_shows_iff hkeep hdesc hlimit hwalk
    rw [data_mapCursor, shown_once_iff hsub]
    refine hshows.trans ?_
    constructor
    · intro hall j page cursor hj hcursor
      rw [List.getElem?_map] at hj
      obtain ⟨row, hrow, rfl⟩ := Option.map_eq_some_iff.mp hj
      obtain ⟨k, hk, rfl⟩ := Option.map_eq_some_iff.mp hcursor
      have hstays := hall j row k hrow hk
      rw [Nat.zero_add] at hstays
      exact undisturbed_iff.mpr hstays
    · intro hall j page k hj hk
      rw [Nat.zero_add]
      refine undisturbed_iff.mp (hall j (page.mapCursor (toCursor (start.bind (·.snapshotId))))
        (toCursor (start.bind (·.snapshotId)) k) ?_ ?_)
      · rw [List.getElem?_map, hj]
        rfl
      · change page.nextCursor.map _ = _
        rw [hk]
        rfl

end Insertion

/-- The fourth post, an original one or a repost. -/
def fourthPost (repostOf : Option ℕ) : Post := repostOf.elim (originalPost 4 4) (plainRepost 4 4)

private theorem fourthPost_names (repostOf : Option ℕ) : (fourthPost repostOf).id = 4 ∧
    (fourthPost repostOf).publicId = toString 4 ∧ (fourthPost repostOf).createdAt = 4 := by
  cases repostOf <;> exact ⟨rfl, rfl, rfl⟩

/-- Three posts, and then a fourth one. -/
def storesWith (repostOf : Option ℕ) : ℕ → Posts
  | 0 => ⟨[originalPost 1 1, originalPost 2 2, originalPost 3 3], by decide, by decide +kernel⟩
  | _ + 1 =>
    ⟨[originalPost 1 1, originalPost 2 2, originalPost 3 3, fourthPost repostOf],
      by
        simp only [List.map_cons, List.map_nil, fourthPost_names]
        decide,
      by
        simp only [List.map_cons, List.map_nil, fourthPost_names]
        decide +kernel⟩

/-- One post is inserted after the first request. -/
def newsWith (repostOf : Option ℕ) : ℕ → List Post
  | 0 => [fourthPost repostOf]
  | _ + 1 => []

/-- The stores are those with the inserted posts. -/
theorem insertions_with (repostOf : Option ℕ) :
    Insertions (storesWith repostOf) (newsWith repostOf) where
  all_eq := by rintro (_ | k) <;> rfl
  newer := by
    rintro (_ | k) q hq r hr
    · obtain rfl := List.mem_singleton.mp hq
      have hlate : ∀ r ∈ [originalPost 1 1, originalPost 2 2, originalPost 3 3],
          r.createdAt ≤ 3 := by decide
      have hr := hlate r hr
      have ht := (fourthPost_names repostOf).2.2
      unfold Post.key
      rw [Prod.Lex.toLex_lt_toLex]
      exact .inl (by dsimp only; omega)
    · cases hq

/-- An original post that is inserted meanwhile leaves every post shown once. -/
theorem newFeedInsertion_original : ∃ pages,
    Keyset.Walk (readNewFeed (storesWith none) (fun _ => none) 1) 0 none pages ∧
      ((pages.flatMap (·.data)).map Post.visibleIdentityId).count 1 = 1 := by
  obtain ⟨⟨pages, hpages⟩, hiff⟩ := @newFeedInsertion _ _ [] (insertions_with none)
    (fun _ => none) 1 (by decide) none rfl rfl
  refine ⟨pages, hpages, (hiff pages hpages).mpr ?_ (originalPost 1 1) (by decide) rfl (by decide)⟩
  rintro (_ | j) page cursor - - q hq - p hp -
  · obtain rfl := List.mem_singleton.mp hq
    revert p
    decide
  · cases hq

/-- A repost of the oldest post comes after the first page and hides it from the walk. -/
theorem newFeedInsertion_repost : ¬ ∀ (stores : ℕ → Posts) (news : ℕ → List Post),
    Insertions stores news → ∀ limit, 1 ≤ limit →
      ∀ pages, Keyset.Walk (readNewFeed stores (fun _ => none) limit) 0 none pages →
        ∀ p ∈ (stores 0).all, p.isActive = true →
          ((pages.flatMap (·.data)).map Post.visibleIdentityId).count p.visibleIdentityId = 1 := by
  intro hall
  have hwalk : Keyset.Walk (readNewFeed (storesWith (some 1)) (fun _ => none) 1) 0
      none [CursorPage.mk [originalPost 3 3] true (some (toCursor none (originalPost 3 3).key))
          (some (toCursor none (originalPost 3 3).key)),
        CursorPage.mk [originalPost 2 2] false none
          (some (toCursor none (originalPost 2 2).key))] :=
    .more (by decide +kernel) rfl (.last (by decide +kernel) rfl)
  have hone := hall _ _ (insertions_with (some 1)) 1 (by decide) _ hwalk
    (originalPost 1 1) (by decide) rfl
  exact absurd hone (by decide)

end Ascendance.Feed
