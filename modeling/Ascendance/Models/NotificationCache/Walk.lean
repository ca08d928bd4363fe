import Ascendance.Models.NotificationCache.Paging

/-!
# Reading all pages of a user's notifications

Every page after the first is one of the database, so following the cursors is a walk
through the stored notifications by their timestamps: all of them on a miss, those
older than the first page on a hit.
-/

namespace Ascendance.NotificationCache.Store

open Ascendance.Core Ascendance.Core.Keyset

variable {userId : String} {stores : ℕ → Store} {sort : ℕ → List Notification → List Notification}
  {limit : ℕ}

/-- A page that is not full is the last one. -/
theorem readAll_last {k fuel : ℕ} {before : Option ℕ} {page : List Notification}
    (hpage : ((stores k).getNotifications userId (sort k) limit before).data = page)
    (hshort : page.length ≠ limit) :
    readAll userId stores sort limit (fuel + 1) k before = some page := by
  have hcursor : ((stores k).getNotifications userId (sort k) limit before).nextCursor = none := by
    subst hpage
    exact if_neg fun hmore => hshort (of_decide_eq_true hmore)
  rw [readAll, hcursor]
  exact congrArg some hpage

/-- A full page is followed by those of its last notification's timestamp. -/
theorem readAll_next {k fuel : ℕ} {before : Option ℕ} {page : List Notification} {x : Notification}
    (hpage : ((stores k).getNotifications userId (sort k) limit before).data = page)
    (hfull : page.length = limit) (hx : page.getLast? = some x) :
    readAll userId stores sort limit (fuel + 1) k before =
      (readAll userId stores sort limit fuel (k + 1) (some x.date)).map (page ++ ·) := by
  have hcursor : ((stores k).getNotifications userId (sort k) limit before).nextCursor =
      some x.date := by
    subst hpage
    refine (if_pos (decide_eq_true hfull)).trans ?_
    exact congrArg (Option.map Notification.date) hx
  rw [readAll, hcursor]
  dsimp only
  rw [hpage]

/-- More fuel changes nothing. -/
theorem readAll_succ {fuel k : ℕ} {before : Option ℕ} {l : List Notification}
    (h : readAll userId stores sort limit fuel k before = some l) :
    readAll userId stores sort limit (fuel + 1) k before = some l := by
  induction fuel generalizing k before l with
  | zero => cases h
  | succ fuel ih =>
    rw [readAll] at h ⊢
    split at h
    · exact h
    · obtain ⟨rest, hrest, rfl⟩ := Option.map_eq_some_iff.mp h
      rw [ih hrest, Option.map_some]

/-- More fuel reads no other list. -/
private theorem readAll_mono {fuel fuel' k : ℕ} {before : Option ℕ} {l : List Notification}
    (hle : fuel ≤ fuel') (h : readAll userId stores sort limit fuel k before = some l) :
    readAll userId stores sort limit fuel' k before = some l := by
  induction hle with
  | refl => exact h
  | step _ ih => exact readAll_succ ih

/-- What is read does not depend on the fuel. -/
theorem complete_iff_covers {fuel : ℕ} {l : List Notification}
    (h : readAll userId stores sort limit fuel 0 none = some l) :
    Complete userId stores sort limit ↔ (stores 0).Covers l := by
  constructor
  · rintro ⟨fuel', l', h', hcovers⟩
    have hfirst := readAll_mono (Nat.le_max_left fuel fuel') h
    have hsecond := readAll_mono (Nat.le_max_right fuel fuel') h'
    obtain rfl := Option.some.inj (hfirst.symm.trans hsecond)
    exact hcovers
  · intro hcovers
    exact ⟨fuel, l, h, hcovers⟩

/-- A page of the database holds the newest of what is older than its cursor. -/
theorem data_before (s : Store) (order : List Notification → List Notification)
    (x : Notification) :
    (s.getNotifications userId order limit (some x.date)).data =
      (order (older Notification.date x.date s.stored)).take limit := by
  have hbefore : (some x.date).any (· ≠ 0) = true := by
    simpa using x.content.positive.ne'
  unfold getNotifications execute
  rw [if_pos hbefore]
  rfl

/-- A hit is answered from the cache. -/
private theorem data_first_hit {s : Store} (order : List Notification → List Notification)
    (hhit : s.isHit userId limit = true) :
    (s.getNotifications userId order limit none).data =
      s.world.getUserNotifications userId limit := by
  unfold getNotifications execute
  rw [if_neg (by simp)]
  dsimp only
  rw [if_pos hhit]

/-- A miss is answered from the store. -/
private theorem data_first_miss {s : Store} (order : List Notification → List Notification)
    (hmiss : ¬ s.isHit userId limit = true) :
    (s.getNotifications userId order limit none).data =
      ((order s.stored).take MAX_NOTIFICATIONS_PER_USER).take limit := by
  unfold getNotifications execute
  rw [if_neg (by simp)]
  dsimp only
  rw [if_neg hmiss]

/-- Of two bounds the smaller one counts. -/
private theorem older_older {a b : ℕ} {rows : List Notification} (h : a ≤ b) :
    older Notification.date a (older Notification.date b rows) =
      older Notification.date a rows := by
  unfold older
  rw [List.filter_filter]
  apply List.filter_congr
  intro n _
  by_cases hn : n.date < a
  · simp [hn, hn.trans_le h]
  · simp [hn]

/-- A request whose page is the first one of some rows reads all pages of them, by induction on
the number of rows: a full page leaves fewer. -/
theorem readAll_rows (hsort : ∀ k, Sorts Notification.date (sort k)) (hlimit : 1 ≤ limit)
    {rows : List Notification} {k : ℕ} {before : Option ℕ}
    (hpage : ((stores k).getNotifications userId (sort k) limit before).data =
      (sort k rows).take limit)
    (hlater : ∀ j, k < j → ∀ x ∈ rows, older Notification.date x.date (stores j).stored =
      older Notification.date x.date rows) :
    ∃ fuel l, readAll userId stores sort limit fuel k before = some l ∧
      Paged Notification.date limit rows l := by
  induction hn : rows.length using Nat.strong_induction_on generalizing rows k before with
  | _ n ih =>
    obtain ⟨hperm, hordered⟩ := hsort k rows
    by_cases hfull : limit ≤ (sort k rows).length
    · have hlength : ((sort k rows).take limit).length = limit := List.length_take_of_le hfull
      obtain ⟨x, hx⟩ : ∃ x, ((sort k rows).take limit).getLast? = some x := by
        rw [← Option.isSome_iff_exists, List.getLast?_isSome]
        intro hnil
        rw [hnil, List.length_nil] at hlength
        omega
      have hmem : x ∈ rows :=
        hperm.subset (List.mem_of_mem_take (List.mem_of_getLast? hx))
      have hsplit := (List.take_append_drop limit (sort k rows)).symm
      have hfewer : (older Notification.date x.date rows).length < n := by
        rw [← hn]
        unfold older
        exact List.length_filter_lt_length_iff_exists.mpr ⟨x, hmem, by simp⟩
      have hnext : ((stores (k + 1)).getNotifications userId (sort (k + 1)) limit
          (some x.date)).data =
          (sort (k + 1) (older Notification.date x.date rows)).take limit := by
        rw [data_before, hlater (k + 1) (Nat.lt_succ_self k) x hmem]
      obtain ⟨fuel, l, hread, hpaged⟩ := ih _ hfewer hnext (by
        intro j hj y hy
        obtain ⟨hyrows, hyx⟩ := mem_older.mp hy
        rw [hlater j (by omega) y hyrows, older_older hyx.le]) rfl
      refine ⟨fuel + 1, (sort k rows).take limit ++ l, ?_, ?_⟩
      · rw [readAll_next hpage hlength hx, hread, Option.map_some]
      · exact .next (hsplit ▸ hperm) (hsplit ▸ hordered) hlength hx hpaged
    · have hall : (sort k rows).take limit = sort k rows :=
        List.take_of_length_le (by omega)
      rw [hall] at hpage
      exact ⟨1, sort k rows, readAll_last hpage (by omega), .last hperm hordered (by omega)⟩

section Covered

variable {s : Store} {l : List Notification}

/-- Distinct stored notifications have distinct identifiers. -/
theorem Kept.nodup_ids (h : s.Kept) (hsub : l ⊆ s.stored) (hnodup : l.Nodup) :
    (l.map (·.id)).Nodup := by
  rw [List.nodup_map_iff_inj_on hnodup]
  intro n hn m hm hid
  exact h.eq_of_id (h.stored.subset (hsub hn)) (h.stored.subset (hsub hm)) hid

/-- A stored notification is in a list exactly when its identifier is. -/
theorem Kept.mem_ids (h : s.Kept) (hsub : l ⊆ s.stored) {n : Notification} (hn : n ∈ s.stored) :
    n.id ∈ l.map (·.id) ↔ n ∈ l := by
  constructor
  · intro hmem
    obtain ⟨m, hm, hid⟩ := List.mem_map.mp hmem
    exact h.eq_of_id (h.stored.subset (hsub hm)) (h.stored.subset hn) hid ▸ hm
  · exact List.mem_map_of_mem

/-- Identifiers that do not repeat occur once if at all. -/
theorem count_eq_one_iff {ids : List String} (hnodup : ids.Nodup) {id : String} :
    ids.count id = 1 ↔ id ∈ ids := by
  constructor
  · intro hcount
    exact List.count_pos_iff.mp (by omega)
  · exact List.count_eq_one_of_mem hnodup

/-- A walk through all that is stored covers it when no page ends in a tie. -/
theorem Kept.covers_walk (h : s.Kept) (hpaged : Paged Notification.date limit s.stored l) :
    s.Covers l ↔ Untied Notification.date limit s.stored := by
  have hids := h.nodup_ids hpaged.subset (hpaged.nodup h.nodup_stored)
  rw [← hpaged.complete_iff h.nodup_stored]
  constructor
  · intro hcovers n hn
    exact (h.mem_ids hpaged.subset hn).mp ((count_eq_one_iff hids).mp (hcovers.1 n hn))
  · intro hall
    refine ⟨fun n hn => ?_, hpaged.ordered⟩
    exact (count_eq_one_iff hids).mpr ((h.mem_ids hpaged.subset hn).mpr (hall hn))

/-- A page of the cache and a walk through what is older than its last notification. -/
theorem Kept.covers_continued (h : s.Kept) {page : List Notification} {x : Notification}
    (hcache : page = s.world.getUserNotifications userId limit) (hx : page.getLast? = some x)
    (hpaged : Paged Notification.date limit (older Notification.date x.date s.stored) l) :
    s.Covers (page ++ l) ↔ s.Continues page limit := by
  have hsub : l ⊆ s.stored := fun n hn => older_sublist.subset (hpaged.subset hn)
  have hids := h.nodup_ids hsub (hpaged.nodup (h.nodup_stored.sublist older_sublist))
  have hpageIds : (page.map (·.id)).Nodup := hcache ▸ h.page_nodup limit
  have holder : ∀ n ∈ l, n.date < x.date := fun n hn => (mem_older.mp (hpaged.subset hn)).2
  -- a stored notification of an ordered page is not among the older ones
  have hnot : Ordered Notification.date page → ∀ n ∈ s.stored, n.id ∈ page.map (·.id) →
      x.date ≤ n.date := by
    intro hordered n hn hmem
    obtain ⟨p, hp, hid⟩ := List.mem_map.mp hmem
    rw [h.date_eq hn (hcache ▸ hp) hid.symm]
    exact hordered.last_le hx hp
  have hcount : ∀ n ∈ s.stored, ((page ++ l).map (·.id)).count n.id =
      (page.map (·.id)).count n.id + (l.map (·.id)).count n.id := by
    intro n _
    rw [List.map_append, List.count_append]
  constructor
  · rintro ⟨hone, hordered⟩
    have hpage := (List.pairwise_append.mp hordered).1
    refine ⟨hpage, fun last hlast => ?_⟩
    obtain rfl := Option.some.inj (hx.symm.trans hlast)
    constructor
    · intro n hn
      by_cases hmem : n.id ∈ page.map (·.id)
      · exact .inl hmem
      · have hsum := hone n hn
        rw [hcount n hn, List.count_eq_zero_of_not_mem hmem, Nat.zero_add,
          count_eq_one_iff hids, h.mem_ids hsub hn] at hsum
        exact .inr (holder n hsum)
    · rw [← hpaged.complete_iff (h.nodup_stored.sublist older_sublist)]
      intro n hn
      obtain ⟨hstored, hlt⟩ := mem_older.mp hn
      have hmem : n.id ∉ page.map (·.id) := fun hmem =>
        absurd (hnot hpage n hstored hmem) (not_le.mpr hlt)
      have hsum := hone n hstored
      rwa [hcount n hstored, List.count_eq_zero_of_not_mem hmem, Nat.zero_add,
        count_eq_one_iff hids, h.mem_ids hsub hstored] at hsum
  · rintro ⟨hordered, hlast⟩
    obtain ⟨hrest, huntied⟩ := hlast x hx
    rw [← hpaged.complete_iff (h.nodup_stored.sublist older_sublist)] at huntied
    constructor
    · intro n hn
      rw [hcount n hn]
      by_cases hmem : n.id ∈ page.map (·.id)
      · have hmiss : n.id ∉ l.map (·.id) := by
          rw [h.mem_ids hsub hn]
          exact fun hl => absurd (hnot hordered n hn hmem) (not_le.mpr (holder n hl))
        rw [(count_eq_one_iff hpageIds).mpr hmem, List.count_eq_zero_of_not_mem hmiss]
      · have hlt := (hrest n hn).resolve_left hmem
        have hl := huntied (mem_older.mpr ⟨hn, hlt⟩)
        rw [List.count_eq_zero_of_not_mem hmem,
          (count_eq_one_iff hids).mpr ((h.mem_ids hsub hn).mpr hl)]
    · refine List.pairwise_append.mpr ⟨hordered, hpaged.ordered, ?_⟩
      intro p hp n hn
      exact (holder n hn).le.trans (hordered.last_le hx hp)

end Covered

/-- Stores that grow extend the first one. -/
private theorem grows_from_start (hgrows : ∀ k, (stores k).Grows userId (stores (k + 1))) (k : ℕ) :
    (stores 0).Extends (stores k) := by
  induction k with
  | zero => exact Extends.refl _
  | succ k ih => exact ih.trans (hgrows k).extends

/-- On a hit the walk goes on below the last notification of the cached page. -/
theorem complete_of_hit (hkept : (stores 0).Kept)
    (hextends : ∀ k, (stores 0).Extends (stores k))
    (hsort : ∀ k, Sorts Notification.date (sort k)) (hlimit : 1 ≤ limit)
    (hhit : (stores 0).isHit userId limit = true) :
    Complete userId stores sort limit ↔
      (stores 0).Continues ((stores 0).world.getUserNotifications userId limit) limit := by
  have hfull : ((stores 0).world.getUserNotifications userId limit).length = limit := by
    apply le_antisymm (length_getUserNotifications_le _ hlimit)
    unfold isHit at hhit
    exact of_decide_eq_true (Bool.and_eq_true_iff.mp hhit).1
  obtain ⟨x, hx⟩ : ∃ x,
      ((stores 0).world.getUserNotifications userId limit).getLast? = some x := by
    rw [← Option.isSome_iff_exists, List.getLast?_isSome]
    intro hnil
    rw [hnil, List.length_nil] at hfull
    omega
  obtain ⟨m, hm, -, hcontent⟩ := hkept.origin (List.mem_of_getLast? hx)
  have hdate : m.date = x.date := congrArg Details.date hcontent
  have hpage : ((stores 1).getNotifications userId (sort 1) limit (some x.date)).data =
      (sort 1 (older Notification.date x.date (stores 0).stored)).take limit := by
    rw [data_before, ← hdate, (hextends 1).older_eq hm]
  obtain ⟨fuel, l, hread, hpaged⟩ := readAll_rows hsort hlimit hpage (by
    intro j _ n hn
    obtain ⟨hstored, hlt⟩ := mem_older.mp hn
    rw [(hextends j).older_eq (hkept.stored.subset hstored), older_older hlt.le])
  have hall : readAll userId stores sort limit (fuel + 1) 0 none =
      some ((stores 0).world.getUserNotifications userId limit ++ l) := by
    rw [readAll_next (data_first_hit _ hhit) hfull hx, hread, Option.map_some]
  rw [complete_iff_covers hall]
  exact hkept.covers_continued rfl hx hpaged

/-- On a miss the first page is one of all that is stored, unless there is more than what is
fetched and it does not fill the page. -/
theorem complete_of_miss (hkept : (stores 0).Kept)
    (hextends : ∀ k, (stores 0).Extends (stores k))
    (hsort : ∀ k, Sorts Notification.date (sort k)) (hlimit : 1 ≤ limit)
    (hmiss : ¬ (stores 0).isHit userId limit = true) :
    Complete userId stores sort limit ↔
      (limit ≤ MAX_NOTIFICATIONS_PER_USER ∨
        (stores 0).stored.length ≤ MAX_NOTIFICATIONS_PER_USER) ∧
      Untied Notification.date limit (stores 0).stored := by
  have hfirst := data_first_miss (sort 0) hmiss
  obtain ⟨hperm, -⟩ := hsort 0 (stores 0).stored
  by_cases hfits : limit ≤ MAX_NOTIFICATIONS_PER_USER ∨
      (stores 0).stored.length ≤ MAX_NOTIFICATIONS_PER_USER
  · have hpage : ((stores 0).getNotifications userId (sort 0) limit none).data =
        (sort 0 (stores 0).stored).take limit := by
      rw [hfirst, List.take_take]
      rcases hfits with hle | hle
      · rw [Nat.min_eq_left hle]
      · rw [← hperm.length_eq] at hle
        rcases Nat.le_total limit MAX_NOTIFICATIONS_PER_USER with hlim | hlim
        · rw [Nat.min_eq_left hlim]
        · rw [Nat.min_eq_right hlim, List.take_of_length_le hle,
            List.take_of_length_le (hle.trans hlim)]
    obtain ⟨fuel, l, hread, hpaged⟩ := readAll_rows hsort hlimit hpage (by
      intro j _ n hn
      exact (hextends j).older_eq (hkept.stored.subset hn))
    rw [complete_iff_covers hread, hkept.covers_walk hpaged]
    exact (and_iff_right hfits).symm
  · obtain ⟨hlim, hmore⟩ := not_or.mp hfits
    have hlength : (((sort 0 (stores 0).stored).take MAX_NOTIFICATIONS_PER_USER).take
        limit).length = MAX_NOTIFICATIONS_PER_USER := by
      rw [List.take_take, List.length_take, hperm.length_eq]
      omega
    have hread : readAll userId stores sort limit 1 0 none = some (((sort 0
        (stores 0).stored).take MAX_NOTIFICATIONS_PER_USER).take limit) :=
      readAll_last hfirst (by omega)
    rw [complete_iff_covers hread]
    refine iff_of_false ?_ fun h => hfits h.1
    rintro ⟨hone, -⟩
    have hsub : (stores 0).stored.map (·.id) ⊆
        (((sort 0 (stores 0).stored).take MAX_NOTIFICATIONS_PER_USER).take limit).map (·.id) := by
      intro id hid
      obtain ⟨n, hn, rfl⟩ := List.mem_map.mp hid
      exact List.count_pos_iff.mp (by rw [hone n hn]; exact Nat.one_pos)
    have hle := (hkept.nodup_ids (List.Subset.refl _) hkept.nodup_stored).length_le_of_subset hsub
    rw [List.length_map, List.length_map, hlength] at hle
    exact hmore hle

end Ascendance.NotificationCache.Store

namespace Ascendance.NotificationCache

open Ascendance.Core Ascendance.Core.Keyset Store

/-- After any changes of what is stored and cached, whatever arrives while the pages are read:
following the cursors returns everything that was stored at the start once, in order, and ends,
exactly when the first page is seamless. -/
theorem notificationPaging_complete_iff {userId : String} {changes : List Change}
    {stores : ℕ → Store} {sort : ℕ → List Notification → List Notification} {limit : ℕ}
    (hrun : Run (Step userId) Store.initial changes (stores 0))
    (hgrows : ∀ k, (stores k).Grows userId (stores (k + 1)))
    (hsort : ∀ k, Sorts Notification.date (sort k)) (hlimit : 1 ≤ limit) :
    Complete userId stores sort limit ↔ (stores 0).Seamless userId limit := by
  have hkept := Kept.run hrun
  have hextends := grows_from_start hgrows
  unfold Seamless
  by_cases hhit : (stores 0).isHit userId limit = true
  · rw [if_pos hhit]
    exact complete_of_hit hkept hextends hsort hlimit hhit
  · rw [if_neg hhit]
    exact complete_of_miss hkept hextends hsort hlimit hhit

/-- A notification that the servers' clock stamped. -/
def stamped (id : String) (date : ℕ) (h : 0 < date) : Notification :=
  ⟨id, false, "", date, some "post", h⟩

/-- A notification of time five. -/
def early : Notification := stamped "65f000000000000000000001" 5 (by decide)

/-- A notification of time six. -/
def late : Notification := stamped "65f000000000000000000002" 6 (by decide)

/-- Another notification of time five. -/
def simultaneous : Notification := stamped "65f000000000000000000003" 5 (by decide)

/-- A notification of time seven. -/
def arriving : Notification := stamped "65f000000000000000000004" 7 (by decide)

/-- Two notifications of one millisecond; nothing is cached. -/
def tiedStore : Store := ⟨[early, simultaneous], [early, simultaneous], World.initial⟩

/-- Two notifications are pushed, and the older one again. -/
def repeatedStore : Store :=
  ⟨[early, late], [early, late],
    ((World.initial.push "alice" early 200).push "alice" late 200).push "alice" early 200⟩

/-- One by one, the second of two notifications of one millisecond is never returned, and neither
is a notification that an older one has been pushed in front of. -/
theorem notificationPaging_skips :
    (∃ changes, Run (Step "alice") Store.initial changes tiedStore ∧
      ¬ Complete "alice" (fun _ => tiedStore) (fun _ => sortDesc Notification.date) 1) ∧
    ∃ changes, Run (Step "alice") Store.initial changes repeatedStore ∧
      ¬ Complete "alice" (fun _ => repeatedStore) (fun _ => sortDesc Notification.date) 1 := by
  constructor
  · refine ⟨[.create early, .create simultaneous], ?_, ?_⟩
    · have hfirst : Step "alice" Store.initial (.create early) ⟨[early], [early], World.initial⟩ :=
        .create (by decide) (by decide)
      have hsecond : Step "alice" ⟨[early], [early], World.initial⟩ (.create simultaneous)
          tiedStore := .create (by decide) (by decide)
      exact (Run.single hfirst).snoc hsecond
    · have hread : readAll "alice" (fun _ => tiedStore) (fun _ => sortDesc Notification.date) 1 2 0
          none = some [early] := by decide +kernel
      rw [complete_iff_covers hread]
      rintro ⟨hone, -⟩
      exact absurd (hone simultaneous (by decide)) (by decide)
  · refine ⟨[.create early, .create late, .push early, .push late, .push early], ?_, ?_⟩
    · have hfirst : Step "alice" Store.initial (.create early) ⟨[early], [early], World.initial⟩ :=
        .create (by decide) (by decide)
      have hsecond : Step "alice" ⟨[early], [early], World.initial⟩ (.create late)
          ⟨[early, late], [early, late], World.initial⟩ := .create (by decide) (by decide)
      have hearly : early ∈ [early, late] := by decide
      have hlate : late ∈ [early, late] := by decide
      exact ((((Run.single hfirst).snoc hsecond).snoc (.push hearly)).snoc (.push hlate)).snoc
        (.push hearly)
    · have hread : readAll "alice" (fun _ => repeatedStore) (fun _ => sortDesc Notification.date)
          1 2 0 none = some [early] := by decide +kernel
      rw [complete_iff_covers hread]
      rintro ⟨hone, -⟩
      exact absurd (hone late (by decide)) (by decide)

/-- Two notifications are pushed. -/
def pushedStore : Store :=
  ⟨[early, late], [early, late], (World.initial.push "alice" early 200).push "alice" late 200⟩

/-- Another one is stored after the first page. -/
def arrivals : ℕ → Store
  | 0 => pushedStore
  | _ + 1 => { pushedStore with
      created := [early, late, arriving], stored := [early, late, arriving] }

/-- The first page is one of the cache, the second one of the database. -/
theorem notificationPaging_complete_iff_arriving :
    Complete "alice" arrivals (fun _ => sortDesc Notification.date) 1 := by
  have hfirst : Step "alice" Store.initial (.create early) ⟨[early], [early], World.initial⟩ :=
    .create (by decide) (by decide)
  have hsecond : Step "alice" ⟨[early], [early], World.initial⟩ (.create late)
      ⟨[early, late], [early, late], World.initial⟩ := .create (by decide) (by decide)
  have hearly : early ∈ [early, late] := by decide
  have hlate : late ∈ [early, late] := by decide
  have hrun : Run (Step "alice") Store.initial
      [.create early, .create late, .push early, .push late] (arrivals 0) :=
    (((Run.single hfirst).snoc hsecond).snoc (.push hearly)).snoc (.push hlate)
  have hgrows : ∀ k, (arrivals k).Grows "alice" (arrivals (k + 1)) := by
    intro k
    cases k with
    | zero =>
      have harrival : Step "alice" pushedStore (.create arriving) (arrivals 1) :=
        .create (by decide) (by decide)
      exact ⟨[.create arriving], Run.single ⟨trivial, harrival⟩⟩
    | succ k => exact ⟨[], .nil⟩
  refine (notificationPaging_complete_iff hrun hgrows (fun _ => sorts_sortDesc _)
    (Nat.le_refl 1)).mpr ?_
  have hhit : (arrivals 0).isHit "alice" 1 = true := by decide +kernel
  have hpage : (arrivals 0).world.getUserNotifications "alice" 1 = [late] := by decide +kernel
  have holder : older Notification.date late.date (arrivals 0).stored = [early] := by
    decide +kernel
  unfold Seamless Continues
  rw [if_pos hhit, hpage]
  refine ⟨List.pairwise_singleton _ _, ?_⟩
  intro last hlast
  obtain rfl : late = last := Option.some.inj hlast
  rw [holder]
  refine ⟨by decide, ?_⟩
  rintro c m ⟨habove, hfrom⟩
  have hle := [early].countP_le_length (p := (c ≤ Notification.date ·))
  have hone : [early].length = 1 := rfl
  cases m with
  | zero => omega
  | succ m => omega

end Ascendance.NotificationCache
