import Ascendance.Models.Feed.SnapshotWalk
import Ascendance.Models.Feed.Trending

/-!
# Pages of the trending phase

Both sources show their entries in pages of the limit, and the last page takes what is
left. An entry whose post is not active shows nothing.
-/

namespace Ascendance.Feed

open Ascendance.Core

section Ranking

variable {eligible : String → Bool} {snapshot : FeedCursorSnapshot} {offset limit : ℕ}

/-- While all entries are eligible, a page shows the next entries. -/
theorem readScoreSnapshotPage_all (hnodup : (snapshot.entries.map (·.id)).Nodup)
    (hall : ∀ entry ∈ snapshot.entries, eligible entry.id = true) (hlimit : 1 ≤ limit)
    (hoffset : offset ≤ snapshot.entries.length) :
    readScoreSnapshotPage eligible snapshot offset limit =
      { data := ((snapshot.entries.drop offset).take limit).map showEntry
        hasMore := decide (limit < (snapshot.entries.drop offset).length)
        nextOffset := offset + ((snapshot.entries.drop offset).take limit).length } := by
  have hfst : (snapshot.entries.zipIdx.drop offset).map (·.1) = snapshot.entries.drop offset := by
    rw [List.map_drop]
    exact congrArg (List.drop offset) (List.zipIdx_map_fst 0 snapshot.entries)
  have hremaining : remaining eligible snapshot offset = snapshot.entries.zipIdx.drop offset := by
    unfold remaining
    rw [List.filter_eq_self]
    intro entry hentry
    apply hall
    have hmem : entry.1 ∈ snapshot.entries.drop offset := by
      rw [← hfst]
      exact List.mem_map_of_mem hentry
    exact List.mem_of_mem_drop hmem
  have hpage := @readScoreSnapshotPage_eq eligible snapshot offset limit hnodup
  have hdata :
      ((remaining eligible snapshot offset).take limit).map (fun entry => showEntry entry.1) =
      ((snapshot.entries.drop offset).take limit).map showEntry := by
    rw [hremaining, ← hfst, ← List.map_take, List.map_map]
    rfl
  have hlen :
      (remaining eligible snapshot offset).length = (snapshot.entries.drop offset).length := by
    rw [hremaining, ← hfst, List.length_map]
  have hnext : (readScoreSnapshotPage eligible snapshot offset limit).nextOffset =
      offset + ((snapshot.entries.drop offset).take limit).length := by
    rcases @readScoreSnapshotPage_cases eligible snapshot offset limit hnodup hlimit _ rfl with
      ⟨-, -, hend, hnone⟩ | ⟨passed, hdrop, -, hend, hshown, -⟩
    · have hnil : snapshot.entries.drop offset = [] := by
        rw [List.eq_nil_iff_forall_not_mem]
        intro entry hentry
        have hnot := hnone entry hentry
        rw [hall entry (List.mem_of_mem_drop hentry)] at hnot
        cases hnot
      have hle := List.drop_eq_nil_iff.mp hnil
      rw [hend, hnil, List.take_nil, List.length_nil]
      omega
    · have hpassed : passed.filter (fun entry => eligible entry.id) = passed := by
        rw [List.filter_eq_self]
        intro entry hentry
        apply hall
        have hmem : entry ∈ snapshot.entries.drop offset := by
          rw [hdrop]
          exact List.mem_append_left _ hentry
        exact List.mem_of_mem_drop hmem
      have hsame : (passed.map showEntry).length =
          (((snapshot.entries.drop offset).take limit).map showEntry).length := by
        rw [← hdata, ← hpassed, ← hshown, hpage]
      rw [List.length_map, List.length_map] at hsame
      rw [hend, hsame]
  have hrows : (readScoreSnapshotPage eligible snapshot offset limit).data =
      ((snapshot.entries.drop offset).take limit).map showEntry := by rw [hpage, hdata]
  have hmore : (readScoreSnapshotPage eligible snapshot offset limit).hasMore =
      decide (limit < (snapshot.entries.drop offset).length) := by
    rw [hpage, hlen]
  rw [← hrows, ← hmore, ← hnext]

end Ranking

namespace TrendingServer

variable (server : TrendingServer)

/-- The posts of the entries of a snapshot in Redis. -/
def redisRows (snapshot : FeedCursorSnapshot) : List (Option Post) :=
  snapshot.entries.map fun entry => server.findActive fun p => p.publicId == entry.publicId

/-- The posts of the entries of a ranking. -/
def mongoRows (snapshot : FeedCursorSnapshot) : List (Option Post) :=
  snapshot.entries.map fun entry => server.findActive fun p => server.objectIdText p.id == entry.id

/-- A page of the trending phase: the posts of the next entries, or what is left of them with
the posts of the new feed. -/
def snapshotPage (snapshot : FeedCursorSnapshot) (rows : List (Option Post))
    (cursor : ℕ → TrendingCursor) (offset limit : ℕ) : Option TrendingPage :=
  if limit < (rows.drop offset).length then
    some
      { data := ((rows.drop offset).take limit).reduceOption
        hasMore := true
        nextCursor := some (cursor (offset + limit))
        prevCursor := none }
  else server.completeWithNewFeed snapshot (rows.drop offset).reduceOption rows.length limit

section Sources

variable {server} {snapshot : FeedCursorSnapshot} {offset limit : ℕ}

/-- The posts found for the entries are the active ones, in the order of the entries. -/
theorem findPostsByPublicIds_eq (entries : List FeedCursorSnapshotEntry) :
    server.findPostsByPublicIds (entries.map (·.publicId)) =
      (entries.map fun entry =>
        server.findActive fun p => p.publicId == entry.publicId).reduceOption := by
  unfold findPostsByPublicIds List.reduceOption
  rw [List.filterMap_map, List.filterMap_map]
  rfl

/-- A page of the ranked set is a page of its rows. -/
theorem redisPage_eq (hlimit : 1 ≤ limit) (hoffset : offset < snapshot.entries.length) :
    server.redisPage snapshot offset limit =
      server.snapshotPage snapshot (server.redisRows snapshot) .redis offset limit := by
  have hlen : ((snapshot.entries.drop offset).take (limit + 1)).length > limit ↔
      limit < ((server.redisRows snapshot).drop offset).length := by
    unfold redisRows
    rw [List.length_take, List.length_drop, List.length_drop, List.length_map]
    omega
  have hvisible : ((snapshot.entries.drop offset).take (limit + 1)).take limit =
      (snapshot.entries.drop offset).take limit := by
    rw [List.take_take, Nat.min_eq_left (Nat.le_succ limit)]
  have hcount : ((snapshot.entries.drop offset).take limit).length =
      min limit (snapshot.entries.length - offset) := by
    rw [List.length_take, List.length_drop]
  have hne : ((snapshot.entries.drop offset).take limit).isEmpty = false := by
    rw [← Bool.not_eq_true, List.isEmpty_iff, ← List.length_eq_zero_iff, hcount]
    omega
  unfold redisPage snapshotPage
  simp only [hvisible, hne, findPostsByPublicIds_eq]
  by_cases hmore : limit < ((server.redisRows snapshot).drop offset).length
  · have hfull : ((snapshot.entries.drop offset).take limit).length = limit := by
      unfold redisRows at hmore
      rw [List.length_drop, List.length_map] at hmore
      rw [hcount]
      omega
    rw [if_pos (hlen.mpr hmore), if_pos hmore, hfull]
    unfold redisRows
    rw [← List.map_drop, ← List.map_take]
    rfl
  · have hall : (snapshot.entries.drop offset).take limit = snapshot.entries.drop offset := by
      unfold redisRows at hmore
      rw [List.length_drop, List.length_map] at hmore
      rw [List.take_of_length_le]
      rw [List.length_drop]
      omega
    have hend : offset + (snapshot.entries.drop offset).length =
        (server.redisRows snapshot).length := by
      unfold redisRows
      rw [List.length_drop, List.length_map]
      omega
    rw [if_neg (fun h => hmore (hlen.mp h)), if_neg hmore, hall, hend]
    unfold redisRows
    rw [← List.map_drop]
    rfl

/-- The one post with a property is found. -/
theorem findActive_eq {is : Post → Bool} {p : Post} (hp : p ∈ server.store.all)
    (hactive : p.isActive = true) (his : is p = true)
    (hone : ∀ q ∈ server.store.all, is q = true → q = p) : server.findActive is = some p := by
  unfold findActive
  cases hfind : server.store.all.find? fun q => q.isActive && is q with
  | none =>
    have hnot := List.find?_eq_none.mp hfind p hp
    simp [hactive, his] at hnot
  | some q =>
    have hq := List.find?_some hfind
    rw [Bool.and_eq_true] at hq
    rw [hone q (List.mem_of_find?_eq_some hfind) hq.2]

/-- A post that is found is an active post of the store. -/
theorem of_findActive {is : Post → Bool} {p : Post} (h : server.findActive is = some p) :
    p ∈ server.store.all ∧ p.isActive = true ∧ is p = true := by
  have hp := List.find?_some h
  rw [Bool.and_eq_true] at hp
  exact ⟨List.mem_of_find?_eq_some h, hp.1, hp.2⟩

/-- Identifiers have different texts. -/
private theorem objectIdText_injective (server : TrendingServer) :
    Function.Injective server.objectIdText := by
  intro a b h
  have hparse := congrArg server.parseObjectId h
  rw [server.parseObjectId_text, server.parseObjectId_text] at hparse
  exact Option.some.inj hparse

/-- A post is determined by its internal identifier. -/
theorem eq_of_id_eq {p q : Post} (hp : p ∈ server.store.all) (hq : q ∈ server.store.all)
    (h : p.id = q.id) : p = q :=
  List.inj_on_of_nodup_map server.store.nodup_ids hp hq h

/-- A post is determined by its public identifier. -/
theorem eq_of_publicId_eq {p q : Post} (hp : p ∈ server.store.all) (hq : q ∈ server.store.all)
    (h : p.publicId = q.publicId) : p = q :=
  List.inj_on_of_nodup_map server.store.nodup_publicIds hp hq h

/-- The groups are made of active posts of the store. -/
theorem trendingGroups_active {p : Post} (h : p ∈ server.trendingGroups) :
    p ∈ server.store.all ∧ p.isActive = true := by
  have hgroup := firstOfGroups_sublist.subset
    (Keyset.mem_sortDesc.mp (List.mem_of_mem_take h))
  obtain ⟨hstore, hp⟩ := List.mem_filter.mp (Keyset.mem_sortDesc.mp hgroup)
  rw [Bool.and_eq_true] at hp
  exact ⟨hstore, hp.1⟩

/-- A ranking shows no group twice. -/
theorem nodup_trendingGroups : (server.trendingGroups.map Post.visibleIdentityId).Nodup := by
  have hgroups := @nodup_firstOfGroups _ _ _ Post.visibleIdentityId
    (Keyset.sortDesc server.trendKey
      (server.store.all.filter fun p => p.isActive && server.isTrending p))
  have hperm := List.perm_insertionSort (fun p q => server.trendKey q ≤ server.trendKey p)
    (firstOfGroups Post.visibleIdentityId (Keyset.sortDesc server.trendKey
      (server.store.all.filter fun p => p.isActive && server.isTrending p)))
  exact ((hperm.map _).nodup_iff.mpr hgroups).sublist ((List.take_sublist _ _).map _)

/-- The snapshot of the ranking, if there is one. -/
def ranking (server : TrendingServer) : Option FeedCursorSnapshot :=
  server.createSnapshot (server.buildScoreSnapshot server.trendingGroups)

/-- The snapshot of the scored posts holds each group once. -/
theorem ranking_eq_some (h : server.ranking = some snapshot) :
    snapshot.source = .mongo ∧ snapshot.entries = server.trendingGroups.map server.scoreEntry ∧
      (snapshot.entries.map (·.id)).Nodup := by
  obtain ⟨hbuild, haccepts⟩ := Option.filter_eq_some_iff.mp h
  have hnodup := (Bool.and_eq_true_iff.mp haccepts).1
  unfold assertFeedCursorSnapshot at hnodup
  simp only [Bool.and_eq_true, decide_eq_true_iff] at hnodup
  unfold buildScoreSnapshot at hbuild
  split at hbuild
  · cases hbuild
  · rw [← Option.some.inj hbuild] at hnodup ⊢
    exact ⟨rfl, rfl, hnodup.1.1.2⟩

/-- An active post is found by the text of its identifier. -/
private theorem findActive_id {p : Post} (h : p ∈ server.store.all ∧ p.isActive = true) :
    (server.findActive fun q => server.objectIdText q.id == server.objectIdText p.id) = some p := by
  refine findActive_eq h.1 h.2 (beq_self_eq_true (server.objectIdText p.id)) ?_
  intro q hq hid
  exact eq_of_id_eq hq h.1 (server.objectIdText_injective (eq_of_beq hid))

/-- All entries of a ranking have their posts. -/
theorem mongoRows_eq (h : server.ranking = some snapshot) :
    server.mongoRows snapshot = server.trendingGroups.map some := by
  unfold mongoRows
  rw [(ranking_eq_some h).2.1, List.map_map]
  apply List.map_congr_left
  intro p hp
  exact findActive_id (trendingGroups_active hp)

/-- A page of the scored posts is a page of its rows. -/
theorem mongoPage_eq (h : server.ranking = some snapshot) (hlimit : 1 ≤ limit)
    (hoffset : offset ≤ snapshot.entries.length) : server.mongoPage offset limit =
      server.snapshotPage snapshot (server.mongoRows snapshot) .mongo offset limit := by
  obtain ⟨-, hentries, hnodup⟩ := ranking_eq_some h
  have hall : ∀ entry ∈ snapshot.entries, server.isStored entry.id = true := by
    rw [hentries]
    intro entry hentry
    obtain ⟨p, hp, rfl⟩ := List.mem_map.mp hentry
    obtain ⟨hstore, hactive⟩ := trendingGroups_active hp
    refine List.any_eq_true.mpr ⟨p, hstore, ?_⟩
    rw [hactive, Bool.true_and]
    exact beq_self_eq_true _
  have hpage := readScoreSnapshotPage_all hnodup hall hlimit hoffset
  have hposts : ∀ entries : List FeedCursorSnapshotEntry,
      ((entries.map showEntry).filterMap fun shown =>
        server.findActive fun p => server.objectIdText p.id == shown.id) =
      (entries.map fun entry =>
        server.findActive fun p => server.objectIdText p.id == entry.id).reduceOption := by
    intro entries
    unfold List.reduceOption
    rw [List.filterMap_map, List.filterMap_map]
    rfl
  unfold mongoPage
  rw [show server.createSnapshot _ = some snapshot from h, Option.bind_some]
  simp only [hpage, hposts]
  have hlen : ((server.mongoRows snapshot).drop offset).length =
      (snapshot.entries.drop offset).length := by
    unfold mongoRows
    rw [List.length_drop, List.length_drop, List.length_map]
  have hend : offset + (snapshot.entries.drop offset).length =
      (server.mongoRows snapshot).length := by
    unfold mongoRows
    rw [List.length_drop, List.length_map]
    omega
  unfold snapshotPage
  rw [hlen]
  by_cases hmore : limit < (snapshot.entries.drop offset).length
  · rw [if_pos (decide_eq_true hmore), if_pos hmore, List.length_take, Nat.min_eq_left hmore.le]
    unfold mongoRows
    rw [← List.map_drop, ← List.map_take]
  · rw [if_neg (by simpa using hmore), if_neg hmore, List.take_of_length_le (not_lt.mp hmore), hend]
    unfold mongoRows
    rw [← List.map_drop]

end Sources

end TrendingServer

end Ascendance.Feed
