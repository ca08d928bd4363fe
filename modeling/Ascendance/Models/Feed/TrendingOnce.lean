import Ascendance.Models.Feed.TrendingWalk

/-!
# Every visible identity once

A walk over the trending feed shows the posts of a snapshot and then the new feed without
what the snapshot excludes. Every identity comes once when the snapshot excludes the
identities that it shows, and no others that active posts have.
-/

namespace Ascendance.Feed

open Ascendance.Core

/-- Every visible identity of an active post is shown, and none twice. -/
def ShowsEachOnce (store shown : List Post) : Prop :=
  (shown.map Post.visibleIdentityId).Nodup ∧
    ∀ p ∈ store, p.isActive = true → p.visibleIdentityId ∈ shown.map Post.visibleIdentityId

/-- Posts and the rest of the new feed show every identity once when the exclusions are the
identities of the posts, as far as active posts have them. -/
theorem showsEachOnce_iff {store : Posts} {posts : List Post} {seen : List ℕ}
    (hposts : ∀ p ∈ posts, p ∈ store.all ∧ p.isActive = true) :
    ShowsEachOnce store.all (posts ++ newFeed store.all seen) ↔
      (posts.map Post.visibleIdentityId).Nodup ∧
      (∀ p ∈ posts, p.visibleIdentityId ∈ seen) ∧
      ∀ p ∈ store.all, p.isActive = true → p.visibleIdentityId ∈ seen →
        p.visibleIdentityId ∈ posts.map Post.visibleIdentityId := by
  have hfeed : ∀ id, id ∈ (newFeed store.all seen).map Post.visibleIdentityId → id ∉ seen := by
    intro id hid
    obtain ⟨q, hq, rfl⟩ := List.mem_map.mp hid
    exact (mem_newFeed.mp hq).2.2.1
  have hcovers : ∀ p ∈ store.all, p.isActive = true → p.visibleIdentityId ∉ seen →
      p.visibleIdentityId ∈ (newFeed store.all seen).map Post.visibleIdentityId := by
    intro p hp hactive hseen
    obtain ⟨newest, hnewest, hsame⟩ := exists_newest hp hactive hseen
    exact List.mem_map.mpr ⟨newest, hnewest, hsame⟩
  unfold ShowsEachOnce
  rw [List.map_append, List.nodup_append']
  constructor
  · rintro ⟨⟨hnodup, -, hdisjoint⟩, hall⟩
    refine ⟨hnodup, ?_, ?_⟩
    · intro p hp
      by_contra hseen
      obtain ⟨hstore, hactive⟩ := hposts p hp
      exact hdisjoint (List.mem_map_of_mem hp) (hcovers p hstore hactive hseen)
    · intro p hp hactive hseen
      rcases List.mem_append.mp (hall p hp hactive) with hshown | hnew
      · exact hshown
      · exact absurd hseen (hfeed _ hnew)
  · rintro ⟨hnodup, hexcluded, hmissing⟩
    refine ⟨⟨hnodup, nodup_identities store.nodup_ids, ?_⟩, ?_⟩
    · intro id hid hnew
      obtain ⟨p, hp, rfl⟩ := List.mem_map.mp hid
      exact hfeed _ hnew (hexcluded p hp)
    · intro p hp hactive
      rw [List.mem_append]
      by_cases hseen : p.visibleIdentityId ∈ seen
      · exact .inl (hmissing p hp hactive hseen)
      · exact .inr (hcovers p hp hactive hseen)

namespace TrendingServer

variable (server : TrendingServer)

/-- The post that is excluded for a shown post. -/
def visiblePost (p : Post) : Post := (server.projectedRepostOf p).getD p

/-- Walks over the feed reach its end, and every one shows every visible identity once. -/
def EachOnce (limit : ℕ) : Prop :=
  (∃ pages, Keyset.Walk (server.read limit) 0 none pages) ∧
    ∀ pages, Keyset.Walk (server.read limit) 0 none pages →
      ShowsEachOnce server.store.all (pages.flatMap (·.data))

/-- The active posts among the members of the sorted set. -/
def memberPosts (items : List (String × Rat)) : List Post :=
  server.findPostsByPublicIds (items.map (·.1))

/-- The members show no identity twice. Those that repost an active post are the plain ones
among the reposts. -/
def MembersMeet (items : List (String × Rat)) : Prop :=
  ((server.memberPosts items).map Post.visibleIdentityId).Nodup ∧
    ∀ p ∈ server.memberPosts items, ∀ original, p.repostOf = some original →
      (p.isBare = true ↔ ∃ q ∈ server.store.all, q.isActive = true ∧ q.id = original)

/-- The posts on the last page of the ranking. -/
def lastRanked (limit : ℕ) : List Post :=
  server.trendingGroups.drop (lastOffset server.trendingGroups.length limit)

/-- What the last page of the ranking excludes. -/
def rankingExclusions (limit : ℕ) : List ℕ :=
  server.trendingGroups.map Post.visibleIdentityId ++
    server.findInternalIdsByPublicIds ((server.lastRanked limit).map server.visiblePublicId)

/-- The ranking and its exclusions fit into snapshots, and what active posts show of the posts
that its last page excludes is in the ranking. -/
def RankingMeets (limit : ℕ) : Prop :=
  server.ranking.isSome = true ∧
    (server.rankingExclusions limit).dedup.length ≤ MAX_FEED_CURSOR_SNAPSHOT_ITEMS ∧
    ∀ p ∈ server.lastRanked limit, ∀ q ∈ server.store.all, q.isActive = true →
      q.visibleIdentityId = (server.visiblePost p).id →
      q.visibleIdentityId ∈ server.trendingGroups.map Post.visibleIdentityId

/-- What a trending source has to be. -/
def SourceMeets (limit : ℕ) : Prop :=
  match server.trendingPosts with
  | none => server.RankingMeets limit
  | some [] => (server.createSnapshot (buildRedisSnapshot [])).isSome = true ∧
      server.RankingMeets limit
  | some (item :: items) =>
    (server.createSnapshot (buildRedisSnapshot (item :: items))).isSome = true ∧
      server.MembersMeet (item :: items)

/-- Reposts are made of posts that are there. -/
def RepostsLater (store : List Post) : Prop :=
  ∃ made : ℕ → ℕ, ∀ p ∈ store, ∀ original, p.repostOf = some original → made original < made p.id

section Exclusions

variable {server} {limit : ℕ} {p q : Post}

/-- Each post is shown once when the list that is shown has each once. -/
private theorem eachOnce_iff {posts : List Post} (h : server.Shows limit 0 none posts) :
    server.EachOnce limit ↔ ShowsEachOnce server.store.all posts := by
  obtain ⟨⟨pages, hpages⟩, hall⟩ := h
  constructor
  · rintro ⟨-, honce⟩
    rw [← hall pages hpages]
    exact honce pages hpages
  · intro honce
    refine ⟨⟨pages, hpages⟩, fun pages hpages => ?_⟩
    rwa [hall pages hpages]

private theorem not_eachOnce (h : server.getTrendingFeed limit none = none) :
    ¬ server.EachOnce limit := by
  rintro ⟨⟨pages, hpages⟩, -⟩
  cases hpages with
  | last hp _ => cases h.symm.trans hp
  | more hp _ _ => cases h.symm.trans hp

/-- The original that is shown in place of a repost is active. -/
private theorem projectedRepostOf_eq_some : server.projectedRepostOf p = some q ↔
    p.repostOf = some q.id ∧ q ∈ server.store.all ∧ q.isActive = true := by
  unfold projectedRepostOf
  constructor
  · intro h
    obtain ⟨original, hrepost, hfind⟩ := Option.bind_eq_some_iff.mp h
    obtain ⟨hq, hactive, hid⟩ := of_findActive hfind
    rw [hrepost, eq_of_beq hid]
    exact ⟨rfl, hq, hactive⟩
  · rintro ⟨hrepost, hq, hactive⟩
    rw [hrepost, Option.bind_some]
    refine findActive_eq hq hactive (beq_self_eq_true q.id) fun r hr hid => ?_
    exact eq_of_id_eq hr hq (eq_of_beq hid)

/-- The excluded post is the reposted one, if it is active, and else the shown one. -/
theorem visiblePost_cases (server : TrendingServer) (p : Post) :
    (∃ q ∈ server.store.all, q.isActive = true ∧ p.repostOf = some q.id ∧
      server.visiblePost p = q) ∨
    (∀ q ∈ server.store.all, q.isActive = true → p.repostOf ≠ some q.id) ∧
      server.visiblePost p = p := by
  unfold visiblePost
  cases h : server.projectedRepostOf p with
  | none =>
    refine .inr ⟨fun q hq hactive hrepost => ?_, rfl⟩
    have hsome := projectedRepostOf_eq_some.mpr ⟨hrepost, hq, hactive⟩
    cases h.symm.trans hsome
  | some q =>
    obtain ⟨hrepost, hq, hactive⟩ := projectedRepostOf_eq_some.mp h
    exact .inl ⟨q, hq, hactive, hrepost, rfl⟩

/-- What is shown of an active post is active. -/
private theorem visiblePost_active (h : p ∈ server.store.all ∧ p.isActive = true) :
    server.visiblePost p ∈ server.store.all ∧ (server.visiblePost p).isActive = true := by
  rcases visiblePost_cases server p with ⟨q, hq, hactive, -, heq⟩ | ⟨-, heq⟩
  · rw [heq]
    exact ⟨hq, hactive⟩
  · rwa [heq]

private theorem visiblePublicId_eq (p : Post) :
    server.visiblePublicId p = (server.visiblePost p).publicId := by
  unfold visiblePublicId visiblePost
  cases server.projectedRepostOf p <;> rfl

/-- The identifiers found are those of the posts shown. -/
private theorem mem_findInternalIds {posts : List Post}
    (hposts : ∀ p ∈ posts, p ∈ server.store.all ∧ p.isActive = true) {id : ℕ} :
    id ∈ server.findInternalIdsByPublicIds (posts.map server.visiblePublicId) ↔
      ∃ p ∈ posts, (server.visiblePost p).id = id := by
  unfold findInternalIdsByPublicIds
  rw [List.mem_map]
  simp only [List.mem_filter, Bool.and_eq_true, decide_eq_true_iff]
  constructor
  · rintro ⟨q, ⟨hq, -, hpublic⟩, rfl⟩
    obtain ⟨p, hp, hsame⟩ := List.mem_map.mp hpublic
    rw [visiblePublicId_eq] at hsame
    exact ⟨p, hp,
      congrArg Post.id (eq_of_publicId_eq (visiblePost_active (hposts p hp)).1 hq hsame)⟩
  · rintro ⟨p, hp, rfl⟩
    obtain ⟨hstore, hactive⟩ := visiblePost_active (hposts p hp)
    refine ⟨_, ⟨hstore, hactive, ?_⟩, rfl⟩
    rw [← visiblePublicId_eq]
    exact List.mem_map_of_mem hp

end Exclusions

section Members

variable {server} {limit : ℕ} {items : List (String × Rat)} {snapshot : FeedCursorSnapshot}

/-- The posts of the sorted set that are shown are active. -/
private theorem memberPosts_active {p : Post} (h : p ∈ server.memberPosts items) :
    p ∈ server.store.all ∧ p.isActive = true := by
  obtain ⟨publicId, -, hfind⟩ := List.mem_filterMap.mp h
  obtain ⟨hp, hactive, -⟩ := of_findActive hfind
  exact ⟨hp, hactive⟩

/-- A snapshot of the sorted set has its members in order. -/
private theorem createSnapshot_redis
    (h : server.createSnapshot (buildRedisSnapshot items) = some snapshot) :
    snapshot.source = .redis ∧ snapshot.entries.map (·.publicId) = items.map (·.1) ∧
      items.length ≤ MAX_FEED_CURSOR_SNAPSHOT_ITEMS := by
  obtain ⟨hbuild, -⟩ := Option.filter_eq_some_iff.mp h
  unfold buildRedisSnapshot at hbuild
  split at hbuild
  · cases hbuild
  · next hle =>
    rw [← Option.some.inj hbuild]
    refine ⟨rfl, ?_, not_lt.mp hle⟩
    rw [List.map_map]
    rfl

/-- The rows of the snapshot are the posts of its members. -/
private theorem reduceOption_redisRows
    (h : server.createSnapshot (buildRedisSnapshot items) = some snapshot) :
    (server.redisRows snapshot).reduceOption = server.memberPosts items := by
  unfold redisRows memberPosts
  rw [← findPostsByPublicIds_eq, (createSnapshot_redis h).2.1]

/-- The last page excludes what is excluded for any member. -/
theorem mem_collect_redis (h : server.createSnapshot (buildRedisSnapshot items) = some snapshot)
    {current : List Post} (hcurrent : ∀ p ∈ current, p ∈ server.memberPosts items) {id : ℕ} :
    id ∈ server.collectVisibleInternalIds snapshot (server.redisRows snapshot).length current ↔
      ∃ p ∈ server.memberPosts items, (server.visiblePost p).id = id := by
  obtain ⟨hsource, hids, -⟩ := createSnapshot_redis h
  have hall : snapshot.entries.take (server.redisRows snapshot).length = snapshot.entries := by
    unfold redisRows
    rw [List.length_map, List.take_length]
  have hboth : ∀ p ∈ current ++ server.memberPosts items,
      p ∈ server.store.all ∧ p.isActive = true := by
    intro p hp
    rcases List.mem_append.mp hp with hp | hp
    · exact memberPosts_active (hcurrent p hp)
    · exact memberPosts_active hp
  unfold collectVisibleInternalIds
  simp only [hsource, hall, hids]
  rw [← List.map_append]
  change id ∈ server.findInternalIdsByPublicIds
    ((current ++ server.memberPosts items).map server.visiblePublicId) ↔ _
  rw [mem_findInternalIds hboth]
  constructor
  · rintro ⟨p, hp, hid⟩
    rcases List.mem_append.mp hp with hp | hp
    · exact ⟨p, hcurrent p hp, hid⟩
    · exact ⟨p, hp, hid⟩
  · rintro ⟨p, hp, hid⟩
    exact ⟨p, List.mem_append_right _ hp, hid⟩

/-- The feed from the sorted set shows its posts and then the new feed without them. -/
private theorem shows_redis (hlimit : 1 ≤ limit) (hitems : server.trendingPosts = some items)
    (hne : items ≠ [])
    (h : server.createSnapshot (buildRedisSnapshot items) = some snapshot) :
    ∃ seen, (∀ id, id ∈ seen ↔ ∃ p ∈ server.memberPosts items, (server.visiblePost p).id = id) ∧
      server.Shows limit 0 none (server.memberPosts items ++ newFeed server.store.all seen) := by
  obtain ⟨-, hids, hle⟩ := createSnapshot_redis h
  have hlen : snapshot.entries.length = items.length := by
    have := congrArg List.length hids
    rwa [List.length_map, List.length_map] at this
  have hpos : 0 < snapshot.entries.length := by
    rw [hlen]
    exact List.length_pos_of_ne_nil hne
  have hrows : (server.redisRows snapshot).length = snapshot.entries.length := List.length_map ..
  have hread : ∀ offset, server.getTrendingFeed limit (some (.redis offset)) =
      server.redisPage snapshot offset limit := by
    intro offset
    change server.trendingPosts.bind _ = _
    rw [hitems, Option.bind_some, h, Option.bind_some]
  have hfirst : server.getTrendingFeed limit none = server.redisPage snapshot 0 limit := by
    have hsome : snapshot.entries.isEmpty = false := by
      rw [← Bool.not_eq_true, List.isEmpty_iff_length_eq_zero]
      omega
    unfold getTrendingFeed
    simp only [hitems, h, Option.bind_some, hsome]
    rfl
  let current := ((server.redisRows snapshot).drop
    (lastOffset (server.redisRows snapshot).length limit)).reduceOption
  have hcurrent : ∀ p ∈ current, p ∈ server.memberPosts items := by
    intro p hp
    rw [← reduceOption_redisRows h, List.reduceOption_mem_iff]
    exact List.mem_of_mem_drop (List.reduceOption_mem_iff.mp hp)
  have hseen := fun id => @mem_collect_redis server items snapshot h current hcurrent id
  refine ⟨_, hseen, ?_⟩
  rw [← reduceOption_redisRows h]
  refine @shows_snapshot server limit snapshot _ .redis hlimit ?_ _ ?_ _ rfl ?_ ?_
  · intro offset hoffset
    rw [hread, redisPage_eq hlimit (by omega)]
  · rw [hfirst, redisPage_eq hlimit hpos]
  · intro hshown hnil
    obtain ⟨p, hp⟩ := List.exists_mem_of_ne_nil _ hshown
    have hid := (hseen _).mpr ⟨p, hcurrent p hp, rfl⟩
    rw [hnil] at hid
    cases hid
  · have hsub : (server.collectVisibleInternalIds snapshot (server.redisRows snapshot).length
        current).dedup ⊆ (server.memberPosts items).map fun p => (server.visiblePost p).id := by
      intro id hid
      exact List.mem_map.mpr ((hseen id).mp (List.mem_dedup.mp hid))
    have hcount := (List.subperm_of_subset (List.nodup_dedup _) hsub).length_le
    rw [List.length_map] at hcount
    have hmembers : (server.memberPosts items).length ≤ items.length := by
      have := List.length_filterMap_le
        (fun publicId => server.findActive fun p => p.publicId == publicId) (items.map (·.1))
      rwa [List.length_map] at this
    exact hcount.trans (hmembers.trans hle)

/-- With members that meet the condition, the excluded identities are the shown ones. -/
theorem MembersMeet.excludes (h : server.MembersMeet items) {p : Post}
    (hp : p ∈ server.memberPosts items) : (server.visiblePost p).id = p.visibleIdentityId := by
  unfold Post.visibleIdentityId
  rcases visiblePost_cases server p with ⟨q, hq, hactive, hrepost, heq⟩ | ⟨hnone, heq⟩
  · rw [heq, if_pos ((h.2 p hp _ hrepost).mpr ⟨q, hq, hactive, rfl⟩), hrepost, Option.getD_some]
  · rw [heq]
    by_cases hbare : p.isBare = true
    · cases hrepost : p.repostOf with
      | none => rw [if_pos hbare, Option.getD_none]
      | some original =>
        obtain ⟨q, hq, hactive, rfl⟩ := (h.2 p hp original hrepost).mp hbare
        exact absurd hrepost (hnone q hq hactive)
    · rw [if_neg hbare]

/-- The identity of a plain repost is excluded by a post that shows it, so the reposted post is
active. -/
theorem reposted_active {seen : List ℕ}
    (hseen : ∀ id, id ∈ seen ↔ ∃ p ∈ server.memberPosts items, (server.visiblePost p).id = id)
    {p : Post} {original : ℕ} (hbare : p.isBare = true) (hrepost : p.repostOf = some original)
    (hexcluded : p.visibleIdentityId ∈ seen) :
    ∃ q ∈ server.store.all, q.isActive = true ∧ q.id = original := by
  obtain ⟨shown, hshown, hid⟩ := (hseen _).mp hexcluded
  obtain ⟨hstore, hactive⟩ := visiblePost_active (memberPosts_active hshown)
  refine ⟨_, hstore, hactive, hid.trans ?_⟩
  unfold Post.visibleIdentityId
  rw [if_pos hbare, hrepost, Option.getD_some]

/-- When the excluded identities hold the shown ones, no member quotes an active post: the
newest of such members would be excluded by a repost of it, which shows its identity again. -/
theorem no_quote {seen : List ℕ} (hlater : RepostsLater server.store.all)
    (hnodup : ((server.memberPosts items).map Post.visibleIdentityId).Nodup)
    (hseen : ∀ id, id ∈ seen ↔ ∃ p ∈ server.memberPosts items, (server.visiblePost p).id = id)
    (hexcluded : ∀ p ∈ server.memberPosts items, p.visibleIdentityId ∈ seen) :
    ∀ p ∈ server.memberPosts items, ∀ q ∈ server.store.all, q.isActive = true →
      p.repostOf = some q.id → p.isBare = true := by
  obtain ⟨made, hmade⟩ := hlater
  by_contra hquote
  push Not at hquote
  obtain ⟨p₀, hp₀, q₀, hq₀, hactive₀, hrepost₀, hbare₀⟩ := hquote
  let quotes := (server.memberPosts items).toFinset.filter fun p =>
    p.isBare ≠ true ∧ ∃ q ∈ server.store.all, q.isActive = true ∧ p.repostOf = some q.id
  have hne : quotes.Nonempty := ⟨p₀, Finset.mem_filter.mpr
    ⟨List.mem_toFinset.mpr hp₀, hbare₀, q₀, hq₀, hactive₀, hrepost₀⟩⟩
  obtain ⟨p, hp, hmax⟩ := quotes.exists_max_image (fun p => made p.id) hne
  obtain ⟨hmem, hbare, q, hq, hactive, hrepost⟩ := Finset.mem_filter.mp hp
  rw [List.mem_toFinset] at hmem
  obtain ⟨hstore, hpactive⟩ := memberPosts_active hmem
  have hidentity : p.visibleIdentityId = p.id := if_neg hbare
  obtain ⟨r, hr, hid⟩ := (hseen _).mp (hexcluded p hmem)
  rw [hidentity] at hid
  obtain ⟨hrstore, hractive⟩ := memberPosts_active hr
  have hrp : r.repostOf = some p.id := by
    rcases visiblePost_cases server r with ⟨o, ho, -, hro, heq⟩ | ⟨hnone, heq⟩
    · rw [hro, ← hid, heq]
    · rw [heq] at hid
      rw [eq_of_id_eq hrstore hstore hid] at hnone
      exact absurd hrepost (hnone q hq hactive)
  have hlt := hmade r hrstore _ hrp
  have hrbare : r.isBare = true := by
    by_contra hrbare
    have hrquote : r ∈ quotes := Finset.mem_filter.mpr
      ⟨List.mem_toFinset.mpr hr, hrbare, p, hstore, hpactive, hrp⟩
    exact absurd (hmax r hrquote) (not_le.mpr hlt)
  have hsame : r.visibleIdentityId = p.visibleIdentityId := by
    rw [hidentity]
    unfold Post.visibleIdentityId
    rw [if_pos hrbare, hrp, Option.getD_some]
  rw [List.inj_on_of_nodup_map hnodup hr hmem hsame] at hlt
  exact absurd hlt (lt_irrefl _)

/-- Each post is shown once when the members meet the condition. -/
private theorem eachOnce_of_members (hlimit : 1 ≤ limit)
    (hitems : server.trendingPosts = some items)
    (hne : items ≠ [])
    (h : server.createSnapshot (buildRedisSnapshot items) = some snapshot)
    (hmeets : server.MembersMeet items) : server.EachOnce limit := by
  obtain ⟨seen, hseen, hshows⟩ := shows_redis hlimit hitems hne h
  rw [eachOnce_iff hshows, showsEachOnce_iff fun p hp => memberPosts_active hp]
  refine ⟨hmeets.1, ?_, ?_⟩
  · intro p hp
    exact (hseen p.visibleIdentityId).mpr ⟨p, hp, hmeets.excludes hp⟩
  · intro q _ _ hq
    obtain ⟨p, hp, hid⟩ := (hseen q.visibleIdentityId).mp hq
    rw [← hid, hmeets.excludes hp]
    exact List.mem_map_of_mem hp

/-- The members meet the condition when each post is shown once. -/
private theorem members_of_eachOnce (hlimit : 1 ≤ limit) (hlater : RepostsLater server.store.all)
    (hitems : server.trendingPosts = some items) (hne : items ≠ [])
    (h : server.createSnapshot (buildRedisSnapshot items) = some snapshot)
    (honce : server.EachOnce limit) : server.MembersMeet items := by
  obtain ⟨seen, hseen, hshows⟩ := shows_redis hlimit hitems hne h
  rw [eachOnce_iff hshows, showsEachOnce_iff fun p hp => memberPosts_active hp] at honce
  obtain ⟨hnodup, hexcluded, -⟩ := honce
  refine ⟨hnodup, fun p hp original hrepost => ⟨fun hbare => ?_, ?_⟩⟩
  · exact reposted_active hseen hbare hrepost (hexcluded p hp)
  · rintro ⟨q, hq, hactive, rfl⟩
    exact no_quote hlater hnodup hseen hexcluded p hp q hq hactive hrepost

end Members

section Ranking

variable {server} {limit : ℕ} {snapshot : FeedCursorSnapshot}

/-- The last ranked posts are active. -/
private theorem lastRanked_active {p : Post} (h : p ∈ server.lastRanked limit) :
    p ∈ server.store.all ∧ p.isActive = true :=
  trendingGroups_active (List.mem_of_mem_drop h)

/-- What the new feed leaves out after the ranking. -/
private theorem mem_rankingExclusions {id : ℕ} : id ∈ server.rankingExclusions limit ↔
    id ∈ server.trendingGroups.map Post.visibleIdentityId ∨
      ∃ p ∈ server.lastRanked limit, (server.visiblePost p).id = id := by
  unfold rankingExclusions
  rw [List.mem_append, mem_findInternalIds fun p hp => lastRanked_active hp]

private theorem reduceOption_some (posts : List Post) : (posts.map some).reduceOption = posts := by
  unfold List.reduceOption
  rw [List.filterMap_map]
  exact List.filterMap_some

/-- The exclusions collected at the end of a ranking are those of its groups and of its last
page. -/
private theorem collect_ranking (h : server.ranking = some snapshot) :
    server.collectVisibleInternalIds snapshot (server.mongoRows snapshot).length
      ((server.mongoRows snapshot).drop
        (lastOffset (server.mongoRows snapshot).length limit)).reduceOption =
      server.rankingExclusions limit := by
  obtain ⟨hsource, hentries, -⟩ := ranking_eq_some h
  have hlast : ((server.mongoRows snapshot).drop
      (lastOffset (server.mongoRows snapshot).length limit)).reduceOption =
        server.lastRanked limit := by
    rw [mongoRows_eq h, List.length_map, ← List.map_drop]
    exact reduceOption_some _
  have hall : snapshot.entries.take (server.mongoRows snapshot).length = snapshot.entries := by
    unfold mongoRows
    rw [List.length_map, List.take_length]
  rw [hlast]
  unfold collectVisibleInternalIds rankingExclusions
  simp only [hsource, hall]
  congr 1
  rw [hentries, List.filterMap_map]
  have hid : ∀ p : Post, server.parseObjectId (server.scoreEntry p).visibleIdentityId =
      some p.visibleIdentityId := fun p => server.parseObjectId_text p.visibleIdentityId
  rw [← List.filterMap_eq_map]
  exact List.filterMap_congr fun p _ => hid p

/-- Without a sorted set each post is shown once exactly when the ranking meets its condition. -/
private theorem eachOnce_ranking (hlimit : 1 ≤ limit)
    (hfirst : server.getTrendingFeed limit none = server.mongoPage 0 limit) :
    server.EachOnce limit ↔ server.RankingMeets limit := by
  cases h : server.ranking with
  | none =>
    have hnone : server.getTrendingFeed limit none = none := by
      rw [hfirst]
      unfold mongoPage
      rw [show server.createSnapshot _ = none from h, Option.bind_none]
    refine iff_of_false (not_eachOnce hnone) ?_
    rintro ⟨hsome, -⟩
    rw [h] at hsome
    cases hsome
  | some snapshot =>
    have hlen : (server.mongoRows snapshot).length = snapshot.entries.length := List.length_map ..
    have hpage : ∀ offset < (server.mongoRows snapshot).length,
        server.getTrendingFeed limit (some (.mongo offset)) =
          server.snapshotPage snapshot (server.mongoRows snapshot) .mongo offset limit := by
      intro offset hoffset
      exact mongoPage_eq h hlimit (by omega)
    rw [mongoPage_eq h hlimit (Nat.zero_le _)] at hfirst
    have hseen := @collect_ranking server limit snapshot h
    by_cases hfits : (server.rankingExclusions limit).dedup.length ≤ MAX_FEED_CURSOR_SNAPSHOT_ITEMS
    · have hshows := shows_snapshot hlimit hpage hfirst hseen (fun hne hnil => ?_) hfits
      · rw [mongoRows_eq h, reduceOption_some] at hshows
        rw [eachOnce_iff hshows, showsEachOnce_iff fun p hp => trendingGroups_active hp]
        unfold RankingMeets
        simp only [mem_rankingExclusions, h]
        constructor
        · rintro ⟨-, -, hmissing⟩
          exact ⟨rfl, hfits, fun p hp q hq hactive hid =>
            hmissing q hq hactive (.inr ⟨p, hp, hid.symm⟩)⟩
        · rintro ⟨-, -, hlast⟩
          refine ⟨nodup_trendingGroups, fun p hp => .inl (List.mem_map_of_mem hp), ?_⟩
          rintro q hq hactive (hid | ⟨p, hp, hid⟩)
          · exact hid
          · exact hlast p hp q hq hactive hid.symm
      · obtain ⟨hgroups, -⟩ := List.append_eq_nil_iff.mp hnil
        rw [mongoRows_eq h, List.map_eq_nil_iff.mp hgroups] at hne
        exact hne (by simp)
    · refine iff_of_false (fun honce => hfits ?_) (fun hmeets => hfits hmeets.2.1)
      exact fits_of_walk hlimit hpage hfirst hseen honce.1

end Ranking

section End

variable {server} {limit : ℕ}

/-- A page has more exactly when it has a next cursor. -/
private theorem hasMore_newFeed {store : Posts} {exclusions : String → Option (List ℕ)}
    (hlimit : 1 ≤ limit) {cursor : Option NewCursor} {page : CursorPage Post NewCursor}
    (h : getNewFeedWithCursor store.all exclusions limit cursor .forward = some page) :
    page.hasMore = page.nextCursor.isSome := by
  have hexcluded : ∃ excluded, page = newFeedPage store.all limit cursor .forward excluded := by
    unfold getNewFeedWithCursor at h
    split at h
    · exact ⟨[], (Option.some.inj h).symm⟩
    · obtain ⟨excluded, -, hpage⟩ := Option.map_eq_some_iff.mp h
      exact ⟨excluded, hpage.symm⟩
  obtain ⟨excluded, rfl⟩ := hexcluded
  rw [newFeedPage_forward store.nodup_ids]
  unfold CursorPage.mapCursor
  rcases Keyset.forwardPage_next Post.key (Keyset.window Post.key (anchorKey cursor)
    (newFeed store.all excluded)) hlimit with ⟨hmore, hnext, -⟩ | ⟨hmore, _, _, -, -, hnext⟩
  · rw [hmore, hnext]
    rfl
  · rw [hmore, hnext]
    rfl

/-- A completed page has more exactly when it has a next cursor. -/
private theorem hasMore_complete {snapshot : FeedCursorSnapshot} {current : List Post}
    {consumed : ℕ}
    {page : TrendingPage}
    (h : server.completeWithNewFeed snapshot current consumed limit = some page) :
    page.hasMore = page.nextCursor.isSome := by
  unfold completeWithNewFeed at h
  simp only at h
  split at h
  · cases h
  split at h
  · next hneeded =>
    obtain ⟨backfill, hread, rfl⟩ := Option.map_eq_some_iff.mp h
    rw [hasMore_newFeed hneeded hread, Option.isSome_map]
  · obtain ⟨peek, -, hpeek⟩ := Option.bind_eq_some_iff.mp h
    split at hpeek
    · rw [← Option.some.inj hpeek]
      rfl
    · obtain ⟨cursor, -, rfl⟩ := Option.map_eq_some_iff.mp hpeek
      rfl

/-- A page has a next cursor when it has more, so a walk ends at the page that has no more. -/
theorem hasMore_eq (hlimit : 1 ≤ limit) {cursor : Option TrendingCursor} {page : TrendingPage}
    (h : server.getTrendingFeed limit cursor = some page) :
    page.hasMore = page.nextCursor.isSome := by
  have hredis : ∀ snapshot offset, server.redisPage snapshot offset limit = some page →
      page.hasMore = page.nextCursor.isSome := by
    intro snapshot offset hpage
    unfold redisPage at hpage
    simp only at hpage
    split at hpage
    · next hmore =>
      have hne :
          (((snapshot.entries.drop offset).take (limit + 1)).take limit).isEmpty = false := by
        rw [← Bool.not_eq_true, List.isEmpty_iff_length_eq_zero, List.length_take]
        omega
      rw [← Option.some.inj hpage, hne]
      rfl
    split at hpage
    · exact hasMore_complete hpage
    · exact hasMore_complete hpage
  have hmongo : ∀ offset, server.mongoPage offset limit = some page →
      page.hasMore = page.nextCursor.isSome := by
    intro offset hpage
    obtain ⟨snapshot, -, hpage⟩ := Option.bind_eq_some_iff.mp hpage
    simp only at hpage
    split at hpage
    · rw [← Option.some.inj hpage]
      rfl
    · exact hasMore_complete hpage
  unfold getTrendingFeed at h
  split at h
  · obtain ⟨result, hread, rfl⟩ := Option.map_eq_some_iff.mp h
    rw [hasMore_newFeed hlimit hread, Option.isSome_map]
  · exact hmongo _ h
  · obtain ⟨items, -, h⟩ := Option.bind_eq_some_iff.mp h
    obtain ⟨snapshot, -, h⟩ := Option.bind_eq_some_iff.mp h
    exact hredis _ _ h
  · split at h
    · exact hmongo _ h
    · obtain ⟨snapshot, -, h⟩ := Option.bind_eq_some_iff.mp h
      split at h
      · exact hmongo _ h
      · exact hredis _ _ h

end End

/-- Every page has a next cursor exactly when it has more. When the source meets the condition,
a walk from the first page to the end shows every visible identity of an active post once.
Where reposts are made of posts that are there, it does so in no other case. -/
theorem trendingOnce (server : TrendingServer) (limit : ℕ) (hlimit : 1 ≤ limit) :
    (∀ cursor page, server.getTrendingFeed limit cursor = some page →
      page.hasMore = page.nextCursor.isSome) ∧
    (server.SourceMeets limit → server.EachOnce limit) ∧
    (RepostsLater server.store.all → server.EachOnce limit → server.SourceMeets limit) := by
  refine ⟨fun cursor page h => hasMore_eq hlimit h, ?_⟩
  unfold SourceMeets
  cases hitems : server.trendingPosts with
  | none =>
    have hfirst : server.getTrendingFeed limit none = server.mongoPage 0 limit := by
      unfold getTrendingFeed
      simp only [hitems]
    have hiff := eachOnce_ranking hlimit hfirst
    exact ⟨hiff.mpr, fun _ => hiff.mp⟩
  | some items =>
    cases h : server.createSnapshot (buildRedisSnapshot items) with
    | none =>
      have hnone : server.getTrendingFeed limit none = none := by
        unfold getTrendingFeed
        simp only [hitems, h, Option.bind_none]
      refine ⟨fun hmeets => ?_, fun _ honce => absurd honce (not_eachOnce hnone)⟩
      have hsome : (server.createSnapshot (buildRedisSnapshot items)).isSome = true := by
        cases items <;> exact hmeets.1
      rw [h] at hsome
      cases hsome
    | some snapshot =>
      cases items with
      | nil =>
        have hempty : snapshot.entries.isEmpty = true := by
          rw [List.isEmpty_iff]
          exact List.map_eq_nil_iff.mp (createSnapshot_redis h).2.1
        have hfirst : server.getTrendingFeed limit none = server.mongoPage 0 limit := by
          unfold getTrendingFeed
          simp only [hitems, h, Option.bind_some, hempty, if_true]
        have hiff := eachOnce_ranking hlimit hfirst
        exact ⟨fun hmeets => hiff.mpr hmeets.2,
          fun _ honce => ⟨congrArg Option.isSome h, hiff.mp honce⟩⟩
      | cons item items =>
        have hne := List.cons_ne_nil item items
        exact ⟨fun hmeets => eachOnce_of_members hlimit hitems hne h hmeets.2,
          fun hlater honce => ⟨congrArg Option.isSome h,
            members_of_eachOnce hlimit hlater hitems hne h honce⟩⟩

/-- A list of numbers written in strokes, with a point after each. -/
def strokes (ids : List ℕ) : String :=
  String.ofList (ids.flatMap fun id => List.replicate id 'i' ++ ['.'])

/-- The numbers that a text of strokes and dots stands for. -/
def readStrokes : ℕ → List Char → List ℕ
  | _, [] => []
  | count, c :: rest => if c = '.' then count :: readStrokes 0 rest else
      readStrokes (count + 1) rest

private theorem readStrokes_replicate (count id : ℕ) (rest : List Char) :
    readStrokes count (List.replicate id 'i' ++ '.' :: rest) =
      (count + id) :: readStrokes 0 rest := by
  induction id generalizing count with
  | zero => rfl
  | succ id ih =>
    rw [List.replicate_succ, List.cons_append, readStrokes, if_neg (by decide), ih]
    congr 1
    omega

private theorem readStrokes_strokes (ids : List ℕ) : readStrokes 0 (strokes ids).toList = ids := by
  unfold strokes
  rw [String.toList_ofList]
  induction ids with
  | nil => rfl
  | cons id ids ih =>
    rw [List.flatMap_cons, List.append_assoc, List.singleton_append, readStrokes_replicate, ih,
      Nat.zero_add]

/-- A server with one member in its sorted set. -/
def oneMember (store : Posts) (member : String) : TrendingServer where
  platform := ⟨fun contextKey => contextKey, fun _ => 0⟩
  objectIdText := fun id => strokes [id]
  parseObjectId := fun text => (readStrokes 0 text.toList).head?
  parseObjectId_text := fun id => by rw [readStrokes_strokes]; rfl
  store := store
  trendingPosts := some [(member, 1)]
  isTrending := fun _ => true
  trendScore := fun _ => 1
  exclusionId := strokes
  exclusions := fun text => some (readStrokes 0 text.toList)
  exclusions_id := fun seen => ⟨seen, by rw [readStrokes_strokes], fun _ => Iff.rfl⟩

/-- An original, a plain repost of it and another original. -/
def repostedPosts : Posts where
  all := [originalPost 1 5, originalPost 2 6, plainRepost 3 7 1]
  nodup_ids := by decide
  nodup_publicIds := by decide +kernel

/-- A plain repost of a ranked post is shown once. -/
theorem trendingOnce_plainRepost : (oneMember repostedPosts "3").EachOnce 1 ∧
    (oneMember repostedPosts "3").SourceMeets 1 := by
  have hmembers : (oneMember repostedPosts "3").memberPosts [("3", 1)] = [plainRepost 3 7 1] := by
    decide +kernel
  have hmeets : (oneMember repostedPosts "3").SourceMeets 1 := by
    refine ⟨by decide +kernel, ?_⟩
    unfold MembersMeet
    rw [hmembers]
    refine ⟨by decide, fun p hp original hrepost => ?_⟩
    rw [List.mem_singleton.mp hp] at hrepost ⊢
    obtain rfl := Option.some.inj hrepost
    exact iff_of_true (by decide) ⟨originalPost 1 5, by decide +kernel, by decide +kernel, rfl⟩
  have hlater : RepostsLater repostedPosts.all := by
    refine ⟨id, ?_⟩
    decide +kernel
  obtain ⟨-, honce, hexact⟩ := trendingOnce (oneMember repostedPosts "3") 1 (by decide)
  exact ⟨honce hmeets, hexact hlater (honce hmeets)⟩

/-- A repost with a text of its own. -/
def quoteRepost (id : ℕ) (createdAt : ℤ) (repostOf : ℕ) : Post :=
  { originalPost id createdAt with repostOf := some repostOf }

/-- An original and a quote of it. -/
def quotedPosts : Posts where
  all := [originalPost 1 5, quoteRepost 2 6 1]
  nodup_ids := by decide
  nodup_publicIds := by decide +kernel

/-- With the quote in the sorted set, the first page shows it twice and the original never. -/
theorem trendingOnce_quote : RepostsLater quotedPosts.all ∧
    ¬ (oneMember quotedPosts "2").EachOnce 2 := by
  constructor
  · refine ⟨id, ?_⟩
    decide +kernel
  · have hpage : (oneMember quotedPosts "2").getTrendingFeed 2 none =
        some
          { data := [quoteRepost 2 6 1, quoteRepost 2 6 1]
            hasMore := false
            nextCursor := none
            prevCursor := none } := by
      decide +kernel
    rw [eachOnce_iff (shows_last hpage rfl)]
    rintro ⟨hnodup, -⟩
    exact absurd hnodup (by decide)

end TrendingServer

end Ascendance.Feed
