import Ascendance.Models.Social.Membership

/-!
# Changes of memberships

Commands keep what holds of memberships on their snapshot and write the documents that a new
membership needs. A join of a community that is gone is the exception.
-/

namespace Ascendance.Social

open Ascendance.Core ContentCleanupService AccountLifecycleService Ledger

/-- New memberships write their community, and new entries of profiles their membership. -/
structure Joins (db after : Store) : Prop where
  member : ∀ community user, db.doc (.member community user) = none →
    after.doc (.member community user) ≠ none →
    after.doc (.community community) ≠ db.doc (.community community)
  listed : ∀ user (u : User) community, after.doc (.user user) = some u →
    community ∈ u.joinedCommunities →
    (∃ u' : User, db.doc (.user user) = some u' ∧ community ∈ u'.joinedCommunities) ∨
      after.doc (.member community user) ≠ db.doc (.member community user)

section Bodies

variable {db after : Store}

/-- Nobody joins. -/
structure Leaves (db after : Store) : Prop where
  member : ∀ community user, db.doc (.member community user) = none →
    after.doc (.member community user) = none
  listed : ∀ user (u : User), after.doc (.user user) = some u →
    ∃ u' : User, db.doc (.user user) = some u' ∧ u.joinedCommunities ⊆ u'.joinedCommunities

/-- Two changes that add no membership add none together. -/
theorem Leaves.trans {db' : Store} (h : Leaves db db') (h' : Leaves db' after) :
    Leaves db after where
  member := fun community user hnone => h'.member community user (h.member community user hnone)
  listed := fun user u hu => by
    obtain ⟨u', hu', hsub'⟩ := h'.listed user u hu
    obtain ⟨u'', hu'', hsub⟩ := h.listed user u' hu'
    exact ⟨u'', hu'', List.Subset.trans hsub' hsub⟩

/-- A change that leaves the membership fields the same adds no membership. -/
theorem leaves_of_same (h : membershipFields.Same db after) : Leaves db after where
  member := fun community user hnone => by rw [same_member h, hnone]
  listed := fun user u hu => by
    obtain ⟨u', hu', hsame⟩ := same_user h hu
    exact ⟨u', hu', hsame ▸ List.Subset.refl _⟩

/-- A change that adds no membership adds none outside its list. -/
theorem Leaves.joins (h : Leaves db after) : Joins db after where
  member := fun community user hnone hstored => absurd (h.member community user hnone) hstored
  listed := fun user u community hu hlist => by
    obtain ⟨u', hu', hsub⟩ := h.listed user u hu
    exact .inl ⟨u', hu', hsub hlist⟩

/-- The profile of a user who joins lists the community once. -/
theorem nodup_pushJoinedCommunity {communityId : ℕ} {u : User} (h : u.joinedCommunities.Nodup)
    (hnot : communityId ∉ u.joinedCommunities) :
    (pushJoinedCommunity communityId u).joinedCommunities.Nodup :=
  (List.nodup_cons.mpr ⟨hnot, h⟩).sublist (List.take_sublist 10 _)

/-- A profile lists the new community and old ones. -/
private theorem mem_pushJoinedCommunity {communityId community : ℕ} {u : User}
    (h : community ∈ (pushJoinedCommunity communityId u).joinedCommunities) :
    community = communityId ∨ community ∈ u.joinedCommunities :=
  List.mem_cons.mp (List.mem_of_mem_take h)

/-- The users after an update of one. -/
private theorem doc_updateUser (db : Store) (id v : ℕ) (f : User → User) :
    (db.update (.user id) f).doc (.user v) =
      (db.doc (.user v)).map fun u : User => if v = id then f u else u := by
  rw [update_user, Database.doc_updateMany]
  rfl

/-- The memberships after an update of one. -/
private theorem doc_updateMember (db : Store) (community user c v : ℕ) (f : Member → Member) :
    (db.update (.member community user) f).doc (.member c v) =
      (db.doc (.member c v)).map fun m : Member => if c = community ∧ v = user then f m else m := by
  by_cases hk : c = community ∧ v = user
  · obtain ⟨rfl, rfl⟩ := hk
    simp only [and_self, if_pos]
    exact Database.doc_update_self db (.member c v) f
  · simp only [if_neg hk, Option.map_id']
    exact Database.doc_update_ne (k := Key.member community user) db f (by simpa using hk)

/-- The communities after an update of one. -/
private theorem doc_updateCommunity (db : Store) (id c : ℕ) (f : Community → Community) :
    (db.update (.community id) f).doc (.community c) =
      (db.doc (.community c)).map fun d : Community => if c = id then f d else d := by
  rw [update_community, Database.doc_updateMany]
  rfl

/-- Documents of other collections do not count. -/
theorem memberCounts_of_confined {C : List Collection} {i : ℕ} {n : ℤ}
    (hlag : memberCounts.LagsAt db i n) (h : Confined C db after)
    (hcs : ∀ c ∈ C, c ∉ [Collection.communities, .members]) : memberCounts.LagsAt after i n := by
  have hsame : ∀ k, k.collection ∈ [Collection.communities, .members] → after.doc k = db.doc k :=
    fun k hk => h k fun hmem => hcs _ hmem hk
  refine hlag.frame (fun c hc => ⟨c, (hsame _ (by simp [memberCounts])).symm.trans hc, rfl⟩)
    fun k => ?_
  cases k with
  | member community user => rw [hsame _ (by simp)]
  | _ =>
    unfold memberCounts membersOf
    simp

/-- An incremented counter moves by its amount. -/
private theorem memberCounts_incrementMemberCount {i : ℕ} {n : ℤ} (h : memberCounts.LagsAt db i n)
    (communityId : ℕ) (increment : ℤ) :
    memberCounts.LagsAt (incrementMemberCount communityId increment db) i
      (n - if i = communityId then increment else 0) := by
  unfold incrementMemberCount
  rw [update_community]
  refine LagsAt.updateMany h _ (fun k d => ?_) fun c => ?_
  · cases k <;> rfl
  · by_cases hi : i = communityId
    · exact (congrArg Community.memberCount (if_pos hi)).trans (by rw [if_pos hi]; rfl)
    · exact (congrArg Community.memberCount (if_neg hi)).trans (by rw [if_neg hi, add_zero]; rfl)

/-- A membership counts for its community. -/
private theorem entry_member (i community user : ℕ) (m : Member) :
    ((memberCounts.entry i (.member community user) m).toNat : ℤ) =
      if i = community then 1 else 0 := by
  by_cases hi : i = community
  · subst hi
    simp [memberCounts, membersOf]
  · simp [memberCounts, membersOf, hi, Ne.symm hi]

/-- Communities with the same creators. -/
theorem exists_of_creatorId {o o' : Option Community}
    (h : o'.map Community.creatorId = o.map Community.creatorId) {c : Community}
    (hc : o' = some c) :
    ∃ c', o = some c' ∧ c'.creatorId = c.creatorId := by
  subst hc
  exact Option.map_eq_some_iff.mp h.symm

/-- What a new membership leaves: its document and the entry in the profile. -/
structure Admits (db after : Store) (communityId userId : ℕ) (m : Member) : Prop where
  free : db.doc (.member communityId userId) = none
  joined : after.doc (.member communityId userId) = some m
  others : ∀ {c v : ℕ}, Key.member c v ≠ .member communityId userId →
    after.doc (.member c v) = db.doc (.member c v)
  users : ∀ v, after.doc (.user v) = (db.doc (.user v)).map fun u : User =>
    if v = userId then pushJoinedCommunity communityId u else u

section Admits

variable {communityId userId : ℕ} {m : Member} (h : Admits db after communityId userId m)

include h

/-- A new membership touches no other. -/
theorem Admits.stays {c v : ℕ} {m' : Member} (hm' : db.doc (.member c v) = some m') :
    after.doc (.member c v) = some m' := by
  rw [h.others, hm']
  rintro heq
  obtain ⟨rfl, rfl⟩ := Key.member.inj heq
  cases h.free.symm.trans hm'

/-- After a new membership profiles still list memberships. -/
theorem Admits.listed (hm : Membership db) {v c : ℕ} {u : User}
    (hu : after.doc (.user v) = some u) (hlist : c ∈ u.joinedCommunities) :
    ∃ m', after.doc (.member c v) = some m' := by
  rw [h.users] at hu
  obtain ⟨u', hu', rfl⟩ := Option.map_eq_some_iff.mp hu
  split at hlist
  · next hv =>
    subst hv
    rcases mem_pushJoinedCommunity hlist with rfl | hlist
    · exact ⟨m, h.joined⟩
    · obtain ⟨m', hm'⟩ := hm.listed hu' hlist
      exact ⟨m', h.stays hm'⟩
  · obtain ⟨m', hm'⟩ := hm.listed hu' hlist
    exact ⟨m', h.stays hm'⟩

/-- After a new membership no profile lists a community twice. -/
theorem Admits.nodup (hm : Membership db) {v : ℕ} {u : User} (hu : after.doc (.user v) = some u) :
    u.joinedCommunities.Nodup := by
  rw [h.users] at hu
  obtain ⟨u', hu', rfl⟩ := Option.map_eq_some_iff.mp hu
  split
  · next hv =>
    subst hv
    refine nodup_pushJoinedCommunity (hm.nodup v u' hu') fun hlist => ?_
    obtain ⟨m', hm'⟩ := hm.listed hu' hlist
    cases h.free.symm.trans hm'
  · exact hm.nodup v u' hu'

/-- A new membership joins when its community is written too. -/
theorem Admits.joins
    (hwritten : after.doc (.community communityId) ≠ db.doc (.community communityId)) :
    Joins db after where
  member := fun c v hnone hstored => by
    by_cases hk : Key.member c v = .member communityId userId
    · obtain ⟨rfl, rfl⟩ := Key.member.inj hk
      exact hwritten
    · exact absurd ((h.others hk).trans hnone) hstored
  listed := fun v u c hu hlist => by
    rw [h.users] at hu
    obtain ⟨u', hu', rfl⟩ := Option.map_eq_some_iff.mp hu
    split at hlist
    · next hv =>
      subst hv
      rcases mem_pushJoinedCommunity hlist with rfl | hlist
      · exact .inr (by rw [h.joined, h.free]; simp)
      · exact .inl ⟨u', hu', hlist⟩
    · exact .inl ⟨u', hu', hlist⟩

end Admits

/-- Counting a member touches only the profile and the community. -/
theorem countMember_doc_ne {userId communityId : ℕ} {k : Key} (db : Store)
    (huser : k ≠ .user userId) (hcommunity : k ≠ .community communityId) :
    (countMember userId communityId db).doc k = db.doc k := by
  unfold countMember incrementMemberCount
  rw [Database.doc_update_ne (k := Key.community communityId) _ _ hcommunity,
    Database.doc_update_ne (k := Key.user userId) _ _ huser]

/-- Counting a member increments one community. -/
private theorem countMember_doc_community (db : Store) (userId communityId c : ℕ) :
    (countMember userId communityId db).doc (.community c) =
      (db.doc (.community c)).map fun d : Community =>
        if c = communityId then { d with memberCount := d.memberCount + 1 } else d := by
  unfold countMember incrementMemberCount
  rw [doc_updateCommunity, Database.doc_update_ne (k := Key.user userId) _ _ (by simp)]

section Join

variable {userId communityId : ℕ} {m : Member}

/-- A join admits the user. -/
theorem admits_countMember (hfree : db.doc (.member communityId userId) = none) :
    Admits db (countMember userId communityId (db.put (.member communityId userId) m))
      communityId userId m where
  free := hfree
  joined := by rw [countMember_doc_ne _ (by simp) (by simp), Database.doc_put_self]
  others := fun hk => by
    rw [countMember_doc_ne _ (by simp) (by simp)]
    exact Database.doc_put_ne db m hk
  users := fun v => by
    have hput : (db.put (.member communityId userId) m).doc (.user v) = db.doc (.user v) :=
      Database.doc_put_ne (k := Key.member communityId userId) db m (by simp)
    unfold countMember incrementMemberCount
    rw [Database.doc_update_ne (k := Key.community communityId) _ _ (by simp), doc_updateUser, hput]

/-- A join keeps the creators of communities. -/
theorem creatorId_countMember (c : ℕ) :
    ((countMember userId communityId (db.put (.member communityId userId) m)).doc
      (.community c)).map Community.creatorId =
        (db.doc (.community c)).map Community.creatorId := by
  have hput : (db.put (.member communityId userId) m).doc (.community c) =
      db.doc (.community c) :=
    Database.doc_put_ne (k := Key.member communityId userId) db m (by simp)
  rw [countMember_doc_community, hput, Option.map_map]
  congr 1
  funext d
  dsimp only [Function.comp]
  split <;> rfl

/-- A join is counted. -/
theorem memberCounts_countMember (hm : Membership db)
    (hfree : db.doc (.member communityId userId) = none) (i : ℕ) :
    memberCounts.LagsAt (countMember userId communityId (db.put (.member communityId userId) m))
      i 0 := by
  have hput := LagsAt.put (d := m) (lagsAt_zero.mpr (hm.counts i)) hfree (by simp [memberCounts])
  have hcounted := memberCounts_incrementMemberCount (memberCounts_of_confined (C := [.users])
    hput (.update (k := Key.user userId) (f := pushJoinedCommunity communityId) (by simp))
    (by decide)) communityId 1
  rw [entry_member, zero_add, sub_self] at hcounted
  exact hcounted

end Join

/-- Joining a community that is there keeps the invariant. -/
theorem membership_joinCommunityBody {userId communityId now : ℕ}
    (h : joinCommunityBody userId communityId now db = .ok after) (hm : Membership db)
    (hcommunity : ∃ c : Community, db.doc (.community communityId) = some c) :
    Membership after ∧ Joins db after := by
  obtain ⟨hfree, rfl⟩ := create_map_eq_ok.mp h
  let m : Member := { role := .member, joinedAt := now }
  have hadmits : Admits db _ communityId userId m := admits_countMember hfree
  refine ⟨.mk' (fun i => lagsAt_zero.mp (memberCounts_countMember hm hfree i))
    (fun id c hc => ?_) (fun c v m' hm' => ?_) (fun v c u => hadmits.listed hm)
    (fun v u => hadmits.nodup hm), hadmits.joins ?_⟩
  · obtain ⟨c', hc', hcreator⟩ := exists_of_creatorId (creatorId_countMember id) hc
    obtain ⟨m', hm', hrole⟩ := hm.creator hc'
    rw [hcreator] at hm'
    exact ⟨m', hadmits.stays hm', hrole⟩
  · by_cases hk : Key.member c v = Key.member communityId userId
    · obtain ⟨rfl, rfl⟩ := Key.member.inj hk
      obtain rfl := Option.some.inj (hadmits.joined.symm.trans hm')
      obtain ⟨d, hd⟩ := hcommunity
      obtain ⟨d', hd', -⟩ := exists_of_creatorId (creatorId_countMember c).symm hd
      exact ⟨d', hd', fun hrole => by cases hrole⟩
    · rw [hadmits.others hk] at hm'
      obtain ⟨d, hd⟩ := hm.home hm'
      obtain ⟨d', hd', hcreator⟩ := exists_of_creatorId (creatorId_countMember c).symm hd
      refine ⟨d', hd', fun hrole => ?_⟩
      obtain ⟨e, he, hadmin⟩ := hm.admin hm' hrole
      obtain rfl := Option.some.inj (he.symm.trans hd)
      rw [hcreator, hadmin]
  · obtain ⟨d, hd⟩ := hcommunity
    have hput : (db.put (.member communityId userId) m).doc (.community communityId) = some d :=
      (Database.doc_put_ne (k := Key.member communityId userId) db m (by simp)).trans hd
    rw [countMember_doc_community, hput, hd]
    intro heq
    have hcount := congrArg Community.memberCount (Option.some.inj heq)
    simp at hcount

/-- A community has at most one administrator. -/
theorem count_admins_le (hm : Membership db) (communityId : ℕ) :
    db.count (membersWithRole communityId .admin) ≤ 1 := by
  have hadmin : ∀ {k}, k ∈ db.find (membersWithRole communityId .admin) →
      ∃ c : Community, db.doc (.community communityId) = some c ∧
        k = .member communityId c.creatorId := by
    intro k hk
    obtain ⟨d, hd, hrole⟩ := Database.mem_find.mp hk
    cases k with
    | member community user =>
      obtain ⟨rfl, hadmin⟩ : community = communityId ∧ d.role = .admin := by
        simpa [membersWithRole] using hrole
      obtain ⟨c, hc, rfl⟩ := hm.admin hd hadmin
      exact ⟨c, hc, rfl⟩
    | _ => simp [membersWithRole] at hrole
  refine Finset.card_le_one.mpr fun k hk k' hk' => ?_
  obtain ⟨c, hc, rfl⟩ := hadmin hk
  obtain ⟨c', hc', rfl⟩ := hadmin hk'
  obtain rfl := Option.some.inj (hc.symm.trans hc')
  rfl

section Removal

variable {userId communityId : ℕ} {m : Member}

/-- The removed membership is gone. -/
theorem removeMember_doc_self (db : Store) (userId communityId : ℕ) :
    (removeMember userId communityId db).doc (.member communityId userId) = none := by
  unfold removeMember incrementMemberCount
  rw [Database.doc_update_ne (k := Key.community communityId) _ _ (by simp),
    Database.doc_update_ne (k := Key.user userId) _ _ (by simp), Database.doc_delete_self]

/-- A removal touches no other membership. -/
theorem removeMember_doc_member (db : Store) {c v : ℕ}
    (hk : Key.member c v ≠ .member communityId userId) :
    (removeMember userId communityId db).doc (.member c v) = db.doc (.member c v) := by
  unfold removeMember incrementMemberCount
  rw [Database.doc_update_ne (k := Key.community communityId) _ _ (by simp),
    Database.doc_update_ne (k := Key.user userId) _ _ (by simp), Database.doc_delete_ne db hk]

/-- A removal takes the community off one profile. -/
private theorem removeMember_doc_user (db : Store) (userId communityId v : ℕ) :
    (removeMember userId communityId db).doc (.user v) =
      (db.doc (.user v)).map fun u : User =>
        if v = userId then pullJoinedCommunity communityId u else u := by
  unfold removeMember incrementMemberCount
  rw [Database.doc_update_ne (k := Key.community communityId) _ _ (by simp), doc_updateUser,
    Database.doc_delete_ne _ (by simp)]

/-- A removal keeps the creators of communities. -/
theorem creatorId_removeMember (db : Store) (userId communityId c : ℕ) :
    ((removeMember userId communityId db).doc (.community c)).map Community.creatorId =
      (db.doc (.community c)).map Community.creatorId := by
  unfold removeMember incrementMemberCount
  rw [doc_updateCommunity, Database.doc_update_ne (k := Key.user userId) _ _ (by simp),
    Database.doc_delete_ne _ (by simp), Option.map_map]
  congr 1
  funext d
  dsimp only [Function.comp]
  split <;> rfl

/-- A removal is counted. -/
theorem memberCounts_removeMember (hm : Membership db)
    (hmember : db.doc (.member communityId userId) = some m) (i : ℕ) :
    memberCounts.LagsAt (removeMember userId communityId db) i 0 := by
  have hdelete := (lagsAt_zero.mpr (hm.counts i)).delete hmember
  have hcounted := memberCounts_incrementMemberCount (memberCounts_of_confined (C := [.users])
    hdelete (.update (k := Key.user userId) (f := pullJoinedCommunity communityId) (by simp))
    (by decide)) communityId (-1)
  have hn : ∀ p : Prop, [Decidable p] →
      (0 - if p then (1 : ℤ) else 0) - (if p then -1 else 0) = 0 := by
    intro p _
    split <;> rfl
  rw [entry_member, hn] at hcounted
  exact hcounted

/-- Nobody joins at a removal. -/
theorem leaves_removeMember (db : Store) (userId communityId : ℕ) :
    Leaves db (removeMember userId communityId db) where
  member := fun c v hnone => by
    by_cases hk : Key.member c v = .member communityId userId
    · obtain ⟨rfl, rfl⟩ := Key.member.inj hk
      exact removeMember_doc_self db v c
    · rw [removeMember_doc_member db hk, hnone]
  listed := fun v u hu => by
    rw [removeMember_doc_user] at hu
    obtain ⟨u', hu', rfl⟩ := Option.map_eq_some_iff.mp hu
    refine ⟨u', hu', ?_⟩
    split
    · exact List.filter_subset_self _
    · exact List.Subset.refl _

/-- After a removal profiles still list memberships. -/
theorem listed_removeMember (hm : Membership db) {v c : ℕ} {u : User}
    (hu : (removeMember userId communityId db).doc (.user v) = some u)
    (hlist : c ∈ u.joinedCommunities) :
    ∃ m', (removeMember userId communityId db).doc (.member c v) = some m' := by
  rw [removeMember_doc_user] at hu
  obtain ⟨u', hu', rfl⟩ := Option.map_eq_some_iff.mp hu
  split at hlist
  · next hv =>
    obtain ⟨hlist, hne⟩ := List.mem_filter.mp hlist
    obtain ⟨m', hm'⟩ := hm.listed hu' hlist
    refine ⟨m', (removeMember_doc_member db ?_).trans hm'⟩
    simp only [ne_eq, Key.member.injEq, not_and]
    exact fun hc => absurd hc (by simpa using hne)
  · next hv =>
    obtain ⟨m', hm'⟩ := hm.listed hu' hlist
    exact ⟨m', (removeMember_doc_member db (by simp [hv])).trans hm'⟩

/-- After a removal no profile lists a community twice. -/
theorem nodup_removeMember (hm : Membership db) {v : ℕ} {u : User}
    (hu : (removeMember userId communityId db).doc (.user v) = some u) :
    u.joinedCommunities.Nodup := by
  rw [removeMember_doc_user] at hu
  obtain ⟨u', hu', rfl⟩ := Option.map_eq_some_iff.mp hu
  split
  · exact (hm.nodup v u' hu').filter _
  · exact hm.nodup v u' hu'

end Removal

/-- Removing a member keeps the invariant when an administrator is left. -/
theorem membership_removeMember {userId communityId : ℕ} {m : Member} (hm : Membership db)
    (hmember : db.doc (.member communityId userId) = some m)
    (hrole : m.role = .admin → 1 < db.count (membersWithRole communityId .admin)) :
    Membership (removeMember userId communityId db) ∧
      Joins db (removeMember userId communityId db) := by
  have hordinary : m.role ≠ .admin := by
    intro hadmin
    have htwo := hrole hadmin
    have hone := count_admins_le hm communityId
    omega
  have hcreators := creatorId_removeMember db userId communityId
  refine ⟨.mk' (fun i => lagsAt_zero.mp (memberCounts_removeMember hm hmember i))
    (fun id c hc => ?_) (fun c v m' hm' => ?_) (fun v c u => listed_removeMember hm)
    (fun v u => nodup_removeMember hm), (leaves_removeMember db userId communityId).joins⟩
  · obtain ⟨c', hc', hcreator⟩ := exists_of_creatorId (hcreators id) hc
    obtain ⟨m', hm', hadmin⟩ := hm.creator hc'
    rw [hcreator] at hm'
    refine ⟨m', (removeMember_doc_member db ?_).trans hm', hadmin⟩
    rintro heq
    obtain ⟨rfl, rfl⟩ := Key.member.inj heq
    obtain rfl := Option.some.inj (hm'.symm.trans hmember)
    exact hordinary hadmin
  · have hk : Key.member c v ≠ .member communityId userId := by
      rintro heq
      obtain ⟨rfl, rfl⟩ := Key.member.inj heq
      cases (removeMember_doc_self db v c).symm.trans hm'
    rw [removeMember_doc_member db hk] at hm'
    obtain ⟨d, hd⟩ := hm.home hm'
    obtain ⟨d', hd', hcreator⟩ := exists_of_creatorId (hcreators c).symm hd
    refine ⟨d', hd', fun hadmin => ?_⟩
    obtain ⟨e, he, hadmin⟩ := hm.admin hm' hadmin
    obtain rfl := Option.some.inj (he.symm.trans hd)
    rw [hcreator, hadmin]

section Creation

variable {id userId : ℕ} {c : Community} {m : Member}

/-- The store with a new community and its first member. -/
def founded (id userId : ℕ) (c : Community) (m : Member) (db : Store) : Store :=
  ((db.put (.community id) c).put (.member id userId) m).update (.user userId)
    (pushJoinedCommunity id)

/-- A new community touches three documents. -/
private theorem founded_doc_ne {k : Key} (db : Store) (hcommunity : k ≠ .community id)
    (hmember : k ≠ .member id userId) (huser : k ≠ .user userId) :
    (founded id userId c m db).doc k = db.doc k :=
  (Database.doc_update_ne (k := Key.user userId) _ _ huser).trans <|
    (Database.doc_put_ne _ m hmember).trans
      (Database.doc_put_ne (k := Key.community id) db c hcommunity)

/-- The new community is there. -/
private theorem founded_doc_community (db : Store) :
    (founded id userId c m db).doc (.community id) = some c :=
  (Database.doc_update_ne (k := Key.user userId) _ _ (by simp)).trans <|
    (Database.doc_put_ne (k := Key.member id userId) _ m (by simp)).trans
      (Database.doc_put_self db (.community id) c)

/-- The creation admits the creator. -/
theorem admits_founded (hnobody : ∀ v, db.doc (.member id v) = none) :
    Admits db (founded id userId c m db) id userId m where
  free := hnobody userId
  joined := (Database.doc_update_ne (k := Key.user userId) _ _ (by simp)).trans
    (Database.doc_put_self (db.put (.community id) c) (.member id userId) m)
  others := fun hk => founded_doc_ne db (by simp) hk (by simp)
  users := fun v => by
    have hput : ((db.put (.community id) c).put (.member id userId) m).doc (.user v) =
        db.doc (.user v) :=
      (Database.doc_put_ne (k := Key.member id userId) _ m (by simp)).trans
        (Database.doc_put_ne (k := Key.community id) db c (by simp))
    unfold founded
    rw [doc_updateUser, hput]

/-- The creation counts the creator. -/
theorem memberCounts_founded (hm : Membership db) (hfree : db.doc (.community id) = none)
    (hnobody : ∀ v, db.doc (.member id v) = none) (hone : c.memberCount = 1) (i : ℕ) :
    memberCounts.LagsAt (founded id userId c m db) i 0 := by
  have hfreeMember : (db.put (.community id) c).doc (.member id userId) = none :=
    (Database.doc_put_ne (k := Key.community id) db c (by simp)).trans (hnobody userId)
  have hcommunity : memberCounts.LagsAt (db.put (.community id) c) i
      (-if i = id then 1 else 0) := by
    by_cases hi : i = id
    · subst hi
      have hempty : ∀ k e, db.doc k = some e → memberCounts.entry i k e = false := by
        intro k e he
        cases k with
        | member j v =>
          by_contra hentry
          obtain rfl : j = i := by simpa [memberCounts, membersOf] using hentry
          cases (hnobody v).symm.trans he
        | _ => rfl
      have hnew : memberCounts.LagsAt (db.put (.community i) c) i (-c.memberCount) :=
        lagsAt_new rfl hempty
      rw [if_pos rfl, ← hone]
      exact hnew
    · have hput := LagsAt.put (d := c) (lagsAt_zero.mpr (hm.counts i)) hfree
        (by simpa [memberCounts] using hi)
      rw [if_neg hi]
      exact hput
  have hmember := LagsAt.put (d := m) hcommunity hfreeMember (by simp [memberCounts])
  rw [entry_member, neg_add_cancel] at hmember
  exact memberCounts_of_confined (C := [.users]) hmember (.update (k := Key.user userId)
    (f := pushJoinedCommunity id) (by simp)) (by decide)

end Creation

/-- Creating a community under a new key keeps the invariant. -/
theorem membership_createCommunityBody {id userId now : ℕ}
    (h : createCommunityBody id userId now db = .ok after) (hm : Membership db)
    (hnew : ¬ references.Cited db (.community id)) : Membership after ∧ Joins db after := by
  obtain ⟨hfree, rfl⟩ := create_map_eq_ok.mp h
  let c : Community := { creatorId := userId, memberCount := 1, postCount := 0 }
  let m : Member := { role := .admin, joinedAt := now }
  have hnobody : ∀ v, db.doc (.member id v) = none := by
    intro v
    by_contra hstored
    obtain ⟨m', hm'⟩ := Option.ne_none_iff_exists'.mp hstored
    exact hnew ⟨.member id v, m', hm', .inl rfl⟩
  have hadmits : Admits db (founded id userId c m db) id userId m := admits_founded hnobody
  have hcreated : (founded id userId c m db).doc (.community id) = some c :=
    founded_doc_community db
  have hcommunities : ∀ {j : ℕ}, j ≠ id →
      (founded id userId c m db).doc (.community j) = db.doc (.community j) :=
    fun hj => founded_doc_ne db (by simpa using hj) (by simp) (by simp)
  change Membership (founded id userId c m db) ∧ Joins db (founded id userId c m db)
  refine ⟨.mk' (fun i => lagsAt_zero.mp (memberCounts_founded hm hfree hnobody rfl i))
    (fun j d hd => ?_) (fun j v m' hm' => ?_) (fun v j u => hadmits.listed hm)
    (fun v u => hadmits.nodup hm), hadmits.joins (by rw [hcreated, hfree]; simp)⟩
  · by_cases hj : j = id
    · subst hj
      obtain rfl := Option.some.inj (hcreated.symm.trans hd)
      exact ⟨m, hadmits.joined, rfl⟩
    · obtain ⟨m', hm', hadmin⟩ := hm.creator ((hcommunities hj).symm.trans hd)
      exact ⟨m', hadmits.stays hm', hadmin⟩
  · by_cases hk : Key.member j v = .member id userId
    · obtain ⟨rfl, rfl⟩ := Key.member.inj hk
      obtain rfl := Option.some.inj (hadmits.joined.symm.trans hm')
      exact ⟨c, hcreated, fun _ => rfl⟩
    · rw [hadmits.others hk] at hm'
      have hj : j ≠ id := by
        rintro rfl
        cases (hnobody v).symm.trans hm'
      obtain ⟨d, hd⟩ := hm.home hm'
      refine ⟨d, (hcommunities hj).trans hd, fun hadmin => ?_⟩
      obtain ⟨e, he, hcreator⟩ := hm.admin hm' hadmin
      obtain rfl := Option.some.inj (he.symm.trans hd)
      exact hcreator

section Removal

variable {communityId : ℕ}

/-- A community goes with its members. -/
def dropCommunity (communityId : ℕ) (db : Store) : Store :=
  (db.deleteMany (membersOf communityId)).delete (.community communityId)

private theorem member_dropCommunity (c v : ℕ) :
    (dropCommunity communityId db).doc (.member c v) =
      if c = communityId then none else db.doc (.member c v) := by
  unfold dropCommunity
  rw [Database.doc_delete_ne _ (by simp), Database.doc_deleteMany]
  by_cases hc : c = communityId
  · rw [if_pos hc]
    cases db.doc (.member c v) <;> simp [membersOf, hc, Option.filter]
  · rw [if_neg hc]
    cases db.doc (.member c v) <;> simp [membersOf, hc, Option.filter]

private theorem community_dropCommunity (c : ℕ) :
    (dropCommunity communityId db).doc (.community c) =
      if c = communityId then none else db.doc (.community c) := by
  unfold dropCommunity
  by_cases hc : c = communityId
  · subst hc
    rw [if_pos rfl, Database.doc_delete_self]
  · rw [if_neg hc, Database.doc_delete_ne _ (by simpa using hc), Database.doc_deleteMany]
    cases db.doc (.community c) <;> simp [membersOf, Option.filter]

private theorem user_dropCommunity (v : ℕ) :
    (dropCommunity communityId db).doc (.user v) = db.doc (.user v) := by
  unfold dropCommunity
  rw [Database.doc_delete_ne _ (by simp), Database.doc_deleteMany]
  cases db.doc (.user v) <;> simp [membersOf, Option.filter]

/-- The members of other communities count as before. -/
theorem balanced_dropCommunity (hb : memberCounts.Balanced db) :
    memberCounts.Balanced (dropCommunity communityId db) := by
  intro i c hc
  have hc : (dropCommunity communityId db).doc (.community i) = some c := hc
  rw [community_dropCommunity] at hc
  split at hc
  · cases hc
  next hi =>
  refine (hb i c hc).trans (congrArg Nat.cast (Database.count_congr fun k => ?_))
  cases k with
  | member j v =>
    rw [member_dropCommunity]
    split
    · next hj =>
      subst hj
      cases db.doc (.member j v) <;> simp [memberCounts, membersOf, Ne.symm hi]
    · rfl
  | _ =>
    unfold memberCounts membersOf
    simp

private theorem member_removeCommunity (c v : ℕ) :
    (removeCommunity communityId db).doc (.member c v) =
      if c = communityId then none else db.doc (.member c v) := by
  rw [← member_dropCommunity]
  exact (Database.doc_updateMany ..).trans Option.map_id'

private theorem community_removeCommunity (c : ℕ) :
    (removeCommunity communityId db).doc (.community c) =
      if c = communityId then none else db.doc (.community c) := by
  rw [← community_dropCommunity]
  exact (Database.doc_updateMany ..).trans Option.map_id'

private theorem user_removeCommunity (v : ℕ) :
    (removeCommunity communityId db).doc (.user v) =
      (db.doc (.user v)).map (pullJoinedCommunity communityId) := by
  refine (Database.doc_updateMany ..).trans (congrArg _ (user_dropCommunity v))

/-- Removing a community keeps the invariant. -/
private theorem membership_removeCommunity (hm : Membership db) :
    Membership (removeCommunity communityId db) ∧ Leaves db (removeCommunity communityId db) := by
  refine ⟨.mk' (fun i c hc => ?_) (fun j c hc => ?_) (fun j v m hmem => ?_)
    (fun v j u hu hlist => ?_) (fun v u hu => ?_), ⟨fun j v hnone => ?_, fun v u hu => ?_⟩⟩
  · exact lagsAt_zero.mp (memberCounts_of_confined (C := [.users])
      (lagsAt_zero.mpr (balanced_dropCommunity hm.counts i))
      (.updateMany fun _ _ => onUsers_outside (by simp)) (by decide)) c hc
  · rw [community_removeCommunity] at hc
    split at hc
    · cases hc
    · next hj =>
      rw [member_removeCommunity, if_neg hj]
      exact hm.creator hc
  · rw [member_removeCommunity] at hmem
    split at hmem
    · cases hmem
    · next hj =>
      obtain ⟨c, hc⟩ := hm.home hmem
      refine ⟨c, by rw [community_removeCommunity, if_neg hj, hc], fun hadmin => ?_⟩
      obtain ⟨c', hc', hcreator⟩ := hm.admin hmem hadmin
      obtain rfl := Option.some.inj (hc'.symm.trans hc)
      exact hcreator
  · rw [user_removeCommunity] at hu
    obtain ⟨u', hu', rfl⟩ := Option.map_eq_some_iff.mp hu
    obtain ⟨hlist, hne⟩ := List.mem_filter.mp hlist
    rw [member_removeCommunity, if_neg (by simpa using hne)]
    exact hm.listed hu' hlist
  · rw [user_removeCommunity] at hu
    obtain ⟨u', hu', rfl⟩ := Option.map_eq_some_iff.mp hu
    exact (hm.nodup v u' hu').filter _
  · rw [member_removeCommunity, hnone, ite_self]
  · rw [user_removeCommunity] at hu
    obtain ⟨u', hu', rfl⟩ := Option.map_eq_some_iff.mp hu
    exact ⟨u', hu', List.filter_subset_self _⟩

end Removal

/-- The state of a purge between two created communities: those that wait still have the user as
their creator, and what was deleted is still listed by profiles. -/
structure Purging (userId : ℕ) (waiting deleted : List ℕ) (db : Store) : Prop where
  counts : memberCounts.Balanced db
  creator : ∀ id (c : Community), db.doc (.community id) = some c →
    ∃ m : Member, db.doc (.member id c.creatorId) = some m ∧ m.role = .admin
  home : ∀ community user (m : Member), db.doc (.member community user) = some m →
    ∃ c : Community, db.doc (.community community) = some c ∧
      (user ≠ userId → m.role = .admin → c.creatorId = user)
  listed : ∀ user community (u : User), db.doc (.user user) = some u →
    community ∈ u.joinedCommunities → community ∈ deleted ∨
      ∃ m : Member, db.doc (.member community user) = some m
  nodup : ∀ id (u : User), db.doc (.user id) = some u → u.joinedCommunities.Nodup
  waiting : ∀ id, id ∈ waiting ↔
    ∃ c : Community, db.doc (.community id) = some c ∧ c.creatorId = userId
  gone : ∀ id ∈ deleted, db.doc (.community id) = none

/-- A purge begins with the communities that the user created. -/
private theorem Purging.of_membership {userId : ℕ} {waiting : List ℕ} (hm : Membership db)
    (hwaiting : ∀ id, id ∈ waiting ↔
      ∃ c : Community, db.doc (.community id) = some c ∧ c.creatorId = userId) :
    Purging userId waiting [] db where
  counts := hm.counts
  creator := fun _ _ hc => hm.creator hc
  home := fun community user m hmem => by
    obtain ⟨c, hc⟩ := hm.home hmem
    refine ⟨c, hc, fun _ hadmin => ?_⟩
    obtain ⟨c', hc', hcreator⟩ := hm.admin hmem hadmin
    obtain rfl := Option.some.inj (hc'.symm.trans hc)
    exact hcreator
  listed := fun _ _ _ hu hlist => .inr (hm.listed hu hlist)
  nodup := hm.nodup
  waiting := hwaiting
  gone := by simp

/-- A change that leaves the membership fields the same keeps a purge where it is. -/
theorem Purging.of_same {userId : ℕ} {waiting deleted : List ℕ}
    (h : membershipFields.Same db after) (hp : Purging userId waiting deleted db) :
    Purging userId waiting deleted after where
  counts := fun i => lagsAt_zero.mp (memberCounts_of_same h (lagsAt_zero.mpr (hp.counts i)))
  creator := fun id c hc => by
    obtain ⟨c', hc', hcreator, -⟩ := same_community h hc
    rw [hcreator, same_member h]
    exact hp.creator id c' hc'
  home := fun community user m hmem => by
    rw [same_member h] at hmem
    obtain ⟨c, hc, hadmin⟩ := hp.home community user m hmem
    obtain ⟨c', hc', hcreator, -⟩ := same_community h.symm hc
    exact ⟨c', hc', fun hne hrole => by rw [← hcreator, hadmin hne hrole]⟩
  listed := fun user community u hu hlist => by
    obtain ⟨u', hu', hsame⟩ := same_user h hu
    rw [hsame] at hlist
    rw [same_member h]
    exact hp.listed user community u' hu' hlist
  nodup := fun id u hu => by
    obtain ⟨u', hu', hsame⟩ := same_user h hu
    rw [hsame]
    exact hp.nodup id u' hu'
  waiting := fun id => by
    rw [hp.waiting]
    constructor
    · rintro ⟨c, hc, hcreator⟩
      obtain ⟨c', hc', hsame, -⟩ := same_community h.symm hc
      exact ⟨c', hc', hsame ▸ hcreator⟩
    · rintro ⟨c, hc, hcreator⟩
      obtain ⟨c', hc', hsame, -⟩ := same_community h hc
      exact ⟨c', hc', hsame ▸ hcreator⟩
  gone := fun id hid => by
    cases hc : after.doc (.community id) with
    | none => rfl
    | some c =>
      obtain ⟨c', hc', -⟩ := same_community h hc
      cases (hp.gone id hid).symm.trans hc'

/-- The successor is another member. -/
theorem successor_member {natural : List ℕ} {userId communityId user : ℕ}
    (h : successor natural userId communityId db = some user) :
    user ≠ userId ∧ ∃ m : Member, db.doc (.member communityId user) = some m := by
  unfold successor at h
  dsimp only at h
  obtain ⟨⟨user', m⟩, hhead, rfl⟩ := Option.map_eq_some_iff.mp h
  have hmem := List.mem_of_head? hhead
  rw [List.mem_mergeSort, List.mem_filterMap] at hmem
  obtain ⟨user, hcandidate, hmember⟩ := hmem
  obtain ⟨m', hm', heq⟩ := Option.map_eq_some_iff.mp hmember
  obtain ⟨rfl, rfl⟩ := Prod.mk.inj heq
  refine ⟨?_, m', hm'⟩
  rw [mem_arrange, Finset.mem_biUnion] at hcandidate
  obtain ⟨k, hk, hmem⟩ := hcandidate
  obtain ⟨d, hd, hfilter⟩ := Database.mem_find.mp hk
  cases k with
  | member community user' =>
    obtain rfl := Finset.mem_singleton.mp hmem
    simpa using (Bool.and_eq_true_iff.mp hfilter).2
  | _ => simp at hfilter

/-- A community passes to its successor. -/
def passCommunity (communityId user : ℕ) (db : Store) : Store :=
  (db.update (.community communityId) fun c : Community => { c with creatorId := user }).update
    (.member communityId user) fun m : Member => { m with role := .admin }

private theorem community_passCommunity (communityId user c : ℕ) :
    (passCommunity communityId user db).doc (.community c) =
      (db.doc (.community c)).map fun d : Community =>
        if c = communityId then { d with creatorId := user } else d := by
  unfold passCommunity
  rw [Database.doc_update_ne (k := Key.member communityId user) _ _ (by simp), doc_updateCommunity]

private theorem member_passCommunity (communityId user c v : ℕ) :
    (passCommunity communityId user db).doc (.member c v) =
      (db.doc (.member c v)).map fun m : Member =>
        if c = communityId ∧ v = user then { m with role := .admin } else m := by
  unfold passCommunity
  rw [doc_updateMember, Database.doc_update_ne (k := Key.community communityId) _ _ (by simp)]

private theorem user_passCommunity (communityId user v : ℕ) :
    (passCommunity communityId user db).doc (.user v) = db.doc (.user v) := by
  unfold passCommunity
  rw [Database.doc_update_ne (k := Key.member communityId user) _ _ (by simp),
    Database.doc_update_ne (k := Key.community communityId) _ _ (by simp)]

/-- Passing a community on counts nobody. -/
private theorem memberCounts_passCommunity {communityId user i : ℕ}
    (hb : memberCounts.BalancedAt db i) :
    memberCounts.BalancedAt (passCommunity communityId user db) i := by
  rw [← lagsAt_zero]
  refine LagsAt.frame (lagsAt_zero.mpr hb) (fun c hc => ?_) fun k => ?_
  · have hc : (passCommunity communityId user db).doc (.community i) = some c := hc
    rw [community_passCommunity] at hc
    obtain ⟨c', hc', rfl⟩ := Option.map_eq_some_iff.mp hc
    refine ⟨c', hc', ?_⟩
    exact (apply_ite Community.memberCount ..).trans (ite_self _)
  · cases k with
    | member c v =>
      rw [member_passCommunity]
      cases db.doc (.member c v) <;> rfl
    | _ =>
      unfold memberCounts membersOf
      simp

/-- A purge goes on after a community was passed on. -/
private theorem purging_passCommunity {userId communityId user : ℕ} {rest deleted : List ℕ}
    {m : Member}
    (hp : Purging userId (communityId :: rest) deleted db) (hnodup : (communityId :: rest).Nodup)
    (hne : user ≠ userId) (hm : db.doc (.member communityId user) = some m) :
    Purging userId rest deleted (passCommunity communityId user db) where
  counts := fun i => memberCounts_passCommunity (hp.counts i)
  creator := fun id c hc => by
    rw [community_passCommunity] at hc
    obtain ⟨c', hc', rfl⟩ := Option.map_eq_some_iff.mp hc
    by_cases hid : id = communityId
    · subst hid
      rw [if_pos rfl]
      exact ⟨_, by rw [member_passCommunity, hm]; rfl, by simp⟩
    · obtain ⟨m', hm', hadmin⟩ := hp.creator id c' hc'
      rw [if_neg hid]
      exact ⟨m', by rw [member_passCommunity, hm']; simp [hid], hadmin⟩
  home := fun c v m' hm' => by
    rw [member_passCommunity] at hm'
    obtain ⟨m'', hm'', rfl⟩ := Option.map_eq_some_iff.mp hm'
    obtain ⟨d, hd, hadmin⟩ := hp.home c v m'' hm''
    refine ⟨_, by rw [community_passCommunity, hd]; rfl, fun hv hrole => ?_⟩
    dsimp only
    by_cases hc : c = communityId
    · rw [if_pos hc]
      by_cases hvu : v = user
      · exact hvu.symm
      · -- Another administrator would be the creator, who is the user of the purge.
        rw [if_neg (by simp [hvu])] at hrole
        obtain ⟨d', hd', hcreator⟩ := (hp.waiting c).mp (by simp [hc])
        obtain rfl := Option.some.inj (hd'.symm.trans hd)
        exact absurd ((hadmin hv hrole).symm.trans hcreator) hv
    · rw [if_neg hc]
      rw [if_neg (by simp [hc])] at hrole
      exact hadmin hv hrole
  listed := fun v c u hu hlist => by
    rw [user_passCommunity] at hu
    refine (hp.listed v c u hu hlist).imp_right ?_
    rintro ⟨m', hm'⟩
    exact ⟨_, by rw [member_passCommunity, hm']; rfl⟩
  nodup := fun v u hu => hp.nodup v u (by rw [← hu, user_passCommunity])
  waiting := fun id => by
    rw [community_passCommunity]
    constructor
    · intro hid
      obtain ⟨c, hc, hcreator⟩ := (hp.waiting id).mp (List.mem_cons_of_mem _ hid)
      have hne : id ≠ communityId := by
        rintro rfl
        exact (List.nodup_cons.mp hnodup).1 hid
      exact ⟨c, by rw [hc]; simp [hne], hcreator⟩
    · rintro ⟨c, hc, hcreator⟩
      obtain ⟨c', hc', rfl⟩ := Option.map_eq_some_iff.mp hc
      split at hcreator
      · exact absurd hcreator hne
      · next hid =>
        have hmem := (hp.waiting id).mpr ⟨c', hc', hcreator⟩
        exact (List.mem_cons.mp hmem).resolve_left hid
  gone := fun id hid => by rw [community_passCommunity, hp.gone id hid]; rfl

/-- A purge goes on after a community was dropped. -/
private theorem purging_dropCommunity {userId communityId : ℕ} {rest deleted : List ℕ}
    (hp : Purging userId (communityId :: rest) deleted db)
    (hnodup : (communityId :: rest).Nodup) :
    Purging userId rest (deleted ++ [communityId]) (dropCommunity communityId db) where
  counts := balanced_dropCommunity hp.counts
  creator := fun id c hc => by
    rw [community_dropCommunity] at hc
    split at hc
    · cases hc
    · next hid =>
      rw [member_dropCommunity, if_neg hid]
      exact hp.creator id c hc
  home := fun c v m hm => by
    rw [member_dropCommunity] at hm
    split at hm
    · cases hm
    · next hc =>
      obtain ⟨d, hd, hadmin⟩ := hp.home c v m hm
      exact ⟨d, by rw [community_dropCommunity, if_neg hc, hd], hadmin⟩
  listed := fun v c u hu hlist => by
    rw [user_dropCommunity] at hu
    by_cases hc : c = communityId
    · exact .inl (by simp [hc])
    · rw [member_dropCommunity, if_neg hc]
      exact (hp.listed v c u hu hlist).imp_left fun hmem => List.mem_append_left _ hmem
  nodup := fun v u hu => hp.nodup v u (by rw [← hu, user_dropCommunity])
  waiting := fun id => by
    rw [community_dropCommunity]
    constructor
    · intro hid
      have hne : id ≠ communityId := by
        rintro rfl
        exact (List.nodup_cons.mp hnodup).1 hid
      rw [if_neg hne]
      exact (hp.waiting id).mp (List.mem_cons_of_mem _ hid)
    · rintro ⟨c, hc, hcreator⟩
      split at hc
      · cases hc
      · next hid =>
        have hmem := (hp.waiting id).mpr ⟨c, hc, hcreator⟩
        exact (List.mem_cons.mp hmem).resolve_left hid
  gone := fun id hid => by
    rw [community_dropCommunity]
    split
    · rfl
    · next hne =>
      refine hp.gone id ((List.mem_append.mp hid).resolve_right ?_)
      simpa using hne

/-- Nobody joins when a community is passed on. -/
private theorem leaves_passCommunity (communityId user : ℕ) :
    Leaves db (passCommunity communityId user db) where
  member := fun c v hnone => by rw [member_passCommunity, hnone]; rfl
  listed := fun v u hu => ⟨u, by rw [← hu, user_passCommunity], List.Subset.refl _⟩

/-- Nobody joins when a community is dropped. -/
private theorem leaves_dropCommunity (communityId : ℕ) :
    Leaves db (dropCommunity communityId db) where
  member := fun c v hnone => by rw [member_dropCommunity, hnone, ite_self]
  listed := fun v u hu => ⟨u, by rw [← hu, user_dropCommunity], List.Subset.refl _⟩

/-- The loop takes care of every created community. -/
theorem purging_cleanupAll {natural : List ℕ} {userId : ℕ} {waiting deleted deleted' : List ℕ}
    (hp : Purging userId waiting deleted db) (hnodup : waiting.Nodup)
    (h : cleanupAll natural userId waiting db = .ok (after, deleted')) :
    Purging userId [] (deleted ++ deleted') after ∧ Leaves db after := by
  induction waiting generalizing db deleted deleted' with
  | nil =>
    obtain ⟨rfl, rfl⟩ := Prod.mk.inj (Except.ok.inj h)
    rw [List.append_nil]
    exact ⟨hp, leaves_of_same (.refl _)⟩
  | cons communityId rest ih =>
    unfold cleanupAll at h
    split at h
    · cases h
    next db' first hfirst =>
    split at h
    · cases h
    next db'' others hrest =>
    obtain ⟨rfl, rfl⟩ := Prod.mk.inj (Except.ok.inj h)
    rw [← List.append_assoc]
    have hrest' := (List.nodup_cons.mp hnodup).2
    rcases cleanupCreated_eq hfirst with ⟨user, hsuccessor, rfl, rfl⟩ | ⟨_, rfl, rfl⟩
    · obtain ⟨hne, m, hm⟩ := successor_member hsuccessor
      rw [List.append_nil]
      obtain ⟨hdone, hleaves⟩ := ih (purging_passCommunity hp hnodup hne hm) hrest' hrest
      exact ⟨hdone, (leaves_passCommunity communityId user).trans hleaves⟩
    · have hsame := sameMembership_deletePostGraph (findPostIdsByCommunity communityId db) db
      obtain ⟨hdone, hleaves⟩ := ih (purging_dropCommunity (hp.of_same hsame) hnodup) hrest' hrest
      exact ⟨hdone, ((leaves_of_same hsame).trans (leaves_dropCommunity communityId)).trans hleaves⟩

/-- The communities of a user are those with a membership. -/
private theorem mem_joinedBy {userId community : ℕ} :
    community ∈ joinedBy userId db ↔ ∃ m : Member, db.doc (.member community userId) = some m := by
  unfold joinedBy
  rw [Finset.mem_biUnion]
  constructor
  · rintro ⟨k, hk, hmem⟩
    obtain ⟨d, hd, huser⟩ := Database.mem_find.mp hk
    cases k with
    | member c v =>
      obtain rfl := Finset.mem_singleton.mp hmem
      obtain rfl : v = userId := by simpa using huser
      exact ⟨d, hd⟩
    | _ => simp at huser
  · rintro ⟨m, hm⟩
    exact ⟨.member community userId, Database.mem_find.mpr ⟨m, hm, by simp⟩,
      Finset.mem_singleton_self _⟩

/-- The communities of a creator. -/
theorem mem_createdBy {userId id : ℕ} :
    id ∈ createdBy userId db ↔
      ∃ c : Community, db.doc (.community id) = some c ∧ c.creatorId = userId := by
  unfold createdBy
  rw [Finset.mem_biUnion]
  constructor
  · rintro ⟨k, hk, hmem⟩
    obtain ⟨d, hd, hcreator⟩ := Database.mem_find.mp hk
    cases k with
    | community c =>
      obtain rfl := Finset.mem_singleton.mp hmem
      exact ⟨d, hd, by simpa using hcreator⟩
    | _ => simp at hcreator
  · rintro ⟨c, hc, hcreator⟩
    exact ⟨.community id, Database.mem_find.mpr ⟨c, hc, by simpa using hcreator⟩,
      Finset.mem_singleton_self _⟩

section Departure

variable {userId : ℕ} {affected : Finset ℕ} {deleted : List ℕ}

/-- The memberships of the user are gone. -/
private theorem member_leaveCommunities (c v : ℕ) :
    (leaveCommunities userId affected deleted db).doc (.member c v) =
      if v = userId then none else db.doc (.member c v) := by
  have hsame : (leaveCommunities userId affected deleted db).doc (.member c v) =
      (db.deleteMany (members fun _ user _ => user == userId)).doc (.member c v) :=
    Confined.trans (C :=
      [.communities, .users]) (.updateMany fun _ _ => onCommunities_outside (by simp))
      (.updateMany fun _ _ => onUsers_outside (by simp)) (.member c v) (by simp)
  rw [hsame, Database.doc_deleteMany]
  by_cases hv : v = userId
  · rw [if_pos hv]
    cases db.doc (.member c v) <;> simp [hv, Option.filter]
  · rw [if_neg hv]
    cases db.doc (.member c v) <;> simp [hv, Option.filter]

/-- Leaving keeps the creators of communities. -/
private theorem creatorId_leaveCommunities (c : ℕ) :
    ((leaveCommunities userId affected deleted db).doc (.community c)).map Community.creatorId =
      (db.doc (.community c)).map Community.creatorId := by
  unfold leaveCommunities
  dsimp only
  rw [Database.doc_updateMany, Database.doc_updateMany, Database.doc_deleteMany]
  cases db.doc (.community c) with
  | none => rfl
  | some d => simp [Option.filter, apply_ite Community.creatorId]

private theorem user_leaveCommunities (v : ℕ) :
    (leaveCommunities userId affected deleted db).doc (.user v) =
      (db.doc (.user v)).map fun u : User =>
        { u with joinedCommunities := u.joinedCommunities.filter (· ∉ deleted) } := by
  unfold leaveCommunities
  dsimp only
  rw [Database.doc_updateMany, Database.doc_updateMany, Database.doc_deleteMany]
  cases db.doc (.user v) <;> simp [Option.filter]

/-- The affected communities count their members again, and the others have not lost any. -/
theorem balanced_leaveCommunities (hb : memberCounts.Balanced db)
    (hother : ∀ c, c ∉ affected → db.doc (.community c) ≠ none →
      db.doc (.member c userId) = none) :
    memberCounts.Balanced (leaveCommunities userId affected deleted db) := by
  intro i
  rw [← lagsAt_zero]
  refine memberCounts_of_confined (C := [.users]) (lagsAt_zero.mpr ?_)
    (.updateMany fun _ _ => onUsers_outside (by simp)) (by decide)
  refine balancedAt_updateMany (fun k d => by cases k <;> rfl) fun c hc => ?_
  by_cases hi : i ∈ affected
  · exact congrArg Community.memberCount (if_pos hi)
  · refine (congrArg Community.memberCount (if_neg hi)).trans ?_
    have hstored : db.doc (.community i) = some c := (Database.doc_deleteMany_eq_some.mp hc).1
    have hlag := LagsAt.deleteMany (p := members fun _ user _ => user == userId)
      (lagsAt_zero.mpr (hb i)) fun _ _ _ k e he hentry => by
        cases k with
        | member j v =>
          obtain rfl : j = i := by simpa [memberCounts, membersOf] using hentry
          have hv : v ≠ userId := by
            rintro rfl
            cases (hother j hi (by rw [hstored]; exact Option.some_ne_none _)).symm.trans he
          simpa using hv
        | _ => rfl
    exact lagsAt_zero.mp hlag c hc

/-- Nobody joins when a user leaves. -/
private theorem leaves_leaveCommunities :
    Leaves db (leaveCommunities userId affected deleted db) where
  member := fun c v hnone => by rw [member_leaveCommunities, hnone, ite_self]
  listed := fun v u hu => by
    rw [user_leaveCommunities] at hu
    obtain ⟨u', hu', rfl⟩ := Option.map_eq_some_iff.mp hu
    exact ⟨u', hu', List.filter_subset_self _⟩

/-- The account itself lists nothing any more. -/
theorem finalize_user {action : AccountLifecycleAction} {u : User}
    (hu : (finalize action userId db).doc (.user userId) = some u) : u.joinedCommunities = [] := by
  cases action with
  | ban =>
    have hdoc := Database.doc_update_self db (.user userId) fun u : User =>
      { u with isBanned := true, followerCount := 0, followingCount := 0, postCount := 0
               joinedCommunities := [] }
    obtain ⟨u', -, rfl⟩ := Option.map_eq_some_iff.mp (hdoc.symm.trans hu)
    rfl
  | delete =>
    have hdoc := Database.doc_delete_self db (.user userId)
    cases hdoc.symm.trans hu

/-- Nobody joins at the end of a purge. -/
private theorem leaves_finalize (action : AccountLifecycleAction) :
    Leaves db (finalize action userId db) where
  member := fun c v hnone => by rw [finalize_other action (by simp), hnone]
  listed := fun v u hu => by
    by_cases hv : v = userId
    · subst hv
      cases action with
      | ban =>
        have hdoc := Database.doc_update_self db (.user v) fun u : User =>
          { u with isBanned := true, followerCount := 0, followingCount := 0, postCount := 0
                   joinedCommunities := [] }
        obtain ⟨u', hu', rfl⟩ := Option.map_eq_some_iff.mp (hdoc.symm.trans hu)
        exact ⟨u', hu', List.nil_subset _⟩
      | delete => cases (Database.doc_delete_self db (.user v)).symm.trans hu
    · exact ⟨u, (finalize_other action (by simpa using hv)).symm.trans hu, List.Subset.refl _⟩

/-- The user of a purge leaves, once other communities have no member of that name. -/
theorem membership_departure {action : AccountLifecycleAction}
    (hp : Purging userId [] deleted db)
    (hother : ∀ c, c ∉ affected → db.doc (.community c) ≠ none →
      db.doc (.member c userId) = none) :
    Membership (finalize action userId (leaveCommunities userId affected deleted db)) := by
  refine .mk' (fun i => ?_) (fun id c hc => ?_) (fun c v m hm => ?_) (fun v c u hu hlist => ?_)
    fun v u hu => ?_
  · exact lagsAt_zero.mp (memberCounts_of_confined (C := [.users])
      (lagsAt_zero.mpr (balanced_leaveCommunities hp.counts hother i))
      (finalize_confined action userId _) (by decide))
  · rw [finalize_other action (by simp)] at hc
    obtain ⟨c', hc', hcreator⟩ := exists_of_creatorId (creatorId_leaveCommunities id) hc
    obtain ⟨m, hm, hadmin⟩ := hp.creator id c' hc'
    have hne : c.creatorId ≠ userId := by
      intro heq
      cases (hp.waiting id).mpr ⟨c', hc', hcreator.trans heq⟩
    rw [finalize_other action (by simp), member_leaveCommunities, if_neg hne, ← hcreator]
    exact ⟨m, hm, hadmin⟩
  · rw [finalize_other action (by simp), member_leaveCommunities] at hm
    split at hm
    · cases hm
    · next hv =>
      obtain ⟨d, hd, hadmin⟩ := hp.home c v m hm
      obtain ⟨d', hd', hcreator⟩ := exists_of_creatorId (creatorId_leaveCommunities c).symm hd
      exact ⟨d', (finalize_other action (by simp)).trans hd',
        fun hrole => hcreator.trans (hadmin hv hrole)⟩
  · by_cases hv : v = userId
    · subst hv
      rw [finalize_user hu] at hlist
      cases hlist
    · rw [finalize_other action (by simpa using hv), user_leaveCommunities] at hu
      obtain ⟨u', hu', rfl⟩ := Option.map_eq_some_iff.mp hu
      obtain ⟨hlist, hnot⟩ := List.mem_filter.mp hlist
      rw [finalize_other action (by simp), member_leaveCommunities, if_neg hv]
      exact (hp.listed v c u' hu' hlist).resolve_left (by simpa using hnot)
  · by_cases hv : v = userId
    · subst hv
      rw [finalize_user hu]
      exact List.nodup_nil
    · rw [finalize_other action (by simpa using hv), user_leaveCommunities] at hu
      obtain ⟨u', hu', rfl⟩ := Option.map_eq_some_iff.mp hu
      exact (hp.nodup v u' hu').filter _

end Departure

private theorem sameMembership_removeRelationshipsAndActivity (userId : ℕ) (db : Store) :
    membershipFields.Same db (removeRelationshipsAndActivity userId db) := by
  refine .trans (Confined.sameMembership (C := [.follows])
    (.deleteMany fun _ _ => follows_outside (by simp)) (by decide)) (sameMembership_onUsers ?_)
  intro id u
  split <;> rfl

/-- Before a purge comes to communities it leaves memberships alone. -/
theorem sameMembership_purgeContent (userId : ℕ) (db : Store) :
    membershipFields.Same db (preserve userId
      (removeRelationshipsAndActivity userId (contentCleanup userId db))) := by
  have hcontent : membershipFields.Same db (contentCleanup userId db) :=
    ((sameMembership_deletePostGraph _ db).trans
      ((tombstoneComments_confined userId _).sameMembership (by decide))).trans
      ((removePostInteractions_confined userId _).sameMembership (by decide))
  exact (hcontent.trans (sameMembership_removeRelationshipsAndActivity userId _)).trans
    ((preserve_confined userId _).sameMembership (by decide))

/-- A purge keeps the invariant. -/
private theorem membership_purgeUser {natural : List ℕ} {action : AccountLifecycleAction}
    {userId : ℕ}
    (h : purgeUser natural action userId db = .ok after) (hm : Membership db) :
    Membership after ∧ Leaves db after := by
  obtain ⟨db', hcommunity, rfl⟩ := purgeUser_eq h
  obtain ⟨db'', deleted, hall, rfl⟩ := communityCleanup_eq hcommunity
  have hsame := sameMembership_purgeContent userId db
  have hpurging := Purging.of_membership (membership_of_same hsame hm) fun id =>
    (mem_arrange.trans mem_createdBy : id ∈ arrange natural (createdBy userId _) ↔ _)
  obtain ⟨hdone, hleaves⟩ := purging_cleanupAll hpurging (nodup_arrange _ _) hall
  rw [List.nil_append] at hdone
  refine ⟨membership_departure hdone fun c hc hstored => ?_, (((leaves_of_same hsame).trans
    hleaves).trans leaves_leaveCommunities).trans (leaves_finalize action)⟩
  -- A community that is stored was not deleted, so the user had not joined it.
  have hnot : c ∉ deleted := fun hmem => hstored (hdone.gone c hmem)
  refine hleaves.member c userId ?_
  by_contra hjoined
  obtain ⟨m, hm⟩ := Option.ne_none_iff_exists'.mp hjoined
  refine hc (Finset.mem_sdiff.mpr ⟨Finset.mem_union_left _ (mem_joinedBy.mpr ⟨m, hm⟩), ?_⟩)
  simpa using hnot

/-- Purging a user keeps the invariant. -/
theorem membership_purgeBody {natural : List ℕ} {action : AccountLifecycleAction} {userId : ℕ}
    (h : purgeBody natural action userId db = .ok after) (hm : Membership db) :
    Membership after ∧ Joins db after := by
  rcases purgeBody_eq h with h | ⟨db', htouch, h⟩
  · exact (membership_purgeUser h hm).imp_right Leaves.joins
  · have hsame := (touch_confined htouch).sameMembership (by decide)
    obtain ⟨hafter, hleaves⟩ := membership_purgeUser h (membership_of_same hsame hm)
    exact ⟨hafter, ((leaves_of_same hsame).trans hleaves).joins⟩

/-- Deleting a community keeps the invariant. -/
theorem membership_deleteCommunityBody {communityId : ℕ}
    (h : deleteCommunityBody communityId db = .ok after) (hm : Membership db) :
    Membership after ∧ Joins db after := by
  obtain ⟨-, rfl⟩ := deleteCommunityBody_eq h
  have hsame := sameMembership_deletePostGraph (findPostIdsByCommunity communityId db) db
  refine (membership_removeCommunity (membership_of_same hsame hm)).imp_right fun hleaves => ?_
  exact ((leaves_of_same hsame).trans hleaves).joins

end Bodies

end Ascendance.Social
