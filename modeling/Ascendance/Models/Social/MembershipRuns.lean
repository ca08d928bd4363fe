import Ascendance.Models.Social.MembershipBodies

/-!
# Memberships in every run

What a command adds to memberships it writes together with the documents that it needs, so
memberships survive every interleaving, up to joins whose community is gone already.
-/

namespace Ascendance.Social

open Ascendance.Core Ledger

/-- What a command does to memberships keeps them, when nobody joins a community that is gone. -/
theorem MembershipChange.membership {s : Committed Key Doc} {c : Command} {after : Store}
    (h : MembershipChange s c after) (hm : Membership s.db)
    (hnew : ∀ k, serial k = true → s.db.doc k = none → after.doc k ≠ none →
      ¬ references.Cited s.db k)
    (hjoin : ∀ userId communityId now, c = .joinCommunity userId communityId now →
      s.db.doc (.community communityId) ≠ none) : Membership after ∧ Joins s.db after := by
  cases h with
  | same h => exact ⟨membership_of_same h hm, (leaves_of_same h).joins⟩
  | @create id userId now _ hbody =>
    refine membership_createCommunityBody hbody hm ?_
    obtain ⟨hfree, rfl⟩ := create_map_eq_ok.mp hbody
    refine hnew (.community id) rfl hfree ?_
    rw [← Option.isSome_iff_ne_none]
    simp [addCreator]
  | join hbody =>
    exact membership_joinCommunityBody hbody hm
      (Option.ne_none_iff_exists'.mp (hjoin _ _ _ rfl))
  | remove hmember hrole => exact membership_removeMember hm hmember hrole
  | delete hbody => exact membership_deleteCommunityBody hbody hm
  | purge hbody => exact membership_purgeBody hbody hm

section Commit

variable {db after : Store}

/-- What comes to be needed is written. -/
theorem touches_memberLinks (hm : Membership db) (hafter : Membership after)
    (hjoins : Joins db after) : memberLinks.Touches db after := by
  rintro k o ⟨⟨d, hd, hneeds⟩, hnot⟩
  cases k with
  | community id =>
    obtain rfl := hneeds
    intro hsame
    obtain ⟨m, hstored, hrole⟩ := hafter.creator hd
    rw [hsame] at hstored
    obtain ⟨c, hc, hcreator⟩ := hm.admin hstored hrole
    exact hnot c hc (congrArg (Key.member id) hcreator.symm)
  | member community user =>
    obtain rfl := hneeds
    refine hjoins.member community user ?_ (by rw [hd]; exact Option.some_ne_none _)
    cases hold : db.doc (.member community user) with
    | none => rfl
    | some m => exact absurd rfl (hnot m hold)
  | user id =>
    obtain ⟨community, hlist, rfl⟩ := hneeds
    rcases hjoins.listed id d community hd hlist with ⟨u, hu, hlist'⟩ | hchanged
    · exact absurd ⟨community, hlist', rfl⟩ (hnot u hu)
    · exact hchanged
  | _ => exact hneeds.elim

/-- A command touches the links of administrators that it changes. -/
private theorem touches_adminLinks (hm : Membership db) (hafter : Membership after) :
    adminLinks.Touches db after := by
  rintro k o ⟨⟨d, hd, hneeds⟩, hnot⟩
  cases k with
  | member community user =>
    obtain ⟨hrole, rfl⟩ := hneeds
    intro hsame
    obtain ⟨c, hc, rfl⟩ := hafter.admin hd hrole
    rw [hsame] at hc
    obtain ⟨m, hstored, hadmin⟩ := hm.creator hc
    exact hnot m hstored ⟨hadmin, rfl⟩
  | _ => exact hneeds.elim

/-- A membership is counted for the community that it refers to. -/
theorem memberCounts_follows : memberCounts.Follows references := by
  intro i k d hentry
  cases k with
  | member community user =>
    obtain rfl : community = i := by simpa [memberCounts, membersOf] using hentry
    exact .inl rfl
  | _ => simp [memberCounts, membersOf] at hentry

end Commit

/-- A join commits on a snapshot in which its community is stored. -/
def JoinsStored (c : Command) (snapshot _current : Committed Key Doc) (_after : Store) : Prop :=
  ∀ userId communityId now, c = .joinCommunity userId communityId now →
    snapshot.db.doc (.community communityId) ≠ none

/-- The discipline keeps the memberships. -/
private theorem membership_kept :
    (discipline (fun c => Membership c.db)
      (fun a b => memberLinks.Settled a b ∧ adminLinks.Settled a b) JoinsStored).Kept := by
  refine discipline_kept (fun c => ⟨.refl c, .refl c⟩)
    (fun a b c hab hbc h h' => ⟨.trans hab hbc h.1 h'.1, .trans hab hbc h.2 h'.2⟩) ?_
  rintro c snapshot current after ⟨⟨hcoherent, hm⟩, hsince, hkeeps, hsettled⟩ hcurrent hm' hfresh
    hnew heffect hjoin
  obtain ⟨hafter, hjoins⟩ := (effect_membershipChange heffect).membership hm
    (fun k hk hfree hstored => not_cited_of_new hcoherent.known hsince hnew hk hfree hstored) hjoin
  have hmember := touches_memberLinks hm hafter hjoins
  have hadmin := touches_adminLinks hm hafter
  refine ⟨⟨?_, ?_, ?_, fun id u hu => ?_⟩,
    Links.settled_commit hsince hfresh hmember, Links.settled_commit hsince hfresh hadmin⟩
  · exact balanced_commit memberCounts_follows (fun _ => rfl) hm.counts hm'.counts hafter.counts
      hcoherent.known hcurrent.known hsince hfresh hnew
      (effect_introduces heffect fun _ hr => hr.2.1)
  · exact Links.linked_commit_of_touches hm'.links hafter.links hsince hfresh hsettled.1 hmember
  · exact Links.linked_commit_of_touches hm'.admins hafter.admins hsince hfresh hsettled.2 hadmin
  · by_cases hk : after.doc (.user id) = snapshot.db.doc (.user id)
    · exact hm'.nodup id u ((Database.doc_merge_same hk).symm.trans hu)
    · exact hafter.nodup id u ((Database.doc_merge_changed hk).symm.trans hu)

/-- In every run whose joins commit while their snapshot has the community, a community counts its
members and has its creator as an administrator, memberships belong to stored communities, and
profiles list communities of their users once. -/
theorem communityMembership {c : Committed Key Doc} (hcoherent : Coherent c)
    (hm : Membership c.db) {es : List (Event Command)} {w : SocialWorld}
    (hrun : Run (Restrict (Graph (World.step runtime)) (World.Commits JoinsStored))
      (World.initial c) es w) :
    (∀ id (c : Community), w.state.db.doc (.community id) = some c →
      c.memberCount = w.state.db.count (membersOf id) ∧
      ∃ m : Member, w.state.db.doc (.member id c.creatorId) = some m ∧ m.role = .admin) ∧
    (∀ communityId userId (m : Member), w.state.db.doc (.member communityId userId) = some m →
      ∃ c : Community, w.state.db.doc (.community communityId) = some c) ∧
    ∀ id (u : User), w.state.db.doc (.user id) = some u → u.joinedCommunities.Nodup ∧
      ∀ communityId ∈ u.joinedCommunities,
        ∃ m : Member, w.state.db.doc (.member communityId id) = some m := by
  have h : Membership w.state.db := discipline_run membership_kept hcoherent hm hrun
  refine ⟨fun id c hc => ⟨h.counts id c hc, h.creator hc⟩, fun _ _ _ hmember => h.home hmember,
    fun id u hu => ⟨h.nodup id u hu, fun _ hlist => h.listed hu hlist⟩⟩

/-- Users without communities have no memberships. -/
theorem membership_twoUsers : Membership twoUsers := by
  refine .mk' (fun i c hc => ?_) (fun id c hc => ?_) (fun community user m hm => ?_)
    (fun user community u hu hlist => ?_) fun id u hu => ?_
  · cases (twoUsers_eq_none (k := .community i) (by simp)).symm.trans hc
  · cases (twoUsers_eq_none (k := .community id) (by simp)).symm.trans hc
  · cases (twoUsers_eq_none (k := .member community user) (by simp)).symm.trans hm
  · rw [twoUsers_user hu] at hlist
    cases hlist
  · rw [twoUsers_user hu]
    exact List.nodup_nil

/-- A user joins a community that another one has created. -/
theorem communityMembership_join :
    ∃ w : SocialWorld, Run (Restrict (Graph (World.step runtime)) (World.Commits JoinsStored))
        (World.initial (.ofDatabase twoUsers))
        [.start 0 (.createCommunity 5 1 0), .advance 0, .advance 0, .advance 0,
          .start 1 (.joinCommunity 2 5 0), .advance 1, .advance 1, .advance 1, .advance 1,
          .advance 1] w ∧
      ∀ id (c : Community), w.state.db.doc (.community id) = some c →
        c.memberCount = w.state.db.count (membersOf id) ∧
        ∃ m : Member, w.state.db.doc (.member id c.creatorId) = some m ∧ m.role = .admin := by
  let stored : Command → Committed Key Doc → Committed Key Doc → Store → Bool
    | .joinCommunity _ communityId _, snapshot, _, _ =>
      (snapshot.db.doc (.community communityId)).isSome
    | _, _, _, _ => true
  have hstored : ∀ c snapshot current after, stored c snapshot current after = true →
      JoinsStored c snapshot current after := by
    rintro c snapshot current after h userId communityId now rfl
    exact Option.isSome_iff_ne_none.mp h
  let check (w : SocialWorld) (e : Event Command) : Bool :=
    (w.attempt e).all fun (c, snapshot, after) => stored c snapshot w.state after
  obtain ⟨w, hw⟩ := Option.isSome_iff_exists.mp (by decide +kernel :
    (exec (fun w e => if check w e then World.step runtime w e else none)
      (World.initial (.ofDatabase twoUsers) : SocialWorld)
      [.start 0 (.createCommunity 5 1 0), .advance 0, .advance 0, .advance 0,
        .start 1 (.joinCommunity 2 5 0), .advance 1, .advance 1, .advance 1, .advance 1,
        .advance 1]).isSome = true)
  have hrun := exec_restrict (fun w e h => World.commits_of_all hstored h) hw
  exact ⟨w, hrun, (communityMembership (coherent_of_unreferring (by decide)) membership_twoUsers
    hrun).1⟩

/-- A user joins a community that was deleted since the handler had read it. -/
theorem communityMembership_joinDeleted :
    ¬ ∀ (es : List (Event Command)) (w : SocialWorld),
      Run (Graph (World.step runtime)) (World.initial (.ofDatabase twoUsers)) es w →
      ∀ communityId userId (m : Member), w.state.db.doc (.member communityId userId) = some m →
        ∃ c : Community, w.state.db.doc (.community communityId) = some c := by
  intro hclaim
  have horphan : ((exec (World.step runtime) (World.initial (.ofDatabase twoUsers) : SocialWorld)
      [.start 0 (.createCommunity 5 1 0), .advance 0, .advance 0, .advance 0,
        .start 1 (.joinCommunity 2 5 0), .advance 1, .advance 1, .advance 1,
        .start 2 (.deleteCommunity 1 5), .advance 2, .advance 2, .advance 2, .advance 2, .advance 2,
        .advance 1, .advance 1]).any fun w =>
      (w.state.db.doc (.member 5 2)).isSome && (w.state.db.doc (.community 5)).isNone) = true := by
    decide +kernel
  obtain ⟨w, hrun, horphan⟩ := exec_any horphan
  obtain ⟨hmember, hgone⟩ := Bool.and_eq_true_iff.mp horphan
  obtain ⟨m, hm⟩ := Option.isSome_iff_exists.mp hmember
  obtain ⟨c, hc⟩ := hclaim _ w hrun 5 2 m hm
  cases (Option.isNone_iff_eq_none.mp hgone).symm.trans hc

end Ascendance.Social
