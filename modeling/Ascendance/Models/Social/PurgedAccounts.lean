import Ascendance.Models.Social.LastAdministrator
import Ascendance.Models.Social.PurgeCompleteness

/-!
# Purged accounts in every run

A purge deletes what it finds on its snapshot, and the other handlers have read the account before
their transaction. They conflict only when they write a common document. So something of the user
is left when the purge has not seen it, or when it comes after the purge.
-/

namespace Ascendance.Social

open Ascendance.Core

/-- The account is stored and not banned. -/
def Standing (db : Store) (userId : ℕ) : Prop :=
  ∃ u : User, db.doc (.user userId) = some u ∧ u.isBanned = false

/-- The users of a follow, a like, a membership or an open direct conversation. -/
def involved : ∀ k, Doc k → List ℕ
  | .follow follower followee, _ => [follower, followee]
  | .postLike _ user, _ => [user]
  | .commentLike _ user, _ => [user]
  | .member _ user, _ => [user]
  | .conversation _, c => if c.isGroup || c.isClosed then [] else c.participants
  | .adminMutationGuard, _ => []
  | .user _, _ => []
  | .post _, _ => []
  | .comment _, _ => []
  | .community _, _ => []

/-- The document under a key involves the user. -/
def Involves (userId : ℕ) (db : Store) (k : Key) : Prop :=
  ∃ d, db.doc k = some d ∧ userId ∈ involved k d

/-- Accounts that are banned or gone are involved in nothing. -/
def Vacated (db : Store) : Prop := ∀ userId, ¬ Standing db userId → ∀ k, ¬ Involves userId db k

/-- The user whom a command purges. -/
def Command.purgedUser : Command → Option ℕ
  | banUser _ _ userId => some userId
  | deleteUser _ _ userId => some userId
  | _ => none

/-- A purge has what involves the user on its snapshot, and what comes to involve a user finds the
account standing. -/
structure FindsAccounts (c : Command) (snapshot current : Committed Key Doc) (after : Store) :
    Prop where
  seen : ∀ userId, c.purgedUser = some userId → ∀ k, Involves userId current.db k →
    Involves userId snapshot.db k
  standing : ∀ userId k, ¬ Involves userId snapshot.db k → Involves userId after k →
    Standing current.db userId

section Bodies

variable {db db' after : Store} {userId : ℕ}

/-- Whether a document involves a user depends on the document alone. -/
theorem Involves.congr {k : Key} (hdoc : db'.doc k = db.doc k) (h : Involves userId db k) :
    Involves userId db' k := by
  obtain ⟨d, hd, huser⟩ := h
  exact ⟨d, hdoc.trans hd, huser⟩

/-- An account stands by its document alone. -/
theorem Standing.congr (hdoc : db'.doc (.user userId) = db.doc (.user userId))
    (h : Standing db userId) : Standing db' userId := by
  obtain ⟨u, hu, hactive⟩ := h
  exact ⟨u, hdoc.trans hu, hactive⟩

/-- An account stands by its flags. -/
private theorem standing_of_flags (hflags : flags after userId = flags db userId)
    (h : Standing db userId) : Standing after userId := by
  obtain ⟨u, hu, hactive⟩ := h
  have hsame : flags after userId = some (u.isAdmin, u.isBanned) := by
    rw [hflags, flags, hu]
    rfl
  obtain ⟨u', hu', hvalue⟩ := Option.map_eq_some_iff.mp hsame
  exact ⟨u', hu', (Prod.mk.inj hvalue).2.trans hactive⟩

/-- An update that does not ban keeps accounts standing. -/
private theorem standing_updateUser {id : ℕ} {f : User → User}
    (hf : ∀ u, u.isBanned = false → (f u).isBanned = false) (h : Standing db userId) :
    Standing (db.update (.user id) f) userId := by
  by_cases hid : userId = id
  · subst hid
    obtain ⟨u, hu, hactive⟩ := h
    refine ⟨f u, ?_, hf u hactive⟩
    rw [Database.doc_update_self db (.user userId) f, hu]
    rfl
  · exact h.congr (Database.doc_update_ne (k := Key.user id) db f (by simpa using hid))

/-- Nothing that a purge leaves involves the user. -/
theorem not_involves_purgeBody {natural : List ℕ} {action : AccountLifecycleAction}
    (h : purgeBody natural action userId db = .ok after) (k : Key) : ¬ Involves userId after k := by
  obtain ⟨db', herased⟩ : ∃ db', Erased userId db' after := by
    rcases purgeBody_eq h with h | ⟨db', -, h⟩
    · exact ⟨db, (erased_purgeUser h).1⟩
    · exact ⟨db', (erased_purgeUser h).1⟩
  rintro ⟨d, hd, huser⟩
  cases k with
  | follow follower followee =>
    have hself : follower = userId ∨ followee = userId := by simpa [involved, eq_comm] using huser
    cases (herased.follows follower followee hself).symm.trans hd
  | postLike post user =>
    obtain rfl : userId = user := by simpa [involved] using huser
    cases (herased.postLikes post).symm.trans hd
  | commentLike comment user =>
    obtain rfl : userId = user := by simpa [involved] using huser
    cases (herased.commentLikes comment).symm.trans hd
  | member community user =>
    obtain rfl : userId = user := by simpa [involved] using huser
    cases (herased.memberships community).symm.trans hd
  | conversation id =>
    obtain ⟨hmem, -⟩ := herased.conversations id d hd
    change userId ∈ (if d.isGroup || d.isClosed then [] else d.participants) at huser
    split at huser
    · cases huser
    · exact hmem huser
  | _ => cases huser

/-- A purge bans or deletes nobody else. -/
private theorem standing_purgeBody {natural : List ℕ} {action : AccountLifecycleAction} {v : ℕ}
    (h : purgeBody natural action v db = .ok after) (hne : userId ≠ v)
    (hstanding : Standing db userId) : Standing after userId := by
  rcases purgeBody_eq h with h | ⟨db', htouch, h⟩
  · exact standing_of_flags ((purgeUser_flags h).2 userId hne) hstanding
  · exact standing_of_flags (((purgeUser_flags h).2 userId hne).trans
      ((touch_spec htouch).2.1 userId)) hstanding

/-- A command keeps an account standing, or purges it and leaves nothing that involves the user. -/
theorem effect_standing {before : Committed Key Doc → Committed Key Doc → Prop}
    {snapshot : Committed Key Doc} {c : Command} (heffect : Effect before snapshot c after)
    (userId : ℕ) : (Standing snapshot.db userId → Standing after userId) ∨
      c.purgedUser = some userId ∧ ∀ k, ¬ Involves userId after k := by
  have hpurge : ∀ {natural action v}, purgeBody natural action v snapshot.db = .ok after →
      c.purgedUser = some v → (Standing snapshot.db userId → Standing after userId) ∨
        c.purgedUser = some userId ∧ ∀ k, ¬ Involves userId after k := by
    intro natural action v hbody hc
    by_cases hv : userId = v
    · subst hv
      exact .inr ⟨hc, not_involves_purgeBody hbody⟩
    · exact .inl (standing_purgeBody hbody hv)
  cases effect_flagChange heffect with
  | same h => exact .inl (standing_of_flags (h.user userId))
  | promote => exact .inl (standing_updateUser fun _ hactive => hactive)
  | unban => exact .inl (standing_updateUser fun _ _ => rfl)
  | demote hbody =>
    obtain ⟨db', htouch, rfl⟩ := demoteFromAdminBody_eq hbody
    exact .inl fun h => standing_updateUser (fun _ hactive => hactive)
      (standing_of_flags ((touch_spec htouch).2.1 userId) h)
  | ban hbody => exact hpurge hbody rfl
  | delete hbody => exact hpurge hbody rfl

end Bodies

/-- A commit that finds the accounts leaves the others vacated. -/
private theorem vacated_commit {before : Committed Key Doc → Committed Key Doc → Prop}
    {snapshot current : Committed Key Doc} {after : Store} {c : Command}
    (hcurrent : Vacated current.db) (hsince : Committed.Since serial snapshot current)
    (hfresh : Committed.Fresh snapshot current after) (heffect : Effect before snapshot c after)
    (hfinds : FindsAccounts c snapshot current after) :
    Vacated (snapshot.commit current after).db := by
  intro userId hgone k hinvolves
  rcases effect_standing heffect userId with hstands | ⟨hc, hnone⟩
  · -- The account did not stand before the commit either.
    have hbefore : ¬ Standing current.db userId := by
      intro hstanding
      apply hgone
      by_cases hu : after.doc (.user userId) = snapshot.db.doc (.user userId)
      · exact hstanding.congr (Database.doc_merge_same hu)
      · exact (hstands (hstanding.congr (hsince.unchanged hfresh hu).symm)).congr
          (Database.doc_merge_changed hu)
    by_cases hk : after.doc k = snapshot.db.doc k
    · exact hcurrent userId hbefore k (hinvolves.congr (Database.doc_merge_same hk).symm)
    · by_cases hold : Involves userId snapshot.db k
      · exact hcurrent userId hbefore k (hold.congr (hsince.unchanged hfresh hk))
      · exact hbefore (hfinds.standing userId k hold
          (hinvolves.congr (Database.doc_merge_changed hk).symm))
  · by_cases hk : after.doc k = snapshot.db.doc k
    · exact hnone k ((hfinds.seen userId hc k
        (hinvolves.congr (Database.doc_merge_same hk).symm)).congr hk)
    · exact hnone k (hinvolves.congr (Database.doc_merge_changed hk).symm)

/-- The discipline keeps purged accounts vacated. -/
private theorem purgedAccounts_kept :
    (discipline (fun c => Vacated c.db) (fun _ _ => True) FindsAccounts).Kept := by
  refine discipline_kept (fun _ => trivial) (fun _ _ _ _ _ _ _ => trivial) ?_
  rintro c snapshot current after ⟨-, hsince, -⟩ - hcurrent hfresh - heffect hfinds
  exact ⟨vacated_commit hcurrent hsince hfresh heffect hfinds, trivial⟩

/-- In every run whose purges see what involves the user, and whose other commits find the accounts
that they involve standing, a user who is banned or gone has no follow, no like, no membership and
no open direct conversation. -/
theorem purgedAccounts {c : Committed Key Doc} (hcoherent : Coherent c) (hvacated : Vacated c.db)
    {es : List (Event Command)} {w : SocialWorld}
    (hrun : Run (Restrict (Graph (World.step runtime)) (World.Commits FindsAccounts))
      (World.initial c) es w) :
    ∀ userId, (∀ u : User, w.state.db.doc (.user userId) = some u → u.isBanned = true) →
      (∀ follower followee, follower = userId ∨ followee = userId →
        w.state.db.doc (.follow follower followee) = none) ∧
      (∀ postId, w.state.db.doc (.postLike postId userId) = none) ∧
      (∀ commentId, w.state.db.doc (.commentLike commentId userId) = none) ∧
      (∀ communityId, w.state.db.doc (.member communityId userId) = none) ∧
      ∀ id (c : Conversation), w.state.db.doc (.conversation id) = some c →
        userId ∈ c.participants → c.isGroup = false → c.isClosed = true := by
  intro userId hbanned
  have hgone : ¬ Standing w.state.db userId := by
    rintro ⟨u, hu, hactive⟩
    simp [hbanned u hu] at hactive
  have hnone := discipline_run purgedAccounts_kept hcoherent hvacated hrun userId hgone
  have hfree : ∀ {k : Key}, (∀ d, userId ∈ involved k d) → w.state.db.doc k = none := by
    intro k huser
    by_contra hstored
    obtain ⟨d, hd⟩ := Option.ne_none_iff_exists'.mp hstored
    exact hnone k ⟨d, hd, huser d⟩
  refine ⟨fun follower followee hself => hfree fun _ => ?_,
    fun _ => hfree fun _ => List.mem_singleton_self _,
    fun _ => hfree fun _ => List.mem_singleton_self _,
    fun _ => hfree fun _ => List.mem_singleton_self _, fun id c hc hmem hgroup => ?_⟩
  · rcases hself with rfl | rfl <;> simp [involved]
  · by_contra hopen
    refine hnone (.conversation id) ⟨c, hc, ?_⟩
    simpa [involved, hgroup, hopen] using hmem

instance (userId : ℕ) (db : Store) (k : Key) : Decidable (Involves userId db k) :=
  decidable_of_iff ((db.doc k).any fun d => decide (userId ∈ involved k d)) (by
    simp [Option.any_eq_true, Involves])

instance (db : Store) (userId : ℕ) : Decidable (Standing db userId) :=
  decidable_of_iff ((db.doc (.user userId)).any fun u : User => !u.isBanned) (by
    simp [Option.any_eq_true, Standing])

/-- Every user of a document meets a condition. -/
def forInvolved (db : Store) (p : ℕ → Key → Bool) : Bool :=
  decide (∀ k ∈ db.ids, (db.doc k).all fun d => (involved k d).all fun userId => p userId k)

/-- The check covers what involves a user. -/
theorem of_forInvolved {db : Store} {p : ℕ → Key → Bool} (h : forInvolved db p = true) {userId : ℕ}
    {k : Key} (hinvolves : Involves userId db k) : p userId k = true := by
  obtain ⟨d, hd, huser⟩ := hinvolves
  have hall := of_decide_eq_true h k ((db.mem_ids k).mpr (by rw [hd]; rfl))
  rw [hd] at hall
  exact List.all_eq_true.mp hall userId huser

/-- A commit finds the accounts, by evaluation. -/
def findsAccounts (c : Command) (snapshot current : Committed Key Doc) (after : Store) : Bool :=
  forInvolved current.db (fun userId k =>
    decide (c.purgedUser = some userId → Involves userId snapshot.db k)) &&
  forInvolved after fun userId k =>
    decide (Involves userId snapshot.db k ∨ Standing current.db userId)

/-- The evaluation is right. -/
theorem findsAccounts_sound (c : Command) (snapshot current : Committed Key Doc) (after : Store)
    (h : findsAccounts c snapshot current after = true) :
    FindsAccounts c snapshot current after := by
  obtain ⟨hseen, hstanding⟩ := Bool.and_eq_true_iff.mp h
  refine ⟨fun userId hc k hinvolves => of_decide_eq_true (of_forInvolved hseen hinvolves) hc,
    fun userId k hnew hinvolves => ?_⟩
  exact (of_decide_eq_true (of_forInvolved hstanding hinvolves)).resolve_left hnew

private theorem vacated_twoUsers : Vacated twoUsers := by
  rintro userId - k ⟨d, hd, huser⟩
  have hk : k.collection ≠ .users := by
    rintro hk
    cases k with
    | user => cases huser
    | _ => cases hk
  cases (twoUsers_eq_none hk).symm.trans hd

/-- A user who follows another one and likes a post is banned. -/
theorem purgedAccounts_ban :
    ∃ w : SocialWorld, Run (Restrict (Graph (World.step runtime)) (World.Commits FindsAccounts))
        (World.initial (.ofDatabase twoUsers))
        [.start 0 (.createPost 10 1 none true), .advance 0, .advance 0, .advance 0, .advance 0,
          .advance 0, .advance 0, .start 1 (.setFollowState 2 1 true),
          .start 2 (.likeActionByPublicId 2 10), .advance 1, .advance 2, .advance 1, .advance 2,
          .advance 1, .advance 2, .advance 1, .advance 2, .advance 1, .start 3 (.banUser [] 1 2),
          .advance 3, .advance 3, .advance 3, .advance 3, .advance 3] w ∧
      (∀ follower followee, follower = 2 ∨ followee = 2 →
        w.state.db.doc (.follow follower followee) = none) ∧
      ∀ postId, w.state.db.doc (.postLike postId 2) = none := by
  let check (w : SocialWorld) (e : Event Command) : Bool :=
    (w.attempt e).all fun (c, snapshot, after) => findsAccounts c snapshot w.state after
  have hevaluates : ((exec (fun w e => if check w e then World.step runtime w e else none)
      (World.initial (.ofDatabase twoUsers) : SocialWorld)
      [.start 0 (.createPost 10 1 none true), .advance 0, .advance 0, .advance 0, .advance 0,
        .advance 0, .advance 0, .start 1 (.setFollowState 2 1 true),
        .start 2 (.likeActionByPublicId 2 10), .advance 1, .advance 2, .advance 1, .advance 2,
        .advance 1, .advance 2, .advance 1, .advance 2, .advance 1, .start 3 (.banUser [] 1 2),
        .advance 3, .advance 3, .advance 3, .advance 3, .advance 3]).any fun w =>
      (w.state.db.doc (.user 2)).all fun u : User => u.isBanned) = true := by decide +kernel
  obtain ⟨w, hw, hbanned⟩ := (Option.any_eq_true _ _).mp hevaluates
  have hrun := exec_restrict (fun w e h => World.commits_of_all findsAccounts_sound h) hw
  have hgone : ∀ u : User, w.state.db.doc (.user 2) = some u → u.isBanned = true :=
    fun u hu => by rwa [hu] at hbanned
  obtain ⟨hfollows, hlikes, -⟩ :=
    purgedAccounts (coherent_of_unreferring (by decide)) vacated_twoUsers hrun 2 hgone
  exact ⟨w, hrun, hfollows, hlikes⟩

/-- A follow reaches a user who was banned since the handler had read the account. -/
theorem purgedAccounts_followBanned :
    ¬ ∀ (es : List (Event Command)) (w : SocialWorld),
      Run (Graph (World.step runtime)) (World.initial (.ofDatabase twoUsers)) es w →
      ∀ userId (u : User), w.state.db.doc (.user userId) = some u → u.isBanned = true →
        ∀ follower, w.state.db.doc (.follow follower userId) = none := by
  intro hvacated
  have hfollow : ((exec (World.step runtime) (World.initial (.ofDatabase twoUsers) : SocialWorld)
      [.start 1 (.setFollowState 1 2 true), .advance 1, .advance 1, .start 2 (.banUser [] 1 2),
        .advance 2, .advance 2, .advance 2, .advance 2, .advance 2, .advance 1, .advance 1,
        .advance 1]).any fun w =>
      ((w.state.db.doc (.user 2)).any fun u : User => u.isBanned) &&
        (w.state.db.doc (.follow 1 2)).isSome) = true := by
    decide +kernel
  obtain ⟨w, hrun, hfollow⟩ := exec_any hfollow
  obtain ⟨huser, hstored⟩ := Bool.and_eq_true_iff.mp hfollow
  obtain ⟨u, hu, hbanned⟩ := (Option.any_eq_true _ _).mp huser
  rw [hvacated _ w hrun 2 u hu hbanned 1] at hstored
  cases hstored

end Ascendance.Social
