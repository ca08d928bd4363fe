import Ascendance.Core.Ownership
import Ascendance.Models.Social.Identity

/-!
# Pending posts

A post is stored as pending; the handler that stored it makes it active or marks it as failed,
and until then it alone changes the status. So the handler finds the post pending or gone.
-/

namespace Ascendance.Social

open Ascendance.Core ContentCleanupService AccountLifecycleService

/-- What a document shows of its publication. -/
abbrev Status : Key → Type
  | .post _ => Option PostStatus
  | _ => Unit

/-- The publication status of the posts. -/
def status : Trait Key Doc Status where
  has k := k.collection = .posts
  value
    | .post _, p => p.status
    | .adminMutationGuard, _ => ()
    | .user _, _ => ()
    | .follow _ _, _ => ()
    | .comment _, _ => ()
    | .postLike _ _, _ => ()
    | .commentLike _ _, _ => ()
    | .community _, _ => ()
    | .member _ _, _ => ()
    | .conversation _, _ => ()

instance : Lasting status where
  referring := by
    rintro k (hk : k.collection = .posts)
    rw [hk]
    decide
  post := by
    intro id p q h
    simp only [Post.content, Prod.mk.injEq] at h
    exact h.2.1
  comment := fun _ _ _ _ => rfl
  other := by
    intro k hk
    cases k with
    | post id => simp at hk
    | _ => infer_instance

/-- Commands that do not create posts leave the status of stored ones. -/
theorem status_of_effect {before : Committed Key Doc → Committed Key Doc → Prop}
    {snapshot : Committed Key Doc} {after : Store} {c : Command}
    (heffect : Effect before snapshot c after)
    (hc : ∀ id userId communityId uploaded, c ≠ .createPost id userId communityId uploaded)
    {id : ℕ} {p q : Post} (hp : snapshot.db.doc (.post id) = some p)
    (hq : after.doc (.post id) = some q) : q.status = p.status := by
  have hstays : ∀ {db : Store}, db.doc (.post id) = some p → status.Stays db after →
      q.status = p.status := by
    intro db hdb h
    rcases h (.post id) rfl with hnone | hsame
    · cases hq.symm.trans (Trait.of_eq_none.mp hnone)
    · rw [Trait.of_eq_some hq, Trait.of_eq_some hdb] at hsame
      exact Option.some.inj hsame
  cases effect_authors (T := status) heffect fun _ _ _ _ h => absurd h (hc _ _ _ _) with
  | nothing h => exact hstays hp h
  | new k d hfree _ _ h =>
    refine hstays ?_ h
    rw [Database.doc_put_ne _ d ?_, hp]
    rintro rfl
    cases hp.symm.trans hfree

/-- The handler of a new post leaves the other posts alone. -/
theorem doc_of_createPost {before : Committed Key Doc → Committed Key Doc → Prop}
    {snapshot : Committed Key Doc} {after : Store} {id id' userId : ℕ} {communityId : Option ℕ}
    {uploaded : Bool}
    (heffect : Effect before snapshot (.createPost id' userId communityId uploaded) after)
    (hid : id ≠ id') : after.doc (.post id) = snapshot.db.doc (.post id) := by
  have hkey : Key.post id ≠ .post id' := fun h => hid (Key.post.inj h)
  cases heffect with
  | createPendingPost _ _ hbody =>
    obtain ⟨-, rfl⟩ := create_eq_ok.mp hbody
    exact Database.doc_put_ne _ _ hkey
  | activatePendingPost _ _ hbody =>
    obtain ⟨_, -, -, rfl⟩ := activatePendingPostBody_eq hbody
    rw [countPost_confined _ _ _ (.post id) (by simp)]
    exact Database.doc_update_ne (k := Key.post id') _ _ hkey
  | markPendingPostFailed => exact Database.doc_update_ne (k := Key.post id') _ _ hkey

/-- Nothing is committed any more. -/
def OnlyReads : Handler → Prop
  | .done _ => True
  | .read next => ∀ db, OnlyReads (next db)
  | .write _ _ => False
  | .transact _ _ => False

/-- The first commit stores the pending post. -/
def Prepares (id userId : ℕ) (communityId : Option ℕ) (uploaded : Bool) : Handler → Prop
  | .done _ => True
  | .read next => ∀ db, Prepares id userId communityId uploaded (next db)
  | .write _ _ => False
  | .transact body next => Program.transact body next =
    executeInTransaction (createPendingPostBody id userId communityId)
      (activatePendingPost id userId communityId uploaded)

/-- The post is stored, and is to become active or to be marked as failed. -/
inductive Finishes (id userId : ℕ) (communityId : Option ℕ) : Handler → Prop
  | activate : Finishes id userId communityId (activatePendingPost id userId communityId true)
  | fail (error : AppError) : Finishes id userId communityId (markPendingPostFailed id error)

section Stages

variable {id userId : ℕ} {communityId : Option ℕ} {uploaded : Bool} {p : Handler}

/-- An activation finishes the post. -/
private theorem finishes_activatePendingPost :
    Finishes id userId communityId (activatePendingPost id userId communityId uploaded) := by
  cases uploaded with
  | true => exact .activate
  | false => exact .fail _

private theorem onlyReads_requirePost {error : AppError} :
    OnlyReads (requirePost id error fun _ => returns) := by
  intro db
  dsimp only
  split
  · split <;> trivial
  · trivial

/-- A created post is prepared and then finished. -/
private theorem prepares_createPost :
    Prepares id userId communityId uploaded (createPost id userId communityId uploaded) := by
  intro db
  dsimp only
  split
  · cases communityId with
    | none => exact rfl
    | some community =>
      intro db'
      dsimp only
      split
      · intro db''
        dsimp only
        split
        · exact rfl
        · trivial
      · trivial
  · trivial

/-- How far the handler of a new post has come. -/
theorem stages_createPost (h : (createPost id userId communityId uploaded).Leads p) :
    Prepares id userId communityId uploaded p ∨ Finishes id userId communityId p ∨
      OnlyReads p := by
  induction h with
  | refl => exact .inl prepares_createPost
  | @read next _ db ih =>
    rcases ih with hprepares | hfinishes | hreads
    · exact .inl (hprepares db)
    · cases hfinishes
    · exact .inr (.inr (hreads db))
  | @write f next _ db ih =>
    rcases ih with hprepares | hfinishes | hreads
    · cases hprepares
    · cases hfinishes
    · cases hreads
  | @transact body next _ result ih =>
    rcases ih with hprepares | hfinishes | hreads
    · obtain ⟨rfl, rfl⟩ := Program.transact.inj hprepares
      cases result with
      | ok => exact .inr (.inl finishes_activatePendingPost)
      | error e => exact .inr (.inr trivial)
    · cases hfinishes with
      | activate =>
        cases result with
        | ok => exact .inr (.inr onlyReads_requirePost)
        | error e => exact .inr (.inl (.fail e))
      | fail error => exact .inr (.inr trivial)
    · cases hreads

end Stages

/-- The handler that has stored a post owns it until it is active or failed, and keeps it
pending. -/
def pendingPosts : Ownership Key Doc Command AppError Unit where
  owns
    | .createPost id userId communityId _, p, k =>
      k = .post id ∧ Finishes id userId communityId p
    | _, _, _ => False
  quiet
    | .post _, p => p.status = some .pending
    | _, _ => True

/-- Only the handler of a new post owns anything. -/
theorem owns_cases {c : Command} {p : Handler} {k : Key} (h : pendingPosts.owns c p k) :
    ∃ id userId communityId uploaded, c = .createPost id userId communityId uploaded ∧
      k = .post id ∧ Finishes id userId communityId p := by
  cases c with
  | createPost id userId communityId uploaded =>
    exact ⟨id, userId, communityId, uploaded, rfl, h.1, h.2⟩
  | _ => cases h

/-- What does not commit again finishes nothing. -/
theorem OnlyReads.not_finishes {id userId : ℕ} {communityId : Option ℕ} {p : Handler}
    (h : OnlyReads p) : ¬ Finishes id userId communityId p := by
  intro hfinishes
  cases hfinishes <;> exact h

/-- On an empty store only the first transaction stores a post. -/
theorem Prepares.not_finishes {id userId : ℕ} {communityId : Option ℕ} {uploaded : Bool}
    {p : Handler} (h : Prepares id userId communityId uploaded p) :
    ¬ Finishes id userId communityId p := by
  intro hfinishes
  cases hfinishes with
  | activate =>
    have hbody := congrFun (Program.transact.inj h).1 Database.empty
    cases hbody
  | fail error =>
    have hbody := congrFun (Program.transact.inj h).1 Database.empty
    have hdoc := congrArg (fun db : Store => db.doc (.post id)) (Except.ok.inj hbody)
    rw [markPendingPostFailedBody, Database.doc_update_self, Database.doc_put_self] at hdoc
    cases hdoc

/-- A pending post is as it was stored, in what its handler owns. -/
theorem quiet_createPendingPostBody {id userId : ℕ} {communityId : Option ℕ} {db after : Store}
    (h : createPendingPostBody id userId communityId db = .ok after) :
    db.doc (.post id) = none ∧ after.doc (.post id) ≠ none ∧
      pendingPosts.Quiet after (.post id) := by
  obtain ⟨hfree, rfl⟩ := create_eq_ok.mp h
  refine ⟨hfree, by rw [Database.doc_put_self]; simp, fun p hp => ?_⟩
  rw [Database.doc_put_self] at hp
  obtain rfl := Option.some.inj hp
  rfl

/-- The handlers follow the protocol of pending posts. -/
private theorem pendingPosts_lawful : pendingPosts.Lawful runtime where
  serial c p k h := by
    obtain ⟨id, _, _, _, -, rfl, -⟩ := owns_cases h
    rfl
  start c k h := by
    obtain ⟨id, userId, communityId, uploaded, rfl, -, hfinishes⟩ := owns_cases h
    cases hfinishes
  read c next db k hleads h := by
    obtain ⟨id, userId, communityId, uploaded, rfl, -, hfinishes⟩ := owns_cases h
    rcases stages_createPost hleads with hprepares | hfinishes' | hreads
    · exact absurd hfinishes (Prepares.not_finishes (hprepares db))
    · cases hfinishes'
    · exact absurd hfinishes (OnlyReads.not_finishes (hreads db))
  write c f next db k hleads h := by
    obtain ⟨id, userId, communityId, uploaded, rfl, -, -⟩ := owns_cases h
    rcases stages_createPost hleads with hprepares | hfinishes | hreads
    · cases hprepares
    · cases hfinishes
    · cases hreads
  fail c body next error k hleads h := by
    obtain ⟨id, userId, communityId, uploaded, rfl, rfl, hfinishes⟩ := owns_cases h
    rcases stages_createPost hleads with hprepares | hfinishes' | hreads
    · obtain ⟨rfl, rfl⟩ := Program.transact.inj hprepares
      cases hfinishes
    · exact ⟨rfl, hfinishes'⟩
    · cases hreads
  commit c body next db after k hleads hbody h := by
    obtain ⟨id, userId, communityId, uploaded, rfl, rfl, hfinishes⟩ := owns_cases h
    rcases stages_createPost hleads with hprepares | hfinishes' | hreads
    · obtain ⟨rfl, rfl⟩ := Program.transact.inj hprepares
      exact .inr (quiet_createPendingPostBody hbody)
    · cases hfinishes' with
      | activate => cases hfinishes
      | fail error => cases hfinishes
    · cases hreads

section Runs

variable {w : SocialWorld} {e : Event Command}

/-- The handler of a new post stores it, or finishes it while it is pending or gone. -/
theorem attempt_createPost (hheld : pendingPosts.Held runtime w) {id userId : ℕ}
    {communityId : Option ℕ} {uploaded : Bool} {snapshot : Committed Key Doc} {after : Store}
    (h : w.attempt e = some (.createPost id userId communityId uploaded, snapshot, after)) :
    createPendingPostBody id userId communityId snapshot.db = .ok after ∨
      pendingPosts.Quiet snapshot.db (.post id) ∧
        ∃ i p, e = .advance i ∧ (w.task i).program =
          some (.createPost id userId communityId uploaded, p) ∧
            Finishes id userId communityId p := by
  obtain ⟨i, rfl, ⟨moments, f, next, htask, rfl, rfl⟩ | ⟨moments, body, next, htask, hbody⟩⟩ :=
    World.attempt_cases h
  · have hleads : (createPost id userId communityId uploaded).Leads (.write f next) :=
      hheld.leads i (.createPost id userId communityId uploaded) _ (by rw [htask]; rfl)
    rcases stages_createPost hleads with hprepares | hfinishes | hreads
    · cases hprepares
    · cases hfinishes
    · cases hreads
  · have hprogram : (w.task i).program =
        some (.createPost id userId communityId uploaded, .transact body next) := by
      rw [htask]
      rfl
    have hleads : (createPost id userId communityId uploaded).Leads (.transact body next) :=
      hheld.leads i (.createPost id userId communityId uploaded) _ hprogram
    rcases stages_createPost hleads with hprepares | hfinishes | hreads
    · obtain ⟨rfl, rfl⟩ := Program.transact.inj hprepares
      exact .inl hbody
    · exact .inr ⟨hheld.snapshot i _ _ _ _ _ _ htask ⟨rfl, hfinishes⟩, i, _, rfl, hprogram,
        hfinishes⟩
    · cases hreads

/-- A handler that finishes its post finds it pending or gone. -/
def FindsPending : Command → Committed Key Doc → Committed Key Doc → Store → Prop
  | .createPost id _ _ _, snapshot, _, _ => pendingPosts.Quiet snapshot.db (.post id)
  | _, _, _, _ => True

/-- A commit finds its pending post. -/
private theorem commits_findsPending (hheld : pendingPosts.Held runtime w) :
    w.Commits FindsPending e := by
  intro c snapshot after h
  cases c with
  | createPost id userId communityId uploaded =>
    rcases attempt_createPost hheld h with hbody | ⟨hquiet, -⟩
    · intro p hp
      cases (quiet_createPendingPostBody hbody).1.symm.trans hp
    · exact hquiet
  | _ => trivial

/-- Other tasks leave a pending post pending. -/
theorem pendingPosts_respects (hheld : pendingPosts.Held runtime w)
    (heffect : ∀ c snapshot after, w.attempt e = some (c, snapshot, after) →
      Committed.Since serial snapshot w.state ∧ ∃ before, Effect before snapshot c after) :
    pendingPosts.Respects serial w e := by
  intro c snapshot after h
  obtain ⟨hsince, before, heffect⟩ := heffect c snapshot after h
  refine ⟨hsince, fun i p k he hprogram _ hnot hstored hquiet => ?_⟩
  cases k with
  | post id =>
    intro q hq
    obtain ⟨p₀, hp₀⟩ := Option.ne_none_iff_exists'.mp hstored
    have hpending : p₀.status = some .pending := hquiet p₀ hp₀
    by_cases hc : ∃ id userId communityId uploaded, c = .createPost id userId communityId uploaded
    · obtain ⟨id', userId, communityId, uploaded, rfl⟩ := hc
      by_cases hid : id = id'
      · subst hid
        rcases attempt_createPost hheld h with hbody | ⟨-, j, p', hj, hprogram', hfinishes⟩
        · exact absurd (quiet_createPendingPostBody hbody).1 hstored
        · subst he
          cases hj
          obtain ⟨-, rfl⟩ := Prod.mk.inj (Option.some.inj (hprogram.symm.trans hprogram'))
          exact absurd ⟨rfl, hfinishes⟩ hnot
      · rw [doc_of_createPost heffect hid] at hq
        exact hquiet q hq
    · exact (status_of_effect heffect (fun a b c d h => hc ⟨a, b, c, d, h⟩) hp₀ hq).trans hpending
  | _ => exact fun _ _ => trivial

/-- A property holds in every run when every commit keeps it that finds its own post pending. -/
theorem discipline_run_pending {good : Committed Key Doc → Prop}
    {later : Committed Key Doc → Committed Key Doc → Prop}
    {condition : Command → Committed Key Doc → Committed Key Doc → Store → Prop}
    (hkept : (discipline good later fun c snapshot current after =>
      condition c snapshot current after ∧ FindsPending c snapshot current after).Kept)
    {c : Committed Key Doc} (hcoherent : Coherent c) (hgood : good c) {es : List (Event Command)}
    {w : SocialWorld}
    (hrun : Run (Restrict (Graph (World.step runtime)) (World.Commits condition))
      (World.initial c) es w) : good w.state := by
  let D := discipline good later fun c snapshot current after =>
    condition c snapshot current after ∧ FindsPending c snapshot current after
  have hstep : ∀ (w : SocialWorld) e w', D.SoundWorld w ∧ pendingPosts.Held runtime w →
      Restrict (Graph (World.step runtime)) (World.Commits condition) w e w' →
      D.SoundWorld w' ∧ pendingPosts.Held runtime w' := by
    rintro w e w' ⟨hsound, hheld⟩ ⟨hcommits, hstep⟩
    have hpending := commits_findsPending (e := e) hheld
    have hmeets : D.Meets (fun _ => True) w e :=
      ⟨fun c s a h => ⟨hcommits c s a h, hpending c s a h⟩, fun _ _ _ => trivial⟩
    refine ⟨hsound.step hkept rfl (fun c _ => handler_sound (D := D) (fun _ _ _ h => h) c) hmeets
      hstep, hheld.step pendingPosts_lawful (pendingPosts_respects hheld fun c s a h => ?_) hstep⟩
    obtain ⟨hbefore, heffect⟩ := hsound.attempt hkept.refl h
    exact ⟨hbefore.2.1, _, heffect⟩
  have hinitial : D.SoundWorld (World.initial c : SocialWorld) :=
    Discipline.soundWorld_initial ⟨hcoherent, hgood⟩
  exact (hrun.invariant hstep ⟨hinitial, Ownership.held_initial c⟩).1.good.2

end Runs

end Ascendance.Social
