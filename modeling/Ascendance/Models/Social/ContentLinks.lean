import Ascendance.Models.Social.Counters

/-!
# Posts and comments that are referred to

Comments belong to posts and reply to comments, likes belong to either, and reposts have a
target. A handler reads the target before its transaction; the transaction writes it again, so
a deletion in between conflicts with it. Only a target that is gone on the snapshot is missed.
-/

namespace Ascendance.Social

open Ascendance.Core ContentCleanupService AccountLifecycleService

/-- The posts and the comments that documents refer to. -/
def contentLinks : Links Key Doc where
  needs k d o := references.needs k d o ∧ o.collection ∈ [Collection.posts, .comments]
  serves _ _ _ := True

section Steps

variable {db after : Store}

/-- The links hold when everything that a document needs is there. -/
theorem contentLinked_iff : contentLinks.Linked db ↔
    ∀ k d o, db.doc k = some d → contentLinks.needs k d o → db.doc o ≠ none := by
  constructor
  · intro h k d o hd hneeds
    obtain ⟨e, he, -⟩ := h k d o hd hneeds
    simp [he]
  · intro h k d o hd hneeds
    obtain ⟨e, he⟩ := Option.ne_none_iff_exists'.mp (h k d o hd hneeds)
    exact ⟨e, he, trivial⟩

/-- Only posts, comments and likes refer to content. -/
theorem counted_of_needs {k o : Key} {d : Doc k} (h : contentLinks.needs k d o) :
    k.collection ∈ counted ∧ o.collection ∈ counted := by
  obtain ⟨hrefers, ho⟩ := h
  have hsub : [Collection.posts, .comments] ⊆ counted := by decide
  refine ⟨?_, hsub ho⟩
  cases k with
  | follow follower followee => rcases hrefers with rfl | rfl <;> simp at ho
  | member community user => rcases hrefers with rfl | rfl <;> simp at ho
  | post | comment | postLike | commentLike => simp [counted]
  | _ => cases hrefers

private theorem identity_of_needs {k o : Key} {d : Doc k} (h : contentLinks.needs k d o) :
    identity.has k := identity_of_refers h.1

/-- What is needed now was needed before, when nothing is new. -/
theorem needs_of_stays (h : identity.Stays db after) {k o : Key} {d : Doc k}
    (hd : after.doc k = some d) (hneeds : contentLinks.needs k d o) :
    ∃ d', db.doc k = some d' ∧ contentLinks.needs k d' o := by
  obtain ⟨d', hd', hvalue⟩ := h.exists_of_doc (identity_of_needs hneeds) hd
  refine ⟨d', hd', ?_, hneeds.2⟩
  change Refers k (identity.value k d') o
  rw [hvalue]
  exact hneeds.1

/-- Links stay when what is still needed stays. -/
theorem contentLinked_of_stays (hl : contentLinks.Linked db) (hstays : identity.Stays db after)
    (h : ∀ k d o, after.doc k = some d → contentLinks.needs k d o → db.doc o ≠ none →
      after.doc o ≠ none) : contentLinks.Linked after := by
  rw [contentLinked_iff] at hl ⊢
  intro k d o hd hneeds
  obtain ⟨d', hd', hneeds'⟩ := needs_of_stays hstays hd hneeds
  exact h k d o hd hneeds (hl k d' o hd' hneeds')

/-- Nothing comes to be needed when nothing is new. -/
theorem contentTouches_of_stays (h : identity.Stays db after) :
    contentLinks.Touches db after := by
  rintro k o ⟨⟨d, hd, hneeds⟩, hnot⟩
  obtain ⟨d', hd', hneeds'⟩ := needs_of_stays h hd hneeds
  exact absurd hneeds' (hnot d' hd')

/-- A new document writes what it needs. -/
theorem contentTouches_of_new {k : Key} {d : Doc k} (h : identity.Stays (db.put k d) after)
    (htouches : ∀ o, contentLinks.needs k d o → after.doc o ≠ db.doc o) :
    contentLinks.Touches db after := by
  rintro j o ⟨⟨e, he, hneeds⟩, hnot⟩
  obtain ⟨e', he', hneeds'⟩ := needs_of_stays h he hneeds
  by_cases hj : j = k
  · subst hj
    rw [Database.doc_put_self] at he'
    obtain rfl := Option.some.inj he'
    exact htouches o hneeds'
  · rw [Database.doc_put_ne db d hj] at he'
    exact absurd hneeds' (hnot e' he')

/-- A change outside the counted collections keeps the links. -/
theorem contentLinked_of_confined {C : List Collection} (hl : contentLinks.Linked db)
    (h : Confined C db after) (hcs : ∀ c ∈ C, c ∉ counted) : contentLinks.Linked after := by
  have hsame : ∀ k, k.collection ∈ counted → after.doc k = db.doc k :=
    fun k hk => h k fun hmem => hcs _ hmem hk
  rw [contentLinked_iff] at hl ⊢
  intro k d o hd hneeds
  obtain ⟨hk, ho⟩ := counted_of_needs hneeds
  rw [hsame o ho]
  exact hl k d o ((hsame k hk).symm.trans hd) hneeds

/-- Inserting a document whose targets are there keeps the links. -/
theorem contentLinked_put {k : Key} {d : Doc k} (hl : contentLinks.Linked db)
    (htargets : ∀ o, contentLinks.needs k d o → db.doc o ≠ none) :
    contentLinks.Linked (db.put k d) := by
  have hstored : ∀ o, db.doc o ≠ none → (db.put k d).doc o ≠ none := by
    intro o ho
    by_cases hk : o = k
    · subst hk
      rw [Database.doc_put_self]
      exact Option.some_ne_none d
    · rwa [Database.doc_put_ne db d hk]
  rw [contentLinked_iff] at hl ⊢
  intro j e o he hneeds
  apply hstored
  by_cases hj : j = k
  · subst hj
    rw [Database.doc_put_self] at he
    obtain rfl := Option.some.inj he
    exact htargets o hneeds
  · rw [Database.doc_put_ne db d hj] at he
    exact hl j e o he hneeds

/-- An update that keeps what a document needs keeps the links. -/
theorem contentLinked_update {k : Key} {f : Doc k → Doc k} (hl : contentLinks.Linked db)
    (h : identity.Stays db (db.update k f)) : contentLinks.Linked (db.update k f) := by
  refine contentLinked_of_stays hl h fun _ _ o _ _ ho => ?_
  rwa [← Option.isSome_iff_ne_none, Database.isSome_doc_update, Option.isSome_iff_ne_none]

/-- Updates that keep identities keep the content linked. -/
private theorem contentLinked_updateMany {f : ∀ k, Doc k → Doc k} (hl : contentLinks.Linked db)
    (h : identity.Stays db (db.updateMany f)) : contentLinks.Linked (db.updateMany f) := by
  refine contentLinked_of_stays hl h fun _ _ o _ _ ho => ?_
  rw [Database.doc_updateMany]
  exact fun hnone => ho (Option.map_eq_none_iff.mp hnone)

/-- Documents go together with those that need them. -/
theorem contentLinked_deleteMany {p : ∀ k, Doc k → Bool} (hl : contentLinks.Linked db)
    (h : ∀ k d o e, db.doc k = some d → p k d = false → contentLinks.needs k d o →
      db.doc o = some e → p o e = false) : contentLinks.Linked (db.deleteMany p) := by
  refine contentLinked_of_stays hl (.deleteMany p) fun k d o hd hneeds ho => ?_
  obtain ⟨hd, hp⟩ := Database.doc_deleteMany_eq_some.mp hd
  obtain ⟨e, he⟩ := Option.ne_none_iff_exists'.mp ho
  rw [Database.doc_deleteMany_eq_some.mpr ⟨he, h k d o e hd hp hneeds he⟩]
  exact Option.some_ne_none e

/-- What nothing needs may go. -/
theorem contentLinked_delete {j : Key} (hl : contentLinks.Linked db)
    (h : ∀ k d, db.doc k = some d → ¬ contentLinks.needs k d j) :
    contentLinks.Linked (db.delete j) := by
  refine contentLinked_of_stays hl (.delete j) fun k d o hd hneeds ho => ?_
  have hk : k ≠ j := by
    rintro rfl
    rw [Database.doc_delete_self] at hd
    cases hd
  rw [Database.doc_delete_ne db hk] at hd
  rwa [Database.doc_delete_ne]
  rintro rfl
  exact h k d hd hneeds

end Steps

section Bodies

variable {db after : Store}

/-- Deleting a graph of posts keeps the links. -/
theorem contentLinked_deletePostGraph (roots : Finset Key) (hthreaded : Threaded db)
    (hl : contentLinks.Linked db) : contentLinks.Linked (deletePostGraph roots db) := by
  unfold deletePostGraph
  dsimp only
  split
  · exact hl
  refine contentLinked_of_confined (C := [.users, .communities]) (contentLinked_updateMany ?_
    (stays_onPosts fun _ _ => by split <;> rfl)) (.trans
      (.updateMany fun _ _ => onUsers_outside (by simp))
      (.updateMany fun _ _ => onCommunities_outside (by simp))) (by decide)
  rw [deleteGraph_eq]
  refine contentLinked_deleteMany hl fun k d o e hd hstays hneeds he => ?_
  obtain ⟨hrefers, ho⟩ := hneeds
  cases k with
  | post id =>
    obtain rfl | ⟨target, htarget, rfl⟩ | ⟨_, _, rfl⟩ := hrefers
    · simp at ho
    · have hid : Key.post id ∉ collectPostGraph roots db := by simpa [goesWith] using hstays
      simpa [goesWith] using fun hmem => hid (repost_mem_collectPostGraph hd htarget hmem)
    · simp at ho
  | comment id =>
    have hpost : Key.post d.postId ∉ collectPostGraph roots db := by simpa [goesWith] using hstays
    obtain rfl | ⟨parent, hparent, rfl⟩ := hrefers
    · simpa [goesWith, identity] using hpost
    · -- The parent belongs to the same post.
      have hsame : Comment.postId e = d.postId := hthreaded id d.postId parent _
        (by rw [thread, Trait.of_eq_some hd, ← hparent]; rfl) (Trait.of_eq_some he)
      rw [← hsame] at hpost
      simpa [goesWith] using hpost
  | postLike post user =>
    obtain rfl | rfl := hrefers
    · simpa [goesWith] using hstays
    · simp at ho
  | commentLike comment user =>
    obtain rfl | rfl := hrefers
    · have hnot : Key.comment comment ∉ db.find (comments fun _ c =>
          decide (.post c.postId ∈ collectPostGraph roots db)) := by
        simpa [goesWith] using hstays
      have hpost : Key.post (Comment.postId e) ∉ collectPostGraph roots db :=
        fun hmem => hnot (Database.mem_find.mpr ⟨e, he, by simpa using hmem⟩)
      simpa [goesWith] using hpost
    · simp at ho
  | follow follower followee => rcases hrefers with rfl | rfl <;> simp at ho
  | member community user => rcases hrefers with rfl | rfl <;> simp at ho
  | _ => cases hrefers

/-- Nothing refers to a like of a comment. -/
private theorem contentLinked_deleteCommentLikes (p : ℕ → ℕ → Bool) (hl : contentLinks.Linked db) :
    contentLinks.Linked (db.deleteMany (commentLikes p)) := by
  refine contentLinked_deleteMany hl fun _ _ o _ _ _ hneeds _ => ?_
  cases o with
  | commentLike => simp [contentLinks] at hneeds
  | _ => rfl

/-- Tombstones keep the content linked. -/
private theorem contentLinked_tombstoneComments (userId : ℕ) (hl : contentLinks.Linked db) :
    contentLinks.Linked (tombstoneComments userId db) :=
  contentLinked_updateMany (contentLinked_updateMany (contentLinked_deleteCommentLikes _ hl)
    (stays_onComments fun _ _ => by split <;> rfl)) (stays_onComments fun _ _ => by split <;> rfl)

/-- Taking interactions away keeps the content linked. -/
private theorem contentLinked_removePostInteractions (userId : ℕ) (hl : contentLinks.Linked db) :
    contentLinks.Linked (removePostInteractions userId db) := by
  refine contentLinked_updateMany (contentLinked_deleteMany hl fun _ _ o _ _ _ hneeds _ => ?_)
    (stays_onPosts fun _ _ => by split <;> rfl)
  cases o with
  | postLike => simp [contentLinks] at hneeds
  | _ => rfl

/-- A comment goes when nothing replies to it. -/
theorem contentLinked_deleteCommentBody (id postId : ℕ) (parentId : Option ℕ)
    (hl : contentLinks.Linked db) :
    contentLinks.Linked (deleteCommentBody id postId parentId db) := by
  have hlikes := contentLinked_deleteCommentLikes (fun comment _ => comment == id) hl
  unfold deleteCommentBody
  dsimp only
  split
  · exact contentLinked_update hlikes (stays_updateComment fun _ => rfl)
  next hreplies =>
  have hdelete : contentLinks.Linked
      ((db.deleteMany (likesOfComment id)).delete (.comment id)) := by
    refine contentLinked_delete hlikes fun k d hd ⟨hrefers, _⟩ => ?_
    obtain ⟨hd, hstays⟩ := Database.doc_deleteMany_eq_some.mp hd
    cases k with
    | comment reply =>
      obtain hpost | ⟨parent, hparent, hid⟩ := hrefers
      · cases hpost
      · have hnone := Database.count_eq_zero.mp (Nat.eq_zero_of_not_pos hreplies) _ d hd
        have hparent' : d.parentId = some id :=
          hparent.trans (congrArg some (Key.comment.inj hid).symm)
        simp [repliesOf, hparent'] at hnone
    | commentLike comment user =>
      obtain hcomment | huser := hrefers
      · simp [likesOfComment, Key.comment.inj hcomment] at hstays
      · cases huser
    | post post => obtain h | ⟨_, _, h⟩ | ⟨_, _, h⟩ := hrefers <;> cases h
    | postLike post user => obtain h | h := hrefers <;> cases h
    | follow follower followee => obtain h | h := hrefers <;> cases h
    | member community user => obtain h | h := hrefers <;> cases h
    | _ => cases hrefers
  have hcounted :=
    contentLinked_updateMany hdelete (stays_recomputePostCommentCounts {.post postId} _)
  cases parentId with
  | none => exact hcounted
  | some parent => exact contentLinked_updateMany hcounted (stays_recomputeCommentReplyCounts _ _)

/-- Threads stay when comments do. -/
theorem threaded_of_confined {C : List Collection} (h : Confined C db after)
    (hcs : .comments ∉ C) (ht : Threaded db) : Threaded after := by
  have hthread : ∀ id, thread after id = thread db id := fun id => Trait.of_congr (h _ hcs)
  intro id postId parent t hid hparent
  exact ht id postId parent t ((hthread id).symm.trans hid) ((hthread parent).symm.trans hparent)

/-- A purge keeps the content linked. -/
private theorem contentLinked_purgeUser {natural : List ℕ} {action : AccountLifecycleAction}
    {userId : ℕ}
    (h : purgeUser natural action userId db = .ok after) (hthreaded : Threaded db)
    (hl : contentLinks.Linked db) : contentLinks.Linked after := by
  refine (purgeUser_relates
    (R := fun a b => Threaded a ∧ contentLinks.Linked a → Threaded b ∧ contentLinks.Linked b)
    (fun a b c hab hbc ha => hbc (hab ha))
    (fun a b hconfined ⟨ht, hl⟩ => ⟨?_, contentLinked_of_confined hl hconfined (by decide)⟩)
    (fun roots a ⟨ht, hl⟩ => ⟨threaded_of_stays (stays_deletePostGraph roots a) ht,
      contentLinked_deletePostGraph roots ht hl⟩)
    (fun userId a ⟨ht, hl⟩ => ⟨threaded_of_stays (stays_tombstoneComments userId a) ht,
      contentLinked_tombstoneComments userId hl⟩)
    (fun userId a ⟨ht, hl⟩ => ⟨threaded_of_stays (stays_removePostInteractions userId a) ht,
      contentLinked_removePostInteractions userId hl⟩) h ⟨hthreaded, hl⟩).2
  exact threaded_of_confined hconfined (by simp) ht

/-- Purging a user keeps the links. -/
theorem contentLinked_purgeBody {natural : List ℕ} {action : AccountLifecycleAction} {userId : ℕ}
    (h : purgeBody natural action userId db = .ok after) (hthreaded : Threaded db)
    (hl : contentLinks.Linked db) : contentLinks.Linked after := by
  rcases purgeBody_eq h with h | ⟨db', htouch, h⟩
  · exact contentLinked_purgeUser h hthreaded hl
  · have hconfined := touch_confined htouch
    exact contentLinked_purgeUser h (threaded_of_stays (hconfined.stays (by decide)) hthreaded)
      (contentLinked_of_confined hl hconfined (by decide))

end Bodies

end Ascendance.Social
