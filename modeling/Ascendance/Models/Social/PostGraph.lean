import Ascendance.Models.Social.Content

/-!
# The graph of a post

What `deletePostGraph` removes and what it leaves: the collected posts are closed under
reposts, they go with their comments and likes, and the rest changes in its counters.
-/

namespace Ascendance.Social

open Ascendance.Core

namespace ContentCleanupService

variable {db : Store} {roots : Finset Key}

/-- What two sets reach together is reached from one of them. -/
theorem find_reaches_union (s t : Finset Key) :
    db.find (posts (reaches (s ∪ t))) ⊆
      db.find (posts (reaches s)) ∪ db.find (posts (reaches t)) := by
  intro k hk
  obtain ⟨d, hd, hreaches⟩ := Database.mem_find.mp hk
  rw [Finset.mem_union, Database.mem_find, Database.mem_find]
  cases k with
  | post id =>
    have hsplit : reaches s id d = true ∨ reaches t id d = true := by
      cases htarget : d.repostOf with
      | none => simpa [reaches, htarget] using hreaches
      | some target =>
        simp only [posts_post, reaches, htarget, Option.any_some, Bool.or_eq_true,
          decide_eq_true_eq, Finset.mem_union] at hreaches ⊢
        tauto
    exact hsplit.imp (fun h => ⟨d, hd, h⟩) (fun h => ⟨d, hd, h⟩)
  | _ => simp at hreaches

private theorem find_subset_ids (p : ∀ k, Doc k → Bool) : db.find p ⊆ db.ids :=
  Finset.filter_subset ..

/-- The graph holds what its roots reach, and what it reaches itself. -/
private theorem collectPostGraph_spec :
    db.find (posts (reaches roots)) ⊆ collectPostGraph roots db ∧
      db.find (posts (reaches (collectPostGraph roots db))) ⊆ collectPostGraph roots db := by
  have hempty : Collecting (fun frontier => db.find (posts (reaches frontier))) roots ∅ := by
    intro k hk
    obtain ⟨d, hd, hreaches⟩ := Database.mem_find.mp hk
    cases k with
    | post id => cases htarget : d.repostOf <;> simp_all [reaches]
    | _ => simp at hreaches
  obtain ⟨hroots, hclosed⟩ := collect_closed
    (fun s => find_subset_ids (posts (reaches s))) find_reaches_union
    (Nat.lt_succ_of_le (Finset.card_le_card Finset.sdiff_subset)) hempty
  exact ⟨Finset.subset_union_right.trans hroots, hclosed⟩

/-- Stored roots are collected. -/
theorem root_mem_collectPostGraph {id : ℕ} {p : Post} (hp : db.doc (.post id) = some p)
    (hroot : Key.post id ∈ roots) : Key.post id ∈ collectPostGraph roots db :=
  collectPostGraph_spec.1 (Database.mem_find.mpr ⟨p, hp, by simp [reaches, hroot]⟩)

/-- Reposts of collected posts are collected. -/
theorem repost_mem_collectPostGraph {id target : ℕ} {p : Post} (hp : db.doc (.post id) = some p)
    (htarget : p.repostOf = some target) (h : Key.post target ∈ collectPostGraph roots db) :
    Key.post id ∈ collectPostGraph roots db :=
  collectPostGraph_spec.2 (Database.mem_find.mpr ⟨p, hp, by simp [reaches, htarget, h]⟩)

end ContentCleanupService

end Ascendance.Social
