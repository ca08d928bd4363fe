import Ascendance.Core.Lists
import Ascendance.Models.FeedRestoration.Store

/-!
# What a loop over the waiting posts does to one entry

A turn touches the entry of its own key and takes the next version when it
writes. The content of an entry forgets its version; on contents the three
loops are marking a post, marking unknown posts and removing a post.
-/

namespace Ascendance.FeedRestoration

open Ascendance.Core

/-- A pair key names one feed and one location. -/
theorem pairKey_inj {f g : FeedId} {l k : String} (h : pairKey f l = pairKey g k) :
    f = g ∧ l = k := by
  have hlists :
      f.text.toList ++ separator :: l.toList = g.text.toList ++ separator :: k.toList := by
    have h' := congrArg String.toList h
    simpa [pairKey] using h'
  obtain ⟨htext, hloc⟩ := append_cons_inj f.noSeparator g.noSeparator hlists
  exact ⟨FeedId.ext (String.toList_inj.mp htext), String.toList_inj.mp hloc⟩

namespace Store

/-- What is stored under a key after a turn, given the version it takes. -/
def Visit.result (v : Visit) (version : ℕ) (entry : Option FeedPendingState) :
    Option FeedPendingState :=
  match v with
  | .skip => entry
  | .write unknown postIds => some ⟨unknown, postIds, version⟩
  | .drop => none

variable (decision : Option FeedPendingState → Visit)

/-- A turn changes the entry of its own key only. -/
theorem get_visit (s : Store) (key j : String) :
    (s.visit decision key).pending.get j =
      if j = key then
        (decision (s.pending.get key)).result (s.nextPendingVersion + 1) (s.pending.get key)
      else s.pending.get j := by
  cases hd : decision (s.pending.get key) with
  | skip =>
    simp only [visit, hd]
    split
    · next h => rw [h]; rfl
    · rfl
  | write unknown postIds =>
    simp only [visit, hd]
    exact OrderedMap.get_set _ j key _
  | drop =>
    simp only [visit, hd]
    exact OrderedMap.get_delete _ j key

@[simp] theorem visit_restoration (s : Store) (key : String) :
    (s.visit decision key).restoration = s.restoration := by
  unfold visit
  split <;> rfl

@[simp] theorem visit_activePairs (s : Store) (key : String) :
    (s.visit decision key).activePairs = s.activePairs := by
  unfold visit
  split <;> rfl

@[simp] theorem visit_callbacks (s : Store) (key : String) :
    (s.visit decision key).callbacks = s.callbacks := by
  unfold visit
  split <;> rfl

/-- What each turn keeps, a loop keeps. -/
theorem visitAll_induct {P : Store → Prop} (hvisit : ∀ s key, P s → P (s.visit decision key))
    (hemit : ∀ s, P s → P s.emit) (keys : List String) {s : Store} (h : P s) :
    P (s.visitAll decision keys) := by
  have hfold : ∀ (ks : List String) (u : Store), P u → P (ks.foldl (visit decision) u) := by
    intro ks
    induction ks with
    | nil => exact fun u hu => hu
    | cons k ks ih => exact fun u hu => ih _ (hvisit u k hu)
  unfold visitAll
  split
  · exact hemit _ (hfold keys s h)
  · exact hfold keys s h

@[simp] theorem visitAll_restoration (keys : List String) (s : Store) :
    (s.visitAll decision keys).restoration = s.restoration :=
  visitAll_induct decision (P := fun t => t.restoration = s.restoration)
    (fun t key h => by rw [visit_restoration, h]) (fun _ h => h) keys rfl

@[simp] theorem visitAll_activePairs (keys : List String) (s : Store) :
    (s.visitAll decision keys).activePairs = s.activePairs :=
  visitAll_induct decision (P := fun t => t.activePairs = s.activePairs)
    (fun t key h => by rw [visit_activePairs, h]) (fun _ h => h) keys rfl

@[simp] theorem visitAll_callbacks (keys : List String) (s : Store) :
    (s.visitAll decision keys).callbacks = s.callbacks :=
  visitAll_induct decision (P := fun t => t.callbacks = s.callbacks)
    (fun t key h => by rw [visit_callbacks, h]) (fun _ h => h) keys rfl

/-- A loop leaves the entries of all other keys alone. -/
theorem get_visitAll_of_notMem {keys : List String} {j : String} (hj : j ∉ keys) (s : Store) :
    (s.visitAll decision keys).pending.get j = s.pending.get j := by
  have hfold : ∀ (ks : List String) (u : Store), j ∉ ks →
      (ks.foldl (visit decision) u).pending.get j = u.pending.get j := by
    intro ks
    induction ks with
    | nil => exact fun _ _ => rfl
    | cons k ks ih =>
      intro u hk
      rw [List.mem_cons, not_or] at hk
      rw [List.foldl_cons, ih _ hk.2, get_visit, if_neg hk.1]
  rw [← hfold keys s hj]
  unfold visitAll
  split <;> rfl

end Store

/-- What waits for a pair: some posts, or posts that nobody counted. -/
inductive Content
  | known (posts : Finset String)
  | unknown

namespace Content

/-- A post arrives. At the cap a new post makes the rest uncounted. -/
def mark (post : String) : Content → Content
  | known posts =>
    if post ∈ posts then known posts
    else if MAX_KNOWN_PENDING_POSTS ≤ posts.card then unknown
    else known (insert post posts)
  | unknown => unknown

/-- A post goes away. -/
def remove (post : String) : Content → Content
  | known posts => known (posts.erase post)
  | unknown => unknown

/-- What is shown for a content. -/
def report : Content → FeedPendingSnapshot
  | known posts => ⟨decide (0 < posts.card), false, posts.card⟩
  | unknown => ⟨true, true, 0⟩

end Content

/-- The content of an entry. -/
def contentOf : Option FeedPendingState → Content
  | none => .known ∅
  | some pending => if pending.unknown then .unknown else .known pending.postIds

namespace Store

/-- A decision acts on contents as `f`. -/
def Acts (decision : Option FeedPendingState → Visit) (f : Content → Content) : Prop :=
  ∀ entry version, contentOf ((decision entry).result version entry) = f (contentOf entry)

/-- Marking a known post acts on the content. -/
theorem acts_markKnown (post : String) : Acts (markKnown post) (Content.mark post) := by
  intro entry version
  cases entry with
  | none => simp [markKnown, Visit.result, contentOf, Content.mark, MAX_KNOWN_PENDING_POSTS]
  | some pending =>
    by_cases hu : pending.unknown
    · simp [markKnown, Visit.result, contentOf, Content.mark, hu]
    · by_cases hp : post ∈ pending.postIds
      · simp [markKnown, Visit.result, contentOf, Content.mark, hu, hp]
      · by_cases hc : MAX_KNOWN_PENDING_POSTS ≤ pending.postIds.card <;>
          simp [markKnown, Visit.result, contentOf, Content.mark, hu, hp, hc]

/-- Marking an unknown post acts on the content. -/
theorem acts_markUnknown : Acts markUnknown fun _ => .unknown := fun _ _ => rfl

/-- Removing a post acts on the content. -/
theorem acts_removeKnown (post : String) : Acts (removeKnown post) (Content.remove post) := by
  intro entry version
  cases entry with
  | none => rfl
  | some pending =>
    by_cases hu : pending.unknown
    · simp [removeKnown, Visit.result, contentOf, Content.remove, hu]
    · by_cases hp : post ∈ pending.postIds
      · by_cases he : pending.postIds.erase post = ∅ <;>
          simp [removeKnown, Visit.result, contentOf, Content.remove, hu, hp, he]
      · simp [removeKnown, Visit.result, contentOf, Content.remove, hu, hp]

/-- A loop over distinct keys acts once on the content of each of them. -/
theorem contentOf_foldl_visit {decision : Option FeedPendingState → Visit} {f : Content → Content}
    (hf : Acts decision f) (j : String) : ∀ (keys : List String), keys.Nodup → ∀ s : Store,
      contentOf ((keys.foldl (visit decision) s).pending.get j) =
        if j ∈ keys then f (contentOf (s.pending.get j)) else contentOf (s.pending.get j)
  | [], _, _ => by simp
  | key :: keys, hnodup, s => by
    obtain ⟨hkey, hkeys⟩ := List.nodup_cons.mp hnodup
    rw [List.foldl_cons, contentOf_foldl_visit hf j keys hkeys, get_visit]
    by_cases hj : j = key
    · subst hj
      rw [if_neg hkey, if_pos rfl, if_pos List.mem_cons_self, hf]
    · rw [if_neg hj]
      simp [hj]

/-- A visit to several keys acts on the content of each of them and of no other. -/
theorem contentOf_visitAll {decision : Option FeedPendingState → Visit} {f : Content → Content}
    (hf : Acts decision f) (j : String) {keys : List String} (hkeys : keys.Nodup) (s : Store) :
    contentOf ((s.visitAll decision keys).pending.get j) =
      if j ∈ keys then f (contentOf (s.pending.get j)) else contentOf (s.pending.get j) := by
  rw [← contentOf_foldl_visit hf j keys hkeys s]
  unfold visitAll
  split <;> rfl

/-- Pruning leaves the entry of this key alone. -/
def Kept (s : Store) (key : String) : Prop := some key = s.restorationKey ∨ key ∈ s.activePairs

private theorem pruneKey_of_kept {s : Store} {key : String} (h : s.Kept key) :
    s.pruneKey key = s := by
  unfold pruneKey
  rcases h with h | h
  · rw [if_pos h]
  · rw [if_pos h, ite_self]

private theorem pruneKey_of_not_kept {s : Store} {key : String} (h : ¬s.Kept key) :
    s.pruneKey key = { s with pending := s.pending.delete key } := by
  rw [Kept, not_or] at h
  rw [pruneKey, if_neg h.1, if_neg h.2]

/-- What each deletion of an entry keeps, pruning keeps. -/
theorem prune_induct {P : Store → Prop}
    (hdelete : ∀ s key, P s → P { s with pending := s.pending.delete key }) {s : Store} (h : P s) :
    P s.pruneOrphanedPending := by
  have hfold : ∀ (ks : List String) (u : Store), P u → P (ks.foldl pruneKey u) := by
    intro ks
    induction ks with
    | nil => exact fun u hu => hu
    | cons k ks ih =>
      intro u hu
      by_cases hk : u.Kept k
      · rw [List.foldl_cons, pruneKey_of_kept hk]
        exact ih u hu
      · rw [List.foldl_cons, pruneKey_of_not_kept hk]
        exact ih _ (hdelete u k hu)
  exact hfold _ s h

@[simp] theorem prune_restoration (s : Store) :
    s.pruneOrphanedPending.restoration = s.restoration :=
  prune_induct (P := fun t => t.restoration = s.restoration) (fun _ _ h => h) rfl

@[simp] theorem prune_activePairs (s : Store) :
    s.pruneOrphanedPending.activePairs = s.activePairs :=
  prune_induct (P := fun t => t.activePairs = s.activePairs) (fun _ _ h => h) rfl

@[simp] theorem prune_callbacks (s : Store) : s.pruneOrphanedPending.callbacks = s.callbacks :=
  prune_induct (P := fun t => t.callbacks = s.callbacks) (fun _ _ h => h) rfl

@[simp] theorem prune_nextPendingVersion (s : Store) :
    s.pruneOrphanedPending.nextPendingVersion = s.nextPendingVersion :=
  prune_induct (P := fun t => t.nextPendingVersion = s.nextPendingVersion) (fun _ _ h => h) rfl

/-- A kept entry survives the loop. -/
theorem get_foldl_pruneKey_of_kept {j : String} : ∀ (keys : List String) {s : Store}, s.Kept j →
    (keys.foldl pruneKey s).pending.get j = s.pending.get j
  | [], _, _ => rfl
  | key :: keys, s, h => by
    rw [List.foldl_cons]
    by_cases hkey : s.Kept key
    · rw [pruneKey_of_kept hkey, get_foldl_pruneKey_of_kept keys h]
    · have ih := get_foldl_pruneKey_of_kept
        (s := { s with pending := s.pending.delete key }) keys h
      rw [pruneKey_of_not_kept hkey, ih]
      exact OrderedMap.get_delete_ne _ fun hj => hkey (hj ▸ h)

/-- Any other entry that the loop meets, or that was not there, is gone after it. -/
theorem get_foldl_pruneKey_of_not_kept {j : String} : ∀ (keys : List String) {s : Store},
    ¬s.Kept j → (j ∈ keys ∨ s.pending.get j = none) →
      (keys.foldl pruneKey s).pending.get j = none
  | [], s, _, h => h.resolve_left List.not_mem_nil
  | key :: keys, s, hj, h => by
    rw [List.foldl_cons]
    by_cases hkey : s.Kept key
    · rw [pruneKey_of_kept hkey]
      refine get_foldl_pruneKey_of_not_kept keys hj (h.imp_left fun hm => ?_)
      exact (List.mem_cons.mp hm).resolve_left fun he => hj (he ▸ hkey)
    · rw [pruneKey_of_not_kept hkey]
      refine get_foldl_pruneKey_of_not_kept keys hj ?_
      by_cases he : j = key
      · exact .inr (he ▸ OrderedMap.get_delete_self _ _)
      · refine h.imp (fun hm => (List.mem_cons.mp hm).resolve_left he) fun hn => ?_
        exact (OrderedMap.get_delete_ne _ he).trans hn

/-- Pruning keeps the entries of the pairs in use. -/
theorem get_prune_of_kept {s : Store} {j : String} (h : s.Kept j) :
    s.pruneOrphanedPending.pending.get j = s.pending.get j := get_foldl_pruneKey_of_kept _ h

/-- Pruning removes the entries of the pairs no longer in use. -/
theorem get_prune_of_not_kept {s : Store} {j : String} (h : ¬s.Kept j) :
    s.pruneOrphanedPending.pending.get j = none := by
  refine get_foldl_pruneKey_of_not_kept _ h ?_
  rw [OrderedMap.get_eq_none, AList.mem_keys]
  exact em _

end Store

end Ascendance.FeedRestoration
