import Ascendance.Core.Keyset

/-!
# Pages by a key that rows may share

The rows are read in pages of one size, in descending order of their keys. A page
that is full leads to the rows with lower keys than its last one. Rows of one key
come in any order, and the rows that share the key of a full page's last row but did
not fit into it are passed over.
-/

namespace Ascendance.Core.Keyset

variable {α κ : Type*} [LinearOrder κ] {key : α → κ} {limit : ℕ} {s l page rest : List α}
  {a x : α} {c : κ}

/-- No row stands before one with a higher key. -/
def Ordered (key : α → κ) (l : List α) : Prop := l.Pairwise fun a b => key b ≤ key a

/-- The rows in order, whichever order rows of one key are in. -/
def Sorts (key : α → κ) (sort : List α → List α) : Prop :=
  ∀ s, (sort s).Perm s ∧ Ordered key (sort s)

/-- Sorting in descending order is a sorting by the key. -/
theorem sorts_sortDesc (key : α → κ) : Sorts key (sortDesc key) := by
  intro s
  have htotal : Std.Total fun a b : α => key b ≤ key a := ⟨fun a b => le_total (key b) (key a)⟩
  have htrans : IsTrans α fun a b : α => key b ≤ key a := ⟨fun a b c hab hbc => hbc.trans hab⟩
  exact ⟨List.perm_insertionSort _ s, List.pairwise_insertionSort _ s⟩

/-- The rows that are read from `s` in pages of `limit`, one page after another. -/
inductive Paged (key : α → κ) (limit : ℕ) : List α → List α → Prop
  | last {s page : List α} :
      page.Perm s → Ordered key page → page.length < limit → Paged key limit s page
  | next {s page rest l : List α} {x : α} :
      (page ++ rest).Perm s → Ordered key (page ++ rest) → page.length = limit →
      page.getLast? = some x → Paged key limit (older key (key x) s) l →
      Paged key limit s (page ++ l)

/-- No page ends between two rows of one key: the number of rows up to the last one of a key
and the number of rows above that key have no multiple of the limit between them. -/
def Untied (key : α → κ) (limit : ℕ) (s : List α) : Prop :=
  ∀ c m, ¬ (s.countP (c < key ·) < m * limit ∧ m * limit < s.countP (c ≤ key ·))

/-- The elements before a key are those with a smaller one. -/
theorem mem_older : a ∈ older key c s ↔ a ∈ s ∧ key a < c := by
  simp [older]

/-- Reading below a key leaves elements out. -/
theorem older_sublist : (older key c s).Sublist s := List.filter_sublist

/-- The first part of an ordered list is ordered. -/
theorem Ordered.left (h : Ordered key (page ++ rest)) : Ordered key page :=
  (List.pairwise_append.mp h).1

/-- The last element of an ordered page has the least key. -/
theorem Ordered.last_le (h : Ordered key page) (hx : page.getLast? = some x) (ha : a ∈ page) :
    key x ≤ key a := by
  obtain ⟨init, rfl⟩ := List.getLast?_eq_some_iff.mp hx
  rcases List.mem_append.mp ha with ha | ha
  · exact (List.pairwise_append.mp h).2.2 a ha x (List.mem_singleton_self x)
  · rw [List.mem_singleton.mp ha]

/-- What comes after a page has no smaller key than its last row. -/
private theorem Ordered.rest_le (h : Ordered key (page ++ rest)) (hx : page.getLast? = some x)
    (ha : a ∈ rest) : key a ≤ key x :=
  (List.pairwise_append.mp h).2.2 x (List.mem_of_getLast? hx) a ha

/-- The rows that are left are those that did not fit, when all of them have lower keys. -/
theorem older_perm_rest (hp : (page ++ rest).Perm s) (ho : Ordered key (page ++ rest))
    (hx : page.getLast? = some x) (hrest : ∀ b ∈ rest, key b < key x) :
    (older key (key x) s).Perm rest := by
  have hpage : page.filter (key · < key x) = [] := by
    rw [List.filter_eq_nil_iff]
    intro a ha
    simpa using ho.left.last_le hx ha
  have hall : rest.filter (key · < key x) = rest := by
    rw [List.filter_eq_self]
    intro b hb
    simpa using hrest b hb
  have hfilter := hp.symm.filter (key · < key x)
  rwa [List.filter_append, hpage, hall, List.nil_append] at hfilter

/-- A row that did not fit and has the key of the last row ties the page. -/
theorem not_untied_of_tie (hp : (page ++ rest).Perm s) (ho : Ordered key (page ++ rest))
    (hn : page.length = limit) (hx : page.getLast? = some x) (ha : a ∈ rest)
    (heq : key x ≤ key a) : ¬ Untied key limit s := by
  intro hu
  refine hu (key x) 1 ⟨?_, ?_⟩
  · have hrest : rest.countP (key x < key ·) = 0 := by
      rw [List.countP_eq_zero]
      intro b hb
      simpa using ho.rest_le hx hb
    obtain ⟨init, rfl⟩ := List.getLast?_eq_some_iff.mp hx
    have hinit := init.countP_le_length (p := (key x < key ·))
    rw [← hp.countP_eq, List.countP_append, hrest, List.countP_append, List.countP_cons_of_neg,
      List.countP_nil, ← hn, List.length_append, List.length_singleton]
    · omega
    · simp
  · have hpage : page.countP (key x ≤ key ·) = page.length := by
      rw [List.countP_eq_length]
      intro b hb
      simpa using ho.left.last_le hx hb
    have hpos : 0 < rest.countP (key x ≤ key ·) :=
      List.countP_pos_iff.mpr ⟨a, ha, by simpa using heq⟩
    rw [← hp.countP_eq, List.countP_append, hpage, hn]
    omega

/-- The rows of a key not above the last one's are those of the page and those that are left. -/
theorem countP_of_le (hp : (page ++ rest).Perm s) (ho : Ordered key (page ++ rest))
    (hn : page.length = limit) (hx : page.getLast? = some x)
    (hrest : ∀ b ∈ rest, key b < key x) {p : α → Bool} (hpage : ∀ a, key x ≤ key a → p a = true) :
    s.countP p = limit + (older key (key x) s).countP p := by
  have hall : page.countP p = page.length := by
    rw [List.countP_eq_length]
    intro a ha
    exact hpage a (ho.left.last_le hx ha)
  rw [← hp.countP_eq, List.countP_append, hall, hn, (older_perm_rest hp ho hx hrest).countP_eq]

/-- The ties of the rows are those of the rows that are left. -/
theorem untied_older (hp : (page ++ rest).Perm s) (ho : Ordered key (page ++ rest))
    (hn : page.length = limit) (hx : page.getLast? = some x)
    (hrest : ∀ b ∈ rest, key b < key x) :
    Untied key limit (older key (key x) s) ↔ Untied key limit s := by
  constructor
  · rintro hu c m ⟨habove, hfrom⟩
    by_cases hc : c < key x
    · rw [countP_of_le hp ho hn hx hrest (by
        intro a ha
        simpa using hc.trans_le ha)] at habove
      rw [countP_of_le hp ho hn hx hrest (by
        intro a ha
        simpa using hc.le.trans ha)] at hfrom
      cases m with
      | zero => omega
      | succ m =>
        rw [Nat.succ_mul] at habove hfrom
        exact hu c m ⟨by omega, by omega⟩
    · have hnone : rest.countP (c ≤ key ·) = 0 := by
        rw [List.countP_eq_zero]
        intro b hb
        simpa using (hrest b hb).trans_le (not_lt.mp hc)
      have hle := page.countP_le_length (p := (c ≤ key ·))
      rw [← hp.countP_eq, List.countP_append, hnone] at hfrom
      cases m with
      | zero => omega
      | succ m =>
        rw [Nat.succ_mul] at hfrom
        omega
  · rintro hu c m ⟨habove, hfrom⟩
    by_cases hc : c < key x
    · refine hu c (m + 1) ⟨?_, ?_⟩
      · rw [countP_of_le hp ho hn hx hrest (by
          intro a ha
          simpa using hc.trans_le ha), Nat.succ_mul]
        omega
      · rw [countP_of_le hp ho hn hx hrest (by
          intro a ha
          simpa using hc.le.trans ha), Nat.succ_mul]
        omega
    · have hnone : (older key (key x) s).countP (c ≤ key ·) = 0 := by
        rw [List.countP_eq_zero]
        intro b hb
        simpa using (mem_older.mp hb).2.trans_le (not_lt.mp hc)
      omega

/-- Rows that fill no page have no ties. -/
theorem untied_of_length_lt (h : s.length < limit) : Untied key limit s := by
  rintro c m ⟨habove, hfrom⟩
  have hle := s.countP_le_length (p := (c ≤ key ·))
  cases m with
  | zero => omega
  | succ m =>
    rw [Nat.succ_mul] at hfrom
    omega

/-- The pages hold elements of the collection only. -/
theorem Paged.subset (h : Paged key limit s l) : l ⊆ s := by
  induction h with
  | last hp _ _ => exact hp.subset
  | @next s page rest l x hp _ _ _ _ ih =>
    apply List.append_subset.mpr
    constructor
    · intro a ha
      exact hp.subset (List.mem_append_left _ ha)
    · intro a ha
      exact older_sublist.subset (ih ha)

/-- The rows come in order. -/
theorem Paged.ordered (h : Paged key limit s l) : Ordered key l := by
  induction h with
  | last _ ho _ => exact ho
  | @next s page rest l x _ ho _ hx hw ih =>
    refine List.pairwise_append.mpr ⟨ho.left, ih, ?_⟩
    intro a ha b hb
    exact (mem_older.mp (hw.subset hb)).2.le.trans (ho.left.last_le hx ha)

/-- No row comes twice. -/
theorem Paged.nodup (h : Paged key limit s l) (hs : s.Nodup) : l.Nodup := by
  induction h with
  | last hp _ _ => exact hp.nodup_iff.mpr hs
  | @next s page rest l x hp ho _ hx hw ih =>
    have hpage := (hp.nodup_iff.mpr hs).of_append_left
    refine hpage.append (ih (hs.sublist older_sublist)) ?_
    intro a ha hl
    exact absurd (ho.left.last_le hx ha) (not_le.mpr (mem_older.mp (hw.subset hl)).2)

/-- Every row comes, exactly when no page ends in a tie. -/
theorem Paged.complete_iff (h : Paged key limit s l) (hs : s.Nodup) :
    s ⊆ l ↔ Untied key limit s := by
  induction h with
  | last hp _ hlt =>
    exact iff_of_true hp.symm.subset (untied_of_length_lt (hp.length_eq ▸ hlt))
  | @next s page rest l x hp ho hn hx hw ih =>
    have hnodup := hp.nodup_iff.mpr hs
    have hrow : ∀ a ∈ l, key a < key x := fun a ha => (mem_older.mp (hw.subset ha)).2
    by_cases hrest : ∀ b ∈ rest, key b < key x
    · rw [← untied_older hp ho hn hx hrest, ← ih (hs.sublist older_sublist)]
      constructor
      · intro hsub a ha
        obtain ⟨hmem, hlt⟩ := mem_older.mp ha
        rcases List.mem_append.mp (hsub hmem) with hpage | hl
        · exact absurd (ho.left.last_le hx hpage) (not_le.mpr hlt)
        · exact hl
      · intro hsub a ha
        rcases List.mem_append.mp (hp.symm.subset ha) with hpage | hleft
        · exact List.mem_append_left _ hpage
        · exact List.mem_append_right _ (hsub (mem_older.mpr ⟨ha, hrest a hleft⟩))
    · obtain ⟨b, hb, htie⟩ : ∃ b ∈ rest, ¬ key b < key x := by simpa using hrest
      refine iff_of_false ?_ (not_untied_of_tie hp ho hn hx hb (not_lt.mp htie))
      intro hsub
      rcases List.mem_append.mp (hsub (hp.subset (List.mem_append_right _ hb))) with hpage | hl
      · exact (List.nodup_append.mp hnodup).2.2 b hpage b hb rfl
      · exact htie (hrow b hl)

end Ascendance.Core.Keyset
