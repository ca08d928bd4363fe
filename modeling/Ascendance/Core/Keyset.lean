import Mathlib.Data.List.Sort

/-!
# Keyset pagination

Rows stand in descending order of keys that no two of them share. A forward page
holds the first rows after a key, a backward page the last rows before one, and the
key of its outermost row leads to the page after it.
-/

namespace Ascendance.Core

/-- A page of rows, and the cursors of its neighbours. -/
structure CursorPage (α γ : Type*) where
  data : List α
  hasMore : Bool
  nextCursor : Option γ
  prevCursor : Option γ
  deriving DecidableEq, Repr

/-- The page with its cursors written differently. -/
def CursorPage.mapCursor {α γ δ : Type*} (f : γ → δ) (p : CursorPage α γ) : CursorPage α δ where
  data := p.data
  hasMore := p.hasMore
  nextCursor := p.nextCursor.map f
  prevCursor := p.prevCursor.map f

namespace Keyset

variable {α κ γ δ : Type*} [LinearOrder κ] {key : α → κ}

/-- Every row comes before the rows with lower keys, and no two rows share a key. -/
def Descending (key : α → κ) (l : List α) : Prop := l.Pairwise fun a b => key b < key a

/-- Sort by falling key. -/
def sortDesc (key : α → κ) (l : List α) : List α := l.insertionSort fun a b => key b ≤ key a

/-- Sort by rising key. -/
def sortAsc (key : α → κ) (l : List α) : List α := l.insertionSort fun a b => key a ≤ key b

/-- The rows whose keys are below a key. -/
def older (key : α → κ) (c : κ) (l : List α) : List α := l.filter fun a => key a < c

/-- The rows whose keys are above a key. -/
def newer (key : α → κ) (c : κ) (l : List α) : List α := l.filter fun a => c < key a

section Order

variable {l l' before rest : List α} {a b : α} {c : κ}

/-- Sorting keeps the elements. -/
theorem mem_sortDesc : a ∈ sortDesc key l ↔ a ∈ l := List.mem_insertionSort _

/-- Sorting rows with distinct keys makes them descend. -/
theorem descending_sortDesc (h : (l.map key).Nodup) : Descending key (sortDesc key l) := by
  have htotal : Std.Total fun a b : α => key b ≤ key a := ⟨fun a b => le_total (key b) (key a)⟩
  have htrans : IsTrans α fun a b : α => key b ≤ key a := ⟨fun a b c hab hbc => hbc.trans hab⟩
  have hle := List.pairwise_insertionSort (fun a b : α => key b ≤ key a) l
  have hperm := List.perm_insertionSort (fun a b : α => key b ≤ key a) l
  have hne : (sortDesc key l).Pairwise fun a b => key a ≠ key b :=
    List.pairwise_map.mp ((hperm.map key).nodup_iff.mpr h)
  exact (hle.and hne).imp fun hab => lt_of_le_of_ne hab.1 (Ne.symm hab.2)

/-- Descending rows are known by their members. -/
theorem Descending.eq (h : Descending key l) (h' : Descending key l')
    (hmem : ∀ a, a ∈ l ↔ a ∈ l') : l = l' := by
  have hanti : Std.Antisymm fun a b : α => key b < key a :=
    ⟨fun a b hab hba => absurd hab (lt_asymm hba)⟩
  have hirrefl : Std.Irrefl fun a b : α => key b < key a := ⟨fun a => lt_irrefl (key a)⟩
  exact List.Pairwise.eq_of_mem_iff h h' hmem

/-- A part of a descending list is descending. -/
theorem Descending.sublist (h : Descending key l) (hs : l'.Sublist l) : Descending key l' :=
  List.Pairwise.sublist hs h

/-- A filtered descending list is descending. -/
theorem Descending.filter (h : Descending key l) (p : α → Bool) : Descending key (l.filter p) :=
  h.sublist List.filter_sublist

/-- The ascending order is the descending one from its end. -/
theorem sortAsc_eq (h : (l.map key).Nodup) : sortAsc key l = (sortDesc key l).reverse := by
  have htotal : Std.Total fun a b : α => key a ≤ key b := ⟨fun a b => le_total (key a) (key b)⟩
  have htrans : IsTrans α fun a b : α => key a ≤ key b := ⟨fun a b c hab hbc => hab.trans hbc⟩
  have hle := List.pairwise_insertionSort (fun a b : α => key a ≤ key b) l
  have hperm := List.perm_insertionSort (fun a b : α => key a ≤ key b) l
  have hne : (sortAsc key l).Pairwise fun a b => key a ≠ key b :=
    List.pairwise_map.mp ((hperm.map key).nodup_iff.mpr h)
  have hdesc : Descending key (sortAsc key l).reverse :=
    List.pairwise_reverse.mpr ((hle.and hne).imp fun hab => lt_of_le_of_ne hab.1 hab.2)
  have heq : (sortAsc key l).reverse = sortDesc key l := by
    apply hdesc.eq (descending_sortDesc h)
    intro a
    rw [List.mem_reverse, mem_sortDesc]
    exact List.mem_insertionSort _
  rw [← heq, List.reverse_reverse]

/-- Sorting does not move rows that descend already. -/
theorem Descending.sortDesc_eq (h : Descending key l) : sortDesc key l = l := by
  have hkeys : (l.map key).Nodup := List.pairwise_map.mpr (h.imp fun hab => ne_of_gt hab)
  exact (descending_sortDesc hkeys).eq h fun a => mem_sortDesc

/-- The keys of a descending list are distinct. -/
theorem Descending.nodup_keys (h : Descending key l) : (l.map key).Nodup :=
  List.pairwise_map.mpr (h.imp fun hab => ne_of_gt hab)

/-- A row cuts the rows into the newer ones and the older ones. -/
theorem Descending.split (h : Descending key (before ++ a :: rest)) :
    newer key (key a) (before ++ a :: rest) = before ∧
      older key (key a) (before ++ a :: rest) = rest := by
  obtain ⟨-, htail, hcross⟩ := List.pairwise_append.mp h
  obtain ⟨hrest, -⟩ := List.pairwise_cons.mp htail
  have hbefore : ∀ b ∈ before, key a < key b := fun b hb => hcross b hb a (List.mem_cons_self ..)
  unfold newer older
  constructor
  · rw [List.filter_append, List.filter_cons_of_neg (by simp), List.filter_eq_self.mpr,
      List.filter_eq_nil_iff.mpr, List.append_nil]
    · intro b hb
      simpa using (hrest b hb).le
    · intro b hb
      simpa using hbefore b hb
  · rw [List.filter_append, List.filter_cons_of_neg (by simp), List.filter_eq_nil_iff.mpr,
      List.filter_eq_self.mpr, List.nil_append]
    · intro b hb
      simpa using hrest b hb
    · intro b hb
      simpa using (hbefore b hb).le

/-- No key exceeds that of the head. -/
theorem Descending.le_head (h : Descending key l) (hc : l.head?.map key = some c) (ha : a ∈ l) :
    key a ≤ c := by
  obtain ⟨first, hfirst, rfl⟩ := Option.map_eq_some_iff.mp hc
  obtain ⟨rest, rfl⟩ := List.head?_eq_some_iff.mp hfirst
  rcases List.mem_cons.mp ha with rfl | ha
  · exact le_rfl
  · exact ((List.pairwise_cons.mp h).1 a ha).le

/-- No key falls below that of the last element. -/
theorem Descending.last_le (h : Descending key l) (hc : l.getLast?.map key = some c)
    (ha : a ∈ l) : c ≤ key a := by
  obtain ⟨last, hlast, rfl⟩ := Option.map_eq_some_iff.mp hc
  obtain ⟨init, rfl⟩ := List.getLast?_eq_some_iff.mp hlast
  rcases List.mem_append.mp ha with ha | ha
  · exact ((List.pairwise_append.mp h).2.2 a ha last (List.mem_singleton_self last)).le
  · rw [List.mem_singleton.mp ha]

/-- The older rows stand at the end. -/
theorem Descending.cut (h : Descending key l) (c : κ) :
    (l.filter fun a => c ≤ key a) ++ older key c l = l := by
  induction l with
  | nil => rfl
  | cons a l ih =>
    obtain ⟨hbelow, hl⟩ := List.pairwise_cons.mp h
    unfold older at ih ⊢
    by_cases ha : key a < c
    · rw [List.filter_eq_nil_iff.mpr, List.nil_append, List.filter_eq_self.mpr]
      · intro b hb
        rcases List.mem_cons.mp hb with rfl | hb
        · simpa using ha
        · simpa using (hbelow b hb).trans ha
      · intro b hb
        rcases List.mem_cons.mp hb with rfl | hb
        · simpa using ha
        · simpa using (hbelow b hb).trans ha
    · rw [List.filter_cons_of_pos (by simpa using ha), List.filter_cons_of_neg (by simpa using ha),
        List.cons_append, ih hl]

/-- The newer rows stand at the start. -/
theorem Descending.newer_eq_take (h : Descending key l) (c : κ) :
    ∃ after, l = newer key c l ++ after := by
  induction l with
  | nil => exact ⟨[], rfl⟩
  | cons a l ih =>
    obtain ⟨hbelow, hl⟩ := List.pairwise_cons.mp h
    unfold newer at ih ⊢
    by_cases ha : c < key a
    · obtain ⟨after, hafter⟩ := ih hl
      refine ⟨after, ?_⟩
      rw [List.filter_cons_of_pos (by simpa using ha), List.cons_append, ← hafter]
    · refine ⟨a :: l, ?_⟩
      rw [List.filter_eq_nil_iff.mpr, List.nil_append]
      intro b hb
      rcases List.mem_cons.mp hb with rfl | hb
      · simpa using ha
      · simpa using (hbelow b hb).le.trans (not_lt.mp ha)

end Order

/-- The rows that a cursor leaves; without one it is all of them. -/
def window (key : α → κ) (c : Option κ) (l : List α) : List α :=
  match c with
  | none => l
  | some c => older key c l

/-- The rows that a backward cursor leaves. -/
def newerWindow (key : α → κ) (c : Option κ) (l : List α) : List α :=
  match c with
  | none => l
  | some c => newer key c l

/-- The first rows of a window. -/
def forwardPage (key : α → κ) (limit : ℕ) (rows : List α) : CursorPage α κ where
  data := rows.take limit
  hasMore := limit < rows.length
  nextCursor := if limit < rows.length then (rows.take limit).getLast?.map key else none
  prevCursor := (rows.take limit).head?.map key

/-- The last rows of what stands before a row. -/
def backwardPage (key : α → κ) (limit : ℕ) (rows : List α) : CursorPage α κ where
  data := rows.drop (rows.length - limit)
  hasMore := limit < rows.length
  nextCursor :=
    if limit < rows.length then (rows.drop (rows.length - limit)).head?.map key else none
  prevCursor := (rows.drop (rows.length - limit)).head?.map key

/-- The pages that are read one after the other, each from the cursor of the page before
it, until one has no next cursor. -/
inductive Walk (read : ℕ → Option γ → Option (CursorPage α γ)) :
    ℕ → Option γ → List (CursorPage α γ) → Prop
  | last {k : ℕ} {c : Option γ} {p : CursorPage α γ} (h : read k c = some p)
      (hn : p.nextCursor = none) : Walk read k c [p]
  | more {k : ℕ} {c : Option γ} {p : CursorPage α γ} {c' : γ} {pages : List (CursorPage α γ)}
      (h : read k c = some p) (hn : p.nextCursor = some c')
      (hw : Walk read (k + 1) (some c') pages) : Walk read k c (p :: pages)

/-- A walk stops at a page without a next cursor. -/
theorem Walk.eq_single {read : ℕ → Option γ → Option (CursorPage α γ)} {page : CursorPage α γ}
    {pages : List (CursorPage α γ)} {k : ℕ} {c : Option γ} (h : Walk read k c pages)
    (hread : read k c = some page) (hnext : page.nextCursor = none) : pages = [page] := by
  cases h with
  | last hp _ => rw [Option.some.inj (hread.symm.trans hp)]
  | more hp hn _ =>
    rw [← Option.some.inj (hread.symm.trans hp), hnext] at hn
    cases hn

/-- A walk goes on at the next cursor. -/
theorem Walk.tail {read : ℕ → Option γ → Option (CursorPage α γ)} {page : CursorPage α γ}
    {pages : List (CursorPage α γ)} {k : ℕ} {c : Option γ} {c' : γ} (h : Walk read k c pages)
    (hread : read k c = some page) (hnext : page.nextCursor = some c') :
    ∃ rest, pages = page :: rest ∧ Walk read (k + 1) (some c') rest := by
  cases h with
  | last hp hn =>
    rw [← Option.some.inj (hread.symm.trans hp), hnext] at hn
    cases hn
  | more hp hn hw =>
    obtain rfl := Option.some.inj (hread.symm.trans hp)
    obtain rfl := Option.some.inj (hnext.symm.trans hn)
    exact ⟨_, rfl, hw⟩

section Cursors

variable {read : ℕ → Option γ → Option (CursorPage α γ)}
  {read' : ℕ → Option δ → Option (CursorPage α δ)} {f : γ → δ} (write : Option γ → Option δ)
  {g : CursorPage α γ → CursorPage α δ}

/-- A reader that takes cursors written differently reads the same pages. -/
theorem Walk.map (hwrite : ∀ c, write (some c) = some (f c))
    (hnext : ∀ p, (g p).nextCursor = p.nextCursor.map f)
    (hread : ∀ k c, read' k (write c) = (read k c).map g) {k : ℕ} {c : Option γ}
    {pages : List (CursorPage α γ)} (h : Walk read k c pages) :
    Walk read' k (write c) (pages.map g) := by
  induction h with
  | @last k c p h hn =>
    refine .last ((hread k c).trans (congrArg _ h)) ?_
    rw [hnext, hn]
    rfl
  | @more k c p c' pages h hn hw ih =>
    rw [hwrite] at ih
    refine .more ((hread k c).trans (congrArg _ h)) ?_ ih
    rw [hnext, hn]
    rfl

/-- A walk through translated pages comes from a walk through the pages themselves. -/
theorem Walk.of_map (hwrite : ∀ c, write (some c) = some (f c))
    (hnext : ∀ p, (g p).nextCursor = p.nextCursor.map f)
    (hread : ∀ k c, read' k (write c) = (read k c).map g) {k : ℕ} (c : Option γ)
    {pages' : List (CursorPage α δ)} (h : Walk read' k (write c) pages') :
    ∃ pages, Walk read k c pages ∧ pages' = pages.map g := by
  generalize hc' : write c = c' at h
  induction h generalizing c with
  | @last k c' p' h hn =>
    subst hc'
    rw [hread] at h
    obtain ⟨p, hp, rfl⟩ := Option.map_eq_some_iff.mp h
    rw [hnext] at hn
    exact ⟨[p], .last hp (Option.map_eq_none_iff.mp hn), rfl⟩
  | @more k c' p' d pages' h hn hw ih =>
    subst hc'
    rw [hread] at h
    obtain ⟨p, hp, rfl⟩ := Option.map_eq_some_iff.mp h
    rw [hnext] at hn
    obtain ⟨c₁, hc₁, rfl⟩ := Option.map_eq_some_iff.mp hn
    obtain ⟨pages, hpages, rfl⟩ := ih (some c₁) (hwrite c₁)
    exact ⟨p :: pages, .more hp hc₁ hpages, rfl⟩

end Cursors

section Rows

variable {β : Type*} {read : ℕ → Option γ → Option (CursorPage α γ)}
  {read' : ℕ → Option γ → Option (CursorPage β γ)} {g : CursorPage α γ → CursorPage β γ}

/-- A reader that sees less of each row walks along. -/
theorem Walk.image (hnext : ∀ p, (g p).nextCursor = p.nextCursor)
    (hread : ∀ k c, read' k c = (read k c).map g) {k : ℕ} {c : Option γ}
    {pages : List (CursorPage α γ)} (h : Walk read k c pages) : Walk read' k c (pages.map g) := by
  induction h with
  | @last k c p h hn => exact .last ((hread k c).trans (congrArg _ h)) ((hnext p).trans hn)
  | @more k c p c' pages h hn hw ih =>
    exact .more ((hread k c).trans (congrArg _ h)) ((hnext p).trans hn) ih

/-- A walk through pages whose items are translated comes from a walk through the pages
themselves. -/
theorem Walk.of_image (hnext : ∀ p, (g p).nextCursor = p.nextCursor)
    (hread : ∀ k c, read' k c = (read k c).map g) {k : ℕ} {c : Option γ}
    {pages' : List (CursorPage β γ)} (h : Walk read' k c pages') :
    ∃ pages, Walk read k c pages ∧ pages' = pages.map g := by
  induction h with
  | @last k c p' h hn =>
    obtain ⟨p, hp, rfl⟩ := Option.map_eq_some_iff.mp ((hread k c).symm.trans h)
    exact ⟨[p], .last hp ((hnext p).symm.trans hn), rfl⟩
  | @more k c p' c' pages' h hn hw ih =>
    obtain ⟨p, hp, rfl⟩ := Option.map_eq_some_iff.mp ((hread k c).symm.trans h)
    obtain ⟨pages, hpages, rfl⟩ := ih
    exact ⟨p :: pages, .more hp ((hnext p).symm.trans hn) hpages, rfl⟩

end Rows

section Pages

variable {l : List α} {c c' : Option κ} {limit : ℕ}

/-- The window below a cursor is a part of the list. -/
theorem window_sublist (c : Option κ) (l : List α) : (window key c l).Sublist l := by
  cases c with
  | none => exact List.Sublist.refl l
  | some c => exact List.filter_sublist

/-- The window below a cursor is descending. -/
theorem Descending.window (h : Descending key l) (c : Option κ) : Descending key (window key c l) :=
  h.sublist (window_sublist c l)

/-- A window stands at the end of the rows. -/
theorem Descending.window_at_end (h : Descending key l) (c : Option κ) :
    ∃ before, l = before ++ Keyset.window key c l := by
  cases c with
  | none => exact ⟨[], rfl⟩
  | some c => exact ⟨_, (h.cut c).symm⟩

/-- A forward page is a stretch of the rows. -/
theorem Descending.forwardPage_between (h : Descending key l) (c : Option κ) (limit : ℕ) :
    ∃ before after, l = before ++
      (forwardPage key limit (Keyset.window key c l)).data ++ after := by
  obtain ⟨before, hbefore⟩ := h.window_at_end c
  refine ⟨before, (Keyset.window key c l).drop limit, ?_⟩
  change l = before ++ (Keyset.window key c l).take limit ++ _
  rw [List.append_assoc, List.take_append_drop]
  exact hbefore

/-- A backward page is a stretch of the rows. -/
theorem Descending.backwardPage_between (h : Descending key l) (c : Option κ) (limit : ℕ) :
    ∃ before after, l = before ++ (backwardPage key limit (newerWindow key c l)).data ++ after := by
  obtain ⟨after, hafter⟩ : ∃ after, l = newerWindow key c l ++ after := by
    cases c with
    | none => exact ⟨[], (List.append_nil l).symm⟩
    | some c => exact h.newer_eq_take c
  refine ⟨(newerWindow key c l).take ((newerWindow key c l).length - limit), after, ?_⟩
  change l = _ ++ (newerWindow key c l).drop ((newerWindow key c l).length - limit) ++ after
  rw [List.take_append_drop]
  exact hafter

/-- Before the first row of a stretch stands what is before the stretch. -/
theorem Descending.newerWindow_head {before data after : List α} {a : α}
    (h : Descending key (before ++ data ++ after)) (hhead : data.head? = some a) :
    newerWindow key (some (key a)) (before ++ data ++ after) = before := by
  obtain ⟨rest, rfl⟩ := List.head?_eq_some_iff.mp hhead
  rw [List.append_assoc, List.cons_append] at h ⊢
  exact h.split.1

omit [LinearOrder κ] in
/-- A page has a next cursor exactly when it has more. -/
theorem forwardPage_next (key : α → κ) (rows : List α) (hlimit : 1 ≤ limit) :
    ((forwardPage key limit rows).hasMore = false ∧
      (forwardPage key limit rows).nextCursor = none ∧
      (forwardPage key limit rows).data = rows) ∨
    ((forwardPage key limit rows).hasMore = true ∧
      ∃ init last, rows = init ++ last :: rows.drop limit ∧
        (forwardPage key limit rows).data = init ++ [last] ∧
        (forwardPage key limit rows).nextCursor = some (key last)) := by
  by_cases hmore : limit < rows.length
  · right
    have hne : rows.take limit ≠ [] := by
      rw [Ne, List.take_eq_nil_iff, not_or]
      refine ⟨by omega, fun hnil => ?_⟩
      rw [hnil] at hmore
      exact absurd hmore (Nat.not_lt_zero _)
    have hlast := (List.dropLast_append_getLast hne).symm
    refine ⟨decide_eq_true hmore, (rows.take limit).dropLast, (rows.take limit).getLast hne, ?_,
      hlast, ?_⟩
    · have hcat := List.take_append_drop limit rows
      rw [hlast, List.append_assoc] at hcat
      exact hcat.symm
    · unfold forwardPage
      rw [if_pos hmore, List.getLast?_eq_some_getLast hne, Option.map_some]
  · left
    refine ⟨decide_eq_false hmore, if_neg hmore, List.take_of_length_le (by omega)⟩

end Pages

section Walks

variable {rows : ℕ → List α} {keep : ℕ → α → Bool} {limit : ℕ}

/-- The forward page that a walk reads at a time. -/
abbrev readForward (key : α → κ) (limit : ℕ) (rows : ℕ → List α) (k : ℕ) (c : Option κ) :
    Option (CursorPage α κ) :=
  some (forwardPage key limit (window key c (rows k)))

/-- Between two pages, rows below the cursor may go and none may come. -/
def Keeps (key : α → κ) (rows : ℕ → List α) (keep : ℕ → α → Bool) : Prop :=
  ∀ k, ∀ a ∈ rows k, older key (key a) (rows (k + 1)) =
    (older key (key a) (rows k)).filter (keep k)

/-- Below the last row of a page stands the rest of its window. -/
theorem Descending.older_last {l : List α} (hdesc : Descending key l) {c : Option κ}
    {init : List α} {last : α} {rest : List α} (h : Keyset.window key c l = init ++ last :: rest) :
    older key (key last) l = rest := by
  have hcut := hdesc.window c
  rw [h] at hcut
  have hrest := hcut.split.2
  rw [← h] at hrest
  rw [← hrest]
  cases c with
  | none => rfl
  | some c =>
    -- What is below the last row is below the cursor of the page.
    have hlast : key last < c := by
      have hin : last ∈ older key c l := by
        change last ∈ Keyset.window key (some c) l
        rw [h]
        simp
      simpa using (List.mem_filter.mp hin).2
    change older key (key last) l = older key (key last) (older key c l)
    unfold older
    rw [List.filter_filter]
    apply List.filter_congr
    intro a _
    by_cases ha : key a < key last
    · simp [ha, ha.trans hlast]
    · simp [ha]

/-- After a page with more, the next one reads what is kept of the rest. -/
theorem Keeps.next (hkeep : Keeps key rows keep) (hdesc : ∀ k, Descending key (rows k)) {k : ℕ}
    {c : Option κ} {init : List α} {last : α} {rest : List α}
    (h : window key c (rows k) = init ++ last :: rest) :
    window key (some (key last)) (rows (k + 1)) = rest.filter (keep k) := by
  have hmem : last ∈ rows k := (window_sublist c (rows k)).subset (by rw [h]; simp)
  change older key (key last) (rows (k + 1)) = _
  rw [hkeep k last hmem, (hdesc k).older_last h]

/-- Every walk ends: the window gets smaller with every page. -/
theorem walk_exists (hkeep : Keeps key rows keep) (hdesc : ∀ k, Descending key (rows k))
    (hlimit : 1 ≤ limit) (k : ℕ) (c : Option κ) :
    ∃ pages, Walk (readForward key limit rows) k c pages := by
  induction hn : (window key c (rows k)).length using Nat.strongRecOn generalizing k c with
  | _ n ih =>
    rcases forwardPage_next key (window key c (rows k)) hlimit with
      ⟨-, hnext, -⟩ | ⟨-, init, last, hrows, -, hnext⟩
    · exact ⟨_, .last rfl hnext⟩
    · have hwindow := hkeep.next hdesc hrows
      have hlen := congrArg List.length hrows
      rw [List.length_append, List.length_cons, hn] at hlen
      have hfilter := List.length_filter_le (keep k) ((window key c (rows k)).drop limit)
      obtain ⟨pages, hw⟩ := ih _ (by rw [← hwindow] at hfilter; omega) (k + 1)
        (some (key last)) rfl
      exact ⟨_, .more rfl hnext hw⟩

/-- A walk shows rows of its first window, in their order. -/
theorem walk_sublist (hkeep : Keeps key rows keep) (hdesc : ∀ k, Descending key (rows k))
    (hlimit : 1 ≤ limit) {k : ℕ} {c : Option κ} {pages : List (CursorPage α κ)}
    (hw : Walk (readForward key limit rows) k c pages) :
    (pages.flatMap (·.data)).Sublist (window key c (rows k)) := by
  induction hw with
  | @last k c p h hn =>
    obtain rfl := Option.some.inj h
    rw [List.flatMap_singleton]
    exact List.take_sublist limit _
  | @more k c p c' pages h hn hw ih =>
    obtain rfl := Option.some.inj h
    rcases forwardPage_next key (window key c (rows k)) hlimit with
      ⟨-, hnext, -⟩ | ⟨-, init, last, hrows, hdata, hnext⟩
    · rw [hn] at hnext
      cases hnext
    · obtain rfl : c' = key last := Option.some.inj (hn.symm.trans hnext)
      rw [hkeep.next hdesc hrows] at ih
      rw [List.flatMap_cons, hdata]
      conv_rhs => rw [hrows, List.append_cons]
      exact (List.Sublist.refl _).append (ih.trans List.filter_sublist)

omit [LinearOrder κ] in
/-- What follows a page is shown when this step keeps it and the pages after show it. -/
theorem all_shown_append {data rest shown : List α} {p : α → Bool} (hnodup : (data ++ rest).Nodup)
    (hshown : shown.Sublist (rest.filter p)) : (∀ a ∈ data ++ rest, a ∈ data ++ shown) ↔
      (∀ a ∈ rest, p a = true) ∧ ∀ a ∈ rest.filter p, a ∈ shown := by
  constructor
  · intro hall
    have hrest : ∀ a ∈ rest, a ∈ shown := by
      intro a ha
      have hnot : a ∉ data := fun hin => (List.nodup_append.mp hnodup).2.2 a hin a ha rfl
      exact (List.mem_append.mp (hall a (List.mem_append_right _ ha))).resolve_left hnot
    exact ⟨fun a ha => (List.mem_filter.mp (hshown.subset (hrest a ha))).2,
      fun a ha => hrest a (List.mem_filter.mp ha).1⟩
  · rintro ⟨hkept, hall⟩ a ha
    rcases List.mem_append.mp ha with ha | ha
    · exact List.mem_append_left _ ha
    · exact List.mem_append_right _ (hall a (List.mem_filter.mpr ⟨ha, hkept a ha⟩))

/-- A walk shows its whole first window exactly when, between two pages, no row below the
cursor goes. -/
theorem walk_shows_iff (hkeep : Keeps key rows keep) (hdesc : ∀ k, Descending key (rows k))
    (hlimit : 1 ≤ limit) {k : ℕ} {c : Option κ} {pages : List (CursorPage α κ)}
    (hw : Walk (readForward key limit rows) k c pages) :
    (∀ a ∈ window key c (rows k), a ∈ pages.flatMap (·.data)) ↔
      ∀ (j : ℕ) (page : CursorPage α κ) (c' : κ), pages[j]? = some page →
        page.nextCursor = some c' → ∀ a ∈ older key c' (rows (k + j)), keep (k + j) a = true := by
  induction hw with
  | @last k c p h hn =>
    obtain rfl := Option.some.inj h
    rcases forwardPage_next key (window key c (rows k)) hlimit with
      ⟨-, -, hdata⟩ | ⟨-, init, last, -, -, hnext⟩
    · rw [List.flatMap_singleton, hdata]
      refine iff_of_true (fun _ ha => ha) ?_
      intro j page c' hj hc'
      obtain rfl := List.mem_singleton.mp (List.mem_of_getElem? hj)
      rw [hn] at hc'
      cases hc'
    · rw [hn] at hnext
      cases hnext
  | @more k c p c' pages h hn hw ih =>
    have hshown := walk_sublist hkeep hdesc hlimit hw
    obtain rfl := Option.some.inj h
    rcases forwardPage_next key (window key c (rows k)) hlimit with
      ⟨-, hnext, -⟩ | ⟨-, init, last, hrows, hdata, hnext⟩
    · rw [hn] at hnext
      cases hnext
    · obtain rfl : c' = key last := Option.some.inj (hn.symm.trans hnext)
      rw [hkeep.next hdesc hrows] at ih hshown
      have hbelow := (hdesc k).older_last hrows
      have hnodup := ((hdesc k).window c).nodup_keys.of_map
      rw [hrows, List.append_cons] at hnodup
      have hsplit := all_shown_append hnodup hshown
      rw [← List.append_cons, ← hrows, ← hdata, ih] at hsplit
      refine hsplit.trans ?_
      constructor
      · rintro ⟨hkept, hlater⟩ j page c' hj hc'
        cases j with
        | zero =>
          obtain rfl := Option.some.inj hj
          obtain rfl := Option.some.inj (hnext.symm.trans hc')
          rw [Nat.add_zero, hbelow]
          exact hkept
        | succ j =>
          rw [Nat.add_comm j 1, ← Nat.add_assoc]
          exact hlater j page c' hj hc'
      · intro hall
        constructor
        · have hnow := hall 0 _ _ rfl hnext
          rw [Nat.add_zero, hbelow] at hnow
          exact hnow
        · intro j page c' hj hc'
          have hthen := hall (j + 1) page c' hj hc'
          rw [Nat.add_comm j 1, ← Nat.add_assoc] at hthen
          exact hthen

/-- Rows that stay are kept. -/
theorem keeps_fixed (fixed : List α) : Keeps key (fun _ => fixed) fun _ _ => true := by
  intro k a _
  rw [List.filter_eq_self.mpr fun _ _ => rfl]

/-- A walk during which no row below its cursors goes shows its whole first window. -/
theorem walk_all (hkeep : Keeps key rows fun _ _ => true) (hdesc : ∀ k, Descending key (rows k))
    (hlimit : 1 ≤ limit) {k : ℕ} {c : Option κ} {pages : List (CursorPage α κ)}
    (hw : Walk (readForward key limit rows) k c pages) :
    pages.flatMap (·.data) = window key c (rows k) := by
  have hsub := walk_sublist hkeep hdesc hlimit hw
  have hall := (walk_shows_iff hkeep hdesc hlimit hw).mpr fun _ _ _ _ _ _ _ => rfl
  have hwindow := (hdesc k).window c
  exact (hwindow.sublist hsub).eq hwindow fun a => ⟨fun ha => hsub.subset ha, hall a⟩

/-- A walk over rows that stay shows the whole window. -/
theorem walk_eq {fixed : List α} (hdesc : Descending key fixed) (hlimit : 1 ≤ limit) {k : ℕ}
    {c : Option κ} {pages : List (CursorPage α κ)}
    (hw : Walk (readForward key limit fun _ => fixed) k c pages) :
    pages.flatMap (·.data) = window key c fixed :=
  walk_all (keeps_fixed fixed) (fun _ => hdesc) hlimit hw

end Walks

end Keyset

end Ascendance.Core
