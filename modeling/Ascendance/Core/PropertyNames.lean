import Mathlib.Data.List.Lex
import Mathlib.Data.List.Sort

/-!
# Names of properties

Strings compare by their UTF-16 code units. An object enumerates the properties
whose names are indices first, in the order of the indices, and the others in the
order in which they were added; so properties that are added in the order of their
names are always enumerated in one order.
-/

namespace Ascendance.Core

/-- The UTF-16 code units of a character. -/
def charUnits (c : Char) : List ℕ :=
  if c.toNat < 0x10000 then [c.toNat]
  else [0xD800 + (c.toNat - 0x10000) / 0x400, 0xDC00 + (c.toNat - 0x10000) % 0x400]

/-- The UTF-16 code units of a string. -/
def utf16 (s : String) : List ℕ := s.toList.flatMap charUnits

private theorem toNat_valid (c : Char) : c.toNat < 0xD800 ∨ 0xDFFF < c.toNat ∧ c.toNat < 0x110000 :=
  c.valid

/-- The first unit tells how many units a character has. -/
theorem charUnits_append {c d : Char} {l m : List ℕ} (h : charUnits c ++ l = charUnits d ++ m) :
    c = d ∧ l = m := by
  have hc := toNat_valid c
  have hd := toNat_valid d
  have hsuffices : c.toNat = d.toNat ∧ l = m → c = d ∧ l = m :=
    fun heq => ⟨Char.toNat_inj.mp heq.1, heq.2⟩
  refine hsuffices ?_
  unfold charUnits at h
  split at h <;> split at h
  · simp only [List.cons_append, List.nil_append, List.cons.injEq] at h
    exact h
  · simp only [List.cons_append, List.nil_append, List.cons.injEq] at h
    omega
  · simp only [List.cons_append, List.nil_append, List.cons.injEq] at h
    omega
  · simp only [List.cons_append, List.nil_append, List.cons.injEq] at h
    obtain ⟨hhigh, hlow, hrest⟩ := h
    refine ⟨?_, hrest⟩
    omega

private theorem charUnits_ne_nil (c : Char) : charUnits c ≠ [] := by
  unfold charUnits
  split <;> exact List.cons_ne_nil _ _

/-- A string is determined by its code units. -/
theorem utf16_injective : Function.Injective utf16 := by
  have hlists : ∀ l m : List Char, l.flatMap charUnits = m.flatMap charUnits → l = m := by
    intro l
    induction l with
    | nil =>
      intro m h
      cases m with
      | nil => rfl
      | cons d m =>
        rw [List.flatMap_nil, List.flatMap_cons] at h
        exact absurd (List.append_eq_nil_iff.mp h.symm).1 (charUnits_ne_nil d)
    | cons c l ih =>
      intro m h
      cases m with
      | nil =>
        rw [List.flatMap_nil, List.flatMap_cons] at h
        exact absurd (List.append_eq_nil_iff.mp h).1 (charUnits_ne_nil c)
      | cons d m =>
        rw [List.flatMap_cons, List.flatMap_cons] at h
        obtain ⟨rfl, hrest⟩ := charUnits_append h
        rw [ih m hrest]
  intro s t h
  exact String.toList_injective (hlists _ _ h)

/-- `<` on strings. -/
def jsLt (a b : String) : Prop := utf16 a < utf16 b

instance (a b : String) : Decidable (jsLt a b) := by
  unfold jsLt
  infer_instance

section Sorting

variable {γ δ κ : Type*} [LinearOrder κ]

/-- A stable sort by a key. -/
def sortBy (f : γ → κ) (l : List γ) : List γ := l.insertionSort fun a b => f a ≤ f b

/-- Sorting permutes the list. -/
theorem sortBy_perm (f : γ → κ) (l : List γ) : (sortBy f l).Perm l := List.perm_insertionSort _ l

/-- A sorted list rises. -/
private theorem sortBy_pairwise (f : γ → κ) (l : List γ) :
    (sortBy f l).Pairwise fun a b => f a ≤ f b := by
  have : Std.Total fun a b : γ => f a ≤ f b := ⟨fun a b => le_total (f a) (f b)⟩
  have : IsTrans γ fun a b => f a ≤ f b := ⟨fun _ _ _ h h' => le_trans h h'⟩
  exact List.pairwise_insertionSort _ l

/-- Sorting by a key commutes with maps that keep the key. -/
private theorem map_sortBy {f : γ → κ} {g : δ → κ} (h : γ → δ) (hkey : ∀ a, g (h a) = f a)
    (l : List γ) :
    (sortBy f l).map h = sortBy g (l.map h) := by
  refine List.map_insertionSort _ _ h l fun a _ b _ => ?_
  rw [hkey, hkey]

/-- Distinct keys are strictly sorted. -/
theorem sortBy_strict {f : γ → κ} {l : List γ} (h : l.Pairwise fun a b => f a ≠ f b) :
    (sortBy f l).Pairwise fun a b => f a < f b := by
  have hne : (sortBy f l).Pairwise fun a b => f a ≠ f b :=
    (sortBy_perm f l).symm.pairwise h fun hab => Ne.symm hab
  exact ((sortBy_pairwise f l).and hne).imp fun hab => lt_of_le_of_ne hab.1 hab.2

end Sorting

section Lookup

variable {γ δ : Type*}

/-- With distinct names, a lookup finds exactly the entries. -/
theorem lookup_eq_some_iff {entries : List (String × γ)} (h : (entries.map (·.1)).Nodup)
    {k : String}
    {v : γ} : entries.lookup k = some v ↔ (k, v) ∈ entries := by
  induction entries with
  | nil => simp
  | cons e es ih =>
    obtain ⟨hnot, hnodup⟩ := List.nodup_cons.mp h
    rw [List.lookup_cons, List.mem_cons]
    by_cases hk : k = e.1
    · subst hk
      have hother : (e.1, v) ∉ es := fun hmem => hnot (List.mem_map.mpr ⟨_, hmem, rfl⟩)
      simp only [BEq.rfl, Option.some.injEq, hother, or_false, Prod.ext_iff, true_and]
      exact eq_comm
    · have hbeq : (k == e.1) = false := beq_eq_false_iff_ne.mpr hk
      have hne : (k, v) ≠ e := fun heq => hk (congrArg Prod.fst heq)
      simp only [hbeq, hne, false_or]
      exact ih hnodup

/-- The order of distinct names is nothing to a lookup. -/
theorem lookup_perm {entries entries' : List (String × γ)} (h : (entries.map (·.1)).Nodup)
    (hperm : entries.Perm entries') (k : String) : entries'.lookup k = entries.lookup k := by
  have h' : (entries'.map (·.1)).Nodup := (hperm.map _).nodup_iff.mp h
  refine Option.ext fun v => ?_
  rw [lookup_eq_some_iff h', lookup_eq_some_iff h, hperm.mem_iff]

/-- The names of the entries that keep a value. -/
theorem keys_filterMap_sublist (f : γ → Option δ) (entries : List (String × γ)) :
    ((entries.filterMap fun e => (f e.2).map (Prod.mk e.1)).map (·.1)).Sublist
      (entries.map (·.1)) := by
  induction entries with
  | nil => exact List.Sublist.refl _
  | cons e es ih =>
    rw [List.filterMap_cons, List.map_cons]
    cases f e.2 with
    | some v =>
      rw [Option.map_some, List.map_cons]
      exact ih.cons_cons _
    | none =>
      rw [Option.map_none]
      exact ih.cons _

/-- Looking up in a list of converted entries converts what is found. -/
theorem lookup_filterMap (f : γ → Option δ) {entries : List (String × γ)}
    (h : (entries.map (·.1)).Nodup) (k : String) :
    (entries.filterMap fun e => (f e.2).map (Prod.mk e.1)).lookup k =
      (entries.lookup k).bind f := by
  have h' := h.sublist (keys_filterMap_sublist f entries)
  refine Option.ext fun v => ?_
  rw [lookup_eq_some_iff h', List.mem_filterMap, Option.bind_eq_some_iff]
  constructor
  · rintro ⟨e, he, hmap⟩
    obtain ⟨w, hw, heq⟩ := Option.map_eq_some_iff.mp hmap
    obtain ⟨rfl, rfl⟩ := Prod.mk.inj heq
    exact ⟨e.2, (lookup_eq_some_iff h).mpr he, hw⟩
  · rintro ⟨w, hw, hf⟩
    refine ⟨(k, w), (lookup_eq_some_iff h).mp hw, ?_⟩
    rw [hf]
    rfl

/-- Looking up in a list of mapped entries maps what is found. -/
theorem lookup_map (f : γ → δ) (entries : List (String × γ)) (k : String) :
    (entries.map fun e => (e.1, f e.2)).lookup k = (entries.lookup k).map f := by
  induction entries with
  | nil => rfl
  | cons e es ih =>
    rw [List.map_cons, List.lookup_cons, List.lookup_cons]
    cases k == e.1 with
    | true => rfl
    | false => exact ih

end Lookup

/-- The index that a property name is the decimal numeral of. -/
def arrayIndex (k : String) : Option ℕ :=
  let n := k.toList.foldl (fun n c => 10 * n + (c.toNat - 48)) 0
  if toString n = k ∧ n < 4294967295 then some n else none

/-- An index has one text. -/
private theorem arrayIndex_inj {a b : String} {n : ℕ} (ha : arrayIndex a = some n)
    (hb : arrayIndex b = some n) : a = b := by
  have hnumeral : ∀ {k : String}, arrayIndex k = some n → toString n = k := by
    intro k hk
    unfold arrayIndex at hk
    dsimp only at hk
    split at hk
    · next h =>
      rw [Option.some.inj hk] at h
      exact h.1
    · cases hk
  exact (hnumeral ha).symm.trans (hnumeral hb)

/-- The order in which names are enumerated that were added by their code units. -/
def KeyLt (a b : String) : Prop :=
  match arrayIndex a, arrayIndex b with
  | some i, some j => i < j
  | some _, none => True
  | none, some _ => False
  | none, none => jsLt a b

/-- No two names precede each other. -/
theorem KeyLt.asymm {a b : String} (h : KeyLt a b) : ¬ KeyLt b a := by
  unfold KeyLt at h ⊢
  cases ha : arrayIndex a with
  | some i =>
    cases hb : arrayIndex b with
    | some j =>
      simp only [ha, hb] at h ⊢
      exact Nat.lt_asymm h
    | none => simp only [not_false_eq_true]
  | none =>
    cases hb : arrayIndex b with
    | some j => simp only [ha, hb] at h
    | none =>
      simp only [ha, hb] at h ⊢
      exact lt_asymm h

/-- An order in which an object can enumerate two names. -/
def KeyBefore (a b : String) : Prop :=
  match arrayIndex a, arrayIndex b with
  | some i, some j => i < j
  | some _, none => True
  | none, some _ => False
  | none, none => a ≠ b

/-- The strict order is contained in the enumeration order. -/
theorem KeyLt.before {a b : String} (h : KeyLt a b) : KeyBefore a b := by
  unfold KeyLt at h
  unfold KeyBefore
  cases ha : arrayIndex a with
  | some i =>
    cases hb : arrayIndex b with
    | some j =>
      rw [ha, hb] at h
      exact h
    | none => trivial
  | none =>
    cases hb : arrayIndex b with
    | some j =>
      rw [ha, hb] at h
      exact h
    | none =>
      rw [ha, hb] at h
      rintro rfl
      exact lt_irrefl _ h

/-- Names that are not indices are enumerated in any order. -/
theorem pairwise_keyBefore {names : List String} (hindex : ∀ k ∈ names, arrayIndex k = none)
    (hnodup : names.Nodup) : names.Pairwise KeyBefore := by
  refine List.Pairwise.imp_of_mem ?_ hnodup
  intro a b ha hb hne
  simp only [KeyBefore, hindex a ha, hindex b hb]
  exact hne

section Entries

variable {γ δ : Type*}

/-- `Object.fromEntries` for distinct names. -/
def fromEntries (entries : List (String × γ)) : List (String × γ) :=
  sortBy (fun e => (arrayIndex e.1).getD 0) (entries.filter fun e => (arrayIndex e.1).isSome) ++
    entries.filter fun e => (arrayIndex e.1).isNone

/-- The entries of an object to which properties are added in the order of their names. -/
def enumerate (entries : List (String × γ)) : List (String × γ) :=
  fromEntries (sortBy (fun e => utf16 e.1) entries)

/-- Building an object keeps its entries, up to the order. -/
theorem fromEntries_perm (entries : List (String × γ)) : (fromEntries entries).Perm entries := by
  have hsplit : entries.filter (fun e => (arrayIndex e.1).isNone) =
      entries.filter fun e => !(arrayIndex e.1).isSome :=
    List.filter_congr fun e _ => by cases arrayIndex e.1 <;> rfl
  unfold fromEntries
  rw [hsplit]
  exact ((sortBy_perm _ _).append_right _).trans (List.filter_append_perm _ entries)

/-- Enumerating an object keeps its entries, up to the order. -/
theorem enumerate_perm (entries : List (String × γ)) : (enumerate entries).Perm entries :=
  (fromEntries_perm _).trans (sortBy_perm _ entries)

/-- Changing the values keeps the order. -/
theorem enumerate_map (f : String × γ → δ) (entries : List (String × γ)) :
    enumerate (entries.map fun e => (e.1, f e)) = (enumerate entries).map fun e => (e.1, f e) := by
  let g : String × γ → String × δ := fun e => (e.1, f e)
  have hunits : sortBy (fun e => utf16 e.1) (entries.map g) =
      (sortBy (fun e => utf16 e.1) entries).map g := (map_sortBy g (fun _ => rfl) entries).symm
  have hindex : ∀ l : List (String × γ), sortBy (fun e => (arrayIndex e.1).getD 0) (l.map g) =
      (sortBy (fun e => (arrayIndex e.1).getD 0) l).map g :=
    fun l => (map_sortBy g (fun _ => rfl) l).symm
  change fromEntries (sortBy (fun e => utf16 e.1) (entries.map g)) = (enumerate entries).map g
  rw [hunits]
  unfold enumerate fromEntries
  rw [List.filter_map, List.filter_map, hindex, List.map_append]
  rfl

/-- The enumeration is strictly ordered when the names are distinct. -/
theorem enumerate_pairwise {entries : List (String × γ)} (h : (entries.map (·.1)).Nodup) :
    (enumerate entries).Pairwise fun a b => KeyLt a.1 b.1 := by
  have hsorted : (sortBy (fun e => utf16 e.1) entries).Pairwise fun a b => jsLt a.1 b.1 :=
    sortBy_strict ((List.pairwise_map.mp h).imp fun hne heq => hne (utf16_injective heq))
  refine List.pairwise_append.mpr ⟨?_, ?_, fun a ha b hb => ?_⟩
  · have hindex : ∀ e ∈ (sortBy (fun e => utf16 e.1) entries).filter
        fun e => (arrayIndex e.1).isSome, ∃ i, arrayIndex e.1 = some i :=
      fun e he => Option.isSome_iff_exists.mp (List.mem_filter.mp he).2
    refine List.Pairwise.imp_of_mem ?_ (sortBy_strict ?_)
    · intro a b ha hb hab
      obtain ⟨i, hi⟩ := hindex a ((sortBy_perm _ _).mem_iff.mp ha)
      obtain ⟨j, hj⟩ := hindex b ((sortBy_perm _ _).mem_iff.mp hb)
      simp only [hi, hj, Option.getD_some] at hab
      simp only [KeyLt, hi, hj]
      exact hab
    · refine List.Pairwise.imp_of_mem ?_ (hsorted.filter _)
      intro a b ha hb hab heq
      obtain ⟨i, hi⟩ := hindex a ha
      obtain ⟨j, hj⟩ := hindex b hb
      simp only [hi, hj, Option.getD_some] at heq
      subst heq
      rw [arrayIndex_inj hi hj] at hab
      exact lt_irrefl _ hab
  · refine List.Pairwise.imp_of_mem ?_ (hsorted.filter _)
    intro a b ha hb hab
    have ha' := (List.mem_filter.mp ha).2
    have hb' := (List.mem_filter.mp hb).2
    simp only [KeyLt, Option.isNone_iff_eq_none.mp ha', Option.isNone_iff_eq_none.mp hb']
    exact hab
  · have ha' := (List.mem_filter.mp ((sortBy_perm _ _).mem_iff.mp ha)).2
    have hb' := (List.mem_filter.mp hb).2
    obtain ⟨i, hi⟩ := Option.isSome_iff_exists.mp ha'
    simp only [KeyLt, hi, Option.isNone_iff_eq_none.mp hb']

/-- What is in the order already stays as it is. -/
theorem enumerate_eq {entries : List (String × γ)}
    (h : entries.Pairwise fun a b => KeyLt a.1 b.1) : enumerate entries = entries := by
  have hnodup : (entries.map (·.1)).Nodup := by
    refine List.pairwise_map.mpr (h.imp fun {a b} hab heq => ?_)
    rw [heq] at hab
    exact hab.asymm hab
  refine List.Perm.eq_of_pairwise ?_ (enumerate_pairwise hnodup) h (enumerate_perm entries)
  exact fun a b _ _ hab hba => absurd hba hab.asymm

end Entries

end Ascendance.Core
