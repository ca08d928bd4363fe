import Ascendance.Models.Feed.InterestRanking

/-!
# What mixing keeps

Every position of a group gets an entry of its group, every queue is handed out in its
order, and at the end all queues are empty. As long as no queue of a group runs out, the
largest deficit is served at every position of the group, and no format strays from its
share.
-/

namespace Ascendance.Feed

open Ascendance.Core Ascendance.Core.Quota

private theorem Available.compare_total (a b : Available) : a.compare b ≤ 0 ∨ b.compare a ≤ 0 := by
  unfold Available.compare
  by_cases h : b.deficit - a.deficit = 0
  · have hback : a.deficit - b.deficit = 0 := by linarith
    rw [if_neg (not_not_intro h), if_neg (not_not_intro hback)]
    rcases le_total (a.position : ℚ) b.position with hle | hle
    · exact .inl (by linarith)
    · exact .inr (by linarith)
  · have hback : a.deficit - b.deficit ≠ 0 := fun heq => h (by linarith)
    rw [if_pos h, if_pos hback]
    rcases le_total b.deficit a.deficit with hle | hle
    · exact .inl (by linarith)
    · exact .inr (by linarith)

/-- The larger deficit goes first, and then the earlier position. -/
private theorem Available.compare_nonpos_iff {a b : Available} : a.compare b ≤ 0 ↔
    b.deficit < a.deficit ∨ b.deficit = a.deficit ∧ a.position ≤ b.position := by
  unfold Available.compare
  by_cases h : b.deficit - a.deficit = 0
  · have heq : b.deficit = a.deficit := by linarith
    rw [if_neg (not_not_intro h), sub_nonpos, Nat.cast_le, heq]
    simp
  · have hne : b.deficit ≠ a.deficit := fun heq => h (by linarith)
    rw [if_pos h, sub_nonpos]
    simp [hne, le_iff_lt_or_eq]

/-- The order of the available entries is transitive. -/
private theorem Available.compare_trans {a b c : Available} (hab : a.compare b ≤ 0)
    (hbc : b.compare c ≤ 0) : a.compare c ≤ 0 := by
  rw [compare_nonpos_iff] at hab hbc ⊢
  rcases hab with hab | ⟨hab, hpab⟩
  · rcases hbc with hbc | ⟨hbc, _⟩
    · exact .inl (hbc.trans hab)
    · exact .inl (hbc ▸ hab)
  · rcases hbc with hbc | ⟨hbc, hpbc⟩
    · exact .inl (hab ▸ hbc)
    · exact .inr ⟨hbc.trans hab, hpab.trans hpbc⟩

/-- The first one of the sorted formats has the largest deficit. -/
theorem firstAvailable_spec {formats : List Available} (hne : formats ≠ []) :
    ∃ best ∈ formats, firstAvailable formats = some best ∧
      ∀ a ∈ formats, a.deficit ≤ best.deficit := by
  unfold firstAvailable
  have hperm := List.mergeSort_perm formats fun a b => decide (a.compare b ≤ 0)
  have hsorted := @List.pairwise_mergeSort _ (fun a b : Available => decide (a.compare b ≤ 0))
    (fun a b c hab hbc => decide_eq_true
      (Available.compare_trans (of_decide_eq_true hab) (of_decide_eq_true hbc)))
    (fun a b => by simpa using Available.compare_total a b) formats
  cases hlist : formats.mergeSort fun a b => decide (a.compare b ≤ 0) with
  | nil =>
    rw [hlist] at hperm
    exact absurd hperm.symm.eq_nil hne
  | cons best rest =>
    rw [hlist] at hperm hsorted
    refine ⟨best, hperm.mem_iff.mp List.mem_cons_self, rfl, fun a ha => ?_⟩
    rcases List.mem_cons.mp (hperm.mem_iff.mpr ha) with rfl | hmem
    · exact le_rfl
    · have hle := of_decide_eq_true ((List.pairwise_cons.mp hsorted).1 a hmem)
      rcases Available.compare_nonpos_iff.mp hle with hlt | ⟨heq, _⟩
      · exact hlt.le
      · exact heq.le

section Assign

variable {T : Type*} {shares : InterestFormatShares} {group : FormatGroup T}

/-- A format is available while its queue has an entry left. -/
private theorem mem_available {a : Available} : a ∈ available shares group ↔
    ∃ next, (group.queues a.format).entries[(group.queues a.format).assigned]? = some next ∧
      a.position = next.2 ∧
      a.deficit = group.assigned * shares a.format - (group.queues a.format).assigned := by
  unfold available
  rw [List.mem_flatMap]
  constructor
  · rintro ⟨format, _, ha⟩
    cases hnext : (group.queues format).entries[(group.queues format).assigned]? with
    | none => simp [hnext] at ha
    | some next =>
      simp only [hnext, List.mem_singleton] at ha
      subst ha
      exact ⟨next, hnext, rfl, rfl⟩
  · rintro ⟨next, hnext, hposition, hdeficit⟩
    refine ⟨a.format, ?_, ?_⟩
    · cases a.format <;> decide
    · simp only [hnext, List.mem_singleton]
      rw [← hposition, ← hdeficit]

/-- One more entry was taken from a format. -/
def FormatGroup.served (group : FormatGroup T) (format : ContentFormat) : FormatGroup T where
  assigned := group.assigned + 1
  queues := Function.update group.queues format
    { group.queues format with assigned := (group.queues format).assigned + 1 }

/-- How many entries were taken from each format. -/
def FormatGroup.taken (group : FormatGroup T) (format : ContentFormat) : ℕ :=
  (group.queues format).assigned

@[simp] theorem FormatGroup.taken_served (group : FormatGroup T) (format : ContentFormat) :
    (group.served format).taken = serve group.taken format := by
  funext other
  by_cases h : other = format
  · subst h
    simp [taken, served]
  · simp [taken, served, serve_of_ne _ h, Function.update_of_ne h]

@[simp] theorem FormatGroup.entries_served (group : FormatGroup T) (format other : ContentFormat) :
    ((group.served format).queues other).entries = (group.queues other).entries := by
  by_cases h : other = format
  · subst h
    simp [served]
  · simp [served, Function.update_of_ne h]

/-- A group with an entry left hands out the next one of a format whose deficit no format with an
entry left exceeds. -/
theorem assign_spec (shares : InterestFormatShares)
    (hleft : ∃ format, group.taken format < (group.queues format).entries.length) :
    ∃ format next, (group.queues format).entries[group.taken format]? = some next ∧
      assign shares group = some (next.1, group.served format) ∧
      ∀ other, group.taken other < (group.queues other).entries.length →
        deficit shares group.taken (group.assigned + 1) other ≤
          deficit shares group.taken (group.assigned + 1) format := by
  have havailable : ∀ format, group.taken format < (group.queues format).entries.length →
      ∃ a ∈ available shares { group with assigned := group.assigned + 1 }, a.format = format ∧
        a.deficit = deficit shares group.taken (group.assigned + 1) format := by
    intro format hlt
    obtain ⟨next, hnext⟩ : ∃ next, (group.queues format).entries[group.taken format]? =
        some next := ⟨_, List.getElem?_eq_getElem hlt⟩
    exact ⟨⟨format, next.2, deficit shares group.taken (group.assigned + 1) format⟩,
      mem_available.mpr ⟨next, hnext, rfl, rfl⟩, rfl, rfl⟩
  obtain ⟨format, hlt⟩ := hleft
  obtain ⟨a, ha, _⟩ := havailable format hlt
  obtain ⟨best, hbest, hfirst, hlargest⟩ := firstAvailable_spec (List.ne_nil_of_mem ha)
  obtain ⟨next, hnext, _, hdeficit⟩ := mem_available.mp hbest
  refine ⟨best.format, next, hnext, ?_, fun other hother => ?_⟩
  · simp only [assign, hfirst]
    rw [hnext]
    rfl
  · obtain ⟨b, hb, _, hbdeficit⟩ := havailable other hother
    rw [← hbdeficit]
    exact (hlargest b hb).trans_eq hdeficit

end Assign

variable {T : Type*} (contentFeatures : T → Option ContentFeatures) (affinities : Affinities)

/-- Does the entry belong to the topic and format? -/
def inSlot (topic : String) (format : ContentFormat) (entry : T) : Bool :=
  slotOf contentFeatures affinities entry == some (topic, format)

/-- Does the entry belong to the topic? -/
def inGroup (topic : String) (entry : T) : Bool :=
  groupOf contentFeatures affinities entry == some topic

/-- The first loop fills every queue with the entries of its slot, in their order. -/
theorem foldl_addEntry (entries : List (T × ℕ)) (groups : Groups T) (topic : String)
    (format : ContentFormat) :
    (((entries.foldl (addEntry contentFeatures affinities) groups) topic).queues format).entries.map
        (·.1) =
      ((groups topic).queues format).entries.map (·.1) ++
        (entries.map (·.1)).filter (inSlot contentFeatures affinities topic format) ∧
    ((entries.foldl (addEntry contentFeatures affinities) groups) topic).taken format =
      (groups topic).taken format ∧
    ((entries.foldl (addEntry contentFeatures affinities) groups) topic).assigned =
      (groups topic).assigned := by
  induction entries generalizing groups with
  | nil => simp
  | cons entry entries ih =>
    obtain ⟨hentries, htaken, hassigned⟩ := ih (addEntry contentFeatures affinities groups entry)
    rw [List.foldl_cons, hentries, htaken, hassigned, List.map_cons]
    unfold addEntry
    cases hslot : slotOf contentFeatures affinities entry.1 with
    | none => simp [inSlot, hslot]
    | some slot =>
      obtain ⟨topic', format'⟩ := slot
      by_cases htopic : topic = topic'
      · subst htopic
        by_cases hformat : format = format'
        · subst hformat
          simp [inSlot, hslot, FormatGroup.push, FormatGroup.taken]
        · have hne : format' ≠ format := fun heq => hformat heq.symm
          simp [inSlot, hslot, FormatGroup.push, FormatGroup.taken, Function.update_of_ne hformat,
            hne]
      · have hne : topic' ≠ topic := fun heq => htopic heq.symm
        simp [inSlot, hslot, Function.update_of_ne htopic, hne]

variable {contentFeatures affinities}

/-- An entry is in the slot of its topic and format. -/
private theorem inSlot_iff {topic : String} {format : ContentFormat} {entry : T} :
    inSlot contentFeatures affinities topic format entry = true ↔
      slotOf contentFeatures affinities entry = some (topic, format) := beq_iff_eq

/-- An entry is in the group of its topic. -/
private theorem inGroup_iff {topic : String} {entry : T} :
    inGroup contentFeatures affinities topic entry = true ↔
      groupOf contentFeatures affinities entry = some topic := beq_iff_eq

/-- A group consists of the slots of its topic. -/
private theorem groupOf_eq_some {topic : String} {entry : T} :
    groupOf contentFeatures affinities entry = some topic ↔
      ∃ format, slotOf contentFeatures affinities entry = some (topic, format) := by
  simp [groupOf]

/-- An entry of a group is in one of its three queues. -/
theorem sum_countP_inSlot (topic : String) (entries : List T) :
    ∑ format, entries.countP (inSlot contentFeatures affinities topic format) =
      entries.countP (inGroup contentFeatures affinities topic) := by
  induction entries with
  | nil => simp
  | cons entry entries ih =>
    simp only [List.countP_cons]
    rw [Finset.sum_add_distrib, ih]
    congr 1
    simp only [inSlot_iff, inGroup_iff]
    by_cases hgroup : groupOf contentFeatures affinities entry = some topic
    · obtain ⟨format, hslot⟩ := groupOf_eq_some.mp hgroup
      rw [if_pos hgroup]
      simp [hslot]
    · have hslot : ∀ format, slotOf contentFeatures affinities entry ≠ some (topic, format) :=
        fun format hslot => hgroup (groupOf_eq_some.mpr ⟨format, hslot⟩)
      simp [hslot, hgroup]

variable (contentFeatures affinities)

/-- What stands at a position after mixing: an entry of the same group, and the same entry if it
has no group. -/
def Fills (entry value : T) : Prop :=
  groupOf contentFeatures affinities value = groupOf contentFeatures affinities entry ∧
    (groupOf contentFeatures affinities entry = none → value = entry)

/-- Before each of the first `n` positions that belong to the group, every format of the group has
an entry left. -/
def Unexhausted (entries result : List T) (topic : String) (n : ℕ) : Prop :=
  ∀ m < n, ∀ entry, entries[m]? = some entry →
    groupOf contentFeatures affinities entry = some topic → ∀ format,
      (result.take m).countP (inSlot contentFeatures affinities topic format) <
        entries.countP (inSlot contentFeatures affinities topic format)

/-- A group after the first positions of a list were filled anew. -/
structure GroupMixing (shares : InterestFormatShares) (entries visited out : List T)
    (topic : String) (group : FormatGroup T) : Prop where
  queue_entries : ∀ format, (group.queues format).entries.map (·.1) =
    entries.filter (inSlot contentFeatures affinities topic format)
  handed_out : ∀ format, out.filter (inSlot contentFeatures affinities topic format) =
    (entries.filter (inSlot contentFeatures affinities topic format)).take (group.taken format)
  taken_le : ∀ format, group.taken format ≤
    entries.countP (inSlot contentFeatures affinities topic format)
  sum_taken : ∑ format, group.taken format = group.assigned
  assigned : group.assigned = visited.countP (inGroup contentFeatures affinities topic)
  balanced : Unexhausted contentFeatures affinities entries out topic visited.length →
    Balanced shares group.taken group.assigned

/-- The groups after the first positions of a list were filled anew. -/
structure Mixing (shares : InterestFormatShares) (entries : List T) (groups : Groups T)
    (visited out : List T) : Prop where
  group : ∀ topic, GroupMixing contentFeatures affinities shares entries visited out topic
    (groups topic)
  fills : List.Forall₂ (Fills contentFeatures affinities) visited out

variable {contentFeatures affinities} {shares : InterestFormatShares}
  {entries visited out : List T} {topic : String}

/-- What was replaced so far is not affected by what comes. -/
theorem Unexhausted.of_append (hlength : out.length = visited.length) {entry value : T}
    (h : Unexhausted contentFeatures affinities entries (out ++ [value]) topic
      (visited ++ [entry]).length) :
    Unexhausted contentFeatures affinities entries out topic visited.length := by
  intro m hm other hother hgroup format
  have hle : visited.length ≤ (visited ++ [entry]).length := by simp
  have hlt := h m (hm.trans_le hle) other hother hgroup format
  rwa [List.take_append_of_le_length (hlength ▸ hm.le)] at hlt

namespace GroupMixing

variable {group : FormatGroup T}

/-- Of each format as many are out as its queue has given. -/
private theorem countP_out
    (h : GroupMixing contentFeatures affinities shares entries visited out topic group)
    (format : ContentFormat) :
    out.countP (inSlot contentFeatures affinities topic format) = group.taken format := by
  rw [List.countP_eq_length_filter, h.handed_out, List.length_take, ← List.countP_eq_length_filter,
    Nat.min_eq_left (h.taken_le format)]

/-- A queue holds the entries of its slot. -/
private theorem length_entries
    (h : GroupMixing contentFeatures affinities shares entries visited out topic group)
    (format : ContentFormat) :
    (group.queues format).entries.length =
      entries.countP (inSlot contentFeatures affinities topic format) := by
  rw [List.countP_eq_length_filter, ← h.queue_entries, List.length_map]

/-- A position outside of the group. -/
theorem pass (h : GroupMixing contentFeatures affinities shares entries visited out topic group)
    (hlength : out.length = visited.length) {entry value : T}
    (hentry : groupOf contentFeatures affinities entry ≠ some topic)
    (hvalue : groupOf contentFeatures affinities value ≠ some topic) :
    GroupMixing contentFeatures affinities shares entries (visited ++ [entry]) (out ++ [value])
      topic group := by
  have hslot : ∀ format, inSlot contentFeatures affinities topic format value = false :=
    fun format => Bool.eq_false_iff.mpr fun hslot =>
      hvalue (groupOf_eq_some.mpr ⟨format, inSlot_iff.mp hslot⟩)
  have hgroup : inGroup contentFeatures affinities topic entry = false :=
    Bool.eq_false_iff.mpr fun hgroup => hentry (inGroup_iff.mp hgroup)
  refine ⟨h.queue_entries, fun format => ?_, h.taken_le, h.sum_taken, ?_,
    fun hun => h.balanced (hun.of_append hlength)⟩
  · rw [List.filter_append, h.handed_out]
    simp [hslot]
  · rw [h.assigned, List.countP_append]
    simp [hgroup]

/-- A position of the group takes the next entry of the queue with the largest deficit. -/
theorem serve (h : GroupMixing contentFeatures affinities shares entries visited out topic group)
    (hlength : out.length = visited.length) (hshare : ∑ format, shares format = 1)
    (hnonneg : ∀ format, 0 ≤ shares format) {entry value : T} {format : ContentFormat}
    (hentry : entries[visited.length]? = some entry)
    (hgroup : groupOf contentFeatures affinities entry = some topic)
    (hvalue : (entries.filter (inSlot contentFeatures affinities topic format))[
      group.taken format]? = some value)
    (hlargest : ∀ other, group.taken other < (group.queues other).entries.length →
      deficit shares group.taken (group.assigned + 1) other ≤
        deficit shares group.taken (group.assigned + 1) format) :
    GroupMixing contentFeatures affinities shares entries (visited ++ [entry]) (out ++ [value])
      topic (group.served format) := by
  have hslot := inSlot_iff.mp (List.of_mem_filter (List.mem_of_getElem? hvalue))
  refine ⟨fun other => ?_, fun other => ?_, fun other => ?_, ?_, ?_, fun hun => ?_⟩
  · rw [FormatGroup.entries_served, h.queue_entries]
  · rw [List.filter_append, h.handed_out, FormatGroup.taken_served]
    by_cases hformat : other = format
    · subst hformat
      rw [serve_self, List.take_add_one, hvalue, List.filter_singleton, inSlot_iff.mpr hslot]
      rfl
    · have hne : format ≠ other := fun heq => hformat heq.symm
      rw [serve_of_ne _ hformat]
      simp [inSlot, hslot, hne]
  · rw [FormatGroup.taken_served]
    by_cases hformat : other = format
    · subst hformat
      rw [serve_self, List.countP_eq_length_filter]
      exact (List.getElem?_eq_some_iff.mp hvalue).1
    · rw [serve_of_ne _ hformat]
      exact h.taken_le other
  · rw [FormatGroup.taken_served, sum_serve, h.sum_taken]
    rfl
  · rw [List.countP_append, ← h.assigned, List.countP_cons_of_pos (inGroup_iff.mpr hgroup)]
    rfl
  · rw [FormatGroup.taken_served]
    refine (h.balanced (hun.of_append hlength)).serve hshare hnonneg fun other => hlargest other ?_
    -- no format of the group was exhausted before this position
    have hlt := hun visited.length (by simp) entry hentry hgroup other
    rw [← hlength, List.take_left' rfl, h.countP_out] at hlt
    rw [h.length_entries]
    exact hlt

/-- A position of the group finds an entry. -/
theorem exists_left
    (h : GroupMixing contentFeatures affinities shares entries visited out topic group)
    {entry : T} {rest : List T} (hentries : entries = visited ++ entry :: rest)
    (hgroup : groupOf contentFeatures affinities entry = some topic) :
    ∃ format, group.taken format < (group.queues format).entries.length := by
  have hsum : ∑ format, group.taken format <
      ∑ format, entries.countP (inSlot contentFeatures affinities topic format) := by
    rw [h.sum_taken, h.assigned, sum_countP_inSlot, hentries, List.countP_append,
      List.countP_cons_of_pos (inGroup_iff.mpr hgroup)]
    omega
  obtain ⟨format, _, hlt⟩ := Finset.exists_lt_of_sum_lt hsum
  exact ⟨format, h.length_entries format ▸ hlt⟩

/-- When all positions are filled, all queues are empty. -/
theorem filter_eq (h : GroupMixing contentFeatures affinities shares entries entries out topic
    group) (format : ContentFormat) :
    out.filter (inSlot contentFeatures affinities topic format) =
      entries.filter (inSlot contentFeatures affinities topic format) := by
  have hsum : ∑ format, group.taken format =
      ∑ format, entries.countP (inSlot contentFeatures affinities topic format) := by
    rw [h.sum_taken, h.assigned, sum_countP_inSlot]
  have hall := (Finset.sum_eq_sum_iff_of_le fun format _ => h.taken_le format).mp hsum format
    (Finset.mem_univ format)
  rw [h.handed_out, hall, List.countP_eq_length_filter, List.take_length]

end GroupMixing

namespace Mixing

variable {groups : Groups T}

/-- The groups when the second loop begins. -/
theorem start (hshare : ∑ format, shares format = 1) (entries : List T) :
    Mixing contentFeatures affinities shares entries
      (groupEntries contentFeatures affinities entries) [] [] := by
  have hgroups := foldl_addEntry contentFeatures affinities entries.zipIdx fun _ => emptyGroup T
  have htaken : ∀ topic format,
      (groupEntries contentFeatures affinities entries topic).taken format = 0 :=
    fun topic format => (hgroups topic format).2.1
  have hassigned : ∀ topic, (groupEntries contentFeatures affinities entries topic).assigned = 0 :=
    fun topic => (hgroups topic .text).2.2
  refine ⟨fun topic => ⟨fun format => ?_, fun format => ?_, fun format => ?_, ?_, hassigned topic,
    fun _ => ?_⟩, .nil⟩
  · rw [groupEntries, (hgroups topic format).1, List.zipIdx_map_fst]
    rfl
  · rw [htaken, List.take_zero]
    rfl
  · rw [htaken]
    exact Nat.zero_le _
  · rw [Finset.sum_congr rfl fun format _ => htaken topic format, hassigned, Finset.sum_const_zero]
  · rw [hassigned, funext (htaken topic)]
    exact balanced_zero hshare

/-- As many are out as were visited. -/
private theorem length_out
    (h : Mixing contentFeatures affinities shares entries groups visited out) :
    out.length = visited.length := h.fills.length_eq.symm

/-- An entry without a group stays. -/
theorem leave (h : Mixing contentFeatures affinities shares entries groups visited out) {entry : T}
    (hgroup : groupOf contentFeatures affinities entry = none) :
    Mixing contentFeatures affinities shares entries groups (visited ++ [entry])
      (out ++ [entry]) := by
  have hne : ∀ topic, groupOf contentFeatures affinities entry ≠ some topic := by simp [hgroup]
  exact ⟨fun topic => (h.group topic).pass h.length_out (hne topic) (hne topic),
    List.rel_append h.fills (.cons ⟨rfl, fun _ => rfl⟩ .nil)⟩

/-- A position of a group is filled from the group. -/
theorem fill (h : Mixing contentFeatures affinities shares entries groups visited out) {entry : T}
    {rest : List T} (hshare : ∑ format, shares format = 1)
    (hnonneg : ∀ format, 0 ≤ shares format) (hentries : entries = visited ++ entry :: rest)
    (hgroup : groupOf contentFeatures affinities entry = some topic) :
    ∃ value group, assign shares (groups topic) = some (value, group) ∧
      Mixing contentFeatures affinities shares entries (Function.update groups topic group)
        (visited ++ [entry]) (out ++ [value]) := by
  obtain ⟨format, next, hnext, hassign, hlargest⟩ :=
    assign_spec shares ((h.group topic).exists_left hentries hgroup)
  have hvalue : (entries.filter (inSlot contentFeatures affinities topic format))[
      (groups topic).taken format]? = some next.1 := by
    rw [← (h.group topic).queue_entries, List.getElem?_map, hnext, Option.map_some]
  have hslot := inSlot_iff.mp (List.of_mem_filter (List.mem_of_getElem? hvalue))
  have hvaluegroup := groupOf_eq_some.mpr ⟨format, hslot⟩
  refine ⟨next.1, (groups topic).served format, hassign, fun other => ?_, ?_⟩
  · by_cases hother : other = topic
    · subst hother
      rw [Function.update_self]
      exact (h.group other).serve h.length_out hshare hnonneg (by simp [hentries]) hgroup hvalue
        hlargest
    · rw [Function.update_of_ne hother]
      have hne : some topic ≠ some other := fun heq => hother (Option.some.inj heq).symm
      exact (h.group other).pass h.length_out (hgroup ▸ hne) (hvaluegroup ▸ hne)
  · refine List.rel_append h.fills (.cons ⟨hvaluegroup.trans hgroup.symm, fun hnone => ?_⟩ .nil)
    rw [hgroup] at hnone
    cases hnone

/-- The second loop never fails, and keeps the invariant at each position. -/
theorem assignAll (h : Mixing contentFeatures affinities shares entries groups visited out)
    {rest : List T} (hshare : ∑ format, shares format = 1) (hnonneg : ∀ format, 0 ≤ shares format)
    (hentries : entries = visited ++ rest) :
    ∃ result, assignAll contentFeatures affinities shares groups rest = some result ∧
      result.length = rest.length ∧
      ∀ m ≤ rest.length, ∃ groups', Mixing contentFeatures affinities shares entries groups'
        (visited ++ rest.take m) (out ++ result.take m) := by
  induction rest generalizing groups visited out with
  | nil =>
    refine ⟨[], rfl, rfl, fun m _ => ⟨groups, ?_⟩⟩
    simpa using h
  | cons entry rest ih =>
    have hrest : entries = (visited ++ [entry]) ++ rest := by simp [hentries]
    -- the positions after this one, when this one has become `value`
    have hstep : ∀ value groups', Mixing contentFeatures affinities shares entries groups'
        (visited ++ [entry]) (out ++ [value]) → ∃ result,
          Feed.assignAll contentFeatures affinities shares groups' rest = some result ∧
          (value :: result).length = (entry :: rest).length ∧
          ∀ m ≤ (entry :: rest).length, ∃ groups'',
            Mixing contentFeatures affinities shares entries groups''
              (visited ++ (entry :: rest).take m) (out ++ (value :: result).take m) := by
      intro value groups' hnext
      obtain ⟨result, hresult, hlength, hprefixes⟩ := ih hnext hrest
      refine ⟨result, hresult, congrArg (· + 1) hlength, fun m hm => ?_⟩
      cases m with
      | zero => exact ⟨groups, by simpa using h⟩
      | succ m =>
        obtain ⟨groups'', hmixing⟩ := hprefixes m (Nat.le_of_succ_le_succ hm)
        exact ⟨groups'', by simpa using hmixing⟩
    rw [Feed.assignAll]
    split
    · next hgroup =>
      obtain ⟨result, hresult, hprefixes⟩ := hstep entry groups (h.leave hgroup)
      exact ⟨entry :: result, by rw [hresult, Option.map_some], hprefixes⟩
    · next topic hgroup =>
      obtain ⟨value, group, hassign, hmixing⟩ := h.fill hshare hnonneg hentries hgroup
      obtain ⟨result, hresult, hprefixes⟩ := hstep value _ hmixing
      refine ⟨value :: result, ?_, hprefixes⟩
      rw [hassign]
      simp only [hresult, Option.map_some]

end Mixing

variable (contentFeatures affinities)

/-- Entries that mixing leaves in place. -/
def isUngrouped (entry : T) : Bool := (groupOf contentFeatures affinities entry).isNone

/-- What `mixInterestFormats` promises of its result. -/
structure Mixes (shares : InterestFormatShares) (entries result : List T) : Prop where
  perm : result.Perm entries
  keeps : ∀ (i : ℕ) (entry : T), entries[i]? = some entry →
    groupOf contentFeatures affinities entry = none → result[i]? = some entry
  fills : ∀ (i : ℕ) (entry : T) (topic : String), entries[i]? = some entry →
    groupOf contentFeatures affinities entry = some topic →
    ∃ value, result[i]? = some value ∧ groupOf contentFeatures affinities value = some topic
  order : ∀ topic format, result.filter (inSlot contentFeatures affinities topic format) =
    entries.filter (inSlot contentFeatures affinities topic format)
  /-- The positions of the group among the first `n`, times the share, and the entries of the format
  that these positions got. -/
  quota : ∀ topic n, n ≤ entries.length →
    Unexhausted contentFeatures affinities entries result topic n → ∀ format,
    -1 < (entries.take n).countP (inGroup contentFeatures affinities topic) * shares format -
      (result.take n).countP (inSlot contentFeatures affinities topic format) ∧
    (entries.take n).countP (inGroup contentFeatures affinities topic) * shares format -
      (result.take n).countP (inSlot contentFeatures affinities topic format) < 2

variable {contentFeatures affinities}

/-- Entries without a group stand where they stood. -/
theorem filter_isUngrouped (h : List.Forall₂ (Fills contentFeatures affinities) visited out) :
    out.filter (isUngrouped contentFeatures affinities) =
      visited.filter (isUngrouped contentFeatures affinities) := by
  induction h with
  | nil => rfl
  | @cons entry value _ _ hfills _ ih =>
    obtain ⟨hgroup, hkeep⟩ := hfills
    rw [List.filter_cons, List.filter_cons, ih, isUngrouped, isUngrouped, hgroup]
    split
    · next hnone => rw [hkeep (Option.isNone_iff_eq_none.mp hnone)]
    · rfl

/-- A list that keeps the entries of every slot and those without one is a permutation. -/
theorem perm_of_filters (hfills : List.Forall₂ (Fills contentFeatures affinities) entries out)
    (horder : ∀ topic format, out.filter (inSlot contentFeatures affinities topic format) =
      entries.filter (inSlot contentFeatures affinities topic format)) : out.Perm entries := by
  classical
  refine List.perm_iff_count.mpr fun entry => ?_
  cases hgroup : groupOf contentFeatures affinities entry with
  | none =>
    have hnone : isUngrouped contentFeatures affinities entry = true := by
      rw [isUngrouped, hgroup]
      rfl
    rw [← List.count_filter hnone, filter_isUngrouped hfills, List.count_filter hnone]
  | some topic =>
    obtain ⟨format, hslot⟩ := groupOf_eq_some.mp hgroup
    have hin := inSlot_iff.mpr hslot
    rw [← List.count_filter hin, horder, List.count_filter hin]

/-- The bounds for three formats. -/
theorem deficit_bounds {taken : ContentFormat → ℕ} {turns : ℕ}
    (hshare : ∑ format, shares format = 1) (h : Balanced shares taken turns)
    (format : ContentFormat) :
    -1 < turns * shares format - taken format ∧ turns * shares format - taken format < 2 := by
  have hcard : (Fintype.card ContentFormat : ℚ) = 3 := by
    rw [show Fintype.card ContentFormat = 3 from rfl]
    norm_num
  have hlower := h.le_deficit format
  have hupper := h.deficit_le hshare format
  rw [hcard] at hlower hupper
  simp only [deficit] at hlower hupper
  norm_num at hlower hupper
  constructor
  · linarith
  · linarith

/-- For shares that sum to one the function returns, and mixes. -/
theorem mixInterestFormats_mixes (contentFeatures : T → Option ContentFeatures)
    (affinities : Affinities) (entries : List T) {shares : InterestFormatShares}
    (hnonneg : ∀ format, 0 ≤ shares format) (hshare : ∑ format, shares format = 1) :
    ∃ result, mixInterestFormats contentFeatures affinities entries shares = some result ∧
      Mixes contentFeatures affinities shares entries result := by
  have hstart : Mixing contentFeatures affinities shares entries
      (groupEntries contentFeatures affinities entries) [] [] := Mixing.start hshare entries
  obtain ⟨result, hresult, hlength, hprefixes⟩ :=
    hstart.assignAll hshare hnonneg (List.nil_append entries).symm
  simp only [List.nil_append] at hprefixes
  obtain ⟨groups, hall⟩ := hprefixes entries.length le_rfl
  rw [List.take_length, List.take_of_length_le hlength.le] at hall
  have horder := fun topic => (hall.group topic).filter_eq
  refine ⟨result, hresult, perm_of_filters hall.fills horder, fun i entry hentry hgroup => ?_,
    fun i entry topic hentry hgroup => ?_, horder, fun topic n hn hun format => ?_⟩
  · obtain ⟨hi, rfl⟩ := List.getElem?_eq_some_iff.mp hentry
    have hfills := (List.forall₂_iff_get.mp hall.fills).2 i hi (hlength ▸ hi)
    exact List.getElem?_eq_some_iff.mpr ⟨hlength ▸ hi, hfills.2 hgroup⟩
  · obtain ⟨hi, rfl⟩ := List.getElem?_eq_some_iff.mp hentry
    have hfills := (List.forall₂_iff_get.mp hall.fills).2 i hi (hlength ▸ hi)
    exact ⟨result[i], List.getElem?_eq_getElem (hlength ▸ hi), hfills.1.trans hgroup⟩
  · obtain ⟨groups', hmixing⟩ := hprefixes n hn
    have hgroup := hmixing.group topic
    rw [← hgroup.assigned, hgroup.countP_out]
    refine deficit_bounds hshare (hgroup.balanced fun m hm entry hentry hin other => ?_) format
    rw [List.length_take, Nat.min_eq_left hn] at hm
    rw [List.take_take, Nat.min_eq_left hm.le]
    exact hun m hm entry hentry hin other

/-- Three posts about one topic in each format, and one of a format that is not mixed. -/
def tenPosts : List (ℕ × String) :=
  [(1, "text"), (2, "text"), (3, "mixed"), (4, "video"), (5, "image"), (6, "image"), (7, "text"),
    (8, "mixed"), (9, "image"), (10, "mixed")]

/-- Every post is about that topic. -/
def featuresOf (post : ℕ × String) : Option ContentFeatures := some ⟨[⟨"crypto", 1⟩], post.2⟩

/-- Shares of which two thirds are for images. -/
def imageShares (format : ContentFormat) : ℚ := if format = .image then 2 / 3 else 1 / 6

/-- The slot of a post is that of its format. -/
theorem slotOf_featuresOf (post : ℕ × String) : slotOf featuresOf (fun _ => some 1) post =
    (ContentFormat.ofString post.2).map fun format => ("crypto", format) := by
  simp [slotOf, featuresOf, strongestInterest, affinity]

/-- Each format has three posts. -/
theorem countP_tenPosts (format : ContentFormat) :
    tenPosts.countP (inSlot featuresOf (fun _ => some 1) "crypto" format) = 3 := by
  simp only [tenPosts, List.countP_cons, List.countP_nil, inSlot, slotOf_featuresOf]
  cases format <;> rfl

/-- While three posts of each format are left, one or two of the first three are images. -/
theorem mixInterestFormats_mixes_images :
    ∃ result, mixInterestFormats featuresOf (fun _ => some 1) tenPosts imageShares = some result ∧
      Mixes featuresOf (fun _ => some 1) imageShares tenPosts result ∧
      1 ≤ (result.take 3).countP (inSlot featuresOf (fun _ => some 1) "crypto" .image) ∧
      (result.take 3).countP (inSlot featuresOf (fun _ => some 1) "crypto" .image) ≤ 2 := by
  have hnonneg : ∀ format, 0 ≤ imageShares format := fun format => by
    cases format <;> decide +kernel
  have hshare : ∑ format, imageShares format = 1 := by
    rw [← sum_contentFormats]
    decide +kernel
  obtain ⟨result, hresult, hmixes⟩ :=
    mixInterestFormats_mixes featuresOf (fun _ => some 1) tenPosts hnonneg hshare
  have hleft : Unexhausted featuresOf (fun _ => some 1) tenPosts result "crypto" 3 := by
    intro m hm entry _ _ format
    rw [countP_tenPosts]
    exact (List.countP_le_length.trans (List.length_take_le m result)).trans_lt hm
  have hgroup : (tenPosts.take 3).countP (inGroup featuresOf (fun _ => some 1) "crypto") = 3 := by
    simp only [tenPosts, List.take_succ_cons, List.take_zero, List.countP_cons, List.countP_nil,
      inGroup, groupOf, slotOf_featuresOf]
    rfl
  obtain ⟨hlower, hupper⟩ := hmixes.quota "crypto" 3 (by decide) hleft .image
  rw [hgroup, imageShares, if_pos rfl] at hlower hupper
  refine ⟨result, hresult, hmixes, ?_⟩
  generalize (result.take 3).countP (inSlot featuresOf (fun _ => some 1) "crypto" .image) = images
    at hlower hupper ⊢
  norm_num at hlower hupper
  omega

end Ascendance.Feed
