import Ascendance.Models.Messaging.History

/-!
# What a participant sees of a history

A clear mark hides what there was and nothing that comes later, in every state that
transactions lead to, and the pages read under one mark show what there was at the first
page.
-/

namespace Ascendance.Messaging

open Ascendance.Core Ascendance.Core.Keyset

namespace Store

variable {s t : Store} {c : Conversation} {id u : ℕ}

/-- What every run keeps. -/
structure Ordered (s : Store) : Prop where
  kept : s.Kept
  rising : Rising (s.messages.map place)

/-- The empty history is ordered. -/
theorem Ordered.initial : Store.initial.Ordered :=
  ⟨Kept.initial, List.nodup_nil, fun _ => List.Pairwise.nil⟩

/-- Every command keeps the history ordered. -/
theorem Ordered.step (h : s.Ordered) (x : Command) : (s.step x).Ordered :=
  ⟨h.kept.effect (step_effect s x), (step_effect s x).rising h.kept h.rising⟩

/-- The history is ordered after every list of commands. -/
theorem Ordered.run (h : s.Ordered) (commands : List Command) :
    (commands.foldl Store.step s).Ordered := by
  induction commands generalizing s with
  | nil => exact h
  | cons x commands ih => exact ih (h.step x)

/-- The identifiers of an ordered history are distinct. -/
theorem Ordered.ids (h : s.Ordered) : (s.messages.map (·.id)).Nodup := by
  have hids := h.rising.ids
  rwa [List.map_map] at hids

/-- A message of an ordered history is determined by its identifier. -/
theorem Ordered.eq_of_id (h : s.Ordered) {m m' : Message} (hm : m ∈ s.messages)
    (hm' : m' ∈ s.messages) (hid : m.id = m'.id) : m = m' :=
  List.inj_on_of_nodup_map h.ids hm hm' hid

/-- The messages of a conversation stand in the order of their times. -/
theorem Ordered.times (h : s.Ordered) (id : ℕ) :
    ((messagesOf id s.messages).map (·.createdAt)).Pairwise (· < ·) := by
  have htimes := h.rising.times id
  rw [List.filter_map, List.map_map] at htimes
  exact htimes

private theorem execute_step {cmd : Command} (h : s.execute cmd = .ok t) : s.step cmd = t := by
  unfold Store.step
  rw [h]
  rfl

/-- The time up to which a user has cleared a conversation. -/
def clearMark (s : Store) (id userId : ℕ) : Option ℕ :=
  (s.findConversation id).bind (·.clearedAt userId)

/-- The mark of a stored conversation is the one it carries. -/
private theorem Kept.clearMark_eq (h : s.Kept) (hc : c ∈ s.conversations) (u : ℕ) :
    s.clearMark c.id u = c.clearedAt u := by
  unfold clearMark findConversation
  cases hfind : s.conversations.find? (·.id = c.id) with
  | none => exact absurd (List.find?_eq_none.mp hfind c hc) (by simp)
  | some d =>
    have hid : d.id = c.id := by simpa using List.find?_some hfind
    obtain rfl := h.eq_of_id hc (List.mem_of_find?_eq_some hfind) hid.symm
    rfl

/-- The visible messages are those after the mark. -/
private theorem mem_visible {mark : Option ℕ} {m : Message} : m ∈ s.visible id mark ↔
    m ∈ messagesOf id s.messages ∧ m.isAfter mark = true :=
  List.mem_filter

/-- A clearing puts the mark on the time of the last message. -/
theorem Ordered.clear (h : s.Ordered) {now : ℕ}
    (hclear : s.execute (.manageConversation u id .delete now) = .ok t) :
    t.Ordered ∧ messagesOf id t.messages = messagesOf id s.messages ∧
      ∃ c ∈ t.conversations, c.id = id ∧ ∃ last, c.lastMessageAt = some last ∧
        c.clearedAt u = some last ∧ ∀ m ∈ messagesOf id s.messages, m.createdAt ≤ last := by
  have ht : t.Ordered := execute_step hclear ▸ h.step _
  obtain ⟨c, hc, rfl, rfl⟩ := clear_cases hclear
  obtain ⟨last, hlast, hle, -⟩ := (h.kept.consistent c hc).stamped
  refine ⟨ht, rfl, _, List.mem_map.mpr ⟨c, hc, if_pos rfl⟩, rfl, last, hlast, ?_, hle⟩
  change Function.update c.clearedAt u (some (c.lastMessageAt.getD now)) u = some last
  rw [Function.update_self, hlast]
  rfl

/-- What was there before a clearing is behind the mark ever after. -/
theorem Ordered.hidden (h : s.Ordered) {now : ℕ}
    (hclear : s.execute (.manageConversation u id .delete now) = .ok t) {later : List Command}
    (hpurge : ∀ x ∈ later, ¬ x.Purges id) {m m' : Message} (hm : m ∈ messagesOf id s.messages)
    (hm' : m' ∈ (later.foldl Store.step t).visible id
      ((later.foldl Store.step t).clearMark id u)) : m'.id ≠ m.id := by
  obtain ⟨ht, hms, c, hc, rfl, last, -, hmark, hle⟩ := h.clear hclear
  obtain ⟨c', hc', hid, hadv⟩ := ht.kept.run_advances hc hpurge
  have hrun := ht.run later
  obtain ⟨d, hd, hlast⟩ := hadv.cleared u last hmark
  rw [← hid, hrun.kept.clearMark_eq hc', hd, hid] at hm'
  obtain ⟨hin', hafter⟩ := mem_visible.mp hm'
  -- The old message still bears its time.
  obtain ⟨new, hstamps, -⟩ := hadv.added
  have hstamp : m.stamp ∈ (messagesOf c.id
      (later.foldl Store.step t).messages).map Message.stamp := by
    rw [hstamps, hms]
    exact List.mem_append_left _ (List.mem_map_of_mem hm)
  obtain ⟨m₁, hm₁, heq⟩ := List.mem_map.mp hstamp
  obtain ⟨htime, hsame⟩ := Prod.mk.inj heq
  intro hids
  obtain rfl := hrun.eq_of_id (mem_messagesOf.mp hin').1 (mem_messagesOf.mp hm₁).1
    (hids.trans hsame.symm)
  have hlater : d < m'.createdAt := of_decide_eq_true hafter
  have hbefore := hle m hm
  omega

/-- What comes after a clearing is after the mark, until the next one. -/
theorem Ordered.seen (h : s.Ordered) {now : ℕ}
    (hclear : s.execute (.manageConversation u id .delete now) = .ok t) {later : List Command}
    (hpurge : ∀ x ∈ later, ¬ x.Purges id) (hclears : ∀ x ∈ later, ¬ x.Clears u id) {m : Message}
    (hm : m ∈ messagesOf id (later.foldl Store.step t).messages)
    (hnew : ∀ m' ∈ messagesOf id s.messages, m'.id ≠ m.id) :
    m ∈ (later.foldl Store.step t).visible id ((later.foldl Store.step t).clearMark id u) := by
  obtain ⟨ht, hms, c, hc, rfl, last, hlast, hmark, -⟩ := h.clear hclear
  obtain ⟨c', hc', hid, hadv⟩ := ht.kept.run_advances hc hpurge
  refine mem_visible.mpr ⟨hm, ?_⟩
  rw [← hid, (ht.run later).kept.clearMark_eq hc', hadv.kept u ?_, hmark]
  · apply decide_eq_true
    obtain ⟨new, hstamps, hlater⟩ := hadv.added
    have hstamp := List.mem_map_of_mem (f := Message.stamp) hm
    rw [hstamps, hms] at hstamp
    rcases List.mem_append.mp hstamp with hold | hadded
    · obtain ⟨m', hm', heq⟩ := List.mem_map.mp hold
      exact absurd (congrArg Prod.snd heq) (hnew m' hm')
    · exact hlater _ hadded last hlast
  · rintro ⟨x, hx, hxu⟩
    exact hclears x hx hxu

/-- A row is on the page that its place says. -/
theorem mem_numbered_page {α : Type*} {rows : List α} {a : α} {limit : ℕ} (hlimit : 1 ≤ limit)
    (ha : a ∈ rows) : ∃ page, 1 ≤ page ∧ a ∈ (rows.drop ((page - 1) * limit)).take limit := by
  obtain ⟨i, hi⟩ := List.mem_iff_getElem?.mp ha
  refine ⟨i / limit + 1, Nat.le_add_left 1 _, List.mem_iff_getElem?.mpr ⟨i % limit, ?_⟩⟩
  rw [List.getElem?_take_of_lt (Nat.mod_lt i hlimit), List.getElem?_drop, Nat.add_sub_cancel,
    Nat.mul_comm, Nat.div_add_mod, hi]

/-- A page holds the first rows of its window. -/
theorem cursor_page (s : Store) (id : ℕ) (mark : Option ℕ) (limit : ℕ)
    (cursor : Option (ℕ ×ₗ ℕ)) {rows : List Message}
    (hrows : sortDesc Message.cursor (window Message.cursor cursor (s.visible id mark)) = rows) :
    s.findMessagesByConversationWithCursor id mark limit cursor =
      ⟨rows.take limit, limit < rows.length,
        if limit < rows.length then (rows.take limit).getLast?.map Message.cursor else none,
        none⟩ := by
  unfold findMessagesByConversationWithCursor
  dsimp only
  rw [hrows]
  have hlen : (rows.take (limit + 1)).length = min (limit + 1) rows.length := List.length_take
  have htake : (rows.take (limit + 1)).take limit = rows.take limit := by
    rw [List.take_take, Nat.min_eq_left (Nat.le_succ limit)]
  by_cases hmore : limit < rows.length
  · have hmore' : limit < (rows.take (limit + 1)).length := by omega
    simp only [hmore, hmore', htake, decide_true, if_true]
  · have hall : rows.take (limit + 1) = rows := List.take_of_length_le (by omega)
    have hall' : rows.take limit = rows := List.take_of_length_le (by omega)
    simp only [hmore, hall, hall', decide_false, if_false, Bool.false_eq_true]

/-- A query of the user returns the message. -/
def Returns (s : Store) (id userId : ℕ) (m : Message) : Prop :=
  (∃ page limit, m ∈ (s.findMessagesByConversation id (s.clearMark id userId) page limit).data) ∨
    ∃ limit cursor, m ∈
      (s.findMessagesByConversationWithCursor id (s.clearMark id userId) limit cursor).data

/-- No query returns what is behind the mark. -/
theorem Returns.visible {m : Message} (h : s.Returns id u m) :
    m ∈ s.visible id (s.clearMark id u) := by
  rcases h with ⟨page, limit, hm⟩ | ⟨limit, cursor, hm⟩
  · have hin : m ∈ sortDesc Message.cursor (s.visible id (s.clearMark id u)) :=
      List.mem_of_mem_drop (List.mem_of_mem_take hm)
    exact mem_sortDesc.mp hin
  · rw [cursor_page s id _ limit cursor rfl] at hm
    exact (window_sublist cursor _).subset (mem_sortDesc.mp (List.mem_of_mem_take hm))

/-- The cursors of the messages that a mark leaves, from the last one on. -/
def cursors (s : Store) (id : ℕ) (mark : Option ℕ) : List (ℕ ×ₗ ℕ) :=
  sortDesc (fun p => p) ((s.visible id mark).map Message.cursor)

/-- A page of messages, of which only the cursors are seen. -/
def pageCursors (p : CursorPage Message (ℕ ×ₗ ℕ)) : CursorPage (ℕ ×ₗ ℕ) (ℕ ×ₗ ℕ) :=
  ⟨p.data.map Message.cursor, p.hasMore, p.nextCursor, (p.data.map Message.cursor).head?⟩

private theorem pageCursors_next (p : CursorPage Message (ℕ ×ₗ ℕ)) :
    (pageCursors p).nextCursor = p.nextCursor := rfl

/-- No two visible messages share a cursor. -/
private theorem Ordered.nodup_cursors (h : s.Ordered) (id : ℕ) (mark : Option ℕ) :
    ((s.visible id mark).map Message.cursor).Nodup := by
  have hsub : ((s.visible id mark).map (·.id)).Sublist (s.messages.map (·.id)) :=
    (List.filter_sublist.trans List.filter_sublist).map _
  have hids := h.ids.sublist hsub
  refine List.Nodup.of_map (fun p : ℕ ×ₗ ℕ => (ofLex p).2) ?_
  rw [List.map_map]
  exact hids

/-- The visible messages are listed from the newest on. -/
private theorem Ordered.descending_cursors (h : s.Ordered) (id : ℕ) (mark : Option ℕ) :
    Descending (fun p => p) (s.cursors id mark) := by
  apply descending_sortDesc
  rw [List.map_id']
  exact h.nodup_cursors id mark

/-- The cursors of the rows of a window. -/
theorem Ordered.map_window (h : s.Ordered) (id : ℕ) (mark : Option ℕ)
    (cursor : Option (ℕ ×ₗ ℕ)) :
    (sortDesc Message.cursor (window Message.cursor cursor (s.visible id mark))).map
      Message.cursor = window (fun p => p) cursor (s.cursors id mark) := by
  have hdesc := (h.descending_cursors id mark).window cursor
  have hnodup : ((window Message.cursor cursor (s.visible id mark)).map Message.cursor).Nodup :=
    (h.nodup_cursors id mark).sublist ((window_sublist cursor _).map _)
  have hsorted : Descending (fun p => p) ((sortDesc Message.cursor
      (window Message.cursor cursor (s.visible id mark))).map Message.cursor) :=
    List.pairwise_map.mpr (descending_sortDesc hnodup)
  refine hsorted.eq hdesc fun p => ?_
  rw [List.mem_map]
  simp only [mem_sortDesc]
  cases cursor with
  | none =>
    change _ ↔ p ∈ sortDesc _ _
    rw [mem_sortDesc, List.mem_map]
    exact Iff.rfl
  | some c =>
    change (∃ m ∈ older Message.cursor c _, _) ↔ p ∈ older _ c (sortDesc _ _)
    unfold older
    rw [List.mem_filter, mem_sortDesc, List.mem_map]
    constructor
    · rintro ⟨m, hm, rfl⟩
      obtain ⟨hm, hlt⟩ := List.mem_filter.mp hm
      exact ⟨⟨m, hm, rfl⟩, hlt⟩
    · rintro ⟨⟨m, hm, rfl⟩, hlt⟩
      exact ⟨m, List.mem_filter.mpr ⟨hm, hlt⟩, rfl⟩

/-- Of the cursors alone, the pages are those of a keyset. -/
theorem Ordered.pageCursors_eq (h : s.Ordered) (id : ℕ) (mark : Option ℕ) (limit : ℕ)
    (cursor : Option (ℕ ×ₗ ℕ)) :
    pageCursors (s.findMessagesByConversationWithCursor id mark limit cursor) =
      forwardPage (fun p => p) limit (window (fun p => p) cursor (s.cursors id mark)) := by
  rw [cursor_page s id mark limit cursor rfl, ← h.map_window id mark cursor]
  generalize sortDesc Message.cursor _ = rows
  unfold pageCursors forwardPage
  simp only [List.map_take, List.length_map]
  by_cases hmore : limit < rows.length
  · simp only [hmore, if_true, ← List.map_take, List.getLast?_map, List.head?_map, Option.map_id']
  · simp [hmore]

/-- A cursor is one of a message that is stored, and after the mark. -/
theorem mem_cursors {mark : Option ℕ} {p : ℕ ×ₗ ℕ} : p ∈ s.cursors id mark ↔
    ofLex p ∈ (messagesOf id s.messages).map Message.stamp ∧
      mark.all (· < (ofLex p).1) = true := by
  unfold cursors
  rw [mem_sortDesc, List.mem_map, List.mem_map]
  constructor
  · rintro ⟨m, hm, rfl⟩
    obtain ⟨hin, hafter⟩ := mem_visible.mp hm
    exact ⟨⟨m, hin, rfl⟩, hafter⟩
  · rintro ⟨⟨m, hin, hstamp⟩, hafter⟩
    obtain rfl : m.cursor = p := congrArg toLex hstamp
    exact ⟨m, mem_visible.mpr ⟨hin, hafter⟩, rfl⟩

/-- While a conversation advances, nothing comes or goes below one of its cursors. -/
theorem Ordered.older_cursors (h : s.Ordered) (ht : t.Ordered) {clears : ℕ → Prop}
    {c' : Conversation} (hc : c ∈ s.conversations)
    (hadv : Advances clears c (messagesOf c.id s.messages) c' (messagesOf c.id t.messages))
    {mark : Option ℕ} {a : ℕ ×ₗ ℕ} (ha : a ∈ s.cursors c.id mark) :
    older (fun p => p) a (t.cursors c.id mark) = older (fun p => p) a (s.cursors c.id mark) := by
  have hdesc := h.descending_cursors c.id mark
  have hdesc' := ht.descending_cursors c.id mark
  obtain ⟨last, hlast, hle, -⟩ := (h.kept.consistent c hc).stamped
  obtain ⟨new, hstamps, hnew⟩ := hadv.added
  have hbound : (ofLex a).1 ≤ last := by
    obtain ⟨m, hm, hstamp⟩ := List.mem_map.mp (mem_cursors.mp ha).1
    rw [← hstamp]
    exact hle m hm
  refine (hdesc'.filter _).eq (hdesc.filter _) fun p => ?_
  unfold older
  rw [List.mem_filter, List.mem_filter, mem_cursors, mem_cursors, hstamps, List.mem_append]
  constructor
  · rintro ⟨⟨hin, hafter⟩, hlt⟩
    refine ⟨⟨hin.resolve_right fun hin => ?_, hafter⟩, hlt⟩
    have htime := hnew _ hin last hlast
    have hbelow : p < a := of_decide_eq_true hlt
    rcases Prod.Lex.lt_iff.mp hbelow with hfst | ⟨hfst, -⟩
    · omega
    · omega
  · rintro ⟨⟨hin, hafter⟩, hlt⟩
    exact ⟨⟨.inl hin, hafter⟩, hlt⟩

/-- What a history promises in a state: times rise, messages stay, a clearing hides what there was
and nothing else, a message shows the conversation to everyone, and pages are complete. -/
structure KeepsHistory (s : Store) : Prop where
  rising : ∀ c ∈ s.conversations,
    ((messagesOf c.id s.messages).map (·.createdAt)).Pairwise (· < ·) ∧
      ∃ last, c.lastMessageAt = some last ∧ ∀ m ∈ messagesOf c.id s.messages, m.createdAt ≤ last
  stays : ∀ (id : ℕ) (later : List Command), (∀ x ∈ later, ¬ x.Purges id) →
    ∀ m ∈ messagesOf id s.messages, ∃ m' ∈ messagesOf id (later.foldl Store.step s).messages,
      m'.id = m.id
  hidden : ∀ (u id now : ℕ) (t : Store),
    s.execute (.manageConversation u id .delete now) = .ok t → ∀ later : List Command,
      (∀ x ∈ later, ¬ x.Purges id) → ∀ m ∈ messagesOf id s.messages, ∀ m',
        (later.foldl Store.step t).Returns id u m' → m'.id ≠ m.id
  seen : ∀ (u id now : ℕ) (t : Store),
    s.execute (.manageConversation u id .delete now) = .ok t → ∀ later : List Command,
      (∀ x ∈ later, ¬ x.Purges id ∧ ¬ x.Clears u id) →
        ∀ m ∈ messagesOf id (later.foldl Store.step t).messages,
          (∀ m' ∈ messagesOf id s.messages, m'.id ≠ m.id) →
            m ∈ (later.foldl Store.step t).visible id
              ((later.foldl Store.step t).clearMark id u) ∧
            ∀ limit, 1 ≤ limit → ∃ page, 1 ≤ page ∧
              m ∈ ((later.foldl Store.step t).findMessagesByConversation id
                ((later.foldl Store.step t).clearMark id u) page limit).data
  shown : ∀ (r : SendRequest) (newConversation messageId createdNow now : ℕ) (t : Store),
    s.execute (.sendMessage r newConversation messageId createdNow now) = .ok t →
      ∃ c ∈ t.conversations, c.hiddenFor = [] ∧
        ∃ m ∈ messagesOf c.id t.messages, m.id = messageId
  paged : ∀ (stores : ℕ → Store) (id u limit : ℕ), stores 0 = s →
    (∃ c ∈ s.conversations, c.id = id) →
    (∀ k, ∃ commands : List Command, (∀ x ∈ commands, ¬ x.Purges id ∧ ¬ x.Clears u id) ∧
      stores (k + 1) = commands.foldl Store.step (stores k)) → 1 ≤ limit →
    (∃ pages, Walk (fun k cursor => some ((stores k).findMessagesByConversationWithCursor id
      ((stores k).clearMark id u) limit cursor)) 0 none pages) ∧
    ∀ pages, Walk (fun k cursor => some ((stores k).findMessagesByConversationWithCursor id
      ((stores k).clearMark id u) limit cursor)) 0 none pages →
        ((pages.flatMap (·.data)).map (·.id)).Perm
          ((s.visible id (s.clearMark id u)).map (·.id))

/-- The conversation as it is when each page is read, under one mark. -/
theorem Ordered.stores (h : s.Ordered) (hc : c ∈ s.conversations) {stores : ℕ → Store}
    (h₀ : stores 0 = s)
    (hstores : ∀ k, ∃ commands : List Command,
      (∀ x ∈ commands, ¬ x.Purges c.id ∧ ¬ x.Clears u c.id) ∧
        stores (k + 1) = commands.foldl Store.step (stores k)) (k : ℕ) :
    (stores k).Ordered ∧ ∃ c' ∈ (stores k).conversations, c'.id = c.id ∧
      c'.clearedAt u = c.clearedAt u := by
  induction k with
  | zero =>
    rw [h₀]
    exact ⟨h, c, hc, rfl, rfl⟩
  | succ k ih =>
    obtain ⟨hk, c', hc', hid, hmark⟩ := ih
    obtain ⟨commands, hnone, heq⟩ := hstores k
    rw [heq]
    obtain ⟨c'', hc'', hid', hadv⟩ := hk.kept.run_advances hc'
      fun x hx => hid ▸ (hnone x hx).1
    refine ⟨hk.run commands, c'', hc'', hid'.trans hid, (hadv.kept u ?_).trans hmark⟩
    rintro ⟨x, hx, hxu⟩
    rw [hid] at hxu
    exact (hnone x hx).2 hxu

/-- Following the cursors shows what there was at the first page, each message once. -/
theorem Ordered.paged (h : s.Ordered) (hc : c ∈ s.conversations) {stores : ℕ → Store}
    (h₀ : stores 0 = s)
    (hstores : ∀ k, ∃ commands : List Command,
      (∀ x ∈ commands, ¬ x.Purges c.id ∧ ¬ x.Clears u c.id) ∧
        stores (k + 1) = commands.foldl Store.step (stores k)) {limit : ℕ} (hlimit : 1 ≤ limit) :
    (∃ pages, Walk (fun k cursor => some ((stores k).findMessagesByConversationWithCursor c.id
      ((stores k).clearMark c.id u) limit cursor)) 0 none pages) ∧
    ∀ pages, Walk (fun k cursor => some ((stores k).findMessagesByConversationWithCursor c.id
      ((stores k).clearMark c.id u) limit cursor)) 0 none pages →
        ((pages.flatMap (·.data)).map (·.id)).Perm
          ((s.visible c.id (s.clearMark c.id u)).map (·.id)) := by
  have hall := h.stores hc h₀ hstores
  have hmark : ∀ k, (stores k).clearMark c.id u = c.clearedAt u := by
    intro k
    obtain ⟨hk, c', hc', hid, hmark⟩ := hall k
    rw [← hmark, ← hid, hk.kept.clearMark_eq hc']
  -- The cursors alone are rows of a keyset to which nothing is added below a cursor.
  have hread : ∀ k cursor, readForward (fun p => p) limit
      (fun k => (stores k).cursors c.id (c.clearedAt u)) k cursor =
      (some ((stores k).findMessagesByConversationWithCursor c.id
        ((stores k).clearMark c.id u) limit cursor)).map pageCursors := by
    intro k cursor
    rw [hmark, Option.map_some, (hall k).1.pageCursors_eq]
  have hkeep : Keeps (fun p => p) (fun k => (stores k).cursors c.id (c.clearedAt u))
      fun _ _ => true := by
    intro k a ha
    obtain ⟨hk, c', hc', hid, -⟩ := hall k
    obtain ⟨commands, hnone, heq⟩ := hstores k
    obtain ⟨c'', -, -, hadv⟩ := hk.kept.run_advances hc' fun x hx => hid ▸ (hnone x hx).1
    rw [← heq] at hadv
    rw [List.filter_eq_self.mpr fun _ _ => rfl]
    rw [← hid] at ha ⊢
    exact hk.older_cursors (hall (k + 1)).1 hc' hadv ha
  have hdesc := fun k => (hall k).1.descending_cursors c.id (c.clearedAt u)
  constructor
  · obtain ⟨pages', hw'⟩ := walk_exists hkeep hdesc hlimit 0 none
    obtain ⟨pages, hw, -⟩ := Walk.of_image pageCursors_next hread hw'
    exact ⟨pages, hw⟩
  · intro pages hw
    have hshown := walk_all hkeep hdesc hlimit (Walk.image pageCursors_next hread hw)
    change _ = (stores 0).cursors c.id (c.clearedAt u) at hshown
    rw [h₀, List.flatMap_map] at hshown
    have hperm := List.perm_insertionSort (fun a b : ℕ ×ₗ ℕ => b ≤ a)
      ((s.visible c.id (c.clearedAt u)).map Message.cursor)
    change (s.cursors c.id (c.clearedAt u)).Perm _ at hperm
    have hids := hperm.map fun p : ℕ ×ₗ ℕ => (ofLex p).2
    rw [← hshown, List.map_map] at hids
    rw [h.kept.clearMark_eq hc]
    refine List.Perm.trans (List.Perm.of_eq ?_) hids
    rw [List.map_flatMap, List.map_flatMap]
    apply List.flatMap_congr
    intro p _
    change _ = (p.data.map Message.cursor).map _
    rw [List.map_map]
    rfl

/-- A message stays where it is. -/
theorem Ordered.stays (h : s.Ordered) {later : List Command} (hpurge : ∀ x ∈ later, ¬ x.Purges id)
    {m : Message} (hm : m ∈ messagesOf id s.messages) :
    ∃ m' ∈ messagesOf id (later.foldl Store.step s).messages, m'.id = m.id := by
  obtain ⟨hin, rfl⟩ := mem_messagesOf.mp hm
  obtain ⟨c, hc, hid⟩ := h.kept.owned m hin
  obtain ⟨c', -, -, hadv⟩ := h.kept.run_advances hc (hid ▸ hpurge)
  obtain ⟨new, hstamps, -⟩ := hadv.added
  rw [hid] at hstamps
  have hstamp := List.mem_append_left new (List.mem_map_of_mem (f := Message.stamp) hm)
  rw [← hstamps] at hstamp
  obtain ⟨m', hm', heq⟩ := List.mem_map.mp hstamp
  exact ⟨m', hm', congrArg Prod.snd heq⟩

private theorem Ordered.keepsHistory (h : s.Ordered) : s.KeepsHistory where
  rising c hc := by
    obtain ⟨last, hlast, hle, -⟩ := (h.kept.consistent c hc).stamped
    exact ⟨h.times c.id, last, hlast, hle⟩
  stays id later hpurge m hm := h.stays hpurge hm
  hidden u id now t hclear later hpurge m hm m' hreturns :=
    h.hidden hclear hpurge hm hreturns.visible
  seen u id now t hclear later hnone m hm hnew := by
    have hvisible := h.seen hclear (fun x hx => (hnone x hx).1) (fun x hx => (hnone x hx).2) hm hnew
    refine ⟨hvisible, fun limit hlimit => ?_⟩
    exact mem_numbered_page hlimit (mem_sortDesc.mpr hvisible)
  shown r newConversation messageId createdNow now t hsend := by
    obtain ⟨c, m, hm, hid, hcase⟩ := sendMessage_cases hsend
    refine ⟨c.addMessage m r.senderId, ?_, rfl, m, mem_messagesOf.mpr ⟨?_, hm.conversation⟩, hid⟩
    · rcases hcase with ⟨hc, rfl⟩ | ⟨hc, rfl⟩
      · exact List.mem_map.mpr ⟨c, hc, if_pos rfl⟩
      · exact List.mem_map.mpr ⟨c, List.mem_append_right _ (List.mem_singleton_self c), if_pos rfl⟩
    · rcases hcase with ⟨hc, rfl⟩ | ⟨hc, rfl⟩
      · exact List.mem_append_right _ (List.mem_singleton_self m)
      · exact List.mem_append_right _ (List.mem_singleton_self m)
  paged stores id u limit h₀ hexists hstores hlimit := by
    obtain ⟨c, hc, rfl⟩ := hexists
    exact h.paged hc h₀ hstores hlimit

end Store

/-- After any transactions, whatever the clocks read, the histories of the conversations are
kept. -/
theorem histories_kept (commands : List Command) :
    (commands.foldl Store.step Store.initial).KeepsHistory :=
  (Store.Ordered.initial.run commands).keepsHistory

end Ascendance.Messaging
