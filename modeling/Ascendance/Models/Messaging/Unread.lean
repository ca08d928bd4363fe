import Ascendance.Models.Messaging.Effects

/-!
# Unread counters

A participant's counter is reset, raised by one or left alone, while the messages' readers,
senders and times change by themselves. The counter is the number of the messages that the
participant has not read.
-/

namespace Ascendance.Messaging

/-- The user has yet to read the message. -/
def Message.isUnread (userId : ℕ) (clearedAt : Option ℕ) (m : Message) : Bool :=
  m.sender ≠ some userId ∧ userId ∉ m.readBy ∧ m.isAfter clearedAt

/-- A message is unread when another sent it, the user has not read it and it is not cleared. -/
private theorem Message.isUnread_iff {userId : ℕ} {clearedAt : Option ℕ} {m : Message} :
    m.isUnread userId clearedAt = true ↔
      m.sender ≠ some userId ∧ userId ∉ m.readBy ∧ m.isAfter clearedAt = true :=
  decide_eq_true_iff

/-- The stored messages of a conversation that a user has yet to read. -/
def Store.unread (s : Store) (c : Conversation) (userId : ℕ) : ℕ :=
  s.messages.countP fun m => m.conversation = c.id ∧ m.isUnread userId (c.clearedAt userId)

/-- The messages of a conversation. -/
def messagesOf (conversation : ℕ) (ms : List Message) : List Message :=
  ms.filter (·.conversation = conversation)

/-- What holds of a conversation and its messages. -/
structure Conversation.Consistent (c : Conversation) (ms : List Message) : Prop where
  /-- Nothing is later than the last message, or the start. -/
  stamped : ∃ t, c.lastMessageAt = some t ∧ (∀ m ∈ ms, m.createdAt ≤ t) ∧
    ∀ u d, c.clearedAt u = some d → d ≤ t
  counted : ∀ u ∈ c.participants,
    c.unreadCounts u = some (ms.countP (·.isUnread u (c.clearedAt u)))

namespace Conversation.Consistent

variable {c c' : Conversation} {ms : List Message}

/-- A conversation with the same counters is consistent with the same messages. -/
theorem same (h : c.Consistent ms) (hs : c.Same c') : c'.Consistent ms where
  stamped := by
    rw [hs.lastMessageAt, hs.clearedAt]
    exact h.stamped
  counted := by
    rw [hs.participants, hs.unreadCounts, hs.clearedAt]
    exact h.counted

/-- A fresh conversation is consistent with no messages. -/
theorem fresh {s : Store} (hc : c.Fresh s) : c.Consistent [] where
  stamped := by
    obtain ⟨t, ht⟩ := Option.isSome_iff_exists.mp hc.started
    refine ⟨t, ht, by simp, fun u d hd => ?_⟩
    rw [hc.shown u] at hd
    cases hd
  counted u hu := hc.read u hu

/-- Messages change without changing for their readers. -/
theorem map (h : c.Consistent ms) {f : Message → Message} (hf : ∀ m : Message, m.Same (f m)) :
    c.Consistent (ms.map f) where
  stamped := by
    obtain ⟨t, ht, hms, hcleared⟩ := h.stamped
    refine ⟨t, ht, fun m hm => ?_, hcleared⟩
    obtain ⟨m', hm', rfl⟩ := List.mem_map.mp hm
    rw [(hf m').createdAt]
    exact hms m' hm'
  counted u hu := by
    rw [h.counted u hu, List.countP_map]
    congr 1
    apply List.countP_congr
    intro m _
    unfold Message.isUnread Message.isAfter
    rw [Function.comp_apply, (hf m).sender, (hf m).readBy, (hf m).createdAt]

/-- A reader's messages are all read, and nobody else's change. -/
theorem isUnread_markRead {m : Message} (hm : m.conversation = c.id) (reader u : ℕ) :
    (m.markRead c.id reader (c.clearedAt reader)).isUnread u (c.clearedAt u) =
      (decide (u ≠ reader) && m.isUnread u (c.clearedAt u)) := by
  unfold Message.markRead
  by_cases hu : u = reader
  · subst hu
    split
    · simp [Message.isUnread]
    · next hnot =>
      simp only [hm, true_and, not_and, Classical.not_not] at hnot
      simp only [ne_eq, not_true_eq_false, decide_false, Bool.false_and]
      unfold Message.isUnread
      rw [decide_eq_false_iff_not]
      rintro ⟨hsender, hread, hafter⟩
      exact hread (hnot hafter hsender)
  · rw [decide_eq_true hu, Bool.true_and, Bool.eq_iff_iff]
    split
    · rw [Message.isUnread_iff, Message.isUnread_iff, List.mem_append, List.mem_singleton,
        or_iff_left hu]
      exact Iff.rfl
    · exact Iff.rfl

/-- Reading a conversation keeps it consistent. -/
theorem markRead (h : c.Consistent ms) (hms : ∀ m ∈ ms, m.conversation = c.id) (reader : ℕ) :
    Consistent { c with unreadCounts := Function.update c.unreadCounts reader (some 0) }
      (ms.map (·.markRead c.id reader (c.clearedAt reader))) where
  stamped := by
    obtain ⟨t, ht, hle, hcleared⟩ := h.stamped
    refine ⟨t, ht, fun m hm => ?_, hcleared⟩
    obtain ⟨m', hm', rfl⟩ := List.mem_map.mp hm
    unfold Message.markRead
    split <;> exact hle m' hm'
  counted u hu := by
    have hcount : (ms.map (·.markRead c.id reader (c.clearedAt reader))).countP
        (·.isUnread u (c.clearedAt u)) =
        ms.countP fun m => decide (u ≠ reader) && m.isUnread u (c.clearedAt u) := by
      rw [List.countP_map]
      apply List.countP_congr
      intro m hm
      rw [Function.comp_apply, isUnread_markRead (hms m hm) reader u]
    change Function.update c.unreadCounts reader (some 0) u = some _
    rw [hcount]
    by_cases hur : u = reader
    · subst hur
      rw [Function.update_self, List.countP_eq_zero.mpr (by simp)]
    · rw [Function.update_of_ne hur, h.counted u hu]
      simp [hur]

/-- A message is added to a conversation that its sender has read. -/
theorem addMessage (h : c.Consistent ms) {s : Store} {m : Message} {senderId : ℕ}
    (hm : m.Added s c senderId) (hread : c.unreadCounts senderId = some 0) :
    (c.addMessage m senderId).Consistent (ms ++ [m]) where
  stamped := by
    obtain ⟨t, ht, hle, hcleared⟩ := h.stamped
    have hlt := hm.later t ht
    refine ⟨m.createdAt, rfl, fun m' hm' => ?_, fun u d hd => (hcleared u d hd).trans hlt.le⟩
    rcases List.mem_append.mp hm' with hold | hnew
    · exact (hle m' hold).trans hlt.le
    · rw [List.mem_singleton.mp hnew]
  counted u hu := by
    obtain ⟨t, ht, -, hcleared⟩ := h.stamped
    have hcounted := h.counted u hu
    have hafter : m.isAfter (c.clearedAt u) = true := by
      unfold Message.isAfter
      cases hd : c.clearedAt u with
      | none => rfl
      | some d => exact decide_eq_true ((hcleared u d hd).trans_lt (hm.later t ht))
    have hnew : m.isUnread u (c.clearedAt u) = decide (u ≠ senderId) := by
      unfold Message.isUnread
      rw [hm.sender, hm.readBy, hafter]
      by_cases hus : u = senderId
      · simp [hus]
      · simp [hus, Ne.symm hus]
    change c.countMessage senderId u = some ((ms ++ [m]).countP (·.isUnread u (c.clearedAt u)))
    rw [List.countP_append, List.countP_singleton]
    unfold Conversation.countMessage
    by_cases hus : u = senderId
    · subst hus
      rw [if_pos rfl, ← Option.some.inj (hread.symm.trans hcounted)]
      simp [hnew]
    · have hpart : u ∈ c.participants := hu
      rw [if_neg hus, if_pos hpart, hcounted]
      simp [hnew, hus]

/-- Nothing is left to read after a clearing. -/
theorem clear (h : c.Consistent ms) (userId now : ℕ) : (c.clear userId now).Consistent ms := by
  obtain ⟨t, ht, hle, hcleared⟩ := h.stamped
  have hmark : (c.clear userId now).clearedAt = Function.update c.clearedAt userId (some t) := by
    change Function.update c.clearedAt userId (some (c.lastMessageAt.getD now)) = _
    rw [ht]
    rfl
  refine ⟨⟨t, ht, hle, fun u d hd => ?_⟩, fun u hu => ?_⟩
  · rw [hmark] at hd
    by_cases hu : u = userId
    · subst hu
      rw [Function.update_self] at hd
      exact (Option.some.inj hd).ge
    · rw [Function.update_of_ne hu] at hd
      exact hcleared u d hd
  · rw [hmark]
    change Function.update c.unreadCounts userId (some 0) u = _
    by_cases huu : u = userId
    · subst huu
      rw [Function.update_self, Function.update_self, List.countP_eq_zero.mpr]
      intro m hm
      have hnot := not_lt.mpr (hle m hm)
      simp [Message.isUnread, Message.isAfter, hnot]
    · rw [Function.update_of_ne huu, Function.update_of_ne huu]
      exact h.counted u hu

/-- Who stays has the same messages to read after an account is gone. -/
theorem preserve (h : c.Consistent ms) (userId : ℕ) (snapshot : SnapshotId)
    (hleft : ∀ m ∈ ms, m.senderSnapshot.isSome → m.sender = none) :
    (c.preserve userId snapshot).Consistent (ms.map (·.preserve userId snapshot)) := by
  have hcount : ∀ u ≠ userId, (ms.map (·.preserve userId snapshot)).countP
      (·.isUnread u (c.clearedAt u)) = ms.countP (·.isUnread u (c.clearedAt u)) := by
    intro u hu
    rw [List.countP_map]
    apply List.countP_congr
    intro m hm
    have hsnap := hleft m hm
    unfold Message.isUnread Message.isAfter Message.preserve
    simp only [Function.comp_apply, decide_eq_true_eq, List.mem_filter, hu, ne_eq,
      not_false_eq_true, and_true]
    split
    · next hgone =>
      have hsender : m.sender ≠ some u := by
        rcases hgone with hsender | hsnapshot | hsnapshot
        · rw [hsender]
          exact fun heq => hu (Option.some.inj heq).symm
        · rw [hsnap (by rw [hsnapshot]; rfl)]
          simp
        · rw [hsnap (by rw [hsnapshot]; rfl)]
          simp
      simp [hsender]
    · rfl
  have hstamped : ∃ t, c.lastMessageAt = some t ∧
      (∀ m ∈ ms.map (·.preserve userId snapshot), m.createdAt ≤ t) ∧
      ∀ u d, c.clearedAt u = some d → d ≤ t := by
    obtain ⟨t, ht, hle, hcleared⟩ := h.stamped
    refine ⟨t, ht, fun m hm => ?_, hcleared⟩
    obtain ⟨m', hm', rfl⟩ := List.mem_map.mp hm
    unfold Message.preserve
    dsimp only
    split <;> exact hle m' hm'
  unfold Conversation.preserve
  split
  · refine ⟨hstamped, fun u hu => ?_⟩
    have hne : u ≠ userId := by simpa using (List.mem_filter.mp hu).2
    change Function.update c.unreadCounts userId none u = _
    rw [Function.update_of_ne hne, h.counted u (List.mem_filter.mp hu).1]
    exact congrArg some (hcount u hne).symm
  · next hnot =>
    refine ⟨hstamped, fun u hu => ?_⟩
    have hne : u ≠ userId := fun heq => hnot (.inl (heq ▸ hu))
    rw [h.counted u hu, hcount u hne]

end Conversation.Consistent

namespace Store

variable {s t : Store}

/-- The messages are those of stored conversations, and each conversation is consistent. -/
structure Kept (s : Store) : Prop where
  distinct : (s.conversations.map (·.id)).Nodup
  owned : ∀ m ∈ s.messages, ∃ c ∈ s.conversations, c.id = m.conversation
  left : ∀ m ∈ s.messages, m.senderSnapshot.isSome → m.sender = none
  consistent : ∀ c ∈ s.conversations, c.Consistent (messagesOf c.id s.messages)

/-- A change that keeps the conversation of each message maps the messages of each conversation. -/
theorem messagesOf_map {f : Message → Message} (hf : ∀ m, (f m).conversation = m.conversation)
    (id : ℕ) (ms : List Message) : messagesOf id (ms.map f) = (messagesOf id ms).map f := by
  unfold messagesOf
  rw [List.filter_map]
  congr 2
  funext m
  exact congrArg (fun i => decide (i = id)) (hf m)

/-- Messages of other conversations stay. -/
theorem messagesOf_map_eq {f : Message → Message} {id : ℕ} {ms : List Message}
    (hf : ∀ m, (f m).conversation = m.conversation)
    (hid : ∀ m ∈ ms, m.conversation = id → f m = m) :
    messagesOf id (ms.map f) = messagesOf id ms := by
  rw [messagesOf_map hf]
  conv_rhs => rw [← List.map_id (messagesOf id ms)]
  apply List.map_congr_left
  intro m hm
  exact hid m (List.mem_filter.mp hm).1 (of_decide_eq_true (List.mem_filter.mp hm).2)

/-- The messages of a conversation are those that name it. -/
theorem mem_messagesOf {id : ℕ} {ms : List Message} {m : Message} :
    m ∈ messagesOf id ms ↔ m ∈ ms ∧ m.conversation = id := by
  simp [messagesOf]

/-- Reading a message moves it to no other conversation. -/
theorem markRead_conversation (id reader : ℕ) (clearedAt : Option ℕ) (m : Message) :
    (m.markRead id reader clearedAt).conversation = m.conversation := by
  unfold Message.markRead
  split <;> rfl

/-- Reading touches one conversation. -/
private theorem markRead_other {id reader : ℕ} {clearedAt : Option ℕ} {m : Message}
    (h : m.conversation ≠ id) : m.markRead id reader clearedAt = m :=
  if_neg fun hm => h hm.1

private theorem markRead_left {id reader : ℕ} {clearedAt : Option ℕ} {m : Message}
    (h : m.senderSnapshot.isSome → m.sender = none) :
    (m.markRead id reader clearedAt).senderSnapshot.isSome →
      (m.markRead id reader clearedAt).sender = none := by
  unfold Message.markRead
  split <;> exact h

/-- One conversation and its messages change. -/
theorem Kept.update (h : s.Kept) {c c' : Conversation} {ms : List Message}
    (hid : c'.id = c.id)
    (hothers : ∀ id ≠ c.id, messagesOf id ms = messagesOf id s.messages)
    (howned : ∀ m ∈ ms, ∃ d ∈ s.conversations, d.id = m.conversation)
    (hleft : ∀ m ∈ ms, m.senderSnapshot.isSome → m.sender = none)
    (hconsistent : c'.Consistent (messagesOf c.id ms)) :
    Kept (updateConversation { s with messages := ms } c') := by
  have hsame : ∀ d : Conversation, (if d.id = c'.id then c' else d).id = d.id := by
    intro d
    split
    · next heq => exact heq.symm
    · rfl
  refine ⟨?_, fun m hm => ?_, hleft, fun d hd => ?_⟩
  · have hids : (s.conversations.map fun d => if d.id = c'.id then c' else d).map (·.id) =
        s.conversations.map (·.id) := by
      rw [List.map_map]
      exact List.map_congr_left fun d _ => hsame d
    exact hids ▸ h.distinct
  · obtain ⟨d, hd, hdm⟩ := howned m hm
    exact ⟨_, List.mem_map_of_mem hd, (hsame d).trans hdm⟩
  · obtain ⟨b, hb, rfl⟩ := List.mem_map.mp hd
    change Conversation.Consistent _ (messagesOf _ ms)
    split
    · rw [hid]
      exact hconsistent
    · next hne =>
      rw [hothers b.id (hid ▸ hne)]
      exact h.consistent b hb

/-- One conversation changes and no message does. -/
theorem Kept.withConversation (h : s.Kept) {c c' : Conversation} (hid : c'.id = c.id)
    (hconsistent : c'.Consistent (messagesOf c.id s.messages)) : (s.updateConversation c').Kept :=
  h.update hid (fun _ _ => rfl) h.owned h.left hconsistent

/-- Adding a fresh conversation keeps the invariant. -/
theorem Kept.added (h : s.Kept) {c : Conversation} (hc : c.Fresh s) :
    Kept { s with conversations := s.conversations ++ [c] } := by
  have hnone : messagesOf c.id s.messages = [] := by
    unfold messagesOf
    rw [List.filter_eq_nil_iff]
    intro m hm
    obtain ⟨d, hd, hdm⟩ := h.owned m hm
    simpa [← hdm] using hc.unused d hd
  refine ⟨?_, fun m hm => ?_, h.left, fun d hd => ?_⟩
  · rw [List.map_append, List.map_singleton]
    refine h.distinct.append (List.nodup_singleton _) ?_
    intro id hid hidc
    obtain ⟨d, hd, rfl⟩ := List.mem_map.mp hid
    exact hc.unused d hd (List.mem_singleton.mp hidc)
  · obtain ⟨d, hd, hdm⟩ := h.owned m hm
    exact ⟨d, List.mem_append_left _ hd, hdm⟩
  · rcases List.mem_append.mp hd with hd | hd
    · exact h.consistent d hd
    · rw [List.mem_singleton.mp hd]
      change c.Consistent (messagesOf c.id s.messages)
      rw [hnone]
      exact .fresh hc

/-- A change that keeps what is counted of the messages keeps the invariant. -/
theorem Kept.mapMessages (h : s.Kept) {f : Message → Message} (hf : ∀ m : Message, m.Same (f m)) :
    (s.mapMessages f).Kept where
  distinct := h.distinct
  owned m hm := by
    obtain ⟨m', hm', rfl⟩ := List.mem_map.mp hm
    rw [(hf m').conversation]
    exact h.owned m' hm'
  left m hm := by
    obtain ⟨m', hm', rfl⟩ := List.mem_map.mp hm
    rw [(hf m').sender, (hf m').senderSnapshot]
    exact h.left m' hm'
  consistent c hc := by
    change c.Consistent (messagesOf c.id (s.messages.map f))
    rw [messagesOf_map fun m => (hf m).conversation]
    exact (h.consistent c hc).map hf

/-- Reading a conversation keeps the invariant. -/
theorem Kept.readMessages (h : s.Kept) {c : Conversation} (hc : c ∈ s.conversations)
    (userId : ℕ) : (s.readMessages c userId).Kept := by
  refine h.update rfl (fun id hid => ?_) (fun m hm => ?_) (fun m hm => ?_) ?_
  · refine messagesOf_map_eq (fun m => markRead_conversation _ _ _ m) ?_
    intro m _ hmid
    exact markRead_other (hmid.trans_ne hid)
  · obtain ⟨m', hm', rfl⟩ := List.mem_map.mp hm
    rw [markRead_conversation]
    exact h.owned m' hm'
  · obtain ⟨m', hm', rfl⟩ := List.mem_map.mp hm
    exact markRead_left (h.left m' hm')
  · rw [messagesOf_map fun m => markRead_conversation _ _ _ m]
    exact (h.consistent c hc).markRead (fun m hm => (mem_messagesOf.mp hm).2) userId

/-- Adding a message keeps the invariant. -/
theorem Kept.addMessage (h : s.Kept) {s' : Store} {c : Conversation} {m : Message} {senderId : ℕ}
    (hc : c ∈ s.conversations) (hm : m.Added s' c senderId)
    (hread : c.unreadCounts senderId = some 0) : (s.addMessage c m senderId).Kept := by
  have hsingle : ∀ id ≠ c.id, messagesOf id [m] = [] := by
    intro id hid
    unfold messagesOf
    rw [List.filter_eq_nil_iff]
    intro m' hm'
    rw [List.mem_singleton.mp hm', hm.conversation]
    simpa using hid.symm
  have hid : (c.addMessage m senderId).id = c.id := rfl
  refine h.update hid (fun id hid => ?_) (fun m' hm' => ?_) (fun m' hm' => ?_) ?_
  · rw [messagesOf, List.filter_append]
    change _ ++ messagesOf id [m] = _
    rw [hsingle id hid, List.append_nil]
    rfl
  · rcases List.mem_append.mp hm' with hold | hnew
    · exact h.owned m' hold
    · rw [List.mem_singleton.mp hnew, hm.conversation]
      exact ⟨c, hc, rfl⟩
  · rcases List.mem_append.mp hm' with hold | hnew
    · exact h.left m' hold
    · rw [List.mem_singleton.mp hnew, hm.senderSnapshot]
      simp
  · have hin : messagesOf c.id (s.messages ++ [m]) = messagesOf c.id s.messages ++ [m] := by
      unfold messagesOf
      rw [List.filter_append, List.filter_cons_of_pos (by simpa using hm.conversation),
        List.filter_nil]
    rw [hin]
    exact (h.consistent c hc).addMessage hm hread

/-- Preserving the sender moves a message to no other conversation. -/
theorem preserve_conversation (userId : ℕ) (snapshot : SnapshotId) (m : Message) :
    (m.preserve userId snapshot).conversation = m.conversation := by
  unfold Message.preserve
  dsimp only
  split <;> rfl

/-- Preserving a participant keeps the conversation's identifier. -/
theorem preserve_id (userId : ℕ) (snapshot : SnapshotId) (c : Conversation) :
    (c.preserve userId snapshot).id = c.id := by
  unfold Conversation.preserve
  split <;> rfl

/-- Purging a user keeps the invariant. -/
theorem Kept.purgeUser (h : s.Kept) (userId : ℕ) (action : LifecycleAction) :
    (s.purgeUser userId action).Kept := by
  unfold Store.purgeUser
  generalize action.snapshot userId = snapshot
  refine ⟨?_, fun m hm => ?_, fun m hm => ?_, fun c hc => ?_⟩
  · have hids : (s.conversations.map (·.preserve userId snapshot)).map (·.id) =
        s.conversations.map (·.id) := by
      rw [List.map_map]
      exact List.map_congr_left fun c _ => preserve_id userId snapshot c
    exact hids ▸ h.distinct
  · obtain ⟨m', hm', rfl⟩ := List.mem_map.mp hm
    obtain ⟨c, hc, hcm⟩ := h.owned m' hm'
    refine ⟨_, List.mem_map_of_mem hc, ?_⟩
    rw [preserve_id, preserve_conversation]
    exact hcm
  · obtain ⟨m', hm', rfl⟩ := List.mem_map.mp hm
    unfold Message.preserve
    dsimp only
    split
    · exact fun _ => rfl
    · exact h.left m' hm'
  · obtain ⟨d, hd, rfl⟩ := List.mem_map.mp hc
    change Conversation.Consistent _ (messagesOf _ (s.messages.map _))
    rw [preserve_id, messagesOf_map fun m => preserve_conversation userId snapshot m]
    exact (h.consistent d hd).preserve userId snapshot fun m hm => h.left m (mem_messagesOf.mp hm).1

/-- Purging a conversation keeps the invariant. -/
theorem Kept.purge (h : s.Kept) (id : ℕ) : (s.purge id).Kept where
  distinct := h.distinct.sublist (List.filter_sublist.map _)
  owned m hm := by
    obtain ⟨hm, hne⟩ := List.mem_filter.mp hm
    obtain ⟨c, hc, hcm⟩ := h.owned m hm
    exact ⟨c, List.mem_filter.mpr ⟨hc, by rw [hcm]; exact hne⟩, hcm⟩
  left m hm := h.left m (List.mem_filter.mp hm).1
  consistent c hc := by
    obtain ⟨hc, hne⟩ := List.mem_filter.mp hc
    have hmessages : messagesOf c.id (s.purge id).messages = messagesOf c.id s.messages := by
      unfold messagesOf
      change (s.messages.filter _).filter _ = _
      rw [List.filter_filter]
      apply List.filter_congr
      intro m _
      by_cases hm : m.conversation = c.id
      · simpa [hm] using hne
      · simp [hm]
    rw [hmessages]
    exact h.consistent c hc

/-- The later of two updates of one document is the one that shows. -/
theorem updateConversation_twice (s : Store) {c c' : Conversation} (hid : c'.id = c.id) :
    (s.updateConversation c).updateConversation c' = s.updateConversation c' := by
  have hmap : (s.conversations.map fun d => if d.id = c.id then c else d).map
      (fun d => if d.id = c'.id then c' else d) =
      s.conversations.map fun d => if d.id = c'.id then c' else d := by
    rw [List.map_map]
    apply List.map_congr_left
    intro d _
    rw [Function.comp_apply, hid]
    by_cases hd : d.id = c.id
    · simp only [if_pos hd, if_true]
    · simp only [if_neg hd]
  exact congrArg (fun conversations => { s with conversations }) hmap

/-- The participant's counter after reading. -/
abbrev readBy (c : Conversation) (userId : ℕ) : Conversation :=
  { c with unreadCounts := Function.update c.unreadCounts userId (some 0) }

/-- Sending reads the messages before, and writes the document once. -/
theorem sent_eq (s : Store) (c : Conversation) (m : Message) (senderId : ℕ) :
    (s.mapMessages (·.markRead c.id senderId (c.clearedAt senderId))).addMessage c m senderId =
      (s.readMessages c senderId).addMessage (readBy c senderId) m senderId := by
  have hcounts : (readBy c senderId).countMessage senderId = c.countMessage senderId := by
    funext u
    unfold Conversation.countMessage
    by_cases hu : u = senderId
    · rw [if_pos hu, if_pos hu]
    · rw [if_neg hu, if_neg hu]
      change (if u ∈ c.participants then
        some ((Function.update c.unreadCounts senderId (some 0) u).getD 0 + 1)
        else Function.update c.unreadCounts senderId (some 0) u) = _
      rw [Function.update_of_ne hu]
  have hadded : (readBy c senderId).addMessage m senderId = c.addMessage m senderId := by
    unfold Conversation.addMessage
    rw [hcounts]
  unfold Store.addMessage
  rw [hadded]
  have hid : (c.addMessage m senderId).id = (readBy c senderId).id := rfl
  exact (updateConversation_twice _ hid).symm

/-- Every command keeps the invariant. -/
theorem Kept.effect {cmd : Command} (h : s.Kept) (he : Effect cmd s t) : t.Kept := by
  cases he with
  | users users => exact ⟨h.distinct, h.owned, h.left, h.consistent⟩
  | created hc => exact h.added hc
  | @started c m senderId hc hm =>
    exact (h.added hc).addMessage (List.mem_append_right _ (List.mem_singleton_self c)) hm
      (hc.read senderId hm.participant)
  | @sent c m senderId hc hm =>
    -- reading and sending update the same document, so the counters are those after the reading
    have hread := h.readMessages hc senderId
    have hadded : m.Added s (readBy c senderId) senderId := ⟨hm.participant, hm.unused,
      hm.conversation, hm.sender, hm.senderSnapshot, hm.readBy, hm.later⟩
    rw [sent_eq]
    refine hread.addMessage (List.mem_map.mpr ⟨c, hc, if_pos rfl⟩) hadded ?_
    exact Function.update_self ..
  | read hc => exact h.readMessages hc _
  | written hf => exact h.mapMessages hf
  | @cleared c userId now hc _ =>
    refine h.withConversation rfl ?_
    exact (h.consistent c hc).clear userId now
  | @changed c c' hc hsame =>
    refine h.withConversation hsame.id ?_
    exact (h.consistent c hc).same hsame
  | purged id _ => exact h.purge id
  | preserved userId action => exact h.purgeUser userId action

/-- The counter of every participant is the number of messages the participant has not read. -/
def Counted (s : Store) : Prop :=
  ∀ c ∈ s.conversations, ∀ u ∈ c.participants, c.unreadCounts u = some (s.unread c u)

/-- Under the invariant the counters count the unread messages. -/
theorem Kept.counted (h : s.Kept) : s.Counted := by
  intro c hc u hu
  rw [(h.consistent c hc).counted u hu]
  unfold messagesOf Store.unread
  rw [List.countP_filter]
  congr 1
  apply List.countP_congr
  intro m _
  simp [and_comm]

/-- The invariant holds of the empty store. -/
theorem Kept.initial : initial.Kept where
  distinct := List.nodup_nil
  owned _ hm := absurd hm List.not_mem_nil
  left _ hm := absurd hm List.not_mem_nil
  consistent _ hc := absurd hc List.not_mem_nil

/-- The invariant holds after every list of commands. -/
theorem Kept.run (h : s.Kept) (commands : List Command) : (commands.foldl Store.step s).Kept := by
  induction commands generalizing s with
  | nil => exact h
  | cons c commands ih => exact ih (h.effect (step_effect s c))

end Store

/-- After any transactions, whatever the clocks read: each participant's counter is the number of
the messages the participant has yet to read. -/
theorem unreadCounts_counted (commands : List Command) :
    (commands.foldl Store.step Store.initial).Counted :=
  (Store.Kept.initial.run commands).counted

/-- A message, an answer and a clearing, with a clock that stands still. -/
example : ((([.createConversation 1 2 10 100, .setUser 1 ⟨false, false⟩, .setUser 2 ⟨false, false⟩,
    .sendMessage ⟨1, some 10, none, .ok "hello"⟩ 0 20 100 100,
    .sendMessage ⟨1, some 10, none, .ok "there"⟩ 0 21 100 100,
    .sendMessage ⟨2, some 10, none, .ok "hi"⟩ 0 22 100 100,
    .manageConversation 1 10 .delete 100,
    .sendMessage ⟨2, some 10, none, .ok "again"⟩ 0 23 100 100] : List Command).foldl Store.step
      Store.initial).conversations.map fun c => (c.unreadCounts 1, c.unreadCounts 2)) =
    [(some 1, some 0)] := by decide +kernel

end Ascendance.Messaging
