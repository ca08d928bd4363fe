import Ascendance.Core.Keyset
import Ascendance.Models.Messaging.Unread
import Mathlib.Data.Prod.Lex

/-!
# The history of a conversation

What a participant sees of a conversation is decided by times: a message is later than
everything before it whatever the clock says, and a clear mark is the time of the last
message. Pages are read by time and identifier while messages are sent.
-/

namespace Ascendance.Messaging

open Ascendance.Core Ascendance.Core.Keyset

/-- The cursor of a message: when it was created, and its identifier. -/
def Message.cursor (m : Message) : ℕ ×ₗ ℕ := toLex (m.createdAt, m.id)

/-- A page by its number. -/
structure PaginationResult where
  data : List Message
  total : ℕ
  page : ℕ
  limit : ℕ
  totalPages : ℕ

namespace Store

variable (s : Store) (conversationId : ℕ) (clearedAt : Option ℕ)

/-- What the queries of a participant with a clear mark look at. -/
def visible : List Message := (messagesOf conversationId s.messages).filter (·.isAfter clearedAt)

/-- A page of the messages that the user may see, by its number. -/
def findMessagesByConversation (page limit : ℕ) : PaginationResult :=
  let filtered := s.visible conversationId clearedAt
  ⟨((sortDesc Message.cursor filtered).drop ((page - 1) * limit)).take limit, filtered.length, page,
    limit, if 0 < filtered.length then (filtered.length + limit - 1) / limit else 0⟩

/-- A page of the messages that the user may see, below a cursor. -/
def findMessagesByConversationWithCursor (limit : ℕ) (cursor : Option (ℕ ×ₗ ℕ)) :
    CursorPage Message (ℕ ×ₗ ℕ) :=
  let filtered := window Message.cursor cursor (s.visible conversationId clearedAt)
  let messages := (sortDesc Message.cursor filtered).take (limit + 1)
  let hasMore := decide (limit < messages.length)
  let data := if hasMore then messages.take limit else messages
  ⟨data, hasMore, if hasMore then data.getLast?.map Message.cursor else none, none⟩

end Store

/-- What never changes of a message. -/
def Message.stamp (m : Message) : ℕ × ℕ := (m.createdAt, m.id)

/-- The conversation and its messages some time later, when only some users have cleared it. -/
structure Advances (clears : ℕ → Prop) (c : Conversation) (ms : List Message) (c' : Conversation)
    (ms' : List Message) : Prop where
  added : ∃ new, ms'.map Message.stamp = ms.map Message.stamp ++ new ∧
    ∀ n ∈ new, ∀ t, c.lastMessageAt = some t → t < n.1
  last : ∀ t, c.lastMessageAt = some t → ∃ t', c'.lastMessageAt = some t' ∧ t ≤ t'
  cleared : ∀ u d, c.clearedAt u = some d → ∃ d', c'.clearedAt u = some d' ∧ d ≤ d'
  kept : ∀ u, ¬ clears u → c'.clearedAt u = c.clearedAt u

section Advances

variable {clears clears' : ℕ → Prop} {c c' c'' : Conversation} {ms ms' ms'' : List Message}

/-- A change that keeps the stamps and the dates of the conversation advances it. -/
theorem Advances.of_eq (hstamps : ms'.map Message.stamp = ms.map Message.stamp)
    (hlast : c'.lastMessageAt = c.lastMessageAt) (hcleared : c'.clearedAt = c.clearedAt) :
    Advances clears c ms c' ms' where
  added := ⟨[], by rw [hstamps, List.append_nil], by simp⟩
  last t ht := ⟨t, hlast.trans ht, le_rfl⟩
  cleared u d hd := ⟨d, by rw [hcleared, hd], le_rfl⟩
  kept u _ := by rw [hcleared]

/-- An advance with fewer clears is one with more. -/
theorem Advances.mono (h : Advances clears c ms c' ms') (hsub : ∀ u, clears u → clears' u) :
    Advances clears' c ms c' ms' :=
  ⟨h.added, h.last, h.cleared, fun u hu => h.kept u fun hc => hu (hsub u hc)⟩

/-- Advances compose. -/
theorem Advances.trans (h : Advances clears c ms c' ms') (h' : Advances clears c' ms' c'' ms'') :
    Advances clears c ms c'' ms'' where
  added := by
    obtain ⟨new, heq, hnew⟩ := h.added
    obtain ⟨new', heq', hnew'⟩ := h'.added
    refine ⟨new ++ new', by rw [heq', heq, List.append_assoc], fun n hn t ht => ?_⟩
    rcases List.mem_append.mp hn with hn | hn
    · exact hnew n hn t ht
    · obtain ⟨t', ht', hle⟩ := h.last t ht
      exact hle.trans_lt (hnew' n hn t' ht')
  last t ht := by
    obtain ⟨t', ht', hle⟩ := h.last t ht
    obtain ⟨t'', ht'', hle'⟩ := h'.last t' ht'
    exact ⟨t'', ht'', hle.trans hle'⟩
  cleared u d hd := by
    obtain ⟨d', hd', hle⟩ := h.cleared u d hd
    obtain ⟨d'', hd'', hle'⟩ := h'.cleared u d' hd'
    exact ⟨d'', hd'', hle.trans hle'⟩
  kept u hu := (h'.kept u hu).trans (h.kept u hu)

/-- A message is added. -/
theorem Advances.addMessage {s : Store} {m : Message} {senderId : ℕ}
    (hm : m.Added s c senderId) (hstamps : ms'.map Message.stamp = ms.map Message.stamp) :
    Advances clears c ms (c.addMessage m senderId) (ms' ++ [m]) where
  added := by
    refine ⟨[m.stamp], by rw [List.map_append, hstamps, List.map_singleton], fun n hn t ht => ?_⟩
    rw [List.mem_singleton.mp hn]
    exact hm.later t ht
  last t ht := ⟨m.createdAt, rfl, (hm.later t ht).le⟩
  cleared u d hd := ⟨d, hd, le_rfl⟩
  kept _ _ := rfl

/-- A user clears the history: the mark moves on to the last message. -/
theorem Advances.clear (h : c.Consistent ms) {userId now : ℕ} (hclears : clears userId) :
    Advances clears c ms (c.clear userId now) ms where
  added := ⟨[], (List.append_nil _).symm, by simp⟩
  last t ht := ⟨t, ht, le_rfl⟩
  cleared u d hd := by
    obtain ⟨t, ht, -, hcleared⟩ := h.stamped
    change ∃ d', Function.update c.clearedAt userId (some (c.lastMessageAt.getD now)) u = some d' ∧
      d ≤ d'
    by_cases hu : u = userId
    · subst hu
      rw [Function.update_self, ht]
      exact ⟨t, rfl, hcleared u d hd⟩
    · rw [Function.update_of_ne hu]
      exact ⟨d, hd, le_rfl⟩
  kept u hu := by
    have hne : u ≠ userId := by
      rintro rfl
      exact hu hclears
    exact Function.update_of_ne hne ..

end Advances

namespace Store

variable {s t : Store} {cmd : Command} {c : Conversation}

/-- Changes that keep conversation and stamp keep the stamps. -/
private theorem stamps_map {f : Message → Message}
    (hconv : ∀ m, (f m).conversation = m.conversation)
    (hstamp : ∀ m, (f m).stamp = m.stamp) (id : ℕ) (ms : List Message) :
    (messagesOf id (ms.map f)).map Message.stamp = (messagesOf id ms).map Message.stamp := by
  rw [messagesOf_map hconv, List.map_map]
  apply List.map_congr_left
  intro m _
  exact hstamp m

/-- Reading keeps the stamp. -/
private theorem markRead_stamp (id reader : ℕ) (clearedAt : Option ℕ) (m : Message) :
    (m.markRead id reader clearedAt).stamp = m.stamp := by
  unfold Message.markRead
  split <;> rfl

/-- Preserving keeps the stamp. -/
private theorem preserve_stamp (userId : ℕ) (snapshot : SnapshotId) (m : Message) :
    (m.preserve userId snapshot).stamp = m.stamp := by
  unfold Message.preserve
  dsimp only
  split <;> rfl

/-- The messages of the others stay when one is added. -/
theorem messagesOf_append_other {id : ℕ} {ms : List Message} {m : Message}
    (h : m.conversation ≠ id) : messagesOf id (ms ++ [m]) = messagesOf id ms := by
  unfold messagesOf
  rw [List.filter_append, List.filter_cons_of_neg (by simpa using h), List.filter_nil,
    List.append_nil]

private theorem messagesOf_append_same {id : ℕ} {ms : List Message} {m : Message}
    (h : m.conversation = id) : messagesOf id (ms ++ [m]) = messagesOf id ms ++ [m] := by
  unfold messagesOf
  rw [List.filter_append, List.filter_cons_of_pos (by simpa using h), List.filter_nil]

/-- A conversation is known by its identifier. -/
theorem Kept.eq_of_id (h : s.Kept) {d : Conversation} (hc : c ∈ s.conversations)
    (hd : d ∈ s.conversations) (hid : c.id = d.id) : c = d :=
  List.inj_on_of_nodup_map h.distinct hc hd hid

/-- A conversation is where it was after an update of it or of another one. -/
theorem updateConversation_mem (hc : c ∈ s.conversations) (d : Conversation) :
    (if c.id = d.id then d else c) ∈ (s.updateConversation d).conversations :=
  List.mem_map_of_mem hc

/-- One conversation is updated, and of the messages of `c` no stamp changes. -/
theorem advances_update {clears : ℕ → Prop} {s : Store} {d d' : Conversation} {ms : List Message}
    (hdist : d ∈ s.conversations → c.id = d.id → c = d) (hc : c ∈ s.conversations)
    (hd : d ∈ s.conversations) (hid : d'.id = d.id)
    (hsame : c = d → Advances clears c ms d' (messagesOf c.id s.messages))
    (hother : c.id ≠ d.id → (messagesOf c.id s.messages).map Message.stamp =
      ms.map Message.stamp) :
    ∃ c' ∈ (s.updateConversation d').conversations, c'.id = c.id ∧
      Advances clears c ms c' (messagesOf c.id (s.updateConversation d').messages) := by
  refine ⟨_, updateConversation_mem hc d', ?_, ?_⟩
  · split
    · next heq => exact heq.symm
    · rfl
  · split
    · next heq => exact hsame (hdist hd (heq.trans hid))
    · next hne => exact .of_eq (hother fun heq => hne (heq.trans hid.symm)) rfl rfl

/-- What a transaction does to a conversation that it does not purge. -/
theorem Effect.advances (h : s.Kept) (he : Effect cmd s t) (hc : c ∈ s.conversations)
    (hpurge : ¬ cmd.Purges c.id) : ∃ c' ∈ t.conversations, c'.id = c.id ∧
      Advances (cmd.Clears · c.id) c (messagesOf c.id s.messages) c'
        (messagesOf c.id t.messages) := by
  cases he with
  | users users => exact ⟨c, hc, rfl, .of_eq rfl rfl rfl⟩
  | created hfresh => exact ⟨c, List.mem_append_left _ hc, rfl, .of_eq rfl rfl rfl⟩
  | @started d m senderId hfresh hm =>
    have hne := hfresh.unused c hc
    refine advances_update (s := { s with
      conversations := s.conversations ++ [d], messages := s.messages ++ [m] })
      (fun _ heq => absurd heq hne) (List.mem_append_left _ hc)
      (List.mem_append_right _ (List.mem_singleton_self d)) rfl ?_ fun _ => ?_
    · rintro rfl
      exact absurd rfl hne
    · exact congrArg _ (messagesOf_append_other (hm.conversation.trans_ne hne.symm))
  | @sent d m senderId hd hm =>
    have hstamps := stamps_map
      (fun m => markRead_conversation d.id senderId (d.clearedAt senderId) m)
      (fun m => markRead_stamp _ _ _ m) c.id s.messages
    refine advances_update (s := { s.mapMessages
      (·.markRead d.id senderId (d.clearedAt senderId)) with
        messages := (s.mapMessages
          (·.markRead d.id senderId (d.clearedAt senderId))).messages ++ [m] })
      (fun hd heq => h.eq_of_id hc hd heq) hc hd rfl ?_ fun hne => ?_
    · rintro rfl
      change Advances _ c _ _ (messagesOf c.id (_ ++ [m]))
      rw [messagesOf_append_same hm.conversation]
      exact .addMessage hm hstamps
    · change (messagesOf c.id (_ ++ [m])).map _ = _
      rw [messagesOf_append_other (hm.conversation.trans_ne (Ne.symm hne))]
      exact hstamps
  | @read d userId hd =>
    have hstamps := stamps_map (fun m => markRead_conversation d.id userId (d.clearedAt userId) m)
      (fun m => markRead_stamp _ _ _ m) c.id s.messages
    refine advances_update (s := s.mapMessages (·.markRead d.id userId (d.clearedAt userId)))
      (fun hd heq => h.eq_of_id hc hd heq) hc hd rfl ?_ fun _ => hstamps
    rintro rfl
    exact .of_eq hstamps rfl rfl
  | written hf =>
    refine ⟨c, hc, rfl, .of_eq ?_ rfl rfl⟩
    exact stamps_map (fun m => (hf m).conversation)
      (fun m => congrArg₂ Prod.mk (hf m).createdAt (hf m).id) c.id s.messages
  | @cleared d userId now hd hcmd =>
    refine advances_update (fun hd heq => h.eq_of_id hc hd heq) hc hd rfl ?_ fun _ => rfl
    rintro rfl
    exact .clear (h.consistent c hc) hcmd
  | @changed d d' hd hsame =>
    refine advances_update (fun hd heq => h.eq_of_id hc hd heq) hc hd hsame.id ?_ fun _ => rfl
    rintro rfl
    exact .of_eq rfl hsame.lastMessageAt hsame.clearedAt
  | purged id hcmd =>
    have hne : c.id ≠ id := fun heq => hpurge (heq ▸ hcmd)
    refine ⟨c, List.mem_filter.mpr ⟨hc, by simpa using hne⟩, rfl, .of_eq ?_ rfl rfl⟩
    congr 1
    change (s.messages.filter _).filter _ = _
    rw [List.filter_filter]
    apply List.filter_congr
    intro m _
    by_cases hm : m.conversation = c.id
    · simp [hm, hne]
    · simp [hm]
  | preserved userId action =>
    refine ⟨_, List.mem_map_of_mem hc, preserve_id .., .of_eq ?_ ?_ ?_⟩
    · exact stamps_map (fun m => preserve_conversation _ _ m) (fun m => preserve_stamp _ _ m) c.id
        s.messages
    · unfold Conversation.preserve
      split <;> rfl
    · unfold Conversation.preserve
      split <;> rfl

/-- What transactions do to a conversation that they do not purge. -/
theorem Kept.run_advances (h : s.Kept) (hc : c ∈ s.conversations) {commands : List Command}
    (hpurge : ∀ x ∈ commands, ¬ x.Purges c.id) : ∃ c' ∈ (commands.foldl Store.step s).conversations,
      c'.id = c.id ∧ Advances (fun u => ∃ x ∈ commands, x.Clears u c.id) c
        (messagesOf c.id s.messages) c'
        (messagesOf c.id (commands.foldl Store.step s).messages) := by
  induction commands generalizing s c with
  | nil => exact ⟨c, hc, rfl, .of_eq rfl rfl rfl⟩
  | cons x commands ih =>
    have he := step_effect s x
    obtain ⟨b, hb, hbid, hfirst⟩ := he.advances h hc (hpurge x List.mem_cons_self)
    obtain ⟨c', hc', hid, hrest⟩ := ih (h.effect he) hb
      (fun y hy => hbid ▸ hpurge y (List.mem_cons_of_mem x hy))
    rw [hbid] at hid hrest
    refine ⟨c', hc', hid, Advances.trans (hfirst.mono ?_) (hrest.mono ?_)⟩
    · exact fun u hu => ⟨x, List.mem_cons_self, hu⟩
    · rintro u ⟨y, hy, hyu⟩
      exact ⟨y, List.mem_cons_of_mem x hy, hyu⟩

/-- Where and when a message is. -/
def place (m : Message) : ℕ × ℕ × ℕ := (m.conversation, m.createdAt, m.id)

/-- Messages have identifiers of their own, and times that rise in each conversation. -/
structure Rising (places : List (ℕ × ℕ × ℕ)) : Prop where
  ids : (places.map (·.2.2)).Nodup
  times : ∀ id, ((places.filter (·.1 = id)).map (·.2.1)).Pairwise (· < ·)

/-- A part of a rising history is rising. -/
theorem Rising.sublist {places places' : List (ℕ × ℕ × ℕ)} (h : Rising places)
    (hsub : places'.Sublist places) : Rising places' where
  ids := h.ids.sublist (hsub.map _)
  times id := (h.times id).sublist ((hsub.filter _).map _)

/-- The places of messages that change but stay where they are. -/
theorem places_map {f : Message → Message} (hf : ∀ m, place (f m) = place m) (ms : List Message) :
    (ms.map f).map place = ms.map place := by
  rw [List.map_map]
  exact List.map_congr_left fun m _ => hf m

/-- A history stays rising when a message is added. -/
theorem Rising.added {s' : Store} (h : s.Kept) {ms : List Message}
    (hrising : Rising (ms.map place)) (hms : ms.map place = s.messages.map place)
    {m : Message} {senderId : ℕ} (hc : c ∈ s.conversations) (hm : m.Added s' c senderId)
    (hunused : ∀ m' ∈ s.messages, m'.id ≠ m.id) : Rising ((ms ++ [m]).map place) := by
  rw [List.map_append, List.map_singleton]
  have hplace : ∀ p ∈ ms.map place, ∃ m' ∈ s.messages, place m' = p := by
    intro p hp
    rw [hms] at hp
    exact List.mem_map.mp hp
  constructor
  · rw [List.map_append, List.map_singleton]
    refine hrising.ids.append (List.nodup_singleton _) ?_
    intro i hi himem
    obtain ⟨p, hp, rfl⟩ := List.mem_map.mp hi
    obtain ⟨m', hm', rfl⟩ := hplace p hp
    exact hunused m' hm' (List.mem_singleton.mp himem)
  · intro id
    rw [List.filter_append, List.map_append]
    refine List.pairwise_append.mpr ⟨hrising.times id, ?_, ?_⟩
    · exact ((List.pairwise_singleton (· < ·) _).sublist (List.filter_sublist.map _))
    · intro a ha b hb
      obtain ⟨p, hp, rfl⟩ := List.mem_map.mp ha
      obtain ⟨hp, hpid⟩ := List.mem_filter.mp hp
      obtain ⟨q, hq, rfl⟩ := List.mem_map.mp hb
      obtain ⟨hq, hqid⟩ := List.mem_filter.mp hq
      obtain rfl := List.mem_singleton.mp hq
      obtain ⟨m', hm', rfl⟩ := hplace p hp
      have hconv : m'.conversation = c.id := by
        rw [← hm.conversation]
        exact (of_decide_eq_true hpid).trans (of_decide_eq_true hqid).symm
      obtain ⟨t, ht, hle, -⟩ := (h.consistent c hc).stamped
      exact (hle m' (mem_messagesOf.mpr ⟨hm', hconv⟩)).trans_lt (hm.later t ht)

/-- Every command keeps the history rising. -/
theorem Effect.rising (h : s.Kept) (hrising : Rising (s.messages.map place))
    (he : Effect cmd s t) : Rising (t.messages.map place) := by
  have hread : ∀ (d : Conversation) (u : ℕ), (s.messages.map (·.markRead d.id u
      (d.clearedAt u))).map place = s.messages.map place := by
    intro d u
    refine places_map (fun m => ?_) s.messages
    unfold Message.markRead
    split <;> rfl
  cases he with
  | users | created | cleared | changed => exact hrising
  | @started d m senderId hfresh hm =>
    exact Rising.added (h.added hfresh) hrising rfl
      (List.mem_append_right _ (List.mem_singleton_self d)) hm hm.unused
  | @sent d m senderId hd hm =>
    exact Rising.added h (hread d senderId ▸ hrising) (hread d senderId) hd hm hm.unused
  | @read d userId hd => exact hread d userId ▸ hrising
  | @written f hf =>
    have heq : (s.messages.map f).map place = s.messages.map place := by
      refine places_map (fun m => ?_) s.messages
      unfold place
      rw [(hf m).conversation, (hf m).createdAt, (hf m).id]
    exact heq ▸ hrising
  | purged id _ => exact hrising.sublist (List.filter_sublist.map _)
  | preserved userId action =>
    have heq : (s.messages.map (·.preserve userId (action.snapshot userId))).map place =
        s.messages.map place := by
      refine places_map (fun m => ?_) s.messages
      unfold Message.preserve
      dsimp only
      split <;> rfl
    exact heq ▸ hrising

end Store

end Ascendance.Messaging
