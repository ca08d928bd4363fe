import Ascendance.Models.Messaging.Conversation

/-!
# What a transaction does

A transaction that succeeds reads nothing but its own conversation and does one of a few
things to it: every result about conversations is a case analysis over these.
-/

namespace Ascendance.Messaging

open Ascendance.Social (AppError)

/-- The message stays what it is for its readers: where it is, who sent it and when, and who has
read it. -/
structure Message.Same (m m' : Message) : Prop where
  id : m'.id = m.id
  conversation : m'.conversation = m.conversation
  sender : m'.sender = m.sender
  senderSnapshot : m'.senderSnapshot = m.senderSnapshot
  readBy : m'.readBy = m.readBy
  createdAt : m'.createdAt = m.createdAt

/-- The conversation differs in who hides it and in whether it is locked. -/
structure Conversation.Same (c c' : Conversation) : Prop where
  id : c'.id = c.id
  participants : c'.participants = c.participants
  lastMessageAt : c'.lastMessageAt = c.lastMessageAt
  unreadCounts : c'.unreadCounts = c.unreadCounts
  clearedAt : c'.clearedAt = c.clearedAt

/-- A conversation without messages, as it is created. -/
structure Conversation.Fresh (s : Store) (c : Conversation) : Prop where
  unused : ∀ d ∈ s.conversations, d.id ≠ c.id
  started : c.lastMessageAt.isSome = true
  read : ∀ u ∈ c.participants, c.unreadCounts u = some 0
  shown : ∀ u, c.clearedAt u = none

/-- A message that a participant adds to a conversation. -/
structure Message.Added (s : Store) (c : Conversation) (m : Message) (senderId : ℕ) : Prop where
  participant : senderId ∈ c.participants
  unused : ∀ m' ∈ s.messages, m'.id ≠ m.id
  conversation : m.conversation = c.id
  sender : m.sender = some senderId
  senderSnapshot : m.senderSnapshot = none
  readBy : m.readBy = [senderId]
  later : ∀ t, c.lastMessageAt = some t → t < m.createdAt

/-- The user clears the history of the conversation. -/
def Command.Clears (cmd : Command) (userId conversationId : ℕ) : Prop :=
  ∃ now, cmd = .manageConversation userId conversationId .delete now

/-- An administrator purges the conversation. -/
def Command.Purges (cmd : Command) (conversationId : ℕ) : Prop :=
  ∃ userId now, cmd = .manageConversation userId conversationId .purge now

namespace Store

variable {s t : Store} {cmd : Command}

/-- A new message in a conversation whose messages its sender has read. -/
def addMessage (s : Store) (c : Conversation) (m : Message) (senderId : ℕ) : Store :=
  { s with messages := s.messages ++ [m] }.updateConversation (c.addMessage m senderId)

/-- The participant reads the messages of a conversation. -/
def readMessages (s : Store) (c : Conversation) (userId : ℕ) : Store :=
  (s.mapMessages (·.markRead c.id userId (c.clearedAt userId))).updateConversation
    { c with unreadCounts := Function.update c.unreadCounts userId (some 0) }

/-- What a transaction that succeeds does. -/
inductive Effect (cmd : Command) (s : Store) : Store → Prop
  | users (users : ℕ → Option User) : Effect cmd s { s with users }
  | created {c : Conversation} (hc : c.Fresh s) :
    Effect cmd s { s with conversations := s.conversations ++ [c] }
  | started {c : Conversation} {m : Message} {senderId : ℕ} (hc : c.Fresh s)
    (hm : m.Added s c senderId) :
    Effect cmd s (addMessage { s with conversations := s.conversations ++ [c] } c m senderId)
  | sent {c : Conversation} {m : Message} {senderId : ℕ} (hc : c ∈ s.conversations)
    (hm : m.Added s c senderId) : Effect cmd s (((s.mapMessages
      (·.markRead c.id senderId (c.clearedAt senderId))).addMessage c m senderId))
  | read {c : Conversation} {userId : ℕ} (hc : c ∈ s.conversations) :
    Effect cmd s (s.readMessages c userId)
  | written {f : Message → Message} (hf : ∀ m : Message, m.Same (f m)) :
    Effect cmd s (s.mapMessages f)
  | cleared {c : Conversation} {userId now : ℕ} (hc : c ∈ s.conversations)
    (hcmd : cmd.Clears userId c.id) :
    Effect cmd s (s.updateConversation (c.clear userId now))
  | changed {c c' : Conversation} (hc : c ∈ s.conversations) (hsame : c.Same c') :
    Effect cmd s (s.updateConversation c')
  | purged (id : ℕ) (hcmd : cmd.Purges id) : Effect cmd s (s.purge id)
  | preserved (userId : ℕ) (action : LifecycleAction) : Effect cmd s (s.purgeUser userId action)

/-- An acquired conversation is stored. -/
private theorem acquire_mem {id : ℕ} {c : Conversation} (h : s.acquireForMutation id = .ok c) :
    c ∈ s.conversations ∧ c.id = id := by
  unfold acquireForMutation findConversation at h
  cases hfind : s.conversations.find? (·.id = id) with
  | none =>
    rw [hfind] at h
    cases h
  | some d =>
    rw [hfind] at h
    obtain rfl : d = c := Except.ok.inj h
    exact ⟨List.mem_of_find?_eq_some hfind, by simpa using List.find?_some hfind⟩

/-- A conversation that a user may see is stored. -/
private theorem access_mem {userId id : ℕ} {c : Conversation} (h : s.access userId id = .ok c) :
    c ∈ s.conversations := by
  unfold access at h
  split at h
  · cases h
  · next hacquire =>
    split at h
    · cases h
    · split at h
      · cases h
      · split at h
        · cases h
        · exact Except.ok.inj h ▸ (acquire_mem hacquire).1

/-- A created conversation is fresh. -/
private theorem create_fresh {participantIds : List ℕ} {id now : ℕ} {c : Conversation}
    (h : s.create participantIds id now = .ok c) : c.Fresh s := by
  unfold create at h
  dsimp only at h
  split at h
  · cases h
  · next hany =>
    obtain rfl := Except.ok.inj h
    refine ⟨fun d hd heq => ?_, rfl, fun u hu => if_pos hu, fun _ => rfl⟩
    exact hany (List.any_eq_true.mpr ⟨d, hd, by simpa using Or.inl heq⟩)

/-- The conversation of a message is one that there was, or it is a new one. -/
theorem resolve_cases {r : SendRequest} {id now : ℕ} {c : Conversation} {created : Bool}
    (h : s.resolveConversation r id now = .ok (c, created)) :
    (created = false ∧ c ∈ s.conversations) ∨ (created = true ∧ c.Fresh s) := by
  have hacquired : ∀ {j : ℕ}, (s.acquireForMutation j).map (·, false) = .ok (c, created) →
      created = false ∧ c ∈ s.conversations := by
    intro j hj
    cases hacquire : s.acquireForMutation j with
    | error e =>
      rw [hacquire] at hj
      cases hj
    | ok d =>
      rw [hacquire] at hj
      obtain ⟨rfl, rfl⟩ := Prod.mk.inj (Except.ok.inj hj)
      exact ⟨rfl, (acquire_mem hacquire).1⟩
  unfold resolveConversation at h
  split at h
  · exact .inl (hacquired h)
  · split at h
    · cases h
    · split at h
      · cases h
      · split at h
        · cases h
        · dsimp only at h
          split at h
          · exact .inl (hacquired h)
          · right
            revert h
            generalize hcreate : s.create _ id now = result
            intro h
            cases result with
            | error e => cases h
            | ok d =>
              obtain ⟨rfl, rfl⟩ := Prod.mk.inj (Except.ok.inj h)
              exact ⟨rfl, create_fresh hcreate⟩

/-- A new message is one that may be added. -/
private theorem newMessage_added {senderId id now : ℕ} {body : String} {c : Conversation}
    (hsender : senderId ∈ c.participants) (hunused : ∀ m ∈ s.messages, m.id ≠ id) :
    (newMessage senderId id now body c).Added s c senderId where
  participant := hsender
  unused := hunused
  conversation := rfl
  sender := rfl
  senderSnapshot := rfl
  readBy := rfl
  later t ht := by
    change t < max now (c.lastMessageAt.getD 0 + 1)
    rw [ht]
    exact Nat.lt_of_lt_of_le (Nat.lt_succ_self t) (Nat.le_max_right _ _)

/-- A message that is sent is in the conversation that it went to. -/
theorem sendMessage_cases {r : SendRequest} {newConversation messageId createdNow now : ℕ}
    (h : s.sendMessage r newConversation messageId createdNow now = .ok t) :
    ∃ (c : Conversation) (m : Message), m.Added s c r.senderId ∧ m.id = messageId ∧
      ((c ∈ s.conversations ∧ t = (s.mapMessages
          (·.markRead c.id r.senderId (c.clearedAt r.senderId))).addMessage c m r.senderId) ∨
        (c.Fresh s ∧ t = addMessage { s with conversations := s.conversations ++ [c] } c m
          r.senderId)) := by
  unfold sendMessage at h
  split at h
  · cases h
  · next body _ =>
    split at h
    · cases h
    · next c created hresolve =>
      split at h
      · cases h
      · next hcheck =>
        have hsender : r.senderId ∈ c.participants := by
          unfold checkSend at hcheck
          split at hcheck
          · cases hcheck
          · next hmem => exact Classical.not_not.mp hmem
        split at h
        · cases h
        · next hany =>
          have hunused : ∀ m ∈ s.messages, m.id ≠ messageId := by
            intro m hm heq
            exact hany (List.any_eq_true.mpr ⟨m, hm, by simpa using heq⟩)
          obtain rfl := Except.ok.inj h
          refine ⟨c, newMessage r.senderId messageId now body c,
            newMessage_added hsender hunused, rfl, ?_⟩
          rcases resolve_cases hresolve with ⟨rfl, hc⟩ | ⟨rfl, hc⟩
          · exact .inl ⟨hc, rfl⟩
          · exact .inr ⟨hc, rfl⟩

/-- Sending a message has one of the listed effects. -/
private theorem sendMessage_effect {r : SendRequest} {newConversation messageId createdNow now : ℕ}
    (h : s.sendMessage r newConversation messageId createdNow now = .ok t) : Effect cmd s t := by
  obtain ⟨c, m, hm, -, ⟨hc, rfl⟩ | ⟨hc, rfl⟩⟩ := sendMessage_cases h
  · exact .sent hc hm
  · exact .started hc hm

private theorem setBody_same (id : ℕ) (body : String) (m : Message) :
    m.Same (m.setBody id body) := by
  unfold Message.setBody
  split <;> exact ⟨rfl, rfl, rfl, rfl, rfl, rfl⟩

private theorem markDelivered_same (conversation recipient : ℕ) (clearedAt : Option ℕ)
    (m : Message) :
    m.Same (m.markDelivered conversation recipient clearedAt) := by
  unfold Message.markDelivered
  split <;> exact ⟨rfl, rfl, rfl, rfl, rfl, rfl⟩

/-- A step of a transaction that succeeds has succeeded. -/
theorem bind_ok {α β : Type} {x : Except AppError α} {f : α → Except AppError β} {b : β}
    (h : x >>= f = .ok b) : ∃ a, x = .ok a ∧ f a = .ok b := by
  cases x with
  | error e => cases h
  | ok a => exact ⟨a, rfl, h⟩

private theorem map_ok {α β : Type} {x : Except AppError α} {f : α → β} {b : β}
    (h : x.map f = .ok b) : ∃ a, x = .ok a ∧ f a = b := by
  cases x with
  | error e => cases h
  | ok a => exact ⟨a, rfl, Except.ok.inj h⟩

/-- Editing a message has one of the listed effects. -/
private theorem editMessage_effect {userId messageId : ℕ} {newBody : Except AppError String}
    (h : s.editMessage userId messageId newBody = .ok t) : Effect cmd s t := by
  unfold editMessage at h
  obtain ⟨m, -, h⟩ := bind_ok h
  obtain ⟨-, -, h⟩ := bind_ok h
  obtain ⟨-, -, h⟩ := bind_ok h
  obtain ⟨body, -, h⟩ := bind_ok h
  obtain rfl := Except.ok.inj h
  exact .written (setBody_same messageId body)

/-- Deleting a message has one of the listed effects. -/
private theorem deleteMessage_effect {userId messageId : ℕ}
    (h : s.deleteMessage userId messageId = .ok t) : Effect cmd s t := by
  unfold deleteMessage at h
  obtain ⟨m, -, h⟩ := bind_ok h
  obtain ⟨-, -, h⟩ := bind_ok h
  obtain ⟨-, -, h⟩ := bind_ok h
  obtain rfl := Except.ok.inj h
  exact .written (setBody_same messageId _)

/-- Managing a conversation has one of the listed effects. -/
private theorem manageConversation_effect {userId conversationId now : ℕ} {action : Action}
    (h : s.manageConversation userId conversationId action now = .ok t) :
    Effect (.manageConversation userId conversationId action now) s t := by
  unfold manageConversation at h
  split at h
  · cases h
  · split at h
    · cases h
    · split at h
      · cases h
      · next c hacquire =>
        obtain ⟨hc, rfl⟩ := acquire_mem hacquire
        split at h
        · next haction =>
          subst haction
          split at h
          · cases h
          · split at h
            · cases h
            · exact Except.ok.inj h ▸ .cleared hc ⟨now, rfl⟩
        · split at h
          · cases h
          · split at h
            · next haction =>
              subst haction
              exact Except.ok.inj h ▸ .purged c.id ⟨userId, now, rfl⟩
            · exact Except.ok.inj h ▸ .changed hc ⟨rfl, rfl, rfl, rfl, rfl⟩

/-- A clearing that succeeds is one of a conversation that there is. -/
theorem clear_cases {userId conversationId now : ℕ}
    (h : s.execute (.manageConversation userId conversationId .delete now) = .ok t) :
    ∃ c ∈ s.conversations, c.id = conversationId ∧
      t = s.updateConversation (c.clear userId now) := by
  change s.manageConversation userId conversationId .delete now = .ok t at h
  unfold manageConversation at h
  split at h
  · cases h
  · split at h
    · cases h
    · split at h
      · cases h
      · next c hacquire =>
        obtain ⟨hc, hid⟩ := acquire_mem hacquire
        rw [if_pos rfl] at h
        split at h
        · cases h
        · split at h
          · cases h
          · exact ⟨c, hc, hid, (Except.ok.inj h).symm⟩

/-- Creating a conversation has one of the listed effects. -/
private theorem createConversation_effect {userId recipientId newConversation now : ℕ}
    (h : s.createConversation userId recipientId newConversation now = .ok t) : Effect cmd s t := by
  unfold createConversation at h
  split at h
  · cases h
  · obtain ⟨c, hcreate, rfl⟩ := map_ok h
    exact .created (create_fresh hcreate)

/-- Every transaction has one of the effects. -/
theorem execute_effect (h : s.execute cmd = .ok t) : Effect cmd s t := by
  cases cmd with
  | sendMessage => exact sendMessage_effect h
  | markConversationRead userId conversationId =>
    obtain ⟨c, haccess, rfl⟩ := map_ok h
    exact .read (access_mem haccess)
  | getConversationMessages userId conversationId page =>
    obtain ⟨c, -, rfl⟩ := map_ok h
    split
    · exact .written (markDelivered_same _ _ _)
    · exact .users s.users
  | editMessage => exact editMessage_effect h
  | deleteMessage => exact deleteMessage_effect h
  | manageConversation => exact manageConversation_effect h
  | createConversation => exact createConversation_effect h
  | showConversation userId conversationId =>
    obtain ⟨c, hacquire, rfl⟩ := map_ok h
    exact .changed (acquire_mem hacquire).1 ⟨rfl, rfl, rfl, rfl, rfl⟩
  | purgeUser userId action => exact Except.ok.inj h ▸ .preserved userId action
  | setUser userId user => exact Except.ok.inj h ▸ .users _

/-- A transaction that throws changes nothing. -/
theorem step_effect (s : Store) (cmd : Command) : Effect cmd s (s.step cmd) := by
  unfold step
  cases h : s.execute cmd with
  | error e => exact .users s.users
  | ok t => exact execute_effect h

end Store

end Ascendance.Messaging
