import Ascendance.Models.Social.Schema
import Mathlib.Data.List.Sort

/-!
# Conversations and their messages

Every mutation of a conversation begins by acquiring its document, so the transactions
on one conversation follow one another; each of them is one step on the stored
conversations and messages. The clock of a transaction is whatever its server reads.
-/

namespace Ascendance.Messaging

open Ascendance.Social (AppError)

/-- How far a message has come. -/
inductive MessageStatus
  | sent
  | delivered
  | read
  deriving DecidableEq, Repr

/-- The public id that stands for an account that is not available: its own one after a ban,
one made from its key after a deletion. -/
inductive SnapshotId
  | user (publicId : ℕ)
  | departed (lifecycleKey : ℕ)
  deriving DecidableEq, Repr

/-- A message of a conversation. -/
structure Message where
  id : ℕ
  conversation : ℕ
  sender : Option ℕ
  senderSnapshot : Option SnapshotId
  body : String
  status : MessageStatus
  readBy : List ℕ
  createdAt : ℕ
  deriving DecidableEq, Repr

/-- The key under which a conversation of its participants is found. -/
inductive ParticipantHash
  /-- The identifiers in order, joined. -/
  | participants (ids : List ℕ)
  | departed (conversation lifecycleKey : ℕ)
  deriving DecidableEq, Repr

/-- A conversation with what it keeps for each participant. -/
structure Conversation where
  id : ℕ
  participantHash : ParticipantHash
  participants : List ℕ
  departedParticipants : List SnapshotId
  lastMessage : Option ℕ
  lastMessageAt : Option ℕ
  unreadCounts : ℕ → Option ℕ
  hiddenFor : List ℕ
  clearedAt : ℕ → Option ℕ
  isLocked : Bool
  isGroup : Bool
  isClosed : Bool

/-- A user, by the flags that are read. -/
structure User where
  isAdmin : Bool
  isBanned : Bool
  deriving DecidableEq, Repr

/-- The users, the conversations and the messages. -/
structure Store where
  users : ℕ → Option User
  conversations : List Conversation
  messages : List Message

/-- The key of the participants, in whatever order they are given. -/
def buildParticipantHash (participantIds : List ℕ) : ParticipantHash :=
  .participants (participantIds.insertionSort (· ≤ ·))

/-- The message is later than a clear mark. -/
def Message.isAfter (clearedAt : Option ℕ) (m : Message) : Bool := clearedAt.all (· < m.createdAt)

/-- `markConversationMessagesAsRead`, of one message. -/
def Message.markRead (conversation reader : ℕ) (clearedAt : Option ℕ) (m : Message) : Message :=
  if m.conversation = conversation ∧ m.isAfter clearedAt = true ∧ m.sender ≠ some reader ∧
      reader ∉ m.readBy then
    { m with readBy := m.readBy ++ [reader], status := .read }
  else m

/-- `markConversationMessagesAsDelivered`, of one message. -/
def Message.markDelivered (conversation recipient : ℕ) (clearedAt : Option ℕ) (m : Message) :
    Message :=
  if m.conversation = conversation ∧ m.isAfter clearedAt = true ∧ m.sender ≠ some recipient ∧
      m.status = .sent then
    { m with status := .delivered }
  else m

/-- `updateMessage` of a body. -/
def Message.setBody (id : ℕ) (body : String) (m : Message) : Message :=
  if m.id = id then { m with body } else m

/-- What an account's purge makes of a message: a sender who left is not named, and who has read
it is forgotten. -/
def Message.preserve (userId : ℕ) (snapshot : SnapshotId) (m : Message) : Message :=
  let unsent := if m.sender = some userId ∨ m.senderSnapshot = some (.user userId) ∨
      m.senderSnapshot = some snapshot then
    { m with sender := none, senderSnapshot := some snapshot } else m
  { unsent with readBy := unsent.readBy.filter (· ≠ userId) }

/-- What an account's purge makes of a conversation. -/
def Conversation.preserve (userId : ℕ) (snapshot : SnapshotId) (c : Conversation) : Conversation :=
  if userId ∈ c.participants ∨ .user userId ∈ c.departedParticipants ∨
      snapshot ∈ c.departedParticipants then
    { c with
      participants := c.participants.filter (· ≠ userId)
      departedParticipants := c.departedParticipants.filter (fun d => d ≠ .user userId ∧
        d ≠ snapshot) ++ [snapshot]
      participantHash := .departed c.id userId
      unreadCounts := Function.update c.unreadCounts userId none
      isClosed := c.isClosed || !c.isGroup }
  else c

/-- The participant clears the history and hides the conversation. -/
def Conversation.clear (userId now : ℕ) (c : Conversation) : Conversation :=
  { c with
    hiddenFor := if userId ∈ c.hiddenFor then c.hiddenFor else c.hiddenFor ++ [userId]
    clearedAt := Function.update c.clearedAt userId (some (c.lastMessageAt.getD now))
    unreadCounts := Function.update c.unreadCounts userId (some 0) }

/-- `$inc` of the recipients' counters, after the sender's has been set. -/
def Conversation.countMessage (senderId : ℕ) (c : Conversation) : ℕ → Option ℕ := fun userId =>
  if userId = senderId then some 0
  else if userId ∈ c.participants then some ((c.unreadCounts userId).getD 0 + 1)
  else c.unreadCounts userId

/-- A message is the last one of its conversation, which nobody hides any more. -/
def Conversation.addMessage (m : Message) (senderId : ℕ) (c : Conversation) : Conversation :=
  { c with
    hiddenFor := []
    lastMessage := some m.id
    lastMessageAt := some m.createdAt
    unreadCounts := c.countMessage senderId }

/-- What is done with a conversation. -/
inductive Action
  | delete
  | lock
  | unlock
  | purge
  deriving DecidableEq, Repr

/-- What happens to an account. -/
inductive LifecycleAction
  | ban
  | delete
  deriving DecidableEq, Repr

/-- The public id that the account's messages bear afterwards. -/
def LifecycleAction.snapshot (userId : ℕ) : LifecycleAction → SnapshotId
  | .ban => .user userId
  | .delete => .departed userId

/-- What is left of the account. -/
def LifecycleAction.account (user : Option User) : LifecycleAction → Option User
  | .ban => user.map fun user => { user with isBanned := true }
  | .delete => none

/-- A message to send; `body` is what the checks of the text and the attachments leave. -/
structure SendRequest where
  senderId : ℕ
  conversationId : Option ℕ
  recipientId : Option ℕ
  body : Except AppError String

/-- The transactions. The identifiers of new documents and the readings of the clock are chosen
by the environment. -/
inductive Command
  | sendMessage (request : SendRequest) (newConversation newMessage createdNow now : ℕ)
  | markConversationRead (userId conversationId : ℕ)
  | getConversationMessages (userId conversationId page : ℕ)
  | editMessage (userId messageId : ℕ) (newBody : Except AppError String)
  | deleteMessage (userId messageId : ℕ)
  | manageConversation (userId conversationId : ℕ) (action : Action) (now : ℕ)
  /-- `InitiateConversation` makes a conversation, in a transaction of its own. -/
  | createConversation (userId recipientId newConversation now : ℕ)
  /-- Then, or at once, it shows the conversation to the user again. -/
  | showConversation (userId conversationId : ℕ)
  | purgeUser (userId : ℕ) (action : LifecycleAction)
  /-- An account is registered, or its flags change. -/
  | setUser (userId : ℕ) (user : User)

namespace Store

variable (s : Store)

/-- The conversation of an identifier. -/
def findConversation (id : ℕ) : Option Conversation := s.conversations.find? (·.id = id)

/-- `acquireForMutation`: every other transaction on the document waits or starts again. -/
def acquireForMutation (id : ℕ) : Except AppError Conversation :=
  (s.findConversation id).elim (.error (Social.Errors.notFound "Conversation")) .ok

/-- The conversation of a key. -/
def findByParticipantHash (hash : ParticipantHash) : Option Conversation :=
  s.conversations.find? (·.participantHash = hash)

/-- An update of one conversation. -/
def updateConversation (c : Conversation) : Store :=
  { s with conversations := s.conversations.map fun d => if d.id = c.id then c else d }

/-- Change each message. -/
def mapMessages (f : Message → Message) : Store := { s with messages := s.messages.map f }

/-- `create`, under the unique indexes of the collection. -/
def create (participantIds : List ℕ) (id now : ℕ) : Except AppError Conversation :=
  let hash := buildParticipantHash participantIds
  if s.conversations.any (fun d => d.id = id ∨ d.participantHash = hash) then
    .error (Social.Errors.duplicate "Conversation")
  else .ok ⟨id, hash, participantIds, [], none, some now,
    fun userId => if userId ∈ participantIds then some 0 else none, [], fun _ => none, false, false,
    false⟩

/-- The conversation that a message goes to, and whether it is a new one. -/
def resolveConversation (r : SendRequest) (newConversation createdNow : ℕ) :
    Except AppError (Conversation × Bool) :=
  match r.conversationId with
  | some id => (s.acquireForMutation id).map (·, false)
  | none =>
    match r.recipientId with
    | none => .error (Social.Errors.validation
      "Recipient is required when no conversation is provided")
    | some recipientId =>
      if recipientId = r.senderId then
        .error (Social.Errors.validation "You cannot start a conversation with yourself")
      else if (s.users recipientId).all (·.isBanned) then .error (Social.Errors.notFound "User")
      else
        let participantIds := [r.senderId, recipientId]
        match s.findByParticipantHash (buildParticipantHash participantIds) with
        | some existing => (s.acquireForMutation existing.id).map (·, false)
        | none => (s.create participantIds newConversation createdNow).map (·, true)

/-- What the sender is told instead of sending. -/
def checkSend (senderId : ℕ) (c : Conversation) : Except AppError Unit :=
  if senderId ∉ c.participants then
    .error (Social.Errors.forbidden "You do not have access to this conversation")
  else if c.isLocked then .error (Social.Errors.forbidden "Conversation locked by admin")
  else if c.isClosed then .error (Social.Errors.validation
    "This conversation is closed because a participant is unavailable")
  else .ok ()

/-- The message that is about to be sent. -/
def newMessage (senderId id now : ℕ) (body : String) (c : Conversation) : Message :=
  ⟨id, c.id, some senderId, none, body, .sent, [senderId], max now (c.lastMessageAt.getD 0 + 1)⟩

/-- The messages of a conversation are read, one is added, and the conversation says so. -/
def deliver (senderId : ℕ) (m : Message) (c : Conversation) (created : Bool) : Store :=
  let stored : Store :=
    if created then { s with conversations := s.conversations ++ [c] }
    else s.mapMessages (·.markRead c.id senderId (c.clearedAt senderId))
  { stored with messages := stored.messages ++ [m] }.updateConversation (c.addMessage m senderId)

/-- Send a message, into a new conversation where there is none. -/
def sendMessage (r : SendRequest) (newConversation messageId createdNow now : ℕ) :
    Except AppError Store :=
  match r.body with
  | .error e => .error e
  | .ok body =>
    match s.resolveConversation r newConversation createdNow with
    | .error e => .error e
    | .ok (c, created) =>
      match checkSend r.senderId c with
      | .error e => .error e
      | .ok () =>
        if s.messages.any (·.id = messageId) then .error (Social.Errors.duplicate "Message")
        else .ok (s.deliver r.senderId (newMessage r.senderId messageId now body c) c created)

/-- `acquireForMutation`, then `ensureConversationAccess`. -/
def access (userId conversationId : ℕ) : Except AppError Conversation :=
  match s.acquireForMutation conversationId with
  | .error e => .error e
  | .ok c =>
    if (s.users userId).isNone then .error (Social.Errors.notFound "User")
    else if userId ∉ c.participants then
      .error (Social.Errors.forbidden "You do not have access to this conversation")
    else if userId ∈ c.hiddenFor then .error (Social.Errors.notFound "Conversation")
    else .ok c

/-- The user has read the conversation. -/
def markConversationRead (userId conversationId : ℕ) : Except AppError Store :=
  (s.access userId conversationId).map fun c =>
    (s.mapMessages (·.markRead c.id userId (c.clearedAt userId))).updateConversation
      { c with unreadCounts := Function.update c.unreadCounts userId (some 0) }

/-- The store after the query; its first page marks messages as delivered. -/
def getConversationMessages (userId conversationId page : ℕ) : Except AppError Store :=
  (s.access userId conversationId).map fun c =>
    if page = 1 then s.mapMessages (·.markDelivered c.id userId (c.clearedAt userId)) else s

/-- The message, or an error where there is none. -/
def requireMessage (messageId : ℕ) : Except AppError Message :=
  (s.messages.find? (·.id = messageId)).elim (.error (Social.Errors.notFound "Message")) .ok

/-- `requireWritableMessageConversation`. -/
def checkWritable (userId : ℕ) (m : Message) : Except AppError Unit :=
  match s.acquireForMutation m.conversation with
  | .error e => .error e
  | .ok c =>
    if userId ∉ c.participants ∨ userId ∈ c.hiddenFor ∨ m.isAfter (c.clearedAt userId) = false then
      .error (Social.Errors.notFound "Message")
    else if c.isLocked then .error (Social.Errors.forbidden "Conversation locked by admin")
    else .ok ()

/-- Only the sender may go on. -/
def assertMessageOwnedByUser (userId : ℕ) (failureMessage : String) (m : Message) :
    Except AppError Unit :=
  if m.sender = some userId then .ok () else .error (Social.Errors.forbidden failureMessage)

/-- The message is writable, then it is the user's, then the text is looked at. -/
def editMessage (userId messageId : ℕ) (newBody : Except AppError String) :
    Except AppError Store := do
  let m ← s.requireMessage messageId
  s.checkWritable userId m
  assertMessageOwnedByUser userId "You can only edit your own messages" m
  let body ← newBody
  return s.mapMessages (·.setBody messageId body)

/-- The message is the user's, then it is writable. -/
def deleteMessage (userId messageId : ℕ) : Except AppError Store := do
  let m ← s.requireMessage messageId
  assertMessageOwnedByUser userId "You can only delete your own messages" m
  s.checkWritable userId m
  return s.mapMessages (·.setBody messageId "message deleted by user")

/-- `purge` of a conversation, with its messages. -/
def purge (id : ℕ) : Store :=
  { s with
    conversations := s.conversations.filter (·.id ≠ id)
    messages := s.messages.filter (·.conversation ≠ id) }

/-- Delete, lock, unlock or purge a conversation. -/
def manageConversation (userId conversationId : ℕ) (action : Action) (now : ℕ) :
    Except AppError Store :=
  match s.users userId with
  | none => .error (Social.Errors.forbidden "Account unavailable")
  | some user =>
    if user.isBanned then .error (Social.Errors.forbidden "Account unavailable")
    else
      match s.acquireForMutation conversationId with
      | .error e => .error e
      | .ok c =>
        if action = .delete then
          if userId ∉ c.participants then
            .error (Social.Errors.forbidden "You do not have access to this conversation")
          else if c.isLocked then .error (Social.Errors.forbidden "Conversation locked by admin")
          else .ok (s.updateConversation (c.clear userId now))
        else if !user.isAdmin then .error (Social.Errors.forbidden "Admin privileges required")
        else if action = .purge then .ok (s.purge c.id)
        else .ok (s.updateConversation { c with isLocked := action = .lock })

/-- Open a conversation with another user. -/
def createConversation (userId recipientId newConversation now : ℕ) : Except AppError Store :=
  if userId = recipientId then
    .error (Social.Errors.validation "You cannot start a conversation with yourself")
  else
    (s.create [userId, recipientId] newConversation now).map fun c =>
      { s with conversations := s.conversations ++ [c] }

/-- The user hides the conversation no longer. -/
def showConversation (userId conversationId : ℕ) : Except AppError Store :=
  (s.acquireForMutation conversationId).map fun c =>
    s.updateConversation { c with hiddenFor := c.hiddenFor.filter (· ≠ userId) }

/-- The part of `purgeUser` about conversations, and the account itself. -/
def purgeUser (userId : ℕ) (action : LifecycleAction) : Store where
  users := Function.update s.users userId (action.account (s.users userId))
  conversations := s.conversations.map (·.preserve userId (action.snapshot userId))
  messages := s.messages.map (·.preserve userId (action.snapshot userId))

/-- Execute a command. -/
def execute : Command → Except AppError Store
  | .sendMessage request newConversation newMessage createdNow now =>
    s.sendMessage request newConversation newMessage createdNow now
  | .markConversationRead userId conversationId => s.markConversationRead userId conversationId
  | .getConversationMessages userId conversationId page =>
    s.getConversationMessages userId conversationId page
  | .editMessage userId messageId newBody => s.editMessage userId messageId newBody
  | .deleteMessage userId messageId => s.deleteMessage userId messageId
  | .manageConversation userId conversationId action now =>
    s.manageConversation userId conversationId action now
  | .createConversation userId recipientId newConversation now =>
    s.createConversation userId recipientId newConversation now
  | .showConversation userId conversationId => s.showConversation userId conversationId
  | .purgeUser userId action => .ok (s.purgeUser userId action)
  | .setUser userId user => .ok { s with users := Function.update s.users userId (some user) }

/-- No users, conversations or messages. -/
def initial : Store := ⟨fun _ => none, [], []⟩

/-- A transaction that throws leaves the store as it was. -/
def step (c : Command) : Store := (s.execute c).toOption.getD s

end Store

end Ascendance.Messaging
