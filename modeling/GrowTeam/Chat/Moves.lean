/-
# Moving messages (`zerver/actions/message_edit.py`)

`check_update_message` decides whether an edit request is allowed and carries it out.  A request
may change the content of a message, its topic, or its channel, and with a propagate mode the
topic and channel of other messages of the topic.  Here is what it does about topics and
channels; of a change of the content only the checks it adds are left, as parameters.

Parameters stand for Python's `strip`, for the way the database compares topics (`upper`), for
the checks of strings and contents, and for the clock.
-/
import GrowTeam.Chat.Bulk

namespace GrowTeam.Chat

inductive PropagateMode where
  | changeOne
  | changeLater
  | changeAll
  deriving DecidableEq

/-- The arguments of `check_update_message`. -/
structure EditRequest where
  messageId : ℕ
  streamId : Option ℕ
  topicName : Option String
  propagateMode : PropagateMode
  content : Option String
  prevContentSha256 : Option String

inductive EditError where
  | jsonable (message : String)
  | previousMessageContentMismatched
  | messagesNotAllowedInEmptyTopic
  | topicsNotAllowed
  | messageMove (firstMessageIdAllowedToMove totalMessagesInTopic totalMessagesAllowedToMove : ℕ)
  | indexError
  | streamDoesNotExist

/-- `if not c: raise e` -/
def check (c : Bool) (e : EditError) : Except EditError Unit := if c then .ok () else .error e

/-- `if c: x` -/
def whenever (c : Bool) (x : Except EditError Unit) : Except EditError Unit :=
  if c then x else .ok ()

/-- A lookup, with the error of one that finds nothing. -/
def found {α : Type} (x : Option α) (e : EditError) : Except EditError α :=
  match x with
  | some a => .ok a
  | none => .error e

def resolvedTopicPrefix : String := "✔ "

/-- `Message.EMPTY_TOPIC_FALLBACK_NAME`. -/
def emptyTopicFallbackName : String := "general chat"

def messageEditTimeLimitBufferSeconds : ℕ := 20

variable (topicName : String)

def maybeRenameGeneralChatToEmptyTopic : String :=
  if topicName = emptyTopicFallbackName then "" else topicName

def truncateTopic : String :=
  if 60 < topicName.toList.length then
    String.ofList (topicName.toList.take (60 - "...".toList.length)) ++ "..."
  else topicName

/-- The topic is marked as resolved. -/
def isResolved : Bool :=
  resolvedTopicPrefix.toList.isPrefixOf topicName.toList

/-- `topic_resolved`: the topic is the old one with the mark in front. -/
def topicResolved (oldTopicName topicName : String) : Bool :=
  isResolved (truncateTopic topicName) && !isResolved oldTopicName &&
    topicName.toList.drop resolvedTopicPrefix.toList.length = oldTopicName.toList

/-- `topic_unresolved`: the topic is the old one without any marks and spaces in front. -/
def topicUnresolved (oldTopicName topicName : String) : Bool :=
  isResolved oldTopicName && !isResolved (truncateTopic topicName) &&
    oldTopicName.toList.dropWhile (resolvedTopicPrefix.toList.contains ·) =
      (truncateTopic topicName).toList

/-- `StreamMessageEditRequest`, as far as it is about topics and channels. -/
structure StreamMessageEditRequest where
  isTopicEdited : Bool
  targetTopicName : String
  isStreamEdited : Bool
  topicResolved : Bool
  topicUnresolved : Bool
  origTopicName : String
  origStream : Stream
  propagateMode : PropagateMode
  targetStream : Stream
  isMessageMoved : Bool

/-- The request resolves or unresolves a topic. -/
def StreamMessageEditRequest.isResolution (r : StreamMessageEditRequest) : Bool :=
  r.topicResolved || r.topicUnresolved

/-- What an edit leaves: the tables of messages and their receivers, and the topics. -/
structure Edited where
  tables : Tables
  topicName : ℕ → String

/-- The time limit, if there is one, is over for a message. -/
def isPast (limitSeconds : Option ℕ) (now dateSent : ℤ) : Bool :=
  match limitSeconds with
  | some seconds =>
    decide (((seconds + messageEditTimeLimitBufferSeconds : ℕ) : ℤ) * 1000000 < now - dateSent)
  | none => false

section Checks

variable (strip upper : String → String) (invalidCharacter : String → Option ℕ)
  (sha256 : String → String) (isWidgetMessage : ℕ → Bool)
  (validateUserCanEditMessage : UserProfile → Message → Except EditError Unit)
  (checkContent : UserProfile → Message → String → Except EditError Unit)

variable (b : Board)

/-- The topic that is asked for, unless it is the one there is. -/
def requestedTopicName (messageId : ℕ) (topicName : Option String) : Option String :=
  match topicName with
  | some topicName =>
    let topicName := maybeRenameGeneralChatToEmptyTopic (strip topicName)
    if topicName = b.topicName messageId then none else some topicName
  | none => none

def checkStreamTopic (topicName : String) : Except EditError Unit :=
  match invalidCharacter topicName with
  | some position =>
    .error (.jsonable ("Invalid character in topic, at position " ++ toString position ++ "!"))
  | none => .ok ()

def validateMessageEditPayload (message : Message) (streamId : Option ℕ)
    (topicName : Option String) (propagateMode : PropagateMode) (content : Option String)
    (prevContentSha256 : Option String) : Except EditError Unit := do
  check (topicName.isSome || content.isSome || streamId.isSome) (.jsonable "Nothing to change")
  check (message.recipient.type = .stream || streamId.isNone)
    (.jsonable "Direct messages cannot be moved to channels.")
  check (message.recipient.type = .stream || topicName.isNone)
    (.jsonable "Direct messages cannot have topics.")
  check (propagateMode = .changeOne || topicName.isSome || streamId.isSome)
    (.jsonable "Invalid propagate_mode without topic edit")
  check (topicName ≠ some "✔" && topicName ≠ some (resolvedTopicPrefix ++ emptyTopicFallbackName))
    (.jsonable "General chat cannot be marked as resolved")
  topicName.forM (checkStreamTopic invalidCharacter)
  check (streamId.isNone || content.isNone)
    (.jsonable "Cannot change message content while changing channel")
  check (content.isNone || !isWidgetMessage message.id) (.jsonable "Widgets cannot be edited.")
  check (prevContentSha256.isNone || prevContentSha256 = some (sha256 message.content))
    .previousMessageContentMismatched

variable (user : UserProfile)

/-- The channel that is asked for, or the one the message is in. -/
def requestedStream (origStream : Stream) (streamId : Option ℕ) : Option Stream :=
  match streamId with
  | some streamId => b.accessStreamById user streamId
  | none => some origStream

/-- The topic that the message is to have. -/
def targetTopicName (message : Message) (topicName : Option String) : String :=
  match topicName with
  | some topicName => truncateTopic topicName
  | none => b.topicName message.id

/-- `build_message_edit_request`, of a message to a channel. -/
def buildMessageEditRequest (message : Message) (user : UserProfile)
    (propagateMode : PropagateMode) (streamId : Option ℕ) (topicName : Option String) :
    Except EditError StreamMessageEditRequest := do
  let oldTopicName := b.topicName message.id
  let targetTopicName := targetTopicName b message topicName
  let origStream ← found (b.getStreamByIdInRealm message.recipient.typeId message.realmId)
    .streamDoesNotExist
  let targetStream ← found (requestedStream b user origStream streamId)
    (.jsonable "Invalid channel ID")
  let topicsPolicy := b.getStreamTopicsPolicy message.realmId targetStream
  let targetTopicEmpty := targetTopicName = "(no topic)" || targetTopicName = ""
  check (!(targetTopicEmpty && (topicName.isSome || streamId.isSome) &&
    topicsPolicy = .disableEmptyTopic)) .messagesNotAllowedInEmptyTopic
  check (!(topicsPolicy = .emptyTopicOnly && !targetTopicEmpty)) .topicsNotAllowed
  return {
    isTopicEdited := topicName.isSome
    targetTopicName := targetTopicName
    isStreamEdited := streamId.isSome
    topicResolved := topicName.any (topicResolved oldTopicName)
    topicUnresolved := topicName.any (topicUnresolved oldTopicName)
    origTopicName := oldTopicName
    origStream := origStream
    propagateMode := propagateMode
    targetStream := targetStream
    isMessageMoved := streamId.isSome || topicName.isSome }

def checkStreamTopicEditPermissions (message : Message)
    (request : StreamMessageEditRequest) (now : ℤ) : Except EditError Unit :=
  if request.isResolution then
    check (b.canResolveTopics user request.origStream request.targetStream)
      (.jsonable "You don't have permission to resolve topics in this channel.")
  else do
    check (b.canEditTopic user request.origStream request.targetStream)
      (.jsonable "You don't have permission to edit this message")
    check (user.isModerator || !isPast
        (b.realm user.realmId).moveMessagesWithinStreamLimitSeconds now (b.dateSent message.id))
      (.jsonable "The time limit for editing this message's topic has passed.")

variable (t : Tables)

def messagesForTopic (topics : ℕ → String) (realmId recipientId : ℕ)
    (topicName : String) : List Message :=
  t.messages.rows.filter fun message =>
    message.realmId = realmId && message.recipient.id = recipientId &&
      upper (topics message.id) = upper topicName && message.recipient.type = .stream

/-- The stricter of the limits that apply. -/
def messageMoveDeadlineSeconds (settings : RealmSettings) (topicName : Option String)
    (streamId : Option ℕ) : Option ℕ :=
  let topicLimit := if topicName.isSome then settings.moveMessagesWithinStreamLimitSeconds else none
  let streamLimit :=
    if streamId.isSome then settings.moveMessagesBetweenStreamsLimitSeconds else none
  match topicLimit, streamLimit with
  | some topicLimit, some streamLimit =>
    some (min (topicLimit + messageEditTimeLimitBufferSeconds)
      (streamLimit + messageEditTimeLimitBufferSeconds))
  | some topicLimit, none => some (topicLimit + messageEditTimeLimitBufferSeconds)
  | none, some streamLimit => some (streamLimit + messageEditTimeLimitBufferSeconds)
  | none, none => none

/-- The messages of the topic to move: the whole topic, or what the user has received of it. -/
def messagesRequestedToMove (stream : Stream) (message : Message) : List ℕ :=
  if b.canAccessStreamHistory user stream then
    (messagesForTopic upper b.toTables b.topicName message.realmId message.recipient.id
      (b.topicName message.id)).map (·.id)
  else
    (b.userMessages.filter fun um => um.userProfileId = user.id &&
      b.messages.rows.any fun other => other.id = um.messageId &&
        other.recipient.id = message.recipient.id &&
        upper (b.topicName other.id) = upper (b.topicName message.id) &&
        other.recipient.type = .stream).map (·.messageId)

def checkTimeLimitForChangeAllPropagateMode (message : Message)
    (topicName : Option String) (streamId : Option ℕ) (now : ℤ) : Except EditError Unit :=
  match messageMoveDeadlineSeconds (b.realm user.realmId) topicName streamId with
  | none => .ok ()
  | some deadlineSeconds =>
    match b.getStreamByIdInRealm message.recipient.typeId user.realmId with
    | none => .error .streamDoesNotExist
    | some stream =>
      let requested := messagesRequestedToMove upper b user stream message
      let allowed := b.messages.rows.filter fun other => decide (other.id ∈ requested) &&
        decide (now - (deadlineSeconds : ℤ) * 1000000 < b.dateSent other.id)
      if requested.length = allowed.length then .ok ()
      else
        match allowed with
        | first :: _ => .error (.messageMove first.id requested.length allowed.length)
        | [] => .error .indexError

def checkForCanCreateTopicGroupViolation (stream : Stream)
    (topicName : String) : Except EditError Unit :=
  check (b.canCreateTopic user stream ||
      !(messagesForTopic upper b.toTables b.topicName stream.realmId stream.recipientId
        topicName).isEmpty)
    (.jsonable "You do not have permission to create new topics in this channel.")

/-- The checks of `check_update_message` about a move. -/
def checkMove (message : Message)
    (request : StreamMessageEditRequest) (topicName : Option String) (streamId : Option ℕ)
    (now : ℤ) : Except EditError Unit := do
  whenever request.isStreamEdited do
    check (b.canMoveMessagesOutOfChannel user request.origStream)
      (.jsonable "You don't have permission to move this message")
    check (b.canSendMessage user request.targetStream)
      (.jsonable "You do not have permission to post in this channel.")
    check (user.isModerator || !isPast
        (b.realm user.realmId).moveMessagesBetweenStreamsLimitSeconds now (b.dateSent message.id))
      (.jsonable "The time limit for editing this message's channel has passed")
  whenever (request.propagateMode = .changeAll && !user.isModerator && request.isMessageMoved &&
      !request.isResolution)
    (checkTimeLimitForChangeAllPropagateMode upper b user message topicName streamId now)
  whenever (request.isMessageMoved && !request.isResolution)
    (checkForCanCreateTopicGroupViolation upper b user request.targetStream request.targetTopicName)

/-! ## The move -/

/-- The query of `update_messages_for_topic_edit`: the other messages to move. -/
def messagesForTopicEdit (topics : ℕ → String) (user : UserProfile)
    (message : Message) (request : StreamMessageEditRequest) : List Message :=
  let messages := messagesForTopic upper t topics request.origStream.realmId
    request.origStream.recipientId request.origTopicName
  let messages :=
    match request.propagateMode with
    | .changeOne => []
    | .changeAll => messages.filter fun other => other.id ≠ message.id
    | .changeLater => messages.filter fun other => message.id < other.id
  if request.isStreamEdited then
    t.bulkAccessStreamMessagesQuery user messages request.origStream
  else messages

variable (request : StreamMessageEditRequest)

/-- The message rows after a move to another channel.  Where the new channel does not share its
history its subscribers get the messages; those of the old channel who are not among them lose
them. -/
def userMessagesAfterMove (changedMessageIds : List ℕ) : List UserMessage :=
  let newStreamCurrentUsers := (t.subscriptions.filter fun sub =>
    sub.recipientId = request.targetStream.recipientId && sub.active).map (·.userProfileId)
  let usersLosingUserMessages := ((t.subscriptions.filter fun sub =>
    sub.recipientId = request.origStream.recipientId).map (·.userProfileId)).filter
      fun userId => !newStreamCurrentUsers.contains userId
  let gained :=
    if request.targetStream.isHistoryPublicToSubscribers then []
    else newStreamCurrentUsers.flatMap fun userId =>
      (changedMessageIds.filter fun id => !t.hasUserMessage userId id).map (⟨userId, ·⟩)
  (t.userMessages ++ gained).filter fun um =>
    !(usersLosingUserMessages.contains um.userProfileId && changedMessageIds.contains um.messageId)

/-- `recipient` and `subject` are set for the messages of a list. -/
def setPlace (ids : List ℕ) (e : Edited) : Edited where
  tables := if request.isStreamEdited then
      { e.tables with
        messages := e.tables.messages.update (fun message => decide (message.id ∈ ids))
          (fun message => { message with
            recipient := ⟨request.targetStream.recipientId, .stream, request.targetStream.id⟩ })
          fun _ => rfl }
    else e.tables
  topicName := fun id =>
    if request.isTopicEdited ∧ id ∈ ids then request.targetTopicName else e.topicName id

/-- The tables between the two lookups of a move. -/
def tablesAfterMove (changedMessageIds : List ℕ) : Tables :=
  if request.isStreamEdited then
    { t with userMessages := userMessagesAfterMove t request changedMessageIds }
  else t

/-- `do_update_message`, as far as it moves messages.  The other messages are looked up once to
count them and again, after the edited message and the message rows were changed, to move them. -/
def doUpdateMessage (message : Message) (request : StreamMessageEditRequest) : Edited :=
  let changedMessageIds := message.id ::
    (messagesForTopicEdit upper b.toTables b.topicName user message request).map (·.id)
  let e := setPlace request [message.id]
    ⟨tablesAfterMove b.toTables request changedMessageIds, b.topicName⟩
  setPlace request
    ((messagesForTopicEdit upper e.tables e.topicName user message request).map (·.id)) e

/-- `access_message`, of a message to change. -/
def accessEditedMessage (messageId : ℕ) : Except EditError Message :=
  match b.accessMessage user messageId true with
  | .ok message => .ok message
  | .error _ => .error (.jsonable "Invalid message(s)")

/-- What `check_update_message` does with a message to a channel. -/
def checkUpdateStreamMessage (message : Message) (r : EditRequest)
    (topicName : Option String) (now : ℤ) : Except EditError Edited := do
  let request ← buildMessageEditRequest b message user r.propagateMode r.streamId topicName
  whenever request.isTopicEdited (checkStreamTopicEditPermissions b user message request now)
  r.content.forM (checkContent user message)
  checkMove upper b user message request topicName r.streamId now
  return doUpdateMessage upper b user message request

/-- `check_update_message`.  A direct message keeps its place. -/
def checkUpdateMessage (r : EditRequest) (now : ℤ) : Except EditError Edited := do
  let message ← accessEditedMessage b user r.messageId
  whenever r.content.isSome (validateUserCanEditMessage user message)
  let topicName := requestedTopicName strip b message.id r.topicName
  validateMessageEditPayload invalidCharacter sha256 isWidgetMessage message r.streamId topicName
    r.propagateMode r.content r.prevContentSha256
  if message.recipient.type ≠ .stream then do
    r.content.forM (checkContent user message)
    return ⟨b.toTables, b.topicName⟩
  else checkUpdateStreamMessage upper checkContent b user message r topicName now

end Checks

end GrowTeam.Chat
