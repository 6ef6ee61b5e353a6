/-
# Messages as narrows ask about them (`zerver/models`, `zerver/lib/narrow.py`)

Beside the tables of message access a narrow asks about the sender of a message, its topic, its
attachments and reactions, about the flags of its row for a user, and about topics that users
have muted or followed.  A query is a list of messages and of conditions on them, with the truth
values of SQL.
-/
import GrowTeam.Server.Events
import GrowTeam.Chat.Moves
import Mathlib.Data.List.Sort

namespace GrowTeam.Narrow

open Chat

/-- `UserMessage.flags`, as far as narrows ask about them. -/
structure Flags where
  read : Bool
  starred : Bool
  mentioned : Bool
  streamWildcardMentioned : Bool
  topicWildcardMentioned : Bool
  groupMentioned : Bool
  hasAlertWord : Bool
  isPrivate : Bool

/-- `UserTopic.VisibilityPolicy`. -/
inductive VisibilityPolicy where
  | inherit
  | muted
  | unmuted
  | followed
  deriving DecidableEq

structure UserTopic where
  userProfileId : ℕ
  streamId : ℕ
  recipientId : ℕ
  topicName : String
  visibilityPolicy : VisibilityPolicy

/-- `DirectMessageGroup`, with the ids of its users for their digest. -/
structure DirectMessageGroup where
  userIds : List ℕ
  recipientId : ℕ

/-- The other columns and tables, given by id.  Of the users of the system realm some are
cross-realm bots, which take part in direct messages of every realm; all others receive messages
of their realm. -/
structure Store extends Database where
  topicName : ℕ → String
  dateSent : ℕ → ℤ
  senderId : ℕ → ℕ
  hasAttachment : ℕ → Bool
  hasImage : ℕ → Bool
  hasLink : ℕ → Bool
  /-- The ids of the messages that have a reaction. -/
  reactions : List ℕ
  /-- The flags of the row of a user for a message. -/
  flags : ℕ → ℕ → Flags
  userTopics : List UserTopic
  /-- The recipients of the channels that a user is in and has muted. -/
  mutedRecipientIds : ℕ → List ℕ
  directMessageGroups : List DirectMessageGroup
  streamName : ℕ → String
  email : ℕ → String
  realmDeactivated : ℕ → Bool
  crossRealmBots : List ℕ
  firstVisibleMessageId : ℕ → ℕ
  received : ∀ um ∈ userMessages, ∀ user ∈ users.rows, user.id = um.userProfileId →
    ∀ message ∈ messages.rows, message.id = um.messageId →
      message.realmId = user.realmId ∨ user.id ∈ crossRealmBots

/-- What Python and PostgreSQL do with texts. -/
structure TextEngine where
  /-- Case is ignored by comparing the upper case. -/
  upper : String → String
  isdigit : String → Bool
  int : String → Option ℤ
  escapeHtml : String → String
  prepForLikeQuery : String → String
  /-- `text ILIKE pattern`, of the pattern and the text. -/
  ilike : String → String → Bool
  usingPgroonga : Bool
  /-- The index of a message that has not been indexed is NULL. -/
  searchPgroonga : String → Message → Option Bool
  searchTsvector : String → Message → Option Bool

/-- A condition on a message, with the truth values of SQL. -/
abbrev Condition := Message → Option Bool

/-- A condition that is not NULL. -/
def Condition.of (p : Message → Bool) : Condition := fun message => some (p message)

def Condition.maybeNegate (c : Condition) (negated : Bool) : Condition :=
  if negated then fun message => (c message).map (!·) else c

/-- A `Select` of messages.  The column of flags is there when the messages are joined with the
rows of a user. -/
structure Query where
  source : List Message
  hasFlags : Bool
  wheres : List Condition
  usesFlags : Bool

namespace Query

/-- `query.where` -/
def filtered (q : Query) (c : Condition) : Query := { q with wheres := q.wheres ++ [c] }

/-- `query.where`, of a condition on flags. -/
def filteredByFlags (q : Query) (c : Condition) : Query :=
  { q.filtered c with usesFlags := true }

/-- The messages that all conditions are true of. -/
def rows (q : Query) : List Message :=
  q.source.filter fun message => q.wheres.all fun c => c message == some true

end Query

/-- Errors of a fetch. -/
inductive NarrowError where
  | badNarrowOperator (desc : String)
  | assertionError
  | typeError
  | valueError
  | databaseError
  deriving DecidableEq

/-- The query is executed; one that asks for a column that is not there fails. -/
def Query.execute (q : Query) : Except NarrowError (List Message) :=
  if q.usesFlags && !q.hasFlags then .error .databaseError else .ok q.rows

/-! ## Lookups -/

/-- `str.strip`. -/
def strip (text : String) : String :=
  String.ofList ((text.toList.dropWhile Server.isSpace).reverse.dropWhile Server.isSpace).reverse

namespace Store

variable (engine : TextEngine) (s : Store)

/-- `get_stream`, by the name in a realm. -/
def getStream (name : String) (realmId : ℕ) : Option Stream :=
  s.streams.rows.find? fun stream => stream.realmId = realmId &&
    engine.upper (s.streamName stream.id) = engine.upper (strip name)

def isCrossRealmBotEmail (email : String) : Bool :=
  s.crossRealmBots.any fun id => engine.upper (s.email id) = engine.upper email

def getUserIncludingCrossRealm (email : String) (realmId : ℕ) : Option UserProfile :=
  if s.isCrossRealmBotEmail engine email then
    s.users.rows.find? fun user => engine.upper (s.email user.id) = engine.upper (strip email)
  else
    s.users.rows.find? fun user => user.realmId = realmId &&
      engine.upper (s.email user.id) = engine.upper (strip email)

def getUserByIdInRealmIncludingCrossRealm (id : ℤ) (realmId : ℕ) : Option UserProfile :=
  s.users.rows.find? fun user => (user.id : ℤ) = id &&
    (user.realmId = realmId || decide (user.id ∈ s.crossRealmBots))

/-- `get_stream_by_id_in_realm`, of an id that a client gave. -/
def getStreamByIdInRealm (id : ℤ) (realmId : ℕ) : Option Stream :=
  s.streams.rows.find? fun stream => (stream.id : ℤ) = id && stream.realmId = realmId

/-- `get_public_streams_queryset`. -/
def publicStreams (realmId : ℕ) : List Stream :=
  s.streams.rows.filter fun stream =>
    stream.realmId = realmId && !stream.inviteOnly && stream.historyPublicToSubscribers

/-- `get_web_public_streams_queryset`. -/
def webPublicStreams (realmId : ℕ) : List Stream :=
  s.streams.rows.filter fun stream => stream.realmId = realmId && stream.isWebPublic &&
    !stream.inviteOnly && stream.historyPublicToSubscribers

/-- `get_archived_streams_queryset`. -/
def archivedStreams (realmId : ℕ) : List Stream :=
  s.streams.rows.filter fun stream => stream.realmId = realmId && stream.deactivated

end Store

/-! # The terms of a narrow (`NarrowBuilder`) -/

open Chat

/-- An operand, as a client gives it. -/
inductive Operand where
  | text (text : String)
  | number (number : ℤ)
  | numbers (numbers : List ℤ)
  deriving DecidableEq

/-- `str(operand)`. -/
def Operand.str : Operand → String
  | .text value => value
  | .number value => toString value
  | .numbers values => "[" ++ ", ".intercalate (values.map toString) ++ "]"

structure NarrowParameter where
  operator : String
  operand : Operand
  negated : Bool

def channelOperators : List String := ["channel", "stream"]

def channelsOperators : List String := ["channels", "streams"]

structure NarrowBuilder where
  userProfile : Option UserProfile
  realmId : ℕ
  isWebPublicQuery : Bool
  isChannelNarrow : Bool
  isDmNarrow : Bool

/-- What the terms of a narrow are added to. -/
abbrev Narrowed := NarrowBuilder × Query

/-- `Message.MAX_POSSIBLE_MESSAGE_ID`. -/
def maxPossibleMessageId : ℤ := 2147483647

/-- The user of a query that is not web-public. -/
def NarrowBuilder.requireUser (n : NarrowBuilder) : Except NarrowError UserProfile :=
  match n.isWebPublicQuery, n.userProfile with
  | false, some user => .ok user
  | _, _ => .error .assertionError

def NarrowBuilder.checkNotBothChannelAndDmNarrow (n : NarrowBuilder)
    (negated isDmNarrow isChannelNarrow : Bool) : Except NarrowError NarrowBuilder :=
  if negated then .ok n
  else if (n.isChannelNarrow || isChannelNarrow) && (n.isDmNarrow || isDmNarrow) then
    .error (.badNarrowOperator "No message can be both a channel message and direct message")
  else .ok { n with
    isChannelNarrow := n.isChannelNarrow || isChannelNarrow
    isDmNarrow := n.isDmNarrow || isDmNarrow }

section Terms

variable (engine : TextEngine) (s : Store)

/-- `topic_match_sa`. -/
def topicMatch (topicName : String) (message : Message) : Bool :=
  engine.upper (s.topicName message.id) = engine.upper topicName &&
    message.recipient.type = .stream

/-- `get_resolved_topic_condition_sa`. -/
def resolvedTopic (message : Message) : Bool :=
  resolvedTopicPrefix.toList.isPrefixOf (s.topicName message.id).toList &&
    message.recipient.type = .stream

/-- `get_followed_topic_condition_sa`. -/
def followedTopic (userId : ℕ) (message : Message) : Bool :=
  s.userTopics.any fun topic => topic.userProfileId = userId &&
    topic.visibilityPolicy = .followed &&
    engine.upper topic.topicName = engine.upper (s.topicName message.id) &&
    message.recipient.type = .stream && topic.recipientId = message.recipient.id

/-- The topics of a user with one of some policies. -/
def topicRows (userId : ℕ) (policies : List VisibilityPolicy) : List UserTopic :=
  s.userTopics.filter fun topic =>
    topic.userProfileId = userId && decide (topic.visibilityPolicy ∈ policies)

/-- The message is in one of the topics. -/
def inTopics (topics : List UserTopic) (message : Message) : Bool :=
  topics.any fun topic => message.recipient.id = topic.recipientId &&
    topicMatch engine s topic.topicName message

def excludeStreamAndTopicMutes (user : UserProfile) (streamId : Option ℕ) :
    List (Message → Bool) :=
  let excluded := (topicRows s user.id [.muted]).filter fun topic =>
    streamId.all (topic.streamId = ·)
  let conditions := if excluded.isEmpty then [] else [fun message =>
    !inTopics engine s excluded message]
  let muted := s.mutedRecipientIds user.id
  if streamId.isSome || muted.isEmpty then conditions
  else
    let included := (topicRows s user.id [.followed, .unmuted]).filter fun topic =>
      decide (topic.recipientId ∈ muted)
    conditions ++ [fun message =>
      !(decide (message.recipient.id ∈ muted) && !inTopics engine s included message)]

def getStreamByNarrowOperandAccessUnchecked (operand : Operand) (realmId : ℕ) : Option Stream :=
  match operand with
  | .text name => s.getStream engine name realmId
  | .number id => s.getStreamByIdInRealm id realmId
  | .numbers _ => none

/-- `exclude_muting_conditions`: of the first channel that is named, or of all. -/
def excludeMutingConditions (user : UserProfile) (narrow : List NarrowParameter) :
    List (Message → Bool) :=
  let term := narrow.find? fun term => decide (term.operator ∈ channelOperators)
  let channel := term.bind fun term =>
    getStreamByNarrowOperandAccessUnchecked engine s term.operand user.realmId
  excludeStreamAndTopicMutes engine s user (channel.map (·.id))

/-- The user that an operand names. -/
def namedUser (operand : Operand) (realmId : ℕ) : Except NarrowError UserProfile :=
  let user := match operand with
    | .text email => s.getUserIncludingCrossRealm engine email realmId
    | .number id => s.getUserByIdInRealmIncludingCrossRealm id realmId
    | .numbers _ => none
  match user with
  | some user => .ok user
  | none => .error (.badNarrowOperator ("unknown user " ++ operand.str))

/-! ## Conditions -/

variable (n : NarrowBuilder) (q : Query)

/-- The end of most methods: one more condition. -/
def addCondition (negated : Bool) (p : Message → Bool) : Narrowed :=
  (n, q.filtered ((Condition.of p).maybeNegate negated))

/-- The same, of a condition on the flags of the user's row. -/
def addFlagCondition (negated : Bool) (p : Message → Bool) : Narrowed :=
  (n, q.filteredByFlags ((Condition.of p).maybeNegate negated))

def byHas (operand : Operand) (negated : Bool) : Except NarrowError Narrowed :=
  match operand with
  | .text "reaction" =>
    .ok (addCondition n q negated fun message => decide (message.id ∈ s.reactions))
  | .text "attachment" => .ok (addCondition n q negated fun message => s.hasAttachment message.id)
  | .text "image" => .ok (addCondition n q negated fun message => s.hasImage message.id)
  | .text "link" => .ok (addCondition n q negated fun message => s.hasLink message.id)
  | .text operand => .error (.badNarrowOperator ("unknown 'has' operand " ++ operand))
  | _ => .error .typeError

def byIn (operand : Operand) (negated : Bool) : Except NarrowError Narrowed := do
  let user ← n.requireUser
  match operand with
  | .text "home" =>
    let conditions := excludeMutingConditions engine s user [⟨"in", .text "home", false⟩]
    .ok (addCondition n q negated fun message => conditions.all (· message))
  | .text "all" => .ok (n, q)
  | .text operand => .error (.badNarrowOperator ("unknown 'in' operand " ++ operand))
  | _ => .error .typeError

/-- The condition on the flags that `is:` asks for. -/
def flagOperand : String → Option (Flags → Bool)
  | "starred" => some (·.starred)
  | "unread" => some (!·.read)
  | "mentioned" => some fun flags => flags.mentioned || flags.streamWildcardMentioned ||
      flags.topicWildcardMentioned || flags.groupMentioned
  | "alerted" => some (·.hasAlertWord)
  | _ => none

/-- `is:dm` is a narrow of direct messages, and its negation one of channels. -/
def byIsDm (user : UserProfile) (negated : Bool) : Except NarrowError Narrowed := do
  let n ← n.checkNotBothChannelAndDmNarrow false (!negated) negated
  return addFlagCondition n q negated fun message => (s.flags user.id message.id).isPrivate

def byIs (operand : Operand) (negated : Bool) : Except NarrowError Narrowed :=
  match operand with
  | .text "resolved" => .ok (addCondition n q negated (resolvedTopic s))
  | .text operand => do
    let user ← n.requireUser
    if operand ∈ ["dm", "private"] then byIsDm s n q user negated
    else
      match flagOperand operand with
      | some p =>
        return addFlagCondition n q negated (fun message => p (s.flags user.id message.id))
      | none =>
        if operand = "followed" then
          return addCondition n q negated (followedTopic engine s user.id)
        else if operand = "muted" then
          let conditions := excludeMutingConditions engine s user [⟨"is", .text "muted", false⟩]
          -- Without mutes there are no conditions, and no message is muted.
          return addCondition n q negated (fun message => !conditions.all (· message))
        else .error (.badNarrowOperator ("unknown 'is' operand " ++ operand))
  | _ => .error .typeError

def byChannel (operand : Operand) (negated : Bool) : Except NarrowError Narrowed := do
  let n ← n.checkNotBothChannelAndDmNarrow negated false true
  match getStreamByNarrowOperandAccessUnchecked engine s operand n.realmId with
  | none => .error (.badNarrowOperator ("unknown channel " ++ operand.str))
  | some channel =>
    if n.isWebPublicQuery && !channel.isWebPublic then
      .error (.badNarrowOperator ("unknown web-public channel " ++ operand.str))
    else return addCondition n q negated fun message => message.recipient.id = channel.recipientId

/-- The channels that `channels:` selects. -/
def channelsOperand (realmId : ℕ) : Operand → Except NarrowError (List Stream)
  | .text "public" => .ok (s.publicStreams realmId)
  | .text "web-public" => .ok (s.webPublicStreams realmId)
  | .text "archived" => .ok (s.archivedStreams realmId)
  | .text operand => .error (.badNarrowOperator ("unknown channels operand " ++ operand))
  | _ => .error .typeError

def byChannels (operand : Operand) (negated : Bool) : Except NarrowError Narrowed := do
  let n ← n.checkNotBothChannelAndDmNarrow negated false true
  let streams ← channelsOperand s n.realmId operand
  return addCondition n q negated fun message =>
    decide (message.recipient.id ∈ streams.map (·.recipientId))

def byTopic (operand : Operand) (negated : Bool) : Except NarrowError Narrowed := do
  let n ← n.checkNotBothChannelAndDmNarrow negated false true
  match operand with
  | .text topicName => return addCondition n q negated (topicMatch engine s topicName)
  | _ => .error .typeError

def bySender (operand : Operand) (negated : Bool) : Except NarrowError Narrowed := do
  let sender ← namedUser engine s operand n.realmId
  return addCondition n q negated fun message => s.senderId message.id = sender.id

/-- The id that an operand of `id:` is. -/
def idOperand : Operand → Except NarrowError ℤ
  | .number id =>
    if id < 0 || maxPossibleMessageId < id then .error (.badNarrowOperator "Invalid message ID")
    else .ok id
  | .text text =>
    if !engine.isdigit text then .error (.badNarrowOperator "Invalid message ID")
    else
      match engine.int text with
      | none => .error .valueError
      | some id =>
        if maxPossibleMessageId < id then .error (.badNarrowOperator "Invalid message ID")
        else .ok id
  | .numbers _ => .error (.badNarrowOperator "Invalid message ID")

def byId (operand : Operand) (negated : Bool) : Except NarrowError Narrowed := do
  let id ← idOperand engine operand
  return addCondition n q negated fun message => (message.id : ℤ) = id

/-- The users of an operand of `dm:`, of which one may be unknown. -/
def dmUsers (realmId : ℕ) : Operand → Option (List UserProfile)
  | .text emails => (emails.splitOn ",").mapM fun email =>
      s.getUserIncludingCrossRealm engine email realmId
  | .numbers ids => ids.mapM fun id => s.getUserByIdInRealmIncludingCrossRealm id realmId
  | .number _ => none

/-- `validate_recipient_user_profiles`, with deactivated users allowed. -/
def validRecipients (users : List UserProfile) (sender : UserProfile) : Bool :=
  let realmIds := ((sender :: users).filter fun user =>
    !s.isCrossRealmBotEmail engine (s.email user.id)).map (·.realmId)
  users.all (fun user => !s.realmDeactivated user.realmId) && realmIds.dedup.length ≤ 1

/-- The group of users and sender, which are kept without repetition. -/
def findDirectMessageGroup (users : List UserProfile) (sender : UserProfile) :
    Option DirectMessageGroup :=
  let userIds := ((sender :: users).map (·.id)).dedup.insertionSort (· ≤ ·)
  s.directMessageGroups.find? fun group => group.userIds = userIds

def byDm (operand : Operand) (negated : Bool) : Except NarrowError Narrowed := do
  let sender ← n.requireUser
  let n ← n.checkNotBothChannelAndDmNarrow negated true false
  match dmUsers engine s n.realmId operand with
  | none => .error (.badNarrowOperator ("unknown user in " ++ operand.str))
  | some [] => return addCondition n q negated fun _ => false
  | some users =>
    if !validRecipients engine s users sender then
      .error (.badNarrowOperator ("unknown user in " ++ operand.str))
    else
      match findDirectMessageGroup s users sender with
      | none => return addCondition n q negated fun _ => false
      | some group => return addCondition n q negated fun message =>
          message.recipient.id = group.recipientId

def getDirectMessageGroupRecipients (user otherUser : UserProfile) : List ℕ :=
  let recipientsOf := fun (id : ℕ) => (s.subscriptions.filter fun sub =>
    sub.userProfileId = id && s.directMessageGroups.any (·.recipientId = sub.recipientId)).map
      (·.recipientId)
  (recipientsOf user.id).filter fun id => decide (id ∈ recipientsOf otherUser.id)

/-- The condition of direct messages that include another user. -/
def includesUser (user otherUser : UserProfile) (realmId : ℕ) (message : Message) : Bool :=
  (s.flags user.id message.id).isPrivate && message.realmId = realmId &&
    decide (message.recipient.id ∈ getDirectMessageGroupRecipients s user otherUser)

def byDmIncluding (operand : Operand) (negated : Bool) : Except NarrowError Narrowed := do
  let user ← n.requireUser
  let n ← n.checkNotBothChannelAndDmNarrow negated true false
  let other ← namedUser engine s operand n.realmId
  if other.id = user.id then
    return addFlagCondition n q negated fun message => (s.flags user.id message.id).isPrivate
  else return addFlagCondition n q negated (includesUser s user other n.realmId)

def byMention (operand : Operand) (negated : Bool) : Except NarrowError Narrowed :=
  match n.userProfile with
  | none => .error .assertionError
  | some _ => do
    let target ← namedUser engine s operand n.realmId
    return addCondition n q negated fun message =>
      s.hasUserMessage target.id message.id && (s.flags target.id message.id).mentioned

def byGroupPmWith (operand : Operand) (negated : Bool) : Except NarrowError Narrowed := do
  let user ← n.requireUser
  let n ← n.checkNotBothChannelAndDmNarrow negated true false
  let other ← namedUser engine s operand n.realmId
  return addFlagCondition n q negated (includesUser s user other n.realmId)

/-- The quoted parts that `re.findall(r'"[^"]+"|\S+', operand)` finds, without their quotes. -/
def quotedTerms : ℕ → List Char → List (List Char)
  | 0, _ => []
  | _ + 1, [] => []
  | fuel + 1, c :: rest =>
    let quoted := rest.takeWhile (· ≠ '"')
    if c = '"' ∧ quoted ≠ [] ∧ quoted.length < rest.length then
      quoted :: quotedTerms fuel (rest.drop (quoted.length + 1))
    else if Server.isSpace c then quotedTerms fuel rest
    else
      let word := c :: rest.takeWhile (!Server.isSpace ·)
      let others := quotedTerms fuel (rest.dropWhile (!Server.isSpace ·))
      -- A word of one quotation mark begins and ends with it.
      if c = '"' ∧ word.getLast? = some '"' then word.tail.dropLast :: others else others

def bySearch (operand : String) (negated : Bool) : Narrowed :=
  if engine.usingPgroonga then
    (n, q.filtered (Condition.maybeNegate
      (engine.searchPgroonga (engine.escapeHtml operand)) negated))
  else
    let terms := quotedTerms operand.toList.length operand.toList
    let q := terms.foldl (fun q term =>
      let pattern := "%" ++ engine.prepForLikeQuery (String.ofList term) ++ "%"
      q.filtered ((Condition.of fun message => engine.ilike pattern message.content ||
        (engine.ilike pattern (s.topicName message.id) &&
          message.recipient.type = .stream)).maybeNegate negated)) q
    (n, q.filtered (Condition.maybeNegate (engine.searchTsvector operand) negated))

def addTerm (term : NarrowParameter) : Except NarrowError Narrowed :=
  match term.operator with
  | "has" => byHas s n q term.operand term.negated
  | "in" => byIn engine s n q term.operand term.negated
  | "is" => byIs engine s n q term.operand term.negated
  | "channel" | "stream" => byChannel engine s n q term.operand term.negated
  | "channels" | "streams" => byChannels s n q term.operand term.negated
  | "topic" => byTopic engine s n q term.operand term.negated
  | "sender" => bySender engine s n q term.operand term.negated
  | "near" => .ok (n, q)
  | "id" => byId engine n q term.operand term.negated
  | "search" =>
    match term.operand with
    | .text operand => .ok (bySearch engine s n q operand term.negated)
    | _ => .error .typeError
  | "dm" | "pm-with" | "pm_with" => byDm engine s n q term.operand term.negated
  | "dm-including" => byDmIncluding engine s n q term.operand term.negated
  | "mentions" => byMention engine s n q term.operand term.negated
  | "group-pm-with" | "group_pm_with" => byGroupPmWith engine s n q term.operand term.negated
  | operator => .error (.badNarrowOperator ("unknown operator " ++ operator))

end Terms

end GrowTeam.Narrow
