/-
# Access to many messages at once (`zerver/lib/message.py`)

The rules of message access are written down three times: for one message
(`has_message_access`), for a list of messages, with the rows they need fetched once
(`bulk_access_messages`), and as a query over the messages of a channel
(`bulk_access_stream_messages_query`).  The list and the query always select the same
messages.  They are the ones the single check lets through, but for a change of messages in
an archived channel: the list is not told that it is about a change (`bulk_agrees_iff`).
-/
import GrowTeam.Chat.Access

namespace GrowTeam.Chat

open List Except

open Server (Result)

namespace Tables

variable (t : Tables)

/-- `get_messages_with_usermessage_rows_for_user`. -/
def messagesWithUserMessageRows (userId : ℕ) (messageIds : List ℕ) : List ℕ :=
  (t.userMessages.filter fun um =>
    um.userProfileId = userId && decide (um.messageId ∈ messageIds)).map (·.messageId)

/-- `get_subscribed_stream_recipient_ids_for_user`: a recipient of the channel type is the
recipient of a channel. -/
def subscribedStreamRecipientIds (userId : ℕ) : List ℕ :=
  (t.subscriptions.filter fun sub =>
    sub.userProfileId = userId && sub.active &&
      t.streams.rows.any (·.recipientId = sub.recipientId)).map (·.recipientId)

/-- The channels of the messages, to be looked up by their recipients. -/
def messageStreams (messages : List Message) : List Stream :=
  t.streams.rows.filter fun stream => decide (stream.id ∈
    (messages.filter (·.recipient.type = .stream)).map (·.recipient.typeId))

/-- The loop of `bulk_access_messages`: the first check that fails fails it. -/
def filterByAccess (access : Message → Result Bool) : List Message → Result (List Message)
  | [] => .ok []
  | message :: messages => do
    let accessible ← access message
    let filteredMessages ← filterByAccess access messages
    return if accessible then message :: filteredMessages else filteredMessages

/-- `bulk_access_messages`.  It takes `is_modifying_message` and passes on `False`. -/
def bulkAccessMessages (user : UserProfile) (messages : List Message)
    (stream : Option Stream) (_isModifyingMessage : Bool) : Result (List Message) :=
  let userMessageSet := t.messagesWithUserMessageRows user.id (messages.map (·.id))
  let streams := t.messageStreams messages
  let subscribedRecipientIds := t.subscribedStreamRecipientIds user.id
  filterByAccess (fun message =>
    t.hasMessageAccess user message (decide (message.id ∈ userMessageSet))
      (stream <|> streams.find? (·.recipientId = message.recipient.id))
      (some (decide (message.recipient.id ∈ subscribedRecipientIds))) false) messages

def bulkAccessStreamMessagesQuery (user : UserProfile) (messages : List Message)
    (stream : Stream) : List Message :=
  let messages := messages.filter fun message =>
    message.realmId = user.realmId && message.recipient.id = stream.recipientId
  if stream.isPublic ∧ user.canAccessPublicStreams then messages
  else if ¬t.hasChannelContentAccessHelper stream user none then []
  else if ¬stream.isHistoryPublicToSubscribers then
    messages.filter fun message => t.hasUserMessage user.id message.id
  else messages

end Tables

/-! ## The tables as the database keeps them -/

/-- Each channel has a recipient of its own, and a message to a channel is a message of the
channel's realm. -/
structure Database extends Tables where
  recipients : ∀ s ∈ streams.rows, ∀ s' ∈ streams.rows, s.recipientId = s'.recipientId → s = s'
  channels : ∀ message ∈ messages.rows, message.recipient.type = .stream →
    ∃ s ∈ streams.rows, s.id = message.recipient.typeId ∧
      s.recipientId = message.recipient.id ∧ s.realmId = message.realmId

/-- The message was sent to the channel. -/
def Message.SentTo (message : Message) (stream : Stream) : Prop :=
  message.recipient.type = .stream ∧ message.recipient.typeId = stream.id

namespace Database

/-- The messages of a list that the single check lets through. -/
def accessible (d : Database) (user : UserProfile) (messages : List Message)
    (isModifyingMessage : Bool) : List Message :=
  messages.filter fun message => decide (d.hasMessageAccess user message
    (d.hasUserMessage user.id message.id) none none isModifyingMessage = .ok true)

/-- The list, with or without its channel, and the query select what the single check does. -/
def AccessAgrees (d : Database) (user : UserProfile) (messages : List Message)
    (isModifyingMessage : Bool) : Prop :=
  d.bulkAccessMessages user messages none isModifyingMessage =
      .ok (d.accessible user messages isModifyingMessage) ∧
    ∀ stream ∈ d.streams.rows, (∀ message ∈ messages, message.SentTo stream) →
      d.bulkAccessMessages user messages (some stream) isModifyingMessage =
          .ok (d.accessible user messages isModifyingMessage) ∧
        d.bulkAccessStreamMessagesQuery user messages stream =
          d.accessible user messages isModifyingMessage

/-- What the user sees of the channel: all of it, or what was received. -/
def Sees (d : Database) (user : UserProfile) (stream : Stream) (message : Message) : Prop :=
  stream.realmId = user.realmId ∧
    ((stream.isPublic = true ∧ user.canAccessPublicStreams = true) ∨
      (d.hasChannelContentAccessHelper stream user none = true ∧
        (stream.isHistoryPublicToSubscribers = true ∨ d.hasUserMessage user.id message.id = true)))

/-! ## The rows that were fetched once -/

section Fetched

variable {d : Database} {user : UserProfile} {messages : List Message} {message : Message}
  {stream : Stream}

theorem filterByAccess_eq {access : Message → Result Bool} {p : Message → Bool}
    (h : ∀ message ∈ messages, access message = .ok (p message)) :
    Tables.filterByAccess access messages = .ok (messages.filter p) := by
  induction messages with
  | nil => rfl
  | cons message messages ih =>
    have hrest := ih fun m hm => h m (mem_cons_of_mem _ hm)
    unfold Tables.filterByAccess
    rw [h message mem_cons_self, hrest, filter_cons]
    rfl

theorem mem_messagesWithUserMessageRows (hm : message ∈ messages) :
    decide (message.id ∈ d.messagesWithUserMessageRows user.id (messages.map (·.id))) =
      d.hasUserMessage user.id message.id := by
  rw [Bool.eq_iff_iff, decide_eq_true_eq]
  unfold Tables.messagesWithUserMessageRows Tables.hasUserMessage
  rw [mem_map, any_eq_true]
  constructor
  · rintro ⟨um, hum, hid⟩
    obtain ⟨hrow, hmine⟩ := mem_filter.mp hum
    rw [Bool.and_eq_true] at hmine
    exact ⟨um, hrow, by simp [hmine.1, hid]⟩
  · rintro ⟨um, hrow, hmine⟩
    rw [Bool.and_eq_true, decide_eq_true_eq, decide_eq_true_eq] at hmine
    refine ⟨um, mem_filter.mpr ⟨hrow, ?_⟩, hmine.2⟩
    rw [Bool.and_eq_true, decide_eq_true_eq, decide_eq_true_eq, hmine.2]
    exact ⟨hmine.1, mem_map_of_mem hm⟩

theorem mem_subscribedStreamRecipientIds (hs : stream ∈ d.streams.rows) :
    decide (stream.recipientId ∈ d.subscribedStreamRecipientIds user.id) =
      d.isSubscribed user.id stream.recipientId := by
  have hchannel : d.streams.rows.any (·.recipientId = stream.recipientId) = true :=
    any_eq_true.mpr ⟨stream, hs, by simp⟩
  rw [Bool.eq_iff_iff, decide_eq_true_eq]
  unfold Tables.subscribedStreamRecipientIds Tables.isSubscribed
  rw [mem_map, any_eq_true]
  constructor
  · rintro ⟨sub, hsub, hid⟩
    obtain ⟨hrow, hmine⟩ := mem_filter.mp hsub
    rw [Bool.and_eq_true] at hmine
    exact ⟨sub, hrow, by simp [hmine.1, hid]⟩
  · rintro ⟨sub, hrow, hmine⟩
    rw [Bool.and_eq_true, decide_eq_true_eq] at hmine
    refine ⟨sub, mem_filter.mpr ⟨hrow, ?_⟩, hmine.2⟩
    rw [Bool.and_eq_true, hmine.2]
    exact ⟨hmine.1, hchannel⟩

/-- The channel of a message is the one its recipient belongs to. -/
theorem sentTo_iff (hm : message ∈ d.messages.rows) (hs : stream ∈ d.streams.rows) :
    message.SentTo stream ↔
      message.recipient.type = .stream ∧ message.recipient.id = stream.recipientId := by
  apply and_congr_right
  intro htype
  obtain ⟨s, hsrow, hid, hrecipient, -⟩ := d.channels message hm htype
  rw [← hid, ← hrecipient]
  constructor
  · intro h
    rw [Table.ext_key hsrow hs h]
  · intro h
    rw [d.recipients s hsrow stream hs h]

theorem get?_of_sentTo (hs : stream ∈ d.streams.rows) (h : message.SentTo stream) :
    d.streams.get? message.recipient.typeId = some stream :=
  Table.get?_eq_some.mpr ⟨hs, h.2.symm⟩

theorem realmId_of_sentTo (hm : message ∈ d.messages.rows) (hs : stream ∈ d.streams.rows)
    (h : message.SentTo stream) : message.realmId = stream.realmId := by
  obtain ⟨s, hsrow, hid, -, hrealm⟩ := d.channels message hm h.1
  rw [← hrealm, Table.ext_key hsrow hs (hid.trans h.2)]

/-- The channel that was fetched for a message is its channel. -/
theorem find_messageStreams (hm : message ∈ d.messages.rows) (hlisted : message ∈ messages)
    (hs : stream ∈ d.streams.rows) (h : message.SentTo stream) :
    (d.messageStreams messages).find? (·.recipientId = message.recipient.id) = some stream := by
  have hrecipient := ((sentTo_iff hm hs).mp h).2
  have hfetched : stream ∈ d.messageStreams messages := by
    refine mem_filter.mpr ⟨hs, ?_⟩
    rw [decide_eq_true_eq, ← h.2]
    exact mem_map_of_mem (mem_filter.mpr ⟨hlisted, by simp [h.1]⟩)
  cases hfind : (d.messageStreams messages).find? (·.recipientId = message.recipient.id) with
  | none =>
    have hnot := find?_eq_none.mp hfind stream hfetched
    simp [hrecipient] at hnot
  | some s =>
    have hsame : s.recipientId = message.recipient.id := by simpa using find?_some hfind
    have hrow := mem_of_mem_filter (mem_of_find?_eq_some hfind)
    rw [d.recipients s hrow stream hs (hsame.trans hrecipient)]

/-- Whether the subscription was looked up for the user or for the channel. -/
theorem hasChannelMessageAccess_fetched (hs : stream ∈ d.streams.rows) (hasUserMessage b : Bool) :
    d.hasChannelMessageAccess user stream hasUserMessage
        (some (decide (stream.recipientId ∈ d.subscribedStreamRecipientIds user.id))) b =
      d.hasChannelMessageAccess user stream hasUserMessage none b := by
  rw [mem_subscribedStreamRecipientIds hs]
  rfl

end Fetched

/-! ## One check, as a list and as a query -/

section Agreement

variable {d : Database} {user : UserProfile} {messages : List Message} {message : Message}
  {stream : Stream}

theorem hasMessageAccess_direct (h : message.recipient.type ≠ .stream) (hasUserMessage : Bool)
    (stream : Option Stream) (isSubscribed : Option Bool) (b : Bool) :
    d.hasMessageAccess user message hasUserMessage stream isSubscribed b =
      .ok hasUserMessage := by
  unfold Tables.hasMessageAccess
  rw [if_pos h]

theorem hasMessageAccess_channel (hm : message ∈ d.messages.rows) (hs : stream ∈ d.streams.rows)
    (h : message.SentTo stream) {given : Option Stream} (hgiven : given = none ∨ given = some stream)
    (hasUserMessage : Bool) (isSubscribed : Option Bool) (b : Bool) :
    d.hasMessageAccess user message hasUserMessage given isSubscribed b =
      .ok (d.hasChannelMessageAccess user stream hasUserMessage isSubscribed b) := by
  have hfound : d.messageStream message given = .ok stream := by
    unfold Tables.messageStream
    rcases hgiven with rfl | rfl
    · rw [get?_of_sentTo hs h]
    · dsimp only
      rw [if_pos ((sentTo_iff hm hs).mp h).2.symm]
  unfold Tables.hasMessageAccess
  rw [if_neg (not_not_intro h.1), hfound]
  rfl

/-- A message of the database is direct, or its channel is there. -/
theorem direct_or_sentTo (hm : message ∈ d.messages.rows) :
    message.recipient.type ≠ .stream ∨ ∃ stream ∈ d.streams.rows, message.SentTo stream := by
  by_cases htype : message.recipient.type = .stream
  · obtain ⟨s, hs, hid, -⟩ := d.channels message hm htype
    exact .inr ⟨s, hs, htype, hid.symm⟩
  · exact .inl htype

/-- The check of a listed message is the single check that is not about a change. -/
theorem bulkAccessMessages_eq (hmessages : ∀ message ∈ messages, message ∈ d.messages.rows)
    {given : Option Stream} (hgiven : given = none ∨ ∃ stream ∈ d.streams.rows,
      given = some stream ∧ ∀ message ∈ messages, message.SentTo stream) (b : Bool) :
    d.bulkAccessMessages user messages given b = .ok (d.accessible user messages false) := by
  apply filterByAccess_eq
  intro message hlisted
  have hm := hmessages message hlisted
  rw [mem_messagesWithUserMessageRows hlisted]
  rcases direct_or_sentTo hm with hdirect | ⟨stream, hs, hsent⟩
  · rw [hasMessageAccess_direct hdirect, hasMessageAccess_direct hdirect]
    simp
  · have hchannel : (given <|> (d.messageStreams messages).find?
        (·.recipientId = message.recipient.id)) = some stream := by
      rcases hgiven with rfl | ⟨s, hsrow, rfl, hall⟩
      · exact find_messageStreams hm hlisted hs hsent
      · rw [Table.ext_key hsrow hs ((hall message hlisted).2.symm.trans hsent.2)]
        rfl
    rw [hchannel, hasMessageAccess_channel hm hs hsent (.inr rfl),
      hasMessageAccess_channel hm hs hsent (.inl rfl), ((sentTo_iff hm hs).mp hsent).2,
      hasChannelMessageAccess_fetched hs]
    simp

theorem hasChannelMessageAccess_iff (b : Bool) :
    d.hasChannelMessageAccess user stream (d.hasUserMessage user.id message.id) none b = true ↔
      d.Sees user stream message ∧ ¬(b = true ∧ stream.deactivated = true) := by
  unfold Tables.hasChannelMessageAccess Sees
  by_cases hrealm : stream.realmId = user.realmId
  · by_cases hchange : b = true ∧ stream.deactivated = true
    · simp [hrealm, hchange]
    · by_cases hpublic : stream.isPublic = true ∧ user.canAccessPublicStreams = true
      · simp [hrealm, hchange, hpublic]
      · cases hhistory : stream.isHistoryPublicToSubscribers
        · simp [hrealm, hchange, hpublic, and_comm]
        · simp [hrealm, hchange, hpublic]
  · simp [hrealm]

theorem mem_accessible (hm : message ∈ d.messages.rows) (hs : stream ∈ d.streams.rows)
    (h : message.SentTo stream) (b : Bool) :
    message ∈ d.accessible user messages b ↔
      message ∈ messages ∧ d.Sees user stream message ∧
        ¬(b = true ∧ stream.deactivated = true) := by
  unfold accessible
  rw [mem_filter, decide_eq_true_eq, hasMessageAccess_channel hm hs h (.inl rfl),
    ← hasChannelMessageAccess_iff, ok.injEq]

/-- The query over the messages of a channel selects what the user sees of it. -/
theorem bulkAccessStreamMessagesQuery_eq
    (hmessages : ∀ message ∈ messages, message ∈ d.messages.rows) (hs : stream ∈ d.streams.rows)
    (hall : ∀ message ∈ messages, message.SentTo stream) :
    d.bulkAccessStreamMessagesQuery user messages stream = d.accessible user messages false := by
  have haccess : d.accessible user messages false = messages.filter fun message =>
      d.hasChannelMessageAccess user stream (d.hasUserMessage user.id message.id) none false := by
    apply filter_congr
    intro message hlisted
    rw [hasMessageAccess_channel (hmessages message hlisted) hs (hall message hlisted) (.inl rfl)]
    simp
  have hrows : (messages.filter fun message =>
      decide (message.realmId = user.realmId) &&
        decide (message.recipient.id = stream.recipientId)) =
      messages.filter fun _ => decide (stream.realmId = user.realmId) := by
    apply filter_congr
    intro message hlisted
    have hm := hmessages message hlisted
    rw [realmId_of_sentTo hm hs (hall message hlisted),
      ((sentTo_iff hm hs).mp (hall message hlisted)).2]
    simp
  rw [haccess]
  unfold Tables.bulkAccessStreamMessagesQuery Tables.hasChannelMessageAccess
  rw [hrows]
  by_cases hrealm : stream.realmId = user.realmId
  · by_cases hpublic : stream.isPublic = true ∧ user.canAccessPublicStreams = true
    · simp [hrealm, hpublic]
    · cases d.hasChannelContentAccessHelper stream user none <;>
        cases stream.isHistoryPublicToSubscribers <;> simp [hrealm, hpublic]
  · simp [hrealm]

/-- The list and the query agree with the single check, unless the check is about a change and
a listed message that the user sees is in an archived channel. -/
theorem bulk_agrees_iff (d : Database) (user : UserProfile) (messages : List Message)
    (isModifyingMessage : Bool) (hmessages : ∀ message ∈ messages, message ∈ d.messages.rows) :
    d.AccessAgrees user messages isModifyingMessage ↔
      ¬(isModifyingMessage = true ∧ ∃ message ∈ messages, ∃ stream ∈ d.streams.rows,
        message.SentTo stream ∧ stream.deactivated = true ∧ d.Sees user stream message) := by
  constructor
  · rintro ⟨hbulk, -⟩ ⟨rfl, message, hlisted, stream, hs, hsent, harchived, hsees⟩
    rw [bulkAccessMessages_eq hmessages (.inl rfl), ok.injEq] at hbulk
    have hm := hmessages message hlisted
    have hread : message ∈ d.accessible user messages false :=
      (mem_accessible hm hs hsent false).mpr ⟨hlisted, hsees, by simp⟩
    rw [hbulk] at hread
    exact ((mem_accessible hm hs hsent true).mp hread).2.2 ⟨rfl, harchived⟩
  · intro hnone
    have hsame : d.accessible user messages false =
        d.accessible user messages isModifyingMessage := by
      apply filter_congr
      intro message hlisted
      have hm := hmessages message hlisted
      rcases direct_or_sentTo hm with hdirect | ⟨stream, hs, hsent⟩
      · rw [hasMessageAccess_direct hdirect, hasMessageAccess_direct hdirect]
      · rw [decide_eq_decide, hasMessageAccess_channel hm hs hsent (.inl rfl),
          hasMessageAccess_channel hm hs hsent (.inl rfl), ok.injEq, ok.injEq,
          hasChannelMessageAccess_iff, hasChannelMessageAccess_iff]
        apply and_congr_right
        intro hsees
        constructor
        · rintro - ⟨hchange, harchived⟩
          exact hnone ⟨hchange, message, hlisted, stream, hs, hsent, harchived, hsees⟩
        · rintro - ⟨hchange, -⟩
          exact Bool.false_ne_true hchange
    refine ⟨?_, fun stream hs hall => ⟨?_, ?_⟩⟩
    · rw [bulkAccessMessages_eq hmessages (.inl rfl), hsame]
    · rw [bulkAccessMessages_eq hmessages (.inr ⟨stream, hs, rfl, hall⟩), hsame]
    · rw [bulkAccessStreamMessagesQuery_eq hmessages hs hall, hsame]

end Agreement

/-- A public channel that was archived, with a message and a member of its realm. -/
def archivedChannel : Database where
  users := ⟨[⟨1, 1, true, .member⟩], by simp⟩
  streams := ⟨[⟨3, 1, 5, true, false, true, false, 8, 9⟩], by simp⟩
  messages := ⟨[⟨7, 1, ⟨5, .stream, 3⟩, "hello"⟩], by simp⟩
  userMessages := []
  subscriptions := []
  groupMemberships := []
  subgroups := []
  recipients := by
    intro s hs s' hs' _
    rw [mem_singleton.mp hs, mem_singleton.mp hs']
  channels := by
    intro message hm _
    rw [mem_singleton.mp hm]
    exact ⟨_, mem_singleton_self _, rfl, rfl, rfl⟩

/-- Reading the message is allowed all three ways. -/
theorem bulk_agrees_archivedChannel :
    archivedChannel.AccessAgrees ⟨1, 1, true, .member⟩ archivedChannel.messages.rows false :=
  (bulk_agrees_iff archivedChannel ⟨1, 1, true, .member⟩ archivedChannel.messages.rows false
    fun _ hm => hm).mpr fun h => Bool.false_ne_true h.1

/-- The single check refuses to change a message of the archived channel; the list has it. -/
theorem archivedChannel_disagrees :
    ¬archivedChannel.AccessAgrees ⟨1, 1, true, .member⟩ archivedChannel.messages.rows true := by
  rintro ⟨hbulk, -⟩
  revert hbulk
  decide

end Database

/-! # Topics and who may change them (`zerver/lib/streams.py`, `zerver/lib/user_groups.py`) -/

/-- `StreamTopicsPolicyEnum`. -/
inductive StreamTopicsPolicy where
  | inherit
  | allowEmptyTopic
  | disableEmptyTopic
  | emptyTopicOnly
  deriving DecidableEq

/-- The settings of `Stream` about topics and moves. -/
structure ChannelSettings where
  canAdministerChannelGroupId : ℕ
  canCreateTopicGroupId : ℕ
  canMoveMessagesOutOfChannelGroupId : ℕ
  canMoveMessagesWithinChannelGroupId : ℕ
  canResolveTopicsGroupId : ℕ
  canSendMessageGroupId : ℕ
  topicsPolicy : StreamTopicsPolicy

/-- The settings of `Realm` about topics and moves.  A limit that is not set is `none`. -/
structure RealmSettings where
  canMoveMessagesBetweenChannelsGroupId : ℕ
  canMoveMessagesBetweenTopicsGroupId : ℕ
  canResolveTopicsGroupId : ℕ
  moveMessagesWithinStreamLimitSeconds : Option ℕ
  moveMessagesBetweenStreamsLimitSeconds : Option ℕ
  topicsPolicy : StreamTopicsPolicy

/-- The topics and times of messages and the settings of channels are given by id.  Times are in
microseconds.  A message that a mirror sends may carry an earlier time than its id tells. -/
structure Board extends Database where
  topicName : ℕ → String
  dateSent : ℕ → ℤ
  realm : ℕ → RealmSettings
  channel : ℕ → ChannelSettings
  /-- The system groups of name `role:everyone`. -/
  everyoneGroups : List ℕ
  crossRealmBots : List ℕ
  /-- The owner of a bot that has one. -/
  botOwner : ℕ → Option UserProfile

/-! ## Users -/

def UserProfile.isRealmAdmin (user : UserProfile) : Bool :=
  user.role = .realmOwner || user.role = .realmAdministrator

def UserProfile.isModerator (user : UserProfile) : Bool :=
  user.isRealmAdmin || user.role = .moderator

/-- `user_has_permission_for_group_setting`, of a setting that never means everyone on the
internet.  A user is in a group whose supergroup it is reached from. -/
def Tables.userHasPermissionForGroupSetting (t : Tables) (userGroupId : ℕ) (user : UserProfile)
    (allowEveryoneGroup : Bool) : Bool :=
  if !allowEveryoneGroup && user.isGuest then false
  else decide (userGroupId ∈ t.recursiveMembershipGroups user)

namespace Board

/-! ## Permissions -/

variable (b : Board) (user : UserProfile)

/-- `UserProfile.can_move_messages_to_another_topic`. -/
def canMoveMessagesToAnotherTopic : Bool :=
  b.userHasPermissionForGroupSetting (b.realm user.realmId).canMoveMessagesBetweenTopicsGroupId
    user true

/-- `UserProfile.can_move_messages_between_streams`. -/
def canMoveMessagesBetweenStreams : Bool :=
  b.userHasPermissionForGroupSetting (b.realm user.realmId).canMoveMessagesBetweenChannelsGroupId
    user false

/-- `UserProfile.can_resolve_topic`. -/
def canResolveTopic : Bool :=
  b.userHasPermissionForGroupSetting (b.realm user.realmId).canResolveTopicsGroupId user true

variable (stream : Stream)

def canAdministerAccessibleChannel (user : UserProfile) : Bool :=
  b.userHasPermissionForGroupSetting (b.channel stream.id).canAdministerChannelGroupId user false

def canMoveMessagesOutOfChannel : Bool :=
  user.isRealmAdmin || b.canMoveMessagesBetweenStreams user ||
    b.canAdministerAccessibleChannel stream user ||
    b.userHasPermissionForGroupSetting
      (b.channel stream.id).canMoveMessagesOutOfChannelGroupId user true

def canMoveMessagesWithinChannel : Bool :=
  user.isRealmAdmin || b.canAdministerAccessibleChannel stream user ||
    b.userHasPermissionForGroupSetting
      (b.channel stream.id).canMoveMessagesWithinChannelGroupId user true

variable (origStream targetStream : Stream)

def canEditTopic : Bool :=
  b.canMoveMessagesToAnotherTopic user || b.canMoveMessagesWithinChannel user origStream ||
    (origStream.id ≠ targetStream.id && b.canMoveMessagesWithinChannel user targetStream)

def canResolveTopicsInStream : Bool :=
  b.userHasPermissionForGroupSetting (b.channel stream.id).canResolveTopicsGroupId user true

def canResolveTopics : Bool :=
  b.canResolveTopic user || b.canResolveTopicsInStream user origStream ||
    (origStream ≠ targetStream && b.canResolveTopicsInStream user targetStream)

/-- The common part of the two checks for a group of a channel: the sender, or the owner of the
bot that sends, is in the group. -/
def isInGroup (groupId : ℕ) : Bool :=
  decide (user.id ∈ b.crossRealmBots) || decide (groupId ∈ b.everyoneGroups) ||
    decide (groupId ∈ b.recursiveMembershipGroups user) ||
    match b.botOwner user.id with
    | some owner => decide (groupId ∈ b.recursiveMembershipGroups owner)
    | none => false

/-- The check of `check_stream_access_based_on_can_send_message_group`. -/
def canSendMessage : Bool :=
  b.isInGroup user (b.channel stream.id).canSendMessageGroupId

/-- The user is allowed to create topics in the channel. -/
def canCreateTopic : Bool :=
  b.isInGroup user (b.channel stream.id).canCreateTopicGroupId

def getStreamTopicsPolicy (realmId : ℕ) (stream : Stream) : StreamTopicsPolicy :=
  if (b.channel stream.id).topicsPolicy = .inherit then (b.realm realmId).topicsPolicy
  else (b.channel stream.id).topicsPolicy

end Board

namespace Tables

/-! ## Channels -/

def getStreamByIdInRealm (t : Tables) (streamId realmId : ℕ) : Option Stream :=
  t.streams.find streamId fun stream => stream.realmId = realmId

/-- `access_stream_common` succeeds, for an active channel and its content. -/
def accessStreamCommon (t : Tables) (user : UserProfile) (stream : Stream) : Bool :=
  !stream.deactivated &&
    t.userHasContentAccess user stream (t.isSubscribed user.id stream.recipientId)

def accessStreamById (t : Tables) (user : UserProfile) (streamId : ℕ) : Option Stream :=
  match t.getStreamByIdInRealm streamId user.realmId with
  | some stream => if t.accessStreamCommon user stream then some stream else none
  | none => none

/-- `can_access_stream_history`, of a channel of the user's realm. -/
def canAccessStreamHistory (t : Tables) (user : UserProfile) (stream : Stream) : Bool :=
  if stream.isWebPublic then true
  else if stream.isPublic && !user.isGuest then true
  else if stream.isHistoryPublicToSubscribers then t.accessStreamCommon user stream
  else false

variable {t : Tables} {user : UserProfile} {stream : Stream} {message : Message}

/-- Of a channel whose history the user may not access, the user sees what was received. -/
theorem hasUserMessage_of_sees {d : Database} (hsees : d.Sees user stream message)
    (hactive : stream.deactivated = false)
    (hhistory : d.canAccessStreamHistory user stream = false) :
    d.hasUserMessage user.id message.id = true := by
  have hmore : stream.isWebPublic = false ∧ ¬ (stream.isPublic = true ∧ user.isGuest = false) ∧
      (stream.isHistoryPublicToSubscribers = true →
        d.userHasContentAccess user stream (d.isSubscribed user.id stream.recipientId) = false) := by
    unfold canAccessStreamHistory accessStreamCommon at hhistory
    rw [hactive] at hhistory
    cases hweb : stream.isWebPublic
    · by_cases hpublic : (stream.isPublic && !user.isGuest) = true
      · simp [hweb, hpublic] at hhistory
      · refine ⟨rfl, by simpa using hpublic, fun hshared => ?_⟩
        simpa [hweb, hpublic, hshared] using hhistory
    · simp [hweb] at hhistory
  obtain ⟨-, hpublic, hshared⟩ := hmore
  rcases hsees.2 with ⟨hpub, hfull⟩ | ⟨hcontent, hhist | hreceived⟩
  · refine absurd ⟨hpub, ?_⟩ hpublic
    simpa [UserProfile.canAccessPublicStreams] using hfull
  · have haccess := userHasContentAccess_iff.mpr (.inr (.inr hcontent))
    rw [hshared hhist] at haccess
    exact absurd haccess Bool.false_ne_true
  · exact hreceived

end Tables

end GrowTeam.Chat
