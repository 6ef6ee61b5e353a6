/-
# Which messages move

The other messages of a move are looked up twice, before and after the edited message and the
rows of its receivers are changed.  What the second lookup finds, the first one has found, so a
message keeps its place unless it is the edited one or was found by the first lookup.
-/
import GrowTeam.Chat.Moves

namespace GrowTeam.Chat

open List Table

/-- The recipient of a message after an edit. -/
def Edited.recipient (e : Edited) (id : ℕ) : Option Recipient :=
  (e.tables.messages.get? id).map (·.recipient)

/-! ## Computations that succeed -/

section Success

theorem bind_eq_ok_iff {α β : Type} {x : Except EditError α} {f : α → Except EditError β} {y : β} :
    (x >>= f) = .ok y ↔ ∃ a, x = .ok a ∧ f a = .ok y := by
  cases x <;> simp [bind, Except.bind]

theorem pure_eq_ok_iff {α : Type} {x y : α} :
    (pure x : Except EditError α) = .ok y ↔ x = y := by
  simp [pure, Except.pure]

theorem check_eq_ok {c : Bool} {e : EditError} {u : Unit} : check c e = .ok u ↔ c = true := by
  cases c <;> simp [check]

theorem whenever_eq_ok {c : Bool} {x : Except EditError Unit} {u : Unit} :
    whenever c x = .ok u ↔ (c = true → x = .ok ()) := by
  cases c <;> simp [whenever]

theorem found_eq_ok {α : Type} {x : Option α} {e : EditError} {a : α} :
    found x e = .ok a ↔ x = some a := by
  cases x <;> simp [found]

theorem accessEditedMessage_eq_ok {b : Board} {user : UserProfile} {id : ℕ} {message : Message} :
    accessEditedMessage b user id = .ok message ↔ b.accessMessage user id true = .ok message := by
  unfold accessEditedMessage
  cases b.accessMessage user id true <;> simp

end Success

/-! ## Which messages move -/

section Place

variable {upper : String → String} {b : Board} {t : Tables} {topics : ℕ → String}
  {user : UserProfile} {message m : Message} {request : StreamMessageEditRequest}

theorem mem_messagesForTopic {realmId recipientId : ℕ} {topicName : String} :
    m ∈ messagesForTopic upper t topics realmId recipientId topicName ↔
      m ∈ t.messages.rows ∧ m.realmId = realmId ∧ m.recipient.id = recipientId ∧
        upper (topics m.id) = upper topicName ∧ m.recipient.type = .stream := by
  unfold messagesForTopic
  simp [and_assoc]

/-- The query of a list keeps what the user sees of the channel. -/
theorem mem_bulkAccessStreamMessagesQuery {messages : List Message} {stream : Stream} :
    m ∈ t.bulkAccessStreamMessagesQuery user messages stream ↔
      m ∈ messages ∧ m.realmId = user.realmId ∧ m.recipient.id = stream.recipientId ∧
        ((stream.isPublic = true ∧ user.canAccessPublicStreams = true) ∨
          (t.hasChannelContentAccessHelper stream user none = true ∧
            (stream.isHistoryPublicToSubscribers = true ∨ t.hasUserMessage user.id m.id = true))) := by
  unfold Tables.bulkAccessStreamMessagesQuery
  by_cases hpublic : stream.isPublic = true ∧ user.canAccessPublicStreams = true
  · simp [hpublic, mem_filter]
  · cases hcontent : t.hasChannelContentAccessHelper stream user none
    · simp [hpublic]
    · cases hhistory : stream.isHistoryPublicToSubscribers
      · simp only [hpublic, mem_filter, if_false, not_true, Bool.false_eq_true,
          not_false_iff, if_true, Bool.and_eq_true, decide_eq_true_eq, false_or, true_and]
        tauto
      · simp [hpublic, mem_filter]

/-- The other messages of a mode: none, all, or those with a larger id. -/
def InMode (request : StreamMessageEditRequest) (message m : Message) : Prop :=
  (request.propagateMode = .changeAll ∧ m.id ≠ message.id) ∨
    (request.propagateMode = .changeLater ∧ message.id < m.id)

theorem mem_messagesForTopicEdit :
    m ∈ messagesForTopicEdit upper t topics user message request ↔
      m ∈ messagesForTopic upper t topics request.origStream.realmId
          request.origStream.recipientId request.origTopicName ∧
        InMode request message m ∧
        (request.isStreamEdited = true →
          m ∈ t.bulkAccessStreamMessagesQuery user [m] request.origStream) := by
  unfold messagesForTopicEdit InMode
  cases request.propagateMode <;> cases request.isStreamEdited <;>
    simp [mem_bulkAccessStreamMessagesQuery, mem_filter, and_assoc]

variable {ids : List ℕ} {e : Edited}

theorem setPlace_recipient {id : ℕ} :
    (setPlace request ids e).recipient id = (e.recipient id).map fun recipient =>
      if request.isStreamEdited = true ∧ id ∈ ids then
        ⟨request.targetStream.recipientId, .stream, request.targetStream.id⟩
      else recipient := by
  unfold setPlace Edited.recipient
  cases request.isStreamEdited
  · simp [Function.comp_def]
  · simp only [if_true, get?_update, Option.map_map]
    cases h : e.tables.messages.get? id with
    | none => rfl
    | some row =>
      obtain ⟨-, hid⟩ := get?_eq_some.mp h
      by_cases hin : id ∈ ids
      · simp [hid, hin]
      · simp [hid, hin]

/-- A row that is not in the list is as it was. -/
theorem mem_rows_of_setPlace (hm : m.id ∉ ids)
    (h : m ∈ (setPlace request ids e).tables.messages.rows) : m ∈ e.tables.messages.rows := by
  unfold setPlace at h
  cases hedited : request.isStreamEdited
  · simpa [hedited] using h
  · simp only [hedited, if_true, mem_update, decide_eq_true_eq] at h
    obtain ⟨row, hrow, heq⟩ := h
    by_cases hin : row.id ∈ ids
    · rw [if_pos hin] at heq
      subst heq
      exact absurd hin hm
    · rw [if_neg hin] at heq
      rwa [← heq]

/-- The message rows that a move adds belong to the messages that it moves. -/
theorem hasUserMessage_afterMove {userId id : ℕ}
    (h : ({ t with userMessages := userMessagesAfterMove t request ids } : Tables).hasUserMessage
      userId id = true) :
    t.hasUserMessage userId id = true ∨ id ∈ ids := by
  obtain ⟨um, hum, hmine⟩ := any_eq_true.mp h
  rw [Bool.and_eq_true, decide_eq_true_eq, decide_eq_true_eq] at hmine
  rcases mem_append.mp (mem_of_mem_filter hum) with hold | hgained
  · left
    exact any_eq_true.mpr ⟨um, hold, by simp [hmine]⟩
  · right
    split at hgained
    · simp at hgained
    · obtain ⟨newUser, -, hrow⟩ := mem_flatMap.mp hgained
      obtain ⟨other, hother, rfl⟩ := mem_map.mp hrow
      rw [← hmine.2]
      exact mem_of_mem_filter hother

/-- What the second lookup finds, the first one has found. -/
theorem mem_before (hids : ids = message.id ::
      (messagesForTopicEdit upper b.toTables b.topicName user message request).map (·.id)) (he : e = setPlace request [message.id]
      ⟨tablesAfterMove b.toTables request ids, b.topicName⟩)
    (h : m ∈ messagesForTopicEdit upper e.tables e.topicName user message request) :
    m ∈ messagesForTopicEdit upper b.toTables b.topicName user message request := by
  obtain ⟨htopic, hmode, hbulk⟩ := mem_messagesForTopicEdit.mp h
  have hother : m.id ∉ [message.id] := by
    rw [mem_singleton]
    rcases hmode with ⟨-, hne⟩ | ⟨-, hlt⟩
    · exact hne
    · exact Nat.ne_of_gt hlt
  obtain ⟨hrow, hrealm, hrecipient, hsame, htype⟩ := mem_messagesForTopic.mp htopic
  have hrowb : m ∈ b.messages.rows := by
    rw [he] at hrow
    have hrow := mem_rows_of_setPlace hother hrow
    unfold tablesAfterMove at hrow
    cases hedited : request.isStreamEdited <;> simpa [hedited] using hrow
  have htopicName : e.topicName m.id = b.topicName m.id := by
    rw [he]
    exact if_neg fun hin => hother hin.2
  rw [htopicName] at hsame
  have hbefore : m ∈ messagesForTopic upper b.toTables b.topicName request.origStream.realmId
      request.origStream.recipientId request.origTopicName :=
    mem_messagesForTopic.mpr ⟨hrowb, hrealm, hrecipient, hsame, htype⟩
  -- A message whose row was added is one of those that were found.
  by_cases hfound : m.id ∈ ids
  · rw [hids, mem_cons] at hfound
    rcases hfound with hid | hid
    · exact absurd (mem_singleton.mpr hid) hother
    · refine (mem_map_key (fun row hrow => ?_) hrowb).mp hid
      exact (mem_messagesForTopic.mp (mem_messagesForTopicEdit.mp hrow).1).1
  · refine mem_messagesForTopicEdit.mpr ⟨hbefore, hmode, fun hedited => ?_⟩
    obtain ⟨-, hrealm', hrecipient', haccess⟩ := mem_bulkAccessStreamMessagesQuery.mp (hbulk hedited)
    refine mem_bulkAccessStreamMessagesQuery.mpr
      ⟨mem_singleton.mpr rfl, hrealm', hrecipient', ?_⟩
    have hcontent : e.tables.hasChannelContentAccessHelper request.origStream user none =
        b.hasChannelContentAccessHelper request.origStream user none := by
      rw [he]
      unfold setPlace tablesAfterMove
      rw [hedited]
      rfl
    have hreceived : e.tables.hasUserMessage user.id m.id = true →
        b.hasUserMessage user.id m.id = true := by
      intro hum
      have hum' : ({ b.toTables with
          userMessages := userMessagesAfterMove b.toTables request ids } : Tables).hasUserMessage
            user.id m.id = true := by
        rw [he] at hum
        unfold setPlace tablesAfterMove at hum
        rw [hedited] at hum
        exact hum
      exact (hasUserMessage_afterMove hum').resolve_right hfound
    rw [hcontent] at haccess
    rcases haccess with hpublic | ⟨hmember, hhistory | hum⟩
    · exact .inl hpublic
    · exact .inr ⟨hmember, .inl hhistory⟩
    · exact .inr ⟨hmember, .inr (hreceived hum)⟩

/-- A message keeps its place, or it is the edited one or one that was found, and has the place
that is asked for. -/
theorem doUpdateMessage_place (he : e = doUpdateMessage upper b user message request)
    (hm : m ∈ b.messages.rows) :
    (e.topicName m.id = b.topicName m.id ∧ e.recipient m.id = some m.recipient) ∨
      ((m.id = message.id ∨
          m ∈ messagesForTopicEdit upper b.toTables b.topicName user message request) ∧
        e.topicName m.id =
          (if request.isTopicEdited then request.targetTopicName else b.topicName m.id) ∧
        e.recipient m.id = some (if request.isStreamEdited then
          ⟨request.targetStream.recipientId, .stream, request.targetStream.id⟩ else m.recipient)) := by
  unfold doUpdateMessage at he
  dsimp only at he
  generalize hids : message.id ::
    (messagesForTopicEdit upper b.toTables b.topicName user message request).map (·.id) = ids at he
  generalize hfirst : setPlace request [message.id]
    ⟨tablesAfterMove b.toTables request ids, b.topicName⟩ = first at he
  generalize hlist : (messagesForTopicEdit upper first.tables first.topicName user message
    request).map (·.id) = list at he
  have hrow : ((⟨tablesAfterMove b.toTables request ids, b.topicName⟩ : Edited).recipient m.id) =
      some m.recipient := by
    unfold Edited.recipient tablesAfterMove
    have hget : b.messages.get? m.id = some m := get?_eq_some.mpr ⟨hm, rfl⟩
    cases request.isStreamEdited <;> simp [hget]
  have hfirstTopic : first.topicName m.id =
      if request.isTopicEdited = true ∧ m.id ∈ [message.id] then request.targetTopicName
      else b.topicName m.id := by
    rw [← hfirst]
    rfl
  have hfirstRecipient : first.recipient m.id =
      some (if request.isStreamEdited = true ∧ m.id ∈ [message.id] then
        ⟨request.targetStream.recipientId, .stream, request.targetStream.id⟩ else m.recipient) := by
    rw [← hfirst, setPlace_recipient, hrow]
    rfl
  have hsecondTopic : e.topicName m.id =
      if request.isTopicEdited = true ∧ m.id ∈ list then request.targetTopicName
      else first.topicName m.id := by
    rw [he]
    rfl
  have hsecondRecipient : e.recipient m.id = (first.recipient m.id).map fun recipient =>
      if request.isStreamEdited = true ∧ m.id ∈ list then
        ⟨request.targetStream.recipientId, .stream, request.targetStream.id⟩
      else recipient := by
    rw [he, setPlace_recipient]
  have hlater : m.id ∈ list →
      m ∈ messagesForTopicEdit upper b.toTables b.topicName user message request := by
    intro hin
    rw [← hlist] at hin
    obtain ⟨row, hrow, hid⟩ := mem_map.mp hin
    have hbefore := mem_before hids.symm hfirst.symm hrow
    have hrowb := (mem_messagesForTopic.mp (mem_messagesForTopicEdit.mp hbefore).1).1
    rwa [← ext_key hrowb hm hid]
  rw [hfirstTopic] at hsecondTopic
  rw [hfirstRecipient, Option.map_some] at hsecondRecipient
  by_cases hin : m.id ∈ list
  · refine .inr ⟨.inr (hlater hin), ?_, ?_⟩
    · rw [hsecondTopic]
      cases request.isTopicEdited <;> simp [hin]
    · rw [hsecondRecipient]
      cases request.isStreamEdited <;> simp [hin]
  · by_cases hid : m.id = message.id
    · refine .inr ⟨.inl hid, ?_, ?_⟩
      · rw [hsecondTopic]
        cases request.isTopicEdited <;> simp [hid]
      · rw [hsecondRecipient]
        cases request.isStreamEdited <;> simp [hid]
    · refine .inl ⟨?_, ?_⟩
      · rw [hsecondTopic, if_neg fun h => hin h.2, if_neg fun h => hid (mem_singleton.mp h.2)]
      · rw [hsecondRecipient, if_neg fun h => hin h.2,
          if_neg fun h => hid (mem_singleton.mp h.2)]

end Place

/-! # Who is told about a move (`zerver/actions/message_edit.py`) -/

/-- The board, with the users who have been away for long.  Only users of its realm can be
subscribed to a channel. -/
structure Forum extends Board where
  longTermIdle : ℕ → Bool
  subscribers : ∀ sub ∈ subscriptions, ∃ u ∈ users.rows, u.id = sub.userProfileId ∧
    ∀ stream ∈ streams.rows, stream.recipientId = sub.recipientId → stream.realmId = u.realmId

/-- `DeleteMessagesEvent`, for messages of a channel. -/
structure DeleteMessagesEvent where
  messageIds : List ℕ
  streamId : ℕ
  topic : String

/-- The `update_message` event of a move. -/
structure UpdateMessageEvent where
  userId : ℕ
  messageId : ℕ
  messageIds : List ℕ
  streamId : ℕ
  newStreamId : Option ℕ
  propagateMode : Option PropagateMode
  origSubject : Option String
  subject : Option String

/-- An event and the users whose clients receive it. -/
structure Notice (ε : Type) where
  event : ε
  userIds : List ℕ

/-! ## Sets of users -/

namespace Tables

variable (t : Tables) (stream : Stream)

/-- `old_stream_all_users`: all who are or were subscribed. -/
def streamAllUsers : List ℕ :=
  (t.subscriptions.filter fun sub => sub.recipientId = stream.recipientId).map (·.userProfileId)

/-- `new_stream_current_users`: `get_active_subscriptions_for_stream_id`, deactivated users
included. -/
def streamCurrentUsers : List ℕ :=
  (t.subscriptions.filter fun sub => sub.recipientId = stream.recipientId && sub.active).map
    (·.userProfileId)

/-- `get_active_subscriptions_for_stream_id`, without deactivated users. -/
def streamActiveUsers : List ℕ :=
  (t.streamCurrentUsers stream).filter fun id => (t.users.get? id).any (·.isActive)

/-- The guests among some users. -/
def guests (ids : List ℕ) : List ℕ :=
  ids.filter fun id => (t.users.get? id).any (·.isGuest)

variable (request : StreamMessageEditRequest)

def usersLosingUserMessages : List ℕ :=
  (t.streamAllUsers request.origStream).filter fun id =>
    !(t.streamCurrentUsers request.targetStream).contains id

/-- `users_losing_access`: only guests when the new channel is public. -/
def usersLosingAccess : List ℕ :=
  if request.targetStream.isPublic then
    (t.guests (t.streamAllUsers request.origStream)).filter fun id =>
      !(t.streamCurrentUsers request.targetStream).contains id
  else t.usersLosingUserMessages request

/-- The users of `unmodified_user_messages`, which is evaluated after the rows were changed. -/
def unmodifiedUserMessages (rows : List UserMessage) (messageId : ℕ) : List ℕ :=
  ((rows.filter fun um => um.messageId = messageId).map (·.userProfileId)).filter fun id =>
    !(request.isStreamEdited && (t.usersLosingUserMessages request).contains id)

end Tables

namespace Forum

variable (f : Forum) (request : StreamMessageEditRequest)

/-- `exclude_duplicates_from_subscription`, for users who have rows of the edited message. -/
def excludeDuplicates (holders ids : List ℕ) : List ℕ :=
  ids.filter fun id => !f.longTermIdle id && !holders.contains id &&
    !(request.isStreamEdited && (f.usersLosingAccess request).contains id)

def oldStreamSubsNotInNewStream (holders : List ℕ) : List ℕ :=
  if request.isStreamEdited then
    (f.excludeDuplicates request holders (f.streamActiveUsers request.origStream)).filter fun id =>
      !(f.streamActiveUsers request.targetStream).contains id
  else []

/-- `subscriber_ids`: the subscribers of the new channel, without guests for whom the messages
are new. -/
def subscriberIds (holders : List ℕ) : List ℕ :=
  (f.excludeDuplicates request holders (f.streamActiveUsers request.targetStream)).filter fun id =>
    !(request.isStreamEdited &&
      (f.guests (f.streamCurrentUsers request.targetStream)).contains id &&
      !(f.streamCurrentUsers request.origStream).contains id)

def usersToBeNotified (rows : List UserMessage) (messageId : ℕ) : List ℕ :=
  let holders := f.unmodifiedUserMessages request rows messageId
  if request.origStream.isHistoryPublicToSubscribers then
    holders ++ (f.subscriberIds request holders ++ f.oldStreamSubsNotInNewStream request holders)
  else holders

/-! ## The events of `do_update_message` -/

variable (upper : String → String) (user : UserProfile) (message : Message)

def changedMessageIds (f : Forum) (user : UserProfile) (message : Message)
    (request : StreamMessageEditRequest) : List ℕ :=
  message.id ::
    (messagesForTopicEdit upper f.toTables f.topicName user message request).map (·.id)

/-- The event that is sent when messages change their channel. -/
def deleteEvent (f : Forum) (user : UserProfile) (message : Message)
    (request : StreamMessageEditRequest) : Option (Notice DeleteMessagesEvent) :=
  if request.isStreamEdited then
    some ⟨⟨f.changedMessageIds upper user message request, request.origStream.id,
      request.origTopicName⟩, f.usersLosingAccess request⟩
  else none

/-- The event about the new place. -/
def updateEvent (f : Forum) (user : UserProfile) (message : Message)
    (request : StreamMessageEditRequest) : Notice UpdateMessageEvent where
  event := {
    userId := user.id
    messageId := message.id
    messageIds := f.changedMessageIds upper user message request
    streamId := request.origStream.id
    newStreamId := if request.isStreamEdited then some request.targetStream.id else none
    propagateMode := if request.isMessageMoved then some request.propagateMode else none
    origSubject :=
      if request.isTopicEdited || request.isStreamEdited then some request.origTopicName else none
    subject := if request.isTopicEdited then some request.targetTopicName else none }
  userIds := f.usersToBeNotified request (tablesAfterMove f.toTables request
    (f.changedMessageIds upper user message request)).userMessages message.id

end Forum

/-! ## Membership -/

section Membership

variable {t : Tables} {stream : Stream} {request : StreamMessageEditRequest} {userId id : ℕ}

theorem mem_streamAllUsers :
    userId ∈ t.streamAllUsers stream ↔ ∃ sub ∈ t.subscriptions,
      sub.recipientId = stream.recipientId ∧ sub.userProfileId = userId := by
  unfold Tables.streamAllUsers
  simp [mem_map, mem_filter, and_assoc]

theorem mem_streamCurrentUsers :
    userId ∈ t.streamCurrentUsers stream ↔ t.isSubscribed userId stream.recipientId = true := by
  unfold Tables.streamCurrentUsers Tables.isSubscribed
  rw [mem_map, any_eq_true]
  constructor
  · rintro ⟨sub, hsub, rfl⟩
    obtain ⟨hrow, hsub⟩ := mem_filter.mp hsub
    rw [Bool.and_eq_true] at hsub
    exact ⟨sub, hrow, by simp [hsub]⟩
  · rintro ⟨sub, hrow, hsub⟩
    simp only [Bool.and_eq_true, decide_eq_true_eq] at hsub
    exact ⟨sub, mem_filter.mpr ⟨hrow, by simp [hsub]⟩, hsub.1.1⟩

theorem mem_guests {ids : List ℕ} :
    userId ∈ t.guests ids ↔ userId ∈ ids ∧ ∃ u ∈ t.users.rows, u.id = userId ∧ u.isGuest = true := by
  unfold Tables.guests
  rw [mem_filter, Option.any_eq_true]
  simp [and_assoc]

theorem mem_usersLosingUserMessages :
    userId ∈ t.usersLosingUserMessages request ↔
      userId ∈ t.streamAllUsers request.origStream ∧
        userId ∉ t.streamCurrentUsers request.targetStream := by
  unfold Tables.usersLosingUserMessages
  simp

/-- Who loses access has lost the rows. -/
theorem mem_usersLosingAccess :
    userId ∈ t.usersLosingAccess request ↔
      userId ∈ t.usersLosingUserMessages request ∧ (request.targetStream.isPublic = true →
        ∃ u ∈ t.users.rows, u.id = userId ∧ u.isGuest = true) := by
  unfold Tables.usersLosingAccess
  cases request.targetStream.isPublic
  · simp
  · rw [if_pos rfl, mem_filter, mem_guests, mem_usersLosingUserMessages]
    simp only [contains_eq_mem, Bool.not_eq_true', decide_eq_false_iff_not, forall_const]
    tauto

/-- The rows after a move: those of new subscribers are added where the history is not shared, and
those of the old channel's users who are not in the new one are deleted. -/
theorem hasUserMessage_afterMove_iff {ids : List ℕ} :
    ({ t with userMessages := userMessagesAfterMove t request ids } : Tables).hasUserMessage
        userId id = true ↔
      (t.hasUserMessage userId id = true ∨
        (request.targetStream.isHistoryPublicToSubscribers = false ∧ id ∈ ids ∧
          userId ∈ t.streamCurrentUsers request.targetStream)) ∧
      ¬(userId ∈ t.usersLosingUserMessages request ∧ id ∈ ids) := by
  have hrows : userMessagesAfterMove t request ids = (t.userMessages ++
      if request.targetStream.isHistoryPublicToSubscribers then []
      else (t.streamCurrentUsers request.targetStream).flatMap fun userId =>
        (ids.filter fun id => !t.hasUserMessage userId id).map (UserMessage.mk userId)).filter fun um =>
      !((t.usersLosingUserMessages request).contains um.userProfileId &&
        ids.contains um.messageId) := rfl
  have hmem : ∀ um : UserMessage, um ∈ userMessagesAfterMove t request ids ↔
      (um ∈ t.userMessages ∨ (request.targetStream.isHistoryPublicToSubscribers = false ∧
        um.userProfileId ∈ t.streamCurrentUsers request.targetStream ∧ um.messageId ∈ ids ∧
          t.hasUserMessage um.userProfileId um.messageId = false)) ∧
        ¬(um.userProfileId ∈ t.usersLosingUserMessages request ∧ um.messageId ∈ ids) := by
    rintro ⟨userId, id⟩
    rw [hrows, mem_filter, mem_append]
    refine and_congr (or_congr_right ?_) (by simp [imp_iff_not_or])
    cases request.targetStream.isHistoryPublicToSubscribers
    · simp [mem_map, mem_filter, and_assoc]
    · simp
  have hhas : ∀ rows : List UserMessage, (rows.any fun um =>
      um.userProfileId = userId && um.messageId = id) = true ↔ UserMessage.mk userId id ∈ rows := by
    intro rows
    rw [any_eq_true]
    constructor
    · rintro ⟨⟨userId', id'⟩, hum, hmine⟩
      simp only [Bool.and_eq_true, decide_eq_true_eq] at hmine
      rwa [← hmine.1, ← hmine.2]
    · intro hum
      exact ⟨_, hum, by simp⟩
  unfold Tables.hasUserMessage at hmem ⊢
  rw [hhas, hmem, hhas]
  apply and_congr_left
  intro _
  constructor
  · rintro (hold | ⟨hhistory, hcurrent, hin, -⟩)
    · exact .inl hold
    · exact .inr ⟨hhistory, hin, hcurrent⟩
  · rintro (hold | ⟨hhistory, hin, hcurrent⟩)
    · exact .inl hold
    · by_cases hold : UserMessage.mk userId id ∈ t.userMessages
      · exact .inl hold
      · refine .inr ⟨hhistory, hcurrent, hin, ?_⟩
        rw [← Bool.not_eq_true, hhas]
        exact hold

end Membership

end GrowTeam.Chat
