/-
# Limits of moves

What an accepted edit request moves, and which of it was checked.  Limits of time are checked
for the message that is edited and, when all messages of the topic move, for those of them that
the user may read.  Within a channel the others move along, to keep the topic together.
Resolving a topic has a permission of its own and neither a limit nor the check of who may
create topics.
-/
import GrowTeam.Chat.Moved
import Mathlib.Data.List.Perm.Subperm

namespace GrowTeam.Chat

open List Database Table

/-! ## What a move is -/

/-- The message got another topic. -/
def Edited.TopicMoved (e : Edited) (b : Board) (message : Message) : Prop :=
  e.topicName message.id ≠ b.topicName message.id

/-- The message got another recipient. -/
def Edited.ChannelMoved (e : Edited) (message : Message) : Prop :=
  e.recipient message.id ≠ some message.recipient

/-- The message was sent in time to be moved to another topic. -/
def Board.InTimeForTopic (b : Board) (user : UserProfile) (now : ℤ) (id : ℕ) : Prop :=
  isPast (b.realm user.realmId).moveMessagesWithinStreamLimitSeconds now (b.dateSent id) = false

/-- The message was sent in time to be moved to another channel. -/
def Board.InTimeForChannel (b : Board) (user : UserProfile) (now : ℤ) (id : ℕ) : Prop :=
  isPast (b.realm user.realmId).moveMessagesBetweenStreamsLimitSeconds now (b.dateSent id) = false

section Requests

variable (strip upper : String → String)

/-- The request resolves or unresolves the topic of its message. -/
def EditRequest.resolves (r : EditRequest) (b : Board) : Bool :=
  (requestedTopicName strip b r.messageId r.topicName).any fun topicName =>
    topicResolved (b.topicName r.messageId) topicName ||
      topicUnresolved (b.topicName r.messageId) topicName

/-- The user may create topics in the channel where the message is now, or there was the topic
that the message has now. -/
def TopicAllowed (b : Board) (user : UserProfile) (e : Edited) (message : Message) : Prop :=
  ∀ recipient stream, e.recipient message.id = some recipient →
    b.streams.get? recipient.typeId = some stream →
    messagesForTopic upper b.toTables b.topicName stream.realmId stream.recipientId
      (e.topicName message.id) ≠ [] ∨ b.canCreateTopic user stream = true

/-- A message that was moved was in time for each kind of move that was made, where resolving a
topic is a kind without a limit, and is in a topic that was there or that the user may create. -/
structure MovedInTime (b : Board) (user : UserProfile) (r : EditRequest) (now : ℤ) (e : Edited)
    (message : Message) : Prop where
  topic : e.TopicMoved b message → r.resolves strip b = false →
    b.InTimeForTopic user now message.id
  channel : e.ChannelMoved message → b.InTimeForChannel user now message.id
  target : e.TopicMoved b message ∨ e.ChannelMoved message → TopicAllowed upper b user e message

/-- What holds of a message that a request moved.  The time is checked of the edited message, so
of those that were sent later, and of all that the user may read when all are to move.  A request
that resolves the topic needs the permission to do so. -/
structure MovedAsChecked (b : Board) (user : UserProfile) (r : EditRequest) (now : ℤ) (e : Edited)
    (message : Message) : Prop where
  topic : e.TopicMoved b message → r.resolves strip b = false →
    b.dateSent r.messageId ≤ b.dateSent message.id ∨
      (r.propagateMode = .changeAll ∧ b.MayRead user message) →
    b.InTimeForTopic user now message.id
  channel : e.ChannelMoved message →
    b.dateSent r.messageId ≤ b.dateSent message.id ∨
      (r.propagateMode = .changeAll ∧ r.resolves strip b = false) →
    b.InTimeForChannel user now message.id
  readable : e.ChannelMoved message → b.MayRead user message
  later : e.TopicMoved b message ∨ e.ChannelMoved message →
    r.propagateMode = .changeAll ∨ r.messageId ≤ message.id
  target : e.TopicMoved b message ∨ e.ChannelMoved message → r.resolves strip b = false →
    TopicAllowed upper b user e message
  resolution : e.TopicMoved b message → r.resolves strip b = true →
    ∀ recipient origStream targetStream, e.recipient message.id = some recipient →
      b.streams.get? message.recipient.typeId = some origStream →
      b.streams.get? recipient.typeId = some targetStream →
      b.canResolveTopics user origStream targetStream = true

end Requests

/-! ## Which messages are in time -/

section Time

variable {upper : String → String} {b : Board} {user : UserProfile} {message : Message}
  {topicName : Option String} {streamId : Option ℕ} {now : ℤ}

/-- A list of ids of which as many are selected as there are is selected as a whole. -/
theorem selected_of_length_eq {p : Message → Bool} {ids : List ℕ} {messages : Table Message.id}
    (hlength : ids.length = (messages.rows.filter fun m => decide (m.id ∈ ids) && p m).length)
    {id : ℕ} (hid : id ∈ ids) : ∃ m ∈ messages.rows, m.id = id ∧ p m = true := by
  set selected := messages.rows.filter fun m => decide (m.id ∈ ids) && p m with hselected
  have hnodup : (selected.map (·.id)).Nodup := by
    have hall : (messages.rows.map (·.id)).Nodup := messages.sorted.imp fun hlt => Nat.ne_of_lt hlt
    exact hall.sublist (filter_sublist.map _)
  have hsubset : selected.map (·.id) ⊆ ids := by
    intro other hother
    obtain ⟨m, hm, rfl⟩ := mem_map.mp hother
    have hp := (mem_filter.mp hm).2
    rw [Bool.and_eq_true, decide_eq_true_eq] at hp
    exact hp.1
  have hperm : (selected.map (·.id)).Perm ids :=
    (hnodup.subperm hsubset).perm_of_length_le (by rw [length_map, hlength])
  obtain ⟨m, hm, hmid⟩ := mem_map.mp (hperm.mem_iff.mpr hid)
  obtain ⟨hrow, hp⟩ := mem_filter.mp hm
  rw [Bool.and_eq_true] at hp
  exact ⟨m, hrow, hmid, hp.2⟩

/-- A limit is kept by what is later than a stricter one lets it be. -/
theorem inTime_of_le {limit : Option ℕ} {sent : ℤ} (h : ∀ seconds, limit = some seconds →
    ∃ deadlineSeconds, deadlineSeconds ≤ seconds + messageEditTimeLimitBufferSeconds ∧
      now - (deadlineSeconds : ℤ) * 1000000 < sent) : isPast limit now sent = false := by
  unfold isPast
  cases limit with
  | none => rfl
  | some seconds =>
    obtain ⟨deadlineSeconds, hle, hlater⟩ := h seconds rfl
    rw [decide_eq_false_iff_not]
    omega

/-- The stricter limit is at least as strict as each of the two. -/
theorem inTime_of_deadline {settings : RealmSettings} {sent : ℤ} {limit : Option ℕ}
    (hlimit : (if topicName.isSome then settings.moveMessagesWithinStreamLimitSeconds else none) =
        limit ∨
      (if streamId.isSome then settings.moveMessagesBetweenStreamsLimitSeconds else none) = limit)
    (h : ∀ deadlineSeconds, messageMoveDeadlineSeconds settings topicName streamId =
      some deadlineSeconds → now - (deadlineSeconds : ℤ) * 1000000 < sent) :
    isPast limit now sent = false := by
  refine inTime_of_le fun seconds hseconds => ?_
  subst hseconds
  unfold messageMoveDeadlineSeconds at h
  generalize (if topicName.isSome = true then settings.moveMessagesWithinStreamLimitSeconds
    else none) = topicLimit at h hlimit
  generalize (if streamId.isSome = true then settings.moveMessagesBetweenStreamsLimitSeconds
    else none) = streamLimit at h hlimit
  rcases hlimit with rfl | rfl
  · cases streamLimit with
    | none => exact ⟨_, le_refl _, h _ rfl⟩
    | some _ => exact ⟨_, Nat.min_le_left _ _, h _ rfl⟩
  · cases topicLimit with
    | none => exact ⟨_, le_refl _, h _ rfl⟩
    | some _ => exact ⟨_, Nat.min_le_right _ _, h _ rfl⟩

/-- A message sent later than one that is in time is in time. -/
theorem inTime_later {limitSeconds : Option ℕ} {sent later : ℤ}
    (h : isPast limitSeconds now sent = false) (hle : sent ≤ later) :
    isPast limitSeconds now later = false := by
  unfold isPast at h ⊢
  cases limitSeconds with
  | none => rfl
  | some seconds =>
    simp only [decide_eq_false_iff_not] at h ⊢
    omega

/-- Where the check for all messages passes, those that were asked about are in time. -/
theorem requested_inTime {u : Unit}
    (h : checkTimeLimitForChangeAllPropagateMode upper b user message topicName streamId now =
      .ok u) {stream : Stream}
    (hstream : b.getStreamByIdInRealm message.recipient.typeId user.realmId = some stream)
    {m : Message} (hm : m ∈ b.messages.rows)
    (hrequested : m.id ∈ messagesRequestedToMove upper b user stream message) :
    ∀ deadlineSeconds, messageMoveDeadlineSeconds (b.realm user.realmId) topicName streamId =
      some deadlineSeconds → now - (deadlineSeconds : ℤ) * 1000000 < b.dateSent m.id := by
  intro deadlineSeconds hdeadline
  unfold checkTimeLimitForChangeAllPropagateMode at h
  rw [hdeadline, hstream] at h
  dsimp only at h
  by_cases hlength : (messagesRequestedToMove upper b user stream message).length =
      (b.messages.rows.filter fun other =>
        decide (other.id ∈ messagesRequestedToMove upper b user stream message) &&
          decide (now - (deadlineSeconds : ℤ) * 1000000 < b.dateSent other.id)).length
  · obtain ⟨row, hrow, hid, hin⟩ := selected_of_length_eq hlength hrequested
    rw [ext_key hrow hm hid] at hin
    exact of_decide_eq_true hin
  · rw [if_neg hlength] at h
    split at h <;> cases h

end Time

/-! ## What an accepted request was checked for -/

section Accepted

variable {strip upper : String → String} {invalidCharacter : String → Option ℕ}
  {sha256 : String → String} {isWidgetMessage : ℕ → Bool}
  {validateUserCanEditMessage : UserProfile → Message → Except EditError Unit}
  {checkContent : UserProfile → Message → String → Except EditError Unit}
  {b : Board} {user : UserProfile} {message m : Message} {r : EditRequest} {now : ℤ} {e : Edited}
  {request : StreamMessageEditRequest}

variable (strip upper b user message r now request) in
/-- An edit request for a message of a channel that passed the checks. -/
structure Checked : Prop where
  row : message ∈ b.messages.rows
  id : message.id = r.messageId
  origStream : request.origStream ∈ b.streams.rows
  sentTo : message.SentTo request.origStream
  sees : b.Sees user request.origStream message
  active : request.origStream.deactivated = false
  origTopicName : request.origTopicName = b.topicName message.id
  targetStream : request.targetStream ∈ b.streams.rows
  sameStream : request.isStreamEdited = false → request.targetStream = request.origStream
  sameTopic : request.isTopicEdited = false → request.targetTopicName = b.topicName message.id
  topicEdited : request.isTopicEdited = (requestedTopicName strip b message.id r.topicName).isSome
  streamEdited : request.isStreamEdited = r.streamId.isSome
  moved : request.isMessageMoved = (r.streamId.isSome ||
    (requestedTopicName strip b message.id r.topicName).isSome)
  mode : request.propagateMode = r.propagateMode
  resolution : request.isResolution = r.resolves strip b
  permissions : request.isTopicEdited = true →
    checkStreamTopicEditPermissions b user message request now = .ok ()
  move : checkMove upper b user message request (requestedTopicName strip b message.id r.topicName)
    r.streamId now = .ok ()

/-- A message that may be changed is one of an active channel that the user sees. -/
theorem accessMessage_eq_ok {d : Database} {id : ℕ}
    (h : d.accessMessage user id true = .ok message) :
    message ∈ d.messages.rows ∧ message.id = id ∧
      (message.recipient.type = .stream → ∃ stream ∈ d.streams.rows, message.SentTo stream ∧
        d.Sees user stream message ∧ stream.deactivated = false) := by
  unfold Tables.accessMessage at h
  cases hget : d.messages.get? id with
  | none => simp [hget] at h
  | some row =>
    rw [hget, Server.bind_eq_ok] at h
    obtain ⟨access, haccess, hreturn⟩ := h
    cases access
    · simp at hreturn
    · obtain rfl : row = message := by simpa using hreturn
      obtain ⟨hrow, hid⟩ := get?_eq_some.mp hget
      refine ⟨hrow, hid, fun htype => ?_⟩
      rcases direct_or_sentTo hrow with hdirect | ⟨stream, hs, hsent⟩
      · exact absurd htype hdirect
      · rw [hasMessageAccess_channel hrow hs hsent (.inl rfl), ← hid,
          Except.ok.injEq, hasChannelMessageAccess_iff] at haccess
        exact ⟨stream, hs, hsent, haccess.1, by simpa using haccess.2⟩

/-- The channel that a message is to be in is one of the database. -/
theorem mem_of_requestedStream {origStream targetStream : Stream} {streamId : Option ℕ}
    (horig : origStream ∈ b.streams.rows)
    (h : requestedStream b user origStream streamId = some targetStream) :
    targetStream ∈ b.streams.rows ∧ (streamId.isSome = false → targetStream = origStream) := by
  unfold requestedStream at h
  cases streamId with
  | none =>
    obtain rfl : origStream = targetStream := by simpa using h
    exact ⟨horig, fun _ => rfl⟩
  | some id =>
    unfold Tables.accessStreamById at h
    dsimp only at h
    split at h
    · next stream hstream =>
      obtain ⟨hrow, -, -⟩ := find_eq_some.mp hstream
      split at h
      · obtain rfl : stream = targetStream := by simpa using h
        exact ⟨hrow, fun hnone => by simp at hnone⟩
      · cases h
    · cases h

/-- An accepted request is for a direct message, which stays, or it passed the checks. -/
theorem checkUpdateMessage_eq_ok
    (h : checkUpdateMessage strip upper invalidCharacter sha256 isWidgetMessage
      validateUserCanEditMessage checkContent b user r now = .ok e) :
    e = ⟨b.toTables, b.topicName⟩ ∨
      ∃ message request, Checked strip upper b user message r now request ∧
        e = doUpdateMessage upper b user message request := by
  unfold checkUpdateMessage at h
  simp only [bind_eq_ok_iff, accessEditedMessage_eq_ok] at h
  obtain ⟨message, haccess, -, -, -, -, h⟩ := h
  obtain ⟨hrow, hid, hchannel⟩ := accessMessage_eq_ok haccess
  by_cases htype : message.recipient.type = .stream
  · rw [if_neg (not_not_intro htype)] at h
    unfold checkUpdateStreamMessage at h
    simp only [bind_eq_ok_iff, whenever_eq_ok, pure_eq_ok_iff] at h
    obtain ⟨request, hbuild, -, hpermissions, -, -, _, hmove, hreturn⟩ := h
    unfold buildMessageEditRequest at hbuild
    simp only [bind_eq_ok_iff, found_eq_ok, pure_eq_ok_iff] at hbuild
    obtain ⟨origStream, horig, targetStream, htarget, -, -, -, -, hrequest⟩ := hbuild
    obtain ⟨stream, hs, hsent, hsees, hactive⟩ := hchannel htype
    obtain ⟨horigRow, horigId, -⟩ := find_eq_some.mp horig
    obtain rfl : stream = origStream :=
      ext_key hs horigRow (hsent.2.symm.trans horigId.symm)
    obtain ⟨htargetRow, hsame⟩ := mem_of_requestedStream horigRow htarget
    subst hrequest
    refine .inr ⟨message, _, ?_, hreturn.symm⟩
    exact {
      row := hrow
      id := hid
      origStream := horigRow
      sentTo := hsent
      sees := hsees
      active := hactive
      origTopicName := rfl
      targetStream := htargetRow
      sameStream := hsame
      sameTopic := by
        intro hnone
        rw [Option.isSome_eq_false_iff, Option.isNone_iff_eq_none] at hnone
        rw [hnone]
        rfl
      topicEdited := rfl
      streamEdited := rfl
      moved := rfl
      mode := rfl
      resolution := by
        unfold StreamMessageEditRequest.isResolution EditRequest.resolves
        rw [← hid]
        cases requestedTopicName strip b message.id r.topicName <;> rfl
      permissions := hpermissions
      move := hmove }
  · rw [if_pos htype] at h
    rw [bind_eq_ok_iff, pure_eq_ok_iff] at h
    obtain ⟨-, -, hreturn⟩ := h
    exact .inl hreturn.symm

namespace Checked

/-! ### The edited message -/

section

variable (h : Checked strip upper b user message r now request)

include h

theorem inTimeForTopic
    (hlimited : user.isModerator = false) (hedited : request.isTopicEdited = true)
    (hresolution : request.isResolution = false) : b.InTimeForTopic user now message.id := by
  have hpermissions := h.permissions hedited
  unfold checkStreamTopicEditPermissions at hpermissions
  simp only [hresolution, Bool.false_eq_true, if_false, bind_eq_ok_iff, check_eq_ok, hlimited,
    Bool.false_or, Bool.not_eq_true'] at hpermissions
  obtain ⟨-, -, hintime⟩ := hpermissions
  exact hintime

theorem canResolveTopics
    (hedited : request.isTopicEdited = true) (hresolution : request.isResolution = true) :
    b.canResolveTopics user request.origStream request.targetStream = true := by
  have hpermissions := h.permissions hedited
  unfold checkStreamTopicEditPermissions at hpermissions
  rwa [if_pos hresolution, check_eq_ok] at hpermissions

/-- The three parts of the check of a move. -/
theorem move_parts (hlimited : user.isModerator = false) :
    (request.isStreamEdited = true → b.InTimeForChannel user now message.id) ∧
      (request.isMessageMoved = true → request.isResolution = false →
        (request.propagateMode = .changeAll →
          checkTimeLimitForChangeAllPropagateMode upper b user message
            (requestedTopicName strip b message.id r.topicName) r.streamId now = .ok ()) ∧
        (b.canCreateTopic user request.targetStream = true ∨
          messagesForTopic upper b.toTables b.topicName request.targetStream.realmId
            request.targetStream.recipientId request.targetTopicName ≠ [])) := by
  have hmove := h.move
  unfold checkMove checkForCanCreateTopicGroupViolation at hmove
  simp only [bind_eq_ok_iff, whenever_eq_ok, check_eq_ok, hlimited, Bool.false_or,
    Bool.not_eq_true', Bool.and_eq_true, decide_eq_true_eq, Bool.or_eq_true, and_true] at hmove
  obtain ⟨-, hchannel, -, hall, hcreate⟩ := hmove
  refine ⟨fun hedited => ?_, fun hmoved hresolution => ⟨fun hmode => ?_, ?_⟩⟩
  · obtain ⟨-, -, -, -, hintime⟩ := hchannel hedited
    exact hintime
  · exact hall ⟨⟨hmode, hmoved⟩, hresolution⟩
  · refine (hcreate ⟨hmoved, hresolution⟩).imp_right fun hsome hnone => ?_
    rw [hnone] at hsome
    simp at hsome

/-! ### The other messages -/

theorem realmId_eq :
    request.origStream.realmId = user.realmId ∧ message.realmId = user.realmId := by
  have hrealm := realmId_of_sentTo h.row h.origStream h.sentTo
  exact ⟨h.sees.1, hrealm.trans h.sees.1⟩

/-- A message of the topic is in the channel of the edited one. -/
theorem of_mem_topic
    (hm : m ∈ messagesForTopic upper b.toTables b.topicName request.origStream.realmId
      request.origStream.recipientId request.origTopicName) :
    m ∈ b.messages.rows ∧ m.SentTo request.origStream ∧
      upper (b.topicName m.id) = upper (b.topicName message.id) := by
  obtain ⟨hrow, -, hrecipient, htopic, htype⟩ := mem_messagesForTopic.mp hm
  rw [h.origTopicName] at htopic
  exact ⟨hrow, (sentTo_iff hrow h.origStream).mpr ⟨htype, hrecipient⟩, htopic⟩

end

theorem mayRead_iff_sees {stream : Stream} (hm : m ∈ b.messages.rows)
    (hs : stream ∈ b.streams.rows) (hsent : m.SentTo stream) :
    b.MayRead user m ↔ b.Sees user stream m := by
  unfold Tables.MayRead
  rw [hasMessageAccess_channel hm hs hsent (.inl rfl), Except.ok.injEq,
    hasChannelMessageAccess_iff]
  simp

/-- Of the topic, the messages that the user may read are asked about. -/
theorem requested (h : Checked strip upper b user message r now request)
    (hm : m ∈ b.messages.rows) (hsent : m.SentTo request.origStream)
    (htopic : upper (b.topicName m.id) = upper (b.topicName message.id))
    (hread : b.MayRead user m) :
    m.id ∈ messagesRequestedToMove upper b user request.origStream message := by
  have hrecipient : m.recipient.id = message.recipient.id := by
    rw [((sentTo_iff hm h.origStream).mp hsent).2,
      ((sentTo_iff h.row h.origStream).mp h.sentTo).2]
  have hrealm : m.realmId = message.realmId := by
    rw [realmId_of_sentTo hm h.origStream hsent,
      realmId_of_sentTo h.row h.origStream h.sentTo]
  unfold messagesRequestedToMove
  cases hhistory : b.canAccessStreamHistory user request.origStream
  · -- Without access to the history the user has received what the user may read.
    have hreceived := Tables.hasUserMessage_of_sees
      ((mayRead_iff_sees hm h.origStream hsent).mp hread) h.active hhistory
    obtain ⟨um, hum, hmine⟩ := any_eq_true.mp hreceived
    rw [Bool.and_eq_true, decide_eq_true_eq, decide_eq_true_eq] at hmine
    refine mem_map.mpr ⟨um, mem_filter.mpr ⟨hum, ?_⟩, hmine.2⟩
    rw [Bool.and_eq_true, decide_eq_true_eq, any_eq_true]
    exact ⟨hmine.1, m, hm, by simp [hmine.2, hrecipient, htopic, hsent.1]⟩
  · exact mem_map_of_mem
      (mem_messagesForTopic.mpr ⟨hm, hrealm, hrecipient, htopic, hsent.1⟩)

/-- When all messages move, those of them that the user may read are in time. -/
theorem inTime_all (h : Checked strip upper b user message r now request)
    (hlimited : user.isModerator = false) (hmode : request.propagateMode = .changeAll)
    (hmoved : request.isMessageMoved = true) (hresolution : request.isResolution = false)
    (hm : m ∈ b.messages.rows) (hsent : m.SentTo request.origStream)
    (htopic : upper (b.topicName m.id) = upper (b.topicName message.id))
    (hread : b.MayRead user m) :
    (request.isTopicEdited = true → b.InTimeForTopic user now m.id) ∧
      (request.isStreamEdited = true → b.InTimeForChannel user now m.id) := by
  have hcheck := ((h.move_parts hlimited).2 hmoved hresolution).1 hmode
  have hstream : b.getStreamByIdInRealm message.recipient.typeId user.realmId =
      some request.origStream :=
    find_eq_some.mpr ⟨h.origStream, h.sentTo.2.symm, by simp [h.realmId_eq.1]⟩
  have hintime := requested_inTime hcheck hstream hm (h.requested hm hsent htopic hread)
  refine ⟨fun hedited => ?_, fun hedited => ?_⟩
  · exact inTime_of_deadline (.inl (if_pos (by rw [← h.topicEdited, hedited]))) hintime
  · exact inTime_of_deadline (.inr (if_pos (by rw [← h.streamEdited, hedited]))) hintime

/-! ### A message that has moved -/

variable (upper b user m request message) in
/-- A message that is edited or was found, in the place that was asked for. -/
structure Moves (e : Edited) : Prop where
  sentTo : m.SentTo request.origStream
  topic : upper (b.topicName m.id) = upper (b.topicName message.id)
  topicName : e.topicName m.id =
    if request.isTopicEdited then request.targetTopicName else b.topicName m.id
  recipient : e.recipient m.id = some (if request.isStreamEdited then
    ⟨request.targetStream.recipientId, .stream, request.targetStream.id⟩ else m.recipient)
  later : request.propagateMode = .changeAll ∨ message.id ≤ m.id
  readable : request.isStreamEdited = true → b.MayRead user m

theorem moves (h : Checked strip upper b user message r now request)
    (he : e = doUpdateMessage upper b user message request) (hm : m ∈ b.messages.rows)
    (hmoved : e.TopicMoved b m ∨ e.ChannelMoved m) : Moves upper b user message m request e := by
  rcases doUpdateMessage_place he hm with ⟨htopic, hrecipient⟩ | ⟨hwhich, htopic, hrecipient⟩
  · rcases hmoved with hmoved | hmoved
    · exact absurd htopic hmoved
    · exact absurd hrecipient hmoved
  · rcases hwhich with hid | hfound
    · obtain rfl : m = message := ext_key hm h.row hid
      exact ⟨h.sentTo, rfl, htopic, hrecipient, .inr (le_refl _), fun _ =>
        (mayRead_iff_sees hm h.origStream h.sentTo).mpr h.sees⟩
    · obtain ⟨hin, hmode, hbulk⟩ := mem_messagesForTopicEdit.mp hfound
      obtain ⟨-, hsent, hsame⟩ := h.of_mem_topic hin
      refine ⟨hsent, hsame, htopic, hrecipient, ?_, fun hedited => ?_⟩
      · exact hmode.imp And.left fun hlater => Nat.le_of_lt hlater.2
      · obtain ⟨-, -, -, haccess⟩ := mem_bulkAccessStreamMessagesQuery.mp (hbulk hedited)
        exact (mayRead_iff_sees hm h.origStream hsent).mpr ⟨h.realmId_eq.1, haccess⟩

namespace Moves

section

variable (h : Moves upper b user message m request e)

include h

theorem topicEdited (hmoved : e.TopicMoved b m) : request.isTopicEdited = true := by
  by_contra hedited
  exact hmoved (by rw [h.topicName, if_neg hedited])

theorem streamEdited (hmoved : e.ChannelMoved m) : request.isStreamEdited = true := by
  by_contra hedited
  exact hmoved (by rw [h.recipient, if_neg hedited])

/-- A message that has moved was asked to be moved. -/
theorem isMessageMoved (hchecked : Checked strip upper b user message r now request)
    (hmoved : e.TopicMoved b m ∨ e.ChannelMoved m) : request.isMessageMoved = true := by
  rw [hchecked.moved, Bool.or_eq_true, ← hchecked.topicEdited, ← hchecked.streamEdited]
  exact hmoved.symm.imp h.streamEdited h.topicEdited

/-- The message is now in the target channel. -/
theorem stream_eq
    (hchecked : Checked strip upper b user message r now request) {recipient : Recipient}
    {stream : Stream} (hrecipient : e.recipient m.id = some recipient)
    (hstream : b.streams.get? recipient.typeId = some stream) : stream = request.targetStream := by
  obtain ⟨hrow, hid⟩ := get?_eq_some.mp hstream
  rw [h.recipient, Option.some.injEq] at hrecipient
  subst hrecipient
  apply ext_key hrow hchecked.targetStream
  cases hedited : request.isStreamEdited
  · rw [hchecked.sameStream hedited, hid, hedited]
    exact h.sentTo.2
  · rw [hid, hedited]
    rfl

end

end Moves

end Checked

/-- **Limits of moves.**  Of a user who has limits, a request that is accepted moves messages as
they were checked. -/
theorem moves_as_checked (hlimited : user.isModerator = false)
    (h : checkUpdateMessage strip upper invalidCharacter sha256 isWidgetMessage
      validateUserCanEditMessage checkContent b user r now = .ok e) :
    ∀ m ∈ b.messages.rows, MovedAsChecked strip upper b user r now e m := by
  intro m hm
  rcases checkUpdateMessage_eq_ok h with rfl | ⟨message, request, hchecked, he⟩
  · have hstill : ¬((⟨b.toTables, b.topicName⟩ : Edited).TopicMoved b m ∨
        (⟨b.toTables, b.topicName⟩ : Edited).ChannelMoved m) := by
      rintro (htopic | hchannel)
      · exact htopic rfl
      · apply hchannel
        unfold Edited.recipient
        rw [Table.get?_eq_some.mpr ⟨hm, rfl⟩]
        rfl
    exact ⟨fun ht => absurd (.inl ht) hstill, fun hc => absurd (.inr hc) hstill,
      fun hc => absurd (.inr hc) hstill, fun ht => absurd ht hstill,
      fun ht => absurd ht hstill, fun ht => absurd (.inl ht) hstill⟩
  · have hmoves := fun hmoved => hchecked.moves he hm hmoved
    refine ⟨?_, ?_, ?_, ?_, ?_, ?_⟩
    · intro htopic hresolves hcovered
      have hm' := hmoves (.inl htopic)
      have hedited := hm'.topicEdited htopic
      have hresolution := hchecked.resolution.trans hresolves
      rcases hcovered with hlater | ⟨hmode, hread⟩
      · rw [← hchecked.id] at hlater
        exact inTime_later (hchecked.inTimeForTopic hlimited hedited hresolution) hlater
      · exact (hchecked.inTime_all hlimited (hchecked.mode.trans hmode)
          (hm'.isMessageMoved hchecked (.inl htopic)) hresolution hm hm'.sentTo hm'.topic
          hread).1 hedited
    · intro hchannel hcovered
      have hm' := hmoves (.inr hchannel)
      have hedited := hm'.streamEdited hchannel
      rcases hcovered with hlater | ⟨hmode, hresolves⟩
      · rw [← hchecked.id] at hlater
        exact inTime_later ((hchecked.move_parts hlimited).1 hedited) hlater
      · exact (hchecked.inTime_all hlimited (hchecked.mode.trans hmode)
          (hm'.isMessageMoved hchecked (.inr hchannel)) (hchecked.resolution.trans hresolves) hm
          hm'.sentTo hm'.topic (hm'.readable hedited)).2 hedited
    · intro hchannel
      have hm' := hmoves (.inr hchannel)
      exact hm'.readable (hm'.streamEdited hchannel)
    · intro hmoved
      rw [← hchecked.mode, ← hchecked.id]
      exact (hmoves hmoved).later
    · intro hmoved hresolves recipient stream hrecipient hstream
      have hm' := hmoves hmoved
      obtain rfl := hm'.stream_eq hchecked hrecipient hstream
      refine ((hchecked.move_parts hlimited).2 (hm'.isMessageMoved hchecked hmoved)
        (hchecked.resolution.trans hresolves)).2.symm.imp_left fun hexists hnone => ?_
      apply hexists
      rw [← hnone, hm'.topicName]
      cases hedited : request.isTopicEdited
      · rw [hchecked.sameTopic hedited]
        unfold messagesForTopic
        rw [if_neg Bool.false_ne_true, hm'.topic]
      · rfl
    · intro htopic hresolves recipient origStream targetStream hrecipient horig htarget
      have hm' := hmoves (.inl htopic)
      obtain rfl := hm'.stream_eq hchecked hrecipient htarget
      obtain ⟨hrow, hid⟩ := Table.get?_eq_some.mp horig
      obtain rfl : origStream = request.origStream :=
        Table.ext_key hrow hchecked.origStream (hid.trans hm'.sentTo.2)
      exact hchecked.canResolveTopics (hm'.topicEdited htopic)
        (hchecked.resolution.trans hresolves)

end Accepted

/-! ## Messages that move along -/

section Examples

def team : List Stream := [⟨1, 1, 10, false, true, false, false, 9, 9⟩]

def teamMessages : List Message :=
  [⟨1, 1, ⟨10, .stream, 1⟩, "soup"⟩, ⟨2, 1, ⟨10, .stream, 1⟩, "bread"⟩,
    ⟨3, 1, ⟨10, .stream, 1⟩, "snow"⟩, ⟨4, 1, ⟨10, .stream, 1⟩, "rain"⟩]

theorem team_sorted : (team.map Stream.id).Pairwise (· < ·) := by decide

theorem teamMessages_sorted : (teamMessages.map Message.id).Pairwise (· < ·) := by decide

theorem team_recipients :
    ∀ s ∈ team, ∀ s' ∈ team, s.recipientId = s'.recipientId → s = s' := by decide

theorem teamMessages_channels : ∀ message ∈ teamMessages, message.recipient.type = .stream →
    ∃ s ∈ team, s.id = message.recipient.typeId ∧ s.recipientId = message.recipient.id ∧
      s.realmId = message.realmId := by decide

/-- A private channel that does not share its history, with the topics "lunch" and "news".
Ann has not received the first message, which is old, and the last one was mirrored with an early
time.  Nobody may create topics. -/
def teamBoard : Board where
  users := Table.empty UserProfile.id
  streams := ⟨team, team_sorted⟩
  messages := ⟨teamMessages, teamMessages_sorted⟩
  userMessages := [⟨1, 2⟩, ⟨1, 3⟩, ⟨1, 4⟩]
  subscriptions := [⟨1, 10, true⟩]
  groupMemberships := [⟨1, 5⟩]
  subgroups := []
  recipients := team_recipients
  channels := teamMessages_channels
  topicName := fun id => if id ≤ 2 then "lunch" else "news"
  dateSent := fun id => if id = 2 ∨ id = 3 then 1000000000 else 0
  realm := fun _ => ⟨5, 5, 5, some 60, some 60, .allowEmptyTopic⟩
  channel := fun _ => ⟨9, 9, 9, 9, 9, 5, .inherit⟩
  everyoneGroups := []
  crossRealmBots := []
  botOwner := fun _ => none

def ann : UserProfile := ⟨1, 1, true, .member⟩

/-- A request of Ann, to which the checks of the content do not apply. -/
def annAsks (r : EditRequest) : Except EditError Edited :=
  checkUpdateMessage id id (fun _ => none) id (fun _ => false) (fun _ _ => .ok ())
    (fun _ _ _ => .ok ()) teamBoard ann r 1000000000

/-- The place of a message after a request that is accepted. -/
def placeAfter (x : Except EditError Edited) (id : ℕ) : Option (Option Recipient × String) :=
  match x with
  | .ok e => some (e.recipient id, e.topicName id)
  | .error _ => none

theorem placeAfter_eq_some {x : Except EditError Edited} {id : ℕ} {recipient : Option Recipient}
    {topicName : String} (h : placeAfter x id = some (recipient, topicName)) :
    ∃ e, x = .ok e ∧ e.recipient id = recipient ∧ e.topicName id = topicName := by
  cases x with
  | error e => cases h
  | ok e =>
    unfold placeAfter at h
    rw [Option.some.injEq, Prod.mk.injEq] at h
    exact ⟨e, rfl, h⟩

/-- The topic "lunch" is joined with "news": the message that Ann has not received moves along,
however old it is. -/
def joinTopics : EditRequest := ⟨2, none, some "news", .changeAll, none, none⟩

/-- The topic of one message is resolved, which makes a new one. -/
def resolveTopic : EditRequest := ⟨2, none, some "✔ lunch", .changeOne, none, none⟩

/-- The later messages of "news" are moved: of them it is not asked when they were sent. -/
def moveLater : EditRequest := ⟨3, none, some "lunch", .changeLater, none, none⟩

theorem moves_not_in_time :
    (∃ e, annAsks joinTopics = .ok e ∧ ∃ m ∈ teamBoard.messages.rows,
        ¬MovedInTime id id teamBoard ann joinTopics 1000000000 e m) ∧
      (∃ e, annAsks resolveTopic = .ok e ∧ ∃ m ∈ teamBoard.messages.rows,
        ¬MovedInTime id id teamBoard ann resolveTopic 1000000000 e m) ∧
      ∃ e, annAsks moveLater = .ok e ∧ ∃ m ∈ teamBoard.messages.rows,
        ¬MovedInTime id id teamBoard ann moveLater 1000000000 e m := by
  refine ⟨?_, ?_, ?_⟩
  · obtain ⟨e, he, -, htopic⟩ : ∃ e, annAsks joinTopics = .ok e ∧
        e.recipient 1 = some ⟨10, .stream, 1⟩ ∧ e.topicName 1 = "news" :=
      placeAfter_eq_some (by decide)
    refine ⟨e, he, ⟨1, 1, ⟨10, .stream, 1⟩, "soup"⟩, by decide, fun h => ?_⟩
    have hmoved : e.TopicMoved teamBoard ⟨1, 1, ⟨10, .stream, 1⟩, "soup"⟩ := by
      show e.topicName 1 ≠ "lunch"
      rw [htopic]
      decide
    exact absurd (h.topic hmoved (by decide)) (by unfold Board.InTimeForTopic; decide)
  · obtain ⟨e, he, hrecipient, htopic⟩ : ∃ e, annAsks resolveTopic = .ok e ∧
        e.recipient 2 = some ⟨10, .stream, 1⟩ ∧ e.topicName 2 = "✔ lunch" :=
      placeAfter_eq_some (by decide)
    refine ⟨e, he, ⟨2, 1, ⟨10, .stream, 1⟩, "bread"⟩, by decide, fun h => ?_⟩
    have hmoved : e.TopicMoved teamBoard ⟨2, 1, ⟨10, .stream, 1⟩, "bread"⟩ := by
      show e.topicName 2 ≠ "lunch"
      rw [htopic]
      decide
    have hallowed := h.target (.inl hmoved) _ ⟨1, 1, 10, false, true, false, false, 9, 9⟩
      hrecipient (by decide)
    rw [show e.topicName (Message.id ⟨2, 1, ⟨10, .stream, 1⟩, "bread"⟩) = "✔ lunch" from htopic]
      at hallowed
    revert hallowed
    decide
  · obtain ⟨e, he, -, htopic⟩ : ∃ e, annAsks moveLater = .ok e ∧
        e.recipient 4 = some ⟨10, .stream, 1⟩ ∧ e.topicName 4 = "lunch" :=
      placeAfter_eq_some (by decide)
    refine ⟨e, he, ⟨4, 1, ⟨10, .stream, 1⟩, "rain"⟩, by decide, fun h => ?_⟩
    have hmoved : e.TopicMoved teamBoard ⟨4, 1, ⟨10, .stream, 1⟩, "rain"⟩ := by
      show e.topicName 4 ≠ "news"
      rw [htopic]
      decide
    exact absurd (h.topic hmoved (by decide)) (by unfold Board.InTimeForTopic; decide)

/-- The whole topic "lunch" is joined, and of what Ann may read all is in time. -/
theorem moves_as_checked_joinTopics : ∃ e, annAsks joinTopics = .ok e ∧
    MovedAsChecked id id teamBoard ann joinTopics 1000000000 e
      ⟨2, 1, ⟨10, .stream, 1⟩, "bread"⟩ := by
  obtain ⟨e, he, -, -⟩ : ∃ e, annAsks joinTopics = .ok e ∧
      e.recipient 2 = some ⟨10, .stream, 1⟩ ∧ e.topicName 2 = "news" :=
    placeAfter_eq_some (by decide)
  exact ⟨e, he, moves_as_checked (by decide) he _ (by decide)⟩

end Examples

end GrowTeam.Chat
