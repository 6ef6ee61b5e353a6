/-
# Access moves with the messages

After a move to another channel, who is told of the new place may read the message there, who may
not read a moved message any more has lost it and is told so, and nobody else loses a message.  Two
things have to be the case for it.  The one who moves the messages must not lose the rows by which
the other messages of the topic are found when they are written: these messages would stay behind
while their receivers lose them.  And a user with a row for a moved message must be among those
that the sets of users are made of: rows also come from reading and starring without subscribing.
-/
import GrowTeam.Chat.MoveLimits

namespace GrowTeam.Chat

open List Table Tables Forum Database

section Statements

variable (upper : String → String) (f : Forum) (user : UserProfile) (message : Message)

variable (request : StreamMessageEditRequest)

/-- The user's clients are told that the message was deleted. -/
def Forum.ToldDeleted (userId id : ℕ) : Prop :=
  ∃ notice, f.deleteEvent upper user message request = some notice ∧ userId ∈ notice.userIds ∧
    id ∈ notice.event.messageIds

/-- The message of the old row is in another channel now. -/
structure Edited.Moved (e : Edited) (f : Forum) (old m : Message) : Prop where
  before : old ∈ f.messages.rows
  after : m ∈ e.tables.messages.rows
  same : m.id = old.id
  moved : m.recipient ≠ old.recipient

/-- Access to the messages of a move, after it. -/
structure AccessMoves (f : Forum) (user : UserProfile) (message : Message)
    (request : StreamMessageEditRequest) (e : Edited) : Prop where
  notified : ∀ u ∈ f.users.rows, u.id ∈ (f.updateEvent upper user message request).userIds →
    ∀ m ∈ e.tables.messages.rows, m.id = message.id → e.tables.MayRead u m
  losers : ∀ old m, e.Moved f old m → ∀ u ∈ f.users.rows, f.hasUserMessage u.id old.id = true →
    ¬e.tables.MayRead u m →
      e.tables.hasUserMessage u.id m.id = false ∧
        f.ToldDeleted upper user message request u.id m.id
  others : ∀ old ∈ f.messages.rows, ∀ m ∈ e.tables.messages.rows, m.id = old.id →
    ∀ u ∈ f.users.rows, f.MayRead u old → f.hasUserMessage u.id old.id = true →
      e.tables.hasUserMessage u.id m.id = false →
        e.tables.MayRead u m ∨
          (e.Moved f old m ∧ f.ToldDeleted upper user message request u.id m.id)
  rows : request.targetStream.isHistoryPublicToSubscribers = false →
    ∀ old m, e.Moved f old m → ∀ u ∈ f.users.rows,
      (e.tables.hasUserMessage u.id m.id = true ↔
        f.isSubscribed u.id request.targetStream.recipientId = true)

/-- The messages that are to move: the edited one, and of its topic those of the mode that the
user may read. -/
def Forum.Asked (m : Message) : Prop :=
  m ∈ f.messages.rows ∧ (m = message ∨
    (m.SentTo request.origStream ∧ upper (f.topicName m.id) = upper request.origTopicName ∧
      InMode request message m ∧ f.MayRead user m))

/-- The other messages are read without rows, or the user keeps the own rows. -/
def Forum.FindsAgain : Prop :=
  (∀ m, f.Asked upper user message request m → m = message) ∨
    (request.origStream.isPublic = true ∧ user.canAccessPublicStreams = true) ∨
    request.origStream.isHistoryPublicToSubscribers = true ∨
    user.id ∉ f.usersLosingUserMessages request

/-- Who has a row for a message that is to move was once subscribed to the old channel, is
subscribed to the new one, or may read all of the new one. -/
def Forum.HoldersKnown : Prop :=
  ∀ m, f.Asked upper user message request m → ∀ u ∈ f.users.rows,
    f.hasUserMessage u.id m.id = true →
      u.id ∈ f.streamAllUsers request.origStream ∨
        u.id ∈ f.streamCurrentUsers request.targetStream ∨
        (request.targetStream.isHistoryPublicToSubscribers = true ∧
          request.targetStream.realmId = u.realmId ∧
          ((request.targetStream.isPublic = true ∧ u.canAccessPublicStreams = true) ∨
            f.hasChannelContentAccessHelper request.targetStream u none = true))

end Statements

/-! ## An accepted move to another channel -/

section Move

variable {upper : String → String} {f : Forum} {user u : UserProfile} {message m old : Message}
  {request : StreamMessageEditRequest} {e : Edited} {stream : Stream}

variable (f user message request) in
/-- What the checks let through. -/
structure ChannelMove : Prop where
  row : message ∈ f.messages.rows
  origStream : request.origStream ∈ f.streams.rows
  sentTo : message.SentTo request.origStream
  sees : f.Sees user request.origStream message
  origTopicName : request.origTopicName = f.topicName message.id
  targetStream : request.targetStream ∈ f.streams.rows
  targetRealm : request.targetStream.realmId = user.realmId
  edited : request.isStreamEdited = true
  other : request.targetStream ≠ request.origStream

/-- The rows of a user are looked up among those of the old channel. -/
theorem mayRead_iff {t : Tables} (htype : m.recipient.type = .stream)
    (hs : t.streams.get? m.recipient.typeId = some stream) :
    t.MayRead u m ↔ stream.realmId = u.realmId ∧
      ((stream.isPublic = true ∧ u.canAccessPublicStreams = true) ∨
        (t.hasChannelContentAccessHelper stream u none = true ∧
          (stream.isHistoryPublicToSubscribers = true ∨ t.hasUserMessage u.id m.id = true))) := by
  by_cases hrealm : stream.realmId = u.realmId
  · rw [mayRead_channel htype hs hrealm, and_iff_right hrealm]
  · have hstream : t.messageStream m none = .ok stream := by
      unfold messageStream
      rw [hs]
    unfold Tables.MayRead hasMessageAccess
    rw [if_neg (not_not_intro htype), hstream]
    unfold hasChannelMessageAccess
    simp [hrealm]

namespace ChannelMove

section

variable (h : ChannelMove f user message request)

include h

theorem mem_changedMessageIds (hm : m ∈ f.messages.rows) :
    m.id ∈ f.changedMessageIds upper user message request ↔
      f.Asked upper user message request m := by
  have hlisted : m.id ∈ (messagesForTopicEdit upper f.toTables f.topicName user message
      request).map (·.id) ↔
      m ∈ messagesForTopicEdit upper f.toTables f.topicName user message request := by
    refine mem_map_key (fun row hrow => ?_) hm
    exact (mem_messagesForTopic.mp (mem_messagesForTopicEdit.mp hrow).1).1
  unfold changedMessageIds Forum.Asked
  rw [mem_cons, hlisted, and_iff_right hm]
  apply or_congr
  · exact ⟨fun hid => ext_key hm h.row hid, fun heq => by rw [heq]⟩
  · rw [mem_messagesForTopicEdit, mem_messagesForTopic, mem_bulkAccessStreamMessagesQuery]
    constructor
    · rintro ⟨⟨-, -, hrecipient, htopic, htype⟩, hmode, haccess⟩
      have hsent := (sentTo_iff hm h.origStream).mpr ⟨htype, hrecipient⟩
      obtain ⟨-, -, -, hsees⟩ := haccess h.edited
      exact ⟨hsent, htopic, hmode,
        (Checked.mayRead_iff_sees hm h.origStream hsent).mpr ⟨h.sees.1, hsees⟩⟩
    · rintro ⟨hsent, htopic, hmode, hread⟩
      obtain ⟨htype, hrecipient⟩ := (sentTo_iff hm h.origStream).mp hsent
      have hrealm := realmId_of_sentTo hm h.origStream hsent
      obtain ⟨hmine, hsees⟩ := (Checked.mayRead_iff_sees hm h.origStream hsent).mp hread
      exact ⟨⟨hm, hrealm, hrecipient, htopic, htype⟩, hmode,
        fun _ => ⟨mem_singleton.mpr rfl, hrealm.trans hmine, hrecipient, hsees⟩⟩

/-! ### The tables after it -/

section

variable (he : e = doUpdateMessage upper f.toBoard user message request)

include he

/-- Only messages and their rows change. -/
theorem tables_eq : e.tables = { f.toTables with
      userMessages := userMessagesAfterMove f.toTables request
        (f.changedMessageIds upper user message request)
      messages := e.tables.messages } := by
  rw [he]
  unfold doUpdateMessage setPlace tablesAfterMove
  simp only [h.edited, if_true]
  rfl

theorem hasUserMessage_iff (hm : m ∈ f.messages.rows) : e.tables.hasUserMessage u.id m.id = true ↔
      (f.hasUserMessage u.id m.id = true ∨
        (request.targetStream.isHistoryPublicToSubscribers = false ∧
          f.Asked upper user message request m ∧
          u.id ∈ f.streamCurrentUsers request.targetStream)) ∧
      ¬(u.id ∈ f.usersLosingUserMessages request ∧ f.Asked upper user message request m) := by
  rw [h.tables_eq he, ← h.mem_changedMessageIds hm]
  exact hasUserMessage_afterMove_iff

theorem mayRead_iff (htype : m.recipient.type = .stream) (hs : stream ∈ f.streams.rows)
    (hid : m.recipient.typeId = stream.id) : e.tables.MayRead u m ↔ stream.realmId = u.realmId ∧
      ((stream.isPublic = true ∧ u.canAccessPublicStreams = true) ∨
        (f.hasChannelContentAccessHelper stream u none = true ∧
          (stream.isHistoryPublicToSubscribers = true ∨
            e.tables.hasUserMessage u.id m.id = true))) := by
  have hstreams : e.tables.streams = f.streams := by rw [h.tables_eq he]
  have hget : e.tables.streams.get? m.recipient.typeId = some stream := by
    rw [hstreams]
    exact get?_eq_some.mpr ⟨hs, hid.symm⟩
  have hcontent : e.tables.hasChannelContentAccessHelper stream u none =
      f.hasChannelContentAccessHelper stream u none := by
    rw [h.tables_eq he]
    rfl
  rw [Chat.mayRead_iff htype hget, hcontent]

end

end

/-! ### Where the messages are -/

theorem recipient_of_mem (hm : m ∈ e.tables.messages.rows) :
    e.recipient m.id = some m.recipient := by
  unfold Edited.recipient
  rw [get?_eq_some.mpr ⟨hm, rfl⟩, Option.map_some]

section

variable (h : ChannelMove f user message request)

include h

/-- A message that moved was to move, and is in the new channel. -/
theorem of_moved
    (he : e = doUpdateMessage upper f.toBoard user message request) (hmoved : e.Moved f old m) :
    f.Asked upper user message request old ∧
      m.recipient = ⟨request.targetStream.recipientId, .stream, request.targetStream.id⟩ := by
  have hrecipient := recipient_of_mem hmoved.after
  rw [hmoved.same] at hrecipient
  rcases doUpdateMessage_place he hmoved.before with ⟨-, hkept⟩ | ⟨hlisted, -, hset⟩
  · rw [hkept, Option.some.injEq] at hrecipient
    exact absurd hrecipient.symm hmoved.moved
  · rw [hset, if_pos h.edited, Option.some.injEq] at hrecipient
    refine ⟨(h.mem_changedMessageIds hmoved.before).mp ?_, hrecipient.symm⟩
    rcases hlisted with hid | hin
    · rw [hid]
      exact mem_cons_self
    · exact mem_cons_of_mem _ (mem_map_of_mem hin)

/-- The state between the two lookups. -/
theorem found_again_iff (he : e = setPlace request [message.id] ⟨tablesAfterMove f.toTables request
      (f.changedMessageIds upper user message request), f.topicName⟩)
    (hasked : f.Asked upper user message request m) (hother : m ≠ message) :
    m ∈ messagesForTopicEdit upper e.tables e.topicName user message request ↔
      (request.origStream.isPublic = true ∧ user.canAccessPublicStreams = true) ∨
        request.origStream.isHistoryPublicToSubscribers = true ∨
        user.id ∉ f.usersLosingUserMessages request := by
  obtain ⟨hrow, hsame | ⟨hsent, htopic, hmode, hread⟩⟩ := hasked
  · exact absurd hsame hother
  have hid : m.id ≠ message.id := fun hid => hother (ext_key hrow h.row hid)
  obtain ⟨htype, hrecipient⟩ := (sentTo_iff hrow h.origStream).mp hsent
  have hrealm := realmId_of_sentTo hrow h.origStream hsent
  obtain ⟨hmine, hsees⟩ := (Checked.mayRead_iff_sees hrow h.origStream hsent).mp hread
  have hasked : f.Asked upper user message request m :=
    ⟨hrow, .inr ⟨hsent, htopic, hmode, hread⟩⟩
  have htables : e.tables = { f.toTables with
      userMessages := userMessagesAfterMove f.toTables request
        (f.changedMessageIds upper user message request)
      messages := e.tables.messages } := by
    rw [he]
    unfold setPlace tablesAfterMove
    simp only [h.edited, if_true]
  have hrowe : m ∈ e.tables.messages.rows := by
    rw [he]
    unfold setPlace tablesAfterMove
    simp only [h.edited, if_true]
    rw [mem_update]
    refine ⟨m, hrow, ?_⟩
    rw [if_neg]
    simpa using hid
  have htopice : e.topicName m.id = f.topicName m.id := by
    rw [he]
    exact if_neg fun hin => hid (mem_singleton.mp hin.2)
  have hcontent : e.tables.hasChannelContentAccessHelper request.origStream user none =
      f.hasChannelContentAccessHelper request.origStream user none := by
    rw [htables]
    rfl
  have hreceived : e.tables.hasUserMessage user.id m.id = true ↔
      (f.hasUserMessage user.id m.id = true ∨
        (request.targetStream.isHistoryPublicToSubscribers = false ∧
          m.id ∈ f.changedMessageIds upper user message request ∧
          user.id ∈ f.streamCurrentUsers request.targetStream)) ∧
      ¬(user.id ∈ f.usersLosingUserMessages request ∧
        m.id ∈ f.changedMessageIds upper user message request) := by
    rw [htables]
    exact hasUserMessage_afterMove_iff
  rw [mem_messagesForTopicEdit, mem_messagesForTopic, mem_bulkAccessStreamMessagesQuery, hcontent,
    htopice]
  constructor
  · rintro ⟨-, -, haccess⟩
    obtain ⟨-, -, -, hpublic | ⟨-, hhistory | hhas⟩⟩ := haccess h.edited
    · exact .inl hpublic
    · exact .inr (.inl hhistory)
    · refine .inr (.inr fun hloses => (hreceived.mp hhas).2 ⟨hloses, ?_⟩)
      exact (h.mem_changedMessageIds hrow).mpr hasked
  · intro hfinds
    refine ⟨⟨hrowe, hrealm, hrecipient, htopic, htype⟩, hmode, fun _ =>
      ⟨mem_singleton.mpr rfl, hrealm.trans hmine, hrecipient, ?_⟩⟩
    rcases hsees with hpublic | ⟨hmember, hhistory | hhas⟩
    · exact .inl hpublic
    · exact .inr ⟨hmember, .inl hhistory⟩
    · rcases hfinds with hpublic | hhistory | hkeeps
      · exact .inl hpublic
      · exact .inr ⟨hmember, .inl hhistory⟩
      · exact .inr ⟨hmember, .inr (hreceived.mpr ⟨.inl hhas, fun hloses => hkeeps hloses.1⟩)⟩

/-- Where a message is that was to move: it is in the new channel if it is the edited one or is
found again, and else where it was. -/
theorem recipient_of_asked (he : e = doUpdateMessage upper f.toBoard user message request)
    (hasked : f.Asked upper user message request m) : e.recipient m.id = some (if m = message ∨
        (request.origStream.isPublic = true ∧ user.canAccessPublicStreams = true) ∨
        request.origStream.isHistoryPublicToSubscribers = true ∨
        user.id ∉ f.usersLosingUserMessages request then
      ⟨request.targetStream.recipientId, .stream, request.targetStream.id⟩ else m.recipient) := by
  unfold doUpdateMessage at he
  dsimp only at he
  generalize hfirst : setPlace request [message.id] ⟨tablesAfterMove f.toTables request
    (message.id :: (messagesForTopicEdit upper f.toTables f.topicName user message request).map
      (·.id)), f.topicName⟩ = first at he
  have hrow : (⟨tablesAfterMove f.toTables request
      (message.id :: (messagesForTopicEdit upper f.toTables f.topicName user message request).map
        (·.id)), f.topicName⟩ : Edited).recipient m.id = some m.recipient := by
    unfold Edited.recipient tablesAfterMove
    have hget : f.messages.get? m.id = some m := get?_eq_some.mpr ⟨hasked.1, rfl⟩
    simp [h.edited, hget]
  have hfirstRecipient : first.recipient m.id = some (if m.id ∈ [message.id] then
      ⟨request.targetStream.recipientId, .stream, request.targetStream.id⟩ else m.recipient) := by
    rw [← hfirst, setPlace_recipient, hrow]
    simp [h.edited]
  rw [he, setPlace_recipient, hfirstRecipient, Option.map_some]
  by_cases hself : m = message
  · subst hself
    simp
  · have hid : m.id ∉ [message.id] := fun hid =>
      hself (ext_key hasked.1 h.row (mem_singleton.mp hid))
    have hlisted : m.id ∈ (messagesForTopicEdit upper first.tables first.topicName user message
        request).map (·.id) ↔
        m ∈ messagesForTopicEdit upper first.tables first.topicName user message request := by
      refine mem_map_key (fun row hrow => ?_) hasked.1
      have hbefore := mem_before rfl hfirst.symm hrow
      exact (mem_messagesForTopic.mp (mem_messagesForTopicEdit.mp hbefore).1).1
    simp only [if_neg hid, h.edited, true_and, hlisted,
      h.found_again_iff hfirst.symm hasked hself, hself, false_or]

/-! ### Who reads them there -/

theorem sentTo_of_asked
    (hasked : f.Asked upper user message request m) : m.SentTo request.origStream := by
  rcases hasked.2 with hsame | ⟨hsent, -⟩
  · rw [hsame]
    exact h.sentTo
  · exact hsent

/-- If the messages are found again, what was to move has moved. -/
theorem moved_of_asked (he : e = doUpdateMessage upper f.toBoard user message request)
    (hfinds : f.FindsAgain upper user message request)
    (hasked : f.Asked upper user message request old) (hm : m ∈ e.tables.messages.rows)
    (hid : m.id = old.id) : e.Moved f old m := by
  have hset := h.recipient_of_asked he hasked
  rw [if_pos (hfinds.imp_left fun hall => hall old hasked), ← hid, recipient_of_mem hm,
    Option.some.injEq] at hset
  refine ⟨hasked.1, hm, hid, fun hkept => h.other ?_⟩
  have htypeId : request.targetStream.id = request.origStream.id := by
    rw [← (h.sentTo_of_asked hasked).2, ← hkept, hset]
  exact ext_key h.targetStream h.origStream htypeId

theorem toldDeleted_iff {userId : ℕ} (hm : m ∈ f.messages.rows) :
    f.ToldDeleted upper user message request userId m.id ↔
      userId ∈ f.usersLosingAccess request ∧ f.Asked upper user message request m := by
  unfold Forum.ToldDeleted deleteEvent
  rw [← h.mem_changedMessageIds hm]
  simp [h.edited]

end

theorem realmId_of_subscribed (hu : u ∈ f.users.rows) (hs : stream ∈ f.streams.rows)
    (hsub : u.id ∈ f.streamAllUsers stream) : stream.realmId = u.realmId := by
  obtain ⟨sub, hsub, hrecipient, hid⟩ := mem_streamAllUsers.mp hsub
  obtain ⟨u', hu', hid', hrealm⟩ := f.subscribers sub hsub
  rw [hrealm stream hs hrecipient.symm, ext_key hu' hu (hid'.trans hid)]

theorem all_of_current {userId : ℕ} (hsub : userId ∈ f.streamCurrentUsers stream) :
    userId ∈ f.streamAllUsers stream := by
  obtain ⟨sub, hsub, hid⟩ := mem_map.mp hsub
  obtain ⟨hrow, hsub⟩ := mem_filter.mp hsub
  rw [Bool.and_eq_true, decide_eq_true_eq] at hsub
  exact mem_streamAllUsers.mpr ⟨sub, hrow, hsub.1, hid⟩

section

variable (h : ChannelMove f user message request)

include h

section

variable (he : e = doUpdateMessage upper f.toBoard user message request)

include he

/-- A message in the new channel is read by who may read all of it. -/
theorem reads_of_all (hrecipient : m.recipient =
      ⟨request.targetStream.recipientId, .stream, request.targetStream.id⟩)
    (hrealm : request.targetStream.realmId = u.realmId)
    (hall : (request.targetStream.isPublic = true ∧ u.canAccessPublicStreams = true) ∨
      (f.hasChannelContentAccessHelper request.targetStream u none = true ∧
        request.targetStream.isHistoryPublicToSubscribers = true)) : e.tables.MayRead u m := by
  rw [h.mayRead_iff he (by rw [hrecipient]) h.targetStream (by rw [hrecipient])]
  exact ⟨hrealm, hall.imp_right fun hmember => ⟨hmember.1, .inl hmember.2⟩⟩

section

variable (hasked : f.Asked upper user message request old) (hid : m.id = old.id)
  (hrecipient : m.recipient =
    ⟨request.targetStream.recipientId, .stream, request.targetStream.id⟩) (hu : u ∈ f.users.rows)

include hasked hid hrecipient hu

/-- A message in the new channel is read by its subscribers. -/
theorem reads_of_current (hsub : u.id ∈ f.streamCurrentUsers request.targetStream) :
    e.tables.MayRead u m := by
  have hmember : f.hasChannelContentAccessHelper request.targetStream u none = true := by
    exact if_pos (mem_streamCurrentUsers.mp hsub)
  rw [h.mayRead_iff he (by rw [hrecipient]) h.targetStream (by rw [hrecipient]), hid,
    h.hasUserMessage_iff he hasked.1]
  refine ⟨realmId_of_subscribed hu h.targetStream (all_of_current hsub), .inr ⟨hmember, ?_⟩⟩
  cases hhistory : request.targetStream.isHistoryPublicToSubscribers
  · refine .inr ⟨.inr ⟨rfl, hasked, hsub⟩, fun hloses => ?_⟩
    exact (mem_usersLosingUserMessages.mp hloses.1).2 hsub
  · exact .inl rfl

/-- A subscriber of the old channel reads the message, or loses access. -/
theorem reads_or_loses (hsub : u.id ∈ f.streamAllUsers request.origStream) :
    e.tables.MayRead u m ∨ u.id ∈ f.usersLosingAccess request := by
  by_cases hcurrent : u.id ∈ f.streamCurrentUsers request.targetStream
  · exact .inl (h.reads_of_current he hasked hid hrecipient hu hcurrent)
  have hrealm : request.targetStream.realmId = u.realmId := by
    rw [h.targetRealm, ← h.sees.1]
    exact realmId_of_subscribed hu h.origStream hsub
  by_cases hpublic : request.targetStream.isPublic = true ∧ u.canAccessPublicStreams = true
  · exact .inl (h.reads_of_all he hrecipient hrealm (.inl hpublic))
  · refine .inr (mem_usersLosingAccess.mpr
      ⟨mem_usersLosingUserMessages.mpr ⟨hsub, hcurrent⟩, fun hopen => ⟨u, hu, rfl, ?_⟩⟩)
    have hguest : ¬u.canAccessPublicStreams = true := fun hfull => hpublic ⟨hopen, hfull⟩
    simpa [UserProfile.canAccessPublicStreams] using hguest

/-- A user with a row for the message reads it in the new channel, or was in the old one and loses
access. -/
theorem reads_or_loses_of_row (hknown : f.HoldersKnown upper user message request)
    (hrow : f.hasUserMessage u.id old.id = true) :
    e.tables.MayRead u m ∨ (u.id ∈ f.usersLosingUserMessages request ∧
      u.id ∈ f.usersLosingAccess request) := by
  rcases hknown old hasked u hu hrow with hsub | hcurrent | ⟨hhistory, hrealm, hall⟩
  · refine (h.reads_or_loses he hasked hid hrecipient hu hsub).imp_right fun hloses => ?_
    exact ⟨(mem_usersLosingAccess.mp hloses).1, hloses⟩
  · exact .inl (h.reads_of_current he hasked hid hrecipient hu hcurrent)
  · refine .inl (h.reads_of_all he hrecipient hrealm (hall.imp_right fun hmember => ?_))
    exact ⟨hmember, hhistory⟩

end

end

/-! ### The four parts -/

theorem asked_self : f.Asked upper user message request message := ⟨h.row, .inl rfl⟩

section

variable (he : e = doUpdateMessage upper f.toBoard user message request)

include he

/-- Who is told of the new place reads the message there. -/
theorem notified (hknown : f.HoldersKnown upper user message request) (hu : u ∈ f.users.rows)
    (htold : u.id ∈ (f.updateEvent upper user message request).userIds)
    (hm : m ∈ e.tables.messages.rows) (hid : m.id = message.id) : e.tables.MayRead u m := by
  have hrecipient := h.recipient_of_asked he h.asked_self
  rw [if_pos (.inl rfl), ← hid, recipient_of_mem hm, Option.some.injEq] at hrecipient
  have hcurrent : u.id ∈ f.streamCurrentUsers request.targetStream → e.tables.MayRead u m :=
    h.reads_of_current he h.asked_self hid hrecipient hu
  have hrows : (tablesAfterMove f.toTables request
      (f.changedMessageIds upper user message request)).userMessages =
      e.tables.userMessages := by
    rw [h.tables_eq he]
    unfold tablesAfterMove
    rw [if_pos h.edited]
  have hholders : u.id ∈ f.unmodifiedUserMessages request (tablesAfterMove f.toTables request
      (f.changedMessageIds upper user message request)).userMessages message.id →
      e.tables.MayRead u m := by
    intro hholder
    obtain ⟨hlisted, hkeeps⟩ := mem_filter.mp hholder
    obtain ⟨um, hum, humid⟩ := mem_map.mp hlisted
    obtain ⟨humrow, hummessage⟩ := mem_filter.mp hum
    rw [hrows] at humrow
    have hhas : e.tables.hasUserMessage u.id message.id = true :=
      any_eq_true.mpr ⟨um, humrow, by simpa [humid] using hummessage⟩
    obtain ⟨hrow | ⟨-, -, hsub⟩, -⟩ := (h.hasUserMessage_iff he h.row).mp hhas
    · refine (h.reads_or_loses_of_row he h.asked_self hid hrecipient hu hknown
        hrow).resolve_right fun hloses => ?_
      simp [h.edited, hloses.1] at hkeeps
    · exact hcurrent hsub
  unfold updateEvent usersToBeNotified at htold
  dsimp only at htold
  split at htold
  · rw [mem_append, mem_append] at htold
    rcases htold with hholder | hsub | hold
    · exact hholders hholder
    · exact hcurrent (mem_of_mem_filter (mem_of_mem_filter (mem_of_mem_filter hsub)))
    · unfold oldStreamSubsNotInNewStream excludeDuplicates
        streamActiveUsers at hold
      rw [if_pos h.edited] at hold
      obtain ⟨hold, hkeeps⟩ := mem_filter.mp (mem_of_mem_filter hold)
      refine (h.reads_or_loses he h.asked_self hid hrecipient hu
        (all_of_current (mem_of_mem_filter hold))).resolve_right fun hloses => ?_
      simp [h.edited, hloses] at hkeeps
  · exact hholders htold

/-- Where both conditions hold, access has moved with the messages. -/
theorem accessMoves (hfinds : f.FindsAgain upper user message request)
    (hknown : f.HoldersKnown upper user message request) :
    AccessMoves upper f user message request e where
  notified := fun u hu htold m hm hid => h.notified he hknown hu htold hm hid
  losers := by
    intro old m hmoved u hu hrow hnot
    obtain ⟨hasked, hrecipient⟩ := h.of_moved he hmoved
    obtain ⟨hloses, haccess⟩ := (h.reads_or_loses_of_row he hasked hmoved.same hrecipient hu hknown
      hrow).resolve_left hnot
    rw [hmoved.same]
    refine ⟨?_, (h.toldDeleted_iff hmoved.before).mpr ⟨haccess, hasked⟩⟩
    rw [← Bool.not_eq_true, h.hasUserMessage_iff he hmoved.before]
    exact fun hhas => hhas.2 ⟨hloses, hasked⟩
  others := by
    intro old hold m hm hid u hu _ hrow hlost
    rw [hid, ← Bool.not_eq_true, h.hasUserMessage_iff he hold, not_and, not_not] at hlost
    obtain ⟨hloses, hasked⟩ := hlost (.inl hrow)
    have hmoved := h.moved_of_asked he hfinds hasked hm hid
    refine (h.reads_or_loses he hasked hid (h.of_moved he hmoved).2 hu
      (mem_usersLosingUserMessages.mp hloses).1).imp_right fun haccess => ⟨hmoved, ?_⟩
    rw [hid]
    exact (h.toldDeleted_iff hold).mpr ⟨haccess, hasked⟩
  rows := by
    intro hhistory old m hmoved u hu
    obtain ⟨hasked, -⟩ := h.of_moved he hmoved
    rw [hmoved.same, h.hasUserMessage_iff he hmoved.before, ← mem_streamCurrentUsers]
    constructor
    · rintro ⟨hrow | ⟨-, -, hsub⟩, hkeeps⟩
      · rcases hknown old hasked u hu hrow with hsub | hsub | ⟨hshared, -⟩
        · by_contra hnot
          exact hkeeps ⟨mem_usersLosingUserMessages.mpr ⟨hsub, hnot⟩, hasked⟩
        · exact hsub
        · rw [hhistory] at hshared
          cases hshared
      · exact hsub
    · intro hsub
      exact ⟨.inr ⟨hhistory, hasked, hsub⟩,
        fun hloses => (mem_usersLosingUserMessages.mp hloses.1).2 hsub⟩

/-! ### What goes wrong else -/

/-- A message that is not found again stays, and the user has lost it. -/
theorem findsAgain_of_accessMoves (huser : user ∈ f.users.rows)
    (hmoves : AccessMoves upper f user message request e) :
    f.FindsAgain upper user message request := by
  by_contra hnot
  obtain ⟨hmore, hnot⟩ := not_or.mp hnot
  obtain ⟨hpublic, hhistory, hloses⟩ := by simpa only [not_or, not_not] using hnot
  push Not at hmore
  obtain ⟨old, hasked, hother⟩ := hmore
  have hstays := h.recipient_of_asked he hasked
  rw [if_neg (by simp only [hother, hpublic, hhistory, hloses]; simp)] at hstays
  obtain ⟨m, hget, hrecipient⟩ := Option.map_eq_some_iff.mp hstays
  obtain ⟨hm, hid⟩ := get?_eq_some.mp hget
  have hsent := h.sentTo_of_asked hasked
  obtain ⟨-, hread⟩ := hasked.2.resolve_left hother |>.2.2
  obtain ⟨-, hsees⟩ := (Checked.mayRead_iff_sees hasked.1 h.origStream hsent).mp hread
  have hrow : f.hasUserMessage user.id old.id = true :=
    ((hsees.resolve_left hpublic).2).resolve_left hhistory
  have hlost : e.tables.hasUserMessage user.id m.id = false := by
    rw [hid, ← Bool.not_eq_true, h.hasUserMessage_iff he hasked.1]
    exact fun hhas => hhas.2 ⟨hloses, hasked⟩
  rcases hmoves.others old hasked.1 m hm hid user huser hread hrow hlost with hreads | ⟨hmoved, -⟩
  · rw [h.mayRead_iff he (by rw [hrecipient]; exact hsent.1) h.origStream
      (by rw [hrecipient]; exact hsent.2), hlost] at hreads
    obtain ⟨-, hopen | ⟨-, hshared | hhas⟩⟩ := hreads
    · exact hpublic hopen
    · exact hhistory hshared
    · cases hhas
  · exact hmoved.moved hrecipient

/-- A user outside the sets keeps the row. -/
theorem holdersKnown_of_accessMoves (hfinds : f.FindsAgain upper user message request)
    (hmoves : AccessMoves upper f user message request e) :
    f.HoldersKnown upper user message request := by
  intro old hasked u hu hrow
  by_contra hnot
  obtain ⟨hold, hcurrent, hall⟩ := by simpa only [not_or] using hnot
  have hset := h.recipient_of_asked he hasked
  obtain ⟨m, hget, -⟩ := Option.map_eq_some_iff.mp hset
  obtain ⟨hm, hid⟩ := get?_eq_some.mp hget
  have hmoved := h.moved_of_asked he hfinds hasked hm hid
  obtain ⟨-, hrecipient⟩ := h.of_moved he hmoved
  have hkept : e.tables.hasUserMessage u.id m.id = true := by
    rw [hid, h.hasUserMessage_iff he hasked.1]
    exact ⟨.inl hrow, fun hloses => hold (mem_usersLosingUserMessages.mp hloses.1).1⟩
  cases hhistory : request.targetStream.isHistoryPublicToSubscribers
  · exact hcurrent (mem_streamCurrentUsers.mpr ((hmoves.rows hhistory old m hmoved u hu).mp hkept))
  · have hnotread : ¬e.tables.MayRead u m := by
      intro hread
      rw [h.mayRead_iff he (by rw [hrecipient]) h.targetStream (by rw [hrecipient])] at hread
      exact hall ⟨hhistory, hread.1, hread.2.imp_right And.left⟩
    have hlost := (hmoves.losers old m hmoved u hu hrow hnotread).1
    rw [hkept] at hlost
    cases hlost

end

end

end ChannelMove

end Move

/-! ## Accepted requests -/

section Accepted

variable {strip upper : String → String} {invalidCharacter : String → Option ℕ}
  {sha256 : String → String} {isWidgetMessage : ℕ → Bool}
  {validateUserCanEditMessage : UserProfile → Message → Except EditError Unit}
  {checkContent : UserProfile → Message → String → Except EditError Unit}
  {f : Forum} {user : UserProfile} {message : Message} {r : EditRequest} {now : ℤ} {e : Edited}
  {request : StreamMessageEditRequest} (huser : user ∈ f.users.rows)
  (haccepted : checkUpdateMessage strip upper invalidCharacter sha256 isWidgetMessage
    validateUserCanEditMessage checkContent f.toBoard user r now = .ok e)
  (haccess : accessEditedMessage f.toBoard user r.messageId = .ok message)
  (hbuild : buildMessageEditRequest f.toBoard message user r.propagateMode r.streamId
    (requestedTopicName strip f.toBoard message.id r.topicName) = .ok request)
  (hedited : request.isStreamEdited = true) (hother : request.targetStream ≠ request.origStream)

include haccess hbuild hedited

include haccepted in
/-- An accepted request is carried out as it was built. -/
theorem doUpdateMessage_of_ok : message.recipient.type = .stream ∧
      e = doUpdateMessage upper f.toBoard user message request := by
  have hstream : r.streamId.isSome = true := by
    unfold buildMessageEditRequest at hbuild
    simp only [bind_eq_ok_iff, pure_eq_ok_iff] at hbuild
    obtain ⟨_, -, _, -, -, -, -, -, hrequest⟩ := hbuild
    rw [← hedited, ← hrequest]
  unfold checkUpdateMessage at haccepted
  simp only [haccess, bind_eq_ok_iff, Except.ok.injEq, exists_eq_left'] at haccepted
  obtain ⟨-, -, _, hpayload, haccepted⟩ := haccepted
  have htype : message.recipient.type = .stream := by
    unfold validateMessageEditPayload at hpayload
    simp only [bind_eq_ok_iff, check_eq_ok] at hpayload
    obtain ⟨-, -, -, hdirect, -⟩ := hpayload
    simpa [Option.isNone_eq_false_iff.mpr hstream] using hdirect
  rw [if_neg (not_not_intro htype)] at haccepted
  unfold checkUpdateStreamMessage at haccepted
  simp only [hbuild, bind_eq_ok_iff, pure_eq_ok_iff, Except.ok.injEq, exists_eq_left']
    at haccepted
  obtain ⟨-, -, -, -, -, -, hreturn⟩ := haccepted
  exact ⟨htype, hreturn.symm⟩

include hother in
theorem channelMove_of_ok (htype : message.recipient.type = .stream) :
    ChannelMove f user message request := by
  obtain ⟨hrow, -, hchannel⟩ := accessMessage_eq_ok (accessEditedMessage_eq_ok.mp haccess)
  obtain ⟨stream, hs, hsent, hsees, -⟩ := hchannel htype
  unfold buildMessageEditRequest at hbuild
  simp only [bind_eq_ok_iff, found_eq_ok, pure_eq_ok_iff] at hbuild
  obtain ⟨origStream, horig, targetStream, htarget, -, -, -, -, hrequest⟩ := hbuild
  obtain ⟨horigRow, horigId, -⟩ := find_eq_some.mp horig
  obtain rfl : stream = origStream :=
    ext_key hs horigRow (hsent.2.symm.trans horigId.symm)
  obtain ⟨htargetRow, hsame⟩ := mem_of_requestedStream horigRow htarget
  have hrealm : targetStream.realmId = user.realmId := by
    unfold requestedStream at htarget
    split at htarget
    · unfold accessStreamById at htarget
      split at htarget
      · next found hfound =>
        split at htarget
        · cases htarget
          exact of_decide_eq_true (find_eq_some.mp hfound).2.2
        · cases htarget
      · cases htarget
    · cases htarget
      exact hsees.1
  subst hrequest
  exact {
    row := hrow
    origStream := horigRow
    sentTo := hsent
    sees := hsees
    origTopicName := rfl
    targetStream := htargetRow
    targetRealm := hrealm
    edited := hedited
    other := hother }

include huser haccepted hother in
/-- After an accepted move to another channel access has moved with the messages, if and only if
the user finds the other messages again and everyone with a row is known to one of the sets. -/
theorem accessMoves_iff : AccessMoves upper f user message request e ↔
      f.FindsAgain upper user message request ∧ f.HoldersKnown upper user message request := by
  obtain ⟨htype, he⟩ := doUpdateMessage_of_ok haccepted haccess hbuild hedited
  have h := channelMove_of_ok haccess hbuild hedited hother htype
  constructor
  · intro hmoves
    have hfinds := h.findsAgain_of_accessMoves he huser hmoves
    exact ⟨hfinds, h.holdersKnown_of_accessMoves he hfinds hmoves⟩
  · rintro ⟨hfinds, hknown⟩
    exact h.accessMoves he hfinds hknown

end Accepted

/-! ## The two defects, and a move that is right -/

section Examples

def offices : List Stream :=
  [⟨1, 1, 10, false, false, true, false, 9, 9⟩, ⟨2, 1, 20, false, true, true, false, 9, 9⟩,
    ⟨3, 1, 30, false, true, false, false, 9, 9⟩]

def officeMessages : List Message :=
  [⟨1, 1, ⟨10, .stream, 1⟩, "menu"⟩, ⟨3, 1, ⟨30, .stream, 3⟩, "plan"⟩,
    ⟨4, 1, ⟨30, .stream, 3⟩, "cost"⟩, ⟨5, 1, ⟨30, .stream, 3⟩, "hello"⟩]

def officeUsers : List UserProfile :=
  [⟨1, 1, true, .member⟩, ⟨2, 1, true, .member⟩, ⟨3, 1, true, .member⟩]

theorem offices_sorted : (offices.map Stream.id).Pairwise (· < ·) := by decide

theorem officeMessages_sorted : (officeMessages.map Message.id).Pairwise (· < ·) := by decide

theorem officeUsers_sorted : (officeUsers.map UserProfile.id).Pairwise (· < ·) := by decide

theorem offices_recipients :
    ∀ s ∈ offices, ∀ s' ∈ offices, s.recipientId = s'.recipientId → s = s' := by decide

theorem officeMessages_channels : ∀ message ∈ officeMessages, message.recipient.type = .stream →
    ∃ s ∈ offices, s.id = message.recipient.typeId ∧ s.recipientId = message.recipient.id ∧
      s.realmId = message.realmId := by decide

def officeSubscriptions : List Subscription := [⟨1, 20, true⟩, ⟨1, 30, true⟩, ⟨2, 30, true⟩]

theorem offices_subscribers : ∀ sub ∈ officeSubscriptions, ∃ u ∈ officeUsers,
    u.id = sub.userProfileId ∧ ∀ stream ∈ offices, stream.recipientId = sub.recipientId →
      stream.realmId = u.realmId := by decide

/-- A public channel, a private one with shared history, and a private one without it, to which
the first two users are subscribed.  The third user has starred the message of the public channel
and is subscribed to nothing. -/
def office : Forum where
  users := ⟨officeUsers, officeUsers_sorted⟩
  streams := ⟨offices, offices_sorted⟩
  messages := ⟨officeMessages, officeMessages_sorted⟩
  userMessages := [⟨3, 1⟩, ⟨1, 3⟩, ⟨2, 3⟩, ⟨1, 4⟩, ⟨2, 4⟩, ⟨1, 5⟩, ⟨2, 5⟩]
  subscriptions := officeSubscriptions
  groupMemberships := [⟨1, 5⟩]
  subgroups := []
  recipients := offices_recipients
  channels := officeMessages_channels
  topicName := fun id => if id = 1 then "lunch" else if id = 5 then "intro" else "budget"
  dateSent := fun _ => 0
  realm := fun _ => ⟨5, 5, 5, none, none, .allowEmptyTopic⟩
  channel := fun _ => ⟨9, 5, 9, 9, 9, 5, .inherit⟩
  everyoneGroups := []
  crossRealmBots := []
  botOwner := fun _ => none
  longTermIdle := fun _ => false
  subscribers := offices_subscribers

def mover : UserProfile := ⟨1, 1, true, .member⟩

/-- A request of the first user. -/
def moverAsks (r : EditRequest) : Except EditError Edited :=
  checkUpdateMessage id id (fun _ => none) id (fun _ => false) (fun _ _ => .ok ())
    (fun _ _ _ => .ok ()) office.toBoard mover r 0

/-- The public message is moved to the private channel. -/
def hideMenu : EditRequest := ⟨1, some 2, none, .changeOne, none, none⟩

/-- A whole topic is moved to the public channel, to which the user is not subscribed. -/
def publishBudget : EditRequest := ⟨3, some 1, none, .changeAll, none, none⟩

/-- A message is moved from one private channel to the other. -/
def shareIntro : EditRequest := ⟨5, some 2, none, .changeOne, none, none⟩

/-- What is built for a request of the first user to move a message. -/
def builtMove (topic : String) (orig target : Stream) (mode : PropagateMode) :
    StreamMessageEditRequest :=
  ⟨false, topic, true, false, false, topic, orig, mode, target, true⟩

theorem moverAsks_ok {r : EditRequest}
    (h : (match moverAsks r with | .ok _ => true | .error _ => false) = true) :
    ∃ e, moverAsks r = .ok e := by
  cases hasks : moverAsks r with
  | error fault =>
    rw [hasks] at h
    cases h
  | ok e => exact ⟨e, rfl⟩

variable (r : EditRequest) (e : Edited) (message : Message) (request : StreamMessageEditRequest) in
/-- The request of the first user is accepted, and moves the message to another channel. -/
structure MoverMoves : Prop where
  accepted : moverAsks r = .ok e
  accessed : accessEditedMessage office.toBoard mover r.messageId = .ok message
  built : buildMessageEditRequest office.toBoard message mover r.propagateMode r.streamId
    (requestedTopicName id office.toBoard message.id r.topicName) = .ok request
  edited : request.isStreamEdited = true
  other : request.targetStream ≠ request.origStream

/-- The message of the public channel, and the request to hide it. -/
theorem moves_hideMenu : ∃ e, MoverMoves hideMenu e ⟨1, 1, ⟨10, .stream, 1⟩, "menu"⟩
    (builtMove "lunch" ⟨1, 1, 10, false, false, true, false, 9, 9⟩
      ⟨2, 1, 20, false, true, true, false, 9, 9⟩ .changeOne) := by
  obtain ⟨e, he⟩ := moverAsks_ok (r := hideMenu) (by decide)
  exact ⟨e, he, rfl, rfl, rfl, by decide⟩

theorem moves_publishBudget : ∃ e, MoverMoves publishBudget e ⟨3, 1, ⟨30, .stream, 3⟩, "plan"⟩
    (builtMove "budget" ⟨3, 1, 30, false, true, false, false, 9, 9⟩
      ⟨1, 1, 10, false, false, true, false, 9, 9⟩ .changeAll) := by
  obtain ⟨e, he⟩ := moverAsks_ok (r := publishBudget) (by decide)
  exact ⟨e, he, rfl, rfl, rfl, by decide⟩

/-- Who starred the public message is told of its new place and may not read it there.  Of the
topic that was published only the edited message moves, and the other one is lost to the second
user, who is still in its channel. -/
theorem accessMoves_fails :
    (∃ e message request, MoverMoves hideMenu e message request ∧
        ¬AccessMoves id office mover message request e) ∧
      ∃ e message request, MoverMoves publishBudget e message request ∧
        ¬AccessMoves id office mover message request e := by
  constructor
  · obtain ⟨e, h⟩ := moves_hideMenu
    refine ⟨e, _, _, h, fun hmoves => ?_⟩
    have he := (doUpdateMessage_of_ok h.accepted h.accessed h.built h.edited).2
    have hreads := hmoves.notified ⟨3, 1, true, .member⟩ (by decide) (by decide)
      ⟨1, 1, ⟨20, .stream, 2⟩, "menu"⟩ (by rw [he]; decide) rfl
    rw [he] at hreads
    revert hreads
    decide
  · obtain ⟨e, h⟩ := moves_publishBudget
    refine ⟨e, _, _, h, fun hmoves => ?_⟩
    have he := (doUpdateMessage_of_ok h.accepted h.accessed h.built h.edited).2
    rcases hmoves.others ⟨4, 1, ⟨30, .stream, 3⟩, "cost"⟩ (by decide)
      ⟨4, 1, ⟨30, .stream, 3⟩, "cost"⟩ (by rw [he]; decide) rfl ⟨2, 1, true, .member⟩
      (by decide) (by decide) (by decide) (by rw [he]; decide) with hreads | hgone
    · rw [he] at hreads
      revert hreads
      decide
    · exact hgone.1.moved rfl

/-- A message with its receivers moves between private channels. -/
theorem accessMoves_iff_shareIntro : ∃ e message request, MoverMoves shareIntro e message request ∧
    AccessMoves id office mover message request e := by
  obtain ⟨e, he⟩ := moverAsks_ok (r := shareIntro) (by decide)
  have h : MoverMoves shareIntro e ⟨5, 1, ⟨30, .stream, 3⟩, "hello"⟩
      (builtMove "intro" ⟨3, 1, 30, false, true, false, false, 9, 9⟩
        ⟨2, 1, 20, false, true, true, false, 9, 9⟩ .changeOne) := ⟨he, rfl, rfl, rfl, by decide⟩
  refine ⟨e, _, _, h, (accessMoves_iff (by decide) h.accepted h.accessed h.built h.edited
    h.other).mpr ⟨.inl ?_, ?_⟩⟩
  · rintro m ⟨-, hself | ⟨-, -, hmode | hmode, -⟩⟩
    · exact hself
    · cases hmode.1
    · cases hmode.1
  · rintro m ⟨-, rfl | ⟨-, -, hmode | hmode, -⟩⟩
    · decide
    · cases hmode.1
    · cases hmode.1

end Examples

end GrowTeam.Chat
