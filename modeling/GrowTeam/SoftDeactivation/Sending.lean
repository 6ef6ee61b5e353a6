/-
# Which row a message leaves for a user (`zerver/actions/message_send.py`)

`get_subscriptions_for_send_message` leaves out the soft-deactivated subscribers for whom a
message has nothing to do, and `create_user_messages` skips those among the others whose row
would have no flag.  For a user who is not soft-deactivated neither does anything.

What is left out by the first is decided before the flags are known: `flags_of_left_out` says
which flags such a row would have had.
-/
import Mathlib.Tactic.Common
import GrowTeam.History
import GrowTeam.SoftDeactivation.Timeline

namespace GrowTeam.SoftDeactivation

open List

/-- `UserTopic.VisibilityPolicy`. -/
inductive VisibilityPolicy where
  | inherit
  | muted
  | unmuted
  | followed
  deriving DecidableEq

/-- The flags of `UserMessage` that sending may set. -/
structure Flags where
  read : Bool
  mentioned : Bool
  streamWildcardMentioned : Bool
  topicWildcardMentioned : Bool
  hasAlertWord : Bool
  isPrivate : Bool
  deriving DecidableEq

/-- `flags=0` -/
def Flags.zero : Flags := ⟨false, false, false, false, false, false⟩

/-- `UserMessage`, of the user in question. -/
structure UserMessage where
  messageId : ℕ
  flags : Flags
  deriving DecidableEq

/-- What sending a message finds about the user.  A direct message has no channel.

The first look at the text overestimates what rendering finds: wildcards, users mentioned by
name, and alert words of users who have any.  It does not look for the members of a group. -/
structure Draft where
  streamId : Option ℕ
  inDirectMessageGroup : Bool
  possibleStreamWildcardMention : Bool
  mentionsStreamWildcard : Bool
  possibleTopicWildcardMention : Bool
  mentionsTopicWildcard : Bool
  participatesInTopic : Bool
  possiblyMentioned : Bool
  mentionedByName : Bool
  mentionedByGroup : Bool
  hasAlertWords : Bool
  alertWordInMessage : Bool
  isDefaultBot : Bool
  isMuted : Bool
  visibilityPolicy : VisibilityPolicy
  pushNotifications : Option Bool
  emailNotifications : Option Bool
  enableStreamPushNotifications : Bool
  enableStreamEmailNotifications : Bool
  enableFollowedTopicPushNotifications : Bool
  enableFollowedTopicEmailNotifications : Bool
  mutedSender : Bool
  markAsRead : Bool
  /-- Whether the user is among those for whom the message stays unread, if it says so. -/
  limitUnread : Option Bool
  streamWildcard : mentionsStreamWildcard = true → possibleStreamWildcardMention = true
  byName : mentionedByName = true → possiblyMentioned = true
  alertWord : alertWordInMessage = true → hasAlertWords = true

/-- `user_allows_notifications_in_StreamTopic`, where a mute is not overridden. -/
def userAllowsNotificationsInStreamTopic (streamIsMuted : Bool)
    (visibilityPolicy : VisibilityPolicy) (streamSpecificSetting : Option Bool)
    (globalSetting : Bool) : Bool :=
  if visibilityPolicy = .muted then false
  else if streamIsMuted ∧ visibilityPolicy ≠ .unmuted then false
  else streamSpecificSetting.getD globalSetting

namespace Draft

/-- `topic_participant_user_ids`: only looked up for a possible mention of the topic. -/
def isTopicParticipant (d : Draft) : Bool :=
  d.possibleTopicWildcardMention && d.participatesInTopic

def follows (d : Draft) : Bool := d.visibilityPolicy = .followed

/-- `get_subscriptions_for_send_message`: whether it returns the user's subscription. -/
def getSubscriptionsForSendMessage (d : Draft) (longTermIdle subscribed : Bool) : Bool :=
  subscribed && (d.possibleStreamWildcardMention || !longTermIdle ||
    d.pushNotifications = some true ||
    (d.pushNotifications = none && d.enableStreamPushNotifications) ||
    d.emailNotifications = some true ||
    (d.emailNotifications = none && d.enableStreamEmailNotifications) ||
    d.possiblyMentioned || d.isTopicParticipant || d.hasAlertWords || d.follows)

/-- The user is among `stream_push_user_ids`, `stream_email_user_ids`,
`followed_topic_push_user_ids` or `followed_topic_email_user_ids`. -/
def isNotified (d : Draft) : Bool :=
  userAllowsNotificationsInStreamTopic d.isMuted d.visibilityPolicy d.pushNotifications
      d.enableStreamPushNotifications ||
    userAllowsNotificationsInStreamTopic d.isMuted d.visibilityPolicy d.emailNotifications
      d.enableStreamEmailNotifications ||
    (d.follows && d.enableFollowedTopicPushNotifications) ||
    (d.follows && d.enableFollowedTopicEmailNotifications)

def mentioned (d : Draft) : Bool := d.mentionedByName || d.mentionedByGroup

def flags (d : Draft) : Flags where
  read := d.mutedSender || d.markAsRead || d.limitUnread = some false
  mentioned := d.mentioned
  streamWildcardMentioned := d.mentionsStreamWildcard
  topicWildcardMentioned := d.mentionsTopicWildcard && d.isTopicParticipant
  hasAlertWord := d.alertWordInMessage
  isPrivate := d.streamId = none

/-- `message_to_user_id_set` -/
def messageTo (d : Draft) (longTermIdle subscribed : Bool) : Bool :=
  match d.streamId with
  | some _ => d.getSubscriptionsForSendMessage longTermIdle subscribed
  | none => d.inDirectMessageGroup

/-- `um_eligible_user_ids`: a default bot that is mentioned need not be a recipient. -/
def umEligible (d : Draft) (longTermIdle subscribed : Bool) : Bool :=
  d.messageTo longTermIdle subscribed ||
    (d.isDefaultBot && (d.messageTo longTermIdle subscribed || d.possiblyMentioned) && d.mentioned)

/-- The condition of `continue` in `create_user_messages`. -/
def isSkipped (d : Draft) (longTermIdle subscribed : Bool) : Bool :=
  (d.messageTo longTermIdle subscribed && longTermIdle) && !d.isNotified &&
    d.streamId.isSome && d.flags = .zero

/-- There is to be a row. -/
def hasRow (d : Draft) (longTermIdle subscribed : Bool) : Bool :=
  d.umEligible longTermIdle subscribed && !d.isSkipped longTermIdle subscribed

/-- `create_user_messages`: the row of the user, if there is to be one. -/
def createUserMessage (d : Draft) (longTermIdle subscribed : Bool) (messageId : ℕ) :
    Option UserMessage :=
  if d.hasRow longTermIdle subscribed then some ⟨messageId, d.flags⟩ else none

/-- The user's subscription is left out, and the row would say something. -/
def LeftOut (d : Draft) (subscribed : Bool) : Prop :=
  subscribed = true ∧ d.getSubscriptionsForSendMessage true subscribed = false ∧
    (d.mentionedByGroup = true ∨ d.mutedSender = true ∨ d.markAsRead = true ∨
      d.limitUnread = some false)

instance leftOutDecidable (d : Draft) (subscribed : Bool) : Decidable (d.LeftOut subscribed) :=
  inferInstanceAs (Decidable (_ ∧ _))

variable {d : Draft} {idle subscribed : Bool} {id : ℕ} {um : UserMessage}

theorem mem_createUserMessage :
    um ∈ (d.createUserMessage idle subscribed id).toList ↔
      d.hasRow idle subscribed = true ∧ um = ⟨id, d.flags⟩ := by
  unfold createUserMessage
  split
  · next h => simp [h]
  · next h => simp [h]

theorem messageTo_active {streamId : ℕ} (h : d.streamId = some streamId) :
    d.messageTo false subscribed = subscribed := by
  simp [messageTo, h, getSubscriptionsForSendMessage]

/-- A subscriber who is not soft-deactivated has the row. -/
theorem hasRow_active {streamId : ℕ} (h : d.streamId = some streamId) :
    d.hasRow false true = true := by
  simp [hasRow, umEligible, isSkipped, messageTo_active h]

/-- What is not seen at first is a mention by a group, or a reason for which the message counts
as read. -/
theorem flags_of_left_out {streamId : ℕ} (h : d.streamId = some streamId)
    (hleft : d.getSubscriptionsForSendMessage true true = false) (hnot : ¬ d.LeftOut true) :
    d.flags = .zero := by
  have hplain : d.mentionedByGroup = false ∧ d.mutedSender = false ∧ d.markAsRead = false ∧
      d.limitUnread ≠ some false := by
    simpa [LeftOut, hleft] using hnot
  obtain ⟨hgroup, hsender, hmark, hlimit⟩ := hplain
  simp only [getSubscriptionsForSendMessage, Bool.true_and, Bool.not_true, Bool.or_false,
    Bool.or_eq_false_iff] at hleft
  obtain ⟨⟨⟨⟨hrest, hname⟩, htopic⟩, halert⟩, -⟩ := hleft
  have hwildcard : d.mentionsStreamWildcard = false :=
    Bool.eq_false_iff.mpr fun hmention => by simp [d.streamWildcard hmention] at hrest
  have hmentioned : d.mentionedByName = false :=
    Bool.eq_false_iff.mpr fun hmention => by simp [d.byName hmention] at hname
  have hword : d.alertWordInMessage = false :=
    Bool.eq_false_iff.mpr fun hmessage => by simp [d.alertWord hmessage] at halert
  simp [flags, Flags.zero, mentioned, hgroup, hsender, hmark, hlimit, hwildcard, hmentioned,
    hword, htopic, h]

/-- A soft-deactivated user gets the row another user would get, or none: then a subscriber
would have got one, and it is one without flags unless the subscription was left out. -/
theorem hasRow_idle (d : Draft) (subscribed : Bool) :
    d.hasRow true subscribed = d.hasRow false subscribed ∨
      (d.hasRow true subscribed = false ∧ subscribed = true ∧
        (∃ streamId, d.streamId = some streamId) ∧ (¬ d.LeftOut true → d.flags = .zero)) := by
  cases hstream : d.streamId with
  | none =>
    left
    simp [hasRow, umEligible, isSkipped, messageTo, hstream]
  | some streamId =>
    cases subscribed with
    | false =>
      left
      simp [hasRow, umEligible, isSkipped, messageTo, getSubscriptionsForSendMessage, hstream]
    | true =>
      by_cases hselected : d.getSubscriptionsForSendMessage true true = true
      · have hto : d.messageTo true true = true := by simp [messageTo, hstream, hselected]
        by_cases hskipped : d.isSkipped true true = true
        · right
          refine ⟨?_, rfl, ⟨streamId, rfl⟩, fun _ => ?_⟩
          · simp [hasRow, hskipped]
          · simp only [isSkipped, Bool.and_eq_true, decide_eq_true_eq] at hskipped
            exact hskipped.2
        · left
          rw [hasRow_active hstream, hasRow, umEligible, hto, Bool.eq_false_iff.mpr hskipped]
          rfl
      · have hleft := Bool.eq_false_iff.mpr hselected
        have hto : d.messageTo true true = false := by simp [messageTo, hstream, hleft]
        have hname : d.possiblyMentioned = false := by
          simp only [getSubscriptionsForSendMessage, Bool.true_and, Bool.or_eq_false_iff] at hleft
          exact hleft.1.1.1.2
        right
        refine ⟨?_, rfl, ⟨streamId, rfl⟩, flags_of_left_out hstream hleft⟩
        simp [hasRow, umEligible, hto, hname]

end Draft

/-! # Catching up a soft-deactivated user (`zerver/lib/soft_deactivation.py`) -/

/-- `add_missing_messages` under way: the rows to insert, and the last one of a batch that is not
written down yet.  If it is for `reactivate_user_if_soft_deactivated`, the mark is taken off the
user at the end. -/
structure CatchUp where
  messageIdsToInsert : List ℕ
  inserted : Option ℕ
  reactivating : Bool

structure State where
  timeline : Timeline
  userMessages : List UserMessage
  longTermIdle : Bool
  lastActiveMessageId : Option ℕ
  running : List CatchUp

/-- `stream_messages`: the ids of messages by their channels. -/
def streamMessages (messages : List Message) : Index ℕ ℕ :=
  messages.foldl (fun ix message =>
    match message.streamId with
    | some streamId => ix.add streamId message.id
    | none => ix) Index.empty

namespace State

/-- A user who is new to a database with these messages. -/
def new (messages : Table Message.id) : State := ⟨.new messages, [], false, none, []⟩

variable (s : State)

def hasUserMessage (messageId : ℕ) : Bool :=
  s.userMessages.any (·.messageId = messageId)

/-- Whether the user is subscribed to the channel of a message. -/
def subscribedTo (streamId : Option ℕ) : Bool :=
  match streamId with
  | some streamId => s.timeline.isSubscribed streamId
  | none => false

/-- `do_send_messages`, of a message with a new id. -/
def sendMessage (d : Draft) (messageId : ℕ) (s : State) : State :=
  { s with
    timeline := s.timeline.send messageId d.streamId
    userMessages := s.userMessages ++
      (d.createUserMessage s.longTermIdle (s.subscribedTo d.streamId) messageId).toList }

/-- `do_soft_deactivate_user`: the last message the user has received, or else the last there is.
In a database without messages it fails. -/
def softDeactivate : State :=
  match (s.userMessages.map (·.messageId)).max? <|> s.timeline.messages.getLast?.map (·.id) with
  | some last => { s with longTermIdle := true, lastActiveMessageId := some last }
  | none => s

/-! ## `add_missing_messages` -/

/-- The channels to look at: not those the user had left before.  A subscription without a log
fails. -/
def recipientStreams (s : State) (lastActive : ℕ) : List Subscription → Option (List ℕ)
  | [] => some []
  | sub :: subs => do
    let log ← (s.timeline.logsOf sub.streamId).getLast?
    let others ← s.recipientStreams lastActive subs
    return if !log.subscribes && log.eventLastMessageId ≤ lastActive then others
      else sub.streamId :: others

/-- `new_stream_msgs` -/
def newStreamMessages (lastActive : ℕ) (streamIds : List ℕ) : List Message :=
  s.timeline.messages.filter fun message =>
    !s.hasUserMessage message.id && streamIds.any (some · = message.streamId) &&
      lastActive < message.id

/-- What there is to insert. -/
def messageIdsToInsert : Option (List ℕ) := do
  let lastActive ← s.lastActiveMessageId
  let streamIds ← s.recipientStreams lastActive s.timeline.subscriptions
  filterBySubscriptionHistory (streamMessages (s.newStreamMessages lastActive streamIds))
    s.timeline.logsOf

/-- Everything up to the loop.  The user is asserted, or was found, to be soft-deactivated. -/
def startCatchUp (reactivating : Bool) (s : State) : State :=
  if s.longTermIdle then
    match s.messageIdsToInsert with
    | some messageIds => { s with running := s.running ++ [⟨messageIds, none, reactivating⟩] }
    | none => s
  else s

/-- `bulk_insert_all_ums`, with `flags=0` and `ON CONFLICT DO NOTHING`. -/
def bulkInsertAllUms (messageIds : List ℕ) (s : State) : List UserMessage :=
  s.userMessages ++ (messageIds.filter fun id => !s.hasUserMessage id).map (⟨·, .zero⟩)

/-- A round of the loop, of a batch of some size. -/
def insertBatch (i size : ℕ) (s : State) : State :=
  match s.running[i]? with
  | some ⟨messageIds, none, reactivating⟩ =>
    { s with
      userMessages := s.bulkInsertAllUms (messageIds.take size)
      running := s.running.set i
        ⟨messageIds.drop size, (messageIds.take size).getLast?, reactivating⟩ }
  | _ => s

/-- `Greatest(F("last_active_message_id"), message_ids[-1])` -/
def recordBatch (i : ℕ) (s : State) : State :=
  match s.running[i]? with
  | some ⟨messageIds, some last, reactivating⟩ =>
    { s with
      lastActiveMessageId := some (max (s.lastActiveMessageId.getD last) last)
      running := s.running.set i ⟨messageIds, none, reactivating⟩ }
  | _ => s

/-- The end of the loop. -/
def finishCatchUp (i : ℕ) (s : State) : State :=
  match s.running[i]? with
  | some ⟨[], none, reactivating⟩ =>
    { s with
      running := s.running.eraseIdx i
      longTermIdle := s.longTermIdle && !reactivating }
  | _ => s

/-- A catch-up ends where it is. -/
def crash (i : ℕ) (s : State) : State := { s with running := s.running.eraseIdx i }

end State

/-! ## Runs -/

/-- The sequence of message ids may have gaps. -/
inductive Input where
  | subscribe (streamId : ℕ)
  | unsubscribe (streamId : ℕ)
  | send (d : Draft) (gap : ℕ)
  | softDeactivate
  | startCatchUp (reactivating : Bool)
  | insertBatch (i size : ℕ)
  | recordBatch (i : ℕ)
  | finishCatchUp (i : ℕ)
  | crash (i : ℕ)

/-- The input is about subscriptions and messages, not about soft deactivation. -/
def Input.isHistory : Input → Bool
  | .subscribe _ => true
  | .unsubscribe _ => true
  | .send _ _ => true
  | _ => false

/-- The answer is the id of a message that was sent. -/
def step (input : Input) (s : State) : Option ℕ × State :=
  match input with
  | .subscribe streamId => (none, { s with timeline := s.timeline.subscribe streamId })
  | .unsubscribe streamId => (none, { s with timeline := s.timeline.unsubscribe streamId })
  | .send d gap =>
    (some (s.timeline.nextMessageId + gap), s.sendMessage d (s.timeline.nextMessageId + gap))
  | .softDeactivate => (none, s.softDeactivate)
  | .startCatchUp reactivating => (none, s.startCatchUp reactivating)
  | .insertBatch i size => (none, s.insertBatch i size)
  | .recordBatch i => (none, s.recordBatch i)
  | .finishCatchUp i => (none, s.finishCatchUp i)
  | .crash i => (none, s.crash i)

/-! ## What a catch-up finds -/

section Found

variable {s : State} {messages : List Message} {streamId id lastActive : ℕ}

theorem streamMessages_get (messages : List Message) (streamId : ℕ) :
    (streamMessages messages).get streamId =
      (messages.filter (·.streamId = some streamId)).map (·.id) := by
  have hfold : ∀ ix : Index ℕ ℕ, (messages.foldl (fun ix message =>
      match message.streamId with
      | some streamId => ix.add streamId message.id
      | none => ix) ix).get streamId =
        ix.get streamId ++ (messages.filter (·.streamId = some streamId)).map (·.id) := by
    induction messages with
    | nil => simp
    | cons message messages ih =>
      intro ix
      rw [foldl_cons, ih]
      cases hstream : message.streamId with
      | none => simp [hstream]
      | some c =>
        rw [Index.get_add]
        by_cases hc : streamId = c
        · simp [hstream, hc]
        · simp [hstream, hc, Ne.symm hc]
  exact hfold Index.empty

/-- The entries of the dictionary are the messages by channel. -/
theorem mem_streamMessages {e : ℕ × List ℕ} (he : e ∈ (streamMessages messages).entries) :
    e.2 = (messages.filter (·.streamId = some e.1)).map (·.id) := by
  rw [← streamMessages_get, Index.get_of_mem (show (e.1, e.2) ∈ _ from he)]

theorem exists_mem_streamMessages :
    (∃ e ∈ (streamMessages messages).entries, id ∈ e.2 ∧ subscribedAt (s.timeline.logsFor e.1) id = true) ↔
      ∃ message ∈ messages, message.id = id ∧ ∃ c, message.streamId = some c ∧
        subscribedAt (s.timeline.logsFor c) id = true := by
  constructor
  · rintro ⟨e, he, hid, hat⟩
    rw [mem_streamMessages he] at hid
    obtain ⟨message, hmem, hsame⟩ := mem_map.mp hid
    obtain ⟨hm, hstream⟩ := mem_filter.mp hmem
    exact ⟨message, hm, hsame, e.1, of_decide_eq_true hstream, hat⟩
  · rintro ⟨message, hm, rfl, c, hstream, hat⟩
    have hmem : message.id ∈ (streamMessages messages).get c := by
      rw [streamMessages_get]
      exact mem_map_of_mem (mem_filter.mpr ⟨hm, decide_eq_true hstream⟩)
    exact ⟨_, Index.mem_of_get (ne_nil_of_mem hmem), hmem, hat⟩

/-- Of messages of the user's channels, in order, those sent while the user was subscribed are
selected. -/
theorem filterBySubscriptionHistory_streamMessages (h : s.timeline.Valid)
    (hsub : messages.Sublist s.timeline.messages)
    (hchannels : ∀ message ∈ messages, ∀ c, message.streamId = some c →
      c ∈ s.timeline.subscriptions.map (·.streamId)) :
    ∃ ids, filterBySubscriptionHistory (streamMessages messages) s.timeline.logsOf = some ids ∧
      ids.Pairwise (· < ·) ∧ ∀ id, id ∈ ids ↔ ∃ message ∈ messages, message.id = id ∧
        ∃ c, message.streamId = some c ∧ subscribedAt (s.timeline.logsFor c) id = true := by
  have hlogs : s.timeline.logsOf = s.timeline.logsFor := funext fun c => Timeline.logsOf_eq h
  rw [hlogs]
  have hascending : ∀ e ∈ (streamMessages messages).entries, e.2.Pairwise (· < ·) := by
    intro e he
    rw [mem_streamMessages he]
    exact pairwise_map.mpr ((h.ascending.sublist hsub).filter _)
  have hchanged : ∀ e ∈ (streamMessages messages).entries, e.2 ≠ [] →
      s.timeline.logsFor e.1 ≠ [] := by
    intro e he hne
    rw [mem_streamMessages he] at hne
    obtain ⟨id, hid⟩ := exists_mem_of_ne_nil _ hne
    obtain ⟨message, hmem, -⟩ := mem_map.mp hid
    obtain ⟨hm, hstream⟩ := mem_filter.mp hmem
    exact (h.known _).mpr (hchannels message hm e.1 (of_decide_eq_true hstream))
  obtain ⟨ids, hids, hsorted, hmem⟩ := filterBySubscriptionHistory_spec hascending hchanged
  refine ⟨ids, hids, hsorted, fun id => ?_⟩
  rw [hmem id, exists_mem_streamMessages]

theorem recipientStreams_spec (h : s.timeline.Valid) (lastActive : ℕ) {subs : List Subscription}
    (hsubs : ∀ sub ∈ subs, sub ∈ s.timeline.subscriptions) :
    ∃ streamIds, s.recipientStreams lastActive subs = some streamIds ∧
      (∀ c ∈ streamIds, c ∈ subs.map (·.streamId)) ∧
      ∀ c ∈ subs.map (·.streamId), c ∉ streamIds →
        ∃ log, (s.timeline.logsFor c).getLast? = some log ∧ log.subscribes = false ∧
          log.eventLastMessageId ≤ lastActive := by
  induction subs with
  | nil => exact ⟨[], rfl, by simp, by simp⟩
  | cons sub subs ih =>
    obtain ⟨others, hothers, hfrom, hskipped⟩ :=
      ih fun sub hsub => hsubs sub (mem_cons_of_mem _ hsub)
    have hne : s.timeline.logsFor sub.streamId ≠ [] :=
      (h.known _).mpr (mem_map_of_mem (hsubs sub mem_cons_self))
    have hlog := getLast?_eq_some_getLast hne
    generalize (s.timeline.logsFor sub.streamId).getLast hne = log at hlog
    refine ⟨if !log.subscribes && log.eventLastMessageId ≤ lastActive then others
      else sub.streamId :: others, ?_, ?_, ?_⟩
    · unfold State.recipientStreams
      rw [Timeline.logsOf_eq h, hlog, hothers]
      rfl
    · intro c hc
      split at hc
      · exact mem_cons_of_mem _ (hfrom c hc)
      · rcases mem_cons.mp hc with rfl | hc
        · exact mem_cons_self
        · exact mem_cons_of_mem _ (hfrom c hc)
    · intro c hc hnot
      split at hnot
      · next hleft =>
        rw [Bool.and_eq_true, Bool.not_eq_true', decide_eq_true_eq] at hleft
        rcases mem_cons.mp hc with rfl | hc
        · exact ⟨log, hlog, hleft.1, hleft.2⟩
        · exact hskipped c hc hnot
      · rcases mem_cons.mp hc with rfl | hc
        · exact absurd mem_cons_self hnot
        · exact hskipped c hc fun hin => hnot (mem_cons_of_mem _ hin)

/-- A catch-up finds the messages after the last activity that were sent while the user was
subscribed and have no row. -/
theorem messageIdsToInsert_spec (h : s.timeline.Valid)
    (hactive : s.lastActiveMessageId = some lastActive) :
    ∃ ids, s.messageIdsToInsert = some ids ∧ ids.Pairwise (· < ·) ∧
      ∀ id, id ∈ ids ↔ lastActive < id ∧ s.hasUserMessage id = false ∧
        ∃ message ∈ s.timeline.messages, message.id = id ∧ ∃ c, message.streamId = some c ∧
          subscribedAt (s.timeline.logsFor c) id = true := by
  obtain ⟨streamIds, hstreams, hfrom, hskipped⟩ :=
    recipientStreams_spec h lastActive fun _ hsub => hsub
  have hchannels : ∀ message ∈ s.newStreamMessages lastActive streamIds, ∀ c,
      message.streamId = some c → c ∈ s.timeline.subscriptions.map (·.streamId) := by
    intro message hm c hstream
    have hany := (mem_filter.mp hm).2
    simp only [Bool.and_eq_true, any_eq_true, decide_eq_true_eq] at hany
    obtain ⟨⟨-, c', hc', hsame⟩, -⟩ := hany
    rw [hstream, Option.some.injEq] at hsame
    exact hfrom c (hsame ▸ hc')
  obtain ⟨ids, hids, hsorted, hmem⟩ :=
    filterBySubscriptionHistory_streamMessages h filter_sublist hchannels
  refine ⟨ids, ?_, hsorted, fun id => ?_⟩
  · unfold State.messageIdsToInsert
    rw [hactive]
    dsimp only [Option.bind_eq_bind, Option.bind_some]
    rw [hstreams]
    exact hids
  · rw [hmem id]
    constructor
    · rintro ⟨message, hm, rfl, c, hstream, hat⟩
      obtain ⟨hrow, hp⟩ := mem_filter.mp hm
      simp only [Bool.and_eq_true, Bool.not_eq_true', decide_eq_true_eq] at hp
      exact ⟨hp.2, hp.1.1, message, hrow, rfl, c, hstream, hat⟩
    · rintro ⟨hlast, hnone, message, hrow, rfl, c, hstream, hat⟩
      refine ⟨message, mem_filter.mpr ⟨hrow, ?_⟩, rfl, c, hstream, hat⟩
      have hin : c ∈ streamIds := by
        by_contra hnot
        -- The user had left the channel before the message was sent.
        obtain ⟨log, hlog, hleft, hbefore⟩ :=
          hskipped c (Timeline.mem_of_subscribedAt h hat) hnot
        have hnever := Timeline.subscribedAt_left h hlog hleft
          (Int.lt_of_le_of_lt hbefore (Int.ofNat_lt.mpr hlast))
        rw [hnever] at hat
        exact Bool.false_ne_true hat
      have hany : streamIds.any (some · = message.streamId) = true :=
        any_eq_true.mpr ⟨c, hin, decide_eq_true hstream.symm⟩
      simp [hnone, hany, hlast]

end Found

end GrowTeam.SoftDeactivation
