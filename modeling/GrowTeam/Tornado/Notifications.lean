/-
# Notifications about messages

`UserMessageNotificationsData` (`zerver/lib/notification_data.py`) says why a user is to be
notified of a message, and `maybe_enqueue_notifications` puts the notices on their queues.
What the data was when the message came travels with its event as `internal_data`.

`__post_init__` asserts that no message is both a direct one and one of a channel.
-/
import GrowTeam.Tornado.EventQueue

namespace GrowTeam.Tornado

/-- `NotificationTriggers`, as far as messages have them. -/
inductive NotificationTrigger where
  | directMessage
  | mention
  | topicWildcardMention
  | streamWildcardMention
  | streamPush
  | streamEmail
  | followedTopicPush
  | followedTopicEmail
  | topicWildcardMentionInFollowedTopic
  | streamWildcardMentionInFollowedTopic

/-- The two queues that notices are put on. -/
inductive NoticeQueue where
  | mobileNotifications
  | missedmessageEmails
  deriving DecidableEq

structure Notice where
  queue : NoticeQueue
  userProfileId : ℕ
  messageId : ℕ
  trigger : NotificationTrigger
  mentionedUserGroupId : Option ℕ

/-- What was sent before: `push_notified` and `email_notified`. -/
structure Notified where
  pushNotified : Bool
  emailNotified : Bool

def Notified.of (already : Notified) : NoticeQueue → Bool
  | .mobileNotifications => already.pushNotified
  | .missedmessageEmails => already.emailNotified

structure UserMessageNotificationsData where
  userId : ℕ
  onlinePushEnabled : Bool
  dmEmailNotify : Bool
  dmPushNotify : Bool
  mentionEmailNotify : Bool
  mentionPushNotify : Bool
  topicWildcardMentionEmailNotify : Bool
  topicWildcardMentionPushNotify : Bool
  streamWildcardMentionEmailNotify : Bool
  streamWildcardMentionPushNotify : Bool
  streamPushNotify : Bool
  streamEmailNotify : Bool
  followedTopicPushNotify : Bool
  followedTopicEmailNotify : Bool
  topicWildcardMentionInFollowedTopicPushNotify : Bool
  topicWildcardMentionInFollowedTopicEmailNotify : Bool
  streamWildcardMentionInFollowedTopicPushNotify : Bool
  streamWildcardMentionInFollowedTopicEmailNotify : Bool
  senderIsMuted : Bool
  disableExternalNotifications : Bool

/-- The sets of user ids that an event comes with. -/
structure UserIdSets where
  onlinePushUserIds : List ℕ := []
  dmMentionPushDisabledUserIds : List ℕ := []
  dmMentionEmailDisabledUserIds : List ℕ := []
  streamPushUserIds : List ℕ := []
  streamEmailUserIds : List ℕ := []
  topicWildcardMentionUserIds : List ℕ := []
  streamWildcardMentionUserIds : List ℕ := []
  followedTopicPushUserIds : List ℕ := []
  followedTopicEmailUserIds : List ℕ := []
  topicWildcardMentionInFollowedTopicUserIds : List ℕ := []
  streamWildcardMentionInFollowedTopicUserIds : List ℕ := []
  mutedSenderUserIds : List ℕ := []
  allBotUserIds : List ℕ := []
  pushDeviceRegisteredUserIds : Option (List ℕ) := none

namespace UserMessageNotificationsData

/-- Bots are not notified. -/
def ofBot (userId : ℕ) : UserMessageNotificationsData :=
  ⟨userId, false, false, false, false, false, false, false, false, false, false, false, false,
    false, false, false, false, false, false, false⟩

def fromUserIdSets (userId : ℕ) (flags : List String) (privateMessage : Bool)
    (disableExternalNotifications : Bool) (sets : UserIdSets) : UserMessageNotificationsData :=
  if sets.allBotUserIds.contains userId then ofBot userId
  else
    let emailEnabled := !sets.dmMentionEmailDisabledUserIds.contains userId
    let pushDeviceRegistered :=
      match sets.pushDeviceRegisteredUserIds with
      | none => true
      | some ids => ids.contains userId
    let pushEnabled :=
      pushDeviceRegistered && !sets.dmMentionPushDisabledUserIds.contains userId
    { userId
      dmEmailNotify := emailEnabled && privateMessage
      mentionEmailNotify := emailEnabled && flags.contains "mentioned"
      topicWildcardMentionEmailNotify :=
        sets.topicWildcardMentionUserIds.contains userId && emailEnabled &&
          flags.contains "topic_wildcard_mentioned"
      streamWildcardMentionEmailNotify :=
        sets.streamWildcardMentionUserIds.contains userId && emailEnabled &&
          flags.contains "stream_wildcard_mentioned"
      topicWildcardMentionInFollowedTopicEmailNotify :=
        sets.topicWildcardMentionInFollowedTopicUserIds.contains userId && emailEnabled &&
          flags.contains "topic_wildcard_mentioned"
      streamWildcardMentionInFollowedTopicEmailNotify :=
        sets.streamWildcardMentionInFollowedTopicUserIds.contains userId && emailEnabled &&
          flags.contains "stream_wildcard_mentioned"
      dmPushNotify := pushEnabled && privateMessage
      mentionPushNotify := pushEnabled && flags.contains "mentioned"
      topicWildcardMentionPushNotify :=
        sets.topicWildcardMentionUserIds.contains userId && pushEnabled &&
          flags.contains "topic_wildcard_mentioned"
      streamWildcardMentionPushNotify :=
        sets.streamWildcardMentionUserIds.contains userId && pushEnabled &&
          flags.contains "stream_wildcard_mentioned"
      topicWildcardMentionInFollowedTopicPushNotify :=
        sets.topicWildcardMentionInFollowedTopicUserIds.contains userId && pushEnabled &&
          flags.contains "topic_wildcard_mentioned"
      streamWildcardMentionInFollowedTopicPushNotify :=
        sets.streamWildcardMentionInFollowedTopicUserIds.contains userId && pushEnabled &&
          flags.contains "stream_wildcard_mentioned"
      onlinePushEnabled := pushDeviceRegistered && sets.onlinePushUserIds.contains userId
      streamPushNotify := pushDeviceRegistered && sets.streamPushUserIds.contains userId
      streamEmailNotify := sets.streamEmailUserIds.contains userId
      followedTopicPushNotify :=
        pushDeviceRegistered && sets.followedTopicPushUserIds.contains userId
      followedTopicEmailNotify := sets.followedTopicEmailUserIds.contains userId
      senderIsMuted := sets.mutedSenderUserIds.contains userId
      disableExternalNotifications }

variable (data : UserMessageNotificationsData) (actingUserId : ℕ)

def triviallyShouldNotNotify : Bool :=
  decide (data.userId = actingUserId) || data.senderIsMuted || data.disableExternalNotifications

variable (idle : Bool)

def getPushNotificationTrigger : Option NotificationTrigger :=
  if !idle && !data.onlinePushEnabled then none
  else if data.triviallyShouldNotNotify actingUserId then none
  else if data.dmPushNotify then some .directMessage
  else if data.mentionPushNotify then some .mention
  else if data.topicWildcardMentionInFollowedTopicPushNotify then
    some .topicWildcardMentionInFollowedTopic
  else if data.streamWildcardMentionInFollowedTopicPushNotify then
    some .streamWildcardMentionInFollowedTopic
  else if data.topicWildcardMentionPushNotify then some .topicWildcardMention
  else if data.streamWildcardMentionPushNotify then some .streamWildcardMention
  else if data.followedTopicPushNotify then some .followedTopicPush
  else if data.streamPushNotify then some .streamPush
  else none

def getEmailNotificationTrigger : Option NotificationTrigger :=
  if !idle then none
  else if data.triviallyShouldNotNotify actingUserId then none
  else if data.dmEmailNotify then some .directMessage
  else if data.mentionEmailNotify then some .mention
  else if data.topicWildcardMentionInFollowedTopicEmailNotify then
    some .topicWildcardMentionInFollowedTopic
  else if data.streamWildcardMentionInFollowedTopicEmailNotify then
    some .streamWildcardMentionInFollowedTopic
  else if data.topicWildcardMentionEmailNotify then some .topicWildcardMention
  else if data.streamWildcardMentionEmailNotify then some .streamWildcardMention
  else if data.followedTopicEmailNotify then some .followedTopicEmail
  else if data.streamEmailNotify then some .streamEmail
  else none

/-- The trigger of a notice on one of the queues. -/
def trigger : NoticeQueue → Option NotificationTrigger
  | .mobileNotifications => data.getPushNotificationTrigger actingUserId idle
  | .missedmessageEmails => data.getEmailNotificationTrigger actingUserId idle

def isPushNotifiable : Bool :=
  (data.getPushNotificationTrigger actingUserId idle).isSome

def isEmailNotifiable : Bool :=
  (data.getEmailNotificationTrigger actingUserId idle).isSome

def isNotifiable : Bool :=
  data.isEmailNotifiable actingUserId idle || data.isPushNotifiable actingUserId idle

/-- `internal_data`: the attributes without the user, and what was sent already. -/
def internalData (mentionedUserGroupId : Option ℕ) (notified : Notified) : InternalData where
  senderIsMuted := data.senderIsMuted
  dmPushNotify := data.dmPushNotify
  dmEmailNotify := data.dmEmailNotify
  mentionPushNotify := data.mentionPushNotify
  mentionEmailNotify := data.mentionEmailNotify
  topicWildcardMentionPushNotify := data.topicWildcardMentionPushNotify
  topicWildcardMentionEmailNotify := data.topicWildcardMentionEmailNotify
  streamWildcardMentionPushNotify := data.streamWildcardMentionPushNotify
  streamWildcardMentionEmailNotify := data.streamWildcardMentionEmailNotify
  streamPushNotify := data.streamPushNotify
  streamEmailNotify := data.streamEmailNotify
  followedTopicPushNotify := data.followedTopicPushNotify
  followedTopicEmailNotify := data.followedTopicEmailNotify
  topicWildcardMentionInFollowedTopicPushNotify :=
    data.topicWildcardMentionInFollowedTopicPushNotify
  topicWildcardMentionInFollowedTopicEmailNotify :=
    data.topicWildcardMentionInFollowedTopicEmailNotify
  streamWildcardMentionInFollowedTopicPushNotify :=
    data.streamWildcardMentionInFollowedTopicPushNotify
  streamWildcardMentionInFollowedTopicEmailNotify :=
    data.streamWildcardMentionInFollowedTopicEmailNotify
  onlinePushEnabled := data.onlinePushEnabled
  disableExternalNotifications := data.disableExternalNotifications
  mentionedUserGroupId
  pushNotified := notified.pushNotified
  emailNotified := notified.emailNotified

/-- The data that `missedmessage_hook` reads back.  The user is idle by then, so it does not ask
for pushes to users who are online. -/
def ofInternalData (userId : ℕ) (internal : InternalData) : UserMessageNotificationsData where
  userId
  onlinePushEnabled := false
  dmEmailNotify := internal.dmEmailNotify
  dmPushNotify := internal.dmPushNotify
  mentionEmailNotify := internal.mentionEmailNotify
  mentionPushNotify := internal.mentionPushNotify
  topicWildcardMentionEmailNotify := internal.topicWildcardMentionEmailNotify
  topicWildcardMentionPushNotify := internal.topicWildcardMentionPushNotify
  streamWildcardMentionEmailNotify := internal.streamWildcardMentionEmailNotify
  streamWildcardMentionPushNotify := internal.streamWildcardMentionPushNotify
  streamPushNotify := internal.streamPushNotify
  streamEmailNotify := internal.streamEmailNotify
  followedTopicPushNotify := internal.followedTopicPushNotify
  followedTopicEmailNotify := internal.followedTopicEmailNotify
  topicWildcardMentionInFollowedTopicPushNotify :=
    internal.topicWildcardMentionInFollowedTopicPushNotify
  topicWildcardMentionInFollowedTopicEmailNotify :=
    internal.topicWildcardMentionInFollowedTopicEmailNotify
  streamWildcardMentionInFollowedTopicPushNotify :=
    internal.streamWildcardMentionInFollowedTopicPushNotify
  streamWildcardMentionInFollowedTopicEmailNotify :=
    internal.streamWildcardMentionInFollowedTopicEmailNotify
  senderIsMuted := internal.senderIsMuted
  disableExternalNotifications := internal.disableExternalNotifications

/-- What is read back has the triggers of an idle user. -/
theorem trigger_ofInternalData (group : Option ℕ)
    (notified : Notified) (actingUserId : ℕ) (queue : NoticeQueue) :
    (ofInternalData data.userId (data.internalData group notified)).trigger actingUserId true queue =
      data.trigger actingUserId true queue := by
  cases queue <;> rfl

end UserMessageNotificationsData

/-! ## Notices -/

variable (data : UserMessageNotificationsData)

/-- The notice for one of the queues, unless it was sent before. -/
def noticeFor (actingUserId messageId : ℕ)
    (mentionedUserGroupId : Option ℕ) (idle : Bool) (already : Notified) (queue : NoticeQueue) :
    Option Notice :=
  match data.trigger actingUserId idle queue with
  | none => none
  | some trigger =>
    if already.of queue then none
    else some ⟨queue, data.userId, messageId, trigger, mentionedUserGroupId⟩

/-- The notices that are enqueued, and which kinds they are. -/
def maybeEnqueueNotifications (actingUserId messageId : ℕ)
    (mentionedUserGroupId : Option ℕ) (idle : Bool) (already : Notified) : Notified × List Notice :=
  let push :=
    noticeFor data actingUserId messageId mentionedUserGroupId idle already .mobileNotifications
  let email :=
    noticeFor data actingUserId messageId mentionedUserGroupId idle already .missedmessageEmails
  (⟨push.isSome, email.isSome⟩, push.toList ++ email.toList)

/-- What `missedmessage_hook` enqueues for one message event in the queue of a user. -/
def missedNotices (userProfileId : ℕ) (event : MessageEvent) : List Notice :=
  match event.internalData with
  | none => []
  | some internal =>
    (maybeEnqueueNotifications (.ofInternalData userProfileId internal) event.senderId
      event.messageId internal.mentionedUserGroupId true
      ⟨internal.pushNotified, internal.emailNotified⟩).2

end GrowTeam.Tornado
