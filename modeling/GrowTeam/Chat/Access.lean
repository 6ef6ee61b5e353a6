/-
# Who may read a message (`zerver/lib/message.py`, `zerver/lib/streams.py`)

The tables of users, channels, subscriptions and messages, and the two sets of rules over
them: content access, which asks about a user and a channel, and message access, which
asks about a user and one message.  Of each row only the columns these rules and the agent
context read are kept.
-/
import GrowTeam.Server.Transactions
import GrowTeam.Table
import Mathlib.Logic.Function.Iterate

namespace GrowTeam.Chat

open Server (Fault Result one ensure)

/-! ## Rows -/

/-- `UserProfile.role`. -/
inductive Role where
  | realmOwner
  | realmAdministrator
  | moderator
  | member
  | guest
  deriving DecidableEq

structure UserProfile where
  id : ℕ
  realmId : ℕ
  isActive : Bool
  role : Role
  deriving DecidableEq

/-- `Stream`.  Its recipient is asserted to be there wherever it is read. -/
structure Stream where
  id : ℕ
  realmId : ℕ
  recipientId : ℕ
  deactivated : Bool
  inviteOnly : Bool
  historyPublicToSubscribers : Bool
  isWebPublic : Bool
  canAddSubscribersGroupId : ℕ
  canSubscribeGroupId : ℕ
  deriving DecidableEq

/-- `Recipient.type`. -/
inductive RecipientType where
  | stream
  | directMessageGroup
  deriving DecidableEq

structure Recipient where
  id : ℕ
  type : RecipientType
  typeId : ℕ
  deriving DecidableEq

/-- `Message`, with the recipient that is always selected along. -/
structure Message where
  id : ℕ
  realmId : ℕ
  recipient : Recipient
  content : String
  deriving DecidableEq

/-- `UserMessage`: the user has received the message. -/
structure UserMessage where
  userProfileId : ℕ
  messageId : ℕ
  deriving DecidableEq

structure Subscription where
  userProfileId : ℕ
  recipientId : ℕ
  active : Bool

/-- `UserGroupMembership`: a direct member of a group. -/
structure UserGroupMembership where
  userProfileId : ℕ
  userGroupId : ℕ

structure GroupGroupMembership where
  supergroupId : ℕ
  subgroupId : ℕ

/-- The tables that decide who may read what. -/
structure Tables where
  users : Table UserProfile.id
  streams : Table Stream.id
  messages : Table Message.id
  userMessages : List UserMessage
  subscriptions : List Subscription
  groupMemberships : List UserGroupMembership
  subgroups : List GroupGroupMembership

/-! ## Properties of users and channels -/

def UserProfile.isGuest (user : UserProfile) : Bool := user.role = .guest

def UserProfile.canAccessPublicStreams (user : UserProfile) : Bool := !user.isGuest

variable (stream : Stream)

def Stream.isPublic : Bool := !stream.inviteOnly

def Stream.isHistoryPublicToSubscribers : Bool :=
  stream.historyPublicToSubscribers

def isUserInGroupsGrantingContentAccess (userRecursiveGroupIds : List ℕ) : Bool :=
  decide (stream.canSubscribeGroupId ∈ userRecursiveGroupIds) ||
    decide (stream.canAddSubscribersGroupId ∈ userRecursiveGroupIds)

namespace Tables

/-! ## Rows about one user -/

/-- `UserProfile.objects.get(id=…)`. -/
def user (t : Tables) (id : ℕ) : Result UserProfile :=
  match t.users.get? id with
  | some user => .ok user
  | none => .error .missing

/-- `UserMessage.objects.filter(user_profile=…, message_id=…).exists()`. -/
def hasUserMessage (t : Tables) (userId messageId : ℕ) : Bool :=
  t.userMessages.any fun um => um.userProfileId = userId && um.messageId = messageId

/-- `Subscription.objects.filter(user_profile=…, active=True, recipient_id=…).exists()`. -/
def isSubscribed (t : Tables) (userId recipientId : ℕ) : Bool :=
  t.subscriptions.any fun sub =>
    sub.userProfileId = userId && sub.active && sub.recipientId = recipientId

/-- One round of the recursion: the supergroups of groups already there. -/
def addSupergroups (t : Tables) (groupIds : List ℕ) : List ℕ :=
  (groupIds ++ (t.subgroups.filter (·.subgroupId ∈ groupIds)).map (·.supergroupId)).dedup

/-- `get_recursive_membership_groups`: a chain of supergroups without repetition is no
longer than the table of subgroups. -/
def recursiveMembershipGroups (t : Tables) (user : UserProfile) : List ℕ :=
  t.addSupergroups^[t.subgroups.length]
    ((t.groupMemberships.filter (·.userProfileId = user.id)).map (·.userGroupId))

/-! ## Content access -/

def userHasContentAccess (t : Tables) (user : UserProfile) (stream : Stream)
    (isSubscribed : Bool) : Bool :=
  if stream.isWebPublic then true
  else if isSubscribed then true
  else if user.isGuest then false
  else if stream.isPublic then true
  else isUserInGroupsGrantingContentAccess stream (t.recursiveMembershipGroups user)

def hasChannelContentAccessHelper (t : Tables) (stream : Stream) (user : UserProfile)
    (isSubscribed : Option Bool) : Bool :=
  if isSubscribed.getD (t.isSubscribed user.id stream.recipientId) then true
  else if user.isGuest then false
  else isUserInGroupsGrantingContentAccess stream (t.recursiveMembershipGroups user)

/-! ## Message access -/

/-- `has_message_access` for a message of a channel. -/
def hasChannelMessageAccess (t : Tables) (user : UserProfile) (stream : Stream)
    (hasUserMessage : Bool) (isSubscribed : Option Bool) (isModifyingMessage : Bool) : Bool :=
  if stream.realmId ≠ user.realmId then false
  else if isModifyingMessage ∧ stream.deactivated then false
  else if stream.isPublic ∧ user.canAccessPublicStreams then true
  else if ¬stream.isHistoryPublicToSubscribers then
    hasUserMessage && t.hasChannelContentAccessHelper stream user isSubscribed
  else t.hasChannelContentAccessHelper stream user isSubscribed

/-- The channel of a message: looked up, or the one that was passed along, which is
asserted to be it. -/
def messageStream (t : Tables) (message : Message) (stream : Option Stream) : Result Stream :=
  match stream with
  | none =>
    match t.streams.get? message.recipient.typeId with
    | some stream => .ok stream
    | none => .error .missing
  | some stream =>
    if stream.recipientId = message.recipient.id then .ok stream else .error .other

def hasMessageAccess (t : Tables) (user : UserProfile) (message : Message)
    (hasUserMessage : Bool) (stream : Option Stream) (isSubscribed : Option Bool)
    (isModifyingMessage : Bool) : Result Bool :=
  if message.recipient.type ≠ .stream then .ok hasUserMessage
  else do
    let stream ← t.messageStream message stream
    return t.hasChannelMessageAccess user stream hasUserMessage isSubscribed isModifyingMessage

def accessMessage (t : Tables) (user : UserProfile) (messageId : ℕ) (isModifyingMessage : Bool) :
    Result Message := do
  match t.messages.get? messageId with
  | none => .error .jsonable
  | some message =>
    if ← t.hasMessageAccess user message (t.hasUserMessage user.id messageId) none none
        isModifyingMessage then
      return message
    .error .jsonable

/-- The message access rules let the user read the message. -/
def MayRead (t : Tables) (user : UserProfile) (message : Message) : Prop :=
  t.hasMessageAccess user message (t.hasUserMessage user.id message.id) none none false =
    .ok true

instance (t : Tables) (user : UserProfile) (message : Message) :
    Decidable (t.MayRead user message) :=
  inferInstanceAs (Decidable (_ = _))

/-! ## The two sets of rules side by side -/

variable {t : Tables} {user : UserProfile} {message : Message} {stream : Stream}

/-- Content access is being in the channel, reading a public channel as a full member, or
the channel being web-public. -/
theorem userHasContentAccess_iff :
    t.userHasContentAccess user stream (t.isSubscribed user.id stream.recipientId) = true ↔
      stream.isWebPublic = true ∨ (stream.isPublic = true ∧ user.canAccessPublicStreams = true) ∨
        t.hasChannelContentAccessHelper stream user none = true := by
  unfold userHasContentAccess hasChannelContentAccessHelper UserProfile.canAccessPublicStreams
  cases stream.isWebPublic
  · cases t.isSubscribed user.id stream.recipientId
    · cases user.isGuest <;> simp [Bool.or_eq_true]
    · simp
  · simp

/-- A direct message is read by those who received it. -/
theorem mayRead_direct (h : message.recipient.type = .directMessageGroup) :
    t.MayRead user message ↔ t.hasUserMessage user.id message.id = true := by
  unfold MayRead hasMessageAccess
  rw [h]
  simp

/-- A channel message is read by the full members of a public channel, and else by those in
the channel, who must have received it where the history is protected. -/
theorem mayRead_channel (h : message.recipient.type = .stream)
    (hs : t.streams.get? message.recipient.typeId = some stream)
    (hrealm : stream.realmId = user.realmId) :
    t.MayRead user message ↔
      (stream.isPublic = true ∧ user.canAccessPublicStreams = true) ∨
        (t.hasChannelContentAccessHelper stream user none = true ∧
          (stream.isHistoryPublicToSubscribers = true ∨
            t.hasUserMessage user.id message.id = true)) := by
  have hstream : t.messageStream message none = .ok stream := by
    unfold messageStream
    rw [hs]
  have hiff : t.MayRead user message ↔ t.hasChannelMessageAccess user stream
      (t.hasUserMessage user.id message.id) none false = true := by
    unfold MayRead hasMessageAccess
    rw [h, hstream]
    exact Server.pure_eq_ok
  rw [hiff]
  unfold hasChannelMessageAccess
  by_cases hpublic : stream.isPublic = true ∧ user.canAccessPublicStreams = true
  · simp [hpublic, hrealm]
  · cases hhistory : stream.isHistoryPublicToSubscribers
    · simp [hpublic, hrealm, and_comm]
    · simp [hpublic, hrealm]

end Tables

/-! # Who may open a file (`zerver/lib/attachments.py`) -/

/-- `Attachment`, with the ids in its `messages`. -/
structure Attachment where
  id : ℕ
  pathId : String
  ownerId : ℕ
  realmId : ℕ
  fileName : String
  size : ℕ
  /-- Empty when a message moved, until it is needed again. -/
  isRealmPublic : Option Bool
  messages : List ℕ
  deriving DecidableEq

/-- The table of attachments. -/
abbrev Attachments := Table Attachment.id

def Message.isChannelMessage (message : Message) : Bool := message.recipient.type = .stream

namespace Tables

variable (t : Tables)

/-- Some message of the realm with this file is in a channel that is not private. -/
def postedInPublic (realmId : ℕ) (attachment : Attachment) : Bool :=
  t.messages.rows.any fun m =>
    m.realmId = realmId && decide (m.id ∈ attachment.messages) &&
      t.streams.rows.any fun stream => stream.recipientId = m.recipient.id && !stream.inviteOnly

/-- The update of an empty `is_realm_public`, and the attachment read again. -/
def fillRealmPublic (realmId : ℕ) (attachments : Attachments)
    (attachment : Attachment) : Attachment × Attachments :=
  if attachment.isRealmPublic.isNone then
    let isRealmPublic := some (t.postedInPublic realmId attachment)
    ({ attachment with isRealmPublic := isRealmPublic },
      attachments.update (fun a => a.id = attachment.id && a.isRealmPublic.isNone)
        (fun a => { a with isRealmPublic := isRealmPublic }) fun _ => rfl)
  else (attachment, attachments)

/-- The rules of `validate_attachment_request` once the cache is filled. -/
def mayOpen (user : UserProfile) (attachment : Attachment) : Bool :=
  if user.id = attachment.ownerId then true
  else if attachment.isRealmPublic = some true ∧ attachment.realmId = user.realmId ∧
      user.canAccessPublicStreams then true
  else
    let messages := t.messages.rows.filter (·.id ∈ attachment.messages)
    let received := messages.filter fun m => t.hasUserMessage user.id m.id
    if received.any (!·.isChannelMessage) then true
    else
      let usermessagesChannelIds := received.map (·.recipient.typeId)
      let subscribedChannelIds :=
        (messages.filter fun m => m.isChannelMessage && t.isSubscribed user.id m.recipient.id).map
          (·.recipient.typeId)
      let messageChannelIds := (messages.filter (·.isChannelMessage)).map (·.recipient.typeId)
      let messageChannels := t.streams.rows.filter (·.id ∈ messageChannelIds)
      if usermessagesChannelIds.any (· ∈ subscribedChannelIds) then true
      else if messageChannelIds.length = 0 then false
      else if messageChannels.any fun channel =>
          channel.id ∈ subscribedChannelIds && channel.isHistoryPublicToSubscribers then true
      else
        -- a former subscriber keeps what was received before the history was left
        messageChannels.any fun channel =>
          isUserInGroupsGrantingContentAccess channel (t.recursiveMembershipGroups user) &&
            (channel.isHistoryPublicToSubscribers || channel.id ∈ usermessagesChannelIds)

def validateAttachmentRequest (user : UserProfile) (pathId : String)
    (attachments : Attachments) : Bool × Attachments :=
  match attachments.rows.find? (·.pathId = pathId) with
  | none => (false, attachments)
  | some attachment =>
    let (attachment, attachments) := t.fillRealmPublic user.realmId attachments attachment
    (t.mayOpen user attachment, attachments)

end Tables

end GrowTeam.Chat
