/-
# The handlers of the team tools (`zerver/actions/agent_team_tools.py`)

Each handler as the actions it calls, on the channels, subscriptions, groups and messages of a
realm.  Every call may end with an exception; the site says which do.  A `JsonableError` leaves the
state as it was before that call, since each write is a transaction; what an exception of another
kind leaves behind is open (an `on_commit` hook fails after the commit).

The checks that a call makes for the acting users are not modelled: their outcome is that of the
call.
-/
import GrowTeam.Crashes
import GrowTeam.TeamTools.Receipts
import Mathlib.Data.Char
import Mathlib.Data.List.Dedup

namespace GrowTeam.TeamTools

open Attempts
open GrowTeam.Server (isSpace)

/-! ## The state -/

structure Channel where
  id : ℕ
  name : Text
  description : Text
  invite_only : Bool
  deriving DecidableEq

structure Group where
  id : ℕ
  name : Text
  description : Text
  members : List ℕ
  deriving DecidableEq

/-- Where a message is. -/
inductive Place where
  | topic (channel_id : ℕ) (topic : Text)
  | direct (user_id : ℕ)
  deriving DecidableEq

structure Message where
  id : ℕ
  sender_id : ℕ
  place : Place
  content : Text
  deriving DecidableEq

/-- A subscription that is active. -/
structure Subscription where
  channel_id : ℕ
  user_id : ℕ
  deriving DecidableEq

/-- What the tools act on. -/
structure Team where
  channels : List Channel
  subscriptions : List Subscription
  groups : List Group
  messages : List Message
  deriving DecidableEq

/-! ## The site -/

/-- The functions that the handlers call. -/
inductive Call where
  | getCommander
  | search
  | checkStreamName
  | checkChannelCreationPermissions
  | createStreamIfNeeded
  | bulkPrincipalsToUserProfiles
  | bulkAddSubscriptions
  | sendUserSubscribedAndNewChannelNotifications
  | accessStreamById
  | filterStreamAuthorizationForAddingSubscribers
  | bulkCanRemoveSubscribersFromStreams
  | bulkRemoveSubscriptions
  | sendSubscriptionRemoveEvents
  | canCreateUserGroups
  | ensureNotOnLimitedPlan
  | checkUserGroupName
  | userIdsToUsers
  | checkAddUserGroup
  | accessUserGroupForUpdate
  | bulkAddMembersToUserGroups
  | bulkRemoveMembersFromUserGroups
  | notifyForUserGroupSubscriptionChanges
  | sendCheck
  | getClient
  | normalizeBody
  | sendPmIfEmptyStream
  | checkMessage
  | doSendMessages
  | checkUpdateMessage
  | getStreamByIdInRealm
  deriving DecidableEq

/-- The messages that the server sends by itself. -/
inductive Notice where
  | subscribed (channel : Channel)
  | newChannel (channel : Channel)
  | addedToGroup (group : Group)
  | removedFromGroup (group : Group)
  | emptyChannel (channel : Channel)
  | moved (channel_id : ℕ) (topic : Text) (new_channel_id : ℕ) (new_topic : Text)

/-- What the handlers read besides the state. -/
structure Site where
  /-- The exception a call ends with. -/
  fault : Call → Option Fault
  /-- A call that raises another exception has committed. -/
  committed : Call → Bool
  commander_id : ℕ
  bot_user_id : ℕ
  bot_owner_id : ℕ
  notification_bot_id : ℕ
  is_bot : ℕ → Bool
  full_name : ℕ → Text
  language : Language
  directory : Directory
  /-- Case-insensitive comparison of names. -/
  fold : Text → Text
  notice : Notice → Text
  /-- `channel_events_topic_name`. -/
  events_topic : Text
  /-- `realm.send_channel_events_messages`. -/
  send_channel_events_messages : Bool
  /-- The owner was not warned in the last minutes. -/
  may_remind : Bool
  matching_people : Text → List (Text × ℕ)
  matching_channels : Text → List (Text × ℕ × Bool)
  matching_groups : Text → List (Text × ℕ)
  commander_is_guest : Bool

abbrev Handler := Attempt Team Fault

variable (site : Site)

/-- A call that writes nothing. -/
def Site.call (c : Call) : Handler Unit := fun s =>
  match site.fault c with
  | none => (.ok (), s)
  | some fault => (.error fault, s)

/-- A call that raises no `JsonableError`. -/
def Site.callRaising (c : Call) : Handler Unit := fun s =>
  match site.fault c with
  | none => (.ok (), s)
  | some _ => (.error .raised, s)

/-- A call that writes in a transaction. -/
def Site.write (c : Call) (f : Team → Team) : Handler Unit := fun s =>
  match site.fault c with
  | none => (.ok (), f s)
  | some (.jsonable text) => (.error (.jsonable text), s)
  | some .raised => (.error .raised, if site.committed c then f s else s)

/-- `raise JsonableError(_(...))`. -/
def Site.refuse (text : String) : Handler α :=
  fail (.jsonable (site.language (.message text)))

/-! ## The actions -/

/-- The next id of a table. -/
def freshId (ids : List ℕ) : ℕ := ids.foldl max 0 + 1

/-- Messages sent one after the other. -/
def Team.send (s : Team) (sender_id : ℕ) : List (Place × Text) → Team
  | [] => s
  | (place, content) :: rest =>
    Team.send
      { s with
        messages := s.messages ++ [⟨freshId (s.messages.map (·.id)), sender_id, place, content⟩] }
      sender_id rest

/-- `sorted(set(user_ids))`. -/
def sortedSet (user_ids : List ℕ) : List ℕ := user_ids.dedup.insertionSort (· ≤ ·)

/-- `bulk_principals_to_user_profiles(sorted(set(user_ids)), commander)`; `principals[0]` of no
principals is an `IndexError`. -/
def bulkPrincipals (user_ids : List ℕ) : Handler (List ℕ) :=
  if user_ids = [] then fail .raised
  else do
    site.call .bulkPrincipalsToUserProfiles
    pure (sortedSet user_ids)

variable (channel_id : ℕ)

/-- `access_stream_by_id(commander, channel_id)`. -/
def accessStreamById : Handler Channel := do
  let s ← look
  match s.channels.find? fun channel => channel.id = channel_id with
  | none => site.refuse "Invalid channel ID"
  | some channel => do
    site.call .accessStreamById
    pure channel

variable (s : Team)

/-- The people who are not subscribed. -/
def Team.newcomers (channel : Channel) (people : List ℕ) : List ℕ :=
  people.filter fun user_id => !s.subscriptions.contains ⟨channel.id, user_id⟩

variable (channel : Channel)

/-- `bulk_add_subscriptions(realm, [channel], people)`: the people it subscribes. -/
def bulkAddSubscriptions (people : List ℕ) : Handler (List ℕ) := do
  let s ← look
  site.write .bulkAddSubscriptions fun s =>
    { s with
      subscriptions := s.subscriptions ++
        (s.newcomers channel people).map fun user_id => ⟨channel.id, user_id⟩ }
  pure (s.newcomers channel people)

/-- `send_user_subscribed_and_new_channel_notifications` about people who were subscribed to a
channel, if there are any. -/
def notifySubscribed (subscribed : List ℕ) : Handler Unit :=
  if subscribed = [] then pure ()
  else site.write .sendUserSubscribedAndNewChannelNotifications fun s =>
    s.send site.notification_bot_id
      ((subscribed.filter fun user_id => user_id ≠ site.commander_id ∧ ¬ site.is_bot user_id).map
        fun user_id => (.direct user_id, site.notice (.subscribed channel)))

/-- `send_user_subscribed_and_new_channel_notifications` about a channel that was created. -/
def notifyCreated : Handler Unit :=
  site.write .sendUserSubscribedAndNewChannelNotifications fun s =>
    if site.send_channel_events_messages then
      s.send site.notification_bot_id
        [(.topic channel.id site.events_topic, site.notice (.newChannel channel))]
    else s

variable (name description : Text)

/-- The channel that `create_stream_if_needed` makes. -/
def Team.newChannel (invite_only : Bool) : Channel :=
  ⟨freshId (s.channels.map (·.id)), Words.strip isSpace name, description, invite_only⟩

/-- The channel of this name, in any case of the letters. -/
def Team.named (site : Site) (name : Text) : Option Channel :=
  s.channels.find? fun channel => site.fold channel.name = site.fold (Words.strip isSpace name)

/-- `create_stream_if_needed`: the channel, and whether it was created. -/
def createStreamIfNeeded (invite_only : Bool) : Handler (Channel × Bool) := do
  let s ← look
  match s.named site name with
  | some channel => do
    site.call .createStreamIfNeeded
    pure (channel, false)
  | none => do
    site.write .createStreamIfNeeded fun s =>
      { s with channels := s.channels ++ [s.newChannel name description invite_only] }
    pure (s.newChannel name description invite_only, true)

variable (topic : Text)

/-- Whether a message is in a topic. -/
def inTopic (m : Message) : Bool :=
  match m.place with
  | .topic id name => id = channel_id && site.fold name = site.fold topic
  | .direct _ => false

def latestMessageIdInTopic : Handler ℕ := do
  let s ← look
  match s.messages.filter (inTopic site channel.id topic) with
  | [] => site.refuse "Topic not found"
  | m :: rest => pure ((rest.map (·.id)).foldl max m.id)

/-- `check_update_message(commander, message_id, new_channel_id, new_topic, "change_all")`. -/
def checkUpdateMessage (new_channel_id : ℕ) (new_topic : Text) : Handler Unit :=
  site.write .checkUpdateMessage fun s =>
    Team.send
      { s with
        messages := s.messages.map fun m =>
          if inTopic site channel.id topic m then { m with place := .topic new_channel_id new_topic }
          else m }
      site.notification_bot_id
      [(.topic new_channel_id new_topic,
        site.notice (.moved channel.id topic new_channel_id new_topic))]

/-- The owner of the bot is to be warned that nobody reads the channel. -/
def Team.warns (site : Site) (channel : Channel) : Bool :=
  site.may_remind && !(s.subscriptions.any fun sub => sub.channel_id = channel.id)

/-- The direct message to the owner of the bot that `check_message` sends on its way. -/
def sendPmIfEmptyStream : Handler Unit := do
  let s ← look
  if s.warns site channel then
    site.write .sendPmIfEmptyStream fun s =>
      s.send site.notification_bot_id
        [(.direct site.bot_owner_id, site.notice (.emptyChannel channel))]
  else pure ()

/-- The bot posts in a topic: `check_message`, and `do_send_messages`. -/
def botPosts (topic content : Text) : Handler ℕ := do
  site.call .getClient
  site.call .normalizeBody
  sendPmIfEmptyStream site channel
  site.call .checkMessage
  let s ← look
  site.write .doSendMessages fun s =>
    s.send site.bot_user_id [(.topic channel.id topic, content)]
  pure (freshId (s.messages.map (·.id)))

/-! ## The handlers -/

/-- A section of what was found. -/
def found (section_of : Text → Sentence) (items : List Text) : Text :=
  site.language (section_of (if items = [] then site.language .nobody else commaJoin items))

/-- `f"{name} ({id})"`. -/
def listed (item : Text × ℕ) : Text := item.1 ++ lit " (" ++ number item.2 ++ lit ")"

/-- `f"#{name} ({id}, {kind})"`. -/
def listedChannel (item : Text × ℕ × Bool) : Text :=
  '#' :: item.1 ++ lit " (" ++ number item.2.1 ++ lit ", " ++
    site.language (if item.2.2 then .privateKind else .publicKind) ++ lit ")"

def find (query : Text) (kinds : List Kind) : Handler (Text × Objects) := do
  site.call .search
  let needle := site.fold (Words.strip isSpace query)
  let people := if kinds.contains .person then
      [found site .people (((site.matching_people needle).take 10).map listed)]
    else []
  let channels := if kinds.contains .channel then
      [found site .channels (((site.matching_channels needle).take 10).map (listedChannel site))]
    else []
  let groups := if kinds.contains .group && !site.commander_is_guest then
      [found site .groups (((site.matching_groups needle).take 10).map listed)]
    else []
  let sections := List.intercalate (lit "; ") (people ++ channels ++ groups)
  pure ((site.language (.searched query sections)).take 2048, {})

/-- `ids or None`. -/
def orNone (ids : List ℕ) : Option (List ℕ) := if ids = [] then none else some ids

/-- The subscribers that `_channel_create` adds to the new channel. -/
def subscribeCreated (subscriber_user_ids : List ℕ) : Handler (List ℕ) :=
  if subscriber_user_ids = [] then pure []
  else do
    let subscribers ← bulkPrincipals site subscriber_user_ids
    let _ ← bulkAddSubscriptions site channel subscribers
    notifyCreated site channel
    pure subscribers

def channelCreate (is_private : Bool)
    (subscriber_user_ids : List ℕ) : Handler (Text × Objects) := do
  site.call .checkStreamName
  site.call .checkChannelCreationPermissions
  let created ← createStreamIfNeeded site name description is_private
  if created.2 then do
    let subscribed ← subscribeCreated site created.1 subscriber_user_ids
    let kind := site.language (if is_private then .privateKind else .publicKind)
    pure
      (site.language (.createdChannel kind created.1.name subscribed.length),
        { channel_id := some created.1.id, user_ids := some (orNone subscribed) })
  else site.refuse "A channel with this name already exists."

def channelSubscribe (user_ids : List ℕ) : Handler (Text × Objects) := do
  let channel ← accessStreamById site channel_id
  let people ← bulkPrincipals site user_ids
  site.call .filterStreamAuthorizationForAddingSubscribers
  let subscribed ← bulkAddSubscriptions site channel people
  notifySubscribed site channel subscribed
  pure
    (site.language (.subscribed subscribed.length people.length channel.name
      (people.length - subscribed.length)),
      { channel_id := some channel.id, user_ids := some (orNone subscribed) })

def channelUnsubscribe (user_ids : List ℕ) : Handler (Text × Objects) := do
  let channel ← accessStreamById site channel_id
  let people ← bulkPrincipals site user_ids
  site.call .bulkCanRemoveSubscribersFromStreams
  let s ← look
  let removed := people.filter fun user_id => s.subscriptions.contains ⟨channel.id, user_id⟩
  site.write .bulkRemoveSubscriptions fun s =>
    { s with
      subscriptions := s.subscriptions.filter fun sub =>
        !(sub.channel_id = channel.id && removed.contains sub.user_id) }
  site.callRaising .sendSubscriptionRemoveEvents
  pure
    (site.language (.unsubscribed removed.length people.length channel.name),
      { channel_id := some channel.id, user_ids := some (orNone removed) })

/-- `if commander.is_guest: raise JsonableError(...)`. -/
def refuseGuest : Handler Unit :=
  if site.commander_is_guest then site.refuse "Not allowed for guest users" else pure ()

def groupCreate (member_user_ids : List ℕ) : Handler (Text × Objects) := do
  refuseGuest site
  site.call .canCreateUserGroups
  site.call .ensureNotOnLimitedPlan
  site.call .checkUserGroupName
  site.call .userIdsToUsers
  let s ← look
  let members := member_user_ids.dedup
  let group : Group := ⟨freshId (s.groups.map (·.id)), name, description, members⟩
  site.write .checkAddUserGroup fun s => { s with groups := s.groups ++ [group] }
  pure
    (site.language (.createdGroup name members.length),
      { group_id := some group.id, user_ids := some (orNone (sortedSet members)) })

/-- A group with other members. -/
def Team.setMembers (group_id : ℕ) (f : List ℕ → List ℕ) : Team :=
  { s with
    groups := s.groups.map fun g => if g.id = group_id then { g with members := f g.members } else g }

variable (group_id : ℕ)

def accessUserGroupForUpdate : Handler Group := do
  let s ← look
  match s.groups.find? fun group => group.id = group_id with
  | none => site.refuse "Invalid user group"
  | some group => do
    site.call .accessUserGroupForUpdate
    pure group

variable (members : List ℕ)

/-- `notify_for_user_group_subscription_changes`. -/
def notifyForUserGroup (notice : Notice) : Handler Unit :=
  site.write .notifyForUserGroupSubscriptionChanges fun s =>
    s.send site.notification_bot_id
      ((members.filter fun user_id => user_id ≠ site.commander_id ∧ ¬ site.is_bot user_id).map
        fun user_id => (.direct user_id, site.notice notice))

def addMembersToGroupCore : Handler Group := do
  let group ← accessUserGroupForUpdate site group_id
  site.call .userIdsToUsers
  if members.any fun id => group.members.contains id then
    site.refuse "User is already a member of this group"
  else do
    site.write .bulkAddMembersToUserGroups fun s => s.setMembers group_id fun m => m ++ members
    notifyForUserGroup site members (.addedToGroup group)
    pure group

def removeMembersFromGroupCore : Handler Group := do
  site.call .userIdsToUsers
  let group ← accessUserGroupForUpdate site group_id
  if members.all fun id => group.members.contains id then do
    site.write .bulkRemoveMembersFromUserGroups fun s =>
      s.setMembers group_id fun m => m.filter fun id => !members.contains id
    notifyForUserGroup site members (.removedFromGroup group)
    pure group
  else site.refuse "There is no member in this user group"

def groupAddMembers (user_ids : List ℕ) : Handler (Text × Objects) := do
  let members := sortedSet user_ids
  let group ← atomically (addMembersToGroupCore site group_id members)
  pure
    (site.language (.addedMembers members.length group.name),
      { group_id := some group.id, user_ids := some (some members) })

def groupRemoveMembers (user_ids : List ℕ) : Handler (Text × Objects) := do
  let members := sortedSet user_ids
  let group ← atomically (removeMembersFromGroupCore site group_id members)
  pure
    (site.language (.removedMembers members.length group.name),
      { group_id := some group.id, user_ids := some (some members) })

def topicPost (topic content : Text) : Handler (Text × Objects) := do
  let channel ← accessStreamById site channel_id
  site.call .sendCheck
  let message_id ← botPosts site channel topic content
  pure
    (site.language (.posted channel.name topic),
      { channel_id := some channel.id, message_id := some message_id })

/-- The invitation that `_topic_add_person` posts. -/
def invitation (people : List ℕ) : Text :=
  site.language (.invitation
    (List.intercalate (lit " ") (people.map fun id =>
      lit "@**" ++ site.full_name id ++ lit "|" ++ number id ++ lit "**"))
    (lit "@_**" ++ site.full_name site.commander_id ++ lit "|" ++ number site.commander_id ++
      lit "**"))

def topicAddPerson (user_ids : List ℕ) : Handler (Text × Objects) := do
  let channel ← accessStreamById site channel_id
  let people ← bulkPrincipals site user_ids
  site.call .filterStreamAuthorizationForAddingSubscribers
  site.call .sendCheck
  let subscribed ← bulkAddSubscriptions site channel people
  notifySubscribed site channel subscribed
  let message_id ← botPosts site channel topic (invitation site people)
  let new_names := (subscribed.map site.full_name).insertionSort fun a b => a ≤ b
  pure
    (site.language (.mentioned
      (if new_names = [] then site.language .nobodyNew else commaJoin new_names)
      channel.name people.length),
      { channel_id := some channel.id, message_id := some message_id,
        user_ids := some (some people) })

def resolvedTopicPrefix : Text := ['✔', ' ']

def topicResolve (resolved : Bool) : Handler (Text × Objects) := do
  let channel ← accessStreamById site channel_id
  let _ ← latestMessageIdInTopic site channel topic
  let bare_topic := if resolvedTopicPrefix.isPrefixOf topic then topic.drop 2 else topic
  let target_topic := if resolved then resolvedTopicPrefix ++ bare_topic else bare_topic
  checkUpdateMessage site channel topic channel.id target_topic
  pure
    (site.language (.marked bare_topic channel.name (site.language (.resolvedVerb resolved))),
      { channel_id := some channel.id })

def topicMove (topic new_topic : Text) (new_channel_id : Option ℕ) : Handler (Text × Objects) := do
  let channel ← accessStreamById site channel_id
  let _ ← latestMessageIdInTopic site channel topic
  let target_channel_id := new_channel_id.filter fun id => id ≠ channel.id
  checkUpdateMessage site channel topic (target_channel_id.getD channel.id) new_topic
  match target_channel_id with
  | some id => do
    site.callRaising .getStreamByIdInRealm
    let s ← look
    let new_name := ((s.channels.find? fun channel => channel.id = id).map (·.name)).getD []
    pure
      (site.language (.moved topic channel.name new_name new_topic), { channel_id := some id })
  | none =>
    pure
      (site.language (.renamed topic channel.name new_topic), { channel_id := some channel.id })

/-- `_EXECUTORS[tool_input.tool]`. -/
def handler : TeamToolInput → Handler (Text × Objects)
  | .teamFind query kinds => find site query kinds
  | .channelCreate name description is_private subscriber_user_ids =>
    channelCreate site name description is_private subscriber_user_ids
  | .channelSubscribe channel_id user_ids => channelSubscribe site channel_id user_ids
  | .channelUnsubscribe channel_id user_ids => channelUnsubscribe site channel_id user_ids
  | .groupCreate name description member_user_ids =>
    groupCreate site name description member_user_ids
  | .groupAddMembers group_id user_ids => groupAddMembers site group_id user_ids
  | .groupRemoveMembers group_id user_ids => groupRemoveMembers site group_id user_ids
  | .topicPost channel_id topic content => topicPost site channel_id topic content
  | .topicAddPerson channel_id topic user_ids => topicAddPerson site channel_id topic user_ids
  | .topicResolve channel_id topic resolved => topicResolve site channel_id topic resolved
  | .topicMove channel_id topic new_topic new_channel_id =>
    topicMove site channel_id topic new_topic new_channel_id

/-- A call of `execute_team_tool`: the receipt, if there is one, and the state afterwards. -/
def run (tool_input : TeamToolInput) (s : Team) : Option Receipt × Team :=
  match site.fault .getCommander with
  | some _ => (none, s)
  | none =>
    (executeTeamTool site.language site.directory tool_input (handler site tool_input s).1,
      (handler site tool_input s).2)

end GrowTeam.TeamTools
