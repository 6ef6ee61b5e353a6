/-
# Team tools and their sentences (`zerver/actions/agent_team_tools.py`)

The typed inputs of the eleven tools (`zerver/lib/agent_protocol.py`), and every sentence that
the tools put together, with the values that are formatted into it.  A language renders the
sentences; `english` is the one of the source.  A text is a list of characters.
-/
import Mathlib.Data.List.Basic

namespace GrowTeam.TeamTools

abbrev Text := List Char

/-- The characters of a literal. -/
def lit (s : String) : Text := s.toList

/-- A number in a sentence. -/
def number (n : ℕ) : Text := (Nat.repr n).toList

/-! ## Inputs -/

/-- What `team.find` looks for. -/
inductive Kind where
  | person
  | channel
  | group
  deriving DecidableEq

inductive TeamToolInput where
  | teamFind (query : Text) (kinds : List Kind)
  | channelCreate (name description : Text) (is_private : Bool) (subscriber_user_ids : List ℕ)
  | channelSubscribe (channel_id : ℕ) (user_ids : List ℕ)
  | channelUnsubscribe (channel_id : ℕ) (user_ids : List ℕ)
  | groupCreate (name description : Text) (member_user_ids : List ℕ)
  | groupAddMembers (group_id : ℕ) (user_ids : List ℕ)
  | groupRemoveMembers (group_id : ℕ) (user_ids : List ℕ)
  | topicPost (channel_id : ℕ) (topic content : Text)
  | topicAddPerson (channel_id : ℕ) (topic : Text) (user_ids : List ℕ)
  | topicResolve (channel_id : ℕ) (topic : Text) (resolved : Bool)
  | topicMove (channel_id : ℕ) (topic new_topic : Text) (new_channel_id : Option ℕ)

/-- A text of `a` to `b` characters. -/
def lengthIn (a b : ℕ) (t : Text) : Bool := a ≤ t.length && t.length ≤ b

/-- A list of `a` to `b` positive numbers. -/
def idsIn (a b : ℕ) (ids : List ℕ) : Bool :=
  a ≤ ids.length && ids.length ≤ b && ids.all fun id => 0 < id

/-- The limits of the input's fields. -/
def TeamToolInput.accepted : TeamToolInput → Bool
  | .teamFind query kinds => lengthIn 1 100 query && 1 ≤ kinds.length && kinds.length ≤ 3
  | .channelCreate name description _ subscriber_user_ids =>
    lengthIn 1 60 name && lengthIn 0 1024 description && idsIn 0 50 subscriber_user_ids
  | .channelSubscribe channel_id user_ids => 0 < channel_id && idsIn 1 50 user_ids
  | .channelUnsubscribe channel_id user_ids => 0 < channel_id && idsIn 1 50 user_ids
  | .groupCreate name description member_user_ids =>
    lengthIn 1 100 name && lengthIn 0 1024 description && idsIn 0 50 member_user_ids
  | .groupAddMembers group_id user_ids => 0 < group_id && idsIn 1 50 user_ids
  | .groupRemoveMembers group_id user_ids => 0 < group_id && idsIn 1 50 user_ids
  | .topicPost channel_id topic content =>
    0 < channel_id && lengthIn 1 60 topic && lengthIn 1 10000 content
  | .topicAddPerson channel_id topic user_ids =>
    0 < channel_id && lengthIn 1 60 topic && idsIn 1 20 user_ids
  | .topicResolve channel_id topic _ => 0 < channel_id && lengthIn 1 60 topic
  | .topicMove channel_id topic new_topic new_channel_id =>
    0 < channel_id && lengthIn 1 60 topic && lengthIn 1 60 new_topic &&
      new_channel_id.all fun id => 0 < id

/-- `tool_input.tool`. -/
def TeamToolInput.tool : TeamToolInput → String
  | .teamFind _ _ => "team.find"
  | .channelCreate _ _ _ _ => "channel.create"
  | .channelSubscribe _ _ => "channel.subscribe"
  | .channelUnsubscribe _ _ => "channel.unsubscribe"
  | .groupCreate _ _ _ => "group.create"
  | .groupAddMembers _ _ => "group.add_members"
  | .groupRemoveMembers _ _ => "group.remove_members"
  | .topicPost _ _ _ => "topic.post"
  | .topicAddPerson _ _ _ => "topic.add_person"
  | .topicResolve _ _ _ => "topic.resolve"
  | .topicMove _ _ _ _ => "topic.move"

/-! ## Sentences -/

/-- The arguments of the calls of `_(...)`, with what is formatted into them. -/
inductive Sentence where
  -- words, labels and errors
  | message (text : String)
  | nobody
  | privateKind
  | publicKind
  | nobodyNew
  | hiddenChannel
  | groupNumber (id : ℕ)
  | userNumber (id : ℕ)
  | resolvedVerb (resolved : Bool)
  | resolveVerb (resolved : Bool)
  -- what a tool did
  | people (items : Text)
  | channels (items : Text)
  | groups (items : Text)
  | searched (query sections : Text)
  | createdChannel (kind name : Text) (count : ℕ)
  | subscribed (count total : ℕ) (name : Text) (already : ℕ)
  | unsubscribed (count total : ℕ) (name : Text)
  | createdGroup (name : Text) (count : ℕ)
  | addedMembers (count : ℕ) (name : Text)
  | removedMembers (count : ℕ) (name : Text)
  | posted (channel topic : Text)
  | invitation (mentions inviter : Text)
  | mentioned (new channel : Text) (count : ℕ)
  | marked (topic channel verb : Text)
  | moved (old channel new_channel new : Text)
  | renamed (old channel new : Text)
  -- what a tool is to do
  | search (query : Text)
  | createChannel (kind name people : Text)
  | subscribe (people channel : Text)
  | unsubscribe (people channel : Text)
  | createGroup (name people : Text)
  | addMembers (people group : Text)
  | removeMembers (people group : Text)
  | post (channel topic preview : Text)
  | invite (people channel topic : Text)
  | resolve (verb channel topic : Text)
  | move (channel topic new_channel new_topic : Text)
  | rename (channel topic new_topic : Text)

/-- The translations of a locale. -/
abbrev Language := Sentence → Text

/-- The sentences as the source has them. -/
def english : Language
  | .message text => lit text
  | .nobody => lit "none"
  | .privateKind => lit "private"
  | .publicKind => lit "public"
  | .nobodyNew => lit "no one new"
  | .hiddenChannel => lit "a channel you cannot see"
  | .groupNumber id => lit "group " ++ number id
  | .userNumber id => lit "user " ++ number id
  | .resolvedVerb resolved => if resolved then lit "resolved" else lit "reopened"
  | .resolveVerb resolved => if resolved then lit "Resolve" else lit "Reopen"
  | .people items => lit "People: " ++ items
  | .channels items => lit "Channels: " ++ items
  | .groups items => lit "Groups: " ++ items
  | .searched query sections => lit "Search \"" ++ query ++ lit "\" — " ++ sections
  | .createdChannel kind name count =>
    lit "Created " ++ kind ++ lit " channel #" ++ name ++ lit " with " ++ number count ++
      lit " subscriber(s)."
  | .subscribed count total name already =>
    lit "Subscribed " ++ number count ++ lit " of " ++ number total ++ lit " people to #" ++
      name ++ lit " (" ++ number already ++ lit " already there)."
  | .unsubscribed count total name =>
    lit "Unsubscribed " ++ number count ++ lit " of " ++ number total ++ lit " people from #" ++
      name ++ lit "."
  | .createdGroup name count =>
    lit "Created group " ++ name ++ lit " with " ++ number count ++ lit " member(s)."
  | .addedMembers count name =>
    lit "Added " ++ number count ++ lit " member(s) to group " ++ name ++ lit "."
  | .removedMembers count name =>
    lit "Removed " ++ number count ++ lit " member(s) from group " ++ name ++ lit "."
  | .posted channel topic => lit "Posted a message in #" ++ channel ++ lit " > " ++ topic ++ lit "."
  | .invitation mentions inviter =>
    mentions ++ lit " — you are invited to this topic by " ++ inviter ++ lit "."
  | .mentioned new channel count =>
    lit "Subscribed " ++ new ++ lit " to #" ++ channel ++ lit " and mentioned " ++ number count ++
      lit " person(s) in the topic."
  | .marked topic channel verb =>
    lit "Marked the topic " ++ topic ++ lit " in #" ++ channel ++ lit " as " ++ verb ++ lit "."
  | .moved old channel new_channel new =>
    lit "Moved the topic " ++ old ++ lit " in #" ++ channel ++ lit " to #" ++ new_channel ++
      lit " > " ++ new ++ lit "."
  | .renamed old channel new =>
    lit "Renamed the topic " ++ old ++ lit " in #" ++ channel ++ lit " to " ++ new ++ lit "."
  | .search query => lit "Search for \"" ++ query ++ lit "\"."
  | .createChannel kind name people =>
    lit "Create " ++ kind ++ lit " channel " ++ name ++ lit ". Subscribers: " ++ people ++ lit "."
  | .subscribe people channel => lit "Subscribe " ++ people ++ lit " to " ++ channel ++ lit "."
  | .unsubscribe people channel =>
    lit "Unsubscribe " ++ people ++ lit " from " ++ channel ++ lit "."
  | .createGroup name people =>
    lit "Create group " ++ name ++ lit ". Members: " ++ people ++ lit "."
  | .addMembers people group => lit "Add " ++ people ++ lit " to group " ++ group ++ lit "."
  | .removeMembers people group =>
    lit "Remove " ++ people ++ lit " from group " ++ group ++ lit "."
  | .post channel topic preview =>
    lit "Post in " ++ channel ++ lit " > " ++ topic ++ lit ": \"" ++ preview ++ lit "\""
  | .invite people channel topic =>
    lit "Invite " ++ people ++ lit " to " ++ channel ++ lit " > " ++ topic ++ lit "."
  | .resolve verb channel topic =>
    verb ++ lit " the topic " ++ channel ++ lit " > " ++ topic ++ lit "."
  | .move channel topic new_channel new_topic =>
    lit "Move the topic " ++ channel ++ lit " > " ++ topic ++ lit " to " ++ new_channel ++
      lit " > " ++ new_topic ++ lit "."
  | .rename channel topic new_topic =>
    lit "Move the topic " ++ channel ++ lit " > " ++ topic ++ lit " to " ++ new_topic ++ lit "."

/-- `", ".join(items)`. -/
def commaJoin (items : List Text) : Text := List.intercalate (lit ", ") items

/-! ## Receipts -/

/-- `TeamReceiptObjects`, with the keys that a handler names; `user_ids` may be named as `None`. -/
structure Objects where
  channel_id : Option ℕ := none
  group_id : Option ℕ := none
  message_id : Option ℕ := none
  user_ids : Option (Option (List ℕ)) := none

/-- What `execute_team_tool` returns. -/
structure Receipt where
  tool : String
  succeeded : Bool
  summary : Text
  objects : Objects
  error : Option Text

/-- How a tool ends that does not end well. -/
inductive Fault where
  /-- A `JsonableError` with its text. -/
  | jsonable (text : Text)
  /-- Any other exception. -/
  | raised

end GrowTeam.TeamTools
