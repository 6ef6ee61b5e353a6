import GrowTeam.UnreadIndexes.Counters

/-!
# The operations on the unread messages

What the client does with the unread structures: the state that comes with the page,
the messages that are fetched or marked as unread, a change of the mention of a
message, the messages that are read, and the part of the handler of an edit that
moves messages and then rebuilds the cache of mentions.
-/

namespace GrowTeam.UnreadIndexes

open Buckets Function

variable (c : Client) (s : State) (message : UnreadMessageData)

/-- What `is_message_in_unmuted_context` answers: a direct message, a topic that is not
muted in a channel that is not, or a topic that is unmuted or followed in a muted channel. -/
def is_message_in_unmuted_context : Bool :=
  match message.place with
  | .direct _ => true
  | .stream stream_id topic =>
    (!s.is_muted stream_id && !s.is_topic_muted stream_id topic) ||
      (s.is_muted stream_id && s.is_topic_unmuted_or_followed stream_id topic)

/-- Whether an unread message counts as a mention. -/
def is_counted : Bool :=
  (message.mentioned && is_message_in_unmuted_context s message) || message.mentioned_me_directly

variable (message_id : ℕ)

/-- The message is no mention: it leaves the sets of mentions and the cache. -/
def forget_mention : State :=
  remove_message_from_unread_mentions c
    { s with
      unread_mentions_counter := delete s.unread_mentions_counter message_id
      direct_message_with_mention_count := delete s.direct_message_with_mention_count message_id }
    message_id

/-- The message is a mention: it joins the set of mentions and the cache. -/
def count_mention : State :=
  let s := add_message_to_unread_mentions c
    { s with unread_mentions_counter := add s.unread_mentions_counter message.id } message.id
  match message.place with
  | .direct _ =>
    { s with
      direct_message_with_mention_count := add s.direct_message_with_mention_count message.id }
  | .stream _ _ => s

def update_message_for_mention (content_edited : Bool) : State × Bool :=
  if !message.unread then (forget_mention c s message.id, false) else
    let s := if is_counted s message then count_mention c s message
      else forget_mention c s message.id
    match message.place with
    | .direct _ => (s, false)
    | .stream _ _ => (s, content_edited)

/-- An id joins the counter of its type. -/
def add_to_counter (place : Place) : State :=
  match place with
  | .direct user_ids_string =>
    { s with
      unread_direct_message_counter :=
        s.unread_direct_message_counter.add message_id user_ids_string }
  | .stream stream_id topic =>
    { s with
      unread_topic_counter := s.unread_topic_counter.add c message_id stream_id topic }

def process_unread_message : State :=
  let s := { s with unread_messages := add s.unread_messages message.id }
  let s := add_to_counter c s message.id message.place
  (update_message_for_mention c s message false).1

/-- The data of a fetched message, with the string of the user ids of a direct message
built from its recipients. -/
def Message.loaded (message : Message) : UnreadMessageData where
  id := message.id
  mentioned := message.mentioned
  mentioned_me_directly := message.mentioned_me_directly
  unread := true
  place :=
    match message.recipient with
    | .stream stream_id topic => .stream stream_id topic
    | .direct display_recipient _ =>
      .direct ((pm_reply_user_string c display_recipient).getD "")

/-- The fetched messages that are unread and not tracked yet are tracked. -/
def process_loaded_messages (s : State) : List Message → State × Bool
  | [] => (s, false)
  | message :: messages =>
    if !message.unread then process_loaded_messages s messages
    else if message.id ∈ s.unread_messages then process_loaded_messages s messages
    else
      ((process_loaded_messages (process_unread_message c s (message.loaded c)) messages).1, true)

def mark_as_read : State :=
  let s := remove_message_from_unread_mentions c s message_id
  { s with
    unread_direct_message_counter := s.unread_direct_message_counter.delete message_id
    unread_topic_counter := s.unread_topic_counter.delete c message_id
    unread_mentions_counter := delete s.unread_mentions_counter message_id
    direct_message_with_mention_count := delete s.direct_message_with_mention_count message_id
    unread_messages := delete s.unread_messages message_id
    message_store :=
      match s.message_store message_id with
      | none => s.message_store
      | some message =>
        update s.message_store message_id (some { message with unread := false }) }

/-! ### The state that comes with the page -/

structure Huddle where
  user_ids_string : List ℕ
  unread_message_ids : List ℕ

structure Pm where
  other_user_id : ℕ
  unread_message_ids : List ℕ

structure StreamUnreads where
  stream_id : ℕ
  topic : String
  unread_message_ids : List ℕ

/-- The unread messages as the server sends them; the string of the user ids of a
group is the list of the ids that it joins. -/
structure UnreadMsgs where
  huddles : List Huddle
  pms : List Pm
  streams : List StreamUnreads
  mentions : List ℕ

def set_direct_message_groups (d : UnreadDirectMessageCounter) (huddles : List Huddle) :
    UnreadDirectMessageCounter :=
  huddles.foldl
    (fun d obj => d.set_message_ids (pm_lookup_key c obj.user_ids_string) obj.unread_message_ids) d

def set_pms (d : UnreadDirectMessageCounter) (pms : List Pm) : UnreadDirectMessageCounter :=
  pms.foldl (fun d obj => d.set_message_ids (toString obj.other_user_id) obj.unread_message_ids) d

def set_streams (t : UnreadTopicCounter) (objs : List StreamUnreads) : UnreadTopicCounter :=
  objs.foldl
    (fun t obj => obj.unread_message_ids.foldl
      (fun t message_id => t.add c message_id obj.stream_id obj.topic) t) t

/-- A mention of the page. -/
def add_mention : State :=
  { s with
    unread_mentions_counter := add s.unread_mentions_counter message_id
    direct_message_with_mention_count :=
      if message_id ∈ s.unread_direct_message_counter.get_msg_ids
      then add s.direct_message_with_mention_count message_id
      else s.direct_message_with_mention_count }

/-- The ids of the page, group by group. -/
def UnreadMsgs.ids (unread_msgs : UnreadMsgs) : List ℕ :=
  unread_msgs.huddles.flatMap Huddle.unread_message_ids ++
    unread_msgs.pms.flatMap Pm.unread_message_ids ++
    unread_msgs.streams.flatMap StreamUnreads.unread_message_ids ++ unread_msgs.mentions

def initialize_unreads (unread_msgs : UnreadMsgs) : State :=
  let s := { s with
    unread_direct_message_counter :=
      set_pms (set_direct_message_groups c s.unread_direct_message_counter unread_msgs.huddles)
        unread_msgs.pms
    unread_topic_counter := set_streams c s.unread_topic_counter unread_msgs.streams }
  let s := unread_msgs.mentions.foldl add_mention s
  let s := clear_and_populate_unread_mentions c s
  { s with unread_messages := unread_msgs.ids.foldl add s.unread_messages }

/-! ### Moves -/

def update_unread_topics (id stream_id : ℕ) (topic : String)
    (new_topic : Option String) (new_stream_id : Option ℕ) : State :=
  if new_topic.isNone && new_stream_id.isNone then s
  else if id ∉ s.unread_messages then s
  else
    { s with
      unread_topic_counter := (s.unread_topic_counter.delete c id).add c id
        (new_stream_id.getD stream_id) (new_topic.getD topic) }

/-- An edit as its event tells it: the messages, the channel and the topic that they had,
and the topic and the channel that they get. -/
structure UpdateMessageEvent where
  message_ids : List ℕ
  stream_id : Option ℕ
  orig_topic : Option String
  new_topic : Option String
  new_stream_id : Option ℕ

namespace UpdateMessageEvent

variable (event : UpdateMessageEvent)

def only_topic_case_changed : Bool :=
  match event.new_topic, event.orig_topic with
  | some new_topic, some orig_topic =>
    decide (c.toLowerCase new_topic = c.toLowerCase orig_topic) && decide (new_topic ≠ orig_topic)
  | _, _ => false

def topic_edited : Bool := event.new_topic.isSome && !event.only_topic_case_changed c

end UpdateMessageEvent

/-- Every message of the list that the store has is a channel message. -/
def all_stream (message_ids : List ℕ) : Bool :=
  message_ids.all (fun message_id =>
    match s.message_store message_id with
    | none => true
    | some message =>
      match message.recipient with
      | .stream _ _ => true
      | .direct _ _ => false)

/-- A stored message takes the new spelling of its topic. -/
def respell (new_topic : String) (message_id : ℕ) : State :=
  match s.message_store message_id with
  | none => s
  | some message =>
    match message.recipient with
    | .direct _ _ => s
    | .stream stream_id _ =>
      { s with
        message_store := update s.message_store message_id
          (some { message with recipient := .stream stream_id new_topic }) }

/-- A stored message is moved: first in the counter, then in the store. -/
def move (event : UpdateMessageEvent) (s : State) (message_id : ℕ) : State :=
  match s.message_store message_id with
  | none => s
  | some message =>
    match message.recipient with
    | .direct _ _ => s
    | .stream stream_id topic =>
      let s := update_unread_topics c s message.id stream_id topic event.new_topic
        event.new_stream_id
      { s with
        message_store := update s.message_store message_id
          (some { message with
            recipient := .stream (event.new_stream_id.getD stream_id)
              (if event.topic_edited c then event.new_topic.getD topic else topic) }) }

/-- The part of the handler of an edit that moves messages.  An assertion that fails ends
it: without the channel and the topic that the messages had nothing is done, and a
direct message among the messages ends it before the moves, or before the cache is
rebuilt when only the spelling changes. -/
def update_messages (event : UpdateMessageEvent) : State :=
  let only_topic_case_changed := event.only_topic_case_changed c
  let stream_changed := event.new_stream_id.isSome
  if !event.topic_edited c && !stream_changed && !only_topic_case_changed then s
  else
    match event.stream_id, event.orig_topic with
    | some stream_id, some orig_topic =>
      if only_topic_case_changed && !stream_changed then
        let new_topic := event.new_topic.getD orig_topic
        let s := { s with
          unread_topic_counter :=
            s.unread_topic_counter.update_topic_name_case c stream_id orig_topic new_topic }
        if all_stream s event.message_ids then
          clear_and_populate_unread_mentions c
            (event.message_ids.foldl (fun s => respell s new_topic) s)
        else (event.message_ids.takeWhile (fun id => all_stream s [id])).foldl
          (fun s => respell s new_topic) s
      else if all_stream s event.message_ids then
        clear_and_populate_unread_mentions c (event.message_ids.foldl (move c event) s)
      else s
    | _, _ => s

/-! ### Runs -/

/-- An operation, or whatever the rest of the client does to the message store and to the
muting of channels and topics. -/
inductive Op
  | elsewhere (message_store : ℕ → Option Message) (is_muted : ℕ → Bool)
      (is_topic_muted is_topic_unmuted_or_followed : ℕ → String → Bool)
  | initialize_unreads (unread_msgs : UnreadMsgs)
  | process_unread_message (message : UnreadMessageData)
  | process_loaded_messages (messages : List Message)
  | update_message_for_mention (message : UnreadMessageData) (content_edited : Bool)
  | mark_as_read (message_id : ℕ)
  | update_messages (event : UpdateMessageEvent)

def step (s : State) : Op → State
  | .elsewhere message_store is_muted is_topic_muted is_topic_unmuted_or_followed =>
    { s with
      message_store := message_store
      is_muted := is_muted
      is_topic_muted := is_topic_muted
      is_topic_unmuted_or_followed := is_topic_unmuted_or_followed }
  | .initialize_unreads unread_msgs => initialize_unreads c s unread_msgs
  | .process_unread_message message => process_unread_message c s message
  | .process_loaded_messages messages => (process_loaded_messages c s messages).1
  | .update_message_for_mention message content_edited =>
    (update_message_for_mention c s message content_edited).1
  | .mark_as_read message_id => mark_as_read c s message_id
  | .update_messages event => update_messages c s event

def run (ops : List Op) : State := ops.foldl (step c) s

/-- The structures of a page that has just been opened. -/
def opened : State where
  message_store := fun _ => none
  is_muted := fun _ => false
  is_topic_muted := fun _ _ => false
  is_topic_unmuted_or_followed := fun _ _ => false
  unread_mentions_counter := []
  direct_message_with_mention_count := []
  unread_messages := []
  unread_mention_topics := fun _ => none
  unread_mention_dms := fun _ => none
  unread_topic_counter := ⟨fun _ => none, fun _ => none⟩
  unread_direct_message_counter := ⟨[], fun _ => none, fun _ => none⟩

end GrowTeam.UnreadIndexes
