import Mathlib.Data.List.Sort
import Mathlib.Data.List.Dedup
import GrowTeam.Buckets

/-!
# The counters of unread messages

The web client keeps the ids of its unread messages in two counters, one for the
direct messages by the string of their user ids, one for the channel messages by
channel and topic.  Each counter has the sets of ids and a reverse lookup from an id to
the place it was put under.  The names of the definitions are those of `unread.ts`,
`people.ts` and `fold_dict.ts`; a map is a function to `Option`, a set the list of its
members.
-/

namespace GrowTeam.UnreadIndexes

open Buckets List Function

/-- What the module takes from around it: the id of the user, and the folding of a
string to lower case. -/
structure Client where
  my_user_id : ℕ
  toLowerCase : String → String

variable (c : Client)

/-! ### The strings of user ids -/

def sorted_ids (ids : List ℕ) : List ℕ := ids.dedup.insertionSort (· ≤ ·)

variable (user_ids : List ℕ)

/-- The other users of a conversation, or the user alone. -/
def sorted_other_user_ids : List ℕ :=
  let other_user_ids := user_ids.filter (fun user_id => !decide (user_id = c.my_user_id))
  if other_user_ids.length > 0 then sorted_ids other_user_ids else sorted_ids [c.my_user_id]

/-- The ids joined with commas. -/
def join : String := String.intercalate "," (user_ids.map toString)

def pm_lookup_key_from_user_ids : String :=
  join (sorted_other_user_ids c user_ids)

/-- The key of a conversation given by the user ids of a string, as `split_to_ints` reads
them. -/
def pm_lookup_key : String := pm_lookup_key_from_user_ids c user_ids

def pm_with_user_ids (display_recipient : List ℕ) : Option (List ℕ) :=
  if display_recipient.length = 0 then none else some (sorted_other_user_ids c display_recipient)

def pm_reply_user_string (display_recipient : List ℕ) : Option String :=
  (pm_with_user_ids c display_recipient).map join

theorem join_ne_empty {user_ids : List ℕ} (h : user_ids ≠ []) : join user_ids ≠ "" := by
  cases user_ids with
  | nil => exact absurd rfl h
  | cons user_id rest =>
    cases rest with
    | nil => simp [join]
    | cons other rest =>
      intro hj
      have hempty := congrArg String.toList hj
      simp [join, String.intercalate_cons_cons] at hempty

theorem sorted_ids_ne_nil {ids : List ℕ} (h : ids ≠ []) : sorted_ids ids ≠ [] := by
  intro hs
  apply h
  rw [eq_nil_iff_forall_not_mem]
  intro i hi
  have hmem : i ∈ sorted_ids ids := by
    unfold sorted_ids
    rw [mem_insertionSort]
    exact mem_dedup.mpr hi
  rw [hs] at hmem
  cases hmem

theorem sorted_other_user_ids_ne_nil : sorted_other_user_ids c user_ids ≠ [] := by
  unfold sorted_other_user_ids
  dsimp only
  split
  · rename_i hlength
    exact sorted_ids_ne_nil (ne_nil_of_length_pos hlength)
  · exact sorted_ids_ne_nil (by simp)

/-- The key of a conversation is never the empty string. -/
theorem pm_lookup_key_ne_empty : pm_lookup_key c user_ids ≠ "" :=
  join_ne_empty (sorted_other_user_ids_ne_nil c user_ids)

theorem pm_reply_user_string_ne_empty {display_recipient : List ℕ} {u : String}
    (h : pm_reply_user_string c display_recipient = some u) : u ≠ "" := by
  unfold pm_reply_user_string pm_with_user_ids at h
  split at h
  · cases h
  · cases h
    exact join_ne_empty (sorted_other_user_ids_ne_nil c display_recipient)

/-! ### Direct messages -/

/-- The keys of `bucketer` stand beside it in the order in which they came. -/
structure UnreadDirectMessageCounter where
  keys : List String
  bucketer : String → Option (List ℕ)
  reverse_lookup : ℕ → Option String

namespace UnreadDirectMessageCounter

variable (d : UnreadDirectMessageCounter) (message_id : ℕ)

def add (user_ids_string : String) : UnreadDirectMessageCounter :=
  if user_ids_string = "" then d else
    { keys := Buckets.add d.keys user_ids_string
      bucketer := insertAt d.bucketer user_ids_string message_id
      reverse_lookup := update d.reverse_lookup message_id (some user_ids_string) }

def delete : UnreadDirectMessageCounter :=
  match d.reverse_lookup message_id with
  | none => d
  | some user_ids_string =>
    { d with
      bucketer := removeAt d.bucketer user_ids_string message_id
      reverse_lookup := update d.reverse_lookup message_id none }

def set_message_ids (user_ids_string : String) (unread_message_ids : List ℕ) :
    UnreadDirectMessageCounter :=
  unread_message_ids.foldl (fun d message_id => d.add message_id user_ids_string) d

/-- The ids of all buckets. -/
def get_msg_ids : List ℕ := sorted_ids (d.keys.flatMap (held d.bucketer))

/-- The sets of ids agree with the reverse lookup, which names no empty string. -/
structure Exact : Prop where
  agrees : Agrees (held d.bucketer) d.reverse_lookup
  named : ∀ i, d.reverse_lookup i ≠ some ""

variable {d}

theorem Exact.add (h : d.Exact) {message_id : ℕ} {user_ids_string : String}
    (hfree : ∀ u, d.reverse_lookup message_id = some u → u = user_ids_string) :
    (d.add message_id user_ids_string).Exact := by
  unfold UnreadDirectMessageCounter.add
  split
  · exact h
  · rename_i hstring
    constructor
    · exact h.agrees.insert (fun _ _ => mem_held_insertAt) rfl hfree
    · intro i
      by_cases hi : i = message_id
      · subst hi
        simpa using hstring
      · simpa [update_of_ne hi] using h.named i

theorem delete_reverse :
    (d.delete message_id).reverse_lookup = update d.reverse_lookup message_id none := by
  unfold UnreadDirectMessageCounter.delete
  cases hd : d.reverse_lookup message_id with
  | none => exact (update_eq_self_iff.mpr hd.symm).symm
  | some user_ids_string => rfl

theorem Exact.delete (h : d.Exact) (message_id : ℕ) : (d.delete message_id).Exact := by
  constructor
  · refine h.agrees.remove ?_ (delete_reverse message_id)
    intro k j
    unfold UnreadDirectMessageCounter.delete
    cases hd : d.reverse_lookup message_id with
    | none => simp
    | some user_ids_string =>
      rw [mem_held_removeAt, Option.some.injEq, eq_comm (a := k)]
  · intro i
    rw [delete_reverse]
    by_cases hi : i = message_id
    · subst hi
      simp
    · simpa [update_of_ne hi] using h.named i

end UnreadDirectMessageCounter

/-! ### Channel messages -/

/-- An entry of a `FoldDict`: the key as it was spelled, and the value. -/
structure KeyValue (V : Type) where
  k : String
  v : V

/-- A map whose keys are folded to lower case. -/
structure FoldDict (V : Type) where
  items : String → Option (KeyValue V)

namespace FoldDict

variable {V : Type}

def empty : FoldDict V := ⟨fun _ => none⟩

variable (d : FoldDict V)

def get (key : String) : Option V := (d.items (c.toLowerCase key)).map KeyValue.v

def set (key : String) (value : V) : FoldDict V :=
  ⟨update d.items (c.toLowerCase key) (some ⟨key, value⟩)⟩

/-- The value under a key is changed in place: the entry keeps its spelling. -/
def change (key : String) (f : V → V) : FoldDict V :=
  ⟨update d.items (c.toLowerCase key)
    ((d.items (c.toLowerCase key)).map (fun entry => ⟨entry.k, f entry.v⟩))⟩

end FoldDict

/-- The channel and the topic that a message was put under. -/
structure StreamTopic where
  stream_id : ℕ
  topic : String

structure UnreadTopicCounter where
  bucketer : ℕ → Option (FoldDict (List ℕ))
  reverse_lookup : ℕ → Option StreamTopic

namespace UnreadTopicCounter

variable (t : UnreadTopicCounter)

def add (message_id stream_id : ℕ) (topic : String) : UnreadTopicCounter :=
  let per_stream_bucketer := (t.bucketer stream_id).getD FoldDict.empty
  let per_stream_bucketer :=
    if (per_stream_bucketer.get c topic).isNone then per_stream_bucketer.set c topic []
    else per_stream_bucketer
  { bucketer := update t.bucketer stream_id
      (some (per_stream_bucketer.change c topic (fun bucket => Buckets.add bucket message_id)))
    reverse_lookup := update t.reverse_lookup message_id (some ⟨stream_id, topic⟩) }

variable (message_id : ℕ)

def delete : UnreadTopicCounter :=
  match t.reverse_lookup message_id with
  | none => t
  | some stream_topic =>
    { bucketer := update t.bucketer stream_topic.stream_id
        ((t.bucketer stream_topic.stream_id).map (fun per_stream_bucketer =>
          per_stream_bucketer.change c stream_topic.topic
            (fun bucket => Buckets.delete bucket message_id)))
      reverse_lookup := update t.reverse_lookup message_id none }

/-- The spelling of a topic changes, not the bucket. -/
def update_topic_name_case (stream_id : ℕ) (old_topic new_topic : String) :
    UnreadTopicCounter :=
  match t.bucketer stream_id with
  | none => t
  | some per_stream_bucketer =>
    match per_stream_bucketer.get c old_topic with
    | none => t
    | some topic_bucket =>
      { bucketer := update t.bucketer stream_id
          (some (per_stream_bucketer.set c new_topic topic_bucket))
        reverse_lookup := topic_bucket.foldl
          (fun reverse_lookup message_id =>
            update reverse_lookup message_id (some ⟨stream_id, new_topic⟩))
          t.reverse_lookup }

/-- The ids under a channel and a folded topic. -/
def bucket (k : ℕ × String) : List ℕ :=
  (((t.bucketer k.1).bind (fun d => d.items k.2)).map KeyValue.v).getD []

/-- The channel and the folded topic of a place. -/
def fold (place : StreamTopic) : ℕ × String := (place.stream_id, c.toLowerCase place.topic)

/-- The bucket that the reverse lookup names. -/
def named (i : ℕ) : Option (ℕ × String) := (t.reverse_lookup i).map (fold c)

/-- The sets of ids agree with the reverse lookup. -/
def Exact : Prop := Agrees t.bucket (t.named c)

variable {c t}

theorem mem_bucket_add {message_id stream_id : ℕ} {topic : String} {k : ℕ × String} {j : ℕ} :
    j ∈ (t.add c message_id stream_id topic).bucket k ↔
      j ∈ t.bucket k ∨ (k = fold c ⟨stream_id, topic⟩ ∧ j = message_id) := by
  obtain ⟨s, f⟩ := k
  by_cases hs : s = stream_id
  · subst hs
    by_cases hf : f = c.toLowerCase topic
    · subst hf
      cases hd : t.bucketer s with
      | none => simp [add, bucket, fold, FoldDict.change, FoldDict.set, FoldDict.get,
          FoldDict.empty, hd]
      | some d =>
        cases hi : d.items (c.toLowerCase topic) with
        | none => simp [add, bucket, fold, FoldDict.change, FoldDict.set, FoldDict.get, hd, hi]
        | some entry =>
          simp [add, bucket, fold, FoldDict.change, FoldDict.get, hd, hi]
    · have hne : (s, f) ≠ fold c ⟨s, topic⟩ := by
        intro h
        exact hf (Prod.mk.inj h).2
      -- another topic of the channel keeps its entry
      have hitems : ∀ d : FoldDict (List ℕ), ∀ value g,
          (d.change c topic g).items f = d.items f ∧ (d.set c topic value).items f = d.items f := by
        intro d value g
        exact ⟨update_of_ne hf _ _, update_of_ne hf _ _⟩
      have hget : ((t.add c message_id s topic).bucket (s, f)) = t.bucket (s, f) := by
        unfold add bucket
        dsimp only
        rw [update_self]
        cases hd : t.bucketer s with
        | none | some =>
          rw [Option.bind_some, (hitems _ [] _).1]
          split
          · rw [(hitems _ [] id).2]
            rfl
          · rfl
      rw [hget]
      simp [hne]
  · have hne : (s, f) ≠ fold c ⟨stream_id, topic⟩ := by
      intro h
      exact hs (Prod.mk.inj h).1
    have hget : ((t.add c message_id stream_id topic).bucket (s, f)) = t.bucket (s, f) := by
      unfold add bucket
      dsimp only
      rw [update_of_ne hs]
    rw [hget]
    simp [hne]

theorem named_add (message_id stream_id : ℕ) (topic : String) :
    (t.add c message_id stream_id topic).named c =
      update (t.named c) message_id (some (fold c ⟨stream_id, topic⟩)) := by
  funext i
  by_cases hi : i = message_id
  · subst hi
    simp [named, add]
  · simp [named, add, hi]

theorem Exact.add (h : t.Exact c) {message_id stream_id : ℕ} {topic : String}
    (hfree : ∀ k, t.named c message_id = some k → k = fold c ⟨stream_id, topic⟩) :
    (t.add c message_id stream_id topic).Exact c :=
  Agrees.insert h (fun _ _ => mem_bucket_add) (named_add message_id stream_id topic) hfree

theorem delete_reverse :
    (t.delete c message_id).reverse_lookup =
      update t.reverse_lookup message_id none := by
  unfold delete
  cases ht : t.reverse_lookup message_id with
  | none => exact (update_eq_self_iff.mpr ht.symm).symm
  | some stream_topic => rfl

theorem named_delete :
    (t.delete c message_id).named c = update (t.named c) message_id none := by
  funext i
  unfold named
  rw [delete_reverse]
  by_cases hi : i = message_id
  · subst hi
    simp
  · simp [hi]

theorem mem_bucket_delete {message_id : ℕ} {k : ℕ × String} {j : ℕ} :
    j ∈ (t.delete c message_id).bucket k ↔
      j ∈ t.bucket k ∧ ¬ (t.named c message_id = some k ∧ j = message_id) := by
  unfold delete named
  cases ht : t.reverse_lookup message_id with
  | none => simp
  | some place =>
    obtain ⟨s, f⟩ := k
    by_cases hs : s = place.stream_id
    · subst hs
      by_cases hf : f = c.toLowerCase place.topic
      · subst hf
        cases hd : t.bucketer place.stream_id with
        | none => simp [bucket, fold, hd]
        | some d =>
          cases hi : d.items (c.toLowerCase place.topic) with
          | none | some entry => simp [bucket, fold, FoldDict.change, hd, hi]
      · have hne : c.toLowerCase place.topic ≠ f := Ne.symm hf
        cases hd : t.bucketer place.stream_id with
        | none => simp [bucket, fold, hd]
        | some d => simp [bucket, fold, FoldDict.change, hd, hf, hne]
    · have hne : place.stream_id ≠ s := Ne.symm hs
      simp [bucket, fold, hs, hne]

theorem Exact.delete (h : t.Exact c) (message_id : ℕ) : (t.delete c message_id).Exact c :=
  Agrees.remove h (fun _ _ => mem_bucket_delete) (named_delete message_id)

theorem foldl_update {place : StreamTopic} {i : ℕ} (ids : List ℕ) :
    ∀ reverse_lookup : ℕ → Option StreamTopic,
      ids.foldl (fun reverse_lookup message_id =>
        update reverse_lookup message_id (some place)) reverse_lookup i =
      if i ∈ ids then some place else reverse_lookup i := by
  induction ids with
  | nil => intro reverse_lookup; simp
  | cons message_id ids ih =>
    intro reverse_lookup
    rw [foldl_cons, ih]
    by_cases hi : i = message_id
    · subst hi
      simp
    · simp [hi]

/-- A new spelling of a topic changes no bucket and no name of one. -/
theorem update_topic_name_case_spec (h : t.Exact c) {stream_id : ℕ} {old_topic new_topic : String}
    (hsame : c.toLowerCase new_topic = c.toLowerCase old_topic) :
    (t.update_topic_name_case c stream_id old_topic new_topic).bucket = t.bucket ∧
      (t.update_topic_name_case c stream_id old_topic new_topic).named c = t.named c := by
  unfold update_topic_name_case
  cases hd : t.bucketer stream_id with
  | none => exact ⟨rfl, rfl⟩
  | some d =>
    dsimp only
    cases hb : d.get c old_topic with
    | none => exact ⟨rfl, rfl⟩
    | some topic_bucket =>
      have hitem : (d.items (c.toLowerCase old_topic)).map KeyValue.v = some topic_bucket := hb
      constructor
      · funext k
        obtain ⟨s, f⟩ := k
        by_cases hs : s = stream_id
        · subst hs
          by_cases hf : f = c.toLowerCase old_topic
          · subst hf
            simp [bucket, FoldDict.set, hsame, hd, hitem]
          · simp [bucket, FoldDict.set, hsame, hd, hf]
        · simp [bucket, hs]
      · funext i
        unfold named
        dsimp only
        rw [foldl_update]
        by_cases hi : i ∈ topic_bucket
        · have hmem : i ∈ t.bucket (stream_id, c.toLowerCase old_topic) := by
            simpa [bucket, hd, hitem] using hi
          have hnamed : t.named c i = some (stream_id, c.toLowerCase old_topic) :=
            (h _ i).mp hmem
          rw [if_pos hi, Option.map_some, fold, hsame]
          exact hnamed.symm
        · rw [if_neg hi]

theorem Exact.update_topic_name_case (h : t.Exact c) {stream_id : ℕ}
    {old_topic new_topic : String} (hsame : c.toLowerCase new_topic = c.toLowerCase old_topic) :
    (t.update_topic_name_case c stream_id old_topic new_topic).Exact c := by
  have hspec : (t.update_topic_name_case c stream_id old_topic new_topic).bucket = t.bucket ∧
      (t.update_topic_name_case c stream_id old_topic new_topic).named c = t.named c :=
    update_topic_name_case_spec h hsame
  obtain ⟨hbucket, hnamed⟩ := hspec
  unfold Exact
  rw [hbucket, hnamed]
  exact h

end UnreadTopicCounter

/-! # The cache of unread mentions -/

open Buckets

/-- Where a stored message went. -/
inductive Recipient
  | stream (stream_id : ℕ) (topic : String)
  | direct (display_recipient : List ℕ) (to_user_ids : String)

/-- What the module reads of a message of the message store. -/
structure Message where
  id : ℕ
  unread : Bool
  mentioned : Bool
  mentioned_me_directly : Bool
  recipient : Recipient

/-- The place of a message by its type: `private` with the string of user ids, or
`stream`. -/
inductive Place
  | direct (user_ids_string : String)
  | stream (stream_id : ℕ) (topic : String)

structure UnreadMessageData where
  id : ℕ
  mentioned : Bool
  mentioned_me_directly : Bool
  unread : Bool
  place : Place

/-- The structures of `unread.ts`, and what its functions read of the message store, of
the channels and of the topics of the user. -/
structure State where
  message_store : ℕ → Option Message
  is_muted : ℕ → Bool
  is_topic_muted : ℕ → String → Bool
  is_topic_unmuted_or_followed : ℕ → String → Bool
  unread_mentions_counter : List ℕ
  direct_message_with_mention_count : List ℕ
  unread_messages : List ℕ
  unread_mention_topics : String → Option (List ℕ)
  unread_mention_dms : String → Option (List ℕ)
  unread_topic_counter : UnreadTopicCounter
  unread_direct_message_counter : UnreadDirectMessageCounter

variable (c : Client)

def get_topic_key (stream_id : ℕ) (topic : String) : String :=
  toString stream_id ++ ":" ++ c.toLowerCase topic

/-- A message is put under the key of the place that the message store has for it, and
nowhere when the store does not have the message. -/
def add_message_to_unread_mentions (s : State) (message_id : ℕ) : State :=
  match s.message_store message_id with
  | none => s
  | some message =>
    match message.recipient with
    | .stream stream_id topic =>
      { s with unread_mention_topics :=
          insertAt s.unread_mention_topics (get_topic_key c stream_id topic) message_id }
    | .direct _ to_user_ids =>
      { s with unread_mention_dms := insertAt s.unread_mention_dms to_user_ids message_id }

def remove_message_from_unread_mentions (s : State) (message_id : ℕ) : State :=
  match s.unread_topic_counter.reverse_lookup message_id with
  | some place =>
    { s with
      unread_mention_topics := removeAt s.unread_mention_topics
        (get_topic_key c place.stream_id place.topic) message_id }
  | none =>
    match s.unread_direct_message_counter.reverse_lookup message_id with
    | none => s
    | some user_ids_string =>
      if user_ids_string = "" then s else
        { s with unread_mention_dms :=
          pruneAt s.unread_mention_dms user_ids_string message_id }

/-- One id of the mentions is put back, under the key of its place in the counters. -/
def populate (s : State) (message_id : ℕ) : State :=
  match s.unread_topic_counter.reverse_lookup message_id with
  | some place =>
    { s with
      unread_mention_topics := insertAt s.unread_mention_topics
        (get_topic_key c place.stream_id place.topic) message_id }
  | none =>
    match s.unread_direct_message_counter.reverse_lookup message_id with
    | none => s
    | some user_ids_string =>
      if user_ids_string = "" then s else
        { s with unread_mention_dms :=
          insertAt s.unread_mention_dms user_ids_string message_id }

def clear_and_populate_unread_mentions (s : State) : State :=
  s.unread_mentions_counter.foldl (populate c)
    { s with
      unread_mention_topics := fun _ => none
      unread_mention_dms := fun _ => none }

/-! ### One cache of two maps -/

/-- A key of the cache: of a topic, or of a conversation. -/
inductive Key
  | topic (key : String)
  | direct (user_ids_string : String)
deriving DecidableEq

namespace State

variable (s : State)

/-- The ids in the cache under a key. -/
def cached : Key → List ℕ
  | .topic key => held s.unread_mention_topics key
  | .direct user_ids_string => held s.unread_mention_dms user_ids_string

/-- The key of the place that the counters name for an id. -/
def namedKey (i : ℕ) : Option Key :=
  match s.unread_topic_counter.reverse_lookup i with
  | some place => some (.topic (get_topic_key c place.stream_id place.topic))
  | none =>
    match s.unread_direct_message_counter.reverse_lookup i with
    | none => none
    | some user_ids_string => if user_ids_string = "" then none else some (.direct user_ids_string)

end State

/-- The key of the place of a stored message. -/
def Message.key (message : Message) : Key :=
  match message.recipient with
  | .stream stream_id topic => .topic (get_topic_key c stream_id topic)
  | .direct _ to_user_ids => .direct to_user_ids

/-- The key of the place that the message store has for an id. -/
def State.storedKey (s : State) (i : ℕ) : Option Key := (s.message_store i).map (Message.key c)

variable {c} {s : State}

/-- What the module reads from around it is the same. -/
structure SameAround (s s' : State) : Prop where
  store : s'.message_store = s.message_store
  muted : s'.is_muted = s.is_muted
  topic_muted : s'.is_topic_muted = s.is_topic_muted
  topic_unmuted : s'.is_topic_unmuted_or_followed = s.is_topic_unmuted_or_followed

/-- Nothing but the cache differs. -/
structure SameCounters (s s' : State) : Prop extends SameAround s s' where
  mentions : s'.unread_mentions_counter = s.unread_mentions_counter
  unread : s'.unread_messages = s.unread_messages
  topics : s'.unread_topic_counter = s.unread_topic_counter
  dms : s'.unread_direct_message_counter = s.unread_direct_message_counter

theorem SameCounters.refl (s : State) : SameCounters s s := ⟨⟨rfl, rfl, rfl, rfl⟩, rfl, rfl, rfl, rfl⟩

variable {s s' s'' : State}

theorem SameAround.trans (h : SameAround s s') (h' : SameAround s' s'') :
    SameAround s s'' :=
  ⟨h'.store.trans h.store, h'.muted.trans h.muted, h'.topic_muted.trans h.topic_muted,
    h'.topic_unmuted.trans h.topic_unmuted⟩

theorem SameCounters.trans (h : SameCounters s s') (h' : SameCounters s' s'') :
    SameCounters s s'' :=
  ⟨h.toSameAround.trans h'.toSameAround, h'.mentions.trans h.mentions, h'.unread.trans h.unread,
    h'.topics.trans h.topics, h'.dms.trans h.dms⟩

theorem SameCounters.namedKey (h : SameCounters s s') :
    s'.namedKey c = s.namedKey c := by
  unfold State.namedKey
  rw [h.topics, h.dms]

variable (message_id : ℕ)

theorem add_same : SameCounters s (add_message_to_unread_mentions c s message_id) := by
  unfold add_message_to_unread_mentions
  split
  · exact .refl s
  · split <;> exact ⟨⟨rfl, rfl, rfl, rfl⟩, rfl, rfl, rfl, rfl⟩

variable {k : Key}

theorem mem_cached_add {message_id i : ℕ} :
    i ∈ (add_message_to_unread_mentions c s message_id).cached k ↔
      i ∈ s.cached k ∨ (s.storedKey c message_id = some k ∧ i = message_id) := by
  unfold add_message_to_unread_mentions State.storedKey
  cases hm : s.message_store message_id with
  | none => simp
  | some message =>
    cases hr : message.recipient with
    | stream stream_id topic =>
      cases k with
      | topic key => simp [State.cached, mem_held_insertAt, Message.key, hr, eq_comm]
      | direct u => simp [State.cached, Message.key, hr]
    | direct users to_user_ids =>
      cases k with
      | topic key => simp [State.cached, Message.key, hr]
      | direct u => simp [State.cached, mem_held_insertAt, Message.key, hr, eq_comm]

theorem remove_same : SameCounters s (remove_message_from_unread_mentions c s message_id) := by
  unfold remove_message_from_unread_mentions
  split
  · exact ⟨⟨rfl, rfl, rfl, rfl⟩, rfl, rfl, rfl, rfl⟩
  · split
    · exact .refl s
    · split
      · exact .refl s
      · exact ⟨⟨rfl, rfl, rfl, rfl⟩, rfl, rfl, rfl, rfl⟩

theorem mem_cached_remove {message_id i : ℕ} :
    i ∈ (remove_message_from_unread_mentions c s message_id).cached k ↔
      i ∈ s.cached k ∧ ¬ (s.namedKey c message_id = some k ∧ i = message_id) := by
  unfold remove_message_from_unread_mentions State.namedKey
  cases ht : s.unread_topic_counter.reverse_lookup message_id with
  | some place =>
    cases k with
    | topic key => simp [State.cached, mem_held_removeAt, eq_comm]
    | direct u => simp [State.cached]
  | none =>
    cases hd : s.unread_direct_message_counter.reverse_lookup message_id with
    | none => simp
    | some u =>
      dsimp only
      by_cases hu : u = ""
      · simp [hu]
      · rw [if_neg hu, if_neg hu]
        cases k with
        | topic key => simp [State.cached]
        | direct u' => simp [State.cached, held_pruneAt, mem_held_removeAt, eq_comm]

theorem populate_same : SameCounters s (populate c s message_id) := by
  unfold populate
  split
  · exact ⟨⟨rfl, rfl, rfl, rfl⟩, rfl, rfl, rfl, rfl⟩
  · split
    · exact .refl s
    · split
      · exact .refl s
      · exact ⟨⟨rfl, rfl, rfl, rfl⟩, rfl, rfl, rfl, rfl⟩

theorem mem_cached_populate {message_id i : ℕ} :
    i ∈ (populate c s message_id).cached k ↔
      i ∈ s.cached k ∨ (s.namedKey c message_id = some k ∧ i = message_id) := by
  unfold populate State.namedKey
  cases ht : s.unread_topic_counter.reverse_lookup message_id with
  | some place =>
    cases k with
    | topic key => simp [State.cached, mem_held_insertAt, eq_comm]
    | direct u => simp [State.cached]
  | none =>
    cases hd : s.unread_direct_message_counter.reverse_lookup message_id with
    | none => simp
    | some u =>
      dsimp only
      by_cases hu : u = ""
      · simp [hu]
      · rw [if_neg hu, if_neg hu]
        cases k with
        | topic key => simp [State.cached]
        | direct u' => simp [State.cached, mem_held_insertAt, eq_comm]

theorem populate_all (ids : List ℕ) :
    ∀ s : State, SameCounters s (ids.foldl (populate c) s) ∧
      ∀ k i, i ∈ (ids.foldl (populate c) s).cached k ↔
        i ∈ s.cached k ∨ (i ∈ ids ∧ s.namedKey c i = some k) := by
  induction ids with
  | nil =>
    intro s
    exact ⟨SameCounters.refl s, by simp⟩
  | cons message_id ids ih =>
    intro s
    obtain ⟨hsame, hmem⟩ := ih (populate c s message_id)
    have hone : SameCounters s (populate c s message_id) := populate_same message_id
    refine ⟨hone.trans hsame, ?_⟩
    intro k i
    rw [foldl_cons, hmem, mem_cached_populate, hone.namedKey, mem_cons]
    constructor
    · rintro ((h | ⟨hk, rfl⟩) | ⟨hi, hk⟩)
      · exact .inl h
      · exact .inr ⟨.inl rfl, hk⟩
      · exact .inr ⟨.inr hi, hk⟩
    · rintro (h | ⟨rfl | hi, hk⟩)
      · exact .inl (.inl h)
      · exact .inl (.inr ⟨hk, rfl⟩)
      · exact .inr ⟨hi, hk⟩

/-- The rebuilt cache has the mentions under the keys of their places in the counters. -/
theorem mem_cached_rebuilt {i : ℕ} :
    i ∈ (clear_and_populate_unread_mentions c s).cached k ↔
      i ∈ s.unread_mentions_counter ∧ s.namedKey c i = some k := by
  unfold clear_and_populate_unread_mentions
  rw [(populate_all _ _).2 k i]
  have hcleared : ∀ k, State.cached { s with
      unread_mention_topics := fun _ => none
      unread_mention_dms := fun _ => none } k = [] := by
    intro k
    cases k <;> rfl
  rw [hcleared]
  constructor
  · rintro (h | h)
    · cases h
    · exact h
  · exact .inr

theorem rebuilt_same : SameCounters s (clear_and_populate_unread_mentions c s) := by
  have hcleared : SameCounters s { s with
      unread_mention_topics := fun _ => none
      unread_mention_dms := fun _ => none } := ⟨⟨rfl, rfl, rfl, rfl⟩, rfl, rfl, rfl, rfl⟩
  exact hcleared.trans (populate_all _ _).1

section

variable (h : Pruned s.unread_mention_dms)

include h

/-- The entries of the conversations never hold nothing. -/
theorem pruned_add (message_id : ℕ) :
    Pruned (add_message_to_unread_mentions c s message_id).unread_mention_dms := by
  unfold add_message_to_unread_mentions
  split
  · exact h
  · split
    · exact h
    · exact h.insertAt _ _

theorem pruned_remove (message_id : ℕ) :
    Pruned (remove_message_from_unread_mentions c s message_id).unread_mention_dms := by
  unfold remove_message_from_unread_mentions
  split
  · exact h
  · split
    · exact h
    · split
      · exact h
      · exact h.pruneAt _ _

theorem pruned_populate (message_id : ℕ) : Pruned (populate c s message_id).unread_mention_dms := by
  unfold populate
  split
  · exact h
  · split
    · exact h
    · split
      · exact h
      · exact h.insertAt _ _

end

theorem pruned_rebuilt : Pruned (clear_and_populate_unread_mentions c s).unread_mention_dms := by
  refine List.foldlRecOn (motive := fun s : State => Pruned s.unread_mention_dms) _ _
    pruned_empty ?_
  intro s h message_id _
  exact pruned_populate h message_id

end GrowTeam.UnreadIndexes
