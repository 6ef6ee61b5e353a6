import GrowTeam.UnreadIndexes.Consistent

/-!
# Runs over the unread structures

Each operation keeps the agreement of the structures on two conditions.  Its caller gives
every message one place.  And where an unread message counts as a mention, the message
store has it under that place: the second is what the operations do not look after.
-/

namespace GrowTeam.UnreadIndexes

open Buckets List State

variable (c : Client)

/-- The places that the state of the page gives, id by id. -/
def placements (unread_msgs : UnreadMsgs) : List (ℕ × Place) :=
  unread_msgs.huddles.flatMap (fun obj =>
    obj.unread_message_ids.map (fun i =>
      (i, Place.direct (pm_lookup_key c obj.user_ids_string)))) ++
  (unread_msgs.pms.flatMap (fun obj =>
    obj.unread_message_ids.map (fun i => (i, Place.direct (toString obj.other_user_id)))) ++
  unread_msgs.streams.flatMap (fun obj =>
    obj.unread_message_ids.map (fun i => (i, Place.stream obj.stream_id obj.topic))))

/-- The stored channel messages among the ids are in no bucket of a conversation. -/
def Undirected (s : State) (ids : List ℕ) : Prop :=
  ∀ id ∈ ids, ∀ message, s.message_store id = some message →
    ∀ stream_id topic, message.recipient = .stream stream_id topic →
      s.unread_direct_message_counter.reverse_lookup message.id = none

/-- What the callers see to: a message has one place, the mentions of the page are among its
unread messages, and only channel messages are moved. -/
def Promised (s : State) : Op → Prop
  | .elsewhere _ _ _ _ => True
  | .initialize_unreads unread_msgs =>
    (∀ p ∈ placements c unread_msgs, ∀ q ∈ placements c unread_msgs, p.1 = q.1 →
      p.2.bucket c = q.2.bucket c) ∧
    (∀ p ∈ placements c unread_msgs, ∀ b, s.names c p.1 b → b = p.2.bucket c) ∧
    ∀ i ∈ unread_msgs.mentions, i ∈ s.unread_messages ∨ ∃ p ∈ placements c unread_msgs, p.1 = i
  | .process_unread_message message => Placed c s message.id message.place
  | .process_loaded_messages messages => ∀ message ∈ messages, message.unread = true →
    message.id ∉ s.unread_messages → (message.loaded c).place ≠ .direct ""
  | .update_message_for_mention _ _ => True
  | .mark_as_read _ => True
  | .update_messages event => Undirected s event.message_ids

/-- Whenever the operation counts an unread message as a mention, the message store has it
under its place in the counters, or does not have it and the cache does. -/
def Fetched (s : State) : Op → Prop
  | .process_unread_message message => message.unread = true → is_counted s message = true →
    Findable c s message.id (some (message.place.bucket c).key)
  | .process_loaded_messages messages => ∀ message ∈ messages, message.unread = true →
    message.id ∉ s.unread_messages → is_counted s (message.loaded c) = true →
      s.storedKey c message.id = some ((message.loaded c).place.bucket c).key
  | .update_message_for_mention message _ => message.unread = true → is_counted s message = true →
    Findable c s message.id (s.namedKey c message.id)
  | _ => True

/-- Every operation of a run finds what it needs. -/
def Meets (s : State) : List Op → Prop
  | [] => True
  | op :: ops => Promised c s op ∧ Fetched c s op ∧ Meets (step c s op) ops

variable {c} {s : State}

/-! ### The steps -/

/-- The state in which an unread message has joined its counter. -/
def join_counter (c : Client) (s : State) (message : UnreadMessageData) : State :=
  add_to_counter c { s with unread_messages := add s.unread_messages message.id } message.id
    message.place

variable (message : UnreadMessageData)

/-- Joining a counter changes neither what is around nor the cache. -/
theorem join_counter_same : SameAround s (join_counter c s message) ∧
      (join_counter c s message).unread_messages = add s.unread_messages message.id ∧
      ∀ k, (join_counter c s message).cached k = s.cached k := by
  unfold join_counter
  cases message.place <;>
    exact ⟨⟨rfl, rfl, rfl, rfl⟩, rfl, fun k => by cases k <;> rfl⟩

/-- A message counts as a mention by itself and by what is muted. -/
theorem is_counted_around {s' : State} (h : SameAround s s') (message : UnreadMessageData) :
    is_counted s' message = is_counted s message := by
  unfold is_counted is_message_in_unmuted_context
  rw [h.muted, h.topic_muted, h.topic_unmuted]

/-- A message that joins its counter is findable as it was before, under its place. -/
theorem join_counter_findable {message : UnreadMessageData} (h : Kept c s)
    (hplaced : Placed c s message.id message.place) :
    Findable c (join_counter c s message) message.id
        ((join_counter c s message).namedKey c message.id) ↔
      Findable c s message.id (some (message.place.bucket c).key) := by
  obtain ⟨_, _, hkey, _⟩ := joined h hplaced
  obtain ⟨haround, _, hcached⟩ := join_counter_same (c := c) (s := s) message
  have hnamed : (join_counter c s message).namedKey c message.id =
      some (message.place.bucket c).key := hkey
  rw [hnamed]
  unfold Findable storedKey
  rw [haround.store]
  simp only [hcached]

theorem process_unread_message_kept {message : UnreadMessageData} (h : Kept c s)
    (hplaced : Placed c s message.id message.place)
    (hfind : message.unread = true → is_counted s message = true →
      Findable c s message.id (some (message.place.bucket c).key)) :
    Kept c (process_unread_message c s message) := by
  obtain ⟨htracked, hfits, _, hpruned⟩ := joined h hplaced
  refine update_kept (s := join_counter c s message) htracked hfits hpruned ?_
  intro hunread hcounted
  rw [join_counter_findable h hplaced]
  rw [is_counted_around (join_counter_same message).1] at hcounted
  exact hfind hunread hcounted

/-- What the change of a mention leaves as it was. -/
theorem update_message_for_mention_around :
    SameAround s (update_message_for_mention c s message false).1 ∧
      (update_message_for_mention c s message false).1.unread_messages = s.unread_messages := by
  have hforget := forget_mention_same (c := c) (s := s) message.id
  have hcount := count_mention_same (c := c) (s := s) message
  have heither : SameAround s (if is_counted s message then count_mention c s message
        else forget_mention c s message.id) ∧
      (if is_counted s message then count_mention c s message
        else forget_mention c s message.id).unread_messages = s.unread_messages := by
    split
    · exact ⟨hcount.1, hcount.2.1⟩
    · exact ⟨hforget.1, hforget.2.1⟩
  unfold update_message_for_mention
  split
  · exact ⟨hforget.1, hforget.2.1⟩
  · cases message.place <;> exact heither

/-- What processing an unread message leaves as it was. -/
theorem process_unread_message_around : SameAround s (process_unread_message c s message) ∧
      (process_unread_message c s message).unread_messages =
        add s.unread_messages message.id := by
  obtain ⟨hjoin, hmore, _⟩ := join_counter_same (c := c) (s := s) message
  obtain ⟨hupdate, hsame⟩ := update_message_for_mention_around (c := c)
    (s := join_counter c s message) message
  exact ⟨hjoin.trans hupdate, hsame.trans hmore⟩

/-- A stored message as the helper builds it: the string of a direct message is made of its
recipients, of which there is one at least. -/
def Built (c : Client) (message : Message) : Prop :=
  ∀ display_recipient to_user_ids, message.recipient = .direct display_recipient to_user_ids →
    pm_reply_user_string c display_recipient = some to_user_ids

/-- Fetched messages that are in the store as they were built ask nothing more. -/
theorem loaded_meets {messages : List Message}
    (h : ∀ message ∈ messages, Built c message ∧ s.message_store message.id = some message) :
    Promised c s (.process_loaded_messages messages) ∧
      Fetched c s (.process_loaded_messages messages) := by
  have hplace : ∀ message ∈ messages, (message.loaded c).place ≠ .direct "" ∧
      message.key c = ((message.loaded c).place.bucket c).key := by
    intro message hm
    have hbuilt := (h message hm).1
    unfold Message.loaded Message.key
    cases hr : message.recipient with
    | stream stream_id topic => exact ⟨by simp, rfl⟩
    | direct display_recipient to_user_ids =>
      have hstring := hbuilt display_recipient to_user_ids hr
      dsimp only
      rw [hstring]
      exact ⟨by simpa using pm_reply_user_string_ne_empty c hstring, rfl⟩
  refine ⟨fun message hm _ _ => (hplace message hm).1, ?_⟩
  intro message hm _ _ _
  unfold storedKey
  rw [(h message hm).2, Option.map_some, (hplace message hm).2]

theorem process_loaded_messages_kept (messages : List Message) :
    ∀ s : State, Kept c s → Promised c s (.process_loaded_messages messages) →
      Fetched c s (.process_loaded_messages messages) →
        Kept c (process_loaded_messages c s messages).1 := by
  induction messages with
  | nil =>
    intro s h _ _
    exact h
  | cons message messages ih =>
    intro s h hpromised hfetched
    unfold process_loaded_messages
    by_cases hunread : message.unread = true
    · by_cases htracked : message.id ∈ s.unread_messages
      · rw [if_neg (by simp [hunread]), if_pos htracked]
        exact ih s h (fun m hm => hpromised m (mem_cons_of_mem _ hm))
          (fun m hm => hfetched m (mem_cons_of_mem _ hm))
      · rw [if_neg (by simp [hunread]), if_neg htracked]
        have huntracked : ¬ ∃ b, s.names c message.id b := by
          rw [← h.tracked.union]
          exact htracked
        have hplaced : Placed c s message.id (message.loaded c).place :=
          ⟨fun b hb => absurd ⟨b, hb⟩ huntracked,
            hpromised message mem_cons_self hunread htracked⟩
        have hkept : Kept c (process_unread_message c s (message.loaded c)) := by
          refine process_unread_message_kept h hplaced ?_
          intro _ hcounted
          exact .inl (hfetched message mem_cons_self hunread htracked hcounted)
        obtain ⟨haround, hmore⟩ := process_unread_message_around (c := c) (s := s)
          (message.loaded c)
        have hbefore : ∀ i, i ∉ (process_unread_message c s (message.loaded c)).unread_messages →
            i ∉ s.unread_messages := by
          intro i hi hin
          rw [hmore, mem_add] at hi
          exact hi (.inl hin)
        refine ih _ hkept ?_ ?_
        · intro m hm hu hi
          exact hpromised m (mem_cons_of_mem _ hm) hu (hbefore _ hi)
        · intro m hm hu hi hcounted
          unfold storedKey
          rw [haround.store]
          rw [is_counted_around haround] at hcounted
          exact hfetched m (mem_cons_of_mem _ hm) hu (hbefore _ hi) hcounted
    · rw [if_pos (by simpa using hunread)]
      exact ih s h (fun m hm => hpromised m (mem_cons_of_mem _ hm))
        (fun m hm => hfetched m (mem_cons_of_mem _ hm))

theorem mark_as_read_kept (h : Kept c s) (i : ℕ) : Kept c (mark_as_read c s i) := by
  have hsame := remove_same (c := c) (s := s) i
  have hnames : ∀ j b, (mark_as_read c s i).names c j b ↔ s.names c j b ∧ j ≠ i := by
    intro j b
    have hdrop := names_drop (c := c) (s := s) i j b
    cases b with
    | topic stream_id folded =>
      unfold mark_as_read names
      dsimp only
      rw [hsame.topics]
      exact hdrop
    | direct u =>
      unfold mark_as_read names
      dsimp only
      rw [hsame.dms]
      exact hdrop
  have hindexed : Indexed c (mark_as_read c s i) := by
    have hdrop := h.tracked.toIndexed.drop i
    unfold mark_as_read
    refine ⟨?_, ?_, ?_⟩
    · dsimp only
      rw [hsame.topics]
      exact hdrop.topics
    · dsimp only
      rw [hsame.dms]
      exact hdrop.dms
    · dsimp only
      rw [hsame.topics, hsame.dms]
      exact hdrop.apart
  have hunread : (mark_as_read c s i).unread_messages = delete s.unread_messages i := by
    unfold mark_as_read
    dsimp only
    rw [hsame.unread]
  have hmentions : (mark_as_read c s i).unread_mentions_counter =
      delete s.unread_mentions_counter i := by
    unfold mark_as_read
    dsimp only
    rw [hsame.mentions]
  have hcached : ∀ k, (mark_as_read c s i).cached k =
      (remove_message_from_unread_mentions c s i).cached k := by
    intro k
    cases k <;> rfl
  refine ⟨⟨hindexed, ?_⟩, ?_, ?_⟩
  · intro j
    rw [hunread, mem_delete, h.tracked.union]
    simp only [hnames, exists_and_right]
  · intro j k
    rw [hcached, mem_cached_remove, hmentions, mem_delete, h.cached j k]
    by_cases hj : j = i
    · subst hj
      constructor
      · rintro ⟨⟨_, hk⟩, hnot⟩
        exact absurd ⟨hk, rfl⟩ hnot
      · rintro ⟨⟨_, hne⟩, _⟩
        exact absurd rfl hne
    · have hkey : (mark_as_read c s i).namedKey c j = s.namedKey c j := by
        refine namedKey_congr h.tracked.toIndexed hindexed ?_
        intro b
        rw [hnames]
        simp [hj]
      rw [hkey]
      simp [hj]
  · exact pruned_remove h.pruned i

/-- Whatever the cache was, a rebuild makes it right. -/
theorem rebuilt_kept (h : Tracked c s) : Kept c (clear_and_populate_unread_mentions c s) := by
  have hsame := rebuilt_same (c := c) (s := s)
  refine ⟨h.congr ⟨hsame.unread, hsame.topics, hsame.dms⟩, ?_, pruned_rebuilt⟩
  intro i k
  rw [mem_cached_rebuilt, hsame.mentions, hsame.namedKey]

/-! ### Moves -/

/-- Nothing but the message store and the topic counter differs. -/
structure SameTracks (s s' : State) : Prop where
  mentions : s'.unread_mentions_counter = s.unread_mentions_counter
  unread : s'.unread_messages = s.unread_messages
  dms : s'.unread_direct_message_counter = s.unread_direct_message_counter
  cached : ∀ k, s'.cached k = s.cached k
  pruned : s'.unread_mention_dms = s.unread_mention_dms

theorem SameTracks.trans {s s' s'' : State} (h : SameTracks s s') (h' : SameTracks s' s'') :
    SameTracks s s'' :=
  ⟨h'.mentions.trans h.mentions, h'.unread.trans h.unread, h'.dms.trans h.dms,
    fun k => (h'.cached k).trans (h.cached k), h'.pruned.trans h.pruned⟩

theorem respell_same (new_topic : String) (ids : List ℕ) :
    ∀ s : State, SameTracks s (ids.foldl (fun s => respell s new_topic) s) ∧
      (ids.foldl (fun s => respell s new_topic) s).unread_topic_counter =
        s.unread_topic_counter := by
  induction ids with
  | nil => exact fun s => ⟨⟨rfl, rfl, rfl, fun _ => rfl, rfl⟩, rfl⟩
  | cons i ids ih =>
    intro s
    have hone : SameTracks s (respell s new_topic i) ∧
        (respell s new_topic i).unread_topic_counter = s.unread_topic_counter := by
      unfold respell
      split
      · exact ⟨⟨rfl, rfl, rfl, fun _ => rfl, rfl⟩, rfl⟩
      · split
        · exact ⟨⟨rfl, rfl, rfl, fun _ => rfl, rfl⟩, rfl⟩
        · exact ⟨⟨rfl, rfl, rfl, fun k => by cases k <;> rfl, rfl⟩, rfl⟩
    obtain ⟨hsame, htopics⟩ := ih (respell s new_topic i)
    exact ⟨hone.1.trans hsame, htopics.trans hone.2⟩

/-- With the same topic counter everything is kept. -/
theorem Kept.congr {s' : State} (h : Kept c s) (hsame : SameTracks s s')
    (htopics : s'.unread_topic_counter = s.unread_topic_counter) : Kept c s' := by
  refine ⟨h.tracked.congr ⟨hsame.unread, htopics, hsame.dms⟩, ?_, ?_⟩
  · intro i k
    have hkey : s'.namedKey c i = s.namedKey c i := by
      unfold namedKey
      rw [htopics, hsame.dms]
    rw [hsame.cached, hsame.mentions, hkey]
    exact h.cached i k
  · rw [hsame.pruned]
    exact h.pruned

/-- A new spelling of a topic keeps everything. -/
theorem respelled_kept (h : Kept c s) (stream_id : ℕ) {old_topic new_topic : String}
    (hsame : c.toLowerCase new_topic = c.toLowerCase old_topic) :
    Kept c { s with unread_topic_counter :=
      s.unread_topic_counter.update_topic_name_case c stream_id old_topic new_topic } := by
  let renamed := s.unread_topic_counter.update_topic_name_case c stream_id old_topic new_topic
  have hspec : renamed.bucket = s.unread_topic_counter.bucket ∧
      renamed.named c = s.unread_topic_counter.named c :=
    UnreadTopicCounter.update_topic_name_case_spec h.tracked.topics hsame
  have hnone : ∀ i, renamed.reverse_lookup i = none ↔ s.unread_topic_counter.reverse_lookup i = none := by
    intro i
    have hnamed := congrFun hspec.2 i
    unfold UnreadTopicCounter.named at hnamed
    rw [← Option.map_eq_none_iff (f := UnreadTopicCounter.fold c), hnamed,
      Option.map_eq_none_iff]
  have hindexed : Indexed c { s with unread_topic_counter :=
      s.unread_topic_counter.update_topic_name_case c stream_id old_topic new_topic } := by
    refine ⟨h.tracked.topics.update_topic_name_case hsame, h.tracked.dms, ?_⟩
    intro i
    rcases h.tracked.apart i with ht | hd
    · exact .inl ((hnone i).mpr ht)
    · exact .inr hd
  have hnames : ∀ i b, names c { s with unread_topic_counter :=
      s.unread_topic_counter.update_topic_name_case c stream_id old_topic new_topic } i b ↔
        s.names c i b := by
    intro i b
    cases b with
    | topic stream_id' folded =>
      unfold names
      rw [hspec.2]
    | direct u => exact .rfl
  refine ⟨⟨hindexed, ?_⟩, ?_, h.pruned⟩
  · intro i
    rw [exists_congr (hnames i)]
    exact h.tracked.union i
  · intro i k
    have hkey := namedKey_congr h.tracked.toIndexed hindexed (hnames i)
    have hcached := h.cached i k
    rw [← hkey] at hcached
    cases k <;> exact hcached

/-- A moved message that is no direct message leaves the counters in agreement. -/
theorem moved_tracked {i stream_id : ℕ} {topic : String} {new_topic : Option String}
    {new_stream_id : Option ℕ} (h : Tracked c s)
    (hdirect : s.unread_direct_message_counter.reverse_lookup i = none) :
    Tracked c (update_unread_topics c s i stream_id topic new_topic new_stream_id) := by
  unfold update_unread_topics
  split
  · exact h
  · split
    · exact h
    · rename_i hin
      have hunread : i ∈ s.unread_messages := by simpa using hin
      have hdeleted : s.unread_direct_message_counter.delete i =
          s.unread_direct_message_counter := by
        unfold UnreadDirectMessageCounter.delete
        rw [hdirect]
      have hdrop : drop c s i =
          { s with unread_topic_counter := s.unread_topic_counter.delete c i } := by
        unfold drop
        rw [hdeleted]
      have hplaced : Placed c (drop c s i) i
          (.stream (new_stream_id.getD stream_id) (new_topic.getD topic)) := by
        refine ⟨?_, by simp⟩
        intro b hb
        exact absurd rfl ((names_drop i i b).mp hb).2
      have hindexed := (h.toIndexed.drop i).add_to_counter hplaced
      have hnames := fun j => names_add_to_counter (j := j) hplaced
      rw [hdrop] at hindexed hnames
      refine ⟨hindexed, ?_⟩
      intro j
      show j ∈ s.unread_messages ↔ ∃ b, names c (add_to_counter c
        { s with unread_topic_counter := s.unread_topic_counter.delete c i } i
        (.stream (new_stream_id.getD stream_id) (new_topic.getD topic))) j b
      rw [exists_congr (hnames j), h.union]
      simp only [← hdrop, names_drop]
      by_cases hj : j = i
      · subst hj
        have hsome : ∃ b, s.names c j b := (h.union j).mp hunread
        simp [hsome]
      · simp [hj]

/-- A move leaves the conversations alone, and a stored message stays the message that it
was. -/
theorem move_spec (event : UpdateMessageEvent) (s : State) (i : ℕ) :
    (move c event s i).unread_direct_message_counter = s.unread_direct_message_counter ∧
      ∀ id message, (move c event s i).message_store id = some message →
        ∃ before, s.message_store id = some before ∧ before.id = message.id ∧
          (∀ stream_id topic, message.recipient = .stream stream_id topic →
            ∃ stream_id topic, before.recipient = .stream stream_id topic) := by
  have hsame : ∀ id message, s.message_store id = some message →
      ∃ before, s.message_store id = some before ∧ before.id = message.id ∧
        (∀ stream_id topic, message.recipient = .stream stream_id topic →
          ∃ stream_id topic, before.recipient = .stream stream_id topic) := by
    intro id message h
    exact ⟨message, h, rfl, fun stream_id topic hr => ⟨stream_id, topic, hr⟩⟩
  unfold move
  cases hm : s.message_store i with
  | none => exact ⟨rfl, hsame⟩
  | some stored =>
    dsimp only
    cases hr : stored.recipient with
    | direct users to_user_ids => exact ⟨rfl, hsame⟩
    | stream stream_id topic =>
      dsimp only
      have hupdate : ∀ id, (update_unread_topics c s id stream_id topic event.new_topic
            event.new_stream_id).unread_direct_message_counter =
              s.unread_direct_message_counter ∧
          (update_unread_topics c s id stream_id topic event.new_topic
            event.new_stream_id).message_store = s.message_store := by
        intro id
        unfold update_unread_topics
        split
        · exact ⟨rfl, rfl⟩
        · split <;> exact ⟨rfl, rfl⟩
      refine ⟨(hupdate _).1, ?_⟩
      intro id message h
      rw [(hupdate _).2] at h
      by_cases hid : id = i
      · subst hid
        rw [Function.update_self] at h
        cases h
        exact ⟨stored, hm, rfl, fun _ _ _ => ⟨stream_id, topic, hr⟩⟩
      · rw [Function.update_of_ne hid] at h
        exact hsame id message h

theorem moves_tracked (event : UpdateMessageEvent) (ids : List ℕ) :
    ∀ s : State, Tracked c s → Undirected s ids → Tracked c (ids.foldl (move c event) s) := by
  induction ids with
  | nil =>
    intro s h _
    exact h
  | cons i ids ih =>
    intro s h hundirected
    refine ih _ ?_ ?_
    · unfold move
      cases hm : s.message_store i with
      | none => exact h
      | some message =>
        dsimp only
        cases hr : message.recipient with
        | direct users to_user_ids => exact h
        | stream stream_id topic =>
          have hdirect := hundirected i mem_cons_self message hm stream_id topic hr
          exact Tracked.congr (moved_tracked h hdirect) ⟨rfl, rfl, rfl⟩
    · intro id hid message hm stream_id topic hr
      obtain ⟨hdms, hstore⟩ := move_spec (c := c) event s i
      obtain ⟨before, hbefore, hsame, hstream⟩ := hstore id message hm
      obtain ⟨stream_id', topic', hr'⟩ := hstream stream_id topic hr
      rw [hdms, ← hsame]
      exact hundirected id (mem_cons_of_mem _ hid) before hbefore stream_id' topic' hr'

variable {event : UpdateMessageEvent}

/-- A change of the spelling alone keeps the folded topic. -/
theorem only_case_same {orig_topic : String}
    (honly : event.only_topic_case_changed c = true) (horig : event.orig_topic = some orig_topic) :
    c.toLowerCase (event.new_topic.getD orig_topic) = c.toLowerCase orig_topic := by
  unfold UpdateMessageEvent.only_topic_case_changed at honly
  rw [horig] at honly
  cases hnew : event.new_topic with
  | none => rfl
  | some new_topic =>
    rw [hnew] at honly
    rw [Bool.and_eq_true, decide_eq_true_eq] at honly
    exact honly.1

theorem update_messages_kept (h : Kept c s)
    (hundirected : Undirected s event.message_ids) : Kept c (update_messages c s event) := by
  unfold update_messages
  dsimp only
  split
  · exact h
  · cases hstream : event.stream_id with
    | none => exact h
    | some stream_id =>
      cases horig : event.orig_topic with
      | none => exact h
      | some orig_topic =>
        dsimp only
        split
        · rename_i honly
          rw [Bool.and_eq_true] at honly
          have hkept := respelled_kept h stream_id (only_case_same honly.1 horig)
          split
          · exact rebuilt_kept
              (hkept.congr (respell_same _ _ _).1 (respell_same _ _ _).2).tracked
          · exact hkept.congr (respell_same _ _ _).1 (respell_same _ _ _).2
        · split
          · exact rebuilt_kept (moves_tracked event event.message_ids s h.tracked hundirected)
          · exact h

/-! ### The state of the page -/

/-- The ids join their counters one after the other. -/
def place_all (c : Client) (s : State) (ps : List (ℕ × Place)) : State :=
  ps.foldl (fun s p => add_to_counter c s p.1 p.2) s

theorem place_all_append (ps qs : List (ℕ × Place)) :
    place_all c s (ps ++ qs) = place_all c (place_all c s ps) qs :=
  foldl_append

theorem place_all_ids (user_ids_string : String) (ids : List ℕ) :
    ∀ s : State, place_all c s (ids.map (fun i => (i, Place.direct user_ids_string))) =
      { s with unread_direct_message_counter :=
        s.unread_direct_message_counter.set_message_ids user_ids_string ids } := by
  induction ids with
  | nil => exact fun s => rfl
  | cons i ids ih => exact fun s => ih (add_to_counter c s i (.direct user_ids_string))

theorem place_all_topic (stream_id : ℕ) (topic : String) (ids : List ℕ) :
    ∀ s : State, place_all c s (ids.map (fun i => (i, Place.stream stream_id topic))) =
      { s with
        unread_topic_counter := ids.foldl
          (fun t message_id => t.add c message_id stream_id topic) s.unread_topic_counter } := by
  induction ids with
  | nil => exact fun s => rfl
  | cons i ids ih => exact fun s => ih (add_to_counter c s i (.stream stream_id topic))

theorem place_all_huddles (huddles : List Huddle) :
    ∀ s : State, place_all c s (huddles.flatMap (fun obj => obj.unread_message_ids.map
        (fun i => (i, Place.direct (pm_lookup_key c obj.user_ids_string))))) =
      { s with unread_direct_message_counter :=
        set_direct_message_groups c s.unread_direct_message_counter huddles } := by
  induction huddles with
  | nil => exact fun s => rfl
  | cons obj huddles ih =>
    intro s
    rw [flatMap_cons, place_all_append, place_all_ids, ih]
    rfl

theorem place_all_pms (pms : List Pm) :
    ∀ s : State, place_all c s (pms.flatMap (fun obj => obj.unread_message_ids.map
        (fun i => (i, Place.direct (toString obj.other_user_id))))) =
      { s with unread_direct_message_counter :=
        set_pms s.unread_direct_message_counter pms } := by
  induction pms with
  | nil => exact fun s => rfl
  | cons obj pms ih =>
    intro s
    rw [flatMap_cons, place_all_append, place_all_ids, ih]
    rfl

theorem place_all_streams (streams : List StreamUnreads) :
    ∀ s : State, place_all c s (streams.flatMap (fun obj => obj.unread_message_ids.map
        (fun i => (i, Place.stream obj.stream_id obj.topic)))) =
      { s with unread_topic_counter := set_streams c s.unread_topic_counter streams } := by
  induction streams with
  | nil => exact fun s => rfl
  | cons obj streams ih =>
    intro s
    rw [flatMap_cons, place_all_append, place_all_topic, ih]
    rfl

/-- The counters of the page are filled place by place. -/
theorem place_all_placements (unread_msgs : UnreadMsgs) :
    place_all c s (placements c unread_msgs) =
      { s with
        unread_direct_message_counter :=
          set_pms (set_direct_message_groups c s.unread_direct_message_counter
            unread_msgs.huddles) unread_msgs.pms
        unread_topic_counter := set_streams c s.unread_topic_counter unread_msgs.streams } := by
  unfold placements
  rw [place_all_append, place_all_append, place_all_huddles, place_all_pms, place_all_streams]

/-- Ids with one place each keep the counters, and the counters have those ids and no
other new one. -/
theorem place_all_indexed (ps : List (ℕ × Place)) :
    ∀ s : State, Indexed c s → (∀ p ∈ ps, p.2 ≠ .direct "") →
      (∀ p ∈ ps, ∀ q ∈ ps, p.1 = q.1 → p.2.bucket c = q.2.bucket c) →
      (∀ p ∈ ps, ∀ b, s.names c p.1 b → b = p.2.bucket c) →
        Indexed c (place_all c s ps) ∧ ∀ j, (∃ b, (place_all c s ps).names c j b) ↔
          (∃ b, s.names c j b) ∨ ∃ p ∈ ps, p.1 = j := by
  induction ps with
  | nil =>
    intro s h _ _ _
    exact ⟨h, fun j => by simp [place_all]⟩
  | cons p ps ih =>
    intro s h hstring hone hfree
    have hplaced : Placed c s p.1 p.2 :=
      ⟨hfree p mem_cons_self, hstring p mem_cons_self⟩
    have hnames := fun j => names_add_to_counter (j := j) hplaced
    obtain ⟨hindexed, hall⟩ := ih (add_to_counter c s p.1 p.2) (h.add_to_counter hplaced)
      (fun q hq => hstring q (mem_cons_of_mem _ hq))
      (fun q hq r hr => hone q (mem_cons_of_mem _ hq) r (mem_cons_of_mem _ hr))
      (by
        intro q hq b hb
        rcases (hnames q.1 b).mp hb with hb | ⟨hsame, rfl⟩
        · exact hfree q (mem_cons_of_mem _ hq) b hb
        · exact hone p mem_cons_self q (mem_cons_of_mem _ hq) hsame.symm)
    refine ⟨hindexed, ?_⟩
    intro j
    refine (hall j).trans ?_
    rw [exists_congr (hnames j), exists_or]
    constructor
    · rintro ((h | ⟨b, rfl, _⟩) | ⟨q, hq, hj⟩)
      · exact .inl h
      · exact .inr ⟨p, mem_cons_self, rfl⟩
      · exact .inr ⟨q, mem_cons_of_mem _ hq, hj⟩
    · rintro (h | ⟨q, hq, hj⟩)
      · exact .inl (.inl h)
      · rcases mem_cons.mp hq with rfl | hq
        · exact .inl (.inr ⟨_, hj.symm, rfl⟩)
        · exact .inr ⟨q, hq, hj⟩

variable {unread_msgs : UnreadMsgs}

/-- No place of the page is the empty string. -/
theorem placements_string {p : ℕ × Place}
    (hp : p ∈ placements c unread_msgs) : p.2 ≠ .direct "" := by
  unfold placements at hp
  rw [mem_append, mem_append, mem_flatMap, mem_flatMap, mem_flatMap] at hp
  rcases hp with ⟨obj, _, hp⟩ | ⟨obj, _, hp⟩ | ⟨obj, _, hp⟩
  · obtain ⟨i, _, rfl⟩ := mem_map.mp hp
    intro h
    exact pm_lookup_key_ne_empty c obj.user_ids_string (Place.direct.inj h)
  · obtain ⟨i, _, rfl⟩ := mem_map.mp hp
    intro h
    exact Nat.repr_ne_empty (Place.direct.inj h)
  · obtain ⟨i, _, rfl⟩ := mem_map.mp hp
    intro h
    cases h

/-- The ids of the page are those with a place and the mentions. -/
theorem mem_ids {j : ℕ} : j ∈ unread_msgs.ids ↔
    (∃ p ∈ placements c unread_msgs, p.1 = j) ∨ j ∈ unread_msgs.mentions := by
  unfold UnreadMsgs.ids placements
  simp only [mem_append, mem_flatMap, mem_map]
  constructor
  · rintro (((⟨obj, hobj, hj⟩ | ⟨obj, hobj, hj⟩) | ⟨obj, hobj, hj⟩) | hj)
    · exact .inl ⟨_, .inl ⟨obj, hobj, j, hj, rfl⟩, rfl⟩
    · exact .inl ⟨_, .inr (.inl ⟨obj, hobj, j, hj, rfl⟩), rfl⟩
    · exact .inl ⟨_, .inr (.inr ⟨obj, hobj, j, hj, rfl⟩), rfl⟩
    · exact .inr hj
  · rintro (⟨p, (⟨obj, hobj, i, hi, rfl⟩ | ⟨obj, hobj, i, hi, rfl⟩ | ⟨obj, hobj, i, hi, rfl⟩),
      rfl⟩ | hj)
    · exact .inl (.inl (.inl ⟨obj, hobj, hi⟩))
    · exact .inl (.inl (.inr ⟨obj, hobj, hi⟩))
    · exact .inl (.inr ⟨obj, hobj, hi⟩)
    · exact .inr hj

theorem mem_add_all (ids : List ℕ) : ∀ {l : List ℕ} {j : ℕ},
    j ∈ ids.foldl add l ↔ j ∈ l ∨ j ∈ ids := by
  induction ids with
  | nil => simp
  | cons i ids ih =>
    intro l j
    rw [foldl_cons, ih, mem_add, mem_cons, or_assoc]

/-- The mentions of the page change the sets of mentions alone. -/
theorem add_mentions_same (ids : List ℕ) : ∀ s : State,
    (ids.foldl add_mention s).unread_topic_counter = s.unread_topic_counter ∧
      (ids.foldl add_mention s).unread_direct_message_counter =
        s.unread_direct_message_counter ∧
      (ids.foldl add_mention s).unread_messages = s.unread_messages := by
  induction ids with
  | nil => exact fun s => ⟨rfl, rfl, rfl⟩
  | cons i ids ih => exact fun s => ih (add_mention s i)

/-- The rebuilt cache is right whatever the unread messages are. -/
theorem rebuilt_cached (i : ℕ) : CachedAt c (clear_and_populate_unread_mentions c s) i := by
  intro k
  rw [mem_cached_rebuilt, rebuilt_same.mentions, rebuilt_same.namedKey]

theorem initialize_kept (h : Kept c s)
    (hpromised : Promised c s (.initialize_unreads unread_msgs)) :
    Kept c (initialize_unreads c s unread_msgs) := by
  obtain ⟨hone, hfree, hmentions⟩ := hpromised
  obtain ⟨hindexed, hall⟩ := place_all_indexed (placements c unread_msgs) s
    h.tracked.toIndexed (fun p hp => placements_string hp) hone hfree
  unfold initialize_unreads
  rw [← place_all_placements]
  dsimp only
  have hadded := add_mentions_same unread_msgs.mentions
    (place_all c s (placements c unread_msgs))
  have hsame := rebuilt_same (c := c)
    (s := unread_msgs.mentions.foldl add_mention (place_all c s (placements c unread_msgs)))
  have hunread : (place_all c s (placements c unread_msgs)).unread_messages =
      s.unread_messages := by
    rw [place_all_placements]
  have htopics := hsame.topics.trans hadded.1
  have hdms := hsame.dms.trans hadded.2.1
  have hunreads := (hsame.unread.trans hadded.2.2).trans hunread
  refine ⟨⟨⟨?_, ?_, ?_⟩, ?_⟩, ?_, pruned_rebuilt⟩
  · rw [htopics]
    exact hindexed.topics
  · rw [hdms]
    exact hindexed.dms
  · rw [htopics, hdms]
    exact hindexed.apart
  · intro j
    rw [names_iff]
    rw [hunreads, htopics, hdms, mem_add_all, mem_ids (c := c), ← names_iff, hall j,
      ← h.tracked.union]
    constructor
    · rintro (hj | hj | hj)
      · exact .inl hj
      · exact .inr hj
      · exact hmentions j hj
    · rintro (hj | hj)
      · exact .inl hj
      · exact .inr (.inl hj)
  · intro i k
    have hcached := rebuilt_cached (c := c) (s := unread_msgs.mentions.foldl add_mention
      (place_all c s (placements c unread_msgs))) i k
    cases k <;> exact hcached

/-! ### Every run -/

theorem step_kept {op : Op} (h : Kept c s) (hpromised : Promised c s op)
    (hfetched : Fetched c s op) : Kept c (step c s op) := by
  cases op with
  | elsewhere message_store is_muted is_topic_muted is_topic_unmuted_or_followed =>
    exact h.congr ⟨rfl, rfl, rfl, fun k => by cases k <;> rfl, rfl⟩ rfl
  | initialize_unreads unread_msgs => exact initialize_kept h hpromised
  | process_unread_message message => exact process_unread_message_kept h hpromised hfetched
  | process_loaded_messages messages =>
    exact process_loaded_messages_kept messages s h hpromised hfetched
  | update_message_for_mention message content_edited =>
    exact update_kept h.tracked (h.fits message.id) h.pruned hfetched
  | mark_as_read i => exact mark_as_read_kept h i
  | update_messages event => exact update_messages_kept h hpromised

/-- The structures of a page that has just been opened agree. -/
theorem opened_kept : Kept c opened := by
  refine ⟨⟨⟨?_, ⟨?_, ?_⟩, ?_⟩, ?_⟩, ?_, pruned_empty⟩
  · intro k i
    simp [opened, UnreadTopicCounter.bucket, UnreadTopicCounter.named]
  · intro k i
    simp [opened, held]
  · intro i h
    cases h
  · exact fun i => .inl rfl
  · intro i
    rw [names_iff]
    simp [opened]
  · intro i k
    cases k <;> simp [opened, State.cached, held]

theorem run_kept (ops : List Op) : ∀ s : State, Kept c s → Meets c s ops → Kept c (run c s ops) := by
  induction ops with
  | nil =>
    intro s h _
    exact h
  | cons op ops ih =>
    intro s h hmeets
    obtain ⟨hpromised, hfetched, hrest⟩ := hmeets
    exact ih (step c s op) (step_kept h hpromised hfetched) hrest

/-- **In every run whose mentions are of fetched messages the structures agree.** -/
theorem runs_consistent (c : Client) (ops : List Op) (h : Meets c opened ops) :
    Consistent c (run c opened ops) :=
  (run_kept ops opened opened_kept h).consistent

/-- A user, and the folding of the letters of ASCII. -/
def client : Client := ⟨7, String.toLower⟩

/-- A mention of the user in a channel message. -/
def mention : UnreadMessageData :=
  { id := 1, mentioned := true, mentioned_me_directly := true, unread := true,
    place := .stream 5 "Lunch" }

/-- The message store with the message of the mention alone. -/
def fetched : ℕ → Option Message := fun i =>
  if i = 1 then some ⟨1, true, true, true, .stream 5 "Lunch"⟩ else none

/-- The message of a mention is fetched, marked as unread, and read. -/
theorem runs_consistent_fetched :
    Consistent client (run client opened
      [.elsewhere fetched (fun _ => false) (fun _ _ => false) (fun _ _ => false),
        .process_unread_message mention, .mark_as_read 1]) := by
  apply runs_consistent
  refine ⟨trivial, trivial, ⟨?_, by simp [mention]⟩, ?_, trivial, trivial, trivial⟩
  · intro b hb
    cases b <;> cases hb
  · intro _ _
    left
    decide +kernel

theorem Consistent.cachedAt (h : Consistent c s) (i : ℕ) : CachedAt c s i := by
  intro k
  rw [← mem_cached_rebuilt]
  cases k with
  | topic key => exact h.topics key i
  | direct key => exact h.dms key i

/-- A mention of a message that was not fetched, marked as unread: the rebuilt cache has it,
the cache has not. -/
theorem unfetched_mention_missing :
    Promised client opened (.process_unread_message mention) ∧
      ¬ Consistent client (run client opened [.process_unread_message mention]) := by
  refine ⟨⟨?_, by simp [mention]⟩, ?_⟩
  · intro b hb
    cases b <;> cases hb
  · intro h
    have hcached := h.cachedAt 1 (.topic "5:lunch")
    have hrebuilt : 1 ∈ (run client opened
        [.process_unread_message mention]).unread_mentions_counter ∧
        (run client opened [.process_unread_message mention]).namedKey client 1 =
          some (.topic "5:lunch") := by
      decide +kernel
    have hmissing : 1 ∉ (run client opened
        [.process_unread_message mention]).cached (.topic "5:lunch") := by
      decide
    exact hmissing (hcached.mpr hrebuilt)

/-! ### The condition is exact -/

end GrowTeam.UnreadIndexes
