import GrowTeam.UnreadIndexes.Operations

/-!
# The unread structures agree

A run of the operations keeps the structures in agreement as long as the message
store, whenever an unread message counts as a mention, has the message under the
place that the counters have for it.  The cache of mentions is filled through the
message store; a mention of a message that was not fetched is missing from it.
-/

namespace GrowTeam.UnreadIndexes

open Buckets Function Option UnreadTopicCounter

/-! ### Agreement -/

/-- A bucket of the topic counter or of the direct message counter. -/
inductive Bucket
  | topic (stream_id : ℕ) (folded : String)
  | direct (user_ids_string : String)

variable (c : Client)

/-- The ids in a bucket. -/
def State.bucket (s : State) : Bucket → List ℕ
  | .topic stream_id folded => s.unread_topic_counter.bucket (stream_id, folded)
  | .direct user_ids_string => held s.unread_direct_message_counter.bucketer user_ids_string

/-- A reverse lookup names the bucket for an id. -/
def State.names (s : State) (i : ℕ) : Bucket → Prop
  | .topic stream_id folded => s.unread_topic_counter.named c i = some (stream_id, folded)
  | .direct user_ids_string =>
    s.unread_direct_message_counter.reverse_lookup i = some user_ids_string

/-- The structures agree: every unread message is in one bucket, a bucket holds the ids
for which a reverse lookup names it, the unread messages are those with a reverse lookup,
and the cache of mentions is what a rebuild gives, ids and conversations. -/
structure Consistent (s : State) : Prop where
  one_bucket : ∀ i ∈ s.unread_messages, ∃! b, i ∈ s.bucket b
  named : ∀ b i, i ∈ s.bucket b ↔ s.names c i b
  union : ∀ i, i ∈ s.unread_messages ↔
    (s.unread_topic_counter.reverse_lookup i).isSome ∨
      (s.unread_direct_message_counter.reverse_lookup i).isSome
  topics : ∀ key i, i ∈ held s.unread_mention_topics key ↔
    i ∈ held (clear_and_populate_unread_mentions c s).unread_mention_topics key
  dms : ∀ key i, i ∈ held s.unread_mention_dms key ↔
    i ∈ held (clear_and_populate_unread_mentions c s).unread_mention_dms key
  conversations : ∀ key, (s.unread_mention_dms key).isSome ↔
    ((clear_and_populate_unread_mentions c s).unread_mention_dms key).isSome

/-- The counters agree with their reverse lookups and share no id. -/
structure Indexed (s : State) : Prop where
  topics : s.unread_topic_counter.Exact c
  dms : s.unread_direct_message_counter.Exact
  apart : ∀ i, s.unread_topic_counter.reverse_lookup i = none ∨
    s.unread_direct_message_counter.reverse_lookup i = none

/-- The counters agree, and the unread messages are the ids in their buckets. -/
structure Tracked (s : State) : Prop extends Indexed c s where
  union : ∀ i, i ∈ s.unread_messages ↔ ∃ b, s.names c i b

/-- The cache has an id under the key of its place when it is a mention, and nowhere
otherwise. -/
def CachedAt (s : State) (i : ℕ) : Prop :=
  ∀ k, i ∈ s.cached k ↔ i ∈ s.unread_mentions_counter ∧ s.namedKey c i = some k

/-- What the operations keep. -/
structure Kept (s : State) : Prop where
  tracked : Tracked c s
  cached : ∀ i, CachedAt c s i
  pruned : Pruned s.unread_mention_dms

variable {c} {s : State}
variable {i : ℕ} {place : Place}

theorem names_iff : (∃ b, s.names c i b) ↔ (s.unread_topic_counter.reverse_lookup i).isSome ∨
      (s.unread_direct_message_counter.reverse_lookup i).isSome := by
  constructor
  · rintro ⟨b, hb⟩
    cases b with
    | topic stream_id folded =>
      have hsome : s.unread_topic_counter.named c i = some (stream_id, folded) := hb
      obtain ⟨place, hplace, _⟩ := map_eq_some_iff.mp hsome
      exact .inl (by rw [hplace]; rfl)
    | direct user_ids_string =>
      have hsome : s.unread_direct_message_counter.reverse_lookup i = some user_ids_string := hb
      exact .inr (by rw [hsome]; rfl)
  · rintro (ht | hd)
    · obtain ⟨place, hplace⟩ := isSome_iff_exists.mp ht
      refine ⟨.topic place.stream_id (c.toLowerCase place.topic), ?_⟩
      show (s.unread_topic_counter.reverse_lookup i).map _ = _
      rw [hplace]
      rfl
    · obtain ⟨user_ids_string, hstring⟩ := isSome_iff_exists.mp hd
      exact ⟨.direct user_ids_string, hstring⟩

/-- No two buckets are named for one id. -/
theorem Indexed.names_unique (h : Indexed c s) {b b' : Bucket} (hb : s.names c i b)
    (hb' : s.names c i b') : b' = b := by
  have htopic : ∀ k u, s.unread_topic_counter.named c i = some k →
      s.unread_direct_message_counter.reverse_lookup i ≠ some u := by
    intro k u hk hu
    rcases h.apart i with hnone | hnone
    · unfold UnreadTopicCounter.named at hk
      rw [hnone] at hk
      cases hk
    · rw [hnone] at hu
      cases hu
  cases b with
  | topic stream_id folded =>
    cases b' with
    | topic stream_id' folded' =>
      have hsame := some.inj (hb.symm.trans hb')
      rw [Prod.mk.injEq] at hsame
      rw [hsame.1, hsame.2]
    | direct u => exact absurd hb' (htopic _ u hb)
  | direct u =>
    cases b' with
    | topic stream_id' folded' => exact absurd hb (htopic _ u hb')
    | direct u' => rw [some.inj (hb.symm.trans hb')]

/-- A bucket holds the ids for which it is named. -/
theorem Indexed.mem_bucket (h : Indexed c s) (b : Bucket) (i : ℕ) :
    i ∈ s.bucket b ↔ s.names c i b := by
  cases b with
  | topic stream_id folded => exact h.topics (stream_id, folded) i
  | direct user_ids_string => exact h.dms.agrees user_ids_string i

theorem Kept.consistent (h : Kept c s) : Consistent c s := by
  have hnamed : ∀ b i, i ∈ s.bucket b ↔ s.names c i b := h.tracked.mem_bucket
  have hrebuilt : ∀ k i, i ∈ s.cached k ↔
      i ∈ (clear_and_populate_unread_mentions c s).cached k := by
    intro k i
    rw [mem_cached_rebuilt]
    exact h.cached i k
  refine ⟨?_, hnamed, fun i => (h.tracked.union i).trans names_iff, ?_, ?_, ?_⟩
  · intro i hi
    obtain ⟨b, hb⟩ := (h.tracked.union i).mp hi
    refine ⟨b, (hnamed b i).mpr hb, ?_⟩
    intro b' hb'
    exact h.tracked.names_unique hb ((hnamed b' i).mp hb')
  · exact fun key i => hrebuilt (.topic key) i
  · exact fun key i => hrebuilt (.direct key) i
  · intro key
    rw [h.pruned.isSome_iff, pruned_rebuilt.isSome_iff]
    exact exists_congr (fun i => hrebuilt (.direct key) i)

/-! ### The keys -/

/-- The key of a bucket. -/
def Bucket.key : Bucket → Key
  | .topic stream_id folded => .topic (toString stream_id ++ ":" ++ folded)
  | .direct user_ids_string => .direct user_ids_string

/-- The bucket of a place. -/
def Place.bucket (c : Client) : Place → Bucket
  | .stream stream_id topic => .topic stream_id (c.toLowerCase topic)
  | .direct user_ids_string => .direct user_ids_string

/-- The key that the counters name is that of the bucket they name. -/
theorem Indexed.namedKey (h : Indexed c s) {b : Bucket} (hb : s.names c i b) :
    s.namedKey c i = some b.key := by
  unfold State.namedKey
  cases b with
  | topic stream_id folded =>
    have hsome : s.unread_topic_counter.named c i = some (stream_id, folded) := hb
    obtain ⟨place, hplace, hfold⟩ := map_eq_some_iff.mp hsome
    rw [hplace]
    cases hfold
    rfl
  | direct user_ids_string =>
    have hsome : s.unread_direct_message_counter.reverse_lookup i = some user_ids_string := hb
    have htopic : s.unread_topic_counter.reverse_lookup i = none := by
      rcases h.apart i with hnone | hnone
      · exact hnone
      · rw [hnone] at hsome
        cases hsome
    have hstring : user_ids_string ≠ "" := by
      intro hempty
      rw [hempty] at hsome
      exact h.dms.named i hsome
    rw [htopic, hsome]
    dsimp only
    rw [if_neg hstring]
    rfl

/-- An id that no reverse lookup names has no key. -/
theorem namedKey_none (h : ¬ ∃ b, s.names c i b) : s.namedKey c i = none := by
  rw [names_iff, not_or, not_isSome_iff_eq_none, not_isSome_iff_eq_none] at h
  unfold State.namedKey
  rw [h.1, h.2]

/-- Two states that name the same buckets have the same keys. -/
theorem namedKey_congr {s' : State} (h : Indexed c s) (h' : Indexed c s')
    (hnames : ∀ b, s'.names c i b ↔ s.names c i b) : s'.namedKey c i = s.namedKey c i := by
  by_cases hsome : ∃ b, s.names c i b
  · obtain ⟨b, hb⟩ := hsome
    rw [h.namedKey hb, h'.namedKey ((hnames b).mpr hb)]
  · rw [namedKey_none hsome, namedKey_none (by rwa [exists_congr hnames])]

/-! ### The counters -/

/-- An id can be put at a place: it is in no other bucket, and the string of a
conversation is not empty. -/
def Placed (c : Client) (s : State) (i : ℕ) (place : Place) : Prop :=
  (∀ b, s.names c i b → b = place.bucket c) ∧ place ≠ .direct ""

theorem names_add_to_counter {i j : ℕ} (hplaced : Placed c s i place) (b : Bucket) :
    (add_to_counter c s i place).names c j b ↔
      s.names c j b ∨ (j = i ∧ b = place.bucket c) := by
  cases place with
  | stream stream_id topic =>
    cases b with
    | direct u =>
      show s.unread_direct_message_counter.reverse_lookup j = some u ↔ _
      simp [State.names, Place.bucket]
    | topic stream_id' folded =>
      show (s.unread_topic_counter.add c i stream_id topic).named c j = some (stream_id', folded) ↔
        s.unread_topic_counter.named c j = some (stream_id', folded) ∨ _
      rw [named_add]
      by_cases hj : j = i
      · subst hj
        rw [update_self]
        constructor
        · intro h
          cases h
          exact .inr ⟨rfl, rfl⟩
        · rintro (h | ⟨-, h⟩)
          · have hb := hplaced.1 (.topic stream_id' folded) h
            cases hb
            rfl
          · cases h
            rfl
      · simp [hj]
  | direct user_ids_string =>
    have hstring : user_ids_string ≠ "" := by
      intro hempty
      exact hplaced.2 (by rw [hempty])
    cases b with
    | topic stream_id folded =>
      show s.unread_topic_counter.named c j = some (stream_id, folded) ↔ _
      simp [State.names, Place.bucket]
    | direct u =>
      show (s.unread_direct_message_counter.add i user_ids_string).reverse_lookup j = some u ↔
        s.unread_direct_message_counter.reverse_lookup j = some u ∨ _
      unfold UnreadDirectMessageCounter.add
      rw [if_neg hstring]
      dsimp only
      by_cases hj : j = i
      · subst hj
        rw [update_self, some.injEq]
        constructor
        · intro h
          subst h
          exact .inr ⟨rfl, rfl⟩
        · rintro (h | ⟨-, h⟩)
          · have hb := hplaced.1 (.direct u) h
            cases hb
            rfl
          · cases h
            rfl
      · simp [hj]

/-- Putting an id at a place that is free for it keeps the counters. -/
theorem Indexed.add_to_counter (h : Indexed c s)
    (hplaced : Placed c s i place) : Indexed c (add_to_counter c s i place) := by
  cases place with
  | stream stream_id topic =>
    refine ⟨?_, h.dms, ?_⟩
    · refine h.topics.add ?_
      rintro ⟨stream_id', folded⟩ hk
      have hb := hplaced.1 (.topic stream_id' folded) hk
      cases hb
      rfl
    · intro j
      by_cases hj : j = i
      · subst hj
        refine .inr ?_
        cases hd : s.unread_direct_message_counter.reverse_lookup j with
        | none => exact hd
        | some u =>
          have hb := hplaced.1 (.direct u) hd
          cases hb
      · rcases h.apart j with ht | hd
        · exact .inl ((update_of_ne hj _ _).trans ht)
        · exact .inr hd
  | direct user_ids_string =>
    refine ⟨h.topics, ?_, ?_⟩
    · refine h.dms.add ?_
      intro u hu
      have hb := hplaced.1 (.direct u) hu
      cases hb
      rfl
    · intro j
      by_cases hj : j = i
      · subst hj
        refine .inl ?_
        cases ht : s.unread_topic_counter.reverse_lookup j with
        | none => exact ht
        | some place =>
          have hb := hplaced.1 (.topic place.stream_id (c.toLowerCase place.topic))
            (by show (s.unread_topic_counter.reverse_lookup j).map _ = _; rw [ht]; rfl)
          cases hb
      · rcases h.apart j with ht | hd
        · exact .inl ht
        · refine .inr ?_
          show (s.unread_direct_message_counter.add i user_ids_string).reverse_lookup j = none
          unfold UnreadDirectMessageCounter.add
          split
          · exact hd
          · exact (update_of_ne hj _ _).trans hd

/-- The counters without an id. -/
def drop (c : Client) (s : State) (i : ℕ) : State :=
  { s with
    unread_direct_message_counter := s.unread_direct_message_counter.delete i
    unread_topic_counter := s.unread_topic_counter.delete c i }

theorem names_drop (i j : ℕ) (b : Bucket) :
    (drop c s i).names c j b ↔ s.names c j b ∧ j ≠ i := by
  cases b with
  | topic stream_id folded =>
    show (s.unread_topic_counter.delete c i).named c j = some (stream_id, folded) ↔
      s.unread_topic_counter.named c j = some (stream_id, folded) ∧ _
    rw [named_delete]
    by_cases hj : j = i
    · subst hj
      simp
    · simp [hj]
  | direct u =>
    show (s.unread_direct_message_counter.delete i).reverse_lookup j = some u ↔
      s.unread_direct_message_counter.reverse_lookup j = some u ∧ _
    rw [UnreadDirectMessageCounter.delete_reverse]
    by_cases hj : j = i
    · subst hj
      simp
    · simp [hj]

theorem Indexed.drop (h : Indexed c s) (i : ℕ) : Indexed c (drop c s i) := by
  refine ⟨h.topics.delete i, h.dms.delete i, ?_⟩
  intro j
  show (s.unread_topic_counter.delete c i).reverse_lookup j = none ∨
    (s.unread_direct_message_counter.delete i).reverse_lookup j = none
  rw [delete_reverse, UnreadDirectMessageCounter.delete_reverse]
  by_cases hj : j = i
  · subst hj
    exact .inl (update_self _ _ _)
  · rw [update_of_ne hj, update_of_ne hj]
    exact h.apart j

/-! ### Mentions -/

/-- The message store has an id under a key, or it does not have the id, which is in the
cache under the key already. -/
def Findable (c : Client) (s : State) (i : ℕ) (k : Option Key) : Prop :=
  s.storedKey c i = k ∨ (s.storedKey c i = none ∧ ∀ key, k = some key → i ∈ s.cached key)

/-- The cache is right but perhaps for one id, which it has under no wrong key. -/
def Fits (c : Client) (s : State) (i : ℕ) : Prop :=
  (∀ j, j ≠ i → CachedAt c s j) ∧ ∀ k, i ∈ s.cached k → s.namedKey c i = some k

theorem forget_mention_cached (h : Fits c s i) (j : ℕ) : CachedAt c (forget_mention c s i) j := by
  have hsame := remove_same (c := c)
    (s := { s with
      unread_mentions_counter := delete s.unread_mentions_counter i
      direct_message_with_mention_count := delete s.direct_message_with_mention_count i }) i
  intro k
  unfold forget_mention
  rw [mem_cached_remove, hsame.mentions, hsame.namedKey]
  show (j ∈ s.cached k ∧ ¬ (s.namedKey c i = some k ∧ j = i)) ↔
    j ∈ delete s.unread_mentions_counter i ∧ s.namedKey c j = some k
  rw [mem_delete]
  by_cases hj : j = i
  · subst hj
    constructor
    · rintro ⟨hk, hnot⟩
      exact absurd ⟨h.2 k hk, rfl⟩ hnot
    · rintro ⟨⟨_, hne⟩, _⟩
      exact absurd rfl hne
  · simp [hj, h.1 j hj k]

/-- What counting a mention does to the cache and to the set of mentions. -/
theorem count_mention_spec (message : UnreadMessageData) :
    (∀ j k, j ∈ (count_mention c s message).cached k ↔
      j ∈ s.cached k ∨ (s.storedKey c message.id = some k ∧ j = message.id)) ∧
    (count_mention c s message).unread_mentions_counter =
      add s.unread_mentions_counter message.id ∧
    (count_mention c s message).namedKey c = s.namedKey c := by
  have hsame := add_same (c := c)
    (s := { s with unread_mentions_counter := add s.unread_mentions_counter message.id })
    message.id
  have hkey := hsame.namedKey (c := c)
  have hadd : ∀ j k, j ∈ (add_message_to_unread_mentions c
      { s with unread_mentions_counter := add s.unread_mentions_counter message.id }
      message.id).cached k ↔
        j ∈ s.cached k ∨ (s.storedKey c message.id = some k ∧ j = message.id) :=
    fun _ _ => mem_cached_add
  unfold count_mention
  cases message.place with
  | direct u =>
    refine ⟨?_, hsame.mentions, hkey⟩
    intro j k
    cases k with
    | topic key => exact hadd j (.topic key)
    | direct key => exact hadd j (.direct key)
  | stream stream_id topic => exact ⟨hadd, hsame.mentions, hkey⟩

theorem count_mention_cached {message : UnreadMessageData} (h : Fits c s message.id)
    (hfind : Findable c s message.id (s.namedKey c message.id)) (j : ℕ) :
    CachedAt c (count_mention c s message) j := by
  obtain ⟨hcached, hmentions, hkey⟩ := count_mention_spec (c := c) (s := s) message
  intro k
  rw [hcached, hmentions, hkey, mem_add]
  by_cases hj : j = message.id
  · subst hj
    constructor
    · rintro (hk | ⟨hk, _⟩)
      · exact ⟨.inr rfl, h.2 k hk⟩
      · rcases hfind with hfind | ⟨hnone, _⟩
        · exact ⟨.inr rfl, hfind ▸ hk⟩
        · rw [hnone] at hk
          cases hk
    · rintro ⟨_, hk⟩
      rcases hfind with hfind | ⟨_, hin⟩
      · exact .inr ⟨hfind ▸ hk, rfl⟩
      · exact .inl (hin k hk)
  · simp [hj, h.1 j hj k]

theorem forget_mention_same (i : ℕ) :
    SameAround s (forget_mention c s i) ∧
      (forget_mention c s i).unread_messages = s.unread_messages ∧
      (forget_mention c s i).unread_topic_counter = s.unread_topic_counter ∧
      (forget_mention c s i).unread_direct_message_counter = s.unread_direct_message_counter := by
  have hsame := remove_same (c := c)
    (s := { s with
      unread_mentions_counter := delete s.unread_mentions_counter i
      direct_message_with_mention_count := delete s.direct_message_with_mention_count i }) i
  exact ⟨{ hsame with }, hsame.unread,
    hsame.topics, hsame.dms⟩

theorem count_mention_same (message : UnreadMessageData) :
    SameAround s (count_mention c s message) ∧
      (count_mention c s message).unread_messages = s.unread_messages ∧
      (count_mention c s message).unread_topic_counter = s.unread_topic_counter ∧
      (count_mention c s message).unread_direct_message_counter =
        s.unread_direct_message_counter := by
  have hsame := add_same (c := c)
    (s := { s with unread_mentions_counter := add s.unread_mentions_counter message.id })
    message.id
  unfold count_mention
  cases message.place <;>
    exact ⟨{ hsame with }, hsame.unread,
      hsame.topics, hsame.dms⟩

theorem forget_mention_pruned (h : Pruned s.unread_mention_dms) (i : ℕ) :
    Pruned (forget_mention c s i).unread_mention_dms := by
  apply pruned_remove
  exact h

theorem count_mention_pruned (h : Pruned s.unread_mention_dms) (message : UnreadMessageData) :
    Pruned (count_mention c s message).unread_mention_dms := by
  have hadd : Pruned (add_message_to_unread_mentions c
      { s with unread_mentions_counter := add s.unread_mentions_counter message.id }
      message.id).unread_mention_dms := by
    apply pruned_add
    exact h
  unfold count_mention
  cases message.place <;> exact hadd

/-- Agreement of the counters is about the counters and the unread messages alone. -/
theorem Tracked.congr {s' : State} (h : Tracked c s)
    (hsame : s'.unread_messages = s.unread_messages ∧
      s'.unread_topic_counter = s.unread_topic_counter ∧
      s'.unread_direct_message_counter = s.unread_direct_message_counter) : Tracked c s' := by
  obtain ⟨hunread, htopics, hdms⟩ := hsame
  have hnames : ∀ i b, s'.names c i b ↔ s.names c i b := by
    intro i b
    cases b with
    | topic stream_id folded => unfold State.names; rw [htopics]
    | direct u => unfold State.names; rw [hdms]
  refine ⟨⟨?_, ?_, ?_⟩, ?_⟩
  · rw [htopics]
    exact h.topics
  · rw [hdms]
    exact h.dms
  · rw [htopics, hdms]
    exact h.apart
  · intro i
    rw [hunread, h.union]
    exact (exists_congr (hnames i)).symm

/-- The step of one message: the cache is right again when the store has the message in
case it counts as a mention. -/
theorem update_kept {message : UnreadMessageData} {content_edited : Bool}
    (htracked : Tracked c s) (hfits : Fits c s message.id) (hpruned : Pruned s.unread_mention_dms)
    (hfind : message.unread = true → is_counted s message = true →
      Findable c s message.id (s.namedKey c message.id)) :
    Kept c (update_message_for_mention c s message content_edited).1 := by
  have hforget : Kept c (forget_mention c s message.id) :=
    ⟨htracked.congr (forget_mention_same message.id).2, forget_mention_cached hfits,
      forget_mention_pruned hpruned message.id⟩
  unfold update_message_for_mention
  cases hunread : message.unread with
  | false => exact hforget
  | true =>
    cases hcounted : is_counted s message with
    | false =>
      cases message.place <;> exact hforget
    | true =>
      have hcount : Kept c (count_mention c s message) :=
        ⟨htracked.congr (count_mention_same message).2,
          count_mention_cached hfits (hfind hunread hcounted), count_mention_pruned hpruned message⟩
      cases message.place <;> exact hcount

/-- In a state that is kept, the cache fits any id. -/
theorem Kept.fits (h : Kept c s) (i : ℕ) : Fits c s i :=
  ⟨fun j _ => h.cached j, fun k hk => ((h.cached i k).mp hk).2⟩

/-- An unread message that joins its counter leaves the cache right but for itself. -/
theorem joined (h : Kept c s) (hplaced : Placed c s i place) :
    let s' := add_to_counter c { s with unread_messages := add s.unread_messages i } i place
    Tracked c s' ∧ Fits c s' i ∧ s'.namedKey c i = some (place.bucket c).key ∧
      Pruned s'.unread_mention_dms := by
  have hindexed : Indexed c { s with unread_messages := add s.unread_messages i } :=
    ⟨h.tracked.topics, h.tracked.dms, h.tracked.apart⟩
  have hplaced' : Placed c { s with unread_messages := add s.unread_messages i } i place :=
    hplaced
  have hnames : ∀ j b, (add_to_counter c
      { s with unread_messages := add s.unread_messages i } i place).names c j b ↔
        s.names c j b ∨ (j = i ∧ b = place.bucket c) :=
    fun j b => names_add_to_counter hplaced' b
  have hindexed' := hindexed.add_to_counter hplaced'
  intro s'
  have hunread : s'.unread_messages = add s.unread_messages i := by
    cases place <;> rfl
  have hcached : ∀ k, s'.cached k = s.cached k := by
    intro k
    cases place <;> cases k <;> rfl
  have hmentions : s'.unread_mentions_counter = s.unread_mentions_counter := by
    cases place <;> rfl
  have hkey : s'.namedKey c i = some (place.bucket c).key :=
    hindexed'.namedKey ((hnames i _).mpr (.inr ⟨rfl, rfl⟩))
  refine ⟨⟨hindexed', ?_⟩, ⟨?_, ?_⟩, hkey, ?_⟩
  · intro j
    rw [hunread, mem_add, h.tracked.union]
    constructor
    · rintro (⟨b, hb⟩ | rfl)
      · exact ⟨b, (hnames j b).mpr (.inl hb)⟩
      · exact ⟨place.bucket c, (hnames j _).mpr (.inr ⟨rfl, rfl⟩)⟩
    · rintro ⟨b, hb⟩
      rcases (hnames j b).mp hb with hb | ⟨hj, _⟩
      · exact .inl ⟨b, hb⟩
      · exact .inr hj
  · intro j hj k
    have hsame : s'.namedKey c j = s.namedKey c j := by
      refine namedKey_congr h.tracked.toIndexed hindexed' ?_
      intro b
      rw [hnames]
      simp [hj]
    rw [hcached, hmentions, hsame]
    exact h.cached j k
  · intro k hk
    rw [hcached] at hk
    have hnamed := ((h.cached i k).mp hk).2
    by_cases hsome : ∃ b, s.names c i b
    · obtain ⟨b, hb⟩ := hsome
      rw [h.tracked.namedKey hb, hplaced.1 b hb] at hnamed
      rw [hkey, hnamed]
    · rw [namedKey_none hsome] at hnamed
      cases hnamed
  · cases place <;> exact h.pruned

end GrowTeam.UnreadIndexes
