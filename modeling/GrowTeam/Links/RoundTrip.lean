import GrowTeam.Links.Hidden

/-!
# Links that the server reads back

A link is read as the terms it was built from, with three exceptions: a topic whose ends are
white space loses them, a channel link of the web app whose name grew too much has no `-` after
the id, and a link of the server to one or two users has none either.
-/

namespace GrowTeam.Links

open PercentCoding List

/-- What a link says of a message. -/
inductive Suffix
  | none
  | near (message_id : ℕ)
  | with (message_id : ℕ)

/-- What is written after a hash. -/
def Suffix.text : Suffix → Text
  | .none => []
  | .near message_id => "/near/".toList ++ str message_id
  | .with message_id => "/with/".toList ++ str message_id

def Suffix.terms : Suffix → List NarrowTerm
  | .none => []
  | .near message_id => [⟨"near".toList, .id message_id, false⟩]
  | .with message_id => [⟨"with".toList, .text (str message_id), false⟩]

/-- The links of both sides. -/
inductive Link
  | streamMessageUrl (realm : Option Realm) (message : ChannelMessage)
      (conversation_link include_base_url : Bool)
  | pmMessageUrl (realm : Realm) (message_id : ℕ) (conversation : Conversation)
      (conversation_link : Bool)
  | topicNarrowUrl (realm : Realm) (stream_id : ℕ) (stream_name topic_name : Text)
  | byStreamTopicUrl (stream_id : ℕ) (topic : Text) (maybe_get_stream_name : ℕ → Option Text)
      (suffix : Suffix)
  | pmPermaLink (conversation : Conversation) (suffix : Suffix)

/-- The hash of a topic: the function takes a message for `with`, and its callers add a
`near`. -/
def channelHash (stream_id : ℕ) (topic : Text) (maybe_get_stream_name : ℕ → Option Text) :
    Suffix → Text
  | .with message_id => Web.byStreamTopicUrl stream_id topic maybe_get_stream_name (some message_id)
  | suffix => Web.byStreamTopicUrl stream_id topic maybe_get_stream_name none ++ suffix.text

/-- The text of a link; `none` if there is no link. -/
def Link.url : Link → Option Text
  | .streamMessageUrl realm message conversation_link include_base_url =>
    (Links.streamMessageUrl realm message conversation_link include_base_url).toOption
  | .pmMessageUrl realm message_id conversation conversation_link =>
    (Links.pmMessageUrl realm message_id conversation.ids conversation_link).toOption
  | .topicNarrowUrl realm stream_id stream_name topic_name =>
    some (Links.topicNarrowUrl realm stream_id stream_name topic_name)
  | .byStreamTopicUrl stream_id topic maybe_get_stream_name suffix =>
    some (channelHash stream_id topic maybe_get_stream_name suffix)
  | .pmPermaLink conversation suffix =>
    (Web.pmPermaLink conversation.ids).map fun hash => hash ++ suffix.text

/-- What a link is about. -/
inductive Target
  | topic (stream_id : ℕ) (topic_name : Text)
  | people (conversation : Conversation)

def messageSuffix (message_id : ℕ) (conversation_link : Bool) : Suffix :=
  if conversation_link then .with message_id else .near message_id

def Link.target : Link → Target × Suffix
  | .streamMessageUrl _ message conversation_link _ =>
    (.topic message.stream_id (getTopicFromMessageInfo message),
      messageSuffix message.id conversation_link)
  | .pmMessageUrl _ message_id conversation conversation_link =>
    (.people conversation, messageSuffix message_id conversation_link)
  | .topicNarrowUrl _ stream_id _ topic_name => (.topic stream_id topic_name, .none)
  | .byStreamTopicUrl stream_id topic _ suffix => (.topic stream_id topic, suffix)
  | .pmPermaLink conversation suffix => (.people conversation, suffix)

/-- The terms name exactly the channel and topic, or exactly the users, and the message. -/
def Target.NamedBy (target : Target) (suffix : Suffix) (terms : List NarrowTerm) : Prop :=
  match target with
  | .topic stream_id topic_name =>
    terms = ⟨"channel".toList, .id stream_id, false⟩ ::
      ⟨"topic".toList, .text topic_name, false⟩ :: suffix.terms
  | .people conversation =>
    ∃ users : Operand, terms = ⟨"dm".toList, users, false⟩ :: suffix.terms ∧
      users.users.Perm (conversation.ids.map Int.ofNat)

/-- The server reads a link as what it is about. -/
def Understood (U : CharacterData) (link : Link) (url : Text) : Prop :=
  ∃ terms, parseNarrowUrl U url = .ok (some terms) ∧
    link.target.1.NamedBy link.target.2 terms

/-! ## When a link is read back -/

/-- The code units that encoding adds to a character; a blank becomes a `-` first. -/
def grown (c : Char) : ℕ :=
  if plain c ∨ c = ' ' then 0 else 3 * c.utf8Size - Web.units c

def growth : Text → ℕ
  | [] => 0
  | c :: name => grown c + growth name

/-- The web app writes the name of a channel after its id: encoding adds at most ten code units
and at most half of them. -/
def Named (stream_id : ℕ) (name : Text) : Prop :=
  growth name ≤ 10 ∧ 2 * growth name ≤ (str stream_id).length + 1 + Web.length name

def Link.Readable : Link → Prop
  | .streamMessageUrl _ message _ _ =>
    strip (getTopicFromMessageInfo message) = getTopicFromMessageInfo message
  | .pmMessageUrl _ _ conversation _ => 3 ≤ conversation.ids.length
  | .topicNarrowUrl _ _ _ topic_name => strip topic_name = topic_name
  | .byStreamTopicUrl stream_id topic maybe_get_stream_name _ =>
    strip topic = topic ∧
      Named stream_id ((maybe_get_stream_name stream_id).getD "unknown".toList)
  | .pmPermaLink _ _ => True

/-! ## The parts of a link -/

def Suffix.parts : Suffix → List Text
  | .none => []
  | .near message_id => ["near".toList, str message_id]
  | .with message_id => ["with".toList, str message_id]

variable (slug topic : Text) (suffix : Suffix)

def channelParts : List Text :=
  ["narrow".toList, "channel".toList, slug, "topic".toList, hidden topic] ++ suffix.parts

def peopleParts (slug : Text) (suffix : Suffix) : List Text :=
  ["narrow".toList, "dm".toList, slug] ++ suffix.parts

theorem channelParts_text :
    "#narrow/channel/".toList ++ slug ++ "/topic/".toList ++ hidden topic ++ suffix.text =
      '#' :: ['/'].intercalate (channelParts slug topic suffix) := by
  cases suffix <;>
    simp [channelParts, Suffix.parts, Suffix.text, intercalate_cons_cons]

theorem peopleParts_text (slug : Text) (suffix : Suffix) :
    "#narrow/dm/".toList ++ slug ++ suffix.text =
      '#' :: ['/'].intercalate (peopleParts slug suffix) := by
  cases suffix <;>
    simp [peopleParts, Suffix.parts, Suffix.text, intercalate_cons_cons]

theorem channelParts_ne : channelParts slug topic suffix ≠ [] := cons_ne_nil _ _

theorem peopleParts_ne (slug : Text) (suffix : Suffix) : peopleParts slug suffix ≠ [] :=
  cons_ne_nil _ _

theorem inPart_of_word {c : Char} (h : word c = true) : inPart c = true := by
  rw [inPart, h, Bool.true_or]

theorem str_inPart (n : ℕ) : ∀ c ∈ str n, inPart c = true :=
  fun _ hc => inPart_of_word (word_of_plain (plain_of_isDigit (isDigit_of_mem_str hc)))

/-- The words of the links. -/
def linkWords : List Text := "narrow".toList :: "group".toList :: linkOperators

theorem words_inPart : ∀ p ∈ linkWords, ∀ c ∈ p, inPart c = true := by
  have hall : ∀ p ∈ linkWords, p.all inPart = true := by decide
  intro p hp
  exact all_eq_true.mp (hall p hp)

theorem suffix_inPart : ∀ p ∈ suffix.parts, ∀ c ∈ p, inPart c = true := by
  intro p hp
  cases suffix with
  | none => cases hp
  | near message_id | «with» message_id =>
    rcases mem_cons.mp hp with rfl | hp
    · exact words_inPart _ (by decide)
    · rw [mem_singleton.mp hp]
      exact str_inPart message_id

section Parts

variable (U : CharacterData) {slug topic : Text} (suffix : Suffix)

theorem parseTerms_suffix : parseTerms U suffix.parts = .ok (some suffix.terms) := by
  cases suffix with
  | none => rfl
  | near message_id =>
    rw [Suffix.parts, parseTerms, parseTerm_near]
    rfl
  | «with» message_id =>
    rw [Suffix.parts, parseTerms, parseTerm_with]
    rfl

/-- A channel link is read by the id that its slug begins with. -/
theorem parseTerms_channel :
    parseTerms U ((channelParts slug topic suffix).drop 1) =
      match parseRecipientSlug U slug with
      | none => .ok none
      | some r =>
        if r.1 = .text [] then .ok none
        else .ok (some (⟨"channel".toList, r.1, false⟩ ::
          ⟨"topic".toList, .text (strip topic), false⟩ :: suffix.terms)) := by
  show parseTerms U ("channel".toList :: slug :: "topic".toList :: hidden topic :: suffix.parts) = _
  rw [parseTerms, parseTerm_recipient U slug (by decide)]
  cases parseRecipientSlug U slug with
  | none => rfl
  | some r =>
    dsimp only [Option.bind_some]
    by_cases hr : r.1 = .text []
    · rw [if_pos hr, if_pos hr]
    · rw [if_neg hr, if_neg hr]
      rw [parseTerms, parseTerm_topic, decodeHashComponent_hidden]
      rw [parseTerms_suffix]
      rfl

/-- A direct message link is read by the ids that its slug begins with. -/
theorem parseTerms_people :
    parseTerms U ((peopleParts slug suffix).drop 1) =
      match parseRecipientSlug U slug with
      | none => .ok none
      | some r =>
        if r.1 = .text [] then .ok none
        else .ok (some (⟨"dm".toList, r.1, false⟩ :: suffix.terms)) := by
  show parseTerms U ("dm".toList :: slug :: suffix.parts) = _
  rw [parseTerms, parseTerm_recipient U slug (by decide)]
  cases parseRecipientSlug U slug with
  | none => rfl
  | some r =>
    dsimp only [Option.bind_some]
    by_cases hr : r.1 = .text []
    · rw [if_pos hr, if_pos hr]
    · rw [if_neg hr, if_neg hr]
      rw [parseTerms_suffix]
      rfl

end Parts

/-! ## Channel links -/

section Reading

variable (U : CharacterData) {base : Text} (hbase : '#' ∉ base) (suffix : Suffix)

include hbase

/-- A channel link whose slug has an id is understood exactly if the ends of its topic are no
white space. -/
theorem topic_understood (stream_id : ℕ) (name topic : Text) :
    (∃ terms, parseNarrowUrl U (base ++ ("#narrow/channel/".toList ++
        (str stream_id ++ '-' :: hidden name) ++ "/topic/".toList ++ hidden topic ++
        suffix.text)) = .ok (some terms) ∧
      (Target.topic stream_id topic).NamedBy suffix terms) ↔ strip topic = topic := by
  have hslug : parseRecipientSlug U (str stream_id ++ '-' :: hidden name) =
      some (.id stream_id, hidden name) := by
    have h := parseRecipientSlug_joined U (cons_ne_nil stream_id []) (hidden name)
    rwa [joined, map_singleton, intercalate_singleton] at h
  have hparts : ∀ p ∈ channelParts (str stream_id ++ '-' :: hidden name) topic suffix,
      ∀ c ∈ p, inPart c = true := by
    have hhidden : ∀ s, ∀ c ∈ hidden s, inPart c = true :=
      fun s c hc => inPart_of_word (hidden_word s c hc)
    intro p hp
    simp only [channelParts, cons_append, nil_append, mem_cons] at hp
    rcases hp with rfl | rfl | rfl | rfl | rfl | hp
    · exact words_inPart _ (by decide)
    · exact words_inPart _ (by decide)
    · intro c hc
      rcases mem_append.mp hc with hc | hc
      · exact str_inPart stream_id c hc
      · rcases mem_cons.mp hc with rfl | hc
        · rfl
        · exact hhidden name c hc
    · exact words_inPart _ (by decide)
    · exact hhidden topic
    · exact suffix_inPart suffix p hp
  rw [channelParts_text, parseNarrowUrl_parts U hbase (channelParts_ne _ _ _) hparts,
    parseTerms_channel, hslug]
  dsimp only [Target.NamedBy]
  constructor
  · rintro ⟨terms, hread, rfl⟩
    simpa using hread
  · intro h
    exact ⟨_, rfl, by rw [h]⟩

/-- A channel link without a `-` after the id has no terms. -/
theorem bare_id_unread (stream_id : ℕ) (topic : Text) :
    parseNarrowUrl U (base ++ ("#narrow/channel/".toList ++ str stream_id ++
      "/topic/".toList ++ hidden topic ++ suffix.text)) = .ok none := by
  have hparts : ∀ p ∈ channelParts (str stream_id) topic suffix, ∀ c ∈ p, inPart c = true := by
    intro p hp
    simp only [channelParts, cons_append, nil_append, mem_cons] at hp
    rcases hp with rfl | rfl | rfl | rfl | rfl | hp
    · exact words_inPart _ (by decide)
    · exact words_inPart _ (by decide)
    · exact str_inPart stream_id
    · exact words_inPart _ (by decide)
    · exact fun c hc => inPart_of_word (hidden_word topic c hc)
    · exact suffix_inPart suffix p hp
  have hnone : parseRecipientSlug U (str stream_id) = none :=
    parseRecipientSlug_eq_none U fun h =>
      absurd rfl (ne_of_isDigit (isDigit_of_mem_str h) (by decide))
  rw [channelParts_text, parseNarrowUrl_parts U hbase (channelParts_ne _ _ _) hparts,
    parseTerms_channel, hnone]

/-! ## Direct message links -/

omit hbase in
theorem people_inPart {slug : Text} (hslug : ∀ c ∈ slug, inPart c = true) :
    ∀ p ∈ peopleParts slug suffix, ∀ c ∈ p, inPart c = true := by
  intro p hp
  simp only [peopleParts, cons_append, nil_append, mem_cons] at hp
  rcases hp with rfl | rfl | rfl | hp
  · exact words_inPart _ (by decide)
  · exact words_inPart _ (by decide)
  · exact hslug
  · exact suffix_inPart suffix p hp

omit hbase in
theorem joined_inPart (ids : List ℕ) : ∀ c ∈ joined ids, inPart c = true := by
  intro c hc
  rcases mem_joined hc with hdigit | rfl
  · exact inPart_of_word (word_of_plain (plain_of_isDigit hdigit))
  · rfl

/-- A direct message link with a `-` after the ids names the users. -/
theorem people_understood {ids : List ℕ} (conversation : Conversation)
    (hperm : ids.Perm conversation.ids) {word : Text} (hword : ∀ c ∈ word, inPart c = true) :
    ∃ terms, parseNarrowUrl U (base ++ ("#narrow/dm/".toList ++ (joined ids ++ '-' :: word) ++
        suffix.text)) = .ok (some terms) ∧
      (Target.people conversation).NamedBy suffix terms := by
  have hne : ids ≠ [] := by
    rintro rfl
    exact conversation.nonempty hperm.nil_eq.symm
  have hslug : ∀ c ∈ joined ids ++ '-' :: word, inPart c = true := by
    intro c hc
    rcases mem_append.mp hc with hc | hc
    · exact joined_inPart ids c hc
    · rcases mem_cons.mp hc with rfl | hc
      · rfl
      · exact hword c hc
  have hrecipient : recipient ids ≠ .text [] := by
    unfold recipient
    split <;> simp
  rw [peopleParts_text, parseNarrowUrl_parts U hbase (peopleParts_ne _ _)
    (people_inPart suffix hslug), parseTerms_people, parseRecipientSlug_joined U hne]
  dsimp only
  rw [if_neg hrecipient]
  refine ⟨_, rfl, recipient ids, rfl, ?_⟩
  rw [recipient_users]
  exact hperm.map _

/-- A direct message link without a `-` after the ids has no terms. -/
theorem bare_ids_unread (ids : List ℕ) :
    parseNarrowUrl U (base ++ ("#narrow/dm/".toList ++ joined ids ++ suffix.text)) = .ok none := by
  rw [peopleParts_text, parseNarrowUrl_parts U hbase (peopleParts_ne _ _)
    (people_inPart suffix (joined_inPart ids)), parseTerms_people,
    parseRecipientSlug_eq_none U (not_mem_joined ids)]

end Reading

end GrowTeam.Links
