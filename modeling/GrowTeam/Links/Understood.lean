import GrowTeam.Links.RoundTrip
import Mathlib.Data.List.Dedup

/-!
# Which links the server understands

The server reads a link back exactly when the ends of its topic are no white space, when the
web app wrote the name of the channel, and when a link of its own to users names at least three.
-/

namespace GrowTeam.Links

open PercentCoding List Web

/-! ## The length of a hidden name -/

namespace Web

theorem length_append (s t : Text) : length (s ++ t) = length s + length t := by
  induction s with
  | nil => exact (Nat.zero_add _).symm
  | cons c s ih =>
    rw [cons_append, length, ih, length, Nat.add_assoc]

/-- An ASCII text has as many code units as characters. -/
theorem length_ascii {s : Text} (h : ∀ c ∈ s, isAscii c = true) : length s = s.length := by
  induction s with
  | nil => rfl
  | cons c s ih =>
    have hc : c.toNat < 0x80 := by simpa [isAscii] using h c mem_cons_self
    rw [length, ih (fun d hd => h d (mem_cons_of_mem _ hd)), units, if_pos (by omega),
      length_cons, Nat.add_comm]

theorem length_escapes (bytes : List UInt8) :
    length (bytes.flatMap (escape '.')) = 3 * bytes.length := by
  induction bytes with
  | nil => rfl
  | cons b bytes ih =>
    rw [flatMap_cons, length_append, length_ascii (escape_ascii rfl b), length_cons]
    show 3 + _ = _
    omega

end Web

/-- A hidden character has as many code units more as encoding adds. -/
theorem length_hidden_char (c : Char) :
    Web.length (hidden (dashed [c])) = Web.units c + grown c := by
  by_cases hblank : c = ' '
  · subst hblank
    decide
  · have hdashed : hidden (dashed [c]) = encodeChar '.' plain c := by
      show hidden [if c = ' ' then '-' else c] = _
      rw [if_neg hblank]
      exact append_nil _
    rw [hdashed, grown]
    by_cases hplain : plain c = true
    · rw [encodeChar_plain hplain, if_pos (Or.inl hplain)]
      rfl
    · have hpos := Char.utf8Size_pos c
      have hunits : Web.units c ≤ 2 := by
        unfold Web.units
        split <;> decide
      rw [encodeChar, if_neg hplain, Web.length_escapes, String.length_utf8EncodeChar,
        if_neg (by simp [hplain, hblank])]
      omega

theorem length_hidden (name : Text) :
    Web.length (hidden (dashed name)) = Web.length name + growth name := by
  induction name with
  | nil => rfl
  | cons c name ih =>
    have hcons : hidden (dashed (c :: name)) = hidden (dashed [c]) ++ hidden (dashed name) := by
      rw [← hidden_append]
      rfl
    rw [hcons, Web.length_append, length_hidden_char, Web.length, growth]
    omega

theorem length_dashed (name : Text) : Web.length (dashed name) = Web.length name := by
  induction name with
  | nil => rfl
  | cons c name ih =>
    show Web.units (if c = ' ' then '-' else c) + Web.length (dashed name) = _
    congr 1
    split
    · next h =>
      subst h
      decide
    · rfl

variable (stream_id : ℕ)

theorem hidden_slug (name : Text) : hidden (str stream_id ++ "-".toList ++ dashed name) =
      str stream_id ++ '-' :: hidden (dashed name) := by
  have hid : hidden (str stream_id) = str stream_id :=
    hidden_of_plain fun c hc => plain_of_isDigit (isDigit_of_mem_str hc)
  rw [hidden_append, hidden_append, hid, append_assoc]
  rfl

/-- The web app writes the name of a channel exactly if encoding adds little to it. -/
theorem encodeStreamId_eq (names : ℕ → Option Text) :
    (Named stream_id ((names stream_id).getD "unknown".toList) →
      encodeStreamId stream_id names = str stream_id ++
        '-' :: hidden (dashed ((names stream_id).getD "unknown".toList))) ∧
    (¬ Named stream_id ((names stream_id).getD "unknown".toList) →
      encodeStreamId stream_id names = str stream_id) := by
  generalize hname : (names stream_id).getD "unknown".toList = name
  have hascii : ∀ c ∈ str stream_id, isAscii c = true :=
    fun c hc => plain_ascii (plain_of_isDigit (isDigit_of_mem_str hc))
  have hslug : Web.length (str stream_id ++ "-".toList ++ dashed name) =
      (str stream_id).length + 1 + Web.length name := by
    rw [Web.length_append, Web.length_append, Web.length_ascii hascii, length_dashed]
    rfl
  have hencoded : Web.length (str stream_id ++ '-' :: hidden (dashed name)) =
      (str stream_id).length + 1 + Web.length name + growth name := by
    rw [Web.length_append, Web.length_ascii hascii, Web.length, length_hidden]
    show _ + (1 + _) = _
    omega
  rw [encodeStreamId, streamIdToSlug, hname, encodeSlug, Web.encodeHashComponent_eq,
    hidden_slug]
  unfold Named
  constructor
  · rintro ⟨hten, hhalf⟩
    rw [if_neg (by omega)]
  · intro h
    rw [if_pos (by omega)]

/-! ## The links of the server -/

theorem encodeChannel_eq (channel_id : ℕ) (channel_name : Text) :
    encodeChannel channel_id channel_name false =
      str channel_id ++ '-' :: hidden (dashed channel_name) := by
  rw [encodeChannel, encodeHashComponent_eq]
  simp

theorem realm_no_hash (realm : Realm) : '#' ∉ realm.url ++ "/".toList := by
  rw [mem_append]
  rintro (h | h)
  · exact realm.no_hash h
  · exact absurd h (by decide)

theorem messageSuffix_text (message_id : ℕ) (conversation_link : Bool) :
    (messageSuffix message_id conversation_link).text =
      "/".toList ++ withOrNear conversation_link ++ "/".toList ++ str message_id := by
  cases conversation_link <;> rfl

/-- What precedes the hash of a channel link. -/
theorem streamMessageUrl_eq {realm : Option Realm} {message : ChannelMessage}
    {conversation_link include_base_url : Bool} {url : Text}
    (h : streamMessageUrl realm message conversation_link include_base_url = .ok url) :
    ∃ base : Text, '#' ∉ base ∧ url = base ++ ("#narrow/channel/".toList ++
      (str message.stream_id ++ '-' :: hidden (dashed message.display_recipient)) ++
      "/topic/".toList ++ hidden (getTopicFromMessageInfo message) ++
      (messageSuffix message.id conversation_link).text) := by
  rw [messageSuffix_text]
  unfold streamMessageUrl at h
  rw [encodeChannel_eq, encodeHashComponent_eq] at h
  split at h
  · cases h
  · next realm =>
    cases h
    exact ⟨realm.url ++ "/".toList, realm_no_hash realm, by simp⟩
  · cases h
    exact ⟨[], not_mem_nil, by simp⟩

theorem topicNarrowUrl_eq (realm : Realm) (stream_id : ℕ) (stream_name topic_name : Text) :
    topicNarrowUrl realm stream_id stream_name topic_name =
      realm.url ++ "/".toList ++ ("#narrow/channel/".toList ++
        (str stream_id ++ '-' :: hidden (dashed stream_name)) ++ "/topic/".toList ++
        hidden topic_name ++ Suffix.none.text) := by
  rw [topicNarrowUrl, encodeChannel_eq, encodeHashComponent_eq]
  simp [Suffix.text]

/-- The server writes a `-` after the ids of three users or more. -/
theorem pmMessageUrl_eq {realm : Realm} {message_id : ℕ} {user_ids : List ℕ}
    {conversation_link : Bool} {url : Text}
    (h : pmMessageUrl realm message_id user_ids conversation_link = .ok url) :
    url = realm.url ++ "/".toList ++ ("#narrow/dm/".toList ++
      (joined (user_ids.insertionSort (· ≤ ·)) ++
        if 3 ≤ user_ids.length then '-' :: "group".toList else []) ++
      (messageSuffix message_id conversation_link).text) := by
  rw [messageSuffix_text]
  unfold pmMessageUrl encodeUserIds at h
  by_cases hpos : 0 < user_ids.length
  · rw [if_pos hpos] at h
    cases h
    by_cases hthree : 3 ≤ user_ids.length
    · simp [hthree, joined, intercalate_cons_cons]
    · simp [hthree, joined, intercalate_cons_cons]
  · rw [if_neg hpos] at h
    cases h

/-! ## The links of the web app -/

theorem channelHash_eq (topic : Text) (names : ℕ → Option Text) (suffix : Suffix) :
    channelHash stream_id topic names suffix =
      [] ++ ("#narrow/channel/".toList ++ encodeStreamId stream_id names ++
        "/topic/".toList ++ hidden topic ++ suffix.text) := by
  rw [← Web.encodeHashComponent_eq]
  cases suffix with
  | none | near => rfl
  | «with» message_id =>
    show Web.byStreamTopicUrl stream_id topic names none ++ "/with/".toList ++ str message_id = _
    exact append_assoc _ _ _

theorem sortedIds_perm (conversation : Conversation) :
    (sortedIds conversation.ids).Perm conversation.ids := by
  rw [sortedIds, dedup_eq_self.mpr conversation.nodup]
  exact perm_insertionSort _ _

/-- The web app always writes a `-` after the ids. -/
theorem pmPermaLink_eq (conversation : Conversation) (suffix : Suffix) :
    ∃ word : Text, (∀ c ∈ word, inPart c = true) ∧
      (Link.pmPermaLink conversation suffix).url =
        some ([] ++ ("#narrow/dm/".toList ++
          (joined (sortedIds conversation.ids) ++ '-' :: word) ++ suffix.text)) := by
  refine ⟨if 3 ≤ (sortedIds conversation.ids).length then "group".toList else "dm".toList,
    ?_, ?_⟩
  · split
    · exact words_inPart _ (by decide)
    · exact words_inPart _ (by decide)
  · simp [Link.url, Web.pmPermaLink, conversation.nonempty, joined]

/-! ## All links -/

/-- **A link is understood exactly when it is readable**: its topic has no white space at the
ends; a channel link of the web app has the name of its channel, to which encoding adds at
most ten code units and at most half of them; and a direct message link of the server is to
three users or more. -/
theorem understood_iff (U : CharacterData) {link : Link} {url : Text} (h : link.url = some url) :
    Understood U link url ↔ link.Readable := by
  cases link with
  | streamMessageUrl realm message conversation_link include_base_url =>
    have hok : streamMessageUrl realm message conversation_link include_base_url = .ok url := by
      cases hs : streamMessageUrl realm message conversation_link include_base_url with
      | error e => rw [Link.url, hs] at h; cases h
      | ok t => rw [Link.url, hs] at h; cases h; rfl
    obtain ⟨base, hbase, rfl⟩ := streamMessageUrl_eq hok
    exact topic_understood U hbase _ _ _ _
  | topicNarrowUrl realm stream_id stream_name topic_name =>
    cases h
    rw [topicNarrowUrl_eq]
    exact topic_understood U (realm_no_hash realm) _ _ _ _
  | pmMessageUrl realm message_id conversation conversation_link =>
    have hok : pmMessageUrl realm message_id conversation.ids conversation_link = .ok url := by
      cases hs : pmMessageUrl realm message_id conversation.ids conversation_link with
      | error e => rw [Link.url, hs] at h; cases h
      | ok t => rw [Link.url, hs] at h; cases h; rfl
    have hperm := perm_insertionSort (· ≤ ·) conversation.ids
    have hgroup : ∀ c ∈ "group".toList, inPart c = true := words_inPart _ (by decide)
    rw [pmMessageUrl_eq hok]
    show _ ↔ 3 ≤ conversation.ids.length
    by_cases hthree : 3 ≤ conversation.ids.length
    · simp only [hthree, if_true, iff_true]
      exact people_understood U (realm_no_hash realm) _ conversation hperm hgroup
    · simp only [hthree, if_false, iff_false, append_nil]
      rintro ⟨terms, hread, -⟩
      rw [bare_ids_unread U (realm_no_hash realm)] at hread
      cases hread
  | byStreamTopicUrl stream_id topic names suffix =>
    cases h
    rw [channelHash_eq]
    obtain ⟨hnamed, hbare⟩ := encodeStreamId_eq stream_id names
    show _ ↔ strip topic = topic ∧ Named _ _
    by_cases hname : Named stream_id ((names stream_id).getD "unknown".toList)
    · rw [hnamed hname, and_iff_left hname]
      exact topic_understood U not_mem_nil _ _ _ _
    · rw [hbare hname]
      simp only [hname, and_false, iff_false]
      rintro ⟨terms, hread, -⟩
      rw [bare_id_unread U not_mem_nil] at hread
      cases hread
  | pmPermaLink conversation suffix =>
    obtain ⟨word, hword, hurl⟩ := pmPermaLink_eq conversation suffix
    rw [hurl] at h
    cases h
    exact iff_of_true
      (people_understood U not_mem_nil suffix conversation (sortedIds_perm conversation) hword)
      trivial

/-! ## A pair of users -/

/-- The character data as far as ASCII goes. -/
def asciiData : CharacterData where
  lower t := t.map Char.toLower
  decimal c := if c.isDigit then some (c.toNat - 48) else none
  isdigit c := c.isDigit
  lower_ascii _ _ := rfl
  decimal_ascii _ _ := rfl
  isdigit_ascii _ _ := rfl

theorem home_no_hash : '#' ∉ "https://zulip.example".toList := by
  decide

def home : Realm := ⟨"https://zulip.example".toList, home_no_hash⟩

theorem pair_nodup : [15, 9].Nodup := by
  decide

def pair : Conversation := ⟨[15, 9], cons_ne_nil _ _, pair_nodup⟩

/-- **The link of the server to a message between two users is not understood.** -/
theorem pair_link_unread :
    ∃ url, (Link.pmMessageUrl home 43 pair false).url = some url ∧
      url = "https://zulip.example/#narrow/dm/9,15/near/43".toList ∧
      ¬ Understood asciiData (Link.pmMessageUrl home 43 pair false) url := by
  have hurl : (Link.pmMessageUrl home 43 pair false).url =
      some "https://zulip.example/#narrow/dm/9,15/near/43".toList := by decide
  have hnone : parseNarrowUrl asciiData "https://zulip.example/#narrow/dm/9,15/near/43".toList =
      .ok none := by decide
  refine ⟨_, hurl, rfl, ?_⟩
  rintro ⟨terms, hread, -⟩
  rw [hnone] at hread
  cases hread

/-- The web app's link to the same message is. -/
theorem understood_iff_pair :
    ∃ url, (Link.pmPermaLink pair (.near 43)).url = some url ∧
      url = "#narrow/dm/9,15-dm/near/43".toList ∧
      Understood asciiData (Link.pmPermaLink pair (.near 43)) url :=
  ⟨_, rfl, by decide, (understood_iff asciiData rfl).mpr trivial⟩

end GrowTeam.Links
