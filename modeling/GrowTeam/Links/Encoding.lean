import GrowTeam.PercentCoding
import Mathlib.Data.List.Sort
import GrowTeam.Server.Events
import GrowTeam.Words

/-!
# Links to conversations

The server builds links in `zerver/lib/url_encoding.py` and the web app in
`web/src/internal_url.ts` and `web/src/people.ts`.  A link ends in a hash, which hides its
percent-encoding from browsers by writing `.` for `%`.  Both encoders leave the same characters
as they are.
-/

namespace GrowTeam.Links

abbrev Text := List Char

/-- The digits of an id. -/
def str (n : ℕ) : Text := Nat.toDigits 10 n

/-- The address of an organisation, in which no hash begins. -/
structure Realm where
  url : Text
  no_hash : '#' ∉ url

/-- What a channel message says of itself in a link. -/
structure ChannelMessage where
  id : ℕ
  stream_id : ℕ
  /-- The name of the channel. -/
  display_recipient : Text
  topic : Option Text
  subject : Text

/-- Those who take part in a direct conversation. -/
structure Conversation where
  ids : List ℕ
  nonempty : ids ≠ []
  nodup : ids.Nodup

inductive Refusal
  | assertionError
  | valueError (message : String)

/-! ## The server -/

/-- What `quote` never encodes. -/
def alwaysSafe (c : Char) : Bool := c.isAlphanum || "_.-~".toList.contains c

/-- `urllib.parse.quote(s, safe="")`. -/
def quote (s : Text) : Text := PercentCoding.encode '%' alwaysSafe s

def hashReplacements (c : Char) : Option Text :=
  if c = '%' then some ".".toList
  else if c = '(' then some ".28".toList
  else if c = ')' then some ".29".toList
  else if c = '.' then some ".2E".toList
  else none

def encodeHashComponent (s : Text) : Text :=
  (quote s).flatMap fun c => (hashReplacements c).getD [c]

def getTopicFromMessageInfo (message_info : ChannelMessage) : Text :=
  message_info.topic.getD message_info.subject

/-- `name.replace(" ", "-")`. -/
def dashed (name : Text) : Text := name.map fun c => if c = ' ' then '-' else c

def encodeChannel (channel_id : ℕ) (channel_name : Text) (with_operator : Bool) : Text :=
  let encoded_channel := str channel_id ++ "-".toList ++ encodeHashComponent (dashed channel_name)
  if with_operator then "channel/".toList ++ encoded_channel else encoded_channel

def encodeUserIds (user_ids : List ℕ) (with_operator : Bool) : Except Refusal Text :=
  if 0 < user_ids.length then
    let decoration_tag := if 3 ≤ user_ids.length then "-group".toList else []
    let direct_message_slug :=
      [','].intercalate ((user_ids.insertionSort (· ≤ ·)).map str) ++ decoration_tag
    .ok (if with_operator then "dm/".toList ++ direct_message_slug else direct_message_slug)
  else .error .assertionError

def topicNarrowUrl (realm : Realm) (stream_id : ℕ) (stream_name topic_name : Text) : Text :=
  realm.url ++ "/#narrow/channel/".toList ++ encodeChannel stream_id stream_name false ++
    "/topic/".toList ++ encodeHashComponent topic_name

def withOrNear (conversation_link : Bool) : Text :=
  if conversation_link then "with".toList else "near".toList

def streamMessageUrl (realm : Option Realm) (message : ChannelMessage)
    (conversation_link include_base_url : Bool) : Except Refusal Text :=
  let narrow_fragments :=
    "#narrow/channel/".toList ++ encodeChannel message.stream_id message.display_recipient false ++
      "/topic/".toList ++ encodeHashComponent (getTopicFromMessageInfo message) ++ "/".toList ++
      withOrNear conversation_link ++ "/".toList ++ str message.id
  match include_base_url, realm with
  | true, none => .error (.valueError "realm is required when include_base_url=True")
  | true, some realm => .ok (realm.url ++ "/".toList ++ narrow_fragments)
  | false, _ => .ok narrow_fragments

def pmMessageUrl (realm : Realm) (message_id : ℕ) (user_ids : List ℕ)
    (conversation_link : Bool) : Except Refusal Text :=
  (encodeUserIds user_ids false).map fun direct_message_slug =>
    ['/'].intercalate [realm.url, "#narrow".toList, "dm".toList, direct_message_slug,
      withOrNear conversation_link, str message_id]

/-! ## The web app -/

namespace Web

def apostrophe : Char := Char.ofNat 0x27

/-- What `encodeURIComponent` never encodes. -/
def unreserved (c : Char) : Bool :=
  c.isAlphanum || "-_.!~*()".toList.contains c || c = apostrophe

def encodeURIComponent (s : Text) : Text := PercentCoding.encode '%' unreserved s

def hashReplacements (c : Char) : Option Text :=
  if c = '%' then some ".".toList
  else if c = '!' then some ".21".toList
  else if c = apostrophe then some ".27".toList
  else if c = '(' then some ".28".toList
  else if c = ')' then some ".29".toList
  else if c = '*' then some ".2A".toList
  else if c = '.' then some ".2E".toList
  else none

def encodeHashComponent (s : Text) : Text :=
  (encodeURIComponent s).flatMap fun c => (hashReplacements c).getD [c]

/-- The code units of a character. -/
def units (c : Char) : ℕ := if c.toNat < 0x10000 then 1 else 2

/-- `length` of a string. -/
def length : Text → ℕ
  | [] => 0
  | c :: s => units c + length s

variable (stream_id : ℕ) (maybe_get_stream_name : ℕ → Option Text)

def streamIdToSlug : Text :=
  str stream_id ++ "-".toList ++
    dashed ((maybe_get_stream_name stream_id).getD "unknown".toList)

def encodeSlug (slug : Text) : Text :=
  let encoded_slug := encodeHashComponent slug
  -- the longest ratio is 1.5
  if length slug + 10 < length encoded_slug ∨ length slug * 3 < length encoded_slug * 2 then
    str stream_id
  else encoded_slug

def encodeStreamId : Text :=
  encodeSlug stream_id (streamIdToSlug stream_id maybe_get_stream_name)

def byStreamTopicUrl (topic : Text) (maybe_get_stream_name : ℕ → Option Text)
    (message_id : Option ℕ) : Text :=
  let url := "#narrow/channel/".toList ++ encodeStreamId stream_id maybe_get_stream_name ++
    "/topic/".toList ++ encodeHashComponent topic
  match message_id with
  | none => url
  | some message_id => url ++ "/with/".toList ++ str message_id

/-- `util.sorted_ids`. -/
def sortedIds (ids : List ℕ) : List ℕ := ids.dedup.insertionSort (· ≤ ·)

/-- `pm_perma_link` of a direct message; without recipients there is no link. -/
def pmPermaLink (display_recipient : List ℕ) : Option Text :=
  if display_recipient = [] then none
  else
    let user_ids := sortedIds display_recipient
    let suffix := if 3 ≤ user_ids.length then "group".toList else "dm".toList
    some ("#narrow/dm/".toList ++ ([','].intercalate (user_ids.map str) ++ "-".toList ++ suffix))

end Web

/-! # The terms of a link (`zerver/lib/url_decoding.py`) -/

/-- What Python takes from the Unicode character database. -/
structure CharacterData where
  lower : Text → Text
  /-- The value of a decimal character. -/
  decimal : Char → Option ℕ
  isdigit : Char → Bool
  lower_ascii : ∀ t, (∀ c ∈ t, PercentCoding.isAscii c = true) → lower t = t.map Char.toLower
  decimal_ascii : ∀ c, PercentCoding.isAscii c = true →
    decimal c = if c.isDigit then some (c.toNat - 48) else none
  isdigit_ascii : ∀ c, PercentCoding.isAscii c = true → isdigit c = c.isDigit

inductive Operand
  | text (t : Text)
  | id (n : ℤ)
  | ids (l : List ℤ)
  deriving DecidableEq

/-- The users that an operand names. -/
def Operand.users : Operand → List ℤ
  | .text _ => []
  | .id n => [n]
  | .ids l => l

structure NarrowTerm where
  operator : Text
  operand : Operand
  negated : Bool
  deriving DecidableEq

inductive ValueError
  | valueError
  deriving DecidableEq

/-- `urlsplit(url).fragment`, of a text without tabs and line ends. -/
def fragment (url : Text) : Text :=
  ((url.filter fun c => !"\t\r\n".toList.contains c).dropWhile (· ≠ '#')).drop 1

def strip (t : Text) : Text := Words.strip Server.isSpace t

/-- The names that the operators had before. -/
def operatorSynonyms : List (Text × Text) :=
  [("stream".toList, "channel".toList), ("streams".toList, "channels".toList),
   ("pm-with".toList, "dm".toList), ("group-pm-with".toList, "dm-including".toList),
   ("from".toList, "sender".toList), ("subject".toList, "topic".toList)]

def decodeHashComponent (string : Text) : Text :=
  PercentCoding.unquote (string.map fun c => if c = '.' then '%' else c)

section Reading

variable (U : CharacterData)

def canonicalizeOperatorSynonyms (text : Text) : Text :=
  let text := U.lower text
  if (operatorSynonyms.map Prod.snd).contains text then text
  else (operatorSynonyms.lookup text).getD text

/-- The number of some digits that follow `n`; `pending` says that a digit has to follow. -/
def digits (pending : Bool) (n : ℕ) : Text → Option ℕ
  | [] => if pending then none else some n
  | c :: rest =>
    if c = '_' then (if pending then none else digits true n rest)
    else match U.decimal c with
      | some d => digits false (10 * n + d) rest
      | none => none

/-- `int(text)`; `none` is a `ValueError`. -/
def int (text : Text) : Option ℤ :=
  match strip text with
  | '-' :: rest => (digits U true 0 rest).map fun n => -(n : ℤ)
  | '+' :: rest => (digits U true 0 rest).map fun n => (n : ℤ)
  | t => (digits U true 0 t).map fun n => (n : ℤ)

/-- `slug.split("-", maxsplit=1)` of two parts. -/
def splitOnce (slug : Text) : Option (Text × Text) :=
  match slug.dropWhile (· ≠ '-') with
  | [] => none
  | _ :: suffix => some (slug.takeWhile (· ≠ '-'), suffix)

def parseRecipientSlug (slug : Text) : Option (Operand × Text) :=
  match splitOnce slug with
  | none => none
  | some (ids_string, suffix) =>
    match (ids_string.splitOn ',').mapM (int U) with
    | none => none
    | some [id] => some (.id id, suffix)
    | some ids => some (.ids ids, suffix)

/-- The operators whose operands begin with ids. -/
def recipientOperators : List Text :=
  ["dm-including".toList, "dm".toList, "mentions".toList, "sender".toList, "channel".toList]

def decodeNarrowOperand (operator operand : Text) : Except ValueError Operand :=
  if recipientOperators.contains operator then
    match parseRecipientSlug U operand with
    | some (recipient, _) => .ok recipient
    | none => .ok (.text [])
  else if operator = "near".toList then
    -- `isdigit` of the empty text is false
    if operand ≠ [] ∧ operand.all U.isdigit then
      match int U operand with
      | some n => .ok (.id n)
      | none => .error .valueError
    else .ok (.text [])
  else .ok (.text (strip (decodeHashComponent operand)))

def parseTerm (part raw_operand : Text) : Except ValueError (Option NarrowTerm) :=
  let raw_operator := strip (decodeHashComponent part)
  if raw_operator = [] then .ok none
  else
    let negated := raw_operator.head? = some '-'
    let raw_operator := if negated then raw_operator.drop 1 else raw_operator
    let operator := canonicalizeOperatorSynonyms U raw_operator
    match decodeNarrowOperand U operator raw_operand with
    | .error e => .error e
    | .ok operand =>
      -- the empty string is a valid topic
      if operand = .text [] ∧ operator ≠ "topic".toList then .ok none
      else .ok (some ⟨operator, operand, negated⟩)

def parseTerms : List Text → Except ValueError (Option (List NarrowTerm))
  | [] => .ok (some [])
  | [part] => (parseTerm U part []).map fun term => term.map fun t => [t]
  | part :: raw_operand :: rest =>
    match parseTerm U part raw_operand with
    | .error e => .error e
    | .ok none => .ok none
    | .ok (some t) => (parseTerms rest).map fun terms => terms.map (t :: ·)

/-- `parse_narrow_url`: the first part of the hash is left out. -/
def parseNarrowUrl (narrow_url : Text) : Except ValueError (Option (List NarrowTerm)) :=
  parseTerms U (((fragment narrow_url).splitOn '/').drop 1)

end Reading

end GrowTeam.Links
