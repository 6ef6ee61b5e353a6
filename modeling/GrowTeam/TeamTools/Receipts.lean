/-
# Receipts of team tools

What `execute_team_tool` makes of the outcome of a handler, and what the storing phase
(`_store_team_receipt` in `zerver/actions/agent_approvals.py`) accepts: the `TeamReceipt` model, and
no credential in the audited payload.  The rows were locked by the phase before, and are there.
-/
import GrowTeam.Protocol.Canonical
import GrowTeam.Codes
import GrowTeam.Server.Events
import GrowTeam.TeamTools.Inputs
import GrowTeam.Words

namespace GrowTeam.TeamTools

open List

open GrowTeam.Canonical (Json dumps encode)
open GrowTeam.Server (isSpace)

/-! ## `_sanitize_receipt_text` -/

/-- `replace("@", "@\u200b")`, one character. -/
def defang (c : Char) : Text := if c = '@' then ['@', '\u200b'] else [c]

/-- `_sanitize_receipt_text(text)`. -/
def sanitizeReceiptText (text : Text) : Text :=
  (Words.strip isSpace (Words.collapse isSpace ' ' false text)).flatMap defang

/-! ## `describe_team_tool_input` -/

/-- The names that the viewer may see. -/
structure Directory where
  userName : ℕ → Option Text
  channelName : ℕ → Option Text
  groupName : ℕ → Option Text

variable (language : Language) (dir : Directory)

/-- `_user_names(realm, user_ids)`. -/
def userNames (user_ids : List ℕ) : Text :=
  commaJoin (user_ids.map fun id => (dir.userName id).getD (language (.userNumber id)))

/-- `_channel_label(viewer, channel_id)`. -/
def channelLabel (channel_id : ℕ) : Text :=
  match dir.channelName channel_id with
  | some name => '#' :: name
  | none => language .hiddenChannel

/-- `_group_label(realm, group_id)`. -/
def groupLabel (group_id : ℕ) : Text :=
  (dir.groupName group_id).getD (language (.groupNumber group_id))

/-- `people or _("none")`. -/
def orNobody (people : Text) : Text :=
  if people = [] then language .nobody else people

/-- The beginning of the content of a message. -/
def preview (content : Text) : Text :=
  if content.length ≤ 140 then content else content.take 139 ++ ['…']

/-- `describe_team_tool_input(viewer, tool_input)`. -/
def describeTeamToolInput : TeamToolInput → Text
  | .teamFind query _ => language (.search query)
  | .channelCreate name _ is_private subscriber_user_ids =>
    language (.createChannel (language (if is_private then .privateKind else .publicKind)) name
      (orNobody language (userNames language dir subscriber_user_ids)))
  | .channelSubscribe channel_id user_ids =>
    language (.subscribe (userNames language dir user_ids) (channelLabel language dir channel_id))
  | .channelUnsubscribe channel_id user_ids =>
    language (.unsubscribe (userNames language dir user_ids) (channelLabel language dir channel_id))
  | .groupCreate name _ member_user_ids =>
    language (.createGroup name (orNobody language (userNames language dir member_user_ids)))
  | .groupAddMembers group_id user_ids =>
    language (.addMembers (userNames language dir user_ids) (groupLabel language dir group_id))
  | .groupRemoveMembers group_id user_ids =>
    language (.removeMembers (userNames language dir user_ids) (groupLabel language dir group_id))
  | .topicPost channel_id topic content =>
    language (.post (channelLabel language dir channel_id) topic (preview content))
  | .topicAddPerson channel_id topic user_ids =>
    language (.invite (userNames language dir user_ids) (channelLabel language dir channel_id)
      topic)
  | .topicResolve channel_id topic resolved =>
    language (.resolve (language (.resolveVerb resolved)) (channelLabel language dir channel_id)
      topic)
  | .topicMove channel_id topic new_topic new_channel_id =>
    match new_channel_id with
    | some new_id =>
      if new_id ≠ channel_id then
        language (.move (channelLabel language dir channel_id) topic
          (channelLabel language dir new_id) new_topic)
      else language (.rename (channelLabel language dir channel_id) topic new_topic)
    | none => language (.rename (channelLabel language dir channel_id) topic new_topic)

/-! ## `execute_team_tool` -/

/-- The longest text of a `TeamReceipt`. -/
def receiptLimit : ℕ := 2048

/-- `execute_team_tool(commander, profile, tool_input)`, from the outcome of the handler; `none`
when an exception goes through. -/
def executeTeamTool (tool_input : TeamToolInput)
    (outcome : Except Fault (Text × Objects)) : Option Receipt :=
  match outcome with
  | .ok (summary, objects) =>
    some
      { tool := tool_input.tool
        succeeded := true
        summary := sanitizeReceiptText (summary.take 2048)
        objects
        error := none }
  | .error (.jsonable error) =>
    some
      { tool := tool_input.tool
        succeeded := false
        summary := sanitizeReceiptText (describeTeamToolInput language dir tool_input)
        objects := {}
        error := some (sanitizeReceiptText error) }
  | .error .raised => none

/-! ## `TeamReceipt` -/

/-- `Positive | None`. -/
def positive (id : Option ℕ) : Bool := id.all fun id => 0 < id

/-- The limits of `TeamReceiptObjects`. -/
def Objects.valid (objects : Objects) : Bool :=
  positive objects.channel_id && positive objects.group_id && positive objects.message_id &&
    objects.user_ids.all fun named => named.all fun ids => ids.all fun id => 0 < id

/-- The limits of `TeamReceipt`. -/
def Receipt.valid (r : Receipt) : Bool :=
  r.summary.length ≤ receiptLimit && r.objects.valid &&
    r.error.all fun error => error.length ≤ receiptLimit

/-! ## `reject_secrets` -/

abbrev Bytes := List UInt8

/-- The bytes of an ASCII text. -/
def ascii (s : String) : Bytes := s.toList.map fun c => UInt8.ofNat c.toNat

/-- `[A-Z]` under `(?i)`, as the small letter. -/
def small (b : UInt8) : UInt8 := if 65 ≤ b ∧ b ≤ 90 then b + 32 else b

/-- `\s` in a pattern of bytes. -/
def isSpaceByte (b : UInt8) : Bool := b = 32 || (9 ≤ b && b ≤ 13)

/-- `[A-Z ]` under `(?i)`. -/
def isNameByte (b : UInt8) : Bool := b = 32 || (97 ≤ small b && small b ≤ 122)

/-- What follows a word, in letters of either case. -/
def after (word : String) (t : Bytes) : Option Bytes :=
  let word := ascii word
  if (t.take word.length).map small = word then some (t.drop word.length) else none

/-- `authorization\s*:\s*bearer\s+\S+` at this place. -/
def bearerAt (t : Bytes) : Bool :=
  match after "authorization" t with
  | none => false
  | some r =>
    match r.dropWhile isSpaceByte with
    | 58 :: r =>
      match after "bearer" (r.dropWhile isSpaceByte) with
      | none => false
      | some r => r.head?.any isSpaceByte && !(r.dropWhile isSpaceByte).isEmpty
    | _ => false

/-- `-----BEGIN [A-Z ]*PRIVATE KEY-----` at this place. -/
def privateKeyAt (t : Bytes) : Bool :=
  match after "-----begin " t with
  | none => false
  | some r =>
    ((r.takeWhile isNameByte).map small).reverse.take 11 = (ascii "private key").reverse &&
      (r.dropWhile isNameByte).take 5 = ascii "-----"

variable (plaintexts : List Bytes)

/-- A credential, or one of the plaintexts, is in the value. -/
def hasSecret (value : Bytes) : Bool :=
  value.tails.any fun t =>
    bearerAt t || privateKeyAt t ||
      plaintexts.any fun plaintext => !plaintext.isEmpty && plaintext.isPrefixOf t

/-! ## `_store_team_receipt` -/

/-- A text as a JSON string. -/
def jsonText (t : Text) : Json := .string (t.flatMap fun c => Utf16.units c.toNat)

/-- A key of the payload. -/
def key (name : String) (value : Json) : List Utf16.CodeUnit × Json :=
  ((lit name).flatMap fun c => Utf16.units c.toNat, value)

/-- A value, or `null`. -/
def orNull (value : Option Json) : Json := value.getD .null

/-- A number as a JSON value. -/
def jsonNumber (id : ℕ) : Json := .integer id

variable (operation_id : String)

/-- `{**receipt, "operation_id": ...}`. -/
def payload (r : Receipt) : Json :=
  .object
    [key "tool" (jsonText (lit r.tool)),
      key "outcome" (jsonText (lit (if r.succeeded then "succeeded" else "failed"))),
      key "summary" (jsonText r.summary),
      key "objects" (.object
        ((r.objects.channel_id.toList.map fun id => key "channel_id" (jsonNumber id)) ++
          (r.objects.group_id.toList.map fun id => key "group_id" (jsonNumber id)) ++
          (r.objects.message_id.toList.map fun id => key "message_id" (jsonNumber id)) ++
          r.objects.user_ids.toList.map fun named =>
            key "user_ids" (orNull (named.map fun ids => .array (ids.map jsonNumber))))),
      key "error" (orNull (r.error.map jsonText)),
      key "operation_id" (jsonText (lit operation_id))]

/-- `reject_secrets(job, canonical_json(payload))` with the plaintexts of the job's secrets. -/
def rejectSecrets (value : Json) : Except String Unit := do
  let text ← dumps value
  let bytes ← encode text
  if hasSecret plaintexts bytes.data.toList then
    .error "Sensitive artifact content was rejected."
  else .ok ()

/-- The checks of `_store_team_receipt`: `operation.clean()`, and those of `audit`. -/
def storeTeamReceipt (r : Receipt) : Except String Unit := do
  if !r.valid then .error "Invalid agent protocol data."
  rejectSecrets plaintexts (payload operation_id r)
  if !r.valid then .error "Invalid agent event or authority."

/-! ## The length of a text in a receipt -/

/-- The characters that are left of a text: its letters, a blank between each two words, and one
more for every `@`. -/
def size (t : Text) : ℕ :=
  Words.letters isSpace t + (Words.wordCount isSpace false t - 1) + t.count '@'

theorem length_flatMap_defang (t : Text) : (t.flatMap defang).length = t.length + t.count '@' := by
  induction t with
  | nil => rfl
  | cons c r ih =>
    rw [flatMap_cons, length_append, ih, count_cons]
    unfold defang
    by_cases hc : c = '@'
    · simp only [hc, if_true, length_cons, length_nil, beq_self_eq_true]
      omega
    · simp only [hc, length_cons, length_nil, beq_iff_eq, if_false]
      omega

/-- **The length of a text in a receipt.** -/
theorem length_sanitizeReceiptText (t : Text) : (sanitizeReceiptText t).length = size t := by
  have hblank : isSpace ' ' = true := by decide
  have hat : isSpace '@' = false := by decide
  rw [sanitizeReceiptText, length_flatMap_defang, Words.length_strip_collapse hblank,
    Words.count_strip_collapse hat hblank, size]

/-! ## Which outcomes leave a receipt -/

/-- The payload of a receipt has no credential. -/
def Harmless (r : Receipt) : Prop :=
  rejectSecrets plaintexts (payload operation_id r) = .ok ()

theorem storeTeamReceipt_ok {plaintexts : List Bytes} {operation_id : String} {r : Receipt} :
    storeTeamReceipt plaintexts operation_id r = .ok () ↔
      r.valid = true ∧ Harmless plaintexts operation_id r := by
  unfold storeTeamReceipt Harmless
  cases hvalid : r.valid with
  | false => simp [bind, Except.bind]
  | true =>
    cases hsecrets : rejectSecrets plaintexts (payload operation_id r) with
    | error e => simp [bind, Except.bind]
    | ok u => simp [bind, Except.bind, pure, Except.pure]

/-- **When the outcome of a handler leaves a stored receipt.**  What is left of the summary, cut
after 2048 characters, or of the sentence about the input and of the error, has at most 2048
characters, and the payload no credential. -/
def Storable (tool_input : TeamToolInput)
    (plaintexts : List Bytes) (operation_id : String) : Except Fault (Text × Objects) → Prop
  | .ok (summary, objects) =>
    size (summary.take 2048) ≤ receiptLimit ∧ objects.valid = true ∧
      Harmless plaintexts operation_id
        ⟨tool_input.tool, true, sanitizeReceiptText (summary.take 2048), objects, none⟩
  | .error (.jsonable error) =>
    size (describeTeamToolInput language dir tool_input) ≤ receiptLimit ∧
      size error ≤ receiptLimit ∧
      Harmless plaintexts operation_id
        ⟨tool_input.tool, false, sanitizeReceiptText (describeTeamToolInput language dir tool_input),
          {}, some (sanitizeReceiptText error)⟩
  | .error .raised => False

/-- **An executed tool leaves a stored receipt** exactly for the storable outcomes. -/
theorem receipt_stored_iff (language : Language) (dir : Directory) (tool_input : TeamToolInput)
    (outcome : Except Fault (Text × Objects)) (plaintexts : List Bytes) (operation_id : String) :
    (∃ r, executeTeamTool language dir tool_input outcome = some r ∧ r.valid = true ∧
      storeTeamReceipt plaintexts operation_id r = .ok ()) ↔
    Storable language dir tool_input plaintexts operation_id outcome := by
  cases outcome with
  | ok result =>
    simp only [executeTeamTool, Option.some.injEq, exists_eq_left', storeTeamReceipt_ok, Storable,
      Receipt.valid, length_sanitizeReceiptText, Bool.and_eq_true, decide_eq_true_eq,
      Option.all_none, and_true]
    tauto
  | error fault =>
    cases fault with
    | raised => simp [executeTeamTool, Storable]
    | jsonable error =>
      have hempty : ({} : Objects).valid = true := rfl
      simp only [executeTeamTool, Option.some.injEq, exists_eq_left', storeTeamReceipt_ok, Storable,
        Receipt.valid, length_sanitizeReceiptText, Bool.and_eq_true, decide_eq_true_eq,
        Option.all_some, hempty, and_true]
      tauto

/-! ## Many people -/

/-- The ids of 25 people. -/
def crowd : List ℕ := (List.range 25).map fun i => i + 1

/-- Everyone has a name of 100 characters. -/
def longNames : Directory :=
  ⟨fun _ => some (List.replicate 100 'a'), fun _ => some (lit "general"), fun _ => none⟩

/-- A refused subscription of many people with long names leaves no receipt. -/
theorem crowded_receipt_refused :
    ¬ ∀ (language : Language) (dir : Directory) (tool_input : TeamToolInput)
      (outcome : Except Fault (Text × Objects)) (plaintexts : List Bytes) (operation_id : String),
      tool_input.accepted = true →
        ∃ r, executeTeamTool language dir tool_input outcome = some r ∧ r.valid = true ∧
          storeTeamReceipt plaintexts operation_id r = .ok () := by
  intro h
  obtain ⟨r, hr, hvalid, -⟩ := h english longNames (.channelSubscribe 1 crowd)
    (.error (.jsonable (lit "Insufficient permission"))) [] "" (by decide)
  cases hr
  revert hvalid
  decide +kernel

end GrowTeam.TeamTools
