/-
# Fetching messages (`fetch_messages`)

A narrow that names a channel whose history the user may access, or the public channels, is
looked up in all messages of the realm; every other one in the messages that the user has
received and still has access to.  The terms of the narrow and the range around the anchor only
leave messages out.
-/
import GrowTeam.Narrow.Store

namespace GrowTeam.Narrow

open Chat

def largerThanMaxMessageId : ℤ := 10000000000000000

inductive AnchorInfo where
  | messageId (value : ℤ)
  | firstUnread
  | date (value : ℤ)

structure FetchedMessages where
  rows : List Message
  foundAnchor : Bool
  foundNewest : Bool
  foundOldest : Bool
  historyLimited : Bool
  anchor : Option ℤ
  includeHistory : Bool
  isSearch : Bool
  deriving DecidableEq

section Fetch

variable (engine : TextEngine) (s : Store)

/-! ## Access -/

variable (user : UserProfile)

/-- `can_access_stream_history_by_name` and `can_access_stream_history_by_id`. -/
def canAccessStreamHistoryByOperand (operand : Operand) : Bool :=
  match getStreamByNarrowOperandAccessUnchecked engine s operand user.realmId with
  | some stream => s.canAccessStreamHistory user stream
  | none => false

/-- One term of the loop of `ok_to_include_history`. -/
def includeHistoryStep (includeHistory : Bool) (term : NarrowParameter) : Bool :=
  if term.operator ∈ channelOperators ∧ ¬term.negated then
    canAccessStreamHistoryByOperand engine s user term.operand
  else if term.operator ∈ channelsOperators ∧
      term.operand ∈ [.text "public", .text "web-public"] ∧ ¬term.negated ∧
      user.canAccessPublicStreams then
    true
  else includeHistory

/-- The term is about a property of the row of the user. -/
def isPersonal (term : NarrowParameter) : Bool :=
  term.operator = "is" && term.operand ≠ .text "resolved"

def okToIncludeHistory (narrow : Option (List NarrowParameter)) (userProfile : Option UserProfile)
    (isWebPublicQuery : Bool) : Except NarrowError Bool :=
  match isWebPublicQuery, userProfile with
  | true, none => .ok true
  | true, some _ => .error .assertionError
  | false, none => .error .assertionError
  | false, some user =>
    let terms := narrow.getD []
    .ok (terms.foldl (includeHistoryStep engine s user) false && !terms.any isPersonal)

/-- The channel that the narrow asks for: `none` where a channel is excluded first or none is
named, and an error of two named ones. -/
def channelRequestedByUser : Option Operand → List NarrowParameter → Option (Option Operand)
  | requested, [] => some requested
  | requested, term :: terms =>
    if term.operator ∈ channelOperators then
      if term.negated then some none
      else if requested.isSome then none
      else channelRequestedByUser (some term.operand) terms
    else channelRequestedByUser requested terms

variable (userProfile : Option UserProfile)

/-- `access_narrow` is `False`. -/
def accessNarrowFails (narrow : Option (List NarrowParameter))
    (isWebPublicQuery : Bool) (realmId : ℕ) : Bool :=
  match userProfile, isWebPublicQuery with
  | some user, false =>
    match channelRequestedByUser none (narrow.getD []) with
    | none => true
    | some none => false
    | some (some operand) =>
      match getStreamByNarrowOperandAccessUnchecked engine s operand realmId with
      | none => false
      | some channel =>
        !s.userHasContentAccess user channel (s.isSubscribed user.id channel.recipientId)
  | _, _ => false

/-! ## Queries -/

/-- The restriction of `get_base_query_for_search`: direct messages, and messages of channels
that the user has access to now. -/
def stillAccessible (message : Message) : Bool :=
  let userRecursiveGroupIds := if user.isGuest then [] else s.recursiveMembershipGroups user
  message.recipient.type ≠ .stream ||
    (s.streams.rows.any fun stream => stream.recipientId = message.recipient.id &&
      ((!stream.inviteOnly && user.canAccessPublicStreams) ||
        decide (stream.canSubscribeGroupId ∈ userRecursiveGroupIds) ||
        decide (stream.canAddSubscribersGroupId ∈ userRecursiveGroupIds))) ||
    s.isSubscribed user.id message.recipient.id

def getBaseQueryForSearch (realmId : ℕ) (userProfile : Option UserProfile)
    (needUserMessage : Bool) : Except NarrowError Query :=
  match needUserMessage, userProfile with
  | false, _ => .ok {
      source := s.messages.rows.filter (·.realmId = realmId)
      hasFlags := false
      wheres := []
      usesFlags := false }
  | true, none => .error .assertionError
  | true, some user => .ok {
      source := s.messages.rows.filter fun message =>
        s.hasUserMessage user.id message.id && stillAccessible s user message
      hasFlags := true
      wheres := []
      usesFlags := false }

/-- The loop of `add_narrow_conditions`: the operands of searches are collected. -/
def addTerms : Narrowed → List String → List NarrowParameter →
    Except NarrowError (Narrowed × List String)
  | narrowed, searchOperands, [] => .ok (narrowed, searchOperands)
  | narrowed, searchOperands, term :: terms =>
    if term.operator = "search" then
      addTerms narrowed (searchOperands ++ [term.operand.str]) terms
    else do
      let narrowed ← addTerm engine s narrowed.1 narrowed.2 term
      addTerms narrowed searchOperands terms

/-- `add_narrow_conditions`: the query, whether it is a search, and whether it is of direct
messages. -/
def addNarrowConditions (query : Query)
    (narrow : Option (List NarrowParameter)) (isWebPublicQuery : Bool) (realmId : ℕ) :
    Except NarrowError (Query × Bool × Bool) :=
  match narrow with
  | none => .ok (query, false, false)
  | some terms => do
    let builder : NarrowBuilder := ⟨userProfile, realmId, isWebPublicQuery, false, false⟩
    let (narrowed, searchOperands) ← addTerms engine s (builder, query) [] terms
    if searchOperands.isEmpty then return (narrowed.2, false, narrowed.1.isDmNarrow)
    else
      let narrowed :=
        bySearch engine s narrowed.1 narrowed.2 (" ".intercalate searchOperands) false
      return (narrowed.2, true, narrowed.1.isDmNarrow)

/-! ## Anchors -/

/-- The query of a user's rows, for a narrow whose query does not have them. -/
def queryWithFlags (narrow : Option (List NarrowParameter)) (query : Query)
    (isDmNarrow needUserMessage : Bool) : Except NarrowError (Query × Bool) :=
  if needUserMessage then .ok (query, isDmNarrow)
  else do
    let query ← getBaseQueryForSearch s user.realmId (some user) true
    let (query, _, isDmNarrow) ←
      addNarrowConditions engine s (some user) query narrow false user.realmId
    return (query, isDmNarrow)

def findFirstUnreadAnchor
    (narrow : Option (List NarrowParameter)) (query : Query) (isDmNarrow needUserMessage : Bool) :
    Except NarrowError ℤ :=
  match userProfile with
  | none => .ok largerThanMaxMessageId
  | some user => do
    let (query, isDmNarrow) ← queryWithFlags engine s user narrow query isDmNarrow needUserMessage
    let muting := if isDmNarrow then []
      else excludeMutingConditions engine s user (narrow.getD [])
    let rows ← (query.filteredByFlags (Condition.of fun message =>
      !(s.flags user.id message.id).read && muting.all (· message))).execute
    match rows with
    | first :: _ => return (first.id : ℤ)
    | [] => return largerThanMaxMessageId

def findDateAnchor (anchorDate : ℤ) (query : Query) : Except NarrowError (Option ℤ) := do
  let rows ← query.execute
  let sorted := rows.insertionSort fun m m' =>
    s.dateSent m.id < s.dateSent m'.id ∨ (s.dateSent m.id = s.dateSent m'.id ∧ m.id ≤ m'.id)
  match sorted.find? fun message => anchorDate ≤ s.dateSent message.id with
  | some message => return some (message.id : ℤ)
  | none => return sorted.getLast?.map fun message => (message.id : ℤ)

/-! ## Ranges -/

variable (rows : List Message)

/-- `limit_query_to_range`, of rows in the order of their ids. -/
def limitQueryToRange (numBefore numAfter : ℕ) (anchor : ℤ)
    (includeAnchor anchoredToLeft anchoredToRight : Bool) (firstVisibleMessageId : ℕ) :
    List Message :=
  let needBeforeQuery := !anchoredToLeft && decide (0 < numBefore)
  let needAfterQuery := !anchoredToRight && decide (0 < numAfter)
  let needBothSides := needBeforeQuery && needAfterQuery
  let beforeAnchor := if needBothSides || !includeAnchor then anchor - 1 else anchor
  let afterAnchor := max (if needBothSides || includeAnchor then anchor else anchor + 1)
    (firstVisibleMessageId : ℤ)
  let beforeLimit :=
    if needBothSides || anchoredToRight || !includeAnchor then numBefore else numBefore + 1
  let afterLimit := if needBothSides || includeAnchor then numAfter + 1 else numAfter
  let beforeQuery := ((rows.filter fun message =>
    anchoredToRight || decide ((message.id : ℤ) ≤ beforeAnchor)).reverse.take beforeLimit)
  let afterQuery := (rows.filter fun message =>
    anchoredToLeft || decide (afterAnchor ≤ (message.id : ℤ))).take afterLimit
  if needBothSides then beforeQuery ++ afterQuery
  else if needBeforeQuery then beforeQuery
  else if needAfterQuery then afterQuery
  else rows.filter fun message => (message.id : ℤ) = anchor

/-- `rows[-n:]`, unless `n` is zero, when nothing is cut. -/
def lastRows (n : ℕ) : List Message :=
  if n = 0 then rows else rows.drop (rows.length - n)

/-- `rows[:n]`, unless `n` is zero. -/
def firstRows (n : ℕ) : List Message :=
  if n = 0 then rows else rows.take n

/-- The rows that the user's plan shows. -/
def visibleRows (firstVisibleMessageId : ℕ) : List Message :=
  if 0 < firstVisibleMessageId then
    rows.filter fun message => decide (firstVisibleMessageId ≤ message.id)
  else rows

/-- `post_process_limited_query`, of a fetch that included history or not. -/
def postProcessLimitedQuery (numBefore numAfter : ℕ) (anchor : ℤ)
    (anchoredToLeft anchoredToRight : Bool) (firstVisibleMessageId : ℕ)
    (includeHistory isSearch : Bool) : FetchedMessages :=
  let visible := visibleRows rows firstVisibleMessageId
  let numAfter := if anchoredToRight then 0 else numAfter
  let beforeRows := lastRows (if anchoredToRight then visible
    else visible.filter fun message => (message.id : ℤ) < anchor) numBefore
  let anchorRows := if anchoredToRight then []
    else visible.filter fun message => (message.id : ℤ) = anchor
  let afterRows := firstRows (if anchoredToRight then []
    else visible.filter fun message => anchor < (message.id : ℤ)) numAfter
  let foundOldest := anchoredToLeft || decide (beforeRows.length < numBefore)
  { rows := beforeRows ++ anchorRows ++ afterRows
    foundAnchor := anchorRows.length = 1
    foundOldest := foundOldest
    foundNewest := anchoredToRight || decide (afterRows.length < numAfter)
    historyLimited := decide (visible.length ≠ rows.length) && foundOldest
    anchor := some anchor
    includeHistory := includeHistory
    isSearch := isSearch }

/-- What is returned without rows. -/
def noMessages (foundAll includeHistory isSearch : Bool) : FetchedMessages where
  rows := []
  foundAnchor := false
  foundNewest := foundAll
  foundOldest := foundAll
  historyLimited := false
  anchor := some largerThanMaxMessageId
  includeHistory := includeHistory
  isSearch := isSearch

/-- The value of the anchor, which a date may not have. -/
def anchorValue (narrow : Option (List NarrowParameter))
    (query : Query) (isDmNarrow needUserMessage : Bool) : AnchorInfo → Except NarrowError (Option ℤ)
  | .messageId value => .ok (some value)
  | .date value => findDateAnchor s value query
  | .firstUnread => do
    let anchor ← findFirstUnreadAnchor engine s userProfile narrow query isDmNarrow needUserMessage
    return some anchor

/-- The part of `fetch_messages` about a range. -/
def fetchRange (anchor : ℤ) (includeAnchor : Bool)
    (numBefore numAfter firstVisibleMessageId : ℕ) (includeHistory isSearch : Bool) :
    FetchedMessages :=
  let anchoredToLeft := decide (anchor = 0)
  let anchoredToRight := decide (largerThanMaxMessageId ≤ anchor)
  let numAfter := if anchoredToRight then 0 else numAfter
  let rows := (limitQueryToRange rows numBefore numAfter anchor includeAnchor anchoredToLeft
    anchoredToRight firstVisibleMessageId).insertionSort fun m m' => m.id ≤ m'.id
  postProcessLimitedQuery rows numBefore numAfter anchor anchoredToLeft anchoredToRight
    firstVisibleMessageId includeHistory isSearch

/-- The part of `fetch_messages` after the query is built. -/
def fetchRows (narrow : Option (List NarrowParameter))
    (realmId : ℕ) (query : Query) (isSearch isDmNarrow includeHistory : Bool)
    (anchorInfo : AnchorInfo) (includeAnchor : Bool) (numBefore numAfter : ℕ)
    (clientRequestedMessageIds : Option (List ℕ)) : Except NarrowError FetchedMessages :=
  let firstVisibleMessageId := s.firstVisibleMessageId realmId
  match clientRequestedMessageIds with
  | some ids => do
    let rows ← (query.filtered (Condition.of fun message => decide (message.id ∈ ids))).execute
    return {
      rows := visibleRows rows firstVisibleMessageId
      foundAnchor := false
      foundNewest := false
      foundOldest := false
      historyLimited := false
      anchor := none
      includeHistory := includeHistory
      isSearch := isSearch }
  | none => do
    let anchor ← anchorValue engine s userProfile narrow query isDmNarrow (!includeHistory)
      anchorInfo
    match anchor with
    | none => return noMessages false includeHistory isSearch
    | some anchor =>
      let rows ← query.execute
      return fetchRange rows anchor includeAnchor numBefore numAfter firstVisibleMessageId
        includeHistory isSearch

def fetchMessages (narrow : Option (List NarrowParameter)) (userProfile : Option UserProfile)
    (realmId : ℕ) (isWebPublicQuery : Bool) (anchorInfo : Option AnchorInfo)
    (includeAnchor : Bool) (numBefore numAfter : ℕ)
    (clientRequestedMessageIds : Option (List ℕ)) : Except NarrowError FetchedMessages :=
  if accessNarrowFails engine s userProfile narrow isWebPublicQuery realmId then
    .ok (noMessages true false false)
  else do
    let includeHistory ← okToIncludeHistory engine s narrow userProfile isWebPublicQuery
    let query ← getBaseQueryForSearch s realmId userProfile (!includeHistory)
    let (query, isSearch, isDmNarrow) ←
      addNarrowConditions engine s userProfile query narrow isWebPublicQuery realmId
    fetchRows engine s userProfile narrow realmId query isSearch isDmNarrow includeHistory
      (anchorInfo.getD .firstUnread) includeAnchor numBefore numAfter clientRequestedMessageIds

end Fetch

end GrowTeam.Narrow
