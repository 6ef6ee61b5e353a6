/-
# The messages of a view (`web/src/message_list_data.ts`, `web/src/fetch_status.ts`)

A message is an object that all lists share, so replacing its id shows in all of them.  The ids of
locally echoed messages are fractional, those of the server are not.  Which messages are muted is
kept elsewhere; `mutes` is what `_items` was filtered with.
-/
import GrowTeam.History
import Mathlib.Data.List.Sort
import Mathlib.Data.Rat.Defs
import Mathlib.Algebra.Order.Ring.Rat

namespace GrowTeam.MessageList

inductive Content where
  | stream (streamId : ℕ) (topic : String) (mentioned : Bool)
  | direct (toUserIds : List ℕ)
  deriving DecidableEq

structure Message where
  id : ℚ
  content : Content
  deriving DecidableEq

/-- `user_topics` and `muted_users`. -/
structure Mutes where
  isTopicVisibleInHome : ℕ → String → Bool
  isTopicMuted : ℕ → String → Bool
  isUserMuted : ℕ → Bool

/-- The arguments of the constructor, with what is asked of the filter. -/
structure Settings where
  excludesMutedTopics : Bool
  excludesMutedUsers : Bool
  isInHome : Bool
  predicate : Message → Bool

/-! ## `FetchStatus` -/

def maxIdForMessages (messages : List Message) : ℚ :=
  messages.foldl (fun maxId msg => if maxId < msg.id then msg.id else maxId) 0

structure FetchStatus where
  loadingOlder : Bool
  loadingNewer : Bool
  foundOldest : Bool
  foundNewest : Bool
  historyLimited : Bool
  expectedMaxMessageId : ℚ

namespace FetchStatus

def initial : FetchStatus := ⟨false, false, false, false, false, 0⟩

variable (s : FetchStatus)

def startOlderBatch : FetchStatus := { s with loadingOlder := true }

def finishOlderBatch (foundOldest historyLimited : Bool) : FetchStatus :=
  { s with loadingOlder := false, foundOldest := foundOldest, historyLimited := historyLimited }

def startNewerBatch : FetchStatus := { s with loadingNewer := true }

/-- Whether the caller has to fetch again. -/
def finishNewerBatch (messages : List Message) (foundNewest : Bool) : Bool × FetchStatus :=
  if foundNewest && maxIdForMessages messages < s.expectedMaxMessageId then
    (true, { s with loadingNewer := false, foundNewest := false, expectedMaxMessageId := 0 })
  else (false, { s with loadingNewer := false, foundNewest := foundNewest })

def updateExpectedMaxMessageId (messages : List Message) : FetchStatus :=
  let maxId := maxIdForMessages messages
  { s with
    expectedMaxMessageId := if s.expectedMaxMessageId < maxId then maxId
      else s.expectedMaxMessageId }

end FetchStatus

/-! ## `MessageListData` -/

def isLocalonlyId (id : ℚ) : Bool := id.den ≠ 1

structure MessageListData where
  settings : Settings
  mutes : Mutes
  fetchStatus : FetchStatus
  allItems : List Message
  items : List Message
  hash : ℚ → Option Message
  localOnly : ℚ → Bool
  selectedId : ℚ

/-- What `messages_filtered_for_topic_mutes` keeps. -/
def Settings.keepsTopic (s : Settings) (mutes : Mutes) (content : Content) : Bool :=
  !s.excludesMutedTopics ||
    match content with
    | .direct _ => true
    | .stream streamId topic mentioned =>
      if s.isInHome then mutes.isTopicVisibleInHome streamId topic
      else !mutes.isTopicMuted streamId topic || mentioned

/-- What `messages_filtered_for_user_mutes` keeps. -/
def Settings.keepsUsers (s : Settings) (mutes : Mutes) (content : Content) : Bool :=
  !s.excludesMutedUsers ||
    match content with
    | .stream _ _ _ => true
    | .direct toUserIds => !(toUserIds.filter fun u => !mutes.isUserMuted u).isEmpty

namespace MessageListData

/-- The constructor. -/
def new (settings : Settings) (mutes : Mutes) : MessageListData :=
  ⟨settings, mutes, .initial, [], [], fun _ => none, fun _ => false, -1⟩

variable (d : MessageListData) (messages : List Message)

def unmutedMessages : List Message :=
  (messages.filter fun msg => d.settings.keepsUsers d.mutes msg.content).filter fun msg =>
    d.settings.keepsTopic d.mutes msg.content

def updateItemsForMuting (mutes : Mutes) : MessageListData :=
  let d := { d with mutes := mutes }
  { d with items := d.unmutedMessages d.allItems }

/-- `_local_only` stays as it is. -/
def clear : MessageListData := { d with allItems := [], items := [], hash := fun _ => none }

def validNonDuplicatedMessages : List Message :=
  messages.filter fun msg => d.hash msg.id = none && d.settings.predicate msg

/-- The order of `sort((a, b) => a.id - b.id)`. -/
def idLe (a b : Message) : Prop := a.id ≤ b.id

instance instDecidableRelIdLe : DecidableRel idLe :=
  fun a b => inferInstanceAs (Decidable (a.id ≤ b.id))

def sortById : List Message := messages.insertionSort idLe

def addToHash : List Message → MessageListData → MessageListData
  | [], d => d
  | msg :: messages, d =>
    let d := if isLocalonlyId msg.id then
      { d with localOnly := Function.update d.localOnly msg.id true } else d
    addToHash messages
      (if (d.hash msg.id).isSome then d
       else { d with hash := Function.update d.hash msg.id (some msg) })

def addAnywhere : MessageListData :=
  addToHash messages { d with
    allItems := sortById (messages ++ d.allItems)
    items := sortById (d.unmutedMessages messages ++ d.items) }

def append : MessageListData :=
  addToHash messages { d with
    allItems := d.allItems ++ messages
    items := d.items ++ d.unmutedMessages messages }

def prepend : MessageListData :=
  addToHash messages { d with
    allItems := messages ++ d.allItems
    items := d.unmutedMessages messages ++ d.items }

/-- The message goes after all others. -/
def isBottom (msg : Message) : Bool :=
  match d.allItems.getLast? with
  | none => true
  | some last => last.id < msg.id

def isTop (msg : Message) : Bool :=
  !d.isBottom msg &&
    match d.allItems.head? with
    | none => false
    | some first => msg.id < first.id

/-- An addition that is made when there is something to add. -/
def whenAny (add : MessageListData → List Message → MessageListData) : MessageListData :=
  if messages = [] then d else add d messages

/-- The messages to be added at the bottom, and those that are. -/
def addMessages (isContiguousHistory : Bool) : MessageListData :=
  let messages := d.validNonDuplicatedMessages messages
  let bottom := messages.filter d.isBottom
  let top := messages.filter d.isTop
  let interior := messages.filter fun msg => !d.isBottom msg && !d.isTop msg
  let d := (d.whenAny interior addAnywhere).whenAny top prepend
  if !isContiguousHistory && !d.fetchStatus.foundNewest then
    { d with fetchStatus := d.fetchStatus.updateExpectedMaxMessageId bottom }
  else d.whenAny bottom append

/-- Whether anything was found. -/
def remove (messageIds : List ℚ) : Bool × MessageListData :=
  (messageIds.any fun id => (d.hash id).isSome || d.localOnly id,
    { d with
      hash := fun id => if id ∈ messageIds then none else d.hash id
      localOnly := fun id => decide (id ∉ messageIds) && d.localOnly id
      items := d.items.filter fun msg => msg.id ∉ messageIds
      allItems := d.allItems.filter fun msg => msg.id ∉ messageIds })

/-- The next message with an id of the server, forwards from an index. -/
def nextNonlocal (index : ℕ) : Option Message :=
  (messages.drop index).find? fun msg => !isLocalonlyId msg.id

/-- The message with an id of the server before an index. -/
def prevNonlocal (index : ℕ) : Option Message :=
  (messages.take index).reverse.find? fun msg => !isLocalonlyId msg.id

/-- The test of `reorder_messages`: a visible neighbour is on the wrong side.  The index of a
message that is not visible is -1. -/
def outOfOrder (msg : Message) : Bool :=
  let next := match d.items.findIdx? (· = msg) with
    | some index => nextNonlocal d.items (index + 1)
    | none => nextNonlocal d.items 0
  let prev := match d.items.findIdx? (· = msg) with
    | some index => prevNonlocal d.items index
    | none => none
  next.any (fun next => next.id < msg.id) || prev.any fun prev => msg.id < prev.id

def reorderMessages (newId : ℚ) : Bool × MessageListData :=
  match d.hash newId with
  | none => (false, d)
  | some msg =>
    if d.outOfOrder msg then
      (true, { d with items := sortById d.items, allItems := sortById d.allItems })
    else (false, d)

/-- The id of the message is replaced, in every list. -/
def replaceId (oldId newId : ℚ) : MessageListData :=
  let replace := fun msg : Message => if msg.id = oldId then { msg with id := newId } else msg
  { d with
    allItems := d.allItems.map replace
    items := d.items.map replace
    hash := fun id => (d.hash id).map replace }

def changeMessageId (oldId newId : ℚ) : Bool × MessageListData :=
  match d.hash oldId with
  | none => (false, d)
  | some msg =>
    let hash := Function.update (Function.update d.hash oldId none) newId (some msg)
    let localOnly := if d.localOnly oldId then
        Function.update
          (if isLocalonlyId newId then Function.update d.localOnly newId true else d.localOnly)
          oldId false
      else d.localOnly
    let selectedId := if d.selectedId = oldId then newId else d.selectedId
    reorderMessages { d with hash := hash, localOnly := localOnly, selectedId := selectedId } newId

end MessageListData

/-- What is done to the messages of a view.  The id of a message is replaced before
`change_message_id` is called. -/
inductive Op where
  | addMessages (messages : List Message) (isContiguousHistory : Bool)
  | remove (messageIds : List ℚ)
  | changeMessageId (oldId newId : ℚ)
  | updateItemsForMuting (mutes : Mutes)
  | foundNewest (found : Bool)
  | clear

def step (op : Op) (d : MessageListData) : Unit × MessageListData :=
  match op with
  | .addMessages messages isContiguousHistory => ((), d.addMessages messages isContiguousHistory)
  | .remove messageIds => ((), (d.remove messageIds).2)
  | .changeMessageId oldId newId => ((), ((d.replaceId oldId newId).changeMessageId oldId newId).2)
  | .updateItemsForMuting mutes => ((), d.updateItemsForMuting mutes)
  | .foundNewest found => ((), { d with fetchStatus := { d.fetchStatus with foundNewest := found } })
  | .clear => ((), d.clear)

end GrowTeam.MessageList

/-! # Fetching the messages of a view (`web/src/message_fetch.ts`; `zerver/lib/narrow.py`) -/

namespace GrowTeam.MessageFetch

open MessageList

/-! ## The server -/

/-- `anchor`; the server finds the one for `first_unread` and for a date. -/
inductive Anchor where
  | id (id : ℚ)
  | oldest
  | newest
  | found
  deriving DecidableEq

structure Response where
  messages : List Message
  foundOldest : Bool
  foundNewest : Bool

/-- The last messages of a list. -/
def lastOf (n : ℕ) (rows : List Message) : List Message := rows.drop (rows.length - n)

/-- `post_process_limited_query` for an anchor in the middle. -/
def around (rows : List Message) (anchor : ℚ) (numBefore numAfter : ℕ) : Response :=
  let before := lastOf numBefore (rows.filter fun msg => msg.id < anchor)
  let after := (rows.filter fun msg => anchor < msg.id).take numAfter
  ⟨before ++ rows.filter (fun msg => msg.id = anchor) ++ after, before.length < numBefore,
    after.length < numAfter⟩

/-- The same when `anchored_to_right`. -/
def latest (rows : List Message) (numBefore : ℕ) : Response :=
  let before := lastOf numBefore rows
  ⟨before, before.length < numBefore, true⟩

/-- The answer to a query; `anchor` is what the server has found, `none` for the newest message. -/
def fetchMessages (visible : List Message) (anchor : Anchor) (numBefore numAfter : ℕ)
    (found : Option ℚ) : Response :=
  let rows := MessageListData.sortById visible
  match anchor with
  | .id id => around rows id numBefore numAfter
  | .oldest => { around rows 0 numBefore numAfter with foundOldest := true }
  | .newest => latest rows numBefore
  | .found =>
    match found with
    | some id => around rows id numBefore numAfter
    | none => latest rows numBefore

/-! ## The client -/

/-- The options of `load_messages`, and the response when the server has made it. -/
structure Fetch where
  anchor : Anchor
  numBefore : ℕ
  numAfter : ℕ
  response : Option Response

/-- How a view begins: `load_messages_for_narrow`, `load_messages_around_anchor` or, for
`recent_view_messages_data`, `initialize`. -/
inductive Opening where
  | narrow (anchor : Anchor)
  | aroundAnchor (anchor : Anchor)
  | recentView
  deriving DecidableEq

def Opening.fetch : Opening → Fetch
  | .narrow anchor => ⟨anchor, 60, 150, none⟩
  | .aroundAnchor anchor => ⟨anchor, 100, 100, none⟩
  | .recentView => ⟨.newest, 1000, 0, none⟩

structure View where
  visible : List Message
  pending : List Message
  opening : Option Opening
  data : MessageListData
  fetches : List Fetch

def View.start (settings : Settings) (mutes : Mutes) : View :=
  ⟨[], [], none, .new settings mutes, []⟩

namespace View

variable (s : View)

def loadMessages (fetch : Fetch) : View :=
  let status := s.data.fetchStatus
  let status := if 0 < fetch.numBefore then status.startOlderBatch else status
  let status := if 0 < fetch.numAfter then status.startNewerBatch else status
  { s with data := { s.data with fetchStatus := status }, fetches := s.fetches ++ [fetch] }

/-- `get_backfill_anchor` -/
def backfillAnchor : Anchor :=
  match s.data.allItems.head? with
  | some msg => .id msg.id
  | none => .found

/-- `get_frontfill_anchor` -/
def frontfillAnchor : Anchor :=
  match s.data.allItems.getLast? with
  | some msg => .id msg.id
  | none => .oldest

def maybeLoadOlderMessages (numBefore : ℕ) : View :=
  let status := s.data.fetchStatus
  if !status.loadingOlder && !status.foundOldest then
    s.loadMessages ⟨s.backfillAnchor, numBefore, 0, none⟩
  else s

def maybeLoadNewerMessages : View :=
  let status := s.data.fetchStatus
  if !status.loadingNewer && !status.foundNewest then
    s.loadMessages ⟨s.frontfillAnchor, 0, 100, none⟩
  else s

/-- `get_messages_success`; whether to fetch again is up to who has called `load_messages`. -/
def getMessagesSuccess (fetch : Fetch) (response : Response) : MessageListData :=
  let status := s.data.fetchStatus
  let currentFetchFoundOldest := !status.foundOldest && response.foundOldest
  let currentFetchFoundNewest := !status.foundNewest && response.foundNewest
  let status := if decide (0 < fetch.numBefore) || currentFetchFoundOldest then
    status.finishOlderBatch response.foundOldest false else status
  let status := if decide (0 < fetch.numAfter) || currentFetchFoundNewest then
    (status.finishNewerBatch response.messages response.foundNewest).2 else status
  let data := { s.data with fetchStatus := status }
  if response.messages = [] then data else data.addMessages response.messages true

/-- The events of a batch, which are sorted by id; before the view is opened they do not concern
it. -/
def insertNewMessages (messages : List Message) : View :=
  { s with
    pending := s.pending.filter fun msg => !messages.contains msg
    data := if s.opening = none then s.data else s.data.addMessages (MessageListData.sortById messages) false }

end View

inductive Input where
  /-- A message that matches becomes visible. -/
  | commit (id : ℕ) (content : Content)
  | events (messages : List Message)
  | openView (opening : Opening)
  | loadOlder (numBefore : ℕ)
  | loadNewer
  /-- The server answers a fetch. -/
  | answer (fetch : ℕ) (found : Option ℚ)
  /-- The response arrives. -/
  | receive (fetch : ℕ)
  /-- The server refuses a fetch, and the client gives it up. -/
  | refuse (fetch : ℕ)

/-- A message that the server may give this id. -/
def View.accepts (s : View) (id : ℕ) (content : Content) : Bool :=
  decide (0 < id) && s.data.settings.predicate ⟨id, content⟩ &&
    s.visible.all fun msg => decide (msg.id ≠ id)

def step (input : Input) (s : View) : Unit × View :=
  match input with
  | .commit id content =>
    if s.accepts id content then
      ((), { s with visible := s.visible ++ [⟨id, content⟩], pending := s.pending ++ [⟨id, content⟩] })
    else ((), s)
  | .events messages =>
    if messages.Nodup ∧ messages.all fun msg => s.pending.contains msg then
      ((), s.insertNewMessages messages)
    else ((), s)
  | .openView opening =>
    if s.opening = none then
      ((), View.loadMessages { s with opening := some opening } opening.fetch)
    else ((), s)
  | .loadOlder numBefore =>
    if s.opening = none ∨ numBefore = 0 then ((), s)
    else ((), s.maybeLoadOlderMessages numBefore)
  | .loadNewer =>
    -- `recent_view_messages_data` is no `MessageList`.
    if s.opening = none ∨ s.opening = some .recentView then ((), s)
    else ((), s.maybeLoadNewerMessages)
  | .answer i found =>
    ((), { s with fetches := s.fetches.modify i fun fetch =>
      if fetch.response.isSome then fetch
      else { fetch with
        response := some (fetchMessages s.visible fetch.anchor fetch.numBefore fetch.numAfter found) } })
  | .receive i =>
    match s.fetches[i]? with
    | none => ((), s)
    | some fetch =>
      match fetch.response with
      | none => ((), s)
      | some response =>
        ((), { s with data := s.getMessagesSuccess fetch response, fetches := s.fetches.eraseIdx i })
  | .refuse i =>
    match s.fetches[i]? with
    | none => ((), s)
    | some fetch =>
      if fetch.response.isSome then ((), s) else ((), { s with fetches := s.fetches.eraseIdx i })

end GrowTeam.MessageFetch
