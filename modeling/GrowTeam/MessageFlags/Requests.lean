/-
# Requests that change flags (`zerver/actions/message_flags.py`, `zerver/lib/user_message.py`)

The rows of one user, and the requests of this user to add a flag to some messages or to remove it.
A message for which the user has no row counts as read and historical; the row is made when a flag
of it has to differ.  Other operations make rows as well and leave those that exist alone.  Each
statement of a transaction is one step.  It waits for the rows and for the keys that another
transaction has locked, and what it writes is seen by others when it is committed.
-/
import GrowTeam.History

namespace GrowTeam.MessageFlags

open History Function

/-- `AbstractUserMessage.ALL_FLAGS`. -/
inductive Flag where
  | read
  | starred
  | collapsed
  | mentioned
  | streamWildcardMentioned
  | topicWildcardMentioned
  | groupMentioned
  | forceExpand
  | forceCollapse
  | hasAlertWord
  | historical
  | isPrivate
  | activeMobilePushNotification
  deriving DecidableEq

/-- The flags by their names, in the order of the bit field. -/
def allFlags : List (String × Flag) :=
  [("read", .read), ("starred", .starred), ("collapsed", .collapsed), ("mentioned", .mentioned),
    ("stream_wildcard_mentioned", .streamWildcardMentioned),
    ("topic_wildcard_mentioned", .topicWildcardMentioned), ("group_mentioned", .groupMentioned),
    ("force_expand", .forceExpand), ("force_collapse", .forceCollapse),
    ("has_alert_word", .hasAlertWord), ("historical", .historical), ("is_private", .isPrivate),
    ("active_mobile_push_notification", .activeMobilePushNotification)]

def nonApiFlags : List Flag := [.isPrivate, .activeMobilePushNotification]

def nonEditableFlags : List Flag :=
  [.hasAlertWord, .mentioned, .streamWildcardMentioned, .topicWildcardMentioned, .groupMentioned,
    .historical, .forceExpand, .forceCollapse]

/-- A bit field: each flag is set or not. -/
abbrev Bits := Flag → Bool

/-- `flags & ~attr | target`, where the target is the flag or nothing. -/
def Bits.set (flags : Bits) (flag : Flag) (target : Bool) : Bits :=
  update flags flag target

def defaultHistoricalFlags : Bits := fun flag => flag = .historical || flag = .read

/-- The arguments of `do_update_message_flags`. -/
structure Request where
  operation : String
  flag : String
  messages : List ℕ

/-- A request that passed the checks. -/
structure Change where
  flag : Flag
  isAdding : Bool
  messages : List ℕ

/-- The checks of a request. -/
def checkRequest (r : Request) : Except String Change :=
  match (allFlags.filter fun f => f.2 ∉ nonApiFlags).find? fun f => f.1 = r.flag with
  | none => .error ("Invalid flag: '" ++ r.flag ++ "'")
  | some (name, flag) =>
    if flag ∈ nonEditableFlags then .error ("Flag not editable: '" ++ name ++ "'")
    else if r.operation ∉ ["add", "remove"] then
      .error ("Invalid message flag operation: '" ++ r.operation ++ "'")
    else .ok ⟨flag, r.operation = "add", r.messages⟩

/-- What a transaction does: change a flag, or make rows where there are none. -/
inductive Op where
  | change (c : Change)
  | create (flags : Bits) (messages : List ℕ)

/-- The statements that are done, and the variables `messages` and `ums`, of which the keys. -/
inductive Stage where
  | start
  | filtered (messages : List ℕ)
  | selected (messages ums : List ℕ)
  | accessed (messages ums : List ℕ)
  | inserted (messages ums : List ℕ)
  | updated (messages : List ℕ)

/-- A transaction that is open, with what it has written. -/
structure Transaction where
  op : Op
  stage : Stage
  writes : ℕ → Option Bits

/-- The committed rows of the user by message, who holds the lock of a row or of the key of a row
that is being inserted, and the open transactions. -/
structure Database where
  rows : ℕ → Option Bits
  locks : ℕ → Option ℕ
  transactions : ℕ → Option Transaction

/-- What does not change: which messages are in channels the user is not subscribed to, and what
`bulk_access_messages` lets through of some messages, by the rows there are. -/
structure Site where
  inUnsubscribedStream : ℕ → Bool
  bulkAccessMessages : (ℕ → Bool) → List ℕ → List ℕ

/-- The operation that was committed, with the messages that its event names. -/
structure Done where
  op : Op
  messages : List ℕ

inductive Answer where
  | ok
  | waits
  | error (message : String)
  | committed (done : Done)

namespace Database

variable (d : Database)

/-- No other transaction holds a lock. -/
def free (i : ℕ) (messages : List ℕ) : Bool :=
  messages.all fun m => d.locks m = none || d.locks m = some i

/-- The transaction goes on, with more locks. -/
def proceed (i : ℕ) (t : Transaction) (messages : List ℕ) : Database :=
  { d with
    locks := fun m => if m ∈ messages then some i else d.locks m
    transactions := update d.transactions i (some t) }

/-- The transaction ends, and leaves these rows. -/
def finish (i : ℕ) (rows : ℕ → Option Bits) : Database where
  rows := rows
  locks := fun m => if d.locks m = some i then none else d.locks m
  transactions := update d.transactions i none

/-- The rows with what a transaction has written. -/
def written (t : Transaction) (m : ℕ) : Option Bits := (t.writes m).or (d.rows m)

/-- The flags of a row, or those that a message without a row counts as having. -/
def flagsOf (rows : ℕ → Option Bits) (m : ℕ) : Bits := (rows m).getD defaultHistoricalFlags

end Database

/-- The messages without rows, that get one. -/
def historicalMessageIds (messages ums : List ℕ) : List ℕ :=
  (messages.filter fun m => m ∉ ums).dedup

/-- The messages of a request that it may change: no message becomes unread in a channel to which
the user is not subscribed. -/
def Change.considered (site : Site) (c : Change) : List ℕ :=
  if c.flag = .read && !c.isAdding then
    c.messages.filter fun m => !site.inUnsubscribedStream m
  else c.messages

/-- The insertion of `create_historical_user_messages`, for a message. -/
def Change.upsert (c : Change) (row : Option Bits) : Bits :=
  let flags := defaultHistoricalFlags.set c.flag c.isAdding
  match row with
  | none => flags
  -- `excluded.flags & ~ mask | attr`
  | some _ => flags.set c.flag c.isAdding

/-- The next statement of a request to change a flag. -/
def changeStatement (site : Site) (d : Database) (i : ℕ) (t : Transaction) (c : Change) :
    Answer × Database :=
  match t.stage with
  | .start => (.ok, d.proceed i { t with stage := .filtered (c.considered site) } [])
  | .filtered messages =>
    let ums := messages.filter fun m => (d.rows m).isSome
    if d.free i ums then
      let messages := messages.filter fun m => Database.flagsOf d.rows m c.flag ≠ c.isAdding
      (.ok, d.proceed i { t with stage := .selected messages ums } ums)
    else (.waits, d)
  | .selected messages ums =>
    if defaultHistoricalFlags c.flag = c.isAdding then
      (.ok, d.proceed i { t with stage := .inserted messages ums } [])
    else
      let historical := historicalMessageIds messages ums
      if (site.bulkAccessMessages (fun m => (d.rows m).isSome) historical).length =
          historical.length then
        (.ok, d.proceed i { t with stage := .accessed messages ums } [])
      else (.error "Invalid message(s)", d.finish i d.rows)
  | .accessed messages ums =>
    let historical := historicalMessageIds messages ums
    if d.free i historical then
      let writes := fun m => if m ∈ historical then some (c.upsert (d.rows m)) else t.writes m
      (.ok, d.proceed i { t with stage := .inserted messages ums, writes := writes } historical)
    else (.waits, d)
  | .inserted messages ums =>
    let toUpdate := messages.filter fun m => m ∈ ums
    let writes := fun m =>
      if m ∈ toUpdate then (d.written t m).map (·.set c.flag c.isAdding) else t.writes m
    (.ok, d.proceed i { t with stage := .updated messages, writes := writes } [])
  | .updated messages => (.committed ⟨.change c, messages⟩, d.finish i (d.written t))

/-- The next statement of an operation that makes rows: an insertion that does nothing where there
is a row. -/
def createStatement (d : Database) (i : ℕ) (t : Transaction) (flags : Bits) (messages : List ℕ) :
    Answer × Database :=
  match t.stage with
  | .start =>
    let missing := messages.filter fun m => (d.rows m).isNone
    if d.free i missing then
      let writes := fun m => if m ∈ missing then some flags else none
      (.ok, d.proceed i { t with stage := .updated [], writes := writes } missing)
    else (.waits, d)
  | _ => (.committed ⟨.create flags messages, []⟩, d.finish i (d.written t))

/-- What happens to the rows of the user. -/
inductive Move where
  | request (i : ℕ) (r : Request)
  | create (i : ℕ) (flags : Bits) (messages : List ℕ)
  | next (i : ℕ)

def step (site : Site) (move : Move) (d : Database) : Answer × Database :=
  match move with
  | .request i r =>
    match d.transactions i, checkRequest r with
    | none, .ok c => (.ok, d.proceed i ⟨.change c, .start, fun _ => none⟩ [])
    | none, .error message => (.error message, d)
    | some _, _ => (.waits, d)
  | .create i flags messages =>
    match d.transactions i with
    | none => (.ok, d.proceed i ⟨.create flags messages, .start, fun _ => none⟩ [])
    | some _ => (.waits, d)
  | .next i =>
    match d.transactions i with
    | none => (.waits, d)
    | some t =>
      match t.op with
      | .change c => changeStatement site d i t c
      | .create flags messages => createStatement d i t flags messages

end GrowTeam.MessageFlags
