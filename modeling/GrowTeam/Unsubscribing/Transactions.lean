/-
# Unread rows and subscriptions (`zerver/actions/`: `message_flags.py`, `message_send.py`,
`message_edit.py`, `streams.py`; `zerver/worker/deferred_work.py`)

The channel messages of a realm, the rows of its human users, their subscriptions, and the queue
`deferred_work` with what unsubscribing puts there.  Each statement of a transaction is one step.
It sees what is committed and what its own transaction has written, and waits for the rows and
messages that another has locked.  What it writes is seen by others when it is committed.

A move is one between two channels.  A query set of Django is a query of the statement that uses it:
who loses rows is found out by the deletion, and which other messages are moved by their update.
-/
import GrowTeam.History

namespace GrowTeam.Unsubscribing

open History

/-- A row of `UserMessage`, of its flags only `read`. -/
structure Row where
  userId : ℕ
  messageId : ℕ
  read : Bool
  deriving DecidableEq

/-- A channel message; `channel` is its recipient. -/
structure Message where
  id : ℕ
  channel : ℕ
  topic : String
  deriving DecidableEq

structure Subscription where
  userId : ℕ
  channel : ℕ
  active : Bool

/-- An item of `deferred_work` of the type `mark_stream_messages_as_read`, for one channel. -/
structure Work where
  id : ℕ
  userId : ℕ
  channel : ℕ
  deriving DecidableEq

/-- What can be locked. -/
inductive Key where
  | row (userId messageId : ℕ)
  | message (id : ℕ)
  | work (id : ℕ)
  deriving DecidableEq

/-- Which messages of a channel a user may move. -/
inductive Access where
  | none
  | withRow
  | all

/-- What does not change: how topics are compared, which channels show their history to who
subscribes, and the settings behind `bulk_access_messages` and
`bulk_access_stream_messages_query`. -/
structure Site where
  upper : String → String
  isHistoryPublicToSubscribers : ℕ → Bool
  bulkAccessMessages : ℕ → List Subscription → Message → Bool
  streamAccess : ℕ → List Subscription → ℕ → Access

inductive PropagateMode where
  | changeOne
  | changeLater
  | changeAll

/-! ## The requests, and what their transactions have done -/

/-- A message to a channel, with those for whom it is read at once and those who get no row because
they are long idle. -/
structure SendRequest where
  channel : ℕ
  topic : String
  markAsReadUserIds : List ℕ
  skippedUserIds : List ℕ

inductive SendStage where
  | start
  | informed (umEligibleUserIds : List ℕ)
  | created (message : Message) (umEligibleUserIds : List ℕ)
  | inserted (message : Message) (ums : List Row)

/-- `do_update_message_flags` for the flag `read`. -/
structure FlagsRequest where
  userId : ℕ
  isAdding : Bool
  messages : List ℕ

inductive FlagsStage where
  | start
  | subscribed (channels : List ℕ)
  | considered (messages : List ℕ)
  | selected (messages ums : List ℕ)
  | accessed (messages ums : List ℕ)
  | inserted (messages ums historical : List ℕ)
  | updated (messages toUpdate historical : List ℕ)

structure MoveRequest where
  userId : ℕ
  messageId : ℕ
  targetChannel : ℕ
  targetTopic : String
  propagateMode : PropagateMode

/-- Where the message was, and what the transaction has found out and written. -/
structure Moving where
  channel : ℕ
  topic : String
  gainingUserIds : List ℕ
  changedIds : List ℕ
  gained : List Row
  deleted : List (ℕ × ℕ)
  moved : List ℕ

inductive MoveStage where
  | start
  | locked (m : Moving)
  | gaining (m : Moving)
  | changed (m : Moving)
  | inserted (m : Moving)
  | deleted (m : Moving)
  | saved (m : Moving)
  | propagated (m : Moving)

inductive WorkStage where
  | start
  | selected (messageIds : List ℕ)
  | marked (messageIds : List ℕ)

/-- An open transaction.  For subscribing and unsubscribing the users and channels that are to be
changed are known after the first statement. -/
inductive Transaction where
  | subscribe (pairs : List (ℕ × ℕ)) (found : Option (List (ℕ × ℕ)))
  | unsubscribe (pairs : List (ℕ × ℕ)) (found : Option (List (ℕ × ℕ)))
  | send (r : SendRequest) (stage : SendStage)
  | updateFlags (r : FlagsRequest) (stage : FlagsStage)
  | move (r : MoveRequest) (stage : MoveStage)
  | markAsRead (w : Work) (stage : WorkStage)

/-- What is committed, the queue, the sequences of ids, the locks and the open transactions. -/
structure Database where
  messages : List Message
  rows : List Row
  subscriptions : List Subscription
  pending : List Work
  nextMessage : ℕ
  nextWork : ℕ
  locks : Key → Option ℕ
  transactions : ℕ → Option Transaction

inductive Answer where
  | ok
  | waits
  | error
  | committed (t : Transaction)

namespace Database

def isSubscribed (d : Database) (userId channel : ℕ) : Bool :=
  d.subscriptions.any fun s => s.userId = userId && s.channel = channel && s.active

def hasSubscription (d : Database) (userId channel : ℕ) : Bool :=
  d.subscriptions.any fun s => s.userId = userId && s.channel = channel

/-- The users with an active subscription. -/
def subscribers (d : Database) (channel : ℕ) : List ℕ :=
  (d.subscriptions.filter fun s => s.channel = channel && s.active).map (·.userId)

/-- All users with a subscription, active or not. -/
def allSubscribers (d : Database) (channel : ℕ) : List ℕ :=
  (d.subscriptions.filter fun s => s.channel = channel).map (·.userId)

/-- `get_subscribed_stream_recipient_ids_for_user` -/
def subscribedChannels (d : Database) (userId : ℕ) : List ℕ :=
  (d.subscriptions.filter fun s => s.userId = userId && s.active).map (·.channel)

/-- A message in a channel that is none of these. -/
def isElsewhere (d : Database) (channels : List ℕ) (messageId : ℕ) : Bool :=
  d.messages.any fun msg => msg.id = messageId && msg.channel ∉ channels

def isIn (d : Database) (channel messageId : ℕ) : Bool :=
  d.messages.any fun msg => msg.id = messageId && msg.channel = channel

/-- No other transaction holds a lock. -/
def free (d : Database) (i : ℕ) (keys : List Key) : Bool :=
  keys.all fun k => d.locks k = none || d.locks k = some i

/-- The transaction goes on, with more locks. -/
def proceed (d : Database) (i : ℕ) (t : Transaction) (keys : List Key) : Database :=
  { d with
    locks := fun k => if k ∈ keys then some i else d.locks k
    transactions := Function.update d.transactions i (some t) }

/-- It goes on when it has the locks. -/
def await (d : Database) (i : ℕ) (t : Transaction) (keys : List Key) : Answer × Database :=
  if d.free i keys then (.ok, d.proceed i t keys) else (.waits, d)

/-- The transaction ends. -/
def finish (d : Database) (i : ℕ) : Database :=
  { d with
    locks := fun k => if d.locks k = some i then none else d.locks k
    transactions := Function.update d.transactions i none }

end Database

def hasRow (rows : List Row) (userId messageId : ℕ) : Bool :=
  rows.any fun r => r.userId = userId && r.messageId = messageId

/-- An insertion that leaves the rows that exist. -/
def insertNew (rows new : List Row) : List Row :=
  rows ++ new.filter fun r => !hasRow rows r.userId r.messageId

/-! ## Moves -/

/-- The rows that the transaction of a move sees. -/
def Moving.view (m : Moving) (rows : List Row) : List Row :=
  (insertNew rows m.gained).filter fun r => !m.deleted.contains (r.userId, r.messageId)

variable (r : MoveRequest)

/-- `update_messages_for_topic_edit` -/
def MoveRequest.changes (site : Site) (d : Database) (m : Moving) (msg : Message) : Bool :=
  msg.channel = m.channel && site.upper msg.topic = site.upper m.topic &&
    (match r.propagateMode with
      | .changeOne => false
      | .changeLater => r.messageId < msg.id
      | .changeAll => msg.id ≠ r.messageId) &&
    match site.streamAccess r.userId d.subscriptions m.channel with
    | .none => false
    | .withRow => hasRow (m.view d.rows) r.userId msg.id
    | .all => true

def MoveRequest.changedMessages (site : Site) (d : Database) (m : Moving) : List ℕ :=
  r.messageId :: (d.messages.filter (r.changes site d m)).map (·.id)

/-- The next statement of a move. -/
def MoveRequest.statement (site : Site) (d : Database) (i : ℕ)
    (stage : MoveStage) : Answer × Database :=
  match stage with
  | .start =>
    match d.messages.find? fun msg => msg.id = r.messageId with
    | none => (.error, d.finish i)
    | some msg =>
      if msg.channel = r.targetChannel then (.error, d.finish i)
      else d.await i (.move r (.locked ⟨msg.channel, msg.topic, [], [], [], [], []⟩))
        [.message r.messageId]
  | .locked m =>
    let users :=
      if site.isHistoryPublicToSubscribers r.targetChannel then []
      else d.subscribers r.targetChannel
    (.ok, d.proceed i (.move r (.gaining { m with gainingUserIds := users })) [])
  | .gaining m =>
    let ids := r.changedMessages site d m
    (.ok, d.proceed i (.move r (.changed { m with changedIds := ids })) [])
  | .changed m =>
    let new := (m.gainingUserIds.flatMap fun userId =>
      m.changedIds.map fun messageId => ⟨userId, messageId, true⟩).filter fun um =>
        !hasRow d.rows um.userId um.messageId
    d.await i (.move r (.inserted { m with gained := new }))
      (new.map fun um => .row um.userId um.messageId)
  | .inserted m =>
    let losing := (d.allSubscribers m.channel).filter (· ∉ d.subscribers r.targetChannel)
    let changed := r.changedMessages site d m
    let keys := ((m.view d.rows).filter fun um =>
      um.userId ∈ losing && um.messageId ∈ changed).map fun um => (um.userId, um.messageId)
    d.await i (.move r (.deleted { m with deleted := keys })) (keys.map fun k => .row k.1 k.2)
  | .deleted m =>
    (.ok, d.proceed i (.move r (.saved { m with moved := [r.messageId] })) [])
  | .saved m =>
    let ids := (d.messages.filter (r.changes site d m)).map (·.id)
    d.await i (.move r (.propagated { m with moved := m.moved ++ ids })) (ids.map .message)
  | .propagated m =>
    (.committed (.move r (.propagated m)), { d.finish i with
      messages := d.messages.map fun msg =>
        if msg.id ∈ m.moved then ⟨msg.id, r.targetChannel, r.targetTopic⟩ else msg
      rows := m.view d.rows })

/-! ## Messages and flags -/

/-- The next statement of `do_send_messages`. -/
def SendRequest.statement (r : SendRequest) (d : Database) (i : ℕ) (stage : SendStage) :
    Answer × Database :=
  match stage with
  | .start =>
    let users := (d.subscribers r.channel).filter (· ∉ r.skippedUserIds)
    (.ok, d.proceed i (.send r (.informed users)) [])
  | .informed users =>
    (.ok, { d.proceed i (.send r (.created ⟨d.nextMessage, r.channel, r.topic⟩ users))
        [.message d.nextMessage] with
      nextMessage := d.nextMessage + 1 })
  | .created message users =>
    let ums := users.map fun userId => ⟨userId, message.id, userId ∈ r.markAsReadUserIds⟩
    (.ok, d.proceed i (.send r (.inserted message ums)) [])
  | .inserted message ums =>
    (.committed (.send r (.inserted message ums)), { d.finish i with
      messages := d.messages ++ [message]
      rows := d.rows ++ ums })

def historicalMessageIds (messages ums : List ℕ) : List ℕ := messages.filter (· ∉ ums)

/-- The flag of a message, of which the user may have no row. -/
def Database.isRead (d : Database) (userId messageId : ℕ) : Bool :=
  match d.rows.find? fun um => um.userId = userId && um.messageId = messageId with
  | none => true
  | some um => um.read

/-- The next statement of `do_update_message_flags`. -/
def FlagsRequest.statement (r : FlagsRequest) (site : Site) (d : Database) (i : ℕ)
    (stage : FlagsStage) : Answer × Database :=
  match stage with
  | .start =>
    if r.isAdding then (.ok, d.proceed i (.updateFlags r (.considered r.messages)) [])
    else (.ok, d.proceed i (.updateFlags r (.subscribed (d.subscribedChannels r.userId))) [])
  | .subscribed channels =>
    let messages := r.messages.filter fun m => !d.isElsewhere channels m
    (.ok, d.proceed i (.updateFlags r (.considered messages)) [])
  | .considered messages =>
    let ums := messages.filter fun m => hasRow d.rows r.userId m
    let messages := messages.filter fun m => d.isRead r.userId m ≠ r.isAdding
    d.await i (.updateFlags r (.selected messages ums)) (ums.map (.row r.userId))
  | .selected messages ums =>
    if r.isAdding then (.ok, d.proceed i (.updateFlags r (.inserted messages ums [])) [])
    else if (historicalMessageIds messages ums).all fun m => d.messages.any fun msg =>
        msg.id = m && site.bulkAccessMessages r.userId d.subscriptions msg then
      (.ok, d.proceed i (.updateFlags r (.accessed messages ums)) [])
    else (.error, d.finish i)
  | .accessed messages ums =>
    let historical := historicalMessageIds messages ums
    d.await i (.updateFlags r (.inserted messages ums historical))
      (historical.map (.row r.userId))
  | .inserted messages ums historical =>
    let toUpdate := messages.filter (· ∈ ums)
    (.ok, d.proceed i (.updateFlags r (.updated messages toUpdate historical)) [])
  | .updated messages toUpdate historical =>
    (.committed (.updateFlags r (.updated messages toUpdate historical)), { d.finish i with
      -- A row that has been made in the meantime gets the flags that were to be inserted.
      rows := insertNew
        (d.rows.map fun um =>
          if um.userId = r.userId && (um.messageId ∈ toUpdate || um.messageId ∈ historical) then
            { um with read := r.isAdding } else um)
        (historical.map fun m => ⟨r.userId, m, r.isAdding⟩) })

/-- The unread rows of the user in the channel. -/
def Work.unread (w : Work) (d : Database) : List ℕ :=
  (d.rows.filter fun um =>
    um.userId = w.userId && !um.read && d.isIn w.channel um.messageId).map (·.messageId)

/-- The next statement of `do_mark_stream_messages_as_read`; the queue forgets the item when it is
done. -/
def Work.statement (w : Work) (d : Database) (i : ℕ) (stage : WorkStage) : Answer × Database :=
  match stage with
  | .start =>
    let ids := w.unread d
    d.await i (.markAsRead w (if ids = [] then .marked [] else .selected ids))
      (ids.map (.row w.userId))
  | .selected _ =>
    let ids := w.unread d
    d.await i (.markAsRead w (.marked ids)) (ids.map (.row w.userId))
  | .marked ids =>
    (.committed (.markAsRead w (.marked ids)), { d.finish i with
      rows := d.rows.map fun um =>
        if um.userId = w.userId && um.messageId ∈ ids then { um with read := true } else um
      pending := d.pending.filter (· ≠ w) })

/-! ## Subscriptions -/

variable (subscriptions : List Subscription)

/-- The subscriptions are made or become active again. -/
def activate (pairs : List (ℕ × ℕ)) : List Subscription :=
  (subscriptions.map fun s =>
    if pairs.contains (s.userId, s.channel) then { s with active := true } else s) ++
    (pairs.filter fun p => !subscriptions.any fun s => s.userId = p.1 && s.channel = p.2).map
      fun p => ⟨p.1, p.2, true⟩

def deactivate (pairs : List (ℕ × ℕ)) : List Subscription :=
  subscriptions.map fun s =>
    if pairs.contains (s.userId, s.channel) then { s with active := false } else s

/-- The items that are queued when unsubscribing is committed. -/
def workFor (next : ℕ) : List (ℕ × ℕ) → List Work
  | [] => []
  | p :: pairs => ⟨next, p.1, p.2⟩ :: workFor (next + 1) pairs

/-- The next statement of a transaction. -/
def statement (site : Site) (d : Database) (i : ℕ) (t : Transaction) : Answer × Database :=
  match t with
  | .subscribe pairs none =>
    let found := pairs.filter fun p => !d.isSubscribed p.1 p.2
    (.ok, d.proceed i (.subscribe pairs (some found)) [])
  | .subscribe pairs (some found) =>
    (.committed (.subscribe pairs (some found)),
      { d.finish i with subscriptions := activate d.subscriptions found })
  | .unsubscribe pairs none =>
    let found := pairs.filter fun p => d.isSubscribed p.1 p.2
    (.ok, d.proceed i (.unsubscribe pairs (some found)) [])
  | .unsubscribe pairs (some found) =>
    (.committed (.unsubscribe pairs (some found)), { d.finish i with
      subscriptions := deactivate d.subscriptions found
      pending := d.pending ++ workFor d.nextWork found
      nextWork := d.nextWork + found.length })
  | .send r stage => r.statement d i stage
  | .updateFlags r stage => r.statement site d i stage
  | .move r stage => r.statement site d i stage
  | .markAsRead w stage => w.statement d i stage

/-- What happens. -/
inductive Move where
  | subscribe (i : ℕ) (pairs : List (ℕ × ℕ))
  | unsubscribe (i : ℕ) (pairs : List (ℕ × ℕ))
  | send (i : ℕ) (r : SendRequest)
  | updateFlags (i : ℕ) (r : FlagsRequest)
  | move (i : ℕ) (r : MoveRequest)
  | consume (i : ℕ) (w : Work)
  | next (i : ℕ)

/-- The transaction that is opened. -/
def Move.opens : Move → Option Transaction
  | .subscribe _ pairs => some (.subscribe pairs none)
  | .unsubscribe _ pairs => some (.unsubscribe pairs none)
  | .send _ r => some (.send r .start)
  | .updateFlags _ r => some (.updateFlags r .start)
  | .move _ r => some (.move r .start)
  | .consume _ w => some (.markAsRead w .start)
  | .next _ => none

def Move.id : Move → ℕ
  | .subscribe i _ => i
  | .unsubscribe i _ => i
  | .send i _ => i
  | .updateFlags i _ => i
  | .move i _ => i
  | .consume i _ => i
  | .next i => i

/-- What a transaction needs to be opened: a worker takes an item that is in the queue. -/
def Transaction.mayOpen (t : Transaction) (d : Database) : Bool :=
  match t with
  | .markAsRead w _ => w ∈ d.pending
  | _ => true

def Transaction.firstKeys : Transaction → List Key
  | .markAsRead w _ => [.work w.id]
  | _ => []

def step (site : Site) (move : Move) (d : Database) : Answer × Database :=
  match d.transactions move.id, move.opens with
  | none, some t => if t.mayOpen d then d.await move.id t t.firstKeys else (.waits, d)
  | some t, none => statement site d move.id t
  | _, _ => (.waits, d)

/-! # What open transactions rest on -/

open History

namespace Database

/-- Work that is to look at the channel for the user. -/
def ToCome (d : Database) (u c : ℕ) : Prop :=
  ∃ w ∈ d.pending, w.userId = u ∧ w.channel = c ∧
    ∀ i ids, d.transactions i ≠ some (.markAsRead w (.marked ids))

/-- The user is subscribed, or there is work to come. -/
def Covered (d : Database) (u c : ℕ) : Prop := d.isSubscribed u c = true ∨ d.ToCome u c

/-- A transaction has marked the row as read. -/
def Marking (d : Database) (um : Row) (c : ℕ) : Prop :=
  ∃ i w ids, d.transactions i = some (.markAsRead w (.marked ids)) ∧ w.userId = um.userId ∧
    w.channel = c ∧ um.messageId ∈ ids

def Exists (d : Database) (m : ℕ) : Prop := ∃ msg ∈ d.messages, msg.id = m

end Database

/-! ## What a transaction leaves -/

def SendRequest.Leaves (r : SendRequest) (stage : SendStage) (u c : ℕ) : Prop :=
  match stage with
  | .start => False
  | .informed users => c = r.channel ∧ u ∈ users ∧ u ∉ r.markAsReadUserIds
  | .created message users => c = message.channel ∧ u ∈ users ∧ u ∉ r.markAsReadUserIds
  | .inserted message ums => c = message.channel ∧ ∃ um ∈ ums, um.userId = u ∧ um.read = false

/-- The messages of a request that it still considers. -/
def FlagsRequest.named (r : FlagsRequest) : FlagsStage → List ℕ
  | .start => []
  | .subscribed _ => r.messages
  | .considered messages => messages
  | .selected messages _ => messages
  | .accessed messages _ => messages
  | .inserted messages _ _ => messages
  | .updated messages _ _ => messages

def FlagsRequest.Leaves (r : FlagsRequest) (d : Database) (stage : FlagsStage) (u c : ℕ) : Prop :=
  r.isAdding = false ∧ u = r.userId ∧ (∃ m ∈ r.named stage, d.isIn c m = true) ∧
    ∀ channels, stage = .subscribed channels → c ∈ channels

/-- The user keeps an unread row of a message. -/
def Moving.Keeps (m : Moving) (d : Database) (moves : Message → Prop) (u : ℕ) : Prop :=
  ∃ um ∈ d.rows, um.userId = u ∧ um.read = false ∧ (um.userId, um.messageId) ∉ m.deleted ∧
    ∃ msg ∈ d.messages, msg.id = um.messageId ∧ moves msg

/-- The deletion has been made for these messages, if they do not change any more. -/
def MoveRequest.Selects (site : Site) (d : Database) (m : Moving) (msg : Message) : Prop :=
  msg.id = r.messageId ∨ r.changes site d m msg = true

def MoveRequest.Leaves (site : Site) (d : Database) (stage : MoveStage) (u c : ℕ) : Prop :=
  match stage with
  | .deleted m => c = r.targetChannel ∧ m.Keeps d (r.Selects site d m) u
  | .saved m => c = r.targetChannel ∧ m.Keeps d (r.Selects site d m) u
  | .propagated m => c = r.targetChannel ∧ m.Keeps d (·.id ∈ m.moved) u
  | _ => False

/-- The commit gives a user an unread row in a channel, or keeps one. -/
def Transaction.Leaves (t : Transaction) (site : Site) (d : Database) (u c : ℕ) : Prop :=
  match t with
  | .send r stage => r.Leaves stage u c
  | .updateFlags r stage => r.Leaves d stage u c
  | .move r stage => r.Leaves site d stage u c
  | _ => False

/-! ## What a transaction has locked -/

/-- A move knows where the message is, which is locked, and has locked what it has moved. -/
structure Moving.Located (m : Moving) (d : Database) (i : ℕ) (r : MoveRequest) : Prop where
  locked : d.locks (.message r.messageId) = some i
  channel : ∀ msg ∈ d.messages, msg.id = r.messageId → msg.channel = m.channel
  exists_id : d.Exists r.messageId
  changed : ∀ id ∈ m.changedIds, d.Exists id
  gained : ∀ um ∈ m.gained, um.read = true ∧ d.Exists um.messageId
  moved : ∀ id ∈ m.moved, d.locks (.message id) = some i

/-- The id of a message that is being sent is its own. -/
structure Message.Fresh (message : Message) (d : Database) (i : ℕ) : Prop where
  locked : d.locks (.message message.id) = some i
  new : ∀ msg ∈ d.messages, msg.id ≠ message.id

def SendStage.Shape (d : Database) (i : ℕ) : SendStage → Prop
  | .start => True
  | .informed _ => True
  | .created message _ => message.Fresh d i
  | .inserted message ums => message.Fresh d i ∧ ∀ um ∈ ums, um.messageId = message.id

def FlagsStage.Shape (d : Database) : FlagsStage → Prop
  | .accessed messages ums => ∀ m ∈ historicalMessageIds messages ums, d.Exists m
  | .inserted messages _ historical => ∀ m ∈ historical, d.Exists m ∧ m ∈ messages
  | .updated messages toUpdate historical =>
    (∀ m ∈ historical, d.Exists m ∧ m ∈ messages) ∧ ∀ m ∈ toUpdate, m ∈ messages
  | _ => True

def MoveStage.Shape (d : Database) (i : ℕ) (r : MoveRequest) : MoveStage → Prop
  | .start => True
  | .locked m => m.Located d i r ∧ m.deleted = []
  | .gaining m => m.Located d i r ∧ m.deleted = []
  | .changed m => m.Located d i r ∧ m.deleted = []
  | .inserted m => m.Located d i r ∧ m.deleted = []
  | .deleted m => m.Located d i r
  | .saved m => m.Located d i r ∧ ∀ id ∈ m.moved, id = r.messageId
  | .propagated m => m.Located d i r

/-- What a transaction knows of what it has read and written. -/
def Transaction.Shape (t : Transaction) (d : Database) (i : ℕ) : Prop :=
  match t with
  | .send _ stage => stage.Shape d i
  | .updateFlags _ stage => stage.Shape d
  | .move r stage => stage.Shape d i r
  | .markAsRead w _ => d.locks (.work w.id) = some i ∧ w ∈ d.pending
  | .unsubscribe _ (some found) => ∀ p ∈ found, d.hasSubscription p.1 p.2 = true
  | _ => True

/-- What other transactions do does not concern what this one has locked. -/
structure Frame (d d' : Database) (j : ℕ) : Prop where
  locks : ∀ k, d.locks k = some j → d'.locks k = some j
  exists_id : ∀ m, d.Exists m → d'.Exists m
  messages : ∀ msg ∈ d'.messages, d.locks (.message msg.id) = some j → msg ∈ d.messages
  pending : ∀ w ∈ d.pending, d.locks (.work w.id) = some j → w ∈ d'.pending
  listed : ∀ u c, d.hasSubscription u c = true → d'.hasSubscription u c = true

variable {site : Site} {d d' : Database} {i j : ℕ} {t t' : Transaction}

theorem Moving.Located.frame {m : Moving} {r : MoveRequest} (h : m.Located d j r)
    (hf : Frame d d' j) : m.Located d' j r where
  locked := hf.locks _ h.locked
  channel := by
    intro msg hmsg hid
    refine h.channel msg (hf.messages msg hmsg ?_) hid
    rw [hid]
    exact h.locked
  exists_id := hf.exists_id _ h.exists_id
  changed := fun id hid => hf.exists_id _ (h.changed id hid)
  gained := fun um hum => ⟨(h.gained um hum).1, hf.exists_id _ (h.gained um hum).2⟩
  moved := fun id hid => hf.locks _ (h.moved id hid)

theorem Message.Fresh.frame {message : Message} (h : message.Fresh d j) (hf : Frame d d' j) :
    message.Fresh d' j where
  locked := hf.locks _ h.locked
  new := by
    intro msg hmsg hid
    refine h.new msg (hf.messages msg hmsg ?_) hid
    rw [hid]
    exact h.locked

theorem Transaction.Shape.frame (h : t.Shape d j) (hf : Frame d d' j) : t.Shape d' j := by
  cases t with
  | subscribe pairs found => trivial
  | unsubscribe pairs found =>
    cases found with
    | none => trivial
    | some found => exact fun p hp => hf.listed _ _ (h p hp)
  | send r stage =>
    cases stage with
    | start | informed users => trivial
    | created message users => exact Message.Fresh.frame h hf
    | inserted message ums => exact ⟨h.1.frame hf, h.2⟩
  | updateFlags r stage =>
    cases stage with
    | start | subscribed channels | considered messages | selected messages ums => trivial
    | accessed messages ums => exact fun m hm => hf.exists_id m (h m hm)
    | inserted messages ums historical =>
      exact fun m hm => ⟨hf.exists_id m (h m hm).1, (h m hm).2⟩
    | updated messages toUpdate historical =>
      exact ⟨fun m hm => ⟨hf.exists_id m (h.1 m hm).1, (h.1 m hm).2⟩, h.2⟩
  | move r stage =>
    cases stage with
    | start => trivial
    | locked m | gaining m | changed m | inserted m => exact ⟨h.1.frame hf, h.2⟩
    | deleted | propagated => exact Moving.Located.frame h hf
    | saved m => exact ⟨h.1.frame hf, h.2⟩
  | markAsRead w stage => exact ⟨hf.locks _ h.1, hf.pending w h.2 h.1⟩

end GrowTeam.Unsubscribing
