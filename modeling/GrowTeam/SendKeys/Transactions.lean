/-
# Sending under a key (`zerver/actions/message_send.py`)

Calls of `do_send_messages` as transactions that interleave statement by statement, at the isolation
level of PostgreSQL: a statement sees the committed rows and those of its own transaction, and an
insert waits for a transaction that has inserted the same key.  A transaction may fail anywhere, and
is rolled back then.  The advisory lock and the row locks only rule interleavings out; they are not
modelled.

Requests are objects, known by their `id`; a batch may hold one object twice.
-/
import GrowTeam.History
import Mathlib.Data.List.Sort
import Mathlib.Logic.Function.Basic

namespace GrowTeam.SendKeys

open Function

/-! ## Requests -/

/-- What identifies a send intent: `realm`, `sender` and `client_key`. -/
structure SendKey where
  realm_id : ℕ
  sender_id : ℕ
  client_key : ℕ
  deriving DecidableEq

/-- `agent_send_metadata`; the rest as JSON text. -/
structure Metadata where
  profile_ids : List String
  rest : String
  deriving DecidableEq

structure SendMessageRequest where
  realm_id : ℕ
  sender_id : ℕ
  recipient_id : ℕ
  recipient_type : ℕ
  topic_name : String
  content : String
  potential_attachment_path_ids : List String
  agent_send_metadata : Option Metadata
  widget_content : Option String
  message_type : ℕ
  agent_send_key : Option ℕ
  local_id : Option String
  sender_queue_id : Option String

def SendMessageRequest.key (r : SendMessageRequest) : Option SendKey :=
  r.agent_send_key.map fun client_key => ⟨r.realm_id, r.sender_id, client_key⟩

/-- What is digested of a request: what makes it the same request. -/
structure Payload where
  recipient_id : ℕ
  type : ℕ
  topic : String
  content : String
  attachments : List String
  metadata : Option Metadata
  widget : Option String
  message_type : ℕ
  read_by_sender : Bool
  deriving DecidableEq

/-- The arguments of a call; `objects` are the requests by their `id`. -/
structure Call where
  objects : ℕ → SendMessageRequest
  send_message_requests_maybe_none : List (Option ℕ)
  mark_as_read : List ℕ

variable (call : Call)

/-- The requests of a call. -/
def Call.requests : List ℕ := call.send_message_requests_maybe_none.filterMap id

def Call.key (r : ℕ) : Option SendKey := (call.objects r).key

def Call.payload (r : ℕ) : Payload where
  recipient_id := (call.objects r).recipient_id
  type := (call.objects r).recipient_type
  topic := (call.objects r).topic_name
  content := (call.objects r).content
  attachments := (call.objects r).potential_attachment_path_ids.insertionSort fun a b => a ≤ b
  metadata := (call.objects r).agent_send_metadata
  widget := (call.objects r).widget_content
  message_type := (call.objects r).message_type
  read_by_sender := call.mark_as_read.contains (call.objects r).sender_id

/-! ## The database -/

/-- `AgentSendIntent`. -/
structure Intent (δ : Type) where
  payload_digest : δ
  identity_unavailable : Bool
  sent_message_id : Option ℕ

/-- A message that was created, with the request it was created for. -/
structure Sent where
  key : Option SendKey
  payload : Payload
  id : ℕ

/-- The committed rows.  `sent` remembers every message that was ever created. -/
structure Db (δ : Type) where
  intents : SendKey → Option (Intent δ)
  messages : List ℕ
  next_id : ℕ
  sent : List Sent

/-- What the next statement of a transaction is. -/
inductive Stage where
  | getting
  | creating
  | gettingAgain
  | sent

/-- A transaction: its variables, and the rows it has written. -/
structure Txn (δ : Type) where
  call : Call
  stage : Stage
  todo : List ℕ
  replayed_results : ℕ → Option ℕ
  batch_keys : SendKey → Option ℕ
  aliases : ℕ → Option ℕ
  intents : SendKey → Option (Intent δ)
  messages : List (ℕ × ℕ)

/-- The database, the transactions, and which of them has inserted a key. -/
structure World (δ : Type) where
  db : Db δ
  txns : ℕ → Option (Txn δ)
  index : SendKey → Option ℕ

variable {δ : Type}

def Txn.start : Txn δ where
  call := call
  stage := .getting
  todo := call.requests
  replayed_results := fun _ => none
  batch_keys := fun _ => none
  aliases := fun _ => none
  intents := fun _ => none
  messages := []

/-- The row of a key that a statement sees, besides the rows of its own transaction. -/
def visible (own : SendKey → Option (Intent δ)) (db : Db δ) (key : SendKey) :
    Option (Intent δ) :=
  match own key with
  | some intent => some intent
  | none => db.intents key

inductive Answer where
  | running
  | blocked
  | rejected (error : String)
  | raised
  | failed
  | accepted (call : Call) (results : List ℕ)
  | deleted
  | refused

/-- The transaction goes on. -/
def World.proceed (w : World δ) (t : ℕ) (txn : Txn δ) : Answer × World δ :=
  (.running, { w with txns := update w.txns t (some txn) })

/-- The transaction ends without its rows. -/
def World.rollback (w : World δ) (t : ℕ) (answer : Answer) : Answer × World δ :=
  (answer,
    { w with
      txns := update w.txns t none
      index := fun key => if w.index key = some t then none else w.index key })

/-! ## The statements -/

section Statements

variable [DecidableEq δ] (digest : Payload → δ) (w : World δ) (t : ℕ)

/-- What follows once the intent of a request is there. -/
def claim (txn : Txn δ) (r : ℕ) (rest : List ℕ) (key : SendKey)
    (intent : Intent δ) : Answer × World δ :=
  if intent.payload_digest ≠ digest (txn.call.payload r) then
    w.rollback t (.rejected "Agent send key conflicts with an earlier message.")
  else if intent.identity_unavailable then
    w.rollback t (.rejected
      "The original message identity is unavailable. This send key cannot be reused.")
  else
    match intent.sent_message_id with
    | some message_id =>
      w.proceed t
        { txn with
          stage := .getting
          todo := rest
          replayed_results := update txn.replayed_results r (some message_id) }
    | none =>
      match txn.batch_keys key with
      | some original =>
        w.proceed t
          { txn with
            stage := .getting
            todo := rest
            aliases := update txn.aliases r (some original) }
      | none =>
        w.proceed t
          { txn with
            stage := .getting
            todo := rest
            batch_keys := update txn.batch_keys key (some r) }

/-- `AgentSendIntent.objects.create`: it waits for another transaction with the key, and a
committed row of the key is an `IntegrityError`. -/
def create (txn : Txn δ) (r : ℕ) (rest : List ℕ) (key : SendKey) : Answer × World δ :=
  if (w.index key).any fun other => other ≠ t then (.blocked, w)
  else
    match w.db.intents key with
    | some _ => w.proceed t { txn with stage := .gettingAgain }
    | none =>
      let intent : Intent δ := ⟨digest (txn.call.payload r), false, none⟩
      claim digest { w with index := update w.index key (some t) } t
        { txn with intents := update txn.intents key (some intent) } r rest key intent

variable (txn : Txn δ)

/-- The requests that are left to be sent. -/
def Txn.left : List ℕ :=
  txn.call.requests.filter fun r =>
    (txn.replayed_results r).isNone && (txn.aliases r).isNone

/-- The targets of a message are the profiles that were selected. -/
def targetsAgree (targets : ℕ → List String) (call : Call) (r : ℕ) : Bool :=
  match (call.objects r).agent_send_metadata with
  | none => true
  | some metadata =>
    (metadata.profile_ids.all fun id => (targets r).contains id) &&
      (targets r).all fun id => metadata.profile_ids.contains id

/-- `filter(..., sent_message_id__isnull=True).update(sent_message_id=...)` for one message. -/
def recordSent (call : Call) (db : Db δ) (own : SendKey → Option (Intent δ)) (message : ℕ × ℕ) :
    SendKey → Option (Intent δ) :=
  match call.key message.1 with
  | none => own
  | some key =>
    match visible own db key with
    | none => own
    | some intent =>
      if intent.sent_message_id.isNone then
        update own key (some { intent with sent_message_id := some message.2 })
      else own

/-- `Message.objects.bulk_create`, and the update of the intents.  Without requests that are left
the call returns here; the results are the same. -/
def send (txn : Txn δ) (targets : ℕ → List String) : Answer × World δ :=
  if txn.left.all (targetsAgree targets txn.call) then
    let messages := txn.left.zipIdx w.db.next_id
    World.proceed
      { w with db := { w.db with next_id := w.db.next_id + messages.length } } t
      { txn with
        stage := .sent
        messages := messages
        intents := messages.foldl (recordSent txn.call w.db) txn.intents }
  else
    w.rollback t (.rejected "Agent targets changed. Review the message before sending.")

/-- `results[id(item)]` before the aliases. -/
def Txn.base (r : ℕ) : Option ℕ :=
  match txn.replayed_results r with
  | some message_id => some message_id
  | none => (txn.messages.reverse.find? fun m => m.1 = r).map fun m => m.2

/-- `results[id(item)]`, unless it is a `KeyError`. -/
def Txn.result (r : ℕ) : Option ℕ :=
  match txn.aliases r with
  | some original => txn.base original
  | none => txn.base r

/-- The results of all requests. -/
def allResults (result : ℕ → Option ℕ) : List ℕ → Option (List ℕ)
  | [] => some []
  | r :: rs =>
    match result r, allResults result rs with
    | some message_id, some results => some (message_id :: results)
    | _, _ => none

/-- The messages that the transaction creates. -/
def Txn.created : List Sent :=
  txn.messages.map fun m => ⟨txn.call.key m.1, txn.call.payload m.1, m.2⟩

/-- The rows of the transaction are there. -/
def Txn.commit (db : Db δ) : Db δ where
  intents := visible txn.intents db
  messages := db.messages ++ txn.messages.map fun m => m.2
  next_id := db.next_id
  sent := db.sent ++ txn.created

/-- The end of the call. -/
def finish (txn : Txn δ) : Answer × World δ :=
  match allResults txn.result txn.call.requests with
  | none => w.rollback t .raised
  | some results =>
    World.rollback { w with db := txn.commit w.db } t (.accepted txn.call results)

/-- The next statement of a transaction. -/
def advance (txn : Txn δ) (targets : ℕ → List String) : Answer × World δ :=
  match txn.stage, txn.todo with
  | .sent, _ => finish w t txn
  | _, [] => send w t txn targets
  | stage, r :: rest =>
    match txn.call.key r with
    | none => w.proceed t { txn with stage := .getting, todo := rest }
    | some key =>
      match stage, visible txn.intents w.db key with
      | .creating, _ => create digest w t txn r rest key
      | _, some intent => claim digest w t txn r rest key intent
      | .gettingAgain, none => w.rollback t .raised
      | _, none => w.proceed t { txn with stage := .creating }

end Statements

inductive Input where
  | begin (t : ℕ) (call : Call)
  /-- The next statement of a transaction; `_targets` answers with `targets`. -/
  | advance (t : ℕ) (targets : ℕ → List String)
  /-- An error, a lost connection, or an outer rollback. -/
  | fail (t : ℕ)
  | delete (message_id : ℕ)

def step [DecidableEq δ] (digest : Payload → δ) : Input → World δ → Answer × World δ
  | .begin t call, w =>
    match w.txns t with
    | some _ => (.refused, w)
    | none => w.proceed t (Txn.start call)
  | .advance t targets, w =>
    match w.txns t with
    | none => (.refused, w)
    | some txn => advance digest w t txn targets
  | .fail t, w => w.rollback t .failed
  | .delete message_id, w =>
    (.deleted,
      { w with
        db := { w.db with messages := w.db.messages.filter fun id => id ≠ message_id } })

/-- No messages yet.  `legacy` are the intents whose message is unknown. -/
def start (legacy : SendKey → Option δ) : World δ where
  db :=
    { intents := fun key => (legacy key).map fun digest => ⟨digest, true, none⟩
      messages := []
      next_id := 1
      sent := [] }
  txns := fun _ => none
  index := fun _ => none

end GrowTeam.SendKeys
