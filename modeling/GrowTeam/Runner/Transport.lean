/-
# Durable requests (`services/grow-agent-runner/src/transport.ts`)

The store a runner process works on, the atomic steps its code is made of, and
`Transport.send` and `Transport.mutate` over them.

A step reads one `Input`: everything the process does not decide itself.  The server's
answer is one of them, so a request may be answered by anything, or by nothing, and a
server that handled a request may still not have answered it.  `acked` is the only part of
the server that is kept: the requests whose success answer reached the runner.

The journal ids of one partition are the constructors of `Key`; attempt and operation ids
are UUIDs and hold no colon, so two keys are one id only when they are equal.  Ids and
requests of the parts that are not modelled (setups, inputs, catalogs, checkpoints) are
`Key.other` and `Data.other`.
-/
import GrowTeam.Interleaving
import GrowTeam.Protocol
import GrowTeam.Runner.Journal

namespace GrowTeam.Runner

open Interleaving

/-! ## Wire values -/

/-- The actions without an effect on a Git remote. -/
abbrev LocalAction := {action : Action // action ≠ .gitPush ∧ action ≠ .gitDraftPr}

/-- What the code reads of an operation's arguments (`OperationArguments`). -/
inductive Arguments where
  | push (remote branch commit : String)
  | draftPr (remote base head commit title body : String)
  | other (action : LocalAction)
  deriving DecidableEq

def Arguments.action : Arguments → Action
  | .push .. => .gitPush
  | .draftPr .. => .gitDraftPr
  | .other action => action.val

/-- An operation as the server reports it. -/
structure Operation where
  operationId : Uuid
  operationHash : String
  version : ℕ
  status : OperationState
  nonce : Option Uuid
  arguments : Option Arguments
  deriving DecidableEq

/-- What the code reads of an attempt descriptor. -/
structure Descriptor extends LeaseIdentity where
  runnerId : Uuid
  leaseExpiresAt : Time
  deriving DecidableEq

/-- One item of `GET /runner/leases`. -/
structure LeaseReport where
  descriptor : Descriptor
  eventCursor : ℕ
  deriving DecidableEq

/-- One item of `GET /runner/controls`; `proceed` is `"continue"`. -/
structure Control where
  attemptId : Uuid
  leaseEpoch : ℕ
  proceed : Bool
  jobVersion : ℕ
  deriving DecidableEq

/-- One item of the answer to a heartbeat. -/
structure HeartbeatReport extends Control where
  leaseExpiresAt : Time
  deriving DecidableEq

/-- A success envelope, with the fields that some caller reads.  A caller that reads a
field that is absent fails. -/
structure Reply where
  leases : Option (List LeaseReport) := none
  attempt : Option Descriptor := none
  jobVersion : Option ℕ := none
  receipts : Option (List ℕ) := none
  controls : Option (List Control) := none
  heartbeats : Option (List HeartbeatReport) := none
  operation : Option Operation := none
  deriving DecidableEq

/-- The receipt of an operation whose outcome the owner resolves by hand. -/
inductive OwnerReceipt where
  | remote (receipt : RemoteReceipt)
  | local (receipt : LocalOperationReceipt)
  deriving DecidableEq

/-- `receipt.operation_id`. -/
def OwnerReceipt.operationId : OwnerReceipt → Uuid
  | .remote receipt => receipt.operationId
  | .local receipt => receipt.operationId

/-- The ids of one journal partition, each with the text the source builds. -/
inductive Key where
  | claim (claimKey : Uuid)                            -- `claim:${claimKey}`
  | attempt (attemptId : Uuid)                         -- `attempt:${attemptId}`
  | event (eventId : Uuid)                             -- `${eventId}`
  | stop (attemptId : Uuid) (leaseEpoch : ℕ)           -- `stop:${attemptId}:${leaseEpoch}`
  | stopAt (attemptId : Uuid) (leaseEpoch sequence : ℕ) -- `${stop}:${sequence}`
  | proposal (operationId : Uuid)                      -- `proposal:${operationId}`
  | consume (operationId : Uuid)                       -- `consume:${operationId}`
  | execute (operationId : Uuid)                       -- `execute:${operationId}`
  | authority (operationId : Uuid)                     -- `authority:${operationId}`
  | effect (operationId : Uuid)                        -- `effect:${operationId}`
  | remote (operationId : Uuid)                        -- `remote:${operationId}`
  | local (operationId : Uuid)                         -- `local:${operationId}`
  | operationResolution (operationId : Uuid)           -- `operation_resolution:${operationId}`
  | other (kind id : String)
  deriving DecidableEq

/-- The `kind` column that goes with an id. -/
def Key.kind : Key → String
  | .claim _ => "claim"
  | .attempt _ => "attempt"
  | .event _ => "event"
  | .stop _ _ => "stop"
  | .stopAt _ _ _ => "stop"
  | .proposal _ => "proposal"
  | .consume _ => "consume"
  | .execute _ => "execute"
  | .authority _ => "authority"
  | .effect _ => "effect"
  | .remote _ => "remote_receipt"
  | .local _ => "local_receipt"
  | .operationResolution _ => "operation_resolution"
  | .other kind _ => kind

/-- The kinds of the entries that the modelled functions write. -/
def coordinatorKinds : List String :=
  ["claim", "attempt", "event", "stop", "proposal", "consume", "execute", "authority", "effect",
    "remote_receipt", "local_receipt", "operation_resolution"]

/-- The JSON values of the `request` and `response` columns. -/
inductive Data where
  | claim (claimKey : Uuid)
  | heartbeat (leases : List LeaseIdentity)
  | attempt (descriptor : Descriptor) (jobVersion : ℕ)
  | events (jobVersion : ℕ) (events : List RunnerEvent)
  | stopEvidence (event : RunnerEvent)
  | proposal (lease : Lease) (operationId : Uuid) (arguments : Arguments)
      (treeHash : Option String) (diffArtifactId : Option Uuid)
  | consume (lease : Lease) (operationId : Uuid) (expectedVersion : ℕ) (operationHash : String)
      (nonce : Option Uuid)
  | authority (lease : Lease) (operation : Operation)
  | effect (operation : Operation)
  | receipt (lease : Lease) (receipt : OwnerReceipt)
  | operationResolution (receipt : OwnerReceipt)
  | superseded (supersededBy : Key) (serverEventCursor : ℕ)
  | finished (receipt : String)
  | reconciled (receipt : OwnerReceipt)
  | reply (reply : Reply)
  | other (json : String)
  deriving DecidableEq

namespace Data

/-- `request.events ?? [request.event]`: the events a request carries. -/
def eventList : Data → List RunnerEvent
  | .events _ es => es
  | .stopEvidence e => [e]
  | _ => []

/-- The envelope, when the value came from the server. -/
def asReply : Data → Option Reply
  | .reply r => some r
  | _ => none

end Data

abbrev Log := Journal Key Data
abbrev LogEntry := Entry Key Data

/-! ## The process and its store -/

/-- A `Session` object.  Its queue and its timer are left to the scheduler, which may then
interleave what the source would queue. -/
structure Session where
  descriptor : Descriptor
  valid : Bool
  version : ℕ
  expiry : Time

/-- The fields of one `Coordinator` object.  Sessions are objects compared by identity, so
each has an index; the promise in `stopping` has a number, of which `promises` is the next. -/
structure Process where
  sessions : List Session
  active : Option ℕ
  reconciled : Bool
  generation : ℕ
  claiming : Bool
  stopping : Option ℕ
  promises : ℕ
  stopFailure : Option String

/-- A `Coordinator` as its constructor leaves it. -/
def Process.fresh : Process :=
  { sessions := [], active := none, reconciled := false, generation := 0,
    claiming := false, stopping := none, promises := 0, stopFailure := none }

/-- The journal on disk, the process that owns it, and the requests the server has
acknowledged. -/
structure Store where
  journal : Log
  process : Process
  acked : List (String × Option Data)

/-- A new state directory. -/
def Store.fresh : Store := ⟨.empty, .fresh, []⟩

/-- What a crash and a restart leave. -/
def Store.restart (s : Store) : Store := { s with process := .fresh }

/-- What is fixed while a state directory exists: the runner and the parts of the protocol
check that do not concern the journal. -/
structure Device where
  runnerId : Uuid
  scope : String
  validateDescriptor : Descriptor → Bool
  assertRuntime : Descriptor → Bool
  parseEvent : RunnerEvent → Bool

/-- `TransportError.kind`. -/
inductive TransportKind where
  | credential
  | policy
  | contention
  | transient
  | protocol
  deriving DecidableEq

/-- What one step may read from outside the process. -/
structure Input where
  /-- The server's answer, or the error of a lost or failed request. -/
  reply : Except TransportKind Reply := .error .transient
  /-- `randomUUID()`. -/
  uuid : Uuid := 0
  /-- `Date.now()`. -/
  now : Time := 0
  /-- The connection now belongs to another runner scope, or is not connected. -/
  retired : Bool := false
  /-- The value to be stored holds protected secret material. -/
  secret : Bool := false
  /-- `supervisor.stop(..).confirmed`. -/
  confirmed : Bool := false
  /-- `supervisor.start` or `applyInput` ended without an error. -/
  completes : Bool := false
  /-- `supervisor.inspect()`. -/
  processes : List Uuid := []
  /-- No probe is running and `supervisor.canExecute()`. -/
  idle : Bool := false

/-- The errors of the runner. -/
inductive Fault where
  | error (message : String)
  | transport (kind : TransportKind)
  | journal (error : JournalError)
  deriving DecidableEq

/-- The labels of the steps that the results speak about. -/
inductive Tag where
  | step
  | checkStop (lease : LeaseIdentity) (cursor : Option ℕ)
  | reconciled (leases : List LeaseReport)
  | begun (operationId : Uuid) (lease : LeaseIdentity)
  deriving DecidableEq

/-- An `async` function of the runner. -/
abbrev Program := ExceptT Fault (Routine Store Input Tag)

/-! ## Atomic steps -/

/-- A step on the process alone. -/
def onProcess (awaits : Bool) (act : Input → Process → Except Fault (α × Process)) : Program α :=
  Routine.attempt awaits .step fun input s =>
    (act input s.process).map fun r => (r.1, { s with process := r.2 })

/-- `if (!cond) throw new Error(message)`. -/
def ensure (cond : Bool) (message : String) : Program Unit :=
  if cond then pure () else throw (.error message)

/-- A field of an answer; reading an absent one is a `TypeError`. -/
def field (value : Option α) : Program α :=
  match value with
  | some a => pure a
  | none => throw (.error "TypeError")

/-- A synchronous read of the journal. -/
def query (tag : Tag) (f : Log → α) : Program α :=
  Routine.attempt false tag fun _ s => .ok (f s.journal, s)

/-- `assertScope()` and the scope checks of `send`. -/
def assertScope (message : String) : Program Unit :=
  onProcess false fun input p => if input.retired then .error (.error message) else .ok ((), p)

/-- `journal.prepare(kind, id, route, request)`; `protect` may refuse the value. -/
def prepare (dev : Device) (kind : String) (id : Key) (route : String) (request : Data) :
    Program LogEntry :=
  Routine.attempt false .step fun input s =>
    if input.secret then .error (.error "Secret material cannot enter the journal")
    else match s.journal.prepare kind id route request dev.scope with
      | .ok (entry, journal) => .ok (entry, { s with journal })
      | .error e => .error (.journal e)

/-- `journal.uncertain(id)`. -/
def uncertain (tag : Tag) (id : Key) : Program Unit :=
  Routine.attempt false tag fun _ s => .ok ((), { s with journal := s.journal.uncertain id })

/-- `journal.complete(id, response)`. -/
def complete (id : Key) (response : Data) : Program Unit :=
  Routine.attempt false .step fun input s =>
    if input.secret then .error (.error "Secret material cannot enter the journal")
    else match s.journal.complete id response with
      | .ok journal => .ok ((), { s with journal })
      | .error e => .error (.journal e)

/-- `transport.request(route, payload)`, retries included: the step is the arrival of the
success answer, or of the error that ended the request. -/
def request (route : String) (payload : Option Data) : Program Reply :=
  Routine.attempt true .step fun input s =>
    match input.reply with
    | .ok reply => .ok (reply, { s with acked := (route, payload) :: s.acked })
    | .error kind => .error (.transport kind)

/-- A turn of the event loop: other tasks may run before this one goes on. -/
def pause : Program Unit := onProcess true fun _ p => .ok ((), p)

/-- `await x`: even when `x` never waited, its caller goes on in a later turn. -/
def awaited (x : Program α) : Program α := do
  let a ← x
  pause
  pure a

/-! ## `send` and `mutate` -/

/-- `send(entry)`: the stored receipt of a done entry; otherwise the entry becomes
uncertain, its request is sent, and the answer completes it. -/
def send (entry : LogEntry) : Program Data := do
  assertScope "Journal request belongs to another runner scope"
  if entry.state = .done then
    field entry.response
  else do
    ensure (!((entry.kind = "consume" || entry.kind = "execute") && entry.state = .uncertain))
      "Operation consume or execute is uncertain; reconcile authority before any effect"
    uncertain .step entry.id
    let response ← request entry.route (some entry.request)
    complete entry.id (.reply response)
    assertScope "Runner scope changed during request"
    pure (.reply response)

/-- `mutate(kind, id, route, request)`. -/
def mutate (dev : Device) (kind : String) (id : Key) (route : String) (request : Data) :
    Program Data := do
  let entry ← prepare dev kind id route request
  send entry

/-- The kinds `flush` replays. -/
def outgoingKinds : List String :=
  ["event", "claim", "setup_claim", "setup_result", "catalog", "workspace", "checkpoint",
    "proposal", "input_receipt", "remote_receipt", "local_receipt", "stop"]

/-- `flush()`: every outgoing entry that is not done, oldest first, from one snapshot. -/
def flush : Program Unit := do
  let entries ← query .step Journal.entries
  entries.forM fun entry =>
    if entry.kind ∈ outgoingKinds ∧ entry.state ≠ .done then do
      let _ ← awaited (send entry)
      pure ()
    else pure ()

end GrowTeam.Runner
