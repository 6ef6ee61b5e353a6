/-
# Leases, events and the session lane (`services/grow-agent-runner/src/supervisor.ts`)

What a claimed attempt does through its `Session`: `lease` is the check in front of every
action, `newEvent` numbers the events from the journal, `replayEvents` resends what has no
receipt, and `serial` and `enqueue` are the two ways work enters the session's queue.
-/
import GrowTeam.Runner.Transport

namespace GrowTeam.Runner

open Interleaving

/-! ## Sessions -/

/-- A reference to a session object: its identity and the descriptor it never changes. -/
structure Handle where
  index : ℕ
  descriptor : Descriptor

namespace Process

/-- `valid` and still the active session. -/
def current (p : Process) (h : Handle) : Option Session :=
  (p.sessions[h.index]?).filter fun s => s.valid && p.active = some h.index

/-- Assigns to the fields of one session. -/
def setSession (p : Process) (i : ℕ) (f : Session → Session) : Process :=
  { p with sessions := p.sessions.modify i f }

/-- `retire(session)`. -/
def retire (p : Process) (i : ℕ) : Process :=
  { p.setSession i ({ · with valid := false }) with
    active := if p.active = some i then none else p.active }

end Process

/-- The session a closure was made with. -/
def sessionAt (i : ℕ) : Program Handle :=
  onProcess false fun _ p => match p.sessions[i]? with
    | some s => .ok (⟨i, s.descriptor⟩, p)
    | none => .error (.error "Attempt channel is retired")

/-- `lease(session)`. -/
def lease (h : Handle) : Program Lease := do
  assertScope "Coordinator belongs to a retired runner scope"
  onProcess false fun input p =>
    match p.stopFailure, p.current h with
    | some failure, _ => .error (.error failure)
    | none, none => .error (.error "Attempt channel is retired")
    | none, some s =>
      if input.now ≥ s.expiry then .error (.error "No current lease authority")
      else .ok (⟨h.descriptor.toLeaseIdentity, s.version⟩, p)

/-- `session.version = Math.max(session.version, version)`. -/
def raiseVersion (h : Handle) (version : ℕ) : Program Unit :=
  onProcess false fun _ p =>
    .ok ((), p.setSession h.index fun s => { s with version := max s.version version })

/-! ## Events -/

/-- Whether an event belongs to the attempt and lease epoch of a descriptor. -/
def ofLease (d : LeaseIdentity) (event : RunnerEvent) : Bool :=
  event.attemptId = d.attemptId && event.leaseEpoch = d.leaseEpoch

/-- The highest sequence number the journal holds for the attempt. -/
def lastSequence (journal : Log) (d : LeaseIdentity) : ℕ :=
  ((journal.entries.flatMap fun entry => entry.request.eventList).filter (ofLease d)).foldl
    (fun sequence event => max sequence event.sequence) 0

variable (dev : Device)

/-- `newEvent(d, type, payload)`. -/
def newEvent (d : Descriptor) (body : EventBody) : Program RunnerEvent :=
  Routine.attempt false .step fun input s =>
    let event : RunnerEvent :=
      { d.toLeaseIdentity with
        eventId := input.uuid, sequence := lastSequence s.journal d.toLeaseIdentity + 1,
        occurredAt := input.now, body }
    if dev.parseEvent event then .ok (event, s) else .error (.error "Invalid runner_event")

/-- The journal entry of an event of this attempt that has no receipt yet. -/
def replayable (h : Handle) (entry : LogEntry) : Bool :=
  entry.state ≠ .done && (entry.request.eventList.head?).any (ofLease h.descriptor.toLeaseIdentity)

/-- Takes over the job versions that the receipts of a request report. -/
def takeReceipts (h : Handle) (response : Data) : Program Unit := do
  let versions ← field (response.asReply.bind Reply.receipts)
  versions.forM (raiseVersion h)

/-- `replayEvents(session)`, over one snapshot of the journal. -/
def replayEvents (h : Handle) : Program Unit := do
  let _ ← lease h
  let entries ← query .step (·.list "event")
  entries.forM fun entry =>
    if replayable h entry then do
      let _ ← lease h
      let response ← awaited (send entry)
      let _ ← lease h
      takeReceipts h response
    else pure ()

/-! ## The lane -/

/-- `refreshVersion(session)`. -/
def refreshVersion (h : Handle) : Program Unit := do
  let response ← request "/runner/controls" none
  let controls ← field response.controls
  match controls.find? fun c =>
      c.attemptId = h.descriptor.attemptId && c.leaseEpoch = h.descriptor.leaseEpoch with
  | none => throw (.error "Attempt authority revoked")
  | some control => do
    ensure control.proceed "Attempt authority revoked"
    let _ ← lease h
    raiseVersion h control.jobVersion

/-- `serial(session, action)`. -/
def serial (h : Handle) (action : Program α) : Program α := do
  pause
  let _ ← lease h
  awaited (replayEvents h)
  awaited (refreshVersion h)
  let value ← awaited action
  let _ ← lease h
  pure value

/-- `enqueue(session, type, payload)`. -/
def enqueue (h : Handle) (body : EventBody) : Program Unit := do
  pause
  let _ ← lease h
  awaited (replayEvents h)
  awaited (refreshVersion h)
  let current ← lease h
  let event ← newEvent dev h.descriptor body
  let response ← awaited (mutate dev "event" (.event event.eventId) "/runner/events"
    (.events current.jobVersion [event]))
  let _ ← lease h
  takeReceipts h response

/-! # Operations and their local effects -/

open Interleaving

/-! ## `OperationBoundary` -/

/-- `assertLease(lease)`. -/
def assertLease (h : Handle) (given : LeaseIdentity) : Program Unit := do
  let current ← lease h
  ensure (current.toLeaseIdentity = given) "Operation belongs to another attempt"

/-- `propose(lease, id, args, extras)`; the extras are named here, so no other can be given. -/
def propose (h : Handle) (given : LeaseIdentity) (id : Uuid) (args : Arguments)
    (treeHash : Option String) (diffArtifactId : Option Uuid) : Program Operation := do
  assertLease h given
  let response ← awaited <| serial h do
    let current ← lease h
    mutate dev "proposal" (.proposal id) "/runner/operations/propose"
      (.proposal current id args treeHash diffArtifactId)
  let operation ← field (response.asReply.bind Reply.operation)
  assertLease h given
  pure operation

/-- The answer of `consume` is the started form of exactly the proposed operation. -/
def consumed (proposal operation : Operation) : Bool :=
  operation.operationId = proposal.operationId &&
    operation.operationHash = proposal.operationHash && operation.status = .started &&
    operation.version = proposal.version + 1

/-- `consume(lease, proposal)`. -/
def consume (h : Handle) (given : Lease) (proposal : Operation) : Program Operation := do
  assertLease h given.toLeaseIdentity
  let response ← awaited <| serial h do
    let current ← lease h
    mutate dev "consume" (.consume proposal.operationId) "/runner/operations/consume"
      (.consume current proposal.operationId proposal.version proposal.operationHash proposal.nonce)
  assertLease h given.toLeaseIdentity
  let operation ← field (response.asReply.bind Reply.operation)
  ensure (consumed proposal operation) "Invalid operation authority"
  let _ ← prepare dev "authority" (.authority proposal.operationId) "local"
    (.authority given operation)
  pure operation

/-- `execute(lease, proposal)`: the server runs a team tool itself. -/
def execute (h : Handle) (given : LeaseIdentity) (proposal : Operation) : Program Operation := do
  assertLease h given
  let response ← awaited <| serial h do
    let current ← lease h
    mutate dev "execute" (.execute proposal.operationId) "/runner/operations/execute"
      (.consume current proposal.operationId proposal.version proposal.operationHash proposal.nonce)
  assertLease h given
  field (response.asReply.bind Reply.operation)

variable (entry : LogEntry)

/-- The lease and the operation of an `authority` entry. -/
def authorityOf : Option (Lease × Operation) :=
  match entry.request with
  | .authority lease operation => some (lease, operation)
  | _ => none

/-- `beginEffect(operationId)`: the effect is durably uncertain before anything runs. -/
def beginEffect (h : Handle) (operationId : Uuid) : Program Operation := do
  let current ← lease h
  let authority ← query .step (·.get (.authority operationId))
  match authority with
  | none => throw (.error "No durable consume authority")
  | some entry => do
    let (given, operation) ← field (authorityOf entry)
    ensure (given.toLeaseIdentity = current.toLeaseIdentity) "Operation belongs to an old lease"
    let effect ← prepare dev "effect" (.effect operationId) "local" (.effect operation)
    ensure (effect.state = .prepared) "Effect already started or uncertain"
    uncertain (.begun operationId current.toLeaseIdentity) effect.id
    pure operation

/-- `finishEffect(operationId, receipt)`. -/
def finishEffect (h : Handle) (operationId : Uuid) (receipt : String) : Program Unit := do
  let authority ← query .step (·.get (.authority operationId))
  match authority.bind authorityOf with
  | none => throw (.error "Effect receipt belongs to another attempt")
  | some (given, _) => do
    ensure (given.toLeaseIdentity = h.descriptor.toLeaseIdentity)
      "Effect receipt belongs to another attempt"
    complete (.effect operationId) (.finished receipt)

/-- `remoteReceipt(lease, receipt)`. -/
def remoteReceipt (h : Handle) (given : Lease) (receipt : RemoteReceipt) : Program Data := do
  assertLease h given.toLeaseIdentity
  let response ← awaited (mutate dev "remote_receipt" (.remote receipt.operationId)
    "/runner/operations/reconcile" (.receipt given (.remote receipt)))
  assertLease h given.toLeaseIdentity
  pure response

/-! ## `OperationRecovery` -/

/-- `operationRecovery(attemptId)`: the lease the attempt was claimed with. -/
def operationRecovery (attemptId : Uuid) : Program Lease := do
  assertScope "Coordinator belongs to a retired runner scope"
  let attempt ← query .step (·.get (.attempt attemptId))
  match attempt.map Entry.request with
  | some (.attempt d version) => do
    ensure (d.runnerId = dev.runnerId) "No original durable attempt identity"
    pure ⟨d.toLeaseIdentity, version⟩
  | _ => throw (.error "No original durable attempt identity")

/-- The lease and the hash a `consume` entry was sent with. -/
def consumeOf : Option (LeaseIdentity × String) :=
  match entry.request with
  | .consume lease _ _ hash _ => some (lease.toLeaseIdentity, hash)
  | _ => none

/-- Journal id, kind and route of a receipt, by the side that observed it. -/
def receiptRoute : OwnerReceipt → Key × String × String
  | .remote r => (.remote r.operationId, "remote_receipt", "/runner/operations/reconcile")
  | .local r => (.local r.operationId, "local_receipt", "/runner/operations/reconcile-local")

/-- The status the server has to report once it took the receipt. -/
def expectedStatus : OwnerReceipt → OperationState
  | .remote _ => .succeeded
  | .local r => match r.outcome with
    | .succeeded => .succeeded
    | .failed => .failed
    | .noEffect => .cancelled

/-- The receipt an earlier submission under this id was made with. -/
def submitted : Option OwnerReceipt :=
  match entry.request with
  | .receipt _ r => some r
  | _ => none

/-- The digest of a local receipt is that of the consumed operation. -/
def digestMatches (hash : String) : OwnerReceipt → Bool
  | .remote _ => true
  | .local r => r.argumentDigest = hash

/-- `submit(kind, receipt)` under the identity of the original attempt. -/
def submit (identity : Lease) (receipt : OwnerReceipt) : Program Data := do
  assertScope "Coordinator belongs to a retired runner scope"
  let consume ← query .step (·.get (.consume receipt.operationId))
  match consume.filter (·.state ≠ .prepared) |>.bind consumeOf with
  | none => throw (.error "No original durable operation identity")
  | some (given, hash) => do
    ensure (given = identity.toLeaseIdentity) "No original durable operation identity"
    ensure (digestMatches hash receipt) "Operation receipt hash conflict"
    let (id, kind, route) := receiptRoute receipt
    let previous ← query .step (·.get id)
    ensure (previous.all fun entry => submitted entry = some receipt) "Operation receipt conflict"
    let resolution ← prepare dev "operation_resolution" (.operationResolution receipt.operationId)
      "local" (.operationResolution receipt)
    let response ← awaited (mutate dev kind id route
      ((previous.map Entry.request).getD (.receipt identity receipt)))
    assertScope "Coordinator belongs to a retired runner scope"
    let operation ← field (response.asReply.bind Reply.operation)
    ensure (operation.operationId = receipt.operationId && operation.operationHash = hash &&
      operation.status = expectedStatus receipt) "Invalid operation recovery response"
    complete resolution.id response
    let effect ← query .step (·.get (.effect receipt.operationId))
    if effect.any (·.state ≠ .done) then
      complete (.effect receipt.operationId) (.reconciled receipt)
    else pure ()
    pure response

end GrowTeam.Runner
