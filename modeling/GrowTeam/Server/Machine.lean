/-
# The server as a machine

Every transaction of the modelled functions, the routines that are made of several, and
the machine whose runs are all interleavings of them.  `wait` lets time pass and `change`
replaces the rest of the server, so a transaction never meets the world its predecessor
left.  A crash drops every routine in flight, on-commit hooks included, and keeps the
database.
-/
import GrowTeam.Interleaving
import GrowTeam.Server.Results

namespace GrowTeam.Server

open Interleaving

/-! ## Transactions -/

/-- The atomic steps of the server. -/
inductive Transaction where
  | wait (duration : ℕ)
  | change (world : World)
  | completeDraft (request : DraftRequest)
  | claimWork (claimKey : Uuid)
  | cancelJob (actor expectedVersion : ℕ)
  | addInput (request : InputRequest)
  | resumeJob (actor expectedVersion : ℕ) (checkpointId : Option Uuid)
  | revokeRunner
  | deliverInputs (lease : LeaseIdentity) (version : Option ℕ)
  | heartbeat (identities : List LeaseIdentity)
  | controls
  | saveCheckpoint (lease : LeaseIdentity) (version : Option ℕ) (checkpoint : Checkpoint)
  | reconcileInput (lease : LeaseIdentity) (request : InputReconciliation)
  | events (event : RunnerEvent) (expectedVersion : ℕ)
  | stopEvidence (event : RunnerEvent)
  | proposeOperation (lease : LeaseIdentity) (version : Option ℕ) (proposal : Proposal)
  | decideApproval (decision : Decision)
  | consumeOperation (lease : LeaseIdentity) (version : Option ℕ) (request : Consumption)
  | reconcileOperation (lease : LeaseIdentity) (receipt : RemoteReceipt)
  | reconcileLocalOperation (lease : LeaseIdentity) (receipt : LocalOperationReceipt)
  | beginTeamOperation (lease : LeaseIdentity) (version : ℕ) (request : Consumption)
  | storeTeamReceipt (lease : LeaseIdentity) (operationId : Uuid) (receipt : TeamReceipt)
  | admitUpload (lease : LeaseIdentity) (version : ℕ)
  | uploadBudget (lease : LeaseIdentity)
  | registerArtifact (lease : LeaseIdentity) (upload : Upload)
  | readJob
  | readArtifacts (proposal : ResultPayload)
  | publish (proposal : ResultPayload) (artifacts : List Artifact)
  | blockPublication (target : JobState) (reason : String) (parkOutbox : Bool)
  | deliverResultPrivately (actor expectedVersion : ℕ)
  | publishDraft (data : DraftText)
  | readReceipt
  | editMessage (edit : Edit)
  | deleteMessage (id : ℕ)
  | expire (reach : Reach)
  | selectDue (limit : ℕ)
  | takeRow (key : DeliveryKey)
  | notify
  | overtaken (key : DeliveryKey)
  | finishRow (key : DeliveryKey) (delivered : Bool)

namespace Transaction

/-- What a transaction answers. -/
@[reducible] def Answer : Transaction → Type
  | .claimWork _ => Option Uuid
  | .deliverInputs .. => List Input
  | .heartbeat _ | .controls => List LeaseControl
  | .events .. | .stopEvidence _ => EventReceipt × Bool
  | .beginTeamOperation .. | .readReceipt | .takeRow _ | .overtaken _ => Bool
  | .uploadBudget _ => ℕ
  | .readJob => ResultReceipt ⊕ ResultPayload
  | .readArtifacts _ => List Artifact
  | .publish .. => ResultReceipt × Option Edit
  | .publishDraft _ => Option Edit
  | .selectDue _ => List DeliveryKey
  | _ => Unit

/-- A transaction without an answer. -/
def silent (x : Result Store) : Result (Unit × Store) := x.map ((), ·)

/-- A query, which writes nothing. -/
def query {α : Type} (s : Store) (x : Result α) : Result (α × Store) := x.map (·, s)

/-- What a transaction does. -/
def run (site : Site) : (t : Transaction) → Store → Result (t.Answer × Store)
  | .wait duration => fun s => .ok ((), { s with clock := s.clock + duration })
  | .change world => fun s => .ok ((), { s with world := world })
  | .completeDraft request => fun s => silent (Server.completeDraft request s)
  | .claimWork claimKey => Server.claimWork claimKey
  | .cancelJob actor version => fun s => silent (Server.cancelJob actor version s)
  | .addInput request => fun s => silent (Server.addInput request s)
  | .resumeJob actor version checkpoint => fun s =>
    silent (Server.resumeJob actor version checkpoint s)
  | .revokeRunner => fun s => .ok ((), Server.revokeRunner s)
  | .deliverInputs lease version => Server.deliverInputs lease version
  | .heartbeat identities => Server.heartbeat identities
  | .controls => Server.controls
  | .saveCheckpoint lease version checkpoint => fun s =>
    silent (Server.saveCheckpoint lease version checkpoint s)
  | .reconcileInput lease request => fun s => silent (Server.reconcileInput lease request s)
  | .events event version => Server.events event version
  | .stopEvidence event => Server.stopEvidence event
  | .proposeOperation lease version proposal => fun s =>
    silent (Server.proposeOperation site lease version proposal s)
  | .decideApproval decision => fun s => silent (Server.decideApproval decision s)
  | .consumeOperation lease version request => fun s =>
    silent (Server.consumeOperation lease version request s)
  | .reconcileOperation lease receipt => fun s =>
    silent (Server.reconcileOperation site lease receipt s)
  | .reconcileLocalOperation lease receipt => fun s =>
    silent (Server.reconcileLocalOperation lease receipt s)
  | .beginTeamOperation lease version request => Server.beginTeamOperation lease version request
  | .storeTeamReceipt lease operation receipt => fun s =>
    silent (Server.storeTeamReceipt lease operation receipt s)
  | .admitUpload lease version => fun s => silent (Server.admitUpload lease version s)
  | .uploadBudget lease => Server.uploadBudget lease
  | .registerArtifact lease upload => fun s => silent (Server.registerArtifact lease upload s)
  | .readJob => fun s => query s (Server.readJob s)
  | .readArtifacts proposal => fun s => query s (Server.readArtifacts proposal s)
  | .publish proposal artifacts => Server.publish site proposal artifacts
  | .blockPublication target reason park => fun s =>
    silent (Server.blockPublication target reason park s)
  | .deliverResultPrivately actor version => fun s =>
    silent (Server.deliverResultPrivately site actor version s)
  | .publishDraft data => Server.publishDraft data
  | .readReceipt => fun s => .ok (s.job.resultReceipt.isSome, s)
  | .editMessage edit => fun s => .ok ((), Server.editMessage edit.1 edit.2 s)
  | .deleteMessage id => fun s => .ok ((), Server.deleteMessage id s)
  | .expire reach => fun s => silent (Server.expire reach s)
  | .selectDue limit => fun s => .ok (Server.selectDue s limit, s)
  | .takeRow key => Server.takeRow key
  | .notify => fun s => query s (s.world.check .notify)
  | .overtaken key => fun s => .ok (Server.overtaken s key, s)
  | .finishRow key delivered => fun s => silent (Server.finishRow key delivered s)

end Transaction

/-! ## Routines -/

/-- A step of a run: the transaction, and whether a reconcile pass makes it. -/
structure Tag where
  byPass : Bool
  transaction : Transaction

/-- Routines of the server.  Every transaction is a scheduling point. -/
abbrev Program := ExceptT Fault (Routine Store Unit Tag)

variable (site : Site) (byPass : Bool)

/-- One transaction. -/
def perform (t : Transaction) : Program t.Answer :=
  Routine.attempt true ⟨byPass, t⟩ fun _ s => t.run site s

/-- An edit that was left for after the commit, if one was. -/
def afterCommit (edit : Option Edit) : Program Unit :=
  match edit with
  | none => pure ()
  | some edit => perform site byPass (.editMessage edit)

/-- `_publish_result`. -/
def publishResultUnguarded : Program ResultReceipt := do
  match ← perform site byPass .readJob with
  | .inl receipt => pure receipt
  | .inr proposal => do
    let artifacts ← perform site byPass (.readArtifacts proposal)
    let (receipt, edit) ← perform site byPass (.publish proposal artifacts)
    afterCommit site byPass edit
    pure receipt

/-- What `publish_result` does about an exception before it raises it again. -/
def handlePublication : Fault → Program Unit
  -- The result stays available for the requester to send privately.
  | .audienceChanged =>
    perform site byPass (.blockPublication .verifying "audience_changed" true)
  -- A required check failed against the final tree: the job ends.
  | .requiredChecksFailed =>
    perform site byPass (.blockPublication .failed "verification_failed" true)
  | .other => pure ()
  -- Any other error is presumed transient; the row stays for the next pass.
  | .busy | .value _ | .denied | .jsonable | .missing =>
    perform site byPass (.blockPublication .verifying "publication_blocked" false)

def publishResult : Program ResultReceipt :=
  tryCatch (publishResultUnguarded site byPass) fun fault => do
    handlePublication site byPass fault
    throw fault

/-- The delivery of one outbox row.  `notifies` is whether the pass was given a `notify`. -/
def deliverRow (notifies : Bool) (key : DeliveryKey) : Program Bool :=
  if key = .result then do
    let _ ← publishResult site true
    pure true
  else if notifies = true then do
    perform site true .notify
    pure true
  else perform site true (.overtaken key)

/-- One selected row: taken, delivered with every exception caught, and finished. -/
def reconcileRow (notifies : Bool) (key : DeliveryKey) : Program Unit := do
  let taken ← perform site true (.takeRow key)
  if taken = true then do
    let delivered ← tryCatch (deliverRow site notifies key) fun _ => pure false
    perform site true (.finishRow key delivered)
  else pure ()

def reconcileAgents (reach : Reach) (notifies : Bool) : Program Unit := do
  perform site true (.expire reach)
  let keys ← perform site true (.selectDue reach.rows)
  keys.forM (reconcileRow site notifies)

/-- `publish_draft`, with the edit after its commit: the receipt is looked at in one
transaction and the message written in another. -/
def streamDraft (data : DraftText) : Program Unit := do
  match ← perform site false (.publishDraft data) with
  | none => pure ()
  | some edit => do
    let published ← perform site false .readReceipt
    if published = true then pure () else perform site false (.editMessage edit)

/-- An event, and the publication that follows a stop event's commit. -/
def recordThenPublish (t : Transaction) (due : t.Answer → Bool) : Program Unit := do
  let answer ← perform site false t
  if due answer = true then do
    let _ ← publishResult site false
    pure ()
  else pure ()

/-- `_RECEIPT_RETRY_DELAYS`: how often a busy receipt is tried again. -/
def receiptRetries : ℕ := 7

/-- Phase 3 of `execute_operation` with its retries. -/
def storeReceipt (site : Site) (lease : LeaseIdentity) (operationId : Uuid)
    (receipt : TeamReceipt) : ℕ → Program Unit
  | 0 => perform site false (.storeTeamReceipt lease operationId receipt)
  | n + 1 =>
    tryCatch (perform site false (.storeTeamReceipt lease operationId receipt)) fun fault =>
      if fault = .busy then storeReceipt site lease operationId receipt n else throw fault

/-- `execute_operation`.  The tool runs between the transactions; `receipt` is its outcome. -/
def executeOperation (lease : LeaseIdentity) (version : ℕ) (request : Consumption)
    (receipt : TeamReceipt) : Program Unit := do
  let begun ← perform site false (.beginTeamOperation lease version request)
  if begun = true then storeReceipt site lease request.operationId receipt receiptRetries
  else pure ()

/-- The view `artifacts` with `store_artifact`. -/
def storeArtifact (lease : LeaseIdentity) (version : ℕ) (upload : Upload) : Program Unit := do
  perform site false (.admitUpload lease version)
  let budget ← perform site false (.uploadBudget lease)
  if upload.size ≤ budget then perform site false (.registerArtifact lease upload)
  else throw (.value "Artifact size limit exceeded.")

/-! ## The machine -/

/-- What the server may be asked to do.  `request` is any transaction that is a whole
request of its own. -/
inductive Call where
  | request (t : Transaction)
  | event (event : RunnerEvent) (expectedVersion : ℕ)
  | stopEvidence (event : RunnerEvent)
  | draft (data : DraftText)
  | execute (lease : LeaseIdentity) (version : ℕ) (request : Consumption) (receipt : TeamReceipt)
  | artifact (lease : LeaseIdentity) (version : ℕ) (upload : Upload)
  | reconcile (reach : Reach) (notifies : Bool)

/-- Whether a transaction is a whole request: the others are parts of a routine. -/
def standalone : Transaction → Bool
  | .wait _ | .change _ | .completeDraft _ | .claimWork _ | .cancelJob .. | .addInput _
  | .resumeJob .. | .revokeRunner | .deliverInputs .. | .heartbeat _ | .controls
  | .saveCheckpoint .. | .reconcileInput .. | .proposeOperation .. | .decideApproval _
  | .consumeOperation .. | .reconcileOperation .. | .reconcileLocalOperation ..
  | .deliverResultPrivately .. | .deleteMessage _ => true
  | _ => false

/-- The routine of a call. -/
def program : Call → Program Unit
  | .request t => if standalone t = true then do let _ ← perform site false t else pure ()
  | .event event version => recordThenPublish site (.events event version) (·.2)
  | .stopEvidence event => recordThenPublish site (.stopEvidence event) (·.2)
  | .draft data => streamDraft site data
  | .execute lease version request receipt => executeOperation site lease version request receipt
  | .artifact lease version upload => storeArtifact site lease version upload
  | .reconcile reach notifies => reconcileAgents site reach notifies

/-- The server of one job. -/
def machine : Machine Store Unit Tag Call where
  routine call := (program site call).run.bind fun _ => .done ()
  reboot s := s

end GrowTeam.Server
