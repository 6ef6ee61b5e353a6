/-
# Job transactions (`zerver/actions/agent_jobs.py`)

What people and runners may ask for while a job runs: claiming, steering, cancelling and
resuming it, its heartbeats, input deliveries and checkpoints.  Runner events are in
`GrowTeam.Server.Events`.
-/
import GrowTeam.Server.Transactions

namespace GrowTeam.Server

/-! ## Creation -/

/-- What `create_job` is given and what it looks up. -/
structure NewJob where
  id : Uuid
  requesterId : ℕ
  repositoryId : Option Uuid
  sourceMessageId : ℕ
  jobKind : JobKind
  deliveryTarget : DeliveryTarget
  baseRef : String
  audienceBinding : AudienceBinding
  draft : Bool
  /-- The profile was not ready and `allow_blocked` let the job in. -/
  needsAction : Bool

/-- A day, in the seconds `Time` counts. -/
def day : ℕ := 86400

/-- The row `create_job` saves. -/
def newJob (new : NewJob) (now : Time) : Job :=
  let waits := new.draft || new.needsAction
  { id := new.id, requesterId := new.requesterId, repositoryId := new.repositoryId,
    sourceMessageId := some new.sourceMessageId, jobKind := new.jobKind,
    deliveryTarget := new.deliveryTarget, baseRef := new.baseRef,
    audienceBinding := new.audienceBinding,
    status := if new.draft then .draft else if new.needsAction then .blocked else .queued,
    phase := .inspect, version := 1,
    blockedReason := if new.needsAction then "profile_needs_action" else "",
    stopTarget := .cancelled, eventSequence := 0, inputSequence := 0,
    resultProposal := none, resultReceipt := none, resultMessageId := none,
    startDeadline := if waits then none else some (now + day), nextAttemptAt := now,
    completedAt := none, resumeCheckpointId := none, draftCompletion := none }

/-- The store of a job that was just created. -/
def created (new : NewJob) (world : World) (now : Time) : Store :=
  let s : Store :=
    { world := world, clock := now, nextId := 1, runnerRevokedAt := none, job := newJob new now,
      attempts := [], inputs := [], operations := [], approvals := [], artifacts := [],
      verifications := [], checkpoints := [], outbox := [], audits := [], messages := [] }
  if new.draft || new.needsAction then s
  else
    { (s.createRow (.wake 1) id) with
      job := { s.job with eventSequence := 1 }, audits := [⟨1, "job.queued", none, none⟩] }

/-- What `complete_draft` is asked for. -/
structure DraftRequest where
  actor : ℕ
  expectedVersion : ℕ
  repositoryId : Uuid
  baseRef : String

/-- The receipt that a repeated completion has to match. -/
def DraftRequest.receipt (request : DraftRequest) : DraftCompletion :=
  ⟨request.expectedVersion, request.repositoryId, request.baseRef⟩

variable (s : Store)

/-- `create_job(…, completing=job)`: the draft's row is written anew. -/
def completedDraft (request : DraftRequest) : Store :=
  let fresh := newJob
    { id := s.job.id, requesterId := s.job.requesterId, repositoryId := some request.repositoryId,
      sourceMessageId := s.job.sourceMessageId.getD 0, jobKind := s.job.jobKind,
      deliveryTarget := s.job.deliveryTarget, baseRef := request.baseRef,
      audienceBinding := s.job.audienceBinding, draft := false, needsAction := false } s.clock
  ({ s with
    job := { fresh with
      version := s.job.version + 1, eventSequence := s.job.eventSequence,
      draftCompletion := some request.receipt } }).createRow (.wake 1) id

def completeDraft (request : DraftRequest) : Store → Result Store := agentTransaction fun s => do
  s.world.check (.control request.actor)
  match s.job.draftCompletion with
  | some receipt => do
    ensure (receipt = request.receipt) "Draft completion conflicts with the previous request."
    pure s
  | none => do
    ensure (s.job.status = .draft ∧ s.job.version = request.expectedVersion ∧
      s.job.sourceMessageId.isSome = true) "Draft is no longer configurable."
    -- The admission checks of `create_job` are the profile's, the queue's and the sources'.
    ensure (s.world.enabled = true) "Agents are disabled."
    s.world.check .ready
    s.world.check (.agentAccess s.job.requesterId .profileUse)
    let _ ← s.requireAudience
    (completedDraft s request).audit "job.queued" none none

/-! ## Claiming -/

/-- The checkpoint a new attempt starts from. -/
def startingCheckpoint : Option SavedCheckpoint :=
  match s.job.resumeCheckpointId with
  | some id => s.checkpoints.find? (·.id = id)
  | none =>
    s.latestAttempt.bind fun previous =>
      (s.checkpoints.filter (·.sourceAttemptId = previous.id)).getLast?

/-- `aggregate(Max("number")) or 0`, plus one. -/
def nextNumber : ℕ := (s.attempts.map (·.number)).foldl max 0 + 1

variable (claimKey : Uuid)

/-- The attempt `claim_work` saves. -/
def newAttempt (descriptor : Descriptor) : Attempt :=
  let checkpoint := startingCheckpoint s
  { id := s.nextId, number := nextNumber s, leaseEpoch := nextNumber s, active := true,
    leaseExpiresAt := s.clock + 90, claimKey := claimKey, createdAt := s.clock,
    descriptor := descriptor, audienceBinding := s.job.audienceBinding,
    sourceCheckpoint := checkpoint.map (·.id), baseCommit := "", treeHash := "",
    workspaceReference := "", workspacePreparedAt := none, runtimeSessionReference := "",
    inputCursor := (checkpoint.map (·.inputCursor)).getD 0, eventCursor := 0, toolRounds := 0,
    processState := .starting, startedAt := none, stoppedAt := none, endedAt := none,
    stopReceipt := none }

/-- The checks on a candidate.  A `ValueError` or a denied access passes it over. -/
def claimable : Result Descriptor := do
  let _ ← s.requireAudience
  s.world.check (.agentAccess s.job.requesterId .profileUse)
  s.world.check .ready
  s.world.descriptor

/-- Whether an exception of `claimable` only passes the candidate over. -/
def passesOver : Fault → Bool
  | .audienceChanged | .requiredChecksFailed | .busy | .value _ | .denied => true
  | .jsonable | .missing | .other => false

/-- The body of the loop over the candidates, for this job. -/
def claimCandidate : Result (Option Uuid × Store) :=
  if s.job.startDeadline.all (· ≤ s.clock) = true then
    .ok (none, s.transition .blocked "start_deadline_expired")
  else if s.activeAttempt.isSome = true then .ok (none, s)
  else match claimable s with
    | .error fault => if passesOver fault = true then .ok (none, s) else .error fault
    | .ok descriptor => do
      let attempt := newAttempt s claimKey descriptor
      let s := { s.allocate with attempts := s.attempts ++ [attempt] }
      let s ← (s.transition .running "").audit "attempt.starting" attempt.id none
      pure (some attempt.id, s)

/-- `claim_work`: the attempt a claim key stands for. -/
def claimWork : Store → Result (Option Uuid × Store) :=
  agentTransaction fun s => do
    s.requireRunner
    match s.attempts.find? (·.claimKey = claimKey) with
    | some prior => pure (some prior.id, s)
    | none => do
      ensure (s.world.enabled = true) "Agent feature is disabled."
      if s.world.room = true ∧ s.world.candidate = true ∧ s.job.status = .queued ∧
          s.job.nextAttemptAt ≤ s.clock then
        claimCandidate s claimKey
      else pure (none, s)

/-! ## Steering -/

def cancelJob (actor expectedVersion : ℕ) : Store → Result Store := agentTransaction fun s => do
  s.world.check (.control actor)
  if s.job.status ∈ [.cancelRequested, .cancelled] then pure s
  else do
    ensure (s.job.version = expectedVersion ∧ s.job.status ≠ .completed) "Job version changed."
    s.requestStop s.activeAttempt .cancelled ""

/-- What `add_input` is asked for. -/
structure InputRequest where
  actor : ℕ
  expectedVersion : ℕ
  clientKey : Uuid
  text : String
  inputType : String
  sourceMessageId : Option ℕ
  deriving DecidableEq

variable (request : InputRequest)

/-- Whether an input was saved for the same request (its `payload_digest`). -/
def InputRequest.matches (i : Input) : Bool :=
  i.text = request.text && i.inputType = request.inputType &&
    i.sourceMessageId = request.sourceMessageId && i.authorId = request.actor

/-- The input an earlier request with this client key, or else with this source message,
saved. -/
def priorInput : Option Input :=
  (s.inputs.find? (·.clientKey = request.clientKey)).or
    (request.sourceMessageId.bind fun id => s.inputs.find? (·.sourceMessageId = some id))

/-- The statuses that a new input sends back to `running`. -/
def reopened : List JobState := [.verifying, .waitingForInput, .waitingForApproval]

/-- The writes of `add_input`. -/
def addedInput : Store :=
  let reopens := decide (s.job.status ∈ reopened)
  let input : Input :=
    { id := s.nextId, sequence := s.job.inputSequence + 1, authorId := request.actor,
      clientKey := request.clientKey, sourceMessageId := request.sourceMessageId,
      inputType := request.inputType, text := request.text, deliveryState := .pending,
      deliveredAttempt := none, appliedAt := none, receipts := [] }
  let s := s.updateJob fun job =>
    { job with
      inputSequence := job.inputSequence + 1, version := job.version + 1,
      status := if reopens then .running else job.status,
      resultProposal := if reopens then none else job.resultProposal }
  let s := if reopens then (s.attempts.filter (·.active)).foldl
    (fun s a => s.invalidateApprovals a.id) s else s
  { s.allocate with inputs := s.inputs ++ [input] }

def addInput : Store → Result Store := fun s => do
  ensure (request.text ≠ "" ∧ request.text.length ≤ 20000 ∧
    request.inputType ∈ ["steering", "answer", "replan"]) "Invalid input."
  agentTransaction (fun s => do
    s.world.check (.control request.actor)
    match priorInput s request with
    | some prior => do
      ensure (request.matches prior = true) "Input idempotency conflict."
      pure s
    | none => do
      ensure (s.job.version = request.expectedVersion ∧
        s.job.status ∉ terminal ++ [.cancelRequested]) "Job cannot accept input."
      ensure (s.job.inputSequence < 100) "Job input limit exceeded."
      ensure (s.job.status = .queued ∨ s.activeAttempt.isSome = true)
        "Stopped execution cannot accept new input."
      ensure (∀ a ∈ s.activeAttempt, a.processState ∉ [.stopping, .unknown])
        "Stopping execution cannot accept new input."
      let _ ← s.requireAudience
      s.world.check (.agentAccess request.actor .profileUse)
      request.sourceMessageId.forM fun id => do
        s.world.check (.referenceAudience id)
        s.world.check (.message request.actor id)
        s.world.check (.message s.job.audienceBinding.botUserId id)
      (addedInput s request).audit "input.received" none none) s

/-- The checks of `resume_job` on the chosen checkpoint. -/
def resumableFrom (checkpointId : Uuid) : Result Unit := do
  let checkpoint ← one s.checkpoints (·.id = checkpointId)
  ensure (checkpoint.audienceBinding = s.job.audienceBinding) "Checkpoint audience changed."
  ensure ((s.available checkpoint.sourceAttemptId checkpoint.artifactIds).length =
    checkpoint.artifactIds.dedup.length) "Checkpoint artifacts are unavailable."
  s.world.check (.contextRefs checkpoint.contextRefIds)

/-- The writes of `resume_job`. -/
def resumed (checkpointId : Option Uuid) : Store :=
  let s := (s.updateJob fun job =>
    { job with
      resumeCheckpointId := checkpointId, startDeadline := some (s.clock + day),
      resultProposal := none }).transition .queued ""
  s.createRow (.wake s.job.version) id

def resumeJob (actor expectedVersion : ℕ) (checkpointId : Option Uuid) : Store → Result Store :=
  agentTransaction fun s => do
    s.world.check (.control actor)
    ensure (s.job.version = expectedVersion ∧
      s.job.status ∈ [.cancelled, .failed, .interrupted, .blocked]) "Job cannot resume."
    ensure (s.activeAttempt = none) "Previous containment has not stopped."
    ensure (s.operations.all (!Store.unresolved ·) = true) "Operation reconciliation is required."
    ensure (s.inputs.all (·.deliveryState ≠ .deliveryUncertain) = true)
      "Input reconciliation is required."
    s.world.check .ready
    let _ ← s.requireAudience
    s.world.check (.agentAccess actor .profileUse)
    checkpointId.forM (resumableFrom s)
    ensure (s.world.enabled = true) "Agents are disabled."
    pure (resumed s checkpointId)

/-- `revoke_runner` (`zerver/actions/agents.py`).  Its table locks keep it apart from every
agent transaction. -/
def revokeRunner : Store :=
  if s.runnerRevokedAt.isSome = true then s
  else
    let s := { s with runnerRevokedAt := some s.clock }
    match s.activeAttempt with
    | none => s
    | some _ =>
      let s := s.updateJob fun job =>
        { job with status := .cancelRequested, version := job.version + 1 }
      { s with
        attempts := updateWhere (·.active) (fun a => { a with processState := .stopping })
          s.attempts }

/-! ## The runner's side of a lease -/

variable (lease : LeaseIdentity)

def deliverInputs (version : Option ℕ) : Store → Result (List Input × Store) :=
  agentTransaction fun s => do
    s.requireRunner
    let attempt ← s.lockedAttempt lease version
    let items := (s.inputs.filter Store.unapplied).take 100
    ensure (items.all fun i => i.deliveredAttempt ∈ [none, some attempt.id])
      "Earlier input delivery needs reconciliation."
    let s := s.updateInputs (fun i => i.id ∈ items.map (·.id) && i.deliveryState = .pending)
      fun i => { i with deliveryState := .delivered, deliveredAttempt := some attempt.id }
    pure (s.inputs.filter fun i => i.id ∈ items.map (·.id), s)

def fencePreparedResult (attempt : Attempt) : Store :=
  if s.job.status ≠ .verifying ∨ s.job.resultProposal = none ∨ attempt.active = false ∨
      attempt.processState ≠ .active ∨ s.inputs.any Store.unapplied = true then s
  else (s.updateAttempt attempt.id fun a => { a with processState := .stopping }).updateJob
    fun job => { job with version := job.version + 1 }

/-- What the runner is told about one lease. -/
structure LeaseControl where
  identity : LeaseIdentity
  jobVersion : ℕ
  leaseExpiresAt : Time
  stop : Bool

/-- One identity of a heartbeat.  An expired lease never comes back to life. -/
def heartbeatLease (identity : LeaseIdentity) : Result (List LeaseControl × Store) := do
  let attempt ← s.lockedLease identity none
  if attempt.active = false then pure ([], s)
  else if attempt.processState ∈ [.starting, .active] ∧ s.job.status ∈ executing then do
    s.requireExecution attempt
    let limit := attempt.createdAt + attempt.descriptor.activeSeconds
    let expires := min (s.clock + 90) limit
    let s := (fencePreparedResult s attempt).updateAttempt attempt.id fun a =>
      { a with leaseExpiresAt := expires }
    let stop := (s.attempts.find? (·.id = attempt.id)).any (·.processState ∈ [.stopping, .unknown])
    pure ([⟨identity, s.job.version, expires, stop⟩], s)
  else
    pure ([⟨identity, s.job.version, attempt.leaseExpiresAt,
      decide (attempt.processState ∈ [.stopping, .unknown])⟩], s)

/-- The loop of `heartbeat`. -/
def heartbeatLeases : List LeaseIdentity → Store → Result (List LeaseControl × Store)
  | [], s => pure ([], s)
  | identity :: rest, s => do
    let (first, s) ← heartbeatLease s identity
    let (others, s) ← heartbeatLeases rest s
    pure (first ++ others, s)

def heartbeat (identities : List LeaseIdentity) : Store → Result (List LeaseControl × Store) :=
  agentTransaction fun s => do
    s.requireRunner
    heartbeatLeases identities s

/-- The exceptions at which the view `controls` stops an attempt. -/
def losesAuthority : Fault → Bool
  | .busy | .other => false
  | _ => true

/-- One active attempt in the view `controls`. -/
def controlAttempt (attempt : Attempt) : Result Store :=
  if attempt.processState ∈ [.starting, .active] then
    match s.requireExecution attempt with
    | .ok () => .ok (fencePreparedResult s attempt)
    | .error fault =>
      if losesAuthority fault = true then s.requestStop attempt .blocked "authority_changed"
      else .error fault
  else .ok s

/-- The view `controls` (`zerver/views/agent_runner.py`).  A job has one active attempt. -/
def controls : Store → Result (List LeaseControl × Store) := agentTransaction fun s => do
  s.requireRunner
  let s ← (s.activeAttempt.elim (pure s) (controlAttempt s) : Result Store)
  pure ((s.attempts.filter (·.active)).map fun a =>
    ⟨⟨s.job.id, a.id, a.leaseEpoch⟩, s.job.version, a.leaseExpiresAt,
      decide (a.processState ∈ [.stopping, .unknown]) || decide (a.leaseExpiresAt ≤ s.clock)⟩, s)

def saveCheckpoint (version : Option ℕ) (checkpoint : Checkpoint) :
    Store → Result Store := agentTransaction fun s => do
  s.requireRunner
  let attempt ← s.lockedAttempt lease version
  ensure (checkpoint.sourceAttemptId = attempt.id ∧
    checkpoint.inputCursor = attempt.inputCursor) "Checkpoint attempt or cursor mismatch."
  ensure (s.job.repositoryId = none ∨ (checkpoint.baseCommit = some attempt.baseCommit ∧
    checkpoint.treeHash.isSome = true)) "Checkpoint workspace mismatch."
  s.world.check (.contextRefs checkpoint.contextRefIds)
  ensure ((s.available attempt.id checkpoint.artifactIds).length =
    checkpoint.artifactIds.dedup.length) "Checkpoint artifact is unavailable."
  match s.checkpoints.find? (·.id = checkpoint.id) with
  | some prior => do
    ensure (prior.toCheckpoint = checkpoint ∧
      prior.audienceBinding = attempt.audienceBinding) "Checkpoint idempotency conflict."
    pure s
  | none => do
    s.world.check (.secrets checkpoint.summary)
    let saved : SavedCheckpoint := ⟨checkpoint, attempt.audienceBinding⟩
    let s := s.updateAttempt attempt.id fun a =>
      { a with treeHash := checkpoint.treeHash.getD "" }
    pure { s with checkpoints := s.checkpoints ++ [saved] }

/-- What `reconcile_input` is asked for. -/
structure InputReconciliation where
  inputId : Uuid
  inputSequence : ℕ
  applied : Bool
  receiptId : Uuid

/-- Whether every earlier input was applied. -/
def inOrder (sequence : ℕ) : Bool :=
  s.inputs.all fun i => !(i.sequence < sequence && Store.unapplied i)

/-- The writes of `reconcile_input`. -/
def reconciledInput (input : Input) (receipt : InputReceipt) : Store :=
  s.updateInputs (·.id = input.id) fun i =>
    if receipt.outcomeApplied then
      { i with
        deliveryState := .applied, appliedAt := some s.clock, receipts := i.receipts ++ [receipt] }
    else
      { i with
        deliveryState := .pending, deliveredAttempt := none, receipts := i.receipts ++ [receipt] }

def reconcileInput (request : InputReconciliation) :
    Store → Result Store := agentTransaction fun s => do
  s.requireRunner
  let attempt ← s.lockedLease lease none
  ensure (s.superseded attempt = false) "Input attempt is unavailable."
  let _ ← s.requireAudience
  s.world.check (.agentAccess s.job.requesterId .profileUse)
  let input ← one s.inputs fun i =>
    i.id = request.inputId && i.sequence = request.inputSequence
  let receipt : InputReceipt :=
    ⟨request.applied, request.receiptId, attempt.id, lease.leaseEpoch⟩
  match input.receipts.find? (·.receiptId = request.receiptId) with
  | some recorded => do
    ensure (recorded = receipt) "Input reconciliation conflict."
    pure s
  | none => do
    -- Each attempt has one immutable outcome. Only a later attempt can retry.
    ensure (input.receipts.all fun r => r.attemptId ≠ attempt.id) "Input reconciliation conflict."
    ensure (∀ latest ∈ input.receipts.getLast?, latest.outcomeApplied = false)
      "Input reconciliation conflict."
    ensure (input.deliveredAttempt = some attempt.id ∧
      input.deliveryState = .deliveryUncertain) "Input is not uncertain for this attempt."
    ensure (request.applied = false ∨ inOrder s input.sequence = true)
      "Input reconciliation is out of order."
    pure (reconciledInput s input receipt)

end GrowTeam.Server
