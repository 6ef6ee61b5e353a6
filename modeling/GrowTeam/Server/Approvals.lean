/-
# Operations and their approvals (`zerver/actions/agent_approvals.py`)

An operation is proposed, waits for an approval where the policy asks for one, is consumed
once and finished by a runner event, a receipt or the server itself (team tools).
-/
import GrowTeam.Server.Events

namespace GrowTeam.Server

def approvalActions : List Action :=
  [.gitPush, .gitDraftPr, .dependenciesInstall, .shellRun, .teamManage]

/-- The remote fields of a push or a draft pull request: remote, commit and branch. -/
def remoteOf : OperationArguments → Option (String × String × String)
  | .push _ remote branch commit _ => some (remote, commit, branch)
  | .draftPr _ remote _ head commit _ => some (remote, commit, head)
  | _ => none

/-! ## Proposals -/

/-- What `propose_operation` is asked for. -/
structure Proposal where
  operationId : Uuid
  arguments : OperationArguments
  treeHash : Option String
  diffArtifactId : Option Uuid

variable (s : Store)

/-- The authority an operation of this action needs. -/
def withinAuthority (attempt : Attempt) (proposal : Proposal) : Result Unit :=
  match proposal.arguments with
  | .team _ => do
    ensure (s.job.jobKind = .manage ∧ proposal.treeHash = none)
      "Operation exceeds the tested authority."
    s.checkAttemptAccess s.job.requesterId attempt (.perform .teamManage)
  | args =>
    ensure (args.action ∈ attempt.descriptor.testedActions ∧
      (s.job.jobKind ≠ .answer ∨ args.action ∈ [.contextRead, .repositoryRead]))
      "Operation exceeds the tested authority."

/-- The checks of `propose_operation` that belong to one kind of arguments. -/
def withinScope (site : Site) (s : Store) (attempt : Attempt) (proposal : Proposal) :
    Result Unit :=
  match proposal.arguments with
  | .contextRead ids => s.world.check (.contextRefs ids)
  | .tool _ _ cwd network _ =>
    ensure (network = attempt.descriptor.network ∧ site.outside cwd = false)
      "Tool scope is invalid."
  | .checks _ checkIds treeHash =>
    match attempt.descriptor.repository with
    | none => .error .other
    | some repository =>
      ensure (checkIds ⊆ repository.requiredChecks.map (·.id) ∧ some treeHash = proposal.treeHash)
        "Check scope is invalid."
  | .repositoryRead _ paths =>
    ensure (paths.all fun path => !site.outside path) "Repository path is invalid."
  | .push _ remote branch _ _ => do
    ensure (s.world.canonicalOrigin = some remote) "Remote differs from the approved repository."
    ensure (site.jobBranch s.job.id branch = true) "Remote branch is outside this job."
  | .draftPr _ remote base head _ _ => do
    ensure (s.world.canonicalOrigin = some remote) "Remote differs from the approved repository."
    ensure (base ∈ s.world.allowedRefs) "Draft PR base is outside the approved refs."
    ensure (site.jobBranch s.job.id head = true) "Remote branch is outside this job."
  | .repositoryEdit .. | .commit .. | .team _ => .ok ()

/-- The checksum of the diff a proposal refers to. -/
def diffChecksum (attempt : Attempt) (proposal : Proposal) : Result (Option String) :=
  match proposal.diffArtifactId with
  | none => .ok none
  | some id => do
    let artifact ← one s.artifacts fun a =>
      a.id = id && a.attemptId = attempt.id && a.kind = .diff && a.unavailableAt.isNone
    pure (some artifact.checksum)

/-- All checks of `propose_operation`; the result is the binding of the operation. -/
def proposable (site : Site) (s : Store) (attempt : Attempt) (proposal : Proposal) :
    Result ScopeBinding := do
  withinAuthority s attempt proposal
  ensure (proposal.arguments.needsWorkspace = false ∨
    (proposal.arguments.repositoryId = s.job.repositoryId ∧
      attempt.workspacePreparedAt.isSome = true ∧ proposal.treeHash = some attempt.treeHash))
    "Operation workspace is unavailable."
  withinScope site s attempt proposal
  let checksum ← diffChecksum s attempt proposal
  ensure (proposal.arguments.action ∉ [.gitPush, .gitDraftPr] ∨ checksum.isSome = true)
    "Remote proposal requires a reviewable diff."
  pure
    { attemptId := attempt.id, leaseEpoch := attempt.leaseEpoch,
      policyVersion := attempt.descriptor.policyVersion, treeHash := proposal.treeHash,
      diffArtifactId := proposal.diffArtifactId, diffChecksum := checksum,
      audience := attempt.audienceBinding }

def requiresApproval (attempt : Attempt) : OperationArguments → Bool
  | .team input => s.world.needsConfirmation input
  | args =>
    args.action ∈ [.gitPush, .gitDraftPr] || args.action ∉ attempt.descriptor.policyActions

/-- The operation row of a proposal. -/
def newOperation (site : Site) (attempt : Attempt) (proposal : Proposal) (binding : ScopeBinding)
    (status : OperationState) : Operation :=
  { operationId := proposal.operationId, attemptId := attempt.id,
    toolClass := proposal.arguments.action,
    argumentDigest := site.digest proposal.arguments binding, arguments := proposal.arguments,
    scopeBinding := binding, status := status, version := 1, startedAt := none,
    finishedAt := none, remoteReceipt := none, localReceipt := none, serverReceipt := none }

/-- The approval row of a proposal that needs one. -/
def newApproval (attempt : Attempt) (operation : Operation) : Approval :=
  { id := s.nextId, attemptId := attempt.id, operationId := operation.operationId,
    operationHash := operation.argumentDigest,
    policyVersion := attempt.descriptor.policyVersion, version := 1,
    treeHash := operation.scopeBinding.treeHash.getD "", decision := .pending,
    expiresAt := s.clock + 900, nonce := s.nextId + 1, approver := none, decidedAt := none,
    consumedAt := none }

/-- An operation that the policy allows as it is. -/
def authorize (site : Site) (s : Store) (attempt : Attempt) (proposal : Proposal)
    (binding : ScopeBinding) : Result Store := do
  s.checkAttemptAccess s.job.requesterId attempt (.perform proposal.arguments.action)
  pure { s with
    operations := s.operations ++ [newOperation site attempt proposal binding .authorized] }

/-- An operation that waits for an approval. -/
def requestApproval (site : Site) (s : Store) (attempt : Attempt) (proposal : Proposal)
    (binding : ScopeBinding) : Result Store := do
  ensure (proposal.arguments.action ∈ approvalActions) "Operation requires a new scoped task."
  let operation := newOperation site attempt proposal binding .proposed
  let approval := newApproval s attempt operation
  -- Two ids: the approval's and its nonce.
  let s := { s.allocate.allocate with
    operations := s.operations ++ [operation], approvals := s.approvals ++ [approval] }
  (s.transition .waitingForApproval "").audit "approval.requested" attempt.id none

/-- The operation an earlier proposal with this id made. -/
def priorOperation (proposal : Proposal) : Option Operation :=
  s.operations.find? (·.operationId = proposal.operationId)

def proposeOperation (site : Site) (lease : LeaseIdentity) (version : Option ℕ)
    (proposal : Proposal) : Store → Result Store := agentTransaction fun s => do
  s.requireRunner
  let attempt ← s.lockedAttempt lease version
  let binding ← proposable site s attempt proposal
  match priorOperation s proposal with
  | some prior => do
    ensure (prior.attemptId = attempt.id ∧
      prior.argumentDigest = site.digest proposal.arguments binding)
      "Operation idempotency conflict."
    pure s
  | none =>
    if requiresApproval s attempt proposal.arguments = true then
      requestApproval site s attempt proposal binding
    else authorize site s attempt proposal binding

/-! ## Decisions -/

/-- What `decide_approval` is asked for. -/
structure Decision where
  actor : ℕ
  approvalId : Uuid
  expectedVersion : ℕ
  operationHash : String
  nonce : Uuid
  approved : Bool

/-- The approval row after a decision. -/
def decidedApproval (decision : Decision) : Store :=
  s.updateApprovals (·.id = decision.approvalId) fun a =>
    { a with
      approver := some decision.actor,
      decision := if decision.approved then .approved else .rejected,
      decidedAt := some s.clock, version := a.version + 1 }

/-- `locked_attempt` for the attempt of an approval. -/
def attemptOf (approval : Approval) : Result Attempt := do
  let attempt ← one s.attempts (·.id = approval.attemptId)
  s.lockedAttempt ⟨s.job.id, attempt.id, attempt.leaseEpoch⟩ none

def decideApproval (decision : Decision) : Store → Result Store := agentTransaction fun s => do
  let approval ← one s.approvals (·.id = decision.approvalId)
  let attempt ← attemptOf s approval
  let operation ← one s.operations (·.operationId = approval.operationId)
  s.world.check (.jobAccess decision.actor)
  if operation.toolClass = .teamManage ∧ decision.actor ≠ s.job.requesterId then .error .denied
  else do
    s.checkAttemptAccess decision.actor attempt (.perform operation.toolClass)
    ensure (approval.operationHash = decision.operationHash ∧ approval.nonce = decision.nonce ∧
      approval.version = decision.expectedVersion ∧ approval.decision = .pending ∧
      s.clock < approval.expiresAt ∧ attempt.treeHash = approval.treeHash ∧
      s.world.policyVersion = approval.policyVersion) "Approval proposal changed or expired."
    let s := decidedApproval s decision
    let s ← if decision.approved = true then pure (s.transition .running "")
      else s.requestStop attempt .blocked "approval_rejected"
    s.audit "approval.resolved" attempt.id none

/-! ## Consumption -/

/-- What `consume_operation` is asked for. -/
structure Consumption where
  operationId : Uuid
  expectedVersion : ℕ
  operationHash : String
  nonce : Option Uuid

/-- The phase of a job that runs an operation of this class. -/
def phaseOf : Action → Phase
  | .repositoryEdit | .shellRun | .dependenciesInstall => .edit
  | .checksRun => .verify
  | .gitCommit => .review
  | .gitPush | .gitDraftPr => .deliver
  | .contextRead | .repositoryRead | .teamManage => .inspect

/-- The approval a proposed operation is started with. -/
def usableApproval (attempt : Attempt) (operation : Operation)
    (request : Consumption) : Result Approval := do
  let approval ← present
    (s.approvals.find? fun a => a.operationId = operation.operationId && a.decision = .approved)
    "Approval is unavailable."
  ensure (s.clock < approval.expiresAt ∧ some approval.nonce = request.nonce)
    "Approval is unavailable."
  let approver ← present approval.approver "Approval is unavailable."
  s.checkAttemptAccess approver attempt (.perform operation.toolClass)
  ensure (approval.operationHash = request.operationHash ∧ approval.treeHash = attempt.treeHash)
    "Approval no longer matches."
  pure approval

/-- The approval of a started operation is used up. -/
def consumeApproval (attempt : Attempt) (operation : Operation)
    (request : Consumption) : Result Store :=
  if operation.status = .proposed then do
    let approval ← usableApproval s attempt operation request
    pure <| s.updateApprovals (·.id = approval.id) fun a =>
      { a with decision := .consumed, consumedAt := some s.clock, version := a.version + 1 }
  else do
    s.checkAttemptAccess s.job.requesterId attempt (.perform operation.toolClass)
    pure s

/-- The operation as it starts. -/
def startedOperation (attempt : Attempt) (operation : Operation) : Store :=
  let s := s.updateJob fun job => { job with phase := phaseOf operation.toolClass }
  let s := s.updateOperations (·.operationId = operation.operationId) fun o =>
    { o with status := .started, startedAt := some s.clock, version := o.version + 1 }
  s.updateAttempt attempt.id fun a => { a with toolRounds := a.toolRounds + 1 }

/-- The body of `consume_operation`. -/
def startOperation (lease : LeaseIdentity) (version : Option ℕ) (request : Consumption)
    (s : Store) : Result Store := do
  let attempt ← s.lockedAttempt lease version
  let operation ← one s.operations fun o =>
    o.operationId = request.operationId && o.attemptId = attempt.id
  ensure (operation.version = request.expectedVersion ∧
    operation.argumentDigest = request.operationHash ∧
    operation.status ∈ [.proposed, .authorized])
    "Operation was consumed or changed. Reconcile before retry."
  ensure (operation.scopeBinding.treeHash =
      (if attempt.treeHash = "" then none else some attempt.treeHash) ∨
    operation.toolClass = .contextRead) "Operation tree changed."
  ensure (operation.scopeBinding.policyVersion = s.world.policyVersion) "Operation policy changed."
  ensure (attempt.toolRounds < attempt.descriptor.toolRounds) "Tool budget exhausted."
  let s ← consumeApproval s attempt operation request
  pure (startedOperation s attempt operation)

def consumeOperation (lease : LeaseIdentity) (version : Option ℕ) (request : Consumption) :
    Store → Result Store := agentTransaction fun s => do
  s.requireRunner
  startOperation lease version request s

/-! ## Receipts -/

/-- Whether a remote receipt is the operation's own. -/
def matchesOperation (site : Site) (operation : Operation) (receipt : RemoteReceipt) : Bool :=
  match remoteOf operation.arguments with
  | none => false
  | some (remote, commit, branch) =>
    receipt.operationId = operation.operationId && receipt.remote = remote &&
      receipt.commit = commit && receipt.branch = branch &&
      (operation.toolClass ≠ .gitDraftPr ||
        (receipt.pullRequestId.isSome && site.pullRequestOf receipt))

def reconcileOperation (site : Site) (lease : LeaseIdentity) (receipt : RemoteReceipt) :
    Store → Result Store := agentTransaction fun s => do
  s.requireRunner
  let attempt ← s.lockedLease lease none
  let _ ← s.requireAudience
  s.checkAttemptAccess s.job.requesterId attempt .profileUse
  let operation ← one s.operations fun o =>
    o.operationId = receipt.operationId && o.attemptId = attempt.id
  ensure (operation.toolClass ∈ [.gitPush, .gitDraftPr]) "Operation has no remote receipt."
  ensure (matchesOperation site operation receipt = true)
    "Remote receipt does not match the operation."
  if operation.status = .succeeded then do
    ensure (operation.remoteReceipt = some receipt) "Remote receipt conflict."
    pure s
  else do
    ensure (operation.status ∈ [.started, .outcomeUnknown] ∧
      s.approvals.any (fun a => a.operationId = operation.operationId &&
        a.decision = .consumed) = true) "Remote operation was not authorized."
    pure <| s.updateOperations (·.operationId = operation.operationId) fun o =>
      { o with
        remoteReceipt := some receipt, status := .succeeded, finishedAt := some s.clock,
        version := o.version + 1 }

/-- The status a local receipt gives its operation. -/
def localStatus : LocalOutcome → OperationState
  | .succeeded => .succeeded
  | .failed => .failed
  | .noEffect => .cancelled

/-- The checks of `reconcile_local_operation` on what the owner observed. -/
def localObservation (attempt : Attempt) (operation : Operation)
    (receipt : LocalOperationReceipt) : Result Unit := do
  ensure (operation.toolClass ∉ [.gitPush, .gitDraftPr] ∧ operation.status = .outcomeUnknown)
    "Operation does not permit local reconciliation."
  ensure (attempt.stoppedAt.any (· ≤ receipt.observedAt) = true ∧
    receipt.baseCommit = (if attempt.baseCommit = "" then none else some attempt.baseCommit) ∧
    receipt.observedAt ≤ s.clock + 5)
    "Local observation does not match the stopped workspace."
  ensure (s.job.repositoryId = none ∨ receipt.treeHash.isSome = true)
    "Workspace tree observation is required."
  ensure (receipt.outcome ≠ .noEffect ∨ receipt.treeHash = operation.scopeBinding.treeHash)
    "Workspace changed despite the no-effect receipt."

def reconcileLocalOperation (lease : LeaseIdentity) (receipt : LocalOperationReceipt) :
    Store → Result Store := agentTransaction fun s => do
  s.requireRunner
  let attempt ← s.lockedLease lease none
  let _ ← s.requireAudience
  s.checkAttemptAccess s.job.requesterId attempt .profileUse
  ensure (attempt.active = false ∧ attempt.processState = .stopped ∧
    s.superseded attempt = false) "Local reconciliation requires the stopped latest attempt."
  let operation ← one s.operations fun o =>
    o.attemptId = attempt.id && o.operationId = receipt.operationId &&
      o.argumentDigest = receipt.argumentDigest
  match operation.localReceipt with
  | some recorded => do
    ensure (recorded = receipt) "Local reconciliation receipt changed."
    pure s
  | none => do
    localObservation s attempt operation receipt
    let s := s.updateOperations (·.operationId = operation.operationId) fun o =>
      { o with
        localReceipt := some receipt, status := localStatus receipt.outcome,
        finishedAt := some s.clock, version := o.version + 1 }
    pure <| s.updateAttempt attempt.id fun a => { a with treeHash := receipt.treeHash.getD "" }

/-! ## Team tools -/

/-- Phase 1 of `execute_operation`: whether the tool is to run now. -/
def beginTeamOperation (lease : LeaseIdentity) (version : ℕ) (request : Consumption) :
    Store → Result (Bool × Store) := agentTransaction fun s => do
  s.requireRunner
  let attempt ← s.lockedAttempt lease (some version)
  let operation ← one s.operations fun o =>
    o.operationId = request.operationId && o.attemptId = attempt.id
  ensure (operation.toolClass = .teamManage) "Operation does not support execution."
  if operation.serverReceipt.isSome = true then pure (false, s)
  else do
    -- `OutcomeUnknownError`
    ensure (operation.status ≠ .started) ""
    let s ← startOperation lease none request s
    pure (true, s)

/-- `_store_team_receipt`, phase 3 of `execute_operation`. -/
def storeTeamReceipt (lease : LeaseIdentity) (operationId : Uuid) (receipt : TeamReceipt) :
    Store → Result Store := agentTransaction fun s => do
  let attempt ← s.lockedLease lease none
  let operation ← one s.operations fun o =>
    o.operationId = operationId && o.attemptId = attempt.id
  if operation.serverReceipt.isSome = true then pure s
  else
    let s := s.updateOperations (·.operationId = operationId) fun o =>
      { o with
        serverReceipt := some receipt,
        status := if receipt.succeeded then .succeeded else .failed,
        finishedAt := some s.clock, version := o.version + 1 }
    s.audit "team.executed" attempt.id none

end GrowTeam.Server
