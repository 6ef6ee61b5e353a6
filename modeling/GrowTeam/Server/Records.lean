/-
# The rows of one job (`zerver/models/agents.py`)

The server keeps a job in a dozen tables.  `Store` is everything the database holds about
one job, with the messages the agent's bot sent for it.  Of each row only the fields that
a modelled function reads or writes are kept; foreign keys are the ids they hold.

What the rest of the server contributes to one transaction (who may do what, who reads
the conversation now, whether another transaction holds the realm's lock) is `World`.  It
is part of the store, and any value may replace it between two transactions.
-/
import Mathlib.Data.List.MinMax
import Mathlib.Order.WithBot
import GrowTeam.Protocol

namespace GrowTeam.Server

/-! ## What a transaction can raise -/

/-- The exceptions that some caller tells apart. -/
inductive Fault where
  | audienceChanged
  | requiredChecksFailed
  | busy                       -- `AgentBusy`
  | value (message : String)   -- any other `ValueError`
  | denied                     -- `AgentAccessDenied`
  | jsonable                   -- any other `JsonableError`
  | missing                    -- `ObjectDoesNotExist`
  | other
  deriving DecidableEq

/-! ## Job states -/

def terminal : List JobState := [.completed, .cancelled, .failed, .interrupted, .blocked]

def executing : List JobState := [.running, .waitingForInput, .waitingForApproval, .verifying]

/-- The values `request_stop` is ever given as its target. -/
inductive StopTarget where
  | cancelled
  | blocked
  deriving DecidableEq

/-- The status a stopped job ends in. -/
def StopTarget.status : StopTarget → JobState
  | .cancelled => .cancelled
  | .blocked => .blocked

/-! ## Attempt descriptors and operations -/

structure RequiredCheck where
  id : String
  argv : List String
  cwd : String
  deriving DecidableEq

structure RepositoryConfig where
  requiredChecks : List RequiredCheck
  deriving DecidableEq

/-- `AttemptDescriptor`. -/
structure Descriptor where
  activeSeconds : ℕ
  toolRounds : ℕ
  artifactBytes : ℕ
  jobArtifactBytes : ℕ
  repository : Option RepositoryConfig
  policyVersion : ℕ
  policyActions : List Action
  network : String
  testedActions : List Action
  deriving DecidableEq

/-- The two actions of `ToolArguments`. -/
inductive ToolAction where
  | dependenciesInstall
  | shellRun

/-- `ToolArguments.action`. -/
def ToolAction.action : ToolAction → Action
  | .dependenciesInstall => .dependenciesInstall
  | .shellRun => .shellRun

/-- `OperationArguments`.  `rest` stands for the fields that only the digest reads. -/
inductive OperationArguments where
  | push (repositoryId : Uuid) (remote branch commit rest : String)
  | draftPr (repositoryId : Uuid) (remote base head commit rest : String)
  | tool (action : ToolAction) (repositoryId : Uuid) (cwd network rest : String)
  | contextRead (contextIds : List Uuid)
  | repositoryRead (repositoryId : Uuid) (paths : List String)
  | repositoryEdit (repositoryId : Uuid) (rest : String)
  | checks (repositoryId : Uuid) (checkIds : List String) (treeHash : String)
  | commit (repositoryId : Uuid) (rest : String)
  | team (input : String)

namespace OperationArguments

/-- `arguments.action`. -/
def action : OperationArguments → Action
  | .push .. => .gitPush
  | .draftPr .. => .gitDraftPr
  | .tool action .. => action.action
  | .contextRead .. => .contextRead
  | .repositoryRead .. => .repositoryRead
  | .repositoryEdit .. => .repositoryEdit
  | .checks .. => .checksRun
  | .commit .. => .gitCommit
  | .team .. => .teamManage

/-- `arguments.repository_id`, for the arguments outside `NO_WORKSPACE_ARGUMENTS`. -/
def repositoryId : OperationArguments → Option Uuid
  | .push id .. | .draftPr id .. | .tool _ id .. | .repositoryRead id _
  | .repositoryEdit id _ | .checks id .. | .commit id _ => some id
  | .contextRead _ | .team _ => none

/-- Whether the arguments are outside `NO_WORKSPACE_ARGUMENTS`. -/
def needsWorkspace (args : OperationArguments) : Bool := args.repositoryId.isSome

end OperationArguments

/-- The `binding` an operation hash covers. -/
structure ScopeBinding where
  attemptId : Uuid
  leaseEpoch : ℕ
  policyVersion : ℕ
  treeHash : Option String
  diffArtifactId : Option Uuid
  diffChecksum : Option String
  audience : AudienceBinding

/-- The tools after which an earlier tree hash proves nothing. -/
def mutating : List Action := [.repositoryEdit, .shellRun, .dependenciesInstall]

/-! ## Rows -/

/-- `job.result_receipt`. -/
structure ResultReceipt where
  messageId : ℕ
  attemptId : Uuid
  publishedAt : Time
  direct : Bool                -- `"destination": "direct"`

/-- `job.draft_completion`. -/
structure DraftCompletion where
  expectedVersion : ℕ
  repositoryId : Uuid
  baseRef : String
  deriving DecidableEq

/-- `AgentJob`, with the audience its conversation accepted. -/
structure Job where
  id : Uuid
  requesterId : ℕ
  repositoryId : Option Uuid
  sourceMessageId : Option ℕ
  jobKind : JobKind
  deliveryTarget : DeliveryTarget
  baseRef : String
  audienceBinding : AudienceBinding
  status : JobState
  phase : Phase
  version : ℕ
  blockedReason : String
  stopTarget : StopTarget
  eventSequence : ℕ
  inputSequence : ℕ
  resultProposal : Option ResultPayload
  resultReceipt : Option ResultReceipt
  resultMessageId : Option ℕ
  startDeadline : Option Time
  nextAttemptAt : Time
  completedAt : Option Time
  resumeCheckpointId : Option Uuid
  draftCompletion : Option DraftCompletion

/-- `AgentAttempt`. -/
structure Attempt where
  id : Uuid
  number : ℕ
  leaseEpoch : ℕ
  active : Bool
  leaseExpiresAt : Time
  claimKey : Uuid
  createdAt : Time
  descriptor : Descriptor
  audienceBinding : AudienceBinding
  sourceCheckpoint : Option Uuid
  baseCommit : String
  treeHash : String
  workspaceReference : String
  workspacePreparedAt : Option Time
  runtimeSessionReference : String
  inputCursor : ℕ
  eventCursor : ℕ
  toolRounds : ℕ
  processState : ProcessState
  startedAt : Option Time
  stoppedAt : Option Time
  endedAt : Option Time
  stopReceipt : Option RunnerEvent
  deriving DecidableEq

/-- `item.reconciliation_receipt`, without its history. -/
structure InputReceipt where
  outcomeApplied : Bool
  receiptId : Uuid
  attemptId : Uuid
  leaseEpoch : ℕ
  deriving DecidableEq

/-- `AgentInput`.  The reconciliation receipts are kept oldest first; the last one is
`reconciliation_receipt`, the others its `history`. -/
structure Input where
  id : Uuid
  sequence : ℕ
  authorId : ℕ
  clientKey : Uuid
  sourceMessageId : Option ℕ
  inputType : String
  text : String
  deliveryState : InputState
  deliveredAttempt : Option Uuid
  appliedAt : Option Time
  receipts : List InputReceipt

/-- `AgentOperation`. -/
structure Operation where
  operationId : Uuid
  attemptId : Uuid
  toolClass : Action
  argumentDigest : String
  arguments : OperationArguments
  scopeBinding : ScopeBinding
  status : OperationState
  version : ℕ
  startedAt : Option Time
  finishedAt : Option Time
  remoteReceipt : Option RemoteReceipt
  localReceipt : Option LocalOperationReceipt
  serverReceipt : Option TeamReceipt

/-- `AgentApproval`. -/
structure Approval where
  id : Uuid
  attemptId : Uuid
  operationId : Uuid
  operationHash : String
  policyVersion : ℕ
  version : ℕ
  treeHash : String
  decision : ApprovalState
  expiresAt : Time
  nonce : Uuid
  approver : Option ℕ
  decidedAt : Option Time
  consumedAt : Option Time

/-- `AgentArtifact`. -/
structure Artifact where
  id : Uuid
  attemptId : Uuid
  kind : ArtifactKind
  checksum : String
  size : ℕ
  audienceBinding : AudienceBinding
  unavailableAt : Option Time

/-- `AgentVerification`. -/
structure Verification where
  operationId : Uuid
  attemptId : Uuid
  checkId : String
  command : List String
  cwd : String
  exitCode : Option ℤ
  startedAt : Time
  finishedAt : Time
  treeHash : String
  outputArtifact : Uuid
  timedOut : Bool

/-- `AgentCheckpoint`, with the payload that a repeated save has to match. -/
structure Checkpoint where
  id : Uuid
  sourceAttemptId : Uuid
  baseCommit : Option String
  treeHash : Option String
  summary : String
  contextRefIds : List Uuid
  artifactIds : List Uuid
  remainingWork : List String
  nextStep : String
  adapterSessionRef : Option String
  inputCursor : ℕ
  deriving DecidableEq

/-- A saved checkpoint and the audience its attempt had. -/
structure SavedCheckpoint extends Checkpoint where
  audienceBinding : AudienceBinding

/-- The delivery keys of the outbox, each with the text the source builds. -/
inductive DeliveryKey where
  | result                     -- `result:{job.id}`
  | wake (version : ℕ)         -- `wake:{job.id}:{version}`
  | stop (attemptId : Uuid)    -- `stop:{attempt.id}`
  | notice (marker : String)   -- `status:…`
  deriving DecidableEq

/-- The states of an outbox row. -/
inductive OutboxState where
  | pending
  | processing
  | delivered
  | blocked
  deriving DecidableEq

/-- `AgentOutbox`.  The key fixes `event_type`: `result.publish`, `job.wake`,
`attempt.stop` and `status.notice`. -/
structure OutboxRow where
  key : DeliveryKey
  payloadRef : Option Uuid
  attemptCount : ℕ
  nextAttemptAt : Time
  status : OutboxState
  deliveredAt : Option Time

/-- `AgentAuditEvent`.  `event` is the runner event it records, if it records one. -/
structure AuditEvent where
  sequence : ℕ
  type : String
  attemptId : Option Uuid
  event : Option RunnerEvent

/-! ## Messages -/

/-- The text of a bot message, as the functions that write one build it. -/
inductive Content where
  | draft (mention text : String)
  | result (mention body link : String)
  | directResult (mention body link : String)
  deriving DecidableEq

namespace Content

def draftWritingMark : String := " \u258d"

/-- The f-strings of `publish_draft`, `_publish_result` and `deliver_result_privately`. -/
def render : Content → String
  | .draft mention text => mention ++ " " ++ text ++ draftWritingMark
  | .result mention body link => mention ++ " " ++ body ++ " " ++ link
  | .directResult mention body link =>
    "This result was sent here because the conversation changed." ++ "\n" ++ mention ++ " " ++
      body ++ " " ++ link

/-- Whether the text is a job's final result. -/
def final : Content → Bool
  | .draft .. => false
  | .result .. | .directResult .. => true

end Content

/-- A message the agent's bot sent for the job, in its conversation or to the requester. -/
structure Message where
  id : ℕ
  direct : Bool
  content : Content
  deriving DecidableEq

/-! ## The rest of the server -/

/-- What `check_attempt_access` and `check_agent_access` are asked for. -/
inductive Permission where
  | profileUse
  | perform (action : Action)

/-- The checks that other files make on rows of their own. -/
inductive Check where
  | runnerToken
  | stopToken
  | control (actor : ℕ)
  | jobAccess (actor : ℕ)
  | agentAccess (actor : ℕ) (permission : Permission)
  | attemptAccess (actor : ℕ) (permission : Permission)
  | ready
  | message (actor messageId : ℕ)
  | referenceAudience (messageId : ℕ)
  | contextRefs (ids : List Uuid)
  | secrets (text : String)
  | audit (type : String)
  | artifactFile (id : Uuid)
  | sendMessage (content : Content)
  | editMessage (messageId : ℕ)
  | notify

/-- The rest of the server as one transaction finds it. -/
structure World where
  /-- Another transaction holds the advisory lock or a table lock. -/
  locked : Bool
  /-- `current_audience` of the job's conversation. -/
  audience : Except Fault AudienceBinding
  check : Check → Except Fault Unit
  /-- The realm's agents are enabled. -/
  enabled : Bool
  /-- The runner and the realm have room for one more attempt. -/
  room : Bool
  /-- The candidates before this job leave the claim to it. -/
  candidate : Bool
  /-- `build_descriptor` for a new attempt. -/
  descriptor : Except Fault Descriptor
  /-- `job.profile.policy_version`. -/
  policyVersion : ℕ
  /-- `job.repository.canonical_origin` and `allowed_refs`. -/
  canonicalOrigin : Option String
  allowedRefs : List String
  /-- `team_tool_needs_confirmation`. -/
  needsConfirmation : String → Bool
  /-- `silent_mention_syntax_for_user(job.requester)`. -/
  mention : String

/-- Fixed functions of the server that are not looked into. -/
structure Site where
  /-- `digest({"arguments": …, "scope": …})`. -/
  digest : OperationArguments → ScopeBinding → String
  /-- `job_task_link`. -/
  jobTaskLink : Uuid → String
  /-- `describe_team_tool_input`, sanitized. -/
  describe : OperationArguments → String
  /-- Whether a repository path or a tool's `cwd` leaves the workspace. -/
  outside : String → Bool
  /-- Whether a branch starts with `grow-agent/{job.id}/` and holds no forbidden character. -/
  jobBranch : Uuid → String → Bool
  /-- `urlsplit` of the pull request names the remote's host over https. -/
  pullRequestOf : RemoteReceipt → Bool

/-! ## The store -/

/-- Everything the database holds about one job. -/
structure Store where
  world : World
  clock : Time
  /-- The next id of any new row or message: `uuid4` and the serial keys as one counter. -/
  nextId : ℕ
  runnerRevokedAt : Option Time
  job : Job
  attempts : List Attempt
  inputs : List Input
  operations : List Operation
  approvals : List Approval
  artifacts : List Artifact
  verifications : List Verification
  checkpoints : List SavedCheckpoint
  outbox : List OutboxRow
  audits : List AuditEvent
  messages : List Message

end GrowTeam.Server
