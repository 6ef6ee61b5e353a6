/-
# The records runner and server exchange (`zerver/lib/agent_protocol.py`)

The enumerations of the protocol and the records that both sides read.  An event's type
and its payload are one value here: `typed_event_payload` refuses every other pairing, so
a mismatched event cannot be built.  Of each record only the fields that a modelled
function reads are kept.
-/
import Mathlib.Data.Nat.Notation
import Mathlib.Data.Int.Notation

namespace GrowTeam

/-- A UUID.  Only equality of UUIDs is ever used. -/
abbrev Uuid := ℕ

/-- A point in time. -/
abbrev Time := ℕ

/-! ## Enumerations -/

/-- `ExecutionAction`, with the one action of the team tools: what an operation does. -/
inductive Action where
  | contextRead
  | repositoryRead
  | repositoryEdit
  | checksRun
  | shellRun
  | dependenciesInstall
  | gitCommit
  | gitPush
  | gitDraftPr
  | teamManage
  deriving DecidableEq

inductive OperationState where
  | proposed
  | authorized
  | started
  | succeeded
  | failed
  | outcomeUnknown
  | cancelled
  deriving DecidableEq

inductive InputState where
  | pending
  | delivered
  | applied
  | deliveryUncertain
  | cancelled
  deriving DecidableEq

inductive ProcessState where
  | starting
  | active
  | stopping
  | stopped
  | unknown
  deriving DecidableEq

inductive JobState where
  | draft
  | queued
  | running
  | waitingForInput
  | waitingForApproval
  | blocked
  | verifying
  | cancelRequested
  | cancelled
  | interrupted
  | failed
  | completed
  deriving DecidableEq

inductive JobKind where
  | answer
  | code
  | manage
  deriving DecidableEq

inductive DeliveryTarget where
  | answer
  | patch
  | draftPr
  deriving DecidableEq

inductive Phase where
  | inspect
  | plan
  | edit
  | verify
  | review
  | deliver

inductive ApprovalState where
  | pending
  | approved
  | rejected
  | expired
  | cancelled
  | consumed
  deriving DecidableEq

/-- `ArtifactRecord.kind`. -/
inductive ArtifactKind where
  | diff
  | summary
  | verification
  | log
  | file
  deriving DecidableEq

/-! ## Identities -/

/-- The three keys every authority check compares: `job_id`, `attempt_id`, `lease_epoch`. -/
structure LeaseIdentity where
  jobId : Uuid
  attemptId : Uuid
  leaseEpoch : ℕ
  deriving DecidableEq

/-- A lease identity with the job version the runner has seen last. -/
structure Lease extends LeaseIdentity where
  jobVersion : ℕ
  deriving DecidableEq

structure AudienceBinding where
  conversationId : Uuid
  epoch : ℕ
  realmId : ℕ
  profileId : Uuid
  requesterUserId : ℕ
  botUserId : ℕ
  anchorMessageId : ℕ
  recipientId : ℕ
  streamId : Option ℕ
  inviteOnly : Option Bool
  isWebPublic : Option Bool
  historyPublicToSubscribers : Option Bool
  audienceUserIds : List ℕ
  deriving DecidableEq

/-! ## Receipts -/

structure RemoteReceipt where
  remote : String
  branch : String
  commit : String
  operationId : Uuid
  pullRequestId : Option String
  pullRequestUrl : Option String
  observedAt : Time
  deriving DecidableEq

/-- `LocalOperationReceipt.outcome`. -/
inductive LocalOutcome where
  | succeeded
  | failed
  | noEffect
  deriving DecidableEq

structure LocalOperationReceipt where
  operationId : Uuid
  argumentDigest : String
  baseCommit : Option String
  treeHash : Option String
  outcome : LocalOutcome
  observedAt : Time
  deriving DecidableEq

/-- `TeamReceipt`, with the fields that the final reply reads. -/
structure TeamReceipt where
  succeeded : Bool
  summary : String
  error : Option String

/-! ## Runner events -/

/-- `ProcessPayload` without the state, which the event's type fixes. -/
structure ProcessPayload where
  adapterSessionRef : Option String
  stopConfirmed : Bool
  summary : String
  deriving DecidableEq

structure ToolPayload where
  operationId : Uuid
  toolClass : Action
  argumentDigest : String
  status : OperationState
  artifactId : Option Uuid
  exitCode : Option ℤ
  deriving DecidableEq

/-- `InputPayload` without the delivery state, which the event's type fixes. -/
structure InputPayload where
  inputId : Uuid
  inputSequence : ℕ
  deriving DecidableEq

structure VerificationRecord where
  operationId : Uuid
  checkId : String
  command : List String
  cwd : String
  exitCode : Option ℤ
  startedAt : Time
  finishedAt : Time
  treeHash : String
  artifactId : Uuid
  timedOut : Bool
  deriving DecidableEq

structure ResultPayload where
  artifactIds : List Uuid
  treeHash : Option String
  summary : String
  deriving DecidableEq

structure WorkspacePreparedPayload where
  repositoryId : Uuid
  workspaceReference : String
  baseRef : String
  baseCommit : String
  treeHash : String
  deriving DecidableEq

/-- The type of a `RunnerEvent` with its payload. -/
inductive EventBody where
  | workspacePrepared (payload : WorkspacePreparedPayload)
  | attemptStarting (payload : ProcessPayload)
  | attemptStarted (payload : ProcessPayload)
  | attemptStopped (payload : ProcessPayload)
  | attemptInterrupted (payload : ProcessPayload)
  | inputApplied (payload : InputPayload)
  | inputDeliveryUncertain (payload : InputPayload)
  | toolStarted (payload : ToolPayload)
  | toolFinished (payload : ToolPayload)
  | verificationFinished (payload : VerificationRecord)
  | inputRequested (question : String)
  | resultPrepared (payload : ResultPayload)
  deriving DecidableEq

structure RunnerEvent extends LeaseIdentity where
  eventId : Uuid
  sequence : ℕ
  occurredAt : Time
  body : EventBody
  deriving DecidableEq

end GrowTeam
