/-
# Results (`zerver/lib/agent_results.py`)

The evidence a result needs, the transaction that publishes it, the one that parks it, its
private delivery, and the drafts that are streamed while the model still writes.  What
runs after a commit (`_edit_draft_after_commit`) is a step of its own, so another
transaction can come between.
-/
import GrowTeam.Server.Approvals
import Mathlib.Algebra.Ring.Nat
import Mathlib.Data.List.Sort

namespace GrowTeam.Server

/-! ## The final text -/

variable (site : Site)

/-- The line of `team_manage_result_lines` for one operation. -/
def teamResultLine (operation : Operation) : String :=
  match operation.serverReceipt with
  | some receipt =>
    if receipt.succeeded then "- " ++ receipt.summary
    else "- " ++ receipt.summary ++ " Failed: " ++ receipt.error.getD ""
  | none =>
    "- " ++ site.describe operation.arguments ++
      " This step may have finished. Check the channel before you try again."

def teamManageResultLines (s : Store) : List String :=
  (s.operations.filter fun o => o.toolClass = .teamManage &&
    (o.serverReceipt.isSome || o.status ∈ [.started, .outcomeUnknown])).map (teamResultLine site)

/-- The body of a result with these executed steps. -/
def resultBody (kind : JobKind) (target : DeliveryTarget) (steps : List String)
    (summary : String) : String :=
  match kind with
  | .answer => summary
  | .manage =>
    if steps = [] then summary
    else summary ++ "\n\n" ++ "Steps taken:" ++ "\n" ++ "\n".intercalate steps
  | .code =>
    summary ++ "\n\n" ++
      (if target = .patch then "Done. The diff is ready for review."
      else "Done. The draft pull request is ready for review.")

def resultMessageContent (s : Store) (summary : String) : String :=
  resultBody s.job.jobKind s.job.deliveryTarget (teamManageResultLines site s) summary

/-! ## Evidence -/

/-- The sort key of `order_by("-finished_at")`: descending order puts NULL first. -/
def finishKey (finishedAt : Option Time) : WithTop ℕ :=
  match finishedAt with
  | none => ⊤
  | some t => WithTop.some t

variable (s : Store) (attempt : Attempt)

/-- The mutating operations of an attempt. -/
def mutations : List Operation :=
  s.operations.filter fun o => o.attemptId = attempt.id && o.toolClass ∈ mutating

def lastMutation : Option Operation :=
  (mutations s attempt).argmax fun o => finishKey o.finishedAt

variable (check : RequiredCheck)

/-- The verification that `verify_result` looks at for a check. -/
def latestVerification : Option Verification :=
  (s.verifications.filter fun v => v.attemptId = attempt.id && v.checkId = check.id &&
    v.treeHash = attempt.treeHash).argmax (·.finishedAt)

/-- Whether a verification shows that its check passed. -/
def passes (v : Verification) : Bool :=
  v.exitCode = some 0 && !v.timedOut &&
    s.artifacts.any (fun a => a.id = v.outputArtifact && a.unavailableAt.isNone) &&
    s.operations.any (fun o => o.operationId = v.operationId && o.status = .succeeded) &&
    v.command = check.argv && v.cwd = check.cwd

/-- Whether a verification started before the last mutation finished, as far as that row
says when it finished. -/
def outdated (last : Option Operation) (v : Verification) : Bool :=
  (last.bind (·.finishedAt)).any (v.startedAt < ·)

/-- One turn of the loop over the required checks. -/
def verifyCheck : Result Unit :=
  match latestVerification s attempt check with
  | none => .error .requiredChecksFailed
  | some v =>
    if passes s check v = true ∧ outdated (lastMutation s attempt) v = false then .ok ()
    else .error .requiredChecksFailed

/-- The commit of a remote operation's arguments. -/
def commitOf (operation : Operation) : Option String :=
  (remoteOf operation.arguments).map (·.2.1)

/-- Whether an operation proves that its remote action delivered this tree. -/
def delivers (action : Action) (operation : Operation) : Bool :=
  operation.attemptId = attempt.id && operation.toolClass = action &&
    operation.status = .succeeded &&
    operation.remoteReceipt.any (fun receipt =>
      some receipt.commit = commitOf operation &&
        (action ≠ .gitDraftPr ||
          (receipt.pullRequestId.any (· ≠ "") && receipt.pullRequestUrl.any (· ≠ "")))) &&
    operation.scopeBinding.treeHash = some attempt.treeHash &&
    s.approvals.any fun a => a.operationId = operation.operationId && a.decision = .consumed

/-- The part of `verify_result` for code jobs. -/
def verifyCode (artifacts : List Artifact) (result : ResultPayload) : Result Unit := do
  ensure (attempt.baseCommit ≠ "" ∧ attempt.treeHash ≠ "" ∧
    result.treeHash = some attempt.treeHash) "Final tree is unavailable."
  ensure (artifacts.any (·.kind = .diff) = true) "Final diff is required."
  let repository ← present attempt.descriptor.repository "Input should be a valid dictionary"
  ensure (repository.requiredChecks ≠ []) "Required checks are unavailable."
  repository.requiredChecks.forM (verifyCheck s attempt)
  ensure (s.job.deliveryTarget ≠ .draftPr ∨ ∀ action ∈ [Action.gitPush, Action.gitDraftPr],
      s.operations.any (delivers s attempt action) = true) "Draft PR delivery is unverified."

def verifyResult (artifacts : List Artifact) (checkAudience : Bool) : Result Unit := do
  ensure (s.job.status = .verifying ∧ attempt.active = false ∧
    attempt.processState = .stopped ∧ attempt.stoppedAt.isSome = true)
    "Empty containment is required before completion."
  if checkAudience = true ∧ attempt.audienceBinding ≠ s.job.audienceBinding then
    .error .audienceChanged
  else do
    let result ← present s.job.resultProposal "Input should be a valid dictionary"
    ensure (blank result.summary = false ∧ artifacts.any (·.kind = .summary) = true)
      "Result summary is required."
    ensure (artifacts.all fun a =>
      a.attemptId = attempt.id && a.audienceBinding = attempt.audienceBinding)
      "Result artifact scope is invalid."
    ensure (s.inputs.all (!Store.unapplied ·) = true) "Inputs remain unapplied."
    ensure (s.operations.all (!Store.unresolved ·) = true) "Operation outcomes remain unresolved."
    if s.job.jobKind = .code then verifyCode s attempt artifacts result else pure ()

/-! ## Publication -/

variable (proposal : ResultPayload)

/-- The artifacts of a proposal. -/
def resultArtifacts : Result (List Artifact) := do
  let artifacts := s.artifacts.filter (·.id ∈ proposal.artifactIds)
  ensure (artifacts.length = proposal.artifactIds.dedup.length)
    "Result artifacts are unavailable."
  pure artifacts

/-- The first query of `_publish_result`: the receipt, or the proposal to publish. -/
def readJob : Result (ResultReceipt ⊕ ResultPayload) :=
  match s.job.resultReceipt with
  | some receipt => .ok (.inl receipt)
  | none => do
    let proposal ← present s.job.resultProposal "Input should be a valid dictionary"
    pure (.inr proposal)

/-- `read_artifact`, for the files a publication relies on. -/
def readArtifact (artifact : Artifact) : Result Unit := do
  ensure (artifact.unavailableAt = none) "Artifact is unavailable."
  s.world.check (.artifactFile artifact.id)

/-- The file checks of `_publish_result`, which run before its transaction. -/
def readArtifacts (s : Store) : Result (List Artifact) := do
  let artifacts ← resultArtifacts s proposal
  let outputs := s.artifacts.filter fun a => s.verifications.any (·.outputArtifact = a.id)
  (artifacts ++ outputs).forM (readArtifact s)
  pure artifacts

/-- The checks of the publishing transaction. -/
def publication (artifacts : List Artifact) : Result Attempt := do
  ensure (s.job.resultProposal = some proposal) "Result proposal changed."
  let attempt ← present s.latestAttempt "Attempt is unavailable."
  let _ ← s.requireAudience
  s.checkAttemptAccess s.job.requesterId attempt .profileUse
  verifyResult s attempt artifacts true
  s.world.check (.secrets proposal.summary)
  pure attempt

/-- `do_send_messages` of one bot message. -/
def sendMessage (direct : Bool) (content : Content) : Result (ℕ × Store) := do
  s.world.check (.sendMessage content)
  pure (s.nextId, { s.allocate with messages := s.messages ++ [⟨s.nextId, direct, content⟩] })

/-- The writes that complete a job with its result in this message. -/
def completeJob (receipt : ResultReceipt) : Store :=
  ((s.updateJob fun job =>
    { job with
      resultMessageId := some receipt.messageId, resultReceipt := some receipt,
      completedAt := some s.clock, phase := .deliver }).transition .completed "").updateOrCreateRow
        .result fun row => { row with status := .delivered, deliveredAt := some s.clock }

/-- An edit that is due after the commit: the message and its new text. -/
abbrev Edit := ℕ × Content

/-- The message a result is published in.  A streamed draft becomes the result message. -/
def resultMessage (content : Content) : Result ((ℕ × Option Edit) × Store) :=
  match s.job.resultMessageId with
  | some id => .ok ((id, some (id, content)), s)
  | none => do
    let (id, s) ← sendMessage s false content
    pure ((id, none), s)

/-- The transaction of `_publish_result`, and the edit it leaves to be done. -/
def publish (artifacts : List Artifact) :
    Store → Result ((ResultReceipt × Option Edit) × Store) := agentTransaction fun s =>
  match s.job.resultReceipt with
  | some receipt => .ok ((receipt, none), s)
  | none => do
    let attempt ← publication s proposal artifacts
    let ((id, edit), s) ← resultMessage s <|
      .result s.world.mention (resultMessageContent site s proposal.summary)
        (site.jobTaskLink s.job.id)
    let receipt : ResultReceipt := ⟨id, attempt.id, s.clock, false⟩
    let s ← (completeJob s receipt).audit "result.published" attempt.id none
    pure ((receipt, edit), s)

def blockPublication (target : JobState) (reason : String) (parkOutbox : Bool) :
    Store → Result Store := agentTransaction fun s =>
  if s.job.status = .verifying ∧ s.job.blockedReason ≠ reason then do
    let s ← (s.transition target reason).audit "publication.blocked" none none
    pure <| if parkOutbox = true then
      s.updateRows (fun row => row.key = .result && row.status ≠ .delivered) fun row =>
        { row with status := .blocked }
    else s
  else pure s

/-- The checks of `deliver_result_privately`: the attempt and the proposal it delivers. -/
def privateDelivery (actor expectedVersion : ℕ) : Result (Attempt × ResultPayload) := do
  ensure (s.job.status = .verifying ∧ s.job.blockedReason = "audience_changed" ∧
    s.job.version = expectedVersion) "Job cannot deliver privately."
  match s.job.sourceMessageId with
  | none => .error .other
  | some source => do
    s.world.check (.message actor source)
    let proposal ← present s.job.resultProposal "Input should be a valid dictionary"
    let artifacts ← resultArtifacts s proposal
    let attempt ← present s.latestAttempt "Attempt is unavailable."
    s.checkAttemptAccess actor attempt .profileUse
    -- Only this action skips the audience check, which is why the job is here.
    verifyResult s attempt artifacts false
    s.world.check (.secrets proposal.summary)
    pure (attempt, proposal)

def deliverResultPrivately (actor expectedVersion : ℕ) : Store → Result Store :=
  agentTransaction fun s => do
    ensure (actor = s.job.requesterId) "Job cannot deliver privately."
    match s.job.resultReceipt with
    | some _ => pure s
    | none => do
      let (attempt, proposal) ← privateDelivery s actor expectedVersion
      let (id, s) ← sendMessage s true <|
        .directResult s.world.mention (resultMessageContent site s proposal.summary)
          (site.jobTaskLink s.job.id)
      (completeJob s ⟨id, attempt.id, s.clock, true⟩).audit "result.published" attempt.id none

/-! ## Drafts and edits -/

/-- `Draft`. -/
structure DraftText where
  lease : LeaseIdentity
  text : String

/-- The transaction of `publish_draft`, and the edit it leaves to be done. -/
def publishDraft (data : DraftText) : Store → Result (Option Edit × Store) :=
  agentTransaction fun s => do
    s.requireRunner
    let attempt ← s.lockedAttempt data.lease none
    if s.job.jobKind ≠ .answer ∨ s.job.resultReceipt ≠ none then pure (none, s)
    else do
      let _ ← s.requireAudience
      s.checkAttemptAccess s.job.requesterId attempt .profileUse
      s.world.check (.secrets data.text)
      let content := Content.draft s.world.mention data.text
      match s.job.resultMessageId with
      | some id => pure (some (id, content), s)
      | none => do
        let (id, s) ← sendMessage s false content
        pure (none, s.updateJob fun job => { job with resultMessageId := some id })

/-- `check_update_message`, with a `JsonableError` suppressed: what is refused (the edit
time limit, editing disabled, a message that was moved or deleted) changes nothing. -/
def editMessage (id : ℕ) (content : Content) (s : Store) : Store :=
  match s.world.check (.editMessage id) with
  | .error _ => s
  | .ok () => { s with
    messages := updateWhere (·.id = id) (fun m => { m with content := content }) s.messages }

/-- A deleted message takes the job's reference to it along (`on_delete=SET_NULL`). -/
def deleteMessage (id : ℕ) (s : Store) : Store :=
  let s := { s with messages := s.messages.filter (·.id ≠ id) }
  if s.job.resultMessageId = some id then
    s.updateJob fun job => { job with resultMessageId := none }
  else s

/-! ## Artifacts -/

/-- What is uploaded. -/
structure Upload where
  kind : ArtifactKind
  checksum : String
  size : ℕ

variable (lease : LeaseIdentity)

/-- The transaction of the view `artifacts` before the upload is read. -/
def admitUpload (version : ℕ) : Store → Result Store :=
  agentTransaction fun s => do
    s.requireRunner
    let _ ← s.lockedAttempt lease (some version)
    pure s

/-- The first transaction of `store_artifact`: the budget of the attempt. -/
def uploadBudget : Store → Result (ℕ × Store) := agentTransaction fun s => do
  let attempt ← s.lockedAttempt lease none
  pure (attempt.descriptor.artifactBytes, s)

/-- The second transaction of `store_artifact`. -/
def registerArtifact (upload : Upload) : Store → Result Store :=
  agentTransaction fun s => do
    s.requireRunner
    let attempt ← s.lockedAttempt lease none
    ensure ((s.artifacts.map (·.size)).sum + upload.size ≤ attempt.descriptor.jobArtifactBytes)
      "Job artifact limit exceeded."
    let artifact : Artifact :=
      { id := s.nextId, attemptId := attempt.id, kind := upload.kind, checksum := upload.checksum,
        size := upload.size, audienceBinding := attempt.audienceBinding, unavailableAt := none }
    pure { s.allocate with artifacts := s.artifacts ++ [artifact] }

/-! # The transactions of a reconcile pass (`zerver/lib/agent_reconcile.py`) -/

/-- How many rows of this job fall within the limit of a pass. -/
structure Reach where
  queued : ℕ
  attempts : ℕ
  approvals : ℕ
  rows : ℕ

/-! ## Expiry -/

/-- A queued job that was not started in time. -/
def expireQueue (limit : ℕ) : Store :=
  if 0 < limit ∧ s.job.status = .queued ∧ s.job.startDeadline.any (· ≤ s.clock) = true then
    s.transition .blocked "start_deadline_expired"
  else s

/-- The server gave up waiting for this lease. -/
def loseLease : Result Store :=
  (((((s.updateAttempt attempt.id fun a => { a with processState := .unknown }).invalidateApprovals
    attempt.id).loseOperations attempt.id).loseInputs attempt.id).transition .interrupted
      "lease_lost").audit "attempt.interrupted" attempt.id none

/-- `lease_expires_at__lte=now()`, of an active attempt that is not lost yet. -/
def leaseExpired : Bool :=
  attempt.active && attempt.leaseExpiresAt ≤ s.clock && attempt.processState ≠ .unknown

/-- `expires_at__lte=now()`, of an approval that can still be used. -/
def approvalExpired (approval : Approval) : Bool :=
  approval.decision ∈ [.pending, .approved] && approval.expiresAt ≤ s.clock

/-- An approval that was not used in time stops its attempt. -/
def expireApproval (approval : Approval) : Result Store := do
  let s := s.updateApprovals (·.id = approval.id) fun a => { a with decision := .expired }
  match s.attempts.find? fun a => a.id = approval.attemptId && a.active with
  | some attempt => s.requestStop attempt .blocked "approval_expired"
  | none => pure s

/-- The first transaction of a pass. -/
def expire (reach : Reach) : Store → Result Store := agentTransaction fun s => do
  let s := expireQueue s reach.queued
  let s ← ((s.attempts.filter (leaseExpired s)).take reach.attempts).foldlM loseLease s
  ((s.approvals.filter (approvalExpired s)).take reach.approvals).foldlM expireApproval s

/-! ## The outbox -/

/-- The keys of the rows that are due, as the pass selects them. -/
def selectDue (limit : ℕ) : List DeliveryKey :=
  let due := s.outbox.filter fun row =>
    row.status ∈ [.pending, .processing] && row.nextAttemptAt ≤ s.clock
  ((due.insertionSort (·.nextAttemptAt ≤ ·.nextAttemptAt)).take limit).map (·.key)

/-- `min(300, 2 ** min(item.attempt_count, 8))`. -/
def backoff (attemptCount : ℕ) : ℕ := min 300 (Nat.pow 2 (min attemptCount 8))

/-- Whether the pass goes on with a row that it has selected. -/
def taken (row : OutboxRow) : Bool :=
  row.status ≠ .delivered && row.nextAttemptAt ≤ s.clock

/-- The row as the pass processes it. -/
def processed (row : OutboxRow) : OutboxRow :=
  { row with
    status := .processing, attemptCount := row.attemptCount + 1,
    nextAttemptAt := s.clock + backoff (row.attemptCount + 1) }

variable (key : DeliveryKey)

/-- The transaction that takes a selected row; its answer is whether the row is taken. -/
def takeRow : Store → Result (Bool × Store) := agentTransaction fun s => do
  let row ← one s.outbox (·.key = key)
  if taken s row = true then pure (true, s.updateRows (·.key = key) (processed s))
  else pure (false, s)

/-- Whether a wake or a stop notification has been overtaken by what it asks for. -/
def overtaken : Bool :=
  match key with
  | .wake _ => s.job.status ≠ .queued
  | .result | .stop _ | .notice _ =>
    ((s.row key).bind (·.payloadRef)).all fun id => !s.attempts.any fun a => a.id = id && a.active

/-- The transaction that writes a row's outcome.  A parked row is left as it is. -/
def finishRow (delivered : Bool) : Store → Result Store :=
  agentTransaction fun s => do
    let row ← one s.outbox (·.key = key)
    if row.status ∉ [.delivered, .blocked] then
      pure <| s.updateRows (·.key = key) fun row =>
        { row with
          status := if delivered then .delivered else .pending,
          deliveredAt := if delivered then some s.clock else none }
    else pure s

end GrowTeam.Server
