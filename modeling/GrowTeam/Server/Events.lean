/-
# Runner events (`record_event` and `stop_evidence` of `zerver/actions/agent_jobs.py`)

An event is recorded once, in sequence, by the latest attempt of its job.  Everything but
stop evidence needs a live execution lease.  Each payload has its own definition here;
`recordEvent` puts the common checks before it and the cursor and the audit row after it.
-/
import GrowTeam.Server.Jobs

namespace GrowTeam.Server

/-- The state checks that `parse_runner_event` makes on a payload. -/
def validEvent : EventBody → Bool
  | .attemptStopped p => p.stopConfirmed
  | .attemptStarting p | .attemptStarted p | .attemptInterrupted p => !p.stopConfirmed
  | .toolStarted p =>
    p.toolClass ≠ .teamManage && p.status = .started && p.exitCode = none && p.artifactId = none
  | .toolFinished p =>
    p.toolClass ≠ .teamManage && p.status ∈ [.succeeded, .failed, .outcomeUnknown, .cancelled] &&
      (p.status ≠ .succeeded || p.exitCode ∈ [none, some 0])
  | .verificationFinished v => v.startedAt ≤ v.finishedAt && !(v.timedOut && v.exitCode = some 0)
  | .workspacePrepared _ | .inputApplied _ | .inputDeliveryUncertain _ | .inputRequested _
  | .resultPrepared _ => true

/-- Evidence that needs no execution lease. -/
def cleanup : EventBody → Bool
  | .attemptStopped _ | .attemptInterrupted _ => true
  | _ => false

/-- `event.type == "attempt.stopped"`. -/
def isStop : EventBody → Bool
  | .attemptStopped _ => true
  | _ => false

/-- Whether a process payload carries text of the runtime. -/
def runtimeText : EventBody → Bool
  | .attemptStopped p | .attemptInterrupted p => p.summary ≠ "" || p.adapterSessionRef.isSome
  | _ => false

/-! ## Payloads -/

variable (s : Store) (attempt : Attempt)

/-- `WorkspacePreparedPayload`. -/
def workspacePrepared (prepared : WorkspacePreparedPayload) : Result Store := do
  ensure (attempt.workspacePreparedAt = none ∧ attempt.processState = .starting ∧
    s.job.repositoryId = some prepared.repositoryId ∧ prepared.baseRef = s.job.baseRef)
    "Workspace preparation is invalid."
  let checkpoint := attempt.sourceCheckpoint.bind fun id => s.checkpoints.find? (·.id = id)
  ensure (∀ c ∈ checkpoint, prepared.baseCommit = c.baseCommit.getD "" ∧
    prepared.treeHash = c.treeHash.getD "")
    "Prepared workspace does not match the resume checkpoint."
  pure <| s.updateAttempt attempt.id fun a =>
    { a with
      baseCommit := prepared.baseCommit, treeHash := prepared.treeHash,
      workspaceReference := prepared.workspaceReference, workspacePreparedAt := some s.clock }

/-- `attempt.started`. -/
def attemptStarted (process : ProcessPayload) : Result Store := do
  ensure (attempt.processState = .starting ∧
    (s.job.repositoryId = none ∨ attempt.workspacePreparedAt.isSome = true))
    "Workspace must be prepared before runtime start."
  pure <| s.updateAttempt attempt.id fun a =>
    { a with
      processState := .active, startedAt := some s.clock,
      runtimeSessionReference := process.adapterSessionRef.getD "" }

/-- `attempt.interrupted`. -/
def attemptInterrupted : Store :=
  (((((s.updateAttempt attempt.id fun a => { a with processState := .unknown }).invalidateApprovals
    attempt.id).loseOperations attempt.id).loseInputs attempt.id).transition .interrupted
      "stop_unconfirmed")

/-- Whether the stopped job ends where a stop request sent it. -/
def stopRequested : Bool :=
  s.job.status = .cancelRequested || s.runnerRevokedAt.isSome || (s.row (.stop attempt.id)).isSome

variable (event : RunnerEvent)

/-- The attempt row of `attempt.stopped`, and what is lost with the process. -/
def containment : Store :=
  (((s.updateAttempt attempt.id fun a =>
    { a with
      processState := .stopped, stoppedAt := some s.clock, endedAt := some s.clock,
      active := false, stopReceipt := some event }).loseInputs attempt.id).invalidateApprovals
        attempt.id).loseOperations attempt.id

/-- `attempt.stopped`. -/
def attemptStopped : Store :=
  let s' := containment s attempt event
  if stopRequested s attempt = true then
    -- The transition to the stop already set the reason; it is carried through.
    s'.transition s.job.stopTarget.status s.job.blockedReason
  else if s.job.status ∉ terminal ∧ s.job.status ≠ .verifying then
    s'.transition .interrupted
      (if attempt.startedAt = none then "start_failed" else "runtime_stopped")
  else s'

variable (payload : InputPayload)

/-- The input of an `InputPayload`. -/
def inputOf : Result Input := do
  let input ← one s.inputs fun i =>
    i.id = payload.inputId && i.sequence = payload.inputSequence
  ensure (input.deliveredAttempt = some attempt.id ∧
    input.deliveryState ∈ [.delivered, .deliveryUncertain])
    "Input was not delivered to this attempt."
  pure input

/-- The previous proposal cannot cover a newly acknowledged input. -/
def withdrawProposal : Store :=
  if s.job.resultProposal = none then s
  else
    let s' := s.updateJob fun job => { job with resultProposal := none }
    if s.job.status = .verifying then s'.transition .running "" else s'

/-- `input.applied`. -/
def inputApplied : Result Store := do
  let input ← inputOf s attempt payload
  ensure (inOrder s input.sequence = true) "Input acknowledgement is out of order."
  let s := s.updateInputs (·.id = input.id) fun i =>
    { i with deliveryState := .applied, appliedAt := some s.clock }
  pure <| withdrawProposal <| s.updateAttempt attempt.id fun a =>
    { a with inputCursor := input.sequence }

/-- `input.delivery_uncertain`. -/
def inputUncertain : Result Store := do
  let input ← inputOf s attempt payload
  pure <| s.updateInputs (·.id = input.id) fun i =>
    { i with deliveryState := .deliveryUncertain }

/-- The started operation of a `ToolPayload`. -/
def operationOf (payload : ToolPayload) : Result Operation := do
  let operation ← one s.operations fun o =>
    o.attemptId = attempt.id && o.operationId = payload.operationId &&
      o.argumentDigest = payload.argumentDigest && o.toolClass = payload.toolClass
  ensure (operation.status = .started) "Tool requires durable execution authorization."
  pure operation

/-- `tool.finished`.  A mutating tool takes the tree hash and the proposal with it; the
status of the job is left as it is. -/
def toolFinished (payload : ToolPayload) : Result Store := do
  let operation ← operationOf s attempt payload
  ensure (payload.status ≠ .succeeded ∨ operation.toolClass ∉ [.gitPush, .gitDraftPr])
    "Remote success requires a matching receipt."
  let s := s.updateOperations (·.operationId = operation.operationId) fun o =>
    { o with status := payload.status, finishedAt := some s.clock }
  if operation.toolClass ∈ mutating then
    pure <| (s.updateAttempt attempt.id fun a => { a with treeHash := "" }).updateJob fun job =>
      { job with resultProposal := none }
  else pure s

/-- The row a `VerificationRecord` becomes. -/
def verificationRow (v : VerificationRecord) : Verification :=
  { operationId := v.operationId, attemptId := attempt.id, checkId := v.checkId,
    command := v.command, cwd := v.cwd, exitCode := v.exitCode, startedAt := v.startedAt,
    finishedAt := v.finishedAt, treeHash := v.treeHash, outputArtifact := v.artifactId,
    timedOut := v.timedOut }

/-- Whether the check operation ran this check on this tree. -/
def coversCheck (operation : Operation) (v : VerificationRecord) : Bool :=
  match operation.arguments with
  | .checks _ checkIds treeHash => v.checkId ∈ checkIds && v.treeHash = treeHash
  | _ => false

/-- `verification.finished`. -/
def verificationFinished (v : VerificationRecord) : Result Store := do
  let operation ← one s.operations fun o =>
    o.attemptId = attempt.id && o.operationId = v.operationId && o.toolClass = .checksRun &&
      o.status ∈ [.started, .succeeded, .failed]
  ensure (coversCheck operation v = true ∧ operation.startedAt.any (· ≤ v.startedAt) = true ∧
    v.treeHash = attempt.treeHash) "Check lacks matching durable execution authority."
  ensure (attempt.workspacePreparedAt.isSome = true ∧ attempt.processState = .active)
    "Workspace is unavailable."
  let repository ← present attempt.descriptor.repository "Input should be a valid dictionary"
  let check ← present (repository.requiredChecks.find? (·.id = v.checkId))
    "Check differs from the approved check."
  ensure (check.argv = v.command ∧ check.cwd = v.cwd) "Check differs from the approved check."
  ensure (attempt.createdAt ≤ v.startedAt ∧ v.finishedAt ≤ s.clock + 5) "Check timing is invalid."
  let _ ← one s.artifacts fun a =>
    a.id = v.artifactId && a.attemptId = attempt.id && a.kind = .verification &&
      a.unavailableAt.isNone
  pure { s with verifications := s.verifications ++ [verificationRow attempt v] }

/-- `str.isspace` of one character. -/
def isSpace (c : Char) : Bool :=
  c.toNat ∈ [0x20, 0x85, 0xa0, 0x1680, 0x2028, 0x2029, 0x202f, 0x205f, 0x3000] ||
    (0x09 ≤ c.toNat && c.toNat ≤ 0x0d) || (0x1c ≤ c.toNat && c.toNat ≤ 0x1f) ||
    (0x2000 ≤ c.toNat && c.toNat ≤ 0x200a)

/-- `not text.strip()`. -/
def blank (text : String) : Bool := text.toList.all isSpace

/-- The writes of an accepted `ResultPayload`. -/
def stagedResult (result : ResultPayload) : Store :=
  let s := (s.updateAttempt attempt.id fun a =>
    { a with treeHash := result.treeHash.getD "" }).updateJob fun job =>
      { job with resultProposal := some result, phase := .review }
  -- A resumed job can reuse the row of an earlier, parked attempt: every retry field is reset.
  (s.transition .verifying "").updateOrCreateRow .result fun row =>
    { row with
      payloadRef := some attempt.id, status := .pending, attemptCount := 0,
      nextAttemptAt := s.clock }

/-- `result.prepared`. -/
def resultPrepared (result : ResultPayload) : Result Store := do
  ensure (attempt.processState = .active) "Result is incomplete."
  if blank result.summary = true then pure (s.transition .interrupted "result_invalid")
  else do
    ensure ((s.available attempt.id result.artifactIds).length = result.artifactIds.dedup.length)
      "Result artifacts are unavailable."
    ensure (s.operations.all fun o => !(o.attemptId = attempt.id && Store.unresolved o))
      "Operation outcomes are unresolved."
    ensure (s.job.jobKind ≠ .code ∨ (result.treeHash.isSome = true ∧
      attempt.workspacePreparedAt.isSome = true)) "Final workspace evidence is required."
    pure (stagedResult s attempt result)

/-- What an event does to the store. -/
def applyEvent : Result Store :=
  match event.body with
  | .workspacePrepared prepared => workspacePrepared s attempt prepared
  | .attemptStarting _ => do
    ensure (attempt.processState = .starting) "Attempt already started."
    pure s
  | .attemptStarted process => attemptStarted s attempt process
  | .attemptInterrupted _ => pure (attemptInterrupted s attempt)
  | .attemptStopped _ => pure (attemptStopped s attempt event)
  | .inputApplied payload => inputApplied s attempt payload
  | .inputDeliveryUncertain payload => inputUncertain s attempt payload
  | .toolStarted payload => do
    let _ ← operationOf s attempt payload
    pure s
  | .toolFinished payload => toolFinished s attempt payload
  | .verificationFinished v => verificationFinished s attempt v
  | .inputRequested _ => pure (s.transition .waitingForInput "")
  | .resultPrepared result => resultPrepared s attempt result

/-! ## Recording -/

/-- What the runner is told about a recorded event. -/
structure EventReceipt where
  eventSequence : ℕ
  jobVersion : ℕ
  status : JobState

/-- The audit row of an event that was recorded before. -/
def priorEvent : Option AuditEvent :=
  s.audits.find? fun a =>
    a.attemptId = some attempt.id && a.event.any (·.eventId = event.eventId)

/-- The checks on a new event. -/
def admitEvent (expectedVersion : Option ℕ) (stopOnly : Bool) : Result Unit := do
  ensure (runtimeText event.body = false) "Cleanup evidence cannot contain runtime text."
  ensure (stopOnly = false ∨ isStop event.body = true)
    "Stop-only authority cannot report execution."
  if cleanup event.body = true then ensure (attempt.active = true) "Attempt has ended."
  else do
    ensure (∀ version ∈ expectedVersion, version = s.job.version) "Job version changed."
    s.requireExecution attempt
  ensure (event.sequence = attempt.eventCursor + 1) "Event sequence gap."
  ensure (event.occurredAt ≤ s.clock + 300 ∧ attempt.createdAt ≤ event.occurredAt + 300)
    "Event time is invalid."

/-- The name of an event's type. -/
def eventType : EventBody → String
  | .workspacePrepared _ => "workspace.prepared"
  | .attemptStarting _ => "attempt.starting"
  | .attemptStarted _ => "attempt.started"
  | .attemptStopped _ => "attempt.stopped"
  | .attemptInterrupted _ => "attempt.interrupted"
  | .inputApplied _ => "input.applied"
  | .inputDeliveryUncertain _ => "input.delivery_uncertain"
  | .toolStarted _ => "tool.started"
  | .toolFinished _ => "tool.finished"
  | .verificationFinished _ => "verification.finished"
  | .inputRequested _ => "input.requested"
  | .resultPrepared _ => "result.prepared"

/-- Whether recording this event is followed by a publication after the commit. -/
def publishesAfter (body : EventBody) : Bool :=
  isStop body && s.job.status = .verifying

/-- `record_event`: the receipt, and whether `_publish_after_commit` is due. -/
def recordEvent (expectedVersion : Option ℕ) (stopOnly : Bool) (s : Store) :
    Result ((EventReceipt × Bool) × Store) := do
  ensure (validEvent event.body = true) "Event state mismatch"
  let attempt ← s.lockedLease event.toLeaseIdentity none
  ensure (s.superseded attempt = false) "Attempt was superseded."
  match priorEvent s attempt event with
  | some prior => do
    ensure (prior.event = some event) "Event idempotency conflict."
    pure ((⟨prior.sequence, s.job.version, s.job.status⟩, false), s)
  | none => do
    admitEvent s attempt event expectedVersion stopOnly
    let s ← applyEvent s attempt event
    let s := s.updateAttempt attempt.id fun a => { a with eventCursor := event.sequence }
    let s ← s.audit (eventType event.body) attempt.id event
    pure ((⟨s.job.eventSequence, s.job.version, s.job.status⟩, publishesAfter s event.body), s)

/-- The view `events`, for one event; a batch is several of these in one transaction. -/
def events (expectedVersion : ℕ) :
    Store → Result ((EventReceipt × Bool) × Store) := agentTransaction fun s => do
  s.requireRunner
  recordEvent event (some expectedVersion) false s

/-- What a revoked credential may still report. -/
def stopCredential : Result Unit := do
  ensure (s.runnerRevokedAt.isSome = true) "Stop credential is unavailable."
  s.world.check .stopToken
  let attempt ← s.lockedLease event.toLeaseIdentity none
  if attempt.active = true then
    ensure (attempt.processState = .stopping ∨
      (attempt.processState = .unknown ∧ s.job.status = .interrupted)) "Stop state is unavailable."
  else ensure (attempt.stopReceipt = some event) "Stop receipt does not match."

/-- Who may report stop evidence: the runner, or the credential it lost when it was revoked. -/
def stopAuthority : Result Unit :=
  match s.requireRunner with
  | .ok () => .ok ()
  | .error _ => stopCredential s event

/-- `stop_evidence`.  The server assigns the sequence, so a lost acknowledgement cannot keep
the evidence out. -/
def stopEvidence : Store → Result ((EventReceipt × Bool) × Store) :=
  agentTransaction fun s => do
    ensure (isStop event.body = true) "Only stopped evidence is accepted."
    stopAuthority s event
    let attempt ← s.lockedLease event.toLeaseIdentity none
    match attempt.stopReceipt with
    | some receipt => do
      ensure (receipt = event) "Stop receipt does not match."
      let prior ← one s.audits fun a =>
        a.attemptId = some attempt.id && a.event.any (·.eventId = event.eventId)
      pure ((⟨prior.sequence, s.job.version, s.job.status⟩, false), s)
    | none => do
      let normalized := { event with sequence := attempt.eventCursor + 1 }
      let (receipt, s) ← recordEvent normalized none true s
      pure (receipt, s.updateAttempt attempt.id fun a => { a with stopReceipt := some event })

end GrowTeam.Server
