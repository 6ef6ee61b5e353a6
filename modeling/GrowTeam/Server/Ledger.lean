/-
# The ledger of a job

An abstract machine over what the guarantees about attempts, steering and approvals depend
on: the status with its version, who holds a lease, and the rows of the inputs, operations
and approvals.  `Entry` lists everything that can be written into it, with the state it may
be written in; the steps that the guarantees count are marked with a `Deed`.
`GrowTeam.Server.Entries` shows that every transaction of the server writes such entries
only.
-/
import GrowTeam.Server.Soundness

namespace GrowTeam.Server

/-! ## Ledgers -/

/-- One attempt in a ledger. -/
structure Tenure where
  id : Uuid
  number : ℕ
  leaseEpoch : ℕ
  active : Bool
  expires : Time
  claimKey : Uuid
  createdAt : Time
  descriptor : Descriptor
  process : ProcessState
  deriving DecidableEq

/-- An attempt, as the ledger keeps it. -/
def Attempt.tenure (a : Attempt) : Tenure :=
  { id := a.id, number := a.number, leaseEpoch := a.leaseEpoch, active := a.active,
    expires := a.leaseExpiresAt, claimKey := a.claimKey, createdAt := a.createdAt,
    descriptor := a.descriptor, process := a.processState }

/-- What the guarantees about a job's attempts and rows depend on. -/
@[ext] structure Ledger where
  clock : Time
  nextId : ℕ
  revokedAt : Option Time
  status : JobState
  reason : String
  version : ℕ
  stopTarget : StopTarget
  inputSequence : ℕ
  attempts : List Tenure
  inputs : List Input
  operations : List Operation
  approvals : List Approval
  /-- The attempts whose stop is in the outbox. -/
  stops : Uuid → Bool

/-- The ledger of a store. -/
def ledger (s : Store) : Ledger :=
  { clock := s.clock, nextId := s.nextId, revokedAt := s.runnerRevokedAt, status := s.job.status,
    reason := s.job.blockedReason, version := s.job.version, stopTarget := s.job.stopTarget,
    inputSequence := s.job.inputSequence, attempts := s.attempts.map Attempt.tenure,
    inputs := s.inputs, operations := s.operations, approvals := s.approvals,
    stops := fun id => (s.row (.stop id)).isSome }

/-- What a step is remembered for. -/
inductive Deed where
  | claimed (attempt : Uuid)
  /-- `deliver_inputs`. -/
  | delivered (attempt : Uuid)
  /-- `request_stop` for an attempt. -/
  | requested (attempt : Uuid) (target : StopTarget) (reason : String)
  /-- `request_stop` of a job without an active attempt. -/
  | halted (target : StopTarget) (reason : String)
  | interrupted (attempt : Uuid)
  | stopped (attempt : Uuid)
  | revoked
  /-- `fence_prepared_result`. -/
  | fenced (attempt : Uuid)
  /-- The job left the executing statuses and its attempt did not follow. -/
  | spoiled
  | approved (approval : Uuid) (actor : ℕ)
  /-- An operation that needed no approval started. -/
  | begun (operation : Uuid)
  /-- An operation started with its approval. -/
  | consumed (approval operation : Uuid)
  deriving DecidableEq

/-- The reasons that `request_stop` is called with. -/
def stopReasons : List String :=
  ["", "approval_rejected", "authority_changed", "approval_expired"]

/-- The reasons of an attempt that is given up without a confirmed stop. -/
def interruptions : List String := ["lease_lost", "stop_unconfirmed"]

namespace Ledger

/-! ## Writes -/

variable (c : Ledger)

/-- The job's status changes. -/
def transition (status : JobState) (reason : String) : Ledger :=
  { c with status := status, reason := reason, version := c.version + 1 }

/-- The version moves on its own. -/
def bump : Ledger := { c with version := c.version + 1 }

variable (id : Uuid)

/-- An update of one attempt. -/
def updateAttempt (f : Tenure → Tenure) : Ledger :=
  { c with attempts := updateWhere (·.id = id) f c.attempts }

/-- An update of inputs. -/
def updateInputs (p : Input → Bool) (f : Input → Input) : Ledger :=
  { c with inputs := updateWhere p f c.inputs }

/-- An update of operations. -/
def updateOperations (p : Operation → Bool) (f : Operation → Operation) : Ledger :=
  { c with operations := updateWhere p f c.operations }

/-- An update of approvals. -/
def updateApprovals (p : Approval → Bool) (f : Approval → Approval) : Ledger :=
  { c with approvals := updateWhere p f c.approvals }

/-- The approvals of an attempt can no longer be used. -/
def invalidateApprovals : Ledger :=
  c.updateApprovals (fun p => p.attemptId = id && p.decision ∈ [.pending, .approved])
    fun p => { p with decision := .cancelled }

/-- What is lost with the process of an attempt. -/
def lost : Ledger :=
  ((c.invalidateApprovals id).updateOperations (fun o => o.attemptId = id && o.status = .started)
    fun o => { o with status := .outcomeUnknown }).updateInputs
    (fun i => i.deliveredAttempt = some id && i.deliveryState = .delivered)
    fun i => { i with deliveryState := .deliveryUncertain }

/-- `request_stop` for an attempt. -/
def requestStop (target : StopTarget) (reason : String) : Ledger :=
  let c : Ledger :=
    { c with stopTarget := target, stops := fun j => c.stops j || decide (j = id) }
  ((c.updateAttempt id fun a => { a with process := .stopping }).invalidateApprovals id).transition
    .cancelRequested reason

/-- Whether the job ends where a stop request sent it. -/
def stopRequested : Bool :=
  c.status = .cancelRequested || c.revokedAt.isSome || c.stops id

/-- Whether an attempt is active. -/
def working : Bool := c.attempts.any fun a => a.id = id && a.active

variable (reason : String)

/-- The status of a job whose attempt stopped. -/
def ended : Ledger :=
  if c.stopRequested id = true then c.transition c.stopTarget.status c.reason
  else if c.status ∉ terminal ∧ c.status ≠ .verifying then c.transition .interrupted reason
  else c

/-- The attempt stopped. -/
def contain : Ledger :=
  (c.updateAttempt id fun a => { a with process := .stopped, active := false }).lost id

/-- The runner's credential is revoked. -/
def revoke (now : Time) : Ledger :=
  if c.attempts.any (·.active) then
    { c with
      revokedAt := some now, status := .cancelRequested, version := c.version + 1,
      attempts := updateWhere (·.active) (fun a => { a with process := .stopping }) c.attempts }
  else { c with revokedAt := some now }

/-- An input is added. -/
def steer (i : Input) : Ledger :=
  { c with
    nextId := c.nextId + 1, inputSequence := c.inputSequence + 1, version := c.version + 1,
    status := if c.status ∈ reopened then .running else c.status,
    inputs := c.inputs ++ [i],
    approvals := if c.status ∈ reopened then updateWhere
        (fun p => c.attempts.any (fun a => a.active && a.id = p.attemptId) &&
          p.decision ∈ [.pending, .approved])
        (fun p => { p with decision := .cancelled }) c.approvals
      else c.approvals }

theorem mem_updateAttempt {c : Ledger} {a : Tenure} {f : Tenure → Tenure} (ha : a ∈ c.attempts) :
    f a ∈ (c.updateAttempt a.id f).attempts := by
  refine List.mem_map.mpr ⟨a, ha, ?_⟩
  simp

theorem working_requestStop (target : StopTarget) (reason : String)
    (j : Uuid) : (c.requestStop id target reason).working j = c.working j :=
  any_updateWhere (by intro a; rfl) c.attempts

/-- The end of a job moves its status only. -/
theorem ended_rows :
    (c.ended id reason).attempts = c.attempts ∧ (c.ended id reason).inputs = c.inputs ∧
      (c.ended id reason).operations = c.operations ∧
        (c.ended id reason).approvals = c.approvals := by
  unfold ended
  split
  · exact ⟨rfl, rfl, rfl, rfl⟩
  · split <;> exact ⟨rfl, rfl, rfl, rfl⟩

@[simp] theorem ended_attempts :
    (c.ended id reason).attempts = c.attempts := (c.ended_rows id reason).1

@[simp] theorem ended_inputs : (c.ended id reason).inputs = c.inputs := (c.ended_rows id reason).2.1

@[simp] theorem ended_operations :
    (c.ended id reason).operations = c.operations := (c.ended_rows id reason).2.2.1

@[simp] theorem ended_approvals :
    (c.ended id reason).approvals = c.approvals := (c.ended_rows id reason).2.2.2

@[simp] theorem ended_inputSequence : (c.ended id reason).inputSequence = c.inputSequence := by
  unfold ended
  split
  · rfl
  · split <;> rfl

@[simp] theorem ended_nextId : (c.ended id reason).nextId = c.nextId := by
  unfold ended
  split
  · rfl
  · split <;> rfl

@[simp] theorem ended_clock : (c.ended id reason).clock = c.clock := by
  unfold ended
  split
  · rfl
  · split <;> rfl

@[simp] theorem ended_stopTarget : (c.ended id reason).stopTarget = c.stopTarget := by
  unfold ended
  split
  · rfl
  · split <;> rfl

@[simp] theorem ended_revokedAt : (c.ended id reason).revokedAt = c.revokedAt := by
  unfold ended
  split
  · rfl
  · split <;> rfl

/-- Where a job ends whose attempt stopped, unless it was over before or awaits its
publication. -/
theorem ended_status : (c.ended id reason).status ∈ [.cancelled, .blocked, .interrupted] ∨
      (c.ended id reason).status = c.status ∧ c.status ∈ terminal ++ [.verifying] := by
  unfold ended
  split
  · left
    show c.stopTarget.status ∈ _
    cases c.stopTarget <;> decide
  split
  · exact .inl (by simp [transition])
  · next hopen =>
    refine .inr ⟨rfl, ?_⟩
    revert hopen
    cases c.status <;> decide

section

variable (c : Ledger) (id : Uuid)

/-! What a stop writes, one field at a time. -/

@[simp] theorem contain_nextId : (c.contain id).nextId = c.nextId := rfl

@[simp] theorem contain_clock : (c.contain id).clock = c.clock := rfl

@[simp] theorem contain_stopTarget : (c.contain id).stopTarget = c.stopTarget := rfl

@[simp] theorem contain_revokedAt : (c.contain id).revokedAt = c.revokedAt := rfl

@[simp] theorem contain_status : (c.contain id).status = c.status := rfl

@[simp] theorem contain_inputSequence : (c.contain id).inputSequence = c.inputSequence := rfl

@[simp] theorem contain_attempts : (c.contain id).attempts =
    updateWhere (·.id = id) (fun a => { a with process := .stopped, active := false })
      c.attempts := rfl

@[simp] theorem contain_inputs : (c.contain id).inputs =
    updateWhere (fun i => i.deliveredAttempt = some id && i.deliveryState = .delivered)
      (fun i => { i with deliveryState := .deliveryUncertain }) c.inputs := rfl

@[simp] theorem contain_operations : (c.contain id).operations =
    updateWhere (fun o => o.attemptId = id && o.status = .started)
      (fun o => { o with status := .outcomeUnknown }) c.operations := rfl

@[simp] theorem contain_approvals : (c.contain id).approvals =
    updateWhere (fun p => p.attemptId = id && p.decision ∈ [.pending, .approved])
      (fun p => { p with decision := .cancelled }) c.approvals := rfl

end

/-- Updates of one attempt that do not meet can be swapped. -/
theorem updateAttempt_comm {c : Ledger} {id : Uuid} {f g : Tenure → Tenure}
    (hf : ∀ a, (f a).id = a.id) (hg : ∀ a, (g a).id = a.id) (hfg : ∀ a, f (g a) = g (f a)) :
    (c.updateAttempt id f).updateAttempt id g = (c.updateAttempt id g).updateAttempt id f := by
  simp only [updateAttempt, updateWhere, List.map_map]
  congr 1
  apply List.map_congr_left
  intro a ha
  by_cases hid : a.id = id
  · simp [hid, hf, hg, hfg]
  · simp [hid]

/-! ## Guards -/

/-- No attempt is active. -/
def Idle : Prop := ∀ a ∈ c.attempts, a.active = false

/-- What an execution lease says of the job and of the attempt. -/
structure Leased (c : Ledger) (a : Tenure) : Prop where
  mem : a ∈ c.attempts
  active : a.active = true
  unrevoked : c.revokedAt = none
  live : c.clock < a.expires
  process : a.process ∈ [.starting, .active]
  status : c.status ∈ executing

/-- An attempt as `claim_work` starts it. -/
structure Fresh (c : Ledger) (a : Tenure) : Prop where
  id : a.id = c.nextId
  number : a.number = (c.attempts.map (·.number)).foldl max 0 + 1
  epoch : a.leaseEpoch = a.number
  active : a.active = true
  process : a.process = .starting
  key : ∀ b ∈ c.attempts, b.claimKey ≠ a.claimKey

/-- An input as `add_input` saves it. -/
structure Added (c : Ledger) (i : Input) : Prop where
  id : i.id = c.nextId
  sequence : i.sequence = c.inputSequence + 1
  pending : i.deliveryState = .pending
  undelivered : i.deliveredAttempt = none
  receipts : i.receipts = []

/-- Every earlier input was applied. -/
def InOrder (n : ℕ) : Prop :=
  ∀ i ∈ c.inputs, i.sequence < n → Store.unapplied i = false

/-- An operation as `propose_operation` saves it. -/
structure Proposed (c : Ledger) (a : Tenure) (o : Operation) : Prop where
  fresh : ∀ o' ∈ c.operations, o'.operationId ≠ o.operationId
  attempt : o.attemptId = a.id
  action : o.toolClass = o.arguments.action
  remote : o.remoteReceipt = none

/-- The approval of a proposed operation, as it is saved with it. -/
structure Requested (c : Ledger) (o : Operation) (p : Approval) : Prop where
  id : p.id = c.nextId
  attempt : p.attemptId = o.attemptId
  operation : p.operationId = o.operationId
  hash : p.operationHash = o.argumentDigest
  tree : p.treeHash = o.scopeBinding.treeHash.getD ""
  pending : p.decision = .pending

/-- An approval that an operation is started with. -/
structure Usable (c : Ledger) (o : Operation) (p : Approval) : Prop where
  mem : p ∈ c.approvals
  operation : p.operationId = o.operationId
  approved : p.decision = .approved
  unexpired : c.clock < p.expiresAt
  hash : p.operationHash = o.argumentDigest
  approver : p.approver.isSome = true

/-! ## Entries -/

/-- What may be written into a ledger, and what it is remembered for. -/
inductive Entry (site : Site) : Ledger → Option Deed → Ledger → Prop where
  | passed (c : Ledger) (n : ℕ) : Entry site c none { c with clock := c.clock + n }
  | allocated (c : Ledger) (n : ℕ) (hn : c.nextId ≤ n) : Entry site c none { c with nextId := n }
  -- People.
  | drafted (c : Ledger) (hs : c.status = .draft) :
    Entry site c none { c with
      status := .queued, reason := "", version := c.version + 1, stopTarget := .cancelled,
      inputSequence := 0 }
  | halted (c : Ledger) (target : StopTarget) (reason : String) (hidle : c.Idle)
    (hs : c.status ∉ [.cancelRequested, .cancelled, .completed]) :
    Entry site c (some (.halted target reason))
      (({ c with stopTarget := target } : Ledger).transition target.status reason)
  | requested (c : Ledger) (a : Tenure) (target : StopTarget) (reason : String)
    (ha : a ∈ c.attempts) (hactive : a.active = true) (hr : reason ∈ stopReasons) :
    Entry site c (some (.requested a.id target reason)) (c.requestStop a.id target reason)
  | steered (c : Ledger) (i : Input) (hs : c.status ∉ terminal ++ [.cancelRequested])
    (hb : c.status = .queued ∨
      ∃ a ∈ c.attempts, a.active = true ∧ a.process ∉ [.stopping, .unknown])
    (hi : c.Added i) : Entry site c none (c.steer i)
  | resumed (c : Ledger) (hs : c.status ∈ [.cancelled, .failed, .interrupted, .blocked])
    (hidle : c.Idle) (hi : ∀ i ∈ c.inputs, i.deliveryState ≠ .deliveryUncertain) :
    Entry site c none (c.transition .queued "")
  | revoked (c : Ledger) (now : Time) (hr : c.revokedAt = none) :
    Entry site c (some .revoked) (c.revoke now)
  -- Attempts.
  | overdue (c : Ledger) (hs : c.status = .queued) :
    Entry site c none (c.transition .blocked "start_deadline_expired")
  | claimed (c : Ledger) (a : Tenure) (hs : c.status = .queued) (hidle : c.Idle)
    (hr : c.revokedAt = none) (ha : c.Fresh a) :
    Entry site c (some (.claimed a.id)) (({ c with
      nextId := c.nextId + 1, attempts := c.attempts ++ [a] } : Ledger).transition .running "")
  | extended (c : Ledger) (a : Tenure) (expires : Time) (hl : c.Leased a)
    (he : expires ≤ a.createdAt + a.descriptor.activeSeconds) :
    Entry site c none (c.updateAttempt a.id fun a => { a with expires := expires })
  | fenced (c : Ledger) (a : Tenure) (ha : a ∈ c.attempts) (hactive : a.active = true)
    (hp : a.process = .active) (hr : c.revokedAt = none) (hs : c.status = .verifying) :
    Entry site c (some (.fenced a.id))
      (c.updateAttempt a.id fun a => { a with process := .stopping }).bump
  | started (c : Ledger) (a : Tenure) (hl : c.Leased a) :
    Entry site c none (c.updateAttempt a.id fun a => { a with process := .active })
  | interrupted (c : Ledger) (a : Tenure) (reason : String) (ha : a ∈ c.attempts)
    (hactive : a.active = true) (hr : reason ∈ interruptions) :
    Entry site c (some (.interrupted a.id))
      (((c.updateAttempt a.id fun a => { a with process := .unknown }).lost a.id).transition
        .interrupted reason)
  | stopped (c : Ledger) (a : Tenure) (reason : String) (ha : a ∈ c.attempts)
    (hactive : a.active = true) :
    Entry site c (some (.stopped a.id)) ((c.ended a.id reason).contain a.id)
  | moved (c : Ledger) (a : Tenure) (status : JobState) (hl : c.Leased a)
    (hs : status ∈ executing) : Entry site c none (c.transition status "")
  | spoiled (c : Ledger) (a : Tenure) (reason : String) (hl : c.Leased a) :
    Entry site c (some .spoiled) (c.transition .interrupted reason)
  -- Inputs.
  | delivered (c : Ledger) (a : Tenure) (ids : List Uuid) (hl : c.Leased a) :
    Entry site c (some (.delivered a.id)) (c.updateInputs (fun i => i.id ∈ ids && i.deliveryState = .pending)
      fun i => { i with deliveryState := .delivered, deliveredAttempt := some a.id })
  | applied (c : Ledger) (a : Tenure) (i : Input) (now : Time) (hl : c.Leased a)
    (hi : i ∈ c.inputs) (hd : i.deliveredAttempt = some a.id)
    (hs : i.deliveryState ∈ [.delivered, .deliveryUncertain]) (ho : c.InOrder i.sequence) :
    Entry site c none (c.updateInputs (·.id = i.id) fun i =>
      { i with deliveryState := .applied, appliedAt := some now })
  | doubted (c : Ledger) (a : Tenure) (i : Input) (hl : c.Leased a) (hi : i ∈ c.inputs)
    (hd : i.deliveredAttempt = some a.id)
    (hs : i.deliveryState ∈ [.delivered, .deliveryUncertain]) :
    Entry site c none (c.updateInputs (·.id = i.id) fun i =>
      { i with deliveryState := .deliveryUncertain })
  | reconciled (c : Ledger) (i : Input) (receipt : InputReceipt) (now : Time) (hi : i ∈ c.inputs)
    (hd : i.deliveredAttempt = some receipt.attemptId) (hs : i.deliveryState = .deliveryUncertain)
    (ho : receipt.outcomeApplied = true → c.InOrder i.sequence) :
    Entry site c none (c.updateInputs (·.id = i.id) fun i =>
      if receipt.outcomeApplied then
        { i with
          deliveryState := .applied, appliedAt := some now, receipts := i.receipts ++ [receipt] }
      else
        { i with
          deliveryState := .pending, deliveredAttempt := none,
          receipts := i.receipts ++ [receipt] })
  -- Operations and approvals.
  | authorized (c : Ledger) (a : Tenure) (o : Operation) (hl : c.Leased a) (ho : c.Proposed a o)
    (hs : o.status = .authorized) (hc : o.toolClass ∉ [.gitPush, .gitDraftPr]) :
    Entry site c none { c with operations := c.operations ++ [o] }
  | proposed (c : Ledger) (a : Tenure) (o : Operation) (p : Approval) (hl : c.Leased a)
    (ho : c.Proposed a o) (hs : o.status = .proposed) (hp : c.Requested o p) :
    Entry site c none { c with
      nextId := c.nextId + 2, operations := c.operations ++ [o], approvals := c.approvals ++ [p] }
  | approved (c : Ledger) (a : Tenure) (p : Approval) (actor : ℕ) (now : Time) (hl : c.Leased a)
    (hp : p ∈ c.approvals) (ha : p.attemptId = a.id) (hd : p.decision = .pending) :
    Entry site c (some (.approved p.id actor)) (c.updateApprovals (·.id = p.id) fun p =>
      { p with
        approver := some actor, decision := .approved, decidedAt := some now,
        version := p.version + 1 })
  | rejected (c : Ledger) (a : Tenure) (p : Approval) (actor : ℕ) (now : Time) (hl : c.Leased a)
    (hp : p ∈ c.approvals) (ha : p.attemptId = a.id) (hd : p.decision = .pending) :
    Entry site c none (c.updateApprovals (·.id = p.id) fun p =>
      { p with
        approver := some actor, decision := .rejected, decidedAt := some now,
        version := p.version + 1 })
  | expired (c : Ledger) (p : Approval) (hp : p ∈ c.approvals)
    (hd : p.decision ∉ [.rejected, .consumed]) (he : p.expiresAt ≤ c.clock) :
    Entry site c none (c.updateApprovals (·.id = p.id) fun p => { p with decision := .expired })
  | begun (c : Ledger) (a : Tenure) (o : Operation) (now : Time) (hl : c.Leased a)
    (ho : o ∈ c.operations) (ha : o.attemptId = a.id) (hs : o.status = .authorized) :
    Entry site c (some (.begun o.operationId)) (c.updateOperations (·.operationId = o.operationId) fun o =>
      { o with status := .started, startedAt := some now, version := o.version + 1 })
  | consumed (c : Ledger) (a : Tenure) (o : Operation) (p : Approval) (now : Time)
    (hl : c.Leased a) (ho : o ∈ c.operations) (ha : o.attemptId = a.id)
    (hs : o.status = .proposed) (hp : c.Usable o p) :
    Entry site c (some (.consumed p.id o.operationId)) ((c.updateApprovals (·.id = p.id) fun p =>
      { p with decision := .consumed, consumedAt := some now, version := p.version + 1 })
        |>.updateOperations (·.operationId = o.operationId) fun o =>
          { o with status := .started, startedAt := some now, version := o.version + 1 })
  | finished (c : Ledger) (a : Tenure) (o : Operation) (status : OperationState) (now : Time)
    (hl : c.Leased a) (ho : o ∈ c.operations) (hs : o.status = .started)
    (hf : status ∈ [.succeeded, .failed, .outcomeUnknown, .cancelled])
    (hc : status ≠ .succeeded ∨ o.toolClass ∉ [.gitPush, .gitDraftPr]) :
    Entry site c none (c.updateOperations (·.operationId = o.operationId) fun o =>
      { o with status := status, finishedAt := some now })
  | received (c : Ledger) (o : Operation) (receipt : RemoteReceipt) (now : Time)
    (ho : o ∈ c.operations) (hs : o.status ∈ [.started, .outcomeUnknown])
    (hm : matchesOperation site o receipt = true) :
    Entry site c none (c.updateOperations (·.operationId = o.operationId) fun o =>
      { o with
        remoteReceipt := some receipt, status := .succeeded, finishedAt := some now,
        version := o.version + 1 })
  | observed (c : Ledger) (o : Operation) (receipt : LocalOperationReceipt) (now : Time)
    (ho : o ∈ c.operations) (hs : o.status = .outcomeUnknown)
    (hc : o.toolClass ∉ [.gitPush, .gitDraftPr]) :
    Entry site c none (c.updateOperations (·.operationId = o.operationId) fun o =>
      { o with
        localReceipt := some receipt, status := localStatus receipt.outcome,
        finishedAt := some now, version := o.version + 1 })
  | executed (c : Ledger) (o : Operation) (receipt : TeamReceipt) (now : Time)
    (ho : o ∈ c.operations) (hc : o.toolClass = .teamManage)
    (hs : o.status ∉ [.proposed, .authorized]) :
    Entry site c none (c.updateOperations (·.operationId = o.operationId) fun o =>
      { o with
        serverReceipt := some receipt,
        status := if receipt.succeeded then .succeeded else .failed,
        finishedAt := some now, version := o.version + 1 })
  -- Publication.
  | completed (c : Ledger) (hs : c.status = .verifying) (hidle : c.Idle)
    (hi : ∀ i ∈ c.inputs, Store.unapplied i = false) :
    Entry site c none (c.transition .completed "")
  | parked (c : Ledger) (reason : String) (hs : c.status = .verifying) :
    Entry site c none (c.transition .verifying reason)
  | failed (c : Ledger) (reason : String) (hs : c.status = .verifying) :
    Entry site c (some .spoiled) (c.transition .failed reason)

/-- Any number of entries, with what they are remembered for. -/
inductive Entries (site : Site) : Ledger → List Deed → Ledger → Prop where
  | refl (c : Ledger) : Entries site c [] c
  | tail {c d e : Ledger} {l : List Deed} {m : Option Deed} (h : Entries site c l d)
    (he : Entry site d m e) : Entries site c (l ++ m.toList) e

namespace Entries

variable {site : Site} {c d e : Ledger} {l m : List Deed}

theorem single {m : Option Deed} (h : Entry site c m d) : Entries site c m.toList d := by
  have ht : Entries site c ([] ++ m.toList) d := .tail (.refl c) h
  simpa using ht

theorem trans (h : Entries site c l d) (h' : Entries site d m e) :
    Entries site c (l ++ m) e := by
  induction h' with
  | refl => simpa using h
  | tail _ he ih =>
    rw [← List.append_assoc]
    exact .tail ih he

/-- One more entry that leaves no mark. -/
theorem snoc (h : Entries site c l d) (he : Entry site d none e) : Entries site c l e := by
  have ht := Entries.tail h he
  simpa using ht

theorem cast (h : Entries site c l d) (hl : l = m) (hd : d = e) : Entries site c m e := by
  subst hl hd
  exact h

end Entries

end Ledger

end GrowTeam.Server
