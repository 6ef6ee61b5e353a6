/-
# Runner events and operations take turns of the life cycle

The transactions that report what an attempt did.  Four of them can reopen a verifying job
without withdrawing its proposal; `reopens` names them, and everything else follows a path
of turns.
-/
import GrowTeam.Server.Refinement

namespace GrowTeam.Server

open Outline List

variable {site : Site} {s s' : Store}

/-! ## Runner events -/

/-- The events that move a job or take its proposal, whatever its status is. -/
def reopensEvent : EventBody → Bool
  | .toolFinished payload => payload.toolClass ∈ mutating
  | .inputRequested _ => true
  | _ => false

/-- What a transaction does to the outline: reopening a verifying job, or a path of turns. -/
def Takes (reopens : Prop) (o o' : Outline) : Prop :=
  (reopens ∧ o.status = .verifying → Reopened o o') ∧
    (¬(reopens ∧ o.status = .verifying) → Path o o')

theorem Takes.ofPath {reopens : Prop} {o o' : Outline} (hr : ¬reopens) (h : Path o o') :
    Takes reopens o o' :=
  ⟨fun hv => absurd hv.1 hr, fun _ => h⟩

theorem Takes.imp {reopens reopens' : Prop} {o o' : Outline} (h : Takes reopens o o')
    (hr : reopens ↔ reopens') : Takes reopens' o o' := by
  have heq : reopens = reopens' := propext hr
  rw [← heq]
  exact h

variable {a : Attempt} {event : RunnerEvent} {lease : LeaseIdentity} {version : Option ℕ}
  {answer : EventReceipt × Bool} {request : Consumption}

/-- Outside verification the job only moves; inside, it is reopened. -/
theorem takes_moved {status : JobState} (hexec : Executing s a) (n : ℕ)
    (hn : s.nextId ≤ n) (hw : status ∈ workingStatuses) :
    Takes True (outline s) { outline s with status := status, reason := "", nextId := n } := by
  constructor
  · exact fun hv => .moved (outline s) status n hv.2 hw hn
  · intro hv
    have hwork := hexec.working fun hs => hv ⟨trivial, hs⟩
    exact .tail (.single (.moved (outline s) status hwork hw)) (.allocated _ n hn)

theorem workspacePrepared_path {prepared : WorkspacePreparedPayload}
    (h : workspacePrepared s a prepared = .ok s') : Path (outline s) (outline s') := by
  simp only [workspacePrepared, bind_eq_ok, pure_eq_ok] at h
  obtain ⟨-, -, -, -, rfl⟩ := h
  exact path_of_eq (outline_updateAttempt (by intro a; rfl))

theorem attemptStarted_path {process : ProcessPayload}
    (h : attemptStarted s a process = .ok s') : Path (outline s) (outline s') := by
  simp only [attemptStarted, bind_eq_ok, pure_eq_ok] at h
  obtain ⟨-, -, rfl⟩ := h
  exact path_of_eq (outline_updateAttempt (by intro a; rfl))

/-- The rows of a lost process say nothing of the outline. -/
theorem outline_loseInputs (hS : Sound site (outline s)) (id : Uuid) :
    outline (s.loseInputs id) = outline s :=
  outline_updateInputs hS.applied (by simp)

/-- Nor do the marks of a process that may still run. -/
theorem outline_lost (hS : Sound site (outline s)) (id : Uuid) :
    outline ((((s.updateAttempt id fun a => { a with processState := .unknown }).invalidateApprovals
      id).loseOperations id).loseInputs id) = outline s := by
  have hattempt : outline (s.updateAttempt id fun a => { a with processState := .unknown }) =
      outline s := outline_updateAttempt (by intro a; rfl)
  rw [← hattempt] at hS ⊢
  exact outline_loseInputs hS id

theorem attemptInterrupted_path (hS : Sound site (outline s))
    (hopen : (outline s).status ≠ .completed) :
    Path (outline s) (outline (attemptInterrupted s a)) := by
  unfold attemptInterrupted
  rw [outline_transition, outline_lost hS]
  exact .single (.halted _ _ _ hopen (by decide))

/-- The attempt row of a confirmed stop. -/
private def stoppedRow (s : Store) (event : RunnerEvent) (b : Attempt) : Attempt :=
  { b with
    processState := .stopped, stoppedAt := some s.clock, endedAt := some s.clock,
    active := false, stopReceipt := some event }

/-- Ending an attempt ends its lease. -/
theorem outline_containment (hS : Sound site (outline s)) (a : Attempt) (event : RunnerEvent) :
    outline (containment s a event) = { outline s with
      leases := updateWhere (·.id = a.id) (fun l => { l with active := false })
        (outline s).leases } := by
  have hviews : (updateWhere (·.id = a.id) (stoppedRow s event) s.attempts).map Attempt.view =
      updateWhere (·.id = a.id) (fun l => { l with active := false })
        (s.attempts.map Attempt.view) := by
    simp only [updateWhere, map_map]
    apply map_congr_left
    intro b hb
    show (if _ then _ else b : Attempt).view = if _ then _ else b.view
    by_cases hid : b.id = a.id <;> simp [hid, Attempt.view, stoppedRow]
  have hlost : outline (containment s a event) =
      outline ((s.updateAttempt a.id (stoppedRow s event)).loseInputs a.id) := rfl
  have hinputs : outline ((s.updateAttempt a.id (stoppedRow s event)).loseInputs a.id) =
      outline (s.updateAttempt a.id (stoppedRow s event)) :=
    outline_updateInputs hS.applied (by simp)
  rw [hlost, hinputs]
  simp only [outline, Store.updateAttempt, hviews]
  rfl

theorem attemptStopped_path (hS : Sound site (outline s))
    (hopen : (outline s).status ≠ .completed) :
    Path (outline s) (outline (attemptStopped s a event)) := by
  have hended : Path (outline s) (outline (containment s a event)) := by
    rw [outline_containment hS]
    exact .single (.ended _ _ hopen)
  have hopen' : (outline (containment s a event)).status ≠ .completed := by
    exact hopen
  unfold attemptStopped
  split
  · refine .tail hended (.halted _ s.job.stopTarget.status _ hopen' ?_)
    cases s.job.stopTarget <;> simp [haltedStatuses, StopTarget.status]
  split
  · exact .tail hended (.halted _ .interrupted _ hopen' (by decide))
  · exact hended

theorem withdrawProposal_path (hopen : (outline s).status ≠ .completed) :
    Path (outline s) (outline (withdrawProposal s)) := by
  unfold withdrawProposal
  split
  · exact .refl
  split
  · next hv => exact .single (.withdrawn (outline s) hv)
  · next hv => exact .single (.retracted (outline s) hopen hv)

theorem inputApplied_path {payload : InputPayload} (hS : Sound site (outline s))
    (hexec : Executing s a) (h : inputApplied s a payload = .ok s') :
    Path (outline s) (outline s') := by
  simp only [inputApplied, bind_eq_ok, pure_eq_ok] at h
  obtain ⟨input, -, -, -, rfl⟩ := h
  have heq : outline ((s.updateInputs (·.id = input.id) fun i =>
      { i with deliveryState := .applied, appliedAt := some s.clock }).updateAttempt a.id
        fun a => { a with inputCursor := input.sequence }) = outline s := by
    rw [outline_updateAttempt (by intro a; rfl)]
    exact outline_updateInputs hS.applied (by simp)
  rw [← heq]
  refine withdrawProposal_path ?_
  exact hexec.open

theorem inputUncertain_path {payload : InputPayload} (hS : Sound site (outline s))
    (h : inputUncertain s a payload = .ok s') : Path (outline s) (outline s') := by
  simp only [inputUncertain, bind_eq_ok, pure_eq_ok] at h
  obtain ⟨input, -, rfl⟩ := h
  exact path_of_eq (outline_updateInputs hS.applied (by simp))

theorem operationOf_toolClass {payload : ToolPayload} {o : Operation}
    (h : operationOf s a payload = .ok o) : o.toolClass = payload.toolClass := by
  simp only [operationOf, bind_eq_ok, one_eq_ok, pure_eq_ok] at h
  obtain ⟨o', hfind, -, -, rfl⟩ := h
  have hp := find?_some hfind
  rw [Bool.and_eq_true, decide_eq_true_eq] at hp
  exact hp.2

theorem toolFinished_takes {payload : ToolPayload} (hexec : Executing s a)
    (h : toolFinished s a payload = .ok s') :
    Takes (payload.toolClass ∈ mutating) (outline s) (outline s') := by
  simp only [toolFinished, bind_eq_ok] at h
  obtain ⟨o, hop, -, -, h⟩ := h
  rw [operationOf_toolClass hop] at h
  by_cases hm : payload.toolClass ∈ mutating
  · rw [if_pos hm] at h
    rw [pure_eq_ok] at h
    subst h
    have heq : ∀ (s₁ : Store) (f : Attempt → Attempt), (∀ b, (f b).view = b.view) →
        outline ((s₁.updateAttempt a.id f).updateJob fun job =>
          { job with resultProposal := none }) = { outline s₁ with proposal := none } := by
      intro s₁ f hf
      have hsame : outline (s₁.updateAttempt a.id f) = outline s₁ := outline_updateAttempt hf
      rw [← hsame]
      rfl
    rw [heq _ _ (by intro b; rfl)]
    constructor
    · exact fun hv => .emptied (outline s) hv.2
    · exact fun hv => .single (.retracted (outline s) hexec.open fun hs => hv ⟨hm, hs⟩)
  · rw [if_neg hm] at h
    rw [pure_eq_ok] at h
    subst h
    exact .ofPath hm .refl

theorem verificationFinished_path {v : VerificationRecord}
    (h : verificationFinished s a v = .ok s') : Path (outline s) (outline s') := by
  simp only [verificationFinished, bind_eq_ok, pure_eq_ok] at h
  obtain ⟨-, -, -, -, -, -, -, -, -, -, -, -, -, -, -, -, rfl⟩ := h
  exact .refl

theorem stagedResult_path (a : Attempt) (result : ResultPayload)
    (hopen : (outline s).status ≠ .completed) :
    Path (outline s) (outline (stagedResult s a result)) := by
  unfold stagedResult
  rw [outline_updateOrCreateRow (by intro row; rfl) (by intro row; rfl)]
  have heq : outline (s.updateAttempt a.id fun a =>
      { a with treeHash := result.treeHash.getD "" }) = outline s :=
    outline_updateAttempt (by intro a; rfl)
  have hprepared := Turn.prepared (outline s) result hopen
  rw [← heq] at hprepared ⊢
  exact .single hprepared

theorem resultPrepared_path {result : ResultPayload} (hexec : Executing s a)
    (h : resultPrepared s a result = .ok s') : Path (outline s) (outline s') := by
  rw [resultPrepared, bind_eq_ok] at h
  obtain ⟨-, -, h⟩ := h
  split at h
  · rw [pure_eq_ok] at h
    subst h
    exact .single (.halted _ .interrupted _ hexec.open (by decide))
  · simp only [bind_eq_ok, pure_eq_ok] at h
    obtain ⟨-, -, -, -, -, -, rfl⟩ := h
    exact stagedResult_path a result hexec.open

/-- What an admitted event does. -/
theorem applyEvent_takes (hS : Sound site (outline s)) (hopen : (outline s).status ≠ .completed)
    (hexec : cleanup event.body = false → Executing s a) (h : applyEvent s a event = .ok s') :
    Takes (reopensEvent event.body = true) (outline s) (outline s') := by
  unfold applyEvent at h
  split at h
  · next hb => exact .ofPath (by simp [reopensEvent, hb]) (workspacePrepared_path h)
  · next hb =>
    rw [bind_eq_ok, pure_eq_ok] at h
    obtain ⟨-, -, rfl⟩ := h
    exact .ofPath (by simp [reopensEvent, hb]) .refl
  · next hb => exact .ofPath (by simp [reopensEvent, hb]) (attemptStarted_path h)
  · next hb =>
    rw [pure_eq_ok] at h
    subst h
    exact .ofPath (by simp [reopensEvent, hb]) (attemptInterrupted_path hS hopen)
  · next hb =>
    rw [pure_eq_ok] at h
    subst h
    exact .ofPath (by simp [reopensEvent, hb]) (attemptStopped_path hS hopen)
  · next hb =>
    exact .ofPath (by simp [reopensEvent, hb]) (inputApplied_path hS (hexec (by rw [hb]; rfl)) h)
  · next hb => exact .ofPath (by simp [reopensEvent, hb]) (inputUncertain_path hS h)
  · next hb =>
    rw [bind_eq_ok, pure_eq_ok] at h
    obtain ⟨-, -, rfl⟩ := h
    exact .ofPath (by simp [reopensEvent, hb]) .refl
  · next hb =>
    exact (toolFinished_takes (hexec (by rw [hb]; rfl)) h).imp (by rw [hb]; simp [reopensEvent])
  · next hb => exact .ofPath (by simp [reopensEvent, hb]) (verificationFinished_path h)
  · next hb =>
    rw [pure_eq_ok] at h
    subst h
    have hmoved : Takes True (outline s) (outline (s.transition .waitingForInput "")) :=
      takes_moved (hexec (by rw [hb]; rfl)) s.nextId le_rfl
        (show JobState.waitingForInput ∈ workingStatuses by decide)
    exact hmoved.imp (by rw [hb]; simp [reopensEvent])
  · next hb =>
    exact .ofPath (by simp [reopensEvent, hb]) (resultPrepared_path (hexec (by rw [hb]; rfl)) h)

/-! ## Recording -/

theorem lockedLease_id (h : s.lockedLease lease version = .ok a) : a.id = lease.attemptId := by
  simp only [Store.lockedLease, bind_eq_ok, pure_eq_ok, one_eq_ok] at h
  obtain ⟨a', hfind, -, -, rfl⟩ := h
  have hp := find?_some hfind
  simp only [Bool.and_eq_true, decide_eq_true_eq] at hp
  exact hp.1.2

/-- Whether an event of this attempt was recorded under the same id. -/
def recorded (s : Store) (event : RunnerEvent) : Bool :=
  s.audits.any fun a =>
    a.attemptId = some event.attemptId && a.event.any (·.eventId = event.eventId)

theorem recorded_eq (ha : a.id = event.attemptId) :
    recorded s event = (priorEvent s a event).isSome := by
  rw [priorEvent, isSome_find?, ha]
  rfl

theorem admitEvent_ok {stopOnly : Bool}
    {u : Unit} (ha : a ∈ s.attempts) (hS : Sound site (outline s))
    (h : admitEvent s a event version stopOnly = .ok u) :
    (outline s).status ≠ .completed ∧ (cleanup event.body = false → Executing s a) := by
  simp only [admitEvent, bind_eq_ok] at h
  obtain ⟨-, -, -, -, h⟩ := h
  split at h
  · next hc =>
    simp only [bind_eq_ok, ensure_eq_ok] at h
    obtain ⟨-, hactive, -⟩ := h
    refine ⟨open_of_active hS ha hactive, ?_⟩
    rw [hc]
    rintro ⟨⟩
  · simp only [bind_eq_ok] at h
    obtain ⟨_, -, _, hexec, -⟩ := h
    have hexec := requireExecution_ok hexec
    exact ⟨hexec.open, fun _ => hexec⟩

/-- An event that is accepted was recorded before, or it is admitted, applied and recorded. -/
theorem recordEvent_ok {stopOnly : Bool}
    (h : recordEvent event version stopOnly s = .ok (answer, s')) :
    validEvent event.body = true ∧ ∃ a ∈ s.attempts, a.id = event.attemptId ∧
      (recorded s event = true ∧ s' = s ∨ recorded s event = false ∧
        admitEvent s a event version stopOnly = .ok () ∧ ∃ s₁, applyEvent s a event = .ok s₁ ∧
          (s₁.updateAttempt a.id fun a => { a with eventCursor := event.sequence }).audit
            (eventType event.body) a.id event = .ok s') := by
  simp only [recordEvent, bind_eq_ok, ensure_eq_ok] at h
  obtain ⟨-, hvalid, a, hlease, -, -, h⟩ := h
  refine ⟨hvalid, a, lockedLease_ok hlease, lockedLease_id hlease, ?_⟩
  rw [recorded_eq (lockedLease_id hlease)]
  cases hprior : priorEvent s a event with
  | some prior =>
    simp only [hprior, bind_eq_ok, pure_eq_ok, Prod.mk.injEq] at h
    obtain ⟨-, -, -, rfl⟩ := h
    exact .inl ⟨rfl, rfl⟩
  | none =>
    simp only [hprior, bind_eq_ok, pure_eq_ok, Prod.mk.injEq] at h
    obtain ⟨_, hadmit, s₁, happly, s₂, haudit, -, rfl⟩ := h
    exact .inr ⟨rfl, hadmit, s₁, happly, haudit⟩

/-- Stop evidence that is accepted was recorded before, or it is recorded as the next event. -/
theorem stopEvidence_ok (h : stopEvidence event s = .ok (answer, s')) :
    isStop event.body = true ∧ ∃ a : Attempt, recorded s event = true ∧ s' = s ∨ ∃ answer s₁,
      recordEvent { event with sequence := a.eventCursor + 1 } none true s = .ok (answer, s₁) ∧
        s' = s₁.updateAttempt a.id fun a => { a with stopReceipt := some event } := by
  simp only [stopEvidence, agentTransaction_eq_ok, bind_eq_ok, ensure_eq_ok] at h
  obtain ⟨-, -, hstop, -, -, a, hlease, h⟩ := h
  refine ⟨hstop, a, ?_⟩
  split at h
  · simp only [bind_eq_ok, one_eq_ok, pure_eq_ok, Prod.mk.injEq] at h
    obtain ⟨-, -, prior, hprior, -, rfl⟩ := h
    -- The receipt of a stop is only found beside the audit row of its event.
    refine .inl ⟨?_, rfl⟩
    rw [recorded_eq (lockedLease_id hlease), priorEvent, hprior]
    rfl
  · simp only [bind_eq_ok, pure_eq_ok, Prod.mk.injEq] at h
    obtain ⟨⟨receipt, s₁⟩, hrec, -, rfl⟩ := h
    exact .inr ⟨receipt, s₁, hrec, rfl⟩

/-- What recording an event does. -/
theorem recordEvent_takes {stopOnly : Bool} (hS : Sound site (outline s))
    (h : recordEvent event version stopOnly s = .ok (answer, s')) :
    Takes (reopensEvent event.body = true ∧ recorded s event = false) (outline s)
      (outline s') := by
  obtain ⟨-, a, ha, -, ⟨hrec, rfl⟩ | ⟨hrec, hadmit, s₁, happly, haudit⟩⟩ := recordEvent_ok h
  · exact .ofPath (by simp [hrec]) .refl
  · obtain ⟨hopen, hexec⟩ := admitEvent_ok ha hS hadmit
    have heq : outline (s₁.updateAttempt a.id fun a =>
        { a with eventCursor := event.sequence }) = outline s₁ :=
      outline_updateAttempt (by intro a; rfl)
    rw [outline_audit haudit, heq]
    exact (applyEvent_takes hS hopen hexec happly).imp (by simp [hrec])

theorem events_takes {version : ℕ}
    (hS : Sound site (outline s)) (h : events event version s = .ok (answer, s')) :
    Takes (reopensEvent event.body = true ∧ recorded s event = false) (outline s)
      (outline s') := by
  exact recordEvent_takes hS (required_ok h)

/-- Stop evidence never reopens a job. -/
theorem stopEvidence_path
    (hS : Sound site (outline s)) (h : stopEvidence event s = .ok (answer, s')) :
    Path (outline s) (outline s') := by
  obtain ⟨hstop, a, ⟨-, rfl⟩ | ⟨answer, s₁, hrec, rfl⟩⟩ := stopEvidence_ok h
  · exact .refl
  · have heq : outline (s₁.updateAttempt a.id fun a => { a with stopReceipt := some event }) =
        outline s₁ := outline_updateAttempt (by intro a; rfl)
    rw [heq]
    refine (recordEvent_takes hS hrec).2 ?_
    rintro ⟨⟨hreopens, -⟩, -⟩
    -- A stop is not among the events that reopen.
    revert hstop hreopens
    show isStop event.body = true → reopensEvent event.body = true → False
    cases event.body <;> simp [isStop, reopensEvent]

/-! ## Approvals and operations -/

theorem requestApproval_outline {proposal : Proposal} {binding : ScopeBinding}
    (h : requestApproval site s a proposal binding = .ok s') : outline s' = { outline s with
      status := .waitingForApproval, reason := "", nextId := s.nextId + 2 } := by
  rw [requestApproval, bind_eq_ok] at h
  obtain ⟨-, -, h⟩ := h
  rw [outline_audit h]
  rfl

/-- A proposal that waits for an approval is the one that reopens. -/
theorem proposeOperation_takes {proposal : Proposal}
    (h : proposeOperation site lease version proposal s = .ok s') :
    Takes (priorOperation s proposal = none ∧ ∃ a, s.lockedAttempt lease version = .ok a ∧
      requiresApproval s a proposal.arguments = true) (outline s) (outline s') := by
  simp only [proposeOperation, agentTransaction_eq_ok, bind_eq_ok] at h
  obtain ⟨-, -, -, a, hlock, binding, -, h⟩ := h
  cases hprior : priorOperation s proposal with
  | some prior =>
    simp only [hprior, bind_eq_ok, pure_eq_ok] at h
    obtain ⟨-, -, rfl⟩ := h
    exact .ofPath (by simp) .refl
  | none =>
    rw [hprior] at h
    by_cases hreq : requiresApproval s a proposal.arguments = true
    · rw [if_pos hreq] at h
      rw [requestApproval_outline h]
      refine (takes_moved (lockedAttempt_ok hlock).2 (s.nextId + 2) (by omega)
        (show JobState.waitingForApproval ∈ workingStatuses by decide)).imp ?_
      exact ⟨fun _ => ⟨rfl, a, hlock, hreq⟩, fun _ => trivial⟩
    · rw [if_neg hreq] at h
      simp only [authorize, bind_eq_ok, pure_eq_ok] at h
      obtain ⟨-, -, rfl⟩ := h
      refine .ofPath ?_ .refl
      rintro ⟨-, b, hlock', hreq'⟩
      rw [hlock] at hlock'
      cases hlock'
      exact hreq hreq'

theorem decideApproval_takes {decision : Decision} (h : decideApproval decision s = .ok s') :
    Takes (decision.approved = true) (outline s) (outline s') := by
  simp only [decideApproval, agentTransaction_eq_ok, bind_eq_ok] at h
  obtain ⟨-, approval, -, a, hlock, operation, -, -, -, h⟩ := h
  split at h
  · cases h
  rw [attemptOf, bind_eq_ok] at hlock
  obtain ⟨_, -, hlock⟩ := hlock
  have hexec := (lockedAttempt_ok hlock).2
  simp only [bind_eq_ok] at h
  obtain ⟨-, -, -, -, h⟩ := h
  have hdecided : outline (decidedApproval s decision) = outline s := rfl
  split at h
  · next happroved =>
    simp only [bind_eq_ok, pure_eq_ok] at h
    obtain ⟨s₁, rfl, haudit⟩ := h
    rw [outline_audit haudit]
    refine (takes_moved hexec s.nextId le_rfl
      (show JobState.running ∈ workingStatuses by decide)).imp ?_
    exact ⟨fun _ => happroved, fun _ => trivial⟩
  · next hrejected =>
    rw [bind_eq_ok] at h
    obtain ⟨s₁, hstop, haudit⟩ := h
    rw [outline_audit haudit, ← hdecided]
    refine .ofPath hrejected (requestStop_path ?_ hstop)
    exact hexec.open

theorem consumeApproval_outline {operation : Operation}
    (h : consumeApproval s a operation request = .ok s') : outline s' = outline s := by
  unfold consumeApproval at h
  split at h
  · simp only [bind_eq_ok, pure_eq_ok] at h
    obtain ⟨-, -, rfl⟩ := h
    rfl
  · rw [bind_eq_ok, pure_eq_ok] at h
    obtain ⟨-, -, rfl⟩ := h
    rfl

theorem startOperation_outline (h : startOperation lease version request s = .ok s') :
    outline s' = outline s := by
  simp only [startOperation, bind_eq_ok, pure_eq_ok] at h
  obtain ⟨a, -, operation, -, -, -, -, -, -, -, -, -, s₁, hconsume, rfl⟩ := h
  unfold startedOperation
  rw [outline_updateAttempt (by intro a; rfl), ← consumeApproval_outline hconsume]
  rfl

theorem consumeOperation_path (h : consumeOperation lease version request s = .ok s') :
    Path (outline s) (outline s') := by
  have h := required_ok h
  exact path_of_eq (startOperation_outline h)

theorem reconcileOperation_path {receipt : RemoteReceipt}
    (h : reconcileOperation site lease receipt s = .ok s') : Path (outline s) (outline s') := by
  simp only [reconcileOperation, agentTransaction_eq_ok, bind_eq_ok] at h
  obtain ⟨-, -, -, a, -, _, -, -, -, operation, -, -, -, -, -, h⟩ := h
  split at h
  · rw [bind_eq_ok, pure_eq_ok] at h
    obtain ⟨-, -, rfl⟩ := h
    exact .refl
  · rw [bind_eq_ok, pure_eq_ok] at h
    obtain ⟨-, -, rfl⟩ := h
    exact .refl

theorem reconcileLocalOperation_path {receipt : LocalOperationReceipt}
    (h : reconcileLocalOperation lease receipt s = .ok s') : Path (outline s) (outline s') := by
  simp only [reconcileLocalOperation, agentTransaction_eq_ok, bind_eq_ok] at h
  obtain ⟨-, -, -, a, -, _, -, -, -, -, -, operation, -, h⟩ := h
  split at h
  · rw [bind_eq_ok, pure_eq_ok] at h
    obtain ⟨-, -, rfl⟩ := h
    exact .refl
  · rw [bind_eq_ok, pure_eq_ok] at h
    obtain ⟨-, -, rfl⟩ := h
    exact path_of_eq (outline_updateAttempt (by intro a; rfl))

theorem beginTeamOperation_path {version : ℕ}
    {begun : Bool} (h : beginTeamOperation lease version request s = .ok (begun, s')) :
    Path (outline s) (outline s') := by
  simp only [beginTeamOperation, agentTransaction_eq_ok, bind_eq_ok] at h
  obtain ⟨-, -, -, a, -, operation, -, -, -, h⟩ := h
  split at h
  · obtain ⟨-, rfl⟩ := h
    exact .refl
  · simp only [bind_eq_ok, pure_eq_ok, Prod.mk.injEq] at h
    obtain ⟨-, -, s₁, hstart, -, rfl⟩ := h
    exact path_of_eq (startOperation_outline hstart)

theorem storeTeamReceipt_path {operationId : Uuid} {receipt : TeamReceipt}
    (h : storeTeamReceipt lease operationId receipt s = .ok s') :
    Path (outline s) (outline s') := by
  simp only [storeTeamReceipt, agentTransaction_eq_ok, bind_eq_ok] at h
  obtain ⟨-, a, -, operation, -, h⟩ := h
  split at h
  · rw [pure_eq_ok] at h
    subst h
    exact .refl
  · rw [outline_audit h]
    exact .refl

/-! ## Artifacts -/

theorem admitUpload_path {version : ℕ}
    (h : admitUpload lease version s = .ok s') : Path (outline s) (outline s') := by
  simp only [admitUpload, agentTransaction_eq_ok, bind_eq_ok, pure_eq_ok] at h
  obtain ⟨-, -, -, a, -, rfl⟩ := h
  exact .refl

theorem uploadBudget_path {budget : ℕ}
    (h : uploadBudget lease s = .ok (budget, s')) : Path (outline s) (outline s') := by
  simp only [uploadBudget, agentTransaction_eq_ok, bind_eq_ok, pure_eq_ok, Prod.mk.injEq] at h
  obtain ⟨-, a, -, -, rfl⟩ := h
  exact .refl

theorem registerArtifact_path {upload : Upload}
    (h : registerArtifact lease upload s = .ok s') : Path (outline s) (outline s') := by
  simp only [registerArtifact, agentTransaction_eq_ok, bind_eq_ok, pure_eq_ok] at h
  obtain ⟨-, -, -, a, -, -, -, rfl⟩ := h
  exact .single (.allocated (outline s) (s.nextId + 1) (Nat.le_succ _))

end GrowTeam.Server
