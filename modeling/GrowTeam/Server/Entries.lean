/-
# Every transaction writes entries

The runner's events, its operations, publication and the reconcile pass.  `run_entries`
puts the functions together: an accepted transaction writes entries into the ledger of its
job, and `deeds` says which of them are remembered.
-/
import GrowTeam.Server.Deeds

namespace GrowTeam.Server

open Ledger List Except Entry Entries

variable {site : Site} {s s' : Store}

/-! ## Runner events -/

variable {a : Attempt} {event : RunnerEvent} {payload : InputPayload} {version : Option ℕ}
  {answer : EventReceipt × Bool} {proposal : Proposal} {binding : ScopeBinding}
  {lease : LeaseIdentity} {request : Consumption} {p : Approval}

theorem workspacePrepared_entries {prepared : WorkspacePreparedPayload}
    (h : workspacePrepared s a prepared = .ok s') : ledger s' = ledger s := by
  simp only [workspacePrepared, bind_eq_ok, pure_eq_ok] at h
  obtain ⟨-, -, -, -, rfl⟩ := h
  exact ledger_touch (by intro a; rfl)

theorem attemptStarted_entries {process : ProcessPayload}
    (hl : (ledger s).Leased a.tenure) (h : attemptStarted s a process = .ok s') :
    Entries site (ledger s) [] (ledger s') := by
  simp only [attemptStarted, bind_eq_ok, pure_eq_ok] at h
  obtain ⟨-, -, rfl⟩ := h
  rw [ledger_updateAttempt (g := fun a => { a with process := .active }) (by intro a; rfl)]
  exact .single (.started (ledger s) a.tenure hl)

theorem attemptInterrupted_entries (ha : a ∈ s.attempts) (hactive : a.active = true) :
    Entries site (ledger s) [.interrupted a.id] (ledger (attemptInterrupted s a)) := by
  have hattempt : ledger (s.updateAttempt a.id fun a => { a with processState := .unknown }) =
      (ledger s).updateAttempt a.id fun a => { a with process := .unknown } :=
    ledger_updateAttempt (by intro a; rfl)
  have hentry : Ledger.Entry site _ _ _ := interrupted (ledger s) a.tenure "stop_unconfirmed"
    (mem_ledger ha) hactive (by decide)
  refine (single hentry).cast rfl ?_
  show ((Ledger.updateAttempt _ a.id _).lost a.id).transition _ _ = _
  rw [← hattempt]
  rfl

/-- Ending an attempt takes its process and its lease. -/
theorem ledger_containment (a : Attempt) (event : RunnerEvent) :
    ledger (containment s a event) = (ledger s).contain a.id := by
  have htenures := tenures_update (p := (·.id = a.id)) (q := (·.id = a.id))
    (f := fun b => { b with
      processState := .stopped, stoppedAt := some s.clock, endedAt := some s.clock,
      active := false, stopReceipt := some event })
    (g := fun b => { b with process := .stopped, active := false })
    (by intro b; rfl) (by intro b; rfl) s.attempts
  exact Ledger.ext rfl rfl rfl rfl rfl rfl rfl rfl htenures rfl rfl rfl rfl

theorem ledger_attemptStopped (s : Store) (a : Attempt) (event : RunnerEvent) :
    ledger (attemptStopped s a event) = ((ledger s).ended a.id
      (if a.startedAt = none then "start_failed" else "runtime_stopped")).contain a.id := by
  have hrequested : (ledger s).stopRequested a.id = stopRequested s a := rfl
  have hstatus : (ledger s).status = s.job.status := rfl
  unfold Ledger.ended attemptStopped
  rw [hrequested, hstatus]
  split
  · rw [ledger_transition, ledger_containment]
    rfl
  split
  · rw [ledger_transition, ledger_containment]
    rfl
  · rw [ledger_containment]

theorem attemptStopped_entries (ha : a ∈ s.attempts) (hactive : a.active = true) :
    Entries site (ledger s) [.stopped a.id] (ledger (attemptStopped s a event)) := by
  have hentry : Ledger.Entry site _ _ _ := stopped (ledger s) a.tenure
    (if a.startedAt = none then "start_failed" else "runtime_stopped") (mem_ledger ha) hactive
  rw [ledger_attemptStopped]
  exact .single hentry

theorem inputOf_ok {i : Input} (h : inputOf s a payload = .ok i) :
    i ∈ s.inputs ∧ i.deliveredAttempt = some a.id ∧
      i.deliveryState ∈ [.delivered, .deliveryUncertain] := by
  simp only [inputOf, bind_eq_ok, one_eq_ok, ensure_eq_ok, pure_eq_ok] at h
  obtain ⟨i', hfind, -, ⟨hdelivered, hstate⟩, rfl⟩ := h
  exact ⟨mem_of_find?_eq_some hfind, hdelivered, hstate⟩

/-- A withdrawn proposal sends a verifying job back to work. -/
theorem withdrawProposal_entries {a : Tenure} (hl : (ledger s).Leased a) :
    Entries site (ledger s) [] (ledger (withdrawProposal s)) := by
  unfold withdrawProposal
  split
  · exact .refl _
  split
  · exact .single (.moved (ledger s) a .running hl (by decide))
  · exact .refl _

theorem inputApplied_entries
    (hl : (ledger s).Leased a.tenure) (h : inputApplied s a payload = .ok s') :
    Entries site (ledger s) [] (ledger s') := by
  simp only [inputApplied, bind_eq_ok, ensure_eq_ok, pure_eq_ok] at h
  obtain ⟨i, hinput, -, horder, rfl⟩ := h
  obtain ⟨hmem, hdelivered, hstate⟩ := inputOf_ok hinput
  have hfirst : Ledger.Entry site _ _ _ := Entry.applied (ledger s) a.tenure i s.clock hl hmem hdelivered
    hstate (inOrder_of_ok horder)
  have hsame : ledger ((s.updateInputs (·.id = i.id) fun i =>
      { i with deliveryState := .applied, appliedAt := some s.clock }).updateAttempt a.id
        fun a => { a with inputCursor := i.sequence }) =
      (ledger s).updateInputs (·.id = i.id) fun i =>
        { i with deliveryState := .applied, appliedAt := some s.clock } :=
    ledger_touch (by intro a; rfl)
  rw [← hsame] at hfirst
  refine (single hfirst).trans (withdrawProposal_entries (a := a.tenure) ?_)
  rw [hsame]
  exact { hl with }

theorem inputUncertain_entries
    (hl : (ledger s).Leased a.tenure) (h : inputUncertain s a payload = .ok s') :
    Entries site (ledger s) [] (ledger s') := by
  simp only [inputUncertain, bind_eq_ok, pure_eq_ok] at h
  obtain ⟨i, hinput, rfl⟩ := h
  obtain ⟨hmem, hdelivered, hstate⟩ := inputOf_ok hinput
  exact .single (.doubted (ledger s) a.tenure i hl hmem hdelivered hstate)

theorem operationOf_ok {payload : ToolPayload} {o : Operation}
    (h : operationOf s a payload = .ok o) : o ∈ s.operations ∧ o.status = .started := by
  simp only [operationOf, bind_eq_ok, one_eq_ok, ensure_eq_ok, pure_eq_ok] at h
  obtain ⟨o', hfind, -, hstarted, rfl⟩ := h
  exact ⟨mem_of_find?_eq_some hfind, hstarted⟩

theorem toolFinished_entries {payload : ToolPayload} (hl : (ledger s).Leased a.tenure)
    (hf : payload.status ∈ [.succeeded, .failed, .outcomeUnknown, .cancelled])
    (h : toolFinished s a payload = .ok s') : Entries site (ledger s) [] (ledger s') := by
  simp only [toolFinished, bind_eq_ok, ensure_eq_ok] at h
  obtain ⟨o, hop, -, hremote, h⟩ := h
  obtain ⟨hmem, hstarted⟩ := operationOf_ok hop
  have hentry : Ledger.Entry site _ _ _ := finished (ledger s) a.tenure o payload.status s.clock hl hmem
    hstarted hf hremote
  split at h
  · rw [pure_eq_ok] at h
    subst h
    have htouch : ∀ s₁ : Store, ledger ((s₁.updateAttempt a.id fun a =>
        { a with treeHash := "" }).updateJob fun job => { job with resultProposal := none }) =
        ledger s₁ := fun s₁ => ledger_touch (s := s₁) (by intro a; rfl)
    rw [htouch]
    exact .single hentry
  · rw [pure_eq_ok] at h
    subst h
    exact .single hentry

theorem verificationFinished_entries {v : VerificationRecord}
    (h : verificationFinished s a v = .ok s') : ledger s' = ledger s := by
  simp only [verificationFinished, bind_eq_ok, pure_eq_ok] at h
  obtain ⟨-, -, -, -, -, -, -, -, -, -, -, -, -, -, -, -, rfl⟩ := h
  rfl

theorem resultPrepared_entries {result : ResultPayload}
    (hl : (ledger s).Leased a.tenure) (h : resultPrepared s a result = .ok s') :
    Entries site (ledger s) (if blank result.summary = true then [.spoiled] else [])
      (ledger s') := by
  rw [resultPrepared, bind_eq_ok] at h
  obtain ⟨-, -, h⟩ := h
  split at h
  · next hb =>
    rw [pure_eq_ok] at h
    subst h
    rw [if_pos hb]
    exact .single (.spoiled (ledger s) a.tenure "result_invalid" hl)
  · next hb =>
    simp only [bind_eq_ok, pure_eq_ok] at h
    obtain ⟨-, -, -, -, -, -, rfl⟩ := h
    rw [if_neg hb]
    unfold stagedResult
    rw [ledger_updateOrCreateRow (by intro row; rfl), ledger_transition]
    have htouch : ∀ s₁ : Store, ledger ((s₁.updateAttempt a.id fun a =>
        { a with treeHash := result.treeHash.getD "" }).updateJob fun job =>
          { job with resultProposal := some result, phase := .review }) = ledger s₁ :=
      fun s₁ => ledger_touch (s := s₁) (by intro a; rfl)
    rw [htouch]
    exact .single (.moved (ledger s) a.tenure .verifying hl (by decide))

/-- What an admitted event is remembered for. -/
def bodyDeeds (id : Uuid) : EventBody → List Deed
  | .attemptInterrupted _ => [.interrupted id]
  | .attemptStopped _ => [.stopped id]
  | .resultPrepared result => if blank result.summary = true then [.spoiled] else []
  | _ => []

theorem eventDeeds_eq (h : recorded s event = false) :
    eventDeeds s event = bodyDeeds event.attemptId event.body := by
  unfold eventDeeds bodyDeeds
  rw [h]
  rfl

theorem applyEvent_entries (hv : validEvent event.body = true)
    (ha : a ∈ s.attempts) (hactive : a.active = true)
    (hl : cleanup event.body = false → (ledger s).Leased a.tenure)
    (h : applyEvent s a event = .ok s') :
    Entries site (ledger s) (bodyDeeds a.id event.body) (ledger s') := by
  have hsame : ledger s' = ledger s → Entries site (ledger s) [] (ledger s') := by
    intro heq
    rw [heq]
    exact .refl _
  unfold applyEvent at h
  cases hb : event.body <;> simp only [hb] at h hl hv ⊢ <;> simp only [bodyDeeds]
  case workspacePrepared prepared => exact hsame (workspacePrepared_entries h)
  case attemptStarting process =>
    rw [bind_eq_ok, pure_eq_ok] at h
    obtain ⟨-, -, rfl⟩ := h
    exact .refl _
  case attemptStarted process => exact attemptStarted_entries (hl rfl) h
  case attemptStopped process =>
    rw [pure_eq_ok] at h
    subst h
    exact attemptStopped_entries ha hactive
  case attemptInterrupted process =>
    rw [pure_eq_ok] at h
    subst h
    exact attemptInterrupted_entries ha hactive
  case inputApplied payload => exact inputApplied_entries (hl rfl) h
  case inputDeliveryUncertain payload => exact inputUncertain_entries (hl rfl) h
  case toolStarted payload =>
    rw [bind_eq_ok, pure_eq_ok] at h
    obtain ⟨-, -, rfl⟩ := h
    exact .refl _
  case toolFinished payload =>
    refine toolFinished_entries (hl rfl) ?_ h
    simp only [validEvent, Bool.and_eq_true, decide_eq_true_eq] at hv
    exact hv.1.2
  case verificationFinished v => exact hsame (verificationFinished_entries h)
  case inputRequested question =>
    rw [pure_eq_ok] at h
    subst h
    exact .single (.moved (ledger s) a.tenure .waitingForInput (hl rfl) (by decide))
  case resultPrepared result => exact resultPrepared_entries (hl rfl) h

/-! ## Recording -/

theorem admitted_of_ok {stopOnly : Bool}
    {u : Unit} (ha : a ∈ s.attempts) (h : admitEvent s a event version stopOnly = .ok u) :
    a.active = true ∧ event.sequence = a.eventCursor + 1 ∧
      (cleanup event.body = false → (ledger s).Leased a.tenure) := by
  simp only [admitEvent, bind_eq_ok] at h
  obtain ⟨-, -, -, -, h⟩ := h
  split at h
  · next hc =>
    simp only [bind_eq_ok, ensure_eq_ok] at h
    obtain ⟨-, hactive, -, hsequence, -⟩ := h
    refine ⟨hactive, hsequence, ?_⟩
    rw [hc]
    rintro ⟨⟩
  · simp only [bind_eq_ok, ensure_eq_ok] at h
    obtain ⟨-, -, _, hexec, -, hsequence, -⟩ := h
    have hl := leased_of_ok ha hexec
    exact ⟨hl.active, hsequence, fun _ => hl⟩

theorem recordEvent_entries {stopOnly : Bool} (h : recordEvent event version stopOnly s = .ok (answer, s')) :
    Entries site (ledger s) (eventDeeds s event) (ledger s') := by
  obtain ⟨hvalid, a, hmem, hid, ⟨hrec, rfl⟩ | ⟨hnew, hadmit, s₁, happly, haudit⟩⟩ :=
    recordEvent_ok h
  · unfold eventDeeds
    rw [if_pos hrec]
    exact .refl _
  · obtain ⟨hactive, -, hl⟩ := admitted_of_ok hmem hadmit
    rw [ledger_audit haudit, ledger_touch (by intro a; rfl), eventDeeds_eq hnew]
    have happlied : Entries site _ _ _ := applyEvent_entries hvalid hmem hactive hl happly
    rw [hid] at happlied
    exact happlied

theorem events_entries {version : ℕ} (h : events event version s = .ok (answer, s')) :
    Entries site (ledger s) (eventDeeds s event) (ledger s') := by
  exact recordEvent_entries (required_ok h)

theorem stopEvidence_entries (h : stopEvidence event s = .ok (answer, s')) :
    Entries site (ledger s) (eventDeeds s event) (ledger s') := by
  obtain ⟨-, a, ⟨hrec, rfl⟩ | ⟨answer, s₁, hrec, rfl⟩⟩ := stopEvidence_ok h
  · unfold eventDeeds
    rw [if_pos hrec]
    exact .refl _
  · rw [ledger_touch (by intro a; rfl)]
    have hentries : Entries site _ _ _ := recordEvent_entries hrec
    exact hentries

/-! ## Operations and approvals -/

theorem proposed_newOperation
    (hprior : priorOperation s proposal = none) (status : OperationState) :
    (ledger s).Proposed a.tenure (newOperation site a proposal binding status) := by
  refine ⟨fun o ho => ?_, rfl, rfl, rfl⟩
  have hne := find?_eq_none.mp hprior o ho
  rw [decide_eq_true_eq] at hne
  exact hne

theorem requestApproval_entries
    (hl : (ledger s).Leased a.tenure) (hprior : priorOperation s proposal = none)
    (h : requestApproval site s a proposal binding = .ok s') :
    Entries site (ledger s) [] (ledger s') := by
  rw [requestApproval, bind_eq_ok] at h
  obtain ⟨-, -, h⟩ := h
  rw [ledger_audit h]
  have hfirst : Ledger.Entry site _ _ _ := proposed (ledger s) a.tenure _
    (newApproval s a (newOperation site a proposal binding .proposed)) hl
    (proposed_newOperation hprior .proposed) rfl ⟨rfl, rfl, rfl, rfl, rfl, rfl⟩
  exact (single hfirst).snoc (.moved _ a.tenure .waitingForApproval { hl with } (by decide))

theorem authorize_entries
    (hl : (ledger s).Leased a.tenure) (hprior : priorOperation s proposal = none)
    (hfree : requiresApproval s a proposal.arguments = false)
    (h : authorize site s a proposal binding = .ok s') :
    Entries site (ledger s) [] (ledger s') := by
  simp only [authorize, bind_eq_ok, pure_eq_ok] at h
  obtain ⟨-, -, rfl⟩ := h
  refine .single (.authorized (ledger s) a.tenure _ hl
    (proposed_newOperation hprior .authorized) rfl ?_)
  show proposal.arguments.action ∉ _
  intro haction
  cases hargs : proposal.arguments <;>
    simp_all [requiresApproval, OperationArguments.action]

theorem proposeOperation_entries (h : proposeOperation site lease version proposal s = .ok s') :
    Entries site (ledger s) [] (ledger s') := by
  simp only [proposeOperation, agentTransaction_eq_ok, bind_eq_ok] at h
  obtain ⟨-, -, -, a, hlock, binding, -, h⟩ := h
  obtain ⟨-, hl⟩ := leased_of_locked hlock
  cases hprior : priorOperation s proposal with
  | some prior =>
    simp only [hprior, bind_eq_ok, pure_eq_ok] at h
    obtain ⟨-, -, rfl⟩ := h
    exact .refl _
  | none =>
    simp only [hprior] at h
    split at h
    · exact requestApproval_entries hl hprior h
    · next hreq => exact authorize_entries hl hprior (by simpa using hreq) h

theorem decideApproval_entries {decision : Decision} (h : decideApproval decision s = .ok s') :
    Entries site (ledger s) (deeds (.decideApproval decision) s) (ledger s') := by
  simp only [decideApproval, agentTransaction_eq_ok, bind_eq_ok, one_eq_ok] at h
  obtain ⟨-, approval, hfind, a, hlock, operation, -, -, -, h⟩ := h
  split at h
  · cases h
  simp only [attemptOf, bind_eq_ok, one_eq_ok] at hlock
  obtain ⟨b, hb, hlock⟩ := hlock
  obtain ⟨hmem, hl⟩ := leased_of_locked hlock
  have hattempt : approval.attemptId = a.tenure.id := by
    have hbid : b.id = approval.attemptId := by simpa using find?_some hb
    rw [← hbid]
    simp only [Store.lockedAttempt, bind_eq_ok, pure_eq_ok] at hlock
    obtain ⟨a', hlease, -, -, rfl⟩ := hlock
    exact (lockedLease_id hlease).symm
  have hid : approval.id = decision.approvalId := by simpa using find?_some hfind
  have happroval : approval ∈ s.approvals := mem_of_find?_eq_some hfind
  simp only [bind_eq_ok, ensure_eq_ok] at h
  obtain ⟨-, -, -, ⟨-, -, -, hpending, -⟩, h⟩ := h
  have hl' : ∀ approvals, ({ ledger s with approvals := approvals } : Ledger).Leased a.tenure :=
    fun _ => { hl with }
  rw [deeds, decisionDeeds]
  split at h
  · next happroved =>
    simp only [bind_eq_ok, pure_eq_ok] at h
    obtain ⟨s₁, rfl, haudit⟩ := h
    rw [ledger_audit haudit, if_pos happroved]
    have hfirst : Ledger.Entry site _ _ _ := approved (ledger s) a.tenure approval decision.actor
      s.clock hl happroval hattempt hpending
    have hsecond := (single hfirst).snoc (.moved _ a.tenure .running (hl' _) (by decide))
    rw [hid] at hsecond
    refine hsecond.cast rfl ?_
    unfold decidedApproval
    simp only [happroved, if_true]
    rfl
  · next hrejected =>
    rw [bind_eq_ok] at h
    obtain ⟨s₁, hstop, haudit⟩ := h
    rw [ledger_audit haudit, if_neg hrejected, hfind]
    have hfirst : Ledger.Entry site _ _ _ := rejected (ledger s) a.tenure approval decision.actor
      s.clock hl happroval hattempt hpending
    have hdecided : ledger (decidedApproval s decision) =
        (ledger s).updateApprovals (·.id = approval.id) fun p =>
          { p with
            approver := some decision.actor, decision := .rejected, decidedAt := some s.clock,
            version := p.version + 1 } := by
      rw [hid]
      unfold decidedApproval
      simp only [hrejected, Bool.false_eq_true, if_false]
      rfl
    rw [← hdecided] at hfirst
    have hsecond : Entries site (ledger (decidedApproval s decision))
        [.requested a.id .blocked "approval_rejected"] (ledger s₁) :=
      requestStop_entries (s := decidedApproval s decision) hmem hl.active (by decide) hstop
    refine ((single hfirst).trans hsecond).cast ?_ rfl
    exact congrArg (fun id => [Deed.requested id .blocked "approval_rejected"]) hattempt.symm

theorem startOperation_entries (h : startOperation lease version request s = .ok s') :
    Entries site (ledger s) (startDeeds s lease request) (ledger s') := by
  simp only [startOperation, bind_eq_ok, one_eq_ok, ensure_eq_ok, pure_eq_ok] at h
  obtain ⟨a, hlock, o, hfind, -, ⟨-, hhash, hstatus⟩, -, -, -, -, -, -, s₁, hconsume, rfl⟩ := h
  obtain ⟨-, hl⟩ := leased_of_locked hlock
  have hmem : o ∈ s.operations := mem_of_find?_eq_some hfind
  have hattempt : o.attemptId = a.tenure.id := by
    have hp := find?_some hfind
    simp only [Bool.and_eq_true, decide_eq_true_eq] at hp
    exact hp.2
  rw [lockedAttempt_id hlock] at hfind
  simp only [startDeeds, hfind]
  unfold startedOperation
  rw [ledger_touch (by intro a; rfl)]
  unfold consumeApproval at hconsume
  split at hconsume
  · next hproposed =>
    simp only [bind_eq_ok, pure_eq_ok] at hconsume
    obtain ⟨p, husable, rfl⟩ := hconsume
    simp only [usableApproval, bind_eq_ok, present_eq_ok, ensure_eq_ok, pure_eq_ok] at husable
    obtain ⟨p', hp, -, ⟨hexpires, -⟩, approver, happrover, -, -, -, ⟨hphash, -⟩, rfl⟩ := husable
    have hpp := find?_some hp
    simp only [Bool.and_eq_true, decide_eq_true_eq] at hpp
    have happrover : p'.approver.isSome = true := by rw [happrover]; rfl
    rw [if_pos hproposed, hp]
    exact .single (.consumed (ledger s) a.tenure o p' s.clock hl hmem hattempt hproposed
      ⟨mem_of_find?_eq_some hp, hpp.1, hpp.2, hexpires, hphash.trans hhash.symm, happrover⟩)
  · next hproposed =>
    rw [bind_eq_ok, pure_eq_ok] at hconsume
    obtain ⟨-, -, rfl⟩ := hconsume
    have hauthorized : o.status = .authorized := by
      simp only [mem_cons, not_mem_nil, or_false] at hstatus
      exact hstatus.resolve_left hproposed
    rw [if_neg hproposed]
    exact .single (.begun (ledger s) a.tenure o s.clock hl hmem hattempt hauthorized)

theorem consumeOperation_entries (h : consumeOperation lease version request s = .ok s') :
    Entries site (ledger s) (startDeeds s lease request) (ledger s') := by
  have h := required_ok h
  exact startOperation_entries h

theorem reconcileOperation_entries {receipt : RemoteReceipt}
    (h : reconcileOperation site lease receipt s = .ok s') :
    Entries site (ledger s) [] (ledger s') := by
  simp only [reconcileOperation, agentTransaction_eq_ok, bind_eq_ok, one_eq_ok, ensure_eq_ok] at h
  obtain ⟨-, -, -, a, -, _, -, -, -, o, hfind, -, -, -, hmatch, h⟩ := h
  split at h
  · rw [bind_eq_ok, pure_eq_ok] at h
    obtain ⟨-, -, rfl⟩ := h
    exact .refl _
  · simp only [bind_eq_ok, ensure_eq_ok, pure_eq_ok] at h
    obtain ⟨-, ⟨hstatus, -⟩, rfl⟩ := h
    exact .single (.received (ledger s) o receipt s.clock (mem_of_find?_eq_some hfind)
      hstatus hmatch)

theorem reconcileLocalOperation_entries {receipt : LocalOperationReceipt}
    (h : reconcileLocalOperation lease receipt s = .ok s') :
    Entries site (ledger s) [] (ledger s') := by
  simp only [reconcileLocalOperation, agentTransaction_eq_ok, bind_eq_ok, one_eq_ok] at h
  obtain ⟨-, -, -, a, -, _, -, -, -, -, -, o, hfind, h⟩ := h
  split at h
  · rw [bind_eq_ok, pure_eq_ok] at h
    obtain ⟨-, -, rfl⟩ := h
    exact .refl _
  · simp only [bind_eq_ok, localObservation, ensure_eq_ok, pure_eq_ok] at h
    obtain ⟨-, ⟨-, ⟨hclass, hstatus⟩, -⟩, rfl⟩ := h
    rw [ledger_touch (by intro a; rfl)]
    exact .single (.observed (ledger s) o receipt s.clock (mem_of_find?_eq_some hfind)
      hstatus hclass)

theorem beginTeamOperation_entries {version : ℕ}
    {begun : Bool} (h : beginTeamOperation lease version request s = .ok (begun, s')) :
    Entries site (ledger s) (beginDeeds s lease request) (ledger s') := by
  simp only [beginTeamOperation, agentTransaction_eq_ok, bind_eq_ok, one_eq_ok] at h
  obtain ⟨-, -, -, a, hlock, operation, hfind, -, -, h⟩ := h
  rw [lockedAttempt_id hlock] at hfind
  simp only [beginDeeds, hfind, Option.any_some]
  split at h
  · next hreceipt =>
    obtain ⟨-, rfl⟩ := h
    rw [if_pos hreceipt]
    exact .refl _
  · next hreceipt =>
    simp only [bind_eq_ok, pure_eq_ok, Prod.mk.injEq] at h
    obtain ⟨-, -, s₁, hstart, -, rfl⟩ := h
    rw [if_neg hreceipt]
    exact startOperation_entries hstart

/-- A team operation that was begun. -/
structure Begun (c : Ledger) (operationId : Uuid) : Prop where
  found : ∃ o ∈ c.operations, o.operationId = operationId
  begun : ∀ o ∈ c.operations, o.operationId = operationId →
    o.toolClass = .teamManage ∧ o.status ∉ [.proposed, .authorized]

theorem storeTeamReceipt_entries {operationId : Uuid}
    {receipt : TeamReceipt} (hb : Begun (ledger s) operationId)
    (h : storeTeamReceipt lease operationId receipt s = .ok s') :
    Entries site (ledger s) [] (ledger s') := by
  simp only [storeTeamReceipt, agentTransaction_eq_ok, bind_eq_ok, one_eq_ok] at h
  obtain ⟨-, a, -, o, hfind, h⟩ := h
  have hp := find?_some hfind
  rw [Bool.and_eq_true, decide_eq_true_eq] at hp
  have hmem : o ∈ s.operations := mem_of_find?_eq_some hfind
  obtain ⟨hclass, hstatus⟩ := hb.begun o hmem hp.1
  split at h
  · rw [pure_eq_ok] at h
    subst h
    exact .refl _
  · rw [ledger_audit h, ← hp.1]
    exact .single (.executed (ledger s) o receipt s.clock hmem hclass hstatus)

/-! ## Results and artifacts -/

theorem admitUpload_same {version : ℕ} (h : admitUpload lease version s = .ok s') : s' = s := by
  simp only [admitUpload, agentTransaction_eq_ok, bind_eq_ok, pure_eq_ok] at h
  obtain ⟨-, -, -, a, -, rfl⟩ := h
  rfl

theorem uploadBudget_same {budget : ℕ} (h : uploadBudget lease s = .ok (budget, s')) : s' = s := by
  simp only [uploadBudget, agentTransaction_eq_ok, bind_eq_ok, pure_eq_ok, Prod.mk.injEq] at h
  obtain ⟨-, a, -, -, rfl⟩ := h
  rfl

theorem registerArtifact_entries {upload : Upload}
    (h : registerArtifact lease upload s = .ok s') : Entries site (ledger s) [] (ledger s') := by
  simp only [registerArtifact, agentTransaction_eq_ok, bind_eq_ok, pure_eq_ok] at h
  obtain ⟨-, -, -, a, -, -, -, rfl⟩ := h
  exact .single (.allocated (ledger s) (s.nextId + 1) (Nat.le_succ _))

theorem sendMessage_entries {direct : Bool} {c : Content} {id : ℕ}
    (h : sendMessage s direct c = .ok (id, s')) : Entries site (ledger s) [] (ledger s') := by
  obtain ⟨-, rfl⟩ := sendMessage_ok h
  exact .single (.allocated (ledger s) (s.nextId + 1) (Nat.le_succ _))

theorem ledger_completeJob (receipt : ResultReceipt) :
    ledger (completeJob s receipt) = (ledger s).transition .completed "" := by
  unfold completeJob
  rw [ledger_updateOrCreateRow (by intro row; rfl)]
  rfl

/-- What a result is verified against, in the ledger. -/
structure Verified (c : Ledger) : Prop where
  verifying : c.status = .verifying
  idle : c.Idle
  applied : ∀ i ∈ c.inputs, Store.unapplied i = false

theorem verified_of_ok {attempt : Attempt} {artifacts : List Artifact} {checkAudience : Bool}
    {u : Unit} (hS : Outline.Sound site (outline s)) (hl : s.latestAttempt = some attempt)
    (h : verifyResult s attempt artifacts checkAudience = .ok u) : Verified (ledger s) := by
  obtain ⟨hstatus, hinactive, -⟩ := verifyResult_status h
  refine ⟨hstatus, ?_, ?_⟩
  · have hidle := idle_of_latest hS hl hinactive
    exact ledger_idle.mpr fun a ha => hidle a.view (mem_map_of_mem ha)
  · rw [verifyResult, bind_eq_ok] at h
    obtain ⟨-, -, h⟩ := h
    split at h
    · cases h
    simp only [bind_eq_ok, ensure_eq_ok] at h
    obtain ⟨-, -, -, -, -, -, -, hinputs, -⟩ := h
    show ∀ i ∈ s.inputs, _
    simpa using hinputs

/-- The writes of a publication, once the message is there. -/
theorem completeJob_entries {receipt : ResultReceipt} {s₁ : Store} {type : String}
    {attemptId : Option Uuid} (hv : Verified (ledger s))
    (hsend : ledger s₁ = ledger s ∨ ledger s₁ = { ledger s with nextId := s.nextId + 1 })
    (h : (completeJob s₁ receipt).audit type attemptId none = .ok s') :
    Entries site (ledger s) [] (ledger s') := by
  rw [ledger_audit h, ledger_completeJob]
  rcases hsend with hsame | hsent
  · rw [hsame]
    exact .single (.completed (ledger s) hv.verifying hv.idle hv.applied)
  · rw [hsent]
    refine .snoc (.single (.allocated (ledger s) (s.nextId + 1) (Nat.le_succ _))) ?_
    exact .completed _ hv.verifying hv.idle hv.applied

theorem publish_entries {proposal : ResultPayload} {artifacts : List Artifact}
    {answer : ResultReceipt × Option Edit} (hS : Outline.Sound site (outline s))
    (h : publish site proposal artifacts s = .ok (answer, s')) :
    Entries site (ledger s) [] (ledger s') := by
  rw [publish, agentTransaction_eq_ok] at h
  obtain ⟨-, h⟩ := h
  split at h
  · obtain ⟨-, rfl⟩ := h
    exact .refl _
  · simp only [bind_eq_ok, pure_eq_ok, Prod.mk.injEq] at h
    obtain ⟨attempt, hpub, ⟨⟨id, edit⟩, s₁⟩, hmessage, s₂, haudit, -, rfl⟩ := h
    have hp := publication_ok hpub
    refine completeJob_entries (verified_of_ok hS hp.latest hp.verified) ?_ haudit
    unfold resultMessage at hmessage
    split at hmessage
    · obtain ⟨-, rfl⟩ := hmessage
      exact .inl rfl
    · simp only [bind_eq_ok, pure_eq_ok, Prod.mk.injEq] at hmessage
      obtain ⟨⟨new, s₃⟩, hsend, -, rfl⟩ := hmessage
      obtain ⟨-, rfl⟩ := sendMessage_ok hsend
      exact .inr rfl

theorem deliverResultPrivately_entries {actor version : ℕ} (hS : Outline.Sound site (outline s))
    (h : deliverResultPrivately site actor version s = .ok s') :
    Entries site (ledger s) [] (ledger s') := by
  have h := required_ok h
  split at h
  · rw [pure_eq_ok] at h
    subst h
    exact .refl _
  · simp only [bind_eq_ok] at h
    obtain ⟨⟨attempt, proposal⟩, hprivate, ⟨id, s₁⟩, hsend, haudit⟩ := h
    obtain ⟨artifacts, hp⟩ := privateDelivery_ok hprivate
    refine completeJob_entries (verified_of_ok hS hp.latest hp.verified) ?_ haudit
    obtain ⟨-, rfl⟩ := sendMessage_ok hsend
    exact .inr rfl

theorem publishDraft_entries {data : DraftText} {edit : Option Edit}
    (h : publishDraft data s = .ok (edit, s')) : Entries site (ledger s) [] (ledger s') := by
  simp only [publishDraft, agentTransaction_eq_ok, bind_eq_ok] at h
  obtain ⟨-, -, -, a, -, h⟩ := h
  split at h
  · obtain ⟨-, rfl⟩ := h
    exact .refl _
  · simp only [bind_eq_ok] at h
    obtain ⟨-, -, -, -, -, -, h⟩ := h
    split at h
    · obtain ⟨-, rfl⟩ := h
      exact .refl _
    · simp only [bind_eq_ok, pure_eq_ok, Prod.mk.injEq] at h
      obtain ⟨⟨id, s₁⟩, hsend, -, rfl⟩ := h
      have hsent : Entries site _ _ _ := sendMessage_entries hsend
      exact hsent

theorem ledger_editMessage (id : ℕ) (c : Content) : ledger (editMessage id c s) = ledger s := by
  unfold editMessage
  split <;> rfl

theorem ledger_deleteMessage (id : ℕ) : ledger (deleteMessage id s) = ledger s := by
  unfold deleteMessage
  dsimp only
  split <;> rfl

/-- A publication that is blocked moves the job. -/
theorem ledger_blockPublication {target : JobState} {reason : String} {park : Bool}
    (hc : s.job.status = .verifying ∧ s.job.blockedReason ≠ reason)
    (h : blockPublication target reason park s = .ok s') :
    ledger s' = (ledger s).transition target reason := by
  rw [blockPublication, agentTransaction_eq_ok] at h
  obtain ⟨-, h⟩ := h
  rw [if_pos hc] at h
  simp only [bind_eq_ok, pure_eq_ok] at h
  obtain ⟨s₁, haudit, rfl⟩ := h
  rw [← ledger_transition, ← ledger_audit haudit]
  split
  · exact ledger_updateRows (by intro row; rfl)
  · rfl

theorem blockPublication_entries {target : JobState} {reason : String} {park : Bool}
    (ht : target ∈ [.verifying, .failed]) (h : blockPublication target reason park s = .ok s') :
    Entries site (ledger s) (deeds (.blockPublication target reason park) s) (ledger s') := by
  by_cases hc : s.job.status = .verifying ∧ s.job.blockedReason ≠ reason
  · rw [ledger_blockPublication hc h]
    rw [deeds]
    simp only [mem_cons, not_mem_nil, or_false] at ht
    rcases ht with rfl | rfl
    · rw [if_neg (by simp)]
      exact .single (.parked (ledger s) reason hc.1)
    · rw [if_pos ⟨hc.1, hc.2, rfl⟩]
      exact .single (.failed (ledger s) reason hc.1)
  · simp only [blockPublication, agentTransaction_eq_ok, if_neg hc, pure_eq_ok] at h
    obtain ⟨-, rfl⟩ := h
    rw [deeds]
    rw [if_neg fun hd => hc ⟨hd.1, hd.2.1⟩]
    exact .refl _

/-! ## Reconcile passes -/

theorem expireQueue_entries (limit : ℕ) :
    Entries site (ledger s) [] (ledger (expireQueue s limit)) := by
  unfold expireQueue
  split
  · next hc => exact .single (.overdue (ledger s) hc.2.1)
  · exact .refl _

theorem ledger_loseLease (h : loseLease s a = .ok s') :
    ledger s' = (((ledger s).updateAttempt a.id fun a => { a with process := .unknown }).lost
      a.id).transition .interrupted "lease_lost" := by
  rw [ledger_audit h]
  have hattempt : ledger (s.updateAttempt a.id fun a => { a with processState := .unknown }) =
      (ledger s).updateAttempt a.id fun a => { a with process := .unknown } :=
    ledger_updateAttempt (by intro a; rfl)
  rw [← hattempt]
  rfl

/-- The attempts were read before the first of them was lost. -/
theorem loseLeases_entries {attempts : List Attempt}
    (hmem : ∀ a ∈ attempts, ∃ t ∈ (ledger s).attempts, t.id = a.id ∧ t.active = true)
    (h : attempts.foldlM loseLease s = .ok s') :
    Entries site (ledger s) (attempts.map (.interrupted ·.id)) (ledger s') := by
  induction attempts generalizing s with
  | nil =>
    rw [foldlM_nil, pure_eq_ok] at h
    subst h
    exact .refl _
  | cons a attempts ih =>
    rw [foldlM_cons, bind_eq_ok] at h
    obtain ⟨s₁, hlose, hrest⟩ := h
    have heq := ledger_loseLease hlose
    obtain ⟨t, ht, hid, hactive⟩ := hmem a (by simp)
    have hentry : Ledger.Entry site _ _ _ := interrupted (ledger s) t "lease_lost" ht hactive
      (by decide)
    rw [hid, ← heq] at hentry
    refine (single hentry).trans (ih ?_ hrest)
    intro b hb
    obtain ⟨t', ht', hid', hactive'⟩ := hmem b (mem_cons_of_mem _ hb)
    rw [heq]
    refine ⟨_, mem_map_of_mem ht', ?_⟩
    split
    · exact ⟨hid', hactive'⟩
    · exact ⟨hid', hactive'⟩

/-- An approval that can still expire. -/
structure Expirable (c : Ledger) (p : Approval) : Prop where
  found : ∃ p' ∈ c.approvals, p'.id = p.id ∧ p'.decision ∉ [.rejected, .consumed] ∧
    p'.expiresAt ≤ c.clock

theorem Expirable.update {c : Ledger} (h : Expirable c p) (q : Approval → Bool)
    {f : Approval → Approval} (hid : ∀ p, (f p).id = p.id)
    (hd : ∀ p, (f p).decision ∉ [.rejected, .consumed])
    (he : ∀ p, (f p).expiresAt = p.expiresAt) : Expirable (c.updateApprovals q f) p := by
  obtain ⟨p', hp', hid', hd', he'⟩ := h.found
  refine ⟨⟨_, mem_map_of_mem hp', ?_⟩⟩
  split
  · exact ⟨(hid p').trans hid', hd p', (he p').trans_le he'⟩
  · exact ⟨hid', hd', he'⟩

theorem Expirable.requestStop {c : Ledger} (h : Expirable c p) (id : Uuid)
    (target : StopTarget) (reason : String) : Expirable (c.requestStop id target reason) p := by
  have hupdate := h.update (fun p => p.attemptId = id && p.decision ∈ [.pending, .approved])
    (f := fun p => { p with decision := .cancelled }) (by intro p; rfl) (by simp)
    (by intro p; rfl)
  exact ⟨hupdate.found⟩

theorem expiryDeeds_eq (p : Approval) :
    expiryDeeds s p = if (ledger s).working p.attemptId = true then
      [.requested p.attemptId .blocked "approval_expired"] else [] := by
  have hworking : (ledger s).working p.attemptId =
      s.attempts.any fun a => a.id = p.attemptId && a.active := by
    show (s.attempts.map Attempt.tenure).any _ = _
    rw [any_map]
    rfl
  rw [hworking]
  rfl

/-- What one expired approval does.  It leaves the other ones as they are to the pass. -/
theorem expireApproval_entries (hp : Expirable (ledger s) p) (h : expireApproval s p = .ok s') :
    Entries site (ledger s) (expiryDeeds s p) (ledger s') ∧
      (∀ q, Expirable (ledger s) q → Expirable (ledger s') q) ∧
      ∀ id, (ledger s').working id = (ledger s).working id := by
  obtain ⟨p', hp', hid, hd, he⟩ := hp.found
  have hentry : Ledger.Entry site _ _ _ := expired (ledger s) p' hp' hd he
  rw [hid] at hentry
  have hkeep : ∀ q, Expirable (ledger s) q →
      Expirable ((ledger s).updateApprovals (·.id = p.id) fun p => { p with decision := .expired })
        q := fun q hq => hq.update _ (by intro p; rfl) (by simp) (by intro p; rfl)
  unfold expireApproval at h
  dsimp only at h
  unfold expiryDeeds
  split at h
  · next a ha =>
    have hfound := find?_some ha
    rw [Bool.and_eq_true, decide_eq_true_eq] at hfound
    have hmem : a ∈ s.attempts := mem_of_find?_eq_some ha
    have hstop : Entries site _ _ _ := requestStop_entries (mem_of_find?_eq_some ha) hfound.2
      (by decide) h
    have hledger := ledger_requestStop h
    rw [hfound.1] at hstop hledger
    rw [if_pos (any_eq_true.mpr ⟨a, hmem, by simp [hfound]⟩)]
    refine ⟨(single hentry).trans hstop, fun q hq => ?_, fun id => ?_⟩
    · rw [hledger]
      exact (hkeep q hq).requestStop _ _ _
    · rw [hledger]
      exact working_requestStop _ _ _ _ id
  · next ha =>
    rw [pure_eq_ok] at h
    subst h
    have hnone : s.attempts.any (fun a => a.id = p.attemptId && a.active) = false :=
      any_eq_false.mpr (find?_eq_none.mp ha)
    rw [hnone]
    exact ⟨.single hentry, hkeep, fun id => rfl⟩

/-- The approvals were read before the first of them expired. -/
theorem expireApprovals_entries {approvals : List Approval}
    (hp : ∀ p ∈ approvals, Expirable (ledger s) p)
    (h : approvals.foldlM expireApproval s = .ok s') :
    Entries site (ledger s) (approvals.flatMap (expiryDeeds s)) (ledger s') := by
  induction approvals generalizing s with
  | nil =>
    rw [foldlM_nil, pure_eq_ok] at h
    subst h
    exact .refl _
  | cons p approvals ih =>
    rw [foldlM_cons, bind_eq_ok] at h
    obtain ⟨s₁, hfirst, hrest⟩ := h
    obtain ⟨hentries, hkeep, hworking⟩ : Entries site _ _ _ ∧ _ :=
      expireApproval_entries (hp p (by simp)) hfirst
    have hothers := ih (fun q hq => hkeep q (hp q (mem_cons_of_mem _ hq))) hrest
    have hsame : expiryDeeds s₁ = expiryDeeds s := by
      funext q
      rw [expiryDeeds_eq, expiryDeeds_eq, hworking]
    rw [hsame] at hothers
    exact hentries.trans hothers

theorem expire_entries {reach : Reach} (h : expire reach s = .ok s') :
    Entries site (ledger s) (deeds (.expire reach) s) (ledger s') := by
  simp only [expire, agentTransaction_eq_ok, bind_eq_ok] at h
  obtain ⟨-, s₁, hleases, happrovals⟩ := h
  simp only [deeds, expireDeeds, hleases]
  have hlost : Entries site (ledger (expireQueue s reach.queued)) _ (ledger s₁) :=
    loseLeases_entries (fun a ha => by
      obtain ⟨hmem, hexpired⟩ := mem_filter.mp (mem_of_mem_take ha)
      simp only [leaseExpired, Bool.and_eq_true] at hexpired
      exact ⟨a.tenure, mem_ledger hmem, rfl, hexpired.1.1⟩) hleases
  have hexpired : Entries site (ledger s₁) _ (ledger s') :=
    expireApprovals_entries (fun p hp => by
      obtain ⟨hmem, hlive⟩ := mem_filter.mp (mem_of_mem_take hp)
      simp only [approvalExpired, Bool.and_eq_true, decide_eq_true_eq] at hlive
      refine ⟨⟨p, hmem, rfl, ?_, hlive.2⟩⟩
      intro hd
      rcases mem_cons.mp hd with hr | hd
      · rw [hr] at hlive
        simp at hlive
      · rw [mem_singleton.mp hd] at hlive
        simp at hlive) happrovals
  exact (expireQueue_entries reach.queued).trans (hlost.trans hexpired)

theorem takeRow_ledger {key : DeliveryKey} {b : Bool} (h : takeRow key s = .ok (b, s')) :
    ledger s' = ledger s := by
  simp only [takeRow, agentTransaction_eq_ok, bind_eq_ok] at h
  obtain ⟨-, row, -, h⟩ := h
  split at h
  · obtain ⟨-, rfl⟩ := h
    exact ledger_updateRows (by intro row; rfl)
  · rw [pure_eq_ok, Prod.mk.injEq] at h
    rw [h.2]

theorem finishRow_ledger {key : DeliveryKey} {delivered : Bool}
    (h : finishRow key delivered s = .ok s') : ledger s' = ledger s := by
  simp only [finishRow, agentTransaction_eq_ok, bind_eq_ok] at h
  obtain ⟨-, row, -, h⟩ := h
  split at h
  · rw [pure_eq_ok] at h
    subst h
    exact ledger_updateRows (by intro row; rfl)
  · rw [pure_eq_ok] at h
    rw [h]

/-! ## All transactions -/

/-- What a transaction needs of the routine that makes it: a receipt is stored for a team
operation that was begun, and a publication is parked where the job stays or fails. -/
structure Due (t : Transaction) (c : Ledger) : Prop where
  executed : ∀ lease operationId receipt, t = .storeTeamReceipt lease operationId receipt →
    Begun c operationId
  parked : ∀ target reason park, t = .blockPublication target reason park →
    target ∈ [.verifying, .failed]

/-- **Every accepted transaction writes entries.** -/
theorem run_entries {t : Transaction} {a : t.Answer} (hS : Outline.Sound site (outline s))
    (hd : Due t (ledger s)) (h : t.run site s = .ok (a, s')) :
    Entries site (ledger s) (deeds t s) (ledger s') := by
  have hsame : ledger s' = ledger s → deeds t s = [] →
      Entries site (ledger s) (deeds t s) (ledger s') := by
    intro heq hnone
    rw [heq, hnone]
    exact .refl _
  cases t with
  | wait duration =>
    obtain ⟨-, rfl⟩ := Prod.mk.inj (ok.inj h)
    exact .single (.passed (ledger s) duration)
  | change | readReceipt | selectDue | overtaken =>
    obtain ⟨-, rfl⟩ := Prod.mk.inj (ok.inj h)
    exact .refl _
  | completeDraft request => exact completeDraft_entries (silent_ok h)
  | claimWork claimKey => exact claimWork_entries h
  | cancelJob actor version => exact cancelJob_entries (silent_ok h)
  | addInput request => exact addInput_entries (silent_ok h)
  | resumeJob actor version checkpoint => exact resumeJob_entries (silent_ok h)
  | revokeRunner =>
    obtain ⟨-, rfl⟩ := Prod.mk.inj (ok.inj h)
    exact revokeRunner_entries
  | deliverInputs lease version => exact deliverInputs_entries h
  | heartbeat identities => exact heartbeat_entries h
  | controls => exact controls_entries h
  | saveCheckpoint lease version checkpoint => exact saveCheckpoint_entries (silent_ok h)
  | reconcileInput lease request => exact reconcileInput_entries (silent_ok h)
  | events event version => exact events_entries h
  | stopEvidence event => exact stopEvidence_entries h
  | proposeOperation lease version proposal => exact proposeOperation_entries (silent_ok h)
  | decideApproval decision => exact decideApproval_entries (silent_ok h)
  | consumeOperation lease version request => exact consumeOperation_entries (silent_ok h)
  | reconcileOperation lease receipt => exact reconcileOperation_entries (silent_ok h)
  | reconcileLocalOperation lease receipt => exact reconcileLocalOperation_entries (silent_ok h)
  | beginTeamOperation lease version request => exact beginTeamOperation_entries h
  | storeTeamReceipt lease operation receipt =>
    exact storeTeamReceipt_entries (hd.executed _ _ _ rfl) (silent_ok h)
  | admitUpload lease version => exact hsame (by rw [admitUpload_same (silent_ok h)]) rfl
  | uploadBudget lease => exact hsame (by rw [uploadBudget_same h]) rfl
  | registerArtifact lease upload => exact registerArtifact_entries (silent_ok h)
  | readJob | readArtifacts proposal => exact hsame (by rw [(query_ok h).2]) rfl
  | publish proposal artifacts => exact publish_entries hS h
  | blockPublication target reason park =>
    exact blockPublication_entries (hd.parked _ _ _ rfl) (silent_ok h)
  | deliverResultPrivately actor version => exact deliverResultPrivately_entries hS (silent_ok h)
  | publishDraft data => exact publishDraft_entries h
  | editMessage edit =>
    obtain ⟨-, rfl⟩ := Prod.mk.inj (ok.inj h)
    exact hsame (ledger_editMessage edit.1 edit.2) rfl
  | deleteMessage id =>
    obtain ⟨-, rfl⟩ := Prod.mk.inj (ok.inj h)
    exact hsame (ledger_deleteMessage id) rfl
  | expire reach => exact expire_entries (silent_ok h)
  | takeRow key => exact hsame (takeRow_ledger h) rfl
  | notify => exact hsame (by rw [(query_ok h).2]) rfl
  | finishRow key delivered => exact hsame (finishRow_ledger (silent_ok h)) rfl

end GrowTeam.Server
