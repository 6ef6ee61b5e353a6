/-
# Transactions write into the ledger

`deeds` reads off a transaction and the store it finds what an accepted call is remembered
for.  The lemmas below show, for the functions people ask for and the runner's side of a
lease, that this is what they write.
-/
import GrowTeam.Server.Ledger

namespace GrowTeam.Server

open Ledger List Except Store

variable {site : Site} {s s' : Store}

/-! ## Deeds -/

/-- What `request_stop` is remembered for. -/
def stopDeed (attempt : Option Attempt) (target : StopTarget) (reason : String) : Deed :=
  match attempt with
  | some a => .requested a.id target reason
  | none => .halted target reason

/-- `claim_work`. -/
def claimDeeds (s : Store) (claimKey : Uuid) : List Deed :=
  match s.attempts.find? (·.claimKey = claimKey), claimWork claimKey s with
  | none, .ok (some id, _) => [.claimed id]
  | _, _ => []

/-- `fence_prepared_result`. -/
def fenceDeeds (s : Store) (attempt : Attempt) : List Deed :=
  if s.job.status ≠ .verifying ∨ s.job.resultProposal = none ∨ attempt.active = false ∨
      attempt.processState ≠ .active ∨ s.inputs.any Store.unapplied = true then []
  else [.fenced attempt.id]

/-- One identity of a heartbeat. -/
def leaseDeeds (s : Store) (identity : LeaseIdentity) : List Deed :=
  match s.lockedLease identity none with
  | .error _ => []
  | .ok attempt =>
    if attempt.active = true ∧ attempt.processState ∈ [.starting, .active] ∧
        s.job.status ∈ executing then fenceDeeds s attempt
    else []

/-- The loop of `heartbeat`. -/
def heartbeatDeeds : List LeaseIdentity → Store → List Deed
  | [], _ => []
  | identity :: rest, s =>
    match heartbeatLease s identity with
    | .error _ => []
    | .ok (_, s') => leaseDeeds s identity ++ heartbeatDeeds rest s'

/-- One active attempt in the view `controls`. -/
def controlDeeds (s : Store) (attempt : Attempt) : List Deed :=
  if attempt.processState ∈ [.starting, .active] then
    match s.requireExecution attempt with
    | .ok () => fenceDeeds s attempt
    | .error _ => [.requested attempt.id .blocked "authority_changed"]
  else []

/-- An event that was not recorded before. -/
def eventDeeds (s : Store) (event : RunnerEvent) : List Deed :=
  if recorded s event = true then []
  else match event.body with
    | .attemptInterrupted _ => [.interrupted event.attemptId]
    | .attemptStopped _ => [.stopped event.attemptId]
    | .resultPrepared result => if blank result.summary = true then [.spoiled] else []
    | _ => []

/-- `decide_approval`. -/
def decisionDeeds (s : Store) (decision : Decision) : List Deed :=
  if decision.approved = true then [.approved decision.approvalId decision.actor]
  else match s.approvals.find? (·.id = decision.approvalId) with
    | none => []
    | some approval => [.requested approval.attemptId .blocked "approval_rejected"]

/-- The start of an operation. -/
def startDeeds (s : Store) (lease : LeaseIdentity) (request : Consumption) : List Deed :=
  match s.operations.find? fun o =>
    o.operationId = request.operationId && o.attemptId = lease.attemptId with
  | none => []
  | some o =>
    if o.status = .proposed then
      match s.approvals.find? fun p => p.operationId = o.operationId && p.decision = .approved with
      | none => []
      | some p => [.consumed p.id o.operationId]
    else [.begun o.operationId]

/-- Phase 1 of `execute_operation`. -/
def beginDeeds (s : Store) (lease : LeaseIdentity) (request : Consumption) : List Deed :=
  if (s.operations.find? fun o => o.operationId = request.operationId &&
      o.attemptId = lease.attemptId).any (·.serverReceipt.isSome) = true then []
  else startDeeds s lease request

/-- An approval that was not used in time. -/
def expiryDeeds (s : Store) (approval : Approval) : List Deed :=
  if s.attempts.any (fun a => a.id = approval.attemptId && a.active) = true then
    [.requested approval.attemptId .blocked "approval_expired"]
  else []

/-- The first transaction of a reconcile pass. -/
def expireDeeds (reach : Reach) (s : Store) : List Deed :=
  let s₀ := expireQueue s reach.queued
  let lost := (s₀.attempts.filter (leaseExpired s₀)).take reach.attempts
  match lost.foldlM loseLease s₀ with
  | .error _ => []
  | .ok s₁ =>
    lost.map (.interrupted ·.id) ++
      ((s₁.approvals.filter (approvalExpired s₁)).take reach.approvals).flatMap (expiryDeeds s₁)

/-- What an accepted transaction is remembered for. -/
def deeds (t : Transaction) (s : Store) : List Deed :=
  match t with
  | .claimWork claimKey => claimDeeds s claimKey
  | .deliverInputs lease _ => [.delivered lease.attemptId]
  | .cancelJob .. =>
    if s.job.status ∈ [.cancelRequested, .cancelled] then []
    else [stopDeed s.activeAttempt .cancelled ""]
  | .revokeRunner => if s.runnerRevokedAt.isSome = true then [] else [.revoked]
  | .heartbeat identities => heartbeatDeeds identities s
  | .controls => s.activeAttempt.elim [] (controlDeeds s)
  | .events event _ | .stopEvidence event => eventDeeds s event
  | .decideApproval decision => decisionDeeds s decision
  | .consumeOperation lease _ request => startDeeds s lease request
  | .beginTeamOperation lease _ request => beginDeeds s lease request
  | .blockPublication target reason _ =>
    if s.job.status = .verifying ∧ s.job.blockedReason ≠ reason ∧ target = .failed then [.spoiled]
    else []
  | .expire reach => expireDeeds reach s
  | _ => []

/-- The transactions that can be remembered for a deed. -/
def Deed.DoneBy (t : Transaction) (s : Store) : Deed → Prop
  | .claimed _ => ∃ claimKey, t = .claimWork claimKey
  | .delivered _ => ∃ lease version, t = .deliverInputs lease version
  | .stopped id => ∃ event process, (t = .stopEvidence event ∨ ∃ version, t = .events event version) ∧
      event.attemptId = id ∧ event.body = .attemptStopped process ∧ recorded s event = false
  | .requested _ _ reason => reason = "approval_expired" → ∃ reach, t = .expire reach
  | .revoked => t = .revokeRunner ∧ s.runnerRevokedAt = none
  | .fenced _ => (∃ identities, t = .heartbeat identities) ∨ t = .controls
  | .spoiled => (∃ event result, (t = .stopEvidence event ∨ ∃ version, t = .events event version) ∧
      event.body = .resultPrepared result ∧ blank result.summary = true ∧
        recorded s event = false) ∨
      ∃ reason park, t = .blockPublication .failed reason park ∧ s.job.status = .verifying ∧
        s.job.blockedReason ≠ reason
  | .approved id actor => ∃ decision, t = .decideApproval decision ∧ decision.approved = true ∧
      decision.approvalId = id ∧ decision.actor = actor
  | .begun _ | .consumed .. => ∃ lease request,
      (∃ version, t = .consumeOperation lease version request) ∨
        ∃ version, t = .beginTeamOperation lease version request
  | _ => True

variable {identities : List LeaseIdentity} {t : Transaction} {d : Deed} {lease : LeaseIdentity}
  {id : Uuid} {f : OutboxRow → OutboxRow} {a : Attempt} {version : Option ℕ}
  {out : List LeaseControl}

theorem doneBy_of_heartbeat {s₀ s : Store} (ht : ∃ identities, t = .heartbeat identities)
    (h : d ∈ heartbeatDeeds identities s) : d.DoneBy t s₀ := by
  induction identities generalizing s with
  | nil => simp [heartbeatDeeds] at h
  | cons identity rest ih =>
    unfold heartbeatDeeds at h
    split at h
    · simp at h
    · rcases mem_append.mp h with h | h
      · unfold leaseDeeds fenceDeeds at h
        split at h
        · simp at h
        · split at h
          · split at h
            · simp at h
            · rw [mem_singleton.mp h]
              exact .inl ht
          · simp at h
      · exact ih h

theorem doneBy_of_event {event : RunnerEvent}
    (ht : t = .stopEvidence event ∨ ∃ version, t = .events event version)
    (h : d ∈ eventDeeds s event) : d.DoneBy t s := by
  unfold eventDeeds at h
  split at h
  · simp at h
  next hnew =>
  split at h
  · rw [mem_singleton.mp h]
    trivial
  · next process hbody =>
    rw [mem_singleton.mp h]
    exact ⟨event, process, ht, rfl, hbody, by simpa using hnew⟩
  · next result hbody =>
    split at h
    · next hblank =>
      rw [mem_singleton.mp h]
      exact .inl ⟨event, result, ht, hbody, hblank, by simpa using hnew⟩
    · simp at h
  · simp at h

theorem doneBy_of_start {request : Consumption}
    (ht : (∃ version, t = .consumeOperation lease version request) ∨
      ∃ version, t = .beginTeamOperation lease version request)
    (h : d ∈ startDeeds s lease request) : d.DoneBy t s := by
  unfold startDeeds at h
  split at h
  · simp at h
  split at h
  · split at h
    · simp at h
    · rw [mem_singleton.mp h]
      exact ⟨lease, request, ht⟩
  · rw [mem_singleton.mp h]
    exact ⟨lease, request, ht⟩

/-- A deed tells the transaction. -/
theorem doneBy_of_mem (h : d ∈ deeds t s) : d.DoneBy t s := by
  cases t with
  | claimWork claimKey =>
    rw [deeds, claimDeeds] at h
    split at h
    · rw [mem_singleton.mp h]
      exact ⟨claimKey, rfl⟩
    · simp at h
  | deliverInputs lease version =>
    rw [mem_singleton.mp h]
    exact ⟨lease, version, rfl⟩
  | cancelJob actor version =>
    rw [deeds] at h
    split at h
    · simp at h
    · rw [mem_singleton.mp h]
      cases s.activeAttempt with
      | none => trivial
      | some a => exact fun hr => absurd hr (by decide)
  | revokeRunner =>
    rw [deeds] at h
    split at h
    · simp at h
    · next hrevoked =>
      rw [mem_singleton.mp h]
      exact ⟨rfl, by simpa using hrevoked⟩
  | heartbeat identities => exact doneBy_of_heartbeat ⟨identities, rfl⟩ h
  | controls =>
    rw [deeds] at h
    cases ha : s.activeAttempt with
    | none => simp [ha] at h
    | some a =>
      rw [ha, Option.elim_some] at h
      unfold controlDeeds fenceDeeds at h
      split at h
      · split at h
        · split at h
          · simp at h
          · rw [mem_singleton.mp h]
            exact .inr rfl
        · rw [mem_singleton.mp h]
          exact fun hr => absurd hr (by decide)
      · simp at h
  | events event version => exact doneBy_of_event (.inr ⟨version, rfl⟩) h
  | stopEvidence event => exact doneBy_of_event (.inl rfl) h
  | decideApproval decision =>
    rw [deeds, decisionDeeds] at h
    split at h
    · next happroved =>
      rw [mem_singleton.mp h]
      exact ⟨decision, rfl, happroved, rfl, rfl⟩
    · split at h
      · simp at h
      · rw [mem_singleton.mp h]
        exact fun hr => absurd hr (by decide)
  | consumeOperation lease version request => exact doneBy_of_start (.inl ⟨version, rfl⟩) h
  | beginTeamOperation lease version request =>
    rw [deeds, beginDeeds] at h
    split at h
    · simp at h
    · exact doneBy_of_start (.inr ⟨version, rfl⟩) h
  | blockPublication target reason park =>
    rw [deeds] at h
    split at h
    · next hblocks =>
      obtain ⟨hstatus, hreason, rfl⟩ := hblocks
      rw [mem_singleton.mp h]
      exact .inr ⟨reason, park, rfl, hstatus, hreason⟩
    · simp at h
  | expire reach =>
    rw [deeds, expireDeeds] at h
    split at h
    · simp at h
    · rcases mem_append.mp h with h | h
      · obtain ⟨a, -, rfl⟩ := mem_map.mp h
        trivial
      · obtain ⟨p, -, hp⟩ := mem_flatMap.mp h
        unfold expiryDeeds at hp
        split at hp
        · rw [mem_singleton.mp hp]
          exact fun _ => ⟨reach, rfl⟩
        · simp at hp
  | _ => simp [deeds] at h

/-! ## Ledgers of updated stores -/

theorem ledger_audit {type : String} {attemptId : Option Uuid} {event : Option RunnerEvent}
    (h : s.audit type attemptId event = .ok s') : ledger s' = ledger s := by
  simp only [audit, bind_eq_ok, pure_eq_ok] at h
  obtain ⟨-, -, rfl⟩ := h
  rfl

theorem ledger_transition (status : JobState) (reason : String) :
    ledger (s.transition status reason) = (ledger s).transition status reason := rfl

theorem tenures_update {p : Attempt → Bool} {q : Tenure → Bool} {f : Attempt → Attempt}
    {g : Tenure → Tenure} (hp : ∀ a, p a = q a.tenure) (hf : ∀ a, (f a).tenure = g a.tenure)
    (attempts : List Attempt) :
    (updateWhere p f attempts).map Attempt.tenure =
      updateWhere q g (attempts.map Attempt.tenure) := by
  simp only [updateWhere, map_map]
  apply map_congr_left
  intro a ha
  show (if _ then f a else a).tenure = if q a.tenure = true then g a.tenure else a.tenure
  rw [hp a]
  split
  · exact hf a
  · rfl

theorem ledger_updateAttempt {f : Attempt → Attempt} {g : Tenure → Tenure}
    (hf : ∀ a, (f a).tenure = g a.tenure) :
    ledger (s.updateAttempt id f) = (ledger s).updateAttempt id g := by
  have htenures := tenures_update (p := (·.id = id)) (q := (·.id = id)) (by intro a; rfl) hf
    s.attempts
  simp only [ledger, Store.updateAttempt, Ledger.updateAttempt, htenures]
  rfl

/-- An update of what the ledger does not keep. -/
theorem ledger_touch {f : Attempt → Attempt} (hf : ∀ a, (f a).tenure = a.tenure) :
    ledger (s.updateAttempt id f) = ledger s := by
  rw [ledger_updateAttempt (g := fun a => a) hf]
  have hsame : updateWhere (·.id = id) (fun a : Tenure => a) (ledger s).attempts =
      (ledger s).attempts := by simp [updateWhere]
  rw [Ledger.updateAttempt, hsame]

theorem ledger_createRow {key : DeliveryKey}
    (hkey : (f (s.newRow key)).key = key) (hne : ∀ id, key ≠ .stop id) :
    ledger (s.createRow key f) = ledger s := by
  have hstops : (fun id => ((s.createRow key f).row (.stop id)).isSome) =
      fun id => (s.row (.stop id)).isSome := by
    funext id
    rw [row_createRow hkey, if_neg (hne id), Option.or_none]
  rw [ledger, hstops]
  rfl

theorem ledger_updateRows {p : OutboxRow → Bool}
    (hkey : ∀ row, (f row).key = row.key) : ledger (s.updateRows p f) = ledger s := by
  have hstops : (fun id => ((s.updateRows p f).row (.stop id)).isSome) =
      fun id => (s.row (.stop id)).isSome := by
    funext id
    rw [row_updateRows hkey, Option.isSome_map]
  rw [ledger, hstops]
  rfl

theorem ledger_updateOrCreateRow (hkey : ∀ row, (f row).key = row.key) :
    ledger (s.updateOrCreateRow .result f) = ledger s := by
  unfold updateOrCreateRow
  split
  · exact ledger_updateRows hkey
  · exact ledger_createRow (hkey _) (by simp)

/-- The stop of an attempt goes into the outbox once. -/
theorem ledger_stopRow (hkey : (f (s.newRow (.stop id))).key = .stop id) :
    ledger (s.getOrCreateRow (.stop id) f) =
      { ledger s with stops := fun j => (ledger s).stops j || decide (j = id) } := by
  have hstops : (fun j => ((s.getOrCreateRow (.stop id) f).row (.stop j)).isSome) =
      fun j => (s.row (.stop j)).isSome || decide (j = id) := by
    funext j
    unfold getOrCreateRow
    split
    · next hsome =>
      by_cases hj : j = id
      · subst hj
        simp [hsome]
      · simp [hj]
    · rw [row_createRow hkey]
      by_cases hj : j = id
      · subst hj
        simp
      · simp [hj, Ne.symm hj]
  have hrest : ledger (s.getOrCreateRow (.stop id) f) =
      { ledger s with
        stops := fun j => ((s.getOrCreateRow (.stop id) f).row (.stop j)).isSome } := by
    unfold getOrCreateRow
    split <;> rfl
  rw [hrest, hstops]
  rfl

theorem mem_ledger (ha : a ∈ s.attempts) : a.tenure ∈ (ledger s).attempts :=
  mem_map_of_mem ha

theorem ledger_idle : (ledger s).Idle ↔ ∀ a ∈ s.attempts, a.active = false := by
  constructor
  · exact fun h a ha => h a.tenure (mem_ledger ha)
  · intro h t ht
    obtain ⟨a, ha, rfl⟩ := mem_map.mp ht
    exact h a ha

theorem idle_of_none (h : s.activeAttempt = none) : (ledger s).Idle :=
  ledger_idle.mpr fun a ha => by simpa using find?_eq_none.mp h a ha

/-! ## Leases and stops -/

theorem leased_of_ok {u : Unit} (ha : a ∈ s.attempts)
    (h : s.requireExecution a = .ok u) : (ledger s).Leased a.tenure := by
  simp only [requireExecution, bind_eq_ok, ensure_eq_ok] at h
  obtain ⟨-, ⟨hrevoked, hactive, hlive, hprocess, hstatus⟩, -⟩ := h
  exact ⟨mem_ledger ha, hactive, hrevoked, hlive, hprocess, hstatus⟩

theorem leased_of_locked (h : s.lockedAttempt lease version = .ok a) :
    a ∈ s.attempts ∧ (ledger s).Leased a.tenure := by
  simp only [lockedAttempt, bind_eq_ok, pure_eq_ok] at h
  obtain ⟨a', hlease, _, hexec, rfl⟩ := h
  have hmem := lockedLease_ok hlease
  exact ⟨hmem, leased_of_ok hmem hexec⟩

theorem lockedAttempt_id (h : s.lockedAttempt lease version = .ok a) : a.id = lease.attemptId := by
  simp only [lockedAttempt, bind_eq_ok, pure_eq_ok] at h
  obtain ⟨a', hlease, -, -, rfl⟩ := h
  exact lockedLease_id hlease

theorem ledger_requestStop {target : StopTarget} {reason : String}
    (h : s.requestStop (some a) target reason = .ok s') :
    ledger s' = (ledger s).requestStop a.id target reason := by
  rw [ledger_audit h, ledger_stopRow (by rfl)]
  have htenures := tenures_update (p := (·.id = a.id)) (q := (·.id = a.id))
    (f := fun a => { a with processState := .stopping })
    (g := fun a => { a with process := .stopping }) (by intro a; rfl) (by intro a; rfl) s.attempts
  exact Ledger.ext rfl rfl rfl rfl rfl rfl rfl rfl htenures rfl rfl rfl rfl

/-- `request_stop` for an active attempt. -/
theorem requestStop_entries {target : StopTarget} {reason : String}
    (ha : a ∈ s.attempts) (hactive : a.active = true) (hr : reason ∈ stopReasons)
    (h : s.requestStop (some a) target reason = .ok s') :
    Entries site (ledger s) [.requested a.id target reason] (ledger s') := by
  rw [ledger_requestStop h]
  exact .single (.requested (ledger s) a.tenure target reason (mem_ledger ha) hactive hr)

/-! ## People -/

theorem completeDraft_entries {request : DraftRequest} (h : completeDraft request s = .ok s') :
    Entries site (ledger s) [] (ledger s') := by
  have h := required_ok h
  cases hd : s.job.draftCompletion with
  | some receipt =>
    simp only [hd, bind_eq_ok, pure_eq_ok] at h
    obtain ⟨-, -, rfl⟩ := h
    exact .refl _
  | none =>
    simp only [hd, bind_eq_ok, ensure_eq_ok] at h
    obtain ⟨-, ⟨hdraft, -, -⟩, -, -, -, -, -, -, -, -, h⟩ := h
    rw [ledger_audit h]
    unfold completedDraft
    rw [ledger_createRow (by rfl) (by simp)]
    exact .single (.drafted (ledger s) hdraft)

theorem cancelJob_entries {actor version : ℕ} (h : cancelJob actor version s = .ok s') :
    Entries site (ledger s) (deeds (.cancelJob actor version) s) (ledger s') := by
  have h := required_ok h
  by_cases hs : s.job.status ∈ [.cancelRequested, .cancelled]
  · rw [if_pos hs, pure_eq_ok] at h
    subst h
    rw [deeds, if_pos hs]
    exact .refl _
  · simp only [if_neg hs, bind_eq_ok, ensure_eq_ok] at h
    obtain ⟨-, ⟨-, hopen⟩, h⟩ := h
    rw [deeds, if_neg hs]
    cases ha : s.activeAttempt with
    | some a =>
      obtain ⟨hmem, hactive⟩ := activeAttempt_mem ha
      rw [ha] at h
      exact requestStop_entries hmem hactive (by decide) h
    | none =>
      simp only [ha, Store.requestStop, ok.injEq] at h
      subst h
      refine .single (.halted (ledger s) .cancelled "" (idle_of_none ha) ?_)
      show s.job.status ∉ _
      simp only [mem_cons, not_mem_nil, or_false, not_or] at hs ⊢
      exact ⟨hs.1, hs.2, hopen⟩

theorem foldl_invalidate (attempts : List Attempt) (s : Store) :
    attempts.foldl (fun s a => s.invalidateApprovals a.id) s =
      { s with
        approvals := updateWhere
          (fun p => attempts.any (fun a => a.id = p.attemptId) &&
            p.decision ∈ [.pending, .approved])
          (fun p => { p with decision := .cancelled }) s.approvals } := by
  induction attempts generalizing s with
  | nil => simp [updateWhere]
  | cons a attempts ih =>
    rw [foldl_cons, ih]
    rw [Store.invalidateApprovals, Store.updateApprovals]
    rw [updateWhere_twice (by simp)]
    congr 2
    funext p
    have hcomm : decide (p.attemptId = a.id) = decide (a.id = p.attemptId) :=
      decide_eq_decide.mpr eq_comm
    rw [any_cons, Bool.and_or_distrib_right, hcomm]

/-- The input that `add_input` saves. -/
private def inputRow (s : Store) (request : InputRequest) : Input :=
  { id := s.nextId, sequence := s.job.inputSequence + 1, authorId := request.actor,
    clientKey := request.clientKey, sourceMessageId := request.sourceMessageId,
    inputType := request.inputType, text := request.text, deliveryState := .pending,
    deliveredAttempt := none, appliedAt := none, receipts := [] }

theorem addedInput_ledger (request : InputRequest) :
    ledger (addedInput s request) = (ledger s).steer (inputRow s request) := by
  have hactive : ∀ p : Approval, (s.attempts.filter (·.active)).any
      (fun a => a.id = p.attemptId) =
      (ledger s).attempts.any fun a => a.active && a.id = p.attemptId := by
    intro p
    show _ = (s.attempts.map Attempt.tenure).any _
    rw [any_filter, any_map]
    rfl
  unfold addedInput Ledger.steer
  by_cases hr : s.job.status ∈ reopened
  · have hr' : (ledger s).status ∈ reopened := hr
    simp only [hr, hr', decide_true, if_true, foldl_invalidate, ← hactive]
    rfl
  · have hr' : (ledger s).status ∉ reopened := hr
    simp only [hr, hr', decide_false, Bool.false_eq_true, if_false]
    rfl

theorem addInput_entries {request : InputRequest} (h : addInput request s = .ok s') :
    Entries site (ledger s) [] (ledger s') := by
  simp only [addInput, bind_eq_ok, agentTransaction_eq_ok] at h
  obtain ⟨-, -, -, -, -, h⟩ := h
  split at h
  · rw [bind_eq_ok, pure_eq_ok] at h
    obtain ⟨-, -, rfl⟩ := h
    exact .refl _
  · simp only [bind_eq_ok, ensure_eq_ok] at h
    obtain ⟨-, ⟨-, hs⟩, -, -, -, hq, -, hstop, -, -, -, -, -, -, h⟩ := h
    rw [ledger_audit h, addedInput_ledger]
    refine .single (.steered (ledger s) (inputRow s request) hs ?_ ⟨rfl, rfl, rfl, rfl, rfl⟩)
    rcases hq with hq | hq
    · exact .inl hq
    · obtain ⟨a, ha⟩ := Option.isSome_iff_exists.mp hq
      obtain ⟨hmem, hactive⟩ := activeAttempt_mem ha
      exact .inr ⟨a.tenure, mem_ledger hmem, hactive, hstop a ha⟩

theorem resumeJob_entries {actor version : ℕ} {checkpointId : Option Uuid}
    (h : resumeJob actor version checkpointId s = .ok s') :
    Entries site (ledger s) [] (ledger s') := by
  simp only [resumeJob, agentTransaction_eq_ok, bind_eq_ok, ensure_eq_ok, pure_eq_ok] at h
  obtain ⟨-, -, -, -, ⟨-, hs⟩, -, hidle, -, -, -, hinputs, -, -, -, -, -, -, -, -, -, -, rfl⟩ := h
  unfold resumed
  rw [ledger_createRow (by rfl) (by simp)]
  refine .single (.resumed (ledger s) hs (idle_of_none hidle) ?_)
  show ∀ i ∈ s.inputs, _
  simpa using hinputs

theorem revokeRunner_entries :
    Entries site (ledger s) (deeds .revokeRunner s) (ledger (revokeRunner s)) := by
  unfold revokeRunner
  rw [deeds]
  by_cases hr : s.runnerRevokedAt.isSome = true
  · simp only [hr, if_true]
    exact .refl _
  simp only [hr, Bool.false_eq_true, if_false]
  have hnone : (ledger s).revokedAt = none := by
    show s.runnerRevokedAt = none
    simpa using hr
  refine (Entries.single (.revoked (ledger s) s.clock hnone)).cast rfl ?_
  have hactive : ∀ o : Option Attempt, o = s.activeAttempt →
      (ledger s).attempts.any (·.active) = o.isSome := by
    rintro o rfl
    rw [activeAttempt, isSome_find?]
    show (s.attempts.map Attempt.tenure).any _ = _
    rw [any_map]
    rfl
  unfold Ledger.revoke
  split
  · next ha =>
    rw [hactive _ rfl] at ha
    split
    · next hnone' =>
      rw [show s.activeAttempt = none from hnone'] at ha
      cases ha
    · have htenures := tenures_update (p := (·.active)) (q := (·.active))
        (f := fun a => { a with processState := .stopping })
        (g := fun a => { a with process := .stopping }) (by intro a; rfl) (by intro a; rfl)
        s.attempts
      exact Ledger.ext rfl rfl rfl rfl rfl rfl rfl rfl htenures.symm rfl rfl rfl rfl
  · next ha =>
    rw [hactive _ rfl] at ha
    split
    · rfl
    · next a hsome =>
      rw [show s.activeAttempt = some a from hsome] at ha
      exact absurd rfl ha

/-! ## Claims -/

theorem requireRunner_ok {u : Unit} (h : s.requireRunner = .ok u) : s.runnerRevokedAt = none := by
  simp only [requireRunner, bind_eq_ok, ensure_eq_ok] at h
  obtain ⟨-, hr, -⟩ := h
  exact hr

theorem claimCandidate_entries {claimKey : Uuid} {id : Option Uuid} (hq : s.job.status = .queued)
    (hr : s.runnerRevokedAt = none) (hkey : s.attempts.find? (·.claimKey = claimKey) = none)
    (h : claimCandidate s claimKey = .ok (id, s')) :
    Entries site (ledger s) (id.toList.map .claimed) (ledger s') := by
  unfold claimCandidate at h
  split at h
  · obtain ⟨rfl, rfl⟩ := h
    exact .single (.overdue (ledger s) hq)
  split at h
  · obtain ⟨rfl, rfl⟩ := h
    exact .refl _
  · next hidle =>
    split at h
    · split at h
      · obtain ⟨rfl, rfl⟩ := h
        exact .refl _
      · cases h
    · next descriptor _ =>
      simp only [bind_eq_ok, pure_eq_ok, Prod.mk.injEq] at h
      obtain ⟨s₁, haudit, rfl, rfl⟩ := h
      rw [ledger_audit haudit]
      have hnone : s.activeAttempt = none := by simpa using hidle
      have hfresh : (ledger s).Fresh (newAttempt s claimKey descriptor).tenure := by
        refine ⟨rfl, ?_, rfl, rfl, rfl, ?_⟩
        · show nextNumber s = ((s.attempts.map Attempt.tenure).map (·.number)).foldl max 0 + 1
          rw [map_map]
          rfl
        · intro b hb
          obtain ⟨a, ha, rfl⟩ := mem_map.mp hb
          have hne := find?_eq_none.mp hkey a ha
          rw [decide_eq_true_eq] at hne
          exact hne
      have hclaim : Ledger.Entry site _ _ _ := Entry.claimed (ledger s) _ hq (idle_of_none hnone) hr hfresh
      refine (Entries.single hclaim).cast rfl ?_
      have hattempts : (s.attempts ++ [newAttempt s claimKey descriptor]).map Attempt.tenure =
          (ledger s).attempts ++ [(newAttempt s claimKey descriptor).tenure] := by
        simp [ledger]
      rw [← hattempts]
      rfl

theorem claimWork_entries {claimKey : Uuid} {id : Option Uuid}
    (h : claimWork claimKey s = .ok (id, s')) :
    Entries site (ledger s) (deeds (.claimWork claimKey) s) (ledger s') := by
  simp only [deeds, claimDeeds, h]
  simp only [claimWork, agentTransaction_eq_ok, bind_eq_ok] at h
  obtain ⟨-, _, hrunner, h⟩ := h
  cases hkey : s.attempts.find? (·.claimKey = claimKey) with
  | some prior =>
    simp only [hkey, pure_eq_ok, Prod.mk.injEq] at h
    obtain ⟨-, rfl⟩ := h
    exact .refl _
  | none =>
    rw [hkey, bind_eq_ok] at h
    obtain ⟨-, -, h⟩ := h
    split at h
    · next hc =>
      have hentries : Entries site _ _ _ := claimCandidate_entries hc.2.2.1 (requireRunner_ok hrunner)
        hkey h
      cases id <;> exact hentries
    · obtain ⟨rfl, rfl⟩ := h
      exact .refl _

/-! ## The runner's side of a lease -/

theorem deliverInputs_entries {items : List Input}
    (h : deliverInputs lease version s = .ok (items, s')) :
    Entries site (ledger s) [.delivered lease.attemptId] (ledger s') := by
  simp only [deliverInputs, agentTransaction_eq_ok, bind_eq_ok, pure_eq_ok, Prod.mk.injEq] at h
  obtain ⟨-, -, -, a, hlock, -, -, -, rfl⟩ := h
  obtain ⟨hmem, hl⟩ := leased_of_locked hlock
  rw [← lockedAttempt_id hlock]
  exact .single (.delivered (ledger s) a.tenure _ hl)

/-- A fence stops the attempt's process, or it does nothing. -/
theorem fence_ledger (s : Store) (a : Attempt) :
    (fenceDeeds s a = [] ∧ fencePreparedResult s a = s) ∨
      fenceDeeds s a = [.fenced a.id] ∧ s.job.status = .verifying ∧ a.active = true ∧
        a.processState = .active ∧
        ledger (fencePreparedResult s a) =
          ((ledger s).updateAttempt a.id fun a => { a with process := .stopping }).bump := by
  unfold fenceDeeds fencePreparedResult
  split
  · exact .inl ⟨rfl, rfl⟩
  · next hc =>
    simp only [not_or, ne_eq, not_not, Bool.not_eq_false] at hc
    obtain ⟨hstatus, -, hactive, hprocess, -⟩ := hc
    refine .inr ⟨rfl, hstatus, hactive, hprocess, ?_⟩
    have hattempt : ledger (s.updateAttempt a.id fun a => { a with processState := .stopping }) =
        (ledger s).updateAttempt a.id fun a => { a with process := .stopping } :=
      ledger_updateAttempt (by intro a; rfl)
    rw [← hattempt]
    rfl

theorem heartbeatLease_entries {identity : LeaseIdentity}
    (h : heartbeatLease s identity = .ok (out, s')) :
    Entries site (ledger s) (leaseDeeds s identity) (ledger s') := by
  obtain ⟨a, hlease, h⟩ := heartbeatLease_ok h
  simp only [leaseDeeds, hlease]
  split at h
  · next hup =>
    obtain ⟨hexec, rfl⟩ := h
    have hactive := hup.1
    rw [if_pos hup]
    have hl := leased_of_ok (lockedLease_ok hlease) hexec
    rw [ledger_updateAttempt (g := fun b => { b with
      expires := min (s.clock + 90) (a.createdAt + a.descriptor.activeSeconds) })
      (by intro b; rfl)]
    have hfirst : Entries site (ledger s) [] ((ledger s).updateAttempt a.id _) :=
      .single (.extended (ledger s) a.tenure
        (min (s.clock + 90) (a.createdAt + a.descriptor.activeSeconds)) hl (min_le_right _ _))
    rcases fence_ledger s a with ⟨hnone, hsame⟩ | ⟨hdeed, hstatus, -, hprocess, hfence⟩
    · rw [hnone, hsame]
      exact hfirst
    · rw [hdeed, hfence]
      -- The lease is extended before the fence: the two writes do not meet.
      have hmem : { a.tenure with
          expires := min (s.clock + 90) (a.createdAt + a.descriptor.activeSeconds) } ∈
          ((ledger s).updateAttempt a.id fun b => { b with
            expires := min (s.clock + 90) (a.createdAt + a.descriptor.activeSeconds) }).attempts :=
        mem_updateAttempt hl.mem
      have hsecond : Ledger.Entry site _ _ _ := Entry.fenced _ _ hmem hactive hprocess hl.unrevoked hstatus
      refine (hfirst.trans (.single hsecond)).cast rfl ?_
      exact congrArg bump (updateAttempt_comm (by intro b; rfl) (by intro b; rfl)
        (by intro b; rfl))
  · next hup =>
    rw [if_neg hup, h]
    exact .refl _

theorem heartbeatLeases_entries (h : heartbeatLeases identities s = .ok (out, s')) :
    Entries site (ledger s) (heartbeatDeeds identities s) (ledger s') := by
  induction identities generalizing s out with
  | nil =>
    obtain ⟨-, rfl⟩ := h
    exact .refl _
  | cons identity rest ih =>
    simp only [heartbeatLeases, bind_eq_ok, pure_eq_ok, Prod.mk.injEq] at h
    obtain ⟨⟨first, s₁⟩, h₁, ⟨others, s₂⟩, h₂, -, rfl⟩ := h
    rw [heartbeatDeeds, h₁]
    exact (heartbeatLease_entries h₁).trans (ih h₂)

theorem heartbeat_entries (h : heartbeat identities s = .ok (out, s')) :
    Entries site (ledger s) (deeds (.heartbeat identities) s) (ledger s') := by
  exact heartbeatLeases_entries (required_ok h)

theorem controlAttempt_entries (ha : a ∈ s.attempts) (hactive : a.active = true)
    (h : controlAttempt s a = .ok s') : Entries site (ledger s) (controlDeeds s a) (ledger s') := by
  unfold controlAttempt at h
  unfold controlDeeds
  split at h
  · next hp =>
    rw [if_pos hp]
    cases hexec : s.requireExecution a with
    | ok u =>
      rw [hexec, ok.injEq] at h
      subst h
      have hl := leased_of_ok ha hexec
      rcases fence_ledger s a with ⟨hnone, hsame⟩ | ⟨hdeed, hstatus, -, hprocess, hfence⟩
      · rw [hnone, hsame]
        exact .refl _
      · rw [hdeed, hfence]
        exact .single (.fenced (ledger s) a.tenure hl.mem hactive hprocess hl.unrevoked hstatus)
    | error fault =>
      simp only [hexec] at h
      split at h
      · exact requestStop_entries ha hactive (by decide) h
      · cases h
  · next hp =>
    rw [ok.injEq] at h
    subst h
    rw [if_neg hp]
    exact .refl _

theorem controls_entries (h : controls s = .ok (out, s')) :
    Entries site (ledger s) (deeds .controls s) (ledger s') := by
  simp only [controls, agentTransaction_eq_ok, bind_eq_ok, pure_eq_ok, Prod.mk.injEq] at h
  obtain ⟨-, -, -, s₁, h, -, rfl⟩ := h
  rw [deeds]
  cases ha : s.activeAttempt with
  | none =>
    simp only [ha, Option.elim_none, pure_eq_ok] at h
    subst h
    exact .refl _
  | some a =>
    obtain ⟨hmem, hactive⟩ := activeAttempt_mem ha
    simp only [ha, Option.elim_some] at h ⊢
    exact controlAttempt_entries hmem hactive h

theorem saveCheckpoint_entries
    {checkpoint : Checkpoint} (h : saveCheckpoint lease version checkpoint s = .ok s') :
    Entries site (ledger s) [] (ledger s') := by
  simp only [saveCheckpoint, agentTransaction_eq_ok, bind_eq_ok] at h
  obtain ⟨-, -, -, a, -, -, -, -, -, -, -, -, -, h⟩ := h
  split at h
  · rw [bind_eq_ok, pure_eq_ok] at h
    obtain ⟨-, -, rfl⟩ := h
    exact .refl _
  · rw [bind_eq_ok, pure_eq_ok] at h
    obtain ⟨-, -, rfl⟩ := h
    exact (Entries.refl (ledger s)).cast rfl (ledger_touch (s := s) (by intro a; rfl)).symm

theorem inOrder_of_ok {n : ℕ} (h : inOrder s n = true) : (ledger s).InOrder n := by
  intro i hi hlt
  simp only [inOrder, all_eq_true, Bool.not_eq_true', Bool.and_eq_false_imp, decide_eq_true_eq] at h
  exact h i hi hlt

theorem reconcileInput_entries {request : InputReconciliation}
    (h : reconcileInput lease request s = .ok s') : Entries site (ledger s) [] (ledger s') := by
  simp only [reconcileInput, agentTransaction_eq_ok, bind_eq_ok, one_eq_ok] at h
  obtain ⟨-, -, -, a, -, -, -, -, -, -, -, input, hfind, h⟩ := h
  split at h
  · rw [bind_eq_ok, pure_eq_ok] at h
    obtain ⟨-, -, rfl⟩ := h
    exact .refl _
  · simp only [bind_eq_ok, ensure_eq_ok, pure_eq_ok] at h
    obtain ⟨-, -, -, -, -, ⟨hdelivered, hstate⟩, -, horder, rfl⟩ := h
    refine .single (.reconciled (ledger s) input
      ⟨request.applied, request.receiptId, a.id, lease.leaseEpoch⟩ s.clock
      (mem_of_find?_eq_some hfind) hdelivered hstate ?_)
    intro happlied
    rcases horder with hfalse | horder
    · rw [show request.applied = true from happlied] at hfalse
      cases hfalse
    · exact inOrder_of_ok horder

end GrowTeam.Server
