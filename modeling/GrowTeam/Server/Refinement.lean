/-
# Transactions take turns of the life cycle

What an accepted call does to the outline of its job, one lemma for each function of the
server: here the ones people ask for and the runner's side of a lease, all of which follow
a path of turns.
-/
import GrowTeam.Server.Lifecycle
import GrowTeam.Server.Machine

namespace GrowTeam.Server

open Outline List Except Store

variable {site : Site} {s s' : Store}

/-! ## Outlines of updated stores -/

theorem outline_audit {type : String} {attemptId : Option Uuid} {event : Option RunnerEvent}
    (h : s.audit type attemptId event = .ok s') : outline s' = outline s := by
  simp only [audit, bind_eq_ok, pure_eq_ok] at h
  obtain ⟨-, -, rfl⟩ := h
  rfl

theorem outline_transition (status : JobState) (reason : String) :
    outline (s.transition status reason) =
      { outline s with status := status, reason := reason } := rfl

theorem outline_addAttempt (a : Attempt) :
    outline { s with attempts := s.attempts ++ [a] } =
      { outline s with leases := (outline s).leases ++ [a.view] } := by
  simp only [outline, map_append, map_singleton]
  rfl

theorem outline_updateAttempts {p : Attempt → Bool} {f : Attempt → Attempt}
    (hf : ∀ a, (f a).view = a.view) :
    outline { s with attempts := updateWhere p f s.attempts } = outline s := by
  have hviews : (updateWhere p f s.attempts).map Attempt.view = s.attempts.map Attempt.view := by
    rw [updateWhere, map_map]
    apply map_congr_left
    intro a ha
    show (if _ then f a else a).view = a.view
    split
    · exact hf a
    · rfl
  rw [outline, hviews]
  rfl

theorem outline_updateAttempt {id : Uuid} {f : Attempt → Attempt}
    (hf : ∀ a, (f a).view = a.view) : outline (s.updateAttempt id f) = outline s :=
  outline_updateAttempts hf

theorem outline_addInput {i : Input} (hi : i.deliveryState ≠ .cancelled) :
    outline { s with inputs := s.inputs ++ [i] } = outline s := by
  simp only [outline, any_append, any_cons, any_nil, hi, decide_false, Bool.or_false]
  rfl

/-- An update that cancels no input. -/
theorem outline_updateInputs {p : Input → Bool} {f : Input → Input}
    (hS : (outline s).cancelledInput = false)
    (hf : ∀ i, i.deliveryState ≠ .cancelled → (f i).deliveryState ≠ .cancelled) :
    outline (s.updateInputs p f) = outline s := by
  have hnone : ∀ i ∈ s.inputs, i.deliveryState ≠ .cancelled := by
    intro i hi hc
    have hany : s.inputs.any (·.deliveryState = .cancelled) = false := hS
    simp only [any_eq_false, decide_eq_true_eq] at hany
    exact hany i hi hc
  have hany : (updateWhere p f s.inputs).any (·.deliveryState = .cancelled) = false := by
    simp only [updateWhere, any_eq_false, mem_map, decide_eq_true_eq]
    rintro _ ⟨i, hi, rfl⟩
    split
    · exact hf i (hnone i hi)
    · exact hnone i hi
  have hold : s.inputs.any (·.deliveryState = .cancelled) = false := hS
  simp only [outline, updateInputs, hany, hold]
  rfl

variable {f : OutboxRow → OutboxRow} {key : DeliveryKey} {lease : LeaseIdentity} {a : Attempt}
  {version : Option ℕ} {out : List LeaseControl}

section

variable (hkey : (f (s.newRow key)).key = key)

include hkey

theorem row_createRow (k : DeliveryKey) : (s.createRow key f).row k =
      (s.row k).or (if key = k then some (f (s.newRow key)) else none) := by
  unfold Store.row createRow
  rw [find?_append, find?_singleton, hkey]
  simp

/-- A row of another key. -/
theorem outline_createRow (hne : key ≠ .result) : outline (s.createRow key f) = outline s := by
  have hrow : (s.createRow key f).row .result = s.row .result := by
    rw [row_createRow hkey, if_neg hne, Option.or_none]
  rw [outline, hrow]
  rfl

theorem outline_getOrCreateRow (hne : key ≠ .result) :
    outline (s.getOrCreateRow key f) = outline s := by
  unfold getOrCreateRow
  split
  · rfl
  · exact outline_createRow hkey hne

end

theorem row_updateRows {p : OutboxRow → Bool}
    (hkey : ∀ row, (f row).key = row.key) (k : DeliveryKey) :
    (s.updateRows p f).row k = (s.row k).map fun row => if p row then f row else row := by
  have hrows : ∀ rows : List OutboxRow, (updateWhere p f rows).find? (·.key = k) =
      (rows.find? (·.key = k)).map fun row => if p row then f row else row := by
    intro rows
    induction rows with
    | nil => rfl
    | cons row rows ih =>
      have hsame : (if p row then f row else row).key = row.key := by
        split
        · exact hkey row
        · rfl
      by_cases hk : row.key = k
      · simp [updateWhere, hsame, hk]
      · have hstep := ih
        rw [updateWhere] at hstep
        simp [updateWhere, hsame, hk, hstep]
  exact hrows s.outbox

/-- The result's row after `update_or_create`. -/
theorem outline_updateOrCreateRow {state : OutboxState}
    (hkey : ∀ row, (f row).key = row.key) (hstate : ∀ row, (f row).status = state) :
    outline (s.updateOrCreateRow .result f) = { outline s with row := some state } := by
  unfold updateOrCreateRow
  split
  · next hsome =>
    obtain ⟨row, hrow⟩ := Option.isSome_iff_exists.mp hsome
    have hk : row.key = .result := by simpa using find?_some hrow
    have hnew : ((s.updateRows (·.key = .result) f).row .result).map (·.status) = some state := by
      rw [row_updateRows hkey, hrow]
      simp [hk, hstate]
    rw [outline, hnew]
    rfl
  · next hnone =>
    have hnone : s.row .result = none := by simpa using hnone
    have hnew : ((s.createRow .result f).row .result).map (·.status) = some state := by
      rw [row_createRow (hkey _), hnone]
      simp [hstate]
    rw [outline, hnew]
    rfl

/-! ## Leases and stops -/

theorem path_of_eq (h : outline s' = outline s) : Path (outline s) (outline s') := by
  rw [h]

theorem lockedLease_ok (h : s.lockedLease lease version = .ok a) : a ∈ s.attempts := by
  simp only [lockedLease, bind_eq_ok, pure_eq_ok, one_eq_ok] at h
  obtain ⟨a', hfind, -, -, rfl⟩ := h
  exact mem_of_find?_eq_some hfind

/-- What an execution lease says of the job and of the attempt. -/
structure Executing (s : Store) (a : Attempt) : Prop where
  active : a.active = true
  status : s.job.status ∈ executing

theorem requireExecution_ok {u : Unit} (h : s.requireExecution a = .ok u) : Executing s a := by
  simp only [requireExecution, bind_eq_ok, ensure_eq_ok] at h
  obtain ⟨-, ⟨-, hactive, -, -, hstatus⟩, -⟩ := h
  exact ⟨hactive, hstatus⟩

theorem lockedAttempt_ok
    (h : s.lockedAttempt lease version = .ok a) : a ∈ s.attempts ∧ Executing s a := by
  simp only [lockedAttempt, bind_eq_ok, pure_eq_ok] at h
  obtain ⟨a', hlease, _, hexec, rfl⟩ := h
  exact ⟨lockedLease_ok hlease, requireExecution_ok hexec⟩

theorem Executing.open (h : Executing s a) : (outline s).status ≠ .completed := by
  intro hc
  have hstatus := h.status
  rw [show s.job.status = .completed from hc] at hstatus
  exact absurd hstatus (by decide)

/-- Outside verification an executing job works. -/
theorem Executing.working (h : Executing s a)
    (hv : s.job.status ≠ .verifying) : (outline s).status ∈ workingStatuses := by
  have hstatus := h.status
  show s.job.status ∈ workingStatuses
  revert hstatus hv
  cases s.job.status <;> decide

theorem open_of_active (hS : Sound site (outline s)) (ha : a ∈ s.attempts)
    (hactive : a.active = true) : (outline s).status ≠ .completed := by
  intro hc
  have hfalse := hS.contained hc a.view (mem_map_of_mem ha)
  rw [show a.view.active = a.active from rfl, hactive] at hfalse
  cases hfalse

theorem activeAttempt_mem (h : s.activeAttempt = some a) : a ∈ s.attempts ∧ a.active = true :=
  ⟨mem_of_find?_eq_some h, by simpa using find?_some h⟩

theorem idle_of_activeAttempt (h : s.activeAttempt = none) : (outline s).Idle := by
  intro l hl
  obtain ⟨a, ha, rfl⟩ := mem_map.mp hl
  show a.active = false
  simpa using find?_eq_none.mp h a ha

/-- `request_stop` halts the job. -/
theorem requestStop_path {attempt : Option Attempt} {target : StopTarget} {reason : String}
    (hopen : (outline s).status ≠ .completed) (h : s.requestStop attempt target reason = .ok s') :
    Path (outline s) (outline s') := by
  have hstay : ∀ status : JobState, status ∈ haltedStatuses →
      outline s' = { outline s with status := status, reason := reason } →
      Path (outline s) (outline s') := by
    intro status hstatus heq
    rw [heq]
    exact .single (.halted _ status reason hopen hstatus)
  cases attempt with
  | none =>
    rw [requestStop, ok.injEq] at h
    subst h
    exact hstay target.status (by cases target <;> decide) rfl
  | some a =>
    refine hstay .cancelRequested (by decide) ?_
    rw [outline_audit h, outline_getOrCreateRow (by rfl) (by simp)]
    have hattempt : outline ((s.updateJob fun job => { job with stopTarget := target }).updateAttempt
        a.id fun a => { a with processState := .stopping }) = outline s := by
      rw [outline_updateAttempt (by intro a; rfl)]
      rfl
    rw [← hattempt]
    rfl

/-! ## Job transactions -/

theorem completeDraft_path {request : DraftRequest} (h : completeDraft request s = .ok s') :
    Path (outline s) (outline s') := by
  have h := required_ok h
  cases hd : s.job.draftCompletion with
  | some receipt =>
    simp only [hd, bind_eq_ok, pure_eq_ok] at h
    obtain ⟨-, -, rfl⟩ := h
    exact .refl
  | none =>
    simp only [hd, bind_eq_ok, ensure_eq_ok] at h
    obtain ⟨-, ⟨hdraft, -, -⟩, -, -, -, -, -, -, -, -, h⟩ := h
    rw [outline_audit h]
    refine .single ?_
    have heq : outline (completedDraft s request) = { outline s with
        status := .queued, reason := "", proposal := none, receipt := none, messageId := none } := by
      unfold completedDraft
      rw [outline_createRow (by rfl) (by simp)]
      rfl
    rw [heq]
    exact .draftCompleted _ hdraft

theorem number_lt_nextNumber (ha : a ∈ s.attempts) : a.number < nextNumber s := by
  have hfold : ∀ (ns : List ℕ) (m : ℕ), m ≤ ns.foldl max m ∧ ∀ n ∈ ns, n ≤ ns.foldl max m := by
    intro ns
    induction ns with
    | nil => exact fun m => ⟨le_rfl, by simp⟩
    | cons k ns ih =>
      intro m
      obtain ⟨hm, hall⟩ := ih (max m k)
      refine ⟨le_trans (le_max_left _ _) hm, ?_⟩
      intro n hn
      rcases mem_cons.mp hn with rfl | hn
      · exact le_trans (le_max_right _ _) hm
      · exact hall n hn
  have hle := (hfold (s.attempts.map (·.number)) 0).2 a.number (mem_map_of_mem ha)
  unfold nextNumber
  omega

theorem claimCandidate_path {claimKey : Uuid} {id : Option Uuid} (hq : s.job.status = .queued)
    (h : claimCandidate s claimKey = .ok (id, s')) : Path (outline s) (outline s') := by
  unfold claimCandidate at h
  split at h
  · obtain ⟨-, rfl⟩ := h
    refine .single (.halted _ .blocked _ ?_ (by decide))
    show s.job.status ≠ .completed
    rw [hq]
    decide
  split at h
  · obtain ⟨-, rfl⟩ := h
    exact .refl
  · next hidle =>
    split at h
    · split at h
      · obtain ⟨-, rfl⟩ := h
        exact .refl
      · cases h
    · simp only [bind_eq_ok, pure_eq_ok, Prod.mk.injEq] at h
      obtain ⟨s₁, haudit, -, rfl⟩ := h
      rw [outline_audit haudit]
      -- The new attempt first takes an id, then the job is claimed.
      refine .tail (.single (.allocated _ (s.nextId + 1) (Nat.le_succ _))) ?_
      have hnone : s.activeAttempt = none := by simpa using hidle
      have hclaim := Turn.claimed { outline s with nextId := s.nextId + 1 } s.nextId
        (nextNumber s) hq (idle_of_activeAttempt hnone) (by
          intro l hl
          obtain ⟨a, ha, rfl⟩ := mem_map.mp hl
          exact number_lt_nextNumber ha)
      rw [outline_transition]
      exact (outline_addAttempt (s := s.allocate) _) ▸ hclaim

theorem claimWork_path {claimKey : Uuid} {id : Option Uuid}
    (h : claimWork claimKey s = .ok (id, s')) : Path (outline s) (outline s') := by
  have h := required_ok h
  split at h
  · obtain ⟨-, rfl⟩ := h
    exact .refl
  · rw [bind_eq_ok] at h
    obtain ⟨-, -, h⟩ := h
    split at h
    · next hc => exact claimCandidate_path hc.2.2.1 h
    · obtain ⟨-, rfl⟩ := h
      exact .refl

theorem cancelJob_path {actor version : ℕ} (h : cancelJob actor version s = .ok s') :
    Path (outline s) (outline s') := by
  have h := required_ok h
  split at h
  · rw [pure_eq_ok] at h
    subst h
    exact .refl
  · simp only [bind_eq_ok, ensure_eq_ok] at h
    obtain ⟨-, ⟨-, hopen⟩, h⟩ := h
    exact requestStop_path hopen h

theorem outline_invalidateAll (attempts : List Attempt) :
    outline (attempts.foldl (fun s a => s.invalidateApprovals a.id) s) = outline s := by
  induction attempts generalizing s with
  | nil => rfl
  | cons a attempts ih => exact ih

theorem addedInput_path (request : InputRequest) :
    Path (outline s) (outline (addedInput s request)) := by
  unfold addedInput
  have hinput : ∀ (s₁ : Store) (i : Input), i.deliveryState ≠ .cancelled →
      outline { s₁.allocate with inputs := s₁.inputs ++ [i] } =
        { outline s₁ with nextId := s₁.nextId + 1 } :=
    fun s₁ i hi => outline_addInput (s := s₁.allocate) hi
  have hfresh : ∀ s₁ : Store, Path (outline s₁) { outline s₁ with nextId := s₁.nextId + 1 } :=
    fun s₁ => .single (.allocated _ _ (Nat.le_succ _))
  by_cases hr : s.job.status ∈ reopened
  · simp only [hr, decide_true, if_true]
    rw [hinput _ _ (by simp)]
    refine .trans ?_ (hfresh _)
    rw [outline_invalidateAll]
    exact .single (.steered (outline s) hr)
  · simp only [hr, decide_false, Bool.false_eq_true, if_false]
    rw [hinput _ _ (by simp)]
    exact hfresh s

theorem addInput_path {request : InputRequest} (h : addInput request s = .ok s') :
    Path (outline s) (outline s') := by
  simp only [addInput, bind_eq_ok, agentTransaction_eq_ok] at h
  obtain ⟨-, -, -, -, -, h⟩ := h
  split at h
  · rw [bind_eq_ok, pure_eq_ok] at h
    obtain ⟨-, -, rfl⟩ := h
    exact .refl
  · simp only [bind_eq_ok] at h
    obtain ⟨-, -, -, -, -, -, -, -, -, -, -, -, -, -, h⟩ := h
    rw [outline_audit h]
    exact addedInput_path request

theorem resumed_path (checkpointId : Option Uuid)
    (hs : s.job.status ∈ [.cancelled, .failed, .interrupted, .blocked]) :
    Path (outline s) (outline (resumed s checkpointId)) := by
  unfold resumed
  rw [outline_createRow (by rfl) (by simp)]
  exact .single (.resumed (outline s) hs)

theorem resumeJob_path {actor version : ℕ} {checkpointId : Option Uuid}
    (h : resumeJob actor version checkpointId s = .ok s') : Path (outline s) (outline s') := by
  simp only [resumeJob, agentTransaction_eq_ok, bind_eq_ok, ensure_eq_ok, pure_eq_ok] at h
  obtain ⟨-, -, -, -, ⟨-, hs⟩, -, -, -, -, -, -, -, -, -, -, -, -, -, -, -, -, -, rfl⟩ := h
  exact resumed_path checkpointId hs

theorem revokeRunner_path (hS : Sound site (outline s)) :
    Path (outline s) (outline (revokeRunner s)) := by
  unfold revokeRunner
  split
  · exact .refl
  dsimp only
  split
  · exact .refl
  · next a ha =>
    have hactive : s.activeAttempt = some a := ha
    obtain ⟨hmem, hact⟩ := activeAttempt_mem hactive
    rw [outline_updateAttempts (by intro a; rfl)]
    exact .single (.halted (outline s) .cancelRequested s.job.blockedReason
      (open_of_active hS hmem hact) (by decide))

/-! ## Lease transactions -/

theorem deliverInputs_path {items : List Input}
    (hS : Sound site (outline s)) (h : deliverInputs lease version s = .ok (items, s')) :
    Path (outline s) (outline s') := by
  simp only [deliverInputs, agentTransaction_eq_ok, bind_eq_ok, pure_eq_ok, Prod.mk.injEq] at h
  obtain ⟨-, -, -, a, -, -, -, -, rfl⟩ := h
  exact path_of_eq (outline_updateInputs hS.applied (by simp))

theorem outline_fence (s : Store) (a : Attempt) :
    outline (fencePreparedResult s a) = outline s := by
  unfold fencePreparedResult
  split
  · rfl
  · exact outline_updateAttempt (s := s) (by intro a; rfl)

/-- A heartbeat extends the lease of an attempt that executes, or does nothing. -/
theorem heartbeatLease_ok {identity : LeaseIdentity}
    (h : heartbeatLease s identity = .ok (out, s')) : ∃ a, s.lockedLease identity none = .ok a ∧
      if a.active = true ∧ a.processState ∈ [.starting, .active] ∧ s.job.status ∈ executing then
        s.requireExecution a = .ok () ∧ s' = (fencePreparedResult s a).updateAttempt a.id fun b =>
          { b with leaseExpiresAt := min (s.clock + 90) (a.createdAt + a.descriptor.activeSeconds) }
      else s' = s := by
  rw [heartbeatLease, bind_eq_ok] at h
  obtain ⟨a, hlease, h⟩ := h
  refine ⟨a, hlease, ?_⟩
  split at h
  · next hinactive =>
    obtain ⟨-, rfl⟩ := h
    simp [hinactive]
  next hactive =>
  split at h
  · next hup =>
    simp only [bind_eq_ok, pure_eq_ok, Prod.mk.injEq] at h
    obtain ⟨_, hexec, -, rfl⟩ := h
    rw [if_pos ⟨by simpa using hactive, hup⟩]
    exact ⟨hexec, rfl⟩
  · next hup =>
    obtain ⟨-, rfl⟩ := h
    rw [if_neg fun hboth => hup hboth.2]

theorem outline_heartbeatLease {identity : LeaseIdentity}
    (h : heartbeatLease s identity = .ok (out, s')) : outline s' = outline s := by
  obtain ⟨a, -, h⟩ := heartbeatLease_ok h
  split at h
  · rw [h.2, outline_updateAttempt (by intro a; rfl), outline_fence]
  · rw [h]

variable {identities : List LeaseIdentity}

theorem outline_heartbeatLeases
    (h : heartbeatLeases identities s = .ok (out, s')) : outline s' = outline s := by
  induction identities generalizing s out with
  | nil =>
    obtain ⟨-, rfl⟩ := h
    rfl
  | cons identity rest ih =>
    simp only [heartbeatLeases, bind_eq_ok, pure_eq_ok, Prod.mk.injEq] at h
    obtain ⟨⟨first, s₁⟩, h₁, ⟨others, s₂⟩, h₂, -, rfl⟩ := h
    exact (ih h₂).trans (outline_heartbeatLease h₁)

theorem heartbeat_path
    (h : heartbeat identities s = .ok (out, s')) : Path (outline s) (outline s') := by
  exact path_of_eq (outline_heartbeatLeases (required_ok h))

theorem controls_path (hS : Sound site (outline s))
    (h : controls s = .ok (out, s')) : Path (outline s) (outline s') := by
  simp only [controls, agentTransaction_eq_ok, bind_eq_ok, pure_eq_ok, Prod.mk.injEq] at h
  obtain ⟨-, -, -, s₁, h, -, rfl⟩ := h
  cases ha : s.activeAttempt with
  | none =>
    simp only [ha, Option.elim_none, pure_eq_ok] at h
    subst h
    exact .refl
  | some a =>
    obtain ⟨hmem, hact⟩ := activeAttempt_mem ha
    simp only [ha, Option.elim_some, controlAttempt] at h
    split at h
    · split at h
      · rw [ok.injEq] at h
        subst h
        exact path_of_eq (outline_fence s a)
      · split at h
        · exact requestStop_path (open_of_active hS hmem hact) h
        · cases h
    · rw [ok.injEq] at h
      subst h
      exact .refl

theorem saveCheckpoint_path {checkpoint : Checkpoint}
    (h : saveCheckpoint lease version checkpoint s = .ok s') : Path (outline s) (outline s') := by
  simp only [saveCheckpoint, agentTransaction_eq_ok, bind_eq_ok] at h
  obtain ⟨-, -, -, a, -, -, -, -, -, -, -, -, -, h⟩ := h
  split at h
  · rw [bind_eq_ok, pure_eq_ok] at h
    obtain ⟨-, -, rfl⟩ := h
    exact .refl
  · rw [bind_eq_ok, pure_eq_ok] at h
    obtain ⟨-, -, rfl⟩ := h
    exact path_of_eq (outline_updateAttempt (s := s) (by intro a; rfl))

theorem reconcileInput_path {request : InputReconciliation}
    (hS : Sound site (outline s)) (h : reconcileInput lease request s = .ok s') :
    Path (outline s) (outline s') := by
  simp only [reconcileInput, agentTransaction_eq_ok, bind_eq_ok] at h
  obtain ⟨-, -, -, a, -, -, -, -, -, -, -, input, -, h⟩ := h
  split at h
  · rw [bind_eq_ok, pure_eq_ok] at h
    obtain ⟨-, -, rfl⟩ := h
    exact .refl
  · simp only [bind_eq_ok, pure_eq_ok] at h
    obtain ⟨-, -, -, -, -, -, -, -, rfl⟩ := h
    refine path_of_eq (outline_updateInputs hS.applied ?_)
    intro i hi
    split <;> simp

end GrowTeam.Server
