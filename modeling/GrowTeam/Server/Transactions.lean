/-
# Rows, transactions and the checks they share

A transaction is a function from a store to a fault or to a new store: a fault rolls every
write back.  `agentTransaction` (`zerver/lib/agent_context.py`) takes one lock for all
agent writes, so such transactions never overlap; the functions below are the pieces of
`zerver/actions/agent_jobs.py` that several of them use.
-/
import GrowTeam.Server.Records
import Mathlib.Data.List.Nodup

namespace GrowTeam.Server

open List

/-! ## Results -/

/-- What a transaction computes. -/
abbrev Result := Except Fault

variable {α β : Type}

/-- `if not …: raise ValueError(message)`. -/
def ensure (c : Prop) [Decidable c] (message : String) : Result Unit :=
  if c then .ok () else .error (.value message)

/-- `objects.get(…)`. -/
def one (xs : List α) (p : α → Bool) : Result α :=
  match xs.find? p with
  | some x => .ok x
  | none => .error .missing

/-- `if value is None: raise ValueError(message)`. -/
def present (x : Option α) (message : String) : Result α :=
  match x with
  | some a => .ok a
  | none => .error (.value message)

@[simp] theorem bind_eq_ok {x : Result α} {f : α → Result β} {b : β} :
    (x >>= f) = .ok b ↔ ∃ a, x = .ok a ∧ f a = .ok b := by
  cases x with
  | error e =>
    constructor
    · rintro ⟨⟩
    · rintro ⟨a, ⟨⟩, -⟩
  | ok a =>
    constructor
    · exact fun h => ⟨a, rfl, h⟩
    · rintro ⟨a, ⟨⟩, h⟩
      exact h

@[simp] theorem pure_eq_ok {a b : α} : (pure a : Result α) = .ok b ↔ a = b := by
  show (Except.ok a : Result α) = .ok b ↔ a = b
  simp

@[simp] theorem ensure_eq_ok {c : Prop} [Decidable c] {message : String} {u : Unit} :
    ensure c message = .ok u ↔ c := by
  unfold ensure
  split <;> simp_all

@[simp] theorem one_eq_ok {xs : List α} {p : α → Bool} {x : α} :
    one xs p = .ok x ↔ xs.find? p = some x := by
  unfold one
  cases xs.find? p <;> simp

@[simp] theorem present_eq_ok {x : Option α} {message : String} {a : α} :
    present x message = .ok a ↔ x = some a := by
  unfold present
  cases x <;> simp

/-! ## Updates of rows -/

/-- `objects.filter(p).update(f)`. -/
def updateWhere (p : α → Bool) (f : α → α) (xs : List α) : List α :=
  xs.map fun x => if p x then f x else x

namespace Store

variable (s : Store)

/-- `job.save(update_fields=…)`. -/
def updateJob (f : Job → Job) : Store := { s with job := f s.job }

/-- `attempt.save()`. -/
def updateAttempt (id : Uuid) (f : Attempt → Attempt) : Store :=
  { s with attempts := updateWhere (fun a => a.id = id) f s.attempts }

/-- An update of the job's inputs. -/
def updateInputs (p : Input → Bool) (f : Input → Input) : Store :=
  { s with inputs := updateWhere p f s.inputs }

/-- An update of the job's operations. -/
def updateOperations (p : Operation → Bool) (f : Operation → Operation) : Store :=
  { s with operations := updateWhere p f s.operations }

/-- An update of the job's approvals. -/
def updateApprovals (p : Approval → Bool) (f : Approval → Approval) : Store :=
  { s with approvals := updateWhere p f s.approvals }

/-- An update of outbox rows. -/
def updateRows (p : OutboxRow → Bool) (f : OutboxRow → OutboxRow) : Store :=
  { s with outbox := updateWhere p f s.outbox }

/-- A new id. -/
def allocate : Store := { s with nextId := s.nextId + 1 }

variable (key : DeliveryKey)

/-- The outbox row of a key. -/
def row : Option OutboxRow := s.outbox.find? (·.key = key)

/-- A row as `objects.create(delivery_key=key, …)` starts it. -/
def newRow : OutboxRow :=
  { key := key, payloadRef := none, attemptCount := 0, nextAttemptAt := s.clock,
    status := .pending, deliveredAt := none }

/-- `objects.create(delivery_key=key)`. -/
def createRow (f : OutboxRow → OutboxRow) : Store :=
  { s with outbox := s.outbox ++ [f (s.newRow key)] }

/-- `objects.update_or_create(delivery_key=key, defaults=f)`. -/
def updateOrCreateRow (f : OutboxRow → OutboxRow) : Store :=
  if (s.row key).isSome then s.updateRows (·.key = key) f else s.createRow key f

/-- `objects.get_or_create(delivery_key=key, defaults=f)`. -/
def getOrCreateRow (f : OutboxRow → OutboxRow) : Store :=
  if (s.row key).isSome then s else s.createRow key f

/-! ## Queries -/

/-- `filter(job=job, active=True).first()`. -/
def activeAttempt : Option Attempt := s.attempts.find? (·.active)

/-- `filter(job=job).order_by("-number").first()`. -/
def latestAttempt : Option Attempt :=
  s.attempts.find? fun a => s.attempts.all (·.number ≤ a.number)

/-- Whether an attempt with a higher number exists. -/
def superseded (a : Attempt) : Bool := s.attempts.any (a.number < ·.number)

/-- `delivery_state__in=["pending", "delivered", "delivery_uncertain"]`. -/
def unapplied (i : Input) : Bool :=
  i.deliveryState ∈ [.pending, .delivered, .deliveryUncertain]

/-- `status__in=["started", "outcome_unknown"]`, without the team tools. -/
def unresolved (o : Operation) : Bool :=
  o.status ∈ [.started, .outcomeUnknown] && o.toolClass ≠ .teamManage

variable (attemptId : Uuid)

/-- The artifacts of an attempt that can still be read. -/
def available (ids : List Uuid) : List Artifact :=
  s.artifacts.filter fun a => a.id ∈ ids && a.attemptId = attemptId && a.unavailableAt.isNone

/-! ## Transitions -/

def transition (status : JobState) (reason : String) : Store :=
  s.updateJob fun job =>
    { job with status := status, blockedReason := reason, version := job.version + 1 }

/-- `audit`: the payload is rejected when it holds a secret. -/
def audit (type : String) (attemptId : Option Uuid) (event : Option RunnerEvent) :
    Result Store := do
  s.world.check (.audit type)
  let s := s.updateJob fun job => { job with eventSequence := job.eventSequence + 1 }
  pure { s with audits := s.audits ++ [⟨s.job.eventSequence, type, attemptId, event⟩] }

def invalidateApprovals : Store :=
  s.updateApprovals (fun a => a.attemptId = attemptId && a.decision ∈ [.pending, .approved])
    fun a => { a with decision := .cancelled }

/-- The started operations of an attempt whose process was lost. -/
def loseOperations : Store :=
  s.updateOperations (fun o => o.attemptId = attemptId && o.status = .started)
    fun o => { o with status := .outcomeUnknown }

/-- The delivered inputs of an attempt whose process was lost. -/
def loseInputs : Store :=
  s.updateInputs (fun i => i.deliveredAttempt = some attemptId && i.deliveryState = .delivered)
    fun i => { i with deliveryState := .deliveryUncertain }

def requestStop (attempt : Option Attempt) (target : StopTarget) (reason : String) : Result Store :=
  let s := s.updateJob fun job => { job with stopTarget := target }
  match attempt with
  | none => .ok (s.transition target.status reason)
  | some a =>
    ((((s.updateAttempt a.id fun a => { a with processState := .stopping }).invalidateApprovals
      a.id).transition .cancelRequested reason).getOrCreateRow (.stop a.id)
        fun row => { row with payloadRef := some a.id }).audit "attempt.stop_requested" a.id none

/-! ## Checks -/

def requireAudience : Result AudienceBinding := do
  let current ← s.world.audience
  if current = s.job.audienceBinding then pure current else .error .audienceChanged

/-- Whether a permission is within the configuration the attempt was tested with. -/
def tested (attempt : Attempt) : Permission → Bool
  | .profileUse | .perform .teamManage => true
  | .perform action => action ∈ attempt.descriptor.testedActions

def checkAttemptAccess (actor : ℕ) (attempt : Attempt) (permission : Permission) : Result Unit :=
  if s.world.policyVersion = attempt.descriptor.policyVersion ∧ tested attempt permission = true ∧
      s.job.sourceMessageId.isSome = true then
    s.world.check (.attemptAccess actor permission)
  else .error .denied

/-- The execution half of `locked_attempt`. -/
def requireExecution (attempt : Attempt) : Result Unit := do
  ensure (s.runnerRevokedAt = none ∧ attempt.active = true ∧ s.clock < attempt.leaseExpiresAt ∧
      attempt.processState ∈ [.starting, .active] ∧ s.job.status ∈ executing)
    "Execution lease is unavailable."
  ensure (s.clock - attempt.createdAt ≤ attempt.descriptor.activeSeconds)
    "Job time budget exhausted."
  let _ ← s.requireAudience
  ensure (attempt.audienceBinding = s.job.audienceBinding) "Attempt audience changed."
  s.checkAttemptAccess s.job.requesterId attempt .profileUse

/-- `locked_attempt(…, execution=False)`.  Only the job's own runner is modelled: for any
other one `get` finds no row. -/
def lockedLease (lease : LeaseIdentity) (expectedVersion : Option ℕ) : Result Attempt := do
  let attempt ← one s.attempts fun a =>
    s.job.id = lease.jobId && a.id = lease.attemptId && a.leaseEpoch = lease.leaseEpoch
  ensure (∀ version ∈ expectedVersion, version = s.job.version) "Job version changed."
  pure attempt

def lockedAttempt (lease : LeaseIdentity) (expectedVersion : Option ℕ) : Result Attempt := do
  let attempt ← s.lockedLease lease expectedVersion
  s.requireExecution attempt
  pure attempt

/-- `runner(request)` of `zerver/views/agent_runner.py`. -/
def requireRunner : Result Unit := do
  ensure (s.runnerRevokedAt = none) "Runner credential is unavailable."
  s.world.check .runnerToken

end Store

/-- `agent_transaction`: all agent writes take one lock, and whoever does not get it fails. -/
def agentTransaction (x : Store → Result α) (s : Store) : Result α :=
  if s.world.locked = true then .error .busy else x s

@[simp] theorem agentTransaction_eq_ok {x : Store → Result α} {s : Store} {a : α} :
    agentTransaction x s = .ok a ↔ s.world.locked = false ∧ x s = .ok a := by
  unfold agentTransaction
  split <;> simp_all

/-- What is left after the check at the start of a transaction. -/
theorem required_ok {β : Type} {g : Store → Result β} {f : Store → Result α} {s : Store} {a : α}
    (h : agentTransaction (fun s => do let _ ← g s; f s) s = .ok a) : f s = .ok a := by
  rw [agentTransaction_eq_ok, bind_eq_ok] at h
  obtain ⟨-, -, -, h⟩ := h
  exact h

/-! # Updates of rows -/

variable {α κ : Type} {p q : α → Bool} {f g : α → α} {xs : List α} {x y : α}

theorem mem_updateWhere :
    y ∈ updateWhere p f xs ↔ ∃ x ∈ xs, (p x = true ∧ y = f x) ∨ (p x = false ∧ y = x) := by
  rw [updateWhere, mem_map]
  constructor
  · rintro ⟨x, hx, rfl⟩
    refine ⟨x, hx, ?_⟩
    by_cases hp : p x = true
    · exact .inl ⟨hp, if_pos hp⟩
    · exact .inr ⟨by simpa using hp, if_neg hp⟩
  · rintro ⟨x, hx, ⟨hp, rfl⟩ | ⟨hp, rfl⟩⟩
    · exact ⟨x, hx, if_pos hp⟩
    · exact ⟨y, hx, if_neg (by simp [hp])⟩

/-- What holds of the rows before holds of them after, when the update keeps it. -/
theorem forall_updateWhere {P : α → Prop} (h : ∀ x ∈ xs, P x)
    (hf : ∀ x ∈ xs, p x = true → P x → P (f x)) : ∀ y ∈ updateWhere p f xs, P y := by
  intro y hy
  obtain ⟨x, hx, ⟨hp, rfl⟩ | ⟨-, rfl⟩⟩ := mem_updateWhere.mp hy
  · exact hf x hx hp (h x hx)
  · exact h y hx

/-- What an update does not touch it does not decide either. -/
theorem any_updateWhere (hq : ∀ x, q (f x) = q x) (xs : List α) :
    (updateWhere p f xs).any q = xs.any q := by
  rw [updateWhere, any_map]
  congr 1
  funext x
  show q (if p x = true then f x else x) = q x
  split
  · exact hq x
  · rfl

/-- Two updates in a row, of which the second finds nothing that the first left. -/
theorem updateWhere_twice (hq : ∀ x, q (f x) = false) (xs : List α) :
    updateWhere q f (updateWhere p f xs) = updateWhere (fun x => p x || q x) f xs := by
  simp only [updateWhere, map_map]
  apply map_congr_left
  intro x hx
  show (if q (if p x then f x else x) then f (if p x then f x else x) else
    if p x then f x else x) = _
  by_cases hp : p x = true
  · simp [hp, hq]
  · simp [hp]

theorem pairwise_updateWhere {R : α → α → Prop} (h : xs.Pairwise R)
    (hf : ∀ x y, R x y → R (f x) y ∧ R x (f y) ∧ R (f x) (f y)) :
    (updateWhere p f xs).Pairwise R := by
  rw [updateWhere, pairwise_map]
  refine h.imp ?_
  intro x y hxy
  obtain ⟨h₁, h₂, h₃⟩ := hf x y hxy
  split <;> split
  · exact h₃
  · exact h₁
  · exact h₂
  · exact hxy

/-- Rows with different keys are told apart by them. -/
theorem eq_of_key {key : α → κ} (hk : (xs.map key).Nodup) (hx : x ∈ xs) (hy : y ∈ xs)
    (h : key x = key y) : x = y :=
  inj_on_of_nodup_map hk hx hy h

/-- Each row stays in its place, and the relation holds of what it was and what it is. -/
def Follows (R : α → α → Prop) (xs ys : List α) : Prop :=
  ∃ f : α → α, (∀ x ∈ xs, R x (f x)) ∧ ys = xs.map f

section

variable {R : α → α → Prop} (hR : ∀ x, R x x)

include hR

theorem follows_same {ys : List α} (h : ys = xs) : Follows R xs ys :=
  ⟨fun x => x, fun x _ => hR x, by rw [h, map_id']⟩

theorem follows_updateWhere (h : ∀ x ∈ xs, p x = true → R x (f x)) :
    Follows R xs (updateWhere p f xs) := by
  refine ⟨fun x => if p x then f x else x, fun x hx => ?_, rfl⟩
  dsimp only
  split
  · next hp => exact h x hx hp
  · exact hR x

/-- With one key there is one row. -/
theorem follows_update [DecidableEq κ] {key : α → κ} (hk : (xs.map key).Nodup) (hx : x ∈ xs)
    (h : R x (f x)) : Follows R xs (updateWhere (key · = key x) f xs) := by
  refine follows_updateWhere hR fun y hy hp => ?_
  obtain rfl := eq_of_key hk hy hx (of_decide_eq_true hp)
  exact h

end

/-- A new key goes to the end. -/
theorem nodup_append_key {key : α → κ} (hk : (xs.map key).Nodup)
    (hx : ∀ y ∈ xs, key y ≠ key x) : ((xs ++ [x]).map key).Nodup := by
  rw [map_append, nodup_append]
  refine ⟨hk, nodup_singleton _, ?_⟩
  intro k hk' k' hk''
  obtain ⟨y, hy, rfl⟩ := mem_map.mp hk'
  rw [mem_singleton.mp hk'']
  exact hx y hy

end GrowTeam.Server
