/-
# The creation of jobs (`create_job` and `complete_draft` in `zerver/actions/agent_jobs.py`)

The rows of one realm that the creation of a job reads and writes, and the two actions.  Each of
them is one `agent_transaction`: it takes the advisory lock of all agent writes, and an error
rolls it back.  What the rest of the server answers within it (access, readiness, audience) is
the `World` of the call, and may be different in every call.

`payload_digest` stands for the payload: two digests are the same when the payloads are.
-/
import GrowTeam.Protocol
import Mathlib.Data.List.Dedup
import Mathlib.Data.List.Sort
import Mathlib.Tactic.Common

namespace GrowTeam.Dispatch

/-! ## Rows -/

/-- `TriggerKind`. -/
inductive Trigger where
  | mention
  | directMessage
  | manual
  deriving DecidableEq

structure Repository where
  id : ℕ
  allowedRefs : List String
  requiredChecks : List String

/-- What is read of an `AgentProfile`. -/
structure Profile where
  id : ℕ
  defaultMode : JobKind
  repository : Option Repository
  /-- `desired_state == "enabled"`. -/
  enabled : Bool
  /-- `capability_report.get("code_ready", False)`. -/
  codeReady : Bool
  /-- `policy["actions"]`. -/
  actions : List String

/-- What is hashed into `payload_digest`. -/
structure Payload where
  profile : ℕ
  source : ℕ
  request : String
  kind : JobKind
  delivery : DeliveryTarget
  repository : Option ℕ
  baseRef : String
  context : List ℕ
  attachments : List ℕ
  trigger : Trigger
  follows : Option ℕ
  deriving DecidableEq

structure DraftCompletion where
  expectedVersion : ℕ
  repository : ℕ
  baseRef : String
  deriving DecidableEq

/-- An `AgentJob` with its `AgentContextRef` rows. -/
structure Job where
  id : ℕ
  requester : ℕ
  profile : ℕ
  source : Option ℕ
  follows : Option ℕ
  request : String
  kind : JobKind
  target : DeliveryTarget
  repository : Option ℕ
  baseRef : String
  trigger : Trigger
  key : Uuid
  digest : Payload
  status : JobState
  blockedReason : String
  version : ℕ
  draftCompletion : Option DraftCompletion
  context : List ℕ
  attachments : List ℕ
  deriving DecidableEq

inductive Decision where
  | accepted
  | needsInput
  | rejected
  deriving DecidableEq

/-- An `AgentDispatchReceipt`. -/
structure Receipt where
  source : Option ℕ
  profile : ℕ
  trigger : Trigger
  requester : ℕ
  decision : Decision
  reason : String
  job : Option ℕ
  deriving DecidableEq

/-- The committed rows; `outbox` are the delivery keys, `notices` the marker keys of the notices
that were posted, and `deleted` the messages that are gone. -/
structure State where
  jobs : List Job
  receipts : List Receipt
  outbox : List String
  notices : List String
  deleted : List ℕ
  nextJob : ℕ

/-! ## Errors and the rest of the server -/

inductive Refusal where
  /-- `AgentBusy`. -/
  | busy
  /-- `AgentAccessDenied`. -/
  | denied
  /-- A `ValueError` or a `JsonableError` with its text. -/
  | invalid (text : String)
  /-- `AgentRealmSettings.DoesNotExist`. -/
  | noSettings
  /-- Another exception. -/
  | missing

structure Settings where
  queuedJobLimit : ℕ
  profileQueueLimit : ℕ

structure World where
  /-- The advisory lock or the budget of the transaction is not to be had. -/
  busy : Bool
  /-- The user is an active one of the realm. -/
  active : ℕ → Bool
  /-- `require_job_access`. -/
  jobAccess : ℕ → Job → Bool
  /-- `require_control`. -/
  control : ℕ → Job → Bool
  /-- The settings of a realm in which agents are enabled. -/
  settings : Option Settings
  profiles : List Profile
  /-- `require_ready`. -/
  ready : Profile → Bool
  repository : ℕ → Option Repository
  /-- `check_agent_access(actor, profile, repository, source, action)`. -/
  access : ℕ → Profile → Option Repository → ℕ → String → Bool
  /-- The conversation of the job with a profile, and its audience. -/
  audience : ℕ → Option Refusal
  /-- `job.clean()`, and access to the messages and files of the context. -/
  references : ℕ → Option Refusal

variable (w : World) (id : ℕ)

def World.profile : Option Profile :=
  w.profiles.find? fun profile => profile.id = id

/-- The arguments of `create_job` that are part of the payload, and the key. -/
structure Request where
  profile : ℕ
  source : ℕ
  request : String
  key : Uuid
  kind : JobKind
  target : DeliveryTarget
  repository : Option Repository
  baseRef : String
  contextMessages : List ℕ
  contextAttachments : List ℕ
  trigger : Trigger
  follows : Option ℕ

variable (r : Request)

/-- `sorted({source.id, *(context_message_ids or [])})`. -/
def Request.ids : List ℕ :=
  (r.source :: r.contextMessages).dedup.insertionSort (· ≤ ·)

/-- `sorted(set(context_attachment_ids or []))`. -/
def Request.attachments : List ℕ := r.contextAttachments.dedup.insertionSort (· ≤ ·)

/-- What is hashed. -/
def Request.payload : Payload :=
  ⟨r.profile, r.source, r.request, r.kind, r.target, r.repository.map Repository.id, r.baseRef,
    r.ids, r.attachments, r.trigger, r.follows⟩

def terminal : JobState → Bool
  | .completed | .cancelled | .failed | .interrupted | .blocked => true
  | _ => false

/-- The first check that fails. -/
def firstRefusal (checks : List (Bool × Refusal)) : Option Refusal :=
  (checks.find? fun check => check.1).map fun check => check.2

/-! ## `create_job` -/

namespace State

def job? (s : State) (id : ℕ) : Option Job := s.jobs.find? fun job => job.id = id

def prior? (s : State) (requester : ℕ) (key : Uuid) : Option Job :=
  s.jobs.find? fun job => job.requester = requester ∧ job.key = key

def existingTrigger? (s : State) (source profile : ℕ) (trigger : Trigger) : Option Job :=
  s.jobs.find? fun job => job.source = some source ∧ job.profile = profile ∧ job.trigger = trigger

def queued (s : State) : ℕ := s.jobs.countP fun job => job.status = .queued

def queuedFor (s : State) (profile : ℕ) : ℕ :=
  s.jobs.countP fun job => job.profile = profile ∧ job.status = .queued

end State

variable (s : State)

/-- The checks of the arguments, and of the job that is followed. -/
def requestChecks (actor : ℕ) (r : Request) : List (Bool × Refusal) :=
  [(r.request = "" || 20000 < r.request.length, .invalid "Invalid request."),
    ((r.kind = .answer || r.kind = .manage) != (r.target = .answer),
      .invalid "Invalid delivery target."),
    (r.kind = .manage && r.repository.isSome, .invalid "Manage tasks cannot use a repository."),
    (r.follows.any fun id => (s.job? id).all fun job => !w.jobAccess actor job, .denied),
    (r.follows.any fun id => (s.job? id).any fun job => !terminal job.status,
      .invalid "Followed task has not ended."),
    (20 < r.attachments.length, .invalid "Too many selected files."),
    (100 < r.ids.length, .invalid "Too many context references.")]

/-- The ceiling of the actions by the kind of the job. -/
def ceiling (actions : List String) : List String :=
  match r.kind with
  | .answer => actions.filter fun action =>
      action = "context.read" || (r.repository.isSome && action = "repository.read")
  | .manage => actions.filter fun action => action = "context.read"
  | .code => actions

/-- The checks of a new job in front of its row. -/
def admissionChecks (requester : ℕ) (r : Request)
    (draft allowBlocked : Bool) (profile : Profile) (settings : Settings) : List (Bool × Refusal) :=
  let blocked := !w.ready profile
  let access := w.access requester profile r.repository r.source
  let actions := (ceiling r profile.actions).filter access
  [(blocked && (!allowBlocked || !profile.enabled), .invalid "Profile readiness is stale."),
    (s.deleted.contains r.source, .missing),
    (r.repository.any fun repository =>
        profile.repository.map Repository.id ≠ some repository.id,
      .invalid "Repository requires a new configuration."),
    (r.kind = .code && r.repository.isNone && !draft, .invalid "Coding requires a repository."),
    (!draft && r.repository.any fun repository => !repository.allowedRefs.contains r.baseRef,
      .invalid "Base ref is not approved."),
    (r.kind = .code && !draft && !blocked &&
        (!profile.codeReady || r.repository.all fun repository => repository.requiredChecks = []),
      .invalid "Coding readiness and required checks are required."),
    (!access "profile.use", .denied),
    (r.kind = .manage && !access "team.manage", .denied),
    (!draft && !blocked && (settings.queuedJobLimit ≤ s.queued ||
        settings.profileQueueLimit ≤ s.queuedFor r.profile), .invalid "Agent queue is full."),
    ((w.audience r.profile).isSome, (w.audience r.profile).getD .missing),
    (!actions.contains "context.read" || (r.kind = .code && !draft &&
        !(["repository.read", "repository.edit", "checks.run"].all actions.contains)),
      .invalid "Required job authority is unavailable."),
    ((w.references r.profile).isSome, (w.references r.profile).getD .missing)]

/-- `"draft" if draft else "blocked" if blocked_reason else "queued"`. -/
def firstStatus (draft blocked : Bool) : JobState :=
  if draft then .draft else if blocked then .blocked else .queued

/-- The row of a new job. -/
def Request.row (id requester : ℕ) (status : JobState) : Job where
  id := id
  requester := requester
  profile := r.profile
  source := some r.source
  follows := r.follows
  request := r.request
  kind := r.kind
  target := r.target
  repository := r.repository.map Repository.id
  baseRef := r.baseRef
  trigger := r.trigger
  key := r.key
  digest := r.payload
  status := status
  blockedReason := if status = .blocked then "profile_needs_action" else ""
  version := 1
  draftCompletion := none
  context := r.ids
  attachments := r.attachments

/-- The delivery key of the first wake of a job. -/
def wakeKey : String := s!"wake:{id}:1"

/-- The wake of a job that is queued. -/
def State.wake (s : State) (id : ℕ) (status : JobState) : State :=
  if status = .queued then { s with outbox := s.outbox ++ [wakeKey id] } else s

/-- A new job is saved. -/
def State.insert (row : ℕ → Job) : State :=
  let job := row s.nextJob
  { s with jobs := s.jobs ++ [job], nextJob := s.nextJob + 1 }.wake s.nextJob job.status

/-- The job is saved in the place of the draft it completes. -/
def State.replace (job : Job) : State :=
  let jobs := s.jobs.map fun (old : Job) => if old.id = job.id then job else old
  { s with jobs := jobs }.wake job.id job.status

/-- The checks of a new job, and the status it gets. -/
def admission (requester : ℕ) (r : Request) (draft allowBlocked : Bool) : Except Refusal JobState :=
  match w.settings, w.profile r.profile with
  | none, _ => .error .noSettings
  | some _, none => .error .missing
  | some settings, some profile =>
    match firstRefusal (admissionChecks w s requester r draft allowBlocked profile settings) with
    | some refusal => .error refusal
    | none => .ok (firstStatus draft (!w.ready profile))

/-- `create_job` without `completing`. -/
def createJob (actor : ℕ) (r : Request) (draft allowBlocked : Bool) : Except Refusal (ℕ × State) :=
  match firstRefusal (requestChecks w s actor r ++ [(w.busy, .busy), (!w.active actor, .missing)])
    with
  | some refusal => .error refusal
  | none =>
    match s.prior? actor r.key with
    | some prior =>
      if !w.jobAccess actor prior then .error .denied
      else if prior.digest ≠ r.payload then .error (.invalid "Idempotency conflict.")
      else .ok (prior.id, s)
    | none =>
      match s.existingTrigger? r.source r.profile r.trigger with
      | some existing =>
        if !w.jobAccess actor existing then .error .denied
        else if existing.requester ≠ actor ∨ existing.digest ≠ r.payload then
          .error (.invalid "Message trigger already has a different task.")
        else .ok (existing.id, s)
      | none =>
        match admission w s actor r draft allowBlocked with
        | .error refusal => .error refusal
        | .ok status =>
          .ok (s.nextJob, s.insert fun id => r.row id actor status)

/-! ## `complete_draft` -/

/-- What `complete_draft` passes to `create_job`; the job that is followed is left out. -/
def completionRequest (job : Job) (source : ℕ) (repository : Repository) (baseRef : String) :
    Request where
  profile := job.profile
  source := source
  request := job.request
  key := job.key
  kind := job.kind
  target := job.target
  repository := some repository
  baseRef := baseRef
  contextMessages := job.context
  contextAttachments := job.attachments
  trigger := job.trigger
  follows := none

/-- `create_job` with the draft as `completing`. -/
def completeJob (actor : ℕ) (job : Job) (r : Request)
    (completion : DraftCompletion) : Except Refusal (ℕ × State) :=
  match firstRefusal (requestChecks w s actor r ++
    [(w.busy, .busy), (!w.active job.requester, .missing)]) with
  | some refusal => .error refusal
  | none =>
    match admission w s job.requester r false false with
    | .error refusal => .error refusal
    | .ok status =>
      .ok (job.id, s.replace { r.row job.id job.requester status with
        version := job.version + 1
        draftCompletion := some completion })

/-- `AgentDispatchReceipt.objects.filter(job=result).update(decision="accepted", reason="")`. -/
def State.acceptReceipts (s : State) (id : ℕ) : State :=
  { s with receipts := s.receipts.map fun receipt =>
      if receipt.job = some id then { receipt with decision := .accepted, reason := "" }
      else receipt }

def completeDraft (actor id expectedVersion repositoryId : ℕ)
    (baseRef : String) : Except Refusal (ℕ × State) :=
  if w.busy then .error .busy
  else match s.job? id with
    | none => .error .missing
    | some job =>
      if !w.control actor job then .error .denied
      else match job.draftCompletion with
        | some completion =>
          if completion ≠ ⟨expectedVersion, repositoryId, baseRef⟩ then
            .error (.invalid "Draft completion conflicts with the previous request.")
          else .ok (job.id, s)
        | none =>
          match job.source, w.repository repositoryId with
          | none, _ => .error (.invalid "Draft is no longer configurable.")
          | some source, found =>
            if job.status ≠ .draft ∨ job.version ≠ expectedVersion then
              .error (.invalid "Draft is no longer configurable.")
            else match found with
              | none => .error .missing
              | some repository =>
                match completeJob w s actor job (completionRequest job source repository baseRef)
                  ⟨expectedVersion, repository.id, baseRef⟩ with
                | .error refusal => .error refusal
                | .ok (result, s) => .ok (result, s.acceptReceipts result)

/-! ## The rest of the life of a job -/

/-- Any other action on a job writes neither its identity nor its payload. -/
def State.live (s : State) (id : ℕ) (status : JobState) (blockedReason : String) (version : ℕ) :
    State :=
  { s with jobs := s.jobs.map fun job =>
      if job.id = id then
        { job with status := status, blockedReason := blockedReason, version := version }
      else job }

/-- The message is deleted: `SET_NULL` in the rows that name it. -/
def State.deleteMessage (message : ℕ) : State :=
  { s with
    jobs := s.jobs.map fun job =>
      if job.source = some message then { job with source := none } else job
    receipts := s.receipts.map fun receipt =>
      if receipt.source = some message then { receipt with source := none } else receipt
    deleted := s.deleted ++ [message] }

def State.start : State := ⟨[], [], [], [], [], 0⟩

end GrowTeam.Dispatch
