/-
# Pairings, runners and their credentials (`zerver/actions/agents.py`)

A device starts a pairing, a user approves it with the code the device shows, and the
device exchanges its polling secret for a runner and a first credential.  A credential is
rotated into the next one, and a revoked runner loses the last.

Each action is one transaction that locks the rows it decides on, so actions take effect
one after the other.  A refusal that has to be remembered (a wrong code, an expired
pairing) is saved, and the error is raised after the commit; an error inside the
transaction leaves the tables as they were.  The clock does not move inside an action.
-/
import GrowTeam.History
import GrowTeam.Protocol
import GrowTeam.Table

namespace GrowTeam.Agents

/-! ## Rows -/

/-- A user who may own a runner, with the realm it belongs to. -/
structure Owner where
  id : ℕ
  realmId : ℕ
  deriving DecidableEq

/-- `AgentPairing.state`. -/
inductive PairingState where
  | pending
  | approved
  | exchanged
  | expired
  | rejected
  deriving DecidableEq

/-- `AgentPairing`. -/
structure Pairing where
  id : Uuid
  realm : Option ℕ
  owner : Option Owner
  runner : Option Uuid
  deviceName : String
  fingerprint : String
  pollingSecretHash : String
  userCodeHash : String
  expiresAt : Time
  approvedAt : Option Time
  exchangedAt : Option Time
  failedAttempts : ℕ
  state : PairingState
  deriving DecidableEq

inductive RunnerState where
  | online
  | offline
  | unknown
  | revoked

/-- `AgentRunner`. -/
structure Runner where
  id : Uuid
  realm : ℕ
  owner : Owner
  name : String
  fingerprint : String
  status : RunnerState
  revokedAt : Option Time

/-- `AgentRunnerCredential`. -/
structure Credential where
  id : Uuid
  realm : ℕ
  runner : Uuid
  tokenHash : String
  refreshHash : String
  expiresAt : Time
  refreshExpiresAt : Time
  revokedAt : Option Time
  rotatedAt : Option Time
  parent : Option Uuid
  deriving DecidableEq

/-- `AgentJob`, as far as a runner's credentials reach it. -/
structure Job where
  id : Uuid
  realm : ℕ
  runner : Uuid
  version : ℕ
  status : JobState
  deriving DecidableEq

/-- `AgentAttempt`, as far as a runner's credentials reach it. -/
structure Attempt where
  id : Uuid
  jobId : Uuid
  realm : ℕ
  runner : Uuid
  leaseEpoch : ℕ
  active : Bool
  processState : ProcessState
  stopReceipt : Option RunnerEvent
  deriving DecidableEq

/-- The tables, and the time. -/
structure Store where
  clock : Time
  pairings : Table Pairing.id
  runners : Table Runner.id
  credentials : Table Credential.id
  jobs : Table Job.id
  attempts : Table Attempt.id

/-- Empty tables. -/
def Store.empty : Store :=
  { clock := 0, pairings := .empty _, runners := .empty _, credentials := .empty _,
    jobs := .empty _, attempts := .empty _ }

/-- What an action raises. -/
inductive Refusal where
  | value (message : String)     -- `ValueError`
  | credential (code : String)   -- `RunnerCredentialError`
  | missing                      -- `ObjectDoesNotExist`
  | integrity                    -- `IntegrityError`
  deriving DecidableEq

def pairingMaxFailures : ℕ := 5

/-- `PAIRING_TTL`, in seconds like the other two. -/
def pairingTtl : Time := 600

def accessTokenTtl : Time := 86400

def refreshTokenTtl : Time := 2592000

/-! ## Pairing

`hash` stands for `hash_agent_credential`; a value matches a digest when its hash is the
digest, which is what `credential_matches` compares. -/

variable (hash : String → String)

/-- `start_pairing`.  The columns of the two hashes are unique. -/
def startPairing (deviceName fingerprint userCode pollingSecret : String)
    (expiresAt : Option Time) (s : Store) : Except Refusal Pairing × Store :=
  if ¬ (1 ≤ deviceName.length ∧ deviceName.length ≤ 200) ∨
      ¬ (1 ≤ fingerprint.length ∧ fingerprint.length ≤ 128) ∨
      ¬ (4 ≤ userCode.length ∧ userCode.length ≤ 64) ∨
      ¬ (32 ≤ pollingSecret.length ∧ pollingSecret.length ≤ 512) then
    (.error (.value "Invalid pairing request."), s)
  else if s.pairings.rows.any fun p => p.userCodeHash = hash userCode ||
      p.pollingSecretHash = hash pollingSecret then
    (.error .integrity, s)
  else
    let pairing (id : Uuid) : Pairing :=
      { id := id, realm := none, owner := none, runner := none, deviceName := deviceName,
        fingerprint := fingerprint, pollingSecretHash := hash pollingSecret,
        userCodeHash := hash userCode, expiresAt := expiresAt.getD (s.clock + pairingTtl),
        approvedAt := none, exchangedAt := none, failedAttempts := 0, state := .pending }
    (.ok (pairing s.pairings.fresh), { s with pairings := s.pairings.create pairing fun _ => rfl })

/-- `failed_attempts += 1`, and the rejection of a pairing that has seen too many. -/
def Pairing.fail (pairing : Pairing) : Pairing :=
  { pairing with
    failedAttempts := pairing.failedAttempts + 1
    state := if pairing.failedAttempts + 1 ≥ pairingMaxFailures then .rejected
      else pairing.state }

/-- `_check_pairing_code`, on the locked row: the row to save, and whether the pairing is
unavailable. -/
def checkPairingCode (now : Time) (userCode : String) (pairing : Pairing) : Pairing × Bool :=
  if pairing.state ≠ .pending ∨ pairing.expiresAt ≤ now then
    ({ pairing with
        state := if pairing.expiresAt ≤ now then .expired else pairing.state }, true)
  else if hash userCode ≠ pairing.userCodeHash then (pairing.fail, true)
  else (pairing, false)

def approvePairing (owner : Owner) (id : Uuid) (userCode : String) (s : Store) :
    Except Refusal Pairing × Store :=
  match s.pairings.get? id with
  | none => (.error .missing, s)
  | some locked =>
    let (pairing, unavailable) := checkPairingCode hash s.clock userCode locked
    if unavailable then
      (.error (.value "Pairing is unavailable."), { s with pairings := s.pairings.save pairing })
    else
      let pairing :=
        { pairing with
          realm := some owner.realmId
          owner := some owner
          approvedAt := some s.clock
          state := .approved }
      (.ok pairing, { s with pairings := s.pairings.save pairing })

variable (id : Uuid)

def previewPairing (userCode : String) (s : Store) : Except Refusal Pairing × Store :=
  match s.pairings.get? id with
  | none => (.error .missing, s)
  | some locked =>
    let (pairing, unavailable) := checkPairingCode hash s.clock userCode locked
    if unavailable then
      (.error (.value "Pairing is unavailable."), { s with pairings := s.pairings.save pairing })
    else (.ok pairing, { s with pairings := s.pairings.save pairing })

/-- Whether a new credential would repeat a value of the two unique columns. -/
def Store.hashTaken (s : Store) (token refresh : String) : Bool :=
  s.credentials.rows.any fun c => c.tokenHash = hash token || c.refreshHash = hash refresh

/-- `AgentRunnerCredential.objects.create(…)`. -/
def newCredential (now : Time) (realm : ℕ) (runner : Uuid) (token refresh : String)
    (parent : Option Uuid) (id : Uuid) : Credential :=
  { id := id, realm := realm, runner := runner, tokenHash := hash token,
    refreshHash := hash refresh, expiresAt := now + accessTokenTtl,
    refreshExpiresAt := now + refreshTokenTtl, revokedAt := none, rotatedAt := none,
    parent := parent }

/-- `exchange_pairing`.  `token` and `refresh` are what `secrets.token_urlsafe` returned. -/
def exchangePairing (pollingSecret token refresh : String) (s : Store) :
    Except Refusal (String × String) × Store :=
  match s.pairings.get? id with
  | none => (.error .missing, s)
  | some pairing =>
    match pairing.owner with
    | none => (.error (.value "Pairing is unavailable."), s)
    | some owner =>
      if pairing.state ≠ .approved ∨ pairing.expiresAt ≤ s.clock then
        (.error (.value "Pairing is unavailable."), s)
      else if hash pollingSecret ≠ pairing.pollingSecretHash then
        (.error (.value "Pairing is unavailable."),
          { s with pairings := s.pairings.save pairing.fail })
      else if s.hashTaken hash token refresh then (.error .integrity, s)
      else
        let runner (id : Uuid) : Runner :=
          { id := id, realm := owner.realmId, owner := owner, name := pairing.deviceName,
            fingerprint := pairing.fingerprint, status := .unknown, revokedAt := none }
        let runnerId := s.runners.fresh
        let pairing :=
          { pairing with
            runner := some runnerId
            exchangedAt := some s.clock
            state := .exchanged }
        (.ok (token, refresh),
          { s with
            runners := s.runners.create runner fun _ => rfl
            credentials := s.credentials.create
              (newCredential hash s.clock owner.realmId runnerId token refresh none) fun _ => rfl
            pairings := s.pairings.save pairing })

/-! ## Credentials -/

def rotateRunnerCredential (refreshToken token refresh : String) (s : Store) :
    Except Refusal Credential × Store :=
  match s.credentials.get? id with
  | none => (.error .missing, s)
  | some credential =>
    match s.runners.get? credential.runner with
    | none => (.error .missing, s)
    | some runner =>
      if credential.revokedAt.isSome ∨ runner.revokedAt.isSome ∨
          credential.refreshExpiresAt ≤ s.clock ∨
          hash refreshToken ≠ credential.refreshHash then
        (.error (.value "Runner credential is unavailable."), s)
      else if s.hashTaken hash token refresh then (.error .integrity, s)
      else
        let replacement := newCredential hash s.clock credential.realm credential.runner token
          refresh (some credential.id)
        let credential :=
          { credential with revokedAt := some s.clock, rotatedAt := some s.clock }
        (.ok (replacement s.credentials.fresh),
          { s with
            credentials := (s.credentials.create replacement fun _ => rfl).save credential })

def revokeRunner (s : Store) : Except Refusal Unit × Store :=
  match s.runners.get? id with
  | none => (.error .missing, s)
  | some runner =>
    if runner.revokedAt.isSome then (.ok (), s)
    else
      let revokedAt := some s.clock
      let held (a : Attempt) : Bool := a.runner = id && a.active
      (.ok (),
        { s with
          runners := s.runners.save { runner with revokedAt := revokedAt, status := .revoked }
          credentials := s.credentials.update (fun c => c.runner = id && c.revokedAt.isNone)
            (fun c => { c with revokedAt := revokedAt }) fun _ => rfl
          attempts := s.attempts.update held
            (fun a => { a with processState := .stopping }) fun _ => rfl
          jobs := s.jobs.update (fun j => s.attempts.rows.any fun a => a.jobId = j.id && held a)
            (fun j => { j with status := .cancelRequested, version := j.version + 1 })
            fun _ => rfl })

def authenticateRunner (value : String) (refresh : Bool) (s : Store) :
    Except Refusal Credential :=
  let field (c : Credential) : String := if refresh then c.refreshHash else c.tokenHash
  match s.credentials.rows.find? fun c => field c = hash value with
  | none => .error (.credential "credential_invalid")
  | some credential =>
    match s.runners.get? credential.runner with
    | none => .error .missing
    | some runner =>
      if credential.revokedAt.isSome ∨ runner.revokedAt.isSome then
        .error (.credential "credential_revoked")
      else if (if refresh then credential.refreshExpiresAt else credential.expiresAt) ≤
          s.clock then
        .error (.credential "credential_expired")
      else .ok credential

variable (token : String)

def authenticateRunnerStopToken (lease : LeaseIdentity) (jobVersion : ℕ)
    (s : Store) : Except Refusal Attempt :=
  match s.credentials.rows.find? fun c => c.tokenHash = hash token with
  | none => .error (.value "Stop credential is unavailable.")
  | some credential =>
    match s.runners.get? credential.runner with
    | none => .error .missing
    | some runner =>
      if runner.revokedAt = none ∨ credential.rotatedAt.isSome ∨
          credential.revokedAt ≠ runner.revokedAt ∨ credential.expiresAt ≤ s.clock then
        .error (.value "Stop credential is unavailable.")
      else
        match s.attempts.rows.find? fun a => a.id = lease.attemptId && a.jobId = lease.jobId &&
            a.runner = credential.runner && a.realm = credential.realm &&
            (s.jobs.get? a.jobId).any
              (fun j => j.realm = credential.realm && j.version = jobVersion) &&
            a.leaseEpoch = lease.leaseEpoch && a.active && a.processState = .stopping with
        | none => .error (.value "Stop attempt is unavailable.")
        | some attempt => .ok attempt

/-- `locked_attempt(execution=False)`. -/
def lockedAttempt (runner : Runner) (lease : LeaseIdentity) (s : Store) :
    Except Refusal (Job × Attempt) :=
  match s.jobs.rows.find? fun j => j.id = lease.jobId && j.runner = runner.id &&
      j.realm = runner.realm with
  | none => .error .missing
  | some job =>
    match s.attempts.rows.find? fun a => a.id = lease.attemptId && a.jobId = job.id &&
        a.runner = runner.id && a.realm = runner.realm && a.leaseEpoch = lease.leaseEpoch with
    | none => .error .missing
    | some attempt => .ok (job, attempt)

/-- `event.type == "attempt.stopped"`. -/
def isStopped : EventBody → Bool
  | .attemptStopped _ => true
  | _ => false

variable (event : RunnerEvent)

/-- What a credential that was revoked with its runner may still report: the `except` branch
of `stop_evidence`. -/
def stopCredential (s : Store) : Except Refusal Runner :=
  match s.credentials.rows.find? fun c => c.tokenHash = hash token with
  | none => .error .missing
  | some credential =>
    match s.runners.get? credential.runner with
    | none => .error .missing
    | some runner =>
      if runner.revokedAt = none ∨ credential.revokedAt ≠ runner.revokedAt ∨
          credential.rotatedAt.isSome ∨ credential.expiresAt ≤ s.clock then
        .error (.value "Stop credential is unavailable.")
      else do
        let (job, attempt) ← lockedAttempt runner event.toLeaseIdentity s
        if attempt.active ∧ attempt.processState = .stopping then do
          let _ ← authenticateRunnerStopToken hash token
            ⟨job.id, attempt.id, attempt.leaseEpoch⟩ job.version s
          return runner
        else if attempt.active then
          if attempt.processState ≠ .unknown ∨ job.status ≠ .interrupted then
            .error (.value "Stop state is unavailable.")
          else return runner
        else if attempt.stopReceipt ≠ some event then
          .error (.value "Stop receipt does not match.")
        else return runner

/-- The runner that reports: the one of the token, as long as that is in use. -/
def stopReporter (s : Store) : Except Refusal Runner :=
  match authenticateRunner hash token false s with
  | .ok credential =>
    match s.runners.get? credential.runner with
    | none => .error .missing
    | some runner => .ok runner
  | .error _ => stopCredential hash token event s

/-- `stop_evidence` as far as the attempt it may report on.  What it then records changes
jobs and attempts only. -/
def stopEvidence (s : Store) : Except Refusal (Job × Attempt) :=
  if isStopped event.body = false then .error (.value "Only stopped evidence is accepted.")
  else do
    let runner ← stopReporter hash token event s
    lockedAttempt runner event.toLeaseIdentity s

/-! ## Requests -/

/-- The actions, as the views of `zerver/views/agent_devices.py` and `agents.py` call them.
`work` is everything else that happens to jobs and attempts. -/
inductive Request where
  | startPairing (deviceName fingerprint userCode pollingSecret : String)
      (expiresAt : Option Time)
  | approvePairing (owner : Owner) (id : Uuid) (userCode : String)
  | previewPairing (id : Uuid) (userCode : String)
  | exchangePairing (id : Uuid) (pollingSecret token refresh : String)
  | rotateRunnerCredential (id : Uuid) (refreshToken token refresh : String)
  | revokeRunner (id : Uuid)
  | authenticateToken (token : String)
  | authenticateRefresh (refreshToken : String)
  | stopEvidence (token : String) (event : RunnerEvent)
  | work (jobs : Table Job.id) (attempts : Table Attempt.id)

/-- What a request is answered with, when it is not refused. -/
inductive Reply where
  | pairing (pairing : Pairing)
  | tokens (token refresh : String)
  | credential (credential : Credential)
  | attempt (job : Job) (attempt : Attempt)
  | done
  deriving DecidableEq

/-- An answer, made of what an action returns. -/
def reply {β : Type} (f : β → Reply) (r : Except Refusal β × Store) :
    Except Refusal Reply × Store :=
  (r.1.map f, r.2)

/-- One request, on the store as it finds it. -/
def perform (s : Store) : Request → Except Refusal Reply × Store
  | .startPairing deviceName fingerprint userCode pollingSecret expiresAt =>
    reply .pairing (startPairing hash deviceName fingerprint userCode pollingSecret expiresAt s)
  | .approvePairing owner id userCode => reply .pairing (approvePairing hash owner id userCode s)
  | .previewPairing id userCode => reply .pairing (previewPairing hash id userCode s)
  | .exchangePairing id pollingSecret token refresh =>
    reply (fun t => .tokens t.1 t.2) (exchangePairing hash id pollingSecret token refresh s)
  | .rotateRunnerCredential id refreshToken token refresh =>
    reply .credential (rotateRunnerCredential hash id refreshToken token refresh s)
  | .revokeRunner id => reply (fun _ => .done) (revokeRunner id s)
  | .authenticateToken token => reply .credential (authenticateRunner hash token false s, s)
  | .authenticateRefresh refreshToken =>
    reply .credential (authenticateRunner hash refreshToken true s, s)
  | .stopEvidence token event =>
    reply (fun r => .attempt r.1 r.2) (stopEvidence hash token event s, s)
  | .work jobs attempts => (.ok .done, { s with jobs := jobs, attempts := attempts })

/-- A request, and the time that passes before it. -/
structure Input where
  elapsed : Time
  request : Request

/-- The store some time later. -/
def Store.later (s : Store) (elapsed : Time) : Store := { s with clock := s.clock + elapsed }

/-- One request at its time. -/
def step (i : Input) (s : Store) : Except Refusal Reply × Store :=
  perform hash (s.later i.elapsed) i.request

/-- A step of a run. -/
abbrev Event := History.Event Store Input (Except Refusal Reply)

/-- The steps of a run that starts with empty tables. -/
def history (inputs : List Input) : List Event := History.history (step hash) .empty inputs

/-- The store after such a run. -/
def reached (inputs : List Input) : Store := History.run (step hash) .empty inputs

/-- When the request of a step was served. -/
def now (e : Event) : Time := e.pre.clock + e.input.elapsed

end GrowTeam.Agents
