/-
# Storing artifacts (`store_artifact` of `zerver/lib/agent_results.py`)

A call writes a private file and registers it in a row.  It has an identifier of its own, from
which both of its file names follow.  `Phase` is the place of a call in the function, and one
step takes it to the next; any step can raise, and the `finally` block is steps as well.  The
two transactions are one step each, since `agent_transaction` holds a lock of the whole server.

What decides an attempt's lease is elsewhere, so whether `locked_attempt` refuses comes from
outside, and so does what the secrets of the job are.
-/
import GrowTeam.History
import Mathlib.Algebra.Ring.Nat
import Mathlib.Tactic.Common

namespace GrowTeam.Artifacts

/-! ## Rows, files and calls -/

/-- The two limits of a `Budget`. -/
structure Budget where
  artifactBytes : ℕ
  jobArtifactBytes : ℕ

structure Attempt where
  id : ℕ
  job : ℕ

/-- The arguments of `store_artifact`; the chunks are those the upload yields. -/
structure Upload where
  job : ℕ
  attempt : ℕ
  chunks : List (List UInt8)
  checksum : String
  kind : String
  filename : String
  mediaType : String

/-- `.<id>.partial` while it is written, `<id>.data` afterwards. -/
inductive FileName where
  | staging (id : ℕ)
  | data (id : ℕ)
  deriving DecidableEq

def FileName.id : FileName → ℕ
  | .staging id => id
  | .data id => id

structure File where
  name : FileName
  content : List UInt8

structure AgentArtifact where
  id : ℕ
  job : ℕ
  attempt : ℕ
  kind : String
  checksum : String
  size : ℕ
  storageRef : FileName
  filename : String
  mediaType : String

/-- The calls of the operating system that may fail. -/
inductive SystemCall where
  | openDirectory
  | openStaging
  | write
  | flush
  | replace
  | syncDirectory
  | unlink
  | close

inductive Fault where
  | value (message : String)
  | os (call : SystemCall)

/-- Where a call is.  What a staging file holds so far is `data`.  `cleaning` and `closing` are
the `finally` block. -/
inductive Phase where
  | started
  | leased (budget : Budget)
  | rooted (budget : Budget)
  | opened (budget : Budget)
  | writing (budget : Budget) (data : List UInt8) (chunks : List (List UInt8))
  | flushed (budget : Budget) (data : List UInt8)
  | checked (budget : Budget) (data : List UInt8)
  | replaced (budget : Budget) (data : List UInt8)
  | written (budget : Budget) (data : List UInt8)
  | cleaning (fault : Fault) (name : FileName)
  | closing (result : Except Fault AgentArtifact)
  | ended (result : Except Fault AgentArtifact)
  /-- The process died. -/
  | lost

structure Call where
  upload : Upload
  phase : Phase

/-- The place of a call in `calls` is its identifier.  `budgets` is what every attempt of a job
has in its descriptor. -/
structure Storage where
  attempts : List Attempt
  budgets : ℕ → Budget
  files : List File
  artifacts : List AgentArtifact
  calls : List Call

/-! ## Checks -/

/-- What the model takes from elsewhere: `sha256(…).hexdigest()`, whether bytes are UTF-8, and
whether a text is a `Digest`. -/
structure Platform where
  sha256 : List UInt8 → String
  utf8 : List UInt8 → Bool
  digest : String → Bool

def artifactKinds : List String := ["diff", "summary", "verification", "log", "file"]

def mediaTypes : List String :=
  ["text/plain", "text/x-diff", "application/json", "application/octet-stream"]

variable (p : Platform)

/-- `ArtifactRecord` accepts the metadata. -/
def Platform.metadata (u : Upload) : Bool :=
  artifactKinds.contains u.kind && p.digest u.checksum && mediaTypes.contains u.mediaType &&
    decide (1 ≤ u.filename.length ∧ u.filename.length ≤ 255)

/-- The name is that of a file in one directory: `Path(filename).name == filename`, and none of
the excluded characters. -/
def plainName (filename : String) : Bool :=
  filename != "." && !filename.toList.any (['\x00', '\r', '\n', '\\', '/'].contains ·)

/-- The checks between the flush and the rename. -/
def Platform.check (u : Upload) (data : List UInt8) : Option String :=
  if p.sha256 data ≠ u.checksum then some "Artifact checksum mismatch."
  else if u.mediaType ≠ "application/octet-stream" ∧ p.utf8 data = false then
    some "invalid utf-8"
  else none

/-! ## One step of a call -/

namespace Storage

variable (s : Storage)

/-- The bytes that the rows of a job account for. -/
def used (job : ℕ) : ℕ := ((s.artifacts.filter (·.job = job)).map (·.size)).sum

def setPhase (i : ℕ) (phase : Phase) : Storage :=
  { s with calls := s.calls.modify i fun c => { c with phase := phase } }

def unlink (name : FileName) : Storage :=
  { s with files := s.files.filter (·.name ≠ name) }

def create (file : File) : Storage := { s with files := s.files ++ [file] }

/-- `os.replace`. -/
def replace (source target : FileName) (data : List UInt8) : Storage :=
  ((s.unlink source).unlink target).create ⟨target, data⟩

end Storage

/-- The row a call registers. -/
def Upload.artifact (u : Upload) (id : ℕ) (data : List UInt8) : AgentArtifact where
  id := id
  job := u.job
  attempt := u.attempt
  kind := u.kind
  checksum := u.checksum
  size := data.length
  storageRef := .data id
  filename := u.filename
  mediaType := u.mediaType

/-- `locked_attempt`: the attempt is one of the job, and nothing outside refuses it. -/
def Storage.lockedAttempt (s : Storage) (u : Upload) (refusal : Option String) : Option Fault :=
  match refusal with
  | some message => some (.value message)
  | none =>
    if s.attempts.any fun a => a.id = u.attempt && a.job = u.job then none
    else some (.value "AgentAttempt matching query does not exist.")

/-- One step of a call.  `failure` is what the environment does to it: the message of a refusal,
or anything at all where an operation of the system fails. -/
def Storage.call (s : Storage) (i : ℕ) (failure : Option String) (c : Call) : Storage :=
  let u := c.upload
  match c.phase with
  | .started =>
    if !p.metadata u then s.setPhase i (.ended (.error (.value "Invalid artifact metadata.")))
    else if !plainName u.filename then
      s.setPhase i (.ended (.error (.value "Invalid artifact filename.")))
    else
      match s.lockedAttempt u failure with
      | some fault => s.setPhase i (.ended (.error fault))
      | none => s.setPhase i (.leased (s.budgets u.job))
  | .leased budget =>
    match failure with
    | some message => s.setPhase i (.ended (.error (.value message)))
    | none => s.setPhase i (.rooted budget)
  | .rooted budget =>
    match failure with
    | some _ => s.setPhase i (.ended (.error (.os .openDirectory)))
    | none => s.setPhase i (.opened budget)
  | .opened budget =>
    if failure.isSome || s.files.any fun f => f.name = .staging i then
      s.setPhase i (.cleaning (.os .openStaging) (.staging i))
    else (s.create ⟨.staging i, []⟩).setPhase i (.writing budget [] u.chunks)
  | .writing budget data (chunk :: rest) =>
    if budget.artifactBytes < data.length + chunk.length then
      s.setPhase i (.cleaning (.value "Artifact size limit exceeded.") (.staging i))
    else
      match failure with
      | some _ => s.setPhase i (.cleaning (.os .write) (.staging i))
      | none => s.setPhase i (.writing budget (data ++ chunk) rest)
  | .writing budget data [] =>
    match failure with
    | some _ => s.setPhase i (.cleaning (.os .flush) (.staging i))
    | none => s.setPhase i (.flushed budget data)
  | .flushed budget data =>
    match (p.check u data).or failure with
    | some message => s.setPhase i (.cleaning (.value message) (.staging i))
    | none => s.setPhase i (.checked budget data)
  | .checked budget data =>
    match failure with
    | some _ => s.setPhase i (.cleaning (.os .replace) (.staging i))
    | none => (s.replace (.staging i) (.data i) data).setPhase i (.replaced budget data)
  | .replaced budget data =>
    match failure with
    -- `written` is still false, so the block removes the name that is gone
    | some _ => s.setPhase i (.cleaning (.os .syncDirectory) (.staging i))
    | none => s.setPhase i (.written budget data)
  | .written budget data =>
    match s.lockedAttempt u failure with
    | some fault => s.setPhase i (.cleaning fault (.data i))
    | none =>
      if budget.jobArtifactBytes < s.used u.job + data.length then
        s.setPhase i (.cleaning (.value "Job artifact limit exceeded.") (.data i))
      else
        ({ s with artifacts := s.artifacts ++ [u.artifact i data] }).setPhase i
          (.closing (.ok (u.artifact i data)))
  | .cleaning fault name =>
    match failure with
    | some _ => s.setPhase i (.ended (.error (.os .unlink)))
    | none => (s.unlink name).setPhase i (.closing (.error fault))
  | .closing result =>
    match failure with
    | some _ => s.setPhase i (.ended (.error (.os .close)))
    | none => s.setPhase i (.ended result)
  | .ended _ => s
  | .lost => s

/-! ## Runs -/

inductive Move where
  | start (upload : Upload)
  | advance (i : ℕ) (failure : Option String)
  /-- The process dies: no call in flight goes on. -/
  | crash

def Phase.killed : Phase → Phase
  | .ended result => .ended result
  | _ => .lost

def step : Move → Storage → Unit × Storage
  | .start upload, s => ((), { s with calls := s.calls ++ [⟨upload, .started⟩] })
  | .advance i failure, s =>
    match s.calls[i]? with
    | some c => ((), s.call p i failure c)
    | none => ((), s)
  | .crash, s => ((), { s with calls := s.calls.map fun c => { c with phase := c.phase.killed } })

/-- A server that has stored nothing yet. -/
def Storage.fresh (attempts : List Attempt) (budgets : ℕ → Budget) : Storage :=
  ⟨attempts, budgets, [], [], []⟩

end GrowTeam.Artifacts
