/-
# Tools, checks and the verified tree (`services/grow-agent-runner/src/tool-broker.ts`)

A `ToolBroker` runs tools and owner checks in a sandbox on one workspace.  Its methods are
interleaved at their `await`s: a call is a `Phase`, the wait it is in, and one step runs the
code from there to the next wait.  `busy` keeps the two methods that use the sandbox apart;
`candidateCommit` does not look at it.  Any wait may end with an error, which is also how an
abort shows.

A sandbox writes to the workspace only when it is told to (`write`), and a check never is.  The
hash of a tree that changes while it is walked may be anything.

`deeds` is no variable of the program: it is what the broker ran, and the trees it offered.
-/
import GrowTeam.History
import Mathlib.Algebra.Ring.Nat
import Mathlib.Tactic.Common

namespace GrowTeam.Runtime.Tools

abbrev Tree := String

/-! ## The descriptor and the requests -/

/-- A required check of the owner; `argv`, `cwd` and the timeout go to the sandbox as they are. -/
structure Check where
  id : String
  deriving DecidableEq

/-- What the broker reads of its descriptor and of the store of artifacts. -/
structure Descriptor where
  jobId : ℕ
  jobKind : String
  actions : List String
  requiredChecks : List Check
  toolRounds : ℕ
  perFile : ℕ
  perJob : ℕ

inductive Tool where
  | read
  | search
  | edit
  | shell
  deriving DecidableEq

/-- `args.action`. -/
def Tool.action : Tool → String
  | .read => "repository.read"
  | .search => "repository.read"
  | .edit => "repository.edit"
  | .shell => "shell.run"

variable (d : Descriptor)

/-- Whether the sandbox may write to the workspace. -/
def Tool.write : Tool → Bool
  | .read => false
  | .search => false
  | .edit => true
  | .shell => d.actions.contains "repository.edit"

/-- The action is within the policy of the attempt. -/
def Tool.permitted (tool : Tool) : Bool :=
  d.actions.contains tool.action && (d.jobKind != "answer" || tool.action = "repository.read")

/-- The actions after which the tree is published. -/
def Tool.publishes (tool : Tool) : Bool :=
  ["repository.edit", "shell.run", "dependencies.install"].contains tool.action

/-! ## The state -/

inductive Deed where
  /-- The sandbox was started for a tool. -/
  | tool (tool : Tool)
  /-- A check ran on a tree. -/
  | check (check : Check) (tree : Tree) (passed : Bool)
  /-- `candidateCommit` made a commit of a tree. -/
  | commit (tree : Tree)
  /-- `result.prepared` named a tree. -/
  | prepared (tree : Tree)
  deriving DecidableEq

def Deed.isTool : Deed → Bool
  | .tool _ => true
  | _ => false

/-- The wait a call is in. -/
inductive Phase where
  -- runSandboxedTool: the tree, the patch, the authority, the sandbox, the tree after it, the
  -- log, the event, the publication
  | toolTree (id : String) (tool : Tool)
  | toolPatch (id : String) (tool : Tool)
  | toolAuthority (tool : Tool)
  | toolSandbox (tool : Tool)
  | toolAfter (tool : Tool)
  | toolLog (tool : Tool)
  | toolEvent (tool : Tool)
  | toolPublish
  -- verifyFinalTree: the tree, the diff, the publication, and for each check the authority, the
  -- sandbox, the output, the tree after it, the events
  | verifyTree
  | verifyDiff (tree : Tree)
  | verifyPublish (tree : Tree)
  | checkAuthority (tree : Tree) (id : String) (check : Check) (rest : List Check) (passed : Bool)
  | checkSandbox (tree : Tree) (check : Check) (rest : List Check) (passed : Bool)
  | checkOutput (tree : Tree) (rest : List Check) (passed : Bool)
  | checkTree (tree : Tree) (rest : List Check) (passed : Bool)
  | checkEvent (tree : Tree) (rest : List Check) (passed : Bool)
  | verifyLast (tree : Tree) (passed : Bool)
  /-- The supervisor goes on to `result.prepared` with what `verifyFinalTree` returned. -/
  | result (tree : Tree) (passed : Bool)
  /-- `assertVerified` in `candidateCommit`. -/
  | commitTree
  | ended

/-- The phases in which a call has set `busy`. -/
def Phase.inside : Phase → Bool
  | .result .. => false
  | .commitTree => false
  | .ended => false
  | _ => true

/-- `records` are the retained artifacts, each with its job and its size. -/
structure Broker where
  workspace : Tree
  busy : Bool
  verifiedTree : Option Tree
  intents : List String
  records : List (ℕ × ℕ)
  calls : List Phase
  deeds : List Deed

/-- What one step may read from outside. -/
structure Outside where
  /-- The wait failed, or the authority is gone. -/
  fails : Bool := false
  /-- `randomUUID()`. -/
  id : String := ""
  /-- The bytes to retain. -/
  size : ℕ := 0
  /-- The tree a sandbox leaves, or a walk over a changing workspace sees. -/
  tree : Tree := ""
  /-- The exit code is zero, without timeout or overflow. -/
  passed : Bool := true

/-! ## Steps of a call -/

namespace Broker

def setPhase (b : Broker) (i : ℕ) (phase : Phase) : Broker :=
  { b with calls := b.calls.set i phase }

/-- The `finally` of the two methods that use the sandbox. -/
def leave (b : Broker) (i : ℕ) (phase : Phase) : Broker := { b.setPhase i phase with busy := false }

def deed (b : Broker) (deed : Deed) : Broker := { b with deeds := b.deeds ++ [deed] }

/-- The bytes retained for a job. -/
def total (b : Broker) (jobId : ℕ) : ℕ := ((b.records.filter (·.1 = jobId)).map (·.2)).sum

variable (d : Descriptor)

/-- `ArtifactStore.retain`. -/
def retain (b : Broker) (size : ℕ) : Option Broker :=
  if d.perFile < size ∨ d.perJob < size + b.total d.jobId then none
  else some { b with records := b.records ++ [(d.jobId, size)] }

/-- A step that retains an artifact and waits for its upload. -/
def retainThen (b : Broker) (i size : ℕ) (phase : Phase) : Broker :=
  match retain d b size with
  | some b => b.setPhase i phase
  | none => b.leave i .ended

/-- The beginning of `authority`: the intent of the call is journalled. -/
def intend (b : Broker) (i : ℕ) (id : String) (phase : Phase) : Broker :=
  if b.intents.contains id ∨ d.toolRounds ≤ b.intents.length then b.leave i .ended
  else { b with intents := b.intents ++ [id] }.setPhase i phase

/-- The head of the loop over the checks, or what comes after it. -/
def nextCheck (b : Broker) (i : ℕ) (id : String) (tree : Tree) (passed : Bool) : List Check → Broker
  | check :: rest => b.intend d i id (.checkAuthority tree id check rest passed)
  | [] => b.setPhase i (.verifyLast tree passed)

/-- One step of a call that does not fail. -/
def advance (b : Broker) (i : ℕ) (out : Outside) : Phase → Broker
  | .toolTree id tool =>
    if tool = .edit then b.retainThen d i out.size (.toolPatch id tool)
    else if !tool.permitted d then b.leave i .ended
    else b.intend d i id (.toolAuthority tool)
  | .toolPatch id tool =>
    if !tool.permitted d then b.leave i .ended else b.intend d i id (.toolAuthority tool)
  | .toolAuthority tool =>
    ({ b with verifiedTree := none }.deed (.tool tool)).setPhase i (.toolSandbox tool)
  | .toolSandbox tool =>
    { b with workspace := if tool.write d then out.tree else b.workspace }.setPhase i (.toolAfter tool)
  | .toolAfter tool => b.retainThen d i out.size (.toolLog tool)
  | .toolLog tool => b.setPhase i (.toolEvent tool)
  | .toolEvent tool => if tool.publishes then b.setPhase i .toolPublish else b.leave i .ended
  | .toolPublish => b.leave i .ended
  | .verifyTree => b.retainThen d i out.size (.verifyDiff b.workspace)
  | .verifyDiff tree => b.setPhase i (.verifyPublish tree)
  | .verifyPublish tree => b.nextCheck d i out.id tree true d.requiredChecks
  | .checkAuthority tree _ check rest passed => b.setPhase i (.checkSandbox tree check rest passed)
  | .checkSandbox tree check rest passed =>
    (b.deed (.check check b.workspace out.passed)).retainThen d i out.size
      (.checkOutput tree rest (passed && out.passed))
  | .checkOutput tree rest passed => b.setPhase i (.checkTree tree rest passed)
  | .checkTree tree rest passed =>
    if b.workspace ≠ tree then b.leave i .ended else b.setPhase i (.checkEvent tree rest passed)
  | .checkEvent tree rest passed => b.nextCheck d i out.id tree passed rest
  | .verifyLast tree passed =>
    if b.workspace ≠ tree then b.leave i .ended
    else { b with verifiedTree := if passed then some tree else none }.leave i (.result tree passed)
  | .result tree _ => (b.deed (.prepared tree)).setPhase i .ended
  | .commitTree =>
    -- the comparison reads `verifiedTree` again, and the commit follows in the same turn
    if b.verifiedTree = some out.tree then (b.deed (.commit out.tree)).setPhase i .ended
    else b.setPhase i .ended
  | .ended => b

/-- The workspace after a wait that failed: a sandbox may have written all the same. -/
def damaged (b : Broker) (out : Outside) : Phase → Broker
  | .toolSandbox tool => { b with workspace := if tool.write d then out.tree else b.workspace }
  | _ => b

/-- A wait that ends with an error. -/
def fail (b : Broker) (i : ℕ) (out : Outside) (phase : Phase) : Broker :=
  if phase.inside then (b.damaged d out phase).leave i .ended else b.setPhase i .ended

end Broker

/-! ## Runs -/

inductive Move where
  /-- `runSandboxedTool`; `valid` is what `validateTool` and the filter say of the request. -/
  | tool (id : String) (tool : Tool) (valid : Bool)
  /-- `verifyFinalTree`, as the supervisor calls it before `result.prepared`. -/
  | verify
  | commit
  /-- The supervisor retains the summary of an answer. -/
  | summary (size : ℕ)
  | advance (i : ℕ) (out : Outside)
  /-- A new attempt: a new broker and a new workspace over the same store of artifacts. -/
  | attempt (workspace : Tree)

def step : Move → Broker → Unit × Broker
  | .tool id tool valid, b =>
    if b.busy || !valid then ((), b)
    else ((), { b with busy := true, calls := b.calls ++ [.toolTree id tool] })
  | .verify, b =>
    if b.busy || !d.actions.contains "checks.run" then ((), b)
    else ((), { b with busy := true, calls := b.calls ++ [.verifyTree] })
  | .commit, b =>
    if b.verifiedTree = none then ((), b) else ((), { b with calls := b.calls ++ [.commitTree] })
  | .summary size, b => ((), (b.retain d size).getD b)
  | .advance i out, b =>
    match b.calls[i]? with
    | some phase => ((), if out.fails then b.fail d i out phase else b.advance d i out phase)
    | none => ((), b)
  | .attempt workspace, b => ((), ⟨workspace, false, none, [], b.records, [], []⟩)

/-- A broker over an empty store of artifacts. -/
def Broker.start (workspace : Tree) : Broker := ⟨workspace, false, none, [], [], [], []⟩

end GrowTeam.Runtime.Tools
