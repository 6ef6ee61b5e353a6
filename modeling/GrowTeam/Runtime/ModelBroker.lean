/-
# Model requests and their budget (`services/grow-agent-runner/src/model-broker.ts`)

A `ModelBroker` runs one `turn` at a time, and a turn runs alone between two of its `await`s.
Where a turn waits is its `Phase`, with the local variables that are alive there; `resume` is
the code from one `await` to the next.  What ends an `await` is the `Answer`.

Reservations are entries of kind `model-reservation` in the journal, which a crash leaves.
Their ids are `model-reservation:${uuid}`, so the UUID stands for the id.  `sent` is no
variable of the program: it counts the provider requests a broker made.
-/
import GrowTeam.Protocol
import GrowTeam.Runner.Journal

namespace GrowTeam.Budgets

/-! ## `ModelBudgetLedger` -/

/-- The JSON values of the `request` and `response` columns. -/
inductive Record where
  | reservation (scope : String) (input output : ℤ)
  | settled (output : ℤ)
  deriving DecidableEq

abbrev Log := Journal Uuid Record
abbrev LogEntry := Entry Uuid Record

/-- `{input, output}`. -/
structure Usage where
  input : ℤ
  output : ℤ

/-- `e.request.scope === this.scope`. -/
def inScope (scope : String) (e : LogEntry) : Bool :=
  match e.request with
  | .reservation s _ _ => s = scope
  | .settled _ => false

variable (e : LogEntry)

/-- `e.request.input`. -/
def inputOf : ℤ :=
  match e.request with
  | .reservation _ input _ => input
  | .settled _ => 0

/-- `e.request.output`. -/
def reservedOf : ℤ :=
  match e.request with
  | .reservation _ _ output => output
  | .settled _ => 0

/-- `e.response!.output`. -/
def settledOf : ℤ :=
  match e.response with
  | some (.settled output) => output
  | _ => 0

/-- `e.state === "done" ? e.response!.output : e.request.output`. -/
def outputOf : ℤ := if e.state = .done then settledOf e else reservedOf e

/-- The reducer of `used`. -/
def Usage.add (total : Usage) (e : LogEntry) : Usage :=
  ⟨total.input + inputOf e, total.output + outputOf e⟩

/-- `used()`. -/
def used (log : Log) (scope : String) : Usage :=
  ((log.list "model-reservation").filter (inScope scope)).foldl Usage.add ⟨0, 0⟩

/-- `reserve(input, output)`, of whose journal writes the first `writes` succeed; whether the
id was returned, and the journal. -/
def reserve (log : Log) (scope : String) (input output : ℤ) (uuid : Uuid) (writes : ℕ) :
    Bool × Log :=
  if writes = 0 then (false, log)
  else match log.prepare "model-reservation" uuid "local" (.reservation scope input output) "" with
    | .error _ => (false, log)
    | .ok (_, log) => if writes = 1 then (false, log) else (true, log.uncertain uuid)

/-- `settle(id, output)`. -/
def settle (log : Log) (id : Uuid) (output : ℤ) (writes : ℕ) : Log :=
  if writes = 0 then log
  else match log.complete id (.settled output) with
    | .error _ => log
    | .ok log => log

/-! ## `ModelBroker` -/

/-- What the code reads of `Budget`. -/
structure Budget where
  toolRounds : ℕ
  transportRetries : ℕ
  contextRecoveries : ℕ
  inputTokens : ℕ
  outputTokens : ℕ

/-- What the code reads of the provider. -/
structure Provider where
  contextWindowTokens : ℕ
  maxOutputTokens : ℕ

/-- The variables of the retry loop. -/
structure Attempt where
  input : ℕ
  limit : ℤ
  retry : ℕ
  deriving DecidableEq

/-- Where a turn waits. -/
inductive Phase where
  /-- No turn runs; `busy` is every other phase. -/
  | idle
  /-- The first `await this.current()`; `input` is the size of the messages and the tools. -/
  | entering (input : ℕ)
  /-- `await this.current()` at the head of the loop. -/
  | checking (attempt : Attempt)
  /-- The credential, the name lookup and the checks in front of the request. -/
  | dispatching (attempt : Attempt) (reservation : Uuid)
  /-- The provider's answer. -/
  | waiting (attempt : Attempt) (reservation : Uuid)
  /-- `await this.current()` after it; `outputTokens` is what `decode` finds. -/
  | received (attempt : Attempt) (reservation : Uuid) (outputTokens : Option ℕ)
  /-- `await this.current()` after a transient failure, and the `sleep`. -/
  | backoff (attempt : Attempt)
  deriving DecidableEq

/-- A `ModelBroker` object with its ledger's scope; `aborted` is its authority's signal. -/
structure ModelBroker where
  scope : String
  provider : Provider
  aborted : Bool
  inputUsed : ℤ
  outputUsed : ℤ
  requests : ℕ
  phase : Phase
  sent : ℕ

/-- How an awaited call fails: with a `ProviderFailure` of kind `transient`, or otherwise. -/
inductive Failure where
  | transient
  | other
  deriving DecidableEq

/-- How an `await` ends, and what the code up to the next one reads from outside. -/
structure Answer where
  /-- `assertLocal`, `assertCurrent` and the deadline let the turn go on. -/
  current : Bool := true
  /-- `Date.now() + delay < deadline`, and the `sleep` was not interrupted. -/
  inTime : Bool := true
  /-- What the awaited call threw. -/
  failure : Option Failure := none
  /-- `result.outputTokens`. -/
  outputTokens : Option ℕ := none
  /-- `randomUUID()`. -/
  uuid : Uuid := 0
  /-- How many of the journal writes succeed. -/
  writes : ℕ := 2

/-- The limit on `requests`. -/
def Budget.rounds (b : Budget) : ℕ := b.toolRounds + b.contextRecoveries + 2

namespace ModelBroker

variable (b : ModelBroker)

/-- `turn` ends, with a result or an error. -/
def stop : ModelBroker := { b with phase := .idle }

variable (budget : Budget)

/-- The `catch` of the retry loop. -/
def caught (attempt : Attempt) (failure : Failure) : ModelBroker :=
  if failure ≠ .transient ∨ attempt.retry ≥ budget.transportRetries then b.stop
  else { b with phase := .backoff attempt }

variable (log : Log)

/-- `turnOnce` from its first `await` to the retry loop. -/
def enter (input : ℕ) : ModelBroker :=
  let total := used log b.scope
  let b := { b with
    inputUsed := total.input, outputUsed := total.output, requests := b.requests + 1 }
  if b.requests > budget.rounds then b.stop
  else if input > b.provider.contextWindowTokens ∨ (input : ℤ) + b.inputUsed > budget.inputTokens then
    b.stop
  else
    let limit := min (b.provider.maxOutputTokens : ℤ) (budget.outputTokens - b.outputUsed)
    if limit ≤ 0 then b.stop else { b with phase := .checking ⟨input, limit, 0⟩ }

/-- The reservation in front of a request. -/
def dispatch (attempt : Attempt) (answer : Answer) : ModelBroker × Log :=
  if b.inputUsed + attempt.input > budget.inputTokens ∨
      b.outputUsed + attempt.limit > budget.outputTokens then (b.stop, log)
  else match reserve log b.scope attempt.input attempt.limit answer.uuid answer.writes with
    | (false, log) => (b.stop, log)
    | (true, log) =>
      ({ b with
         inputUsed := b.inputUsed + attempt.input
         outputUsed := b.outputUsed + attempt.limit
         phase := .dispatching attempt answer.uuid }, log)

/-- What becomes of a decoded answer: more output than the limit is a protocol failure, and a
measured output is settled. -/
def finish (attempt : Attempt) (reservation : Uuid)
    (outputTokens : Option ℕ) (writes : ℕ) : ModelBroker × Log :=
  match outputTokens with
  | none => (b.stop, log)
  | some output =>
    if (output : ℤ) > attempt.limit then (b.stop, log)
    else ({ b with outputUsed := b.outputUsed - (attempt.limit - output) }.stop,
      settle log reservation output writes)

/-- The code of a turn from the `await` it is at to the next. -/
def resume (answer : Answer) : ModelBroker × Log :=
  let current := answer.current && !b.aborted
  match b.phase with
  | .idle => (b, log)
  | .entering input => if current then (b.enter budget log input, log) else (b.stop, log)
  | .checking attempt => if current then b.dispatch budget log attempt answer else (b.stop, log)
  | .dispatching attempt reservation =>
    match answer.failure with
    | some failure => (b.caught budget attempt failure, log)
    | none =>
      if current then
        ({ b with phase := .waiting attempt reservation, sent := b.sent + 1 }, log)
      else (b.stop, log)
  | .waiting attempt reservation =>
    match answer.failure with
    | some failure => (b.caught budget attempt failure, log)
    | none => ({ b with phase := .received attempt reservation answer.outputTokens }, log)
  | .received attempt reservation outputTokens =>
    if !current then (b.stop, log)
    else match answer.failure with
      | some failure => (b.caught budget attempt failure, log)
      | none => b.finish log attempt reservation outputTokens answer.writes
  | .backoff attempt =>
    if current && answer.inTime then
      ({ b with phase := .checking { attempt with retry := attempt.retry + 1 } }, log)
    else (b.stop, log)

end ModelBroker

/-! ## Runs -/

/-- The journal on disk and the brokers of the process. -/
structure State where
  log : Log
  brokers : List ModelBroker

/-- A new state directory. -/
def State.fresh : State := ⟨.empty, []⟩

/-- What happens to a process. -/
inductive Input where
  | create (scope : String) (provider : Provider)
  | abort (broker : ℕ)
  | turn (broker : ℕ) (input : ℕ)
  | resume (broker : ℕ) (answer : Answer)
  | crash

/-- One step, for attempts whose budget is that of their ledger's scope.  A broker is made for
a scope when the one before it has lost its authority: the runner runs one attempt of a job at
a time.  A `turn` of a broker that is busy is refused. -/
def step (budget : String → Budget) (input : Input) (s : State) : Unit × State :=
  match input with
  | .create scope provider =>
    if s.brokers.all fun b => b.scope ≠ scope || b.aborted then
      ((), { s with brokers := s.brokers ++ [⟨scope, provider, false, 0, 0, 0, .idle, 0⟩] })
    else ((), s)
  | .abort i => ((), { s with brokers := s.brokers.modify i ({ · with aborted := true }) })
  | .turn i input =>
    ((), { s with brokers := s.brokers.modify i fun b =>
      if b.phase = .idle then { b with phase := .entering input } else b })
  | .resume i answer =>
    match s.brokers[i]? with
    | none => ((), s)
    | some b =>
      let r := b.resume (budget b.scope) s.log answer
      ((), ⟨r.2, s.brokers.set i r.1⟩)
  | .crash => ((), { s with brokers := [] })

end GrowTeam.Budgets

/-! # The runtimes of a runner (`services/grow-agent-runner/src/runtime-supervisor.ts`, -/

namespace GrowTeam.Lanes

open Budgets (Answer Failure ModelBroker Provider Usage Log)

/-- What the code reads of a descriptor. -/
structure Job where
  jobKind : JobKind
  /-- `d.adapter.mode === "endpoint"`. -/
  endpoint : Bool
  provider : Provider
  budget : Budgets.Budget
  activeSeconds : ℕ
  active_pos : 1 ≤ activeSeconds
  /-- The size of `tools.catalog`. -/
  catalogBytes : ℕ

inductive RuntimeKind where
  | anthropic
  | containedEndpoint
  | acp
  deriving DecidableEq

/-- The runtime that `execute` selects; `fastLane` is `this.config.fast_lane === true`. -/
def Job.runtime (d : Job) (fastLane : Bool) : RuntimeKind :=
  if d.jobKind = .answer ∧ fastLane = true then .anthropic
  else if d.endpoint then .containedEndpoint else .acp

/-! ## `AnthropicRuntime` -/

/-- Where `sendTurn` waits. -/
inductive TurnPhase where
  /-- No turn runs. -/
  | idle
  /-- `await this.authority.assertCurrent()`. -/
  | checking (round : ℕ)
  /-- `await stream.finalMessage()`, with the retries that are left to the SDK. -/
  | streaming (round retries : ℕ)
  /-- `await this.tools.call(...)`. -/
  | calling (round : ℕ)
  /-- `sendTurn` has thrown, and `execute` with it. -/
  | failed
  deriving DecidableEq

/-- `abort.signal.aborted`, and the sizes of `messages`. -/
structure AnthropicRuntime where
  aborted : Bool
  messages : List ℕ
  phase : TurnPhase

/-- How the message of the model ends. -/
inductive StopReason where
  | toolUse
  | answer
  /-- A refusal, or no text. -/
  | nothing

/-- How an `await` of `sendTurn` ends. -/
structure Reply where
  /-- `assertCurrent` does not throw, apart from the signal and the deadline. -/
  current : Bool := true
  failure : Option Failure := none
  stopReason : StopReason := .answer
  /-- The size of the message that is pushed. -/
  bytes : ℕ := 0

def maxRetries : ℕ := 2

def Job.maxTokens (d : Job) : ℤ := min d.provider.maxOutputTokens d.budget.outputTokens

namespace AnthropicRuntime

variable (r : AnthropicRuntime)

/-- The size of `JSON.stringify(messages)`. -/
def bytes : ℕ := r.messages.foldl (fun total size => total + size + 1) 1

def push (size : ℕ) : AnthropicRuntime :=
  { r with messages := r.messages ++ [size] }

/-- `sendTurn` up to its first `await`. -/
def sendTurn (size : ℕ) : AnthropicRuntime :=
  if r.phase = .idle then { r.push size with phase := .checking 0 } else r

/-- `sendTurn` from one `await` to the next, and whether a request is made; `current` is what
`assertCurrent` finds. -/
def resume (d : Job) (current : Bool) (reply : Reply) : AnthropicRuntime × Bool :=
  match r.phase with
  | .idle => (r, false)
  | .failed => (r, false)
  | .checking round =>
    if current && !r.aborted then ({ r with phase := .streaming round maxRetries }, true)
    else ({ r with phase := .failed }, false)
  | .streaming round retries =>
    match reply.failure with
    | some .transient =>
      if retries = 0 ∨ r.aborted = true then ({ r with phase := .failed }, false)
      else ({ r with phase := .streaming round (retries - 1) }, true)
    | some .other => ({ r with phase := .failed }, false)
    | none =>
      match reply.stopReason with
      | .answer => ({ r.push reply.bytes with phase := .idle }, false)
      | .nothing => ({ r.push reply.bytes with phase := .failed }, false)
      | .toolUse => ({ r.push reply.bytes with phase := .calling round }, false)
  | .calling round =>
    if reply.failure.isSome then ({ r with phase := .failed }, false)
    else if round + 1 ≤ d.budget.toolRounds then
      ({ r.push reply.bytes with phase := .checking (round + 1) }, false)
    else ({ r.push reply.bytes with phase := .failed }, false)

end AnthropicRuntime

/-! ## Attempts -/

/-- An attempt that runs; its `ModelBroker` has the same index. -/
structure Execution where
  deadline : ℕ
  anthropic : Option AnthropicRuntime

/-- A provider request. -/
structure Request where
  scope : String
  /-- Its reservation, if it was made by a `ModelBroker`. -/
  reservation : Option Uuid
  input : ℕ
  limit : ℤ
  startedAt : ℕ
  deadline : ℕ
  /-- `active.abort.signal.aborted` at that time. -/
  aborted : Bool

structure Process where
  models : Budgets.State
  executions : List Execution
  now : ℕ
  drawn : ℕ
  requests : List Request

/-- A new state directory. -/
def Process.start : Process := ⟨.fresh, [], 0, 0, []⟩

/-- What happens to a process. -/
inductive Input where
  | execute (scope : String) (attemptDeadline : ℕ)
  | wait (ms : ℕ)
  /-- The timer of the deadline. -/
  | expire (execution : ℕ)
  /-- `stop`, and what follows a failure of `execute`. -/
  | stop (execution : ℕ)
  /-- A contained runtime calls `ModelBroker.turn`. -/
  | turn (execution input : ℕ)
  | resume (execution : ℕ) (answer : Answer)
  /-- The first turn or a further input is given to the `AnthropicRuntime`. -/
  | sendTurn (execution bytes : ℕ)
  | reply (execution : ℕ) (reply : Reply)
  | crash

/-- The request that a piece of `turnOnce` has made. -/
def madeRequest (before after : ModelBroker) : Option (Budgets.Attempt × Uuid) :=
  match before.phase, after.phase with
  | .dispatching attempt reservation, .waiting _ _ => some (attempt, reservation)
  | _, _ => none

section

variable (fastLane : Bool) (jobs : String → Job)

/-- What the `ModelBroker`s do. -/
def modelStep (input : Budgets.Input) (models : Budgets.State) : Budgets.State :=
  (Budgets.step (fun scope => (jobs scope).budget) input models).2

/-- `execute`, when no other attempt of the job has authority. -/
def execute (scope : String) (attemptDeadline : ℕ) (p : Process) : Process :=
  if p.models.brokers.all fun b => b.scope ≠ scope || b.aborted then
    let d := jobs scope
    { p with
      models := modelStep jobs (.create scope d.provider) p.models
      executions := p.executions ++ [{
        deadline := min (p.now + d.activeSeconds * 1000) attemptDeadline
        anthropic := if d.runtime fastLane = .anthropic then some ⟨false, [], .idle⟩ else none }] }
  else p

/-- A piece of `turnOnce`. -/
def resume (i : ℕ) (answer : Answer) (e : Execution) (p : Process) : Process :=
  let answer := { answer with
    current := answer.current && decide (p.now < e.deadline), uuid := p.drawn }
  let models := modelStep jobs (.resume i answer) p.models
  let requests := match p.models.brokers[i]?, models.brokers[i]? with
    | some before, some after =>
      match madeRequest before after with
      | none => []
      | some (attempt, reservation) =>
        [⟨before.scope, some reservation, attempt.input, attempt.limit, p.now, e.deadline,
          before.aborted⟩]
    | _, _ => []
  { p with models := models, drawn := p.drawn + 1, requests := p.requests ++ requests }

/-- A piece of `sendTurn`. -/
def reply (i : ℕ) (reply : Reply) (e : Execution) (b : ModelBroker) (r : AnthropicRuntime)
    (p : Process) : Process :=
  let d := jobs b.scope
  let current := reply.current && !b.aborted && decide (p.now < e.deadline)
  let (resumed, made) := r.resume d current reply
  let requests := if made then
      [⟨b.scope, none, r.bytes + d.catalogBytes, d.maxTokens, p.now, e.deadline, b.aborted⟩]
    else []
  { p with
    executions := p.executions.set i { e with anthropic := some resumed }
    requests := p.requests ++ requests }

def step (input : Input) (p : Process) : Unit × Process :=
  match input with
  | .execute scope attemptDeadline => ((), execute fastLane jobs scope attemptDeadline p)
  | .wait ms => ((), { p with now := p.now + ms })
  | .expire i =>
    match p.executions[i]? with
    | none => ((), p)
    | some e =>
      if e.deadline ≤ p.now then ((), { p with models := modelStep jobs (.abort i) p.models })
      else ((), p)
  | .stop i =>
    ((), { p with
      models := modelStep jobs (.abort i) p.models
      executions := p.executions.modify i fun e =>
        { e with anthropic := e.anthropic.map fun r => { r with aborted := true } } })
  | .turn i input =>
    match p.executions[i]? with
    | none => ((), p)
    | some e =>
      if e.anthropic.isSome then ((), p)
      else ((), { p with models := modelStep jobs (.turn i input) p.models })
  | .resume i answer =>
    match p.executions[i]? with
    | none => ((), p)
    | some e => ((), resume jobs i answer e p)
  | .sendTurn i bytes =>
    match p.executions[i]?, p.models.brokers[i]? with
    | some e, some b =>
      if b.aborted then ((), p)
      else ((), { p with
        executions := p.executions.set i
          { e with anthropic := e.anthropic.map (·.sendTurn bytes) } })
    | _, _ => ((), p)
  | .reply i answer =>
    match p.executions[i]?, p.models.brokers[i]? with
    | some e, some b =>
      match e.anthropic with
      | none => ((), p)
      | some r => ((), reply jobs i answer e b r p)
    | _, _ => ((), p)
  | .crash => ((), { p with models := modelStep jobs .crash p.models, executions := [] })

end

/-! ## What a job has spent -/

/-- The output limit of a request, less what was refunded. -/
def Request.output (log : Log) (q : Request) : ℤ :=
  match q.reservation.bind log.get with
  | some e => Budgets.outputOf e
  | none => q.limit

/-- What some requests have cost. -/
def cost (log : Log) (requests : List Request) : Usage :=
  requests.foldl (fun total q => ⟨total.input + q.input, total.output + q.output log⟩) ⟨0, 0⟩

/-- The requests of a job. -/
def Process.of (p : Process) (scope : String) : List Request :=
  p.requests.filter fun q => q.scope = scope

/-- The job is within its budget, and each of its requests was made before the deadline and before
the abort. -/
structure KeepsBudget (d : Job) (scope : String) (p : Process) : Prop where
  input : (cost p.models.log (p.of scope)).input ≤ d.budget.inputTokens
  output : (cost p.models.log (p.of scope)).output ≤ d.budget.outputTokens
  inTime : ∀ q ∈ p.of scope, q.startedAt < q.deadline ∧ q.aborted = false

end GrowTeam.Lanes
