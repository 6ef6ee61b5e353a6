/-
# The agent loop and its tool calls (`services/grow-agent-runner/src/runtime.ts`)

An `EndpointRuntime` asks the model, runs the tool calls of the answer through a `RuntimeTools`
and asks again.  `RuntimeTools.call` keeps each call in the journal before it runs it.  Both are
interleaved at their `await`s: `Loop` and `Phase` are the waits, and a step runs the code from
one wait to the next.

A process has any number of sessions, a runtime with its tools each, over one journal.  A crash
drops the sessions and keeps the journal.  `executed`, `deeds` and the number of the turn are no
variables of the program: they are what ran, and what the model was asked and answered.
-/
import GrowTeam.Protocol
import GrowTeam.Runner.Journal

namespace GrowTeam.Runtime.Endpoint

/-! ## Calls and messages -/

structure ToolCall where
  id : String
  name : String
  arguments : String
  deriving DecidableEq

/-- A `Message` by its `role`. -/
inductive Message where
  | user (text : String)
  | assistant (text : String) (calls : List ToolCall)
  | tool (text : String) (callId : String)

/-- The characters of `/[\w-]/`. -/
def wordChar (c : Char) : Bool := c.isAlphanum || c = '_' || c = '-'

/-- `/^[\w-]{1,200}$/.test(id)`. -/
def idAllowed (id : String) : Bool :=
  decide (1 ≤ id.length) && decide (id.length ≤ 200) && id.toList.all wordChar

/-- The key of a call in the journal. -/
def callKey (scope id : String) : String := "model-call:" ++ scope ++ ":" ++ id

/-- What the code reads of `Budget`. -/
structure Budget where
  toolRounds : ℕ
  contextRecoveries : ℕ

/-- What a `RuntimeTools` is built with, where `δ` are the JSON values. -/
structure Tools (δ : Type) where
  /-- The names of the catalog. -/
  catalog : List String
  /-- `filter.assertArguments(call)` does not throw. -/
  clean : ToolCall → Bool
  /-- `JSON.parse`, when it gives an object without `kind`. -/
  parse : String → Option δ
  /-- `validate(call, raw)`, when the result passes the filter as well. -/
  validate : ToolCall → δ → Option δ
  /-- `filter.text`. -/
  redact : String → String

/-- The values of the `request` and `response` columns. -/
inductive Record (δ : Type) where
  | intent (callId : String) (operationId : Uuid) (name : String) (arguments : δ)
  | receipt (callId : String) (operationId : Uuid) (output : String)
  deriving DecidableEq

abbrev Log (δ : Type) := Journal String (Record δ)

/-! ## The state -/

/-- Where a `RuntimeTools.call` waits. -/
inductive Phase (δ : Type) where
  /-- `await this.authority.assertCurrent()`. -/
  | checking (arguments : δ)
  /-- `await this.execute(operationId, tool)`. -/
  | executing (operationId : Uuid)
  /-- `return await this.callOnce(call)`. -/
  | returning (output : Option String)
  /-- The promise is settled. -/
  | done (output : Option String)

/-- Where `sendTurn` waits. -/
inductive Loop where
  /-- No turn runs; `busy` is every other place. -/
  | idle
  /-- `await this.authority.assertCurrent()`. -/
  | asserting (round active : ℕ)
  /-- `await this.model.turn(…)`. -/
  | model (round active : ℕ)
  /-- `await this.tools.call(call)`, the call of that index. -/
  | tool (round active : ℕ) (call : ToolCall) (rest : List ToolCall) (index : ℕ)
  deriving DecidableEq

inductive Deed where
  /-- The model was asked. -/
  | request (turn : ℕ) (messages : List Message)
  /-- The tool calls of an answer go to the tools. -/
  | accepted (text : String) (calls : List ToolCall)

/-- An `EndpointRuntime` and its `RuntimeTools`. -/
structure Session (δ : Type) where
  scope : String
  messages : List Message
  closed : Bool
  recovery : ℕ
  inputs : List String
  loop : Loop
  /-- A turn was rejected. -/
  failed : Bool
  /-- `RuntimeTools.busy`. -/
  busy : Bool
  calls : List (ToolCall × Phase δ)
  turn : ℕ
  deeds : List Deed

/-- The journal, what ran of it by scope and call id, and the sessions of the process. -/
structure Process (δ : Type) where
  log : Log δ
  executed : List (String × String)
  sessions : List (Session δ)

/-- How `model.turn` ends. -/
inductive Reply where
  | answer (text : String) (calls : List ToolCall)
  /-- `ProviderFailure("context")`. -/
  | context
  | failure

/-- What one step may read from outside. -/
structure Outside where
  /-- The wait ends with an error. -/
  fails : Bool := false
  /-- The signal is aborted, or the deadline has passed. -/
  aborted : Bool := false
  reply : Reply := .failure
  /-- `randomUUID()`. -/
  uuid : Uuid := 0
  /-- What `execute` returns. -/
  output : String := ""
  /-- The journal writes that succeed. -/
  writes : ℕ := 2

variable {δ : Type}

/-! ## `RuntimeTools` -/

/-- The checks of `callOnce` up to its first wait. -/
def Tools.admit (t : Tools δ) (call : ToolCall) : Option δ :=
  if !idAllowed call.id || decide (65536 < call.arguments.utf8ByteSize) then none
  else if !t.catalog.contains call.name then none
  else if !t.clean call then none
  else (t.parse call.arguments).bind (t.validate call)

namespace Session

def setPhase (s : Session δ) (k : ℕ) (call : ToolCall) (phase : Phase δ) : Session δ :=
  { s with calls := s.calls.set k (call, phase) }

/-- `call(call)` up to its first wait. -/
def call (t : Tools δ) (s : Session δ) (call : ToolCall) : Session δ :=
  if s.busy then { s with calls := s.calls ++ [(call, .done none)] }
  else match t.admit call with
    | none => { s with busy := true, calls := s.calls ++ [(call, .returning none)] }
    | some arguments => { s with busy := true, calls := s.calls ++ [(call, .checking arguments)] }

end Session

/-- The writes between the look into the journal and the execution; whether it starts. -/
def keepIntent [DecidableEq δ] (log : Log δ) (key : String) (intent : Record δ) (writes : ℕ) :
    Bool × Log δ :=
  if writes = 0 then (false, log)
  else match log.prepare "model-call" key "local" intent "" with
    | .error _ => (false, log)
    | .ok (_, log) => if writes = 1 then (false, log) else (true, log.uncertain key)

/-- `journal.complete(key, …)`; whether it succeeded. -/
def keepReceipt [DecidableEq δ] (log : Log δ) (key : String) (receipt : Record δ) (writes : ℕ) :
    Bool × Log δ :=
  if writes = 0 then (false, log)
  else match log.complete key receipt with
    | .error _ => (false, log)
    | .ok log => (true, log)

/-- The answer to the wait of call `k` in session `s`. -/
def advanceCall [DecidableEq δ] (t : Tools δ) (p : Process δ) (s : Session δ) (k : ℕ)
    (out : Outside) (call : ToolCall) : Phase δ → Process δ × Session δ
  | .checking arguments =>
    if out.fails || out.aborted || (p.log.get (callKey s.scope call.id)).isSome then
      (p, s.setPhase k call (.returning none))
    else
      let kept := keepIntent p.log (callKey s.scope call.id)
        (.intent call.id out.uuid call.name arguments) out.writes
      if kept.1 then
        ({ p with log := kept.2, executed := p.executed ++ [(s.scope, call.id)] },
          { s.setPhase k call (.executing out.uuid) with busy := true })
      else ({ p with log := kept.2 }, s.setPhase k call (.returning none))
  | .executing operationId =>
    if out.fails then (p, { s.setPhase k call (.returning none) with busy := false })
    else
      let kept := keepReceipt p.log (callKey s.scope call.id)
        (.receipt call.id operationId (t.redact out.output)) out.writes
      ({ p with log := kept.2 },
        { s.setPhase k call (.returning (if kept.1 then some (t.redact out.output) else none)) with
          busy := false })
  | .returning output => (p, { s.setPhase k call (.done output) with busy := false })
  | .done _ => (p, s)

/-! ## `EndpointRuntime` -/

namespace Session

/-- The turn is rejected. -/
def reject (s : Session δ) : Session δ := { s with loop := .idle, failed := true }

variable (b : Budget)

/-- The head of the loop after a round. -/
def nextRound (s : Session δ) (round active : ℕ) : Session δ :=
  if round < b.toolRounds then { s with loop := .asserting (round + 1) active } else s.reject

/-- The head of the loop over the calls of an answer. -/
def nextCall (t : Tools δ) (s : Session δ) (round active : ℕ) : List ToolCall → Session δ
  | c :: rest => { s.call t c with loop := .tool round active c rest s.calls.length }
  | [] => s.nextRound b round active

/-- `sendTurn(text, inputId)` up to its first wait. -/
def sendTurn (s : Session δ) (text inputId : String) : Session δ :=
  if s.closed || s.loop ≠ .idle || s.inputs.contains inputId then s
  else
    { s with inputs := s.inputs ++ [inputId], messages := s.messages ++ [.user text],
             turn := s.turn + 1, loop := .asserting 0 s.messages.length }

/-- An answer of the model. -/
def answered (t : Tools δ) (s : Session δ) (round active : ℕ) (text : String)
    (calls : List ToolCall) : Session δ :=
  let s : Session δ := { s with messages := s.messages ++ [.assistant text calls] }
  if calls = [] then { s with loop := .idle }
  else if round = b.toolRounds then s.reject
  else nextCall b t { s with deeds := s.deeds ++ [.accepted text calls] } round active calls

/-- The answer to the wait of the loop. -/
def advanceLoop (t : Tools δ) (s : Session δ) (out : Outside) : Session δ :=
  match s.loop with
  | .idle => s
  | .asserting round active =>
    if out.fails || s.closed || out.aborted then s.reject
    else { s with deeds := s.deeds ++ [.request s.turn s.messages], loop := .model round active }
  | .model round active =>
    match out.reply with
    | .failure => s.reject
    | .context =>
      -- `this.recovery++` counts every context failure
      if s.recovery < b.contextRecoveries ∧ 0 < active ∧ round = 0 then
        nextRound b { s with recovery := s.recovery + 1, messages := s.messages.drop active }
          round active
      else reject { s with recovery := s.recovery + 1 }
    | .answer text calls =>
      if s.closed || out.aborted then s.reject else s.answered b t round active text calls
  | .tool round active call rest index =>
    match s.calls[index]? with
    | some (_, .done (some output)) =>
      nextCall b t { s with messages := s.messages ++ [.tool output call.id] } round active rest
    | some (_, .done none) => s.reject
    -- the request to the tools may be lost
    | _ => if out.fails then s.reject else s

end Session

/-! ## Runs -/

inductive Move where
  /-- A new runtime with its tools. -/
  | opened (scope : String)
  /-- `resume`, before the first turn; the text is that of the checkpoint. -/
  | resume (i : ℕ) (text : String)
  | sendTurn (i : ℕ) (text inputId : String)
  /-- `cancel` and `close`. -/
  | close (i : ℕ)
  /-- The answer to the wait of a turn. -/
  | loop (i : ℕ) (out : Outside)
  /-- A call that does not come from the turn. -/
  | call (i : ℕ) (call : ToolCall)
  /-- The answer to the wait of call `k`. -/
  | advance (i k : ℕ) (out : Outside)
  /-- The process ends, and starts again over its journal. -/
  | crash

def Session.fresh (scope : String) : Session δ :=
  ⟨scope, [], false, 0, [], .idle, false, false, [], 0, []⟩

/-- `resume(checkpoint)`. -/
def Session.resume (s : Session δ) (text : String) : Session δ :=
  if s.turn = 0 then { s with messages := [.user text] } else s

/-- A step of one session alone. -/
def Process.update (p : Process δ) (i : ℕ) (f : Session δ → Session δ) : Process δ :=
  { p with sessions := p.sessions.modify i f }

/-- The run of an attempt and its queue of inputs end with the first turn that is rejected
(`runtime-supervisor.ts`, `input-queue.ts`): none is sent after it. -/
def step [DecidableEq δ] (b : Budget) (t : Tools δ) (p : Process δ) : Move → Process δ
  | .opened scope => { p with sessions := p.sessions ++ [.fresh scope] }
  | .resume i text => p.update i fun s => s.resume text
  | .sendTurn i text inputId => p.update i fun s => if s.failed then s else s.sendTurn text inputId
  | .close i => p.update i fun s => { s with closed := true }
  | .loop i out => p.update i fun s => s.advanceLoop b t out
  | .call i call => p.update i fun s => s.call t call
  | .advance i k out =>
    match p.sessions[i]? with
    | none => p
    | some s =>
      match s.calls[k]? with
      | none => p
      | some (call, phase) =>
        let next := advanceCall t p s k out call phase
        { next.1 with sessions := p.sessions.set i next.2 }
  | .crash => { p with sessions := [] }

/-- A new state directory. -/
def Process.start : Process δ := ⟨.empty, [], []⟩

/-- The process after the first `n` moves. -/
def states [DecidableEq δ] (b : Budget) (t : Tools δ) (moves : ℕ → Move) : ℕ → Process δ
  | 0 => .start
  | n + 1 => step b t (states b t moves n) (moves n)

end GrowTeam.Runtime.Endpoint
