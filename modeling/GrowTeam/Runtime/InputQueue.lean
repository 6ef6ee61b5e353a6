/-
# The inputs of a running attempt (`services/grow-agent-runner/src/input-queue.ts`)

An `InputQueue` hands the messages of the user to the model, one turn each.  What it has
done with an input is in the journal: `prepared` until a turn is started for it, `uncertain`
while the turn runs, `done` once it has a receipt.  `submit`, `next` and the abort listener
are interleaved at their `await`s; a crash drops the queues and keeps the journal.

`deeds` is no variable of the program.  It is the record of what the process did that
others can see: the calls of `sendTurn`, and the receipts it stored or passed on.

The ids `runtime-input:${attempt_id}:${input.id}` are written by this file alone, so they are
the whole journal here.  The promises that `submit` returns are not modelled: a receipt counts
as passed on when it is given to `resolve`, to `acknowledge` or back to a caller of `submit`.
-/
import GrowTeam.Interleaving
import GrowTeam.Protocol
import GrowTeam.Runner.Journal

namespace GrowTeam.Runtime

open Interleaving

/-! ## Values -/

/-- `InputReceipt.outcome`. -/
inductive Outcome where
  | applied
  | notApplied
  deriving DecidableEq

structure InputReceipt where
  outcome : Outcome
  receiptId : Uuid
  deriving DecidableEq

/-- What the queue reads of an input. -/
structure RunnerInput where
  id : Uuid
  sequence : ℕ
  text : String
  deriving DecidableEq

/-- `runtime-input:${attempt_id}:${input.id}`. -/
structure Key where
  attemptId : Uuid
  inputId : Uuid
  deriving DecidableEq

/-- What `complete` stores. -/
structure InputResponse where
  receipt : InputReceipt
  answer : String
  inputSequence : ℕ
  deriving DecidableEq

/-- The JSON values of the `request` and `response` columns. -/
inductive Record where
  | request (lease : LeaseIdentity) (input : RunnerInput)
  | response (response : InputResponse)
  deriving DecidableEq

/-- The value as a stored response. -/
def Record.asResponse : Record → Option InputResponse
  | .response r => some r
  | .request _ _ => none

abbrev Log := Journal Key Record
abbrev LogEntry := Entry Key Record

/-! ## The store -/

/-- One `InputQueue` object with the signal it listens to. -/
structure InputQueue where
  d : LeaseIdentity
  aborted : Bool
  cursor : ℕ
  pending : List RunnerInput
  deriving DecidableEq

/-- The id under which a queue keeps an input. -/
def InputQueue.key (q : InputQueue) (input : RunnerInput) : Key := ⟨q.d.attemptId, input.id⟩

/-- What others see of the process. -/
inductive Deed where
  /-- `runtime.sendTurn(text, id)` was called. -/
  | sendTurn (key : Key) (text : String)
  /-- A receipt was stored or passed on. -/
  | receipt (key : Key) (receipt : InputReceipt)
  deriving DecidableEq

/-- The input a deed is about. -/
def Deed.key : Deed → Key
  | .sendTurn k _ => k
  | .receipt k _ => k

variable (key : Key)

/-- Whether the deed starts a turn for the input. -/
def Deed.sends : Deed → Bool
  | .sendTurn k _ => k = key
  | .receipt _ _ => false

/-- The journal on disk, the queues of the process, and what it has done. -/
structure Store where
  log : Log
  queues : List InputQueue
  deeds : List Deed

/-- A new state directory. -/
def Store.fresh : Store := ⟨.empty, [], []⟩

variable (s : Store)

/-- What a crash and a restart leave. -/
def Store.restart : Store := { s with queues := [] }

/-- Assigns to the fields of one queue. -/
def Store.setQueue (i : ℕ) (f : InputQueue → InputQueue) : Store :=
  { s with queues := s.queues.modify i f }

/-- Adds to the record of what was done. -/
def Store.did (deed : Deed) : Store := { s with deeds := s.deeds ++ [deed] }

/-- What one step may read from outside. -/
structure Outside where
  /-- `randomUUID()`. -/
  uuid : Uuid := 0
  /-- The journal refuses the value, or its write fails. -/
  failure : Option String := none
  /-- How `runtime.sendTurn` ends. -/
  reply : Except String String := .error "Runtime stopped"
  /-- How `acknowledge` ends. -/
  acknowledged : Except String Unit := .error "Acknowledgement lost"

/-- A method of the queue. -/
abbrev Program := ExceptT String (Routine Store Outside Unit)

/-! ## Atomic steps -/

/-- A step that reads one queue object. -/
def withQueue (awaits : Bool) (i : ℕ)
    (act : Outside → Store → InputQueue → Except String (α × Store)) : Program α :=
  Routine.attempt awaits () fun outside s =>
    match s.queues[i]? with
    | some q => act outside s q
    | none => .error "TypeError"

/-- The text of a journal error. -/
def journalError : JournalError → String
  | .identityConflict => "Journal identity conflict"
  | .unknownIdentity => "Unknown journal identity"
  | .receiptConflict => "Receipt conflict"

/-- `log.prepare("runtime-input", id, "local", request)`. -/
def prepare (request : Record) : Program LogEntry :=
  Routine.attempt false () fun outside s =>
    match outside.failure, s.log.prepare "runtime-input" key "local" request "" with
    | some failure, _ => .error failure
    | none, .error e => .error (journalError e)
    | none, .ok (entry, log) => .ok (entry, { s with log })

/-- `log.get(id)!`. -/
def get : Program LogEntry :=
  Routine.attempt false () fun _ s =>
    match s.log.get key with
    | some entry => .ok (entry, s)
    | none => .error "TypeError"

/-- `log.uncertain(id)`. -/
def uncertain : Program Unit :=
  Routine.attempt false () fun outside s =>
    match outside.failure with
    | some failure => .error failure
    | none => .ok ((), { s with log := s.log.uncertain key })

/-- `log.complete(id, {receipt, answer, input_sequence})`. -/
def Store.complete (failure : Option String) (key : Key) (response : InputResponse) :
    Except String Store :=
  match failure, s.log.complete key (.response response) with
  | some failure, _ => .error failure
  | none, .error e => .error (journalError e)
  | none, .ok log => .ok ({ s with log }.did (.receipt key response.receipt))

/-- A receipt is passed on. -/
def pass (receipt : InputReceipt) : Program Unit :=
  Routine.attempt false () fun _ s => .ok ((), s.did (.receipt key receipt))

/-! ## `submit` -/

variable (i : ℕ)

/-- The part of `submit` after `prepare`: a pending input keeps its promise, an input with a
receipt gets it again, and a new one joins `pending`. -/
def enter (key : Key) (input : RunnerInput) (entry : LogEntry) : Program Unit :=
  withQueue false i fun _ s q =>
    let receipt := (entry.response.bind Record.asResponse).map InputResponse.receipt
    if q.pending.any (·.id = input.id) then .ok ((), s)
    else if entry.state = .done ∧ receipt.map InputReceipt.outcome = some .notApplied then
      .ok ((), (receipt.map fun r => s.did (.receipt key r)).getD s)
    else if entry.state = .uncertain then
      .error "Runtime input outcome is uncertain; do not replay"
    else if input.sequence ≤ q.cursor then
      if entry.state ≠ .done then .error "Input cursor has no matching receipt"
      else match receipt with
        | some r => .ok ((), s.did (.receipt key r))
        | none => .error "TypeError"
    else .ok ((), s.setQueue i fun q => { q with pending := q.pending ++ [input] })

/-- `submit(input)`. -/
def submit (input : RunnerInput) : Program Unit := do
  let q ← withQueue true i fun _ s q =>
    if q.aborted then .error "Input attempt is stopped" else .ok (q, s)
  let entry ← prepare (q.key input) (.request q.d input)
  enter i (q.key input) input entry

/-! ## `next` -/

/-- The pending input of the lowest sequence number. -/
def InputQueue.first (q : InputQueue) : Option RunnerInput :=
  (q.pending.mergeSort fun a b => a.sequence ≤ b.sequence).head?

variable (p : RunnerInput) (sanitize : String → Except String String)

/-- The turn that `next` starts for a prepared input; the entry afterwards. -/
def dispatch (entry : LogEntry) : Program LogEntry :=
  if entry.state = .prepared then do
    uncertain key
    Routine.attempt false () fun _ s => .ok ((), s.did (.sendTurn key p.text))
    Routine.attempt true () fun outside s => do
      let answer ← outside.reply.bind sanitize
      let s ← s.complete outside.failure key ⟨⟨.applied, outside.uuid⟩, answer, p.sequence⟩
      .ok ((), s)
    get key
  else pure entry

/-- The receipt of an entry that is done. -/
def finished (entry : LogEntry) : Program InputReceipt :=
  if entry.state ≠ .done then throw "Runtime input outcome is uncertain; do not replay"
  else match entry.response.bind Record.asResponse with
    | some response => pure response.receipt
    | none => throw "TypeError"

/-- What `next` does once `acknowledge` has ended: the cursor moves and the input leaves
`pending`. -/
def advance (key : Key) (receipt : InputReceipt) : Program Unit :=
  withQueue true i fun outside s q => do
    let _ ← outside.acknowledged
    if q.aborted then .error "Input acknowledgement needs recovery"
    else
      let settled := s.setQueue i fun q =>
        { q with cursor := p.sequence, pending := q.pending.filter (·.id ≠ p.id) }
      .ok ((), settled.did (.receipt key receipt))

/-- `next(runtime, acknowledge, sanitize)`. -/
def next : Program Unit := do
  let first ← withQueue true i fun _ s q =>
    if q.aborted then .error "Input attempt is stopped"
    else .ok (q.first.map fun p => (q.key p, p), s)
  match first with
  | none => pure ()
  | some claimed =>
    let entry ← get claimed.1
    let entry ← dispatch claimed.1 claimed.2 sanitize entry
    let receipt ← finished entry
    pass claimed.1 receipt
    advance i claimed.2 claimed.1 receipt

/-! ## The abort listener -/

/-- The listener for one pending input: without a turn it gets its receipt now. -/
def withdraw : Program Unit := do
  let receipt ← Routine.attempt false () fun outside s =>
    match s.log.get key with
    | some entry =>
      if entry.state = .prepared then do
        let receipt : InputReceipt := ⟨.notApplied, outside.uuid⟩
        let s ← s.complete outside.failure key ⟨receipt, "", p.sequence⟩
        .ok (some receipt, s)
      else .ok (none, s)
    | none => .ok (none, s)
  match receipt with
  | some receipt => pass key receipt
  | none => pure ()

/-- `abort.abort()`: the signal fires once. -/
def abort : Program Unit := do
  let items ← withQueue true i fun _ s q =>
    if q.aborted then .ok ([], s)
    else .ok (q.pending.map fun p => (q.key p, p), s.setQueue i fun q => { q with aborted := true })
  items.forM fun item => withdraw item.1 item.2

/-! ## The machine -/

/-- What a process may be asked to do with its queues, each named by its index. -/
inductive Call where
  | create (d : LeaseIdentity) (aborted : Bool) (cursor : ℕ)
  | submit (queue : ℕ) (input : RunnerInput)
  | next (queue : ℕ) (sanitize : String → Except String String)
  | abort (queue : ℕ)

/-- `new InputQueue(log, d, signal, cursor)`. -/
def create (d : LeaseIdentity) (aborted : Bool) (cursor : ℕ) : Program Unit :=
  Routine.attempt true () fun _ s =>
    .ok ((), { s with queues := s.queues ++ [⟨d, aborted, cursor, []⟩] })

/-- The method behind a call. -/
def program : Call → Program Unit
  | .create d aborted cursor => create d aborted cursor
  | .submit i input => submit i input
  | .next i sanitize => next i sanitize
  | .abort i => abort i

/-- A process with its state directory. -/
def machine : Machine Store Outside Unit Call where
  routine call := (program call).run.bind fun _ => .done ()
  reboot := Store.restart

end GrowTeam.Runtime
