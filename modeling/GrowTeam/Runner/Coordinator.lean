/-
# The coordinator (`services/grow-agent-runner/src/supervisor.ts`)

Containment, stop evidence, recovery, claims and the tick of one runner process.

`stopped` writes the stop event of an attempt under the id of its lease.  When the server's
event cursor shows that the stored event cannot be the next one, a second event supersedes
it: the first entry is completed with a pointer to the second, and the second is sent.
`recover` reports every lease the server still holds and then every stop entry that is left.

Input delivery, setups and probes are not here.  They reach the coordinator's state only
through `stopSession` and the flag `Input.idle`, and the journal under ids of their own.
-/
import GrowTeam.Runner.Session

namespace GrowTeam.Runner

open Interleaving

/-! ## Stop evidence -/

/-- The payload `stopped` reports. -/
def stopPayload : ProcessPayload :=
  { adapterSessionRef := none, stopConfirmed := true, summary := "" }

/-- The stored stop event is not the next one the server expects. -/
def outdated (entry : LogEntry) (cursor : ℕ) : Bool :=
  entry.state ≠ .done && (entry.request.eventList.head?).any (·.sequence ≠ cursor + 1)

/-- The first half of `stopped`: the id to report under and the entry already there.  An
outdated entry is completed as superseded, which is one durable write. -/
def supersede (d : Descriptor) (cursor : Option ℕ) : Program (Key × Option LogEntry) := do
  let base := Key.stop d.attemptId d.leaseEpoch
  let entry ← query (.checkStop d.toLeaseIdentity cursor) (·.get base)
  match entry, cursor with
  | some old, some c =>
    if outdated old c then do
      let id := Key.stopAt d.attemptId d.leaseEpoch (c + 1)
      complete base (.superseded id c)
      let next ← query .step (·.get id)
      pure (id, next)
    else pure (base, some old)
  | entry, _ => pure (base, entry)

variable (dev : Device)

/-- The event `stopped` stores when no entry is there. -/
def stopEvent (d : Descriptor) (cursor : Option ℕ) : Program RunnerEvent := do
  let event ← newEvent dev d (.attemptStopped stopPayload)
  match cursor with
  | some c => pure { event with sequence := c + 1 }
  | none => pure event

/-- The entry `stopped` reports: the one that is there, or a new one. -/
def stopEntry (d : Descriptor) (cursor : Option ℕ) (id : Key) : Option LogEntry → Program LogEntry
  | some entry => pure entry
  | none => do
    let event ← stopEvent dev d cursor
    prepare dev "stop" id "/runner/stop-evidence" (.stopEvidence event)

/-- `stopped(d, cursor)`. -/
def stopped (d : Descriptor) (cursor : Option ℕ) : Program Unit := do
  assertScope "Coordinator belongs to a retired runner scope"
  let (id, found) ← supersede d cursor
  let entry ← stopEntry dev d cursor id found
  let _ ← awaited (mutate dev "stop" id "/runner/stop-evidence" entry.request)
  assertScope "Coordinator belongs to a retired runner scope"

/-! ## Containment and the end of a session -/

/-- `supervisor.stop(handle)` with a confirmation. -/
def confirmStop : Program Unit :=
  onProcess true fun input p =>
    if input.confirmed then .ok ((), p) else .error (.error "Cannot confirm process stop")

/-- The body of `contain` after the probe ended: the active session is retired. -/
def retireActive : Program (Option Handle) :=
  onProcess true fun _ p =>
    let p := { p with reconciled := false }
    match p.active with
    | some i => .ok ((p.sessions[i]?).map fun s => ⟨i, s.descriptor⟩, p.retire i)
    | none => .ok (none, p)

/-- `contain()`. -/
def contain : Program Unit := do
  onProcess false fun _ p => .ok ((), { p with generation := p.generation + 1 })
  let active ← retireActive
  match active with
  | some _ => confirmStop
  | none => pure ()
  let processes ← onProcess true fun input p => .ok (input.processes, p)
  processes.forM fun attemptId =>
    if active.any (·.descriptor.attemptId = attemptId) then pure () else confirmStop

/-- `this.stopping = promise`; the result names the promise. -/
def beginStopping (update : Process → Process) : Program ℕ :=
  onProcess false fun _ p =>
    let p := update p
    .ok (p.promises, { p with stopping := some p.promises, promises := p.promises + 1 })

/-- The `finally` handler: only this promise is cleared. -/
def endStopping (promise : ℕ) : Program Unit :=
  onProcess true fun _ p =>
    .ok ((), { p with stopping := if p.stopping = some promise then none else p.stopping })

/-- Reports a failure on the process: the `catch` handlers of the session's end. -/
def mark (awaits : Bool) (update : Process → Process) : Program Unit :=
  onProcess awaits fun _ p => .ok ((), update p)

/-- The promise `stopSession` makes. -/
def endSession (h : Handle) : Program Unit := do
  tryCatch confirmStop fun fault => do
    mark false fun p =>
      { p with stopFailure := some "Cannot confirm process stop", reconciled := false }
    throw fault
  tryCatch (awaited (stopped dev h.descriptor none)) fun fault => do
    mark true fun p => { p with reconciled := false }
    throw fault

/-- `stopSession(session)`; for a session that is no longer valid the caller joins the
promise that is under way, if any. -/
def stopSession (h : Handle) : Program Unit := do
  let valid ← onProcess false fun _ p => .ok ((p.sessions[h.index]?).any Session.valid, p)
  if valid then do
    let promise ← beginStopping fun p =>
      { p.retire h.index with generation := p.generation + 1 }
    tryCatch (endSession dev h) fun fault => do
      endStopping promise
      throw fault
    endStopping promise
  else pause

/-- `stopActive()`. -/
def stopActive : Program Unit := do
  let active ← onProcess false fun _ p =>
    let p := { p with generation := p.generation + 1 }
    if p.stopping.isSome then .ok (none, p) else .ok (p.active, p)
  match active with
  | some i => do
    let h ← sessionAt i
    stopSession dev h
  | none => pause

/-- `runtimeTerminated(session)`. -/
def runtimeTerminated (h : Handle) : Program Unit := do
  let live ← onProcess false fun _ p => .ok ((p.current h).isSome, p)
  if live then do
    let promise ← beginStopping fun p =>
      { p.retire h.index with generation := p.generation + 1 }
    pause
    tryCatch (stopped dev h.descriptor none) fun _ =>
      mark true fun p =>
        { p with stopFailure := some "Runtime termination requires owner recovery",
                 reconciled := false }
    endStopping promise
  else pure ()

/-- The timer `armWatchdog` sets. -/
def watchdog (h : Handle) : Program Unit :=
  tryCatch (stopSession dev h) fun _ =>
    mark true fun p =>
      { p with stopFailure := some "Lease shutdown requires owner recovery",
               reconciled := false }

/-! ## Recovery -/

/-- `validateDescriptor(value, runnerId)`. -/
def validated (d : Descriptor) : Program Descriptor := do
  ensure (dev.validateDescriptor d && d.runnerId = dev.runnerId) "Invalid attempt descriptor"
  pure d

/-- The claims without an answer are sent again. -/
def replayClaims : Program Unit := do
  let entries ← query .step (·.list "claim")
  entries.forM fun entry =>
    if entry.state ≠ .done then do
      let _ ← awaited (send entry)
      assertScope "Coordinator belongs to a retired runner scope"
    else pure ()

variable (leases : List LeaseReport)

/-- Every lease the server reports gets its stop evidence. -/
def reportLeases : Program Unit :=
  leases.forM fun item => do
    let d ← validated dev item.descriptor
    awaited (stopped dev d (some item.eventCursor))

/-- The stop entries of attempts the server no longer reports are sent again. -/
def replayStops : Program Unit := do
  let entries ← query .step (·.list "stop")
  entries.forM fun entry =>
    if entry.state ≠ .done ∧ ∀ item ∈ leases, (entry.request.eventList.head?).all
        (·.attemptId ≠ item.descriptor.attemptId) then do
      let _ ← awaited (send entry)
      pure ()
    else pure ()

/-- `this.reconciled = true`. -/
def setReconciled : Program Unit :=
  Routine.attempt false (.reconciled leases) fun _ s =>
    .ok ((), { s with process := { s.process with reconciled := true } })

/-- `recover()`. -/
def recover : Program Unit := do
  awaited contain
  assertScope "Coordinator belongs to a retired runner scope"
  replayClaims
  let response ← request "/runner/leases" none
  assertScope "Coordinator belongs to a retired runner scope"
  let leases ← field response.leases
  reportLeases dev leases
  replayStops leases
  assertScope "Coordinator belongs to a retired runner scope"
  setReconciled leases

/-! ## Claims -/

/-- The id and the request of the next claim: the one without an answer, or a new one. -/
def claimIdentity : Program (Key × Data) :=
  Routine.attempt false .step fun input s =>
    match (s.journal.list "claim").find? (·.state ≠ .done) with
    | some pending => .ok ((pending.id, pending.request), s)
    | none => .ok ((.claim input.uuid, .claim input.uuid), s)

/-- The session of a fresh claim becomes the active one. -/
def openSession (d : Descriptor) (version : ℕ) : Program Handle :=
  onProcess false fun input p =>
    if d.leaseExpiresAt ≤ input.now then .error (.error "Claim lease expired")
    else if dev.assertRuntime d then
      .ok (⟨p.sessions.length, d⟩,
        { p with sessions := p.sessions ++ [⟨d, true, version, d.leaseExpiresAt⟩],
                 active := some p.sessions.length })
    else .error (.error "Runtime is not registered")

/-- The end of `claimOnce`: the runtime starts under the new session. -/
def startRuntime (h : Handle) : Program Unit :=
  tryCatch
    (do onProcess true fun input p =>
          if input.completes then .ok ((), p) else .error (.error "Runtime start failed")
        let _ ← lease h
        pure ())
    fun fault => do
      let valid ← onProcess true fun _ p => .ok ((p.sessions[h.index]?).any Session.valid, p)
      if valid then awaited (stopSession dev h) else pure ()
      throw fault

/-- `claimOnce()` after its first checks. -/
def claimWork (generation : ℕ) : Program Unit := do
  let (id, body) ← claimIdentity
  let response ← awaited (mutate dev "claim" id "/runner/claims" body)
  assertScope "Coordinator belongs to a retired runner scope"
  match response.asReply.bind Reply.attempt with
  | none => pure ()
  | some reported => do
    let d ← validated dev reported
    let version ← field (response.asReply.bind Reply.jobVersion)
    let _ ← prepare dev "attempt" (.attempt d.attemptId) "local" (.attempt d version)
    let now ← onProcess false fun _ p => .ok (p.generation, p)
    if generation ≠ now then awaited (stopped dev d none)
    else do
      let h ← openSession dev d version
      startRuntime dev h

/-- `claimOnce()`: the generation it starts under, when a claim may be made at all. -/
def mayClaim : Program (Option ℕ) := do
  assertScope "Coordinator belongs to a retired runner scope"
  onProcess false fun input p =>
    match p.stopFailure with
    | some failure => .error (.error failure)
    | none =>
      if !p.reconciled then .error (.error "Must reconcile before claims")
      else if p.active.isSome || p.stopping.isSome || !input.idle then .ok (none, p)
      else .ok (some p.generation, p)

/-- `claim()`: one claim at a time. -/
def claim : Program Unit := do
  let free ← onProcess false fun _ p => .ok (!p.claiming, { p with claiming := true })
  if free then do
    let finish := mark true fun p => { p with claiming := false }
    tryCatch
      (do let generation ← mayClaim
          match generation with
          | some g => claimWork dev g
          | none => pure ())
      fun fault => do
        finish
        throw fault
    finish
  else pause

/-! ## The tick -/

/-- The control or heartbeat item that speaks of this session. -/
def about (h : Handle) (c : Control) : Bool :=
  c.attemptId = h.descriptor.attemptId && c.leaseEpoch = h.descriptor.leaseEpoch

/-- The service of the active session in one tick, up to the collection of its inputs. -/
def serve (h : Handle) : Program Unit := do
  pause
  awaited (replayEvents h)
  let response ← awaited (serial h (request "/runner/controls" none))
  let _ ← lease h
  let controls ← field response.controls
  match controls.find? (about h) |>.filter Control.proceed with
  | none => awaited (stopSession dev h)
  | some control => do
    raiseVersion h control.jobVersion
    let response ← awaited (serial h (request "/runner/heartbeat"
      (some (.heartbeat [h.descriptor.toLeaseIdentity]))))
    let _ ← lease h
    let heartbeats ← field response.heartbeats
    match heartbeats.find? (fun b => about h b.toControl) |>.filter (·.proceed) with
    | none => awaited (stopSession dev h)
    | some heartbeat =>
      mark false fun p => p.setSession h.index fun s =>
        { s with version := max s.version heartbeat.jobVersion,
                 expiry := heartbeat.leaseExpiresAt }

/-- The tick of the active session: a busy server keeps the lease, any other failure ends
the session. -/
def serveActive (i : ℕ) : Program Unit := do
  let h ← sessionAt i
  let expired ← onProcess false fun input p =>
    .ok ((p.sessions[i]?).any fun s => decide (input.now ≥ s.expiry), p)
  if expired then awaited (stopSession dev h)
  else
    tryCatch (serve dev h) fun fault => do
      let valid ← onProcess false fun _ p => .ok ((p.sessions[i]?).any Session.valid, p)
      if valid && fault ≠ .transport .contention then do
        awaited (stopSession dev h)
        mark false fun p => { p with reconciled := false }
      else pure ()
      throw fault

/-- `tick()` of a reconciled process. -/
def reconciledTick : Program Unit := do
  let active ← onProcess false fun _ p => .ok (p.active, p)
  match active with
  | some i => serveActive dev i
  | none => do
    assertScope "Coordinator belongs to a retired runner scope"
    let _ ← request "/runner/heartbeat" (some (.heartbeat []))
    assertScope "Coordinator belongs to a retired runner scope"
    awaited (claim dev)

/-- `tick()`. -/
def tick : Program Unit := do
  let reconciled ← onProcess false fun _ p => .ok (p.reconciled, p)
  if reconciled then reconciledTick dev
  else do
    awaited (recover dev)
    reconciledTick dev

end GrowTeam.Runner
