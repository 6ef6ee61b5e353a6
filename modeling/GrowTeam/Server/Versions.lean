/-
# Versions put commands in order

A job's version grows with every change of its status, and every command that takes effect
moves it on: of two commands with the same expected version only one takes effect, and an
approval is decided once.  A cancellation of a job that is already stopping is accepted
whatever its version, so an accepted command need not be the only one with its version.
-/
import GrowTeam.Server.Docket
import GrowTeam.Server.Proposals

namespace GrowTeam.Server

open Interleaving Ledger List

variable {site : Site} {new : NewJob} {world : World} {now : Time} {moves : List (Move Call Unit)}
  {s s' : Store}

/-! ## Commands -/

/-- What people ask of a job under a version. -/
inductive Command where
  | cancel (actor expectedVersion : ℕ)
  | input (request : InputRequest)
  | resume (actor expectedVersion : ℕ) (checkpointId : Option Uuid)
  deriving DecidableEq

/-- The version a command was issued with. -/
def Command.version : Command → ℕ
  | .cancel _ version | .resume _ version _ => version
  | .input request => request.expectedVersion

/-- The command of a transaction. -/
def command : Transaction → Option Command
  | .cancelJob actor version => some (.cancel actor version)
  | .addInput request => some (.input request)
  | .resumeJob actor version checkpoint => some (.resume actor version checkpoint)
  | _ => none

/-- The commands that were accepted. -/
def acceptedCommands (site : Site) (steps : List (Event Store Tag)) : List Command :=
  steps.filterMap fun e => if accepted site e = true then command e.tag.transaction else none

/-- Whether a command finds done what it asks for: the job is stopping or cancelled, or the
input was added before. -/
def alreadyDone (s : Store) : Command → Bool
  | .cancel .. => s.job.status ∈ [.cancelRequested, .cancelled]
  | .input request => (priorInput s request).isSome
  | .resume .. => false

/-- A command with this version takes effect in this step. -/
def takesEffect (site : Site) (version : ℕ) (e : Event Store Tag) : Bool :=
  accepted site e && (command e.tag.transaction).any fun c =>
    c.version = version && !alreadyDone e.pre c

/-- An approval is decided in this step. -/
def decides (site : Site) (id : Uuid) (e : Event Store Tag) : Bool :=
  accepted site e && match e.tag.transaction with
    | .decideApproval decision => decision.approvalId = id
    | _ => false

/-! ## Versions -/

variable {e : Event Store Tag}

theorem grows_of_history (he : e ∈ history site new world now moves) :
    Grows (ledger e.pre) (ledger e.post) :=
  (entries_of_history he).grows

theorem cancelJob_moves {actor version : ℕ} (h : cancelJob actor version s = .ok s')
    (hd : s.job.status ∉ [.cancelRequested, .cancelled]) :
    s.job.version = version ∧ s'.job.status ∈ [.cancelRequested, .cancelled] := by
  simp only [cancelJob, agentTransaction_eq_ok, bind_eq_ok, if_neg hd, ensure_eq_ok] at h
  obtain ⟨-, -, -, -, ⟨hversion, -⟩, h⟩ := h
  refine ⟨hversion, ?_⟩
  cases ha : s.activeAttempt with
  | some a =>
    rw [ha] at h
    have hstatus : (ledger s').status = .cancelRequested := by
      rw [ledger_requestStop h]
      rfl
    rw [show s'.job.status = .cancelRequested from hstatus]
    decide
  | none =>
    simp only [ha, Store.requestStop, Except.ok.injEq] at h
    subst h
    simp [Store.transition, Store.updateJob, StopTarget.status]

theorem addInput_moves {request : InputRequest} (h : addInput request s = .ok s')
    (hd : (priorInput s request).isSome = false) :
    s.job.version = request.expectedVersion ∧ s'.job.version = s.job.version + 1 := by
  simp only [addInput, bind_eq_ok, agentTransaction_eq_ok] at h
  obtain ⟨-, -, -, -, -, h⟩ := h
  split at h
  · next prior hprior => simp [hprior] at hd
  · simp only [bind_eq_ok, ensure_eq_ok] at h
    obtain ⟨-, ⟨hversion, -⟩, -, -, -, -, -, -, -, -, -, -, -, -, h⟩ := h
    refine ⟨hversion, ?_⟩
    show (ledger s').version = _
    rw [ledger_audit h, addedInput_ledger]
    rfl

theorem resumeJob_moves {actor version : ℕ} {checkpointId : Option Uuid}
    (h : resumeJob actor version checkpointId s = .ok s') :
    s.job.version = version ∧ s.job.status ≠ .queued ∧ s'.job.status = .queued := by
  simp only [resumeJob, agentTransaction_eq_ok, bind_eq_ok, ensure_eq_ok, pure_eq_ok] at h
  obtain ⟨-, -, -, -, ⟨hversion, hstatus⟩, -, -, -, -, -, -, -, -, -, -, -, -, -, -, -, -, rfl⟩ := h
  refine ⟨hversion, ?_, rfl⟩
  intro hq
  simp [hq] at hstatus

/-- A command that takes effect finds its version and moves it on. -/
theorem moves_of_takesEffect {version : ℕ}
    (he : e ∈ history site new world now moves) (h : takesEffect site version e = true) :
    e.pre.job.version = version ∧ version < e.post.job.version := by
  have hgrows := grows_of_history he
  have hmoved : e.pre.job.version = version → e.pre.job.status ≠ e.post.job.status →
      e.pre.job.version = version ∧ version < e.post.job.version :=
    fun hv hs => ⟨hv, hv ▸ hgrows.status hs⟩
  rw [takesEffect, Bool.and_eq_true] at h
  obtain ⟨haccepted, h⟩ := h
  obtain ⟨answer, hrun⟩ := run_of_history he haccepted
  revert h hrun answer
  cases e.tag.transaction with
  | cancelJob actor expected =>
    intro h answer hrun
    simp only [command, Option.any_some, Command.version, alreadyDone, Bool.and_eq_true,
      Bool.not_eq_true', decide_eq_false_iff_not] at h
    obtain ⟨hv, hopen⟩ := h
    obtain rfl := of_decide_eq_true hv
    obtain ⟨hversion, hstatus⟩ := cancelJob_moves (silent_ok hrun) hopen
    exact hmoved hversion fun hsame => hopen (hsame ▸ hstatus)
  | addInput request =>
    intro h answer hrun
    simp only [command, Option.any_some, Command.version, alreadyDone, Bool.and_eq_true,
      Bool.not_eq_true'] at h
    obtain ⟨hv, hnew⟩ := h
    obtain rfl := of_decide_eq_true hv
    obtain ⟨hversion, hnext⟩ := addInput_moves (silent_ok hrun) hnew
    rw [hnext, hversion]
    exact ⟨rfl, Nat.lt_succ_self _⟩
  | resumeJob actor expected checkpoint =>
    intro h answer hrun
    simp only [command, Option.any_some, Command.version, alreadyDone, Bool.and_eq_true] at h
    obtain ⟨hv, -⟩ := h
    obtain rfl := of_decide_eq_true hv
    obtain ⟨hversion, hstatus, hqueued⟩ := resumeJob_moves (silent_ok hrun)
    exact hmoved hversion fun hsame => hstatus (hsame.trans hqueued)
  | _ => simp [command]

/-- A command that finds done what it asks for changes nothing. -/
theorem same_of_alreadyDone {c : Command}
    (he : e ∈ history site new world now moves) (haccepted : accepted site e = true)
    (hc : command e.tag.transaction = some c) (h : alreadyDone e.pre c = true) :
    e.post = e.pre := by
  obtain ⟨answer, hrun⟩ := run_of_history he haccepted
  revert hc hrun answer
  cases e.tag.transaction with
  | cancelJob actor expected =>
    rintro ⟨rfl⟩ answer hrun
    have hs : e.pre.job.status ∈ [.cancelRequested, .cancelled] := by simpa [alreadyDone] using h
    have hrun := silent_ok hrun
    simp only [cancelJob, agentTransaction_eq_ok, bind_eq_ok, if_pos hs, pure_eq_ok] at hrun
    obtain ⟨-, -, -, hsame⟩ := hrun
    exact hsame.symm
  | addInput request =>
    rintro ⟨rfl⟩ answer hrun
    obtain ⟨prior, hprior⟩ := Option.isSome_iff_exists.mp h
    have hrun := silent_ok hrun
    simp only [addInput, bind_eq_ok, agentTransaction_eq_ok, hprior, pure_eq_ok] at hrun
    obtain ⟨-, -, -, -, -, -, -, hsame⟩ := hrun
    exact hsame.symm
  | resumeJob actor expected checkpoint =>
    rintro ⟨rfl⟩
    cases h
  | _ => simp [command]

theorem effects_once (version : ℕ) :
    ((history site new world now moves).filter (takesEffect site version)).length ≤ 1 := by
  refine Machine.trace_once (M := machine site) (D := fun s => version < s.job.version) _ moves
    (fun _ h => h) (fun e he h => ?_) fun e he h => ?_
  · exact lt_of_lt_of_le h (grows_of_history he).version
  · obtain ⟨hpre, hpost⟩ := moves_of_takesEffect he h
    exact ⟨by rw [hpre]; exact Nat.lt_irrefl _, hpost⟩

/-! ## Decisions -/

/-- The approval was decided. -/
def Decided (id : Uuid) (c : Ledger) : Prop := ∃ p ∈ c.approvals, p.id = id ∧ p.decision ≠ .pending

/-- A decision finds its approval pending and leaves it decided. -/
theorem decideApproval_decides {decision : Decision} (hids : (s.approvals.map (·.id)).Nodup)
    (h : decideApproval decision s = .ok s') :
    ¬ Decided decision.approvalId (ledger s) ∧ Decided decision.approvalId (ledger s') := by
  simp only [decideApproval, agentTransaction_eq_ok, bind_eq_ok, one_eq_ok] at h
  obtain ⟨-, p, hfind, a, -, operation, -, -, -, h⟩ := h
  split at h
  · cases h
  simp only [bind_eq_ok, ensure_eq_ok] at h
  obtain ⟨-, -, -, ⟨-, -, -, hpending, -⟩, h⟩ := h
  have hid : p.id = decision.approvalId := by simpa using find?_some hfind
  have hp : p ∈ s.approvals := mem_of_find?_eq_some hfind
  constructor
  · rintro ⟨q, hq, hqid, hne⟩
    rw [eq_of_key hids hq hp (hqid.trans hid.symm)] at hne
    exact hne hpending
  have hrow : ∀ p' ∈ (decidedApproval s decision).approvals, p'.id = decision.approvalId →
      p'.decision ∈ [.approved, .rejected] := by
    intro p' hp' hid'
    obtain ⟨x, hx, ⟨-, rfl⟩ | ⟨hne, rfl⟩⟩ := mem_updateWhere.mp hp'
    · dsimp only
      split <;> decide
    · rw [decide_eq_false_iff_not] at hne
      exact absurd hid' hne
  have hmem : ∃ p' ∈ (decidedApproval s decision).approvals, p'.id = decision.approvalId :=
    ⟨_, mem_map_of_mem hp, by split <;> exact hid⟩
  obtain ⟨p', hp', hid'⟩ := hmem
  have hdecided := hrow p' hp' hid'
  split at h
  · simp only [bind_eq_ok, pure_eq_ok] at h
    obtain ⟨s₁, rfl, haudit⟩ := h
    rw [ledger_audit haudit]
    exact ⟨p', hp', hid', fun hc => by simp [hc] at hdecided⟩
  · rw [bind_eq_ok] at h
    obtain ⟨s₁, hstop, haudit⟩ := h
    rw [ledger_audit haudit, ledger_requestStop hstop]
    refine ⟨_, mem_map_of_mem hp', ?_⟩
    split
    · exact ⟨hid', by simp⟩
    · exact ⟨hid', fun hc => by simp [hc] at hdecided⟩

theorem decides_once (id : Uuid) :
    ((history site new world now moves).filter (decides site id)).length ≤ 1 := by
  refine Machine.trace_once (M := machine site) (D := fun s => Decided id (ledger s)) _ moves
    (fun _ h => h) (fun e he h => approval_of_history
      (fun hb hq => ⟨hb.id.trans hq.1, hb.decided hq.2⟩) he h) fun e he h => ?_
  obtain ⟨past, later, hsplit⟩ := append_of_mem he
  have hids := (docket_of_history hsplit).1.1.ids
  rw [decides, Bool.and_eq_true] at h
  obtain ⟨haccepted, h⟩ := h
  obtain ⟨answer, hrun⟩ := run_of_history he haccepted
  revert h hrun answer
  cases e.tag.transaction with
  | decideApproval decision =>
    intro h answer hrun
    obtain rfl : decision.approvalId = id := by simpa using h
    exact decideApproval_decides hids (silent_ok hrun)
  | _ => simp

/-! ## A stale cancellation -/

/-- An input is added while the attempt works, the runner is revoked, and a person who has
not seen the input cancels the job. -/
def staleCancelRun : List (Move Call Unit) :=
  request 0 (.claimWork 7) ++ request 1 (.addInput ⟨10, 2, 70, "Hurry", "steering", none⟩) ++
    request 2 .revokeRunner ++ request 3 (.cancelJob 10 2)

/-- Both commands are accepted. -/
theorem sharedVersion_staleCancelRun :
    ¬ ((acceptedCommands plainSite
      (history plainSite answerJob openWorld 0 staleCancelRun)).dedup.map
        Command.version).Nodup := by
  decide

/-- **Versions put commands in order.**  The version grows with every change of the status
and never falls; of the commands with one version that do not find done what they ask for
one is accepted at most, the others change nothing, and an approval is decided once. -/
theorem versions_of_history (site : Site) (new : NewJob) (world : World) (now : Time)
    (moves : List (Move Call Unit)) :
    (∀ e ∈ history site new world now moves, e.pre.job.version ≤ e.post.job.version ∧
        (e.pre.job.status ≠ e.post.job.status → e.pre.job.version < e.post.job.version)) ∧
    ((history site new world now moves).Pairwise fun e f =>
      e.post.job.version ≤ f.pre.job.version) ∧
    (∀ version, ((history site new world now moves).filter (takesEffect site version)).length ≤ 1) ∧
    (∀ e ∈ history site new world now moves, ∀ c, accepted site e = true →
      command e.tag.transaction = some c → alreadyDone e.pre c = true → e.post = e.pre) ∧
    ∀ id, ((history site new world now moves).filter (decides site id)).length ≤ 1 := by
  refine ⟨fun e he => ?_, ?_, effects_once, fun e he c => same_of_alreadyDone he, decides_once⟩
  · have hgrows := grows_of_history he
    exact ⟨hgrows.version, hgrows.status⟩
  · have hrel := @Machine.rel_exec _ _ _ _ (machine site)
      (fun s s' : Store => s.job.version ≤ s'.job.version) (fun _ => le_rfl)
      (fun _ _ _ => le_trans) (fun _ => le_rfl) (.idle (created new world now)) moves
      fun e he => (grows_of_history he).version
    exact hrel.2.2

end GrowTeam.Server
