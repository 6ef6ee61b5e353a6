/-
# The control word of a heartbeat

A heartbeat reads its control word off the process of an attempt, while the status of the
job is moved elsewhere.  The two go together as long as each write that takes a job out of
the executing statuses stops the process too; a result without a summary and a failed
publication leave the process up.
-/
import GrowTeam.Server.Outlived

namespace GrowTeam.Server

open List

namespace Ledger

variable {site : Site} {c d : Ledger} {m : Option Deed} {a : Tenure}

/-- What executes does so for a job in an executing status. -/
def Governed (c : Ledger) : Prop := c.Still ∨ c.status ∈ executing

/-- Only one attempt can execute. -/
theorem still_of_update (h : Orderly c) (ha : a ∈ c.attempts) (hactive : a.active = true)
    {f : Tenure → Tenure} (hf : ∀ x, (f x).active = true → (f x).process ∉ [.starting, .active]) :
    ∀ b ∈ updateWhere (·.id = a.id) f c.attempts, b.active = true →
      b.process ∉ [.starting, .active] := by
  intro b hb hactive'
  obtain ⟨x, hx, ⟨-, rfl⟩ | ⟨hne, rfl⟩⟩ := mem_updateWhere.mp hb
  · exact hf x hactive'
  · rw [h.crew.eq_of_active hx ha hactive' hactive] at hne
    simp at hne

theorem Idle.still (h : c.Idle) : c.Still := by
  intro a ha hactive
  rw [h a ha] at hactive
  cases hactive

/-- Every entry but a spoiled job keeps what executes governed. -/
theorem Governed.entry (ho : Orderly c) (h : Governed c) (he : Entry site c m d)
    (hm : m ≠ some .spoiled) : Governed d := by
  have hidle : c.status ∈ idleStatuses → c.Still :=
    fun hs => Idle.still (ho.crew.idle hs)
  cases he with
  | spoiled | failed => exact absurd rfl hm
  | drafted hs | overdue hs => exact .inl (hidle (by simp [hs, idleStatuses]))
  | halted target reason hidle hs | resumed hs hidle hi | completed hs hidle hi =>
    exact .inl (Idle.still hidle)
  | requested a target reason ha hactive hr | interrupted a reason ha hactive hr =>
    exact .inl (still_of_update ho ha hactive (by simp))
  | stopped a reason ha hactive =>
    left
    unfold Still
    rw [contain_attempts, ended_attempts]
    exact still_of_update ho ha hactive (by simp)
  | revoked now hr =>
    have hrevoked : Entry site c (some .revoked) (c.revoke now) := .revoked c now hr
    exact .inl (hrevoked.still ho rfl)
  | fenced a ha hactive hp hr hs => exact .inr (by simp [updateAttempt, bump, hs, executing])
  | claimed | parked => exact .inr (by simp [transition, executing])
  | moved a status hl hs => exact .inr hs
  | steered i hs hb hi =>
    refine h.imp (fun hstill => hstill) fun hexecuting => ?_
    show (if c.status ∈ reopened then JobState.running else c.status) ∈ executing
    split
    · decide
    · exact hexecuting
  | extended a expires hl he | started a hl => exact .inr hl.status
  | _ => exact h

theorem Governed.entries {l : List Deed} (ho : Orderly c) (h : Governed c)
    (he : Entries site c l d) (hl : .spoiled ∉ l) : Governed d := by
  induction he with
  | refl => exact h
  | @tail _ _ l m hrest he ih =>
    refine (ih fun hmem => hl (mem_append_left _ hmem)).entry (ho.entries hrest) he ?_
    rintro rfl
    exact hl (mem_append_right _ (by simp))

/-- A runner that was revoked executes nothing. -/
def Sealed (c : Ledger) : Prop := c.revokedAt.isSome = true → c.Still

theorem Entry.revokedAt (h : Entry site c m d) : m = some .revoked ∨ d.revokedAt = c.revokedAt := by
  cases h with
  | revoked => exact .inl rfl
  | stopped a reason ha hactive =>
    right
    rw [contain_revokedAt, ended_revokedAt]
  | _ => exact .inr rfl

theorem Sealed.entry (ho : Orderly c) (h : Sealed c) (he : Entry site c m d) : Sealed d := by
  rcases he.revokedAt with rfl | hsame
  · exact fun _ => he.still ho rfl
  · intro hrevoked
    rw [hsame] at hrevoked
    refine (h hrevoked).entry he ?_
    rintro id rfl
    cases he with
    | claimed a hs hidle hr ha =>
      rw [hr] at hrevoked
      cases hrevoked

end Ledger

open Interleaving Ledger

variable {site : Site} {new : NewJob} {world : World} {now : Time} {moves : List (Move Call Unit)}
  {s s' : Store}

/-! ## The answers of a heartbeat -/

variable {a : Attempt}

/-- The process of an active attempt that is not stopped by somebody is up. -/
theorem up_of_active (ho : Orderly (ledger s)) (ha : a ∈ s.attempts)
    (hactive : a.active = true) (hprocess : a.processState ∉ [.stopping, .unknown]) :
    a.processState ∈ [.starting, .active] := by
  have hup : a.processState ≠ .stopped := by
    intro hstopped
    have hinactive := (ho.crew.stopped a.tenure (mem_ledger ha)).mpr hstopped
    rw [show a.tenure.active = true from hactive] at hinactive
    cases hinactive
  revert hprocess hup
  cases a.processState <;> decide

/-- What a heartbeat that goes on says of its attempt. -/
def GoesOn (s : Store) (k : LeaseControl) : Prop :=
  ∃ a ∈ s.attempts, a.id = k.identity.attemptId ∧ a.active = true ∧
    s.clock < a.leaseExpiresAt ∧ s.job.status ∈ executing

/-- What one identity of a heartbeat writes. -/
structure Beaten (s s' : Store) : Prop where
  clock : s'.clock = s.clock
  status : s'.job.status = s.job.status
  attempts : ∀ a' ∈ s'.attempts, a' ∈ s.attempts ∨ s.job.status ∈ executing ∧
    ∃ a ∈ s.attempts, a.id = a'.id ∧ a.active = true ∧ s.clock < a.leaseExpiresAt

variable {out : List LeaseControl}

theorem heartbeatLease_beaten {identity : LeaseIdentity}
    (h : heartbeatLease s identity = .ok (out, s')) : Beaten s s' := by
  obtain ⟨a, hlease, h⟩ := heartbeatLease_ok h
  split at h
  · obtain ⟨hexec, rfl⟩ := h
    have hmem := lockedLease_ok hlease
    have hl := leased_of_ok hmem hexec
    have hfence : (fencePreparedResult s a).clock = s.clock ∧
        (fencePreparedResult s a).job.status = s.job.status ∧
        ∀ b ∈ (fencePreparedResult s a).attempts, b ∈ s.attempts ∨ b.id = a.id := by
      unfold fencePreparedResult
      split
      · exact ⟨rfl, rfl, fun _ => .inl⟩
      · refine ⟨rfl, rfl, fun b hb => ?_⟩
        obtain ⟨x, hx, ⟨hid, rfl⟩ | ⟨-, rfl⟩⟩ := mem_updateWhere.mp hb
        · exact .inr (of_decide_eq_true hid)
        · exact .inl hx
    refine ⟨hfence.1, hfence.2.1, fun b hb => ?_⟩
    obtain ⟨x, hx, ⟨hid, rfl⟩ | ⟨-, rfl⟩⟩ := mem_updateWhere.mp hb
    · exact .inr ⟨hl.status, a, hmem, (of_decide_eq_true hid).symm, hl.active, hl.live⟩
    · exact (hfence.2.2 b hx).imp_right fun hid =>
        ⟨hl.status, a, hmem, hid.symm, hl.active, hl.live⟩
  · subst h
    exact ⟨rfl, rfl, fun _ => .inl⟩

theorem Beaten.goesOn (h : Beaten s s') {k : LeaseControl} (hk : GoesOn s' k) :
    GoesOn s k := by
  obtain ⟨a, ha, hid, hactive, hlive, hstatus⟩ := hk
  rw [h.status] at hstatus
  rw [h.clock] at hlive
  rcases h.attempts a ha with hmem | ⟨-, b, hb, hid', hactive', hlive'⟩
  · exact ⟨a, hmem, hid, hactive, hlive, hstatus⟩
  · exact ⟨b, hb, hid'.trans hid, hactive', hlive', hstatus⟩

/-- A control word that lets the attempt go on was given for a live lease. -/
theorem heartbeatLease_continues {identity : LeaseIdentity}
    (ho : Orderly (ledger s)) (hg : Governed (ledger s))
    (h : heartbeatLease s identity = .ok (out, s')) :
    ∀ k ∈ out, k.stop = false → GoesOn s k := by
  rw [heartbeatLease, bind_eq_ok] at h
  obtain ⟨a, hlease, h⟩ := h
  have hmem := lockedLease_ok hlease
  have hid := lockedLease_id hlease
  split at h
  · obtain ⟨rfl, -⟩ := h
    simp
  next hactive =>
  have hactive : a.active = true := by simpa using hactive
  split at h
  · simp only [bind_eq_ok, pure_eq_ok, Prod.mk.injEq] at h
    obtain ⟨_, hexec, rfl, -⟩ := h
    have hl := leased_of_ok hmem hexec
    intro k hk _
    rw [mem_singleton.mp hk]
    exact ⟨a, hmem, hid, hactive, hl.live, hl.status⟩
  · next hnot =>
    obtain ⟨rfl, -⟩ := h
    intro k hk hstop
    rw [mem_singleton.mp hk] at hstop
    -- The attempt executes, so its job does: this is the other branch.
    have hup := up_of_active ho hmem hactive (of_decide_eq_false hstop)
    rcases hg with hstill | hexecuting
    · exact absurd hup (hstill a.tenure (mem_ledger hmem) hactive)
    · exact absurd ⟨hup, hexecuting⟩ hnot

theorem leaseDeeds_unspoiled (s : Store) (identity : LeaseIdentity) :
    .spoiled ∉ leaseDeeds s identity := by
  unfold leaseDeeds fenceDeeds
  split
  · simp
  · split
    · split <;> simp
    · simp

theorem heartbeatLeases_continues {identities : List LeaseIdentity}
    (ho : Orderly (ledger s)) (hg : Governed (ledger s))
    (h : heartbeatLeases identities s = .ok (out, s')) :
    ∀ k ∈ out, k.stop = false → GoesOn s k := by
  induction identities generalizing s out with
  | nil =>
    obtain ⟨rfl, -⟩ := h
    simp
  | cons identity rest ih =>
    simp only [heartbeatLeases, bind_eq_ok, pure_eq_ok, Prod.mk.injEq] at h
    obtain ⟨⟨first, s₁⟩, hfirst, ⟨others, s₂⟩, hrest, rfl, rfl⟩ := h
    have hentries : Entries plainSite _ _ _ := heartbeatLease_entries hfirst
    intro k hk hstop
    rcases mem_append.mp hk with hk | hk
    · exact heartbeatLease_continues ho hg hfirst k hk hstop
    · refine (heartbeatLease_beaten hfirst).goesOn (ih (ho.entries hentries) ?_ hrest k hk hstop)
      exact hg.entries ho hentries (leaseDeeds_unspoiled s identity)

/-! ## Heartbeats over a run -/

/-- A heartbeat lets an attempt go on only while its job and its lease do. -/
def ControlsMatch (s : Store) : Prop :=
  ∀ world identities out s', heartbeat identities { s with world := world } = .ok (out, s') →
    ∀ k ∈ out, k.stop = false → GoesOn s k

/-- The step takes the job out of the executing statuses and leaves its attempt running. -/
def abandons (site : Site) (e : Event Store Tag) : Bool :=
  decide (.spoiled ∈ deedsOf site e) &&
    e.pre.attempts.any fun a => a.active && a.processState ∈ [.starting, .active]

section

variable (ho : Orderly (ledger s))

include ho

theorem controlsMatch_of_governed (hg : Governed (ledger s)) : ControlsMatch s := by
  intro world identities out s' h
  exact heartbeatLeases_continues (s := { s with world := world }) ho hg (required_ok h)

theorem lockedLease_eq (ha : a ∈ s.attempts) :
    s.lockedLease ⟨s.job.id, a.id, a.leaseEpoch⟩ none = .ok a := by
  have hfind : s.attempts.find? (fun b => s.job.id = s.job.id && b.id = a.id &&
      b.leaseEpoch = a.leaseEpoch) = some a := by
    cases hfound : s.attempts.find? (fun b => s.job.id = s.job.id && b.id = a.id &&
        b.leaseEpoch = a.leaseEpoch) with
    | none =>
      have hne := find?_eq_none.mp hfound a ha
      simp at hne
    | some b =>
      have hb := find?_some hfound
      simp only [Bool.and_eq_true, decide_eq_true_eq] at hb
      rw [eq_of_key ho.attemptIds (mem_of_find?_eq_some hfound) ha hb.1.2]
  refine bind_eq_ok.mpr ⟨a, one_eq_ok.mpr hfind, bind_eq_ok.mpr ⟨(), ?_, rfl⟩⟩
  exact ensure_eq_ok.mpr (by simp)

/-- The process of an attempt is up, and its job is not executing: nobody tells it to stop. -/
theorem heartbeat_continues (ha : a ∈ s.attempts)
    (hactive : a.active = true) (hprocess : a.processState ∈ [.starting, .active])
    (hstatus : s.job.status ∉ executing) (hrevoked : s.runnerRevokedAt = none) :
    heartbeat [⟨s.job.id, a.id, a.leaseEpoch⟩] { s with world := openWorld } =
      .ok ([⟨⟨s.job.id, a.id, a.leaseEpoch⟩, s.job.version, a.leaseExpiresAt, false⟩],
        { s with world := openWorld }) := by
  have hlease : ({ s with world := openWorld } : Store).lockedLease
      ⟨s.job.id, a.id, a.leaseEpoch⟩ none = .ok a :=
    lockedLease_eq (s := { s with world := openWorld }) ho ha
  have hgoes : decide (a.processState ∈ [.stopping, .unknown]) = false := by
    revert hprocess
    cases a.processState <;> decide
  have hbeat : heartbeatLease { s with world := openWorld } ⟨s.job.id, a.id, a.leaseEpoch⟩ =
      .ok ([⟨⟨s.job.id, a.id, a.leaseEpoch⟩, s.job.version, a.leaseExpiresAt, false⟩],
        { s with world := openWorld }) := by
    refine bind_eq_ok.mpr ⟨a, hlease, ?_⟩
    rw [if_neg (by simp [hactive]), if_neg fun hboth => hstatus hboth.2, hgoes]
    rfl
  refine agentTransaction_eq_ok.mpr ⟨rfl, bind_eq_ok.mpr ⟨(), ?_, ?_⟩⟩
  · exact bind_eq_ok.mpr ⟨(), ensure_eq_ok.mpr hrevoked, rfl⟩
  · simp only [heartbeatLeases, bind_eq_ok]
    exact ⟨_, hbeat, _, rfl, rfl⟩

/-- A heartbeat tells an attempt that executes without its job to go on. -/
theorem governed_of_controlsMatch (hs : Sealed (ledger s))
    (h : ControlsMatch s) : Governed (ledger s) := by
  by_cases hexecuting : s.job.status ∈ executing
  · exact .inr hexecuting
  refine .inl fun t ht hactive hprocess => ?_
  obtain ⟨a, hmem, rfl⟩ := mem_map.mp ht
  have hrevoked : s.runnerRevokedAt = none := by
    by_contra hne
    exact hs (Option.isSome_iff_ne_none.mpr hne) a.tenure ht hactive hprocess
  have hk := h openWorld _ _ _ (heartbeat_continues ho hmem hactive hprocess hexecuting hrevoked) _
    (mem_singleton_self _) rfl
  obtain ⟨-, -, -, -, -, hstatus⟩ := hk
  exact hexecuting hstatus

end

/-! ## Spoiled jobs -/

theorem recordEvent_spoils {event : RunnerEvent} {result : ResultPayload} {version : Option ℕ}
    {stopOnly : Bool} {answer : EventReceipt × Bool} (hbody : event.body = .resultPrepared result)
    (hblank : blank result.summary = true) (hnew : recorded s event = false)
    (h : recordEvent event version stopOnly s = .ok (answer, s')) :
    ledger s' = (ledger s).transition .interrupted "result_invalid" := by
  obtain ⟨-, a, -, -, ⟨hrec, -⟩ | ⟨-, -, s₁, happly, haudit⟩⟩ := recordEvent_ok h
  · rw [hrec] at hnew
    cases hnew
  simp only [applyEvent, hbody, resultPrepared, if_pos hblank, bind_eq_ok, pure_eq_ok] at happly
  obtain ⟨-, -, rfl⟩ := happly
  rw [ledger_audit haudit, ledger_touch (by intro a; rfl), ledger_transition]

/-- A spoiled job leaves the executing statuses, and nothing else changes. -/
theorem spoiled_of_history {e : Event Store Tag} (he : e ∈ history site new world now moves)
    (h : .spoiled ∈ deedsOf site e) : ∃ status reason, status ∉ executing ∧
      ledger e.post = (ledger e.pre).transition status reason := by
  obtain ⟨haccepted, ⟨event, result, ht | ⟨version, ht⟩, hbody, hblank, hnew⟩ |
    ⟨reason, park, ht, hverifying, hreason⟩⟩ := accepted_of_deed h
  · obtain ⟨answer, hrun⟩ := ran_of_history he haccepted ht
    have hrun : stopEvidence event e.pre = .ok (answer, e.post) := hrun
    have hstop := (stopEvidence_ok hrun).1
    rw [hbody] at hstop
    cases hstop
  · obtain ⟨answer, hrun⟩ := ran_of_history he haccepted ht
    have hrun : events event version e.pre = .ok (answer, e.post) := hrun
    exact ⟨_, _, by decide, recordEvent_spoils hbody hblank hnew (required_ok hrun)⟩
  · obtain ⟨answer, hrun⟩ := ran_of_history he haccepted ht
    have hblocked : blockPublication .failed reason park e.pre = .ok e.post := silent_ok hrun
    exact ⟨_, _, by decide, ledger_blockPublication ⟨hverifying, hreason⟩ hblocked⟩

/-- **A heartbeat lets an attempt go on only while it is active, its lease is live and its job
executes**, in every state of a run, if and only if no step of the run spoils the job under a
running attempt. -/
theorem controlsMatch_of_history (site : Site) (new : NewJob) (world : World) (now : Time)
    (moves : List (Move Call Unit)) :
    (∀ e ∈ history site new world now moves, ControlsMatch e.post) ↔
      ∀ e ∈ history site new world now moves, abandons site e = false := by
  constructor
  · intro hall e he
    by_contra habandons
    simp only [abandons, Bool.not_eq_false, Bool.and_eq_true, decide_eq_true_eq,
      any_eq_true] at habandons
    obtain ⟨hspoiled, a, ha, hactive, hprocess⟩ := habandons
    have hordered := ordered_of_history he
    have hpost := hordered.pre.entries (entries_of_history he)
    have hsealed : Sealed (ledger e.post) := by
      refine (ledger_of_history ?_ (fun _ _ _ ho he hs => hs.entry ho he) e he).2
      rw [ledger_created]
      simp [Sealed]
    obtain ⟨status, reason, hstatus, hledger⟩ := spoiled_of_history he hspoiled
    have hgoverned := governed_of_controlsMatch hpost hsealed (hall e he)
    rw [hledger] at hgoverned
    rcases hgoverned with hstill | hexecuting
    · exact hstill a.tenure (mem_ledger ha) hactive hprocess
    · exact hstatus hexecuting
  · intro hall
    have hcreated : Governed (ledger (created new world now)) := by
      rw [ledger_created]
      simp [Governed, Still]
    have hstep : ∀ e ∈ history site new world now moves, Governed (ledger e.pre) →
        Governed (ledger e.post) := by
      intro e he hgoverned
      by_cases hspoiled : .spoiled ∈ deedsOf site e
      · obtain ⟨status, reason, -, hledger⟩ := spoiled_of_history he hspoiled
        rw [hledger]
        refine .inl fun t ht hactive hprocess => ?_
        obtain ⟨a, ha, rfl⟩ := mem_map.mp ht
        have hnone := hall e he
        simp only [abandons, hspoiled, decide_true, Bool.true_and] at hnone
        have hidle := any_eq_false.mp hnone a ha
        rw [Bool.and_eq_true, decide_eq_true_eq] at hidle
        exact hidle ⟨hactive, hprocess⟩
      · exact hgoverned.entries (ordered_of_history he).pre (entries_of_history he) hspoiled
    intro e he
    have hordered := ordered_of_history he
    exact controlsMatch_of_governed (hordered.pre.entries (entries_of_history he))
      ((inv_of_history (J := fun s => Governed (ledger s)) hcreated hstep).2 e he).2

/-! ## A result without a summary -/

/-- The attempt is told to go on although its result was invalid. -/
def spoiledRun : List (Move Call Unit) :=
  request 0 (.claimWork 7) ++ report 1 1 2 startedBody ++
    report 2 2 2 (.resultPrepared ⟨[], none, ""⟩)

/-- The job is interrupted, and a heartbeat of its attempt goes on. -/
theorem abandoned_spoiledRun :
    ¬ ∀ e ∈ history plainSite answerJob openWorld 0 spoiledRun, ControlsMatch e.post := by
  intro hall
  have hstep : ∃ e ∈ history plainSite answerJob openWorld 0 spoiledRun,
      e.post.job.status = .interrupted ∧
        (heartbeat [firstLease] { e.post with world := openWorld }).toOption.any
          (fun r => r.1.any fun k => !k.stop) = true := by
    decide
  obtain ⟨e, he, hstatus, hgoes⟩ := hstep
  cases hbeat : heartbeat [firstLease] { e.post with world := openWorld } with
  | error fault => simp [hbeat, Except.toOption] at hgoes
  | ok r =>
    simp only [hbeat, Except.toOption, Option.any_some, any_eq_true] at hgoes
    obtain ⟨k, hk, hstop⟩ := hgoes
    obtain ⟨-, -, -, -, -, hexecuting⟩ := hall e he openWorld [firstLease] r.1 r.2 hbeat k hk
      (by simpa using hstop)
    rw [hstatus] at hexecuting
    revert hexecuting
    decide

end GrowTeam.Server
