/-
# Fenced results

`fence_prepared_result` stops an attempt whose result is prepared.  From then on nothing works
for the job: no input is accepted before `resume_job` puts it back in the queue, and its
proposal stays.  If nobody stops the job and its attempt is not given up, the stop evidence
leaves it to its publication.
-/
import GrowTeam.Server.Stops

namespace GrowTeam.Server

open List Except

namespace Ledger

variable {site : Site} {c d : Ledger} {m : Option Deed} {l l₀ : List Deed} {id : Uuid}

/-! ## What was asked before the fence -/

/-- A stop in the outbox was requested. -/
def Asked (l : List Deed) (c : Ledger) : Prop := ∀ id, c.stops id = true → requests id l ≠ []

theorem Asked.append (h : Asked l c) (deed : Deed) : Asked (l ++ [deed]) c := by
  intro id hstop hnone
  rw [requests_append] at hnone
  exact h id hstop (append_eq_nil_iff.mp hnone).1

/-- Only a request puts a stop in the outbox. -/
theorem Asked.entry (h : Asked l c) (he : Entry site c m d) : Asked (l ++ m.toList) d := by
  have hsame : d.stops = c.stops → Asked (l ++ m.toList) d := by
    intro hstops id hstop hnone
    rw [hstops] at hstop
    unfold requests at hnone
    rw [filterMap_append] at hnone
    exact h id hstop (append_eq_nil_iff.mp hnone).1
  cases he with
  | requested a target reason ha hactive hr =>
    intro id hstop
    rcases Bool.or_eq_true_iff.mp hstop with hstop | hid
    · exact h.append _ id hstop
    · rw [of_decide_eq_true hid]
      intro hnone
      have hmem : (target, reason) ∈ requests a.id (l ++ [.requested a.id target reason]) :=
        mem_requests.mpr (by simp)
      rw [Option.toList_some] at hnone
      rw [hnone] at hmem
      cases hmem
  | stopped a reason ha hactive =>
    apply hsame
    unfold ended
    split
    · rfl
    · split <;> rfl
  | revoked now hr =>
    apply hsame
    unfold revoke
    split <;> rfl
  | _ => exact hsame rfl

/-! ## After the fence -/

/-- The attempt was fenced and has not stopped yet. -/
structure Fenced (id : Uuid) (c : Ledger) : Prop where
  status : c.status = .verifying
  attempt : ∃ a ∈ c.attempts, a.id = id ∧ a.active = true ∧ a.process = .stopping
  unasked : c.stopRequested id = false

/-- The attempt has stopped, and the job awaits its publication or is completed. -/
structure Contained (c : Ledger) : Prop where
  status : c.status ∈ [.verifying, .completed]
  idle : c.Idle

/-- What takes the result of a fenced attempt from its job. -/
def discards (id : Uuid) : Deed → Bool
  | .requested a _ _ | .interrupted a => a = id
  | .halted .. | .spoiled => true
  | _ => false

/-- The fenced attempt is the only active one. -/
theorem Fenced.one (ho : Orderly c) (h : Fenced id c) {b : Tenure} (hb : b ∈ c.attempts)
    (hactive : b.active = true) : b.id = id ∧ b.process = .stopping := by
  obtain ⟨a, ha, hid, hactive', hprocess⟩ := h.attempt
  rw [ho.crew.eq_of_active hb ha hactive hactive']
  exact ⟨hid, hprocess⟩

theorem Fenced.not_leased (ho : Orderly c) (h : Fenced id c) (b : Tenure) : ¬ c.Leased b := by
  intro hl
  have hprocess := hl.process
  rw [(h.one ho hl.mem hl.active).2] at hprocess
  simp at hprocess

theorem Fenced.not_idle (h : Fenced id c) : ¬ c.Idle := by
  intro hidle
  obtain ⟨a, ha, -, hactive, -⟩ := h.attempt
  rw [hidle a ha] at hactive
  cases hactive

theorem Contained.not_leased (h : Contained c) (b : Tenure) : ¬ c.Leased b := by
  intro hl
  have hactive := hl.active
  rw [h.idle b hl.mem] at hactive
  cases hactive

/-- **A fenced attempt stays so until it stops**, unless it is discarded. -/
theorem Fenced.entry (ho : Orderly c) (h : Fenced id c) (he : Entry site c m d)
    (hm : ∀ deed ∈ m, discards id deed = false ∧ deed ≠ .revoked) : Fenced id d ∨ Contained d := by
  have hleased : ∀ b : Tenure, c.Leased b → Fenced id d ∨ Contained d :=
    fun b hl => absurd hl (h.not_leased ho b)
  have hidle : c.Idle → Fenced id d ∨ Contained d := fun hidle => absurd hidle h.not_idle
  have hstatus : ∀ {status : JobState}, c.status = status → status ≠ .verifying →
      Fenced id d ∨ Contained d := by
    rintro status rfl hne
    exact absurd h.status hne
  cases he with
  | drafted hs | overdue hs => exact hstatus hs (by decide)
  | halted target reason hi hs | claimed a hs hi hr ha | resumed hs hi hinputs
  | completed hs hi hinputs => exact hidle hi
  | requested a target reason ha hactive hr | interrupted a reason ha hactive hr =>
    have hother := (hm _ rfl).1
    simp [discards, (h.one ho ha hactive).1] at hother
  | revoked now hr => exact absurd rfl (hm _ rfl).2
  | failed reason hs =>
    have hother := (hm _ rfl).1
    cases hother
  | steered i hs hb hi =>
    rcases hb with hqueued | ⟨a, ha, hactive, hprocess⟩
    · exact hstatus hqueued (by decide)
    · rw [(h.one ho ha hactive).2] at hprocess
      simp at hprocess
  | fenced a ha hactive hp hr hs =>
    rw [(h.one ho ha hactive).2] at hp
    cases hp
  | stopped a reason ha hactive =>
    right
    -- Nobody asked for a stop, so the job keeps its status.
    have hended : c.ended a.id reason = c := by
      rw [(h.one ho ha hactive).1, ended, if_neg (by simp [h.unasked]), if_neg (by simp [h.status])]
    rw [hended]
    refine ⟨by simp [h.status], ?_⟩
    intro b hb
    obtain ⟨x, hx, ⟨-, rfl⟩ | ⟨hne, rfl⟩⟩ := mem_updateWhere.mp hb
    · rfl
    · by_contra hup
      rw [Bool.not_eq_false] at hup
      rw [(h.one ho hx hup).1, (h.one ho ha hactive).1] at hne
      simp at hne
  | extended a expires hl he | moved a status hl hs | spoiled a reason hl | started a hl =>
    exact hleased a hl
  | parked reason hs =>
    have hunasked := h.unasked
    rw [stopRequested, h.status] at hunasked
    exact .inl ⟨rfl, h.attempt, by simpa [stopRequested, transition] using hunasked⟩
  | _ => exact .inl ⟨h.status, h.attempt, h.unasked⟩

/-- **A job that awaits its publication ends completed**, unless it is stopped or fails. -/
theorem Contained.entry (h : Contained c) (he : Entry site c m d)
    (hm : ∀ deed ∈ m, discards id deed = false) : Contained d := by
  have hleased : ∀ b : Tenure, c.Leased b → Contained d := fun b hl => absurd hl (h.not_leased b)
  have hactive : ∀ {a : Tenure}, a ∈ c.attempts → a.active = true → Contained d := by
    intro a ha hactive
    rw [h.idle a ha] at hactive
    cases hactive
  have hstatus : ∀ statuses : List JobState, c.status ∈ statuses → .verifying ∉ statuses →
      .completed ∉ statuses → Contained d := by
    intro statuses hs hverifying hcompleted
    have hmine := h.status
    simp only [mem_cons, not_mem_nil, or_false] at hmine
    rcases hmine with hmine | hmine
    · rw [hmine] at hs
      exact absurd hs hverifying
    · rw [hmine] at hs
      exact absurd hs hcompleted
  cases he with
  | drafted hs => exact hstatus [.draft] (by simp [hs]) (by decide) (by decide)
  | overdue hs => exact hstatus [.queued] (by simp [hs]) (by decide) (by decide)
  | claimed a hs hi hr ha =>
    exact hstatus [.queued] (by simp [hs]) (by decide) (by decide)
  | resumed hs hi hinputs => exact hstatus _ hs (by decide) (by decide)
  | halted | failed =>
    have hother := hm _ rfl
    cases hother
  | requested a target reason ha hup hr | interrupted a reason ha hup hr | fenced a ha hup hp hr hs
  | stopped a reason ha hup => exact hactive ha hup
  | revoked now hr =>
    have hnone : (c.attempts.any (·.active)) = false := by
      rw [any_eq_false]
      intro a ha
      rw [h.idle a ha]
      simp
    rw [revoke, if_neg (by simp [hnone])]
    exact ⟨h.status, h.idle⟩
  | steered i hs hb hi =>
    rcases hb with hqueued | ⟨a, ha, hup, -⟩
    · exact hstatus [.queued] (by simp [hqueued]) (by decide) (by decide)
    · exact hactive ha hup
  | completed hs hi hinputs => exact ⟨by simp [transition], hi⟩
  | parked reason hs => exact ⟨by simp [transition], h.idle⟩
  | extended a expires hl he | moved a status hl hs | spoiled a reason hl | started a hl =>
    exact hleased a hl
  | _ => exact ⟨h.status, h.idle⟩

theorem Contained.entries (h : Contained c) (he : Entries site c l d)
    (hl : ∀ deed ∈ l, discards id deed = false) : Contained d := by
  induction he with
  | refl => exact h
  | tail hrest he ih =>
    have hm := fun deed hdeed => hl deed (mem_append_right _ (Option.mem_toList.mpr hdeed))
    exact (ih fun deed hdeed => hl deed (mem_append_left _ hdeed)).entry he hm

theorem Fenced.entries (ho : Orderly c) (h : Fenced id c ∨ Contained c) (he : Entries site c l d)
    (hl : ∀ deed ∈ l, discards id deed = false ∧ deed ≠ .revoked) : Fenced id d ∨ Contained d := by
  induction he with
  | refl => exact h
  | tail hrest he ih =>
    have hm := fun deed hdeed => hl deed (mem_append_right _ (Option.mem_toList.mpr hdeed))
    rcases ih fun deed hdeed => hl deed (mem_append_left _ hdeed) with hf | hc
    · exact hf.entry (ho.entries hrest) he hm
    · exact .inr (hc.entry he fun deed hdeed => (hm deed hdeed).1)

/-- **The fence**: in a step that fences an attempt and discards none, it stays fenced. -/
theorem fenced_of_entries (ho : Orderly c) (haimed : Aimed l₀ c) (hasked : Asked l₀ c)
    (he : Entries site c l d) (hf : .fenced id ∈ l)
    (hl : ∀ deed ∈ l, discards id deed = false ∧ deed ≠ .revoked) : Fenced id d ∨ Contained d := by
  have hkeeps : ∀ {l : List Deed} {d : Ledger}, Entries site c l d →
      Aimed (l₀ ++ l) d ∧ Asked (l₀ ++ l) d := by
    intro l d he
    induction he with
    | refl => simpa using ⟨haimed, hasked⟩
    | tail hrest he ih =>
      rw [← append_assoc]
      exact ⟨ih.1.entry (ho.entries hrest) he, ih.2.entry he⟩
  induction he with
  | refl => cases hf
  | @tail d e l m hrest he ih =>
    have hm := fun deed hdeed => hl deed (mem_append_right _ (Option.mem_toList.mpr hdeed))
    rcases mem_append.mp hf with hf | hf
    · rcases ih hf fun deed hdeed => hl deed (mem_append_left _ hdeed) with hf | hc
      · exact hf.entry (ho.entries hrest) he hm
      · exact .inr (hc.entry he fun deed hdeed => (hm deed hdeed).1)
    · obtain ⟨haimed', hasked'⟩ := hkeeps hrest
      rw [Option.mem_toList.mp hf] at he
      cases he with
      | fenced a ha hactive hp hr hs =>
        left
        -- An attempt that was asked to stop is not at work.
        have hstops : d.stops a.id = false := by
          by_contra hstop
          have hprocess := (haimed'.stopping a ha hactive (hasked' a.id (by simpa using hstop))).process
          rw [hp] at hprocess
          simp at hprocess
        refine ⟨hs, ⟨_, mem_updateAttempt ha, rfl, hactive, rfl⟩, ?_⟩
        show (decide (d.status = .cancelRequested) || d.revokedAt.isSome || d.stops a.id) = false
        rw [hs, hr, hstops]
        rfl

end Ledger

open Interleaving Ledger

variable {site : Site} {new : NewJob} {world : World} {now : Time} {moves : List (Move Call Unit)}
  {s s' s₁ : Store}

/-! ## Nothing works for the job -/

/-- The statuses of a job that no attempt may work for. -/
def shutStatuses : List JobState := .verifying :: .cancelRequested :: terminal

/-- Whatever attempt is active has to stop. -/
structure Shut (s : Store) : Prop where
  status : s.job.status ∈ shutStatuses
  stopping : ∀ a ∈ s.attempts, a.active = true → a.processState ∈ [.stopping, .unknown]

/-- The job stays shut and keeps its proposal. -/
structure KeptShut (s s' : Store) : Prop where
  shut : Shut s'
  proposal : s'.job.resultProposal = s.job.resultProposal

theorem KeptShut.trans (h : KeptShut s s₁) (h' : KeptShut s₁ s') : KeptShut s s' :=
  ⟨h'.shut, h'.proposal.trans h.proposal⟩

namespace Shut

variable {lease : LeaseIdentity} {version : Option ℕ} {event : RunnerEvent}

theorem kept (h : Shut s) : KeptShut s s := ⟨h, rfl⟩

theorem not_leased (h : Shut s) (a : Attempt) : ¬ (ledger s).Leased a.tenure := by
  intro hl
  obtain ⟨b, hb, htenure⟩ := mem_map.mp hl.mem
  have hactive : b.active = true := by
    have hactive := hl.active
    rw [← htenure] at hactive
    exact hactive
  have hprocess := hl.process
  rw [← htenure] at hprocess
  have hprocess : b.processState ∈ [.starting, .active] := hprocess
  have hstop := h.stopping b hb hactive
  revert hprocess hstop
  cases b.processState <;> decide

/-- What leaves the status, the proposal and the attempts alone. -/
theorem same (h : Shut s) (hstatus : s'.job.status = s.job.status)
    (hproposal : s'.job.resultProposal = s.job.resultProposal)
    (hattempts : s'.attempts = s.attempts) : KeptShut s s' :=
  ⟨⟨by rw [hstatus]; exact h.status, by rw [hattempts]; exact h.stopping⟩, hproposal⟩

theorem transition (h : Shut s) {status : JobState} (hs : status ∈ shutStatuses)
    (reason : String) : KeptShut s (s.transition status reason) := ⟨⟨hs, h.stopping⟩, rfl⟩

theorem audit (h : Shut s) {type : String} {attemptId : Option Uuid}
    {recorded : Option RunnerEvent} (ha : s.audit type attemptId recorded = .ok s') :
    KeptShut s s' := by
  simp only [Store.audit, bind_eq_ok, pure_eq_ok] at ha
  obtain ⟨-, -, rfl⟩ := ha
  exact h.same rfl rfl rfl

/-- An update of attempts that starts none. -/
theorem updateAttempts (h : Shut s) {p : Attempt → Bool} {f : Attempt → Attempt}
    (hf : ∀ a, (f a).active = true → a.active = true ∧
      ((f a).processState = a.processState ∨ (f a).processState ∈ [.stopping, .unknown])) :
    KeptShut s { s with attempts := updateWhere p f s.attempts } := by
  refine ⟨⟨h.status, ?_⟩, rfl⟩
  refine forall_updateWhere h.stopping fun a ha hp hwas hactive => ?_
  obtain ⟨hactive', hsame | hstop⟩ := hf a hactive
  · rw [hsame]
    exact hwas hactive'
  · exact hstop

theorem getOrCreateRow (h : Shut s) (key : DeliveryKey) (f : OutboxRow → OutboxRow) :
    KeptShut s (s.getOrCreateRow key f) := by
  unfold Store.getOrCreateRow
  split
  · exact h.kept
  · exact h.same rfl rfl rfl

theorem requestStop (h : Shut s) {attempt : Option Attempt} {target : StopTarget}
    {reason : String} (hr : s.requestStop attempt target reason = .ok s') : KeptShut s s' := by
  cases attempt with
  | none =>
    cases hr
    refine ⟨⟨?_, h.stopping⟩, rfl⟩
    show target.status ∈ shutStatuses
    cases target <;> decide
  | some a =>
    have hstop := h.updateAttempts (p := (·.id = a.id))
      (f := fun a => { a with processState := .stopping }) fun a hactive => ⟨hactive, by simp⟩
    have hstatus : JobState.cancelRequested ∈ shutStatuses := by decide
    have hmoved : KeptShut s ((((s.updateJob fun job => { job with stopTarget := target }).updateAttempt
        a.id fun a => { a with processState := .stopping }).invalidateApprovals a.id).transition
        .cancelRequested reason) := ⟨⟨hstatus, hstop.shut.stopping⟩, rfl⟩
    have hrow := hmoved.shut.getOrCreateRow (.stop a.id) fun row =>
      { row with payloadRef := some a.id }
    exact hmoved.trans (hrow.trans (hrow.shut.audit hr))

/-! ### The calls -/

theorem completeDraft (h : Shut s) {request : DraftRequest}
    (hrun : completeDraft request s = .ok s') : KeptShut s s' := by
  have hrun := required_ok hrun
  split at hrun
  · rw [bind_eq_ok, pure_eq_ok] at hrun
    obtain ⟨-, -, rfl⟩ := hrun
    exact h.kept
  · simp only [bind_eq_ok, ensure_eq_ok] at hrun
    obtain ⟨-, ⟨hdraft, -⟩, -⟩ := hrun
    have hstatus := h.status
    rw [hdraft] at hstatus
    simp [shutStatuses, terminal] at hstatus

theorem claimWork (h : Shut s) {claimKey : Uuid} {answer : Option Uuid}
    (hrun : claimWork claimKey s = .ok (answer, s')) : KeptShut s s' := by
  have hrun := required_ok hrun
  split at hrun
  · obtain ⟨-, rfl⟩ := hrun
    exact h.kept
  · rw [bind_eq_ok] at hrun
    obtain ⟨-, -, hrun⟩ := hrun
    split at hrun
    · next hqueued =>
      have hstatus := h.status
      rw [hqueued.2.2.1] at hstatus
      simp [shutStatuses, terminal] at hstatus
    · obtain ⟨-, rfl⟩ := hrun
      exact h.kept

theorem cancelJob (h : Shut s) {actor expectedVersion : ℕ}
    (hrun : cancelJob actor expectedVersion s = .ok s') : KeptShut s s' := by
  have hrun := required_ok hrun
  split at hrun
  · rw [pure_eq_ok] at hrun
    rw [← hrun]
    exact h.kept
  · rw [bind_eq_ok] at hrun
    obtain ⟨-, -, hrun⟩ := hrun
    exact h.requestStop hrun

/-- **No input is accepted.**  One that was accepted before is found again. -/
theorem addInput (h : Shut s) {request : InputRequest} (hrun : addInput request s = .ok s') :
    s' = s := by
  simp only [Server.addInput, bind_eq_ok, agentTransaction_eq_ok] at hrun
  obtain ⟨-, -, -, -, -, hrun⟩ := hrun
  split at hrun
  · rw [bind_eq_ok, pure_eq_ok] at hrun
    obtain ⟨-, -, hsame⟩ := hrun
    exact hsame.symm
  · simp only [bind_eq_ok, ensure_eq_ok] at hrun
    obtain ⟨-, ⟨-, hopen⟩, -, -, -, hbusy, -, hstopping, -⟩ := hrun
    -- The job is verifying, so it is not queued, and its active attempt has to stop.
    rcases hbusy with hqueued | hactive
    · have hstatus := h.status
      rw [hqueued] at hstatus
      simp [shutStatuses, terminal] at hstatus
    · obtain ⟨a, ha⟩ := Option.isSome_iff_exists.mp hactive
      obtain ⟨hmem, hup⟩ := activeAttempt_mem ha
      exact absurd (h.stopping a hmem hup) (hstopping a ha)

theorem revokeRunner (h : Shut s) : KeptShut s (revokeRunner s) := by
  unfold Server.revokeRunner
  split
  · exact h.kept
  · dsimp only
    split
    · exact h.same rfl rfl rfl
    · have hstop := h.updateAttempts (p := (·.active))
        (f := fun a => { a with processState := .stopping }) fun a hactive => ⟨hactive, by simp⟩
      have hstatus : JobState.cancelRequested ∈ shutStatuses := by decide
      exact ⟨⟨hstatus, hstop.shut.stopping⟩, rfl⟩

/-- A heartbeat leaves an attempt alone that has to stop. -/
theorem heartbeatLeases (h : Shut s) {identities : List LeaseIdentity} {out : List LeaseControl}
    (hrun : heartbeatLeases identities s = .ok (out, s')) : s' = s := by
  induction identities generalizing out s' with
  | nil =>
    simp only [Server.heartbeatLeases, pure_eq_ok, Prod.mk.injEq] at hrun
    exact hrun.2.symm
  | cons identity rest ih =>
    simp only [Server.heartbeatLeases, bind_eq_ok, pure_eq_ok, Prod.mk.injEq] at hrun
    obtain ⟨⟨first, s₁⟩, hfirst, ⟨others, s₂⟩, hrest, -, rfl⟩ := hrun
    have hsame : s₁ = s := by
      obtain ⟨a, hlease, hfirst⟩ := heartbeatLease_ok hfirst
      split at hfirst
      · next hworks =>
        have hstop := h.stopping a (lockedLease_ok hlease) hworks.1
        have hup := hworks.2.1
        revert hstop hup
        cases a.processState <;> simp
      · exact hfirst
    subst hsame
    exact ih hrest

theorem controls (h : Shut s) {out : List LeaseControl}
    (hrun : controls s = .ok (out, s')) : KeptShut s s' := by
  simp only [Server.controls, agentTransaction_eq_ok, bind_eq_ok, pure_eq_ok, Prod.mk.injEq] at hrun
  obtain ⟨-, -, -, s₁, hrun, -, rfl⟩ := hrun
  cases ha : s.activeAttempt with
  | none =>
    simp only [ha, Option.elim_none, pure_eq_ok] at hrun
    rw [← hrun]
    exact h.kept
  | some a =>
    obtain ⟨hmem, hactive⟩ := activeAttempt_mem ha
    simp only [ha, Option.elim_some, controlAttempt] at hrun
    split at hrun
    · next hup =>
      have hstop := h.stopping a hmem hactive
      revert hstop hup
      cases a.processState <;> simp
    · rw [ok.injEq] at hrun
      rw [← hrun]
      exact h.kept

theorem reconcileInput (h : Shut s) {request : InputReconciliation}
    (hrun : reconcileInput lease request s = .ok s') : KeptShut s s' := by
  simp only [Server.reconcileInput, agentTransaction_eq_ok, bind_eq_ok] at hrun
  obtain ⟨-, -, -, a, -, -, -, -, -, -, -, input, -, hrun⟩ := hrun
  split at hrun
  · rw [bind_eq_ok, pure_eq_ok] at hrun
    obtain ⟨-, -, rfl⟩ := hrun
    exact h.kept
  · simp only [bind_eq_ok, pure_eq_ok] at hrun
    obtain ⟨-, -, -, -, -, -, -, -, rfl⟩ := hrun
    exact h.same rfl rfl rfl

/-- The end of an attempt. -/
theorem applyEvent (h : Shut s) {a : Attempt} (hcleanup : cleanup event.body = true)
    (hrun : applyEvent s a event = .ok s') : KeptShut s s' := by
  unfold Server.applyEvent at hrun
  cases hbody : event.body with
  | attemptInterrupted process =>
    rw [hbody, pure_eq_ok] at hrun
    rw [← hrun]
    have hstop := h.updateAttempts (p := (·.id = a.id))
      (f := fun a => { a with processState := .unknown }) fun a hactive => ⟨hactive, by simp⟩
    have hstatus : JobState.interrupted ∈ shutStatuses := by decide
    exact ⟨⟨hstatus, hstop.shut.stopping⟩, rfl⟩
  | attemptStopped process =>
    rw [hbody, pure_eq_ok] at hrun
    rw [← hrun]
    have hended : KeptShut s (containment s a event) := by
      have hstop := h.updateAttempts (p := (·.id = a.id)) (f := fun a =>
        { a with
          processState := .stopped, stoppedAt := some s.clock, endedAt := some s.clock,
          active := false, stopReceipt := some event }) fun a hactive => by cases hactive
      exact ⟨⟨h.status, hstop.shut.stopping⟩, rfl⟩
    unfold attemptStopped
    split
    · refine hended.trans (hended.shut.transition ?_ _)
      cases s.job.stopTarget <;> decide
    split
    · exact hended.trans (hended.shut.transition (by decide) _)
    · exact hended
  | _ =>
    rw [hbody] at hcleanup
    cases hcleanup

variable {answer : EventReceipt × Bool}

theorem recordEvent (h : Shut s) {stopOnly : Bool}
    (hrun : recordEvent event version stopOnly s = .ok (answer, s')) : KeptShut s s' := by
  obtain ⟨-, a, hmem, -, ⟨-, rfl⟩ | ⟨-, hadmitted, s₁, happly, haudit⟩⟩ := recordEvent_ok hrun
  · exact h.kept
  · have hcleanup : cleanup event.body = true := by
      by_contra hworks
      obtain ⟨-, -, hl⟩ := admitted_of_ok hmem hadmitted
      exact h.not_leased a (hl (by simpa using hworks))
    have happlied := h.applyEvent hcleanup happly
    have htouched := happlied.shut.updateAttempts (p := (·.id = a.id))
      (f := fun a => { a with eventCursor := event.sequence }) fun a hactive => ⟨hactive, .inl rfl⟩
    exact happlied.trans (htouched.trans (htouched.shut.audit haudit))

theorem stopEvidence (h : Shut s)
    (hrun : stopEvidence event s = .ok (answer, s')) : KeptShut s s' := by
  obtain ⟨-, a, ⟨-, rfl⟩ | ⟨receipt, s₁, hrecord, rfl⟩⟩ := stopEvidence_ok hrun
  · exact h.kept
  · have hrecorded := h.recordEvent hrecord
    exact hrecorded.trans (hrecorded.shut.updateAttempts (p := (·.id = a.id))
      (f := fun a => { a with stopReceipt := some event }) fun a hactive => ⟨hactive, .inl rfl⟩)

theorem decideApproval (h : Shut s) {decision : Decision}
    (hrun : decideApproval decision s = .ok s') : KeptShut s s' := by
  simp only [Server.decideApproval, agentTransaction_eq_ok, bind_eq_ok] at hrun
  obtain ⟨-, approval, -, a, hattempt, -⟩ := hrun
  rw [attemptOf, bind_eq_ok] at hattempt
  obtain ⟨b, -, hlock⟩ := hattempt
  exact absurd (leased_of_locked hlock).2 (h.not_leased a)

theorem reconcileOperation (h : Shut s) {receipt : RemoteReceipt}
    (hrun : reconcileOperation site lease receipt s = .ok s') : KeptShut s s' := by
  simp only [Server.reconcileOperation, agentTransaction_eq_ok, bind_eq_ok] at hrun
  obtain ⟨-, -, -, a, -, -, -, -, -, o, -, -, -, -, -, hrun⟩ := hrun
  split at hrun
  · rw [bind_eq_ok, pure_eq_ok] at hrun
    obtain ⟨-, -, rfl⟩ := hrun
    exact h.kept
  · rw [bind_eq_ok, pure_eq_ok] at hrun
    obtain ⟨-, -, rfl⟩ := hrun
    exact h.same rfl rfl rfl

theorem reconcileLocalOperation (h : Shut s) {receipt : LocalOperationReceipt}
    (hrun : reconcileLocalOperation lease receipt s = .ok s') : KeptShut s s' := by
  simp only [Server.reconcileLocalOperation, agentTransaction_eq_ok, bind_eq_ok] at hrun
  obtain ⟨-, -, -, a, -, -, -, -, -, -, -, o, -, hrun⟩ := hrun
  split at hrun
  · rw [bind_eq_ok, pure_eq_ok] at hrun
    obtain ⟨-, -, rfl⟩ := hrun
    exact h.kept
  · rw [bind_eq_ok, pure_eq_ok] at hrun
    obtain ⟨-, -, rfl⟩ := hrun
    have htree := h.updateAttempts (p := (·.id = a.id))
      (f := fun a => { a with treeHash := receipt.treeHash.getD "" })
      fun a hactive => ⟨hactive, .inl rfl⟩
    exact ⟨⟨h.status, htree.shut.stopping⟩, rfl⟩

theorem storeTeamReceipt (h : Shut s) {operationId : Uuid} {receipt : TeamReceipt}
    (hrun : storeTeamReceipt lease operationId receipt s = .ok s') : KeptShut s s' := by
  simp only [Server.storeTeamReceipt, agentTransaction_eq_ok, bind_eq_ok] at hrun
  obtain ⟨-, a, -, o, -, hrun⟩ := hrun
  split at hrun
  · rw [pure_eq_ok] at hrun
    rw [← hrun]
    exact h.kept
  · let stored := s.updateOperations (·.operationId = operationId) fun o => { o with
      serverReceipt := some receipt,
      status := if receipt.succeeded then .succeeded else .failed,
      finishedAt := some s.clock, version := o.version + 1 }
    have hstored : KeptShut s stored := h.same rfl rfl rfl
    exact hstored.trans (hstored.shut.audit hrun)

/-- What is published is completed. -/
theorem published (h : Shut s) {receipt : ResultReceipt} {atop : Bool}
    (hp : Published site s s' receipt atop) : KeptShut s s' := by
  refine ⟨⟨?_, ?_⟩, hp.rows.proposal⟩
  · have hcompleted : s'.job.status = .completed := hp.delivered.completed
    rw [hcompleted]
    decide
  · rw [hp.rows.attempts]
    exact h.stopping

theorem publish (h : Shut s) {proposal : ResultPayload} {artifacts : List Artifact}
    {answer : ResultReceipt × Option Edit} (hS : Outline.Sound site (outline s))
    (hrun : publish site proposal artifacts s = .ok (answer, s')) : KeptShut s s' := by
  rcases publish_ok hS hrun with ⟨rfl, -, -⟩ | ⟨a, atop, -, -, hp, -, -⟩
  · exact h.kept
  · exact h.published hp

theorem deliverResultPrivately (h : Shut s) {actor expectedVersion : ℕ}
    (hS : Outline.Sound site (outline s))
    (hrun : deliverResultPrivately site actor expectedVersion s = .ok s') : KeptShut s s' := by
  rcases deliverResultPrivately_ok hS hrun with ⟨rfl, -⟩ | ⟨a, p, artifacts, receipt, -, -, hp⟩
  · exact h.kept
  · exact h.published hp

theorem blockPublication (h : Shut s) {target : JobState} {reason : String} {park : Bool}
    (ht : target ∈ shutStatuses) (hrun : blockPublication target reason park s = .ok s') :
    KeptShut s s' := by
  rw [Server.blockPublication, agentTransaction_eq_ok] at hrun
  obtain ⟨-, hrun⟩ := hrun
  split at hrun
  · simp only [bind_eq_ok, pure_eq_ok] at hrun
    obtain ⟨s₁, haudit, rfl⟩ := hrun
    have hmoved := h.transition ht reason
    have haudited := hmoved.shut.audit haudit
    refine hmoved.trans (haudited.trans ?_)
    split
    · exact haudited.shut.same rfl rfl rfl
    · exact haudited.shut.kept
  · rw [pure_eq_ok] at hrun
    rw [← hrun]
    exact h.kept

theorem editMessage (h : Shut s) (id : ℕ) (c : Content) : KeptShut s (editMessage id c s) := by
  unfold Server.editMessage
  split
  · exact h.kept
  · exact h.same rfl rfl rfl

theorem deleteMessage (h : Shut s) (id : ℕ) : KeptShut s (deleteMessage id s) := by
  unfold Server.deleteMessage
  dsimp only
  split
  · exact h.same rfl rfl rfl
  · exact h.same rfl rfl rfl

theorem loseLeases (h : Shut s) {attempts : List Attempt}
    (hrun : attempts.foldlM loseLease s = .ok s') : KeptShut s s' := by
  induction attempts generalizing s with
  | nil =>
    cases hrun
    exact h.kept
  | cons a rest ih =>
    rw [foldlM_cons, bind_eq_ok] at hrun
    obtain ⟨s₁, hfirst, hrest⟩ := hrun
    have hstop := h.updateAttempts (p := (·.id = a.id))
      (f := fun a => { a with processState := .unknown }) fun a hactive => ⟨hactive, by simp⟩
    have hstatus : JobState.interrupted ∈ shutStatuses := by decide
    have hlost : KeptShut s (((((s.updateAttempt a.id fun a => { a with processState := .unknown })
        |>.invalidateApprovals a.id).loseOperations a.id).loseInputs a.id).transition .interrupted
          "lease_lost") := ⟨⟨hstatus, hstop.shut.stopping⟩, rfl⟩
    have hgone := hlost.trans (hlost.shut.audit hfirst)
    exact hgone.trans (ih hgone.shut hrest)

theorem expireApprovals (h : Shut s) {approvals : List Approval}
    (hrun : approvals.foldlM expireApproval s = .ok s') : KeptShut s s' := by
  induction approvals generalizing s with
  | nil =>
    cases hrun
    exact h.kept
  | cons p rest ih =>
    rw [foldlM_cons, bind_eq_ok] at hrun
    obtain ⟨s₁, hfirst, hrest⟩ := hrun
    have hgone : KeptShut s s₁ := by
      unfold expireApproval at hfirst
      dsimp only at hfirst
      have hexpired : KeptShut s (s.updateApprovals (·.id = p.id) fun a => { a with decision := .expired }) :=
        h.same rfl rfl rfl
      split at hfirst
      · exact hexpired.trans (hexpired.shut.requestStop hfirst)
      · rw [pure_eq_ok] at hfirst
        rw [← hfirst]
        exact hexpired
    exact hgone.trans (ih hgone.shut hrest)

theorem expire (h : Shut s) {reach : Reach} (hrun : expire reach s = .ok s') : KeptShut s s' := by
  simp only [Server.expire, agentTransaction_eq_ok, bind_eq_ok] at hrun
  obtain ⟨-, s₁, hleases, happrovals⟩ := hrun
  have hqueue : KeptShut s (expireQueue s reach.queued) := by
    unfold expireQueue
    split
    · exact h.transition (by decide) _
    · exact h.kept
  have hlost := hqueue.shut.loseLeases hleases
  exact hqueue.trans (hlost.trans (hlost.shut.expireApprovals happrovals))

theorem takeRow (h : Shut s) {key : DeliveryKey} {b : Bool}
    (hrun : takeRow key s = .ok (b, s')) : KeptShut s s' := by
  simp only [Server.takeRow, agentTransaction_eq_ok, bind_eq_ok] at hrun
  obtain ⟨-, row, -, hrun⟩ := hrun
  split at hrun
  · obtain ⟨-, rfl⟩ := hrun
    exact h.same rfl rfl rfl
  · obtain ⟨-, rfl⟩ := hrun
    exact h.kept

theorem finishRow (h : Shut s) {key : DeliveryKey} {delivered : Bool}
    (hrun : finishRow key delivered s = .ok s') : KeptShut s s' := by
  simp only [Server.finishRow, agentTransaction_eq_ok, bind_eq_ok] at hrun
  obtain ⟨-, row, -, hrun⟩ := hrun
  split at hrun
  · rw [pure_eq_ok] at hrun
    rw [← hrun]
    exact h.same rfl rfl rfl
  · rw [pure_eq_ok] at hrun
    rw [← hrun]
    exact h.kept

/-- **A shut job stays shut until it is resumed**, whatever else is called. -/
theorem run (h : Shut s) {t : Transaction} {a : t.Answer} (hS : Outline.Sound site (outline s))
    (hpark : ∀ target reason park, t = .blockPublication target reason park → target ∈ shutStatuses)
    (hresume : ∀ actor version checkpoint, t ≠ .resumeJob actor version checkpoint)
    (hrun : t.run site s = .ok (a, s')) : KeptShut s s' := by
  have hexecution : ∀ id, executionOf t ≠ some id := by
    intro id ht
    obtain ⟨b, -, hl⟩ := leased_of_run hrun ht
    exact h.not_leased b hl
  have hsame : ∀ {b : t.Answer}, (Except.ok (b, s) : Result _) = .ok (a, s') → KeptShut s s' := by
    intro b hb
    rw [← (Prod.mk.inj (ok.inj hb)).2]
    exact h.kept
  cases t with
  | wait | change =>
    obtain ⟨-, rfl⟩ := Prod.mk.inj (ok.inj hrun)
    exact h.same rfl rfl rfl
  | completeDraft request => exact h.completeDraft (silent_ok hrun)
  | claimWork claimKey => exact h.claimWork hrun
  | cancelJob actor version => exact h.cancelJob (silent_ok hrun)
  | addInput request =>
    rw [h.addInput (silent_ok hrun)]
    exact h.kept
  | resumeJob actor version checkpoint => exact absurd rfl (hresume actor version checkpoint)
  | revokeRunner =>
    obtain ⟨-, rfl⟩ := Prod.mk.inj (ok.inj hrun)
    exact h.revokeRunner
  | heartbeat identities =>
    have hrun : Server.heartbeat identities s = .ok (a, s') := hrun
    rw [h.heartbeatLeases (required_ok hrun)]
    exact h.kept
  | controls => exact h.controls hrun
  | reconcileInput lease request => exact h.reconcileInput (silent_ok hrun)
  | events event version =>
    have hrun : Server.events event version s = .ok (a, s') := hrun
    exact h.recordEvent (required_ok hrun)
  | stopEvidence event => exact h.stopEvidence hrun
  | decideApproval decision => exact h.decideApproval (silent_ok hrun)
  | reconcileOperation lease receipt => exact h.reconcileOperation (silent_ok hrun)
  | reconcileLocalOperation lease receipt => exact h.reconcileLocalOperation (silent_ok hrun)
  | storeTeamReceipt lease operation receipt => exact h.storeTeamReceipt (silent_ok hrun)
  | readJob | readArtifacts proposal | notify => rw [(query_ok hrun).2]; exact h.kept
  | publish proposal artifacts => exact h.publish hS hrun
  | blockPublication target reason park =>
    exact h.blockPublication (hpark target reason park rfl) (silent_ok hrun)
  | deliverResultPrivately actor version => exact h.deliverResultPrivately hS (silent_ok hrun)
  | readReceipt | selectDue | overtaken => exact hsame hrun
  | editMessage edit =>
    obtain ⟨-, rfl⟩ := Prod.mk.inj (ok.inj hrun)
    exact h.editMessage edit.1 edit.2
  | deleteMessage id =>
    obtain ⟨-, rfl⟩ := Prod.mk.inj (ok.inj hrun)
    exact h.deleteMessage id
  | expire reach => exact h.expire (silent_ok hrun)
  | takeRow key => exact h.takeRow hrun
  | finishRow key delivered => exact h.finishRow (silent_ok hrun)
  | _ => exact absurd rfl (hexecution _)

end Shut

/-! ## After the fence -/

/-- The job is resumed. -/
def Resumes (site : Site) (e : Event Store Tag) : Prop :=
  accepted site e = true ∧ ∃ actor version checkpoint,
    e.tag.transaction = .resumeJob actor version checkpoint

/-- Somebody stops the job, or its attempt is given up, or its publication fails.  A revocation
of the runner stops a job whose attempt works. -/
def Discards (site : Site) (id : Uuid) (e : Event Store Tag) : Prop :=
  (∃ deed ∈ deedsOf site e, discards id deed = true) ∨
    .revoked ∈ deedsOf site e ∧ (ledger e.pre).working id = true

variable {e : Event Store Tag} {id : Uuid} {p : ResultPayload}

theorem shut_step (hmeets : Machine.Meets (rules site False) e)
    (hr : ¬ Resumes site e) (h : Shut e.pre) : KeptShut e.pre e.post := by
  rcases hmeets.owed.2 with ⟨a, hrun⟩ | ⟨-, hsame⟩
  · refine h.run hmeets.pre ?_ ?_ hrun
    · intro target reason park ht
      have hmem := hmeets.owed.1.park target reason park ht
      simp only [refusals, mem_cons, Prod.mk.injEq, not_mem_nil, or_false] at hmem
      rcases hmem with ⟨rfl, -⟩ | ⟨rfl, -⟩ | ⟨rfl, -⟩ <;> decide
    · intro actor version checkpoint ht
      exact hr ⟨by simp [accepted, hrun], actor, version, checkpoint, ht⟩
  · rw [hsame]
    exact h.kept

theorem fenced_step (hmeets : Machine.Meets (rules site False) e)
    (hordered : Machine.Meets (ordered site) e) (hg : ¬ Discards site id e)
    (h : Fenced id (ledger e.pre) ∨ Contained (ledger e.pre)) :
    Fenced id (ledger e.post) ∨ Contained (ledger e.post) := by
  have hentries := entries_of_meets hmeets hordered
  have hdeeds : ∀ deed ∈ deedsOf site e, discards id deed = false := by
    intro deed hdeed
    by_contra hdiscards
    exact hg (.inl ⟨deed, hdeed, by simpa using hdiscards⟩)
  rcases h with hf | hc
  · refine Fenced.entries hordered.pre (.inl hf) hentries fun deed hdeed => ⟨hdeeds deed hdeed, ?_⟩
    rintro rfl
    obtain ⟨a, ha, hid, hactive, -⟩ := hf.attempt
    refine hg (.inr ⟨hdeed, any_eq_true.mpr ⟨a, ha, ?_⟩⟩)
    simp [hid, hactive]
  · exact .inr (hc.entries hentries hdeeds)

/-! ### The fence itself -/

theorem fenceDeeds_prepared {a : Attempt} {deed : Deed} (h : deed ∈ fenceDeeds s a) :
    s.job.resultProposal ≠ none ∧ ∃ j, deed = .fenced j := by
  unfold fenceDeeds at h
  split at h
  · cases h
  · next hprepared =>
    exact ⟨fun hnone => hprepared (.inr (.inl hnone)), _, mem_singleton.mp h⟩

/-- A heartbeat does nothing but fence attempts with a prepared result. -/
theorem heartbeatDeeds_prepared {identities : List LeaseIdentity} {deed : Deed}
    (h : deed ∈ heartbeatDeeds identities s) :
    s.job.resultProposal ≠ none ∧ ∃ j, deed = .fenced j := by
  induction identities generalizing s with
  | nil => cases h
  | cons identity rest ih =>
    unfold heartbeatDeeds at h
    split at h
    · cases h
    · next s₁ hbeat =>
      rcases mem_append.mp h with h | h
      · unfold leaseDeeds at h
        split at h
        · cases h
        split at h
        · exact fenceDeeds_prepared h
        · cases h
      · have hsame : s₁.job.resultProposal = s.job.resultProposal :=
          congrArg Outline.proposal (outline_heartbeatLease hbeat)
        rw [← hsame]
        exact ih h

/-- A step that fences an attempt finds a prepared result, keeps it, and does nothing else. -/
theorem fence_of_history
    (he : e ∈ history site new world now moves) (hf : .fenced id ∈ deedsOf site e) :
    (∃ p, e.post.job.resultProposal = some p) ∧ ∀ deed ∈ deedsOf site e, ∃ j, deed = .fenced j := by
  obtain ⟨haccepted, hdone⟩ := accepted_of_deed hf
  rw [deedsOf, if_pos haccepted] at hf ⊢
  have hsome : ∀ {p : Option ResultPayload}, p ≠ none → ∃ q, p = some q :=
    fun hne => Option.ne_none_iff_exists'.mp hne
  rcases hdone with ⟨identities, ht⟩ | ht
  · obtain ⟨answer, hrun⟩ := ran_of_history he haccepted ht
    rw [ht] at hf ⊢
    have hrun : heartbeat identities e.pre = .ok (answer, e.post) := hrun
    have hsame : e.post.job.resultProposal = e.pre.job.resultProposal :=
      congrArg Outline.proposal (outline_heartbeatLeases (required_ok hrun))
    rw [hsame]
    exact ⟨hsome (heartbeatDeeds_prepared hf).1, fun deed hdeed => (heartbeatDeeds_prepared hdeed).2⟩
  · obtain ⟨answer, hrun⟩ := ran_of_history he haccepted ht
    rw [ht] at hf ⊢
    have hrun : controls e.pre = .ok (answer, e.post) := hrun
    simp only [controls, agentTransaction_eq_ok, bind_eq_ok, pure_eq_ok, Prod.mk.injEq] at hrun
    obtain ⟨-, -, -, s₁, hrun, -, rfl⟩ := hrun
    simp only [deeds] at hf ⊢
    cases hactive : e.pre.activeAttempt with
    | none =>
      rw [hactive] at hf
      cases hf
    | some a =>
      rw [hactive] at hf hrun
      simp only [Option.elim_some, controlDeeds, controlAttempt] at hf hrun ⊢
      split at hf
      · next hup =>
        rw [if_pos hup] at hrun ⊢
        split at hf
        · next hexec =>
          simp only [hexec] at hrun ⊢
          have hsame : e.post.job.resultProposal = e.pre.job.resultProposal := by
            rw [← ok.inj hrun]
            exact congrArg Outline.proposal (outline_fence e.pre a)
          rw [hsame]
          exact ⟨hsome (fenceDeeds_prepared hf).1, fun deed hdeed => (fenceDeeds_prepared hdeed).2⟩
        · cases mem_singleton.mp hf
      · cases hf

/-! ## Runs -/

/-- The result of a fenced attempt waits for the attempt to stop, and then for its publication. -/
structure Awaited (id : Uuid) (p : ResultPayload) (s : Store) : Prop where
  phase : Fenced id (ledger s) ∨ Contained (ledger s)
  shut : Shut s
  proposal : s.job.resultProposal = some p

theorem Awaited.status (h : Awaited id p s) : s.job.status ∈ [.verifying, .completed] := by
  rcases h.phase with hf | hc
  · rw [show s.job.status = .verifying from hf.status]
    decide
  · exact hc.status

/-- A job that awaits its publication cannot be resumed. -/
theorem Awaited.not_resumes (h : Awaited id p e.pre) : ¬ Resumes site e := by
  rintro ⟨haccepted, actor, version, checkpoint, ht⟩
  obtain ⟨⟨a, s'⟩, hrun⟩ : ∃ r, e.tag.transaction.run site e.pre = .ok r := by
    unfold accepted at haccepted
    split at haccepted
    · next r hrun => exact ⟨r, hrun⟩
    · cases haccepted
  revert a
  rw [ht]
  intro a hrun
  have hrun := silent_ok hrun
  simp only [resumeJob, agentTransaction_eq_ok, bind_eq_ok, ensure_eq_ok] at hrun
  obtain ⟨-, -, -, -, ⟨-, hhalted⟩, -⟩ := hrun
  have hstatus := h.status
  revert hstatus hhalted
  cases e.pre.job.status <;> decide

/-- Once the attempt has stopped, it is so for good. -/
theorem contained_step (he : e ∈ history site new world now moves) (hd : ¬ Discards site id e)
    (h : Contained (ledger e.pre)) : Contained (ledger e.post) := by
  refine @Contained.entries _ _ _ _ id h (entries_of_history he) fun deed hdeed => ?_
  by_contra hdiscards
  exact hd (.inl ⟨deed, hdeed, by simpa using hdiscards⟩)

/-- Stop evidence leaves no attempt that is fenced. -/
theorem not_fenced_of_stopped
    (he : e ∈ history site new world now moves) (hstop : .stopped id ∈ deedsOf site e) :
    ¬ Fenced id (ledger e.post) := by
  intro hf
  obtain ⟨a, -, hid, -, reason, hledger⟩ := stopped_of_history he hstop
  obtain ⟨b, hb, hbid, hactive, -⟩ := hf.attempt
  rw [hledger] at hb
  obtain ⟨x, -, ⟨-, rfl⟩ | ⟨hne, rfl⟩⟩ := mem_updateWhere.mp hb
  · cases hactive
  · rw [hbid, hid] at hne
    simp at hne

theorem awaited_step (he : e ∈ history site new world now moves) (hd : ¬ Discards site id e)
    (h : Awaited id p e.pre) : Awaited id p e.post := by
  have hkept := shut_step (meets_of_history he) h.not_resumes h.shut
  exact ⟨fenced_step (meets_of_history he) (ordered_of_history he) hd h.phase, hkept.shut,
    hkept.proposal.trans h.proposal⟩

/-- The fence leaves the result to be awaited. -/
theorem awaited_of_fence {past later : List (Event Store Tag)}
    (h : history site new world now moves = past ++ e :: later)
    (hf : .fenced id ∈ deedsOf site e) : ∃ p, Awaited id p e.post := by
  have he : e ∈ history site new world now moves := by
    rw [h]
    simp
  obtain ⟨⟨p, hp⟩, hdeeds⟩ := fence_of_history he hf
  have haimed : Aimed [] (ledger (created new world now)) ∧
      Asked [] (ledger (created new world now)) := by
    rw [ledger_created]
    refine ⟨⟨rfl, fun _ => rfl, by simp [requests], by simp [requests], by simp⟩, ?_⟩
    intro j hstop
    cases hstop
  obtain ⟨⟨haimed, hasked⟩, -⟩ := past_of_history
    (J := fun l c => Aimed l c ∧ Asked l c) haimed
    (fun _ _ _ _ ho he hJ => ⟨hJ.1.entry ho he, hJ.2.entry he⟩) h
  have ho := (ordered_of_history he).pre
  have hphase := fenced_of_entries ho haimed hasked (entries_of_history he) hf (by
    intro deed hdeed
    obtain ⟨j, rfl⟩ := hdeeds deed hdeed
    exact ⟨rfl, Deed.noConfusion⟩)
  refine ⟨p, hphase, ⟨?_, ?_⟩, hp⟩
  · rcases hphase with hf | hc
    · rw [show e.post.job.status = .verifying from hf.status]
      decide
    · have hstatus : e.post.job.status ∈ [.verifying, .completed] := hc.status
      revert hstatus
      cases e.post.job.status <;> decide
  · intro a ha hactive
    rcases hphase with hf | hc
    · have hprocess := (hf.one (ho.entries (entries_of_history he)) (mem_ledger ha) hactive).2
      have hprocess : a.processState = .stopping := hprocess
      simp [hprocess]
    · have hidle : a.active = false := hc.idle a.tenure (mem_ledger ha)
      rw [hidle] at hactive
      cases hactive

/-- **A fenced result is not thrown away.**  Until the job is resumed it accepts no input and
keeps the result.  As long as nobody stops it, its attempt is not given up and its publication
does not fail, it is verifying or completed; when the attempt has stopped, nothing works for it
any more, and a publication completes it. -/
theorem fenced_result_kept (site : Site) (new : NewJob) (world : World) (now : Time)
    (moves : List (Move Call Unit)) (past mid later : List (Event Store Tag))
    (e f : Event Store Tag) (id : Uuid)
    (h : history site new world now moves = past ++ e :: (mid ++ f :: later))
    (hfence : .fenced id ∈ deedsOf site e) :
    ∃ p, e.post.job.resultProposal = some p ∧
      ((∀ g ∈ mid, ¬ Resumes site g) →
        ∀ request, f.tag.transaction = .addInput request → f.post = f.pre) ∧
      ((∀ g ∈ mid ++ [f], ¬ Resumes site g) → f.post.job.resultProposal = some p) ∧
      ((∀ g ∈ mid ++ [f], ¬ Discards site id g) →
        f.post.job.resultProposal = some p ∧ f.post.job.status ∈ [.verifying, .completed] ∧
        ((∃ g ∈ mid ++ [f], .stopped id ∈ deedsOf site g) →
          ∀ a ∈ f.post.attempts, a.active = false) ∧
        ((∃ q artifacts, f.tag.transaction = .publish q artifacts) → accepted site f = true →
          f.post.job.status = .completed)) := by
  have hf : f ∈ history site new world now moves := by
    rw [h]
    simp
  obtain ⟨p, hawaited⟩ := awaited_of_fence h hfence
  have hshut := Machine.trace_since (M := machine site) (J := fun since s =>
      (∀ g ∈ since, ¬ Resumes site g) → Shut s ∧ s.job.resultProposal = some p) h
    (fun _ => ⟨hawaited.shut, hawaited.proposal⟩) (fun _ _ hJ => hJ) (by
      intro since g hg hJ hnone
      obtain ⟨hs, hp⟩ := hJ fun x hx => hnone x (mem_append_left _ hx)
      have hkept := shut_step (meets_of_history hg) (hnone g (by simp)) hs
      exact ⟨hkept.shut, hkept.proposal.trans hp⟩) rfl
  have hresult := Machine.trace_since (M := machine site) (J := fun since s =>
      (∀ g ∈ since, ¬ Discards site id g) → Awaited id p s ∧
        ((∃ g ∈ since, .stopped id ∈ deedsOf site g) → Contained (ledger s))) h
    (fun _ => ⟨hawaited, fun hstopped => by simp at hstopped⟩) (fun _ _ hJ => hJ) (by
      intro since g hg hJ hnone
      obtain ⟨hpre, hstopped⟩ := hJ fun x hx => hnone x (mem_append_left _ hx)
      have hpost := awaited_step hg (hnone g (by simp)) hpre
      refine ⟨hpost, ?_⟩
      rintro ⟨x, hx, hstop⟩
      rcases mem_append.mp hx with hx | hx
      · exact contained_step hg (hnone g (by simp)) (hstopped ⟨x, hx, hstop⟩)
      · rw [mem_singleton.mp hx] at hstop
        exact hpost.phase.resolve_left (not_fenced_of_stopped hg hstop)) rfl
  refine ⟨p, hawaited.proposal, ?_, fun hnone => (hshut.2 hnone).2, ?_⟩
  · intro hnone request ht
    have hs := (hshut.1 hnone).1
    rcases (meets_of_history hf).owed.2 with ⟨a, hrun⟩ | ⟨-, hsame⟩
    · revert a
      rw [ht]
      intro a hrun
      exact hs.addInput (silent_ok hrun)
    · exact hsame
  · intro hnone
    obtain ⟨hpost, hstopped⟩ := hresult.2 hnone
    refine ⟨hpost.proposal, hpost.status, ?_, ?_⟩
    · intro hstop a ha
      exact (hstopped hstop).idle a.tenure (mem_ledger ha)
    · rintro ⟨q, artifacts, ht⟩ haccepted
      obtain ⟨answer, hrun⟩ := ran_of_history hf haccepted ht
      have hS := (meets_of_history hf).pre
      rcases publish_ok hS hrun with ⟨hsame, hreceipt, -⟩ | ⟨a, atop, -, -, hp, -, -⟩
      · rw [hsame]
        refine hS.completed.mpr ?_
        show f.pre.job.resultReceipt.isSome = true
        rw [hreceipt]
        rfl
      · exact hp.delivered.completed

theorem eq_take_pair {α : Type} {l : List α} {n : ℕ} {x y : α} (hx : l[n]? = some x)
    (hy : l[n + 1]? = some y) : l = l.take n ++ x :: ([] ++ y :: l.drop (n + 2)) := by
  have hrest := eq_take_append hx
  obtain ⟨hn, rfl⟩ := List.getElem?_eq_some_iff.mp hy
  rwa [drop_eq_getElem_cons hn] at hrest

/-- The attempt prepares a result, and a heartbeat fences it. -/
def fencedRun : List (Move Call Unit) :=
  request 0 (.claimWork 7) ++ report 1 1 2 startedBody ++
    report 2 2 2 (.resultPrepared ⟨[], none, "Done."⟩) ++ request 3 (.heartbeat [firstLease])

/-- The stop evidence leaves the result to its publication. -/
theorem awaited_fencedRun : ∃ f ∈ history plainSite answerJob openWorld 0
      (fencedRun ++ report 4 3 4 stoppedBody),
    .stopped 1 ∈ deedsOf plainSite f ∧ f.post.job.status ∈ [.verifying, .completed] ∧
      ∀ a ∈ f.post.attempts, a.active = false := by
  have hfence : (history plainSite answerJob openWorld 0
      (fencedRun ++ report 4 3 4 stoppedBody))[3]?.any
      (fun e => decide (.fenced 1 ∈ deedsOf plainSite e)) = true := by
    decide
  have hstop : (history plainSite answerJob openWorld 0
      (fencedRun ++ report 4 3 4 stoppedBody))[4]?.any
      (fun f => decide (deedsOf plainSite f = [.stopped 1])) = true := by
    decide
  obtain ⟨e, he, hfence⟩ := (Option.any_eq_true _ _).mp hfence
  obtain ⟨f, hf, hstop⟩ := (Option.any_eq_true _ _).mp hstop
  have hstop := of_decide_eq_true hstop
  have hdeed : .stopped 1 ∈ deedsOf plainSite f := by
    rw [hstop]
    exact mem_singleton_self _
  obtain ⟨p, -, -, -, hkept⟩ := fenced_result_kept plainSite answerJob openWorld 0
    (fencedRun ++ report 4 3 4 stoppedBody) _ [] _ e f 1 (eq_take_pair he hf)
    (of_decide_eq_true hfence)
  obtain ⟨-, hstatus, hidle, -⟩ := hkept (by
    intro g hg
    rw [nil_append, mem_singleton] at hg
    subst hg
    rw [Discards, hstop]
    simp [discards])
  refine ⟨f, mem_of_getElem? hf, hdeed, hstatus, hidle ⟨f, ?_, hdeed⟩⟩
  exact mem_append_right _ (mem_singleton_self _)

/-- The lease of the fenced attempt runs out before the stop evidence, and a pass finds it. -/
theorem interrupted_fencedRun :
    ¬ ∀ past mid later e f id, history plainSite answerJob openWorld 0
        (fencedRun ++ request 4 (.wait 90) ++ (.start (.reconcile ⟨1, 1, 1, 0⟩ false) :: rounds 5 2) ++
          report 6 3 4 stoppedBody) = past ++ e :: (mid ++ f :: later) →
      .fenced id ∈ deedsOf plainSite e → .stopped id ∈ deedsOf plainSite f →
        f.post.job.status ∈ [.verifying, .completed] := by
  intro hall
  have hsplit : ∃ past e mid f later, history plainSite answerJob openWorld 0
      (fencedRun ++ request 4 (.wait 90) ++ (.start (.reconcile ⟨1, 1, 1, 0⟩ false) :: rounds 5 2) ++
        report 6 3 4 stoppedBody) = past ++ e :: (mid ++ f :: later) ∧
      (.fenced 1 ∈ deedsOf plainSite e ∧ .stopped 1 ∈ deedsOf plainSite f ∧
        f.post.job.status = .interrupted) := by
    refine exists_split ?_
    decide
  obtain ⟨past, e, mid, f, later, h, hfence, hstop, hstatus⟩ := hsplit
  have hend := hall past mid later e f 1 h hfence hstop
  rw [hstatus] at hend
  revert hend
  decide

end GrowTeam.Server
