/-
# Approvals and the execution of their attempt

An approval that can still be used belongs to an attempt that executes, as long as no fence
and no revocation finds one: these two stop the process of an attempt and leave its
approvals alone.  An approval that is left behind expires later, and stops a job that has
moved on.
-/
import GrowTeam.Server.Docket
import GrowTeam.Server.Proposals

namespace GrowTeam.Server

open List Bool

namespace Ledger

variable {site : Site} {c d : Ledger} {m : Option Deed} {a : Tenure}

/-- The decisions of an approval that can still be used. -/
def openDecisions : List ApprovalState := [.pending, .approved]

/-- The attempt executes. -/
structure Executes (c : Ledger) (id : Uuid) (a : Tenure) : Prop where
  mem : a ∈ c.attempts
  id : a.id = id
  active : a.active = true
  process : a.process ∈ [.starting, .active]

/-- Every approval that can still be used belongs to an attempt that executes. -/
def Backed (c : Ledger) : Prop :=
  ∀ p ∈ c.approvals, p.decision ∈ openDecisions → ∃ a, c.Executes p.attemptId a

/-- What is open after an entry was open before it, or it is new. -/
theorem Entry.open (hids : (c.operations.map (·.operationId)).Nodup)
    (hids' : (c.approvals.map (·.id)).Nodup) (h : Entry site c m d) {p : Approval}
    (hp : p ∈ d.approvals) (hopen : p.decision ∈ openDecisions) :
    (∃ q ∈ c.approvals, q.decision ∈ openDecisions ∧ q.attemptId = p.attemptId) ∨
      ∃ a, c.Leased a ∧ a.id = p.attemptId := by
  rcases h.approvals hids' with ⟨f, hf, heq⟩ | ⟨_, _, _, -, -, -, hops, -⟩
  · rw [heq] at hp
    obtain ⟨q, hq, rfl⟩ := mem_map.mp hp
    have hb := hf q hq
    refine .inl ⟨q, hq, ?_, hb.attempt.symm⟩
    have hdecided := hb.decided
    have happroved := hb.approved
    rcases mem_cons.mp hopen with hpending | happ
    · have hwas : q.decision = .pending := by
        by_contra hne
        exact hdecided hne hpending
      simp [openDecisions, hwas]
    · have happ := mem_singleton.mp happ
      rcases happroved happ with hsame | ⟨hwas, -⟩
      · rw [hsame] at happ
        simp [openDecisions, happ]
      · simp [openDecisions, hwas]
  · rcases h.operations hids with ⟨f, -, heq⟩ | ⟨a, o, hl, ho, -, hnew⟩
    · -- The entry adds an operation.
      rw [heq] at hops
      have hlen := congrArg List.length hops
      simp at hlen
    · rcases hnew with ⟨-, -, hsame⟩ | ⟨-, -, q, hq, heq⟩
      · rw [hsame] at hp
        exact .inl ⟨p, hp, hopen, rfl⟩
      · rw [heq] at hp
        rcases mem_append.mp hp with hp | hp
        · exact .inl ⟨p, hp, hopen, rfl⟩
        · rw [mem_singleton.mp hp]
          exact .inr ⟨a, hl, by rw [hq.attempt, ho.attempt]⟩

/-- What stops the process of an attempt and leaves its approvals. -/
def leavesApprovals : Deed → Bool
  | .fenced _ | .revoked => true
  | _ => false

/-- Any other entry closes the approvals of an attempt that no longer executes. -/
theorem Entry.executes {id : Uuid} (h : Entry site c m d)
    (hm : m.any leavesApprovals = false) (ha : c.Executes id a) :
    (∃ b, d.Executes id b) ∨ ∀ p ∈ d.approvals, p.attemptId = id → p.decision ∉ openDecisions := by
  have hsame : ∀ {attempts : List Tenure}, attempts = c.attempts → ∃ b ∈ attempts, b.id = id ∧
      b.active = true ∧ b.process ∈ [.starting, .active] :=
    fun heq => ⟨a, heq ▸ ha.mem, ha.id, ha.active, ha.process⟩
  have hdone : (∃ b ∈ d.attempts, b.id = id ∧ b.active = true ∧
      b.process ∈ [.starting, .active]) → ∃ b, d.Executes id b :=
    fun ⟨b, hb, hid, hactive, hprocess⟩ => ⟨b, hb, hid, hactive, hprocess⟩
  -- An update that leaves the attempt executing, or is not for it.
  have hupdate : ∀ (p : Tenure → Bool) (f : Tenure → Tenure),
      (∀ b, (f b).id = b.id ∧ (f b).active = b.active) →
      (p a = true → (f a).process ∈ [.starting, .active]) →
      ∃ b ∈ updateWhere p f c.attempts, b.id = id ∧ b.active = true ∧
        b.process ∈ [.starting, .active] := by
    intro p f hf hprocess
    by_cases hp : p a = true
    · exact ⟨f a, mem_updateWhere.mpr ⟨a, ha.mem, .inl ⟨hp, rfl⟩⟩, (hf a).1.trans ha.id,
        (hf a).2.trans ha.active, hprocess hp⟩
    · exact ⟨a, mem_updateWhere.mpr ⟨a, ha.mem, .inr ⟨by simpa using hp, rfl⟩⟩, ha.id, ha.active,
        ha.process⟩
  have hcancel : ∀ approvals : List Approval, ∀ p ∈ updateWhere
      (fun p => p.attemptId = id && p.decision ∈ [.pending, .approved])
      (fun p => { p with decision := .cancelled }) approvals, p.attemptId = id →
      p.decision ∉ openDecisions := by
    intro approvals p hp hid
    obtain ⟨q, -, ⟨-, rfl⟩ | ⟨hq, rfl⟩⟩ := mem_updateWhere.mp hp
    · simp [openDecisions]
    · simpa [hid, openDecisions] using hq
  cases h with
  | requested b target reason hb hactive hr | interrupted b reason hb hactive hr =>
    by_cases hid : b.id = id
    · subst hid
      exact .inr (hcancel c.approvals)
    · refine .inl (hdone (hupdate (·.id = b.id) _ (by simp) fun hp => ?_))
      exact absurd ((of_decide_eq_true hp).symm.trans ha.id) hid
  | stopped b reason hb hactive =>
    by_cases hid : b.id = id
    · subst hid
      rw [contain_approvals, ended_approvals]
      exact .inr (hcancel c.approvals)
    · refine .inl ⟨a, ?_, ha.id, ha.active, ha.process⟩
      rw [contain_attempts, ended_attempts]
      refine mem_updateWhere.mpr ⟨a, ha.mem, .inr ⟨?_, rfl⟩⟩
      rw [decide_eq_false_iff_not, ha.id]
      exact fun h => hid h.symm
  | extended b expires hl he =>
    exact .inl (hdone (hupdate _ _ (by simp) fun _ => ha.process))
  | started b hl => exact .inl (hdone (hupdate _ _ (by simp) fun _ => by simp))
  | claimed b hs hidle hr hb =>
    exact .inl ⟨a, mem_append_left _ ha.mem, ha.id, ha.active, ha.process⟩
  | fenced | revoked => simp [leavesApprovals] at hm
  | _ => exact .inl (hdone (hsame rfl))

/-- **Any other entry keeps the open approvals with attempts that execute.** -/
theorem Backed.entry (ho : Orderly c) (hd : Docket site c) (h : Backed c) (he : Entry site c m d)
    (hm : m.any leavesApprovals = false) : Backed d := by
  intro p hp hopen
  have hwas : ∃ a, c.Executes p.attemptId a := by
    rcases he.open ho.operationIds hd.ids hp hopen with ⟨q, hq, hqopen, hid⟩ | ⟨a, hl, hid⟩
    · rw [← hid]
      exact h q hq hqopen
    · exact ⟨a, hl.mem, hid, hl.active, hl.process⟩
  obtain ⟨a, ha⟩ := hwas
  exact (he.executes hm ha).resolve_right fun hnone => hnone p hp rfl hopen

theorem Backed.entries {l : List Deed} (ho : Orderly c) (hd : Docket site c) (h : Backed c)
    (he : Entries site c l d) (hl : l.any leavesApprovals = false) : Backed d := by
  have key : Docket site d ∧ Backed d := by
    induction he with
    | refl => exact ⟨hd, h⟩
    | @tail _ _ l m hrest he ih =>
      rw [any_append, or_eq_false_iff] at hl
      obtain ⟨hd', hb⟩ := ih hl.1
      have hm : m.any leavesApprovals = false := by
        cases m with
        | none => rfl
        | some deed => simpa using hl.2
      exact ⟨hd'.entry (ho.entries hrest) he, hb.entry (ho.entries hrest) hd' he hm⟩
  exact key.2

/-- Nothing executes. -/
def Still (c : Ledger) : Prop :=
  ∀ a ∈ c.attempts, a.active = true → a.process ∉ [.starting, .active]

/-- Only a claim starts something new. -/
theorem Still.entry (h : Still c) (he : Entry site c m d) (hm : ∀ id, m ≠ some (.claimed id)) :
    Still d := by
  have hupdate : ∀ (p : Tenure → Bool) (f : Tenure → Tenure),
      (∀ a ∈ c.attempts, p a = true → (f a).active = true → a.active = true ∧
        ((f a).process = a.process ∨ (f a).process ∉ [.starting, .active])) →
      ∀ a ∈ updateWhere p f c.attempts, a.active = true → a.process ∉ [.starting, .active] := by
    intro p f hf
    refine forall_updateWhere h fun a ha hp hstill hactive => ?_
    obtain ⟨hwas, hsame | hout⟩ := hf a ha hp hactive
    · rw [hsame]
      exact hstill hwas
    · exact hout
  have hleased : ∀ {a : Tenure}, c.Leased a → False :=
    fun hl => h _ hl.mem hl.active hl.process
  cases he with
  | claimed a hs hidle hr ha => exact absurd rfl (hm a.id)
  | requested | interrupted =>
    exact hupdate _ _ fun a _ _ hactive => ⟨hactive, .inr (by simp)⟩
  | fenced => exact hupdate _ _ fun a _ _ hactive => ⟨hactive, .inr (by simp)⟩
  | revoked now hr =>
    unfold revoke
    split
    · exact hupdate _ _ fun a _ _ hactive => ⟨hactive, .inr (by simp)⟩
    · exact h
  | stopped a reason ha hactive =>
    unfold Still
    rw [contain_attempts, ended_attempts]
    exact hupdate _ _ fun a _ _ hactive => absurd hactive (by simp)
  | extended a expires hl he | started a hl => exact (hleased hl).elim
  | _ => exact h

/-- A fence and a revocation leave nothing that executes. -/
theorem Entry.still (ho : Orderly c) (h : Entry site c m d) (hm : m.any leavesApprovals = true) :
    Still d := by
  cases h with
  | fenced a ha hactive hp hr hs =>
    intro b hb hactive'
    obtain ⟨x, hx, ⟨-, rfl⟩ | ⟨hne, rfl⟩⟩ := mem_updateWhere.mp hb
    · simp
    · rw [ho.crew.eq_of_active hx ha hactive' hactive] at hne
      simp at hne
  | revoked now hr =>
    unfold revoke
    split
    · intro b hb hactive'
      obtain ⟨x, hx, ⟨-, rfl⟩ | ⟨hne, rfl⟩⟩ := mem_updateWhere.mp hb
      · simp
      · rw [hactive'] at hne
        cases hne
    · next hnone =>
      intro b hb hactive'
      exact absurd (any_eq_true.mpr ⟨b, hb, hactive'⟩) hnone
  | _ => simp [leavesApprovals] at hm

theorem still_of_entries {l : List Deed} (ho : Orderly c) (h : Entries site c l d)
    (hl : l.any leavesApprovals = true) (hc : ∀ id, .claimed id ∉ l) : Still d := by
  induction h with
  | refl => simp at hl
  | @tail _ _ l m hrest he ih =>
    rw [any_append, or_eq_true] at hl
    rcases hl with hl | hm
    · have hstill := ih hl fun id hid => hc id (mem_append_left _ hid)
      refine hstill.entry he fun id hid => hc id ?_
      rw [hid]
      simp
    · refine he.still (ho.entries hrest) ?_
      cases m with
      | none => cases hm
      | some deed => simpa using hm

end Ledger

open Interleaving Ledger

variable {site : Site} {new : NewJob} {world : World} {now : Time} {moves : List (Move Call Unit)}
  {s s' : Store}

/-! ## Approvals over a run -/

/-- The attempt is active and its process is up. -/
def AtWork (s : Store) (id : Uuid) : Prop :=
  ∃ a ∈ s.attempts, a.id = id ∧ a.active = true ∧ a.processState ∈ [.starting, .active]

theorem atWork_iff {id : Uuid} : AtWork s id ↔ ∃ a, (ledger s).Executes id a := by
  constructor
  · rintro ⟨a, ha, hid, hactive, hprocess⟩
    exact ⟨a.tenure, mem_ledger ha, hid, hactive, hprocess⟩
  · rintro ⟨t, ht, hid, hactive, hprocess⟩
    obtain ⟨a, ha, rfl⟩ := mem_map.mp ht
    exact ⟨a, ha, hid, hactive, hprocess⟩

/-- No live approval outlives its attempt's execution. -/
def NoneOutlived (s : Store) : Prop :=
  ∀ p ∈ s.approvals, p.decision ∈ openDecisions → AtWork s p.attemptId

theorem noneOutlived_iff : NoneOutlived s ↔ Backed (ledger s) :=
  forall_congr' fun _ => imp_congr_right fun _ => imp_congr_right fun _ => atWork_iff

/-- The step fences an attempt, or revokes the runner, over an open approval. -/
def strandsApproval (site : Site) (e : Event Store Tag) : Bool :=
  (deedsOf site e).any leavesApprovals &&
    e.pre.approvals.any fun p => p.decision ∈ openDecisions

theorem fence_approvals (s : Store) (a : Attempt) :
    (fencePreparedResult s a).approvals = s.approvals := by
  unfold fencePreparedResult
  split <;> rfl

theorem heartbeatLeases_approvals {identities : List LeaseIdentity} {out : List LeaseControl}
    (h : heartbeatLeases identities s = .ok (out, s')) : s'.approvals = s.approvals := by
  induction identities generalizing s out with
  | nil =>
    simp only [heartbeatLeases, pure_eq_ok, Prod.mk.injEq] at h
    rw [← h.2]
  | cons identity rest ih =>
    simp only [heartbeatLeases, bind_eq_ok, pure_eq_ok, Prod.mk.injEq] at h
    obtain ⟨⟨first, s₁⟩, hfirst, ⟨others, s₂⟩, hrest, -, rfl⟩ := h
    rw [ih hrest]
    obtain ⟨a, -, hfirst⟩ := heartbeatLease_ok hfirst
    split at hfirst
    · rw [hfirst.2]
      exact fence_approvals s a
    · rw [hfirst]

theorem controls_approvals {out : List LeaseControl} {id : Uuid} (h : controls s = .ok (out, s'))
    (hdeed : .fenced id ∈ deeds .controls s) : s'.approvals = s.approvals := by
  simp only [controls, agentTransaction_eq_ok, bind_eq_ok, pure_eq_ok, Prod.mk.injEq] at h
  obtain ⟨-, -, -, s₁, hcontrol, -, rfl⟩ := h
  rw [deeds] at hdeed
  cases ha : s.activeAttempt with
  | none => simp [ha] at hdeed
  | some a =>
    simp only [ha, Option.elim_some, controlDeeds, controlAttempt] at hdeed hcontrol
    split at hdeed
    · next hprocess =>
      rw [if_pos hprocess] at hcontrol
      split at hdeed
      · next hexecution =>
        rw [hexecution] at hcontrol
        cases hcontrol
        exact fence_approvals s a
      · simp at hdeed
    · simp at hdeed

theorem revokeRunner_approvals (s : Store) : (revokeRunner s).approvals = s.approvals := by
  unfold revokeRunner
  split
  · rfl
  · dsimp only
    split <;> rfl

/-- A step that fences or revokes writes no approval. -/
theorem approvals_of_leaves {e : Event Store Tag} (he : e ∈ history site new world now moves)
    (h : (deedsOf site e).any leavesApprovals = true) :
    e.post.approvals = e.pre.approvals ∧ ∀ id, .claimed id ∉ deedsOf site e := by
  obtain ⟨deed, hdeed, hleaves⟩ := any_eq_true.mp h
  obtain ⟨haccepted, hdone⟩ := accepted_of_deed hdeed
  have hnoClaim : ∀ {t : Transaction}, e.tag.transaction = t →
      (∀ claimKey, t ≠ .claimWork claimKey) → ∀ id, .claimed id ∉ deedsOf site e := by
    intro t ht hne id hid
    obtain ⟨claimKey, hclaim⟩ := (accepted_of_deed hid).2
    exact hne claimKey (ht.symm.trans hclaim)
  cases deed with
  | fenced id =>
    obtain ⟨identities, ht⟩ | ht := hdone
    · refine ⟨?_, hnoClaim ht (fun _ h => by cases h)⟩
      obtain ⟨answer, hrun⟩ := ran_of_history he haccepted ht
      have hrun : heartbeat identities e.pre = .ok (answer, e.post) := hrun
      exact heartbeatLeases_approvals (required_ok hrun)
    · refine ⟨?_, hnoClaim ht (fun _ h => by cases h)⟩
      obtain ⟨answer, hrun⟩ := ran_of_history he haccepted ht
      rw [deedsOf, if_pos haccepted, ht] at hdeed
      exact controls_approvals hrun hdeed
  | revoked =>
    obtain ⟨ht, -⟩ := hdone
    refine ⟨?_, hnoClaim ht (fun _ h => by cases h)⟩
    obtain ⟨answer, hrun⟩ := ran_of_history he haccepted ht
    obtain ⟨-, hpost⟩ := Prod.mk.inj (Except.ok.inj hrun)
    rw [← hpost]
    exact revokeRunner_approvals e.pre
  | _ => cases hleaves

/-- A lost lease leaves no new approval open. -/
theorem loseLeases_open {attempts : List Attempt} (h : attempts.foldlM loseLease s = .ok s')
    {p : Approval} (hp : p ∈ s'.approvals) (hopen : p.decision ∈ openDecisions) :
    p ∈ s.approvals := by
  induction attempts generalizing s with
  | nil =>
    rw [foldlM_nil, pure_eq_ok] at h
    rw [h]
    exact hp
  | cons a attempts ih =>
    rw [foldlM_cons, bind_eq_ok] at h
    obtain ⟨s₁, hlose, hrest⟩ := h
    have hmem : p ∈ (ledger s₁).approvals := ih hrest
    rw [ledger_loseLease hlose] at hmem
    obtain ⟨q, hq, ⟨-, rfl⟩ | ⟨-, rfl⟩⟩ := mem_updateWhere.mp hmem
    · simp [openDecisions] at hopen
    · exact hq

/-- What a reconcile pass stops for an expired approval had one. -/
theorem open_of_expired {e : Event Store Tag} {id : Uuid} {target : StopTarget}
    (h : .requested id target "approval_expired" ∈ deedsOf site e) :
    ∃ p ∈ e.pre.approvals, p.decision ∈ openDecisions ∧ p.attemptId = id := by
  unfold deedsOf at h
  split at h
  · obtain ⟨reach, ht⟩ := doneBy_of_mem h rfl
    rw [ht] at h
    rw [deeds, expireDeeds] at h
    split at h
    · simp at h
    · next s₁ hlose =>
      rcases mem_append.mp h with h | h
      · obtain ⟨a, -, ha⟩ := mem_map.mp h
        cases ha
      · obtain ⟨p, hp, hdeed⟩ := mem_flatMap.mp h
        obtain ⟨hmem, hexpired⟩ := mem_filter.mp (mem_of_mem_take hp)
        simp only [approvalExpired, and_eq_true, decide_eq_true_eq] at hexpired
        unfold expiryDeeds at hdeed
        split at hdeed
        · obtain ⟨rfl, -, -⟩ := Deed.requested.inj (mem_singleton.mp hdeed)
          refine ⟨p, ?_, hexpired.1, rfl⟩
          have hbefore := loseLeases_open hlose hmem hexpired.1
          have hqueue : (expireQueue e.pre reach.queued).approvals = e.pre.approvals := by
            unfold expireQueue
            split <;> rfl
          rw [← hqueue]
          exact hbefore
        · simp at hdeed
  · simp at h

/-- **No live approval outlives its attempt's execution**, and no expiry stops anything but an
attempt at work, in a run if and only if no step of it fences an attempt or revokes the
runner over an open approval. -/
theorem noneOutlived_of_history (site : Site) (new : NewJob) (world : World) (now : Time)
    (moves : List (Move Call Unit)) :
    (∀ e ∈ history site new world now moves, NoneOutlived e.post ∧
      ∀ id target, .requested id target "approval_expired" ∈ deedsOf site e → AtWork e.pre id) ↔
      ∀ e ∈ history site new world now moves, strandsApproval site e = false := by
  have hcreated : NoneOutlived (created new world now) := by
    rw [noneOutlived_iff, ledger_created]
    simp [Backed]
  have hpre : (∀ e ∈ history site new world now moves, NoneOutlived e.pre → NoneOutlived e.post) →
      ∀ e ∈ history site new world now moves, NoneOutlived e.pre ∧ NoneOutlived e.post :=
    fun hstep => (inv_of_history hcreated hstep).2
  constructor
  · intro hall e he
    by_contra hstrands
    simp only [strandsApproval, not_eq_false, and_eq_true, any_eq_true,
      decide_eq_true_eq] at hstrands
    obtain ⟨hleaves, p, hp, hopen⟩ := hstrands
    have hleaves : (deedsOf site e).any leavesApprovals = true := any_eq_true.mpr hleaves
    obtain ⟨hsame, hclaim⟩ := approvals_of_leaves he hleaves
    obtain ⟨a, ha, -, hactive, hprocess⟩ := (hall e he).1 p (by rw [hsame]; exact hp) hopen
    exact still_of_entries (ordered_of_history he).pre (entries_of_history he) hleaves hclaim
      a.tenure (mem_ledger ha) hactive hprocess
  · intro hall
    have hboth := hpre fun e he hbacked => by
      rw [noneOutlived_iff] at hbacked ⊢
      have hnone := hall e he
      rw [strandsApproval, and_eq_false_iff] at hnone
      rcases hnone with hkeeps | hnone
      · obtain ⟨past, later, hsplit⟩ := append_of_mem he
        exact hbacked.entries (ordered_of_history he).pre (docket_of_history hsplit).1.1
          (entries_of_history he) hkeeps
      · by_cases hleaves : (deedsOf site e).any leavesApprovals = true
        · -- There is nothing open to leave behind.
          intro p hp hopen
          have hp : p ∈ e.post.approvals := hp
          rw [(approvals_of_leaves he hleaves).1] at hp
          have hclosed := any_eq_false.mp hnone p hp
          simp [hopen] at hclosed
        · obtain ⟨past, later, hsplit⟩ := append_of_mem he
          exact hbacked.entries (ordered_of_history he).pre (docket_of_history hsplit).1.1
            (entries_of_history he) (by simpa using hleaves)
    intro e he
    refine ⟨(hboth e he).2, fun id target hdeed => ?_⟩
    obtain ⟨p, hp, hopen, rfl⟩ := open_of_expired hdeed
    exact (hboth e he).1 p hp hopen

/-! ## A result over an approval -/

/-- A job that manages the team, where each step needs a confirmation. -/
def manageJob : NewJob := { answerJob with jobKind := .manage }

def confirmingWorld : World := { openWorld with needsConfirmation := fun _ => true }

/-- `n` heartbeats of the first attempt, one every 80 seconds, from the `i`-th task on. -/
def heartbeats (i : ℕ) : ℕ → List (Move Call Unit)
  | 0 => []
  | n + 1 => request i (.wait 80) ++ request (i + 1) (.heartbeat [firstLease]) ++
      heartbeats (i + 2) n

/-- A step is proposed and approved.  The attempt prepares its result without it and is
fenced; then the approval expires. -/
def outlivedRun : List (Move Call Unit) :=
  request 0 (.claimWork 7) ++ report 1 1 2 startedBody ++
    request 2 (.proposeOperation firstLease (some 2) ⟨50, .team "rename", none, none⟩) ++
    request 3 (.decideApproval ⟨10, 2, 1, "digest", 3, true⟩) ++ heartbeats 4 11 ++
    report 26 2 4 (.resultPrepared ⟨[], none, "Done."⟩) ++ request 27 .controls ++
    request 28 (.wait 30) ++ .start (.reconcile ⟨10, 10, 10, 10⟩ false) :: rounds 29 1

/-- The approval stays open although its attempt is stopping, and its expiry stops the job
while the result waits for publication. -/
theorem outlived_outlivedRun :
    (¬ ∀ e ∈ history plainSite manageJob confirmingWorld 0 outlivedRun, NoneOutlived e.post) ∧
      ¬ ∀ e ∈ history plainSite manageJob confirmingWorld 0 outlivedRun, ∀ id target,
        .requested id target "approval_expired" ∈ deedsOf plainSite e → AtWork e.pre id := by
  constructor
  · intro hall
    have hstep : ∃ e ∈ history plainSite manageJob confirmingWorld 0 outlivedRun,
        (∃ p ∈ e.post.approvals, p.decision ∈ openDecisions) ∧
          ∀ a ∈ e.post.attempts, a.processState ∉ [.starting, .active] := by
      decide
    obtain ⟨e, he, ⟨p, hp, hopen⟩, hnone⟩ := hstep
    obtain ⟨a, ha, -, -, hprocess⟩ := hall e he p hp hopen
    exact hnone a ha hprocess
  · intro hall
    have hstep : ∃ e ∈ history plainSite manageJob confirmingWorld 0 outlivedRun,
        .requested 1 .blocked "approval_expired" ∈ deedsOf plainSite e ∧
          ∀ a ∈ e.pre.attempts, a.processState ∉ [.starting, .active] := by
      decide
    obtain ⟨e, he, hdeed, hnone⟩ := hstep
    obtain ⟨a, ha, -, -, hprocess⟩ := hall e he 1 .blocked hdeed
    exact hnone a ha hprocess

end GrowTeam.Server
