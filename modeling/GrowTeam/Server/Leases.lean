/-
# Expired leases

A lease is set by the claim and moved by heartbeats, and everything a runner does with it
checks it.  Once the clock has reached it, nothing moves it any more, and what is left to the
attempt is the evidence of its own end.
-/
import GrowTeam.Server.Control

namespace GrowTeam.Server

namespace Ledger

variable {site : Site} {c d : Ledger} {m : Option Deed} {a : Tenure}

/-- The lease of an attempt ran out at `t`. -/
def Expired (id : Uuid) (t : Time) (c : Ledger) : Prop :=
  t ≤ c.clock ∧ ∃ a ∈ c.attempts, a.id = id ∧ a.expires = t

theorem Expired.eq (ho : Orderly c) {id : Uuid} {t : Time} (h : Expired id t c)
    (ha : a ∈ c.attempts) (hid : a.id = id) : a.expires = t := by
  obtain ⟨-, b, hb, hbid, rfl⟩ := h
  rw [ho.roster.eq_of_id ha hb (hid.trans hbid.symm)]

/-- No lease of the attempt is live. -/
theorem Expired.not_leased (ho : Orderly c) {t : Time} (h : Expired a.id t c) : ¬ c.Leased a := by
  intro hl
  have ht := h.eq ho hl.mem rfl
  have hlive := hl.live
  rw [ht] at hlive
  exact absurd hlive (Nat.not_lt.mpr h.1)

/-- **Nothing that is written revives a lease that ran out.** -/
theorem Expired.entry {id : Uuid} {t : Time} (ho : Orderly c) (h : Expired id t c)
    (he : Entry site c m d) : Expired id t d := by
  have hupdate : ∀ (p : Tenure → Bool) (f : Tenure → Tenure),
      (∀ b ∈ c.attempts, p b = true → b.id = id → (f b).id = b.id ∧ (f b).expires = b.expires) →
      ∃ b ∈ updateWhere p f c.attempts, b.id = id ∧ b.expires = t := by
    intro p f hf
    obtain ⟨-, b, hb, hid, ht⟩ := h
    by_cases hp : p b = true
    · have hkeeps := hf b hb hp hid
      exact ⟨f b, mem_updateWhere.mpr ⟨b, hb, .inl ⟨hp, rfl⟩⟩, hkeeps.1.trans hid,
        hkeeps.2.trans ht⟩
    · exact ⟨b, mem_updateWhere.mpr ⟨b, hb, .inr ⟨by simpa using hp, rfl⟩⟩, hid, ht⟩
  cases he with
  | passed n => exact ⟨h.1.trans (Nat.le_add_right _ _), h.2⟩
  | claimed a hs hidle hr ha =>
    obtain ⟨b, hb, hbid⟩ := h.2
    exact ⟨h.1, b, List.mem_append_left _ hb, hbid⟩
  | extended a expires hl he =>
    refine ⟨h.1, hupdate _ _ fun b hb hp hid => ?_⟩
    -- The lease that is extended is a live one.
    have hsame : b = a := ho.roster.eq_of_id hb hl.mem (of_decide_eq_true hp)
    subst hsame
    subst hid
    exact absurd hl (h.not_leased ho)
  | requested | interrupted | fenced | started =>
    exact ⟨h.1, hupdate _ _ fun b _ _ _ => ⟨rfl, rfl⟩⟩
  | stopped a reason ha hactive =>
    constructor
    · rw [contain_clock, ended_clock]
      exact h.1
    · rw [contain_attempts, ended_attempts]
      exact hupdate _ _ fun b _ _ _ => ⟨rfl, rfl⟩
  | revoked now hr =>
    unfold revoke
    split
    · exact ⟨h.1, hupdate _ _ fun b _ _ _ => ⟨rfl, rfl⟩⟩
    · exact h
  | _ => exact h

end Ledger

open Interleaving Ledger Bool

variable {site : Site} {new : NewJob} {world : World} {now : Time} {moves : List (Move Call Unit)}
  {s s' : Store}

/-! ## What needs a lease -/

/-- The attempt whose lease a request needs. -/
def executionOf : Transaction → Option Uuid
  | .deliverInputs lease _ | .saveCheckpoint lease _ _ | .proposeOperation lease _ _
  | .consumeOperation lease _ _ | .beginTeamOperation lease _ _ | .admitUpload lease _
  | .uploadBudget lease | .registerArtifact lease _ => some lease.attemptId
  | .publishDraft data => some data.lease.attemptId
  | _ => none

/-- The event that a request reports. -/
def eventOf : Transaction → Option RunnerEvent
  | .events event _ | .stopEvidence event => some event
  | _ => none

theorem leased_of_run {t : Transaction} {answer : t.Answer} {id : Uuid}
    (h : t.run site s = .ok (answer, s')) (ht : executionOf t = some id) :
    ∃ a : Attempt, a.id = id ∧ (ledger s).Leased a.tenure := by
  have hlocked : ∀ {lease : LeaseIdentity} {version : Option ℕ} {a : Attempt},
      s.lockedAttempt lease version = .ok a → ∃ a : Attempt, a.id = lease.attemptId ∧
        (ledger s).Leased a.tenure :=
    fun hlease => ⟨_, lockedAttempt_id hlease, (leased_of_locked hlease).2⟩
  have hrequired : ∀ {α β : Type} {g : Store → Result β} {lease : LeaseIdentity}
      {version : Option ℕ} {f : Store → Attempt → Result α} {r : α},
      agentTransaction (fun s => do let _ ← g s; let a ← s.lockedAttempt lease version; f s a) s =
        .ok r → ∃ a : Attempt, a.id = lease.attemptId ∧ (ledger s).Leased a.tenure := by
    intro α β g lease version f r h
    obtain ⟨a, hlease, -⟩ := bind_eq_ok.mp (required_ok h)
    exact hlocked hlease
  cases t <;> simp only [executionOf, reduceCtorEq, Option.some.injEq] at ht <;> subst ht
  case deliverInputs | beginTeamOperation | publishDraft =>
    rw [Transaction.run] at h
    exact hrequired h
  case saveCheckpoint | proposeOperation | consumeOperation | admitUpload | registerArtifact =>
    exact hrequired (silent_ok h)
  case uploadBudget lease =>
    simp only [Transaction.run, uploadBudget, agentTransaction_eq_ok, bind_eq_ok] at h
    obtain ⟨-, a, hlease, -⟩ := h
    exact hlocked hlease

/-- A new event needs a lease, unless it is about the end of its attempt. -/
theorem recordEvent_admits {event : RunnerEvent} {version : Option ℕ} {stopOnly : Bool}
    {answer : EventReceipt × Bool} (h : recordEvent event version stopOnly s = .ok (answer, s')) :
    cleanup event.body = true ∨ (recorded s event = true ∧ s' = s) ∨
      ∃ a : Attempt, a.id = event.attemptId ∧ (ledger s).Leased a.tenure := by
  obtain ⟨-, a, hmem, hid, hsame | ⟨-, hadmit, -⟩⟩ := recordEvent_ok h
  · exact .inr (.inl hsame)
  · by_cases hcleanup : cleanup event.body = true
    · exact .inl hcleanup
    · obtain ⟨-, -, hl⟩ := admitted_of_ok hmem hadmit
      exact .inr (.inr ⟨a, hid, hl (by simpa using hcleanup)⟩)

theorem event_of_run {t : Transaction} {answer : t.Answer} {event : RunnerEvent}
    (h : t.run site s = .ok (answer, s')) (ht : eventOf t = some event) :
    cleanup event.body = true ∨ (recorded s event = true ∧ s' = s) ∨
      ∃ a : Attempt, a.id = event.attemptId ∧ (ledger s).Leased a.tenure := by
  cases t <;> simp only [eventOf, reduceCtorEq, Option.some.injEq] at ht <;> subst ht
  case events event version =>
    have h : events event version s = .ok (answer, s') := h
    exact recordEvent_admits (required_ok h)
  case stopEvidence event =>
    have h : stopEvidence event s = .ok (answer, s') := h
    have hstop := (stopEvidence_ok h).1
    left
    revert hstop
    cases event.body <;> simp [isStop, cleanup]

/-! ## What a heartbeat sets -/

/-- The attempts whose lease a heartbeat moves. -/
def renews (s : Store) (a : Attempt) : Prop :=
  a.active = true ∧ a.processState ∈ [.starting, .active] ∧ s.job.status ∈ executing

/-- The end of an attempt's time budget. -/
def Attempt.limit (a : Attempt) : Time := a.createdAt + a.descriptor.activeSeconds

theorem heartbeatLease_limit {identity : LeaseIdentity} {out : List LeaseControl}
    (ho : Orderly (ledger s)) (h : heartbeatLease s identity = .ok (out, s')) :
    ∀ b ∈ s'.attempts, b.leaseExpiresAt ≤ b.limit ∨
      b ∈ s.attempts ∧ (b.id = identity.attemptId → ¬ renews s b) := by
  obtain ⟨a, hlease, h⟩ := heartbeatLease_ok h
  have hmem := lockedLease_ok hlease
  have hid := lockedLease_id hlease
  have hone : ∀ b ∈ s.attempts, b.id = a.id → b = a := fun b hb => eq_of_key ho.attemptIds hb hmem
  split at h
  · obtain ⟨hexec, rfl⟩ := h
    have hfence : (fencePreparedResult s a).attempts = s.attempts ∨
        (fencePreparedResult s a).attempts = updateWhere (·.id = a.id)
          (fun b => { b with processState := .stopping }) s.attempts := by
      unfold fencePreparedResult
      split
      · exact .inl rfl
      · exact .inr rfl
    intro b hb
    obtain ⟨x, hx, ⟨hxid, rfl⟩ | ⟨hne, rfl⟩⟩ := mem_updateWhere.mp hb
    · -- The row of the attempt, which the fence may have written first.
      have hlimit : x.limit = a.limit := by
        rcases hfence with heq | heq
        · rw [heq] at hx
          rw [hone x hx (of_decide_eq_true hxid)]
        · rw [heq] at hx
          obtain ⟨y, hy, ⟨hyid, rfl⟩ | ⟨-, rfl⟩⟩ := mem_updateWhere.mp hx
          · rw [hone y hy (of_decide_eq_true hyid)]
            rfl
          · rw [hone x hy (of_decide_eq_true hxid)]
      left
      show min (s.clock + 90) a.limit ≤ x.limit
      rw [hlimit]
      exact min_le_right _ _
    · rw [decide_eq_false_iff_not] at hne
      refine .inr ⟨?_, fun hbid => absurd (hbid.trans hid.symm) hne⟩
      rcases hfence with heq | heq
      · rwa [heq] at hx
      · rw [heq] at hx
        obtain ⟨y, hy, ⟨hyid, rfl⟩ | ⟨-, rfl⟩⟩ := mem_updateWhere.mp hx
        · exact absurd (of_decide_eq_true hyid) hne
        · exact hy
  · next hnot =>
    subst h
    refine fun b hb => .inr ⟨hb, fun hbid hrenews => ?_⟩
    rw [hone b hb (hbid.trans hid.symm)] at hrenews
    exact hnot hrenews

/-- **A heartbeat sets no lease past the budget of its attempt**, and moves no other one. -/
theorem heartbeatLeases_limit {identities : List LeaseIdentity} {out : List LeaseControl}
    (ho : Orderly (ledger s)) (h : heartbeatLeases identities s = .ok (out, s')) :
    ∀ b ∈ s'.attempts, b.leaseExpiresAt ≤ b.limit ∨
      b ∈ s.attempts ∧ ∀ identity ∈ identities, b.id = identity.attemptId → ¬ renews s b := by
  induction identities generalizing s out with
  | nil =>
    obtain ⟨-, rfl⟩ := h
    exact fun b hb => .inr ⟨hb, by simp⟩
  | cons identity rest ih =>
    simp only [heartbeatLeases, bind_eq_ok, pure_eq_ok, Prod.mk.injEq] at h
    obtain ⟨⟨first, s₁⟩, hfirst, ⟨others, s₂⟩, hrest, -, rfl⟩ := h
    have hentries : Entries plainSite _ _ _ := heartbeatLease_entries hfirst
    intro b hb
    rcases ih (ho.entries hentries) hrest b hb with hlimit | ⟨hb, hothers⟩
    · exact .inl hlimit
    rcases heartbeatLease_limit ho hfirst b hb with hlimit | ⟨hb, hone⟩
    · exact .inl hlimit
    refine .inr ⟨hb, fun lease hlease hid hrenews => ?_⟩
    rcases List.mem_cons.mp hlease with rfl | hlease
    · exact hone hid hrenews
    · refine hothers lease hlease hid ⟨hrenews.1, hrenews.2.1, ?_⟩
      rw [(heartbeatLease_beaten hfirst).status]
      exact hrenews.2.2

/-! ## Leases over a run -/

/-- What an attempt whose lease ran out can still have accepted: the evidence of its end, and
the receipt of what was recorded before. -/
structure Unrevived (site : Site) (e : Event Store Tag) (id : Uuid) : Prop where
  execution : executionOf e.tag.transaction ≠ some id
  event : ∀ event, eventOf e.tag.transaction = some event → event.attemptId = id →
    cleanup event.body = true ∨ recorded e.pre event = true ∧ e.post = e.pre

/-- **A lease that ran out stays as it is, and nothing but the end of its attempt is recorded
any more**; no heartbeat sets a lease past the budget of its attempt. -/
theorem unrevived_of_history (site : Site) (new : NewJob) (world : World) (now : Time)
    (moves : List (Move Call Unit)) :
    (∀ past mid later e f, history site new world now moves = past ++ e :: (mid ++ f :: later) →
      ∀ a ∈ e.post.attempts, a.leaseExpiresAt ≤ e.post.clock →
        (∀ b ∈ f.post.attempts, b.id = a.id → b.leaseExpiresAt = a.leaseExpiresAt) ∧
          (accepted site f = true → Unrevived site f a.id)) ∧
      ∀ e ∈ history site new world now moves, ∀ identities,
        e.tag.transaction = .heartbeat identities → accepted site e = true →
          ∀ b ∈ e.post.attempts, b.leaseExpiresAt ≤ b.limit ∨ b ∈ e.pre.attempts ∧
            ∀ identity ∈ identities, b.id = identity.attemptId → ¬ renews e.pre b := by
  constructor
  · intro past mid later e f h a ha hexpired
    have hf : f ∈ history site new world now moves := by
      rw [h]
      simp
    have hordered := ordered_of_history hf
    obtain ⟨hpre, hpost⟩ := stays_of_history (J := Expired a.id a.leaseExpiresAt)
      (fun _ _ _ ho he h => h.entry ho he) h ⟨hexpired, a.tenure, mem_ledger ha, rfl, rfl⟩
    refine ⟨fun b hb hid => ?_, fun haccepted => ?_⟩
    · exact hpost.eq (hordered.pre.entries (entries_of_history hf)) (mem_ledger hb) hid
    have hdead : ∀ b : Attempt, b.id = a.id → ¬ (ledger f.pre).Leased b.tenure := by
      intro b hid hl
      rw [← hid] at hpre
      exact Expired.not_leased (a := b.tenure) hordered.pre hpre hl
    obtain ⟨answer, hrun⟩ := run_of_history hf haccepted
    refine ⟨fun ht => ?_, fun event ht hid => ?_⟩
    · obtain ⟨b, hbid, hl⟩ := leased_of_run hrun ht
      exact hdead b hbid hl
    · rcases event_of_run hrun ht with hcleanup | hreplay | ⟨b, hbid, hl⟩
      · exact .inl hcleanup
      · exact .inr hreplay
      · exact absurd hl (hdead b (hbid.trans hid))
  · intro e he identities ht haccepted
    obtain ⟨answer, hrun⟩ := ran_of_history he haccepted ht
    have hrun : heartbeat identities e.pre = .ok (answer, e.post) := hrun
    exact heartbeatLeases_limit (ordered_of_history he).pre (required_ok hrun)

/-! ## What is still answered -/

/-- The lease of a started attempt runs out.  Its start is reported again, and then that it was
interrupted. -/
def expiredRun : List (Move Call Unit) :=
  request 0 (.claimWork 7) ++ report 1 1 2 startedBody ++ request 2 (.wait 90) ++
    report 3 1 2 startedBody ++ report 4 2 2 (.attemptInterrupted ⟨none, false, ""⟩)

/-- A start is answered although it is no evidence of the attempt's end, and an interruption is
recorded although it confirms no stop. -/
theorem answered_expiredRun :
    (¬ ∀ past mid later e f, history plainSite answerJob openWorld 0 expiredRun =
        past ++ e :: (mid ++ f :: later) →
      ∀ a ∈ e.post.attempts, a.leaseExpiresAt ≤ e.post.clock → accepted plainSite f = true →
        ∀ event, eventOf f.tag.transaction = some event → event.attemptId = a.id →
          cleanup event.body = true) ∧
      ¬ ∀ past mid later e f, history plainSite answerJob openWorld 0 expiredRun =
          past ++ e :: (mid ++ f :: later) →
        ∀ a ∈ e.post.attempts, a.leaseExpiresAt ≤ e.post.clock → accepted plainSite f = true →
          ∀ event, eventOf f.tag.transaction = some event → event.attemptId = a.id →
            isStop event.body = true ∨ recorded f.pre event = true := by
  constructor
  · intro hall
    have hsplit : ∃ past e mid f later, history plainSite answerJob openWorld 0 expiredRun =
        past ++ e :: (mid ++ f :: later) ∧
        ((∃ a ∈ e.post.attempts, a.leaseExpiresAt ≤ e.post.clock ∧ a.id = 1) ∧
          accepted plainSite f = true ∧ (eventOf f.tag.transaction).any
            (fun event => event.attemptId = 1 && !cleanup event.body) = true) := by
      refine exists_split ?_
      decide
    obtain ⟨past, e, mid, f, later, h, ⟨a, ha, hexpired, hid⟩, haccepted, hevent⟩ := hsplit
    obtain ⟨event, ht, hevent⟩ := (Option.any_eq_true _ _).mp hevent
    simp only [and_eq_true, decide_eq_true_eq, not_eq_true'] at hevent
    have hcleanup := hall past mid later e f h a ha hexpired haccepted event ht
      (hevent.1.trans hid.symm)
    rw [hevent.2] at hcleanup
    cases hcleanup
  · intro hall
    have hsplit : ∃ past e mid f later, history plainSite answerJob openWorld 0 expiredRun =
        past ++ e :: (mid ++ f :: later) ∧
        ((∃ a ∈ e.post.attempts, a.leaseExpiresAt ≤ e.post.clock ∧ a.id = 1) ∧
          accepted plainSite f = true ∧ (eventOf f.tag.transaction).any
            (fun event => event.attemptId = 1 && !isStop event.body && !recorded f.pre event) =
              true) := by
      refine exists_split ?_
      decide
    obtain ⟨past, e, mid, f, later, h, ⟨a, ha, hexpired, hid⟩, haccepted, hevent⟩ := hsplit
    obtain ⟨event, ht, hevent⟩ := (Option.any_eq_true _ _).mp hevent
    simp only [and_eq_true, decide_eq_true_eq, not_eq_true'] at hevent
    rcases hall past mid later e f h a ha hexpired haccepted event ht
      (hevent.1.1.trans hid.symm) with hstop | hrecorded
    · rw [hevent.1.2] at hstop
      cases hstop
    · rw [hevent.2] at hrecorded
      cases hrecorded

end GrowTeam.Server
