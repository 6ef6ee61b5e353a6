/-
# Approvals are used once, for what they were given for

Over every run: an operation starts at most once, an approval is consumed at most once, and
only by the start of its own operation, while it is approved, unexpired and bound to what
is started; what leaves the server never starts without one and only succeeds with its own
receipt.
-/
import GrowTeam.Server.Docket

namespace GrowTeam.Server

open Interleaving Ledger List Bool

variable {site : Site} {new : NewJob} {world : World} {now : Time} {moves : List (Move Call Unit)}

/-! ## Starts -/

/-- The operation starts in this step. -/
def starts (id : Uuid) (e : Event Store Tag) : Bool :=
  e.post.operations.any (fun o => o.operationId = id && o.status = .started) &&
    !e.pre.operations.any fun o => o.operationId = id && o.status = .started

/-- The approval is consumed in this step. -/
def consumes (id : Uuid) (e : Event Store Tag) : Bool :=
  e.post.approvals.any (fun p => p.id = id && p.decision = .consumed) &&
    !e.pre.approvals.any fun p => p.id = id && p.decision = .consumed

/-- An operation whose status is none of these. -/
def Past (statuses : List OperationState) (id : Uuid) (c : Ledger) : Prop :=
  ∃ o ∈ c.operations, o.operationId = id ∧ o.status ∉ statuses

variable {l : List Deed} {c d : Ledger} {id : Uuid}

theorem past_entries {statuses : List OperationState}
    (hs : statuses = [.proposed, .authorized] ∨ statuses = [.proposed, .authorized, .started])
    (ho : Orderly c) (h : Entries site c l d) (hp : Past statuses id c) : Past statuses id d := by
  induction h with
  | refl => exact hp
  | tail hrest he ih =>
    obtain ⟨o, hmem, hid, hstatus⟩ := ih
    rcases he.operations (ho.entries hrest).operationIds with ⟨f, hf, heq⟩ | ⟨a, o', -, -, heq, -⟩
    · have hk := hf o hmem
      refine ⟨f o, by rw [heq]; exact mem_map_of_mem hmem, hk.id.trans hid, ?_⟩
      rcases hs with rfl | rfl
      · exact hk.begun hstatus
      · intro hf'
        have hbegun := hk.begun
        have hstarted := hk.started
        revert hstatus hf' hbegun hstarted
        cases o.status <;> cases (f o).status <;> simp
    · exact ⟨o, by rw [heq]; exact mem_append_left _ hmem, hid, hstatus⟩

/-- A consumption leaves its mark. -/
theorem consumed_of_entries (ho : Orderly c) (hd : Docket site c) (h : Entries site c l d) :
    ∀ p' ∈ d.approvals, p'.decision = .consumed →
      (∃ p ∈ c.approvals, p.id = p'.id ∧ p.decision = .consumed) ∨
        ∃ o, .consumed p'.id o ∈ l := by
  have key : Docket site d ∧ ∀ p' ∈ d.approvals, p'.decision = .consumed →
      (∃ p ∈ c.approvals, p.id = p'.id ∧ p.decision = .consumed) ∨
        ∃ o, .consumed p'.id o ∈ l := by
    induction h with
    | refl => exact ⟨hd, fun p' hp' hc => .inl ⟨p', hp', rfl, hc⟩⟩
    | tail hrest he ih =>
      obtain ⟨hd, ih⟩ := ih
      refine ⟨hd.entry (ho.entries hrest) he, fun p' hp' hc => ?_⟩
      rcases he.approvals hd.ids with ⟨f, hf, heq⟩ | ⟨a, o, q, -, hq, -, -, heq⟩
      · rw [heq] at hp'
        obtain ⟨p, hp, rfl⟩ := mem_map.mp hp'
        have hb := hf p hp
        rcases hb.consumed hc with hsame | ⟨-, -, o, rfl⟩
        · rw [hsame] at hc ⊢
          rcases ih p hp hc with hfound | ⟨o, ho⟩
          · exact .inl hfound
          · exact .inr ⟨o, mem_append_left _ ho⟩
        · exact .inr ⟨o, mem_append_right _ (by simp [hb.id])⟩
      · rw [heq] at hp'
        rcases mem_append.mp hp' with hp' | hp'
        · rcases ih p' hp' hc with hfound | ⟨o, ho⟩
          · exact .inl hfound
          · exact .inr ⟨o, mem_append_left _ ho⟩
        · rw [mem_singleton.mp hp', hq.pending] at hc
          cases hc
  exact key.2

theorem starts_once (id : Uuid) :
    ((history site new world now moves).filter (starts id)).length ≤ 1 := by
  refine Machine.trace_once (M := machine site) (D := fun s => Past [.proposed, .authorized] id (ledger s)) _ moves
    (fun _ h => h) (fun e he h => ?_) fun e he hstart => ?_
  · exact past_entries (.inl rfl) (ordered_of_history he).pre (entries_of_history he) h
  · have ho := (ordered_of_history he).pre
    have hentries := entries_of_history he
    simp only [starts, and_eq_true, any_eq_true, not_eq_true', any_eq_false] at hstart
    obtain ⟨⟨o', ho', hid', hstarted⟩, hnone⟩ := hstart
    simp only [decide_eq_true_eq] at hid' hstarted
    refine ⟨?_, o', ho', hid', by simp [hstarted]⟩
    rintro ⟨o, hmem, hid, hstatus⟩
    -- What began and is not running is past starting.
    have hover : Past [.proposed, .authorized, .started] id (ledger e.pre) := by
      refine ⟨o, hmem, hid, ?_⟩
      have hne : o.status ≠ .started := by
        intro hs
        exact hnone o hmem (by simp [hid, hs])
      revert hstatus hne
      cases o.status <;> simp
    obtain ⟨x, hx, hxid, hxs⟩ := past_entries (.inr rfl) ho hentries hover
    have hsame : x = o' :=
      eq_of_key (ordered_of_history he).post.operationIds hx ho' (hxid.trans hid'.symm)
    rw [hsame, hstarted] at hxs
    simp at hxs

theorem consumes_once (id : Uuid) :
    ((history site new world now moves).filter (consumes id)).length ≤ 1 := by
  refine Machine.trace_once (M := machine site)
    (D := fun s => ∃ p ∈ s.approvals, p.id = id ∧ p.decision = .consumed) _ moves
    (fun _ h => h) (fun e he h => ?_) fun e he hc => ?_
  · exact approval_of_history
      (fun hb hq => ⟨hb.id.trans hq.1, (congrArg _ (hb.final hq.2)).trans hq.2⟩) he h
  · simp only [consumes, and_eq_true, any_eq_true, not_eq_true',
      any_eq_false, decide_eq_true_eq] at hc
    obtain ⟨hfound, hnone⟩ := hc
    refine ⟨?_, hfound⟩
    rintro ⟨p, hp, hid, hd⟩
    exact hnone p hp ⟨hid, hd⟩

/-! ## Consumption -/

/-- What an approval is consumed for: its own operation, as it was approved, for the attempt
that holds the lease. -/
structure Consumed (s : Store) (request : Consumption) (a : Attempt) (o : Operation)
    (p : Approval) (approver : ℕ) : Prop where
  attempt : a ∈ s.attempts ∧ o.attemptId = a.id
  operation : o ∈ s.operations ∧ o.operationId = request.operationId ∧ o.status = .proposed
  approval : p ∈ s.approvals ∧ p.operationId = o.operationId
  approved : p.decision = .approved ∧ p.approver = some approver
  access : s.checkAttemptAccess approver a (.perform o.toolClass) = .ok ()
  unexpired : s.clock < p.expiresAt
  hash : p.operationHash = o.argumentDigest ∧ request.operationHash = o.argumentDigest
  tree : p.treeHash = a.treeHash ∧ p.treeHash = o.scopeBinding.treeHash.getD ""
  nonce : request.nonce = some p.nonce

/-- A start with an approval. -/
theorem consumed_of_start {s s' : Store} {lease : LeaseIdentity} {version : Option ℕ}
    {request : Consumption} {i j : Uuid} (hd : Docket site (ledger s))
    (ho : (s.operations.map (·.operationId)).Nodup)
    (h : startOperation lease version request s = .ok s')
    (hdeed : .consumed i j ∈ startDeeds s lease request) :
    ∃ a o p approver, p.id = i ∧ Consumed s request a o p approver := by
  simp only [startOperation, bind_eq_ok, one_eq_ok, ensure_eq_ok, pure_eq_ok] at h
  obtain ⟨a, hlock, o, hfind, -, ⟨-, hhash, hstatus⟩, -, -, -, -, -, -, s₁, hconsume, -⟩ := h
  have hfound := find?_some hfind
  simp only [and_eq_true, decide_eq_true_eq] at hfound
  have hmem : o ∈ s.operations := mem_of_find?_eq_some hfind
  rw [lockedAttempt_id hlock] at hfind
  simp only [startDeeds, hfind] at hdeed
  split at hdeed
  · next hproposed =>
    rw [consumeApproval, if_pos hproposed] at hconsume
    simp only [bind_eq_ok, pure_eq_ok, usableApproval, present_eq_ok, ensure_eq_ok] at hconsume
    obtain ⟨p, ⟨p', hp, -, ⟨hexpires, hnonce⟩, approver, happrover, _, haccess, -,
      ⟨hphash, htree⟩, rfl⟩, -⟩ := hconsume
    rw [hp] at hdeed
    obtain ⟨rfl, -⟩ := Deed.consumed.inj (mem_singleton.mp hdeed)
    have hpp := find?_some hp
    simp only [and_eq_true, decide_eq_true_eq] at hpp
    have hpmem : p' ∈ s.approvals := mem_of_find?_eq_some hp
    refine ⟨a, o, p', approver, rfl, ⟨(leased_of_locked hlock).1, hfound.2⟩,
      ⟨hmem, hfound.1, hproposed⟩, ⟨hpmem, hpp.1⟩, ⟨hpp.2, happrover⟩, haccess, hexpires,
      ⟨hphash.trans hhash.symm, hhash.symm⟩, ⟨htree, ?_⟩, hnonce.symm⟩
    obtain ⟨x, hx, hid, -, -, hscope⟩ := hd.bound p' hpmem
    have hsame : x = o := eq_of_key ho hx hmem (hid.trans hpp.1)
    rw [← hscope, hsame]
  · simp at hdeed

/-- A step that consumes an approval starts its operation with it. -/
theorem consumed_of_consumes {e : Event Store Tag}
    (he : e ∈ history site new world now moves) (hd : Docket site (ledger e.pre))
    (hc : consumes id e = true) :
    ∃ lease request, ((∃ version, e.tag.transaction = .consumeOperation lease version request) ∨
      ∃ version, e.tag.transaction = .beginTeamOperation lease version request) ∧
      ∃ a o p approver, p.id = id ∧ Consumed e.pre request a o p approver := by
  have ho := (ordered_of_history he).pre
  simp only [consumes, and_eq_true, any_eq_true, not_eq_true', any_eq_false,
    decide_eq_true_eq] at hc
  obtain ⟨⟨p', hp', hid, hdecision⟩, hnone⟩ := hc
  have hmark : ∃ o, .consumed id o ∈ deedsOf site e := by
    rcases consumed_of_entries ho hd (entries_of_history he) p' hp' hdecision with
      ⟨p, hp, hpid, hpd⟩ | hmark
    · exact absurd ⟨hpid.trans hid, hpd⟩ (hnone p hp)
    · rw [hid] at hmark
      exact hmark
  obtain ⟨o, hmark⟩ := hmark
  unfold deedsOf at hmark
  split at hmark
  · next haccepted =>
    obtain ⟨lease, request, ht⟩ := doneBy_of_mem hmark
    refine ⟨lease, request, ht, ?_⟩
    obtain ⟨answer, hrun⟩ := run_of_history he haccepted
    revert hmark hrun answer
    rcases ht with ⟨version, ht⟩ | ⟨version, ht⟩ <;> rw [ht]
    · intro hmark answer hrun
      have hrun := silent_ok hrun
      have hstart := required_ok hrun
      exact consumed_of_start hd ho.operationIds hstart hmark
    · intro hmark answer hrun
      have hrun : beginTeamOperation lease version request e.pre = .ok (answer, e.post) := hrun
      simp only [beginTeamOperation, agentTransaction_eq_ok, bind_eq_ok, one_eq_ok] at hrun
      obtain ⟨-, -, -, a, hlock, operation, hfind, -, -, hrun⟩ := hrun
      rw [deeds, beginDeeds] at hmark
      split at hmark
      · simp at hmark
      · next hreceipt =>
        rw [← lockedAttempt_id hlock, hfind] at hreceipt
        rw [Option.any_some] at hreceipt
        rw [if_neg hreceipt] at hrun
        simp only [bind_eq_ok, pure_eq_ok] at hrun
        obtain ⟨-, -, s₁, hstart, -⟩ := hrun
        exact consumed_of_start hd ho.operationIds hstart hmark
  · simp at hmark

/-- **Approvals are single use and bound to what was approved.** -/
theorem approvals_of_history (site : Site) (new : NewJob) (world : World) (now : Time)
    (moves : List (Move Call Unit)) :
    (∀ id, ((history site new world now moves).filter (starts id)).length ≤ 1) ∧
    (∀ id, ((history site new world now moves).filter (consumes id)).length ≤ 1) ∧
    ∀ past e later, history site new world now moves = past ++ e :: later →
      (∀ id, consumes id e = true → ∃ lease request,
          ((∃ version, e.tag.transaction = .consumeOperation lease version request) ∨
            ∃ version, e.tag.transaction = .beginTeamOperation lease version request) ∧
          ∃ a o p approver, p.id = id ∧ Consumed e.pre request a o p approver ∧
            ∃ f ∈ past, ∃ decision, accepted site f = true ∧
              f.tag.transaction = .decideApproval decision ∧ decision.approved = true ∧
              decision.approvalId = id ∧ decision.actor = approver) ∧
      ∀ s ∈ [e.pre, e.post], ∀ o ∈ s.operations, o.toolClass ∈ [.gitPush, .gitDraftPr] →
        (o.status ≠ .proposed → ∃ p ∈ s.approvals, p.operationId = o.operationId ∧
          p.operationHash = o.argumentDigest ∧ p.decision = .consumed) ∧
        (o.status = .succeeded → ∃ receipt, o.remoteReceipt = some receipt ∧
          matchesOperation site o receipt = true) := by
  refine ⟨starts_once, consumes_once, fun past e later h => ?_⟩
  obtain ⟨⟨hpre, hsigned⟩, hpost, -⟩ := docket_of_history h
  have he : e ∈ history site new world now moves := by
    rw [h]
    simp
  refine ⟨fun id hc => ?_, fun s hs o ho hr => ?_⟩
  · obtain ⟨lease, request, ht, a, o, p, approver, hid, hconsumed⟩ :=
      consumed_of_consumes he hpre hc
    refine ⟨lease, request, ht, a, o, p, approver, hid, hconsumed, ?_⟩
    obtain ⟨actor, hactor, hmark⟩ := hsigned p hconsumed.approval.1
      (by simp [hconsumed.approved.1])
    obtain rfl : approver = actor := by
      rw [hconsumed.approved.2] at hactor
      exact Option.some.inj hactor
    obtain ⟨f, hf, hmark⟩ := mem_flatMap.mp hmark
    unfold deedsOf at hmark
    split at hmark
    · next haccepted =>
      obtain ⟨decision, ht, happroved, hdid, hactor⟩ := doneBy_of_mem hmark
      exact ⟨f, hf, decision, haccepted, ht, happroved, hdid.trans hid, hactor⟩
    · simp at hmark
  · have hd : Docket site (ledger s) ∧ Orderly (ledger s) := by
      rcases mem_cons.mp hs with rfl | hs
      · exact ⟨hpre, (ordered_of_history he).pre⟩
      · rw [mem_singleton.mp hs]
        exact ⟨hpost, (ordered_of_history he).post⟩
    refine ⟨fun hstatus => ?_, hd.1.received o ho hr⟩
    obtain ⟨p, hp, hid, hdecision⟩ := hd.1.remote o ho hr hstatus
    obtain ⟨x, hx, hxid, -, hdigest, -⟩ := hd.1.bound p hp
    have hsame : x = o := eq_of_key hd.2.operationIds hx ho (hxid.trans hid)
    exact ⟨p, hp, hid, by rw [← hdigest, hsame], hdecision⟩

/-! # A team tool runs at most once -/

open Interleaving Ledger

variable {site : Site} {new : NewJob} {world : World} {now : Time} {moves : List (Move Call Unit)}
  {s s' : Store} {lease : LeaseIdentity} {version : ℕ} {request : Consumption}

/-- The tool of the operation is run after this step. -/
def executes (id : Uuid) (e : Event Store Tag) : Bool :=
  match e.tag.transaction with
  | .beginTeamOperation lease version request =>
    request.operationId = id &&
      match beginTeamOperation lease version request e.pre with
      | .ok (begun, _) => begun
      | .error _ => false
  | _ => false

theorem executes_eq_true {id : Uuid} {e : Event Store Tag} (h : executes id e = true) :
    ∃ lease version request s', e.tag.transaction = .beginTeamOperation lease version request ∧
      request.operationId = id ∧ beginTeamOperation lease version request e.pre = .ok (true, s') := by
  unfold executes at h
  split at h
  · next lease version request ht =>
    rw [and_eq_true, decide_eq_true_eq] at h
    obtain ⟨hid, hbegun⟩ := h
    split at hbegun
    · next begun s' hrun =>
      subst hbegun
      exact ⟨lease, version, request, s', ht, hid, hrun⟩
    · cases hbegun
  · cases h

/-- What `beginTeamOperation` found when it answered. -/
theorem found_of_ok {begun : Bool} (h : beginTeamOperation lease version request s = .ok (begun, s')) :
    ∃ o ∈ s.operations, o.operationId = request.operationId ∧
      if begun = true then o.status ∈ [.proposed, .authorized] else o.serverReceipt.isSome = true := by
  simp only [beginTeamOperation, agentTransaction_eq_ok, bind_eq_ok, one_eq_ok] at h
  obtain ⟨-, -, -, a, hlock, o, hfind, -, -, h⟩ := h
  have hp := find?_some hfind
  rw [and_eq_true, decide_eq_true_eq] at hp
  refine ⟨o, mem_of_find?_eq_some hfind, hp.1, ?_⟩
  split at h
  · next hreceipt =>
    rw [pure_eq_ok, Prod.mk.injEq] at h
    rw [← h.1]
    exact hreceipt
  · simp only [bind_eq_ok, pure_eq_ok, Prod.mk.injEq] at h
    obtain ⟨-, -, s₁, hstart, rfl, -⟩ := h
    simp only [startOperation, bind_eq_ok, one_eq_ok, ensure_eq_ok] at hstart
    obtain ⟨b, hlock', x, hfind', -, ⟨-, -, hstatus⟩, -⟩ := hstart
    -- It is the operation that `startOperation` finds again.
    rw [lockedAttempt_id hlock', ← lockedAttempt_id hlock, hfind] at hfind'
    rw [Option.some.inj hfind']
    exact hstatus

/-- An operation that was begun is not run. -/
theorem not_begun_again (hb : Begun (ledger s) request.operationId) :
    beginTeamOperation lease version request s ≠ .ok (true, s') := by
  intro h
  obtain ⟨o, ho, hid, hstatus⟩ := found_of_ok h
  exact (hb.begun o ho hid).2 hstatus

/-- The answer to an execution request that comes after the tool was run. -/
structure Reported (s : Store) (lease : LeaseIdentity) (version : ℕ) (request : Consumption) :
    Prop where
  /-- The tool is not run again. -/
  never : ∀ s', beginTeamOperation lease version request s ≠ .ok (true, s')
  /-- As long as no receipt is stored the request fails. -/
  failed : (∀ o ∈ s.operations, o.operationId = request.operationId → o.serverReceipt = none) →
    ∃ fault, beginTeamOperation lease version request s = .error fault
  /-- While the operation is started it fails with `OutcomeUnknownError`, once the lease and the
  operation are found. -/
  unknown : ∀ attempt o, s.world.locked = false → s.requireRunner = .ok () →
    s.lockedAttempt lease (some version) = .ok attempt →
    one s.operations (fun o => o.operationId = request.operationId && o.attemptId = attempt.id) =
      .ok o →
    o.serverReceipt = none → o.status = .started →
      beginTeamOperation lease version request s = .error (.value "")

theorem reported_of_begun (hb : Begun (ledger s) request.operationId) :
    Reported s lease version request := by
  refine ⟨fun s' => not_begun_again hb, fun hnone => ?_, ?_⟩
  · cases h : beginTeamOperation lease version request s with
    | error fault => exact ⟨fault, rfl⟩
    | ok r =>
      obtain ⟨begun, s'⟩ := r
      cases begun with
      | true => exact absurd h (not_begun_again hb)
      | false =>
        obtain ⟨o, ho, hid, hreceipt⟩ := found_of_ok h
        rw [hnone o ho hid] at hreceipt
        cases hreceipt
  · intro attempt o hlocked hrunner hlock hfind hnone hstarted
    have hmem := one_eq_ok.mp hfind
    have hp := find?_some hmem
    rw [and_eq_true, decide_eq_true_eq] at hp
    have hclass := (hb.begun o (mem_of_find?_eq_some hmem) hp.1).1
    rw [beginTeamOperation, agentTransaction, if_neg (by simp [hlocked]), hrunner]
    show (s.lockedAttempt lease (some version) >>= _) = _
    rw [hlock]
    show (one s.operations _ >>= _) = _
    rw [hfind]
    show (ensure (o.toolClass = .teamManage) _ >>= _) = _
    rw [ensure, if_pos hclass]
    show (if o.serverReceipt.isSome = true then _ else _) = _
    rw [if_neg (by simp [hnone])]
    show (ensure (o.status ≠ .started) "" >>= _) = _
    rw [ensure, if_neg (by simp [hstarted])]
    rfl

/-- **A team tool runs at most once.**  For every schedule of execution requests, among all
other requests and crashes: the tool of an operation is run after one step at most, and every
later request for it is reported. -/
theorem team_tools_once (site : Site) (new : NewJob) (world : World) (now : Time)
    (moves : List (Move Call Unit)) :
    (∀ id, ((history site new world now moves).filter (executes id)).length ≤ 1) ∧
    ∀ past c mid f later, history site new world now moves = past ++ c :: (mid ++ f :: later) →
      ∀ lease version request, executes request.operationId c = true →
        f.tag.transaction = .beginTeamOperation lease version request →
          Reported f.pre lease version request := by
  have hbegun : ∀ e ∈ history site new world now moves, ∀ id, executes id e = true →
      ¬ Begun (ledger e.pre) id ∧ Begun (ledger e.post) id := by
    intro e he id hexec
    obtain ⟨lease, version, request, s', ht, rfl, hrun⟩ := executes_eq_true hexec
    refine ⟨fun hb => not_begun_again hb hrun, ?_⟩
    have hok : ∃ r, e.tag.transaction.run site e.pre = .ok r := by
      rw [ht]
      exact ⟨_, hrun⟩
    have haccepted : accepted site e = true := by
      obtain ⟨r, hr⟩ := hok
      simp [accepted, hr]
    obtain ⟨answer, hpost⟩ := ran_of_history he haccepted ht
    have hpost : beginTeamOperation lease version request e.pre = .ok (answer, e.post) := hpost
    rw [hrun] at hpost
    obtain ⟨-, rfl⟩ := Prod.mk.inj (Except.ok.inj hpost)
    exact begun_of_ok (ordered_of_history he).pre hrun
  have hkeep : ∀ id c m d, Orderly c → Ledger.Entry site c m d → Begun c id → Begun d id :=
    fun id c m d ho he hb => begun_entry ho.operationIds hb he
  refine ⟨fun id => ?_, fun past c mid f later h lease version request hexec ht => ?_⟩
  · refine Machine.trace_once (M := machine site) (D := fun s => Begun (ledger s) id) _ moves
      (fun _ h => h) (fun e he hb => ?_) fun e he hexec => hbegun e he id hexec
    exact (ordered_of_history he).pre.keeps (hkeep id) (entries_of_history he) hb
  · have hc : c ∈ history site new world now moves := by
      rw [h]
      simp
    have hafter := (hbegun c hc _ hexec).2
    exact reported_of_begun (stays_of_history (hkeep request.operationId) h hafter).1

end GrowTeam.Server
