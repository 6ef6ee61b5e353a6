/-
# What a transaction does to a job

The transactions that publish, park and stream a result, and the ones of a reconcile pass.
`Effect` collects what each kind of transaction does to the outline of its job, and
`run_effect` shows it for every accepted transaction of the server.
-/
import GrowTeam.Server.EventTurns

namespace GrowTeam.Server

open Outline List

variable {site : Site} {s s' : Store}

/-! ## Expiry -/

theorem expireQueue_path (limit : ℕ) : Path (outline s) (outline (expireQueue s limit)) := by
  unfold expireQueue
  split
  · next hc =>
    refine .single (.halted (outline s) .blocked _ ?_ (by decide))
    show s.job.status ≠ .completed
    rw [hc.2.1]
    decide
  · exact .refl

section

variable (hS : Sound site (outline s))

include hS

theorem outline_loseLease {a : Attempt} (h : loseLease s a = .ok s') :
    outline s' = { outline s with status := .interrupted, reason := "lease_lost" } := by
  rw [outline_audit h, outline_transition, outline_lost hS]

/-- The attempts were read before the first of them was lost. -/
theorem loseLeases_path {attempts : List Attempt}
    (hmem : ∀ a ∈ attempts, a.view ∈ (outline s).leases ∧ a.active = true)
    (h : attempts.foldlM loseLease s = .ok s') : Path (outline s) (outline s') := by
  induction attempts generalizing s with
  | nil =>
    rw [foldlM_nil, pure_eq_ok] at h
    subst h
    exact .refl
  | cons a attempts ih =>
    rw [foldlM_cons, bind_eq_ok] at h
    obtain ⟨s₁, hlose, hrest⟩ := h
    have heq := outline_loseLease hS hlose
    have hopen : (outline s).status ≠ .completed := by
      intro hc
      obtain ⟨hview, hactive⟩ := hmem a (by simp)
      have hfalse := hS.contained hc a.view hview
      rw [show a.view.active = a.active from rfl, hactive] at hfalse
      cases hfalse
    have hfirst : Path (outline s) (outline s₁) := by
      rw [heq]
      exact .single (.halted _ .interrupted _ hopen (by decide))
    refine hfirst.trans (ih (hS.path hfirst) ?_ hrest)
    rw [heq]
    exact fun b hb => hmem b (mem_cons_of_mem _ hb)

theorem expireApproval_path {approval : Approval}
    (h : expireApproval s approval = .ok s') : Path (outline s) (outline s') := by
  unfold expireApproval at h
  dsimp only at h
  split at h
  · next a ha =>
    have hp := find?_some ha
    rw [Bool.and_eq_true] at hp
    have hS' : Sound site (outline (s.updateApprovals (·.id = approval.id)
        fun a => { a with decision := .expired })) := hS
    have hpath := requestStop_path (open_of_active hS' (mem_of_find?_eq_some ha) hp.2) h
    exact hpath
  · rw [pure_eq_ok] at h
    subst h
    exact .refl

theorem expireApprovals_path {approvals : List Approval}
    (h : approvals.foldlM expireApproval s = .ok s') : Path (outline s) (outline s') := by
  induction approvals generalizing s with
  | nil =>
    rw [foldlM_nil, pure_eq_ok] at h
    subst h
    exact .refl
  | cons approval approvals ih =>
    rw [foldlM_cons, bind_eq_ok] at h
    obtain ⟨s₁, hfirst, hrest⟩ := h
    have hpath := expireApproval_path hS hfirst
    exact hpath.trans (ih (hS.path hpath) hrest)

theorem expire_path {reach : Reach} (h : expire reach s = .ok s') :
    Path (outline s) (outline s') := by
  simp only [expire, agentTransaction_eq_ok, bind_eq_ok] at h
  obtain ⟨-, s₁, hleases, happrovals⟩ := h
  have hqueue := expireQueue_path (s := s) reach.queued
  have hS₀ := hS.path hqueue
  have hlost : Path (outline (expireQueue s reach.queued)) (outline s₁) := by
    refine loseLeases_path hS₀ ?_ hleases
    intro a ha
    have ha := mem_of_mem_take ha
    obtain ⟨hmem, hexpired⟩ := mem_filter.mp ha
    simp only [leaseExpired, Bool.and_eq_true] at hexpired
    exact ⟨mem_map_of_mem hmem, hexpired.1.1⟩
  exact hqueue.trans (hlost.trans (expireApprovals_path (hS₀.path hlost) happrovals))

end

/-! ## Publishing -/

/-- What a publishing transaction found before it wrote. -/
structure Publishable (s : Store) (attempt : Attempt) (proposal : ResultPayload)
    (artifacts : List Artifact) (checkAudience : Bool) : Prop where
  proposal : s.job.resultProposal = some proposal
  latest : s.latestAttempt = some attempt
  verified : verifyResult s attempt artifacts checkAudience = .ok ()

variable {artifacts : List Artifact} {attempt : Attempt} {direct : Bool} {c : Content} {s₁ : Store}
  {receipt : ResultReceipt} {attemptId : Option Uuid} {type : String} {proposal : ResultPayload}

theorem verifyResult_status {b : Bool} {u : Unit} (h : verifyResult s attempt artifacts b = .ok u) :
    s.job.status = .verifying ∧ attempt.active = false ∧ attempt.processState = .stopped ∧
      attempt.stoppedAt.isSome = true := by
  simp only [verifyResult, bind_eq_ok, ensure_eq_ok] at h
  obtain ⟨-, hstatus, -⟩ := h
  exact hstatus

/-- When the latest attempt is inactive, all are. -/
theorem idle_of_latest (hS : Sound site (outline s))
    (hl : s.latestAttempt = some attempt) (hi : attempt.active = false) : (outline s).Idle := by
  have hmem : attempt.view ∈ (outline s).leases :=
    mem_map_of_mem (mem_of_find?_eq_some hl)
  have hmax : ∀ a ∈ s.attempts, a.number ≤ attempt.number := by
    simpa using find?_some hl
  intro l hmem'
  by_contra hact
  have hact : l.active = true := by simpa using hact
  have hle := hS.latestActive l hmem' hact attempt.view hmem
  obtain ⟨a, ha, rfl⟩ := mem_map.mp hmem'
  -- Numbers tell the attempts apart, so the active one would be the latest.
  have hsame : a.view = attempt.view :=
    hS.number_inj hmem' hmem (le_antisymm (hmax a ha) hle)
  rw [hsame, show attempt.view.active = attempt.active from rfl, hi] at hact
  cases hact

theorem sendMessage_ok {id : ℕ} (h : sendMessage s direct c = .ok (id, s')) : id = s.nextId ∧
      s' = { s.allocate with messages := s.messages ++ [⟨s.nextId, direct, c⟩] } := by
  simp only [sendMessage, bind_eq_ok, pure_eq_ok, Prod.mk.injEq] at h
  obtain ⟨-, -, rfl, rfl⟩ := h
  exact ⟨rfl, rfl⟩

theorem outline_completeJob (receipt : ResultReceipt) :
    outline (completeJob s receipt) = { outline s with
      status := .completed, reason := "", receipt := some receipt,
      messageId := some receipt.messageId, row := some .delivered } := by
  unfold completeJob
  rw [outline_updateOrCreateRow (by intro row; rfl) (by intro row; rfl)]
  rfl

/-- The receipt of a completed job, in a message that was sent for it. -/
theorem delivered_sent (receipt : ResultReceipt)
    (hs : s.job.status = .verifying) (hidle : (outline s).Idle)
    (hsend : sendMessage s direct c = .ok (receipt.messageId, s₁)) :
    Delivered (outline s) false (outline (completeJob s₁ receipt)) ∧
      (completeJob s₁ receipt).messages = s.messages ++ [⟨s.nextId, direct, c⟩] := by
  obtain ⟨hid, rfl⟩ := sendMessage_ok hsend
  constructor
  · rw [outline_completeJob]
    exact .sent receipt direct c hs hidle hid
  · unfold completeJob Store.updateOrCreateRow
    split <;> rfl

/-- The receipt of a completed job, in the message of its draft. -/
theorem delivered_overDraft (receipt : ResultReceipt) (hs : s.job.status = .verifying)
    (hidle : (outline s).Idle) (hid : s.job.resultMessageId = some receipt.messageId) :
    Delivered (outline s) true (outline (completeJob s receipt)) ∧
      (completeJob s receipt).messages = s.messages := by
  constructor
  · have hmessage : (outline s).messageId = some receipt.messageId := hid
    rw [outline_completeJob, ← hmessage]
    exact .overDraft receipt hs hidle hid
  · unfold completeJob Store.updateOrCreateRow
    split <;> rfl

/-- The rows that a completion is judged by. -/
structure SameRows (s s' : Store) : Prop where
  attempts : s'.attempts = s.attempts
  inputs : s'.inputs = s.inputs
  operations : s'.operations = s.operations
  verifications : s'.verifications = s.verifications
  proposal : s'.job.resultProposal = s.job.resultProposal
  kind : s'.job.jobKind = s.job.jobKind

theorem sameRows_completeJob (h : SameRows s s₁) : SameRows s (completeJob s₁ receipt) := by
  unfold completeJob Store.updateOrCreateRow
  split <;>
    exact { h with }

theorem sameRows_audit {event : Option RunnerEvent} (hs : SameRows s s₁) (h : s₁.audit type attemptId event = .ok s') :
    SameRows s s' := by
  simp only [Store.audit, bind_eq_ok, pure_eq_ok] at h
  obtain ⟨-, -, rfl⟩ := h
  exact { hs with }

/-- What a delivery leaves. -/
structure Published (site : Site) (s s' : Store) (receipt : ResultReceipt) (atop : Bool) :
    Prop where
  delivered : Delivered (outline s) atop (outline s')
  received : s'.job.resultReceipt = some receipt
  rendered : ∀ m ∈ s'.messages, m.content.final = true → Rendered site (outline s) m.content
  sent : atop = false →
    ∃ m ∈ s'.messages, m.id = receipt.messageId ∧ Rendered site (outline s) m.content
  rows : SameRows s s'

/-- A completed job is published once its audit row is written. -/
theorem Published.ofComplete {atop : Bool} {s₁ s₂ : Store} (hS : Sound site (outline s))
    (hd : Delivered (outline s) atop (outline (completeJob s₁ receipt)))
    (hm : ∀ m ∈ (completeJob s₁ receipt).messages,
      m ∈ s.messages ∨ Rendered site (outline s) m.content)
    (hsent : atop = false → ∃ m ∈ (completeJob s₁ receipt).messages,
      m.id = receipt.messageId ∧ Rendered site (outline s) m.content)
    (hrows : SameRows s s₁) (haudit : (completeJob s₁ receipt).audit type attemptId none = .ok s₂) :
    Published site s s₂ receipt atop := by
  have hfinish : outline s₂ = outline (completeJob s₁ receipt) := outline_audit haudit
  have hopen : (outline s).status ≠ .completed := by
    rw [hd.verifying]
    decide
  have hmessages : s₂.messages = (completeJob s₁ receipt).messages :=
    congrArg Outline.messages hfinish
  refine ⟨hfinish ▸ hd, congrArg Outline.receipt (hfinish.trans (outline_completeJob _)), ?_,
    hmessages ▸ hsent, sameRows_audit (sameRows_completeJob hrows) haudit⟩
  rw [hmessages]
  intro m hmem hf
  rcases hm m hmem with hold | hr
  · rw [hS.noFinal hopen hold] at hf
    cases hf
  · exact hr

/-- Sent for the job, the message is the only new one. -/
theorem Published.ofSend {s₁ s₂ : Store} (hS : Sound site (outline s))
    (hs : s.job.status = .verifying) (hidle : (outline s).Idle) (hc : Rendered site (outline s) c)
    (hsend : sendMessage s direct c = .ok (receipt.messageId, s₁))
    (haudit : (completeJob s₁ receipt).audit type attemptId none = .ok s₂) :
    Published site s s₂ receipt false := by
  obtain ⟨hdelivered, hmessages⟩ := delivered_sent receipt hs hidle hsend
  have hrows : SameRows s s₁ := by
    obtain ⟨-, rfl⟩ := sendMessage_ok hsend
    exact ⟨rfl, rfl, rfl, rfl, rfl, rfl⟩
  refine .ofComplete hS hdelivered ?_ ?_ hrows haudit <;> rw [hmessages]
  · intro m hm
    rcases mem_append.mp hm with hm | hm
    · exact .inl hm
    · obtain rfl := mem_singleton.mp hm
      exact .inr hc
  · exact fun _ => ⟨_, mem_append_right _ (mem_singleton_self _), (sendMessage_ok hsend).1.symm, hc⟩

/-- The text of a result that is published in its conversation. -/
def publishedText (site : Site) (s : Store) (proposal : ResultPayload) : Content :=
  .result s.world.mention (resultMessageContent site s proposal.summary)
    (site.jobTaskLink s.job.id)

theorem rendered_publishedText (h : s.job.resultProposal = some proposal) :
    Rendered site (outline s) (publishedText site s proposal) :=
  ⟨proposal, s.world.mention, teamManageResultLines site s, h, .inl rfl⟩

theorem publication_ok (h : publication s proposal artifacts = .ok attempt) :
    Publishable s attempt proposal artifacts true := by
  simp only [publication, bind_eq_ok, ensure_eq_ok, present_eq_ok, pure_eq_ok] at h
  obtain ⟨-, hproposal, a, hlatest, -, -, -, -, _, hverified, -, -, rfl⟩ := h
  exact ⟨hproposal, hlatest, hverified⟩

/-- The publishing transaction: it finds a receipt, or it delivers the result. -/
theorem publish_ok {edit : Option Edit} (hS : Sound site (outline s))
    (h : publish site proposal artifacts s = .ok ((receipt, edit), s')) :
    (s' = s ∧ s.job.resultReceipt = some receipt ∧ edit = none) ∨
      ∃ attempt atop, Publishable s attempt proposal artifacts true ∧
        receipt.attemptId = attempt.id ∧ Published site s s' receipt atop ∧
        atop = s.job.resultMessageId.isSome ∧
        edit = if atop then some (receipt.messageId, publishedText site s proposal) else none := by
  rw [publish, agentTransaction_eq_ok] at h
  obtain ⟨-, h⟩ := h
  cases hr : s.job.resultReceipt with
  | some found =>
    simp only [hr, Except.ok.injEq, Prod.mk.injEq] at h
    obtain ⟨⟨rfl, rfl⟩, rfl⟩ := h
    exact .inl ⟨rfl, rfl, rfl⟩
  | none =>
    right
    simp only [hr, bind_eq_ok, pure_eq_ok, Prod.mk.injEq] at h
    obtain ⟨attempt, hpub, ⟨⟨id, edit'⟩, s₁⟩, hmessage, s₂, haudit, ⟨rfl, rfl⟩, rfl⟩ := h
    have hp := publication_ok hpub
    obtain ⟨hstatus, hinactive, -⟩ := verifyResult_status hp.verified
    have hidle := idle_of_latest hS hp.latest hinactive
    unfold resultMessage at hmessage
    cases hid : s.job.resultMessageId with
    | some old =>
      simp only [hid, Except.ok.injEq, Prod.mk.injEq] at hmessage
      obtain ⟨⟨rfl, rfl⟩, rfl⟩ := hmessage
      obtain ⟨hdelivered, hmessages⟩ :=
        delivered_overDraft ⟨old, attempt.id, s.clock, false⟩ hstatus hidle hid
      refine ⟨attempt, true, hp, rfl, .ofComplete hS hdelivered ?_ (by simp)
        ⟨rfl, rfl, rfl, rfl, rfl, rfl⟩ haudit, rfl, rfl⟩
      rw [hmessages]
      exact fun m hm => .inl hm
    | none =>
      simp only [hid, bind_eq_ok, pure_eq_ok, Prod.mk.injEq] at hmessage
      obtain ⟨⟨new, s₃⟩, hsend, ⟨rfl, rfl⟩, rfl⟩ := hmessage
      exact ⟨attempt, false, hp, rfl, .ofSend hS hstatus hidle (rendered_publishedText hp.proposal)
        hsend haudit, rfl, rfl⟩

theorem privateDelivery_ok {actor version : ℕ}
    (h : privateDelivery s actor version = .ok (attempt, proposal)) :
    ∃ artifacts, Publishable s attempt proposal artifacts false := by
  rw [privateDelivery, bind_eq_ok] at h
  obtain ⟨-, -, h⟩ := h
  split at h
  · cases h
  simp only [bind_eq_ok, present_eq_ok, pure_eq_ok, Prod.mk.injEq] at h
  obtain ⟨-, -, p, hproposal, artifacts, -, a, hlatest, -, -, _, hverified, -, -, rfl, rfl⟩ := h
  exact ⟨artifacts, hproposal, hlatest, hverified⟩

/-- Private delivery does the same, in a direct message. -/
theorem deliverResultPrivately_ok {actor version : ℕ} (hS : Sound site (outline s))
    (h : deliverResultPrivately site actor version s = .ok s') :
    (s' = s ∧ s.job.resultReceipt.isSome = true) ∨
      ∃ attempt proposal artifacts receipt, Publishable s attempt proposal artifacts false ∧
        receipt.attemptId = attempt.id ∧ Published site s s' receipt false := by
  have h := required_ok h
  cases hr : s.job.resultReceipt with
  | some found =>
    rw [hr, pure_eq_ok] at h
    exact .inl ⟨h.symm, rfl⟩
  | none =>
    right
    simp only [hr, bind_eq_ok] at h
    obtain ⟨⟨attempt, proposal⟩, hprivate, ⟨id, s₁⟩, hsend, haudit⟩ := h
    obtain ⟨artifacts, hp⟩ := privateDelivery_ok hprivate
    obtain ⟨hstatus, hinactive, -⟩ := verifyResult_status hp.verified
    refine ⟨attempt, proposal, artifacts, _, hp, rfl, .ofSend hS hstatus
      (idle_of_latest hS hp.latest hinactive) ?_ hsend haudit⟩
    exact ⟨proposal, s.world.mention, teamManageResultLines site s, hp.proposal, .inr rfl⟩

/-! ## Drafts, edits and deletions -/

/-- A draft is sent, or an edit of the earlier draft is left for after the commit. -/
theorem publishDraft_ok {data : DraftText} {edit : Option Edit}
    (h : publishDraft data s = .ok (edit, s')) :
    (s' = s ∧ (∀ e ∈ edit, (outline s).receipt = none ∧ (outline s).messageId = some e.1 ∧
      e.2.final = false)) ∨
      edit = none ∧ (outline s).status ≠ .completed ∧
        ∃ mention, outline s' = (outline s).draftSent (.draft mention data.text) := by
  simp only [publishDraft, agentTransaction_eq_ok, bind_eq_ok] at h
  obtain ⟨-, -, -, a, hlock, h⟩ := h
  split at h
  · obtain ⟨rfl, rfl⟩ := h
    exact .inl ⟨rfl, by simp⟩
  · next hanswer =>
    have hreceipt : s.job.resultReceipt = none := by
      by_contra hne
      exact hanswer (.inr hne)
    simp only [bind_eq_ok] at h
    obtain ⟨-, -, -, -, -, -, h⟩ := h
    cases hid : s.job.resultMessageId with
    | some id =>
      simp only [hid, pure_eq_ok, Prod.mk.injEq] at h
      obtain ⟨rfl, rfl⟩ := h
      refine .inl ⟨rfl, ?_⟩
      rintro e ⟨rfl⟩
      exact ⟨hreceipt, hid, rfl⟩
    | none =>
      simp only [hid, bind_eq_ok, pure_eq_ok, Prod.mk.injEq] at h
      obtain ⟨⟨id, s₁⟩, hsend, rfl, rfl⟩ := h
      obtain ⟨rfl, rfl⟩ := sendMessage_ok hsend
      exact .inr ⟨rfl, (lockedAttempt_ok hlock).2.open, s.world.mention, rfl⟩

theorem editMessage_ok (id : ℕ) (c : Content) :
    outline (editMessage id c s) = outline s ∨
      outline (editMessage id c s) = (outline s).edited id c := by
  unfold editMessage
  split
  · exact .inl rfl
  · exact .inr rfl

theorem outline_deleteMessage (id : ℕ) :
    outline (deleteMessage id s) = (outline s).deleted id := by
  unfold deleteMessage Outline.deleted
  by_cases hid : s.job.resultMessageId = some id
  · have hmessage : (outline s).messageId = some id := hid
    simp only [hid, hmessage, if_true]
    rfl
  · have hmessage : (outline s).messageId ≠ some id := hid
    simp only [hid, hmessage, if_false]
    rfl

/-! ## The outbox -/

/-- What parking makes of a row's state. -/
def OutboxState.parked : OutboxState → OutboxState
  | .delivered => .delivered
  | _ => .blocked

/-- The outline after a failed publication. -/
def Outline.parked (o : Outline) (target : JobState) (reason : String) (park : Bool) : Outline :=
  { o with
    status := target, reason := reason,
    row := if park then o.row.map OutboxState.parked else o.row }

theorem blockPublication_ok {target : JobState} {reason : String} {park : Bool}
    (h : blockPublication target reason park s = .ok s') :
    s' = s ∨ (outline s).status = .verifying ∧ (outline s).reason ≠ reason ∧
      outline s' = (outline s).parked target reason park := by
  rw [blockPublication, agentTransaction_eq_ok] at h
  obtain ⟨-, h⟩ := h
  split at h
  · next hc =>
    right
    refine ⟨hc.1, hc.2, ?_⟩
    simp only [bind_eq_ok, pure_eq_ok] at h
    obtain ⟨s₁, haudit, rfl⟩ := h
    have heq : outline s₁ = { outline s with status := target, reason := reason } :=
      outline_audit haudit
    cases park with
    | false => exact heq
    | true =>
      have hrow : ((s₁.updateRows (fun row => row.key = .result && row.status ≠ .delivered)
          fun row => { row with status := .blocked }).row .result).map (·.status) =
          ((s₁.row .result).map (·.status)).map OutboxState.parked := by
        rw [row_updateRows (by intro row; rfl)]
        cases hfound : s₁.row .result with
        | none => rfl
        | some row =>
          have hkey : row.key = .result := by simpa using find?_some hfound
          cases hst : row.status <;> simp [hkey, hst, OutboxState.parked]
      have hsame : (s₁.row .result).map (·.status) = (outline s).row :=
        congrArg Outline.row heq
      rw [hsame] at hrow
      show outline (s₁.updateRows _ _) = _
      calc outline (s₁.updateRows _ _)
          = { outline s₁ with row := (outline s).row.map OutboxState.parked } := by
            rw [← hrow]
            rfl
        _ = (outline s).parked target reason true := by
            rw [heq]
            rfl
  · rw [pure_eq_ok] at h
    exact .inl h.symm

/-- An update of the rows of one key, which the outline sees when it is the result's. -/
theorem outline_updateKey {key : DeliveryKey} {f : OutboxRow → OutboxRow} {row : OutboxRow}
    {state : OutboxState} (hkey : ∀ row, (f row).key = row.key)
    (hrow : s.row key = some row) (hstate : (f row).status = state) :
    outline (s.updateRows (·.key = key) f) =
      if key = .result then { outline s with row := some state } else outline s := by
  have hfound := row_updateRows (s := s) (p := (·.key = key)) hkey .result
  split
  · next hresult =>
    subst hresult
    have hk : row.key = .result := by simpa using find?_some hrow
    have hnew : ((s.updateRows (·.key = .result) f).row .result).map (·.status) = some state := by
      rw [hfound, hrow]
      simp [hk, hstate]
    rw [outline, hnew]
    rfl
  · next hother =>
    have hnew : (s.updateRows (·.key = key) f).row .result = s.row .result := by
      rw [hfound]
      cases hr : s.row .result with
      | none => rfl
      | some old =>
        have hk : old.key = .result := by simpa using find?_some hr
        simp [hk, Ne.symm hother]
    rw [outline, hnew]
    rfl

end GrowTeam.Server
