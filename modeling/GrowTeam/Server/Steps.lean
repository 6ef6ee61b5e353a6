/-
# The steps of the server and what they keep

`Effect` collects what an accepted transaction can do to the outline of its job, and
`run_effect` shows it for each of them.  From it follow the two facts every guarantee about
runs rests on: the invariant of the life cycle, and `Extends`, the history that no step
undoes.
-/
import GrowTeam.Server.Publication

namespace GrowTeam.Server

open Outline Except

variable {site : Site} {t : Transaction} {s s' : Store}

/-! ## Effects -/

/-- The transactions that move a job, or take its proposal, whatever its status is: an
event that asks for input, the end of a mutating tool, a new proposal that needs an
approval, and an approval. -/
def reopens (t : Transaction) (s : Store) : Prop :=
  match t with
  | .events event _ => reopensEvent event.body = true ∧ recorded s event = false
  | .proposeOperation lease version proposal =>
    priorOperation s proposal = none ∧ ∃ a, s.lockedAttempt lease version = .ok a ∧
      requiresApproval s a proposal.arguments = true
  | .decideApproval decision => decision.approved = true
  | _ => False

/-- What an accepted transaction does. -/
inductive Effect (site : Site) (t : Transaction) (s s' : Store) : Prop where
  | turns (h : Path (outline s) (outline s'))
  | reopened (hr : reopens t s) (h : Reopened (outline s) (outline s'))
  | delivered (receipt : ResultReceipt) (atop : Bool)
    (ht : atop = true → ∃ proposal artifacts, t = .publish proposal artifacts)
    (hp : ∃ attempt proposal artifacts checkAudience,
      Publishable s attempt proposal artifacts checkAudience ∧ receipt.attemptId = attempt.id)
    (h : Published site s s' receipt atop)
  | draftSent (mention text : String) (hs : (outline s).status ≠ .completed)
    (h : outline s' = (outline s).draftSent (.draft mention text))
  | edited (id : ℕ) (c : Content) (ht : t = .editMessage (id, c))
    (h : outline s' = (outline s).edited id c)
  | deleted (id : ℕ) (h : outline s' = (outline s).deleted id)
  | parked (target : JobState) (reason : String) (park : Bool)
    (ht : t = .blockPublication target reason park) (hs : (outline s).status = .verifying)
    (hr : (outline s).reason ≠ reason) (h : outline s' = (outline s).parked target reason park)
  | taken (ht : t = .takeRow .result)
    (h : outline s' = { outline s with row := some .processing })
  | finished (delivered : Bool) (ht : t = .finishRow .result delivered)
    (h : outline s' = { outline s with row := some (if delivered then .delivered else .pending) })

theorem Effect.ofEq (h : s' = s) : Effect site t s s' := by
  subst h
  exact .turns .refl

theorem Effect.ofTakes (h : Takes (reopens t s) (outline s) (outline s')) :
    Effect site t s s' := by
  by_cases hr : reopens t s ∧ (outline s).status = .verifying
  · exact .reopened hr.1 (h.1 hr)
  · exact .turns (h.2 hr)

theorem silent_ok {x : Result Store} {u : Unit} (h : Transaction.silent x = .ok (u, s')) :
    x = .ok s' := by
  cases x with
  | error e => cases h
  | ok s₁ =>
    obtain ⟨-, rfl⟩ := Prod.mk.inj (ok.inj h)
    rfl

theorem query_ok {α : Type} {x : Result α} {a : α} (h : Transaction.query s x = .ok (a, s')) :
    x = .ok a ∧ s' = s := by
  cases x with
  | error e => cases h
  | ok b =>
    cases h
    exact ⟨rfl, rfl⟩

theorem takeRow_effect {key : DeliveryKey} {b : Bool} (h : takeRow key s = .ok (b, s')) :
    Effect site (.takeRow key) s s' := by
  simp only [takeRow, agentTransaction_eq_ok, bind_eq_ok, one_eq_ok] at h
  obtain ⟨-, row, hrow, h⟩ := h
  split at h
  · obtain ⟨-, rfl⟩ := h
    have hout := outline_updateKey (f := processed s) (by intro row; rfl) hrow rfl
    by_cases hkey : key = .result
    · rw [if_pos hkey] at hout
      exact .taken (by rw [hkey]) hout
    · rw [if_neg hkey] at hout
      exact .turns (path_of_eq hout)
  · rw [pure_eq_ok, Prod.mk.injEq] at h
    exact .ofEq h.2.symm

theorem finishRow_effect {key : DeliveryKey} {delivered : Bool}
    (h : finishRow key delivered s = .ok s') : Effect site (.finishRow key delivered) s s' := by
  simp only [finishRow, agentTransaction_eq_ok, bind_eq_ok, one_eq_ok] at h
  obtain ⟨-, row, hrow, h⟩ := h
  split at h
  · rw [pure_eq_ok] at h
    subst h
    have hout := outline_updateKey (f := fun row =>
      { row with
        status := if delivered then OutboxState.delivered else .pending,
        deliveredAt := if delivered then some s.clock else none }) (by intro row; rfl) hrow rfl
    by_cases hkey : key = .result
    · rw [if_pos hkey] at hout
      exact .finished delivered (by rw [hkey]) hout
    · rw [if_neg hkey] at hout
      exact .turns (path_of_eq hout)
  · rw [pure_eq_ok] at h
    exact .ofEq h.symm

/-- **Every accepted transaction has one of the effects.** -/
theorem run_effect {a : t.Answer} (hS : Sound site (outline s)) (h : t.run site s = .ok (a, s')) :
    Effect site t s s' := by
  cases t with
  | wait | change | readReceipt | selectDue | overtaken =>
    obtain ⟨-, rfl⟩ := Prod.mk.inj (ok.inj h)
    exact .turns .refl
  | completeDraft request => exact .turns (completeDraft_path (silent_ok h))
  | claimWork claimKey => exact .turns (claimWork_path h)
  | cancelJob actor version => exact .turns (cancelJob_path (silent_ok h))
  | addInput request => exact .turns (addInput_path (silent_ok h))
  | resumeJob actor version checkpoint => exact .turns (resumeJob_path (silent_ok h))
  | revokeRunner =>
    obtain ⟨-, rfl⟩ := Prod.mk.inj (ok.inj h)
    exact .turns (revokeRunner_path hS)
  | deliverInputs lease version => exact .turns (deliverInputs_path hS h)
  | heartbeat identities => exact .turns (heartbeat_path h)
  | controls => exact .turns (controls_path hS h)
  | saveCheckpoint lease version checkpoint => exact .turns (saveCheckpoint_path (silent_ok h))
  | reconcileInput lease request => exact .turns (reconcileInput_path hS (silent_ok h))
  | events event version => exact .ofTakes (events_takes hS h)
  | stopEvidence event => exact .turns (stopEvidence_path hS h)
  | proposeOperation lease version proposal =>
    exact .ofTakes (proposeOperation_takes (silent_ok h))
  | decideApproval decision => exact .ofTakes (decideApproval_takes (silent_ok h))
  | consumeOperation lease version request => exact .turns (consumeOperation_path (silent_ok h))
  | reconcileOperation lease receipt => exact .turns (reconcileOperation_path (silent_ok h))
  | reconcileLocalOperation lease receipt =>
    exact .turns (reconcileLocalOperation_path (silent_ok h))
  | beginTeamOperation lease version request => exact .turns (beginTeamOperation_path h)
  | storeTeamReceipt lease operation receipt => exact .turns (storeTeamReceipt_path (silent_ok h))
  | admitUpload lease version => exact .turns (admitUpload_path (silent_ok h))
  | uploadBudget lease => exact .turns (uploadBudget_path h)
  | registerArtifact lease upload => exact .turns (registerArtifact_path (silent_ok h))
  | readJob | readArtifacts proposal => exact .ofEq (query_ok h).2
  | publish proposal artifacts =>
    obtain ⟨receipt, edit⟩ := a
    rcases publish_ok hS h with ⟨rfl, -, -⟩ | ⟨attempt, atop, hp, hid, hpublished, -, -⟩
    · exact .turns .refl
    · exact .delivered receipt atop (fun _ => ⟨proposal, artifacts, rfl⟩)
        ⟨attempt, proposal, artifacts, true, hp, hid⟩ hpublished
  | blockPublication target reason park =>
    rcases blockPublication_ok (silent_ok h) with rfl | ⟨hs, hr, hout⟩
    · exact .turns .refl
    · exact .parked target reason park rfl hs hr hout
  | deliverResultPrivately actor version =>
    rcases deliverResultPrivately_ok hS (silent_ok h) with ⟨rfl, -⟩ |
      ⟨attempt, proposal, artifacts, receipt, hp, hid, hpublished⟩
    · exact .turns .refl
    · exact .delivered receipt false (by simp) ⟨attempt, proposal, artifacts, false, hp, hid⟩
        hpublished
  | publishDraft data =>
    rcases publishDraft_ok h with ⟨rfl, -⟩ | ⟨-, hopen, mention, hout⟩
    · exact .turns .refl
    · exact .draftSent mention data.text hopen hout
  | editMessage edit =>
    obtain ⟨-, rfl⟩ := Prod.mk.inj (ok.inj h)
    rcases editMessage_ok edit.1 edit.2 with hout | hout
    · exact .turns (path_of_eq hout)
    · exact .edited edit.1 edit.2 rfl hout
  | deleteMessage id =>
    obtain ⟨-, rfl⟩ := Prod.mk.inj (ok.inj h)
    exact .deleted id (outline_deleteMessage id)
  | expire reach => exact .turns (expire_path hS (silent_ok h))
  | takeRow key => exact takeRow_effect h
  | notify => exact .ofEq (query_ok h).2
  | finishRow key delivered => exact finishRow_effect (silent_ok h)

/-! ## Licences -/

/-- The transactions of a reconcile pass, its publications included. -/
def passStep : Transaction → Bool
  | .expire _ | .selectDue _ | .takeRow _ | .notify | .overtaken _ | .finishRow .. | .readJob
  | .readArtifacts _ | .publish .. | .editMessage _ | .blockPublication .. => true
  | _ => false

/-- The calls of `_block_publication` in `publish_result`. -/
def refusals : List (JobState × String × Bool) :=
  [(.verifying, "audience_changed", true), (.failed, "verification_failed", true),
    (.verifying, "publication_blocked", false)]

/-- What an edit that was left for after a commit still has: the result goes over its own
message, and in a careful history a draft never goes over the result. -/
structure EditLicence (site : Site) (careful : Prop) (o : Outline) (id : ℕ) (c : Content) :
    Prop where
  result : c.final = true → (∃ r, o.receipt = some r ∧ id = r.messageId) ∧ Rendered site o c
  draft : careful → ∀ r, o.receipt = some r → r.messageId ≠ id

/-- What the routine that makes a step knows of it. -/
structure Licensed (site : Site) (careful : Prop) (tag : Tag) (s : Store) : Prop where
  pass : tag.byPass = true → passStep tag.transaction = true
  edit : ∀ id c, tag.transaction = .editMessage (id, c) →
    EditLicence site careful (outline s) id c
  finish : tag.transaction = .finishRow .result true → (outline s).receipt ≠ none
  park : ∀ target reason park, tag.transaction = .blockPublication target reason park →
    (target, reason, park) ∈ refusals

/-- The publishing transaction is accepted over a streamed draft. -/
def publishesOverDraft (site : Site) (t : Transaction) (s : Store) : Prop :=
  match t with
  | .publish proposal artifacts =>
    s.job.resultReceipt = none ∧ s.job.resultMessageId ≠ none ∧
      ∃ r, publish site proposal artifacts s = .ok r
  | _ => False

variable {careful : Prop}

theorem Published.extends {receipt : ResultReceipt} {atop : Bool} (hS : Sound site (outline s))
    (h : Published site s s' receipt atop) (hover : careful → atop = false) :
    Extends careful (outline s) (outline s') := by
  have hopen : (outline s).status ≠ .completed := by
    rw [h.delivered.verifying]
    decide
  have hnone := hS.receipt_none hopen
  have hd := h.delivered
  generalize outline s' = o' at hd ⊢
  refine ⟨?_, ?_, fun hr => absurd hnone hr, ?_⟩
  · intro r hr
    rw [hnone] at hr
    cases hr
  · cases hd with
    | sent r direct c hs hidle hid => exact Nat.le_succ _
    | overDraft r hs hidle hid => exact le_rfl
  · intro hc hr r' hr'
    cases hd with
    | sent r direct c hs hidle hid =>
      obtain rfl : r = r' := by simpa using hr'
      exact le_of_eq hid.symm
    | overDraft r hs hidle hid =>
      have hfalse := hover hc
      cases hfalse

theorem overDraft_of_published {a : t.Answer} {receipt : ResultReceipt}
    {proposal : ResultPayload} {artifacts : List Artifact} (hS : Sound site (outline s))
    (ht : t = .publish proposal artifacts) (hp : Published site s s' receipt true)
    (h : t.run site s = .ok (a, s')) : publishesOverDraft site t s := by
  subst ht
  have hopen : (outline s).status ≠ .completed := by
    rw [hp.delivered.verifying]
    decide
  refine ⟨hS.receipt_none hopen, ?_, ⟨_, h⟩⟩
  have hd := hp.delivered
  show (outline s).messageId ≠ none
  generalize outline s' = o' at hd
  cases hd with
  | overDraft r hs hidle hid => simp [hid]

/-- **An accepted transaction keeps the invariant and the history.** -/
theorem run_sound {tag : Tag} {a : tag.transaction.Answer} (hS : Sound site (outline s))
    (hL : Licensed site careful tag s)
    (hc : careful → ¬ publishesOverDraft site tag.transaction s)
    (h : tag.transaction.run site s = .ok (a, s')) :
    Sound site (outline s') ∧ Extends careful (outline s) (outline s') := by
  cases run_effect hS h with
  | turns hpath => exact ⟨hS.path hpath, hS.extends_path hpath⟩
  | reopened hr hre =>
    refine ⟨hS.reopened hre, ?_⟩
    generalize outline s' = o' at hre ⊢
    cases hre with
    | moved status n hs hw hn =>
      have hnone := hS.receipt_none (by rw [hs]; decide)
      exact .ofOpen hnone hnone hn
    | emptied hs =>
      have hnone := hS.receipt_none (by rw [hs]; decide)
      exact .ofOpen hnone hnone le_rfl
  | delivered receipt atop ht _ hp =>
    refine ⟨hS.delivered hp.delivered hp.rendered, hp.extends hS ?_⟩
    intro hcare
    cases atop with
    | false => rfl
    | true =>
      obtain ⟨proposal, artifacts, ht⟩ := ht rfl
      exact (hc hcare (overDraft_of_published hS ht hp h)).elim
  | draftSent mention text hs hout =>
    rw [hout]
    have hnone := hS.receipt_none hs
    exact ⟨hS.draftSent hs mention text, .ofOpen hnone hnone (Nat.le_succ _)⟩
  | edited id c ht hout =>
    rw [hout]
    have hrefl : Extends careful (outline s) (outline s) := .refl _
    exact ⟨hS.edited (hL.edit id c ht).result, hrefl.receipt, hrefl.nextId, hrefl.frozen,
      hrefl.fresh⟩
  | deleted id hout =>
    rw [hout]
    have hrefl : Extends careful (outline s) (outline s) := .refl _
    exact ⟨hS.deleted id, hrefl.receipt, hrefl.nextId, hrefl.frozen, hrefl.fresh⟩
  | parked target reason park ht hs hr hout =>
    rw [hout]
    have hopen : (outline s).status ≠ .completed := by rw [hs]; decide
    have hnone := hS.receipt_none hopen
    refine ⟨hS.working hopen ?_ le_rfl, .ofOpen hnone hnone le_rfl⟩
    have hmem := hL.park target reason park ht
    rintro rfl
    simp [refusals] at hmem
  | taken ht hout | finished delivered ht hout =>
    rw [hout]
    have hrefl : Extends careful (outline s) (outline s) := .refl _
    exact ⟨hS.row _, hrefl.receipt, hrefl.nextId, hrefl.frozen, hrefl.fresh⟩

end GrowTeam.Server
