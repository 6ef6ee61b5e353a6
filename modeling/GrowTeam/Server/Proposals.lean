/-
# A verifying job has a proposal, a working one has none

Every function that moves a job or takes its proposal keeps the two in step, except the
four that `reopens` names: they do one of the two and leave the other, whatever the status
is.  In a run that lets none of them touch a verifying job the coupling holds throughout,
and in no other run.
-/
import GrowTeam.Server.Soundness

namespace GrowTeam.Server

open Interleaving Outline List

variable {site : Site} {s s' : Store}

/-! ## The coupling -/

/-- The status and the proposal of a job belong together. -/
structure Coupled (s : Store) : Prop where
  verifying : s.job.status = .verifying → s.job.resultProposal ≠ none
  working : s.job.status ∈ workingStatuses → s.job.resultProposal = none

namespace Outline

variable {o o' : Outline}

/-- The coupling with what it needs of a queued job, which becomes a working one. -/
structure Matched (o : Outline) : Prop where
  verifying : o.status = .verifying → o.proposal ≠ none
  working : o.status ∈ JobState.queued :: workingStatuses → o.proposal = none

theorem Matched.ofHalted (h : o.status ∈ JobState.failed :: JobState.completed :: haltedStatuses) :
    o.Matched := by
  constructor
  · intro hv
    rw [hv] at h
    simp [haltedStatuses] at h
  · intro hw
    simp only [workingStatuses, haltedStatuses, mem_cons, not_mem_nil, or_false] at h hw
    rcases h with h | h | h | h | h | h <;> rw [h] at hw <;> simp at hw

theorem Matched.ofEmpty (hs : o.status ≠ .verifying) (hp : o.proposal = none) : o.Matched :=
  ⟨fun h => absurd h hs, fun _ => hp⟩

/-- **Turns keep the coupling.** -/
theorem Matched.turn (h : o.Matched) (ht : Turn o o') : o'.Matched := by
  cases ht with
  | allocated | ended => exact ⟨h.verifying, h.working⟩
  | draftCompleted | withdrawn => exact .ofEmpty (by simp) rfl
  | claimed id n hs hidle hn => exact .ofEmpty (by simp) (h.working (by rw [hs]; simp))
  | halted status reason hs hh =>
    exact .ofHalted (mem_cons_of_mem _ (mem_cons_of_mem _ hh))
  | moved status hs hw =>
    refine .ofEmpty ?_ (h.working (mem_cons_of_mem _ hs))
    rintro rfl
    simp [workingStatuses] at hw
  | retracted hs hv => exact .ofEmpty hv rfl
  | prepared p hs => exact ⟨by simp, by simp [workingStatuses]⟩
  | steered hs | resumed hs => exact .ofEmpty (by simp) rfl

theorem Matched.path (h : o.Matched) (hp : Path o o') : o'.Matched := by
  induction hp with
  | refl => exact h
  | tail _ ht ih => exact ih.turn ht

/-- Reopening breaks it. -/
theorem Reopened.uncoupled (h : Reopened o o') (hp : o.proposal ≠ none) :
    ¬ ((o'.status = .verifying → o'.proposal ≠ none) ∧
      (o'.status ∈ workingStatuses → o'.proposal = none)) := by
  rintro ⟨hverifying, hworking⟩
  cases h with
  | moved status n hs hw hn => exact hp (hworking hw)
  | emptied hs => exact hverifying hs rfl

end Outline

/-! ## Runs -/

/-- A transaction that reopens is accepted on a verifying job. -/
def Reopens (site : Site) (e : Event Store Tag) : Prop :=
  e.pre.job.status = .verifying ∧ reopens e.tag.transaction e.pre ∧
    ∃ r, e.tag.transaction.run site e.pre = .ok r

variable {t : Transaction}

/-- On a verifying job the four transactions reopen. -/
theorem reopened_of_run {a : t.Answer} (hS : Sound site (outline s))
    (hv : s.job.status = .verifying) (hr : reopens t s) (h : t.run site s = .ok (a, s')) :
    Reopened (outline s) (outline s') := by
  unfold reopens at hr
  split at hr
  · exact (events_takes hS h).1 ⟨hr, hv⟩
  · exact (proposeOperation_takes (silent_ok h)).1 ⟨hr, hv⟩
  · exact (decideApproval_takes (silent_ok h)).1 ⟨hr, hv⟩
  · exact hr.elim

/-- Every other step keeps the coupling. -/
theorem matched_step {e : Event Store Tag} (hm : Machine.Meets (rules site False) e)
    (hr : ¬ Reopens site e) (h : (outline e.pre).Matched) : (outline e.post).Matched := by
  rcases hm.owed.2 with ⟨a, hrun⟩ | ⟨-, hsame⟩
  swap
  · rw [hsame]
    exact h
  cases run_effect hm.pre hrun with
  | turns hpath => exact h.path hpath
  | reopened hre hout =>
    exact absurd ⟨hout.verifying, hre, ⟨_, hrun⟩⟩ hr
  | delivered receipt atop ht _ hp =>
    refine .ofHalted ?_
    rw [hp.delivered.completed]
    simp
  | draftSent mention text hs hout | edited id c ht hout | deleted id hout =>
    rw [hout]; exact ⟨h.verifying, h.working⟩
  | parked target reason park ht hs hre hout =>
    rw [hout]
    have hmem := hm.owed.1.park target reason park ht
    simp only [refusals, mem_cons, Prod.mk.injEq, not_mem_nil, or_false] at hmem
    rcases hmem with ⟨rfl, -⟩ | ⟨rfl, -⟩ | ⟨rfl, -⟩
    · exact ⟨fun _ => h.verifying hs, fun hw => by simp [parked, workingStatuses] at hw⟩
    · exact .ofHalted (by simp [parked])
    · exact ⟨fun _ => h.verifying hs, fun hw => by simp [parked, workingStatuses] at hw⟩
  | taken ht hout | finished delivered ht hout => rw [hout]; exact ⟨h.verifying, h.working⟩

theorem matched_created (new : NewJob) (world : World) (now : Time) :
    (outline (created new world now)).Matched := by
  obtain ⟨status, hstatus, reason, hout⟩ := outline_created new world now
  rw [hout]
  refine .ofEmpty ?_ rfl
  rintro rfl
  simp at hstatus

/-- **Verifying means a proposal.**  The status and the proposal of a job belong together
in every state of a run exactly when no step of the run reopens a verifying job. -/
theorem coupled_iff (site : Site) (new : NewJob) (world : World) (now : Time)
    (moves : List (Move Call Unit)) :
    (∀ e ∈ history site new world now moves, Coupled e.post) ↔
      ∀ e ∈ history site new world now moves, ¬ Reopens site e := by
  constructor
  · intro hall e he ⟨hv, hr, ⟨a, s'⟩, hrun⟩
    -- The proposal is there before the step, so the step leaves the two apart.
    have hpre : Coupled e.pre := by
      refine ((inv_of_history (J := Coupled) ?_ fun f hf _ => hall f hf).2 e he).1
      have hm := matched_created new world now
      exact ⟨hm.verifying, fun hw => hm.working (mem_cons_of_mem _ hw)⟩
    have hmeets := meets_of_history he
    have hpost := hall e he
    obtain ⟨a', hrun'⟩ := run_of_accepted hmeets ⟨_, hrun⟩
    have hreopened := reopened_of_run hmeets.pre hv hr hrun'
    exact hreopened.uncoupled (hpre.verifying hv) ⟨hpost.verifying, hpost.working⟩
  · intro hall
    have hinv := inv_of_history (J := fun s => (outline s).Matched)
      (matched_created new world now) fun e he => matched_step (meets_of_history he) (hall e he)
    intro e he
    have hm := (hinv.2 e he).2
    exact ⟨hm.verifying, fun hw => hm.working (mem_cons_of_mem _ hw)⟩

/-! ## A question after the result -/

/-- A realm channel with the requester and the bot in it. -/
def channelAudience : AudienceBinding :=
  { conversationId := 1, epoch := 1, realmId := 1, profileId := 1, requesterUserId := 10,
    botUserId := 11, anchorMessageId := 100, recipientId := 20, streamId := some 30,
    inviteOnly := some false, isWebPublic := some false, historyPublicToSubscribers := some true,
    audienceUserIds := [10, 11] }

/-- A runtime that may read its context. -/
def readerDescriptor : Descriptor :=
  { activeSeconds := 7200, toolRounds := 50, artifactBytes := 1000000,
    jobArtifactBytes := 1000000, repository := none, policyVersion := 1,
    policyActions := [.contextRead], network := "none", testedActions := [.contextRead] }

/-- A server where every check outside this model passes. -/
def openWorld : World :=
  { locked := false, audience := .ok channelAudience, check := fun _ => .ok (),
    enabled := true, room := true, candidate := true, descriptor := .ok readerDescriptor,
    policyVersion := 1, canonicalOrigin := none, allowedRefs := [],
    needsConfirmation := fun _ => false, mention := "@_**Ann**" }

/-- A site whose digests and links are constant. -/
def plainSite : Site :=
  { digest := fun _ _ => "digest", jobTaskLink := fun _ => "link", describe := fun _ => "step",
    outside := fun _ => false, jobBranch := fun _ _ => true, pullRequestOf := fun _ => true }

/-- A question to the agent. -/
def answerJob : NewJob :=
  { id := 1, requesterId := 10, repositoryId := none, sourceMessageId := 100,
    jobKind := .answer, deliveryTarget := .answer, baseRef := "",
    audienceBinding := channelAudience, draft := false, needsAction := false }

/-- The lease of the first attempt. -/
def firstLease : LeaseIdentity := ⟨1, 1, 1⟩

/-- The `n`-th event of the first attempt. -/
def nthEvent (n : ℕ) (body : EventBody) : RunnerEvent :=
  { toLeaseIdentity := firstLease, eventId := n, sequence := n, occurredAt := 0, body := body }

/-- `n` steps of the `i`-th task. -/
def rounds (i n : ℕ) : List (Move Call Unit) := List.replicate n (.advance i ())

/-- The `i`-th task is a request of one transaction. -/
def request (i : ℕ) (t : Transaction) : List (Move Call Unit) :=
  .start (.request t) :: rounds i 1

/-- The `i`-th task records the attempt's `n`-th event. -/
def report (i n version : ℕ) (body : EventBody) : List (Move Call Unit) :=
  .start (.event (nthEvent n body) version) :: rounds i 1

/-- The `i`-th task stores an artifact of the attempt. -/
def upload (i : ℕ) (kind : ArtifactKind) : List (Move Call Unit) :=
  .start (.artifact firstLease 2 ⟨kind, "checksum", 10⟩) :: rounds i 3

/-- The attempt's process is seen to start, and to stop. -/
def startedBody : EventBody := .attemptStarted ⟨none, false, ""⟩
def stoppedBody : EventBody := .attemptStopped ⟨none, true, ""⟩

/-- The attempt prepares a result; then its runtime asks for input. -/
def questionRun : List (Move Call Unit) :=
  request 0 (.claimWork 7) ++ report 1 1 2 startedBody ++
    report 2 2 2 (.resultPrepared ⟨[], none, "Done."⟩) ++
    report 3 3 3 (.inputRequested "Which branch?")

/-- The job waits for input and keeps its proposal. -/
theorem uncoupled_questionRun :
    ¬ ∀ e ∈ history plainSite answerJob openWorld 0 questionRun, Coupled e.post := by
  intro hall
  have hlast : ∃ e ∈ history plainSite answerJob openWorld 0 questionRun,
      e.post.job.status = .waitingForInput ∧
        e.post.job.resultProposal = some ⟨[], none, "Done."⟩ := by
    decide
  obtain ⟨e, he, hs, hp⟩ := hlast
  have hnone := (hall e he).working (by rw [hs]; decide)
  rw [hp] at hnone
  cases hnone

/-! # What the message of a completed job shows -/

open Interleaving Outline

variable {site : Site} {s s' : Store}

/-! ## Showing the result -/

/-- The message of a completed job shows the result. -/
def ShowsResult (site : Site) (s : Store) : Prop :=
  s.job.status = .completed → ∀ id, s.job.resultMessageId = some id →
    ∃ m ∈ s.messages, m.id = id ∧ Rendered site (outline s) m.content

/-- The message of a completed job has a final text. -/
def Outline.Shown (o : Outline) : Prop :=
  o.status = .completed → ∀ id, o.messageId = some id →
    ∃ m ∈ o.messages, m.id = id ∧ m.content.final = true

theorem Outline.Rendered.final {o : Outline} {c : Content} (h : Rendered site o c) :
    c.final = true := by
  obtain ⟨p, mention, steps, -, rfl | rfl⟩ := h <;> rfl

/-- With the invariant the two are the same. -/
theorem showsResult_iff_shown (hS : Sound site (outline s)) :
    ShowsResult site s ↔ (outline s).Shown := by
  constructor
  · intro h hc id hid
    obtain ⟨m, hm, hmid, hr⟩ := h hc id hid
    exact ⟨m, hm, hmid, hr.final⟩
  · intro h hc id hid
    obtain ⟨m, hm, hmid, hf⟩ := h hc id hid
    exact ⟨m, hm, hmid, (hS.finalMessage m hm hf).2⟩

namespace Outline

variable {o o' : Outline}

theorem Shown.ofOpen (hs : o.status ≠ .completed) : o.Shown := fun hc => absurd hc hs

theorem Shown.turn (h : o.Shown) (ht : Turn o o') : o'.Shown := by
  rcases ht.open_or with hs | ⟨n, -, rfl⟩
  · exact .ofOpen (ht.open hs)
  · exact h

theorem Shown.path (h : o.Shown) (hp : Path o o') : o'.Shown := by
  induction hp with
  | refl => exact h
  | tail _ ht ih => exact ih.turn ht

/-- An edit of another message leaves the text. -/
theorem Shown.edited (h : o.Shown) (hS : Sound site o) {id : ℕ} {c : Content}
    (hid : ∀ r, o.receipt = some r → r.messageId ≠ id) : (o.edited id c).Shown := by
  intro hc id' hid'
  obtain ⟨m, hm, hmid, hf⟩ := h hc id' hid'
  obtain ⟨r, hr⟩ := Option.isSome_iff_exists.mp (hS.completed.mp hc)
  have hne : m.id ≠ id := by
    rw [hmid, hS.resultMessage r hr id' hid']
    exact hid r hr
  refine ⟨m, ?_, hmid, hf⟩
  show m ∈ o.messages.map _
  exact mem_map.mpr ⟨m, hm, by simp [hne]⟩

theorem Shown.deleted (h : o.Shown) (id : ℕ) : (o.deleted id).Shown := by
  intro hc id' hid'
  by_cases hid : o.messageId = some id
  · simp [Outline.deleted, hid] at hid'
  · have hid₀ : o.messageId = some id' := by simpa [Outline.deleted, hid] using hid'
    obtain ⟨m, hm, hmid, hf⟩ := h hc id' hid₀
    refine ⟨m, mem_filter.mpr ⟨hm, ?_⟩, hmid, hf⟩
    have hne : id' ≠ id := by
      rintro rfl
      exact hid hid₀
    simpa [hmid] using hne

end Outline

/-! ## Runs -/

/-- In a careful run every step keeps the text. -/
theorem shown_step {e : Event Store Tag} (hm : Machine.Meets (rules site True) e)
    (hc : ¬ publishesOverDraft site e.tag.transaction e.pre) (h : (outline e.pre).Shown) :
    (outline e.post).Shown := by
  rcases hm.owed.2 with ⟨a, hrun⟩ | ⟨-, hsame⟩
  swap
  · rw [hsame]
    exact h
  cases run_effect hm.pre hrun with
  | turns hpath => exact h.path hpath
  | reopened hre hout =>
    exact .ofOpen hout.open
  | delivered receipt atop ht _ hp =>
    cases atop with
    | true =>
      obtain ⟨proposal, artifacts, htag⟩ := ht rfl
      exact absurd (overDraft_of_published hm.pre htag hp hrun) hc
    | false =>
      obtain ⟨m, hmem, hmid, hr⟩ := hp.sent rfl
      intro _ id hid
      refine ⟨m, hmem, ?_, hr.final⟩
      rw [hmid]
      exact (hm.post.resultMessage receipt hp.received id hid).symm
  | draftSent mention text hs hout =>
    rw [hout]
    exact .ofOpen hs
  | edited id c ht hout =>
    rw [hout]
    exact h.edited hm.pre ((hm.owed.1.edit id c ht).draft trivial)
  | deleted id hout =>
    rw [hout]
    exact h.deleted id
  | parked target reason park ht hs hr hout =>
    rw [hout]
    refine .ofOpen ?_
    have hmem := hm.owed.1.park target reason park ht
    rintro rfl
    simp [refusals] at hmem
  | taken ht hout | finished delivered ht hout => rw [hout]; exact h

/-- After a publication over a draft the message still shows the draft. -/
theorem not_showsResult_of_overDraft {a : t.Answer}
    (hS : Sound site (outline s)) (ho : publishesOverDraft site t s)
    (h : t.run site s = .ok (a, s')) : ¬ ShowsResult site s' := by
  cases t with
  | publish proposal artifacts =>
    obtain ⟨hnone, hdraft, -⟩ := ho
    rcases publish_ok hS h with ⟨-, hr, -⟩ | ⟨attempt, atop, -, -, hp, hover, -⟩
    · rw [hnone] at hr
      cases hr
    · obtain rfl : atop = true := by
        rw [hover, Option.isSome_iff_ne_none]
        exact hdraft
      obtain ⟨hmessages, hid⟩ := hp.delivered.unsent
      obtain ⟨id, hdraft⟩ := Option.ne_none_iff_exists'.mp hdraft
      intro hshows
      obtain ⟨m, hm, -, hr⟩ := hshows hp.delivered.completed id (hid.trans hdraft)
      have hopen : (outline s).status ≠ .completed := by
        rw [hp.delivered.verifying]
        decide
      -- No message had a final text before, and none was written.
      have hmem : m ∈ (outline s).messages := by
        rw [← hmessages]
        exact hm
      have hfalse := hS.noFinal hopen hmem
      rw [hr.final] at hfalse
      cases hfalse
  | _ => exact ho.elim

theorem accepted_of_overDraft (ho : publishesOverDraft site t s) :
    ∃ r, t.run site s = .ok r := by
  cases t with
  | publish proposal artifacts => exact ho.2.2
  | _ => exact ho.elim

/-- **A published result is what the message shows** in every state of a run exactly when
the run publishes no result over a streamed draft. -/
theorem showsResult_iff (site : Site) (new : NewJob) (world : World) (now : Time)
    (moves : List (Move Call Unit)) :
    (∀ e ∈ history site new world now moves, ShowsResult site e.post) ↔
      ∀ e ∈ history site new world now moves,
        ¬ publishesOverDraft site e.tag.transaction e.pre := by
  constructor
  · intro hall e he ho
    have hmeets := meets_of_history he
    obtain ⟨a, hrun⟩ := run_of_accepted hmeets (accepted_of_overDraft ho)
    exact not_showsResult_of_overDraft hmeets.pre ho hrun (hall e he)
  · intro hc e he
    have hinit : (outline (created new world now)).Shown := by
      obtain ⟨status, hstatus, reason, hout⟩ := outline_created new world now
      rw [hout]
      exact .ofOpen (ne_completed hstatus (by decide))
    have hinv := inv_of_history (J := fun s => (outline s).Shown) hinit fun e he =>
      shown_step (careful_of_history hc he) (hc e he)
    exact (showsResult_iff_shown (meets_of_history he).post).mpr (hinv.2 e he).2

/-! ## A late draft -/

/-- The second draft looks for a receipt, finds none and is held up; the result is prepared
and published, its edit lands, and then the draft's does. -/
def lateDraftRun : List (Move Call Unit) :=
  request 0 (.claimWork 7) ++ report 1 1 2 startedBody ++ upload 2 .summary ++
    .start (.draft ⟨firstLease, "It"⟩) :: rounds 3 1 ++
    .start (.draft ⟨firstLease, "It is"⟩) :: rounds 4 2 ++
    report 5 2 2 (.resultPrepared ⟨[2], none, "It is done."⟩) ++
    report 6 3 3 stoppedBody ++ rounds 6 4 ++ rounds 4 1

/-- Every routine has ended, and the message of the completed job shows the draft. -/
theorem draftShown_lateDraftRun :
    ((machine plainSite).exec (.idle (created answerJob openWorld 0)) lateDraftRun).tasks.all
        (·.ended) = true ∧
      ¬ ShowsResult plainSite (reached plainSite answerJob openWorld 0 lateDraftRun) := by
  have hend : (reached plainSite answerJob openWorld 0 lateDraftRun).job.status = .completed ∧
      (reached plainSite answerJob openWorld 0 lateDraftRun).job.resultMessageId = some 3 ∧
      (reached plainSite answerJob openWorld 0 lateDraftRun).messages =
        [⟨3, false, .draft "@_**Ann**" "It is"⟩] := by
    decide
  obtain ⟨hstatus, hid, hmessages⟩ := hend
  refine ⟨by decide, fun hshows => ?_⟩
  obtain ⟨m, hm, -, hr⟩ := hshows hstatus 3 hid
  rw [hmessages, mem_singleton] at hm
  subst hm
  have hfinal := hr.final
  cases hfinal

end GrowTeam.Server
