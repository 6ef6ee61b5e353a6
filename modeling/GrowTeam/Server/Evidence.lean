/-
# What a completed code job has behind it

The rows `verify_result` reads, and what they show of a code job at the step that completes
it.  The check that a verification is not older than the last mutation reads one row: the
first of a descending sort, which puts the operations without a finish time first.
-/
import GrowTeam.Server.Outbox

namespace GrowTeam.Server

open Interleaving Outline List

variable {site : Site} {s s' : Store}

/-! ## Evidence -/

/-- What the accepted verification of a required check shows. -/
structure CheckPassed (s : Store) (attempt : Attempt) (check : RequiredCheck)
    (v : Verification) : Prop where
  recorded : v ∈ s.verifications ∧ v.attemptId = attempt.id ∧ v.checkId = check.id
  exitCode : v.exitCode = some 0
  command : v.command = check.argv ∧ v.cwd = check.cwd
  tree : ∃ result, s.job.resultProposal = some result ∧ result.treeHash = some v.treeHash
  fresh : ∀ o ∈ mutations s attempt, ∀ t, o.finishedAt = some t → t ≤ v.startedAt

/-- What a completed code job has behind it. -/
structure Evidence (s : Store) (attempt : Attempt) : Prop where
  stopped : attempt.active = false ∧ attempt.processState = .stopped
  inputs : ∀ i ∈ s.inputs, i.deliveryState = .applied
  operations : ∀ o ∈ s.operations, o.toolClass ≠ .teamManage →
    o.status ≠ .started ∧ o.status ≠ .outcomeUnknown
  checks : ∃ repository, attempt.descriptor.repository = some repository ∧
    ∀ check ∈ repository.requiredChecks,
      ∃ v, latestVerification s attempt check = some v ∧ CheckPassed s attempt check v

/-- The finish times of the latest attempt's mutating operations can be compared: all of
them are there, or none is. -/
def FinishTimesComparable (s : Store) : Prop :=
  ∀ attempt, s.latestAttempt = some attempt →
    (∀ o ∈ mutations s attempt, o.finishedAt ≠ none) ∨
      ∀ o ∈ mutations s attempt, o.finishedAt = none

/-! ## What the checks of `verify_result` show -/

theorem forM_ok {α : Type} {f : α → Result Unit} {xs : List α} {u : Unit}
    (h : xs.forM f = .ok u) : ∀ x ∈ xs, f x = .ok () := by
  induction xs with
  | nil => simp
  | cons x xs ih =>
    obtain ⟨_, hx, hrest⟩ := bind_eq_ok.mp h
    intro y hy
    rcases mem_cons.mp hy with rfl | hy
    · exact hx
    · exact ih hrest y hy

variable {attempt : Attempt}

/-- The last mutation finished after every other one, if its row says when. -/
theorem finished_le_lastMutation {o last : Operation} {t t' : Time}
    (ho : o ∈ mutations s attempt) (hlast : lastMutation s attempt = some last)
    (ht : o.finishedAt = some t) (ht' : last.finishedAt = some t') : t ≤ t' := by
  have hle := le_of_mem_argmax ho hlast
  rw [ht, ht'] at hle
  simpa [finishKey] using hle

section

variable (hc : (∀ o ∈ mutations s attempt, o.finishedAt ≠ none) ∨ ∀ o ∈ mutations s attempt, o.finishedAt = none)

include hc

/-- A verification that is not outdated is not older than any mutation, where the finish
times can be compared. -/
theorem fresh_of_not_outdated {v : Verification}
    (hv : outdated (lastMutation s attempt) v = false) :
    ∀ o ∈ mutations s attempt, ∀ t, o.finishedAt = some t → t ≤ v.startedAt := by
  intro o ho t ht
  rcases hc with hall | hnone
  · cases hlast : lastMutation s attempt with
    | none =>
      have hempty : mutations s attempt = [] := argmax_eq_none.mp hlast
      rw [hempty] at ho
      cases ho
    | some last =>
      obtain ⟨t', ht'⟩ := Option.ne_none_iff_exists'.mp (hall last (argmax_mem hlast))
      have hle := finished_le_lastMutation ho hlast ht ht'
      rw [hlast] at hv
      simp only [outdated, Option.bind_some, ht', Option.any_some, decide_eq_false_iff_not,
        not_lt] at hv
      exact le_trans hle hv
  · rw [hnone o ho] at ht
    cases ht

theorem checkPassed_of_verifyCheck {check : RequiredCheck} {result : ResultPayload} {u : Unit}
    (hproposal : s.job.resultProposal = some result)
    (htree : result.treeHash = some attempt.treeHash) (h : verifyCheck s attempt check = .ok u) :
    ∃ v, latestVerification s attempt check = some v ∧ CheckPassed s attempt check v := by
  unfold verifyCheck at h
  split at h
  · cases h
  · next v hv =>
    split at h
    · next hpass =>
      obtain ⟨hpass, hfresh⟩ := hpass
      have hmem := argmax_mem hv
      simp only [mem_filter, Bool.and_eq_true, decide_eq_true_eq] at hmem
      obtain ⟨hmem, ⟨hattempt, hcheck⟩, hvtree⟩ := hmem
      simp only [passes, Bool.and_eq_true, decide_eq_true_eq] at hpass
      obtain ⟨⟨⟨⟨⟨hexit, -⟩, -⟩, -⟩, hcommand⟩, hcwd⟩ := hpass
      exact ⟨v, hv,
        { recorded := ⟨hmem, hattempt, hcheck⟩
          exitCode := hexit
          command := ⟨hcommand, hcwd⟩
          tree := ⟨result, hproposal, by rw [htree, hvtree]⟩
          fresh := fresh_of_not_outdated hc hfresh }⟩
    · cases h

end

/-- **What `verify_result` shows of a code job.** -/
theorem evidence_of_verified {proposal : ResultPayload}
    {artifacts : List Artifact} {b : Bool} (hS : Sound site (outline s))
    (hp : Publishable s attempt proposal artifacts b) (hkind : s.job.jobKind = .code)
    (hc : FinishTimesComparable s) : Evidence s attempt := by
  have h := hp.verified
  simp only [verifyResult, bind_eq_ok, ensure_eq_ok] at h
  obtain ⟨-, ⟨-, hactive, hstopped, -⟩, h⟩ := h
  split at h
  · cases h
  simp only [bind_eq_ok, ensure_eq_ok, present_eq_ok] at h
  obtain ⟨result, hproposal, -, -, -, -, -, hinputs, -, hoperations, h⟩ := h
  simp only [verifyCode, bind_eq_ok, ensure_eq_ok, present_eq_ok] at h
  obtain ⟨-, ⟨-, -, htree⟩, -, -, repository, hrepository, -, -, _, hchecks, -⟩ := h
  refine ⟨⟨hactive, hstopped⟩, ?_, ?_, repository, hrepository, fun check hcheck => ?_⟩
  · -- Nothing cancels an input, so what is not unapplied was applied.
    intro i hi
    have hcancelled : s.inputs.any (·.deliveryState = .cancelled) = false := hS.applied
    simp only [any_eq_false, decide_eq_true_eq] at hcancelled
    have hnot := hcancelled i hi
    have happlied := all_eq_true.mp hinputs i hi
    revert hnot happlied
    cases hd : i.deliveryState <;> simp [Store.unapplied, hd]
  · intro o ho hclass
    have hresolved := all_eq_true.mp hoperations o ho
    simp only [Store.unresolved, Bool.not_eq_true', Bool.and_eq_false_imp, decide_eq_true_eq,
      mem_cons, not_mem_nil, or_false, decide_eq_false_iff_not, ne_eq,
      Decidable.not_not] at hresolved
    constructor
    · exact fun hst => hclass (by simpa using hresolved (.inl hst))
    · exact fun hst => hclass (by simpa using hresolved (.inr hst))
  · exact checkPassed_of_verifyCheck (hc attempt hp.latest) hproposal htree
      (forM_ok hchecks check hcheck)

/-! ## Runs -/

theorem Evidence.frame (h : Evidence s attempt) (hr : SameRows s s') : Evidence s' attempt := by
  have hmutations : mutations s' attempt = mutations s attempt := by
    unfold mutations
    rw [hr.operations]
  refine ⟨h.stopped, hr.inputs ▸ h.inputs, hr.operations ▸ h.operations, ?_⟩
  obtain ⟨repository, hrepository, hchecks⟩ := h.checks
  refine ⟨repository, hrepository, fun check hcheck => ?_⟩
  obtain ⟨v, hv, hpassed⟩ := hchecks check hcheck
  refine ⟨v, ?_, ?_⟩
  · unfold latestVerification at hv ⊢
    rw [hr.verifications]
    exact hv
  · exact
      { recorded := hr.verifications ▸ hpassed.recorded
        exitCode := hpassed.exitCode
        command := hpassed.command
        tree := hr.proposal ▸ hpassed.tree
        fresh := hmutations ▸ hpassed.fresh }

/-- Only a delivery completes a job. -/
theorem delivered_of_completes {e : Event Store Tag} (hm : Machine.Meets (rules site False) e)
    (hpre : e.pre.job.status ≠ .completed) (hpost : e.post.job.status = .completed) :
    ∃ attempt proposal artifacts b receipt atop,
      Publishable e.pre attempt proposal artifacts b ∧ receipt.attemptId = attempt.id ∧
        Published site e.pre e.post receipt atop := by
  have hopen : (outline e.pre).status ≠ .completed := hpre
  have hnot : (outline e.post).status ≠ .completed → False := fun h => h hpost
  rcases hm.owed.2 with ⟨a, hrun⟩ | ⟨-, hsame⟩
  swap
  · rw [hsame] at hpost
    exact absurd hpost hpre
  cases run_effect hm.pre hrun with
  | turns hpath => exact (hnot (open_of_path hpath hopen)).elim
  | reopened hre hout => exact (hnot hout.open).elim
  | delivered receipt atop ht hp hpublished =>
    obtain ⟨attempt, proposal, artifacts, b, hp, hid⟩ := hp
    exact ⟨attempt, proposal, artifacts, b, receipt, atop, hp, hid, hpublished⟩
  | draftSent mention text hs hout | edited id c ht hout | deleted id hout =>
    exact (hnot (by rw [hout]; exact hopen)).elim
  | parked target reason park ht hs hr hout =>
    refine (hnot ?_).elim
    rw [hout]
    have hmem := hm.owed.1.park target reason park ht
    rintro rfl
    simp [refusals] at hmem
  | taken ht hout | finished delivered ht hout => exact (hnot (by rw [hout]; exact hopen)).elim

/-- **A completed code job has its evidence**, in every run whose completing step finds
mutating operations with comparable finish times. -/
theorem evidence_of_completed (site : Site) (new : NewJob) (world : World) (now : Time)
    (moves : List (Move Call Unit)) (e : Event Store Tag)
    (he : e ∈ history site new world now moves) (hc : FinishTimesComparable e.pre)
    (hpre : e.pre.job.status ≠ .completed) (hpost : e.post.job.status = .completed)
    (hkind : e.post.job.jobKind = .code) :
    ∃ attempt receipt, e.post.latestAttempt = some attempt ∧
      e.post.job.resultReceipt = some receipt ∧ receipt.attemptId = attempt.id ∧
        Evidence e.post attempt := by
  have hm := meets_of_history he
  obtain ⟨attempt, proposal, artifacts, b, receipt, atop, hp, hid, hpublished⟩ :=
    delivered_of_completes hm hpre hpost
  have hlatest : e.post.latestAttempt = some attempt := by
    have hsame := hp.latest
    unfold Store.latestAttempt at hsame ⊢
    rw [hpublished.rows.attempts]
    exact hsame
  refine ⟨attempt, receipt, hlatest, hpublished.received, hid, ?_⟩
  have hcode : e.pre.job.jobKind = .code := by
    rw [← hpublished.rows.kind]
    exact hkind
  exact (evidence_of_verified hm.pre hp hcode hc).frame hpublished.rows

/-! ## A code job -/

/-- A change of the code, delivered as a patch. -/
def patchJob : NewJob :=
  { answerJob with
    repositoryId := some 40, jobKind := .code, deliveryTarget := .patch, baseRef := "main" }

/-- A server whose runtime may edit and has one check to run. -/
def editorWorld : World :=
  { openWorld with
    descriptor := .ok { readerDescriptor with
      repository := some ⟨[⟨"tests", ["make", "test"], "."⟩]⟩,
      policyActions := [.repositoryEdit, .checksRun],
      testedActions := [.repositoryEdit, .checksRun] } }

/-- The `i`-th task proposes an operation on a tree. -/
def propose (i : ℕ) (id : Uuid) (args : OperationArguments) (tree : String) :
    List (Move Call Unit) :=
  request i (.proposeOperation firstLease (some 2) ⟨id, args, some tree, none⟩)

/-- The `i`-th task starts an operation, which the policy allows. -/
def consume (i : ℕ) (id : Uuid) : List (Move Call Unit) :=
  request i (.consumeOperation firstLease (some 2) ⟨id, 1, "digest", none⟩)

/-- A tool succeeded. -/
def toolDone (id : Uuid) (action : Action) : EventBody :=
  .toolFinished ⟨id, action, "digest", .succeeded, none, some 0⟩

/-- The check passed on a tree. -/
def checkDone (tree : String) : EventBody :=
  .verificationFinished ⟨51, "tests", ["make", "test"], ".", some 0, 0, 0, tree, 2, false⟩

/-- The attempt has its workspace and its runtime. -/
def workRun : List (Move Call Unit) :=
  request 0 (.claimWork 7) ++
    report 1 1 2 (.workspacePrepared ⟨40, "workspace", "main", "c0", "t0"⟩) ++
    report 2 2 2 startedBody

/-- The result is prepared from the `n`-th event on, and published. -/
def deliverRun (i n : ℕ) (tree : String) : List (Move Call Unit) :=
  upload i .summary ++ upload (i + 1) .diff ++
    report (i + 2) n 2 (.resultPrepared ⟨[3, 4], some tree, "Done."⟩) ++
    report (i + 3) (n + 1) 3 stoppedBody ++ rounds (i + 3) 3

/-- An edit, a checkpoint of its tree and the check on it. -/
def checkedRun : List (Move Call Unit) :=
  workRun ++ propose 3 52 (.repositoryEdit 40 "edit") "t0" ++ consume 4 52 ++
    report 5 3 2 (toolDone 52 .repositoryEdit) ++
    request 6 (.saveCheckpoint firstLease (some 2)
      ⟨60, 1, some "c0", some "t1", "", [], [], [], "", none, 0⟩) ++
    propose 7 51 (.checks 40 ["tests"] "t1") "t1" ++ consume 8 51 ++ upload 9 .verification ++
    report 10 4 2 (checkDone "t1") ++ report 11 5 2 (toolDone 51 .checksRun) ++
    deliverRun 12 6 "t1"

/-- The check, and an edit after it; a third operation is never started. -/
def outdatedRun : List (Move Call Unit) :=
  workRun ++ propose 3 50 (.repositoryEdit 40 "unused") "t0" ++
    propose 4 51 (.checks 40 ["tests"] "t0") "t0" ++
    propose 5 52 (.repositoryEdit 40 "edit") "t0" ++ consume 6 51 ++ upload 7 .verification ++
    report 8 3 2 (checkDone "t0") ++ report 9 4 2 (toolDone 51 .checksRun) ++ consume 10 52 ++
    request 11 (.wait 5) ++ report 12 5 2 (toolDone 52 .repositoryEdit) ++ deliverRun 13 6 "t0"

/-- Where every mutating operation finished, the finish times are comparable. -/
theorem comparable_of_finished
    (h : s.latestAttempt.all (fun a => (mutations s a).all (·.finishedAt.isSome)) = true) :
    FinishTimesComparable s := by
  intro attempt ha
  rw [ha] at h
  refine .inl fun o ho => ?_
  have hfinished := all_eq_true.mp h o ho
  rw [← Option.isSome_iff_ne_none]
  exact hfinished

/-- The checked edit completes with its evidence. -/
theorem evidence_checkedRun :
    ∃ e ∈ history plainSite patchJob editorWorld 0 checkedRun, ∃ attempt receipt,
      e.post.latestAttempt = some attempt ∧ e.post.job.resultReceipt = some receipt ∧
        receipt.attemptId = attempt.id ∧ Evidence e.post attempt := by
  have hstep : ∃ e ∈ history plainSite patchJob editorWorld 0 checkedRun,
      e.pre.latestAttempt.all (fun a => (mutations e.pre a).all (·.finishedAt.isSome)) = true ∧
        e.pre.job.status ≠ .completed ∧ e.post.job.status = .completed ∧
        e.post.job.jobKind = .code := by
    decide
  obtain ⟨e, he, hfinished, hpre, hpost, hkind⟩ := hstep
  exact ⟨e, he, evidence_of_completed plainSite patchJob editorWorld 0 checkedRun e he
    (comparable_of_finished hfinished) hpre hpost hkind⟩

/-- The job completes although its check started before the last edit finished. -/
theorem noEvidence_outdatedRun :
    ¬ ∀ e ∈ history plainSite patchJob editorWorld 0 outdatedRun,
      e.pre.job.status ≠ .completed → e.post.job.status = .completed →
        e.post.job.jobKind = .code →
          ∃ attempt receipt, e.post.latestAttempt = some attempt ∧
            e.post.job.resultReceipt = some receipt ∧ receipt.attemptId = attempt.id ∧
              Evidence e.post attempt := by
  intro hall
  have hstep : ∃ e ∈ history plainSite patchJob editorWorld 0 outdatedRun,
      (e.pre.job.status ≠ .completed ∧ e.post.job.status = .completed ∧
        e.post.job.jobKind = .code) ∧
      e.post.attempts.map (fun a => (a.id, a.descriptor.repository)) =
        [(1, some ⟨[⟨"tests", ["make", "test"], "."⟩]⟩)] ∧
      e.post.verifications.map (·.startedAt) = [0] ∧
      ∃ o ∈ e.post.operations, o.attemptId = 1 ∧ o.toolClass ∈ mutating ∧
        o.finishedAt = some 5 := by
    decide
  obtain ⟨e, he, ⟨hpre, hpost, hkind⟩, hattempts, hstarted, o, ho, hid, hclass, hfinish⟩ := hstep
  obtain ⟨attempt, receipt, hlatest, -, -, hevidence⟩ := hall e he hpre hpost hkind
  have hattempt : (attempt.id, attempt.descriptor.repository) =
      (1, some ⟨[⟨"tests", ["make", "test"], "."⟩]⟩) := by
    have hmem := mem_map_of_mem (f := fun a : Attempt => (a.id, a.descriptor.repository))
      (mem_of_find?_eq_some hlatest)
    rw [hattempts] at hmem
    exact mem_singleton.mp hmem
  obtain ⟨hone, hrepository⟩ := Prod.mk.inj hattempt
  obtain ⟨repository, hrepository', hchecks⟩ := hevidence.checks
  rw [hrepository] at hrepository'
  cases hrepository'
  obtain ⟨v, -, hpassed⟩ := hchecks _ (mem_singleton_self _)
  have hzero : v.startedAt = 0 := by
    have hmem := mem_map_of_mem (f := (·.startedAt)) hpassed.recorded.1
    rw [hstarted] at hmem
    exact mem_singleton.mp hmem
  have hmutation : o ∈ mutations e.post attempt := by
    refine mem_filter.mpr ⟨ho, ?_⟩
    simp [hid, hone, hclass]
  have hle := hpassed.fresh o hmutation 5 hfinish
  rw [hzero] at hle
  exact absurd hle (by decide)

end GrowTeam.Server
