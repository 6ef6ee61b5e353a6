/-
# The outbox row of a result

A pass selects the rows that are due, takes each in one transaction and writes its outcome
in another, while publications park the row and name the reason.  Two laws should hold
between them: a pass leaves a parked row parked, and a held result can be retried or
delivered privately.  Each fails at one place, and holds in every run that avoids it.
-/
import GrowTeam.Server.Proposals

namespace GrowTeam.Server

open Interleaving Outline List Except Transaction

variable {site : Site} {s s' : Store}

/-! ## Parked rows -/

/-- The row of this key is parked. -/
def Parked (s : Store) (key : DeliveryKey) : Prop :=
  ∃ row, s.row key = some row ∧ row.status = .blocked

/-- A step leaves every parked row parked. -/
def StaysParked (e : Event Store Tag) : Prop := ∀ key, Parked e.pre key → Parked e.post key

/-- A pass takes a row that was parked after it had selected it, or publishes a result
whose row was parked meanwhile. -/
def unparks (site : Site) (t : Transaction) (s : Store) : Prop :=
  match t with
  | .takeRow key =>
    s.world.locked = false ∧
      ∃ row, s.row key = some row ∧ row.status = .blocked ∧ row.nextAttemptAt ≤ s.clock
  | .publish proposal artifacts =>
    s.job.resultReceipt = none ∧ Parked s .result ∧
      ∃ r, publish site proposal artifacts s = .ok r
  | _ => False

/-- Rows are only added. -/
def RowsStay (s s' : Store) : Prop := ∀ key row, s.row key = some row → s'.row key = some row

variable {key : DeliveryKey} {f : OutboxRow → OutboxRow} {t : Transaction}

theorem RowsStay.parked (h : RowsStay s s') (hp : Parked s key) : Parked s' key := by
  obtain ⟨row, hrow, hstatus⟩ := hp
  exact ⟨row, h key row hrow, hstatus⟩

theorem rowsStay_of_eq (h : s'.outbox = s.outbox) : RowsStay s s' := by
  intro key row hrow
  unfold Store.row at hrow ⊢
  rw [h]
  exact hrow

theorem RowsStay.trans {s₁ s₂ s₃ : Store} (h : RowsStay s₁ s₂) (h' : RowsStay s₂ s₃) :
    RowsStay s₁ s₃ := fun key row hrow => h' key row (h key row hrow)

theorem RowsStay.after {s₁ s₂ : Store} (h : RowsStay s₁ s₂) (heq : s₁.outbox = s.outbox) :
    RowsStay s s₂ := (rowsStay_of_eq heq).trans h

theorem rowsStay_audit {type : String} {attemptId : Option Uuid} {event : Option RunnerEvent}
    (h : s.audit type attemptId event = .ok s') : RowsStay s s' := by
  simp only [Store.audit, bind_eq_ok, pure_eq_ok] at h
  obtain ⟨-, -, rfl⟩ := h
  exact rowsStay_of_eq rfl

theorem rowsStay_getOrCreateRow
    (hkey : (f (s.newRow key)).key = key) : RowsStay s (s.getOrCreateRow key f) := by
  unfold Store.getOrCreateRow
  split
  · exact rowsStay_of_eq rfl
  · intro k row hrow
    rw [row_createRow hkey, hrow]
    rfl

variable {reason : String}

theorem rowsStay_requestStop {attempt : Option Attempt} {target : StopTarget}
    (h : s.requestStop attempt target reason = .ok s') : RowsStay s s' := by
  cases attempt with
  | none =>
    rw [Store.requestStop, ok.injEq] at h
    subst h
    exact rowsStay_of_eq rfl
  | some a =>
    have haudit := rowsStay_audit h
    refine .trans ?_ haudit
    refine .after (rowsStay_getOrCreateRow ?_) ?_
    · rfl
    · rfl

theorem rowsStay_foldlM {α : Type} {f : Store → α → Result Store} {xs : List α}
    (hf : ∀ s s' x, f s x = .ok s' → RowsStay s s') (h : xs.foldlM f s = .ok s') :
    RowsStay s s' := by
  induction xs generalizing s with
  | nil =>
    rw [foldlM_nil, pure_eq_ok] at h
    exact rowsStay_of_eq (by rw [h])
  | cons x xs ih =>
    rw [foldlM_cons, bind_eq_ok] at h
    obtain ⟨s₁, hfirst, hrest⟩ := h
    exact (hf s s₁ x hfirst).trans (ih hrest)

theorem rowsStay_expire {reach : Reach} (h : expire reach s = .ok s') : RowsStay s s' := by
  simp only [expire, agentTransaction_eq_ok, bind_eq_ok] at h
  obtain ⟨-, s₁, hleases, happrovals⟩ := h
  have hqueue : RowsStay s (expireQueue s reach.queued) := by
    unfold expireQueue
    split <;> exact rowsStay_of_eq rfl
  refine hqueue.trans (RowsStay.trans (rowsStay_foldlM ?_ hleases) (rowsStay_foldlM ?_ happrovals))
  · intro s s' a hlose
    exact (rowsStay_audit hlose).after rfl
  · intro s s' a hexpire
    unfold expireApproval at hexpire
    dsimp only at hexpire
    split at hexpire
    · exact (rowsStay_requestStop hexpire).after rfl
    · rw [pure_eq_ok] at hexpire
      subst hexpire
      exact rowsStay_of_eq rfl

/-- An update that leaves the parked rows it meets parked. -/
theorem parked_updateRows {p : OutboxRow → Bool}
    (hkey : ∀ row, (f row).key = row.key) (hp : Parked s key)
    (hf : ∀ row, s.row key = some row → p row = true → (f row).status = .blocked) :
    Parked (s.updateRows p f) key := by
  obtain ⟨row, hrow, hstatus⟩ := hp
  have hnew := row_updateRows (s := s) (p := p) hkey key
  rw [hrow] at hnew
  refine ⟨_, hnew, ?_⟩
  dsimp only
  split
  · next hpr => exact hf row hrow hpr
  · exact hstatus

theorem key_of_row {row : OutboxRow} (h : s.row key = some row) : row.key = key := by
  simpa using find?_some h

/-- A row of another key is not the one that is updated. -/
theorem parked_updateKey {key k : DeliveryKey}
    (hkey : ∀ row, (f row).key = row.key) (hne : k ≠ key) (hp : Parked s k) :
    Parked (s.updateRows (·.key = key) f) k := by
  refine parked_updateRows hkey hp fun row hrow hpr => ?_
  have hsame : row.key = key := by simpa using hpr
  exact absurd ((key_of_row hrow).symm.trans hsame) hne

theorem parked_updateOrCreateRow {key k : DeliveryKey}
    (hkey : ∀ row, (f row).key = row.key) (hne : k ≠ key) (hp : Parked s k) :
    Parked (s.updateOrCreateRow key f) k := by
  unfold Store.updateOrCreateRow
  split
  · exact parked_updateKey hkey hne hp
  · refine RowsStay.parked ?_ hp
    intro k' row hrow
    rw [row_createRow (hkey _), hrow]
    rfl

/-- The outline shows whether the result's row is parked. -/
theorem parked_result : Parked s .result ↔ (outline s).row = some .blocked := by
  show _ ↔ (s.row .result).map (·.status) = some .blocked
  rw [Option.map_eq_some_iff]
  rfl

/-- A publication leaves the rows of other keys. -/
theorem parked_publish {proposal : ResultPayload} {artifacts : List Artifact}
    {answer : ResultReceipt × Option Edit} (hne : key ≠ .result)
    (h : publish site proposal artifacts s = .ok (answer, s')) (hp : Parked s key) :
    Parked s' key := by
  rw [publish, agentTransaction_eq_ok] at h
  obtain ⟨-, h⟩ := h
  cases hr : s.job.resultReceipt with
  | some found =>
    simp only [hr, ok.injEq, Prod.mk.injEq] at h
    rw [← h.2]
    exact hp
  | none =>
    simp only [hr, bind_eq_ok, pure_eq_ok, Prod.mk.injEq] at h
    obtain ⟨attempt, -, ⟨⟨id, edit⟩, s₁⟩, hmessage, s₂, haudit, -, rfl⟩ := h
    have houtbox : s₁.outbox = s.outbox := by
      unfold resultMessage at hmessage
      split at hmessage
      · obtain ⟨-, rfl⟩ := Prod.mk.inj (ok.inj hmessage)
        rfl
      · simp only [bind_eq_ok, pure_eq_ok, Prod.mk.injEq] at hmessage
        obtain ⟨⟨new, s₃⟩, hsend, -, rfl⟩ := hmessage
        obtain ⟨-, rfl⟩ := sendMessage_ok hsend
        rfl
    refine (rowsStay_audit haudit).parked ?_
    refine parked_updateOrCreateRow (by intro row; rfl) hne ?_
    exact (rowsStay_of_eq houtbox).parked hp

variable {a : t.Answer}

/-- **What a pass does to a parked row.**  It stays parked unless the step unparks one. -/
theorem parked_step (hpass : passStep t = true)
    (hu : ¬ unparks site t s) (h : t.run site s = .ok (a, s'))
    (hp : Parked s key) : Parked s' key := by
  cases t with
  | expire reach => exact (rowsStay_expire (silent_ok h)).parked hp
  | selectDue | overtaken => obtain ⟨-, rfl⟩ := Prod.mk.inj (ok.inj h); exact hp
  | notify => rw [(query_ok h).2]; exact hp
  | readJob | readArtifacts proposal => rw [(query_ok h).2]; exact hp
  | editMessage edit =>
    obtain ⟨-, rfl⟩ := Prod.mk.inj (ok.inj h)
    refine (rowsStay_of_eq ?_).parked hp
    unfold editMessage
    split <;> rfl
  | takeRow k =>
    simp only [run, takeRow, agentTransaction_eq_ok, bind_eq_ok, one_eq_ok] at h
    obtain ⟨hlocked, row, hrow, h⟩ := h
    split at h
    · next htaken =>
      obtain ⟨-, rfl⟩ := h
      by_cases hk : key = k
      · subst hk
        obtain ⟨row', hrow', hstatus⟩ := hp
        rw [show s.row key = some row from hrow] at hrow'
        cases hrow'
        simp only [taken, Bool.and_eq_true, decide_eq_true_eq] at htaken
        exact (hu ⟨hlocked, row, hrow, hstatus, htaken.2⟩).elim
      · exact parked_updateKey (by intro row; rfl) hk hp
    · rw [pure_eq_ok, Prod.mk.injEq] at h
      rw [← h.2]
      exact hp
  | finishRow k delivered =>
    have h := silent_ok h
    simp only [finishRow, agentTransaction_eq_ok, bind_eq_ok, one_eq_ok] at h
    obtain ⟨-, row, hrow, h⟩ := h
    split at h
    · next hopen =>
      rw [pure_eq_ok] at h
      subst h
      refine parked_updateKey (by intro row; rfl) ?_ hp
      -- The pass leaves a row that it finds parked.
      rintro rfl
      obtain ⟨row', hrow', hstatus⟩ := hp
      rw [show s.row key = some row from hrow] at hrow'
      cases hrow'
      rw [hstatus] at hopen
      exact hopen (by simp)
    · rw [pure_eq_ok] at h
      rw [← h]
      exact hp
  | blockPublication target reason park =>
    have h := silent_ok h
    rw [blockPublication, agentTransaction_eq_ok] at h
    obtain ⟨-, h⟩ := h
    split at h
    · simp only [bind_eq_ok, pure_eq_ok] at h
      obtain ⟨s₁, haudit, rfl⟩ := h
      have hp₁ : Parked s₁ key := ((rowsStay_audit haudit).after rfl).parked hp
      split
      · exact parked_updateRows (by intro row; rfl) hp₁ fun _ _ _ => rfl
      · exact hp₁
    · rw [pure_eq_ok] at h
      rw [← h]
      exact hp
  | publish proposal artifacts =>
    by_cases hkey : key = .result
    · subst hkey
      have hr : s.job.resultReceipt ≠ none := fun hr => hu ⟨hr, hp, _, h⟩
      obtain ⟨receipt, hr⟩ := Option.ne_none_iff_exists'.mp hr
      simp only [run, publish, agentTransaction_eq_ok, hr, ok.injEq, Prod.mk.injEq] at h
      rw [← h.2.2]
      exact hp
    · exact parked_publish hkey h hp
  | _ => simp [passStep] at hpass

/-- A step that unparks a row does. -/
theorem not_staysParked (hS : Sound site (outline s))
    (hu : unparks site t s) (h : t.run site s = .ok (a, s')) :
    ∃ key, Parked s key ∧ ¬ Parked s' key := by
  cases t with
  | takeRow key =>
    obtain ⟨-, row, hrow, hstatus, hdue⟩ := hu
    refine ⟨key, ⟨row, hrow, hstatus⟩, ?_⟩
    have htaken : taken s row = true := by simp [taken, hstatus, hdue]
    simp only [run, takeRow, agentTransaction_eq_ok, bind_eq_ok, one_eq_ok] at h
    obtain ⟨-, row', hrow', h⟩ := h
    rw [show s.outbox.find? (·.key = key) = some row from hrow] at hrow'
    cases hrow'
    rw [if_pos htaken] at h
    obtain ⟨-, rfl⟩ := h
    rintro ⟨row', hrow', hstatus'⟩
    rw [row_updateRows (by intro row; rfl), hrow] at hrow'
    simp only [Option.map_some, key_of_row hrow, decide_true, if_true, Option.some.injEq]
      at hrow'
    rw [← hrow'] at hstatus'
    cases hstatus'
  | publish proposal artifacts =>
    obtain ⟨hr, hp, -⟩ := hu
    refine ⟨.result, hp, ?_⟩
    rw [parked_result]
    rcases publish_ok hS h with ⟨-, hr', -⟩ | ⟨attempt, atop, -, -, hpublished, -⟩
    · rw [hr] at hr'
      cases hr'
    · rw [hpublished.delivered.row]
      simp
  | _ => exact hu.elim

theorem accepted_of_unparks (hu : unparks site t s) : ∃ r, t.run site s = .ok r := by
  cases t with
  | takeRow key =>
    obtain ⟨hlocked, row, hrow, hstatus, hdue⟩ := hu
    have htaken : taken s row = true := by simp [taken, hstatus, hdue]
    refine ⟨(true, s.updateRows (·.key = key) (processed s)), ?_⟩
    simp only [run, takeRow, agentTransaction_eq_ok, bind_eq_ok, one_eq_ok]
    exact ⟨hlocked, row, hrow, by rw [if_pos htaken]; rfl⟩
  | publish proposal artifacts => exact hu.2.2
  | _ => exact hu.elim

/-- **A parked row stays parked.**  The reconcile passes of a run leave every parked row
parked exactly when none of their steps takes a parked row or publishes over one. -/
theorem staysParked_iff (site : Site) (new : NewJob) (world : World) (now : Time)
    (moves : List (Move Call Unit)) :
    (∀ e ∈ history site new world now moves, e.tag.byPass = true → StaysParked e) ↔
      ∀ e ∈ history site new world now moves, e.tag.byPass = true →
        ¬ unparks site e.tag.transaction e.pre := by
  constructor
  · intro hall e he hpass hu
    have hmeets := meets_of_history he
    obtain ⟨a, hrun⟩ := run_of_accepted hmeets (accepted_of_unparks hu)
    obtain ⟨key, hp, hn⟩ := not_staysParked hmeets.pre hu hrun
    exact hn (hall e he hpass key hp)
  · intro hall e he hpass key hp
    have hmeets := meets_of_history he
    rcases hmeets.owed.2 with ⟨a, hrun⟩ | ⟨-, hsame⟩
    · exact parked_step (hmeets.owed.1.pass hpass) (hall e he hpass) hrun hp
    · rw [hsame]
      exact hp

/-- A result is prepared and its attempt stops; what follows the commit is still to come. -/
def heldRun : List (Move Call Unit) :=
  request 0 (.claimWork 7) ++ report 1 1 2 startedBody ++ upload 2 .summary ++
    report 3 2 2 (.resultPrepared ⟨[2], none, "Done."⟩) ++ report 4 3 3 stoppedBody

/-- The conversation has another audience now. -/
def movedWorld : World :=
  { openWorld with audience := .ok { channelAudience with epoch := 2 } }

/-- The fifth task is a pass, which makes its first `n` steps. -/
def passSteps (n : ℕ) : List (Move Call Unit) :=
  .start (.reconcile ⟨9, 9, 9, 9⟩ true) :: rounds 5 n

/-- A pass selects the row; the publication after the commit parks it; the pass takes it,
after the row that woke the runners. -/
def selectedRun : List (Move Call Unit) :=
  heldRun ++ passSteps 2 ++ request 6 (.change movedWorld) ++ rounds 4 4 ++ rounds 5 4

/-- The pass changes the parked row. -/
theorem unparked_selectedRun :
    ¬ ∀ e ∈ history plainSite answerJob openWorld 0 selectedRun,
      e.tag.byPass = true → StaysParked e := by
  intro hall
  have hstep : ∃ e ∈ history plainSite answerJob openWorld 0 selectedRun,
      e.tag.byPass = true ∧ (e.pre.row .result).map (·.status) = some .blocked ∧
        (e.post.row .result).map (·.status) = some .processing := by
    decide
  obtain ⟨e, he, hpass, hpre, hpost⟩ := hstep
  have hparked := hall e he hpass .result (parked_result.mpr hpre)
  have hblocked : (e.post.row .result).map (·.status) = some .blocked :=
    parked_result.mp hparked
  rw [hpost] at hblocked
  cases hblocked

/-! ## Held results -/

/-- A held result has a way out: a pass retries its row, or the requester may have it
delivered privately. -/
def HasWayOut (s : Store) : Prop :=
  s.job.status = .verifying → (∀ a, s.latestAttempt = some a → a.processState = .stopped) →
    ∃ row, s.row .result = some row ∧
      (row.status ∈ [.pending, .processing] ∨
        row.status = .blocked ∧ s.job.blockedReason = "audience_changed")

/-- A publication that failed for a reason of its own names it for a result that is parked
over its audience. -/
def strands (t : Transaction) (s : Store) : Prop :=
  match t with
  | .blockPublication target reason park =>
    reason = "publication_blocked" ∧ s.job.status = .verifying ∧ Parked s .result ∧
      ∃ s', blockPublication target reason park s = .ok s'
  | _ => False

namespace Outline

variable {o o' : Outline}

/-- The row and the reason of a verifying job. -/
def Retriable (o : Outline) : Prop :=
  o.status = .verifying → o.row = some .pending ∨ o.row = some .processing ∨
    o.row = some .blocked ∧ o.reason = "audience_changed"

theorem Retriable.ofOther (hs : o.status ≠ .verifying) : o.Retriable := fun h => absurd h hs

theorem Retriable.turn (h : o.Retriable) (ht : Turn o o') : o'.Retriable := by
  cases ht with
  | allocated | ended => exact h
  | draftCompleted hs | claimed id n hs hidle hn => exact .ofOther (by simp)
  | halted status reason hs hh =>
    refine .ofOther ?_
    rintro rfl
    simp [haltedStatuses] at hh
  | moved status hs hw =>
    refine .ofOther ?_
    rintro rfl
    simp [workingStatuses] at hw
  | withdrawn hs => exact .ofOther (by simp)
  | retracted hs hv => exact .ofOther hv
  | prepared p hs => exact fun _ => .inl rfl
  | steered hs | resumed hs => exact .ofOther (by simp)

theorem Retriable.path (h : o.Retriable) (hp : Path o o') : o'.Retriable := by
  induction hp with
  | refl => exact h
  | tail _ ht ih => exact ih.turn ht

theorem Retriable.reopened (h : o.Retriable) (hr : Reopened o o') : o'.Retriable := by
  cases hr with
  | moved status n hs hw hn =>
    refine .ofOther ?_
    rintro rfl
    simp [workingStatuses] at hw
  | emptied hs => exact h

/-- A failed publication keeps the pair, unless it renames the reason of a parked row. -/
theorem Retriable.parked (h : o.Retriable) {target : JobState} {park : Bool}
    (hmem : (target, reason, park) ∈ refusals) (hs : o.status = .verifying)
    (hrow : reason = "publication_blocked" → o.row ≠ some .blocked) :
    (o.parked target reason park).Retriable := by
  simp only [refusals, mem_cons, Prod.mk.injEq, not_mem_nil, or_false] at hmem
  rcases hmem with ⟨rfl, rfl, rfl⟩ | ⟨rfl, rfl, rfl⟩ | ⟨rfl, rfl, rfl⟩
  · intro _
    right; right
    rcases h hs with hr | hr | ⟨hr, -⟩ <;> exact ⟨by simp [Outline.parked, hr, OutboxState.parked], rfl⟩
  · exact .ofOther (by simp [Outline.parked])
  · intro _
    rcases h hs with hr | hr | ⟨hr, -⟩
    · exact .inl hr
    · exact .inr (.inl hr)
    · exact absurd hr (hrow rfl)

end Outline

theorem block_of_run {target : JobState}
    {park : Bool} (ht : t = .blockPublication target reason park)
    (h : t.run site s = .ok (a, s')) : blockPublication target reason park s = .ok s' := by
  subst ht
  exact silent_ok h

/-- A step that strands nothing keeps the pair of row and reason. -/
theorem retriable_step {e : Event Store Tag} (hm : Machine.Meets (rules site False) e)
    (hs : ¬ strands e.tag.transaction e.pre) (h : (outline e.pre).Retriable) :
    (outline e.post).Retriable := by
  rcases hm.owed.2 with ⟨a, hrun⟩ | ⟨-, hsame⟩
  swap
  · rw [hsame]
    exact h
  cases run_effect hm.pre hrun with
  | turns hpath => exact h.path hpath
  | reopened hre hout => exact h.reopened hout
  | delivered receipt atop ht _ hp =>
    refine .ofOther ?_
    rw [hp.delivered.completed]
    decide
  | draftSent mention text hopen hout | edited id c ht hout | deleted id hout => rw [hout]; exact h
  | parked target reason park ht hv hr hout =>
    rw [hout]
    refine h.parked (hm.owed.1.park target reason park ht) hv ?_
    intro hreason hrow
    rw [ht] at hs
    exact hs ⟨hreason, hv, parked_result.mpr hrow, _, block_of_run ht hrun⟩
  | taken ht hout =>
    rw [hout]
    exact fun _ => .inr (.inl rfl)
  | finished delivered ht hout =>
    rw [hout]
    cases delivered with
    | false => exact fun _ => .inl rfl
    | true =>
      -- A result's row is marked delivered behind a receipt only.
      refine .ofOther ?_
      have hreceipt := hm.owed.1.finish ht
      have hcompleted := hm.pre.completed.mpr (Option.isSome_iff_ne_none.mpr hreceipt)
      show (outline e.pre).status ≠ .verifying
      rw [hcompleted]
      decide

/-- **A held result has a way out** in every state of a run in which no failed publication
renames the reason of a parked row. -/
theorem hasWayOut_of_reached (site : Site) (new : NewJob) (world : World) (now : Time)
    (moves : List (Move Call Unit))
    (hs : ∀ e ∈ history site new world now moves, ¬ strands e.tag.transaction e.pre) :
    HasWayOut (reached site new world now moves) ∧
      ∀ e ∈ history site new world now moves, HasWayOut e.post := by
  have hinit : (outline (created new world now)).Retriable := by
    obtain ⟨status, hstatus, reason, hout⟩ := outline_created new world now
    rw [hout]
    refine .ofOther ?_
    rintro rfl
    simp at hstatus
  have hinv := inv_of_history (J := fun s => (outline s).Retriable) hinit fun e he =>
    retriable_step (meets_of_history he) (hs e he)
  have hway : ∀ s : Store, (outline s).Retriable → HasWayOut s := by
    intro s h hv _
    have hrow : ∀ state, (outline s).row = some state →
        ∃ row, s.row .result = some row ∧ row.status = state := by
      intro state hstate
      exact Option.map_eq_some_iff.mp hstate
    rcases h hv with hr | hr | ⟨hr, hreason⟩
    · obtain ⟨row, hfound, hst⟩ := hrow _ hr
      exact ⟨row, hfound, .inl (by simp [hst])⟩
    · obtain ⟨row, hfound, hst⟩ := hrow _ hr
      exact ⟨row, hfound, .inl (by simp [hst])⟩
    · obtain ⟨row, hfound, hst⟩ := hrow _ hr
      exact ⟨row, hfound, .inr ⟨hst, hreason⟩⟩
  exact ⟨hway _ hinv.1, fun e he => hway _ (hinv.2 e he).2⟩

/-- Whether a transaction gives the reason of a failure that is presumed transient. -/
def renames : Transaction → Bool
  | .blockPublication _ reason _ => reason = "publication_blocked"
  | _ => false

theorem not_strands (h : renames t = false) : ¬ strands t s := by
  intro hs
  cases t with
  | blockPublication target reason park => simp [renames, hs.1] at h
  | _ => exact hs.elim

/-- The result is parked over its audience, and may be delivered privately. -/
theorem hasWayOut_parkedRun :
    HasWayOut (reached plainSite answerJob openWorld 0
      (heldRun ++ request 5 (.change movedWorld) ++ rounds 4 4)) := by
  have hrenames : ∀ e ∈ history plainSite answerJob openWorld 0
      (heldRun ++ request 5 (.change movedWorld) ++ rounds 4 4),
      renames e.tag.transaction = false := by
    decide
  exact (hasWayOut_of_reached plainSite answerJob openWorld 0 _
    fun e he => not_strands (hrenames e he)).1

/-- A pass takes the row; the publication after the commit parks the result over its
audience; the pass, which finds the server busy, calls the failure transient. -/
def strandedRun : List (Move Call Unit) :=
  heldRun ++ passSteps 8 ++ request 6 (.change movedWorld) ++ rounds 4 4 ++
    request 7 (.change { movedWorld with locked := true }) ++ rounds 5 1 ++
    request 8 (.change movedWorld) ++ rounds 5 2

/-- The row is parked, no pass selects it and private delivery refuses the job. -/
theorem noWayOut_strandedRun :
    ¬ HasWayOut (reached plainSite answerJob openWorld 0 strandedRun) := by
  have hend : (reached plainSite answerJob openWorld 0 strandedRun).job.status = .verifying ∧
      (reached plainSite answerJob openWorld 0 strandedRun).job.blockedReason =
        "publication_blocked" ∧
      ((reached plainSite answerJob openWorld 0 strandedRun).row .result).map (·.status) =
        some .blocked ∧
      (reached plainSite answerJob openWorld 0 strandedRun).attempts.map (·.processState) =
        [.stopped] := by
    decide +kernel
  obtain ⟨hstatus, hreason, hblocked, hstopped⟩ := hend
  intro hway
  have hlast : ∀ a, (reached plainSite answerJob openWorld 0 strandedRun).latestAttempt =
      some a → a.processState = .stopped := by
    intro a ha
    have hmem := mem_map_of_mem (f := (·.processState)) (mem_of_find?_eq_some ha)
    rw [hstopped] at hmem
    simpa using hmem
  obtain ⟨row, hrow, h⟩ := hway hstatus hlast
  rw [hrow] at hblocked
  have hblocked : row.status = .blocked := by simpa using hblocked
  rcases h with h | ⟨-, h⟩
  · rw [hblocked] at h
    simp at h
  · rw [hreason] at h
    simp at h

end GrowTeam.Server
