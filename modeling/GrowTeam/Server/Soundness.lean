/-
# The routines of the server keep the rules

Every routine makes its transactions with the licence they need: an edit that was left for
after a commit still fits the job it finds, and a pass marks the result's row delivered
only behind a receipt.  `rules` has a parameter: in a careful history no result is
published over a streamed draft.
-/
import GrowTeam.Server.Steps

namespace GrowTeam.Server

open Interleaving Interleaving.Rules Outline Option Machine

variable {site : Site} {careful : Prop}

/-! ## The rules -/

/-- A transaction was accepted, or it failed and changed nothing. -/
def Took (site : Site) (t : Transaction) (s s' : Store) : Prop :=
  (∃ a, t.run site s = .ok (a, s')) ∨ (∃ fault, t.run site s = .error fault) ∧ s' = s

/-- The rules of the server. -/
def rules (site : Site) (careful : Prop) : Rules Store Tag where
  inv s := Sound site (outline s)
  guar s s' := Extends careful (outline s) (outline s')
  cond tag s := careful → ¬ publishesOverDraft site tag.transaction s
  post tag s s' := Licensed site careful tag s ∧ Took site tag.transaction s s'

variable {t : Transaction} {b : Bool} {α : Type} {s : Store} {e : Event Store Tag}

variable {Q : t.Answer → Store → Prop}

/-- The specification of one transaction. -/
theorem perform_spec {P : Store → Prop}
    (hst : (rules site careful).Stable P)
    (hl : ∀ s, Sound site (outline s) → P s → Licensed site careful ⟨b, t⟩ s)
    (hQ : ∀ s a s', Sound site (outline s) → (careful → ¬ publishesOverDraft site t s) → P s →
      t.run site s = .ok (a, s') → Q a s') :
    (rules site careful).SoundE (perform site b t) P Q fun _ _ => True := by
  refine .attempt (fun _ => hst) ?_ ?_
  · intro _ s a s' hS hP hc hrun
    obtain ⟨hS', hext⟩ := run_sound hS (hl s hS hP) hc hrun
    exact ⟨⟨hS', hext, hl s hS hP, .inl ⟨a, hrun⟩⟩, hQ s a s' hS hc hP hrun⟩
  · intro _ s e hS hP hc hrun
    exact ⟨⟨hS, .refl _, hl s hS hP, .inr ⟨⟨e, hrun⟩, rfl⟩⟩, trivial⟩

/-- A routine of which nothing more is asked. -/
def Quiet (site : Site) (careful : Prop) {α : Type} (x : Program α) : Prop :=
  (rules site careful).SoundE x (fun _ => True) (fun _ _ => True) fun _ _ => True

theorem Quiet.pure (a : α) : Quiet site careful (Pure.pure a : Program α) :=
  SoundE.pure fun _ _ _ => trivial

theorem Quiet.throw (fault : Fault) : Quiet site careful (MonadExcept.throw fault : Program α) :=
  SoundE.throw fun _ _ _ => trivial

theorem Quiet.bind {α β : Type} {x : Program α} {f : α → Program β} (hx : Quiet site careful x)
    (hf : ∀ a, Quiet site careful (f a)) : Quiet site careful (x >>= f) :=
  SoundE.bind hx hf

theorem Quiet.tryCatch {x : Program α} {handler : Fault → Program α}
    (hx : Quiet site careful x) (hh : ∀ e, Quiet site careful (handler e)) :
    Quiet site careful (MonadExcept.tryCatch x handler) :=
  SoundE.tryCatch hx hh

/-- The transactions that need no licence but their place. -/
def plain : Transaction → Bool
  | .editMessage _ | .finishRow .. | .blockPublication .. => false
  | _ => true

theorem licensed_plain (ht : plain t = true)
    (hb : b = true → passStep t = true) : Licensed site careful ⟨b, t⟩ s where
  pass := hb
  edit id c h := by
    rw [show t = .editMessage (id, c) from h] at ht
    cases ht
  finish h := by
    rw [show t = .finishRow .result true from h] at ht
    cases ht
  park target reason park h := by
    rw [show t = .blockPublication target reason park from h] at ht
    cases ht

theorem perform_plain
    (ht : plain t = true) (hb : b = true → passStep t = true)
    (hQ : ∀ s a s', Sound site (outline s) → (careful → ¬ publishesOverDraft site t s) →
      t.run site s = .ok (a, s') → Q a s') :
    (rules site careful).SoundE (perform site b t) (fun _ => True) Q fun _ _ => True :=
  perform_spec (stable_true _) (fun _ _ _ => licensed_plain ht hb)
    fun s a s' hS hc _ hrun => hQ s a s' hS hc hrun

theorem perform_quiet (ht : plain t = true)
    (hb : b = true → passStep t = true) : Quiet site careful (perform site b t) :=
  perform_plain ht hb fun _ _ _ _ _ _ => trivial

/-! ## What stays true while others move -/

theorem stable_receipt (r : ResultReceipt) :
    (rules site careful).Stable fun s => (outline s).receipt = some r :=
  fun _ _ _ _ hext hr => hext.receipt r hr

theorem stable_completed :
    (rules site careful).Stable fun s => (outline s).receipt ≠ none := by
  intro s s' _ _ hext hr
  obtain ⟨r, hr⟩ := ne_none_iff_exists'.mp hr
  rw [hext.receipt r hr]
  simp

/-- A draft edit that waits: the draft is older than any receipt that is still to come. -/
structure DraftPending (careful : Prop) (e : Edit) (s : Store) : Prop where
  draft : e.2.final = false
  old : e.1 < s.nextId
  apart : careful → ∀ r, (outline s).receipt = some r → r.messageId ≠ e.1

theorem stable_draftPending (e : Edit) :
    (rules site careful).Stable (DraftPending careful e) := by
  intro s s' hS hS' hext h
  refine ⟨h.draft, lt_of_lt_of_le h.old hext.nextId, fun hc r hr => ?_⟩
  cases hr₀ : (outline s).receipt with
  | none =>
    have hfresh := hext.fresh hc hr₀ r hr
    have hold : e.1 < (outline s).nextId := h.old
    omega
  | some r₀ =>
    have hsame := hext.receipt r₀ hr₀
    rw [hr] at hsame
    cases hsame
    exact h.apart hc r hr₀

/-- A result edit that waits. -/
structure ResultPending (site : Site) (careful : Prop) (receipt : ResultReceipt) (e : Edit)
    (s : Store) : Prop where
  careless : ¬ careful
  message : e.1 = receipt.messageId
  receipt : (outline s).receipt = some receipt
  rendered : Rendered site (outline s) e.2

theorem stable_resultPending (receipt : ResultReceipt) (e : Edit) :
    (rules site careful).Stable (ResultPending site careful receipt e) := by
  intro s s' _ _ hext h
  have hne : (outline s).receipt ≠ none := by
    rw [h.receipt]
    simp
  exact ⟨h.careless, h.message, hext.receipt _ h.receipt, h.rendered.extends hext hne⟩

theorem licensed_edit {e : Edit} (h : EditLicence site careful (outline s) e.1 e.2) :
    Licensed site careful ⟨b, .editMessage e⟩ s where
  pass _ := rfl
  edit id c heq := by
    obtain rfl := Transaction.editMessage.inj heq
    exact h
  finish heq := by cases heq
  park target reason park heq := by cases heq

theorem DraftPending.licence {e : Edit} (h : DraftPending careful e s) :
    EditLicence site careful (outline s) e.1 e.2 where
  result hf := by
    rw [h.draft] at hf
    cases hf
  draft := h.apart

theorem ResultPending.licence {receipt : ResultReceipt} {e : Edit}
    (h : ResultPending site careful receipt e s) :
    EditLicence site careful (outline s) e.1 e.2 where
  result _ := ⟨⟨receipt, h.receipt, h.message⟩, h.rendered⟩
  draft hc := absurd hc h.careless

/-! ## Publication -/

/-- What `_publish_result` leaves of its transaction: the receipt and, over a draft, an edit
that waits. -/
theorem publish_spec (b : Bool) (proposal : ResultPayload) (artifacts : List Artifact) :
    (rules site careful).SoundE (perform site b (.publish proposal artifacts)) (fun _ => True)
      (fun answer s => (outline s).receipt = some answer.1 ∧
        ∀ e ∈ answer.2, ResultPending site careful answer.1 e s) fun _ _ => True := by
  refine perform_plain rfl (fun _ => rfl) ?_
  rintro s ⟨receipt, edit⟩ s' hS hc hrun
  rcases publish_ok hS hrun with ⟨rfl, hr, rfl⟩ | ⟨attempt, atop, hp, -, hpublished, -, rfl⟩
  · exact ⟨hr, by simp⟩
  · refine ⟨hpublished.received, ?_⟩
    cases atop with
    | false => simp
    | true =>
      have hover := overDraft_of_published hS rfl hpublished hrun
      rintro e ⟨rfl⟩
      refine ⟨fun hcare => hc hcare hover, rfl, hpublished.received, ?_⟩
      have hproposal : (outline s').proposal = (outline s).proposal ∧
          (outline s').id = (outline s).id ∧ (outline s').kind = (outline s).kind ∧
          (outline s').target = (outline s).target := by
        have hd := hpublished.delivered
        generalize outline s' = o' at hd
        cases hd with
        | overDraft r hs hidle hid => exact ⟨rfl, rfl, rfl, rfl⟩
      obtain ⟨hpr, hid, hkind, htarget⟩ := hproposal
      have htext : Rendered site (outline s) (publishedText site s proposal) :=
        rendered_publishedText hp.proposal
      obtain ⟨p, mention, steps, hp', hc'⟩ := htext
      refine ⟨p, mention, steps, hpr.trans hp', ?_⟩
      rw [hid, hkind, htarget]
      exact hc'

theorem afterCommit_spec (b : Bool) (receipt : ResultReceipt) (edit : Option Edit) :
    (rules site careful).SoundE (afterCommit site b edit)
      (fun s => (outline s).receipt = some receipt ∧
        ∀ e ∈ edit, ResultPending site careful receipt e s)
      (fun _ _ => True) fun _ _ => True := by
  cases edit with
  | none => exact .pure fun _ _ _ => trivial
  | some e =>
    refine .pre ?_ fun s _ h => h.2 e rfl
    exact perform_spec (stable_resultPending receipt e)
      (fun s _ h => licensed_edit h.licence) fun _ _ _ _ _ _ _ => trivial

/-- A publication that returns leaves a receipt. -/
theorem publishResultUnguarded_spec (b : Bool) :
    (rules site careful).SoundE (publishResultUnguarded site b) (fun _ => True)
      (fun _ s => (outline s).receipt ≠ none) fun _ _ => True := by
  have hread : (rules site careful).SoundE (perform site b .readJob) (fun _ => True)
      (fun answer s => ∀ receipt, answer = .inl receipt → (outline s).receipt = some receipt)
      fun _ _ => True := by
    refine perform_plain rfl (fun _ => rfl) ?_
    intro s answer s' _ _ hrun receipt hanswer
    obtain ⟨hread, rfl⟩ := query_ok hrun
    subst hanswer
    rw [readJob] at hread
    split at hread
    · next r hr =>
      obtain rfl := Sum.inl.inj (Except.ok.inj hread)
      exact hr
    · simp only [bind_eq_ok, pure_eq_ok] at hread
      obtain ⟨_, -, ⟨⟩⟩ := hread
  refine .bind hread fun answer => ?_
  cases answer with
  | inl receipt =>
    refine .pure fun s _ h => ?_
    rw [h receipt rfl]
    simp
  | inr proposal =>
    refine .pre ?_ fun s _ _ => (trivial : True)
    refine .bind (perform_quiet rfl fun _ => rfl) fun artifacts => ?_
    refine .bind (publish_spec b proposal artifacts) ?_
    rintro ⟨receipt, edit⟩
    -- The receipt is still there after the edit.
    have hcommit : (rules site careful).SoundE (afterCommit site b edit) _ _ _ :=
      afterCommit_spec b receipt edit
    have hframe := hcommit.frame (stable_receipt receipt)
    refine .bind ((hframe.pre fun s _ h => ⟨h, h.1⟩).onError fun _ _ _ _ => trivial) ?_
    refine fun _ => .pure fun s _ h => ?_
    rw [h.2]
    simp

theorem block_quiet (b : Bool) {target : JobState} {reason : String} {park : Bool}
    (hmem : (target, reason, park) ∈ refusals) :
    Quiet site careful (perform site b (.blockPublication target reason park)) := by
  refine perform_spec (stable_true _) (fun s _ _ => ?_) fun _ _ _ _ _ _ _ => trivial
  exact
    { pass := fun _ => rfl
      edit := fun id c heq => by cases heq
      finish := fun heq => by cases heq
      park := fun target' reason' park' heq => by
        obtain ⟨rfl, rfl, rfl⟩ := Transaction.blockPublication.inj heq
        exact hmem }

theorem handlePublication_quiet (b : Bool) (fault : Fault) :
    Quiet site careful (handlePublication site b fault) := by
  cases fault with
  | audienceChanged | requiredChecksFailed => exact block_quiet b (by simp [refusals])
  | other => exact .pure ()
  | busy | value message | denied | jsonable | missing => exact block_quiet b (by simp [refusals])

theorem publishResult_spec (b : Bool) :
    (rules site careful).SoundE (publishResult site b) (fun _ => True)
      (fun _ s => (outline s).receipt ≠ none) fun _ _ => True := by
  refine .tryCatch (publishResultUnguarded_spec b) fun fault => ?_
  exact .bind (handlePublication_quiet b fault) fun _ => .throw fun _ _ _ => trivial

theorem publishResult_quiet (b : Bool) : Quiet site careful (publishResult site b) :=
  (publishResult_spec b).post fun _ _ _ _ => trivial

/-! ## Reconcile passes -/

/-- A result's row counts as delivered only behind a receipt. -/
theorem deliverRow_spec (notifies : Bool) (key : DeliveryKey) :
    (rules site careful).SoundE (deliverRow site notifies key) (fun _ => True)
      (fun delivered s => key = .result → delivered = true → (outline s).receipt ≠ none)
      fun _ _ => True := by
  unfold deliverRow
  split
  · exact .bind (publishResult_spec true) fun _ => .pure fun _ _ h _ _ => h
  · next hkey =>
    have hother : ∀ (b : Bool) (s : Store), key = .result → b = true →
        (outline s).receipt ≠ none := fun _ _ h => absurd h hkey
    split
    · exact .bind (perform_quiet rfl fun _ => rfl)
        fun _ => .pure fun s _ _ => hother true s
    · exact (perform_quiet rfl fun _ => rfl).post fun b s _ _ => hother b s

theorem finishRow_spec (key : DeliveryKey) (delivered : Bool) :
    (rules site careful).SoundE (perform site true (.finishRow key delivered))
      (fun s => key = .result → delivered = true → (outline s).receipt ≠ none)
      (fun _ _ => True) fun _ _ => True := by
  refine perform_spec ?_ (fun s _ h => ?_) fun _ _ _ _ _ _ _ => trivial
  · intro s s' hS hS' hext h hkey hd
    exact stable_completed s s' hS hS' hext (h hkey hd)
  · exact
      { pass := fun _ => rfl
        edit := fun id c heq => by cases heq
        finish := fun heq => by
          obtain ⟨rfl, rfl⟩ := Transaction.finishRow.inj heq
          exact h rfl rfl
        park := fun target reason park heq => by cases heq }

theorem reconcileRow_quiet (notifies : Bool) (key : DeliveryKey) :
    Quiet site careful (reconcileRow site notifies key) := by
  refine Quiet.bind (perform_quiet rfl fun _ => rfl) fun taken => ?_
  split
  · refine SoundE.bind (SoundE.tryCatch (deliverRow_spec notifies key) fun fault => ?_)
      fun delivered => finishRow_spec key delivered
    exact SoundE.pure fun _ _ _ _ hd => by cases hd
  · exact .pure ()

theorem reconcileAgents_quiet (reach : Reach) (notifies : Bool) :
    Quiet site careful (reconcileAgents site reach notifies) := by
  refine .bind (perform_quiet rfl fun _ => rfl) fun _ => ?_
  refine .bind (perform_quiet rfl fun _ => rfl) fun keys => ?_
  exact .forM (I := fun _ _ => True) keys fun _ key _ _ => reconcileRow_quiet notifies key

/-! ## Requests -/

theorem streamDraft_quiet (data : DraftText) : Quiet site careful (streamDraft site data) := by
  have hdraft : (rules site careful).SoundE (perform site false (.publishDraft data))
      (fun _ => True) (fun edit s => ∀ e ∈ edit, DraftPending careful e s) fun _ _ => True := by
    refine perform_plain rfl (by simp) ?_
    intro s edit s' hS _ hrun
    rcases publishDraft_ok hrun with ⟨rfl, h⟩ | ⟨rfl, -⟩
    · intro e he
      obtain ⟨hreceipt, hmessage, hf⟩ := h e he
      refine ⟨hf, hS.referenced e.1 hmessage, fun _ r hr => ?_⟩
      rw [hreceipt] at hr
      cases hr
    · simp
  refine SoundE.bind hdraft fun edit => ?_
  cases edit with
  | none => exact SoundE.pure fun _ _ _ => trivial
  | some e =>
    refine SoundE.pre ?_ fun s _ h => (⟨trivial, h e rfl⟩ : True ∧ DraftPending careful e s)
    have hlook : Quiet site careful (perform site false .readReceipt) :=
      perform_quiet rfl (by simp)
    refine .bind ((hlook.frame (stable_draftPending e)).onError fun _ _ _ _ => trivial) ?_
    intro published
    split
    · exact .pure fun _ _ _ => trivial
    · refine .pre ?_ fun s _ h => h.2
      exact perform_spec (stable_draftPending e) (fun s _ h => licensed_edit h.licence)
        fun _ _ _ _ _ _ _ => trivial

theorem recordThenPublish_quiet (due : t.Answer → Bool) (ht : plain t = true) :
    Quiet site careful (recordThenPublish site t due) := by
  refine .bind (perform_quiet ht (by simp)) fun answer => ?_
  split
  · exact .bind (publishResult_quiet false) fun _ => .pure ()
  · exact .pure ()

variable (lease : LeaseIdentity)

theorem storeReceipt_quiet (operationId : Uuid) (receipt : TeamReceipt)
    (n : ℕ) : Quiet site careful (storeReceipt site lease operationId receipt n) := by
  induction n with
  | zero => exact perform_quiet rfl (by simp)
  | succ n ih =>
    refine .tryCatch (perform_quiet rfl (by simp)) fun fault => ?_
    split
    · exact ih
    · exact .throw fault

theorem executeOperation_quiet (version : ℕ) (request : Consumption) (receipt : TeamReceipt) :
    Quiet site careful (executeOperation site lease version request receipt) := by
  refine .bind (perform_quiet rfl (by simp)) fun begun => ?_
  split
  · exact storeReceipt_quiet lease request.operationId receipt receiptRetries
  · exact .pure ()

theorem storeArtifact_quiet (version : ℕ) (upload : Upload) :
    Quiet site careful (storeArtifact site lease version upload) := by
  refine .bind (perform_quiet rfl (by simp)) fun _ => ?_
  refine .bind (perform_quiet rfl (by simp)) fun budget => ?_
  split
  · exact perform_quiet rfl (by simp)
  · exact .throw _

theorem program_quiet (call : Call) : Quiet site careful (program site call) := by
  cases call with
  | request t =>
    rw [program]
    split
    · next ht =>
      have hplain : plain t = true := by
        revert ht
        cases t <;> simp [standalone, plain]
      exact .bind (perform_quiet hplain (by simp)) fun _ => .pure ()
    · exact .pure ()
  | event event version | stopEvidence event => exact recordThenPublish_quiet _ rfl
  | draft data => exact streamDraft_quiet data
  | execute lease version request receipt =>
    exact executeOperation_quiet lease version request receipt
  | artifact lease version upload => exact storeArtifact_quiet lease version upload
  | reconcile reach notifies => exact reconcileAgents_quiet reach notifies

/-! ## Runs -/

/-- **The server keeps its rules.** -/
theorem keeps (site : Site) (careful : Prop) : (machine site).Keeps (rules site careful) where
  routine call := (program_quiet call).discard
  reboot _ h := h

/-- A job starts as a draft, blocked or queued, with nothing done. -/
theorem outline_created (new : NewJob) (world : World) (now : Time) :
    ∃ status ∈ [JobState.draft, .blocked, .queued], ∃ reason,
      outline (created new world now) =
        { id := new.id, kind := new.jobKind, target := new.deliveryTarget, status := status,
          reason := reason, proposal := none, receipt := none, messageId := none, row := none,
          leases := [], messages := [], cancelledInput := false, nextId := 1 } := by
  have hstatus : (newJob new now).status ∈ [JobState.draft, .blocked, .queued] := by
    unfold newJob
    cases new.draft <;> cases new.needsAction <;> simp
  refine ⟨(newJob new now).status, hstatus, (newJob new now).blockedReason, ?_⟩
  unfold created
  split <;> rfl

/-- So it has the invariant. -/
theorem sound_created (new : NewJob) (world : World) (now : Time) :
    Sound site (outline (created new world now)) := by
  obtain ⟨status, hstatus, reason, hout⟩ := outline_created new world now
  have hopen : status ≠ .completed := by
    rintro rfl
    simp at hstatus
  rw [hout]
  exact
    { completed := by simp [hopen]
      contained := fun hc => absurd hc hopen
      numbered := .nil
      latestActive := by simp
      messageIds := by simp
      allocated := by simp
      referenced := by simp
      resultMessage := by simp
      finalMessage := by simp
      applied := rfl }

/-- The steps of a run of a new job. -/
def history (site : Site) (new : NewJob) (world : World) (now : Time)
    (moves : List (Move Call Unit)) : List (Event Store Tag) :=
  (machine site).trace (.idle (created new world now)) moves

/-- The store a run ends in. -/
def reached (site : Site) (new : NewJob) (world : World) (now : Time)
    (moves : List (Move Call Unit)) : Store :=
  ((machine site).exec (.idle (created new world now)) moves).store

variable {new : NewJob} {world : World} {now : Time} {moves : List (Move Call Unit)}

/-- Every step of every run meets the rules. -/
theorem meets_of_history (he : e ∈ history site new world now moves) :
    Machine.Meets (rules site False) e :=
  sound_trace (keeps site False) (sound_created new world now) moves
    (fun _ _ h => h.elim) he

/-- In a run that publishes nothing over a draft, every step meets the careful rules. -/
theorem careful_of_history (hc : ∀ e ∈ history site new world now moves,
      ¬ publishesOverDraft site e.tag.transaction e.pre) (he : e ∈ history site new world now moves) :
    Machine.Meets (rules site True) e :=
  sound_trace (keeps site True) (sound_created new world now) moves
    (fun e he _ => hc e he) he

/-- A transaction that is accepted is the step that was taken. -/
theorem run_of_accepted (h : Machine.Meets (rules site careful) e)
    (ha : ∃ r, e.tag.transaction.run site e.pre = .ok r) :
    ∃ a, e.tag.transaction.run site e.pre = .ok (a, e.post) := by
  obtain ⟨r, hr⟩ := ha
  rcases h.owed.2 with hrun | ⟨⟨fault, hfault⟩, -⟩
  · exact hrun
  · rw [hr] at hfault
    cases hfault

/-- An invariant that every step of a run keeps holds before and after each of them. -/
theorem inv_of_history {J : Store → Prop} (hinit : J (created new world now))
    (hstep : ∀ e ∈ history site new world now moves, J e.pre → J e.post) :
    J (reached site new world now moves) ∧
      ∀ e ∈ history site new world now moves, J e.pre ∧ J e.post :=
  trace_inv _ moves hinit (fun _ h => h) hstep

/-! # A job is published at most once -/

open Interleaving Outline

variable {site : Site}

/-- Whether a step set the receipt. -/
def setsReceipt (e : Event Store Tag) : Bool :=
  e.pre.job.resultReceipt.isNone && e.post.job.resultReceipt.isSome

/-- The final messages of a job. -/
def finalMessages (s : Store) : List Message := s.messages.filter (·.content.final)

/-- There is room for one final message: the receipt names it. -/
theorem Outline.Sound.one_final {s : Store} (h : Sound site (outline s)) :
    (finalMessages s).length ≤ 1 := by
  have hids : ((finalMessages s).map (·.id)).Nodup :=
    h.messageIds.sublist (List.filter_sublist.map _)
  have hsame : ∀ m ∈ finalMessages s, ∀ m' ∈ finalMessages s, m.id = m'.id := by
    intro m hm m' hm'
    obtain ⟨hmem, hf⟩ := List.mem_filter.mp hm
    obtain ⟨hmem', hf'⟩ := List.mem_filter.mp hm'
    obtain ⟨⟨r, hr, hid⟩, -⟩ := h.finalMessage m hmem hf
    obtain ⟨⟨r', hr', hid'⟩, -⟩ := h.finalMessage m' hmem' hf'
    rw [hr] at hr'
    cases hr'
    rw [hid, hid']
  match hl : finalMessages s with
  | [] | [_] => simp
  | m :: m' :: rest =>
    rw [hl] at hids hsame
    have heq := hsame m (by simp) m' (by simp)
    simp [heq] at hids

/-- What no step of a run breaks relates its store at one time to that at every later one. -/
theorem reached_rel {R : Store → Store → Prop} (new : NewJob) (world : World) (now : Time)
    (moves more : List (Move Call Unit)) (hrefl : ∀ s, R s s)
    (htrans : ∀ s₁ s₂ s₃, R s₁ s₂ → R s₂ s₃ → R s₁ s₃)
    (hstep : ∀ e ∈ history site new world now (moves ++ more), R e.pre e.post) :
    R (reached site new world now moves) (reached site new world now (moves ++ more)) := by
  rw [history, trace_append] at hstep
  rw [reached, reached, exec_append]
  exact (rel_exec hrefl htrans hrefl _ more fun e he => hstep e (List.mem_append_right _ he)).1

/-- The store at the end of a longer run extends the store at the end of the shorter one. -/
theorem reached_extends (new : NewJob) (world : World) (now : Time)
    (moves more : List (Move Call Unit)) :
    Extends False (outline (reached site new world now moves))
      (outline (reached site new world now (moves ++ more))) :=
  reached_rel new world now moves more (fun _ => .refl _) (fun _ _ _ h h' => h.trans h')
    fun _ he => (meets_of_history he).guar

/-- **Publication happens at most once.**  A receipt never changes, at most one step of a
run sets it, and at most one final message exists. -/
theorem published_once (site : Site) (new : NewJob) (world : World) (now : Time)
    (moves more : List (Move Call Unit)) :
    (∀ r, (reached site new world now moves).job.resultReceipt = some r →
      (reached site new world now (moves ++ more)).job.resultReceipt = some r) ∧
      ((history site new world now moves).filter setsReceipt).length ≤ 1 ∧
      (finalMessages (reached site new world now moves)).length ≤ 1 := by
  refine ⟨(reached_extends new world now moves more).receipt, ?_, ?_⟩
  · refine Machine.trace_once (D := fun s => s.job.resultReceipt ≠ none) _ moves
      (fun _ h => h) ?_ ?_
    · intro e he hr
      obtain ⟨r, hr⟩ := ne_none_iff_exists'.mp hr
      rw [show e.post.job.resultReceipt = some r from (meets_of_history he).guar.receipt r hr]
      simp
    · intro e he hset
      simp only [setsReceipt, Bool.and_eq_true, isNone_iff_eq_none] at hset
      refine ⟨by simp [hset.1], ?_⟩
      rw [← isSome_iff_ne_none]
      exact hset.2
  · have hsound : Sound site (outline (reached site new world now moves)) :=
      Machine.sound_inv (keeps site False) (sound_created new world now) moves
        fun _ _ h => h.elim
    exact hsound.one_final

/-- **Completion is final.**  A completed job stays completed, with its receipt and the
proposal that was published, and no attempt works for it. -/
theorem completed_stays (site : Site) (new : NewJob) (world : World) (now : Time)
    (moves more : List (Move Call Unit)) :
    let s := reached site new world now moves
    let s' := reached site new world now (moves ++ more)
    (s.job.status = .completed → s'.job.status = .completed ∧
      s'.job.resultReceipt = s.job.resultReceipt ∧ s'.job.resultProposal = s.job.resultProposal) ∧
      (s.job.status = .completed → ∀ a ∈ s.attempts, a.active = false) := by
  have hsound : ∀ moves, Sound site (outline (reached site new world now moves)) := fun moves =>
    sound_inv (keeps site False) (sound_created new world now) moves fun _ _ h => h.elim
  have hextends := @reached_extends site new world now moves more
  constructor
  · intro hc
    obtain ⟨r, hr⟩ := isSome_iff_exists.mp ((hsound moves).completed.mp hc)
    have hr' := hextends.receipt r hr
    refine ⟨(hsound _).completed.mpr (isSome_iff_exists.mpr ⟨r, hr'⟩), hr'.trans hr.symm, ?_⟩
    exact (hextends.frozen (isSome_iff_ne_none.mp (isSome_iff_exists.mpr ⟨r, hr⟩))).2.2.2
  · exact fun hc a ha => (hsound moves).contained hc a.view (List.mem_map_of_mem ha)

end GrowTeam.Server
