/-
# Runs as entries into the ledger

Every step of a run writes entries into the ledger of the job, and what they are
remembered for is what happened.  `steps_of_history` reads the steps of a run as entries;
`past_of_history` carries an invariant about the ledger and what happened so far over all
of them.
-/
import GrowTeam.Server.Order

namespace GrowTeam.Server

open Interleaving Interleaving.Rules Ledger List

variable {site : Site} {c d : Ledger}

/-! ## The rules -/

/-- What holds of the ledger of every job. -/
structure Orderly (c : Ledger) : Prop where
  roster : Roster (c.attempts.map card) c.nextId
  crew : Crew c.status c.attempts
  untouched : Untouched c
  operationIds : (c.operations.map (·.operationId)).Nodup

variable {s s' : Store}

/-- Two attempts with one id are the same row. -/
theorem Orderly.attemptIds (h : Orderly (ledger s)) : (s.attempts.map (·.id)).Nodup := by
  have hids := h.roster.ids
  simp only [ledger, map_map] at hids
  exact hids

theorem Orderly.entry {m : Option Deed} (h : Orderly c) (he : Ledger.Entry site c m d) : Orderly d :=
  ⟨h.roster.entry he, h.crew.entry h.roster he, h.untouched.entry he,
    operationIds_entry h.operationIds he⟩

variable {l : List Deed}

theorem Orderly.entries (h : Orderly c) (he : Entries site c l d) : Orderly d := by
  induction he with
  | refl => exact h
  | tail _ he ih => exact ih.entry he

variable {J : Ledger → Prop} {t : Transaction} {α : Type} {e : Event Store Tag}

/-- What every entry keeps is kept by any number of them. -/
theorem Orderly.keeps
    (hentry : ∀ c m d, Orderly c → Ledger.Entry site c m d → J c → J d) (h : Orderly c)
    (he : Entries site c l d) (hJ : J c) : J d := by
  induction he with
  | refl => exact hJ
  | tail hrest he ih => exact hentry _ _ _ (h.entries hrest) he ih

/-- The rules of the ledger.  A routine knows of other steps only that they write entries. -/
def ordered (site : Site) : Rules Store Tag where
  inv s := Orderly (ledger s)
  guar s s' := ∃ l, Entries site (ledger s) l (ledger s')
  cond tag s := Outline.Sound site (outline s) ∧ Licensed site False tag s
  post tag s _ := Due tag.transaction (ledger s)

/-- A team operation that was begun stays begun while others move. -/
theorem stable_begun (id : Uuid) : (ordered site).Stable fun s => Begun (ledger s) id := by
  intro s s' ho _ ⟨l, hl⟩ hb
  exact ho.keeps (J := fun c => Begun c id) (fun c m d ho he hb => begun_entry ho.operationIds hb he)
    hl hb

/-! ## Routines -/

theorem perform_ordered {b : Bool} {P : Store → Prop}
    {Q : t.Answer → Store → Prop} (hst : (ordered site).Stable P)
    (hbegun : ∀ s lease operationId receipt, P s →
      t = .storeTeamReceipt lease operationId receipt → Begun (ledger s) operationId)
    (hQ : ∀ s a s', Orderly (ledger s) → t.run site s = .ok (a, s') → Q a s') :
    (ordered site).SoundE (perform site b t) P Q fun _ => P := by
  have hdue : ∀ s, P s → Licensed site False ⟨b, t⟩ s → Due t (ledger s) := by
    intro s hP hl
    refine ⟨fun lease id receipt ht => hbegun s lease id receipt hP ht, ?_⟩
    intro target reason park ht
    have hmem := hl.park target reason park ht
    simp only [refusals, mem_cons, not_mem_nil, Prod.mk.injEq, or_false] at hmem
    rcases hmem with ⟨rfl, -, -⟩ | ⟨rfl, -, -⟩ | ⟨rfl, -, -⟩ <;> simp
  refine .attempt (fun _ => hst) ?_ ?_
  · intro _ s a s' ho hP hcond hrun
    obtain ⟨hS, hl⟩ := hcond
    have hd := hdue s hP hl
    have hentries := run_entries hS hd hrun
    exact ⟨⟨ho.entries hentries, ⟨_, hentries⟩, hd⟩, hQ s a s' ho hrun⟩
  · intro _ s e ho hP hcond _
    exact ⟨⟨ho, ⟨[], .refl _⟩, hdue s hP hcond.2⟩, hP⟩

/-- A routine of which nothing more is asked. -/
def Calm (site : Site) {α : Type} (x : Program α) : Prop :=
  (ordered site).SoundE x (fun _ => True) (fun _ _ => True) fun _ _ => True

theorem Calm.pure (a : α) : Calm site (Pure.pure a : Program α) :=
  SoundE.pure fun _ _ _ => trivial

theorem Calm.throw (fault : Fault) : Calm site (MonadExcept.throw fault : Program α) :=
  SoundE.throw fun _ _ _ => trivial

theorem Calm.bind {α β : Type} {x : Program α} {f : α → Program β} (hx : Calm site x)
    (hf : ∀ a, Calm site (f a)) : Calm site (x >>= f) :=
  SoundE.bind hx hf

theorem Calm.tryCatch {x : Program α} {handler : Fault → Program α}
    (hx : Calm site x) (hh : ∀ e, Calm site (handler e)) :
    Calm site (MonadExcept.tryCatch x handler) :=
  SoundE.tryCatch hx hh

/-- The transactions that store no team receipt. -/
def receiptless : Transaction → Bool
  | .storeTeamReceipt .. => false
  | _ => true

theorem perform_calm {b : Bool} (ht : receiptless t = true) : Calm site (perform site b t) := by
  refine perform_ordered (stable_true _) ?_ fun _ _ _ _ _ => trivial
  rintro s lease id receipt - rfl
  cases ht

theorem afterCommit_calm (b : Bool) (edit : Option Edit) : Calm site (afterCommit site b edit) := by
  cases edit with
  | none => exact .pure ()
  | some edit => exact perform_calm rfl

theorem publishResultUnguarded_calm (b : Bool) : Calm site (publishResultUnguarded site b) := by
  refine .bind (perform_calm rfl) fun answer => ?_
  cases answer with
  | inl receipt => exact .pure receipt
  | inr proposal =>
    refine .bind (perform_calm rfl) fun artifacts => ?_
    refine .bind (perform_calm rfl) fun (receipt, edit) => ?_
    exact .bind (afterCommit_calm b edit) fun _ => .pure receipt

theorem handlePublication_calm (b : Bool) (fault : Fault) :
    Calm site (handlePublication site b fault) := by
  cases fault with
  | other => exact .pure ()
  | _ => exact perform_calm rfl

theorem publishResult_calm (b : Bool) : Calm site (publishResult site b) :=
  Calm.tryCatch (publishResultUnguarded_calm b) fun fault =>
    Calm.bind (handlePublication_calm b fault) fun _ => .throw fault

theorem deliverRow_calm (notifies : Bool) (key : DeliveryKey) :
    Calm site (deliverRow site notifies key) := by
  unfold deliverRow
  split
  · exact .bind (publishResult_calm true) fun _ => .pure true
  split
  · exact .bind (perform_calm rfl) fun _ => .pure true
  · exact perform_calm rfl

theorem reconcileRow_calm (notifies : Bool) (key : DeliveryKey) :
    Calm site (reconcileRow site notifies key) := by
  refine .bind (perform_calm rfl) fun taken => ?_
  split
  · refine .bind (.tryCatch (deliverRow_calm notifies key) fun _ => .pure false) ?_
    exact fun delivered => perform_calm rfl
  · exact .pure ()

theorem reconcileAgents_calm (reach : Reach) (notifies : Bool) :
    Calm site (reconcileAgents site reach notifies) := by
  refine .bind (perform_calm rfl) fun _ => ?_
  refine .bind (perform_calm rfl) fun keys => ?_
  exact .forM (I := fun _ _ => True) keys fun _ key _ _ => reconcileRow_calm notifies key

theorem streamDraft_calm (data : DraftText) : Calm site (streamDraft site data) := by
  refine .bind (perform_calm rfl) fun edit => ?_
  cases edit with
  | none => exact .pure ()
  | some edit =>
    refine .bind (perform_calm rfl) fun published => ?_
    split
    · exact .pure ()
    · exact perform_calm rfl

theorem recordThenPublish_calm (due : t.Answer → Bool)
    (ht : receiptless t = true) : Calm site (recordThenPublish site t due) := by
  refine .bind (perform_calm ht) fun answer => ?_
  split
  · exact .bind (publishResult_calm false) fun _ => .pure ()
  · exact .pure ()

variable (lease : LeaseIdentity)

theorem storeArtifact_calm (version : ℕ) (upload : Upload) :
    Calm site (storeArtifact site lease version upload) := by
  refine .bind (perform_calm rfl) fun _ => ?_
  refine .bind (perform_calm rfl) fun budget => ?_
  split
  · exact perform_calm rfl
  · exact .throw _

/-- The receipt of a team operation waits behind the start of that operation. -/
theorem storeReceipt_ordered (operationId : Uuid) (receipt : TeamReceipt) (n : ℕ) :
    (ordered site).SoundE (storeReceipt site lease operationId receipt n)
      (fun s => Begun (ledger s) operationId) (fun _ _ => True) fun _ _ => True := by
  have hstep : (ordered site).SoundE (perform site false (.storeTeamReceipt lease operationId receipt))
      (fun s => Begun (ledger s) operationId) (fun _ _ => True)
      fun _ s => Begun (ledger s) operationId := by
    refine perform_ordered (stable_begun operationId) ?_ fun _ _ _ _ _ => trivial
    intro s lease' id receipt' hb ht
    obtain ⟨-, rfl, -⟩ := Transaction.storeTeamReceipt.inj ht
    exact hb
  induction n with
  | zero => exact hstep.onError fun _ _ _ _ => trivial
  | succ n ih =>
    refine .tryCatch hstep fun fault => ?_
    split
    · exact ih
    · exact .throw fun _ _ _ => trivial

theorem startOperation_operations {lease : LeaseIdentity} {version : Option ℕ}
    {request : Consumption} (h : startOperation lease version request s = .ok s') :
    s'.operations = updateWhere (·.operationId = request.operationId) (fun o =>
      { o with status := .started, startedAt := some s.clock, version := o.version + 1 })
      s.operations := by
  simp only [startOperation, bind_eq_ok, one_eq_ok, pure_eq_ok] at h
  obtain ⟨a, -, o, hfind, -, -, -, -, -, -, -, -, s₁, hconsume, rfl⟩ := h
  have hid := find?_some hfind
  rw [Bool.and_eq_true, decide_eq_true_eq] at hid
  have hsame : s₁.operations = s.operations ∧ s₁.clock = s.clock := by
    unfold consumeApproval at hconsume
    split at hconsume
    · simp only [bind_eq_ok, pure_eq_ok] at hconsume
      obtain ⟨p, -, rfl⟩ := hconsume
      exact ⟨rfl, rfl⟩
    · rw [bind_eq_ok, pure_eq_ok] at hconsume
      obtain ⟨-, -, rfl⟩ := hconsume
      exact ⟨rfl, rfl⟩
  show updateWhere (·.operationId = o.operationId) (fun o =>
    { o with status := .started, startedAt := some s₁.clock, version := o.version + 1 })
    s₁.operations = _
  rw [hsame.1, hsame.2, hid.1]

/-- A start that answers left the operation begun. -/
theorem begun_of_ok {lease : LeaseIdentity} {version : ℕ} {request : Consumption}
    (ho : Orderly (ledger s))
    (h : beginTeamOperation lease version request s = .ok (true, s')) :
    Begun (ledger s') request.operationId := by
  simp only [beginTeamOperation, agentTransaction_eq_ok, bind_eq_ok, one_eq_ok, ensure_eq_ok]
    at h
  obtain ⟨-, -, -, a, hlock, o, hfind, -, hclass, h⟩ := h
  split at h
  · simp at h
  simp only [bind_eq_ok, ensure_eq_ok, pure_eq_ok, Prod.mk.injEq] at h
  obtain ⟨-, -, s₁, hstart, -, rfl⟩ := h
  have hp := find?_some hfind
  rw [Bool.and_eq_true, decide_eq_true_eq] at hp
  have hmem : o ∈ s.operations := mem_of_find?_eq_some hfind
  have hoperations := startOperation_operations hstart
  have hone : ∀ x ∈ s.operations, x.operationId = request.operationId → x = o :=
    fun x hx hid => eq_of_key ho.operationIds hx hmem (hid.trans hp.1.symm)
  show Begun (ledger s₁) request.operationId
  constructor
  · show ∃ x ∈ s₁.operations, _
    rw [hoperations]
    exact ⟨_, mem_updateWhere.mpr ⟨o, hmem, .inl ⟨by simpa using hp.1, rfl⟩⟩, hp.1⟩
  · show ∀ x ∈ s₁.operations, _
    rw [hoperations]
    intro y hy hid
    obtain ⟨x, hx, ⟨-, rfl⟩ | ⟨hne, rfl⟩⟩ := mem_updateWhere.mp hy
    · rw [hone x hx hid]
      exact ⟨hclass, by simp⟩
    · rw [decide_eq_false_iff_not] at hne
      exact absurd hid hne

theorem executeOperation_calm (version : ℕ) (request : Consumption)
    (receipt : TeamReceipt) : Calm site (executeOperation site lease version request receipt) := by
  have hbegin : (ordered site).SoundE
      (perform site false (.beginTeamOperation lease version request)) (fun _ => True)
      (fun begun s => begun = true → Begun (ledger s) request.operationId) fun _ _ => True := by
    refine perform_ordered (stable_true _) ?_ ?_
    · rintro s lease' id receipt' - ⟨⟩
    · rintro s begun s' ho hrun rfl
      exact begun_of_ok ho hrun
  refine SoundE.bind hbegin fun begun => ?_
  split
  · next hb =>
    exact (storeReceipt_ordered lease request.operationId receipt receiptRetries).pre
      fun s _ h => h hb
  · exact SoundE.pure fun _ _ _ => trivial

theorem program_calm (call : Call) : Calm site (program site call) := by
  cases call with
  | request t =>
    rw [program]
    split
    · next ht =>
      have hreceipt : receiptless t = true := by
        revert ht
        cases t <;> simp [standalone, receiptless]
      exact .bind (perform_calm hreceipt) fun _ => .pure ()
    · exact .pure ()
  | event event version | stopEvidence event => exact recordThenPublish_calm _ rfl
  | draft data => exact streamDraft_calm data
  | execute lease version request receipt =>
    exact executeOperation_calm lease version request receipt
  | artifact lease version upload => exact storeArtifact_calm lease version upload
  | reconcile reach notifies => exact reconcileAgents_calm reach notifies

/-! ## Runs -/

/-- **The server keeps the rules of the ledger.** -/
theorem keeps_ordered (site : Site) : (machine site).Keeps (ordered site) where
  routine call := (program_calm call).discard
  reboot _ h := h

variable {new : NewJob} {world : World} {now : Time} {moves : List (Move Call Unit)}

/-- A new job has nothing in its tables. -/
theorem ledger_created (new : NewJob) (world : World) (now : Time) :
    ledger (created new world now) =
      { clock := now, nextId := 1, revokedAt := none, status := (newJob new now).status,
        reason := (newJob new now).blockedReason, version := (newJob new now).version,
        stopTarget := (newJob new now).stopTarget,
        inputSequence := (newJob new now).inputSequence, attempts := [], inputs := [],
        operations := [], approvals := [], stops := fun _ => false } := by
  unfold created
  split
  · rfl
  · -- The wake-up is no stop.
    exact Ledger.ext rfl rfl rfl rfl rfl rfl rfl rfl rfl rfl rfl rfl rfl

theorem orderly_created (new : NewJob) (world : World) (now : Time) :
    Orderly (ledger (created new world now)) := by
  rw [ledger_created]
  refine ⟨⟨rfl, by simp, by simp, by simp, by simp⟩, ⟨.nil, by simp, ?_, by simp⟩, ?_, by simp⟩
  · intro hbusy
    exfalso
    revert hbusy
    show (newJob new now).status ∉ busyStatuses
    unfold newJob
    cases new.draft <;> cases new.needsAction <;> simp [busyStatuses]
  · exact fun _ => ⟨rfl, rfl⟩

/-- Every step of every run meets the rules of the ledger. -/
theorem ordered_of_history (he : e ∈ history site new world now moves) :
    Machine.Meets (ordered site) e := by
  refine Machine.sound_trace (keeps_ordered site) (orderly_created new world now) moves ?_ he
  intro f hf
  have hmeets := meets_of_history hf
  exact ⟨hmeets.pre, hmeets.owed.1⟩

/-- Whether a step of a run was accepted. -/
def accepted (site : Site) (e : Event Store Tag) : Bool :=
  match e.tag.transaction.run site e.pre with
  | .ok _ => true
  | .error _ => false

/-- An accepted step is what its transaction does. -/
theorem run_of_history (he : e ∈ history site new world now moves)
    (h : accepted site e = true) : ∃ a, e.tag.transaction.run site e.pre = .ok (a, e.post) := by
  refine run_of_accepted (meets_of_history he) ?_
  unfold accepted at h
  split at h
  · next r hr => exact ⟨r, hr⟩
  · cases h

theorem ran_of_history (he : e ∈ history site new world now moves) (h : accepted site e = true)
    {t : Transaction} (ht : e.tag.transaction = t) : ∃ a, t.run site e.pre = .ok (a, e.post) :=
  ht ▸ run_of_history he h

/-- What a step of a run is remembered for. -/
def deedsOf (site : Site) (e : Event Store Tag) : List Deed :=
  if accepted site e = true then deeds e.tag.transaction e.pre else []

theorem accepted_of_deed {deed : Deed} (h : deed ∈ deedsOf site e) :
    accepted site e = true ∧ deed.DoneBy e.tag.transaction e.pre := by
  unfold deedsOf at h
  split at h
  · next haccepted => exact ⟨haccepted, doneBy_of_mem h⟩
  · cases h

/-- A step that meets the rules writes entries into the ledger. -/
theorem entries_of_meets (hmeets : Machine.Meets (rules site False) e)
    (hordered : Machine.Meets (ordered site) e) :
    Entries site (ledger e.pre) (deedsOf site e) (ledger e.post) := by
  rcases hmeets.owed.2 with ⟨a, hrun⟩ | ⟨⟨fault, hrun⟩, hsame⟩
  · have haccepted : accepted site e = true := by simp [accepted, hrun]
    rw [deedsOf, if_pos haccepted]
    exact run_entries hmeets.pre hordered.owed hrun
  · have hrefused : accepted site e = false := by simp [accepted, hrun]
    rw [deedsOf, if_neg (by simp [hrefused]), hsame]
    exact .refl _

/-- **Every step of every run writes entries into the ledger.** -/
theorem entries_of_history (he : e ∈ history site new world now moves) :
    Entries site (ledger e.pre) (deedsOf site e) (ledger e.post) :=
  entries_of_meets (meets_of_history he) (ordered_of_history he)

/-- The entries of a run, up to each step and in all. -/
theorem entries_trace (new : NewJob) (world : World) (now : Time) (moves : List (Move Call Unit)) :
    Entries site (ledger (created new world now))
      ((history site new world now moves).flatMap (deedsOf site))
      (ledger (reached site new world now moves)) ∧
    ∀ past e later, history site new world now moves = past ++ e :: later →
      Entries site (ledger (created new world now)) (past.flatMap (deedsOf site)) (ledger e.pre) ∧
        Entries site (ledger (created new world now)) ((past ++ [e]).flatMap (deedsOf site))
          (ledger e.post) := by
  refine Machine.trace_past (M := machine site) (J := fun past s =>
    Entries site (ledger (created new world now)) (past.flatMap (deedsOf site)) (ledger s))
    (.idle (created new world now)) moves (.refl _) (fun _ _ h => h) ?_
  intro past e later h hentries
  have he : e ∈ history site new world now moves := by
    rw [history, h]
    simp
  rw [flatMap_append, flatMap_singleton]
  exact hentries.trans (entries_of_history he)

/-- **A run of the server is one of the ledger**, and what both are remembered for is the same. -/
theorem reached_refines (site : Site) (new : NewJob) (world : World) (now : Time)
    (moves : List (Move Call Unit)) : Entries site (ledger (created new world now))
      ((history site new world now moves).flatMap (deedsOf site))
      (ledger (reached site new world now moves)) :=
  (entries_trace new world now moves).1

/-- An invariant about the ledger and what happened so far holds before and after each step
of a run, when every entry keeps it. -/
theorem past_of_history {J : List Deed → Ledger → Prop}
    (hinit : J [] (ledger (created new world now)))
    (hentry : ∀ l c m d, Orderly c → Ledger.Entry site c m d → J l c → J (l ++ m.toList) d)
    {past later : List (Event Store Tag)}
    (h : history site new world now moves = past ++ e :: later) :
    J (past.flatMap (deedsOf site)) (ledger e.pre) ∧
      J ((past ++ [e]).flatMap (deedsOf site)) (ledger e.post) := by
  have hrun {c d : Ledger} {l : List Deed} (ho : Orderly c) (hJ : J [] c)
      (he : Entries site c l d) : J l d := by
    induction he with
    | refl => exact hJ
    | tail hrest he ih => exact hentry _ _ _ _ (ho.entries hrest) he ih
  have ho := orderly_created new world now
  exact ((entries_trace new world now moves).2 past e later h).imp (hrun ho hinit) (hrun ho hinit)

/-- So does one about the ledger alone. -/
theorem ledger_of_history (hinit : J (ledger (created new world now)))
    (hentry : ∀ c m d, Orderly c → Ledger.Entry site c m d → J c → J d) :
    ∀ e ∈ history site new world now moves, J (ledger e.pre) ∧ J (ledger e.post) := by
  intro e he
  obtain ⟨past, later, h⟩ := append_of_mem he
  exact past_of_history (J := fun _ c => J c) hinit (fun _ c m d => hentry c m d) h

/-- Two steps that are found in a run, with what lies between them. -/
theorem exists_split {R : α → α → Prop} {l : List α} (h : ¬ l.Pairwise fun a b => ¬ R a b) :
    ∃ past a mid b later, l = past ++ a :: (mid ++ b :: later) ∧ R a b := by
  simp only [pairwise_iff_forall_sublist, not_forall, not_not] at h
  obtain ⟨a, b, hsub, hR⟩ := h
  obtain ⟨front, back, rfl, ha, hb⟩ := cons_sublist_iff.mp hsub
  obtain ⟨past, between, rfl⟩ := append_of_mem ha
  obtain ⟨rest, later, rfl⟩ := append_of_mem (singleton_sublist.mp hb)
  exact ⟨past, a, between ++ rest, b, later, by simp, hR⟩

/-- What every entry keeps stays from one step of a run to every later one. -/
theorem stays_of_history (hentry : ∀ c m d, Orderly c → Ledger.Entry site c m d → J c → J d)
    {past mid later : List (Event Store Tag)} {e f : Event Store Tag}
    (h : history site new world now moves = past ++ e :: (mid ++ f :: later))
    (hJ : J (ledger e.post)) : J (ledger f.pre) ∧ J (ledger f.post) := by
  refine Machine.trace_since (M := machine site) (J := fun _ s => J (ledger s)) h hJ
    (fun _ _ hJ => hJ) ?_ rfl
  exact fun _ g hg hJ => (ordered_of_history hg).pre.keeps hentry (entries_of_history hg) hJ

/-! ## The attempts -/

/-- Attempts keep their places, and each what it keeps for good. -/
def Kept (c d : Ledger) : Prop := ∃ f, (∀ a, Held a (f a)) ∧ c.attempts.map f <+: d.attempts

theorem Kept.trans {e : Ledger} (h : Kept c d) (h' : Kept d e) : Kept c e := by
  obtain ⟨f, hf, hcd⟩ := h
  obtain ⟨g, hg, hde⟩ := h'
  refine ⟨g ∘ f, fun a => (hf a).trans (hg _), ?_⟩
  rw [← map_map]
  exact (hcd.map g).trans hde

theorem kept_entries (h : Entries site c l d) : Kept c d := by
  induction h with
  | refl => exact ⟨id, .refl, by simp⟩
  | tail _ he ih =>
    refine ih.trans ?_
    obtain ⟨-, ⟨f, hf, heq⟩ | ⟨a, -, -, -, -, heq⟩⟩ := he.attempts
    · exact ⟨f, hf, heq ▸ prefix_rfl⟩
    · exact ⟨id, .refl, by simp [heq]⟩

/-- **No attempt is taken back.**  As a run goes on, the attempts of the job stay in their
places, and no one that ended becomes active again. -/
theorem attempts_stay (site : Site) (new : NewJob) (world : World) (now : Time)
    (moves more : List (Move Call Unit)) :
    Kept (ledger (reached site new world now moves))
      (ledger (reached site new world now (moves ++ more))) :=
  reached_rel (R := fun s s' => Kept (ledger s) (ledger s')) new world now moves more
    (fun s => ⟨id, .refl, by simp⟩) (fun _ _ _ h h' => h.trans h')
    fun e he => kept_entries (entries_of_history he)

end GrowTeam.Server
