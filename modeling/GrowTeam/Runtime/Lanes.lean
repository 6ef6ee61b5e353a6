/-
# Which runtimes keep the budget

The requests of a contained runtime have reservations of their own in the ledger, which is within
the budget, so their sum is too.  The fast lane makes no reservations, looks at no size and at no
sum: a job on it is bound by neither limit, and the repetitions of the SDK do not ask whether the
attempt still has authority.
-/
import GrowTeam.Runtime.Spending
import Mathlib.Data.List.Perm.Subperm

namespace GrowTeam.Lanes

open History List Budgets Usage Journal
open Budgets (Answer ModelBroker Usage Log LogEntry Reserved used counted inputOf reservedOf settledOf
  outputOf inScope)

variable {fastLane : Bool} {jobs : String → Job} {p : Process} {log : Log} {n : ℕ}

/-! ## The rows of the ledger -/

/-- A row that the ledger has made with an id that was drawn before. -/
structure Decent (n : ℕ) (e : LogEntry) : Prop where
  id_lt : e.id < n
  kind : e.kind = "model-reservation"
  input : 0 ≤ inputOf e
  reserved : 0 ≤ reservedOf e
  settled : 0 ≤ settledOf e

theorem Decent.mono {e : LogEntry} (h : Decent n e) {m : ℕ} (hle : n ≤ m) : Decent m e :=
  { h with id_lt := Nat.lt_of_lt_of_le h.id_lt hle }

theorem Decent.output {e : LogEntry} (h : Decent n e) : 0 ≤ outputOf e := by
  unfold outputOf
  split
  · exact h.settled
  · exact h.reserved

theorem decent_reserve (h : ∀ e ∈ log.entries, Decent n e) (scope : String) (input : ℕ)
    {output : ℤ} (houtput : 0 ≤ output) (writes : ℕ) :
    ∀ e ∈ (reserve log scope input output n writes).2.entries, Decent (n + 1) e := by
  have hkeep : ∀ e ∈ log.entries, Decent (n + 1) e := fun e he => (h e he).mono (Nat.le_succ n)
  have hfree : log.get n = none :=
    get_eq_none.mpr fun e he hid => Nat.lt_irrefl n (hid ▸ (h e he).id_lt)
  have hinsert : ∀ e ∈ (log.insert (newEntry "model-reservation" n "local"
      (.reservation scope input output) "") hfree).entries, Decent (n + 1) e := by
    intro e he
    rcases mem_append.mp he with he | he
    · exact hkeep e he
    · rw [mem_singleton.mp he]
      exact ⟨Nat.lt_succ_self n, rfl, Int.natCast_nonneg input, houtput, Int.le_refl 0⟩
  unfold reserve
  split
  · exact hkeep
  · rw [prepare_of_none hfree]
    dsimp only
    split
    · exact hinsert
    · intro e he
      obtain ⟨old, hold, rfl⟩ := mem_map.mp he
      have hdecent := hinsert old hold
      split
      · dsimp only
        split
        · exact { hdecent with }
        · exact hdecent
      · exact hdecent

theorem decent_settle (h : ∀ e ∈ log.entries, Decent n e) (id : Uuid) (output : ℕ) (writes : ℕ) :
    ∀ e ∈ (settle log id output writes).entries, Decent n e := by
  unfold settle
  split
  · exact h
  · cases hcomplete : log.complete id (.settled output) with
    | error e => exact h
    | ok settled =>
      unfold complete at hcomplete
      split at hcomplete
      · cases hcomplete
      · split at hcomplete
        · cases hcomplete
        · cases hcomplete
          intro e he
          obtain ⟨old, hold, rfl⟩ := mem_map.mp he
          have hdecent := h old hold
          split
          · exact { hdecent with settled := Int.natCast_nonneg output }
          · exact hdecent

/-- What a piece of a turn does to the ledger, and where it leaves the turn before a request. -/
structure Piece (n : ℕ) (b : ModelBroker) (r : ModelBroker × Log) : Prop where
  decent : ∀ e ∈ r.2.entries, Decent (n + 1) e
  dispatching : ∀ a id, r.1.phase = .dispatching a id → id = n

theorem piece_stop (h : ∀ e ∈ log.entries, Decent n e) (b : ModelBroker) :
    Piece n b (b.stop, log) := by
  refine ⟨fun e he => (h e he).mono (Nat.le_succ n), fun a id hphase => ?_⟩
  cases hphase

theorem piece_caught (h : ∀ e ∈ log.entries, Decent n e) (b : ModelBroker) (budget : Budgets.Budget)
    (a : Budgets.Attempt) (failure : Budgets.Failure) : Piece n b (b.caught budget a failure, log) := by
  unfold ModelBroker.caught
  split
  · exact piece_stop h b
  · refine ⟨fun e he => (h e he).mono (Nat.le_succ n), fun a id hphase => ?_⟩
    cases hphase

variable {b : ModelBroker} {scope : String} {executions : List Execution} {q : Request}

theorem piece_resume {budget : Budgets.Budget} (hfits : Budgets.Fits budget log b)
    (h : ∀ e ∈ log.entries, Decent n e) (answer : Answer) :
    Piece n b (b.resume budget log { answer with uuid := n }) := by
  have hkeep : ∀ b' : ModelBroker, (∀ a id, b'.phase ≠ .dispatching a id) → Piece n b (b', log) :=
    fun b' hb' => ⟨fun e he => (h e he).mono (Nat.le_succ n), fun a id hphase' => absurd hphase' (hb' a id)⟩
  unfold ModelBroker.resume
  cases hphase : b.phase with
  | idle => exact hkeep b (by rw [hphase]; rintro a id ⟨⟩)
  | entering input =>
    dsimp only
    split
    · refine hkeep _ fun a id => ?_
      unfold ModelBroker.enter
      dsimp only
      split
      · rintro ⟨⟩
      · split
        · rintro ⟨⟩
        · split
          · rintro ⟨⟩
          · rintro ⟨⟩
    · exact piece_stop h b
  | checking a =>
    dsimp only
    split
    · unfold ModelBroker.dispatch
      split
      · exact piece_stop h b
      · have hlimit := (hfits.limit a (by rw [hphase]; rfl)).1
        have hdecent := decent_reserve h b.scope a.input hlimit answer.writes
        split
        · next log' hreserve =>
          rw [hreserve] at hdecent
          exact ⟨hdecent, by rintro a id ⟨⟩⟩
        · next log' hreserve =>
          rw [hreserve] at hdecent
          refine ⟨hdecent, fun a' id hphase' => ?_⟩
          exact (Budgets.Phase.dispatching.inj hphase').2.symm
    · exact piece_stop h b
  | dispatching a r =>
    dsimp only
    split
    · exact piece_caught h b budget a _
    · split
      · exact hkeep _ (by rintro a id ⟨⟩)
      · exact piece_stop h b
  | waiting a r =>
    dsimp only
    split
    · exact piece_caught h b budget a _
    · exact hkeep _ (by rintro a id ⟨⟩)
  | received a r outputTokens =>
    dsimp only
    split
    · exact piece_stop h b
    · split
      · exact piece_caught h b budget a _
      · unfold ModelBroker.finish
        split
        · exact piece_stop h b
        · split
          · exact piece_stop h b
          · refine ⟨fun e he => ?_, by rintro a id ⟨⟩⟩
            exact (decent_settle h r _ _ e he).mono (Nat.le_succ n)
  | backoff a =>
    dsimp only
    split
    · exact hkeep _ (by rintro a id ⟨⟩)
    · exact piece_stop h b

/-! ## Requests and reservations -/

/-- The sum over rows that are not negative grows with the rows. -/
theorem sum_sublist {rows rows' : List LogEntry} (h : rows.Sublist rows')
    (hinput : ∀ e ∈ rows', 0 ≤ inputOf e) (houtput : ∀ e ∈ rows', 0 ≤ outputOf e) :
    (rows.foldl add ⟨0, 0⟩).Le (rows'.foldl add ⟨0, 0⟩) := by
  induction h with
  | slnil => exact Usage.Le.refl _
  | cons e _ ih =>
    have hrest := ih (fun x hx => hinput x (mem_cons_of_mem _ hx))
      fun x hx => houtput x (mem_cons_of_mem _ hx)
    have hin := hinput e mem_cons_self
    have hout := houtput e mem_cons_self
    rw [foldl_cons, foldl_add (u := add ⟨0, 0⟩ e)]
    simp only [Usage.Le, add] at hrest ⊢
    omega
  | cons_cons e _ ih =>
    have hrest := ih (fun x hx => hinput x (mem_cons_of_mem _ hx))
      fun x hx => houtput x (mem_cons_of_mem _ hx)
    rw [foldl_cons, foldl_cons, foldl_add, foldl_add (u := add ⟨0, 0⟩ e)]
    simp only [Usage.Le] at hrest ⊢
    omega

theorem sum_perm {rows rows' : List LogEntry} (h : rows.Perm rows') :
    rows.foldl add ⟨0, 0⟩ = rows'.foldl add ⟨0, 0⟩ := by
  refine h.foldl_eq' (fun e _ e' _ total => ?_) (⟨0, 0⟩ : Usage)
  simp only [add, Int.add_assoc, Int.add_comm (inputOf e), Int.add_comm (outputOf e)]

/-- A request has a reservation of this size. -/
def Request.Reserved (log : Log) (q : Request) : Prop :=
  ∃ id, q.reservation = some id ∧ Budgets.Reserved log id q.scope q.input q.limit

/-- No reservation is for both. -/
def Apart (q q' : Request) : Prop := ∀ id, q.reservation = some id → q'.reservation ≠ some id

/-- The rows of some requests. -/
def rowsOf (log : Log) (requests : List Request) : List LogEntry :=
  requests.filterMap fun q => q.reservation.bind log.get

theorem cost_eq_sum (requests : List Request) (h : ∀ q ∈ requests, q.Reserved log) :
    cost log requests = (rowsOf log requests).foldl add ⟨0, 0⟩ := by
  unfold cost rowsOf
  generalize (⟨0, 0⟩ : Usage) = total
  induction requests generalizing total with
  | nil => rfl
  | cons q requests ih =>
    obtain ⟨id, hid, e, he, hrequest⟩ := h q mem_cons_self
    have hrow : q.reservation.bind log.get = some e := by rw [hid, Option.bind_some, he]
    have hinput : inputOf e = q.input := by rw [inputOf, hrequest]
    rw [foldl_cons, ih (fun q hq => h q (mem_cons_of_mem _ hq)),
      filterMap_cons_some (f := fun q : Request => q.reservation.bind log.get) hrow,
      foldl_cons, add, Request.output, hrow, hinput]

/-- **Requests cost no more than the ledger says.** -/
theorem cost_le_used {requests : List Request}
    (hlog : ∀ e ∈ log.entries, Decent n e) (hreserved : ∀ q ∈ requests, q.Reserved log)
    (hscope : ∀ q ∈ requests, q.scope = scope) (hapart : requests.Pairwise Apart) :
    (cost log requests).Le (used log scope) := by
  have hmem : ∀ e ∈ rowsOf log requests, e ∈ counted scope log.entries := by
    intro e he
    obtain ⟨q, hq, hrow⟩ := mem_filterMap.mp he
    obtain ⟨id, hid, e', he', hrequest⟩ := hreserved q hq
    rw [hid, Option.bind_some, he'] at hrow
    obtain rfl := Option.some.inj hrow
    have hin := (get_eq_some.mp he').1
    refine mem_filter.mpr ⟨mem_filter.mpr ⟨hin, decide_eq_true (hlog e' hin).kind⟩, ?_⟩
    rw [inScope, hrequest]
    exact decide_eq_true (hscope q hq)
  have hnodup : (rowsOf log requests).Nodup := by
    refine List.Pairwise.filterMap _ ?_ hapart
    intro q q' hqq e he e' he' hsame
    subst hsame
    obtain ⟨id, hid, hget⟩ := Option.bind_eq_some_iff.mp he
    obtain ⟨id', hid', hget'⟩ := Option.bind_eq_some_iff.mp he'
    have hsameId : id = id' := (get_id hget).symm.trans (get_id hget')
    exact hqq id hid (hsameId ▸ hid')
  obtain ⟨rows, hperm, hsub⟩ := hnodup.subperm hmem
  rw [cost_eq_sum requests hreserved, ← sum_perm hperm]
  have hdecent : ∀ e ∈ counted scope log.entries, Decent n e :=
    fun e he => hlog e (mem_of_mem_filter (mem_of_mem_filter he))
  exact sum_sublist hsub (fun e he => (hdecent e he).input) fun e he => (hdecent e he).output

/-! ## Runs -/

/-- What holds of every state. -/
structure Tied (fastLane : Bool) (jobs : String → Job) (p : Process) : Prop where
  sound : Budgets.Sound (fun scope => (jobs scope).budget) p.models
  log : ∀ e ∈ p.models.log.entries, Decent p.drawn e
  length : p.executions.length = p.models.brokers.length
  /-- Only jobs of the fast lane have an `AnthropicRuntime`. -/
  lane : ∀ (i : ℕ) e b, p.executions[i]? = some e → p.models.brokers[i]? = some b →
    e.anthropic.isSome = true → (jobs b.scope).runtime fastLane = .anthropic
  /-- A reservation that waits for its request has no other. -/
  free : ∀ (i : ℕ) b a id, p.models.brokers[i]? = some b → b.phase = .dispatching a id →
    id < p.drawn ∧ ∀ q ∈ p.requests, q.reservation ≠ some id
  one : ∀ (i j : ℕ) b c a a' id, p.models.brokers[i]? = some b → p.models.brokers[j]? = some c →
    b.phase = .dispatching a id → c.phase = .dispatching a' id → i = j
  apart : p.requests.Pairwise Apart
  request : ∀ q ∈ p.requests,
    (q.Reserved p.models.log ∧ q.startedAt < q.deadline ∧ q.aborted = false) ∨
      (q.reservation = none ∧ (jobs q.scope).runtime fastLane = .anthropic)

theorem tied_start : Tied fastLane jobs .start where
  sound := sound_fresh _
  log := by rintro e ⟨⟩
  length := rfl
  lane := by rintro i e b ⟨⟩
  free := by rintro i b a id ⟨⟩
  one := by rintro i j b c a a' id ⟨⟩
  apart := .nil
  request := by rintro q ⟨⟩

/-- A change that neither the ledger nor the requests see. -/
theorem Tied.change (h : Tied fastLane jobs p) {models : Budgets.State}
    (hsound : Budgets.Sound (fun scope => (jobs scope).budget) models)
    (hlog : models.log = p.models.log) (hlength : executions.length = models.brokers.length)
    (hbroker : ∀ (i : ℕ) b, models.brokers[i]? = some b → ∃ b₀, p.models.brokers[i]? = some b₀ ∧
      b.scope = b₀.scope ∧ ∀ a id, b.phase = .dispatching a id → b₀.phase = .dispatching a id)
    (hexecution : ∀ (i : ℕ) e, executions[i]? = some e → ∃ e₀, p.executions[i]? = some e₀ ∧
      (e.anthropic.isSome = true → e₀.anthropic.isSome = true)) (now : ℕ) :
    Tied fastLane jobs { p with models := models, executions := executions, now := now } where
  sound := hsound
  log := by
    rw [hlog]
    exact h.log
  length := hlength
  lane := by
    intro i e b he hb hsome
    obtain ⟨e₀, he₀, hkind⟩ := hexecution i e he
    obtain ⟨b₀, hb₀, hscope, -⟩ := hbroker i b hb
    rw [hscope]
    exact h.lane i e₀ b₀ he₀ hb₀ (hkind hsome)
  free := by
    intro i b a id hb hphase
    obtain ⟨b₀, hb₀, -, hsame⟩ := hbroker i b hb
    exact h.free i b₀ a id hb₀ (hsame a id hphase)
  one := by
    intro i j b c a a' id hb hc hphase hphase'
    obtain ⟨b₀, hb₀, -, hsame⟩ := hbroker i b hb
    obtain ⟨c₀, hc₀, -, hsame'⟩ := hbroker j c hc
    exact h.one i j b₀ c₀ a a' id hb₀ hc₀ (hsame a id hphase) (hsame' a' id hphase')
  apart := h.apart
  request := by
    rw [hlog]
    exact h.request

/-- The brokers that one of them has changed in. -/
theorem place_modify {brokers : List ModelBroker} {f : ModelBroker → ModelBroker} (i : ℕ)
    (hf : ∀ b, (f b).scope = b.scope ∧
      ∀ a id, (f b).phase = .dispatching a id → b.phase = .dispatching a id) :
    ∀ (k : ℕ) b, (brokers.modify i f)[k]? = some b → ∃ b₀, brokers[k]? = some b₀ ∧
      b.scope = b₀.scope ∧ ∀ a id, b.phase = .dispatching a id → b₀.phase = .dispatching a id := by
  intro k b hb
  rw [getElem?_modify] at hb
  obtain ⟨b₀, hb₀, rfl⟩ := Option.map_eq_some_iff.mp hb
  refine ⟨b₀, hb₀, ?_⟩
  split
  · exact hf b₀
  · exact ⟨rfl, fun _ _ hphase => hphase⟩

theorem execution_refl : ∀ (i : ℕ) e, executions[i]? = some e → ∃ e₀, executions[i]? = some e₀ ∧
      (e.anthropic.isSome = true → e₀.anthropic.isSome = true) :=
  fun _ e he => ⟨e, he, fun hsome => hsome⟩

theorem broker_refl {brokers : List ModelBroker} :
    ∀ (i : ℕ) b, brokers[i]? = some b → ∃ b₀, brokers[i]? = some b₀ ∧ b.scope = b₀.scope ∧
      ∀ a id, b.phase = .dispatching a id → b₀.phase = .dispatching a id :=
  fun _ b hb => ⟨b, hb, rfl, fun _ _ hphase => hphase⟩

theorem execution_set {i : ℕ} {e e' : Execution}
    (he : executions[i]? = some e) (hsome : e'.anthropic.isSome = true → e.anthropic.isSome = true) :
    ∀ (k : ℕ) x, (executions.set i e')[k]? = some x → ∃ e₀, executions[k]? = some e₀ ∧
      (x.anthropic.isSome = true → e₀.anthropic.isSome = true) := by
  intro k x hx
  rw [getElem?_set] at hx
  split at hx
  · next hk =>
    subst hk
    split at hx
    · cases hx
      exact ⟨e, he, hsome⟩
    · cases hx
  · exact ⟨x, hx, fun h => h⟩

section

variable (h : Tied fastLane jobs p)

include h

theorem Tied.abort (i : ℕ) :
    Tied fastLane jobs { p with models := modelStep jobs (.abort i) p.models } := by
  refine h.change (sound_step _ _ _ h.sound) rfl ?_ ?_ execution_refl p.now
  · show p.executions.length = (p.models.brokers.modify i _).length
    rw [length_modify]
    exact h.length
  · exact place_modify i fun b => ⟨rfl, fun _ _ hphase => hphase⟩

theorem Tied.turn (i input : ℕ) :
    Tied fastLane jobs { p with models := modelStep jobs (.turn i input) p.models } := by
  refine h.change (sound_step _ _ _ h.sound) rfl ?_ ?_ execution_refl p.now
  · show p.executions.length = (p.models.brokers.modify i _).length
    rw [length_modify]
    exact h.length
  · refine place_modify i fun b => ?_
    split
    · exact ⟨rfl, by rintro a id ⟨⟩⟩
    · exact ⟨rfl, fun _ _ hphase => hphase⟩

theorem Tied.execute (scope : String) (attemptDeadline : ℕ) :
    Tied fastLane jobs (execute fastLane jobs scope attemptDeadline p) := by
  unfold Lanes.execute
  split
  · next hfree =>
    have hbrokers : (modelStep jobs (.create scope (jobs scope).provider) p.models).brokers =
        p.models.brokers ++ [⟨scope, (jobs scope).provider, false, 0, 0, 0, .idle, 0⟩] := by
      unfold modelStep
      rw [Budgets.step, if_pos hfree]
    have hlog : (modelStep jobs (.create scope (jobs scope).provider) p.models).log =
        p.models.log := by
      unfold modelStep
      rw [Budgets.step, if_pos hfree]
    have hplace : ∀ (i : ℕ) b,
        (modelStep jobs (.create scope (jobs scope).provider) p.models).brokers[i]? = some b →
        p.models.brokers[i]? = some b ∨ (i = p.models.brokers.length ∧ b.scope = scope ∧
          b.phase = .idle) := by
      intro i b hb
      rw [hbrokers, getElem?_append] at hb
      split at hb
      · exact .inl hb
      · rw [getElem?_singleton] at hb
        split at hb
        · cases hb
          exact .inr ⟨by omega, rfl, rfl⟩
        · cases hb
    have hdispatching : ∀ (i : ℕ) b a id,
        (modelStep jobs (.create scope (jobs scope).provider) p.models).brokers[i]? = some b →
        b.phase = .dispatching a id → p.models.brokers[i]? = some b := by
      intro i b a id hb hphase
      rcases hplace i b hb with hb | ⟨-, -, hidle⟩
      · exact hb
      · rw [hidle] at hphase
        cases hphase
    exact {
      sound := sound_step _ _ _ h.sound
      log := by
        rw [hlog]
        exact h.log
      length := by
        rw [hbrokers, List.length_append, List.length_append, h.length]
        rfl
      lane := by
        intro i e b he hb hsome
        have hlength := h.length
        rw [getElem?_append] at he
        split at he
        · next hlt =>
          rcases hplace i b hb with hb | ⟨rfl, -⟩
          · exact h.lane i e b he hb hsome
          · omega
        · next hge =>
          rcases hplace i b hb with hb | ⟨-, hscope, -⟩
          · have hlt := (List.getElem?_eq_some_iff.mp hb).1
            omega
          · rw [getElem?_singleton] at he
            split at he
            · cases he
              rw [hscope]
              split at hsome
              · assumption
              · cases hsome
            · cases he
      free := fun i b a id hb hphase => h.free i b a id (hdispatching i b a id hb hphase) hphase
      one := fun i j b c a a' id hb hc hphase hphase' =>
        h.one i j b c a a' id (hdispatching i b a id hb hphase) (hdispatching j c a' id hc hphase')
          hphase hphase'
      apart := h.apart
      request := by
        rw [hlog]
        exact h.request }
  · exact h

/-- A request of the fast lane. -/
theorem Tied.made (hnone : q.reservation = none)
    (hfast : (jobs q.scope).runtime fastLane = .anthropic) :
    Tied fastLane jobs { p with requests := p.requests ++ [q] } := { h with
  free := by
    intro i b a id hb hphase
    obtain ⟨hlt, hfree⟩ := h.free i b a id hb hphase
    refine ⟨hlt, fun q' hq' => ?_⟩
    rcases mem_append.mp hq' with hq' | hq'
    · exact hfree q' hq'
    · rw [mem_singleton.mp hq', hnone]
      rintro ⟨⟩
  apart := by
    refine pairwise_append.mpr ⟨h.apart, pairwise_singleton _ _, fun q' _ q'' hq'' => ?_⟩
    rw [mem_singleton.mp hq'']
    intro id _
    rw [hnone]
    rintro ⟨⟩
  request := by
    intro q' hq'
    rcases mem_append.mp hq' with hq' | hq'
    · exact h.request q' hq'
    · rw [mem_singleton.mp hq']
      exact .inr ⟨hnone, hfast⟩ }

end

/-- A request is made by a turn that waited for it with authority. -/
theorem madeRequest_resume {budget : Budgets.Budget} {answer : Answer}
    {a : Budgets.Attempt} {id : Uuid}
    (h : madeRequest b (b.resume budget log answer).1 = some (a, id)) :
    b.phase = .dispatching a id ∧ answer.current = true ∧ b.aborted = false := by
  unfold madeRequest at h
  cases hphase : b.phase with
  | dispatching a' id' =>
    unfold ModelBroker.resume at h
    rw [hphase] at h
    dsimp only at h
    cases hfailure : answer.failure with
    | some failure =>
      rw [hfailure] at h
      dsimp only [ModelBroker.caught] at h
      split at h
      · next hwaiting =>
        split at hwaiting
        · cases hwaiting
        · cases hwaiting
      · cases h
    | none =>
      rw [hfailure] at h
      by_cases hcurrent : (answer.current && !b.aborted) = true
      · rw [if_pos hcurrent] at h
        cases h
        rw [Bool.and_eq_true, Bool.not_eq_true'] at hcurrent
        exact ⟨rfl, hcurrent⟩
      · rw [if_neg hcurrent] at h
        cases h
  | _ =>
    rw [hphase] at h
    cases h

/-- A turn that has made its request waits for the answer. -/
theorem not_dispatching_of_made {b b' : ModelBroker} {r : Budgets.Attempt × Uuid}
    (h : madeRequest b b' = some r) (a : Budgets.Attempt) (id : Uuid) :
    b'.phase ≠ .dispatching a id := by
  intro hphase
  unfold madeRequest at h
  rw [hphase] at h
  split at h
  · next hwaiting => cases hwaiting
  · cases h

theorem Request.Reserved.mono {log' : Log} (h : q.Reserved log)
    (hlog : Journal.Extends log log') : q.Reserved log' := by
  obtain ⟨id, hid, hreserved⟩ := h
  exact ⟨id, hid, hreserved.mono hlog⟩

section

variable (h : Tied fastLane jobs p)

include h

theorem Tied.reservation_lt (hq : q ∈ p.requests) {id : Uuid}
    (hid : q.reservation = some id) : id < p.drawn := by
  rcases h.request q hq with ⟨⟨id', hid', e, he, -⟩, -⟩ | ⟨hnone, -⟩
  · cases hid.symm.trans hid'
    obtain ⟨hmem, rfl⟩ := get_eq_some.mp he
    exact (h.log e hmem).id_lt
  · rw [hid] at hnone
    cases hnone

/-- A piece of a turn, with the requests it makes. -/
theorem Tied.piece {i : ℕ} {b b' : ModelBroker} {log' : Log}
    {requests : List Request} (hb : p.models.brokers[i]? = some b)
    (hsound : Budgets.Sound (fun scope => (jobs scope).budget) ⟨log', p.models.brokers.set i b'⟩)
    (hextends : Journal.Extends p.models.log log') (hscope : b'.scope = b.scope)
    (hpiece : Piece p.drawn b (b', log'))
    (hrequests : ∀ q ∈ requests, ∃ a id, b.phase = .dispatching a id ∧ requests = [q] ∧
      q.reservation = some id ∧ (∀ a id, b'.phase ≠ .dispatching a id) ∧ q.Reserved p.models.log ∧
        q.startedAt < q.deadline ∧ q.aborted = false) :
    Tied fastLane jobs { p with
      models := ⟨log', p.models.brokers.set i b'⟩
      drawn := p.drawn + 1
      requests := p.requests ++ requests } := by
  exact {
    sound := hsound
    log := hpiece.decent
    length := by
      rw [length_set]
      exact h.length
    lane := by
      intro k e c he hc hsome
      rcases getElem?_set_cases hc with ⟨rfl, rfl⟩ | ⟨-, hc⟩
      · rw [hscope]
        exact h.lane k e b he hb hsome
      · exact h.lane k e c he hc hsome
    free := by
      intro k c a id hc hphase
      rcases getElem?_set_cases hc with ⟨rfl, rfl⟩ | ⟨hne, hc⟩
      · obtain rfl := hpiece.dispatching a id hphase
        refine ⟨Nat.lt_succ_self _, fun q hq hid => ?_⟩
        rcases mem_append.mp hq with hq | hq
        · exact Nat.lt_irrefl _ (h.reservation_lt hq hid)
        · obtain ⟨-, -, -, -, -, hnot, -⟩ := hrequests q hq
          exact hnot a _ hphase
      · obtain ⟨hlt, hfree⟩ := h.free k c a id hc hphase
        refine ⟨Nat.lt_succ_of_lt hlt, fun q hq hid => ?_⟩
        rcases mem_append.mp hq with hq | hq
        · exact hfree q hq hid
        · obtain ⟨a', id', hphase', -, hid', -⟩ := hrequests q hq
          cases hid.symm.trans hid'
          exact hne (h.one k i c b a a' id hc hb hphase hphase')
    one := by
      intro k l c c' a a' id hc hc' hphase hphase'
      rcases getElem?_set_cases hc with ⟨rfl, rfl⟩ | ⟨-, hold⟩
      · rcases getElem?_set_cases hc' with ⟨rfl, -⟩ | ⟨-, hold'⟩
        · rfl
        · have hlt := (h.free l c' a' id hold' hphase').1
          rw [hpiece.dispatching a id hphase] at hlt
          exact absurd hlt (Nat.lt_irrefl _)
      · rcases getElem?_set_cases hc' with ⟨rfl, rfl⟩ | ⟨-, hold'⟩
        · have hlt := (h.free k c a id hold hphase).1
          rw [hpiece.dispatching a' id hphase'] at hlt
          exact absurd hlt (Nat.lt_irrefl _)
        · exact h.one k l c c' a a' id hold hold' hphase hphase'
    apart := by
      refine pairwise_append.mpr ⟨h.apart, ?_, fun q hq q' hq' id hid hid' => ?_⟩
      · cases requests with
        | nil => exact .nil
        | cons q rest =>
          obtain ⟨-, -, -, hone, -⟩ := hrequests q mem_cons_self
          rw [hone]
          exact pairwise_singleton _ _
      · obtain ⟨a, id', hphase, -, hid'', -⟩ := hrequests q' hq'
        cases hid'.symm.trans hid''
        exact (h.free i b a id hb hphase).2 q hq hid
    request := by
      intro q hq
      rcases mem_append.mp hq with hq | hq
      · exact (h.request q hq).imp_left fun hold => ⟨hold.1.mono hextends, hold.2⟩
      · obtain ⟨-, -, -, -, -, -, hreserved, hin⟩ := hrequests q hq
        exact .inl ⟨hreserved.mono hextends, hin⟩ }

theorem Tied.resume (i : ℕ) (answer : Answer) (e : Execution) :
    Tied fastLane jobs (resume jobs i answer e p) := by
  unfold Lanes.resume
  dsimp only
  generalize hanswer : ({ answer with
    current := answer.current && decide (p.now < e.deadline), uuid := p.drawn } : Answer) = answer'
  have hdrawn : { answer' with uuid := p.drawn } = answer' := by rw [← hanswer]
  have hcurrent : answer'.current = true → p.now < e.deadline := by
    rw [← hanswer]
    intro h
    exact of_decide_eq_true (Bool.and_eq_true_iff.mp h).2
  have hsound := sound_step (fun scope => (jobs scope).budget) (.resume i answer') p.models h.sound
  cases hb : p.models.brokers[i]? with
  | none =>
    have hsame : modelStep jobs (.resume i answer') p.models = p.models := by
      unfold modelStep
      rw [Budgets.step, hb]
    rw [hsame]
    rw [append_nil]
    exact { h with
      log := fun e he => (h.log e he).mono (Nat.le_succ _)
      free := fun k c a id hc hphase =>
        ⟨Nat.lt_succ_of_lt (h.free k c a id hc hphase).1, (h.free k c a id hc hphase).2⟩ }
  | some b =>
    have hfits := h.sound.fits b (mem_of_getElem? hb)
    have hturned := hfits.turned answer'
    have hpiece := piece_resume hfits h.log answer'
    rw [hdrawn] at hpiece
    generalize hr : b.resume (jobs b.scope).budget p.models.log answer' = r at hturned hpiece
    have hmodels : modelStep jobs (.resume i answer') p.models =
        ⟨r.2, p.models.brokers.set i r.1⟩ := by
      unfold modelStep
      rw [Budgets.step, hb]
      dsimp only
      rw [hr]
    have hset : (p.models.brokers.set i r.1)[i]? = some r.1 :=
      getElem?_set_self (List.getElem?_eq_some_iff.mp hb).1
    have hsound' : Budgets.Sound (fun scope => (jobs scope).budget)
        ⟨r.2, p.models.brokers.set i r.1⟩ := hmodels ▸ hsound
    rw [hmodels, hset]
    dsimp only
    refine h.piece hb hsound' hturned.extends' hturned.scope hpiece ?_
    cases hmade : madeRequest b r.1 with
    | none => rintro q ⟨⟩
    | some made =>
      obtain ⟨a, id⟩ := made
      obtain ⟨hphase, hnow, hlive⟩ := madeRequest_resume (hr ▸ hmade)
      intro q hq
      obtain rfl := mem_singleton.mp hq
      refine ⟨a, id, hphase, rfl, rfl, not_dispatching_of_made hmade, ⟨id, rfl, ?_⟩,
        hcurrent hnow, hlive⟩
      exact hfits.reserved a id (by rw [hphase]; rfl)

theorem Tied.reply {i : ℕ} (answer : Reply) {e : Execution} {r : AnthropicRuntime} (he : p.executions[i]? = some e)
    (hb : p.models.brokers[i]? = some b) (hr : e.anthropic = some r) :
    Tied fastLane jobs (reply jobs i answer e b r p) := by
  unfold Lanes.reply
  dsimp only
  generalize r.resume (jobs b.scope) (answer.current && !b.aborted && decide (p.now < e.deadline))
    answer = resumed
  have hset : ∀ (k : ℕ) x, (p.executions.set i { e with anthropic := some resumed.1 })[k]? = some x →
      ∃ e₀, p.executions[k]? = some e₀ ∧ (x.anthropic.isSome = true → e₀.anthropic.isSome = true) :=
    execution_set he fun _ => by rw [hr]; rfl
  have hchange := h.change h.sound rfl (by rw [length_set]; exact h.length) broker_refl hset p.now
  split
  · exact hchange.made rfl (h.lane i e b he hb (by rw [hr]; rfl))
  · rw [append_nil]
    exact hchange

theorem Tied.step (input : Input) : Tied fastLane jobs (Lanes.step fastLane jobs input p).2 := by
  cases input with
  | execute scope attemptDeadline => exact h.execute scope attemptDeadline
  | wait ms => exact h.change h.sound rfl h.length broker_refl execution_refl (p.now + ms)
  | expire i =>
    dsimp only [Lanes.step]
    split
    · exact h
    · split
      · exact h.abort i
      · exact h
  | stop i =>
    refine (h.abort i).change (h.abort i).sound rfl ?_ broker_refl ?_ p.now
    · rw [length_modify]
      exact (h.abort i).length
    · intro k e he
      rw [getElem?_modify] at he
      obtain ⟨e₀, he₀, rfl⟩ := Option.map_eq_some_iff.mp he
      refine ⟨e₀, he₀, fun hsome => ?_⟩
      split at hsome
      · rwa [Option.isSome_map] at hsome
      · exact hsome
  | turn i input =>
    dsimp only [Lanes.step]
    split
    · exact h
    · split
      · exact h
      · exact h.turn i input
  | resume i answer =>
    dsimp only [Lanes.step]
    split
    · exact h
    · next e he => exact h.resume i answer e
  | sendTurn i bytes =>
    dsimp only [Lanes.step]
    split
    · next e b he hb =>
      split
      · exact h
      · refine h.change h.sound rfl (by rw [length_set]; exact h.length) broker_refl ?_ p.now
        refine execution_set he fun hsome => ?_
        rwa [Option.isSome_map] at hsome
    · exact h
  | reply i answer =>
    dsimp only [Lanes.step]
    split
    · next e b he hb =>
      split
      · exact h
      · next r hr => exact h.reply answer he hb hr
    · exact h
  | crash =>
    refine h.change (sound_step _ _ _ h.sound) rfl rfl ?_ ?_ p.now
    · rintro i b ⟨⟩
    · rintro i e ⟨⟩

end

theorem tied_run (fastLane : Bool) (jobs : String → Job) (inputs : List Input) :
    Tied fastLane jobs (run (step fastLane jobs) .start inputs) :=
  (history_inv (step fastLane jobs) .start inputs tied_start fun input _ h => h.step input).1

theorem runtime_eq_anthropic {d : Job} :
    d.runtime fastLane = .anthropic ↔ d.jobKind = .answer ∧ fastLane = true := by
  unfold Job.runtime
  split
  · next h => exact iff_of_true rfl h
  · next h =>
    refine iff_of_false ?_ h
    split
    · rintro ⟨⟩
    · rintro ⟨⟩

theorem Tied.keepsBudget (h : Tied fastLane jobs p)
    (hlane : (jobs scope).runtime fastLane ≠ .anthropic) : KeepsBudget (jobs scope) scope p := by
  have hscope : ∀ q ∈ p.of scope, q.scope = scope :=
    fun q hq => of_decide_eq_true (mem_filter.mp hq).2
  have hrequest : ∀ q ∈ p.of scope,
      q.Reserved p.models.log ∧ q.startedAt < q.deadline ∧ q.aborted = false := by
    intro q hq
    refine (h.request q (mem_of_mem_filter hq)).resolve_right ?_
    rintro ⟨-, hfast⟩
    rw [hscope q hq] at hfast
    exact hlane hfast
  have hcost := cost_le_used h.log (fun q hq => (hrequest q hq).1) hscope
    (h.apart.sublist filter_sublist)
  have hwithin := h.sound.within scope
  exact ⟨Int.le_trans hcost.1 hwithin.1, Int.le_trans hcost.2 hwithin.2,
    fun q hq => (hrequest q hq).2⟩

/-! ## The fast lane -/

/-- A talk on the fast lane that has made so many requests. -/
structure Talking (jobs : String → Job) (scope : String) (n : ℕ) (p : Process) : Prop where
  execution : ∃ deadline r, p.executions = [⟨deadline, some r⟩] ∧ p.now < deadline ∧
    r.aborted = false ∧ r.phase = .idle
  broker : ∃ b, p.models.brokers = [b] ∧ b.scope = scope ∧ b.aborted = false
  spent : (n : ℤ) ≤ (cost p.models.log (p.of scope)).input

/-- An input, and its answer without a tool call. -/
def shortTurn : List Input := [.sendTurn 0 0, .reply 0 {}, .reply 0 {}]

theorem one_le_foldl (sizes : List ℕ) (n : ℕ) (hn : 1 ≤ n) :
    1 ≤ sizes.foldl (fun total size => total + size + 1) n := by
  induction sizes generalizing n with
  | nil => exact hn
  | cons size sizes ih => exact ih (n + size + 1) (by omega)

theorem cost_append (requests : List Request) (q : Request) :
    (cost log (requests ++ [q])).input = (cost log requests).input + q.input := by
  unfold cost
  rw [foldl_append]
  rfl

variable (fastLane) in
theorem Talking.turn (h : Talking jobs scope n p) :
    Talking jobs scope (n + 1) (run (step fastLane jobs) p shortTurn) := by
  obtain ⟨⟨deadline, r, hexecutions, hnow, hlive, hidle⟩, ⟨b, hbrokers, rfl, haborted⟩, hspent⟩ := h
  obtain ⟨⟨log, brokers⟩, executions, now, drawn, requests⟩ := p
  obtain ⟨aborted, messages, phase⟩ := r
  obtain ⟨scope, provider, stopped, inputUsed, outputUsed, count, broker, sent⟩ := b
  dsimp only at hexecutions hbrokers hlive hidle hnow haborted
  subst hexecutions hbrokers hlive hidle haborted
  have hrequests : run (step fastLane jobs) ⟨⟨log, [⟨scope, provider, false, inputUsed, outputUsed,
      count, broker, sent⟩]⟩, [⟨deadline, some ⟨false, messages, .idle⟩⟩], now, drawn, requests⟩
        shortTurn = ⟨⟨log, [⟨scope, provider, false, inputUsed, outputUsed, count, broker, sent⟩]⟩,
          [⟨deadline, some ⟨false, messages ++ [0] ++ [0], .idle⟩⟩], now, drawn, requests ++
            [⟨scope, none, AnthropicRuntime.bytes ⟨false, messages ++ [0], .idle⟩ +
              (jobs scope).catalogBytes, (jobs scope).maxTokens, now, deadline, false⟩]⟩ := by
    simp [shortTurn, run, step, reply, AnthropicRuntime.sendTurn, AnthropicRuntime.push,
      AnthropicRuntime.resume, AnthropicRuntime.bytes, hnow]
  rw [hrequests]
  refine ⟨⟨deadline, _, rfl, hnow, rfl, rfl⟩, ⟨_, rfl, rfl, rfl⟩, ?_⟩
  show ((n + 1 : ℕ) : ℤ) ≤ (cost log ((requests ++ [_]).filter fun q => q.scope = scope)).input
  rw [filter_append, filter_cons_of_pos (by simp), filter_nil, cost_append]
  have hspent' : (n : ℤ) ≤ (cost log (requests.filter fun q => q.scope = scope)).input := hspent
  have hmore : AnthropicRuntime.bytes ⟨false, messages ++ [0], .idle⟩ ≥ 1 :=
    one_le_foldl (messages ++ [0]) 1 (Nat.le_refl 1)
  dsimp only
  omega

/-- One input after the other. -/
def talk : ℕ → List Input
  | 0 => []
  | n + 1 => shortTurn ++ talk n

variable (fastLane) in
theorem Talking.talk {m : ℕ} (h : Talking jobs scope m p) (n : ℕ) :
    Talking jobs scope (m + n) (run (step fastLane jobs) p (talk n)) := by
  induction n generalizing m p with
  | zero => exact h
  | succ n ih =>
    have hrest := ih (h.turn fastLane)
    rw [Nat.add_right_comm] at hrest
    exact hrest

/-- A new attempt on the fast lane. -/
theorem talking_execute (hfast : (jobs scope).runtime fastLane = .anthropic) :
    Talking jobs scope 0 (step fastLane jobs (.execute scope 1) .start).2 := by
  have hpos := (jobs scope).active_pos
  refine ⟨⟨min (0 + (jobs scope).activeSeconds * 1000) 1, ⟨false, [], .idle⟩, ?_, ?_, rfl, rfl⟩,
    ⟨_, rfl, rfl, rfl⟩, Int.le_refl 0⟩
  · show [(⟨_, if _ then _ else _⟩ : Execution)] = _
    rw [if_pos hfast]
    rfl
  · show 0 < min (0 + (jobs scope).activeSeconds * 1000) 1
    omega

/-- **The runtimes that keep the budget**: a job is within it in every run, and makes its requests
with authority, just if it does not take the fast lane. -/
theorem keepsBudget_iff (fastLane : Bool) (jobs : String → Job) (scope : String) :
    (∀ inputs, KeepsBudget (jobs scope) scope (run (step fastLane jobs) .start inputs)) ↔
      ¬((jobs scope).jobKind = .answer ∧ fastLane = true) := by
  rw [← runtime_eq_anthropic]
  constructor
  · intro hkeeps hfast
    have htalk := (talking_execute hfast).talk fastLane
      ((jobs scope).budget.inputTokens + 1)
    have hinput := (hkeeps (.execute scope 1 :: talk ((jobs scope).budget.inputTokens + 1))).input
    have hspent := htalk.spent
    rw [run] at hinput
    omega
  · exact fun hlane inputs => (tied_run fastLane jobs inputs).keepsBudget hlane

theorem one_le_hour : 1 ≤ 3600 := by decide

/-- An answer with a provider of 8000 output tokens and the budget that a new profile gets. -/
def question : Job where
  jobKind := .answer
  endpoint := true
  provider := ⟨128000, 8000⟩
  budget :=
    { toolRounds := 40, transportRetries := 2, contextRecoveries := 2, inputTokens := 1280000,
      outputTokens := 32000 }
  activeSeconds := 3600
  active_pos := one_le_hour
  catalogBytes := 500

/-- A round in which the model calls a tool. -/
def toolRound : List Input := [.reply 0 {}, .reply 0 { stopReason := .toolUse }, .reply 0 {}]

/-- Five requests of 8000 output tokens; the fifth one fails after the deadline and is repeated. -/
def manyTools : List Input :=
  [.execute "job" 60000, .sendTurn 0 200] ++ toolRound ++ toolRound ++ toolRound ++ toolRound ++
    [.reply 0 {}, .wait 60000, .expire 0, .reply 0 { failure := some .transient }]

/-- The fast lane goes past the limit, and a request is made after the deadline. -/
theorem fastLane_exceeds :
    let p := run (step true fun _ => question) .start manyTools
    ¬KeepsBudget question "job" p ∧ (cost p.models.log (p.of "job")).output = 48000 ∧
      ∃ q ∈ p.requests, q.deadline ≤ q.startedAt ∧ q.aborted = true := by
  have houtput : (cost (run (step true fun _ => question) .start manyTools).models.log
    ((run (step true fun _ => question) .start manyTools).of "job")).output = 48000 := by
      decide
  refine ⟨fun h => ?_, houtput, by decide⟩
  have hwithin := h.output
  exact absurd hwithin (by decide)

end GrowTeam.Lanes
