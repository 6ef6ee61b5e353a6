/-
# Model budgets are kept

The ledger is what a restart reads, and the broker's own sums are never below it while a turn
runs (`Covers`), so a reservation that fits the sums fits the ledger.  A settlement only takes
output back.  The limit on `requests` counts turns: each may send as many requests as it has
retries, and the count is the broker's own.
-/
import GrowTeam.History
import GrowTeam.Runtime.ModelBroker

namespace GrowTeam.Budgets

open History List Usage Journal

/-! ## The ledger -/

/-- No more of either. -/
def Usage.Le (u v : Usage) : Prop := u.input ≤ v.input ∧ u.output ≤ v.output

theorem Usage.Le.refl (u : Usage) : u.Le u := ⟨Int.le_refl _, Int.le_refl _⟩

theorem Usage.Le.trans {u v w : Usage} (h : u.Le v) (h' : v.Le w) : u.Le w :=
  ⟨Int.le_trans h.1 h'.1, Int.le_trans h.2 h'.2⟩

/-- The sum starts anywhere. -/
theorem foldl_add (rows : List LogEntry) (u : Usage) :
    rows.foldl add u =
      ⟨u.input + (rows.foldl add ⟨0, 0⟩).input,
        u.output + (rows.foldl add ⟨0, 0⟩).output⟩ := by
  induction rows generalizing u with
  | nil => simp
  | cons e rows ih =>
    rw [foldl_cons, foldl_cons, ih, ih (add ⟨0, 0⟩ e)]
    simp only [add, Int.zero_add, Int.add_assoc]

/-- The rows that count for a scope. -/
def counted (scope : String) (rows : List LogEntry) : List LogEntry :=
  (rows.filter fun e => decide (e.kind = "model-reservation")).filter (inScope scope)

variable {scope : String} {log : Log} {budget : Budget} {b : ModelBroker} {a : Attempt} {s : State}

/-- Rows that change into cheaper ones of the same request. -/
theorem total_map {rows : List LogEntry} {f : LogEntry → LogEntry}
    (hkind : ∀ e ∈ rows, (f e).kind = e.kind) (hrequest : ∀ e ∈ rows, (f e).request = e.request)
    (houtput : ∀ e ∈ rows, outputOf (f e) ≤ outputOf e) :
    ((counted scope (rows.map f)).foldl add ⟨0, 0⟩).Le
      ((counted scope rows).foldl add ⟨0, 0⟩) := by
  induction rows with
  | nil => exact .refl _
  | cons e rows ih =>
    have hrest := ih (fun x hx => hkind x (mem_cons_of_mem _ hx))
      (fun x hx => hrequest x (mem_cons_of_mem _ hx))
      fun x hx => houtput x (mem_cons_of_mem _ hx)
    have hk := hkind e mem_cons_self
    have hr := hrequest e mem_cons_self
    have ho := houtput e mem_cons_self
    have hin : inScope scope (f e) = inScope scope e := by rw [inScope, inScope, hr]
    have hinput : inputOf (f e) = inputOf e := by rw [inputOf, inputOf, hr]
    simp only [counted, map_cons, filter_cons, hk] at hrest ⊢
    by_cases hres : e.kind = "model-reservation"
    · simp only [hres, decide_true, if_true, filter_cons, hin]
      by_cases hs : inScope scope e = true
      · simp only [hs, if_true, foldl_cons]
        rw [foldl_add, foldl_add (u := add ⟨0, 0⟩ e)]
        simp only [Usage.Le, add] at hrest ⊢
        omega
      · simp only [hs, Bool.false_eq_true, if_false]
        exact hrest
    · simp only [hres, decide_false, Bool.false_eq_true, if_false]
      exact hrest

/-- What a row adds to the sum of a scope. -/
theorem total_append (scope : String) (rows : List LogEntry) (e : LogEntry) :
    (counted scope (rows ++ [e])).foldl add ⟨0, 0⟩ =
      if e.kind = "model-reservation" ∧ inScope scope e = true then
        ((counted scope rows).foldl add ⟨0, 0⟩).add e
      else (counted scope rows).foldl add ⟨0, 0⟩ := by
  simp only [counted, filter_append]
  by_cases hres : e.kind = "model-reservation" <;> by_cases hs : inScope scope e = true <;>
    simp [hres, hs]

/-- The sum after a reservation. -/
def Usage.plus (u : Usage) (input output : ℤ) : Usage := ⟨u.input + input, u.output + output⟩

/-- The journal holds a reservation. -/
def Reserved (log : Log) (id : Uuid) (scope : String) (input output : ℤ) : Prop :=
  ∃ e, log.get id = some e ∧ e.request = .reservation scope input output

variable {log log' : Log}

theorem Reserved.mono {id : Uuid} {input output : ℤ}
    (h : Reserved log id scope input output) (hlog : Journal.Extends log log') :
    Reserved log' id scope input output := by
  obtain ⟨e, he, hrequest⟩ := h
  obtain ⟨e', he', hforward⟩ := hlog id e he
  exact ⟨e', he', hforward.2.2.2.2.1.trans hrequest⟩

theorem outputOf_uncertain (e : LogEntry) :
    outputOf (if e.state = .prepared then { e with state := .uncertain } else e) ≤ outputOf e := by
  split
  · next hstate =>
    rw [outputOf, outputOf, if_neg (by simp), if_neg (by simp [hstate])]
    exact Int.le_refl _
  · exact Int.le_refl _

theorem used_uncertain (log : Log) (id : Uuid) (scope : String) :
    (used (log.uncertain id) scope).Le (used log scope) := by
  refine total_map (fun e _ => ?_) (fun e _ => ?_) fun e _ => ?_
  · split
    · dsimp only
      split <;> rfl
    · rfl
  · split
    · dsimp only
      split <;> rfl
    · rfl
  · split
    · exact outputOf_uncertain e
    · exact Int.le_refl _

/-- **A reservation costs what it reserves**, in its own scope. -/
theorem reserve_spec {input output : ℤ} {uuid : Uuid}
    {writes : ℕ} {ok : Bool} (hinput : 0 ≤ input) (houtput : 0 ≤ output)
    (h : reserve log scope input output uuid writes = (ok, log')) :
    Journal.Extends log log' ∧ (used log' scope).Le ((used log scope).plus input output) ∧
      (∀ s, s ≠ scope → (used log' s).Le (used log s)) ∧
      (ok = true → Reserved log' uuid scope input output) := by
  have hstay : (used log scope).Le ((used log scope).plus input output) := by
    simp only [Usage.Le, plus]
    omega
  unfold reserve at h
  split at h
  · cases h
    exact ⟨.refl _, hstay, fun _ _ => .refl _, fun hok => by cases hok⟩
  · cases hget : log.prepare "model-reservation" uuid "local" (.reservation scope input output) ""
      with
    | error e =>
      rw [hget] at h
      cases h
      exact ⟨.refl _, hstay, fun _ _ => .refl _, fun hok => by cases hok⟩
    | ok r =>
      obtain ⟨e, prepared⟩ := r
      rw [hget] at h
      have hentry : prepared.get uuid = some e := get_of_prepare hget
      have hrequest : e.request = .reservation scope input output :=
        (prepare_identity hget).2.2.2.2
      have hextends : Journal.Extends log prepared := prepare_extends hget
      have hcost : (used prepared scope).Le ((used log scope).plus input output) ∧
          ∀ s, s ≠ scope → (used prepared s).Le (used log s) := by
        cases hold : log.get uuid with
        | some old =>
          rw [prepare_of_some hold] at hget
          split at hget
          · cases hget
          · cases hget
            exact ⟨hstay, fun _ _ => .refl _⟩
        | none =>
          rw [prepare_of_none hold] at hget
          cases hget
          have hused : ∀ s, used (log.insert (newEntry "model-reservation" uuid "local"
              (.reservation scope input output) "") hold) s =
              if scope = s then (used log s).plus input output else used log s := by
            intro s
            show (counted s (log.entries ++ [_])).foldl add ⟨0, 0⟩ = _
            rw [total_append]
            simp only [newEntry, inScope, true_and, decide_eq_true_eq]
            rfl
          refine ⟨?_, fun s hs => ?_⟩
          · rw [hused, if_pos rfl]
            exact .refl _
          · rw [hused, if_neg (Ne.symm hs)]
            exact .refl _
      dsimp only at h
      split at h
      · cases h
        exact ⟨hextends, hcost.1, hcost.2, fun hok => by cases hok⟩
      · cases h
        refine ⟨hextends.trans (uncertain_extends _ _),
          (used_uncertain _ _ _).trans hcost.1,
          fun s hs => (used_uncertain _ _ _).trans (hcost.2 s hs), fun _ => ?_⟩
        exact Reserved.mono ⟨e, hentry, hrequest⟩ (uncertain_extends _ _)

/-- **A settlement takes output back**: it costs no more than what was reserved. -/
theorem settle_spec {id : Uuid} {input limit output : ℤ}
    (writes : ℕ) (h : Reserved log id scope input limit) (hle : output ≤ limit) :
    Journal.Extends log (settle log id output writes) ∧
      ∀ s, (used (settle log id output writes) s).Le (used log s) := by
  unfold settle
  split
  · exact ⟨.refl _, fun _ => .refl _⟩
  · cases hcomplete : log.complete id (.settled output) with
    | error e => exact ⟨.refl _, fun _ => .refl _⟩
    | ok settled =>
      refine ⟨complete_extends hcomplete, fun s => ?_⟩
      obtain ⟨e, he, hrequest⟩ := h
      unfold complete at hcomplete
      rw [he] at hcomplete
      dsimp only at hcomplete
      split at hcomplete
      · cases hcomplete
      · next hkeep =>
        cases hcomplete
        refine total_map (fun x _ => by split <;> rfl) (fun x _ => by split <;> rfl) ?_
        intro x hx
        split
        · next hid =>
          -- The row of this id is the reservation.
          obtain rfl : e = x := by
            have hget := get_eq_some.mpr ⟨hx, hid⟩
            rw [he] at hget
            exact Option.some.inj hget
          rw [outputOf, outputOf]
          show output ≤ _
          split
          · next hdone =>
            have hsame : e.response = some (.settled output) := by
              by_contra hne
              exact hkeep ⟨hdone, hne⟩
            have hsettled : settledOf e = output := by rw [settledOf, hsame]
            exact Int.le_of_eq hsettled.symm
          · rw [reservedOf, hrequest]
            exact hle
        · exact Int.le_refl _

/-! ## One broker -/

/-- The loop variables of a turn that has read the ledger. -/
def Phase.attempt : Phase → Option Attempt
  | .idle => none
  | .entering _ => none
  | .checking a => some a
  | .dispatching a _ => some a
  | .waiting a _ => some a
  | .received a _ _ => some a
  | .backoff a => some a

/-- The reservation of a turn that made one. -/
def Phase.reservation : Phase → Option (Attempt × Uuid)
  | .dispatching a r => some (a, r)
  | .waiting a r => some (a, r)
  | .received a r _ => some (a, r)
  | _ => none

/-- How many requests the turn may still send, with so many retries. -/
def Phase.left (retries : ℕ) : Phase → ℕ
  | .idle => 0
  | .entering _ => 0
  | .checking a => retries + 1 - a.retry
  | .dispatching a _ => retries + 1 - a.retry
  | .waiting a _ => retries - a.retry
  | .received a _ _ => retries - a.retry
  | .backoff a => retries - a.retry

/-- The requests of the turns a broker has begun. -/
def ModelBroker.allowance (b : ModelBroker) (budget : Budget) : ℕ :=
  min b.requests budget.rounds * (budget.transportRetries + 1)

/-- What holds of a broker at each of its `await`s. -/
structure Fits (budget : Budget) (log : Log) (b : ModelBroker) : Prop where
  /-- The sums of a turn are at least those of the ledger, while the broker has authority. -/
  covers : b.aborted = false → b.phase.attempt.isSome → (used log b.scope).Le ⟨b.inputUsed, b.outputUsed⟩
  reserved : ∀ a r, b.phase.reservation = some (a, r) → Reserved log r b.scope a.input a.limit
  limit : ∀ a, b.phase.attempt = some a → 0 ≤ a.limit ∧ a.retry ≤ budget.transportRetries
  backoff : ∀ a, b.phase = .backoff a → a.retry < budget.transportRetries
  sent : b.sent + b.phase.left budget.transportRetries ≤ b.allowance budget

/-- A broker whose turn has ended. -/
theorem fits_stop (hsent : b.sent ≤ b.allowance budget) : Fits budget log b.stop := by
  refine ⟨fun _ hs => ?_, fun a r hr => ?_, fun a ha => ?_, fun a ha => ?_, hsent⟩
  · cases hs
  · cases hr
  · cases ha
  · cases ha

theorem Fits.sent_le (h : Fits budget log b) :
    b.sent ≤ b.allowance budget := Nat.le_trans (Nat.le_add_right _ _) h.sent

theorem Fits.stop (h : Fits budget log b) : Fits budget log b.stop := fits_stop h.sent_le

theorem Fits.caught (h : Fits budget log b) (ha : b.phase.attempt = some a) (failure : Failure)
    (hleft : budget.transportRetries - a.retry ≤ b.phase.left budget.transportRetries) :
    Fits budget log (b.caught budget a failure) := by
  unfold ModelBroker.caught
  split
  · exact h.stop
  · next hretry =>
    simp only [not_or, not_not, ge_iff_le, Nat.not_le] at hretry
    refine ⟨fun hb _ => h.covers hb (by simp [ha]), fun x r hr => ?_, fun x hx => ?_,
      fun x hx => ?_, ?_⟩
    · cases hr
    · cases hx
      exact h.limit a ha
    · obtain rfl : a = x := Phase.backoff.inj hx
      exact hretry.2
    · exact Nat.le_trans (Nat.add_le_add_left hleft _) h.sent

/-- A cheaper ledger with the same reservations. -/
theorem Fits.mono (h : Fits budget log b) (hlog : Journal.Extends log log')
    (hused : b.aborted = false → (used log' b.scope).Le (used log b.scope)) : Fits budget log' b :=
  ⟨fun hb hs => (hused hb).trans (h.covers hb hs), fun a r hr => (h.reserved a r hr).mono hlog,
    h.limit, h.backoff, h.sent⟩

/-- What a budget allows. -/
def Budget.tokens (b : Budget) : Usage := ⟨b.inputTokens, b.outputTokens⟩

/-- What one piece of a turn does to its broker and to the ledger. -/
structure Turned (budget : Budget) (log : Log) (b : ModelBroker) (r : ModelBroker × Log) :
    Prop where
  scope : r.1.scope = b.scope
  aborted : r.1.aborted = b.aborted
  fits : Fits budget r.2 r.1
  extends' : Journal.Extends log r.2
  within : (used log b.scope).Le budget.tokens → (used r.2 b.scope).Le budget.tokens
  others : ∀ s, s ≠ b.scope ∨ b.aborted = true → (used r.2 s).Le (used log s)

/-- A piece that leaves the ledger alone. -/
theorem turned_of_fits {b b' : ModelBroker}
    (hscope : b'.scope = b.scope) (haborted : b'.aborted = b.aborted)
    (h : Fits budget log b') : Turned budget log b (b', log) :=
  ⟨hscope, haborted, h, .refl _, fun h => h, fun _ _ => .refl _⟩

section

variable (h : Fits budget log b)

include h

theorem Fits.turned_stop : Turned budget log b (b.stop, log) := turned_of_fits rfl rfl h.stop

theorem Fits.turned_caught (ha : b.phase.attempt = some a) (failure : Failure)
    (hleft : budget.transportRetries - a.retry ≤ b.phase.left budget.transportRetries) :
    Turned budget log b (b.caught budget a failure, log) := by
  refine turned_of_fits ?_ ?_ (h.caught ha failure hleft) <;>
    (unfold ModelBroker.caught; split <;> rfl)

/-- A turn begins with the sums of the ledger, within the limit on `requests`. -/
theorem Fits.turned_enter (input : ℕ) : Turned budget log b (b.enter budget log input, log) := by
  have hsent : b.sent ≤ min b.requests budget.rounds * (budget.transportRetries + 1) := h.sent_le
  have hmin : min b.requests budget.rounds ≤ min (b.requests + 1) budget.rounds := by omega
  have hstop : ∀ i o, Fits budget log
      ({ b with inputUsed := i, outputUsed := o, requests := b.requests + 1 }).stop :=
    fun _ _ => fits_stop (Nat.le_trans hsent (Nat.mul_le_mul_right _ hmin))
  unfold ModelBroker.enter
  dsimp only
  split
  · exact turned_of_fits rfl rfl (hstop _ _)
  · next hrounds =>
    split
    · exact turned_of_fits rfl rfl (hstop _ _)
    · split
      · exact turned_of_fits rfl rfl (hstop _ _)
      · next hlimit =>
        refine turned_of_fits rfl rfl ⟨fun _ _ => .refl _, fun a r hr => ?_, fun a ha => ?_,
          fun a ha => ?_, ?_⟩
        · cases hr
        · cases ha
          exact ⟨by dsimp only; omega, Nat.zero_le _⟩
        · cases ha
        · -- One more turn is allowed, and with it all of its requests.
          show b.sent + (budget.transportRetries + 1 - 0) ≤
            min (b.requests + 1) budget.rounds * (budget.transportRetries + 1)
          have hnext : min (b.requests + 1) budget.rounds = min b.requests budget.rounds + 1 := by
            omega
          rw [hnext, Nat.succ_mul]
          omega

/-- A reservation that fits the broker's sums fits the budget. -/
theorem Fits.turned_dispatch (hphase : b.phase = .checking a) (answer : Answer)
    (hlive : b.aborted = false) : Turned budget log b (b.dispatch budget log a answer) := by
  have hattempt : b.phase.attempt = some a := by rw [hphase]; rfl
  have hcovers := h.covers hlive (by rw [hattempt]; rfl)
  unfold ModelBroker.dispatch
  split
  · exact h.turned_stop
  · next hroom =>
    cases hreserve : reserve log b.scope a.input a.limit answer.uuid answer.writes with
    | mk ok log' =>
      obtain ⟨hextends, hcost, hothers, hreserved⟩ :=
        reserve_spec (Int.natCast_nonneg _) (h.limit a hattempt).1 hreserve
      have hwithin : (used log' b.scope).Le budget.tokens := by
        simp only [Usage.Le, plus, Budget.tokens] at hcost hcovers ⊢
        omega
      have hrest : ∀ s, s ≠ b.scope ∨ b.aborted = true → (used log' s).Le (used log s) := by
        rintro s (hs | hs)
        · exact hothers s hs
        · rw [hlive] at hs
          cases hs
      cases ok with
      | false =>
        exact ⟨rfl, rfl, fits_stop h.sent_le, hextends, fun _ => hwithin, hrest⟩
      | true =>
        refine ⟨rfl, rfl, ⟨fun _ _ => ?_, fun x r hr => ?_, fun x hx => ?_, fun x hx => ?_, ?_⟩,
          hextends, fun _ => hwithin, hrest⟩
        · simp only [Usage.Le, plus] at hcost hcovers ⊢
          omega
        · cases hr
          exact hreserved rfl
        · cases hx
          exact h.limit a hattempt
        · cases hx
        · have hsent := h.sent
          rw [hphase] at hsent
          exact hsent

/-- A settled answer ends the turn and costs no more than its reservation. -/
theorem Fits.turned_finish {r : Uuid} {outputTokens : Option ℕ}
    (hphase : b.phase = .received a r outputTokens) (writes : ℕ) :
    Turned budget log b (b.finish log a r outputTokens writes) := by
  have hreserved := h.reserved a r (by rw [hphase]; rfl)
  unfold ModelBroker.finish
  cases outputTokens with
  | none => exact h.turned_stop
  | some output =>
    dsimp only
    split
    · exact h.turned_stop
    · next hle =>
      obtain ⟨hextends, hused⟩ := settle_spec writes hreserved (Int.not_lt.mp hle)
      exact ⟨rfl, rfl, fits_stop h.sent_le, hextends, fun hw => (hused _).trans hw,
        fun s _ => hused s⟩

/-- **Every piece of a turn keeps the budget.** -/
theorem Fits.turned (answer : Answer) : Turned budget log b (b.resume budget log answer) := by
  have hlive : (answer.current && !b.aborted) = true → b.aborted = false := by
    intro hcurrent
    cases hb : b.aborted with
    | false => rfl
    | true => rw [hb, Bool.not_true, Bool.and_false] at hcurrent; cases hcurrent
  unfold ModelBroker.resume
  cases hphase : b.phase with
  | idle => exact turned_of_fits rfl rfl h
  | entering input =>
    dsimp only
    split
    · exact h.turned_enter input
    · exact h.turned_stop
  | checking a =>
    dsimp only
    split
    · next hcurrent => exact h.turned_dispatch hphase answer (hlive hcurrent)
    · exact h.turned_stop
  | dispatching a r =>
    have hattempt : b.phase.attempt = some a := by rw [hphase]; rfl
    have hretry := (h.limit a hattempt).2
    have hsent := h.sent
    rw [hphase] at hsent
    dsimp only [Phase.left] at hsent ⊢
    cases answer.failure with
    | some failure =>
      refine h.turned_caught hattempt failure ?_
      rw [hphase]
      show _ ≤ budget.transportRetries + 1 - a.retry
      omega
    | none =>
      dsimp only
      split
      · refine turned_of_fits rfl rfl ⟨fun hb _ => h.covers hb (by rw [hattempt]; rfl),
          fun x y hr => h.reserved x y (by rw [hphase]; exact hr),
          fun x hx => h.limit x (by rw [hphase]; exact hx), fun x hx => (by cases hx), ?_⟩
        -- One of the requests that were left is sent.
        show b.sent + 1 + (budget.transportRetries - a.retry) ≤ b.allowance budget
        omega
      · exact h.turned_stop
  | waiting a r =>
    have hattempt : b.phase.attempt = some a := by rw [hphase]; rfl
    have hsent := h.sent
    rw [hphase] at hsent
    cases answer.failure with
    | some failure =>
      refine h.turned_caught hattempt failure ?_
      rw [hphase]
      exact Nat.le_refl _
    | none =>
      exact turned_of_fits rfl rfl ⟨fun hb _ => h.covers hb (by rw [hattempt]; rfl),
        fun x y hr => h.reserved x y (by rw [hphase]; exact hr),
        fun x hx => h.limit x (by rw [hphase]; exact hx), fun x hx => (by cases hx), hsent⟩
  | received a r outputTokens =>
    have hattempt : b.phase.attempt = some a := by rw [hphase]; rfl
    dsimp only
    split
    · exact h.turned_stop
    · cases answer.failure with
      | some failure =>
        refine h.turned_caught hattempt failure ?_
        rw [hphase]
        exact Nat.le_refl _
      | none => exact h.turned_finish hphase answer.writes
  | backoff a =>
    have hattempt : b.phase.attempt = some a := by rw [hphase]; rfl
    have hretry := h.backoff a hphase
    have hsent := h.sent
    rw [hphase] at hsent
    dsimp only [Phase.left] at hsent ⊢
    split
    · refine turned_of_fits rfl rfl ⟨fun hb _ => h.covers hb (by rw [hattempt]; rfl),
        fun x y hr => (by cases hr), fun x hx => ?_, fun x hx => (by cases hx), ?_⟩
      · cases hx
        exact ⟨(h.limit a hattempt).1, hretry⟩
      · show b.sent + (budget.transportRetries + 1 - (a.retry + 1)) ≤ b.allowance budget
        omega
    · exact h.turned_stop

end

/-! ## All brokers -/

/-- What holds of every state: the ledger is within every budget, each broker fits, and a
scope has one broker with authority. -/
structure Sound (budget : String → Budget) (s : State) : Prop where
  within : ∀ scope, (used s.log scope).Le (budget scope).tokens
  fits : ∀ b ∈ s.brokers, Fits (budget b.scope) s.log b
  one : ∀ (i j : ℕ) b c, i ≠ j → s.brokers[i]? = some b → s.brokers[j]? = some c →
    b.scope = c.scope → b.aborted = true ∨ c.aborted = true

theorem sound_fresh (budget : String → Budget) : Sound budget .fresh := by
  refine ⟨fun scope => ?_, fun b hb => ?_, fun i j b c _ hb => ?_⟩
  · exact ⟨Int.natCast_nonneg _, Int.natCast_nonneg _⟩
  · cases hb
  · cases hb

variable {budget : String → Budget}

/-- Brokers that change in place keep their scope, and do not get authority back. -/
theorem Sound.one_of_places (h : Sound budget s)
    {brokers : List ModelBroker}
    (hplace : ∀ (i : ℕ) b', brokers[i]? = some b' → ∃ b, s.brokers[i]? = some b ∧
      b'.scope = b.scope ∧ (b.aborted = true → b'.aborted = true)) :
    ∀ (i j : ℕ) b c, i ≠ j → brokers[i]? = some b → brokers[j]? = some c →
      b.scope = c.scope → b.aborted = true ∨ c.aborted = true := by
  intro i j b c hij hb hc hscope
  obtain ⟨b₀, hb₀, hbs, hba⟩ := hplace i b hb
  obtain ⟨c₀, hc₀, hcs, hca⟩ := hplace j c hc
  rcases h.one i j b₀ c₀ hij hb₀ hc₀ (by rw [← hbs, hscope, hcs]) with ha | ha
  · exact .inl (hba ha)
  · exact .inr (hca ha)

/-- A change of one broker that the ledger does not see. -/
theorem Sound.modify (h : Sound budget s) (i : ℕ)
    {f : ModelBroker → ModelBroker} (hscope : ∀ b, (f b).scope = b.scope)
    (haborted : ∀ b, b.aborted = true → (f b).aborted = true)
    (hfits : ∀ b, Fits (budget b.scope) s.log b → Fits (budget b.scope) s.log (f b)) :
    Sound budget { s with brokers := s.brokers.modify i f } := by
  have hplace : ∀ (k : ℕ) b', (s.brokers.modify i f)[k]? = some b' →
      ∃ b, s.brokers[k]? = some b ∧ (b' = b ∨ b' = f b) := by
    intro k b' hb'
    rw [getElem?_modify] at hb'
    obtain ⟨b, hb, rfl⟩ := Option.map_eq_some_iff.mp hb'
    refine ⟨b, hb, ?_⟩
    split
    · exact .inr rfl
    · exact .inl rfl
  refine ⟨h.within, fun b' hb' => ?_, h.one_of_places fun k b' hb' => ?_⟩
  · obtain ⟨k, hk⟩ := mem_iff_getElem?.mp hb'
    obtain ⟨b, hb, rfl | rfl⟩ := hplace k b' hk
    · exact h.fits b' (mem_of_getElem? hb)
    · rw [hscope]
      exact hfits b (h.fits b (mem_of_getElem? hb))
  · obtain ⟨b, hb, rfl | rfl⟩ := hplace k b' hb'
    · exact ⟨b', hb, rfl, fun ha => ha⟩
    · exact ⟨b, hb, hscope b, haborted b⟩

/-- A new broker of a scope in which no other has authority. -/
theorem Sound.create (h : Sound budget s) (provider : Provider)
    (hfree : ∀ b ∈ s.brokers, b.scope = scope → b.aborted = true) : Sound budget { s with
      brokers := s.brokers ++ [⟨scope, provider, false, 0, 0, 0, .idle, 0⟩] } := by
  refine ⟨h.within, fun b hb => ?_, fun i j b c hij hb hc hscope => ?_⟩
  · rcases mem_append.mp hb with hb | hb
    · exact h.fits b hb
    · rw [mem_singleton.mp hb]
      exact fits_stop (b := ⟨scope, provider, false, 0, 0, 0, .idle, 0⟩) (Nat.zero_le _)
  · rw [getElem?_append] at hb hc
    split at hb
    · split at hc
      · exact h.one i j b c hij hb hc hscope
      · obtain rfl := mem_singleton.mp (mem_of_getElem? hc)
        exact .inl (hfree b (mem_of_getElem? hb) hscope)
    · obtain rfl := mem_singleton.mp (mem_of_getElem? hb)
      split at hc
      · exact .inr (hfree c (mem_of_getElem? hc) hscope.symm)
      · have hi := (List.getElem?_eq_some_iff.mp hb).1
        have hj := (List.getElem?_eq_some_iff.mp hc).1
        simp only [length_singleton] at hi hj
        omega

/-- A piece of a turn: the other brokers of the scope have no authority. -/
theorem Sound.resume (h : Sound budget s) {i : ℕ} (hb : s.brokers[i]? = some b) (answer : Answer) :
    Sound budget ⟨(b.resume (budget b.scope) s.log answer).2,
      s.brokers.set i (b.resume (budget b.scope) s.log answer).1⟩ := by
  have hturned := (h.fits b (mem_of_getElem? hb)).turned answer
  refine ⟨fun scope => ?_, fun c hc => ?_, h.one_of_places fun k c' hc' => ?_⟩
  · by_cases hscope : scope = b.scope
    · rw [hscope]
      exact hturned.within (h.within b.scope)
    · exact (hturned.others scope (.inl hscope)).trans (h.within scope)
  · obtain ⟨k, hk⟩ := mem_iff_getElem?.mp hc
    rcases getElem?_set_cases hk with ⟨-, rfl⟩ | ⟨hne, hc⟩
    · rw [hturned.scope]
      exact hturned.fits
    · refine (h.fits c (mem_of_getElem? hc)).mono hturned.extends' fun hlive => ?_
      refine hturned.others c.scope ?_
      by_cases hscope : c.scope = b.scope
      · rcases h.one k i c b hne hc hb hscope with ha | ha
        · rw [hlive] at ha
          cases ha
        · exact .inr ha
      · exact .inl hscope
  · rcases getElem?_set_cases hc' with ⟨rfl, rfl⟩ | ⟨-, hc⟩
    · exact ⟨b, hb, hturned.scope, fun ha => hturned.aborted.trans ha⟩
    · exact ⟨c', hc, rfl, fun ha => ha⟩

/-- **Every step keeps what holds of every state.** -/
theorem sound_step (budget : String → Budget) (input : Input) (s : State)
    (h : Sound budget s) : Sound budget (step budget input s).2 := by
  cases input with
  | create scope provider =>
    rw [step]
    split
    · next hfree =>
      refine h.create provider fun b hb hscope => ?_
      have hb' := all_eq_true.mp hfree b hb
      simpa [hscope] using hb'
    · exact h
  | abort i =>
    refine h.modify i (fun _ => rfl) (fun _ _ => rfl) fun b hb => ?_
    exact ⟨fun hlive => (by cases hlive), hb.reserved, hb.limit, hb.backoff, hb.sent⟩
  | turn i input =>
    refine h.modify i (fun b => by split <;> rfl) (fun b hb => by split <;> exact hb)
      fun b hb => ?_
    split
    · refine ⟨fun _ hs => ?_, fun a r hr => ?_, fun a ha => ?_, fun a ha => ?_, hb.sent_le⟩
      · cases hs
      · cases hr
      · cases ha
      · cases ha
    · exact hb
  | resume i answer =>
    rw [step]
    split
    · exact h
    · next b hb => exact h.resume hb answer
  | crash => exact ⟨h.within, fun b hb => (by cases hb), fun i j b c _ hb => (by cases hb)⟩

/-- What a job attempt has spent is within its budget. -/
structure Kept (budget : String → Budget) (s : State) : Prop where
  /-- The input reservations of a scope. -/
  input : ∀ scope, (used s.log scope).input ≤ (budget scope).inputTokens
  /-- Its output, settled or still reserved. -/
  output : ∀ scope, (used s.log scope).output ≤ (budget scope).outputTokens
  /-- The requests of a broker: so many for each turn that the limit admits. -/
  requests : ∀ b ∈ s.brokers,
    b.sent ≤ (budget b.scope).rounds * ((budget b.scope).transportRetries + 1)

/-- **Budgets are kept.**  In every state of every run, whatever the providers answer and
report, whichever writes fail, and however often the process is started again. -/
theorem budgets_kept (budget : String → Budget) (is : List Input) :
    Kept budget (run (step budget) .fresh is) := by
  have h := (history_inv (step budget) .fresh is (sound_fresh budget) (sound_step budget)).1
  refine ⟨fun scope => (h.within scope).1, fun scope => (h.within scope).2, fun b hb => ?_⟩
  exact Nat.le_trans (h.fits b hb).sent_le
    (Nat.mul_le_mul_right _ (Nat.min_le_right _ _))

/-! ## Retries are requests too -/

/-- A budget whose limit on `requests` is three. -/
def threeRounds : Budget :=
  { toolRounds := 1, transportRetries := 2, contextRecoveries := 0, inputTokens := 1000,
    outputTokens := 1000 }

/-- A request that the provider answers with 429, up to the next `await`. -/
def busyProvider (uuid : Uuid) : List Input :=
  [.resume 0 { uuid }, .resume 0 {}, .resume 0 { failure := some .transient }]

/-- A turn that is retried twice, and the first request of a second one. -/
def retriedRun : List Input :=
  [.create "job" ⟨1000, 10⟩, .turn 0 10, .resume 0 {}] ++ busyProvider 1 ++ [.resume 0 {}] ++
    busyProvider 2 ++ [.resume 0 {}] ++ busyProvider 3 ++ [.turn 0 10, .resume 0 {}] ++
    busyProvider 4

/-- The limit on `requests` is no limit on the requests that reach a provider. -/
theorem not_requests_within_rounds :
    ¬ ∀ (budget : String → Budget) (is : List Input),
      ∀ b ∈ (run (step budget) .fresh is).brokers, b.sent ≤ (budget b.scope).rounds := by
  intro h
  have hsent : ∃ b ∈ (run (step fun _ => threeRounds) .fresh retriedRun).brokers,
      ¬ b.sent ≤ threeRounds.rounds := by decide
  obtain ⟨b, hb, hmany⟩ := hsent
  exact hmany (h _ retriedRun b hb)

end GrowTeam.Budgets
