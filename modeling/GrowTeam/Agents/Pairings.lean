/-
# What becomes of a pairing

Every request does one of five things to a pairing, and `PairingTurn` lists them with what
the row has to be like for it.  The results are over all runs that start with empty tables:
a pairing yields one runner at most, five wrong values close it for good, and it stays
exchanged or rejected unless its code is checked once more after it expired.
-/
import GrowTeam.Agents.Devices

namespace GrowTeam.Agents

open History Option Table PairingState

variable {hash : String → String} {s : Store} {r : Request} {id : Uuid} {p q : Pairing}

/-! ## One turn -/

/-- The pairing whose code a request checks, and the code it gives. -/
def Request.code : Request → Option (Uuid × String)
  | .approvePairing _ id userCode => some (id, userCode)
  | .previewPairing id userCode => some (id, userCode)
  | _ => none

/-- The pairing that a request exchanges, and the polling secret it gives. -/
def Request.secret : Request → Option (Uuid × String)
  | .exchangePairing id pollingSecret _ _ => some (id, pollingSecret)
  | _ => none

/-- The request checks a code of the pairing. -/
def Request.checks (r : Request) (id : Uuid) : Bool := r.code.any (·.1 = id)

/-- The request exchanges the pairing. -/
def Request.exchanges (r : Request) (id : Uuid) : Bool := r.secret.any (·.1 = id)

/-- A pairing that is neither pending nor approved. -/
def PairingState.closed (state : PairingState) : Prop := state ≠ .pending ∧ state ≠ .approved

/-- The two states that a pairing is meant to end in. -/
def PairingState.ended (state : PairingState) : Prop := state = .exchanged ∨ state = .rejected

instance (state : PairingState) : Decidable state.ended := by
  unfold PairingState.ended
  infer_instance

/-- What a request at `now` does to a pairing that exists. -/
inductive PairingTurn (hash : String → String) (r : Request) (now : Time) (p : Pairing) :
    Pairing → Prop where
  | kept : PairingTurn hash r now p p
  | lapsed (hr : r.checks p.id = true) (hp : p.state ≠ .pending ∨ p.expiresAt ≤ now) :
    PairingTurn hash r now p
      { p with state := if p.expiresAt ≤ now then .expired else p.state }
  | failed (hp : p.state = .pending ∨ p.state = .approved) (hnow : now < p.expiresAt) :
    PairingTurn hash r now p p.fail
  | approved (owner : Owner) (hp : p.state = .pending) (hnow : now < p.expiresAt) :
    PairingTurn hash r now p
      { p with
        realm := some owner.realmId
        owner := some owner
        approvedAt := some now
        state := .approved }
  | exchanged (runner : Uuid) (hr : r.exchanges p.id = true) (hp : p.state = .approved)
      (hnow : now < p.expiresAt) :
    PairingTurn hash r now p
      { p with runner := some runner, exchangedAt := some now, state := .exchanged }

/-- What the code check leaves, in its three cases. -/
theorem checkPairingCode_cases (hash : String → String) (now : Time) (code : String) (p : Pairing) :
    (checkPairingCode hash now code p =
        ({ p with state := if p.expiresAt ≤ now then .expired else p.state }, true) ∧
      (p.state ≠ .pending ∨ p.expiresAt ≤ now)) ∨
    (checkPairingCode hash now code p = (p.fail, true) ∧ p.state = .pending ∧
      now < p.expiresAt ∧ hash code ≠ p.userCodeHash) ∨
    (checkPairingCode hash now code p = (p, false) ∧ p.state = .pending ∧ now < p.expiresAt ∧
      hash code = p.userCodeHash) := by
  unfold checkPairingCode
  by_cases hp : p.state ≠ .pending ∨ p.expiresAt ≤ now
  · rw [if_pos hp]
    exact .inl ⟨rfl, hp⟩
  · rw [if_neg hp]
    rw [not_or, not_not, Nat.not_le] at hp
    by_cases hc : hash code ≠ p.userCodeHash
    · rw [if_pos hc]
      exact .inr (.inl ⟨rfl, hp.1, hp.2, hc⟩)
    · rw [if_neg hc]
      exact .inr (.inr ⟨rfl, hp.1, hp.2, not_not.mp hc⟩)

variable {t : Table Pairing.id} {code : String}

/-- The table after a row was saved is the one before, but for that row. -/
theorem turn_of_save {now : Time} (hp : t.get? p.id = some p)
    (hq : q.id = p.id) (hturn : PairingTurn hash r now p q) {x : Pairing}
    (hx : t.get? id = some x) : ∃ y, (t.save q).get? id = some y ∧ PairingTurn hash r now x y := by
  rw [← hq] at hp
  rw [get?_save hp]
  split
  · next hid =>
    rw [hid, hp] at hx
    cases hx
    exact ⟨q, rfl, hturn⟩
  · exact ⟨x, hx, .kept⟩

theorem none_of_save (hp : t.get? q.id = some p) (hx : t.get? id = none) :
    (t.save q).get? id = none := by
  rw [get?_save hp]
  split
  · next hid =>
    rw [hid, hp] at hx
    cases hx
  · exact hx

/-- What one request does to the table of pairings. -/
structure PairingStep (hash : String → String) (r : Request) (now : Time)
    (t t' : Table Pairing.id) : Prop where
  turn : ∀ id x, t.get? id = some x → ∃ y, t'.get? id = some y ∧ PairingTurn hash r now x y
  started : ∀ id y, t.get? id = none → t'.get? id = some y →
    y.state = .pending ∧ y.failedAttempts = 0

theorem PairingStep.kept {now : Time} : PairingStep hash r now t t :=
  ⟨fun _ x hx => ⟨x, hx, .kept⟩, fun _ y hn hy => by rw [hn] at hy; cases hy⟩

theorem PairingStep.save {now : Time} (hp : t.get? p.id = some p)
    (hq : q.id = p.id) (hturn : PairingTurn hash r now p q) :
    PairingStep hash r now t (t.save q) := by
  constructor
  · intro id x hx
    exact turn_of_save hp hq hturn hx
  · intro id y hn hy
    rw [← hq] at hp
    rw [none_of_save hp hn] at hy
    cases hy

/-- A row that is found by a key has it. -/
theorem get?_self (h : s.pairings.get? id = some p) : s.pairings.get? p.id = some p := by
  obtain ⟨-, rfl⟩ := get?_eq_some.mp h
  exact h

theorem startPairing_step {a b c d : String} {t : Option Time} :
    PairingStep hash (.startPairing a b c d t) s.clock s.pairings
      (startPairing hash a b c d t s).2.pairings := by
  unfold startPairing
  split
  · exact .kept
  · split
    · exact .kept
    · constructor
      · intro id x hx
        refine ⟨x, ?_, .kept⟩
        rw [get?_create]
        · exact hx
        · rintro rfl
          rw [get?_fresh] at hx
          cases hx
      · intro id y hn hy
        by_cases hid : id = s.pairings.fresh
        · rw [hid, get?_create_fresh] at hy
          cases hy
          exact ⟨rfl, rfl⟩
        · rw [get?_create hid, hn] at hy
          cases hy

theorem previewPairing_step : PairingStep hash (.previewPairing id code) s.clock s.pairings
      (previewPairing hash id code s).2.pairings := by
  unfold previewPairing
  cases hp : s.pairings.get? id with
  | none => exact .kept
  | some p =>
    have hid : p.id = id := (get?_eq_some.mp hp).2
    have hself := get?_self hp
    rcases checkPairingCode_cases hash s.clock code p with
      ⟨hc, hlapsed⟩ | ⟨hc, hpend, hnow, -⟩ | ⟨hc, hpend, hnow, -⟩
    · simp only [hc, if_true]
      exact .save hself rfl (.lapsed (decide_eq_true hid.symm) hlapsed)
    · simp only [hc, if_true]
      exact .save hself rfl (.failed (.inl hpend) hnow)
    · simp only [hc]
      exact .save hself rfl .kept

theorem approvePairing_step {owner : Owner} :
    PairingStep hash (.approvePairing owner id code) s.clock s.pairings
      (approvePairing hash owner id code s).2.pairings := by
  unfold approvePairing
  cases hp : s.pairings.get? id with
  | none => exact .kept
  | some p =>
    have hid : p.id = id := (get?_eq_some.mp hp).2
    have hself := get?_self hp
    rcases checkPairingCode_cases hash s.clock code p with
      ⟨hc, hlapsed⟩ | ⟨hc, hpend, hnow, -⟩ | ⟨hc, hpend, hnow, -⟩
    · simp only [hc, if_true]
      exact .save hself rfl (.lapsed (decide_eq_true hid.symm) hlapsed)
    · simp only [hc, if_true]
      exact .save hself rfl (.failed (.inl hpend) hnow)
    · simp only [hc]
      exact .save hself rfl (.approved owner hpend hnow)

theorem exchangePairing_step {secret token refresh : String} :
    PairingStep hash (.exchangePairing id secret token refresh) s.clock s.pairings
      (exchangePairing hash id secret token refresh s).2.pairings := by
  unfold exchangePairing
  cases hp : s.pairings.get? id with
  | none => exact .kept
  | some p =>
    have hid : p.id = id := (get?_eq_some.mp hp).2
    have hself := get?_self hp
    dsimp only
    cases howner : p.owner with
    | none => exact .kept
    | some owner =>
      dsimp only
      split
      · exact .kept
      · next happroved =>
        rw [not_or, not_not, Nat.not_le] at happroved
        split
        · exact .save hself rfl (.failed (.inr happroved.1) happroved.2)
        · split
          · exact .kept
          · have hturn : PairingTurn hash (.exchangePairing id secret token refresh) s.clock p
                { p with
                  runner := some s.runners.fresh
                  exchangedAt := some s.clock
                  state := .exchanged } :=
              .exchanged _ (decide_eq_true hid.symm) happroved.1 happroved.2
            rw [howner] at hturn
            exact .save hself rfl hturn

theorem perform_pairings (hash : String → String) (r : Request) (s : Store) :
    PairingStep hash r s.clock s.pairings (perform hash s r).2.pairings := by
  cases r with
  | startPairing a b c d t => exact startPairing_step
  | approvePairing owner id code => exact approvePairing_step
  | previewPairing id code => exact previewPairing_step
  | exchangePairing id secret token refresh => exact exchangePairing_step
  | rotateRunnerCredential id refreshToken token refresh =>
    have hsame : (rotateRunnerCredential hash id refreshToken token refresh s).2.pairings =
        s.pairings := by
      unfold rotateRunnerCredential
      repeat' split
      all_goals rfl
    exact hsame.symm ▸ .kept
  | revokeRunner id =>
    have hsame : (revokeRunner id s).2.pairings = s.pairings := by
      unfold revokeRunner
      repeat' split
      all_goals rfl
    exact hsame.symm ▸ .kept
  | authenticateToken token | authenticateRefresh refreshToken | stopEvidence token event
  | work jobs attempts => exact .kept

/-! ## What a run shows -/

/-- The step leaves no pairing that was exchanged or rejected in another status. -/
def KeepsEnded (e : Event) : Prop :=
  ∀ p ∈ e.pre.pairings.rows, p.state.ended → ∃ q ∈ e.post.pairings.rows,
    q.id = p.id ∧ q.state = p.state

instance (e : Event) : Decidable (KeepsEnded e) := by
  unfold KeepsEnded
  infer_instance

/-- The step makes a runner for the pairing. -/
def yieldsRunner (id : Uuid) (e : Event) : Bool :=
  e.input.request.exchanges id && e.pre.runners.rows.length < e.post.runners.rows.length

/-- The pairing's code is accepted. -/
def acceptsCode (id : Uuid) (e : Event) : Bool := e.input.request.checks id && e.answer.isOk

/-- The pairing's secret is accepted. -/
def acceptsSecret (id : Uuid) (e : Event) : Bool :=
  e.input.request.exchanges id && e.answer.isOk

/-- A code for the pairing is refused. -/
def refusesCode (id : Uuid) (e : Event) : Bool :=
  e.input.request.checks id && e.answer = .error (.value "Pairing is unavailable.")

/-- A wrong code for a pairing that waits for one, or a wrong secret for an approved one. -/
def wrongValue (hash : String → String) (id : Uuid) (e : Event) : Bool :=
  (e.pre.pairings.get? id).any fun p => now e < p.expiresAt &&
    (p.state = .pending &&
        e.input.request.code.any (fun c => c.1 = id && hash c.2 ≠ p.userCodeHash) ||
      p.state = .approved && p.owner.isSome &&
        e.input.request.secret.any (fun c => c.1 = id && hash c.2 ≠ p.pollingSecretHash))

/-- A code is checked for a pairing that was exchanged or rejected and then expired. -/
def ChecksEnded (e : Event) : Prop :=
  ∃ p ∈ e.pre.pairings.rows, e.input.request.checks p.id = true ∧ p.state.ended ∧
    p.expiresAt ≤ now e

/-! ## What the answers say about the row -/

/-- What a request with a code is answered, and what it leaves of the row. -/
theorem perform_code (hash : String → String) (s : Store) (hr : r.code = some (id, code)) :
    (s.pairings.get? id = none ∧ (perform hash s r).1 = .error .missing) ∨
    ∃ p, s.pairings.get? id = some p ∧
      ((checkPairingCode hash s.clock code p).2 = true ∧
          (perform hash s r).1 = .error (.value "Pairing is unavailable.") ∧
          (perform hash s r).2.pairings =
            s.pairings.save (checkPairingCode hash s.clock code p).1 ∨
        (checkPairingCode hash s.clock code p).2 = false ∧ (perform hash s r).1.isOk = true) := by
  cases r with
  | approvePairing owner id' code' =>
    obtain ⟨rfl, rfl⟩ := Prod.mk.inj (some.inj hr)
    simp only [perform, reply, approvePairing]
    cases hp : s.pairings.get? id' with
    | none => exact .inl ⟨rfl, rfl⟩
    | some p =>
      refine .inr ⟨p, rfl, ?_⟩
      dsimp only
      cases hc : (checkPairingCode hash s.clock code' p).2
      · exact .inr ⟨rfl, rfl⟩
      · exact .inl ⟨rfl, rfl, rfl⟩
  | previewPairing id' code' =>
    obtain ⟨rfl, rfl⟩ := Prod.mk.inj (some.inj hr)
    simp only [perform, reply, previewPairing]
    cases hp : s.pairings.get? id' with
    | none => exact .inl ⟨rfl, rfl⟩
    | some p =>
      refine .inr ⟨p, rfl, ?_⟩
      dsimp only
      cases hc : (checkPairingCode hash s.clock code' p).2
      · exact .inr ⟨rfl, rfl⟩
      · exact .inl ⟨rfl, rfl, rfl⟩
  | _ => cases hr

/-- What a request with a secret is answered, and what it leaves of the row. -/
theorem perform_secret (hash : String → String) (s : Store) {secret : String} (hr : r.secret = some (id, secret)) :
    ((perform hash s r).1.isOk = false ∧ (perform hash s r).2 = s ∧
      ∀ p, s.pairings.get? id = some p → p.owner.isSome = true → p.state = .approved →
        s.clock < p.expiresAt → hash secret = p.pollingSecretHash) ∨
    ∃ p, s.pairings.get? id = some p ∧ p.state = .approved ∧ s.clock < p.expiresAt ∧
      ((perform hash s r).1.isOk = false ∧
          (perform hash s r).2 = { s with pairings := s.pairings.save p.fail } ∨
        ∃ q, q.id = p.id ∧ q.state = .exchanged ∧ hash secret = p.pollingSecretHash ∧
          (perform hash s r).2.pairings = s.pairings.save q) := by
  cases r with
  | exchangePairing id' secret' token refresh =>
    obtain ⟨rfl, rfl⟩ := Prod.mk.inj (some.inj hr)
    simp only [perform, reply, exchangePairing]
    cases hp : s.pairings.get? id' with
    | none => exact .inl ⟨rfl, rfl, fun p hp' => by cases hp'⟩
    | some p =>
      dsimp only
      cases howner : p.owner with
      | none =>
        refine .inl ⟨rfl, rfl, fun p' hp' hsome => ?_⟩
        cases hp'
        rw [howner] at hsome
        cases hsome
      | some owner =>
        dsimp only
        split
        · next hdead =>
          refine .inl ⟨rfl, rfl, fun p' hp' _ happroved hnow => ?_⟩
          cases hp'
          rcases hdead with hstate | hexpired
          · exact absurd happroved hstate
          · exact absurd hnow (Nat.not_lt.mpr hexpired)
        · next happroved =>
          rw [not_or, not_not, Nat.not_le] at happroved
          split
          · exact .inr ⟨p, rfl, happroved.1, happroved.2, .inl ⟨rfl, rfl⟩⟩
          · next hsecret =>
            split
            · refine .inl ⟨rfl, rfl, fun p' hp' _ _ _ => ?_⟩
              cases hp'
              exact not_not.mp hsecret
            · refine .inr ⟨p, rfl, happroved.1, happroved.2,
                .inr ⟨_, ?_, ?_, not_not.mp hsecret, rfl⟩⟩
              · rfl
              · rfl
  | _ => cases hr

/-! ## Pairings over a run -/

variable {e : Event}

/-- What a pairing keeps, whatever happens to it. -/
theorem PairingTurn.keeps {n : Time} (h : PairingTurn hash r n p q) :
    q.expiresAt = p.expiresAt ∧ p.failedAttempts ≤ q.failedAttempts ∧
      (p.state.closed → q.state.closed) ∧ (p.state ≠ .pending → q.state ≠ .pending) := by
  have hnone : ∀ {state : PairingState}, state = .pending ∨ state = .approved → ¬ state.closed := by
    rintro state h ⟨hp, ha⟩
    exact h.elim hp ha
  cases h with
  | kept => exact ⟨rfl, Nat.le_refl _, id, id⟩
  | lapsed hr hp =>
    refine ⟨rfl, Nat.le_refl _, ?_, ?_⟩
    · intro hc
      show (if p.expiresAt ≤ n then expired else p.state).closed
      split
      · exact ⟨by decide, by decide⟩
      · exact hc
    · intro hc
      show (if p.expiresAt ≤ n then expired else p.state) ≠ .pending
      split
      · decide
      · exact hc
  | failed hp hnow =>
    refine ⟨rfl, Nat.le_succ _, fun hc => absurd hc (hnone hp), ?_⟩
    intro hc
    show (if p.failedAttempts + 1 ≥ pairingMaxFailures then rejected else p.state) ≠ _
    split
    · decide
    · exact hc
  | approved owner hp hnow =>
    exact ⟨rfl, Nat.le_refl _, fun hc => absurd hc (hnone (.inl hp)), fun hc => absurd hp hc⟩
  | exchanged runner hr hp hnow =>
    exact ⟨rfl, Nat.le_refl _, fun hc => absurd hc (hnone (.inr hp)), by intro; simp⟩

/-- A turn that reaches five failures closes the pairing. -/
theorem PairingTurn.closed {n : Time} (h : PairingTurn hash r n p q)
    (hp : pairingMaxFailures ≤ p.failedAttempts → p.state.closed) :
    pairingMaxFailures ≤ q.failedAttempts → q.state.closed := by
  intro hq
  cases h with
  | kept => exact hp hq
  | lapsed hr hlapsed =>
    have hturn : PairingTurn hash r n p
        { p with state := if p.expiresAt ≤ n then .expired else p.state } := .lapsed hr hlapsed
    exact hturn.keeps.2.2.1 (hp hq)
  | failed hstate hnow =>
    have hq : p.failedAttempts + 1 ≥ pairingMaxFailures := hq
    show (if p.failedAttempts + 1 ≥ pairingMaxFailures then rejected
      else p.state).closed
    rw [if_pos hq]
    exact ⟨by decide, by decide⟩
  | approved owner hstate hnow => exact absurd hstate (hp hq).1
  | exchanged runner hr hstate hnow => exact absurd hstate (hp hq).2

/-- Two pairings with one id that were exchanged or rejected: the state is left only by a
check of the code after the expiry. -/
theorem PairingTurn.ended {n : Time} (h : PairingTurn hash r n p q) (hp : p.state.ended) :
    q.state = p.state ∨ (r.checks p.id = true ∧ p.expiresAt ≤ n) := by
  cases h with
  | kept => exact .inl rfl
  | lapsed hr hlapsed =>
    by_cases hexpired : p.expiresAt ≤ n
    · exact .inr ⟨hr, hexpired⟩
    · exact .inl (if_neg hexpired)
  | failed hstate hnow => rcases hp with hp | hp <;> rw [hp] at hstate <;> simp at hstate
  | approved owner hstate hnow => rcases hp with hp | hp <;> rw [hp] at hstate <;> cases hstate
  | exchanged runner hr hstate hnow =>
    rcases hp with hp | hp <;> rw [hp] at hstate <;> cases hstate

/-- What has become of the attempts on a pairing. -/
structure Counted (hash : String → String) (id : Uuid) (past : List Event) (s : Store) :
    Prop where
  fresh : s.pairings.get? id = none →
    past.countP (wrongValue hash id) = 0 ∧ past.countP (refusesCode id) = 0
  wrong : ∀ p, s.pairings.get? id = some p → past.countP (wrongValue hash id) ≤ p.failedAttempts
  closed : ∀ p, s.pairings.get? id = some p → pairingMaxFailures ≤ p.failedAttempts →
    p.state.closed
  refused : ∀ p, s.pairings.get? id = some p →
    past.countP (refusesCode id) ≤ p.failedAttempts ∨ p.state ≠ .pending ∨ p.expiresAt ≤ s.clock

theorem clock_perform : (perform hash s r).2.clock = s.clock := by
  cases r with
  | startPairing a b c d t =>
    simp only [perform, reply, startPairing]
    repeat' split
    all_goals rfl
  | approvePairing owner id code =>
    simp only [perform, reply, approvePairing]
    repeat' split
    all_goals rfl
  | previewPairing id code =>
    simp only [perform, reply, previewPairing]
    repeat' split
    all_goals rfl
  | exchangePairing id secret token refresh =>
    simp only [perform, reply, exchangePairing]
    repeat' split
    all_goals rfl
  | rotateRunnerCredential id refreshToken token refresh =>
    simp only [perform, reply, rotateRunnerCredential]
    repeat' split
    all_goals rfl
  | revokeRunner id =>
    simp only [perform, reply, revokeRunner]
    repeat' split
    all_goals rfl
  | _ => rfl

section

variable (he : step hash e.input e.pre = (e.answer, e.post))

include he

/-- What a step serves its request on: the tables as they were, at the time of the request. -/
theorem served : ∃ s : Store, s.pairings = e.pre.pairings ∧ s.clock = now e ∧
      (perform hash s e.input.request).1 = e.answer ∧
      (perform hash s e.input.request).2 = e.post ∧ s.runners = e.pre.runners := by
  refine ⟨e.pre.later e.input.elapsed, rfl, rfl, ?_, ?_, rfl⟩
  · exact congrArg Prod.fst he
  · exact congrArg Prod.snd he

/-- The clock shows the time of the last request. -/
theorem clock_step : e.post.clock = now e := by
  obtain ⟨s, -, hclock, -, hpost, -⟩ := served he
  rw [← hpost, ← hclock]
  exact clock_perform

theorem step_pairings :
    PairingStep hash e.input.request (now e) e.pre.pairings e.post.pairings := by
  obtain ⟨s, hpairings, hclock, -, hpost, -⟩ := served he
  rw [← hpairings, ← hclock, ← hpost]
  exact perform_pairings _ _ s

end

/-- A saved row is the one that is found. -/
theorem get?_saved (hp : t.get? id = some p) (hq : q.id = p.id) : (t.save q).get? id = some q := by
  have hid : p.id = id := (get?_eq_some.mp hp).2
  have hrow : t.get? q.id = some p := by rw [hq, hid, hp]
  rw [get?_save hrow, if_pos (hid.symm.trans hq.symm)]

section

variable (he : step hash e.input e.pre = (e.answer, e.post))

include he

/-- A wrong value is counted. -/
theorem fail_of_wrongValue (h : wrongValue hash id e = true) :
    ∃ p, e.pre.pairings.get? id = some p ∧ e.post.pairings.get? id = some p.fail := by
  obtain ⟨s, hpairings, hclock, -, hpost, -⟩ := served he
  obtain ⟨p, hp, hwrong⟩ := (any_eq_true _ _).mp h
  refine ⟨p, hp, ?_⟩
  rw [← hpairings] at hp
  simp only [Bool.and_eq_true, Bool.or_eq_true, decide_eq_true_eq, any_eq_true, ← hclock] at hwrong
  rw [← hpost]
  obtain ⟨hnow, ⟨hpending, ⟨id', code⟩, hr, rfl, hcode⟩ |
    ⟨⟨happroved, howner⟩, ⟨id', secret⟩, hr, rfl, hsecret⟩⟩ := hwrong
  · have hcheck : checkPairingCode hash s.clock code p = (p.fail, true) := by
      have hlive : ¬ (p.state ≠ .pending ∨ p.expiresAt ≤ s.clock) := by
        rw [not_or, not_not, Nat.not_le]
        exact ⟨hpending, hnow⟩
      rw [checkPairingCode, if_neg hlive, if_pos hcode]
    rcases perform_code hash s hr with ⟨hnone, -⟩ | ⟨p', hp', hcase⟩
    · rw [hp] at hnone
      cases hnone
    · cases hp.symm.trans hp'
      rw [hcheck] at hcase
      obtain ⟨-, -, hrows⟩ | ⟨hfalse, -⟩ := hcase
      · rw [hrows]
        exact get?_saved hp rfl
      · cases hfalse
  · rcases perform_secret hash s hr with
      ⟨-, -, hright⟩ | ⟨p', hp', -, -, ⟨-, hstore⟩ | ⟨-, -, -, hright, -⟩⟩
    · exact absurd (hright p hp howner happroved hnow) hsecret
    · cases hp.symm.trans hp'
      rw [hstore]
      exact get?_saved hp rfl
    · cases hp.symm.trans hp'
      exact absurd hright hsecret

/-- A refused code finds the pairing unavailable, or is counted. -/
theorem fail_of_refusesCode (h : refusesCode id e = true) : ∃ p, e.pre.pairings.get? id = some p ∧
      ((p.state ≠ .pending ∨ p.expiresAt ≤ now e) ∨ e.post.pairings.get? id = some p.fail) := by
  obtain ⟨s, hpairings, hclock, hanswer, hpost, -⟩ := served he
  simp only [refusesCode, Request.checks, Bool.and_eq_true, any_eq_true, decide_eq_true_eq] at h
  obtain ⟨⟨⟨id', code⟩, hr, rfl⟩, hrefused⟩ := h
  rw [← hpairings, ← hclock, ← hpost]
  rcases perform_code hash s hr with ⟨-, hmissing⟩ | ⟨p, hp, hcase⟩
  · rw [hanswer, hrefused] at hmissing
    cases hmissing
  · refine ⟨p, hp, ?_⟩
    rcases checkPairingCode_cases hash s.clock code p with
      ⟨-, hdead⟩ | ⟨hcheck, -⟩ | ⟨hcheck, -⟩
    · exact .inl hdead
    · rw [hcheck] at hcase
      obtain ⟨-, -, hrows⟩ | ⟨hfalse, -⟩ := hcase
      · rw [hrows]
        exact .inr (get?_saved hp rfl)
      · cases hfalse
    · rw [hcheck] at hcase
      obtain ⟨hfalse, -⟩ | ⟨-, hok⟩ := hcase
      · cases hfalse
      · rw [hanswer, hrefused] at hok
        cases hok

/-- An accepted code is that of a pending pairing which has not expired. -/
theorem pending_of_acceptsCode (h : acceptsCode id e = true) :
    ∃ p, e.pre.pairings.get? id = some p ∧ p.state = .pending ∧ now e < p.expiresAt := by
  obtain ⟨s, hpairings, hclock, hanswer, -, -⟩ := served he
  simp only [acceptsCode, Request.checks, Bool.and_eq_true, any_eq_true, decide_eq_true_eq] at h
  obtain ⟨⟨⟨id', code⟩, hr, rfl⟩, hok⟩ := h
  rw [← hpairings, ← hclock]
  rw [← hanswer] at hok
  rcases perform_code hash s hr with ⟨-, hmissing⟩ | ⟨p, hp, hcase⟩
  · rw [hmissing] at hok
    cases hok
  · refine ⟨p, hp, ?_⟩
    obtain ⟨-, hrefused, -⟩ | ⟨hcheck, -⟩ := hcase
    · rw [hrefused] at hok
      cases hok
    · rcases checkPairingCode_cases hash s.clock code p with
        ⟨h', -⟩ | ⟨h', -⟩ | ⟨-, hpending, hnow, -⟩
      · rw [h'] at hcheck
        cases hcheck
      · rw [h'] at hcheck
        cases hcheck
      · exact ⟨hpending, hnow⟩

/-- An accepted secret, or a new runner, is that of an approved pairing, which is exchanged
with it. -/
theorem approved_of_exchange (hid : e.input.request.exchanges id = true)
    (h : e.answer.isOk = true ∨ e.pre.runners.rows.length < e.post.runners.rows.length) :
    ∃ p q, e.pre.pairings.get? id = some p ∧ p.state = .approved ∧
      e.post.pairings.get? id = some q ∧ q.state = .exchanged := by
  obtain ⟨s, hpairings, hclock, hanswer, hpost, hrunners⟩ := served he
  obtain ⟨⟨id', secret⟩, hr, heq⟩ := (any_eq_true _ _).mp hid
  obtain rfl : id' = id := of_decide_eq_true heq
  rw [← hanswer, ← hpost, ← hrunners] at h
  rw [← hpost, ← hpairings]
  rcases perform_secret hash s hr with
    ⟨hrefused, hsame, -⟩ | ⟨p, hp, happroved, -, ⟨hrefused, hstore⟩ | ⟨q, hq, hstate, -, hrows⟩⟩
  · rw [hrefused, hsame] at h
    simp at h
  · rw [hrefused, hstore] at h
    simp at h
  · refine ⟨p, q, hp, happroved, ?_, hstate⟩
    rw [hrows]
    exact get?_saved hp hq

/-! ## The results -/

/-- Everything that was tried on a pairing is in its row. -/
theorem counted_step {past : List Event}
    (h : Counted hash id past e.pre) : Counted hash id (past ++ [e]) e.post := by
  have hstep := step_pairings he
  have hcount : ∀ f : Event → Bool, (past ++ [e]).countP f = past.countP f + (f e).toNat := by
    intro f
    rw [List.countP_append, List.countP_singleton]
    cases f e <;> rfl
  cases hpre : e.pre.pairings.get? id with
  | none =>
    -- Nothing is tried on a pairing that is not there.
    have hwrong : wrongValue hash id e = false := by
      rw [wrongValue, hpre]
      rfl
    have hrefuses : refusesCode id e = false := by
      by_contra hne
      obtain ⟨p, hp, -⟩ := fail_of_refusesCode he (by simpa using hne)
      rw [hpre] at hp
      cases hp
    obtain ⟨hw, hr⟩ := h.fresh hpre
    refine ⟨fun _ => ?_, fun q hq => ?_, fun q hq hfive => ?_, fun q hq => .inl ?_⟩
    · rw [hcount, hcount, hw, hr, hwrong, hrefuses]
      exact ⟨rfl, rfl⟩
    · rw [hcount, hw, hwrong]
      exact Nat.zero_le _
    · rw [(hstep.started id q hpre hq).2] at hfive
      exact absurd hfive (by decide)
    · rw [hcount, hr, hrefuses]
      exact Nat.zero_le _
  | some p =>
    obtain ⟨q, hq, hturn⟩ := hstep.turn id p hpre
    obtain ⟨hexpires, hfailed, -, hpending⟩ := hturn.keeps
    refine ⟨fun hn => ?_, fun q' hq' => ?_, fun q' hq' => ?_, fun q' hq' => ?_⟩
    · rw [hq] at hn
      cases hn
    all_goals cases hq.symm.trans hq'
    · have hold := h.wrong p hpre
      rw [hcount]
      cases hw : wrongValue hash id e with
      | false => exact Nat.le_trans hold hfailed
      | true =>
        obtain ⟨p', hp', hpost⟩ := fail_of_wrongValue he hw
        cases hpre.symm.trans hp'
        cases hpost.symm.trans hq
        exact Nat.succ_le_succ hold
    · exact hturn.closed (h.closed p hpre)
    · rw [hcount, clock_step he]
      have hdead : p.state ≠ .pending ∨ p.expiresAt ≤ now e →
          q.state ≠ .pending ∨ q.expiresAt ≤ now e := by
        rw [hexpires]
        exact Or.imp_left hpending
      rcases h.refused p hpre with hold | hold | hold
      · cases hr : refusesCode id e with
        | false => exact .inl (Nat.le_trans hold hfailed)
        | true =>
          obtain ⟨p', hp', hcase⟩ := fail_of_refusesCode he hr
          cases hpre.symm.trans hp'
          rcases hcase with hcase | hpost
          · exact .inr (hdead hcase)
          · cases hpost.symm.trans hq
            exact .inl (Nat.succ_le_succ hold)
      · exact .inr (hdead (.inl hold))
      · exact .inr (hdead (.inr (Nat.le_trans hold (Nat.le_add_right _ _))))

end

/-- Before each step of a run, everything that was tried on a pairing is in its row. -/
theorem counted_of_history {inputs : List Input} {past later : List Event}
    (h : history hash inputs = past ++ e :: later) (id : Uuid) :
    Counted hash id past e.pre := by
  have hstart : Counted hash id [] Store.empty := by
    refine ⟨fun _ => ⟨rfl, rfl⟩, ?_, ?_, ?_⟩ <;> intro p hp <;> cases hp
  exact (history_past (step hash) (J := Counted hash id) Store.empty inputs hstart
    fun _ _ he hJ => counted_step he hJ).2 past e later h

/-- A pairing yields one runner at most. -/
theorem yields_once (inputs : List Input) (id : Uuid) :
    ((history hash inputs).filter (yieldsRunner id)).length ≤ 1 := by
  refine history_once (step hash)
    (D := fun s => ∃ p, s.pairings.get? id = some p ∧ p.state.closed) _ inputs ?_ ?_
  · rintro i s ⟨p, hp, hclosed⟩
    have hstep := perform_pairings hash i.request (s.later i.elapsed)
    obtain ⟨q, hq, hturn⟩ := hstep.turn id p hp
    exact ⟨q, hq, hturn.keeps.2.2.1 hclosed⟩
  · intro e he hyields
    rw [yieldsRunner, Bool.and_eq_true, decide_eq_true_eq] at hyields
    obtain ⟨p, q, hp, happroved, hq, hexchanged⟩ :=
      approved_of_exchange he hyields.1 (.inr hyields.2)
    refine ⟨?_, q, hq, ?_⟩
    · rintro ⟨p', hp', hclosed⟩
      cases hp.symm.trans hp'
      exact hclosed.2 happroved
    · rw [hexchanged]
      exact ⟨by decide, by decide⟩

/-- After five wrong values none is accepted, and after five refused codes no code is. -/
theorem few_failures_of_accepts {inputs : List Input} {past later : List Event}
    (h : history hash inputs = past ++ e :: later) (id : Uuid) :
    (acceptsCode id e = true ∨ acceptsSecret id e = true →
      past.countP (wrongValue hash id) < pairingMaxFailures) ∧
    (acceptsCode id e = true → past.countP (refusesCode id) < pairingMaxFailures) := by
  have hcounted := counted_of_history h id
  have he : step hash e.input e.pre = (e.answer, e.post) := by
    have hmem : e ∈ history hash inputs := by
      rw [h]
      simp
    exact step_of_mem hmem
  have hfew : ∀ p, e.pre.pairings.get? id = some p → ¬ p.state.closed →
      p.failedAttempts < pairingMaxFailures := by
    intro p hp hopen
    by_contra hmany
    exact hopen (hcounted.closed p hp (Nat.not_lt.mp hmany))
  have hcode : acceptsCode id e = true →
      past.countP (wrongValue hash id) < pairingMaxFailures ∧
        past.countP (refusesCode id) < pairingMaxFailures := by
    intro haccepts
    obtain ⟨p, hp, hpending, hnow⟩ := pending_of_acceptsCode he haccepts
    have hlt := hfew p hp fun hc => hc.1 hpending
    refine ⟨Nat.lt_of_le_of_lt (hcounted.wrong p hp) hlt, ?_⟩
    rcases hcounted.refused p hp with hle | hstate | hexpired
    · exact Nat.lt_of_le_of_lt hle hlt
    · exact absurd hpending hstate
    · have hle : p.expiresAt ≤ now e := Nat.le_trans hexpired (Nat.le_add_right _ _)
      exact absurd hnow (Nat.not_lt.mpr hle)
  refine ⟨?_, fun haccepts => (hcode haccepts).2⟩
  rintro (haccepts | haccepts)
  · exact (hcode haccepts).1
  · rw [acceptsSecret, Bool.and_eq_true] at haccepts
    obtain ⟨p, -, hp, happroved, -⟩ := approved_of_exchange he haccepts.1 (.inl haccepts.2)
    exact Nat.lt_of_le_of_lt (hcounted.wrong p hp) (hfew p hp fun hc => hc.2 happroved)

/-- A code that is checked after the pairing ended and expired makes it leave its status. -/
theorem not_keepsEnded (he : step hash e.input e.pre = (e.answer, e.post))
    (h : ChecksEnded e) : ¬ KeepsEnded e := by
  intro hkeeps
  obtain ⟨p, hp, hchecks, hended, hexpired⟩ := h
  obtain ⟨s, hpairings, hclock, -, hpost, -⟩ := served he
  have hrow : e.pre.pairings.get? p.id = some p := get?_eq_some.mpr ⟨hp, rfl⟩
  obtain ⟨⟨id, code⟩, hr, hid⟩ := (any_eq_true _ _).mp hchecks
  obtain rfl : id = p.id := of_decide_eq_true hid
  rw [← hpairings] at hrow
  have hcheck : checkPairingCode hash s.clock code p = ({ p with state := .expired }, true) := by
    rw [hclock, checkPairingCode, if_pos (.inr hexpired), if_pos hexpired]
  rcases perform_code hash s hr with ⟨hnone, -⟩ | ⟨p', hp', hcase⟩
  · rw [hrow] at hnone
    cases hnone
  · cases hrow.symm.trans hp'
    rw [hcheck] at hcase
    obtain ⟨-, -, hrows⟩ | ⟨hfalse, -⟩ := hcase
    · have hafter : e.post.pairings.get? p.id = some { p with state := .expired } := by
        rw [← hpost, hrows]
        exact get?_saved hrow rfl
      obtain ⟨q, hq, hqid, hqstate⟩ := hkeeps p hp hended
      have hq : e.post.pairings.get? p.id = some q := get?_eq_some.mpr ⟨hq, hqid⟩
      cases hafter.symm.trans hq
      rw [← hqstate] at hended
      rcases hended with hstate | hstate <;> cases hstate
    · cases hfalse

/-- What a run is meant to show: no pairing is left exchanged or rejected and then something
else, none yields a second runner, and after five failures nothing is accepted. -/
structure EndsOnce (hash : String → String) (inputs : List Input) : Prop where
  keeps : ∀ e ∈ history hash inputs, KeepsEnded e
  yields : ∀ id, ((history hash inputs).filter (yieldsRunner id)).length ≤ 1
  refuses : ∀ past e later, history hash inputs = past ++ e :: later → ∀ id,
    (acceptsCode id e = true ∨ acceptsSecret id e = true →
      past.countP (wrongValue hash id) < pairingMaxFailures) ∧
    (acceptsCode id e = true → past.countP (refusesCode id) < pairingMaxFailures)

/-- **Pairings end once** if and only if no code is checked for a pairing after it ended and
expired. -/
theorem endsOnce_iff (hash : String → String) (inputs : List Input) :
    EndsOnce hash inputs ↔ ∀ e ∈ history hash inputs, ¬ ChecksEnded e := by
  constructor
  · intro h e he hchecks
    exact not_keepsEnded (step_of_mem he) hchecks (h.keeps e he)
  · intro hnone
    refine ⟨?_, yields_once inputs, fun past e later h id => few_failures_of_accepts h id⟩
    intro e he p hp hended
    have hrow : e.pre.pairings.get? p.id = some p := Table.get?_eq_some.mpr ⟨hp, rfl⟩
    obtain ⟨q, hq, hturn⟩ := (step_pairings (step_of_mem he)).turn p.id p hrow
    obtain ⟨hmem, hid⟩ := Table.get?_eq_some.mp hq
    rcases hturn.ended hended with hsame | ⟨hchecks, hexpired⟩
    · exact ⟨q, hmem, hid, hsame⟩
    · exact absurd ⟨p, hp, hchecks, hended, hexpired⟩ (hnone e he)

/-- A pairing that five wrong codes reject, and a look at it after its ten minutes. -/
def lateCheck : List Input :=
  let wrong : Input := ⟨0, .previewPairing 1 "wrong-code"⟩
  [⟨0, .startPairing "Laptop" "b" "WXYZ-ABCD" "polling-secret-0123456789-0123456789" none⟩,
    wrong, wrong, wrong, wrong, wrong, ⟨600, .previewPairing 1 "WXYZ-ABCD"⟩]

/-- It is rejected no more. -/
theorem not_endsOnce_lateCheck : ¬ EndsOnce (fun value => value) lateCheck := by
  intro h
  have hleft : ¬ ∀ e ∈ history (fun value => value) lateCheck, KeepsEnded e := by
    decide
  exact hleft h.keeps

end GrowTeam.Agents
