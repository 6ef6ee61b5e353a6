/-
# The chain of a runner's credentials

A runner has one credential that was not rotated away.  While the runner is in use this is
the one credential that is not revoked; when the runner is revoked it is revoked with it,
and all it can still do is report that an attempt of that runner stopped.
-/
import GrowTeam.Agents.Devices

namespace GrowTeam.Agents

open History Except Option Table

variable {hash : String → String} {s : Store} {id : Uuid} {c d : Credential}

/-! ## The invariant -/

variable {runners : Table Runner.id} {credentials : Table Credential.id}

/-- What holds of runners and their credentials at all times. -/
structure Chained (runners : Table Runner.id) (credentials : Table Credential.id) : Prop where
  runner : ∀ c ∈ credentials.rows, ∃ r, runners.get? c.runner = some r
  single : ∀ c ∈ credentials.rows, ∀ d ∈ credentials.rows, c.runner = d.runner →
    c.rotatedAt = none → d.rotatedAt = none → c = d
  live : ∀ c ∈ credentials.rows, c.revokedAt = none → c.rotatedAt = none
  sealed : ∀ c ∈ credentials.rows, ∀ r, runners.get? c.runner = some r →
    r.revokedAt.isSome = true → c.revokedAt.isSome = true

section

variable (h : Chained runners credentials)

include h

/-- A new runner comes with a first credential. -/
theorem Chained.exchanged {runner : Uuid → Runner}
    {credential : Uuid → Credential} (hr : ∀ n, (runner n).id = n)
    (hc : ∀ n, (credential n).id = n) (hnew : ∀ n, (runner n).revokedAt = none)
    (hof : ∀ n, (credential n).runner = runners.fresh)
    (hlive : ∀ n, (credential n).revokedAt = none ∧ (credential n).rotatedAt = none) :
    Chained (runners.create runner hr) (credentials.create credential hc) := by
  -- No earlier credential is one of the new runner.
  have hold : ∀ c ∈ credentials.rows, c.runner ≠ runners.fresh := by
    intro c hc hfresh
    obtain ⟨r, hr⟩ := h.runner c hc
    rw [hfresh, get?_fresh] at hr
    cases hr
  refine ⟨fun c hc => ?_, fun c hc d hd hcd hc' hd' => ?_, fun c hc hrevoked => ?_,
    fun c hc r hr hrevoked => ?_⟩
  all_goals rcases mem_create.mp hc with hc | rfl
  · obtain ⟨r, hr⟩ := h.runner c hc
    exact ⟨r, (get?_create (hold c hc)).trans hr⟩
  · rw [hof]
    exact ⟨_, get?_create_fresh⟩
  · rcases mem_create.mp hd with hd | rfl
    · exact h.single c hc d hd hcd hc' hd'
    · exact absurd (hcd.trans (hof _)) (hold c hc)
  · rcases mem_create.mp hd with hd | rfl
    · exact absurd (hcd.symm.trans (hof _)) (hold d hd)
    · rfl
  · exact h.live c hc hrevoked
  · exact (hlive _).2
  · rw [get?_create (hold c hc)] at hr
    exact h.sealed c hc r hr hrevoked
  · rw [hof, get?_create_fresh] at hr
    cases hr
    rw [hnew] at hrevoked
    cases hrevoked

/-- The next credential replaces one that was not revoked. -/
theorem Chained.rotated (hc : c ∈ credentials.rows)
    {runner : Runner} (hrunner : runners.get? c.runner = some runner)
    (hactive : c.revokedAt = none) (hup : runner.revokedAt = none)
    {replacement : Uuid → Credential} (hid : ∀ n, (replacement n).id = n)
    (hof : ∀ n, (replacement n).runner = c.runner)
    (hlive : ∀ n, (replacement n).rotatedAt = none) {now : Time} :
    Chained runners ((credentials.create replacement hid).save
      { c with revokedAt := some now, rotatedAt := some now }) := by
  have hrows : ∀ d ∈ ((credentials.create replacement hid).save
      { c with revokedAt := some now, rotatedAt := some now }).rows,
      (d ∈ credentials.rows ∧ d.id ≠ c.id) ∨ d = replacement credentials.fresh ∨
        d = { c with revokedAt := some now, rotatedAt := some now } := by
    intro d hd
    rcases mem_save.mp hd with ⟨hd, hne⟩ | ⟨rfl, -⟩
    · rcases mem_create.mp hd with hd | rfl
      · exact .inl ⟨hd, hne⟩
      · exact .inr (.inl rfl)
    · exact .inr (.inr rfl)
  have hcurrent : c.rotatedAt = none := h.live c hc hactive
  -- Apart from the replaced one, no credential of the runner was left to rotate.
  have hothers : ∀ d ∈ credentials.rows, d.id ≠ c.id → d.runner = c.runner →
      d.rotatedAt ≠ none := by
    intro d hd hne hsame hnone
    exact hne (congrArg Credential.id (h.single d hd c hc hsame hnone hcurrent))
  refine ⟨fun d hd => ?_, fun d hd e he hde hd' he' => ?_, fun d hd hrevoked => ?_,
    fun d hd r hr hrevoked => ?_⟩
  all_goals obtain ⟨hd, hne⟩ | rfl | rfl := hrows _ hd
  · exact h.runner d hd
  · exact ⟨runner, by rw [hof, hrunner]⟩
  · exact ⟨runner, hrunner⟩
  · obtain ⟨he, hne'⟩ | rfl | rfl := hrows e he
    · exact h.single d hd e he hde hd' he'
    · exact absurd hd' (hothers d hd hne (hde.trans (hof _)))
    · cases he'
  · obtain ⟨he, hne'⟩ | rfl | rfl := hrows e he
    · exact absurd he' (hothers e he hne' (hde.symm.trans (hof _)))
    · rfl
    · cases he'
  · cases hd'
  · exact h.live d hd hrevoked
  · exact hlive _
  · cases hrevoked
  · exact h.sealed d hd r hr hrevoked
  · rw [hof, hrunner] at hr
    cases hr
    rw [hup] at hrevoked
    cases hrevoked
  · rfl

/-- The last credential of a revoked runner is revoked with it. -/
theorem Chained.revoked {runner : Runner} (hrunner : runners.get? id = some runner) {now : Time} :
    Chained (runners.save { runner with revokedAt := some now, status := .revoked })
      (credentials.update (fun c => c.runner = id && c.revokedAt.isNone)
        (fun c => { c with revokedAt := some now }) fun _ => rfl) := by
  have hid : runner.id = id := (get?_eq_some.mp hrunner).2
  have hrow : runners.get? ({ runner with
      revokedAt := some now, status := .revoked } : Runner).id = some runner := by
    rw [← hid] at hrunner
    exact hrunner
  have hget := fun n => @get?_save _ _ _ _ _ n hrow
  have hrows : ∀ d ∈ (credentials.update (fun c => c.runner = id && c.revokedAt.isNone)
      (fun c => { c with revokedAt := some now }) fun _ => rfl).rows,
      ∃ c ∈ credentials.rows, d.runner = c.runner ∧ d.rotatedAt = c.rotatedAt ∧
        (d = c ∧ (c.runner = id → c.revokedAt.isSome = true) ∨
          d = { c with revokedAt := some now } ∧ c.runner = id ∧ c.revokedAt = none) := by
    intro d hd
    obtain ⟨c, hc, rfl⟩ := mem_update.mp hd
    refine ⟨c, hc, ?_⟩
    split
    · next hp =>
      rw [Bool.and_eq_true, decide_eq_true_eq, isNone_iff_eq_none] at hp
      exact ⟨rfl, rfl, .inr ⟨rfl, hp⟩⟩
    · next hp =>
      refine ⟨rfl, rfl, .inl ⟨rfl, fun hrunner => ?_⟩⟩
      cases hrevoked : c.revokedAt with
      | some t => rfl
      | none => simp [hrunner, hrevoked] at hp
  refine ⟨fun d hd => ?_, fun d hd e he hde hd' he' => ?_, fun d hd hrevoked => ?_,
    fun d hd r hr hrevoked => ?_⟩
  all_goals obtain ⟨c, hc, hrun, hrot, hcase⟩ := hrows d hd
  · obtain ⟨r, hr⟩ := h.runner c hc
    rw [hrun, hget]
    split
    · exact ⟨_, rfl⟩
    · exact ⟨r, hr⟩
  · obtain ⟨c', hc', hrun', hrot', hcase'⟩ := hrows e he
    obtain rfl := h.single c hc c' hc' (hrun.symm.trans (hde.trans hrun'))
      (hrot.symm.trans hd') (hrot'.symm.trans he')
    obtain ⟨rfl, hold⟩ | ⟨rfl, hmine, hlive⟩ := hcase
    · obtain ⟨rfl, -⟩ | ⟨-, hmine', hlive'⟩ := hcase'
      · rfl
      · have hsome := hold hmine'
        rw [hlive'] at hsome
        cases hsome
    · obtain ⟨-, hold'⟩ | ⟨rfl, -, -⟩ := hcase'
      · have hsome := hold' hmine
        rw [hlive] at hsome
        cases hsome
      · rfl
  · rw [hrot]
    obtain ⟨rfl, -⟩ | ⟨-, -, hlive⟩ := hcase
    · exact h.live d hc hrevoked
    · exact h.live c hc hlive
  · obtain ⟨rfl, hold⟩ | ⟨rfl, hmine, hlive⟩ := hcase
    · by_cases hmine : d.runner = id
      · exact hold hmine
      · rw [hget, if_neg] at hr
        · exact h.sealed d hc r hr hrevoked
        · exact fun hn => hmine (hn.trans hid)
    · rfl

end

/-- **Every request keeps the chain.** -/
theorem chained_perform (r : Request) (h : Chained s.runners s.credentials) :
    Chained (perform hash s r).2.runners (perform hash s r).2.credentials := by
  cases r with
  | startPairing a b c d t =>
    simp only [perform, reply, startPairing]
    repeat' split
    all_goals exact h
  | approvePairing owner id code =>
    simp only [perform, reply, approvePairing]
    repeat' split
    all_goals exact h
  | previewPairing id code =>
    simp only [perform, reply, previewPairing]
    repeat' split
    all_goals exact h
  | exchangePairing id secret token refresh =>
    simp only [perform, reply, exchangePairing]
    repeat' split
    all_goals first | exact h | skip
    dsimp only
    refine h.exchanged _ _ ?_ ?_ ?_
    · exact fun _ => rfl
    · exact fun _ => rfl
    · exact fun _ => ⟨rfl, rfl⟩
  | rotateRunnerCredential id refreshToken token refresh =>
    simp only [perform, reply, rotateRunnerCredential]
    split
    · exact h
    · next credential hcredential =>
      split
      · exact h
      · next runner hrunner =>
        split
        · exact h
        · next hlive =>
          simp only [not_or, isSome_iff_ne_none, not_not] at hlive
          split
          · exact h
          · exact h.rotated (get?_eq_some.mp hcredential).1 hrunner hlive.1 hlive.2.1
              _ (by intro n; rfl) (by intro n; rfl)
  | revokeRunner id =>
    simp only [perform, reply, revokeRunner]
    split
    · exact h
    · next runner hrunner =>
      split
      · exact h
      · exact h.revoked hrunner
  | _ => exact h

theorem chained_reached (hash : String → String) (inputs : List Input) :
    Chained (reached hash inputs).runners (reached hash inputs).credentials := by
  refine (history_inv (step hash)
    (J := fun s => Chained s.runners s.credentials) Store.empty inputs ?_ ?_).1
  · constructor <;> intro c hc <;> cases hc
  · intro i s h
    exact chained_perform (s := s.later i.elapsed) i.request h

/-! ## Who is authenticated -/

/-- The credential that a request presents. -/
def presents (hash : String → String) (s : Store) : Request → Option Credential
  | .authenticateToken token => s.credentials.rows.find? (·.tokenHash = hash token)
  | .authenticateRefresh refreshToken => s.credentials.rows.find? (·.refreshHash = hash refreshToken)
  | .rotateRunnerCredential id _ _ _ => s.credentials.get? id
  | .stopEvidence token _ => s.credentials.rows.find? (·.tokenHash = hash token)
  | _ => none

/-- The request is served when it is made now, and the credential is the one it presents. -/
def Authenticates (hash : String → String) (s : Store) (c : Credential) (i : Input) : Prop :=
  presents hash s i.request = some c ∧ (step hash i s).1.isOk = true

theorem authenticateRunner_ok {value : String} {refresh : Bool}
    (h : authenticateRunner hash value refresh s = .ok c) :
    c.revokedAt = none ∧
      s.credentials.rows.find? (fun d => (if refresh then d.refreshHash else d.tokenHash) =
        hash value) = some c := by
  unfold authenticateRunner at h
  dsimp only at h
  split at h
  · cases h
  · next d hd =>
    split at h
    · cases h
    · split at h
      · cases h
      · next hlive =>
        by_cases hexpired : (if refresh then d.refreshExpiresAt else d.expiresAt) ≤ s.clock
        · rw [if_pos hexpired] at h
          cases h
        · rw [if_neg hexpired] at h
          cases h
          simp only [not_or, isSome_iff_ne_none, not_not] at hlive
          exact ⟨hlive.1, hd⟩

/-- An attempt that is found for a runner is one of it. -/
theorem lockedAttempt_ok {runner : Runner} {lease : LeaseIdentity} {job : Job}
    {attempt : Attempt} (h : lockedAttempt runner lease s = .ok (job, attempt)) :
    attempt ∈ s.attempts.rows ∧ attempt.id = lease.attemptId ∧ attempt.runner = runner.id := by
  unfold lockedAttempt at h
  split at h
  · cases h
  · split at h
    · cases h
    · next a ha =>
      obtain ⟨-, rfl⟩ := Prod.mk.inj (ok.inj h)
      have hfound := List.find?_some ha
      simp only [Bool.and_eq_true, decide_eq_true_eq] at hfound
      exact ⟨List.mem_of_find?_eq_some ha, hfound.1.1.1.1, hfound.1.1.2⟩

theorem bind_eq_ok {α β : Type} {x : Except Refusal α} {f : α → Except Refusal β} {b : β} :
    (x >>= f) = .ok b ↔ ∃ a, x = .ok a ∧ f a = .ok b := by
  cases x with
  | error e =>
    constructor
    · rintro ⟨⟩
    · rintro ⟨a, ⟨⟩, -⟩
  | ok a =>
    constructor
    · exact fun h => ⟨a, rfl, h⟩
    · rintro ⟨a, ⟨⟩, h⟩
      exact h

/-- What is left of a credential that was revoked with its runner. -/
theorem stopCredential_ok {token : String} {event : RunnerEvent} {runner : Runner}
    (h : stopCredential hash token event s = .ok runner) :
    ∃ c, s.credentials.rows.find? (·.tokenHash = hash token) = some c ∧
      s.runners.get? c.runner = some runner ∧ c.rotatedAt = none := by
  unfold stopCredential at h
  split at h
  · cases h
  · next c hc =>
    split at h
    · cases h
    · next r hr =>
      split at h
      · cases h
      · next hvalid =>
        simp only [not_or, isSome_iff_ne_none, not_not] at hvalid
        refine ⟨c, hc, ?_, hvalid.2.2.1⟩
        obtain ⟨⟨job, attempt⟩, -, h⟩ := bind_eq_ok.mp h
        dsimp only at h
        split at h
        · obtain ⟨-, -, h⟩ := bind_eq_ok.mp h
          rw [← ok.inj h]
          exact hr
        · split at h
          · split at h
            · cases h
            · rw [← ok.inj h]
              exact hr
          · split at h
            · cases h
            · rw [← ok.inj h]
              exact hr

/-- Stop evidence is taken from a credential that is in use or was revoked last, for an
attempt of its runner. -/
theorem stopEvidence_ok {token : String} {event : RunnerEvent} {job : Job} {attempt : Attempt}
    (h : stopEvidence hash token event s = .ok (job, attempt)) :
    ∃ c, s.credentials.rows.find? (·.tokenHash = hash token) = some c ∧
      (c.revokedAt = none ∨ c.rotatedAt = none) ∧ isStopped event.body = true ∧
      attempt ∈ s.attempts.rows ∧ attempt.id = event.attemptId ∧ attempt.runner = c.runner := by
  unfold stopEvidence at h
  split at h
  · cases h
  · next hbody =>
    rw [Bool.not_eq_false] at hbody
    obtain ⟨runner, hrunner, hlocked⟩ := bind_eq_ok.mp h
    obtain ⟨hmem, hid, hof⟩ := lockedAttempt_ok hlocked
    have hcredential : ∃ c, s.credentials.rows.find? (·.tokenHash = hash token) = some c ∧
        s.runners.get? c.runner = some runner ∧ (c.revokedAt = none ∨ c.rotatedAt = none) := by
      unfold stopReporter at hrunner
      split at hrunner
      · next c hc =>
        obtain ⟨hlive, hfound⟩ := authenticateRunner_ok hc
        split at hrunner
        · cases hrunner
        · next r hr =>
          rw [ok.inj hrunner] at hr
          exact ⟨c, hfound, hr, .inl hlive⟩
      · obtain ⟨c, hfound, hr, hcurrent⟩ := stopCredential_ok hrunner
        exact ⟨c, hfound, hr, .inr hcurrent⟩
    obtain ⟨c, hfound, hr, hkind⟩ := hcredential
    exact ⟨c, hfound, hkind, hbody, hmem, hid, hof.trans (get?_eq_some.mp hr).2⟩

/-- A served request with a credential: the credential is in use, or the request reports that
an attempt of its runner stopped. -/
theorem live_or_stop {i : Input} (h : Authenticates hash s c i) :
    c.revokedAt = none ∨ (c.rotatedAt = none ∧ ∃ token event job attempt,
      i.request = .stopEvidence token event ∧ isStopped event.body = true ∧
      (step hash i s).1 = .ok (.attempt job attempt) ∧ attempt ∈ s.attempts.rows ∧
      attempt.id = event.attemptId ∧ attempt.runner = c.runner) := by
  obtain ⟨elapsed, request⟩ := i
  obtain ⟨hpresents, hok⟩ := h
  have hauthenticated : ∀ (value : String) (refresh : Bool),
      (reply Reply.credential (authenticateRunner hash value refresh (s.later elapsed),
        s.later elapsed)).1.isOk = true →
      s.credentials.rows.find? (fun d => (if refresh then d.refreshHash else d.tokenHash) =
        hash value) = some c → c.revokedAt = none := by
    intro value refresh hok hfound
    cases hc : authenticateRunner hash value refresh (s.later elapsed) with
    | error refusal =>
      rw [hc] at hok
      cases hok
    | ok d =>
      obtain ⟨hlive, hd⟩ := authenticateRunner_ok hc
      cases hfound.symm.trans hd
      exact hlive
  cases request with
  | authenticateToken token => exact .inl (hauthenticated token false hok hpresents)
  | authenticateRefresh token => exact .inl (hauthenticated token true hok hpresents)
  | rotateRunnerCredential id refreshToken token refresh =>
    left
    have hc : (s.later elapsed).credentials.get? id = some c := hpresents
    simp only [step, perform, reply, rotateRunnerCredential, hc] at hok
    split at hok
    · cases hok
    · split at hok
      · cases hok
      · next hlive =>
        simp only [not_or, isSome_iff_ne_none, not_not] at hlive
        exact hlive.1
  | stopEvidence token event =>
    cases hstop : stopEvidence hash token event (s.later elapsed) with
    | error refusal =>
      simp only [step, perform, reply, hstop] at hok
      cases hok
    | ok found =>
      obtain ⟨job, attempt⟩ := found
      obtain ⟨d, hd, hkind, hbody, hmem, hid, hof⟩ := stopEvidence_ok hstop
      cases hpresents.symm.trans hd
      refine hkind.imp_right fun hcurrent => ?_
      refine ⟨hcurrent, token, event, job, attempt, rfl, hbody, ?_, hmem, hid, hof⟩
      simp only [step, perform, reply, hstop]
      rfl
  | _ => cases hpresents

/-- A presented credential is a row of the table. -/
theorem mem_of_presents {r : Request} (h : presents hash s r = some c) :
    c ∈ s.credentials.rows := by
  cases r with
  | authenticateToken token | authenticateRefresh token => exact List.mem_of_find?_eq_some h
  | rotateRunnerCredential id refreshToken token refresh => exact (get?_eq_some.mp h).1
  | stopEvidence token event => exact List.mem_of_find?_eq_some h
  | _ => cases h

/-- **The chain of credentials.**  In every store that some order of requests reaches, a
runner has one credential at most that is not revoked, and none once it is revoked itself.
Of its revoked credentials one at most can still authenticate a request, and only the report
that an attempt of that runner stopped. -/
theorem credentials_chained (hash : String → String) (inputs : List Input) :
    (∀ c ∈ (reached hash inputs).credentials.rows, ∀ d ∈ (reached hash inputs).credentials.rows,
      c.runner = d.runner → c.revokedAt = none → d.revokedAt = none → c = d) ∧
    (∀ c ∈ (reached hash inputs).credentials.rows, ∀ r,
      (reached hash inputs).runners.get? c.runner = some r → r.revokedAt.isSome = true →
      c.revokedAt.isSome = true) ∧
    (∀ c i, Authenticates hash (reached hash inputs) c i → c.revokedAt.isSome = true →
      ∃ token event job attempt, i.request = .stopEvidence token event ∧
        isStopped event.body = true ∧
        (step hash i (reached hash inputs)).1 = .ok (.attempt job attempt) ∧
        attempt ∈ (reached hash inputs).attempts.rows ∧ attempt.id = event.attemptId ∧
        attempt.runner = c.runner) ∧
    ∀ c d i j, Authenticates hash (reached hash inputs) c i →
      Authenticates hash (reached hash inputs) d j → c.revokedAt.isSome = true →
      d.revokedAt.isSome = true → c.runner = d.runner → c = d := by
  have hchain := chained_reached hash inputs
  have hstop : ∀ {c i}, Authenticates hash (reached hash inputs) c i →
      c.revokedAt.isSome = true → c.rotatedAt = none ∧ ∃ token event job attempt,
        i.request = .stopEvidence token event ∧ isStopped event.body = true ∧
        (step hash i (reached hash inputs)).1 = .ok (.attempt job attempt) ∧
        attempt ∈ (reached hash inputs).attempts.rows ∧ attempt.id = event.attemptId ∧
        attempt.runner = c.runner := by
    intro c i h hrevoked
    rcases live_or_stop h with hlive | hstop
    · rw [hlive] at hrevoked
      cases hrevoked
    · exact hstop
  refine ⟨?_, hchain.sealed, fun c i h hrevoked => (hstop h hrevoked).2, ?_⟩
  · intro c hc d hd hcd hc' hd'
    exact hchain.single c hc d hd hcd (hchain.live c hc hc') (hchain.live d hd hd')
  · intro c d i j hc hd hrevoked hrevoked' hcd
    exact hchain.single c (mem_of_presents hc.1) d (mem_of_presents hd.1) hcd
      (hstop hc hrevoked).1 (hstop hd hrevoked').1

end GrowTeam.Agents
