/-
# Recovery of uncertain remote effects
(`services/grow-agent-runner/src/remote-operation-broker.ts`)

`RemoteOperationBroker.recover` runs before the service starts.  It goes through the effect
entries of the journal, looks each uncertain push or pull request up at its remote, and
submits a receipt for what it finds.  The first failure ends the pass.

`action` refuses every operation that is neither a push nor a pull request, but the effects
of shell commands, checks and context reads are in the same list.  An uncertain one of
these ends the pass, and with it the start of the runner.
-/
import GrowTeam.Runner.Machine

namespace GrowTeam.Runner

open Interleaving List

/-! ## The pass -/

/-- `RemotePublicationConfiguration`, without the remote it is stored under. -/
structure Configuration where
  gitCredential : Option String
  github : Option String

/-- A pull request that was found. -/
structure PullRequest where
  id : String
  url : String

/-- What the pass asks of the owner's configuration, the remotes and the server. -/
structure Outside where
  /-- `recoveryConfiguration(remote)`. -/
  configuration : String → Option Configuration
  /-- `git.head({remote, branch, credential})`. -/
  head : String → String → Option String → Except Fault (Option String)
  /-- `new GitHubDraftProvider(github).find(remote, args)`. -/
  find : String → String → Arguments → Except Fault (Option PullRequest)
  /-- `operationRecovery(attemptId).remoteReceipt(receipt)`. -/
  submit : Uuid → RemoteReceipt → Except Fault Unit
  /-- `new Date()`. -/
  now : Time

/-- Why the pass ended. -/
inductive Ended where
  /-- "Invalid consumed remote operation action" -/
  | invalidAction
  /-- "Retained remote receipt differs from remote observation" -/
  | receiptDiffers
  | outside (fault : Fault)
  deriving DecidableEq

/-- `action(operation)`, with the arguments of the action. -/
def remoteArguments (operation : Operation) : Except Ended Arguments :=
  match operation.arguments with
  | some (.push remote branch commit) => .ok (.push remote branch commit)
  | some (.draftPr remote base head commit title body) =>
    .ok (.draftPr remote base head commit title body)
  | _ => .error .invalidAction

variable (out : Outside)

/-- `observedReceipt(operation, args, pullRequest)`, at the time of the observation. -/
def observedReceipt (operation : Operation) (remote branch commit : String)
    (pullRequest : Option PullRequest) : RemoteReceipt :=
  { remote, branch, commit, operationId := operation.operationId,
    pullRequestId := pullRequest.map PullRequest.id,
    pullRequestUrl := pullRequest.map PullRequest.url, observedAt := out.now }

/-- The lookup of one effect at its remote. -/
def observe (operation : Operation) (args : Arguments) : Except Ended (Option RemoteReceipt) :=
  match args with
  | .push remote branch commit =>
    match out.configuration remote with
    | none => .ok none
    | some config =>
      match out.head remote branch config.gitCredential with
      | .error fault => .error (.outside fault)
      | .ok head =>
        .ok (if head = some commit then
          some (observedReceipt out operation remote branch commit none) else none)
  | .draftPr remote _ head commit _ _ =>
    match (out.configuration remote).bind Configuration.github with
    | none => .ok none
    | some github =>
      match out.find github remote args with
      | .error fault => .error (.outside fault)
      | .ok found =>
        .ok (found.map fun pr => observedReceipt out operation remote head commit (some pr))
  | .other _ => .ok none

/-- The receipt fields that a retained receipt has to share with the observation. -/
def SameObservation (r r' : RemoteReceipt) : Prop :=
  r.remote = r'.remote ∧ r.branch = r'.branch ∧ r.commit = r'.commit ∧
    r.operationId = r'.operationId ∧ r.pullRequestId = r'.pullRequestId ∧
    r.pullRequestUrl = r'.pullRequestUrl

instance (r r' : RemoteReceipt) : Decidable (SameObservation r r') :=
  inferInstanceAs (Decidable (_ ∧ _))

/-- `reconciledReceipt(retained, observed)`. -/
def reconciledReceipt (retained : Option OwnerReceipt) (observed : RemoteReceipt) :
    Except Ended RemoteReceipt :=
  match retained with
  | none => .ok observed
  | some (.remote r) => if SameObservation r observed then .ok r else .error .receiptDiffers
  | some (.local _) => .error .receiptDiffers

variable (j : Log)

/-- The receipt an earlier submission of the operation was made with. -/
def retainedReceipt (operation : Operation) : Option OwnerReceipt :=
  (j.get (.remote operation.operationId)).bind submitted

/-- `authority?.request.lease?.attempt_id`. -/
def authorityAttempt (operation : Operation) : Option Uuid :=
  ((j.get (.authority operation.operationId)).bind authorityOf).map fun a => a.1.attemptId

/-- Submits the receipt of what was observed. -/
def submitObserved (operation : Operation) (observed : RemoteReceipt) :
    Except Ended (Option RemoteReceipt) :=
  match reconciledReceipt (retainedReceipt j operation) observed with
  | .error e => .error e
  | .ok receipt =>
    match authorityAttempt j operation with
    | none => .ok none
    | some attemptId =>
      match out.submit attemptId receipt with
      | .error fault => .error (.outside fault)
      | .ok _ => .ok (some receipt)

variable (effect : LogEntry)

/-- The body of the loop of `recover`: the receipt that was submitted, if any. -/
def recoverEffect : Except Ended (Option RemoteReceipt) :=
  if effect.state ≠ .uncertain then .ok none
  else match effect.request with
    | .effect operation =>
      match remoteArguments operation with
      | .error e => .error e
      | .ok args =>
        match observe out operation args with
        | .error e => .error e
        | .ok none => .ok none
        | .ok (some observed) => submitObserved out j operation observed
    | _ => .ok none

/-- The loop of `recover`: the receipts submitted, and the failure that ended it. -/
def recoverAll (out : Outside) (j : Log) : List LogEntry → List RemoteReceipt × Option Ended
  | [] => ([], none)
  | effect :: effects =>
    match recoverEffect out j effect with
    | .error e => ([], some e)
    | .ok submitted =>
      let rest := recoverAll out j effects
      (submitted.toList ++ rest.1, rest.2)

/-- `RemoteOperationBroker.recover`. -/
def recoverRemote : List RemoteReceipt × Option Ended :=
  recoverAll out j (j.list "effect")

/-! ## What the pass is for -/

/-- The remote effect of an uncertain entry is there to be seen. -/
def Observed (observed : RemoteReceipt) : Prop :=
  effect.state = .uncertain ∧ ∃ operation args, effect.request = .effect operation ∧
    remoteArguments operation = .ok args ∧ observe out operation args = .ok (some observed)

/-- An uncertain effect that has nothing to do with a remote. -/
def LocalEffect : Prop :=
  effect.state = .uncertain ∧ ∃ operation, effect.request = .effect operation ∧
    ∀ args, remoteArguments operation ≠ .ok args

/-- A failure outside the loop: a lookup or the submission failed, or the receipt retained
from an earlier submission says something else than the remote. -/
def OutsideFailure : Prop :=
  effect.state = .uncertain ∧ ∃ operation args, effect.request = .effect operation ∧
    remoteArguments operation = .ok args ∧
    ((∃ e, observe out operation args = .error e) ∨
      ∃ observed e, observe out operation args = .ok (some observed) ∧
        submitObserved out j operation observed = .error e)

/-- The pass does not fail over the kind of an effect, and it submits a receipt for every
remote effect that can be seen, unless a failure outside the loop ended it before. -/
structure Recovered (out : Outside) (j : Log) : Prop where
  notByKind : (recoverRemote out j).2 ≠ some .invalidAction
  submits : ∀ before effect after observed, j.list "effect" = before ++ effect :: after →
    Observed out effect observed → (∃ r ∈ (recoverRemote out j).1, SameObservation r observed) ∨
      ∃ e ∈ before ++ [effect], OutsideFailure out j e

/-! ## One effect -/

section Pass

variable {out : Outside} {j : Log}
variable {operation : Operation} {e : Ended} {effect : LogEntry}

theorem remoteArguments_error (h : remoteArguments operation = .error e) : e = .invalidAction := by
  unfold remoteArguments at h
  split at h <;> cases h
  rfl

theorem observe_error {args : Arguments}
    (h : observe out operation args = .error e) : e ≠ .invalidAction := by
  unfold observe at h
  split at h
  · split at h
    · cases h
    · split at h
      · cases h; simp
      · cases h
  · split at h
    · cases h
    · split at h
      · cases h; simp
      · cases h
  · cases h

variable {observed : RemoteReceipt}

theorem submitObserved_error
    (h : submitObserved out j operation observed = .error e) : e ≠ .invalidAction := by
  unfold submitObserved at h
  split at h
  · next hr =>
    cases h
    unfold reconciledReceipt at hr
    split at hr
    · cases hr
    · split at hr <;> cases hr
      simp
    · cases hr; simp
  · split at h
    · cases h
    · split at h <;> cases h
      simp

/-- The pass ends with an invalid action exactly at a local effect. -/
theorem recoverEffect_invalidAction :
    recoverEffect out j effect = .error .invalidAction ↔ LocalEffect effect := by
  constructor
  · intro h
    unfold recoverEffect at h
    split at h
    · cases h
    · next hst =>
      refine ⟨not_not.mp hst, ?_⟩
      split at h
      · next operation hreq =>
        refine ⟨operation, hreq, fun args hargs => ?_⟩
        rw [hargs] at h
        dsimp only at h
        split at h
        · next hobs => cases h; exact observe_error hobs rfl
        · cases h
        · exact submitObserved_error h rfl
      · cases h
  · rintro ⟨hst, operation, hreq, hargs⟩
    unfold recoverEffect
    rw [if_neg (by simpa using hst), hreq]
    cases hr : remoteArguments operation with
    | ok args => exact absurd hr (hargs args)
    | error e => simp only [hr, remoteArguments_error hr]

/-- Any other failure of the pass is a failure outside the loop. -/
theorem outsideFailure_of_error
    (h : recoverEffect out j effect = .error e) (hne : e ≠ .invalidAction) :
    OutsideFailure out j effect := by
  unfold recoverEffect at h
  split at h
  · cases h
  · next hst =>
    refine ⟨not_not.mp hst, ?_⟩
    split at h
    · next operation hreq =>
      split at h
      · next e' hargs =>
        cases h
        exact absurd (remoteArguments_error hargs) hne
      · next args hargs =>
        refine ⟨operation, args, hreq, hargs, ?_⟩
        split at h
        · next hobs => exact .inl ⟨_, hobs⟩
        · cases h
        · next observed hobs => exact .inr ⟨observed, e, hobs, h⟩
    · cases h

theorem error_of_outsideFailure (h : OutsideFailure out j effect) :
    ∃ e, recoverEffect out j effect = .error e := by
  obtain ⟨hst, operation, args, hreq, hargs, hfail⟩ := h
  unfold recoverEffect
  rw [if_neg (by simpa using hst), hreq]
  rcases hfail with ⟨e, hobs⟩ | ⟨observed, e, hobs, hsub⟩
  · exact ⟨e, by simp only [hargs, hobs]⟩
  · exact ⟨e, by simp only [hargs, hobs, hsub]⟩

theorem sameObservation_of_reconciled {retained : Option OwnerReceipt}
    {r : RemoteReceipt} (h : reconciledReceipt retained observed = .ok r) :
    SameObservation r observed := by
  unfold reconciledReceipt at h
  split at h
  · cases h; exact ⟨rfl, rfl, rfl, rfl, rfl, rfl⟩
  · split at h
    · next hsame => cases h; exact hsame
    · cases h
  · cases h

/-- An observed effect whose attempt is known is submitted, unless it fails. -/
theorem recoverEffect_observed (h : Observed out effect observed)
    (hauth : ∀ operation, effect.request = .effect operation →
      ∃ attemptId, authorityAttempt j operation = some attemptId)
    {submitted : Option RemoteReceipt} (hok : recoverEffect out j effect = .ok submitted) :
    ∃ r, submitted = some r ∧ SameObservation r observed := by
  obtain ⟨hst, operation, args, hreq, hargs, hobs⟩ := h
  obtain ⟨attemptId, hattempt⟩ := hauth operation hreq
  unfold recoverEffect at hok
  rw [if_neg (by simpa using hst), hreq] at hok
  simp only [hargs, hobs, submitObserved, hattempt] at hok
  split at hok
  · cases hok
  · next receipt hr =>
    split at hok
    · cases hok
    · cases hok
      exact ⟨receipt, rfl, sameObservation_of_reconciled hr⟩

/-! ## The loop -/

/-- The pass got through these effects. -/
def Passed (out : Outside) (j : Log) (effects : List LogEntry) : Prop :=
  ∀ e ∈ effects, ∃ r, recoverEffect out j e = .ok r

/-- Either the pass gets through, or there is a first effect at which it ends. -/
theorem passed_or_first (out : Outside) (j : Log) (l : List LogEntry) : Passed out j l ∨
    ∃ before effect after e, l = before ++ effect :: after ∧ Passed out j before ∧
      recoverEffect out j effect = .error e := by
  induction l with
  | nil => exact .inl fun e he => by simp at he
  | cons effect l ih =>
    cases hr : recoverEffect out j effect with
    | error e => exact .inr ⟨[], effect, l, e, rfl, fun e he => by simp at he, hr⟩
    | ok r =>
      rcases ih with hall | ⟨before, effect', after, e, rfl, hbefore, he⟩
      · exact .inl (forall_mem_cons.mpr ⟨⟨r, hr⟩, hall⟩)
      · exact .inr ⟨effect :: before, effect', after, e, rfl,
          forall_mem_cons.mpr ⟨⟨r, hr⟩, hbefore⟩, he⟩

variable {before : List LogEntry}

theorem recoverAll_append (h : Passed out j before)
    (rest : List LogEntry) :
    ∃ rs, recoverAll out j (before ++ rest) =
      (rs ++ (recoverAll out j rest).1, (recoverAll out j rest).2) := by
  induction before with
  | nil => exact ⟨[], rfl⟩
  | cons e before ih =>
    obtain ⟨⟨r, hr⟩, hbefore⟩ := forall_mem_cons.mp h
    obtain ⟨rs, hrs⟩ := ih hbefore
    refine ⟨r.toList ++ rs, ?_⟩
    rw [cons_append, recoverAll, hr]
    rw [hrs, append_assoc]

theorem recoverAll_error
    (h : Passed out j before) (he : recoverEffect out j effect = .error e) (after : List LogEntry) :
    (recoverAll out j (before ++ effect :: after)).2 = some e := by
  obtain ⟨rs, hrs⟩ := recoverAll_append h (effect :: after)
  rw [hrs, recoverAll, he]

theorem mem_recoverAll {after : List LogEntry} {r : RemoteReceipt}
    (h : Passed out j before) (hr : recoverEffect out j effect = .ok (some r)) :
    r ∈ (recoverAll out j (before ++ effect :: after)).1 := by
  obtain ⟨rs, hrs⟩ := recoverAll_append h (effect :: after)
  rw [hrs, recoverAll, hr]
  simp

/-- A pass that ends at a known effect ends there only. -/
theorem recoverAll_passed {l : List LogEntry} (h : Passed out j l) :
    (recoverAll out j l).2 = none := by
  obtain ⟨rs, hrs⟩ := recoverAll_append h []
  rw [append_nil] at hrs
  rw [hrs, recoverAll]

end Pass

/-! ## Every journal the runner can leave behind -/

/-- The durable store at the end of a run from a new state directory. -/
abbrev runnerStore (dev : Device) (ms : List (Move Call Input)) : Store :=
  ((machine dev).exec (.idle .fresh) ms).store

theorem inv_runnerStore (dev : Device) (ms : List (Move Call Input)) :
    (rules False).inv (runnerStore dev ms) := by
  refine Machine.sound_inv keeps inv_fresh ms fun e _ => ?_
  simp only [rules]
  split
  · exact fun h => h.elim
  · trivial

/-- The attempt of an effect is known: `beginEffect` wrote the effect from its authority. -/
theorem authorityAttempt_of_effect {s : Store} (hs : (rules False).inv s) {effect : LogEntry}
    (he : effect ∈ s.journal.list "effect") {operation : Operation}
    (hreq : effect.request = .effect operation) :
    ∃ attemptId, authorityAttempt s.journal operation = some attemptId := by
  obtain ⟨hget, hkind⟩ := Journal.mem_list.mp he
  have hg := hs _ effect hget
  have hid : ∃ op, effect.id = .effect op := by
    have hk : effect.id.kind = "effect" := hg.kind ▸ hkind
    cases hc : effect.id with
    | effect op => exact ⟨op, rfl⟩
    | other kind text =>
      rw [hc] at hk
      exact absurd (hg.foreign kind text hc) (by simp [show kind = "effect" from hk,
        coordinatorKinds])
    | _ => rw [hc] at hk; simp [Key.kind] at hk
  obtain ⟨op, hop⟩ := hid
  obtain ⟨operation', hreq', rfl, a, given, hgeta, hreqa⟩ := hg.effect op hop
  obtain rfl : operation = operation' := by
    rw [hreq] at hreq'
    exact Data.effect.inj hreq'
  refine ⟨given.attemptId, ?_⟩
  rw [authorityAttempt, hgeta, Option.bind_some, authorityOf, hreqa]
  rfl

/-- Every uncertain local effect comes after a failure outside the loop. -/
def LocalEffectsBehind : Prop :=
  ∀ before effect after, j.list "effect" = before ++ effect :: after → LocalEffect effect →
    ∃ e ∈ before, OutsideFailure out j e

section Journal

variable {out : Outside} {j : Log}

/-- The first failing entry of a prefix that the pass does not get through fails outside the
loop, if local effects are behind such failures. -/
theorem first_outsideFailure (h : LocalEffectsBehind out j) {front back : List LogEntry}
    (hlist : j.list "effect" = front ++ back) (hfail : ¬ Passed out j front) :
    ∃ e ∈ front, OutsideFailure out j e := by
  rcases passed_or_first out j front with hall | ⟨b, x, a, e, rfl, hb, he⟩
  · exact absurd hall hfail
  · have hx : x ∈ b ++ x :: a := by simp
    by_cases hkind : e = .invalidAction
    · have hlocal : LocalEffect x := recoverEffect_invalidAction.mp (hkind ▸ he)
      obtain ⟨y, hy, hout⟩ := h b x (a ++ back) (by simpa using hlist) hlocal
      exact ⟨y, by simp [hy], hout⟩
    · exact ⟨x, hx, outsideFailure_of_error he hkind⟩

theorem recovered_of_behind (h : LocalEffectsBehind out j)
    (hauth : ∀ effect ∈ j.list "effect", ∀ operation, effect.request = .effect operation →
      ∃ attemptId, authorityAttempt j operation = some attemptId) : Recovered out j where
  notByKind hend := by
    rcases passed_or_first out j (j.list "effect") with
      hall | ⟨b, x, a, e, hlist, hb, he⟩
    · rw [recoverRemote, recoverAll_passed hall] at hend
      cases hend
    · rw [recoverRemote, hlist, recoverAll_error hb he] at hend
      cases hend
      obtain ⟨y, hy, hout⟩ := h b x a hlist (recoverEffect_invalidAction.mp he)
      obtain ⟨r, hr⟩ := hb y hy
      obtain ⟨e', he'⟩ := error_of_outsideFailure hout
      rw [hr] at he'
      cases he'
  submits before effect after observed hlist hobs := by
    have hsplit : j.list "effect" = (before ++ [effect]) ++ after := by simpa using hlist
    by_cases hpass : Passed out j (before ++ [effect])
    · left
      obtain ⟨r, hr⟩ := hpass effect (by simp)
      have hmem : effect ∈ j.list "effect" := by simp [hlist]
      obtain ⟨receipt, rfl, hsame⟩ := recoverEffect_observed hobs (hauth effect hmem) hr
      refine ⟨receipt, ?_, hsame⟩
      rw [recoverRemote, hlist]
      exact mem_recoverAll (fun e he => hpass e (by simp [he])) hr
    · exact .inr (first_outsideFailure h hsplit hpass)

theorem behind_of_notByKind (h : (recoverRemote out j).2 ≠ some .invalidAction) :
    LocalEffectsBehind out j := by
  intro before effect after hlist hlocal
  rcases passed_or_first out j before with hall | ⟨b, x, a, e, rfl, hb, he⟩
  · have hend := recoverAll_error hall (recoverEffect_invalidAction.mpr hlocal) after
    rw [← hlist] at hend
    exact absurd hend h
  · refine ⟨x, by simp, outsideFailure_of_error he fun hkind => h ?_⟩
    have hlist' : j.list "effect" = b ++ x :: (a ++ effect :: after) := by simpa using hlist
    rw [recoverRemote, hlist', recoverAll_error hb he, hkind]

end Journal

/-- **When recovery gets through.**  Over every journal a runner can leave behind, the pass
keeps clear of the kind of the effects and submits every remote effect that can be seen if
and only if each uncertain local effect comes after a failure outside the loop. -/
theorem recovered_iff (dev : Device) (ms : List (Move Call Input)) (out : Outside) :
    Recovered out (runnerStore dev ms).journal ↔
      LocalEffectsBehind out (runnerStore dev ms).journal := by
  constructor
  · exact fun h => behind_of_notByKind h.notByKind
  · intro h
    refine recovered_of_behind h fun effect he operation hreq => ?_
    exact authorityAttempt_of_effect (inv_runnerStore dev ms) he hreq

/-! ## A shell command and a push -/

/-- Operation 5 is a shell command, operation 6 a push. -/
def shellOperation : Operation :=
  ⟨5, "shell", 1, .authorized, none, some (.other ⟨.shellRun, by decide⟩)⟩

def pushOperation : Operation :=
  ⟨6, "push", 1, .authorized, none, some (.push "origin" "topic" "c0ffee")⟩

/-- The started form the server answers a consume with. -/
def startedForm (operation : Operation) : Operation :=
  { operation with status := .started, version := operation.version + 1 }

/-- Consume and begin one operation of session 0, as tasks `i` and `i + 1`. -/
def begunOperation (i : ℕ) (operation : Operation) : List (Move Call Input) :=
  [.start (.consume 0 ⟨exampleAttempt.toLeaseIdentity, 1⟩ operation)] ++ turns i 10 ++
    answered i { controls := some [⟨1, 1, true, 1⟩] } ++ turns i 9 ++
    answered i { operation := some (startedForm operation) } ++ turns i 12 ++
    [.start (.beginEffect 0 operation.operationId)] ++ turns (i + 1) 10

/-- The process dies while both effects run. -/
def crashedEffects : List (Move Call Input) :=
  claimed ++ begunOperation 2 shellOperation ++ begunOperation 4 pushOperation ++ [.crash]

/-- The push has arrived, and every question is answered. -/
def pushArrived : Outside :=
  { configuration := fun _ => some ⟨none, none⟩, head := fun _ _ _ => .ok (some "c0ffee"),
    find := fun _ _ _ => .ok none, submit := fun _ _ => .ok (), now := 0 }

/-- The interrupted shell command keeps the pass from the push, and the runner from
starting. -/
theorem not_recovered_crashedEffects :
    ¬ ∀ (dev : Device) (ms : List (Move Call Input)) (out : Outside),
      Recovered out (runnerStore dev ms).journal := by
  intro h
  have hend : (recoverRemote pushArrived (runnerStore exampleDevice crashedEffects).journal) =
      ([], some .invalidAction) := by decide +kernel
  have hkind := (h exampleDevice crashedEffects pushArrived).notByKind
  rw [hend] at hkind
  exact hkind rfl

end GrowTeam.Runner
