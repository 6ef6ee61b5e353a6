/-
# The runner as a machine

What a runner process may be asked to do, in any number and order, and the machine whose
runs are all interleavings of these calls with lost answers, failures and crashes.

The parts of the runner that are not modelled write to the same journal.  Their calls are
`outgoing`, `record` and `settle`, under ids and kinds of their own.
-/
import GrowTeam.Runner.Soundness

namespace GrowTeam.Runner

open Interleaving Rules List Journal

/-- The calls of one runner process.  A session is named by its index; `given` is the lease
the caller believes it holds. -/
inductive Call where
  | tick
  | recover
  | claim
  | contain
  | stopActive
  | flush
  | stopSession (session : ℕ)
  | runtimeTerminated (session : ℕ)
  | watchdog (session : ℕ)
  | event (session : ℕ) (body : EventBody)
  | propose (session : ℕ) (given : LeaseIdentity) (id : Uuid) (args : Arguments)
      (treeHash : Option String) (diffArtifactId : Option Uuid)
  | consume (session : ℕ) (given : Lease) (proposal : Operation)
  | execute (session : ℕ) (given : LeaseIdentity) (proposal : Operation)
  | beginEffect (session : ℕ) (operationId : Uuid)
  | finishEffect (session : ℕ) (operationId : Uuid) (receipt : String)
  | remoteReceipt (session : ℕ) (given : Lease) (receipt : RemoteReceipt)
  | ownerReceipt (attemptId : Uuid) (receipt : OwnerReceipt)
  | outgoing (kind id route json : String)
  | record (kind id json : String)
  | settle (kind id json : String)

/-- A kind of the parts that are not modelled. -/
def foreign (kind : String) : Program Unit :=
  ensure (kind ∉ coordinatorKinds) "Journal identity conflict"

/-- A call whose result nobody reads. -/
def launch (x : Program α) : Routine Store Input Tag Unit := x.run.bind fun _ => .done ()

/-- The function behind a call. -/
def program (dev : Device) : Call → Routine Store Input Tag Unit
  | .tick => launch (tick dev)
  | .recover => launch (recover dev)
  | .claim => launch (claim dev)
  | .contain => launch contain
  | .stopActive => launch (stopActive dev)
  | .flush => launch flush
  | .stopSession i => launch do stopSession dev (← sessionAt i)
  | .runtimeTerminated i => launch do runtimeTerminated dev (← sessionAt i)
  | .watchdog i => launch do watchdog dev (← sessionAt i)
  | .event i body => launch do enqueue dev (← sessionAt i) body
  | .propose i given id args tree diff =>
    launch do propose dev (← sessionAt i) given id args tree diff
  | .consume i given proposal => launch do consume dev (← sessionAt i) given proposal
  | .execute i given proposal => launch do execute dev (← sessionAt i) given proposal
  | .beginEffect i op => launch do beginEffect dev (← sessionAt i) op
  | .finishEffect i op receipt => launch do finishEffect (← sessionAt i) op receipt
  | .remoteReceipt i given receipt => launch do remoteReceipt dev (← sessionAt i) given receipt
  | .ownerReceipt attemptId receipt => launch do
    submit dev (← operationRecovery dev attemptId) receipt
  | .outgoing kind id route json => launch do
    foreign kind
    mutate dev kind (.other kind id) route (.other json)
  | .record kind id json => launch do
    foreign kind
    prepare dev kind (.other kind id) "local" (.other json)
  | .settle kind id json => launch do
    foreign kind
    uncertain .step (.other kind id)
    complete (.other kind id) (.other json)

/-- A runner with its state directory. -/
def machine (dev : Device) : Machine Store Input Tag Call where
  routine := program dev
  reboot := Store.restart

/-! ## The machine keeps the rules -/

variable {careful : Prop} {dev : Device}

theorem launch_sound {α : Type} {x : Program α} (hx : Quiet careful x) :
    (rules careful).Sound (launch x) (fun _ => True) fun _ _ => True := hx.discard

/-- A call on a session object. -/
theorem launch_session {α : Type} {i : ℕ} {f : Handle → Program α}
    (hf : ∀ h, Quiet careful (f h)) :
    (rules careful).Sound (launch (sessionAt i >>= f)) (fun _ => True) fun _ _ => True :=
  launch_sound (.bind onProcess_quiet hf)

theorem foreign_spec (kind id : String) :
    Spec careful (foreign kind) (fun _ => True) fun _ _ => (Key.other kind id).plain = true := by
  refine .post ensure_spec ?_
  rintro _ s - ⟨hkind, -⟩
  exact hkind

theorem keeps : (machine dev).Keeps (rules careful) where
  routine call := by
    cases call with
    | tick => exact launch_sound tick_quiet
    | recover => exact launch_sound recover_quiet
    | claim => exact launch_sound claim_quiet
    | contain => exact launch_sound contain_quiet
    | stopActive => exact launch_sound stopActive_quiet
    | flush => exact launch_sound flush_quiet
    | stopSession i => exact launch_session stopSession_quiet
    | runtimeTerminated i => exact launch_session runtimeTerminated_quiet
    | watchdog i => exact launch_session watchdog_quiet
    | event i body => exact launch_session fun h => enqueue_quiet h body
    | propose i given id args tree diff =>
      exact launch_session fun h => propose_quiet h given id args tree diff
    | consume i given proposal => exact launch_session fun h => consume_quiet h given proposal
    | execute i given proposal => exact launch_session fun h => execute_quiet h given proposal
    | beginEffect i op => exact launch_session fun h => beginEffect_quiet h op
    | finishEffect i op receipt => exact launch_session fun h => finishEffect_quiet h op receipt
    | remoteReceipt i given receipt =>
      exact launch_session fun h => remoteReceipt_quiet h given receipt
    | ownerReceipt attemptId receipt =>
      exact launch_sound ((operationRecovery_quiet attemptId).bind fun _ => submit_quiet _ _)
    | outgoing kind id route json =>
      exact launch_sound (.bindWith (foreign_spec kind id) fun _ h => mutate_quiet rfl h)
    | record kind id json =>
      exact launch_sound (.bindWith (foreign_spec kind id) fun _ h => prepare_quiet rfl h)
    | settle kind id json =>
      refine launch_sound (.bindWith (foreign_spec kind id) fun _ h => ?_)
      exact uncertain_quiet.bind fun _ => complete_quiet (Key.stopLike_of_plain h)
  reboot s hs := inv_of_later hs (.of_eq rfl rfl) fun _ _ h => .inl h

theorem inv_fresh : (rules careful).inv Store.fresh := by
  intro id e he
  simp [Store.fresh, Journal.get, Journal.empty] at he

/-! ## Runs -/

/-- A run from a new state directory. -/
abbrev runnerTrace (dev : Device) (ms : List (Move Call Input)) : List (Event Store Tag) :=
  (machine dev).trace (.idle .fresh) ms

variable {e : Event Store Tag}

/-- Every step of every run meets the rules, in a run whose steps meet their conditions. -/
theorem meets_of_mem (ms : List (Move Call Input))
    (hc : ∀ e ∈ runnerTrace dev ms, (rules careful).cond e.tag e.pre)
    (he : e ∈ runnerTrace dev ms) : Machine.Meets (rules careful) e :=
  Machine.sound_trace keeps inv_fresh ms hc he

/-- Without the condition on `recover` the rules hold in every run. -/
theorem meets_of_mem_any (ms : List (Move Call Input))
    (he : e ∈ runnerTrace dev ms) : Machine.Meets (rules False) e := by
  refine meets_of_mem ms (fun e _ => ?_) he
  simp only [rules]
  split
  · exact fun h => h.elim
  · trivial

/-! ## Writing runs down -/

/-- `n` turns of task `i` in which no request is answered and every stop is confirmed. -/
def turns (i n : ℕ) : List (Move Call Input) :=
  List.replicate n (.advance i { uuid := i, confirmed := true, completes := true, idle := true })

/-- The turn of task `i` in which its request is answered. -/
def answered (i : ℕ) (reply : Reply) : List (Move Call Input) :=
  [.advance i { reply := .ok reply }]

/-- A runner that accepts every descriptor of its own. -/
def exampleDevice : Device :=
  { runnerId := 7, scope := "runner:7", validateDescriptor := fun _ => true,
    assertRuntime := fun _ => true, parseEvent := fun _ => true }

/-- An attempt of job 9. -/
def exampleAttempt : Descriptor := ⟨⟨9, 1, 1⟩, 7, 100⟩

/-- A first recovery and a claim: `exampleAttempt` is the active session. -/
def claimed : List (Move Call Input) :=
  [.start .recover] ++ turns 0 6 ++ answered 0 { leases := some [] } ++ turns 0 10 ++
    [.start .claim] ++ turns 1 7 ++
    answered 1 { attempt := some exampleAttempt, jobVersion := some 1 } ++ turns 1 12

/-! # Local effects happen at most once -/

open Interleaving

/-- The effect of an operation was started, or is known to have ended. -/
def EffectStarted (op : Uuid) (s : Store) : Prop :=
  ∃ e, s.journal.get (.effect op) = some e ∧ e.state ≠ .prepared

/-- A state that was left is not entered again. -/
theorem Later.effectStarted {s s' : Store} (h : Later s s') {op : Uuid}
    (hs : EffectStarted op s) : EffectStarted op s' := by
  obtain ⟨e, he, hst⟩ := hs
  obtain ⟨e', he', hf⟩ := h.1 _ e he
  have hrank : e.state.rank ≤ e'.state.rank := hf.2.2.2.2.2.1
  refine ⟨e', he', fun hprep => hst ?_⟩
  rw [hprep] at hrank
  cases hstate : e.state with
  | prepared => rfl
  | uncertain | done => simp [hstate, EntryState.rank] at hrank

/-- The step of `beginEffect` that starts the effect of this operation. -/
def begins (op : Uuid) : Tag → Bool
  | .begun op' _ => op' = op
  | _ => false

/-- The starting step finds the effect prepared and leaves it uncertain. -/
theorem effectStarted_of_begins {careful : Prop} {op : Uuid}
    (hm : Machine.Meets (rules careful) e) (hb : begins op e.tag = true) :
    ¬ EffectStarted op e.pre ∧ EffectStarted op e.post := by
  have howed := hm.owed
  cases htag : e.tag with
  | begun op' lease =>
    rw [htag] at hb howed
    obtain rfl : op' = op := of_decide_eq_true hb
    obtain ⟨⟨f, hf, hfst⟩, ⟨g, hg, hgst⟩, -⟩ := howed
    constructor
    · rintro ⟨f', hf', hne⟩
      rw [hf] at hf'
      cases hf'
      exact hne hfst
    · exact ⟨g, hg, by rw [hgst]; decide⟩
  | _ => rw [htag] at hb; simp [begins] at hb

/-- **At-most-once effects.**  In every run, over any lost or repeated answers, crashes and
restarts, `beginEffect` succeeds at most once for an operation, and where it does the
acknowledgement of a consume of this operation for this lease is already stored. -/
theorem effect_begins_once (dev : Device) (ms : List (Move Call Input)) (op : Uuid) :
    ((runnerTrace dev ms).filter fun e => begins op e.tag).length ≤ 1 ∧
      ∀ e ∈ runnerTrace dev ms, ∀ lease, e.tag = .begun op lease →
        ∃ operation, Consumed e.pre op lease operation := by
  constructor
  · refine Machine.trace_once (D := EffectStarted op) _ ms (fun _ h => h) ?_ ?_
    · intro e he
      exact (meets_of_mem_any ms he).guar.effectStarted
    · intro e he hb
      exact effectStarted_of_begins (meets_of_mem_any ms he) hb
  · intro e he lease htag
    have howed := (meets_of_mem_any ms he).owed
    rw [htag] at howed
    exact howed.2.2

/-! # Stop evidence reaches the server before the runner is reconciled -/

open Interleaving

/-- A stop entry of this lease. -/
def StopOf (lease : LeaseIdentity) (e : LogEntry) : Prop :=
  ∃ event, e.request = .stopEvidence event ∧ event.attemptId = lease.attemptId ∧
    event.leaseEpoch = lease.leaseEpoch

/-- The last evidence of a lease: its stop entry, or the one that supersedes it. -/
def FinalStop (s : Store) (lease : LeaseIdentity) (e : LogEntry) : Prop :=
  s.journal.get e.id = some e ∧ StopOf lease e ∧ e.route = "/runner/stop-evidence" ∧
    ((e.id = .stop lease.attemptId lease.leaseEpoch ∧
        ∀ next c, e.response ≠ some (.superseded next c)) ∨
      ∃ b c, s.journal.get (.stop lease.attemptId lease.leaseEpoch) = some b ∧
        b.response = some (.superseded e.id c))

/-- The server acknowledged the final stop evidence of the lease, and no stop entry of the
lease is left unacknowledged or superseded by evidence that is. -/
structure Settled (s : Store) (lease : LeaseIdentity) : Prop where
  evidence : ∃ e, FinalStop s lease e ∧ e.state = .done ∧ Acked s e
  nothingLeft : ∀ e ∈ s.journal.list "stop", StopOf lease e → e.state = .done ∧
    (Acked s e ∨ ∃ next c e', e.response = some (.superseded next c) ∧
      s.journal.get next = some e' ∧ e'.state = .done ∧ Acked s e')

/-! ## A reported lease is settled -/

section Entries

variable {s : Store} {careful : Prop} {lease : LeaseIdentity}

section

variable (hs : (rules careful).inv s)

include hs

/-- A done entry under a lease's second stop id was acknowledged. -/
theorem acked_of_stopAt {a n q : ℕ} {e : LogEntry}
    (he : s.journal.get (.stopAt a n q) = some e) (hst : e.state = .done) : Acked s e := by
  have hg := hs _ e he
  have hid : e.id = .stopAt a n q := get_id he
  have hkind : e.kind = "stop" := by rw [hg.kind, hid]; rfl
  rcases hg.stopDone hkind hst with ⟨hack, -⟩ | ⟨a', n', q', c, hid', -⟩
  · exact hack
  · rw [hid] at hid'
    cases hid'

/-- An entry under an id of the lease is a stop entry of the lease. -/
theorem stopOf_of_get {id : Key} {e : LogEntry} (he : s.journal.get id = some e)
    (hid : id = .stop lease.attemptId lease.leaseEpoch ∨
      ∃ q, id = .stopAt lease.attemptId lease.leaseEpoch q) :
    StopOf lease e ∧ e.route = "/runner/stop-evidence" := by
  have hg := hs _ e he
  have hkind : e.kind = "stop" := by
    rw [hg.kind, get_id he]
    rcases hid with rfl | ⟨q, rfl⟩ <;> rfl
  obtain ⟨event, hreq, hroute, -, hev⟩ := hg.stop hkind
  rw [get_id he] at hev
  refine ⟨?_, hroute⟩
  rcases hid with rfl | ⟨q, rfl⟩ <;> rcases hev with hev | ⟨q', hev, -⟩
  · exact ⟨event, hreq, (Key.stop.inj hev).1.symm, (Key.stop.inj hev).2.symm⟩
  · cases hev
  · cases hev
  · exact ⟨event, hreq, (Key.stopAt.inj hev).1.symm, (Key.stopAt.inj hev).2.1.symm⟩

/-- The done stop entry of a lease: acknowledged, or superseded under the lease's own id. -/
theorem base_done {b : LogEntry}
    (hb : s.journal.get (.stop lease.attemptId lease.leaseEpoch) = some b)
    (hst : b.state = .done) : (Acked s b ∧ ∃ r, b.response = some (.reply r)) ∨ ∃ q c,
      b.response = some (.superseded (.stopAt lease.attemptId lease.leaseEpoch q) c) := by
  have hg := hs _ b hb
  have hid : b.id = .stop lease.attemptId lease.leaseEpoch := get_id hb
  have hkind : b.kind = "stop" := by rw [hg.kind, hid]; rfl
  rcases hg.stopDone hkind hst with hack | ⟨a, n, q, c, hid', hresp⟩
  · exact .inl hack
  · rw [hid] at hid'
    obtain ⟨rfl, rfl⟩ := Key.stop.inj hid'
    exact .inr ⟨q, c, hresp⟩

/-- The final evidence of a reported lease. -/
theorem evidence_of_reported (hr : Reported s lease) :
    ∃ e, FinalStop s lease e ∧ e.state = .done ∧ Acked s e := by
  obtain ⟨b, hb, hst, hnext⟩ := hr
  have hid : b.id = .stop lease.attemptId lease.leaseEpoch := get_id hb
  rcases base_done hs hb hst with ⟨hack, r, hresp⟩ | ⟨q, c, hresp⟩
  · obtain ⟨hof, hroute⟩ := stopOf_of_get hs hb (.inl rfl)
    refine ⟨b, ⟨hid ▸ hb, hof, hroute, .inl ⟨hid, ?_⟩⟩, hst, hack⟩
    rintro next c hsup
    rw [hresp] at hsup
    cases hsup
  · obtain ⟨e, he, hdone⟩ := hnext _ c hresp
    have heid := get_id he
    obtain ⟨hof, hroute⟩ := stopOf_of_get hs he (.inr ⟨q, rfl⟩)
    exact ⟨e, ⟨heid ▸ he, hof, hroute, .inr ⟨b, c, hb, heid ▸ hresp⟩⟩, hdone,
      acked_of_stopAt hs he hdone⟩

/-- **A reported lease is settled.** -/
theorem settled_of_reported (hr : Reported s lease) : Settled s lease where
  evidence := evidence_of_reported hs hr
  nothingLeft := by
    obtain ⟨b, hb, hst, hnext⟩ := hr
    rintro e hmem ⟨event, hreq, ha, hn⟩
    obtain ⟨he, hkind⟩ := mem_list.mp hmem
    obtain ⟨event', hreq', -, -, hid⟩ := (hs _ e he).stop hkind
    obtain rfl : event = event' := by
      rw [hreq] at hreq'
      exact Data.stopEvidence.inj hreq'
    rw [ha, hn] at hid
    rcases hid with hid | ⟨q, hid, b', c, hb', -, hresp⟩
    · rw [hid, hb] at he
      cases he
      refine ⟨hst, ?_⟩
      rcases base_done hs hb hst with ⟨hack, -⟩ | ⟨q, c, hresp⟩
      · exact .inl hack
      · obtain ⟨e', he', hdone⟩ := hnext _ c hresp
        exact .inr ⟨_, c, e', hresp, he', hdone, acked_of_stopAt hs he' hdone⟩
    · rw [hb] at hb'
      cases hb'
      obtain ⟨e', he', hdone⟩ := hnext _ c hresp
      rw [hid, he'] at he
      cases he
      exact ⟨hdone, .inl (acked_of_stopAt hs he' hdone)⟩

end

end Entries

/-! ## Runs -/

/-- **Stop evidence before reconciliation.**  In every run in which no call of `stopped` by
`recover` meets an orphaned stop entry, every step that sets `reconciled` finds all the
leases that the server reported to this `recover` settled. -/
theorem settled_of_reconciled (dev : Device) (ms : List (Move Call Input))
    (hcare : ∀ e ∈ runnerTrace dev ms, ∀ lease cursor,
      e.tag = .checkStop lease (some cursor) → ¬ Orphaned e.pre lease)
    (e : Event Store Tag) (he : e ∈ runnerTrace dev ms) (leases : List LeaseReport)
    (htag : e.tag = .reconciled leases) :
    ∀ item ∈ leases, Settled e.post item.descriptor.toLeaseIdentity := by
  have hcond : ∀ e ∈ runnerTrace dev ms, (rules True).cond e.tag e.pre := by
    intro e he
    simp only [rules]
    split
    · next lease cursor htag => exact fun _ => hcare e he lease cursor htag
    · trivial
  have hmeets := meets_of_mem ms hcond he
  have howed := hmeets.owed
  rw [htag] at howed
  intro item hitem
  exact settled_of_reported hmeets.post (hmeets.guar.reported (howed trivial item hitem))

/-- The server still holds `exampleAttempt` and has none of its events. -/
def exampleLease : LeaseReport := ⟨exampleAttempt, 0⟩

/-- A recovery whose stop evidence is answered. -/
def reportedRun : List (Move Call Input) :=
  [.start .recover] ++ turns 0 6 ++ answered 0 { leases := some [exampleLease] } ++
    turns 0 8 ++ answered 0 {} ++ turns 0 10

/-- No call of `stopped` by `recover` finds a stop entry. -/
def meetsNoStop (e : Event Store Tag) : Bool :=
  match e.tag with
  | .checkStop lease (some _) =>
    (e.pre.journal.get (.stop lease.attemptId lease.leaseEpoch)).isNone
  | _ => true

theorem not_orphaned_of_meetsNoStop {lease : LeaseIdentity} {cursor : ℕ}
    (h : meetsNoStop e = true) (htag : e.tag = .checkStop lease (some cursor)) :
    ¬ Orphaned e.pre lease := by
  rintro ⟨b, next, c, hb, -⟩
  rw [meetsNoStop, htag] at h
  simp [hb] at h

theorem settled_of_reconciled_reportedRun :
    ∃ e ∈ runnerTrace exampleDevice reportedRun, e.tag = .reconciled [exampleLease] ∧
      Settled e.post exampleAttempt.toLeaseIdentity := by
  have hnone : ((runnerTrace exampleDevice reportedRun).all meetsNoStop) = true := by decide
  have hend : ((runnerTrace exampleDevice reportedRun).any
      fun e => decide (e.tag = .reconciled [exampleLease])) = true := by decide
  obtain ⟨e, he, htag⟩ := any_eq_true.mp hend
  have htag : e.tag = .reconciled [exampleLease] := of_decide_eq_true htag
  refine ⟨e, he, htag, settled_of_reconciled exampleDevice reportedRun ?_ e he _ htag
    exampleLease (by simp)⟩
  intro e he lease cursor htag
  exact not_orphaned_of_meetsNoStop (all_eq_true.mp hnone e he) htag

/-- The attempt's only event and its stop evidence are lost; after a crash `recover`
supersedes the evidence, whose request is lost too; the next `recover` succeeds. -/
def lostSuccessor : List (Move Call Input) :=
  claimed ++
    [.start (.event 0 (.attemptStarted ⟨none, false, ""⟩))] ++ turns 2 8 ++
    answered 2 { controls := some [⟨1, 1, true, 1⟩] } ++ turns 2 11 ++
    [.start .stopActive] ++ turns 3 20 ++
    [.crash, .start .recover] ++ turns 0 6 ++ answered 0 { leases := some [exampleLease] } ++
    turns 0 20 ++
    [.start .recover] ++ turns 1 6 ++ answered 1 { leases := some [exampleLease] } ++ turns 1 20

/-- The runner is reconciled and the server never acknowledged any stop evidence. -/
theorem unsettled_lostSuccessor :
    ¬ ∀ (dev : Device) (ms : List (Move Call Input)), ∀ e ∈ runnerTrace dev ms,
      ∀ leases, e.tag = .reconciled leases →
        ∀ item ∈ leases, Settled e.post item.descriptor.toLeaseIdentity := by
  intro h
  have hend : ((runnerTrace exampleDevice lostSuccessor).any fun e =>
      e.tag = .reconciled [exampleLease] &&
        e.post.acked.all fun r => r.1 ≠ "/runner/stop-evidence") = true := by decide
  obtain ⟨e, he, htag⟩ := any_eq_true.mp hend
  obtain ⟨htag, hacked⟩ := Bool.and_eq_true_iff.mp htag
  have hset := h exampleDevice lostSuccessor e he _ (of_decide_eq_true htag) exampleLease (by simp)
  obtain ⟨f, ⟨-, -, hroute, -⟩, -, hack⟩ := hset.evidence
  have hne := all_eq_true.mp hacked _ hack
  simp [hroute] at hne

end GrowTeam.Runner
