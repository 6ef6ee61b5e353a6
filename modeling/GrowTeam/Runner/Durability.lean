/-
# What the journal says about the server

The invariant of the runner's journal and the proof that every step of the modelled code
keeps it.

* A stop entry holds the stop event of the attempt and epoch its id names; the entry that
  supersedes one exists only once that one points to it; a done stop entry was acknowledged
  or points to its successor.
* An authority entry stands on a consume entry of the same operation and lease whose answer
  was the started operation.

The rules also fix what a step may do to a store (`Later`): the journal only extends and no
acknowledgement is forgotten.
-/
import GrowTeam.Runner.Coordinator

namespace GrowTeam.Runner

open Interleaving Journal

/-! ## Facts about the durable store -/

/-- The server has acknowledged the request of an entry. -/
def Acked (s : Store) (e : LogEntry) : Prop := (e.route, some e.request) ∈ s.acked

/-- An entry is done. -/
def Done (s : Store) (id : Key) : Prop := ∃ e, s.journal.get id = some e ∧ e.state = .done

/-- The stop entry of a lease points to the one that supersedes it. -/
def Superseded (s : Store) (attemptId : Uuid) (leaseEpoch sequence : ℕ) : Prop :=
  ∃ b c, s.journal.get (.stop attemptId leaseEpoch) = some b ∧ b.state = .done ∧
    b.response = some (.superseded (.stopAt attemptId leaseEpoch sequence) c)

/-- The server's acknowledgement that it consumed the operation for this lease is stored. -/
def Consumed (s : Store) (operationId : Uuid) (lease : LeaseIdentity) (operation : Operation) :
    Prop :=
  ∃ e given version hash nonce reply, s.journal.get (.consume operationId) = some e ∧
    e.state = .done ∧ e.request = .consume given operationId version hash nonce ∧
    given.toLeaseIdentity = lease ∧ e.response = some (.reply reply) ∧
    reply.operation = some operation ∧ operation.operationId = operationId ∧
    operation.operationHash = hash ∧ operation.status = .started ∧
    operation.version = version + 1

/-- A stop entry is about the lease its id names. -/
def StopEntry (s : Store) (e : LogEntry) : Prop :=
  ∃ event, e.request = .stopEvidence event ∧ e.route = "/runner/stop-evidence" ∧
    event.body = .attemptStopped stopPayload ∧
    (e.id = .stop event.attemptId event.leaseEpoch ∨
      ∃ q, e.id = .stopAt event.attemptId event.leaseEpoch q ∧
        Superseded s event.attemptId event.leaseEpoch q)

/-- A done stop entry was acknowledged, or points to its successor. -/
def StopDone (s : Store) (e : LogEntry) : Prop :=
  (Acked s e ∧ ∃ r, e.response = some (.reply r)) ∨ ∃ a n q c, e.id = .stop a n ∧ e.response = some (.superseded (.stopAt a n q) c)

/-- An effect entry is about the operation of the authority entry it was made from. -/
def Authorised (s : Store) (op : Uuid) (operation : Operation) : Prop :=
  operation.operationId = op ∧ ∃ a given, s.journal.get (.authority op) = some a ∧
    a.request = .authority given operation

/-- The invariant of one entry. -/
structure Good (s : Store) (e : LogEntry) : Prop where
  kind : e.kind = e.id.kind
  stop : e.kind = "stop" → StopEntry s e
  stopDone : e.kind = "stop" → e.state = .done → StopDone s e
  authority : ∀ op, e.id = .authority op → ∃ given operation,
    e.request = .authority given operation ∧ Consumed s op given.toLeaseIdentity operation
  effect : ∀ op, e.id = .effect op → ∃ operation,
    e.request = .effect operation ∧ Authorised s op operation
  foreign : ∀ kind id, e.id = .other kind id → kind ∉ coordinatorKinds

/-- What a step leaves of an earlier store. -/
def Later (s s' : Store) : Prop :=
  s.journal.Extends s'.journal ∧ ∀ r ∈ s.acked, r ∈ s'.acked

/-- The stop entry of a reported lease is done, and so is its successor if it has one. -/
def Reported (s : Store) (lease : LeaseIdentity) : Prop :=
  ∃ b, s.journal.get (.stop lease.attemptId lease.leaseEpoch) = some b ∧ b.state = .done ∧
    ∀ next c, b.response = some (.superseded next c) → Done s next

/-- The stop entry was superseded, but the evidence that supersedes it was never
acknowledged: the lost request, or the crash between the two writes. -/
def Orphaned (s : Store) (lease : LeaseIdentity) : Prop :=
  ∃ b next c, s.journal.get (.stop lease.attemptId lease.leaseEpoch) = some b ∧
    b.state = .done ∧ b.response = some (.superseded next c) ∧ ¬ Done s next

/-- The rules of the runner.  Under `careful`, only runs count in which `recover` meets no
orphaned stop entry, and its last step has to find every reported lease reported. -/
def rules (careful : Prop) : Rules Store Tag where
  inv s := ∀ id e, s.journal.get id = some e → Good s e
  guar := Later
  cond tag s := match tag with
    | .checkStop lease (some _) => careful → ¬ Orphaned s lease
    | _ => True
  post tag s s' := match tag with
    | .reconciled leases =>
      careful → ∀ item ∈ leases, Reported s item.descriptor.toLeaseIdentity
    | .begun op lease =>
      (∃ e, s.journal.get (.effect op) = some e ∧ e.state = .prepared) ∧
        (∃ e, s'.journal.get (.effect op) = some e ∧ e.state = .uncertain) ∧
        ∃ operation, Consumed s op lease operation
    | _ => True

/-! ## They last -/

namespace Later

variable {s s' s'' : Store}

theorem refl (s : Store) : Later s s := ⟨.refl _, fun _ h => h⟩

/-- A step on the process alone. -/
theorem of_eq (hj : s'.journal = s.journal) (ha : s'.acked = s.acked) : Later s s' :=
  ⟨hj ▸ .refl _, fun _ hr => ha ▸ hr⟩

section

variable (h : Later s s')

include h

variable {e : LogEntry}

theorem acked (he : Acked s e) : Acked s' e := h.2 _ he

theorem done {id : Key} (hd : Done s id) : Done s' id := by
  obtain ⟨e, he, hst⟩ := hd
  exact ⟨e, h.1.done he hst, hst⟩

theorem superseded {a n q : ℕ} (hs : Superseded s a n q) : Superseded s' a n q := by
  obtain ⟨b, c, hb, hst, hr⟩ := hs
  exact ⟨b, c, h.1.done hb hst, hst, hr⟩

theorem consumed {op : Uuid} {lease : LeaseIdentity} {operation : Operation}
    (hc : Consumed s op lease operation) : Consumed s' op lease operation := by
  obtain ⟨e, given, v, hash, nonce, reply, he, hst, hrest⟩ := hc
  exact ⟨e, given, v, hash, nonce, reply, h.1.done he hst, hst, hrest⟩

theorem reported {lease : LeaseIdentity} (hr : Reported s lease) : Reported s' lease := by
  obtain ⟨b, hb, hst, hnext⟩ := hr
  exact ⟨b, h.1.done hb hst, hst, fun next c hc => h.done (hnext next c hc)⟩

theorem authorised {op : Uuid} {operation : Operation}
    (ha : Authorised s op operation) : Authorised s' op operation := by
  obtain ⟨hid, a, given, hget, hreq⟩ := ha
  obtain ⟨a', hget', hf⟩ := h.1 _ a hget
  exact ⟨hid, a', given, hget', hf.2.2.2.2.1.trans hreq⟩

theorem stopEntry (he : StopEntry s e) : StopEntry s' e := by
  obtain ⟨event, hreq, hroute, hbody, hid⟩ := he
  refine ⟨event, hreq, hroute, hbody, ?_⟩
  rcases hid with hid | ⟨q, hid, hs⟩
  · exact .inl hid
  · exact .inr ⟨q, hid, h.superseded hs⟩

theorem good (he : Good s e) : Good s' e := { he with
  stop hk := h.stopEntry (he.stop hk)
  stopDone hk hst := (he.stopDone hk hst).imp (And.imp_left h.acked) id
  authority op hid := by
    obtain ⟨given, operation, hreq, hc⟩ := he.authority op hid
    exact ⟨given, operation, hreq, h.consumed hc⟩
  effect op hid := by
    obtain ⟨operation, hreq, ha⟩ := he.effect op hid
    exact ⟨operation, hreq, h.authorised ha⟩ }

end

end Later

/-- The entry, or a later form of it, is in the journal. -/
def Present (e : LogEntry) (s : Store) : Prop :=
  ∃ e', s.journal.get e.id = some e' ∧ e.Forward e'

section Rules

variable {careful : Prop}

/-- A fact that every later store keeps is stable. -/
theorem stable_of_later {P : Store → Prop} (h : ∀ s s', Later s s' → P s → P s') :
    (rules careful).Stable P := fun s s' _ _ hl hp => h s s' hl hp

theorem stable_present (e : LogEntry) : (rules careful).Stable (Present e) := by
  refine stable_of_later ?_
  rintro s s' hl ⟨e', he', hf⟩
  obtain ⟨e'', he'', hf'⟩ := hl.1 e.id e' he'
  exact ⟨e'', he'', hf.trans hf'⟩

/-- The invariant after a step: only entries that are new or changed have to be shown. -/
theorem inv_of_later {s s' : Store} (hs : (rules careful).inv s) (hl : Later s s')
    (hnew : ∀ id e, s'.journal.get id = some e → s.journal.get id = some e ∨ Good s' e) :
    (rules careful).inv s' := by
  intro id e he
  rcases hnew id e he with h | h
  · exact hl.good (hs id e h)
  · exact h

end Rules

/-! ## The durable writes -/

variable {careful : Prop} {s : Store}

/-- `prepare` may add any entry whose own facts hold already. -/
theorem allowed_prepare {kind route scope : String} {id : Key} {body : Data} {e : LogEntry}
    {j : Log} (hs : (rules careful).inv s)
    (hnew : Good s (newEntry kind id route body scope))
    (h : s.journal.prepare kind id route body scope = .ok (e, j)) :
    (rules careful).inv { s with journal := j } ∧ Later s { s with journal := j } := by
  have hl : Later s { s with journal := j } := ⟨prepare_extends h, fun _ hr => hr⟩
  refine ⟨inv_of_later hs hl ?_, hl⟩
  intro id' e' he'
  rcases prepare_ok h with ⟨-, rfl, -⟩ | ⟨-, rfl, hget⟩
  · exact .inl he'
  · rw [hget] at he'
    split at he'
    · cases he'
      exact .inr (hl.good hnew)
    · exact .inl he'

theorem allowed_uncertain (hs : (rules careful).inv s) (id : Key) :
    (rules careful).inv { s with journal := s.journal.uncertain id } ∧
      Later s { s with journal := s.journal.uncertain id } := by
  have hl : Later s { s with journal := s.journal.uncertain id } :=
    ⟨uncertain_extends _ _, fun _ hr => hr⟩
  refine ⟨inv_of_later hs hl ?_, hl⟩
  intro id' e' he'
  rw [get_uncertain] at he'
  obtain ⟨e, he, heq⟩ := Option.map_eq_some_iff.mp he'
  split at heq
  · next hch =>
    subst heq
    have hg := hl.good (hs id' e he)
    exact .inr { hg with stopDone := fun _ hst => by simp at hst }
  · subst heq
    exact .inl he

/-- `complete` may end a stop entry only with an acknowledgement or with its successor. -/
theorem allowed_complete {id : Key} {response : Data} {j : Log} (hs : (rules careful).inv s)
    (hstop : ∀ e, s.journal.get id = some e → e.kind = "stop" →
      (Acked s e ∧ ∃ r, response = .reply r) ∨
        ∃ a n q c, id = .stop a n ∧ response = .superseded (.stopAt a n q) c)
    (h : s.journal.complete id response = .ok j) :
    (rules careful).inv { s with journal := j } ∧ Later s { s with journal := j } := by
  have hl : Later s { s with journal := j } := ⟨complete_extends h, fun _ hr => hr⟩
  obtain ⟨old, hold, -, hget⟩ := complete_ok h
  refine ⟨inv_of_later hs hl ?_, hl⟩
  intro id' e' he'
  rw [hget] at he'
  split at he'
  · cases he'
    have hg : Good _ old := hl.good (hs id old hold)
    have hid : old.id = id := get_id hold
    refine .inr { hg with stopDone := fun hk _ => ?_ }
    rcases hstop old hold hk with ⟨hack, r, rfl⟩ | ⟨a, n, q, c, rfl, rfl⟩
    · exact .inl ⟨hack, r, rfl⟩
    · exact .inr ⟨a, n, q, c, hid, rfl⟩
  · exact .inl he'

end GrowTeam.Runner
