/-
# Operations and their approvals

What every entry keeps of the rows of approvals: what an approval is bound to never
changes, a decision is never taken back to pending, and a consumed one stays consumed.
`Docket` is the invariant that ties approvals to their operations.
-/
import GrowTeam.Server.Runs

namespace GrowTeam.Server

open List

namespace Ledger

variable {site : Site} {c d : Ledger} {m : Option Deed}

/-! ## What an approval keeps -/

/-- What an approval keeps, whatever is written into its row, and what its decision needs. -/
structure Bound (m : Option Deed) (p p' : Approval) : Prop where
  id : p'.id = p.id
  attempt : p'.attemptId = p.attemptId
  operation : p'.operationId = p.operationId
  hash : p'.operationHash = p.operationHash
  tree : p'.treeHash = p.treeHash
  nonce : p'.nonce = p.nonce
  decided : p.decision ≠ .pending → p'.decision ≠ .pending
  final : p.decision = .consumed → p' = p
  approved : p'.decision = .approved → p' = p ∨
    p.decision = .pending ∧ ∃ actor, m = some (.approved p.id actor) ∧ p'.approver = some actor
  consumed : p'.decision = .consumed → p' = p ∨
    p.decision = .approved ∧ p'.approver = p.approver ∧ ∃ o, m = some (.consumed p.id o)

theorem Bound.refl (m : Option Deed) (p : Approval) : Bound m p p :=
  ⟨rfl, rfl, rfl, rfl, rfl, rfl, fun h => h, fun _ => rfl, fun _ => .inl rfl, fun _ => .inl rfl⟩

/-- A decision that ends an approval without using it. -/
theorem Bound.close (m : Option Deed) {p : Approval} {decision : ApprovalState}
    (hp : p.decision ≠ .consumed) (hd : decision ∉ [.pending, .approved, .consumed]) :
    Bound m p { p with decision := decision } := by
  simp only [mem_cons, not_mem_nil, or_false, not_or] at hd
  exact ⟨rfl, rfl, rfl, rfl, rfl, rfl, fun _ => hd.1, fun h => absurd h hp,
    fun h => absurd h hd.2.1, fun h => absurd h hd.2.2⟩

/-- The rows of approvals after an entry: each stays bound, and at most one is new. -/
theorem Entry.approvals (hids : (c.approvals.map (·.id)).Nodup) (h : Entry site c m d) :
    Follows (Bound m) c.approvals d.approvals ∨
    ∃ a o p, c.Proposed a o ∧ c.Requested o p ∧ d.nextId = c.nextId + 2 ∧
      d.operations = c.operations ++ [o] ∧ d.approvals = c.approvals ++ [p] := by
  have hclose : ∀ (m : Option Deed) (b : Approval → Bool), Follows (Bound m) c.approvals
      (updateWhere (fun p => b p && p.decision ∈ [.pending, .approved])
        (fun p => { p with decision := .cancelled }) c.approvals) := by
    intro m b
    refine follows_updateWhere (.refl m) fun p _ hp => .close m ?_ (by simp)
    intro hc
    simp [hc] at hp
  cases h with
  | proposed a o p hl ho hs hp => exact .inr ⟨a, o, p, ho, hp, rfl, rfl, rfl⟩
  | requested | interrupted => exact .inl (hclose _ _)
  | steered i hs hb hi =>
    left
    unfold steer
    split
    · exact hclose _ _
    · exact follows_same (.refl _) rfl
  | revoked now hr =>
    refine .inl (follows_same (.refl _) ?_)
    unfold revoke
    split <;> rfl
  | stopped a reason ha hactive =>
    rw [contain_approvals, ended_approvals]
    exact .inl (hclose _ _)
  | approved a p actor now hl hp ha hd =>
    refine .inl (follows_update (.refl _) hids hp ?_)
    exact ⟨rfl, rfl, rfl, rfl, rfl, rfl, fun _ => by simp, by simp [hd],
      fun _ => .inr ⟨hd, actor, rfl, rfl⟩, by simp⟩
  | rejected a p actor now hl hp ha hd =>
    refine .inl (follows_update (.refl _) hids hp ?_)
    exact ⟨rfl, rfl, rfl, rfl, rfl, rfl, fun _ => by simp, by simp [hd], by simp, by simp⟩
  | expired p hp hd he =>
    refine .inl (follows_update (.refl _) hids hp ?_)
    exact .close _ (fun hc => by simp [hc] at hd) (by simp)
  | consumed a o p now hl ho ha hs hp =>
    refine .inl (follows_update (.refl _) hids hp.mem ?_)
    exact ⟨rfl, rfl, rfl, rfl, rfl, rfl, fun _ => by simp, by simp [hp.approved], by simp,
      fun _ => .inr ⟨hp.approved, rfl, o.operationId, rfl⟩⟩
  | _ => exact .inl (follows_same (.refl _) rfl)

/-- What a consumption needs, and what it leaves. -/
theorem Entry.usable {i j : Uuid} (h : Entry site c (some (.consumed i j)) d) :
    ∃ o ∈ c.operations, ∃ p, c.Usable o p ∧ p.id = i ∧ o.operationId = j ∧
      ∃ p' ∈ d.approvals, p'.operationId = j ∧ p'.decision = .consumed := by
  cases h with
  | consumed a o p now hl ho ha hs hp =>
    refine ⟨o, ho, p, hp, rfl, rfl, _, mem_map_of_mem hp.mem, ?_⟩
    simp [hp.operation]

/-! ## The docket -/

/-- How approvals and operations go together. -/
structure Docket (site : Site) (c : Ledger) : Prop where
  ids : (c.approvals.map (·.id)).Nodup
  fresh : ∀ p ∈ c.approvals, p.id < c.nextId
  single : (c.approvals.map (·.operationId)).Nodup
  bound : ∀ p ∈ c.approvals, ∃ o ∈ c.operations, o.operationId = p.operationId ∧
    o.attemptId = p.attemptId ∧ o.argumentDigest = p.operationHash ∧
    o.scopeBinding.treeHash.getD "" = p.treeHash
  /-- An operation that leaves the server is only started with an approval. -/
  remote : ∀ o ∈ c.operations, o.toolClass ∈ remoteClasses → o.status ≠ .proposed →
    ∃ p ∈ c.approvals, p.operationId = o.operationId ∧ p.decision = .consumed
  received : ∀ o ∈ c.operations, o.toolClass ∈ remoteClasses → o.status = .succeeded →
    ∃ receipt, o.remoteReceipt = some receipt ∧ matchesOperation site o receipt = true

theorem matchesOperation_congr {o o' : Operation} (hid : o'.operationId = o.operationId)
    (hclass : o'.toolClass = o.toolClass) (harguments : o'.arguments = o.arguments)
    (receipt : RemoteReceipt) :
    matchesOperation site o' receipt = matchesOperation site o receipt := by
  unfold matchesOperation
  rw [hid, hclass, harguments]

/-- The operation of an approval keeps what the approval is bound to. -/
theorem Docket.bound_entry (hids : (c.operations.map (·.operationId)).Nodup) (h : Docket site c)
    (he : Entry site c m d) (p : Approval) (hp : p ∈ c.approvals) :
    ∃ o ∈ d.operations, o.operationId = p.operationId ∧ o.attemptId = p.attemptId ∧
      o.argumentDigest = p.operationHash ∧ o.scopeBinding.treeHash.getD "" = p.treeHash := by
  obtain ⟨o, ho, h₁, h₂, h₃, h₄⟩ := h.bound p hp
  rcases he.operations hids with ⟨f, hf, heq⟩ | ⟨a, o', -, -, heq, -⟩
  · have hk := hf o ho
    rw [heq]
    exact ⟨f o, mem_map_of_mem ho, hk.id.trans h₁, hk.attempt.trans h₂, hk.digest.trans h₃,
      by rw [hk.scope, h₄]⟩
  · rw [heq]
    exact ⟨o, mem_append_left _ ho, h₁, h₂, h₃, h₄⟩

/-- A consumed approval stays. -/
theorem Docket.consumed_entry (h : Docket site c) (he : Entry site c m d) {i : Uuid}
    (hc : ∃ p ∈ c.approvals, p.operationId = i ∧ p.decision = .consumed) :
    ∃ p ∈ d.approvals, p.operationId = i ∧ p.decision = .consumed := by
  obtain ⟨p, hp, hi, hd⟩ := hc
  rcases he.approvals h.ids with ⟨f, hf, heq⟩ | ⟨a, o, p', -, -, -, -, heq⟩
  · have hk := (hf p hp).final hd
    rw [heq]
    exact ⟨f p, mem_map_of_mem hp, by rw [hk, hi], by rw [hk, hd]⟩
  · rw [heq]
    exact ⟨p, mem_append_left _ hp, hi, hd⟩

theorem Docket.remote_entry (hids : (c.operations.map (·.operationId)).Nodup) (h : Docket site c)
    (he : Entry site c m d) (o : Operation) (ho : o ∈ d.operations)
    (hr : o.toolClass ∈ remoteClasses) (hs : o.status ≠ .proposed) :
    ∃ p ∈ d.approvals, p.operationId = o.operationId ∧ p.decision = .consumed := by
  rcases he.operations hids with ⟨f, hf, heq⟩ | ⟨a, o', -, -, heq, hstatus⟩
  · rw [heq] at ho
    obtain ⟨x, hx, rfl⟩ := mem_map.mp ho
    have hk := hf x hx
    rw [hk.toolClass] at hr
    rw [hk.id]
    by_cases hproposed : x.status = .proposed
    · obtain ⟨i, rfl⟩ := (hk.approved hproposed).resolve_left hs
      obtain ⟨o₁, -, p, -, -, ho₁, hp'⟩ := he.usable
      exact hp'
    · exact h.consumed_entry he (h.remote x hx hr hproposed)
  · rw [heq] at ho
    rcases mem_append.mp ho with ho | ho
    · exact h.consumed_entry he (h.remote o ho hr hs)
    · rw [mem_singleton.mp ho] at hr hs
      rcases hstatus with ⟨-, hc, -⟩ | ⟨hproposed, -⟩
      · exact absurd hr hc
      · exact absurd hproposed hs

theorem Docket.received_entry (hids : (c.operations.map (·.operationId)).Nodup)
    (h : Docket site c) (he : Entry site c m d) (o : Operation) (ho : o ∈ d.operations)
    (hr : o.toolClass ∈ remoteClasses) (hs : o.status = .succeeded) :
    ∃ receipt, o.remoteReceipt = some receipt ∧ matchesOperation site o receipt = true := by
  rcases he.operations hids with ⟨f, hf, heq⟩ | ⟨a, o', -, -, heq, hstatus⟩
  · rw [heq] at ho
    obtain ⟨x, hx, rfl⟩ := mem_map.mp ho
    have hk := hf x hx
    rw [hk.toolClass] at hr
    simp only [matchesOperation_congr hk.id hk.toolClass hk.arguments]
    rcases hk.received hr hs with ⟨hs₀, hsame⟩ | hreceipt
    · rw [hsame]
      exact h.received x hx hr hs₀
    · exact hreceipt
  · rw [heq] at ho
    rcases mem_append.mp ho with ho | ho
    · exact h.received o ho hr hs
    · rw [mem_singleton.mp ho] at hs
      rcases hstatus with ⟨ha, -⟩ | ⟨hproposed, -⟩
      · rw [ha] at hs
        cases hs
      · rw [hproposed] at hs
        cases hs

/-- **Entries keep the docket.** -/
theorem Docket.entry (ho : Orderly c) (h : Docket site c) (he : Entry site c m d) :
    Docket site d := by
  have hids := ho.operationIds
  have hremote := h.remote_entry hids he
  have hreceived := h.received_entry hids he
  have hbound := h.bound_entry hids he
  have hnext := he.attempts.1
  rcases he.approvals h.ids with ⟨f, hf, heq⟩ | ⟨a, o, p, hproposed, hp, hlast, hops, heq⟩
  · have hmap : ∀ {κ : Type} (key : Approval → κ), (∀ p ∈ c.approvals, key (f p) = key p) →
        d.approvals.map key = c.approvals.map key := by
      intro κ key hkey
      rw [heq, map_map]
      exact map_congr_left hkey
    refine ⟨?_, ?_, ?_, ?_, hremote, hreceived⟩
    · rw [hmap (·.id) fun p hp => (hf p hp).id]
      exact h.ids
    · intro p' hp'
      rw [heq] at hp'
      obtain ⟨p, hp, rfl⟩ := mem_map.mp hp'
      rw [(hf p hp).id]
      exact lt_of_lt_of_le (h.fresh p hp) hnext
    · rw [hmap (·.operationId) fun p hp => (hf p hp).operation]
      exact h.single
    · intro p' hp'
      rw [heq] at hp'
      obtain ⟨p, hp, rfl⟩ := mem_map.mp hp'
      have hk := hf p hp
      rw [hk.operation, hk.attempt, hk.hash, hk.tree]
      exact hbound p hp
  · refine ⟨?_, ?_, ?_, ?_, hremote, hreceived⟩
    · rw [heq]
      refine nodup_append_key h.ids fun q hq => ?_
      rw [hp.id]
      exact Nat.ne_of_lt (h.fresh q hq)
    · intro q hq
      rw [heq] at hq
      rw [hlast]
      rcases mem_append.mp hq with hq | hq
      · exact Nat.lt_of_lt_of_le (h.fresh q hq) (Nat.le_add_right _ 2)
      · rw [mem_singleton.mp hq, hp.id]
        exact Nat.lt_add_of_pos_right (by decide)
    · rw [heq]
      refine nodup_append_key h.single fun q hq => ?_
      obtain ⟨o', ho', hid, -⟩ := h.bound q hq
      rw [← hid, hp.operation]
      exact hproposed.fresh o' ho'
    · intro q hq
      rw [heq] at hq
      rcases mem_append.mp hq with hq | hq
      · exact hbound q hq
      · rw [mem_singleton.mp hq, hops]
        exact ⟨o, by simp, hp.operation.symm, hp.attempt.symm, hp.hash.symm, hp.tree.symm⟩

/-- Every approval that was given was given by its approver. -/
def Signed (l : List Deed) (c : Ledger) : Prop :=
  ∀ p ∈ c.approvals, p.decision ∈ [.approved, .consumed] →
    ∃ actor, p.approver = some actor ∧ .approved p.id actor ∈ l

theorem Signed.entry {l : List Deed} (hd : Docket site c) (h : Signed l c)
    (he : Entry site c m d) : Signed (l ++ m.toList) d := by
  have hkeep : ∀ p ∈ c.approvals, p.decision ∈ [.approved, .consumed] →
      ∃ actor, p.approver = some actor ∧ .approved p.id actor ∈ l ++ m.toList := by
    intro p hp hdecision
    obtain ⟨actor, hactor, hmem⟩ := h p hp hdecision
    exact ⟨actor, hactor, mem_append_left _ hmem⟩
  intro p hp hdecision
  rcases he.approvals hd.ids with ⟨f, hf, heq⟩ | ⟨a, o, q, -, hq, -, -, heq⟩
  · rw [heq] at hp
    obtain ⟨x, hx, rfl⟩ := mem_map.mp hp
    have hb := hf x hx
    rcases mem_cons.mp hdecision with ha | hc
    · rcases hb.approved ha with hsame | ⟨-, actor, rfl, hactor⟩
      · rw [hsame] at ha ⊢
        exact hkeep x hx (by simp [ha])
      · exact ⟨actor, hactor, by simp [hb.id]⟩
    · rcases hb.consumed (mem_singleton.mp hc) with hsame | ⟨ha, hactor, -⟩
      · rw [hsame] at hdecision ⊢
        exact hkeep x hx hdecision
      · rw [hactor, hb.id]
        exact hkeep x hx (by simp [ha])
  · rw [heq] at hp
    rcases mem_append.mp hp with hp | hp
    · exact hkeep p hp hdecision
    · rw [mem_singleton.mp hp, hq.pending] at hdecision
      simp at hdecision

end Ledger

open Interleaving Ledger

variable {moves : List (Move Call Unit)}

/-- Every state of a run has its approvals and operations in order, and every approval that
was given was given by its approver. -/
theorem docket_of_history {site : Site} {new : NewJob} {world : World} {now : Time}
    {past later : List (Event Store Tag)} {e : Event Store Tag}
    (h : history site new world now moves = past ++ e :: later) :
    (Docket site (ledger e.pre) ∧ Signed (past.flatMap (deedsOf site)) (ledger e.pre)) ∧
      Docket site (ledger e.post) ∧
        Signed ((past ++ [e]).flatMap (deedsOf site)) (ledger e.post) := by
  refine past_of_history (J := fun l c => Docket site c ∧ Signed l c) ?_ ?_ h
  · rw [ledger_created]
    exact ⟨⟨by simp, by simp, by simp, by simp, by simp, by simp⟩, by simp [Signed]⟩
  · exact fun l c m d ho he ⟨hd, hs⟩ => ⟨hd.entry ho he, hs.entry hd he⟩

/-- What every rewrite of a row keeps of an approval is kept of it by every event of a run. -/
theorem approval_of_history {site : Site} {new : NewJob} {world : World} {now : Time}
    {e : Event Store Tag} {Q : Approval → Prop}
    (hQ : ∀ {m p p'}, Bound m p p' → Q p → Q p')
    (he : e ∈ history site new world now moves) (hp : ∃ p ∈ e.pre.approvals, Q p) :
    ∃ p ∈ e.post.approvals, Q p := by
  have key : ∀ {c d : Ledger} {l : List Deed}, Entries site c l d → Orderly c → Docket site c →
      (∃ p ∈ c.approvals, Q p) → Docket site d ∧ ∃ p ∈ d.approvals, Q p := by
    intro c d l h ho hd hp
    induction h with
    | refl => exact ⟨hd, hp⟩
    | tail hrest he ih =>
      obtain ⟨hd, p, hp, hq⟩ := ih
      refine ⟨hd.entry (ho.entries hrest) he, ?_⟩
      rcases he.approvals hd.ids with ⟨f, hf, heq⟩ | ⟨a, o, q, -, -, -, -, heq⟩
      · exact ⟨f p, by rw [heq]; exact mem_map_of_mem hp, hQ (hf p hp) hq⟩
      · exact ⟨p, by rw [heq]; exact mem_append_left _ hp, hq⟩
  obtain ⟨past, later, hsplit⟩ := append_of_mem he
  exact (key (entries_of_history he) (ordered_of_history he).pre (docket_of_history hsplit).1.1 hp).2

end GrowTeam.Server
