/-
# What every ledger keeps

The invariants that the guarantees about attempts, steering and approvals share: how the
rows are numbered and told apart, and how the status of a job goes with its attempts.
Each is about the part of the ledger it needs, so the entries that leave this part alone
keep it by definition.
-/
import GrowTeam.Server.Entries

namespace GrowTeam.Server

open List

namespace Ledger

variable {site : Site} {c d : Ledger} {m : Option Deed} {a b : Tenure}

/-! ## How rows are told apart -/

/-- What an attempt keeps for good. -/
structure Card where
  id : Uuid
  number : ℕ
  leaseEpoch : ℕ
  claimKey : Uuid

/-- The card of an attempt. -/
def card (a : Tenure) : Card := ⟨a.id, a.number, a.leaseEpoch, a.claimKey⟩

/-- What an attempt keeps, whatever is written into its row. -/
structure Held (a b : Tenure) : Prop where
  card : card b = card a
  createdAt : b.createdAt = a.createdAt
  descriptor : b.descriptor = a.descriptor
  active : b.active = true → a.active = true

theorem Held.refl (a : Tenure) : Held a a := ⟨rfl, rfl, rfl, fun h => h⟩

theorem Held.trans {e : Tenure} (h : Held a b) (h' : Held b e) : Held a e :=
  ⟨h'.card.trans h.card, h'.createdAt.trans h.createdAt, h'.descriptor.trans h.descriptor,
    fun he => h.active (h'.active he)⟩

theorem held_updateWhere (p : Tenure → Bool) {f : Tenure → Tenure} (hf : ∀ a, Held a (f a))
    (attempts : List Tenure) :
    ∃ g, (∀ a, Held a (g a)) ∧ updateWhere p f attempts = attempts.map g := by
  refine ⟨fun a => if p a then f a else a, fun a => ?_, rfl⟩
  dsimp only
  split
  · exact hf a
  · exact .refl a

/-- An entry writes into the rows of the attempts, or it adds the one of a claim. -/
theorem Entry.attempts (h : Entry site c m d) :
    c.nextId ≤ d.nextId ∧
      ((∃ f, (∀ a, Held a (f a)) ∧ d.attempts = c.attempts.map f) ∨
        ∃ a, m = some (.claimed a.id) ∧ c.Idle ∧ c.Fresh a ∧ d.nextId = c.nextId + 1 ∧
          d.attempts = c.attempts ++ [a]) := by
  have hsame : ∃ f, (∀ a, Held a (f a)) ∧ c.attempts = c.attempts.map f :=
    ⟨fun a => a, .refl, (map_id' _).symm⟩
  have hkeep : ∀ (p : Tenure → Bool) (f : Tenure → Tenure), (∀ a, Held a (f a)) →
      ∃ g, (∀ a, Held a (g a)) ∧ updateWhere p f c.attempts = c.attempts.map g :=
    fun p f hf => held_updateWhere p hf c.attempts
  cases h with
  | allocated n hn => exact ⟨hn, .inl hsame⟩
  | claimed a hs hidle hr ha => exact ⟨Nat.le_succ _, .inr ⟨a, rfl, hidle, ha, rfl, rfl⟩⟩
  | steered i hs hb hi => exact ⟨Nat.le_succ _, .inl hsame⟩
  | proposed a o p hl ho hs hp => exact ⟨Nat.le_add_right _ 2, .inl hsame⟩
  | requested a target reason ha hactive hr | extended a expires hl he
  | fenced a ha hactive hp hr hs | interrupted a reason ha hactive hr =>
    exact ⟨le_rfl, .inl (hkeep _ _ fun a => ⟨rfl, rfl, rfl, fun h => h⟩)⟩
  | started a hl => exact ⟨le_rfl, .inl (hkeep _ _ fun a => ⟨rfl, rfl, rfl, fun h => h⟩)⟩
  | stopped a reason ha hactive =>
    rw [contain_nextId, ended_nextId, contain_attempts, ended_attempts]
    exact ⟨le_rfl, .inl (hkeep _ _ fun a => ⟨rfl, rfl, rfl, nofun⟩)⟩
  | revoked now hr =>
    unfold revoke
    split
    · exact ⟨le_rfl, .inl (hkeep _ _ fun a => ⟨rfl, rfl, rfl, fun h => h⟩)⟩
    · exact ⟨le_rfl, .inl hsame⟩
  | _ => exact ⟨le_rfl, .inl hsame⟩

/-- Attempts are numbered in the order they were claimed, and told apart by each key. -/
structure Roster (cards : List Card) (nextId : ℕ) : Prop where
  numbered : cards.map (·.number) = List.range' 1 cards.length
  epochs : ∀ k ∈ cards, k.leaseEpoch = k.number
  ids : (cards.map (·.id)).Nodup
  fresh : ∀ k ∈ cards, k.id < nextId
  keys : (cards.map (·.claimKey)).Nodup

/-- The numbers run from one, so the highest is how many there are. -/
theorem foldl_max_range (n : ℕ) : (List.range' 1 n).foldl max 0 = n := by
  induction n with
  | zero => rfl
  | succ n ih =>
    rw [range'_concat, foldl_append, ih]
    show max n (1 + 1 * n) = n + 1
    omega

/-- **Entries keep the attempts numbered.** -/
theorem Roster.entry (h : Roster (c.attempts.map card) c.nextId) (he : Entry site c m d) :
    Roster (d.attempts.map card) d.nextId := by
  obtain ⟨hnext, ⟨f, hf, hsame⟩ | ⟨a, -, -, ha, hid, happ⟩⟩ := he.attempts
  · have hcards : d.attempts.map card = c.attempts.map card := by
      rw [hsame, map_map]
      exact map_congr_left fun a _ => (hf a).card
    rw [hcards]
    exact ⟨h.numbered, h.epochs, h.ids, fun k hk => lt_of_lt_of_le (h.fresh k hk) hnext, h.keys⟩
  rw [happ, hid, map_append, map_singleton]
  have hnumber : a.number = (c.attempts.map card).length + 1 := by
    have hnumbers : c.attempts.map (·.number) = (c.attempts.map card).map (·.number) := by
      rw [map_map]
      rfl
    rw [ha.number, hnumbers, h.numbered, foldl_max_range]
  refine ⟨?_, ?_, nodup_append_key h.ids ?_, ?_, nodup_append_key h.keys ?_⟩
  · rw [map_append, h.numbered, List.length_append, length_singleton, range'_concat]
    show _ ++ [a.number] = _
    congr 2
    omega
  · intro k hk
    rcases mem_append.mp hk with hk | hk
    · exact h.epochs k hk
    · rw [mem_singleton.mp hk]
      exact ha.epoch
  · intro k hk
    have hlt := h.fresh k hk
    show k.id ≠ a.id
    rw [ha.id]
    exact Nat.ne_of_lt hlt
  · intro k hk
    rcases mem_append.mp hk with hk | hk
    · exact Nat.lt_succ_of_lt (h.fresh k hk)
    · rw [mem_singleton.mp hk]
      show a.id < _
      rw [ha.id]
      exact Nat.lt_succ_self _
  · intro k hk
    obtain ⟨b, hb, rfl⟩ := mem_map.mp hk
    exact ha.key b hb

/-- Attempts with the same id are the same. -/
theorem Roster.eq_of_id (h : Roster (c.attempts.map card) c.nextId) (ha : a ∈ c.attempts)
    (hb : b ∈ c.attempts) (hid : a.id = b.id) : a = b := by
  have hids : (c.attempts.map (·.id)).Nodup := by
    have hn := h.ids
    rw [map_map] at hn
    exact hn
  exact eq_of_key hids ha hb hid

/-! ## Attempts and the status of their job -/

/-- The statuses of a job that somebody works for. -/
def busyStatuses : List JobState :=
  [.running, .waitingForInput, .waitingForApproval, .cancelRequested]

/-- The statuses of a job that nobody works for. -/
def idleStatuses : List JobState := [.draft, .queued, .cancelled, .blocked, .completed]

/-- How the status of a job goes with its attempts.  Only the last one can be active. -/
structure Crew (status : JobState) (attempts : List Tenure) : Prop where
  last : attempts.Pairwise fun a _ => a.active = false
  stopped : ∀ a ∈ attempts, a.active = false ↔ a.process = .stopped
  busy : status ∈ busyStatuses → ∃ a ∈ attempts, a.active = true
  idle : status ∈ idleStatuses → ∀ a ∈ attempts, a.active = false

variable {attempts : List Tenure}

/-- Two active attempts are the same. -/
theorem Crew.eq_of_active {status : JobState} (h : Crew status attempts)
    (ha : a ∈ attempts) (hb : b ∈ attempts) (hactive : a.active = true)
    (hactive' : b.active = true) : a = b := by
  by_contra hne
  have hpair := h.last
  have hsome : a.active = false ∨ b.active = false :=
    List.Pairwise.forall_of_forall_of_flip (R := fun x y : Tenure =>
      x ≠ y → x.active = false ∨ y.active = false) (by simp) (hpair.imp fun hx _ => .inl hx)
      (hpair.imp fun hx _ => .inr hx) ha hb hne
  rcases hsome with hf | hf
  · rw [hactive] at hf
    cases hf
  · rw [hactive'] at hf
    cases hf

/-- The job changes its status. -/
theorem Crew.status {status status' : JobState} (h : Crew status attempts)
    (hbusy : status' ∈ busyStatuses → ∃ a ∈ attempts, a.active = true)
    (hidle : status' ∈ idleStatuses → ∀ a ∈ attempts, a.active = false) : Crew status' attempts :=
  ⟨h.last, h.stopped, hbusy, hidle⟩

/-- The job changes its status while an attempt is active. -/
theorem Crew.worked {status : JobState}
    (h : Crew status attempts) (status' : JobState) (ha : a ∈ attempts) (hactive : a.active = true)
    (hs : status' ∉ idleStatuses) : Crew status' attempts :=
  h.status (fun _ => ⟨a, ha, hactive⟩) fun hidle => absurd hidle hs

/-- The job changes its status while none is. -/
theorem Crew.rested {status : JobState}
    (h : Crew status attempts) (status' : JobState) (hidle : ∀ a ∈ attempts, a.active = false)
    (hs : status' ∉ busyStatuses) : Crew status' attempts :=
  h.status (fun hbusy => absurd hbusy hs) fun _ => hidle

/-- The job changes to a status that says nothing of its attempts. -/
theorem Crew.other {status : JobState} (h : Crew status attempts)
    (status' : JobState) (hbusy : status' ∉ busyStatuses) (hidle : status' ∉ idleStatuses) :
    Crew status' attempts :=
  h.status (fun hb => absurd hb hbusy) fun hi => absurd hi hidle

/-- An update of active attempts that does not stop them. -/
theorem Crew.update {status : JobState} (h : Crew status attempts)
    {p : Tenure → Bool} {f : Tenure → Tenure}
    (hp : ∀ b ∈ attempts, p b = true → b.active = true) (hf : ∀ b, (f b).active = b.active)
    (hs : ∀ b, b.process ≠ .stopped → (f b).process ≠ .stopped) :
    Crew status (updateWhere p f attempts) := by
  refine ⟨pairwise_updateWhere h.last ?_, ?_, fun hbusy => ?_, fun hidle => ?_⟩
  · intro x y hxy
    exact ⟨(hf x).trans hxy, hxy, (hf x).trans hxy⟩
  · refine forall_updateWhere h.stopped ?_
    intro b hb hpb hiff
    have hactive := hp b hb hpb
    have hrun : b.process ≠ .stopped := by
      intro hstop
      rw [hiff.mpr hstop] at hactive
      cases hactive
    rw [hf b, hactive]
    simp [hs b hrun]
  · obtain ⟨b, hb, hactive⟩ := h.busy hbusy
    by_cases hpb : p b = true
    · exact ⟨f b, mem_updateWhere.mpr ⟨b, hb, .inl ⟨hpb, rfl⟩⟩, (hf b).trans hactive⟩
    · exact ⟨b, mem_updateWhere.mpr ⟨b, hb, .inr ⟨by simpa using hpb, rfl⟩⟩, hactive⟩
  · exact forall_updateWhere (h.idle hidle) fun b _ _ hb => (hf b).trans hb

/-- The active attempt stops. -/
theorem Crew.contain {status status' : JobState}
    (h : Crew status attempts) (ha : a ∈ attempts) (hactive : a.active = true)
    (hs : status' ∉ busyStatuses) : Crew status' (updateWhere (·.id = a.id)
      (fun b => { b with process := .stopped, active := false }) attempts) := by
  have hidle : ∀ b ∈ updateWhere (·.id = a.id)
      (fun b : Tenure => { b with process := .stopped, active := false }) attempts,
      b.active = false := by
    intro b hb
    obtain ⟨x, hx, ⟨-, rfl⟩ | ⟨hid, rfl⟩⟩ := mem_updateWhere.mp hb
    · rfl
    · by_contra hne
      have hsame := h.eq_of_active hx ha (by simpa using hne) hactive
      rw [hsame] at hid
      simp at hid
  refine ⟨pairwise_updateWhere h.last ?_, ?_, fun hbusy => absurd hbusy hs, fun _ => hidle⟩
  · exact fun x y hxy => ⟨rfl, hxy, rfl⟩
  · exact forall_updateWhere h.stopped fun b _ _ _ => by simp

/-- **Entries keep the status and the attempts together.** -/
theorem Crew.entry (hr : Roster (c.attempts.map card) c.nextId) (h : Crew c.status c.attempts)
    (he : Entry site c m d) : Crew d.status d.attempts := by
  -- With one id there is one attempt, so what is written to an active one is written to no other.
  have hone : ∀ a ∈ c.attempts, a.active = true → ∀ b ∈ c.attempts, decide (b.id = a.id) = true →
      b.active = true := by
    intro a ha hactive b hb hid
    rw [hr.eq_of_id hb ha (by simpa using hid)]
    exact hactive
  cases he with
  | drafted hs =>
    exact h.rested .queued (h.idle (by rw [hs]; decide)) (by decide)
  | halted target reason hidle hs =>
    exact h.rested target.status hidle (by cases target <;> decide)
  | requested a target reason ha hactive hreason =>
    have hcrew := h.update (p := (·.id = a.id)) (f := fun b => { b with process := .stopping })
      (hone a ha hactive) (by intro b; rfl) (by simp)
    refine hcrew.worked .cancelRequested (a := { a with process := .stopping }) ?_ hactive
      (by decide)
    exact mem_updateWhere.mpr ⟨a, ha, .inl ⟨by simp, rfl⟩⟩
  | steered i hs hb hi =>
    show Crew (if c.status ∈ reopened then .running else c.status) c.attempts
    split
    · next hre =>
      rcases hb with hq | ⟨a, ha, hactive, -⟩
      · rw [hq] at hre
        exact absurd hre (by decide)
      · exact h.worked .running ha hactive (by decide)
    · exact h
  | resumed hs hidle hi => exact h.rested .queued hidle (by decide)
  | revoked now hrevoked =>
    unfold revoke
    split
    · next hany =>
      obtain ⟨a, ha, hactive⟩ := any_eq_true.mp hany
      have hcrew := h.update (p := (·.active)) (f := fun b => { b with process := .stopping })
        (fun b _ hb => hb) (by intro b; rfl) (by simp)
      refine hcrew.worked .cancelRequested (a := { a with process := .stopping }) ?_ hactive
        (by decide)
      exact mem_updateWhere.mpr ⟨a, ha, .inl ⟨hactive, rfl⟩⟩
    · exact h
  | overdue hs => exact h.rested .blocked (h.idle (by rw [hs]; decide)) (by decide)
  | claimed a hs hidle hrevoked ha =>
    refine ⟨?_, ?_, fun _ => ⟨a, by simp [transition], ha.active⟩, fun hi => ?_⟩
    · refine pairwise_append.mpr ⟨h.last, pairwise_singleton _ _, ?_⟩
      exact fun x hx _ _ => hidle x hx
    · intro b hb
      rcases mem_append.mp hb with hb | hb
      · exact h.stopped b hb
      · rw [mem_singleton.mp hb, ha.active, ha.process]
        simp
    · simp [transition, idleStatuses] at hi
  | extended a expires hl hexp =>
    exact h.update (hone a hl.mem hl.active) (by intro b; rfl) (by simp)
  | fenced a ha hactive hp hrevoked hs =>
    exact h.update (hone a ha hactive) (by intro b; rfl) (by simp)
  | started a hl => exact h.update (hone a hl.mem hl.active) (by intro b; rfl) (by simp)
  | interrupted a reason ha hactive hreason =>
    have hcrew := h.update (p := (·.id = a.id)) (f := fun b => { b with process := .unknown })
      (hone a ha hactive) (by intro b; rfl) (by simp)
    refine hcrew.worked .interrupted (a := { a with process := .unknown }) ?_ hactive (by decide)
    exact mem_updateWhere.mpr ⟨a, ha, .inl ⟨by simp, rfl⟩⟩
  | stopped a reason ha hactive =>
    have hended : (c.ended a.id reason).status ∉ busyStatuses := by
      rcases c.ended_status a.id reason with hs | ⟨hs, hover⟩
      · revert hs
        cases (c.ended a.id reason).status <;> decide
      · rw [hs]
        revert hover
        cases c.status <;> decide
    rw [contain_status, contain_attempts, ended_attempts]
    exact h.contain ha hactive hended
  | moved a status hl hs =>
    refine h.worked status hl.mem hl.active ?_
    revert hs
    show status ∈ executing → status ∉ idleStatuses
    cases status <;> decide
  | spoiled a reason hl => exact h.worked .interrupted hl.mem hl.active (by decide)
  | completed hs hidle hi => exact h.rested .completed hidle (by decide)
  | parked reason hs => exact h.other .verifying (by decide) (by decide)
  | failed reason hs => exact h.other .failed (by decide) (by decide)
  | _ => exact h

/-! ## Versions and drafts -/

/-- A version moves with the status, and never back. -/
structure Grows (c d : Ledger) : Prop where
  version : c.version ≤ d.version
  status : c.status ≠ d.status → c.version < d.version

theorem Grows.refl (c : Ledger) : Grows c c := ⟨le_rfl, fun h => absurd rfl h⟩

theorem Grows.trans {e : Ledger} (h : Grows c d) (h' : Grows d e) : Grows c e := by
  refine ⟨le_trans h.version h'.version, fun hne => ?_⟩
  by_cases hs : c.status = d.status
  · rw [hs] at hne
    exact lt_of_le_of_lt h.version (h'.status hne)
  · exact lt_of_lt_of_le (h.status hs) h'.version

theorem grows_transition (c : Ledger) (status : JobState) (reason : String) :
    Grows c (c.transition status reason) :=
  ⟨Nat.le_succ _, fun _ => Nat.lt_succ_self _⟩

theorem grows_ended (c : Ledger) (id : Uuid) (reason : String) : Grows c (c.ended id reason) := by
  unfold ended
  split
  · exact grows_transition c _ _
  split
  · exact grows_transition c _ _
  · exact .refl c

/-- **No entry moves the status and leaves the version.** -/
theorem Entry.grows (h : Entry site c m d) : Grows c d := by
  have hmoved : ∀ {d : Ledger}, d.version = c.version + 1 → Grows c d :=
    fun hv => ⟨hv ▸ Nat.le_succ _, fun _ => hv ▸ Nat.lt_succ_self _⟩
  cases h with
  | drafted | halted | requested | steered | resumed | overdue | claimed | fenced | interrupted
  | moved | spoiled | completed | parked | failed => exact hmoved rfl
  | revoked now hr =>
    unfold revoke
    split
    · exact hmoved rfl
    · exact ⟨le_rfl, fun hne => absurd rfl hne⟩
  | stopped a reason ha hactive =>
    have hended := grows_ended c a.id reason
    generalize c.ended a.id reason = e at hended ⊢
    exact ⟨hended.version, hended.status⟩
  | _ => exact ⟨le_rfl, fun hne => absurd rfl hne⟩

theorem Entries.grows {l : List Deed} (h : Entries site c l d) : Grows c d := by
  induction h with
  | refl => exact .refl _
  | tail _ he ih => exact ih.trans he.grows

/-- Nothing happens to a job before it leaves the draft. -/
def Untouched (c : Ledger) : Prop := c.status = .draft → c.attempts = [] ∧ c.inputs = []

/-- No entry leads back to a draft, and the entries of a draft leave its tables empty. -/
theorem Untouched.entry (h : Untouched c) (he : Entry site c m d) : Untouched d := by
  intro hd
  have hactive : ∀ a ∈ c.attempts, c.status ≠ .draft := by
    intro a ha hs
    rw [(h hs).1] at ha
    cases ha
  have hleased : ∀ a, c.Leased a → c.status ≠ .draft := fun a hl => hactive a hl.mem
  cases he with
  | steered i hs hb hi =>
    exfalso
    have hdraft : c.status = .draft := by
      have hsame : (if c.status ∈ reopened then JobState.running else c.status) = .draft := hd
      split at hsame
      · cases hsame
      · exact hsame
    rcases hb with hq | ⟨a, ha, -⟩
    · rw [hdraft] at hq
      cases hq
    · exact hactive a ha hdraft
  | revoked now hr =>
    unfold revoke at hd ⊢
    split at hd
    · cases hd
    · next hany =>
      rw [if_neg hany]
      exact h hd
  | fenced a ha hactive' hp hr hs => exact absurd hd (hactive a ha)
  | extended a expires hl hexp | started a hl => exact absurd hd (hleased a hl)
  | stopped a reason ha hactive' =>
    exfalso
    rw [contain_status] at hd
    rcases c.ended_status a.id reason with hs | ⟨hs, -⟩
    · rw [hd] at hs
      simp at hs
    · exact hactive a ha (hs.symm.trans hd)
  | moved a status hl hs =>
    have hstatus : status = .draft := hd
    rw [hstatus] at hs
    exact absurd hs (by decide)
  | halted target reason hidle hs =>
    exfalso
    revert hd
    show target.status ≠ .draft
    cases target <;> decide
  | delivered a ids hl | applied a i now hl hi hdel hs ho | doubted a i hl hi hdel hs =>
    exact absurd hd (hleased a hl)
  | reconciled i receipt now hi hdel hs ho =>
    have hsame : c.status = .draft := hd
    rw [(h hsame).2] at hi
    cases hi
  | drafted | requested | resumed | overdue | claimed | interrupted | spoiled | completed
  | parked | failed => cases hd
  | _ => exact h hd

/-! ## Operations -/

/-- The operations that leave the server. -/
def remoteClasses : List Action := [.gitPush, .gitDraftPr]

/-- What an operation keeps, whatever is written into its row, and what its status needs. -/
structure Kept (site : Site) (m : Option Deed) (o o' : Operation) : Prop where
  id : o'.operationId = o.operationId
  attempt : o'.attemptId = o.attemptId
  toolClass : o'.toolClass = o.toolClass
  digest : o'.argumentDigest = o.argumentDigest
  arguments : o'.arguments = o.arguments
  scope : o'.scopeBinding = o.scopeBinding
  begun : o.status ∉ [.proposed, .authorized] → o'.status ∉ [.proposed, .authorized]
  started : o'.status = .started → o.status ∈ [.proposed, .authorized, .started]
  approved : o.status = .proposed → o'.status = .proposed ∨ ∃ p, m = some (.consumed p o.operationId)
  received : o.toolClass ∈ remoteClasses → o'.status = .succeeded →
    o.status = .succeeded ∧ o'.remoteReceipt = o.remoteReceipt ∨
      ∃ receipt, o'.remoteReceipt = some receipt ∧ matchesOperation site o receipt = true

theorem Kept.refl (site : Site) (m : Option Deed) (o : Operation) : Kept site m o o :=
  ⟨rfl, rfl, rfl, rfl, rfl, rfl, fun h => h, by simp +contextual, .inl, fun _ h => .inl ⟨h, rfl⟩⟩

/-- A write that leaves what identifies an operation, and a status that is reached from a
started one. -/
theorem Kept.finish {o : Operation} {o' : Operation} (hid : o'.operationId = o.operationId)
    (hattempt : o'.attemptId = o.attemptId) (hclass : o'.toolClass = o.toolClass)
    (hdigest : o'.argumentDigest = o.argumentDigest) (harguments : o'.arguments = o.arguments)
    (hscope : o'.scopeBinding = o.scopeBinding) (hs : o.status ∉ [.proposed, .authorized])
    (hs' : o'.status ∉ [.proposed, .authorized, .started])
    (hreceived : o.toolClass ∈ remoteClasses → o'.status = .succeeded →
      ∃ receipt, o'.remoteReceipt = some receipt ∧ matchesOperation site o receipt = true) :
    Kept site m o o' := by
  simp only [mem_cons, not_mem_nil, or_false, not_or] at hs hs'
  refine ⟨hid, hattempt, hclass, hdigest, harguments, hscope, fun _ => ?_, fun h => ?_, fun h => ?_,
    fun hr h => .inr (hreceived hr h)⟩
  · simp [hs'.1, hs'.2.1]
  · exact absurd h hs'.2.2
  · exact absurd h hs.1

/-- The rows of operations after an entry: each keeps what it is, and at most one is new. -/
theorem Entry.operations (hids : (c.operations.map (·.operationId)).Nodup)
    (h : Entry site c m d) :
    Follows (Kept site m) c.operations d.operations ∨
    ∃ a o, c.Leased a ∧ c.Proposed a o ∧ d.operations = c.operations ++ [o] ∧
      (o.status = .authorized ∧ o.toolClass ∉ remoteClasses ∧ d.approvals = c.approvals ∨
        o.status = .proposed ∧ d.nextId = c.nextId + 2 ∧
          ∃ p, c.Requested o p ∧ d.approvals = c.approvals ++ [p]) := by
  have hrefl := Kept.refl site
  have hlost : ∀ (m : Option Deed) (x : Ledger) (id : Uuid), x.operations = c.operations →
      Follows (Kept site m) c.operations (x.lost id).operations := by
    intro m x id hx
    show Follows _ _ (updateWhere _ _ x.operations)
    rw [hx]
    refine follows_updateWhere (hrefl m) fun o _ hp => ?_
    simp only [Bool.and_eq_true, decide_eq_true_eq] at hp
    exact .finish rfl rfl rfl rfl rfl rfl (by simp [hp.2]) (by simp) (by simp)
  cases h with
  | authorized a o hl ho hs hc => exact .inr ⟨a, o, hl, ho, rfl, .inl ⟨hs, hc, rfl⟩⟩
  | proposed a o p hl ho hs hp => exact .inr ⟨a, o, hl, ho, rfl, .inr ⟨hs, rfl, p, hp, rfl⟩⟩
  | interrupted a reason ha hactive hr => exact .inl (hlost _ _ a.id rfl)
  | stopped a reason ha hactive =>
    rw [contain_operations, ended_operations]
    exact .inl (hlost _ c a.id rfl)
  | revoked now hr =>
    refine .inl (follows_same (hrefl _) ?_)
    unfold revoke
    split <;> rfl
  | begun a o now hl ho ha hs =>
    refine .inl (follows_update (hrefl _) hids ho ?_)
    exact ⟨rfl, rfl, rfl, rfl, rfl, rfl, fun _ => by simp, fun _ => by simp [hs], by simp [hs],
      by simp⟩
  | consumed a o p now hl ho ha hs hp =>
    refine .inl (follows_update (hrefl _) hids ho ?_)
    exact ⟨rfl, rfl, rfl, rfl, rfl, rfl, fun _ => by simp, fun _ => by simp [hs],
      fun _ => .inr ⟨p.id, rfl⟩, by simp⟩
  | finished a o status now hl ho hs hf hc =>
    refine .inl (follows_update (hrefl _) hids ho ?_)
    refine .finish rfl rfl rfl rfl rfl rfl (by simp [hs]) ?_ fun hr hsucceeded => ?_
    · revert hf
      show status ∈ _ → status ∉ _
      cases status <;> decide
    · exact absurd hr (hc.resolve_left fun hne => hne hsucceeded)
  | received o receipt now ho hs hm =>
    refine .inl (follows_update (hrefl _) hids ho ?_)
    refine .finish rfl rfl rfl rfl rfl rfl ?_ (by simp) fun _ _ => ⟨receipt, rfl, hm⟩
    revert hs
    cases o.status <;> decide
  | observed o receipt now ho hs hc =>
    refine .inl (follows_update (hrefl _) hids ho ?_)
    refine .finish rfl rfl rfl rfl rfl rfl (by simp [hs]) ?_ fun hr _ => absurd hr hc
    show localStatus receipt.outcome ∉ _
    cases receipt.outcome <;> decide
  | executed o receipt now ho hc hs =>
    refine .inl (follows_update (hrefl _) hids ho ?_)
    refine .finish rfl rfl rfl rfl rfl rfl hs ?_ fun hr _ => ?_
    · show (if receipt.succeeded = true then OperationState.succeeded else .failed) ∉ _
      split <;> decide
    · rw [hc] at hr
      exact absurd hr (by decide)
  | _ => exact .inl (follows_same (hrefl _) rfl)

/-- Operations are told apart by their ids. -/
theorem operationIds_entry (h : (c.operations.map (·.operationId)).Nodup)
    (he : Entry site c m d) : (d.operations.map (·.operationId)).Nodup := by
  rcases he.operations h with ⟨f, hf, heq⟩ | ⟨a, o, -, ho, heq, -⟩
  · have hids : d.operations.map (·.operationId) = c.operations.map (·.operationId) := by
      rw [heq, map_map]
      exact map_congr_left fun o ho => (hf o ho).id
    rw [hids]
    exact h
  · rw [heq]
    exact nodup_append_key h ho.fresh

/-- A team operation that was begun stays so. -/
theorem begun_entry {id : Uuid} (hids : (c.operations.map (·.operationId)).Nodup)
    (h : Begun c id) (he : Entry site c m d) : Begun d id := by
  obtain ⟨o, ho, hid⟩ := h.found
  rcases he.operations hids with ⟨f, hf, heq⟩ | ⟨a, o', -, ho', heq, -⟩
  · refine ⟨⟨f o, ?_, (hf o ho).id.trans hid⟩, ?_⟩
    · rw [heq]
      exact mem_map_of_mem ho
    · intro o' ho' hid'
      rw [heq] at ho'
      obtain ⟨x, hx, rfl⟩ := mem_map.mp ho'
      obtain ⟨hclass, hstatus⟩ := h.begun x hx ((hf x hx).id.symm.trans hid')
      exact ⟨(hf x hx).toolClass.trans hclass, (hf x hx).begun hstatus⟩
  · refine ⟨⟨o, ?_, hid⟩, ?_⟩
    · rw [heq]
      exact mem_append_left _ ho
    intro x hx hid'
    rw [heq] at hx
    rcases mem_append.mp hx with hx | hx
    · exact h.begun x hx hid'
    · rw [mem_singleton.mp hx] at hid'
      exact absurd (hid.trans hid'.symm) (ho'.fresh o ho)

end Ledger

end GrowTeam.Server
