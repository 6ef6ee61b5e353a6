/-
# Steering: the inputs of a job

What every entry keeps of the rows of inputs: they are numbered without gaps, the applied
ones come first, an input that went to one attempt goes to another only after a receipt
that it was not applied, and a queued job has nothing under way.
-/
import GrowTeam.Server.Runs

namespace GrowTeam.Server

open List

namespace Ledger

variable {site : Site} {c d : Ledger} {m : Option Deed}

/-! ## What is written into an input -/

/-- What an entry may write into one input. -/
inductive Handled (c : Ledger) (m : Option Deed) (i : Input) : Input → Prop where
  | same : Handled c m i i
  | delivered (a : Tenure) (hl : c.Leased a) (hm : m = some (.delivered a.id))
    (hs : i.deliveryState = .pending) :
    Handled c m i { i with deliveryState := .delivered, deliveredAttempt := some a.id }
  | applied (now : Time) (receipts : List InputReceipt)
    (hs : i.deliveryState ∈ [.delivered, .deliveryUncertain]) (ho : c.InOrder i.sequence) :
    Handled c m i { i with
      deliveryState := .applied, appliedAt := some now, receipts := i.receipts ++ receipts }
  | doubted (hs : i.deliveryState ∈ [.delivered, .deliveryUncertain]) :
    Handled c m i { i with deliveryState := .deliveryUncertain }
  | refused (receipt : InputReceipt) (hd : i.deliveredAttempt = some receipt.attemptId)
    (hs : i.deliveryState = .deliveryUncertain) (ho : receipt.outcomeApplied = false) :
    Handled c m i { i with
      deliveryState := .pending, deliveredAttempt := none, receipts := i.receipts ++ [receipt] }

variable {i j : Input} {f : Input → Input}

theorem Handled.id (h : Handled c m i j) : j.id = i.id := by
  cases h <;> rfl

theorem Handled.sequence (h : Handled c m i j) : j.sequence = i.sequence := by
  cases h <;> rfl

/-- An applied input is left alone. -/
theorem Handled.final (h : Handled c m i j) (ha : i.deliveryState = .applied) : j = i := by
  cases h with
  | same => rfl
  | delivered _ _ _ hs | refused _ _ hs _ =>
    rw [ha] at hs
    cases hs
  | applied _ _ hs _ | doubted hs => simp [ha] at hs

/-- The rows of inputs after an entry: each is handled, or one is added. -/
theorem Entry.inputs (hids : (c.inputs.map (·.id)).Nodup) (h : Entry site c m d) :
    (Follows (Handled c m) c.inputs d.inputs ∧
      (d.inputSequence = c.inputSequence ∨ c.status = .draft ∧ d.inputSequence = 0)) ∨
    ∃ i, c.Added i ∧ d.inputs = c.inputs ++ [i] ∧ d.inputSequence = c.inputSequence + 1 ∧
      d.nextId = c.nextId + 1 ∧ d.attempts = c.attempts ∧ d.status ≠ .completed := by
  have hrefl : ∀ m x, Handled c m x x := fun m x => .same
  have hlost : ∀ (m : Option Deed) (id : Uuid), Follows (Handled c m) c.inputs
      (updateWhere (fun i => i.deliveredAttempt = some id && i.deliveryState = .delivered)
        (fun i => { i with deliveryState := .deliveryUncertain }) c.inputs) := by
    intro m id
    refine follows_updateWhere (hrefl m) fun i _ hp => .doubted ?_
    simp only [Bool.and_eq_true, decide_eq_true_eq] at hp
    simp [hp.2]
  cases h with
  | drafted hs =>
    exact .inl ⟨follows_same (hrefl _) rfl, .inr ⟨hs, rfl⟩⟩
  | steered i hs hb hi =>
    refine .inr ⟨i, hi, rfl, rfl, rfl, rfl, ?_⟩
    show (if c.status ∈ reopened then .running else c.status) ≠ _
    split
    · decide
    · intro hc
      rw [hc] at hs
      simp [terminal] at hs
  | revoked now hr =>
    refine .inl ⟨follows_same (hrefl _) ?_, .inl ?_⟩
    all_goals
      unfold revoke
      split <;> rfl
  | interrupted a reason ha hactive hr => exact .inl ⟨hlost _ a.id, .inl rfl⟩
  | stopped a reason ha hactive =>
    rw [contain_inputs, ended_inputs, contain_inputSequence, ended_inputSequence]
    exact .inl ⟨hlost _ a.id, .inl rfl⟩
  | delivered a ids hl =>
    refine .inl ⟨follows_updateWhere (hrefl _) fun i _ hp => ?_, .inl rfl⟩
    simp only [Bool.and_eq_true, decide_eq_true_eq] at hp
    exact .delivered a hl rfl hp.2
  | applied a i now hl hi hd hs ho =>
    refine .inl ⟨follows_update (hrefl _) hids hi ?_, .inl rfl⟩
    have happlied := Handled.applied (m := none) now [] hs ho
    rw [append_nil] at happlied
    exact happlied
  | doubted a i hl hi hd hs =>
    refine .inl ⟨follows_update (hrefl _) hids hi ?_, .inl rfl⟩
    exact .doubted hs
  | reconciled i receipt now hi hd hs ho =>
    refine .inl ⟨follows_update (hrefl _) hids hi ?_, .inl rfl⟩
    split
    · next hout => exact .applied now [receipt] (by simp [hs]) (ho hout)
    · next hout => exact .refused receipt hd hs (by simpa using hout)
  | _ => exact .inl ⟨follows_same (hrefl _) rfl, .inl rfl⟩

/-- No entry but a stop ends an attempt. -/
theorem Entry.active {a : Tenure} (h : Entry site c m d) (ha : a ∈ c.attempts)
    (hactive : a.active = true) :
    (∃ id, m = some (.stopped id)) ∨ ∃ b ∈ d.attempts, b.id = a.id ∧ b.active = true := by
  have hkeep : ∀ (p : Tenure → Bool) (f : Tenure → Tenure),
      (∀ b, (f b).id = b.id ∧ (f b).active = b.active) →
      ∃ b ∈ updateWhere p f c.attempts, b.id = a.id ∧ b.active = true := by
    intro p f hf
    by_cases hp : p a = true
    · exact ⟨f a, mem_updateWhere.mpr ⟨a, ha, .inl ⟨hp, rfl⟩⟩, (hf a).1, (hf a).2.trans hactive⟩
    · exact ⟨a, mem_updateWhere.mpr ⟨a, ha, .inr ⟨by simpa using hp, rfl⟩⟩, rfl, hactive⟩
  cases h with
  | stopped a reason ha hactive => exact .inl ⟨a.id, rfl⟩
  | claimed b hs hidle hr hb =>
    exact .inr ⟨a, mem_append_left _ ha, rfl, hactive⟩
  | revoked now hr =>
    right
    unfold revoke
    split
    · exact hkeep _ _ fun b => ⟨rfl, rfl⟩
    · exact ⟨a, ha, rfl, hactive⟩
  | requested | extended | fenced | started | interrupted =>
    exact .inr (hkeep _ _ fun b => ⟨rfl, rfl⟩)
  | _ => exact .inr ⟨a, ha, rfl, hactive⟩

/-- How a job comes to be queued, and how it comes to be completed. -/
structure Arrives (c d : Ledger) : Prop where
  queued : d.status = .queued → c.status = .queued ∨ c.status = .draft ∨
    c.Idle ∧ (∀ i ∈ c.inputs, i.deliveryState ≠ .deliveryUncertain) ∧ d.inputs = c.inputs
  completed : d.status = .completed → c.status = .completed ∨
    (∀ i ∈ c.inputs, Store.unapplied i = false) ∧ d.inputs = c.inputs

theorem Arrives.same (h : d.status = c.status) : Arrives c d :=
  ⟨fun hd => .inl (h ▸ hd), fun hd => .inl (h ▸ hd)⟩

theorem Arrives.neither (h : d.status ∉ [.queued, .completed]) : Arrives c d :=
  ⟨fun hd => absurd (by simp [hd]) h, fun hd => absurd (by simp [hd]) h⟩

theorem Entry.arrives (h : Entry site c m d) : Arrives c d := by
  cases h with
  | drafted hs => exact ⟨fun _ => .inr (.inl hs), nofun⟩
  | halted target reason hidle hs =>
    refine .neither ?_
    show target.status ∉ _
    cases target <;> decide
  | steered i hs hb hi =>
    by_cases hr : c.status ∈ reopened
    · refine .neither ?_
      show (if c.status ∈ reopened then .running else c.status) ∉ _
      rw [if_pos hr]
      decide
    · refine .same ?_
      show (if c.status ∈ reopened then .running else c.status) = _
      rw [if_neg hr]
  | resumed hs hidle hi => exact ⟨fun _ => .inr (.inr ⟨hidle, hi, rfl⟩), nofun⟩
  | revoked now hr =>
    by_cases hany : c.attempts.any (·.active) = true
    · rw [revoke, if_pos hany]
      exact .neither (by simp)
    · rw [revoke, if_neg hany]
      exact .same rfl
  | stopped a reason ha hactive =>
    rcases c.ended_status a.id reason with hs | ⟨hs, -⟩
    · refine .neither ?_
      rw [contain_status]
      revert hs
      cases (c.ended a.id reason).status <;> decide
    · exact .same (by rw [contain_status, hs])
  | moved a status hl hs =>
    refine .neither ?_
    revert hs
    show status ∈ executing → status ∉ _
    cases status <;> decide
  | completed hs hidle hi => exact ⟨nofun, fun _ => .inr ⟨hi, rfl⟩⟩
  | requested | overdue | claimed | interrupted | spoiled | parked | failed =>
    exact .neither (by simp [transition, requestStop])
  | _ => exact .same rfl

/-! ## The roll -/

/-- How the inputs of a job are numbered, and how far each has come. -/
structure Roll (c : Ledger) : Prop where
  ids : (c.inputs.map (·.id)).Nodup
  fresh : ∀ i ∈ c.inputs, i.id < c.nextId
  numbered : c.inputs.map (·.sequence) = List.range' 1 c.inputSequence
  pending : ∀ i ∈ c.inputs, i.deliveryState = .pending ↔ i.deliveredAttempt = none
  kept : ∀ i ∈ c.inputs, i.deliveryState ≠ .cancelled
  /-- The applied inputs come first. -/
  applied : ∀ i ∈ c.inputs, ∀ j ∈ c.inputs, j.deliveryState = .applied →
    i.sequence < j.sequence → i.deliveryState = .applied
  /-- What was delivered and not answered for is with the active attempt. -/
  held : ∀ i ∈ c.inputs, i.deliveryState = .delivered →
    ∃ a ∈ c.attempts, a.active = true ∧ i.deliveredAttempt = some a.id
  queued : c.status = .queued → ∀ i ∈ c.inputs, i.deliveryState ∈ [.pending, .applied]
  completed : c.status = .completed → ∀ i ∈ c.inputs, i.deliveryState = .applied

variable {i : Input}

/-- An input that is not waiting was applied. -/
theorem Roll.applied_of (h : Roll c) (hi : i ∈ c.inputs)
    (hu : Store.unapplied i = false) : i.deliveryState = .applied := by
  have hkept := h.kept i hi
  revert hu hkept
  unfold Store.unapplied
  cases i.deliveryState <;> decide

/-- A handled input is pending if and only if nobody has it. -/
theorem Handled.pending (h : Handled c m i j)
    (hp : i.deliveryState = .pending ↔ i.deliveredAttempt = none) :
    j.deliveryState = .pending ↔ j.deliveredAttempt = none := by
  have hout : i.deliveryState ∈ [.delivered, .deliveryUncertain] → i.deliveredAttempt ≠ none := by
    intro hs hnone
    rw [hp.mpr hnone] at hs
    simp at hs
  cases h with
  | same => exact hp
  | delivered => simp
  | applied now receipts hs ho | doubted hs => simpa using hout hs
  | refused => simp

theorem Handled.kept (h : Handled c m i j) (hk : i.deliveryState ≠ .cancelled) :
    j.deliveryState ≠ .cancelled := by
  cases h with
  | same => exact hk
  | _ => simp

/-- The applied inputs still come first. -/
theorem Roll.applied_map (h : Roll c) (hf : ∀ i ∈ c.inputs, Handled c m i (f i)) (hi : i ∈ c.inputs)
    (hj : j ∈ c.inputs) (ha : (f j).deliveryState = .applied)
    (hlt : (f i).sequence < (f j).sequence) : (f i).deliveryState = .applied := by
  rw [(hf i hi).sequence, (hf j hj).sequence] at hlt
  have hdone : i.deliveryState = .applied := by
    have hj' := hf j hj
    generalize f j = k at hj' ha
    cases hj' with
    | same => exact h.applied i hi j hj ha hlt
    | applied now receipts hs ho => exact h.applied_of hi (ho i hi hlt)
    | delivered | doubted | refused => cases ha
  rw [(hf i hi).final hdone, hdone]

/-- A stop leaves nothing delivered. -/
theorem Roll.held_stopped {id : Uuid} (ho : Orderly c) (h : Roll c)
    (he : Entry site c (some (.stopped id)) d) : ∀ i ∈ d.inputs, i.deliveryState ≠ .delivered := by
  cases he with
  | stopped a reason ha hactive =>
    intro j hj hd
    rw [contain_inputs, ended_inputs] at hj
    obtain ⟨i, hi, ⟨-, rfl⟩ | ⟨hp, rfl⟩⟩ := mem_updateWhere.mp hj
    · cases hd
    · obtain ⟨b, hb, hactive', hholder⟩ := h.held j hi hd
      rw [ho.crew.eq_of_active hb ha hactive' hactive] at hholder
      simp [hholder, hd] at hp

/-- What was delivered stays with the active attempt. -/
theorem Roll.held_map (ho : Orderly c) (h : Roll c) (he : Entry site c m d)
    (hf : ∀ i ∈ c.inputs, Handled c m i (f i)) (hd : d.inputs = c.inputs.map f)
    (hi : i ∈ c.inputs) (hs : (f i).deliveryState = .delivered) :
    ∃ a ∈ d.attempts, a.active = true ∧ (f i).deliveredAttempt = some a.id := by
  have hholder : ∃ a ∈ c.attempts, a.active = true ∧ (f i).deliveredAttempt = some a.id := by
    have hi' := hf i hi
    generalize f i = j at hi' hs
    cases hi' with
    | same => exact h.held i hi hs
    | delivered a hl hm hp => exact ⟨a, hl.mem, hl.active, rfl⟩
    | applied | doubted | refused => cases hs
  obtain ⟨a, ha, hactive, hholder⟩ := hholder
  rcases he.active ha hactive with ⟨id, rfl⟩ | ⟨b, hb, hid, hactive'⟩
  · exact absurd hs (h.held_stopped ho he (f i) (by rw [hd]; exact mem_map_of_mem hi))
  · exact ⟨b, hb, hactive', by rw [hholder, hid]⟩

/-- What waits in a queued job is with nobody. -/
theorem Roll.queued_map (ho : Orderly c) (h : Roll c) (he : Entry site c m d)
    (hf : ∀ i ∈ c.inputs, Handled c m i (f i)) (hd : d.inputs = c.inputs.map f)
    (hs : d.status = .queued) : ∀ i ∈ d.inputs, i.deliveryState ∈ [.pending, .applied] := by
  rcases he.arrives.queued hs with hq | hdraft | ⟨hidle, hsure, hsame⟩
  · intro j hj
    rw [hd] at hj
    obtain ⟨i, hi, rfl⟩ := mem_map.mp hj
    have hwas := h.queued hq i hi
    have hi' := hf i hi
    generalize f i = j at hi'
    cases hi' with
    | same => exact hwas
    | delivered a hl hm hp =>
      -- Nobody holds a lease on a queued job.
      have hstatus := hl.status
      rw [hq] at hstatus
      simp [executing] at hstatus
    | applied | refused => simp
    | doubted hs =>
      revert hwas hs
      cases i.deliveryState <;> simp
  · intro j hj
    rw [hd, (ho.untouched hdraft).2] at hj
    cases hj
  · intro i hi
    rw [hsame] at hi
    have hkept := h.kept i hi
    have hnot : i.deliveryState ≠ .delivered := by
      intro hdel
      obtain ⟨a, ha, hactive, -⟩ := h.held i hi hdel
      rw [hidle a ha] at hactive
      cases hactive
    have hsure' := hsure i hi
    revert hkept hnot hsure'
    cases i.deliveryState <;> simp

/-- The roll after an entry that adds no input. -/
theorem Roll.handled (ho : Orderly c) (h : Roll c) (he : Entry site c m d)
    (hf : ∀ i ∈ c.inputs, Handled c m i (f i)) (hd : d.inputs = c.inputs.map f)
    (hn : d.inputSequence = c.inputSequence ∨ c.status = .draft ∧ d.inputSequence = 0) :
    Roll d := by
  have hmem : ∀ {P : Input → Prop}, (∀ i ∈ c.inputs, P (f i)) → ∀ j ∈ d.inputs, P j := by
    intro P hP j hj
    rw [hd] at hj
    obtain ⟨i, hi, rfl⟩ := mem_map.mp hj
    exact hP i hi
  have hmap : ∀ (key : Input → ℕ), (∀ i ∈ c.inputs, key (f i) = key i) →
      d.inputs.map key = c.inputs.map key := by
    intro key hkey
    rw [hd, map_map]
    exact map_congr_left hkey
  refine ⟨?_, ?_, ?_, ?_, ?_, ?_, ?_, h.queued_map ho he hf hd, ?_⟩
  · rw [hmap (·.id) fun i hi => (hf i hi).id]
    exact h.ids
  · refine hmem fun i hi => ?_
    rw [(hf i hi).id]
    exact lt_of_lt_of_le (h.fresh i hi) he.attempts.1
  · rw [hmap (·.sequence) fun i hi => (hf i hi).sequence]
    rcases hn with hn | ⟨hdraft, hn⟩
    · rw [hn]
      exact h.numbered
    · rw [hn, (ho.untouched hdraft).2]
      rfl
  · exact hmem fun i hi => (hf i hi).pending (h.pending i hi)
  · exact hmem fun i hi => (hf i hi).kept (h.kept i hi)
  · exact hmem fun i hi => hmem fun j hj ha hlt => h.applied_map hf hi hj ha hlt
  · exact hmem fun i hi hs => h.held_map ho he hf hd hi hs
  · intro hs
    rcases he.arrives.completed hs with hc | ⟨hall, heq⟩
    · refine hmem fun i hi => ?_
      have hdone := h.completed hc i hi
      rw [(hf i hi).final hdone, hdone]
    · intro i hi
      rw [heq] at hi
      exact h.applied_of hi (hall i hi)

/-- No input has a number beyond the last one given. -/
theorem Roll.sequence_le (h : Roll c) (hi : i ∈ c.inputs) :
    i.sequence ≤ c.inputSequence := by
  have hmem := mem_map_of_mem (f := (·.sequence)) hi
  rw [h.numbered] at hmem
  have hlt := (mem_range'_1.mp hmem).2
  omega

/-- The roll after an input is added. -/
theorem Roll.added (ho : Orderly c) (h : Roll c) (he : Entry site c m d)
    (hi : c.Added i) (hd : d.inputs = c.inputs ++ [i])
    (hn : d.inputSequence = c.inputSequence + 1) (hlast : d.nextId = c.nextId + 1)
    (hsame : d.attempts = c.attempts) (hopen : d.status ≠ .completed) : Roll d := by
  have hmem : ∀ {P : Input → Prop}, (∀ j ∈ c.inputs, P j) → P i → ∀ j ∈ d.inputs, P j := by
    intro P hP hi j hj
    rw [hd] at hj
    rcases mem_append.mp hj with hj | hj
    · exact hP j hj
    · rw [mem_singleton.mp hj]
      exact hi
  refine ⟨?_, ?_, ?_, ?_, ?_, ?_, ?_, ?_, fun hs => absurd hs hopen⟩
  · rw [hd]
    refine nodup_append_key h.ids fun j hj => ?_
    rw [hi.id]
    exact Nat.ne_of_lt (h.fresh j hj)
  · rw [hlast]
    refine hmem (fun j hj => Nat.lt_succ_of_lt (h.fresh j hj)) ?_
    rw [hi.id]
    exact Nat.lt_succ_self _
  · rw [hd, hn, map_append, h.numbered, range'_concat, map_singleton, hi.sequence]
    congr 2
    omega
  · exact hmem h.pending (by simp [hi.pending, hi.undelivered])
  · exact hmem h.kept (by simp [hi.pending])
  · -- The new input is pending, and it is the last.
    refine hmem (fun j hj => hmem (h.applied j hj) fun ha => ?_) (hmem (fun j hj _ hlt => ?_) ?_)
    · rw [hi.pending] at ha
      cases ha
    · have hle := h.sequence_le hj
      rw [hi.sequence] at hlt
      omega
    · intro ha
      rw [hi.pending] at ha
      cases ha
  · rw [hsame]
    refine hmem h.held fun hs => ?_
    rw [hi.pending] at hs
    cases hs
  · intro hs
    refine hmem (fun j hj => ?_) (by simp [hi.pending])
    rcases he.arrives.queued hs with hq | hdraft | ⟨-, -, heq⟩
    · exact h.queued hq j hj
    · rw [(ho.untouched hdraft).2] at hj
      cases hj
    · have hlen := congrArg List.length (hd.symm.trans heq)
      simp at hlen

/-- **Entries keep the roll.** -/
theorem Roll.entry (ho : Orderly c) (h : Roll c) (he : Entry site c m d) : Roll d := by
  rcases he.inputs h.ids with ⟨⟨f, hf, hd⟩, hn⟩ | ⟨i, hi, hd, hn, hlast, hsame, hopen⟩
  · exact h.handled ho he hf hd hn
  · exact h.added ho he hi hd hn hlast hsame hopen

end Ledger

open Interleaving Ledger

/-- The inputs of a job are in order before and after each step of a run. -/
theorem roll_of_history {site : Site} {new : NewJob} {world : World} {now : Time}
    {moves : List (Move Call Unit)} :
    ∀ e ∈ history site new world now moves, Roll (ledger e.pre) ∧ Roll (ledger e.post) := by
  refine ledger_of_history ?_ fun c m d ho he h => h.entry ho he
  rw [ledger_created]
  refine ⟨by simp, by simp, ?_, by simp, by simp, by simp, by simp, by simp, by simp⟩
  show [] = List.range' 1 (newJob new now).inputSequence
  rfl

/-! # Which attempt is handed which input -/

variable {site : Site} {new : NewJob} {world : World} {now : Time} {moves : List (Move Call Unit)}

/-- The attempt is handed the input in this step. -/
def handed (input attempt : Uuid) (e : Event Store Tag) : Bool :=
  match e.tag.transaction with
  | .deliverInputs lease version =>
    match deliverInputs lease version e.pre with
    | .ok (items, _) => lease.attemptId = attempt && items.any (·.id = input)
    | .error _ => false
  | _ => false

/-- What a delivery hands out, and what it writes. -/
structure Delivery (s s' : Store) (a : Attempt) (items : List Input) : Prop where
  attempt : a ∈ s.attempts
  active : a.active = true
  working : s'.job.status ∈ executing
  /-- What is handed out was not applied, and was with nobody else. -/
  found : ∀ j ∈ items, j ∈ s'.inputs ∧ ∃ i ∈ s.inputs, i.id = j.id ∧ Store.unapplied i = true ∧
    i.deliveredAttempt ∈ [none, some a.id] ∧
      (j.deliveredAttempt = some a.id ∨ i.deliveryState ≠ .pending ∧ j = i)
  rest : ∀ j ∈ s'.inputs, j ∈ s.inputs ∨ j ∈ items

theorem delivery_of_ok {s s' : Store} {lease : LeaseIdentity} {version : Option ℕ}
    {items : List Input} (hids : (s.inputs.map (·.id)).Nodup)
    (h : deliverInputs lease version s = .ok (items, s')) :
    ∃ a, a.id = lease.attemptId ∧ Delivery s s' a items := by
  simp only [deliverInputs, agentTransaction_eq_ok, bind_eq_ok, ensure_eq_ok, pure_eq_ok,
    Prod.mk.injEq, all_eq_true] at h
  obtain ⟨-, -, -, a, hlock, -, hfree, rfl, rfl⟩ := h
  obtain ⟨hmem, hl⟩ := leased_of_locked hlock
  refine ⟨a, lockedAttempt_id hlock, hmem, hl.active, hl.status, ?_, ?_⟩
  · intro j hj
    obtain ⟨hj, hid⟩ := mem_filter.mp hj
    refine ⟨hj, ?_⟩
    obtain ⟨i, hi, hji⟩ := mem_updateWhere.mp hj
    have hsame : j.id = i.id := by
      rcases hji with ⟨-, rfl⟩ | ⟨-, rfl⟩ <;> rfl
    obtain ⟨x, hx, hxid⟩ := mem_map.mp (of_decide_eq_true hid)
    obtain ⟨hxmem, hxu⟩ := mem_filter.mp (mem_of_mem_take hx)
    obtain rfl : x = i := eq_of_key hids hxmem hi (hxid.trans hsame)
    refine ⟨x, hi, hsame.symm, hxu, of_decide_eq_true (hfree x hx), ?_⟩
    rcases hji with ⟨-, rfl⟩ | ⟨hp, rfl⟩
    · exact .inl rfl
    · refine .inr ⟨fun hs => ?_, rfl⟩
      rw [hid, hs] at hp
      simp at hp
  · intro j hj
    obtain ⟨i, hi, ⟨hp, rfl⟩ | ⟨-, rfl⟩⟩ := mem_updateWhere.mp hj
    · rw [Bool.and_eq_true] at hp
      exact .inr (mem_filter.mpr ⟨hj, hp.1⟩)
    · exact .inl hi

/-- A step that hands out an input is an accepted delivery. -/
theorem delivery_of_handed {e : Event Store Tag} {input attempt : Uuid}
    (he : e ∈ history site new world now moves) (h : handed input attempt e = true) :
    ∃ a items, a.id = attempt ∧ Delivery e.pre e.post a items ∧ ∃ j ∈ items, j.id = input := by
  have hids := (roll_of_history e he).1.ids
  unfold handed at h
  split at h
  · next lease version ht =>
    split at h
    · next items s' hrun =>
      simp only [Bool.and_eq_true, decide_eq_true_eq, any_eq_true] at h
      obtain ⟨hlease, j, hj, hid'⟩ := h
      obtain ⟨a, hpost⟩ := run_of_accepted (meets_of_history he) (by rw [ht]; exact ⟨_, hrun⟩)
      revert a
      rw [ht]
      intro a hpost
      obtain ⟨rfl, rfl⟩ := Prod.mk.inj (Except.ok.inj (hrun.symm.trans hpost))
      obtain ⟨a, hid, hdelivery⟩ := delivery_of_ok hids hrun
      exact ⟨a, items, hid.trans hlease, hdelivery, j, hj, hid'⟩
    · simp at h
  · simp at h

/-- Whom an input is with says so before the step, or the step delivers. -/
theorem holder_of_entries {c d : Ledger} {l : List Deed} {b : Uuid} (ho : Orderly c) (hr : Roll c)
    (h : Entries site c l d) {j : Input} (hj : j ∈ d.inputs) (hd : j.deliveredAttempt = some b) :
    (∃ i ∈ c.inputs, i.id = j.id ∧ i.deliveredAttempt = some b) ∨ .delivered b ∈ l := by
  have key : Roll d ∧ ∀ j ∈ d.inputs, j.deliveredAttempt = some b →
      (∃ i ∈ c.inputs, i.id = j.id ∧ i.deliveredAttempt = some b) ∨ .delivered b ∈ l := by
    clear hj hd
    induction h with
    | refl => exact ⟨hr, fun j hj hd => .inl ⟨j, hj, rfl, hd⟩⟩
    | tail hrest he ih =>
      obtain ⟨hr', ih⟩ := ih
      refine ⟨hr'.entry (ho.entries hrest) he, fun j hj hd => ?_⟩
      rw [mem_append]
      rcases he.inputs hr'.ids with ⟨⟨f, hf, heq⟩, -⟩ | ⟨i, hi, heq, -⟩
      · rw [heq] at hj
        obtain ⟨x, hx, rfl⟩ := mem_map.mp hj
        have hx' := hf x hx
        generalize f x = y at hx' hd
        cases hx' with
        | delivered a hl hm hs =>
          cases hd
          exact .inr (.inr (by simp [hm]))
        | refused => cases hd
        | _ => exact (ih x hx hd).imp id .inl
      · rw [heq] at hj
        rcases mem_append.mp hj with hj | hj
        · exact (ih j hj hd).imp id .inl
        · rw [mem_singleton.mp hj, hi.undelivered] at hd
          cases hd
  exact key.2 j hj hd

/-- An input is with an attempt since a step that handed it to it. -/
theorem handed_of_holder {e : Event Store Tag} (he : e ∈ history site new world now moves)
    {j : Input} {b : Uuid} (hj : j ∈ e.post.inputs) (hd : j.deliveredAttempt = some b) :
    (∃ i ∈ e.pre.inputs, i.id = j.id ∧ i.deliveredAttempt = some b) ∨
      handed j.id b e = true ∧ ∃ a ∈ e.pre.attempts, a.id = b ∧ a.active = true := by
  have hroll := (roll_of_history e he).1
  rcases holder_of_entries (ordered_of_history he).pre hroll (entries_of_history he) hj hd with
    hfound | hmark
  · exact .inl hfound
  unfold deedsOf at hmark
  split at hmark
  · next haccepted =>
    obtain ⟨lease, version, ht⟩ := doneBy_of_mem hmark
    have hlease : lease.attemptId = b := by
      rw [ht] at hmark
      have hmark := mem_singleton.mp hmark
      exact (Deed.delivered.inj hmark).symm
    obtain ⟨items, hrun⟩ := run_of_history he haccepted
    have hanswer : ∃ items, deliverInputs lease version e.pre = .ok (items, e.post) := by
      revert items
      rw [ht]
      exact fun items hrun => ⟨items, hrun⟩
    obtain ⟨items, hrun⟩ := hanswer
    obtain ⟨a, hid, hdelivery⟩ := delivery_of_ok hroll.ids hrun
    rcases hdelivery.rest j hj with hold | hitem
    · exact .inl ⟨j, hold, rfl, hd⟩
    · refine .inr ⟨?_, a, hdelivery.attempt, hid.trans hlease, hdelivery.active⟩
      simp only [handed, ht, hrun, hlease]
      simpa using ⟨j, hitem, rfl⟩
  · simp at hmark

/-! ## One attempt after the other -/

/-- The input is with the attempt, or there is a receipt that the attempt did not apply it. -/
def Answered (input attempt : Uuid) (c : Ledger) : Prop :=
  ∃ i ∈ c.inputs, i.id = input ∧ (i.deliveredAttempt = some attempt ∨
    ∃ r ∈ i.receipts, r.attemptId = attempt ∧ r.outcomeApplied = false)

theorem answered_entry {c d : Ledger} {m : Option Deed} {input attempt : Uuid} (hr : Roll c)
    (he : Ledger.Entry site c m d) (h : Answered input attempt c) : Answered input attempt d := by
  obtain ⟨i, hi, hid, hd⟩ := h
  rcases he.inputs hr.ids with ⟨⟨f, hf, heq⟩, -⟩ | ⟨i', -, heq, -⟩
  · refine ⟨f i, by rw [heq]; exact mem_map_of_mem hi, (hf i hi).id.trans hid, ?_⟩
    have hi' := hf i hi
    generalize f i = j at hi'
    cases hi' with
    | same | doubted => exact hd
    | delivered a hl hm hs =>
      rw [(hr.pending i hi).mp hs] at hd
      exact .inr (hd.resolve_left nofun)
    | applied now receipts hs ho =>
      exact hd.imp id fun ⟨r, hr, hra⟩ => ⟨r, mem_append_left _ hr, hra⟩
    | refused receipt hholder hs ho =>
      rcases hd with hd | ⟨r, hr, hra⟩
      · rw [hholder] at hd
        exact .inr ⟨receipt, by simp, Option.some.inj hd, ho⟩
      · exact .inr ⟨r, mem_append_left _ hr, hra⟩
  · exact ⟨i, by rw [heq]; exact mem_append_left _ hi, hid, hd⟩

/-- **Input receipts form a prefix and never overlap.** -/
theorem inputs_of_history (site : Site) (new : NewJob) (world : World) (now : Time)
    (moves : List (Move Call Unit)) :
    (∀ e ∈ history site new world now moves, ∀ s ∈ [e.pre, e.post],
      s.inputs.map (·.sequence) = List.range' 1 s.job.inputSequence ∧
      ∀ i ∈ s.inputs, ∀ j ∈ s.inputs, j.deliveryState = .applied → i.sequence < j.sequence →
        i.deliveryState = .applied) ∧
    ∀ past mid later e f, history site new world now moves = past ++ e :: (mid ++ f :: later) →
      ∀ input a b, handed input a e = true → handed input b f = true → a ≠ b →
        ∃ i ∈ f.pre.inputs, i.id = input ∧
          ∃ r ∈ i.receipts, r.attemptId = a ∧ r.outcomeApplied = false := by
  constructor
  · intro e he s hs
    have hroll : Roll (ledger s) := by
      rcases mem_cons.mp hs with rfl | hs
      · exact (roll_of_history e he).1
      · rw [mem_singleton.mp hs]
        exact (roll_of_history e he).2
    exact ⟨hroll.numbered, hroll.applied⟩
  · intro past mid later e f h input a b hfirst hsecond hne
    have he : e ∈ history site new world now moves := by
      rw [h]
      simp
    have hf : f ∈ history site new world now moves := by
      rw [h]
      simp
    obtain ⟨x, items, rfl, hdelivery, j, hj, rfl⟩ := delivery_of_handed he hfirst
    obtain ⟨hpost, i, hi, hij, hu, hfree, hout⟩ := hdelivery.found j hj
    have hroll := roll_of_history e he
    have hholder : j.deliveredAttempt = some x.id := by
      rcases hout with hout | ⟨hs, rfl⟩
      · exact hout
      · -- It was with this attempt before.
        rcases mem_cons.mp hfree with hnone | hsome
        · exact absurd ((hroll.1.pending j hi).mpr hnone) hs
        · exact mem_singleton.mp hsome
    have hanswered : Answered j.id x.id (ledger f.pre) := by
      refine ((stays_of_history (J := fun c => Roll c ∧ Answered j.id x.id c) ?_ h
        ⟨hroll.2, j, hpost, rfl, .inl hholder⟩).1).2
      exact fun c m d ho he ⟨hr, ha⟩ => ⟨hr.entry ho he, answered_entry hr he ha⟩
    obtain ⟨i', hi', hid', hd⟩ := hanswered
    refine ⟨i', hi', hid', hd.resolve_left fun hwith => ?_⟩
    obtain ⟨y, items', rfl, hdelivery', j', hj', hjj'⟩ := delivery_of_handed hf hsecond
    obtain ⟨-, k, hk, hkj, -, hfree', -⟩ := hdelivery'.found j' hj'
    obtain rfl : k = i' := eq_of_key (roll_of_history f hf).1.ids hk hi'
      (hkj.trans (hjj'.trans hid'.symm))
    rw [hwith] at hfree'
    simp only [mem_cons, reduceCtorEq, Option.some.injEq, not_mem_nil, or_false, false_or] at hfree'
    exact hne hfree'

end GrowTeam.Server
