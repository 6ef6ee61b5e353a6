/-
# What a resumed job hands its new attempt

A new attempt starts at the cursor of its checkpoint, but `deliver_inputs` goes by the
receipts of the inputs.  An input that an earlier attempt applied after that checkpoint
falls between the two: no attempt is handed it again.
-/
import GrowTeam.Server.Steering
import GrowTeam.Server.Evidence

namespace GrowTeam.Server

open Interleaving Ledger List Except

variable {site : Site} {new : NewJob} {world : World} {now : Time} {moves : List (Move Call Unit)}

/-! ## Claims -/

/-- The input cursor that a new attempt starts from. -/
def startingCursor (s : Store) : ℕ := ((startingCheckpoint s).map (·.inputCursor)).getD 0

/-- The attempt is claimed in one of these steps. -/
def claimedIn (site : Site) (steps : List (Event Store Tag)) (attempt : Uuid) : Prop :=
  ∃ g ∈ steps, .claimed attempt ∈ deedsOf site g

/-- What a claim finds when it makes an attempt. -/
structure Claim (s s' : Store) (a : Attempt) : Prop where
  queued : s.job.status = .queued
  idle : (ledger s).Idle
  cursor : a.inputCursor = startingCursor s
  inputs : s'.inputs = s.inputs

variable {a : Attempt}

theorem claim_of_ok {s s' : Store} {claimKey : Uuid} {id : Option Uuid}
    (h : claimWork claimKey s = .ok (id, s')) (ha : s'.attempts = s.attempts ++ [a]) :
    Claim s s' a := by
  have hne : s'.attempts ≠ s.attempts := by
    rw [ha]
    simp
  simp only [claimWork, agentTransaction_eq_ok, bind_eq_ok] at h
  obtain ⟨-, _, -, h⟩ := h
  split at h
  · rw [pure_eq_ok, Prod.mk.injEq] at h
    exact absurd (by rw [h.2]) hne
  rw [bind_eq_ok] at h
  obtain ⟨-, -, h⟩ := h
  split at h
  · next hc =>
    unfold claimCandidate at h
    split at h
    · rw [ok.injEq, Prod.mk.injEq] at h
      exact absurd (by rw [← h.2]; rfl) hne
    split at h
    · rw [ok.injEq, Prod.mk.injEq] at h
      exact absurd (by rw [h.2]) hne
    next hidle =>
    split at h
    · split at h
      · rw [ok.injEq, Prod.mk.injEq] at h
        exact absurd (by rw [h.2]) hne
      · cases h
    · next descriptor _ =>
      simp only [bind_eq_ok, pure_eq_ok, Prod.mk.injEq] at h
      obtain ⟨s₁, haudit, -, rfl⟩ := h
      simp only [Store.audit, bind_eq_ok, pure_eq_ok] at haudit
      obtain ⟨-, -, rfl⟩ := haudit
      have hnew : newAttempt s claimKey descriptor = a :=
        singleton_inj.mp (append_cancel_left ha)
      exact ⟨hc.2.2.1, idle_of_none (by simpa using hidle), by rw [← hnew]; rfl, rfl⟩
  · rw [pure_eq_ok, Prod.mk.injEq] at h
    exact absurd (by rw [h.2]) hne

/-- Who is active after a step was active before it, or is claimed in it. -/
theorem active_of_entries {c d : Ledger} {l : List Deed} (h : Entries site c l d) :
    ∀ b ∈ d.attempts, b.active = true →
      (∃ a ∈ c.attempts, a.id = b.id ∧ a.active = true) ∨ .claimed b.id ∈ l := by
  induction h with
  | refl => exact fun b hb hactive => .inl ⟨b, hb, rfl, hactive⟩
  | tail hrest he ih =>
    intro b hb hactive
    rw [mem_append]
    rcases he.attempts.2 with ⟨f, hf, heq⟩ | ⟨a, rfl, -, -, -, heq⟩
    · rw [heq] at hb
      obtain ⟨x, hx, rfl⟩ := mem_map.mp hb
      have hid : (f x).id = x.id := congrArg Card.id (hf x).card
      rw [hid]
      exact (ih x hx ((hf x).active hactive)).imp id .inl
    · rw [heq] at hb
      rcases mem_append.mp hb with hb | hb
      · exact (ih b hb hactive).imp id .inl
      · rw [mem_singleton.mp hb]
        exact .inr (.inr (by simp))

/-! ## The attempts since a claim -/

/-- Since the claim of an attempt, only it and those claimed after it are active, and only
they are handed what had not been applied when it was claimed. -/
structure Succession (site : Site) (claimed : Store) (attempt : Uuid)
    (since : List (Event Store Tag)) (s : Store) : Prop where
  active : ∀ a ∈ s.attempts, a.active = true → a.id = attempt ∨ claimedIn site since a.id
  holders : ∀ j ∈ s.inputs, ∀ b, j.deliveredAttempt = some b →
    (∃ i ∈ claimed.inputs, i.id = j.id ∧ i.deliveryState = .applied) ∨
      ∃ f ∈ since, (b = attempt ∨ claimedIn site since b) ∧ handed j.id b f = true

theorem claimedIn.mono {steps more : List (Event Store Tag)} {b : Uuid}
    (h : claimedIn site steps b) : claimedIn site (steps ++ more) b := by
  obtain ⟨g, hg, hb⟩ := h
  exact ⟨g, mem_append_left _ hg, hb⟩

theorem Succession.step {claimed : Store} {attempt : Uuid} {since : List (Event Store Tag)}
    {g : Event Store Tag} (hg : g ∈ history site new world now moves)
    (h : Succession site claimed attempt since g.pre) :
    Succession site claimed attempt (since ++ [g]) g.post := by
  have hmono : ∀ b, b = attempt ∨ claimedIn site since b →
      b = attempt ∨ claimedIn site (since ++ [g]) b := fun b hb => hb.imp id claimedIn.mono
  constructor
  · intro a ha hactive
    rcases active_of_entries (entries_of_history hg) a.tenure (mem_ledger ha) hactive with
      ⟨t, ht, hid, hactive'⟩ | hclaimed
    · obtain ⟨b, hb, rfl⟩ := mem_map.mp ht
      have hid' : b.id = a.id := hid
      rw [← hid']
      exact hmono b.id (h.active b hb hactive')
    · exact .inr ⟨g, by simp, hclaimed⟩
  · intro j hj b hd
    rcases handed_of_holder hg hj hd with ⟨i, hi, hid, hd'⟩ | ⟨hnow, a, ha, rfl, hactive⟩
    · rw [← hid]
      refine (h.holders i hi b hd').imp id ?_
      rintro ⟨f, hf, hb, hhanded⟩
      exact ⟨f, mem_append_left _ hf, hmono b hb, hhanded⟩
    · exact .inr ⟨g, by simp, hmono a.id (h.active a ha hactive), hnow⟩

/-- A claim starts a succession. -/
theorem Claim.succession {s s' : Store} (h : Claim s s' a) (hr : Roll (ledger s))
    (ha : s'.attempts = s.attempts ++ [a]) : Succession site s a.id [] s' := by
  constructor
  · intro b hb hactive
    rw [ha] at hb
    rcases mem_append.mp hb with hb | hb
    · have hinactive : b.active = false := h.idle b.tenure (mem_ledger hb)
      rw [hactive] at hinactive
      cases hinactive
    · exact .inl (congrArg Attempt.id (mem_singleton.mp hb))
  · intro j hj b hd
    rw [h.inputs] at hj
    have hstate := hr.queued h.queued j hj
    rcases mem_cons.mp hstate with hpending | happlied
    · rw [(hr.pending j hj).mp hpending] at hd
      cases hd
    · exact .inl ⟨j, hj, rfl, mem_singleton.mp happlied⟩

/-- The input with this id and number was applied. -/
def AppliedAs (input : Uuid) (n : ℕ) (c : Ledger) : Prop :=
  ∃ i ∈ c.inputs, i.id = input ∧ i.sequence = n ∧ i.deliveryState = .applied

theorem appliedAs_entry {c d : Ledger} {m : Option Deed} {input : Uuid} {n : ℕ} (hr : Roll c)
    (he : Ledger.Entry site c m d) (h : AppliedAs input n c) : AppliedAs input n d := by
  obtain ⟨i, hi, hid, hn, hs⟩ := h
  rcases he.inputs hr.ids with ⟨⟨f, hf, heq⟩, -⟩ | ⟨i', -, heq, -⟩
  · have hsame := (hf i hi).final hs
    refine ⟨f i, by rw [heq]; exact mem_map_of_mem hi, ?_⟩
    rw [hsame]
    exact ⟨hid, hn, hs⟩
  · exact ⟨i, by rw [heq]; exact mem_append_left _ hi, hid, hn, hs⟩

/-- When a job completes, the attempt that `claim_work` made in an earlier step, or one claimed
after it, was handed every input beyond its starting cursor, exactly when no input beyond that
cursor had been applied by then. -/
theorem handedOn_iff {past mid later : List (Event Store Tag)} {c e : Event Store Tag}
    {claimKey : Uuid}
    (h : history site new world now moves = past ++ c :: (mid ++ e :: later))
    (hc : c.tag.transaction = .claimWork claimKey) (ha : c.post.attempts = c.pre.attempts ++ [a])
    (hend : e.post.job.status = .completed) :
    a.inputCursor = startingCursor c.pre ∧
    ((∀ i ∈ e.post.inputs, startingCursor c.pre < i.sequence →
        ∃ f ∈ mid, ∃ b, (b = a.id ∨ claimedIn site mid b) ∧ handed i.id b f = true) ↔
      ∀ i ∈ c.pre.inputs, i.deliveryState = .applied → i.sequence ≤ startingCursor c.pre) := by
  have hmem : c ∈ history site new world now moves ∧ e ∈ history site new world now moves := by
    rw [h]
    simp
  have hroll := roll_of_history c hmem.1
  have hclaim : Claim c.pre c.post a := by
    have haccepted : ∃ r, c.tag.transaction.run site c.pre = .ok r := by
      rcases (meets_of_history hmem.1).owed.2 with ⟨r, hrun⟩ | ⟨-, hsame⟩
      · exact ⟨_, hrun⟩
      · rw [hsame] at ha
        have hlen := congrArg List.length ha
        simp at hlen
    obtain ⟨id, hrun⟩ := run_of_accepted (meets_of_history hmem.1) haccepted
    revert id
    rw [hc]
    exact fun id hrun => claim_of_ok hrun ha
  -- What was applied when the attempt was claimed stays applied.
  have happlied : ∀ i ∈ c.pre.inputs, i.deliveryState = .applied →
      ∀ {mid' later' : List (Event Store Tag)} {f : Event Store Tag},
        mid ++ e :: later = mid' ++ f :: later' →
        AppliedAs i.id i.sequence (ledger f.pre) ∧ AppliedAs i.id i.sequence (ledger f.post) := by
    intro i hi hs mid' later' f hsplit
    rw [hsplit] at h
    have hstart : AppliedAs i.id i.sequence (ledger c.post) := by
      refine ⟨i, ?_, rfl, rfl, hs⟩
      show i ∈ c.post.inputs
      rw [hclaim.inputs]
      exact hi
    have hstays := stays_of_history (J := fun c => Roll c ∧ AppliedAs i.id i.sequence c)
      (fun c m d ho he ⟨hr, ha⟩ => ⟨hr.entry ho he, appliedAs_entry hr he ha⟩) h
      ⟨hroll.2, hstart⟩
    exact ⟨hstays.1.2, hstays.2.2⟩
  refine ⟨hclaim.cursor, fun hall i hi hs => ?_, fun hall i hi hlt => ?_⟩
  · by_contra hbeyond
    obtain ⟨i', hi', hid, hseq, -⟩ := (happlied i hi hs rfl).2
    obtain ⟨f, hf, b, -, hhanded⟩ := hall i' hi' (by rw [hseq]; exact Nat.lt_of_not_le hbeyond)
    obtain ⟨mid₁, mid₂, rfl⟩ := append_of_mem hf
    have hf' : f ∈ history site new world now moves := by
      rw [h]
      simp
    obtain ⟨x, hx, hxid, -, hxs⟩ := (happlied i hi hs (append_assoc _ _ _)).1
    obtain ⟨y, items, -, hdelivery, j, hj, hji⟩ := delivery_of_handed hf' hhanded
    obtain ⟨-, k, hk, hkj, hu, -⟩ := hdelivery.found j hj
    obtain rfl : k = x := eq_of_key (roll_of_history f hf').1.ids hk hx
      (hkj.trans (hji.trans (hid.trans hxid.symm)))
    simp [Store.unapplied, hxs] at hu
  · have hrollEnd := (roll_of_history e hmem.2).2
    have hdone := hrollEnd.completed hend i hi
    obtain ⟨b, hb⟩ : ∃ b, i.deliveredAttempt = some b := by
      rw [← Option.ne_none_iff_exists']
      intro hnone
      have hpending := (hrollEnd.pending i hi).mpr hnone
      rw [hdone] at hpending
      cases hpending
    rcases handed_of_holder hmem.2 hi hb with ⟨i₀, hi₀, hid, hb₀⟩ | ⟨hnow, -⟩
    · have hsuccession := (Machine.trace_since (M := machine site)
        (J := fun since s => Succession site c.pre a.id since s) h (hclaim.succession hroll.1 ha)
        (fun _ _ hJ => hJ) (fun _ _ hg hJ => hJ.step hg) rfl).1
      rcases hsuccession.holders i₀ hi₀ b hb₀ with ⟨i₁, hi₁, hid₁, hs₁⟩ | ⟨f, hf, hfb, hhanded⟩
      · obtain ⟨x, hx, hxid, hxn, -⟩ := (happlied i₁ hi₁ hs₁ rfl).2
        obtain rfl : x = i := eq_of_key hrollEnd.ids hx hi (hxid.trans (hid₁.trans hid))
        have hle := hall i₁ hi₁ hs₁
        omega
      · rw [hid] at hhanded
        exact ⟨f, hf, b, hfb, hhanded⟩
    · obtain ⟨x, items, -, hdelivery, -⟩ := delivery_of_handed hmem.2 hnow
      have hworking := hdelivery.working
      rw [hend] at hworking
      simp [executing] at hworking

/-- **Steering that is not lost on resume.**  `claim_work` makes an attempt in one step and the
job completes in a later one.  Every input beyond the cursor the attempt starts from was then
handed to it, or to one claimed after it, exactly when no input beyond that cursor had been
applied before the claim; with no further claim, it is the attempt itself. -/
theorem steering_of_history (site : Site) (new : NewJob) (world : World) (now : Time)
    (moves : List (Move Call Unit)) (past mid later : List (Event Store Tag))
    (c e : Event Store Tag) (claimKey : Uuid) (a : Attempt)
    (h : history site new world now moves = past ++ c :: (mid ++ e :: later))
    (hc : c.tag.transaction = .claimWork claimKey) (ha : c.post.attempts = c.pre.attempts ++ [a])
    (hend : e.post.job.status = .completed) :
    a.inputCursor = startingCursor c.pre ∧
    ((∀ i ∈ e.post.inputs, a.inputCursor < i.sequence →
        ∃ f ∈ mid, ∃ b, (b = a.id ∨ claimedIn site mid b) ∧ handed i.id b f = true) ↔
      ∀ i ∈ c.pre.inputs, i.deliveryState = .applied → i.sequence ≤ startingCursor c.pre) ∧
    ((∀ b, ¬ claimedIn site mid b) →
      ((∀ i ∈ e.post.inputs, a.inputCursor < i.sequence → ∃ f ∈ mid, handed i.id a.id f = true) ↔
        ∀ i ∈ c.pre.inputs, i.deliveryState = .applied →
          i.sequence ≤ startingCursor c.pre)) := by
  obtain ⟨hcursor, hiff⟩ := handedOn_iff h hc ha hend
  rw [hcursor]
  refine ⟨rfl, hiff, fun hlast => ?_⟩
  rw [← hiff]
  constructor
  · intro hall i hi hlt
    obtain ⟨f, hf, hhanded⟩ := hall i hi hlt
    exact ⟨f, hf, a.id, .inl rfl, hhanded⟩
  · intro hall i hi hlt
    obtain ⟨f, hf, b, rfl | hb, hhanded⟩ := hall i hi hlt
    · exact ⟨f, hf, hhanded⟩
    · exact absurd hb (hlast b)

/-! ## Two resumed jobs -/

/-- The lease of the attempt that the resumed job is claimed with. -/
def secondLease : LeaseIdentity := ⟨1, 3, 2⟩

/-- The `i`-th task records the `n`-th event of the second attempt. -/
def reportSecond (i n version : ℕ) (body : EventBody) : List (Move Call Unit) :=
  .start (.event { nthEvent n body with toLeaseIdentity := secondLease } version) :: rounds i 1

/-- The requester steers the first attempt. -/
def steeredRun : List (Move Call Unit) :=
  request 0 (.claimWork 7) ++ report 1 1 2 startedBody ++
    request 2 (.addInput ⟨10, 2, 9, "Use the old name.", "steering", none⟩)

/-- The second attempt prepares its result with its `n`-th event and stops, and the result is
published. -/
def finishRun (i n : ℕ) : List (Move Call Unit) :=
  .start (.artifact secondLease 6 ⟨.summary, "checksum", 10⟩) :: rounds i 3 ++
    reportSecond (i + 1) n 6 (.resultPrepared ⟨[4], none, "Done."⟩) ++
    reportSecond (i + 2) (n + 1) 7 stoppedBody ++ rounds (i + 2) 3

/-- The first attempt stops, and the job is resumed and claimed again. -/
def resumeRun (i n : ℕ) : List (Move Call Unit) :=
  report i n 3 stoppedBody ++ request (i + 1) (.resumeJob 10 4 none) ++
    request (i + 2) (.claimWork 8) ++ reportSecond (i + 3) 1 6 startedBody

/-- The first attempt applies the input and stops without a checkpoint. -/
def forgottenRun : List (Move Call Unit) :=
  steeredRun ++ request 3 (.deliverInputs firstLease none) ++
    report 4 2 3 (.inputApplied ⟨2, 1⟩) ++ resumeRun 5 3 ++ finishRun 9 2

/-- The first attempt stops before it is handed the input. -/
def handedRun : List (Move Call Unit) :=
  steeredRun ++ resumeRun 3 2 ++ request 7 (.deliverInputs secondLease none) ++
    reportSecond 8 2 6 (.inputApplied ⟨2, 1⟩) ++ finishRun 9 3

/-- The claim key of a claim. -/
def Transaction.claimKey : Transaction → Option Uuid
  | .claimWork key => some key
  | _ => none

theorem Transaction.claimKey_eq_some {t : Transaction} {key : Uuid} :
    t.claimKey = some key ↔ t = .claimWork key := by
  constructor
  · intro h
    cases t with
    | claimWork k => exact congrArg Transaction.claimWork (Option.some.inj h)
    | _ => cases h
  · rintro rfl
    rfl

/-- The input that the first attempt did not apply goes to the second. -/
theorem steering_handedRun :
    ∃ past c mid e later a, history plainSite answerJob openWorld 0 handedRun =
        past ++ c :: (mid ++ e :: later) ∧
      c.tag.transaction = .claimWork 8 ∧ c.post.attempts = c.pre.attempts ++ [a] ∧
      e.post.job.status = .completed ∧
      ∀ i ∈ e.post.inputs, a.inputCursor < i.sequence →
        ∃ f ∈ mid, ∃ b, (b = a.id ∨ claimedIn plainSite mid b) ∧ handed i.id b f = true := by
  have hsplit : ∃ past c mid e later, history plainSite answerJob openWorld 0 handedRun =
      past ++ c :: (mid ++ e :: later) ∧
      (c.tag.transaction.claimKey = some 8 ∧
        (∃ a ∈ c.post.attempts, c.post.attempts = c.pre.attempts ++ [a]) ∧
        (∀ i ∈ c.pre.inputs, i.deliveryState ≠ .applied) ∧ e.post.job.status = .completed) := by
    refine exists_split ?_
    decide
  obtain ⟨past, c, mid, e, later, h, hc, ⟨a, -, ha⟩, hopen, hend⟩ := hsplit
  have hclaim : c.tag.transaction = .claimWork 8 := Transaction.claimKey_eq_some.mp hc
  refine ⟨past, c, mid, e, later, a, h, hclaim, ha, hend, ?_⟩
  exact (steering_of_history plainSite answerJob openWorld 0 handedRun past mid later c e 8 a h
    hclaim ha hend).2.1.mpr fun i hi hs => absurd hs (hopen i hi)

/-- The job completes although the second attempt, which starts from the beginning, was never
handed the input that the first one applied. -/
theorem forgotten_forgottenRun :
    ¬ ∀ past mid later c e claimKey a, history plainSite answerJob openWorld 0 forgottenRun =
        past ++ c :: (mid ++ e :: later) →
      c.tag.transaction = .claimWork claimKey → c.post.attempts = c.pre.attempts ++ [a] →
      e.post.job.status = .completed →
      ∀ i ∈ e.post.inputs, a.inputCursor < i.sequence → ∃ f ∈ mid, handed i.id a.id f = true := by
  intro hall
  have hnone : ∀ f ∈ history plainSite answerJob openWorld 0 forgottenRun,
      handed 2 3 f = false := by
    decide
  have hsplit : ∃ past c mid e later, history plainSite answerJob openWorld 0 forgottenRun =
      past ++ c :: (mid ++ e :: later) ∧
      (c.tag.transaction.claimKey = some 8 ∧
        (∃ a ∈ c.post.attempts, c.post.attempts = c.pre.attempts ++ [a] ∧ a.id = 3 ∧
          a.inputCursor = 0) ∧
        e.post.job.status = .completed ∧ ∃ i ∈ e.post.inputs, i.id = 2 ∧ i.sequence = 1) := by
    refine exists_split ?_
    decide
  obtain ⟨past, c, mid, e, later, h, hc, ⟨a, -, ha, hid, hcursor⟩, hend, i, hi, hii, hseq⟩ :=
    hsplit
  have hclaim : c.tag.transaction = .claimWork 8 := Transaction.claimKey_eq_some.mp hc
  obtain ⟨f, hf, hhanded⟩ := hall past mid later c e 8 a h hclaim ha hend i hi
    (by rw [hcursor, hseq]; decide)
  rw [hii, hid, hnone f (by rw [h]; simp [hf])] at hhanded
  cases hhanded

end GrowTeam.Server
