/-
# The life cycle of a job

An abstract machine over what the server's guarantees about results depend on: the status
and its reason, the proposal, the receipt, the outbox row of the result, the attempts'
leases and the bot's messages.  `Turn` lists what a job may do while it works, with the
state it may do it in; publication has its own steps.  `GrowTeam.Server.Refinement` shows
that every transaction of the server takes turns of this machine only.
-/
import Mathlib.Logic.Relation
import GrowTeam.Server.Results

namespace GrowTeam.Server

open List

/-! ## Outlines -/

/-- One attempt in an outline. -/
structure LeaseView where
  id : Uuid
  number : ℕ
  active : Bool

/-- An attempt, as the life cycle sees it. -/
def Attempt.view (a : Attempt) : LeaseView := ⟨a.id, a.number, a.active⟩

/-- What the life cycle of a job depends on. -/
structure Outline where
  id : Uuid
  kind : JobKind
  target : DeliveryTarget
  status : JobState
  reason : String
  proposal : Option ResultPayload
  receipt : Option ResultReceipt
  messageId : Option ℕ
  row : Option OutboxState
  leases : List LeaseView
  messages : List Message
  /-- Some input was cancelled. -/
  cancelledInput : Bool
  nextId : ℕ

/-- The outline of a store. -/
def outline (s : Store) : Outline :=
  { id := s.job.id, kind := s.job.jobKind, target := s.job.deliveryTarget,
    status := s.job.status, reason := s.job.blockedReason, proposal := s.job.resultProposal,
    receipt := s.job.resultReceipt, messageId := s.job.resultMessageId,
    row := (s.row .result).map (·.status), leases := s.attempts.map Attempt.view,
    messages := s.messages, cancelledInput := s.inputs.any (·.deliveryState = .cancelled),
    nextId := s.nextId }

namespace Outline

/-- No attempt is active. -/
def Idle (o : Outline) : Prop := ∀ l ∈ o.leases, l.active = false

/-- The statuses of a job that no attempt works for any more, or is about to. -/
def haltedStatuses : List JobState := [.cancelRequested, .cancelled, .interrupted, .blocked]

/-- The statuses of a job that works and has no result. -/
def workingStatuses : List JobState := [.running, .waitingForInput, .waitingForApproval]

/-- What a job does outside publication.  The one thing not listed is what happens to a
verifying job when a transaction reopens it without withdrawing its proposal. -/
inductive Turn : Outline → Outline → Prop where
  | allocated (o : Outline) (n : ℕ) (hn : o.nextId ≤ n) : Turn o { o with nextId := n }
  | draftCompleted (o : Outline) (hs : o.status = .draft) :
    Turn o { o with
      status := .queued, reason := "", proposal := none, receipt := none, messageId := none }
  | claimed (o : Outline) (id : Uuid) (n : ℕ) (hs : o.status = .queued) (hidle : o.Idle)
    (hn : ∀ l ∈ o.leases, l.number < n) :
    Turn o { o with status := .running, reason := "", leases := o.leases ++ [⟨id, n, true⟩] }
  | halted (o : Outline) (status : JobState) (reason : String) (hs : o.status ≠ .completed)
    (hh : status ∈ haltedStatuses) : Turn o { o with status := status, reason := reason }
  | ended (o : Outline) (id : Uuid) (hs : o.status ≠ .completed) :
    Turn o { o with
      leases := updateWhere (·.id = id) (fun l => { l with active := false }) o.leases }
  | moved (o : Outline) (status : JobState) (hs : o.status ∈ workingStatuses)
    (hw : status ∈ workingStatuses) : Turn o { o with status := status, reason := "" }
  | withdrawn (o : Outline) (hs : o.status = .verifying) :
    Turn o { o with status := .running, reason := "", proposal := none }
  | retracted (o : Outline) (hs : o.status ≠ .completed) (hv : o.status ≠ .verifying) :
    Turn o { o with proposal := none }
  | prepared (o : Outline) (p : ResultPayload) (hs : o.status ≠ .completed) :
    Turn o { o with
      status := .verifying, reason := "", proposal := some p, row := some .pending }
  | steered (o : Outline) (hs : o.status ∈ reopened) :
    Turn o { o with status := .running, proposal := none }
  | resumed (o : Outline) (hs : o.status ∈ [.cancelled, .failed, .interrupted, .blocked]) :
    Turn o { o with status := .queued, reason := "", proposal := none }

/-- Any number of turns. -/
abbrev Path := Relation.ReflTransGen Turn

/-- A verifying job that a transaction reopened: its status moved on and its proposal
stayed, or the other way round. -/
inductive Reopened : Outline → Outline → Prop where
  | moved (o : Outline) (status : JobState) (n : ℕ) (hs : o.status = .verifying)
    (hw : status ∈ workingStatuses) (hn : o.nextId ≤ n) :
    Reopened o { o with status := status, reason := "", nextId := n }
  | emptied (o : Outline) (hs : o.status = .verifying) : Reopened o { o with proposal := none }

variable {o o' : Outline} {atop : Bool}

theorem Reopened.verifying (h : Reopened o o') : o.status = .verifying := by
  cases h with
  | moved status n hs hw hn | emptied hs => exact hs

/-! ## Publication -/

/-- The result is delivered.  The index says whether it goes over a streamed draft or is
sent in a message of its own. -/
inductive Delivered (o : Outline) : Bool → Outline → Prop where
  | sent (r : ResultReceipt) (direct : Bool) (c : Content)
    (hs : o.status = .verifying) (hidle : o.Idle) (hid : r.messageId = o.nextId) :
    Delivered o false { o with
      status := .completed, reason := "", receipt := some r, messageId := some r.messageId,
      row := some .delivered, messages := o.messages ++ [⟨o.nextId, direct, c⟩],
      nextId := o.nextId + 1 }
  | overDraft (r : ResultReceipt) (hs : o.status = .verifying) (hidle : o.Idle)
    (hid : o.messageId = some r.messageId) :
    Delivered o true { o with
      status := .completed, reason := "", receipt := some r, row := some .delivered }

theorem Delivered.verifying (h : Delivered o atop o') : o.status = .verifying := by
  cases h with
  | sent r direct c hs hidle hid | overDraft r hs hidle hid => exact hs

theorem Delivered.completed (h : Delivered o atop o') : o'.status = .completed := by
  cases h with
  | sent r direct c hs hidle hid | overDraft r hs hidle hid => rfl

theorem Delivered.row (h : Delivered o atop o') : o'.row = some .delivered := by
  cases h with
  | sent r direct c hs hidle hid | overDraft r hs hidle hid => rfl

/-- Over a draft only the state of the job is written. -/
theorem Delivered.unsent (h : Delivered o true o') :
    o'.messages = o.messages ∧ o'.messageId = o.messageId := by
  cases h with
  | overDraft r hs hidle hid => exact ⟨rfl, rfl⟩

/-- The outline after a draft was sent. -/
def draftSent (o : Outline) (c : Content) : Outline :=
  { o with
    messageId := some o.nextId, messages := o.messages ++ [⟨o.nextId, false, c⟩],
    nextId := o.nextId + 1 }

/-- The outline after a message was edited. -/
def edited (o : Outline) (id : ℕ) (c : Content) : Outline :=
  { o with messages := updateWhere (·.id = id) (fun m => { m with content := c }) o.messages }

/-- The outline after a message was deleted. -/
def deleted (o : Outline) (id : ℕ) : Outline :=
  { o with
    messages := o.messages.filter (·.id ≠ id),
    messageId := if o.messageId = some id then none else o.messageId }

/-! ## What every reachable outline has -/

/-- A text that renders the result of this job's proposal. -/
def Rendered (site : Site) (o : Outline) (c : Content) : Prop :=
  ∃ p mention steps, o.proposal = some p ∧
    (c = .result mention (resultBody o.kind o.target steps p.summary) (site.jobTaskLink o.id) ∨
      c = .directResult mention (resultBody o.kind o.target steps p.summary)
        (site.jobTaskLink o.id))

/-- The invariant of the life cycle. -/
structure Sound (site : Site) (o : Outline) : Prop where
  /-- A job is completed exactly when it has a receipt. -/
  completed : o.status = .completed ↔ o.receipt.isSome = true
  /-- No attempt of a completed job is active. -/
  contained : o.status = .completed → o.Idle
  /-- Attempts are numbered in their order, and only the last can be active. -/
  numbered : o.leases.Pairwise fun l l' => l.number < l'.number
  latestActive : ∀ l ∈ o.leases, l.active = true → ∀ l' ∈ o.leases, l'.number ≤ l.number
  /-- Messages have different ids, all of them allocated, and so is the job's reference. -/
  messageIds : (o.messages.map (·.id)).Nodup
  allocated : ∀ m ∈ o.messages, m.id < o.nextId
  referenced : ∀ id ∈ o.messageId, id < o.nextId
  /-- The message of a completed job, unless it was deleted, is the receipt's. -/
  resultMessage : ∀ r ∈ o.receipt, ∀ id ∈ o.messageId, id = r.messageId
  /-- The only message with a final text is the receipt's, and it shows the result. -/
  finalMessage : ∀ m ∈ o.messages, m.content.final = true →
    (∃ r, o.receipt = some r ∧ m.id = r.messageId) ∧ Rendered site o m.content
  /-- Nothing ever cancels an input. -/
  applied : o.cancelledInput = false

variable {site : Site} {o o' : Outline}

/-- Without a receipt no message has a final text. -/
theorem Sound.noFinal (h : Sound site o) (hs : o.status ≠ .completed) {m : Message}
    (hm : m ∈ o.messages) : m.content.final = false := by
  by_contra hf
  obtain ⟨⟨r, hr, -⟩, -⟩ := h.finalMessage m hm (by simpa using hf)
  exact hs (h.completed.mpr (by simp [hr]))

/-- Numbers tell attempts apart. -/
theorem Sound.number_inj (h : Sound site o) {l l' : LeaseView} (hl : l ∈ o.leases)
    (hl' : l' ∈ o.leases) (heq : l.number = l'.number) : l = l' := by
  have hnodup : (o.leases.map (·.number)).Nodup :=
    pairwise_map.mpr (h.numbered.imp fun hlt => ne_of_lt hlt)
  exact inj_on_of_nodup_map hnodup hl hl' heq

/-- A change of the working state: the receipt, the leases and the messages stay. -/
theorem Sound.working (h : Sound site o) (hs : o.status ≠ .completed) {status : JobState}
    {reason : String} {proposal : Option ResultPayload} {row : Option OutboxState} {n : ℕ}
    (hs' : status ≠ .completed) (hn : o.nextId ≤ n) :
    Sound site { o with
      status := status, reason := reason, proposal := proposal, row := row, nextId := n } where
  completed := by
    have hc := h.completed
    constructor
    · exact fun hst => absurd hst hs'
    · exact fun hr => absurd (hc.mpr hr) hs
  contained hst := absurd hst hs'
  numbered := h.numbered
  latestActive := h.latestActive
  messageIds := h.messageIds
  allocated m hm := lt_of_lt_of_le (h.allocated m hm) hn
  referenced id hid := lt_of_lt_of_le (h.referenced id hid) hn
  resultMessage := h.resultMessage
  finalMessage m hm hf := by
    have hnone := h.noFinal hs hm
    rw [hnone] at hf
    cases hf
  applied := h.applied

private theorem mem_updateWhere {α : Type} {p : α → Bool} {f : α → α} {xs : List α} {y : α} :
    y ∈ updateWhere p f xs ↔ ∃ x ∈ xs, (if p x = true then f x else x) = y := by
  simp [updateWhere]

section

variable (h : Sound site o)

include h

/-- Ending a lease keeps the invariant. -/
theorem Sound.ended (hs : o.status ≠ .completed) (id : Uuid) : Sound site { o with
      leases := updateWhere (·.id = id) (fun l => { l with active := false }) o.leases } := by
  have hview : ∀ l ∈ updateWhere (·.id = id) (fun l : LeaseView => { l with active := false })
      o.leases, ∃ l₀ ∈ o.leases, l₀.number = l.number ∧ (l.active = true → l₀.active = true) := by
    intro l hl
    obtain ⟨l₀, hl₀, rfl⟩ := mem_updateWhere.mp hl
    refine ⟨l₀, hl₀, ?_⟩
    split <;> simp
  exact
    { completed := h.completed
      contained := fun hst => absurd hst hs
      numbered := by
        show (o.leases.map _).Pairwise _
        refine pairwise_map.mpr (h.numbered.imp ?_)
        intro l l' hlt
        split <;> split <;> exact hlt
      latestActive := by
        intro l hl hact l' hl'
        obtain ⟨l₀, hl₀, hnum, hact₀⟩ := hview l hl
        obtain ⟨l₁, hl₁, hnum', -⟩ := hview l' hl'
        rw [← hnum, ← hnum']
        exact h.latestActive l₀ hl₀ (hact₀ hact) l₁ hl₁
      messageIds := h.messageIds
      allocated := h.allocated
      referenced := h.referenced
      resultMessage := h.resultMessage
      finalMessage := h.finalMessage
      applied := h.applied }

/-- A claim keeps the invariant. -/
theorem Sound.claimed (id : Uuid) (n : ℕ) (hs : o.status = .queued)
    (hidle : o.Idle) (hn : ∀ l ∈ o.leases, l.number < n) : Sound site { o with
      status := .running, reason := "", leases := o.leases ++ [⟨id, n, true⟩] } := by
  have hw : Sound site { o with status := .running, reason := "" } :=
    h.working (by rw [hs]; decide) (by decide) le_rfl
  exact
    { completed := hw.completed
      contained := fun hst => absurd hst (by simp)
      numbered := by
        refine pairwise_append.mpr ⟨h.numbered, pairwise_singleton _ _, ?_⟩
        intro l hl l' hl'
        obtain rfl := mem_singleton.mp hl'
        exact hn l hl
      latestActive := by
        intro l hl hact l' hl'
        rcases mem_append.mp hl with hl | hl
        · have hfalse := hidle l hl
          rw [hact] at hfalse
          cases hfalse
        · obtain rfl := mem_singleton.mp hl
          rcases mem_append.mp hl' with hl' | hl'
          · exact le_of_lt (hn l' hl')
          · obtain rfl := mem_singleton.mp hl'
            exact le_rfl
      messageIds := hw.messageIds
      allocated := hw.allocated
      referenced := hw.referenced
      resultMessage := hw.resultMessage
      finalMessage := hw.finalMessage
      applied := hw.applied }

/-- **Turns keep the invariant.** -/
theorem Sound.turn (ht : Turn o o') : Sound site o' := by
  cases ht with
  | allocated n hn =>
    exact
      { completed := h.completed, contained := h.contained, numbered := h.numbered,
        latestActive := h.latestActive, messageIds := h.messageIds,
        allocated := fun m hm => lt_of_lt_of_le (h.allocated m hm) hn,
        referenced := fun id hid => lt_of_lt_of_le (h.referenced id hid) hn,
        resultMessage := h.resultMessage, finalMessage := h.finalMessage, applied := h.applied }
  | draftCompleted hs =>
    have hopen : o.status ≠ .completed := by rw [hs]; decide
    have hw : Sound site { o with status := .queued, reason := "", proposal := none } :=
      h.working hopen (by decide) le_rfl
    exact
      { completed := by simp
        contained := hw.contained, numbered := hw.numbered, latestActive := hw.latestActive,
        messageIds := hw.messageIds, allocated := hw.allocated, referenced := by simp
        resultMessage := by simp
        finalMessage := fun m hm hf => by
          have hnone := h.noFinal hopen hm
          rw [hnone] at hf
          cases hf
        applied := hw.applied }
  | claimed id n hs hidle hn => exact h.claimed id n hs hidle hn
  | halted status reason hs hh =>
    refine h.working hs ?_ le_rfl
    rintro rfl
    exact absurd hh (by decide)
  | ended id hs => exact h.ended hs id
  | moved status hs hw =>
    refine h.working ?_ ?_ le_rfl
    · intro hc
      rw [hc] at hs
      exact absurd hs (by decide)
    · rintro rfl
      exact absurd hw (by decide)
  | withdrawn hs => exact h.working (by rw [hs]; decide) (by decide) le_rfl
  | retracted hs hv => exact h.working hs hs le_rfl
  | prepared p hs => exact h.working hs (by decide) le_rfl
  | steered hs | resumed hs =>
    refine h.working ?_ (by decide) le_rfl
    intro hc
    rw [hc] at hs
    exact absurd hs (by decide)

/-- Paths keep the invariant. -/
theorem Sound.path (hp : Path o o') : Sound site o' := by
  induction hp with
  | refl => exact h
  | tail _ ht ih => exact ih.turn ht

/-- Reopening keeps the invariant. -/
theorem Sound.reopened (ht : Reopened o o') : Sound site o' := by
  cases ht with
  | moved status n hs hw hn =>
    refine h.working (by rw [hs]; decide) ?_ hn
    rintro rfl
    exact absurd hw (by decide)
  | emptied hs =>
    have hopen : o.status ≠ .completed := by rw [hs]; decide
    exact h.working hopen hopen le_rfl

/-- What a message list keeps when one with a new id is sent. -/
private theorem Sound.appended (direct : Bool) (c : Content) :
    ((o.messages ++ [Message.mk o.nextId direct c]).map Message.id).Nodup ∧
      ∀ m ∈ o.messages ++ [⟨o.nextId, direct, c⟩], m.id < o.nextId + 1 := by
  constructor
  · rw [map_append]
    refine nodup_append.mpr ⟨h.messageIds, by simp, ?_⟩
    intro id hmem id' hmem' heq
    obtain ⟨m, hm, rfl⟩ := mem_map.mp hmem
    have hfresh : m.id = o.nextId := heq.trans (mem_singleton.mp hmem')
    have hlt := h.allocated m hm
    omega
  · intro m hm
    rcases mem_append.mp hm with hm | hm
    · have hlt := h.allocated m hm
      omega
    · obtain rfl := mem_singleton.mp hm
      show o.nextId < o.nextId + 1
      omega

/-- Delivering a text that renders the result keeps the invariant. -/
theorem Sound.delivered (hd : Delivered o atop o')
    (hr : ∀ m ∈ o'.messages, m.content.final = true → Rendered site o m.content) :
    Sound site o' := by
  cases hd with
  | sent r direct c hs hidle hid =>
    have hopen : o.status ≠ .completed := by rw [hs]; decide
    obtain ⟨hnodup, hlt⟩ := h.appended direct c
    exact
      { completed := by simp
        contained := fun _ => hidle
        numbered := h.numbered
        latestActive := h.latestActive
        messageIds := hnodup
        allocated := hlt
        referenced := by
          intro id hmem
          obtain rfl : r.messageId = id := by simpa using hmem
          show r.messageId < o.nextId + 1
          omega
        resultMessage := by
          intro r' hr' id hmem
          obtain rfl : r = r' := by simpa using hr'
          exact (by simpa using hmem : r.messageId = id).symm
        finalMessage := by
          intro m hm hf
          refine ⟨⟨r, rfl, ?_⟩, hr m hm hf⟩
          rcases mem_append.mp hm with hm | hm
          · have hnone := h.noFinal hopen hm
            rw [hnone] at hf
            cases hf
          · obtain rfl := mem_singleton.mp hm
            exact hid.symm
        applied := h.applied }
  | overDraft r hs hidle hid =>
    have hopen : o.status ≠ .completed := by rw [hs]; decide
    exact
      { completed := by simp
        contained := fun _ => hidle
        numbered := h.numbered
        latestActive := h.latestActive
        messageIds := h.messageIds
        allocated := h.allocated
        referenced := h.referenced
        resultMessage := by
          intro r' hr' id hmem
          obtain rfl : r = r' := by simpa using hr'
          exact Option.some.inj ((show o.messageId = some id from hmem).symm.trans hid)
        finalMessage := by
          intro m hm hf
          have hnone := h.noFinal hopen hm
          rw [hnone] at hf
          cases hf
        applied := h.applied }

/-- Sending a draft keeps the invariant while there is no receipt. -/
theorem Sound.draftSent (hs : o.status ≠ .completed) (mention text : String) :
    Sound site (o.draftSent (.draft mention text)) := by
  obtain ⟨hnodup, hlt⟩ := h.appended false (.draft mention text)
  exact
    { completed := h.completed
      contained := h.contained
      numbered := h.numbered
      latestActive := h.latestActive
      messageIds := hnodup
      allocated := hlt
      referenced := by
        intro id hmem
        obtain rfl : o.nextId = id := by simpa [Outline.draftSent] using hmem
        show o.nextId < o.nextId + 1
        omega
      resultMessage := by
        intro r hr
        exact absurd (h.completed.mpr (by rw [show o.receipt = some r from hr]; rfl)) hs
      finalMessage := by
        intro m hm hf
        rcases mem_append.mp hm with hm | hm
        · have hnone := h.noFinal hs hm
          rw [hnone] at hf
          cases hf
        · obtain rfl := mem_singleton.mp hm
          cases hf
      applied := h.applied }

/-- An edit keeps the invariant when a final text goes to the receipt's message. -/
theorem Sound.edited {id : ℕ} {c : Content}
    (hc : c.final = true → (∃ r, o.receipt = some r ∧ id = r.messageId) ∧ Rendered site o c) :
    Sound site (o.edited id c) := { h with
  messageIds := by
    have hmap : (o.edited id c).messages.map (·.id) = o.messages.map (·.id) := by
      show (o.messages.map _).map _ = _
      rw [map_map]
      apply map_congr_left
      intro m hm
      show (if _ then _ else _ : Message).id = m.id
      split <;> rfl
    rw [hmap]
    exact h.messageIds
  allocated := by
    intro m hm
    obtain ⟨m₀, hm₀, rfl⟩ := mem_updateWhere.mp hm
    have hlt := h.allocated m₀ hm₀
    split <;> exact hlt
  finalMessage := by
    intro m hm hf
    obtain ⟨m₀, hm₀, rfl⟩ := mem_updateWhere.mp hm
    by_cases hid : m₀.id = id
    · simp only [hid, decide_true, if_true] at hf ⊢
      exact hc hf
    · simp only [hid, decide_false, Bool.false_eq_true, if_false] at hf ⊢
      exact h.finalMessage m₀ hm₀ hf }

/-- Deleting a message keeps the invariant. -/
theorem Sound.deleted (id : ℕ) : Sound site (o.deleted id) := { h with
  messageIds := h.messageIds.sublist (filter_sublist.map _)
  allocated m hm := h.allocated m (mem_filter.mp hm).1
  referenced := by
    intro id' hid'
    refine h.referenced id' ?_
    by_cases hid : o.messageId = some id
    · simp [Outline.deleted, hid] at hid'
    · simpa [Outline.deleted, hid] using hid'
  resultMessage := by
    intro r hr id' hid'
    refine h.resultMessage r hr id' ?_
    by_cases hid : o.messageId = some id
    · simp [Outline.deleted, hid] at hid'
    · simpa [Outline.deleted, hid] using hid'
  finalMessage m hm hf := h.finalMessage m (mem_filter.mp hm).1 hf }

/-- The row of the result is nobody's concern here. -/
theorem Sound.row (row : Option OutboxState) : Sound site { o with row := row } :=
  { completed := h.completed, contained := h.contained, numbered := h.numbered,
    latestActive := h.latestActive, messageIds := h.messageIds, allocated := h.allocated,
    referenced := h.referenced, resultMessage := h.resultMessage,
    finalMessage := h.finalMessage, applied := h.applied }

end

/-! ## History -/

/-- What no step undoes: a receipt stays, ids are not reused, and a completed job keeps its
proposal.  In a careful history a receipt names a message that is newer than itself. -/
structure Extends (careful : Prop) (o o' : Outline) : Prop where
  receipt : ∀ r, o.receipt = some r → o'.receipt = some r
  nextId : o.nextId ≤ o'.nextId
  frozen : o.receipt ≠ none →
    o'.id = o.id ∧ o'.kind = o.kind ∧ o'.target = o.target ∧ o'.proposal = o.proposal
  fresh : careful → o.receipt = none → ∀ r, o'.receipt = some r → o.nextId ≤ r.messageId

variable {careful : Prop}

theorem Extends.refl (o : Outline) : Extends careful o o where
  receipt r h := h
  nextId := le_rfl
  frozen _ := ⟨rfl, rfl, rfl, rfl⟩
  fresh _ hr r h := by
    rw [hr] at h
    cases h

theorem Extends.trans {o₁ o₂ o₃ : Outline} (h : Extends careful o₁ o₂)
    (h' : Extends careful o₂ o₃) : Extends careful o₁ o₃ where
  receipt r hr := h'.receipt r (h.receipt r hr)
  nextId := le_trans h.nextId h'.nextId
  frozen hr := by
    obtain ⟨r, hr₁⟩ := Option.ne_none_iff_exists'.mp hr
    obtain ⟨hid, hkind, htarget, hproposal⟩ := h.frozen hr
    obtain ⟨hid', hkind', htarget', hproposal'⟩ := h'.frozen (by rw [h.receipt r hr₁]; simp)
    exact ⟨hid'.trans hid, hkind'.trans hkind, htarget'.trans htarget, hproposal'.trans hproposal⟩
  fresh hc hr r hr₃ := by
    cases hr₂ : o₂.receipt with
    | none => exact le_trans h.nextId (h'.fresh hc hr₂ r hr₃)
    | some r' =>
      have hsame := h'.receipt r' hr₂
      rw [hr₃] at hsame
      cases hsame
      exact h.fresh hc hr r hr₂

/-- Nothing is promised of a job without a receipt that gets none. -/
theorem Extends.ofOpen (hr : o.receipt = none) (hr' : o'.receipt = none)
    (hn : o.nextId ≤ o'.nextId) : Extends careful o o' where
  receipt r h := by
    rw [hr] at h
    cases h
  nextId := hn
  frozen h := absurd hr h
  fresh _ _ r h := by
    rw [hr'] at h
    cases h

theorem Sound.receipt_none (h : Sound site o) (hs : o.status ≠ .completed) :
    o.receipt = none := by
  by_contra hne
  have hsome : o.receipt.isSome = true := by
    rw [Option.isSome_iff_ne_none]
    exact hne
  exact hs (h.completed.mpr hsome)

theorem ne_completed {states : List JobState} {status : JobState} (hmem : status ∈ states)
    (hnot : JobState.completed ∉ states) : status ≠ .completed := by
  rintro rfl
  exact hnot hmem

/-- Every turn but an allocation is one of an open job. -/
theorem Turn.open_or (ht : Turn o o') :
    o.status ≠ .completed ∨ ∃ n, o.nextId ≤ n ∧ o' = { o with nextId := n } := by
  cases ht with
  | allocated n hn => exact .inr ⟨n, hn, rfl⟩
  | draftCompleted hs | claimed id n hs hidle hn => exact .inl (by rw [hs]; decide)
  | halted status reason hs hh | ended id hs => exact .inl hs
  | moved status hs hw => exact .inl (ne_completed hs (by decide))
  | withdrawn hs => exact .inl (by rw [hs]; decide)
  | retracted hs hv | prepared p hs => exact .inl hs
  | steered hs | resumed hs => exact .inl (ne_completed hs (by decide))

/-- No turn completes a job. -/
theorem Turn.open (ht : Turn o o') (hs : o.status ≠ .completed) : o'.status ≠ .completed := by
  cases ht with
  | allocated | ended | retracted => exact hs
  | draftCompleted hd | claimed id n hq hidle hn => simp
  | halted status reason hc hh => exact ne_completed hh (by decide)
  | moved status hw hw' => exact ne_completed hw' (by decide)
  | withdrawn hv => simp
  | prepared p hc | steered hr | resumed hr => simp

theorem Reopened.open (h : Reopened o o') : o'.status ≠ .completed := by
  cases h with
  | moved status n hs hw hn => exact ne_completed hw (by decide)
  | emptied hs =>
    show o.status ≠ .completed
    rw [hs]
    decide

theorem open_of_path (hp : Path o o') (hs : o.status ≠ .completed) : o'.status ≠ .completed := by
  induction hp with
  | refl => exact hs
  | tail _ ht ih => exact ht.open ih

/-- A turn sets no receipt. -/
theorem Turn.receipt (ht : Turn o o') (hr : o.receipt = none) : o'.receipt = none := by
  cases ht <;> first | exact hr | rfl

/-- Turns allocate ids, and give none back. -/
theorem Turn.nextId (ht : Turn o o') : o.nextId ≤ o'.nextId := by
  cases ht with
  | allocated n hn => exact hn
  | _ => exact le_rfl

theorem Sound.extends_turn (h : Sound site o) (ht : Turn o o') : Extends careful o o' := by
  rcases ht.open_or with hs | ⟨n, hn, rfl⟩
  · have hr := h.receipt_none hs
    exact .ofOpen hr (ht.receipt hr) ht.nextId
  · have hrefl : Extends careful o o := .refl o
    exact ⟨hrefl.receipt, hn, hrefl.frozen, hrefl.fresh⟩

theorem Sound.extends_path (h : Sound site o) (hp : Path o o') : Extends careful o o' := by
  induction hp with
  | refl => exact .refl o
  | tail hpath ht ih => exact ih.trans ((h.path hpath).extends_turn ht)

/-- A result text stays one once the receipt is set. -/
theorem Rendered.extends {c : Content} (h : Rendered site o c) (he : Extends careful o o')
    (hr : o.receipt ≠ none) : Rendered site o' c := by
  obtain ⟨hid, hkind, htarget, hproposal⟩ := he.frozen hr
  obtain ⟨p, mention, steps, hp, hc⟩ := h
  refine ⟨p, mention, steps, hproposal.trans hp, ?_⟩
  rw [hid, hkind, htarget]
  exact hc

end Outline

end GrowTeam.Server
