/-
# The order in which a queue applies its inputs

One `InputQueue` object with its journal, and the calls of `submit` and `next` on it in any
order.  A `next` that waits is a `Flight`: it waits for `runtime.sendTurn`, or holds a response
and waits for `acknowledge`.  Everything between two `await`s is one step.

`sent` and `applied` are no variables of the program.  They record the sequence numbers of the
inputs a turn was started for, and of those whose receipt `applied` was stored.
-/
import GrowTeam.History
import GrowTeam.Runtime.InputQueue

namespace GrowTeam.InOrder

open History List Bool Journal
open GrowTeam.Runtime (Key Log LogEntry InputQueue RunnerInput InputReceipt InputResponse Record Outcome
  journalError)

/-! ## The queue and its calls -/

/-- A call of `next` that waits. -/
structure Flight where
  input : RunnerInput
  response : Option InputResponse

/-- The queue, its journal, the calls that wait, and what was done so far. -/
structure Process where
  log : Log
  queue : InputQueue
  flights : List Flight
  sent : List ℕ
  applied : List ℕ

/-- What a step gives back. -/
inductive Reply where
  | waits
  | receipt (receipt : InputReceipt)
  | answer (answer : Option String)

/-- The response a journal entry holds. -/
def stored (entry : LogEntry) : Option InputResponse := entry.response.bind Record.asResponse

/-- `log.prepare("runtime-input", id, "local", {...})`. -/
def prepared (q : InputQueue) (log : Log) (input : RunnerInput) :
    Except JournalError (LogEntry × Log) :=
  log.prepare "runtime-input" (q.key input) "local" (.request q.d input) ""

/-- The entry lets `submit` put the input into `pending`. -/
def admits (q : InputQueue) (input : RunnerInput) (entry : LogEntry) : Bool :=
  !(q.pending.any fun p => p.id = input.id) &&
    !(entry.state = .done && (stored entry).map (·.receipt.outcome) = some .notApplied) &&
    entry.state ≠ .uncertain && q.cursor < input.sequence

variable (input : RunnerInput)

/-- The input is one that `submit` would put into `pending`. -/
def joins (s : Process) : Bool :=
  !s.queue.aborted && match prepared s.queue s.log input with
    | .ok (entry, _) => admits s.queue input entry
    | .error _ => false

/-- The part of `submit` after `prepare`. -/
def enter (entry : LogEntry) (s : Process) : Except String Reply × Process :=
  let receipt := (stored entry).map InputResponse.receipt
  if s.queue.pending.any fun p => p.id = input.id then (.ok .waits, s)
  else if entry.state = .done ∧ receipt.map InputReceipt.outcome = some .notApplied then
    (match receipt with | some r => .ok (.receipt r) | none => .error "TypeError", s)
  else if entry.state = .uncertain then
    (.error "Runtime input outcome is uncertain; do not replay", s)
  else if input.sequence ≤ s.queue.cursor then
    if entry.state ≠ .done then (.error "Input cursor has no matching receipt", s)
    else (match receipt with | some r => .ok (.receipt r) | none => .error "TypeError", s)
  else
    (.ok .waits, { s with queue := { s.queue with pending := s.queue.pending ++ [input] } })

variable (failure : Option String)

/-- `submit(input)`; the write of the journal may fail. -/
def submit (s : Process) : Except String Reply × Process :=
  if s.queue.aborted then (.error "Input attempt is stopped", s)
  else match failure, prepared s.queue s.log input with
    | some failure, _ => (.error failure, s)
    | none, .error e => (.error (journalError e), s)
    | none, .ok (entry, log) => enter input entry { s with log }

/-- What `next` does with the input it took, up to its first `await`. -/
def takes (p : RunnerInput) (failure : Option String) (s : Process) :
    Except String Reply × Process :=
  match s.log.get (s.queue.key p) with
  | none => (.error "TypeError", s)
  | some entry =>
    match entry.state with
    | .prepared =>
      match failure with
      | some failure => (.error failure, s)
      | none =>
        (.ok .waits,
          { s with
            log := s.log.uncertain (s.queue.key p)
            flights := s.flights ++ [⟨p, none⟩]
            sent := s.sent ++ [p.sequence] })
    | .uncertain => (.error "Runtime input outcome is uncertain; do not replay", s)
    | .done =>
      match stored entry with
      | none => (.error "TypeError", s)
      | some response => (.ok .waits, { s with flights := s.flights ++ [⟨p, some response⟩] })

/-- `next(runtime, acknowledge, sanitize)`. -/
def next (s : Process) : Except String Reply × Process :=
  if s.queue.aborted then (.error "Input attempt is stopped", s)
  else match s.queue.first with
    | none => (.ok (.answer none), s)
    | some p => takes p failure s

/-- A `next` goes on after `runtime.sendTurn`: `answer` is its sanitized text. -/
def reply (i : ℕ) (answer : Except String String) (uuid : Uuid) (failure : Option String)
    (s : Process) : Except String Reply × Process :=
  match s.flights[i]? with
  | some ⟨p, none⟩ =>
    match answer with
    | .error e => (.error e, { s with flights := s.flights.eraseIdx i })
    | .ok answer =>
      let response : InputResponse := ⟨⟨.applied, uuid⟩, answer, p.sequence⟩
      match failure, s.log.complete (s.queue.key p) (.response response) with
      | some failure, _ => (.error failure, { s with flights := s.flights.eraseIdx i })
      | none, .error e => (.error (journalError e), { s with flights := s.flights.eraseIdx i })
      | none, .ok log =>
        (.ok .waits,
          { s with
            log
            flights := s.flights.set i ⟨p, some response⟩
            applied := s.applied ++ [p.sequence] })
  | _ => (.ok .waits, s)

/-- A `next` goes on after `acknowledge`. -/
def acknowledged (i : ℕ) (result : Except String Unit) (s : Process) :
    Except String Reply × Process :=
  match s.flights[i]? with
  | some ⟨p, some response⟩ =>
    let s := { s with flights := s.flights.eraseIdx i }
    match result with
    | .error e => (.error e, s)
    | .ok () =>
      if s.queue.aborted then (.error "Input acknowledgement needs recovery", s)
      else
        (.ok (.answer (some response.answer)),
          { s with
            queue := { s.queue with
              cursor := p.sequence
              pending := s.queue.pending.filter fun r => r.id ≠ p.id } })
  | _ => (.ok .waits, s)

/-- The abort listener: every pending input without a turn gets the receipt `not_applied`. -/
def withdraws (q : InputQueue) (outcome : RunnerInput → Except String Uuid) :
    List RunnerInput → Log → Log
  | [], log => log
  | p :: rest, log =>
    match log.get (q.key p) with
    | some entry =>
      if entry.state = .prepared then
        match outcome p with
        | .error _ => log
        | .ok uuid =>
          match log.complete (q.key p) (.response ⟨⟨.notApplied, uuid⟩, "", p.sequence⟩) with
          | .error _ => log
          | .ok log => withdraws q outcome rest log
      else withdraws q outcome rest log
    | none => withdraws q outcome rest log

/-- `abort.abort()`: the signal fires once. -/
def abort (outcome : RunnerInput → Except String Uuid) (s : Process) :
    Except String Reply × Process :=
  if s.queue.aborted then (.ok .waits, s)
  else
    (.ok .waits,
      { s with
        log := withdraws s.queue outcome s.queue.pending s.log
        queue := { s.queue with aborted := true } })

/-- One atomic part of the queue's methods. -/
inductive Move where
  | submit (input : RunnerInput) (failure : Option String)
  | next (failure : Option String)
  | reply (i : ℕ) (answer : Except String String) (uuid : Uuid) (failure : Option String)
  | acknowledged (i : ℕ) (result : Except String Unit)
  | abort (outcome : RunnerInput → Except String Uuid)

/-- The step of a move. -/
def step : Move → Process → Except String Reply × Process
  | .submit input failure => submit input failure
  | .next failure => next failure
  | .reply i answer uuid failure => reply i answer uuid failure
  | .acknowledged i result => acknowledged i result
  | .abort outcome => abort outcome

/-- `new InputQueue(log, d, signal, cursor)` over the journal of an earlier process. -/
def start (log : Log) (d : LeaseIdentity) (is_aborted : Bool) (cursor : ℕ) : Process :=
  ⟨log, ⟨d, is_aborted, cursor, []⟩, [], [], []⟩

/-! ## What a step may rely on -/

/-- An input that joins comes after all that were started or are under way, and no pending
input has its sequence number; `next` is not called while another one waits for its
acknowledgement. -/
def Meets : Move → Process → Prop
  | .submit input failure, s => failure = none → joins input s = true →
      (∀ p ∈ s.queue.pending, p.sequence ≠ input.sequence) ∧
        (∀ n ∈ s.sent, n < input.sequence) ∧ ∀ f ∈ s.flights, f.input.sequence < input.sequence
  | .next _, s => ∀ f ∈ s.flights, f.response = none
  | _, _ => True

/-- A turn was started for the input, or it has a receipt. -/
def Started (log : Log) (key : Key) : Prop := ∃ e, log.get key = some e ∧ e.state ≠ .prepared

/-- **The invariant.**  At most one `next` waits, for the first of the pending inputs, and all
that was started comes before what is pending and not started. -/
structure Ordered (s : Process) : Prop where
  sequences : (s.queue.pending.map (·.sequence)).Nodup
  above : ∀ p ∈ s.queue.pending, s.queue.cursor < p.sequence
  single : s.flights.length ≤ 1
  lowest : ∀ f ∈ s.flights, f.input ∈ s.queue.pending ∧
    ∀ p ∈ s.queue.pending, f.input.sequence ≤ p.sequence
  turn : ∀ f ∈ s.flights, f.response = none →
    (∃ e, s.log.get (s.queue.key f.input) = some e ∧ e.state = .uncertain) ∧
      f.input.sequence ∈ s.sent ∧ ∀ n ∈ s.applied, n < f.input.sequence
  started : ∀ n ∈ s.sent, ∀ p ∈ s.queue.pending,
    n ≤ p.sequence ∧ (n = p.sequence → Started s.log (s.queue.key p))
  sent : s.sent.Pairwise (· < ·)
  applied : s.applied.Pairwise (· < ·)
  applied_sent : ∀ n ∈ s.applied, n ∈ s.sent

variable {s : Process} {p : RunnerInput} {log log' : Log}

/-- The pending inputs have different sequence numbers. -/
theorem Ordered.eq_of_sequence (h : Ordered s) {p r : RunnerInput}
    (hp : p ∈ s.queue.pending) (hr : r ∈ s.queue.pending) (hsequence : p.sequence = r.sequence) :
    p = r :=
  inj_on_of_nodup_map h.sequences hp hr hsequence

/-- `first` is a pending input, and none has a lower sequence number. -/
theorem first_eq_some {q : InputQueue} (h : q.first = some p) :
    p ∈ q.pending ∧ ∀ r ∈ q.pending, p.sequence ≤ r.sequence := by
  unfold InputQueue.first at h
  have hsorted : (q.pending.mergeSort fun a b => a.sequence ≤ b.sequence).Pairwise
      fun a b => decide (a.sequence ≤ b.sequence) = true := by
    apply pairwise_mergeSort
    · intro a b c hab hbc
      simp only [decide_eq_true_eq] at hab hbc ⊢
      exact Nat.le_trans hab hbc
    · intro a b
      simp only [or_eq_true, decide_eq_true_eq]
      exact Nat.le_total _ _
  cases hl : q.pending.mergeSort fun a b => a.sequence ≤ b.sequence with
  | nil => rw [hl] at h; cases h
  | cons a rest =>
    rw [hl] at h hsorted
    obtain rfl : a = p := by simpa using h
    refine ⟨mem_mergeSort.mp (by rw [hl]; exact mem_cons_self), ?_⟩
    intro r hr
    have hr' : r ∈ a :: rest := by rw [← hl]; exact mem_mergeSort.mpr hr
    rcases mem_cons.mp hr' with rfl | hr'
    · exact Nat.le_refl _
    · simpa using (pairwise_cons.mp hsorted).1 r hr'

/-! ## The journal under a step -/

/-- Entries beyond `prepared` stay as they are. -/
def Keeps (log log' : Log) : Prop :=
  ∀ key e, log.get key = some e → e.state ≠ .prepared → log'.get key = some e

theorem Keeps.started (h : Keeps log log') {key : Key} (hs : Started log key) :
    Started log' key := by
  obtain ⟨e, he, hstate⟩ := hs
  exact ⟨e, h key e he hstate, hstate⟩

/-- `Started` outlives every later journal. -/
theorem started_of_extends (h : Journal.Extends log log') {key : Key}
    (hs : Started log key) : Started log' key := by
  obtain ⟨e, he, hstate⟩ := hs
  obtain ⟨e', he', hforward⟩ := h key e he
  refine ⟨e', he', ?_⟩
  obtain ⟨-, -, -, -, -, hrank, -⟩ := hforward
  intro hprepared
  rw [hprepared] at hrank
  cases hst : e.state <;> simp [hst, EntryState.rank] at hrank hstate

theorem keeps_prepared {q : InputQueue} {input : RunnerInput} {entry : LogEntry}
    (h : prepared q log input = .ok (entry, log')) : Keeps log log' := by
  intro key e he _
  rcases prepare_ok h with ⟨-, rfl, -⟩ | ⟨hnone, -, hget⟩
  · exact he
  · rw [hget]
    split
    · next hkey => rw [hkey, hnone] at he; cases he
    · exact he

theorem keeps_uncertain (log : Log) (key : Key) : Keeps log (log.uncertain key) := by
  intro key' e he hstate
  rw [get_uncertain, he, Option.map_some, if_neg fun h => hstate h.2]

theorem keeps_withdraws (q : InputQueue) (outcome : RunnerInput → Except String Uuid)
    (items : List RunnerInput) (log : Log) : Keeps log (withdraws q outcome items log) := by
  induction items generalizing log with
  | nil => exact fun key e he _ => he
  | cons p rest ih =>
    unfold withdraws
    split
    · next entry hentry =>
      split
      · next hprepared =>
        split
        · exact fun key e he _ => he
        · split
          · exact fun key e he _ => he
          · next log' hcomplete =>
            intro key e he hstate
            obtain ⟨old, hold, -, hget⟩ := complete_ok hcomplete
            refine ih log' key e ?_ hstate
            rw [hget, if_neg, he]
            rintro rfl
            rw [hentry] at he
            cases he
            exact hstate hprepared
      · exact ih log
    · exact ih log

/-- The invariant does not see a journal that keeps what was started. -/
theorem Ordered.keeps (h : Ordered s) {log : Log} (hkeeps : Keeps s.log log) :
    Ordered { s with log } := { h with
  turn := by
    intro f hf hnone
    obtain ⟨⟨e, he, hstate⟩, happlied⟩ := h.turn f hf hnone
    exact ⟨⟨e, hkeeps _ e he (by rw [hstate]; decide), hstate⟩, happlied⟩
  started n hn p hp := ⟨(h.started n hn p hp).1, fun heq =>
    hkeeps.started ((h.started n hn p hp).2 heq)⟩ }

/-! ## `submit` -/

/-- What `submit` does to the queue: nothing but the journal, or the input joins. -/
theorem submit_state (s : Process) :
    ∃ log, Keeps s.log log ∧ ((submit input failure s).2 = { s with log } ∨
      (failure = none ∧ joins input s = true ∧ (submit input failure s).2 =
        { s with log, queue := { s.queue with pending := s.queue.pending ++ [input] } })) := by
  have hself : Keeps s.log s.log := fun key e he _ => he
  unfold submit
  by_cases haborted : s.queue.aborted = true
  · rw [if_pos haborted]
    exact ⟨s.log, hself, .inl rfl⟩
  rw [if_neg haborted]
  cases failure with
  | some failure => exact ⟨s.log, hself, .inl rfl⟩
  | none =>
    cases hprepared : prepared s.queue s.log input with
    | error e => exact ⟨s.log, hself, .inl rfl⟩
    | ok prepared =>
      obtain ⟨entry, log⟩ := prepared
      refine ⟨log, keeps_prepared hprepared, ?_⟩
      unfold enter
      dsimp only
      -- Every branch but the last leaves the queue as it is.
      split
      · exact .inl rfl
      split
      · exact .inl rfl
      split
      · exact .inl rfl
      split
      · split
        · exact .inl rfl
        · exact .inl rfl
      next hpending hdone huncertain hcursor =>
      refine .inr ⟨rfl, ?_, rfl⟩
      unfold joins
      rw [hprepared]
      rw [and_eq_true, not_eq_true']
      refine ⟨by simpa using haborted, ?_⟩
      unfold admits
      simp only [and_eq_true, not_eq_true', decide_eq_true_eq]
      refine ⟨⟨⟨by simpa using hpending, ?_⟩, huncertain⟩, by omega⟩
      simpa [Function.comp_def] using hdone

theorem ordered_submit (h : Ordered s) (input : RunnerInput)
    (failure : Option String) (hmeets : Meets (.submit input failure) s) :
    Ordered (submit input failure s).2 := by
  obtain ⟨log, hkeeps, heq | ⟨hnone, hjoins, heq⟩⟩ := submit_state input failure s
  · rw [heq]
    exact h.keeps hkeeps
  obtain ⟨hpending, hsent, hflights⟩ := hmeets hnone hjoins
  have hcursor : s.queue.cursor < input.sequence := by
    unfold joins at hjoins
    rw [and_eq_true] at hjoins
    have hadmits := hjoins.2
    split at hadmits
    · unfold admits at hadmits
      rw [and_eq_true, decide_eq_true_eq] at hadmits
      exact hadmits.2
    · cases hadmits
  have hlog : Ordered { s with log } := h.keeps hkeeps
  rw [heq]
  constructor
  · show ((s.queue.pending ++ [input]).map _).Nodup
    rw [map_append, map_singleton, ← concat_eq_append]
    refine h.sequences.concat ?_
    intro hmem
    obtain ⟨p, hp, hsequence⟩ := mem_map.mp hmem
    exact hpending p hp hsequence
  · intro p hp
    rcases mem_append.mp hp with hp | hp
    · exact h.above p hp
    · rw [mem_singleton.mp hp]
      exact hcursor
  · exact h.single
  · intro f hf
    refine ⟨mem_append_left _ (h.lowest f hf).1, ?_⟩
    intro p hp
    rcases mem_append.mp hp with hp | hp
    · exact (h.lowest f hf).2 p hp
    · rw [mem_singleton.mp hp]
      exact Nat.le_of_lt (hflights f hf)
  · exact hlog.turn
  · intro n hn p hp
    rcases mem_append.mp hp with hp | hp
    · exact hlog.started n hn p hp
    · rw [mem_singleton.mp hp]
      have hlt : n < input.sequence := hsent n hn
      exact ⟨Nat.le_of_lt hlt, fun heq => absurd heq (Nat.ne_of_lt hlt)⟩
  · exact h.sent
  · exact h.applied
  · exact h.applied_sent

/-! ## `next` -/

/-- A `next` that takes a pending input waits for its turn, or holds its response. -/
theorem takes_state (p : RunnerInput) (failure : Option String) (s : Process) :
    (takes p failure s).2 = s ∨
      (∃ e, s.log.get (s.queue.key p) = some e ∧ e.state = .prepared ∧ (takes p failure s).2 =
          { s with
            log := s.log.uncertain (s.queue.key p)
            flights := s.flights ++ [⟨p, none⟩]
            sent := s.sent ++ [p.sequence] }) ∨
      ∃ e response, s.log.get (s.queue.key p) = some e ∧ e.state = .done ∧
        (takes p failure s).2 = { s with flights := s.flights ++ [⟨p, some response⟩] } := by
  unfold takes
  cases hget : s.log.get (s.queue.key p) with
  | none => exact .inl rfl
  | some e =>
    dsimp only
    cases hstate : e.state with
    | prepared =>
      cases failure with
      | some failure => exact .inl rfl
      | none => exact .inr (.inl ⟨e, rfl, hstate, rfl⟩)
    | uncertain => exact .inl rfl
    | done =>
      cases hstored : stored e with
      | none => exact .inl rfl
      | some response => exact .inr (.inr ⟨e, response, rfl, hstate, rfl⟩)

section

variable (h : Ordered s)

include h

/-- While a turn runs, `next` finds its input uncertain. -/
theorem no_flight_of_taken (hmeets : ∀ f ∈ s.flights, f.response = none) (hp : p ∈ s.queue.pending)
    (hlow : ∀ r ∈ s.queue.pending, p.sequence ≤ r.sequence) {e : LogEntry}
    (he : s.log.get (s.queue.key p) = some e) (hstate : e.state ≠ .uncertain) : s.flights = [] := by
  cases hf : s.flights with
  | nil => rfl
  | cons f rest =>
    have hmem : f ∈ s.flights := by rw [hf]; exact mem_cons_self
    obtain ⟨hpending, hlowest⟩ := h.lowest f hmem
    have hsame : f.input = p :=
      h.eq_of_sequence hpending hp (Nat.le_antisymm (hlowest p hp) (hlow _ hpending))
    obtain ⟨⟨e', he', huncertain⟩, -⟩ := h.turn f hmem (hmeets f hmem)
    rw [hsame, he] at he'
    cases he'
    exact absurd huncertain hstate

theorem ordered_next (failure : Option String)
    (hmeets : Meets (.next failure) s) : Ordered (next failure s).2 := by
  unfold next
  split
  · exact h
  split
  · exact h
  next p hfirst =>
  obtain ⟨hp, hlow⟩ := first_eq_some hfirst
  rcases takes_state p failure s with heq | ⟨e, he, hprepared, heq⟩ | ⟨e, response, he, hdone, heq⟩
  · rw [heq]
    exact h
  · -- A turn starts: the input comes after all that was started before.
    have hnone : s.flights = [] :=
      no_flight_of_taken h hmeets hp hlow he (by rw [hprepared]; decide)
    have hlt : ∀ n ∈ s.sent, n < p.sequence := by
      intro n hn
      obtain ⟨hle, hstarted⟩ := h.started n hn p hp
      refine Nat.lt_of_le_of_ne hle ?_
      intro hn'
      obtain ⟨e', he', hstate⟩ := hstarted hn'
      rw [he] at he'
      cases he'
      exact hstate hprepared
    have huncertain : (s.log.uncertain (s.queue.key p)).get (s.queue.key p) =
        some { e with state := .uncertain } := by
      rw [get_uncertain, he, Option.map_some, if_pos ⟨rfl, hprepared⟩]
    have hlog : Ordered { s with log := s.log.uncertain (s.queue.key p) } :=
      h.keeps (keeps_uncertain _ _)
    rw [heq, hnone]
    constructor
    · exact h.sequences
    · exact h.above
    · simp
    · intro f hf
      rw [mem_singleton.mp hf]
      exact ⟨hp, hlow⟩
    · intro f hf _
      rw [mem_singleton.mp hf]
      exact ⟨⟨_, huncertain, rfl⟩, mem_append_right _ (mem_singleton_self _),
        fun n hn => hlt n (h.applied_sent n hn)⟩
    · intro n hn r hr
      rcases mem_append.mp hn with hn | hn
      · exact hlog.started n hn r hr
      · rw [mem_singleton.mp hn]
        refine ⟨hlow r hr, ?_⟩
        intro hsequence
        rw [← h.eq_of_sequence hp hr hsequence]
        exact ⟨_, huncertain, fun hstate => by cases hstate⟩
    · rw [pairwise_append]
      exact ⟨h.sent, pairwise_singleton _ _, fun n hn m hm => by
        rw [mem_singleton.mp hm]
        exact hlt n hn⟩
    · exact h.applied
    · exact fun n hn => mem_append_left _ (h.applied_sent n hn)
  · -- The input has its response already: only the acknowledgement is repeated.
    have hnone : s.flights = [] :=
      no_flight_of_taken h hmeets hp hlow he (by rw [hdone]; decide)
    rw [heq, hnone]
    constructor
    · exact h.sequences
    · exact h.above
    · simp
    · intro f hf
      rw [mem_singleton.mp hf]
      exact ⟨hp, hlow⟩
    · intro f hf hf'
      rw [mem_singleton.mp hf] at hf'
      cases hf'
    · exact h.started
    · exact h.sent
    · exact h.applied
    · exact h.applied_sent

/-! ## `reply`, `acknowledged` and `abort` -/

/-- The call that waits is the only one. -/
theorem Ordered.alone {i : ℕ} {f : Flight}
    (hf : s.flights[i]? = some f) : i = 0 ∧ s.flights = [f] := by
  have hsingle := h.single
  cases hl : s.flights with
  | nil => rw [hl] at hf; cases hf
  | cons g rest =>
    rw [hl] at hf hsingle
    obtain rfl : rest = [] := by
      apply eq_nil_of_length_eq_zero
      rw [length_cons] at hsingle
      omega
    cases i with
    | zero => exact ⟨rfl, by simpa using hf⟩
    | succ i => simp at hf

/-- A call of `next` ends. -/
theorem Ordered.lands : Ordered { s with flights := [] } := { h with
  single := by simp
  lowest := by simp
  turn := by simp }

theorem ordered_reply (i : ℕ) (answer : Except String String)
    (uuid : Uuid) (failure : Option String) : Ordered (reply i answer uuid failure s).2 := by
  unfold reply
  split
  · next p hf =>
    obtain ⟨rfl, halone⟩ := h.alone hf
    have hmem : (⟨p, none⟩ : Flight) ∈ s.flights := by
      rw [halone]
      exact mem_cons_self
    have hlands : Ordered { s with flights := s.flights.eraseIdx 0 } := by
      rw [halone]
      exact h.lands
    split
    · exact hlands
    · dsimp only
      split
      · exact hlands
      · exact hlands
      · next log hcomplete =>
        obtain ⟨⟨e, he, huncertain⟩, hsent, happlied⟩ := h.turn _ hmem rfl
        rw [halone]
        constructor
        · exact h.sequences
        · exact h.above
        · simp
        · intro f hf
          rw [mem_singleton.mp hf]
          exact h.lowest ⟨p, none⟩ hmem
        · intro f hf hnone
          rw [mem_singleton.mp hf] at hnone
          cases hnone
        · intro n hn r hr
          obtain ⟨hle, hstarted⟩ := h.started n hn r hr
          exact ⟨hle, fun heq =>
            started_of_extends (complete_extends hcomplete) (hstarted heq)⟩
        · exact h.sent
        · rw [pairwise_append]
          exact ⟨h.applied, pairwise_singleton _ _, fun n hn m hm => by
            rw [mem_singleton.mp hm]
            exact happlied n hn⟩
        · intro n hn
          rcases mem_append.mp hn with hn | hn
          · exact h.applied_sent n hn
          · rw [mem_singleton.mp hn]
            exact hsent
  · exact h

/-- The cursor moves on, to the first of the pending inputs. -/
theorem ordered_acknowledged (i : ℕ) (result : Except String Unit) :
    Ordered (acknowledged i result s).2 ∧
      s.queue.cursor ≤ (acknowledged i result s).2.queue.cursor := by
  unfold acknowledged
  split
  · next p response hf =>
    obtain ⟨rfl, halone⟩ := h.alone hf
    have hmem : (⟨p, some response⟩ : Flight) ∈ s.flights := by
      rw [halone]
      exact mem_cons_self
    obtain ⟨hp, hlow⟩ : p ∈ s.queue.pending ∧ ∀ r ∈ s.queue.pending, p.sequence ≤ r.sequence :=
      h.lowest _ hmem
    have hlands : Ordered { s with flights := s.flights.eraseIdx 0 } := by
      rw [halone]
      exact h.lands
    dsimp only
    split
    · exact ⟨hlands, Nat.le_refl _⟩
    split
    · exact ⟨hlands, Nat.le_refl _⟩
    refine ⟨?_, Nat.le_of_lt (h.above p hp)⟩
    rw [halone]
    constructor
    · exact h.sequences.sublist (List.Sublist.map _ filter_sublist)
    · intro r hr
      obtain ⟨hr, hid⟩ := mem_filter.mp hr
      refine Nat.lt_of_le_of_ne (hlow r hr) ?_
      intro hsequence
      have hsame : p = r := h.eq_of_sequence hp hr hsequence
      simp [hsame] at hid
    · simp
    · simp
    · simp
    · intro n hn r hr
      exact h.started n hn r (mem_of_mem_filter hr)
    · exact h.sent
    · exact h.applied
    · exact h.applied_sent
  · exact ⟨h, Nat.le_refl _⟩

theorem ordered_abort
    (outcome : RunnerInput → Except String Uuid) : Ordered (abort outcome s).2 := by
  unfold abort
  split
  · exact h
  · have hlog := h.keeps (keeps_withdraws s.queue outcome s.queue.pending s.log)
    exact
      { sequences := hlog.sequences
        above := hlog.above
        single := hlog.single
        lowest := hlog.lowest
        turn := hlog.turn
        started := hlog.started
        sent := hlog.sent
        applied := hlog.applied
        applied_sent := hlog.applied_sent }

end

/-! ## Every run -/

theorem ordered_start (log : Log) (d : LeaseIdentity) (is_aborted : Bool) (cursor : ℕ) :
    Ordered (start log d is_aborted cursor) := by
  constructor <;> simp [start]

/-- A step that meets the condition keeps the invariant. -/
theorem ordered_step (move : Move) (s : Process) (hmeets : Meets move s) (h : Ordered s) :
    Ordered (step move s).2 := by
  cases move with
  | submit input failure => exact ordered_submit h input failure hmeets
  | next failure => exact ordered_next h failure hmeets
  | reply i answer uuid failure => exact ordered_reply h i answer uuid failure
  | acknowledged i result => exact (ordered_acknowledged h i result).1
  | abort outcome => exact ordered_abort h outcome

/-- A step leaves the cursor or moves it on. -/
theorem cursor_step (move : Move) (s : Process) (h : Ordered s) :
    s.queue.cursor ≤ (step move s).2.queue.cursor := by
  cases move with
  | submit input failure =>
    obtain ⟨log, -, heq | ⟨-, -, heq⟩⟩ := submit_state input failure s
    · exact Nat.le_of_eq (congrArg (fun t => t.queue.cursor) heq).symm
    · exact Nat.le_of_eq (congrArg (fun t => t.queue.cursor) heq).symm
  | next failure =>
    dsimp only [step]
    unfold next
    split
    · exact Nat.le_refl _
    split
    · exact Nat.le_refl _
    next p _ =>
    rcases takes_state p failure s with heq | ⟨e, -, -, heq⟩ | ⟨e, response, -, -, heq⟩ <;>
      exact Nat.le_of_eq (congrArg (fun t => t.queue.cursor) heq).symm
  | reply i answer uuid failure =>
    dsimp only [step]
    unfold reply
    split
    · split
      · exact Nat.le_refl _
      · dsimp only
        split <;> exact Nat.le_refl _
    · exact Nat.le_refl _
  | acknowledged i result => exact (ordered_acknowledged h i result).2
  | abort outcome =>
    dsimp only [step]
    unfold abort
    split <;> exact Nat.le_refl _

/-- **Inputs are applied in order.**  In a run whose inputs never arrive behind one that was
started, turns start and receipts are stored in strictly increasing sequence, and the cursor
does not go back. -/
theorem applies_in_order (log : Log) (d : LeaseIdentity) (is_aborted : Bool) (cursor : ℕ)
    (moves : List Move)
    (hmeets : ∀ e ∈ history step (start log d is_aborted cursor) moves, Meets e.input e.pre) :
    ∀ e ∈ history step (start log d is_aborted cursor) moves,
      e.post.sent.Pairwise (· < ·) ∧ e.post.applied.Pairwise (· < ·) ∧
        e.pre.queue.cursor ≤ e.post.queue.cursor := by
  obtain ⟨-, hordered⟩ := history_inv_of step (J := Ordered) _ moves
    (ordered_start log d is_aborted cursor) hmeets ordered_step
  intro e he
  obtain ⟨hpre, hpost⟩ := hordered e he
  have hcursor := cursor_step e.input e.pre hpre
  rw [step_of_mem he] at hcursor
  exact ⟨hpost.sent, hpost.applied, hcursor⟩

/-! ## An input that arrives late -/

/-- The first input of a job, and the second. -/
def one : RunnerInput := ⟨11, 1, "Rename it"⟩

@[inherit_doc one]
def two : RunnerInput := ⟨12, 2, "Now run the tests"⟩

/-- The queue of a first attempt. -/
def fresh : Process := start .empty ⟨1, 1, 1⟩ false 0

/-- The second input arrives, its turn starts, and the first arrives meanwhile. -/
def lateRun : List Move :=
  [.submit two none, .next none, .submit one none, .reply 0 (.ok "Passed") 21 none,
    .acknowledged 0 (.ok ()), .next none, .reply 0 (.ok "Renamed") 22 none,
    .acknowledged 0 (.ok ())]

/-- The two inputs in their order, the second arriving while the first has its turn. -/
def orderlyRun : List Move :=
  [.submit one none, .next none, .submit two none, .reply 0 (.ok "Renamed") 21 none,
    .acknowledged 0 (.ok ()), .next none, .reply 0 (.ok "Passed") 22 none,
    .acknowledged 0 (.ok ())]

/-- With one pending input `next` takes it. -/
theorem next_of_pending (haborted : s.queue.aborted = false)
    (hpending : s.queue.pending = [p]) (failure : Option String) :
    next failure s = takes p failure s := by
  unfold next
  have hfirst : s.queue.first = some p := by
    rw [InputQueue.first, hpending, mergeSort_singleton]
    rfl
  rw [haborted, hfirst]
  rfl

/-- The late input is applied after its successor, and the cursor goes back to it. -/
theorem late_input_overtaken :
    ¬ ∀ (log : Log) (d : LeaseIdentity) (is_aborted : Bool) (cursor : ℕ) (moves : List Move),
      ∀ e ∈ history step (start log d is_aborted cursor) moves,
        e.post.sent.Pairwise (· < ·) ∧ e.post.applied.Pairwise (· < ·) ∧
          e.pre.queue.cursor ≤ e.post.queue.cursor := by
  intro h
  obtain ⟨-, happlied, -⟩ := h .empty ⟨1, 1, 1⟩ false 0 lateRun ⟨_, _, _, _⟩
    (mem_of_getElem? (i := 7) rfl)
  revert happlied
  decide +kernel

/-- Two inputs that arrive in their order, the second during the first one's turn. -/
theorem applies_in_order_orderly :
    ∃ e ∈ history step (start .empty ⟨1, 1, 1⟩ false 0) orderlyRun, e.post.applied = [1, 2] ∧
      e.post.sent.Pairwise (· < ·) ∧ e.post.applied.Pairwise (· < ·) ∧
        e.pre.queue.cursor ≤ e.post.queue.cursor := by
  have hfirst : step (.next none) (step (.submit one none) fresh).2 =
      takes one none (step (.submit one none) fresh).2 := next_of_pending rfl rfl none
  have hsecond : ∀ s, s = (step (.acknowledged 0 (.ok ()))
      (step (.reply 0 (.ok "Renamed") 21 none) (step (.submit two none)
        (takes one none (step (.submit one none) fresh).2).2).2).2).2 →
      step (.next none) s = takes two none s := by
    rintro s rfl
    exact next_of_pending (by decide) (by decide) none
  have hmeets : ∀ e ∈ history step fresh orderlyRun, Meets e.input e.pre := by
    unfold orderlyRun
    simp only [history, forall_mem_cons, hfirst, hsecond, Meets]
    refine ⟨by decide, by decide, by decide, trivial, trivial,
      by decide, trivial, trivial, ?_⟩
    simp
  have hmem := mem_of_getElem? (i := 7) (l := history step fresh orderlyRun) rfl
  refine ⟨_, hmem, ?_, applies_in_order .empty ⟨1, 1, 1⟩ false 0 orderlyRun hmeets _ hmem⟩
  decide +kernel

end GrowTeam.InOrder
