import GrowTeam.History

/-!
# No pending e-mail is slept over

The worker thread goes to sleep in a critical section in which it has seen the rows, and a row is
made in one in which the thread is notified if it sleeps without a timeout.  Each critical
section of the condition variable is a step, and each statement outside of these.
-/

namespace GrowTeam.MissedEmails

open History List

structure MissedMessage where
  userProfileId : ℕ
  messageId : ℕ
  trigger : String
  mentionedUserGroupId : Option ℕ

/-- A `ScheduledMessageNotificationEmail`. -/
structure Row where
  id : ℕ
  event : MissedMessage
  scheduledTimestamp : ℕ

/-- Where the worker thread is.  A wait tells whether it has been notified. -/
inductive Worker where
  | looping
  | waiting (timeout : Option ℕ) (notified : Bool)
  | sending
  | deleting (seenEvents : List ℕ)
  | failed
  | backingOff
  | finished

structure State where
  rows : List Row
  stopping : Bool
  hasTimeout : Bool
  backoff : ℕ
  worker : Worker
  /-- What is consumed, with the time at which to send it. -/
  consumed : Option (MissedMessage × ℕ)

inductive Input where
  | read (event : MissedMessage) (now batchDuration : ℕ)
  /-- The row of what is consumed is made with this id, or not at all. -/
  | create (id : Option ℕ)
  /-- Messages are deleted elsewhere. -/
  | deleteMessages (messageIds : List ℕ)
  | backgroundLoop
  /-- The worker gets the lock again, possibly because the time of its wait is up. -/
  | wake (elapsed : Bool)
  /-- Rows that are locked elsewhere are skipped. -/
  | select (now : ℕ) (locked : List ℕ)
  | delete
  /-- An exception in the worker thread, possibly after `has_timeout` is set. -/
  | raise (late : Bool)
  | handle
  | stop

namespace State

variable (s : State)

def start (rows : List Row) : State := ⟨rows, false, false, 1, .looping, none⟩

def notify : State :=
  match s.worker with
  | .waiting timeout _ => { s with worker := .waiting timeout true }
  | _ => s

def waitCondition (timeout : Option ℕ) : Bool := s.stopping || (timeout.isNone && !s.rows.isEmpty)

/-- A turn of `wait_for`.  A loop that has been notified is a success. -/
def waitFor (timeout : Option ℕ) (elapsed : Bool) : State :=
  if s.waitCondition timeout then { s with worker := .looping, backoff := 1 }
  else if elapsed then { s with worker := .sending }
  else { s with worker := .waiting timeout false }

def read (event : MissedMessage) (now batchDuration : ℕ) : State :=
  { s with consumed := some (event,
      match s.rows.find? fun row => row.event.userProfileId = event.userProfileId with
      | some pending => pending.scheduledTimestamp
      | none => now + batchDuration) }

/-- The critical section of `consume`. -/
def create (id : Option ℕ) : State :=
  match s.consumed, id with
  | some (event, timestamp), some id =>
    let s := { s with rows := s.rows ++ [⟨id, event, timestamp⟩], consumed := none }
    if s.hasTimeout then s else s.notify
  | _, _ => { s with consumed := none }

/-- `background_loop`, until it waits. -/
def backgroundLoop : State :=
  if s.stopping then { s with worker := .finished }
  else
    let timeout := if s.rows.isEmpty then none else some 5
    waitFor { s with hasTimeout := timeout.isSome } timeout false

def wake (elapsed : Bool) : State :=
  match s.worker with
  | .waiting timeout notified =>
    let elapsed := elapsed && timeout.isSome
    if notified || elapsed then s.waitFor timeout elapsed else s
  | .backingOff => { s with worker := .looping, backoff := min 30 (s.backoff * 2) }
  | _ => s

def raise (late : Bool) : State :=
  match s.worker with
  | .looping =>
    { s with worker := .failed, hasTimeout := if late then !s.rows.isEmpty else s.hasTimeout }
  | .waiting _ true | .sending | .deleting _ => { s with worker := .failed }
  | _ => s

end State

def step (i : Input) (s : State) : Unit × State :=
  ((), match i, s.worker with
    | .read event now batchDuration, _ => s.read event now batchDuration
    | .create id, _ => s.create id
    | .deleteMessages messageIds, _ =>
      { s with rows := s.rows.filter (·.event.messageId ∉ messageIds) }
    | .backgroundLoop, .looping => s.backgroundLoop
    | .wake elapsed, _ => s.wake elapsed
    | .select now locked, .sending =>
      { s with worker := .deleting ((s.rows.filter fun row =>
          row.scheduledTimestamp ≤ now && row.id ∉ locked).map Row.id) }
    | .delete, .deleting seenEvents =>
      { s with rows := s.rows.filter (·.id ∉ seenEvents), worker := .looping, backoff := 1 }
    | .raise late, _ => s.raise late
    | .handle, .failed => { s with hasTimeout := true, worker := .backingOff }
    | .stop, _ => State.notify { s with stopping := true }
    | _, _ => s)

/-- The worker sleeps until it is notified, and has something to do. -/
def State.SleptOver (s : State) : Prop :=
  s.worker = .waiting none false ∧ (s.rows ≠ [] ∨ s.stopping = true)

/-- What holds of a worker that waits without a timeout. -/
def State.Attentive (s : State) : Prop :=
  ∀ notified, s.worker = .waiting none notified →
    s.hasTimeout = false ∧ (notified = false → s.rows = [] ∧ s.stopping = false)

variable {s : State}

theorem attentive_waitFor {timeout : Option ℕ} {elapsed : Bool}
    (h : timeout = none → s.hasTimeout = false) : (s.waitFor timeout elapsed).Attentive := by
  unfold State.waitFor
  split
  · rintro notified ⟨⟩
  · next hcondition =>
    split
    · rintro notified ⟨⟩
    · intro notified hwaits
      cases hwaits
      refine ⟨h rfl, fun _ => ?_⟩
      simpa [State.waitCondition, and_comm] using hcondition

theorem attentive_notify (h : s.Attentive) {t : State} (hworker : t.worker = s.worker)
    (htimeout : t.hasTimeout = s.hasTimeout) : t.notify.Attentive := by
  intro notified hwaits
  unfold State.notify at hwaits ⊢
  split at hwaits
  · next hwaiting =>
    cases hwaits
    exact ⟨htimeout.trans (h _ (hworker.symm.trans hwaiting)).1, by rintro ⟨⟩⟩
  · next hwaiting => exact absurd hwaits (hwaiting _ _)

theorem attentive_create (h : s.Attentive) (id : Option ℕ) : (s.create id).Attentive := by
  unfold State.create
  split
  · dsimp only
    split
    · next htimeout =>
      -- The worker does not wait without a timeout.
      intro notified hwaits
      rw [(h notified hwaits).1] at htimeout
      cases htimeout
    · exact attentive_notify h rfl rfl
  · exact h

theorem attentive_step (i : Input) (h : s.Attentive) : (step i s).2.Attentive := by
  unfold step
  split
  · exact h
  · exact attentive_create h _
  · next messageIds _ =>
    intro notified hwaits
    refine (h notified hwaits).imp_right fun hrest hnot => ?_
    obtain ⟨hrows, hstopping⟩ := hrest hnot
    exact ⟨by rw [hrows]; rfl, hstopping⟩
  · unfold State.backgroundLoop
    split
    · rintro notified ⟨⟩
    · exact attentive_waitFor fun hnone => by rw [hnone]; rfl
  · next elapsed _ =>
    unfold State.wake
    split
    · next timeout notified hworker =>
      dsimp only
      split
      · exact attentive_waitFor fun hnone => (h notified (hnone ▸ hworker)).1
      · exact h
    · rintro notified ⟨⟩
    · exact h
  · rintro notified ⟨⟩
  · rintro notified ⟨⟩
  · unfold State.raise
    split
    · rintro notified ⟨⟩
    · rintro notified ⟨⟩
    · rintro notified ⟨⟩
    · rintro notified ⟨⟩
    · exact h
  · rintro notified ⟨⟩
  · exact attentive_notify h rfl rfl
  · exact h

/-- **No pending e-mail is slept over**, in any state of any run. -/
theorem not_slept_over (rows : List Row) (inputs : List Input) :
    ¬(run step (.start rows) inputs).SleptOver := by
  have hstart : (State.start rows).Attentive := by rintro notified ⟨⟩
  have hend := (history_inv step _ inputs hstart fun i _ => attentive_step i).1
  rintro ⟨hwaits, hbusy⟩
  obtain ⟨hrows, hstopping⟩ := (hend false hwaits).2 rfl
  rcases hbusy with hbusy | hbusy
  · exact hbusy hrows
  · rw [hstopping] at hbusy
    cases hbusy

/-- A worker that is stopping sleeps no more. -/
def State.Awake (s : State) : Prop :=
  s.stopping = true ∧ ∀ timeout, s.worker ≠ .waiting timeout false

theorem awake_waitFor (hstopping : s.stopping = true) (timeout : Option ℕ) (elapsed : Bool) :
    (s.waitFor timeout elapsed).Awake := by
  simp [State.waitFor, State.waitCondition, State.Awake, hstopping]

theorem awake_notify (hstopping : s.stopping = true) : s.notify.Awake := by
  unfold State.notify
  split
  · exact ⟨hstopping, by rintro _ ⟨⟩⟩
  · next hwaiting => exact ⟨hstopping, fun timeout => hwaiting timeout false⟩

theorem awake_step (i : Input) (h : s.Awake) : (step i s).2.Awake := by
  obtain ⟨hstopping, hawake⟩ := h
  unfold step
  split
  case h_2 =>
    unfold State.create
    split
    · dsimp only
      split
      · exact ⟨hstopping, hawake⟩
      · exact awake_notify hstopping
    · exact ⟨hstopping, hawake⟩
  case h_4 =>
    rw [State.backgroundLoop, if_pos hstopping]
    exact ⟨hstopping, by rintro _ ⟨⟩⟩
  case h_5 =>
    unfold State.wake
    split
    · dsimp only
      split
      · exact awake_waitFor hstopping ..
      · exact ⟨hstopping, hawake⟩
    · exact ⟨hstopping, by rintro _ ⟨⟩⟩
    · exact ⟨hstopping, hawake⟩
  case h_8 =>
    unfold State.raise
    split
    case h_5 => exact ⟨hstopping, hawake⟩
    all_goals exact ⟨hstopping, by rintro _ ⟨⟩⟩
  case h_10 => exact awake_notify rfl
  case h_6 | h_7 | h_9 => exact ⟨hstopping, by rintro _ ⟨⟩⟩
  all_goals exact ⟨hstopping, hawake⟩

/-- Of what the worker still does when it is stopping, at most three steps are needed. -/
theorem ends_of_awake (h : s.Awake) :
    ∃ more, more.length ≤ 3 ∧ (run step s more).worker = .finished := by
  obtain ⟨rows, stopping, hasTimeout, backoff, worker, consumed⟩ := s
  obtain ⟨rfl, hawake⟩ := h
  cases worker with
  | looping => exact ⟨[.backgroundLoop], by decide, rfl⟩
  | waiting timeout notified =>
    cases notified with
    | false => exact absurd rfl (hawake timeout)
    | true => exact ⟨[.wake true, .backgroundLoop], by decide, rfl⟩
  | sending => exact ⟨[.select 0 [], .delete, .backgroundLoop], by decide, rfl⟩
  | deleting seenEvents => exact ⟨[.delete, .backgroundLoop], by decide, rfl⟩
  | failed => exact ⟨[.handle, .wake true, .backgroundLoop], by decide, rfl⟩
  | backingOff => exact ⟨[.wake true, .backgroundLoop], by decide, rfl⟩
  | finished => exact ⟨[], by decide, rfl⟩

end GrowTeam.MissedEmails
