/-
# A client that polls its queue

A client polls with the identifier of the last event it received.  Requests and responses may
be lost or overtake each other, connections are closed, heartbeats end polls that wait, and the
server dumps its queues and loads them again.  A client passes over the events of a response
that it has received before.
-/
import GrowTeam.History
import GrowTeam.Tornado.EventQueue

namespace GrowTeam.Tornado

open Feed ClientDescriptor EventQueue
open List hiding after

/-! ## The link of a client and its queue -/

/-- The descriptor at the server, what is under way, and what the client has received.
`accepted` are the events that were ever pushed to the queue. -/
structure Link where
  client : ClientDescriptor
  accepted : List Event
  requests : List (ℤ × Bool)
  responses : List (List (Item Event))
  received : List (Item Event)

/-- `allocate_client_descriptor`. -/
def allocated (queueId : String) (newQueueData : ClientDict) : ClientDescriptor :=
  .fromDict { newQueueData with eventQueue := (EventQueue.new queueId).toDict }

def Link.start (client : ClientDescriptor) : Link := ⟨client, [], [], [], []⟩

inductive Act where
  /-- An event for the client. -/
  | event (event : Event)
  /-- The callback of a request that has waited for long. -/
  | heartbeat
  /-- The connection of the request that waits is closed. -/
  | close
  /-- The client polls. -/
  | send (dontBlock : Bool)
  | serve (i handler : ℕ) (clientName : String) (now : ℕ)
  | loseRequest (i : ℕ)
  /-- The client gets a response. -/
  | receive (i : ℕ)
  | loseResponse (i : ℕ)
  /-- The queue is marked offline; `last` is whether the user has no other active one. -/
  | markOffline (last : Bool)
  /-- The server dumps its queues, and another process loads them. -/
  | restart

variable (s : Link)

/-- The state after a step of the server, and the response it gave to a waiting request. -/
def Link.served (result : Option Response × ClientDescriptor) : Link :=
  { s with client := result.2, responses := s.responses ++ (result.1.map (·.events)).toList }

/-- An event is pushed. -/
def Link.add (event : Event) : Link :=
  { s.served (s.client.addEvent event) with accepted := s.accepted ++ [event] }

def Link.serve (poll : ℤ × Bool) (handler : ℕ) (clientName : String) (now : ℕ) : Link :=
  match s.client.fetchEvents poll.1 poll.2 handler clientName now with
  | (.response events, finished) =>
    let s := s.served finished
    { s with responses := s.responses ++ [events] }
  | (_, finished) => s.served finished

/-- `missedmessage_hook` reads the queue of a user's last active client. -/
def ClientDescriptor.markOffline (c : ClientDescriptor) (last : Bool) : ClientDescriptor :=
  if last && !c.offline then { c with eventQueue := c.eventQueue.settle, offline := true }
  else { c with offline := true }

variable (narrowPredicate : List (List String) → MessageEvent → Bool)

/-- One step, and what the client newly received in it. -/
def poll : Act → Link → List (Item Event) × Link
  | .event event, s => ([], if s.client.acceptsEvent narrowPredicate event then s.add event else s)
  | .heartbeat, s =>
    if s.client.timeoutHandle then
      ([], { s with client := { s.client with timeoutHandle := false } }.add createHeartbeatEvent)
    else ([], s)
  | .close, s => ([], { s with client := s.client.disconnectHandler })
  | .send dontBlock, s => ([], { s with requests := s.requests ++ [(cursor s.received, dontBlock)] })
  | .serve i handler clientName now, s =>
    match s.requests[i]? with
    | some request =>
      ([], { s with requests := s.requests.eraseIdx i }.serve request handler clientName now)
    | none => ([], s)
  | .loseRequest i, s => ([], { s with requests := s.requests.eraseIdx i })
  | .receive i, s =>
    match s.responses[i]? with
    | some events =>
      let new := after (cursor s.received) events
      (new, { s with responses := s.responses.eraseIdx i, received := s.received ++ new })
    | none => ([], s)
  | .loseResponse i, s => ([], { s with responses := s.responses.eraseIdx i })
  | .markOffline last, s => ([], { s with client := s.client.markOffline last })
  | .restart, s => ([], { s with client := .fromDict s.client.toDict })

/-- The events the queue holds for the client, as the next response gives them. -/
def Link.held : List (Item Event) :=
  after (cursor s.received) (exposed s.client.eventQueue.merged)

/-! ## What every step keeps -/

section Exposed

variable {l l' : List (Item Event)}

theorem exposed_append : exposed (l ++ l') = exposed l ++ exposed l' := map_append

theorem exposed_take (n : ℕ) : exposed (l.take n) = (exposed l).take n := map_take

theorem exposed_drop (n : ℕ) : exposed (l.drop n) = (exposed l).drop n := map_drop

theorem ascending_exposed : Ascending (exposed l) ↔ Ascending l := pairwise_map

theorem cursor_exposed : cursor (exposed l) = cursor l := by
  unfold cursor exposed
  rw [getLast?_map]
  cases l.getLast? <;> rfl

theorem prune_absorb (a b : Event) :
    pruneInternalData (absorb a b) = absorb (pruneInternalData a) (pruneInternalData b) := by
  cases a <;> cases b <;> rfl

theorem prune_virtualType (a : Event) : virtualType (pruneInternalData a) = virtualType a := by
  cases a <;> rfl

/-- Leaving out internal data does not change what the entries stand for. -/
theorem compacts_exposed {log : List Event} (h : Compacts virtualType absorb log l) :
    Compacts virtualType absorb (log.map pruneInternalData) (exposed l) := by
  induction h with
  | nil => exact .nil
  | @push log l a _ ih =>
    simpa [exposed] using ih.push (pruneInternalData a)
  | @merge log l l' e k a _ hold hnew ih =>
    rw [exposed_append] at ih
    have hmerge := Compacts.merge (l := exposed l) (pruneInternalData a) ih
      (by rw [prune_virtualType]; exact hold) (by rw [prune_virtualType]; exact hnew)
    simpa [exposed, prune_absorb] using hmerge

end Exposed

/-- The client has a beginning of the feed, at least what the server has pruned; responses under
way leave no gap behind it, and polls under way name an entry it has. -/
structure Link.Sound (s : Link) (feed pending : List (Item Event)) (pruned : ℕ) : Prop where
  holds : Holds s.client.eventQueue s.accepted feed pending pruned
  received : s.received <+: exposed feed
  le : pruned ≤ s.received.length
  requests : ∀ r ∈ s.requests, ∃ k ≤ s.received.length, r.1 = cursor (feed.take k)
  responses : ∀ events ∈ s.responses, Segment (exposed feed) s.received events

namespace Link.Sound

variable {s : Link} {feed pending : List (Item Event)} {pruned : ℕ}

section

variable (h : s.Sound feed pending pruned)

include h

theorem length_le : s.received.length ≤ feed.length := by
  have hle := h.received.length_le
  rwa [exposed, length_map] at hle

/-- A descriptor with the same queue. -/
theorem sameQueue {c : ClientDescriptor}
    (hc : c.eventQueue = s.client.eventQueue) : { s with client := c }.Sound feed pending pruned where
  holds := by
    rw [hc]
    exact h.holds
  received := h.received
  le := h.le
  requests := h.requests
  responses := h.responses

/-- What `contents` returns is a stretch of the feed that then includes all that was pending. -/
theorem settle {c : ClientDescriptor}
    (hc : c.eventQueue = s.client.eventQueue.settle) {more : List (List (Item Event))}
    (hmore : ∀ events ∈ more, events = exposed s.client.eventQueue.merged) :
    { s with client := c, responses := s.responses ++ more }.Sound (feed ++ pending) [] pruned where
  holds := by
    rw [hc]
    exact h.holds.settle
  received := by
    rw [exposed_append]
    exact h.received.trans (prefix_append _ _)
  le := h.le
  requests r hr := by
    obtain ⟨k, hk, hcursor⟩ := h.requests r hr
    refine ⟨k, hk, ?_⟩
    rw [take_append_of_le_length (hk.trans h.length_le)]
    exact hcursor
  responses events hevents := by
    rcases mem_append.mp hevents with hevents | hevents
    · refine (h.responses events hevents).mono ?_ (le_rfl)
      rw [exposed_append]
      exact prefix_append _ _
    · rw [hmore events hevents, h.holds.merged]
      refine ⟨pruned, (feed ++ pending).length, h.le, ?_⟩
      rw [← exposed_take, ← exposed_drop, take_length, drop_append_of_le_length h.holds.le]

theorem finish : ∃ feed' pending', feed' ++ pending' = feed ++ pending ∧
      (s.served s.client.finishCurrentHandler).Sound feed' pending' pruned := by
  unfold finishCurrentHandler
  cases s.client.currentHandlerId with
  | none =>
    refine ⟨feed, pending, rfl, ?_⟩
    simpa [Link.served] using h
  | some handler =>
    refine ⟨feed ++ pending, [], append_nil _, h.settle rfl ?_⟩
    intro events hevents
    simpa using hevents

theorem add (event : Event) : ∃ feed' pending', (s.add event).Sound feed' pending' pruned := by
  obtain ⟨pending', hpush⟩ := h.holds.push event
  have hpushed : Link.Sound { s with
      client := { s.client with eventQueue := s.client.eventQueue.push event }
      accepted := s.accepted ++ [event] } feed pending' pruned :=
    { h with holds := hpush }
  obtain ⟨feed', pending'', -, hfinish⟩ := hpushed.finish
  exact ⟨feed', pending'', hfinish⟩

end

/-- The link when the queue is pruned through an entry that the client has. -/
def pruneTo (s : Link) (lastEventId : ℤ) : Link :=
  { s with client := { s.client with eventQueue := s.client.eventQueue.prune lastEventId } }

section

variable (h : s.Sound feed pending pruned)

include h

theorem prune {k : ℕ} (hk : pruned ≤ k) (hle : k ≤ s.received.length) :
    (pruneTo s (cursor (feed.take k))).Sound feed pending k := { h with
  holds := h.holds.prune hk (hle.trans h.length_le)
  le := hle }

/-- A poll that names an entry before what was pruned is refused; any other is served from the
pruned queue, after the request that waited. -/
theorem fetch_eq {k : ℕ} (hle : k ≤ s.received.length)
    (dontBlock : Bool) (handler : ℕ) (clientName : String) (now : ℕ) :
    s.client.fetchEvents (cursor (feed.take k)) dontBlock handler clientName now =
      if k < pruned then (.error (prunedMessage (cursor (feed.take k))), none, s.client)
      else
        let (finished, idle) :=
          (pruneTo s (cursor (feed.take k))).client.finishCurrentHandler
        if !idle.eventQueue.empty || dontBlock then
          (.response (exposed idle.eventQueue.merged), finished,
            { idle with eventQueue := idle.eventQueue.settle })
        else (.async, finished, idle.connectHandler handler clientName now) := by
  have hascending : Ascending feed := (pairwise_append.mp h.holds.compacts.ascending).1
  unfold fetchEvents
  rw [h.holds.newest]
  by_cases hk : k < pruned
  · rw [if_pos hk, if_pos (cursor_take_lt hascending hk h.holds.le)]
  · have hnot : ¬ cursor (feed.take k) < cursor (feed.take pruned) := by
      rcases Nat.eq_or_lt_of_le (Nat.le_of_not_lt hk) with rfl | hlt
      · omega
      · have hlater := cursor_take_lt hascending hlt (hle.trans h.length_le)
        omega
    have hnewest : (s.client.eventQueue.prune (cursor (feed.take k))).newestPrunedId =
        cursor (feed.take k) := (h.prune (Nat.le_of_not_lt hk) hle).holds.newest
    rw [if_neg hk, if_neg hnot]
    rw [if_neg (not_not_intro hnewest.symm)]
    rfl

theorem serve {request : ℤ × Bool} {k : ℕ}
    (hle : k ≤ s.received.length) (hrequest : request.1 = cursor (feed.take k)) (handler : ℕ)
    (clientName : String) (now : ℕ) :
    ∃ feed' pending' pruned', (s.serve request handler clientName now).Sound feed' pending' pruned' := by
  unfold Link.serve
  rw [hrequest, h.fetch_eq hle]
  by_cases hk : k < pruned
  · rw [if_pos hk]
    refine ⟨feed, pending, pruned, ?_⟩
    simpa [Link.served] using h
  · rw [if_neg hk]
    obtain ⟨feed', pending', -, hfinish⟩ := (h.prune (Nat.le_of_not_lt hk) hle).finish
    rcases hwaited : (pruneTo s (cursor (feed.take k))).client.finishCurrentHandler with
      ⟨finished, idle⟩
    rw [hwaited] at hfinish
    dsimp only
    by_cases hanswer : (!idle.eventQueue.empty || request.2) = true
    · rw [if_pos hanswer]
      refine ⟨feed' ++ pending', [], k,
        hfinish.settle (c := { idle with eventQueue := idle.eventQueue.settle }) rfl ?_⟩
      intro events hevents
      exact mem_singleton.mp hevents
    · rw [if_neg hanswer]
      exact ⟨feed', pending', k,
        hfinish.sameQueue (c := idle.connectHandler handler clientName now) rfl⟩

theorem receive {i : ℕ} {events : List (Item Event)} (hevents : events ∈ s.responses) :
    Link.Sound { s with
      responses := s.responses.eraseIdx i
      received := s.received ++ after (cursor s.received) events } feed pending pruned where
  holds := h.holds
  received := read_segment
    (ascending_exposed.mpr (pairwise_append.mp h.holds.compacts.ascending).1) h.received
    (h.responses events hevents)
  le := by
    have hle := h.le
    rw [List.length_append]
    omega
  requests r hr := by
    obtain ⟨k, hk, hcursor⟩ := h.requests r hr
    refine ⟨k, ?_, hcursor⟩
    rw [List.length_append]
    omega
  responses other hother := by
    refine (h.responses other (mem_of_mem_eraseIdx hother)).mono (prefix_refl _) ?_
    rw [List.length_append]
    omega

theorem cursor_received : cursor s.received = cursor (feed.take s.received.length) := by
  have hprefix := prefix_iff_eq_take.mp h.received
  rw [← cursor_exposed (l := feed.take _), exposed_take, ← hprefix]

/-- What the queue holds for the client is the rest of the feed and what is pending. -/
theorem held : s.held = (exposed (feed ++ pending)).drop s.received.length := by
  have hascending : Ascending (exposed (feed ++ pending)) :=
    ascending_exposed.mpr h.holds.compacts.ascending
  have hle := h.length_le
  have hreceived : s.received = (exposed (feed ++ pending)).take s.received.length := by
    rw [exposed_append, take_append_of_le_length (by rwa [exposed, length_map])]
    exact prefix_iff_eq_take.mp h.received
  rw [Link.held, h.holds.merged, ← drop_append_of_le_length h.holds.le, exposed_drop]
  conv_lhs => rw [hreceived]
  exact after_cursor_drop hascending h.le

theorem received_append_held : s.received ++ s.held = exposed (feed ++ pending) := by
  have hle := h.length_le
  have hreceived := prefix_iff_eq_take.mp h.received
  rw [h.held]
  conv_lhs => rw [hreceived]
  rw [length_take, exposed_append, ← take_append_of_le_length, Nat.min_eq_left, take_append_drop]
  · rw [exposed, length_map]
    exact hle
  · rw [exposed, length_map]
    exact hle

/-- A poll that names the last event the client has is not refused, and answered with all that
the queue holds for the client. -/
theorem fetch_current (dontBlock : Bool) (handler : ℕ) (clientName : String) (now : ℕ) :
    match (s.client.fetchEvents (cursor s.received) dontBlock handler clientName now).1 with
    | .error _ => False
    | .response events => events = s.held
    | .async => s.held = [] := by
  have hpruned := h.prune h.le (le_rfl)
  obtain ⟨feed', pending', hsame, hfinish⟩ := hpruned.finish
  have hidle : exposed (pruneTo s (cursor (feed.take
      s.received.length))).client.finishCurrentHandler.2.eventQueue.merged = s.held := by
    have hmerged := hfinish.holds.merged
    rw [← drop_append_of_le_length hfinish.holds.le, hsame] at hmerged
    rw [h.held, ← exposed_drop, ← hmerged]
    rfl
  rw [h.cursor_received, h.fetch_eq (le_rfl), if_neg (Nat.not_lt.mpr h.le)]
  rcases hwaited : (pruneTo s (cursor (feed.take s.received.length))).client.finishCurrentHandler with
    ⟨finished, idle⟩
  rw [hwaited] at hidle
  dsimp only
  by_cases hanswer : (!idle.eventQueue.empty || dontBlock) = true
  · rw [if_pos hanswer]
    exact hidle
  · rw [if_neg hanswer]
    have hempty : idle.eventQueue.empty = true := by
      simp only [Bool.or_eq_true, Bool.not_eq_true', not_or, Bool.not_eq_false] at hanswer
      exact hanswer.1
    rw [← hidle, empty_iff.mp hempty]
    rfl

end

end Link.Sound

/-! ## Every run -/

variable {narrowPredicate}

theorem sound_step {s : Link} {feed pending : List (Item Event)} {pruned : ℕ}
    (h : s.Sound feed pending pruned) (a : Act) :
    ∃ feed' pending' pruned', (poll narrowPredicate a s).2.Sound feed' pending' pruned' := by
  cases a with
  | event event =>
    rw [poll]
    split
    · obtain ⟨feed', pending', hadd⟩ := h.add event
      exact ⟨feed', pending', pruned, hadd⟩
    · exact ⟨feed, pending, pruned, h⟩
  | heartbeat =>
    rw [poll]
    split
    · obtain ⟨feed', pending', hadd⟩ :=
        (h.sameQueue (c := { s.client with timeoutHandle := false }) rfl).add createHeartbeatEvent
      exact ⟨feed', pending', pruned, hadd⟩
    · exact ⟨feed, pending, pruned, h⟩
  | close | restart => exact ⟨feed, pending, pruned, h.sameQueue rfl⟩
  | send dontBlock =>
    refine ⟨feed, pending, pruned, h.holds, h.received, h.le, ?_, h.responses⟩
    show ∀ r ∈ s.requests ++ [(cursor s.received, dontBlock)], _
    rw [forall_mem_append]
    refine ⟨h.requests, ?_⟩
    intro r hr
    rw [mem_singleton.mp hr]
    exact ⟨s.received.length, le_rfl, h.cursor_received⟩
  | serve i handler clientName now =>
    rw [poll]
    cases hrequest : s.requests[i]? with
    | none => exact ⟨feed, pending, pruned, h⟩
    | some request =>
      obtain ⟨k, hk, hcursor⟩ := h.requests request (mem_of_getElem? hrequest)
      have hrest : Link.Sound { s with requests := s.requests.eraseIdx i } feed pending pruned :=
        { h with requests := fun r hr => h.requests r (mem_of_mem_eraseIdx hr) }
      exact hrest.serve hk hcursor handler clientName now
  | loseRequest i =>
    exact ⟨feed, pending, pruned, h.holds, h.received, h.le,
      fun r hr => h.requests r (mem_of_mem_eraseIdx hr), h.responses⟩
  | receive i =>
    rw [poll]
    cases hevents : s.responses[i]? with
    | none => exact ⟨feed, pending, pruned, h⟩
    | some events => exact ⟨feed, pending, pruned, h.receive (mem_of_getElem? hevents)⟩
  | loseResponse i =>
    exact ⟨feed, pending, pruned, h.holds, h.received, h.le, h.requests,
      fun r hr => h.responses r (mem_of_mem_eraseIdx hr)⟩
  | markOffline last =>
    rw [poll]
    unfold ClientDescriptor.markOffline
    split
    · refine ⟨feed ++ pending, [], pruned, ?_⟩
      have hsettle := h.settle (c := { s.client with
        eventQueue := s.client.eventQueue.settle, offline := true }) rfl
        (fun events hevents => absurd hevents not_mem_nil)
      simpa using hsettle
    · exact ⟨feed, pending, pruned, h.sameQueue rfl⟩

/-- What the client has is what it received so far. -/
theorem received_serve (request : ℤ × Bool) (handler : ℕ) (clientName : String)
    (now : ℕ) : (s.serve request handler clientName now).received = s.received := by
  unfold Link.serve
  split <;> rfl

theorem received_poll (a : Act) (s : Link) :
    (poll narrowPredicate a s).2.received = s.received ++ (poll narrowPredicate a s).1 := by
  cases a with
  | receive i =>
    rw [poll]
    cases s.responses[i]? with
    | none => exact (append_nil _).symm
    | some events => rfl
  | serve i handler clientName now =>
    rw [poll]
    cases s.requests[i]? with
    | none => exact (append_nil _).symm
    | some request => exact (received_serve _ _ _ _ _).trans (append_nil _).symm
  | event | heartbeat =>
    rw [poll]
    split <;> exact (append_nil _).symm
  | close | send dontBlock | loseRequest i | loseResponse i | markOffline last | restart =>
    exact (append_nil _).symm

structure Polled (past : List (History.Event Link Act (List (Item Event)))) (s : Link) : Prop where
  sound : ∃ feed pending pruned, s.Sound feed pending pruned
  received : s.received = past.flatMap (·.answer)

variable (narrowPredicate)

/-- **No event is lost, repeated or reordered.**  What the client newly received in a run of
polls, losses and restarts, and then what its queue holds for it, are the events the queue
accepted, each once and with ascending identifiers, flag events possibly merged; and what is
held is what the next poll is answered with. -/
theorem received_exactly (queueId : String) (newQueueData : ClientDict) (acts : List Act) :
    let start := Link.start (allocated queueId newQueueData)
    let s := History.run (poll narrowPredicate) start acts
    let received := (History.history (poll narrowPredicate) start acts).flatMap (·.answer)
    received = s.received ∧
      Compacts virtualType absorb (s.accepted.map pruneInternalData) (received ++ s.held) ∧
      Ascending (received ++ s.held) ∧
      ∀ dontBlock handler clientName now,
        match (s.client.fetchEvents (cursor received) dontBlock handler clientName now).1 with
        | .error _ => False
        | .response events => events = s.held
        | .async => s.held = [] := by
  intro start s received
  have hstart : Polled [] start := by
    refine ⟨⟨[], [], 0, Holds.new queueId, prefix_refl _, le_rfl, ?_, ?_⟩, rfl⟩
    · intro r hr
      cases hr
    · intro events hevents
      cases hevents
  have hstep : ∀ past e, poll narrowPredicate e.input e.pre = (e.answer, e.post) →
      Polled past e.pre → Polled (past ++ [e]) e.post := by
    intro past e he h
    obtain ⟨feed, pending, pruned, hsound⟩ := h.sound
    have hpost : (poll narrowPredicate e.input e.pre).2 = e.post := by rw [he]
    have hanswer : (poll narrowPredicate e.input e.pre).1 = e.answer := by rw [he]
    constructor
    · rw [← hpost]
      exact sound_step hsound e.input
    · rw [flatMap_append, flatMap_singleton, ← h.received, ← hpost, ← hanswer]
      exact received_poll e.input e.pre
  have hend := (History.history_past (poll narrowPredicate) start acts hstart hstep).1
  obtain ⟨feed, pending, pruned, hsound⟩ := hend.sound
  have hheld := hsound.received_append_held
  have hcompacts := compacts_exposed hsound.holds.compacts
  rw [← hheld] at hcompacts
  have hsame : received = s.received := hend.received.symm
  rw [hsame]
  exact ⟨rfl, hcompacts, hcompacts.ascending, hsound.fetch_current⟩

/-! ## Polls that name any identifier -/

/-- What the client does, or a poll with an identifier that it need not have received. -/
inductive Deed where
  | act (act : Act)
  | stray (lastEventId : ℤ) (dontBlock : Bool) (handler : ℕ) (clientName : String) (now : ℕ)

def wander : Deed → Link → Unit × Link
  | .act act, s => ((), (poll narrowPredicate act s).2)
  | .stray lastEventId dontBlock handler clientName now, s =>
    ((), s.serve (lastEventId, dontBlock) handler clientName now)

/-- The identifier takes nothing with it that waits in the queue and was not received. -/
def Link.Spares (lastEventId : ℤ) : Prop :=
  ∀ e ∈ s.client.eventQueue.queue, (e.id : ℤ) ≤ lastEventId → (e.id : ℤ) ≤ cursor s.received

def Deed.Spares : Deed → Link → Prop
  | .act _, _ => True
  | .stray lastEventId _ _ _ _, s => s.Spares lastEventId

def Fetched.isError : Fetched → Bool
  | .error _ => true
  | _ => false

/-- A poll with the last event that was received is answered with `events`. -/
def Link.Delivers (events : List (Item Event)) : Prop :=
  ∀ dontBlock handler clientName now,
    match (s.client.fetchEvents (cursor s.received) dontBlock handler clientName now).1 with
    | .error _ => False
    | .response answer => answer = events
    | .async => events = []

section Prune

variable {q : EventQueue} {c c' : ℤ}

theorem pruneLoop_congr {l : List (Item Event)} (h : ∀ e ∈ l, ((e.id : ℤ) ≤ c ↔ (e.id : ℤ) ≤ c'))
    (n : ℤ) : pruneLoop c l n = pruneLoop c' l n := by
  induction l generalizing n with
  | nil => rfl
  | cons e es ih =>
    rw [pruneLoop, pruneLoop]
    by_cases hle : (e.id : ℤ) ≤ c
    · rw [if_pos hle, if_pos ((h e mem_cons_self).mp hle)]
      exact ih (fun f hf => h f (mem_cons_of_mem _ hf)) e.id
    · rw [if_neg hle, if_neg fun hle' => hle ((h e mem_cons_self).mpr hle')]

/-- Pruning looks at nothing but which entries are not beyond the identifier. -/
theorem prune_congr (h : ∀ e ∈ q.queue, ((e.id : ℤ) ≤ c ↔ (e.id : ℤ) ≤ c')) :
    q.prune c = q.prune c' := by
  unfold EventQueue.prune
  rw [pruneLoop_congr h]

/-- The newest identifier that was pruned is not behind any that was. -/
theorem newest_pruneLoop {l : List (Item Event)} (hl : Ascending l) {n : ℤ}
    (hn : ∀ e ∈ l, n < e.id) :
    n ≤ (pruneLoop c l n).2 ∧
      ∀ e ∈ l, (e.id : ℤ) ≤ c → (e.id : ℤ) ≤ (pruneLoop c l n).2 := by
  induction l generalizing n with
  | nil => exact ⟨Int.le_refl _, by rintro e ⟨⟩⟩
  | cons f fs ih =>
    obtain ⟨hf, hfs⟩ := pairwise_cons.mp hl
    have hfirst := hn f mem_cons_self
    rw [pruneLoop]
    by_cases hle : (f.id : ℤ) ≤ c
    · rw [if_pos hle]
      obtain ⟨hnewest, hrest⟩ := ih (n := f.id) hfs fun e he => by
        have hlt := hf e he
        omega
      refine ⟨by omega, ?_⟩
      rintro e he hec
      rcases mem_cons.mp he with rfl | he
      · exact hnewest
      · exact hrest e he hec
    · rw [if_neg hle]
      refine ⟨Int.le_refl _, ?_⟩
      rintro e he hec
      rcases mem_cons.mp he with rfl | he
      · exact absurd hec hle
      · have hlt := hf e he
        omega

end Prune

namespace Link.Sound

variable {s : Link} {feed pending : List (Item Event)} {pruned : ℕ} {n : ℤ}

section

variable (h : s.Sound feed pending pruned)

include h

/-- What waits in the queue is a rest of the feed and some of what is pending. -/
theorem mem_queue {e : Item Event}
    (he : e ∈ s.client.eventQueue.queue) : e ∈ feed.drop pruned ∨ e ∈ pending := by
  obtain ⟨news, hqueue, hperm⟩ := h.holds.queue
  rw [hqueue] at he
  exact (mem_append.mp he).imp_right fun he =>
    hperm.symm.subset (mem_append_right _ he)

theorem newest_lt {k : ℕ} {e : Item Event}
    (he : e ∈ feed.drop k ∨ e ∈ pending) : cursor (feed.take k) < e.id := by
  have hascending := h.holds.compacts.ascending
  rw [← take_append_drop k feed, append_assoc] at hascending
  exact cursor_lt hascending (mem_append.mpr he)

/-- An identifier that spares what was not received prunes like one that was received. -/
theorem prune_spares (hn : s.Spares n) (hnewest : s.client.eventQueue.newestPrunedId ≤ n) :
    ∃ k, pruned ≤ k ∧ k ≤ s.received.length ∧
      s.client.eventQueue.prune n = s.client.eventQueue.prune (cursor (feed.take k)) := by
  have hfeed : Ascending feed := (pairwise_append.mp h.holds.compacts.ascending).1
  rw [h.holds.newest] at hnewest
  let m := (n + 1).toNat
  let k := (feed.takeWhile fun e => e.id < m).length
  have htake : feed.takeWhile (fun e => e.id < m) = feed.take k :=
    prefix_iff_eq_take.mp ( takeWhile_prefix _)
  have hbelow : ∀ e ∈ feed.take k, e.id < m := by
    rw [← htake]
    intro e he
    exact of_decide_eq_true (mem_takeWhile_imp (p := fun e : Item Event => e.id < m) he)
  have habove : ∀ e ∈ feed.drop k, m ≤ e.id := by
    have hdrop : feed.dropWhile (fun e => e.id < m) = feed.drop k := by
      have hsplit := @takeWhile_append_dropWhile _ (fun e : Item Event => e.id < m) feed
      rw [htake] at hsplit
      exact append_cancel_left (hsplit.trans (take_append_drop k feed).symm)
    rw [← hdrop]
    exact le_of_mem_dropWhile (hfeed.imp Nat.le_of_lt)
  have hpruned : pruned ≤ k := by
    by_contra hlt
    obtain ⟨e, he⟩ := exists_mem_of_ne_nil ((feed.take pruned).drop k) (by
      have hle := h.holds.le
      rw [Ne, drop_eq_nil_iff, length_take]
      omega)
    have hle := le_cursor (hfeed.sublist (take_sublist _ _)) (mem_of_mem_drop he)
    rw [drop_take] at he
    have hge := habove e (mem_of_mem_take he)
    omega
  have hreceived : k ≤ s.received.length := by
    by_contra hlt
    obtain ⟨e, he⟩ := exists_mem_of_ne_nil ((feed.take k).drop s.received.length) (by
      have hle : k ≤ feed.length := ( takeWhile_prefix _).length_le
      rw [Ne, drop_eq_nil_iff, length_take]
      omega)
    have hlt := hbelow e (mem_of_mem_drop he)
    rw [drop_take] at he
    have hdrop := mem_of_mem_take he
    obtain ⟨news, hqueue, -⟩ := h.holds.queue
    have hle := hn e (by
      rw [hqueue]
      exact mem_append_left _ (drop_subset_drop_left feed h.le hdrop)) (by omega)
    have hnot := h.newest_lt (Or.inl hdrop)
    rw [h.cursor_received] at hle
    omega
  refine ⟨k, hpruned, hreceived, prune_congr fun e he => ⟨fun hle => ?_, fun hle => ?_⟩⟩
  · have hold := hn e he hle
    rw [h.cursor_received] at hold
    rcases h.mem_queue he with hdrop | hpending
    · have hmem := mem_of_mem_drop hdrop
      rw [← take_append_drop k feed] at hmem
      rcases mem_append.mp hmem with hmem | hmem
      · exact le_cursor (hfeed.sublist (take_sublist _ _)) hmem
      · have hge := habove e hmem
        omega
    · have hlt := h.newest_lt (k := s.received.length) (Or.inr hpending)
      omega
  · unfold cursor at hle
    split at hle
    · next last hlast =>
      have hlt := hbelow last (mem_of_getLast? hlast)
      omega
    · omega

/-- A poll that spares what was not received leaves the link sound; when it is refused, the queue
holds what it held. -/
theorem stray (hn : s.Spares n) (dontBlock : Bool) (handler : ℕ) (clientName : String) (now : ℕ) :
    ∃ feed' pending' pruned', (s.serve (n, dontBlock) handler clientName now).Sound
      feed' pending' pruned' ∧
        ((s.client.fetchEvents n dontBlock handler clientName now).1.isError = true →
          (s.serve (n, dontBlock) handler clientName now).held = s.held) := by
  by_cases hnewest : n < s.client.eventQueue.newestPrunedId
  · have hserve : s.serve (n, dontBlock) handler clientName now = s := by
      unfold Link.serve fetchEvents
      rw [if_pos hnewest]
      simp [Link.served]
    rw [hserve]
    exact ⟨feed, pending, pruned, h, fun _ => rfl⟩
  · obtain ⟨k, hpruned, hle, hprune⟩ := h.prune_spares hn (Int.not_lt.mp hnewest)
    have hsound := h.prune hpruned hle
    have hid : (s.client.eventQueue.prune n).newestPrunedId = cursor (feed.take k) := by
      rw [hprune]
      exact hsound.holds.newest
    by_cases hsame : n = cursor (feed.take k)
    · have hcursor : (n, dontBlock).1 = cursor (feed.take k) := hsame
      obtain ⟨feed', pending', pruned', hserve⟩ := h.serve hle hcursor handler clientName now
      refine ⟨feed', pending', pruned', hserve, fun herror => ?_⟩
      rw [hsame, h.fetch_eq hle, if_neg (Nat.not_lt.mpr hpruned)] at herror
      dsimp only at herror
      split at herror <;> cases herror
    · have hserve : s.serve (n, dontBlock) handler clientName now =
          pruneTo s (cursor (feed.take k)) := by
        unfold Link.serve fetchEvents
        dsimp only
        rw [if_neg hnewest, hid, if_pos hsame, hprune]
        simp [Link.served, pruneTo]
      rw [hserve]
      exact ⟨feed, pending, k, hsound, fun _ => hsound.held.trans h.held.symm⟩

theorem delivers_held : s.Delivers s.held :=
  h.fetch_current

/-- What a refused poll takes with it is never delivered. -/
theorem spares_of_delivers {dontBlock : Bool} {handler now : ℕ}
    {clientName : String} {events : List (Item Event)}
    (herror : (s.client.fetchEvents n dontBlock handler clientName now).1.isError = true)
    (hdelivers : (s.serve (n, dontBlock) handler clientName now).Delivers events) : s.Spares n := by
  by_contra hnot
  simp only [Link.Spares, not_forall, Int.not_le] at hnot
  obtain ⟨e, he, hle, hlt⟩ := hnot
  have hbehind := h.newest_lt (h.mem_queue he)
  rw [← h.holds.newest] at hbehind
  have hnewest : ¬ n < s.client.eventQueue.newestPrunedId := by omega
  have hqueue : (s.serve (n, dontBlock) handler clientName now).client.eventQueue =
      s.client.eventQueue.prune n := by
    unfold fetchEvents at herror
    unfold Link.serve fetchEvents
    rw [if_neg hnewest] at herror ⊢
    dsimp only at herror ⊢
    by_cases hid : n ≠ (s.client.eventQueue.prune n).newestPrunedId
    · rw [if_pos hid]
      rfl
    · rw [if_neg hid] at herror
      split at herror <;> cases herror
  have hgone : (e.id : ℤ) ≤ (s.client.eventQueue.prune n).newestPrunedId :=
    (newest_pruneLoop h.holds.ascending fun f hf => by
      rw [h.holds.newest]
      exact h.newest_lt (h.mem_queue hf)).2 e he hle
  have hanswer := hdelivers false 0 "" 0
  unfold fetchEvents at hanswer
  rw [received_serve, hqueue, if_pos (by omega)] at hanswer
  exact hanswer

end

end Link.Sound

/-- **A refused poll loses nothing when it spares what was not received.**  After any run in which
the polls with other identifiers all do, a refused poll leaves every event that the queue holds for
the client to be delivered exactly when it spares them too. -/
theorem refused_delivers_iff (queueId : String) (newQueueData : ClientDict) (deeds : List Deed)
    (hspares : ∀ e ∈ History.history (wander narrowPredicate)
      (Link.start (allocated queueId newQueueData)) deeds, e.input.Spares e.pre)
    (lastEventId : ℤ) (dontBlock : Bool) (handler : ℕ) (clientName : String) (now : ℕ) :
    let s := History.run (wander narrowPredicate) (Link.start (allocated queueId newQueueData)) deeds
    (s.client.fetchEvents lastEventId dontBlock handler clientName now).1.isError = true →
      ((s.serve (lastEventId, dontBlock) handler clientName now).Delivers s.held ↔
        s.Spares lastEventId) := by
  intro s herror
  obtain ⟨feed, pending, pruned, hsound⟩ : ∃ feed pending pruned, s.Sound feed pending pruned := by
    refine (History.history_inv_of (wander narrowPredicate)
      (J := fun t => ∃ feed pending pruned, t.Sound feed pending pruned) _ _ ?_ hspares ?_).1
    · exact ⟨[], [], 0, Holds.new queueId, prefix_refl _, le_rfl, by rintro r ⟨⟩,
        by rintro events ⟨⟩⟩
    · rintro deed t hmeets ⟨feed, pending, pruned, h⟩
      cases deed with
      | act act => exact sound_step h act
      | stray lastEventId dontBlock handler clientName now =>
        obtain ⟨feed', pending', pruned', hstray, -⟩ := h.stray hmeets dontBlock handler clientName now
        exact ⟨feed', pending', pruned', hstray⟩
  constructor
  · exact hsound.spares_of_delivers herror
  · intro hn
    obtain ⟨feed', pending', pruned', hstray, hheld⟩ :=
      hsound.stray hn dontBlock handler clientName now
    rw [← hheld herror]
    exact hstray.delivers_held

/-- The registration of a client that takes every event. -/
def plainRegistration : ClientDict :=
  ⟨1, 1, (EventQueue.new "queue").toDict, .unset, none, 0, false, [], "", false, false, false, false⟩

theorem refused_delivers_iff_plain :
    let s := History.run (wander fun _ _ => true) (Link.start (allocated "queue" plainRegistration))
      [.act (.event createHeartbeatEvent)]
    (s.serve (-5, true) 1 "" 0).Delivers s.held ↔ s.Spares (-5) :=
  refused_delivers_iff (fun _ _ => true) "queue" plainRegistration
    [.act (.event createHeartbeatEvent)] (by
      intro e he
      rw [mem_singleton.mp he]
      trivial) (-5) true 1 "" 0 rfl

/-- A poll with an identifier that was never given is refused, and takes the event with it. -/
theorem foreign_poll_loses :
    let s := History.run (wander fun _ _ => true) (Link.start (allocated "queue" plainRegistration))
      [.act (.event createHeartbeatEvent)]
    (s.client.fetchEvents 5 true 1 "" 0).1.isError = true ∧
      ¬ (s.serve (5, true) 1 "" 0).Delivers s.held := by
  intro s
  exact ⟨rfl, fun h => h true 1 "" 0⟩

end GrowTeam.Tornado
