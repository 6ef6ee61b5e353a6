/-
# Soft deactivation is invisible, and when it is not

A run is compared with the run of its subscriptions and messages alone, in which the user was
never soft-deactivated.  `Mirrors` relates the two: they have one timeline, each row of the run
is one of the other's, and of a row that is still missing we know that the next catch-up finds
it, and that each catch-up under way has it yet to insert, or came too early for it.

Every step keeps the relation that is `Proper` (`Mirrors.step`): one that leaves out no
subscriber for whom the message would have set a flag, that skips no row while a reactivation is
at work, and that does not soft-deactivate the user twice.
-/
import GrowTeam.SoftDeactivation.Sending

namespace GrowTeam.SoftDeactivation

open List Timeline

open History (Event run history)

/-- The row of a message is left to a catch-up. -/
def State.Skips (s : State) (d : Draft) : Prop :=
  s.longTermIdle = true ∧ s.subscribedTo d.streamId = true ∧ d.hasRow true true = false

instance skipsDecidable (s : State) (d : Draft) : Decidable (s.Skips d) :=
  inferInstanceAs (Decidable (_ ∧ _))

/-- The steps that keep soft deactivation invisible. -/
def Proper (e : Event State Input (Option ℕ)) : Prop :=
  match e.input with
  | .send d _ => e.pre.Skips d →
    ¬ d.LeftOut true ∧ ∀ catchUp ∈ e.pre.running, catchUp.reactivating = false
  | .softDeactivate => e.pre.longTermIdle = false
  | _ => True

instance properDecidable : (e : Event State Input (Option ℕ)) → Decidable (Proper e)
  | ⟨.send d _, pre, _, _⟩ => inferInstanceAs (Decidable (pre.Skips d →
      ¬ d.LeftOut true ∧ ∀ catchUp ∈ pre.running, catchUp.reactivating = false))
  | ⟨.softDeactivate, pre, _, _⟩ => inferInstanceAs (Decidable (pre.longTermIdle = false))
  | ⟨.subscribe _, _, _, _⟩ => isTrue trivial
  | ⟨.unsubscribe _, _, _, _⟩ => isTrue trivial
  | ⟨.startCatchUp _, _, _, _⟩ => isTrue trivial
  | ⟨.insertBatch _ _, _, _, _⟩ => isTrue trivial
  | ⟨.recordBatch _, _, _, _⟩ => isTrue trivial
  | ⟨.finishCatchUp _, _, _, _⟩ => isTrue trivial
  | ⟨.crash _, _, _, _⟩ => isTrue trivial

/-- The message was sent to the channel while the user was subscribed. -/
def SentWhileSubscribed (streamId messageId : ℕ) (e : Event State Input (Option ℕ)) : Prop :=
  ∃ d gap, e.input = .send d gap ∧ d.streamId = some streamId ∧ e.answer = some messageId ∧
    e.pre.timeline.isSubscribed streamId = true

/-- After reactivation the user's rows are those of a user who was never soft-deactivated, each
once; and the subscription history selects the messages sent while the user was subscribed. -/
def Invisible (messages : Table Message.id) (inputs : List Input) : Prop :=
  ((run step (.new messages) inputs).longTermIdle = false →
    (run step (.new messages) inputs).userMessages.Perm
        (run step (.new messages) (inputs.filter (·.isHistory))).userMessages ∧
      ((run step (.new messages) inputs).userMessages.map (·.messageId)).Nodup) ∧
  ∀ selected : List Message,
    selected.Sublist (run step (.new messages) inputs).timeline.messages →
    (∀ message ∈ selected, ∀ c, message.streamId = some c →
      c ∈ (run step (.new messages) inputs).timeline.subscriptions.map (·.streamId)) →
    ∃ ids, filterBySubscriptionHistory (streamMessages selected)
        (run step (.new messages) inputs).timeline.logsOf = some ids ∧
      ids.Pairwise (· < ·) ∧
      ∀ id, id ∈ ids ↔ ∃ message ∈ selected, message.id = id ∧ ∃ c, message.streamId = some c ∧
        ∃ e ∈ history step (.new messages) inputs, SentWhileSubscribed c id e

/-! ## What the log says -/

section Logged

variable {s : State} {input : Input}

/-- Only subscriptions and messages make the timeline go on. -/
theorem timeline_step (h : input.isHistory = false) : (step input s).2.timeline = s.timeline := by
  cases input with
  | subscribe streamId | unsubscribe streamId | send d gap => cases h
  | softDeactivate =>
    show s.softDeactivate.timeline = s.timeline
    unfold State.softDeactivate
    split <;> rfl
  | startCatchUp reactivating =>
    show (s.startCatchUp reactivating).timeline = s.timeline
    unfold State.startCatchUp
    split
    · split <;> rfl
    · rfl
  | insertBatch i size =>
    show (s.insertBatch i size).timeline = s.timeline
    unfold State.insertBatch
    split <;> rfl
  | recordBatch i =>
    show (s.recordBatch i).timeline = s.timeline
    unfold State.recordBatch
    split <;> rfl
  | finishCatchUp i =>
    show (s.finishCatchUp i).timeline = s.timeline
    unfold State.finishCatchUp
    split <;> rfl
  | crash i => rfl

theorem answer_step (h : input.isHistory = false) : (step input s).1 = none := by
  cases input <;> first | rfl | cases h

/-- The log says of each message to a channel whether it was sent while the user was subscribed. -/
structure Logged (past : List (Event State Input (Option ℕ))) (s : State) : Prop where
  valid : s.timeline.Valid
  answered : ∀ e ∈ past, ∀ id, e.answer = some id → id < s.timeline.nextMessageId
  told : ∀ message ∈ s.timeline.messages, ∀ c, message.streamId = some c →
    (subscribedAt (s.timeline.logsFor c) message.id = true ↔
      ∃ e ∈ past, SentWhileSubscribed c message.id e)

theorem Logged.new (messages : Table Message.id) : Logged [] (.new messages) where
  valid := valid_new messages
  answered := by simp
  told := by
    intro message _ c _
    simp [State.new, Timeline.new, logsFor, subscribedAt, subscribedThen, subscribedNow]

variable {past : List (Event State Input (Option ℕ))}

variable {e : Event State Input (Option ℕ)}

/-- A step that is no message, but may be a change of a subscription. -/
theorem Logged.quiet
    (h : Logged past e.pre) (hanswer : e.answer = none)
    (hpost : e.post.timeline = e.pre.timeline ∨
      ∃ c active, e.pre.timeline.Changed c active e.post.timeline) :
    Logged (past ++ [e]) e.post := by
  have hnot : ∀ c id, ¬ SentWhileSubscribed c id e := by
    rintro c id ⟨d, gap, -, -, hid, -⟩
    rw [hanswer] at hid
    cases hid
  have hsame : e.post.timeline.Valid ∧
      e.post.timeline.messages = e.pre.timeline.messages ∧
      e.post.timeline.nextMessageId = e.pre.timeline.nextMessageId ∧
      ∀ message ∈ e.pre.timeline.messages, ∀ c,
        subscribedAt (e.post.timeline.logsFor c) message.id =
          subscribedAt (e.pre.timeline.logsFor c) message.id := by
    rcases hpost with hpost | ⟨streamId, active, hchange⟩
    · rw [hpost]
      exact ⟨h.valid, rfl, rfl, fun _ _ _ => rfl⟩
    · exact ⟨h.valid.change hchange, hchange.messages, hchange.nextMessageId,
        fun _ hm c => hchange.subscribedAt h.valid hm c⟩
  obtain ⟨hvalid, hmessages, hnext, hlog⟩ := hsame
  constructor
  · exact hvalid
  · intro f hf id hid
    rw [hnext]
    rcases mem_append.mp hf with hf | hf
    · exact h.answered f hf id hid
    · rw [mem_singleton.mp hf, hanswer] at hid
      cases hid
  · intro message hm c hstream
    rw [hmessages] at hm
    rw [hlog message hm c, h.told message hm c hstream]
    constructor
    · rintro ⟨f, hf, hsent⟩
      exact ⟨f, mem_append_left _ hf, hsent⟩
    · rintro ⟨f, hf, hsent⟩
      rcases mem_append.mp hf with hf | hf
      · exact ⟨f, hf, hsent⟩
      · rw [mem_singleton.mp hf] at hsent
        exact absurd hsent (hnot c message.id)

/-- A new message was sent while the user was subscribed if the user is. -/
theorem Logged.send
    {d : Draft} {gap id : ℕ} (h : Logged past e.pre)
    (hinput : e.input = .send d gap) (hanswer : e.answer = some id)
    (hid : e.pre.timeline.nextMessageId ≤ id)
    (hpost : e.post.timeline = e.pre.timeline.send id d.streamId) :
    Logged (past ++ [e]) e.post := by
  have hearlier : ∀ f ∈ past, ∀ c, ¬ SentWhileSubscribed c id f := by
    rintro f hf c ⟨-, -, -, -, hf', -⟩
    have := h.answered f hf id hf'
    omega
  constructor
  · rw [hpost]
    exact h.valid.send hid d.streamId
  · intro f hf k hk
    rw [hpost]
    show k < id + 1
    rcases mem_append.mp hf with hf | hf
    · have := h.answered f hf k hk
      omega
    · rw [mem_singleton.mp hf, hanswer, Option.some.injEq] at hk
      omega
  · intro message hm c hstream
    rw [hpost] at hm ⊢
    show subscribedAt (e.pre.timeline.logsFor c) message.id = true ↔ _
    rcases mem_append.mp hm with hm | hm
    · rw [h.told message hm c hstream]
      have hlt := h.valid.fresh message hm
      constructor
      · rintro ⟨f, hf, hsent⟩
        exact ⟨f, mem_append_left _ hf, hsent⟩
      · rintro ⟨f, hf, hsent⟩
        rcases mem_append.mp hf with hf | hf
        · exact ⟨f, hf, hsent⟩
        · obtain ⟨-, -, -, -, hsame, -⟩ := hsent
          rw [mem_singleton.mp hf, hanswer, Option.some.injEq] at hsame
          omega
    · rw [mem_singleton.mp hm] at hstream ⊢
      rw [subscribedAt_new h.valid hid c]
      constructor
      · intro hsub
        exact ⟨e, by simp, d, gap, hinput, hstream, hanswer, hsub⟩
      · rintro ⟨f, hf, hsent⟩
        rcases mem_append.mp hf with hf | hf
        · exact absurd hsent (hearlier f hf c)
        · rw [mem_singleton.mp hf] at hsent
          obtain ⟨-, -, -, -, -, hsub⟩ := hsent
          exact hsub

theorem Logged.step (past : List (Event State Input (Option ℕ)))
    (e : Event State Input (Option ℕ)) (he : step e.input e.pre = (e.answer, e.post))
    (h : Logged past e.pre) : Logged (past ++ [e]) e.post := by
  obtain ⟨input, s, answer, t⟩ := e
  dsimp only at he h ⊢
  obtain ⟨hanswer, hpost⟩ := Prod.ext_iff.mp he
  subst hanswer hpost
  cases hinput : input.isHistory with
  | false => exact h.quiet (answer_step hinput) (.inl (timeline_step hinput))
  | true =>
    cases input with
    | subscribe streamId =>
      refine h.quiet rfl ?_
      rcases subscribe_cases h.valid with hsame | hchange
      · exact .inl hsame
      · exact .inr ⟨streamId, true, hchange⟩
    | unsubscribe streamId =>
      refine h.quiet rfl ?_
      rcases unsubscribe_cases h.valid with hsame | hchange
      · exact .inl hsame
      · exact .inr ⟨streamId, false, hchange⟩
    | send d gap => exact h.send rfl rfl (Nat.le_add_right _ _) rfl
    | softDeactivate | startCatchUp reactivating | insertBatch i size | recordBatch i
    | finishCatchUp i | crash i => cases hinput

end Logged

/-- The subscription history of a reached state selects just what was sent while the user was
subscribed. -/
theorem selects_sent (messages : Table Message.id) (inputs : List Input) {selected : List Message}
    (hsub : selected.Sublist (run step (.new messages) inputs).timeline.messages)
    (hchannels : ∀ message ∈ selected, ∀ c, message.streamId = some c →
      c ∈ (run step (.new messages) inputs).timeline.subscriptions.map (·.streamId)) :
    ∃ ids, filterBySubscriptionHistory (streamMessages selected)
        (run step (.new messages) inputs).timeline.logsOf = some ids ∧
      ids.Pairwise (· < ·) ∧
      ∀ id, id ∈ ids ↔ ∃ message ∈ selected, message.id = id ∧ ∃ c, message.streamId = some c ∧
        ∃ e ∈ history step (.new messages) inputs, SentWhileSubscribed c id e := by
  have hlogged := (History.history_past step (.new messages) inputs (Logged.new messages)
    Logged.step).1
  obtain ⟨ids, hids, hsorted, hmem⟩ :=
    filterBySubscriptionHistory_streamMessages hlogged.valid hsub hchannels
  refine ⟨ids, hids, hsorted, fun id => ?_⟩
  rw [hmem id]
  constructor
  · rintro ⟨message, hm, rfl, c, hstream, hat⟩
    exact ⟨message, hm, rfl, c, hstream, (hlogged.told message (hsub.subset hm) c hstream).mp hat⟩
  · rintro ⟨message, hm, rfl, c, hstream, hsent⟩
    exact ⟨message, hm, rfl, c, hstream,
      (hlogged.told message (hsub.subset hm) c hstream).mpr hsent⟩

/-! ## The run beside the one without soft deactivation -/

/-- The catch-up will come to the row, or came too early for it and takes no mark off. -/
def CatchUp.Ahead (p : CatchUp) (messageId : ℕ) : Prop :=
  (∀ last, p.inserted = some last → last < messageId) ∧
    (messageId ∈ p.messageIdsToInsert ∨
      (p.reactivating = false ∧ ∀ id ∈ p.messageIdsToInsert, id < messageId))

/-- A row that is missing: it has no flags, and every later catch-up finds it. -/
structure Missing (s : State) (um : UserMessage) : Prop where
  idle : s.longTermIdle = true
  plain : um.flags = .zero
  sent : ∃ message ∈ s.timeline.messages, message.id = um.messageId ∧ ∃ c,
    message.streamId = some c ∧ subscribedAt (s.timeline.logsFor c) um.messageId = true
  later : ∀ last, s.lastActiveMessageId = some last → last < um.messageId
  ahead : ∀ p ∈ s.running, p.Ahead um.messageId

/-- A catch-up under way inserts rows, in order, that the other run has. -/
structure CatchUp.Sound (p : CatchUp) (s t : State) : Prop where
  sorted : p.messageIdsToInsert.Pairwise (· < ·)
  rows : ∀ id ∈ p.messageIdsToInsert, ∃ um ∈ t.userMessages, um.messageId = id
  inserted : ∀ last, p.inserted = some last → last < s.timeline.nextMessageId

structure Mirrors (s t : State) : Prop where
  timeline : t.timeline = s.timeline
  valid : s.timeline.Valid
  active : t.longTermIdle = false
  marked : s.longTermIdle = true →
    ∃ last, s.lastActiveMessageId = some last ∧ last < s.timeline.nextMessageId
  rows : ∀ um ∈ s.userMessages, um ∈ t.userMessages
  once : (s.userMessages.map (·.messageId)).Nodup
  shadow : (t.userMessages.map (·.messageId)).Nodup
  sent : ∀ um ∈ t.userMessages, um.messageId < s.timeline.nextMessageId
  received : ∀ message ∈ s.timeline.messages, ∀ c, message.streamId = some c →
    subscribedAt (s.timeline.logsFor c) message.id = true →
      ∃ um ∈ t.userMessages, um.messageId = message.id
  missing : ∀ um ∈ t.userMessages, um ∉ s.userMessages → Missing s um
  running : ∀ p ∈ s.running, p.Sound s t

namespace Mirrors

variable {s t : State}

theorem new (messages : Table Message.id) : Mirrors (.new messages) (.new messages) where
  timeline := rfl
  valid := valid_new messages
  active := rfl
  marked := fun h => by cases h
  rows := fun _ h => h
  once := nodup_nil
  shadow := nodup_nil
  sent := fun _ h => (not_mem_nil h).elim
  received := by
    intro message _ c _ hat
    simp [State.new, Timeline.new, logsFor, subscribedAt, subscribedThen,
      subscribedNow] at hat
  missing := fun _ h => (not_mem_nil h).elim
  running := fun _ h => (not_mem_nil h).elim

section

variable (h : Mirrors s t)

include h

/-- While the user is not soft-deactivated no row is missing. -/
theorem mem_of_active (hidle : s.longTermIdle = false) {um : UserMessage}
    (hum : um ∈ t.userMessages) : um ∈ s.userMessages := by
  by_contra hnot
  have hmissing := (h.missing um hum hnot).idle
  rw [hidle] at hmissing
  exact Bool.false_ne_true hmissing

/-- A message has its row in the run or none at all. -/
theorem mem_iff {um : UserMessage} (hum : um ∈ t.userMessages) :
    um ∈ s.userMessages ↔ s.hasUserMessage um.messageId = true := by
  unfold State.hasUserMessage
  rw [any_eq_true]
  constructor
  · intro hmem
    exact ⟨um, hmem, decide_eq_true rfl⟩
  · rintro ⟨other, hother, hid⟩
    have hsame : other = um := inj_on_of_nodup_map h.shadow (h.rows other hother) hum
      (of_decide_eq_true hid)
    exact hsame ▸ hother

theorem perm (hidle : s.longTermIdle = false) : s.userMessages.Perm t.userMessages := by
  rw [perm_ext_iff_of_nodup h.once.of_map h.shadow.of_map]
  intro um
  exact ⟨h.rows um, h.mem_of_active hidle⟩

/-! ### Subscriptions and messages -/

/-- A change of a subscription. -/
theorem change {u : Timeline} (hu : u = s.timeline ∨ ∃ c active, s.timeline.Changed c active u) :
    Mirrors { s with timeline := u } { t with timeline := u } := by
  rcases hu with rfl | ⟨streamId, active, hchange⟩
  · have hsame : ({ t with timeline := s.timeline } : State) = t := by rw [← h.timeline]
    rw [hsame]
    exact h
  · have hlog : ∀ message ∈ s.timeline.messages, ∀ c,
        subscribedAt (u.logsFor c) message.id = subscribedAt (s.timeline.logsFor c) message.id :=
      fun _ hm c => hchange.subscribedAt h.valid hm c
    constructor
    · rfl
    · exact h.valid.change hchange
    · exact h.active
    · intro hidle
      obtain ⟨last, hlast, hlt⟩ := h.marked hidle
      exact ⟨last, hlast, hchange.nextMessageId ▸ hlt⟩
    · exact h.rows
    · exact h.once
    · exact h.shadow
    · intro um hum
      exact hchange.nextMessageId ▸ h.sent um hum
    · intro message hm c hstream hat
      rw [hchange.messages] at hm
      rw [hlog message hm c] at hat
      exact h.received message hm c hstream hat
    · intro um hum hnot
      have hmissing := h.missing um hum hnot
      obtain ⟨message, hm, hid, c, hstream, hat⟩ := hmissing.sent
      refine { hmissing with sent := ⟨message, ?_, hid, c, hstream, ?_⟩ }
      · exact hchange.messages ▸ hm
      · rw [← hid] at hat ⊢
        rw [hlog message hm c]
        exact hat
    · intro p hp
      have hsound := h.running p hp
      exact ⟨hsound.sorted, hsound.rows, fun last hlast =>
        hchange.nextMessageId ▸ hsound.inserted last hlast⟩

/-- A message, whose row is written at once or left to a catch-up. -/
theorem send {d : Draft} {id : ℕ} (hid : s.timeline.nextMessageId ≤ id) (hproper : s.Skips d →
      ¬ d.LeftOut true ∧ ∀ p ∈ s.running, p.reactivating = false) :
    Mirrors (s.sendMessage d id) (t.sendMessage d id) := by
  have hto : t.subscribedTo d.streamId = s.subscribedTo d.streamId := by
    unfold State.subscribedTo
    rw [h.timeline]
  have hrow : ∀ um, um ∈ (s.sendMessage d id).userMessages ↔ um ∈ s.userMessages ∨
      (d.hasRow s.longTermIdle (s.subscribedTo d.streamId) = true ∧ um = ⟨id, d.flags⟩) := by
    intro um
    rw [← Draft.mem_createUserMessage, ← mem_append]
    exact .rfl
  have hshadow : ∀ um, um ∈ (t.sendMessage d id).userMessages ↔ um ∈ t.userMessages ∨
      (d.hasRow false (s.subscribedTo d.streamId) = true ∧ um = ⟨id, d.flags⟩) := by
    intro um
    rw [← Draft.mem_createUserMessage, ← mem_append, ← hto, ← h.active]
    exact .rfl
  -- The row is written as it would be for another user, or it is skipped.
  have hcases : d.hasRow s.longTermIdle (s.subscribedTo d.streamId) =
      d.hasRow false (s.subscribedTo d.streamId) ∨
        (s.Skips d ∧ d.flags = .zero ∧ ∃ c, d.streamId = some c) := by
    cases hidle : s.longTermIdle with
    | false => exact .inl rfl
    | true =>
      rcases d.hasRow_idle (s.subscribedTo d.streamId) with hsame | ⟨hnone, hsub, hstream, hflags⟩
      · exact .inl hsame
      · have hskips : s.Skips d := ⟨hidle, hsub, hsub ▸ hnone⟩
        exact .inr ⟨hskips, hflags (hproper hskips).1, hstream⟩
  have hold : ∀ um ∈ t.userMessages, um.messageId < id :=
    fun um hum => Nat.lt_of_lt_of_le (h.sent um hum) hid
  have hnodup : ∀ (ums : List UserMessage) (o : Option UserMessage),
      (ums.map (·.messageId)).Nodup → (∀ um ∈ ums, um.messageId < id) →
      (∀ um ∈ o.toList, um.messageId = id) → ((ums ++ o.toList).map (·.messageId)).Nodup := by
    intro ums o hums hlt ho
    rw [map_append, nodup_append]
    refine ⟨hums, ?_, ?_⟩
    · cases o with
      | none => exact nodup_nil
      | some um => exact nodup_singleton _
    · intro a ha b hb
      obtain ⟨um, hum, rfl⟩ := mem_map.mp ha
      obtain ⟨new, hnew, rfl⟩ := mem_map.mp hb
      have h1 := hlt um hum
      have h2 := ho new hnew
      omega
  constructor
  · show t.timeline.send id d.streamId = s.timeline.send id d.streamId
    rw [h.timeline]
  · exact h.valid.send hid d.streamId
  · exact h.active
  · intro hidle
    obtain ⟨last, hlast, hlt⟩ := h.marked hidle
    refine ⟨last, hlast, ?_⟩
    show last < id + 1
    omega
  · intro um hum
    rw [hshadow]
    rcases (hrow um).mp hum with hum | ⟨hyes, hum⟩
    · exact .inl (h.rows um hum)
    · rcases hcases with hsame | ⟨hskips, -⟩
      · exact .inr ⟨hsame ▸ hyes, hum⟩
      · obtain ⟨hidle, hsub, hnone⟩ := hskips
        rw [hidle, hsub, hnone] at hyes
        exact absurd hyes Bool.false_ne_true
  · exact hnodup _ _ h.once (fun um hum => hold um (h.rows um hum)) fun um hum =>
      congrArg (·.messageId) (Draft.mem_createUserMessage.mp hum).2
  · exact hnodup _ _ h.shadow hold fun um hum =>
      congrArg (·.messageId) (Draft.mem_createUserMessage.mp hum).2
  · intro um hum
    rcases (hshadow um).mp hum with hum | ⟨-, rfl⟩
    · exact Nat.lt_succ_of_lt (hold um hum)
    · exact Nat.lt_succ_self id
  · intro message hm c hstream hat
    rcases mem_append.mp hm with hm | hm
    · obtain ⟨um, hum, hsame⟩ := h.received message hm c hstream hat
      exact ⟨um, (hshadow um).mpr (.inl hum), hsame⟩
    · obtain rfl := mem_singleton.mp hm
      change d.streamId = some c at hstream
      change subscribedAt (s.timeline.logsFor c) id = true at hat
      rw [subscribedAt_new h.valid hid] at hat
      refine ⟨⟨id, d.flags⟩, (hshadow _).mpr (.inr ⟨?_, rfl⟩), rfl⟩
      have hsub : s.subscribedTo d.streamId = true := by
        rw [hstream]
        exact hat
      rw [hsub]
      exact Draft.hasRow_active hstream
  · intro um hum hnot
    rw [hrow] at hnot
    rcases (hshadow um).mp hum with hum | ⟨hyes, rfl⟩
    · have hmissing := h.missing um hum fun hin => hnot (.inl hin)
      obtain ⟨message, hm, hsame⟩ := hmissing.sent
      exact { hmissing with sent := ⟨message, mem_append_left _ hm, hsame⟩ }
    · rcases hcases with hsame | ⟨hskips, hflags, c, hstream⟩
      · exact absurd (.inr ⟨hsame ▸ hyes, rfl⟩) hnot
      · have hat : subscribedAt (s.timeline.logsFor c) id = true := by
          rw [subscribedAt_new h.valid hid]
          have hsub := hskips.2.1
          rw [hstream] at hsub
          exact hsub
        refine ⟨hskips.1, hflags, ⟨⟨id, d.streamId⟩, ?_, rfl, c, hstream, hat⟩, ?_, ?_⟩
        · exact mem_append_right _ (mem_singleton_self _)
        · intro last hlast
          obtain ⟨marked, hmarked, hlt⟩ := h.marked hskips.1
          cases hlast.symm.trans hmarked
          exact Nat.lt_of_lt_of_le hlt hid
        · intro p hp
          have hsound := h.running p hp
          refine ⟨fun last hlast => Nat.lt_of_lt_of_le (hsound.inserted last hlast) hid,
            .inr ⟨(hproper hskips).2 p hp, fun k hk => ?_⟩⟩
          obtain ⟨um, hum, rfl⟩ := hsound.rows k hk
          exact hold um hum
  · intro p hp
    have hsound := h.running p hp
    refine ⟨hsound.sorted, ?_, ?_⟩
    · intro k hk
      obtain ⟨um, hum, hsame⟩ := hsound.rows k hk
      exact ⟨um, (hshadow um).mpr (.inl hum), hsame⟩
    · intro last hlast
      have hlt := hsound.inserted last hlast
      show last < id + 1
      omega

/-! ### Soft deactivation -/

/-- Rows that are all there are not missing afterwards either. -/
theorem softDeactivate (hproper : s.longTermIdle = false) : Mirrors s.softDeactivate t := by
  unfold State.softDeactivate
  cases hlast : (s.userMessages.map (·.messageId)).max? <|>
      s.timeline.messages.getLast?.map (·.id) with
  | none => exact h
  | some last =>
    have hlt : last < s.timeline.nextMessageId := by
      cases hmax : (s.userMessages.map (·.messageId)).max? with
      | some id =>
        rw [hmax] at hlast
        cases hlast
        obtain ⟨um, hum, rfl⟩ := mem_map.mp (max?_mem hmax)
        exact h.sent um (h.rows um hum)
      | none =>
        rw [hmax] at hlast
        obtain ⟨message, hm, rfl⟩ := Option.map_eq_some_iff.mp hlast
        exact h.valid.fresh message (mem_of_getLast? hm)
    constructor
    · exact h.timeline
    · exact h.valid
    · exact h.active
    · exact fun _ => ⟨last, rfl, hlt⟩
    · exact h.rows
    · exact h.once
    · exact h.shadow
    · exact h.sent
    · exact h.received
    · exact fun um hum hnot => absurd (h.mem_of_active hproper hum) hnot
    · exact fun p hp => ⟨(h.running p hp).sorted, (h.running p hp).rows, (h.running p hp).inserted⟩

/-- A catch-up finds every row that is missing. -/
theorem startCatchUp (reactivating : Bool) : Mirrors (s.startCatchUp reactivating) t := by
  unfold State.startCatchUp
  split
  · next hidle =>
    obtain ⟨last, hlast, -⟩ := h.marked hidle
    obtain ⟨ids, hids, hsorted, hmem⟩ := messageIdsToInsert_spec h.valid hlast
    rw [hids]
    refine { h with missing := fun um hum hnot => ?_, running := fun p hp => ?_ }
    · have hmissing := h.missing um hum hnot
      refine { hmissing with ahead := fun p hp => ?_ }
      rcases mem_append.mp hp with hp | hp
      · exact hmissing.ahead p hp
      · rw [mem_singleton.mp hp]
        have hnone : s.hasUserMessage um.messageId = false := by
          rw [← Bool.not_eq_true, ← h.mem_iff hum]
          exact hnot
        refine ⟨?_, .inl ((hmem _).mpr ⟨hmissing.later last hlast, hnone, hmissing.sent⟩)⟩
        rintro last ⟨⟩
    · rcases mem_append.mp hp with hp | hp
      · exact ⟨(h.running p hp).sorted, (h.running p hp).rows, (h.running p hp).inserted⟩
      · rw [mem_singleton.mp hp]
        refine ⟨hsorted, ?_, ?_⟩
        · intro id hid
          obtain ⟨-, -, message, hm, rfl, c, hstream, hat⟩ := (hmem id).mp hid
          exact h.received message hm c hstream hat
        · rintro last ⟨⟩
  · exact h

/-- A batch brings rows of the other run, since they are missing and have no flags. -/
theorem insertBatch (i size : ℕ) : Mirrors (s.insertBatch i size) t := by
  unfold State.insertBatch
  split
  · next ids reactivating hrunning =>
    have hp := mem_of_getElem? hrunning
    have hsound := h.running _ hp
    have hbatch : ∀ id ∈ ids.take size, s.hasUserMessage id = false →
        (⟨id, .zero⟩ : UserMessage) ∈ t.userMessages := by
      intro id hid hnone
      obtain ⟨um, hum, rfl⟩ := hsound.rows id (mem_of_mem_take hid)
      have hnot : um ∉ s.userMessages := by
        rw [h.mem_iff hum, hnone]
        exact Bool.false_ne_true
      have hplain := (h.missing um hum hnot).plain
      rw [← hplain]
      exact hum
    have hrow : ∀ um, um ∈ s.bulkInsertAllUms (ids.take size) ↔ um ∈ s.userMessages ∨
        (um.messageId ∈ ids.take size ∧ s.hasUserMessage um.messageId = false ∧
          um.flags = .zero) := by
      intro um
      unfold State.bulkInsertAllUms
      rw [mem_append, mem_map]
      apply or_congr_right
      constructor
      · rintro ⟨id, hid, rfl⟩
        obtain ⟨hmem, hnone⟩ := mem_filter.mp hid
        exact ⟨hmem, by simpa using hnone, rfl⟩
      · rintro ⟨hmem, hnone, hflags⟩
        refine ⟨um.messageId, mem_filter.mpr ⟨hmem, by simp [hnone]⟩, ?_⟩
        rw [← hflags]
    have hids := hsound.sorted
    -- What is inserted comes before what is left.
    have hsplit : ∀ id ∈ ids.take size, ∀ k ∈ ids.drop size, id < k := by
      rw [← take_append_drop size ids] at hids
      exact (pairwise_append.mp hids).2.2
    refine { h with rows := ?_, once := ?_, missing := ?_, running := ?_ }
    · intro um hum
      rcases (hrow um).mp hum with hum | ⟨hmem, hnone, hflags⟩
      · exact h.rows um hum
      · rw [show um = ⟨um.messageId, .zero⟩ by rw [← hflags]]
        exact hbatch um.messageId hmem hnone
    · unfold State.bulkInsertAllUms
      rw [map_append, map_map, nodup_append]
      refine ⟨h.once, ?_, ?_⟩
      · have hdistinct : (ids.take size).Nodup :=
          (hids.sublist (take_sublist size ids)).imp fun hlt => Nat.ne_of_lt hlt
        have hmap : (fun um : UserMessage => um.messageId) ∘ (fun id => (⟨id, .zero⟩ : UserMessage)) =
            id := rfl
        rw [hmap, map_id]
        exact hdistinct.filter _
      · intro a ha b hb
        obtain ⟨um, hum, rfl⟩ := mem_map.mp ha
        obtain ⟨id, hid, rfl⟩ := mem_map.mp hb
        have hnone := (mem_filter.mp hid).2
        rintro heq
        have hhas : s.hasUserMessage id = true :=
          any_eq_true.mpr ⟨um, hum, decide_eq_true heq⟩
        simp [hhas] at hnone
    · intro um hum hnot
      rw [hrow, not_or] at hnot
      have hmissing := h.missing um hum hnot.1
      have hnone : s.hasUserMessage um.messageId = false := by
        rw [← Bool.not_eq_true, ← h.mem_iff hum]
        exact hnot.1
      have hlater : um.messageId ∉ ids.take size :=
        fun hmem => hnot.2 ⟨hmem, hnone, hmissing.plain⟩
      refine { hmissing with ahead := fun p hpmem => ?_ }
      rcases mem_or_eq_of_mem_set hpmem with hpmem | rfl
      · exact hmissing.ahead p hpmem
      · obtain ⟨-, hahead⟩ := hmissing.ahead _ hp
        have hdone : ∀ k ∈ ids.take size, k < um.messageId := by
          intro k hk
          rcases hahead with hin | ⟨-, hbefore⟩
          · rw [← take_append_drop size ids] at hin
            rcases mem_append.mp hin with hin | hin
            · exact absurd hin hlater
            · exact hsplit k hk _ hin
          · exact hbefore k (mem_of_mem_take hk)
        refine ⟨fun last hlast => hdone last (mem_of_getLast? hlast), ?_⟩
        rcases hahead with hin | ⟨hreact, hbefore⟩
        · rw [← take_append_drop size ids] at hin
          rcases mem_append.mp hin with hin | hin
          · exact absurd hin hlater
          · exact .inl hin
        · exact .inr ⟨hreact, fun k hk => hbefore k (mem_of_mem_drop hk)⟩
    · intro p hpmem
      rcases mem_or_eq_of_mem_set hpmem with hpmem | rfl
      · exact ⟨(h.running p hpmem).sorted, (h.running p hpmem).rows, (h.running p hpmem).inserted⟩
      · refine ⟨hids.sublist (drop_sublist size ids), ?_, ?_⟩
        · exact fun id hid => hsound.rows id (mem_of_mem_drop hid)
        · intro last hlast
          obtain ⟨um, hum, rfl⟩ :=
            hsound.rows last (mem_of_mem_take (mem_of_getLast? hlast))
          exact h.sent um hum
  · exact h

/-- What is written down comes before every row that is missing. -/
theorem recordBatch (i : ℕ) : Mirrors (s.recordBatch i) t := by
  unfold State.recordBatch
  split
  · next ids last reactivating hrunning =>
    have hp := mem_of_getElem? hrunning
    have hsound := h.running _ hp
    have hlt := hsound.inserted last rfl
    refine { h with marked := ?_, missing := ?_, running := ?_ }
    · intro hidle
      obtain ⟨marked, hmarked, hbound⟩ := h.marked hidle
      refine ⟨_, rfl, ?_⟩
      rw [hmarked]
      exact Nat.max_lt.mpr ⟨hbound, hlt⟩
    · intro um hum hnot
      have hmissing := h.missing um hum hnot
      refine { hmissing with later := ?_, ahead := fun p hpmem => ?_ }
      · intro recorded hrecorded
        cases hrecorded
        obtain ⟨marked, hmarked, -⟩ := h.marked hmissing.idle
        rw [hmarked]
        exact Nat.max_lt.mpr ⟨hmissing.later marked hmarked, (hmissing.ahead _ hp).1 last rfl⟩
      · rcases mem_or_eq_of_mem_set hpmem with hpmem | rfl
        · exact hmissing.ahead p hpmem
        · refine ⟨?_, (hmissing.ahead _ hp).2⟩
          rintro last ⟨⟩
    · intro p hpmem
      rcases mem_or_eq_of_mem_set hpmem with hpmem | rfl
      · exact ⟨(h.running p hpmem).sorted, (h.running p hpmem).rows, (h.running p hpmem).inserted⟩
      · refine ⟨hsound.sorted, hsound.rows, ?_⟩
        rintro last ⟨⟩
  · exact h

/-- Catch-ups that end, or are at their end, no longer matter. -/
theorem sublist {running : List CatchUp} (hsub : running.Sublist s.running) :
    Mirrors { s with running := running } t :=
  ⟨h.timeline, h.valid, h.active, h.marked, h.rows, h.once, h.shadow, h.sent, h.received,
    fun um hum hnot =>
      have hmissing := h.missing um hum hnot
      { hmissing with ahead := fun p hp => hmissing.ahead p (hsub.subset hp) },
    fun p hp =>
      have hsound := h.running p (hsub.subset hp)
      { hsound with }⟩

/-- At the end of a reactivation no row is missing. -/
theorem finishCatchUp (i : ℕ) : Mirrors (s.finishCatchUp i) t := by
  unfold State.finishCatchUp
  split
  · next reactivating hrunning =>
    have hp := mem_of_getElem? hrunning
    have hrest := h.sublist (eraseIdx_sublist s.running i)
    cases reactivating with
    | false =>
      rw [Bool.not_false, Bool.and_true]
      exact hrest
    | true =>
      rw [Bool.not_true, Bool.and_false]
      refine { hrest with
        marked := ?_, missing := fun um hum hnot => ?_, running := fun p hpmem => ?_ }
      · intro hidle
        cases hidle
      · obtain ⟨-, hin | ⟨hfalse, -⟩⟩ := (h.missing um hum hnot).ahead _ hp
        · exact absurd hin not_mem_nil
        · cases hfalse
      · have hsound := hrest.running p hpmem
        exact { hsound with }
  · exact h

/-! ### A step, and a run -/

theorem step (input : Input) (hproper : Proper ⟨input, s, (step input s).1, (step input s).2⟩) :
    Mirrors (step input s).2 (if input.isHistory then (step input t).2 else t) := by
  cases input with
  | subscribe streamId =>
    show Mirrors { s with timeline := s.timeline.subscribe streamId }
      { t with timeline := t.timeline.subscribe streamId }
    rw [h.timeline]
    apply h.change
    rcases subscribe_cases h.valid with hsame | hchange
    · exact .inl hsame
    · exact .inr ⟨streamId, true, hchange⟩
  | unsubscribe streamId =>
    show Mirrors { s with timeline := s.timeline.unsubscribe streamId }
      { t with timeline := t.timeline.unsubscribe streamId }
    rw [h.timeline]
    apply h.change
    rcases unsubscribe_cases h.valid with hsame | hchange
    · exact .inl hsame
    · exact .inr ⟨streamId, false, hchange⟩
  | send d gap =>
    show Mirrors (s.sendMessage d (s.timeline.nextMessageId + gap))
      (t.sendMessage d (t.timeline.nextMessageId + gap))
    rw [h.timeline]
    exact h.send (Nat.le_add_right _ _) hproper
  | softDeactivate => exact h.softDeactivate hproper
  | startCatchUp reactivating => exact h.startCatchUp reactivating
  | insertBatch i size => exact h.insertBatch i size
  | recordBatch i => exact h.recordBatch i
  | finishCatchUp i => exact h.finishCatchUp i
  | crash i => exact h.sublist (eraseIdx_sublist s.running i)

theorem run (inputs : List Input)
    (hproper : ∀ e ∈ history SoftDeactivation.step s inputs, Proper e) :
    Mirrors (History.run SoftDeactivation.step s inputs)
      (History.run SoftDeactivation.step t (inputs.filter (·.isHistory))) := by
  induction inputs generalizing s t with
  | nil => exact h
  | cons input inputs ih =>
    have hnext := h.step input (hproper _ mem_cons_self)
    have hrest := ih hnext fun e he => hproper e (mem_cons_of_mem _ he)
    rw [filter_cons]
    by_cases hinput : input.isHistory = true
    · rw [if_pos hinput] at hrest ⊢
      exact hrest
    · rw [if_neg hinput] at hrest ⊢
      exact hrest

end

end Mirrors

/-- A message to a channel for a user who set nothing up. -/
def plainDraft (streamId : ℕ) : Draft where
  streamId := some streamId
  inDirectMessageGroup := false
  possibleStreamWildcardMention := false
  mentionsStreamWildcard := false
  possibleTopicWildcardMention := false
  mentionsTopicWildcard := false
  participatesInTopic := false
  possiblyMentioned := false
  mentionedByName := false
  mentionedByGroup := false
  hasAlertWords := false
  alertWordInMessage := false
  isDefaultBot := false
  isMuted := false
  visibilityPolicy := .inherit
  pushNotifications := none
  emailNotifications := none
  enableStreamPushNotifications := false
  enableStreamEmailNotifications := false
  enableFollowedTopicPushNotifications := false
  enableFollowedTopicEmailNotifications := false
  mutedSender := false
  markAsRead := false
  limitUnread := none
  streamWildcard := id
  byName := id
  alertWord := id

def noMessages : Table Message.id := Table.empty Message.id

/-- A user is soft-deactivated, two messages are sent, the first catch-up crashes after its first
batch, and the user comes back. -/
def comeBack (first : Draft) : List Input :=
  [.subscribe 1, .send (plainDraft 1) 0, .softDeactivate, .send first 0, .send (plainDraft 1) 0,
    .startCatchUp false, .insertBatch 0 1, .crash 0, .startCatchUp true, .insertBatch 0 10000,
    .recordBatch 0, .finishCatchUp 0]

/-- A message between the query of a reactivation and its end has no row afterwards. -/
example : ¬ Invisible noMessages [.subscribe 1, .send (plainDraft 1) 0, .softDeactivate,
    .startCatchUp true, .send (plainDraft 1) 0, .finishCatchUp 0] := by
  rintro ⟨hrows, -⟩
  have hperm := (hrows (by decide)).1
  revert hperm
  decide

/-- Nor has one that was skipped before a user with a later row is soft-deactivated again. -/
example : ¬ Invisible noMessages [.subscribe 1, .send (plainDraft 1) 0, .softDeactivate,
    .send (plainDraft 1) 0,
    .send { plainDraft 1 with possiblyMentioned := true, mentionedByName := true, byName := id } 0,
    .softDeactivate, .startCatchUp true, .finishCatchUp 0] := by
  rintro ⟨hrows, -⟩
  have hperm := (hrows (by decide)).1
  revert hperm
  decide

end GrowTeam.SoftDeactivation
