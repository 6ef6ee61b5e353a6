/-
# The timeline of a user's channels (`zerver/actions/streams.py`, `zerver/models/messages.py`)

The messages of the database, the user's subscriptions and the log of their changes.  Each
change is logged with the last message there was, so that the log and the ids of the messages
tell what happened first.  `Valid` says how the three belong together, and every change and
every message keeps it; what the log says about a message never changes again
(`Valid.change`, `Valid.send`).
-/
import GrowTeam.SoftDeactivation.Subscriptions
import GrowTeam.Table

namespace GrowTeam.SoftDeactivation

open List

/-- `Message`.  A direct message has no channel. -/
structure Message where
  id : ℕ
  streamId : Option ℕ

/-- `Subscription`, of the user in question to a channel. -/
structure Subscription where
  streamId : ℕ
  active : Bool

/-- Messages and logs are in the order of their ids. -/
structure Timeline where
  messages : List Message
  nextMessageId : ℕ
  subscriptions : List Subscription
  logs : List RealmAuditLog

namespace Timeline

/-- A user who is new to a database with these messages. -/
def new (messages : Table Message.id) : Timeline := ⟨messages.rows, messages.fresh, [], []⟩

variable (s : Timeline)

def getLastMessageId : ℤ :=
  match s.messages.getLast? with
  | some message => message.id
  | none => -1

variable (streamId : ℕ)

def isSubscribed : Bool :=
  s.subscriptions.any fun sub => sub.streamId = streamId && sub.active

/-- The row of a change, to be logged. -/
def change (eventType : AuditLogEventType) : RealmAuditLog :=
  ⟨s.logs.length, eventType, streamId, s.getLastMessageId⟩

/-- `Subscription.objects.filter(…).update(active=…)` -/
def setActive (active : Bool) : List Subscription :=
  s.subscriptions.map fun sub =>
    if sub.streamId = streamId then { sub with active := active } else sub

/-- `bulk_add_subscriptions` -/
def subscribe (s : Timeline) : Timeline :=
  match s.subscriptions.find? (·.streamId = streamId) with
  | none =>
    { s with
      subscriptions := s.subscriptions ++ [⟨streamId, true⟩]
      logs := s.logs ++ [s.change streamId .subscriptionCreated] }
  | some sub =>
    if sub.active then s
    else
      { s with
        subscriptions := s.setActive streamId true
        logs := s.logs ++ [s.change streamId .subscriptionActivated] }

/-- `bulk_remove_subscriptions` -/
def unsubscribe (s : Timeline) : Timeline :=
  if s.isSubscribed streamId then
    { s with
      subscriptions := s.setActive streamId false
      logs := s.logs ++ [s.change streamId .subscriptionDeactivated] }
  else s

/-- A message is saved under a new id. -/
def send (messageId : ℕ) (streamId : Option ℕ) (s : Timeline) : Timeline :=
  { s with messages := s.messages ++ [⟨messageId, streamId⟩], nextMessageId := messageId + 1 }

/-- `all_stream_subscription_logs`, in the official order. -/
def logsOf : List RealmAuditLog :=
  (s.logs.insertionSort fun a b => a.eventLastMessageId < b.eventLastMessageId ∨
    (a.eventLastMessageId = b.eventLastMessageId ∧ a.id ≤ b.id)).filter
      (·.modifiedStreamId = streamId)

/-! ## What belongs together -/

/-- The changes of a channel, as they were logged. -/
def logsFor : List RealmAuditLog :=
  s.logs.filter (·.modifiedStreamId = streamId)

structure Valid (s : Timeline) : Prop where
  ascending : s.messages.Pairwise (·.id < ·.id)
  fresh : ∀ message ∈ s.messages, message.id < s.nextMessageId
  logged : ∀ log ∈ s.logs, log.eventLastMessageId ≤ s.getLastMessageId
  numbered : ∀ log ∈ s.logs, log.id < s.logs.length
  ordered : s.logs.Pairwise fun a b =>
    a.eventLastMessageId ≤ b.eventLastMessageId ∧ a.id < b.id
  distinct : (s.subscriptions.map (·.streamId)).Nodup
  subscribed : ∀ streamId, subscribedNow (s.logsFor streamId) = s.isSubscribed streamId
  known : ∀ streamId, s.logsFor streamId ≠ [] ↔ streamId ∈ s.subscriptions.map (·.streamId)

/-- A change of the subscription to a channel, and nothing else. -/
structure Changed (s : Timeline) (streamId : ℕ) (active : Bool) (t : Timeline) : Prop where
  messages : t.messages = s.messages
  nextMessageId : t.nextMessageId = s.nextMessageId
  opposite : s.isSubscribed streamId = !active
  logs : ∃ eventType, (s.change streamId eventType).subscribes = active ∧
    t.logs = s.logs ++ [s.change streamId eventType]
  isSubscribed : ∀ c, t.isSubscribed c = if c = streamId then active else s.isSubscribed c
  distinct : (t.subscriptions.map (·.streamId)).Nodup
  known : ∀ c, c ∈ t.subscriptions.map (·.streamId) ↔
    c = streamId ∨ c ∈ s.subscriptions.map (·.streamId)

section Changes

variable {s t : Timeline} {streamId c id : ℕ} {active : Bool}

theorem map_setActive :
    (s.setActive streamId active).map (·.streamId) = s.subscriptions.map (·.streamId) := by
  unfold setActive
  rw [map_map]
  apply map_congr_left
  intro sub _
  rw [Function.comp]
  split <;> rfl

theorem any_setActive :
    ((s.setActive streamId active).any fun sub => sub.streamId = c && sub.active) =
      if c = streamId then active && s.subscriptions.any (·.streamId = streamId)
      else s.isSubscribed c := by
  unfold setActive isSubscribed
  rw [any_map]
  split
  · next hc =>
    subst hc
    cases active with
    | true =>
      congr 1
      funext sub
      by_cases hsub : sub.streamId = c <;> simp [hsub]
    | false =>
      rw [Bool.false_and, any_eq_false]
      intro sub _
      by_cases hsub : sub.streamId = c <;> simp [hsub]
  · next hc =>
    congr 1
    funext sub
    by_cases hsub : sub.streamId = streamId
    · simp [hsub, Ne.symm hc]
    · simp [hsub]

/-- Of a channel there is one subscription. -/
theorem isSubscribed_of_find (h : s.Valid) {sub : Subscription}
    (hfind : s.subscriptions.find? (·.streamId = streamId) = some sub) :
    s.isSubscribed streamId = sub.active := by
  have hmem := mem_of_find?_eq_some hfind
  have hid : sub.streamId = streamId := by simpa using find?_some hfind
  unfold isSubscribed
  cases hactive : sub.active with
  | true => exact any_eq_true.mpr ⟨sub, hmem, by simp [hid, hactive]⟩
  | false =>
    rw [any_eq_false]
    intro other hother hyes
    rw [Bool.and_eq_true, decide_eq_true_eq] at hyes
    have hsame : other = sub :=
      inj_on_of_nodup_map h.distinct hother hmem (hyes.1.trans hid.symm)
    rw [hsame, hactive] at hyes
    exact Bool.false_ne_true hyes.2

theorem isSubscribed_of_find_none (hfind : s.subscriptions.find? (·.streamId = streamId) = none) :
    s.isSubscribed streamId = false := by
  unfold isSubscribed
  rw [any_eq_false]
  intro sub hsub hyes
  rw [Bool.and_eq_true] at hyes
  exact find?_eq_none.mp hfind sub hsub hyes.1

theorem subscribe_cases (h : s.Valid) :
    s.subscribe streamId = s ∨ s.Changed streamId true (s.subscribe streamId) := by
  unfold subscribe
  cases hfind : s.subscriptions.find? (·.streamId = streamId) with
  | none =>
    have hnew : streamId ∉ s.subscriptions.map (·.streamId) := by
      intro hmem
      obtain ⟨sub, hsub, hid⟩ := mem_map.mp hmem
      exact find?_eq_none.mp hfind sub hsub (decide_eq_true hid)
    have hnot := isSubscribed_of_find_none hfind
    refine .inr ⟨rfl, rfl, hnot, ⟨_, rfl, rfl⟩, fun c => ?_, ?_, fun c => ?_⟩
    · show (s.subscriptions ++ [(⟨streamId, true⟩ : Subscription)]).any _ = _
      by_cases hc : c = streamId
      · simp [hc]
      · rw [if_neg hc]
        simp [isSubscribed, Ne.symm hc]
    · show ((s.subscriptions ++ [(⟨streamId, true⟩ : Subscription)]).map _).Nodup
      rw [map_append, nodup_append]
      refine ⟨h.distinct, nodup_singleton _, ?_⟩
      rintro a ha b hb rfl
      rw [mem_singleton.mp hb] at ha
      exact hnew ha
    · show c ∈ (s.subscriptions ++ [(⟨streamId, true⟩ : Subscription)]).map _ ↔ _
      rw [map_append, mem_append, map_singleton, mem_singleton, or_comm]
  | some sub =>
    dsimp only
    by_cases hactive : sub.active = true
    · rw [if_pos hactive]
      exact .inl rfl
    · rw [if_neg hactive]
      have hmem := mem_of_find?_eq_some hfind
      have hid : sub.streamId = streamId := by simpa using find?_some hfind
      have hany : s.subscriptions.any (·.streamId = streamId) = true :=
        any_eq_true.mpr ⟨sub, hmem, decide_eq_true hid⟩
      refine .inr ⟨rfl, rfl, ?_, ⟨_, rfl, rfl⟩, fun c => ?_, ?_, fun c => ?_⟩
      · rw [isSubscribed_of_find h hfind]
        exact Bool.eq_false_iff.mpr hactive
      · show (s.setActive streamId true).any _ = _
        rw [any_setActive, hany]
        rfl
      · show ((s.setActive streamId true).map _).Nodup
        rw [map_setActive]
        exact h.distinct
      · show c ∈ (s.setActive streamId true).map _ ↔ _
        rw [map_setActive]
        constructor
        · exact .inr
        · rintro (rfl | hc)
          · exact mem_map.mpr ⟨sub, hmem, hid⟩
          · exact hc

theorem unsubscribe_cases (h : s.Valid) :
    s.unsubscribe streamId = s ∨ s.Changed streamId false (s.unsubscribe streamId) := by
  unfold unsubscribe
  by_cases hactive : s.isSubscribed streamId = true
  · rw [if_pos hactive]
    refine .inr ⟨rfl, rfl, hactive, ⟨_, rfl, rfl⟩, fun c => ?_, ?_, fun c => ?_⟩
    · show (s.setActive streamId false).any _ = _
      rw [any_setActive]
      simp
    · show ((s.setActive streamId false).map _).Nodup
      rw [map_setActive]
      exact h.distinct
    · show c ∈ (s.setActive streamId false).map _ ↔ _
      rw [map_setActive]
      constructor
      · exact .inr
      · rintro (rfl | hc)
        · obtain ⟨sub, hsub, hyes⟩ := any_eq_true.mp hactive
          rw [Bool.and_eq_true, decide_eq_true_eq] at hyes
          exact mem_map.mpr ⟨sub, hsub, hyes.1⟩
        · exact hc
  · rw [if_neg hactive]
    exact .inl rfl

end Changes

/-! ## Every step keeps it -/

section Valid

variable {s t : Timeline} {streamId c id : ℕ} {active : Bool} {message : Message}

theorem valid_new (messages : Table Message.id) : (new messages).Valid where
  ascending := pairwise_map.mp messages.sorted
  fresh := fun _ hm => Table.key_lt_fresh hm
  logged := fun _ h => (not_mem_nil h).elim
  numbered := fun _ h => (not_mem_nil h).elim
  ordered := .nil
  distinct := nodup_nil
  subscribed := fun _ => rfl
  known := fun _ => by simp [logsFor, new]

theorem logsOf_eq (h : s.Valid) : s.logsOf streamId = s.logsFor streamId := by
  unfold logsOf logsFor
  rw [List.Pairwise.insertionSort_eq]
  apply h.ordered.imp
  intro a b hab
  obtain ⟨hlast, hid⟩ := hab
  rcases Int.lt_or_eq_of_le hlast with hlt | heq
  · exact .inl hlt
  · exact .inr ⟨heq, Nat.le_of_lt hid⟩

theorem le_getLastMessageId (h : s.Valid) (hm : message ∈ s.messages) :
    (message.id : ℤ) ≤ s.getLastMessageId := by
  unfold getLastMessageId
  cases hlast : s.messages.getLast? with
  | none =>
    rw [getLast?_eq_none_iff.mp hlast] at hm
    cases hm
  | some last =>
    obtain ⟨before, hsplit⟩ := getLast?_eq_some_iff.mp hlast
    have hascending := h.ascending
    rw [hsplit] at hascending hm
    rcases mem_append.mp hm with hm | hm
    · have hlt := (pairwise_append.mp hascending).2.2 message hm last
        (mem_singleton_self _)
      dsimp only
      omega
    · rw [mem_singleton.mp hm]

theorem getLastMessageId_lt (h : s.Valid) : s.getLastMessageId < s.nextMessageId := by
  unfold getLastMessageId
  cases hlast : s.messages.getLast? with
  | none =>
    dsimp only
    omega
  | some last =>
    have hfresh := h.fresh last (mem_of_getLast? hlast)
    dsimp only
    omega

theorem Changed.logsFor (h : s.Changed streamId active t) :
    ∃ eventType, (s.change streamId eventType).subscribes = active ∧ ∀ c, t.logsFor c =
      if c = streamId then s.logsFor c ++ [s.change streamId eventType] else s.logsFor c := by
  obtain ⟨eventType, hsub, hlogs⟩ := h.logs
  refine ⟨eventType, hsub, fun c => ?_⟩
  unfold Timeline.logsFor
  rw [hlogs, filter_append]
  split
  · next hc =>
    subst hc
    simp [change]
  · next hc =>
    have hother : [s.change streamId eventType].filter (·.modifiedStreamId = c) = [] := by
      simp [change, Ne.symm hc]
    rw [hother, append_nil]

section

variable (h : s.Valid)

include h

theorem Valid.change (hchange : s.Changed streamId active t) : t.Valid := by
  obtain ⟨eventType, hsub, hlogs⟩ := hchange.logs
  obtain ⟨eventType', hsub', hfor⟩ := hchange.logsFor
  have hlast : t.getLastMessageId = s.getLastMessageId := by
    unfold getLastMessageId
    rw [hchange.messages]
  constructor
  · rw [hchange.messages]
    exact h.ascending
  · rw [hchange.messages, hchange.nextMessageId]
    exact h.fresh
  · intro log hlog
    rw [hlast]
    rw [hlogs] at hlog
    rcases mem_append.mp hlog with hlog | hlog
    · exact h.logged log hlog
    · rw [mem_singleton.mp hlog]
      exact Int.le_refl _
  · intro log hlog
    rw [hlogs] at hlog ⊢
    rw [List.length_append]
    rcases mem_append.mp hlog with hlog | hlog
    · have := h.numbered log hlog
      omega
    · rw [mem_singleton.mp hlog]
      exact Nat.lt_succ_self _
  · rw [hlogs, pairwise_append]
    refine ⟨h.ordered, pairwise_singleton _ _, ?_⟩
    intro log hlog new hnew
    rw [mem_singleton.mp hnew]
    exact ⟨h.logged log hlog, h.numbered log hlog⟩
  · exact hchange.distinct
  · intro c
    rw [hfor c, hchange.isSubscribed c]
    split
    · rw [subscribedNow_append, hsub']
    · exact h.subscribed c
  · intro c
    rw [hfor c, hchange.known c]
    split
    · next hc => simp [hc]
    · next hc =>
      rw [h.known c]
      simp [hc]

/-- The log says of the messages so far what it said before. -/
theorem Changed.subscribedAt (hchange : s.Changed streamId active t)
    (hm : message ∈ s.messages) (c : ℕ) :
    subscribedAt (t.logsFor c) message.id = subscribedAt (s.logsFor c) message.id := by
  obtain ⟨eventType, hsub, hfor⟩ := hchange.logsFor
  rw [hfor c]
  split
  · next hc =>
    subst hc
    apply subscribedAt_append
    · rw [hsub, h.subscribed c, hchange.opposite, Bool.not_not]
    · exact le_getLastMessageId h hm
  · rfl

theorem Valid.send (hid : s.nextMessageId ≤ id) (channel : Option ℕ) :
    (s.send id channel).Valid := by
  have hlast : (s.send id channel).getLastMessageId = id := by
    unfold getLastMessageId Timeline.send
    rw [getLast?_concat]
  constructor
  · show (s.messages ++ [(⟨id, channel⟩ : Message)]).Pairwise _
    rw [pairwise_append]
    refine ⟨h.ascending, pairwise_singleton _ _, ?_⟩
    intro m hm new hnew
    rw [mem_singleton.mp hnew]
    exact Nat.lt_of_lt_of_le (h.fresh m hm) hid
  · intro m hm
    show m.id < id + 1
    rcases mem_append.mp hm with hm | hm
    · have := h.fresh m hm
      omega
    · rw [mem_singleton.mp hm]
      exact Nat.lt_succ_self id
  · intro log hlog
    have hle := h.logged log hlog
    have hlt := getLastMessageId_lt h
    omega
  · exact h.numbered
  · exact h.ordered
  · exact h.distinct
  · exact h.subscribed
  · exact h.known

/-- Of a new message the log says what the subscription says. -/
theorem subscribedAt_new (hid : s.nextMessageId ≤ id) (c : ℕ) :
    subscribedAt (s.logsFor c) id = s.isSubscribed c := by
  rw [← h.subscribed c]
  apply subscribedAt_of_lt
  intro log hlog
  have hle := h.logged log (mem_of_mem_filter hlog)
  have hlt := getLastMessageId_lt h
  omega

/-- A user who left the channel for good is not subscribed for later messages. -/
theorem subscribedAt_left {log : RealmAuditLog}
    (hlog : (s.logsFor c).getLast? = some log) (hleft : log.subscribes = false)
    (hbefore : log.eventLastMessageId < id) :
    SoftDeactivation.subscribedAt (s.logsFor c) id = false := by
  obtain ⟨before, hsplit⟩ := getLast?_eq_some_iff.mp hlog
  have hordered := h.ordered.filter (·.modifiedStreamId = c)
  change (s.logsFor c).Pairwise _ at hordered
  rw [hsplit] at hordered ⊢
  rw [subscribedAt_of_lt, subscribedNow_append, hleft]
  intro other hother
  rcases mem_append.mp hother with hother | hother
  · have hle := (pairwise_append.mp hordered).2.2 other hother log
      (mem_singleton_self _)
    exact Int.lt_of_le_of_lt hle.1 hbefore
  · rw [mem_singleton.mp hother]
    exact hbefore

/-- A message the user was subscribed for is in one of the user's channels. -/
theorem mem_of_subscribedAt (hat : SoftDeactivation.subscribedAt (s.logsFor c) id = true) :
    c ∈ s.subscriptions.map (·.streamId) := by
  rw [← h.known c]
  intro hnone
  rw [hnone] at hat
  exact Bool.false_ne_true hat

end

end Valid

end Timeline

end GrowTeam.SoftDeactivation
