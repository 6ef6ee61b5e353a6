/-
# Subscription history (`zerver/lib/soft_deactivation.py`)

Each change of a user's subscription to a channel is logged with the last message there was.
`filter_by_subscription_history` finds from the logs which messages were sent while the user
was subscribed: it walks through the changes of a channel in their order, with the messages
that are left.

The first change at or after a message tells whether the user was subscribed when it was sent;
after the last change, the kind of that change does (`subscribedAt`).  The walk selects just the
messages of which this holds (`mem_filterBySubscriptionHistory`).
-/
import GrowTeam.Index
import Mathlib.Data.Int.Notation
import Mathlib.Data.List.Dedup
import Mathlib.Data.List.Sort
import Mathlib.Data.List.TakeWhile
import Mathlib.Data.Nat.Notation

namespace GrowTeam.SoftDeactivation

open List

/-- The three event types of `RealmAuditLog` about a subscription. -/
inductive AuditLogEventType where
  | subscriptionCreated
  | subscriptionActivated
  | subscriptionDeactivated
  deriving DecidableEq

/-- `RealmAuditLog`, of the user in question.  Before the first message the last one is -1. -/
structure RealmAuditLog where
  id : ℕ
  eventType : AuditLogEventType
  modifiedStreamId : ℕ
  eventLastMessageId : ℤ

/-- The user is subscribed after the change. -/
def RealmAuditLog.subscribes (log : RealmAuditLog) : Bool :=
  log.eventType ≠ .subscriptionDeactivated

/-! ## The walk -/

/-- The loop over a subscribe event: messages up to it are skipped. -/
def skipThrough (eventLastMessageId : ℤ) (streamMessages : List ℕ) : List ℕ :=
  let rest :=
    match streamMessages.findIdx? fun id : ℕ => eventLastMessageId < id with
    | some i => streamMessages.drop i
    | none => streamMessages
  let done :=
    match rest.getLast? with
    | some last => rest.length = streamMessages.length && decide ((last : ℤ) ≤ eventLastMessageId)
    | none => false
  if done then [] else rest

/-- The loop over the changes of a channel: the messages that are left, and those selected. -/
def walk : List RealmAuditLog → List ℕ → List ℕ → List ℕ × List ℕ
  | [], streamMessages, messageIds => (streamMessages, messageIds)
  | log :: logs, streamMessages, messageIds =>
    if streamMessages.isEmpty then (streamMessages, messageIds)
    else
      match log.eventType with
      | .subscriptionDeactivated =>
        walk logs streamMessages
          (messageIds ++ streamMessages.takeWhile fun id : ℕ => (id : ℤ) ≤ log.eventLastMessageId)
      | .subscriptionActivated | .subscriptionCreated =>
        walk logs (skipThrough log.eventLastMessageId streamMessages) messageIds

variable (logs : List RealmAuditLog)

/-- The messages of one channel.  Messages without any change of the subscription fail. -/
def selectMessages (streamMessages : List ℕ) : Option (List ℕ) :=
  let (rest, messageIds) := walk logs streamMessages []
  if rest.isEmpty then some messageIds
  else
    match logs.getLast? with
    | some log => some (if log.subscribes then messageIds ++ rest else messageIds)
    | none => none

/-- The loop over the channels. -/
def selectFromStreams (logs : ℕ → List RealmAuditLog) : List (ℕ × List ℕ) → Option (List ℕ)
  | [] => some []
  | (streamId, streamMessages) :: others => do
    let messageIds ← selectMessages (logs streamId) streamMessages
    let otherIds ← selectFromStreams logs others
    return messageIds ++ otherIds

def filterBySubscriptionHistory (allStreamMessages : Index ℕ ℕ)
    (allStreamSubscriptionLogs : ℕ → List RealmAuditLog) : Option (List ℕ) := do
  let messageIds ← selectFromStreams allStreamSubscriptionLogs allStreamMessages.entries
  return messageIds.dedup.insertionSort (· ≤ ·)

/-! ## What the logs say about a message -/

/-- Whether the user was subscribed when the message was sent, where `final` tells whether the
user is subscribed after the last change. -/
def subscribedThen (final : Bool) (id : ℕ) : Bool :=
  match logs.find? fun log => (id : ℤ) ≤ log.eventLastMessageId with
  | some log => !log.subscribes
  | none => final

/-- The user is subscribed after all changes. -/
def subscribedNow : Bool :=
  match logs.getLast? with
  | some log => log.subscribes
  | none => false

/-- The user was subscribed when the message was sent. -/
def subscribedAt (id : ℕ) : Bool :=
  subscribedThen logs (subscribedNow logs) id

section Walk

variable {log : RealmAuditLog} {logs : List RealmAuditLog} {streamMessages messageIds ids : List ℕ}
  {id : ℕ} {final : Bool}

theorem subscribedThen_cons_le (h : (id : ℤ) ≤ log.eventLastMessageId) :
    subscribedThen (log :: logs) final id = !log.subscribes := by
  unfold subscribedThen
  rw [find?_cons_of_pos (by simpa using h)]

theorem subscribedThen_cons_lt (h : log.eventLastMessageId < id) :
    subscribedThen (log :: logs) final id = subscribedThen logs final id := by
  unfold subscribedThen
  rw [find?_cons_of_neg (by simpa using h)]

/-- Of ascending messages, those after the event are left. -/
theorem skipThrough_eq {last : ℤ} (h : streamMessages.Pairwise (· < ·)) :
    skipThrough last streamMessages =
      streamMessages.filter fun id : ℕ => decide (last < (id : ℤ)) := by
  unfold skipThrough
  cases hfind : streamMessages.findIdx? fun id : ℕ => last < id with
  | some i =>
    obtain ⟨hi, hafter, hbefore⟩ := findIdx?_eq_some_iff_getElem.mp hfind
    -- From the first message after the event on, all are after it.
    have hrest : ∀ x ∈ streamMessages.drop i, last < (x : ℤ) := by
      intro x hx
      rw [drop_eq_getElem_cons hi] at hx
      rcases mem_cons.mp hx with rfl | hx
      · exact of_decide_eq_true hafter
      · have hsorted := h.sublist (drop_sublist i streamMessages)
        rw [drop_eq_getElem_cons hi] at hsorted
        have hlt := (pairwise_cons.mp hsorted).1 x hx
        have hfirst := of_decide_eq_true hafter
        omega
    have hskipped : ∀ x ∈ streamMessages.take i, ¬ last < (x : ℤ) := by
      intro x hx
      obtain ⟨j, hj, rfl⟩ := getElem_of_mem hx
      have hij : j < i := by
        have := length_take_le i streamMessages
        omega
      simpa using hbefore j hij
    have hfilter : (streamMessages.filter fun id : ℕ => decide (last < (id : ℤ))) =
        streamMessages.drop i := by
      conv_lhs => rw [← take_append_drop i streamMessages]
      rw [filter_append, filter_eq_nil_iff.mpr (by simpa using hskipped),
        filter_eq_self.mpr (by simpa using hrest), nil_append]
    dsimp only
    rw [hfilter]
    cases hlast : (streamMessages.drop i).getLast? with
    | none => rfl
    | some x =>
      have hx := hrest x (mem_of_getLast? hlast)
      rw [if_neg (by simp only [Bool.and_eq_true, decide_eq_true_eq, not_and]; omega)]
  | none =>
    have hall : ∀ x ∈ streamMessages, ¬ last < (x : ℤ) := by
      simpa [findIdx?_eq_none_iff] using hfind
    rw [filter_eq_nil_iff.mpr (by simpa using hall)]
    dsimp only
    cases hlast : streamMessages.getLast? with
    | none => exact getLast?_eq_none_iff.mp hlast
    | some x =>
      have hx := hall x (mem_of_getLast? hlast)
      rw [if_pos (by simp only [Bool.and_eq_true, decide_eq_true_eq, true_and]; omega)]

/-- Of ascending messages, those up to the event are a beginning. -/
theorem mem_takeWhile_le {last : ℤ} (h : streamMessages.Pairwise (· < ·)) :
    id ∈ (streamMessages.takeWhile fun id : ℕ => (id : ℤ) ≤ last) ↔
      id ∈ streamMessages ∧ (id : ℤ) ≤ last := by
  constructor
  · intro hid
    have hle := mem_takeWhile_imp hid
    exact ⟨(takeWhile_sublist _).subset hid, by simpa using hle⟩
  · rintro ⟨hmem, hle⟩
    induction streamMessages with
    | nil => cases hmem
    | cons x xs ih =>
      obtain ⟨hlt, htail⟩ := pairwise_cons.mp h
      have hx : (x : ℤ) ≤ last := by
        rcases mem_cons.mp hmem with rfl | hmem
        · exact hle
        · have := hlt id hmem
          omega
      rw [takeWhile_cons, if_pos (decide_eq_true hx)]
      rcases mem_cons.mp hmem with rfl | hmem
      · exact mem_cons_self
      · exact mem_cons_of_mem x (ih htail hmem)

@[simp] theorem walk_nil : walk logs [] messageIds = ([], messageIds) := by
  cases logs with
  | nil | cons => rfl

/-- What the walk selects, together with what it leaves if the user is subscribed at last. -/
theorem mem_walk (h : streamMessages.Pairwise (· < ·)) :
    (id ∈ (walk logs streamMessages messageIds).2 ∨
        (final = true ∧ id ∈ (walk logs streamMessages messageIds).1)) ↔
      id ∈ messageIds ∨ (id ∈ streamMessages ∧ subscribedThen logs final id = true) := by
  induction logs generalizing streamMessages messageIds with
  | nil =>
    unfold walk subscribedThen
    rw [find?_nil]
    rw [and_comm]
  | cons log logs ih =>
    unfold walk
    by_cases hempty : streamMessages.isEmpty = true
    · obtain rfl := List.isEmpty_iff.mp hempty
      simp
    · rw [if_neg hempty]
      -- A message up to the event is settled by it; a later one by the rest of the changes.
      have hthen : subscribedThen (log :: logs) final id =
          if (id : ℤ) ≤ log.eventLastMessageId then !log.subscribes
          else subscribedThen logs final id := by
        split
        · next hid => exact subscribedThen_cons_le hid
        · next hid => exact subscribedThen_cons_lt (by omega)
      rw [hthen]
      -- After a subscribe event the walk goes on with the later messages.
      have hskip : (id ∈ (walk logs (skipThrough log.eventLastMessageId streamMessages)
          messageIds).2 ∨ (final = true ∧ id ∈ (walk logs (skipThrough log.eventLastMessageId
            streamMessages) messageIds).1)) ↔
          id ∈ messageIds ∨ (id ∈ streamMessages ∧
            (if (id : ℤ) ≤ log.eventLastMessageId then false
              else subscribedThen logs final id) = true) := by
        rw [ih (skipThrough_eq h ▸ h.filter _), skipThrough_eq h]
        by_cases hid : (id : ℤ) ≤ log.eventLastMessageId
        · simp [Int.not_lt.mpr hid]
        · simp [Int.not_le.mp hid]
      cases htype : log.eventType with
      | subscriptionDeactivated =>
        have hsub : log.subscribes = false := by simp [RealmAuditLog.subscribes, htype]
        rw [ih h, mem_append, mem_takeWhile_le h, hsub]
        by_cases hid : (id : ℤ) ≤ log.eventLastMessageId
        · simp only [hid, if_true, and_true, Bool.not_false]
          tauto
        · simp only [hid, if_false, and_false, or_false]
      | subscriptionActivated | subscriptionCreated =>
        have hsub : log.subscribes = true := by simp [RealmAuditLog.subscribes, htype]
        rw [hsub]
        exact hskip

/-- The messages of a channel that were sent while the user was subscribed are selected. -/
theorem selectMessages_spec (h : streamMessages.Pairwise (· < ·))
    (hlogs : streamMessages ≠ [] → logs ≠ []) :
    ∃ ids, selectMessages logs streamMessages = some ids ∧
      ∀ id, id ∈ ids ↔ id ∈ streamMessages ∧ subscribedAt logs id = true := by
  have hwalk : ∀ id, (id ∈ (walk logs streamMessages []).2 ∨
      (subscribedNow logs = true ∧ id ∈ (walk logs streamMessages []).1)) ↔
      id ∈ streamMessages ∧ subscribedAt logs id = true := by
    intro id
    rw [mem_walk h, subscribedAt]
    simp
  unfold selectMessages
  rcases hw : walk logs streamMessages [] with ⟨rest, messageIds⟩
  rw [hw] at hwalk
  dsimp only at hwalk ⊢
  by_cases hrest : rest.isEmpty = true
  · obtain rfl := List.isEmpty_iff.mp hrest
    refine ⟨messageIds, if_pos rfl, fun id => ?_⟩
    simpa using hwalk id
  · rw [if_neg hrest]
    have hsome : streamMessages ≠ [] := by
      rintro rfl
      rw [walk_nil] at hw
      obtain ⟨rfl, -⟩ := Prod.mk.inj hw
      exact hrest rfl
    cases hlast : logs.getLast? with
    | none => exact absurd (getLast?_eq_none_iff.mp hlast) (hlogs hsome)
    | some log =>
      have hnow : subscribedNow logs = log.subscribes := by
        unfold subscribedNow
        rw [hlast]
      refine ⟨_, rfl, fun id => ?_⟩
      rw [← hwalk id, hnow]
      cases log.subscribes <;> simp

variable {logsOf : ℕ → List RealmAuditLog}

/-- Over several channels, `p` tells which channel a message is in. -/
theorem selectFromStreams_spec {entries : List (ℕ × List ℕ)}
    (h : ∀ e ∈ entries, e.2.Pairwise (· < ·)) (hlogs : ∀ e ∈ entries, e.2 ≠ [] → logsOf e.1 ≠ []) :
    ∃ ids, selectFromStreams logsOf entries = some ids ∧
      ∀ id, id ∈ ids ↔ ∃ e ∈ entries, id ∈ e.2 ∧ subscribedAt (logsOf e.1) id = true := by
  induction entries with
  | nil => exact ⟨[], rfl, by simp⟩
  | cons e entries ih =>
    obtain ⟨ids, hids, hmem⟩ := selectMessages_spec (h e mem_cons_self)
      (hlogs e mem_cons_self)
    obtain ⟨others, hothers, hmemOthers⟩ := ih (fun e he => h e (mem_cons_of_mem _ he))
      fun e he => hlogs e (mem_cons_of_mem _ he)
    refine ⟨ids ++ others, ?_, fun id => ?_⟩
    · unfold selectFromStreams
      rw [hids, hothers]
      rfl
    · rw [mem_append, hmem, hmemOthers]
      simp

/-- The messages that are selected, each once and in ascending order. -/
theorem filterBySubscriptionHistory_spec {all : Index ℕ ℕ}
    (h : ∀ e ∈ all.entries, e.2.Pairwise (· < ·))
    (hlogs : ∀ e ∈ all.entries, e.2 ≠ [] → logsOf e.1 ≠ []) :
    ∃ ids, filterBySubscriptionHistory all logsOf = some ids ∧ ids.Pairwise (· < ·) ∧
      ∀ id, id ∈ ids ↔ ∃ e ∈ all.entries, id ∈ e.2 ∧ subscribedAt (logsOf e.1) id = true := by
  obtain ⟨ids, hids, hmem⟩ := selectFromStreams_spec h hlogs
  refine ⟨ids.dedup.insertionSort (· ≤ ·), ?_, ?_, fun id => ?_⟩
  · unfold filterBySubscriptionHistory
    rw [hids]
    rfl
  · have hsorted := pairwise_insertionSort (· ≤ ·) ids.dedup
    have hnodup : (ids.dedup.insertionSort (· ≤ ·)).Nodup :=
      (perm_insertionSort (· ≤ ·) ids.dedup).nodup_iff.mpr ids.nodup_dedup
    exact (hsorted.and hnodup).imp fun hx => lt_of_le_of_ne hx.1 hx.2
  · rw [mem_insertionSort, mem_dedup, hmem]

end Walk

/-! ## What a change adds to the logs -/

section Changes

variable {log : RealmAuditLog} {logs : List RealmAuditLog} {id : ℕ}

theorem subscribedNow_append : subscribedNow (logs ++ [log]) = log.subscribes := by
  unfold subscribedNow
  rw [getLast?_concat]

/-- A change that is one does not alter what the logs say about the messages before it. -/
theorem subscribedAt_append (hchange : log.subscribes = !subscribedNow logs)
    (hid : (id : ℤ) ≤ log.eventLastMessageId) :
    subscribedAt (logs ++ [log]) id = subscribedAt logs id := by
  unfold subscribedAt subscribedThen
  rw [find?_append]
  cases hfind : logs.find? fun log => (id : ℤ) ≤ log.eventLastMessageId with
  | some first => rfl
  | none =>
    have hfirst : [log].find? (fun log => (id : ℤ) ≤ log.eventLastMessageId) = some log := by
      simp [hid]
    rw [hfirst]
    dsimp only [Option.none_or]
    rw [hchange, Bool.not_not]

/-- A message after all changes was sent as the subscription is now. -/
theorem subscribedAt_of_lt (h : ∀ log ∈ logs, log.eventLastMessageId < id) :
    subscribedAt logs id = subscribedNow logs := by
  have hnone : logs.find? (fun log => (id : ℤ) ≤ log.eventLastMessageId) = none := by
    rw [find?_eq_none]
    intro log hlog hle
    have := h log hlog
    rw [decide_eq_true_eq] at hle
    omega
  unfold subscribedAt subscribedThen
  rw [hnone]

end Changes

end GrowTeam.SoftDeactivation
