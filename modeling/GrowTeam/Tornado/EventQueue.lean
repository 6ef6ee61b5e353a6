/-
# The queue of a client (`zerver/tornado/event_queue.py`)

`EventQueue` holds the events a client has not acknowledged.  Events get their identifiers when
they are pushed.  Events that only add or remove a flag of messages are kept apart as virtual
events, one for each kind, and come to their place in the queue when its contents are asked for.
-/
import GrowTeam.Feed
import Mathlib.Data.List.Sort
import Mathlib.Data.List.TakeWhile

namespace GrowTeam.Tornado

open Feed List

/-! ## Events -/

/-- `internal_data` of a message event: what decides about its notifications. -/
structure InternalData where
  senderIsMuted : Bool
  dmPushNotify : Bool
  dmEmailNotify : Bool
  mentionPushNotify : Bool
  mentionEmailNotify : Bool
  topicWildcardMentionPushNotify : Bool
  topicWildcardMentionEmailNotify : Bool
  streamWildcardMentionPushNotify : Bool
  streamWildcardMentionEmailNotify : Bool
  streamPushNotify : Bool
  streamEmailNotify : Bool
  followedTopicPushNotify : Bool
  followedTopicEmailNotify : Bool
  topicWildcardMentionInFollowedTopicPushNotify : Bool
  topicWildcardMentionInFollowedTopicEmailNotify : Bool
  streamWildcardMentionInFollowedTopicPushNotify : Bool
  streamWildcardMentionInFollowedTopicEmailNotify : Bool
  onlinePushEnabled : Bool
  disableExternalNotifications : Bool
  mentionedUserGroupId : Option ℕ
  pushNotified : Bool
  emailNotified : Bool
  deriving DecidableEq

/-- A message event; `body` is the rest of its message. -/
structure MessageEvent where
  messageId : ℕ
  senderId : ℕ
  flags : List String
  body : String
  internalData : Option InternalData
  deriving DecidableEq

/-- An `update_message_flags` event. -/
structure FlagsEvent where
  operation : String
  flag : String
  all : Bool
  messages : List ℕ
  timestamp : Option ℕ
  messageDetails : Option String
  deriving DecidableEq

/-- Any other event, with the keys that are looked at; `body` is the rest of it. -/
structure OtherEvent where
  type : String
  op : Option String := none
  property : Option String := none
  streamId : Option ℕ := none
  /-- `"deactivated" in event["data"]` -/
  deactivated : Bool := false
  body : String := ""
  deriving DecidableEq

inductive Event where
  | message (event : MessageEvent)
  | updateMessageFlags (event : FlagsEvent)
  | other (event : OtherEvent)
  deriving DecidableEq

def Event.type : Event → String
  | .message _ => "message"
  | .updateMessageFlags _ => "update_message_flags"
  | .other event => event.type

def createHeartbeatEvent : Event := .other { type := "heartbeat" }

def computeFullEventType : Event → String
  | .updateMessageFlags event =>
    if event.all then "all_flags/" ++ event.flag ++ "/" ++ event.operation
    else "flags/" ++ event.operation ++ "/" ++ event.flag
  | event => event.type

def startsWith (s start : String) : Bool := start.toList.isPrefixOf s.toList

/-- The kind of a virtual event.  No type of the server starts with `flags/`, so only events
about flags are virtual. -/
def virtualType : Event → Option String
  | .updateMessageFlags event =>
    let fullEventType := computeFullEventType (.updateMessageFlags event)
    if startsWith fullEventType "flags/" && !startsWith fullEventType "flags/remove/read" then
      some fullEventType
    else none
  | _ => none

/-- A virtual event with the values from a later one. -/
def absorb : Event → Event → Event
  | .updateMessageFlags virtual, .updateMessageFlags event =>
    .updateMessageFlags { virtual with
      messages := virtual.messages ++ event.messages
      timestamp := event.timestamp <|> virtual.timestamp }
  | virtual, _ => virtual

/-! ## The queue -/

/-- `newest_pruned_id` is an integer in every queue of this version. -/
structure EventQueue where
  id : String
  queue : List (Item Event)
  nextEventId : ℕ
  newestPrunedId : ℤ
  virtualEvents : List (String × Item Event)

def EventQueue.new (id : String) : EventQueue := ⟨id, [], 0, -1, []⟩

/-- `EventQueue.to_dict`. -/
structure EventQueueDict where
  id : String
  nextEventId : ℕ
  queue : List (Item Event)
  virtualEvents : List (String × Item Event)
  newestPrunedId : ℤ

namespace EventQueue

variable (q : EventQueue)

def toDict : EventQueueDict where
  id := q.id
  nextEventId := q.nextEventId
  queue := q.queue
  virtualEvents := q.virtualEvents
  newestPrunedId := q.newestPrunedId

def fromDict (d : EventQueueDict) : EventQueue :=
  { new d.id with
    nextEventId := d.nextEventId
    newestPrunedId := d.newestPrunedId
    queue := d.queue
    virtualEvents := d.virtualEvents }

@[simp] theorem fromDict_toDict : fromDict q.toDict = q := rfl

def push (event : Event) : EventQueue :=
  let entry : Item Event := ⟨q.nextEventId, event⟩
  match virtualType event with
  | some fullEventType =>
    if q.virtualEvents.any (·.1 = fullEventType) then
      { q with
        nextEventId := q.nextEventId + 1
        virtualEvents := q.virtualEvents.map fun v =>
          if v.1 = fullEventType then (v.1, ⟨entry.id, absorb v.2.body event⟩) else v }
    else
      { q with
        nextEventId := q.nextEventId + 1
        virtualEvents := q.virtualEvents ++ [(fullEventType, entry)] }
  | none => { q with nextEventId := q.nextEventId + 1, queue := q.queue ++ [entry] }

def empty : Bool := q.queue.isEmpty && q.virtualEvents.isEmpty

/-- The loop of `prune`: what is left of the queue, and the newest identifier that was pruned. -/
def pruneLoop (throughId : ℤ) : List (Item Event) → ℤ → List (Item Event) × ℤ
  | [], newest => ([], newest)
  | e :: es, newest => if (e.id : ℤ) ≤ throughId then pruneLoop throughId es e.id else (e :: es, newest)

def prune (throughId : ℤ) : EventQueue :=
  let (queue, newest) := pruneLoop throughId q.queue q.newestPrunedId
  { q with queue := queue, newestPrunedId := newest }

/-- The two loops of `contents`: virtual events go before the first later event. -/
def place : List (Item Event) → List (Item Event) → List (Item Event)
  | virtual, [] => virtual
  | virtual, e :: es =>
    virtual.takeWhile (·.id < e.id) ++ e :: place (virtual.dropWhile (·.id < e.id)) es

/-- What `contents` returns, with the internal data. -/
def merged : List (Item Event) :=
  place ((q.virtualEvents.map (·.2)).insertionSort (·.id ≤ ·.id)) q.queue

/-- What `contents` does to the queue. -/
def settle : EventQueue := { q with virtualEvents := [], queue := q.merged }

end EventQueue

/-- `prune_internal_data` for one event. -/
def pruneInternalData : Event → Event
  | .message event => .message { event with internalData := none }
  | event => event

/-! ## Contents are the queue and the virtual events in order -/

section Place

variable {vs q : List (Item Event)}

theorem place_perm (vs q : List (Item Event)) : (EventQueue.place vs q).Perm (vs ++ q) := by
  induction q generalizing vs with
  | nil => rw [EventQueue.place, append_nil]
  | cons e es ih =>
    refine (((ih _).cons e).append_left _).trans ?_
    refine (perm_middle.symm.append_left _).trans ?_
    rw [← append_assoc, takeWhile_append_dropWhile]

theorem le_of_mem_dropWhile {n : ℕ} (h : vs.Pairwise fun a b => a.id ≤ b.id) :
    ∀ v ∈ vs.dropWhile (·.id < n), n ≤ v.id := by
  induction vs with
  | nil => simp
  | cons w ws ih =>
    obtain ⟨hw, hws⟩ := pairwise_cons.mp h
    by_cases hlt : w.id < n
    · rw [dropWhile_cons_of_pos (by simpa using hlt)]
      exact ih hws
    · rw [dropWhile_cons_of_neg (by simpa using hlt)]
      intro v hv
      rcases mem_cons.mp hv with rfl | hv
      · omega
      · have hle := hw v hv
        omega

theorem place_sorted (hvs : vs.Pairwise fun a b => a.id ≤ b.id)
    (hq : q.Pairwise fun a b => a.id ≤ b.id) :
    (EventQueue.place vs q).Pairwise fun a b => a.id ≤ b.id := by
  induction q generalizing vs with
  | nil => exact hvs
  | cons e es ih =>
    obtain ⟨he, hes⟩ := pairwise_cons.mp hq
    have hlate : ∀ v ∈ EventQueue.place (vs.dropWhile (·.id < e.id)) es, e.id ≤ v.id := by
      intro v hv
      rcases mem_append.mp ((place_perm _ _).subset hv) with hv | hv
      · exact le_of_mem_dropWhile hvs v hv
      · exact he v hv
    rw [EventQueue.place, pairwise_append, pairwise_cons]
    refine ⟨hvs.sublist (takeWhile_sublist _),
      ⟨hlate, ih (hvs.sublist (dropWhile_sublist _)) hes⟩, ?_⟩
    intro v hv w hw
    have hearly : v.id < e.id := by simpa using mem_takeWhile_imp hv
    rcases mem_cons.mp hw with rfl | hw
    · omega
    · have hle := hlate w hw
      omega

/-- Ascending entries are determined by which they are. -/
theorem ascending_unique (hvs : Ascending vs) (hq : Ascending q) (h : vs.Perm q) : vs = q := by
  refine h.eq_of_pairwise ?_ hvs hq
  intro a b _ _ hab hba
  omega

instance entryLeTotal : Std.Total (fun a b : Item Event => a.id ≤ b.id) where
  total a b := Nat.le_total a.id b.id

instance entryLeTrans : IsTrans (Item Event) (fun a b => a.id ≤ b.id) where
  trans _ _ _ := Nat.le_trans

/-- `contents` returns what is in the queue or virtual, in ascending order. -/
theorem merged_eq {q : EventQueue} {l : List (Item Event)} (hq : Ascending q.queue)
    (hl : Ascending l) (h : l.Perm (q.virtualEvents.map (·.2) ++ q.queue)) : q.merged = l := by
  have hperm : q.merged.Perm l :=
    (place_perm _ _).trans (((perm_insertionSort _ _).append_right _).trans h.symm)
  have hsorted : q.merged.Pairwise fun a b => a.id ≤ b.id :=
    place_sorted (pairwise_insertionSort _ _) (hq.imp Nat.le_of_lt)
  have hdistinct : q.merged.Pairwise fun a b => a.id ≠ b.id :=
    (hperm.pairwise_iff fun h => Ne.symm h).mpr (hl.imp Nat.ne_of_lt)
  refine ascending_unique ((hsorted.and hdistinct).imp ?_) hl hperm
  rintro a b ⟨hle, hne⟩
  omega

theorem empty_iff {q : EventQueue} : q.empty = true ↔ q.merged = [] := by
  have hperm : q.merged.Perm (q.virtualEvents.map (·.2) ++ q.queue) :=
    (place_perm _ _).trans ((perm_insertionSort _ _).append_right _)
  rw [← length_eq_zero_iff, hperm.length_eq]
  simp [EventQueue.empty, and_comm]

end Place

/-! ## What a queue holds -/

theorem virtualType_absorb (virtual event : Event) :
    virtualType (absorb virtual event) = virtualType virtual := by
  cases virtual <;> cases event <;> rfl

/-- The queue accepted the events of `log`.  They stand as entries in `feed`, which was handed
out already, and in `pending`; the first `pruned` entries of the feed are gone. -/
structure Holds (q : EventQueue) (log : List Event) (feed pending : List (Item Event))
    (pruned : ℕ) : Prop where
  next : q.nextEventId = log.length
  compacts : Compacts virtualType absorb log (feed ++ pending)
  le : pruned ≤ feed.length
  ascending : Ascending q.queue
  queue : ∃ news, q.queue = feed.drop pruned ++ news ∧
    pending.Perm (q.virtualEvents.map (·.2) ++ news)
  newest : q.newestPrunedId = cursor (feed.take pruned)
  kinds : ∀ v ∈ q.virtualEvents, virtualType v.2.body = some v.1
  distinct : (q.virtualEvents.map (·.1)).Nodup

namespace Holds

variable {q : EventQueue} {log : List Event} {feed pending : List (Item Event)} {pruned : ℕ}

theorem new (id : String) : Holds (.new id) [] [] [] 0 where
  next := rfl
  compacts := .nil
  le := le_rfl
  ascending := .nil
  queue := ⟨[], rfl, .refl _⟩
  newest := rfl
  kinds v hv := by cases hv
  distinct := .nil

theorem merged (h : Holds q log feed pending pruned) :
    q.merged = feed.drop pruned ++ pending := by
  obtain ⟨news, hqueue, hperm⟩ := h.queue
  refine merged_eq h.ascending ?_ ?_
  · exact h.compacts.ascending.sublist ((drop_sublist _ _).append_right _)
  · rw [hqueue]
    refine (hperm.append_left _).trans ?_
    rw [← append_assoc, ← append_assoc]
    exact perm_append_comm.append_right _

theorem settle (h : Holds q log feed pending pruned) :
    Holds q.settle log (feed ++ pending) [] pruned where
  next := h.next
  compacts := by
    rw [append_nil]
    exact h.compacts
  le := by
    have hle := h.le
    rw [List.length_append]
    omega
  ascending := by
    rw [EventQueue.settle, h.merged]
    exact h.compacts.ascending.sublist ((drop_sublist _ _).append_right _)
  queue := ⟨[], by
    rw [EventQueue.settle, h.merged, append_nil, drop_append_of_le_length h.le],
    .refl _⟩
  newest := by
    rw [take_append_of_le_length h.le]
    exact h.newest
  kinds v hv := by cases hv
  distinct := .nil

section Push

variable (h : Holds q log feed pending pruned) (event : Event)

include h in
theorem compacts_push :
    Compacts virtualType absorb (log ++ [event]) (feed ++ (pending ++ [⟨q.nextEventId, event⟩])) := by
  have hpush := h.compacts.push event
  rwa [append_assoc, ← h.next] at hpush

include h in
theorem lt_next : ∀ e ∈ feed ++ pending, e.id < q.nextEventId := by
  rw [h.next]
  exact h.compacts.ascending_lt.2

include h in
/-- An event that is not virtual goes to the end of the queue. -/
theorem push_plain (hkind : virtualType event = none) :
    Holds (q.push event) (log ++ [event]) feed (pending ++ [⟨q.nextEventId, event⟩]) pruned := by
  obtain ⟨news, hqueue, hperm⟩ := h.queue
  have hpush : q.push event = { q with
      nextEventId := q.nextEventId + 1
      queue := q.queue ++ [⟨q.nextEventId, event⟩] } := by
    rw [EventQueue.push, hkind]
  rw [hpush]
  refine ⟨by simp [h.next], h.compacts_push event, h.le, ?_,
    ⟨news ++ [⟨q.nextEventId, event⟩], ?_, ?_⟩, h.newest, h.kinds, h.distinct⟩
  · refine ascending_snoc h.ascending fun e he => h.lt_next e ?_
    rw [hqueue] at he
    refine (mem_append.mp he).elim (fun he => ?_) (fun he => ?_)
    · exact mem_append_left _ (mem_of_mem_drop he)
    · exact mem_append_right _ (hperm.symm.subset (mem_append_right _ he))
  · show q.queue ++ _ = _
    rw [hqueue, append_assoc]
  · rw [← append_assoc]
    exact hperm.append_right _

include h in
/-- The first virtual event of its kind is kept apart. -/
theorem push_first {fullEventType : String} (hkind : virtualType event = some fullEventType)
    (hfirst : ∀ v ∈ q.virtualEvents, v.1 ≠ fullEventType) :
    Holds (q.push event) (log ++ [event]) feed (pending ++ [⟨q.nextEventId, event⟩]) pruned := by
  obtain ⟨news, hqueue, hperm⟩ := h.queue
  have hnone : ¬ (q.virtualEvents.any (·.1 = fullEventType)) = true := by
    rw [any_eq_true]
    rintro ⟨v, hv, hsame⟩
    exact hfirst v hv (of_decide_eq_true hsame)
  have hpush : q.push event = { q with
      nextEventId := q.nextEventId + 1
      virtualEvents := q.virtualEvents ++ [(fullEventType, ⟨q.nextEventId, event⟩)] } := by
    simp only [EventQueue.push, hkind]
    rw [if_neg hnone]
  rw [hpush]
  refine ⟨by simp [h.next], h.compacts_push event, h.le, h.ascending, ⟨news, hqueue, ?_⟩,
    h.newest, ?_, ?_⟩
  · rw [map_append, append_assoc]
    refine (hperm.append_right _).trans ?_
    rw [append_assoc]
    exact perm_append_comm.append_left _
  · rw [forall_mem_append]
    refine ⟨h.kinds, ?_⟩
    intro v hv
    rw [mem_singleton.mp hv]
    exact hkind
  · rw [map_append, nodup_append]
    refine ⟨h.distinct, by simp, ?_⟩
    intro k hk k' hk' hsame
    obtain ⟨v, hv, rfl⟩ := mem_map.mp hk
    exact hfirst v hv (hsame.trans (mem_singleton.mp hk'))

include h in
/-- A later virtual event takes in the one of its kind. -/
theorem push_merged {before behind : List (String × Item Event)} {v : String × Item Event}
    (hkind : virtualType event = some v.1) (hvirtual : q.virtualEvents = before ++ v :: behind) :
    ∃ xs ys, pending = xs ++ v.2 :: ys ∧ Holds (q.push event) (log ++ [event]) feed
      (xs ++ ys ++ [⟨q.nextEventId, absorb v.2.body event⟩]) pruned := by
  obtain ⟨news, hqueue, hperm⟩ := h.queue
  have hv : v ∈ q.virtualEvents := by
    rw [hvirtual]
    simp
  have hdistinct := h.distinct
  rw [hvirtual, map_append, map_cons] at hdistinct
  have hother : ∀ w ∈ before ++ behind, w.1 ≠ v.1 := by
    have hnot := (nodup_middle.mp hdistinct).notMem
    intro w hw hsame
    apply hnot
    rw [← hsame, ← map_append]
    exact mem_map_of_mem hw
  let e : Item Event := ⟨q.nextEventId, absorb v.2.body event⟩
  have hsame : ∀ ws : List (String × Item Event), (∀ w ∈ ws, w.1 ≠ v.1) →
      (ws.map fun w => if w.1 = v.1 then (w.1, (⟨q.nextEventId, absorb w.2.body event⟩ : Item Event))
        else w) = ws := by
    intro ws hws
    rw [map_congr_left fun w hw => if_neg (hws w hw), map_id']
  have hpush : q.push event = { q with
      nextEventId := q.nextEventId + 1, virtualEvents := before ++ (v.1, e) :: behind } := by
    have hany : q.virtualEvents.any (·.1 = v.1) = true :=
      any_eq_true.mpr ⟨v, hv, decide_eq_true rfl⟩
    simp only [EventQueue.push, hkind]
    rw [if_pos hany, hvirtual, map_append, map_cons, if_pos rfl,
      hsame before fun w hw => hother w (mem_append_left _ hw),
      hsame behind fun w hw => hother w (mem_append_right _ hw)]
  -- The entry that was pending for this kind gives way to one at the end.
  obtain ⟨xs, ys, rfl⟩ := append_of_mem
    (hperm.symm.subset (mem_append_left _ (mem_map_of_mem hv)) : v.2 ∈ pending)
  have hmerge : Compacts virtualType absorb (log ++ [event]) (feed ++ (xs ++ ys ++ [e])) := by
    have hold : Compacts virtualType absorb log (feed ++ xs ++ v.2 :: ys) := by
      rw [append_assoc]
      exact h.compacts
    have hmerge := hold.merge event (h.kinds v hv) hkind
    rw [← h.next] at hmerge
    simpa only [append_assoc] using hmerge
  have hrest : (xs ++ ys).Perm (before.map (·.2) ++ (behind.map (·.2) ++ news)) := by
    rw [hvirtual, map_append, map_cons, append_assoc] at hperm
    exact List.Perm.cons_inv (perm_middle.symm.trans (hperm.trans perm_middle))
  rw [hpush]
  refine ⟨xs, ys, rfl, by simp [h.next], hmerge, h.le, h.ascending, ⟨news, hqueue, ?_⟩,
    h.newest, ?_, ?_⟩
  · have hlast : (xs ++ ys ++ [e]).Perm (e :: (xs ++ ys)) := perm_append_comm
    rw [map_append, map_cons]
    refine (hlast.trans ((hrest.cons e).trans perm_middle.symm)).trans ?_
    rw [append_assoc, cons_append]
  · intro w hw
    rcases mem_append.mp hw with hw | hw
    · exact h.kinds w (by rw [hvirtual]; exact mem_append_left _ hw)
    · rcases mem_cons.mp hw with rfl | hw
      · rw [virtualType_absorb]
        exact h.kinds v hv
      · exact h.kinds w (by rw [hvirtual]; simp [hw])
  · rw [map_append, map_cons]
    exact hdistinct

include h in
theorem push_cases :
    Holds (q.push event) (log ++ [event]) feed (pending ++ [⟨q.nextEventId, event⟩]) pruned ∨
      ∃ v ∈ q.virtualEvents, virtualType event = some v.1 ∧ ∃ xs ys, pending = xs ++ v.2 :: ys ∧
        Holds (q.push event) (log ++ [event]) feed
          (xs ++ ys ++ [⟨q.nextEventId, absorb v.2.body event⟩]) pruned := by
  cases hkind : virtualType event with
  | none => exact .inl (h.push_plain event hkind)
  | some fullEventType =>
    by_cases hold : ∃ v ∈ q.virtualEvents, v.1 = fullEventType
    · obtain ⟨v, hv, rfl⟩ := hold
      obtain ⟨before, behind, hvirtual⟩ := append_of_mem hv
      exact .inr ⟨v, hv, rfl, h.push_merged event hkind hvirtual⟩
    · exact .inl (h.push_first event hkind fun v hv hsame => hold ⟨v, hv, hsame⟩)

include h in
theorem push : ∃ pending', Holds (q.push event) (log ++ [event]) feed pending' pruned := by
  rcases h.push_cases event with hpush | ⟨v, -, -, xs, ys, -, hpush⟩
  · exact ⟨_, hpush⟩
  · exact ⟨_, hpush⟩

end Push

theorem pruneLoop_append {c n : ℤ} {l l' : List (Item Event)} (hl : ∀ e ∈ l, (e.id : ℤ) ≤ c)
    (hl' : ∀ e ∈ l', c < e.id) :
    EventQueue.pruneLoop c (l ++ l') n = (l', if l = [] then n else cursor l) := by
  induction l generalizing n with
  | nil =>
    cases l' with
    | nil => rfl
    | cons e es =>
      have hlt := hl' e mem_cons_self
      rw [nil_append, EventQueue.pruneLoop, if_neg (by omega), if_pos rfl]
  | cons e es ih =>
    rw [cons_append, EventQueue.pruneLoop, if_pos (hl e mem_cons_self),
      ih fun f hf => hl f (mem_cons_of_mem _ hf)]
    cases es with
    | nil | cons f fs => simp [cursor]

/-- Pruning through the end of a beginning of the feed. -/
theorem prune (h : Holds q log feed pending pruned) {k : ℕ} (hk : pruned ≤ k)
    (hfeed : k ≤ feed.length) :
    Holds (q.prune (cursor (feed.take k))) log feed pending k := by
  obtain ⟨news, hqueue, hperm⟩ := h.queue
  have hascending : Ascending (feed.take k ++ (feed.drop k ++ pending)) := by
    rw [← append_assoc, take_append_drop]
    exact h.compacts.ascending
  have hsplit : q.queue = (feed.take k).drop pruned ++ (feed.drop k ++ news) := by
    have htake : pruned ≤ (feed.take k).length := by
      rw [length_take]
      omega
    rw [hqueue, ← append_assoc, ← drop_append_of_le_length htake, take_append_drop]
  have hloop := @pruneLoop_append (cursor (feed.take k)) q.newestPrunedId
    ((feed.take k).drop pruned) (feed.drop k ++ news) ?_ ?_
  · have hprune : q.prune (cursor (feed.take k)) =
        { q with queue := feed.drop k ++ news, newestPrunedId := cursor (feed.take k) } := by
      unfold EventQueue.prune
      rw [hsplit, hloop]
      rcases Nat.eq_or_lt_of_le hk with rfl | hlt
      · have hnil : (feed.take pruned).drop pruned = [] :=
          drop_eq_nil_of_le (length_take_le _ _)
        rw [if_pos hnil, h.newest]
      · have hne : (feed.take k).drop pruned ≠ [] := by
          rw [Ne, drop_eq_nil_iff, length_take]
          omega
        rw [if_neg hne, cursor_drop hne]
    rw [hprune]
    refine ⟨h.next, h.compacts, hfeed, ?_, ⟨news, rfl, hperm⟩, rfl, h.kinds, h.distinct⟩
    have hall := h.ascending
    rw [hsplit] at hall
    exact hall.sublist (sublist_append_right _ _)
  · intro e he
    exact le_cursor (pairwise_append.mp hascending).1 (mem_of_mem_drop he)
  · intro e he
    refine cursor_lt hascending ?_
    refine (mem_append.mp he).elim (mem_append_left _) fun hnews => ?_
    exact mem_append_right _ (hperm.symm.subset (mem_append_right _ hnews))

end Holds

/-! # The descriptor of a client -/

/-! ## Timeouts, in seconds -/

def DEFAULT_EVENT_QUEUE_TIMEOUT_SECS : ℕ := 60 * 10

def MAX_QUEUE_TIMEOUT_SECS : ℕ := 7 * 24 * 60 * 60

def EVENT_QUEUE_OFFLINE_TIMEOUT_SECS : ℕ := 60 * 10

def MOBILE_EVENT_QUEUE_TIMEOUT_SECS : ℕ := 12 * 60 * 60

inductive IdleQueueTimeout where
  | unset
  | mobile
  | seconds (n : ℕ)

def IdleQueueTimeout.queueTimeout (idle : IdleQueueTimeout) : ℕ :=
  let queueTimeoutSecs :=
    match idle with
    | .unset => DEFAULT_EVENT_QUEUE_TIMEOUT_SECS
    | .mobile => MOBILE_EVENT_QUEUE_TIMEOUT_SECS
    | .seconds n => n
  min queueTimeoutSecs MAX_QUEUE_TIMEOUT_SECS

/-! ## Descriptors -/

/-- `timeoutHandle` says whether a heartbeat is due. -/
structure ClientDescriptor where
  userProfileId : ℕ
  realmId : ℕ
  currentHandlerId : Option ℕ
  currentClientName : Option String
  eventQueue : EventQueue
  eventTypes : Option (List String)
  lastConnectionTime : ℕ
  allPublicStreams : Bool
  clientTypeName : String
  timeoutHandle : Bool
  narrow : List (List String)
  streamTypingNotifications : Bool
  includeDeactivatedGroups : Bool
  archivedChannels : Bool
  offline : Bool
  queueTimeout : ℕ

/-- `ClientDescriptor.to_dict`, and the `new_queue_data` of a registration. -/
structure ClientDict where
  userProfileId : ℕ
  realmId : ℕ
  eventQueue : EventQueueDict
  queueTimeout : IdleQueueTimeout
  eventTypes : Option (List String)
  lastConnectionTime : ℕ
  allPublicStreams : Bool
  narrow : List (List String)
  clientTypeName : String
  streamTypingNotifications : Bool
  includeDeactivatedGroups : Bool
  archivedChannels : Bool
  offline : Bool

/-- `finish_handler`: the handler that is answered, and the events of the response. -/
structure Response where
  handler : ℕ
  events : List (Item Event)

/-- `contents`, without the internal data. -/
def exposed (entries : List (Item Event)) : List (Item Event) :=
  entries.map fun e => ⟨e.id, pruneInternalData e.body⟩

namespace ClientDescriptor

variable (c : ClientDescriptor)

def toDict : ClientDict where
  userProfileId := c.userProfileId
  realmId := c.realmId
  eventQueue := c.eventQueue.toDict
  queueTimeout := .seconds c.queueTimeout
  eventTypes := c.eventTypes
  lastConnectionTime := c.lastConnectionTime
  allPublicStreams := c.allPublicStreams
  narrow := c.narrow
  clientTypeName := c.clientTypeName
  streamTypingNotifications := c.streamTypingNotifications
  includeDeactivatedGroups := c.includeDeactivatedGroups
  archivedChannels := c.archivedChannels
  offline := c.offline

def fromDict (d : ClientDict) : ClientDescriptor where
  userProfileId := d.userProfileId
  realmId := d.realmId
  currentHandlerId := none
  currentClientName := none
  eventQueue := .fromDict d.eventQueue
  eventTypes := d.eventTypes
  lastConnectionTime := d.lastConnectionTime
  allPublicStreams := d.allPublicStreams
  clientTypeName := d.clientTypeName
  timeoutHandle := false
  narrow := d.narrow
  streamTypingNotifications := d.streamTypingNotifications
  includeDeactivatedGroups := d.includeDeactivatedGroups
  archivedChannels := d.archivedChannels
  offline := d.offline
  queueTimeout := d.queueTimeout.queueTimeout

def disconnectHandler : ClientDescriptor :=
  { c with currentHandlerId := none, currentClientName := none, timeoutHandle := false }

def finishCurrentHandler : Option Response × ClientDescriptor :=
  match c.currentHandlerId with
  | none => (none, c)
  | some handler =>
    (some ⟨handler, exposed c.eventQueue.merged⟩,
      { c with eventQueue := c.eventQueue.settle }.disconnectHandler)

def addEvent (event : Event) : Option Response × ClientDescriptor :=
  { c with eventQueue := c.eventQueue.push event }.finishCurrentHandler

def acceptsEvent (narrowPredicate : List (List String) → MessageEvent → Bool)
    (c : ClientDescriptor) (event : Event) : Bool :=
  let refused :=
    match c.eventTypes with
    | none => false
    | some eventTypes =>
      !eventTypes.contains event.type ||
        (event.type == "muted_topics" && eventTypes.contains "user_topic")
  if refused then false
  else
    match event with
    | .message event => narrowPredicate c.narrow event
    | .updateMessageFlags _ => true
    | .other event =>
      if event.type = "typing" ∧ event.streamId.isSome then c.streamTypingNotifications
      else if event.type = "user_group" ∧ event.op = some "remove" then !c.includeDeactivatedGroups
      else if event.type = "user_group" ∧ event.op = some "update" ∧ event.deactivated then
        c.includeDeactivatedGroups
      else if event.type = "stream" ∧ event.op = some "update" ∧
          event.property = some "is_archived" then
        c.archivedChannels
      else true

def acceptsMessages : Bool :=
  match c.eventTypes with
  | none => true
  | some eventTypes => eventTypes.contains "message"

def expired (now : ℕ) : Bool :=
  c.currentHandlerId.isNone && decide (c.lastConnectionTime + c.queueTimeout ≤ now)

def shouldMarkOffline (now : ℕ) : Bool :=
  c.currentHandlerId.isNone && !c.offline &&
    decide (c.lastConnectionTime + EVENT_QUEUE_OFFLINE_TIMEOUT_SECS ≤ now)

def connectHandler (handler : ℕ) (clientName : String) (now : ℕ) : ClientDescriptor :=
  { c with
    currentHandlerId := some handler
    currentClientName := some clientName
    lastConnectionTime := now
    offline := false
    timeoutHandle := if c.clientTypeName = "API: heartbeat test" then c.timeoutHandle else true }

/-- `timeout_callback`: the heartbeat of a request that waits. -/
def timeoutCallback : Option Response × ClientDescriptor :=
  { c with timeoutHandle := false }.addEvent createHeartbeatEvent

end ClientDescriptor

/-! ## Polls -/

/-- What `fetch_events` returns; the texts are those of its errors. -/
inductive Fetched where
  | error (message : String)
  | response (events : List (Item Event))
  | async

def prunedMessage (eventId : ℤ) : String :=
  "An event newer than " ++ toString eventId ++ " has already been pruned!"

def notInQueueMessage (eventId : ℤ) : String :=
  "Event " ++ toString eventId ++ " was not in this queue"

/-- `fetch_events` for the client of the queue that is named. -/
def ClientDescriptor.fetchEvents (c : ClientDescriptor) (lastEventId : ℤ) (dontBlock : Bool)
    (handler : ℕ) (clientTypeName : String) (now : ℕ) :
    Fetched × Option Response × ClientDescriptor :=
  if lastEventId < c.eventQueue.newestPrunedId then (.error (prunedMessage lastEventId), none, c)
  else
    let pruned := { c with eventQueue := c.eventQueue.prune lastEventId }
    if lastEventId ≠ pruned.eventQueue.newestPrunedId then
      (.error (notInQueueMessage lastEventId), none, pruned)
    else
      let (finished, idle) := pruned.finishCurrentHandler
      if !idle.eventQueue.empty || dontBlock then
        (.response (exposed idle.eventQueue.merged), finished,
          { idle with eventQueue := idle.eventQueue.settle })
      else (.async, finished, idle.connectHandler handler clientTypeName now)

end GrowTeam.Tornado
