/-
# What the queues hold, and what is enqueued when they go

The notices a client would be sent for the messages in its queue, and the exact effect of the
loops that take clients out or mark them offline.
-/
import GrowTeam.Tornado.Indexes
import Mathlib.Data.List.Count

namespace GrowTeam.Tornado

open List Tornado.Server

/-! ## Notices about a message -/

/-- The notice is one for the user about the message, on the queue. -/
def Notice.about (queue : NoticeQueue) (userProfileId messageId : ℕ) (n : Notice) : Bool :=
  decide (n.queue = queue) && decide (n.userProfileId = userProfileId) &&
    decide (n.messageId = messageId)

/-- How many notices were enqueued for the user about the message. -/
def Server.notices (s : Server) (queue : NoticeQueue) (userProfileId messageId : ℕ) : ℕ :=
  s.enqueued.countP (Notice.about queue userProfileId messageId)

/-- The hook would enqueue a notice for the user about the message event. -/
def MessageEvent.missedBy (userProfileId : ℕ) (event : MessageEvent) (queue : NoticeQueue) : Bool :=
  match event.internalData with
  | none => false
  | some internal =>
    (noticeFor (.ofInternalData userProfileId internal) event.senderId event.messageId
      internal.mentionedUserGroupId true ⟨internal.pushNotified, internal.emailNotified⟩
      queue).isSome

section Notices

variable {data : UserMessageNotificationsData} {actingUserId messageId : ℕ} {group : Option ℕ}
  {idle : Bool} {already : Notified} {queue : NoticeQueue}

theorem noticeFor_some {n : Notice}
    (h : noticeFor data actingUserId messageId group idle already queue = some n) :
    n.queue = queue ∧ n.userProfileId = data.userId ∧ n.messageId = messageId := by
  unfold noticeFor at h
  split at h
  · cases h
  · split at h
    · cases h
    · cases h
      exact ⟨rfl, rfl, rfl⟩

/-- At most one notice is enqueued on each queue. -/
theorem countP_enqueued (userProfileId m : ℕ) :
    (maybeEnqueueNotifications data actingUserId messageId group idle already).2.countP
        (Notice.about queue userProfileId m) =
      if data.userId = userProfileId ∧ messageId = m ∧
        (noticeFor data actingUserId messageId group idle already queue).isSome = true
      then 1 else 0 := by
  have hcount : ∀ other : NoticeQueue,
      (noticeFor data actingUserId messageId group idle already other).toList.countP
          (Notice.about queue userProfileId m) =
        if data.userId = userProfileId ∧ messageId = m ∧ other = queue ∧
          (noticeFor data actingUserId messageId group idle already other).isSome = true
        then 1 else 0 := by
    intro other
    cases h : noticeFor data actingUserId messageId group idle already other with
    | none => simp
    | some n =>
      obtain ⟨hqueue, huser, hmessage⟩ := noticeFor_some h
      simp [Notice.about, hqueue, huser, hmessage, countP_cons, and_left_comm, and_comm]
  rw [maybeEnqueueNotifications, countP_append, hcount, hcount]
  cases queue <;> simp

end Notices

theorem countP_missedNotices (event : MessageEvent) (queue : NoticeQueue)
    (user userProfileId m : ℕ) :
    (missedNotices user event).countP (Notice.about queue userProfileId m) =
      if user = userProfileId ∧ event.messageId = m ∧ event.missedBy user queue = true
      then 1 else 0 := by
  unfold missedNotices MessageEvent.missedBy
  cases event.internalData with
  | none => simp
  | some internal => exact countP_enqueued userProfileId m

/-! ## What a client holds -/

namespace ClientDescriptor

/-- The message events in the queue of the client. -/
def heldMessages (c : ClientDescriptor) : List MessageEvent := Server.messages c.eventQueue.merged

/-- The hook would enqueue a notice for the message from the queue of the client. -/
def misses (c : ClientDescriptor) (queue : NoticeQueue) (messageId : ℕ) : Bool :=
  c.heldMessages.any fun event =>
    decide (event.messageId = messageId) && event.missedBy c.userProfileId queue

/-- What the hook enqueues for the client. -/
def missed (c : ClientDescriptor) : List Notice :=
  c.heldMessages.flatMap (missedNotices c.userProfileId)

/-- The client is one for which `receiver_is_off_zulip` finds the user here. -/
def active (c : ClientDescriptor) : Bool := c.acceptsMessages && !c.offline

variable {c : ClientDescriptor}

theorem misses_iff {queue : NoticeQueue} {m : ℕ} :
    c.misses queue m = true ↔
      ∃ event ∈ c.heldMessages, event.messageId = m ∧ event.missedBy c.userProfileId queue = true := by
  unfold misses
  simp

/-- No queue holds a message twice, so that the hook enqueues one notice for it. -/
theorem countP_missed (h : (c.heldMessages.map (·.messageId)).Nodup) (queue : NoticeQueue)
    (userProfileId m : ℕ) :
    c.missed.countP (Notice.about queue userProfileId m) =
      if c.userProfileId = userProfileId ∧ c.misses queue m = true then 1 else 0 := by
  unfold missed misses
  generalize c.heldMessages = held at h ⊢
  induction held with
  | nil => simp
  | cons event events ih =>
    rw [map_cons, nodup_cons] at h
    rw [flatMap_cons, countP_append, countP_missedNotices, ih h.2]
    by_cases hm : event.messageId = m
    · -- The message is not held a second time.
      have hrest : (events.any fun event =>
          decide (event.messageId = m) && event.missedBy c.userProfileId queue) = false := by
        rw [any_eq_false]
        intro other hother
        have hne : other.messageId ≠ m := by
          rintro rfl
          exact h.1 (hm ▸ mem_map_of_mem hother)
        simp [hne]
      simp [hm, hrest]
    · simp [hm]

end ClientDescriptor

/-! ## Messages in queues -/

section Queues

variable {q : EventQueue}

theorem perm_merged (q : EventQueue) : q.merged.Perm (q.virtualEvents.map (·.2) ++ q.queue) :=
  (place_perm _ _).trans ((perm_insertionSort _ _).append_right _)

theorem messages_append (l l' : List (Feed.Item Event)) :
    messages (l ++ l') = messages l ++ messages l' := filterMap_append

theorem messages_perm {l l' : List (Feed.Item Event)} (h : l.Perm l') :
    (messages l).Perm (messages l') := h.filterMap _

theorem messages_settle (q : EventQueue) :
    (messages q.settle.merged).Perm (messages q.merged) :=
  messages_perm (perm_merged q.settle)

/-- Merging virtual events neither adds a message nor takes one out. -/
theorem messages_absorb (event : Event) (id : ℕ) (fullEventType : String)
    (vs : List (String × Feed.Item Event)) :
    messages ((vs.map fun v =>
        if v.1 = fullEventType then (v.1, (⟨id, absorb v.2.body event⟩ : Feed.Item Event)) else v).map
          (·.2)) = messages (vs.map (·.2)) := by
  induction vs with
  | nil => rfl
  | cons v vs ih =>
    obtain ⟨kind, ⟨n, body⟩⟩ := v
    unfold messages at ih ⊢
    rw [map_cons, map_cons, map_cons, filterMap_cons, filterMap_cons, ih]
    by_cases hk : kind = fullEventType
    · rw [if_pos hk]
      cases body <;> cases event <;> rfl
    · rw [if_neg hk]

theorem messages_push_plain (q : EventQueue) (event : PlainEvent) :
    (messages (q.push event.event).merged).Perm (messages q.merged) := by
  refine (messages_perm (perm_merged _)).trans
    (List.Perm.trans ?_ (messages_perm (perm_merged q)).symm)
  have hnone : ∀ n : ℕ, messages [⟨n, event.event⟩] = [] := by
    intro n
    cases event <;> rfl
  unfold EventQueue.push
  cases virtualType event.event with
  | none =>
    rw [messages_append, messages_append, messages_append, hnone, append_nil]
  | some fullEventType =>
    dsimp only
    split
    · rw [messages_append, messages_append, messages_absorb]
    · rw [map_append, messages_append, messages_append, messages_append, map_singleton,
        hnone, append_nil]

theorem messages_push (q : EventQueue) (event : MessageEvent) :
    (messages (q.push (.message event)).merged).Perm
      (messages q.merged ++ [event]) := by
  refine (messages_perm (perm_merged _)).trans ?_
  have hpush : q.push (.message event) = { q with
      nextEventId := q.nextEventId + 1
      queue := q.queue ++ [⟨q.nextEventId, .message event⟩] } := rfl
  rw [hpush, ← append_assoc, messages_append]
  exact (messages_perm (perm_merged q)).symm.append_right _

theorem pruneLoop_spec (throughId : ℤ) (l : List (Feed.Item Event)) (newest : ℤ) :
    ∃ gone, l = gone ++ (EventQueue.pruneLoop throughId l newest).1 ∧
      ∀ e ∈ gone, (e.id : ℤ) ≤ throughId := by
  induction l generalizing newest with
  | nil => exact ⟨[], rfl, fun e he => by cases he⟩
  | cons e es ih =>
    rw [EventQueue.pruneLoop]
    split
    · next hle =>
      obtain ⟨gone, hsplit, hgone⟩ := ih e.id
      refine ⟨e :: gone, congrArg _ hsplit, ?_⟩
      intro f hf
      rcases mem_cons.mp hf with rfl | hf
      · exact hle
      · exact hgone f hf
    · exact ⟨[], rfl, fun f hf => by cases hf⟩

end Queues

/-! ## Taking clients out -/

section Loops

variable {s : Server}

/-- The users of some clients are distinct from those of others by their queue ids. -/
theorem find_of_mem {c : ClientDescriptor} (hdistinct : (ids s.clients).Nodup)
    (hc : c ∈ s.clients) : s.find c.eventQueue.id = some c := by
  obtain ⟨d, hd⟩ := Option.isSome_iff_exists.mp
    (find_isSome.mpr (mem_map_of_mem (f := (·.eventQueue.id)) hc))
  obtain ⟨hmem, hid⟩ := find_some hd
  rw [hd, inj_on_of_nodup_map hdistinct hmem hc hid]

variable (last : ℕ → Bool) (c : ClientDescriptor)

/-- The clients for which the hook enqueues what they hold. -/
def fires : Bool := last c.userProfileId && !c.offline

variable (clients : List ClientDescriptor)

/-- What the hook enqueues for some clients. -/
def firedBy : List Notice :=
  (clients.filter (fires last)).flatMap (·.missed)

theorem firedBy_cons : firedBy last (c :: clients) =
      (if fires last c then c.missed else []) ++ firedBy last clients := by
  unfold firedBy
  by_cases h : fires last c = true
  · rw [if_pos h, filter_cons_of_pos h, flatMap_cons]
  · rw [if_neg h, filter_cons_of_neg h, nil_append]

theorem enqueued_hook (s : Server) (c : ClientDescriptor) (last : ℕ → Bool) :
    (s.missedmessageHook c (last c.userProfileId)).enqueued =
      s.enqueued ++ if fires last c then c.missed else [] := by
  unfold missedmessageHook fires
  split
  · rfl
  · exact (append_nil _).symm

/-- What the hook for a client does to another one: it settles its own queue only. -/
def hooked (c d : ClientDescriptor) : ClientDescriptor :=
  if d.eventQueue.id = c.eventQueue.id ∧ fires last c = true then
    { d with eventQueue := d.eventQueue.settle } else d

theorem hooked_id (c d : ClientDescriptor) : (hooked last c d).eventQueue.id = d.eventQueue.id := by
  unfold hooked
  split <;> rfl

theorem hooked_other {last : ℕ → Bool} {c d : ClientDescriptor}
    (h : d.eventQueue.id ≠ c.eventQueue.id) : hooked last c d = d := if_neg fun hd => h hd.1

/-- A client that is marked offline after its hook. -/
theorem hooked_self :
    { hooked last c c with offline := true } = c.markOffline (last c.userProfileId) := by
  unfold hooked ClientDescriptor.markOffline fires
  by_cases h : (last c.userProfileId && !c.offline) = true
  · rw [if_pos h, if_pos ⟨rfl, h⟩]
  · rw [if_neg h, if_neg fun hc => h hc.2]

theorem clients_hook (s : Server) (c : ClientDescriptor) (last : ℕ → Bool) :
    (s.missedmessageHook c (last c.userProfileId)).clients = s.clients.map (hooked last c) := by
  unfold missedmessageHook hooked fires
  split
  · next h => simp [Server.modify, h]
  · next h => simp [h]

/-- `do_gc_event_queues` takes the clients out, and the hook enqueues what those hold that are
the last of their users. -/
theorem removeEach_run {out : List ClientDescriptor} {s : Server}
    (hdistinct : (ids s.clients).Nodup) (hout : out.Nodup) (hsub : ∀ c ∈ out, c ∈ s.clients) :
    (removeEach (ids out) s).2.clients =
        s.clients.filter (fun c => !(ids out).contains c.eventQueue.id) ∧
      (removeEach (ids out) s).2.enqueued =
        s.enqueued ++ firedBy (fun user => !s.userClients.has user) out := by
  induction out generalizing s with
  | nil =>
    refine ⟨?_, (append_nil _).symm⟩
    exact (filter_eq_self.mpr fun _ _ => rfl).symm
  | cons c out ih =>
    obtain ⟨hnot, hout⟩ := nodup_cons.mp hout
    have hc := hsub c mem_cons_self
    have hsame : ∀ d ∈ s.clients, d.eventQueue.id = c.eventQueue.id → d = c :=
      fun d hd => inj_on_of_nodup_map hdistinct hd hc
    have hids : ids (c :: out) = c.eventQueue.id :: ids out := rfl
    have hclients : (removeOne s c c.eventQueue.id).clients =
        s.clients.filter (·.eventQueue.id ≠ c.eventQueue.id) := by
      show (missedmessageHook _ c _).clients.filter _ = _
      rw [clients_hook _ c fun user => !s.userClients.has user, filter_map]
      have hleft : ∀ d ∈ s.clients.filter (·.eventQueue.id ≠ c.eventQueue.id),
          hooked (fun user => !s.userClients.has user) c d = d :=
        fun d hd => hooked_other (of_decide_eq_true (mem_filter.mp hd).2)
      have hfilter : s.clients.filter ((fun d : ClientDescriptor =>
          decide (d.eventQueue.id ≠ c.eventQueue.id)) ∘
            hooked (fun user => !s.userClients.has user) c) =
          s.clients.filter (·.eventQueue.id ≠ c.eventQueue.id) := by
        apply filter_congr
        intro d _
        rw [Function.comp, hooked_id]
      rw [hfilter]
      exact (map_congr_left (g := id) hleft).trans (map_id _)
    have henqueued : (removeOne s c c.eventQueue.id).enqueued =
        s.enqueued ++ if fires (fun user => !s.userClients.has user) c then c.missed else [] :=
      enqueued_hook _ c fun user => !s.userClients.has user
    have huser : (removeOne s c c.eventQueue.id).userClients = s.userClients := by
      exact (Quiet.missedmessageHook c (!s.userClients.has c.userProfileId)
        { s with webReloadClients := s.webReloadClients.erase c.eventQueue.id }).userClients
    obtain ⟨hrestClients, hrestEnqueued⟩ := ih (s := removeOne s c c.eventQueue.id)
      (by
        rw [hclients]
        exact hdistinct.sublist (filter_sublist.map _)) hout (by
        intro d hd
        rw [hclients]
        refine mem_filter.mpr ⟨hsub d (mem_cons_of_mem _ hd), decide_eq_true ?_⟩
        intro hid
        exact hnot (hsame d (hsub d (mem_cons_of_mem _ hd)) hid ▸ hd))
    rw [hids, removeEach_found _ (find_of_mem hdistinct hc)]
    constructor
    · rw [hrestClients, hclients, filter_filter]
      apply filter_congr
      intro d _
      by_cases hd : d.eventQueue.id = c.eventQueue.id <;> simp [hd]
    · rw [hrestEnqueued, henqueued, huser, firedBy_cons, append_assoc]

/-- `mark_clients_offline` marks the clients, and the hook enqueues what those hold whose users
have no active client left. -/
theorem markEach_run (users : List ℕ) (out : List ClientDescriptor) {s : Server}
    (hdistinct : (ids s.clients).Nodup) (hout : out.Nodup) (hsub : ∀ c ∈ out, c ∈ s.clients) :
    (markEach users (ids out) s).2.clients =
        s.clients.map (fun c => if (ids out).contains c.eventQueue.id then
          c.markOffline (!users.contains c.userProfileId) else c) ∧
      (markEach users (ids out) s).2.enqueued =
        s.enqueued ++ firedBy (fun user => !users.contains user) out := by
  induction out generalizing s with
  | nil =>
    refine ⟨?_, (append_nil _).symm⟩
    exact (map_id _).symm
  | cons c out ih =>
    obtain ⟨hnot, hout⟩ := nodup_cons.mp hout
    have hc := hsub c mem_cons_self
    have hsame : ∀ d ∈ s.clients, d.eventQueue.id = c.eventQueue.id → d = c :=
      fun d hd => inj_on_of_nodup_map hdistinct hd hc
    have hids : ids (c :: out) = c.eventQueue.id :: ids out := rfl
    obtain ⟨next, hnext⟩ : ∃ next, next =
        (s.missedmessageHook c (!users.contains c.userProfileId)).modify c.eventQueue.id
          fun c => { c with offline := true } := ⟨_, rfl⟩
    have hclients : next.clients = s.clients.map fun d =>
        if d.eventQueue.id = c.eventQueue.id then
          d.markOffline (!users.contains d.userProfileId) else d := by
      rw [hnext]
      show (missedmessageHook s c _).clients.map _ = _
      rw [clients_hook s c fun user => !users.contains user, map_map]
      apply map_congr_left
      intro d hd
      rw [Function.comp, hooked_id]
      by_cases hid : d.eventQueue.id = c.eventQueue.id
      · obtain rfl := hsame d hd hid
        rw [if_pos rfl, if_pos rfl]
        exact hooked_self _ d
      · rw [if_neg hid, if_neg hid, hooked_other hid]
    have henqueued : next.enqueued =
        s.enqueued ++ if fires (fun user => !users.contains user) c then c.missed else [] := by
      rw [hnext]
      exact enqueued_hook s c fun user => !users.contains user
    have hid : ∀ d : ClientDescriptor, ∀ last, (d.markOffline last).eventQueue.id = d.eventQueue.id := by
      intro d last
      unfold ClientDescriptor.markOffline
      split <;> rfl
    have hnextIds : ids next.clients = ids s.clients := by
      rw [hclients, ids, map_map]
      apply map_congr_left
      intro d _
      rw [Function.comp]
      split
      · exact hid d _
      · rfl
    have hrest := ih (s := next) (by rwa [hnextIds]) hout (by
        intro d hd
        have hne : d.eventQueue.id ≠ c.eventQueue.id := fun heq =>
          hnot (hsame d (hsub d (mem_cons_of_mem _ hd)) heq ▸ hd)
        rw [hclients]
        exact mem_map.mpr ⟨d, hsub d (mem_cons_of_mem _ hd), if_neg hne⟩)
    rw [hids, markEach, find_of_mem hdistinct hc]
    dsimp only
    rw [← hnext]
    obtain ⟨hrestClients, hrestEnqueued⟩ := hrest
    constructor
    · rw [hrestClients, hclients, map_map]
      apply map_congr_left
      intro d hd
      rw [Function.comp]
      by_cases hdc : d.eventQueue.id = c.eventQueue.id
      · have hlater : (ids out).contains c.eventQueue.id = false := by
          rw [← Bool.not_eq_true, contains_iff_mem]
          intro hmem
          obtain ⟨other, hother, hsameId⟩ := mem_map.mp hmem
          exact hnot (hsame other (hsub other (mem_cons_of_mem _ hother)) hsameId ▸ hother)
        rw [if_pos hdc, hid, hdc, if_neg (by rw [hlater]; exact Bool.false_ne_true),
          if_pos (by simp)]
      · simp [hdc]
    · rw [hrestEnqueued, henqueued, firedBy_cons, append_assoc]

end Loops

end GrowTeam.Tornado
