/-
# How a step moves what the queues hold

Every step but the arrival of a message only moves what is held: queues stay as they are, are
acknowledged, depart or come up empty.  `Moved` says so for one step, with the clients that
depart in it and those for which the hook enqueues what they hold.
-/
import GrowTeam.Tornado.Departures

namespace GrowTeam.Tornado

open List ClientDescriptor Tornado.Server

/-! ## Clients that stay as they are -/

/-- The client is the same but for its handler and the order of its queue. -/
structure Calm (c d : ClientDescriptor) : Prop where
  registration : d.registration = c.registration
  eventTypes : d.eventTypes = c.eventTypes
  offline : d.offline = c.offline
  held : d.heldMessages.Perm c.heldMessages

namespace Calm

variable {c d e : ClientDescriptor}

theorem refl (c : ClientDescriptor) : Calm c c := ⟨rfl, rfl, rfl, .refl _⟩

theorem trans (h : Calm c d) (h' : Calm d e) : Calm c e where
  registration := h'.registration.trans h.registration
  eventTypes := h'.eventTypes.trans h.eventTypes
  offline := h'.offline.trans h.offline
  held := h'.held.trans h.held

theorem user (h : Calm c d) : d.userProfileId = c.userProfileId :=
  congrArg Registration.userProfileId h.registration

theorem settle (c : ClientDescriptor) : Calm c { c with eventQueue := c.eventQueue.settle } :=
  ⟨rfl, rfl, rfl, messages_settle c.eventQueue⟩

theorem finish (c : ClientDescriptor) : Calm c c.finishCurrentHandler.2 := by
  unfold finishCurrentHandler
  split
  · exact refl c
  · exact ⟨rfl, rfl, rfl, messages_settle c.eventQueue⟩

theorem addEvent (c : ClientDescriptor) (event : PlainEvent) :
    Calm c (c.addEvent event.event).2 := by
  have hpush : Calm c { c with eventQueue := c.eventQueue.push event.event } := by
    refine ⟨?_, rfl, rfl, messages_push_plain c.eventQueue event⟩
    simp [ClientDescriptor.registration, id_push]
  exact hpush.trans (finish _)

end Calm

/-- The clients are the same, and nothing is enqueued. -/
structure Carried (s t : Server) : Prop where
  clients : ∃ f : ClientDescriptor → ClientDescriptor,
    (∀ c, Calm c (f c)) ∧ t.clients = s.clients.map f
  enqueued : t.enqueued = s.enqueued

namespace Carried

variable {s t u : Server}

theorem same (hclients : t.clients = s.clients) (henqueued : t.enqueued = s.enqueued) :
    Carried s t :=
  ⟨⟨id, Calm.refl, hclients.trans (map_id _).symm⟩, henqueued⟩

theorem refl (s : Server) : Carried s s := same rfl rfl

theorem trans (h : Carried s t) (h' : Carried t u) : Carried s u := by
  obtain ⟨⟨f, hf, hclients⟩, henqueued⟩ := h
  obtain ⟨⟨g, hg, hclients'⟩, henqueued'⟩ := h'
  refine ⟨⟨g ∘ f, fun c => (hf c).trans (hg (f c)), ?_⟩, henqueued'.trans henqueued⟩
  rw [hclients', hclients, map_map]

theorem foldl {β : Type} {f : Server → β → Server} (hf : ∀ s b, Carried s (f s b)) (l : List β)
    (s : Server) : Carried s (l.foldl f s) := by
  induction l generalizing s with
  | nil => exact refl s
  | cons b l ih => exact (hf s b).trans (ih (f s b))

theorem modify {f : ClientDescriptor → ClientDescriptor} (hf : ∀ c, Calm c (f c)) (s : Server)
    (queueId : String) : Carried s (s.modify queueId f) := by
  refine ⟨⟨fun c => if c.eventQueue.id = queueId then f c else c, ?_, rfl⟩, rfl⟩
  intro c
  dsimp only
  split
  · exact hf c
  · exact .refl c

theorem act {f : ClientDescriptor → Option Response × ClientDescriptor}
    (hf : ∀ c, Calm c (f c).2) (s : Server) (queueId : String) : Carried s (s.act queueId f) :=
  ⟨(modify (f := fun c => (f c).2) hf s queueId).clients, rfl⟩

variable {form : ClientDescriptor → Option Event}

theorem send
    (hform : ∀ c event, form c = some event → ∃ plain : PlainEvent, event = plain.event)
    (s : Server) (queueId : String) : Carried s (s.send form queueId) := by
  unfold Server.send
  cases hevent : (s.find queueId).bind form with
  | none => exact refl s
  | some event =>
    obtain ⟨c, -, hc⟩ := Option.bind_eq_some_iff.mp hevent
    obtain ⟨plain, rfl⟩ := hform c event hc
    exact act (fun c => Calm.addEvent c plain) s queueId

theorem sendAll
    (hform : ∀ c event, form c = some event → ∃ plain : PlainEvent, event = plain.event)
    (queueIds : List String) (s : Server) : Carried s (s.sendAll form queueIds) :=
  foldl (fun s id => send hform s id) queueIds s

theorem processEvent (users : List ℕ) (form : ClientDescriptor → Option PlainEvent) (s : Server) :
    Carried s (s.processEvent users form) := by
  refine foldl (fun s user => sendAll ?_ (s.userClients.get user) s) users s
  intro c event hevent
  obtain ⟨plain, -, rfl⟩ := Option.map_eq_some_iff.mp hevent
  exact ⟨plain, rfl⟩

variable (narrowPredicate : List (List String) → MessageEvent → Bool)

theorem accepted_plain (event : OtherEvent) (c : ClientDescriptor) (got : Event)
    (h : accepted narrowPredicate (.other event) c = some got) :
    ∃ plain : PlainEvent, got = plain.event := by
  unfold accepted at h
  split at h
  · exact ⟨.other event, (Option.some.inj h).symm⟩
  · cases h

theorem reloadEach (event : OtherEvent) (ids : List String) (s : Server) :
    Carried s (Server.reloadEach narrowPredicate (.other event) ids s).2 := by
  induction ids generalizing s with
  | nil => exact refl s
  | cons id ids ih =>
    rw [Server.reloadEach]
    have herase : Carried s { s with webReloadClients := s.webReloadClients.erase id } :=
      same rfl rfl
    split
    · exact herase
    · exact herase.trans ((send (accepted_plain narrowPredicate event) _ id).trans (ih _))

/-- A process that finds the dump has the clients of the old one. -/
theorem load (s : Server) (readable : Bool) (h : readable = true ∨ s.clients = []) :
    Carried s (s.fresh.loadEventQueues narrowPredicate
      (if readable then s.dumpEventQueues else [])) := by
  have hsame : ∀ (clients : List ClientDescriptor) (t : Server),
      (clients.foldl addToClientDicts t).clients = t.clients ∧
        (clients.foldl addToClientDicts t).enqueued = t.enqueued := by
    intro clients
    induction clients with
    | nil => exact fun t => ⟨rfl, rfl⟩
    | cons c clients ih => exact fun t => ih (t.addToClientDicts c)
  unfold loadEventQueues
  refine ⟨⟨fun c => fromDict c.toDict, ?_, ?_⟩, (hsame _ _).2⟩
  · exact fun c => ⟨rfl, rfl, rfl, .refl _⟩
  · rw [(hsame _ _).1]
    rcases h with h | h
    · rw [if_pos h, dumpEventQueues, map_map]
      rfl
    · cases readable <;> simp [dumpEventQueues, h]

theorem restarted (s : Server) (readable : Bool) (sendReloads : Option Bool) :
    Carried (s.fresh.loadEventQueues narrowPredicate (if readable then s.dumpEventQueues else []))
      (s.restart narrowPredicate readable sendReloads).2 := by
  have hsend := sendAll (accepted_plain narrowPredicate { type := "restart" })
    (Server.ids (s.fresh.loadEventQueues narrowPredicate
      (if readable then s.dumpEventQueues else [])).clients)
    (s.fresh.loadEventQueues narrowPredicate (if readable then s.dumpEventQueues else []))
  cases sendReloads with
  | none => exact hsend
  | some immediate => exact hsend.trans (reloadEach narrowPredicate _ _ _)

end Carried

/-! ## Departures -/

/-- The client is the same but for what it was acknowledged. -/
structure Follows (acked : ℕ → Prop) (c d : ClientDescriptor) : Prop where
  user : d.userProfileId = c.userProfileId
  eventTypes : d.eventTypes = c.eventTypes
  held : d.heldMessages.Subperm c.heldMessages
  kept : ∀ event ∈ c.heldMessages, ¬ acked event.messageId → event ∈ d.heldMessages

theorem Calm.follows {c d : ClientDescriptor} (h : Calm c d) (acked : ℕ → Prop) :
    Follows acked c d :=
  ⟨h.user, h.eventTypes, h.held.subperm, fun _ hevent _ => h.held.symm.subset hevent⟩

/-- What a step does to the clients.  Some depart: they are removed or marked offline.  Some are
notified: the hook enqueues what they hold.  And some messages are acknowledged. -/
structure Moved (departs notifies : ClientDescriptor → Bool) (acked : ℕ → ℕ → Prop)
    (s t : Server) : Prop where
  notices : ∀ queue user m, t.notices queue user m = s.notices queue user m +
    s.clients.countP fun c =>
      notifies c && (decide (c.userProfileId = user) && c.misses queue m)
  back : ∀ d ∈ t.clients, d.heldMessages = [] ∨ ∃ c ∈ s.clients,
    Follows (acked c.userProfileId) c d ∧
      (d.offline = false → c.offline = false ∧ departs c = false)
  forth : ∀ c ∈ s.clients, departs c = false → ∃ d ∈ t.clients,
    Follows (acked c.userProfileId) c d ∧ (d.heldMessages ≠ [] → d.offline = c.offline)
  noneLeft : ∀ c ∈ s.clients, notifies c = true → c.offline = false ∧
    ∀ d ∈ s.clients, d.userProfileId = c.userProfileId → d.active = true → departs d = true

/-- Nobody departs. -/
theorem Carried.moved {s t : Server} (h : Carried s t) (acked : ℕ → ℕ → Prop) :
    Moved (fun _ => false) (fun _ => false) acked s t := by
  obtain ⟨⟨f, hf, hclients⟩, henqueued⟩ := h
  refine ⟨?_, ?_, ?_, fun c _ hc => absurd hc Bool.false_ne_true⟩
  · intro queue user m
    rw [Server.notices, Server.notices, henqueued]
    simp
  · intro d hd
    rw [hclients] at hd
    obtain ⟨c, hc, rfl⟩ := mem_map.mp hd
    exact .inr ⟨c, hc, (hf c).follows _, fun hoff => ⟨(hf c).offline ▸ hoff, rfl⟩⟩
  · intro c hc _
    rw [hclients]
    exact ⟨f c, mem_map_of_mem hc, (hf c).follows _, fun _ => (hf c).offline⟩

/-! ## Which clients depart -/

namespace Server

variable (s : Server)

/-- All clients of the user expire. -/
def lastRemoved (now userProfileId : ℕ) : Bool :=
  s.clients.all fun d => decide (d.userProfileId ≠ userProfileId) || d.expired now

/-- No active client of the user is left. -/
def lastMarked (now userProfileId : ℕ) : Bool :=
  s.clients.all fun d =>
    decide (d.userProfileId ≠ userProfileId) || d.expired now || d.shouldMarkOffline now || !d.active

/-- The clients that a step removes or marks offline. -/
def departs : Request → ClientDescriptor → Bool
  | .gcEventQueues now, c => c.expired now || c.shouldMarkOffline now
  | .cleanup i, c => s.accessed[i]?.any (·.queueId = c.eventQueue.id)
  | .cleanupQueue userProfileId queueId, c =>
    decide (c.eventQueue.id = queueId) && decide (c.userProfileId = userProfileId)
  | .restart readable _, _ => !readable
  | _, _ => false

/-- The clients that depart as the last of their users, so that the hook enqueues what they hold. -/
def notifies : Request → ClientDescriptor → Bool
  | .gcEventQueues now, c =>
    if c.expired now then s.lastRemoved now c.userProfileId && !c.offline
    else c.shouldMarkOffline now && s.lastMarked now c.userProfileId
  | .restart _ _, _ => false
  | request, c =>
    s.departs request c && !c.offline &&
      s.clients.all fun d =>
        decide (d.userProfileId ≠ c.userProfileId) || decide (d.eventQueue.id = c.eventQueue.id)

/-- A poll of the user acknowledges the message in one of the queues. -/
def Acknowledges (request : Request) (userProfileId messageId : ℕ) : Prop :=
  ∃ queueId lastEventId dontBlock handler clientName now client,
    request = .fetch userProfileId queueId lastEventId dontBlock handler clientName now ∧
      s.accessClientDescriptor userProfileId queueId = some client ∧
      ∃ e ∈ client.eventQueue.queue, (e.id : ℤ) ≤ lastEventId ∧
        ∃ event, e.body = .message event ∧ event.messageId = messageId

end Server

/-- No other client has the user. -/
def Server.alone (s : Server) (c : ClientDescriptor) : Bool :=
  s.clients.all fun d =>
    decide (d.userProfileId ≠ c.userProfileId) || decide (d.eventQueue.id = c.eventQueue.id)

section Effects

variable {uuid4 : ℕ → String} {s : Server}

/-- `get_client_descriptors_for_user` finds the clients of the user. -/
theorem Indexed.descriptors (h : Indexed uuid4 s) (userProfileId : ℕ) :
    s.getClientDescriptorsForUser userProfileId =
      s.clients.filter (·.userProfileId = userProfileId) := by
  unfold getClientDescriptorsForUser
  rw [h.consistent.userClients.get, filterMap_map]
  have hfind : ∀ c ∈ s.clients.filter fun c => decide (some c.userProfileId = some userProfileId),
      (s.find ∘ fun c : ClientDescriptor => c.eventQueue.id) c = some c := by
    intro c hc
    exact find_of_mem h.consistent.distinct (mem_of_mem_filter hc)
  rw [filterMap_congr hfind]
  simp

/-- A user is in `user_clients` if and only if the user has a client. -/
theorem Indexed.has_iff (h : Indexed uuid4 s) (userProfileId : ℕ) :
    s.userClients.has userProfileId = true ↔ ∃ c ∈ s.clients, c.userProfileId = userProfileId := by
  have hget := h.consistent.userClients.get userProfileId
  constructor
  · intro hhas
    obtain ⟨l, hl⟩ := Index.has_iff.mp hhas
    have hne : l ≠ [] := h.userClients.full _ hl
    rw [Index.get_of_mem hl] at hget
    rw [hget] at hne
    obtain ⟨id, hid⟩ := exists_mem_of_ne_nil _ hne
    obtain ⟨c, hc, -⟩ := mem_map.mp hid
    obtain ⟨hmem, huser⟩ := mem_filter.mp hc
    exact ⟨c, hmem, Option.some.inj (of_decide_eq_true huser)⟩
  · rintro ⟨c, hc, rfl⟩
    have hmem : c.eventQueue.id ∈ s.userClients.get c.userProfileId := by
      rw [hget]
      exact mem_map.mpr ⟨c, mem_filter.mpr ⟨hc, decide_eq_true rfl⟩, rfl⟩
    have hne : s.userClients.get c.userProfileId ≠ [] := ne_nil_of_mem hmem
    exact Index.has_iff.mpr ⟨_, Index.mem_of_get hne⟩

variable {clients : List ClientDescriptor}

/-- Notices that are enqueued for clients, counted. -/
theorem countP_firedBy (last : ℕ → Bool)
    (hnodup : ∀ c ∈ clients, (c.heldMessages.map (·.messageId)).Nodup) (queue : NoticeQueue)
    (user m : ℕ) :
    (firedBy last clients).countP (Notice.about queue user m) =
      clients.countP fun c =>
        fires last c && (decide (c.userProfileId = user) && c.misses queue m) := by
  induction clients with
  | nil => rfl
  | cons c clients ih =>
    rw [firedBy_cons, countP_append, countP_cons, ih fun d hd => hnodup d (mem_cons_of_mem _ hd)]
    have hone := c.countP_missed (hnodup c mem_cons_self) queue user m
    by_cases hfire : fires last c = true
    · rw [if_pos hfire, hone, Nat.add_comm]
      simp [hfire]
    · rw [Bool.eq_false_iff.mpr hfire]
      simp

theorem firedBy_congr {last last' : ℕ → Bool}
    (h : ∀ c ∈ clients, last c.userProfileId = last' c.userProfileId) :
    firedBy last clients = firedBy last' clients := by
  unfold firedBy
  have hfilter : clients.filter (fires last) = clients.filter (fires last') := by
    apply filter_congr
    intro c hc
    rw [fires, fires, h c hc]
  rw [hfilter]

/-- The ids of clients that satisfy a condition are the ids of those clients. -/
theorem contains_ids (hdistinct : (Server.ids s.clients).Nodup) (p : ClientDescriptor → Bool)
    {c : ClientDescriptor} (hc : c ∈ s.clients) :
    (Server.ids (s.clients.filter p)).contains c.eventQueue.id = p c := by
  rw [Bool.eq_iff_iff, contains_iff_mem]
  constructor
  · intro hmem
    obtain ⟨d, hd, hid⟩ := mem_map.mp hmem
    obtain ⟨hmemd, hp⟩ := mem_filter.mp hd
    rwa [← inj_on_of_nodup_map hdistinct hmemd hc hid]
  · intro hp
    exact mem_map_of_mem (mem_filter.mpr ⟨hc, hp⟩)

/-- What `do_gc_event_queues` does for clients with the keys that are affected. -/
theorem Indexed.doGc_run (h : Indexed uuid4 s) {p : ClientDescriptor → Bool}
    (users realms : List ℕ) (hcover : ∀ c ∈ s.clients, p c = true →
      c.userProfileId ∈ users ∧ c.realmId ∈ realms) :
    (s.doGcEventQueues (Server.ids (s.clients.filter p)) users realms).1 = none ∧
      Indexed uuid4 (s.doGcEventQueues (Server.ids (s.clients.filter p)) users realms).2 ∧
      (s.doGcEventQueues (Server.ids (s.clients.filter p)) users realms).2.clients =
        s.clients.filter (!p ·) ∧
      (s.doGcEventQueues (Server.ids (s.clients.filter p)) users realms).2.enqueued =
        s.enqueued ++ firedBy
          (fun user => s.clients.all fun d => decide (d.userProfileId ≠ user) || p d)
          (s.clients.filter p) := by
  let gone := Server.ids (s.clients.filter p)
  have hdistinct := h.consistent.distinct
  have hclients : (s.clients.filter p).Nodup := (List.Nodup.of_map _ hdistinct).filter p
  have hids : gone.Nodup :=
    hdistinct.sublist (filter_sublist.map _)
  obtain ⟨hok, hindexed, -⟩ := h.doGc gone users realms hids (by
      intro id hid
      rw [← ids_eq]
      obtain ⟨c, hc, rfl⟩ := mem_map.mp hid
      exact mem_map_of_mem (mem_of_mem_filter hc)) (by
      intro r hr hid
      obtain ⟨c, hc, rfl⟩ := mem_map.mp hr
      have hp : gone.contains c.registration.queueId = p c :=
        contains_ids hdistinct p hc
      rw [contains_iff_mem.mpr hid] at hp
      exact hcover c hc hp.symm)
  refine ⟨hok, hindexed, ?_⟩
  obtain ⟨start, hstart⟩ : ∃ start, start = { s with
      userClients := users.foldl
        (fun ix k => ix.discard k gone.contains) s.userClients
      realmClientsAllStreams := realms.foldl
        (fun ix k => ix.discard k gone.contains)
          s.realmClientsAllStreams } := ⟨_, rfl⟩
  have hrun : s.doGcEventQueues gone users realms =
      removeEach gone start := by
    rw [hstart]
    rfl
  have hstartClients : start.clients = s.clients := by rw [hstart]
  have hstartEnqueued : start.enqueued = s.enqueued := by rw [hstart]
  have hstartReload : start.webReloadClients = s.webReloadClients := by rw [hstart]
  rw [hrun] at hindexed ⊢
  obtain ⟨hafter, henqueued⟩ := removeEach_run (s := start) (by rwa [hstartClients]) hclients
    (by
      rw [hstartClients]
      exact fun c hc => mem_of_mem_filter hc)
  have hleft : (removeEach gone start).2.clients =
      s.clients.filter (!p ·) := by
    rw [hafter, hstartClients]
    apply filter_congr
    intro c hc
    rw [contains_ids hdistinct p hc]
  refine ⟨hleft, ?_⟩
  -- The index that the hook asks is the one after the step.
  have huser : (removeEach gone start).2.userClients =
      start.userClients := by
    refine (removeEach_spec hids ?_ ?_).2.userClients
    · intro id hid
      rw [← ids_eq, hstartClients]
      obtain ⟨c, hc, rfl⟩ := mem_map.mp hid
      exact mem_map_of_mem (mem_of_mem_filter hc)
    · rw [hstartReload]
      exact h.reloadOnce
  rw [henqueued]
  congr 1
  apply firedBy_congr
  intro c _
  rw [← huser, Bool.eq_iff_iff, Bool.not_eq_true', ← Bool.not_eq_true, hindexed.has_iff, hleft,
    all_eq_true]
  constructor
  · intro hnone d hd
    by_cases huserd : d.userProfileId = c.userProfileId
    · have hp : p d = true := by
        by_contra hnot
        exact hnone ⟨d, mem_filter.mpr ⟨hd, by simpa using hnot⟩, huserd⟩
      simp [hp]
    · simp [huserd]
  · rintro hall ⟨d, hd, huserd⟩
    obtain ⟨hmem, hnot⟩ := mem_filter.mp hd
    have hp := hall d hmem
    simp [huserd] at hp
    simp [hp] at hnot

theorem Moved.congr {departs departs' notifies notifies' : ClientDescriptor → Bool}
    {acked : ℕ → ℕ → Prop} {t : Server} (h : Moved departs notifies acked s t)
    (hdeparts : ∀ c ∈ s.clients, departs' c = departs c)
    (hnotifies : ∀ c ∈ s.clients, notifies' c = notifies c) : Moved departs' notifies' acked s t where
  notices queue user m := by
    rw [h.notices queue user m]
    congr 1
    apply countP_congr
    intro c hc
    rw [hnotifies c hc]
  back d hd := by
    rcases h.back d hd with hnil | ⟨c, hc, hfollows, hoff⟩
    · exact .inl hnil
    · refine .inr ⟨c, hc, hfollows, ?_⟩
      rw [hdeparts c hc]
      exact hoff
  forth c hc hstay := h.forth c hc (hdeparts c hc ▸ hstay)
  noneLeft c hc hnotify := by
    obtain ⟨hoff, hall⟩ := h.noneLeft c hc (hnotifies c hc ▸ hnotify)
    exact ⟨hoff, fun d hd huser hactive => (hdeparts d hd).trans (hall d hd huser hactive)⟩

/-- Two conditions that exclude each other, counted. -/
theorem countP_add {α : Type} {p q r : α → Bool} (l : List α)
    (hor : ∀ a ∈ l, r a = (p a || q a)) (hnot : ∀ a ∈ l, ¬ (p a = true ∧ q a = true)) :
    l.countP p + l.countP q = l.countP r := by
  induction l with
  | nil => rfl
  | cons a l ih =>
    have hrest := ih (fun b hb => hor b (mem_cons_of_mem _ hb))
      fun b hb => hnot b (mem_cons_of_mem _ hb)
    have ha := hor a mem_cons_self
    have hna := hnot a mem_cons_self
    rw [countP_cons, countP_cons, countP_cons, ← hrest, ha]
    cases hp : p a <;> cases hq : q a
    · simp
    · simp
      omega
    · simp
      omega
    · exact absurd ⟨hp, hq⟩ hna

variable (c : ClientDescriptor)

theorem follows_markOffline (last : Bool) (acked : ℕ → Prop) :
    Follows acked c (c.markOffline last) := by
  have hsettle := (Calm.settle c).follows acked
  unfold markOffline
  split
  · exact ⟨rfl, rfl, hsettle.held, hsettle.kept⟩
  · exact ⟨rfl, rfl, List.Subperm.refl _, fun _ hevent _ => hevent⟩

theorem offline_markOffline (last : Bool) : (c.markOffline last).offline = true := by
  unfold markOffline
  split <;> rfl

/-- The clients and the notices after a sweep. -/
theorem Indexed.gc_run (h : Indexed uuid4 s) (now : ℕ) :
    ∃ last : ℕ → Bool,
      (s.gcEventQueues now).2.clients = (s.clients.filter (!·.expired now)).map (fun c =>
          if c.shouldMarkOffline now then c.markOffline (last c.userProfileId) else c) ∧
        (s.gcEventQueues now).2.enqueued =
          s.enqueued ++ firedBy (s.lastRemoved now) (s.clients.filter (·.expired now)) ++
            firedBy (s.lastMarked now)
              (s.clients.filter fun c => !c.expired now && c.shouldMarkOffline now) := by
  let expired := s.clients.filter (·.expired now)
  have hdistinct := h.consistent.distinct
  obtain ⟨hok, hindexed, hclients, henqueued⟩ := h.doGc_run (p := (·.expired now))
    (expired.map (·.userProfileId))
    (expired.map (·.realmId)) (by
      intro c hc hexpired
      have hmem : c ∈ s.clients.filter (·.expired now) := mem_filter.mpr ⟨hc, hexpired⟩
      exact ⟨mem_map_of_mem hmem, mem_map_of_mem hmem⟩)
  unfold Server.gcEventQueues
  dsimp only
  rcases hgc : s.doGcEventQueues (Server.ids expired)
    (expired.map (·.userProfileId))
    (expired.map (·.realmId)) with ⟨missing, t⟩
  rw [hgc] at hok hindexed hclients henqueued
  subst hok
  rw [hgc]
  dsimp only
  obtain ⟨marked, hmarked⟩ : ∃ marked, marked = s.clients.filter fun c =>
      !c.expired now && c.shouldMarkOffline now := ⟨_, rfl⟩
  have hin : ∀ c ∈ s.clients, (Server.ids marked).contains c.eventQueue.id =
      (!c.expired now && c.shouldMarkOffline now) := by
    intro c hc
    rw [hmarked]
    exact contains_ids hdistinct _ hc
  rw [← hmarked]
  obtain ⟨users, husers⟩ : ∃ users, users = (marked.map (·.userProfileId)).filter fun user =>
      (t.getClientDescriptorsForUser user).any fun c =>
        c.acceptsMessages && !c.offline && !(Server.ids marked).contains c.eventQueue.id := ⟨_, rfl⟩
  have hrun : t.markClientsOffline (Server.ids marked) (marked.map (·.userProfileId)) =
      markEach users (Server.ids marked) t := by
    rw [husers]
    rfl
  rw [hrun]
  obtain ⟨hafter, hfired⟩ := markEach_run users marked (s := t)
    hindexed.consistent.distinct
    (by
      rw [hmarked]
      exact (List.Nodup.of_map _ hdistinct).filter _)
    (by
      intro c hc
      rw [hmarked] at hc
      obtain ⟨hmem, hp⟩ := mem_filter.mp hc
      rw [Bool.and_eq_true] at hp
      rw [hclients]
      exact mem_filter.mpr ⟨hmem, hp.1⟩)
  refine ⟨fun user => !users.contains user, ?_, ?_⟩
  · rw [hafter, hclients]
    apply map_congr_left
    intro c hc
    obtain ⟨hmem, hstay⟩ := mem_filter.mp hc
    rw [hin c hmem, hstay, Bool.true_and]
  · rw [hfired]
    congr 1
    apply firedBy_congr
    intro c hc
    have huser : c.userProfileId ∈ marked.map (·.userProfileId) := mem_map_of_mem hc
    rw [Server.lastMarked, Bool.eq_iff_iff, Bool.not_eq_true', ← Bool.not_eq_true,
      contains_iff_mem, husers, mem_filter, hindexed.descriptors, any_eq_true,
      all_eq_true, hclients]
    constructor
    · intro hnone d hd
      by_contra hleft
      simp only [Bool.or_eq_true, not_or, Bool.not_eq_true, decide_eq_false_iff_not, not_not,
        active, Bool.not_eq_false', Bool.and_eq_true] at hleft
      obtain ⟨⟨⟨huserd, hexpired⟩, hmark⟩, haccepts, hoff⟩ := hleft
      refine hnone ⟨huser, d, mem_filter.mpr ⟨mem_filter.mpr ⟨hd, ?_⟩, ?_⟩, ?_⟩
      · simp [hexpired]
      · simpa using huserd
      · rw [hin d hd]
        simp [haccepts, hoff, hmark]
    · rintro hall ⟨-, d, hd, hactive⟩
      obtain ⟨hmem, huserd⟩ := mem_filter.mp hd
      obtain ⟨hmem, hstay⟩ := mem_filter.mp hmem
      have hd' := hall d hmem
      rw [hin d hmem] at hactive
      rw [Bool.not_eq_true'] at hstay
      simp [huserd, hstay] at hd' hactive
      rcases hd' with hmark | hinactive
      · simp [hmark] at hactive
      · simp [active, hactive.1] at hinactive

/-- A sweep removes clients or marks them offline, and the hook sends what the last ones hold. -/
theorem Indexed.moved_gc (h : Indexed uuid4 s)
    (hnodup : ∀ c ∈ s.clients, (c.heldMessages.map (·.messageId)).Nodup) (now : ℕ)
    (acked : ℕ → ℕ → Prop) :
    Moved (s.departs (.gcEventQueues now)) (s.notifies (.gcEventQueues now)) acked s
      (s.gcEventQueues now).2 := by
  obtain ⟨last, hclients, henqueued⟩ := h.gc_run now
  have hmark : ∀ c : ClientDescriptor, c.shouldMarkOffline now = true → c.offline = false := by
    intro c hc
    simp only [shouldMarkOffline, Bool.and_eq_true, Bool.not_eq_true'] at hc
    exact hc.1.2
  refine ⟨?_, ?_, ?_, ?_⟩
  · intro queue user m
    rw [Server.notices, Server.notices, henqueued, countP_append, countP_append,
      countP_firedBy _ (fun c hc => hnodup c (mem_of_mem_filter hc)),
      countP_firedBy _ (fun c hc => hnodup c (mem_of_mem_filter hc)), countP_filter,
      countP_filter, Nat.add_assoc, countP_add]
    · intro c _
      unfold Server.notifies fires
      cases hexpired : c.expired now with
      | true => simp [hexpired]
      | false =>
        cases hm : c.shouldMarkOffline now with
        | true => simp [hexpired, hm, hmark c hm]
        | false => simp [hexpired, hm]
    · rintro c _ ⟨hp, hq⟩
      cases hexpired : c.expired now <;> simp [hexpired] at hp hq
  · intro d hd
    rw [hclients] at hd
    obtain ⟨c, hc, rfl⟩ := mem_map.mp hd
    obtain ⟨hmem, hstay⟩ := mem_filter.mp hc
    refine .inr ⟨c, hmem, ?_, ?_⟩
    · split
      · exact follows_markOffline c _ _
      · exact (Calm.refl c).follows _
    · split
      · intro hoff
        rw [offline_markOffline] at hoff
        cases hoff
      · next hnot =>
        intro hoff
        refine ⟨hoff, ?_⟩
        rw [Bool.not_eq_true'] at hstay
        simp [Server.departs, hstay, hnot]
  · intro c hc hstay
    rw [Server.departs, Bool.or_eq_false_iff] at hstay
    obtain ⟨hexpired, hnot⟩ := hstay
    refine ⟨c, ?_, (Calm.refl c).follows _, fun _ => rfl⟩
    rw [hclients]
    refine mem_map.mpr ⟨c, mem_filter.mpr ⟨hc, ?_⟩, ?_⟩
    · simp [hexpired]
    · rw [hnot]
      rfl
  · intro c hc hnotify
    have hnotify : (if c.expired now then s.lastRemoved now c.userProfileId && !c.offline
        else c.shouldMarkOffline now && s.lastMarked now c.userProfileId) = true := hnotify
    by_cases hexpired : c.expired now = true
    · rw [if_pos hexpired, Bool.and_eq_true, Server.lastRemoved, all_eq_true] at hnotify
      refine ⟨by simpa using hnotify.2, fun d hd huser _ => ?_⟩
      have hall := hnotify.1 d hd
      simp only [huser, ne_eq, not_true_eq_false, decide_false, Bool.false_or] at hall
      simp [Server.departs, hall]
    · rw [if_neg hexpired, Bool.and_eq_true, Server.lastMarked, all_eq_true] at hnotify
      refine ⟨hmark c hnotify.1, fun d hd huser hactive => ?_⟩
      have hall := hnotify.2 d hd
      simp only [huser, hactive, ne_eq, not_true_eq_false, decide_false, Bool.false_or,
        Bool.not_true, Bool.or_false] at hall
      simpa [Server.departs] using hall

/-- The clients with the id of a queue. -/
theorem filter_id (hdistinct : (Server.ids s.clients).Nodup) {queueId : String}
    {c : ClientDescriptor} (hfind : s.find queueId = some c) :
    s.clients.filter (·.eventQueue.id = queueId) = [c] := by
  obtain ⟨hmem, hid⟩ := find_some hfind
  have hall : ∀ d ∈ s.clients.filter (·.eventQueue.id = queueId), d = c := by
    intro d hd
    obtain ⟨hd, hdid⟩ := mem_filter.mp hd
    exact inj_on_of_nodup_map hdistinct hd hmem ((of_decide_eq_true hdid).trans hid.symm)
  have hnodup : (s.clients.filter (·.eventQueue.id = queueId)).Nodup :=
    (List.Nodup.of_map _ hdistinct).filter _
  have hin : c ∈ s.clients.filter (·.eventQueue.id = queueId) :=
    mem_filter.mpr ⟨hmem, decide_eq_true hid⟩
  obtain ⟨l, hl⟩ : ∃ l, l = s.clients.filter (·.eventQueue.id = queueId) := ⟨_, rfl⟩
  rw [← hl] at hall hnodup hin ⊢
  cases l with
  | nil => cases hin
  | cons d l =>
    cases l with
    | nil => rw [hall d mem_cons_self]
    | cons e l =>
      have hsame : d = e := (hall d mem_cons_self).trans
        (hall e (mem_cons_of_mem _ mem_cons_self)).symm
      rw [hsame] at hnodup
      exact absurd mem_cons_self (nodup_cons.mp hnodup).1

/-- A cleanup takes out the client and sends what it holds if it is the last of its user. -/
theorem Indexed.moved_cleanup (h : Indexed uuid4 s)
    (hnodup : ∀ c ∈ s.clients, (c.heldMessages.map (·.messageId)).Nodup) (client : Accessed)
    (hclient : ∀ r ∈ s.registrations, r.queueId = client.queueId →
      r.userProfileId = client.userProfileId ∧ r.realmId = client.realmId)
    (acked : ℕ → ℕ → Prop) :
    Moved (fun c => decide (c.eventQueue.id = client.queueId))
      (fun c => decide (c.eventQueue.id = client.queueId) && !c.offline && s.alone c)
      acked s (s.cleanup client).2 := by
  have hdistinct := h.consistent.distinct
  have hquiet := Quiet.act (fun c => c.registration_finish) s client.queueId
  have hcarried := Carried.act Calm.finish s client.queueId
  have hfinished := h.quiet hquiet
  unfold Server.cleanup
  cases hfind : s.find client.queueId with
  | none =>
    have hnone : ∀ c ∈ s.clients, c.eventQueue.id ≠ client.queueId := by
      rintro c hc hid
      rw [← hid, find_of_mem hdistinct hc] at hfind
      cases hfind
    have hgone : (s.act client.queueId (·.finishCurrentHandler)).find client.queueId = none := by
      have hnot := @find_isSome s client.queueId
      rw [hfind, ← hquiet.ids, ← find_isSome] at hnot
      simpa using hnot
    have hgc : Carried (s.act client.queueId (·.finishCurrentHandler))
        ((s.act client.queueId (·.finishCurrentHandler)).doGcEventQueues [client.queueId]
          [client.userProfileId] [client.realmId]).2 := by
      unfold doGcEventQueues
      rw [removeEach_missing _ (by exact hgone)]
      exact .same rfl rfl
    refine ((hcarried.trans hgc).moved acked).congr ?_ ?_
    · exact fun c hc => decide_eq_false (hnone c hc)
    · intro c hc
      simp [hnone c hc]
  | some c =>
    obtain ⟨hmem, hid⟩ := find_some hfind
    obtain ⟨t, ht⟩ : ∃ t, t = s.act client.queueId (·.finishCurrentHandler) := ⟨_, rfl⟩
    have htclients : t.clients = s.clients.map fun d =>
        if d.eventQueue.id = client.queueId then d.finishCurrentHandler.2 else d := by
      rw [ht]
      rfl
    have hfinishId : ∀ d : ClientDescriptor,
        d.finishCurrentHandler.2.eventQueue.id = d.eventQueue.id :=
      fun d => congrArg Registration.queueId d.registration_finish
    rw [← ht] at hfinished ⊢
    -- The descriptor as it is when its queue is removed.
    have hfiltered : t.clients.filter (·.eventQueue.id = client.queueId) =
        [c.finishCurrentHandler.2] := by
      refine filter_id hfinished.consistent.distinct ?_
      have hin : c.finishCurrentHandler.2 ∈ t.clients := by
        rw [htclients]
        exact mem_map.mpr ⟨c, hmem, if_pos hid⟩
      have hfound := find_of_mem hfinished.consistent.distinct hin
      rwa [hfinishId, hid] at hfound
    have hids : Server.ids (t.clients.filter (·.eventQueue.id = client.queueId)) =
        [client.queueId] := by
      rw [hfiltered, Server.ids, map_singleton, hfinishId, hid]
    obtain ⟨hok, -, hclients, henqueued⟩ := hfinished.doGc_run
      (p := fun d => decide (d.eventQueue.id = client.queueId))
      [client.userProfileId] [client.realmId] (by
        intro d hd hdid
        have hd' : d.registration ∈ s.registrations := by
          rw [← hquiet.registrations, ← ht]
          exact mem_map_of_mem hd
        obtain ⟨huser, hrealm⟩ := hclient d.registration hd' (of_decide_eq_true hdid)
        exact ⟨mem_singleton.mpr huser, mem_singleton.mpr hrealm⟩)
    rw [hids] at hclients henqueued
    have hcalm := Calm.finish c
    have hleft : (t.doGcEventQueues [client.queueId] [client.userProfileId]
        [client.realmId]).2.clients = s.clients.filter fun d => !decide (d.eventQueue.id = client.queueId) := by
      rw [hclients, htclients, filter_map]
      have hfilter : s.clients.filter ((fun d : ClientDescriptor =>
          !decide (d.eventQueue.id = client.queueId)) ∘ fun d =>
            if d.eventQueue.id = client.queueId then d.finishCurrentHandler.2 else d) =
          s.clients.filter fun d => !decide (d.eventQueue.id = client.queueId) := by
        apply filter_congr
        intro d _
        rw [Function.comp]
        split
        · rw [hfinishId]
        · rfl
      rw [hfilter]
      refine (map_congr_left (g := id) ?_).trans (map_id _)
      intro d hd
      have hne := (mem_filter.mp hd).2
      rw [Bool.not_eq_true', decide_eq_false_iff_not] at hne
      exact if_neg hne
    have hlast : ∀ user, (t.clients.all fun d => decide (d.userProfileId ≠ user) ||
        decide (d.eventQueue.id = client.queueId)) = s.clients.all fun d =>
          decide (d.userProfileId ≠ user) || decide (d.eventQueue.id = client.queueId) := by
      intro user
      rw [htclients, all_map]
      apply all_congr rfl
      intro d
      rw [Function.comp]
      split
      · rw [hfinishId, (Calm.finish d).user]
      · rfl
    refine ⟨?_, ?_, ?_, ?_⟩
    · intro queue user m
      have hmisses : c.finishCurrentHandler.2.misses queue m = c.misses queue m := by
        rw [Bool.eq_iff_iff, misses_iff, misses_iff, hcalm.user]
        simp only [hcalm.held.mem_iff]
      rw [Server.notices, henqueued, hfiltered, countP_append, countP_firedBy]
      · have henq : t.enqueued = s.enqueued := by
          rw [ht]
          rfl
        rw [henq]
        have hcount : s.clients.countP (fun d => decide (d.eventQueue.id = client.queueId) &&
            !d.offline && s.alone d && (decide (d.userProfileId = user) && d.misses queue m)) =
            [c].countP fun d => !d.offline && s.alone d &&
              (decide (d.userProfileId = user) && d.misses queue m) := by
          rw [← filter_id hdistinct hfind, countP_filter]
          apply countP_congr
          intro d _
          by_cases hd : d.eventQueue.id = client.queueId <;> simp [hd]
        rw [hcount]
        congr 1
        have hfire : fires (fun user => t.clients.all fun d => decide (d.userProfileId ≠ user) ||
            decide (d.eventQueue.id = client.queueId)) c.finishCurrentHandler.2 =
              (!c.offline && s.alone c) := by
          unfold fires alone
          dsimp only
          rw [hlast, hcalm.offline, hcalm.user, hid, Bool.and_comm]
        rw [countP_singleton, countP_singleton, hmisses, hcalm.user, hfire]
      · intro d hd
        rw [mem_singleton.mp hd]
        exact (hcalm.held.map _).nodup_iff.mpr (hnodup c hmem)
    · intro d hd
      rw [hleft] at hd
      obtain ⟨hd, hne⟩ := mem_filter.mp hd
      refine .inr ⟨d, hd, (Calm.refl d).follows _, fun hoff => ⟨hoff, by simpa using hne⟩⟩
    · intro d hd hstay
      refine ⟨d, ?_, (Calm.refl d).follows _, fun _ => rfl⟩
      rw [hleft]
      exact mem_filter.mpr ⟨hd, by simpa using hstay⟩
    · intro d hd hnotify
      rw [Bool.and_eq_true, Bool.and_eq_true, alone, all_eq_true] at hnotify
      obtain ⟨⟨hdid, hoff⟩, hall⟩ := hnotify
      refine ⟨by simpa using hoff, fun e he huser _ => ?_⟩
      have hsame := hall e he
      simp only [huser, ne_eq, not_true_eq_false, decide_false, Bool.false_or] at hsame
      rw [of_decide_eq_true hsame]
      exact hdid

/-! ## Polls -/

/-- The message is one that a poll through the event id acknowledges. -/
def ClientDescriptor.prunes (throughId : ℤ) (messageId : ℕ) : Prop :=
  ∃ e ∈ c.eventQueue.queue, (e.id : ℤ) ≤ throughId ∧
    ∃ event, e.body = .message event ∧ event.messageId = messageId

theorem follows_prune (throughId : ℤ) :
    Follows (c.prunes throughId) c { c with eventQueue := c.eventQueue.prune throughId } := by
  obtain ⟨gone, hsplit, hgone⟩ :=
    pruneLoop_spec throughId c.eventQueue.queue c.eventQueue.newestPrunedId
  have hheld : c.heldMessages.Perm
      (messages (c.eventQueue.virtualEvents.map (·.2)) ++
        (messages gone ++ messages (c.eventQueue.prune throughId).queue)) := by
    refine (messages_perm (perm_merged c.eventQueue)).trans ?_
    rw [hsplit, messages_append, messages_append]
    exact .refl _
  have hafter : (messages (c.eventQueue.prune throughId).merged).Perm
      (messages (c.eventQueue.virtualEvents.map (·.2)) ++
        messages (c.eventQueue.prune throughId).queue) := by
    refine (messages_perm (perm_merged _)).trans ?_
    rw [messages_append]
    exact .refl _
  refine ⟨rfl, rfl, ?_, ?_⟩
  · refine (hafter.subperm.trans (List.Sublist.subperm ?_)).trans hheld.symm.subperm
    exact (sublist_append_right _ _).append_left _
  · intro event hevent hkept
    refine hafter.symm.subset ?_
    rcases mem_append.mp (hheld.subset hevent) with hevent | hevent
    · exact mem_append_left _ hevent
    · rcases mem_append.mp hevent with hevent | hevent
      · obtain ⟨e, he, hbody⟩ := mem_filterMap.mp hevent
        refine absurd ⟨e, ?_, hgone e he, event, ?_, rfl⟩ hkept
        · rw [hsplit]
          exact mem_append_left _ he
        · split at hbody
          · next other hother => rw [hother, Option.some.inj hbody]
          · cases hbody
      · exact mem_append_right _ hevent

theorem Follows.calm {acked : ℕ → Prop} {c d e : ClientDescriptor} (h : Follows acked c d)
    (h' : Calm d e) : Follows acked c e where
  user := h'.user.trans h.user
  eventTypes := h'.eventTypes.trans h.eventTypes
  held := h'.held.subperm.trans h.held
  kept event hevent hkept := h'.held.symm.subset (h.kept event hevent hkept)

/-- A poll acknowledges what it names, and a client that waits holds nothing. -/
theorem follows_fetch (lastEventId : ℤ) (dontBlock : Bool) (handler : ℕ)
    (clientName : String) (now : ℕ) : Follows (c.prunes lastEventId) c
        (c.fetchEvents lastEventId dontBlock handler clientName now).2.2 ∧
      ((c.fetchEvents lastEventId dontBlock handler clientName now).2.2.heldMessages ≠ [] →
        (c.fetchEvents lastEventId dontBlock handler clientName now).2.2.offline = c.offline) := by
  unfold fetchEvents
  by_cases hold : lastEventId < c.eventQueue.newestPrunedId
  · rw [if_pos hold]
    exact ⟨(Calm.refl c).follows _, fun _ => rfl⟩
  · rw [if_neg hold]
    have hprune := follows_prune c lastEventId
    dsimp only
    by_cases hmissing : lastEventId ≠ (c.eventQueue.prune lastEventId).newestPrunedId
    · rw [if_pos hmissing]
      exact ⟨hprune, fun _ => rfl⟩
    · rw [if_neg hmissing]
      have hcalm := Calm.finish { c with eventQueue := c.eventQueue.prune lastEventId }
      have hidle := hprune.calm hcalm
      obtain ⟨idle, hidleEq⟩ : ∃ idle, idle = finishCurrentHandler
        { c with eventQueue := c.eventQueue.prune lastEventId } := ⟨_, rfl⟩
      rw [← hidleEq] at hcalm hidle ⊢
      by_cases hanswer : (!idle.2.eventQueue.empty || dontBlock) = true
      · rw [if_pos hanswer]
        exact ⟨hidle.calm (.settle idle.2), fun _ => hcalm.offline⟩
      · rw [if_neg hanswer]
        have hnil : idle.2.heldMessages = [] := by
          have hempty : idle.2.eventQueue.empty = true := by
            cases h : idle.2.eventQueue.empty with
            | true => rfl
            | false => simp [h] at hanswer
          rw [heldMessages, empty_iff.mp hempty]
          rfl
        refine ⟨{ hidle with }, ?_⟩
        intro hne
        exact absurd hnil hne

theorem Indexed.moved_fetch (h : Indexed uuid4 s) (userProfileId : ℕ) (queueId : String)
    (lastEventId : ℤ) (dontBlock : Bool) (handler : ℕ) (clientName : String) (now : ℕ) :
    Moved (fun _ => false) (fun _ => false)
      (s.Acknowledges (.fetch userProfileId queueId lastEventId dontBlock handler clientName now)) s
      (s.fetch userProfileId queueId lastEventId dontBlock handler clientName now).2 := by
  unfold Server.fetch
  cases hfind : s.accessClientDescriptor userProfileId queueId with
  | none => exact (Carried.refl s).moved _
  | some client =>
    obtain ⟨hfound, huser⟩ := Option.filter_eq_some_iff.mp hfind
    obtain ⟨hmem, hid⟩ := find_some hfound
    have hclient : ∀ c ∈ s.clients, c.eventQueue.id = queueId → c = client := fun c hc hcid =>
      inj_on_of_nodup_map h.consistent.distinct hc hmem (hcid.trans hid.symm)
    -- What the poll prunes from the queue is acknowledged for its user.
    have hstep : ∀ c ∈ s.clients, c.eventQueue.id = queueId →
        Follows (s.Acknowledges
          (.fetch userProfileId queueId lastEventId dontBlock handler clientName now)
          c.userProfileId) c
          (c.fetchEvents lastEventId dontBlock handler clientName now).2.2 := by
      intro c hc hcid
      obtain rfl := hclient c hc hcid
      obtain ⟨hfollows, -⟩ := follows_fetch c lastEventId dontBlock handler clientName now
      refine { hfollows with kept := ?_ }
      intro event hevent hkept
      refine hfollows.kept event hevent fun hprunes => hkept ?_
      refine ⟨queueId, lastEventId, dontBlock, handler, clientName, now, c, ?_, ?_, hprunes⟩
      · rw [of_decide_eq_true huser]
      · rw [of_decide_eq_true huser]
        exact hfind
    refine ⟨?_, ?_, ?_, fun c _ hc => absurd hc Bool.false_ne_true⟩
    · intro queue user m
      simp [Server.notices, Server.act, Server.modify]
    · intro d hd
      obtain ⟨c, hc, rfl⟩ := mem_map.mp hd
      by_cases hcid : c.eventQueue.id = queueId
      · rw [if_pos hcid]
        by_cases hnil : (c.fetchEvents lastEventId dontBlock handler clientName
            now).2.2.heldMessages = []
        · exact .inl hnil
        · refine .inr ⟨c, hc, hstep c hc hcid, ?_⟩
          rw [(follows_fetch c lastEventId dontBlock handler clientName now).2 hnil]
          exact fun hoff => ⟨hoff, rfl⟩
      · rw [if_neg hcid]
        exact .inr ⟨c, hc, (Calm.refl c).follows _, fun hoff => ⟨hoff, rfl⟩⟩
    · intro c hc _
      refine ⟨_, mem_map_of_mem hc, ?_⟩
      by_cases hcid : c.eventQueue.id = queueId
      · rw [if_pos hcid]
        exact ⟨hstep c hc hcid, (follows_fetch c lastEventId dontBlock handler clientName now).2⟩
      · rw [if_neg hcid]
        exact ⟨(Calm.refl c).follows _, fun _ => rfl⟩

/-! ## Every step but the arrival of a message -/

/-- A new queue holds nothing. -/
theorem moved_allocate (s : Server) (newQueueData : ClientDict) (acked : ℕ → ℕ → Prop) :
    Moved (fun _ => false) (fun _ => false) acked s
      (s.allocateClientDescriptor uuid4 newQueueData) := by
  refine ⟨?_, ?_, ?_, fun c _ hc => absurd hc Bool.false_ne_true⟩
  · intro queue user m
    simp [Server.notices, allocateClientDescriptor, addToClientDicts]
  · intro d hd
    rcases mem_append.mp hd with hd | hd
    · exact .inr ⟨d, hd, (Calm.refl d).follows _, fun hoff => ⟨hoff, rfl⟩⟩
    · rw [mem_singleton.mp hd]
      exact .inl rfl
  · intro c hc _
    exact ⟨c, mem_append_left _ hc, (Calm.refl c).follows _, fun _ => rfl⟩

theorem moved_restart (narrowPredicate : List (List String) → MessageEvent → Bool) (s : Server)
    (readable : Bool) (sendReloads : Option Bool) (acked : ℕ → ℕ → Prop) :
    Moved (fun _ => !readable) (fun _ => false) acked s
      (s.restart narrowPredicate readable sendReloads).2 := by
  have hrestarted := Carried.restarted narrowPredicate s readable sendReloads
  cases readable with
  | true => exact ((Carried.load narrowPredicate s true (.inl rfl)).trans hrestarted).moved acked
  | false =>
    -- The dump is lost, and the new process has no clients.
    obtain ⟨⟨f, -, hclients⟩, henqueued⟩ := hrestarted
    obtain ⟨⟨g, -, hnone⟩, hsame⟩ := Carried.load narrowPredicate
      { s with clients := [] } false (.inr rfl)
    have hempty : (s.restart narrowPredicate false sendReloads).2.clients = [] := by
      rw [hclients]
      exact congrArg _ hnone
    refine ⟨?_, ?_, fun c _ hstay => absurd hstay.symm Bool.false_ne_true,
      fun c _ hc => absurd hc Bool.false_ne_true⟩
    · intro queue user m
      rw [Server.notices, henqueued, Server.notices]
      have hsame' : (s.fresh.loadEventQueues narrowPredicate []).enqueued = s.enqueued := hsame
      simp [hsame']
    · intro d hd
      rw [hempty] at hd
      cases hd

/-- **One step.**  Every request but a message moves what is held. -/
theorem Indexed.moved_serve (lower : String → String)
    (narrowPredicate : List (List String) → MessageEvent → Bool) (h : Indexed uuid4 s)
    (hnodup : ∀ c ∈ s.clients, (c.heldMessages.map (·.messageId)).Nodup) {request : Request}
    (hrequest : ∀ template users, request ≠ .message template users) :
    Moved (s.departs request) (s.notifies request) (s.Acknowledges request) s
      (serve uuid4 lower narrowPredicate request s).2 := by
  have hnone : ∀ c ∈ s.clients, (false && !c.offline && s.alone c) = false := fun _ _ => rfl
  cases request with
  | allocate newQueueData => exact (moved_allocate s newQueueData _).congr (fun _ _ => rfl) hnone
  | message template users => exact absurd rfl (hrequest template users)
  | event users form =>
    exact ((Carried.processEvent users form s).moved _).congr (fun _ _ => rfl) hnone
  | fetch userProfileId queueId lastEventId dontBlock handler clientName now =>
    exact (h.moved_fetch userProfileId queueId lastEventId dontBlock handler clientName
      now).congr (fun _ _ => rfl) hnone
  | disconnect queueId =>
    exact ((Carried.modify (f := (·.disconnectHandler)) (fun c => ⟨rfl, rfl, rfl, .refl _⟩)
      s queueId).moved _).congr (fun _ _ => rfl) hnone
  | heartbeat queueId =>
    refine ((Carried.act ?_ s queueId).moved _).congr (fun _ _ => rfl) hnone
    intro c
    split
    · have hcalm := Calm.addEvent { c with timeoutHandle := false } (.other { type := "heartbeat" })
      exact { hcalm with }
    · exact Calm.refl c
  | gcEventQueues now => exact h.moved_gc hnodup now _
  | access userProfileId queueId =>
    rw [serve]
    cases s.accessClientDescriptor userProfileId queueId with
    | none => exact ((Carried.refl s).moved _).congr (fun _ _ => rfl) hnone
    | some client =>
      have hsame : Carried s { s with
          accessed := s.accessed ++ [⟨queueId, client.userProfileId, client.realmId⟩] } :=
        Carried.same rfl rfl
      exact (hsame.moved _).congr (fun _ _ => rfl) hnone
  | cleanup i =>
    rw [serve]
    cases hclient : s.accessed[i]? with
    | none =>
      refine ((Carried.refl s).moved _).congr ?_ ?_
      · intro c _
        simp [Server.departs, hclient]
      · intro c _
        simp [Server.notifies, Server.departs, hclient]
    | some client =>
      have hrest : Indexed uuid4 { s with accessed := s.accessed.eraseIdx i } :=
        { h with accessed := fun a ha => h.accessed a (mem_of_mem_eraseIdx ha) }
      have hmoved := hrest.moved_cleanup hnodup client
        (h.accessed client (mem_of_getElem? hclient)).2 (s.Acknowledges (.cleanup i))
      have hsame : Moved (fun c => decide (c.eventQueue.id = client.queueId))
          (fun c => decide (c.eventQueue.id = client.queueId) && !c.offline && s.alone c)
          (s.Acknowledges (.cleanup i)) s (answer (Server.cleanup client { s with accessed := s.accessed.eraseIdx i })).2 :=
        { hmoved with }
      refine hsame.congr ?_ ?_
      · intro c _
        simp [Server.departs, hclient, eq_comm]
      · intro c _
        simp [Server.notifies, Server.departs, alone, hclient, eq_comm]
  | cleanupQueue userProfileId queueId =>
    rw [serve]
    have hnotifies : ∀ c, s.notifies (.cleanupQueue userProfileId queueId) c =
        (s.departs (.cleanupQueue userProfileId queueId) c && !c.offline && s.alone c) :=
      fun _ => rfl
    cases hfind : s.accessClientDescriptor userProfileId queueId with
    | none =>
      have hno : ∀ c ∈ s.clients, s.departs (.cleanupQueue userProfileId queueId) c = false := by
        intro c hc
        by_contra hdeparts
        simp only [Server.departs, Bool.not_eq_false, Bool.and_eq_true, decide_eq_true_eq]
          at hdeparts
        obtain ⟨rfl, rfl⟩ := hdeparts
        rw [accessClientDescriptor, find_of_mem h.consistent.distinct hc] at hfind
        simp at hfind
      refine ((Carried.refl s).moved _).congr hno ?_
      intro c hc
      rw [hnotifies, hno c hc]
      rfl
    | some client =>
      obtain ⟨-, hfound, hsame⟩ := h.looked hfind
      have huser : client.userProfileId = userProfileId :=
        of_decide_eq_true (Option.filter_eq_some_iff.mp hfind).2
      have hmoved := h.moved_cleanup hnodup
        ⟨queueId, client.userProfileId, client.realmId⟩ hsame
        (s.Acknowledges (.cleanupQueue userProfileId queueId))
      have hdeparts : ∀ c ∈ s.clients, s.departs (.cleanupQueue userProfileId queueId) c =
          decide (c.eventQueue.id = queueId) := by
        intro c hc
        by_cases hid : c.eventQueue.id = queueId
        · have huserc := (hsame c.registration (mem_map_of_mem hc) hid).1
          have huserc' : c.userProfileId = userProfileId := huserc.trans huser
          simp [Server.departs, hid, huserc']
        · simp [Server.departs, hid]
      refine hmoved.congr hdeparts ?_
      intro c hc
      rw [hnotifies, hdeparts c hc]
  | webReloadClients immediate count =>
    exact ((Carried.reloadEach narrowPredicate _ _ s).moved _).congr (fun _ _ => rfl) hnone
  | restart readable sendReloads =>
    exact moved_restart narrowPredicate s readable sendReloads _

end Effects

end GrowTeam.Tornado
