/-
# The indexes of the event server

What a queue was registered as never changes, and most steps leave the indexes alone too
(`Quiet`).  The others add a queue, take queues out or build the indexes anew.
-/
import GrowTeam.Tornado.Server

namespace GrowTeam.Tornado

open Index List Tornado.Server

/-! ## What a queue was registered as -/

structure Registration where
  queueId : String
  userProfileId : ℕ
  realmId : ℕ
  /-- `all_public_streams`, or a narrow -/
  allStreams : Bool

/-- The key in `realm_clients_all_streams`. -/
def Registration.streamsRealm (r : Registration) : Option ℕ :=
  if r.allStreams then some r.realmId else none

namespace ClientDescriptor

def registration (c : ClientDescriptor) : Registration :=
  ⟨c.eventQueue.id, c.userProfileId, c.realmId, c.allPublicStreams || !c.narrow.isEmpty⟩

variable (c : ClientDescriptor)

theorem id_push (q : EventQueue) (event : Event) : (q.push event).id = q.id := by
  unfold EventQueue.push
  cases virtualType event with
  | none => rfl
  | some fullEventType =>
    dsimp only
    split <;> rfl

theorem registration_finish : c.finishCurrentHandler.2.registration = c.registration := by
  unfold finishCurrentHandler
  split <;> rfl

theorem registration_addEvent (event : Event) :
    (c.addEvent event).2.registration = c.registration := by
  unfold addEvent
  rw [registration_finish]
  simp [registration, id_push]

theorem registration_timeout :
    (if c.timeoutHandle then c.timeoutCallback else (none, c)).2.registration = c.registration := by
  split
  · exact registration_addEvent _ _
  · rfl

theorem registration_fetch (lastEventId : ℤ) (dontBlock : Bool) (handler : ℕ)
    (clientName : String) (now : ℕ) :
    (c.fetchEvents lastEventId dontBlock handler clientName now).2.2.registration =
      c.registration := by
  unfold fetchEvents
  by_cases hold : lastEventId < c.eventQueue.newestPrunedId
  · rw [if_pos hold]
  · rw [if_neg hold]
    dsimp only
    by_cases hmissing : lastEventId ≠ (c.eventQueue.prune lastEventId).newestPrunedId
    · rw [if_pos hmissing]
      rfl
    · rw [if_neg hmissing]
      have hfinish := registration_finish { c with eventQueue := c.eventQueue.prune lastEventId }
      split
      · exact hfinish
      · exact hfinish

end ClientDescriptor

/-! ## Steps that leave the indexes alone -/

def Server.registrations (s : Server) : List Registration :=
  s.clients.map (·.registration)

theorem ids_eq (s : Server) : Server.ids s.clients = s.registrations.map (·.queueId) := by
  rw [Server.registrations, map_map]
  rfl

variable {s : Server}

variable {queueId : String}

theorem find_isSome :
    (s.find queueId).isSome = true ↔ queueId ∈ Server.ids s.clients := by
  rw [Server.find, Server.ids]
  simp

theorem find_some {c : ClientDescriptor}
    (h : s.find queueId = some c) : c ∈ s.clients ∧ c.eventQueue.id = queueId := by
  have hid := find?_some h
  exact ⟨mem_of_find?_eq_some h, of_decide_eq_true hid⟩

/-- The queues are registered as before, and the indexes are as they were. -/
structure Quiet (s t : Server) : Prop where
  registrations : t.registrations = s.registrations
  userClients : t.userClients = s.userClients
  realmClientsAllStreams : t.realmClientsAllStreams = s.realmClientsAllStreams
  webReloadClients : t.webReloadClients = s.webReloadClients
  accessed : t.accessed = s.accessed
  issued : t.issued = s.issued

namespace Quiet

variable {s t u : Server}

theorem refl (s : Server) : Quiet s s := ⟨rfl, rfl, rfl, rfl, rfl, rfl⟩

theorem trans (h : Quiet s t) (h' : Quiet t u) : Quiet s u where
  registrations := h'.registrations.trans h.registrations
  userClients := h'.userClients.trans h.userClients
  realmClientsAllStreams := h'.realmClientsAllStreams.trans h.realmClientsAllStreams
  webReloadClients := h'.webReloadClients.trans h.webReloadClients
  accessed := h'.accessed.trans h.accessed
  issued := h'.issued.trans h.issued

theorem ids (h : Quiet s t) : Server.ids t.clients = Server.ids s.clients := by
  rw [ids_eq, ids_eq, h.registrations]

theorem foldl {β : Type} {f : Server → β → Server} (hf : ∀ s b, Quiet s (f s b)) (l : List β)
    (s : Server) : Quiet s (l.foldl f s) := by
  induction l generalizing s with
  | nil => exact refl s
  | cons b l ih => exact (hf s b).trans (ih (f s b))

theorem modify {f : ClientDescriptor → ClientDescriptor}
    (hf : ∀ c, (f c).registration = c.registration) (s : Server) (queueId : String) :
    Quiet s (s.modify queueId f) where
  registrations := by
    unfold Server.registrations Server.modify
    rw [map_map]
    apply map_congr_left
    intro c _
    rw [Function.comp]
    split
    · exact hf c
    · rfl
  userClients := rfl
  realmClientsAllStreams := rfl
  webReloadClients := rfl
  accessed := rfl
  issued := rfl

theorem act {f : ClientDescriptor → Option Response × ClientDescriptor}
    (hf : ∀ c, (f c).2.registration = c.registration) (s : Server) (queueId : String) :
    Quiet s (s.act queueId f) :=
  have h := modify (f := fun c => (f c).2) hf s queueId
  ⟨h.registrations, rfl, rfl, rfl, rfl, rfl⟩

variable (form : ClientDescriptor → Option Event)

theorem send (s : Server) (queueId : String) : Quiet s (s.send form queueId) := by
  unfold Server.send
  cases (s.find queueId).bind form with
  | none => exact refl s
  | some event => exact act (fun c => c.registration_addEvent event) s queueId

theorem sendAll (queueIds : List String) (s : Server) : Quiet s (s.sendAll form queueIds) :=
  foldl (fun s id => send form s id) queueIds s

theorem processEvent (users : List ℕ) (form : ClientDescriptor → Option PlainEvent) (s : Server) :
    Quiet s (s.processEvent users form) :=
  foldl (fun s user => sendAll _ (s.userClients.get user) s) users s

theorem processMessageEvent (lower : String → String)
    (narrowPredicate : List (List String) → MessageEvent → Bool) (template : EventTemplate)
    (users : List UserData) (s : Server) :
    Quiet s (s.processMessageEvent lower narrowPredicate template users) := by
  refine trans ?_ (foldl (fun s (e : String × List String) => send _ s e.1) _ _)
  exact ⟨rfl, rfl, rfl, rfl, rfl, rfl⟩

theorem missedmessageHook (client : ClientDescriptor) (last : Bool) (s : Server) :
    Quiet s (s.missedmessageHook client last) := by
  unfold Server.missedmessageHook
  split
  · have h := modify (f := fun c => { c with eventQueue := c.eventQueue.settle }) (fun _ => rfl) s
      client.eventQueue.id
    exact ⟨h.registrations, rfl, rfl, rfl, rfl, rfl⟩
  · exact refl s

theorem markOne (client : ClientDescriptor) (last : Bool) (queueId : String) (s : Server) :
    Quiet s ((s.missedmessageHook client last).modify queueId fun c => { c with offline := true }) :=
  (missedmessageHook client last s).trans
    (modify (f := fun c => { c with offline := true }) (fun _ => rfl) _ queueId)

theorem fetch (userProfileId : ℕ) (queueId : String) (lastEventId : ℤ) (dontBlock : Bool)
    (handler : ℕ) (clientName : String) (now : ℕ) (s : Server) :
    Quiet s (s.fetch userProfileId queueId lastEventId dontBlock handler clientName now).2 := by
  unfold Server.fetch
  cases s.accessClientDescriptor userProfileId queueId with
  | none => exact refl s
  | some client =>
    exact act (fun c => c.registration_fetch lastEventId dontBlock handler clientName now) s queueId

end Quiet

/-! ## Consistency -/

/-- `user_clients` and `realm_clients_all_streams` hold the clients by user and, for those that
get the messages of all streams, by realm; what is to be reloaded is a client. -/
structure Server.Consistent (s : Server) : Prop where
  distinct : (ids s.clients).Nodup
  userClients : Groups (fun c : ClientDescriptor => some c.userProfileId) (·.eventQueue.id)
    s.clients s.userClients
  realmClientsAllStreams : Groups
    (fun c : ClientDescriptor =>
      if c.allPublicStreams || !c.narrow.isEmpty then some c.realmId else none)
    (·.eventQueue.id) s.clients s.realmClientsAllStreams
  webReloadClients : ∀ id ∈ s.webReloadClients, id ∈ ids s.clients

/-- What every step keeps: besides consistency, no queue id is given twice, and what was looked
up for a cleanup is the queue of that id if there still is one. -/
structure Indexed (uuid4 : ℕ → String) (s : Server) : Prop where
  distinct : (s.registrations.map (·.queueId)).Nodup
  userClients : Groups (fun r : Registration => some r.userProfileId) (·.queueId) s.registrations
    s.userClients
  realmClientsAllStreams : Groups (·.streamsRealm) (·.queueId) s.registrations
    s.realmClientsAllStreams
  webReloadClients : ∀ id ∈ s.webReloadClients, id ∈ s.registrations.map (·.queueId)
  reloadOnce : s.webReloadClients.Nodup
  issued : ∀ r ∈ s.registrations, ∃ n < s.issued, r.queueId = uuid4 n
  accessed : ∀ a ∈ s.accessed, (∃ n < s.issued, a.queueId = uuid4 n) ∧
    ∀ r ∈ s.registrations, r.queueId = a.queueId →
      r.userProfileId = a.userProfileId ∧ r.realmId = a.realmId

namespace Indexed

variable {uuid4 : ℕ → String} {s t : Server}

theorem start : Indexed uuid4 .start where
  distinct := nodup_nil
  userClients := Groups.empty
  realmClientsAllStreams := Groups.empty
  webReloadClients _ hid := by cases hid
  reloadOnce := nodup_nil
  issued _ hr := by cases hr
  accessed _ ha := by cases ha

theorem consistent (h : Indexed uuid4 s) : s.Consistent where
  distinct := by
    rw [ids_eq]
    exact h.distinct
  userClients := h.userClients.congr (by rw [Server.registrations, map_map]; rfl)
  realmClientsAllStreams :=
    h.realmClientsAllStreams.congr (by rw [Server.registrations, map_map]; rfl)
  webReloadClients := by
    rw [ids_eq]
    exact h.webReloadClients

theorem quiet (h : Indexed uuid4 s) (q : Quiet s t) : Indexed uuid4 t := by
  obtain ⟨hregistrations, huser, hrealm, hreload, haccessed, hissued⟩ := q
  constructor
  · rw [hregistrations]
    exact h.distinct
  · rw [hregistrations, huser]
    exact h.userClients
  · rw [hregistrations, hrealm]
    exact h.realmClientsAllStreams
  · rw [hregistrations, hreload]
    exact h.webReloadClients
  · rw [hreload]
    exact h.reloadOnce
  · rw [hregistrations, hissued]
    exact h.issued
  · rw [hregistrations, hissued, haccessed]
    exact h.accessed

/-- Fewer clients are to be reloaded. -/
theorem reloaded (h : Indexed uuid4 s) (queueId : String) :
    Indexed uuid4 { s with webReloadClients := s.webReloadClients.erase queueId } := { h with
  webReloadClients id hid := h.webReloadClients id (mem_of_mem_erase hid)
  reloadOnce := h.reloadOnce.sublist erase_sublist }

/-- A queue that is there is found. -/
theorem find (_h : Indexed uuid4 s)
    (hid : queueId ∈ s.registrations.map (·.queueId)) : ∃ c, s.find queueId = some c := by
  rw [← ids_eq] at hid
  exact Option.isSome_iff_exists.mp (find_isSome.mpr hid)

end Indexed

/-! ## Queues are taken out -/

/-- The loop takes the queues out of `clients` and out of those to reload. -/
structure Removed (ids : List String) (s t : Server) : Prop where
  registrations : t.registrations = s.registrations.filter fun r => !ids.contains r.queueId
  webReloadClients : t.webReloadClients = s.webReloadClients.filter fun id => !ids.contains id
  userClients : t.userClients = s.userClients
  realmClientsAllStreams : t.realmClientsAllStreams = s.realmClientsAllStreams
  accessed : t.accessed = s.accessed
  issued : t.issued = s.issued

section RemoveEach

variable {s : Server} {id : String} (ids : List String)

theorem removeEach_missing (h : s.find id = none) :
    removeEach (id :: ids) s =
      (some id, { s with webReloadClients := s.webReloadClients.erase id }) := by
  have hfind : ({ s with webReloadClients := s.webReloadClients.erase id } : Server).find id =
      none := h
  rw [removeEach]
  rw [hfind]

/-- The state after the turn of the loop for a queue. -/
def removeOne (s : Server) (client : ClientDescriptor) (id : String) : Server :=
  let next := Server.missedmessageHook { s with webReloadClients := s.webReloadClients.erase id }
    client (!s.userClients.has client.userProfileId)
  { next with clients := next.clients.filter (·.eventQueue.id ≠ id) }

theorem removeEach_found {client : ClientDescriptor} (h : s.find id = some client) :
    removeEach (id :: ids) s = removeEach ids (removeOne s client id) := by
  have hfind : ({ s with webReloadClients := s.webReloadClients.erase id } : Server).find id =
      some client := h
  rw [removeEach]
  rw [hfind]
  rfl

theorem removed_one (s : Server) (client : ClientDescriptor) (id : String)
    (hreload : s.webReloadClients.Nodup) : Removed [id] s (removeOne s client id) := by
  have hook := Quiet.missedmessageHook client (!s.userClients.has client.userProfileId)
    { s with webReloadClients := s.webReloadClients.erase id }
  refine { hook with registrations := ?_, webReloadClients := ?_ }
  · have hsame : (Server.missedmessageHook
        { s with webReloadClients := s.webReloadClients.erase id } client
        (!s.userClients.has client.userProfileId)).registrations = s.registrations :=
      hook.registrations
    rw [← hsame, Server.registrations, Server.registrations, filter_map]
    refine congrArg (List.map _) (filter_congr ?_)
    intro c _
    by_cases hc : c.eventQueue.id = id <;> simp [hc, ClientDescriptor.registration]
  · refine hook.webReloadClients.trans (hreload.erase_eq_filter id |>.trans ?_)
    apply filter_congr
    intro other _
    by_cases hother : other = id <;> simp [hother]

theorem Removed.cons {t u : Server} {ids : List String} (h : Removed [id] s t)
    (h' : Removed ids t u) : Removed (id :: ids) s u where
  registrations := by
    rw [h'.registrations, h.registrations, filter_filter]
    apply filter_congr
    intro r _
    simp [Bool.and_comm]
  webReloadClients := by
    rw [h'.webReloadClients, h.webReloadClients, filter_filter]
    apply filter_congr
    intro other _
    simp [Bool.and_comm]
  userClients := h'.userClients.trans h.userClients
  realmClientsAllStreams := h'.realmClientsAllStreams.trans h.realmClientsAllStreams
  accessed := h'.accessed.trans h.accessed
  issued := h'.issued.trans h.issued

end RemoveEach

theorem removeEach_spec {ids : List String} (hids : ids.Nodup)
    (hsub : ∀ id ∈ ids, id ∈ s.registrations.map (·.queueId)) (hreload : s.webReloadClients.Nodup) :
    (removeEach ids s).1 = none ∧ Removed ids s (removeEach ids s).2 := by
  induction ids generalizing s with
  | nil =>
    refine ⟨rfl, ?_, ?_, rfl, rfl, rfl, rfl⟩
    · exact (filter_eq_self.mpr fun _ _ => rfl).symm
    · exact (filter_eq_self.mpr fun _ _ => rfl).symm
  | cons id ids ih =>
    obtain ⟨hnot, hids⟩ := nodup_cons.mp hids
    have hid := hsub id (mem_cons_self)
    rw [← ids_eq] at hid
    obtain ⟨client, hfind⟩ := Option.isSome_iff_exists.mp (find_isSome.mpr hid)
    have hone := removed_one s client id hreload
    have hrest := ih (s := removeOne s client id) hids ?_ ?_
    · rw [removeEach_found ids hfind]
      exact ⟨hrest.1, hone.cons hrest.2⟩
    · intro other hother
      obtain ⟨r, hr, rfl⟩ := mem_map.mp (hsub other (mem_cons_of_mem _ hother))
      rw [hone.registrations]
      refine mem_map_of_mem (mem_filter.mpr ⟨hr, ?_⟩)
      have hne : r.queueId ≠ id := fun heq => hnot (heq ▸ hother)
      simpa using hne
    · rw [hone.webReloadClients]
      exact hreload.sublist filter_sublist

namespace Indexed

variable {uuid4 : ℕ → String} {s t : Server}

/-- The indexes without the queues that are gone. -/
theorem removed (h : Indexed uuid4 s) (toRemove : List String) {users realms : List ℕ}
    (hcover : ∀ r ∈ s.registrations, r.queueId ∈ toRemove →
      r.userProfileId ∈ users ∧ r.realmId ∈ realms)
    (ht : Removed toRemove
      { s with
        userClients := users.foldl (fun ix k => ix.discard k toRemove.contains) s.userClients
        realmClientsAllStreams :=
          realms.foldl (fun ix k => ix.discard k toRemove.contains) s.realmClientsAllStreams } t) :
    Indexed uuid4 t := by
  obtain ⟨hregistrations, hreload, huser, hrealm, haccessed, hissued⟩ := ht
  have hsub : ∀ r ∈ t.registrations, r ∈ s.registrations := by
    intro r hr
    rw [hregistrations] at hr
    exact mem_of_mem_filter hr
  constructor
  · rw [hregistrations]
    exact h.distinct.sublist (filter_sublist.map _)
  · rw [hregistrations, huser]
    refine h.userClients.discardAll ?_
    intro r hr hgone k hk
    rw [← Option.some.inj hk]
    exact (hcover r hr (contains_iff_mem.mp hgone)).1
  · rw [hregistrations, hrealm]
    refine h.realmClientsAllStreams.discardAll ?_
    intro r hr hgone k hk
    have hk' : r.realmId = k := by
      rw [Registration.streamsRealm] at hk
      split at hk
      · exact Option.some.inj hk
      · cases hk
    rw [← hk']
    exact (hcover r hr (contains_iff_mem.mp hgone)).2
  · intro id hid
    rw [hreload] at hid
    obtain ⟨hmem, hstay⟩ := mem_filter.mp hid
    obtain ⟨r, hr, rfl⟩ := mem_map.mp (h.webReloadClients id hmem)
    rw [hregistrations]
    exact mem_map_of_mem (mem_filter.mpr ⟨hr, hstay⟩)
  · rw [hreload]
    exact h.reloadOnce.sublist filter_sublist
  · intro r hr
    rw [hissued]
    exact h.issued r (hsub r hr)
  · intro a ha
    rw [haccessed] at ha
    rw [hissued]
    obtain ⟨hgiven, hsame⟩ := h.accessed a ha
    exact ⟨hgiven, fun r hr => hsame r (hsub r hr)⟩

theorem doGc (h : Indexed uuid4 s) (toRemove : List String) (users realms : List ℕ)
    (hids : toRemove.Nodup) (hsub : ∀ id ∈ toRemove, id ∈ s.registrations.map (·.queueId))
    (hcover : ∀ r ∈ s.registrations, r.queueId ∈ toRemove →
      r.userProfileId ∈ users ∧ r.realmId ∈ realms) :
    (s.doGcEventQueues toRemove users realms).1 = none ∧
      Indexed uuid4 (s.doGcEventQueues toRemove users realms).2 ∧
      (s.doGcEventQueues toRemove users realms).2.registrations =
        s.registrations.filter fun r => !toRemove.contains r.queueId := by
  obtain ⟨hok, hremoved⟩ := removeEach_spec (s := { s with
      userClients := users.foldl (fun ix k => ix.discard k toRemove.contains) s.userClients
      realmClientsAllStreams :=
        realms.foldl (fun ix k => ix.discard k toRemove.contains) s.realmClientsAllStreams })
    hids hsub h.reloadOnce
  exact ⟨hok, h.removed toRemove hcover hremoved, hremoved.registrations⟩

/-- Nothing is taken out for a queue that is gone already, but the lookup fails. -/
theorem doGc_gone (h : Indexed uuid4 s) (users realms : List ℕ)
    (hgone : s.find queueId = none) :
    (s.doGcEventQueues [queueId] users realms).1 = some queueId ∧
      Indexed uuid4 (s.doGcEventQueues [queueId] users realms).2 := by
  have hnot : queueId ∉ s.registrations.map (·.queueId) := by
    rw [← ids_eq, ← find_isSome, hgone]
    exact Bool.false_ne_true
  have hrun : s.doGcEventQueues [queueId] users realms = (some queueId, { s with
      userClients := users.foldl (fun ix k => ix.discard k [queueId].contains) s.userClients
      realmClientsAllStreams :=
        realms.foldl (fun ix k => ix.discard k [queueId].contains) s.realmClientsAllStreams
      webReloadClients := s.webReloadClients.erase queueId }) :=
    removeEach_missing _ hgone
  rw [hrun]
  refine ⟨rfl, h.removed [queueId] ?_ ⟨?_, ?_, rfl, rfl, rfl, rfl⟩⟩
  · intro r hr hid
    rw [← mem_singleton.mp hid] at hnot
    exact absurd (mem_map_of_mem hr) hnot
  · refine (filter_eq_self.mpr ?_).symm
    intro r hr
    have hne : r.queueId ≠ queueId := fun heq => hnot (heq ▸ mem_map_of_mem hr)
    simpa using hne
  · rw [h.reloadOnce.erase_eq_filter]
    apply filter_congr
    intro id _
    by_cases hid : id = queueId <;> simp [hid]

end Indexed

/-! ## Loops over queues that are there -/

section Loops

variable {uuid4 : ℕ → String} {s : Server}

theorem markEach_spec (users : List ℕ) (ids : List String)
    (hsub : ∀ id ∈ ids, id ∈ s.registrations.map (·.queueId)) :
    (markEach users ids s).1 = none ∧ Quiet s (markEach users ids s).2 := by
  induction ids generalizing s with
  | nil => exact ⟨rfl, Quiet.refl s⟩
  | cons id ids ih =>
    have hid := hsub id mem_cons_self
    rw [← ids_eq] at hid
    obtain ⟨client, hfind⟩ := Option.isSome_iff_exists.mp (find_isSome.mpr hid)
    rw [markEach, hfind]
    have hone := Quiet.markOne client (!users.contains client.userProfileId) id s
    obtain ⟨hok, hrest⟩ := ih (s := (s.missedmessageHook client
      (!users.contains client.userProfileId)).modify id fun c => { c with offline := true }) (by
        intro other hother
        rw [hone.registrations]
        exact hsub other (mem_cons_of_mem _ hother))
    exact ⟨hok, hone.trans hrest⟩

theorem reloadEach_spec (narrowPredicate : List (List String) → MessageEvent → Bool)
    (event : Event) {ids : List String} (h : Indexed uuid4 s)
    (hsub : ∀ id ∈ ids, id ∈ s.registrations.map (·.queueId)) :
    (reloadEach narrowPredicate event ids s).1 = none ∧
      Indexed uuid4 (reloadEach narrowPredicate event ids s).2 := by
  induction ids generalizing s with
  | nil => exact ⟨rfl, h⟩
  | cons id ids ih =>
    obtain ⟨client, hfind⟩ := (h.reloaded id).find (hsub id mem_cons_self)
    rw [reloadEach, hfind]
    have hsend := Quiet.send (accepted narrowPredicate event)
      { s with webReloadClients := s.webReloadClients.erase id } id
    refine ih ((h.reloaded id).quiet hsend) ?_
    intro other hother
    rw [hsend.registrations]
    exact hsub other (mem_cons_of_mem _ hother)

theorem firstOf_subset (count : Option ℤ) (queueIds : List String) :
    ∀ id ∈ firstOf count queueIds, id ∈ queueIds := by
  intro id hid
  unfold firstOf at hid
  split at hid
  · exact hid
  · exact mem_of_mem_take hid
  · exact mem_of_mem_take hid

namespace Indexed

theorem sendWebReloadClientEvents (narrowPredicate : List (List String) → MessageEvent → Bool)
    (h : Indexed uuid4 s) (immediate : Bool) (count : Option ℤ) :
    (s.sendWebReloadClientEvents narrowPredicate immediate count).1 = none ∧
      Indexed uuid4 (s.sendWebReloadClientEvents narrowPredicate immediate count).2 :=
  reloadEach_spec narrowPredicate _ h fun id hid =>
    h.webReloadClients id (firstOf_subset count _ id hid)

/-- A sweep takes out queues that are there, and marks queues that stay. -/
theorem gcEventQueues (h : Indexed uuid4 s) (now : ℕ) :
    (s.gcEventQueues now).1 = none ∧ Indexed uuid4 (s.gcEventQueues now).2 := by
  let expired := s.clients.filter (·.expired now)
  let offline := s.clients.filter fun c => !c.expired now && c.shouldMarkOffline now
  have hmem : ∀ (p : ClientDescriptor → Bool), ∀ id ∈ Server.ids (s.clients.filter p),
      id ∈ s.registrations.map (·.queueId) := by
    intro p id hid
    rw [← ids_eq]
    obtain ⟨c, hc, rfl⟩ := mem_map.mp hid
    exact mem_map_of_mem (mem_of_mem_filter hc)
  have hdistinct : (Server.ids s.clients).Nodup := h.consistent.distinct
  -- A queue is told by its id.
  have hsame : ∀ c ∈ s.clients, ∀ d ∈ s.clients, c.eventQueue.id = d.eventQueue.id → c = d :=
    fun c hc d hd => inj_on_of_nodup_map hdistinct hc hd
  obtain ⟨hok, hindexed, hleft⟩ := h.doGc (Server.ids expired)
    (expired.map (·.userProfileId))
    (expired.map (·.realmId))
    (hdistinct.sublist (filter_sublist.map _)) (hmem _) (by
      intro r hr hid
      obtain ⟨d, hd, rfl⟩ := mem_map.mp hr
      obtain ⟨c, hc, hcd⟩ := mem_map.mp hid
      obtain rfl : c = d := hsame c (mem_of_mem_filter hc) d hd hcd
      exact ⟨mem_map_of_mem hc, mem_map_of_mem hc⟩)
  unfold Server.gcEventQueues
  dsimp only
  rcases hgc : s.doGcEventQueues (Server.ids expired)
    (expired.map (·.userProfileId))
    (expired.map (·.realmId)) with ⟨missing, t⟩
  rw [hgc] at hok hindexed hleft
  subst hok
  rw [hgc]
  obtain ⟨hmark, hquiet⟩ := markEach_spec
    (((offline.map (·.userProfileId)).filter fun user =>
        (t.getClientDescriptorsForUser user).any fun c =>
          c.acceptsMessages && !c.offline && !(Server.ids offline).contains c.eventQueue.id))
    (Server.ids offline)
    (s := t) (by
      intro id hid
      obtain ⟨c, hc, rfl⟩ := mem_map.mp hid
      obtain ⟨hmemc, hp⟩ := mem_filter.mp hc
      rw [hleft]
      refine mem_map.mpr ⟨c.registration, mem_filter.mpr ⟨mem_map_of_mem hmemc, ?_⟩, rfl⟩
      rw [Bool.not_eq_true', ← Bool.not_eq_true, contains_iff_mem]
      intro hexpired
      obtain ⟨d, hd, hdc⟩ := mem_map.mp hexpired
      obtain ⟨hmemd, hexp⟩ := mem_filter.mp hd
      obtain rfl : d = c := hsame d hmemd c hmemc hdc
      simp [hexp] at hp)
  exact ⟨hmark, hindexed.quiet hquiet⟩

/-- A cleanup takes out the queue that was looked up, or fails if that is gone. -/
theorem cleanup (h : Indexed uuid4 s) (client : Accessed)
    (hclient : ∀ r ∈ s.registrations, r.queueId = client.queueId →
      r.userProfileId = client.userProfileId ∧ r.realmId = client.realmId) :
    ((s.cleanup client).1.isSome = true ↔ s.find client.queueId = none) ∧
      Indexed uuid4 (s.cleanup client).2 := by
  have hquiet := Quiet.act (fun c => c.registration_finish) s client.queueId
  have hfinished := h.quiet hquiet
  unfold Server.cleanup
  cases hfind : s.find client.queueId with
  | none =>
    have hgone : (s.act client.queueId (·.finishCurrentHandler)).find client.queueId = none := by
      have hnot := @find_isSome s client.queueId
      rw [hfind, ← hquiet.ids, ← find_isSome] at hnot
      simpa using hnot
    obtain ⟨hfail, hindexed⟩ := hfinished.doGc_gone
      [client.userProfileId] [client.realmId] hgone
    rw [hfail]
    exact ⟨by simp, hindexed⟩
  | some c =>
    obtain ⟨hmem, hid⟩ := find_some hfind
    obtain ⟨hok, hindexed, -⟩ := hfinished.doGc [client.queueId] [client.userProfileId]
      [client.realmId]
      (nodup_singleton client.queueId) (by
        intro id hmem'
        rw [mem_singleton.mp hmem', hquiet.registrations, ← hid]
        exact mem_map.mpr ⟨c.registration, mem_map_of_mem hmem, rfl⟩) (by
        intro r hr hmem'
        rw [hquiet.registrations] at hr
        obtain ⟨huser, hrealm⟩ := hclient r hr (mem_singleton.mp hmem')
        rw [huser, hrealm]
        exact ⟨mem_singleton_self _, mem_singleton_self _⟩)
    rw [hok]
    exact ⟨by simp, hindexed⟩

end Indexed

end Loops

/-! ## Queues are added -/

section Added

variable {uuid4 : ℕ → String} {s : Server}

/-- The indexes when a queue is entered in them. -/
theorem groups_add {members : List Registration}
    (huser : Groups (fun r : Registration => some r.userProfileId) (·.queueId) members s.userClients)
    (hrealm : Groups (·.streamsRealm) (·.queueId) members s.realmClientsAllStreams)
    (c : ClientDescriptor) :
    Groups (fun r : Registration => some r.userProfileId) (·.queueId) (members ++ [c.registration])
        (s.addToClientDicts c).userClients ∧
      Groups (·.streamsRealm) (·.queueId) (members ++ [c.registration])
        (s.addToClientDicts c).realmClientsAllStreams := by
  refine ⟨huser.add (x := c.registration) rfl, ?_⟩
  unfold addToClientDicts
  split
  · next hstreams =>
    refine hrealm.add (x := c.registration) ?_
    exact if_pos hstreams
  · next hstreams =>
    refine hrealm.skip (x := c.registration) ?_
    exact if_neg hstreams

theorem Indexed.allocate (huuid : Function.Injective uuid4) (h : Indexed uuid4 s)
    (newQueueData : ClientDict) :
    Indexed uuid4 (s.allocateClientDescriptor uuid4 newQueueData) := by
  have hregistrations : (s.allocateClientDescriptor uuid4 newQueueData).registrations =
      s.registrations ++ [(allocated (uuid4 s.issued) newQueueData).registration] := map_append
  have hid : (allocated (uuid4 s.issued) newQueueData).registration.queueId = uuid4 s.issued := rfl
  obtain ⟨huser, hrealm⟩ := groups_add h.userClients h.realmClientsAllStreams
    (allocated (uuid4 s.issued) newQueueData)
  have hfresh : ∀ n < s.issued, uuid4 n ≠ uuid4 s.issued := by
    intro n hn heq
    exact Nat.lt_irrefl _ (huuid heq ▸ hn)
  constructor
  · rw [hregistrations, map_append, nodup_append]
    refine ⟨h.distinct, nodup_singleton _, ?_⟩
    rintro _ ha _ hb rfl
    obtain ⟨q, hq, hqr⟩ := mem_map.mp ha
    obtain ⟨n, hn, hqn⟩ := h.issued q hq
    have hlast := mem_singleton.mp hb
    exact hfresh n hn (hqn.symm.trans (hqr.trans (hlast.trans hid)))
  · exact huser.congr (by
      exact congrArg _ map_append)
  · exact hrealm.congr (by
      exact congrArg _ map_append)
  · intro id hmem
    rw [hregistrations, map_append]
    exact mem_append_left _ (h.webReloadClients id hmem)
  · exact h.reloadOnce
  · intro q hq
    rw [hregistrations] at hq
    rcases mem_append.mp hq with hq | hq
    · obtain ⟨n, hn, hqn⟩ := h.issued q hq
      exact ⟨n, Nat.lt_succ_of_lt hn, hqn⟩
    · rw [mem_singleton.mp hq]
      exact ⟨s.issued, Nat.lt_succ_self _, hid⟩
  · intro a ha
    obtain ⟨⟨n, hn, hgiven⟩, hsame⟩ := h.accessed a ha
    refine ⟨⟨n, Nat.lt_succ_of_lt hn, hgiven⟩, ?_⟩
    intro q hq hqa
    rw [hregistrations] at hq
    rcases mem_append.mp hq with hq | hq
    · exact hsame q hq hqa
    · rw [mem_singleton.mp hq, hgiven] at hqa
      exact absurd hqa.symm (hfresh n hn)

/-- Entering queues in the indexes changes nothing else. -/
theorem addAll_spec (clients : List ClientDescriptor) {members : List Registration}
    (huser : Groups (fun r : Registration => some r.userProfileId) (·.queueId) members s.userClients)
    (hrealm : Groups (·.streamsRealm) (·.queueId) members s.realmClientsAllStreams) :
    ∃ userClients realmClientsAllStreams,
      clients.foldl addToClientDicts s =
          { s with userClients, realmClientsAllStreams } ∧
        Groups (fun r : Registration => some r.userProfileId) (·.queueId)
          (members ++ clients.map (·.registration)) userClients ∧
        Groups (·.streamsRealm) (·.queueId) (members ++ clients.map (·.registration))
          realmClientsAllStreams := by
  induction clients generalizing s members with
  | nil =>
    refine ⟨_, _, rfl, ?_, ?_⟩
    · rwa [map_nil, append_nil]
    · rwa [map_nil, append_nil]
  | cons c clients ih =>
    obtain ⟨huser, hrealm⟩ := groups_add huser hrealm c
    obtain ⟨userClients, realmClientsAllStreams, hfold, huser, hrealm⟩ := ih huser hrealm
    refine ⟨userClients, realmClientsAllStreams, ?_, ?_, ?_⟩
    · rw [foldl_cons, hfold]
      rfl
    · rwa [append_assoc] at huser
    · rwa [append_assoc] at hrealm

variable (narrowPredicate : List (List String) → MessageEvent → Bool)

/-- The queues that are loaded are ones that were dumped. -/
theorem Indexed.loaded (h : Indexed uuid4 s) (readable : Bool) :
    Indexed uuid4 (s.fresh.loadEventQueues narrowPredicate
      (if readable then s.dumpEventQueues else [])) := by
  obtain ⟨clients, hclients⟩ : ∃ clients, clients =
      (if readable then s.dumpEventQueues else []).map fun e => ClientDescriptor.fromDict e.2 :=
    ⟨_, rfl⟩
  have hsub : (clients.map (·.registration)).Sublist s.registrations := by
    rw [hclients]
    cases readable with
    | true =>
      have hsame : (s.dumpEventQueues.map fun e => ClientDescriptor.fromDict e.2).map
          (·.registration) = s.registrations := by
        rw [dumpEventQueues, map_map, map_map]
        rfl
      rw [if_pos rfl, hsame]
    | false => exact nil_sublist _
  obtain ⟨userClients, realmClientsAllStreams, hfold, huser, hrealm⟩ := addAll_spec clients
    (s := { s.fresh with
      clients, webReloadClients := clientsToReload narrowPredicate clients })
    Groups.empty Groups.empty
  have hload : s.fresh.loadEventQueues narrowPredicate
      (if readable then s.dumpEventQueues else []) = { s.fresh with
        clients, webReloadClients := clientsToReload narrowPredicate clients
        userClients, realmClientsAllStreams } := by
    rw [loadEventQueues, ← hclients]
    exact hfold
  have hreload : ∃ l : List ClientDescriptor, l.Sublist clients ∧
      (clientsToReload narrowPredicate clients).Perm (Server.ids l) :=
    ⟨_, filter_sublist, (perm_insertionSort _ _).map _⟩
  obtain ⟨l, hl, hperm⟩ := hreload
  have hids : (Server.ids l).Sublist ((clients.map (·.registration)).map (·.queueId)) := by
    rw [map_map]
    exact hl.map _
  have hdistinct : ((clients.map (·.registration)).map (·.queueId)).Nodup :=
    h.distinct.sublist (hsub.map _)
  rw [hload]
  constructor
  · exact hdistinct
  · exact huser
  · exact hrealm
  · intro id hid
    exact hids.subset (hperm.subset hid)
  · exact hperm.nodup_iff.mpr (hdistinct.sublist hids)
  · intro r hr
    exact h.issued r (hsub.subset hr)
  · intro a ha
    cases ha

theorem Indexed.restart (h : Indexed uuid4 s) (readable : Bool) (sendReloads : Option Bool) :
    (s.restart narrowPredicate readable sendReloads).1 = none ∧
      Indexed uuid4 (s.restart narrowPredicate readable sendReloads).2 := by
  have hloaded := h.loaded narrowPredicate readable
  have hrestarted := hloaded.quiet (.sendAll (accepted narrowPredicate
    restartEvent) (Server.ids (s.fresh.loadEventQueues narrowPredicate
      (if readable then s.dumpEventQueues else [])).clients) _)
  cases sendReloads with
  | none => exact ⟨rfl, hrestarted⟩
  | some immediate => exact hrestarted.sendWebReloadClientEvents narrowPredicate immediate none

end Added

/-! ## Runs -/

section Runs

variable {uuid4 : ℕ → String} (lower : String → String)
  (narrowPredicate : List (List String) → MessageEvent → Bool) {s : Server}

/-- The request cleans up a queue that was removed after it was looked up. -/
def Server.Stale (s : Server) (request : Request) : Prop :=
  ∃ i client, request = .cleanup i ∧ s.accessed[i]? = some client ∧ s.find client.queueId = none

theorem isKeyError_answer (missing : Option String) :
    (Answer.ofMissing missing).isKeyError = missing.isSome := by
  cases missing <;> rfl

/-- A lookup for a cleanup. -/
theorem Indexed.looked (h : Indexed uuid4 s) {userProfileId : ℕ}
    {client : ClientDescriptor} (hfind : s.accessClientDescriptor userProfileId queueId = some client) :
    (∃ n < s.issued, queueId = uuid4 n) ∧ s.find queueId = some client ∧
      ∀ r ∈ s.registrations, r.queueId = queueId →
        r.userProfileId = client.userProfileId ∧ r.realmId = client.realmId := by
  have hfound : s.find queueId = some client := (Option.filter_eq_some_iff.mp hfind).1
  obtain ⟨hmem, hid⟩ := find_some hfound
  have hreg : client.registration ∈ s.registrations := mem_map_of_mem hmem
  obtain ⟨n, hn, hgiven⟩ := h.issued _ hreg
  refine ⟨⟨n, hn, hid.symm.trans hgiven⟩, hfound, ?_⟩
  intro r hr hrid
  obtain rfl : r = client.registration :=
    inj_on_of_nodup_map h.distinct hr hreg (hrid.trans hid.symm)
  exact ⟨rfl, rfl⟩

/-- **One step.**  The indexes stay as they should be, and the step fails on a missing queue id
exactly if it cleans up a queue that was removed since it was looked up. -/
theorem indexed_serve (huuid : Function.Injective uuid4) (h : Indexed uuid4 s) (request : Request) :
    Indexed uuid4 (serve uuid4 lower narrowPredicate request s).2 ∧
      ((serve uuid4 lower narrowPredicate request s).1.isKeyError = true ↔ s.Stale request) := by
  have hother : ∀ {answer : Answer}, answer.isKeyError = false → (∀ i, request ≠ .cleanup i) →
      (answer.isKeyError = true ↔ s.Stale request) := by
    intro answer hanswer hnot
    rw [hanswer]
    refine ⟨fun hfalse => absurd hfalse Bool.false_ne_true, ?_⟩
    rintro ⟨i, _, hrequest, -⟩
    exact absurd hrequest (hnot i)
  cases request with
  | allocate newQueueData => exact ⟨h.allocate huuid newQueueData, hother rfl (by simp)⟩
  | message template users =>
    exact ⟨h.quiet (.processMessageEvent lower narrowPredicate template users s),
      hother rfl (by simp)⟩
  | event users form => exact ⟨h.quiet (.processEvent users form s), hother rfl (by simp)⟩
  | fetch userProfileId queueId lastEventId dontBlock handler clientName now =>
    refine ⟨h.quiet (.fetch _ _ _ _ _ _ _ s), hother ?_ (by simp)⟩
    rw [serve, Server.fetch]
    split <;> rfl
  | disconnect queueId =>
    exact ⟨h.quiet (.modify (f := (·.disconnectHandler)) (fun _ => rfl) s queueId),
      hother rfl (by simp)⟩
  | heartbeat queueId =>
    exact ⟨h.quiet (.act (fun c => c.registration_timeout) s queueId), hother rfl (by simp)⟩
  | gcEventQueues now =>
    obtain ⟨hok, hindexed⟩ := h.gcEventQueues now
    refine ⟨hindexed, hother ?_ (by simp)⟩
    rw [serve, Server.answer, hok]
    rfl
  | access userProfileId queueId =>
    rw [serve]
    cases hfind : s.accessClientDescriptor userProfileId queueId with
    | none => exact ⟨h, hother rfl (by simp)⟩
    | some client =>
      refine ⟨{ h with accessed := ?_ }, hother rfl (by simp)⟩
      intro a ha
      rcases mem_append.mp ha with ha | ha
      · exact h.accessed a ha
      · obtain ⟨hgiven, -, hsame⟩ := h.looked hfind
        rw [mem_singleton.mp ha]
        exact ⟨hgiven, hsame⟩
  | cleanup i =>
    rw [serve]
    cases hclient : s.accessed[i]? with
    | none =>
      refine ⟨h, fun hfalse => absurd hfalse Bool.false_ne_true, ?_⟩
      rintro ⟨j, client, hij, hj, -⟩
      obtain rfl : i = j := Request.cleanup.inj hij
      rw [hclient] at hj
      cases hj
    | some client =>
      have hrest : Indexed uuid4 { s with accessed := s.accessed.eraseIdx i } :=
        { h with accessed := fun a ha => h.accessed a (mem_of_mem_eraseIdx ha) }
      obtain ⟨hfail, hindexed⟩ := hrest.cleanup client
        (h.accessed client (mem_of_getElem? hclient)).2
      refine ⟨hindexed, ?_⟩
      show (Answer.ofMissing _).isKeyError = true ↔ _
      rw [isKeyError_answer, hfail]
      constructor
      · intro hgone
        exact ⟨i, client, rfl, hclient, hgone⟩
      · rintro ⟨j, other, hij, hj, hgone⟩
        obtain rfl : i = j := Request.cleanup.inj hij
        cases hclient.symm.trans hj
        exact hgone
  | cleanupQueue userProfileId queueId =>
    rw [serve]
    cases hfind : s.accessClientDescriptor userProfileId queueId with
    | none => exact ⟨h, hother rfl (by simp)⟩
    | some client =>
      obtain ⟨-, hfound, hsame⟩ := h.looked hfind
      obtain ⟨hfail, hindexed⟩ := h.cleanup
        ⟨queueId, client.userProfileId, client.realmId⟩ hsame
      refine ⟨hindexed, hother ?_ (by simp)⟩
      show (Answer.ofMissing _).isKeyError = false
      rw [isKeyError_answer, ← Bool.not_eq_true, hfail, hfound]
      simp
  | webReloadClients immediate count =>
    obtain ⟨hok, hindexed⟩ := h.sendWebReloadClientEvents narrowPredicate immediate count
    refine ⟨hindexed, hother ?_ (by simp)⟩
    rw [serve, Server.answer, hok]
    rfl
  | restart readable sendReloads =>
    obtain ⟨hok, hindexed⟩ := h.restart narrowPredicate readable sendReloads
    refine ⟨hindexed, hother ?_ (by simp)⟩
    rw [serve, Server.answer, hok]
    rfl

variable (uuid4)

/-- **The indexes of every run.**  In every state they hold the clients and nothing else, and no
step fails on a missing queue id if and only if none cleans up a queue that was removed since it
was looked up. -/
theorem indexes_consistent (huuid : Function.Injective uuid4) (requests : List Request) :
    let history := History.history (serve uuid4 lower narrowPredicate) .start requests
    (∀ e ∈ history, e.pre.Consistent ∧ e.post.Consistent) ∧
      (History.run (serve uuid4 lower narrowPredicate) .start requests).Consistent ∧
      ((∀ e ∈ history, e.answer.isKeyError = false) ↔ ∀ e ∈ history, ¬ e.pre.Stale e.input) := by
  intro history
  obtain ⟨hend, hmid⟩ := History.history_inv (serve uuid4 lower narrowPredicate)
    (J := Indexed uuid4) .start requests Indexed.start
    fun request s h => (indexed_serve lower narrowPredicate huuid h request).1
  have hanswer : ∀ e ∈ history, (e.answer.isKeyError = true ↔ e.pre.Stale e.input) := by
    intro e he
    have hstep := (indexed_serve lower narrowPredicate huuid (hmid e he).1 e.input).2
    rwa [History.step_of_mem he] at hstep
  refine ⟨fun e he => ⟨(hmid e he).1.consistent, (hmid e he).2.consistent⟩, hend.consistent, ?_⟩
  constructor
  · intro hall e he hstale
    have hfail := (hanswer e he).mpr hstale
    rw [hall e he] at hfail
    cases hfail
  · intro hall e he
    rw [← Bool.not_eq_true, hanswer e he]
    exact hall e he

end Runs

/-! ## A queue that expires before it is cleaned up -/

/-- The queue ids of the run below. -/
def queueName (n : ℕ) : String := String.ofList (List.replicate n 'q')

theorem queueName_injective : Function.Injective queueName := by
  intro m n h
  have hlist := congrArg String.toList h
  simp only [queueName, String.toList_ofList] at hlist
  simpa using congrArg List.length hlist

/-- A web client of a user, with the default timeout. -/
def webClient (userProfileId lastConnectionTime : ℕ) : ClientDict where
  userProfileId := userProfileId
  realmId := 1
  eventQueue := (EventQueue.new "").toDict
  queueTimeout := .unset
  eventTypes := none
  lastConnectionTime := lastConnectionTime
  allPublicStreams := false
  narrow := []
  clientTypeName := "website"
  streamTypingNotifications := false
  includeDeactivatedGroups := false
  archivedChannels := false
  offline := false

/-- The client comes back after ten minutes to delete its queue, and the sweep is faster. -/
def lateCleanup : List Request :=
  [.allocate (webClient 7 0), .access 7 (queueName 0), .gcEventQueues 600, .cleanup 0]

theorem indexes_consistent_lateCleanup :
    let history := History.history (serve queueName id fun _ _ => true) .start lateCleanup
    (∀ e ∈ history, e.pre.Consistent ∧ e.post.Consistent) ∧
      (History.run (serve queueName id fun _ _ => true) .start lateCleanup).Consistent ∧
      ((∀ e ∈ history, e.answer.isKeyError = false) ↔ ∀ e ∈ history, ¬ e.pre.Stale e.input) :=
  indexes_consistent queueName id (fun _ _ => true) queueName_injective lateCleanup

/-- The cleanup fails on the queue that is gone. -/
theorem lateCleanup_fails :
    ¬ ∀ requests, ∀ e ∈ History.history (serve queueName id fun _ _ => true) .start requests,
      e.answer.isKeyError = false := by
  intro hall
  have hsome : ((History.history (serve queueName id fun _ _ => true) .start lateCleanup).map
      (·.answer.isKeyError)) = [false, false, false, true] := by decide
  have hfalse : ∀ b ∈ [false, false, false, true], b = false := by
    rw [← hsome]
    intro b hb
    obtain ⟨e, he, rfl⟩ := mem_map.mp hb
    exact hall lateCleanup e he
  exact Bool.noConfusion (hfalse true (by simp))

end GrowTeam.Tornado
