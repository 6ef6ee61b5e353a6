/-
# The arrival of a message

`process_message_event` notifies the users who are idle at once and hands the message to the
clients; its internal data then says what was sent.
-/
import GrowTeam.Tornado.Movement

namespace GrowTeam.Tornado

open List Tornado.Server UserMessageNotificationsData

/-! ## The clients a message is for -/

/-- The flags under which a message is for a queue. -/
def flagsFor (sendToClients : List (String × List String)) (queueId : String) :
    Option (List String) :=
  (sendToClients.find? (·.1 = queueId)).map (·.2)

section SendTo

variable {l : List (String × List String)} {queueId id : String} {flags : List String}

theorem flagsFor_cons (e : String × List String) :
    flagsFor (e :: l) id = if e.1 = id then some e.2 else flagsFor l id := by
  unfold flagsFor
  by_cases h : e.1 = id
  · rw [if_pos h, find?_cons_of_pos (by simpa using h)]
    rfl
  · rw [if_neg h, find?_cons_of_neg (by simpa using h)]

theorem flagsFor_eq_none : flagsFor l id = none ↔ id ∉ l.map (·.1) := by
  unfold flagsFor
  rw [Option.map_eq_none_iff, find?_eq_none, mem_map]
  constructor
  · rintro hnone ⟨e, he, rfl⟩
    exact hnone e he (decide_eq_true rfl)
  · intro hnot e he hid
    exact hnot ⟨e, he, of_decide_eq_true hid⟩

theorem keys_assign (l : List (String × List String)) (queueId : String) (flags : List String) :
    (assign l queueId flags).map (·.1) =
      if queueId ∈ l.map (·.1) then l.map (·.1) else l.map (·.1) ++ [queueId] := by
  unfold assign
  have hany : l.any (·.1 = queueId) = true ↔ queueId ∈ l.map (·.1) := by
    simp
  by_cases h : queueId ∈ l.map (·.1)
  · rw [if_pos (hany.mpr h), if_pos h, map_map]
    apply map_congr_left
    intro e _
    rw [Function.comp]
    split
    · exact Eq.symm (by assumption)
    · rfl
  · rw [if_neg (mt hany.mp h), if_neg h, map_append, map_singleton]

theorem nodup_assign (h : (l.map (·.1)).Nodup) (queueId : String) (flags : List String) :
    ((assign l queueId flags).map (·.1)).Nodup := by
  rw [keys_assign]
  split
  · exact h
  · next hnot =>
    rw [nodup_append]
    refine ⟨h, nodup_singleton _, ?_⟩
    rintro a ha b hb rfl
    exact hnot (mem_singleton.mp hb ▸ ha)

theorem flagsFor_append (hnot : queueId ∉ l.map (·.1)) :
    flagsFor (l ++ [(queueId, flags)]) id =
      if id = queueId then some flags else flagsFor l id := by
  induction l with
  | nil =>
    rw [nil_append, flagsFor_cons]
    by_cases h : id = queueId
    · rw [if_pos h, if_pos h.symm]
    · rw [if_neg h, if_neg fun h' => h h'.symm]
  | cons e l ih =>
    rw [map_cons, mem_cons, not_or] at hnot
    rw [cons_append, flagsFor_cons, flagsFor_cons, ih hnot.2]
    by_cases he : e.1 = id
    · have hne : id ≠ queueId := fun h => hnot.1 (h.symm.trans he.symm)
      rw [if_pos he, if_pos he, if_neg hne]
    · rw [if_neg he, if_neg he]

theorem flagsFor_assign (l : List (String × List String)) (queueId id : String)
    (flags : List String) :
    flagsFor (assign l queueId flags) id =
      if id = queueId then some flags else flagsFor l id := by
  unfold assign
  by_cases hany : l.any (·.1 = queueId) = true
  · rw [if_pos hany]
    induction l with
    | nil => cases hany
    | cons e l ih =>
      rw [map_cons, flagsFor_cons, flagsFor_cons]
      by_cases he : e.1 = queueId
      · by_cases hid : id = queueId
        · rw [if_pos he, if_pos hid.symm, if_pos hid]
        · have hrest : flagsFor (l.map fun e =>
              if e.1 = queueId then (queueId, flags) else e) id = flagsFor l id := by
            clear ih hany
            induction l with
            | nil => rfl
            | cons f l ih =>
              rw [map_cons, flagsFor_cons, flagsFor_cons, ih]
              by_cases hf : f.1 = queueId
              · rw [if_pos hf, if_neg fun h => hid h.symm, if_neg fun h => hid (h.symm.trans hf)]
              · rw [if_neg hf]
          rw [if_pos he, if_neg fun h => hid h.symm, if_neg hid, hrest,
            if_neg fun h => hid (h.symm.trans he)]
      · have htail : l.any (·.1 = queueId) = true := by
          simpa [he] using hany
        rw [if_neg he, ih htail]
        by_cases hid : id = queueId
        · simp [hid, he]
        · rw [if_neg hid, if_neg hid]
  · rw [if_neg hany]
    refine flagsFor_append ?_
    intro hmem
    obtain ⟨e, he, hk⟩ := mem_map.mp hmem
    exact hany (any_eq_true.mpr ⟨e, he, decide_eq_true hk⟩)

/-- All queues of a user get the flags of the user. -/
theorem flagsFor_assignAll (ids : List String) (l : List (String × List String)) (id : String)
    (flags : List String) :
    flagsFor (ids.foldl (fun l id => assign l id flags) l) id =
      if id ∈ ids then some flags else flagsFor l id := by
  induction ids generalizing l with
  | nil => simp
  | cons a ids ih =>
    rw [foldl_cons, ih, flagsFor_assign]
    by_cases hids : id ∈ ids
    · simp [hids]
    · simp [hids]

theorem nodup_foldl {β : Type} {f : List (String × List String) → β → List (String × List String)}
    (hf : ∀ l b, (l.map (·.1)).Nodup → ((f l b).map (·.1)).Nodup) (bs : List β)
    (h : (l.map (·.1)).Nodup) : ((bs.foldl f l).map (·.1)).Nodup := by
  induction bs generalizing l with
  | nil => exact h
  | cons b bs ih => exact ih (hf l b h)

end SendTo

section Arrival

variable {uuid4 : ℕ → String} {s : Server}

theorem nodup_sendToClients (s : Server) (template : EventTemplate) (users : List UserData) :
    ((s.getClientInfoForMessageEvent template users).map (·.1)).Nodup := by
  refine nodup_foldl ?_ users (nodup_foldl (fun l _ h => nodup_assign h _ _) _ nodup_nil)
  exact fun l user h => nodup_foldl (fun l _ h => nodup_assign h _ _) _ h

variable {users : List UserData}

/-- A message for a user is for all clients of the user, under the flags of the user. -/
theorem Indexed.flags_eq (h : Indexed uuid4 s) (template : EventTemplate)
    (husers : (users.map (·.id)).Nodup) {user : UserData} (huser : user ∈ users)
    {c : ClientDescriptor} (hc : c ∈ s.clients) (hcu : c.userProfileId = user.id) :
    flagsFor (s.getClientInfoForMessageEvent template users) c.eventQueue.id = some user.flags := by
  have hget : ∀ u, c.eventQueue.id ∈ s.userClients.get u ↔ c.userProfileId = u := by
    intro u
    rw [h.consistent.userClients.get u, mem_map]
    constructor
    · rintro ⟨d, hd, hid⟩
      obtain ⟨hmem, hdu⟩ := mem_filter.mp hd
      obtain rfl : d = c := inj_on_of_nodup_map h.consistent.distinct hmem hc hid
      exact Option.some.inj (of_decide_eq_true hdu)
    · rintro rfl
      exact ⟨c, mem_filter.mpr ⟨hc, decide_eq_true rfl⟩, rfl⟩
  -- Users without this client leave its flags alone.
  have hothers : ∀ (users : List UserData) (l : List (String × List String)),
      (∀ user ∈ users, c.userProfileId ≠ user.id) →
      flagsFor (users.foldl (fun l user =>
        (s.userClients.get user.id).foldl (fun l id => assign l id user.flags) l) l)
          c.eventQueue.id = flagsFor l c.eventQueue.id := by
    intro users
    induction users with
    | nil => exact fun _ _ => rfl
    | cons u users ih =>
      intro l hne
      rw [foldl_cons, ih _ fun v hv => hne v (mem_cons_of_mem _ hv), flagsFor_assignAll,
        if_neg]
      rw [hget]
      exact hne u mem_cons_self
  have hall : ∀ (users : List UserData) (l : List (String × List String)),
      (users.map (·.id)).Nodup → user ∈ users →
      flagsFor (users.foldl (fun l user =>
        (s.userClients.get user.id).foldl (fun l id => assign l id user.flags) l) l)
          c.eventQueue.id = some user.flags := by
    intro users
    induction users with
    | nil =>
      intro l _ hmem
      cases hmem
    | cons u users ih =>
      intro l hnodup hmem
      rw [map_cons, nodup_cons] at hnodup
      rw [foldl_cons]
      rcases mem_cons.mp hmem with rfl | hmem
      · rw [hothers, flagsFor_assignAll, if_pos ((hget _).mpr hcu)]
        intro v hv hcv
        exact hnodup.1 (mem_map.mpr ⟨v, hv, hcv.symm.trans hcu⟩)
      · exact ih _ hnodup.2 hmem
  exact hall users _ husers huser

/-! ## What is handed to the clients -/

variable (form : ClientDescriptor → Option Event) (c : ClientDescriptor)

/-- What a client becomes that is sent an event in its form. -/
def receive : ClientDescriptor :=
  match form c with
  | none => c
  | some event => (c.addEvent event).2

theorem registration_receive : (receive form c).registration = c.registration := by
  unfold receive
  cases form c with
  | none => rfl
  | some event => exact c.registration_addEvent event

theorem send_run (hdistinct : (Server.ids s.clients).Nodup)
    (form : ClientDescriptor → Option Event) (queueId : String) :
    (s.send form queueId).clients =
        s.clients.map (fun c => if c.eventQueue.id = queueId then receive form c else c) ∧
      (s.send form queueId).enqueued = s.enqueued := by
  have hfound : ∀ c ∈ s.clients, c.eventQueue.id = queueId → s.find queueId = some c := by
    rintro c hc rfl
    exact find_of_mem hdistinct hc
  unfold send
  cases hevent : (s.find queueId).bind form with
  | none =>
    refine ⟨(map_id _).symm.trans (map_congr_left ?_), rfl⟩
    intro c hc
    split
    · next hid =>
      rw [hfound c hc hid, Option.bind_some] at hevent
      rw [receive, hevent]
      rfl
    · rfl
  | some event =>
    refine ⟨map_congr_left ?_, rfl⟩
    intro c hc
    split
    · next hid =>
      rw [hfound c hc hid, Option.bind_some] at hevent
      rw [receive, hevent]
    · rfl

theorem sendEach_run (form : List String → ClientDescriptor → Option Event)
    {l : List (String × List String)} (hl : (l.map (·.1)).Nodup) {s : Server}
    (hdistinct : (Server.ids s.clients).Nodup) :
    (l.foldl (fun s e => s.send (form e.2) e.1) s).clients = s.clients.map (fun c =>
        match flagsFor l c.eventQueue.id with
        | none => c
        | some flags => receive (form flags) c) ∧
      (l.foldl (fun s e => s.send (form e.2) e.1) s).enqueued = s.enqueued := by
  induction l generalizing s with
  | nil => exact ⟨(map_id _).symm, rfl⟩
  | cons e l ih =>
    rw [map_cons, nodup_cons] at hl
    obtain ⟨hclients, henqueued⟩ := send_run hdistinct (form e.2) e.1
    have hids := (Quiet.send (form e.2) s e.1).ids
    obtain ⟨hrest, hsame⟩ := ih hl.2 (s := s.send (form e.2) e.1) (by rwa [hids])
    rw [foldl_cons]
    refine ⟨?_, hsame.trans henqueued⟩
    rw [hrest, hclients, map_map]
    apply map_congr_left
    intro c _
    rw [Function.comp]
    rw [flagsFor_cons]
    by_cases hid : c.eventQueue.id = e.1
    · have hkeep : (receive (form e.2) c).eventQueue.id = c.eventQueue.id :=
        congrArg Registration.queueId (registration_receive (form e.2) c)
      rw [if_pos hid, if_pos hid.symm, hkeep, hid, flagsFor_eq_none.mpr hl.1]
    · rw [if_neg hid, if_neg fun h => hid h.symm]

theorem held_addMessage (event : MessageEvent) :
    ((c.addEvent (.message event)).2.heldMessages).Perm (c.heldMessages ++ [event]) ∧
      (c.addEvent (.message event)).2.eventTypes = c.eventTypes ∧
      (c.addEvent (.message event)).2.offline = c.offline := by
  have hfinish := Calm.finish { c with eventQueue := c.eventQueue.push (.message event) }
  exact ⟨hfinish.held.trans (messages_push c.eventQueue event), hfinish.eventTypes, hfinish.offline⟩

/-! ## Who is notified at once -/

variable (template : EventTemplate) (user : UserData)

/-- The data about the notifications of a user. -/
def notificationsData : UserMessageNotificationsData :=
  .fromUserIdSets user.id user.flags template.privateMessage template.disableExternalNotifications
    template.userIdSets

/-- The user is to be notified of the message when idle. -/
def due (queue : NoticeQueue) : Bool :=
  ((notificationsData template user).trigger template.senderId true queue).isSome

def Server.isIdle (s : Server) (template : EventTemplate) (user : UserData) : Bool :=
  s.receiverIsOffZulip user.id || template.presenceIdleUserIds.contains user.id

/-- The notice is enqueued when the message arrives. -/
def Server.atOnce (s : Server) (template : EventTemplate) (user : UserData) (queue : NoticeQueue) :
    Bool :=
  ((notificationsData template user).trigger template.senderId (s.isIdle template user)
    queue).isSome

theorem notificationsData_userId : (notificationsData template user).userId = user.id := by
  unfold notificationsData fromUserIdSets
  split <;> rfl

/-- Who is notified when active is notified when idle. -/
theorem trigger_idle {data : UserMessageNotificationsData} {actingUserId : ℕ} {idle : Bool}
    {queue : NoticeQueue} (h : (data.trigger actingUserId idle queue).isSome = true) :
    (data.trigger actingUserId true queue).isSome = true := by
  cases idle with
  | true => exact h
  | false =>
    cases queue with
    | missedmessageEmails => cases h
    | mobileNotifications =>
      unfold UserMessageNotificationsData.trigger
        getPushNotificationTrigger at h ⊢
      by_cases honline : data.onlinePushEnabled = true
      · simpa [honline] using h
      · simp [honline] at h

theorem noticeFor_isSome (data : UserMessageNotificationsData) (actingUserId messageId : ℕ)
    (group : Option ℕ) (idle : Bool) (already : Notified) (queue : NoticeQueue) :
    (noticeFor data actingUserId messageId group idle already queue).isSome =
      ((data.trigger actingUserId idle queue).isSome && !already.of queue) := by
  unfold noticeFor
  cases data.trigger actingUserId idle queue with
  | none => rfl
  | some trigger => cases already.of queue <;> rfl

/-- A turn of the loop over the users: the notices, and what the internal data says of them. -/
theorem considerUser_spec (s : Server) (template : EventTemplate) (user : UserData)
    (queue : NoticeQueue) :
    (∀ userProfileId m, (s.considerUser template user).2.countP
        (Notice.about queue userProfileId m) =
      if user.id = userProfileId ∧ template.messageId = m ∧ s.atOnce template user queue = true
      then 1 else 0) ∧
    ∀ event : MessageEvent, event.senderId = template.senderId →
      event.internalData = some (s.considerUser template user).1 →
      event.missedBy user.id queue =
        (due template user queue && !s.atOnce template user queue) := by
  let data := notificationsData template user
  let enqueued := maybeEnqueueNotifications data template.senderId template.messageId
    user.mentionedUserGroupId (s.isIdle template user) ⟨false, false⟩
  have huser := notificationsData_userId template user
  have hread : ∀ group notified,
      (ofInternalData user.id
        (data.internalData group notified)).trigger template.senderId true queue =
        data.trigger template.senderId true queue := by
    intro group notified
    rw [← huser]
    exact trigger_ofInternalData _ group notified _ queue
  have hconsider : s.considerUser template user =
      if data.isNotifiable template.senderId true then
        (data.internalData user.mentionedUserGroupId enqueued.1, enqueued.2)
      else (data.internalData user.mentionedUserGroupId ⟨false, false⟩, []) := rfl
  have hnever : (Notified.mk false false).of queue = false := by
    cases queue <;> rfl
  rw [hconsider]
  by_cases hnotifiable : data.isNotifiable template.senderId true = true
  · rw [if_pos hnotifiable]
    constructor
    · intro userProfileId m
      rw [countP_enqueued, huser]
      refine if_congr ?_ rfl rfl
      rw [noticeFor_isSome, hnever, Bool.not_false, Bool.and_true]
      rfl
    · intro event hsender hinternal
      rw [MessageEvent.missedBy, hinternal]
      dsimp only
      rw [noticeFor_isSome, hsender, hread]
      have halready : (Notified.mk
          (data.internalData user.mentionedUserGroupId enqueued.1).pushNotified
          (data.internalData user.mentionedUserGroupId enqueued.1).emailNotified).of queue =
            s.atOnce template user queue := by
        have hat := noticeFor_isSome data template.senderId template.messageId
          user.mentionedUserGroupId (s.isIdle template user) ⟨false, false⟩ queue
        rw [hnever, Bool.not_false, Bool.and_true] at hat
        cases queue <;> exact hat
      rw [halready]
      rfl
  · rw [if_neg hnotifiable]
    -- Nothing is due.
    have hdue : due template user queue = false := by
      unfold isNotifiable
        isEmailNotifiable
        isPushNotifiable at hnotifiable
      rw [Bool.or_eq_true, not_or, Bool.not_eq_true, Bool.not_eq_true] at hnotifiable
      cases queue with
      | mobileNotifications => exact hnotifiable.2
      | missedmessageEmails => exact hnotifiable.1
    have hat : s.atOnce template user queue = false := by
      rw [← Bool.not_eq_true]
      intro hat
      have hidle := trigger_idle hat
      rw [due] at hdue
      rw [hdue] at hidle
      cases hidle
    constructor
    · intro userProfileId m
      simp [hat]
    · intro event hsender hinternal
      rw [MessageEvent.missedBy, hinternal]
      dsimp only
      rw [noticeFor_isSome, hsender, hread, hdue, Bool.false_and]
      rw [due] at hdue
      rw [hdue, Bool.false_and]

theorem countP_considered (s : Server) (template : EventTemplate) (users : List UserData)
    (queue : NoticeQueue) (userProfileId m : ℕ) :
    (users.flatMap fun user => (s.considerUser template user).2).countP
        (Notice.about queue userProfileId m) =
      users.countP fun user => decide (user.id = userProfileId) &&
        decide (template.messageId = m) && s.atOnce template user queue := by
  induction users with
  | nil => rfl
  | cons user users ih =>
    rw [flatMap_cons, countP_append, countP_cons, (considerUser_spec s template user queue).1, Nat.add_comm]
    congr 1
    refine if_congr ?_ rfl rfl
    simp [and_assoc]

/-! ## The step -/

variable (lower : String → String) (narrowPredicate : List (List String) → MessageEvent → Bool)

/-- The client is handed the message for the user. -/
def Server.takes (s : Server) (template : EventTemplate) (users : List UserData) (user : UserData)
    (c : ClientDescriptor) : Bool :=
  (Server.userEvent lower narrowPredicate template (s.extraUserData template users) user.flags
    c).isSome

/-- The client after the arrival: it got the message event, or is as it was. -/
structure Received (s : Server) (template : EventTemplate) (users : List UserData)
    (c d : ClientDescriptor) : Prop where
  user : d.userProfileId = c.userProfileId
  eventTypes : d.eventTypes = c.eventTypes
  offline : d.offline = c.offline
  held : d.heldMessages.Perm c.heldMessages ∨ ∃ event : MessageEvent,
    d.heldMessages.Perm (c.heldMessages ++ [event]) ∧ c.acceptsMessages = true ∧
      event.messageId = template.messageId ∧
      ∀ user ∈ users, user.id = c.userProfileId → ∀ queue,
        event.missedBy c.userProfileId queue =
          (due template user queue && !s.atOnce template user queue)
  taken : ∀ user ∈ users, user.id = c.userProfileId →
    s.takes lower narrowPredicate template users user c = true →
      ¬ d.heldMessages.Perm c.heldMessages

/-- The internal data for a user that the message is for. -/
theorem extraUserData_of_mem (s : Server) (template : EventTemplate)
    (husers : (users.map (·.id)).Nodup) {user : UserData} (huser : user ∈ users) :
    s.extraUserData template users user.id = some (s.considerUser template user).1 := by
  unfold extraUserData
  cases hfind : users.reverse.find? (·.id = user.id) with
  | none =>
    have hno := find?_eq_none.mp hfind user (mem_reverse.mpr huser)
    simp at hno
  | some other =>
    have hid := find?_some hfind
    have hmem := mem_reverse.mp (mem_of_find?_eq_some hfind)
    obtain rfl : other = user := inj_on_of_nodup_map husers hmem huser (of_decide_eq_true hid)
    rfl

/-- The event that a client is handed. -/
theorem userEvent_some {template : EventTemplate} {extraData : ℕ → Option InternalData}
    {flags : List String} {c : ClientDescriptor} {got : Event}
    (h : userEvent lower narrowPredicate template extraData flags c = some got) :
    c.acceptsMessages = true ∧ ∃ event : MessageEvent, got = .message event ∧
      event.messageId = template.messageId ∧ event.senderId = template.senderId ∧
      event.internalData = extraData c.userProfileId := by
  unfold userEvent at h
  dsimp only at h
  split at h
  · next haccepts =>
    rw [Bool.and_eq_true, Bool.and_eq_true] at haccepts
    exact ⟨haccepts.1.1, _, (Option.some.inj h).symm, rfl, rfl, rfl⟩
  · cases h

/-- **The arrival of a message.**  Who is notified at once gets one notice, and what the clients
are handed says who was. -/
theorem Indexed.arrival (h : Indexed uuid4 s) (template : EventTemplate)
    (husers : (users.map (·.id)).Nodup) :
    (∀ queue userProfileId m,
      (s.processMessageEvent lower narrowPredicate template users).notices queue userProfileId m =
        s.notices queue userProfileId m +
          users.countP fun user => decide (user.id = userProfileId) &&
            decide (template.messageId = m) && s.atOnce template user queue) ∧
      ∃ f : ClientDescriptor → ClientDescriptor,
        (s.processMessageEvent lower narrowPredicate template users).clients = s.clients.map f ∧
          ∀ c ∈ s.clients, Received lower narrowPredicate s template users c (f c) := by
  let info := s.getClientInfoForMessageEvent template users
  have hrun := sendEach_run (s := { s with
      enqueued := s.enqueued ++ users.flatMap fun user => (s.considerUser template user).2 })
    (userEvent lower narrowPredicate template (s.extraUserData template users))
    (nodup_sendToClients s template users) h.consistent.distinct
  obtain ⟨hclients, henqueued⟩ := hrun
  constructor
  · intro queue userProfileId m
    unfold notices processMessageEvent
    rw [henqueued, countP_append, countP_considered]
  · refine ⟨_, hclients, ?_⟩
    intro c hc
    obtain ⟨form, hform⟩ : ∃ form, form =
        userEvent lower narrowPredicate template (s.extraUserData template users) := ⟨_, rfl⟩
    have hevent : ∀ flags got, form flags c = some got →
        c.acceptsMessages = true ∧ ∃ event : MessageEvent, got = .message event ∧
          event.messageId = template.messageId ∧
          ∀ user ∈ users, user.id = c.userProfileId → ∀ queue,
            event.missedBy c.userProfileId queue =
              (due template user queue && !s.atOnce template user queue) := by
      intro flags got hgot
      rw [hform] at hgot
      obtain ⟨haccepts, event, hmessage, hid, hsender, hinternal⟩ :=
        userEvent_some lower narrowPredicate hgot
      refine ⟨haccepts, event, hmessage, hid, ?_⟩
      intro user huser hcu queue
      rw [← hcu]
      refine (considerUser_spec s template user queue).2 event hsender ?_
      rw [hinternal, ← hcu]
      exact extraUserData_of_mem s template husers huser
    have hsame : Received lower narrowPredicate s template users c c ∨
        ∃ flags got, flagsFor info
          c.eventQueue.id = some flags ∧ form flags c = some got := by
      by_cases hsome : ∃ flags got, flagsFor
          info c.eventQueue.id = some flags ∧
            form flags c = some got
      · exact .inr hsome
      · refine .inl ⟨rfl, rfl, rfl, .inl (.refl _), ?_⟩
        intro user huser hcu htakes
        obtain ⟨got, hgot⟩ := Option.isSome_iff_exists.mp htakes
        rw [← hform] at hgot
        exact absurd ⟨user.flags, got, h.flags_eq template husers huser hc hcu.symm, hgot⟩ hsome
    rw [← hform]
    cases hflags : flagsFor info c.eventQueue.id with
    | none =>
      rcases hsame with hsame | ⟨flags, got, hsome, -⟩
      · exact hsame
      · rw [hflags] at hsome
        cases hsome
    | some flags =>
      dsimp only
      unfold receive
      cases hgot : form flags c with
      | none =>
        rcases hsame with hsame | ⟨other, got, hsome, hother⟩
        · exact hsame
        · rw [hflags] at hsome
          cases hsome
          rw [hgot] at hother
          cases hother
      | some got =>
        obtain ⟨haccepts, event, rfl, hid, hmissed⟩ := hevent flags got hgot
        obtain ⟨hheld, htypes, hoff⟩ := held_addMessage c event
        refine ⟨congrArg Registration.userProfileId (c.registration_addEvent _), htypes, hoff,
          .inr ⟨event, hheld, haccepts, hid, hmissed⟩, ?_⟩
        intro user _ _ _ hperm
        have hlength := (hheld.symm.trans hperm).length_eq
        simp at hlength

end Arrival

end GrowTeam.Tornado
