/-
# The event server

All queues of a server process: `clients` and the indexes that are kept beside it.  A list of
descriptors is the list of their queue ids, and a descriptor is the one that `clients` has under
the id.  Queue ids are `uuid4 0`, `uuid4 1` and so on.

The requests of other processes and of clients, the timers and a restart are the steps.  A view
runs in a thread of its own and only its last call in the thread of the server, so a request to
clean up a queue takes two steps.
-/
import GrowTeam.Index
import GrowTeam.Tornado.Notifications
import GrowTeam.Tornado.Polling

namespace GrowTeam.Tornado

/-- A descriptor that a request has looked up. -/
structure Accessed where
  queueId : String
  userProfileId : ℕ
  realmId : ℕ

/-- `enqueued` are the notices on the queues of the workers, `responses` what was answered to
requests that waited, and `issued` counts the queue ids. -/
structure Server where
  clients : List ClientDescriptor
  userClients : Index ℕ String
  realmClientsAllStreams : Index ℕ String
  webReloadClients : List String
  accessed : List Accessed
  enqueued : List Notice
  responses : List Response
  issued : ℕ

/-- The part of an event template that `process_message_event` reads.  `body` is what
`finalize_payload` makes of the message for a client, with `invite_only_stream` and
`local_message_id`. -/
structure EventTemplate where
  messageId : ℕ
  senderId : ℕ
  privateMessage : Bool
  sendingClient : String
  body : ClientDescriptor → String
  streamName : Option String
  inviteOnly : Bool
  isWebPublic : Bool
  realmId : ℕ
  realmGuestUserIds : List ℕ
  presenceIdleUserIds : List ℕ
  disableExternalNotifications : Bool
  userIdSets : UserIdSets

/-- An entry of `users`. -/
structure UserData where
  id : ℕ
  flags : List String
  mentionedUserGroupId : Option ℕ

/-- An event other than a message. -/
inductive PlainEvent where
  | updateMessageFlags (event : FlagsEvent)
  | other (event : OtherEvent)

def PlainEvent.event : PlainEvent → Event
  | .updateMessageFlags event => .updateMessageFlags event
  | .other event => .other event

inductive Request where
  /-- A poll that registers a queue. -/
  | allocate (newQueueData : ClientDict)
  | message (template : EventTemplate) (users : List UserData)
  /-- Any other notification; `form` is what its `process_..._event` sends to a client. -/
  | event (users : List ℕ) (form : ClientDescriptor → Option PlainEvent)
  | fetch (userProfileId : ℕ) (queueId : String) (lastEventId : ℤ) (dontBlock : Bool)
      (handler : ℕ) (clientName : String) (now : ℕ)
  /-- The connection of a request that waits is closed. -/
  | disconnect (queueId : String)
  /-- The `timeout_callback` of a request that waits. -/
  | heartbeat (queueId : String)
  | gcEventQueues (now : ℕ)
  /-- `cleanup_event_queue` looks up the descriptor. -/
  | access (userProfileId : ℕ) (queueId : String)
  /-- The `cleanup` of the `i`-th descriptor that was looked up. -/
  | cleanup (i : ℕ)
  /-- The event of another server process that forwards a request to clean up. -/
  | cleanupQueue (userProfileId : ℕ) (queueId : String)
  | webReloadClients (immediate : Bool) (count : Option ℤ)
  /-- The process dumps its queues, and another one starts; `readable` is whether that finds the
  dump, and `sendReloads` whether it reloads the clients at once. -/
  | restart (readable : Bool) (sendReloads : Option Bool)

/-- `keyError` is the one of a lookup in `clients`. -/
inductive Answer where
  | done
  | fetched (result : Fetched)
  | badEventQueueId (queueId : String)
  | keyError (queueId : String)

def Answer.isKeyError : Answer → Bool
  | .keyError _ => true
  | _ => false

/-- What a loop over queue ids comes to: the id it failed on, if it failed. -/
def Answer.ofMissing : Option String → Answer
  | none => .done
  | some queueId => .keyError queueId

namespace Server

/-! ## Descriptors -/

variable (s : Server)

/-- `clients.get(queue_id)` -/
def find (queueId : String) : Option ClientDescriptor :=
  s.clients.find? (·.eventQueue.id = queueId)

def modify (queueId : String) (f : ClientDescriptor → ClientDescriptor) : Server :=
  { s with clients := s.clients.map fun c => if c.eventQueue.id = queueId then f c else c }

/-- A step of one descriptor that may answer the request that waits for it. -/
def act (queueId : String) (f : ClientDescriptor → Option Response × ClientDescriptor) : Server :=
  { s.modify queueId fun c => (f c).2 with
    responses := s.responses ++
      ((s.find queueId).bind fun c => (f c).1).toList }

variable (userProfileId : ℕ)

def accessClientDescriptor (queueId : String) : Option ClientDescriptor :=
  (s.find queueId).filter (·.userProfileId = userProfileId)

def getClientDescriptorsForUser : List ClientDescriptor :=
  (s.userClients.get userProfileId).filterMap s.find

def addToClientDicts (client : ClientDescriptor) : Server :=
  { s with
    userClients := s.userClients.add client.userProfileId client.eventQueue.id
    realmClientsAllStreams :=
      if client.allPublicStreams || !client.narrow.isEmpty then
        s.realmClientsAllStreams.add client.realmId client.eventQueue.id
      else s.realmClientsAllStreams }

variable (form : ClientDescriptor → Option Event)

/-- An event in the form for each client. -/
def send (queueId : String) : Server :=
  match (s.find queueId).bind form with
  | none => s
  | some event => s.act queueId (·.addEvent event)

def sendAll (queueIds : List String) : Server :=
  queueIds.foldl (·.send form) s

/-! ## Garbage collection -/

/-- The message events in a queue. -/
def messages (entries : List (Feed.Item Event)) : List MessageEvent :=
  entries.filterMap fun e =>
    match e.body with
    | .message event => some event
    | _ => none

def missedmessageHook (client : ClientDescriptor) (lastClientForUser : Bool) : Server :=
  if lastClientForUser && !client.offline then
    { s.modify client.eventQueue.id fun c => { c with eventQueue := c.eventQueue.settle } with
      enqueued := s.enqueued ++
        (messages client.eventQueue.merged).flatMap (missedNotices client.userProfileId) }
  else s

/-- The loop of `do_gc_event_queues` over the ids to remove. -/
def removeEach : List String → Server → Option String × Server
  | [], s => (none, s)
  | id :: ids, s =>
    let s := { s with webReloadClients := s.webReloadClients.erase id }
    match s.find id with
    | none => (some id, s)
    | some client =>
      let s := s.missedmessageHook client (!s.userClients.has client.userProfileId)
      removeEach ids { s with clients := s.clients.filter (·.eventQueue.id ≠ id) }

def doGcEventQueues (toRemove : List String) (affectedUsers affectedRealms : List ℕ) (s : Server) :
    Option String × Server :=
  removeEach toRemove
    { s with
      userClients := affectedUsers.foldl (fun ix k => ix.discard k toRemove.contains) s.userClients
      realmClientsAllStreams :=
        affectedRealms.foldl (fun ix k => ix.discard k toRemove.contains)
          s.realmClientsAllStreams }

/-- The loop of `mark_clients_offline` over the ids to mark. -/
def markEach (usersWithActiveQueues : List ℕ) : List String → Server → Option String × Server
  | [], s => (none, s)
  | id :: ids, s =>
    match s.find id with
    | none => (some id, s)
    | some client =>
      let s := s.missedmessageHook client (!usersWithActiveQueues.contains client.userProfileId)
      markEach usersWithActiveQueues ids (s.modify id fun c => { c with offline := true })

def markClientsOffline (toMarkOffline : List String) (affectedUsers : List ℕ) (s : Server) :
    Option String × Server :=
  let usersWithActiveQueues := affectedUsers.filter fun user =>
    (s.getClientDescriptorsForUser user).any fun c =>
      c.acceptsMessages && !c.offline && !toMarkOffline.contains c.eventQueue.id
  markEach usersWithActiveQueues toMarkOffline s

def ids (clients : List ClientDescriptor) : List String := clients.map (·.eventQueue.id)

def gcEventQueues (now : ℕ) (s : Server) : Option String × Server :=
  let toRemove := s.clients.filter (·.expired now)
  let toMarkOffline := s.clients.filter fun c => !c.expired now && c.shouldMarkOffline now
  match s.doGcEventQueues (ids toRemove) (toRemove.map (·.userProfileId))
      (toRemove.map (·.realmId)) with
  | (some id, s) => (some id, s)
  | (none, s) =>
    s.markClientsOffline (ids toMarkOffline) (toMarkOffline.map (·.userProfileId))

/-- `ClientDescriptor.cleanup`.  A descriptor whose queue is gone has no handler to finish. -/
def cleanup (client : Accessed) (s : Server) : Option String × Server :=
  (s.act client.queueId (·.finishCurrentHandler)).doGcEventQueues
    [client.queueId] [client.userProfileId] [client.realmId]

/-! ## Messages -/

def receiverIsOffZulip : Bool :=
  (s.getClientDescriptorsForUser userProfileId).all fun c => !(c.acceptsMessages && !c.offline)

/-- `send_to_clients[queue_id] = …`, with the flags of the user. -/
def assign (sendToClients : List (String × List String)) (queueId : String) (flags : List String) :
    List (String × List String) :=
  if sendToClients.any (·.1 = queueId) then
    sendToClients.map fun e => if e.1 = queueId then (queueId, flags) else e
  else sendToClients ++ [(queueId, flags)]

variable (template : EventTemplate)

def getClientInfoForMessageEvent (users : List UserData) : List (String × List String) :=
  let allStreams :=
    if template.streamName.isSome && !template.inviteOnly then
      ((s.realmClientsAllStreams.get template.realmId).filterMap s.find).filter fun c =>
        template.isWebPublic || !template.realmGuestUserIds.contains c.userProfileId
    else []
  let sendToClients := allStreams.foldl (fun l c => assign l c.eventQueue.id []) []
  users.foldl
    (fun l user => (s.userClients.get user.id).foldl (fun l id => assign l id user.flags) l)
    sendToClients

/-- The turn of the loop over `users`: the internal data for the user, and what is enqueued. -/
def considerUser (user : UserData) : InternalData × List Notice :=
  let data := UserMessageNotificationsData.fromUserIdSets user.id user.flags
    template.privateMessage template.disableExternalNotifications template.userIdSets
  if data.isNotifiable template.senderId true then
    let idle := s.receiverIsOffZulip user.id || template.presenceIdleUserIds.contains user.id
    let (notified, notices) := maybeEnqueueNotifications data template.senderId template.messageId
      user.mentionedUserGroupId idle ⟨false, false⟩
    (data.internalData user.mentionedUserGroupId notified, notices)
  else (data.internalData user.mentionedUserGroupId ⟨false, false⟩, [])

/-- `extra_user_data.get(user_profile_id)` -/
def extraUserData (users : List UserData) (userProfileId : ℕ) : Option InternalData :=
  (users.reverse.find? (·.id = userProfileId)).map fun user => (s.considerUser template user).1

end Server

section Step

variable (uuid4 : ℕ → String) (lower : String → String)
  (narrowPredicate : List (List String) → MessageEvent → Bool)

namespace Server

variable (template : EventTemplate)

/-- A client of the kind that mirrors messages does not get those it sent itself. -/
def mirrors (client : ClientDescriptor) : Bool :=
  template.sendingClient.toList.tails.any ("mirror".toList.isPrefixOf ·) &&
    decide (lower template.sendingClient = lower client.clientTypeName)

/-- The event of a message for a client, if it gets one. -/
def userEvent (extraData : ℕ → Option InternalData)
    (flags : List String) (client : ClientDescriptor) : Option Event :=
  let event : Event := .message
    { messageId := template.messageId
      senderId := template.senderId
      flags := flags
      body := template.body client
      internalData := extraData client.userProfileId }
  if client.acceptsMessages && client.acceptsEvent narrowPredicate event &&
      !mirrors lower template client then
    some event
  else none

def processMessageEvent (users : List UserData) (s : Server) : Server :=
  let sendToClients := s.getClientInfoForMessageEvent template users
  let extraData := s.extraUserData template users
  let notified := { s with
    enqueued := s.enqueued ++ users.flatMap fun user => (s.considerUser template user).2 }
  sendToClients.foldl
    (fun s e => s.send (userEvent lower narrowPredicate template extraData e.2) e.1) notified

/-- `process_event`, for an event that each client gets in a form of its own. -/
def processEvent (users : List ℕ) (form : ClientDescriptor → Option PlainEvent) (s : Server) :
    Server :=
  users.foldl
    (fun s user => s.sendAll (fun c => (form c).map (·.event)) (s.userClients.get user)) s

/-! ## Reloads -/

def webReloadClient (immediate : Bool) : Event :=
  .other { type := "web_reload_client", body := if immediate then "immediate" else "" }

def restartEvent : Event := .other { type := "restart" }

/-- The event, for clients that accept it. -/
def accepted (event : Event) (client : ClientDescriptor) : Option Event :=
  if client.acceptsEvent narrowPredicate event then some event else none

/-- The queue ids to reload, by realm. -/
def clientsToReload (clients : List ClientDescriptor) : List String :=
  ids ((clients.filter fun c => c.acceptsEvent narrowPredicate
    (.other { type := "web_reload_client" })).insertionSort (·.realmId ≤ ·.realmId))

/-- `queue_ids[:count]` -/
def firstOf (count : Option ℤ) (queueIds : List String) : List String :=
  match count with
  | none => queueIds
  | some (.ofNat n) => queueIds.take n
  | some (.negSucc n) => queueIds.take (queueIds.length - (n + 1))

def reloadEach (event : Event) : List String → Server → Option String × Server
  | [], s => (none, s)
  | id :: ids, s =>
    let s := { s with webReloadClients := s.webReloadClients.erase id }
    match s.find id with
    | none => (some id, s)
    | some _ => reloadEach event ids (s.send (accepted narrowPredicate event) id)

def sendWebReloadClientEvents (immediate : Bool) (count : Option ℤ) (s : Server) :
    Option String × Server :=
  reloadEach narrowPredicate (webReloadClient immediate) (firstOf count s.webReloadClients) s

/-! ## Allocation and restarts -/

def allocateClientDescriptor (newQueueData : ClientDict) (s : Server) : Server :=
  let client := allocated (uuid4 s.issued) newQueueData
  { s with clients := s.clients ++ [client], issued := s.issued + 1 }.addToClientDicts client

def dumpEventQueues (s : Server) : List (String × ClientDict) :=
  s.clients.map fun c => (c.eventQueue.id, c.toDict)

/-- A process that has just started. -/
def fresh (s : Server) : Server :=
  { s with
    clients := []
    userClients := .empty
    realmClientsAllStreams := .empty
    webReloadClients := []
    accessed := [] }

def loadEventQueues (data : List (String × ClientDict)) (s : Server) : Server :=
  let clients := data.map fun e => ClientDescriptor.fromDict e.2
  clients.foldl addToClientDicts
    { s with clients := clients, webReloadClients := clientsToReload narrowPredicate clients }

/-- The old process dumps its queues, and `setup_event_queue` of the new one. -/
def restart (readable : Bool) (sendReloads : Option Bool) (s : Server) : Option String × Server :=
  let loaded :=
    loadEventQueues narrowPredicate (if readable then s.dumpEventQueues else []) s.fresh
  let restarted := loaded.sendAll (accepted narrowPredicate restartEvent) (ids loaded.clients)
  match sendReloads with
  | some immediate => sendWebReloadClientEvents narrowPredicate immediate none restarted
  | none => (none, restarted)

/-- A poll with the id of a queue. -/
def fetch (userProfileId : ℕ) (queueId : String) (lastEventId : ℤ) (dontBlock : Bool)
    (handler : ℕ) (clientName : String) (now : ℕ) (s : Server) : Answer × Server :=
  match s.accessClientDescriptor userProfileId queueId with
  | none => (.badEventQueueId queueId, s)
  | some client =>
    (.fetched (client.fetchEvents lastEventId dontBlock handler clientName now).1,
      s.act queueId fun c => (c.fetchEvents lastEventId dontBlock handler clientName now).2)

end Server

/-- A failure on a missing queue id, as an answer. -/
def Server.answer (result : Option String × Server) : Answer × Server :=
  (.ofMissing result.1, result.2)

def serve : Request → Server → Answer × Server
  | .allocate newQueueData, s => (.done, s.allocateClientDescriptor uuid4 newQueueData)
  | .message template users, s =>
    (.done, s.processMessageEvent lower narrowPredicate template users)
  | .event users form, s => (.done, s.processEvent users form)
  | .fetch userProfileId queueId lastEventId dontBlock handler clientName now, s =>
    s.fetch userProfileId queueId lastEventId dontBlock handler clientName now
  | .disconnect queueId, s => (.done, s.modify queueId (·.disconnectHandler))
  | .heartbeat queueId, s =>
    (.done, s.act queueId fun c => if c.timeoutHandle then c.timeoutCallback else (none, c))
  | .gcEventQueues now, s => Server.answer (s.gcEventQueues now)
  | .access userProfileId queueId, s =>
    match s.accessClientDescriptor userProfileId queueId with
    | none => (.badEventQueueId queueId, s)
    | some client =>
      (.done, { s with accessed := s.accessed ++ [⟨queueId, client.userProfileId, client.realmId⟩] })
  | .cleanup i, s =>
    match s.accessed[i]? with
    | none => (.done, s)
    | some client => Server.answer ({ s with accessed := s.accessed.eraseIdx i }.cleanup client)
  | .cleanupQueue userProfileId queueId, s =>
    match s.accessClientDescriptor userProfileId queueId with
    | none => (.done, s)
    | some client => Server.answer (s.cleanup ⟨queueId, client.userProfileId, client.realmId⟩)
  | .webReloadClients immediate count, s =>
    Server.answer (s.sendWebReloadClientEvents narrowPredicate immediate count)
  | .restart readable sendReloads, s =>
    Server.answer (s.restart narrowPredicate readable sendReloads)

def Server.start : Server := ⟨[], .empty, .empty, [], [], [], [], 0⟩

end Step

end GrowTeam.Tornado
