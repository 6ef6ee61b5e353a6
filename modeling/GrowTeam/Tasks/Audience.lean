/-
# Who sees a card, and who is told about it

`zerver/lib/tasks.py` decides three times who sees a card: `visible_tasks` filters a board,
`user_can_access_task` checks one card, and `task_event_audience` lists whom its events go to.
The first two ask for content access to the channel of the card.  The third is written by hand
from the subscriptions and the kind of the channel.

A request loads a card once and acts on that object, so what it announces may be a copy whose
channel is gone by now.  The channel of a stored card is set to null when the channel is deleted.
-/
import GrowTeam.Chat.Access
import GrowTeam.History
import GrowTeam.Tasks.Cards
import Mathlib.Data.List.Dedup
import Mathlib.Data.List.Sort

namespace GrowTeam.Tasks

open History List Table
open Chat (Tables UserProfile Stream)

/-! ## Reading cards -/

variable (t : Tables) (user : UserProfile)

def getContentAccessStreams (streams : List Stream) : List Stream :=
  streams.filter fun stream =>
    t.userHasContentAccess user stream (t.isSubscribed user.id stream.recipientId)

def readableStreamIds (streamIds : List ℕ) : List ℕ :=
  if streamIds = [] then []
  else
    (getContentAccessStreams t user
      (t.streams.rows.filter fun stream => stream.id ∈ streamIds && stream.realmId = user.realmId)).map
      (·.id)

/-- The cards of a board that the user may read; the order of the query is left out. -/
def visibleTasks (board : ℕ) (tasks : List Task) : List Task :=
  let candidates := tasks.filter fun task => task.board = board && task.realm = user.realmId
  let allowed := readableStreamIds t user (candidates.filterMap (·.stream))
  candidates.filter fun task =>
    match task.stream with
    | none => true
    | some stream => stream ∈ allowed

def userCanAccessTask (task : Task) : Bool :=
  if task.realm ≠ user.realmId then false
  else
    match task.stream with
    | none => true
    | some stream => stream ∈ readableStreamIds t user [stream]

/-! ## The audience of an event -/

def activeUserIds (realm : ℕ) : List ℕ :=
  (t.users.rows.filter fun user => user.realmId = realm && user.isActive).map (·.id)

def activeNonGuestUserIds (realm : ℕ) : List ℕ :=
  (t.users.rows.filter fun user => user.realmId = realm && user.isActive && !user.isGuest).map (·.id)

/-- `get_active_subscriptions_for_stream_id`; `is_user_active` is copied from the user's row. -/
def activeSubscriberIds (stream : Stream) : List ℕ :=
  (t.subscriptions.filter fun sub =>
    sub.recipientId = stream.recipientId && sub.active &&
      (t.users.get? sub.userProfileId).any (·.isActive)).map (·.userProfileId)

/-- `sorted(set(…))`. -/
def sortedSet (ids : List ℕ) : List ℕ := ids.dedup.insertionSort (· ≤ ·)

def taskEventAudience (realm : ℕ) (task : Task) : List ℕ :=
  match task.stream with
  | none => activeUserIds t realm
  | some id =>
    match t.streams.get? id with
    | none => activeUserIds t realm
    | some stream =>
      if stream.inviteOnly then sortedSet (activeSubscriberIds t stream)
      else sortedSet (activeNonGuestUserIds t realm ++ activeSubscriberIds t stream)

/-! ## Requests -/

variable (id : ℕ)

/-- `access_stream_by_id`, with content access. -/
def accessStreamById : Option Stream :=
  match t.streams.get? id with
  | some stream =>
    if stream.realmId = user.realmId ∧ stream.deactivated = false ∧
        t.userHasContentAccess user stream (t.isSubscribed user.id stream.recipientId) = true then
      some stream
    else none
  | none => none

def accessTaskById (tasks : List Task) : Option Task :=
  match tasks.find? fun task => task.id = id && task.realm = user.realmId with
  | some task => if userCanAccessTask t user task then some task else none
  | none => none

/-- The channel in which a card was created, and whether it was private then. -/
structure Origin where
  task : ℕ
  stream : ℕ
  inviteOnly : Bool
  deriving DecidableEq

/-- The rows, the cards that requests have loaded, and of the past the channels in which cards
were created and those that were deleted. -/
structure Office where
  tables : Tables
  board : Board
  loaded : List Task
  origins : List Origin
  removed : List ℕ

inductive Op where
  | add
  | update
  | remove
  deriving DecidableEq

/-- A step: a request, a step of one, or a change of the chat. -/
inductive Act where
  | create (user now : ℕ) (creation : Creation)
  | load (user task : ℕ)
  | update (i user now : ℕ) (changes : Changes)
  | move (i user now : ℕ) (previousColumn column : TaskBoardColumn) (position : Option ℚ)
  | delete (i : ℕ)
  /-- Users, subscriptions, groups, messages or the settings of channels change. -/
  | chat (after : Tables)
  | deleteStream (id : ℕ)
  | deleteMessage (id : ℕ)

inductive Reply where
  | quiet
  | refused
  | sent (op : Op) (task : Task) (audience : List ℕ)

def sendTaskEvent (task : Task) (op : Op) : Reply :=
  .sent op task (taskEventAudience t task.realm task)

variable (o : Office)

/-- The view `create_task` and `do_create_task` for the user who asks. -/
def Office.create (user : UserProfile) (now : ℕ) (creation : Creation) : Reply × Office :=
  let creation := { creation with userProfile := user.id, realm := user.realmId }
  let stream := creation.stream.bind (accessStreamById o.tables user)
  if creation.stream.isSome ∧ stream = none then (.refused, o)
  else if creation.originMessage.any fun id =>
      !(o.tables.accessMessage user id false).toBool then (.refused, o)
  else
    let task := creation.task o.board.nextId (nextCounter creation.realm o.board.tasks)
      (positionAtEnd creation.column.id o.board.tasks) now
    (sendTaskEvent o.tables task .add, { o with
      board := { tasks := o.board.tasks ++ [task], history := o.board.history ++ [creation.history task],
                 nextId := o.board.nextId + 1 }
      origins := o.origins ++ (stream.map fun s => ⟨task.id, s.id, s.inviteOnly⟩).toList })

/-- An action on a loaded card: its event, if the row is still there. -/
def Office.act (task : Task) (board : Option Board) : Reply × Office :=
  match board with
  | some board => (sendTaskEvent o.tables task .update, { o with board := board })
  | none => (.refused, o)

/-- Every channel is kept in its realm, and none that was deleted comes back. -/
def Keeps (before after : Tables) (removed : List ℕ) : Prop :=
  (∀ x ∈ before.streams.rows, ∃ y ∈ after.streams.rows, y.id = x.id ∧ y.realmId = x.realmId) ∧
    ∀ y ∈ after.streams.rows, y.id ∉ removed

instance (before after : Tables) (removed : List ℕ) : Decidable (Keeps before after removed) :=
  inferInstanceAs (Decidable (_ ∧ _))

/-- The rows without those of one key. -/
def erased {α : Type} {key : α → ℕ} (t : Table key) (id : ℕ) : Table key where
  rows := t.rows.filter (key · ≠ id)
  sorted := (t.sorted.sublist (t.rows.filter_sublist.map key))

/-- `SET_NULL` on the channel of a card. -/
def Task.forgetStream (task : Task) : Task :=
  if task.stream = some id then { task with stream := none } else task

/-- `SET_NULL` on the origin message of a card. -/
def Task.forgetMessage (task : Task) : Task :=
  if task.originMessage = some id then { task with originMessage := none } else task

def Office.deleteStream (o : Office) (id : ℕ) : Office :=
  { o with
    tables := { o.tables with streams := erased o.tables.streams id }
    board := { o.board with tasks := o.board.tasks.map (Task.forgetStream id) }
    removed := o.removed ++ [id] }

def Office.deleteMessage (o : Office) (id : ℕ) : Office :=
  { o with
    tables := { o.tables with messages := erased o.tables.messages id }
    board := { o.board with tasks := o.board.tasks.map (Task.forgetMessage id) } }

def work : Act → Office → Reply × Office
  | .create user now creation, o =>
    match o.tables.users.get? user with
    | some user => o.create user now creation
    | none => (.refused, o)
  | .load user task, o =>
    match (o.tables.users.get? user).bind fun user =>
        accessTaskById o.tables user task o.board.tasks with
    | some task => (.quiet, { o with loaded := o.loaded ++ [task] })
    | none => (.refused, o)
  | .update i user now changes, o =>
    match o.loaded[i]? with
    | some task =>
      if changes.fields = [] then (.quiet, o)
      else o.act task (doUpdateTask user now task changes o.board)
    | none => (.refused, o)
  | .move i user now previousColumn column position, o =>
    match o.loaded[i]? with
    | some task => o.act task (doMoveTask user now task previousColumn column position o.board)
    | none => (.refused, o)
  | .delete i, o =>
    match o.loaded[i]? with
    | some task =>
      (sendTaskEvent o.tables task .remove, { o with board := o.board.remove [task.id] })
    | none => (.refused, o)
  | .chat after, o =>
    if Keeps o.tables after o.removed then (.quiet, { o with tables := after }) else (.refused, o)
  | .deleteStream id, o => (.quiet, o.deleteStream id)
  | .deleteMessage id, o => (.quiet, o.deleteMessage id)

/-- A chat without cards. -/
def Office.start (tables : Tables) : Office := ⟨tables, ⟨[], [], 1⟩, [], [], []⟩

/-! ## The three rules side by side -/

section Rules

variable {t : Tables} {user : UserProfile} {stream : Stream} {row : Task}

theorem mem_sortedSet {id : ℕ} {ids : List ℕ} : id ∈ sortedSet ids ↔ id ∈ ids := by
  rw [sortedSet, mem_insertionSort, mem_dedup]

theorem mem_readableStreamIds {id : ℕ} {ids : List ℕ} :
    id ∈ readableStreamIds t user ids ↔ id ∈ ids ∧ ∃ x ∈ t.streams.rows, x.id = id ∧
      x.realmId = user.realmId ∧
      t.userHasContentAccess user x (t.isSubscribed user.id x.recipientId) = true := by
  unfold readableStreamIds getContentAccessStreams
  by_cases hids : ids = []
  · simp [hids]
  · rw [if_neg hids]
    simp only [mem_map, mem_filter, Bool.and_eq_true, decide_eq_true_eq]
    constructor
    · rintro ⟨x, ⟨⟨hx, hmem, hrealm⟩, haccess⟩, rfl⟩
      exact ⟨hmem, x, hx, rfl, hrealm, haccess⟩
    · rintro ⟨hmem, x, hx, rfl, hrealm, haccess⟩
      exact ⟨x, ⟨⟨hx, hmem, hrealm⟩, haccess⟩, rfl⟩

/-- The user reads the channel with this identifier. -/
def CanRead (t : Tables) (user : UserProfile) (id : ℕ) : Prop :=
  ∃ x ∈ t.streams.rows, x.id = id ∧ x.realmId = user.realmId ∧
    t.userHasContentAccess user x (t.isSubscribed user.id x.recipientId) = true

/-- A card without a channel is open to its realm, another one to the readers of its channel. -/
theorem userCanAccessTask_iff :
    userCanAccessTask t user row = true ↔
      row.realm = user.realmId ∧ ∀ id, row.stream = some id → CanRead t user id := by
  unfold userCanAccessTask
  by_cases hrealm : row.realm = user.realmId
  · cases hstream : row.stream with
    | none => simp [hrealm]
    | some id => simp [mem_readableStreamIds, hrealm, CanRead]
  · simp [hrealm]

/-- The filter of a board and the check of one card agree. -/
theorem mem_visibleTasks {board : ℕ} {tasks : List Task} :
    row ∈ visibleTasks t user board tasks ↔
      row ∈ tasks ∧ row.board = board ∧ userCanAccessTask t user row = true := by
  rw [userCanAccessTask_iff]
  unfold visibleTasks
  simp only [mem_filter, Bool.and_eq_true, decide_eq_true_eq]
  constructor
  · rintro ⟨⟨hrow, hboard, hrealm⟩, hallowed⟩
    refine ⟨hrow, hboard, hrealm, ?_⟩
    intro id hstream
    rw [hstream] at hallowed
    exact (mem_readableStreamIds.mp (of_decide_eq_true hallowed)).2
  · rintro ⟨hrow, hboard, hrealm, hread⟩
    refine ⟨⟨hrow, hboard, hrealm⟩, ?_⟩
    cases hstream : row.stream with
    | none => rfl
    | some id =>
      apply decide_eq_true
      refine mem_readableStreamIds.mpr ⟨?_, hread id hstream⟩
      refine mem_filterMap.mpr ⟨row, mem_filter.mpr ⟨hrow, ?_⟩, hstream⟩
      simp [hboard, hrealm]

theorem mem_activeUserIds (huser : user ∈ t.users.rows) (hactive : user.isActive = true)
    {realm : ℕ} : user.id ∈ activeUserIds t realm ↔ user.realmId = realm := by
  simp only [activeUserIds, mem_map, mem_filter, Bool.and_eq_true, decide_eq_true_eq]
  constructor
  · rintro ⟨other, ⟨hother, hrealm, -⟩, hid⟩
    rwa [ext_key hother huser hid] at hrealm
  · intro hrealm
    exact ⟨user, ⟨huser, hrealm, hactive⟩, rfl⟩

theorem mem_activeNonGuestUserIds (huser : user ∈ t.users.rows) (hactive : user.isActive = true)
    {realm : ℕ} :
    user.id ∈ activeNonGuestUserIds t realm ↔ user.realmId = realm ∧ user.isGuest = false := by
  simp only [activeNonGuestUserIds, mem_map, mem_filter, Bool.and_eq_true,
    decide_eq_true_eq, Bool.not_eq_true']
  constructor
  · rintro ⟨other, ⟨hother, ⟨hrealm, -⟩, hguest⟩, hid⟩
    rw [ext_key hother huser hid] at hrealm hguest
    exact ⟨hrealm, hguest⟩
  · rintro ⟨hrealm, hguest⟩
    exact ⟨user, ⟨huser, ⟨hrealm, hactive⟩, hguest⟩, rfl⟩

theorem mem_activeSubscriberIds (huser : user ∈ t.users.rows) (hactive : user.isActive = true) :
    user.id ∈ activeSubscriberIds t stream ↔
      t.isSubscribed user.id stream.recipientId = true := by
  have hrow : t.users.get? user.id = some user := get?_eq_some.mpr ⟨huser, rfl⟩
  simp only [activeSubscriberIds, Tables.isSubscribed, mem_map, mem_filter,
    any_eq_true, Bool.and_eq_true, decide_eq_true_eq]
  constructor
  · rintro ⟨sub, ⟨hsub, ⟨hrecipient, hsubscribed⟩, -⟩, hid⟩
    exact ⟨sub, hsub, ⟨hid, hsubscribed⟩, hrecipient⟩
  · rintro ⟨sub, hsub, ⟨hid, hsubscribed⟩, hrecipient⟩
    refine ⟨sub, ⟨hsub, ⟨hrecipient, hsubscribed⟩, ?_⟩, hid⟩
    rw [hid, hrow]
    simpa using hactive

/-- The audience of a card passes over a reader of its channel, or names someone who is none. -/
def Overlooked (t : Tables) (user : UserProfile) (row : Task) : Prop :=
  ∃ stream ∈ t.streams.rows, row.stream = some stream.id ∧
    if user.realmId = row.realm then
      t.isSubscribed user.id stream.recipientId = false ∧
        if stream.isWebPublic = true then stream.inviteOnly = true ∨ user.isGuest = true
        else stream.inviteOnly = true ∧ user.isGuest = false ∧
          Chat.isUserInGroupsGrantingContentAccess stream (t.recursiveMembershipGroups user) = true
    else t.isSubscribed user.id stream.recipientId = true

/-- Without a channel the realm is told, which is who sees the card. -/
theorem audience_iff_of_none (huser : user ∈ t.users.rows) (hactive : user.isActive = true)
    (hrow : row.stream = none) :
    user.id ∈ taskEventAudience t row.realm row ↔ userCanAccessTask t user row = true := by
  rw [userCanAccessTask_iff, taskEventAudience, hrow, mem_activeUserIds huser hactive]
  simp [eq_comm]

section Channel

variable (huser : user ∈ t.users.rows) (hactive : user.isActive = true)
  (hstream : stream ∈ t.streams.rows) (hrow : row.stream = some stream.id)

include huser hactive hstream hrow in
theorem mem_taskEventAudience :
    user.id ∈ taskEventAudience t row.realm row ↔
      (stream.inviteOnly = false ∧ user.realmId = row.realm ∧ user.isGuest = false) ∨
        t.isSubscribed user.id stream.recipientId = true := by
  have hget : t.streams.get? stream.id = some stream := get?_eq_some.mpr ⟨hstream, rfl⟩
  simp only [taskEventAudience, hrow, hget]
  cases hinvite : stream.inviteOnly
  · simp [mem_sortedSet, mem_activeNonGuestUserIds huser hactive,
      mem_activeSubscriberIds huser hactive]
  · simp [mem_sortedSet, mem_activeSubscriberIds huser hactive]

include hstream hrow in
theorem canAccess_of_stream (hrealm : stream.realmId = row.realm) :
    userCanAccessTask t user row = true ↔ row.realm = user.realmId ∧
      t.userHasContentAccess user stream (t.isSubscribed user.id stream.recipientId) = true := by
  rw [userCanAccessTask_iff]
  constructor
  · rintro ⟨huserRealm, hread⟩
    obtain ⟨x, hx, hid, -, haccess⟩ := hread stream.id hrow
    rw [ext_key hx hstream hid] at haccess
    exact ⟨huserRealm, haccess⟩
  · rintro ⟨huserRealm, haccess⟩
    refine ⟨huserRealm, ?_⟩
    intro id hid
    cases hrow.symm.trans hid
    exact ⟨stream, hstream, rfl, hrealm.trans huserRealm, haccess⟩

include huser hactive hstream hrow in
/-- The audience of a card of a channel is right for all but the overlooked. -/
theorem audience_iff_of_stream (hrealm : stream.realmId = row.realm) :
    (user.id ∈ taskEventAudience t row.realm row ↔ userCanAccessTask t user row = true) ↔
      ¬ Overlooked t user row := by
  have hthis : Overlooked t user row ↔ if user.realmId = row.realm then
      t.isSubscribed user.id stream.recipientId = false ∧
        if stream.isWebPublic = true then stream.inviteOnly = true ∨ user.isGuest = true
        else stream.inviteOnly = true ∧ user.isGuest = false ∧
          Chat.isUserInGroupsGrantingContentAccess stream (t.recursiveMembershipGroups user) = true
      else t.isSubscribed user.id stream.recipientId = true := by
    constructor
    · rintro ⟨x, hx, hid, h⟩
      obtain rfl : x = stream := ext_key hx hstream (Option.some.inj (hid.symm.trans hrow))
      exact h
    · exact fun h => ⟨stream, hstream, hrow, h⟩
  rw [mem_taskEventAudience huser hactive hstream hrow, canAccess_of_stream hstream hrow hrealm,
    hthis, Tables.userHasContentAccess, Stream.isPublic]
  by_cases hsame : user.realmId = row.realm
  · -- Within the realm it is a question of the channel, the subscription and the role.
    rw [if_pos hsame]
    cases t.isSubscribed user.id stream.recipientId <;> cases stream.isWebPublic <;>
      cases stream.inviteOnly <;> cases user.isGuest <;> simp [hsame]
  · rw [if_neg hsame]
    have hother : ¬ row.realm = user.realmId := fun h => hsame h.symm
    simp [hsame, hother]

end Channel

end Rules

end GrowTeam.Tasks
