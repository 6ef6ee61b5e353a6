/-
# Updating a card (`zerver/views/tasks.py`)

`update_task` checks what a request asks to change, saves that with `do_update_task`, and then
moves the card with `do_move_task`.  Each action is a transaction of its own, so the first stays
when the second is refused; and each writes one entry of the card's history, which names what it
is about.

A request is as `typed_endpoint` hands it on; times are in seconds since the year 1.
-/
import GrowTeam.Server.Events
import GrowTeam.Tasks.Visibility
import GrowTeam.Tasks.Completion
import GrowTeam.Words

namespace GrowTeam.Tasks

open List

open Chat (Tables UserProfile)

/-! ## What a request asks for -/

def MAX_TITLE_LENGTH : ℕ := 200

def MAX_LABELS : ℕ := 10

def MAX_LABEL_LENGTH : ℕ := 40

def MAX_CHECKLIST_ITEMS : ℕ := 50

/-- What a request is answered with, other than success. -/
inductive Failure where
  | jsonable (message : String)
  | raised

def strip (s : String) : String := String.ofList (Words.strip Server.isSpace s.toList)

def cleanLabels (labels : List String) : Except Failure (List String) :=
  let cleaned := (labels.map strip).filter (· ≠ "")
  if MAX_LABELS < labels.length then .error (.jsonable "Too many labels.")
  else if cleaned.any (MAX_LABEL_LENGTH < ·.length) then .error (.jsonable "Label is too long.")
  else .ok cleaned

/-- The text and the mark of an item are as `str` and `bool` make them. -/
def cleanChecklist (checklist : List ChecklistItem) : Except Failure (List ChecklistItem) :=
  let stripped := (checklist.map fun item => { item with text := strip item.text }).filter (·.text ≠ "")
  if MAX_CHECKLIST_ITEMS < checklist.length then .error (.jsonable "Too many checklist items.")
  else .ok (stripped.map fun item =>
    { item with text := String.ofList (item.text.toList.take MAX_TITLE_LENGTH) })

/-- `datetime.fromtimestamp`, for the years from 1 to 9999. -/
def timestampToDatetime (value : ℤ) : Except Failure ℕ :=
  if -62135596800 ≤ value ∧ value ≤ 253402300799 then .ok (value + 62135596800).toNat
  else .error .raised

/-- The parameters of `update_task`. -/
structure UpdateRequest where
  taskId : ℕ
  assigneeId : Option ℕ := none
  blocked : Option Bool := none
  body : Option String := none
  checklist : Option (List ChecklistItem) := none
  clearAssignee : Bool := false
  clearReviewer : Bool := false
  clearDueAt : Bool := false
  columnId : Option ℕ := none
  dueAt : Option ℤ := none
  labels : Option (List String) := none
  position : Option ℚ := none
  reviewerId : Option ℕ := none
  title : Option String := none

/-- A parameter that is checked when it is given. -/
def given {α β : Type} (check : α → Except Failure β) : Option α → Except Failure (Option β)
  | none => .ok none
  | some a => (check a).map some

/-- A value that the request clears, or sets. -/
def cleared {α β : Type} (clear : Bool) (check : α → Except Failure β) (a : Option α) :
    Except Failure (Option (Option β)) :=
  if clear then .ok (some none) else (given check a).map (·.map some)

/-- The rows the view reads, and whether a user may see another at all. -/
structure Reads where
  tables : Tables
  columns : Table TaskBoardColumn.id
  checkCanAccessUser : UserProfile → UserProfile → Bool

variable (db : Reads) (user : UserProfile)

/-- `access_user_by_id`, for bots as well. -/
def accessUserById (id : ℕ) : Except Failure ℕ :=
  match db.tables.users.find id (·.realmId = user.realmId) with
  | none => .error (.jsonable "No such user")
  | some target =>
    if target.isActive = false then .error (.jsonable "User is deactivated")
    else if db.checkCanAccessUser target user = false then .error (.jsonable "Insufficient permission")
    else .ok target.id

variable (r : UpdateRequest)

def UpdateRequest.changes : Except Failure Changes := do
  let labels ← given cleanLabels r.labels
  let checklist ← given cleanChecklist r.checklist
  let dueAt ← cleared r.clearDueAt timestampToDatetime r.dueAt
  let assignee ← cleared r.clearAssignee (accessUserById db user) r.assigneeId
  let reviewer ← cleared r.clearReviewer (accessUserById db user) r.reviewerId
  return ⟨r.title, r.body, r.blocked, labels, checklist, dueAt, assignee, reviewer⟩

/-! ## The view -/

/-- The rows of the board, and the events that were sent. -/
structure Sheet where
  board : Board
  events : List (Op × Task × List ℕ)

/-- An action has written the row of the card, and `send_task_event` announces it. -/
def Sheet.updated (task : Task) (s : Sheet) (board : Board) : Sheet :=
  let row := (board.tasks.find? fun t => t.id = task.id && t.realm = task.realm).getD task
  ⟨board, s.events ++ [(.update, row, taskEventAudience db.tables row.realm row)]⟩

/-- The column of the card, and the one the request wants it in. -/
def UpdateRequest.columns (task : Task) : Option (TaskBoardColumn × TaskBoardColumn) :=
  match db.columns.get? task.column, r.columnId with
  | none, _ => none
  | some previous, some id => (accessColumn db.columns task.board id).map fun c => (previous, c)
  | some previous, none => some (previous, previous)

def UpdateRequest.moves : Bool := r.columnId.isSome || r.position.isSome

/-- The second action; `task` carries what the first has changed. -/
def UpdateRequest.move (now : ℕ) (task : Task) (s : Sheet) : Except Failure Unit × Sheet :=
  if r.moves = false then (.ok (), s)
  else
    match r.columns db task with
    | none => (.error (.jsonable "Task board column does not exist."), s)
    | some (previous, column) =>
      match doMoveTask user.id now task previous column r.position s.board with
      | none => (.error .raised, s)
      | some board => (.ok (), s.updated db task board)

def updateTask (now later : ℕ) (r : UpdateRequest) (s : Sheet) : Except Failure Unit × Sheet :=
  match accessTaskById db.tables user r.taskId s.board.tasks with
  | none => (.error (.jsonable "Task does not exist."), s)
  | some task =>
    match r.changes db user with
    | .error failure => (.error failure, s)
    | .ok changes =>
      if changes.fields = [] then r.move db user later task s
      else
        match doUpdateTask user.id now task changes s.board with
        | none => (.error .raised, s)
        | some board => r.move db user later (changes.write now task) (s.updated db task board)

/-! ## Refused requests -/

/-- The request asks for changes, and for a column that the board of the card does not have. -/
def Torn (s : Sheet) : Prop :=
  ∃ task changes, accessTaskById db.tables user r.taskId s.board.tasks = some task ∧
    r.changes db user = .ok changes ∧ changes.fields ≠ [] ∧ r.moves = true ∧
    r.columns db task = none

section Refused

variable {db user} {r : UpdateRequest} {s : Sheet} {now later : ℕ} {task : Task} {changes : Changes}

/-- A card that was loaded is saved. -/
theorem save_some {board : Board} (htask : task ∈ board.tasks) (write : Task → Task) :
    board.save task.id write = some { board with
      tasks := board.tasks.map fun row => if row.id = task.id then write row else row } := by
  unfold Board.save
  rw [if_pos (any_eq_true.mpr ⟨task, htask, decide_eq_true rfl⟩)]

/-- What an update records. -/
def Changes.detail (c : Changes) (task : Task) : Detail :=
  if c.assignee.any (· != task.assignee) then .assigned (c.assignee.getD task.assignee)
  else .edited c.fields

theorem doUpdateTask_some (userProfile now : ℕ) {board : Board} (htask : task ∈ board.tasks)
    (hfields : changes.fields ≠ []) :
    doUpdateTask userProfile now task changes board = some
      { board with
        tasks := board.tasks.map fun row => if row.id = task.id then changes.write now row else row
        history := board.history ++ [⟨task.id, some userProfile, changes.detail task⟩] } := by
  unfold doUpdateTask Changes.detail
  rw [if_neg hfields, save_some htask]
  cases changes.assignee with
  | none | some assignee => rfl

/-- A move fails on nothing but the column. -/
theorem move_error (hrow : ∃ row ∈ s.board.tasks, row.id = task.id) {failure : Failure}
    (h : (r.move db user now task s).1 = .error failure) :
    r.moves = true ∧ r.columns db task = none := by
  unfold UpdateRequest.move at h
  split at h
  · cases h
  · next hmoves =>
    refine ⟨by simpa using hmoves, ?_⟩
    split at h
    · next hnone => exact hnone
    · split at h
      · next hmove =>
        obtain ⟨row, hmem, hid⟩ := hrow
        exact absurd hid (move_none hmove row hmem)
      · cases h

theorem move_refused (now : ℕ) (task : Task) (s : Sheet) (hmoves : r.moves = true)
    (hnone : r.columns db task = none) :
    r.move db user now task s = (.error (.jsonable "Task board column does not exist."), s) := by
  unfold UpdateRequest.move
  rw [if_neg (by simp [hmoves]), hnone]

variable (db user)

/-- **A refused update changes nothing, but for the column.**  A request that is answered with an
error leaves the card, its history and the events as they were exactly when it does not ask for
changes along with a column that the board of the card does not have. -/
theorem refused_unchanged_iff (now later : ℕ) (r : UpdateRequest) (s : Sheet) :
    (∀ failure, (updateTask db user now later r s).1 = .error failure →
      (updateTask db user now later r s).2 = s) ↔ ¬ Torn db user r s := by
  constructor
  · rintro hkeeps ⟨task, changes, htask, hchanges, hfields, hmoves, hnone⟩
    have hupdate := doUpdateTask_some user.id now (accessTaskById_mem htask) hfields
    unfold updateTask at hkeeps
    rw [htask, hchanges] at hkeeps
    dsimp only at hkeeps
    rw [if_neg hfields, hupdate] at hkeeps
    dsimp only at hkeeps
    rw [move_refused later (changes.write now task) _ hmoves hnone] at hkeeps
    have hlength := congrArg (fun t : Sheet => t.board.history.length) (hkeeps _ rfl)
    simp [Sheet.updated] at hlength
  · intro hnot failure herror
    unfold updateTask at herror ⊢
    split
    · rfl
    · next task htask =>
      rw [htask] at herror
      have hmem := accessTaskById_mem htask
      split
      · rfl
      · next changes hchanges =>
        rw [hchanges] at herror
        dsimp only at herror
        split
        · next hfields =>
          rw [if_pos hfields] at herror
          obtain ⟨hmoves, hnone⟩ := move_error ⟨task, hmem, rfl⟩ herror
          rw [move_refused later task s hmoves hnone]
        · next hfields =>
          rw [if_neg hfields] at herror
          rw [doUpdateTask_some user.id now hmem hfields] at herror
          obtain ⟨hmoves, hnone⟩ := move_error
            ⟨_, mem_map_of_mem hmem, by rw [if_pos rfl]⟩ herror
          exact absurd ⟨task, changes, htask, hchanges, hfields, hmoves, hnone⟩ hnot

/-- The default columns, and a board with one card that is on no channel. -/
def plainReads : Reads := ⟨verona, defaultColumns, fun _ _ => true⟩

def oneCard : Sheet := ⟨⟨[cardRow none], [], 2⟩, []⟩

/-- A change is saved and recorded, and the request is refused for the column it names. -/
theorem refused_request_writes :
    let result := updateTask plainReads iago 5 6 { taskId := 1, title := some "New", columnId := some 9 }
      oneCard
    result.1 = .error (.jsonable "Task board column does not exist.") ∧
      result.2.board.history = [⟨1, some 1, .edited ["title"]⟩] ∧ oneCard.board.history = [] :=
  ⟨rfl, rfl, rfl⟩

end Refused

/-! ## What the history tells -/

/-- What a request can change of a card. -/
inductive Field where
  | title
  | body
  | blocked
  | labels
  | checklist
  | dueAt
  | assignee
  | reviewer
  | column
  | position
  deriving DecidableEq

def Field.name : Field → String
  | .title => "title"
  | .body => "body"
  | .blocked => "blocked"
  | .labels => "labels"
  | .checklist => "checklist"
  | .dueAt => "due_at"
  | .assignee => "assignee"
  | .reviewer => "reviewer"
  | .column => "column"
  | .position => "position"

def Field.differs (a b : Task) : Field → Bool
  | .title => a.title != b.title
  | .body => a.body != b.body
  | .blocked => a.blocked != b.blocked
  | .labels => a.labels != b.labels
  | .checklist => a.checklist != b.checklist
  | .dueAt => a.dueAt != b.dueAt
  | .assignee => a.assignee != b.assignee
  | .reviewer => a.reviewer != b.reviewer
  | .column => a.column != b.column
  | .position => a.position != b.position

/-- The entry says that the field was changed. -/
def Detail.names (f : Field) : Detail → Bool
  | .created _ _ _ => false
  | .moved _ _ => f == .column
  | .assigned _ => f == .assignee
  | .edited fields => fields.contains f.name

/-- The entries that the history of the card has got name what is changed of it, and nothing
else. -/
def Tells (s s' : Sheet) (task : Task) : Prop :=
  ∀ row, (s'.board.tasks.find? fun t => t.id = task.id && t.realm = task.realm) = some row →
    ∀ f : Field, ((s'.board.history.drop s.board.history.length).any fun e =>
      e.task = task.id && e.detail.names f) = f.differs task row

/-- A change of the assignee comes without another, nothing is asked for that is so already, and a
move leaves the position as it is. -/
def Plain (s : Sheet) : Prop :=
  ∀ task changes, accessTaskById db.tables user r.taskId s.board.tasks = some task →
    r.changes db user = .ok changes →
      (∀ f : Field, if changes.assignee.any (· != task.assignee) then
          f ≠ .assignee → f.differs task (changes.write 0 task) = false
        else changes.fields.contains f.name = true → f.differs task (changes.write 0 task) = true) ∧
      ∀ previous column, r.moves = true → r.columns db task = some (previous, column) →
        r.position.getD (positionAtEnd column.id s.board.tasks) = task.position

section Tells

variable {db user} {r : UpdateRequest} {s : Sheet} {task : Task} {changes : Changes}

variable {write : Task → Task}

/-- The row of a card that was saved. -/
theorem find?_saved {tasks : List Task} {p : Task → Bool}
    (htask : tasks.find? p = some task) (hwrite : ∀ t, p (write t) = p t) :
    (tasks.map fun row => if row.id = task.id then write row else row).find? p =
      some (write task) := by
  have hkeep : p ∘ (fun row => if row.id = task.id then write row else row) = p := by
    funext row
    show p (if row.id = task.id then write row else row) = p row
    split
    · exact hwrite row
    · rfl
  rw [find?_map, hkeep, htask, Option.map_some, if_pos rfl]

theorem positionAtEnd_saved {tasks : List Task} {column id : ℕ}
    (hcolumn : ∀ t, (write t).column = t.column) (hposition : ∀ t, (write t).position = t.position) :
    positionAtEnd column (tasks.map fun row => if row.id = id then write row else row) =
      positionAtEnd column tasks := by
  have hrow : ∀ row : Task, (if row.id = id then write row else row).column = row.column ∧
      (if row.id = id then write row else row).position = row.position := by
    intro row
    split
    · exact ⟨hcolumn row, hposition row⟩
    · exact ⟨rfl, rfl⟩
  unfold positionAtEnd
  rw [filter_map, map_map]
  simp only [Function.comp_def, hrow]

/-- What is not asked for stays. -/
theorem differs_of_not_asked (now : ℕ) {f : Field} (h : changes.fields.contains f.name = false) :
    f.differs task (changes.write now task) = false := by
  cases f <;>
    simp_all [Changes.fields, Field.name, Field.differs, Changes.write]

/-- The entry of an update names what it changed exactly when the request is plain in this. -/
theorem names_iff (changes : Changes) (task : Task) :
    (∀ f : Field, (changes.detail task).names f = f.differs task (changes.write 0 task)) ↔
      ∀ f : Field, if changes.assignee.any (· != task.assignee) then
          f ≠ .assignee → f.differs task (changes.write 0 task) = false
        else changes.fields.contains f.name = true → f.differs task (changes.write 0 task) = true := by
  refine forall_congr' fun f => ?_
  unfold Changes.detail
  by_cases hassignee : changes.assignee.any (· != task.assignee) = true
  · rw [if_pos hassignee, if_pos hassignee]
    by_cases hf : f = .assignee
    · have hdiffers : Field.differs task (changes.write 0 task) .assignee = true := by
        obtain ⟨assignee, hsome, hne⟩ := (Option.any_eq_true _ _).mp hassignee
        rw [bne_iff_ne, ne_eq] at hne
        simp [Field.differs, Changes.write, hsome, Ne.symm hne]
      rw [hf, hdiffers]
      simp [Detail.names]
    · have hne : (f == Field.assignee) = false := beq_eq_false_iff_ne.mpr hf
      rw [Detail.names, hne]
      exact ⟨fun hsame _ => hsame.symm, fun hsame => (hsame hf).symm⟩
  · rw [if_neg hassignee, if_neg hassignee, Detail.names]
    cases hasked : changes.fields.contains f.name with
    | true => simp
    | false => simp [differs_of_not_asked 0 hasked]

theorem find?_of_access (h : accessTaskById db.tables user r.taskId s.board.tasks = some task) :
    (s.board.tasks.find? fun t => t.id = task.id && t.realm = task.realm) = some task := by
  unfold accessTaskById at h
  split at h
  · next found hfound =>
    split at h
    · cases h
      have hself := find?_some hfound
      simp only [Bool.and_eq_true, decide_eq_true_eq] at hself
      rw [hself.1, hself.2]
      exact hfound
    · cases h
  · cases h

theorem differs_self (f : Field) (task : Task) : f.differs task task = false := by
  cases f <;> simp [Field.differs]

theorem tells_iff_of_saved {s' : Sheet} {entries : List Detail} {author : ℕ}
    (htask : (s.board.tasks.find? fun t => t.id = task.id && t.realm = task.realm) = some task)
    (hid : ∀ t, (write t).id = t.id) (hrealm : ∀ t, (write t).realm = t.realm)
    (htasks : s'.board.tasks =
      s.board.tasks.map fun row => if row.id = task.id then write row else row)
    (hhistory : s'.board.history =
      s.board.history ++ entries.map fun d => ⟨task.id, some author, d⟩) :
    Tells s s' task ↔ ∀ f : Field, entries.any (·.names f) = f.differs task (write task) := by
  unfold Tells
  rw [htasks, find?_saved htask fun t => by rw [hid, hrealm], hhistory]
  simp [any_map, Function.comp_def]

/-- What the first action leaves, also when nothing is asked for. -/
theorem update_spec (now later : ℕ)
    (htask : accessTaskById db.tables user r.taskId s.board.tasks = some task)
    (hchanges : r.changes db user = .ok changes) :
    ∃ (t : Sheet) (write : Task → Task) (entries : List Detail),
      updateTask db user now later r s = r.move db user later (write task) t ∧
      t.board.tasks = (s.board.tasks.map fun row => if row.id = task.id then write row else row) ∧
      t.board.history = s.board.history ++ (entries.map fun d => ⟨task.id, some user.id, d⟩) ∧
      (∀ row, (write row).id = row.id ∧ (write row).realm = row.realm ∧
        (write row).board = row.board ∧ (write row).column = row.column ∧
        (write row).position = row.position) ∧
      (∀ f : Field, entries.any (·.names f) = (changes.detail task).names f) ∧
      ∀ f : Field, f.differs task (write task) = f.differs task (changes.write 0 task) := by
  unfold updateTask
  rw [htask, hchanges]
  dsimp only
  split
  · next hfields =>
    refine ⟨s, id, [], rfl, by simp, by simp, fun row => ⟨rfl, rfl, rfl, rfl, rfl⟩, fun f => ?_,
      fun f => ?_⟩
    · have hnone : changes.assignee = none := by
        cases hassignee : changes.assignee with
        | none => rfl
        | some assignee => simp [Changes.fields, hassignee] at hfields
      simp [Changes.detail, hnone, hfields, Detail.names]
    · rw [differs_of_not_asked 0 (by rw [hfields]; rfl)]
      exact differs_self f task
  · next hfields =>
    rw [doUpdateTask_some user.id now (accessTaskById_mem htask) hfields]
    refine ⟨_, changes.write now, [changes.detail task], rfl, rfl, rfl,
      fun row => ⟨rfl, rfl, rfl, rfl, rfl⟩, fun f => by simp, fun f => ?_⟩
    cases f <;> rfl

/-- An update is not about the place of the card. -/
theorem names_place (changes : Changes) (task : Task) :
    (changes.detail task).names .column = false ∧ (changes.detail task).names .position = false := by
  unfold Changes.detail
  split
  · exact ⟨rfl, rfl⟩
  · simp [Detail.names, Changes.fields, Field.name]

/-- What a move writes into the row; `task` is the card as loaded. -/
def Task.placed (task : Task) (now : ℕ) (column : TaskBoardColumn) (place : ℚ) (row : Task) : Task :=
  { row with
    column := column.id
    position := place
    completedAt := if column.doneWindowDays.isSome then
      if task.completedAt = none then some now else task.completedAt else none
    lastUpdated := now }

variable {previous column : TaskBoardColumn}

variable (user) in
theorem move_spec (now : ℕ) {t : Sheet}
    (htask : task ∈ t.board.tasks) (hmoves : r.moves = true)
    (hcolumns : r.columns db task = some (previous, column)) :
    (r.move db user now task t).2.board = { t.board with
      tasks := t.board.tasks.map fun row => if row.id = task.id then task.placed now column
        (r.position.getD (positionAtEnd column.id t.board.tasks)) row else row
      history := t.board.history ++ if previous.id ≠ column.id then
        [⟨task.id, some user.id, .moved previous.name column.name⟩] else [] } := by
  have hsave := save_some htask
    (task.placed now column (r.position.getD (positionAtEnd column.id t.board.tasks)))
  have hmove : doMoveTask user.id now task previous column r.position t.board = _ :=
    congrArg (Option.map _) hsave
  unfold UpdateRequest.move
  rw [if_neg (by simp [hmoves]), hcolumns]
  dsimp only
  rw [hmove]
  dsimp only [Option.map_some, Sheet.updated]
  split
  · rfl
  · rw [append_nil]

theorem columns_previous
    (h : r.columns db task = some (previous, column)) : previous.id = task.column := by
  unfold UpdateRequest.columns at h
  split at h
  · cases h
  · next hprevious _ =>
    obtain ⟨c, -, hc⟩ := Option.map_eq_some_iff.mp h
    cases hc
    exact (Table.get?_eq_some.mp hprevious).2
  · next hprevious _ =>
    cases h
    exact (Table.get?_eq_some.mp hprevious).2

/-- **The history tells what a request changed.**  The entries of a request name the fields that it
changed of the card, and no other, exactly when the request is plain. -/
theorem history_tells_iff (db : Reads) (user : UserProfile) (now later : ℕ) (r : UpdateRequest)
    (s : Sheet) :
    (∀ task, accessTaskById db.tables user r.taskId s.board.tasks = some task →
      Tells s (updateTask db user now later r s).2 task) ↔ Plain db user r s := by
  refine forall_congr' fun task => ?_
  by_cases htask : accessTaskById db.tables user r.taskId s.board.tasks = some task
  swap
  · simp [htask]
  have hfind := find?_of_access htask
  cases hchanges : r.changes db user with
  | error failure =>
    have hsame : (updateTask db user now later r s).2 = s := by
      unfold updateTask
      rw [htask, hchanges]
    have htells : Tells s s task := by
      intro row hrow f
      cases hfind.symm.trans hrow
      simp [differs_self]
    simp [htask, hsame, htells]
  | ok changes =>
    obtain ⟨t, write, entries, hrun, htasks, hhistory, hwrite, hnames, hdiffers⟩ :=
      update_spec now later htask hchanges
    have hfirst : Tells s t task ↔ ∀ f : Field,
        (changes.detail task).names f = f.differs task (changes.write 0 task) := by
      rw [tells_iff_of_saved hfind (fun row => (hwrite row).1) (fun row => (hwrite row).2.1) htasks
        hhistory]
      simp only [hnames, hdiffers]
    have hcolumns : r.columns db (write task) = r.columns db task := by
      unfold UpdateRequest.columns
      rw [(hwrite task).2.2.1, (hwrite task).2.2.2.1]
    have hkey : Tells s (updateTask db user now later r s).2 task ↔ (∀ f : Field,
        (changes.detail task).names f = f.differs task (changes.write 0 task)) ∧
          ∀ previous column, r.moves = true → r.columns db task = some (previous, column) →
            r.position.getD (positionAtEnd column.id s.board.tasks) = task.position := by
      rw [hrun]
      cases hmoves : r.moves with
      | false =>
        have hstay : (r.move db user later (write task) t).2 = t := by
          unfold UpdateRequest.move
          rw [if_pos hmoves]
        rw [hstay, hfirst]
        simp
      | true =>
        cases hplace : r.columns db task with
        | none =>
          rw [move_refused later (write task) t hmoves (hcolumns.trans hplace), hfirst]
          simp
        | some place =>
          obtain ⟨previous, column⟩ := place
          have hmem : write task ∈ t.board.tasks := by
            rw [htasks]
            exact mem_map.mpr ⟨task, accessTaskById_mem htask, if_pos rfl⟩
          have hmove := move_spec user later hmem hmoves (hcolumns.trans hplace)
          have hend : positionAtEnd column.id t.board.tasks = positionAtEnd column.id s.board.tasks := by
            rw [htasks]
            exact positionAtEnd_saved (fun row => (hwrite row).2.2.2.1) fun row => (hwrite row).2.2.2.2
          generalize hposition : r.position.getD (positionAtEnd column.id s.board.tasks) = position
          rw [hend, hposition] at hmove
          have hrows : (r.move db user later (write task) t).2.board.tasks = s.board.tasks.map
              fun row => if row.id = task.id then
                (write task).placed later column position (write row) else row := by
            rw [hmove, htasks, map_map]
            refine map_congr_left fun row _ => ?_
            rw [Function.comp, (hwrite task).1]
            by_cases hid : row.id = task.id
            · rw [if_pos hid, if_pos hid, if_pos ((hwrite row).1.trans hid)]
            · rw [if_neg hid, if_neg hid, if_neg hid]
          have hentries : (r.move db user later (write task) t).2.board.history = s.board.history ++
              ((entries ++ if previous.id ≠ column.id then [Detail.moved previous.name column.name]
                else []).map fun d => ⟨task.id, some user.id, d⟩) := by
            rw [hmove, hhistory, (hwrite task).1, map_append, append_assoc]
            split <;> rfl
          refine (tells_iff_of_saved hfind ?_ ?_ hrows hentries).trans ?_
          · exact fun row => (hwrite row).1
          · exact fun row => (hwrite row).2.1
          have hmoved : ∀ f : Field, ((if previous.id ≠ column.id then
              [Detail.moved previous.name column.name] else []).any (·.names f)) =
                (decide (f = .column) && task.column != column.id) := by
            intro f
            rw [columns_previous hplace]
            by_cases hcolumn : task.column = column.id
            · simp [hcolumn]
            · by_cases hf : f = .column
              · simp [hcolumn, hf, Detail.names]
              · simp [hcolumn, hf, Detail.names]
          have hplaced : ∀ f : Field,
              f.differs task ((write task).placed later column position (write task)) = match f with
                | .column => task.column != column.id
                | .position => task.position != position
                | f => f.differs task (changes.write 0 task) := by
            intro f
            have hf := hdiffers f
            cases f with
            | column | position => rfl
            | _ => exact hf
          obtain ⟨hnoColumn, hnoPosition⟩ := names_place changes task
          simp only [any_append, hnames, hmoved, hplaced]
          constructor
          · refine fun h => ⟨fun f => ?_, ?_⟩
            · have hf := h f
              cases f with
              | column => simp [hnoColumn, Field.differs, Changes.write]
              | position => simp [hnoPosition, Field.differs, Changes.write]
              | _ => simpa using hf
            · rintro p c - hpc
              cases hpc
              have hsame : task.position = position := by simpa [hnoPosition] using h .position
              rw [hposition, hsame]
          · rintro ⟨h, hstays⟩ f
            cases f with
            | column => simp [hnoColumn]
            | position => simp [hnoPosition, ← hposition, hstays]
            | _ => simp [h]
    constructor
    · rintro h c - hc
      cases hc
      obtain ⟨hupdate, hposition⟩ := hkey.mp (h htask)
      exact ⟨(names_iff changes task).mp hupdate, hposition⟩
    · intro h _
      obtain ⟨hupdate, hposition⟩ := h changes htask rfl
      exact hkey.mpr ⟨(names_iff changes task).mpr hupdate, hposition⟩

/-- A request that assigns a card and gives it another title: the history names the assignee. -/
theorem retitled_unnoticed :
    let s' := (updateTask plainReads iago 5 6 { taskId := 1, title := some "New", assigneeId := some 1 }
      oneCard).2
    accessTaskById verona iago 1 oneCard.board.tasks = some (cardRow none) ∧
      ¬ Tells oneCard s' (cardRow none) := by
  intro s'
  exact ⟨rfl, fun h => absurd (h _ rfl .title) (by decide)⟩

end Tells

end GrowTeam.Tasks
