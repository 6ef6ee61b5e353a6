/-
# The cards of the task board

The rows of `zerver/models/tasks.py` and what the actions of `zerver/actions/tasks.py` write
to them.  An action gets the card as its caller loaded it; a save writes only the columns it
names, and fails when the row is gone.
-/
import Mathlib.Data.List.MinMax
import Mathlib.Algebra.Order.Ring.Unbundled.Rat
import Mathlib.Tactic.Common

namespace GrowTeam.Tasks

open List

structure TaskBoardColumn where
  id : ℕ
  board : ℕ
  name : String
  doneWindowDays : Option ℕ

structure ChecklistItem where
  text : String
  done : Bool
  deriving DecidableEq

/-- A card.  `position` is the sort key inside a column, a float in the source. -/
structure Task where
  id : ℕ
  realm : ℕ
  board : ℕ
  column : ℕ
  counter : ℕ
  title : String
  body : String
  position : ℚ
  stream : Option ℕ
  topic : String
  originMessage : Option ℕ
  creator : ℕ
  assignee : Option ℕ
  reviewer : Option ℕ
  labels : List String
  checklist : List ChecklistItem
  dueAt : Option ℕ
  blocked : Bool
  completedAt : Option ℕ
  dateCreated : ℕ
  lastUpdated : ℕ
  deriving DecidableEq

/-- What an entry of a card's history is about, its `kind` and its `extra_data`. -/
inductive Detail where
  | created (columnName : String) (stream : Option ℕ) (topic : String)
  | moved (fromColumnName toColumnName : String)
  | assigned (assignee : Option ℕ)
  | edited (fields : List String)

structure TaskHistory where
  task : ℕ
  actingUser : Option ℕ
  detail : Detail

/-- The committed rows, and the next identifier the sequence of the cards gives out. -/
structure Board where
  tasks : List Task
  history : List TaskHistory
  nextId : ℕ

def TASK_ID_PREFIX : String := "GT"

def format_task_id (counter : ℕ) : String := TASK_ID_PREFIX ++ "-" ++ toString counter

def Task.displayId (task : Task) : String := format_task_id task.counter

/-! ## Numbers and positions -/

def POSITION_STEP : ℚ := 1000

def nextCounter (realm : ℕ) (tasks : List Task) : ℕ :=
  match ((tasks.filter (·.realm = realm)).map Task.counter).max? with
  | none => 1
  | some highest => highest + 1

def positionAtEnd (column : ℕ) (tasks : List Task) : ℚ :=
  match ((tasks.filter (·.column = column)).map Task.position).max? with
  | none => POSITION_STEP
  | some highest => highest + POSITION_STEP

theorem lt_nextCounter {realm : ℕ} {tasks : List Task} {t : Task} (ht : t ∈ tasks)
    (hrealm : t.realm = realm) : t.counter < nextCounter realm tasks := by
  have hmem : t.counter ∈ (tasks.filter (·.realm = realm)).map Task.counter :=
    mem_map.mpr ⟨t, mem_filter.mpr ⟨ht, by simpa using hrealm⟩, rfl⟩
  unfold nextCounter
  split
  · next hnone =>
    rw [max?_eq_none_iff.mp hnone] at hmem
    cases hmem
  · next highest hsome =>
    exact Nat.lt_succ_of_le ((max?_eq_some_iff.mp hsome).2 _ hmem)

/-- The next number is 1, or one more than that of a card of the realm. -/
theorem nextCounter_cases (realm : ℕ) (tasks : List Task) :
    nextCounter realm tasks = 1 ∨
      ∃ t ∈ tasks, t.realm = realm ∧ nextCounter realm tasks = t.counter + 1 := by
  unfold nextCounter
  split
  · exact .inl rfl
  · next highest hsome =>
    obtain ⟨t, ht, hcounter⟩ := mem_map.mp (max?_eq_some_iff.mp hsome).1
    obtain ⟨hmem, hrealm⟩ := mem_filter.mp ht
    exact .inr ⟨t, hmem, by simpa using hrealm, by rw [hcounter]⟩

theorem nextCounter_pos (realm : ℕ) (tasks : List Task) : 0 < nextCounter realm tasks := by
  unfold nextCounter
  split <;> omega

/-! ## Creating a card -/

/-- The arguments of `do_create_task`; `realm` is the realm of its `user_profile`. -/
structure Creation where
  userProfile : ℕ
  realm : ℕ
  board : ℕ
  column : TaskBoardColumn
  title : String
  body : String := ""
  stream : Option ℕ := none
  topic : String := ""
  originMessage : Option ℕ := none
  assignee : Option ℕ := none
  reviewer : Option ℕ := none
  labels : List String := []
  checklist : List ChecklistItem := []
  dueAt : Option ℕ := none

/-- The row a creation inserts. -/
def Creation.task (c : Creation) (id counter : ℕ) (position : ℚ) (now : ℕ) : Task where
  id := id
  realm := c.realm
  board := c.board
  column := c.column.id
  counter := counter
  title := c.title
  body := c.body
  position := position
  stream := c.stream
  topic := c.topic
  originMessage := c.originMessage
  creator := c.userProfile
  assignee := c.assignee
  reviewer := c.reviewer
  labels := c.labels
  checklist := c.checklist
  dueAt := c.dueAt
  blocked := false
  completedAt := none
  dateCreated := now
  lastUpdated := now

def Creation.history (c : Creation) (task : Task) : TaskHistory :=
  ⟨task.id, some c.userProfile, .created c.column.name c.stream c.topic⟩

/-! ## Changing and removing cards -/

/-- `save(update_fields=…)`: nothing when no row has the identifier. -/
def Board.save (board : Board) (id : ℕ) (write : Task → Task) : Option Board :=
  if board.tasks.any (·.id = id) then
    some { board with tasks := board.tasks.map fun row => if row.id = id then write row else row }
  else none

def Board.record (board : Board) (entry : TaskHistory) : Board :=
  { board with history := board.history ++ [entry] }

/-- `do_move_task`; `task` is the card as its caller loaded it, in `previous_column`. -/
def doMoveTask (userProfile now : ℕ) (task : Task) (previousColumn column : TaskBoardColumn)
    (position : Option ℚ) (board : Board) : Option Board :=
  let place := position.getD (positionAtEnd column.id board.tasks)
  let completedAt :=
    if column.doneWindowDays.isSome then
      if task.completedAt = none then some now else task.completedAt
    else none
  (board.save task.id fun row => { row with
    column := column.id, position := place, completedAt := completedAt, lastUpdated := now }).map
    fun saved =>
      if previousColumn.id ≠ column.id then
        saved.record ⟨task.id, some userProfile, .moved previousColumn.name column.name⟩
      else saved

/-- The `changes` an update asks for. -/
structure Changes where
  title : Option String := none
  body : Option String := none
  blocked : Option Bool := none
  labels : Option (List String) := none
  checklist : Option (List ChecklistItem) := none
  dueAt : Option (Option ℕ) := none
  assignee : Option (Option ℕ) := none
  reviewer : Option (Option ℕ) := none

/-- The keys of `changes`, sorted. -/
def Changes.fields (c : Changes) : List String :=
  (if c.assignee.isSome then ["assignee"] else []) ++
  (if c.blocked.isSome then ["blocked"] else []) ++
  (if c.body.isSome then ["body"] else []) ++
  (if c.checklist.isSome then ["checklist"] else []) ++
  (if c.dueAt.isSome then ["due_at"] else []) ++
  (if c.labels.isSome then ["labels"] else []) ++
  (if c.reviewer.isSome then ["reviewer"] else []) ++
  (if c.title.isSome then ["title"] else [])

def Changes.write (c : Changes) (now : ℕ) (row : Task) : Task :=
  { row with
    title := c.title.getD row.title
    body := c.body.getD row.body
    blocked := c.blocked.getD row.blocked
    labels := c.labels.getD row.labels
    checklist := c.checklist.getD row.checklist
    dueAt := c.dueAt.getD row.dueAt
    assignee := c.assignee.getD row.assignee
    reviewer := c.reviewer.getD row.reviewer
    lastUpdated := now }

/-- `do_update_task`; the assignee is compared with that of the card as loaded. -/
def doUpdateTask (userProfile now : ℕ) (task : Task) (changes : Changes) (board : Board) :
    Option Board :=
  if changes.fields = [] then some board
  else
    let assigneeChanged :=
      match changes.assignee with
      | some assignee => assignee != task.assignee
      | none => false
    (board.save task.id (changes.write now)).map fun saved =>
      saved.record ⟨task.id, some userProfile,
        if assigneeChanged then .assigned ((changes.assignee).getD task.assignee)
        else .edited changes.fields⟩

/-- A deletion of cards with their history: that of one card by `do_delete_task`, or one that
reaches the cards through their board, their creator or their realm. -/
def Board.remove (board : Board) (ids : List ℕ) : Board :=
  { board with
    tasks := board.tasks.filter (·.id ∉ ids)
    history := board.history.filter (·.task ∉ ids) }

/-! ## No change gives a card another number -/

/-- The number of a card within its realm. -/
def Task.number (t : Task) : ℕ × ℕ := (t.realm, t.counter)

theorem save_numbers {board saved : Board} {id : ℕ} {write : Task → Task}
    (hwrite : ∀ t, (write t).number = t.number) (h : board.save id write = some saved) :
    saved.tasks.map Task.number = board.tasks.map Task.number := by
  unfold Board.save at h
  split at h
  · cases h
    rw [map_map]
    apply map_congr_left
    intro t _
    by_cases ht : t.id = id
    · simp [ht, hwrite]
    · simp [ht]
  · cases h

theorem doMoveTask_numbers {userProfile now : ℕ} {task : Task}
    {previousColumn column : TaskBoardColumn} {position : Option ℚ} {board moved : Board}
    (h : doMoveTask userProfile now task previousColumn column position board = some moved) :
    moved.tasks.map Task.number = board.tasks.map Task.number := by
  obtain ⟨saved, hsave, rfl⟩ := Option.map_eq_some_iff.mp h
  have hnumbers : saved.tasks.map Task.number = board.tasks.map Task.number := by
    apply save_numbers _ hsave
    intro t
    rfl
  split
  · exact hnumbers
  · exact hnumbers

theorem doUpdateTask_numbers {userProfile now : ℕ} {task : Task} {changes : Changes}
    {board updated : Board}
    (h : doUpdateTask userProfile now task changes board = some updated) :
    updated.tasks.map Task.number = board.tasks.map Task.number := by
  unfold doUpdateTask at h
  split at h
  · cases h
    rfl
  · obtain ⟨saved, hsave, rfl⟩ := Option.map_eq_some_iff.mp h
    apply save_numbers _ hsave
    intro t
    rfl

end GrowTeam.Tasks
