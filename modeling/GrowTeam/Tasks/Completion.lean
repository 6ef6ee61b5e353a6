/-
# When a card is completed

A column with a done window means done, and `completed_at` is to say when its card came there.
The field is written by `do_move_task` only: `do_create_task` leaves it empty whatever the
column, and a move goes by the field of the card as its request loaded it.

A step is a request, or one of the steps of `update_task`: loading the card, changing it, and
moving it.  Whether a user may load a card is left out.
-/
import GrowTeam.History
import GrowTeam.Table
import GrowTeam.Tasks.Cards

namespace GrowTeam.Tasks

open History List

/-! ## Requests -/

/-- The rows, and the cards that requests have loaded. -/
structure Desk where
  board : Board
  loaded : List Task

def Desk.empty : Desk := ⟨⟨[], [], 1⟩, []⟩

/-- A step of a request.  A move without a column stays in the one of the loaded card. -/
inductive Call where
  | create (now column : ℕ) (creation : Creation)
  | load (task : ℕ)
  | update (i user now : ℕ) (changes : Changes)
  | move (i user now : ℕ) (column : Option ℕ) (position : Option ℚ)
  | delete (i : ℕ)

/-- Where and when a step put a card. -/
structure Placement where
  task : ℕ
  column : ℕ
  time : ℕ

section Serve

variable (columns : Table TaskBoardColumn.id)

def accessColumn (board column : ℕ) : Option TaskBoardColumn :=
  columns.find column (·.board = board)

/-- The view `create_task` and `do_create_task`. -/
def Desk.create (d : Desk) (now : ℕ) (creation : Creation) (column : TaskBoardColumn) :
    Option Placement × Desk :=
  let creation := { creation with column := column }
  let task := creation.task d.board.nextId (nextCounter creation.realm d.board.tasks)
    (positionAtEnd column.id d.board.tasks) now
  (some ⟨task.id, column.id, now⟩,
    { d with
      board :=
        { tasks := d.board.tasks ++ [task]
          history := d.board.history ++ [creation.history task]
          nextId := d.board.nextId + 1 } })

/-- `do_move_task` on a loaded card. -/
def Desk.move (d : Desk) (task : Task) (user now : ℕ) (previous column : TaskBoardColumn)
    (position : Option ℚ) : Option Placement × Desk :=
  match doMoveTask user now task previous column position d.board with
  | some board => (some ⟨task.id, column.id, now⟩, { d with board := board })
  | none => (none, d)

def serve : Call → Desk → Option Placement × Desk
  | .create now column creation, d =>
    match accessColumn columns creation.board column with
    | some column => d.create now creation column
    | none => (none, d)
  | .load id, d =>
    match d.board.tasks.find? (·.id = id) with
    | some task => (none, { d with loaded := d.loaded ++ [task] })
    | none => (none, d)
  | .update i user now changes, d =>
    match d.loaded[i]?.bind fun task => doUpdateTask user now task changes d.board with
    | some board => (none, { d with board := board })
    | none => (none, d)
  | .move i user now column position, d =>
    match d.loaded[i]? with
    | some task =>
      match columns.get? task.column, accessColumn columns task.board (column.getD task.column) with
      | some previous, some column => d.move task user now previous column position
      | _, _ => (none, d)
    | none => (none, d)
  | .delete i, d =>
    match d.loaded[i]? with
    | some task => (none, { d with board := d.board.remove [task.id] })
    | none => (none, d)

/-! ## Completion as the columns tell it -/

/-- A column that means done. -/
def meansDone (column : ℕ) : Bool := (columns.get? column).any (·.doneWindowDays.isSome)

/-- Whether the card is in a column that means done after its placements, and when it last
entered such a column from one that does not. -/
def follow (places : List Placement) : Bool × Option ℕ :=
  places.foldl (fun seen p =>
    (meansDone columns p.column,
      if meansDone columns p.column && !seen.1 then some p.time else seen.2)) (false, none)

variable (past : List (Event Desk Call (Option Placement)))

/-- The placements of one card. -/
def placements (id : ℕ) : List Placement :=
  (past.filterMap (·.answer)).filter (·.task = id)

/-- The card has a completion time if and only if its column means done, and that time is the
one of its latest entry. -/
def FollowsColumn (row : Task) : Prop :=
  (row.completedAt.isSome = true ↔ meansDone columns row.column = true) ∧
    ∀ t, row.completedAt = some t → (follow columns (placements past row.id)).2 = some t

/-- A creation does not put its card into a column that means done; a move into such a column
would set the same time by the stored card as by the loaded one. -/
def Timely (e : Event Desk Call (Option Placement)) : Prop :=
  match e.input with
  | .create _ column creation =>
    ∀ c, accessColumn columns creation.board column = some c → meansDone columns c.id = false
  | .move i _ now column _ =>
    ∀ task, e.pre.loaded[i]? = some task →
      ∀ c, accessColumn columns task.board (column.getD task.column) = some c →
        meansDone columns c.id = true → ∀ row ∈ e.pre.board.tasks, row.id = task.id →
          task.completedAt.getD now = row.completedAt.getD now
  | _ => True

/-! ## What a step does to the marks of the cards -/

/-- What a row says about its completion. -/
structure Mark where
  id : ℕ
  column : ℕ
  completedAt : Option ℕ

def Task.mark (row : Task) : Mark := ⟨row.id, row.column, row.completedAt⟩

def Desk.marks (d : Desk) : List Mark := d.board.tasks.map Task.mark

/-- The mark of a card that is moved into a column. -/
def Mark.move (task : Task) (now : ℕ) (column : TaskBoardColumn) (m : Mark) : Mark :=
  if m.id = task.id then
    ⟨m.id, column.id,
      if column.doneWindowDays.isSome = true then some (task.completedAt.getD now) else none⟩
  else m

variable {id user now : ℕ}

variable {board : Board}

theorem any_id :
    board.tasks.any (·.id = id) = true ↔ ∃ m ∈ board.tasks.map Task.mark, m.id = id := by
  simp [Task.mark]

variable {column : TaskBoardColumn}

variable {task : Task}

theorem move_some {previous : TaskBoardColumn}
    {position : Option ℚ} {moved : Board}
    (h : doMoveTask user now task previous column position board = some moved) :
    (∃ m ∈ board.tasks.map Task.mark, m.id = task.id) ∧ moved.nextId = board.nextId ∧
      moved.tasks.map Task.mark = (board.tasks.map Task.mark).map (Mark.move task now column) := by
  obtain ⟨saved, hsave, rfl⟩ := Option.map_eq_some_iff.mp h
  unfold Board.save at hsave
  split at hsave
  · next hany =>
    cases hsave
    refine ⟨any_id.mp hany, ?_, ?_⟩
    · split <;> rfl
    · have hmarks : ∀ row ∈ board.tasks, Task.mark (if row.id = task.id then
          { row with
            column := column.id
            position := position.getD (positionAtEnd column.id board.tasks)
            completedAt :=
              if column.doneWindowDays.isSome = true then
                if task.completedAt = none then some now else task.completedAt
              else none
            lastUpdated := now }
          else row) = Mark.move task now column row.mark := by
        intro row _
        by_cases hid : row.id = task.id
        · rw [if_pos hid, Mark.move, if_pos (show row.mark.id = task.id from hid)]
          cases task.completedAt with
          | none | some => rfl
        · rw [if_neg hid, Mark.move, if_neg (show ¬ row.mark.id = task.id from hid)]
      rw [map_map]
      refine Eq.trans ?_ (map_congr_left hmarks)
      split
      · exact map_map
      · exact map_map
  · cases hsave

theorem move_none {previous : TaskBoardColumn}
    {position : Option ℚ}
    (h : doMoveTask user now task previous column position board = none) :
    ∀ row ∈ board.tasks, row.id ≠ task.id := by
  intro row hrow hid
  have hsave := Option.map_eq_none_iff.mp h
  unfold Board.save at hsave
  have hany : board.tasks.any (·.id = task.id) = true :=
    any_eq_true.mpr ⟨row, hrow, by simpa using hid⟩
  rw [if_pos hany] at hsave
  cases hsave

theorem update_some {changes : Changes} {updated : Board}
    (h : doUpdateTask user now task changes board = some updated) :
    updated.nextId = board.nextId ∧ updated.tasks.map Task.mark = board.tasks.map Task.mark := by
  unfold doUpdateTask at h
  split at h
  · cases h
    exact ⟨rfl, rfl⟩
  · obtain ⟨saved, hsave, rfl⟩ := Option.map_eq_some_iff.mp h
    unfold Board.save at hsave
    split at hsave
    · cases hsave
      refine ⟨rfl, ?_⟩
      show (board.tasks.map _).map Task.mark = _
      rw [map_map]
      apply map_congr_left
      intro row _
      show Task.mark (if row.id = task.id then changes.write now row else row) = row.mark
      split <;> rfl
    · cases hsave

/-- What a step can do: put a new card, move one, or leave the marks of the cards that stay. -/
inductive Effect (i : Call) (d : Desk) : Option Placement → Desk → Prop where
  | created {d' : Desk} (now id : ℕ) (creation : Creation) (column : TaskBoardColumn)
      (input : i = .create now id creation)
      (access : accessColumn columns creation.board id = some column)
      (marks : d'.marks = d.marks ++ [⟨d.board.nextId, column.id, none⟩])
      (next : d'.board.nextId = d.board.nextId + 1) (loaded : d'.loaded = d.loaded) :
      Effect i d (some ⟨d.board.nextId, column.id, now⟩) d'
  | moved {d' : Desk} (j user now : ℕ) (id : Option ℕ) (position : Option ℚ) (task : Task)
      (column : TaskBoardColumn) (input : i = .move j user now id position)
      (copy : d.loaded[j]? = some task)
      (access : accessColumn columns task.board (id.getD task.column) = some column)
      (row : ∃ m ∈ d.marks, m.id = task.id)
      (marks : d'.marks = d.marks.map (Mark.move task now column))
      (next : d'.board.nextId = d.board.nextId) (loaded : d'.loaded = d.loaded) :
      Effect i d (some ⟨task.id, column.id, now⟩) d'
  | quiet {d' : Desk} (timely : Timely columns ⟨i, d, none, d'⟩)
      (marks : d'.marks.Sublist d.marks) (next : d'.board.nextId = d.board.nextId)
      (loaded : ∀ task ∈ d'.loaded, task ∈ d.loaded ∨ task ∈ d.board.tasks) : Effect i d none d'

variable {columns}

theorem Effect.refused {i : Call} {d : Desk} (timely : Timely columns ⟨i, d, none, d⟩) :
    Effect columns i d none d :=
  .quiet timely (.refl _) rfl fun _ h => .inl h

theorem serve_effect {i : Call} {d d' : Desk} {answer : Option Placement}
    (hknown : ∀ task ∈ d.loaded, (columns.get? task.column).isSome = true)
    (h : serve columns i d = (answer, d')) : Effect columns i d answer d' := by
  cases i with
  | create now id creation =>
    rw [serve] at h
    cases haccess : accessColumn columns creation.board id with
    | none =>
      rw [haccess] at h
      cases h
      apply Effect.refused
      intro c hc
      rw [haccess] at hc
      cases hc
    | some column =>
      rw [haccess] at h
      cases h
      exact .created now id creation column rfl haccess (by simp [Desk.marks, Task.mark, Creation.task])
        rfl rfl
  | load id =>
    rw [serve] at h
    split at h
    · next task hfind =>
      cases h
      refine .quiet trivial (.refl _) rfl ?_
      intro copy hcopy
      rcases mem_append.mp hcopy with hold | hnew
      · exact .inl hold
      · rw [mem_singleton.mp hnew]
        exact .inr (mem_of_find?_eq_some hfind)
    · cases h
      exact .refused trivial
  | update j user now changes =>
    rw [serve] at h
    split at h
    · next board hupdate =>
      cases h
      obtain ⟨task, -, hboard⟩ := Option.bind_eq_some_iff.mp hupdate
      obtain ⟨hnext, hmarks⟩ := update_some hboard
      refine .quiet trivial ?_ hnext fun _ h => .inl h
      show (board.tasks.map Task.mark).Sublist _
      rw [hmarks]
      exact .refl _
    · cases h
      exact .refused trivial
  | move j user now id position =>
    rw [serve] at h
    cases hcopy : d.loaded[j]? with
    | none =>
      rw [hcopy] at h
      cases h
      apply Effect.refused
      intro task htask
      rw [hcopy] at htask
      cases htask
    | some task =>
      rw [hcopy] at h
      obtain ⟨previous, hprevious⟩ :=
        Option.isSome_iff_exists.mp (hknown task (mem_of_getElem? hcopy))
      cases haccess : accessColumn columns task.board (id.getD task.column) with
      | none =>
        simp only [hprevious, haccess] at h
        cases h
        apply Effect.refused
        intro copy htask c hc
        rw [hcopy] at htask
        cases htask
        rw [haccess] at hc
        cases hc
      | some column =>
        simp only [hprevious, haccess, Desk.move] at h
        split at h
        · next board hmove =>
          cases h
          obtain ⟨hrow, hnext, hmarks⟩ := move_some hmove
          exact .moved j user now id position task column rfl hcopy haccess hrow hmarks hnext rfl
        · next hmove =>
          cases h
          apply Effect.refused
          -- Without a row there is nothing that the move could set to another time.
          intro copy htask c hc hdone row hrow hid
          rw [hcopy] at htask
          cases htask
          exact absurd hid (move_none hmove row hrow)
  | delete j =>
    rw [serve] at h
    split at h
    · cases h
      exact .quiet trivial (filter_sublist.map _) rfl fun _ h => .inl h
    · cases h
      exact .refused trivial

/-! ## What every run keeps -/

section Run

variable {past : List (Event Desk Call (Option Placement))} {e : Event Desk Call (Option Placement)}
  {p : Placement} {m : Mark} {d : Desk}

theorem meansDone_of_access {board : ℕ}
    (h : accessColumn columns board id = some column) :
    meansDone columns column.id = column.doneWindowDays.isSome ∧
      (columns.get? column.id).isSome = true := by
  obtain ⟨hmem, -, -⟩ := Table.find_eq_some.mp h
  have hget : columns.get? column.id = some column := Table.get?_eq_some.mpr ⟨hmem, rfl⟩
  exact ⟨by simp [meansDone, hget], by simp [hget]⟩

theorem follow_snoc (places : List Placement) :
    follow columns (places ++ [p]) =
      (meansDone columns p.column,
        if meansDone columns p.column && !(follow columns places).1 then some p.time
        else (follow columns places).2) := by
  rw [follow, foldl_append]
  rfl

theorem placements_none (h : e.answer = none) (id : ℕ) :
    placements (past ++ [e]) id = placements past id := by
  simp [placements, h]

theorem placements_other (h : e.answer = some p) (hne : p.task ≠ id) :
    placements (past ++ [e]) id = placements past id := by
  simp [placements, h, hne]

theorem placements_same (h : e.answer = some p) :
    placements (past ++ [e]) p.task = placements past p.task ++ [p] := by
  simp [placements, h]

/-- `FollowsColumn` for the mark of a card. -/
def Mark.Follows (columns : Table TaskBoardColumn.id)
    (past : List (Event Desk Call (Option Placement))) (m : Mark) : Prop :=
  (m.completedAt.isSome = true ↔ meansDone columns m.column = true) ∧
    ∀ t, m.completedAt = some t → (follow columns (placements past m.id)).2 = some t

theorem follows_marks :
    (∀ m ∈ d.marks, m.Follows columns past) ↔
      ∀ row ∈ d.board.tasks, FollowsColumn columns past row := by
  rw [Desk.marks, forall_mem_map]
  exact .rfl

theorem Mark.Follows.congr (h : m.Follows columns past)
    {past' : List (Event Desk Call (Option Placement))}
    (hp : placements past' m.id = placements past m.id) : m.Follows columns past' := by
  refine ⟨h.1, ?_⟩
  rw [hp]
  exact h.2

/-- What holds of the cards whatever their completion times are. -/
structure Tracked (columns : Table TaskBoardColumn.id)
    (past : List (Event Desk Call (Option Placement))) (d : Desk) : Prop where
  below : ∀ m ∈ d.marks, m.id < d.board.nextId
  placed : ∀ e ∈ past, ∀ p, e.answer = some p → p.task < d.board.nextId
  column : ∀ m ∈ d.marks, (follow columns (placements past m.id)).1 = meansDone columns m.column
  known : ∀ m ∈ d.marks, (columns.get? m.column).isSome = true
  loaded : ∀ task ∈ d.loaded, (columns.get? task.column).isSome = true

theorem Tracked.placed_snoc (h : Tracked columns past d) {n : ℕ} (hn : d.board.nextId ≤ n)
    (hnew : ∀ p, e.answer = some p → p.task < n) :
    ∀ f ∈ past ++ [e], ∀ p, f.answer = some p → p.task < n := by
  intro f hf p hp
  rcases mem_append.mp hf with hold | hlast
  · exact Nat.lt_of_lt_of_le (h.placed f hold p hp) hn
  · rw [mem_singleton.mp hlast] at hp
    exact hnew p hp

theorem Mark.move_id (task : Task) (now : ℕ) (column : TaskBoardColumn) (m : Mark) :
    (m.move task now column).id = m.id := by
  unfold Mark.move
  split <;> rfl

theorem Tracked.step (h : Tracked columns past e.pre)
    (heffect : Effect columns e.input e.pre e.answer e.post) :
    Tracked columns (past ++ [e]) e.post := by
  obtain ⟨i, d, answer, d'⟩ := e
  dsimp only at h heffect ⊢
  cases heffect with
  | created now id creation column input access marks next loaded =>
    obtain ⟨-, hcolumn⟩ := meansDone_of_access access
    have hother : ∀ m ∈ d.marks, d.board.nextId ≠ m.id := by
      intro m hm
      have hlt := h.below m hm
      omega
    refine ⟨?_, h.placed_snoc (by omega) ?_, ?_, ?_, by rw [loaded]; exact h.loaded⟩
    · rw [marks, forall_mem_append]
      refine ⟨fun m hm => ?_, fun m hm => ?_⟩
      · have hlt : m.id < d.board.nextId := h.below m hm
        omega
      · rw [mem_singleton.mp hm, next]
        exact Nat.lt_succ_self _
    · intro p hp
      cases hp
      rw [next]
      exact Nat.lt_succ_self _
    · rw [marks, forall_mem_append]
      refine ⟨fun m hm => ?_, fun m hm => ?_⟩
      · rw [placements_other rfl (hother m hm)]
        exact h.column m hm
      · rw [mem_singleton.mp hm,
          placements_same (p := ⟨d.board.nextId, column.id, now⟩) rfl, follow_snoc]
    · rw [marks, forall_mem_append]
      refine ⟨h.known, fun m hm => ?_⟩
      rw [mem_singleton.mp hm]
      exact hcolumn
  | moved j user now id position task column input copy access row marks next loaded =>
    obtain ⟨-, hcolumn⟩ := meansDone_of_access access
    obtain ⟨m₀, hm₀, hid₀⟩ := row
    refine ⟨?_, h.placed_snoc (Nat.le_of_eq next.symm) ?_, ?_, ?_, by rw [loaded]; exact h.loaded⟩
    · rw [marks, forall_mem_map]
      intro m hm
      rw [Mark.move_id, next]
      exact h.below m hm
    · intro p hp
      cases hp
      rw [next]
      have hlt : m₀.id < d.board.nextId := h.below m₀ hm₀
      rwa [hid₀] at hlt
    · rw [marks, forall_mem_map]
      intro m hm
      by_cases hid : m.id = task.id
      · rw [Mark.move, if_pos hid, hid,
          placements_same (p := ⟨task.id, column.id, now⟩) rfl, follow_snoc]
      · rw [Mark.move, if_neg hid, placements_other rfl (Ne.symm hid)]
        exact h.column m hm
    · rw [marks, forall_mem_map]
      intro m hm
      by_cases hid : m.id = task.id
      · rw [Mark.move, if_pos hid]
        exact hcolumn
      · rw [Mark.move, if_neg hid]
        exact h.known m hm
  | quiet timely marks next loaded =>
    refine ⟨?_, h.placed_snoc (Nat.le_of_eq next.symm) (fun p hp => by cases hp), ?_, ?_, ?_⟩
    · intro m hm
      rw [next]
      exact h.below m (marks.subset hm)
    · intro m hm
      rw [placements_none rfl]
      exact h.column m (marks.subset hm)
    · exact fun m hm => h.known m (marks.subset hm)
    · intro task htask
      rcases loaded task htask with hold | hrow
      · exact h.loaded task hold
      · exact h.known task.mark (mem_map_of_mem hrow)

/-- A card that is moved has the right time if the loaded card and the stored one give the same. -/
theorem follows_moved {board : ℕ}
    (hm : m.Follows columns past)
    (htracked : (follow columns (placements past m.id)).1 = meansDone columns m.column)
    (haccess : accessColumn columns board id = some column) (hid : m.id = task.id)
    (hanswer : e.answer = some ⟨task.id, column.id, now⟩) :
    (m.move task now column).Follows columns (past ++ [e]) ↔
      (meansDone columns column.id = true →
        task.completedAt.getD now = m.completedAt.getD now) := by
  obtain ⟨hdone, -⟩ := meansDone_of_access haccess
  have hplaces : placements (past ++ [e]) m.id =
      placements past m.id ++ [⟨task.id, column.id, now⟩] := by
    rw [hid]
    exact placements_same hanswer
  rw [Mark.move, if_pos hid, Mark.Follows]
  rw [hplaces, follow_snoc, htracked]
  cases hc : meansDone columns column.id with
  | false =>
    rw [hc] at hdone
    simp [← hdone]
  | true =>
    rw [hc] at hdone
    simp only [← hdone, if_true, Option.isSome_some, true_and, Option.some.injEq, forall_eq',
      forall_const, Bool.true_and, Bool.not_eq_true']
    -- The card entered a done column now, or it was in one already and keeps its time.
    cases hold : m.completedAt with
    | none =>
      have hopen : meansDone columns m.column = false := by
        have hiff := hm.1
        rw [hold] at hiff
        simpa using hiff
      rw [if_pos hopen]
      simp [eq_comm]
    | some t =>
      have hclosed : meansDone columns m.column = true := hm.1.mp (by rw [hold]; rfl)
      rw [hclosed, hm.2 t hold]
      simp [eq_comm]

/-- From right times a step reaches right times if and only if it is timely. -/
theorem follows_step (h : Tracked columns past e.pre)
    (heffect : Effect columns e.input e.pre e.answer e.post)
    (hright : ∀ m ∈ e.pre.marks, m.Follows columns past) :
    (∀ m ∈ e.post.marks, m.Follows columns (past ++ [e])) ↔ Timely columns e := by
  obtain ⟨i, d, answer, d'⟩ := e
  dsimp only at h heffect ⊢
  cases heffect with
  | created now id creation column input access marks next loaded =>
    obtain rfl : i = .create now id creation := input
    have hold : ∀ m ∈ d.marks, m.Follows columns
        (past ++ [⟨.create now id creation, d, some ⟨d.board.nextId, column.id, now⟩, d'⟩]) := by
      intro m hm
      have hlt : m.id < d.board.nextId := h.below m hm
      exact (hright m hm).congr (placements_other rfl (by dsimp only; omega))
    rw [marks, forall_mem_append]
    constructor
    · rintro ⟨-, hnew⟩ c hc
      rw [access] at hc
      cases hc
      have hiff := (hnew _ (mem_singleton.mpr rfl)).1
      simpa using hiff
    · intro htimely
      refine ⟨hold, ?_⟩
      intro m hm
      rw [mem_singleton.mp hm]
      have hopen := htimely column access
      exact ⟨by simp [hopen], fun t ht => by cases ht⟩
  | moved j user now id position task column input copy access row marks next loaded =>
    obtain rfl : i = .move j user now id position := input
    rw [marks, forall_mem_map]
    constructor
    · intro hafter copy' hcopy c hc hdone row hrow hid
      rw [copy] at hcopy
      cases hcopy
      rw [access] at hc
      cases hc
      have hmem : row.mark ∈ d.marks := mem_map_of_mem hrow
      exact (follows_moved (hright _ hmem) (h.column _ hmem) access hid rfl).mp
        (hafter _ hmem) hdone
    · intro htimely m hm
      by_cases hid : m.id = task.id
      · obtain ⟨row, hrow, rfl⟩ := mem_map.mp hm
        refine (follows_moved (hright _ hm) (h.column _ hm) access hid rfl).mpr ?_
        intro hdone
        exact htimely task copy column access hdone row hrow hid
      · rw [Mark.move, if_neg hid]
        exact (hright m hm).congr (placements_other rfl (Ne.symm hid))
  | quiet timely marks next loaded =>
    have hsame : Timely columns ⟨i, d, none, d'⟩ := timely
    simp only [hsame, iff_true]
    intro m hm
    exact (hright m (marks.subset hm)).congr (placements_none rfl m.id)

/-- The times are right when they were right after every step, and when every step was timely. -/
structure Punctual (columns : Table TaskBoardColumn.id)
    (past : List (Event Desk Call (Option Placement))) (d : Desk) : Prop where
  tracked : Tracked columns past d
  right : (∀ before e later, past = before ++ e :: later →
    ∀ m ∈ e.post.marks, m.Follows columns (before ++ [e])) → ∀ m ∈ d.marks, m.Follows columns past
  timely : (∀ e ∈ past, Timely columns e) → ∀ m ∈ d.marks, m.Follows columns past

end Run

variable (columns)

/-- **Completion follows the column** in a run, if and only if no card is created in a column
that means done and no move sets another time than the stored card would have it set. -/
theorem completed_iff (calls : List Call) :
    (∀ past e later, history (serve columns) .empty calls = past ++ e :: later →
        ∀ row ∈ e.post.board.tasks, FollowsColumn columns (past ++ [e]) row) ↔
      ∀ e ∈ history (serve columns) .empty calls, Timely columns e := by
  have hstart : Punctual columns [] .empty := by
    have hnone : ∀ m ∈ Desk.empty.marks, m.Follows columns [] := by
      intro m hm
      cases hm
    refine ⟨⟨?_, ?_, ?_, ?_, ?_⟩, fun _ => hnone, fun _ => hnone⟩ <;> simp [Desk.empty, Desk.marks]
  have hstep : ∀ past e, serve columns e.input e.pre = (e.answer, e.post) →
      Punctual columns past e.pre → Punctual columns (past ++ [e]) e.post := by
    intro past e he h
    have heffect := serve_effect h.tracked.loaded he
    refine ⟨h.tracked.step heffect, ?_, ?_⟩
    · intro hall
      exact hall past e [] rfl
    · intro hall
      rw [forall_mem_append] at hall
      exact (follows_step h.tracked heffect (h.timely hall.1)).mpr (hall.2 e (by simp))
  obtain ⟨-, hmid⟩ := history_past (serve columns) .empty calls hstart hstep
  have hiff : ∀ past e later, history (serve columns) .empty calls = past ++ e :: later →
      (∀ m ∈ e.pre.marks, m.Follows columns past) →
      ((∀ row ∈ e.post.board.tasks, FollowsColumn columns (past ++ [e]) row) ↔
        Timely columns e) := by
    intro past e later hsplit hright
    have htracked := (hmid past e later hsplit).tracked
    have hmem : e ∈ history (serve columns) .empty calls := by
      rw [hsplit]
      simp
    rw [← follows_marks]
    exact follows_step htracked (serve_effect htracked.loaded (step_of_mem hmem)) hright
  constructor
  · intro hall e he
    obtain ⟨past, later, hsplit⟩ := append_of_mem he
    refine (hiff past e later hsplit ((hmid past e later hsplit).right ?_)).mp
      (hall past e later hsplit)
    rintro before f rest rfl
    refine follows_marks.mpr (hall before f (rest ++ e :: later) ?_)
    rw [hsplit]
    simp
  · intro htimely past e later hsplit
    refine (hiff past e later hsplit ((hmid past e later hsplit).timely ?_)).mpr
      (htimely e (by rw [hsplit]; simp))
    intro f hf
    exact htimely f (by rw [hsplit]; simp [hf])

end Serve

/-! ## A card that is created in the column Done -/

/-- The columns of a new board. -/
def defaultColumns : Table TaskBoardColumn.id where
  rows := [⟨1, 1, "Inbox", none⟩, ⟨2, 1, "In progress", none⟩, ⟨3, 1, "Awaiting review", none⟩,
    ⟨4, 1, "Done", some 7⟩]
  sorted := by decide

/-- A card for the column Done. -/
def finishedCard : Creation :=
  { userProfile := 1, realm := 1, board := 1, column := ⟨4, 1, "Done", some 7⟩, title := "Ship it" }

/-- The new card is in Done and has no completion time. -/
theorem created_in_done :
    ¬ ∀ past e later, history (serve defaultColumns) .empty [.create 10 4 finishedCard] =
        past ++ e :: later →
      ∀ row ∈ e.post.board.tasks, FollowsColumn defaultColumns (past ++ [e]) row := by
  intro hall
  have hrow := hall [] _ [] rfl _ (mem_singleton.mpr rfl)
  have hcompleted := hrow.1.mpr (by decide)
  cases hcompleted

end GrowTeam.Tasks
