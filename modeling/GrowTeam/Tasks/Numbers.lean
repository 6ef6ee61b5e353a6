/-
# Card numbers under overlapping creations

A creation is one transaction, and its statements are separate steps: it reads the highest
number of the realm, reads the last position of the column, inserts the row and commits.
Between any two of them other transactions commit; a statement sees the rows committed when
it runs.  The unique constraint on realm and number makes an insertion wait for another
uncommitted row with the same number, and refuses it when a committed row has that number.

`GT-<counter>` is to be unique per realm and never reused.  `kept_iff` says exactly when it is.
-/
import GrowTeam.History
import GrowTeam.Tasks.Cards

namespace GrowTeam.Tasks

open History List

/-! ## The transactions -/

/-- How far a creation has come.  `seen` are the cards its first statement found. -/
inductive Phase where
  | begun
  | counted (seen : List Task)
  | placed (seen : List Task) (position : ℚ)
  | inserted (seen : List Task) (task : Task)
  | ended

structure Transaction where
  creation : Creation
  phase : Phase

/-- `given` are the numbers of all cards that were ever committed, each with its realm. -/
structure World where
  board : Board
  transactions : List Transaction
  given : List (ℕ × ℕ)

def World.empty : World := ⟨⟨[], [], 1⟩, [], []⟩

/-- One statement of a creation, or one whole action on existing cards. -/
inductive Move where
  | begin (creation : Creation)
  | count (i : ℕ)
  | place (i : ℕ)
  | insert (i now : ℕ)
  | commit (i : ℕ)
  | rollback (i : ℕ)
  | move (userProfile now : ℕ) (task : Task) (previousColumn column : TaskBoardColumn)
      (position : Option ℚ)
  | update (userProfile now : ℕ) (task : Task) (changes : Changes)
  | remove (ids : List ℕ)

inductive Answer where
  | done
  /-- Nothing happens: the statement is not the next one, or it waits. -/
  | waits
  /-- `IntegrityError`: a committed card of the realm has the number. -/
  | duplicate
  /-- `DataError`: the number is no `PositiveIntegerField`. -/
  | outOfRange
  | created (task : Task)

/-- The largest value of a `PositiveIntegerField`. -/
def MAX_COUNTER : ℕ := 2147483647

def World.setPhase (w : World) (i : ℕ) (phase : Phase) : World :=
  { w with transactions := w.transactions.modify i fun t => { t with phase := phase } }

/-- The uncommitted rows. -/
def World.pending (w : World) : List Task :=
  w.transactions.filterMap fun t =>
    match t.phase with
    | .inserted _ task => some task
    | _ => none

/-- The insertion of a creation that has read `seen` and `position`. -/
def World.insert (w : World) (i now : ℕ) (c : Creation) (seen : List Task) (position : ℚ) :
    Answer × World :=
  let task := c.task w.board.nextId (nextCounter c.realm seen) position now
  if MAX_COUNTER < task.counter then (.outOfRange, w.setPhase i .ended)
  else if w.board.tasks.any fun row => row.number = task.number then
    (.duplicate, w.setPhase i .ended)
  else if w.pending.any fun row => row.number = task.number then (.waits, w)
  else
    (.done, ({ w with board := { w.board with nextId := w.board.nextId + 1 } }).setPhase i
      (.inserted seen task))

/-- The commit of a creation that has inserted `task`. -/
def World.commit (w : World) (i : ℕ) (c : Creation) (task : Task) : Answer × World :=
  (.created task, ({ w with
    board := { w.board with
      tasks := w.board.tasks ++ [task], history := w.board.history ++ [c.history task] }
    given := w.given ++ [task.number] }).setPhase i .ended)

/-- An action that may fail; a failed one changes nothing. -/
def World.act (w : World) (board : Option Board) : Answer × World :=
  match board with
  | some board => (.done, { w with board := board })
  | none => (.waits, w)

def step : Move → World → Answer × World
  | .begin creation, w => (.done, { w with transactions := w.transactions ++ [⟨creation, .begun⟩] })
  | .count i, w =>
    match w.transactions[i]? with
    | some ⟨_, .begun⟩ => (.done, w.setPhase i (.counted w.board.tasks))
    | _ => (.waits, w)
  | .place i, w =>
    match w.transactions[i]? with
    | some ⟨c, .counted seen⟩ =>
      (.done, w.setPhase i (.placed seen (positionAtEnd c.column.id w.board.tasks)))
    | _ => (.waits, w)
  | .insert i now, w =>
    match w.transactions[i]? with
    | some ⟨c, .placed seen position⟩ => w.insert i now c seen position
    | _ => (.waits, w)
  | .commit i, w =>
    match w.transactions[i]? with
    | some ⟨c, .inserted _ task⟩ => w.commit i c task
    | _ => (.waits, w)
  | .rollback i, w => (.done, w.setPhase i .ended)
  | .move userProfile now task previousColumn column position, w =>
    w.act (doMoveTask userProfile now task previousColumn column position w.board)
  | .update userProfile now task changes, w =>
    w.act (doUpdateTask userProfile now task changes w.board)
  | .remove ids, w => (.done, { w with board := w.board.remove ids })

/-! ## The law and its condition -/

variable (e : Event World Move Answer)

/-- What is asked of a step: an accepted creation gets a number no card of the realm ever had,
and no creation is refused for a number that another one got. -/
def Kept : Prop :=
  match e.answer with
  | .created task => task.number ∉ e.pre.given
  | .duplicate => False
  | _ => True

/-- The cards that a creation found when it counted. -/
def Phase.seen : Phase → Option (List Task)
  | .counted seen => some seen
  | .placed seen _ => some seen
  | .inserted seen _ => some seen
  | _ => none

/-- Each number the realm has given so far is at most that of a card the creation saw. -/
def SawHighest (w : World) (realm : ℕ) (seen : List Task) : Prop :=
  ∀ number ∈ w.given, number.1 = realm → ∃ t ∈ seen, t.realm = realm ∧ number.2 ≤ t.counter

/-- The transaction whose fate a step settles. -/
def settled : Option Transaction :=
  match e.answer, e.input with
  | .created _, .commit i => e.pre.transactions[i]?
  | .duplicate, .insert i _ => e.pre.transactions[i]?
  | _, _ => none

/-- A creation whose fate is settled has seen the highest card of its realm. -/
def UpToDate : Prop :=
  ∀ t ∈ settled e, ∀ seen ∈ t.phase.seen, SawHighest e.pre t.creation.realm seen

/-! ## What holds of every reachable world -/

/-- The cards a creation saw have been given their numbers, and the row it inserted has the
number that follows from them. -/
structure Transaction.Sound (given : List (ℕ × ℕ)) (t : Transaction) : Prop where
  seen : ∀ cards ∈ t.phase.seen, ∀ c ∈ cards, c.number ∈ given
  row : ∀ cards task, t.phase = .inserted cards task →
    task.number = (t.creation.realm, nextCounter t.creation.realm cards)

/-- No number below one that was given is free. -/
structure World.Sound (w : World) : Prop where
  stored : ∀ t ∈ w.board.tasks, t.number ∈ w.given
  transactions : ∀ t ∈ w.transactions, t.Sound w.given
  positive : ∀ number ∈ w.given, 0 < number.2
  closed : ∀ realm n m, (realm, n) ∈ w.given → 0 < m → m ≤ n → (realm, m) ∈ w.given

theorem Transaction.Sound.grow {given more : List (ℕ × ℕ)} {t : Transaction}
    (h : t.Sound given) : t.Sound (given ++ more) where
  seen cards hcards c hc := mem_append_left _ (h.seen cards hcards c hc)
  row := h.row

variable {w : World} {seen : List Task}

variable {i realm : ℕ}

theorem mem_setPhase {phase : Phase} {t : Transaction}
    (h : t ∈ (w.setPhase i phase).transactions) :
    t ∈ w.transactions ∨ ∃ u, w.transactions[i]? = some u ∧ t = ⟨u.creation, phase⟩ := by
  obtain ⟨j, hj⟩ := mem_iff_getElem?.mp h
  rw [World.setPhase, getElem?_modify] at hj
  obtain ⟨u, hu, rfl⟩ := Option.map_eq_some_iff.mp hj
  by_cases hij : i = j
  · subst hij
    exact .inr ⟨u, hu, by simp⟩
  · rw [if_neg hij]
    exact .inl (mem_of_getElem? hu)

/-- A transaction that moves on keeps the world sound when its own new phase is. -/
theorem World.Sound.setPhase {phase : Phase} (h : w.Sound)
    (hphase : ∀ t, w.transactions[i]? = some t → (⟨t.creation, phase⟩ : Transaction).Sound w.given) :
    (w.setPhase i phase).Sound := { h with
  transactions t ht := by
    rcases mem_setPhase ht with ht | ⟨u, hu, rfl⟩
    · exact h.transactions t ht
    · exact hphase u hu }

theorem begun_sound (c : Creation) (given : List (ℕ × ℕ)) :
    (⟨c, .begun⟩ : Transaction).Sound given where
  seen cards hcards := by cases hcards
  row cards task h := by cases h

theorem ended_sound (c : Creation) (given : List (ℕ × ℕ)) :
    (⟨c, .ended⟩ : Transaction).Sound given where
  seen cards hcards := by cases hcards
  row cards task h := by cases h

/-- Actions on existing cards give no card another number and take none from `given`. -/
theorem World.Sound.ofNumbers {board : Board} (h : w.Sound)
    (hnumbers : ∀ t ∈ board.tasks, ∃ u ∈ w.board.tasks, t.number = u.number) :
    ({ w with board := board } : World).Sound := { h with
  stored t ht := by
    obtain ⟨u, hu, heq⟩ := hnumbers t ht
    rw [heq]
    exact h.stored u hu }

theorem exists_number {tasks before : List Task}
    (h : tasks.map Task.number = before.map Task.number) {t : Task} (ht : t ∈ tasks) :
    ∃ u ∈ before, t.number = u.number := by
  have hmem : t.number ∈ before.map Task.number := h ▸ mem_map_of_mem ht
  obtain ⟨u, hu, heq⟩ := mem_map.mp hmem
  exact ⟨u, hu, heq.symm⟩

theorem World.Sound.act {board : Option Board} (h : w.Sound)
    (hnumbers : ∀ b, board = some b → b.tasks.map Task.number = w.board.tasks.map Task.number) :
    (w.act board).2.Sound := by
  cases board with
  | none => exact h
  | some b =>
    apply h.ofNumbers
    intro t ht
    exact exists_number (hnumbers b rfl) ht

/-- Below the number that follows from cards of a sound world, every number was given. -/
theorem given_below (h : w.Sound) {m : ℕ} {cards : List Task}
    (hcards : ∀ c ∈ cards, c.number ∈ w.given) (hpos : 0 < m)
    (hm : m < nextCounter realm cards) : (realm, m) ∈ w.given := by
  rcases nextCounter_cases realm cards with hone | ⟨t, ht, hrealm, hnext⟩
  · omega
  · apply h.closed realm t.counter m _ hpos (by omega)
    rw [← hrealm]
    exact hcards t ht

theorem World.Sound.insert {now : ℕ} {c : Creation}
    {position : ℚ} (h : w.Sound) (ht : w.transactions[i]? = some ⟨c, .placed seen position⟩) :
    (w.insert i now c seen position).2.Sound := by
  have hended : (w.setPhase i .ended).Sound := h.setPhase fun t _ => ended_sound _ _
  have hplaced := h.transactions _ (mem_of_getElem? ht)
  unfold World.insert
  simp only
  split
  · exact hended
  split
  · exact hended
  split
  · exact h
  · have hbumped : ({ w with board := { w.board with nextId := w.board.nextId + 1 } } : World).Sound :=
      h.ofNumbers fun t ht => ⟨t, ht, rfl⟩
    apply hbumped.setPhase
    intro t ht'
    obtain rfl : (⟨c, .placed seen position⟩ : Transaction) = t := Option.some.inj (ht.symm.trans ht')
    constructor
    · intro cards hcards
      cases hcards
      exact hplaced.seen seen rfl
    · intro cards task hphase
      cases hphase
      rfl

theorem World.Sound.commit {c : Creation} {task : Task}
    (h : w.Sound) (ht : w.transactions[i]? = some ⟨c, .inserted seen task⟩) :
    (w.commit i c task).2.Sound := by
  have hinserted := h.transactions _ (mem_of_getElem? ht)
  have hrow : task.number = (c.realm, nextCounter c.realm seen) := hinserted.row seen task rfl
  apply World.Sound.setPhase
  · refine ⟨?_, fun t ht => (h.transactions t ht).grow, ?_, ?_⟩
    · intro t ht
      rcases mem_append.mp ht with ht | ht
      · exact mem_append_left _ (h.stored t ht)
      · rw [mem_singleton.mp ht]
        simp
    · intro number hnumber
      rcases mem_append.mp hnumber with hnumber | hnumber
      · exact h.positive number hnumber
      · rw [mem_singleton.mp hnumber, hrow]
        exact nextCounter_pos _ _
    · -- The new number follows from cards that the creation saw, so nothing below it is free.
      intro realm n m hn hpos hm
      rcases mem_append.mp hn with hn | hn
      · exact mem_append_left _ (h.closed realm n m hn hpos hm)
      · rw [hrow, mem_singleton] at hn
        obtain ⟨rfl, rfl⟩ := hn
        rcases Nat.lt_or_eq_of_le hm with hlt | rfl
        · exact mem_append_left _ (given_below h (hinserted.seen seen rfl) hpos hlt)
        · simp [hrow]
  · exact fun t _ => ended_sound _ _

theorem step_sound (m : Move) (h : w.Sound) : (step m w).2.Sound := by
  cases m with
  | begin creation =>
    refine ⟨h.stored, ?_, h.positive, h.closed⟩
    intro t ht
    rcases mem_append.mp ht with ht | ht
    · exact h.transactions t ht
    · rw [mem_singleton.mp ht]
      exact begun_sound _ _
  | count i =>
    rw [step]
    split
    · apply h.setPhase
      intro t _
      refine ⟨?_, fun cards task hphase => by cases hphase⟩
      intro cards hcards c hc
      cases hcards
      exact h.stored c hc
    · exact h
  | place i =>
    rw [step]
    split
    · next c seen ht =>
      have hcounted := h.transactions _ (mem_of_getElem? ht)
      apply h.setPhase
      intro t _
      refine ⟨?_, fun cards task hphase => by cases hphase⟩
      intro cards hcards
      cases hcards
      exact hcounted.seen seen rfl
    · exact h
  | insert i now =>
    rw [step]
    split
    · next ht => exact h.insert ht
    · exact h
  | commit i =>
    rw [step]
    split
    · next ht => exact h.commit ht
    · exact h
  | rollback i => exact h.setPhase fun t _ => ended_sound _ _
  | move userProfile now task previousColumn column position =>
    exact h.act fun b hb => doMoveTask_numbers hb
  | update userProfile now task changes => exact h.act fun b hb => doUpdateTask_numbers hb
  | remove ids => exact h.ofNumbers fun t ht => ⟨t, mem_of_mem_filter ht, rfl⟩

theorem empty_sound : World.empty.Sound where
  stored t ht := by cases ht
  transactions t ht := by cases ht
  positive number hnumber := by cases hnumber
  closed realm n m hn := by cases hn

theorem sound_of_mem {ms : List Move} {e : Event World Move Answer}
    (he : e ∈ history step World.empty ms) : e.pre.Sound :=
  ((history_inv step World.empty ms empty_sound fun m _ hw => step_sound m hw).2 e he).1

/-! ## The law holds exactly of the creations that saw the highest card -/

/-- A number is fresh exactly when the cards it follows from include the highest. -/
theorem fresh_iff (h : w.Sound) :
    (realm, nextCounter realm seen) ∉ w.given ↔ SawHighest w realm seen := by
  constructor
  · intro hfresh number hnumber hrealm
    by_contra hnone
    push Not at hnone
    -- A higher number was given, and with it each below.
    have hle : nextCounter realm seen ≤ number.2 := by
      by_contra hlt
      rcases nextCounter_cases realm seen with hone | ⟨t, ht, htrealm, hnext⟩
      · have hpos := h.positive number hnumber
        omega
      · exact absurd (hnone t ht htrealm) (by omega)
    apply hfresh
    subst hrealm
    exact h.closed number.1 number.2 _ hnumber (nextCounter_pos _ _) hle
  · intro hhighest hgiven
    obtain ⟨t, ht, htrealm, hle⟩ := hhighest _ hgiven rfl
    exact absurd (lt_nextCounter ht htrealm) (by simpa using hle)

variable {w w' : World}

/-- Only an insertion or a commit settles a creation. -/
theorem quiet {m : Move} {answer : Answer} (h : step m w = (answer, w'))
    (hinsert : ∀ i now, m ≠ .insert i now) (hcommit : ∀ i, m ≠ .commit i) :
    answer = .done ∨ answer = .waits := by
  have hact : ∀ board, w.act board = (answer, w') → answer = .done ∨ answer = .waits := by
    intro board hboard
    cases board with
    | none => exact .inr (congrArg Prod.fst hboard).symm
    | some b => exact .inl (congrArg Prod.fst hboard).symm
  cases m with
  | insert i now => exact absurd rfl (hinsert i now)
  | commit i => exact absurd rfl (hcommit i)
  | count | place =>
    rw [step] at h
    split at h
    · exact .inl (congrArg Prod.fst h).symm
    · exact .inr (congrArg Prod.fst h).symm
  | move | update => exact hact _ h
  | begin | rollback | remove => exact .inl (congrArg Prod.fst h).symm

theorem created_inv {m : Move} {task : Task}
    (h : step m w = (.created task, w')) :
    ∃ i c seen, m = .commit i ∧ w.transactions[i]? = some ⟨c, .inserted seen task⟩ := by
  cases m with
  | commit i =>
    rw [step] at h
    split at h
    · next c seen row ht =>
      cases h
      exact ⟨i, c, seen, rfl, ht⟩
    · cases h
  | insert i now =>
    simp only [step, World.insert] at h
    repeat' split at h
    all_goals cases h
  | _ =>
    rcases quiet h (by simp) (by simp) with hanswer | hanswer
    · cases hanswer
    · cases hanswer

theorem duplicate_inv {m : Move} (h : step m w = (.duplicate, w')) :
    ∃ i now c seen position, m = .insert i now ∧
      w.transactions[i]? = some ⟨c, .placed seen position⟩ ∧
      ∃ row ∈ w.board.tasks, row.number = (c.realm, nextCounter c.realm seen) := by
  cases m with
  | insert i now =>
    rw [step] at h
    split at h
    · next c seen position ht =>
      rw [World.insert] at h
      split at h
      · cases h
      split at h
      · next hany =>
        obtain ⟨row, hrow, heq⟩ := any_eq_true.mp hany
        exact ⟨i, now, c, seen, position, rfl, ht, row, hrow, of_decide_eq_true heq⟩
      · split at h <;> cases h
    · cases h
  | commit i =>
    simp only [step, World.commit] at h
    split at h <;> cases h
  | _ =>
    rcases quiet h (by simp) (by simp) with hanswer | hanswer
    · cases hanswer
    · cases hanswer

def firstColumn : TaskBoardColumn := ⟨1, 1, "Inbox", none⟩

def plainCreation (title : String) : Creation :=
  { userProfile := 7, realm := 1, board := 1, column := firstColumn, title := title }

/-- One creation after another; `i` is the place of its transaction. -/
def created (i : ℕ) (title : String) : List Move :=
  [.begin (plainCreation title), .count i, .place i, .insert i 0, .commit i]

/-- In every run, a creation gets a number of its own, or is not refused, exactly when the
cards it counted include the highest one its realm has given a number to by then. -/
theorem kept_iff (ms : List Move) (e : Event World Move Answer)
    (he : e ∈ history step World.empty ms) : Kept e ↔ UpToDate e := by
  have hsound := sound_of_mem he
  have hstep := step_of_mem he
  obtain ⟨m, w, answer, w'⟩ := e
  cases answer with
  | created task =>
    obtain ⟨i, c, seen, rfl, ht⟩ := created_inv hstep
    have hrow := (hsound.transactions _ (mem_of_getElem? ht)).row seen task rfl
    have hfresh : task.number ∉ w.given ↔ SawHighest w c.realm seen := by
      rw [hrow]
      exact fresh_iff hsound
    simpa [Kept, UpToDate, settled, ht, Phase.seen] using hfresh
  | duplicate =>
    obtain ⟨i, now, c, seen, position, rfl, ht, row, hrow, heq⟩ := duplicate_inv hstep
    have hgiven := hsound.stored row hrow
    rw [heq] at hgiven
    have hstale : ¬ SawHighest w c.realm seen := by
      rw [← fresh_iff hsound]
      exact not_not_intro hgiven
    simpa [Kept, UpToDate, settled, ht, Phase.seen] using hstale
  | done | waits | outOfRange => simp [Kept, UpToDate, settled]

/-- The first card of a realm keeps the law. -/
theorem kept_first : ∃ e ∈ history step World.empty (created 0 "first"),
    e.answer = .created ((plainCreation "first").task 1 1 POSITION_STEP 0) ∧ Kept e := by
  have hmem := mem_of_getElem? (a := _) (l := history step World.empty (created 0 "first"))
    (i := 4) rfl
  refine ⟨_, hmem, rfl, (kept_iff _ _ hmem).mpr ?_⟩
  intro t _ seen _ number hnumber
  cases hnumber

/-! ## A number given twice, and a creation refused -/

/-- The highest card is deleted, and the next creation gets its number. -/
def reuse : List Move := created 0 "first" ++ [.remove [1]] ++ created 1 "second"

/-- Two creations count before either commits; the second is refused. -/
def overlap : List Move :=
  [.begin (plainCreation "first"), .begin (plainCreation "second"), .count 0, .count 1, .place 0,
    .place 1, .insert 0 0, .insert 1 0, .commit 0, .insert 1 0]

/-- A card gets the number of a deleted one, and a creation is refused because of another. -/
theorem number_reused_and_refused :
    (∃ e ∈ history step World.empty reuse, ¬ Kept e) ∧
      ∃ e ∈ history step World.empty overlap, ¬ Kept e := by
  refine ⟨⟨_, mem_of_getElem? (i := 10) rfl, ?_⟩, ⟨_, mem_of_getElem? (i := 9) rfl, ?_⟩⟩
  · intro hkept
    exact hkept (by decide)
  · exact id

end GrowTeam.Tasks
