/-
# Cards and their channels over whole runs

A stored card keeps the channel in which it was created until that channel is deleted, and a
loaded copy differs from it at most by a channel that is gone.  So an event of a card reaches
the audience of the card as stored, and `guarded_iff` says for which users this is right.
-/
import GrowTeam.Tasks.Audience

namespace GrowTeam.Tasks

open History List
open Chat (Tables UserProfile Stream)

/-! ## What holds of every reachable chat -/

/-- What a change of the cards leaves: each row is an old one with other contents. -/
structure Alike (before after : Board) (f : Task → Task) : Prop where
  id : ∀ t, (f t).id = t.id
  realm : ∀ t, (f t).realm = t.realm
  stream : ∀ t, (f t).stream = t.stream
  rows : ∀ row ∈ after.tasks, ∃ old ∈ before.tasks, row = f old
  nextId : after.nextId = before.nextId

/-- A copy of a card that a request holds: its channel may have been deleted since. -/
def Copies (o : Office) (held row : Task) : Prop :=
  row.realm = held.realm ∧
    (row.stream = held.stream ∨ row.stream = none ∧ ∃ s ∈ o.removed, held.stream = some s)

structure Office.Sound (o : Office) : Prop where
  unique : ∀ a ∈ o.board.tasks, ∀ b ∈ o.board.tasks, a.id = b.id → a = b
  low : ∀ row ∈ o.board.tasks, row.id < o.board.nextId
  channel : ∀ row ∈ o.board.tasks, ∀ id, row.stream = some id →
    ∃ x ∈ o.tables.streams.rows, x.id = id ∧ x.realmId = row.realm
  gone : ∀ id ∈ o.removed, ∀ x ∈ o.tables.streams.rows, x.id ≠ id
  origin : ∀ g ∈ o.origins, g.task < o.board.nextId ∧ ∀ row ∈ o.board.tasks, g.task = row.id →
    row.stream = some g.stream ∨ row.stream = none ∧ g.stream ∈ o.removed
  copy : ∀ held ∈ o.loaded, held.id < o.board.nextId ∧
    ∀ row ∈ o.board.tasks, row.id = held.id → Copies o held row

theorem start_sound (tables : Tables) : (Office.start tables).Sound where
  unique a ha := by cases ha
  low row hrow := by cases hrow
  channel row hrow := by cases hrow
  gone id hid := by cases hid
  origin g hg := by cases hg
  copy held hheld := by cases hheld

variable {o : Office} {task : Task} {user : UserProfile} {t : Tables}

theorem Office.Sound.ofAlike {board : Board} {f : Task → Task} (h : o.Sound)
    (ha : Alike o.board board f) : ({ o with board := board } : Office).Sound where
  unique a hmem b hmem' hid := by
    obtain ⟨x, hx, rfl⟩ := ha.rows a hmem
    obtain ⟨y, hy, rfl⟩ := ha.rows b hmem'
    rw [ha.id, ha.id] at hid
    rw [h.unique x hx y hy hid]
  low row hrow := by
    obtain ⟨x, hx, rfl⟩ := ha.rows row hrow
    rw [ha.id, ha.nextId]
    exact h.low x hx
  channel row hrow id hid := by
    obtain ⟨x, hx, rfl⟩ := ha.rows row hrow
    rw [ha.stream] at hid
    rw [ha.realm]
    exact h.channel x hx id hid
  gone := h.gone
  origin g hg := by
    obtain ⟨hlow, hrows⟩ := h.origin g hg
    refine ⟨by rwa [ha.nextId], ?_⟩
    intro row hrow hid
    obtain ⟨x, hx, rfl⟩ := ha.rows row hrow
    rw [ha.stream]
    exact hrows x hx (hid.trans (ha.id x))
  copy held hheld := by
    obtain ⟨hlow, hrows⟩ := h.copy held hheld
    refine ⟨by rwa [ha.nextId], ?_⟩
    intro row hrow hid
    obtain ⟨x, hx, rfl⟩ := ha.rows row hrow
    obtain ⟨hrealm, hstream⟩ := hrows x hx ((ha.id x).symm.trans hid)
    refine ⟨(ha.realm x).trans hrealm, ?_⟩
    rwa [ha.stream]

/-! ### The actions on cards -/

theorem save_alike {board saved : Board} {id : ℕ} {write : Task → Task}
    (hid : ∀ t, (write t).id = t.id) (hrealm : ∀ t, (write t).realm = t.realm)
    (hstream : ∀ t, (write t).stream = t.stream) (h : board.save id write = some saved) :
    Alike board saved fun row => if row.id = id then write row else row := by
  unfold Board.save at h
  split at h
  · cases h
    constructor
    · intro t
      split
      · exact hid t
      · rfl
    · intro t
      split
      · exact hrealm t
      · rfl
    · intro t
      split
      · exact hstream t
      · rfl
    · intro row hrow
      obtain ⟨old, hold, rfl⟩ := mem_map.mp hrow
      exact ⟨old, hold, rfl⟩
    · rfl
  · cases h

/-- An entry in the history leaves the cards alone. -/
theorem Alike.record {before after : Board} {f : Task → Task} (h : Alike before after f)
    (entry : TaskHistory) : Alike before (after.record entry) f :=
  { h with }

theorem doMoveTask_alike {userProfile now : ℕ}
    {previousColumn column : TaskBoardColumn} {position : Option ℚ} {board moved : Board}
    (h : doMoveTask userProfile now task previousColumn column position board = some moved) :
    ∃ f, Alike board moved f := by
  obtain ⟨saved, hsave, rfl⟩ := Option.map_eq_some_iff.mp h
  have halike := save_alike (by intro t; rfl) (by intro t; rfl) (by intro t; rfl) hsave
  split
  · exact ⟨_, halike.record _⟩
  · exact ⟨_, halike⟩

theorem doUpdateTask_alike {userProfile now : ℕ} {changes : Changes}
    {board updated : Board} (hchanges : changes.fields ≠ [])
    (h : doUpdateTask userProfile now task changes board = some updated) :
    ∃ f, Alike board updated f := by
  unfold doUpdateTask at h
  rw [if_neg hchanges] at h
  obtain ⟨saved, hsave, rfl⟩ := Option.map_eq_some_iff.mp h
  have halike := save_alike (by intro t; rfl) (by intro t; rfl) (by intro t; rfl) hsave
  exact ⟨_, halike.record _⟩

theorem remove_alike (board : Board) (ids : List ℕ) : Alike board (board.remove ids) id where
  id _ := rfl
  realm _ := rfl
  stream _ := rfl
  rows row hrow := ⟨row, mem_of_mem_filter hrow, rfl⟩
  nextId := rfl

theorem forgetMessage_same (id : ℕ) (task : Task) :
    (task.forgetMessage id).id = task.id ∧ (task.forgetMessage id).realm = task.realm ∧
      (task.forgetMessage id).stream = task.stream := by
  unfold Task.forgetMessage
  split
  · exact ⟨rfl, rfl, rfl⟩
  · exact ⟨rfl, rfl, rfl⟩

theorem Office.Sound.act {board : Option Board} (h : o.Sound)
    (halike : ∀ b, board = some b → ∃ f, Alike o.board b f) : (o.act task board).2.Sound := by
  cases board with
  | none => exact h
  | some b =>
    obtain ⟨f, hf⟩ := halike b rfl
    exact h.ofAlike hf

theorem Office.Sound.deleteMessage (h : o.Sound) (id : ℕ) : (o.deleteMessage id).Sound := by
  have halike : Alike o.board
      { o.board with tasks := o.board.tasks.map (Task.forgetMessage id) } (Task.forgetMessage id) := by
    refine ⟨fun t => (forgetMessage_same id t).1, fun t => (forgetMessage_same id t).2.1,
      fun t => (forgetMessage_same id t).2.2, ?_, rfl⟩
    intro row hrow
    obtain ⟨old, hold, rfl⟩ := mem_map.mp hrow
    exact ⟨old, hold, rfl⟩
  obtain ⟨hunique, hlow, hchannel, hgone, horigin, hcopy⟩ := h.ofAlike halike
  exact ⟨hunique, hlow, hchannel, hgone, horigin, hcopy⟩

/-! ### Channels that go, and the rest of the chat -/

theorem mem_erased {α : Type} {key : α → ℕ} {t : Table key} {id : ℕ} {x : α} :
    x ∈ (erased t id).rows ↔ x ∈ t.rows ∧ key x ≠ id := by
  show x ∈ t.rows.filter (key · ≠ id) ↔ _
  rw [mem_filter, decide_eq_true_eq]

theorem forgetStream_same (id : ℕ) (task : Task) :
    (task.forgetStream id).id = task.id ∧ (task.forgetStream id).realm = task.realm := by
  unfold Task.forgetStream
  split
  · exact ⟨rfl, rfl⟩
  · exact ⟨rfl, rfl⟩

/-- A card keeps its channel, unless that is the one deleted. -/
theorem forgetStream_stream (id : ℕ) (task : Task) :
    (task.stream = some id ∧ (task.forgetStream id).stream = none) ∨
      (task.stream ≠ some id ∧ (task.forgetStream id).stream = task.stream) := by
  unfold Task.forgetStream
  by_cases h : task.stream = some id
  · rw [if_pos h]
    exact .inl ⟨h, rfl⟩
  · rw [if_neg h]
    exact .inr ⟨h, rfl⟩

theorem Office.Sound.deleteStream (h : o.Sound) (id : ℕ) : (o.deleteStream id).Sound where
  unique a ha b hb hid := by
    obtain ⟨x, hx, rfl⟩ := mem_map.mp ha
    obtain ⟨y, hy, rfl⟩ := mem_map.mp hb
    rw [(forgetStream_same id x).1, (forgetStream_same id y).1] at hid
    rw [h.unique x hx y hy hid]
  low row hrow := by
    obtain ⟨x, hx, rfl⟩ := mem_map.mp hrow
    rw [(forgetStream_same id x).1]
    exact h.low x hx
  channel row hrow s hs := by
    obtain ⟨x, hx, rfl⟩ := mem_map.mp hrow
    rcases forgetStream_stream id x with ⟨-, hnone⟩ | ⟨hne, hsame⟩
    · rw [hnone] at hs
      cases hs
    · rw [hsame] at hs
      obtain ⟨c, hc, rfl, hrealm⟩ := h.channel x hx s hs
      refine ⟨c, mem_erased.mpr ⟨hc, ?_⟩, rfl, hrealm.trans (forgetStream_same id x).2.symm⟩
      rintro rfl
      exact hne hs
  gone s hs x hx := by
    obtain ⟨hmem, hne⟩ := mem_erased.mp hx
    rcases mem_append.mp hs with hs | hs
    · exact h.gone s hs x hmem
    · rwa [mem_singleton.mp hs]
  origin g hg := by
    obtain ⟨hlow, hrows⟩ := h.origin g hg
    refine ⟨hlow, ?_⟩
    intro row hrow hid
    obtain ⟨x, hx, rfl⟩ := mem_map.mp hrow
    rw [(forgetStream_same id x).1] at hid
    rcases forgetStream_stream id x with ⟨heq, hnone⟩ | ⟨hne, hsame⟩
    · refine .inr ⟨hnone, ?_⟩
      rcases hrows x hx hid with hstream | ⟨hstream, hremoved⟩
      · rw [heq] at hstream
        rw [← Option.some.inj hstream]
        exact mem_append_right _ (mem_singleton_self id)
      · exact mem_append_left _ hremoved
    · rw [hsame]
      rcases hrows x hx hid with hstream | ⟨hstream, hremoved⟩
      · exact .inl hstream
      · exact .inr ⟨hstream, mem_append_left _ hremoved⟩
  copy held hheld := by
    obtain ⟨hlow, hrows⟩ := h.copy held hheld
    refine ⟨hlow, ?_⟩
    intro row hrow hid
    obtain ⟨x, hx, rfl⟩ := mem_map.mp hrow
    rw [(forgetStream_same id x).1] at hid
    obtain ⟨hrealm, hstream⟩ := hrows x hx hid
    refine ⟨(forgetStream_same id x).2.trans hrealm, ?_⟩
    rcases forgetStream_stream id x with ⟨heq, hnone⟩ | ⟨hne, hsame⟩
    · refine .inr ⟨hnone, ?_⟩
      rcases hstream with hstream | ⟨hstream, s, hs, hgone⟩
      · exact ⟨id, mem_append_right _ (mem_singleton_self id), hstream.symm.trans heq⟩
      · exact ⟨s, mem_append_left _ hs, hgone⟩
    · rw [hsame]
      rcases hstream with hstream | ⟨hstream, s, hs, hgone⟩
      · exact .inl hstream
      · exact .inr ⟨hstream, s, mem_append_left _ hs, hgone⟩

theorem Office.Sound.chat {after : Tables} (h : o.Sound)
    (hkeeps : Keeps o.tables after o.removed) : ({ o with tables := after } : Office).Sound where
  unique := h.unique
  low := h.low
  channel row hrow id hid := by
    obtain ⟨x, hx, rfl, hrealm⟩ := h.channel row hrow id hid
    obtain ⟨y, hy, hyid, hyrealm⟩ := hkeeps.1 x hx
    exact ⟨y, hy, hyid, hyrealm.trans hrealm⟩
  gone id hid x hx := by
    rintro rfl
    exact hkeeps.2 x hx hid
  origin := h.origin
  copy := h.copy

/-! ### Requests that make or load a card -/

theorem accessStreamById_spec {id : ℕ} {stream : Stream}
    (h : accessStreamById t user id = some stream) :
    stream ∈ t.streams.rows ∧ stream.id = id ∧ stream.realmId = user.realmId := by
  unfold accessStreamById at h
  split at h
  · next found hfound =>
    split at h
    · next hok =>
      cases h
      obtain ⟨hmem, hid⟩ := Table.get?_eq_some.mp hfound
      exact ⟨hmem, hid, hok.1⟩
    · cases h
  · cases h

/-- The new card of a creation, and where it was created. -/
theorem create_cases {now : ℕ} {creation : Creation} : o.create user now creation = (.refused, o) ∨
      ∃ task origins, task.id = o.board.nextId ∧ task.realm = user.realmId ∧
        (task.stream = none ∧ origins = [] ∨
          ∃ s ∈ o.tables.streams.rows, task.stream = some s.id ∧ s.realmId = user.realmId ∧
            origins = [⟨task.id, s.id, s.inviteOnly⟩]) ∧
        ∃ history, o.create user now creation = (sendTaskEvent o.tables task .add, { o with
          board := ⟨o.board.tasks ++ [task], history, o.board.nextId + 1⟩
          origins := o.origins ++ origins }) := by
  unfold Office.create
  simp only
  split
  · exact .inl rfl
  · next hstream =>
    split
    · exact .inl rfl
    · refine .inr ⟨_, _, rfl, rfl, ?_, _, rfl⟩
      cases hid : creation.stream with
      | none => exact .inl ⟨rfl, rfl⟩
      | some id =>
        cases haccess : accessStreamById o.tables user id with
        | none => simp [hid, haccess] at hstream
        | some s =>
          obtain ⟨hmem, hsid, hrealm⟩ := accessStreamById_spec haccess
          refine .inr ⟨s, hmem, ?_, hrealm, ?_⟩
          · rw [hsid]
            rfl
          · simp [haccess]

theorem Office.Sound.create (h : o.Sound) (user : UserProfile) (now : ℕ)
    (creation : Creation) : (o.create user now creation).2.Sound := by
  rcases create_cases with hrefused | ⟨task, origins, hid, hrealm, hwhere, history, hnew⟩
  · rw [hrefused]
    exact h
  rw [hnew]
  -- The identifier of the new card is above all that were given out.
  have hfresh : ∀ row ∈ o.board.tasks, row.id ≠ task.id := by
    intro row hrow
    have hlow := h.low row hrow
    omega
  constructor
  · intro a ha b hb heq
    rcases mem_append.mp ha with ha | ha
    · rcases mem_append.mp hb with hb | hb
      · exact h.unique a ha b hb heq
      · rw [mem_singleton.mp hb] at heq
        exact absurd heq (hfresh a ha)
    · rcases mem_append.mp hb with hb | hb
      · rw [mem_singleton.mp ha] at heq
        exact absurd heq.symm (hfresh b hb)
      · rw [mem_singleton.mp ha, mem_singleton.mp hb]
  · intro row hrow
    rcases mem_append.mp hrow with hrow | hrow
    · exact Nat.lt_succ_of_lt (h.low row hrow)
    · rw [mem_singleton.mp hrow, hid]
      exact Nat.lt_succ_self _
  · intro row hrow id hstream
    rcases mem_append.mp hrow with hrow | hrow
    · exact h.channel row hrow id hstream
    · rw [mem_singleton.mp hrow] at hstream ⊢
      rcases hwhere with ⟨hnone, -⟩ | ⟨s, hs, hsome, hsrealm, -⟩
      · rw [hnone] at hstream
        cases hstream
      · exact ⟨s, hs, Option.some.inj (hsome.symm.trans hstream), hsrealm.trans hrealm.symm⟩
  · exact h.gone
  · intro g hg
    rcases mem_append.mp hg with hg | hg
    · obtain ⟨hlow, hrows⟩ := h.origin g hg
      refine ⟨Nat.lt_succ_of_lt hlow, ?_⟩
      intro row hrow htask
      rcases mem_append.mp hrow with hrow | hrow
      · exact hrows row hrow htask
      · rw [mem_singleton.mp hrow] at htask
        omega
    · rcases hwhere with ⟨-, rfl⟩ | ⟨s, hs, hsome, hsrealm, rfl⟩
      · cases hg
      · rw [mem_singleton.mp hg]
        refine ⟨by simp [hid], ?_⟩
        intro row hrow htask
        rcases mem_append.mp hrow with hrow | hrow
        · exact absurd htask.symm (hfresh row hrow)
        · rw [mem_singleton.mp hrow]
          exact .inl hsome
  · intro held hheld
    obtain ⟨hlow, hrows⟩ := h.copy held hheld
    refine ⟨Nat.lt_succ_of_lt hlow, ?_⟩
    intro row hrow hheldId
    rcases mem_append.mp hrow with hrow | hrow
    · exact hrows row hrow hheldId
    · rw [mem_singleton.mp hrow] at hheldId
      omega

/-- A card is loaded as it is stored. -/
theorem Office.Sound.load (h : o.Sound) (htask : task ∈ o.board.tasks) :
    ({ o with loaded := o.loaded ++ [task] } : Office).Sound := { h with
  copy held hheld := by
    rcases mem_append.mp hheld with hheld | hheld
    · exact h.copy held hheld
    · rw [mem_singleton.mp hheld]
      refine ⟨h.low task htask, ?_⟩
      intro row hrow hid
      rw [h.unique row hrow task htask hid]
      exact ⟨rfl, .inl rfl⟩ }

theorem accessTaskById_mem {id : ℕ} {tasks : List Task} (h : accessTaskById t user id tasks = some task) : task ∈ tasks := by
  unfold accessTaskById at h
  split at h
  · next found hfound =>
    split at h
    · cases h
      exact mem_of_find?_eq_some hfound
    · cases h
  · cases h

theorem work_sound (a : Act) (h : o.Sound) : (work a o).2.Sound := by
  cases a with
  | create user now creation =>
    rw [work]
    split
    · exact h.create _ now creation
    · exact h
  | load user task =>
    rw [work]
    split
    · next found hfound =>
      obtain ⟨u, -, haccess⟩ := Option.bind_eq_some_iff.mp hfound
      exact h.load (accessTaskById_mem haccess)
    · exact h
  | update i user now changes =>
    rw [work]
    split
    · split
      · exact h
      · next hchanges => exact h.act fun b hb => doUpdateTask_alike hchanges hb
    · exact h
  | move i user now previousColumn column position =>
    rw [work]
    split
    · exact h.act fun b hb => doMoveTask_alike hb
    · exact h
  | delete i =>
    rw [work]
    split
    · exact h.ofAlike (remove_alike _ _)
    · exact h
  | chat after =>
    rw [work]
    split
    · next hkeeps => exact h.chat hkeeps
    · exact h
  | deleteStream id => exact h.deleteStream id
  | deleteMessage id => exact h.deleteMessage id

/-! ## Whom the events reach -/

/-- A copy has the audience of the stored card, also when its channel is gone. -/
theorem audience_of_copy (h : o.Sound) {held row : Task} (hcopy : Copies o held row) :
    taskEventAudience o.tables held.realm held = taskEventAudience o.tables row.realm row := by
  obtain ⟨hrealm, hstream | ⟨hnone, s, hs, hsome⟩⟩ := hcopy
  · simp only [taskEventAudience, hrealm, hstream]
  · have hget : o.tables.streams.get? s = none := by
      apply Option.eq_none_iff_forall_ne_some.mpr
      intro x hx
      obtain ⟨hmem, hid⟩ := Table.get?_eq_some.mp hx
      exact h.gone s hs x hmem hid
    simp only [taskEventAudience, hnone, hsome, hget, hrealm]

theorem act_sent {o o' : Office} {held task : Task} {board : Option Board} {op : Op}
    {audience : List ℕ} (h : o.act held board = (.sent op task audience, o')) :
    task = held ∧ audience = taskEventAudience o'.tables held.realm held ∧ o'.loaded = o.loaded := by
  cases board with
  | none => cases h
  | some b =>
    cases h
    exact ⟨rfl, rfl, rfl⟩

/-- What is announced of a card goes to the audience of the card as stored. -/
theorem sent_audience {a : Act} {o o' : Office} {op : Op} {task row : Task} {audience : List ℕ}
    (h : o.Sound) (hstep : work a o = (.sent op task audience, o')) (hop : op ≠ .remove)
    (hrow : row ∈ o'.board.tasks) (hid : row.id = task.id) :
    audience = taskEventAudience o'.tables row.realm row := by
  have hsound : o'.Sound := by
    have hwork := work_sound a h
    rwa [hstep] at hwork
  have hheld : ∀ held ∈ o.loaded, ∀ board, o.act held board = (.sent op task audience, o') →
      audience = taskEventAudience o'.tables row.realm row := by
    intro held hheld board hact
    obtain ⟨rfl, haudience, hloaded⟩ := act_sent hact
    rw [← hloaded] at hheld
    rw [haudience]
    exact audience_of_copy hsound ((hsound.copy _ hheld).2 row hrow hid)
  cases a with
  | create user now creation =>
    rw [work] at hstep
    split at hstep
    · next u hu =>
      rcases create_cases with hrefused | ⟨new, origins, hnewid, -, -, history, hnew⟩
      · rw [hrefused] at hstep
        cases hstep
      · rw [hnew] at hstep
        cases hstep
        rcases mem_append.mp hrow with hrow | hrow
        · have hlow := h.low row hrow
          omega
        · rw [mem_singleton.mp hrow]
    · cases hstep
  | load | chat =>
    rw [work] at hstep
    split at hstep
    · cases hstep
    · cases hstep
  | update i user now changes =>
    rw [work] at hstep
    split at hstep
    · next held hget =>
      split at hstep
      · cases hstep
      · exact hheld held (mem_of_getElem? hget) _ hstep
    · cases hstep
  | move i user now previousColumn column position =>
    rw [work] at hstep
    split at hstep
    · next held hget => exact hheld held (mem_of_getElem? hget) _ hstep
    · cases hstep
  | delete i =>
    rw [work] at hstep
    split at hstep
    · cases hstep
      exact absurd rfl hop
    · cases hstep
  | deleteStream | deleteMessage => cases hstep

/-! ## The law and its condition -/

/-- A step announces that the card was made, changed or moved. -/
def Announces (e : Event Office Act Reply) (row : Task) (audience : List ℕ) : Prop :=
  ∃ op task, e.answer = .sent op task audience ∧ op ≠ .remove ∧ row.id = task.id

/-- What is asked for a card and a user: an event reaches the user exactly when the card is
open to them, and a card made in a private channel is open only to readers of that channel. -/
structure Guarded (e : Event Office Act Reply) (row : Task) (user : UserProfile) : Prop where
  announced : ∀ audience, Announces e row audience →
    (user.id ∈ audience ↔ userCanAccessTask e.post.tables user row = true)
  confined : ∀ g ∈ e.post.origins, g.task = row.id → g.inviteOnly = true →
    userCanAccessTask e.post.tables user row = true → CanRead e.post.tables user g.stream

/-- The user is not overlooked when the card is announced, and the private channel in which
the card was made has not been deleted in the user's realm. -/
structure Settled (e : Event Office Act Reply) (row : Task) (user : UserProfile) : Prop where
  reached : ∀ audience, Announces e row audience → ¬ Overlooked e.post.tables user row
  intact : ∀ g ∈ e.post.origins, g.task = row.id → g.inviteOnly = true →
    row.realm = user.realmId → g.stream ∉ e.post.removed

theorem overlooked_stream {row : Task} (h : Overlooked t user row) : row.stream ≠ none := by
  obtain ⟨stream, -, hrow, -⟩ := h
  rw [hrow]
  simp

/-- In every run and for every stored card and active user, the card is announced to those who
see it and stays with the readers of its private channel exactly under that condition. -/
theorem guarded_iff (tables : Tables) (acts : List Act) (e : Event Office Act Reply)
    (he : e ∈ history work (Office.start tables) acts) (row : Task)
    (hrow : row ∈ e.post.board.tasks) (user : UserProfile)
    (huser : user ∈ e.post.tables.users.rows) (hactive : user.isActive = true) :
    Guarded e row user ↔ Settled e row user := by
  have hinv := (history_inv work (Office.start tables) acts (start_sound tables)
    fun a _ ho => work_sound a ho).2 e he
  have hstep := step_of_mem he
  have hsound := hinv.2
  have hannounced : ∀ audience, Announces e row audience →
      ((user.id ∈ audience ↔ userCanAccessTask e.post.tables user row = true) ↔
        ¬ Overlooked e.post.tables user row) := by
    rintro audience ⟨op, task, hanswer, hop, hid⟩
    rw [hanswer] at hstep
    rw [sent_audience hinv.1 hstep hop hrow hid]
    cases hstream : row.stream with
    | none =>
      have hnot : ¬ Overlooked e.post.tables user row := fun h => overlooked_stream h hstream
      exact iff_of_true (audience_iff_of_none huser hactive hstream) hnot
    | some id =>
      obtain ⟨stream, hmem, rfl, hrealm⟩ := hsound.channel row hrow id hstream
      exact audience_iff_of_stream huser hactive hmem hstream hrealm
  constructor
  · intro hg
    refine ⟨fun audience ha => (hannounced audience ha).mp (hg.announced audience ha), ?_⟩
    intro g hmem htask hprivate hrealm hremoved
    rcases (hsound.origin g hmem).2 row hrow htask with hstream | ⟨hnone, -⟩
    · -- The channel is still there, so it was not deleted.
      obtain ⟨x, hx, hid, -⟩ := hsound.channel row hrow g.stream hstream
      exact hsound.gone g.stream hremoved x hx hid
    · have haccess : userCanAccessTask e.post.tables user row = true := by
        rw [userCanAccessTask_iff]
        exact ⟨hrealm, by simp [hnone]⟩
      obtain ⟨x, hx, hid, -⟩ := hg.confined g hmem htask hprivate haccess
      exact hsound.gone g.stream hremoved x hx hid
  · intro hs
    refine ⟨fun audience ha => (hannounced audience ha).mpr (hs.reached audience ha), ?_⟩
    intro g hmem htask hprivate haccess
    obtain ⟨hrealm, hread⟩ := userCanAccessTask_iff.mp haccess
    rcases (hsound.origin g hmem).2 row hrow htask with hstream | ⟨-, hremoved⟩
    · exact hread g.stream hstream
    · exact absurd hremoved (hs.intact g hmem htask hprivate hrealm)

/-! ## A realm with a private and a web-public channel -/

def iago : UserProfile := ⟨1, 1, true, .member⟩

def polonius : UserProfile := ⟨2, 1, true, .guest⟩

def cordelia : UserProfile := ⟨3, 1, true, .member⟩

/-- Who is in group 8 may join the channel. -/
def core : Stream := ⟨1, 1, 10, false, true, true, false, 9, 8⟩

def lounge : Stream := ⟨2, 1, 20, false, false, true, true, 9, 9⟩

theorem people_sorted : ([iago, polonius, cordelia].map UserProfile.id).Pairwise (· < ·) := by
  decide

theorem channels_sorted : ([core, lounge].map Stream.id).Pairwise (· < ·) := by decide

/-- Iago is in the private channel, and Cordelia may join it. -/
def verona : Tables where
  users := ⟨[iago, polonius, cordelia], people_sorted⟩
  streams := ⟨[core, lounge], channels_sorted⟩
  messages := Table.empty Chat.Message.id
  userMessages := []
  subscriptions := [⟨1, 10, true⟩]
  groupMemberships := [⟨3, 8⟩]
  subgroups := []

def cardIn (stream : ℕ) : Creation :=
  { userProfile := 1, realm := 1, board := 1, column := ⟨1, 1, "Inbox", none⟩, title := "Card",
    stream := some stream }

def cardRow (stream : Option ℕ) : Task :=
  { (cardIn 0).task 1 1 POSITION_STEP 0 with stream := stream }

theorem iago_not_overlooked : ¬ Overlooked verona iago (cardRow (some 1)) := by
  unfold Overlooked
  decide

/-- Iago, who made the card, is told of it and sees it. -/
theorem creator_guarded :
    ∃ e ∈ history work (Office.start verona) [.create 1 0 (cardIn 1)],
      cardRow (some 1) ∈ e.post.board.tasks ∧ Guarded e (cardRow (some 1)) iago := by
  have hmem := mem_of_getElem? (i := 0)
    (l := history work (Office.start verona) [.create 1 0 (cardIn 1)]) rfl
  have hrow : cardRow (some 1) ∈ [cardRow (some 1)] := mem_singleton_self _
  refine ⟨_, hmem, hrow, (guarded_iff verona _ _ hmem _ hrow iago (by decide) rfl).mpr ⟨?_, ?_⟩⟩
  · exact fun _ _ => iago_not_overlooked
  · intro g _ _ _ _ hremoved
    cases hremoved

/-- The card of a web-public channel is not announced to a guest who may see it, that of a
private one not to a member whom a group admits, and once the private channel is deleted its
card is open to the realm. -/
theorem cards_leak :
    (∃ e ∈ history work (Office.start verona) [.create 1 0 (cardIn 2)],
      cardRow (some 2) ∈ e.post.board.tasks ∧ ¬ Guarded e (cardRow (some 2)) polonius) ∧
    (∃ e ∈ history work (Office.start verona) [.create 1 0 (cardIn 1)],
      cardRow (some 1) ∈ e.post.board.tasks ∧ ¬ Guarded e (cardRow (some 1)) cordelia) ∧
    ∃ e ∈ history work (Office.start verona) [.create 1 0 (cardIn 1), .deleteStream 1],
      cardRow none ∈ e.post.board.tasks ∧ ¬ Guarded e (cardRow none) polonius := by
  refine ⟨⟨_, mem_of_getElem? (i := 0) rfl, mem_singleton_self _, ?_⟩,
    ⟨_, mem_of_getElem? (i := 0) rfl, mem_singleton_self _, ?_⟩,
    ⟨_, mem_of_getElem? (i := 1) rfl, by decide, ?_⟩⟩
  · intro h
    exact absurd ((h.announced _ ⟨.add, _, rfl, by decide, rfl⟩).mpr (by decide)) (by decide)
  · intro h
    exact absurd ((h.announced _ ⟨.add, _, rfl, by decide, rfl⟩).mpr (by decide)) (by decide)
  · intro h
    obtain ⟨x, hx, hid, -⟩ := h.confined ⟨1, 1, true⟩ (by decide) rfl rfl (by decide)
    exact (mem_erased.mp hx).2 hid

end GrowTeam.Tasks
