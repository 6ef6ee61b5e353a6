import GrowTeam.Retention.Views

/-!
# Deleted messages come back as they were

In every run, restoring the transaction in which a deleted message is recorded brings it back as
it was at its latest archiving, with all that belonged to it and nothing else, exactly if no
message is ever archived of which the archive still holds an older state.
-/

namespace GrowTeam.Retention

open History Depot List

/-- A message as it was at its latest archiving. -/
def latest (m : ℕ) (past : List (Event Database Input Answer)) : Option View :=
  past.foldl (fun seen e =>
    match e.answer with
    | .archived ids => if ids.contains m then some (e.pre.view m) else seen
    | _ => seen) none

/-- Each deleted message comes back by restoring the transaction in which it is recorded. -/
def ComesBack (past : List (Event Database Input Answer)) (db : Database) : Prop :=
  ∀ a ∈ db.archivedMessages, a.message.id ∉ db.messageIds → ∀ now : ℤ,
    ∃ v db', latest a.message.id past = some v ∧
      step (.restore a.archive_transaction_id now) db =
        (.restored (db.restoredIds a.archive_transaction_id), db') ∧
      (db'.view a.message.id).Same v

/-- What the archive held of the archived messages was live as it was. -/
def Current (e : Event Database Input Answer) : Prop :=
  ∀ ids, e.answer = .archived ids → ∀ m ∈ ids, Fresh e.pre m

variable {db : Database} {m : ℕ} {past : List (Event Database Input Answer)}
  {e : Event Database Input Answer}

theorem latest_archived {ids : List ℕ} (he : e.answer = .archived ids) (hm : m ∈ ids) :
    latest m (past ++ [e]) = some (e.pre.view m) := by
  rw [latest, foldl_append, foldl_cons, he]
  exact if_pos (contains_iff_mem.mpr hm)

theorem latest_other (h : ∀ ids, e.answer = .archived ids → m ∉ ids) :
    latest m (past ++ [e]) = latest m past := by
  rw [latest, foldl_append, foldl_cons]
  split
  · next ids he =>
    exact if_neg fun hin => h ids he (contains_iff_mem.mp hin)
  · rfl

/-! ## What a step does to the archive -/

/-- A step that archives nothing; what it leaves in the archive was there. -/
def Quiet (db : Database) (result : Answer × Database) : Prop :=
  (∀ ids, result.1 = .archived ids → ids = []) ∧
    ∀ m ∈ result.2.archivedIds, m ∈ db.archivedIds ∧
      (result.2.archivedView m).Same (db.archivedView m)

theorem quiet_same (db : Database) {answer : Answer}
    (hanswer : ∀ ids, answer = .archived ids → ids = []) : Quiet db (answer, db) :=
  ⟨hanswer, fun _ hm => ⟨hm, .refl _⟩⟩

theorem quiet_commit {answer : Answer} {db' : Database}
    (hanswer : ∀ ids, answer ≠ .archived ids)
    (hview : ∀ m ∈ db'.archivedIds, m ∈ db.archivedIds ∧
      (db'.archivedView m).Same (db.archivedView m)) : Quiet db (db.commit answer db') := by
  rcases commit_cases db answer db' with ⟨-, heq⟩ | ⟨-, heq⟩
  · rw [heq]
    exact ⟨fun ids h => absurd h (hanswer ids), hview⟩
  · rw [heq]
    exact quiet_same db fun ids h => (by cases h)

/-- A change that leaves the archive alone. -/
theorem quiet_live {db' : Database} (harchived : db'.archivedMessages = db.archivedMessages)
    (hview : ∀ m, (db'.archivedView m).Same (db.archivedView m)) :
    Quiet db (db.commit .done db') := by
  apply quiet_commit
  · exact fun ids h => (by cases h)
  · intro m hm
    refine ⟨?_, hview m⟩
    rwa [Database.archivedIds, harchived] at hm

/-- The messages that stay in the archive lose nothing in a vacuuming. -/
theorem quiet_vacuum (h : Kept db) (check_date : ℤ) (transaction_block : List ℕ) :
    Quiet db (db.commit .done (db.vacuum check_date transaction_block)) := by
  apply quiet_commit
  · exact fun ids h => (by cases h)
  · intro m hm
    obtain ⟨a, ha, rfl⟩ := mem_map.mp hm
    obtain ⟨ha, hstays⟩ := mem_filter.mp ha
    refine ⟨mem_map_of_mem ha, ?_⟩
    generalize hdoomed : (db.transactions.filter fun t =>
      transaction_block.contains t.id && decide (t.timestamp < check_date) &&
        !t.protect_from_deletion).map ArchiveTransaction.id = doomed at hstays
    -- another message of the same number would be this one
    have hout : ∀ b ∈ db.archivedMessages, b.message.id = a.message.id →
        doomed.contains b.archive_transaction_id = false := by
      intro b hb hid
      rw [eq_of_key h.valid.archivedMessages hb ha hid]
      simpa using hstays
    have hrows : ∀ {α : Type} (s : Depot α), SameRows
        ((s.lose ((db.archivedMessages.filter fun b =>
          doomed.contains b.archive_transaction_id).map (·.message.id))).archivedOf a.message.id)
        (s.archivedOf a.message.id) := by
      intro α s r
      show r ∈ (s.archived.filter _).filter _ ↔ r ∈ s.archived.filter _
      simp only [mem_filter, decide_eq_true_eq, Bool.not_eq_true', ← Bool.not_eq_true,
        contains_iff_mem]
      constructor
      · rintro ⟨⟨hr, -⟩, howner⟩
        exact ⟨hr, howner⟩
      · rintro ⟨hr, howner⟩
        refine ⟨⟨hr, ?_⟩, howner⟩
        rw [howner]
        intro hin
        obtain ⟨b, hb, hid⟩ := mem_map.mp hin
        obtain ⟨hb, hgoes⟩ := mem_filter.mp hb
        rw [hout b hb hid] at hgoes
        cases hgoes
    have hmessage : SameRows ((db.vacuum check_date transaction_block).archivedView
        a.message.id).message (db.archivedView a.message.id).message := by
      intro n
      show n ∈ ((db.archivedMessages.filter fun b => !((db.transactions.filter fun t =>
        transaction_block.contains t.id && decide (t.timestamp < check_date) &&
          !t.protect_from_deletion).map ArchiveTransaction.id).contains
            b.archive_transaction_id).map ArchivedMessage.message).filter
              (fun n => n.id = a.message.id) ↔
        n ∈ (db.archivedMessages.map ArchivedMessage.message).filter fun n => n.id = a.message.id
      rw [hdoomed]
      simp only [mem_filter, mem_map, decide_eq_true_eq]
      constructor
      · rintro ⟨⟨b, ⟨hb, -⟩, rfl⟩, hid⟩
        exact ⟨⟨b, hb, rfl⟩, hid⟩
      · rintro ⟨⟨b, hb, rfl⟩, hid⟩
        refine ⟨⟨b, ⟨hb, ?_⟩, rfl⟩, hid⟩
        rw [hout b hb hid]
        rfl
    rw [← hdoomed] at hrows
    exact ⟨hmessage, hrows _, hrows _, hrows _, hrows _⟩

/-- **What a step does to the archive**: it archives a chunk of messages, or adds nothing. -/
theorem step_archive (i : Input) (h : Kept db) :
    (∃ query realm_id now chunk, (∀ n ∈ chunk, n ∈ db.messages) ∧
      step i db = (.archived (chunk.map Message.id), db.archiveChunk query realm_id now chunk)) ∨
    Quiet db (step i db) := by
  cases i with
  | archive query realm_id limit now =>
    have hchunk := select_subset db query limit
    dsimp only [step]
    split
    · refine .inr (quiet_same db ?_)
      intro ids hids
      cases hids
      rfl
    · rcases commit_cases db (.archived ((db.select query limit).map Message.id))
        (db.archiveChunk query realm_id now (db.select query limit)) with ⟨-, heq⟩ | ⟨-, heq⟩
      · exact .inl ⟨query, realm_id, now, _, hchunk, heq⟩
      · refine .inr ?_
        rw [heq]
        exact quiet_same db fun ids h => (by cases h)
  | restore archive_transaction_id now =>
    refine .inr ?_
    dsimp only [step]
    split
    · exact quiet_commit (fun ids h => (by cases h)) fun _ hm => ⟨hm, .refl _⟩
    · exact quiet_same db fun ids h => (by cases h)
  | upload path_id data =>
    refine .inr ?_
    dsimp only [step]
    split
    · exact quiet_same db fun ids h => (by cases h)
    · exact quiet_live rfl fun _ => .refl _
  | userMessage c | reaction c | submessage c | link c =>
    cases c <;> exact .inr (quiet_live rfl fun _ => .refl _)
  | send data rows =>
    have harchived : ∀ {α : Type} (rows : List α) (s : Depot α) (owner : ℕ),
        (insertAll owner rows s).archived = s.archived := by
      intro α rows
      induction rows with
      | nil => exact fun s owner => rfl
      | cons data rows ih => exact fun s owner => ih _ owner
    refine .inr (quiet_live rfl fun m => ⟨fun _ => .rfl, fun r => ?_, fun _ => .rfl,
      fun _ => .rfl, fun _ => .rfl⟩)
    show r ∈ (insertAll _ _ _).archived.filter _ ↔ _
    rw [harchived]
    rfl
  | edit message_id data | updateAttachment id data | deleteAttachment id
  | cleanAttachments candidates scheduled => exact .inr (quiet_live rfl fun _ => .refl _)
  | protect archive_transaction_id protect_from_deletion =>
    exact .inr (quiet_live rfl fun _ => .refl _)
  | vacuum check_date transaction_block =>
    exact .inr (quiet_vacuum h check_date transaction_block)

/-! ## Runs -/

/-- Everything archived is what it was at its latest archiving. -/
def Faithful (past : List (Event Database Input Answer)) (db : Database) : Prop :=
  ∀ m ∈ db.archivedIds, ∃ v, latest m past = some v ∧ (db.archivedView m).Same v

theorem faithful_step (he : step e.input e.pre = (e.answer, e.post)) (h : Kept e.pre)
    (hcurrent : Current e) (hfaithful : Faithful past e.pre) :
    Faithful (past ++ [e]) e.post := by
  rcases step_archive e.input h with ⟨query, realm_id, now, chunk, hchunk, hstep⟩ | hquiet
  · obtain ⟨hanswer, hpost⟩ := Prod.mk.inj (he.symm.trans hstep)
    rw [hpost]
    intro m hm
    by_cases hin : m ∈ chunk.map Message.id
    · exact ⟨_, latest_archived hanswer hin,
        (archiveChunk_iff h hchunk hin).mpr (hcurrent _ hanswer m hin)⟩
    · have hother : ((e.pre.archiveChunk query realm_id now chunk).archivedView m).Same
          (e.pre.archivedView m) := archiveChunk_other hin
      have hold : m ∈ e.pre.archivedIds := by
        obtain ⟨a, ha, rfl⟩ := mem_map.mp hm
        rcases mem_moveMessages.mp ha with ⟨ha, -⟩ | ⟨-, hid, -⟩ | ⟨-, ha, -⟩
        · exact mem_map_of_mem ha
        · exact absurd hid hin
        · exact absurd (mem_map_of_mem ha) hin
      obtain ⟨v, hv, hsame⟩ := hfaithful m hold
      refine ⟨v, ?_, hother.trans hsame⟩
      rw [latest_other, hv]
      intro ids hids
      rw [hanswer] at hids
      cases hids
      exact hin
  · rw [he] at hquiet
    obtain ⟨hnone, hview⟩ := hquiet
    intro m hm
    obtain ⟨hold, hsame⟩ := hview m hm
    obtain ⟨v, hv, hlast⟩ := hfaithful m hold
    refine ⟨v, ?_, hsame.trans hlast⟩
    rw [latest_other, hv]
    intro ids hids
    rw [hnone ids hids]
    exact not_mem_nil

theorem run_kept (inputs : List Input) :
    Kept (run step empty inputs) ∧ ∀ e ∈ history step empty inputs, Kept e.pre ∧ Kept e.post :=
  history_inv step empty inputs kept_empty fun i _ h => step_kept i h

/-- What was archived as it was comes back as it was. -/
theorem comesBack_of_faithful (h : Kept db) (hfaithful : Faithful past db) : ComesBack past db := by
  intro a ha hdeleted now
  obtain ⟨v, hv, hsame⟩ := hfaithful a.message.id (mem_map_of_mem ha)
  obtain ⟨db', hstep, hview⟩ := restore_view h ha hdeleted now
  exact ⟨v, db', hv, hstep, hview.trans hsame⟩

/-- After an archiving of which everything comes back, the archive held nothing older. -/
theorem current_of_comesBack (he : step e.input e.pre = (e.answer, e.post)) (h : Kept e.pre)
    (hpost : Kept e.post) (hback : ComesBack (past ++ [e]) e.post) : Current e := by
  intro ids hanswer m hm
  rcases step_archive e.input h with ⟨query, realm_id, now, chunk, hchunk, hstep⟩ | hquiet
  · obtain ⟨hids, hdb⟩ := Prod.mk.inj (he.symm.trans hstep)
    have hin : m ∈ chunk.map Message.id := by
      rw [hanswer] at hids
      cases hids
      exact hm
    -- the message is recorded in the new transaction, and not live
    have hrecorded : ∃ a ∈ e.post.archivedMessages, a.message.id = m := by
      obtain ⟨c, hc, hcm⟩ := mem_map.mp hin
      rw [hdb]
      by_cases hold : c.id ∈ e.pre.archivedIds
      · obtain ⟨b, hb, hbc⟩ := mem_map.mp hold
        exact ⟨⟨b.message, e.pre.nextTransaction⟩, mem_moveMessages.mpr (.inr (.inl
          ⟨rfl, hbc ▸ mem_map_of_mem hc, b, hb, rfl⟩)), hbc.trans hcm⟩
      · exact ⟨⟨c, e.pre.nextTransaction⟩, mem_moveMessages.mpr (.inr (.inr ⟨rfl, hc, hold⟩)), hcm⟩
    obtain ⟨a, ha, rfl⟩ := hrecorded
    have hdeleted : a.message.id ∉ e.post.messageIds := by
      rw [hdb, mem_messageIds_archiveChunk]
      exact fun hlive => hlive.2 hin
    obtain ⟨v, db', hv, hrestore, hsame⟩ := hback a ha hdeleted 0
    obtain ⟨db'', hrestore', hview⟩ := restore_view hpost ha hdeleted 0
    rw [hrestore] at hrestore'
    cases hrestore'
    rw [latest_archived hanswer hm] at hv
    cases hv
    rw [← archiveChunk_iff h hchunk hin]
    rw [hdb] at hview
    exact hview.symm.trans hsame
  · rw [he] at hquiet
    rw [hquiet.1 ids hanswer] at hm
    cases hm

/-- **Deleted messages come back as they were** in every state of a run, exactly if at each
archiving all that the archive still holds of the messages is live and unchanged. -/
theorem come_back_iff (inputs : List Input) :
    (∀ inputs', inputs' <+: inputs →
      ComesBack (history step empty inputs') (run step empty inputs')) ↔
    ∀ e ∈ history step empty inputs, Current e := by
  constructor
  · intro hback e he
    obtain ⟨past, later, hsplit⟩ := append_of_mem he
    obtain ⟨inputs', hpre, hhistory, hrun⟩ := history_until step hsplit
    have hcome := hback inputs' hpre
    rw [hhistory, hrun] at hcome
    obtain ⟨hkept, hpost⟩ := (run_kept inputs).2 e he
    exact current_of_comesBack (step_of_mem he) hkept hpost hcome
  · rintro hcurrent inputs' ⟨more, rfl⟩
    rw [history_append] at hcurrent
    have hfaithful : (∀ f ∈ history step empty inputs', Current f) →
        Faithful (history step empty inputs') (run step empty inputs') := by
      refine ((history_past step (J := fun past db => Kept db ∧
        ((∀ f ∈ past, Current f) → Faithful past db)) empty inputs'
          ⟨kept_empty, fun _ m hm => (by cases hm)⟩ ?_).1).2
      intro past e he hJ
      obtain ⟨hkept, hpast⟩ := hJ
      have hpost := step_kept e.input hkept
      rw [he] at hpost
      refine ⟨hpost, fun hall => ?_⟩
      exact faithful_step he hkept (hall e (by simp))
        (hpast fun f hf => hall f (mem_append_left _ hf))
    exact comesBack_of_faithful (run_kept inputs').1
      (hfaithful fun f hf => hcurrent f (mem_append_left _ hf))

/-- A message is deleted and restored, its reaction is taken back and its text is edited, and it
is deleted again. -/
def edited : List Input :=
  [.send ⟨1, 2, 3, 1, "plans", "Meet at noon", none, none, 0, 1, none, none, false, false, false,
      true⟩ [⟨7, 0⟩],
    .reaction (.insert 0 ⟨7, "tada", "1f389", "unicode_emoji"⟩),
    .archive (.byId [0]) 3 none 10, .restore 0 20, .reaction (.delete 0),
    .edit 0 ⟨1, 2, 3, 1, "plans", "Meet at three", none, none, 0, 1, some 25, none, false, false,
      false, true⟩,
    .archive (.byId [0]) 3 none 30]

/-- **It comes back with its old text and the reaction.** -/
theorem edited_comes_back_old :
    ¬ ComesBack (history step empty edited) (run step empty edited) := by
  intro h
  have harchived : ∃ a ∈ (run step empty edited).archivedMessages,
      a.message.id = 0 ∧ a.archive_transaction_id = 1 := by decide
  obtain ⟨a, ha, hid, htxn⟩ := harchived
  have hdeleted : 0 ∉ (run step empty edited).messageIds := by decide
  obtain ⟨v, db', hv, hstep, hsame⟩ := h a ha (hid ▸ hdeleted) 40
  rw [hid] at hv hsame
  rw [htxn] at hstep
  have hold : ((step (.restore 1 40) (run step empty edited)).2.view 0).reactions ≠ [] := by
    decide
  have hnew : (latest 0 (history step empty edited)).all (fun w => w.reactions.isEmpty) = true := by
    decide
  rw [hv] at hnew
  rw [hstep] at hold
  obtain ⟨r, hr⟩ := exists_mem_of_ne_nil _ hold
  have hin := (hsame.reactions r).mp hr
  rw [List.isEmpty_iff.mp hnew] at hin
  cases hin

end GrowTeam.Retention
