/-
# No flag change is lost where rows are made only once

Each statement keeps the order that explains the flags, as long as no request inserts a row that
another has made and changed in the meantime: the insertion then writes the flags of a new row, and
what the other has set is gone.
-/
import GrowTeam.MessageFlags.Serial
import Mathlib.Data.List.Dedup

namespace GrowTeam.MessageFlags

open History Database List Answer

variable {site : Site} {d : Database} {i j : ℕ} {t t' : Transaction} {c : Change}
  {messages ums : List ℕ} {rows init : ℕ → Option Bits} {m : ℕ} {commits log : List Done}
  {waiting : List (ℕ × Done)}

/-! ## The statements -/

variable {writes : ℕ → Option Bits} {stage : Stage}

theorem pending_same (hs : d.transactions i = some t) (heq : t'.pending = t.pending) :
    ∀ done, t'.pending = some done ↔ ∃ s, d.transactions i = some s ∧ s.pending = some done := by
  intro done
  rw [heq, hs]
  simp

theorem pending_none (hs : d.transactions i = some t) (hnone : t.pending = none) :
    ∀ s, d.transactions i = some s → s.pending = none := by
  intro s hs'
  rwa [← Option.some.inj (hs.symm.trans hs')]

theorem pending_chosen (h : stage.chosen = some messages) :
    Transaction.pending ⟨.change c, stage, writes⟩ =
      if c.Calm then some ⟨.change c, messages⟩ else none := by
  unfold Transaction.pending
  rw [h]

/-- The rows there are, once they are locked. -/
theorem chosen_select (site : Site) (d : Database) (i : ℕ) (t : Transaction) (c : Change) :
    Chosen site (d.proceed i t ((c.considered site).filter fun m => (d.rows m).isSome)) i c
      ((c.considered site).filter fun m => flagsOf d.rows m c.flag ≠ c.isAdding)
      ((c.considered site).filter fun m => (d.rows m).isSome) where
  locked := by
    intro m hm
    refine ⟨if_pos hm, ?_⟩
    show (d.rows m).isSome = true
    exact (mem_filter.mp hm).2
  considered := fun m hm => mem_of_mem_filter hm
  mem := by
    intro m
    rw [mem_filter, decide_eq_true_eq]
    refine and_congr_right fun hconsidered => ?_
    rw [mem_filter, and_iff_right hconsidered]
    show flagsOf d.rows m c.flag ≠ c.isAdding ↔ _
    cases hrow : d.rows m with
    | none =>
      have hflags : flagsOf d.rows m = defaultHistoricalFlags := by
        unfold flagsOf
        rw [hrow]
        rfl
      simp [hflags, Change.Calm]
    | some flags =>
      have hflags : flagsOf (d.proceed i t ((c.considered site).filter fun m =>
          (d.rows m).isSome)).rows m = flagsOf d.rows m := rfl
      simp [hflags]

/-- The flags that an insertion writes. -/
theorem upsert_eq (c : Change) (row : Option Bits) :
    c.upsert row = defaultHistoricalFlags.set c.flag c.isAdding := by
  cases row with
  | none => rfl
  | some flags => exact Function.update_idem _ _ _

theorem mem_historicalMessageIds :
    m ∈ historicalMessageIds messages ums ↔ m ∈ messages ∧ m ∉ ums := by
  unfold historicalMessageIds
  rw [mem_dedup, mem_filter, decide_eq_true_eq]

/-- The request inserts a row for a message that has none, or for which the row is as if it had just
been made. -/
def InsertsFresh (d : Database) (move : Move) : Prop :=
  ∀ i t c messages ums, move = .next i → d.transactions i = some t → t.op = .change c →
    t.stage = .accessed messages ums → d.free i (historicalMessageIds messages ums) = true →
      ∀ m ∈ historicalMessageIds messages ums,
        d.rows m = none ∨ d.rows m = some defaultHistoricalFlags

/-- The operation that a statement commits. -/
def Answer.committedOps : Answer → List Done
  | .committed done => [done]
  | _ => []

/-- A statement locks the rows there are and finds out what to change. -/
theorem Explained.filtered (h : Explained site init commits d log waiting rows)
    (hs : d.transactions i = some ⟨.change c, .filtered (c.considered site), fun _ => none⟩)
    (hfree : d.free i ((c.considered site).filter fun m => (d.rows m).isSome) = true) :
    ∃ log' waiting' rows', Explained site init commits
      (d.proceed i ⟨.change c, .selected
        ((c.considered site).filter fun m => flagsOf d.rows m c.flag ≠ c.isAdding)
        ((c.considered site).filter fun m => (d.rows m).isSome), fun _ => none⟩
        ((c.considered site).filter fun m => (d.rows m).isSome)) log' waiting' rows' := by
  have hholds := Holds.selected c _ _ (chosen_select site d i ⟨.change c, .selected
    ((c.considered site).filter fun m => flagsOf d.rows m c.flag ≠ c.isAdding)
    ((c.considered site).filter fun m => (d.rows m).isSome), fun _ => none⟩ c)
  by_cases hcalm : c.Calm
  · refine ⟨_, _, _, h.select hs rfl hfree hcalm hholds ?_ rfl rfl⟩
    rw [pending_chosen rfl, if_pos hcalm]
  · refine ⟨_, _, _, h.proceed hfree hholds (pending_same hs ?_)⟩
    rw [pending_chosen rfl, if_neg hcalm]
    rfl

/-- Nothing is to be inserted for a calm request. -/
theorem inserted_of_calm (hcalm : c.Calm) (hc : Chosen site d i c messages ums) :
    Inserted d i c messages ums writes where
  written := fun m hm hnot => absurd hcalm (((hc.mem m).mp hm).2.2 hnot)
  locked := fun m hm hnot => absurd hcalm (((hc.mem m).mp hm).2.2 hnot)
  fresh := fun m hm hnot => absurd hcalm (((hc.mem m).mp hm).2.2 hnot)

theorem Chosen.proceed {ms : List ℕ} (hc : Chosen site d i c messages ums) :
    Chosen site (d.proceed i t ms) i c messages ums := { hc with
  locked := by
    intro m hm
    refine ⟨?_, (hc.locked m hm).2⟩
    unfold Database.proceed
    dsimp only
    split
    · rfl
    · exact (hc.locked m hm).1 }

/-- An insertion of rows that nobody has made and changed. -/
theorem inserted_of_fresh (hfresh : ∀ m ∈ historicalMessageIds messages ums,
      d.rows m = none ∨ d.rows m = some defaultHistoricalFlags) :
    Inserted (d.proceed i t (historicalMessageIds messages ums)) i c messages ums fun m =>
      if m ∈ historicalMessageIds messages ums then some (c.upsert (d.rows m)) else none where
  written := by
    intro m hm hnot
    rw [if_pos (mem_historicalMessageIds.mpr ⟨hm, hnot⟩), upsert_eq]
  locked := fun m hm hnot => if_pos (mem_historicalMessageIds.mpr ⟨hm, hnot⟩)
  fresh := by
    intro m hm hnot
    show flagsOf d.rows m = _
    unfold flagsOf
    rcases hfresh m (mem_historicalMessageIds.mpr ⟨hm, hnot⟩) with hrow | hrow
    · rw [hrow]
      rfl
    · rw [hrow]
      rfl

/-- What a request that has done all its statements leaves. -/
theorem written_of_updated (hi : Inserted d i c messages ums writes)
    (hold : ∀ m ∈ messages, m ∈ ums → writes m = some ((flagsOf d.rows m).set c.flag c.isAdding))
    (hm : m ∈ messages) :
    d.written ⟨.change c, .updated messages, writes⟩ m =
      some ((flagsOf d.rows m).set c.flag c.isAdding) := by
  show (writes m).or (d.rows m) = _
  by_cases hin : m ∈ ums
  · rw [hold m hm hin]
    rfl
  · rw [hi.written m hm hin, hi.fresh m hm hin]
    rfl

section

variable (h : Explained site init commits d log waiting rows)

include h

theorem Explained.updated (hs : d.transactions i = some ⟨.change c, .updated messages, writes⟩)
    (hc : Chosen site d i c messages ums) (hi : Inserted d i c messages ums writes)
    (hold : ∀ m ∈ messages, m ∈ ums → writes m = some ((flagsOf d.rows m).set c.flag c.isAdding))
    (hrest : ∀ m ∉ messages, writes m = none) :
    ∃ log' waiting' rows', Explained site init (commits ++ [⟨.change c, messages⟩])
      (d.finish i (d.written ⟨.change c, .updated messages, writes⟩)) log' waiting' rows' := by
  have hwritten : ∀ m ∈ messages, d.written ⟨.change c, .updated messages, writes⟩ m =
      some ((flagsOf d.rows m).set c.flag c.isAdding) :=
    fun m hm => written_of_updated hi hold hm
  have hkeeps : ∀ m ∉ messages,
      d.written ⟨.change c, .updated messages, writes⟩ m = d.rows m := by
    intro m hm
    show (writes m).or (d.rows m) = d.rows m
    rw [hrest m hm]
    rfl
  by_cases hcalm : c.Calm
  · obtain ⟨waiting', h'⟩ := h.commitPending hs
      ((pending_chosen rfl).trans (if_pos hcalm)) hwritten hkeeps
    exact ⟨_, _, _, h'⟩
  -- All messages that are considered are locked: those with rows, and the keys of the others.
  have hnone := pending_none hs
    ((pending_chosen rfl : Transaction.pending ⟨.change c, .updated messages, writes⟩ = _).trans
      (if_neg hcalm))
  have hmem : ∀ m, m ∈ messages ↔ m ∈ c.considered site ∧ flagsOf d.rows m c.flag ≠ c.isAdding := by
    intro m
    rw [hc.mem m]
    refine and_congr_right fun hconsidered => ?_
    by_cases hin : m ∈ ums
    · simp [hin]
    · have hm : m ∈ messages := (hc.mem m).mpr ⟨hconsidered, fun h => absurd h hin, fun _ => hcalm⟩
      rw [hi.fresh m hm hin]
      simp only [hin, not_false_eq_true, forall_const, IsEmpty.forall_iff, true_and]
      rfl
  have hlocked : ∀ m ∈ c.considered site, d.locks m = some i := by
    intro m hconsidered
    by_cases hin : m ∈ ums
    · exact (hc.locked m hin).1
    · exact hi.locked m ((hc.mem m).mpr ⟨hconsidered, fun h => absurd h hin, fun _ => hcalm⟩) hin
  have hrows : ∀ m, d.locks m = some i → rows m = d.rows m := by
    intro m hm
    refine h.rows_eq (i := i) (fun j hj => Option.some.inj (hj.symm.trans hm)) ?_
    intro s done hs' hp
    rw [hnone s hs'] at hp
    cases hp
  refine ⟨_, _, _, h.commit _ hnone ?_ ?_ ?_⟩
  · intro m
    rw [hmem m]
    refine and_congr_right fun hconsidered => ?_
    unfold flagsOf
    rw [hrows m (hlocked m hconsidered)]
  · intro m _ hrow
    have heq : flagsOf rows m = flagsOf d.rows m := by
      unfold flagsOf
      rw [hrow]
    unfold Op.apply
    dsimp only
    rw [heq, hrow]
    by_cases hm : m ∈ messages
    · rw [if_pos ((hmem m).mp hm), hwritten m hm]
    · rw [if_neg fun hin => hm ((hmem m).mpr hin), hkeeps m hm]
  · intro m hm
    have hout : m ∉ c.considered site := fun hin => hm (hlocked m hin)
    refine ⟨if_neg fun hin => hout hin.1, hkeeps m fun hin => hout ((hmem m).mp hin).1⟩

/-- A statement of a request keeps the order. -/
theorem Explained.changeStatement (hs : d.transactions i = some ⟨.change c, stage, writes⟩)
    (hfresh : InsertsFresh d (.next i)) : ∃ log' waiting' rows', Explained site init
      (commits ++ (changeStatement site d i ⟨.change c, stage, writes⟩ c).1.committedOps)
      (changeStatement site d i ⟨.change c, stage, writes⟩ c).2 log' waiting' rows' := by
  cases h.holds i _ hs with
  | start =>
    refine ⟨log, waiting, rows, ?_⟩
    rw [show (MessageFlags.changeStatement site d i ⟨.change c, .start, fun _ => none⟩ c).1.committedOps = []
      from rfl, append_nil]
    exact h.proceed (by simp [free]) (.filtered c) (pending_same hs rfl)
  | filtered =>
    unfold MessageFlags.changeStatement
    dsimp only
    split
    · next hfree =>
      rw [show Answer.ok.committedOps = [] from rfl, append_nil]
      exact h.filtered hs hfree
    · rw [show waits.committedOps = [] from rfl, append_nil]
      exact ⟨log, waiting, rows, h⟩
  | selected _ messages ums hc =>
    unfold MessageFlags.changeStatement
    dsimp only
    by_cases hcalm : c.Calm
    · rw [if_pos (show defaultHistoricalFlags c.flag = c.isAdding from hcalm),
        show Answer.ok.committedOps = [] from rfl, append_nil]
      refine ⟨log, waiting, rows, h.proceed (by simp [free]) ?_ (pending_same hs rfl)⟩
      exact .inserted c messages ums _ hc.proceed (inserted_of_calm hcalm hc.proceed)
        fun _ _ => rfl
    · rw [if_neg (show ¬defaultHistoricalFlags c.flag = c.isAdding from hcalm)]
      split
      · rw [show Answer.ok.committedOps = [] from rfl, append_nil]
        refine ⟨log, waiting, rows, h.proceed (by simp [free]) ?_ (pending_same hs rfl)⟩
        exact .accessed c messages ums hc.proceed hcalm
      · rw [show (Answer.error "Invalid message(s)").committedOps = [] from rfl, append_nil]
        refine ⟨log, waiting, rows, h.rollback (pending_none hs ?_)⟩
        exact (pending_chosen rfl).trans (if_neg hcalm)
  | accessed _ messages ums hc hcalm =>
    unfold MessageFlags.changeStatement
    dsimp only
    split
    · next hfree =>
      rw [show Answer.ok.committedOps = [] from rfl, append_nil]
      have hnew := hfresh i _ c messages ums rfl hs rfl rfl hfree
      refine ⟨log, waiting, rows, h.proceed hfree ?_ (pending_same hs rfl)⟩
      refine .inserted c messages ums _ hc.proceed (inserted_of_fresh hnew) ?_
      intro m hm
      exact if_neg fun hin => hm (mem_historicalMessageIds.mp hin)
    · rw [show waits.committedOps = [] from rfl, append_nil]
      exact ⟨log, waiting, rows, h⟩
  | inserted _ messages ums _ hc hi hrest =>
    unfold MessageFlags.changeStatement
    rw [show Answer.ok.committedOps = [] from rfl, append_nil]
    refine ⟨log, waiting, rows, h.proceed (by simp [free]) ?_ (pending_same hs rfl)⟩
    have hboth : ∀ m, m ∈ messages.filter (fun m => m ∈ ums) ↔ m ∈ messages ∧ m ∈ ums := by
      intro m
      rw [mem_filter, decide_eq_true_eq]
    refine .updated c messages ums _ hc.proceed ⟨?_, ?_, ?_⟩ ?_ ?_
    · intro m hm hnot
      rw [if_neg fun hin => hnot ((hboth m).mp hin).2]
      exact hi.written m hm hnot
    · intro m hm hnot
      show (if m ∈ [] then some i else d.locks m) = some i
      exact hi.locked m hm hnot
    · exact hi.fresh
    · intro m hm hin
      obtain ⟨flags, hrow⟩ := Option.isSome_iff_exists.mp (hc.locked m hin).2
      have hflags : flagsOf d.rows m = flags := by
        unfold flagsOf
        rw [hrow]
        rfl
      rw [if_pos ((hboth m).mpr ⟨hm, hin⟩)]
      show ((writes m).or (d.rows m)).map _ = some ((flagsOf d.rows m).set c.flag c.isAdding)
      rw [hrest m fun h => h.2 hin, hrow, hflags]
      rfl
    · intro m hm
      rw [if_neg fun hin => hm ((hboth m).mp hin).1]
      exact hrest m fun h => hm h.1
  | updated _ messages ums _ hc hi hold hrest => exact h.updated hs hc hi hold hrest

/-- An operation that makes rows keeps the order. -/
theorem Explained.createStatement {flags : Bits}
    (hs : d.transactions i = some ⟨.create flags messages, stage, writes⟩) :
    ∃ log' waiting' rows', Explained site init
      (commits ++
        (createStatement d i ⟨.create flags messages, stage, writes⟩ flags messages).1.committedOps)
      (createStatement d i ⟨.create flags messages, stage, writes⟩ flags messages).2
      log' waiting' rows' := by
  cases h.holds i _ hs with
  | created =>
    unfold MessageFlags.createStatement
    dsimp only
    split
    · next hfree =>
      rw [show Answer.ok.committedOps = [] from rfl, append_nil]
      refine ⟨log, waiting, rows, h.proceed hfree ?_ (pending_same hs rfl)⟩
      have hmissing : ∀ m, m ∈ messages.filter (fun m => (d.rows m).isNone) ↔
          m ∈ messages ∧ d.rows m = none := by
        intro m
        rw [mem_filter, Option.isNone_iff_eq_none]
      refine .creating flags messages _ ?_ ?_
      · intro m
        by_cases hm : m ∈ messages.filter fun m => (d.rows m).isNone
        · obtain ⟨hin, hnone⟩ := (hmissing m).mp hm
          exact .inr ⟨hin, if_pos hm, hnone, if_pos hm⟩
        · exact .inl (if_neg hm)
      · intro m hin
        cases hrow : d.rows m with
        | none => exact .inr (if_pos ((hmissing m).mpr ⟨hin, hrow⟩))
        | some _ =>
          left
          show (d.rows m).isSome = true
          rw [hrow]
          rfl
    · rw [show waits.committedOps = [] from rfl, append_nil]
      exact ⟨log, waiting, rows, h⟩
  | creating _ _ _ hnew hall =>
    refine ⟨_, _, _, h.commit ⟨.create flags messages, []⟩ (pending_none hs rfl) rfl ?_ ?_⟩
    · intro m _ hrow
      show (if m ∈ messages then (rows m).or (some flags) else rows m) = (writes m).or (d.rows m)
      rw [hrow]
      rcases hnew m with hw | ⟨hin, hw, hnone, _⟩
      · rw [hw, Option.none_or]
        by_cases hin : m ∈ messages
        · rw [if_pos hin]
          rcases hall m hin with hsome | hflags
          · exact Option.or_of_isSome hsome
          · rw [hw] at hflags
            cases hflags
        · rw [if_neg hin]
      · rw [if_pos hin, hw, hnone]
        rfl
    · intro m hm
      have hw : writes m = none := (hnew m).resolve_right fun hin => hm hin.2.2.2
      constructor
      · show (if m ∈ messages then (rows m).or (some flags) else rows m) = rows m
        by_cases hin : m ∈ messages
        · rw [if_pos hin]
          rcases hall m hin with hsome | hflags
          · exact Option.or_of_isSome (h.isSome.trans hsome)
          · rw [hw] at hflags
            cases hflags
        · rw [if_neg hin]
      · show (writes m).or (d.rows m) = d.rows m
        rw [hw, Option.none_or]

end

/-! ## Runs -/

theorem step_explained (move : Move) (h : Explained site init commits d log waiting rows)
    (hfresh : InsertsFresh d move) :
    ∃ log' waiting' rows', Explained site init
      (commits ++ (step site move d).1.committedOps) (step site move d).2 log' waiting' rows' := by
  cases move with
  | request i r =>
    unfold step
    dsimp only
    cases hs : d.transactions i with
    | some t => exact ⟨log, waiting, rows, by simpa [committedOps] using h⟩
    | none =>
      cases checkRequest r with
      | error message => exact ⟨log, waiting, rows, by simpa [committedOps] using h⟩
      | ok c =>
        refine ⟨log, waiting, rows, ?_⟩
        rw [show Answer.ok.committedOps = [] from rfl, append_nil]
        exact h.proceed (by simp [free]) (.start c) (by simp [hs, Transaction.pending, Stage.chosen])
  | create i flags messages =>
    unfold step
    dsimp only
    cases hs : d.transactions i with
    | some t => exact ⟨log, waiting, rows, by simpa [committedOps] using h⟩
    | none =>
      refine ⟨log, waiting, rows, ?_⟩
      rw [show Answer.ok.committedOps = [] from rfl, append_nil]
      exact h.proceed (by simp [free]) (.created flags messages)
        (by simp [hs, Transaction.pending])
  | next i =>
    unfold step
    dsimp only
    cases hs : d.transactions i with
    | none => exact ⟨log, waiting, rows, by simpa [committedOps] using h⟩
    | some t =>
      obtain ⟨op, stage, writes⟩ := t
      cases op with
      | change c => exact h.changeStatement hs hfresh
      | create flags messages => exact h.createStatement hs

/-- No transaction is open, and nothing is locked. -/
def Database.Quiet (d : Database) : Prop :=
  (∀ m, d.locks m = none) ∧ ∀ i, d.transactions i = none

theorem explained_quiet (h : d.Quiet) : Explained site d.rows [] d [] [] d.rows where
  holds := by
    intro i t ht
    rw [h.2 i] at ht
    cases ht
  perm := List.Perm.nil
  nodup := nodup_nil
  waiting := by
    intro i done
    simp [h.2 i]
  serial := rfl
  pending := by
    intro i t c messages ht
    rw [h.2 i] at ht
    cases ht
  settled := fun _ _ => rfl

/-- The operations that were committed, with what their events name. -/
def committed (steps : List (Event Database Move Answer)) : List Done :=
  steps.flatMap fun e => e.answer.committedOps

/-- **No change is lost.**  If every request inserts rows only where nobody has made one and changed
it, then whenever no transaction is open, the rows are those of the committed operations one after
the other, and each event names what its request changed. -/
theorem no_change_lost (site : Site) (d : Database) (moves : List Move) (hquiet : d.Quiet)
    (hfresh : ∀ e ∈ history (step site) d moves, InsertsFresh e.pre e.input)
    (hend : ∀ i, (run (step site) d moves).transactions i = none) :
    ∃ order, order.Perm (committed (history (step site) d moves)) ∧
      Serial site d.rows order (run (step site) d moves).rows := by
  have hpast : (∀ e ∈ history (step site) d moves, InsertsFresh e.pre e.input) →
      ∃ log waiting rows, Explained site d.rows (committed (history (step site) d moves))
        (run (step site) d moves) log waiting rows := by
    refine (history_past (step site)
      (J := fun past d' => (∀ e ∈ past, InsertsFresh e.pre e.input) →
        ∃ log waiting rows, Explained site d.rows (committed past) d' log waiting rows)
      d moves (fun _ => ⟨[], [], d.rows, explained_quiet hquiet⟩) ?_).1
    rintro past ⟨move, pre, answer, post⟩ he ih hpast
    obtain ⟨log, waiting, rows, h⟩ := ih fun e hin => hpast e (mem_append_left _ hin)
    have hlast := hpast ⟨move, pre, answer, post⟩ (by simp)
    obtain ⟨log', waiting', rows', h'⟩ := step_explained move h hlast
    rw [he] at h'
    refine ⟨log', waiting', rows', ?_⟩
    have happend : committed (past ++ [⟨move, pre, answer, post⟩]) =
        committed past ++ answer.committedOps := by
      simp [committed]
    rwa [happend]
  obtain ⟨log, waiting, rows, h⟩ := hpast hfresh
  have hempty : waiting = [] := by
    refine eq_nil_iff_forall_not_mem.mpr ?_
    rintro ⟨i, done⟩ hin
    obtain ⟨t, ht, -⟩ := (h.waiting i done).mp hin
    rw [hend i] at ht
    cases ht
  have hrows : rows = (run (step site) d moves).rows := by
    funext m
    refine h.settled m fun i t done ht => ?_
    rw [hend i] at ht
    cases ht
  refine ⟨log, ?_, hrows ▸ h.serial⟩
  have hperm := h.perm
  rwa [hempty, map_nil, append_nil] at hperm

/-! ## Two requests -/

/-- The transaction of which a statement is done. -/
def Move.id : Move → ℕ
  | .request i _ => i
  | .create i _ _ => i
  | .next i => i

/-- A statement opens, changes or ends its own transaction only. -/
theorem step_other {move : Move} (h : j ≠ move.id) :
    (step site move d).2.transactions j = d.transactions j := by
  have hproceed : ∀ t ms, (d.proceed move.id t ms).transactions j = d.transactions j := by
    intro t ms
    rw [transactions_proceed, if_neg h]
  have hfinish : ∀ rows, (d.finish move.id rows).transactions j = d.transactions j := by
    intro rows
    rw [transactions_finish, if_neg h]
  cases move with
  | request i r =>
    unfold step
    dsimp only
    split
    · exact hproceed _ _
    · rfl
    · rfl
  | create i flags messages =>
    unfold step
    dsimp only
    split
    · exact hproceed _ _
    · rfl
  | next i =>
    unfold step
    dsimp only
    split
    · rfl
    · split
      · unfold changeStatement
        split
        · exact hproceed _ _
        · dsimp only
          split
          · exact hproceed _ _
          · rfl
        · dsimp only
          split
          · exact hproceed _ _
          · split
            · exact hproceed _ _
            · exact hfinish _
        · dsimp only
          split
          · exact hproceed _ _
          · rfl
        · exact hproceed _ _
        · exact hfinish _
      · unfold createStatement
        split
        · dsimp only
          split
          · exact hproceed _ _
          · rfl
        · exact hfinish _

theorem run_other {moves : List Move} (h : ∀ move ∈ moves, j ≠ move.id) :
    (run (step site) d moves).transactions j = d.transactions j := by
  induction moves generalizing d with
  | nil => rfl
  | cons move moves ih =>
    rw [run, ih fun later hin => h later (mem_cons_of_mem _ hin)]
    exact step_other (h move mem_cons_self)

/-- No request inserts a row where there is one by now. -/
def insertsNew (d : Database) : Move → Bool
  | .next i =>
    match d.transactions i with
    | some ⟨.change _, .accessed messages ums, _⟩ =>
      (historicalMessageIds messages ums).all fun m => (d.rows m).isNone
    | _ => true
  | _ => true

theorem insertsFresh_of_new {move : Move} (h : insertsNew d move = true) :
    InsertsFresh d move := by
  rintro i ⟨op, stage, writes⟩ c messages ums rfl ht rfl rfl _ m hm
  unfold insertsNew at h
  dsimp only at h
  rw [ht] at h
  exact .inl (Option.isNone_iff_eq_none.mp (all_eq_true.mp h m hm))

/-- All messages can be accessed, in channels the user is subscribed to. -/
def publicSite : Site := ⟨fun _ => false, fun _ messages => messages⟩

/-- One message has an unread row, and no transaction is open. -/
def quietDatabase (row : Option Bits) : Database :=
  ⟨fun m => if m = 7 then row else none, fun _ => none, fun _ => none⟩

theorem quiet_quietDatabase (row : Option Bits) : (quietDatabase row).Quiet :=
  ⟨fun _ => rfl, fun _ => rfl⟩

/-- The statements of a request that inserts rows, after the first. -/
def rest (i : ℕ) : List Move := [.next i, .next i, .next i]

/-- Two requests find no row, and each inserts one. -/
def crossing : List Move :=
  [.request 1 ⟨"add", "starred", [7]⟩, .request 2 ⟨"add", "collapsed", [7]⟩, .next 1, .next 2,
    .next 1, .next 2, .next 1, .next 2] ++ rest 1 ++ rest 2

/-- Nothing is open after statements of two transactions that have ended. -/
theorem closed_of_two {moves : List Move} (hquiet : d.Quiet)
    (hid : ∀ id ∈ moves.map Move.id, id = 1 ∨ id = 2)
    (h1 : (run (step site) d moves).transactions 1 = none)
    (h2 : (run (step site) d moves).transactions 2 = none) :
    ∀ i, (run (step site) d moves).transactions i = none := by
  intro i
  by_cases hi1 : i = 1
  · rwa [hi1]
  by_cases hi2 : i = 2
  · rwa [hi2]
  rw [run_other fun move hmove => ?_, hquiet.2 i]
  rcases hid _ (mem_map_of_mem hmove) with h | h
  · rwa [h]
  · rwa [h]

/-- The star that the first request set is gone. -/
theorem crossing_loses :
    (∀ i, (run (step publicSite) (quietDatabase none) crossing).transactions i = none) ∧
    ¬∃ order, order.Perm (committed (history (step publicSite) (quietDatabase none) crossing)) ∧
      Serial publicSite (quietDatabase none).rows order
        (run (step publicSite) (quietDatabase none) crossing).rows := by
  refine ⟨closed_of_two (quiet_quietDatabase none) (by decide) rfl rfl, ?_⟩
  rintro ⟨order, hperm, hserial⟩
  have hcommitted : committed (history (step publicSite) (quietDatabase none) crossing) =
      [⟨.change ⟨.starred, true, [7]⟩, [7]⟩, ⟨.change ⟨.collapsed, true, [7]⟩, [7]⟩] := rfl
  rw [hcommitted] at hperm
  have hstar : flagsOf (run (step publicSite) (quietDatabase none) crossing).rows 7 .starred =
      false := by decide
  have hor : order = [⟨.change ⟨.starred, true, [7]⟩, [7]⟩, ⟨.change ⟨.collapsed, true, [7]⟩, [7]⟩]
      ∨ order = [⟨.change ⟨.collapsed, true, [7]⟩, [7]⟩, ⟨.change ⟨.starred, true, [7]⟩, [7]⟩] := by
    obtain ⟨x, y, rfl⟩ := length_eq_two.mp hperm.length_eq
    have hx : x ∈ [x, y] := mem_cons_self
    rcases mem_cons.mp (hperm.mem_iff.mp hx) with rfl | hx
    · have hy := perm_singleton.mp ((perm_cons _).mp hperm)
      exact .inl (by rw [hy])
    · obtain rfl := mem_singleton.mp hx
      have hswap := hperm.trans (List.Perm.swap _ _ [])
      have hy := perm_singleton.mp ((perm_cons _).mp hswap)
      exact .inr (by rw [hy])
  rcases hor with rfl | rfl
  · have hrows := hserial.2.2
    rw [hrows] at hstar
    exact absurd hstar (by decide)
  · have hrows := hserial.2.2
    rw [hrows] at hstar
    exact absurd hstar (by decide)

/-- A request that makes a row and one that waits for it. -/
def queued : List Move :=
  [.request 1 ⟨"add", "starred", [7, 8]⟩, .request 2 ⟨"add", "read", [7, 8]⟩, .next 1, .next 2,
    .next 1, .next 2, .next 1, .next 1, .next 2] ++ [.next 1, .next 1, .next 2] ++ rest 2

theorem no_change_lost_queued :
    (∀ i, (run (step publicSite) (quietDatabase (some fun _ => false)) queued).transactions i =
      none) ∧
    ∃ order, order.Perm
        (committed (history (step publicSite) (quietDatabase (some fun _ => false)) queued)) ∧
      Serial publicSite (quietDatabase (some fun _ => false)).rows order
        (run (step publicSite) (quietDatabase (some fun _ => false)) queued).rows := by
  have hend : ∀ i,
      (run (step publicSite) (quietDatabase (some fun _ => false)) queued).transactions i =
        none :=
    closed_of_two (quiet_quietDatabase _) (by decide) rfl rfl
  refine ⟨hend, no_change_lost publicSite _ queued (quiet_quietDatabase _) ?_ hend⟩
  have hnew : (history (step publicSite) (quietDatabase (some fun _ => false)) queued).all
      (fun e => insertsNew e.pre e.input) = true := by decide
  intro e he
  exact insertsFresh_of_new (all_eq_true.mp hnew e he)

end GrowTeam.MessageFlags
