/-
# Rows of a property at a time

The count tables fall into slices: the rows of a property at a time.  A statement that counts for a
property at a time changes this slice only.  Filling a slice that was emptied gives the same rows
from every database with the same source data, dependencies and rows of its own.
-/
import GrowTeam.Analytics.Counts

namespace GrowTeam.Analytics

open Crashes List CountStat

variable {δ : Type} {db db' : Db δ} {stat : CountStat δ} {table : Table} {p q : String}
  {e t : ℤ} {entries : List Entry}

/-! ## One statement -/

theorem fill_state_setFillState (s : FillState) :
    (db.setFillState q s).fill_state p = if p = q then some s else db.fill_state p := rfl

theorem slice_insert_same :
    (db.insert table p e entries).slice table p e =
      db.slice table p e ++ entries.map fun entry => ⟨p, e, entry⟩ := by
  unfold Db.slice Db.insert
  dsimp only
  rw [if_pos rfl, filter_append, filter_eq_self.mpr (forall_mem_map.mpr fun _ _ => by simp)]

theorem slice_delete_same : (db.delete table p e).slice table p e = [] := by
  unfold Db.slice Db.delete
  simp

section Others

variable {other : Table} {keep : Row → Bool}
  (h : other = table → ∀ entry, keep ⟨p, e, entry⟩ = false)

include h

theorem counts_insert : ((db.insert table p e entries).counts other).filter keep =
    (db.counts other).filter keep := by
  unfold Db.insert
  dsimp only
  split
  · next htable =>
    have hnone : (entries.map fun entry => (⟨p, e, entry⟩ : Row)).filter keep = [] :=
      filter_eq_nil_iff.mpr (forall_mem_map.mpr fun entry _ => by simp [h htable entry])
    rw [filter_append, hnone, append_nil]
  · rfl

theorem counts_delete : ((db.delete table p e).counts other).filter keep =
    (db.counts other).filter keep := by
  unfold Db.delete
  dsimp only
  split
  · next htable =>
    rw [filter_filter]
    refine filter_congr fun r _ => ?_
    by_cases hr : r.property = p ∧ r.end_time = e
    · obtain ⟨property, end_time, entry⟩ := r
      obtain ⟨rfl, rfl⟩ := hr
      rw [h htable entry, Bool.false_and]
    · rw [← Bool.decide_and, decide_eq_false hr, Bool.not_false, Bool.and_true]
  · rfl

end Others

section Slices

variable {other : Table} (h : ¬ (other = table ∧ q = p ∧ t = e))

include h

theorem not_in_slice (htable : other = table) (entry : Entry) :
    (decide ((⟨p, e, entry⟩ : Row).property = q) &&
      decide ((⟨p, e, entry⟩ : Row).end_time = t)) = false := by
  rw [← Bool.decide_and, decide_eq_false_iff_not]
  rintro ⟨rfl, rfl⟩
  exact h ⟨htable, rfl, rfl⟩

theorem slice_insert_other :
    (db.insert table p e entries).slice other q t = db.slice other q t :=
  counts_insert (not_in_slice h)

theorem slice_delete_other : (db.delete table p e).slice other q t = db.slice other q t :=
  counts_delete (not_in_slice h)

end Slices

theorem not_in_dependencies {deps : List String} (h : p ∉ deps ∨ t ≠ e) (entry : Entry) :
    (deps.contains (⟨p, e, entry⟩ : Row).property &&
      decide ((⟨p, e, entry⟩ : Row).end_time = t)) = false := by
  rcases h with h | h
  · simp [h]
  · simp [h.symm]

/-! ## Counting -/

/-- The databases differ at most in the rows of a property at a time. -/
structure Differs (p : String) (e : ℤ) (db db' : Db δ) : Prop where
  data : db'.data = db.data
  fill_state : db'.fill_state = db.fill_state
  slice : ∀ table q t, ¬ (q = p ∧ t = e) → db'.slice table q t = db.slice table q t
  rows : ∀ deps t, p ∉ deps ∨ t ≠ e → db'.dependencyRows deps t = db.dependencyRows deps t

theorem Differs.refl (p : String) (e : ℤ) (db : Db δ) : Differs p e db db :=
  ⟨rfl, rfl, fun _ _ _ _ => rfl, fun _ _ _ => rfl⟩

theorem Differs.trans {db'' : Db δ} (h : Differs p e db db') (h' : Differs p e db' db'') :
    Differs p e db db'' where
  data := h'.data.trans h.data
  fill_state := h'.fill_state.trans h.fill_state
  slice table q t hne := (h'.slice table q t hne).trans (h.slice table q t hne)
  rows deps t hne := (h'.rows deps t hne).trans (h.rows deps t hne)

theorem differs_insert : Differs p e db (db.insert table p e entries) where
  data := rfl
  fill_state := rfl
  slice _ _ _ hne := slice_insert_other fun h => hne h.2
  rows _ _ hne := funext fun _ => counts_insert fun _ => not_in_dependencies hne

theorem differs_delete : Differs p e db (db.delete table p e) where
  data := rfl
  fill_state := rfl
  slice _ _ _ hne := slice_delete_other fun h => hne h.2
  rows _ _ hne := funext fun _ => counts_delete fun _ => not_in_dependencies hne

/-- The statement counts for the statistic at this time. -/
def CountsAt (stat : CountStat δ) (e : ℤ) (c : Statement δ) : Prop :=
  c ∈ doDeleteCountsAtHour stat e ∨ c ∈ doFillCountStatAtHour stat e

variable {c : Statement δ} {program : List (Statement δ)}

theorem differs_exec (h : CountsAt stat e c) : Differs stat.property e db (exec c db) := by
  rcases h with h | h
  · obtain ⟨table, -, rfl⟩ := mem_map.mp h
    exact differs_delete
  · rcases mem_append.mp h with h | h
    · split at h
      · cases h
      · obtain rfl := mem_singleton.mp h
        exact differs_insert
    · rcases mem_append.mp h with h | h
      · split at h
        · obtain rfl := mem_singleton.mp h
          exact differs_insert
        · cases h
      · obtain rfl := mem_singleton.mp h
        exact differs_insert

theorem differs_execute (h : ∀ c ∈ program, CountsAt stat e c) :
    Differs stat.property e db (execute exec program db) := by
  induction program generalizing db with
  | nil => exact Differs.refl _ _ _
  | cons c program ih =>
    exact (differs_exec (h c mem_cons_self)).trans
      (ih fun c hc => h c (mem_cons_of_mem _ hc))

/-- What is pulled depends on the source data and the rows of the dependencies. -/
theorem pulled_congr (hdata : db'.data = db.data)
    (hrows : db'.dependencyRows stat.dependencies t = db.dependencyRows stat.dependencies t)
    (s : ℤ) : stat.pulled db' s t = stat.pulled db s t := by
  unfold CountStat.pulled
  cases hkind : stat.kind with
  | sql f => simp only [hdata]
  | logging => rfl
  | dependent f deps =>
    have hdeps : stat.dependencies = deps := by rw [dependencies, hkind]
    rw [hdeps] at hrows
    simp only [hdata, hrows]

theorem pulled_of_differs (hown : stat.property ∉ stat.dependencies)
    (h : Differs stat.property e db db') (s : ℤ) : stat.pulled db' s t = stat.pulled db s t :=
  pulled_congr h.data (h.rows _ t (.inl hown)) s

/-! ## Filling -/

/-- What is written when the counts of a time are deleted and filled once more. -/
def refilled (stat : CountStat δ) (t : ℤ) (db : Db δ) : Db δ :=
  execute exec (doFillCountStatAtHour stat t) (execute exec (doDeleteCountsAtHour stat t) db)

/-- The deletion empties the slices of its tables. -/
theorem slice_deleted (tables : List Table) :
    (execute exec (tables.map fun table => (.delete table p e : Statement δ)) db).slice table p e =
      if table ∈ tables then [] else db.slice table p e := by
  induction tables generalizing db with
  | nil => simp [execute]
  | cons first tables ih =>
    simp only [map_cons, execute, exec, ih, mem_cons]
    by_cases hin : table ∈ tables
    · rw [if_pos hin, if_pos (.inr hin)]
    · rw [if_neg hin]
      by_cases hfirst : table = first
      · rw [hfirst, slice_delete_same, if_pos (.inl rfl)]
      · rw [slice_delete_other fun h => hfirst h.1, if_neg]
        rintro (h | h)
        · exact hfirst h
        · exact hin h

/-- The same source data and rows at a time. -/
structure SameAt (stat : CountStat δ) (t : ℤ) (db db' : Db δ) : Prop where
  pulled : stat.pulled db' (t - stat.interval) t = stat.pulled db (t - stat.interval) t
  slice : ∀ table, db'.slice table stat.property t = db.slice table stat.property t

section

variable (hown : stat.property ∉ stat.dependencies)

include hown

theorem sameAt_exec (hc : c ∈ doFillCountStatAtHour stat t) (h : SameAt stat t db db') :
    SameAt stat t (exec c db) (exec c db') := by
  have hpulled : stat.pulled (exec c db') (t - stat.interval) t =
      stat.pulled (exec c db) (t - stat.interval) t := by
    rw [pulled_of_differs hown (differs_exec (.inr hc)), pulled_of_differs hown
      (differs_exec (.inr hc)), h.pulled]
  -- The same entries go into the same table.
  have hinsert : ∀ target entries table,
      (db'.insert target stat.property t entries).slice table stat.property t =
        (db.insert target stat.property t entries).slice table stat.property t := by
    intro target entries table
    by_cases htable : table = target
    · rw [htable, slice_insert_same, slice_insert_same, h.slice]
    · rw [slice_insert_other fun hand => htable hand.1, slice_insert_other fun hand => htable hand.1,
        h.slice]
  refine ⟨hpulled, ?_⟩
  intro table
  rcases mem_append.mp hc with hc | hc
  · split at hc
    · cases hc
    · obtain rfl := mem_singleton.mp hc
      rw [exec, h.pulled]
      exact hinsert _ _ table
  · rcases mem_append.mp hc with hc | hc
    · split at hc
      · obtain rfl := mem_singleton.mp hc
        rw [exec, h.slice]
        exact hinsert _ _ table
      · cases hc
    · obtain rfl := mem_singleton.mp hc
      rw [exec, h.slice]
      exact hinsert _ _ table

theorem sameAt_execute
    (hprogram : ∀ c ∈ program, c ∈ doFillCountStatAtHour stat t) (h : SameAt stat t db db') :
    SameAt stat t (execute exec program db) (execute exec program db') := by
  induction program generalizing db db' with
  | nil => exact h
  | cons c program ih =>
    exact ih (fun c hc => hprogram c (mem_cons_of_mem _ hc))
      (sameAt_exec hown (hprogram c mem_cons_self) h)

/-- **Refilling** depends on the source data, the dependencies and the logged rows only. -/
theorem slice_refilled
    (hpulled : stat.pulled db' (t - stat.interval) t = stat.pulled db (t - stat.interval) t)
    (hslice : ∀ table, table ∉ stat.deletedTables →
      db'.slice table stat.property t = db.slice table stat.property t) (table : Table) :
    (refilled stat t db').slice table stat.property t =
      (refilled stat t db).slice table stat.property t := by
  refine (sameAt_execute hown (fun c hc => hc) ⟨?_, ?_⟩).slice table
  · have hdelete : ∀ d : Db δ,
        stat.pulled (execute exec (doDeleteCountsAtHour stat t) d) (t - stat.interval) t =
          stat.pulled d (t - stat.interval) t :=
      fun d => pulled_of_differs hown (differs_execute fun c hc => .inl hc) _
    rw [hdelete, hdelete, hpulled]
  · intro table
    unfold doDeleteCountsAtHour
    rw [slice_deleted, slice_deleted]
    split
    · rfl
    · exact hslice table ‹_›

end

/-- A statement of the filling inserts into a table that is deleted from. -/
theorem exec_fill (hc : c ∈ doFillCountStatAtHour stat t) (db : Db δ) :
    ∃ target ∈ stat.deletedTables, ∃ entries,
      exec c db = db.insert target stat.property t entries := by
  have hinstallation : Table.installationCount ∈ stat.deletedTables := by
    unfold deletedTables
    split <;> simp
  rcases mem_append.mp hc with hc | hc
  · split at hc
    · cases hc
    · obtain rfl := mem_singleton.mp hc
      refine ⟨stat.output_table, ?_, _, rfl⟩
      have hstored := stat.stored
      have hlogging : ¬ stat.isLogging = true := ‹_›
      unfold deletedTables
      unfold isLogging at hlogging
      cases hkind : stat.kind with
      | logging => simp [hkind] at hlogging
      | sql | dependent =>
        cases htable : stat.output_table <;> simp_all [Kind.stores]
  · rcases mem_append.mp hc with hc | hc
    · split at hc
      · obtain rfl := mem_singleton.mp hc
        refine ⟨.realmCount, ?_, _, rfl⟩
        unfold deletedTables
        split <;> simp
      · cases hc
    · obtain rfl := mem_singleton.mp hc
      exact ⟨.installationCount, hinstallation, _, rfl⟩

/-- The tables that are not deleted from are not written. -/
theorem slice_counted_other (hc : CountsAt stat t c) (htable : table ∉ stat.deletedTables) :
    (exec c db).slice table stat.property t = db.slice table stat.property t := by
  rcases hc with hc | hc
  · obtain ⟨target, htarget, rfl⟩ := mem_map.mp hc
    refine slice_delete_other fun h => htable ?_
    rw [h.1]
    exact htarget
  · obtain ⟨target, htarget, entries, hexec⟩ := exec_fill hc db
    rw [hexec]
    refine slice_insert_other fun h => htable ?_
    rw [h.1]
    exact htarget

theorem slice_filled_other
    (hprogram : ∀ c ∈ program, CountsAt stat t c) (htable : table ∉ stat.deletedTables) :
    (execute exec program db).slice table stat.property t = db.slice table stat.property t := by
  induction program generalizing db with
  | nil => rfl
  | cons c program ih =>
    rw [execute, ih fun c hc => hprogram c (mem_cons_of_mem _ hc),
      slice_counted_other (hprogram c mem_cons_self) htable]

end GrowTeam.Analytics
