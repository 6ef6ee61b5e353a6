/-
# What a run does to the counts

A run of `process_count_stat` undoes what was started and then fills one time after the other.
`Kept` lists what its statements do, in the states they are executed in; what they keep holds
wherever the run crashes.
-/
import GrowTeam.Analytics.Slices
import Mathlib.Tactic.Linarith

namespace GrowTeam.Analytics

open Crashes List

variable {δ : Type} (site : Site δ) (stat : CountStat δ)

/-- The dependencies are filled up to a time. -/
def Ready (db : Db δ) (t : ℤ) : Prop :=
  ∀ dependency ∈ stat.dependencies, ∃ f,
    ((site.reg.find? dependency).bind fun other => other.lastSuccessfulFill db) = some f ∧ t ≤ f

/-- The state row announces a time. -/
def Started (db : Db δ) (t : ℤ) : Prop := db.fill_state stat.property = some ⟨t, .started⟩

/-- The state row says that a time is done. -/
def Done (db : Db δ) (t : ℤ) : Prop := db.fill_state stat.property = some ⟨t, .done⟩

/-- What the statements of a run keep. -/
structure Kept (T : ℤ) (P : Db δ → Prop) : Prop where
  create : ∀ db, db.fill_state stat.property = none → P db →
    P (db.setFillState stat.property ⟨site.installationEpoch, .done⟩)
  count : ∀ db db' e, Started stat db e → Differs stat.property e db db' →
    (∀ table, table ∉ stat.deletedTables →
      db'.slice table stat.property e = db.slice table stat.property e) → P db → P db'
  undone : ∀ db e, Started stat db e →
    (∀ table ∈ stat.deletedTables, db.slice table stat.property e = []) → P db →
    P (db.setFillState stat.property ⟨e - stat.timeIncrement, .done⟩)
  start : ∀ db f, Done stat db f → f + stat.timeIncrement ≤ T →
    Ready site stat db (f + stat.timeIncrement) → P db →
    P (db.setFillState stat.property ⟨f + stat.timeIncrement, .started⟩)
  done : ∀ db f mid, Done stat db f → P db →
    mid = execute exec (doFillCountStatAtHour stat (f + stat.timeIncrement))
      (db.setFillState stat.property ⟨f + stat.timeIncrement, .started⟩) → P mid →
    P (mid.setFillState stat.property ⟨f + stat.timeIncrement, .done⟩)

variable {site stat} {T : ℤ} {P : Db δ → Prop} {db db' : Db δ} {t e f : ℤ}

theorem timeIncrement_pos : 0 < stat.timeIncrement := by
  unfold CountStat.timeIncrement
  cases stat.frequency <;> decide

theorem find_property {property : String} {other : CountStat δ}
    (h : site.reg.find? property = some other) : other.property = property := by
  simpa using find?_some h

/-- Whether the dependencies are ready is read off their state rows. -/
theorem ready_congr (h : ∀ dependency ∈ stat.dependencies,
    db'.fill_state dependency = db.fill_state dependency) :
    Ready site stat db' t ↔ Ready site stat db t := by
  have hlast : ∀ dependency ∈ stat.dependencies,
      ((site.reg.find? dependency).bind fun other => other.lastSuccessfulFill db') =
        (site.reg.find? dependency).bind fun other => other.lastSuccessfulFill db := by
    intro dependency hd
    cases hfind : site.reg.find? dependency with
    | none => rfl
    | some other =>
      simp only [Option.bind_some, CountStat.lastSuccessfulFill, find_property hfind, h _ hd]
  constructor
  · intro hready dependency hd
    rw [← hlast dependency hd]
    exact hready dependency hd
  · intro hready dependency hd
    rw [hlast dependency hd]
    exact hready dependency hd

theorem limit_some {reg : Registry δ} {dependencies : List String} {fill_to lim : ℤ}
    (h : limit reg db dependencies fill_to = some lim) (t : ℤ) :
    t ≤ lim ↔ t ≤ fill_to ∧ ∀ dependency ∈ dependencies, ∃ f,
      ((reg.find? dependency).bind fun other => other.lastSuccessfulFill db) = some f ∧ t ≤ f := by
  induction dependencies generalizing fill_to with
  | nil =>
    cases h
    simp
  | cons dependency dependencies ih =>
    unfold limit at h
    split at h
    · cases h
    next fill hfill =>
      rw [ih h, le_min_iff]
      constructor
      · rintro ⟨⟨hto, hle⟩, hrest⟩
        refine ⟨hto, ?_⟩
        intro d hd
        rcases mem_cons.mp hd with rfl | hd
        · exact ⟨fill, hfill, hle⟩
        · exact hrest d hd
      · rintro ⟨hto, hall⟩
        obtain ⟨f, hf, hle⟩ := hall dependency mem_cons_self
        rw [hfill] at hf
        cases hf
        exact ⟨⟨hto, hle⟩, fun d hd => hall d (mem_cons_of_mem _ hd)⟩

theorem limit_none {reg : Registry δ} {dependencies : List String} {fill_to : ℤ}
    (h : limit reg db dependencies fill_to = none) :
    ∃ dependency ∈ dependencies,
      ((reg.find? dependency).bind fun other => other.lastSuccessfulFill db) = none := by
  induction dependencies generalizing fill_to with
  | nil => cases h
  | cons dependency dependencies ih =>
    unfold limit at h
    split at h
    · exact ⟨dependency, mem_cons_self, ‹_›⟩
    · obtain ⟨d, hd, hnone⟩ := ih h
      exact ⟨d, mem_cons_of_mem _ hd, hnone⟩

/-! ## The phases of a run -/

/-- The state rows of the other statistics. -/
def SameOthers (stat : CountStat δ) (db db' : Db δ) : Prop :=
  ∀ property, property ≠ stat.property → db'.fill_state property = db.fill_state property

theorem sameOthers_set (s : FillState) :
    SameOthers stat db (db.setFillState stat.property s) := by
  intro property hne
  rw [fill_state_setFillState, if_neg hne]

theorem done_set : Done stat (db.setFillState stat.property ⟨f, .done⟩) f := by
  unfold Done
  rw [fill_state_setFillState, if_pos rfl]

theorem started_set : Started stat (db.setFillState stat.property ⟨f, .started⟩) f := by
  unfold Started
  rw [fill_state_setFillState, if_pos rfl]

variable {program : List (Statement δ)}

/-- What counting keeps holds throughout the statements that count. -/
theorem throughout_counting (h : Kept site stat T P)
    (hprogram : ∀ c ∈ program, CountsAt stat e c) (hstarted : Started stat db e) (hP : P db) :
    Throughout exec P program db := by
  have hboth : Throughout exec (fun d => Started stat d e ∧ P d) program db := by
    refine throughout_of_kept ⟨hstarted, hP⟩ ?_
    rintro c hc d ⟨hd, hPd⟩
    have hdiffers : Differs stat.property e d (exec c d) := differs_exec (hprogram c hc)
    refine ⟨?_, h.count d _ e hd hdiffers
      (fun table htable => slice_counted_other (hprogram c hc) htable) hPd⟩
    unfold Started
    rw [hdiffers.fill_state]
    exact hd
  exact hboth.imp fun d hd => hd.2

theorem throughout_resume (h : Kept site stat T P) (hP : P db) :
    Throughout exec P (resume site stat db).1 db ∧
      Done stat (execute exec (resume site stat db).1 db) (resume site stat db).2 ∧
      SameOthers stat db (execute exec (resume site stat db).1 db) := by
  unfold resume
  cases hfill : db.fill_state stat.property with
  | none =>
    refine ⟨?_, done_set, sameOthers_set _⟩
    exact throughout_cons.mpr ⟨hP, throughout_nil.mpr (h.create db hfill hP)⟩
  | some s =>
    obtain ⟨e, state⟩ := s
    cases state with
    | done => exact ⟨throughout_nil.mpr hP, hfill, fun _ _ => rfl⟩
    | started =>
      have hcounts : ∀ c ∈ doDeleteCountsAtHour stat e, CountsAt stat e c := fun c hc => .inl hc
      have hdeletes := throughout_counting h hcounts hfill hP
      have hdiffers : Differs stat.property e db
          (execute exec (doDeleteCountsAtHour stat e) db) := differs_execute hcounts
      have hstarted : Started stat (execute exec (doDeleteCountsAtHour stat e) db) e := by
        unfold Started
        rw [hdiffers.fill_state]
        exact hfill
      refine ⟨?_, ?_, ?_⟩
      · refine throughout_append.mpr ⟨hdeletes, throughout_cons.mpr ⟨hdeletes.finish, ?_⟩⟩
        refine throughout_nil.mpr (h.undone _ e hstarted ?_ hdeletes.finish)
        intro table htable
        unfold doDeleteCountsAtHour
        rw [slice_deleted, if_pos htable]
      · rw [execute_append]
        exact done_set
      · rw [execute_append]
        intro property hne
        exact (sameOthers_set _ property hne).trans (congrFun hdiffers.fill_state property)

theorem throughout_fillHour (h : Kept site stat T P) (hP : P db) (hdone : Done stat db f)
    (hle : f + stat.timeIncrement ≤ T) (hready : Ready site stat db (f + stat.timeIncrement)) :
    Throughout exec P (fillHour stat (f + stat.timeIncrement)) db ∧
      Done stat (execute exec (fillHour stat (f + stat.timeIncrement)) db)
        (f + stat.timeIncrement) ∧
      SameOthers stat db (execute exec (fillHour stat (f + stat.timeIncrement)) db) := by
  let next := f + stat.timeIncrement
  let started := db.setFillState stat.property ⟨f + stat.timeIncrement, .started⟩
  have hcounts : ∀ c ∈ doFillCountStatAtHour stat next,
      CountsAt stat next c := fun c hc => .inr hc
  have hfill := throughout_counting h hcounts started_set (h.start db f hdone hle hready hP)
  have hexecute : execute exec (fillHour stat next) db =
      (execute exec (doFillCountStatAtHour stat next) started).setFillState
          stat.property ⟨f + stat.timeIncrement, .done⟩ := by
    unfold fillHour
    rw [execute, execute_append]
    rfl
  refine ⟨?_, ?_, ?_⟩
  · refine throughout_cons.mpr ⟨hP, throughout_append.mpr ⟨hfill, throughout_cons.mpr
      ⟨hfill.finish, throughout_nil.mpr ?_⟩⟩⟩
    exact h.done db f _ hdone hP rfl hfill.finish
  · rw [hexecute]
    exact done_set
  · rw [hexecute]
    intro property hne
    have hdiffers : Differs stat.property next
        started
        (execute exec (doFillCountStatAtHour stat next) started) :=
      differs_execute hcounts
    rw [sameOthers_set _ property hne, hdiffers.fill_state, sameOthers_set _ property hne]

/-- **The loop** fills every time up to the limit. -/
theorem throughout_fillLoop (hown : stat.property ∉ stat.dependencies) (h : Kept site stat T P)
    {lim : ℤ} (fuel : ℕ) (hP : P db) (hdone : Done stat db f)
    (hlim : ∀ t ≤ lim, t ≤ T ∧ Ready site stat db t) :
    Throughout exec P (fillLoop stat lim fuel (f + stat.timeIncrement)) db ∧
      SameOthers stat db (execute exec (fillLoop stat lim fuel (f + stat.timeIncrement)) db) ∧
      ∃ g, Done stat (execute exec (fillLoop stat lim fuel (f + stat.timeIncrement)) db) g ∧
        (lim ≤ f + fuel → lim < g + stat.timeIncrement) := by
  have hpos : 0 < stat.timeIncrement := timeIncrement_pos
  induction fuel generalizing db f with
  | zero =>
    refine ⟨throughout_nil.mpr hP, fun _ _ => rfl, f, hdone, ?_⟩
    intro hle
    omega
  | succ fuel ih =>
    unfold fillLoop
    by_cases hnext : f + stat.timeIncrement ≤ lim
    · rw [if_pos hnext]
      obtain ⟨hround, hdone', hothers⟩ := throughout_fillHour h hP hdone (hlim _ hnext).1
        (hlim _ hnext).2
      have hready : ∀ t ≤ lim, t ≤ T ∧ Ready site stat
          (execute exec (fillHour stat (f + stat.timeIncrement)) db) t := by
        intro t ht
        refine ⟨(hlim t ht).1, (ready_congr ?_).mpr (hlim t ht).2⟩
        intro dependency hd
        exact hothers dependency fun heq => hown (heq ▸ hd)
      obtain ⟨hrest, hothers', g, hg, hend⟩ := ih hround.finish hdone' hready
      rw [execute_append]
      refine ⟨throughout_append.mpr ⟨hround, hrest⟩, ?_, g, hg, ?_⟩
      · exact fun property hne => (hothers' property hne).trans (hothers property hne)
      · intro hle
        apply hend
        omega
    · rw [if_neg hnext]
      refine ⟨throughout_nil.mpr hP, fun _ _ => rfl, f, hdone, ?_⟩
      intro _
      omega

/-- **What a run keeps holds wherever it stops**, and at its end every time is filled up to which
the dependencies are. -/
theorem throughout_process (hown : stat.property ∉ stat.dependencies) (h : Kept site stat T P)
    {fill_to : ℤ}
    (hprogram : processCountStat site stat fill_to db = some program) (hT : fill_to ≤ T)
    (hP : P db) :
    Throughout exec P program db ∧ SameOthers stat db (execute exec program db) ∧
      ∃ g, Done stat (execute exec program db) g ∧
        ∀ t ≤ fill_to, Ready site stat db t → t < g + stat.timeIncrement := by
  obtain ⟨hundo, hdone, hothers⟩ := throughout_resume h hP
  have hready : ∀ t, Ready site stat (execute exec (resume site stat db).1 db) t ↔
      Ready site stat db t := fun t =>
    ready_congr fun dependency hd => hothers dependency fun heq => hown (heq ▸ hd)
  unfold processCountStat at hprogram
  split at hprogram
  · cases hprogram
  · dsimp only at hprogram
    split at hprogram
    next hnone =>
      cases hprogram
      refine ⟨hundo, hothers, _, hdone, ?_⟩
      intro t _ ht
      obtain ⟨dependency, hd, hlast⟩ := limit_none hnone
      obtain ⟨f, hf, -⟩ := (hready t).mpr ht dependency hd
      rw [hlast] at hf
      cases hf
    next lim hlim =>
      cases hprogram
      have hbelow : ∀ t ≤ lim, t ≤ T ∧
          Ready site stat (execute exec (resume site stat db).1 db) t := by
        intro t ht
        obtain ⟨hto, hall⟩ := (limit_some hlim t).mp ht
        exact ⟨hto.trans hT, hall⟩
      obtain ⟨hloop, hothers', g, hg, hend⟩ := throughout_fillLoop hown h
        (lim - (resume site stat db).2).toNat hundo.finish hdone hbelow
      rw [execute_append]
      refine ⟨throughout_append.mpr ⟨hundo, hloop⟩, ?_, g, hg, ?_⟩
      · exact fun property hne => (hothers' property hne).trans (hothers property hne)
      · intro t hto ht
        have hle : t ≤ lim := (limit_some hlim t).mpr ⟨hto, (hready t).mpr ht⟩
        omega

end GrowTeam.Analytics
