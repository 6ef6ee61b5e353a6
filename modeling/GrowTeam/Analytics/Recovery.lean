/-
# Runs that crash leave no trace

Every event keeps the invariant of every statistic, as long as the source data of its filled times
stays as it is.  So a run that completes leaves the rows that one uninterrupted run writes.
-/
import GrowTeam.Analytics.Sound

namespace GrowTeam.Analytics

open Crashes History List CountStat

variable {δ : Type} (site : Site δ) (stat : CountStat δ)

/-- The time is after the epoch and done. -/
def Settled (db : Db δ) (t : ℤ) : Prop :=
  site.installationEpoch < t ∧ ∃ f, stat.lastSuccessfulFill db = some f ∧ t ≤ f

/-- The source data of filled times is fixed. -/
def Fixed (db : Db δ) : Input δ → Prop
  | .process _ _ _ => True
  | .increment property _ event_time =>
    ∀ stat, site.reg.find? property = some stat → ¬ Settled site stat db (stat.ceiling event_time)
  | .record data =>
    ∀ stat ∈ site.reg.stats, ∀ t, Settled site stat db t →
      stat.pulled { db with data } (t - stat.interval) t = stat.pulled db (t - stat.interval) t

variable {site stat} {T : ℤ} {db db' : Db δ} {t e f : ℤ} {other : CountStat δ}

theorem lt_of_onGrid (h : OnGrid site stat t) : site.installationEpoch < t :=
  not_le.mp fun hle => not_onGrid_of_le hle h

/-! ## The runs of the other statistics -/

variable (site stat) in
/-- What the runs of the other statistics leave of a statistic. -/
structure Later (db db' : Db δ) : Prop where
  pulled : ∀ t, site.installationEpoch < t → Ready site stat db t →
    stat.pulled db' (t - stat.interval) t = stat.pulled db (t - stat.interval) t
  fill_state : db'.fill_state stat.property = db.fill_state stat.property
  slice : ∀ table t, db'.slice table stat.property t = db.slice table stat.property t
  ready : ∀ t, Ready site stat db t → Ready site stat db' t

theorem Later.refl (db : Db δ) : Later site stat db db :=
  ⟨fun _ _ _ => rfl, rfl, fun _ _ => rfl, fun _ h => h⟩

theorem Later.trans {db'' : Db δ} (h : Later site stat db db') (h' : Later site stat db' db'') :
    Later site stat db db'' where
  pulled t hlt hready := (h'.pulled t hlt (h.ready t hready)).trans (h.pulled t hlt hready)
  fill_state := h'.fill_state.trans h.fill_state
  slice table t := (h'.slice table t).trans (h.slice table t)
  ready t hready := h'.ready t (h.ready t hready)

/-- The invariant stays. -/
theorem sound_of_later (hown : stat.property ∉ stat.dependencies) (h : Later site stat db db')
    (hsound : Sound site stat T db) : Sound site stat T db' := by
  have hlast : stat.lastSuccessfulFill db' = stat.lastSuccessfulFill db := by
    rw [lastSuccessfulFill, lastSuccessfulFill, h.fill_state]
  have hfilled : ∀ t, Filled site stat db' t ↔ Filled site stat db t := by
    intro t
    unfold Filled
    rw [hlast]
  have hstarted : ∀ t, Started stat db' t ↔ Started stat db t := by
    intro t
    unfold Started
    rw [h.fill_state]
  refine ⟨?_, ?_, ?_, ?_⟩
  · intro f hf
    exact hsound.aligned f (hlast ▸ hf)
  · intro t ht
    rw [hfilled, hstarted] at ht
    obtain ⟨hle, hready⟩ := hsound.within t ht
    exact ⟨hle, h.ready t hready⟩
  · intro t ht table
    rw [hfilled] at ht
    have hready := (hsound.within t (.inl ht)).2
    rw [h.slice, hsound.filled t ht table]
    refine (slice_refilled hown (h.pulled t (lt_of_onGrid ht.1) hready) ?_ table).symm
    exact fun table _ => h.slice table t
  · intro t hnf hns table htable
    rw [hfilled] at hnf
    rw [hstarted] at hns
    rw [h.slice]
    exact hsound.clean t hnf hns table htable

/-- What is ready has been filled in the statistic it depends on. -/
theorem settled_of_ready (hfind : site.reg.find? other.property = some other)
    (hin : other.property ∈ stat.dependencies) (hlt : site.installationEpoch < t)
    (hready : Ready site stat db t) : Settled site other db t := by
  obtain ⟨f, hf, hle⟩ := hready _ hin
  rw [hfind] at hf
  exact ⟨hlt, f, hf, hle⟩

section

variable (hne : other.property ≠ stat.property)

include hne

section

variable (hfind : site.reg.find? other.property = some other)

include hfind

/-- A change of the rows of another statistic at a time that is not filled. -/
theorem later_of_differs (h : Differs other.property e db db') (hopen : ¬ Settled site other db e) :
    Later site stat db db' where
  pulled t hlt hready := by
    refine pulled_congr h.data (h.rows _ t ?_) _
    by_cases hin : other.property ∈ stat.dependencies
    · right
      rintro rfl
      exact hopen (settled_of_ready hfind hin hlt hready)
    · exact .inl hin
  fill_state := congrFun h.fill_state _
  slice table t := h.slice table _ t fun hand => hne hand.1.symm
  ready t := (ready_congr fun _ _ => congrFun h.fill_state _).mpr

/-- The state row of another statistic advances. -/
theorem later_of_set {s : FillState} (hle : ∀ f, other.lastSuccessfulFill db = some f →
      ∃ g, other.lastSuccessfulFill (db.setFillState other.property s) = some g ∧ f ≤ g) :
    Later site stat db (db.setFillState other.property s) where
  pulled _ _ _ := pulled_congr rfl rfl _
  fill_state := by rw [fill_state_setFillState, if_neg hne.symm]
  slice _ _ := rfl
  ready t hready := by
    intro dependency hd
    obtain ⟨f, hf, htf⟩ := hready dependency hd
    by_cases heq : dependency = other.property
    · rw [heq, hfind] at hf ⊢
      obtain ⟨g, hg, hfg⟩ := hle f hf
      exact ⟨g, hg, htf.trans hfg⟩
    · refine ⟨f, ?_, htf⟩
      cases hq : site.reg.find? dependency with
      | none =>
        rw [hq] at hf
        cases hf
      | some q =>
        rw [hq] at hf
        rw [← hf]
        simp only [Option.bind_some, lastSuccessfulFill, find_property hq,
          fill_state_setFillState, if_neg heq]

/-- **A run of another statistic** leaves the statistic as it is. -/
theorem kept_later (db₀ : Db δ) : Kept site other T (Later site stat db₀) where
  create db hnone h := by
    refine h.trans (later_of_set hne hfind ?_)
    intro f hf
    rw [lastSuccessfulFill_of_none hnone] at hf
    cases hf
  count db db' e hstarted hdiffers _ h := by
    refine h.trans (later_of_differs hne hfind hdiffers ?_)
    rintro ⟨-, f, hf, hle⟩
    rw [lastSuccessfulFill_of_started hstarted] at hf
    cases hf
    have hpos : 0 < other.timeIncrement := timeIncrement_pos
    omega
  undone db e hstarted _ h := by
    refine h.trans (later_of_set hne hfind ?_)
    intro f hf
    rw [lastSuccessfulFill_of_started hstarted] at hf
    exact ⟨f, (lastSuccessfulFill_of_done done_set).trans hf, le_refl f⟩
  start db f hdone _ _ h := by
    refine h.trans (later_of_set hne hfind ?_)
    intro g hg
    rw [lastSuccessfulFill_of_done hdone] at hg
    cases hg
    refine ⟨f, ?_, le_refl f⟩
    rw [lastSuccessfulFill_of_started started_set, add_sub_cancel_right]
  done db f mid hdone _ hmid h := by
    refine h.trans (later_of_set hne hfind ?_)
    intro g hg
    have hstarted : Started other mid (f + other.timeIncrement) := by
      unfold Started
      rw [hmid, (differs_execute fun c hc => .inr hc :
        Differs other.property (f + other.timeIncrement) _ _).fill_state]
      exact started_set
    rw [lastSuccessfulFill_of_started hstarted] at hg
    cases hg
    refine ⟨_, lastSuccessfulFill_of_done done_set, ?_⟩
    have hpos : 0 < other.timeIncrement := timeIncrement_pos
    omega

end

end

/-! ## The other events -/

/-- Rows that are changed outside a selection. -/
theorem filter_map_of_same {rows : List Row} {g : Row → Row} {keep : Row → Bool}
    (hkeep : ∀ r, keep (g r) = keep r) (hsame : ∀ r, keep r = true → g r = r) :
    (rows.map g).filter keep = rows.filter keep := by
  induction rows with
  | nil => rfl
  | cons r rows ih =>
    rw [map_cons, filter_cons, filter_cons, hkeep, ih]
    split
    · rw [hsame r ‹_›]
    · rfl

variable {entry : Entry} {event_time : ℤ}

/-- An increment changes the rows of the end of its interval. -/
theorem differs_increment :
    Differs stat.property (stat.ceiling event_time) db
      (doIncrementLoggingStat stat entry event_time db) := by
  unfold doIncrementLoggingStat
  dsimp only
  split
  · exact Differs.refl _ _ _
  · split
    · refine ⟨rfl, rfl, ?_, ?_⟩
      · intro table q t hne
        unfold Db.slice
        dsimp only
        split
        · refine filter_map_of_same (fun r => ?_) fun r hr => ?_
          · split <;> rfl
          · rw [if_neg]
            simp only [Bool.and_eq_true, decide_eq_true_eq] at hr ⊢
            rintro ⟨⟨hp, he⟩, -⟩
            exact hne ⟨hr.1.symm.trans hp, hr.2.symm.trans he⟩
        · rfl
      · intro deps t hne
        funext table
        unfold Db.dependencyRows
        dsimp only
        split
        · refine filter_map_of_same (fun r => ?_) fun r hr => ?_
          · split <;> rfl
          · rw [if_neg]
            simp only [Bool.and_eq_true, decide_eq_true_eq, contains_iff_mem] at hr ⊢
            rintro ⟨⟨hp, he⟩, -⟩
            rcases hne with hne | hne
            · exact hne (hp ▸ hr.1)
            · exact hne (hr.2.symm.trans he)
        · rfl
    · exact differs_insert

/-- An increment changes the table of the statistic. -/
theorem slice_increment_other {table : Table} (hne : table ≠ stat.output_table) (q : String) :
    (doIncrementLoggingStat stat entry event_time db).slice table q t = db.slice table q t := by
  unfold doIncrementLoggingStat
  dsimp only
  split
  · rfl
  · split
    · unfold Db.slice
      dsimp only
      rw [if_neg hne]
    · exact slice_insert_other fun h => hne h.1

/-- Nothing is logged in a table that is deleted from. -/
theorem output_not_deleted (hlogging : stat.isLogging = true) :
    stat.output_table ∉ stat.deletedTables := by
  have hstored := stat.stored
  unfold deletedTables
  rw [if_pos hlogging]
  unfold isLogging at hlogging
  cases hkind : stat.kind with
  | sql f | dependent f deps => simp [hkind] at hlogging
  | logging =>
    cases htable : stat.output_table <;>
      simp_all [Kind.stores, dependsOnRealm]

theorem sound_increment (hown : stat.property ∉ stat.dependencies)
    (hlogging : stat.isLogging = true) (hopen : ¬ Settled site stat db (stat.ceiling event_time))
    (h : Sound site stat T db) :
    Sound site stat T (doIncrementLoggingStat stat entry event_time db) := by
  refine sound_of_differs hown h differs_increment ?_ (.inr ?_)
  · rintro ⟨hgrid, hf⟩
    exact hopen ⟨lt_of_onGrid hgrid, hf⟩
  · intro table htable
    refine slice_increment_other ?_ _
    rintro rfl
    exact output_not_deleted hlogging htable

/-- New source data that leaves the filled times as they are. -/
theorem sound_record (hown : stat.property ∉ stat.dependencies) {data : δ}
    (hfixed : ∀ t, Settled site stat db t →
      stat.pulled { db with data } (t - stat.interval) t = stat.pulled db (t - stat.interval) t)
    (h : Sound site stat T db) : Sound site stat T { db with data } := { h with
  filled t ht table := by
    have hrefilled := slice_refilled hown (hfixed t ⟨lt_of_onGrid ht.1, ht.2⟩)
      (fun table _ => show ({ db with data } : Db δ).slice table stat.property t =
        db.slice table stat.property t from rfl) table
    exact (h.filled t ht table).trans hrefilled.symm }

/-! ## Histories -/

theorem find_of_mem (h : stat ∈ site.reg.stats) : site.reg.find? stat.property = some stat := by
  obtain ⟨other, hother⟩ : ∃ other, site.reg.find? stat.property = some other := by
    cases hfind : site.reg.find? stat.property with
    | some other => exact ⟨other, rfl⟩
    | none =>
      have hnone := find?_eq_none.mp hfind stat h
      simp at hnone
  have hmem : other ∈ site.reg.stats := mem_of_find?_eq_some hother
  rw [hother, inj_on_of_nodup_map site.reg.unique hmem h (find_property hother)]

theorem mem_of_find {property : String} (h : site.reg.find? property = some stat) :
    stat ∈ site.reg.stats := mem_of_find?_eq_some h

theorem own_not_dependency (h : stat ∈ site.reg.stats) : stat.property ∉ stat.dependencies :=
  fun hin => (site.reg.declared stat h _ hin).1 rfl

/-- The runs of the statistic fill up to `T` at most. -/
def UpTo (stat : CountStat δ) (T : ℤ) : Input δ → Prop
  | .process property fill_to _ => property = stat.property → fill_to ≤ T
  | _ => True

/-- **Every event keeps the invariant.** -/
theorem sound_step (hstat : stat ∈ site.reg.stats) (input : Input δ)
    (hmeets : Fixed site db input ∧ UpTo stat T input) (h : Sound site stat T db) :
    Sound site stat T (step site input db).2 := by
  have hown := own_not_dependency hstat
  obtain ⟨hfixed, hup⟩ := hmeets
  cases input with
  | process property fill_to crash =>
    dsimp only [step]
    cases hfind : site.reg.find? property with
    | none => exact h
    | some other =>
      have hproperty : other.property = property := find_property hfind
      subst hproperty
      have hother := own_not_dependency (mem_of_find hfind)
      rw [Option.bind_some]
      cases hprogram : processCountStat site other fill_to db with
      | none => exact h
      | some program =>
        have hall : Throughout exec (Sound site stat T) program db := by
          by_cases heq : other.property = stat.property
          · obtain rfl : other = stat := by
              rw [heq, find_of_mem hstat] at hfind
              exact (Option.some.inj hfind).symm
            exact (throughout_process hown (kept_sound hown) hprogram (hup rfl) h).1
          · exact (throughout_process hother (kept_later heq hfind db) hprogram (le_refl _)
              (Later.refl db)).1.imp fun d hd => sound_of_later hown hd h
        cases crash with
        | none => exact hall.finish
        | some k => exact hall k
  | increment property entry event_time =>
    dsimp only [step]
    cases hfind : site.reg.find? property with
    | none => exact h
    | some other =>
      have hproperty : other.property = property := find_property hfind
      subst hproperty
      dsimp only
      split
      · by_cases heq : other.property = stat.property
        · obtain rfl : other = stat := by
            rw [heq, find_of_mem hstat] at hfind
            exact (Option.some.inj hfind).symm
          exact sound_increment hown ‹_› (hfixed _ hfind) h
        · exact sound_of_later hown
            (later_of_differs heq hfind differs_increment (hfixed _ hfind)) h
      · exact h
  | record data => exact sound_record hown (hfixed stat hstat) h

theorem sound_start (data : δ) : Sound site stat T (start data) where
  aligned f hf := by cases hf
  within t ht := by
    rcases ht with ⟨-, f, hf, -⟩ | ht
    · cases hf
    · cases ht
  filled t ht := absurd ht (not_filled_of_none rfl)
  clean _ _ _ _ _ := rfl

/-! ## One uninterrupted run -/

variable (stat) in
/-- The database as if the statistic had never been processed. -/
def Db.forget (db : Db δ) : Db δ where
  data := db.data
  counts table :=
    if table ∈ stat.deletedTables then
      (db.counts table).filter fun r => r.property ≠ stat.property
    else db.counts table
  fill_state property := if property = stat.property then none else db.fill_state property

variable (site stat) in
/-- What a single run writes that nothing interrupts. -/
def uninterrupted (T : ℤ) (db : Db δ) : Db δ :=
  (step site (.process stat.property T none) (db.forget stat)).2

theorem slice_forget {table : Table} (htable : table ∈ stat.deletedTables) :
    (db.forget stat).slice table stat.property t = [] := by
  unfold Db.slice Db.forget
  dsimp only
  rw [if_pos htable, filter_filter, filter_eq_nil_iff]
  intro r _
  simp only [Bool.and_eq_true, decide_eq_true_eq]
  rintro ⟨⟨hp, -⟩, hne⟩
  exact hne hp

theorem sound_forget : Sound site stat T (db.forget stat) := by
  have hnone : (db.forget stat).fill_state stat.property = none := if_pos rfl
  refine ⟨?_, ?_, ?_, ?_⟩
  · intro f hf
    rw [lastSuccessfulFill_of_none hnone] at hf
    cases hf
  · rintro t (ht | ht)
    · exact absurd ht (not_filled_of_none hnone)
    · unfold Started at ht
      rw [hnone] at ht
      cases ht
  · exact fun t ht => absurd ht (not_filled_of_none hnone)
  · exact fun t _ _ table htable => slice_forget htable

/-- What a run of the statistic reads. -/
structure SameReads (stat : CountStat δ) (db db' : Db δ) : Prop where
  data : db'.data = db.data
  rows : ∀ t, db'.dependencyRows stat.dependencies t = db.dependencyRows stat.dependencies t
  slice : ∀ table t, table ∉ stat.deletedTables →
    db'.slice table stat.property t = db.slice table stat.property t

theorem SameReads.symm (h : SameReads stat db db') : SameReads stat db' db :=
  ⟨h.data.symm, fun t => (h.rows t).symm, fun table t htable => (h.slice table t htable).symm⟩

theorem SameReads.trans {db'' : Db δ} (h : SameReads stat db db') (h' : SameReads stat db' db'') :
    SameReads stat db db'' where
  data := h'.data.trans h.data
  rows t := (h'.rows t).trans (h.rows t)
  slice table t htable := (h'.slice table t htable).trans (h.slice table t htable)

/-- **A run does not write** what it reads. -/
theorem kept_sameReads (hown : stat.property ∉ stat.dependencies) (db₀ : Db δ) :
    Kept site stat T (SameReads stat db₀) where
  create _ _ h := { h with }
  count db db' e _ hdiffers hother h := by
    refine ⟨hdiffers.data.trans h.data, ?_, ?_⟩
    · exact fun t => (hdiffers.rows _ t (.inl hown)).trans (h.rows t)
    · intro table t htable
      by_cases hte : t = e
      · rw [hte, hother table htable]
        exact h.slice table e htable
      · rw [hdiffers.slice table _ _ fun hand => hte hand.2]
        exact h.slice table t htable
  undone _ _ _ _ h := { h with }
  start _ _ _ _ _ h := { h with }
  done _ _ _ _ _ _ h := { h with }

theorem sameReads_forget (hown : stat.property ∉ stat.dependencies) :
    SameReads stat (db.forget stat) db where
  data := rfl
  rows t := by
    funext table
    unfold Db.dependencyRows Db.forget
    dsimp only
    split
    · rw [filter_filter]
      apply filter_congr
      intro r _
      by_cases hr : r.property ∈ stat.dependencies
      · have hne : r.property ≠ stat.property := fun heq => hown (heq ▸ hr)
        simp [hne]
      · simp [hr]
    · rfl
  slice table t htable := by
    unfold Db.slice Db.forget
    dsimp only
    rw [if_neg htable]

theorem sameOthers_forget : SameOthers stat (db.forget stat) db :=
  fun _ hne => (if_neg hne).symm

/-- A completed run fills what is ready. -/
theorem filled_iff_of_completed (hown : stat.property ∉ stat.dependencies)
    {program : List (Statement δ)} (hprogram : processCountStat site stat T db = some program)
    (h : Sound site stat T db) :
    Sound site stat T (execute exec program db) ∧ SameReads stat db (execute exec program db) ∧
      SameOthers stat db (execute exec program db) ∧ ∃ g, Done stat (execute exec program db) g ∧
        ∀ t, Filled site stat (execute exec program db) t ↔
          OnGrid site stat t ∧ t ≤ T ∧ Ready site stat db t := by
  obtain ⟨hsound, hothers, g, hg, hend⟩ :=
    throughout_process hown (kept_sound hown) hprogram (le_refl T) h
  have hreads := (throughout_process hown (kept_sameReads hown db) hprogram (le_refl T)
    ⟨rfl, fun _ => rfl, fun _ _ _ => rfl⟩).1.finish
  refine ⟨hsound.finish, hreads, hothers, g, hg, ?_⟩
  intro t
  constructor
  · intro ht
    obtain ⟨hle, hready⟩ := hsound.finish.within t (.inl ht)
    exact ⟨ht.1, hle, (ready_of_sameOthers hown hothers).mp hready⟩
  · rintro ⟨hgrid, hle, hready⟩
    obtain ⟨n, hn⟩ := hsound.finish.aligned g (lastSuccessfulFill_of_done hg)
    exact (filled_iff_of_done hg).mpr ⟨hgrid, le_of_lt_next hn hgrid (hend t hle hready)⟩

/-- The last time that is filled is known from the times that are. -/
theorem done_le_of_filled {g g' : ℤ} (hg : Done stat db g) (hg' : Done stat db' g')
    (h : Sound site stat T db) (h' : Sound site stat T db')
    (hfilled : ∀ t, Filled site stat db t → Filled site stat db' t) : g ≤ g' := by
  obtain ⟨n, hn⟩ := h.aligned g (lastSuccessfulFill_of_done hg)
  obtain ⟨m, hm⟩ := h'.aligned g' (lastSuccessfulFill_of_done hg')
  have hpos : 0 < stat.timeIncrement := timeIncrement_pos
  cases n with
  | zero =>
    have hnonneg : 0 ≤ (m : ℤ) * stat.timeIncrement := by positivity
    push_cast at hn
    linarith
  | succ n =>
    have hgrid : OnGrid site stat g := ⟨n, by rw [hn]; push_cast; ring⟩
    have hdone := hfilled g ((filled_iff_of_done hg).mpr ⟨hgrid, le_refl g⟩)
    exact ((filled_iff_of_done hg').mp hdone).2

/-- **A completed run** leaves what an uninterrupted one does. -/
theorem completed_like_uninterrupted (hstat : stat ∈ site.reg.stats) (h : Sound site stat T db)
    (hstep : step site (.process stat.property T none) db = (.completed, db')) :
    (∀ table t, db'.slice table stat.property t =
      (uninterrupted site stat T db).slice table stat.property t) ∧
    db'.fill_state stat.property = (uninterrupted site stat T db).fill_state stat.property ∧
    ∀ t, Filled site stat db' t ↔ OnGrid site stat t ∧ t ≤ T ∧ Ready site stat db' t := by
  have hown := own_not_dependency hstat
  have hfind := find_of_mem hstat
  have hprocess : ∀ d : Db δ, floorToHour T = T →
      ∃ program, processCountStat site stat T d = some program := by
    intro d haligned
    unfold processCountStat
    rw [if_neg (not_not.mpr haligned)]
    dsimp only
    split <;> exact ⟨_, rfl⟩
  unfold uninterrupted
  dsimp only [step] at hstep ⊢
  rw [hfind, Option.bind_some] at hstep ⊢
  cases hprogram : processCountStat site stat T db with
  | none =>
    rw [hprogram] at hstep
    cases hstep
  | some program =>
    rw [hprogram] at hstep
    cases hstep
    have haligned : floorToHour T = T := by
      unfold processCountStat at hprogram
      by_contra hne
      rw [if_pos hne] at hprogram
      cases hprogram
    obtain ⟨alone, halone⟩ := hprocess (db.forget stat) haligned
    rw [halone]
    obtain ⟨hs, hreads, hothers, g, hg, hfilled⟩ := filled_iff_of_completed hown hprogram h
    obtain ⟨hs', hreads', -, g', hg', hfilled'⟩ := filled_iff_of_completed hown halone sound_forget
    have hforget : SameReads stat (db.forget stat) db := sameReads_forget hown
    -- The same times are filled, since the same dependencies are.
    have hsame : ∀ t, Filled site stat (execute exec program db) t ↔
        Filled site stat (execute exec alone (db.forget stat)) t := by
      intro t
      rw [hfilled, hfilled', ready_of_sameOthers hown sameOthers_forget]
    refine ⟨?_, ?_, ?_⟩
    · intro table t
      have hread : SameReads stat (execute exec alone (db.forget stat)) (execute exec program db) :=
        hreads'.symm.trans (hforget.trans hreads)
      by_cases ht : Filled site stat (execute exec program db) t
      · rw [hs.filled t ht table, hs'.filled t ((hsame t).mp ht) table]
        exact slice_refilled hown (pulled_congr hread.data (hread.rows t) _)
          (fun table htable => hread.slice table t htable) table
      · by_cases htable : table ∈ stat.deletedTables
        · rw [hs.clean t ht (not_started_of_done hg) table htable,
            hs'.clean t (fun h' => ht ((hsame t).mpr h')) (not_started_of_done hg') table htable]
        · exact hread.slice table t htable
    · have hle := done_le_of_filled hg hg' hs hs' fun t => (hsame t).mp
      have hge := done_le_of_filled hg' hg hs' hs fun t => (hsame t).mpr
      rw [hg, hg', le_antisymm hle hge]
    · intro t
      rw [hfilled, ready_of_sameOthers hown hothers]

/-- **Crashes leave no trace.**  After any history of runs that may crash, of this and of other
statistics, a dependent statistic is filled up to its dependencies at most.  A further run that
completes leaves the same rows and the same state as one run that nothing interrupts, and it has
filled exactly the times up to which the dependencies are. -/
theorem crashes_leave_no_trace (site : Site δ) (data : δ) (stat : CountStat δ)
    (hstat : stat ∈ site.reg.stats) (inputs : List (Input δ)) (T : ℤ)
    (hfixed : ∀ e ∈ history (step site) (start data) inputs, Fixed site e.pre e.input)
    (hup : ∀ e ∈ history (step site) (start data) inputs, UpTo stat T e.input) :
    (∀ t, Filled site stat (run (step site) (start data) inputs) t →
      Ready site stat (run (step site) (start data) inputs) t) ∧
    ∀ db', step site (.process stat.property T none) (run (step site) (start data) inputs) =
      (.completed, db') →
      (∀ table t, db'.slice table stat.property t =
        (uninterrupted site stat T (run (step site) (start data) inputs)).slice table
          stat.property t) ∧
      db'.fill_state stat.property =
        (uninterrupted site stat T (run (step site) (start data) inputs)).fill_state
          stat.property ∧
      ∀ t, Filled site stat db' t ↔ OnGrid site stat t ∧ t ≤ T ∧ Ready site stat db' t := by
  have hmeets : ∀ e ∈ history (step site) (start data) inputs,
      (fun i d => Fixed site d i ∧ UpTo stat T i) e.input e.pre :=
    fun e he => ⟨hfixed e he, hup e he⟩
  have hsound : Sound site stat T (run (step site) (start data) inputs) :=
    (history_inv_of (step site) (start data) inputs (sound_start data) hmeets
      fun i d hmeets hd => sound_step hstat i hmeets hd).1
  refine ⟨fun t ht => (hsound.within t (.inl ht)).2, ?_⟩
  intro db' hstep
  exact completed_like_uninterrupted hstat hsound hstep

/-- Every hour, five messages of one user. -/
def messagesSent : CountStat Unit where
  property := "messages_sent:is_bot:hour"
  kind := .sql fun _ _ _ => [⟨some 1, some 1, none, 5⟩]
  frequency := .hour
  interval := hours
  output_table := .userCount
  stored := rfl

/-- A site with this statistic only, and its realm created in the hour of the epoch. -/
def oneStat : Site Unit where
  reg :=
    { stats := [messagesSent]
      unique := by decide
      declared := by simp [messagesSent, CountStat.dependencies] }
  earliest_realm_creation := 1800000000

theorem crashes_leave_no_trace_hourly :
    ((step oneStat (.process messagesSent.property (2 * hours) none)
      (run (step oneStat) (start ())
        [.process messagesSent.property (2 * hours) (some 3)])).2.slice .realmCount
          messagesSent.property hours =
      (uninterrupted oneStat messagesSent (2 * hours) (run (step oneStat) (start ())
        [.process messagesSent.property (2 * hours) (some 3)])).slice .realmCount
          messagesSent.property hours) ∧
    (step oneStat (.process messagesSent.property (2 * hours) none)
      (run (step oneStat) (start ())
        [.process messagesSent.property (2 * hours) (some 3)])).2.slice .realmCount
          messagesSent.property hours =
      [⟨messagesSent.property, hours, ⟨none, some 1, none, 5⟩⟩] := by
  refine ⟨?_, by decide⟩
  have h := crashes_leave_no_trace oneStat () messagesSent mem_cons_self
    [.process messagesSent.property (2 * hours) (some 3)] (2 * hours)
    (by
      simp only [history, forall_mem_cons]
      exact ⟨trivial, by simp⟩)
    (by
      simp only [history, forall_mem_cons]
      exact ⟨fun _ => le_refl _, by simp⟩)
  exact (h.2 _ (Prod.ext (by decide) rfl)).1 .realmCount hours

end GrowTeam.Analytics
