/-
# Filled times hold what an uninterrupted run writes

`Sound` is the invariant of one statistic: its filled times hold what filling them anew would write,
the announced time may hold anything, and nothing was written for other times.  The runs of the
statistic keep it, and so do the runs of the others, since they change the rows of a time only
before they are filled up to it.
-/
import GrowTeam.Analytics.Fills
import Mathlib.Tactic.Positivity
import Mathlib.Tactic.Ring

namespace GrowTeam.Analytics

open Crashes CountStat

variable {δ : Type} (site : Site δ) (stat : CountStat δ)

/-- A time at which the statistic ends an interval. -/
def OnGrid (t : ℤ) : Prop :=
  ∃ n : ℕ, t = site.installationEpoch + (n + 1) * stat.timeIncrement

/-- The time is done. -/
def Filled (db : Db δ) (t : ℤ) : Prop :=
  OnGrid site stat t ∧ ∃ f, stat.lastSuccessfulFill db = some f ∧ t ≤ f

/-- The invariant of a statistic whose runs go up to `T`. -/
structure Sound (T : ℤ) (db : Db δ) : Prop where
  aligned : ∀ f, stat.lastSuccessfulFill db = some f →
    ∃ n : ℕ, f = site.installationEpoch + n * stat.timeIncrement
  within : ∀ t, Filled site stat db t ∨ Started stat db t → t ≤ T ∧ Ready site stat db t
  filled : ∀ t, Filled site stat db t → ∀ table,
    db.slice table stat.property t = (refilled stat t db).slice table stat.property t
  clean : ∀ t, ¬ Filled site stat db t → ¬ Started stat db t →
    ∀ table ∈ stat.deletedTables, db.slice table stat.property t = []

variable {site stat} {T : ℤ} {db db' : Db δ} {t e f : ℤ}

theorem lastSuccessfulFill_of_none (h : db.fill_state stat.property = none) :
    stat.lastSuccessfulFill db = none := by
  rw [lastSuccessfulFill, h]

theorem lastSuccessfulFill_of_done (h : Done stat db f) : stat.lastSuccessfulFill db = some f := by
  rw [lastSuccessfulFill, h]

theorem lastSuccessfulFill_of_started (h : Started stat db e) :
    stat.lastSuccessfulFill db = some (e - stat.timeIncrement) := by
  rw [lastSuccessfulFill, h]

theorem not_filled_of_none (h : db.fill_state stat.property = none) : ¬ Filled site stat db t := by
  rintro ⟨-, f, hf, -⟩
  rw [lastSuccessfulFill_of_none h] at hf
  cases hf

theorem filled_iff_of_done (h : Done stat db f) :
    Filled site stat db t ↔ OnGrid site stat t ∧ t ≤ f := by
  unfold Filled
  rw [lastSuccessfulFill_of_done h]
  simp

theorem filled_iff_of_started (h : Started stat db e) :
    Filled site stat db t ↔ OnGrid site stat t ∧ t ≤ e - stat.timeIncrement := by
  unfold Filled
  rw [lastSuccessfulFill_of_started h]
  simp

theorem started_unique (h : Started stat db e) (ht : Started stat db t) : t = e := by
  unfold Started at h ht
  rw [h] at ht
  cases ht
  rfl

theorem not_started_of_done (h : Done stat db f) : ¬ Started stat db t := by
  intro ht
  unfold Started at ht
  rw [h] at ht
  cases ht

/-- Nothing is filled at the epoch. -/
theorem not_onGrid_of_le (h : t ≤ site.installationEpoch) : ¬ OnGrid site stat t := by
  rintro ⟨n, rfl⟩
  have hpos : 0 < stat.timeIncrement := timeIncrement_pos
  have hmul : 0 < ((n : ℤ) + 1) * stat.timeIncrement := by positivity
  omega

/-- Times between two neighbours are not on the grid. -/
theorem le_of_lt_next {n : ℕ} (hf : f = site.installationEpoch + n * stat.timeIncrement)
    (ht : OnGrid site stat t) (hlt : t < f + stat.timeIncrement) : t ≤ f := by
  obtain ⟨m, rfl⟩ := ht
  have hpos : 0 < stat.timeIncrement := timeIncrement_pos
  have hmul : ((m : ℤ) + 1) * stat.timeIncrement < (n + 1) * stat.timeIncrement := by linarith
  have hmn : ((m : ℤ) + 1) < n + 1 := lt_of_mul_lt_mul_right hmul hpos.le
  have hle : ((m : ℤ) + 1) ≤ n := by omega
  have := mul_le_mul_of_nonneg_right hle hpos.le
  linarith

/-! ## The statistic's own runs -/

theorem slice_refilled_of_differs (hown : stat.property ∉ stat.dependencies)
    (h : Differs stat.property e db db') (hne : t ≠ e) (table : Table) :
    (refilled stat t db').slice table stat.property t =
      (refilled stat t db).slice table stat.property t := by
  refine slice_refilled hown (pulled_of_differs hown h _) ?_ table
  intro table _
  exact h.slice table _ _ fun hand => hne hand.2

/-- A change of the own state row leaves what filling writes. -/
theorem slice_refilled_set (s : FillState) (property : String)
    (hown : stat.property ∉ stat.dependencies) (table : Table) :
    (refilled stat t (db.setFillState property s)).slice table stat.property t =
      (refilled stat t db).slice table stat.property t := by
  refine slice_refilled hown ?_ ?_ table
  · exact pulled_congr rfl rfl _
  · exact fun _ _ => rfl

section

variable (hown : stat.property ∉ stat.dependencies)

include hown

theorem ready_of_sameOthers
    (h : SameOthers stat db db') : Ready site stat db' t ↔ Ready site stat db t :=
  ready_congr fun dependency hd => h dependency fun heq => hown (heq ▸ hd)

/-- Rows of a time that is not filled may change, as long as only an announced time gets rows. -/
theorem sound_of_differs (h : Sound site stat T db)
    (hdiffers : Differs stat.property e db db') (hopen : ¬ Filled site stat db e)
    (hclean : Started stat db e ∨ ∀ table ∈ stat.deletedTables,
      db'.slice table stat.property e = db.slice table stat.property e) :
    Sound site stat T db' := by
  have hlast : stat.lastSuccessfulFill db' = stat.lastSuccessfulFill db := by
    rw [lastSuccessfulFill, lastSuccessfulFill, hdiffers.fill_state]
  have hfilled : ∀ t, Filled site stat db' t ↔ Filled site stat db t := by
    intro t
    unfold Filled
    rw [hlast]
  have hst : ∀ t, Started stat db' t ↔ Started stat db t := by
    intro t
    unfold Started
    rw [hdiffers.fill_state]
  have hready : ∀ t, Ready site stat db' t ↔ Ready site stat db t := fun t =>
    ready_congr fun _ _ => congrFun hdiffers.fill_state _
  refine ⟨?_, ?_, ?_, ?_⟩
  · intro f hf
    exact h.aligned f (hlast ▸ hf)
  · intro t ht
    rw [hfilled, hst] at ht
    rw [hready]
    exact h.within t ht
  · intro t ht table
    rw [hfilled] at ht
    have hne : t ≠ e := fun heq => hopen (heq ▸ ht)
    rw [slice_refilled_of_differs hown hdiffers hne, hdiffers.slice table _ _ fun hand =>
      hne hand.2]
    exact h.filled t ht table
  · intro t hnf hns table htable
    rw [hfilled] at hnf
    rw [hst] at hns
    by_cases hte : t = e
    · subst hte
      rcases hclean with hstarted | hsame
      · exact absurd hstarted hns
      · rw [hsame table htable]
        exact h.clean t hnf hns table htable
    · rw [hdiffers.slice table _ _ fun hand => hte hand.2]
      exact h.clean t hnf hns table htable

/-- Filling a time for the first time writes what filling it anew would. -/
theorem slice_first_fill {mid : Db δ} (hdone : Done stat db f) (h : Sound site stat T db)
    (hmid : mid = execute exec (doFillCountStatAtHour stat (f + stat.timeIncrement))
      (db.setFillState stat.property ⟨f + stat.timeIncrement, .started⟩)) (table : Table) :
    mid.slice table stat.property (f + stat.timeIncrement) =
      (refilled stat (f + stat.timeIncrement) mid).slice table stat.property
        (f + stat.timeIncrement) := by
  let started := db.setFillState stat.property ⟨f + stat.timeIncrement, .started⟩
  have hpos : 0 < stat.timeIncrement := timeIncrement_pos
  have hnot : ¬ Filled site stat db (f + stat.timeIncrement) := by
    rw [filled_iff_of_done hdone]
    omega
  have hempty := h.clean _ hnot (not_started_of_done hdone)
  -- Deleting changes nothing before the first fill.
  have hdeleted : SameAt stat (f + stat.timeIncrement)
      started
      (execute exec (doDeleteCountsAtHour stat (f + stat.timeIncrement)) started) := by
    refine ⟨pulled_of_differs hown (differs_execute fun c hc => .inl hc) _, ?_⟩
    intro table
    unfold doDeleteCountsAtHour
    rw [slice_deleted]
    split
    · exact (hempty table ‹_›).symm
    · rfl
  have hfill := (sameAt_execute hown (fun c hc => hc) hdeleted).slice table
  have hdiffers : Differs stat.property (f + stat.timeIncrement)
      started
      (execute exec (doFillCountStatAtHour stat (f + stat.timeIncrement)) started) :=
    differs_execute fun c hc => .inr hc
  have hagain := slice_refilled (t := f + stat.timeIncrement) hown
    (pulled_of_differs hown hdiffers _)
    (fun table htable => slice_filled_other (fun c hc => .inr hc) htable) table
  rw [hmid, hagain]
  exact hfill.symm

/-- **A run of the statistic** keeps its invariant. -/
theorem kept_sound : Kept site stat T (Sound site stat T) where
  create db hnone h := by
    have hdone : Done stat (db.setFillState stat.property ⟨site.installationEpoch, .done⟩)
        site.installationEpoch := done_set
    have hempty : ∀ t, ¬ Filled site stat
        (db.setFillState stat.property ⟨site.installationEpoch, .done⟩) t := by
      intro t ht
      rw [filled_iff_of_done hdone] at ht
      exact not_onGrid_of_le ht.2 ht.1
    refine ⟨?_, ?_, ?_, ?_⟩
    · intro f hf
      rw [lastSuccessfulFill_of_done hdone] at hf
      cases hf
      exact ⟨0, by simp⟩
    · rintro t (ht | ht)
      · exact absurd ht (hempty t)
      · exact absurd ht (not_started_of_done hdone)
    · exact fun t ht => absurd ht (hempty t)
    · intro t _ _ table htable
      refine h.clean t (not_filled_of_none hnone) ?_ table htable
      intro hs
      unfold Started at hs
      rw [hnone] at hs
      cases hs
  count db db' e hstarted hdiffers _ h := by
    refine sound_of_differs hown h hdiffers ?_ (.inl hstarted)
    intro ht
    have hpos : 0 < stat.timeIncrement := timeIncrement_pos
    have hle := ((filled_iff_of_started hstarted).mp ht).2
    omega
  undone db e hstarted hempty h := by
    have hdone : Done stat
        (db.setFillState stat.property ⟨e - stat.timeIncrement, .done⟩) (e - stat.timeIncrement) :=
      done_set
    have hfilled : ∀ t, Filled site stat
        (db.setFillState stat.property ⟨e - stat.timeIncrement, .done⟩) t ↔
          Filled site stat db t := fun t => by
      rw [filled_iff_of_done hdone, filled_iff_of_started hstarted]
    refine ⟨?_, ?_, ?_, ?_⟩
    · intro f hf
      rw [lastSuccessfulFill_of_done hdone] at hf
      exact h.aligned f (by rw [lastSuccessfulFill_of_started hstarted, hf])
    · rintro t (ht | ht)
      · rw [ready_of_sameOthers hown (sameOthers_set _)]
        exact h.within t (.inl ((hfilled t).mp ht))
      · exact absurd ht (not_started_of_done hdone)
    · intro t ht table
      rw [slice_refilled_set _ _ hown]
      exact h.filled t ((hfilled t).mp ht) table
    · intro t hnf _ table htable
      by_cases hte : t = e
      · rw [hte]
        exact hempty table htable
      · exact h.clean t (fun ht => hnf ((hfilled t).mpr ht))
          (fun ht => hte (started_unique hstarted ht)) table htable
  start db f hdone hle hready h := by
    have hstarted : Started stat
        (db.setFillState stat.property ⟨f + stat.timeIncrement, .started⟩)
          (f + stat.timeIncrement) := started_set
    have hfilled : ∀ t, Filled site stat
        (db.setFillState stat.property ⟨f + stat.timeIncrement, .started⟩) t ↔
          Filled site stat db t := fun t => by
      rw [filled_iff_of_done hdone, filled_iff_of_started hstarted, add_sub_cancel_right]
    refine ⟨?_, ?_, ?_, ?_⟩
    · intro g hg
      rw [lastSuccessfulFill_of_started hstarted, add_sub_cancel_right] at hg
      exact h.aligned g (by rw [lastSuccessfulFill_of_done hdone, hg])
    · rintro t (ht | ht)
      · rw [ready_of_sameOthers hown (sameOthers_set _)]
        exact h.within t (.inl ((hfilled t).mp ht))
      · rw [ready_of_sameOthers hown (sameOthers_set _), started_unique hstarted ht]
        exact ⟨hle, hready⟩
    · intro t ht table
      rw [slice_refilled_set _ _ hown]
      exact h.filled t ((hfilled t).mp ht) table
    · intro t hnf _ table htable
      exact h.clean t (fun ht => hnf ((hfilled t).mpr ht)) (not_started_of_done hdone) table htable
  done db f mid hdone h hmid hP := by
    obtain ⟨n, hn⟩ := h.aligned f (lastSuccessfulFill_of_done hdone)
    have hpos : 0 < stat.timeIncrement := timeIncrement_pos
    have hcounts : ∀ c ∈ doFillCountStatAtHour stat (f + stat.timeIncrement),
        CountsAt stat (f + stat.timeIncrement) c := fun c hc => .inr hc
    have hdiffers : Differs stat.property (f + stat.timeIncrement)
        (db.setFillState stat.property ⟨f + stat.timeIncrement, .started⟩) mid := by
      rw [hmid]
      exact differs_execute hcounts
    have hstarted : Started stat mid (f + stat.timeIncrement) := by
      unfold Started
      rw [hdiffers.fill_state]
      exact started_set
    have hdone' : Done stat
        (mid.setFillState stat.property ⟨f + stat.timeIncrement, .done⟩)
          (f + stat.timeIncrement) := done_set
    -- The times that are done now are those that were done and the one that was announced.
    have hsplit : ∀ t, Filled site stat
        (mid.setFillState stat.property ⟨f + stat.timeIncrement, .done⟩) t →
          Filled site stat mid t ∨ t = f + stat.timeIncrement := by
      intro t ht
      obtain ⟨hgrid, hle⟩ := (filled_iff_of_done hdone').mp ht
      rcases hle.lt_or_eq with hlt | heq
      · left
        rw [filled_iff_of_started hstarted, add_sub_cancel_right]
        exact ⟨hgrid, le_of_lt_next hn hgrid hlt⟩
      · exact .inr heq
    have hnew : Filled site stat
        (mid.setFillState stat.property ⟨f + stat.timeIncrement, .done⟩)
          (f + stat.timeIncrement) := by
      refine (filled_iff_of_done hdone').mpr ⟨⟨n, ?_⟩, le_refl _⟩
      rw [hn]
      ring
    refine ⟨?_, ?_, ?_, ?_⟩
    · intro g hg
      rw [lastSuccessfulFill_of_done hdone'] at hg
      cases hg
      refine ⟨n + 1, ?_⟩
      rw [hn]
      push_cast
      ring
    · rintro t (ht | ht)
      · rw [ready_of_sameOthers hown (sameOthers_set _)]
        rcases hsplit t ht with hold | rfl
        · exact hP.within t (.inl hold)
        · exact hP.within _ (.inr hstarted)
      · exact absurd ht (not_started_of_done hdone')
    · intro t ht table
      rw [slice_refilled_set _ _ hown]
      rcases hsplit t ht with hold | rfl
      · exact hP.filled t hold table
      · exact slice_first_fill hown hdone h hmid table
    · intro t hnf _ table htable
      refine hP.clean t ?_ ?_ table htable
      · intro ht
        apply hnf
        obtain ⟨hgrid, hle⟩ := (filled_iff_of_started hstarted).mp ht
        exact (filled_iff_of_done hdone').mpr ⟨hgrid, by omega⟩
      · intro ht
        rw [started_unique hstarted ht] at hnf
        exact hnf hnew

end

end GrowTeam.Analytics
