/-
# The calls that are left (`get_api_calls_left` of `zerver/lib/rate_limiter.py`)

What is reported between requests is worked out from the stored time by other code than the script.
It does not count a stored time in the past as now, so it is right while the meter has not
drained, or once its key is gone.
-/
import GrowTeam.RateLimiter.Promise

namespace GrowTeam.RateLimiter

open Function Gcra

variable {rules : List Rule} {rule last : Rule} {s : Store} {now : ℚ} {gone : ℚ → ℚ → Bool}

def getRules (rules : List Rule) : List Rule :=
  if rules.isEmpty then [⟨1, 9999, by decide⟩] else rules

/-- `get_api_calls_left`, which takes the window and the limit of a rule. -/
def getApiCallsLeft (rule : Rule) (s : Store) (now : ℚ) : ℕ × ℚ :=
  match s.tats rule.field with
  | none => (rule.limit, 0)
  | some tat => (⌊(now + rule.window - tat) * rule.limit / rule.window⌋.toNat, tat - now)

/-- `api_calls_left`: the rule of `max_api_window` and `max_api_calls` is the last one. -/
def apiCallsLeft (gone : ℚ → ℚ → Bool) (rules : List Rule) (s : Store) (now : ℚ) :
    Option (ℕ × ℚ) :=
  (getRules rules).getLast?.map fun last => getApiCallsLeft last (s.find gone now) now

/-- As many requests, one right after the other, pass the check of the rule. -/
def Rule.Admits (rule : Rule) (now : ℚ) : ℕ → Store → Prop
  | 0, _ => True
  | n + 1, s => rule.overflows s now = false ∧
      rule.Admits now n { s with tats := update s.tats rule.field (rule.newTat s now) }

/-- The meter of the rule has room for that many requests. -/
theorem admits_iff (n : ℕ) : rule.Admits now n s ↔
    n = 0 ∨ rule.limit ≠ 0 ∧ rule.tat s now + n * rule.interval ≤ now + rule.window := by
  induction n generalizing s with
  | zero => simp [Rule.Admits]
  | succ n ih =>
    rw [Rule.Admits, ih, overflows_eq_false, Nat.cast_add, Nat.cast_one, add_mul, one_mul]
    by_cases hlimit : rule.limit = 0
    · simp [hlimit]
    have hpos := Rule.interval_pos hlimit
    have hnow : now ≤ rule.tat s now := right_le_later
    have htat : rule.tat { s with
        tats := update s.tats rule.field (rule.newTat s now) } now =
        rule.tat s now + rule.interval := by
      rw [Rule.tat]
      dsimp only
      rw [update_self, newTat_of_limit hlimit, Option.getD_some]
      exact later_of_lt (lt_of_le_of_lt hnow (lt_add_of_pos_right _ hpos))
    have hn : 0 ≤ (n : ℚ) * rule.interval := mul_nonneg (Nat.cast_nonneg _) hpos.le
    rw [htat]
    constructor
    · rintro ⟨⟨-, hroom⟩, rfl | ⟨-, hmore⟩⟩
      · refine .inr ⟨hlimit, ?_⟩
        rw [Nat.cast_zero, zero_mul, zero_add]
        exact hroom
      · exact .inr ⟨hlimit, by linarith⟩
    · rintro (hzero | ⟨-, hmore⟩)
      · cases hzero
      · exact ⟨⟨hlimit, by linarith⟩, .inr ⟨hlimit, by linarith⟩⟩

theorem admits_iff_le (n : ℕ) : rule.Admits now n s ↔
    n ≤ ⌊(now + rule.window - rule.tat s now) * rule.limit / rule.window⌋.toNat := by
  have hwindow : (0 : ℚ) < rule.window := Nat.cast_pos.mpr rule.window_pos
  rw [admits_iff]
  rcases Nat.eq_zero_or_pos n with rfl | hn
  · simp
  by_cases hlimit : rule.limit = 0
  · simp [hlimit]
  have hpos : (0 : ℚ) < rule.limit := Nat.cast_pos.mpr (Nat.pos_of_ne_zero hlimit)
  have hnat : ∀ z : ℤ, n ≤ z.toNat ↔ (n : ℤ) ≤ z := fun z => by omega
  rw [hnat, Int.le_floor, le_div_iff₀ hwindow, Int.cast_natCast]
  have hrate : (n : ℚ) * rule.interval * rule.limit = n * rule.window := by
    unfold Rule.interval
    field_simp
  rw [← hrate, mul_le_mul_iff_left₀ hpos]
  constructor
  · rintro (hzero | ⟨-, hroom⟩)
    · omega
    · linarith
  · exact fun hroom => .inr ⟨hlimit, by linarith⟩

/-- The report is real: so many requests and no more would be accepted now, and all of the limit
after the reset time. -/
structure Real (gone : ℚ → ℚ → Bool) (rule : Rule) (s : Store) (now : ℚ) (left : ℕ × ℚ) :
    Prop where
  exact : ∀ n, rule.Admits now n (s.find gone now) ↔ n ≤ left.1
  le : left.1 ≤ rule.limit
  nonneg : 0 ≤ left.2
  full : ∀ n, rule.Admits (now + left.2) n ((s.find gone now).find gone (now + left.2)) ↔
    n ≤ rule.limit

theorem floor_limit : ⌊(now + rule.window - now) * rule.limit / rule.window⌋.toNat = rule.limit := by
  have hwindow : (rule.window : ℚ) ≠ 0 := Nat.cast_ne_zero.mpr rule.window_pos.ne'
  rw [add_sub_cancel_left, mul_div_cancel_left₀ _ hwindow, Int.floor_natCast, Int.toNat_natCast]

/-- The meter has drained at its time. -/
theorem tat_of_drained {t : ℚ} (h : rule.tat s now ≤ t) : rule.tat s t = t := by
  unfold Rule.tat at h ⊢
  cases hstored : s.tats rule.field with
  | none => exact later_of_le le_rfl
  | some tat =>
    rw [hstored] at h
    exact later_of_le (left_le_later.trans h)

/-- What the script itself would report of the meter is real. -/
theorem real_of_tat (hgone : ∀ deadline now, gone deadline now = true → deadline ≤ now)
    (hlasting : Lasting rules (s.find gone now)) {tat : ℚ}
    (htat : rule.tat (s.find gone now) now = tat) :
    Real gone rule s now
      (⌊(now + rule.window - tat) * rule.limit / rule.window⌋.toNat, tat - now) where
  exact n := by rw [admits_iff_le, htat]
  le := by
    have hnow : now ≤ tat := htat ▸ right_le_later
    refine (Int.toNat_le_toNat (Int.floor_mono ?_)).trans_eq (@floor_limit rule now)
    have hwindow : (0 : ℚ) ≤ rule.window := Nat.cast_nonneg _
    gcongr
  nonneg := sub_nonneg.mpr (htat ▸ right_le_later)
  full n := by
    rw [admits_iff_le, tat_find hlasting hgone le_rfl, add_sub_cancel, tat_of_drained htat.le,
      floor_limit]

/-- **The remaining calls are real** exactly when the time that is stored for the rule, if any,
has not passed. -/
theorem callsLeft_real_iff (hgone : ∀ deadline now, gone deadline now = true → deadline ≤ now)
    (rules : List Rule) {past : List ℚ} (hclock : (past ++ [now]).Pairwise (· ≤ ·)) :
    ∃ last left, (getRules rules).getLast? = some last ∧
      apiCallsLeft gone rules (stateAfter gone (getRules rules) past) now = some left ∧
        (Real gone last (stateAfter gone (getRules rules) past) now left ↔
          ∀ tat ∈ ((stateAfter gone (getRules rules) past).find gone now).tats last.field,
            now ≤ tat) := by
  have hrules : getRules rules ≠ [] := by
    unfold getRules
    split
    · simp
    · next h => simpa using h
  obtain ⟨last, hlast⟩ : ∃ last, (getRules rules).getLast? = some last :=
    ⟨_, List.getLast?_eq_some_getLast hrules⟩
  have hlasting : Lasting (getRules rules) ((stateAfter gone (getRules rules) past).find gone now) :=
    (same_stateAfter hgone hclock).lasting.find
  refine ⟨last, _, hlast, by rw [apiCallsLeft, hlast]; rfl, ?_⟩
  generalize stateAfter gone (getRules rules) past = s at hlasting ⊢
  have hreal := fun tat (htat : last.tat (s.find gone now) now = tat) =>
    real_of_tat hgone hlasting htat
  unfold Rule.tat at hreal
  dsimp only [getApiCallsLeft]
  cases hstored : (s.find gone now).tats last.field with
  | none =>
    rw [hstored] at hreal
    have hdrained := hreal now (Gcra.later_of_le le_rfl)
    rw [floor_limit, sub_self] at hdrained
    exact iff_of_true hdrained (by simp)
  | some tat =>
    rw [hstored] at hreal
    constructor
    · rintro hreport _ ⟨rfl⟩
      exact sub_nonneg.mp hreport.nonneg
    · intro hlater
      refine hreal tat ?_
      rw [Option.getD_some, Gcra.later]
      split
      · next hle => exact le_antisymm (hlater tat rfl) hle
      · rfl

/-- Ten requests a second. -/
def tenASecond : List Rule := [⟨1, 10, by decide⟩]

/-- Redis drops keys as soon as they expire. -/
def promptly (deadline now : ℚ) : Bool := decide (deadline ≤ now)

theorem callsLeft_real_tenASecond :
    apiCallsLeft promptly tenASecond (stateAfter promptly tenASecond [0]) 0 = some (9, 1 / 10) ∧
      Real promptly ⟨1, 10, by decide⟩ (stateAfter promptly tenASecond [0]) 0 (9, 1 / 10) := by
  have hleft : apiCallsLeft promptly tenASecond (stateAfter promptly tenASecond [0]) 0 =
      some (9, 1 / 10) := by
    decide +kernel
  obtain ⟨last, left, hlast, hreport, hreal⟩ :=
    @callsLeft_real_iff 0 promptly (fun _ _ h => of_decide_eq_true h) tenASecond [0] (by simp)
  cases hlast
  cases hleft.symm.trans hreport
  refine ⟨hleft, hreal.mpr fun tat htat => ?_⟩
  have hstored : ((stateAfter promptly tenASecond [0]).find promptly 0).tats (1, 10) =
      some (1 / 10) := by
    decide +kernel
  cases hstored.symm.trans htat
  norm_num

/-- The key of the meter is still there half a second later, when the meter has drained. -/
theorem callsLeft_beyond_limit :
    apiCallsLeft promptly tenASecond (stateAfter promptly tenASecond [0]) (1 / 2) =
        some (14, - 2 / 5) ∧
      ¬ Real promptly ⟨1, 10, by decide⟩ (stateAfter promptly tenASecond [0]) (1 / 2)
        (14, - 2 / 5) :=
  ⟨by decide +kernel, fun hreal => absurd hreal.le (by decide)⟩

end GrowTeam.RateLimiter
