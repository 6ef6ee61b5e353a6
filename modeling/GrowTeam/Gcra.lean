/-
# The generic cell rate algorithm

A meter keeps the time at which it would be empty, the theoretical arrival time.  A request that is
let through moves this time on by the emission interval, counted from now if it lies in the past,
and may not move it further than a window into the future.  Nothing in this file mentions what is
metered or where the time is kept.

* `Paced` is a sequence of requests that were let through, with the times they leave;
* `Paced.countIn_mul_le` bounds how many of them fall into an interval of any length;
* `later_add_le_of_wait` says how long to wait to be let through.
-/
import Mathlib.Algebra.Order.Field.Basic
import Mathlib.Tactic.Linarith

namespace Gcra

variable {K : Type} [Field K] [LinearOrder K] [IsStrictOrderedRing K]
  {interval window tat now start length wait a b : K} {stored : Option K} {times : List K}

/-- The later of two times. -/
def later (a b : K) : K := if a ≤ b then b else a

/-- How many of some times are in an interval. -/
def countIn (start length : K) (times : List K) : ℕ :=
  times.countP fun now => start ≤ now ∧ now ≤ start + length

/-- Requests that were let through, the last one first, and the time that they leave. -/
inductive Paced (interval window : K) : Option K → List K → Prop where
  | start (stored : Option K) : Paced interval window stored []
  | accept {stored : Option K} {times : List K} (now tat : K) :
      Paced interval window stored times → (∀ before ∈ stored, before + interval ≤ tat) →
      now + interval ≤ tat → tat ≤ now + window → Paced interval window (some tat) (now :: times)

omit [Field K] [IsStrictOrderedRing K] in
theorem left_le_later : a ≤ later a b := by
  unfold later
  split
  · assumption
  · exact le_rfl

omit [Field K] [IsStrictOrderedRing K] in
theorem right_le_later : b ≤ later a b := by
  unfold later
  split
  · exact le_rfl
  · exact (not_le.mp ‹_›).le

omit [Field K] [IsStrictOrderedRing K] in
theorem later_of_le (h : a ≤ b) : later a b = b := if_pos h

omit [Field K] [IsStrictOrderedRing K] in
theorem later_of_lt (h : b < a) : later a b = a := if_neg (not_le.mpr h)

omit [IsStrictOrderedRing K] in
theorem countIn_cons :
    countIn start length (now :: times) =
      countIn start length times + if start ≤ now ∧ now ≤ start + length then 1 else 0 := by
  unfold countIn
  rw [List.countP_cons]
  by_cases h : start ≤ now ∧ now ≤ start + length
  · rw [if_pos h, if_pos (decide_eq_true h)]
  · rw [if_neg h, if_neg (by simpa using h)]

/-- The requests of an interval have moved the time on since its start. -/
theorem Paced.start_add_le (h : Paced interval window stored times) (hinterval : 0 ≤ interval) :
    countIn start length times = 0 ∨
      (countIn start length times * interval ≤ length + window ∧
        ∃ tat ∈ stored, start + countIn start length times * interval ≤ tat) := by
  induction h with
  | start => exact .inl rfl
  | @accept stored times now tat _ hbefore hnow hwindow ih =>
    rw [countIn_cons]
    by_cases hin : start ≤ now ∧ now ≤ start + length
    · rw [if_pos hin, Nat.cast_add, Nat.cast_one, add_mul, one_mul]
      have hfill : start + (countIn start length times * interval + interval) ≤ tat := by
        rcases ih with hzero | ⟨-, before, hstored, hle⟩
        · rw [hzero, Nat.cast_zero]
          linarith [hin.1]
        · linarith [hbefore before hstored]
      exact .inr ⟨by linarith [hin.2], tat, rfl, hfill⟩
    · rw [if_neg hin, Nat.add_zero]
      refine ih.imp_right fun ⟨hcount, before, hstored, hle⟩ => ⟨hcount, tat, rfl, ?_⟩
      linarith [hbefore before hstored]

variable (start) in
/-- At most as many requests fall into an interval as its length and the window have room for. -/
theorem Paced.countIn_mul_le (h : Paced interval window stored times)
    (hinterval : 0 ≤ interval) (hwindow : 0 ≤ window) (hlength : 0 ≤ length) :
    countIn start length times * interval ≤ length + window := by
  rcases h.start_add_le hinterval with hzero | ⟨hcount, -⟩
  · rw [hzero, Nat.cast_zero, zero_mul]
    exact add_nonneg hlength hwindow
  · exact hcount

/-- A request after the time that is missing is let through. -/
theorem later_add_le_of_wait (hinterval : interval ≤ window)
    (hmissing : later tat now + interval ≤ now + window + wait) :
    later tat (now + wait) + interval ≤ now + wait + window := by
  by_cases hle : tat ≤ now + wait
  · rw [later_of_le hle]
    linarith
  · rw [later_of_lt (not_le.mp hle)]
    have htat : tat ≤ later tat now := left_le_later
    linarith

end Gcra
