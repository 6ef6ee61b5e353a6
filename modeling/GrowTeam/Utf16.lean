import Mathlib.Data.List.Lex
import Mathlib.Order.Fin.Basic
import Mathlib.Tactic.Common

/-!
# UTF-16 code units and code points

One string seen in two ways: as the sequence of its UTF-16 code units, and as
the sequence of its code points, in which a surrogate without its other half
stands for itself.  The two orders on strings, unit by unit and point by point,
differ only where a point of `U+E000`..`U+FFFF` meets a point above `U+FFFF`.
-/

namespace Utf16

open List
open Bool (and_eq_true and_eq_false_iff)

abbrev CodeUnit := Fin 0x10000

-- one instance for every numeral of a code unit, whatever else is imported
instance CodeUnit.neZero : @NeZero ℕ Zero.ofOfNat0 0x10000 := ⟨Nat.succ_ne_zero 0xFFFF⟩

def isHigh (u : CodeUnit) : Bool := 0xD800 ≤ u.val && u.val < 0xDC00

def isLow (u : CodeUnit) : Bool := 0xDC00 ≤ u.val && u.val < 0xE000

def isSurrogate (p : ℕ) : Bool := 0xD800 ≤ p && p < 0xE000

/-- The point that a high and a low surrogate encode together. -/
def joined (high low : CodeUnit) : ℕ :=
  0x10000 + (high.val - 0xD800) * 0x400 + (low.val - 0xDC00)

/-- The code points of a string; a surrogate that stands alone is left as it is. -/
def decode : List CodeUnit → List ℕ
  | [] => []
  | [u] => [u.val]
  | u :: w :: rest =>
    if isHigh u && isLow w then joined u w :: decode rest else u.val :: decode (w :: rest)

/-- No surrogate stands alone. -/
def Paired (s : List CodeUnit) : Prop := ∀ p ∈ decode s, isSurrogate p = false

instance (s : List CodeUnit) : Decidable (Paired s) :=
  inferInstanceAs (Decidable (∀ p ∈ decode s, isSurrogate p = false))

/-- At the first place where they differ, the first string has a point of
`U+E000`..`U+FFFF` and the second a point above `U+FFFF`. -/
def crossed : List ℕ → List ℕ → Bool
  | a :: p, b :: q =>
    if a = b then crossed p q else 0xE000 ≤ a && a < 0x10000 && 0x10000 ≤ b
  | _, _ => false

/-- The order of code units as an order of points: those of `U+E000`..`U+FFFF` go last. -/
def rank (p : ℕ) : ℕ := if 0xE000 ≤ p ∧ p < 0x10000 then p + 0x110000 else p

/-! ## Decoding -/

theorem decode_nil : decode [] = [] := rfl

theorem decode_cons_of_not_high {u : CodeUnit} (h : isHigh u = false) (r : List CodeUnit) :
    decode (u :: r) = u.val :: decode r := by
  cases r with
  | nil => rfl
  | cons w rest => simp [decode, h]

theorem decode_pair {high low : CodeUnit} (hh : isHigh high = true) (hl : isLow low = true)
    (r : List CodeUnit) : decode (high :: low :: r) = joined high low :: decode r := by
  simp [decode, hh, hl]

theorem joined_lt (high low : CodeUnit) (hh : isHigh high = true) (hl : isLow low = true) :
    0x10000 ≤ joined high low ∧ joined high low < 0x110000 := by
  simp only [isHigh, isLow, and_eq_true, decide_eq_true_eq] at hh hl
  unfold joined
  omega

theorem decode_lt : ∀ (s : List CodeUnit), ∀ p ∈ decode s, p < 0x110000
  | [] => by simp [decode]
  | [u] => by
    intro p hp
    obtain rfl : p = u.val := by simpa [decode] using hp
    omega
  | u :: w :: rest => by
    intro p hp
    rw [decode] at hp
    split at hp
    · next h =>
      rw [and_eq_true] at h
      obtain hp | hp := mem_cons.mp hp
      · rw [hp]
        exact (joined_lt u w h.1 h.2).2
      · exact decode_lt rest p hp
    · obtain hp | hp := mem_cons.mp hp
      · omega
      · exact decode_lt (w :: rest) p hp

variable {s t : List CodeUnit}

/-- A string without lone surrogates is empty, or begins with a unit that is a point by
itself, or begins with a pair. -/
theorem Paired.cases (h : Paired s) :
    s = [] ∨
    (∃ u r, s = u :: r ∧ isSurrogate u.val = false ∧ decode s = u.val :: decode r ∧ Paired r) ∨
    (∃ high low r, s = high :: low :: r ∧ isHigh high = true ∧ isLow low = true ∧
      decode s = joined high low :: decode r ∧ Paired r) := by
  cases s with
  | nil => exact .inl rfl
  | cons u r =>
    by_cases hhigh : isHigh u = true
    · -- A high surrogate is not alone, so a low one follows.
      cases r with
      | nil =>
        have := h u.val (by simp [decode])
        simp only [isHigh, isSurrogate, and_eq_true, decide_eq_true_eq, and_eq_false_iff,
          decide_eq_false_iff_not] at hhigh this
        omega
      | cons w rest =>
        by_cases hlow : isLow w = true
        · refine .inr (.inr ⟨u, w, rest, rfl, hhigh, hlow, decode_pair hhigh hlow rest, ?_⟩)
          intro p hp
          exact h p (by rw [decode_pair hhigh hlow]; exact mem_cons_of_mem _ hp)
        · have := h u.val (by simp [decode, hlow])
          simp only [isHigh, isSurrogate, and_eq_true, decide_eq_true_eq,
            and_eq_false_iff, decide_eq_false_iff_not] at hhigh this
          omega
    · have hdecode := decode_cons_of_not_high (by simpa using hhigh) r
      refine .inr (.inl ⟨u, r, rfl, h u.val (by rw [hdecode]; exact mem_cons_self ..),
        hdecode, ?_⟩)
      intro p hp
      exact h p (by rw [hdecode]; exact mem_cons_of_mem _ hp)

theorem length_decode_le (s : List CodeUnit) : (decode s).length ≤ s.length := by
  fun_induction decode s with
  | case1 | case2 => rfl
  | case3 u w rest _ ih =>
    simp only [length_cons]
    omega
  | case4 u w rest _ ih => exact Nat.succ_le_succ ih

/-- A cut leaves no lone surrogate unless it parts a pair. -/
theorem paired_take (h : Paired s) (n : ℕ) :
    Paired (s.take (n + 1)) ↔ ∀ u ∈ s[n]?, isHigh u = false := by
  induction hlength : s.length using Nat.strong_induction_on generalizing s n with
  | _ k ih =>
    obtain rfl | ⟨u, r, rfl, hu, -, hr⟩ | ⟨high, low, r, rfl, hhigh, hlow, -, hr⟩ := h.cases
    · simp [Paired, decode]
    · have hnot : isHigh u = false := by
        simp only [isHigh, isSurrogate, and_eq_false_iff, decide_eq_false_iff_not] at hu ⊢
        omega
      have hlt : r.length < k := by
        rw [← hlength]
        exact Nat.lt_succ_self _
      rw [take_succ_cons, Paired, decode_cons_of_not_high hnot, forall_mem_cons]
      cases n with
      | zero => simp [decode, hu, hnot]
      | succ n =>
        rw [getElem?_cons_succ, ← ih r.length hlt hr n rfl]
        exact and_iff_right hu
    · have hpoint : 0x10000 ≤ joined high low := by
        unfold joined
        omega
      have hjoined : isSurrogate (joined high low) = false := by
        simp only [isSurrogate, and_eq_false_iff, decide_eq_false_iff_not]
        omega
      have hlt : r.length < k := by
        rw [← hlength]
        exact Nat.lt_succ_of_lt (Nat.lt_succ_self _)
      match n with
      | 0 =>
        have hsurrogate : isSurrogate high.val = true := by
          simp only [isHigh, isSurrogate, and_eq_true, decide_eq_true_eq] at hhigh ⊢
          omega
        simp [Paired, decode, hsurrogate, hhigh]
      | 1 =>
        have hnot : isHigh low = false := by
          simp only [isHigh, isLow, and_eq_true, decide_eq_true_eq, and_eq_false_iff,
            decide_eq_false_iff_not] at hlow ⊢
          omega
        simp [Paired, decode, hhigh, hlow, hjoined, hnot]
      | n + 2 =>
        rw [getElem?_cons_succ, getElem?_cons_succ, ← ih r.length hlt hr n rfl,
          take_succ_cons, take_succ_cons, Paired, decode_pair hhigh hlow,
          forall_mem_cons]
        exact and_iff_right hjoined

/-! ## The two orders -/

theorem rank_of_le {p : ℕ} (h : 0x10000 ≤ p) : rank p = p := by
  rw [rank, if_neg]
  omega

variable {hi lo hi' lo' : CodeUnit}

/-- Pairs are compared as the points they encode. -/
theorem joined_lt_joined (hhi : isHigh hi = true)
    (hlo : isLow lo = true) (hhi' : isHigh hi' = true) (hlo' : isLow lo' = true) :
    joined hi lo < joined hi' lo' ↔ hi.val < hi'.val ∨ hi.val = hi'.val ∧ lo.val < lo'.val := by
  simp only [isHigh, isLow, and_eq_true, decide_eq_true_eq] at hhi hlo hhi' hlo'
  unfold joined
  omega

theorem joined_inj (hhi : isHigh hi = true)
    (hlo : isLow lo = true) (hhi' : isHigh hi' = true) (hlo' : isLow lo' = true) :
    joined hi lo = joined hi' lo' ↔ hi.val = hi'.val ∧ lo.val = lo'.val := by
  simp only [isHigh, isLow, and_eq_true, decide_eq_true_eq] at hhi hlo hhi' hlo'
  unfold joined
  omega

/-- **Strings in the order of their units are strings in the order of their ranks.** -/
theorem lt_iff_rank (hs : Paired s) (ht : Paired t) :
    s < t ↔ (decode s).map rank < (decode t).map rank := by
  induction hn : s.length using Nat.strongRecOn generalizing s t with
  | ind n ih =>
    obtain rfl | ⟨u, r, rfl, hu, hds, hr⟩ | ⟨hi, lo, r, rfl, hhi, hlo, hds, hr⟩ := hs.cases
    · obtain rfl | ⟨v, q, rfl, hv, hdt, hq⟩ | ⟨hi', lo', q, rfl, hhi', hlo', hdt, hq⟩ := ht.cases
      · simp
      · simp [hdt, decode_nil]
      · simp [hdt, decode_nil]
    · obtain rfl | ⟨v, q, rfl, hv, hdt, hq⟩ | ⟨hi', lo', q, rfl, hhi', hlo', hdt, hq⟩ := ht.cases
      · simp [hds, decode_nil]
      · rw [hds, hdt, map_cons, map_cons, cons_lt_cons_iff, cons_lt_cons_iff,
          ih r.length (by simp [← hn]) hr hq rfl]
        have hrank : rank u.val = rank v.val ↔ u.val = v.val := by
          unfold rank
          split <;> split <;> omega
        have hlt : rank u.val < rank v.val ↔ u.val < v.val := by
          unfold rank
          split <;> split <;> omega
        rw [hrank, hlt, Fin.lt_def, Fin.ext_iff]
      · -- A point of one unit against a pair.
        have hjoined := joined_lt hi' lo' hhi' hlo'
        rw [hds, hdt, map_cons, map_cons, cons_lt_cons_iff, cons_lt_cons_iff]
        simp only [isSurrogate, isHigh, and_eq_false_iff, and_eq_true,
          decide_eq_false_iff_not, decide_eq_true_eq] at hu hhi'
        simp only [rank, Fin.lt_def, Fin.ext_iff]
        split <;> split <;> omega
    · obtain rfl | ⟨v, q, rfl, hv, hdt, hq⟩ | ⟨hi', lo', q, rfl, hhi', hlo', hdt, hq⟩ := ht.cases
      · simp [hds, decode_nil]
      · have hjoined := joined_lt hi lo hhi hlo
        rw [hds, hdt, map_cons, map_cons, cons_lt_cons_iff, cons_lt_cons_iff]
        simp only [isSurrogate, isHigh, and_eq_false_iff, and_eq_true,
          decide_eq_false_iff_not, decide_eq_true_eq] at hv hhi
        simp only [rank, Fin.lt_def, Fin.ext_iff]
        split <;> split <;> omega
      · -- Two pairs: their points are compared as the pairs are.
        have hjoined := joined_lt hi lo hhi hlo
        have hjoined' := joined_lt hi' lo' hhi' hlo'
        rw [hds, hdt, map_cons, map_cons, cons_lt_cons_iff, cons_lt_cons_iff,
          cons_lt_cons_iff, rank_of_le hjoined.1,
          rank_of_le hjoined'.1]
        rw [joined_lt_joined hhi hlo hhi' hlo', joined_inj hhi hlo hhi' hlo']
        grind

/-- A string without lone surrogates is given by its points. -/
theorem decode_injective (hs : Paired s) (ht : Paired t)
    (h : decode s = decode t) : s = t := by
  have hlt : ¬ s < t := by
    rw [lt_iff_rank hs ht, h]
    exact lt_irrefl _
  have hgt : ¬ t < s := by
    rw [lt_iff_rank ht hs, h]
    exact lt_irrefl _
  exact le_antisymm (not_lt.mp hgt) (not_lt.mp hlt)

theorem rank_lt_iff : ∀ {p q : List ℕ}, (∀ x ∈ p, x < 0x110000) → (∀ x ∈ q, x < 0x110000) →
    ((p.map rank < q.map rank ↔ p < q) ↔ crossed p q = false ∧ crossed q p = false)
  | [], [], _, _ | [], _ :: _, _, _ => by simp [crossed]
  | _ :: _, [], _, _ => by simp [crossed]
  | a :: p, b :: q, hp, hq => by
    have ha := hp a (mem_cons_self ..)
    have hb := hq b (mem_cons_self ..)
    rw [map_cons, map_cons, cons_lt_cons_iff, cons_lt_cons_iff]
    by_cases hab : a = b
    · subst hab
      have ih := rank_lt_iff (fun x hx => hp x (mem_cons_of_mem _ hx))
        (fun x hx => hq x (mem_cons_of_mem _ hx))
      simpa [crossed] using ih
    · have hrank : rank a ≠ rank b := by
        unfold rank
        split <;> split <;> omega
      have hba : ¬ b = a := fun h => hab h.symm
      simp only [crossed, hab, hba, hrank, if_false, false_and, or_false, and_eq_false_iff,
        decide_eq_false_iff_not]
      unfold rank
      split <;> split <;> omega

/-- **The two orders of strings agree on a pair** unless one crosses the other. -/
theorem order_agrees (hs : Paired s) (ht : Paired t) :
    (s < t ↔ decode s < decode t) ↔
      crossed (decode s) (decode t) = false ∧ crossed (decode t) (decode s) = false := by
  rw [lt_iff_rank hs ht]
  exact rank_lt_iff (decode_lt s) (decode_lt t)

end Utf16
