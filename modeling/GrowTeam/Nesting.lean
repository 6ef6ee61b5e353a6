/-
# Nesting

A relation given by a list of pairs, the points that are reached from some of them, and when a
relation has no cycles.  Nothing in this file mentions what is nested.

* `closure` is what a recursive query computes: points are added along the pairs until there are
  no new ones, which takes at most as many rounds as there are pairs;
* `Acyclic.add` is why a closed set is the right thing to look at: pairs that lead from a point
  outside of it into it close no cycle.
-/
import Mathlib.Logic.Relation
import Mathlib.Logic.Function.Iterate
import Mathlib.Data.List.Dedup

namespace Nesting

open List

variable {α : Type} {r r' : α → α → Prop} {s : α → Prop} {a b p : α}

/-! ## Relations without cycles -/

/-- No point is reached from itself. -/
def Acyclic (r : α → α → Prop) : Prop := ∀ a, ¬Relation.TransGen r a a

/-- What is reached from a point of the set is in the set. -/
def Closed (r : α → α → Prop) (s : α → Prop) : Prop := ∀ a b, s a → r a b → s b

theorem Acyclic.mono (h : Acyclic r) (hle : ∀ a b, r' a b → r a b) : Acyclic r' :=
  fun a ha => h a (Relation.TransGen.mono hle a a ha)

/-- From inside a closed set the new pairs are not used. -/
theorem trans_of_closed (hs : Closed r s) (hp : ¬s p) (hle : ∀ a b, r' a b → r a b ∨ (a = p ∧ s b))
    (ha : s a) (h : Relation.TransGen r' a b) : Relation.TransGen r a b ∧ s b := by
  have hold : ∀ c d, s c → r' c d → r c d := by
    intro c d hc hcd
    refine (hle c d hcd).resolve_right ?_
    rintro ⟨rfl, -⟩
    exact hp hc
  induction h with
  | single hab => exact ⟨.single (hold _ _ ha hab), hs _ _ ha (hold _ _ ha hab)⟩
  | tail _ hbc ih =>
    exact ⟨ih.1.tail (hold _ _ ih.2 hbc), hs _ _ ih.2 (hold _ _ ih.2 hbc)⟩

/-- A path that uses a new pair ends in the closed set. -/
theorem trans_or_mem (hs : Closed r s) (hle : ∀ a b, r' a b → r a b ∨ (a = p ∧ s b))
    (h : Relation.TransGen r' a b) : Relation.TransGen r a b ∨ s b := by
  induction h with
  | single hab => exact (hle _ _ hab).imp .single And.right
  | tail _ hbc ih =>
    rcases hle _ _ hbc with hold | ⟨-, hnew⟩
    · exact ih.imp (·.tail hold) fun hb => hs _ _ hb hold
    · exact .inr hnew

/-- Pairs from a point outside a closed set into it close no cycle. -/
theorem Acyclic.add (h : Acyclic r) (hs : Closed r s) (hp : ¬s p)
    (hle : ∀ a b, r' a b → r a b ∨ (a = p ∧ s b)) : Acyclic r' := by
  intro a ha
  rcases trans_or_mem hs hle ha with hold | hin
  · exact h a hold
  · exact h a (trans_of_closed hs hp hle hin ha).1

/-! ## The closure of a list of points -/

variable [DecidableEq α] {pairs : List (α × α)} {xs : List α}

/-- One round: the points that the pairs lead to are added. -/
def expand (pairs : List (α × α)) (xs : List α) : List α :=
  (xs ++ (pairs.filter fun e => e.1 ∈ xs).map Prod.snd).dedup

/-- The points reached from some points, themselves included. -/
def closure (pairs : List (α × α)) (xs : List α) : List α :=
  (expand pairs)^[pairs.length] xs

theorem mem_expand : b ∈ expand pairs xs ↔ b ∈ xs ∨ ∃ a ∈ xs, (a, b) ∈ pairs := by
  unfold expand
  rw [mem_dedup, mem_append, mem_map]
  apply or_congr_right
  constructor
  · rintro ⟨⟨a, b⟩, he, rfl⟩
    obtain ⟨hpair, ha⟩ := mem_filter.mp he
    exact ⟨a, of_decide_eq_true ha, hpair⟩
  · rintro ⟨a, ha, hpair⟩
    exact ⟨(a, b), mem_filter.mpr ⟨hpair, decide_eq_true ha⟩, rfl⟩

omit [DecidableEq α] in
theorem countP_lt {l : List α} {p q : α → Bool} (hpq : ∀ x ∈ l, p x = true → q x = true)
    (hx : a ∈ l) (hp : p a = false) (hq : q a = true) : l.countP p < l.countP q := by
  induction l with
  | nil => cases hx
  | cons x l ih =>
    have hrest : l.countP p ≤ l.countP q :=
      countP_mono_left fun y hy => hpq y (mem_cons_of_mem _ hy)
    rw [countP_cons, countP_cons]
    rcases mem_cons.mp hx with rfl | hx
    · rw [if_neg (by simp [hp]), if_pos hq]
      omega
    · have hlt := ih (fun y hy => hpq y (mem_cons_of_mem _ hy)) hx
      have hle : (if p x = true then 1 else 0) ≤ if q x = true then 1 else 0 := by
        by_cases hpx : p x = true
        · simp [hpx, hpq x mem_cons_self hpx]
        · simp [hpx]
      omega

variable (pairs xs) in
/-- After some rounds there is nothing to add, or each of them has reached a new pair. -/
theorem closed_or_le (n : ℕ) :
    Closed (fun a b => (a, b) ∈ pairs) (· ∈ (expand pairs)^[n] xs) ∨
      n ≤ pairs.countP fun e => e.2 ∈ (expand pairs)^[n] xs := by
  induction n with
  | zero => exact .inr (Nat.zero_le _)
  | succ n ih =>
    set ys := (expand pairs)^[n] xs with hys
    have hnext : (expand pairs)^[n + 1] xs = expand pairs ys := by
      rw [Function.iterate_succ_apply']
    rw [hnext]
    by_cases hclosed : Closed (fun a b => (a, b) ∈ pairs) (· ∈ ys)
    · left
      have hsame : ∀ c, c ∈ expand pairs ys → c ∈ ys := by
        intro c hc
        rcases mem_expand.mp hc with hc | ⟨d, hd, hpair⟩
        · exact hc
        · exact hclosed d c hd hpair
      intro a b ha hpair
      exact mem_expand.mpr (.inr ⟨a, hsame a ha, hpair⟩)
    · right
      have hn := ih.resolve_left hclosed
      unfold Closed at hclosed
      push Not at hclosed
      obtain ⟨a, b, ha, hpair, hb⟩ := hclosed
      have hlt : (pairs.countP fun e => decide (e.2 ∈ ys)) <
          pairs.countP fun e => decide (e.2 ∈ expand pairs ys) :=
        countP_lt (fun e _ he => decide_eq_true (mem_expand.mpr (.inl (of_decide_eq_true he))))
          hpair (decide_eq_false hb) (decide_eq_true (mem_expand.mpr (.inr ⟨a, ha, hpair⟩)))
      omega

/-- The closure is closed. -/
theorem closed_closure : Closed (fun a b => (a, b) ∈ pairs) (· ∈ closure pairs xs) := by
  rcases closed_or_le pairs xs pairs.length with hclosed | hle
  · exact hclosed
  · intro a b _ hpair
    have hall := countP_eq_length.mp (Nat.le_antisymm countP_le_length hle)
    exact of_decide_eq_true (hall (a, b) hpair)

end Nesting
