import Mathlib.Data.List.Basic
import Mathlib.Data.List.Infix

/-!
# Splitting a text at a separator

The pieces of a text between the occurrences of a separator, which are searched from the
left and do not overlap.  No piece contains the separator.  When the pieces are joined
with a word in brackets, whatever has no bracket lies within one piece or within the
word.
-/

namespace Splitting

open List

variable {α : Type}

section Split

variable [DecidableEq α]

/-- `c` goes to the front of the first piece. -/
def consHead (c : α) : List (List α) → List (List α)
  | [] => [[c]]
  | p :: ps => (c :: p) :: ps

/-- The pieces of a text of which `skip` letters still belong to an occurrence. -/
def splitFrom (sep : List α) : ℕ → List α → List (List α)
  | _, [] => [[]]
  | skip + 1, _ :: t => splitFrom sep skip t
  | 0, c :: t =>
    if sep <+: c :: t then [] :: splitFrom sep (sep.length - 1) t
    else consHead c (splitFrom sep 0 t)

variable (sep t : List α)

/-- The pieces of a text between the occurrences of a separator. -/
def split : List (List α) := splitFrom sep 0 t

theorem splitFrom_drop : ∀ skip ≤ t.length, splitFrom sep skip t = split sep (t.drop skip) := by
  induction t with
  | nil =>
    intro skip hskip
    have hzero : skip = 0 := Nat.le_zero.mp hskip
    subst hzero
    rfl
  | cons c t ih =>
    intro skip hskip
    cases skip with
    | zero => rfl
    | succ skip => exact ih skip (Nat.le_of_succ_le_succ hskip)

/-- At an occurrence a piece ends. -/
theorem split_at_occurrence {sep t : List α} (hsep : sep ≠ []) (h : sep <+: t) :
    split sep t = [] :: split sep (t.drop sep.length) := by
  cases t with
  | nil => exact absurd (prefix_nil.mp h) hsep
  | cons c t =>
    have hlength : 0 < sep.length := length_pos_iff.mpr hsep
    have hle : sep.length ≤ t.length + 1 := h.length_le
    show (if sep <+: c :: t then _ else _) = _
    rw [if_pos h, splitFrom_drop sep t (sep.length - 1) (by omega)]
    obtain ⟨n, hn⟩ := Nat.exists_eq_succ_of_ne_zero (Nat.ne_of_gt hlength)
    rw [hn]
    rfl

/-- Elsewhere a letter belongs to the piece that follows. -/
theorem split_elsewhere {sep t : List α} {c : α} (h : ¬ sep <+: c :: t) :
    split sep (c :: t) = consHead c (split sep t) :=
  if_neg h

theorem split_ne_nil : split sep t ≠ [] := by
  cases t with
  | nil => exact cons_ne_nil _ _
  | cons c t =>
    by_cases h : sep <+: c :: t
    · show (if sep <+: c :: t then _ else _) ≠ _
      rw [if_pos h]
      exact cons_ne_nil _ _
    · rw [split_elsewhere h]
      cases split sep t <;> exact cons_ne_nil _ _

/-- The first piece begins the text, every piece is within it, and none contains the
separator. -/
theorem split_pieces {sep : List α} (hsep : sep ≠ []) (n : ℕ) :
    ∀ t : List α, t.length ≤ n → (∀ p ∈ (split sep t).head?, p <+: t) ∧
      ∀ p ∈ split sep t, p <:+: t ∧ ¬ sep <:+: p := by
  have hempty : ¬ sep <:+: [] := by
    rw [infix_nil]
    exact hsep
  induction n with
  | zero =>
    intro t ht
    have hnil : t = [] := length_eq_zero_iff.mp (Nat.le_zero.mp ht)
    subst hnil
    exact ⟨by simp [split, splitFrom], by simpa [split, splitFrom] using hempty⟩
  | succ n ih =>
    intro t ht
    cases t with
    | nil => exact ⟨by simp [split, splitFrom], by simpa [split, splitFrom] using hempty⟩
    | cons c t =>
      by_cases h : sep <+: c :: t
      · rw [split_at_occurrence hsep h]
        have hpos : 0 < sep.length := length_pos_iff.mpr hsep
        have hlength : ((c :: t).drop sep.length).length ≤ n := by
          rw [length_drop]
          omega
        refine ⟨by simp, ?_⟩
        intro p hp
        rcases mem_cons.mp hp with rfl | hp
        · exact ⟨ nil_infix, hempty⟩
        · obtain ⟨hin, hnot⟩ := (ih _ hlength).2 p hp
          exact ⟨hin.trans (drop_suffix _ _).isInfix, hnot⟩
      · rw [split_elsewhere h]
        obtain ⟨hhead, hall⟩ := ih t (Nat.le_of_succ_le_succ ht)
        cases hs : split sep t with
        | nil => exact absurd hs (split_ne_nil sep t)
        | cons q ps =>
          rw [hs] at hhead hall
          have hq : c :: q <+: c :: t := by
            rw [cons_prefix_cons]
            exact ⟨rfl, hhead q rfl⟩
          refine ⟨by simpa [consHead] using hq, ?_⟩
          intro p hp
          rcases mem_cons.mp hp with rfl | hp
          · refine ⟨hq.isInfix, ?_⟩
            intro hsub
            rcases infix_cons_iff.mp hsub with hpre | hin
            · exact h (hpre.trans hq)
            · exact (hall q mem_cons_self).2 hin
          · obtain ⟨hin, hnot⟩ := hall p (mem_cons_of_mem _ hp)
            exact ⟨infix_cons hin, hnot⟩

/-- A text without the separator is one piece. -/
theorem split_eq_self {sep t : List α} (h : ¬ sep <:+: t) :
    split sep t = [t] := by
  induction t with
  | nil => rfl
  | cons c t ih =>
    have hprefix : ¬ sep <+: c :: t := fun hp => h hp.isInfix
    have htail : ¬ sep <:+: t := fun hi => h (infix_cons hi)
    rw [split_elsewhere hprefix, ih htail]
    rfl

end Split

/-- What has no `c` lies on one side of it. -/
theorem infix_side {x a b : List α} {c : α} (hc : c ∉ x) (h : x <:+: a ++ c :: b) :
    x <:+: a ∨ x <:+: b := by
  induction a with
  | nil =>
    rcases infix_cons_iff.mp h with hp | hi
    · cases x with
      | nil => exact .inl nil_infix
      | cons y x =>
        have hy := (cons_prefix_cons.mp hp).1
        exact absurd (hy ▸ mem_cons_self) hc
    · exact .inr hi
  | cons d a ih =>
    rcases infix_cons_iff.mp h with hp | hi
    · -- a prefix without `c` ends before it
      left
      refine List.IsPrefix.isInfix ?_
      have hle : x.length ≤ (d :: a).length := by
        by_contra hlt
        apply hc
        obtain ⟨t, ht⟩ := hp
        have hget : (d :: a ++ c :: b)[(d :: a).length]? = some c := by simp
        have hx : x ++ t = d :: a ++ c :: b := ht
        rw [← hx, getElem?_append_left (by omega)] at hget
        exact mem_of_getElem? hget
      exact prefix_of_prefix_length_le hp (prefix_append (d :: a) (c :: b)) hle
    · rcases ih hi with ha | hb
      · exact .inl (infix_cons ha)
      · exact .inr hb

/-- What has no bracket and lies in pieces that are joined with a word in brackets lies in
one of the pieces or in the word. -/
theorem infix_intercalate {x word : List α} {left right : α} (hleft : left ∉ x)
    (hright : right ∉ x) (hword : ¬ x <:+: word) (ps : List (List α)) :
    x <:+: List.intercalate (left :: word ++ [right]) ps → x = [] ∨ ∃ p ∈ ps, x <:+: p := by
  induction ps with
  | nil => exact fun h => .inl (infix_nil.mp h)
  | cons p ps ih =>
    intro h
    cases ps with
    | nil => exact .inr ⟨p, mem_cons_self, by simpa using h⟩
    | cons q ps =>
      have hjoin : List.intercalate (left :: word ++ [right]) (p :: q :: ps) =
          p ++ left :: (word ++ right :: List.intercalate (left :: word ++ [right]) (q :: ps)) := by
        simp [intercalate_cons_cons]
      rw [hjoin] at h
      rcases infix_side hleft h with hp | h
      · exact .inr ⟨p, mem_cons_self, hp⟩
      · rcases infix_side hright h with hw | h
        · exact absurd hw hword
        · rcases ih h with hx | ⟨r, hr, hx⟩
          · exact .inl hx
          · exact .inr ⟨r, mem_cons_of_mem _ hr, hx⟩

end Splitting
