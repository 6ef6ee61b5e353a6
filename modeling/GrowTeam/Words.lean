/-
# Texts with their white space reduced

Every run of white space becomes one blank, and what stands at the two ends is taken off.  The
length of what is left is counted on the text itself: its letters, and one blank between each two
words.  Nothing here depends on what counts as white space.
-/
import Mathlib.Data.List.Count

namespace Words

open List

variable {α : Type} (space : α → Bool) (blank : α)

/-- A blank for every run of white space; `inside` says that the run before was counted. -/
def collapse (inside : Bool) : List α → List α
  | [] => []
  | c :: r =>
    if space c then (if inside then collapse true r else blank :: collapse true r)
    else c :: collapse false r

/-- The text without the white space at its end. -/
def stripRight : List α → List α
  | [] => []
  | c :: r =>
    match stripRight r with
    | [] => if space c then [] else [c]
    | d :: rest => c :: d :: rest

/-- The text without the white space at its ends. -/
def strip (t : List α) : List α := stripRight space (t.dropWhile space)

/-- The words that begin in the text; `inside` says that it continues one. -/
def wordCount (inside : Bool) : List α → ℕ
  | [] => 0
  | c :: r =>
    if space c then wordCount false r else (if inside then 0 else 1) + wordCount true r

/-- The letters of a text. -/
def letters (t : List α) : ℕ := t.countP fun c => !space c

variable {space blank}

/-- There are no more words than letters. -/
theorem wordCount_le (t : List α) :
    wordCount space false t ≤ letters space t ∧ wordCount space true t ≤ letters space t := by
  induction t with
  | nil => exact ⟨Nat.le_refl _, Nat.le_refl _⟩
  | cons c r ih =>
    unfold letters at ih ⊢
    by_cases hc : space c = true
    · simp [wordCount, hc, ih.1]
    · simp only [wordCount, hc, countP_cons]
      simp only [Bool.false_eq_true, if_false, Bool.not_false, if_true]
      omega

/-- A text with a letter has a word. -/
theorem wordCount_pos {t : List α} (h : 0 < letters space t) : 0 < wordCount space false t := by
  induction t with
  | nil => exact absurd h (Nat.lt_irrefl _)
  | cons c r ih =>
    by_cases hc : space c = true
    · unfold letters at h ih
      simp only [countP_cons, hc, Bool.not_true, Bool.false_eq_true, if_false] at h
      simpa [wordCount, hc] using ih h
    · simp only [wordCount, hc, Bool.false_eq_true, if_false]
      omega

/-- At the beginning of a text a run of white space leaves nothing behind. -/
theorem dropWhile_collapse (hblank : space blank = true) (t : List α) :
    (collapse space blank false t).dropWhile space = collapse space blank true t := by
  have hinside : ∀ u : List α, (collapse space blank true u).dropWhile space =
      collapse space blank true u := by
    intro u
    induction u with
    | nil => rfl
    | cons c r ih =>
      by_cases hc : space c = true
      · simpa [collapse, hc] using ih
      · simp [collapse, hc]
  cases t with
  | nil => rfl
  | cons c r =>
    by_cases hc : space c = true
    · simp [collapse, hc, hblank, hinside r]
    · simp [collapse, hc]

theorem stripRight_cons_of_not {c : α} (hc : space c = false) (r : List α) :
    (stripRight space (c :: r)).length = (stripRight space r).length + 1 := by
  rw [stripRight]
  split
  · next h => simp [hc, h]
  · next d rest h => simp [h]

theorem stripRight_cons_of_space {c : α} (hc : space c = true) (r : List α) :
    (stripRight space (c :: r)).length =
      if (stripRight space r).length = 0 then 0 else (stripRight space r).length + 1 := by
  rw [stripRight]
  split
  · next h => simp [hc, h]
  · next d rest h => simp [h]

/-- The length without the end, inside a word and after a blank. -/
theorem length_stripRight_collapse (hblank : space blank = true) (t : List α) :
    (stripRight space (collapse space blank false t)).length =
        letters space t + wordCount space true t ∧
      (stripRight space (collapse space blank true t)).length =
        letters space t + (wordCount space false t - 1) := by
  induction t with
  | nil => exact ⟨rfl, rfl⟩
  | cons c r ih =>
    obtain ⟨hin, hafter⟩ := ih
    by_cases hc : space c = true
    · have hletters : letters space (c :: r) = letters space r := by
        simp [letters, hc]
      have hblanked : (stripRight space (blank :: collapse space blank true r)).length =
          letters space r + wordCount space false r := by
        rw [stripRight_cons_of_space hblank]
        have hle : wordCount space false r ≤ letters space r := (wordCount_le r).1
        split
        · omega
        · have hpos : 0 < letters space r → 0 < wordCount space false r := wordCount_pos
          omega
      rw [hletters]
      simp only [collapse, wordCount, hc, if_true, Bool.false_eq_true, if_false]
      exact ⟨hblanked, hafter⟩
    · have hletters : letters space (c :: r) = letters space r + 1 := by
        simp [letters, hc]
      rw [Bool.not_eq_true] at hc
      simp only [collapse, wordCount, hc, if_true, Bool.false_eq_true, if_false]
      rw [stripRight_cons_of_not hc]
      omega

/-- **The length of a reduced text**: its letters, and a blank between each two words. -/
theorem length_strip_collapse (hblank : space blank = true) (t : List α) :
    (strip space (collapse space blank false t)).length =
      letters space t + (wordCount space false t - 1) := by
  rw [strip, dropWhile_collapse hblank]
  exact (length_stripRight_collapse hblank t).2

/-- A text without white space has none to take off. -/
theorem strip_eq_self {t : List α} (h : ∀ c ∈ t, space c = false) : strip space t = t := by
  have hdrop : t.dropWhile space = t := by
    cases t with
    | nil => rfl
    | cons c t =>
      rw [dropWhile_cons_of_neg]
      rw [h c mem_cons_self]
      exact Bool.false_ne_true
  rw [strip, hdrop]
  clear hdrop
  induction t with
  | nil => rfl
  | cons c t ih =>
    rw [stripRight, ih fun d hd => h d (mem_cons_of_mem _ hd)]
    cases t with
    | nil => simp [h c mem_cons_self]
    | cons d t => rfl

/-! ## What stays -/

variable [BEq α] [LawfulBEq α]

theorem count_collapse {x : α} (hx : space x = false) (hblank : space blank = true) (t : List α) :
    ∀ inside, (collapse space blank inside t).count x = t.count x := by
  have hne : ∀ c, space c = true → (c == x) = false := by
    intro c hc
    rw [beq_eq_false_iff_ne]
    rintro rfl
    rw [hx] at hc
    cases hc
  induction t with
  | nil => exact fun _ => rfl
  | cons c r ih =>
    intro inside
    by_cases hc : space c = true
    · cases inside with
      | true => simp [collapse, hc, ih, count_cons, hne c hc]
      | false => simp [collapse, hc, ih, count_cons, hne c hc, hne blank hblank]
    · simp [collapse, hc, ih, count_cons]

theorem count_stripRight {x : α} (hx : space x = false) (t : List α) :
    (stripRight space t).count x = t.count x := by
  induction t with
  | nil => rfl
  | cons c r ih =>
    rw [stripRight]
    split
    · next h =>
      rw [h] at ih
      split
      · next hc =>
        have hne : (c == x) = false := by
          rw [beq_eq_false_iff_ne]
          rintro rfl
          rw [hx] at hc
          cases hc
        simpa [count_cons, hne] using ih
      · simpa [count_cons] using ih.symm
    · next d rest h =>
      rw [← h, count_cons, count_cons, ih]

/-- **A letter is as often in the reduced text.** -/
theorem count_strip_collapse {x : α} (hx : space x = false) (hblank : space blank = true)
    (t : List α) : (strip space (collapse space blank false t)).count x = t.count x := by
  rw [strip, dropWhile_collapse hblank, count_stripRight hx, count_collapse hx hblank]

end Words
