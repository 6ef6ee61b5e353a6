import GrowTeam.Utf16

/-!
# Codes that can be read from the middle

A code writes each symbol as a word.  When the first letter of a word is never a
later one, and no word begins another, an occurrence of one text inside the code
of another is an occurrence of its symbols.  UTF-8 is such a code; UTF-16 is one
for strings whose surrogates are paired.
-/

namespace Codes

open List

variable {α β : Type}

/-- The words of valid symbols begin with a lead letter, have no other one, and are
not prefixes of each other. -/
structure Synchronizing (valid : α → Prop) (code : α → List β) (lead : β → Prop) : Prop where
  starts : ∀ a, valid a → ∃ b bs, code a = b :: bs ∧ lead b ∧ ∀ c ∈ bs, ¬ lead c
  prefix_free : ∀ a b r r', valid a → valid b → code a ++ r = code b ++ r' → a = b

variable {valid : α → Prop} {code : α → List β} {lead : β → Prop}

section

variable (h : Synchronizing valid code lead)

include h

variable {m l : List α}

/-- What begins with a lead letter begins between two words. -/
theorem Synchronizing.aligned {x : List β}
    {b : β} {y : List β} (hm : ∀ a ∈ m, valid a) (hb : lead b)
    (heq : x ++ b :: y = m.flatMap code) : ∃ m₁ m₂, m = m₁ ++ m₂ ∧ b :: y = m₂.flatMap code := by
  induction m generalizing x with
  | nil => simp at heq
  | cons a m ih =>
    rw [flatMap_cons] at heq
    rcases append_eq_append_iff.mp heq with ⟨z, hz, hrest⟩ | ⟨z, hz, hrest⟩
    · -- The place lies inside the first word, so at its beginning.
      obtain ⟨c, cs, hcode, -, hlater⟩ := h.starts a (hm a mem_cons_self)
      cases x with
      | nil => exact ⟨[], a :: m, rfl, by rw [flatMap_cons, ← heq, nil_append]⟩
      | cons d x =>
        cases z with
        | nil =>
          obtain ⟨m₁, m₂, hsplit, hy⟩ := ih (x := []) (fun e he => hm e (mem_cons_of_mem _ he))
            (by simpa using hrest)
          exact ⟨a :: m₁, m₂, by rw [hsplit, cons_append], hy⟩
        | cons e z =>
          rw [hcode] at hz
          obtain ⟨-, hcs⟩ := List.cons.inj hz
          obtain ⟨rfl, -⟩ := List.cons.inj hrest
          exact absurd hb (hlater b (by rw [hcs]; simp))
    · obtain ⟨m₁, m₂, hsplit, hy⟩ := ih (x := z) (fun e he => hm e (mem_cons_of_mem _ he))
        hrest.symm
      exact ⟨a :: m₁, m₂, by rw [hsplit, cons_append], hy⟩

/-- The words at the beginning of a code are its first symbols. -/
theorem Synchronizing.prefix_of_append {y : List β} (hl : ∀ a ∈ l, valid a) (hm : ∀ a ∈ m, valid a)
    (heq : l.flatMap code ++ y = m.flatMap code) : l <+: m := by
  induction l generalizing m with
  | nil => exact nil_prefix
  | cons a l ih =>
    rw [flatMap_cons, append_assoc] at heq
    cases m with
    | nil =>
      obtain ⟨b, bs, hcode, -, -⟩ := h.starts a (hl a mem_cons_self)
      simp [hcode] at heq
    | cons c m =>
      obtain rfl := h.prefix_free a c _ _ (hl a mem_cons_self) (hm c mem_cons_self) heq
      have hrest := append_cancel_left heq
      rw [prefix_cons_inj]
      exact ih (fun e he => hl e (mem_cons_of_mem _ he))
        (fun e he => hm e (mem_cons_of_mem _ he)) hrest

/-- **A text that occurs in the code occurs among the symbols.** -/
theorem Synchronizing.infix_of_flatMap (hl : ∀ a ∈ l, valid a) (hm : ∀ a ∈ m, valid a)
    (hin : l.flatMap code <:+: m.flatMap code) : l <:+: m := by
  cases l with
  | nil => exact nil_infix
  | cons a l =>
    obtain ⟨x, y, heq⟩ := hin
    obtain ⟨b, bs, hcode, hlead, -⟩ := h.starts a (hl a mem_cons_self)
    rw [flatMap_cons, hcode, append_assoc, cons_append, cons_append] at heq
    obtain ⟨m₁, m₂, rfl, hrest⟩ := h.aligned hm hlead heq
    have hprefix : a :: l <+: m₂ := by
      apply h.prefix_of_append (y := y) hl fun e he => hm e (mem_append_right _ he)
      rw [← hrest, flatMap_cons, hcode, cons_append, cons_append]
    exact hprefix.isInfix.trans (suffix_append _ _).isInfix

end

/-- An occurrence among the symbols is one in the code. -/
theorem infix_flatMap {l m : List α} (code : α → List β) (h : l <:+: m) :
    l.flatMap code <:+: m.flatMap code := by
  obtain ⟨x, y, rfl⟩ := h
  rw [flatMap_append, flatMap_append]
  exact infix_append _ _ _

/-! ## UTF-8 -/

/-- **UTF-8 can be read from the middle.** -/
theorem utf8_synchronizing :
    Synchronizing (fun _ : Char => True) String.utf8EncodeChar UInt8.IsUTF8FirstByte := by
  constructor
  · intro c _
    cases hcode : String.utf8EncodeChar c with
    | nil => exact absurd hcode String.utf8EncodeChar_ne_nil
    | cons b bs =>
      refine ⟨b, bs, rfl, ?_, ?_⟩
      · have hfirst := UInt8.isUTF8FirstByte_getElem_zero_utf8EncodeChar (c := c)
        simpa [hcode] using hfirst
      · intro d hd hlead
        obtain ⟨i, hi, rfl⟩ := getElem_of_mem hd
        have hlength : i + 1 < (String.utf8EncodeChar c).length := by
          rw [hcode, length_cons]
          omega
        have hlater := @UInt8.isUTF8FirstByte_getElem_utf8EncodeChar c (i + 1) hlength
        simp only [hcode, getElem_cons_succ] at hlater
        exact absurd (hlater.mp hlead) (by omega)
  · intro c d r r' _ _ heq
    have hdecode := ByteArray.utf8DecodeChar?_utf8EncodeChar_append (b := r.toByteArray) (c := c)
    rw [← toByteArray_append, heq, toByteArray_append,
      ByteArray.utf8DecodeChar?_utf8EncodeChar_append] at hdecode
    exact (Option.some.inj hdecode).symm

end Codes

namespace Utf16

open List

/-! ## UTF-16 -/

theorem unit_lt (n : ℕ) : n % 0x10000 < 0x10000 := Nat.mod_lt _ (Nat.succ_pos _)

/-- A number as a code unit. -/
def unit (n : ℕ) : CodeUnit := ⟨n % 0x10000, unit_lt n⟩

/-- The code units of one code point. -/
def units (p : ℕ) : List CodeUnit :=
  if p < 0x10000 then [unit p]
  else [unit (0xD800 + (p - 0x10000) / 0x400), unit (0xDC00 + (p - 0x10000) % 0x400)]

theorem units_val (u : CodeUnit) : units u.val = [u] := by
  rw [units, if_pos u.isLt]
  congr 1
  exact Fin.ext (Nat.mod_eq_of_lt u.isLt)

theorem units_joined {high low : CodeUnit} (hh : isHigh high = true) (hl : isLow low = true) :
    units (joined high low) = [high, low] := by
  have hge := (joined_lt high low hh hl).1
  rw [units, if_neg (by omega)]
  simp only [isHigh, isLow, Bool.and_eq_true, decide_eq_true_eq] at hh hl
  have hhigh : unit (0xD800 + (joined high low - 0x10000) / 0x400) = high := by
    apply Fin.ext
    show (0xD800 + (joined high low - 0x10000) / 0x400) % 0x10000 = high.val
    unfold joined
    omega
  have hlow : unit (0xDC00 + (joined high low - 0x10000) % 0x400) = low := by
    apply Fin.ext
    show (0xDC00 + (joined high low - 0x10000) % 0x400) % 0x10000 = low.val
    unfold joined
    omega
  rw [hhigh, hlow]

/-- **Decoding and encoding gives the string back**, lone surrogates and all. -/
theorem units_decode : ∀ s : List CodeUnit, (decode s).flatMap units = s
  | [] => rfl
  | [u] => by
    show units u.val ++ [] = [u]
    rw [units_val, append_nil]
  | u :: w :: rest => by
    rw [decode]
    split
    · next h =>
      rw [Bool.and_eq_true] at h
      rw [flatMap_cons, units_joined h.1 h.2, units_decode rest]
      rfl
    · rw [flatMap_cons, units_val, units_decode (w :: rest)]
      rfl

/-- A string without lone surrogates does not begin with the second half of a pair. -/
theorem Paired.head_not_low {u : CodeUnit} {r : List CodeUnit} (h : Paired (u :: r)) :
    isLow u = false := by
  rcases h.cases with hnil | ⟨v, q, heq, hv, -, -⟩ | ⟨high, low, q, heq, hhigh, -, -, -⟩
  · cases hnil
  · obtain ⟨rfl, -⟩ := List.cons.inj heq
    simp only [isSurrogate, Bool.and_eq_false_iff, decide_eq_false_iff_not] at hv
    simp only [isLow, Bool.and_eq_false_iff, decide_eq_false_iff_not]
    omega
  · obtain ⟨rfl, -⟩ := List.cons.inj heq
    simp only [isHigh, Bool.and_eq_true, decide_eq_true_eq] at hhigh
    simp only [isLow, Bool.and_eq_false_iff, decide_eq_false_iff_not]
    omega

/-- The points before a place where no pair is cut. -/
theorem decode_append_of_not_low {w : CodeUnit} (hw : isLow w = false) (r : List CodeUnit) :
    ∀ s : List CodeUnit, decode (s ++ w :: r) = decode s ++ decode (w :: r)
  | [] => rfl
  | [u] => by simp [decode, hw]
  | u :: v :: rest => by
    simp only [cons_append, decode]
    split
    · rw [decode_append_of_not_low hw r rest, cons_append]
    · have ih := decode_append_of_not_low hw r (v :: rest)
      rw [cons_append] at ih
      rw [ih, cons_append]

/-- The points of a string without lone surrogates, and of what follows. -/
theorem Paired.decode_append {s : List CodeUnit} (h : Paired s) (r : List CodeUnit) :
    decode (s ++ r) = decode s ++ decode r := by
  induction hn : s.length using Nat.strongRecOn generalizing s with
  | ind n ih =>
    subst hn
    rcases h.cases with rfl | ⟨u, q, rfl, hu, hdecode, hq⟩ |
      ⟨high, low, q, rfl, hhigh, hlow, hdecode, hq⟩
    · rfl
    · have hnot : isHigh u = false := by
        simp only [isSurrogate, Bool.and_eq_false_iff, decide_eq_false_iff_not] at hu
        simp only [isHigh, Bool.and_eq_false_iff, decide_eq_false_iff_not]
        omega
      rw [cons_append, decode_cons_of_not_high hnot, hdecode, ih q.length (by simp) hq rfl,
        cons_append]
    · rw [cons_append, cons_append, decode_pair hhigh hlow, hdecode,
        ih q.length (by simp only [length_cons]; omega) hq rfl, cons_append]

/-- **A string without lone surrogates that occurs in a string occurs among its points.** -/
theorem Paired.infix_decode {s t : List CodeUnit} (h : Paired s) (hin : s <:+: t) :
    decode s <:+: decode t := by
  obtain ⟨x, y, rfl⟩ := hin
  cases s with
  | nil => exact nil_infix
  | cons u r =>
    rw [append_assoc, cons_append, decode_append_of_not_low h.head_not_low,
      ← cons_append, h.decode_append, ← append_assoc]
    exact infix_append _ _ _

end Utf16
