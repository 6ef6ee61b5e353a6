import Mathlib.Data.Option.Basic

/-!
# Optional limits

A limit that is absent admits every value, one that is present a single value.  Limits that
agree have a meet, the first of them that is present.
-/

namespace Limits

variable {α : Type*} {a b c : Option α} {x : α}

/-- The limit admits the value. -/
def Fits (a : Option α) (x : α) : Prop := ∀ y ∈ a, y = x

/-- No two values are asked for. -/
def Agree (a b : Option α) : Prop := ∀ x ∈ a, ∀ y ∈ b, x = y

@[simp] theorem fits_none : Fits none x := by
  intro y hy
  cases hy

@[simp] theorem fits_some {y : α} : Fits (some y) x ↔ y = x := by
  simp [Fits]

@[simp] theorem agree_none : Agree none b := by
  intro y hy
  cases hy

@[simp] theorem agree_some {y : α} : Agree (some x) (some y) ↔ x = y := by
  simp [Agree]

theorem any_ne_iff [BEq α] [LawfulBEq α] : a.any (· != x) = false ↔ Fits a x := by
  cases a <;> simp

theorem all_eq_iff [BEq α] [LawfulBEq α] : a.all (x == ·) = true ↔ Fits a x := by
  cases a with
  | none => simp
  | some y => simpa using eq_comm

theorem Agree.symm (h : Agree a b) : Agree b a := fun x hx y hy => (h y hy x hx).symm

@[simp] theorem agree_none' : Agree a none := Agree.symm agree_none

/-- **A value fits two limits** when these agree and it fits their meet. -/
theorem fits_or : Fits a x ∧ Fits b x ↔ Agree a b ∧ Fits (a.or b) x := by
  cases a with
  | none => simp
  | some y =>
    cases b with
    | none => simp
    | some z =>
      simp only [fits_some, agree_some, Option.some_or]
      constructor
      · rintro ⟨rfl, rfl⟩
        exact ⟨rfl, rfl⟩
      · rintro ⟨rfl, rfl⟩
        exact ⟨rfl, rfl⟩

/-- **A limit agrees with a meet** when it agrees with both parts. -/
theorem agree_or (h : Agree a b) : Agree (a.or b) c ↔ Agree a c ∧ Agree b c := by
  cases a with
  | none => simp
  | some y =>
    cases b with
    | none => simp
    | some z =>
      obtain rfl := agree_some.mp h
      simp

end Limits
