/-
# Programs that may stop anywhere

A program is a list of statements, each of which takes effect as a whole or not at all.  A crash
keeps a prefix of the program.  What holds throughout a program holds wherever it stops.
-/
import Mathlib.Data.List.Basic
import Mathlib.Order.Basic

namespace Crashes

variable {σ ι : Type} (exec : ι → σ → σ)

/-- The state after all statements of a program. -/
def execute : List ι → σ → σ
  | [], s => s
  | c :: program, s => execute program (exec c s)

/-- What holds wherever the program stops. -/
def Throughout (P : σ → Prop) (program : List ι) (s : σ) : Prop :=
  ∀ k, P (execute exec (program.take k) s)

variable {exec} {P : σ → Prop} {program later : List ι} {c : ι} {s : σ}

theorem execute_append :
    execute exec (program ++ later) s = execute exec later (execute exec program s) := by
  induction program generalizing s with
  | nil => rfl
  | cons c program ih => exact ih

@[simp] theorem throughout_nil : Throughout exec P [] s ↔ P s := by
  simp [Throughout, execute]

theorem throughout_cons :
    Throughout exec P (c :: program) s ↔ P s ∧ Throughout exec P program (exec c s) := by
  constructor
  · exact fun h => ⟨h 0, fun k => h (k + 1)⟩
  · rintro ⟨hs, hrest⟩ k
    cases k with
    | zero => exact hs
    | succ k => exact hrest k

theorem throughout_append :
    Throughout exec P (program ++ later) s ↔
      Throughout exec P program s ∧ Throughout exec P later (execute exec program s) := by
  induction program generalizing s with
  | nil =>
    simp only [List.nil_append, throughout_nil, execute]
    exact ⟨fun h => ⟨h 0, h⟩, fun h => h.2⟩
  | cons c program ih =>
    rw [List.cons_append, throughout_cons, throughout_cons, ih, and_assoc]
    rfl

theorem Throughout.finish (h : Throughout exec P program s) : P (execute exec program s) := by
  have hall := h program.length
  rwa [List.take_length] at hall

/-- **What every statement keeps** holds throughout. -/
theorem throughout_of_kept (hs : P s) (hkept : ∀ c ∈ program, ∀ s, P s → P (exec c s)) :
    Throughout exec P program s := by
  induction program generalizing s with
  | nil => exact throughout_nil.mpr hs
  | cons c program ih =>
    refine throughout_cons.mpr ⟨hs, ih (hkept c List.mem_cons_self s hs) ?_⟩
    exact fun c hc => hkept c (List.mem_cons_of_mem _ hc)

theorem Throughout.imp {Q : σ → Prop} (h : Throughout exec P program s) (himp : ∀ s, P s → Q s) :
    Throughout exec Q program s := fun k => himp _ (h k)

end Crashes

/-! # Actions that fail in between -/

namespace Attempts

/-- An action on a state. -/
def Attempt (σ ε α : Type) := σ → Except ε α × σ

variable {σ ε α β : Type}

/-- The next action, unless this one failed. -/
def Attempt.andThen (h : Attempt σ ε α) (f : α → Attempt σ ε β) : Attempt σ ε β := fun s =>
  match h s with
  | (.ok a, s') => f a s'
  | (.error e, s') => (.error e, s')

instance Attempt.monad : Monad (Attempt σ ε) where
  pure a := fun s => (.ok a, s)
  bind := Attempt.andThen

/-- A failure that leaves the state as it is. -/
def fail (e : ε) : Attempt σ ε α := fun s => (.error e, s)

/-- The state. -/
def look : Attempt σ ε σ := fun s => (.ok s, s)

/-- The action as a transaction: a failure undoes what it wrote. -/
def atomically (h : Attempt σ ε α) : Attempt σ ε α := fun s =>
  match h s with
  | (.ok a, s') => (.ok a, s')
  | (.error e, _) => (.error e, s)

@[simp] theorem pure_run (a : α) (s : σ) : (pure a : Attempt σ ε α) s = (.ok a, s) := rfl

@[simp] theorem fail_run (e : ε) (s : σ) : (fail e : Attempt σ ε α) s = (.error e, s) := rfl

@[simp] theorem look_run (s : σ) : (look : Attempt σ ε σ) s = (.ok s, s) := rfl

/-- The order of the brackets does not matter. -/
theorem bind_bind {γ : Type} (h : Attempt σ ε α) (f : α → Attempt σ ε β) (k : β → Attempt σ ε γ) :
    h >>= f >>= k = h >>= fun a => f a >>= k := by
  funext s
  show (h.andThen f).andThen k s = h.andThen (fun a => (f a).andThen k) s
  unfold Attempt.andThen
  cases h s with
  | mk r s' => cases r <;> rfl

theorem pure_then (a : α) (f : α → Attempt σ ε β) : pure a >>= f = f a := rfl

section Torn

variable (refusal : ε → Prop)

/-- The action reports a failure. -/
def Refuses (h : Attempt σ ε α) (s : σ) : Prop := ∃ e, (h s).1 = .error e ∧ refusal e

/-- The action reports a failure and has changed the state. -/
def Tears (h : Attempt σ ε α) (s : σ) : Prop := Refuses refusal h s ∧ (h s).2 ≠ s

variable {refusal} {h : Attempt σ ε α} {f : α → Attempt σ ε β} {s s' : σ} {a : α} {e : ε}

theorem refuses_congr {k : Attempt σ ε α} (hs : h s = k s) :
    Refuses refusal h s ↔ Refuses refusal k s := by
  rw [Refuses, Refuses, hs]

theorem tears_congr {k : Attempt σ ε α} (hs : h s = k s) : Tears refusal h s ↔ Tears refusal k s := by
  rw [Tears, Tears, refuses_congr hs, hs]

theorem bind_of_ok (hs : h s = (.ok a, s')) : (h >>= f) s = f a s' := by
  show h.andThen f s = _
  rw [Attempt.andThen, hs]

theorem bind_of_error (hs : h s = (.error e, s')) : (h >>= f) s = (.error e, s') := by
  show h.andThen f s = _
  rw [Attempt.andThen, hs]

theorem refuses_bind_of_ok (hs : h s = (.ok a, s')) :
    Refuses refusal (h >>= f) s ↔ Refuses refusal (f a) s' := by
  unfold Refuses
  rw [bind_of_ok hs]

theorem refuses_bind_of_error (hs : h s = (.error e, s')) :
    Refuses refusal (h >>= f) s ↔ refusal e := by
  unfold Refuses
  rw [bind_of_error hs]
  constructor
  · rintro ⟨e', he, hr⟩
    cases he
    exact hr
  · exact fun hr => ⟨e, rfl, hr⟩

theorem not_refuses_pure : ¬ Refuses refusal (pure a : Attempt σ ε α) s := by
  rintro ⟨e, he, -⟩
  cases he

/-- An action that succeeds without a change leaves the question to what follows. -/
theorem tears_bind_of_ok (hs : h s = (.ok a, s)) :
    Tears refusal (h >>= f) s ↔ Tears refusal (f a) s := by
  unfold Tears
  rw [refuses_bind_of_ok hs, bind_of_ok hs]

/-- An action that fails without a change tears nothing. -/
theorem not_tears_of_error (hs : h s = (.error e, s)) : ¬ Tears refusal (h >>= f) s := by
  rintro ⟨-, hne⟩
  rw [bind_of_error hs] at hne
  exact hne rfl

/-- A failure that is not reported tears nothing. -/
theorem not_tears_of_raised (hs : h s = (.error e, s')) (he : ¬ refusal e) :
    ¬ Tears refusal (h >>= f) s := by
  rintro ⟨hr, -⟩
  exact he ((refuses_bind_of_error hs).mp hr)

/-- The value at the end tears nothing. -/
theorem not_tears_pure : ¬ Tears refusal (pure a : Attempt σ ε α) s :=
  fun ht => not_refuses_pure ht.1

theorem not_tears_fail : ¬ Tears refusal (fail e : Attempt σ ε α) s := fun ht => ht.2 rfl

/-! ## What was written before -/

variable (weight : σ → ℕ)

/-- The action takes nothing away. -/
def Grows (h : Attempt σ ε α) : Prop := ∀ s, weight s ≤ weight (h s).2

variable {weight}

theorem grows_bind (hh : Grows weight h) (hf : ∀ a, Grows weight (f a)) :
    Grows weight (h >>= f) := by
  intro s
  have hfirst := hh s
  cases hs : h s with
  | mk r s' =>
    rw [hs] at hfirst
    cases r with
    | ok a =>
      rw [bind_of_ok hs]
      exact Nat.le_trans hfirst (hf a s')
    | error e =>
      rw [bind_of_error hs]
      exact hfirst

theorem grows_pure (a : α) : Grows weight (pure a : Attempt σ ε α) := fun _ => Nat.le_refl _

/-- **After a write** the action is torn where the rest reports a failure. -/
theorem tears_after_write (hs : h s = (.ok a, s')) (hlt : weight s < weight s')
    (hgrows : Grows weight (f a)) :
    Tears refusal (h >>= f) s ↔ Refuses refusal (f a) s' := by
  unfold Tears
  rw [refuses_bind_of_ok hs, bind_of_ok hs]
  refine ⟨fun ht => ht.1, fun hr => ⟨hr, ?_⟩⟩
  intro hsame
  have hle := hgrows s'
  rw [hsame] at hle
  exact Nat.lt_irrefl _ (Nat.lt_of_lt_of_le hlt hle)

end Torn

end Attempts
