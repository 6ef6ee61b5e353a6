/-
# Histories of atomic steps

A component whose operations are atomic is a function `step` from an input and a state to
an answer and the next state.  A run is a list of inputs; its history is the list of the
steps it took, each with the states around it.  Nothing in this file mentions a particular
component.

`history_past` is the rule all others come from: what holds at the start and is kept by
every step holds throughout, and it may speak of the steps taken so far.
-/
import Mathlib.Data.List.Basic

namespace History

open List

variable {σ ι α : Type}

/-- A step that was taken. -/
structure Event (σ ι α : Type) where
  input : ι
  pre : σ
  answer : α
  post : σ

/-- The state after a list of inputs. -/
def run (step : ι → σ → α × σ) (s : σ) : List ι → σ
  | [] => s
  | i :: is => run step (step i s).2 is

/-- The steps taken for a list of inputs, in order. -/
def history (step : ι → σ → α × σ) (s : σ) : List ι → List (Event σ ι α)
  | [] => []
  | i :: is => ⟨i, s, (step i s).1, (step i s).2⟩ :: history step (step i s).2 is

/-- What is found in a list in which one item has been replaced. -/
theorem getElem?_set_cases {l : List α} {i j : ℕ} {a x : α} (h : (l.set i a)[j]? = some x) :
    j = i ∧ x = a ∨ j ≠ i ∧ l[j]? = some x := by
  rw [getElem?_set] at h
  split at h
  · next hij =>
    split at h
    · exact .inl ⟨hij.symm, (Option.some.inj h).symm⟩
    · cases h
  · next hij => exact .inr ⟨Ne.symm hij, h⟩

variable {step : ι → σ → α × σ} {s : σ} {is : List ι}

/-- A step of a history is one the component takes. -/
theorem step_of_mem {e : Event σ ι α} (he : e ∈ history step s is) :
    step e.input e.pre = (e.answer, e.post) := by
  induction is generalizing s with
  | nil => cases he
  | cons i is ih =>
    rcases mem_cons.mp he with rfl | he
    · rfl
    · exact ih he

variable (step)

/-- **The rule for histories.**  What every step keeps may speak of the steps taken so far. -/
theorem history_past {J : List (Event σ ι α) → σ → Prop} (s : σ) (is : List ι) (hs : J [] s)
    (hstep : ∀ past e, step e.input e.pre = (e.answer, e.post) → J past e.pre →
      J (past ++ [e]) e.post) :
    J (history step s is) (run step s is) ∧
      ∀ past e later, history step s is = past ++ e :: later → J past e.pre := by
  induction is generalizing s J with
  | nil =>
    refine ⟨hs, ?_⟩
    intro past e later h
    simp [history] at h
  | cons i is ih =>
    have hfirst : J [⟨i, s, (step i s).1, (step i s).2⟩] (step i s).2 := hstep [] ⟨i, s, _, _⟩ rfl hs
    -- The rest of the run is one with the first step in its past.
    obtain ⟨hend, hmid⟩ := ih
      (J := fun past t => J (⟨i, s, (step i s).1, (step i s).2⟩ :: past) t) (step i s).2 hfirst
      fun past e he hJ => hstep (_ :: past) e he hJ
    refine ⟨hend, ?_⟩
    intro past e later h
    cases past with
    | nil =>
      obtain ⟨rfl, -⟩ := List.cons.inj h
      exact hs
    | cons f past =>
      obtain ⟨rfl, hrest⟩ := List.cons.inj h
      exact hmid past e later hrest

/-- What every step keeps holds before and after each step, and at the end. -/
theorem history_inv {J : σ → Prop} (s : σ) (is : List ι) (hs : J s)
    (hstep : ∀ i t, J t → J (step i t).2) :
    J (run step s is) ∧ ∀ e ∈ history step s is, J e.pre ∧ J e.post := by
  have hkeep : ∀ e : Event σ ι α, step e.input e.pre = (e.answer, e.post) → J e.pre →
      J e.post := by
    intro e he hJ
    have hpost := hstep e.input e.pre hJ
    rwa [he] at hpost
  obtain ⟨hend, hmid⟩ := history_past step (J := fun _ => J) s is hs
    fun _ e he hJ => hkeep e he hJ
  refine ⟨hend, fun e he => ?_⟩
  obtain ⟨past, later, hsplit⟩ := append_of_mem he
  have hpre := hmid past e later hsplit
  exact ⟨hpre, hkeep e (step_of_mem he) hpre⟩

/-- **The rule with a condition on the steps.**  What every step that meets the condition keeps
holds throughout a run whose steps all meet it. -/
theorem history_inv_of {J : σ → Prop} {meets : ι → σ → Prop} (s : σ) (is : List ι) (hs : J s)
    (hmeets : ∀ e ∈ history step s is, meets e.input e.pre)
    (hstep : ∀ i t, meets i t → J t → J (step i t).2) :
    J (run step s is) ∧ ∀ e ∈ history step s is, J e.pre ∧ J e.post := by
  induction is generalizing s with
  | nil => exact ⟨hs, by simp [history]⟩
  | cons i is ih =>
    have hpost : J (step i s).2 := hstep i s (hmeets _ mem_cons_self) hs
    obtain ⟨hend, hmid⟩ := ih (step i s).2 hpost
      fun e he => hmeets e (mem_cons_of_mem _ he)
    refine ⟨hend, ?_⟩
    intro e he
    rcases mem_cons.mp he with rfl | he
    · exact ⟨hs, hpost⟩
    · exact hmid e he

/-- A history up to a step is that of the inputs so far. -/
theorem history_until {s : σ} {is : List ι} {past later : List (Event σ ι α)} {e : Event σ ι α}
    (h : history step s is = past ++ e :: later) :
    ∃ js, js <+: is ∧ history step s js = past ++ [e] ∧ run step s js = e.post := by
  induction is generalizing s past with
  | nil => simp [history] at h
  | cons i is ih =>
    cases past with
    | nil =>
      obtain ⟨rfl, -⟩ := List.cons.inj h
      exact ⟨[i], ⟨is, rfl⟩, rfl, rfl⟩
    | cons f past =>
      obtain ⟨rfl, hrest⟩ := List.cons.inj h
      obtain ⟨js, ⟨more, hjs⟩, hhistory, hrun⟩ := ih hrest
      refine ⟨i :: js, ⟨more, by rw [cons_append, hjs]⟩, ?_, hrun⟩
      rw [history, hhistory]
      rfl

theorem history_append (s : σ) (is js : List ι) :
    history step s (is ++ js) = history step s is ++ history step (run step s is) js := by
  induction is generalizing s with
  | nil => rfl
  | cons i is ih =>
    rw [cons_append, history, ih]
    rfl

/-- A relation of states that every step respects holds from the end of a step to the start of
each later one. -/
theorem history_rel {rel : σ → σ → Prop} (hrefl : ∀ a, rel a a)
    (htrans : ∀ a b c, rel a b → rel b c → rel a c) (hstep : ∀ i t, rel t (step i t).2)
    {past mid later : List (Event σ ι α)} {c e : Event σ ι α}
    (h : history step s is = past ++ c :: (mid ++ e :: later)) : rel c.post e.pre := by
  have hpost : ∀ f : Event σ ι α, step f.input f.pre = (f.answer, f.post) →
      rel f.pre f.post := by
    intro f hf
    have hrel := hstep f.input f.pre
    rwa [hf] at hrel
  -- Every step so far ended in a state from which the present one is reached.
  have hpast := (history_past step (J := fun steps t => ∀ f ∈ steps, rel f.post t) s is
    (by simp) ?_).2 (past ++ c :: mid) e later (by rw [h]; simp)
  · exact hpast c (by simp)
  · intro steps f hf hJ g hg
    rcases mem_append.mp hg with hg | hg
    · exact htrans _ _ _ (hJ g hg) (hpost f hf)
    · rw [mem_singleton.mp hg]
      exact hrefl _

/-- **At most once.**  If a fact `D` about the state is kept by every step, and each step that
`p` picks makes it true where it was false, then a run takes at most one such step. -/
theorem history_once {D : σ → Prop} {p : Event σ ι α → Bool} (s : σ) (is : List ι)
    (hkeep : ∀ i t, D t → D (step i t).2)
    (hfirst : ∀ e : Event σ ι α, step e.input e.pre = (e.answer, e.post) → p e = true →
      ¬ D e.pre ∧ D e.post) :
    ((history step s is).filter p).length ≤ 1 := by
  have hpast := (history_past step
    (J := fun past t => (past.filter p).length ≤ 1 ∧ (past.filter p ≠ [] → D t)) s is
    (by simp) ?_).1
  · exact hpast.1
  · intro past e he hJ
    obtain ⟨hlength, hD⟩ := hJ
    have hstay : D e.pre → D e.post := by
      intro hd
      have hpost := hkeep e.input e.pre hd
      rwa [he] at hpost
    rw [filter_append]
    by_cases hp : p e = true
    · obtain ⟨hbefore, hafter⟩ := hfirst e he hp
      have hnone : past.filter p = [] := by
        by_contra hne
        exact hbefore (hD hne)
      rw [hnone]
      simp [hp, hafter]
    · have hskip : [e].filter p = [] := by simp [hp]
      rw [hskip, append_nil]
      exact ⟨hlength, fun hne => hstay (hD hne)⟩

end History
