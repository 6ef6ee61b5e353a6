import Mathlib.Logic.Function.Basic
import Mathlib.Data.List.Basic

/-!
# Sets kept under keys

A map from keys to sets whose members know the key they are kept under: an index
and its inverse.  A set is the list of its members in the order of insertion, a map
gives nothing at a key without an entry, and an entry may hold the empty set.  The
index and the inverse agree when an element is in the set under a key exactly when
the inverse names that key; putting an element under the key it already has, or
taking it from the key the inverse names, keeps the agreement.
-/

namespace Buckets

open Function

variable {ι κ : Type} [DecidableEq ι] [DecidableEq κ]

/-- The set with `i` in it, at the end when it is new. -/
def add (s : List ι) (i : ι) : List ι := if i ∈ s then s else s ++ [i]

/-- The set without `i`. -/
def delete (s : List ι) (i : ι) : List ι := s.filter (fun j => !decide (j = i))

variable {i j : ι}

@[simp] theorem mem_add {s : List ι} : j ∈ add s i ↔ j ∈ s ∨ j = i := by
  unfold add
  split
  · rename_i hi
    constructor
    · exact .inl
    · rintro (h | rfl)
      · exact h
      · exact hi
  · simp

@[simp] theorem mem_delete {s : List ι} : j ∈ delete s i ↔ j ∈ s ∧ j ≠ i := by
  simp [delete]

theorem add_ne_nil (s : List ι) (i : ι) : add s i ≠ [] := by
  intro h
  have hi : i ∈ add s i := mem_add.mpr (.inr rfl)
  rw [h] at hi
  cases hi

/-- What is kept under a key. -/
def held (m : κ → Option (List ι)) (k : κ) : List ι := (m k).getD []

omit [DecidableEq ι] [DecidableEq κ] in
/-- The map after an element is put under a key, which gets an entry when it has
none. -/
def insertAt (m : κ → Option (List ι)) (k : κ) (i : ι) : κ → Option (List ι) :=
  match m k with
  | some s => update m k (some (add s i))
  | none => update m k (some [i])

/-- The map after an element is taken from under a key, whose entry stays. -/
def removeAt (m : κ → Option (List ι)) (k : κ) (i : ι) : κ → Option (List ι) :=
  match m k with
  | some s => update m k (some (delete s i))
  | none => m

/-- The map after an element is taken from under a key, whose entry goes with the last
element. -/
def pruneAt (m : κ → Option (List ι)) (k : κ) (i : ι) : κ → Option (List ι) :=
  match m k with
  | some s => update m k (if delete s i = [] then none else some (delete s i))
  | none => m

variable {m : κ → Option (List ι)}

theorem mem_held_insertAt {k k' : κ} :
    j ∈ held (insertAt m k i) k' ↔ j ∈ held m k' ∨ (k' = k ∧ j = i) := by
  by_cases hk : k' = k
  · subst hk
    cases hm : m k' <;> simp [insertAt, held, hm]
  · cases hm : m k <;> simp [insertAt, held, hm, hk]

theorem mem_held_removeAt {k k' : κ} :
    j ∈ held (removeAt m k i) k' ↔ j ∈ held m k' ∧ ¬ (k' = k ∧ j = i) := by
  by_cases hk : k' = k
  · subst hk
    cases hm : m k' <;> simp [removeAt, held, hm]
  · cases hm : m k <;> simp [removeAt, held, hm, hk]

theorem held_pruneAt (m : κ → Option (List ι)) (k : κ) (i : ι) (k' : κ) :
    held (pruneAt m k i) k' = held (removeAt m k i) k' := by
  by_cases hk : k' = k
  · subst hk
    cases hm : m k' with
    | none => simp [pruneAt, removeAt, held, hm]
    | some s =>
      by_cases hs : delete s i = []
      · simp [pruneAt, removeAt, held, hm, hs]
      · simp [pruneAt, removeAt, held, hm, hs]
  · cases hm : m k <;> simp [pruneAt, removeAt, held, hm, update_of_ne hk]

/-- No key has an entry that holds nothing. -/
def Pruned (m : κ → Option (List ι)) : Prop := ∀ k, m k ≠ some []

omit [DecidableEq ι] [DecidableEq κ] in
theorem pruned_empty : Pruned (fun _ : κ => (none : Option (List ι))) := by
  intro k h
  cases h

theorem Pruned.insertAt (h : Pruned m) (k : κ) (i : ι) : Pruned (insertAt m k i) := by
  intro k' hk'
  by_cases hk : k' = k
  · subst hk
    cases hm : m k' with
    | none => simp [Buckets.insertAt, hm] at hk'
    | some s => exact add_ne_nil s i (by simpa [Buckets.insertAt, hm] using hk')
  · apply h k'
    cases hm : m k <;> simpa [Buckets.insertAt, hm, update_of_ne hk] using hk'

theorem Pruned.pruneAt (h : Pruned m) (k : κ) (i : ι) : Pruned (pruneAt m k i) := by
  intro k' hk'
  by_cases hk : k' = k
  · subst hk
    cases hm : m k' with
    | none => simp [Buckets.pruneAt, hm] at hk'
    | some s =>
      by_cases hs : delete s i = []
      · simp [Buckets.pruneAt, hm, hs] at hk'
      · simp [Buckets.pruneAt, hm, hs] at hk'
  · apply h k'
    cases hm : m k <;> simpa [Buckets.pruneAt, hm, update_of_ne hk] using hk'

omit [DecidableEq ι] [DecidableEq κ] in
/-- A pruned map has an entry exactly at the keys that hold something. -/
theorem Pruned.isSome_iff (h : Pruned m) (k : κ) : (m k).isSome ↔ ∃ i, i ∈ held m k := by
  cases hm : m k with
  | none => simp [held, hm]
  | some s =>
    cases s with
    | nil => exact absurd hm (h k)
    | cons i s => exact ⟨fun _ => ⟨i, by simp [held, hm]⟩, fun _ => rfl⟩

/-- An index agrees with its inverse: an element is in the set under a key exactly when
the inverse names the key. -/
def Agrees (index : κ → List ι) (inverse : ι → Option κ) : Prop :=
  ∀ k i, i ∈ index k ↔ inverse i = some k

omit [DecidableEq κ] in
/-- Putting an element under a key keeps the agreement when it was under no other. -/
theorem Agrees.insert {index index' : κ → List ι} {inverse inverse' : ι → Option κ}
    (h : Agrees index inverse) {k : κ}
    (hindex : ∀ k' j, j ∈ index' k' ↔ j ∈ index k' ∨ (k' = k ∧ j = i))
    (hinverse : inverse' = update inverse i (some k))
    (hfree : ∀ k', inverse i = some k' → k' = k) : Agrees index' inverse' := by
  intro k' j
  rw [hindex, h k' j, hinverse]
  by_cases hj : j = i
  · subst hj
    simp only [update_self, Option.some.injEq, and_true]
    constructor
    · rintro (hk | hk)
      · exact (hfree k' hk).symm
      · exact hk.symm
    · exact fun hk => .inr hk.symm
  · simp [hj]

omit [DecidableEq κ] in
/-- Taking an element from the key that the inverse names keeps the agreement. -/
theorem Agrees.remove {index index' : κ → List ι} {inverse inverse' : ι → Option κ}
    (h : Agrees index inverse)
    (hindex : ∀ k' j, j ∈ index' k' ↔ j ∈ index k' ∧ ¬ (inverse i = some k' ∧ j = i))
    (hinverse : inverse' = update inverse i none) : Agrees index' inverse' := by
  intro k' j
  rw [hindex, h k' j, hinverse]
  by_cases hj : j = i
  · subst hj
    simp
  · simp [hj]

end Buckets
