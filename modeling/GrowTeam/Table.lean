/-
# Tables with a numeric primary key

`Table key` is a database table as the list of its rows in the order of their keys.  No
two rows share a key, so a row that was found by its key is the only one it can be.
-/
import Mathlib.Data.List.Nodup
import Mathlib.Data.Nat.Notation

/-- The rows of a table, in the order of their keys. -/
@[ext] structure Table {α : Type} (key : α → ℕ) where
  rows : List α
  sorted : (rows.map key).Pairwise (· < ·)

namespace Table

open List

variable {α : Type} {key : α → ℕ} {t : Table key} {x y : α} {id : ℕ}

instance [DecidableEq α] : DecidableEq (Table key) := fun s t =>
  decidable_of_iff (s.rows = t.rows) Table.ext_iff.symm

/-- Two rows of one key are one row. -/
theorem ext_key (hx : x ∈ t.rows) (hy : y ∈ t.rows) (h : key x = key y) : x = y := by
  have hinj := inj_on_of_nodup_map (t.sorted.imp fun hlt => Nat.ne_of_lt hlt)
  exact hinj hx hy h

theorem mem_map_key {l : List α} (hl : ∀ y ∈ l, y ∈ t.rows) (hx : x ∈ t.rows) :
    key x ∈ l.map key ↔ x ∈ l := by
  constructor
  · intro hin
    obtain ⟨y, hy, hkey⟩ := mem_map.mp hin
    rwa [← ext_key (hl y hy) hx hkey]
  · exact fun hin => mem_map_of_mem hin

/-- The row of a key among those that satisfy `p`. -/
def find (t : Table key) (id : ℕ) (p : α → Bool) : Option α :=
  t.rows.find? fun x => key x = id && p x

/-- The row of a key. -/
def get? (t : Table key) (id : ℕ) : Option α := t.find id fun _ => true

variable {p : α → Bool}

/-- A lookup finds the row that has the key, if it satisfies the condition. -/
theorem find_eq_some :
    t.find id p = some x ↔ x ∈ t.rows ∧ key x = id ∧ p x = true := by
  unfold find
  constructor
  · intro h
    have hp := find?_some h
    rw [Bool.and_eq_true, decide_eq_true_eq] at hp
    exact ⟨mem_of_find?_eq_some h, hp⟩
  · rintro ⟨hx, rfl, hp⟩
    cases hy : t.rows.find? fun y => key y = key x && p y with
    | none =>
      have hno := find?_eq_none.mp hy x hx
      simp [hp] at hno
    | some y =>
      have hkey := find?_some hy
      rw [Bool.and_eq_true, decide_eq_true_eq] at hkey
      rw [ext_key (mem_of_find?_eq_some hy) hx hkey.1]

@[simp] theorem get?_eq_some : t.get? id = some x ↔ x ∈ t.rows ∧ key x = id := by
  unfold get?
  rw [find_eq_some]
  simp

/-- A lookup with a condition agrees with the one without. -/
theorem get?_of_find (h : t.find id p = some x) : t.get? id = some x := by
  obtain ⟨hx, hkey, -⟩ := find_eq_some.mp h
  exact get?_eq_some.mpr ⟨hx, hkey⟩

/-- An update of the rows that satisfy `p`, which leaves their keys alone. -/
def update (t : Table key) (p : α → Bool) (f : α → α) (hf : ∀ x, key (f x) = key x) :
    Table key where
  rows := t.rows.map fun x => if p x then f x else x
  sorted := by
    have hkeys : (t.rows.map fun x => if p x then f x else x).map key = t.rows.map key := by
      rw [map_map]
      apply map_congr_left
      intro x _
      rw [Function.comp]
      split
      · exact hf x
      · rfl
    rw [hkeys]
    exact t.sorted

theorem mem_update {f : α → α} {hf : ∀ x, key (f x) = key x} :
    y ∈ (t.update p f hf).rows ↔ ∃ x ∈ t.rows, (if p x = true then f x else x) = y := by
  show y ∈ t.rows.map (fun x => if p x = true then f x else x) ↔ _
  rw [mem_map]

/-- An updated row is found by its key. -/
theorem get?_update {f : α → α} {hf : ∀ x, key (f x) = key x} :
    (t.update p f hf).get? id = (t.get? id).map fun x => if p x = true then f x else x := by
  have hkey : ∀ x, key (if p x = true then f x else x) = key x := by
    intro x
    split
    · exact hf x
    · rfl
  apply Option.ext
  intro y
  rw [get?_eq_some, mem_update, Option.map_eq_some_iff]
  constructor
  · rintro ⟨⟨x, hx, rfl⟩, hid⟩
    exact ⟨x, get?_eq_some.mpr ⟨hx, (hkey x).symm.trans hid⟩, rfl⟩
  · rintro ⟨x, hx, rfl⟩
    obtain ⟨hmem, hid⟩ := get?_eq_some.mp hx
    exact ⟨⟨x, hmem, rfl⟩, (hkey x).trans hid⟩

/-! ## Rows that are saved and rows that are new -/

/-- A table without rows. -/
def empty (key : α → ℕ) : Table key := ⟨[], .nil⟩

/-- The row of a key, in place of the one that had it. -/
def save (t : Table key) (x : α) : Table key where
  rows := t.rows.map fun y => if key y = key x then x else y
  sorted := by
    have hkeys : (t.rows.map fun y => if key y = key x then x else y).map key =
        t.rows.map key := by
      rw [map_map]
      apply map_congr_left
      intro y _
      rw [Function.comp]
      split
      · exact Eq.symm (by assumption)
      · rfl
    rw [hkeys]
    exact t.sorted

theorem mem_save :
    y ∈ (t.save x).rows ↔ (y ∈ t.rows ∧ key y ≠ key x) ∨ (y = x ∧ ∃ z ∈ t.rows, key z = key x) := by
  show y ∈ t.rows.map (fun z => if key z = key x then x else z) ↔ _
  rw [mem_map]
  constructor
  · rintro ⟨z, hz, rfl⟩
    by_cases hk : key z = key x
    · rw [if_pos hk]
      exact .inr ⟨rfl, z, hz, hk⟩
    · rw [if_neg hk]
      exact .inl ⟨hz, hk⟩
  · rintro (⟨hy, hk⟩ | ⟨rfl, z, hz, hk⟩)
    · exact ⟨y, hy, if_neg hk⟩
    · exact ⟨z, hz, if_pos hk⟩

/-- A saved row is found by its key, and the others are found as before. -/
theorem get?_save (h : t.get? (key x) = some y) :
    (t.save x).get? id = if id = key x then some x else t.get? id := by
  obtain ⟨hy, hk⟩ := get?_eq_some.mp h
  split
  · next hid =>
    subst hid
    rw [get?_eq_some, mem_save]
    exact ⟨.inr ⟨rfl, y, hy, hk⟩, rfl⟩
  · next hid =>
    apply Option.ext
    intro z
    rw [get?_eq_some, get?_eq_some, mem_save]
    constructor
    · rintro ⟨⟨hz, -⟩ | ⟨rfl, -⟩, hzid⟩
      · exact ⟨hz, hzid⟩
      · exact absurd hzid.symm hid
    · rintro ⟨hz, hzid⟩
      exact ⟨.inl ⟨hz, fun hkx => hid (hzid.symm.trans hkx)⟩, hzid⟩

/-- A key that no row has. -/
def fresh (t : Table key) : ℕ := (t.rows.map key).foldr max 0 + 1

theorem key_lt_fresh (h : x ∈ t.rows) : key x < t.fresh := by
  have hle : ∀ (l : List ℕ) (n : ℕ), n ∈ l → n ≤ l.foldr max 0 := by
    intro l
    induction l with
    | nil => simp
    | cons m l ih =>
      intro n hn
      rcases mem_cons.mp hn with rfl | hn
      · exact Nat.le_max_left _ _
      · exact Nat.le_trans (ih n hn) (Nat.le_max_right _ _)
  exact Nat.lt_succ_of_le (hle _ _ (mem_map_of_mem h))

/-- `objects.create(…)`: one more row, under a key of its own. -/
def create (t : Table key) (mk : ℕ → α) (hmk : ∀ n, key (mk n) = n) : Table key where
  rows := t.rows ++ [mk t.fresh]
  sorted := by
    rw [map_append, pairwise_append]
    refine ⟨t.sorted, by simp, ?_⟩
    intro m hm n hn
    obtain ⟨y, hy, rfl⟩ := mem_map.mp hm
    rw [map_singleton, mem_singleton] at hn
    rw [hn, hmk]
    exact key_lt_fresh hy

variable {mk : ℕ → α} {hmk : ∀ n, key (mk n) = n}

theorem mem_create : y ∈ (t.create mk hmk).rows ↔ y ∈ t.rows ∨ y = mk t.fresh := by
  show y ∈ t.rows ++ [mk t.fresh] ↔ _
  rw [mem_append, mem_singleton]

theorem get?_fresh : t.get? t.fresh = none := by
  rw [Option.eq_none_iff_forall_ne_some]
  intro x hx
  obtain ⟨hmem, hk⟩ := get?_eq_some.mp hx
  exact Nat.lt_irrefl _ (hk ▸ key_lt_fresh hmem)

/-- A row that was there is found as before. -/
theorem get?_create (h : id ≠ t.fresh) : (t.create mk hmk).get? id = t.get? id := by
  apply Option.ext
  intro z
  rw [get?_eq_some, get?_eq_some, mem_create]
  constructor
  · rintro ⟨hz | rfl, hid⟩
    · exact ⟨hz, hid⟩
    · exact absurd (hid.symm.trans (hmk _)) h
  · rintro ⟨hz, hid⟩
    exact ⟨.inl hz, hid⟩

theorem get?_create_fresh : (t.create mk hmk).get? t.fresh = some (mk t.fresh) := by
  rw [get?_eq_some, mem_create]
  exact ⟨.inr rfl, hmk _⟩

end Table
