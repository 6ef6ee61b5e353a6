import Mathlib.Data.List.Nodup
import Mathlib.Data.Nat.Notation

/-!
# Rows that are put away and taken out again

A depot is a table beside the table of what was put away from it.  Each row belongs to an
owner and has a number that no other row ever had.  The rows of some owners are put away,
removed, and taken out again; a row whose number is there already stays as it is.

Putting away and taking out gives an owner's rows back as they were exactly when all that had
been put away before is still there as it is.
-/

namespace Depot

open List

/-- What must differ between two rows of one owner. -/
class UniqueTogether (α : Type) where
  same : α → α → Bool

structure Row (α : Type) where
  id : ℕ
  owner : ℕ
  data : α

/-- `INSERT … SELECT … ON CONFLICT (id) DO NOTHING`. -/
def insertNew {ρ : Type} (id : ρ → ℕ) (dst src : List ρ) : List ρ :=
  dst ++ src.filter fun r => dst.all fun d => id d ≠ id r

section InsertNew

variable {ρ κ : Type} {id : ρ → ℕ} {dst src : List ρ} {r : ρ}

theorem mem_insertNew :
    r ∈ insertNew id dst src ↔ r ∈ dst ∨ r ∈ src ∧ ∀ d ∈ dst, id d ≠ id r := by
  simp [insertNew]

/-- What differs between the rows stays different. -/
theorem nodup_insertNew {f : ρ → κ} (hdst : (dst.map f).Nodup) (hsrc : (src.map f).Nodup)
    (hnew : ∀ d ∈ dst, ∀ r ∈ src, id d ≠ id r → f d ≠ f r) :
    ((insertNew id dst src).map f).Nodup := by
  rw [insertNew, map_append, nodup_append]
  refine ⟨hdst, hsrc.sublist (filter_sublist.map f), ?_⟩
  intro a ha b hb hab
  obtain ⟨d, hd, rfl⟩ := mem_map.mp ha
  obtain ⟨s, hs, rfl⟩ := mem_map.mp hb
  obtain ⟨hs, hall⟩ := mem_filter.mp hs
  exact hnew d hd s hs (of_decide_eq_true (all_eq_true.mp hall d hd)) hab

theorem pairwise_insertNew {R : ρ → ρ → Prop} (hdst : dst.Pairwise R) (hsrc : src.Pairwise R)
    (hnew : ∀ d ∈ dst, ∀ r ∈ src, id d ≠ id r → R d r) : (insertNew id dst src).Pairwise R := by
  rw [insertNew, pairwise_append]
  refine ⟨hdst, hsrc.sublist filter_sublist, ?_⟩
  intro d hd r hr
  obtain ⟨hr, hall⟩ := mem_filter.mp hr
  exact hnew d hd r hr (of_decide_eq_true (all_eq_true.mp hall d hd))

end InsertNew

/-- Two rows with one key are one row. -/
theorem eq_of_key {ρ κ : Type} {f : ρ → κ} {l : List ρ} (h : (l.map f).Nodup) {r s : ρ}
    (hr : r ∈ l) (hs : s ∈ l) (hkey : f r = f s) : r = s :=
  inj_on_of_nodup_map h hr hs hkey

end Depot

/-- A table, and the table of what was put away from it. -/
structure Depot (α : Type) where
  live : List (Depot.Row α)
  archived : List (Depot.Row α)
  next : ℕ

namespace Depot

open List

variable {α : Type}

/-- A change of a table by itself. -/
inductive Change (α : Type)
  | insert (owner : ℕ) (data : α)
  | update (id : ℕ) (data : α)
  | delete (id : ℕ)

def empty : Depot α := ⟨[], [], 0⟩

def change (c : Change α) (s : Depot α) : Depot α :=
  match c with
  | .insert owner data => { s with live := s.live ++ [⟨s.next, owner, data⟩], next := s.next + 1 }
  | .update id data =>
    { s with live := s.live.map fun r => if r.id = id then { r with data := data } else r }
  | .delete id => { s with live := s.live.filter fun r => r.id ≠ id }

variable (owners : List ℕ) (s : Depot α)

/-- The rows of some owners are copied to what was put away. -/
def putAway : Depot α :=
  { s with archived := insertNew Row.id s.archived (s.live.filter fun r => owners.contains r.owner) }

/-- The rows of some owners go with them. -/
def remove : Depot α :=
  { s with live := s.live.filter fun r => !owners.contains r.owner }

/-- What was put away of some owners is copied back. -/
def takeOut : Depot α :=
  { s with live := insertNew Row.id s.live (s.archived.filter fun r => owners.contains r.owner) }

/-- What was put away of some owners is lost. -/
def lose : Depot α :=
  { s with archived := s.archived.filter fun r => !owners.contains r.owner }

/-- The rows of an owner. -/
def liveOf (m : ℕ) : List (Row α) := s.live.filter fun r => r.owner = m

/-- What was put away of an owner. -/
def archivedOf (m : ℕ) : List (Row α) := s.archived.filter fun r => r.owner = m

@[simp] theorem mem_liveOf {s : Depot α} {m : ℕ} {r : Row α} :
    r ∈ s.liveOf m ↔ r ∈ s.live ∧ r.owner = m := by
  simp [liveOf]

@[simp] theorem mem_archivedOf {s : Depot α} {m : ℕ} {r : Row α} :
    r ∈ s.archivedOf m ↔ r ∈ s.archived ∧ r.owner = m := by
  simp [archivedOf]

/-- The constraints of the two tables. -/
def Constrained [UniqueTogether α] (s : Depot α) : Prop :=
  ((s.live.map Row.id).Nodup ∧ (s.archived.map Row.id).Nodup) ∧
    s.live.Pairwise (fun r t => ¬ (r.owner = t.owner ∧ UniqueTogether.same r.data t.data = true)) ∧
    s.archived.Pairwise fun r t => ¬ (r.owner = t.owner ∧ UniqueTogether.same r.data t.data = true)

instance decidableConstrained [UniqueTogether α] (s : Depot α) : Decidable s.Constrained :=
  inferInstanceAs (Decidable (_ ∧ _))

/-- The owners of both tables are there. -/
def Refers (owners archivedOwners : List ℕ) (s : Depot α) : Prop :=
  (∀ r ∈ s.live, r.owner ∈ owners) ∧ ∀ r ∈ s.archived, r.owner ∈ archivedOwners

instance decidableRefers (owners archivedOwners : List ℕ) (s : Depot α) :
    Decidable (s.Refers owners archivedOwners) :=
  inferInstanceAs (Decidable (_ ∧ _))

/-! ## Numbers are used once -/

/-- Every number was given out, and is one owner's in both tables. -/
structure Sound (s : Depot α) : Prop where
  live_lt : ∀ r ∈ s.live, r.id < s.next
  archived_lt : ∀ r ∈ s.archived, r.id < s.next
  owner_eq : ∀ r ∈ s.live, ∀ a ∈ s.archived, r.id = a.id → r.owner = a.owner

section Sound

variable {s : Depot α} (h : s.Sound)

include h

theorem Sound.change (c : Change α) : (s.change c).Sound := by
  cases c with
  | insert owner data =>
    constructor
    · intro r hr
      rcases mem_append.mp hr with hr | hr
      · exact Nat.lt_succ_of_lt (h.live_lt r hr)
      · rw [mem_singleton.mp hr]
        exact Nat.lt_succ_self _
    · exact fun r hr => Nat.lt_succ_of_lt (h.archived_lt r hr)
    · intro r hr a ha hid
      rcases mem_append.mp hr with hr | hr
      · exact h.owner_eq r hr a ha hid
      · rw [mem_singleton.mp hr] at hid
        exact absurd hid.symm (Nat.ne_of_lt (h.archived_lt a ha))
  | update id data =>
    have hkept : ∀ r ∈ (s.change (.update id data)).live, ∃ t ∈ s.live, r.id = t.id ∧
        r.owner = t.owner := by
      intro r hr
      obtain ⟨t, ht, rfl⟩ := mem_map.mp hr
      refine ⟨t, ht, ?_⟩
      split <;> exact ⟨rfl, rfl⟩
    constructor
    · intro r hr
      obtain ⟨t, ht, hid, -⟩ := hkept r hr
      rw [hid]
      exact h.live_lt t ht
    · exact h.archived_lt
    · intro r hr a ha hra
      obtain ⟨t, ht, hid, howner⟩ := hkept r hr
      rw [howner]
      exact h.owner_eq t ht a ha (hid ▸ hra)
  | delete id =>
    constructor
    · exact fun r hr => h.live_lt r (mem_filter.mp hr).1
    · exact h.archived_lt
    · exact fun r hr => h.owner_eq r (mem_filter.mp hr).1

theorem Sound.putAway (hlive : (s.live.map Row.id).Nodup) (owners : List ℕ) :
    (s.putAway owners).Sound := by
  constructor
  · exact h.live_lt
  · intro r hr
    rcases mem_insertNew.mp hr with hr | ⟨hr, -⟩
    · exact h.archived_lt r hr
    · exact h.live_lt r (mem_filter.mp hr).1
  · intro r hr a ha hid
    rcases mem_insertNew.mp ha with ha | ⟨ha, -⟩
    · exact h.owner_eq r hr a ha hid
    · rw [eq_of_key hlive hr (mem_filter.mp ha).1 hid]

theorem Sound.remove (owners : List ℕ) : (s.remove owners).Sound := by
  constructor
  · exact fun r hr => h.live_lt r (mem_filter.mp hr).1
  · exact h.archived_lt
  · exact fun r hr => h.owner_eq r (mem_filter.mp hr).1

theorem Sound.takeOut (harchived : (s.archived.map Row.id).Nodup) (owners : List ℕ) :
    (s.takeOut owners).Sound := by
  constructor
  · intro r hr
    rcases mem_insertNew.mp hr with hr | ⟨hr, -⟩
    · exact h.live_lt r hr
    · exact h.archived_lt r (mem_filter.mp hr).1
  · exact h.archived_lt
  · intro r hr a ha hid
    rcases mem_insertNew.mp hr with hr | ⟨hr, -⟩
    · exact h.owner_eq r hr a ha hid
    · rw [eq_of_key harchived (mem_filter.mp hr).1 ha hid]

theorem Sound.lose (owners : List ℕ) : (s.lose owners).Sound := by
  constructor
  · exact h.live_lt
  · exact fun r hr => h.archived_lt r (mem_filter.mp hr).1
  · exact fun r hr a ha => h.owner_eq r hr a (mem_filter.mp ha).1

/-! ## Putting away -/

variable {owners : List ℕ} {r : Row α} {m : ℕ}

/-- What an owner has put away afterwards: the rows it had there, and those with new numbers. -/
theorem Sound.mem_putAway (hm : m ∈ owners) : r ∈ (s.putAway owners).archivedOf m ↔
      r ∈ s.archivedOf m ∨ r ∈ s.liveOf m ∧ ∀ a ∈ s.archivedOf m, a.id ≠ r.id := by
  rw [mem_archivedOf]
  show r ∈ insertNew Row.id s.archived _ ∧ r.owner = m ↔ _
  rw [mem_insertNew, mem_archivedOf, mem_liveOf, mem_filter, contains_iff_mem]
  constructor
  · rintro ⟨hr | ⟨⟨hr, -⟩, hnew⟩, howner⟩
    · exact .inl ⟨hr, howner⟩
    · exact .inr ⟨⟨hr, howner⟩, fun a ha => hnew a (mem_archivedOf.mp ha).1⟩
  · rintro (⟨hr, howner⟩ | ⟨⟨hr, howner⟩, hnew⟩)
    · exact ⟨.inl hr, howner⟩
    · refine ⟨.inr ⟨⟨hr, howner ▸ hm⟩, ?_⟩, howner⟩
      -- a row with the same number would be the same owner's
      intro a ha hid
      exact hnew a (mem_archivedOf.mpr ⟨ha, (h.owner_eq r hr a ha hid.symm).symm.trans howner⟩) hid

omit h in
/-- The others have put away what they had. -/
theorem mem_putAway_other (hm : m ∉ owners) :
    r ∈ (s.putAway owners).archivedOf m ↔ r ∈ s.archivedOf m := by
  rw [mem_archivedOf, mem_archivedOf]
  show r ∈ insertNew Row.id s.archived _ ∧ r.owner = m ↔ _
  rw [mem_insertNew, mem_filter, contains_iff_mem]
  constructor
  · rintro ⟨hr | ⟨⟨-, howner⟩, -⟩, rfl⟩
    · exact ⟨hr, rfl⟩
    · exact absurd howner hm
  · rintro ⟨hr, rfl⟩
    exact ⟨.inl hr, rfl⟩

/-- **An owner's rows are put away as they are** exactly when what it had put away is still on
the depot. -/
theorem Sound.putAway_iff (hlive : (s.live.map Row.id).Nodup) (hm : m ∈ owners) :
    (∀ r, r ∈ (s.putAway owners).archivedOf m ↔ r ∈ s.liveOf m) ↔
      ∀ a ∈ s.archivedOf m, a ∈ s.live := by
  constructor
  · intro hsame a ha
    have hput := (h.mem_putAway hm).mpr (.inl ha)
    exact (mem_liveOf.mp ((hsame a).mp hput)).1
  · intro hcurrent r
    rw [h.mem_putAway hm]
    constructor
    · rintro (hr | ⟨hr, -⟩)
      · exact mem_liveOf.mpr ⟨hcurrent r hr, (mem_archivedOf.mp hr).2⟩
      · exact hr
    · intro hr
      by_cases hold : ∃ a ∈ s.archivedOf m, a.id = r.id
      · obtain ⟨a, ha, hid⟩ := hold
        rw [← eq_of_key hlive (hcurrent a ha) (mem_liveOf.mp hr).1 hid]
        exact .inl ha
      · exact .inr ⟨hr, fun a ha hid => hold ⟨a, ha, hid⟩⟩

/-! ## Taking out -/

/-- **An owner without rows gets back what it had put away.** -/
theorem Sound.mem_takeOut (hm : m ∈ owners) (hgone : ∀ r ∈ s.live, r.owner ≠ m) :
    r ∈ (s.takeOut owners).liveOf m ↔ r ∈ s.archivedOf m := by
  rw [mem_liveOf, mem_archivedOf]
  show r ∈ insertNew Row.id s.live _ ∧ r.owner = m ↔ _
  rw [mem_insertNew, mem_filter, contains_iff_mem]
  constructor
  · rintro ⟨hr | ⟨⟨hr, -⟩, -⟩, howner⟩
    · exact absurd howner (hgone r hr)
    · exact ⟨hr, howner⟩
  · rintro ⟨hr, howner⟩
    refine ⟨.inr ⟨⟨hr, howner ▸ hm⟩, ?_⟩, howner⟩
    intro d hd hid
    exact hgone d hd ((h.owner_eq d hd r hr hid).trans howner)

omit h in
/-- Taking out rows of owners without any keeps the constraints. -/
theorem Constrained.takeOut [UniqueTogether α] (hs : s.Constrained)
    (hgone : ∀ m ∈ owners, ∀ r ∈ s.live, r.owner ≠ m) : (s.takeOut owners).Constrained := by
  obtain ⟨⟨hlive, harchived⟩, hunique, haunique⟩ := hs
  refine ⟨⟨?_, harchived⟩, ?_, haunique⟩
  · exact nodup_insertNew hlive (harchived.sublist (filter_sublist.map _))
      fun _ _ _ _ hid => hid
  · refine pairwise_insertNew hunique (haunique.sublist filter_sublist) ?_
    intro d hd r hr _ hclash
    have howner := contains_iff_mem.mp (mem_filter.mp hr).2
    exact hgone r.owner howner d hd hclash.1

end Sound

end Depot
