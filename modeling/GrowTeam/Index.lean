/-
# Indexes

An index is a dictionary of lists: a member is entered under its key, and the members that are
gone are taken out key by key.  `Groups` says that an index holds the members of a list by
their keys, and nothing else.
-/
import Mathlib.Data.List.Nodup
import Mathlib.Data.List.Basic

/-- A dictionary of lists, in the order in which its keys came. -/
structure Index (κ ι : Type) where
  entries : List (κ × List ι)
  keys : (entries.map (·.1)).Nodup

namespace Index

open List

variable {κ ι α : Type} [DecidableEq κ]

def empty : Index κ ι := ⟨[], nodup_nil⟩

/-- `index.get(key, [])` -/
def get (ix : Index κ ι) (k : κ) : List ι :=
  match ix.entries.find? (·.1 = k) with
  | some e => e.2
  | none => []

/-- `key in index` -/
def has (ix : Index κ ι) (k : κ) : Bool := ix.entries.any (·.1 = k)

/-- `index[key] = l` for a key that is there. -/
def put (ix : Index κ ι) (k : κ) (l : List ι) : Index κ ι where
  entries := ix.entries.map fun e => if e.1 = k then (e.1, l) else e
  keys := by
    have hkeys : (ix.entries.map fun e => if e.1 = k then (e.1, l) else e).map (·.1) =
        ix.entries.map (·.1) := by
      rw [map_map]
      apply map_congr_left
      intro e _
      rw [Function.comp]
      split <;> rfl
    rw [hkeys]
    exact ix.keys

/-- `index[key] = l` for a key that is not there. -/
def enter (ix : Index κ ι) (k : κ) (l : List ι) (h : ¬ ix.has k = true) : Index κ ι where
  entries := ix.entries ++ [(k, l)]
  keys := by
    rw [map_append, map_singleton, nodup_append]
    refine ⟨ix.keys, nodup_singleton k, ?_⟩
    rintro a ha b hb rfl
    obtain ⟨e, he, hk⟩ := mem_map.mp ha
    refine h (any_eq_true.mpr ⟨e, he, decide_eq_true ?_⟩)
    exact hk.trans (mem_singleton.mp hb)

/-- `del index[key]` -/
def delete (ix : Index κ ι) (k : κ) : Index κ ι where
  entries := ix.entries.filter (·.1 ≠ k)
  keys := ix.keys.sublist (filter_sublist.map _)

/-- `index.setdefault(key, []).append(i)` -/
def add (ix : Index κ ι) (k : κ) (i : ι) : Index κ ι :=
  if h : ix.has k then ix.put k (ix.get k ++ [i]) else ix.enter k [i] h

/-- The members under a key without those that are gone. -/
def discard (ix : Index κ ι) (k : κ) (gone : ι → Bool) : Index κ ι :=
  if ix.has k then
    let l := (ix.get k).filter (!gone ·)
    if l.isEmpty then ix.delete k else ix.put k l
  else ix

variable {ix : Index κ ι} {k k' : κ} {l : List ι}

/-! ## Lookups -/

theorem has_iff : ix.has k = true ↔ ∃ l, (k, l) ∈ ix.entries := by
  unfold has
  rw [any_eq_true]
  constructor
  · rintro ⟨⟨a, l⟩, he, hk⟩
    obtain rfl : a = k := of_decide_eq_true hk
    exact ⟨l, he⟩
  · rintro ⟨l, he⟩
    exact ⟨(k, l), he, decide_eq_true rfl⟩

/-- An entry is what is found under its key. -/
theorem get_of_mem (h : (k, l) ∈ ix.entries) : ix.get k = l := by
  unfold get
  cases hfind : ix.entries.find? (·.1 = k) with
  | none =>
    have hno := find?_eq_none.mp hfind _ h
    simp at hno
  | some e =>
    have hfound := find?_some hfind
    have hk : e.1 = k := of_decide_eq_true hfound
    have hsame : e = (k, l) :=
      inj_on_of_nodup_map ix.keys (mem_of_find?_eq_some hfind) h hk
    rw [hsame]

theorem get_of_not_has (h : ¬ ix.has k = true) : ix.get k = [] := by
  have hnone : ix.entries.find? (·.1 = k) = none := by
    rw [find?_eq_none]
    intro e he hk
    obtain rfl : e.1 = k := of_decide_eq_true hk
    exact h (has_iff.mpr ⟨e.2, he⟩)
  rw [get, hnone]

theorem mem_of_get (h : ix.get k ≠ []) : (k, ix.get k) ∈ ix.entries := by
  by_cases hk : ix.has k = true
  · obtain ⟨l, hl⟩ := has_iff.mp hk
    rwa [get_of_mem hl]
  · exact absurd (get_of_not_has hk) h

/-- What is found under a key is determined by the entries. -/
theorem get_congr {iy : Index κ ι} (h : ∀ l, (k, l) ∈ ix.entries ↔ (k', l) ∈ iy.entries) :
    ix.get k = iy.get k' := by
  by_cases hk : ix.has k = true
  · obtain ⟨l, hl⟩ := has_iff.mp hk
    rw [get_of_mem hl, get_of_mem ((h l).mp hl)]
  · have hk' : ¬ iy.has k' = true := by
      rintro hhas
      obtain ⟨l, hl⟩ := has_iff.mp hhas
      exact hk (has_iff.mpr ⟨l, (h l).mpr hl⟩)
    rw [get_of_not_has hk, get_of_not_has hk']

theorem mem_put {e : κ × List ι} :
    e ∈ (ix.put k l).entries ↔ (e ∈ ix.entries ∧ e.1 ≠ k) ∨ (e = (k, l) ∧ ix.has k = true) := by
  show e ∈ ix.entries.map _ ↔ _
  rw [mem_map, has_iff]
  constructor
  · rintro ⟨f, hf, rfl⟩
    by_cases hk : f.1 = k
    · rw [if_pos hk]
      exact .inr ⟨by rw [hk], f.2, by rw [← hk]; exact hf⟩
    · rw [if_neg hk]
      exact .inl ⟨hf, hk⟩
  · rintro (⟨he, hk⟩ | ⟨rfl, m, hm⟩)
    · exact ⟨e, he, if_neg hk⟩
    · exact ⟨(k, m), hm, if_pos rfl⟩

theorem get_put (h : ix.has k = true) : (ix.put k l).get k' = if k' = k then l else ix.get k' := by
  split
  · next hk =>
    subst hk
    exact get_of_mem (mem_put.mpr (.inr ⟨rfl, h⟩))
  · next hk =>
    refine get_congr fun m => ?_
    rw [mem_put]
    constructor
    · rintro (⟨hm, -⟩ | ⟨heq, -⟩)
      · exact hm
      · exact absurd (congrArg Prod.fst heq) hk
    · intro hm
      exact .inl ⟨hm, hk⟩

theorem get_delete : (ix.delete k).get k' = if k' = k then [] else ix.get k' := by
  have hmem : ∀ e, e ∈ (ix.delete k).entries ↔ e ∈ ix.entries ∧ e.1 ≠ k := by
    intro e
    show e ∈ ix.entries.filter _ ↔ _
    rw [mem_filter, decide_eq_true_eq]
  split
  · next hk =>
    refine get_of_not_has ?_
    rw [has_iff]
    rintro ⟨l, hl⟩
    exact ((hmem _).mp hl).2 hk
  · next hk =>
    refine get_congr fun m => ?_
    rw [hmem]
    exact and_iff_left hk

theorem get_add (i : ι) :
    (ix.add k i).get k' = if k' = k then ix.get k ++ [i] else ix.get k' := by
  unfold add
  by_cases h : ix.has k = true
  · rw [dif_pos h]
    exact get_put h
  · rw [dif_neg h, get_of_not_has h]
    split
    · next hk =>
      subst hk
      exact get_of_mem (mem_append_right _ (mem_singleton_self _))
    · next hk =>
      refine get_congr fun m => ?_
      show _ ∈ ix.entries ++ _ ↔ _
      rw [mem_append, mem_singleton]
      constructor
      · rintro (hm | heq)
        · exact hm
        · exact absurd (congrArg Prod.fst heq) hk
      · exact Or.inl

theorem get_discard (gone : ι → Bool) :
    (ix.discard k gone).get k' =
      if k' = k then (ix.get k).filter (!gone ·) else ix.get k' := by
  unfold discard
  by_cases h : ix.has k = true
  · rw [if_pos h]
    by_cases hl : ((ix.get k).filter (!gone ·)).isEmpty = true
    · rw [if_pos hl, get_delete, List.isEmpty_iff.mp hl]
    · rw [if_neg hl, get_put h]
  · rw [if_neg h]
    split
    · next hk =>
      rw [hk, get_of_not_has h]
      rfl
    · rfl

/-! ## No list is empty -/

def Full (ix : Index κ ι) : Prop := ∀ e ∈ ix.entries, e.2 ≠ []

theorem full_put (h : ix.Full) (hl : l ≠ []) : (ix.put k l).Full := by
  intro e he
  rcases mem_put.mp he with ⟨he, -⟩ | ⟨rfl, -⟩
  · exact h e he
  · exact hl

theorem full_add (h : ix.Full) (i : ι) : (ix.add k i).Full := by
  unfold add
  split
  · exact full_put h (by simp)
  · intro e he
    rcases mem_append.mp he with he | he
    · exact h e he
    · rw [mem_singleton.mp he]
      exact cons_ne_nil _ _

theorem full_discard (h : ix.Full) (gone : ι → Bool) : (ix.discard k gone).Full := by
  unfold discard
  split
  · dsimp only
    split
    · intro e he
      exact h e (mem_of_mem_filter he)
    · next hl => exact full_put h fun hnil => hl (List.isEmpty_iff.mpr hnil)
  · exact h

/-! ## An index of the members of a list -/

/-- The index holds the names of the members under their keys, in order; a member without a key
is not in it. -/
structure Groups (key : α → Option κ) (name : α → ι) (members : List α) (ix : Index κ ι) :
    Prop where
  get : ∀ k, ix.get k = (members.filter (key · = some k)).map name
  full : ix.Full

variable {key : α → Option κ} {name : α → ι} {members : List α}

namespace Groups

theorem empty : Groups key name [] Index.empty where
  get _ := rfl
  full e he := by cases he

section

variable (h : Groups key name members ix)

include h

theorem add {x : α} (hk : key x = some k) :
    Groups key name (members ++ [x]) (ix.add k (name x)) where
  get k' := by
    rw [get_add, filter_append, map_append, ← h.get k']
    split
    · next hkk =>
      subst hkk
      simp [hk, h.get]
    · next hkk => simp [hk, Ne.symm hkk]
  full := full_add h.full _

theorem skip {x : α} (hk : key x = none) : Groups key name (members ++ [x]) ix where
  get k := by
    rw [filter_append, map_append, ← h.get k]
    simp [hk]
  full := h.full

/-- Members that have the same keys and names, in the same order. -/
theorem congr {β : Type} {key' : β → Option κ} {name' : β → ι} {members' : List β}
    (hsame : members'.map (fun x => (key' x, name' x)) = members.map fun x => (key x, name x)) :
    Groups key' name' members' ix where
  get k := by
    have hpairs : ∀ {γ : Type} (key : γ → Option κ) (name : γ → ι) (members : List γ),
        (members.filter (key · = some k)).map name =
          ((members.map fun x => (key x, name x)).filter (·.1 = some k)).map (·.2) := by
      intro γ key name members
      rw [filter_map, map_map]
      rfl
    rw [h.get k, hpairs key name, hpairs key' name', hsame]
  full := h.full

/-- Members are taken out under all keys of those that are gone. -/
theorem discardAll {gone : ι → Bool} {ks : List κ}
    (hks : ∀ x ∈ members, gone (name x) = true → ∀ k, key x = some k → k ∈ ks) :
    Groups key name (members.filter fun x => !gone (name x))
      (ks.foldl (fun ix k => ix.discard k gone) ix) where
  get k := by
    have hfold : ∀ (ks : List κ) (ix : Index κ ι),
        (ks.foldl (fun ix k => ix.discard k gone) ix).get k =
          if k ∈ ks then (ix.get k).filter (!gone ·) else ix.get k := by
      intro ks
      induction ks with
      | nil => simp
      | cons a ks ih =>
        intro ix
        rw [foldl_cons, ih, get_discard]
        by_cases ha : k = a
        · subst ha
          simp [filter_filter]
        · simp [ha]
    rw [hfold, h.get k, filter_filter]
    split
    · rw [filter_map, filter_filter]
      congr 1
      apply filter_congr
      intro x _
      exact Bool.and_comm _ _
    · next hk =>
      -- Nobody under this key is gone.
      congr 1
      apply filter_congr
      intro x hx
      by_cases hkx : key x = some k
      · have hstay : gone (name x) = false := by
          by_contra hgone
          exact hk (hks x hx (by simpa using hgone) k hkx)
        simp [hkx, hstay]
      · simp [hkx]
  full := by
    have hfold : ∀ (ks : List κ) (ix : Index κ ι), ix.Full →
        (ks.foldl (fun ix k => ix.discard k gone) ix).Full := by
      intro ks
      induction ks with
      | nil => exact fun _ h => h
      | cons a ks ih => exact fun ix h => ih _ (full_discard h gone)
    exact hfold ks ix h.full

end

end Groups

end Index
