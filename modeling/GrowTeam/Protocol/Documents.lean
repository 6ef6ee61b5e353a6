import GrowTeam.Protocol.Canonical
import Mathlib.Data.List.Nodup
import Mathlib.Data.List.Pairwise

/-!
# When both sides hash the same bytes

A value that a side accepts is written as one document: its members in the order of
that side, its numbers in the text of that side.  The text determines the
document, so the bytes are the same exactly when the documents are: no number is a
double, and no object has two keys that the two orders arrange differently.
-/

namespace GrowTeam.Canonical

open Utf16 JsonText List

/-! ## Recursion over a value -/

/-- Induction over a value, with the claim at every part of an array or object. -/
@[elab_as_elim]
theorem Json.parts_induction {motive : Json → Prop} (null : motive .null)
    (bool : ∀ b, motive (.bool b)) (integer : ∀ n, motive (.integer n))
    (float : ∀ x, motive (.float x)) (string : ∀ s, motive (.string s))
    (array : ∀ items, (∀ v ∈ items, motive v) → motive (.array items))
    (object : ∀ members, (∀ m ∈ members, motive m.2) → motive (.object members)) :
    ∀ v, motive v
  | .null => null
  | .bool b => bool b
  | .integer n => integer n
  | .float x => float x
  | .string s => string s
  | .array items =>
    array items fun v _ => parts_induction null bool integer float string array object v
  | .object members =>
    object members fun m _ => parts_induction null bool integer float string array object m.2
termination_by v => sizeOf v
decreasing_by
  · have := sizeOf_lt_of_mem ‹_ ∈ items›
    rw [Json.array.sizeOf_spec]
    omega
  · have := sizeOf_lt_of_mem ‹_ ∈ members›
    cases m
    simp only [Json.object.sizeOf_spec, Prod.mk.sizeOf_spec] at this ⊢
    omega

variable (items : List Json)

@[simp] theorem itemParts_eq : itemParts items = items.flatMap Json.parts := by
  induction items with
  | nil => rfl
  | cons v rest ih => rw [itemParts, ih, flatMap_cons]

variable (members : List (List CodeUnit × Json))

@[simp] theorem memberParts_eq :
    memberParts members = members.flatMap fun m => .string m.1 :: m.2.parts := by
  induction members with
  | nil => rfl
  | cons m rest ih => rw [memberParts, ih, flatMap_cons]

@[simp] theorem canonicalItems_eq : canonicalItems items = items.mapM canonical := by
  induction items with
  | nil => rfl
  | cons v rest ih => rw [canonicalItems, ih, mapM_cons]

@[simp] theorem canonicalMembers_eq :
    canonicalMembers members = members.mapM fun m => (canonical m.2).map fun t => (m.1, t) := by
  induction members with
  | nil => rfl
  | cons m rest ih =>
    rw [canonicalMembers, ih, mapM_cons]
    cases canonical m.2 <;> rfl

@[simp] theorem dumpsItems_eq : dumpsItems items = items.mapM dumps := by
  induction items with
  | nil => rfl
  | cons v rest ih => rw [dumpsItems, ih, mapM_cons]

@[simp] theorem dumpsMembers_eq :
    dumpsMembers members = members.mapM fun m => (dumps m.2).map fun t => (m.1, t) := by
  induction members with
  | nil => rfl
  | cons m rest ih =>
    rw [dumpsMembers, ih, mapM_cons]
    cases dumps m.2 <;> rfl

section

variable {α β : Type} {f : α → Except String β}

theorem mapM_ok {g : α → β} : ∀ {l : List α}, (∀ a ∈ l, f a = .ok (g a)) →
    l.mapM f = .ok (l.map g)
  | [], _ => rfl
  | a :: l, h => by
    rw [mapM_cons, h a (mem_cons_self ..), mapM_ok fun b hb => h b (mem_cons_of_mem _ hb)]
    rfl

theorem mapM_error : ∀ {l : List α}, (∃ a ∈ l, ∃ e, f a = .error e) → ∃ e, l.mapM f = .error e
  | [], h => by
    obtain ⟨a, ha, _⟩ := h
    cases ha
  | a :: l, h => by
    rw [mapM_cons]
    cases ha : f a with
    | error e => exact ⟨e, rfl⟩
    | ok b =>
      obtain ⟨c, hc, e, he⟩ := h
      obtain rfl | hc := mem_cons.mp hc
      · rw [ha] at he
        cases he
      · obtain ⟨e', he'⟩ := mapM_error ⟨c, hc, e, he⟩
        rw [he']
        exact ⟨e', rfl⟩

theorem mapM_mem : ∀ {l : List α} {bs : List β}, l.mapM f = .ok bs → ∀ a ∈ l,
    ∃ b ∈ bs, f a = .ok b
  | [], _, _, a, ha => by cases ha
  | a :: l, bs, h, c, hc => by
    rw [mapM_cons] at h
    cases hb : f a with
    | error e =>
      rw [hb] at h
      cases h
    | ok b =>
      cases hrest : l.mapM f with
      | error e =>
        rw [hb, hrest] at h
        cases h
      | ok rest =>
        rw [hb, hrest] at h
        cases h
        obtain rfl | hc := mem_cons.mp hc
        · exact ⟨b, mem_cons_self .., hb⟩
        · obtain ⟨d, hd, hfd⟩ := mapM_mem hrest c hc
          exact ⟨d, mem_cons_of_mem _ hd, hfd⟩

end

theorem then_ok {x y : Except String Unit} :
    (x >>= fun _ => y) = .ok () ↔ x = .ok () ∧ y = .ok () := by
  cases x <;> simp [bind, Except.bind]

/-! ## Sorted members -/

theorem mem_sorted {α : Type} {le : List CodeUnit → List CodeUnit → Bool}
    {members : List (List CodeUnit × α)} {m : List CodeUnit × α} :
    m ∈ sorted le members ↔ m ∈ members := mem_insertionSort _

variable (le : List CodeUnit → List CodeUnit → Bool)

theorem sorted_map {α β : Type} (f : α → β) (members : List (List CodeUnit × α)) :
    sorted le (members.map fun m => (m.1, f m.2)) =
      (sorted le members).map fun m => (m.1, f m.2) := by
  have hmap := map_insertionSort (fun a b : List CodeUnit × α => le a.1 b.1 = true)
    (fun a b : List CodeUnit × β => le a.1 b.1 = true) (fun m => (m.1, f m.2)) members
    fun _ _ _ _ => .rfl
  exact hmap.symm

theorem sorted_keys {α : Type} (members : List (List CodeUnit × α)) :
    (sorted le members).map Prod.fst =
      (members.map Prod.fst).insertionSort fun s t => le s t = true :=
  map_insertionSort _ (fun s t => le s t = true) Prod.fst members fun _ _ _ _ => .rfl

theorem sorted_congr {α : Type} {le le' : List CodeUnit → List CodeUnit → Bool}
    {members : List (List CodeUnit × α)}
    (h : ∀ s ∈ members.map Prod.fst, ∀ t ∈ members.map Prod.fst, le s t = le' s t) :
    sorted le members = sorted le' members := by
  have hmap := map_insertionSort (fun a b : List CodeUnit × α => le a.1 b.1 = true)
    (fun a b => le' a.1 b.1 = true) id members fun a ha b hb => by
      rw [h a.1 (mem_map_of_mem ha) b.1 (mem_map_of_mem hb)]
      rfl
  simpa [sorted] using hmap

instance : Std.Total fun s t => unitsLe s t = true where
  total s t := by simpa [unitsLe] using le_total s t

instance : IsTrans (List CodeUnit) fun s t => unitsLe s t = true where
  trans s t u h h' := by
    simp only [unitsLe, decide_eq_true_eq] at *
    exact h.trans h'

instance : Std.Total fun s t => pointsLe s t = true where
  total s t := by simpa [pointsLe] using le_total (decode s) (decode t)

instance : IsTrans (List CodeUnit) fun s t => pointsLe s t = true where
  trans s t u h h' := by
    simp only [pointsLe, decide_eq_true_eq] at *
    exact h.trans h'

/-- If the two orders arrange the keys in one way, they agree on them. -/
theorem agree_of_sorted_eq {keys : List (List CodeUnit)} (hpaired : ∀ s ∈ keys, Paired s)
    (h : (keys.insertionSort fun s t => unitsLe s t = true) =
      keys.insertionSort fun s t => pointsLe s t = true)
    {s t : List CodeUnit} (hs : s ∈ keys) (ht : t ∈ keys) : unitsLe s t = pointsLe s t := by
  by_cases hst : s = t
  · subst hst
    simp [unitsLe, pointsLe]
  · have hunits := pairwise_insertionSort (fun s t => unitsLe s t = true) keys
    have hpoints := pairwise_insertionSort (fun s t => pointsLe s t = true) keys
    rw [← h] at hpoints
    have hboth := hunits.and hpoints
    -- Of two keys of the sorted list, one stands before the other.
    have hsome : (unitsLe s t = true ∧ pointsLe s t = true) ∨
        (unitsLe t s = true ∧ pointsLe t s = true) := by
      have hmem : ∀ {u}, u ∈ keys → u ∈ keys.insertionSort fun s t => unitsLe s t = true :=
        fun hu => (mem_insertionSort _).mpr hu
      have hsymm : Std.Symm fun u v => (unitsLe u v = true ∧ pointsLe u v = true) ∨
          (unitsLe v u = true ∧ pointsLe v u = true) := ⟨fun _ _ => Or.symm⟩
      have hor := hboth.imp fun {u v} huv =>
        (show (unitsLe u v = true ∧ pointsLe u v = true) ∨
          (unitsLe v u = true ∧ pointsLe v u = true) from .inl huv)
      exact hor.forall (hmem hs) (hmem ht) hst
    obtain ⟨hu, hp⟩ | ⟨hu, hp⟩ := hsome
    · rw [hu, hp]
    · have hu' : unitsLe s t = false := by
        simp only [unitsLe, decide_eq_true_eq, decide_eq_false_iff_not] at hu ⊢
        exact fun hle => hst (le_antisymm hle hu)
      have hp' : pointsLe s t = false := by
        simp only [pointsLe, decide_eq_true_eq, decide_eq_false_iff_not] at hp ⊢
        exact fun hle => hst
          (decode_injective (hpaired s hs) (hpaired t ht) (le_antisymm hle hp))
      rw [hu', hp']

/-- The two orders agree on a pair of keys unless one crosses the other. -/
theorem unitsLe_eq_pointsLe {s t : List CodeUnit} (hs : Paired s) (ht : Paired t) :
    unitsLe s t = pointsLe s t ↔
      crossed (decode s) (decode t) = false ∧ crossed (decode t) (decode s) = false := by
  rw [and_comm, ← order_agrees ht hs]
  unfold unitsLe pointsLe
  rw [decide_eq_decide, ← not_lt, ← not_lt (a := decode t)]
  exact not_iff_not

/-! ## The document that is written -/

variable {c : ℕ}

theorem decimal_digits {n : ℕ} (h : c ∈ decimal n) : 48 ≤ c ∧ c < 58 := by
  unfold decimal at h
  split at h
  · obtain rfl := mem_singleton.mp h
    omega
  · obtain ⟨d, hd, rfl⟩ := mem_map.mp h
    have := Nat.digits_lt_base (by omega) (mem_reverse.mp hd)
    omega

theorem decimal_ne_nil (n : ℕ) : decimal n ≠ [] := by
  unfold decimal
  split
  · exact cons_ne_nil _ _
  · next h => simpa [Nat.digits_ne_nil_iff_ne_zero] using h

theorem integerText_chars {n : ℤ} (h : c ∈ integerText n) : c = 45 ∨ 48 ≤ c ∧ c < 58 := by
  unfold integerText at h
  split at h
  · obtain rfl | h := mem_cons.mp h
    · exact .inl rfl
    · exact .inr (decimal_digits h)
  · exact .inr (decimal_digits h)

theorem isPlain_digit (h : 48 ≤ c ∧ c < 58) : isPlain c = true := by
  simp [isPlain, h.1, h.2]

def integerAtom (n : ℤ) : Atom where
  text := integerText n
  nonempty := by
    unfold integerText
    split
    · exact cons_ne_nil _ _
    · exact decimal_ne_nil _
  plain c h := by
    obtain rfl | h := integerText_chars h
    · rfl
    · exact isPlain_digit h

theorem shortest_digits {r : ℚ} (h : c ∈ (shortest r).1) : 48 ≤ c ∧ c < 58 := by
  unfold shortest at h
  split at h
  · exact decimal_digits (( rdropWhile_prefix _ _).subset h)
  · obtain rfl := mem_singleton.mp h
    omega

theorem exponentText_plain {e : ℤ} (h : c ∈ exponentText e) : isPlain c = true := by
  obtain rfl | h := mem_cons.mp h
  · split <;> rfl
  · split at h
    · obtain rfl | h := mem_cons.mp h
      · rfl
      · exact isPlain_digit (decimal_digits h)
    · exact isPlain_digit (decimal_digits h)

theorem pointed_plain {digits : Text} {point : ℤ} (hdigits : ∀ c ∈ digits, 48 ≤ c ∧ c < 58)
    (h : c ∈ pointed digits point) : isPlain c = true := by
  unfold pointed at h
  all_goals
    grind [exponentText_plain, isPlain]

theorem pointed_mark (digits : Text) (point : ℤ) :
    ∃ c ∈ pointed digits point, c = 46 ∨ c = 101 := by
  unfold pointed
  split_ifs
  · exact ⟨101, by simp, .inr rfl⟩
  · exact ⟨101, by simp, .inr rfl⟩
  · exact ⟨46, by simp, .inl rfl⟩
  · exact ⟨46, by simp, .inl rfl⟩
  · exact ⟨46, by simp, .inl rfl⟩

theorem floatRepr_plain {x : Double} (h : c ∈ floatRepr x) : isPlain c = true := by
  have hsign : ∀ {b : Bool} {c : ℕ}, c ∈ (if b then [45] else []) → isPlain c = true := by
    intro b c hc
    cases b with
    | true =>
      obtain rfl := mem_singleton.mp hc
      rfl
    | false => cases hc
  cases x with
  | finite negative m =>
    obtain h | h := mem_append.mp h
    · exact hsign h
    · split at h
      · refine pointed_plain ?_ h
        intro d hd
        obtain rfl := mem_singleton.mp hd
        omega
      · exact pointed_plain (fun _ => shortest_digits) h
  | infinite negative =>
    obtain h | h := mem_append.mp h
    · exact hsign h
    · obtain rfl | rfl | rfl : c = 105 ∨ c = 110 ∨ c = 102 := by simpa [text] using h
      all_goals rfl

/-- The text of a double has a character that no integer's text has. -/
theorem floatRepr_mark (x : Double) : ∃ c ∈ floatRepr x, c = 46 ∨ c = 101 ∨ c = 105 := by
  cases x with
  | finite negative m =>
    have hmark : ∃ c ∈ (if m.mantissa = 0 then pointed [48] 1
        else pointed (shortest m.value).1 (shortest m.value).2), c = 46 ∨ c = 101 := by
      split
      · exact pointed_mark _ _
      · exact pointed_mark _ _
    obtain ⟨c, hc, h⟩ := hmark
    exact ⟨c, mem_append.mpr (.inr hc), h.imp_right .inl⟩
  | infinite negative =>
    exact ⟨105, mem_append.mpr (.inr (by simp [text])), .inr (.inr rfl)⟩

def floatAtom (x : Double) : Atom where
  text := floatRepr x
  nonempty := by
    obtain ⟨c, hc, _⟩ := floatRepr_mark x
    exact ne_nil_of_mem hc
  plain _ h := floatRepr_plain h

theorem integerAtom_ne_floatAtom (n : ℤ) (x : Double) : integerAtom n ≠ floatAtom x := by
  intro h
  obtain ⟨c, hc, hmark⟩ := floatRepr_mark x
  have htext : integerText n = floatRepr x := congrArg Atom.text h
  have := integerText_chars (htext ▸ hc)
  omega

def literal (s : String) (h : text s ≠ []) (h' : ∀ c ∈ text s, isPlain c = true) : Doc :=
  .atom ⟨text s, h, h'⟩

mutual

/-- The document of a value: members in the order `le`, doubles as `number` writes them. -/
def doc (le : List CodeUnit → List CodeUnit → Bool) (number : Double → Atom) : Json → Doc
  | .null => literal "null" (by decide) (by decide)
  | .bool b => if b then literal "true" (by decide) (by decide)
    else literal "false" (by decide) (by decide)
  | .integer n => .atom (integerAtom n)
  | .float x => .atom (number x)
  | .string s => .string (decode s)
  | .array items => .array (itemDocs le number items)
  | .object members =>
    .object ((sorted le (memberDocs le number members)).map fun m => (decode m.1, m.2))

def itemDocs (le : List CodeUnit → List CodeUnit → Bool) (number : Double → Atom) :
    List Json → List Doc
  | [] => []
  | v :: rest => doc le number v :: itemDocs le number rest

def memberDocs (le : List CodeUnit → List CodeUnit → Bool) (number : Double → Atom) :
    List (List CodeUnit × Json) → List (List CodeUnit × Doc)
  | [] => []
  | (k, v) :: rest => (k, doc le number v) :: memberDocs le number rest

end

section

variable (le : List CodeUnit → List CodeUnit → Bool) (number : Double → Atom)

@[simp] theorem itemDocs_eq (items : List Json) :
    itemDocs le number items = items.map (doc le number) := by
  induction items with
  | nil => rfl
  | cons v rest ih => rw [itemDocs, ih, map_cons]

@[simp] theorem memberDocs_eq (members : List (List CodeUnit × Json)) :
    memberDocs le number members = members.map fun m => (m.1, doc le number m.2) := by
  induction members with
  | nil => rfl
  | cons m rest ih => rw [memberDocs, ih, map_cons]

end

/-- A double as the runner writes it: as the integer that it is. -/
def runnerNumber (x : Double) : Atom := integerAtom (x.safeInteger?.getD 0)

/-- The document that the runner writes. -/
def runnerDoc : Json → Doc := doc unitsLe runnerNumber

/-- The document that the server writes. -/
def serverDoc : Json → Doc := doc pointsLe floatAtom

end GrowTeam.Canonical
