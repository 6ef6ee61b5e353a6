import GrowTeam.Utf16

/-!
# Compact JSON text

A JSON document whose members are in a fixed order, its text without blanks, and
the fact that the text determines the document.  Texts are lists of code points;
numbers and literals are kept as the text that was written for them.
-/

namespace JsonText

open List

abbrev Text := List ℕ

def text (s : String) : Text := s.toList.map Char.toNat

/-! ## Strings -/

def hexDigit (n : ℕ) : ℕ := if n < 10 then 48 + n else 87 + n

/-- `\uXXXX`, in lower case. -/
def unicodeEscape (p : ℕ) : Text :=
  [92, 117, hexDigit (p / 4096 % 16), hexDigit (p / 256 % 16), hexDigit (p / 16 % 16),
    hexDigit (p % 16)]

/-- The letter of the characters that have an escape of one letter. -/
def shortEscape (p : ℕ) : Option ℕ :=
  if p = 8 then some 98
  else if p = 9 then some 116
  else if p = 10 then some 110
  else if p = 12 then some 102
  else if p = 13 then some 114
  else if p = 34 then some 34
  else if p = 92 then some 92
  else none

/-- A character inside a string; a lone surrogate is always escaped. -/
def escape (p : ℕ) : Text :=
  match shortEscape p with
  | some letter => [92, letter]
  | none => if p < 32 || Utf16.isSurrogate p then unicodeEscape p else [p]

/-- A string between quotation marks. -/
def quote (points : List ℕ) : Text := 34 :: points.flatMap escape ++ [34]

def hexValue (c : ℕ) : ℕ := if c < 58 then c - 48 else c - 87

/-- The character of each escape of one letter. -/
def shortValue (letter : ℕ) : Option ℕ :=
  if letter = 98 then some 8
  else if letter = 116 then some 9
  else if letter = 110 then some 10
  else if letter = 102 then some 12
  else if letter = 114 then some 13
  else if letter = 34 then some 34
  else if letter = 92 then some 92
  else none

/-- The character at the front of a quoted text, and what follows. -/
def unescape : Text → Option (ℕ × Text)
  | [] => none
  | p :: r =>
    if p = 34 then none
    else if p = 92 then
      match r with
      | 117 :: a :: b :: c :: d :: rest =>
        some (4096 * hexValue a + 256 * hexValue b + 16 * hexValue c + hexValue d, rest)
      | letter :: rest => (shortValue letter).map fun value => (value, rest)
      | [] => none
    else some (p, r)

theorem hexValue_hexDigit {n : ℕ} (h : n < 16) : hexValue (hexDigit n) = n := by
  unfold hexDigit hexValue
  split <;> split <;> omega

theorem shortEscape_some {p letter : ℕ} (h : shortEscape p = some letter) :
    shortValue letter = some p ∧ letter ≠ 117 := by
  unfold shortEscape at h
  split_ifs at h with h8 h9 h10 h12 h13 h34 h92
  all_goals
    cases h
    subst p
    decide

theorem shortEscape_none {p : ℕ} (h : shortEscape p = none) : p ≠ 34 ∧ p ≠ 92 := by
  constructor
  · rintro rfl
    cases h
  · rintro rfl
    cases h

theorem unescape_escape (p : ℕ) (r : Text) : unescape (escape p ++ r) = some (p, r) := by
  unfold escape
  split
  · next letter hshort =>
    obtain ⟨hvalue, hne⟩ := shortEscape_some hshort
    simp [unescape, hvalue, hne]
  · next hshort =>
    split
    · next hcoded =>
      have hp : p < 65536 := by
        simp only [Utf16.isSurrogate, Bool.or_eq_true, Bool.and_eq_true, decide_eq_true_eq]
          at hcoded
        omega
      have hdigit : ∀ k, hexValue (hexDigit (k % 16)) = k % 16 :=
        fun k => hexValue_hexDigit (Nat.mod_lt _ (by omega))
      simp only [unicodeEscape, unescape, cons_append, nil_append, hdigit,
        if_true, Nat.reduceEqDiff, if_false, Option.some.injEq, Prod.mk.injEq, and_true]
      omega
    · obtain ⟨hquote, hslash⟩ := shortEscape_none hshort
      simp [unescape, hquote, hslash]

variable {r r' : Text}

/-- **A quoted string can be read back**, whatever follows it. -/
theorem quote_append_inj {p q : List ℕ} (h : quote p ++ r = quote q ++ r') :
    p = q ∧ r = r' := by
  have htail : ∀ (p q : List ℕ), p.flatMap escape ++ 34 :: r = q.flatMap escape ++ 34 :: r' →
      p = q ∧ r = r' := by
    intro p
    induction p with
    | nil =>
      intro q hq
      cases q with
      | nil => exact ⟨rfl, by simpa using hq⟩
      | cons b q =>
        have := congrArg unescape hq
        rw [flatMap_cons, append_assoc, unescape_escape] at this
        cases this
    | cons a p ih =>
      intro q hq
      cases q with
      | nil =>
        have := congrArg unescape hq
        rw [flatMap_cons, append_assoc, unescape_escape] at this
        cases this
      | cons b q =>
        have := congrArg unescape hq
        rw [flatMap_cons, flatMap_cons, append_assoc, append_assoc,
          unescape_escape, unescape_escape] at this
        obtain ⟨rfl, hrest⟩ : a = b ∧ _ := by simpa using this
        obtain ⟨rfl, hr⟩ := ih q hrest
        exact ⟨rfl, hr⟩
  refine htail p q ?_
  simpa [quote] using h

/-! ## Documents -/

/-- A character of a number or of a literal. -/
def isPlain (c : ℕ) : Bool :=
  c == 43 || c == 45 || c == 46 || (48 ≤ c && c < 58) || (97 ≤ c && c < 123)

/-- The text of a number or of a literal. -/
structure Atom where
  text : Text
  nonempty : text ≠ []
  plain : ∀ c ∈ text, isPlain c = true

inductive Doc
  | atom (a : Atom)
  | string (points : List ℕ)
  | array (items : List Doc)
  | object (members : List (List ℕ × Doc))

/-- The texts with a comma between each two. -/
def commas : List Text → Text
  | [] => []
  | [t] => t
  | t :: next :: rest => t ++ 44 :: commas (next :: rest)

def member (key : List ℕ) (value : Text) : Text := quote key ++ 58 :: value

mutual

def write : Doc → Text
  | .atom a => a.text
  | .string points => quote points
  | .array items => 91 :: commas (writeItems items) ++ [93]
  | .object members => 123 :: commas (writeMembers members) ++ [125]

def writeItems : List Doc → List Text
  | [] => []
  | d :: rest => write d :: writeItems rest

def writeMembers : List (List ℕ × Doc) → List Text
  | [] => []
  | (k, d) :: rest => member k (write d) :: writeMembers rest

end

def writeMember (m : List ℕ × Doc) : Text := member m.1 (write m.2)

@[simp] theorem writeItems_eq (items : List Doc) : writeItems items = items.map write := by
  induction items with
  | nil => rfl
  | cons d rest ih => rw [writeItems, ih, map_cons]

@[simp] theorem writeMembers_eq (members : List (List ℕ × Doc)) :
    writeMembers members = members.map writeMember := by
  induction members with
  | nil => rfl
  | cons m rest ih => rw [writeMembers, ih, map_cons, writeMember]

/-- Induction over a document, with the claim at every part of an array or object. -/
@[elab_as_elim]
theorem Doc.parts_induction {motive : Doc → Prop} (atom : ∀ a, motive (.atom a))
    (string : ∀ points, motive (.string points))
    (array : ∀ items, (∀ d ∈ items, motive d) → motive (.array items))
    (object : ∀ members, (∀ m ∈ members, motive m.2) → motive (.object members)) :
    ∀ d, motive d
  | .atom a => atom a
  | .string points => string points
  | .array items => array items fun d _ => parts_induction atom string array object d
  | .object members => object members fun m _ => parts_induction atom string array object m.2
termination_by d => sizeOf d
decreasing_by
  · have := sizeOf_lt_of_mem ‹_ ∈ items›
    rw [Doc.array.sizeOf_spec]
    omega
  · have := sizeOf_lt_of_mem ‹_ ∈ members›
    cases m
    simp only [Doc.object.sizeOf_spec, Prod.mk.sizeOf_spec] at this ⊢
    omega

/-! ## The text determines the document -/

/-- What follows a value: nothing, a comma, or a closing bracket. -/
def Ends (r : Text) : Prop := ∀ c ∈ r.head?, c = 44 ∨ c = 93 ∨ c = 125

theorem Ends.not_plain {c : ℕ} (h : Ends (c :: r)) : isPlain c = false := by
  obtain rfl | rfl | rfl := h c rfl <;> rfl

theorem atom_append_inj {a b : Text} (ha : ∀ c ∈ a, isPlain c = true)
    (hb : ∀ c ∈ b, isPlain c = true) (hr : Ends r) (hr' : Ends r')
    (h : a ++ r = b ++ r') : a = b ∧ r = r' := by
  induction a generalizing b with
  | nil =>
    cases b with
    | nil => exact ⟨rfl, h⟩
    | cons d b =>
      subst h
      have := hb d (mem_cons_self ..)
      rw [hr.not_plain] at this
      cases this
  | cons c a ih =>
    cases b with
    | nil =>
      subst h
      have := ha c (mem_cons_self ..)
      rw [hr'.not_plain] at this
      cases this
    | cons d b =>
      obtain ⟨rfl, htail⟩ := List.cons.inj h
      obtain ⟨rfl, hrest⟩ := ih (fun x hx => ha x (mem_cons_of_mem _ hx))
        (fun x hx => hb x (mem_cons_of_mem _ hx)) htail
      exact ⟨rfl, hrest⟩

/-- What follows the first of several texts, up to and including the closing bracket. -/
def afterFirst (close : ℕ) (r : Text) : List Text → Text
  | [] => close :: r
  | rest => 44 :: commas rest ++ close :: r

theorem commas_cons (t : Text) (rest : List Text) (close : ℕ) (r : Text) :
    commas (t :: rest) ++ close :: r = t ++ afterFirst close r rest := by
  cases rest with
  | nil => rfl
  | cons next rest => simp [commas, afterFirst]

theorem ends_afterFirst {close : ℕ} (hclose : close = 93 ∨ close = 125) (r : Text)
    (rest : List Text) : Ends (afterFirst close r rest) := by
  intro c hc
  cases rest with
  | nil =>
    obtain rfl : close = c := by simpa [afterFirst] using hc
    exact .inr hclose
  | cons next rest =>
    obtain rfl : 44 = c := by simpa [afterFirst] using hc
    exact .inl rfl

/-- What `f` writes for `a` can be read back, where a value may end after it. -/
def Reads {α : Type} (f : α → Text) (a : α) : Prop :=
  ∀ (b : α) (r r' : Text), Ends r → Ends r' → f a ++ r = f b ++ r' → a = b ∧ r = r'

/-- No text of `f` begins with this closing bracket. -/
def Opens {α : Type} (f : α → Text) (close : ℕ) : Prop := ∀ a, ∃ c t, f a = c :: t ∧ c ≠ close

theorem Opens.ne {α : Type} {f : α → Text} {close : ℕ} (h : Opens f close) (a : α)
    (r rest : Text) : close :: r ≠ f a ++ rest := by
  intro heq
  obtain ⟨c, t, hf, hne⟩ := h a
  rw [hf] at heq
  exact hne (List.cons.inj heq).1.symm

/-- **Texts with commas between them can be read back**, up to the closing bracket. -/
theorem commas_append_inj {α : Type} {f : α → Text} {close : ℕ}
    (hclose : close = 93 ∨ close = 125) (hopens : Opens f close) {xs : List α}
    (hreads : ∀ a ∈ xs, Reads f a) {ys : List α}
    (h : commas (xs.map f) ++ close :: r = commas (ys.map f) ++ close :: r') :
    xs = ys ∧ r = r' := by
  induction xs generalizing ys with
  | nil =>
    cases ys with
    | nil => exact ⟨rfl, by simpa [commas] using h⟩
    | cons b ys =>
      rw [map_cons, commas_cons] at h
      exact absurd h (hopens.ne b r _)
  | cons a xs ih =>
    cases ys with
    | nil =>
      rw [map_cons, commas_cons] at h
      exact absurd h.symm (hopens.ne a r' _)
    | cons b ys =>
      rw [map_cons, map_cons, commas_cons, commas_cons] at h
      obtain ⟨rfl, hrest⟩ := hreads a (mem_cons_self ..) b _ _
        (ends_afterFirst hclose r _) (ends_afterFirst hclose r' _) h
      have hne : (44 : ℕ) ≠ close := by
        obtain rfl | rfl := hclose
        · decide
        · decide
      cases xs with
      | nil =>
        cases ys with
        | nil => exact ⟨rfl, (List.cons.inj hrest).2⟩
        | cons c ys => exact absurd (List.cons.inj hrest).1.symm hne
      | cons d xs =>
        cases ys with
        | nil => exact absurd (List.cons.inj hrest).1 hne
        | cons c ys =>
          obtain ⟨hxs, hr⟩ := ih (fun x hx => hreads x (mem_cons_of_mem _ hx))
            (List.cons.inj hrest).2
          exact ⟨by rw [hxs], hr⟩

theorem write_opens {close : ℕ} (hclose : close = 93 ∨ close = 125) : Opens write close := by
  intro d
  cases d with
  | atom a =>
    obtain ⟨c, t, hct⟩ := exists_cons_of_ne_nil a.nonempty
    refine ⟨c, t, by rw [write, hct], ?_⟩
    have hplain := a.plain c (by rw [hct]; exact mem_cons_self ..)
    rintro rfl
    obtain rfl | rfl := hclose
    · cases hplain
    · cases hplain
  | string points => exact ⟨34, _, rfl, by omega⟩
  | array items => exact ⟨91, _, rfl, by omega⟩
  | object members => exact ⟨123, _, rfl, by omega⟩

theorem writeMember_opens : Opens writeMember 125 := fun _ => ⟨34, _, rfl, by decide⟩

theorem Atom.not_opening (a : Atom) {c : ℕ} {rest : Text} (hc : isPlain c = false) :
    a.text ++ r ≠ c :: rest := by
  intro heq
  obtain ⟨d, t, hdt⟩ := exists_cons_of_ne_nil a.nonempty
  rw [hdt] at heq
  have hplain := a.plain d (by rw [hdt]; exact mem_cons_self ..)
  rw [(List.cons.inj heq).1, hc] at hplain
  cases hplain

theorem reads_member {m : List ℕ × Doc} (h : Reads write m.2) : Reads writeMember m := by
  intro n r r' hr hr' heq
  simp only [writeMember, member, append_assoc, cons_append] at heq
  obtain ⟨hkey, hrest⟩ := quote_append_inj heq
  obtain ⟨hvalue, hrr⟩ := h n.2 r r' hr hr' (List.cons.inj hrest).2
  exact ⟨Prod.ext hkey hvalue, hrr⟩

/-- **A document can be read back from its text**, where a value may end after it. -/
theorem write_reads (d : Doc) : Reads write d := by
  induction d using Doc.parts_induction with
  | atom a =>
    intro b r r' hr hr' h
    cases b with
    | atom b =>
      obtain ⟨htext, hrest⟩ := atom_append_inj a.plain b.plain hr hr' h
      cases a
      cases b
      exact ⟨by cases htext; rfl, hrest⟩
    | string points | array items | object members => exact absurd h (a.not_opening rfl)
  | string points =>
    intro b r r' hr hr' h
    cases b with
    | atom b => exact absurd h.symm (b.not_opening rfl)
    | string points' =>
      obtain ⟨rfl, hrest⟩ := quote_append_inj h
      exact ⟨rfl, hrest⟩
    | array items | object members => exact absurd (List.cons.inj h).1 (by decide)
  | array items ih =>
    intro b r r' hr hr' h
    cases b with
    | atom b => exact absurd h.symm (b.not_opening rfl)
    | string | object => exact absurd (List.cons.inj h).1 (by decide)
    | array items' =>
      simp only [write, writeItems_eq, cons_append, append_assoc, nil_append,
        List.cons.injEq, true_and] at h
      obtain ⟨rfl, hrest⟩ := commas_append_inj (.inl rfl) (write_opens (.inl rfl)) ih h
      exact ⟨rfl, hrest⟩
  | object members ih =>
    intro b r r' hr hr' h
    cases b with
    | atom b => exact absurd h.symm (b.not_opening rfl)
    | string points | array items => exact absurd (List.cons.inj h).1 (by decide)
    | object members' =>
      simp only [write, writeMembers_eq, cons_append, append_assoc, nil_append,
        List.cons.injEq, true_and] at h
      obtain ⟨rfl, hrest⟩ := commas_append_inj (.inr rfl) writeMember_opens
        (fun m hm => reads_member (ih m hm)) h
      exact ⟨rfl, hrest⟩

/-- **The text determines the document.** -/
theorem write_injective {a b : Doc} (h : write a = write b) : a = b := by
  have hends : Ends [] := by simp [Ends]
  exact (write_reads a b [] [] hends hends (by rw [h])).1

end JsonText
