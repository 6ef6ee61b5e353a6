/-
# Redaction of secrets (`services/grow-agent-runner/src/redaction.ts`)

`SecretFilter.text` takes the secrets from a text one after the other, the longest first.
A string is the sequence of its UTF-16 code units.  Every replacement is put in brackets, which no
secret contains, so nothing joins up across it.
-/
import GrowTeam.Protocol.SameBytes
import GrowTeam.Splitting

namespace GrowTeam.Redaction

open Utf16 Splitting List

abbrev Text := List CodeUnit

/-- The word `REDACTED`. -/
def redacted : Text := [82, 69, 68, 65, 67, 84, 69, 68]

/-- `[`. -/
def leftBracket : CodeUnit := 91

/-- `]`. -/
def rightBracket : CodeUnit := 93

/-- `[REDACTED]`. -/
def marker : Text := leftBracket :: redacted ++ [rightBracket]

/-- The secrets of a filter, none of them empty. -/
structure SecretFilter where
  secrets : List Text
  nonempty : ∀ secret ∈ secrets, secret ≠ []

theorem nil_nonempty : ∀ secret ∈ ([] : List Text), secret ≠ [] := fun _ h => by cases h

/-- A filter without secrets. -/
def SecretFilter.new : SecretFilter := ⟨[], nil_nonempty⟩

variable (f : SecretFilter)

variable {secret value : Text}

theorem append_nonempty (h : ¬ (secret = [] ∨ 65536 < secret.length)) :
    ∀ s ∈ f.secrets ++ [secret], s ≠ [] := by
  intro s hs
  rcases mem_append.mp hs with hs | hs
  · exact f.nonempty s hs
  · rw [mem_singleton.mp hs]
    exact fun hempty => h (Or.inl hempty)

/-- `add(secret)`. -/
def SecretFilter.add (secret : Text) : Except String SecretFilter :=
  if h : secret = [] ∨ 65536 < secret.length then .error "Invalid secret"
  else if f.secrets.contains secret then .ok f
  else .ok ⟨f.secrets ++ [secret], append_nonempty f h⟩

/-- `value.split(secret).join("[REDACTED]")`. -/
def replace (value secret : Text) : Text := List.intercalate marker (split secret value)

/-- The secrets, the longest first. -/
def SecretFilter.longestFirst : List Text :=
  f.secrets.insertionSort fun a b => b.length ≤ a.length

/-- `text(value)`. -/
def SecretFilter.text (value : Text) : Text :=
  f.longestFirst.foldl replace value

/-- A secret that the marker cannot contain or complete: without brackets, and no part of
the word between them. -/
def Apart (secret : Text) : Prop :=
  leftBracket ∉ secret ∧ rightBracket ∉ secret ∧ ¬ secret <:+: redacted

instance Apart.decidable (secret : Text) : Decidable (Apart secret) :=
  inferInstanceAs (Decidable (_ ∧ _ ∧ ¬ _))

/-! ## One replacement -/

/-- Taking out one secret brings in no other. -/
theorem replace_brings_none {x : Text} (hsecret : secret ≠ []) (hx : Apart x)
    (hnone : ¬ x <:+: value) : ¬ x <:+: replace value secret := by
  intro h
  obtain ⟨hleft, hright, hword⟩ := hx
  rcases infix_intercalate hleft hright hword _ h with hempty | ⟨p, hp, hin⟩
  · exact hword (by rw [hempty]; exact nil_infix)
  · exact hnone (hin.trans ((split_pieces hsecret _ value (le_rfl)).2 p hp).1)

/-- A secret that is taken out is gone. -/
theorem replace_takes (hsecret : secret ≠ []) (hapart : Apart secret) :
    ¬ secret <:+: replace value secret := by
  intro h
  obtain ⟨hleft, hright, hword⟩ := hapart
  rcases infix_intercalate hleft hright hword _ h with hempty | ⟨p, hp, hin⟩
  · exact hsecret hempty
  · exact ((split_pieces hsecret _ value (le_rfl)).2 p hp).2 hin

/-- A text without the secret stays as it is. -/
theorem replace_eq_self (h : ¬ secret <:+: value) :
    replace value secret = value := by
  unfold replace
  rw [split_eq_self h]
  simp

/-! ## All of them -/

theorem replace_all {secrets : List Text} (hsecrets : ∀ s ∈ secrets, s ≠ [] ∧ Apart s) :
    ∀ value : Text, (∀ x, Apart x → ¬ x <:+: value → ¬ x <:+: secrets.foldl replace value) ∧
      ∀ s ∈ secrets, ¬ s <:+: secrets.foldl replace value := by
  induction secrets with
  | nil => exact fun value => ⟨fun x _ hx => hx, by simp⟩
  | cons secret rest ih =>
    intro value
    obtain ⟨hsecret, hapart⟩ := hsecrets secret mem_cons_self
    obtain ⟨hnone, hrest⟩ :=
      ih (fun s hs => hsecrets s (mem_cons_of_mem _ hs)) (replace value secret)
    constructor
    · intro x hx hvalue
      exact hnone x hx (replace_brings_none hsecret hx hvalue)
    · intro s hs
      rcases mem_cons.mp hs with rfl | hs
      · exact hnone s hapart (replace_takes hsecret hapart)
      · exact hrest s hs

/-- A text without the secrets stays as it is. -/
theorem replace_none {secrets : List Text} (h : ∀ s ∈ secrets, ¬ s <:+: value) :
    secrets.foldl replace value = value := by
  induction secrets with
  | nil => rfl
  | cons secret rest ih =>
    rw [foldl_cons, replace_eq_self (h secret mem_cons_self)]
    exact ih fun s hs => h s (mem_cons_of_mem _ hs)

/-- **The text that comes out contains no secret, and comes out of the filter as it is.** -/
theorem text_redacted (f : SecretFilter) (value : Text) (hapart : ∀ s ∈ f.secrets, Apart s) :
    (∀ s ∈ f.secrets, ¬ s <:+: f.text value) ∧ f.text (f.text value) = f.text value := by
  have hmem : ∀ s, s ∈ f.longestFirst ↔ s ∈ f.secrets := by
    intro s
    exact mem_insertionSort _
  have hsecrets : ∀ s ∈ f.longestFirst, s ≠ [] ∧ Apart s := by
    intro s hs
    have hs := (hmem s).mp hs
    exact ⟨f.nonempty s hs, hapart s hs⟩
  have hgone : ∀ s ∈ f.longestFirst, ¬ s <:+: f.text value := (replace_all hsecrets value).2
  refine ⟨?_, replace_none hgone⟩
  intro s hs
  exact hgone s ((hmem s).mpr hs)

/-- The secrets `ab`, `b`, `bab` and `ba`, which overlap one another. -/
def overlappingSecrets : List Text := [[97, 98], [98], [98, 97, 98], [98, 97]]

theorem overlapping_nonempty : ∀ secret ∈ overlappingSecrets, secret ≠ [] := by decide

def overlapping : SecretFilter := ⟨overlappingSecrets, overlapping_nonempty⟩

/-- They are taken from the text `ababab`. -/
theorem text_redacted_overlapping :
    (∀ s ∈ overlapping.secrets, ¬ s <:+: overlapping.text [97, 98, 97, 98, 97, 98]) ∧
      overlapping.text (overlapping.text [97, 98, 97, 98, 97, 98]) =
        overlapping.text [97, 98, 97, 98, 97, 98] :=
  text_redacted overlapping [97, 98, 97, 98, 97, 98] (by decide)

/-! ## Arguments of a tool -/

open Canonical

mutual

/-- `assertArguments(value)`. -/
def SecretFilter.assertArguments : Json → Except String Unit
  | .string s => if f.text s ≠ s then .error "Secret-bearing tool arguments denied" else .ok ()
  | .array items => assertItems items
  | .object members => assertMembers members
  | _ => .ok ()

def SecretFilter.assertItems : List Json → Except String Unit
  | [] => .ok ()
  | v :: rest => do
    assertArguments v
    assertItems rest

/-- A key is asserted as a string is. -/
def SecretFilter.assertMembers : List (Text × Json) → Except String Unit
  | [] => .ok ()
  | (k, v) :: rest => do
    assertArguments (.string k)
    assertArguments v
    assertMembers rest

end

open SecretFilter

theorem assertItems_ok {items : List Json} :
    f.assertItems items = .ok () ↔ ∀ v ∈ items, f.assertArguments v = .ok () := by
  induction items with
  | nil => simp [assertItems]
  | cons v rest ih => rw [assertItems, then_ok, ih, forall_mem_cons]

theorem assertMembers_ok {members : List (Text × Json)} : f.assertMembers members = .ok () ↔
    ∀ m ∈ members, f.assertArguments (.string m.1) = .ok () ∧ f.assertArguments m.2 = .ok () := by
  induction members with
  | nil => simp [assertMembers]
  | cons m rest ih => rw [assertMembers, then_ok, then_ok, ih, forall_mem_cons, and_assoc]

/-- **A tool is given no secret**: its arguments are let pass if and only if no string or key
in them, at any depth, contains one. -/
theorem assertArguments_ok_iff (f : SecretFilter) (hapart : ∀ s ∈ f.secrets, Apart s) (v : Json) :
    f.assertArguments v = .ok () ↔
      ∀ s, Part.string s ∈ v.parts → ∀ secret ∈ f.secrets, ¬ secret <:+: s := by
  have hstring : ∀ s, f.assertArguments (.string s) = .ok () ↔
      ∀ secret ∈ f.secrets, ¬ secret <:+: s := by
    intro s
    have hmem : ∀ secret, secret ∈ f.longestFirst ↔ secret ∈ f.secrets :=
      fun secret => mem_insertionSort _
    rw [assertArguments]
    split
    · next hchanged =>
      refine iff_of_false (by rintro ⟨⟩) fun hnone => hchanged ?_
      exact replace_none fun secret hsecret => hnone secret ((hmem secret).mp hsecret)
    · next hsame =>
      refine iff_of_true rfl fun secret hsecret => ?_
      rw [← not_not.mp hsame]
      exact (replace_all (fun s hs => ⟨f.nonempty s ((hmem s).mp hs),
        hapart s ((hmem s).mp hs)⟩) s).2 secret ((hmem secret).mpr hsecret)
  induction v using Json.parts_induction with
  | string s => simpa [Json.parts] using hstring s
  | array items ih =>
    rw [assertArguments, assertItems_ok, forall₂_congr ih]
    constructor
    · intro h s hs
      obtain ⟨v, hv, hs⟩ := mem_parts_array.mp hs
      exact h v hv s hs
    · exact fun h v hv s hs => h s (mem_parts_array.mpr ⟨v, hv, hs⟩)
  | object members ih =>
    rw [assertArguments, assertMembers_ok,
      forall₂_congr fun m hm => and_congr (hstring m.1) (ih m hm)]
    constructor
    · intro h s hs
      obtain hs | ⟨m, hm, hs | hs⟩ := mem_parts_object.mp hs
      · cases hs
      · cases hs
        exact (h m hm).1
      · exact (h m hm).2 s hs
    · exact fun h m hm => ⟨h m.1 (mem_parts_object.mpr (.inr ⟨m, hm, .inl rfl⟩)),
        fun s hs => h s (mem_parts_object.mpr (.inr ⟨m, hm, .inr hs⟩))⟩
  | _ => simp [assertArguments, Json.parts]

/-- The key `ab` is asserted too. -/
theorem assertArguments_overlapping :
    overlapping.assertArguments (.object [([97, 98], .null)]) = .ok () ↔
      ∀ s, Part.string s ∈ (Json.object [([97, 98], .null)]).parts →
        ∀ secret ∈ overlapping.secrets, ¬ secret <:+: s :=
  assertArguments_ok_iff overlapping (by decide) _

end GrowTeam.Redaction
