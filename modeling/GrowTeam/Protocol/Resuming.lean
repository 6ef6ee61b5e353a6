import GrowTeam.Protocol.Accepted

/-!
# Resuming from a checkpoint (`checkpointContext`)

The fields of a checkpoint are limited one by one, in characters; the text that a runtime is
given of them is limited as a whole, in the bytes of its JSON.  The bytes are counted field
by field.
-/

namespace GrowTeam.Descriptors

open Utf16 JsonText Canonical List

/-- The bytes of a character in UTF-8. -/
def utf8Size (p : ℕ) : ℕ :=
  if p < 0x80 then 1 else if p < 0x800 then 2 else if p < 0x10000 then 3 else 4

/-- `Buffer.byteLength` -/
def byteLength : Text → ℕ
  | [] => 0
  | p :: t => utf8Size p + byteLength t

/-- `JSON.stringify` of an array of strings. -/
def stringifyAll (xs : List Str) : Text := 91 :: commas (xs.map stringify) ++ [93]

/-- What is stringified: the request of the descriptor, and fields of the checkpoint. -/
def checkpointText (request : Str) (c : Checkpoint) : Text :=
  123 :: commas
    [member (text "current_request") (stringify request),
      member (text "summary") (stringify c.summary),
      member (text "remaining_work") (stringifyAll (c.remainingWork.getD [])),
      member (text "next_step") (stringify c.nextStep),
      member (text "input_cursor") (integerText c.inputCursor),
      member (text "context_ref_ids") (stringifyAll (c.contextRefIds.getD [])),
      member (text "artifact_ids") (stringifyAll (c.artifactIds.getD []))] ++ [125]

def checkpointContext (request : Str) (c : Checkpoint) : Except String Text :=
  if 32768 < byteLength (checkpointText request c) then
    .error "Checkpoint context exceeds runtime bound"
  else .ok (text "Untrusted prior checkpoint data:\n" ++ checkpointText request c)

/-- The runtime resumes, with a text that has the whole request in it. -/
def Resumes (d : AttemptDescriptor) : Prop :=
  ∀ c ∈ d.checkpoint, ∃ t, checkpointContext d.request c = .ok t ∧ stringify d.request <:+: t

/-! ## The bytes of a text -/

/-- The bytes of a character inside a string. -/
def escapedSize (p : ℕ) : ℕ :=
  if (shortEscape p).isSome then 2
  else if p < 32 || isSurrogate p then 6 else utf8Size p

/-- The bytes of a string with its quotation marks. -/
def stringSize (s : Str) : ℕ := 2 + ((decode s).map escapedSize).sum

/-- The bytes of an array: its brackets, its strings, and a comma between each two. -/
def arraySize (xs : List Str) : ℕ := 2 + (xs.map stringSize).sum + (xs.length - 1)

/-- The bytes of the fields; the braces, the keys and what separates them are 113 more. -/
def fieldsSize (request : Str) (c : Checkpoint) : ℕ :=
  stringSize request + stringSize c.summary + arraySize (c.remainingWork.getD []) +
    stringSize c.nextStep + (integerText c.inputCursor).length +
    arraySize (c.contextRefIds.getD []) + arraySize (c.artifactIds.getD [])

theorem byteLength_append (s t : Text) : byteLength (s ++ t) = byteLength s + byteLength t := by
  induction s with
  | nil => exact (Nat.zero_add _).symm
  | cons p s ih => rw [cons_append, byteLength, byteLength, ih, Nat.add_assoc]

/-- A text of characters of one byte. -/
theorem byteLength_ascii {t : Text} (h : ∀ p ∈ t, p < 0x80) : byteLength t = t.length := by
  induction t with
  | nil => rfl
  | cons p t ih =>
    obtain ⟨hp, ht⟩ := forall_mem_cons.mp h
    rw [byteLength, ih ht, utf8Size, if_pos hp, length_cons, Nat.add_comm]

theorem byteLength_escape (p : ℕ) : byteLength (escape p) = escapedSize p := by
  unfold escape escapedSize
  cases hshort : shortEscape p with
  | some letter =>
    have hletter : letter < 0x80 := by
      unfold shortEscape at hshort
      split_ifs at hshort
      all_goals
        cases hshort
        decide
    exact byteLength_ascii (forall_mem_cons.mpr ⟨by decide, forall_mem_singleton.mpr hletter⟩)
  | none =>
    simp only [Option.isSome_none, Bool.false_eq_true, if_false]
    split
    · refine byteLength_ascii ?_
      have hdigit : ∀ k, hexDigit (k % 16) < 0x80 := fun k => by
        unfold hexDigit
        split <;> omega
      simp [unicodeEscape, hdigit]
    · rfl

theorem byteLength_stringify (s : Str) : byteLength (stringify s) = stringSize s := by
  have hescaped : ∀ ps : List ℕ, byteLength (ps.flatMap escape) = (ps.map escapedSize).sum := by
    intro ps
    induction ps with
    | nil => rfl
    | cons p ps ih => rw [flatMap_cons, byteLength_append, byteLength_escape, ih, map_cons, sum_cons]
  unfold stringify quote stringSize
  rw [cons_append, byteLength, byteLength_append, hescaped]
  show 1 + (_ + 1) = _
  omega

theorem byteLength_stringifyAll (xs : List Str) : byteLength (stringifyAll xs) = arraySize xs := by
  have hcommas : ∀ xs : List Str,
      byteLength (commas (xs.map stringify)) = (xs.map stringSize).sum + (xs.length - 1) := by
    intro xs
    induction xs with
    | nil => rfl
    | cons x xs ih =>
      cases xs with
      | nil => exact (byteLength_stringify x).trans (Nat.add_zero _).symm
      | cons y xs =>
        rw [map_cons, map_cons, commas, byteLength_append, byteLength_stringify, byteLength,
          ← map_cons, ih]
        simp only [map_cons, sum_cons, length_cons, Nat.add_sub_cancel]
        show _ + (1 + _) = _
        omega
  unfold stringifyAll arraySize
  rw [cons_append, byteLength, byteLength_append, hcommas]
  show 1 + (_ + 1) = _
  omega

theorem byteLength_checkpointText (request : Str) (c : Checkpoint) :
    byteLength (checkpointText request c) = fieldsSize request c + 113 := by
  have hcursor : byteLength (integerText c.inputCursor) = (integerText c.inputCursor).length :=
    byteLength_ascii fun p hp => by
      have := integerText_chars hp
      omega
  have hmember : ∀ (name : String) (v : Text), byteLength (member (text name) v) =
      byteLength (quote (text name)) + 1 + byteLength v := by
    intro name v
    rw [member, byteLength_append, Nat.add_assoc]
    rfl
  unfold checkpointText fieldsSize
  simp only [commas, cons_append, byteLength, byteLength_append, hmember, byteLength_stringify,
    byteLength_stringifyAll, hcursor]
  have hkeys : ((["current_request", "summary", "remaining_work", "next_step", "input_cursor",
      "context_ref_ids", "artifact_ids"].map fun name => byteLength (quote (text name))).sum) = 98 ∧
      utf8Size 123 = 1 ∧ utf8Size 44 = 1 ∧ utf8Size 125 = 1 := by decide
  simp only [map_cons, map_nil, sum_cons, sum_nil] at hkeys
  omega

theorem checkpointContext_ok {request : Str} {c : Checkpoint} {t : Text} :
    checkpointContext request c = .ok t ↔ fieldsSize request c ≤ 32655 ∧
      text "Untrusted prior checkpoint data:\n" ++ checkpointText request c = t := by
  have hbytes := byteLength_checkpointText request c
  unfold checkpointContext
  split
  · exact iff_of_false (by rintro ⟨⟩) fun h => by omega
  · rw [Except.ok.injEq]
    exact (and_iff_right (by omega)).symm

/-- **The runtime resumes** if and only if the fields fit in what is left of its 32768 bytes. -/
theorem resumes_iff (d : AttemptDescriptor) :
    Resumes d ↔ ∀ c ∈ d.checkpoint, fieldsSize d.request c ≤ 32655 := by
  refine forall₂_congr fun c _ => ?_
  constructor
  · rintro ⟨t, ht, -⟩
    exact (checkpointContext_ok.mp ht).1
  · intro hfits
    refine ⟨_, checkpointContext_ok.mpr ⟨hfits, rfl⟩, ?_⟩
    -- The request is the value of the first key of what is stringified.
    have hmember : stringify d.request <:+
        member (text "current_request") (stringify d.request) :=
      (suffix_cons _ _).trans (suffix_append _ _)
    refine (hmember.isInfix.trans ?_).trans (suffix_append _ _).isInfix
    exact infix_cons ((prefix_append _ _).trans (prefix_append _ _)).isInfix

def sampleCheckpoint : Checkpoint where
  id := sampleRunner
  sourceAttemptId := sampleRunner
  baseCommit := none
  treeHash := none
  summary := []
  contextRefIds := some []
  artifactIds := some []
  remainingWork := some []
  nextStep := key "Go on."
  adapterSessionRef := none
  inputCursor := 0

theorem mem_demands_checkpoint {d : AttemptDescriptor} {c : Checkpoint} {dm : Demand}
    (h : dm ∈ { d with checkpoint := some c }.demands) : dm ∈ c.demands ∨ dm ∈ d.demands := by
  simp only [AttemptDescriptor.demands, held, Option.toList_some, flatMap_singleton, mem_append]
    at h ⊢
  tauto

/-- What the server accepts with this checkpoint. -/
theorem sample_resuming {platform : Platform} {request : Str}
    (hresumes : ∀ d : AttemptDescriptor, d.modelValidate platform = .ok d → Resumes d)
    (hne : 1 ≤ (decode request).length) (hle : (decode request).length ≤ 20000) :
    stringSize request ≤ 32655 := by
  have hclosed : sampleCheckpoint.demands.all serverReading.meets = true := by decide
  have haccepted : { sampleDescriptor (List.replicate 64 48) request with
      checkpoint := some sampleCheckpoint }.modelValidate platform = .ok
        { sampleDescriptor (List.replicate 64 48) request with
          checkpoint := some sampleCheckpoint } := by
    refine validated_ok.mpr ⟨fun dm hdm => ?_, ?_, ?_⟩
    · obtain hdm | hdm : dm ∈ sampleCheckpoint.demands ∨
          dm ∈ (sampleDescriptor (List.replicate 64 48) request).demands :=
        mem_demands_checkpoint hdm
      · exact all_eq_true.mp hclosed dm hdm
      · exact sample_demands (by decide) hne hle dm hdm
    · exact sampleValidators platform (List.replicate 64 48) request
    · rfl
  obtain ⟨t, ht, -⟩ := hresumes _ haccepted sampleCheckpoint rfl
  have hfits := (checkpointContext_ok.mp ht).1
  unfold fieldsSize at hfits
  change stringSize request + _ + _ + _ + _ + _ + _ ≤ 32655 at hfits
  omega

theorem stringSize_faces (n : ℕ) : stringSize (faces n) = 2 + n * 4 := by
  rw [stringSize, decode_faces, map_replicate, sum_replicate_nat]
  rfl

/-- The server accepts a request of 9000 characters of four bytes each with a checkpoint, and
the runtime does not resume from it. -/
theorem not_every_resumes : ¬ ∃ platform : Platform, ∀ d : AttemptDescriptor,
    d.modelValidate platform = .ok d → Resumes d := by
  rintro ⟨platform, hresumes⟩
  have hfits : stringSize (faces 9000) ≤ 32655 :=
    sample_resuming hresumes (by rw [decode_faces, length_replicate]; decide)
      (by rw [decode_faces, length_replicate]; decide)
  rw [stringSize_faces] at hfits
  omega

end GrowTeam.Descriptors
