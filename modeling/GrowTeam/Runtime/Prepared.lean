/-
# What `result.prepared` carries (the loop of `execute` in `runtime-supervisor.ts`)

Whatever an attempt uploads stays in `artifactIds`: the patch of an edit, the log of a tool, and in
every round a summary, the diff of the tree and the output of each check.  A result lists all of
them, though no more than 100 are accepted, and its summary is cut off after 4096 UTF-16 units,
where a surrogate pair may be.
-/
import GrowTeam.Runtime.ToolBroker
import GrowTeam.Utf16

namespace GrowTeam.Runtime.Prepared

open History Tools Utf16 List Option

/-- A text of JavaScript without lone surrogates. -/
abbrev Text := { s : List CodeUnit // Paired s }

/-- `broker`: the job has a repository.  The server chooses the ids. -/
structure Execution where
  broker : Bool
  answer : Text
  artifactIds : List ℕ
  toolIntents : ℕ
  ended : Bool

def Execution.upload (s : Execution) (id : ℕ) : Execution :=
  { s with artifactIds := s.artifactIds ++ [id] }

variable (d : Descriptor)

/-- It fails when the tool rounds are used up. -/
def Execution.authority (s : Execution) : Option Execution :=
  if s.toolIntents < d.toolRounds then some { s with toolIntents := s.toolIntents + 1 } else none

/-- The patch of an edit is uploaded before the edit is permitted, the log after it was made.  An id
is missing where the call fails before that upload. -/
def runSandboxedTool (s : Execution) (tool : Tool) (patch log : Option ℕ) : Execution :=
  if s.broker = false ∨ tool = .edit ∧ patch = none then s
  else
    let s := if tool = .edit then patch.elim s s.upload else s
    match if tool.permitted d then s.authority d else none with
    | none => s
    | some s => log.elim s s.upload

def verifyFinalTree (s : Execution) (diff : ℕ) (outputs : List ℕ) : Option Execution :=
  if d.actions.contains "checks.run" ∧ outputs.length = d.requiredChecks.length then
    outputs.foldlM (fun s id => (s.authority d).map (·.upload id)) (s.upload diff)
  else none

structure ResultPayload where
  artifactIds : List ℕ
  summary : List CodeUnit

/-- The ids of a round; it `goesOn` if an input is pending then, or `publish` declines. -/
structure Round where
  summary : ℕ
  diff : ℕ
  outputs : List ℕ
  goesOn : Bool

def Execution.verifies (s : Execution) : Bool := s.broker && d.jobKind != "answer"

/-- One round of the loop, once the inputs have been applied. -/
def prepareResult (s : Execution) (r : Round) : Option ResultPayload × Execution :=
  let s := s.upload r.summary
  match if s.verifies d then verifyFinalTree d s r.diff r.outputs else some s with
  | none => (none, { s with ended := true })
  | some s => (if r.goesOn then none else some ⟨s.artifactIds, s.answer.val.take 4096⟩, s)

inductive Step where
  /-- The first turn, or that of an input, has ended with an answer. -/
  | turn (answer : Text)
  | tool (tool : Tool) (patch log : Option ℕ)
  | round (r : Round)

def step (i : Step) (s : Execution) : Option ResultPayload × Execution :=
  if s.ended then (none, s)
  else
    match i with
    | .turn answer => (none, { s with answer := answer })
    | .tool tool patch log => (none, runSandboxedTool d s tool patch log)
    | .round r => prepareResult d s r

def start (broker : Bool) : Execution := ⟨broker, ⟨[], by decide⟩, [], 0, false⟩

/-! ## What is accepted -/

/-- The runner's own check counts units, and `ResultPayload` of the server counts characters. -/
structure Accepted (p : ResultPayload) : Prop where
  one : 1 ≤ p.artifactIds.length
  artifacts : p.artifactIds.length ≤ 100
  units : p.summary.length ≤ 4096
  points : (decode p.summary).length ≤ 4096
  paired : Paired p.summary

/-- There is room for what a round uploads, and the cut is not within a surrogate pair. -/
def Fits (s : Execution) : Prop :=
  s.artifactIds.length + (if s.verifies d then 2 + d.requiredChecks.length else 1) ≤ 100 ∧
    ∀ high ∈ s.answer.val[4095]?, isHigh high = false

variable {d} {s s' : Execution}

/-- A check uploads its output and changes nothing else of a result. -/
theorem checked_uploads {outputs : List ℕ}
    (h : outputs.foldlM (fun s id => (s.authority d).map (·.upload id)) s = some s') :
    s'.artifactIds.length = s.artifactIds.length + outputs.length ∧ s'.answer = s.answer := by
  induction outputs generalizing s with
  | nil =>
    cases h
    exact ⟨rfl, rfl⟩
  | cons id outputs ih =>
    rw [foldlM_cons] at h
    obtain ⟨s₁, hs₁, hrest⟩ := bind_eq_some_iff.mp h
    obtain ⟨s₂, hs₂, rfl⟩ := map_eq_some_iff.mp hs₁
    obtain ⟨hlength, hanswer⟩ := ih hrest
    have hsame : s₂.artifactIds = s.artifactIds ∧ s₂.answer = s.answer := by
      unfold Execution.authority at hs₂
      split at hs₂
      · cases hs₂
        exact ⟨rfl, rfl⟩
      · cases hs₂
    refine ⟨?_, hanswer.trans hsame.2⟩
    rw [hlength, Execution.upload, length_append, hsame.1, length_singleton, length_cons]
    omega

/-- A result lists the artifacts of before and those of its round, and begins as the answer. -/
theorem prepared_of_some {r : Round} {p : ResultPayload}
    (h : prepareResult d s r = (some p, s')) :
    p.artifactIds.length =
        s.artifactIds.length + (if s.verifies d then 2 + d.requiredChecks.length else 1) ∧
      p.summary = s.answer.val.take 4096 := by
  have hone : (s.upload r.summary).artifactIds.length = s.artifactIds.length + 1 := by
    simp [Execution.upload]
  have hsame : (s.upload r.summary).verifies d = s.verifies d := rfl
  rw [prepareResult, hsame] at h
  split at h
  · cases h
  · next s₁ hs₁ =>
    obtain ⟨hp, -⟩ := Prod.mk.inj h
    split at hp
    · cases hp
    cases hp
    split at hs₁
    · next hverifies =>
      unfold verifyFinalTree at hs₁
      split at hs₁
      · next hchecks =>
        obtain ⟨hlength, hanswer⟩ := checked_uploads hs₁
        refine ⟨?_, by rw [hanswer]; rfl⟩
        rw [if_pos hverifies, hlength, hchecks.2, Execution.upload, length_append, hone,
          length_singleton]
        omega
      · cases hs₁
    · next hverifies =>
      cases hs₁
      rw [if_neg hverifies]
      exact ⟨hone, rfl⟩

/-- **A prepared result is accepted** exactly when the attempt still has room for the artifacts of
the round and the answer is not cut within a surrogate pair: in every run, for every result. -/
theorem prepared_accepted_iff (d : Descriptor) (broker : Bool) (steps : List Step) :
    ∀ e ∈ history (step d) (start broker) steps, ∀ p, e.answer = some p →
      (Accepted p ↔ Fits d e.pre) := by
  intro e he p hp
  have hstep := step_of_mem he
  rw [hp] at hstep
  unfold step at hstep
  split at hstep
  · cases hstep
  split at hstep
  · cases hstep
  · cases hstep
  · obtain ⟨hlength, hsummary⟩ := prepared_of_some hstep
    have hunits : p.summary.length ≤ 4096 := by
      rw [hsummary]
      exact length_take_le _ _
    have hcut := paired_take e.pre.answer.property 4095
    rw [← hsummary] at hcut
    constructor
    · exact fun haccepted => ⟨hlength ▸ haccepted.artifacts, hcut.mp haccepted.paired⟩
    · rintro ⟨hroom, hwhole⟩
      refine ⟨?_, hlength ▸ hroom, hunits, (length_decode_le _).trans hunits, hcut.mpr hwhole⟩
      rw [hlength]
      split <;> omega

/-- An answer without a repository. -/
def question : Descriptor := ⟨1, "answer", [], [], 40, 65536, 65536⟩

theorem prepared_accepted_iff_once : ∃ p, (step question (.round ⟨0, 0, [], false⟩)
    (start false)).1 = some p ∧ (Accepted p ↔ Fits question (start false)) :=
  ⟨_, rfl, prepared_accepted_iff question false [.round ⟨0, 0, [], false⟩] _
    (mem_singleton_self _) _ rfl⟩

/-- A hundred further inputs, with a summary each, are one artifact too many. -/
theorem inputs_exceed : ¬ ∀ e ∈ history (step question) (start false)
      ((List.range 101).map fun n => .round ⟨n, 0, [], false⟩),
    ∀ p, e.answer = some p → Accepted p := by
  intro hall
  have hlast : ∃ e ∈ history (step question) (start false)
      ((List.range 101).map fun n => .round ⟨n, 0, [], false⟩),
      e.answer.any (fun p => p.artifactIds.length = 101) = true := by
    decide +kernel
  obtain ⟨e, he, hany⟩ := hlast
  obtain ⟨p, hp, hlength⟩ := (any_eq_true _ _).mp hany
  have haccepted := (hall e he p hp).artifacts
  rw [of_decide_eq_true hlength] at haccepted
  revert haccepted
  decide

end GrowTeam.Runtime.Prepared
