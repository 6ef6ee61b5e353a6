import GrowTeam.Protocol.Building
import GrowTeam.Protocol.Checks

/-!
# The rules of the two sides agree

When a check succeeds, and that each rule of the runner is the rule of the server for the
same record.
-/

namespace GrowTeam.Descriptors

open Utf16 Canonical List Bool AttemptDescriptor

/-! ## Checks that succeed -/

@[simp] theorem requireThat_ok {b : Bool} {m : String} {u : Unit} :
    requireThat b m = .ok u ↔ b = true := by
  cases b <;> simp [requireThat]

@[simp] theorem raiseIf_ok {b : Bool} {m : String} {u : Unit} :
    raiseIf b m = .ok u ↔ b = false := by
  cases b <;> simp [raiseIf]

@[simp] theorem exists_unit {p : Unit → Prop} : (∃ u, p u) ↔ p () :=
  ⟨fun ⟨_, h⟩ => h, fun h => ⟨(), h⟩⟩

@[simp] theorem bind_ok {α β : Type} {x : Except String α} {f : α → Except String β} {b : β} :
    (x >>= f) = .ok b ↔ ∃ a, x = .ok a ∧ f a = .ok b := by
  cases x with
  | error e | ok a => simp [bind, Except.bind]

@[simp] theorem map_ok {α β : Type} {x : Except String α} {f : α → β} {b : β} :
    x.map f = .ok b ↔ ∃ a, x = .ok a ∧ f a = b := by
  cases x with
  | error e | ok a => simp [Except.map]

@[simp] theorem forM_ok {α : Type} {f : α → Except String Unit} {l : List α} {u : Unit} :
    forM l f = .ok u ↔ ∀ a ∈ l, f a = .ok () := by
  induction l with
  | nil => simp [pure, Except.pure]
  | cons a l ih => simp [ih]

theorem validated_ok {α : Type} {demands : List Demand} {validators : Except String Unit}
    {value value' : α} :
    validated demands validators value = .ok value' ↔
      (∀ dm ∈ demands, serverReading.meets dm = true) ∧ validators = .ok () ∧ value = value' := by
  simp [validated, pure, Except.pure]

/-! ## Safe parts -/

variable {v : Json}

theorem safe_of_parts {w : Json} (h : ∀ p ∈ w.parts, p ∈ v.parts) (hv : v.Safe) : w.Safe :=
  fun n hn => hv n (h _ hn)

variable {members : List (String × Json)}

theorem parts_of_member {m : String × Json} (hm : m ∈ members) :
    ∀ p ∈ m.2.parts, p ∈ (obj members).parts := by
  intro p hp
  exact mem_parts_object.mpr (.inr ⟨(key m.1, m.2), mem_map.mpr ⟨m, hm, rfl⟩, .inr hp⟩)

theorem safe_member {k : String}
    (h : (obj members).Safe) (hm : (k, v) ∈ members) : v.Safe :=
  safe_of_parts (parts_of_member hm) h

@[simp] theorem safe_string (s : Str) : (Json.string s).Safe := by
  intro n hn
  cases mem_singleton.mp hn

@[simp] theorem safe_null : Json.null.Safe := by
  intro n hn
  cases hn

/-! ## Canonical texts -/

theorem canonical_of_tidy (htidy : v.Tidy) (hsafe : v.Safe) : ∃ t, canonical v = .ok t :=
  ⟨_, canonical_ok hsafe htidy.not_refused⟩

theorem equal_of_tidy {w : Json} (hv : v.Tidy) (hv' : v.Safe) (hw : w.Tidy) (hw' : w.Safe) :
    ∃ same, equal v w = .ok same := by
  obtain ⟨s, hs⟩ := canonical_of_tidy hv hv'
  obtain ⟨t, ht⟩ := canonical_of_tidy hw hw'
  exact ⟨s == t, by rw [equal, hs, ht]; rfl⟩

theorem equal_self (htidy : v.Tidy) (hsafe : v.Safe) : equal v v = .ok true := by
  obtain ⟨t, ht⟩ := canonical_of_tidy htidy hsafe
  rw [equal, ht]
  simp [bind, Except.bind, pure, Except.pure]

theorem tidy_userIds (ids : List ℕ) : (userIds ids).Tidy := tidy_listed tidy_nat

/-! ## Records -/

theorem CapabilityReport.semantics_ok {v : CapabilityReport} :
    v.semantics = .ok () ↔ v.codeRequiresEvidence = .ok () := by
  simp only [CapabilityReport.semantics, CapabilityReport.codeRequiresEvidence, requireThat_ok,
    raiseIf_ok]
  cases v.codeReady <;> cases v.chatReady <;> simp

theorem NetworkTarget.semantics_ok {v : NetworkTarget} :
    v.semantics = .ok () ↔ v.privateHttpRequiresPrivateScope = .ok () := by
  simp only [NetworkTarget.semantics, NetworkTarget.privateHttpRequiresPrivateScope,
    requireThat_ok, raiseIf_ok]
  cases v.allowHttpPrivate <;> cases v.allowPrivate <;> simp

theorem NetworkPolicy.semantics_ok {v : NetworkPolicy} :
    v.semantics = .ok () ↔ v.validators = .ok () := by
  rw [NetworkPolicy.semantics, NetworkPolicy.validators]
  cases v.targets <;> simp [NetworkTarget.semantics_ok]

theorem RequiredCheck.semantics_ok {v : RequiredCheck} :
    v.semantics = .ok () ↔ v.relativeWorkspace = .ok () := by
  simp only [RequiredCheck.semantics, RequiredCheck.relativeWorkspace, requireThat_ok, raiseIf_ok,
    and_eq_true, or_eq_false_iff, not_eq_true']
  tauto

theorem RepositoryConfig.semantics_ok {v : RepositoryConfig} :
    v.semantics = .ok () ↔ v.validators = .ok () := by
  simp only [RepositoryConfig.semantics, RepositoryConfig.validators,
    RepositoryConfig.allowedBase, bind_ok, requireThat_ok, raiseIf_ok, not_eq_false']
  cases v.requiredChecks <;> simp [RequiredCheck.semantics_ok]

variable {ids : List ℕ}

/-- With its participants given, a scope is judged alike. -/
theorem ConversationScope.semantics_ok {v : ConversationScope}
    (h : v.participantUserIds = some ids) :
    v.semantics = .ok () ↔ v.consistentScope = .ok () := by
  simp only [ConversationScope.semantics, ConversationScope.consistentScope,
    ConversationScope.participants, h, Option.getD_some, bind_ok, raiseIf_ok]
  cases v.kind with
  | stream | direct => cases v.streamId <;> cases ids <;> simp
  | selected => cases v.anchorMessageId <;> simp

theorem ContextReference.semantics_ok {v : ContextReference}
    (h : v.scope.participantUserIds = some ids) :
    v.semantics = .ok () ↔ v.validators = .ok () := by
  simp only [ContextReference.semantics, ContextReference.validators,
    ContextReference.matchingReference, bind_ok, ConversationScope.semantics_ok h, requireThat_ok,
    raiseIf_ok, and_eq_true, or_eq_false_iff, not_eq_false', beq_iff_eq,
    bne_eq_false_iff_eq]

theorem Policy.semantics_ok {v : Policy}
    (h : v.scope.participantUserIds = some ids) :
    v.semantics = .ok () ↔ v.validators = .ok () := by
  simp only [Policy.semantics, Policy.validators, bind_ok, ConversationScope.semantics_ok h,
    NetworkPolicy.semantics_ok]

theorem ExecutionConfiguration.semantics_ok {v : ExecutionConfiguration} :
    v.semantics = .ok () ↔ v.validators = .ok () := by
  simp only [ExecutionConfiguration.semantics, ExecutionConfiguration.validators,
    forM_eq_forM, bind_ok, forM_ok, NetworkPolicy.semantics_ok]

/-! # What the server hands out -/

open Utf16 Canonical

/-- What the server guarantees of a descriptor that it hands out. -/
structure Issued (platform : Platform) (d : AttemptDescriptor) : Prop where
  filled : d.filled = d
  demands : ∀ dm ∈ d.demands, serverReading.meets dm = true
  validators : d.validators platform = .ok ()
  configuration : platform.sha256.digest d.testedConfiguration.toValue = .ok d.configurationDigest
  descriptor : platform.sha256.digest d.toValue = .ok d.descriptorDigest

/-! ## Filling in is done once -/

@[simp] theorem NetworkPolicy.filled_filled (r : NetworkPolicy) : r.filled.filled = r.filled := rfl

@[simp] theorem ProviderConfig.filled_filled (r : ProviderConfig) : r.filled.filled = r.filled := rfl

@[simp] theorem RepositoryConfig.filled_filled (r : RepositoryConfig) :
    r.filled.filled = r.filled := rfl

@[simp] theorem ConversationScope.filled_filled (r : ConversationScope) :
    r.filled.filled = r.filled := rfl

@[simp] theorem Policy.filled_filled (r : Policy) : r.filled.filled = r.filled := rfl

@[simp] theorem ContextReference.filled_filled (r : ContextReference) :
    r.filled.filled = r.filled := rfl

@[simp] theorem Checkpoint.filled_filled (r : Checkpoint) : r.filled.filled = r.filled := rfl

@[simp] theorem EffectiveProvider.filled_filled (r : EffectiveProvider) :
    r.filled.filled = r.filled := rfl

@[simp] theorem Omittable.filled_filled {α : Type} (a : Omittable α) :
    a.filled.filled = a.filled := by
  cases a <;> rfl

@[simp] theorem ExecutionConfiguration.filled_filled (r : ExecutionConfiguration) :
    r.filled.filled = r.filled := by
  simp [ExecutionConfiguration.filled, Function.comp_def]

@[simp] theorem AttemptDescriptor.filled_filled (r : AttemptDescriptor) :
    r.filled.filled = r.filled := by
  simp [AttemptDescriptor.filled, Function.comp_def]

theorem AttemptDescriptor.filled_digest (r : AttemptDescriptor) (digest : Str) :
    ({ r with descriptorDigest := digest } : AttemptDescriptor).filled =
      { r.filled with descriptorDigest := digest } := rfl

/-! ## The descriptor that is built -/

variable {d : AttemptDescriptor} {h : Hash}

theorem mem_demands_digest {digest : Str} {dm : Demand}
    (h : dm ∈ { d with descriptorDigest := digest }.demands) :
    dm = .pattern .digest digest ∨ dm ∈ d.demands := by
  simp only [AttemptDescriptor.demands, mem_append, mem_cons] at h ⊢
  tauto

/-- **What is built is issued**, to the runner of the job. -/
theorem issued_of_build {platform : Platform} {job : JobRow} {attempt : AttemptRow} (h : buildDescriptor platform job attempt = .ok d) :
    Issued platform d ∧ d.runnerId = job.runnerId := by
  simp only [buildDescriptor, modelValidate, configurationDigest, bind_ok,
    exists_unit, raiseIf_ok, validated_ok] at h
  obtain ⟨tested, -, -, policy, -, provider, -, v, ⟨hdemands, hvalidators, rfl⟩, c,
    ⟨-, hc⟩, hsame, digest, hdigest, hd⟩ := h
  cases hd
  obtain rfl := bne_eq_false_iff_eq.mp hsame
  obtain ⟨b, -, rfl⟩ := map_ok.mp hdigest
  refine ⟨⟨?_, ?_, hvalidators, hc, hdigest⟩, rfl⟩
  · rw [filled_digest, filled_filled]
  · intro dm hdm
    obtain rfl | hdm := mem_demands_digest hdm
    · exact platform.sha256.digits b
    · exact hdemands dm hdm

/-! ## The effective configuration -/

/-- Action names are ASCII. -/
theorem action_ascii (a : ExecutionAction) : isAscii a.name = true := by
  cases a <;> decide

theorem actionUnitsLe_eq : actionUnitsLe = actionPointsLe := by
  funext a b
  have ha := key_ascii (action_ascii a)
  have hb := key_ascii (action_ascii b)
  exact (unitsLe_eq_pointsLe (paired_ascii ha) (paired_ascii hb)).mpr
    ⟨uncrossed_ascii (decode_ascii ha), uncrossed_ascii (decode_ascii hb)⟩

theorem update_of_encode {t : JsonText.Text} {b : ByteArray} (h : encode t = .ok b) :
    update t = b := by
  rw [encode] at h
  split at h
  · cases h
  · next hany =>
    have hnone : ∀ p ∈ t, isSurrogate p = false := by
      intro p hp
      by_contra hp'
      exact hany (any_eq_true.mpr ⟨p, hp, by simpa using hp'⟩)
    cases h
    rw [update, map_congr_left fun p hp => by rw [hnone p hp]]
    rfl

variable {checks : List RequiredCheck}

/-- Timeouts are small numbers. -/
theorem safe_checks
    (h : ∀ check ∈ checks, check.timeoutSeconds ≤ 1200) : (checksJson checks).Safe := by
  intro n hn
  obtain ⟨v, hv, hp⟩ := mem_parts_array.mp hn
  obtain ⟨check, hcheck, rfl⟩ := mem_map.mp hv
  have hn : n = check.timeoutSeconds := by
    simpa [RequiredCheck.toJson, obj, nat, listed, Json.parts] using hp
  have := h check hcheck
  rw [maxSafeInteger]
  omega

theorem timeout_le {repository : RepositoryConfig}
    (hchecks : repository.requiredChecks = some checks)
    (h : ∀ dm ∈ repository.demands, serverReading.meets dm = true) :
    ∀ check ∈ checks, check.timeoutSeconds ≤ 1200 := by
  intro check hcheck
  have hmem : Demand.range 1 (some 1200) check.timeoutSeconds ∈ repository.demands := by
    refine mem_append_right _ ?_
    rw [hchecks]
    refine mem_flatMap.mpr ⟨checks, mem_singleton.mpr rfl, mem_cons_of_mem _ ?_⟩
    exact mem_flatMap.mpr ⟨check, hcheck, mem_append_right _ (by simp)⟩
  have hmeets := h _ hmem
  simp only [Reading.meets, within, Option.all_some, and_eq_true, decide_eq_true_eq] at hmeets
  exact hmeets.2

/-- Both sides take the same digest of a tidy value of safe integers. -/
theorem runnerDigest_of_digest {v : Value} (htidy : v.json.Tidy) (hsafe : v.json.Safe)
    {s : Str} (hs : h.digest v = .ok s) : h.runnerDigest v = .ok s := by
  obtain ⟨b, hb, rfl⟩ := map_ok.mp hs
  exact map_ok.mpr ⟨b, digestInput_eq htidy hsafe hb, rfl⟩

theorem effectiveBinding_of_bindingOf {repository : Option RepositoryConfig}
    (hfilled : repository.map RepositoryConfig.filled = repository)
    (hdemands : ∀ dm ∈ held RepositoryConfig.demands repository, serverReading.meets dm = true)
    {binding : Option WorkspaceBinding} (hbinding : bindingOf? h repository = .ok binding) :
    effectiveBinding h repository = .ok binding := by
  cases repository with
  | none => exact hbinding
  | some r =>
    obtain ⟨checks, hchecks⟩ : ∃ checks, r.requiredChecks = some checks :=
      ⟨r.requiredChecks.getD [], by
        conv_lhs => rw [← Option.some.inj hfilled]
        rfl⟩
    have hdemands : ∀ dm ∈ r.demands, serverReading.meets dm = true := by
      simpa [held] using hdemands
    simp only [bindingOf?, bindingOf, WorkspaceBinding.modelValidate, map_ok, bind_ok,
      validated_ok] at hbinding
    obtain ⟨b, ⟨s, hs, -, -, rfl⟩, rfl⟩ := hbinding
    rw [hchecks, Option.getD_some] at hs
    have hdigest := runnerDigest_of_digest (tidy_checks checks)
      (safe_checks (timeout_le hchecks hdemands)) hs
    simp [effectiveBinding, checksDigest, hchecks, hdigest, pure, Except.pure]

theorem instructionsDigest_eq (h : Hash) (d : AttemptDescriptor) :
    d.instructionsDigest h =
      match d.profileInstructions with
      | some own => h.instructionsDigest own.text
      | none => .ok none := by
  rw [instructionsDigest, profileInstructions]
  cases d.instructions.value? with
  | none => rfl
  | some instructions =>
    obtain ⟨team, profile⟩ := instructions
    cases profile <;> rfl

theorem instructionText_nonempty
    (hdemands : ∀ dm ∈ d.demands, serverReading.meets dm = true) {own : InstructionText}
    (hown : d.profileInstructions = some own) : own.text ≠ [] := by
  obtain ⟨instructions, hinstructions, hprofile⟩ := Option.bind_eq_some_iff.mp hown
  have hmem : Demand.length 1 8000 own.text ∈ d.demands := by
    refine mem_append_right _ ?_
    rw [hinstructions]
    refine mem_flatMap.mpr ⟨instructions, mem_singleton.mpr rfl, ?_⟩
    refine mem_append_right _ ?_
    rw [hprofile]
    exact mem_flatMap.mpr ⟨own, mem_singleton.mpr rfl, by simp [InstructionText.demands]⟩
  have hmeets := hdemands _ hmem
  intro hempty
  rw [hempty] at hmeets
  revert hmeets
  decide

/-- The server's digest of an instruction is the runner's. -/
theorem textDigest_of_instructionsDigest {text : Str} (hne : text ≠ [])
    {digest : Option Str} (hdigest : h.instructionsDigest text = .ok digest) :
    digest = some (h.textDigest text) := by
  rw [Hash.instructionsDigest, if_neg hne] at hdigest
  obtain ⟨b, hb, rfl⟩ := map_ok.mp hdigest
  rw [Hash.textDigest, update_of_encode hb]

theorem profileDigest_of_instructionsDigest
    (hdemands : ∀ dm ∈ d.demands, serverReading.meets dm = true) {digest : Option Str}
    (hdigest : d.instructionsDigest h = .ok digest) :
    d.profileInstructions.map (fun own => h.textDigest own.text) = digest := by
  rw [instructionsDigest_eq] at hdigest
  cases hown : d.profileInstructions with
  | none =>
    rw [hown] at hdigest
    exact Except.ok.inj hdigest
  | some own =>
    rw [hown] at hdigest
    exact (textDigest_of_instructionsDigest (instructionText_nonempty hdemands hown) hdigest).symm

theorem repository_demands {dm : Demand}
    (h : dm ∈ held RepositoryConfig.demands d.repository) : dm ∈ d.demands := by
  simp only [AttemptDescriptor.demands, mem_append]
  tauto

/-- **The runner's effective configuration is the one the server derives.** -/
theorem effectiveConfiguration_of_derive {platform : Platform}
    (hissued : Issued platform d) {c : ExecutionConfiguration}
    (hc : deriveExecutionConfiguration platform.sha256 d = .ok c) :
    effectiveConfiguration platform.sha256 d = .ok c := by
  simp only [deriveExecutionConfiguration, bind_ok] at hc
  obtain ⟨binding, hbinding, digest, hdigest, hc⟩ := hc
  have hfilled : d.repository.map RepositoryConfig.filled = d.repository :=
    congrArg AttemptDescriptor.repository hissued.filled
  have heffective := effectiveBinding_of_bindingOf hfilled
    (fun dm hdm => hissued.demands dm (repository_demands hdm)) hbinding
  have hprofile := profileDigest_of_instructionsDigest hissued.demands hdigest
  rw [← hc]
  simp [effectiveConfiguration, heffective, hprofile, actionUnitsLe_eq, pure, Except.pure]
  rfl

end GrowTeam.Descriptors
