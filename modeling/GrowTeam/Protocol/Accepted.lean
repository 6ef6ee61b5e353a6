import GrowTeam.Protocol.Rules

/-!
# Whether the runner accepts what the server hands out

A descriptor that the server hands out passes all the runner's checks, except where the
two platforms differ: texts that fit in characters but not in UTF-16 code units, numbers
that are no safe integers, and formats and URLs that the runner's platform does not know.
-/

namespace GrowTeam.Descriptors

open Utf16 Canonical List AttemptDescriptor

/-! ## Demands that both sides meet -/

/-- What the runner asks of a field beyond what the server does. -/
def Demand.Portable (formats : Formats) : Demand → Prop
  | .length _ high s => s.length ≤ high
  | .pattern .baseUrl s => 0xFEFF ∉ s
  | .uuid s => formats.uuid s = true
  | .dateTime s => formats.dateTime s = true
  | _ => True

theorem decode_length_le : ∀ s : List CodeUnit, (decode s).length ≤ s.length
  | [] | [_] => le_rfl
  | u :: w :: rest => by
    rw [decode]
    split
    · have := decode_length_le rest
      simp only [length_cons]
      omega
    · have := decode_length_le (w :: rest)
      simp only [length_cons] at this ⊢
      omega

theorem runnerSpace_eq {u : CodeUnit} (h : whiteSpace u = false) :
    runnerSpace u = (u == 0xFEFF) := by
  simp only [whiteSpace, Bool.or_eq_false_iff] at h
  simp [runnerSpace, h]

theorem baseUrl_accepts {s : Str} (h : Pattern.baseUrl.accepts whiteSpace s = true) :
    Pattern.baseUrl.accepts runnerSpace s = true ↔ 0xFEFF ∉ s := by
  have hsplit : ∀ {rest : Str}, afterScheme s = some rest →
      (0xFEFF ∈ s ↔ 0xFEFF ∈ rest) := by
    intro rest hrest
    have hprefix : ∀ (k : Str) (n : ℕ), k <+: s → k.length = n → 0xFEFF ∉ k →
        (0xFEFF ∈ s ↔ 0xFEFF ∈ s.drop n) := by
      rintro k n ⟨t, rfl⟩ rfl hk
      rw [drop_left, mem_append]
      exact or_iff_right hk
    rw [afterScheme] at hrest
    split_ifs at hrest with hhttps hhttp
    · cases hrest
      exact hprefix _ 8 hhttps (by decide) (by decide)
    · cases hrest
      exact hprefix _ 7 hhttp (by decide) (by decide)
  rw [Pattern.accepts] at h ⊢
  cases hrest : afterScheme s with
  | none =>
    rw [hrest] at h
    cases h
  | some rest =>
    rw [hrest] at h
    simp only [Bool.and_eq_true, decide_eq_true_eq, all_eq_true, Bool.not_eq_true'] at h ⊢
    rw [hsplit hrest]
    constructor
    · rintro ⟨_, hall⟩ hmem
      have := hall _ hmem
      revert this
      decide
    · intro hnot
      refine ⟨h.1, ?_⟩
      intro u hu
      rw [runnerSpace_eq (h.2 u hu), beq_eq_false_iff_ne]
      rintro rfl
      exact hnot hu

/-- **A demand that the server finds met** is met for the runner if it is portable. -/
theorem meets_runner_iff {formats : Formats} {dm : Demand} (h : serverReading.meets dm = true) :
    (runnerReading formats).meets dm = true ↔ dm.Portable formats := by
  cases dm with
  | length low high s =>
    have hle := decode_length_le s
    change (low ≤ (decode s).length && (decode s).length ≤ high) = true at h
    show (low ≤ s.length && s.length ≤ high) = true ↔ s.length ≤ high
    simp only [Bool.and_eq_true, decide_eq_true_eq] at h ⊢
    omega
  | pattern p s =>
    cases p with
    | baseUrl => exact baseUrl_accepts h
    | digest | gitHash | «alias» | imageDigest | hostname => exact iff_of_true h trivial
  | range low high n | items low high n => exact iff_of_true h trivial
  | uuid s | dateTime s => exact .rfl

/-! ## Provider URLs -/

/-- The runner's `URL` takes a text and finds a host, but no credentials, query or
fragment. -/
def PlainUrl (platform : Platform) (s : Str) : Prop :=
  ∃ u, platform.newUrl s = .ok u ∧ u.hostname ≠ [] ∧ u.username = [] ∧ u.password = [] ∧
    u.search = [] ∧ u.hash = []

variable {platform : Platform} {d : AttemptDescriptor} {c : ExecutionConfiguration}

theorem ProviderConfig.semantics_ok {v : ProviderConfig} (h : v.validators platform = .ok ()) :
    v.semantics platform = .ok () ↔ PlainUrl platform v.baseUrl := by
  simp only [ProviderConfig.validators, ProviderConfig.validateModel, bind_ok, exists_unit,
    raiseIf_ok, Bool.not_eq_false', decide_eq_false_iff_not, not_lt, bne_eq_false_iff_eq] at h
  obtain ⟨hnetwork, hreport, -, -, -, -, -, -, hmodel, hwindow, hversion⟩ := h
  simp only [ProviderConfig.semantics, bind_ok, exists_unit, NetworkPolicy.semantics_ok,
    CapabilityReport.semantics_ok, requireThat_ok, hnetwork, hreport, hmodel, hwindow, hversion,
    PlainUrl, Bool.and_eq_true, Bool.not_eq_true', List.isEmpty_iff, isEmpty_eq_false_iff,
    decide_eq_true_eq, beq_self_eq_true, and_true, true_and, and_assoc]

/-! ## The parts of a descriptor -/

theorem safe_audienceUserIds (hsafe : d.toValue.json.Safe) :
    (userIds d.audience.audienceUserIds).Safe := by
  have haudience : d.audience.toJson.Safe :=
    safe_member hsafe (k := "audience") (by simp [AttemptDescriptor.members])
  exact safe_member haudience (k := "audience_user_ids") (by simp [userIds])

theorem safe_tested (hsafe : d.toValue.json.Safe) : d.testedConfiguration.toJson.Safe :=
  safe_member hsafe (k := "tested_configuration") (by simp [AttemptDescriptor.members])

/-- The parts that may not change are tidy and safe with the configuration. -/
theorem fixed_tidy_safe (hsafe : c.toJson.Safe) : ∀ f ∈ c.fixed, f.2.Tidy ∧ f.2.Safe := by
  have hinstructions : (instructionsDigestJson c).Tidy ∧ (instructionsDigestJson c).Safe := by
    rw [instructionsDigestJson]
    cases c.instructionsDigest.value? with
    | none => exact ⟨tidy_null, safe_null⟩
    | some s => exact ⟨tidy_string s, safe_string s⟩
  simp only [ExecutionConfiguration.fixed, forall_mem_cons]
  refine ⟨⟨tidy_string _, safe_string _⟩, ⟨tidy_nat _, ?_⟩, ⟨c.adapter.tidy, ?_⟩,
    ⟨tidy_nullable EffectiveProvider.tidy, ?_⟩, ⟨tidy_nat _, ?_⟩, ⟨c.sandbox.tidy, ?_⟩,
    ⟨c.network.tidy, ?_⟩, hinstructions, by simp⟩
  · exact safe_member hsafe (k := "profile_revision") (by simp)
  · exact safe_member hsafe (k := "adapter") (by simp)
  · exact safe_member hsafe (k := "provider") (by simp)
  · exact safe_member hsafe (k := "policy_version") (by simp)
  · exact safe_member hsafe (k := "sandbox") (by simp)
  · exact safe_member hsafe (k := "network") (by simp)

theorem safe_binding (hsafe : c.toJson.Safe) : (bindingJson c.workspaceBinding).Safe :=
  safe_member hsafe (k := "workspace_binding") (by simp [bindingJson])

theorem safe_obj {members : List (String × Json)} (h : ∀ m ∈ members, m.2.Safe) :
    (obj members).Safe := by
  intro n hn
  obtain hn | ⟨m, hm, hn | hn⟩ := mem_parts_object.mp hn
  · cases hn
  · cases hn
  · obtain ⟨l, hl, rfl⟩ := mem_map.mp hm
    exact h l hl n hn

theorem safe_strings (xs : List Str) : (listed .string xs).Safe := by
  intro n hn
  obtain ⟨v, hv, hp⟩ := mem_parts_array.mp hn
  obtain ⟨s, _, rfl⟩ := mem_map.mp hv
  exact safe_string s n hp

theorem safe_nullable_string (s : Option Str) : (nullable .string s).Safe := by
  cases s with
  | none => exact safe_null
  | some s => exact safe_string s

/-- The only number of a binding is the repository's policy version. -/
theorem safe_effectiveBinding {h : Hash} (hsafe : d.toValue.json.Safe)
    {binding : Option WorkspaceBinding} (hbinding : effectiveBinding h d.repository = .ok binding) :
    (bindingJson binding).Safe := by
  have hrepository : (nullable RepositoryConfig.toJson d.repository).Safe :=
    safe_member hsafe (k := "repository") (by simp [AttemptDescriptor.members])
  cases hr : d.repository with
  | none =>
    rw [hr] at hbinding
    cases hbinding
    exact safe_null
  | some r =>
    rw [hr] at hbinding hrepository
    rw [effectiveBinding, bind_ok] at hbinding
    obtain ⟨digest, -, hbinding⟩ := hbinding
    cases hbinding
    have hversion : (nat r.policyVersion).Safe :=
      safe_member hrepository (k := "policy_version") (by simp)
    refine safe_obj ?_
    simp only [forall_mem_cons]
    exact ⟨safe_nullable_string _, safe_string _, safe_string _, hversion, safe_string _,
      safe_strings _, by simp⟩

theorem tidy_binding (binding : Option WorkspaceBinding) : (bindingJson binding).Tidy :=
  tidy_nullable WorkspaceBinding.tidy

/-! ## Narrowing -/

theorem fits_eq (actual ceiling : Option ℕ) : fits actual ceiling = !exceeds actual ceiling := by
  cases actual <;> cases ceiling <;> simp [fits, exceeds, ← decide_not]

theorem mem_zip_self {α : Type} {l : List α} {a b : α} (h : (a, b) ∈ l.zip l) :
    a ∈ l ∧ a = b := by
  induction l with
  | nil => cases h
  | cons c l ih =>
    obtain h | h := mem_cons.mp h
    · cases h
      exact ⟨mem_cons_self .., rfl⟩
    · exact ⟨mem_cons_of_mem _ (ih h).1, (ih h).2⟩

/-- Equal parts have equal texts. -/
theorem fixed_equal (hsafe : c.toJson.Safe) : ((c.fixed.zip c.fixed).forM fun f => do
      let same ← equal f.1.2 f.2.2
      requireThat same f.1.1) = .ok () := by
  rw [forM_eq_forM, forM_ok]
  rintro ⟨f, g⟩ hmem
  obtain ⟨hf, rfl⟩ := mem_zip_self hmem
  obtain ⟨htidy, hsafe⟩ := fixed_tidy_safe hsafe f hf
  simp [equal_self htidy hsafe]

/-- What narrows for the server narrows for the runner. -/
theorem narrow_ok (hissued : Issued platform d) (hsafe : d.toValue.json.Safe)
    (h : d.validateAttemptConfiguration platform.sha256 = .ok ()) :
    narrow platform.sha256 d = .ok () := by
  simp only [validateAttemptConfiguration, bind_ok, exists_unit, raiseIf_ok] at h
  obtain ⟨c, hc, hruntime, hworkspace, hactions, hcap, hbudget⟩ := h
  have heffective := effectiveConfiguration_of_derive hissued hc
  have htested := safe_tested hsafe
  have hfixed : c.fixed = d.testedConfiguration.fixed := by
    simp only [Bool.or_eq_false_iff, bne_eq_false_iff_eq] at hruntime
    obtain ⟨⟨⟨⟨⟨⟨⟨hrunner, hrevision⟩, hadapter⟩, hprovider⟩, hversion⟩, hsandbox⟩, hnetwork⟩,
      hinstructions⟩ := hruntime
    rw [ExecutionConfiguration.fixed, ExecutionConfiguration.fixed, instructionsDigestJson,
      instructionsDigestJson, hrunner, hrevision, hadapter, hprovider, hversion, hsandbox,
      hnetwork, hinstructions]
  have hbinding : (bindingJson c.workspaceBinding).Safe := by
    have heff := heffective
    rw [effectiveConfiguration, bind_ok] at heff
    obtain ⟨binding, heff, hcfg⟩ := heff
    cases hcfg
    exact safe_effectiveBinding hsafe heff
  -- The texts of the two bindings are compared before the kind of the job is looked at.
  obtain ⟨same, hsame⟩ := equal_of_tidy (tidy_binding c.workspaceBinding) hbinding
    (tidy_binding d.testedConfiguration.workspaceBinding) (safe_binding htested)
  have hallowed : (same || ((d.jobKind == .answer || d.jobKind == .manage) &&
      c.workspaceBinding.isNone)) = true := by
    rw [Bool.and_eq_false_iff] at hworkspace
    obtain heq | hkind := hworkspace
    · rw [bne_eq_false_iff_eq.mp heq] at hsame
      rw [equal_self (tidy_binding _) (safe_binding htested)] at hsame
      cases hsame
      rfl
    · rw [Bool.not_eq_false'] at hkind
      rw [hkind, Bool.or_true]
  have hfits : ((c.budget.fields.zip d.testedConfiguration.budget.fields).all
      fun f => fits f.1 f.2) = true := by
    simp only [fits_eq]
    simpa using hbudget
  simp only [narrow, heffective, bind_ok, exists_unit, Except.ok.injEq, requireThat_ok,
    exists_eq_left']
  rw [hfixed]
  refine ⟨fixed_equal htested, same, hsame, hallowed, ?_, ?_, hfits⟩
  · simpa using hactions
  · cases hcap' : d.testedConfiguration.hardCostCap with
    | false => rfl
    | true => simpa [hcap'] using hcap

/-! ## The rules of the descriptor -/

theorem AudienceBinding.semantics_of_matching {v : AudienceBinding}
    (hsafe : (userIds v.audienceUserIds).Safe) (h : v.matchingAudience = .ok ()) :
    v.semantics = .ok () := by
  simp only [AudienceBinding.matchingAudience, bind_ok, exists_unit, raiseIf_ok,
    bne_eq_false_iff_eq, Bool.not_eq_false', Bool.and_eq_true] at h
  obtain ⟨hroute, hvisibility, hsorted, hprincipals⟩ := h
  have hequal : equal (userIds v.audienceUserIds)
      (userIds (sortedSet natLe v.audienceUserIds)) = .ok true := by
    rw [← hsorted]
    exact equal_self (tidy_userIds _) hsafe
  have hvisible : ∀ value ∈ v.visibility, ((v.kind == .stream) == value.isSome) = true := by
    intro value hvalue
    rw [Bool.or_eq_false_iff] at hvisibility
    obtain ⟨hstream, hdirect⟩ := hvisibility
    cases hkind : v.kind with
    | stream =>
      rw [hkind] at hstream
      have hnone := any_eq_false.mp hstream value hvalue
      cases value with
      | none => exact absurd rfl hnone
      | some b => rfl
    | direct =>
      rw [hkind] at hdirect
      have hsome := any_eq_false.mp hdirect value hvalue
      cases value with
      | none => rfl
      | some b => exact absurd rfl hsome
  simp only [AudienceBinding.semantics, forM_eq_forM, bind_ok, exists_unit, requireThat_ok,
    forM_ok, hequal, Except.ok.injEq, exists_eq_left', hprincipals, Bool.and_self, and_true]
  exact ⟨beq_iff_eq.mpr hroute, hvisible⟩

theorem sameAudience_ok {ids : List ℕ}
    (hids : d.policy.scope.participantUserIds = some ids) (hsafe : d.toValue.json.Safe)
    (h : (d.audience.profileId != d.profileId ||
      (d.policy.scope.anchorMessageId.any fun id => id != d.audience.anchorMessageId) ||
      (d.policy.scope.kind == .stream && d.policy.scope.streamId != d.audience.streamId) ||
      (d.policy.scope.kind == .direct &&
        d.policy.scope.participants.insertionSort (· ≤ ·) != d.audience.audienceUserIds)) = false) :
    d.sameAudience = .ok true := by
  simp only [Bool.or_eq_false_iff] at h
  obtain ⟨⟨⟨hprofile, hanchor⟩, hstream⟩, hdirect⟩ := h
  have hplace : (d.audience.profileId == d.profileId &&
      (d.policy.scope.anchorMessageId.all fun id => id == d.audience.anchorMessageId) &&
      (d.policy.scope.kind != .stream || d.policy.scope.streamId == d.audience.streamId)) =
        true := by
    have hanchor' : (d.policy.scope.anchorMessageId.all
        fun id => id == d.audience.anchorMessageId) = true := by
      cases hid : d.policy.scope.anchorMessageId with
      | none => rfl
      | some id => simpa [hid] using hanchor
    have hstream' : (d.policy.scope.kind != .stream ||
        d.policy.scope.streamId == d.audience.streamId) = true := by
      cases hkind : d.policy.scope.kind with
      | stream => simpa [hkind] using hstream
      | direct | selected => rfl
    rw [hanchor', hstream']
    simpa using hprofile
  rw [sameAudience, if_pos hplace]
  by_cases hkind : d.policy.scope.kind = .direct
  · have hsorted : ids.insertionSort (· ≤ ·) = d.audience.audienceUserIds := by
      simpa [hkind, ConversationScope.participants, hids] using hdirect
    rw [if_neg (by simp [hkind]), hids, sameParticipants, hsorted]
    exact equal_self (tidy_userIds _) (safe_audienceUserIds hsafe)
  · rw [if_pos (by simpa using hkind)]

theorem kindRules_ok : d.kindRules = .ok () ↔ d.constrainKind = .ok () := by
  rw [kindRules, constrainKind]
  cases d.jobKind with
  | answer => simp [or_iff_not_imp_left]
  | code | manage => cases d.repository <;> simp

theorem rules_ok (hissued : Issued platform d)
    {ids : List ℕ} (hids : d.policy.scope.participantUserIds = some ids)
    (hsafe : d.toValue.json.Safe) (h : d.constrainExecution platform.sha256 = .ok ()) :
    d.rules platform.sha256 = .ok () := by
  simp only [constrainExecution, bind_ok, exists_unit, raiseIf_ok] at h
  obtain ⟨hrevision, haudience, hkind, hadapter, hrunner, hcap, hnarrow⟩ := h
  rw [Bool.or_eq_false_iff] at hrunner
  simp only [rules, bind_ok, exists_unit, requireThat_ok,
    sameAudience_ok hids hsafe haudience, Except.ok.injEq, exists_eq_left', true_and]
  refine ⟨kindRules_ok.mpr hkind, ?_, ?_, ?_, ?_, ?_, narrow_ok hissued hsafe hnarrow⟩
  · cases hprovider : d.provider with
    | none => simpa [hprovider] using hadapter
    | some p => simp
  · cases hprovider : d.provider with
    | none => rfl
    | some p => simpa [hprovider] using hrunner.1
  · cases hrepository : d.repository with
    | none => rfl
    | some r => simpa [hrepository] using hrunner.2
  · cases hcost : d.policy.hardCostCap with
    | false => rfl
    | true =>
      cases hprovider : d.provider with
      | none => simp [hcost, hprovider] at hcap
      | some p =>
        cases hlimit : d.budget.costLimitMicrounits with
        | none => simp [hcost, hlimit] at hcap
        | some n => simpa [hcost, hprovider, hlimit] using hcap
  · cases hown : d.profileInstructions with
    | none => rfl
    | some own => simpa [hown] using hrevision

/-! ## The descriptor -/

/-- What the runner asks of a descriptor beyond what the server does: texts, formats and the
base URL that are portable, and numbers that are safe integers. -/
structure Portable (platform : Platform) (d : AttemptDescriptor) : Prop where
  demands : ∀ dm ∈ d.demands, dm.Portable platform.formats
  urls : ∀ p, d.provider = some p → PlainUrl platform p.baseUrl
  integers : d.toValue.json.Safe

theorem participants_given {scope : ConversationScope} (h : scope.filled = scope) :
    ∃ ids, scope.participantUserIds = some ids :=
  ⟨_, (congrArg ConversationScope.participantUserIds h).symm⟩

/-- **The records of a descriptor pass the runner's rules**, the provider's URL apart. -/
theorem semantics_ok (hissued : Issued platform d) (hsafe : d.toValue.json.Safe) :
    d.semantics platform = .ok () ↔ ∀ p, d.provider = some p → PlainUrl platform p.baseUrl := by
  have hvalidators := hissued.validators
  simp only [validators, forM_eq_forM, bind_ok, exists_unit,
    forM_ok] at hvalidators
  obtain ⟨haudience, htested, hprovider, hrepository, hpolicy, hrefs, -, hexecution⟩ :=
    hvalidators
  obtain ⟨ids, hids⟩ := participants_given
    (congrArg (fun r => r.policy.scope) hissued.filled : d.policy.scope.filled = d.policy.scope)
  have hcontext : ∀ refs ∈ d.contextRefs.toList, ∀ ref ∈ refs, ref.semantics = .ok () := by
    intro refs hrefs' ref href
    obtain hrefs' := Option.mem_toList.mp hrefs'
    have hfilled : refs = (d.contextRefs.getD []).map ContextReference.filled := by
      have := congrArg AttemptDescriptor.contextRefs hissued.filled
      rw [hrefs'] at this
      exact (Option.some.inj this).symm
    obtain ⟨ref', -, rfl⟩ := mem_map.mp (hfilled ▸ href)
    refine (ContextReference.semantics_ok rfl).mpr (hrefs _ ?_)
    rw [hrefs']
    exact href
  simp only [semantics, forM_eq_forM, bind_ok, exists_unit, forM_ok,
    AudienceBinding.semantics_of_matching (safe_audienceUserIds hsafe) haudience,
    ExecutionConfiguration.semantics_ok.mpr htested, (Policy.semantics_ok hids).mpr hpolicy,
    rules_ok hissued hids hsafe hexecution, true_and, and_true]
  constructor
  · rintro ⟨hproviders, -⟩ p hp
    have hmem : p ∈ d.provider.toList := Option.mem_toList.mpr hp
    exact (ProviderConfig.semantics_ok (hprovider p hmem)).mp (hproviders p hmem)
  · intro hurls
    refine ⟨fun p hmem => ?_, fun r hr => RepositoryConfig.semantics_ok.mpr (hrepository r hr),
      hcontext⟩
    exact (ProviderConfig.semantics_ok (hprovider p hmem)).mpr
      (hurls p (Option.mem_toList.mp hmem))

theorem demands_met_iff (hissued : Issued platform d) :
    d.demands.all (runnerReading platform.formats).meets = true ↔
      ∀ dm ∈ d.demands, dm.Portable platform.formats := by
  rw [all_eq_true]
  exact forall₂_congr fun dm hdm => meets_runner_iff (hissued.demands dm hdm)

/-- A number that is no safe integer has no digest. -/
theorem safe_of_runnerDigest {h : Hash} {v : Value} {s : Str} (hs : h.runnerDigest v = .ok s) :
    v.json.Safe := by
  intro n hn
  by_contra hlarge
  obtain ⟨e, he⟩ := canonical_rejects hn (by simpa [Part.rejected] using hlarge)
  rw [Hash.runnerDigest, digestInput, he] at hs
  cases hs

/-- **A descriptor that was handed out is accepted exactly when it is portable.** -/
theorem validateDescriptor_iff (hissued : Issued platform d) :
    validateDescriptor platform d d.runnerId = .ok d ↔ Portable platform d := by
  simp only [validateDescriptor, parse, restoreOmittedKeys_defaulted, bind_ok, exists_unit,
    requireThat_ok, demands_met_iff hissued, beq_iff_eq, pure, Except.pure, Except.ok.injEq]
  constructor
  · rintro ⟨_, ⟨hdemands, hsemantics, rfl⟩, -, _, -, -, s, hs, -⟩
    have hsafe := safe_of_runnerDigest hs
    exact ⟨hdemands, (semantics_ok hissued hsafe).mp hsemantics, hsafe⟩
  · rintro ⟨hdemands, hurls, hsafe⟩
    exact ⟨d, ⟨hdemands, (semantics_ok hissued hsafe).mpr hurls, rfl⟩, rfl, _,
      runnerDigest_of_digest d.testedConfiguration.tidy (safe_tested hsafe) hissued.configuration,
      rfl, _, runnerDigest_of_digest d.tidy_members hsafe hissued.descriptor, rfl, rfl⟩

/-- **Every descriptor that the server builds** runs under the configuration that the server
derives, and its runner accepts it exactly when it is portable. -/
theorem accepted_iff {platform : Platform} {job : JobRow} {attempt : AttemptRow}
    {d : AttemptDescriptor} (hd : buildDescriptor platform job attempt = .ok d) :
    (effectiveConfiguration platform.sha256 d = deriveExecutionConfiguration platform.sha256 d ∧
      validateDescriptor platform d job.runnerId = .ok d) ↔ Portable platform d := by
  obtain ⟨hissued, hrunner⟩ := issued_of_build hd
  have hvalidators := hissued.validators
  simp only [AttemptDescriptor.validators, AttemptDescriptor.constrainExecution,
    AttemptDescriptor.validateAttemptConfiguration, bind_ok, exists_unit] at hvalidators
  obtain ⟨-, -, -, -, -, -, -, -, -, -, -, -, -, c, hc, -⟩ := hvalidators
  rw [effectiveConfiguration_of_derive hissued hc, hc, ← hrunner]
  exact (and_iff_right rfl).trans (validateDescriptor_iff hissued)

/-! ## A job without provider and repository -/

def sampleScope : ConversationScope where
  kind := .stream
  streamId := some 5
  topic := some (key "plan")
  participantUserIds := some []
  anchorMessageId := some 70

def sampleSandbox : SandboxConfig where
  «alias» := key "base"
  imageDigest := key "sha256:" ++ List.replicate 64 48
  toolchainDigest := List.replicate 64 48
  catalogRevision := 1
  cpuMillicores := 1000
  memoryBytes := 1073741824
  pidsLimit := 256
  temporaryBytes := 1073741824

def samplePolicy : Policy where
  version := 1
  actions := [.contextRead]
  grantIds := some []
  scope := sampleScope
  sandbox := sampleSandbox
  network := { targets := some [] }
  hardCostCap := false

def sampleBudget : Budget where
  activeSeconds := 3600
  toolRounds := 40
  shellTimeoutSeconds := 120
  transportRetries := 2
  contextRecoveries := 2
  inputTokens := 1000
  outputTokens := 1000
  toolOutputBytes := 51200
  artifactBytes := 10485760
  jobArtifactBytes := 52428800
  costLimitMicrounits := none

def sampleAdapter : AdapterConfig where
  id := key "claude"
  version := key "1.0"
  mode := .acp

def sampleRunner : Str := key "0b54e7a5-36f4-4f6e-9d32-5c2f8f6f0a01"

def sampleProfileId : Str := key "0b54e7a5-36f4-4f6e-9d32-5c2f8f6f0a02"

def sampleTested : ExecutionConfiguration where
  runnerId := sampleRunner
  profileRevision := 3
  adapter := sampleAdapter
  provider := none
  workspaceBinding := none
  policyVersion := 1
  actions := [.contextRead]
  sandbox := sampleSandbox
  network := { targets := some [] }
  hardCostCap := false
  budget := sampleBudget
  instructionsDigest := .omitted

def sampleAudience : AudienceBinding where
  conversationId := key "0b54e7a5-36f4-4f6e-9d32-5c2f8f6f0a03"
  epoch := 1
  realmId := 2
  profileId := sampleProfileId
  requesterUserId := 10
  botUserId := 11
  anchorMessageId := 70
  recipientId := 9
  kind := .stream
  streamId := some 5
  inviteOnly := some false
  isWebPublic := some false
  historyPublicToSubscribers := some true
  audienceUserIds := [10, 11]

def sampleProfile (digest : Str) : ProfileRow where
  id := sampleProfileId
  revision := 3
  enabledRevision := some 3
  readinessRevision := some 3
  desiredState := .enabled
  readinessState := .ready
  readinessConfiguration := sampleTested
  readinessConfigurationDigest := digest
  adapterId := key "claude"
  adapterVersion := key "1.0"
  mode := .acp
  runner :=
    { id := sampleRunner
      catalogRevision := 1
      catalogReport := .ok
        { revision := 1
          adapters := [(key "claude", key "1.0")]
          sandboxes := [sampleSandbox] } }
  provider := none
  defaultRepository := none
  policy := samplePolicy
  budget := sampleBudget
  instructions := []
  codeReady := false
  realm := { teamInstructions := [], teamInstructionsRevision := 1 }
  mayUseRunner := true
  mayUseProvider := true
  mayUseRepository _ := true

variable (digest request : Str)

def sampleJob : JobRow where
  id := key "0b54e7a5-36f4-4f6e-9d32-5c2f8f6f0a04"
  jobKind := .answer
  deliveryTarget := .answer
  request := request
  runnerId := sampleRunner
  baseRef := []
  policy := samplePolicy
  budget := sampleBudget
  audienceBinding := sampleAudience
  profile := sampleProfile digest
  repository := none
  contextRefs := []
  inputs := []
  access _ := true

def sampleAttempt : AttemptRow where
  id := key "0b54e7a5-36f4-4f6e-9d32-5c2f8f6f0a05"
  leaseEpoch := 1
  leaseExpiresAt := key "2026-07-01T00:00:00Z"
  sourceCheckpoint := none

def sampleDescriptor : AttemptDescriptor :=
  (descriptorData (sampleJob digest request) sampleAttempt sampleTested samplePolicy none).filled

theorem samplePolicy_valid : samplePolicy.modelValidate = .ok samplePolicy := rfl

theorem sampleTested_valid : sampleTested.modelValidate = .ok sampleTested := rfl

theorem sampleRuntime_valid (platform : Platform) (digest : Str) :
    validateRuntime platform (sampleProfile digest) = .ok () := by
  rfl

theorem sampleCurrent (platform : Platform) (digest : Str) :
    currentExecutionConfiguration platform (sampleProfile digest) = .ok sampleTested := by
  rfl

theorem sampleValidators (platform : Platform) (digest request : Str) :
    (sampleDescriptor digest request).validators platform = .ok () := by
  rfl


/-! ### A text in place of another -/

theorem mem_demands_texts {c r : Str} {dm : Demand}
    (h : dm ∈ { d with configurationDigest := c, request := r }.demands) :
    dm = .pattern .digest c ∨ dm = .length 1 20000 r ∨ dm ∈ d.demands := by
  simp only [AttemptDescriptor.demands, mem_append, mem_cons] at h ⊢
  tauto

theorem mem_members_texts {c r : Str} {m : String × Json}
    (h : m ∈ { d with configurationDigest := c, request := r }.members) :
    m = ("configuration_digest", .string c) ∨ m = ("request", .string r) ∨ m ∈ d.members := by
  simp only [AttemptDescriptor.members, mem_append, mem_cons] at h ⊢
  tauto

/-- The parts of a descriptor stay what they are, apart from the two texts. -/
theorem mem_parts_texts {c r : Str} {p : Part}
    (h : p ∈ { d with configurationDigest := c, request := r }.toValue.json.parts) :
    p = .string c ∨ p = .string r ∨ p ∈ d.toValue.json.parts := by
  have hparts : ∀ n ∈ d.members, p = .string (key n.1) ∨ p ∈ n.2.parts →
      p ∈ d.toValue.json.parts := fun n hn hp =>
    mem_parts_object.mpr (.inr ⟨_, mem_map.mpr ⟨n, hn, rfl⟩, hp⟩)
  obtain rfl | ⟨m, hm, hp⟩ := mem_parts_object.mp h
  · refine .inr (.inr (mem_parts_object.mpr (.inl ?_)))
    simp [AttemptDescriptor.members]
  obtain ⟨n, hn, rfl⟩ := mem_map.mp hm
  obtain rfl | rfl | hn := mem_members_texts hn
  · obtain hp | hp := hp
    · exact .inr (.inr (hparts ("configuration_digest", .string d.configurationDigest)
        (by simp [AttemptDescriptor.members]) (.inl hp)))
    · exact .inl (mem_singleton.mp hp)
  · obtain hp | hp := hp
    · exact .inr (.inr (hparts ("request", .string d.request)
        (by simp [AttemptDescriptor.members]) (.inl hp)))
    · exact .inr (.inl (mem_singleton.mp hp))
  · exact .inr (.inr (hparts n hn hp))

/-- No string of a value has a lone surrogate. -/
def wholePart : Part → Bool
  | .string s => decide (Paired s)
  | _ => true

theorem not_lone_of_whole {v : Json} (h : v.parts.all wholePart = true) : ¬ v.Lone := by
  rintro ⟨s, hs, hnot⟩
  exact hnot (of_decide_eq_true (all_eq_true.mp h _ hs))

theorem paired_of_isDigest {s : Str} (h : isDigest s = true) : Paired s := by
  refine paired_ascii fun u hu => ?_
  have hhex := all_eq_true.mp (Bool.and_eq_true_iff.mp h).2 u hu
  simp only [isHex, Bool.or_eq_true, Bool.and_eq_true, decide_eq_true_eq] at hhex
  omega

theorem sampleDescriptor_eq : sampleDescriptor digest request =
      { sampleDescriptor (List.replicate 64 48) [48] with
        configurationDigest := digest, request := request } := rfl

theorem sample_demands {digest request : Str} (hdigest : isDigest digest = true)
    (hne : 1 ≤ (decode request).length) (hle : (decode request).length ≤ 20000) :
    ∀ dm ∈ (sampleDescriptor digest request).demands, serverReading.meets dm = true := by
  have hclosed : (sampleDescriptor (List.replicate 64 48) [48]).demands.all serverReading.meets =
      true := by
    decide
  intro dm hdm
  rw [sampleDescriptor_eq] at hdm
  obtain rfl | rfl | hdm := mem_demands_texts hdm
  · exact hdigest
  · show (1 ≤ (decode request).length && (decode request).length ≤ 20000) = true
    rw [decide_eq_true hne, decide_eq_true hle]
    rfl
  · exact all_eq_true.mp hclosed dm hdm

theorem sample_not_lone {digest request : Str} (hdigest : isDigest digest = true)
    (hrequest : Paired request) : ¬ (sampleDescriptor digest request).toValue.json.Lone := by
  have hclosed : ¬ (sampleDescriptor (List.replicate 64 48) [48]).toValue.json.Lone :=
    not_lone_of_whole (by decide +kernel)
  rw [sampleDescriptor_eq]
  rintro ⟨s, hs, hnot⟩
  obtain hs | hs | hs := mem_parts_texts hs
  · cases hs
    exact hnot (paired_of_isDigest hdigest)
  · cases hs
    exact hnot hrequest
  · exact hclosed ⟨s, hs, hnot⟩

theorem digest_ok {h : Hash} {v : Value} (htidy : v.json.Tidy) (hlone : ¬ v.json.Lone) :
    ∃ s, h.digest v = .ok s ∧ isDigest s = true :=
  ⟨_, map_ok.mpr ⟨_, canonicalJson_ok hlone htidy.not_infinite, rfl⟩, h.digits _⟩

theorem sample_ready {digest : Str}
    (hdigest : platform.sha256.digest sampleTested.toValue = .ok digest) :
    requireReady platform (sampleProfile digest) = .ok sampleTested := by
  have hsame : (digest != (sampleProfile digest).readinessConfigurationDigest ||
      sampleTested != sampleTested) = false := by
    rw [bne_self_eq_false, Bool.or_false]
    exact bne_self_eq_false _
  simp only [requireReady, bind_ok, exists_unit, raiseIf_ok]
  exact ⟨rfl, sampleRuntime_valid platform digest, sampleTested, sampleTested_valid, digest,
    hdigest, sampleTested, sampleCurrent platform digest, hsame, rfl⟩

/-- The sample is built, whatever its request. -/
theorem sample_built (platform : Platform) {request : Str} (hrequest : Paired request)
    (hne : 1 ≤ (decode request).length) (hle : (decode request).length ≤ 20000) :
    ∃ digest, ∃ s, buildDescriptor platform (sampleJob digest request) sampleAttempt =
      .ok { sampleDescriptor digest request with descriptorDigest := s } := by
  obtain ⟨digest, hdigest, hhex⟩ :=
    digest_ok (h := platform.sha256) (v := sampleTested.toValue) sampleTested.tidy
      (not_lone_of_whole (by decide))
  obtain ⟨s, hs, -⟩ :=
    digest_ok (h := platform.sha256) (v := (sampleDescriptor digest request).toValue)
      (sampleDescriptor digest request).tidy_members (sample_not_lone hhex hrequest)
  have hvalid : (descriptorData (sampleJob digest request) sampleAttempt sampleTested
      samplePolicy none).modelValidate platform = .ok (sampleDescriptor digest request) :=
    validated_ok.mpr ⟨sample_demands hhex hne hle, sampleValidators platform digest request, rfl⟩
  have hconfiguration : configurationDigest platform.sha256 (sampleDescriptor digest request) =
      .ok digest := by
    simp only [configurationDigest, bind_ok, exists_unit]
    exact ⟨rfl, hdigest⟩
  refine ⟨digest, s, ?_⟩
  simp only [buildDescriptor, bind_ok, exists_unit, raiseIf_ok]
  refine ⟨sampleTested, sample_ready hdigest, rfl, samplePolicy, samplePolicy_valid, none, rfl, ?_⟩
  exact ⟨_, hvalid, digest, hconfiguration, bne_self_eq_false _, s, hs, rfl⟩

/-- The digests of the sample's configuration and of its descriptor, told apart by length. -/
def sampleHexdigest (b : ByteArray) : Str :=
  if b.size < 2000 then key "47d843d6bd976c6e2632b9690ffd5a60e395ae655f8a87c569818e88bb0b2de8"
  else key "130db785fc1a8bfba3bc86bcdd3e5218d08717ed3d1a43cc13ba24a77acb52c3"

theorem sampleHexdigest_digits (b : ByteArray) : isDigest (sampleHexdigest b) = true := by
  rw [sampleHexdigest]
  split <;> decide

def samplePlatform : Platform where
  sha256 := ⟨sampleHexdigest, sampleHexdigest_digits⟩
  urlsplit _ := .error "no URL"
  newUrl _ := .error "no URL"
  formats :=
    { uuid := fun s => s.length == 36
      dateTime := fun s => s.length == 20 }

theorem sample_portable (digest s : Str) :
    Portable samplePlatform { sampleDescriptor digest (key "hi") with descriptorDigest := s } := by
  let sample := sampleDescriptor (List.replicate 64 48) [48]
  have hclosed : sample.demands.all
      (runnerReading samplePlatform.formats).meets = true := by
    decide
  have hserver : ∀ dm ∈ sample.demands,
      serverReading.meets dm = true :=
    sample_demands (by decide) (by decide) (by decide)
  have hsafe : sample.toValue.json.parts.all
      (fun p => !p.rejected) = true := by
    decide
  refine ⟨?_, (by simp [sampleDescriptor, filled, descriptorData]), ?_⟩
  · intro dm hdm
    obtain rfl | hdm := mem_demands_digest hdm
    · trivial
    rw [sampleDescriptor_eq] at hdm
    obtain rfl | rfl | hdm := mem_demands_texts hdm
    · trivial
    · exact (by decide : (key "hi").length ≤ 20000)
    · exact (meets_runner_iff (hserver dm hdm)).mp (all_eq_true.mp hclosed dm hdm)
  · intro n hn
    change Part.integer n ∈ (sampleDescriptor digest (key "hi")).toValue.json.parts at hn
    rw [sampleDescriptor_eq] at hn
    obtain hn | hn | hn := mem_parts_texts hn
    · cases hn
    · cases hn
    · simpa [Part.rejected] using all_eq_true.mp hsafe _ hn

/-- A request to say hello is accepted. -/
theorem hello_accepted : ∃ digest, ∃ d,
    buildDescriptor samplePlatform (sampleJob digest (key "hi")) sampleAttempt = .ok d ∧
      effectiveConfiguration samplePlatform.sha256 d =
        deriveExecutionConfiguration samplePlatform.sha256 d ∧
      validateDescriptor samplePlatform d sampleRunner = .ok d := by
  obtain ⟨digest, s, hd⟩ := sample_built samplePlatform (by decide : Paired (key "hi"))
    (by decide) (by decide)
  exact ⟨digest, _, hd, (accepted_iff hd).mpr (sample_portable digest s)⟩

/-- So many times the character U+1F600, two code units each. -/
def faces (n : ℕ) : Str := (List.replicate n [0xD83D, 0xDE00]).flatten

theorem decode_faces (n : ℕ) : decode (faces n) = List.replicate n 0x1F600 := by
  induction n with
  | zero => rfl
  | succ n ih =>
    have hcons : faces (n + 1) = 0xD83D :: 0xDE00 :: faces n := rfl
    rw [hcons, decode_pair (by decide) (by decide), ih]
    rfl

theorem length_faces (n : ℕ) : (faces n).length = 2 * n := by
  induction n with
  | zero => rfl
  | succ n ih =>
    have hcons : faces (n + 1) = 0xD83D :: 0xDE00 :: faces n := rfl
    rw [hcons, length_cons, length_cons]
    omega

/-- Whatever the platform, the server builds a descriptor with a request of 10001 such
characters, and the runner rejects it: the request has 20002 code units. -/
theorem not_every_accepted : ¬ ∃ platform : Platform, ∀ job attempt d,
    buildDescriptor platform job attempt = .ok d →
      validateDescriptor platform d job.runnerId = .ok d := by
  rintro ⟨platform, haccepted⟩
  have hpaired : Paired (faces 10001) := by
    intro p hp
    rw [decode_faces] at hp
    rw [eq_of_mem_replicate hp]
    decide
  obtain ⟨digest, s, hd⟩ := sample_built platform hpaired
    (by rw [decode_faces, length_replicate]; decide)
    (by rw [decode_faces, length_replicate]; decide)
  obtain ⟨hissued, hrunner⟩ := issued_of_build hd
  have hportable := (validateDescriptor_iff hissued).mp (hrunner ▸ haccepted _ _ _ hd)
  have hlength : (faces 10001).length ≤ 20000 :=
    hportable.demands (.length 1 20000 (faces 10001))
      (by simp [AttemptDescriptor.demands, sampleDescriptor, AttemptDescriptor.filled,
        descriptorData, sampleJob])
  rw [length_faces] at hlength
  omega

end GrowTeam.Descriptors
