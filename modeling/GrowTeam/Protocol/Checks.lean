import GrowTeam.Protocol.Models

/-!
# The runner's checks

What `protocol.ts` asks of a descriptor beyond the schema: the rules of each record, the
configuration that the descriptor runs under, and the two digests.
-/

namespace GrowTeam.Descriptors

open Utf16 Canonical

def requireThat (b : Bool) (message : String) : Except String Unit :=
  if b then .ok () else .error message

/-- Whether two values have the same canonical text. -/
def equal (a b : Json) : Except String Bool := do
  let s ← canonical a
  let t ← canonical b
  return s == t

def Hash.runnerDigest (h : Hash) (v : Value) : Except String Str :=
  (digestInput v).map h.hexdigest

def Hash.textDigest (h : Hash) (text : Str) : Str := h.hexdigest (update (decode text))

/-! ## The effective configuration -/

/-- The listed keys of a provider. -/
def effectiveProvider (p : ProviderConfig) : EffectiveProvider where
  id := p.id
  configVersion := p.configVersion
  baseUrl := p.baseUrl
  apiMode := p.apiMode
  modelId := p.modelId
  allowedModels := p.allowedModels
  credentialRef := p.credentialRef
  contextWindowTokens := p.contextWindowTokens
  maxOutputTokens := p.maxOutputTokens
  dataScope := p.dataScope
  network := p.network

/-- The digest of a list that was left out is an error. -/
def checksDigest (h : Hash) : Option (List RequiredCheck) → Except String Str
  | some checks => h.runnerDigest (checksValue checks)
  | none => .error "Invalid JSON value"

def effectiveBinding (h : Hash) : Option RepositoryConfig → Except String (Option WorkspaceBinding)
  | some r => do
    let checksDigest ← checksDigest h r.requiredChecks
    return some {
      canonicalOrigin := r.canonicalOrigin
      repositoryId := r.id
      workspaceAlias := r.workspaceAlias
      policyVersion := r.policyVersion
      checksDigest
      allowedRefs := r.allowedRefs }
  | none => .ok none

def actionUnitsLe (a b : ExecutionAction) : Bool := unitsLe (key a.name) (key b.name)

def effectiveConfiguration (h : Hash) (d : AttemptDescriptor) :
    Except String ExecutionConfiguration := do
  let binding ← effectiveBinding h d.repository
  return {
    runnerId := d.runnerId
    profileRevision := d.profileRevision
    adapter := d.adapter
    provider := d.provider.map effectiveProvider
    workspaceBinding := binding
    policyVersion := d.policy.version
    actions := sortedSet actionUnitsLe d.policy.actions
    sandbox := d.policy.sandbox
    network := d.policy.network
    hardCostCap := d.policy.hardCostCap
    budget := d.budget
    -- Never a null key: an absent digest must match an absent key.
    instructionsDigest := .ofOption (d.profileInstructions.map fun own => h.textDigest own.text) }

/-- `actual !== null && actual <= ceiling` for each ceiling that is not null. -/
def fits : Option ℕ → Option ℕ → Bool
  | _, none => true
  | none, some _ => false
  | some actual, some ceiling => actual ≤ ceiling

def instructionsDigestJson (c : ExecutionConfiguration) : Json :=
  nullable .string c.instructionsDigest.value?

/-- The parts that a descriptor may not change. -/
def ExecutionConfiguration.fixed (c : ExecutionConfiguration) : List (String × Json) :=
  [("Untested runner_id", .string c.runnerId), ("Untested profile_revision", nat c.profileRevision),
    ("Untested adapter", c.adapter.toJson),
    ("Untested provider", nullable EffectiveProvider.toJson c.provider),
    ("Untested policy_version", nat c.policyVersion),
    ("Untested sandbox", c.sandbox.toJson),
    ("Untested network", c.network.toJson),
    ("Untested instructions_digest", instructionsDigestJson c)]

def bindingJson (binding : Option WorkspaceBinding) : Json :=
  nullable WorkspaceBinding.toJson binding

def narrow (h : Hash) (d : AttemptDescriptor) : Except String Unit := do
  let actual ← effectiveConfiguration h d
  let tested := d.testedConfiguration
  (actual.fixed.zip tested.fixed).forM fun f => do
    let same ← equal f.1.2 f.2.2
    requireThat same f.1.1
  let same ← equal (bindingJson actual.workspaceBinding) (bindingJson tested.workspaceBinding)
  requireThat (same || ((d.jobKind == .answer || d.jobKind == .manage) &&
    actual.workspaceBinding.isNone)) "Untested workspace"
  requireThat (actual.actions.all tested.actions.contains) "Widened actions"
  requireThat (!tested.hardCostCap || actual.hardCostCap) "Removed cost cap"
  requireThat ((actual.budget.fields.zip tested.budget.fields).all fun f => fits f.1 f.2)
    "Widened budget"

/-! ## The rules of each record -/

def CapabilityReport.semantics (v : CapabilityReport) : Except String Unit :=
  requireThat (!v.codeReady || (v.chatReady && v.toolCalling == .passed && v.sandbox == .passed))
    "Missing coding evidence"

def NetworkTarget.semantics (v : NetworkTarget) : Except String Unit :=
  requireThat (!v.allowHttpPrivate || v.allowPrivate) "Private HTTP scope"

def NetworkPolicy.semantics (v : NetworkPolicy) : Except String Unit :=
  v.targets.toList.forM fun targets => targets.forM NetworkTarget.semantics

variable (platform : Platform)

def ProviderConfig.semantics (v : ProviderConfig) : Except String Unit := do
  v.network.semantics
  v.capabilityReport.semantics
  let u ← platform.newUrl v.baseUrl
  requireThat (!u.hostname.isEmpty && u.username.isEmpty && u.password.isEmpty &&
    u.search.isEmpty && u.hash.isEmpty) "Unsafe provider URL"
  requireThat (v.allowedModels.contains v.modelId && v.maxOutputTokens ≤ v.contextWindowTokens)
    "Invalid model"
  requireThat (v.configVersion == v.capabilityReport.configVersion) "Stale provider probe"

def RequiredCheck.semantics (v : RequiredCheck) : Except String Unit :=
  requireThat (!(v.cwd.head? == some 92 || v.cwd.head? == some 47) && !v.cwd.contains 58 &&
    !(segments v.cwd).contains (key "..")) "Unsafe check path"

def RepositoryConfig.semantics (v : RepositoryConfig) : Except String Unit := do
  v.requiredChecks.toList.forM fun checks => checks.forM RequiredCheck.semantics
  requireThat (v.allowedRefs.contains v.baseRef) "Base ref denied"

/-- A scope without participants is not looked at. -/
def ConversationScope.semantics (v : ConversationScope) : Except String Unit :=
  match v.participantUserIds with
  | none => .ok ()
  | some participants =>
    match v.kind with
    | .stream => requireThat (v.streamId.isSome && participants.isEmpty) "Invalid stream scope"
    | .direct => requireThat (v.streamId.isNone && !participants.isEmpty) "Invalid direct scope"
    | .selected => requireThat v.anchorMessageId.isSome "Missing anchor"

def userIds (ids : List ℕ) : Json := listed nat ids

def AudienceBinding.semantics (v : AudienceBinding) : Except String Unit := do
  requireThat ((v.kind == .stream) == v.streamId.isSome) "Audience kind"
  v.visibility.forM fun value =>
    requireThat ((v.kind == .stream) == value.isSome) "Audience visibility"
  let same ← equal (userIds v.audienceUserIds) (userIds (sortedSet natLe v.audienceUserIds))
  requireThat (same && v.audienceUserIds.contains v.requesterUserId &&
    v.audienceUserIds.contains v.botUserId) "Audience principals"

def ContextReference.semantics (v : ContextReference) : Except String Unit := do
  v.scope.semantics
  requireThat (v.holds v.kind &&
    ([ContextKind.message, .attachment, .repository].filter v.holds).length == 1) "Context kind"

def Policy.semantics (v : Policy) : Except String Unit := do
  v.scope.semantics
  v.network.semantics

def ExecutionConfiguration.semantics (v : ExecutionConfiguration) : Except String Unit := do
  v.provider.toList.forM fun p => p.network.semantics
  v.network.semantics

/-! ## The descriptor -/

/-- Whether the participants of a scope are the audience. -/
def sameParticipants (participants : Option (List ℕ)) (audience : List ℕ) : Except String Bool :=
  match participants with
  | some ids => equal (userIds (ids.insertionSort (· ≤ ·))) (userIds audience)
  | none => .error "participant_user_ids is not iterable"

variable (v : AttemptDescriptor)

def AttemptDescriptor.sameAudience : Except String Bool :=
  if v.audience.profileId == v.profileId &&
      (v.policy.scope.anchorMessageId.all fun id => id == v.audience.anchorMessageId) &&
      (v.policy.scope.kind != .stream || v.policy.scope.streamId == v.audience.streamId) then
    if v.policy.scope.kind != .direct then .ok true
    else sameParticipants v.policy.scope.participantUserIds v.audience.audienceUserIds
  else .ok false

def AttemptDescriptor.kindRules : Except String Unit :=
  match v.jobKind with
  | .answer =>
    requireThat (v.deliveryTarget == .answer &&
      v.policy.actions.all fun a => a == .contextRead || a == .repositoryRead) "Answer mutation"
  | .manage =>
    requireThat (v.deliveryTarget == .answer && v.repository.isNone &&
      v.policy.actions.all fun a => a == .contextRead) "Manage job scope"
  | .code =>
    requireThat (v.deliveryTarget != .answer && v.repository.isSome) "Missing code repository"

def AttemptDescriptor.rules (h : Hash) (v : AttemptDescriptor) : Except String Unit := do
  let same ← v.sameAudience
  requireThat same "Audience scope mismatch"
  v.kindRules
  requireThat (v.adapter.mode != .endpoint || v.provider.isSome) "Missing provider"
  requireThat (v.provider.all fun p => p.runnerId == v.runnerId) "Foreign runner"
  requireThat (v.repository.all fun r => r.runnerId == v.runnerId) "Foreign runner"
  requireThat (!v.policy.hardCostCap || (v.budget.costLimitMicrounits.isSome &&
    v.provider.any fun p => p.capabilityReport.usage == .passed)) "Unmeasured cost cap"
  requireThat (v.profileInstructions.all fun own => own.revision == v.profileRevision)
    "Stale instructions revision"
  narrow h v

/-- The rules of the records inside come first. -/
def AttemptDescriptor.semantics : Except String Unit := do
  v.audience.semantics
  v.testedConfiguration.semantics
  v.provider.toList.forM (ProviderConfig.semantics platform)
  v.repository.toList.forM RepositoryConfig.semantics
  v.policy.semantics
  v.contextRefs.toList.forM fun refs => refs.forM ContextReference.semantics
  v.rules platform.sha256

/-! ## Parsing -/

/-- The schema library fills in the default of a key that is left out. -/
def Omittable.defaulted {α : Type} : Omittable α → Omittable α
  | .omitted => .null
  | a => a

def AttemptDescriptor.defaulted (d : AttemptDescriptor) : AttemptDescriptor :=
  { d with
    testedConfiguration := { d.testedConfiguration with
      instructionsDigest := d.testedConfiguration.instructionsDigest.defaulted }
    instructions := d.instructions.defaulted }

/-- A key that the input leaves out is dropped from what was parsed. -/
def Omittable.restored {α : Type} (parsed original : Omittable α) : Omittable α :=
  match original with
  | .omitted => .omitted
  | _ => parsed

def restoreOmittedKeys (parsed original : AttemptDescriptor) : AttemptDescriptor :=
  { parsed with
    testedConfiguration := { parsed.testedConfiguration with
      instructionsDigest := parsed.testedConfiguration.instructionsDigest.restored
        original.testedConfiguration.instructionsDigest }
    instructions := parsed.instructions.restored original.instructions }

def parse (value : AttemptDescriptor) : Except String AttemptDescriptor := do
  requireThat (value.demands.all (runnerReading platform.formats).meets) "The schema is not met"
  let parsed := restoreOmittedKeys value.defaulted value
  parsed.semantics platform
  return parsed

def validateDescriptor (value : AttemptDescriptor) (runnerId : Str) :
    Except String AttemptDescriptor := do
  let d ← parse platform value
  requireThat (d.runnerId == runnerId) "Wrong runner identity"
  let configuration ← platform.sha256.runnerDigest d.testedConfiguration.toValue
  requireThat (d.configurationDigest == configuration) "Configuration digest mismatch"
  let descriptor ← platform.sha256.runnerDigest d.toValue
  requireThat (d.descriptorDigest == descriptor) "Descriptor digest mismatch"
  return d

/-- Restoring the keys that were left out undoes the defaults. -/
theorem restoreOmittedKeys_defaulted (d : AttemptDescriptor) :
    restoreOmittedKeys d.defaulted d = d := by
  have hrestored : ∀ {α : Type} (a : Omittable α), a.defaulted.restored a = a := by
    intro α a
    cases a <;> rfl
  simp [restoreOmittedKeys, AttemptDescriptor.defaulted, hrestored]

end GrowTeam.Descriptors
