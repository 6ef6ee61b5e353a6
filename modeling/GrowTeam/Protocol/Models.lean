import GrowTeam.Protocol.Tidy

/-!
# The server's models

The validators of the server's models, the configuration that is derived from a
descriptor, and the check that a descriptor stays within its tested configuration.
-/

namespace GrowTeam.Descriptors

open Utf16 Canonical

/-! ## The two platforms -/

/-- SHA-256, as hexadecimal digits. -/
structure Hash where
  hexdigest : ByteArray → Str
  digits : ∀ b, isDigest (hexdigest b) = true

/-- What the server's `urlsplit` reads off a URL; the port may be no number. -/
structure SplitResult where
  hostname : Option Str
  username : Option Str
  password : Option Str
  query : Str
  fragment : Str
  port : Except String (Option ℕ)

/-- What the runner's `URL` reads off a URL. -/
structure Url where
  hostname : Str
  username : Str
  password : Str
  search : Str
  hash : Str

/-- What the two sides take from their platforms. -/
structure Platform where
  sha256 : Hash
  urlsplit : Str → Except String SplitResult
  newUrl : Str → Except String Url
  formats : Formats

/-- A set in ascending order. -/
def sortedSet {α : Type} [DecidableEq α] (le : α → α → Bool) (xs : List α) : List α :=
  xs.dedup.insertionSort fun a b => le a b = true

/-- The parts of a path, either slash between them. -/
def segments (s : Str) : List Str :=
  (s.map fun u => if u = 92 then 47 else u).splitOn 47

def raiseIf (b : Bool) (message : String) : Except String Unit :=
  if b then .error message else .ok ()

/-! ## Validators of single records -/

def CapabilityReport.codeRequiresEvidence (self : CapabilityReport) : Except String Unit :=
  raiseIf (self.codeReady &&
      (!self.chatReady || self.toolCalling != .passed || self.sandbox != .passed))
    "Coding requires chat, tools, and sandbox evidence"

def NetworkTarget.privateHttpRequiresPrivateScope (self : NetworkTarget) : Except String Unit :=
  raiseIf (self.allowHttpPrivate && !self.allowPrivate)
    "Private HTTP requires private endpoint approval"

/-- Neither `None` nor empty. -/
def truthy : Option Str → Bool
  | some (_ :: _) => true
  | _ => false

variable (platform : Platform)

def ProviderConfig.validateModel (self : ProviderConfig) : Except String Unit := do
  let url ← platform.urlsplit self.baseUrl
  raiseIf (!truthy url.hostname || truthy url.username || truthy url.password ||
      truthy (some url.query) || truthy (some url.fragment))
    "Provider URL must not contain credentials, query, or fragment"
  let port ← url.port
  raiseIf (port.any fun n => !within 1 (some 65535) n) "Invalid provider port"
  raiseIf (!self.allowedModels.contains self.modelId) "Model is not allowed"
  raiseIf (self.contextWindowTokens < self.maxOutputTokens) "Output budget exceeds context window"
  raiseIf (self.capabilityReport.configVersion != self.configVersion) "Capability report is stale"

def RequiredCheck.relativeWorkspace (self : RequiredCheck) : Except String Unit :=
  raiseIf (self.cwd.head? == some 47 || self.cwd.head? == some 92 ||
      (segments self.cwd).contains (key "..") || self.cwd.contains 58)
    "Check directory must stay in the workspace"

def RepositoryConfig.allowedBase (self : RepositoryConfig) : Except String Unit :=
  raiseIf (!self.allowedRefs.contains self.baseRef) "Base ref is not allowed"

def ConversationScope.participants (self : ConversationScope) : List ℕ :=
  self.participantUserIds.getD []

def ConversationScope.consistentScope (self : ConversationScope) : Except String Unit := do
  raiseIf (self.kind == .stream && (self.streamId.isNone || !self.participants.isEmpty))
    "Stream scope requires a stream and no DM participants"
  raiseIf (self.kind == .direct && (self.streamId.isSome || self.participants.isEmpty))
    "Direct scope requires participants and no stream"
  raiseIf (self.kind == .selected && self.anchorMessageId.isNone)
    "Selected scope requires an anchor"

def AudienceBinding.visibility (self : AudienceBinding) : List (Option Bool) :=
  [self.inviteOnly, self.isWebPublic, self.historyPublicToSubscribers]

def natLe (m n : ℕ) : Bool := m ≤ n

def AudienceBinding.matchingAudience (self : AudienceBinding) : Except String Unit := do
  raiseIf ((self.kind == .stream) != self.streamId.isSome) "Audience route does not match its kind"
  raiseIf ((self.kind == .stream && self.visibility.any Option.isNone) ||
      (self.kind == .direct && self.visibility.any Option.isSome))
    "Audience visibility does not match its route"
  raiseIf (self.audienceUserIds != sortedSet natLe self.audienceUserIds)
    "Audience members must be unique and sorted"
  raiseIf (!(self.audienceUserIds.contains self.requesterUserId &&
      self.audienceUserIds.contains self.botUserId))
    "Audience must include both principals"

/-- `fields[kind] is not None` -/
def ContextReference.holds (self : ContextReference) : ContextKind → Bool
  | .message => self.messageId.isSome
  | .attachment => self.attachmentId.isSome
  | .repository => self.repositoryId.isSome

def ContextReference.matchingReference (self : ContextReference) : Except String Unit :=
  raiseIf (!self.holds self.kind ||
      ([ContextKind.message, .attachment, .repository].filter self.holds).length != 1)
    "Context requires one matching reference"

/-- An instruction is counted in UTF-16 code units. -/
def InstructionText.checkInstructionsLength (self : InstructionText) : Except String Unit :=
  raiseIf (8000 < self.text.length) "String should have at most 8000 characters"

/-! ## What the models fill in -/

def NetworkPolicy.filled (r : NetworkPolicy) : NetworkPolicy :=
  { r with targets := some (r.targets.getD []) }

def ProviderConfig.filled (r : ProviderConfig) : ProviderConfig :=
  { r with network := r.network.filled }

def RepositoryConfig.filled (r : RepositoryConfig) : RepositoryConfig :=
  { r with requiredChecks := some (r.requiredChecks.getD []) }

def ConversationScope.filled (r : ConversationScope) : ConversationScope :=
  { r with participantUserIds := some (r.participantUserIds.getD []) }

def Policy.filled (r : Policy) : Policy :=
  { r with grantIds := some (r.grantIds.getD []), scope := r.scope.filled, network := r.network.filled }

def ContextReference.filled (r : ContextReference) : ContextReference :=
  { r with scope := r.scope.filled }

def Checkpoint.filled (r : Checkpoint) : Checkpoint :=
  { r with
    contextRefIds := some (r.contextRefIds.getD [])
    artifactIds := some (r.artifactIds.getD [])
    remainingWork := some (r.remainingWork.getD []) }

def EffectiveProvider.filled (r : EffectiveProvider) : EffectiveProvider :=
  { r with network := r.network.filled }

/-- An instruction key that is unset is left out again when the record is written. -/
def Omittable.filled {α : Type} (a : Omittable α) : Omittable α := .ofOption a.value?

def ExecutionConfiguration.filled (r : ExecutionConfiguration) : ExecutionConfiguration :=
  { r with
    provider := r.provider.map EffectiveProvider.filled
    network := r.network.filled
    instructionsDigest := r.instructionsDigest.filled }

def AttemptDescriptor.filled (r : AttemptDescriptor) : AttemptDescriptor :=
  { r with
    testedConfiguration := r.testedConfiguration.filled
    provider := r.provider.map ProviderConfig.filled
    repository := r.repository.map RepositoryConfig.filled
    policy := r.policy.filled
    contextRefs := some ((r.contextRefs.getD []).map ContextReference.filled)
    inputs := some (r.inputs.getD [])
    checkpoint := r.checkpoint.map Checkpoint.filled
    instructions := r.instructions.filled }

/-! ## Validation -/

/-- A model that meets the schema is handed to the validators; the library has a message
of its own for each demand. -/
def validated {α : Type} (demands : List Demand) (validators : Except String Unit) (value : α) :
    Except String α := do
  raiseIf (!demands.all serverReading.meets) "The schema is not met"
  validators
  return value

def NetworkPolicy.validators (self : NetworkPolicy) : Except String Unit :=
  (self.targets.getD []).forM NetworkTarget.privateHttpRequiresPrivateScope

def ProviderConfig.validators (self : ProviderConfig) : Except String Unit := do
  self.network.validators
  self.capabilityReport.codeRequiresEvidence
  self.validateModel platform

def RepositoryConfig.validators (self : RepositoryConfig) : Except String Unit := do
  (self.requiredChecks.getD []).forM RequiredCheck.relativeWorkspace
  self.allowedBase

def Policy.validators (self : Policy) : Except String Unit := do
  self.scope.consistentScope
  self.network.validators

def ContextReference.validators (self : ContextReference) : Except String Unit := do
  self.scope.consistentScope
  self.matchingReference

def AttemptInstructions.validators (self : AttemptInstructions) : Except String Unit := do
  self.team.toList.forM InstructionText.checkInstructionsLength
  self.profile.toList.forM InstructionText.checkInstructionsLength

def ExecutionConfiguration.validators (self : ExecutionConfiguration) : Except String Unit := do
  self.provider.toList.forM fun p => p.network.validators
  self.network.validators

def ProviderConfig.modelValidate (r : ProviderConfig) : Except String ProviderConfig :=
  validated r.filled.demands (r.filled.validators platform) r.filled

def Policy.modelValidate (r : Policy) : Except String Policy :=
  validated r.filled.demands r.filled.validators r.filled

def ExecutionConfiguration.modelValidate (r : ExecutionConfiguration) :
    Except String ExecutionConfiguration :=
  validated r.filled.demands r.filled.validators r.filled

/-! ## Digests -/

def Hash.digest (h : Hash) (v : Value) : Except String Str := (canonicalJson v).map h.hexdigest

/-- The digest of a text, or `None` for the empty one. -/
def Hash.instructionsDigest (h : Hash) (text : Str) : Except String (Option Str) :=
  if text = [] then .ok none else (encode (decode text)).map fun b => some (h.hexdigest b)

def descriptorDigest (h : Hash) (r : AttemptDescriptor) : Except String Str := h.digest r.toValue

/-! ## The derived configuration -/

/-- `model_dump(include=set(EffectiveProvider.model_fields))` -/
def EffectiveProvider.ofConfig (p : ProviderConfig) : EffectiveProvider where
  id := p.id
  configVersion := p.configVersion
  baseUrl := p.baseUrl
  apiMode := p.apiMode
  modelId := p.modelId
  allowedModels := p.allowedModels
  credentialRef := p.credentialRef
  contextWindowTokens := p.contextWindowTokens
  maxOutputTokens := p.maxOutputTokens
  dataScope := p.dataScope
  network := p.network

def WorkspaceBinding.modelValidate (r : WorkspaceBinding) : Except String WorkspaceBinding :=
  validated r.demands (.ok ()) r

def bindingOf (h : Hash) (repository : RepositoryConfig) : Except String WorkspaceBinding := do
  let checksDigest ← h.digest (checksValue (repository.requiredChecks.getD []))
  WorkspaceBinding.modelValidate
    { canonicalOrigin := repository.canonicalOrigin
      repositoryId := repository.id
      workspaceAlias := repository.workspaceAlias
      policyVersion := repository.policyVersion
      checksDigest
      allowedRefs := repository.allowedRefs }

def bindingOf? (h : Hash) : Option RepositoryConfig → Except String (Option WorkspaceBinding)
  | some repository => (bindingOf h repository).map some
  | none => .ok none

def AttemptDescriptor.instructionsDigest (h : Hash) (value : AttemptDescriptor) :
    Except String (Option Str) :=
  match value.instructions.value? with
  | some { profile := some own, .. } => h.instructionsDigest own.text
  | _ => .ok none

def actionPointsLe (a b : ExecutionAction) : Bool := pointsLe (key a.name) (key b.name)

/-- Every part of the configuration is a part of the validated descriptor. -/
def deriveExecutionConfiguration (h : Hash) (value : AttemptDescriptor) :
    Except String ExecutionConfiguration := do
  let binding ← bindingOf? h value.repository
  let instructionsDigestValue ← value.instructionsDigest h
  return {
    runnerId := value.runnerId
    profileRevision := value.profileRevision
    adapter := value.adapter
    provider := value.provider.map EffectiveProvider.ofConfig
    workspaceBinding := binding
    policyVersion := value.policy.version
    actions := sortedSet actionPointsLe value.policy.actions
    sandbox := value.policy.sandbox
    network := value.policy.network
    hardCostCap := value.policy.hardCostCap
    budget := value.budget
    instructionsDigest := .ofOption instructionsDigestValue }

def Budget.fields (r : Budget) : List (Option ℕ) :=
  [some r.activeSeconds, some r.toolRounds, some r.shellTimeoutSeconds, some r.transportRetries,
    some r.contextRecoveries, some r.inputTokens, some r.outputTokens, some r.toolOutputBytes,
    some r.artifactBytes, some r.jobArtifactBytes, r.costLimitMicrounits]

/-- `ceiling is not None and (actual is None or actual > ceiling)` -/
def exceeds : Option ℕ → Option ℕ → Bool
  | _, none => false
  | none, some _ => true
  | some actual, some ceiling => ceiling < actual

def AttemptDescriptor.validateAttemptConfiguration (h : Hash) (value : AttemptDescriptor) :
    Except String Unit := do
  let tested := value.testedConfiguration
  let effective ← deriveExecutionConfiguration h value
  raiseIf (effective.runnerId != tested.runnerId ||
      effective.profileRevision != tested.profileRevision ||
      effective.adapter != tested.adapter ||
      effective.provider != tested.provider ||
      effective.policyVersion != tested.policyVersion ||
      effective.sandbox != tested.sandbox ||
      effective.network != tested.network ||
      effective.instructionsDigest.value? != tested.instructionsDigest.value?)
    "Attempt runtime differs from its tested configuration"
  raiseIf (effective.workspaceBinding != tested.workspaceBinding &&
      !((value.jobKind == .answer || value.jobKind == .manage) &&
        effective.workspaceBinding.isNone))
    "Attempt repository differs from its tested configuration"
  raiseIf (!effective.actions.all tested.actions.contains)
    "Attempt actions exceed the tested configuration"
  raiseIf (tested.hardCostCap && !effective.hardCostCap)
    "Attempt cannot remove the tested hard cost cap"
  raiseIf ((effective.budget.fields.zip tested.budget.fields).any fun f => exceeds f.1 f.2)
    "Attempt budget exceeds the tested configuration"

/-! ## The descriptor -/

variable (self : AttemptDescriptor)

def AttemptDescriptor.profileInstructions : Option InstructionText :=
  self.instructions.value?.bind AttemptInstructions.profile

/-- What the kind of the job allows. -/
def AttemptDescriptor.constrainKind : Except String Unit :=
  match self.jobKind with
  | .answer =>
    raiseIf (self.deliveryTarget != .answer ||
        self.policy.actions.any fun a => !(a == .contextRead || a == .repositoryRead))
      "Answer jobs cannot carry mutation authority"
  | .manage =>
    raiseIf (self.deliveryTarget != .answer || self.repository.isSome ||
        self.policy.actions.any fun a => !(a == .contextRead))
      "Manage jobs cannot carry a repository or code authority"
  | .code =>
    raiseIf (self.deliveryTarget == .answer || self.repository.isNone)
      "Code jobs require a repository and code delivery target"

def AttemptDescriptor.constrainExecution (h : Hash) (self : AttemptDescriptor) :
    Except String Unit := do
  raiseIf (self.profileInstructions.any fun own => own.revision != self.profileRevision)
    "Attempt instructions revision does not match the profile revision"
  let scope := self.policy.scope
  raiseIf (self.audience.profileId != self.profileId ||
      (scope.anchorMessageId.any fun id => id != self.audience.anchorMessageId) ||
      (scope.kind == .stream && scope.streamId != self.audience.streamId) ||
      (scope.kind == .direct &&
        scope.participants.insertionSort (· ≤ ·) != self.audience.audienceUserIds))
    "Attempt audience does not match its scope"
  self.constrainKind
  raiseIf (self.adapter.mode == .endpoint && self.provider.isNone)
    "Endpoint descriptor requires a provider"
  raiseIf ((self.provider.any fun p => p.runnerId != self.runnerId) ||
      (self.repository.any fun r => r.runnerId != self.runnerId))
    "Descriptor references a different runner"
  raiseIf (self.policy.hardCostCap && (self.budget.costLimitMicrounits.isNone ||
      self.provider.all fun p => p.capabilityReport.usage != .passed))
    "Hard cost cap requires measured usage and a limit"
  self.validateAttemptConfiguration h

def AttemptDescriptor.validators : Except String Unit := do
  self.audience.matchingAudience
  self.testedConfiguration.validators
  self.provider.toList.forM (ProviderConfig.validators platform)
  self.repository.toList.forM RepositoryConfig.validators
  self.policy.validators
  (self.contextRefs.getD []).forM ContextReference.validators
  self.instructions.value?.toList.forM AttemptInstructions.validators
  self.constrainExecution platform.sha256

def AttemptDescriptor.modelValidate (r : AttemptDescriptor) : Except String AttemptDescriptor :=
  validated r.filled.demands (r.filled.validators platform) r.filled

/-- An attempt runs under its tested configuration. -/
def configurationDigest (h : Hash) (value : AttemptDescriptor) : Except String Str := do
  value.validateAttemptConfiguration h
  h.digest value.testedConfiguration.toValue

end GrowTeam.Descriptors
