import GrowTeam.Protocol.Models

/-!
# Building a descriptor

`build_descriptor`, from the rows of a job and its attempt.  A row holds its documents as
records; what the access checks answer is part of the row.
-/

namespace GrowTeam.Descriptors

open Utf16 Canonical

/-! ## Rows -/

inductive ProfileState where
  | draft | enabled | paused | archived
  deriving DecidableEq

inductive ReadinessState where
  | unchecked | checking | ready | needsAction | error
  deriving DecidableEq

structure SecretRow where
  id : Str
  version : ℕ
  revoked : Bool

structure ProviderRow where
  id : Str
  ownerId : ℕ
  runnerId : Str
  name : Str
  baseUrl : Str
  apiMode : ApiMode
  modelId : Str
  allowedModels : List Str
  secret : Option SecretRow
  localCredentialRef : Str
  contextWindowTokens : ℕ
  maxOutputTokens : ℕ
  configVersion : ℕ
  dataScope : List DataScope
  networkPolicy : NetworkPolicy
  capabilityReport : CapabilityReport
  disabled : Bool

structure RepositoryRow where
  id : Str
  ownerId : ℕ
  runnerId : Str
  workspaceAlias : Str
  canonicalOrigin : Str
  allowedRefs : List Str
  policyVersion : ℕ
  requiredChecks : List RequiredCheck

/-- What a runner offers, as far as a profile depends on it. -/
structure RunnerCatalog where
  revision : ℕ
  adapters : List (Str × Str)
  sandboxes : List SandboxConfig

structure RunnerRow where
  id : Str
  catalogRevision : ℕ
  /-- What validating the reported catalog gives. -/
  catalogReport : Except String RunnerCatalog

structure RealmRow where
  teamInstructions : Str
  teamInstructionsRevision : ℕ

structure ProfileRow where
  id : Str
  revision : ℕ
  enabledRevision : Option ℕ
  readinessRevision : Option ℕ
  desiredState : ProfileState
  readinessState : ReadinessState
  readinessConfiguration : ExecutionConfiguration
  readinessConfigurationDigest : Str
  adapterId : Str
  adapterVersion : Str
  mode : AdapterMode
  runner : RunnerRow
  provider : Option ProviderRow
  defaultRepository : Option RepositoryRow
  policy : Policy
  budget : Budget
  instructions : Str
  codeReady : Bool
  realm : RealmRow
  /-- What `require_agent_resource_access` answers for the owner. -/
  mayUseRunner : Bool
  mayUseProvider : Bool
  mayUseRepository : ExecutionAction → Bool

structure CheckpointRow where
  id : Str
  attemptId : Str
  baseCommit : Str
  treeHash : Str
  summary : Str
  contextRefs : List Str
  artifactIds : List Str
  remainingWork : List Str
  nextStep : Str
  inputCursor : ℕ

structure ContextRefRow where
  id : Str
  kind : ContextKind
  messageId : Option ℕ
  attachmentId : Option ℕ
  repositoryId : Option Str
  scope : ConversationScope
  validatedAt : Str

structure JobRow where
  id : Str
  jobKind : JobKind
  deliveryTarget : DeliveryTarget
  request : Str
  runnerId : Str
  baseRef : Str
  policy : Policy
  budget : Budget
  audienceBinding : AudienceBinding
  profile : ProfileRow
  repository : Option RepositoryRow
  contextRefs : List ContextRefRow
  /-- In the order of their sequence numbers. -/
  inputs : List InputRecord
  /-- What `check_agent_access` answers for the requester. -/
  access : ExecutionAction → Bool

structure AttemptRow where
  id : Str
  leaseEpoch : ℕ
  leaseExpiresAt : Str
  sourceCheckpoint : Option CheckpointRow

/-! ## The parts of a descriptor -/

/-- `text or None` -/
def orNone (s : Str) : Option Str := if s = [] then none else some s

def currentActions (job : JobRow) (ceiling : List ExecutionAction) : List ExecutionAction :=
  sortedSet actionPointsLe (ceiling.filter job.access)

def ProviderRow.reference (provider : ProviderRow) : SecretReference :=
  match provider.secret with
  | some secret => { kind := .server, id := secret.id, version := secret.version }
  | none =>
    { kind := .local, id := provider.localCredentialRef, version := provider.configVersion }

variable (platform : Platform)

def providerConfig (provider : ProviderRow) : Except String ProviderConfig := do
  raiseIf (provider.disabled || provider.secret.any SecretRow.revoked) "Provider is unavailable."
  ProviderConfig.modelValidate platform
    { id := provider.id
      ownerUserId := provider.ownerId
      runnerId := provider.runnerId
      name := provider.name
      baseUrl := provider.baseUrl
      apiMode := provider.apiMode
      modelId := provider.modelId
      allowedModels := provider.allowedModels
      credentialRef := some provider.reference
      contextWindowTokens := provider.contextWindowTokens
      maxOutputTokens := provider.maxOutputTokens
      configVersion := provider.configVersion
      dataScope := provider.dataScope
      network := provider.networkPolicy
      capabilityReport := provider.capabilityReport }

def providerConfig? : Option ProviderRow → Except String (Option ProviderConfig)
  | some provider => (providerConfig platform provider).map some
  | none => .ok none

def RepositoryRow.config (repo : RepositoryRow) (baseRef : Str) : RepositoryConfig where
  id := repo.id
  ownerUserId := repo.ownerId
  runnerId := repo.runnerId
  workspaceAlias := repo.workspaceAlias
  canonicalOrigin := orNone repo.canonicalOrigin
  allowedRefs := repo.allowedRefs
  baseRef := baseRef
  baseCommit := none
  policyVersion := repo.policyVersion
  requiredChecks := some repo.requiredChecks

def ContextRefRow.reference (ref : ContextRefRow) : ContextReference where
  id := ref.id
  kind := ref.kind
  messageId := if ref.kind = .message then ref.messageId else none
  attachmentId := ref.attachmentId
  repositoryId := ref.repositoryId
  scope := ref.scope
  validatedAt := ref.validatedAt

def checkpointData (item : CheckpointRow) : Checkpoint where
  id := item.id
  sourceAttemptId := item.attemptId
  baseCommit := orNone item.baseCommit
  treeHash := orNone item.treeHash
  summary := item.summary
  contextRefIds := some item.contextRefs
  artifactIds := some item.artifactIds
  remainingWork := some item.remainingWork
  nextStep := item.nextStep
  adapterSessionRef := none
  inputCursor := item.inputCursor

def instructionText (revision : ℕ) (text : Str) : Option InstructionText :=
  if text = [] then none else some { revision, text }

variable (profile : ProfileRow)

def descriptorInstructions : Option AttemptInstructions :=
  match instructionText profile.realm.teamInstructionsRevision profile.realm.teamInstructions,
      instructionText profile.revision profile.instructions with
  | none, none => none
  | team, own => some { team, profile := own }

def ProfileRow.adapter : AdapterConfig where
  id := profile.adapterId
  version := profile.adapterVersion
  mode := profile.mode

/-! ## Readiness -/

def validateRuntime : Except String Unit := do
  raiseIf (!profile.mayUseRunner) "Access denied"
  let catalog ← profile.runner.catalogReport
  let policy ← profile.policy.modelValidate
  raiseIf (catalog.revision != profile.runner.catalogRevision ||
      !catalog.adapters.contains (profile.adapterId, profile.adapterVersion) ||
      !catalog.sandboxes.contains policy.sandbox ||
      policy.sandbox.catalogRevision != catalog.revision)
    "Runtime configuration is unavailable."
  profile.provider.toList.forM fun provider => do
    raiseIf (provider.runnerId != profile.runner.id) "Provider is unavailable."
    raiseIf (!profile.mayUseProvider) "Access denied"
    let _ ← providerConfig platform provider
  profile.defaultRepository.toList.forM fun repository => do
    raiseIf (repository.runnerId != profile.runner.id) "Repository is unavailable."
    raiseIf (!(.repositoryRead :: policy.actions.filter (· != .contextRead)).all
      profile.mayUseRepository) "Access denied"

def currentBinding (h : Hash) (repository : RepositoryRow) : Except String WorkspaceBinding := do
  raiseIf (!(repository.requiredChecks.flatMap RequiredCheck.demands).all serverReading.meets)
    "The schema is not met"
  repository.requiredChecks.forM RequiredCheck.relativeWorkspace
  -- The base ref and the owner are not part of a binding.
  bindingOf h (repository.config [])

def currentBinding? (h : Hash) : Option RepositoryRow → Except String (Option WorkspaceBinding)
  | some repository => (currentBinding h repository).map some
  | none => .ok none

/-- Compare live dependencies without a stored or unexpired setup grant. -/
def currentExecutionConfiguration : Except String ExecutionConfiguration := do
  let policy ← profile.policy.modelValidate
  let provider ← providerConfig? platform profile.provider
  let binding ← currentBinding? platform.sha256 profile.defaultRepository
  raiseIf (!profile.adapter.demands.all serverReading.meets) "The schema is not met"
  raiseIf (!profile.budget.demands.all serverReading.meets) "The schema is not met"
  let instructionsDigest ← platform.sha256.instructionsDigest profile.instructions
  return {
    runnerId := profile.runner.id
    profileRevision := profile.revision
    adapter := profile.adapter
    provider := provider.map EffectiveProvider.ofConfig
    workspaceBinding := binding
    policyVersion := policy.version
    actions := sortedSet actionPointsLe policy.actions
    sandbox := policy.sandbox
    network := policy.network
    hardCostCap := policy.hardCostCap
    budget := profile.budget
    instructionsDigest := .ofOption instructionsDigest }

def requireReady : Except String ExecutionConfiguration := do
  raiseIf (profile.desiredState != .enabled || profile.enabledRevision != some profile.revision ||
      profile.readinessRevision != some profile.revision || profile.readinessState != .ready)
    "Profile readiness is stale."
  validateRuntime platform profile
  let tested ← profile.readinessConfiguration.modelValidate
  let digest ← platform.sha256.digest tested.toValue
  let current ← currentExecutionConfiguration platform profile
  raiseIf (digest != profile.readinessConfigurationDigest || current != tested)
    "Profile readiness is stale."
  return tested

/-! ## The descriptor -/

/-- The data of a descriptor, its digest still open. -/
def descriptorData (job : JobRow) (attempt : AttemptRow) (tested : ExecutionConfiguration)
    (policy : Policy) (provider : Option ProviderConfig) : AttemptDescriptor where
  jobId := job.id
  attemptId := attempt.id
  leaseEpoch := attempt.leaseEpoch
  leaseExpiresAt := attempt.leaseExpiresAt
  audience := job.audienceBinding
  testedConfiguration := tested
  profileId := job.profile.id
  profileRevision := job.profile.revision
  descriptorDigest := List.replicate 64 48
  configurationDigest := job.profile.readinessConfigurationDigest
  jobKind := job.jobKind
  deliveryTarget := job.deliveryTarget
  request := job.request
  runnerId := job.runnerId
  adapter := job.profile.adapter
  provider := provider
  repository := job.repository.map fun repo => repo.config job.baseRef
  policy := policy
  instructions := .ofOption (descriptorInstructions job.profile)
  budget := job.budget
  contextRefs := some (job.contextRefs.map ContextRefRow.reference)
  inputs := some (job.inputs.take 100)
  checkpoint := attempt.sourceCheckpoint.map checkpointData

def buildDescriptor (job : JobRow) (attempt : AttemptRow) : Except String AttemptDescriptor := do
  let tested ← requireReady platform job.profile
  raiseIf (job.jobKind == .code && (!job.profile.codeReady ||
      job.repository.all fun repo => repo.requiredChecks.isEmpty))
    "Coding readiness and required checks are required."
  let policy ← job.policy.modelValidate
  let policy := { policy with actions := currentActions job policy.actions }
  let provider ← providerConfig? platform job.profile.provider
  let descriptor ←
    (descriptorData job attempt tested policy provider).modelValidate platform
  let configuration ← configurationDigest platform.sha256 descriptor
  raiseIf (configuration != job.profile.readinessConfigurationDigest) "Configuration changed."
  let digest ← descriptorDigest platform.sha256 descriptor
  return { descriptor with descriptorDigest := digest }

end GrowTeam.Descriptors
