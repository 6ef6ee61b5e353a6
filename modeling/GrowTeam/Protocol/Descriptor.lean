import GrowTeam.Protocol.Canonical

/-!
# Attempt descriptors

The documents of one attempt: the records of `agent_protocol.py` that a descriptor is made
of, and the JSON of each.  A list that the exported schema does not require may be left out
of a document; identifiers, digests and times are the strings they are written as.
-/

namespace GrowTeam.Descriptors

open Utf16 Canonical

abbrev Str := List CodeUnit

/-! ## JSON -/

/-- The code units of an ASCII text. -/
def key (s : String) : Str := s.toList.map fun c => Fin.ofNat 0x10000 c.toNat

def obj (members : List (String × Json)) : Json := .object (members.map fun m => (key m.1, m.2))

def named (s : String) : Json := .string (key s)

def nat (n : ℕ) : Json := .integer n

def nullable {α : Type} (f : α → Json) : Option α → Json
  | none => .null
  | some a => f a

def listed {α : Type} (f : α → Json) (xs : List α) : Json := .array (xs.map f)

/-- A member that a document may leave out. -/
def optional (k : String) : Option Json → List (String × Json)
  | none => []
  | some v => [(k, v)]

/-- A key that is left out when it is unset, but that may also be read as `null`. -/
inductive Omittable (α : Type) where
  | omitted
  | null
  | value (a : α)
  deriving DecidableEq

def Omittable.member {α : Type} (k : String) (f : α → Json) : Omittable α → List (String × Json)
  | .omitted => []
  | .null => [(k, .null)]
  | .value a => [(k, f a)]

def Omittable.value? {α : Type} : Omittable α → Option α
  | .value a => some a
  | _ => none

/-- How the server writes an optional field: unset, it is left out. -/
def Omittable.ofOption {α : Type} : Option α → Omittable α
  | some a => .value a
  | none => .omitted

/-! ## Literals -/

inductive ExecutionAction where
  | contextRead | repositoryRead | repositoryEdit | checksRun | shellRun
  | dependenciesInstall | gitCommit | gitPush | gitDraftPr
  deriving DecidableEq

def ExecutionAction.name : ExecutionAction → String
  | .contextRead => "context.read"
  | .repositoryRead => "repository.read"
  | .repositoryEdit => "repository.edit"
  | .checksRun => "checks.run"
  | .shellRun => "shell.run"
  | .dependenciesInstall => "dependencies.install"
  | .gitCommit => "git.commit"
  | .gitPush => "git.push"
  | .gitDraftPr => "git.draft_pr"

inductive JobKind where
  | answer | code | manage
  deriving DecidableEq

def JobKind.name : JobKind → String
  | .answer => "answer"
  | .code => "code"
  | .manage => "manage"

inductive DeliveryTarget where
  | answer | patch | draftPr
  deriving DecidableEq

def DeliveryTarget.name : DeliveryTarget → String
  | .answer => "answer"
  | .patch => "patch"
  | .draftPr => "draft_pr"

inductive CapabilityResult where
  | passed | unsupported | unknown
  deriving DecidableEq

def CapabilityResult.name : CapabilityResult → String
  | .passed => "passed"
  | .unsupported => "unsupported"
  | .unknown => "unknown"

inductive AdapterMode where
  | acp | endpoint
  deriving DecidableEq

def AdapterMode.name : AdapterMode → String
  | .acp => "acp"
  | .endpoint => "endpoint"

inductive ApiMode where
  | chatCompletions | responses
  deriving DecidableEq

def ApiMode.name : ApiMode → String
  | .chatCompletions => "chat_completions"
  | .responses => "responses"

inductive SecretKind where
  | server | «local»
  deriving DecidableEq

def SecretKind.name : SecretKind → String
  | .server => "server"
  | .local => "local"

inductive DataScope where
  | synthetic | selectedChat | selectedRepository
  deriving DecidableEq

def DataScope.name : DataScope → String
  | .synthetic => "synthetic"
  | .selectedChat => "selected_chat"
  | .selectedRepository => "selected_repository"

inductive ScopeKind where
  | stream | direct | selected
  deriving DecidableEq

def ScopeKind.name : ScopeKind → String
  | .stream => "stream"
  | .direct => "direct"
  | .selected => "selected"

inductive AudienceKind where
  | stream | direct
  deriving DecidableEq

def AudienceKind.name : AudienceKind → String
  | .stream => "stream"
  | .direct => "direct"

inductive ContextKind where
  | message | attachment | repository
  deriving DecidableEq

def ContextKind.name : ContextKind → String
  | .message => "message"
  | .attachment => "attachment"
  | .repository => "repository"

inductive InputType where
  | steering | answer | replan

def InputType.name : InputType → String
  | .steering => "steering"
  | .answer => "answer"
  | .replan => "replan"

inductive InputState where
  | pending | delivered | applied | deliveryUncertain | cancelled

def InputState.name : InputState → String
  | .pending => "pending"
  | .delivered => "delivered"
  | .applied => "applied"
  | .deliveryUncertain => "delivery_uncertain"
  | .cancelled => "cancelled"

/-! ## Records -/

structure CapabilityReport where
  chatReady : Bool
  codeReady : Bool
  toolCalling : CapabilityResult
  teamTools : CapabilityResult
  streaming : CapabilityResult
  usage : CapabilityResult
  nativeResume : CapabilityResult
  steering : CapabilityResult
  sandbox : CapabilityResult
  probedAt : Option Str
  runnerVersion : Str
  adapterVersion : Str
  configVersion : ℕ

structure NetworkTarget where
  hostname : Str
  port : ℕ
  allowPrivate : Bool
  allowHttpLoopback : Bool
  allowHttpPrivate : Bool
  deriving DecidableEq

/-- The four other fields are literals. -/
structure NetworkPolicy where
  targets : Option (List NetworkTarget)
  deriving DecidableEq

structure SecretReference where
  kind : SecretKind
  id : Str
  version : ℕ
  deriving DecidableEq

structure ProviderConfig where
  id : Str
  ownerUserId : ℕ
  runnerId : Str
  name : Str
  baseUrl : Str
  apiMode : ApiMode
  modelId : Str
  allowedModels : List Str
  credentialRef : Option SecretReference
  contextWindowTokens : ℕ
  maxOutputTokens : ℕ
  configVersion : ℕ
  dataScope : List DataScope
  network : NetworkPolicy
  capabilityReport : CapabilityReport

structure RequiredCheck where
  id : Str
  argv : List Str
  cwd : Str
  timeoutSeconds : ℕ

structure RepositoryConfig where
  id : Str
  ownerUserId : ℕ
  runnerId : Str
  workspaceAlias : Str
  canonicalOrigin : Option Str
  allowedRefs : List Str
  baseRef : Str
  baseCommit : Option Str
  policyVersion : ℕ
  requiredChecks : Option (List RequiredCheck)

structure ConversationScope where
  kind : ScopeKind
  streamId : Option ℕ
  topic : Option Str
  participantUserIds : Option (List ℕ)
  anchorMessageId : Option ℕ

structure AudienceBinding where
  conversationId : Str
  epoch : ℕ
  realmId : ℕ
  profileId : Str
  requesterUserId : ℕ
  botUserId : ℕ
  anchorMessageId : ℕ
  recipientId : ℕ
  kind : AudienceKind
  streamId : Option ℕ
  inviteOnly : Option Bool
  isWebPublic : Option Bool
  historyPublicToSubscribers : Option Bool
  audienceUserIds : List ℕ

structure AdapterConfig where
  id : Str
  version : Str
  mode : AdapterMode
  deriving DecidableEq

/-- The four other fields are literals. -/
structure SandboxConfig where
  «alias» : Str
  imageDigest : Str
  toolchainDigest : Str
  catalogRevision : ℕ
  cpuMillicores : ℕ
  memoryBytes : ℕ
  pidsLimit : ℕ
  temporaryBytes : ℕ
  deriving DecidableEq

structure Policy where
  version : ℕ
  actions : List ExecutionAction
  grantIds : Option (List Str)
  scope : ConversationScope
  sandbox : SandboxConfig
  network : NetworkPolicy
  hardCostCap : Bool

structure Budget where
  activeSeconds : ℕ
  toolRounds : ℕ
  shellTimeoutSeconds : ℕ
  transportRetries : ℕ
  contextRecoveries : ℕ
  inputTokens : ℕ
  outputTokens : ℕ
  toolOutputBytes : ℕ
  artifactBytes : ℕ
  jobArtifactBytes : ℕ
  costLimitMicrounits : Option ℕ
  deriving DecidableEq

structure ContextReference where
  id : Str
  kind : ContextKind
  messageId : Option ℕ
  attachmentId : Option ℕ
  repositoryId : Option Str
  scope : ConversationScope
  validatedAt : Str

structure InputRecord where
  id : Str
  authorUserId : ℕ
  sourceMessageId : Option ℕ
  clientKey : Str
  sequence : ℕ
  inputType : InputType
  text : Str
  deliveryState : InputState

structure Checkpoint where
  id : Str
  sourceAttemptId : Str
  baseCommit : Option Str
  treeHash : Option Str
  summary : Str
  contextRefIds : Option (List Str)
  artifactIds : Option (List Str)
  remainingWork : Option (List Str)
  nextStep : Str
  adapterSessionRef : Option Str
  inputCursor : ℕ

structure WorkspaceBinding where
  canonicalOrigin : Option Str
  repositoryId : Str
  workspaceAlias : Str
  policyVersion : ℕ
  checksDigest : Str
  allowedRefs : List Str
  deriving DecidableEq

structure EffectiveProvider where
  id : Str
  configVersion : ℕ
  baseUrl : Str
  apiMode : ApiMode
  modelId : Str
  allowedModels : List Str
  credentialRef : Option SecretReference
  contextWindowTokens : ℕ
  maxOutputTokens : ℕ
  dataScope : List DataScope
  network : NetworkPolicy
  deriving DecidableEq

structure InstructionText where
  revision : ℕ
  text : Str

structure AttemptInstructions where
  team : Option InstructionText
  profile : Option InstructionText

structure ExecutionConfiguration where
  runnerId : Str
  profileRevision : ℕ
  adapter : AdapterConfig
  provider : Option EffectiveProvider
  workspaceBinding : Option WorkspaceBinding
  policyVersion : ℕ
  actions : List ExecutionAction
  sandbox : SandboxConfig
  network : NetworkPolicy
  hardCostCap : Bool
  budget : Budget
  instructionsDigest : Omittable Str
  deriving DecidableEq

structure AttemptDescriptor where
  jobId : Str
  attemptId : Str
  leaseEpoch : ℕ
  audience : AudienceBinding
  testedConfiguration : ExecutionConfiguration
  profileId : Str
  profileRevision : ℕ
  descriptorDigest : Str
  configurationDigest : Str
  leaseExpiresAt : Str
  jobKind : JobKind
  deliveryTarget : DeliveryTarget
  request : Str
  runnerId : Str
  adapter : AdapterConfig
  provider : Option ProviderConfig
  repository : Option RepositoryConfig
  policy : Policy
  budget : Budget
  contextRefs : Option (List ContextReference)
  inputs : Option (List InputRecord)
  checkpoint : Option Checkpoint
  instructions : Omittable AttemptInstructions

/-! ## The JSON of a record -/

def CapabilityReport.toJson (r : CapabilityReport) : Json :=
  obj [("chat_ready", .bool r.chatReady), ("code_ready", .bool r.codeReady),
    ("tool_calling", named r.toolCalling.name), ("team_tools", named r.teamTools.name),
    ("streaming", named r.streaming.name), ("usage", named r.usage.name),
    ("native_resume", named r.nativeResume.name), ("steering", named r.steering.name),
    ("sandbox", named r.sandbox.name), ("probed_at", nullable .string r.probedAt),
    ("runner_version", .string r.runnerVersion), ("adapter_version", .string r.adapterVersion),
    ("config_version", nat r.configVersion)]

def NetworkTarget.toJson (r : NetworkTarget) : Json :=
  obj [("hostname", .string r.hostname), ("port", nat r.port),
    ("allow_private", .bool r.allowPrivate), ("allow_http_loopback", .bool r.allowHttpLoopback),
    ("allow_http_private", .bool r.allowHttpPrivate)]

def NetworkPolicy.toJson (r : NetworkPolicy) : Json :=
  obj (optional "targets" (r.targets.map (listed NetworkTarget.toJson)) ++
    [("public_https_only", .bool true), ("block_metadata", .bool true),
      ("cross_origin_authorization", .bool false), ("project_network", .bool false)])

def SecretReference.toJson (r : SecretReference) : Json :=
  obj [("kind", named r.kind.name), ("id", .string r.id), ("version", nat r.version)]

def ProviderConfig.toJson (r : ProviderConfig) : Json :=
  obj [("id", .string r.id), ("owner_user_id", nat r.ownerUserId),
    ("runner_id", .string r.runnerId), ("name", .string r.name), ("base_url", .string r.baseUrl),
    ("api_mode", named r.apiMode.name), ("model_id", .string r.modelId),
    ("allowed_models", listed .string r.allowedModels),
    ("credential_ref", nullable SecretReference.toJson r.credentialRef),
    ("context_window_tokens", nat r.contextWindowTokens),
    ("max_output_tokens", nat r.maxOutputTokens), ("config_version", nat r.configVersion),
    ("data_scope", listed (fun s => named s.name) r.dataScope), ("network", r.network.toJson),
    ("capability_report", r.capabilityReport.toJson)]

def RequiredCheck.toJson (r : RequiredCheck) : Json :=
  obj [("id", .string r.id), ("argv", listed .string r.argv), ("cwd", .string r.cwd),
    ("timeout_seconds", nat r.timeoutSeconds)]

def RepositoryConfig.toJson (r : RepositoryConfig) : Json :=
  obj ([("id", .string r.id), ("owner_user_id", nat r.ownerUserId),
    ("runner_id", .string r.runnerId), ("workspace_alias", .string r.workspaceAlias),
    ("canonical_origin", nullable .string r.canonicalOrigin),
    ("allowed_refs", listed .string r.allowedRefs), ("base_ref", .string r.baseRef),
    ("base_commit", nullable .string r.baseCommit), ("policy_version", nat r.policyVersion)] ++
    optional "required_checks" (r.requiredChecks.map (listed RequiredCheck.toJson)))

def ConversationScope.toJson (r : ConversationScope) : Json :=
  obj ([("kind", named r.kind.name), ("stream_id", nullable nat r.streamId),
    ("topic", nullable .string r.topic)] ++
    optional "participant_user_ids" (r.participantUserIds.map (listed nat)) ++
    [("anchor_message_id", nullable nat r.anchorMessageId)])

def AudienceBinding.toJson (r : AudienceBinding) : Json :=
  obj [("conversation_id", .string r.conversationId), ("epoch", nat r.epoch),
    ("realm_id", nat r.realmId), ("profile_id", .string r.profileId),
    ("requester_user_id", nat r.requesterUserId), ("bot_user_id", nat r.botUserId),
    ("anchor_message_id", nat r.anchorMessageId), ("recipient_id", nat r.recipientId),
    ("kind", named r.kind.name), ("stream_id", nullable nat r.streamId),
    ("invite_only", nullable .bool r.inviteOnly), ("is_web_public", nullable .bool r.isWebPublic),
    ("history_public_to_subscribers", nullable .bool r.historyPublicToSubscribers),
    ("audience_user_ids", listed nat r.audienceUserIds)]

def AdapterConfig.toJson (r : AdapterConfig) : Json :=
  obj [("id", .string r.id), ("version", .string r.version), ("mode", named r.mode.name)]

def SandboxConfig.toJson (r : SandboxConfig) : Json :=
  obj [("kind", named "rootless_container"), ("alias", .string r.alias),
    ("image_digest", .string r.imageDigest), ("toolchain_digest", .string r.toolchainDigest),
    ("catalog_revision", nat r.catalogRevision), ("cpu_millicores", nat r.cpuMillicores),
    ("memory_bytes", nat r.memoryBytes), ("pids_limit", nat r.pidsLimit),
    ("temporary_bytes", nat r.temporaryBytes), ("network_mode", named "none"),
    ("read_only_root", .bool true), ("drop_all_capabilities", .bool true)]

def actionsJson (actions : List ExecutionAction) : Json := listed (fun a => named a.name) actions

def Policy.toJson (r : Policy) : Json :=
  obj ([("version", nat r.version), ("actions", actionsJson r.actions)] ++
    optional "grant_ids" (r.grantIds.map (listed .string)) ++
    [("scope", r.scope.toJson), ("sandbox", r.sandbox.toJson), ("network", r.network.toJson),
      ("hard_cost_cap", .bool r.hardCostCap)])

def Budget.toJson (r : Budget) : Json :=
  obj [("active_seconds", nat r.activeSeconds), ("tool_rounds", nat r.toolRounds),
    ("shell_timeout_seconds", nat r.shellTimeoutSeconds),
    ("transport_retries", nat r.transportRetries),
    ("context_recoveries", nat r.contextRecoveries), ("input_tokens", nat r.inputTokens),
    ("output_tokens", nat r.outputTokens), ("tool_output_bytes", nat r.toolOutputBytes),
    ("artifact_bytes", nat r.artifactBytes), ("job_artifact_bytes", nat r.jobArtifactBytes),
    ("cost_limit_microunits", nullable nat r.costLimitMicrounits)]

def ContextReference.toJson (r : ContextReference) : Json :=
  obj [("id", .string r.id), ("kind", named r.kind.name),
    ("message_id", nullable nat r.messageId), ("attachment_id", nullable nat r.attachmentId),
    ("repository_id", nullable .string r.repositoryId), ("scope", r.scope.toJson),
    ("validated_at", .string r.validatedAt)]

def InputRecord.toJson (r : InputRecord) : Json :=
  obj [("id", .string r.id), ("author_user_id", nat r.authorUserId),
    ("source_message_id", nullable nat r.sourceMessageId), ("client_key", .string r.clientKey),
    ("sequence", nat r.sequence), ("input_type", named r.inputType.name),
    ("text", .string r.text), ("delivery_state", named r.deliveryState.name)]

def Checkpoint.toJson (r : Checkpoint) : Json :=
  obj ([("id", .string r.id), ("source_attempt_id", .string r.sourceAttemptId),
    ("base_commit", nullable .string r.baseCommit), ("tree_hash", nullable .string r.treeHash),
    ("summary", .string r.summary)] ++
    optional "context_ref_ids" (r.contextRefIds.map (listed .string)) ++
    optional "artifact_ids" (r.artifactIds.map (listed .string)) ++
    optional "remaining_work" (r.remainingWork.map (listed .string)) ++
    [("next_step", .string r.nextStep),
      ("adapter_session_ref", nullable .string r.adapterSessionRef),
      ("input_cursor", nat r.inputCursor)])

def WorkspaceBinding.toJson (r : WorkspaceBinding) : Json :=
  obj [("canonical_origin", nullable .string r.canonicalOrigin),
    ("repository_id", .string r.repositoryId), ("workspace_alias", .string r.workspaceAlias),
    ("policy_version", nat r.policyVersion), ("checks_digest", .string r.checksDigest),
    ("allowed_refs", listed .string r.allowedRefs)]

def EffectiveProvider.toJson (r : EffectiveProvider) : Json :=
  obj [("id", .string r.id), ("config_version", nat r.configVersion),
    ("base_url", .string r.baseUrl), ("api_mode", named r.apiMode.name),
    ("model_id", .string r.modelId), ("allowed_models", listed .string r.allowedModels),
    ("credential_ref", nullable SecretReference.toJson r.credentialRef),
    ("context_window_tokens", nat r.contextWindowTokens),
    ("max_output_tokens", nat r.maxOutputTokens),
    ("data_scope", listed (fun s => named s.name) r.dataScope), ("network", r.network.toJson)]

def InstructionText.toJson (r : InstructionText) : Json :=
  obj [("revision", nat r.revision), ("text", .string r.text)]

def AttemptInstructions.toJson (r : AttemptInstructions) : Json :=
  obj [("team", nullable InstructionText.toJson r.team),
    ("profile", nullable InstructionText.toJson r.profile)]

def ExecutionConfiguration.toJson (r : ExecutionConfiguration) : Json :=
  obj ([("schema_version", nat 1), ("runner_id", .string r.runnerId),
    ("profile_revision", nat r.profileRevision), ("adapter", r.adapter.toJson),
    ("provider", nullable EffectiveProvider.toJson r.provider),
    ("workspace_binding", nullable WorkspaceBinding.toJson r.workspaceBinding),
    ("policy_version", nat r.policyVersion), ("actions", actionsJson r.actions),
    ("sandbox", r.sandbox.toJson), ("network", r.network.toJson),
    ("hard_cost_cap", .bool r.hardCostCap), ("budget", r.budget.toJson)] ++
    r.instructionsDigest.member "instructions_digest" .string)

variable (r : AttemptDescriptor)

/-- The members of a descriptor, its own digest apart. -/
def AttemptDescriptor.members : List (String × Json) :=
  [("schema_version", nat 1), ("job_id", .string r.jobId), ("attempt_id", .string r.attemptId),
    ("lease_epoch", nat r.leaseEpoch), ("audience", r.audience.toJson),
    ("tested_configuration", r.testedConfiguration.toJson), ("profile_id", .string r.profileId),
    ("profile_revision", nat r.profileRevision),
    ("configuration_digest", .string r.configurationDigest),
    ("lease_expires_at", .string r.leaseExpiresAt), ("job_kind", named r.jobKind.name),
    ("delivery_target", named r.deliveryTarget.name), ("request", .string r.request),
    ("runner_id", .string r.runnerId), ("adapter", r.adapter.toJson),
    ("provider", nullable ProviderConfig.toJson r.provider),
    ("repository", nullable RepositoryConfig.toJson r.repository), ("policy", r.policy.toJson),
    ("budget", r.budget.toJson)] ++
    optional "context_refs" (r.contextRefs.map (listed ContextReference.toJson)) ++
    optional "inputs" (r.inputs.map (listed InputRecord.toJson)) ++
    [("checkpoint", nullable Checkpoint.toJson r.checkpoint)] ++
    r.instructions.member "instructions" AttemptInstructions.toJson

def AttemptDescriptor.toJson : Json :=
  obj (("descriptor_digest", .string r.descriptorDigest) :: r.members)

/-! # The exported schema -/

open Utf16 Canonical

/-! ## Patterns -/

variable (u : CodeUnit)

def isHex : Bool := (48 ≤ u.val && u.val < 58) || (97 ≤ u.val && u.val < 103)

def isAlphanumeric : Bool :=
  (48 ≤ u.val && u.val < 58) || (65 ≤ u.val && u.val < 91) || (97 ≤ u.val && u.val < 123)

inductive Pattern
  | digest | gitHash | alias | imageDigest | hostname | baseUrl

/-- `^[0-9a-f]{64}$` -/
def isDigest (s : Str) : Bool := s.length == 64 && s.all isHex

/-- What follows the prefix of `^https?://`. -/
def afterScheme (s : Str) : Option Str :=
  if key "https://" <+: s then some (s.drop 8)
  else if key "http://" <+: s then some (s.drop 7)
  else none

def Pattern.accepts (space : CodeUnit → Bool) : Pattern → Str → Bool
  | .digest, s => isDigest s
  -- `^[0-9a-f]{40}([0-9a-f]{24})?$`
  | .gitHash, s => (s.length == 40 || s.length == 64) && s.all isHex
  -- `^[a-zA-Z0-9_-]{1,80}$`
  | .alias, s => 1 ≤ s.length && s.length ≤ 80 &&
      s.all fun u => isAlphanumeric u || u == 95 || u == 45
  -- `^sha256:[0-9a-f]{64}$`
  | .imageDigest, s => key "sha256:" <+: s && isDigest (s.drop 7)
  -- `^[a-zA-Z0-9.:-]+$`
  | .hostname, s => 1 ≤ s.length &&
      s.all fun u => isAlphanumeric u || u == 46 || u == 58 || u == 45
  -- `^https?://[^\s]+$`
  | .baseUrl, s =>
    match afterScheme s with
    | some rest => 1 ≤ rest.length && rest.all fun u => !space u
    | none => false

/-! ## What is asked of a field -/

inductive Demand
  /-- `minLength` and `maxLength` -/
  | length (low high : ℕ) (s : Str)
  | pattern (p : Pattern) (s : Str)
  /-- `minimum` and `maximum` -/
  | range (low : ℕ) (high : Option ℕ) (n : ℕ)
  /-- `minItems` and `maxItems` of a list of that many items -/
  | items (low : ℕ) (high : Option ℕ) (n : ℕ)
  | uuid (s : Str)
  | dateTime (s : Str)

/-- How a validation library reads a schema.  White space is in the basic plane, so one code
unit tells it. -/
structure Reading where
  length : Str → ℕ
  space : CodeUnit → Bool
  uuid : Str → Bool
  dateTime : Str → Bool

def within (low : ℕ) (high : Option ℕ) (n : ℕ) : Bool :=
  low ≤ n && high.all fun bound => n ≤ bound

def Reading.meets (r : Reading) : Demand → Bool
  | .length low high s => low ≤ r.length s && r.length s ≤ high
  | .pattern p s => p.accepts r.space s
  | .range low high n => within low high n
  | .items low high n => within low high n
  | .uuid s => r.uuid s
  | .dateTime s => r.dateTime s

/-! ## The fields of each record -/

def positive (n : ℕ) : Demand := .range 1 none n

/-- A `Text`. -/
def words (s : Str) : Demand := .length 1 4096 s

/-- The demands on what an optional field holds. -/
def held {α : Type} (demands : α → List Demand) (a : Option α) : List Demand := a.toList.flatMap demands

/-- The demands on a list of at most so many items, and on each of them. -/
def several {α : Type} (low : ℕ) (high : Option ℕ) (demands : α → List Demand) (xs : List α) :
    List Demand :=
  .items low high xs.length :: xs.flatMap demands

def CapabilityReport.demands (r : CapabilityReport) : List Demand :=
  held (fun s => [.dateTime s]) r.probedAt ++ [positive r.configVersion]

def NetworkTarget.demands (r : NetworkTarget) : List Demand :=
  [.length 1 253 r.hostname, .pattern .hostname r.hostname, .range 1 (some 65535) r.port]

def NetworkPolicy.demands (r : NetworkPolicy) : List Demand :=
  held (several 0 (some 32) NetworkTarget.demands) r.targets

def SecretReference.demands (r : SecretReference) : List Demand :=
  [words r.id, positive r.version]

def ProviderConfig.demands (r : ProviderConfig) : List Demand :=
  [.uuid r.id, positive r.ownerUserId, .uuid r.runnerId, words r.name,
    .pattern .baseUrl r.baseUrl, .length 0 2048 r.baseUrl, words r.modelId] ++
  several 1 (some 100) (fun s => [words s]) r.allowedModels ++
  held SecretReference.demands r.credentialRef ++
  [positive r.contextWindowTokens, positive r.maxOutputTokens, positive r.configVersion,
    .items 1 none r.dataScope.length] ++
  r.network.demands ++ r.capabilityReport.demands

def RequiredCheck.demands (r : RequiredCheck) : List Demand :=
  .pattern .alias r.id :: several 1 (some 64) (fun s => [words s]) r.argv ++
    [.length 0 512 r.cwd, .range 1 (some 1200) r.timeoutSeconds]

def RepositoryConfig.demands (r : RepositoryConfig) : List Demand :=
  [.uuid r.id, positive r.ownerUserId, .uuid r.runnerId, .pattern .alias r.workspaceAlias] ++
  several 1 (some 100) (fun s => [words s]) r.allowedRefs ++ [words r.baseRef] ++
  held (fun s => [.pattern .gitHash s]) r.baseCommit ++ [positive r.policyVersion] ++
  held (several 0 (some 64) RequiredCheck.demands) r.requiredChecks

def ConversationScope.demands (r : ConversationScope) : List Demand :=
  held (fun n => [positive n]) r.streamId ++ held (fun s => [.length 0 200 s]) r.topic ++
  held (several 0 (some 100) fun n => [positive n]) r.participantUserIds ++
  held (fun n => [positive n]) r.anchorMessageId

def AudienceBinding.demands (r : AudienceBinding) : List Demand :=
  [.uuid r.conversationId, positive r.epoch, positive r.realmId, .uuid r.profileId,
    positive r.requesterUserId, positive r.botUserId, positive r.anchorMessageId,
    positive r.recipientId] ++
  held (fun n => [positive n]) r.streamId ++
  several 1 (some 10000) (fun n => [positive n]) r.audienceUserIds

def AdapterConfig.demands (r : AdapterConfig) : List Demand :=
  [.pattern .alias r.id, words r.version]

def SandboxConfig.demands (r : SandboxConfig) : List Demand :=
  [.pattern .alias r.alias, .pattern .imageDigest r.imageDigest,
    .pattern .digest r.toolchainDigest, positive r.catalogRevision,
    .range 100 (some 64000) r.cpuMillicores, .range 67108864 (some 137438953472) r.memoryBytes,
    .range 16 (some 4096) r.pidsLimit, .range 1048576 (some 10737418240) r.temporaryBytes]

def Policy.demands (r : Policy) : List Demand :=
  positive r.version :: held (several 0 (some 100) fun s => [.uuid s]) r.grantIds ++
  r.scope.demands ++ r.sandbox.demands ++ r.network.demands

def Budget.demands (r : Budget) : List Demand :=
  [.range 1 (some 7200) r.activeSeconds, .range 1 (some 40) r.toolRounds,
    .range 1 (some 120) r.shellTimeoutSeconds, .range 0 (some 2) r.transportRetries,
    .range 0 (some 2) r.contextRecoveries, positive r.inputTokens, positive r.outputTokens,
    .range 1 (some 51200) r.toolOutputBytes, .range 1 (some 10485760) r.artifactBytes,
    .range 1 (some 52428800) r.jobArtifactBytes] ++
  held (fun n => [positive n]) r.costLimitMicrounits

def ContextReference.demands (r : ContextReference) : List Demand :=
  .uuid r.id :: held (fun n => [positive n]) r.messageId ++
  held (fun n => [positive n]) r.attachmentId ++ held (fun s => [.uuid s]) r.repositoryId ++
  r.scope.demands ++ [.dateTime r.validatedAt]

def InputRecord.demands (r : InputRecord) : List Demand :=
  [.uuid r.id, positive r.authorUserId] ++ held (fun n => [positive n]) r.sourceMessageId ++
  [.uuid r.clientKey, positive r.sequence, .length 1 20000 r.text]

def Checkpoint.demands (r : Checkpoint) : List Demand :=
  [.uuid r.id, .uuid r.sourceAttemptId] ++ held (fun s => [.pattern .gitHash s]) r.baseCommit ++
  held (fun s => [.pattern .gitHash s]) r.treeHash ++ [.length 0 20000 r.summary] ++
  held (several 0 (some 100) fun s => [.uuid s]) r.contextRefIds ++
  held (several 0 (some 100) fun s => [.uuid s]) r.artifactIds ++
  held (several 0 (some 100) fun s => [words s]) r.remainingWork ++ [words r.nextStep]

def WorkspaceBinding.demands (r : WorkspaceBinding) : List Demand :=
  held (fun s => [words s]) r.canonicalOrigin ++
  [.uuid r.repositoryId, .pattern .alias r.workspaceAlias, positive r.policyVersion,
    .pattern .digest r.checksDigest] ++
  several 0 none (fun s => [words s]) r.allowedRefs

def EffectiveProvider.demands (r : EffectiveProvider) : List Demand :=
  [.uuid r.id, positive r.configVersion] ++ held SecretReference.demands r.credentialRef ++
  [positive r.contextWindowTokens, positive r.maxOutputTokens] ++ r.network.demands

def InstructionText.demands (r : InstructionText) : List Demand :=
  [positive r.revision, .length 1 8000 r.text]

def AttemptInstructions.demands (r : AttemptInstructions) : List Demand :=
  held InstructionText.demands r.team ++ held InstructionText.demands r.profile

def ExecutionConfiguration.demands (r : ExecutionConfiguration) : List Demand :=
  [.uuid r.runnerId, positive r.profileRevision] ++ r.adapter.demands ++
  held EffectiveProvider.demands r.provider ++ held WorkspaceBinding.demands r.workspaceBinding ++
  [positive r.policyVersion] ++ r.sandbox.demands ++ r.network.demands ++ r.budget.demands ++
  held (fun s => [.pattern .digest s]) r.instructionsDigest.value?

def AttemptDescriptor.demands : List Demand :=
  [.uuid r.jobId, .uuid r.attemptId, positive r.leaseEpoch] ++ r.audience.demands ++
  r.testedConfiguration.demands ++
  [.uuid r.profileId, positive r.profileRevision, .pattern .digest r.descriptorDigest,
    .pattern .digest r.configurationDigest, .dateTime r.leaseExpiresAt,
    .length 1 20000 r.request, .uuid r.runnerId] ++
  r.adapter.demands ++ held ProviderConfig.demands r.provider ++
  held RepositoryConfig.demands r.repository ++ r.policy.demands ++ r.budget.demands ++
  held (several 0 (some 100) ContextReference.demands) r.contextRefs ++
  held (several 0 (some 100) InputRecord.demands) r.inputs ++
  held Checkpoint.demands r.checkpoint ++ held AttemptInstructions.demands r.instructions.value?

/-! ## The two readings -/

/-- `\s` of the server's regular expressions: `White_Space`. -/
def whiteSpace : Bool :=
  (9 ≤ u.val && u.val < 14) || u == 0x20 || u == 0x85 || u == 0xA0 || u == 0x1680 ||
    (0x2000 ≤ u.val && u.val < 0x200B) || u == 0x2028 || u == 0x2029 || u == 0x202F ||
    u == 0x205F || u == 0x3000

/-- `\s` of the runner's. -/
def runnerSpace : Bool :=
  (9 ≤ u.val && u.val < 14) || u == 0x20 || u == 0xA0 || u == 0x1680 ||
    (0x2000 ≤ u.val && u.val < 0x200B) || u == 0x2028 || u == 0x2029 || u == 0x202F ||
    u == 0x205F || u == 0x3000 || u == 0xFEFF

/-- An identifier or a time is what the server has parsed and written again. -/
def serverReading : Reading where
  length s := (decode s).length
  space := whiteSpace
  uuid _ := true
  dateTime _ := true

/-- The string formats of the runner's schema library. -/
structure Formats where
  uuid : Str → Bool
  dateTime : Str → Bool

def runnerReading (formats : Formats) : Reading where
  length := List.length
  space := runnerSpace
  uuid := formats.uuid
  dateTime := formats.dateTime

end GrowTeam.Descriptors
