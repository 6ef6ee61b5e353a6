/-
# The audience of a conversation and the selected context (`zerver/lib/agent_context.py`)

The audience of a conversation is computed from the message it is anchored at, compared
with the binding the job was accepted with, and compared again with the audience of every
message a reference of the job points at.  The checks of grants (`check_agent_access`) and
the size of the encoded result stay parameters; all of them can only refuse.  The calls
modelled here are those that end before their deadline (`ensure_budget`).
-/
import GrowTeam.Chat.Access
import Mathlib.Data.List.Sort

namespace GrowTeam.Context

open Server (Fault Result ensure present)
open Chat

/-! ## Rows -/

/-- `AgentConversation`. -/
structure Conversation where
  id : Uuid
  realmId : ℕ
  profileId : Uuid
  anchorMessageId : Option ℕ
  audienceEpoch : ℕ
  audienceBinding : Option AudienceBinding

/-- The columns of `AgentJob` that are read here, with its conversation and its bot. -/
structure Job where
  id : Uuid
  realmId : ℕ
  requesterId : ℕ
  profileId : Uuid
  botUserId : ℕ               -- `job.profile.bot_user`
  repositoryId : Option Uuid
  sourceMessageId : Option ℕ
  conversation : Conversation
  inputTokens : ℕ             -- `job.budget["input_tokens"]`

/-- `AgentContextRef.kind`. -/
inductive RefKind where
  | message
  | attachment
  | repository
  | other
  deriving DecidableEq

/-- `AgentContextRef`. -/
structure ContextRef where
  id : Uuid
  jobId : Uuid
  realmId : ℕ
  kind : RefKind
  messageId : Option ℕ
  attachmentId : Option ℕ
  repositoryId : Option Uuid
  deriving DecidableEq

/-- An entry of the result of `selected_context`. -/
inductive Reference where
  | message (id : Uuid) (messageId : ℕ) (text : String)
  | attachment (id : Uuid) (attachmentId : ℕ) (name : String) (size : ℕ)
  | repository (id : Uuid) (repositoryId : Option Uuid)
  deriving DecidableEq

/-- What the functions below read and do not look into. -/
structure Site where
  /-- `check_agent_access(…, "context.read")`. -/
  checkAgentAccess : Tables → Job → Result Unit
  /-- `len(canonical_json(result))`. -/
  canonicalSize : List Reference → ℕ

/-! ## The audience of a conversation -/

/-- The checks of `AudienceBinding`; its `kind` is `stream` where `stream_id` is set. -/
def validate (b : AudienceBinding) : Result AudienceBinding := do
  ensure (∀ x ∈ [b.epoch, b.realmId, b.requesterUserId, b.botUserId, b.anchorMessageId,
    b.recipientId] ++ b.streamId.toList ++ b.audienceUserIds, 1 ≤ x)
    "Input should be greater than or equal to 1"
  ensure (1 ≤ b.audienceUserIds.length ∧ b.audienceUserIds.length ≤ 10000)
    "List should have between 1 and 10000 items"
  let visibility := [b.inviteOnly, b.isWebPublic, b.historyPublicToSubscribers]
  ensure (¬((b.streamId.isSome ∧ none ∈ visibility) ∨
      (b.streamId.isNone ∧ ∃ value ∈ visibility, value ≠ none)))
    "Audience visibility does not match its route"
  ensure (b.audienceUserIds = b.audienceUserIds.dedup.insertionSort (· ≤ ·))
    "Audience members must be unique and sorted"
  ensure (b.requesterUserId ∈ b.audienceUserIds ∧ b.botUserId ∈ b.audienceUserIds)
    "Audience must include both principals"
  return b

variable (t : Tables)

/-- `UserProfile.objects.get(id=…, realm_id=…, is_active=True)`. -/
def activeUser (id realmId : ℕ) : Result UserProfile :=
  match t.users.find id fun user => user.realmId = realmId && user.isActive with
  | some user => .ok user
  | none => .error .missing

/-- The anchor, if both principals have access to it. -/
def accessAnchor (requester bot : UserProfile) (anchorId : ℕ) : Result Message :=
  let access := do
    let anchor ← t.accessMessage requester anchorId false
    let _ ← t.accessMessage bot anchor.id false
    return anchor
  match access with
  | .error .jsonable => .error (.value "Conversation access changed.")
  | result => result

/-- The users with content access to a channel. -/
def streamMembers (realmId : ℕ) (stream : Stream) : Result (List ℕ) := do
  let subscribed := (t.subscriptions.filter fun sub =>
    sub.recipientId = stream.recipientId && sub.active).map (·.userProfileId)
  let users := t.users.rows.filter fun user => user.realmId = realmId && user.isActive
  ensure (users.length ≤ 10000) "Pilot audience limit exceeded."
  return (users.filter fun user =>
    t.userHasContentAccess user stream (decide (user.id ∈ subscribed))).map (·.id)

def getDirectMessageGroupUserIds (recipient : Recipient) : List ℕ :=
  ((t.subscriptions.filter (·.recipientId = recipient.id)).map (·.userProfileId)).insertionSort
    (· ≤ ·)

/-- `Stream.objects.get(id=…, realm_id=…, deactivated=False)`. -/
def liveStream (id realmId : ℕ) : Result Stream :=
  match t.streams.find id fun stream => stream.realmId = realmId && !stream.deactivated with
  | some stream => .ok stream
  | none => .error .missing

/-- The members and the channel of the place a message is in. -/
def membersOf (realmId : ℕ) (anchor : Message) : Result (List ℕ × Option Stream) :=
  match anchor.recipient.type with
  | .stream => do
    let stream ← liveStream t anchor.recipient.typeId realmId
    let members ← streamMembers t realmId stream
    return (members, some stream)
  | .directMessageGroup => return (getDirectMessageGroupUserIds t anchor.recipient, none)

def currentAudience (conversation : Conversation) (requesterId botId : ℕ) :
    Result AudienceBinding := do
  let anchorMessageId ← present conversation.anchorMessageId "Conversation anchor is unavailable."
  let requester ← activeUser t requesterId conversation.realmId
  let bot ← activeUser t botId conversation.realmId
  let anchor ← accessAnchor t requester bot anchorMessageId
  let (members, stream) ← membersOf t conversation.realmId anchor
  validate
    { conversationId := conversation.id
      epoch := conversation.audienceEpoch
      realmId := conversation.realmId
      profileId := conversation.profileId
      requesterUserId := requester.id
      botUserId := bot.id
      anchorMessageId := anchor.id
      recipientId := anchor.recipient.id
      streamId := stream.map (·.id)
      inviteOnly := stream.map (·.inviteOnly)
      isWebPublic := stream.map (·.isWebPublic)
      historyPublicToSubscribers := stream.map (·.historyPublicToSubscribers)
      audienceUserIds := members }

variable (job : Job)

def requireAudience : Result AudienceBinding := do
  let binding ← present job.conversation.audienceBinding "Input should be a valid dictionary"
  let accepted ← validate binding
  let current ← currentAudience t job.conversation job.requesterId job.botUserId
  if current ≠ accepted then
    .error .audienceChanged
  else
    return current

/-- The unsaved conversation that `require_reference_audience` asks about. -/
def referenceConversation (accepted : AudienceBinding) (messageId : ℕ) : Conversation where
  id := job.conversation.id
  realmId := job.realmId
  profileId := job.profileId
  anchorMessageId := some messageId
  audienceEpoch := accepted.epoch
  audienceBinding := none

def requireReferenceAudience (messageId : ℕ) : Result Unit := do
  let accepted ← requireAudience t job
  let source ← currentAudience t (referenceConversation job accepted messageId) job.requesterId
    job.botUserId
  ensure (¬(¬(accepted.audienceUserIds ⊆ source.audienceUserIds) ∨
      (accepted.isWebPublic = some true ∧ source.isWebPublic ≠ some true)))
    "Reference audience cannot flow to this destination."

/-! ## The selected context -/

variable (ref : ContextRef)

/-- The message branch of `selected_context`. -/
def selectMessage (messageId : ℕ) : Result Reference := do
  requireReferenceAudience t job messageId
  let requester ← t.user job.requesterId
  let message ← t.accessMessage requester messageId false
  let bot ← t.user job.botUserId
  let _ ← t.accessMessage bot messageId false
  return .message ref.id message.id message.content

/-- The attachment branch of `selected_context`. -/
def selectAttachment (attachment : Attachment)
    (attachments : Attachments) : Result (Reference × Attachments) := do
  let messageId ← present ref.messageId "Selected file source is unavailable."
  ensure (messageId ∈ attachment.messages) "Selected file source is unavailable."
  requireReferenceAudience t job messageId
  let requester ← t.user job.requesterId
  let (allowed, attachments) := t.validateAttachmentRequest requester attachment.pathId attachments
  ensure allowed "Context attachment is unavailable."
  let bot ← t.user job.botUserId
  let (allowed, attachments) := t.validateAttachmentRequest bot attachment.pathId attachments
  ensure allowed "Context attachment is unavailable."
  return (.attachment ref.id attachment.id attachment.fileName attachment.size, attachments)

/-- One reference of `selected_context`. -/
def selectReference (attachments : Attachments) : Result (Reference × Attachments) :=
  match ref.kind, ref.messageId, ref.attachmentId.bind attachments.get? with
  | .message, some messageId, _ => do
    let reference ← selectMessage t job ref messageId
    return (reference, attachments)
  | .attachment, _, some attachment => selectAttachment t job ref attachment attachments
  | .repository, _, _ =>
    if ref.repositoryId = job.repositoryId then
      .ok (.repository ref.id ref.repositoryId, attachments)
    else .error (.value "Context reference is unavailable.")
  | _, _, _ => .error (.value "Context reference is unavailable.")

/-- The loop of `selected_context`. -/
def selectReferences (t : Tables) (job : Job) :
    List ContextRef → Attachments → Result (List Reference × Attachments)
  | [], attachments => .ok ([], attachments)
  | ref :: refs, attachments => do
    let (reference, attachments) ← selectReference t job ref attachments
    let (references, attachments) ← selectReferences t job refs attachments
    return (reference :: references, attachments)

/-- `AgentContextRef.objects.filter(job=…, realm=…, id__in=…)`. -/
def selectedRefs (contextRefs : Table ContextRef.id) (job : Job) (refIds : List Uuid) :
    List ContextRef :=
  contextRefs.rows.filter fun ref =>
    ref.jobId = job.id && ref.realmId = job.realmId && decide (ref.id ∈ refIds)

def selectedContext (site : Site) (t : Tables) (contextRefs : Table ContextRef.id) (job : Job)
    (refIds : List Uuid) (attachments : Attachments) : Result (List Reference × Attachments) := do
  let _ ← requireAudience t job
  site.checkAgentAccess t job
  let refs := selectedRefs contextRefs job refIds
  ensure (refs.length = refIds.dedup.length) "Context reference is unavailable."
  let (result, attachments) ← selectReferences t job refs attachments
  ensure (site.canonicalSize result ≤ min (1024 * 1024) (job.inputTokens * 4))
    "Selected context exceeds the input budget."
  return (result, attachments)

end GrowTeam.Context
