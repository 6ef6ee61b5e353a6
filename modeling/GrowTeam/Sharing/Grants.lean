/-
# Sharing a profile (`zerver/actions/agents.py`)

A share is not a row of its own.  `share_agent_profile` makes the grants a principal needs
for a profile as it is configured at the time, and `unshare_agent_profile` computes anew
which grants a share would make and revokes those.  Each action is one transaction.
-/
import GrowTeam.History
import GrowTeam.Protocol
import GrowTeam.Table

namespace GrowTeam.Sharing

/-! ## Rows -/

inductive Action where
  | contextRead
  | repositoryRead
  | repositoryEdit
  | checksRun
  | shellRun
  | dependenciesInstall
  | gitCommit
  | gitPush
  | gitDraftPr
  | jobControl
  | jobReview
  | profileUse
  | providerUse
  | runnerUse
  | profileManage
  | teamManage
  deriving DecidableEq

/-- `AgentGrant.target_kind`. -/
inductive TargetKind where
  | profile
  | runner
  | provider
  | repository
  deriving DecidableEq

/-- `UserProfile`. -/
structure User where
  id : ℕ
  realmId : ℕ
  isRealmAdmin : Bool

structure UserGroup where
  id : ℕ
  realmId : ℕ

/-- `AgentRunner`, `AgentProvider` and `AgentRepository`, as far as a grant reads them.  The
last two belong to a runner. -/
structure Resource where
  id : Uuid
  realmId : ℕ
  ownerId : ℕ
  runner : Option Uuid

/-- `AgentProfile.mode`. -/
inductive Runtime where
  | acp
  | endpoint
  deriving DecidableEq

/-- `AgentProfile`, as far as a share reads it. -/
structure Profile where
  id : Uuid
  realmId : ℕ
  ownerId : ℕ
  runner : Uuid
  provider : Option Uuid
  defaultRepository : Option Uuid
  mode : Runtime
  defaultMode : JobKind
  archived : Bool
  revision : ℕ

/-- What a grant says, which no action changes. -/
structure Terms where
  realmId : ℕ
  ownerId : ℕ
  principalUser : Option ℕ
  principalGroup : Option ℕ
  targetKind : TargetKind
  target : Uuid
  /-- The repository a profile grant is limited to. -/
  repository : Option Uuid
  scope : Option String
  actions : List Action
  expiresAt : Option Time
  deriving DecidableEq

/-- `AgentGrant`. -/
structure Grant extends Terms where
  id : Uuid
  policyVersion : ℕ
  revokedAt : Option Time
  deriving DecidableEq

/-- The tables, and the time. -/
structure Store where
  clock : Time
  users : Table User.id
  groups : Table UserGroup.id
  runners : Table Resource.id
  providers : Table Resource.id
  repositories : Table Resource.id
  profiles : Table Profile.id
  grants : Table Grant.id

/-- What an action raises. -/
inductive Refusal where
  | value (message : String)   -- `ValueError`
  | missing                    -- `ObjectDoesNotExist`

variable (s : Store)

/-- Realm and owner of a grant's target. -/
def Store.target (kind : TargetKind) (id : Uuid) : Option (ℕ × ℕ) :=
  match kind with
  | .profile => (s.profiles.get? id).map fun p => (p.realmId, p.ownerId)
  | .runner => (s.runners.get? id).map fun r => (r.realmId, r.ownerId)
  | .provider => (s.providers.get? id).map fun r => (r.realmId, r.ownerId)
  | .repository => (s.repositories.get? id).map fun r => (r.realmId, r.ownerId)

/-- Who gets a grant: a user or a group. -/
structure Principal where
  user : Option ℕ
  group : Option ℕ

/-! ## Grants -/

/-- The principal is a user or a group of the realm, if it is given. -/
def Store.principalUnavailable (owner : User) (principal : Principal) : Bool :=
  principal.user.any (fun id => (s.users.get? id).any (·.realmId ≠ owner.realmId)) ||
    principal.group.any fun id => !(s.groups.get? id).any (·.realmId = owner.realmId)

variable (owner : User)

/-- `create_agent_grant`.  Its `clean` compares realms that were compared before. -/
def createAgentGrant (principal : Principal) (kind : TargetKind) (target : Uuid)
    (actions : List Action) (expiresAt : Option Time) (scope : Option String)
    (repository : Option Uuid) (s : Store) : Except Refusal Grant × Store :=
  match s.target kind target with
  | none => (.error .missing, s)
  | some (realmId, ownerId) =>
    if realmId ≠ owner.realmId ∨ ownerId ≠ owner.id then
      (.error (.value "Grant target is unavailable."), s)
    else if s.principalUnavailable owner principal then
      (.error (.value "Grant principal is unavailable."), s)
    else if principal.user.isNone = principal.group.isNone ∨ actions = [] then
      (.error (.value "Invalid grant."), s)
    else if repository.any fun id => kind ≠ .profile ||
        (s.repositories.get? id).any (·.realmId ≠ owner.realmId) then
      (.error (.value "Invalid repository grant."), s)
    else
      let grant (id : Uuid) : Grant :=
        { id := id, realmId := owner.realmId, ownerId := owner.id,
          principalUser := principal.user, principalGroup := principal.group,
          targetKind := kind, target := target, repository := repository, scope := scope,
          actions := actions, expiresAt := expiresAt, policyVersion := 1, revokedAt := none }
      (.ok (grant s.grants.fresh), { s with grants := s.grants.create grant fun _ => rfl })

/-- The write with which every grant ends. -/
def Grant.revoke (grant : Grant) (now : Time) : Grant :=
  { grant with revokedAt := some now, policyVersion := grant.policyVersion + 1 }

theorem Grant.id_revoke (grant : Grant) (now : Time) : (grant.revoke now).id = grant.id := rfl

/-- The view `revoke_agent_grant`. -/
def revokeAgentGrant (id : Uuid) (expectedRevision : ℕ) (s : Store) : Except Refusal Unit × Store :=
  match s.grants.get? id with
  | none => (.error .missing, s)
  | some grant =>
    if grant.realmId ≠ owner.realmId ∨ grant.ownerId ≠ owner.id then (.error .missing, s)
    else if grant.policyVersion ≠ expectedRevision then (.error (.value ""), s)
    else (.ok (), { s with grants := s.grants.save (grant.revoke s.clock) })

/-- `attach_profile_to_stream`, as far as the grant it leaves. -/
def attachProfileToStream (user : User) (profile : Uuid) (scope : String) (permitted : Bool)
    (s : Store) : Except Refusal Unit × Store :=
  match s.profiles.get? profile with
  | none => (.error .missing, s)
  | some profile =>
    if profile.realmId ≠ user.realmId ∨ permitted = false then
      (.error (.value "Channel is unavailable."), s)
    else if s.grants.rows.any fun g => g.revokedAt.isNone && g.realmId = user.realmId &&
        g.ownerId = profile.ownerId && g.principalUser = some user.id &&
        g.targetKind = .profile && g.target = profile.id && g.scope = some scope &&
        g.actions = [.profileUse] then (.ok (), s)
    else
      let grant (id : Uuid) : Grant :=
        { id := id, realmId := user.realmId, ownerId := profile.ownerId,
          principalUser := some user.id, principalGroup := none, targetKind := .profile,
          target := profile.id, repository := none, scope := some scope,
          actions := [.profileUse], expiresAt := none, policyVersion := 1, revokedAt := none }
      (.ok (), { s with grants := s.grants.create grant fun _ => rfl })

/-! ## Shares -/

def codeJobActions : List Action := [.repositoryRead, .repositoryEdit, .checksRun]

variable (profile : Profile)

def shareTargets : List (TargetKind × Uuid) :=
  [(.profile, profile.id), (.runner, profile.runner)] ++
    (profile.provider.toList.map fun id => (.provider, id)) ++
    profile.defaultRepository.toList.map fun id => (.repository, id)

variable (kind : TargetKind)

def shareMinActions (profile : Profile) : List Action :=
  match kind with
  | .profile =>
    [.profileUse, .contextRead] ++
      (if profile.defaultMode = .manage then [.teamManage] else []) ++
      if profile.defaultRepository.isSome then codeJobActions else []
  | .repository => codeJobActions
  | .runner => [.runnerUse]
  | .provider => [.providerUse]

/-- `set(actions) == set(others)`. -/
def sameActions (actions others : List Action) : Bool :=
  actions.all (· ∈ others) && others.all (· ∈ actions)

def shareActionCombinations (profile : Profile) : List (List Action) :=
  let base := shareMinActions kind profile
  if kind ≠ .profile then [base]
  else [base, base ++ [.jobControl], base ++ [.jobReview], base ++ [.jobControl, .jobReview]]

def shareGrantFilters (principal : Principal) (target : TargetKind × Uuid) (grant : Grant) : Bool :=
  grant.realmId = owner.realmId && grant.ownerId = owner.id &&
    grant.principalUser = principal.user && grant.principalGroup = principal.group &&
    grant.targetKind = target.1 && grant.revokedAt.isNone && grant.scope.isNone &&
    grant.target = target.2 && (target.1 ≠ .profile || grant.repository.isNone)

def validateShareRequest (profile : Uuid) (principal : Principal) (s : Store) :
    Except Refusal Profile :=
  if principal.user.isNone = principal.group.isNone then
    .error (.value "Choose exactly one share principal.")
  else
    match s.profiles.get? profile with
    | none => .error .missing
    | some profile =>
      if profile.realmId ≠ owner.realmId ∨ profile.ownerId ≠ owner.id then
        .error (.value "Agent profile is unavailable.")
      else if s.principalUnavailable owner principal then
        .error (.value "Share principal is unavailable.")
      else .ok profile

/-- What a share has done so far. -/
structure Shared where
  grants : List Grant
  skipped : List (TargetKind × String)
  store : Store

/-- The actions a share wants on a target. -/
def actionsWanted (profile : Profile) (allowJobControl allowJobReview : Bool) : List Action :=
  shareMinActions kind profile ++
    if kind = .profile then
      (if allowJobControl then [.jobControl] else []) ++
        if allowJobReview then [.jobReview] else []
    else []

/-- One round of `share_agent_profile`. -/
def shareTarget (principal : Principal)
    (allowJobControl allowJobReview : Bool) (done : Shared) (target : TargetKind × Uuid) : Shared :=
  let actions := actionsWanted target.1 profile allowJobControl allowJobReview
  let reused := done.store.grants.rows.find? fun grant =>
    shareGrantFilters owner principal target grant && sameActions grant.actions actions
  match reused with
  | some grant => { done with grants := done.grants ++ [grant] }
  | none =>
    match createAgentGrant owner principal target.1 target.2 actions none none none
        done.store with
    | (.ok grant, store) => { done with grants := done.grants ++ [grant], store := store }
    | (.error _, store) =>
      { done with skipped := done.skipped ++ [(target.1, "not_owner")], store := store }

def shareAgentProfile (profile : Uuid) (principal : Principal)
    (allowJobControl allowJobReview : Bool) (s : Store) :
    Except Refusal (List Grant × List (TargetKind × String)) × Store :=
  match validateShareRequest owner profile principal s with
  | .error refusal => (.error refusal, s)
  | .ok profile =>
    let done := (shareTargets profile).foldl
      (shareTarget owner profile principal allowJobControl allowJobReview) ⟨[], [], s⟩
    (.ok (done.grants, done.skipped), done.store)

/-- Whether `unshare_agent_profile` revokes a grant when it comes to a target. -/
def unshares (principal : Principal) (target : TargetKind × Uuid) (grant : Grant) : Bool :=
  shareGrantFilters owner principal target grant &&
    (shareActionCombinations target.1 profile).any (sameActions grant.actions)

/-- One round of `unshare_agent_profile`. -/
def unshareTarget (principal : Principal) (now : Time)
    (grants : Table Grant.id) (target : TargetKind × Uuid) : Table Grant.id :=
  grants.update (unshares owner profile principal target) (·.revoke now) (·.id_revoke now)

def unshareAgentProfile (profile : Uuid) (principal : Principal) (s : Store) :
    Except Refusal Unit × Store :=
  match validateShareRequest owner profile principal s with
  | .error refusal => (.error refusal, s)
  | .ok profile =>
    let grants := (shareTargets profile).foldl (unshareTarget owner profile principal s.clock)
      s.grants
    (.ok (), { s with grants := grants })

/-! ## Edits of the profile -/

/-- What an edit asks for.  `other` is whether it changes something that no share reads. -/
structure ProfileEdit where
  expectedRevision : ℕ
  provider : Option Uuid
  repository : Option Uuid
  mode : Runtime
  defaultMode : JobKind
  other : Bool

/-- `update_profile`.  `permitted` stands for its checks of access, of the runner's catalogue
and of the network policy. -/
def updateProfile (id : Uuid) (edit : ProfileEdit) (permitted : Bool)
    (s : Store) : Except Refusal Profile × Store :=
  match s.profiles.get? id with
  | none => (.error .missing, s)
  | some profile =>
    if permitted = false ∨ profile.revision ≠ edit.expectedRevision ∨ profile.archived then
      (.error (.value "Profile configuration is stale."), s)
    else if edit.provider.any (fun id =>
          !(s.providers.get? id).any (·.runner = some profile.runner)) ||
        edit.repository.any (fun id =>
          !(s.repositories.get? id).any (·.runner = some profile.runner)) then
      (.error (.value "Profile resource is unavailable."), s)
    else if (edit.mode = .endpoint ∧ edit.provider = none) ∨
        (edit.defaultMode = .manage ∧ owner.isRealmAdmin = false) then
      (.error (.value "Profile configuration is invalid."), s)
    else if edit.other = false ∧ profile.mode = edit.mode ∧
        profile.defaultMode = edit.defaultMode ∧ profile.provider = edit.provider ∧
        profile.defaultRepository = edit.repository then (.ok profile, s)
    else
      let profile :=
        { profile with
          mode := edit.mode
          defaultMode := edit.defaultMode
          provider := edit.provider
          defaultRepository := edit.repository
          revision := profile.revision + 1 }
      (.ok profile, { s with profiles := s.profiles.save profile })

def archiveProfile (id : Uuid) (permitted : Bool) (s : Store) : Except Refusal Profile × Store :=
  match s.profiles.get? id with
  | none => (.error .missing, s)
  | some profile =>
    if permitted = false then (.error (.value "Profile cannot be archived."), s)
    else
      let profile := { profile with archived := true, revision := profile.revision + 1 }
      (.ok profile, { s with profiles := s.profiles.save profile })

/-! ## Requests -/

/-- One action.  A `permitted` stands for checks that read other tables, and `world` is
everything that happens to users, groups and resources meanwhile. -/
inductive Request where
  | share (owner : User) (profile : Uuid) (principal : Principal)
      (allowJobControl allowJobReview : Bool)
  | unshare (owner : User) (profile : Uuid) (principal : Principal)
  | createProfile (profile : Profile)
  | edit (owner : User) (profile : Uuid) (edit : ProfileEdit) (permitted : Bool)
  | archive (profile : Uuid) (permitted : Bool)
  | grant (owner : User) (principal : Principal) (kind : TargetKind) (target : Uuid)
      (actions : List Action) (expiresAt : Option Time) (scope : Option String)
      (repository : Option Uuid)
  | attach (user : User) (profile : Uuid) (scope : String) (permitted : Bool)
  | revoke (owner : User) (id : Uuid) (expectedRevision : ℕ)
  | world (users : Table User.id) (groups : Table UserGroup.id)
      (runners providers repositories : Table Resource.id)

/-- What a request is answered with, when it is not refused. -/
inductive Reply where
  | shared (grants : List Grant) (skipped : List (TargetKind × String))
  | profile (profile : Profile)
  | granted (grant : Grant)
  | done

/-- An answer, made of what an action returns. -/
def reply {β : Type} (f : β → Reply) (r : Except Refusal β × Store) :
    Except Refusal Reply × Store :=
  (r.1.map f, r.2)

/-- One request, on the store as it finds it. -/
def perform : Request → Except Refusal Reply × Store
  | .share owner profile principal control review =>
    reply (fun r => .shared r.1 r.2) (shareAgentProfile owner profile principal control review s)
  | .unshare owner profile principal =>
    reply (fun _ => .done) (unshareAgentProfile owner profile principal s)
  | .createProfile profile =>
    (.ok .done, { s with
      profiles := s.profiles.create (fun id => { profile with id := id }) fun _ => rfl })
  | .edit owner profile edit permitted =>
    reply .profile (updateProfile owner profile edit permitted s)
  | .archive profile permitted => reply .profile (archiveProfile profile permitted s)
  | .grant owner principal kind target actions expiresAt scope repository =>
    reply .granted
      (createAgentGrant owner principal kind target actions expiresAt scope repository s)
  | .attach user profile scope permitted =>
    reply (fun _ => .done) (attachProfileToStream user profile scope permitted s)
  | .revoke owner id expectedRevision =>
    reply (fun _ => .done) (revokeAgentGrant owner id expectedRevision s)
  | .world users groups runners providers repositories =>
    (.ok .done, { s with
      users := users, groups := groups, runners := runners, providers := providers,
      repositories := repositories })

/-- A request, and the time that passes before it. -/
structure Input where
  elapsed : Time
  request : Request

/-- The store some time later. -/
def Store.later (elapsed : Time) : Store := { s with clock := s.clock + elapsed }

/-- One request at its time. -/
def step (i : Input) (s : Store) : Except Refusal Reply × Store :=
  perform (s.later i.elapsed) i.request

/-- A step of a run. -/
abbrev Event := History.Event Store Input (Except Refusal Reply)

/-- Empty tables. -/
def Store.empty : Store :=
  { clock := 0, users := .empty _, groups := .empty _, runners := .empty _,
    providers := .empty _, repositories := .empty _, profiles := .empty _, grants := .empty _ }

/-- The steps of a run that starts with empty tables. -/
def history (inputs : List Input) : List Event := History.history step .empty inputs

end GrowTeam.Sharing
