/-
# A key keeps its job

Whatever happens to a job, the key of its requester finds it, and `create_job` under that key
changes nothing.  Only `complete_draft` writes `payload_digest` again: from then on the key
answers to the request as it was completed.
-/
import GrowTeam.Dispatch.Creation
import GrowTeam.History

namespace GrowTeam.Dispatch

open History List State

/-! ## The actions on jobs -/

inductive Call where
  | create (w : World) (actor : ℕ) (r : Request) (draft allowBlocked : Bool)
  | completeDraft (w : World) (actor id expectedVersion repository : ℕ) (baseRef : String)
  | live (id : ℕ) (status : JobState) (blockedReason : String) (version : ℕ)
  | deleteMessage (message : ℕ)

variable (s : State)

/-- The transaction of an action: an error leaves the rows as they were. -/
def transaction : Except Refusal (ℕ × State) → Except Refusal ℕ × State
  | .ok (id, s') => (.ok id, s')
  | .error refusal => (.error refusal, s)

def call : Call → State → Except Refusal ℕ × State
  | .create w actor r draft allowBlocked, s =>
    transaction s (createJob w s actor r draft allowBlocked)
  | .completeDraft w actor id expectedVersion repository baseRef, s =>
    transaction s (completeDraft w s actor id expectedVersion repository baseRef)
  | .live id status blockedReason version, s => (.ok id, s.live id status blockedReason version)
  | .deleteMessage message, s => (.ok 0, s.deleteMessage message)

/-! ## What the two actions do -/

section Specs

variable {w : World} {s s' : State} {actor id : ℕ} {r : Request} {draft allowBlocked : Bool}

/-- `create_job` finds the job of the key, finds that of the message, or saves a new one. -/
theorem createJob_cases (h : createJob w s actor r draft allowBlocked = .ok (id, s')) :
    (∃ prior, s.prior? actor r.key = some prior ∧ prior.digest = r.payload ∧ id = prior.id ∧
      s' = s) ∨
    (s.prior? actor r.key = none ∧ ∃ existing,
      s.existingTrigger? r.source r.profile r.trigger = some existing ∧
      existing.requester = actor ∧ existing.digest = r.payload ∧ id = existing.id ∧ s' = s) ∨
    (s.prior? actor r.key = none ∧ s.existingTrigger? r.source r.profile r.trigger = none ∧
      ∃ status, id = s.nextJob ∧ s' = s.insert fun id => r.row id actor status) := by
  unfold createJob at h
  split at h
  · cases h
  split at h
  · next prior hprior =>
    split at h
    · cases h
    split at h
    · cases h
    · next hdigest =>
      cases h
      exact .inl ⟨prior, hprior, not_not.mp hdigest, rfl, rfl⟩
  · next hprior =>
    split at h
    · next existing hexisting =>
      split at h
      · cases h
      split at h
      · cases h
      · next hsame =>
        cases h
        rw [not_or, not_not, not_not] at hsame
        exact .inr (.inl ⟨hprior, existing, hexisting, hsame.1, hsame.2, rfl, rfl⟩)
    · next hexisting =>
      split at h
      · cases h
      · next status _ =>
        cases h
        exact .inr (.inr ⟨hprior, hexisting, status, rfl, rfl⟩)

/-- Under a key that has a job, `create_job` only compares. -/
theorem createJob_prior {prior : Job} (hprior : s.prior? actor r.key = some prior) :
    createJob w s actor r draft allowBlocked =
      match firstRefusal (requestChecks w s actor r ++
        [(w.busy, .busy), (!w.active actor, .missing)]) with
      | some refusal => .error refusal
      | none =>
        if !w.jobAccess actor prior then .error .denied
        else if prior.digest ≠ r.payload then .error (.invalid "Idempotency conflict.")
        else .ok (prior.id, s) := by
  unfold createJob
  cases firstRefusal (requestChecks w s actor r ++
    [(w.busy, .busy), (!w.active actor, .missing)]) with
  | some refusal => rfl
  | none => simp only [hprior]

/-- `complete_draft` returns the job as it is, or saves it with the completion. -/
theorem completeDraft_cases {job expectedVersion repository : ℕ} {baseRef : String}
    (h : completeDraft w s actor job expectedVersion repository baseRef = .ok (id, s')) :
    s' = s ∨ ∃ draft new, s.job? job = some draft ∧ draft.draftCompletion = none ∧
      draft.status = .draft ∧ new.id = draft.id ∧ new.requester = draft.requester ∧
      new.profile = draft.profile ∧ new.source = draft.source ∧ new.trigger = draft.trigger ∧
      new.key = draft.key ∧ new.draftCompletion.isSome = true ∧
      new.digest.profile = draft.profile ∧ draft.source = some new.digest.source ∧
      new.digest.trigger = draft.trigger ∧
      s' = (s.replace new).acceptReceipts draft.id := by
  unfold completeDraft at h
  split at h
  · cases h
  split at h
  · cases h
  · next found hfound =>
    split at h
    · cases h
    split at h
    · split at h
      · cases h
      · cases h
        exact .inl rfl
    · next hnone =>
      split at h
      · cases h
      · next _ source hsource =>
        split at h
        · cases h
        · next hdraft =>
          rw [not_or, not_not] at hdraft
          split at h
          · cases h
          · next repository' _ =>
            unfold completeJob at h
            split at h
            · cases h
            · next result hcompleted =>
              split at hcompleted
              · cases hcompleted
              split at hcompleted
              · cases hcompleted
              · next status _ =>
                cases hcompleted
                cases h
                let row : Job := { (completionRequest found source repository' baseRef).row found.id
                  found.requester status with
                  version := found.version + 1
                  draftCompletion := some ⟨expectedVersion, repository'.id, baseRef⟩ }
                exact .inr ⟨found, row, hfound, hnone, hdraft.1, rfl, rfl, rfl, hsource.symm, rfl,
                  rfl, rfl, rfl, hsource, rfl, rfl⟩

end Specs

/-! ## The rows -/

@[simp] theorem State.wake_jobs (id : ℕ) (status : JobState) :
    (s.wake id status).jobs = s.jobs := by
  unfold wake
  split <;> rfl

@[simp] theorem State.wake_nextJob (id : ℕ) (status : JobState) :
    (s.wake id status).nextJob = s.nextJob := by
  unfold wake
  split <;> rfl

theorem State.insert_jobs (row : ℕ → Job) : (s.insert row).jobs = s.jobs ++ [row s.nextJob] := by
  simp [insert]

theorem State.insert_nextJob (row : ℕ → Job) : (s.insert row).nextJob = s.nextJob + 1 := by
  simp [insert]

theorem State.replace_jobs (new : Job) :
    (s.replace new).jobs = s.jobs.map fun old => if old.id = new.id then new else old := by
  simp [State.replace]

/-- A later form of a job: the same identity, and the same digest until a draft is completed. -/
structure Job.Same (job job' : Job) : Prop where
  id : job'.id = job.id
  requester : job'.requester = job.requester
  key : job'.key = job.key
  digest : job'.draftCompletion = none → job.draftCompletion = none ∧ job'.digest = job.digest

theorem Job.Same.refl (job : Job) : job.Same job := ⟨rfl, rfl, rfl, fun hnone => ⟨hnone, rfl⟩⟩

theorem Job.Same.trans {a b c : Job} (h : a.Same b) (h' : b.Same c) : a.Same c := by
  refine ⟨h'.id.trans h.id, h'.requester.trans h.requester, h'.key.trans h.key, ?_⟩
  intro hnone
  obtain ⟨hnone', hsame'⟩ := h'.digest hnone
  obtain ⟨hnone'', hsame⟩ := h.digest hnone'
  exact ⟨hnone'', hsame'.trans hsame⟩

/-- The jobs have distinct ids below the next one, and the keys of a requester distinct jobs. -/
structure State.Keyed (s : State) : Prop where
  ids : (s.jobs.map Job.id).Nodup
  below : ∀ job ∈ s.jobs, job.id < s.nextJob
  keys : ∀ a ∈ s.jobs, ∀ b ∈ s.jobs, a.requester = b.requester → a.key = b.key → a.id = b.id

section Rows

variable {s s' : State}

theorem State.Keyed.unique (h : s.Keyed) {a b : Job} (ha : a ∈ s.jobs) (hb : b ∈ s.jobs)
    (hid : a.id = b.id) : a = b := inj_on_of_nodup_map h.ids ha hb hid

variable {job : Job}

theorem State.job?_eq_some {id : ℕ} (h : s.job? id = some job) :
    job ∈ s.jobs ∧ job.id = id :=
  ⟨mem_of_find?_eq_some h, by simpa using find?_some h⟩

theorem State.prior?_eq_some {requester : ℕ} {key : Uuid}
    (h : s.prior? requester key = some job) :
    job ∈ s.jobs ∧ job.requester = requester ∧ job.key = key :=
  ⟨mem_of_find?_eq_some h, by simpa using find?_some h⟩

theorem State.prior?_eq_none {requester : ℕ} {key : Uuid} (h : s.prior? requester key = none)
    (hjob : job ∈ s.jobs) : ¬ (job.requester = requester ∧ job.key = key) := by
  intro hsame
  have hnot := find?_eq_none.mp h job hjob
  simp [hsame] at hnot

/-- The one job of the key is found. -/
theorem State.Keyed.prior?_eq (h : s.Keyed) (hjob : job ∈ s.jobs) :
    s.prior? job.requester job.key = some job := by
  cases hprior : s.prior? job.requester job.key with
  | none => exact absurd ⟨rfl, rfl⟩ (prior?_eq_none hprior hjob)
  | some prior =>
    obtain ⟨hmem, hrequester, hkey⟩ := prior?_eq_some hprior
    rw [h.unique hmem hjob (h.keys prior hmem job hjob hrequester hkey)]

/-- A change of rows that leaves their identity. -/
theorem State.Keyed.map (h : s.Keyed) {f : Job → Job} (hjobs : s'.jobs = s.jobs.map f)
    (hnext : s'.nextJob = s.nextJob) (hf : ∀ job ∈ s.jobs, job.Same (f job)) : s'.Keyed where
  ids := by
    have hids : s.jobs.map (Job.id ∘ f) = s.jobs.map Job.id :=
      map_congr_left fun job hjob => (hf job hjob).id
    rw [hjobs, map_map, hids]
    exact h.ids
  below job hjob := by
    rw [hjobs] at hjob
    obtain ⟨old, hold, rfl⟩ := mem_map.mp hjob
    rw [(hf old hold).id, hnext]
    exact h.below old hold
  keys a ha b hb hrequester hkey := by
    rw [hjobs] at ha hb
    obtain ⟨a', ha', rfl⟩ := mem_map.mp ha
    obtain ⟨b', hb', rfl⟩ := mem_map.mp hb
    rw [(hf a' ha').requester, (hf b' hb').requester] at hrequester
    rw [(hf a' ha').key, (hf b' hb').key] at hkey
    rw [(hf a' ha').id, (hf b' hb').id]
    exact h.keys a' ha' b' hb' hrequester hkey

/-- A new job under a free key. -/
theorem State.Keyed.insert (h : s.Keyed) {row : ℕ → Job} (hid : (row s.nextJob).id = s.nextJob)
    (hfree : s.prior? (row s.nextJob).requester (row s.nextJob).key = none) :
    (s.insert row).Keyed where
  ids := by
    rw [insert_jobs, map_append, map_singleton, ← concat_eq_append]
    refine h.ids.concat ?_
    intro hmem
    obtain ⟨job, hjob, hsame⟩ := mem_map.mp hmem
    have hlt := h.below job hjob
    omega
  below job hjob := by
    rw [insert_jobs] at hjob
    rw [insert_nextJob]
    rcases mem_append.mp hjob with hjob | hjob
    · exact Nat.lt_succ_of_lt (h.below job hjob)
    · rw [mem_singleton.mp hjob, hid]
      exact Nat.lt_succ_self _
  keys a ha b hb hrequester hkey := by
    rw [insert_jobs] at ha hb
    rcases mem_append.mp ha with ha | ha <;> rcases mem_append.mp hb with hb | hb
    · exact h.keys a ha b hb hrequester hkey
    · rw [mem_singleton.mp hb] at hrequester hkey
      exact absurd ⟨hrequester, hkey⟩ (prior?_eq_none hfree ha)
    · rw [mem_singleton.mp ha] at hrequester hkey
      exact absurd ⟨hrequester.symm, hkey.symm⟩ (prior?_eq_none hfree hb)
    · rw [mem_singleton.mp ha, mem_singleton.mp hb]

/-- Each job is still there, in a later form. -/
def Later (s s' : State) : Prop := ∀ job ∈ s.jobs, ∃ job' ∈ s'.jobs, job.Same job'

theorem Later.refl (s : State) : Later s s := fun job hjob => ⟨job, hjob, .refl job⟩

theorem Later.trans {s₁ s₂ s₃ : State} (h : Later s₁ s₂) (h' : Later s₂ s₃) : Later s₁ s₃ := by
  intro job hjob
  obtain ⟨job', hjob', hsame⟩ := h job hjob
  obtain ⟨job'', hjob'', hsame'⟩ := h' job' hjob'
  exact ⟨job'', hjob'', hsame.trans hsame'⟩

/-- The rows change, and each of them into a later form. -/
theorem keyed_map (h : s.Keyed) {f : Job → Job} (hjobs : s'.jobs = s.jobs.map f)
    (hnext : s'.nextJob = s.nextJob) (hf : ∀ job ∈ s.jobs, job.Same (f job)) :
    s'.Keyed ∧ Later s s' := by
  refine ⟨h.map hjobs hnext hf, ?_⟩
  intro job hjob
  refine ⟨f job, ?_, hf job hjob⟩
  rw [hjobs]
  exact mem_map_of_mem hjob

/-- A completed draft takes the place of the draft. -/
theorem replace_same (h : s.Keyed) {draft new : Job} (hdraft : draft ∈ s.jobs)
    (hid : new.id = draft.id) (hrequester : new.requester = draft.requester)
    (hkey : new.key = draft.key) (hcompleted : new.draftCompletion.isSome = true) :
    ∀ job ∈ s.jobs, job.Same (if job.id = new.id then new else job) := by
  intro job hjob
  by_cases hsame : job.id = new.id
  · rw [if_pos hsame, h.unique hjob hdraft (hsame.trans hid)]
    refine ⟨hid, hrequester, hkey, ?_⟩
    intro hnone
    rw [hnone] at hcompleted
    cases hcompleted
  · rw [if_neg hsame]
    exact .refl job

end Rows

/-! ## Runs -/

/-- Every action keeps the keys and the jobs. -/
theorem call_keyed (c : Call) {s : State} (h : s.Keyed) :
    (call c s).2.Keyed ∧ Later s (call c s).2 := by
  cases c with
  | create w actor r draft allowBlocked =>
    rw [call]
    cases hcreate : createJob w s actor r draft allowBlocked with
    | error refusal => exact ⟨h, .refl s⟩
    | ok made =>
      obtain ⟨id, s'⟩ := made
      simp only [transaction]
      rcases createJob_cases hcreate with ⟨prior, -, -, -, rfl⟩ | ⟨-, existing, -, -, -, -, rfl⟩ |
        ⟨hfree, -, status, -, rfl⟩
      · exact ⟨h, .refl _⟩
      · exact ⟨h, .refl _⟩
      · refine ⟨h.insert rfl hfree, ?_⟩
        intro job hjob
        refine ⟨job, ?_, .refl job⟩
        rw [insert_jobs]
        exact mem_append_left _ hjob
  | completeDraft w actor id expectedVersion repository baseRef =>
    rw [call]
    cases hcomplete : completeDraft w s actor id expectedVersion repository baseRef with
    | error refusal => exact ⟨h, .refl s⟩
    | ok made =>
      obtain ⟨result, s'⟩ := made
      rw [transaction]
      rcases completeDraft_cases hcomplete with rfl | ⟨draft, new, hdraft, -, -, hid, hrequester,
        -, -, -, hkey, hcompleted, -, -, -, rfl⟩
      · exact ⟨h, .refl _⟩
      · exact keyed_map h (s.replace_jobs new) (by simp [State.acceptReceipts, State.replace])
          (replace_same h (job?_eq_some hdraft).1 hid hrequester hkey hcompleted)
  | live | deleteMessage =>
    refine keyed_map h rfl rfl ?_
    intro job _
    split
    · exact ⟨rfl, rfl, rfl, fun hnone => ⟨hnone, rfl⟩⟩
    · exact .refl job

/-- What a part of a run does to the rows. -/
def Grows (s s' : State) : Prop := s.Keyed → s'.Keyed ∧ Later s s'

theorem Grows.trans {s₁ s₂ s₃ : State} (h : Grows s₁ s₂) (h' : Grows s₂ s₃) : Grows s₁ s₃ := by
  intro hs
  obtain ⟨hs₂, hlater⟩ := h hs
  obtain ⟨hs₃, hlater'⟩ := h' hs₂
  exact ⟨hs₃, hlater.trans hlater'⟩

theorem start_keyed : start.Keyed :=
  ⟨nodup_nil, fun job hjob => (by cases hjob), fun a ha => (by cases ha)⟩

/-- What a repeated `create_job` answers under a key that holds `job`. -/
def repeated (w : World) (s : State) (actor : ℕ) (r : Request) (job : Job) :
    Except Refusal ℕ :=
  match firstRefusal (requestChecks w s actor r ++
    [(w.busy, .busy), (!w.active actor, .missing)]) with
  | some refusal => .error refusal
  | none =>
    if !w.jobAccess actor job then .error .denied
    else if job.digest ≠ r.payload then .error (.invalid "Idempotency conflict.")
    else .ok job.id

variable {draft allowBlocked : Bool}

/-- The answer of `create_job` when the key holds a job afterwards. -/
theorem createJob_keyed {w : World} {s s' : State} {actor id : ℕ} {r : Request}
    (h : createJob w s actor r draft allowBlocked = .ok (id, s'))
    (hkeyed : (s'.prior? actor r.key).isSome = true) :
    ∃ job ∈ s'.jobs, job.id = id ∧ job.requester = actor ∧ job.key = r.key ∧
      job.digest = r.payload := by
  rcases createJob_cases h with ⟨prior, hprior, hdigest, rfl, rfl⟩ |
    ⟨hfree, existing, -, -, -, -, rfl⟩ | ⟨-, -, status, rfl, rfl⟩
  · obtain ⟨hmem, hrequester, hkey⟩ := prior?_eq_some hprior
    exact ⟨prior, hmem, rfl, hrequester, hkey, hdigest⟩
  · rw [hfree] at hkeyed
    cases hkeyed
  · refine ⟨r.row s.nextJob actor status, ?_, rfl, rfl, rfl, rfl⟩
    rw [insert_jobs]
    exact mem_append_right _ (mem_singleton_self _)

theorem call_create {s : State} {w : World} {actor : ℕ} {r : Request}
    {job : Job} (hprior : s.prior? actor r.key = some job) :
    call (.create w actor r draft allowBlocked) s = (repeated w s actor r job, s) := by
  simp only [call, createJob_prior hprior, repeated]
  split
  · rfl
  split
  · rfl
  split
  · rfl
  · rfl

namespace Example

def repository : Repository := ⟨1, ["main"], ["unit"]⟩

def profile : Profile where
  id := 1
  defaultMode := .code
  repository := some repository
  enabled := true
  codeReady := true
  actions := ["context.read", "repository.read", "repository.edit", "checks.run"]

/-- Everything is allowed, and all profiles are ready. -/
def world : World where
  busy := false
  active := fun _ => true
  jobAccess := fun _ _ => true
  control := fun _ _ => true
  settings := some ⟨10, 10⟩
  profiles := [profile]
  ready := fun _ => true
  repository := fun _ => some repository
  access := fun _ _ _ _ _ => true
  audience := fun _ => none
  references := fun _ => none

/-- A request for code that has no repository yet. -/
def request : Request where
  profile := 1
  source := 5
  request := "Fix the build"
  key := 7
  kind := .code
  target := .patch
  repository := none
  baseRef := ""
  contextMessages := []
  contextAttachments := []
  trigger := .mention
  follows := none

def creation : Call := .create world 2 request true false

end Example

/-- What does not change of the messages, and of the agents. -/
structure Chat where
  sender : ℕ → ℕ
  senderIsBot : ℕ → Bool
  /-- `personal_mention_user_ids`, as the renderer found them. -/
  mentions : ℕ → List ℕ
  /-- The members, if the message is in a direct message group. -/
  group : ℕ → Option (List ℕ)
  /-- `bot_user_id` of a profile. -/
  bot : ℕ → ℕ
  /-- `uuid5(NAMESPACE_URL, f"agent-message:{message}:{profile}:{trigger_kind}")`. -/
  uuid5 : ℕ → ℕ → Trigger → Uuid

namespace Chat

variable (chat : Chat)

/-- The profiles that a message mentions. -/
def mentioned (w : World) (m : ℕ) : List Profile :=
  w.profiles.filter fun profile => (chat.mentions m).contains (chat.bot profile.id)

/-- The profiles that a direct message to one agent is for. -/
def addressed (w : World) (m : ℕ) : List Profile :=
  match chat.group m with
  | none => []
  | some members =>
    if members.dedup.length ≠ 2 || !members.contains (chat.sender m) then []
    else w.profiles.filter fun profile =>
      members.contains (chat.bot profile.id) && chat.bot profile.id != chat.sender m

/-- `_targets`: each profile once, as a mention if it is mentioned. -/
def targets (w : World) (m : ℕ) : List (Profile × Trigger) :=
  ((chat.mentioned w m).map fun profile => (profile, .mention)) ++
    (((chat.addressed w m).filter fun profile =>
      !(chat.mentions m).contains (chat.bot profile.id)).map fun profile => (profile, .directMessage))

end Chat

/-! ## `admit_message` -/

variable (profile : Profile)

/-- `complete` of `coding_choices`. -/
def codingComplete : Bool :=
  match profile.repository with
  | some repository => repository.allowedRefs.length = 1 && repository.requiredChecks ≠ []
  | none => false

/-- `base_ref` of `coding_choices`. -/
def codingRef : String :=
  if codingComplete profile then
    (profile.repository.bind fun repository => repository.allowedRefs.head?).getD ""
  else ""

variable (chat : Chat)

/-- The request that `admit_message` makes for a target. -/
def dispatchRequest (m : ℕ) (content : String) (profile : Profile)
    (trigger : Trigger) : Request where
  profile := profile.id
  source := m
  request := content
  key := chat.uuid5 m profile.id trigger
  kind := profile.defaultMode
  target := if profile.defaultMode = .code then .patch else .answer
  repository := if profile.defaultMode = .code then profile.repository else none
  baseRef := if profile.defaultMode = .code then codingRef profile else ""
  contextMessages := []
  contextAttachments := []
  trigger := trigger
  follows := none

/-- The job of a target is a draft until it is configured. -/
def needsInput : Bool := profile.defaultMode = .code && !codingComplete profile

/-- The receipt of a message, a profile and a trigger. -/
def Receipt.isFor (m profile : ℕ) (trigger : Trigger) (receipt : Receipt) : Bool :=
  receipt.source = some m && receipt.profile = profile && receipt.trigger = trigger

/-- `_receipt`: the receipt that is there already is kept. -/
def State.receipt (m : ℕ) (new : Receipt) : State :=
  if s.receipts.any (Receipt.isFor m new.profile new.trigger) then s
  else { s with receipts := s.receipts ++ [new] }

/-- The reason of a rejection; another error is not caught. -/
def rejection : Refusal → Option String
  | .busy => none
  | .missing => none
  | .denied => some (if profile.defaultMode = .manage then "command_not_allowed" else "not_shared")
  | .invalid text =>
    some (if text = "Agent queue is full." then "queue_full" else "admission_denied")
  | .noSettings => some "admission_denied"

/-- The reason of an accepted job that does not run at once; `runner` is the state of the device,
as far as it holds the job up. -/
def waitReason (id : ℕ) (runner : String) : String :=
  match s.job? id with
  | some job => if job.blockedReason ≠ "" then job.blockedReason else runner
  | none => runner

/-- One turn of the loop of `admit_message`. -/
def admitTarget (w : World) (m : ℕ) (content runner : String) (s : State)
    (target : Profile × Trigger) : Except Refusal State :=
  let profile := target.1
  let receipt : Decision → String → Option ℕ → Receipt :=
    fun decision reason job =>
      ⟨some m, profile.id, target.2, chat.sender m, decision, reason, job⟩
  match createJob w s (chat.sender m) (dispatchRequest chat m content profile target.2)
    (needsInput profile) true with
  | .error refusal =>
    match rejection profile refusal with
    | none => .error refusal
    | some reason => .ok (s.receipt m (receipt .rejected reason none))
  | .ok (id, s') =>
    if needsInput profile then
      .ok (s'.receipt m (receipt .needsInput "configuration_needed" (some id)))
    else .ok (s'.receipt m (receipt .accepted (waitReason s' id runner) (some id)))

/-- The loop of `admit_message`. -/
def admitTargets (chat : Chat) (w : World) (m : ℕ) (content runner : String) :
    List (Profile × Trigger) → State → Except Refusal State
  | [], s => .ok s
  | target :: rest, s =>
    match admitTarget chat w m content runner s target with
    | .error refusal => .error refusal
    | .ok s' => admitTargets chat w m content runner rest s'

def admitMessage (w : World) (m : ℕ) (content runner : String) (s : State) : Except Refusal State :=
  if chat.senderIsBot m || chat.targets w m = [] then .ok s
  else if w.busy then .error .busy
  else admitTargets chat w m content runner (chat.targets w m) s

/-! ## `post_job_notice` -/

/-- `sent` is that the audience, the message and the send raise nothing. -/
def postJobNotice (key : String) (busy sent : Bool) : Except Refusal (Bool × State) :=
  if busy then .error .busy
  else if s.outbox.contains key then .ok (false, s)
  else if !sent then .error .missing
  else .ok (true, { s with notices := s.notices ++ [key], outbox := s.outbox ++ [key] })

/-! ## Runs -/

inductive Move where
  /-- A delivery of a message; `commits` is that the transaction around it does. -/
  | deliver (w : World) (m : ℕ) (content runner : String) (commits : Bool)
  /-- The API: the request names no trigger, draft or repair. -/
  | request (w : World) (actor : ℕ) (r : Request)
  | completeDraft (w : World) (actor id expectedVersion repository : ℕ) (baseRef : String)
  | live (id : ℕ) (status : JobState) (blockedReason : String) (version : ℕ)
  | deleteMessage (message : ℕ)
  | notice (key : String) (busy sent : Bool)

/-- Whether the delivery ended and was committed, and the rows. -/
def step : Move → State → Bool × State
  | .deliver w m content runner commits, s =>
    if s.deleted.contains m || !commits then (false, s)
    else match admitMessage chat w m content runner s with
      | .error _ => (false, s)
      | .ok s' => (true, s')
  | .request w actor r, s =>
    (true, (call (.create w actor { r with trigger := .manual } false false) s).2)
  | .completeDraft w actor id expectedVersion repository baseRef, s =>
    (true, (call (.completeDraft w actor id expectedVersion repository baseRef) s).2)
  | .live id status blockedReason version, s => (true, s.live id status blockedReason version)
  | .deleteMessage message, s => (true, s.deleteMessage message)
  | .notice key busy sent, s =>
    match postJobNotice s key busy sent with
    | .error _ => (false, s)
    | .ok (posted, s') => (posted, s')

end GrowTeam.Dispatch
