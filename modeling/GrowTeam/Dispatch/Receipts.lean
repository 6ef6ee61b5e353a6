/-
# Each target has one receipt, and each notice is posted once

The job of a message and the receipt that names it are made in one turn of the loop of
`admit_message`.  A rejection is a receipt without a job, and a later delivery keeps it: should
`create_job` admit the target by then, the job is made all the same.  `Settled` says that a
delivery does not come to this; in the runs of such deliveries `Rows` holds.
-/
import GrowTeam.Dispatch.Idempotency
import Mathlib.Data.List.Pairwise

namespace GrowTeam.Dispatch

open History List State Receipt

variable {chat : Chat}

/-! ## What holds of the rows -/

/-- The trigger by which a message reaches a profile. -/
def Chat.trigger (chat : Chat) (m profile : ℕ) : Trigger :=
  if (chat.mentions m).contains (chat.bot profile) then .mention else .directMessage

/-- The two receipts are of one message, one profile and one trigger. -/
def Receipt.Twin (a b : Receipt) : Prop :=
  a.source.isSome = true ∧ b.source = a.source ∧ b.profile = a.profile ∧ b.trigger = a.trigger

/-- The job is that of a message, a profile and a trigger. -/
def Job.IsFor (job : Job) (m profile : ℕ) (trigger : Trigger) : Prop :=
  job.source = some m ∧ job.profile = profile ∧ job.trigger = trigger

/-- A receipt names the job of its message, unless it is a rejection. -/
def Receipt.Backed (jobs : List Job) (r : Receipt) : Prop :=
  ∀ m, r.source = some m → (r.decision = .rejected → r.job = none) ∧
    (r.decision ≠ .rejected → ∃ job ∈ jobs, r.job = some job.id ∧ job.IsFor m r.profile r.trigger)

/-- A job that a message triggered has a receipt. -/
def Job.Owned (receipts : List Receipt) (job : Job) : Prop :=
  ∀ m, job.source = some m → job.trigger ≠ .manual →
    ∃ r ∈ receipts, r.isFor m job.profile job.trigger = true ∧ r.job = some job.id

/-- The columns of a job are those of its payload. -/
def Job.Hashed (deleted : List ℕ) (job : Job) : Prop :=
  job.digest.profile = job.profile ∧ job.digest.trigger = job.trigger ∧
    (job.source = some job.digest.source ∨ (job.source = none ∧ job.digest.source ∈ deleted))

theorem Receipt.Twin.symm {a b : Receipt} (h : a.Twin b) : b.Twin a := by
  obtain ⟨hsource, hsame, hprofile, htrigger⟩ := h
  exact ⟨hsame ▸ hsource, hsame.symm, hprofile.symm, htrigger.symm⟩

instance Receipt.symmTwin : Std.Symm fun a b : Receipt => ¬ a.Twin b :=
  ⟨fun _ _ hnot htwin => hnot htwin.symm⟩

structure Rows (chat : Chat) (s : State) : Prop where
  keyed : s.Keyed
  hashed : ∀ job ∈ s.jobs, job.Hashed s.deleted
  triggers : ∀ a ∈ s.jobs, ∀ b ∈ s.jobs, ∀ m profile trigger, a.IsFor m profile trigger →
    b.IsFor m profile trigger → a.id = b.id
  single : s.receipts.Pairwise fun a b => ¬ a.Twin b
  kind : ∀ r ∈ s.receipts, ∀ m, r.source = some m → r.trigger = chat.trigger m r.profile
  backed : ∀ r ∈ s.receipts, r.Backed s.jobs
  posted : s.notices.Nodup ∧ ∀ key ∈ s.notices, key ∈ s.outbox

/-- As well, each job that a message triggered has its receipt. -/
structure Held (chat : Chat) (s : State) : Prop extends Rows chat s where
  owned : ∀ job ∈ s.jobs, job.Owned s.receipts

theorem trigger_ne_manual (chat : Chat) (m profile : ℕ) : chat.trigger m profile ≠ .manual := by
  unfold Chat.trigger
  split <;> exact Trigger.noConfusion

variable {m : ℕ}

theorem Receipt.isFor_iff {profile : ℕ} {trigger : Trigger} {r : Receipt} :
    r.isFor m profile trigger = true ↔
      r.source = some m ∧ r.profile = profile ∧ r.trigger = trigger := by
  simp [isFor, and_assoc]

section Parts

variable {s s' : State}

/-- What stands in the notices and the outbox grows together. -/
theorem posted_mono (h : s.notices.Nodup ∧ ∀ key ∈ s.notices, key ∈ s.outbox)
    (hnotices : s'.notices = s.notices) (houtbox : ∀ key ∈ s.outbox, key ∈ s'.outbox) :
    s'.notices.Nodup ∧ ∀ key ∈ s'.notices, key ∈ s'.outbox := by
  rw [hnotices]
  exact ⟨h.1, fun key hkey => houtbox key (h.2 key hkey)⟩

theorem wake_outbox (s : State) (id : ℕ) (status : JobState) :
    ∀ key ∈ s.outbox, key ∈ (s.wake id status).outbox := by
  intro key hkey
  unfold State.wake
  split
  · exact mem_append_left _ hkey
  · exact hkey

/-- One receipt of a message and a profile is the only one. -/
theorem Rows.unique (h : Rows chat s) {a b : Receipt} (ha : a ∈ s.receipts) (hb : b ∈ s.receipts)
    (hsa : a.source = some m) (hsb : b.source = some m) (hprofile : a.profile = b.profile) :
    a = b := by
  have htrigger : a.trigger = b.trigger := by
    rw [h.kind a ha m hsa, h.kind b hb m hsb, hprofile]
  by_contra hne
  have htwin : a.Twin b := ⟨by rw [hsa]; rfl, hsb.trans hsa.symm, hprofile.symm, htrigger.symm⟩
  exact h.single.forall ha hb hne htwin

/-- There is at most one receipt of a message and a profile. -/
theorem Rows.atMostOne (h : Rows chat s) (m profile : ℕ) :
    (s.receipts.filter fun r => r.source = some m ∧ r.profile = profile).length ≤ 1 := by
  have hsingle := h.single.filter fun r => decide (r.source = some m ∧ r.profile = profile)
  cases hfilter : s.receipts.filter fun r => r.source = some m ∧ r.profile = profile with
  | nil => exact Nat.zero_le 1
  | cons a rest =>
    cases rest with
    | nil => exact Nat.le_refl 1
    | cons b rest =>
      have hmem : ∀ r ∈ [a, b], r ∈ s.receipts ∧ r.source = some m ∧ r.profile = profile := by
        intro r hr
        have hr' : r ∈ s.receipts.filter fun r => r.source = some m ∧ r.profile = profile := by
          rw [hfilter]
          exact mem_of_mem_take (i := 2) hr
        simpa using hr'
      obtain ⟨ha, hsa, hpa⟩ := hmem a (by simp)
      obtain ⟨hb, hsb, hpb⟩ := hmem b (by simp)
      rw [hfilter] at hsingle
      have htwin : a.Twin b := ⟨by rw [hsa]; rfl, hsb.trans hsa.symm, hpb.trans hpa.symm, by
        rw [h.kind a ha m hsa, h.kind b hb m hsb, hpa, hpb]⟩
      exact absurd htwin ((pairwise_cons.mp hsingle).1 b mem_cons_self)

/-! ## Changes of the rows -/

/-- The jobs change, but not what they are for. -/
theorem Held.mapJobs (h : Held chat s) {f : Job → Job} (hjobs : s'.jobs = s.jobs.map f)
    (hkeyed : s'.Keyed) (hreceipts : s'.receipts = s.receipts) (hdeleted : s'.deleted = s.deleted)
    (hnotices : s'.notices = s.notices) (houtbox : ∀ key ∈ s.outbox, key ∈ s'.outbox)
    (hf : ∀ job ∈ s.jobs, (f job).id = job.id ∧ (f job).source = job.source ∧
      (f job).profile = job.profile ∧ (f job).trigger = job.trigger ∧
      (f job).Hashed s.deleted) : Held chat s' where
  keyed := hkeyed
  hashed job hjob := by
    rw [hjobs] at hjob
    obtain ⟨old, hold, rfl⟩ := mem_map.mp hjob
    rw [hdeleted]
    exact (hf old hold).2.2.2.2
  triggers a ha b hb m profile trigger hfora hforb := by
    rw [hjobs] at ha hb
    obtain ⟨a', ha', rfl⟩ := mem_map.mp ha
    obtain ⟨b', hb', rfl⟩ := mem_map.mp hb
    obtain ⟨hida, hsa, hpa, hta, -⟩ := hf a' ha'
    obtain ⟨hidb, hsb, hpb, htb, -⟩ := hf b' hb'
    rw [Job.IsFor, hsa, hpa, hta] at hfora
    rw [Job.IsFor, hsb, hpb, htb] at hforb
    rw [hida, hidb]
    exact h.triggers a' ha' b' hb' m profile trigger hfora hforb
  single := by
    rw [hreceipts]
    exact h.single
  kind := by
    rw [hreceipts]
    exact h.kind
  backed r hr m hsource := by
    rw [hreceipts] at hr
    obtain ⟨hrejected, hother⟩ := h.backed r hr m hsource
    refine ⟨hrejected, ?_⟩
    intro hdecision
    obtain ⟨job, hjob, hid, hfor⟩ := hother hdecision
    obtain ⟨hid', hs, hp, ht, -⟩ := hf job hjob
    refine ⟨f job, ?_, by rw [hid', hid], ?_⟩
    · rw [hjobs]
      exact mem_map_of_mem hjob
    · rw [Job.IsFor, hs, hp, ht]
      exact hfor
  owned job hjob m hsource hmanual := by
    rw [hjobs] at hjob
    obtain ⟨old, hold, rfl⟩ := mem_map.mp hjob
    obtain ⟨hid, hs, hp, ht, -⟩ := hf old hold
    rw [hs] at hsource
    rw [ht] at hmanual
    rw [hreceipts, hid, hp, ht]
    exact h.owned old hold m hsource hmanual
  posted := posted_mono h.posted hnotices houtbox

/-- The receipts of a completed draft are accepted. -/
theorem Held.acceptReceipts (h : Held chat s) (id : ℕ) : Held chat (s.acceptReceipts id) := { h with
  keyed := ⟨h.keyed.ids, h.keyed.below, h.keyed.keys⟩
  single := by
    refine pairwise_map.mpr (h.single.imp ?_)
    intro a b hnot htwin
    apply hnot
    revert htwin
    split <;> split <;> exact fun htwin => htwin
  kind r hr m hsource := by
    obtain ⟨old, hold, rfl⟩ := mem_map.mp hr
    revert hsource
    split <;> exact h.kind old hold m
  backed r hr m hsource := by
    obtain ⟨old, hold, rfl⟩ := mem_map.mp hr
    by_cases hjob : old.job = some id
    · rw [if_pos hjob] at hsource ⊢
      obtain ⟨hrejected, hother⟩ := h.backed old hold m hsource
      refine ⟨fun hdecision => (by cases hdecision), fun _ => hother ?_⟩
      intro hdecision
      rw [hrejected hdecision] at hjob
      cases hjob
    · rw [if_neg hjob] at hsource ⊢
      exact h.backed old hold m hsource
  owned job hjob m hsource hmanual := by
    obtain ⟨r, hr, hfor, hid⟩ := h.owned job hjob m hsource hmanual
    refine ⟨_, mem_map_of_mem hr, ?_, ?_⟩
    · split <;> exact hfor
    · split <;> exact hid }

variable {job : Job} {m m' : ℕ} {r : Receipt}

/-- A job with a message is one that a deletion left alone. -/
theorem deleteMessage_job (hjob : job ∈ (s.deleteMessage m).jobs)
    (hsource : job.source = some m') : job ∈ s.jobs ∧ m' ≠ m := by
  obtain ⟨old, hold, rfl⟩ := mem_map.mp hjob
  by_cases hmessage : old.source = some m
  · rw [if_pos hmessage] at hsource
    cases hsource
  · rw [if_neg hmessage] at hsource ⊢
    refine ⟨hold, ?_⟩
    rintro rfl
    exact hmessage hsource

theorem mem_deleteMessage (hjob : job ∈ s.jobs)
    (hsource : job.source = some m') (hne : m' ≠ m) : job ∈ (s.deleteMessage m).jobs := by
  refine mem_map.mpr ⟨job, hjob, if_neg ?_⟩
  rw [hsource]
  exact fun hsame => hne (Option.some.inj hsame)

theorem deleteMessage_receipt (hr : r ∈ (s.deleteMessage m).receipts)
    (hsource : r.source = some m') : r ∈ s.receipts ∧ m' ≠ m := by
  obtain ⟨old, hold, rfl⟩ := mem_map.mp hr
  by_cases hmessage : old.source = some m
  · rw [if_pos hmessage] at hsource
    cases hsource
  · rw [if_neg hmessage] at hsource ⊢
    refine ⟨hold, ?_⟩
    rintro rfl
    exact hmessage hsource

theorem mem_deleteMessage_receipt (hr : r ∈ s.receipts)
    (hsource : r.source = some m') (hne : m' ≠ m) : r ∈ (s.deleteMessage m).receipts := by
  refine mem_map.mpr ⟨r, hr, if_neg ?_⟩
  rw [hsource]
  exact fun hsame => hne (Option.some.inj hsame)

/-- A message is deleted. -/
theorem Held.deleteMessage (h : Held chat s) (m : ℕ) : Held chat (s.deleteMessage m) where
  keyed := (call_keyed (.deleteMessage m) h.keyed).1
  hashed job hjob := by
    obtain ⟨old, hold, rfl⟩ := mem_map.mp hjob
    obtain ⟨hprofile, htrigger, hsource⟩ := h.hashed old hold
    split
    · next hmessage =>
      refine ⟨hprofile, htrigger, .inr ⟨rfl, mem_append_right _ ?_⟩⟩
      rcases hsource with hsame | ⟨hnone, -⟩
      · rw [hmessage] at hsame
        exact mem_singleton.mpr (Option.some.inj hsame).symm
      · rw [hmessage] at hnone
        cases hnone
    · refine ⟨hprofile, htrigger, hsource.imp_right fun hgone => ?_⟩
      exact ⟨hgone.1, mem_append_left _ hgone.2⟩
  triggers a ha b hb m' profile trigger hfora hforb :=
    h.triggers a (deleteMessage_job ha hfora.1).1 b (deleteMessage_job hb hforb.1).1 m' profile
      trigger hfora hforb
  single := by
    refine pairwise_map.mpr (h.single.imp ?_)
    intro a b hnot htwin
    apply hnot
    obtain ⟨hsome, hsame, hprofile, htrigger⟩ := htwin
    by_cases ha : a.source = some m
    · rw [if_pos ha] at hsome
      cases hsome
    · rw [if_neg ha] at hsome hsame hprofile htrigger
      by_cases hb : b.source = some m
      · rw [if_pos hb] at hsame
        rw [← hsame] at hsome
        cases hsome
      · rw [if_neg hb] at hsame hprofile htrigger
        exact ⟨hsome, hsame, hprofile, htrigger⟩
  kind r hr m' hsource := h.kind r (deleteMessage_receipt hr hsource).1 m' hsource
  backed r hr m' hsource := by
    obtain ⟨hold, hne⟩ := deleteMessage_receipt hr hsource
    obtain ⟨hrejected, hother⟩ := h.backed r hold m' hsource
    refine ⟨hrejected, ?_⟩
    intro hdecision
    obtain ⟨job, hjob, hid, hfor⟩ := hother hdecision
    exact ⟨job, mem_deleteMessage hjob hfor.1 hne, hid, hfor⟩
  owned job hjob m' hsource hmanual := by
    obtain ⟨hold, hne⟩ := deleteMessage_job hjob hsource
    obtain ⟨r, hr, hfor, hid⟩ := h.owned job hold m' hsource hmanual
    exact ⟨r, mem_deleteMessage_receipt hr (isFor_iff.mp hfor).1 hne, hfor, hid⟩
  posted := h.posted

/-- A receipt is added for a message, a profile and a trigger that have none. -/
theorem Rows.addReceipt (h : Rows chat s) {new : Receipt} (hsource : new.source = some m)
    (hkind : new.trigger = chat.trigger m new.profile) (hbacked : new.Backed s.jobs)
    (hnone : ∀ r ∈ s.receipts, r.isFor m new.profile new.trigger = false) :
    Rows chat { s with receipts := s.receipts ++ [new] } := { h with
  keyed := ⟨h.keyed.ids, h.keyed.below, h.keyed.keys⟩
  single := by
    refine pairwise_append.mpr ⟨h.single, pairwise_singleton _ _, ?_⟩
    intro a ha b hb htwin
    rw [mem_singleton.mp hb] at htwin
    have hfor : a.isFor m new.profile new.trigger = true :=
      isFor_iff.mpr ⟨htwin.2.1.symm.trans hsource, htwin.2.2.1.symm, htwin.2.2.2.symm⟩
    rw [hnone a ha] at hfor
    cases hfor
  kind r hr m' hm' := by
    rcases mem_append.mp hr with hr | hr
    · exact h.kind r hr m' hm'
    · rw [mem_singleton.mp hr, hsource] at hm'
      rw [mem_singleton.mp hr, ← Option.some.inj hm']
      exact hkind
  backed r hr := by
    rcases mem_append.mp hr with hr | hr
    · exact h.backed r hr
    · rw [mem_singleton.mp hr]
      exact hbacked }

@[simp] theorem insert_receipts (s : State) (row : ℕ → Job) :
    (s.insert row).receipts = s.receipts := by
  rw [State.insert, State.wake]
  split <;> rfl

@[simp] theorem insert_deleted (s : State) (row : ℕ → Job) :
    (s.insert row).deleted = s.deleted := by
  rw [State.insert, State.wake]
  split <;> rfl

@[simp] theorem insert_notices (s : State) (row : ℕ → Job) :
    (s.insert row).notices = s.notices := by
  rw [State.insert, State.wake]
  split <;> rfl

theorem Receipt.Backed.mono {jobs jobs' : List Job} (h : r.Backed jobs)
    (hjobs : ∀ job ∈ jobs, job ∈ jobs') : r.Backed jobs' := by
  intro m hsource
  obtain ⟨hrejected, hother⟩ := h m hsource
  refine ⟨hrejected, ?_⟩
  intro hdecision
  obtain ⟨job, hjob, hfor⟩ := hother hdecision
  exact ⟨job, hjobs job hjob, hfor⟩

theorem Job.Owned.mono {receipts receipts' : List Receipt} (h : job.Owned receipts)
    (hreceipts : ∀ r ∈ receipts, r ∈ receipts') : job.Owned receipts' := by
  intro m hsource hmanual
  obtain ⟨r, hr, hfor⟩ := h m hsource hmanual
  exact ⟨r, hreceipts r hr, hfor⟩

/-- A new job whose message has no job of that profile and trigger. -/
theorem Rows.addJob (h : Rows chat s) {row : ℕ → Job} (hkeyed : (s.insert row).Keyed)
    (hhashed : (row s.nextJob).Hashed s.deleted)
    (hfree : ∀ job ∈ s.jobs, ∀ m profile trigger, job.IsFor m profile trigger →
      ¬ (row s.nextJob).IsFor m profile trigger) : Rows chat (s.insert row) where
  keyed := hkeyed
  hashed job hjob := by
    rw [insert_jobs] at hjob
    rw [insert_deleted]
    rcases mem_append.mp hjob with hjob | hjob
    · exact h.hashed job hjob
    · rw [mem_singleton.mp hjob]
      exact hhashed
  triggers a ha b hb m profile trigger hfora hforb := by
    rw [insert_jobs] at ha hb
    rcases mem_append.mp ha with ha | ha <;> rcases mem_append.mp hb with hb | hb
    · exact h.triggers a ha b hb m profile trigger hfora hforb
    · rw [mem_singleton.mp hb] at hforb
      exact absurd hforb (hfree a ha m profile trigger hfora)
    · rw [mem_singleton.mp ha] at hfora
      exact absurd hfora (hfree b hb m profile trigger hforb)
    · rw [mem_singleton.mp ha, mem_singleton.mp hb]
  single := by
    rw [insert_receipts]
    exact h.single
  kind := by
    rw [insert_receipts]
    exact h.kind
  backed r hr := by
    rw [insert_receipts] at hr
    refine (h.backed r hr).mono ?_
    intro job hjob
    rw [insert_jobs]
    exact mem_append_left _ hjob
  posted := posted_mono h.posted (insert_notices s row) fun key hkey =>
    wake_outbox _ _ _ key hkey

theorem receipt_cases (s : State) (m : ℕ) (new : Receipt) :
    ((∃ r ∈ s.receipts, r.isFor m new.profile new.trigger = true) ∧ s.receipt m new = s) ∨
      ((∀ r ∈ s.receipts, r.isFor m new.profile new.trigger = false) ∧
        s.receipt m new = { s with receipts := s.receipts ++ [new] }) := by
  unfold State.receipt
  split
  · next hany => exact .inl ⟨any_eq_true.mp hany, rfl⟩
  · next hnone =>
    refine .inr ⟨?_, rfl⟩
    simpa using hnone

end Parts

/-! ## A delivery -/

section Deliveries

variable {s s' : State} {w : World} {m : ℕ} {content runner : String}

/-- The message was rejected for the target. -/
def Rejected (s : State) (m : ℕ) (target : Profile × Trigger) : Prop :=
  ∃ r ∈ s.receipts, r.isFor m target.1.id target.2 = true ∧ r.decision = .rejected

/-- `create_job` for a target of the message. -/
def createTarget (chat : Chat) (w : World) (m : ℕ) (content : String) (s : State)
    (target : Profile × Trigger) : Except Refusal (ℕ × State) :=
  createJob w s (chat.sender m) (dispatchRequest chat m content target.1 target.2)
    (needsInput target.1) true

/-- A target that was rejected is refused again, by `create_job` at its turn. -/
def Settled (chat : Chat) (w : World) (m : ℕ) (content runner : String) :
    List (Profile × Trigger) → State → Prop
  | [], _ => True
  | target :: rest, s =>
    (Rejected s m target → ∃ refusal, createTarget chat w m content s target = .error refusal) ∧
      ∀ s', admitTarget chat w m content runner s target = .ok s' →
        Settled chat w m content runner rest s'

/-- What a delivery does for one target. -/
structure Served (chat : Chat) (m : ℕ) (target : Profile × Trigger) (s s' : State) : Prop where
  held : Held chat s'
  deleted : s'.deleted = s.deleted
  receipt : ∃ r ∈ s'.receipts, r.isFor m target.1.id target.2 = true
  kept : ∀ r ∈ s.receipts, r ∈ s'.receipts

variable {target : Profile × Trigger}

theorem targets_trigger (h : target ∈ chat.targets w m) :
    target.2 = chat.trigger m target.1.id := by
  rcases mem_append.mp h with h | h
  · obtain ⟨profile, hprofile, rfl⟩ := mem_map.mp h
    have hmentioned := (mem_filter.mp hprofile).2
    rw [Chat.trigger]
    rw [if_pos hmentioned]
  · obtain ⟨profile, hprofile, rfl⟩ := mem_map.mp h
    have hother := (mem_filter.mp hprofile).2
    rw [Chat.trigger]
    rw [if_neg (by simpa using hother)]

/-- A rejection is noted. -/
theorem reject_served (h : Held chat s)
    (hkind : target.2 = chat.trigger m target.1.id) (reason : String) : Served chat m target s
      (s.receipt m ⟨some m, target.1.id, target.2, chat.sender m, .rejected, reason, none⟩) := by
  rcases receipt_cases s m
    ⟨some m, target.1.id, target.2, chat.sender m, .rejected, reason, none⟩ with
    ⟨hthere, hsame⟩ | ⟨hnone, hnew⟩
  · rw [hsame]
    exact ⟨h, rfl, hthere, fun r hr => hr⟩
  · rw [hnew]
    refine ⟨⟨h.toRows.addReceipt rfl hkind ?_ hnone, ?_⟩, rfl, ?_, ?_⟩
    · intro m' hm'
      exact ⟨fun _ => rfl, fun hother => absurd rfl hother⟩
    · intro job hjob
      exact (h.owned job hjob).mono fun r hr => mem_append_left _ hr
    · exact ⟨_, mem_append_right _ (mem_singleton_self _), by simp [isFor]⟩
    · exact fun r hr => mem_append_left _ hr

/-- The job of a target is there, and so is its receipt. -/
theorem found_served (h : Held chat s) (hm : m ∉ s.deleted)
    (hkind : target.2 = chat.trigger m target.1.id) {job : Job} (hjob : job ∈ s.jobs)
    (hprofile : job.digest.profile = target.1.id) (htrigger : job.digest.trigger = target.2)
    (hsource : job.digest.source = m) {new : Receipt} (hnewprofile : new.profile = target.1.id)
    (hnewtrigger : new.trigger = target.2) : Served chat m target s (s.receipt m new) := by
  obtain ⟨hp, ht, hs⟩ := h.hashed job hjob
  rw [hsource] at hs
  have hsome : job.source = some m := hs.resolve_right fun hgone => hm hgone.2
  have hmanual : job.trigger ≠ .manual := by
    rw [← ht, htrigger, hkind]
    exact trigger_ne_manual chat m target.1.id
  obtain ⟨r, hr, hfor, -⟩ := h.owned job hjob m hsome hmanual
  rw [← hp, ← ht, hprofile, htrigger] at hfor
  rcases receipt_cases s m new with ⟨-, hsame⟩ | ⟨hnone, -⟩
  · rw [hsame]
    exact ⟨h, rfl, ⟨r, hr, hfor⟩, fun r hr => hr⟩
  · rw [hnewprofile, hnewtrigger] at hnone
    rw [hnone r hr] at hfor
    cases hfor

theorem existingTrigger?_eq_none {profile : ℕ} {trigger : Trigger}
    (h : s.existingTrigger? m profile trigger = none) {job : Job} (hjob : job ∈ s.jobs) :
    ¬ job.IsFor m profile trigger := by
  rintro ⟨hsource, hprofile, htrigger⟩
  have hnot := find?_eq_none.mp h job hjob
  simp [hsource, hprofile, htrigger] at hnot

/-- The job of a target is made with its receipt. -/
theorem made_served (h : Held chat s)
    (hkind : target.2 = chat.trigger m target.1.id) {requester : ℕ} {status : JobState}
    {r : Request} (hr : r = dispatchRequest chat m content target.1 target.2)
    (hfree : s.prior? requester r.key = none)
    (hexisting : s.existingTrigger? r.source r.profile r.trigger = none)
    (hrejected : ¬ Rejected s m target) {new : Receipt} (hsource : new.source = some m)
    (hprofile : new.profile = target.1.id) (htrigger : new.trigger = target.2)
    (hdecision : new.decision ≠ .rejected) (hnewjob : new.job = some s.nextJob) :
    Served chat m target s ((s.insert fun id => r.row id requester status).receipt m new) := by
  subst hr
  have hnojob : ∀ job ∈ s.jobs, ¬ job.IsFor m target.1.id target.2 :=
    fun job hjob => existingTrigger?_eq_none hexisting hjob
  -- A receipt that is there would be a rejection, or name a job of this target.
  have hnoreceipt : ∀ r ∈ s.receipts, r.isFor m target.1.id target.2 = false := by
    intro r hr
    by_contra hfor
    rw [Bool.not_eq_false] at hfor
    have hfor' := isFor_iff.mp hfor
    obtain ⟨-, hother⟩ := h.backed r hr m hfor'.1
    have hnot : r.decision ≠ .rejected := fun hdecision => hrejected ⟨r, hr, hfor, hdecision⟩
    obtain ⟨job, hjob, -, hjobfor⟩ := hother hnot
    rw [hfor'.2.1, hfor'.2.2] at hjobfor
    exact hnojob job hjob hjobfor
  let row : ℕ → Job := fun id =>
    (dispatchRequest chat m content target.1 target.2).row id requester status
  have hrowfor : (row s.nextJob).IsFor m target.1.id target.2 := ⟨rfl, rfl, rfl⟩
  have hrows : Rows chat (s.insert row) := by
    apply h.toRows.addJob (h.keyed.insert rfl hfree) ⟨rfl, rfl, .inl rfl⟩
    rintro job hjob m' profile trigger hfor ⟨hs, hp, ht⟩
    obtain ⟨rfl, rfl, rfl⟩ : m = m' ∧ target.1.id = profile ∧ target.2 = trigger :=
      ⟨Option.some.inj hs, hp, ht⟩
    exact hnojob job hjob hfor
  have hrow : row s.nextJob ∈ (s.insert row).jobs := by
    rw [insert_jobs]
    exact mem_append_right _ (mem_singleton_self _)
  rcases receipt_cases (s.insert row) m new with ⟨⟨r, hr, hfor⟩, -⟩ | ⟨hnone, hnew⟩
  · rw [insert_receipts] at hr
    rw [hprofile, htrigger] at hfor
    rw [hnoreceipt r hr] at hfor
    cases hfor
  · rw [hnew]
    have hnewfor : new.isFor m target.1.id target.2 = true :=
      isFor_iff.mpr ⟨hsource, hprofile, htrigger⟩
    have hin : new ∈ (s.insert row).receipts ++ [new] :=
      mem_append_right _ (mem_singleton_self _)
    refine ⟨⟨hrows.addReceipt hsource (by rw [htrigger, hprofile, hkind]) ?_ hnone, ?_⟩,
      insert_deleted s row, ⟨new, hin, hnewfor⟩, ?_⟩
    · intro m' hm'
      rw [hsource] at hm'
      refine ⟨fun hrejected' => absurd hrejected' hdecision, fun _ => ?_⟩
      refine ⟨row s.nextJob, hrow, hnewjob, ?_⟩
      rw [hprofile, htrigger, ← Option.some.inj hm']
      exact hrowfor
    · intro job hjob
      rw [insert_jobs] at hjob
      rcases mem_append.mp hjob with hjob | hjob
      · refine (h.owned job hjob).mono fun r hr => mem_append_left _ ?_
        rwa [insert_receipts]
      · rw [mem_singleton.mp hjob]
        intro m' hm' _
        cases hm'
        exact ⟨new, hin, hnewfor, hnewjob⟩
    · intro r hr
      refine mem_append_left _ ?_
      rwa [insert_receipts]

theorem admitTarget_served (h : Held chat s) (hm : m ∉ s.deleted)
    (hkind : target.2 = chat.trigger m target.1.id) (hsettled : Rejected s m target →
      ∃ refusal, createTarget chat w m content s target = .error refusal)
    (hadmitted : admitTarget chat w m content runner s target = .ok s') :
    Served chat m target s s' := by
  rw [admitTarget] at hadmitted
  unfold createTarget at hsettled
  cases hcreate : createJob w s (chat.sender m)
    (dispatchRequest chat m content target.1 target.2) (needsInput target.1) true with
  | error refusal =>
    rw [hcreate] at hadmitted
    simp only at hadmitted
    split at hadmitted
    · cases hadmitted
    · next reason _ =>
      cases hadmitted
      exact reject_served h hkind reason
  | ok made =>
    obtain ⟨id, s₁⟩ := made
    rw [hcreate] at hadmitted hsettled
    simp only at hadmitted
    have hrejected : ¬ Rejected s m target := by
      intro hrejected
      obtain ⟨refusal, hrefused⟩ := hsettled hrejected
      cases hrefused
    -- Both branches note a receipt with the job.
    obtain ⟨decision, reason, hdecision, rfl⟩ : ∃ decision reason, decision ≠ Decision.rejected ∧
        s' = s₁.receipt m
          ⟨some m, target.1.id, target.2, chat.sender m, decision, reason, some id⟩ := by
      split at hadmitted
      · cases hadmitted
        exact ⟨_, _, Decision.noConfusion, rfl⟩
      · cases hadmitted
        exact ⟨_, _, Decision.noConfusion, rfl⟩
    rcases createJob_cases hcreate with ⟨prior, hprior, hdigest, rfl, rfl⟩ |
      ⟨-, existing, hexisting, -, hdigest, rfl, rfl⟩ | ⟨hfree, hexisting, status, rfl, rfl⟩
    · exact found_served h hm hkind (prior?_eq_some hprior).1 (by rw [hdigest]; rfl)
        (by rw [hdigest]; rfl) (by rw [hdigest]; rfl) rfl rfl
    · exact found_served h hm hkind (mem_of_find?_eq_some hexisting) (by rw [hdigest]; rfl)
        (by rw [hdigest]; rfl) (by rw [hdigest]; rfl) rfl rfl
    · exact made_served h hkind rfl hfree hexisting hrejected rfl rfl rfl hdecision rfl

/-- The loop serves each of its targets. -/
theorem admitTargets_served {targets : List (Profile × Trigger)}
    (hkind : ∀ target ∈ targets, target.2 = chat.trigger m target.1.id) (h : Held chat s)
    (hm : m ∉ s.deleted) (hsettled : Settled chat w m content runner targets s)
    (hadmitted : admitTargets chat w m content runner targets s = .ok s') :
    Held chat s' ∧ (∀ r ∈ s.receipts, r ∈ s'.receipts) ∧
      ∀ target ∈ targets, ∃ r ∈ s'.receipts, r.isFor m target.1.id target.2 = true := by
  induction targets generalizing s with
  | nil =>
    cases hadmitted
    exact ⟨h, fun r hr => hr, fun target htarget => by cases htarget⟩
  | cons target rest ih =>
    unfold admitTargets at hadmitted
    split at hadmitted
    · cases hadmitted
    · next s₁ hfirst =>
      have hserved := admitTarget_served h hm (hkind target mem_cons_self) hsettled.1 hfirst
      obtain ⟨hheld, hkept, hrest⟩ := ih (fun t ht => hkind t (mem_cons_of_mem _ ht))
        hserved.held (by rw [hserved.deleted]; exact hm) (hsettled.2 s₁ hfirst) hadmitted
      refine ⟨hheld, fun r hr => hkept r (hserved.kept r hr), ?_⟩
      intro t ht
      rcases mem_cons.mp ht with rfl | ht
      · obtain ⟨r, hr, hfor⟩ := hserved.receipt
        exact ⟨r, hkept r hr, hfor⟩
      · exact hrest t ht

theorem admitMessage_served (h : Held chat s) (hm : m ∉ s.deleted)
    (hbot : chat.senderIsBot m = false)
    (hsettled : Settled chat w m content runner (chat.targets w m) s)
    (hadmitted : admitMessage chat w m content runner s = .ok s') :
    Held chat s' ∧ ∀ target ∈ chat.targets w m,
      ∃ r ∈ s'.receipts, r.isFor m target.1.id target.2 = true := by
  unfold admitMessage at hadmitted
  split at hadmitted
  · next hskip =>
    cases hadmitted
    simp only [hbot, Bool.false_or, decide_eq_true_eq] at hskip
    rw [hskip]
    exact ⟨h, fun target htarget => by cases htarget⟩
  split at hadmitted
  · cases hadmitted
  · obtain ⟨hheld, -, hreceipts⟩ :=
      admitTargets_served (fun target => targets_trigger) h hm hsettled hadmitted
    exact ⟨hheld, hreceipts⟩

end Deliveries

/-! ## Runs -/

section Moves

variable {s s' : State} {w : World} {actor id : ℕ}

/-- A request of the API makes a job that no message triggered. -/
theorem Held.request (h : Held chat s) {r : Request} (hmanual : r.trigger = .manual)
    (hcreate : createJob w s actor r false false = .ok (id, s')) : Held chat s' := by
  have hkeyed := (call_keyed (.create w actor r false false) h.keyed).1
  simp only [call, hcreate, transaction] at hkeyed
  rcases createJob_cases hcreate with ⟨prior, -, -, -, rfl⟩ | ⟨-, existing, -, -, -, -, rfl⟩ |
    ⟨-, hexisting, status, -, rfl⟩
  · exact h
  · exact h
  · refine ⟨h.toRows.addJob hkeyed ⟨rfl, rfl, .inl rfl⟩ ?_, ?_⟩
    · rintro job hjob m profile trigger hfor ⟨hs, hp, ht⟩
      obtain ⟨rfl, rfl, rfl⟩ : r.source = m ∧ r.profile = profile ∧ r.trigger = trigger :=
        ⟨Option.some.inj hs, hp, ht⟩
      exact existingTrigger?_eq_none hexisting hjob hfor
    · intro job hjob
      rw [insert_jobs] at hjob
      rw [insert_receipts]
      rcases mem_append.mp hjob with hjob | hjob
      · exact h.owned job hjob
      · rw [mem_singleton.mp hjob]
        exact fun m _ htrigger => absurd hmanual htrigger

theorem Held.completeDraft (h : Held chat s) {job expectedVersion repository : ℕ}
    {baseRef : String}
    (hcomplete : completeDraft w s actor job expectedVersion repository baseRef = .ok (id, s')) :
    Held chat s' := by
  rcases completeDraft_cases hcomplete with rfl | ⟨draft, new, hdraft, -, -, hid, hrequester,
    hprofile, hsource, htrigger, hkey, hcompleted, hdigestProfile, hdigestSource, hdigestTrigger,
    rfl⟩
  · exact h
  · obtain ⟨hmem, -⟩ := job?_eq_some hdraft
    refine Held.acceptReceipts (h.mapJobs (s.replace_jobs new) ?_ ?_ ?_ ?_ ?_ ?_) draft.id
    · exact (keyed_map h.keyed (s.replace_jobs new) (by simp [State.replace])
        (replace_same h.keyed hmem hid hrequester hkey hcompleted)).1
    · rw [State.replace, State.wake]
      split <;> rfl
    · rw [State.replace, State.wake]
      split <;> rfl
    · rw [State.replace, State.wake]
      split <;> rfl
    · exact fun key hkey => wake_outbox _ _ _ key hkey
    · intro old hold
      by_cases hsame : old.id = new.id
      · obtain rfl := h.keyed.unique hold hmem (hsame.trans hid)
        rw [if_pos hsame]
        refine ⟨hid, hsource, hprofile, htrigger, ?_, ?_, .inl ?_⟩
        · rw [hdigestProfile, hprofile]
        · rw [hdigestTrigger, htrigger]
        · rw [hsource, hdigestSource]
      · rw [if_neg hsame]
        exact ⟨rfl, rfl, rfl, rfl, h.hashed old hold⟩

theorem Held.live (h : Held chat s) (job : ℕ) (status : JobState) (blockedReason : String)
    (version : ℕ) : Held chat (s.live job status blockedReason version) := by
  refine h.mapJobs rfl (call_keyed (.live job status blockedReason version) h.keyed).1 rfl rfl rfl
    (fun key hkey => hkey) ?_
  intro old hold
  split
  · exact ⟨rfl, rfl, rfl, rfl, h.hashed old hold⟩
  · exact ⟨rfl, rfl, rfl, rfl, h.hashed old hold⟩

theorem Held.notice (h : Held chat s) {key : String} {busy sent posted : Bool}
    (hpost : postJobNotice s key busy sent = .ok (posted, s')) : Held chat s' := by
  unfold postJobNotice at hpost
  split at hpost
  · cases hpost
  split at hpost
  · cases hpost
    exact h
  · next hnew =>
    split at hpost
    · cases hpost
    · cases hpost
      refine ⟨⟨⟨h.keyed.ids, h.keyed.below, h.keyed.keys⟩, h.hashed, h.triggers, h.single, h.kind,
        h.backed, ?_, ?_⟩, h.owned⟩
      · refine nodup_append.mpr ⟨h.posted.1, nodup_singleton key, ?_⟩
        rintro key' hkey new hnewkey rfl
        rw [mem_singleton.mp hnewkey] at hkey
        apply hnew
        simpa using h.posted.2 key hkey
      · intro key' hkey
        rcases mem_append.mp hkey with hkey | hkey
        · exact mem_append_left _ (h.posted.2 key' hkey)
        · exact mem_append_right _ hkey

end Moves

/-- A delivery that is committed does not admit what was rejected. -/
def Move.Settled (chat : Chat) : Move → State → Prop
  | .deliver w m content runner commits, s =>
    commits = true → chat.senderIsBot m = false →
      (∃ s', admitMessage chat w m content runner s = .ok s') →
        GrowTeam.Dispatch.Settled chat w m content runner (chat.targets w m) s
  | _, _ => True

variable {s : State}

theorem step_deliver {w : World} {content runner : String} {commits : Bool}
    (hended : (step chat (.deliver w m content runner commits) s).1 = true) :
    m ∉ s.deleted ∧ commits = true ∧ admitMessage chat w m content runner s =
      .ok (step chat (.deliver w m content runner commits) s).2 := by
  simp only [step] at hended ⊢
  by_cases hskip : (s.deleted.contains m || !commits) = true
  · rw [if_pos hskip] at hended
    cases hended
  · rw [if_neg hskip] at hended ⊢
    simp only [Bool.or_eq_true, contains_eq_mem, decide_eq_true_eq, Bool.not_eq_true',
      not_or, Bool.not_eq_false] at hskip
    refine ⟨hskip.1, hskip.2, ?_⟩
    cases hadmitted : admitMessage chat w m content runner s with
    | error refusal =>
      rw [hadmitted] at hended
      cases hended
    | ok s' => rfl

theorem step_deliver_idle {w : World} {content runner : String}
    {commits : Bool} (hended : (step chat (.deliver w m content runner commits) s).1 = false) :
    (step chat (.deliver w m content runner commits) s).2 = s := by
  simp only [step] at hended ⊢
  by_cases hskip : (s.deleted.contains m || !commits) = true
  · rw [if_pos hskip]
  · rw [if_neg hskip] at hended ⊢
    cases hadmitted : admitMessage chat w m content runner s with
    | error refusal => rfl
    | ok s' =>
      rw [hadmitted] at hended
      cases hended

theorem step_held (move : Move) (h : Held chat s) (hsettled : move.Settled chat s) :
    Held chat (step chat move s).2 := by
  cases move with
  | deliver w m content runner commits =>
    cases hended : (step chat (.deliver w m content runner commits) s).1 with
    | false =>
      rw [step_deliver_idle hended]
      exact h
    | true =>
      obtain ⟨hm, hcommits, hadmitted⟩ := step_deliver hended
      cases hbot : chat.senderIsBot m with
      | true =>
        rw [admitMessage, hbot] at hadmitted
        rw [← Except.ok.inj hadmitted]
        exact h
      | false =>
        exact (admitMessage_served h hm hbot (hsettled hcommits hbot ⟨_, hadmitted⟩) hadmitted).1
  | request w actor r =>
    rw [step, call]
    cases hcreate : createJob w s actor { r with trigger := .manual } false false with
    | error refusal => exact h
    | ok made => exact h.request rfl hcreate
  | completeDraft w actor id expectedVersion repository baseRef =>
    rw [step, call]
    cases hcomplete : completeDraft w s actor id expectedVersion repository baseRef with
    | error refusal => exact h
    | ok made => exact h.completeDraft hcomplete
  | live id status blockedReason version => exact h.live id status blockedReason version
  | deleteMessage message => exact h.deleteMessage message
  | notice key busy sent =>
    rw [step]
    cases hpost : postJobNotice s key busy sent with
    | error refusal => exact h
    | ok made => exact h.notice hpost

theorem start_held : Held chat start where
  keyed := start_keyed
  hashed job hjob := by cases hjob
  triggers a ha := by cases ha
  single := .nil
  kind r hr := by cases hr
  backed r hr := by cases hr
  posted := ⟨nodup_nil, fun key hkey => by cases hkey⟩
  owned job hjob := by cases hjob

/-- In a run of settled deliveries the rows hold before and after every step. -/
theorem history_held {moves : List Move}
    (hsettled : ∀ e ∈ history (step chat) start moves, e.input.Settled chat e.pre)
    {e : Event State Move Bool} (he : e ∈ history (step chat) start moves) :
    Held chat e.pre ∧ Held chat e.post := by
  have hpast := (history_past (step chat)
    (J := fun past t => (∀ f ∈ past, Move.Settled chat f.input f.pre) → Held chat t)
    start moves (fun _ => start_held) ?_).2
  · obtain ⟨past, later, hsplit⟩ := append_of_mem he
    have hpre := hpast past e later hsplit fun f hf => hsettled f (by
      rw [hsplit]
      exact mem_append_left _ hf)
    refine ⟨hpre, ?_⟩
    have hpost := step_held e.input hpre (hsettled e he)
    rwa [step_of_mem he] at hpost
  · intro past f hf hJ hall
    have hpost := step_held f.input (hJ fun g hg => hall g (mem_append_left _ hg))
      (hall f (mem_append_right _ (mem_singleton_self _)))
    rwa [hf] at hpost

/-- What the receipts, the jobs of the messages and the notices are. -/
structure Once (s : State) : Prop where
  receipts : ∀ m profile,
    (s.receipts.filter fun r => r.source = some m ∧ r.profile = profile).length ≤ 1
  rejected : ∀ r ∈ s.receipts, ∀ m, r.source = some m → r.decision = .rejected →
    r.job = none ∧ ∀ job ∈ s.jobs, ¬ job.IsFor m r.profile r.trigger
  admitted : ∀ r ∈ s.receipts, ∀ m, r.source = some m → r.decision ≠ .rejected →
    ∃ job ∈ s.jobs, r.job = some job.id ∧ job.IsFor m r.profile r.trigger ∧
      ∀ other ∈ s.jobs, other.IsFor m r.profile r.trigger → other = job
  notices : s.notices.Nodup

theorem Held.once (h : Held chat s) : Once s where
  receipts := h.atMostOne
  rejected r hr m hsource hdecision := by
    refine ⟨(h.backed r hr m hsource).1 hdecision, ?_⟩
    intro job hjob hfor
    -- The job has a receipt that names it, and this is the receipt.
    obtain ⟨hs, hp, ht⟩ := hfor
    have hmanual : job.trigger ≠ .manual := by
      rw [ht, h.kind r hr m hsource]
      exact trigger_ne_manual chat m r.profile
    obtain ⟨owner, howner, hownerfor, hid⟩ := h.owned job hjob m hs hmanual
    obtain ⟨hos, hop, -⟩ := isFor_iff.mp hownerfor
    obtain rfl := h.unique howner hr hos hsource (hop.trans hp)
    rw [(h.backed owner hr m hsource).1 hdecision] at hid
    cases hid
  admitted r hr m hsource hdecision := by
    obtain ⟨job, hjob, hid, hfor⟩ := (h.backed r hr m hsource).2 hdecision
    refine ⟨job, hjob, hid, hfor, ?_⟩
    intro other hother hotherfor
    exact h.keyed.unique hother hjob
      (h.triggers other hother job hjob m r.profile r.trigger hotherfor hfor)
  notices := h.posted.1

/-- In a run whose deliveries are settled, a delivery leaves each of its targets one receipt;
the rejected ones have no job, each other one has one job, and a notice is posted once. -/
theorem dispatch_once {moves : List Move}
    (hsettled : ∀ e ∈ history (step chat) State.start moves, e.input.Settled chat e.pre)
    {e : Event State Move Bool} (he : e ∈ history (step chat) State.start moves) :
    Once e.post ∧ ∀ w m content runner commits, e.input = .deliver w m content runner commits →
      e.answer = true → chat.senderIsBot m = false → ∀ target ∈ chat.targets w m,
        ∃ r, (e.post.receipts.filter fun r => r.source = some m ∧ r.profile = target.1.id) = [r] ∧
          r.trigger = target.2 := by
  obtain ⟨hpre, hpost⟩ := history_held hsettled he
  refine ⟨hpost.once, ?_⟩
  intro w m content runner commits hinput hended hbot target htarget
  have hstep := step_of_mem he
  rw [hinput] at hstep
  obtain ⟨hm, hcommits, hadmitted⟩ := step_deliver (by rw [hstep]; exact hended)
  rw [hstep] at hadmitted
  have hmine := hsettled e he
  rw [hinput] at hmine
  obtain ⟨r, hr, hfor⟩ :=
    (admitMessage_served hpre hm hbot (hmine hcommits hbot ⟨_, hadmitted⟩) hadmitted).2 target htarget
  obtain ⟨hsource, hprofile, htrigger⟩ := Receipt.isFor_iff.mp hfor
  refine ⟨r, ?_, htrigger⟩
  have hin : r ∈ e.post.receipts.filter fun r => r.source = some m ∧ r.profile = target.1.id :=
    mem_filter.mpr ⟨hr, by simp [hsource, hprofile]⟩
  have hone := hpost.atMostOne m target.1.id
  obtain ⟨a, ha⟩ := length_eq_one_iff.mp
    (le_antisymm hone (length_pos_of_mem hin))
  rw [ha] at hin ⊢
  rw [mem_singleton.mp hin]

namespace Example

/-- Every message mentions the agent. -/
def room : Chat where
  sender := fun _ => 2
  senderIsBot := fun _ => false
  mentions := fun _ => [9]
  group := fun _ => none
  bot := fun _ => 9
  uuid5 := fun m _ _ => m

/-- The agent is not shared with the sender. -/
def unshared : World := { world with access := fun _ _ _ _ _ => false }

/-- A delivery of one message. -/
def delivery (w : World) : Move := .deliver w 5 "Fix the build" "" true

end Example

open Example in
/-- Without a rejection there is nothing to settle. -/
theorem delivery_settled (hs : ∀ r ∈ s.receipts, r.decision = .accepted) :
    (delivery world).Settled room s := by
  intro _ _ _
  refine ⟨?_, fun _ _ => trivial⟩
  rintro ⟨r, hr, -, hdecision⟩
  rw [hs r hr] at hdecision
  cases hdecision

open Example in
/-- The message is delivered twice, and has one receipt. -/
theorem delivered_twice : ∃ e ∈ history (step room) State.start [delivery world, delivery world],
    Once e.post ∧ e.answer = true ∧ e.post.receipts.length = 1 ∧ e.post.jobs.length = 1 := by
  have hlast := @dispatch_once room [delivery world, delivery world] (by
    intro e he
    have hrun : history (step room) State.start [delivery world, delivery world] =
        [⟨delivery world, _, _, _⟩, ⟨delivery world, _, _, _⟩] := rfl
    rw [hrun] at he
    rcases mem_cons.mp he with rfl | he
    · exact delivery_settled fun r hr => by cases hr
    · rw [mem_singleton.mp he]
      exact delivery_settled (by decide)) _ (mem_of_getElem? (i := 1) rfl)
  exact ⟨_, mem_of_getElem? (i := 1) rfl, hlast.1, rfl, rfl, rfl⟩

open Example in
/-- The target is rejected, the agent is shared, and the message is delivered again. -/
theorem rejected_gets_job :
    ¬ ∀ (chat : Chat) (moves : List Move), ∀ e ∈ history (step chat) State.start moves,
      ∀ r ∈ e.post.receipts, ∀ m, r.source = some m → r.decision = .rejected →
        ∀ job ∈ e.post.jobs, ¬ job.IsFor m r.profile r.trigger := by
  intro h
  have hlast := h room [delivery unshared, delivery world] _ (mem_of_getElem? (i := 1) rfl)
  exact hlast ⟨some 5, 1, .mention, 2, .rejected, "not_shared", none⟩ (by decide) 5 rfl rfl
    ((dispatchRequest room 5 "Fix the build" profile .mention).row 0 2 .queued) (by decide)
    ⟨rfl, rfl, rfl⟩

end GrowTeam.Dispatch
