/-
# Where a stop ends the job

`request_stop` leaves its target and its reason on the job, and a later event of the attempt
moves the job there.  In between the reason can be overwritten: an attempt that was asked to
stop can still be given up.  And a revocation asks without a target, so the one that an
earlier stop left behind is used.
-/
import GrowTeam.Server.Leases

namespace GrowTeam.Server

namespace Ledger

variable {site : Site} {c d : Ledger} {m : Option Deed} {a : Tenure} {l : List Deed} {id : Uuid}

/-! ## What was asked -/

/-- The target that a step leaves on the job. -/
def aimed : Deed → Option StopTarget
  | .requested _ target _ | .halted target _ => some target
  | _ => none

/-- The target that is left on the job. -/
def lastTarget (l : List Deed) : StopTarget := (l.filterMap aimed).getLast?.getD .cancelled

/-- The stop that is requested for an attempt. -/
def asked (id : Uuid) : Deed → Option (StopTarget × String)
  | .requested a target reason => if a = id then some (target, reason) else none
  | _ => none

/-- The stops that were requested for an attempt. -/
def requests (id : Uuid) (l : List Deed) : List (StopTarget × String) := l.filterMap (asked id)

/-- The steps that give a reason for the end of an attempt. -/
def signals (id : Uuid) : Deed → Bool
  | .requested a _ _ | .interrupted a => a = id
  | _ => false

/-- Whether the attempt was given up after it was asked to stop. -/
def givenUp (id : Uuid) (l : List Deed) : Bool :=
  (l.filter (signals id)).getLast? = some (.interrupted id)

/-- A step that says nothing of any stop. -/
def Mute (m : Deed) : Prop := aimed m = none ∧ ∀ id, asked id m = none ∧ signals id m = false

variable {reason : String} {target : StopTarget}

theorem mem_requests : (target, reason) ∈ requests id l ↔ .requested id target reason ∈ l := by
  unfold requests
  rw [List.mem_filterMap]
  constructor
  · rintro ⟨deed, hdeed, hasked⟩
    cases deed <;> simp only [asked, reduceCtorEq] at hasked
    split at hasked
    · next hid =>
      subst hid
      cases hasked
      exact hdeed
    · cases hasked
  · exact fun h => ⟨_, h, by simp [asked]⟩

section

variable {deed : Deed}

theorem requests_append : requests id (l ++ [deed]) = requests id l ++ (asked id deed).toList := by
  unfold requests
  cases h : asked id deed <;> simp [h]

theorem lastTarget_append :
    lastTarget (l ++ [deed]) = (aimed deed).getD (lastTarget l) := by
  unfold lastTarget
  cases h : aimed deed <;> simp [h]

theorem givenUp_append : givenUp id (l ++ [deed]) =
    if signals id deed = true then decide (deed = .interrupted id) else givenUp id l := by
  unfold givenUp
  cases h : signals id deed <;> simp [h]

end

/-! ## What is left on the job -/

/-- An active attempt that was asked to stop. -/
structure Stopping (l : List Deed) (c : Ledger) (a : Tenure) : Prop where
  process : a.process ∈ [.stopping, .unknown]
  status : c.status ∈ [.cancelRequested, .interrupted]
  stops : c.stops a.id = true
  reason : if givenUp a.id l = true then c.reason ∈ interruptions
    else (c.stopTarget, c.reason) ∈ requests a.id l
  target : ∃ reason, (c.stopTarget, reason) ∈ requests a.id l

/-- What the job keeps of the stops that were requested. -/
structure Aimed (l : List Deed) (c : Ledger) : Prop where
  target : c.stopTarget = lastTarget l
  draft : c.status = .draft → lastTarget l = .cancelled
  known : ∀ id, requests id l ≠ [] → id < c.nextId
  reasons : ∀ id, ∀ r ∈ requests id l, r.2 ∈ stopReasons
  stopping : ∀ a ∈ c.attempts, a.active = true → requests a.id l ≠ [] → Stopping l c a

/-- What is left alone stays. -/
theorem Aimed.same (h : Aimed l c) (htarget : d.stopTarget = c.stopTarget)
    (hstatus : d.status = c.status) (hreason : d.reason = c.reason)
    (hattempts : d.attempts = c.attempts) (hstops : d.stops = c.stops) (hnext : c.nextId ≤ d.nextId) :
    Aimed l d := by
  refine ⟨htarget.trans h.target, fun hd => h.draft (hstatus.symm.trans hd),
    fun id hid => lt_of_lt_of_le (h.known id hid) hnext, h.reasons, fun a ha hactive hasked => ?_⟩
  rw [hattempts] at ha
  have hs := h.stopping a ha hactive hasked
  exact ⟨hs.process, by rw [hstatus]; exact hs.status, by rw [hstops]; exact hs.stops,
    by rw [htarget, hreason]; exact hs.reason, by rw [htarget]; exact hs.target⟩

/-- Nobody is stopping. -/
theorem Aimed.quiet (h : Aimed l c) (htarget : d.stopTarget = c.stopTarget)
    (hdraft : d.status = .draft → c.status = .draft) (hnext : c.nextId ≤ d.nextId)
    (hnone : ∀ a ∈ d.attempts, a.active = true → requests a.id l = []) : Aimed l d :=
  ⟨htarget.trans h.target, fun hd => h.draft (hdraft hd),
    fun id hid => lt_of_lt_of_le (h.known id hid) hnext, h.reasons,
    fun a ha hactive hasked => absurd (hnone a ha hactive) hasked⟩

/-- A step that says nothing of a stop is forgotten. -/
theorem Aimed.remember (h : Aimed l c) {deed : Deed} (hm : Mute deed) : Aimed (l ++ [deed]) c := by
  have hrequests : ∀ id, requests id (l ++ [deed]) = requests id l := by
    intro id
    rw [requests_append, (hm.2 id).1]
    simp
  have htarget : lastTarget (l ++ [deed]) = lastTarget l := by
    rw [lastTarget_append, hm.1]
    rfl
  have hgiven : ∀ id, givenUp id (l ++ [deed]) = givenUp id l := by
    intro id
    rw [givenUp_append, (hm.2 id).2]
    simp
  refine ⟨htarget ▸ h.target, fun hd => htarget ▸ h.draft hd, ?_, ?_, ?_⟩
  · intro id hid
    rw [hrequests] at hid
    exact h.known id hid
  · intro id r hr
    rw [hrequests] at hr
    exact h.reasons id r hr
  · intro a ha hactive hasked
    rw [hrequests] at hasked
    have hs := h.stopping a ha hactive hasked
    exact ⟨hs.process, hs.status, hs.stops, by rw [hgiven, hrequests]; exact hs.reason,
      by rw [hrequests]; exact hs.target⟩

theorem Aimed.none_of_status (h : Aimed l c) (hs : c.status ∉ [.cancelRequested, .interrupted]) :
    ∀ a ∈ c.attempts, a.active = true → requests a.id l = [] := by
  intro a ha hactive
  by_contra hasked
  exact hs (h.stopping a ha hactive hasked).status

theorem Aimed.none_of_leased (ho : Orderly c) (h : Aimed l c) {b : Tenure} (hl : c.Leased b) :
    ∀ a ∈ c.attempts, a.active = true → requests a.id l = [] := by
  intro a ha hactive
  by_contra hasked
  have hprocess := (h.stopping a ha hactive hasked).process
  rw [ho.crew.eq_of_active ha hl.mem hactive hl.active] at hprocess
  have hup := hl.process
  revert hprocess hup
  cases b.process <;> decide

/-- A stop is requested for the one active attempt. -/
theorem Aimed.requested (ho : Orderly c) (h : Aimed l c)
    (ha : a ∈ c.attempts) (hactive : a.active = true) (hr : reason ∈ stopReasons) :
    Aimed (l ++ [.requested a.id target reason]) (c.requestStop a.id target reason) := by
  have hmine : (target, reason) ∈ requests a.id (l ++ [.requested a.id target reason]) :=
    mem_requests.mpr (by simp)
  refine ⟨by rw [lastTarget_append]; rfl, (fun hd => by cases hd), fun id hid => ?_,
    fun id r hr' => ?_,
    fun b hb hactive' _ => ?_⟩
  · by_cases hsame : a.id = id
    · subst hsame
      exact ho.roster.fresh (card a) (List.mem_map_of_mem ha)
    · rw [requests_append] at hid
      simp only [asked, if_neg hsame, Option.toList_none, List.append_nil] at hid
      exact h.known id hid
  · rcases List.mem_append.mp (mem_requests.mp hr') with hr' | hr'
    · exact h.reasons id _ (mem_requests.mpr hr')
    · cases List.mem_singleton.mp hr'
      exact hr
  · obtain ⟨x, hx, ⟨hid, rfl⟩ | ⟨hne, rfl⟩⟩ := mem_updateWhere.mp hb
    · have hid : x.id = a.id := of_decide_eq_true hid
      have hgiven : givenUp x.id (l ++ [.requested a.id target reason]) = false := by
        rw [givenUp_append]
        simp [signals, hid]
      refine ⟨by simp, by simp [requestStop, transition], by simp [requestStop, transition,
        updateAttempt, invalidateApprovals, updateApprovals, hid], ?_, reason, ?_⟩
      · rw [if_neg (by rw [hgiven]; simp), hid]
        exact hmine
      · rw [hid]
        exact hmine
    · rw [ho.crew.eq_of_active hx ha hactive' hactive] at hne
      simp at hne

/-- The one active attempt is given up. -/
theorem Aimed.interrupted (ho : Orderly c) (h : Aimed l c) (ha : a ∈ c.attempts)
    (hactive : a.active = true) (hr : reason ∈ interruptions) : Aimed (l ++ [.interrupted a.id])
      (((c.updateAttempt a.id fun a => { a with process := .unknown }).lost a.id).transition
        .interrupted reason) := by
  have hrequests : ∀ id, requests id (l ++ [.interrupted a.id]) = requests id l := by
    intro id
    rw [requests_append]
    simp [asked]
  refine ⟨by rw [lastTarget_append]; exact h.target, (fun hd => by cases hd), fun id hid => ?_,
    fun id r hr' => ?_,
    fun b hb hactive' hasked => ?_⟩
  · rw [hrequests] at hid
    exact h.known id hid
  · rw [hrequests] at hr'
    exact h.reasons id r hr'
  · obtain ⟨x, hx, ⟨hid, rfl⟩ | ⟨hne, rfl⟩⟩ := mem_updateWhere.mp hb
    · have hid : x.id = a.id := of_decide_eq_true hid
      have hxa : x = a := ho.roster.eq_of_id hx ha hid
      subst hxa
      rw [hrequests] at hasked
      have hs := h.stopping x hx hactive hasked
      have hgiven : givenUp x.id (l ++ [.interrupted x.id]) = true := by
        rw [givenUp_append]
        simp [signals]
      refine ⟨by simp, by simp [transition], hs.stops, ?_, ?_⟩
      · rw [if_pos hgiven]
        exact hr
      · rw [hrequests]
        exact hs.target
    · rw [ho.crew.eq_of_active hx ha hactive' hactive] at hne
      simp at hne

/-- A job without an active attempt ends at once. -/
theorem Aimed.halted (h : Aimed l c) (hidle : c.Idle) : Aimed (l ++ [.halted target reason])
      (({ c with stopTarget := target } : Ledger).transition target.status reason) := by
  have hrequests : ∀ id, requests id (l ++ [.halted target reason]) = requests id l := by
    intro id
    rw [requests_append]
    simp [asked]
  refine ⟨by rw [lastTarget_append]; rfl, fun hd => ?_, fun id hid => ?_, fun id r hr => ?_,
    fun a ha hactive _ => ?_⟩
  · cases target <;> cases hd
  · rw [hrequests] at hid
    exact h.known id hid
  · rw [hrequests] at hr
    exact h.reasons id r hr
  · rw [hidle a ha] at hactive
    cases hactive

/-- **What the job keeps is what the last stop left on it**, over every entry. -/
theorem Aimed.entry (ho : Orderly c) (h : Aimed l c) (he : Entry site c m d) :
    Aimed (l ++ m.toList) d := by
  have hidleNone : c.Idle → ∀ a ∈ c.attempts, a.active = true → requests a.id l = [] := by
    intro hidle a ha hactive
    rw [hidle a ha] at hactive
    cases hactive
  have hstatusNone : ∀ {status : JobState}, c.status = status →
      status ∉ [.cancelRequested, .interrupted] →
      ∀ a ∈ c.attempts, a.active = true → requests a.id l = [] := by
    rintro _ rfl hs
    exact h.none_of_status hs
  have hupdate : ∀ (p : Tenure → Bool) {f : Tenure → Tenure},
      (∀ a, (f a).id = a.id ∧ ((f a).active = true → a.active = true)) →
      (∀ a ∈ c.attempts, a.active = true → requests a.id l = []) →
      ∀ b ∈ updateWhere p f c.attempts, b.active = true → requests b.id l = [] := by
    intro p f hf hnone
    refine forall_updateWhere hnone fun a ha hp hwas hactive => ?_
    rw [(hf a).1]
    exact hwas ((hf a).2 hactive)
  have hmute : ∀ {deed : Deed}, Mute deed → Aimed l d → Aimed (l ++ (some deed).toList) d :=
    fun hm hd => hd.remember hm
  have hnothing : Aimed l d → Aimed (l ++ (none : Option Deed).toList) d := by
    intro hd
    simpa using hd
  cases he with
  | requested a target reason ha hactive hr => exact h.requested ho ha hactive hr
  | interrupted a reason ha hactive hr => exact h.interrupted ho ha hactive hr
  | drafted hs =>
    exact hnothing ⟨(h.draft hs).symm, (fun hd => by cases hd), h.known, h.reasons,
      fun a ha hactive hasked =>
      absurd (hstatusNone hs (by decide) a ha hactive) hasked⟩
  | halted target reason hidle hs => exact h.halted hidle
  | steered i hs hb hi =>
    refine hnothing (h.quiet rfl (fun hd => ?_) (Nat.le_succ _) (h.none_of_status fun hbusy => hs ?_))
    · have hd : (if c.status ∈ reopened then JobState.running else c.status) = .draft := hd
      split at hd
      · cases hd
      · exact hd
    · revert hbusy
      cases c.status <;> decide
  | resumed hs hidle hi | completed hs hidle hi =>
    exact hnothing (h.quiet rfl (fun hd => by cases hd) le_rfl (hidleNone hidle))
  | overdue hs | parked reason hs =>
    exact hnothing (h.quiet rfl (fun hd => by cases hd) le_rfl (hstatusNone hs (by decide)))
  | failed reason hs =>
    have hnone := hstatusNone hs (by decide)
    exact hmute ⟨rfl, fun _ => ⟨rfl, rfl⟩⟩ (h.quiet rfl (fun hd => by cases hd) le_rfl hnone)
  | moved a status hl hs =>
    have hnone := h.none_of_leased ho hl
    refine hnothing (h.quiet rfl (fun hd => ?_) le_rfl hnone)
    have hd : status = .draft := hd
    rw [hd] at hs
    simp [executing] at hs
  | spoiled a reason hl =>
    have hnone := h.none_of_leased ho hl
    exact hmute ⟨rfl, fun _ => ⟨rfl, rfl⟩⟩ (h.quiet rfl (fun hd => by cases hd) le_rfl hnone)
  | extended a expires hl he | started a hl =>
    exact hnothing (h.quiet rfl id le_rfl (hupdate _ (by simp) (h.none_of_leased ho hl)))
  | fenced a ha hactive hp hr hs =>
    exact hmute ⟨rfl, fun _ => ⟨rfl, rfl⟩⟩ (h.quiet rfl id le_rfl
      (hupdate _ (by simp) (hstatusNone hs (by decide))))
  | claimed a hs hidle hr ha =>
    refine hmute ⟨rfl, fun _ => ⟨rfl, rfl⟩⟩
      (h.quiet rfl (fun hd => by cases hd) (Nat.le_succ _) fun b hb hactive => ?_)
    rcases List.mem_append.mp hb with hb | hb
    · exact hidleNone hidle b hb hactive
    · -- Nobody asked for an attempt before it was claimed.
      rw [List.mem_singleton.mp hb]
      by_contra hasked
      have hlt := h.known a.id hasked
      rw [ha.id] at hlt
      exact absurd hlt (Nat.lt_irrefl _)
  | stopped a reason ha hactive =>
    refine hmute ⟨rfl, fun _ => ⟨rfl, rfl⟩⟩ (h.quiet ?_ (fun hd => ?_) ?_ fun b hb hactive' => ?_)
    · rw [contain_stopTarget, ended_stopTarget]
    · rw [contain_status] at hd
      rcases c.ended_status a.id reason with hend | ⟨hsame, -⟩
      · rw [hd] at hend
        simp at hend
      · exact hsame.symm.trans hd
    · rw [contain_nextId, ended_nextId]
    · rw [contain_attempts, ended_attempts] at hb
      obtain ⟨x, hx, ⟨-, rfl⟩ | ⟨hne, rfl⟩⟩ := mem_updateWhere.mp hb
      · cases hactive'
      · rw [ho.crew.eq_of_active hx ha hactive' hactive] at hne
        simp at hne
  | revoked now hr =>
    refine hmute ⟨rfl, fun _ => ⟨rfl, rfl⟩⟩ ?_
    unfold revoke
    split
    · refine ⟨h.target, (fun hd => by cases hd), h.known, h.reasons, fun b hb hactive hasked => ?_⟩
      obtain ⟨x, hx, ⟨hxactive, rfl⟩ | ⟨hne, rfl⟩⟩ := mem_updateWhere.mp hb
      · have hs := h.stopping x hx hxactive hasked
        exact ⟨by simp, by simp, hs.stops, hs.reason, hs.target⟩
      · rw [hactive] at hne
        cases hne
    · exact h.same rfl rfl rfl rfl rfl le_rfl
  | allocated n hn => exact hnothing (h.same rfl rfl rfl rfl rfl hn)
  | proposed a o p hl ho hs hp =>
    exact hnothing (h.same rfl rfl rfl rfl rfl (Nat.le_add_right _ 2))
  | delivered | approved | begun | consumed =>
    exact hmute ⟨rfl, fun _ => ⟨rfl, rfl⟩⟩ (h.same rfl rfl rfl rfl rfl le_rfl)
  | _ => exact hnothing (h.same rfl rfl rfl rfl rfl le_rfl)

/-! ## Where the job ends -/

/-- The stop of an attempt ends the job where a request for it said, and a revocation cancels
the job of an attempt that nobody asked. -/
structure EndsAsAsked (l : List Deed) (id : Uuid) (c d : Ledger) : Prop where
  asked : requests id l ≠ [] → ∃ r ∈ requests id l, d.status = r.1.status ∧ d.reason = r.2
  revoked : requests id l = [] → c.revokedAt.isSome = true → d.status = .cancelled

/-- The attempt was not given up after it was last asked to stop, and where nobody asked, no
earlier stop left another target than cancelled. -/
structure Undisturbed (l : List Deed) (id : Uuid) (c : Ledger) : Prop where
  asked : requests id l ≠ [] → givenUp id l = false
  revoked : requests id l = [] → c.revokedAt.isSome = true → lastTarget l = .cancelled

theorem status_eq_cancelled : target.status = .cancelled ↔ target = .cancelled := by
  cases target <;> decide

/-- A stop that was asked for ends the job with what is left on it. -/
theorem ended_of_requested (h : c.stopRequested a.id = true) : (c.ended a.id reason).contain a.id =
      (c.transition c.stopTarget.status c.reason).contain a.id := by
  rw [ended, if_pos h]

theorem disjoint_reasons (h : reason ∈ stopReasons) (h' : reason ∈ interruptions) : False := by
  simp only [interruptions, List.mem_cons, List.not_mem_nil, or_false] at h'
  rcases h' with rfl | rfl <;> exact absurd h (by decide)

/-- **The job ends as asked exactly if the stop was not disturbed.** -/
theorem Aimed.ends (h : Aimed l c) (ha : a ∈ c.attempts) (hactive : a.active = true)
    (reason : String) :
    EndsAsAsked l a.id c ((c.ended a.id reason).contain a.id) ↔ Undisturbed l a.id c := by
  have hasked : requests a.id l ≠ [] → c.stopRequested a.id = true := by
    intro hasked
    have hs := (h.stopping a ha hactive hasked).stops
    simp [stopRequested, hs]
  have hrevoked : c.revokedAt.isSome = true → c.stopRequested a.id = true := by
    intro hrevoked
    simp [stopRequested, hrevoked]
  constructor
  · intro hends
    refine ⟨fun hne => ?_, fun hnone hr => ?_⟩
    · by_contra hgiven
      obtain ⟨r, hr, -, hreason⟩ := hends.asked hne
      rw [ended_of_requested (hasked hne)] at hreason
      have hword := (h.stopping a ha hactive hne).reason
      rw [if_pos (by simpa using hgiven)] at hword
      have hreason : c.reason = r.2 := hreason
      rw [hreason] at hword
      exact disjoint_reasons (h.reasons a.id r hr) hword
    · have hend := hends.revoked hnone hr
      rw [ended_of_requested (hrevoked hr)] at hend
      rw [← h.target]
      exact status_eq_cancelled.mp hend
  · intro hclean
    refine ⟨fun hne => ?_, fun hnone hr => ?_⟩
    · have hword := (h.stopping a ha hactive hne).reason
      rw [if_neg (by simp [hclean.asked hne])] at hword
      rw [ended_of_requested (hasked hne)]
      exact ⟨_, hword, rfl, rfl⟩
    · rw [ended_of_requested (hrevoked hr)]
      show c.stopTarget.status = .cancelled
      rw [h.target, hclean.revoked hnone hr]
      rfl

end Ledger

open Interleaving Ledger

variable {site : Site} {new : NewJob} {world : World} {now : Time} {moves : List (Move Call Unit)}
  {s s' : Store}

/-! ## Stops over a run -/

theorem recordEvent_stops {event : RunnerEvent} {process : ProcessPayload} {version : Option ℕ}
    {stopOnly : Bool} {answer : EventReceipt × Bool} (hbody : event.body = .attemptStopped process)
    (hnew : recorded s event = false)
    (h : recordEvent event version stopOnly s = .ok (answer, s')) :
    ∃ a ∈ s.attempts, a.id = event.attemptId ∧ a.active = true ∧ ∃ reason,
      ledger s' = ((ledger s).ended a.id reason).contain a.id := by
  obtain ⟨-, a, hmem, hid, ⟨hrec, -⟩ | ⟨-, hadmit, s₁, happly, haudit⟩⟩ := recordEvent_ok h
  · rw [hrec] at hnew
    cases hnew
  simp only [applyEvent, hbody, pure_eq_ok] at happly
  subst happly
  exact ⟨a, hmem, hid, (admitted_of_ok hmem hadmit).1, _, (ledger_audit haudit).trans
    ((ledger_touch (by intro a; rfl)).trans (ledger_attemptStopped s a event))⟩

/-- A step that stops an attempt ends the job of it. -/
theorem stopped_of_history {e : Event Store Tag} {id : Uuid}
    (he : e ∈ history site new world now moves) (h : .stopped id ∈ deedsOf site e) :
    ∃ a ∈ e.pre.attempts, a.id = id ∧ a.active = true ∧ ∃ reason,
      ledger e.post = ((ledger e.pre).ended a.id reason).contain a.id := by
  obtain ⟨haccepted, event, process, ht, rfl, hbody, hnew⟩ := accepted_of_deed h
  rcases ht with ht | ⟨version, ht⟩
  · obtain ⟨answer, hrun⟩ := ran_of_history he haccepted ht
    have hrun : stopEvidence event e.pre = .ok (answer, e.post) := hrun
    obtain ⟨-, a, ⟨hrec, -⟩ | ⟨answer, s₁, hrecord, hpost⟩⟩ := stopEvidence_ok hrun
    · rw [hrec] at hnew
      cases hnew
    · rw [hpost, ledger_touch (by intro a; rfl)]
      exact @recordEvent_stops _ _ { event with sequence := a.eventCursor + 1 } _ _ _ _ hbody hnew
        hrecord
  · obtain ⟨answer, hrun⟩ := ran_of_history he haccepted ht
    have hrun : events event version e.pre = .ok (answer, e.post) := hrun
    exact recordEvent_stops hbody hnew (required_ok hrun)

/-- **A stop ends the job where it was told to** if and only if the attempt was not given up
after it was last asked, and, where only the runner was revoked, no earlier stop left another
target behind: for every stop of every run. -/
theorem endsAsAsked_of_history (site : Site) (new : NewJob) (world : World) (now : Time)
    (moves : List (Move Call Unit)) (past later : List (Event Store Tag)) (e : Event Store Tag)
    (id : Uuid) (h : history site new world now moves = past ++ e :: later)
    (hstop : .stopped id ∈ deedsOf site e) :
    EndsAsAsked (past.flatMap (deedsOf site)) id (ledger e.pre) (ledger e.post) ↔
      Undisturbed (past.flatMap (deedsOf site)) id (ledger e.pre) := by
  have he : e ∈ history site new world now moves := by
    rw [h]
    simp
  have haimed : Aimed [] (ledger (created new world now)) := by
    rw [ledger_created]
    refine ⟨?_, fun _ => rfl, by simp [requests], by simp [requests], by simp⟩
    show (newJob new now).stopTarget = .cancelled
    rfl
  obtain ⟨a, ha, rfl, hactive, reason, hledger⟩ := stopped_of_history he hstop
  rw [hledger]
  exact (past_of_history haimed (fun _ _ _ _ ho he hJ => hJ.entry ho he) h).1.ends
    (a := a.tenure) (mem_ledger ha) hactive reason

/-! ## Runs with stops -/

theorem eq_take_append {α : Type} {l : List α} {n : ℕ} {x : α} (h : l[n]? = some x) :
    l = l.take n ++ x :: l.drop (n + 1) := by
  obtain ⟨hn, rfl⟩ := List.getElem?_eq_some_iff.mp h
  rw [← List.drop_eq_getElem_cons hn, List.take_append_drop]

/-- The attempt is stopped by a cancellation. -/
def cancelledRun : List (Move Call Unit) :=
  request 0 (.claimWork 7) ++ report 1 1 2 startedBody ++ request 2 (.cancelJob 10 2) ++
    report 3 2 3 stoppedBody

/-- The job of a cancelled attempt ends as it was asked to. -/
theorem endsAsAsked_cancelledRun :
    ∃ past e later, history plainSite answerJob openWorld 0 cancelledRun = past ++ e :: later ∧
      .stopped 1 ∈ deedsOf plainSite e ∧
      EndsAsAsked (past.flatMap (deedsOf plainSite)) 1 (ledger e.pre) (ledger e.post) := by
  have hend : (history plainSite answerJob openWorld 0 cancelledRun)[3]?.any
      (fun e => decide (.stopped 1 ∈ deedsOf plainSite e)) = true := by
    decide
  obtain ⟨e, he, hstop⟩ := (Option.any_eq_true _ _).mp hend
  have hstop := of_decide_eq_true hstop
  refine ⟨_, e, _, eq_take_append he, hstop, ?_⟩
  refine (endsAsAsked_of_history plainSite answerJob openWorld 0 cancelledRun _ _ e 1
    (eq_take_append he) hstop).mpr ?_
  exact ⟨fun _ => by decide, fun hnone => absurd hnone (by decide)⟩

/-- The attempt is given up between the cancellation and its stop. -/
def givenUpRun : List (Move Call Unit) :=
  request 0 (.claimWork 7) ++ report 1 1 2 startedBody ++ request 2 (.cancelJob 10 2) ++
    report 3 2 3 (.attemptInterrupted ⟨none, false, ""⟩) ++ report 4 3 4 stoppedBody

/-- An approval is rejected, which blocks the job.  It is resumed, and the runner is revoked. -/
def revokedRun : List (Move Call Unit) :=
  request 0 (.claimWork 7) ++ report 1 1 2 startedBody ++
    request 2 (.proposeOperation firstLease (some 2) ⟨50, .team "rename", none, none⟩) ++
    request 3 (.decideApproval ⟨10, 2, 1, "digest", 3, false⟩) ++ report 4 2 5 stoppedBody ++
    request 5 (.resumeJob 10 5 none) ++ request 6 (.claimWork 8) ++ request 7 .revokeRunner ++
    .start (.stopEvidence { nthEvent 3 stoppedBody with toLeaseIdentity := ⟨1, 4, 2⟩ }) :: rounds 8 1

/-- The cancelled job ends with the reason of the interruption, and the job of the revoked
runner ends blocked, as the rejection had said. -/
theorem elsewhere_givenUpRun :
    (¬ ∀ past e later id, history plainSite answerJob openWorld 0 givenUpRun = past ++ e :: later →
      .stopped id ∈ deedsOf plainSite e →
      EndsAsAsked (past.flatMap (deedsOf plainSite)) id (ledger e.pre) (ledger e.post)) ∧
      ¬ ∀ past e later id,
        history plainSite manageJob confirmingWorld 0 revokedRun = past ++ e :: later →
        .stopped id ∈ deedsOf plainSite e →
        EndsAsAsked (past.flatMap (deedsOf plainSite)) id (ledger e.pre) (ledger e.post) := by
  constructor
  · intro hall
    have hend : (history plainSite answerJob openWorld 0 givenUpRun)[4]?.any (fun e =>
        decide (.stopped 1 ∈ deedsOf plainSite e ∧
          e.post.job.blockedReason = "stop_unconfirmed")) = true := by
      decide
    obtain ⟨e, he, hend⟩ := (Option.any_eq_true _ _).mp hend
    obtain ⟨hstop, hreason⟩ := of_decide_eq_true hend
    have hends := hall _ e _ 1 (eq_take_append he) hstop
    obtain ⟨r, hr, -, hword⟩ := hends.asked (by decide)
    have hword : e.post.job.blockedReason = r.2 := hword
    rw [hreason, List.mem_singleton.mp hr] at hword
    revert hword
    decide
  · intro hall
    have hdeeds : requests 4 (((history plainSite manageJob confirmingWorld 0 revokedRun).take 8)
        |>.flatMap (deedsOf plainSite)) = [] := by
      decide
    have hend : (history plainSite manageJob confirmingWorld 0 revokedRun)[8]?.any (fun e =>
        decide (.stopped 4 ∈ deedsOf plainSite e ∧ e.pre.runnerRevokedAt.isSome = true ∧
          e.post.job.status = .blocked)) = true := by
      decide
    obtain ⟨e, he, hend⟩ := (Option.any_eq_true _ _).mp hend
    obtain ⟨hstop, hrevoked, hblocked⟩ := of_decide_eq_true hend
    have hends := (hall _ e _ 4 (eq_take_append he) hstop).revoked hdeeds hrevoked
    have hends : e.post.job.status = .cancelled := hends
    rw [hblocked] at hends
    cases hends

end GrowTeam.Server
