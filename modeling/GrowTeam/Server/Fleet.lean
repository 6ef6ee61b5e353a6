/-
# The jobs of a realm

`claim_work` looks at more than one job: it counts the active attempts of the runner and of
the realm, finds an earlier claim wherever it went, and passes over candidates until one
can be started.  A fleet has the routines of every job beside each other, as
`GrowTeam.Server.Machine` has those of one; a claim is a move of its own.  The runner of a
job is revoked when its job says so.
-/
import GrowTeam.Server.Runs

namespace GrowTeam.Server

open Interleaving Ledger List Function Machine

/-! ## Fleets -/

/-- A job of the realm: its runner, when it was created, and its tables. -/
structure Post where
  runner : Uuid
  createdAt : Time
  store : Store

/-- The limits and switches of a realm, and its jobs. -/
structure Fleet where
  /-- Another transaction holds the advisory lock. -/
  locked : Bool
  enabled : Bool
  activeJobLimit : ℕ
  /-- `runner.capacity`. -/
  capacity : Uuid → ℕ
  posts : List Post

/-- The active attempts of one job. -/
def Post.working (p : Post) : ℕ := p.store.attempts.countP (·.active)

/-- The active attempts of the runners that `counts` picks. -/
def activeAttempts (counts : Uuid → Bool) : List Post → ℕ
  | [] => 0
  | p :: posts => (if counts p.runner then p.working else 0) + activeAttempts counts posts

/-- What a claim answers: the attempt, where its job is, and its descriptor. -/
structure Grant where
  place : ℕ
  attemptId : Uuid
  descriptor : Descriptor

namespace Fleet

variable (F : Fleet)

/-- No runner's job says that its runner is revoked. -/
def serving (runner : Uuid) : Bool :=
  F.posts.all fun p => p.runner ≠ runner || p.store.runnerRevokedAt.isNone

/-- The attempt of a runner with this claim key. -/
def priorClaim (runner claimKey : Uuid) : Option Grant :=
  F.posts.zipIdx.findSome? fun (p, i) =>
    if p.runner = runner then
      (p.store.attempts.find? (·.claimKey = claimKey)).map fun a => ⟨i, a.id, a.descriptor⟩
    else none

/-- `order_by("created_at", "id")`. -/
def before (p q : Post × ℕ) : Bool :=
  p.1.createdAt < q.1.createdAt ||
    (p.1.createdAt = q.1.createdAt && decide (p.1.store.job.id ≤ q.1.store.job.id))

/-- The first hundred queued jobs of a runner that are not locked. -/
def candidates (runner : Uuid) (skipped : ℕ → Bool) : List ℕ :=
  (((F.posts.zipIdx.filter fun (p, i) =>
    p.runner = runner && p.store.job.status = .queued &&
      decide (p.store.job.nextAttemptAt ≤ p.store.clock) && !skipped i).mergeSort before).take
        100).map Prod.snd

/-- The tables of one job after a transaction. -/
def save (i : ℕ) (s : Store) : Fleet :=
  { F with posts := F.posts.modify i fun p => { p with store := s } }

/-- The loop over the candidates.  The attempt that is started is its job's last. -/
def tryCandidates (claimKey : Uuid) : List ℕ → Fleet → Result (Option Grant × Fleet)
  | [], F => pure (none, F)
  | i :: rest, F =>
    match F.posts[i]? with
    | none => tryCandidates claimKey rest F
    | some p => do
      let (claimed, s) ← claimCandidate p.store claimKey
      if claimed.isSome = true then
        pure (s.attempts.getLast?.map fun a => ⟨i, a.id, a.descriptor⟩, F.save i s)
      else tryCandidates claimKey rest (F.save i s)

/-- `claim_work`.  `skipped` are the jobs that another transaction has locked. -/
def claimWork (runner claimKey : Uuid) (skipped : ℕ → Bool) (F : Fleet) :
    Result (Option Grant × Fleet) :=
  if F.locked = true then .error .busy
  else if F.serving runner = false then .error .missing
  else match F.priorClaim runner claimKey with
    | some grant => pure (some grant, F)
    | none => do
      ensure (F.enabled = true) "Agent feature is disabled."
      if F.capacity runner ≤ activeAttempts (· = runner) F.posts ∨
          F.activeJobLimit ≤ activeAttempts (fun _ => true) F.posts then pure (none, F)
      else tryCandidates claimKey (F.candidates runner skipped) F

end Fleet

/-! ## Runs -/

/-- A fleet, with the routines in flight for each job. -/
structure Realm where
  fleet : Fleet
  tasks : ℕ → List (Routine Store Unit Tag Unit)
  running : ℕ → Option ℕ

/-- What can happen in a realm. -/
inductive RealmMove where
  /-- A move of the routines of one job.  Claims are moves of the realm. -/
  | own (i : ℕ) (move : Move Call Unit)
  | claim (runner claimKey : Uuid) (skipped : ℕ → Bool)
  | create (runner : Uuid) (createdAt : Time) (new : NewJob) (world : World) (now : Time)
  | switch (locked enabled : Bool)
  | limit (activeJobLimit : ℕ) (capacity : Uuid → ℕ)

/-- Whether a step is a claim of its job alone. -/
def claimsAlone (e : Event Store Tag) : Bool :=
  match e.tag.transaction with
  | .claimWork _ => true
  | _ => false

namespace Realm

/-- The routines of one job. -/
def system (R : Realm) (i : ℕ) (s : Store) : System Store Unit Tag := ⟨s, R.tasks i, R.running i⟩

/-- One job is in another state. -/
def put (R : Realm) (i : ℕ) (system : System Store Unit Tag) : Realm :=
  { fleet := R.fleet.save i system.store
    tasks := update R.tasks i system.tasks
    running := update R.running i system.running }

/-- Whether a claim finds another transaction on its way. -/
def busy (R : Realm) : Bool :=
  !(List.range R.fleet.posts.length).all fun i => (R.running i).isNone

/-- A claim, with its answer. -/
def claim (R : Realm) (runner claimKey : Uuid) (skipped : ℕ → Bool) :
    Result (Option Grant) × Realm :=
  if R.busy = true then (.error .busy, R)
  else match R.fleet.claimWork runner claimKey skipped with
    | .ok (answer, F) => (.ok answer, { R with fleet := F })
    | .error fault => (.error fault, R)

/-- One move.  A move that is not possible changes nothing. -/
def move (site : Site) : RealmMove → Realm → Realm
  | .own i m, R =>
    match R.fleet.posts[i]? with
    | none => R
    | some p =>
      let r := (machine site).move m (R.system i p.store)
      if r.2.any claimsAlone = true then R else R.put i r.1
  | .claim runner claimKey skipped, R => (R.claim runner claimKey skipped).2
  | .create runner createdAt new world now, R =>
    let i := R.fleet.posts.length
    { fleet := { R.fleet with
        posts := R.fleet.posts ++ [⟨runner, createdAt, created new world now⟩] }
      tasks := update R.tasks i []
      running := update R.running i none }
  | .switch locked enabled, R =>
    { R with fleet := { R.fleet with locked := locked, enabled := enabled } }
  | .limit activeJobLimit capacity, R =>
    { R with fleet := { R.fleet with activeJobLimit := activeJobLimit, capacity := capacity } }

/-- The realm after a list of moves. -/
def exec (site : Site) (R : Realm) (moves : List RealmMove) : Realm :=
  moves.foldl (fun R m => move site m R) R

/-- A realm without jobs. -/
def empty (activeJobLimit : ℕ) (capacity : Uuid → ℕ) : Realm :=
  ⟨⟨false, true, activeJobLimit, capacity, []⟩, fun _ => [], fun _ => none⟩

end Realm

/-! ## What a job keeps of its attempts -/

/-- The attempts of one job after more of its steps, with those that are new. -/
structure Continues (s s' : Store) (new : List Tenure) : Prop where
  kept : ∃ f, (∀ a, Held a (f a)) ∧
    (ledger s').attempts = (ledger s).attempts.map f ++ new

theorem Continues.refl (s : Store) : Continues s s [] :=
  ⟨fun a => a, .refl, by simp⟩

variable {s s' : Store} {new : List Tenure} {R : Realm} {runner claimKey : Uuid}

/-- Only a claim adds an attempt. -/
theorem continues_of_entries {site : Site} {l : List Deed}
    (h : Entries site (ledger s) l (ledger s')) (hl : ∀ id, .claimed id ∉ l) :
    Continues s s' [] := by
  have key : ∀ {c d : Ledger} {l : List Deed}, Entries site c l d → (∀ id, .claimed id ∉ l) →
      ∃ f, (∀ a, Held a (f a)) ∧ d.attempts = c.attempts.map f := by
    intro c d l h hl
    induction h with
    | refl => exact ⟨fun a => a, .refl, (map_id' _).symm⟩
    | tail hrest he ih =>
      obtain ⟨f, hf, hs⟩ := ih fun id hid => hl id (mem_append_left _ hid)
      rcases he.attempts with ⟨-, ⟨g, hg, hs'⟩ | ⟨a, rfl, -⟩⟩
      · refine ⟨fun a => g (f a), fun a => (hf a).trans (hg _), ?_⟩
        rw [hs', hs, map_map]
        rfl
      · exact absurd (mem_append_right _ (by simp)) (hl a.id)
  obtain ⟨f, hf, hs⟩ := key h hl
  exact ⟨f, hf, by rw [hs, append_nil]⟩

/-- What a candidate does: it is passed over, or its new attempt is the answer. -/
theorem claimCandidate_continues (site : Site) {claimKey : Uuid}
    {claimed : Option Uuid} (hq : s.job.status = .queued) (hr : s.runnerRevokedAt = none)
    (hkey : s.attempts.find? (·.claimKey = claimKey) = none)
    (h : claimCandidate s claimKey = .ok (claimed, s')) : (claimed = none ∧ Continues s s' []) ∨
      ∃ a : Attempt, claimed = some a.id ∧ s'.attempts.getLast? = some a ∧ a.claimKey = claimKey ∧
        a.active = true ∧ (ledger s).Idle ∧ Continues s s' [a.tenure] := by
  have hentries : Entries site _ _ _ := claimCandidate_entries hq hr hkey h
  cases claimed with
  | none => exact .inl ⟨rfl, continues_of_entries hentries (by simp)⟩
  | some id =>
    right
    unfold claimCandidate at h
    split at h
    · simp at h
    split at h
    · simp at h
    · next hidle =>
      split at h
      · split at h <;> simp at h
      · next descriptor _ =>
        simp only [bind_eq_ok, pure_eq_ok, Prod.mk.injEq, Option.some.injEq] at h
        obtain ⟨s₁, haudit, rfl, rfl⟩ := h
        have hnone : s.activeAttempt = none := by simpa using hidle
        have hattempts : s₁.attempts = s.attempts ++ [newAttempt s claimKey descriptor] := by
          simp only [Store.audit, bind_eq_ok, pure_eq_ok] at haudit
          obtain ⟨-, -, rfl⟩ := haudit
          rfl
        refine ⟨newAttempt s claimKey descriptor, rfl, ?_, rfl, rfl, idle_of_none hnone, ?_⟩
        · rw [hattempts, getLast?_append]
          rfl
        · refine ⟨fun a => a, .refl, ?_⟩
          show s₁.attempts.map Attempt.tenure = _
          rw [hattempts]
          simp [ledger]

/-! ## What a fleet keeps -/

variable {site : Site}

/-- The claim keys of one job. -/
def claimKeys (s : Store) : List Uuid := (ledger s).attempts.map (·.claimKey)

theorem Continues.claimKeys (h : Continues s s' new) :
    claimKeys s' = claimKeys s ++ new.map (·.claimKey) := by
  obtain ⟨f, hf, hs⟩ := h.kept
  have hkey : ∀ a, (f a).claimKey = a.claimKey := fun a => congrArg Card.claimKey (hf a).card
  simp [Server.claimKeys, hs, hkey]

/-- More steps of a job leave at most its new attempts active beside those it had. -/
theorem Continues.working (h : Continues s s' new) :
    s'.attempts.countP (·.active) ≤ s.attempts.countP (·.active) + new.length := by
  obtain ⟨f, hf, hs⟩ := h.kept
  have hcount : ∀ s : Store, s.attempts.countP (·.active) = (ledger s).attempts.countP (·.active) := by
    intro s
    show _ = (s.attempts.map Attempt.tenure).countP _
    rw [countP_map]
    rfl
  rw [hcount, hcount, hs, countP_append, countP_map]
  refine Nat.add_le_add (countP_mono_left ?_) countP_le_length
  intro a _ ha
  exact (hf a).active ha

/-- The claim that an attempt was started for. -/
structure Granted (F : Fleet) (runner claimKey : Uuid) (g : Grant) : Prop where
  found : ∃ p, F.posts[g.place]? = some p ∧ p.runner = runner ∧
    ∃ a ∈ (ledger p.store).attempts, a.claimKey = claimKey ∧ a.id = g.attemptId ∧
      a.descriptor = g.descriptor

namespace Fleet

theorem getElem?_save (F : Fleet) (i j : ℕ) (s : Store) :
    (F.save i s).posts[j]? = (F.posts[j]?).map fun p => if i = j then { p with store := s } else p := by
  rw [save, getElem?_modify]
  rfl

/-- A claim key is used for one job of its runner. -/
def KeysApart (F : Fleet) : Prop :=
  ∀ (i j : ℕ) (p q : Post), F.posts[i]? = some p → F.posts[j]? = some q →
    p.runner = q.runner → ∀ key ∈ claimKeys p.store, key ∈ claimKeys q.store → i = j

variable {F : Fleet} {p : Post} {i : ℕ} {s : Store} {runner claimKey : Uuid} {g : Grant}

/-- Saving a job. -/
theorem activeAttempts_save (counts : Uuid → Bool) {n : ℕ} (hp : F.posts[i]? = some p)
    (hle : s.attempts.countP (·.active) ≤ p.working + n) :
    activeAttempts counts (F.save i s).posts ≤
      activeAttempts counts F.posts + if counts p.runner then n else 0 := by
  have key : ∀ (posts : List Post) (i : ℕ), posts[i]? = some p →
      activeAttempts counts (posts.modify i fun p => { p with store := s }) ≤
        activeAttempts counts posts + if counts p.runner then n else 0 := by
    intro posts
    induction posts with
    | nil => intro i hi; simp at hi
    | cons q posts ih =>
      intro i hi
      cases i with
      | zero =>
        obtain rfl : q = p := by simpa using hi
        simp only [modify_zero_cons, activeAttempts]
        have hworking : ({ q with store := s } : Post).working ≤ q.working + n := hle
        split
        · omega
        · omega
      | succ i =>
        simp only [modify_succ_cons, activeAttempts]
        have hrest := ih i (by simpa using hi)
        omega
  exact key F.posts i hp

theorem granted_save {new : List Tenure}
    (hp : F.posts[i]? = some p) (hs : Continues p.store s new) (h : Granted F runner claimKey g) : Granted (F.save i s) runner claimKey g := by
  obtain ⟨q, hq, hrunner, a, ha, hkey, hid, hdescriptor⟩ := h.found
  by_cases hi : i = g.place
  · subst hi
    obtain rfl : p = q := by
      rw [hp] at hq
      exact Option.some.inj hq
    obtain ⟨f, hf, hattempts⟩ := hs.kept
    refine ⟨{ p with store := s }, by rw [getElem?_save, hp]; simp, hrunner, f a, ?_, ?_, ?_, ?_⟩
    · rw [hattempts]
      exact mem_append_left _ (mem_map_of_mem ha)
    · exact (congrArg Card.claimKey (hf a).card).trans hkey
    · exact (congrArg Card.id (hf a).card).trans hid
    · exact (hf a).descriptor.trans hdescriptor
  · refine ⟨q, ?_, hrunner, a, ha, hkey, hid, hdescriptor⟩
    rw [getElem?_save, hq]
    simp [hi]

/-- A job that goes on keeps its claim keys apart from the others', when its new ones are. -/
theorem KeysApart.save (h : F.KeysApart)
    {new : List Tenure} (hp : F.posts[i]? = some p) (hs : Continues p.store s new)
    (hnew : ∀ a ∈ new, ∀ (j : ℕ) (q : Post), F.posts[j]? = some q → q.runner = p.runner →
      a.claimKey ∉ claimKeys q.store) : (F.save i s).KeysApart := by
  have hold : ∀ (j : ℕ) (q' : Post), (F.save i s).posts[j]? = some q' → ∃ q, F.posts[j]? = some q ∧
      q.runner = q'.runner ∧ ∀ key ∈ claimKeys q'.store, key ∈ claimKeys q.store ∨
        (i = j ∧ ∃ a ∈ new, a.claimKey = key) := by
    intro j q' hq'
    rw [getElem?_save] at hq'
    obtain ⟨q, hq, rfl⟩ := Option.map_eq_some_iff.mp hq'
    refine ⟨q, hq, by split <;> rfl, ?_⟩
    intro key hkey
    split at hkey
    · next hij =>
      subst hij
      obtain rfl : p = q := by
        rw [hp] at hq
        exact Option.some.inj hq
      rw [show claimKeys ({ p with store := s } : Post).store = _ from hs.claimKeys] at hkey
      rcases mem_append.mp hkey with hkey | hkey
      · exact .inl hkey
      · exact .inr ⟨rfl, mem_map.mp hkey⟩
    · exact .inl hkey
  intro j k q r hq hr hrunner key hkey hkey'
  obtain ⟨q₀, hq₀, hqr, hqk⟩ := hold j q hq
  obtain ⟨r₀, hr₀, hrr, hrk⟩ := hold k r hr
  have hsame : q₀.runner = r₀.runner := hqr.trans (hrunner.trans hrr.symm)
  rcases hqk key hkey with hk | ⟨rfl, a, ha, rfl⟩
  · rcases hrk key hkey' with hk' | ⟨rfl, b, hb, rfl⟩
    · exact h j k q₀ r₀ hq₀ hr₀ hsame key hk hk'
    · obtain rfl : p = r₀ := by
        rw [hp] at hr₀
        exact Option.some.inj hr₀
      exact absurd hk (hnew b hb j q₀ hq₀ hsame)
  · rcases hrk _ hkey' with hk' | ⟨rfl, -⟩
    · obtain rfl : p = q₀ := by
        rw [hp] at hq₀
        exact Option.some.inj hq₀
      exact absurd hk' (hnew a ha k r₀ hr₀ hsame.symm)
    · rfl

theorem priorClaim_none (h : F.priorClaim runner claimKey = none) (hp : F.posts[i]? = some p)
    (hr : p.runner = runner) : p.store.attempts.find? (·.claimKey = claimKey) = none := by
  have hnone := findSome?_eq_none_iff.mp h (p, i) (mem_zipIdx_iff_getElem?.mpr hp)
  simpa [hr] using hnone

theorem priorClaim_some
    (h : F.priorClaim runner claimKey = some g) : Granted F runner claimKey g := by
  obtain ⟨⟨p, i⟩, hmem, hsome⟩ := exists_of_findSome?_eq_some h
  have hp := mem_zipIdx_iff_getElem?.mp hmem
  dsimp only at hsome hp
  split at hsome
  · next hr =>
    obtain ⟨a, ha, rfl⟩ := Option.map_eq_some_iff.mp hsome
    have hkey : a.claimKey = claimKey := by simpa using find?_some ha
    exact ⟨p, hp, hr, a.tenure, mem_ledger (mem_of_find?_eq_some ha), hkey, rfl, rfl⟩
  · cases hsome

/-- With every key used once, the attempt of a claim is found again. -/
theorem priorClaim_granted (hk : F.KeysApart)
    (ho : ∀ (i : ℕ) (p : Post), F.posts[i]? = some p → Orderly (ledger p.store)) (h : Granted F runner claimKey g) :
    F.priorClaim runner claimKey = some g := by
  obtain ⟨p, hp, hr, t, ht, hkey, hid, hdescriptor⟩ := h.found
  cases hprior : F.priorClaim runner claimKey with
  | none =>
    obtain ⟨a, ha, rfl⟩ := mem_map.mp ht
    have hne := find?_eq_none.mp (priorClaim_none hprior hp hr) a ha
    rw [decide_eq_true_eq] at hne
    exact absurd hkey hne
  | some g' =>
    obtain ⟨p', hp', hr', t', ht', hkey', hid', hdescriptor'⟩ := (priorClaim_some hprior).found
    have hplace : g.place = g'.place := by
      refine hk _ _ p p' hp hp' (hr.trans hr'.symm) claimKey ?_ ?_
      · exact mem_map.mpr ⟨t, ht, hkey⟩
      · exact mem_map.mpr ⟨t', ht', hkey'⟩
    rw [← hplace, hp] at hp'
    cases hp'
    have hkeys : ((ledger p.store).attempts.map (·.claimKey)).Nodup := by
      have hn := (ho _ p hp).roster.keys
      rw [map_map] at hn
      exact hn
    obtain rfl : t = t' := eq_of_key hkeys ht ht' (hkey.trans hkey'.symm)
    rw [show g' = g from ?_]
    cases g
    cases g'
    rw [Grant.mk.injEq]
    exact ⟨hplace.symm, hid'.symm.trans hid, hdescriptor'.symm.trans hdescriptor⟩

/-- The candidates are different jobs of the runner, all queued. -/
theorem candidates_spec {runner : Uuid} {skipped : ℕ → Bool} :
    (F.candidates runner skipped).Nodup ∧ ∀ i ∈ F.candidates runner skipped,
      ∃ p, F.posts[i]? = some p ∧ p.runner = runner ∧ p.store.job.status = .queued := by
  constructor
  · have hnodup : (F.posts.zipIdx.map Prod.snd).Nodup := by
      rw [zipIdx_map_snd]
      exact nodup_range'
    refine List.Nodup.sublist ((take_sublist _ _).map Prod.snd) ?_
    refine ((mergeSort_perm _ _).map Prod.snd).nodup_iff.mpr ?_
    exact hnodup.sublist (filter_sublist.map Prod.snd)
  · intro i hi
    obtain ⟨⟨p, j⟩, hmem, rfl⟩ := mem_map.mp hi
    have hmem := (mergeSort_perm _ _).mem_iff.mp (mem_of_mem_take hmem)
    obtain ⟨hzip, hc⟩ := mem_filter.mp hmem
    simp only [Bool.and_eq_true, decide_eq_true_eq] at hc
    exact ⟨p, mem_zipIdx_iff_getElem?.mp hzip, hc.1.1.1, hc.1.1.2⟩

end Fleet

/-! ## What a realm keeps -/

/-- The routines of every job keep the rules, and every claim key is used once. -/
structure Realm.Sound (site : Site) (R : Realm) : Prop where
  covered : ∀ (i : ℕ) (p : Post), R.fleet.posts[i]? = some p →
    Machine.Covered (rules site False) (R.system i p.store) ∧
      Machine.Covered (ordered site) (R.system i p.store)
  keys : R.fleet.KeysApart

theorem Realm.Sound.orderly (h : R.Sound site) (i : ℕ) (p : Post)
    (hp : R.fleet.posts[i]? = some p) : Orderly (ledger p.store) :=
  (h.covered i p hp).2.1

/-- What a claim does to the fleet. -/
structure Fleet.Claimed (runner claimKey : Uuid) (F F' : Fleet) (answer : Option Grant) :
    Prop where
  limits : F'.capacity = F.capacity ∧ F'.activeJobLimit = F.activeJobLimit
  active : ∀ counts : Uuid → Bool, activeAttempts counts F'.posts ≤
    activeAttempts counts F.posts + if counts runner then answer.toList.length else 0
  granted : ∀ r k g, Granted F r k g → Granted F' r k g
  answered : ∀ g ∈ answer, Granted F' runner claimKey g

/-- One candidate. -/
theorem Realm.Sound.candidate (hR : R.Sound site) {i : ℕ} {p : Post} {claimKey : Uuid}
    {claimed : Option Uuid} {s : Store} (hp : R.fleet.posts[i]? = some p)
    (hpark : R.running i = none) (hq : p.store.job.status = .queued)
    (hr : p.store.runnerRevokedAt = none)
    (hfree : ∀ (j : ℕ) (q : Post), R.fleet.posts[j]? = some q → q.runner = p.runner →
      claimKey ∉ claimKeys q.store)
    (h : claimCandidate p.store claimKey = .ok (claimed, s)) (hs : Continues p.store s new)
    (hnew : ∀ a ∈ new, a.claimKey = claimKey) :
    Realm.Sound site { R with fleet := R.fleet.save i s } := by
  obtain ⟨hrules, hordered⟩ := hR.covered i p hp
  have hkey : p.store.attempts.find? (·.claimKey = claimKey) = none := by
    refine find?_eq_none.mpr fun a ha => ?_
    rw [decide_eq_true_eq]
    intro hk
    exact hfree i p hp rfl (mem_map.mpr ⟨a.tenure, mem_ledger ha, hk⟩)
  have hpath := claimCandidate_path hq h
  have hentries : Entries site _ _ _ := claimCandidate_entries hq hr hkey h
  have hsound : Outline.Sound site (outline p.store) := hrules.1
  have horderly : Orderly (ledger p.store) := hordered.1
  refine ⟨fun j q hq' => ?_, hR.keys.save hp hs ?_⟩
  · rw [Fleet.getElem?_save] at hq'
    obtain ⟨q, hq₀, rfl⟩ := Option.map_eq_some_iff.mp hq'
    by_cases hij : i = j
    · subst hij
      rw [if_pos rfl]
      exact ⟨covered_write hrules hpark (hsound.path hpath) (hsound.extends_path hpath),
        covered_write hordered hpark (horderly.entries hentries) ⟨_, hentries⟩⟩
    · rw [if_neg hij]
      exact hR.covered j q hq₀
  · intro a ha j q hq₀ hrunner
    rw [hnew a ha]
    exact hfree j q hq₀ hrunner

/-- The loop over the candidates. -/
theorem Realm.Sound.tryCandidates (hR : R.Sound site)
    {ids : List ℕ} {answer : Option Grant} {F' : Fleet} (hnodup : ids.Nodup)
    (hids : ∀ i ∈ ids, ∃ p, R.fleet.posts[i]? = some p ∧ p.runner = runner ∧
      p.store.job.status = .queued ∧ p.store.runnerRevokedAt = none ∧ R.running i = none)
    (hfree : ∀ (j : ℕ) (q : Post), R.fleet.posts[j]? = some q → q.runner = runner →
      claimKey ∉ claimKeys q.store)
    (h : Fleet.tryCandidates claimKey ids R.fleet = .ok (answer, F')) :
    Realm.Sound site { R with fleet := F' } ∧
      Fleet.Claimed runner claimKey R.fleet F' answer := by
  induction ids generalizing R with
  | nil =>
    obtain ⟨rfl, rfl⟩ := h
    exact ⟨hR, ⟨rfl, rfl⟩, fun _ => Nat.le_add_right _ _, fun _ _ _ hg => hg, by simp⟩
  | cons i ids ih =>
    obtain ⟨p, hp, hrunner, hq, hr, hpark⟩ := hids i (by simp)
    obtain ⟨hi, hnodup⟩ := nodup_cons.mp hnodup
    simp only [Fleet.tryCandidates, hp, bind_eq_ok] at h
    obtain ⟨⟨claimed, s⟩, hclaim, h⟩ := h
    have hfree' : ∀ (j : ℕ) (q : Post), R.fleet.posts[j]? = some q → q.runner = p.runner →
        claimKey ∉ claimKeys q.store := by
      intro j q hq' hqr
      exact hfree j q hq' (hqr.trans hrunner)
    have hkey : p.store.attempts.find? (·.claimKey = claimKey) = none := by
      refine find?_eq_none.mpr fun a ha => ?_
      rw [decide_eq_true_eq]
      intro hk
      exact hfree i p hp hrunner (mem_map.mpr ⟨a.tenure, mem_ledger ha, hk⟩)
    rcases claimCandidate_continues site hq hr hkey hclaim with
      ⟨rfl, hs⟩ | ⟨a, rfl, hlast, hak, hactive, hidle, hs⟩
    · -- The job was passed over.
      have hR' := hR.candidate hp hpark hq hr hfree' hclaim hs (by simp)
      have hothers : ∀ (j : ℕ) (q : Post), (R.fleet.save i s).posts[j]? = some q →
          q.runner = runner → claimKey ∉ claimKeys q.store := by
        intro j q hq' hqr
        rw [Fleet.getElem?_save] at hq'
        obtain ⟨q, hq₀, rfl⟩ := Option.map_eq_some_iff.mp hq'
        by_cases hij : i = j
        · subst hij
          rw [if_pos rfl]
          rw [hs.claimKeys, map_nil, append_nil]
          exact hfree i p hp hrunner
        · rw [if_neg hij] at hqr ⊢
          exact hfree j q hq₀ hqr
      obtain ⟨hsound, hclaimed⟩ := ih hR' hnodup (fun j hj => by
        obtain ⟨q, hq₀, hrest⟩ := hids j (by simp [hj])
        have hij : i ≠ j := fun hij => hi (hij ▸ hj)
        refine ⟨q, ?_, hrest⟩
        rw [Fleet.getElem?_save, hq₀]
        simp [hij]) hothers h
      refine ⟨hsound, hclaimed.limits, fun counts => ?_, fun r k g hg => ?_, hclaimed.answered⟩
      · have hsave := Fleet.activeAttempts_save counts hp hs.working
        have hrest : activeAttempts counts F'.posts ≤ activeAttempts counts (R.fleet.save i s).posts +
            if counts runner then answer.toList.length else 0 := hclaimed.active counts
        rw [length_nil, ite_self] at hsave
        exact le_trans hrest (Nat.add_le_add_right hsave _)
      · exact hclaimed.granted r k g (Fleet.granted_save hp hs hg)
    · -- Its attempt is the answer.
      simp only [Option.isSome_some, if_true, hlast, Option.map_some, pure_eq_ok,
        Prod.mk.injEq] at h
      obtain ⟨rfl, rfl⟩ := h
      have hR' := hR.candidate hp hpark hq hr hfree' hclaim hs fun b hb => by
        rw [mem_singleton.mp hb]
        exact hak
      refine ⟨hR', ⟨rfl, rfl⟩, fun counts => ?_, fun r k g hg => Fleet.granted_save hp hs hg, ?_⟩
      · have hsave := Fleet.activeAttempts_save counts hp hs.working
        rw [hrunner] at hsave
        exact hsave
      · rintro g ⟨rfl⟩
        obtain ⟨f, -, hattempts⟩ := hs.kept
        refine ⟨{ p with store := s }, by rw [Fleet.getElem?_save, hp]; simp, hrunner, a.tenure, ?_,
          hak, rfl, rfl⟩
        rw [hattempts]
        simp

/-- Both limits hold for a fleet. -/
structure Fleet.Within (F : Fleet) : Prop where
  capacity : ∀ runner, activeAttempts (· = runner) F.posts ≤ F.capacity runner
  realm : activeAttempts (fun _ => true) F.posts ≤ F.activeJobLimit

/-- A claim: it keeps the invariant, and whoever is given a new attempt finds both limits
kept by it. -/
theorem Realm.Sound.claimWork (hR : R.Sound site) (hbusy : R.busy = false) {skipped : ℕ → Bool} {answer : Option Grant} {F' : Fleet}
    (h : R.fleet.claimWork runner claimKey skipped = .ok (answer, F')) :
    Realm.Sound site { R with fleet := F' } ∧
      (∀ r k g, Granted R.fleet r k g → Granted F' r k g) ∧
      (∀ g ∈ answer, Granted F' runner claimKey g) ∧
      (R.fleet.Within → F'.Within) ∧
      (∀ g ∈ answer, ¬ Granted R.fleet runner claimKey g →
        activeAttempts (· = runner) F'.posts ≤ F'.capacity runner ∧
          activeAttempts (fun _ => true) F'.posts ≤ F'.activeJobLimit) := by
  have hpark : ∀ (i : ℕ) (p : Post), R.fleet.posts[i]? = some p → R.running i = none := by
    intro i p hp
    have hlt : i < R.fleet.posts.length := (List.getElem?_eq_some_iff.mp hp).1
    rw [Realm.busy, Bool.not_eq_false'] at hbusy
    simpa using all_eq_true.mp hbusy i (mem_range.mpr hlt)
  unfold Fleet.claimWork at h
  split at h
  · cases h
  split at h
  · cases h
  next hserving =>
  split at h
  · next g hprior =>
    obtain ⟨rfl, rfl⟩ := h
    have hgranted := Fleet.priorClaim_some hprior
    exact ⟨hR, fun _ _ _ h => h, by simpa using hgranted, id, by simp [hgranted]⟩
  next hprior =>
  rw [bind_eq_ok] at h
  obtain ⟨-, -, h⟩ := h
  split at h
  · obtain ⟨rfl, rfl⟩ := h
    exact ⟨hR, fun _ _ _ h => h, by simp, id, by simp⟩
  next hroom =>
  have hfree : ∀ (j : ℕ) (q : Post), R.fleet.posts[j]? = some q → q.runner = runner →
      claimKey ∉ claimKeys q.store := by
    intro j q hq hqr hk
    obtain ⟨t, ht, hkey⟩ := mem_map.mp hk
    obtain ⟨a, ha, rfl⟩ := mem_map.mp ht
    have hne := find?_eq_none.mp (Fleet.priorClaim_none hprior hq hqr) a ha
    rw [decide_eq_true_eq] at hne
    exact hne hkey
  have hspec := @Fleet.candidates_spec R.fleet runner skipped
  obtain ⟨hsound, hclaimed⟩ := hR.tryCandidates hspec.1 (fun i hi => by
    obtain ⟨p, hp, hr, hq⟩ := hspec.2 i hi
    refine ⟨p, hp, hr, hq, ?_, hpark i p hp⟩
    rw [Bool.not_eq_false] at hserving
    have hall := all_eq_true.mp hserving p (mem_of_getElem? hp)
    simpa [hr] using hall) hfree h
  have hlength : answer.toList.length ≤ 1 := by cases answer <;> simp
  have hrunner : activeAttempts (· = runner) F'.posts ≤ F'.capacity runner := by
    have hone := hclaimed.active (· = runner)
    rw [hclaimed.limits.1]
    simp only [decide_true, if_true] at hone
    omega
  have hrealm : activeAttempts (fun _ => true) F'.posts ≤ F'.activeJobLimit := by
    have hone := hclaimed.active fun _ => true
    rw [hclaimed.limits.2]
    simp only [if_true] at hone
    omega
  refine ⟨hsound, hclaimed.granted, hclaimed.answered, fun hw => ⟨fun r => ?_, hrealm⟩,
    fun _ _ _ => ⟨hrunner, hrealm⟩⟩
  by_cases hr : r = runner
  · rw [hr]
    exact hrunner
  · have hother := hclaimed.active (· = r)
    rw [hclaimed.limits.1]
    simp only [Ne.symm hr, decide_false, Bool.false_eq_true, if_false, Nat.add_zero] at hother
    exact le_trans hother (hw.capacity r)

/-! ## Moves -/

/-- What a move keeps of a realm. -/
structure Realm.Keeps (site : Site) (R R' : Realm) : Prop where
  sound : R'.Sound site
  granted : ∀ r k g, Granted R.fleet r k g → Granted R'.fleet r k g

/-- Steps of one job that are no claims. -/
theorem Realm.Sound.put (hR : R.Sound site) {i : ℕ} {p : Post}
    (hp : R.fleet.posts[i]? = some p) {system : System Store Unit Tag}
    (hrules : Machine.Covered (rules site False) system)
    (hordered : Machine.Covered (ordered site) system) (hs : Continues p.store system.store []) :
    R.Keeps site (R.put i system) ∧ (R.fleet.Within → (R.put i system).fleet.Within) := by
  refine ⟨⟨⟨fun j q hq => ?_, hR.keys.save hp hs (by simp)⟩,
    fun r k g hg => Fleet.granted_save hp hs hg⟩, fun hw => ⟨fun r => ?_, ?_⟩⟩
  · have hq : (R.fleet.save i system.store).posts[j]? = some q := hq
    rw [Fleet.getElem?_save] at hq
    obtain ⟨q, hq₀, rfl⟩ := Option.map_eq_some_iff.mp hq
    by_cases hij : i = j
    · subst hij
      have hsystem : (R.put i system).system i system.store = system := by
        simp [Realm.put, Realm.system]
      rw [if_pos rfl, hsystem]
      exact ⟨hrules, hordered⟩
    · have hsystem : (R.put i system).system j q.store = R.system j q.store := by
        simp [Realm.put, Realm.system, Ne.symm hij]
      rw [if_neg hij, hsystem]
      exact hR.covered j q hq₀
  · have hsave := Fleet.activeAttempts_save (· = r) hp hs.working
    rw [length_nil, ite_self] at hsave
    exact le_trans hsave (hw.capacity r)
  · have hsave := Fleet.activeAttempts_save (fun _ => true) hp hs.working
    exact le_trans hsave hw.realm

theorem Realm.Sound.own (hR : R.Sound site) {i : ℕ} {p : Post}
    (hp : R.fleet.posts[i]? = some p) (m : Move Call Unit)
    (hm : ((machine site).move m (R.system i p.store)).2.any claimsAlone = false) :
    R.Keeps site (R.put i ((machine site).move m (R.system i p.store)).1) ∧
      (R.fleet.Within → (R.put i ((machine site).move m (R.system i p.store)).1).fleet.Within) := by
  obtain ⟨hrules, hordered⟩ := hR.covered i p hp
  obtain ⟨hrules', hmeets⟩ := covered_move (keeps site False) hrules m
    fun _ _ h => h.elim
  obtain ⟨hordered', hentries⟩ := covered_move (keeps_ordered site) hordered m
    fun e he => ⟨(hmeets e he).pre, (hmeets e he).owed.1⟩
  refine hR.put hp hrules' hordered' ?_
  cases hstep : ((machine site).move m (R.system i p.store)).2 with
  | none =>
    have hsame : ((machine site).move m (R.system i p.store)).1.store = p.store := by
      rcases (machine site).move_silent hstep with h | h <;> exact h
    rw [hsame]
    exact .refl _
  | some e =>
    obtain ⟨hpre, hpost⟩ := (machine site).move_event hstep
    have hwritten := entries_of_meets (hmeets e hstep) (hentries e hstep)
    rw [hpre, hpost] at hwritten
    refine continues_of_entries hwritten fun id => ?_
    rw [hstep] at hm
    unfold deedsOf
    split
    · intro hid
      obtain ⟨key, hkey⟩ := doneBy_of_mem hid
      simp [claimsAlone, hkey] at hm
    · simp

theorem activeAttempts_append (counts : Uuid → Bool) (posts : List Post) (p : Post) :
    activeAttempts counts (posts ++ [p]) =
      activeAttempts counts posts + if counts p.runner then p.working else 0 := by
  induction posts with
  | nil => simp [activeAttempts]
  | cons q posts ih =>
    simp only [cons_append, activeAttempts, ih]
    omega

theorem Realm.Sound.create (hR : R.Sound site) (runner : Uuid) (createdAt : Time)
    (new : NewJob) (world : World) (now : Time) :
    R.Keeps site (Realm.move site (.create runner createdAt new world now) R) ∧
      (R.fleet.Within →
        (Realm.move site (.create runner createdAt new world now) R).fleet.Within) := by
  let p : Post := ⟨runner, createdAt, created new world now⟩
  have hempty : (ledger p.store).attempts = [] := by
    rw [ledger_created]
  have hnone : p.store.attempts = [] := map_eq_nil_iff.mp hempty
  have hposts : ∀ (j : ℕ) (q : Post), (R.fleet.posts ++ [p])[j]? = some q →
      R.fleet.posts[j]? = some q ∨ j = R.fleet.posts.length ∧ q = p := by
    intro j q hq
    rcases Nat.lt_trichotomy j R.fleet.posts.length with hlt | rfl | hgt
    · rw [getElem?_append_left hlt] at hq
      exact .inl hq
    · rw [getElem?_concat_length, Option.some.injEq] at hq
      exact .inr ⟨rfl, hq.symm⟩
    · rw [getElem?_eq_none (by simp; omega)] at hq
      cases hq
  refine ⟨⟨⟨fun j q hq => ?_, ?_⟩, fun r k g hg => ?_⟩, fun hw => ⟨fun r => ?_, ?_⟩⟩
  · rcases hposts j q hq with hq | ⟨rfl, rfl⟩
    · have hlt : j < R.fleet.posts.length := (List.getElem?_eq_some_iff.mp hq).1
      have hsystem : (Realm.move site (.create runner createdAt new world now) R).system j
          q.store = R.system j q.store := by
        simp [Realm.move, Realm.system, Nat.ne_of_lt hlt]
      rw [hsystem]
      exact hR.covered j q hq
    · have hsystem : (Realm.move site (.create runner createdAt new world now) R).system
          R.fleet.posts.length p.store = .idle (created new world now) := by
        simp [Realm.move, Realm.system, System.idle, p]
      rw [hsystem]
      exact ⟨covered_idle (sound_created new world now),
        covered_idle (orderly_created new world now)⟩
  · intro i j q r hq hr hrunner key hkey hkey'
    rcases hposts i q hq with hq | ⟨-, rfl⟩
    · rcases hposts j r hr with hr | ⟨-, rfl⟩
      · exact hR.keys i j q r hq hr hrunner key hkey hkey'
      · simp [claimKeys, hempty] at hkey'
    · simp [claimKeys, hempty] at hkey
  · obtain ⟨q, hq, hrest⟩ := hg.found
    have hlt : g.place < R.fleet.posts.length := (List.getElem?_eq_some_iff.mp hq).1
    refine ⟨q, ?_, hrest⟩
    show (R.fleet.posts ++ [p])[g.place]? = some q
    rw [getElem?_append_left hlt]
    exact hq
  · show activeAttempts _ (R.fleet.posts ++ [p]) ≤ R.fleet.capacity r
    rw [activeAttempts_append]
    simpa [Post.working, hnone] using hw.capacity r
  · show activeAttempts _ (R.fleet.posts ++ [p]) ≤ R.fleet.activeJobLimit
    rw [activeAttempts_append]
    simpa [Post.working, hnone] using hw.realm

/-- **Moves keep a realm.** -/
theorem Realm.Sound.move (hR : R.Sound site) (m : RealmMove) : R.Keeps site (Realm.move site m R) ∧
      ((∀ activeJobLimit capacity, m ≠ .limit activeJobLimit capacity) → R.fleet.Within →
        (Realm.move site m R).fleet.Within) := by
  have hsame : R.Keeps site R := ⟨hR, fun _ _ _ h => h⟩
  cases m with
  | own i m =>
    simp only [Realm.move]
    split
    · exact ⟨hsame, fun _ h => h⟩
    · next p hp =>
      split
      · exact ⟨hsame, fun _ h => h⟩
      · next hm =>
        obtain ⟨hkeeps, hwithin⟩ := hR.own hp m (by simpa using hm)
        exact ⟨hkeeps, fun _ => hwithin⟩
  | claim runner claimKey skipped =>
    rw [Realm.move, Realm.claim]
    split
    · exact ⟨hsame, fun _ h => h⟩
    · next hbusy =>
      split
      · next answer F' hclaim =>
        obtain ⟨hsound, hgranted, -, hwithin, -⟩ := hR.claimWork (by simpa using hbusy) hclaim
        exact ⟨⟨hsound, hgranted⟩, fun _ => hwithin⟩
      · exact ⟨hsame, fun _ h => h⟩
  | create runner createdAt new world now =>
    obtain ⟨hkeeps, hwithin⟩ := hR.create runner createdAt new world now
    exact ⟨hkeeps, fun _ => hwithin⟩
  | switch locked enabled =>
    exact ⟨⟨⟨hR.covered, hR.keys⟩, fun _ _ _ h => ⟨h.found⟩⟩, fun _ h => ⟨h.capacity, h.realm⟩⟩
  | limit activeJobLimit capacity =>
    exact ⟨⟨⟨hR.covered, hR.keys⟩, fun _ _ _ h => ⟨h.found⟩⟩, fun h => absurd rfl (h _ _)⟩

theorem Realm.Sound.exec (hR : R.Sound site) (moves : List RealmMove) :
    R.Keeps site (R.exec site moves) := by
  induction moves generalizing R with
  | nil => exact ⟨hR, fun _ _ _ h => h⟩
  | cons m moves ih =>
    have hmove := (hR.move m).1
    have hrest := ih hmove.sound
    exact ⟨hrest.sound, fun r k g h => hrest.granted r k g (hmove.granted r k g h)⟩

/-- While nobody changes the limits, they hold. -/
theorem Realm.Sound.within (hR : R.Sound site) (hw : R.fleet.Within) {moves : List RealmMove}
    (hm : ∀ activeJobLimit capacity, .limit activeJobLimit capacity ∉ moves) :
    (R.exec site moves).fleet.Within := by
  induction moves generalizing R with
  | nil => exact hw
  | cons m moves ih =>
    obtain ⟨hkeeps, hwithin⟩ := hR.move m
    refine ih hkeeps.sound (hwithin (fun l c hlc => hm l c (by simp [hlc])) hw) ?_
    exact fun l c hmem => hm l c (mem_cons_of_mem _ hmem)

theorem Realm.sound_empty (site : Site) (activeJobLimit : ℕ) (capacity : Uuid → ℕ) :
    (Realm.empty activeJobLimit capacity).Sound site :=
  ⟨fun i p hp => by simp [Realm.empty] at hp, fun i j p q hp => by simp [Realm.empty] at hp⟩

/-! ## Attempts of a realm -/

theorem working_eq (p : Post) : p.working = (ledger p.store).attempts.countP (·.active) := by
  show _ = (p.store.attempts.map Attempt.tenure).countP _
  rw [countP_map]
  rfl

/-- A job has at most one active attempt; its status says when there is one. -/
theorem Ledger.Crew.working {status : JobState} {attempts : List Tenure}
    (h : Crew status attempts) :
    attempts.countP (·.active) ≤ 1 ∧
      (status ∈ busyStatuses → attempts.countP (·.active) = 1) ∧
      (status ∈ idleStatuses → attempts.countP (·.active) = 0) := by
  have hone : ∀ attempts : List Tenure, attempts.Pairwise (fun a _ => a.active = false) →
      attempts.countP (·.active) ≤ 1 := by
    intro attempts
    induction attempts with
    | nil => simp
    | cons a attempts ih =>
      intro hp
      obtain ⟨ha, hp⟩ := pairwise_cons.mp hp
      cases attempts with
      | nil => simpa using countP_le_length (p := fun a : Tenure => a.active) (l := [a])
      | cons b attempts =>
        rw [countP_cons_of_neg (by simp [ha b (by simp)])]
        exact ih hp
  refine ⟨hone attempts h.last, fun hs => ?_, fun hs => ?_⟩
  · obtain ⟨a, ha, hactive⟩ := h.busy hs
    have hpos := countP_pos_iff.mpr ⟨a, ha, hactive⟩
    exact le_antisymm (hone attempts h.last) hpos
  · rw [countP_eq_zero]
    intro a ha
    simp [h.idle hs a ha]

/-- A claim that was answered is answered alike, as long as its runner is served. -/
theorem Realm.Sound.reclaim (hR : R.Sound site) {g : Grant}
    (hg : Granted R.fleet runner claimKey g) (skipped : ℕ → Bool) :
    (R.claim runner claimKey skipped).2 = R ∧
      ((R.claim runner claimKey skipped).1 = .ok (some g) ∨
        (R.claim runner claimKey skipped).1 = .error .busy ∧
          (R.busy = true ∨ R.fleet.locked = true) ∨
        (R.claim runner claimKey skipped).1 = .error .missing ∧
          R.fleet.serving runner = false) := by
  have hprior := Fleet.priorClaim_granted hR.keys hR.orderly hg
  unfold Realm.claim Fleet.claimWork
  rw [hprior]
  cases R.busy <;> cases R.fleet.locked <;> cases R.fleet.serving runner <;> simp [pure, Except.pure]

/-- **The attempts of a realm.**  After any run, every job has at most one active attempt,
exactly one while somebody works for it and none while it is queued; its attempts are
numbered from one, and so are their epochs.  A claim that is given a new attempt keeps to
the capacity of its runner and the limit of the realm, which are kept in every state while
nobody changes them.  A claim key that was answered is answered with the same attempt for
good, and nothing else happens. -/
theorem attempts_of_realm (site : Site) (activeJobLimit : ℕ) (capacity : Uuid → ℕ)
    (moves : List RealmMove) :
    let R := (Realm.empty activeJobLimit capacity).exec site moves
    (∀ p ∈ R.fleet.posts, p.working ≤ 1 ∧
      (p.store.job.status ∈
        [.running, .waitingForInput, .waitingForApproval, .cancelRequested] → p.working = 1) ∧
      (p.store.job.status = .queued → p.working = 0) ∧
      p.store.attempts.map (·.number) = List.range' 1 p.store.attempts.length ∧
      ∀ a ∈ p.store.attempts, a.leaseEpoch = a.number) ∧
    ((∀ activeJobLimit capacity, .limit activeJobLimit capacity ∉ moves) → R.fleet.Within) ∧
    ∀ runner claimKey skipped g, (R.claim runner claimKey skipped).1 = .ok (some g) →
      let R₁ := (R.claim runner claimKey skipped).2
      (¬ Granted R.fleet runner claimKey g →
        activeAttempts (· = runner) R₁.fleet.posts ≤ R₁.fleet.capacity runner ∧
          activeAttempts (fun _ => true) R₁.fleet.posts ≤ R₁.fleet.activeJobLimit) ∧
      ∀ later skipped',
        let R₂ := R₁.exec site later
        (R₂.claim runner claimKey skipped').2 = R₂ ∧
          ((R₂.claim runner claimKey skipped').1 = .ok (some g) ∨
            (R₂.claim runner claimKey skipped').1 = .error .busy ∧
              (R₂.busy = true ∨ R₂.fleet.locked = true) ∨
            (R₂.claim runner claimKey skipped').1 = .error .missing ∧
              R₂.fleet.serving runner = false) := by
  intro R
  have hempty := Realm.sound_empty site activeJobLimit capacity
  have hR : R.Sound site := (hempty.exec moves).sound
  refine ⟨fun p hp => ?_, fun hm => hempty.within ⟨fun r => ?_, ?_⟩ hm, ?_⟩
  · obtain ⟨i, hi⟩ := mem_iff_getElem?.mp hp
    have ho := hR.orderly i p hi
    obtain ⟨hone, hbusy, hidle⟩ := ho.crew.working
    rw [← working_eq] at hone hbusy hidle
    refine ⟨hone, hbusy, fun hq => hidle ?_, ?_, fun a ha => ?_⟩
    · rw [show (ledger p.store).status = .queued from hq]
      decide
    · have hnumbered := ho.roster.numbered
      simpa [ledger, Function.comp_def, Attempt.tenure, card] using hnumbered
    · exact ho.roster.epochs (card a.tenure) (mem_map_of_mem (mem_ledger ha))
  · exact Nat.zero_le _
  · exact Nat.zero_le _
  · intro runner claimKey skipped g hclaim R₁
    have hR₁ : R₁.Sound site := (hR.move (.claim runner claimKey skipped)).1.sound
    have hsplit : R.busy = false ∧ ∃ F, R.fleet.claimWork runner claimKey skipped = .ok (some g, F) ∧
        R₁ = { R with fleet := F } := by
      have hsecond : R₁ = (R.claim runner claimKey skipped).2 := rfl
      unfold Realm.claim at hclaim hsecond
      split at hclaim
      · cases hclaim
      · next hbusy =>
        rw [if_neg hbusy] at hsecond
        refine ⟨by simpa using hbusy, ?_⟩
        split at hclaim
        · next answer F hwork =>
          rw [hwork] at hsecond
          cases hclaim
          exact ⟨F, hwork, hsecond⟩
        · cases hclaim
    obtain ⟨hbusy, F, hwork, hfleet⟩ := hsplit
    obtain ⟨-, -, hanswered, -, hroom⟩ := hR.claimWork hbusy hwork
    have hgranted : Granted R₁.fleet runner claimKey g := by
      rw [hfleet]
      exact hanswered g rfl
    refine ⟨fun hnew => ?_, fun later skipped' => ?_⟩
    · rw [hfleet]
      exact hroom g rfl hnew
    · have hkeeps := hR₁.exec later
      exact hkeeps.sound.reclaim (hkeeps.granted _ _ _ hgranted) skipped'

end GrowTeam.Server
