/-
# Requests that nest user groups (`zerver/lib/user_groups.py`, `zerver/views/user_groups.py`)

A request adds subgroups to a group and removes others, in one transaction.  For each of the two it
first locks the subgroups and all that is nested in them, without waiting for others, and then the
group itself, for which it waits.  What it writes is seen by others when it is committed.  Each
statement is one step, and any number of requests take their steps in any order.
-/
import GrowTeam.History
import GrowTeam.Nesting

namespace GrowTeam.Groups

open History Nesting List Bool

/-- `GroupGroupMembership`: a supergroup and a subgroup of it. -/
abbrev Membership := ℕ × ℕ

/-- What is done to the subgroups of a group. -/
inductive Kind where
  | add
  | delete
  deriving DecidableEq

/-- One of the thunks of `update_subgroups_of_user_group`. -/
structure Thunk where
  kind : Kind
  userGroupId : ℕ
  subgroupIds : List ℕ

/-- What a thunk has done so far. -/
inductive Stage where
  | start
  | subgroupsLocked (recursiveSubgroups : List ℕ)
  | supergroupLocked (recursiveSubgroups : List ℕ)
  | checked (recursiveSubgroups : List ℕ)

/-- `context.recursive_subgroups`, once they are known. -/
def Stage.recursiveSubgroups : Stage → List ℕ
  | .start => []
  | .subgroupsLocked groups => groups
  | .supergroupLocked groups => groups
  | .checked groups => groups

/-- A request under way: the thunks to come, and the memberships it has created and deleted. -/
structure Transaction where
  thunks : List Thunk
  stage : Stage
  added : List Membership
  removed : List Membership

/-- The named groups of the realm, the committed memberships, the rows that are locked together
with the transaction that holds each lock, and the transactions that are open. -/
structure Database where
  groups : List ℕ
  memberships : List Membership
  locks : List (ℕ × ℕ)
  transactions : ℕ → Option Transaction

/-- What becomes of a statement. -/
inductive Answer where
  | ok
  | waits
  | failed
  | committed

namespace Database

variable (d : Database)

/-- The memberships that the statements of a transaction see. -/
def visible (t : Transaction) : List Membership :=
  (d.memberships.filter fun e => e ∉ t.removed) ++ t.added

/-- No other transaction holds a lock on the rows. -/
def free (i : ℕ) (rows : List ℕ) : Bool :=
  rows.all fun g => d.locks.all fun l => l.1 ≠ g || l.2 = i

/-- The transaction goes on, with locks on some more rows. -/
def proceed (i : ℕ) (t : Transaction) (rows : List ℕ) : Database :=
  { d with
    locks := rows.map (·, i) ++ d.locks
    transactions := Function.update d.transactions i (some t) }

/-- The transaction ends, and leaves these memberships. -/
def finish (i : ℕ) (memberships : List Membership) : Database :=
  { d with
    memberships := memberships
    locks := d.locks.filter fun l => l.2 ≠ i
    transactions := Function.update d.transactions i none }

/-- The transaction is rolled back. -/
def rollback (i : ℕ) : Answer × Database := (.failed, d.finish i d.memberships)

end Database

/-- `context.direct_subgroups`. -/
def Thunk.directSubgroups (thunk : Thunk) (recursiveSubgroups : List ℕ) : List ℕ :=
  recursiveSubgroups.filter fun g => g ∈ thunk.subgroupIds

/-- The checks of `add_subgroups_to_group_backend` and `remove_subgroups_from_group_backend` that
are about memberships. -/
def Thunk.allowed (thunk : Thunk) (existingDirectSubgroupIds recursiveSubgroups : List ℕ) : Bool :=
  match thunk.kind with
  | .add =>
    (thunk.directSubgroups recursiveSubgroups).all (· ∉ existingDirectSubgroupIds) &&
      thunk.userGroupId ∉ recursiveSubgroups
  | .delete => (thunk.directSubgroups recursiveSubgroups).all (· ∈ existingDirectSubgroupIds)

/-- `add_subgroups_to_user_group` and `remove_subgroups_from_user_group`. -/
def Thunk.write (thunk : Thunk) (recursiveSubgroups : List ℕ) (t : Transaction) : Transaction :=
  let memberships := (thunk.directSubgroups recursiveSubgroups).map (thunk.userGroupId, ·)
  match thunk.kind with
  | .add => { t with added := t.added ++ memberships }
  | .delete =>
    { t with
      added := t.added.filter fun e => e ∉ memberships
      removed := t.removed ++ memberships }

/-- The next statement of a transaction.  The checks of who may do it are left out: a request may
also fail at any time. -/
def statement (d : Database) (i : ℕ) (t : Transaction) : Answer × Database :=
  match t.thunks, t.stage with
  | [], _ => (.committed, d.finish i (d.visible t))
  | thunk :: _, .start =>
    -- `select_for_update(nowait=True)` over the recursive query.
    let groups := closure (d.visible t) (thunk.subgroupIds.filter (· ∈ d.groups))
    if d.free i groups then
      (.ok, d.proceed i { t with stage := .subgroupsLocked groups } groups)
    else d.rollback i
  | thunk :: _, .subgroupsLocked groups =>
    if thunk.userGroupId ∉ d.groups then d.rollback i
    else if !d.free i [thunk.userGroupId] then (.waits, d)
    else if thunk.subgroupIds.all (· ∈ groups) then
      (.ok, d.proceed i { t with stage := .supergroupLocked groups } [thunk.userGroupId])
    else d.rollback i
  | thunk :: _, .supergroupLocked groups =>
    let existing := ((d.visible t).filter fun e => e.1 = thunk.userGroupId).map Prod.snd
    if thunk.allowed existing groups then
      (.ok, d.proceed i { t with stage := .checked groups } [])
    else d.rollback i
  | thunk :: thunks, .checked groups =>
    (.ok, d.proceed i { thunk.write groups t with thunks := thunks, stage := .start } [])

/-- What happens to the database. -/
inductive Move where
  | request (i : ℕ) (thunks : List Thunk)
  | next (i : ℕ)
  | fail (i : ℕ)

def step (move : Move) (d : Database) : Answer × Database :=
  match move with
  | .request i thunks =>
    match d.transactions i with
    | none => (.ok, d.proceed i ⟨thunks, .start, [], []⟩ [])
    | some _ => (.failed, d)
  | .next i =>
    match d.transactions i with
    | none => (.failed, d)
    | some t => statement d i t
  | .fail i => d.rollback i

/-! # The nesting of user groups has no cycles -/

open History Nesting

namespace Database

/-- What is nested in what, if the transactions of a set are committed and the others are not. -/
def Outcome (d : Database) (commits : ℕ → Prop) (a b : ℕ) : Prop :=
  ((a, b) ∈ d.memberships ∧ ∀ i t, commits i → d.transactions i = some t → (a, b) ∉ t.removed) ∨
    ∃ i t, commits i ∧ d.transactions i = some t ∧ (a, b) ∈ t.added

/-- What a transaction has locked and found. -/
structure Holds (d : Database) (i : ℕ) (t : Transaction) : Prop where
  rows : ∀ g ∈ t.stage.recursiveSubgroups, (g, i) ∈ d.locks
  closed : Closed (fun a b => (a, b) ∈ d.visible t) (· ∈ t.stage.recursiveSubgroups)
  sources : ∀ e : Membership, e ∈ t.added ∨ e ∈ t.removed → (e.1, i) ∈ d.locks
  supergroup : ∀ thunk thunks, t.thunks = thunk :: thunks →
    t.stage = .supergroupLocked t.stage.recursiveSubgroups ∨
      t.stage = .checked t.stage.recursiveSubgroups → (thunk.userGroupId, i) ∈ d.locks
  outside : ∀ thunk thunks, t.thunks = thunk :: thunks → thunk.kind = .add →
    t.stage = .checked t.stage.recursiveSubgroups →
      thunk.userGroupId ∉ t.stage.recursiveSubgroups

/-- The invariant. -/
structure Sound (d : Database) : Prop where
  owner : ∀ g i j, (g, i) ∈ d.locks → (g, j) ∈ d.locks → i = j
  holds : ∀ i t, d.transactions i = some t → d.Holds i t
  acyclic : ∀ commits, Acyclic (d.Outcome commits)

variable {d : Database} {i j : ℕ} {t t' : Transaction} {rows : List ℕ} {a b : ℕ}
variable {e : Membership} {memberships : List Membership}

theorem mem_visible : e ∈ d.visible t ↔ (e ∈ d.memberships ∧ e ∉ t.removed) ∨ e ∈ t.added := by
  unfold visible
  rw [mem_append, mem_filter, decide_eq_true_eq]

theorem free_iff : d.free i rows = true ↔ ∀ g ∈ rows, ∀ j, (g, j) ∈ d.locks → j = i := by
  unfold free
  simp only [all_eq_true, or_eq_true, decide_eq_true_eq]
  constructor
  · intro h g hg j hj
    exact (h g hg (g, j) hj).resolve_left fun hne => hne rfl
  · rintro h g hg ⟨g', j⟩ hl
    by_cases hne : g' = g
    · subst hne
      exact .inr (h g' hg j hl)
    · exact .inl hne

/-! ## A transaction goes on -/

theorem mem_locks_proceed {l : ℕ × ℕ} :
    l ∈ (d.proceed i t rows).locks ↔ (l.1 ∈ rows ∧ l.2 = i) ∨ l ∈ d.locks := by
  unfold proceed
  rw [mem_append, mem_map]
  apply or_congr_left
  constructor
  · rintro ⟨g, hg, rfl⟩
    exact ⟨hg, rfl⟩
  · rintro ⟨hg, hi⟩
    exact ⟨l.1, hg, Prod.ext rfl hi.symm⟩

theorem transactions_proceed :
    (d.proceed i t rows).transactions j = if j = i then some t else d.transactions j := by
  unfold proceed
  by_cases h : j = i
  · subst h
    simp
  · simp [h]

/-- New locks do not disturb the others. -/
theorem Holds.proceed (h : d.Holds j t) : (d.proceed i t' rows).Holds j t := { h with
  rows := fun g hg => mem_locks_proceed.mpr (.inr (h.rows g hg))
  sources := fun e he => mem_locks_proceed.mpr (.inr (h.sources e he))
  supergroup := fun thunk thunks ht hstage =>
    mem_locks_proceed.mpr (.inr (h.supergroup thunk thunks ht hstage)) }

/-- What a transaction writes is all that is new in an outcome. -/
theorem outcome_proceed {commits : ℕ → Prop} (new : Membership → Prop)
    (ht : ∀ s, d.transactions i = some s →
      (∀ e ∈ t.added, e ∈ s.added ∨ new e) ∧ ∀ e ∈ s.removed, e ∈ t.removed)
    (hnone : d.transactions i = none → t.added = [])
    (h : (d.proceed i t rows).Outcome commits a b) :
    d.Outcome commits a b ∨ (commits i ∧ new (a, b)) := by
  rcases h with ⟨hold, hkept⟩ | ⟨j, s, hj, hs, hadded⟩
  · refine .inl (.inl ⟨hold, fun j s hj hs hremoved => ?_⟩)
    by_cases hji : j = i
    · subst hji
      exact hkept j t hj (by rw [transactions_proceed, if_pos rfl]) ((ht s hs).2 _ hremoved)
    · exact hkept j s hj (by rw [transactions_proceed, if_neg hji, hs]) hremoved
  · rw [transactions_proceed] at hs
    by_cases hji : j = i
    · subst hji
      rw [if_pos rfl, Option.some.injEq] at hs
      subst hs
      cases hold : d.transactions j with
      | none =>
        rw [hnone hold] at hadded
        cases hadded
      | some s =>
        rcases (ht s hold).1 _ hadded with hbefore | hnew
        · exact .inl (.inr ⟨j, s, hj, hold, hbefore⟩)
        · exact .inr ⟨hj, hnew⟩
    · rw [if_neg hji] at hs
      exact .inl (.inr ⟨j, s, hj, hs, hadded⟩)

/-- What a transaction has found is closed, however the others end. -/
theorem Sound.closed_outcome (hd : d.Sound) (ht : d.transactions i = some t)
    {commits : ℕ → Prop} (hi : commits i) :
    Closed (d.Outcome commits) (· ∈ t.stage.recursiveSubgroups) := by
  have hholds := hd.holds i t ht
  rintro a b ha (⟨hold, hkept⟩ | ⟨j, s, -, hs, hadded⟩)
  · exact hholds.closed a b ha (mem_visible.mpr (.inl ⟨hold, hkept i t hi ht⟩))
  · have hji : j = i := hd.owner a j i ((hd.holds j s hs).sources _ (.inl hadded))
      (hholds.rows a ha)
    subst hji
    cases ht.symm.trans hs
    exact hholds.closed a b ha (mem_visible.mpr (.inr hadded))

/-- The invariant is kept by a transaction that goes on, with what it has to say of itself. -/
theorem Sound.proceed (hd : d.Sound) (hfree : d.free i rows = true)
    (hholds : (d.proceed i t rows).Holds i t)
    (hacyclic : ∀ commits, Acyclic ((d.proceed i t rows).Outcome commits)) :
    (d.proceed i t rows).Sound where
  owner := by
    intro g j k hj hk
    rw [mem_locks_proceed] at hj hk
    rcases hj with ⟨hjrow, rfl⟩ | hj
    · rcases hk with ⟨-, rfl⟩ | hk
      · rfl
      · exact (free_iff.mp hfree g hjrow k hk).symm
    · rcases hk with ⟨hkrow, rfl⟩ | hk
      · exact free_iff.mp hfree g hkrow j hj
      · exact hd.owner g j k hj hk
  holds := by
    intro j s hs
    rw [transactions_proceed] at hs
    by_cases hji : j = i
    · subst hji
      rw [if_pos rfl, Option.some.injEq] at hs
      rwa [← hs]
    · rw [if_neg hji] at hs
      exact (hd.holds j s hs).proceed
  acyclic := hacyclic

/-- A step that writes nothing. -/
theorem Sound.acyclic_stage (hd : d.Sound) (ht : d.transactions i = some t) (stage : Stage)
    (commits : ℕ → Prop) :
    Acyclic ((d.proceed i { t with stage := stage } rows).Outcome commits) := by
  refine (hd.acyclic commits).mono fun a b hab => ?_
  refine (outcome_proceed (fun _ => False) ?_ ?_ hab).resolve_right And.right
  · intro s hs
    cases ht.symm.trans hs
    exact ⟨fun e he => .inl he, fun e he => he⟩
  · intro hnone
    rw [ht] at hnone
    cases hnone

/-! ## A transaction ends -/

theorem transactions_finish :
    (d.finish i memberships).transactions j = if j = i then none else d.transactions j := by
  unfold finish
  by_cases h : j = i
  · subst h
    simp
  · simp [h]

theorem mem_locks_finish {l : ℕ × ℕ} :
    l ∈ (d.finish i memberships).locks ↔ l ∈ d.locks ∧ l.2 ≠ i := by
  unfold finish
  rw [mem_filter, decide_eq_true_eq]

/-- The others go on as before, if the memberships that are gone or new have sources that they do
not hold. -/
theorem Sound.finish (hd : d.Sound)
    (hmore : ∀ e ∈ memberships, e ∈ d.memberships ∨ (e.1, i) ∈ d.locks)
    (hacyclic : ∀ commits, Acyclic ((d.finish i memberships).Outcome commits)) :
    (d.finish i memberships).Sound where
  owner := by
    intro g j k hj hk
    exact hd.owner g j k (mem_locks_finish.mp hj).1 (mem_locks_finish.mp hk).1
  holds := by
    intro j s hs
    rw [transactions_finish] at hs
    have hji : j ≠ i := by
      rintro rfl
      rw [if_pos rfl] at hs
      cases hs
    rw [if_neg hji] at hs
    have hholds := hd.holds j s hs
    have hkept : ∀ g, (g, j) ∈ d.locks → (g, j) ∈ (d.finish i memberships).locks :=
      fun g hg => mem_locks_finish.mpr ⟨hg, hji⟩
    exact {
      rows := fun g hg => hkept g (hholds.rows g hg)
      closed := by
        intro a b ha hab
        rcases mem_visible.mp hab with ⟨hnew, hnot⟩ | hadded
        · rcases hmore (a, b) hnew with hold | hlocked
          · exact hholds.closed a b ha (mem_visible.mpr (.inl ⟨hold, hnot⟩))
          · exact absurd (hd.owner a j i (hholds.rows a ha) hlocked) hji
        · exact hholds.closed a b ha (mem_visible.mpr (.inr hadded))
      sources := fun e he => hkept e.1 (hholds.sources e he)
      supergroup := fun thunk thunks ht hstage => hkept _ (hholds.supergroup thunk thunks ht hstage)
      outside := hholds.outside }
  acyclic := hacyclic

theorem Sound.rollback (hd : d.Sound) : (d.rollback i).2.Sound := by
  refine hd.finish (fun e he => .inl he) fun commits => ?_
  refine (hd.acyclic fun j => commits j ∧ j ≠ i).mono fun a b hab => ?_
  rcases hab with ⟨hold, hkept⟩ | ⟨j, s, hj, hs, hadded⟩
  · refine .inl ⟨hold, fun j s hj hs => hkept j s hj.1 ?_⟩
    rw [transactions_finish, if_neg hj.2, hs]
  · rw [transactions_finish] at hs
    by_cases hji : j = i
    · rw [if_pos hji] at hs
      cases hs
    · rw [if_neg hji] at hs
      exact .inr ⟨j, s, ⟨hj, hji⟩, hs, hadded⟩

theorem Sound.commit (hd : d.Sound) (ht : d.transactions i = some t) :
    (d.finish i (d.visible t)).Sound := by
  refine hd.finish ?_ fun commits => ?_
  · intro e he
    rcases mem_visible.mp he with ⟨hold, -⟩ | hadded
    · exact .inl hold
    · exact .inr ((hd.holds i t ht).sources e (.inl hadded))
  · refine (hd.acyclic fun j => commits j ∨ j = i).mono fun a b hab => ?_
    rcases hab with ⟨hnew, hkept⟩ | ⟨j, s, hj, hs, hadded⟩
    · rcases mem_visible.mp hnew with ⟨hold, hnot⟩ | hadded
      · refine .inl ⟨hold, fun j s hj hs => ?_⟩
        by_cases hji : j = i
        · subst hji
          cases ht.symm.trans hs
          exact hnot
        · exact hkept j s (hj.resolve_right hji) (by rw [transactions_finish, if_neg hji, hs])
      · exact .inr ⟨i, t, .inr rfl, ht, hadded⟩
    · rw [transactions_finish] at hs
      by_cases hji : j = i
      · rw [if_pos hji] at hs
        cases hs
      · rw [if_neg hji] at hs
        exact .inr ⟨j, s, .inl hj, hs, hadded⟩

/-! ## The statements -/

variable {thunk : Thunk} {thunks : List Thunk} {groups : List ℕ}

/-- The recursive query, with the locks it takes. -/
theorem Sound.lockSubgroups (hd : d.Sound) (ht : d.transactions i = some t) {xs : List ℕ}
    (hfree : d.free i (closure (d.visible t) xs) = true) :
    (d.proceed i { t with stage := .subgroupsLocked (closure (d.visible t) xs) }
      (closure (d.visible t) xs)).Sound := by
  refine hd.proceed hfree ?_ (hd.acyclic_stage ht _)
  exact {
    rows := fun g hg => mem_locks_proceed.mpr (.inl ⟨hg, rfl⟩)
    closed := closed_closure
    sources := fun e he => mem_locks_proceed.mpr (.inr ((hd.holds i t ht).sources e he))
    supergroup := by
      rintro thunk thunks - (h | h) <;> cases h
    outside := by
      intro thunk thunks _ _ h
      cases h }

theorem Sound.lockSupergroup (hd : d.Sound) (ht : d.transactions i = some t)
    (hthunks : t.thunks = thunk :: thunks) (hstage : t.stage = .subgroupsLocked groups)
    (hfree : d.free i [thunk.userGroupId] = true) :
    (d.proceed i { t with stage := .supergroupLocked groups } [thunk.userGroupId]).Sound := by
  have hholds := hd.holds i t ht
  refine hd.proceed hfree ?_ (hd.acyclic_stage ht _)
  exact {
    rows := by
      intro g hg
      exact mem_locks_proceed.mpr (.inr (hholds.rows g (by rw [hstage]; exact hg)))
    closed := by
      have hclosed := hholds.closed
      rw [hstage] at hclosed
      exact hclosed
    sources := fun e he => mem_locks_proceed.mpr (.inr (hholds.sources e he))
    supergroup := by
      intro first rest h _
      obtain ⟨rfl, -⟩ := List.cons.inj (hthunks.symm.trans h)
      exact mem_locks_proceed.mpr (.inl ⟨mem_singleton.mpr rfl, rfl⟩)
    outside := by
      intro thunk thunks _ _ h
      cases h }

/-- A thunk to add subgroups is allowed if its group is not nested in them. -/
theorem not_mem_of_allowed {existing : List ℕ} (hkind : thunk.kind = .add)
    (h : thunk.allowed existing groups = true) : thunk.userGroupId ∉ groups := by
  unfold Thunk.allowed at h
  rw [hkind] at h
  rw [and_eq_true, decide_eq_true_eq] at h
  exact h.2

theorem Sound.check (hd : d.Sound) (ht : d.transactions i = some t)
    (hthunks : t.thunks = thunk :: thunks) (hstage : t.stage = .supergroupLocked groups)
    {existing : List ℕ} (hallowed : thunk.allowed existing groups = true) :
    (d.proceed i { t with stage := .checked groups } []).Sound := by
  have hholds := hd.holds i t ht
  refine hd.proceed (by simp [free]) ?_ (hd.acyclic_stage ht _)
  exact {
    rows := by
      intro g hg
      exact mem_locks_proceed.mpr (.inr (hholds.rows g (by rw [hstage]; exact hg)))
    closed := by
      have hclosed := hholds.closed
      rw [hstage] at hclosed
      exact hclosed
    sources := fun e he => mem_locks_proceed.mpr (.inr (hholds.sources e he))
    supergroup := by
      intro first rest h _
      refine mem_locks_proceed.mpr (.inr (hholds.supergroup first rest h (.inl ?_)))
      rw [hstage]
      rfl
    outside := by
      intro first rest h hkind _
      obtain ⟨rfl, -⟩ := List.cons.inj (hthunks.symm.trans h)
      exact not_mem_of_allowed hkind hallowed }

/-- What a thunk writes leads from its group to groups that were found. -/
theorem mem_added_write (h : e ∈ (thunk.write groups t).added) :
    e ∈ t.added ∨ (thunk.kind = .add ∧ e.1 = thunk.userGroupId ∧ e.2 ∈ groups) := by
  unfold Thunk.write at h
  cases hkind : thunk.kind with
  | add =>
    rw [hkind] at h
    rcases mem_append.mp h with hold | hnew
    · exact .inl hold
    · obtain ⟨g, hg, rfl⟩ := mem_map.mp hnew
      exact .inr ⟨rfl, rfl, mem_of_mem_filter hg⟩
  | delete =>
    rw [hkind] at h
    exact .inl (mem_of_mem_filter h)

theorem mem_removed_write (h : e ∈ (thunk.write groups t).removed) :
    e ∈ t.removed ∨ e.1 = thunk.userGroupId := by
  unfold Thunk.write at h
  cases hkind : thunk.kind with
  | add =>
    rw [hkind] at h
    exact .inl h
  | delete =>
    rw [hkind] at h
    rcases mem_append.mp h with hold | hnew
    · exact .inl hold
    · obtain ⟨g, -, rfl⟩ := mem_map.mp hnew
      exact .inr rfl

theorem removed_subset_write (h : e ∈ t.removed) : e ∈ (thunk.write groups t).removed := by
  unfold Thunk.write
  cases thunk.kind with
  | add => exact h
  | delete => exact mem_append_left _ h

theorem Sound.write (hd : d.Sound) (ht : d.transactions i = some t)
    (hthunks : t.thunks = thunk :: thunks) (hstage : t.stage = .checked groups) :
    (d.proceed i { thunk.write groups t with thunks := thunks, stage := .start } []).Sound := by
  have hholds := hd.holds i t ht
  have hgroups : t.stage.recursiveSubgroups = groups := by
    rw [hstage]
    rfl
  have hlocked : (thunk.userGroupId, i) ∈ d.locks := by
    refine hholds.supergroup thunk thunks hthunks (.inr ?_)
    rw [hgroups, hstage]
  refine hd.proceed (by simp [free]) ?_ fun commits => ?_
  · exact {
      rows := fun g hg => absurd hg not_mem_nil
      closed := fun a b ha => absurd ha not_mem_nil
      sources := by
        intro e he
        refine mem_locks_proceed.mpr (.inr ?_)
        rcases he with hadded | hremoved
        · rcases mem_added_write hadded with hold | ⟨-, hsource, -⟩
          · exact hholds.sources e (.inl hold)
          · rw [hsource]
            exact hlocked
        · rcases mem_removed_write hremoved with hold | hsource
          · exact hholds.sources e (.inr hold)
          · rw [hsource]
            exact hlocked
      supergroup := by
        rintro first rest - (h | h) <;> cases h
      outside := by
        intro first rest _ _ h
        cases h }
  · have hnew : ∀ a b, (d.proceed i { thunk.write groups t with thunks := thunks, stage := .start }
        []).Outcome commits a b → d.Outcome commits a b ∨
          (commits i ∧ thunk.kind = .add ∧ a = thunk.userGroupId ∧ b ∈ groups) := by
      intro a b hab
      refine outcome_proceed (fun e =>
        thunk.kind = .add ∧ e.1 = thunk.userGroupId ∧ e.2 ∈ groups) ?_ ?_ hab
      · intro s hs
        cases ht.symm.trans hs
        exact ⟨fun e he => mem_added_write he, fun e he => removed_subset_write he⟩
      · intro hnone
        rw [ht] at hnone
        cases hnone
    -- New memberships lead from a group outside of what was found into it.
    by_cases hadds : commits i ∧ thunk.kind = .add
    · refine (hd.acyclic commits).add (s := (· ∈ groups)) (p := thunk.userGroupId) ?_ ?_ ?_
      · rw [← hgroups]
        exact hd.closed_outcome ht hadds.1
      · rw [← hgroups]
        exact hholds.outside thunk thunks hthunks hadds.2 (by rw [hgroups, hstage])
      · exact fun a b hab => (hnew a b hab).imp_right fun h => h.2.2
    · refine (hd.acyclic commits).mono fun a b hab => (hnew a b hab).resolve_right ?_
      rintro ⟨hcommits, hkind, -⟩
      exact hadds ⟨hcommits, hkind⟩

/-- A statement keeps the invariant. -/
theorem Sound.statement (hd : d.Sound) (ht : d.transactions i = some t) :
    (statement d i t).2.Sound := by
  obtain ⟨list, stage, added, removed⟩ := t
  cases list with
  | nil => exact hd.commit ht
  | cons thunk thunks =>
    cases stage with
    | start =>
      unfold Groups.statement
      dsimp only
      split
      · next hfree => exact hd.lockSubgroups ht hfree
      · exact hd.rollback
    | subgroupsLocked groups =>
      unfold Groups.statement
      dsimp only
      split
      · exact hd.rollback
      · split
        · exact hd
        · next hfree =>
          rw [not_eq_true, not_eq_false'] at hfree
          split
          · exact hd.lockSupergroup ht rfl rfl hfree
          · exact hd.rollback
    | supergroupLocked groups =>
      unfold Groups.statement
      dsimp only
      split
      · next hallowed => exact hd.check ht rfl rfl hallowed
      · exact hd.rollback
    | checked groups => exact hd.write ht rfl rfl

/-- A new request has done nothing yet. -/
theorem Sound.request (hd : d.Sound) (hnone : d.transactions i = none) (thunks : List Thunk) :
    (d.proceed i ⟨thunks, .start, [], []⟩ []).Sound := by
  refine hd.proceed (by simp [free]) ?_ fun commits => ?_
  · exact {
      rows := fun g hg => absurd hg not_mem_nil
      closed := fun a b ha => absurd ha not_mem_nil
      sources := fun e he => absurd he (by simp)
      supergroup := by
        rintro first rest - (h | h) <;> cases h
      outside := by
        intro first rest _ _ h
        cases h }
  · refine (hd.acyclic commits).mono fun a b hab => ?_
    refine (outcome_proceed (fun _ => False) ?_ (fun _ => rfl) hab).resolve_right And.right
    intro s hs
    rw [hnone] at hs
    cases hs

theorem Sound.step (hd : d.Sound) (move : Move) : (step move d).2.Sound := by
  cases move with
  | request i thunks =>
    unfold Groups.step
    dsimp only
    split
    · next hnone => exact hd.request hnone thunks
    · exact hd
  | next i =>
    unfold Groups.step
    dsimp only
    split
    · exact hd
    · next t ht => exact hd.statement ht
  | fail i => exact hd.rollback

/-! ## Runs -/

/-- No request is under way. -/
structure Quiet (d : Database) : Prop where
  locks : d.locks = []
  transactions : ∀ i, d.transactions i = none

theorem Quiet.sound (h : d.Quiet) (hacyclic : Acyclic fun a b => (a, b) ∈ d.memberships) :
    d.Sound where
  owner := by
    intro g i j hi
    rw [h.locks] at hi
    cases hi
  holds := by
    intro i t ht
    rw [h.transactions i] at ht
    cases ht
  acyclic := by
    refine fun commits => hacyclic.mono fun a b hab => ?_
    rcases hab with ⟨hold, -⟩ | ⟨i, t, -, ht, -⟩
    · exact hold
    · rw [h.transactions i] at ht
      cases ht

theorem Sound.run (hd : d.Sound) (moves : List Move) : (run Groups.step d moves).Sound := by
  exact (history_inv Groups.step (J := Sound) d moves hd fun move d hd => hd.step move).1

/-- What is committed is the outcome of committing nothing more. -/
theorem Sound.acyclic_memberships (hd : d.Sound) : Acyclic fun a b => (a, b) ∈ d.memberships := by
  refine (hd.acyclic fun _ => False).mono fun a b hab => .inl ⟨hab, ?_⟩
  intro i t hi
  cases hi

end Database

/-- The committed memberships never form a cycle: whatever the requests ask for, whatever the
order of their statements is, and whichever of them fail. -/
theorem memberships_acyclic {d : Database} (hquiet : d.Quiet)
    (hacyclic : Acyclic fun a b => (a, b) ∈ d.memberships) (moves : List Move) :
    Acyclic fun a b => (a, b) ∈ (run step d moves).memberships :=
  ((hquiet.sound hacyclic).run moves).acyclic_memberships

/-- Two groups, none of which is nested in the other. -/
def twoGroups : Database := ⟨[1, 2], [], [], fun _ => none⟩

/-- Each request nests a group in the other: they wait for each other until one of them fails. -/
def crossing : List Move :=
  [.request 0 [⟨.add, 1, [2]⟩], .request 1 [⟨.add, 2, [1]⟩], .next 0, .next 1, .next 0, .next 1,
    .fail 1, .next 0, .next 0, .next 0, .next 0]

theorem memberships_acyclic_crossing :
    (Acyclic fun a b => (a, b) ∈ (run step twoGroups crossing).memberships) ∧
      (run step twoGroups crossing).memberships = [(1, 2)] := by
  refine ⟨memberships_acyclic ⟨rfl, fun _ => rfl⟩ ?_ crossing, by decide⟩
  intro a ha
  cases ha with
  | single hab => cases hab
  | tail _ hbc => cases hbc

end GrowTeam.Groups
