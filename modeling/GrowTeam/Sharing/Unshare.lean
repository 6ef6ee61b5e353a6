/-
# What an unshare leaves

Unsharing computes the grants to revoke from the profile as it is then.  A grant that a share
made is among them if and only if the edits in between kept what the share read for it, so a
run in which some edit did not can leave grants behind.
-/
import GrowTeam.Sharing.Grants

namespace GrowTeam.Sharing

open History List Table

variable {s s' : Store} {owner : User} {principal : Principal} {profile : Profile} {id : Uuid}

/-! ## What every action keeps -/

/-- Grants keep their terms and stay revoked; profiles keep their owner and their runner. -/
structure Frame (s s' : Store) : Prop where
  grants : ∀ id g, s.grants.get? id = some g → ∃ g', s'.grants.get? id = some g' ∧
    g'.toTerms = g.toTerms ∧ (g.revokedAt.isSome = true → g'.revokedAt.isSome = true)
  profiles : ∀ id p, s.profiles.get? id = some p → ∃ p', s'.profiles.get? id = some p' ∧
    p'.realmId = p.realmId ∧ p'.ownerId = p.ownerId ∧ p'.runner = p.runner

theorem Frame.refl (s : Store) : Frame s s :=
  ⟨fun _ g hg => ⟨g, hg, rfl, fun h => h⟩, fun _ p hp => ⟨p, hp, rfl, rfl, rfl⟩⟩

variable {s'' : Store} {now : Time} {g : Grant} {e : Event} {A B : Profile}

theorem Frame.trans (h : Frame s s') (h' : Frame s' s'') : Frame s s'' := by
  constructor
  · intro id g hg
    obtain ⟨g', hg', hterms, hrevoked⟩ := h.grants id g hg
    obtain ⟨g'', hg'', hterms', hrevoked'⟩ := h'.grants id g' hg'
    exact ⟨g'', hg'', hterms'.trans hterms, fun hr => hrevoked' (hrevoked hr)⟩
  · intro id p hp
    obtain ⟨p', hp', hrealm, howner, hrunner⟩ := h.profiles id p hp
    obtain ⟨p'', hp'', hrealm', howner', hrunner'⟩ := h'.profiles id p' hp'
    exact ⟨p'', hp'', hrealm'.trans hrealm, howner'.trans howner, hrunner'.trans hrunner⟩

/-- Grants were added, and that is all. -/
def Grows (s s' : Store) : Prop :=
  ∃ grants : Table Grant.id, s.grants.rows ⊆ grants.rows ∧ s' = { s with grants := grants }

theorem Grows.refl (s : Store) : Grows s s := ⟨s.grants, List.Subset.refl _, rfl⟩

theorem Grows.trans (h : Grows s s') (h' : Grows s' s'') : Grows s s'' := by
  obtain ⟨grants, hsub, rfl⟩ := h
  obtain ⟨grants', hsub', rfl⟩ := h'
  exact ⟨grants', List.Subset.trans hsub hsub', rfl⟩

theorem Grows.create {grant : Uuid → Grant} {hg : ∀ n, (grant n).id = n} :
    Grows s { s with grants := s.grants.create grant hg } :=
  ⟨_, fun _ hx => mem_create.mpr (.inl hx), rfl⟩

theorem Grows.frame (h : Grows s s') : Frame s s' := by
  obtain ⟨grants, hsub, rfl⟩ := h
  refine ⟨fun id g hg => ⟨g, ?_, rfl, fun h => h⟩, (Frame.refl s).profiles⟩
  obtain ⟨hmem, hid⟩ := get?_eq_some.mp hg
  exact get?_eq_some.mpr ⟨hsub hmem, hid⟩

/-- A round of an unshare revokes at most. -/
theorem Frame.unshare {t : TargetKind × Uuid} :
    Frame s { s with grants := unshareTarget owner profile principal now s.grants t } := by
  refine ⟨fun id g hid => ?_, (Frame.refl s).profiles⟩
  refine ⟨if unshares owner profile principal t g = true then g.revoke now else g, ?_, ?_, ?_⟩
  · show (unshareTarget owner profile principal now s.grants t).get? id = _
    rw [unshareTarget, get?_update, hid]
    rfl
  · split <;> rfl
  · intro hr
    split
    · rfl
    · exact hr

/-- An edit of a profile that keeps its owner and its runner. -/
theorem Frame.edited {p q : Profile} (hp : s.profiles.get? id = some p) (hq : q.id = p.id)
    (hrealm : q.realmId = p.realmId) (howner : q.ownerId = p.ownerId)
    (hrunner : q.runner = p.runner) : Frame s { s with profiles := s.profiles.save q } := by
  refine ⟨(Frame.refl s).grants, fun n x hx => ?_⟩
  have hid : p.id = id := (get?_eq_some.mp hp).2
  have hrow : s.profiles.get? q.id = some p := by rw [hq, hid, hp]
  show ∃ p', (s.profiles.save q).get? n = some p' ∧ _
  rw [get?_save hrow]
  split
  · next hn =>
    rw [hn, hrow] at hx
    cases hx
    exact ⟨q, rfl, hrealm, howner, hrunner⟩
  · exact ⟨x, hx, rfl, rfl, rfl⟩

theorem createAgentGrant_grows (s : Store) (owner : User) (principal : Principal)
    (kind : TargetKind) (target : Uuid) (actions : List Action) (expiresAt : Option Time)
    (scope : Option String) (repository : Option Uuid) :
    Grows s (createAgentGrant owner principal kind target actions expiresAt scope repository
      s).2 := by
  unfold createAgentGrant
  split
  · exact .refl s
  · repeat' split
    all_goals first | exact .refl s | exact .create

theorem shareTarget_grows {control review : Bool} {done : Shared} {t : TargetKind × Uuid} :
    Grows done.store (shareTarget owner profile principal control review done t).store := by
  unfold shareTarget
  dsimp only
  split
  · exact .refl _
  · have hgrows := createAgentGrant_grows done.store owner principal t.1 t.2
      (actionsWanted t.1 profile control review) none none none
    split
    · next heq =>
      rw [heq] at hgrows
      exact hgrows
    · next heq =>
      rw [heq] at hgrows
      exact hgrows

theorem shareAll_grows {control review : Bool} (ts : List (TargetKind × Uuid)) (done : Shared) :
    Grows done.store
      (ts.foldl (shareTarget owner profile principal control review) done).store := by
  induction ts generalizing done with
  | nil => exact .refl _
  | cons t ts ih => exact shareTarget_grows.trans (ih _)

theorem unshareAll_frame (ts : List (TargetKind × Uuid)) (s : Store) :
    Frame s { s with grants := ts.foldl (unshareTarget owner profile principal now) s.grants } := by
  induction ts generalizing s with
  | nil => exact .refl s
  | cons t ts ih =>
    exact Frame.unshare.trans
      (ih { s with grants := unshareTarget owner profile principal now s.grants t })

/-- **What every request keeps.** -/
theorem frame_perform (r : Request) (s : Store) : Frame s (perform s r).2 := by
  cases r with
  | share owner profile principal control review =>
    simp only [perform, reply, shareAgentProfile]
    split
    · exact .refl s
    · exact (shareAll_grows _ ⟨[], [], s⟩).frame
  | unshare owner profile principal =>
    simp only [perform, reply, unshareAgentProfile]
    split
    · exact .refl s
    · exact unshareAll_frame _ s
  | createProfile profile =>
    refine ⟨(Frame.refl s).grants, fun id p hp => ⟨p, ?_, rfl, rfl, rfl⟩⟩
    have hne : id ≠ s.profiles.fresh := by
      rintro rfl
      rw [get?_fresh] at hp
      cases hp
    show (s.profiles.create (fun id => { profile with id := id }) fun _ => rfl).get? id = some p
    rw [get?_create hne, hp]
  | edit owner profile edit permitted =>
    simp only [perform, reply, updateProfile]
    split
    · exact .refl s
    · next p hp =>
      repeat' split
      all_goals first | exact .refl s | exact .edited hp rfl rfl rfl rfl
  | archive profile permitted =>
    simp only [perform, reply, archiveProfile]
    split
    · exact .refl s
    · next p hp =>
      split
      · exact .refl s
      · exact .edited hp rfl rfl rfl rfl
  | grant owner principal kind target actions expiresAt scope repository =>
    exact (createAgentGrant_grows s owner principal kind target actions expiresAt scope
      repository).frame
  | attach user profile scope permitted =>
    simp only [perform, reply, attachProfileToStream]
    repeat' split
    all_goals first | exact .refl s | exact Grows.create.frame
  | revoke owner id expectedRevision =>
    simp only [perform, reply, revokeAgentGrant]
    split
    · exact .refl s
    · next g hg =>
      split
      · exact .refl s
      · split
        · exact .refl s
        · refine ⟨fun n x hx => ?_, (Frame.refl s).profiles⟩
          have hid : g.id = id := (get?_eq_some.mp hg).2
          have hrow : s.grants.get? (g.revoke s.clock).id = some g := by
            rw [g.id_revoke, hid, hg]
          show ∃ g', (s.grants.save (g.revoke s.clock)).get? n = some g' ∧ _
          rw [get?_save hrow]
          split
          · next hn =>
            rw [hn, hrow] at hx
            cases hx
            exact ⟨_, rfl, rfl, fun _ => rfl⟩
          · exact ⟨x, hx, rfl, fun h => h⟩
  | world users groups runners providers repositories =>
    exact ⟨(Frame.refl s).grants, (Frame.refl s).profiles⟩

theorem frame_step (i : Input) (s : Store) : Frame s (step i s).2 := by
  have hlater : Frame s (s.later i.elapsed) := ⟨(Frame.refl s).grants, (Frame.refl s).profiles⟩
  exact hlater.trans (frame_perform i.request (s.later i.elapsed))

/-- **No run loses a grant**, gives it other terms or takes its revocation back. -/
theorem frame_run (s : Store) (inputs : List Input) : Frame s (run step s inputs) :=
  (history_inv step s inputs (.refl s) fun i _ h => h.trans (frame_step i _)).1

/-! ## What a share makes -/

/-- The terms of the grant that a share makes for a target. -/
def sharedTerms (owner : User) (profile : Profile) (principal : Principal)
    (control review : Bool) (t : TargetKind × Uuid) : Terms :=
  { realmId := owner.realmId, ownerId := owner.id, principalUser := principal.user,
    principalGroup := principal.group, targetKind := t.1, target := t.2, repository := none,
    scope := none, actions := actionsWanted t.1 profile control review, expiresAt := none }

/-- The principal has what a share of the profile gives it on the target. -/
def Has (owner : User) (profile : Profile) (principal : Principal) (control review : Bool)
    (t : TargetKind × Uuid) (s : Store) : Prop :=
  ∃ g ∈ s.grants.rows, shareGrantFilters owner principal t g = true ∧
    sameActions g.actions (actionsWanted t.1 profile control review) = true

/-- The target is the owner's to give. -/
def Store.Owns (s : Store) (owner : User) (t : TargetKind × Uuid) : Prop :=
  s.target t.1 t.2 = some (owner.realmId, owner.id)

/-- **What a share does** for these targets: the principal gets each that is the owner's, and
nothing else is added. -/
structure Given (owner : User) (profile : Profile) (principal : Principal) (control review : Bool)
    (ts : List (TargetKind × Uuid)) (s s' : Store) : Prop where
  grows : Grows s s'
  new : ∀ g ∈ s'.grants.rows, g ∈ s.grants.rows ∨ ∃ t ∈ ts,
    g.toTerms = sharedTerms owner profile principal control review t ∧ s.Owns owner t
  given : ∀ t ∈ ts, s.Owns owner t → Has owner profile principal control review t s'

variable {control review : Bool} {t : TargetKind × Uuid} {ts : List (TargetKind × Uuid)}

theorem sameActions_self (actions : List Action) : sameActions actions actions = true := by
  simp [sameActions]

theorem filters_iff : shareGrantFilters owner principal t g = true ↔
    g.realmId = owner.realmId ∧ g.ownerId = owner.id ∧ g.principalUser = principal.user ∧
      g.principalGroup = principal.group ∧ (g.targetKind, g.target) = t ∧ g.revokedAt = none ∧
      g.scope = none ∧ (t.1 = .profile → g.repository = none) := by
  obtain ⟨kind, target⟩ := t
  simp only [shareGrantFilters, Bool.and_eq_true, decide_eq_true_eq, Option.isNone_iff_eq_none,
    Bool.or_eq_true, Prod.mk.injEq, ne_eq, imp_iff_not_or]
  tauto

theorem Has.grows (h : Has owner profile principal control review t s) (hgrows : Grows s s') :
    Has owner profile principal control review t s' := by
  obtain ⟨grants, hsub, rfl⟩ := hgrows
  obtain ⟨g, hg, hmatch⟩ := h
  exact ⟨g, hsub hg, hmatch⟩

theorem Grows.owns (h : Grows s s') : s'.Owns owner t ↔ s.Owns owner t := by
  obtain ⟨grants, -, rfl⟩ := h
  exact .rfl

theorem Given.trans (h : Given owner profile principal control review [t] s s')
    (h' : Given owner profile principal control review ts s' s'') :
    Given owner profile principal control review (t :: ts) s s'' where
  grows := h.grows.trans h'.grows
  new := by
    intro g hg
    rcases h'.new g hg with hg | ⟨u, hu, hterms, howns⟩
    · refine (h.new g hg).imp_right ?_
      rintro ⟨u, hu, hnew⟩
      rw [mem_singleton.mp hu] at hnew
      exact ⟨t, mem_cons_self, hnew⟩
    · exact .inr ⟨u, mem_cons_of_mem _ hu, hterms, h.grows.owns.mp howns⟩
  given := by
    intro u hu howns
    rcases mem_cons.mp hu with rfl | hu
    · exact (h.given u mem_cons_self howns).grows h'.grows
    · exact h'.given u hu (h.grows.owns.mpr howns)

/-- The grant is made if the target is the owner's. -/
theorem createAgentGrant_cases {actions : List Action} (hactions : actions ≠ [])
    (hone : principal.user.isNone ≠ principal.group.isNone)
    (hvalid : s.principalUnavailable owner principal = false) :
    (∃ refusal, createAgentGrant owner principal t.1 t.2 actions none none none s =
        (.error refusal, s) ∧ ¬ s.Owns owner t) ∨
      ∃ (g : Grant) (grants : Table Grant.id),
        createAgentGrant owner principal t.1 t.2 actions none none none s =
          (.ok g, { s with grants := grants }) ∧ s.Owns owner t ∧
        (∀ x, x ∈ grants.rows ↔ x ∈ s.grants.rows ∨ x = g) ∧ g.revokedAt = none ∧
        g.toTerms = ⟨owner.realmId, owner.id, principal.user, principal.group, t.1, t.2, none,
          none, actions, none⟩ := by
  unfold createAgentGrant Store.Owns
  cases htarget : s.target t.1 t.2 with
  | none => exact .inl ⟨_, rfl, by simp⟩
  | some found =>
    obtain ⟨realmId, ownerId⟩ := found
    by_cases hother : realmId ≠ owner.realmId ∨ ownerId ≠ owner.id
    · refine .inl ⟨_, if_pos hother, fun howns => ?_⟩
      cases howns
      simp at hother
    · simp only [ne_eq, not_or, not_not] at hother
      obtain ⟨rfl, rfl⟩ := hother
      simp only [ne_eq, not_true, or_self, if_false, hvalid, Bool.false_eq_true, hone, hactions,
        Option.any_none]
      exact .inr ⟨_, _, rfl, trivial, fun x => mem_create, rfl, rfl⟩

theorem shareTarget_given {done : Shared} (hone : principal.user.isNone ≠ principal.group.isNone)
    (hvalid : done.store.principalUnavailable owner principal = false) :
    Given owner profile principal control review [t] done.store
      (shareTarget owner profile principal control review done t).store := by
  have hgrows : Grows done.store
      (shareTarget owner profile principal control review done t).store := shareTarget_grows
  revert hgrows
  unfold shareTarget
  dsimp only
  split
  · next g hreused =>
    refine fun hgrows => ⟨hgrows, fun _ hg => .inl hg, fun u hu _ => ?_⟩
    have hmatch := find?_some hreused
    rw [mem_singleton.mp hu]
    exact ⟨g, mem_of_find?_eq_some hreused, by simpa using hmatch⟩
  · have hwanted : actionsWanted t.1 profile control review ≠ [] := by
      cases hkind : t.1 <;> simp [actionsWanted, shareMinActions, codeJobActions]
    rcases createAgentGrant_cases hwanted hone hvalid with
      ⟨refusal, hcreate, hnot⟩ | ⟨g, grants, hcreate, howns, hrows, hactive, hterms⟩
    · rw [hcreate]
      refine fun hgrows => ⟨hgrows, fun _ hg => .inl hg, fun u hu howns => ?_⟩
      rw [mem_singleton.mp hu] at howns
      exact absurd howns hnot
    · rw [hcreate]
      refine fun hgrows => ⟨hgrows, fun x hx => ((hrows x).mp hx).imp_right ?_, fun u hu _ => ?_⟩
      · rintro rfl
        exact ⟨t, mem_singleton_self t, hterms, howns⟩
      · rw [mem_singleton.mp hu]
        obtain ⟨terms, id, version, revokedAt⟩ := g
        obtain rfl : terms = _ := hterms
        obtain rfl : revokedAt = none := hactive
        exact ⟨_, (hrows _).mpr (.inr rfl), filters_iff.mpr ⟨rfl, rfl, rfl, rfl, rfl, rfl, rfl,
          fun _ => rfl⟩, sameActions_self _⟩

theorem shareAll_given (hone : principal.user.isNone ≠ principal.group.isNone)
    (ts : List (TargetKind × Uuid)) (done : Shared)
    (hvalid : done.store.principalUnavailable owner principal = false) :
    Given owner profile principal control review ts done.store
      (ts.foldl (shareTarget owner profile principal control review) done).store := by
  induction ts generalizing done with
  | nil => exact ⟨.refl _, fun _ hg => .inl hg, by rintro t ⟨⟩⟩
  | cons t ts ih =>
    have hround : Given owner profile principal control review [t] done.store
        (shareTarget owner profile principal control review done t).store :=
      shareTarget_given hone hvalid
    refine hround.trans (ih _ ?_)
    obtain ⟨grants, -, hstore⟩ := hround.grows
    rw [hstore]
    exact hvalid

/-! ## What an unshare takes -/

/-- A grant is revoked when it is the one of some target. -/
theorem unshareAll_get? (ts : List (TargetKind × Uuid)) (grants : Table Grant.id) :
    (ts.foldl (unshareTarget owner profile principal now) grants).get? id =
      (grants.get? id).map fun g =>
        if ts.any (unshares owner profile principal · g) then g.revoke now else g := by
  induction ts generalizing grants with
  | nil => cases h : grants.get? id <;> simp [h]
  | cons t ts ih =>
    rw [foldl_cons, ih, unshareTarget, get?_update, Option.map_map]
    congr 1
    funext g
    -- A grant that was revoked is not found again.
    have hrevoked : ts.any (unshares owner profile principal · (g.revoke now)) = false := by
      rw [any_eq_false]
      intro t' _
      simp [unshares, shareGrantFilters, Grant.revoke]
    rw [Function.comp]
    by_cases ht : unshares owner profile principal t g = true
    · have hany : (t :: ts).any (unshares owner profile principal · g) = true := by
        rw [any_cons, ht]
        rfl
      rw [if_pos ht, if_neg (by simp [hrevoked]), if_pos hany]
    · have hany : (t :: ts).any (unshares owner profile principal · g) =
          ts.any (unshares owner profile principal · g) := by
        rw [any_cons, Bool.not_eq_true _ |>.mp ht]
        rfl
      rw [if_neg ht, hany]

/-- The edits since a share kept what it read for a grant on the target. -/
def Kept (before after : Profile) : TargetKind → Prop
  | .profile => (after.defaultMode = .manage ↔ before.defaultMode = .manage) ∧
      after.defaultRepository.isSome = before.defaultRepository.isSome
  | .runner => True
  | .provider => after.provider = before.provider
  | .repository => after.defaultRepository = before.defaultRepository

/-- The action sets of profile grants tell the configurations apart. -/
theorem combinations_iff (before after : Profile) (control review : Bool) :
    (shareActionCombinations .profile after).any
        (sameActions (actionsWanted .profile before control review)) = true ↔
      Kept before after .profile := by
  have hall : ∀ m r m' r' c v : Bool,
      ([([.profileUse, .contextRead] ++ (if m' then [.teamManage] else []) ++
            if r' then codeJobActions else []),
        ([.profileUse, .contextRead] ++ (if m' then [.teamManage] else []) ++
            (if r' then codeJobActions else []) ++ [.jobControl]),
        ([.profileUse, .contextRead] ++ (if m' then [.teamManage] else []) ++
            (if r' then codeJobActions else []) ++ [.jobReview]),
        ([.profileUse, .contextRead] ++ (if m' then [.teamManage] else []) ++
            (if r' then codeJobActions else []) ++ [.jobControl, .jobReview])].any
        (sameActions ([.profileUse, .contextRead] ++ (if m then [.teamManage] else []) ++
            (if r then codeJobActions else []) ++
            ((if c then [Action.jobControl] else []) ++
              if v then [.jobReview] else [])))) = (decide (m' = m) && decide (r' = r)) := by
    decide
  have hcase := hall (decide (before.defaultMode = .manage)) before.defaultRepository.isSome
    (decide (after.defaultMode = .manage)) after.defaultRepository.isSome control review
  simp only [decide_eq_true_eq] at hcase
  have hleft : (shareActionCombinations .profile after).any
      (sameActions (actionsWanted .profile before control review)) = _ := hcase
  rw [hleft, Bool.and_eq_true, decide_eq_true_eq, decide_eq_true_eq, decide_eq_decide]
  rfl

theorem mem_shareTargets :
    t ∈ shareTargets profile ↔ t = (.profile, profile.id) ∨ t = (.runner, profile.runner) ∨
      (∃ id, profile.provider = some id ∧ t = (.provider, id)) ∨
      ∃ id, profile.defaultRepository = some id ∧ t = (.repository, id) := by
  simp only [shareTargets, mem_append, mem_cons, not_mem_nil, or_false,
    mem_map, Option.mem_toList, or_assoc, eq_comm]

/-- The unshare comes to a grant that a share made when the edits kept what it was made for. -/
theorem unshared_iff {owner₀ : User} {before after : Profile} (ht : t ∈ shareTargets before)
    (hterms : g.toTerms = sharedTerms owner₀ before principal control review t)
    (hactive : g.revokedAt = none) (hid : after.id = before.id)
    (hrunner : after.runner = before.runner) (howner : owner₀.id = owner.id)
    (hrealm : owner₀.realmId = owner.realmId) :
    (shareTargets after).any (unshares owner after principal · g) = true ↔
      Kept before after t.1 := by
  have hmatch : ∀ u, unshares owner after principal u g = true ↔ t = u ∧
      (shareActionCombinations t.1 after).any
        (sameActions (actionsWanted t.1 before control review)) = true := by
    intro u
    have hg : g = ⟨sharedTerms owner₀ before principal control review t, g.id, g.policyVersion,
        none⟩ := by
      rw [← hterms, ← hactive]
    rw [hg]
    simp only [unshares, shareGrantFilters, sharedTerms, Bool.and_eq_true, decide_eq_true_eq,
      Option.isNone_none, Bool.or_true, howner, hrealm, true_and, and_true]
    constructor
    · rintro ⟨⟨hkind, htarget⟩, hactions⟩
      have heq : t = u := Prod.ext hkind htarget
      exact ⟨heq, heq ▸ hactions⟩
    · rintro ⟨rfl, hactions⟩
      exact ⟨⟨rfl, rfl⟩, hactions⟩
  have hany : (shareTargets after).any (unshares owner after principal · g) = true ↔
      t ∈ shareTargets after ∧ (shareActionCombinations t.1 after).any
        (sameActions (actionsWanted t.1 before control review)) = true := by
    rw [any_eq_true]
    constructor
    · rintro ⟨u, hu, hmatches⟩
      obtain ⟨rfl, hactions⟩ := (hmatch u).mp hmatches
      exact ⟨hu, hactions⟩
    · rintro ⟨hmem, hactions⟩
      exact ⟨t, hmem, (hmatch t).mpr ⟨rfl, hactions⟩⟩
  rw [hany, mem_shareTargets]
  rcases mem_shareTargets.mp ht with rfl | rfl | ⟨id, hprovider, rfl⟩ | ⟨id, hrepository, rfl⟩
  · rw [combinations_iff, hid]
    simp
  · have hactions : (shareActionCombinations .runner after).any
        (sameActions (actionsWanted .runner before control review)) = true := rfl
    simp [hactions, Kept, hrunner]
  · have hactions : (shareActionCombinations .provider after).any
        (sameActions (actionsWanted .provider before control review)) = true := rfl
    simp [hactions, Kept, hprovider]
  · have hactions : (shareActionCombinations .repository after).any
        (sameActions (actionsWanted .repository before control review)) = true := rfl
    simp [hactions, Kept, hrepository]

/-! ## Runs -/

/-- The step shares the profile with the principal. -/
def Shares (profile : Uuid) (principal : Principal) (e : Event) : Prop :=
  ∃ owner control review, e.input.request = .share owner profile principal control review ∧
    e.answer.isOk = true

/-- The step ends the sharing of the profile with the principal. -/
def Unshares (profile : Uuid) (principal : Principal) (e : Event) : Prop :=
  ∃ owner, e.input.request = .unshare owner profile principal ∧ e.answer.isOk = true

/-- The step makes the grant. -/
def Creates (e : Event) (g : Grant) : Prop :=
  e.post.grants.get? g.id = some g ∧ e.pre.grants.get? g.id = none

/-- The grant is there and not revoked. -/
def Active (s : Store) (id : Uuid) : Prop := ∃ g, s.grants.get? id = some g ∧ g.revokedAt = none

variable (past : List Event)

/-- Another profile was shared with the principal by these steps, not unshared since, and that
share counts on the grant. -/
def NeededElsewhere (profile : Uuid) (principal : Principal) (id : Uuid) : Prop :=
  ∃ before e after other owner control review grants skipped, past = before ++ e :: after ∧
    other ≠ profile ∧ e.input.request = .share owner other principal control review ∧
    e.answer = .ok (.shared grants skipped) ∧ id ∈ grants.map (·.id) ∧
    ∀ f ∈ after, ¬ Unshares other principal f

/-- Every grant that a share of the profile made for the principal, and that is active in the
state, is needed elsewhere. -/
def Withdrawn (profile : Uuid) (principal : Principal) (s : Store) : Prop :=
  ∀ before e after g, past = before ++ e :: after → Shares profile principal e → Creates e g →
    Active s g.id → NeededElsewhere past profile principal g.id

/-- Every grant that a share of the profile made for the principal, and that is active in the
state, is needed elsewhere or is one whose configuration the profile still has. -/
def Unedited (profile : Uuid) (principal : Principal) (s : Store) : Prop :=
  ∀ before e after g, past = before ++ e :: after → Shares profile principal e → Creates e g →
    Active s g.id → NeededElsewhere past profile principal g.id ∨
      ∃ p q, e.pre.profiles.get? profile = some p ∧ s.profiles.get? profile = some q ∧
        Kept p q g.targetKind

theorem validateShareRequest_ok {p : Profile}
    (h : validateShareRequest owner id principal s = .ok p) :
    s.profiles.get? id = some p ∧ p.realmId = owner.realmId ∧ p.ownerId = owner.id ∧
      principal.user.isNone ≠ principal.group.isNone ∧
      s.principalUnavailable owner principal = false := by
  unfold validateShareRequest at h
  split at h
  · cases h
  · next hone =>
    split at h
    · cases h
    · next x hx =>
      split at h
      · cases h
      · next howner =>
        split at h
        · cases h
        · next hvalid =>
          cases h
          rw [not_or, not_not, not_not] at howner
          exact ⟨hx, howner.1, howner.2, hone, Bool.eq_false_iff.mpr hvalid⟩

theorem shareAgentProfile_given {p : Profile} (control review : Bool)
    (h : validateShareRequest owner id principal s = .ok p) :
    Given owner p principal control review (shareTargets p) s
      (shareAgentProfile owner id principal control review s).2 := by
  obtain ⟨-, -, -, hone, hvalid⟩ := validateShareRequest_ok h
  rw [shareAgentProfile, h]
  exact shareAll_given hone (shareTargets p) ⟨[], [], s⟩ hvalid

/-- A served share: the profile it read, and the terms of what it adds. -/
theorem shares_cases (he : step e.input e.pre = (e.answer, e.post)) (h : Shares id principal e) :
    ∃ owner p control review, e.pre.profiles.get? id = some p ∧ p.realmId = owner.realmId ∧
      p.ownerId = owner.id ∧ ∀ g, Creates e g → ∃ t ∈ shareTargets p,
        g.toTerms = sharedTerms owner p principal control review t := by
  obtain ⟨owner, control, review, hr, hok⟩ := h
  have hanswer : (step e.input e.pre).1 = e.answer := by rw [he]
  have hpost : (step e.input e.pre).2 = e.post := by rw [he]
  rw [← hanswer] at hok
  simp only [step, perform, hr, reply] at hok hpost
  cases hvalid : validateShareRequest owner id principal (e.pre.later e.input.elapsed) with
  | error refusal =>
    rw [shareAgentProfile, hvalid] at hok
    cases hok
  | ok p =>
    obtain ⟨hp, hrealm, howner, -⟩ := validateShareRequest_ok hvalid
    refine ⟨owner, p, control, review, hp, hrealm, howner, ?_⟩
    rintro g ⟨hg, hnew⟩
    rw [← hpost] at hg
    rcases (shareAgentProfile_given control review hvalid).new g (get?_eq_some.mp hg).1 with
      hold | ⟨t, ht, hterms, -⟩
    · have hsome := get?_eq_some.mpr ⟨hold, rfl⟩
      rw [show e.pre.grants.get? g.id = some g from hsome] at hnew
      cases hnew
    · exact ⟨t, ht, hterms⟩

/-- A served unshare: the profile it read, and what it does to the grants. -/
theorem unshares_cases (he : step e.input e.pre = (e.answer, e.post))
    (h : Unshares id principal e) :
    ∃ owner q now, e.pre.profiles.get? id = some q ∧ q.realmId = owner.realmId ∧
      q.ownerId = owner.id ∧ ∀ n, e.post.grants.get? n = (e.pre.grants.get? n).map fun g =>
        if (shareTargets q).any (unshares owner q principal · g) then g.revoke now else g := by
  obtain ⟨owner, hr, hok⟩ := h
  have hanswer : (step e.input e.pre).1 = e.answer := by rw [he]
  have hpost : (step e.input e.pre).2 = e.post := by rw [he]
  rw [← hanswer] at hok
  simp only [step, perform, hr, reply, unshareAgentProfile] at hok hpost
  cases hvalid : validateShareRequest owner id principal (e.pre.later e.input.elapsed) with
  | error refusal =>
    rw [hvalid] at hok
    cases hok
  | ok q =>
    obtain ⟨hq, hrealm, howner, -⟩ := validateShareRequest_ok hvalid
    refine ⟨owner, q, (e.pre.later e.input.elapsed).clock, hq, hrealm, howner, fun n => ?_⟩
    rw [hvalid] at hpost
    rw [← hpost]
    exact unshareAll_get? _ _

/-- An unshare leaves a grant active if and only if some edit since the share that made it did
not keep what the share read. -/
theorem survives_iff {inputs : List Input} {before after later : List Event} {c e : Event} (h : history inputs = before ++ c :: (after ++ e :: later))
    (hc : Shares id principal c) (hg : Creates c g) (he : Unshares id principal e) :
    ∃ p q, c.pre.profiles.get? id = some p ∧ e.pre.profiles.get? id = some q ∧
      (Active e.post g.id ↔ Active e.pre g.id ∧ ¬ Kept p q g.targetKind) := by
  have hstepc : step c.input c.pre = (c.answer, c.post) := by
    have hmem : c ∈ history inputs := by
      rw [h]
      simp
    exact step_of_mem hmem
  have hstepe : step e.input e.pre = (e.answer, e.post) := by
    have hmem : e ∈ history inputs := by
      rw [h]
      simp
    exact step_of_mem hmem
  have hbetween : Frame c.post e.pre := history_rel step Frame.refl
    (fun _ _ _ => Frame.trans) frame_step h
  have hfirst : Frame c.pre c.post := by
    have hframe := frame_step c.input c.pre
    rwa [hstepc] at hframe
  obtain ⟨owner₀, p, control, review, hp, hrealm₀, howner₀, hnew⟩ := shares_cases hstepc hc
  obtain ⟨owner, q, now, hq, hrealm, howner, hpost⟩ := unshares_cases hstepe he
  obtain ⟨t, ht, hterms⟩ := hnew g hg
  obtain ⟨q', hq', hsameRealm, hsameOwner, hsameRunner⟩ :=
    (hfirst.trans hbetween).profiles id p hp
  cases hq.symm.trans hq'
  obtain ⟨g', hg', hterms', -⟩ := hbetween.grants g.id g hg.1
  have hkind : g.targetKind = t.1 := congrArg Terms.targetKind hterms
  refine ⟨p, q, hp, hq, ?_⟩
  have hmatch : g'.revokedAt = none →
      ((shareTargets q).any (unshares owner q principal · g') = true ↔ Kept p q g.targetKind) := by
    intro hactive
    rw [hkind]
    refine unshared_iff ht (hterms'.trans hterms) hactive ?_ hsameRunner ?_ ?_
    · exact (get?_eq_some.mp hq).2.trans (get?_eq_some.mp hp).2.symm
    · rw [← howner, ← howner₀, hsameOwner]
    · rw [← hrealm, ← hrealm₀, hsameRealm]
  have hrow := hpost g.id
  rw [hg', Option.map_some] at hrow
  constructor
  · rintro ⟨x, hx, hactive⟩
    cases hrow.symm.trans hx
    split at hactive
    · cases hactive
    · next hnone =>
      exact ⟨⟨g', hg', hactive⟩, fun hkept => hnone ((hmatch hactive).mpr hkept)⟩
  · rintro ⟨⟨x, hx, hactive⟩, hedited⟩
    cases hg'.symm.trans hx
    rw [if_neg fun hany => hedited ((hmatch hactive).mp hany)] at hrow
    exact ⟨g', hrow, hactive⟩

theorem withdrawn_iff {inputs : List Input} {past later : List Event}
    (h : history inputs = past ++ e :: later) (he : Unshares id principal e) :
    Withdrawn past id principal e.post ↔ Unedited past id principal e.pre := by
  constructor
  · rintro hw before c after g rfl hc hg hactive
    obtain ⟨p, q, hp, hq, hiff⟩ := survives_iff (by simpa using h) hc hg he
    by_cases hkept : Kept p q g.targetKind
    · exact .inr ⟨p, q, hp, hq, hkept⟩
    · exact .inl (hw before c after g rfl hc hg (hiff.mpr ⟨hactive, hkept⟩))
  · rintro hu before c after g rfl hc hg hactive
    obtain ⟨p, q, hp, hq, hiff⟩ := survives_iff (by simpa using h) hc hg he
    obtain ⟨hbefore, hedited⟩ := hiff.mp hactive
    rcases hu before c after g rfl hc hg hbefore with hneeded | ⟨p', q', hp', hq', hkept⟩
    · exact hneeded
    · cases hp.symm.trans hp'
      cases hq.symm.trans hq'
      exact absurd hkept hedited

/-- **Unsharing revokes what sharing granted**, throughout a run, if and only if no unshare of
it comes after an edit that changed what the share had read. -/
theorem withdraws_iff (inputs : List Input) :
    (∀ past e later profile principal, history inputs = past ++ e :: later →
      Unshares profile principal e → Withdrawn past profile principal e.post) ↔
    ∀ past e later profile principal, history inputs = past ++ e :: later →
      Unshares profile principal e → Unedited past profile principal e.pre := by
  constructor
  · intro hw past e later profile principal h he
    exact (withdrawn_iff h he).mp (hw past e later profile principal h he)
  · intro hu past e later profile principal h he
    exact (withdrawn_iff h he).mpr (hu past e later profile principal h he)

/-- A profile with a repository is shared and loses the repository before it is unshared. -/
def editedRun : List Input :=
  let owner : User := ⟨1, 1, false⟩
  let member : User := ⟨2, 1, false⟩
  let users := ((Table.empty User.id).create (fun id => { owner with id := id }) fun _ => rfl).create
    (fun id => { member with id := id }) fun _ => rfl
  let runners := (Table.empty Resource.id).create (fun id => ⟨id, 1, 1, none⟩) fun _ => rfl
  let repositories := (Table.empty Resource.id).create (fun id => ⟨id, 1, 1, some 1⟩) fun _ => rfl
  [⟨0, .world users (.empty _) runners (.empty _) repositories⟩,
    ⟨0, .createProfile ⟨1, 1, 1, 1, none, some 1, .acp, .code, false, 1⟩⟩,
    ⟨0, .share owner 1 ⟨some 2, none⟩ false false⟩,
    ⟨0, .edit owner 1 ⟨1, none, none, .acp, .answer, false⟩ true⟩,
    ⟨0, .unshare owner 1 ⟨some 2, none⟩⟩]

/-- The member keeps the grants for the repository and for the profile. -/
theorem not_withdraws_editedRun :
    ¬ ∀ past e later profile principal, history editedRun = past ++ e :: later →
      Unshares profile principal e → Withdrawn past profile principal e.post := by
  intro h
  have hsplit : history editedRun = (history editedRun).take 4 ++
      (history editedRun).get ⟨4, by decide⟩ :: (history editedRun).drop 5 := by
    rw [get_eq_getElem, ← drop_eq_getElem_cons, take_append_drop]
  have hw := h _ _ _ 1 ⟨some 2, none⟩ hsplit ⟨⟨1, 1, false⟩, rfl, by decide⟩
  have hpast : (history editedRun).take 4 = (history editedRun).take 2 ++
      (history editedRun).get ⟨2, by decide⟩ :: [(history editedRun).get ⟨3, by decide⟩] := rfl
  let g : Grant := ⟨⟨1, 1, some 2, none, .repository, 1, none, none, codeJobActions, none⟩, 3, 1,
    none⟩
  have hneeded := hw _ _ _ g hpast ⟨⟨1, 1, false⟩, false, false, rfl, by decide⟩
    ⟨by decide, by decide⟩ ⟨g, by decide, rfl⟩
  obtain ⟨before, e, after, other, owner, control, review, grants, skipped, he, hne, hr, -⟩ :=
    hneeded
  -- The run has one share, and it is of the profile itself.
  have hinput : e.input ∈ editedRun.take 4 := by
    have hmem : e ∈ (history editedRun).take 4 := by
      rw [he]
      simp
    exact mem_map_of_mem (f := fun e : Event => e.input) hmem
  simp only [editedRun, take_succ_cons, take_zero, mem_cons, not_mem_nil, or_false] at hinput
  rcases hinput with hi | hi | hi | hi
  all_goals rw [hi] at hr
  · cases hr
  · cases hr
  · cases hr
    exact hne rfl
  · cases hr

/-! ## Two profiles -/

theorem Given.has_iff (h : Given owner profile principal control review ts s s') (ht : t ∈ ts) :
    Has owner profile principal control review t s' ↔
      Has owner profile principal control review t s ∨ s.Owns owner t := by
  constructor
  · rintro ⟨g, hg, hfilter, hactions⟩
    rcases h.new g hg with hold | ⟨u, -, hterms, howns⟩
    · exact .inl ⟨g, hold, hfilter, hactions⟩
    · obtain ⟨-, -, -, -, rfl, -⟩ := filters_iff.mp hfilter
      have hkind : g.targetKind = u.1 := congrArg Terms.targetKind hterms
      have htarget : g.target = u.2 := congrArg Terms.target hterms
      exact .inr (by rwa [hkind, htarget])
  · exact fun h' => h'.elim (·.grows h.grows) (h.given t ht)

/-- On what two profiles use, every share gives the same. -/
theorem combinations_of_shared (hA : t ∈ shareTargets A) (hB : t ∈ shareTargets B)
    (hne : A.id ≠ B.id) : shareActionCombinations t.1 A = [actionsWanted t.1 B control review] := by
  rcases mem_shareTargets.mp hB with rfl | rfl | ⟨id, -, rfl⟩ | ⟨id, -, rfl⟩
  · simp [mem_shareTargets, hne.symm] at hA
  · rfl
  · rfl
  · rfl

/-- An unshare takes from another profile what both use, if they have one owner. -/
theorem has_unshared_iff {ownerA ownerB : User}
    (hA : validateShareRequest ownerA id principal s = .ok A) (hne : A.id ≠ B.id)
    (ht : t ∈ shareTargets B) :
    Has ownerB B principal control review t (unshareAgentProfile ownerA id principal s).2 ↔
      Has ownerB B principal control review t s ∧
        ¬ (t ∈ shareTargets A ∧ ownerA.id = ownerB.id ∧ ownerA.realmId = ownerB.realmId) := by
  have hpost : ∀ n, (unshareAgentProfile ownerA id principal s).2.grants.get? n =
      (s.grants.get? n).map fun g => if (shareTargets A).any (unshares ownerA A principal · g) then
        g.revoke s.clock else g := by
    intro n
    rw [unshareAgentProfile, hA]
    exact unshareAll_get? _ _
  have hget : ∀ s, Has ownerB B principal control review t s ↔ ∃ n g, s.grants.get? n = some g ∧
      shareGrantFilters ownerB principal t g = true ∧
        sameActions g.actions (actionsWanted t.1 B control review) = true := by
    intro s
    simp [Has]
  simp only [hget, hpost, Option.map_eq_some_iff]
  constructor
  · rintro ⟨n, _, ⟨g, hg, rfl⟩, hfilter, hactions⟩
    split at hfilter
    · cases (filters_iff.mp hfilter).2.2.2.2.2.1
    · next hnone =>
      rw [if_neg hnone] at hactions
      refine ⟨⟨n, g, hg, hfilter, hactions⟩, ?_⟩
      rintro ⟨hmem, hid, hrealm⟩
      refine hnone (any_eq_true.mpr ⟨t, hmem, ?_⟩)
      rw [unshares, combinations_of_shared hmem ht hne, Bool.and_eq_true, any_cons, hactions]
      rw [filters_iff, ← hid, ← hrealm] at hfilter
      exact ⟨filters_iff.mpr hfilter, rfl⟩
  · rintro ⟨⟨n, g, hg, hfilter, hactions⟩, hnot⟩
    refine ⟨n, g, ⟨g, hg, if_neg fun hany => hnot ?_⟩, hfilter, hactions⟩
    obtain ⟨u, hu, htaken⟩ := any_eq_true.mp hany
    obtain ⟨hrealm, hid, -, -, hu', -⟩ := filters_iff.mp ((Bool.and_eq_true _ _).mp htaken).1
    obtain ⟨hrealm', hid', -, -, ht', -⟩ := filters_iff.mp hfilter
    exact ⟨ht' ▸ hu' ▸ hu, hid.symm.trans hid', hrealm.symm.trans hrealm'⟩

/-- **Unsharing one profile leaves the share of another whole** if and only if the two have
different owners, or the principal has no grant on anything that both use. -/
theorem spares_iff {ownerA ownerB : User} {a b : Uuid} {c r c' r' : Bool}
    {shared : Store} (hne : a ≠ b) (hA : validateShareRequest ownerA a principal s = .ok A)
    (hB : validateShareRequest ownerB b principal s = .ok B)
    (hshared : shared = (perform (perform s (.share ownerA a principal c r)).2
        (.share ownerB b principal c' r')).2 ∨
      shared = (perform (perform s (.share ownerB b principal c' r')).2
        (.share ownerA a principal c r)).2) :
    (∀ t ∈ shareTargets B,
      Has ownerB B principal c' r' t (perform s (.share ownerB b principal c' r')).2 →
        Has ownerB B principal c' r' t (perform shared (.unshare ownerA a principal)).2) ↔
      ∀ t ∈ shareTargets B, t ∈ shareTargets A → ownerA.id = ownerB.id →
        ownerA.realmId = ownerB.realmId → ¬ (Has ownerB B principal c' r' t s ∨ s.Owns ownerB t) := by
  have hids : A.id ≠ B.id := by
    have ha := (Table.get?_eq_some.mp (validateShareRequest_ok hA).1).2
    have hb := (Table.get?_eq_some.mp (validateShareRequest_ok hB).1).2
    rwa [ha, hb]
  have hgrown : ∀ {s' owner id p}, Grows s s' → validateShareRequest owner id principal s = .ok p →
      validateShareRequest owner id principal s' = .ok p := by
    rintro _ owner id p ⟨grants, -, rfl⟩ h
    exact h
  have halone := shareAgentProfile_given c' r' hB
  have hmid : Grows s shared ∧ ∀ t, Has ownerB B principal c' r' t
      (perform s (.share ownerB b principal c' r')).2 → t ∈ shareTargets B →
        Has ownerB B principal c' r' t shared := by
    rcases hshared with rfl | rfl
    · have hfirst := shareAgentProfile_given c r hA
      have hsecond := shareAgentProfile_given c' r' (hgrown hfirst.grows hB)
      refine ⟨hfirst.grows.trans hsecond.grows, fun t h ht => (hsecond.has_iff ht).mpr ?_⟩
      exact ((halone.has_iff ht).mp h).imp (·.grows hfirst.grows) hfirst.grows.owns.mpr
    · have hsecond := shareAgentProfile_given c r (hgrown halone.grows hA)
      exact ⟨halone.grows.trans hsecond.grows, fun t h _ => h.grows hsecond.grows⟩
  have hA' := hgrown hmid.1 hA
  constructor
  · intro hspares t ht hmem hid hrealm hhas
    have hleft := hspares t ht ((halone.has_iff ht).mpr hhas)
    exact ((has_unshared_iff hA' hids ht).mp hleft).2 ⟨hmem, hid, hrealm⟩
  · intro hapart t ht hhas
    refine (has_unshared_iff hA' hids ht).mpr ⟨hmid.2 t hhas ht, ?_⟩
    rintro ⟨hmem, hid, hrealm⟩
    exact hapart t ht hmem hid hrealm ((halone.has_iff ht).mp hhas)

/-- A profile on the runner of its owner. -/
def plainProfile (id : Uuid) : Profile := ⟨id, 1, 1, 1, none, none, .acp, .answer, false, 1⟩

/-- Two of them. -/
def twoProfiles : Store :=
  let user (id : ℕ) : User := ⟨id, 1, false⟩
  let users := ((Table.empty User.id).create user fun _ => rfl).create user fun _ => rfl
  let runners := (Table.empty Resource.id).create (fun id => ⟨id, 1, 1, none⟩) fun _ => rfl
  let world := (perform .empty (.world users (.empty _) runners (.empty _) (.empty _))).2
  (perform (perform world (.createProfile (plainProfile 1))).2 (.createProfile (plainProfile 2))).2

theorem spares_iff_twoProfiles :
    ¬ ∀ t ∈ shareTargets (plainProfile 2),
      Has ⟨1, 1, false⟩ (plainProfile 2) ⟨some 2, none⟩ false false t
        (perform twoProfiles (.share ⟨1, 1, false⟩ 2 ⟨some 2, none⟩ false false)).2 →
      Has ⟨1, 1, false⟩ (plainProfile 2) ⟨some 2, none⟩ false false t
        (perform (perform (perform twoProfiles
          (.share ⟨1, 1, false⟩ 1 ⟨some 2, none⟩ false false)).2
          (.share ⟨1, 1, false⟩ 2 ⟨some 2, none⟩ false false)).2
          (.unshare ⟨1, 1, false⟩ 1 ⟨some 2, none⟩)).2 := by
  intro hspares
  have hapart := (spares_iff (A := plainProfile 1) (by decide) rfl rfl (.inl rfl)).mp hspares
  exact hapart (.runner, 1) (by decide) (by decide) rfl rfl (.inr rfl)

/-- The second share reuses the grant for the runner, which ends with the first. -/
theorem not_spares_twoProfiles :
    ¬ ∀ s ownerA ownerB a b A B principal c r c' r', a ≠ b →
      validateShareRequest ownerA a principal s = .ok A →
      validateShareRequest ownerB b principal s = .ok B → ∀ t ∈ shareTargets B,
        Has ownerB B principal c' r' t (perform s (.share ownerB b principal c' r')).2 →
        Has ownerB B principal c' r' t
          (perform (perform (perform s (.share ownerA a principal c r)).2
            (.share ownerB b principal c' r')).2 (.unshare ownerA a principal)).2 := by
  intro h
  have hkept := h twoProfiles ⟨1, 1, false⟩ ⟨1, 1, false⟩ 1 2 _ _ ⟨some 2, none⟩ false false false
    false (by decide) rfl rfl (.runner, 1) (by decide)
  unfold Has at hkept
  exact absurd hkept (by decide)

end GrowTeam.Sharing
