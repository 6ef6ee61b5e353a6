/-
# What the journal keeps

A row keeps its place in the table, its kind, route and request, and its state only moves
forward; what names it, its id and scope, changes once, when it leaves the empty scope
(`Row.Later`).  An operation of one scope is blind to every other scope that has no row with
the very id it works on (`Op.blind`), which between two named scopes is always so.
-/
import GrowTeam.Runner.Journal

namespace GrowTeam.Partition

open List Journal

variable {δ : Type}

/-! ## A row over time -/

/-- The same row at a later time. -/
structure Row.Later (e e' : Row δ) : Prop where
  kind : e'.kind = e.kind
  route : e'.route = e.route
  request : e'.request = e.request
  state : e.state.rank ≤ e'.state.rank
  response : e.state = .done → e'.response = e.response
  /-- The names stay, but for an entry of the empty scope that is given a scope. -/
  names : (e'.scope = e.scope ∧ e'.id = e.id) ∨
    (e.scope = "" ∧ e'.scope ≠ "" ∧ e'.id = e'.scope ++ "/" ++ e.id)

theorem Row.Later.refl (e : Row δ) : Row.Later e e :=
  ⟨rfl, rfl, rfl, Nat.le_refl _, fun _ => rfl, .inl ⟨rfl, rfl⟩⟩

/-- A state that follows `done` is `done`. -/
theorem done_of_rank {s t : EntryState} (hs : s = .done) (h : s.rank ≤ t.rank) : t = .done := by
  subst hs
  cases t <;> simp [EntryState.rank] at h ⊢

theorem Row.Later.trans {e e' e'' : Row δ} (h : Row.Later e e') (h' : Row.Later e' e'') :
    Row.Later e e'' := by
  refine ⟨h'.kind.trans h.kind, h'.route.trans h.route, h'.request.trans h.request,
    Nat.le_trans h.state h'.state, ?_, ?_⟩
  · intro hd
    exact (h'.response (done_of_rank hd h.state)).trans (h.response hd)
  · rcases h.names with ⟨hscope, hid⟩ | ⟨hscope, hne, hid⟩
    · rw [← hscope, ← hid]
      exact h'.names
    · rcases h'.names with ⟨hscope', hid'⟩ | ⟨hscope', -⟩
      · exact .inr ⟨hscope, by rwa [hscope'], by rw [hid', hscope', hid]⟩
      · exact absurd hscope' hne

variable {e e' : Row δ} {R : Row δ → Row δ → Prop} {j j' : Log δ} {scope other : String}

theorem Row.Later.of_forward (h : e.Forward e') : Row.Later e e' := by
  obtain ⟨hid, hscope, hkind, hroute, hrequest, hstate, hresponse⟩ := h
  exact ⟨hkind, hroute, hrequest, hstate, hresponse, .inl ⟨hscope, hid⟩⟩

/-- A later row that kept its id kept its scope too. -/
theorem Row.Later.forward (h : Row.Later e e') (hid : e'.id = e.id) : e.Forward e' := by
  have hscope : e'.scope = e.scope := by
    rcases h.names with ⟨hscope, -⟩ | ⟨-, -, hlong⟩
    · exact hscope
    · rw [hid] at hlong
      have hlength := congrArg String.length hlong
      simp only [String.length_append] at hlength
      have hslash : "/".length = 1 := rfl
      omega
  exact ⟨hid, hscope, h.kind, h.route, h.request, h.state, h.response⟩

/-! ## A table over time -/

/-- Every row of `rows` is still at its place in `rows'`, in a form that `R` allows. -/
def Grown (R : Row δ → Row δ → Prop) (rows rows' : List (Row δ)) : Prop :=
  ∀ (k : ℕ) e, rows[k]? = some e → ∃ e', rows'[k]? = some e' ∧ R e e'

theorem Grown.refl (hR : ∀ e, R e e) (rows : List (Row δ)) :
    Grown R rows rows := fun _ e h => ⟨e, h, hR e⟩

variable {rows rows' : List (Row δ)}

theorem Grown.trans (hR : ∀ a b c, R a b → R b c → R a c)
    {rows'' : List (Row δ)} (h : Grown R rows rows') (h' : Grown R rows' rows'') :
    Grown R rows rows'' := by
  intro k e he
  obtain ⟨e', he', hstep⟩ := h k e he
  obtain ⟨e'', he'', hstep'⟩ := h' k e' he'
  exact ⟨e'', he'', hR e e' e'' hstep hstep'⟩

theorem Grown.imp {R R' : Row δ → Row δ → Prop} (hR : ∀ e e', R e e' → R' e e')
    (h : Grown R rows rows') : Grown R' rows rows' := by
  intro k e he
  obtain ⟨e', he', hstep⟩ := h k e he
  exact ⟨e', he', hR e e' hstep⟩

theorem grown_map {f : Row δ → Row δ}
    (hf : ∀ e ∈ rows, R e (f e)) : Grown R rows (rows.map f) := by
  intro k e he
  refine ⟨f e, ?_, hf e (mem_of_getElem? he)⟩
  rw [getElem?_map, he]
  rfl

theorem grown_append (hR : ∀ e, R e e) (rows more : List (Row δ)) :
    Grown R rows (rows ++ more) := by
  intro k e he
  refine ⟨e, ?_, hR e⟩
  rw [getElem?_append_left (List.getElem?_eq_some_iff.mp he).1]
  exact he

/-- In a table with unique ids, the row of an id that is kept is found again under it. -/
theorem Grown.same_id (h : Grown R j.entries j'.entries) (he : e ∈ j.entries)
    (he' : e' ∈ j'.entries) (hid : e'.id = e.id) (hR : ∀ a, R e a → a.id = e.id) : R e e' := by
  obtain ⟨k, hk⟩ := mem_iff_getElem?.mp he
  obtain ⟨a, ha, hstep⟩ := h k e hk
  have hsame : a.id = e'.id := by rw [hR a hstep, hid]
  rwa [inj_on_of_nodup_map j'.nodup (mem_of_getElem? ha) he' hsame] at hstep

/-! ## Statements of the table -/

/-- **No entry is lost**: the call puts every entry of the empty scope under the scope it
preserves, or is refused and changes nothing. -/
theorem preserve_entries {scope : String} (hscope : scope ≠ "")
    (h : preserveLegacyScope j scope = some j') : j'.entries = j.entries.map (renamed scope) := by
  rw [preserveLegacyScope, if_neg hscope] at h
  split at h
  · next rows hrows =>
    cases h
    simpa using adopt_eq_some hrows
  · cases h

theorem renamed_later {scope : String} (hscope : scope ≠ "") (e : Row δ) :
    Row.Later e (renamed scope e) := by
  unfold renamed
  split
  · next hlegacy => exact ⟨rfl, rfl, rfl, Nat.le_refl _, fun _ => rfl, .inr ⟨hlegacy, hscope, rfl⟩⟩
  · exact .refl e

theorem Grown.later (h : Grown Entry.Forward rows rows') :
    Grown Row.Later rows rows' := h.imp fun _ _ => Row.Later.of_forward

theorem uncertain_grown (j : Log δ) (id : String) :
    Grown Entry.Forward j.entries (j.uncertain id).entries := by
  refine grown_map fun e _ => ?_
  split
  · dsimp only
    split
    · next hstate =>
      exact ⟨rfl, rfl, rfl, rfl, rfl, by simp [hstate, EntryState.rank],
        fun hd => by simp [hstate] at hd⟩
    · exact .refl e
  · exact .refl e

theorem preserve_grown (j : Log δ) (scope : Option String) :
    Grown Row.Later j.entries (preserve j scope).2.entries ∧
      (scope = none → Grown Entry.Forward j.entries (preserve j scope).2.entries) := by
  have hrefl : Grown Entry.Forward j.entries j.entries := .refl Entry.Forward.refl _
  cases scope with
  | none => exact ⟨hrefl.later, fun _ => hrefl⟩
  | some scope =>
    refine ⟨?_, fun h => by cases h⟩
    rw [preserve]
    split
    · next j' hj =>
      by_cases hscope : scope = ""
      · rw [preserveLegacyScope, if_pos hscope] at hj
        cases hj
        exact hrefl.later
      · show Grown Row.Later j.entries j'.entries
        rw [preserve_entries hscope hj]
        exact grown_map fun e _ => renamed_later hscope e
    · exact hrefl.later

/-! ## Where the rows of a scope are -/

/-- Every row is under an id of its scope. -/
def Placed (j : Log δ) : Prop := ∀ e ∈ j.entries, ∃ id, e.id = fullId e.scope id

/-- A scope with a name that is no path: the scopes of the runners are such. -/
def Named (scope : String) : Prop := scope ≠ "" ∧ '/' ∉ scope.toList

/-- No row of the scope has this very id. -/
def Free (scope fullId : String) (j : Log δ) : Prop :=
  ∀ e ∈ j.entries, e.scope = scope → e.id ≠ fullId

/-- Rows that keep their names, and rows of known place, leave a table placed. -/
theorem placed_of_rows (hj : Placed j)
    (h : ∀ e' ∈ j'.entries, (∃ e ∈ j.entries, e'.id = e.id ∧ e'.scope = e.scope) ∨
      ∃ id, e'.id = fullId e'.scope id) : Placed j' := by
  intro e' he'
  rcases h e' he' with ⟨e, he, hid, hscope⟩ | hid
  · rw [hid, hscope]
    exact hj e he
  · exact hid

variable {j : Log δ}

theorem modify_placed (hj : Placed j) (id : String) (f : Row δ → Row δ)
    (hf : ∀ e, (f e).id = e.id) (hscope : ∀ e, (f e).scope = e.scope) :
    Placed (j.modify id f hf) := by
  refine placed_of_rows hj fun e' he' => .inl ?_
  obtain ⟨e, he, rfl⟩ := mem_map.mp he'
  refine ⟨e, he, ?_⟩
  split
  · exact ⟨hf e, hscope e⟩
  · exact ⟨rfl, rfl⟩

theorem uncertain_placed (hj : Placed j) (id : String) : Placed (j.uncertain id) :=
  modify_placed hj id _ _ fun e => by split <;> rfl

theorem preserve_placed (hj : Placed j) (scope : Option String) :
    Placed (preserve j scope).2 := by
  cases scope with
  | none => exact hj
  | some scope =>
    rw [preserve]
    split
    · next j' hj' =>
      show Placed j'
      by_cases hscope : scope = ""
      · rw [preserveLegacyScope, if_pos hscope] at hj'
        rwa [← Option.some.inj hj']
      · refine placed_of_rows hj fun e' he' => ?_
        rw [preserve_entries hscope hj'] at he'
        obtain ⟨e, he, rfl⟩ := mem_map.mp he'
        unfold renamed
        split
        · refine .inr ⟨e.id, ?_⟩
          rw [fullId, scopePrefix, if_neg hscope]
        · exact .inl ⟨e, he, rfl, rfl⟩
    · exact hj

variable (found : Found δ)

theorem Found.placed : Placed found.journal := by
  intro e he
  refine ⟨e.id, ?_⟩
  rw [found.unscoped e he, fullId, scopePrefix, if_pos rfl, String.empty_append]

/-- An id that is none of a scope is free in it. -/
theorem Placed.free (hj : Placed j) {scope id : String}
    (hid : ∀ x, fullId scope x ≠ id) : Free scope id j := by
  rintro e he rfl
  obtain ⟨x, hx⟩ := hj e he
  rw [hx]
  exact hid x

/-- What stands before the first slash is given by the whole. -/
theorem eq_of_append_slash {a b c d : List Char} (ha : '/' ∉ a) (hb : '/' ∉ b)
    (h : a ++ '/' :: c = b ++ '/' :: d) : a = b := by
  induction a generalizing b with
  | nil =>
    cases b with
    | nil => rfl
    | cons y b => exact absurd (List.cons.inj h).1 fun hy => hb (by simp [← hy])
  | cons x a ih =>
    cases b with
    | nil => exact absurd (List.cons.inj h).1 fun hx => ha (by simp [hx])
    | cons y b =>
      obtain ⟨rfl, htail⟩ := List.cons.inj h
      rw [ih (fun hm => ha (mem_cons_of_mem _ hm)) (fun hm => hb (mem_cons_of_mem _ hm))
        htail]

/-- Two named scopes have no id in common. -/
theorem fullId_ne {scope other x y : String} (hscope : Named scope) (hother : Named other)
    (hne : scope ≠ other) : fullId other x ≠ fullId scope y := by
  intro h
  rw [fullId, fullId, scopePrefix, scopePrefix, if_neg hscope.1, if_neg hother.1] at h
  have hlists := congrArg String.toList h
  simp only [String.toList_append, append_assoc] at hlists
  have hsame := eq_of_append_slash hother.2 hscope.2 hlists
  exact hne (String.toList_inj.mp hsame).symm

/-! ## The rows of a scope, and the others -/

/-- The rows of a scope. -/
def within (scope : String) (j : Log δ) : List (Row δ) := j.entries.filter (·.scope = scope)

/-- The rows of all other scopes. -/
def outside (scope : String) (j : Log δ) : List (Row δ) := j.entries.filter (·.scope ≠ scope)

theorem get_eq_of_outside {scope id : String} (hj : Free scope id j)
    (hj' : Free scope id j') (h : outside scope j = outside scope j') : j.get id = j'.get id := by
  have hmem : ∀ {j : Log δ}, Free scope id j →
      ∀ e, j.get id = some e ↔ e ∈ outside scope j ∧ e.id = id := by
    intro j hj e
    rw [get_eq_some, outside, mem_filter, decide_eq_true_eq]
    constructor
    · rintro ⟨he, hid⟩
      exact ⟨⟨he, fun hscope => hj e he hscope hid⟩, hid⟩
    · rintro ⟨⟨he, -⟩, hid⟩
      exact ⟨he, hid⟩
  apply Option.ext
  intro e
  rw [hmem hj, hmem hj', h]

section Modify

variable {j : Log δ} {scope id : String} {f : Row δ → Row δ} (hf : ∀ e, (f e).id = e.id)

theorem modify_within (hscope : ∀ e, (f e).scope = e.scope) (hj : Free scope id j) :
    within scope (j.modify id f hf) = within scope j := by
  have hkeep : ((fun e : Row δ => decide (e.scope = scope)) ∘
      fun e => if e.id = id then f e else e) = fun e => decide (e.scope = scope) := by
    funext e
    rw [Function.comp]
    split
    · rw [hscope]
    · rfl
  rw [within, Journal.modify, filter_map, hkeep]
  refine (map_congr_left fun e he => ?_).trans (map_id _)
  obtain ⟨he, hin⟩ := mem_filter.mp he
  exact if_neg (hj e he (of_decide_eq_true hin))

theorem modify_outside (hscope : ∀ e, (f e).scope = e.scope) :
    outside scope (j.modify id f hf) =
      (outside scope j).map fun e => if e.id = id then f e else e := by
  have hkeep : ((fun e : Row δ => decide (e.scope ≠ scope)) ∘
      fun e => if e.id = id then f e else e) = fun e => decide (e.scope ≠ scope) := by
    funext e
    rw [Function.comp]
    split
    · rw [hscope]
    · rfl
  rw [outside, Journal.modify, filter_map, hkeep]
  rfl

end Modify

/-- What a partition lists does not depend on the rows of another scope. -/
theorem listed_of_outside (hne : scope ≠ other) (kind : Option String) (h : outside other j = outside other j') :
    (listed kind j).filter (·.scope = scope) = (listed kind j').filter (·.scope = scope) := by
  have hview : ∀ j : Log δ, (listed kind j).filter (·.scope = scope) =
      ((outside other j).filter fun e => (kind.filter (· ≠ "")).all (e.kind = ·)).filter
        (·.scope = scope) := by
    intro j
    unfold listed outside
    cases kind.filter (· ≠ "") with
    | none =>
      simp only [filter_filter, Option.all_none]
      refine filter_congr fun e _ => ?_
      by_cases hscope : e.scope = scope
      · simp [hscope, hne]
      · simp [hscope]
    | some kind =>
      simp only [Journal.list, filter_filter, Option.all_some]
      refine filter_congr fun e _ => ?_
      by_cases hscope : e.scope = scope
      · simp [hscope, hne]
      · simp [hscope]
  rw [hview, hview, h]

/-! ## Operations -/

variable [DecidableEq δ]

theorem complete_grown {id : String} {response : δ}
    (h : j.complete id response = .ok j') : Grown Entry.Forward j.entries j'.entries := by
  obtain ⟨old, hold, hkeep, -⟩ := complete_ok h
  unfold Journal.complete at h
  rw [hold] at h
  dsimp only at h
  split at h
  · cases h
  · cases h
    refine grown_map fun e he => ?_
    split
    · next hid =>
      obtain rfl : old = e := by
        have hget := get_eq_some.mpr ⟨he, hid⟩
        rw [hold] at hget
        exact Option.some.inj hget
      refine ⟨rfl, rfl, rfl, rfl, rfl, ?_, fun hd => (hkeep hd).symm⟩
      cases old.state <;> simp [EntryState.rank]
    · exact .refl e

theorem prepare_grown {kind id route scope : String} {request : δ} {e : Row δ}
    (h : j.prepare kind id route request scope = .ok (e, j')) :
    Grown Entry.Forward j.entries j'.entries := by
  cases hget : j.get id with
  | some old =>
    rw [prepare_of_some hget] at h
    split at h
    · cases h
    · cases h
      exact .refl Entry.Forward.refl _
  | none =>
    rw [prepare_of_none hget] at h
    cases h
    exact grown_append Entry.Forward.refl _ _

/-- An operation of a partition keeps every row with its names. -/
theorem Op.run_grown (scope : String) (secret : Bool) (j : Log δ) (op : Op δ) :
    Grown Entry.Forward j.entries (op.run scope secret j).2.entries := by
  have hrefl : Grown Entry.Forward j.entries j.entries := .refl Entry.Forward.refl _
  cases op with
  | get id | list kind => exact hrefl
  | uncertain id => exact uncertain_grown j _
  | prepare kind id route request =>
    rw [Op.run]
    split
    · exact hrefl
    · split
      · next hprepare => exact prepare_grown hprepare
      · exact hrefl
  | complete id response =>
    rw [Op.run]
    split
    · exact hrefl
    · split
      · next hcomplete => exact complete_grown hcomplete
      · exact hrefl

/-- A call keeps every row, with its names unless it preserves the empty scope. -/
theorem Call.run_grown (j : Log δ) (call : Call δ) :
    Grown Row.Later j.entries (call.run j).2.entries ∧
      (call.preserves = none → Grown Entry.Forward j.entries (call.run j).2.entries) := by
  cases call with
  | partition scope secret op =>
    have h := op.run_grown scope secret j
    exact ⟨h.later, fun _ => h⟩
  | list kind =>
    have hrefl : Grown Entry.Forward j.entries j.entries := .refl Entry.Forward.refl _
    exact ⟨hrefl.later, fun _ => hrefl⟩
  | preserveLegacyScope scope => exact preserve_grown j (some scope)
  | reopen runnerId => exact preserve_grown j _

theorem run_append (j : Log δ) (calls more : List (Call δ)) :
    run j (calls ++ more) = run (run j calls) more := foldl_append

/-- A list of calls keeps every row, with its names unless one of them preserves the empty
scope. -/
theorem run_grown (j : Log δ) (calls : List (Call δ)) :
    Grown Row.Later j.entries (run j calls).entries ∧
      ((∀ call ∈ calls, call.preserves = none) →
        Grown Entry.Forward j.entries (run j calls).entries) := by
  induction calls generalizing j with
  | nil => exact ⟨.refl Row.Later.refl _, fun _ => .refl Entry.Forward.refl _⟩
  | cons call calls ih =>
    obtain ⟨hlater, hforward⟩ := call.run_grown j
    obtain ⟨hlater', hforward'⟩ := ih (call.run j).2
    refine ⟨Grown.trans (R := Row.Later) (fun _ _ _ h h' => h.trans h') hlater hlater',
      fun hnone => Grown.trans (R := Entry.Forward) (fun _ _ _ h h' => h.trans h')
        (hforward (hnone call mem_cons_self))
        (hforward' fun c hc => hnone c (mem_cons_of_mem _ hc))⟩

theorem Op.run_placed (hj : Placed j) (scope : String) (secret : Bool) (op : Op δ) :
    Placed (op.run scope secret j).2 := by
  cases op with
  | get id | list kind => exact hj
  | uncertain id => exact uncertain_placed hj _
  | prepare kind id route request =>
    rw [Op.run]
    split
    · exact hj
    · split
      · next e j' hprepare =>
        show Placed j'
        cases hget : j.get (fullId scope id) with
        | some old =>
          rw [prepare_of_some hget] at hprepare
          split at hprepare
          · cases hprepare
          · cases hprepare
            exact hj
        | none =>
          rw [prepare_of_none hget] at hprepare
          cases hprepare
          refine placed_of_rows hj fun e' he' => ?_
          rcases mem_append.mp he' with he' | he'
          · exact .inl ⟨e', he', rfl, rfl⟩
          · rw [mem_singleton.mp he']
            exact .inr ⟨id, rfl⟩
      · exact hj
  | complete id response =>
    rw [Op.run]
    split
    · exact hj
    · split
      · next j' hcomplete =>
        show Placed j'
        unfold Journal.complete at hcomplete
        split at hcomplete
        · cases hcomplete
        · split at hcomplete
          · cases hcomplete
          · cases hcomplete
            exact modify_placed hj _ _ _ fun _ => rfl
      · exact hj

theorem run_placed (hj : Placed j) (calls : List (Call δ)) : Placed (run j calls) := by
  induction calls generalizing j with
  | nil => exact hj
  | cons call calls ih =>
    refine ih (j := (call.run j).2) ?_
    cases call with
    | partition scope secret op => exact op.run_placed hj scope secret
    | list kind => exact hj
    | preserveLegacyScope scope => exact preserve_placed hj (some scope)
    | reopen runnerId => exact preserve_placed hj _

/-! ## Operations of different scopes -/

/-- The id a method works on. -/
def Op.id : Op δ → Option String
  | .get id => some id
  | .list _ => none
  | .prepare _ id _ _ => some id
  | .uncertain id => some id
  | .complete id _ => some id

/-- **Frame**: an operation changes no row of a scope in which its full id is free. -/
theorem Op.run_within (hne : scope ≠ other) (secret : Bool)
    (op : Op δ) (hfree : ∀ id, op.id = some id → Free other (fullId scope id) j) :
    within other (op.run scope secret j).2 = within other j := by
  cases op with
  | get id | list kind => rfl
  | uncertain id =>
    show within other (j.uncertain _) = _
    exact modify_within _ (fun e => by split <;> rfl) (hfree id rfl)
  | prepare kind id route request =>
    rw [Op.run]
    split
    · rfl
    · cases hget : j.get (fullId scope id) with
      | some old =>
        rw [prepare_of_some hget]
        by_cases hconflict : old.scope ≠ scope ∨ old.kind ≠ kind ∨ old.route ≠ route ∨
            old.request ≠ request
        · rw [if_pos hconflict]
        · rw [if_neg hconflict]
      | none =>
        rw [prepare_of_none hget]
        show (j.entries ++ [_]).filter _ = j.entries.filter _
        simp [newEntry, hne]
  | complete id response =>
    rw [Op.run]
    split
    · rfl
    · rw [Journal.complete]
      cases hget : j.get (fullId scope id) with
      | none => rfl
      | some old =>
        dsimp only
        by_cases hconflict : old.state = .done ∧ old.response ≠ some response
        · rw [if_pos hconflict]
        · rw [if_neg hconflict]
          dsimp only
          exact modify_within _ (fun _ => rfl) (hfree id rfl)

/-- **Blindness**: on two journals that differ in the rows of a scope only, in which the full
id is free, an operation returns the same and does the same. -/
theorem Op.run_outside (hne : scope ≠ other) (secret : Bool) (op : Op δ)
    (hj : ∀ id, op.id = some id → Free other (fullId scope id) j)
    (hj' : ∀ id, op.id = some id → Free other (fullId scope id) j')
    (h : outside other j = outside other j') :
    (op.run scope secret j).1 = (op.run scope secret j').1 ∧
      outside other (op.run scope secret j).2 = outside other (op.run scope secret j').2 := by
  have hget : ∀ id, op.id = some id → j.get (fullId scope id) = j'.get (fullId scope id) :=
    fun id hid => get_eq_of_outside (hj id hid) (hj' id hid) h
  cases op with
  | get id =>
    simp only [Op.run, hget id rfl]
    exact ⟨trivial, h⟩
  | list kind =>
    simp only [Op.run, listed_of_outside hne kind h]
    exact ⟨trivial, h⟩
  | uncertain id =>
    have hkeep : ∀ e : Row δ,
        (if e.state = .prepared then { e with state := .uncertain } else e).scope = e.scope :=
      fun e => by split <;> rfl
    refine ⟨rfl, ?_⟩
    show outside other (j.uncertain _) = outside other (j'.uncertain _)
    rw [Journal.uncertain, Journal.uncertain, modify_outside _ hkeep, modify_outside _ hkeep, h]
  | prepare kind id route request =>
    rw [Op.run, Op.run]
    split
    · exact ⟨rfl, h⟩
    · cases hsame : j'.get (fullId scope id) with
      | some old =>
        rw [prepare_of_some hsame, prepare_of_some ((hget id rfl).trans hsame)]
        by_cases hconflict : old.scope ≠ scope ∨ old.kind ≠ kind ∨ old.route ≠ route ∨
            old.request ≠ request
        · rw [if_pos hconflict, if_pos hconflict]
          exact ⟨rfl, h⟩
        · rw [if_neg hconflict, if_neg hconflict]
          exact ⟨rfl, h⟩
      | none =>
        rw [prepare_of_none hsame, prepare_of_none ((hget id rfl).trans hsame)]
        refine ⟨rfl, ?_⟩
        show (j.entries ++ [_]).filter _ = (j'.entries ++ [_]).filter _
        rw [filter_append, filter_append]
        exact congrArg (· ++ _) h
  | complete id response =>
    rw [Op.run, Op.run]
    split
    · exact ⟨rfl, h⟩
    · rw [Journal.complete, Journal.complete, hget id rfl]
      cases j'.get (fullId scope id) with
      | none => exact ⟨rfl, h⟩
      | some old =>
        dsimp only
        by_cases hconflict : old.state = .done ∧ old.response ≠ some response
        · rw [if_pos hconflict, if_pos hconflict]
          exact ⟨rfl, h⟩
        · rw [if_neg hconflict, if_neg hconflict]
          have hkeep : ∀ e : Row δ,
              { e with state := .done, response := some response }.scope = e.scope :=
            fun _ => rfl
          refine ⟨rfl, ?_⟩
          rw [modify_outside _ hkeep, modify_outside _ hkeep, h]

/-! ## Integrity -/

/-- What holds of a journal after some calls, and of it and the journal after some more. -/
structure Integrity (found : Found δ) (calls : List (Call δ)) : Prop where
  /-- Every row stays at its place: kind, route and request are kept, the state only moves
  forward, a done row keeps its response, and the names change at most once, from the empty
  scope into another. -/
  rows : ∀ more, Grown Row.Later (run found.journal calls).entries
    (run found.journal (calls ++ more)).entries
  /-- The id of a row is that row's, with its scope, kind, route and request: for good when the
  row has a scope, and until legacy entries are preserved when it has none. -/
  identity : ∀ more, ∀ e ∈ (run found.journal calls).entries,
    ∀ e' ∈ (run found.journal (calls ++ more)).entries, e'.id = e.id →
      (e.scope ≠ "" ∨ ∀ call ∈ more, call.preserves = none) → e.Forward e'
  /-- Preserving the legacy entries renames them, every one, or changes nothing. -/
  preserved : ∀ scope, scope ≠ "" →
    let j := run found.journal calls
    (preserve j (some scope)).2 = j ∨
      (preserve j (some scope)).2.entries = j.entries.map (renamed scope)
  /-- An operation changes no row of another scope in which its full id is free. -/
  frame : ∀ scope other secret, ∀ op : Op δ, scope ≠ other →
    let j := run found.journal calls
    (∀ id, op.id = some id → Free other (fullId scope id) j) →
      within other (op.run scope secret j).2 = within other j
  /-- Nor does it read one: its result and its effect are the same on every journal with the
  same rows outside of that scope. -/
  blind : ∀ scope other secret, ∀ op : Op δ, scope ≠ other → ∀ j' : Log δ,
    let j := run found.journal calls
    (∀ id, op.id = some id → Free other (fullId scope id) j ∧ Free other (fullId scope id) j') →
      outside other j = outside other j' →
        (op.run scope secret j).1 = (op.run scope secret j').1 ∧
          outside other (op.run scope secret j).2 = outside other (op.run scope secret j').2
  /-- A full id that is none of a scope's ids is free in it. -/
  free : ∀ scope id, (∀ x, fullId scope x ≠ id) → Free scope id (run found.journal calls)
  /-- So it is between two scopes that have names without a slash. -/
  named : ∀ scope other id, Named scope → Named other → scope ≠ other →
    Free other (fullId scope id) (run found.journal calls)

/-- **The journal keeps what it is given.**  For every list of operations in any scopes, of
preservations of the legacy scope and of reopenings. -/
theorem journal_integrity (found : Found δ) (calls : List (Call δ)) : Integrity found calls := by
  have hplaced : Placed (run found.journal calls) := run_placed found.placed calls
  refine ⟨?_, ?_, ?_, ?_, ?_, ?_, ?_⟩
  · intro more
    rw [run_append]
    exact (run_grown _ more).1
  · intro more e he e' he' hid hnames
    rw [run_append] at he'
    obtain ⟨hlater, hforward⟩ := run_grown (run found.journal calls) more
    rcases hnames with hscope | hnone
    · refine (hlater.same_id he he' hid fun a ha => ?_).forward hid
      rcases ha.names with ⟨-, hsame⟩ | ⟨hempty, -⟩
      · exact hsame
      · exact absurd hempty hscope
    · exact (hforward hnone).same_id he he' hid fun a ha => ha.1
  · intro scope hscope j
    rw [preserve]
    split
    · next j' hj' => exact .inr (preserve_entries hscope hj')
    · exact .inl rfl
  · intro scope other secret op hne j hfree
    exact op.run_within hne secret hfree
  · intro scope other secret op hne j' j hfree h
    exact op.run_outside hne secret (fun id hid => (hfree id hid).1) (fun id hid => (hfree id hid).2) h
  · intro scope id hid
    exact hplaced.free hid
  · intro scope other id hscope hother hne
    exact hplaced.free fun x => fullId_ne hscope hother hne

/-! ## Where an id or a scope is not enough -/

/-- The claim that an id keeps its meaning through every call. -/
def IdForever (calls : List (Call δ)) : Prop :=
  ∀ more, ∀ e ∈ (run found.journal calls).entries,
    ∀ e' ∈ (run found.journal (calls ++ more)).entries, e'.id = e.id → e.Forward e'

/-- The claim that no operation changes an entry of another scope. -/
def OwnScope (calls : List (Call δ)) : Prop :=
  ∀ scope other secret, ∀ op : Op δ, scope ≠ other →
    within other (op.run scope secret (run found.journal calls)).2 =
      within other (run found.journal calls)

/-- The id of a legacy entry is free again once the entry has a scope, and the empty scope
reaches the ids of every other. -/
theorem not_absolute : (¬ ∀ calls : List (Call ℕ), IdForever .new calls) ∧
    ¬ ∀ calls : List (Call ℕ), OwnScope .new calls := by
  constructor
  · intro h
    let first : Call ℕ := .partition "" false (.prepare "event" "x" "/runner/events" 1)
    let again : Call ℕ := .partition "" false (.prepare "claim" "x" "/runner/claim" 2)
    have hforward := h [first] [.preserveLegacyScope "runner:1", again]
      ⟨"x", "", "event", "/runner/events", 1, .prepared, none⟩ (by decide)
      ⟨"x", "", "claim", "/runner/claim", 2, .prepared, none⟩ (by decide) rfl
    exact absurd hforward.2.2.1 (by decide)
  · intro h
    let own : Call ℕ := .partition "runner:1" false (.prepare "event" "x" "/runner/events" 1)
    have hsame := h [own] "" "runner:1" false (.complete "runner:1/x" 7) (by decide)
    exact absurd hsame (by decide)

end GrowTeam.Partition
