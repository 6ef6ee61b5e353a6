/-
# The runner's durable journal (`services/grow-agent-runner/src/journal.ts`)

One SQLite table of entries: what the runner is about to do (`prepared`), may have done
(`uncertain`) and has a receipt for (`done`).  The table survives a crash of the process;
each operation below is one committed statement.

The ids `κ` and the stored JSON values `δ` are parameters.  Two requests are the same when
their canonical JSON is the same, which is equality of `δ`.  The `PRIMARY KEY` of the table
is the field `nodup`, so a journal with two entries of one id cannot be built.

`Extends` is what every operation does to the entries already there: an id keeps its
scope, kind, route and request, its state only moves forward, and the response of a done
entry stays.
-/
import Mathlib.Data.List.Nodup
import Mathlib.Order.Basic

namespace GrowTeam

open List

/-- The `state` column. -/
inductive EntryState where
  | prepared
  | uncertain
  | done
  deriving DecidableEq

/-- How far an entry has come. -/
def EntryState.rank : EntryState → ℕ
  | .prepared => 0
  | .uncertain => 1
  | .done => 2

/-- One row of the table `entries`. -/
structure Entry (κ δ : Type) where
  id : κ
  scope : String
  kind : String
  route : String
  request : δ
  state : EntryState
  response : Option δ
  deriving DecidableEq

namespace Entry

variable {κ δ : Type} {e e' e'' : Entry κ δ}

/-- The later form of an entry: same identity, a state at least as far, and the receipt
of a done entry kept. -/
def Forward (e e' : Entry κ δ) : Prop :=
  e'.id = e.id ∧ e'.scope = e.scope ∧ e'.kind = e.kind ∧ e'.route = e.route ∧
    e'.request = e.request ∧ e.state.rank ≤ e'.state.rank ∧
    (e.state = .done → e'.response = e.response)

theorem Forward.refl (e : Entry κ δ) : e.Forward e :=
  ⟨rfl, rfl, rfl, rfl, rfl, Nat.le_refl _, fun _ => rfl⟩

/-- A done entry does not change. -/
theorem Forward.done (h : e.Forward e') (hd : e.state = .done) : e' = e := by
  obtain ⟨hid, hscope, hkind, hroute, hreq, hrank, hresp⟩ := h
  have hstate : e'.state = e.state := by
    rw [hd] at hrank ⊢
    cases hs : e'.state <;> simp [hs, EntryState.rank] at hrank ⊢
  cases e; cases e'
  simp_all

theorem Forward.trans (h : e.Forward e') (h' : e'.Forward e'') : e.Forward e'' := by
  by_cases hd : e.state = .done
  · rwa [h.done hd] at h'
  · obtain ⟨hid, hscope, hkind, hroute, hreq, hrank, -⟩ := h
    obtain ⟨hid', hscope', hkind', hroute', hreq', hrank', -⟩ := h'
    exact ⟨hid'.trans hid, hscope'.trans hscope, hkind'.trans hkind, hroute'.trans hroute,
      hreq'.trans hreq, Nat.le_trans hrank hrank', fun h => absurd h hd⟩

end Entry

/-- The rows in `rowid` order, with the primary key of the table. -/
structure Journal (κ δ : Type) where
  entries : List (Entry κ δ)
  nodup : (entries.map Entry.id).Nodup

/-- The errors `Journal` throws. -/
inductive JournalError where
  | identityConflict
  | unknownIdentity
  | receiptConflict
  deriving DecidableEq

namespace Journal

variable {κ δ : Type} [DecidableEq κ]

/-- A new state directory. -/
def empty : Journal κ δ := ⟨[], nodup_nil⟩

/-- `get(id)`. -/
def get (j : Journal κ δ) (id : κ) : Option (Entry κ δ) :=
  j.entries.find? fun e => decide (e.id = id)

/-- `list(kind)`: the entries of one kind, oldest first. -/
def list (j : Journal κ δ) (kind : String) : List (Entry κ δ) :=
  j.entries.filter fun e => decide (e.kind = kind)

variable {id : κ} {e : Entry κ δ} {j j' : Journal κ δ} {kind route scope : String} {request : δ}

variable {j : Journal κ δ}

theorem get_eq_none : j.get id = none ↔ ∀ e ∈ j.entries, e.id ≠ id := by
  simp [get, find?_eq_none]

/-- The entry `get` returns is the one entry of that id. -/
theorem get_eq_some : j.get id = some e ↔ e ∈ j.entries ∧ e.id = id := by
  constructor
  · intro h
    exact ⟨mem_of_find?_eq_some h, by simpa using find?_some h⟩
  · rintro ⟨hmem, rfl⟩
    cases h : j.get e.id with
    | none => exact absurd rfl (get_eq_none.mp h e hmem)
    | some e' =>
      have hmem' : e' ∈ j.entries := mem_of_find?_eq_some h
      have hid : e'.id = e.id := by simpa using find?_some h
      rw [inj_on_of_nodup_map j.nodup hmem' hmem hid]

theorem get_id (h : j.get id = some e) : e.id = id := (get_eq_some.mp h).2

theorem mem_list {kind : String} :
    e ∈ j.list kind ↔ j.get e.id = some e ∧ e.kind = kind := by
  simp [list, get_eq_some]

/-! ## Rows, and journals that only grow -/

/-- `UPDATE entries ... WHERE id=?`: the columns of one row change, its id does not. -/
def modify (j : Journal κ δ) (id : κ) (f : Entry κ δ → Entry κ δ)
    (hf : ∀ e, (f e).id = e.id) : Journal κ δ where
  entries := j.entries.map fun e => if e.id = id then f e else e
  nodup := by
    rw [map_map]
    have hid : Entry.id ∘ (fun e => if e.id = id then f e else e) = Entry.id := by
      funext e
      rw [Function.comp]
      split
      · exact hf e
      · rfl
    rw [hid]
    exact j.nodup

/-- `INSERT INTO entries`, refused by the primary key when the id is taken. -/
def insert (j : Journal κ δ) (e : Entry κ δ) (h : j.get e.id = none) : Journal κ δ where
  entries := j.entries ++ [e]
  nodup := by
    rw [map_append, map_singleton, ← concat_eq_append]
    refine j.nodup.concat ?_
    intro hmem
    obtain ⟨e', he', hid⟩ := mem_map.mp hmem
    exact get_eq_none.mp h e' he' hid

theorem get_modify (j : Journal κ δ) (id id' : κ) (f : Entry κ δ → Entry κ δ)
    (hf : ∀ e, (f e).id = e.id) :
    (j.modify id f hf).get id' = (j.get id').map fun e => if id' = id then f e else e := by
  cases h : j.get id' with
  | none =>
    rw [Option.map_none, get_eq_none]
    intro e he
    obtain ⟨e', he', rfl⟩ := mem_map.mp he
    have hne := get_eq_none.mp h e' he'
    split
    · rwa [hf e']
    · exact hne
  | some e =>
    obtain ⟨hmem, rfl⟩ := get_eq_some.mp h
    rw [Option.map_some, get_eq_some]
    refine ⟨mem_map.mpr ⟨e, hmem, rfl⟩, ?_⟩
    split
    · exact hf e
    · rfl

theorem get_insert (j : Journal κ δ) (e : Entry κ δ) (h : j.get e.id = none) (id : κ) :
    (j.insert e h).get id = if id = e.id then some e else j.get id := by
  split
  · next hid =>
    exact get_eq_some.mpr ⟨mem_append_right _ (mem_singleton_self e), hid.symm⟩
  · next hid =>
    have hne : decide (e.id = id) = false := by simpa using Ne.symm hid
    simp [get, insert, find?_append, hne]

/-- `uncertain(id)`: only a prepared entry moves. -/
def uncertain (j : Journal κ δ) (id : κ) : Journal κ δ :=
  j.modify id (fun e => if e.state = .prepared then { e with state := .uncertain } else e)
    fun e => by split <;> rfl

theorem get_uncertain (j : Journal κ δ) (id id' : κ) :
    (j.uncertain id).get id' = (j.get id').map fun e =>
      if id' = id ∧ e.state = .prepared then { e with state := .uncertain } else e := by
  rw [uncertain, get_modify]
  congr 1
  funext e
  by_cases hid : id' = id <;> by_cases hst : e.state = .prepared <;> simp [hid, hst]

/-- Every entry of `j` is still in `j'`, in a later form. -/
def Extends (j j' : Journal κ δ) : Prop :=
  ∀ id e, j.get id = some e → ∃ e', j'.get id = some e' ∧ e.Forward e'

theorem Extends.refl (j : Journal κ δ) : Extends j j := fun _ e h => ⟨e, h, .refl e⟩

theorem Extends.trans {j' j'' : Journal κ δ} (h : Extends j j') (h' : Extends j' j'') :
    Extends j j'' := by
  intro id e he
  obtain ⟨e', he', hf⟩ := h id e he
  obtain ⟨e'', he'', hf'⟩ := h' id e' he'
  exact ⟨e'', he'', hf.trans hf'⟩

/-- A done entry is the same in every later journal. -/
theorem Extends.done (h : Extends j j')
    (he : j.get id = some e) (hd : e.state = .done) : j'.get id = some e := by
  obtain ⟨e', he', hf⟩ := h id e he
  rwa [hf.done hd] at he'

theorem uncertain_extends (j : Journal κ δ) (id : κ) : Extends j (j.uncertain id) := by
  intro id' e he
  refine ⟨_, by rw [get_uncertain, he]; rfl, ?_⟩
  dsimp only
  split
  · next h => exact ⟨rfl, rfl, rfl, rfl, rfl, by simp [h.2, EntryState.rank], by simp [h.2]⟩
  · exact .refl e

/-! ## `prepare` and `complete` -/

variable [DecidableEq δ]

/-- The row `prepare` inserts. -/
def newEntry (kind : String) (id : κ) (route : String) (request : δ) (scope : String) :
    Entry κ δ :=
  { id, scope, kind, route, request, state := .prepared, response := none }

/-- `prepare(kind, id, route, request, scope)`: the entry already there when it is the same
request, a new prepared one when the id is free. -/
def prepare (j : Journal κ δ) (kind : String) (id : κ) (route : String) (request : δ)
    (scope : String) : Except JournalError (Entry κ δ × Journal κ δ) :=
  match h : j.get id with
  | some old =>
    if old.scope ≠ scope ∨ old.kind ≠ kind ∨ old.route ≠ route ∨ old.request ≠ request then
      .error .identityConflict
    else .ok (old, j)
  | none =>
    let e := newEntry kind id route request scope
    .ok (e, j.insert e h)

/-- `complete(id, response)`: a done entry keeps its receipt. -/
def complete (j : Journal κ δ) (id : κ) (response : δ) : Except JournalError (Journal κ δ) :=
  match j.get id with
  | none => .error .unknownIdentity
  | some old =>
    if old.state = .done ∧ old.response ≠ some response then .error .receiptConflict
    else .ok (j.modify id (fun e => { e with state := .done, response := some response })
      fun _ => rfl)

/-- **What `prepare` returns**: the old entry of this very request and the same journal, or
a new prepared entry under a free id. -/
theorem prepare_ok (h : j.prepare kind id route request scope = .ok (e, j')) :
    (j.get id = some e ∧ j' = j ∧ e.scope = scope ∧ e.kind = kind ∧ e.route = route ∧
        e.request = request) ∨
      (j.get id = none ∧ e = newEntry kind id route request scope ∧
        ∀ id', j'.get id' = if id' = id then some e else j.get id') := by
  unfold prepare at h
  split at h
  · next old hold =>
    split at h
    · simp at h
    · next hsame =>
      simp only [not_or, not_not] at hsame
      obtain ⟨rfl, rfl⟩ := h
      exact .inl ⟨hold, rfl, hsame⟩
  · next hnone =>
    obtain ⟨rfl, rfl⟩ := h
    exact .inr ⟨hnone, rfl, fun id' => get_insert j _ hnone id'⟩

/-- `prepare` on an id that is taken. -/
theorem prepare_of_some {old : Entry κ δ} (h : j.get id = some old) :
    j.prepare kind id route request scope =
      if old.scope ≠ scope ∨ old.kind ≠ kind ∨ old.route ≠ route ∨ old.request ≠ request then
        .error .identityConflict
      else .ok (old, j) := by
  unfold prepare
  split
  · next old' hold =>
    rw [h] at hold
    rw [Option.some.inj hold]
  · next hnone => rw [h] at hnone; cases hnone

/-- `prepare` on a free id. -/
theorem prepare_of_none (h : j.get id = none) :
    j.prepare kind id route request scope =
      .ok (newEntry kind id route request scope,
        j.insert (newEntry kind id route request scope) h) := by
  unfold prepare
  split
  · next old hold => rw [h] at hold; cases hold
  · rfl

/-- After a `prepare` that succeeds the id holds the returned entry. -/
theorem get_of_prepare (h : j.prepare kind id route request scope = .ok (e, j')) :
    j'.get id = some e := by
  rcases prepare_ok h with ⟨hget, rfl, -⟩ | ⟨-, -, hget⟩
  · exact hget
  · rw [hget, if_pos rfl]

/-- The returned entry is about the request that was given. -/
theorem prepare_identity (h : j.prepare kind id route request scope = .ok (e, j')) :
    e.id = id ∧ e.scope = scope ∧ e.kind = kind ∧ e.route = route ∧ e.request = request := by
  rcases prepare_ok h with ⟨hget, -, hsame⟩ | ⟨-, rfl, -⟩
  · exact ⟨get_id hget, hsame⟩
  · exact ⟨rfl, rfl, rfl, rfl, rfl⟩

/-- **What `complete` does**: the entry exists, a done one had this very receipt, and only
this entry changes. -/
theorem complete_ok {response : δ} (h : j.complete id response = .ok j') :
    ∃ old, j.get id = some old ∧ (old.state = .done → old.response = some response) ∧
      ∀ id', j'.get id' =
        if id' = id then some { old with state := .done, response := some response }
        else j.get id' := by
  unfold complete at h
  split at h
  · simp at h
  · next old hold =>
    split at h
    · simp at h
    · next hok =>
      refine ⟨old, hold, fun hd => by simpa [hd] using hok, fun id' => ?_⟩
      rw [Except.ok.injEq] at h
      subst h
      rw [get_modify]
      split
      · next hid => rw [hid, hold]; rfl
      · simp

theorem prepare_extends (h : j.prepare kind id route request scope = .ok (e, j')) :
    Extends j j' := by
  rcases prepare_ok h with ⟨-, rfl, -⟩ | ⟨hnone, -, hget⟩
  · exact .refl _
  · intro id' e' he'
    refine ⟨e', ?_, .refl e'⟩
    rw [hget, if_neg, he']
    rintro rfl
    rw [hnone] at he'
    simp at he'

theorem complete_extends {response : δ} (h : j.complete id response = .ok j') : Extends j j' := by
  obtain ⟨old, hold, hkeep, hget⟩ := complete_ok h
  intro id' e he
  by_cases hid : id' = id
  · subst hid
    obtain rfl : old = e := by rw [hold] at he; exact Option.some.inj he
    refine ⟨{ old with state := .done, response := some response }, by rw [hget, if_pos rfl],
      rfl, rfl, rfl, rfl, rfl, ?_, fun hd => (hkeep hd).symm⟩
    cases old.state <;> simp [EntryState.rank]
  · exact ⟨e, by rw [hget, if_neg hid, he], .refl e⟩

end Journal

end GrowTeam

/-! # Scopes of the journal (`services/grow-agent-runner/src/journal.ts`) -/

namespace GrowTeam.Partition

open List

variable {δ : Type}

abbrev Log (δ : Type) := Journal String δ
abbrev Row (δ : Type) := Entry String δ

/-! ## Ids -/

variable (scope : String)

/-- `` scope ? `${scope}/` : "" ``. -/
def scopePrefix : String := if scope = "" then "" else scope ++ "/"

/-- The id under which a partition keeps `id`. -/
def fullId (scope id : String) : String := scopePrefix scope ++ id

/-- `entry.id.slice(prefix.length)`. -/
def normalize (e : Row δ) : Row δ :=
  { e with id := String.ofList (e.id.toList.drop (scopePrefix scope).toList.length) }

/-! ## `preserveLegacyScope` -/

/-- A row of the empty scope gets the scope and an id of it; every other row stays. -/
def renamed (e : Row δ) : Row δ :=
  if e.scope = "" then { e with id := scope ++ "/" ++ e.id, scope } else e

/-- The `UPDATE`, one row after the other in `rowid` order: each new id has to be free in the
table as it is by then. -/
def adopt (scope : String) (done : List (Row δ)) : List (Row δ) → Option (List (Row δ))
  | [] => some done
  | e :: rest =>
    if e.scope = "" ∧ (done ++ rest).any (·.id = scope ++ "/" ++ e.id) then none
    else adopt scope (done ++ [renamed scope e]) rest

variable {done rest rows : List (Row δ)}

theorem adopt_eq_some {scope : String}
    (h : adopt scope done rest = some rows) : rows = done ++ rest.map (renamed scope) := by
  induction rest generalizing done with
  | nil => simpa [adopt] using h.symm
  | cons e rest ih =>
    rw [adopt] at h
    split at h
    · cases h
    · simpa using ih h

theorem adopt_nodup {scope : String}
    (h : adopt scope done rest = some rows) (hids : ((done ++ rest).map Entry.id).Nodup) :
    (rows.map Entry.id).Nodup := by
  induction rest generalizing done with
  | nil =>
    cases h
    simpa using hids
  | cons e rest ih =>
    rw [adopt] at h
    split at h
    · cases h
    · next hfree =>
      refine ih h ?_
      rw [append_assoc, singleton_append]
      rw [map_append, map_cons, nodup_middle] at hids ⊢
      rw [nodup_cons] at hids ⊢
      refine ⟨?_, hids.2⟩
      rw [← map_append] at hids ⊢
      unfold renamed
      split
      · next hscope =>
        intro hmem
        obtain ⟨other, hother, hid⟩ := mem_map.mp hmem
        exact hfree ⟨hscope, any_eq_true.mpr ⟨other, hother, decide_eq_true hid⟩⟩
      · exact hids.1

variable (j : Log δ)

/-- `preserveLegacyScope(scope)`: the transaction is rolled back when a new id is taken. -/
def preserveLegacyScope (scope : String) : Option (Log δ) :=
  if scope = "" then some j
  else match h : adopt scope [] j.entries with
    | some rows => some ⟨rows, adopt_nodup h j.nodup⟩
    | none => none

/-! ## Operations -/

variable [DecidableEq δ]

/-- The methods of a `JournalLog`. -/
inductive Op (δ : Type) where
  | get (id : String)
  | list (kind : Option String)
  | prepare (kind id route : String) (request : δ)
  | uncertain (id : String)
  | complete (id : String) (response : δ)

/-- What a method returns or throws. -/
inductive Result (δ : Type) where
  | entry (entry : Option (Row δ))
  | entries (entries : List (Row δ))
  | done
  /-- `protect` found a credential or a protected secret in the value. -/
  | secret
  | error (error : JournalError)
  /-- The `UNIQUE` constraint of the ids. -/
  | taken

/-- `list(kind)` of the whole journal; an empty kind is no kind. -/
def listed (kind : Option String) (j : Log δ) : List (Row δ) :=
  match kind.filter (· ≠ "") with
  | some kind => j.list kind
  | none => j.entries

/-- A method of `partition(scope)`; `secret` says that `protect` refuses the value. -/
def Op.run (secret : Bool) (j : Log δ) : Op δ → Result δ × Log δ
  | .get id => (.entry ((j.get (fullId scope id)).map (normalize scope)), j)
  | .list kind => (.entries (((listed kind j).filter (·.scope = scope)).map (normalize scope)), j)
  | .prepare kind id route request =>
    if secret then (.secret, j)
    else match j.prepare kind (fullId scope id) route request scope with
      | .ok (e, j') => (.entry (some (normalize scope e)), j')
      | .error e => (.error e, j)
  | .uncertain id => (.done, j.uncertain (fullId scope id))
  | .complete id response =>
    if secret then (.secret, j)
    else match j.complete (fullId scope id) response with
      | .ok j' => (.done, j')
      | .error e => (.error e, j)

/-- What is done to a state directory. -/
inductive Call (δ : Type) where
  | partition (scope : String) (secret : Bool) (op : Op δ)
  | list (kind : Option String)
  | preserveLegacyScope (scope : String)
  /-- `new Journal(root)`, with the `runner_id` of `connection.json`. -/
  | reopen (runnerId : Option String)

/-- The scope that a call preserves the legacy entries under. -/
def Call.preserves : Call δ → Option String
  | .preserveLegacyScope scope => some scope
  | .reopen runnerId => (runnerId.filter (· ≠ "")).map ("runner:" ++ ·)
  | _ => none

/-- What becomes of the legacy entries, when there is a scope for them. -/
def preserve : Option String → Result δ × Log δ
  | none => (.done, j)
  | some scope => match preserveLegacyScope j scope with
    | some j' => (.done, j')
    | none => (.taken, j)

/-- One call. -/
def Call.run (call : Call δ) : Result δ × Log δ :=
  match call with
  | .partition scope secret op => op.run scope secret j
  | .list kind => (.entries (listed kind j), j)
  | call => preserve j call.preserves

/-- The journal after a list of calls. -/
def run (calls : List (Call δ)) : Log δ := calls.foldl (fun j call => (call.run j).2) j

/-- A database as it is found: an empty one, or one from before the `scope` column. -/
structure Found (δ : Type) where
  journal : Log δ
  unscoped : ∀ e ∈ journal.entries, e.scope = ""

/-- A new database. -/
def Found.new : Found δ := ⟨.empty, fun e he => by cases he⟩

end GrowTeam.Partition
