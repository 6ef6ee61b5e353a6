/-
# What the journal refuses to store (`services/grow-agent-runner/src/journal.ts`)

Every value that enters the journal passes `protect` first.  A value is a JSON value, a secret a
sequence of UTF-16 code units, and what is stored is the canonical text of the value, in UTF-8.

`partition(scope)` calls the same methods with `scope/` in front of the id, so its writes are
among these.
-/
import GrowTeam.Codes
import GrowTeam.History
import GrowTeam.Protocol.SameBytes
import GrowTeam.Runtime.InputQueue
import Mathlib.Data.List.Infix

namespace GrowTeam.Secrets

open GrowTeam.Canonical JsonText Utf16 History List Journal
open GrowTeam.Runtime (journalError)

/-! ## `noSecrets` -/

/-- The names of keys under which a credential would be stored. -/
def credentialKeys : List String :=
  ["token", "refresh_token", "polling_secret", "authorization", "credential", "api_key", "secret"]

/-- Case folding of a regular expression with the flag `i`. -/
def fold (n : ℕ) : ℕ := if 65 ≤ n ∧ n ≤ 90 then n + 32 else n

/-- `/^(token|...|secret)$/i.test(k)`. -/
def isCredentialKey (k : List CodeUnit) : Bool :=
  credentialKeys.any fun name => k.map (fun u => fold u.val) = JsonText.text name

mutual

/-- `noSecrets(value)`. -/
def noSecrets : Json → Except String Unit
  | .array items => noSecretsItems items
  | .object members => noSecretsMembers members
  | _ => .ok ()

def noSecretsItems : List Json → Except String Unit
  | [] => .ok ()
  | v :: rest => do
    noSecrets v
    noSecretsItems rest

def noSecretsMembers : List (List CodeUnit × Json) → Except String Unit
  | [] => .ok ()
  | (k, v) :: rest =>
    if isCredentialKey k then .error "Credentials cannot enter the journal"
    else do
      noSecrets v
      noSecretsMembers rest

end

/-! ## `protect` -/

/-- `text.includes(s)`. -/
def includes (text s : List CodeUnit) : Bool := text.tails.any fun rest => s.isPrefixOf rest

theorem includes_iff {text s : List CodeUnit} : includes text s = true ↔ s <:+: text := by
  simp only [includes, any_eq_true, mem_tails, isPrefixOf_iff_prefix]
  constructor
  · rintro ⟨rest, hsuffix, hprefix⟩
    exact infix_iff_prefix_suffix.mpr ⟨rest, hprefix, hsuffix⟩
  · intro h
    obtain ⟨rest, hprefix, hsuffix⟩ := infix_iff_prefix_suffix.mp h
    exact ⟨rest, hsuffix, hprefix⟩

variable (secret : List CodeUnit)

/-- `JSON.stringify(secret).slice(1, -1)`. -/
def escaped : Text := ((stringify secret).drop 1).dropLast

theorem escaped_eq : escaped secret = (decode secret).flatMap escape := by
  simp [escaped, stringify, quote]

/-- The text holds the secret, as it is or as JSON escapes it. -/
def holds (text : Text) (secret : List CodeUnit) : Bool :=
  includes (text.flatMap units) secret ||
    includes (text.flatMap units) ((escaped secret).flatMap units)

/-- `protect(value)`. -/
def protect (secrets : List (List CodeUnit)) (value : Json) : Except String Unit := do
  noSecrets value
  let text ← canonical value
  if secrets.any (holds text) then .error "Secret material cannot enter the journal" else .ok ()

/-! ## The journal -/

/-- The object: its `secrets`, and the table. -/
structure State where
  secrets : List (List CodeUnit)
  log : Journal String Text

/-- `protectSecret(secret)`. -/
def protectSecret (s : State) : Except String Unit × State :=
  if secret = [] then (.error "Secret is empty", s)
  else (.ok (), { s with secrets := if s.secrets.contains secret then s.secrets
      else s.secrets ++ [secret] })

/-- `prepare(kind, id, route, request, scope)`; the `INSERT` may fail. -/
def prepare (kind id route : String) (request : Json) (scope : String)
    (failure : Option String) (s : State) : Except String Unit × State :=
  match protect s.secrets request, canonical request with
  | .error e, _ => (.error e, s)
  | .ok (), .error e => (.error e, s)
  | .ok (), .ok serialized =>
    match s.log.prepare kind id route serialized scope, failure with
    | .error e, _ => (.error (journalError e), s)
    | .ok _, some failure => (.error failure, s)
    | .ok (_, log), none => (.ok (), { s with log })

/-- `uncertain(id)`. -/
def uncertain (id : String) (failure : Option String) (s : State) :
    Except String Unit × State :=
  match failure with
  | some failure => (.error failure, s)
  | none => (.ok (), { s with log := s.log.uncertain id })

/-- `complete(id, response)`; the `UPDATE` may fail. -/
def complete (id : String) (response : Json) (failure : Option String) (s : State) :
    Except String Unit × State :=
  match protect s.secrets response, canonical response with
  | .error e, _ => (.error e, s)
  | .ok (), .error e => (.error e, s)
  | .ok (), .ok serialized =>
    match s.log.complete id serialized, failure with
    | .error e, _ => (.error (journalError e), s)
    | .ok _, some failure => (.error failure, s)
    | .ok log, none => (.ok (), { s with log })

/-- `SET id=? || '/' || id, scope=? WHERE scope=''`, on one row. -/
def rescope (scope : String) (e : Entry String Text) : Entry String Text :=
  if e.scope = "" then { e with id := scope ++ "/" ++ e.id, scope } else e

/-- `preserveLegacyScope(scope)`: a transaction, rolled back when an id is taken. -/
def preserveLegacyScope (scope : String) (failure : Option String) (s : State) :
    Except String Unit × State :=
  if scope = "" then (.ok (), s)
  else if h : ((s.log.entries.map (rescope scope)).map Entry.id).Nodup then
    match failure with
    | some failure => (.error failure, s)
    | none => (.ok (), { s with log := ⟨s.log.entries.map (rescope scope), h⟩ })
  else (.error "UNIQUE constraint failed: entries.id", s)

/-- A call of the journal. -/
inductive Move where
  | protectSecret (secret : List CodeUnit)
  | prepare (kind id route : String) (request : Json) (scope : String) (failure : Option String)
  | uncertain (id : String) (failure : Option String)
  | complete (id : String) (response : Json) (failure : Option String)
  | preserveLegacyScope (scope : String) (failure : Option String)

/-- The step of a call. -/
def step : Move → State → Except String Unit × State
  | .protectSecret secret => protectSecret secret
  | .prepare kind id route request scope failure => prepare kind id route request scope failure
  | .uncertain id failure => uncertain id failure
  | .complete id response failure => complete id response failure
  | .preserveLegacyScope scope failure => preserveLegacyScope scope failure

/-- The value that a call gives to the journal. -/
def Move.value : Move → Option Json
  | .prepare _ _ _ request _ _ => some request
  | .complete _ response _ => some response
  | _ => none

/-- The column `request` or `response` of a row. -/
def Stored (log : Journal String Text) (t : Text) : Prop :=
  ∃ e ∈ log.entries, t = e.request ∨ some t = e.response

/-! ## What a text without the secret hides -/

/-- **A text hides a secret** when it contains it neither raw nor escaped; then its bytes do not
contain the secret's, and no string or key of the value contains it. -/
structure Hides (secret : List CodeUnit) (value : Json) (t : Text) : Prop where
  raw : ¬ secret <:+: t.flatMap units
  escaped : ¬ (escaped secret).flatMap units <:+: t.flatMap units
  bytes : Paired secret → ¬ (utf8 (decode secret)).data.toList <:+: (utf8 t).data.toList
  strings : Paired secret → ∀ s, Part.string s ∈ value.parts → ¬ secret <:+: s

variable {t : Text} {v : Json} {log log' : Journal String Text}

/-- A value that is written has no number that is refused. -/
theorem canonical_eq (h : canonical v = .ok t) : t = write (runnerDoc v) := by
  have hrejects : ∀ p ∈ v.parts, ¬ p.rejected = true := by
    intro p hp hrejected
    obtain ⟨e, he⟩ := canonical_rejects hp hrejected
    rw [h] at he
    cases he
  have hsafe : v.Safe := by
    intro n hn
    have hnot := hrejects _ hn
    rw [Part.rejected, decide_eq_true_eq] at hnot
    omega
  have hrefused : ¬ v.Refused := by
    rintro ⟨x, hx, hnone⟩
    exact hrejects _ hx (by rw [Part.rejected, hnone]; rfl)
  rw [canonical_ok hsafe hrefused] at h
  exact (Except.ok.inj h).symm

/-- An item is in the text of the items. -/
theorem infix_commas {ts : List Text} (ht : t ∈ ts) : t <:+: commas ts := by
  induction ts with
  | nil => cases ht
  | cons u ts ih =>
    cases ts with
    | nil =>
      obtain rfl := mem_singleton.mp ht
      exact infix_refl _
    | cons w ts =>
      rcases mem_cons.mp ht with rfl | ht
      · exact (prefix_append _ _).isInfix
      · exact (ih ht).trans ((suffix_cons 44 _).trans (suffix_append _ _)).isInfix

/-- An item is in the text between two brackets. -/
theorem infix_bracketed {a b : ℕ} {ts : List Text} (ht : t ∈ ts) : t <:+: a :: commas ts ++ [b] :=
  (infix_commas ht).trans (infix_append [a] (commas ts) [b])

/-- **Every string and key of a value is in its text**, between quotation marks. -/
theorem infix_of_quote {s : List CodeUnit} (hs : Part.string s ∈ v.parts) :
    quote (decode s) <:+: write (runnerDoc v) := by
  unfold runnerDoc
  induction v using Json.parts_induction with
  | null | bool b => cases hs
  | integer n | float x => cases mem_singleton.mp hs
  | string s' =>
    cases mem_singleton.mp hs
    exact infix_refl _
  | array items ih =>
    obtain ⟨v, hv, hs⟩ := mem_parts_array.mp hs
    rw [doc, write, writeItems_eq, itemDocs_eq, map_map]
    exact (ih v hv hs).trans (infix_bracketed (mem_map.mpr ⟨v, hv, rfl⟩))
  | object members ih =>
    rw [doc, write, writeMembers_eq, memberDocs_eq]
    obtain hs | ⟨m, hm, hs⟩ := mem_parts_object.mp hs
    · cases hs
    -- The member is written as its key, a colon and its value.
    have hmember : writeMember (decode m.1, doc unitsLe runnerNumber m.2) <:+:
        123 :: commas (((sorted unitsLe (members.map fun m =>
          (m.1, doc unitsLe runnerNumber m.2))).map fun m => (decode m.1, m.2)).map
            writeMember) ++ [125] := by
      apply infix_bracketed
      refine mem_map.mpr ⟨(decode m.1, doc unitsLe runnerNumber m.2), ?_, rfl⟩
      refine mem_map.mpr ⟨(m.1, doc unitsLe runnerNumber m.2), mem_sorted.mpr ?_, rfl⟩
      exact mem_map.mpr ⟨m, hm, rfl⟩
    refine List.IsInfix.trans ?_ hmember
    obtain hs | hs := hs
    · cases hs
      exact (prefix_append _ _).isInfix
    · exact (ih m hm hs).trans
        ((suffix_cons 58 _).trans (suffix_append _ _)).isInfix

/-- The bytes of a text, character by character. -/
theorem utf8_bytes (t : Text) :
    (utf8 t).data.toList = (t.map Char.ofNat).flatMap String.utf8EncodeChar := by
  show ((t.map Char.ofNat).flatMap String.utf8EncodeChar).toByteArray.data.toList = _
  rw [data_toByteArray]

/-- A text whose bytes occur in those of another one occurs in it. -/
theorem infix_of_utf8 {p q : Text} (hp : ∀ c ∈ p, IsScalar c) (hq : ∀ c ∈ q, IsScalar c)
    (h : (utf8 p).data.toList <:+: (utf8 q).data.toList) : p <:+: q := by
  rw [utf8_bytes, utf8_bytes] at h
  have hchars : p.map Char.ofNat <:+: q.map Char.ofNat :=
    Codes.utf8_synchronizing.infix_of_flatMap (fun _ _ => trivial) (fun _ _ => trivial) h
  have hback : ∀ r : Text, (∀ c ∈ r, IsScalar c) → (r.map Char.ofNat).map Char.toNat = r := by
    intro r hr
    rw [map_map, map_congr_left (g := id), map_id]
    exact fun c hc => toNat_ofNat_of_isScalar (hr c hc)
  rw [← hback p hp, ← hback q hq]
  exact hchars.map Char.toNat

/-- **What a text without the secret hides.** -/
theorem hides_of_not_holds {secret : List CodeUnit}
    (ht : canonical v = .ok t) (h : holds t secret = false) : Hides secret v t := by
  rw [holds, Bool.or_eq_false_iff] at h
  obtain ⟨hraw, hescaped⟩ := h
  have hraw : ¬ secret <:+: t.flatMap units := by
    intro hin
    rw [includes_iff.mpr hin] at hraw
    cases hraw
  have hescaped : ¬ (escaped secret).flatMap units <:+: t.flatMap units := by
    intro hin
    rw [includes_iff.mpr hin] at hescaped
    cases hescaped
  have htext := canonical_eq ht
  refine ⟨hraw, hescaped, ?_, ?_⟩
  · intro hpaired hin
    have hscalar : ∀ c ∈ decode secret, IsScalar c :=
      fun c hc => ⟨decode_lt secret c hc, hpaired c hc⟩
    have hpoints : decode secret <:+: t := by
      apply infix_of_utf8 hscalar _ hin
      rw [htext]
      exact write_isScalar _ _ _
    have hunits := Codes.infix_flatMap units hpoints
    rw [units_decode] at hunits
    exact hraw hunits
  · intro hpaired s hs hin
    have hquote : (decode secret).flatMap escape <:+: quote (decode s) :=
      (Codes.infix_flatMap escape (hpaired.infix_decode hin)).trans
        (infix_append [34] _ [34])
    apply hescaped
    rw [escaped_eq, htext]
    exact Codes.infix_flatMap units (hquote.trans (infix_of_quote hs))

/-- What `protect` lets pass hides every secret. -/
theorem hides_of_protect {secrets : List (List CodeUnit)}
    (h : protect secrets v = .ok ()) (ht : canonical v = .ok t) :
    ∀ secret ∈ secrets, Hides secret v t := by
  intro secret hsecret
  apply hides_of_not_holds ht
  unfold protect at h
  cases hno : noSecrets v with
  | error e =>
    rw [hno] at h
    cases h
  | ok _ =>
    rw [hno, ht] at h
    by_cases hany : secrets.any (holds t) = true
    · simp [bind, Except.bind, hany] at h
    · simp only [any_eq_true, not_exists, not_and] at hany
      exact Bool.eq_false_iff.mpr (hany secret hsecret)

/-! ## What a call stores -/

variable {log : Journal String Text}

theorem stored_iff :
    Stored log t ↔ ∃ id e, log.get id = some e ∧ (t = e.request ∨ some t = e.response) := by
  constructor
  · rintro ⟨e, he, ht⟩
    exact ⟨e.id, e, get_eq_some.mpr ⟨he, rfl⟩, ht⟩
  · rintro ⟨id, e, he, ht⟩
    exact ⟨e, (get_eq_some.mp he).1, ht⟩

variable {id scope : String}

theorem stored_prepare {kind route : String} {serialized : Text} {e : Entry String Text}
    (h : log.prepare kind id route serialized scope = .ok (e, log'))
    (ht : Stored log' t) : Stored log t ∨ t = serialized := by
  rcases prepare_ok h with ⟨-, rfl, -⟩ | ⟨-, rfl, hget⟩
  · exact .inl ht
  · obtain ⟨id', e', he', ht⟩ := stored_iff.mp ht
    rw [hget] at he'
    split at he'
    · cases he'
      rcases ht with ht | ht
      · exact .inr ht
      · cases ht
    · exact .inl (stored_iff.mpr ⟨id', e', he', ht⟩)

theorem stored_complete {serialized : Text}
    (h : log.complete id serialized = .ok log') (ht : Stored log' t) :
    Stored log t ∨ t = serialized := by
  obtain ⟨old, hold, -, hget⟩ := complete_ok h
  obtain ⟨id', e', he', ht⟩ := stored_iff.mp ht
  rw [hget] at he'
  split at he'
  · cases he'
    rcases ht with ht | ht
    · exact .inl (stored_iff.mpr ⟨id, old, hold, .inl ht⟩)
    · exact .inr (Option.some.inj ht)
  · exact .inl (stored_iff.mpr ⟨id', e', he', ht⟩)

theorem stored_uncertain
    (ht : Stored (log.uncertain id) t) : Stored log t := by
  obtain ⟨id', e', he', ht⟩ := stored_iff.mp ht
  rw [get_uncertain] at he'
  obtain ⟨e, he, rfl⟩ := Option.map_eq_some_iff.mp he'
  refine stored_iff.mpr ⟨id', e, he, ?_⟩
  split at ht <;> exact ht

theorem stored_rescope
    (h : log'.entries = log.entries.map (rescope scope)) (ht : Stored log' t) : Stored log t := by
  obtain ⟨e', he', ht⟩ := ht
  rw [h] at he'
  obtain ⟨e, he, rfl⟩ := mem_map.mp he'
  refine ⟨e, he, ?_⟩
  unfold rescope at ht
  split at ht <;> exact ht

/-- **What one call does**: a refused call changes nothing, no secret is given up, and what a
call stores is the text of a value that passed `protect`. -/
theorem step_spec (move : Move) (s : State) :
    ((∃ e, (step move s).1 = .error e) → (step move s).2 = s) ∧
      (∀ secret ∈ s.secrets, secret ∈ (step move s).2.secrets) ∧
      ∀ t, Stored (step move s).2.log t → Stored s.log t ∨
        ∃ v, move.value = some v ∧ canonical v = .ok t ∧ protect s.secrets v = .ok () := by
  have hsame : ∀ r : Except String Unit, ((∃ e, r = .error e) → s = s) ∧
      (∀ secret ∈ s.secrets, secret ∈ s.secrets) ∧ ∀ t, Stored s.log t → Stored s.log t ∨
        ∃ v, move.value = some v ∧ canonical v = .ok t ∧ protect s.secrets v = .ok () :=
    fun _ => ⟨fun _ => rfl, fun _ h => h, fun _ h => .inl h⟩
  cases move with
  | protectSecret secret =>
    dsimp only [step]
    unfold protectSecret
    split
    · exact hsame _
    · refine ⟨?_, ?_, fun _ h => .inl h⟩
      · rintro ⟨e, he⟩
        cases he
      · intro other hother
        split
        · exact hother
        · exact mem_append_left _ hother
  | prepare kind id route request scope failure =>
    dsimp only [step]
    unfold prepare
    split
    · exact hsame _
    · exact hsame _
    · next serialized hprotect hcanonical =>
      split
      · exact hsame _
      · exact hsame _
      · next e log hprepare =>
        refine ⟨?_, fun _ h => h, ?_⟩
        · rintro ⟨e, he⟩
          cases he
        · intro t ht
          rcases stored_prepare hprepare ht with ht | rfl
          · exact .inl ht
          · exact .inr ⟨request, rfl, hcanonical, hprotect⟩
  | uncertain id failure =>
    dsimp only [step]
    unfold uncertain
    split
    · exact hsame _
    · refine ⟨?_, fun _ h => h, fun _ h => .inl (stored_uncertain h)⟩
      rintro ⟨e, he⟩
      cases he
  | complete id response failure =>
    dsimp only [step]
    unfold complete
    split
    · exact hsame _
    · exact hsame _
    · next serialized hprotect hcanonical =>
      split
      · exact hsame _
      · exact hsame _
      · next log hcomplete =>
        refine ⟨?_, fun _ h => h, ?_⟩
        · rintro ⟨e, he⟩
          cases he
        · intro t ht
          rcases stored_complete hcomplete ht with ht | rfl
          · exact .inl ht
          · exact .inr ⟨response, rfl, hcanonical, hprotect⟩
  | preserveLegacyScope scope failure =>
    dsimp only [step]
    unfold preserveLegacyScope
    split
    · exact hsame _
    · split
      · split
        · exact hsame _
        · refine ⟨?_, fun _ h => h, fun _ h => .inl (stored_rescope rfl h)⟩
          rintro ⟨e, he⟩
          cases he
      · exact hsame _

/-! ## Every run -/

/-- The call stored the text of its value, which hides every secret protected by then. -/
def Wrote (e : Event State Move (Except String Unit)) (t : Text) : Prop :=
  ∃ v, e.input.value = some v ∧ canonical v = .ok t ∧ ∀ secret ∈ e.pre.secrets, Hides secret v t

/-- **No protected secret is persisted.**  A refused call stores nothing, and whatever the journal
holds at any point of a run was there at its start or was written by a call of the run whose
value hides all secrets protected at that time, those of the start among them. -/
theorem persisted_hides (s : State) (moves : List Move) :
    ∀ past e later, history step s moves = past ++ e :: later →
      ((∃ error, e.answer = .error error) → e.post = e.pre) ∧
      ∀ t, Stored e.post.log t → Stored s.log t ∨
        ∃ w ∈ past ++ [e], (∀ secret ∈ s.secrets, secret ∈ w.pre.secrets) ∧ Wrote w t := by
  intro past e later hsplit
  have hkeep : ∀ (past : List (Event State Move (Except String Unit))) e,
      step e.input e.pre = (e.answer, e.post) →
      ((∀ secret ∈ s.secrets, secret ∈ e.pre.secrets) ∧ ∀ t, Stored e.pre.log t → Stored s.log t ∨
          ∃ w ∈ past, (∀ secret ∈ s.secrets, secret ∈ w.pre.secrets) ∧ Wrote w t) →
      (∀ secret ∈ s.secrets, secret ∈ e.post.secrets) ∧ ∀ t, Stored e.post.log t →
        Stored s.log t ∨
          ∃ w ∈ past ++ [e], (∀ secret ∈ s.secrets, secret ∈ w.pre.secrets) ∧ Wrote w t := by
    intro past e he hpre
    obtain ⟨hsecrets, hstored⟩ := hpre
    obtain ⟨-, hmore, hnew⟩ := step_spec e.input e.pre
    rw [he] at hmore hnew
    refine ⟨fun secret hsecret => hmore secret (hsecrets secret hsecret), ?_⟩
    intro t ht
    rcases hnew t ht with ht | ⟨v, hv, hcanonical, hprotect⟩
    · rcases hstored t ht with ht | ⟨w, hw, hwrote⟩
      · exact .inl ht
      · exact .inr ⟨w, mem_append_left _ hw, hwrote⟩
    · exact .inr ⟨e, mem_append_right _ (mem_singleton_self e), hsecrets, v, hv,
        hcanonical, hides_of_protect hprotect hcanonical⟩
  have hpre := (history_past step
    (J := fun past t => (∀ secret ∈ s.secrets, secret ∈ t.secrets) ∧ ∀ text, Stored t.log text →
      Stored s.log text ∨
        ∃ w ∈ past, (∀ secret ∈ s.secrets, secret ∈ w.pre.secrets) ∧ Wrote w text) s moves
    ⟨fun _ h => h, fun _ h => .inl h⟩ hkeep).2 past e later hsplit
  have he : step e.input e.pre = (e.answer, e.post) :=
    step_of_mem (show e ∈ history step s moves by rw [hsplit]; simp)
  refine ⟨?_, (hkeep past e he hpre).2⟩
  have hrefused := (step_spec e.input e.pre).1
  rw [he] at hrefused
  exact hrefused

/-! ## Credentials -/

/-- No object in the value has a key under which a credential is stored. -/
def Uncredentialed (v : Json) : Prop :=
  ∀ keys, Part.keys keys ∈ v.parts → ∀ k ∈ keys, isCredentialKey k = false

theorem noSecretsItems_ok {items : List Json} (h : noSecretsItems items = .ok ()) :
    ∀ v ∈ items, noSecrets v = .ok () := by
  induction items with
  | nil => simp
  | cons v rest ih =>
    rw [noSecretsItems, then_ok] at h
    exact forall_mem_cons.mpr ⟨h.1, ih h.2⟩

theorem noSecretsMembers_ok {members : List (List CodeUnit × Json)}
    (h : noSecretsMembers members = .ok ()) :
    ∀ m ∈ members, isCredentialKey m.1 = false ∧ noSecrets m.2 = .ok () := by
  induction members with
  | nil => simp
  | cons m rest ih =>
    rw [noSecretsMembers] at h
    split at h
    · cases h
    · next hkey =>
      rw [then_ok] at h
      exact forall_mem_cons.mpr ⟨⟨eq_false_of_ne_true hkey, h.1⟩, ih h.2⟩

theorem uncredentialed_of_ok : noSecrets v = .ok () → Uncredentialed v := by
  induction v using Json.parts_induction with
  | array items ih =>
    intro h keys hkeys
    obtain ⟨v, hv, hkeys⟩ := mem_parts_array.mp hkeys
    exact ih v hv (noSecretsItems_ok h v hv) keys hkeys
  | object members ih =>
    intro h keys hkeys
    have hmembers := noSecretsMembers_ok h
    obtain hkeys | ⟨m, hm, hkeys | hkeys⟩ := mem_parts_object.mp hkeys
    · cases hkeys
      exact forall_mem_map.mpr fun m hm => (hmembers m hm).1
    · cases hkeys
    · exact ih m hm (hmembers m hm).2 keys hkeys
  | _ => simp [Uncredentialed, Json.parts]

/-- **No credential is persisted.**  What a new journal holds after a run is the text of a
value without one, at any depth. -/
theorem persisted_no_credentials (moves : List Move) :
    {t | Stored (run step ⟨[], .empty⟩ moves).log t} ⊆
      {t | ∃ v, canonical v = .ok t ∧ Uncredentialed v} := by
  refine (history_inv step (J := fun s => ∀ t, Stored s.log t →
    ∃ v, canonical v = .ok t ∧ Uncredentialed v) _ moves ?_ ?_).1
  · rintro t ⟨e, he, -⟩
    cases he
  · intro move s hs t ht
    rcases (step_spec move s).2.2 t ht with ht | ⟨v, -, hcanonical, hprotect⟩
    · exact hs t ht
    · rw [protect, then_ok] at hprotect
      exact ⟨v, hcanonical, uncredentialed_of_ok hprotect.1⟩

/-! ## Two values -/

/-- A new journal. -/
def fresh : State := ⟨[], .empty⟩

/-- The secret `a"b`, which JSON escapes. -/
def quoted : List CodeUnit := [97, 34, 98]

/-- `{"key": [s]}`. -/
def listed (s : List CodeUnit) : Json := .object [([107, 101, 121], .array [.string s])]

/-- The secret is protected, and a value without it is stored. -/
def harmless : List Move :=
  [.protectSecret quoted, .prepare "kind" "id" "route" (listed [97, 34]) "" none]

/-- A value whose string is the beginning of the secret is stored, and hides the secret. -/
theorem persisted_hides_harmless :
    ∃ past e later, history step fresh harmless = past ++ e :: later ∧
      Stored e.post.log (write (runnerDoc (listed [97, 34]))) ∧
      ((∃ error, e.answer = .error error) → e.post = e.pre) ∧
      ∀ t, Stored e.post.log t → Stored fresh.log t ∨
        ∃ w ∈ past ++ [e], (∀ secret ∈ fresh.secrets, secret ∈ w.pre.secrets) ∧ Wrote w t := by
  refine ⟨[_], ⟨_, _, _, _⟩, [], rfl, ?_, persisted_hides fresh harmless [_] ⟨_, _, _, _⟩ [] rfl⟩
  unfold Stored
  decide

/-- A value that has the secret in a string is refused. -/
example : (protect [quoted] (listed (99 :: quoted))).isOk = false := by decide

end GrowTeam.Secrets
