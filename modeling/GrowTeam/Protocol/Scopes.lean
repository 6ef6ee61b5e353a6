import GrowTeam.Limits
import GrowTeam.Protocol.Rules
import Mathlib

/-!
# The scopes of grants

`scope_matches`, `_intersect_scopes` and the intersections of `accessible_profiles`.  A scope
sets limits to the place, the topic and the id of a message; the intersection of two scopes
is the meet of their limits.
-/

namespace GrowTeam.Descriptors

open Utf16 Canonical JsonText Limits List ConversationScope

/-! ## Scopes and messages -/

def ConversationScope.modelValidate (r : ConversationScope) : Except String ConversationScope :=
  validated r.filled.demands r.filled.consistentScope r.filled

/-- A validated scope of kind stream or direct.  A string that is validated has no lone
surrogates. -/
structure Scope where
  data : ConversationScope
  valid : data.modelValidate = .ok data
  placed : data.kind ≠ .selected
  paired : ∀ topic ∈ data.topic, Paired topic

/-- A channel, or the set of users that `get_display_recipient_by_id` lists. -/
inductive Recipient
  | stream (typeId : ℕ)
  | direct (participants : Finset ℕ)

structure Message where
  id : ℕ
  recipient : Recipient
  topicName : Str

def scopeMatches (scopeData : ConversationScope) (message : Message) : Bool :=
  match scopeData.modelValidate with
  | .error _ => false
  | .ok scope =>
    if scope.anchorMessageId.any (· != message.id) then false
    else match scope.kind, message.recipient with
      | .selected, _ => true
      | .stream, .stream typeId =>
        some typeId == scope.streamId && scope.topic.all (message.topicName == ·)
      | .stream, .direct _ => false
      | .direct, .stream _ => false
      | .direct, .direct participants => decide (participants = scope.participants.toFinset)

variable (scope : Option Scope)

/-- `grant.scope is None or scope_matches(grant.scope, message)` -/
def admits (message : Message) : Bool :=
  scope.all fun s => scopeMatches s.data message

/-! ## Intersections -/

/-- `left or right`, of ids -/
def orElse (left right : Option ℕ) : Option ℕ := if left.any (· != 0) then left else right

/-- `left.model_copy(update=…)` -/
def ConversationScope.modelCopy (left right : ConversationScope) : ConversationScope :=
  { left with
    anchorMessageId := orElse left.anchorMessageId right.anchorMessageId
    topic := left.topic.or right.topic }

variable {r : ConversationScope}

theorem modelValidate_ok :
    r.modelValidate = .ok r ↔ (∀ dm ∈ r.demands, serverReading.meets dm = true) ∧
      r.consistentScope = .ok () ∧ r.filled = r := by
  rw [modelValidate, validated_ok]
  constructor
  · rintro ⟨hdemands, hconsistent, hfilled⟩
    rw [hfilled] at hdemands hconsistent
    exact ⟨hdemands, hconsistent, hfilled⟩
  · rintro ⟨hdemands, hconsistent, hfilled⟩
    rw [hfilled]
    exact ⟨hdemands, hconsistent, rfl⟩

variable (s : Scope)

/-- A stream scope names its stream and nobody, a direct one somebody and no stream. -/
theorem Scope.shape : (s.data.kind = .stream ∧ (∃ id, s.data.streamId = some id)) ∨
      (s.data.kind = .direct ∧ s.data.streamId = none) := by
  have hconsistent := (modelValidate_ok.mp s.valid).2.1
  simp only [consistentScope, bind_ok, raiseIf_ok, exists_unit] at hconsistent
  have hplaced := s.placed
  cases hkind : s.data.kind with
  | selected => exact absurd hkind hplaced
  | stream | direct => cases hid : s.data.streamId <;> simp_all

theorem Scope.anchor_ne_zero : s.data.anchorMessageId ≠ some 0 := by
  intro h
  have hmeets := (modelValidate_ok.mp s.valid).1 (positive 0)
    (mem_append_right _ (by simp [held, h]))
  cases hmeets

theorem Scope.orElse_eq (left : Scope) (right : Option ℕ) :
    orElse left.data.anchorMessageId right = left.data.anchorMessageId.or right := by
  have hne := left.anchor_ne_zero
  unfold orElse
  cases h : left.data.anchorMessageId with
  | none => rfl
  | some n =>
    have hn : n ≠ 0 := fun h0 => hne (h0 ▸ h)
    simp [hn]

theorem forall_held_or {α : Type} {demands : α → List Demand} {a b : Option α} {p : Demand → Prop}
    (ha : ∀ dm ∈ held demands a, p dm) (hb : ∀ dm ∈ held demands b, p dm) :
    ∀ dm ∈ held demands (a.or b), p dm := by
  cases a with
  | none => exact hb
  | some x => exact ha

variable (left right : Scope)

/-- The copy is valid: each of its fields is that of one of the two. -/
theorem Scope.modelCopy_valid :
    (left.data.modelCopy right.data).modelValidate = .ok (left.data.modelCopy right.data) := by
  obtain ⟨hleft, hconsistent, hfilled⟩ := modelValidate_ok.mp left.valid
  obtain ⟨hright, -, -⟩ := modelValidate_ok.mp right.valid
  refine modelValidate_ok.mpr ⟨?_, ?_, congrArg (modelCopy · right.data) hfilled⟩
  · simp only [ConversationScope.demands, modelCopy, left.orElse_eq,
      forall_mem_append] at hleft hright ⊢
    obtain ⟨⟨⟨hstream, htopic⟩, husers⟩, hanchor⟩ := hleft
    obtain ⟨⟨⟨-, htopic'⟩, -⟩, hanchor'⟩ := hright
    exact ⟨⟨⟨hstream, forall_held_or htopic htopic'⟩, husers⟩, forall_held_or hanchor hanchor'⟩
  · have hplaced := left.placed
    simp only [consistentScope, bind_ok, raiseIf_ok, exists_unit] at hconsistent ⊢
    refine ⟨hconsistent.1, hconsistent.2.1, ?_⟩
    simp [modelCopy, hplaced]

theorem Scope.modelCopy_paired :
    ∀ topic ∈ (left.data.modelCopy right.data).topic, Paired topic := by
  intro topic h
  obtain h | ⟨_, h⟩ := Option.or_eq_some_iff.mp h
  · exact left.paired topic h
  · exact right.paired topic h

def Scope.modelCopy : Scope where
  data := left.data.modelCopy right.data
  valid := left.modelCopy_valid right
  placed := left.placed
  paired := left.modelCopy_paired right

def differ {α : Type} [DecidableEq α] : Option α → Option α → Bool
  | some x, some y => x != y
  | _, _ => false

def intersectScopes : Option Scope → Option Scope → Bool × Option Scope
  | none, right => (true, right)
  | some left, none => (true, some left)
  | some left, some right =>
    if left.data.kind != right.data.kind ||
        differ left.data.anchorMessageId right.data.anchorMessageId then
      (false, none)
    else if left.data.kind == .stream && (left.data.streamId != right.data.streamId ||
        differ left.data.topic right.data.topic) then
      (false, none)
    else if left.data.kind == .direct &&
        left.data.participants.toFinset ≠ right.data.participants.toFinset then
      (false, none)
    else (true, some (left.modelCopy right))

/-- `canonical_json(serialize_payload(scope)) if scope else b""` -/
def scopeKey : Option Scope → Except String ByteArray
  | none => .ok .empty
  | some s => canonicalJson ⟨s.data.toJson, s.data.tidy.nodup⟩

variable (intersections : List (ByteArray × Option Scope))

/-- `intersections[key] = scope`: a key that is there keeps its place. -/
def enter (key : ByteArray) (scope : Option Scope) : List (ByteArray × Option Scope) :=
  if intersections.any (·.1 = key) then
    intersections.map fun e => if e.1 = key then (key, scope) else e
  else intersections ++ [(key, scope)]

def intersection
    (pair : Option Scope × Option Scope) : Except String (List (ByteArray × Option Scope)) :=
  match intersectScopes pair.1 pair.2 with
  | (true, scope) => do
    let key ← scopeKey scope
    return enter intersections key scope
  | (false, _) => .ok intersections

/-- What is left of the scopes of the profile, with the scopes that each resource allows. -/
def compatibleScopes (scopes : List (Option Scope)) :
    List (List (Option Scope)) → Except String (List (Option Scope))
  | [] => .ok scopes
  | allowed :: resources => do
    let intersections ← (scopes.product allowed).foldlM intersection []
    let scopes := intersections.map Prod.snd
    if scopes.isEmpty then return scopes else compatibleScopes scopes resources

/-! ## The limits of a scope -/

def Scope.place : Recipient :=
  match s.data.streamId with
  | some id => .stream id
  | none => .direct s.data.participants.toFinset

/-- The topic of a direct scope limits nothing. -/
def Scope.topic : Option Str := if s.data.streamId.isSome then s.data.topic else none

/-- The two scopes set no different limits. -/
def Meets (left right : Option Scope) : Prop :=
  Agree (left.map Scope.place) (right.map Scope.place) ∧
    Agree (left.bind Scope.topic) (right.bind Scope.topic) ∧
      Agree (left.bind (·.data.anchorMessageId)) (right.bind (·.data.anchorMessageId))

theorem differ_iff {α : Type} [DecidableEq α] {a b : Option α} : differ a b = false ↔ Agree a b := by
  cases a <;> cases b <;> simp [differ, Agree]

theorem admits_iff {scope : Option Scope} {message : Message} :
    admits scope message = true ↔ Fits (scope.map Scope.place) message.recipient ∧
      Fits (scope.bind Scope.topic) message.topicName ∧
        Fits (scope.bind (·.data.anchorMessageId)) message.id := by
  cases scope with
  | none => simp [admits, Fits]
  | some s =>
    simp only [admits, Option.all_some, scopeMatches, s.valid, Option.map_some, Option.bind_some,
      ← any_ne_iff (x := message.id), fits_some, Scope.place, Scope.topic]
    cases hanchor : s.data.anchorMessageId.any (· != message.id) with
    | true => simp
    | false =>
      obtain ⟨hkind, id, hid⟩ | ⟨hkind, hid⟩ := s.shape
      · cases message.recipient with
        | stream typeId => simp [hkind, hid, eq_comm (a := id), all_eq_iff]
        | direct users => simp [hkind, hid]
      · cases message.recipient with
        | stream typeId => simp [hkind, hid]
        | direct users => simp [hkind, hid, eq_comm (a := users)]

theorem intersectScopes_fst {left right : Option Scope} :
    (intersectScopes left right).1 = true ↔ Meets left right := by
  cases left with
  | none => simp [intersectScopes, Meets, Agree]
  | some l =>
    cases right with
    | none => simp [intersectScopes, Meets, Agree]
    | some r =>
      simp only [Meets, Option.map_some, Option.bind_some, agree_some, ← differ_iff, Scope.place,
        Scope.topic]
      obtain ⟨hkind, id, hid⟩ | ⟨hkind, hid⟩ := l.shape
      · obtain ⟨hkind', id', hid'⟩ | ⟨hkind', hid'⟩ := r.shape
        · simp [intersectScopes, hkind, hkind', hid, hid']
          grind
        · simp [intersectScopes, hkind, hkind', hid, hid']
      · obtain ⟨hkind', id', hid'⟩ | ⟨hkind', hid'⟩ := r.shape
        · simp [intersectScopes, hkind, hkind', hid, hid']
        · simp [intersectScopes, hkind, hkind', hid, hid', show differ (none : Option Str) none = false from rfl]
          grind

theorem intersectScopes_snd {left right : Option Scope} (h : (intersectScopes left right).1 = true) :
    (intersectScopes left right).2 = Option.merge Scope.modelCopy left right := by
  cases left with
  | none => cases right <;> rfl
  | some l =>
    cases right with
    | none => rfl
    | some r =>
      rw [intersectScopes] at h ⊢
      split_ifs at h ⊢
      rfl

/-! ## The intersection is the meet -/

section

variable {left right other : Option Scope}

theorem place_merge : (Option.merge Scope.modelCopy left right).map Scope.place =
    (left.map Scope.place).or (right.map Scope.place) := by
  cases left <;> cases right <;> rfl

theorem anchor_merge :
    (Option.merge Scope.modelCopy left right).bind (·.data.anchorMessageId) =
      (left.bind (·.data.anchorMessageId)).or (right.bind (·.data.anchorMessageId)) := by
  cases left with
  | none => cases right <;> simp
  | some l =>
    cases right with
    | none => simp
    | some r => exact l.orElse_eq _

theorem topic_merge (h : Agree (left.map Scope.place) (right.map Scope.place)) :
    (Option.merge Scope.modelCopy left right).bind Scope.topic =
      (left.bind Scope.topic).or (right.bind Scope.topic) := by
  cases left with
  | none => cases right <;> simp
  | some l =>
    cases right with
    | none => simp
    | some r =>
      have hplace : l.place = r.place := agree_some.mp h
      simp only [Option.merge_some_some, Option.bind_some, Scope.topic, Scope.modelCopy,
        modelCopy]
      unfold Scope.place at hplace
      cases hl : l.data.streamId <;> cases hr : r.data.streamId <;> simp_all

/-- **A message matches both scopes** exactly when these are compatible and it matches their
intersection. -/
theorem admits_both {message : Message} :
    admits left message = true ∧ admits right message = true ↔
      (intersectScopes left right).1 = true ∧
        admits (intersectScopes left right).2 message = true := by
  rw [admits_iff, admits_iff]
  constructor
  · rintro ⟨⟨hplace, htopic, hanchor⟩, hplace', htopic', hanchor'⟩
    obtain ⟨hplaces, hplace⟩ := fits_or.mp ⟨hplace, hplace'⟩
    obtain ⟨htopics, htopic⟩ := fits_or.mp ⟨htopic, htopic'⟩
    obtain ⟨hanchors, hanchor⟩ := fits_or.mp ⟨hanchor, hanchor'⟩
    have hcompatible := intersectScopes_fst.mpr ⟨hplaces, htopics, hanchors⟩
    rw [intersectScopes_snd hcompatible, admits_iff, place_merge, topic_merge hplaces, anchor_merge]
    exact ⟨hcompatible, hplace, htopic, hanchor⟩
  · rintro ⟨hcompatible, hmatches⟩
    obtain ⟨hplaces, htopics, hanchors⟩ := intersectScopes_fst.mp hcompatible
    rw [intersectScopes_snd hcompatible, admits_iff, place_merge, topic_merge hplaces,
      anchor_merge] at hmatches
    obtain ⟨hplace, hplace'⟩ := fits_or.mpr ⟨hplaces, hmatches.1⟩
    obtain ⟨htopic, htopic'⟩ := fits_or.mpr ⟨htopics, hmatches.2.1⟩
    obtain ⟨hanchor, hanchor'⟩ := fits_or.mpr ⟨hanchors, hmatches.2.2⟩
    exact ⟨⟨hplace, htopic, hanchor⟩, hplace', htopic', hanchor'⟩

/-- A scope meets an intersection when it meets both parts. -/
theorem meets_intersect (h : Meets left right) :
    Meets (intersectScopes left right).2 other ↔ Meets left other ∧ Meets right other := by
  obtain ⟨hplaces, htopics, hanchors⟩ := h
  rw [intersectScopes_snd (intersectScopes_fst.mpr ⟨hplaces, htopics, hanchors⟩), Meets, place_merge,
    topic_merge hplaces, anchor_merge, agree_or hplaces, agree_or htopics, agree_or hanchors]
  simp only [Meets]
  tauto

end

/-! ## Keys -/

theorem ofDigits_decimal (n : ℕ) : Nat.ofDigits 10 ((decimal n).map (· - 48)).reverse = n := by
  unfold decimal
  split
  · next h =>
    rw [h]
    rfl
  · simp [Function.comp_def, Nat.ofDigits_digits]

/-- The document that is written determines the value. -/
def Determined {α : Type} (f : α → Json) : Prop := ∀ a b, serverDoc (f a) = serverDoc (f b) → a = b

theorem determined_nat : Determined nat := by
  intro m n h
  have htext : integerText m = integerText n := congrArg Atom.text (Doc.atom.inj h)
  rw [integerText, if_neg (by omega), integerText, if_neg (by omega), Int.natAbs_natCast,
    Int.natAbs_natCast] at htext
  rw [← ofDigits_decimal m, htext, ofDigits_decimal]

theorem nat_ne_null (n : ℕ) : serverDoc (nat n) ≠ serverDoc .null := by
  intro h
  have htext : integerText n = text "null" := congrArg Atom.text (Doc.atom.inj h)
  have hmem : 110 ∈ integerText n := by
    rw [htext]
    decide
  have := integerText_chars hmem
  omega

theorem determined_nullable {α : Type} {f : α → Json} {a b : Option α}
    (h : ∀ x ∈ a, ∀ y ∈ b, serverDoc (f x) = serverDoc (f y) → x = y)
    (hnull : ∀ x, serverDoc (f x) ≠ serverDoc .null)
    (heq : serverDoc (nullable f a) = serverDoc (nullable f b)) : a = b := by
  cases a with
  | none =>
    cases b with
    | none => rfl
    | some y => exact absurd heq.symm (hnull y)
  | some x =>
    cases b with
    | none => exact absurd heq (hnull x)
    | some y => rw [h x rfl y rfl heq]

theorem determined_listed {α : Type} {f : α → Json} (h : Determined f) : Determined (listed f) := by
  intro xs ys hdocs
  have hitems := Doc.array.inj hdocs
  rw [itemDocs_eq, itemDocs_eq, map_map, map_map] at hitems
  exact map_injective_iff.mpr h hitems

theorem sorted_keys_scope : sorted pointsLe [(key "kind", 0), (key "stream_id", 1), (key "topic", 2),
      (key "participant_user_ids", 3), (key "anchor_message_id", 4)] =
    [(key "anchor_message_id", 4), (key "kind", 0), (key "participant_user_ids", 3),
      (key "stream_id", 1), (key "topic", 2)] := by
  decide

theorem serverDoc_toJson (kind : ScopeKind) (streamId : Option ℕ) (topic : Option Str)
    (ids : List ℕ) (anchor : Option ℕ) :
    serverDoc (toJson ⟨kind, streamId, topic, some ids, anchor⟩) =
      .object [(decode (key "anchor_message_id"), serverDoc (nullable nat anchor)),
        (decode (key "kind"), serverDoc (named kind.name)),
        (decode (key "participant_user_ids"), serverDoc (listed nat ids)),
        (decode (key "stream_id"), serverDoc (nullable nat streamId)),
        (decode (key "topic"), serverDoc (nullable .string topic))] := by
  have h := sorted_map pointsLe
    (fun j : ℕ => [named kind.name, nullable nat streamId, nullable .string topic, listed nat ids,
      nullable nat anchor].getD j .null)
    [(key "kind", 0), (key "stream_id", 1), (key "topic", 2), (key "participant_user_ids", 3),
      (key "anchor_message_id", 4)]
  rw [sorted_keys_scope] at h
  rw [serverDoc, toJson, obj, doc, memberDocs_eq, sorted_map]
  exact (congrArg (fun l => Doc.object
    ((l.map fun m => (m.1, serverDoc m.2)).map fun m => (decode m.1, m.2))) h).trans rfl

theorem kind_injective {k k' : ScopeKind} (h : serverDoc (named k.name) = serverDoc (named k'.name)) :
    k = k' := by
  have hdecoded := Doc.string.inj h
  cases k <;> cases k' <;> first | rfl | exact absurd hdecoded (by decide)

theorem serverDoc_injective {r' : ConversationScope} (hfilled : r.filled = r)
    (hfilled' : r'.filled = r') (hpaired : ∀ topic ∈ r.topic, Paired topic)
    (hpaired' : ∀ topic ∈ r'.topic, Paired topic) (h : serverDoc r.toJson = serverDoc r'.toJson) :
    r = r' := by
  obtain ⟨kind, streamId, topic, _ | ids, anchor⟩ := r
  · cases hfilled
  obtain ⟨kind', streamId', topic', _ | ids', anchor'⟩ := r'
  · cases hfilled'
  rw [serverDoc_toJson, serverDoc_toJson] at h
  simp only [Doc.object.injEq, List.cons.injEq, Prod.mk.injEq, true_and, and_true] at h
  obtain ⟨hanchor, hkind, hids, hstream, htopic⟩ := h
  have hnat {a b : Option ℕ} (h : serverDoc (nullable nat a) = serverDoc (nullable nat b)) : a = b :=
    determined_nullable (fun x _ y _ => determined_nat x y) nat_ne_null h
  obtain rfl := hnat hanchor
  obtain rfl := hnat hstream
  obtain rfl := kind_injective hkind
  obtain rfl := determined_listed determined_nat _ _ hids
  obtain rfl : topic = topic' := determined_nullable (f := .string)
    (fun x hx y hy hxy => decode_injective (hpaired x hx) (hpaired' y hy) (Doc.string.inj hxy))
    (fun _ hnull => by cases hnull) htopic
  rfl

theorem paired_key {k : String} (h : isAscii k = true) : Paired (key k) := paired_ascii (key_ascii h)

theorem not_lone_obj {members : List (String × Json)} (hkeys : ∀ m ∈ members, isAscii m.1 = true)
    (h : ∀ m ∈ members, ¬ m.2.Lone) : ¬ (obj members).Lone := by
  rintro ⟨u, hu, hlone⟩
  obtain hu | ⟨m, hm, hu⟩ := mem_parts_object.mp hu
  · cases hu
  · obtain ⟨n, hn, rfl⟩ := mem_map.mp hm
    obtain hu | hu := hu
    · cases hu
      exact hlone (paired_key (hkeys n hn))
    · exact h n hn ⟨u, hu, hlone⟩

theorem not_lone (hpaired : ∀ topic ∈ r.topic, Paired topic) :
    ¬ r.toJson.Lone := by
  have hstring (s : Str) : (Json.string s).Lone ↔ ¬ Paired s := by
    simp [Json.Lone, Json.parts]
  have hnat (a : Option ℕ) : ¬ (nullable nat a).Lone := by
    cases a <;> simp [nullable, nat, Json.Lone, Json.parts]
  have hids (ids : List ℕ) : ¬ (listed nat ids).Lone := by
    simp [listed, nat, Json.Lone, Json.parts]
  have hname : Paired (key r.kind.name) := by
    cases r.kind <;> exact paired_key rfl
  have htopic : ¬ (nullable .string r.topic).Lone := by
    cases h : r.topic with
    | none => simp [nullable, Json.Lone, Json.parts]
    | some topic => exact fun hlone => (hstring topic).mp hlone (hpaired topic h)
  refine not_lone_obj ?_ ?_
  · cases r.participantUserIds <;> simp [optional, isAscii]
  · cases r.participantUserIds <;> simp [optional, hnat, hids, htopic, named, hstring, hname]

theorem Scope.ext {s t : Scope} (h : s.data = t.data) : s = t := by
  cases s
  cases t
  cases h
  rfl

/-- Each scope has a key. -/
theorem scopeKey_ok : ∃ key, scopeKey scope = .ok key := by
  cases scope with
  | none => exact ⟨_, rfl⟩
  | some s => exact ⟨_, canonicalJson_ok (not_lone s.paired) s.data.tidy.not_infinite⟩

/-- No two scopes have one key. -/
theorem scopeKey_injective {s t : Option Scope} (h : scopeKey s = scopeKey t) : s = t := by
  have hsome {s : Scope} : scopeKey (some s) = .ok (utf8 (write (serverDoc s.data.toJson))) :=
    canonicalJson_ok (not_lone s.paired) s.data.tidy.not_infinite
  have hscalar (s : Scope) : ∀ p ∈ write (serverDoc s.data.toJson), IsScalar p := write_isScalar _ _ _
  have hnone {s : Scope} : scopeKey (some s) ≠ scopeKey none := by
    rw [hsome]
    intro h
    have htext : write (serverDoc s.data.toJson) = [] :=
      utf8_injective (hscalar s) (fun _ hp => by cases hp) (Except.ok.inj h)
    cases htext
  cases s with
  | none =>
    cases t with
    | none => rfl
    | some t => exact absurd h.symm hnone
  | some s =>
    cases t with
    | none => exact absurd h hnone
    | some t =>
      rw [hsome, hsome] at h
      have hdocs := write_injective (utf8_injective (hscalar s) (hscalar t) (Except.ok.inj h))
      rw [Scope.ext (serverDoc_injective (modelValidate_ok.mp s.valid).2.2
        (modelValidate_ok.mp t.valid).2.2 s.paired t.paired hdocs)]

/-! ## The intersections of all grants -/

/-- Each scope is under its own key. -/
def Keyed : Prop :=
  ∀ e ∈ intersections, scopeKey e.2 = .ok e.1

section

variable {intersections : List (ByteArray × Option Scope)} {key : ByteArray} {scope t : Option Scope}

theorem enter_spec (h : Keyed intersections) (hkey : scopeKey scope = .ok key) :
    Keyed (enter intersections key scope) ∧
      (t ∈ (enter intersections key scope).map Prod.snd ↔
        t ∈ intersections.map Prod.snd ∨ t = scope) := by
  unfold enter
  split
  · next hany =>
    -- What is under the key is the scope itself.
    have hsame : ∀ e ∈ intersections, e.1 = key → e = (key, scope) := by
      intro e he hek
      exact Prod.ext hek (scopeKey_injective ((h e he).trans (hek ▸ hkey.symm)))
    have hmap : (intersections.map fun e => if e.1 = key then (key, scope) else e) = intersections := by
      refine (map_congr_left fun e he => ?_).trans (map_id _)
      split
      · next hek => exact (hsame e he hek).symm
      · rfl
    obtain ⟨e, he, hek⟩ := any_eq_true.mp hany
    have hmem : scope ∈ intersections.map Prod.snd := by
      have hscope := hsame e he (of_decide_eq_true hek)
      exact mem_map.mpr ⟨e, he, congrArg Prod.snd hscope⟩
    rw [hmap]
    refine ⟨h, .inl, ?_⟩
    rintro (ht | rfl)
    · exact ht
    · exact hmem
  · constructor
    · intro e he
      obtain he | he := mem_append.mp he
      · exact h e he
      · obtain rfl := mem_singleton.mp he
        exact hkey
    · simp

/-- What one pair adds. -/
theorem intersection_spec (h : Keyed intersections) (pair : Option Scope × Option Scope) :
    ∃ intersections', intersection intersections pair = .ok intersections' ∧ Keyed intersections' ∧
      ∀ t, t ∈ intersections'.map Prod.snd ↔ t ∈ intersections.map Prod.snd ∨
        intersectScopes pair.1 pair.2 = (true, t) := by
  unfold intersection
  split
  · next scope hpair =>
    obtain ⟨key, hkey⟩ := scopeKey_ok scope
    rw [hkey]
    refine ⟨_, rfl, (enter_spec (t := none) h hkey).1, fun t => ?_⟩
    rw [(enter_spec h hkey).2, hpair, Prod.mk.injEq, eq_comm (a := t)]
    simp
  · next hpair =>
    refine ⟨_, rfl, h, fun t => ?_⟩
    simp [hpair]

/-- What all pairs add. -/
theorem intersections_spec (h : Keyed intersections) (pairs : List (Option Scope × Option Scope)) :
    ∃ intersections', pairs.foldlM intersection intersections = .ok intersections' ∧
      ∀ t, t ∈ intersections'.map Prod.snd ↔ t ∈ intersections.map Prod.snd ∨
        ∃ pair ∈ pairs, intersectScopes pair.1 pair.2 = (true, t) := by
  induction pairs generalizing intersections with
  | nil => exact ⟨_, rfl, fun t => by simp⟩
  | cons pair pairs ih =>
    obtain ⟨next, hnext, hkeyed, hmem⟩ := intersection_spec h pair
    obtain ⟨last, hlast, hall⟩ := ih hkeyed
    refine ⟨last, ?_, fun t => ?_⟩
    · rw [foldlM_cons, hnext]
      exact hlast
    · rw [hall, hmem, exists_mem_cons_iff, or_assoc]

end

def Compatible (left right : Option Scope) : Prop := (intersectScopes left right).1 = true

variable (resources : List (List (Option Scope)))

/-- One scope of each resource can be chosen so that all are compatible with each other and
with the scope. -/
def Chosen : Prop :=
  ∃ choice, List.Forall₂ (· ∈ ·) choice resources ∧ (scope :: choice).Pairwise Compatible

theorem chosen_cons {scope : Option Scope} {allowed : List (Option Scope)}
    {resources : List (List (Option Scope))} :
    Chosen scope (allowed :: resources) ↔
      ∃ right ∈ allowed, ∃ t, intersectScopes scope right = (true, t) ∧ Chosen t resources := by
  have hmeets {right other : Option Scope} (h : Compatible scope right) :
      Compatible (intersectScopes scope right).2 other ↔
        Compatible scope other ∧ Compatible right other := by
    simp only [Compatible, intersectScopes_fst] at h ⊢
    exact meets_intersect h
  simp only [Chosen, forall₂_cons_right_iff, pairwise_cons]
  constructor
  · rintro ⟨_, ⟨right, choice, hright, hchoice, rfl⟩, hscope, hpairs⟩
    obtain ⟨hcompatible, hscope⟩ := forall_mem_cons.mp hscope
    obtain ⟨hrest, hpairs⟩ := pairwise_cons.mp hpairs
    exact ⟨right, hright, _, Prod.ext hcompatible rfl, choice, hchoice,
      fun c hc => (hmeets hcompatible).mpr ⟨hscope c hc, hrest c hc⟩, hpairs⟩
  · rintro ⟨right, hright, t, ht, choice, hchoice, hmeet, hpairs⟩
    have hcompatible : Compatible scope right := congrArg Prod.fst ht
    obtain rfl : (intersectScopes scope right).2 = t := congrArg Prod.snd ht
    refine ⟨_, ⟨right, choice, hright, hchoice, rfl⟩, forall_mem_cons.mpr ⟨hcompatible, ?_⟩,
      pairwise_cons.mpr ⟨?_, hpairs⟩⟩
    · exact fun c hc => ((hmeets hcompatible).mp (hmeet c hc)).1
    · exact fun c hc => ((hmeets hcompatible).mp (hmeet c hc)).2

theorem compatibleScopes_cons {scopes allowed : List (Option Scope)}
    (hfold : (scopes.product allowed).foldlM intersection [] = .ok intersections) :
    compatibleScopes scopes (allowed :: resources) =
      if (intersections.map Prod.snd).isEmpty then .ok (intersections.map Prod.snd)
      else compatibleScopes (intersections.map Prod.snd) resources := by
  rw [compatibleScopes, hfold]
  rfl

/-- **Some scope is left** exactly when one can be chosen of each list. -/
theorem compatibleScopes_spec (scopes : List (Option Scope)) :
    ∃ kept, compatibleScopes scopes resources = .ok kept ∧
      (kept ≠ [] ↔ ∃ scope ∈ scopes, Chosen scope resources) := by
  induction resources generalizing scopes with
  | nil =>
    have hchosen (scope : Option Scope) : Chosen scope [] := ⟨[], .nil, pairwise_singleton _ _⟩
    refine ⟨scopes, rfl, ?_⟩
    simp [hchosen, eq_nil_iff_forall_not_mem]
  | cons allowed resources ih =>
    have hkeyed : Keyed [] := fun _ he => by cases he
    obtain ⟨intersections, hfold, hmem⟩ := intersections_spec hkeyed (scopes.product allowed)
    have hleft : (∃ t ∈ intersections.map Prod.snd, Chosen t resources) ↔
        ∃ scope ∈ scopes, Chosen scope (allowed :: resources) := by
      simp only [hmem, chosen_cons, map_nil, not_mem_nil, false_or, Prod.exists, pair_mem_product]
      grind
    rw [compatibleScopes_cons _ _ hfold, ← hleft]
    split
    · next hempty =>
      have hnil := List.isEmpty_iff.mp hempty
      refine ⟨_, rfl, ?_⟩
      rw [hnil]
      simp
    · exact ih _

/-- **The intersection of two scopes is their meet**, and a scope is left over all grants
exactly when one grant of each resource can be chosen whose scopes are compatible with each
other. -/
theorem intersection_exact :
    (∀ (left right : Option Scope) (message : Message),
      admits left message = true ∧ admits right message = true ↔
        (intersectScopes left right).1 = true ∧
          admits (intersectScopes left right).2 message = true) ∧
    ∀ (scopes : List (Option Scope)) (resources : List (List (Option Scope))),
      ∃ kept, compatibleScopes scopes resources = .ok kept ∧
        (kept ≠ [] ↔ ∃ scope ∈ scopes, ∃ choice,
          List.Forall₂ (· ∈ ·) choice resources ∧ (scope :: choice).Pairwise Compatible) :=
  ⟨fun _ _ _ => admits_both, fun scopes resources => compatibleScopes_spec resources scopes⟩

/-- **The scopes that are left admit what all grants admit**: a message that some scope of the
profile admits, and some scope of each resource. -/
theorem compatibleScopes_admits (resources : List (List (Option Scope)))
    (scopes : List (Option Scope)) :
    ∃ kept, compatibleScopes scopes resources = .ok kept ∧
      ∀ message, (∃ t ∈ kept, admits t message = true) ↔
        (∃ s ∈ scopes, admits s message = true) ∧
          ∀ allowed ∈ resources, ∃ s ∈ allowed, admits s message = true := by
  induction resources generalizing scopes with
  | nil => exact ⟨scopes, rfl, fun message => by simp⟩
  | cons allowed resources ih =>
    have hkeyed : Keyed [] := fun _ he => by cases he
    obtain ⟨intersections, hfold, hmem⟩ := intersections_spec hkeyed (scopes.product allowed)
    have hpairs (message : Message) :
        (∃ t ∈ intersections.map Prod.snd, admits t message = true) ↔
          (∃ s ∈ scopes, admits s message = true) ∧ ∃ s ∈ allowed, admits s message = true := by
      simp only [hmem, map_nil, not_mem_nil, false_or, Prod.exists, pair_mem_product]
      constructor
      · rintro ⟨t, ⟨left, right, ⟨hl, hr⟩, hpair⟩, hmatches⟩
        obtain ⟨hleft, hright⟩ := admits_both.mpr ⟨congrArg Prod.fst hpair, by rwa [hpair]⟩
        exact ⟨⟨left, hl, hleft⟩, right, hr, hright⟩
      · rintro ⟨⟨left, hl, hleft⟩, right, hr, hright⟩
        obtain ⟨hcompatible, hmatches⟩ := admits_both.mp ⟨hleft, hright⟩
        exact ⟨_, ⟨left, right, ⟨hl, hr⟩, Prod.ext hcompatible rfl⟩, hmatches⟩
    simp only [forall_mem_cons, ← and_assoc, ← hpairs]
    rw [compatibleScopes_cons _ _ hfold]
    split
    · next hempty =>
      have hnil := List.isEmpty_iff.mp hempty
      refine ⟨_, rfl, fun message => ?_⟩
      rw [hnil]
      simp
    · exact ih _

end GrowTeam.Descriptors
