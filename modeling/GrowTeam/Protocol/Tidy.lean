import GrowTeam.Protocol.Descriptor
import GrowTeam.Protocol.SameBytes

/-!
# The JSON of a record is tidy

The keys of a record are distinct ASCII texts and its numbers are integers, so the two
sides write its JSON alike.
-/

namespace GrowTeam.Canonical

open Utf16 List

namespace Json

/-- The keys of each object are distinct ASCII texts, and no number is a double. -/
def Tidy (v : Json) : Prop :=
  (∀ keys, Part.keys keys ∈ v.parts → keys.Nodup ∧ ∀ k ∈ keys, ∀ u ∈ k, u.val < 128) ∧
    ∀ x, Part.float x ∉ v.parts

theorem Tidy.nodup {v : Json} (h : v.Tidy) : ∀ keys, Part.keys keys ∈ v.parts → keys.Nodup :=
  fun keys hkeys => (h.1 keys hkeys).1

theorem Tidy.not_refused {v : Json} (h : v.Tidy) : ¬ v.Refused := by
  rintro ⟨x, hx, _⟩
  exact h.2 x hx

theorem Tidy.not_infinite {v : Json} (h : v.Tidy) : ¬ v.Infinite := by
  rintro ⟨x, hx, _⟩
  exact h.2 x hx

end Json

/-! ## ASCII keys do not cross -/

theorem decode_ascii {s : List CodeUnit} (h : ∀ u ∈ s, u.val < 128) : ∀ p ∈ decode s, p < 128 := by
  induction s with
  | nil =>
    intro p hp
    cases hp
  | cons u s ih =>
    have hu := h u (mem_cons_self ..)
    have hhigh : isHigh u = false := by
      simp only [isHigh, Bool.and_eq_false_iff, decide_eq_false_iff_not]
      omega
    intro p hp
    rw [decode_cons_of_not_high hhigh] at hp
    obtain rfl | hp := mem_cons.mp hp
    · exact hu
    · exact ih (fun w hw => h w (mem_cons_of_mem _ hw)) p hp

theorem paired_ascii {s : List CodeUnit} (h : ∀ u ∈ s, u.val < 128) : Paired s := by
  intro p hp
  have hlt := decode_ascii h p hp
  simp only [isSurrogate, Bool.and_eq_false_iff, decide_eq_false_iff_not]
  omega

theorem uncrossed_ascii : ∀ {p q : List ℕ}, (∀ c ∈ p, c < 128) → crossed p q = false
  | [], _, _ => by rw [crossed]; simp
  | _ :: _, [], _ => by rw [crossed]; simp
  | a :: p, b :: q, h => by
    have ha := h a (mem_cons_self ..)
    rw [crossed]
    split
    · exact uncrossed_ascii fun c hc => h c (mem_cons_of_mem _ hc)
    · simp only [Bool.and_eq_false_iff, decide_eq_false_iff_not]
      omega

theorem Json.Tidy.settled {v : Json} (h : v.Tidy) : v.Settled := by
  refine ⟨h.2, ?_⟩
  intro keys hkeys s hs t _
  exact uncrossed_ascii (decode_ascii ((h.1 keys hkeys).2 s hs))

/-- A tidy value is written by the server exactly when it has no lone surrogate. -/
theorem not_lone_of_ok {v : Value} {b : ByteArray} (h : canonicalJson v = .ok b) :
    ¬ v.json.Lone := by
  intro hlone
  obtain ⟨e, he⟩ := canonicalJson_error (.inl hlone)
  rw [he] at h
  cases h

/-- **Both sides hash the same bytes** of a tidy value of safe integers. -/
theorem digestInput_eq {v : Value} (htidy : v.json.Tidy) (hsafe : v.json.Safe) {b : ByteArray}
    (h : canonicalJson v = .ok b) : digestInput v = .ok b := by
  have hlone := not_lone_of_ok h
  rw [canonicalJson_ok hlone htidy.not_infinite] at h
  rw [digestInput_ok hsafe htidy.not_refused, (docs_eq_iff v.distinct hlone).mpr htidy.settled]
  exact h

end GrowTeam.Canonical

namespace GrowTeam.Descriptors

open Utf16 Canonical List

/-! ## Records -/

def isAscii (s : String) : Bool := s.toList.all fun c => c.toNat < 128

/-- The keys of an object, distinct and ASCII. -/
def keysOk (ks : List String) : Bool := decide ks.Nodup && ks.all isAscii

theorem key_ascii {s : String} (h : isAscii s = true) : ∀ u ∈ key s, u.val < 128 := by
  intro u hu
  obtain ⟨c, hc, rfl⟩ := mem_map.mp hu
  have hlt : c.toNat < 128 := of_decide_eq_true (all_eq_true.mp h c hc)
  rw [Fin.val_ofNat, Nat.mod_eq_of_lt (by omega)]
  exact hlt

theorem key_injective {s t : String} (hs : isAscii s = true) (ht : isAscii t = true)
    (h : key s = key t) : s = t := by
  refine String.toList_inj.mp (map_inj_on ?_ h)
  intro c hc d hd hcd
  have hlt : c.toNat < 128 := of_decide_eq_true (all_eq_true.mp hs c hc)
  have hlt' : d.toNat < 128 := of_decide_eq_true (all_eq_true.mp ht d hd)
  have hval := congrArg Fin.val hcd
  rw [Fin.val_ofNat, Fin.val_ofNat, Nat.mod_eq_of_lt (by omega), Nat.mod_eq_of_lt (by omega)] at hval
  exact Char.toNat_inj.mp hval

theorem tidy_leaf {v : Json} (h : (∀ keys, Part.keys keys ∉ v.parts) ∧ ∀ x, Part.float x ∉ v.parts) :
    v.Tidy :=
  ⟨fun keys hkeys => absurd hkeys (h.1 keys), h.2⟩

@[simp] theorem tidy_null : Json.null.Tidy := tidy_leaf (by simp [Json.parts])

@[simp] theorem tidy_bool (b : Bool) : (Json.bool b).Tidy := tidy_leaf (by simp [Json.parts])

@[simp] theorem tidy_string (s : Str) : (Json.string s).Tidy := tidy_leaf (by simp [Json.parts])

@[simp] theorem tidy_named (s : String) : (named s).Tidy := tidy_string _

@[simp] theorem tidy_nat (n : ℕ) : (nat n).Tidy := tidy_leaf (by simp [nat, Json.parts])

@[simp] theorem tidy_nullable {α : Type} {f : α → Json} {a : Option α} (h : ∀ b, (f b).Tidy) :
    (nullable f a).Tidy := by
  cases a with
  | none => exact tidy_null
  | some b => exact h b

@[simp] theorem tidy_listed {α : Type} {f : α → Json} {xs : List α} (h : ∀ b, (f b).Tidy) :
    (listed f xs).Tidy := by
  constructor
  · intro keys hkeys
    obtain ⟨v, hv, hp⟩ := mem_parts_array.mp hkeys
    obtain ⟨a, _, rfl⟩ := mem_map.mp hv
    exact (h a).1 keys hp
  · intro x hx
    obtain ⟨v, hv, hp⟩ := mem_parts_array.mp hx
    obtain ⟨a, _, rfl⟩ := mem_map.mp hv
    exact (h a).2 x hp

/-- The values of all members are tidy. -/
def MembersTidy (members : List (String × Json)) : Prop := ∀ m ∈ members, m.2.Tidy

variable {members : List (String × Json)}

@[simp] theorem membersTidy_nil : MembersTidy [] := by
  intro m hm
  cases hm

@[simp] theorem membersTidy_cons {m : String × Json} :
    MembersTidy (m :: members) ↔ m.2.Tidy ∧ MembersTidy members := forall_mem_cons

@[simp] theorem membersTidy_append {members' : List (String × Json)} :
    MembersTidy (members ++ members') ↔ MembersTidy members ∧ MembersTidy members' :=
  forall_mem_append

@[simp] theorem membersTidy_optional {α : Type} {k : String} {f : α → Json} {a : Option α}
    (h : ∀ b, (f b).Tidy) : MembersTidy (optional k (a.map f)) := by
  cases a with
  | none => exact membersTidy_nil
  | some b => exact membersTidy_cons.mpr ⟨h b, membersTidy_nil⟩

@[simp] theorem membersTidy_member {α : Type} {k : String} {f : α → Json} {a : Omittable α}
    (h : ∀ b, (f b).Tidy) : MembersTidy (a.member k f) := by
  cases a with
  | omitted => exact membersTidy_nil
  | null => exact membersTidy_cons.mpr ⟨tidy_null, membersTidy_nil⟩
  | value b => exact membersTidy_cons.mpr ⟨h b, membersTidy_nil⟩

theorem tidy_obj (hkeys : keysOk (members.map Prod.fst) = true)
    (h : MembersTidy members) : (obj members).Tidy := by
  obtain ⟨hnodup, hascii⟩ := Bool.and_eq_true_iff.mp hkeys
  have hascii : ∀ k ∈ members.map Prod.fst, isAscii k = true := all_eq_true.mp hascii
  have hmap : (members.map fun m => (key m.1, m.2)).map Prod.fst =
      (members.map Prod.fst).map key := by
    simp
  constructor
  · intro keys hp
    obtain hp | ⟨m, hm, hp | hp⟩ := mem_parts_object.mp hp
    · cases hp
      rw [hmap]
      constructor
      · exact (of_decide_eq_true hnodup).map_on fun k hk l hl =>
          key_injective (hascii k hk) (hascii l hl)
      · intro k hk
        obtain ⟨l, hl, rfl⟩ := mem_map.mp hk
        exact key_ascii (hascii l hl)
    · cases hp
    · obtain ⟨n, hn, rfl⟩ := mem_map.mp hm
      exact (h n hn).1 keys hp
  · intro x hp
    obtain hp | ⟨m, hm, hp | hp⟩ := mem_parts_object.mp hp
    · cases hp
    · cases hp
    · obtain ⟨n, hn, rfl⟩ := mem_map.mp hm
      exact (h n hn).2 x hp

theorem tidy_obj_of_sublist (ks : List String)
    (hkeys : keysOk ks = true) (hsub : (members.map Prod.fst).Sublist ks)
    (h : MembersTidy members) : (obj members).Tidy := by
  refine tidy_obj ?_ h
  simp only [keysOk, Bool.and_eq_true, decide_eq_true_eq, all_eq_true] at hkeys ⊢
  exact ⟨hkeys.1.sublist hsub, fun k hk => hkeys.2 k (hsub.subset hk)⟩

theorem keys_optional (k : String) (v : Option Json) : ((optional k v).map Prod.fst).Sublist [k] := by
  cases v with
  | none => exact nil_sublist _
  | some j => exact .refl _

theorem keys_member {α : Type} (k : String) (f : α → Json) (a : Omittable α) :
    ((a.member k f).map Prod.fst).Sublist [k] := by
  cases a with
  | omitted => exact nil_sublist _
  | null | value => exact .refl _

@[simp] theorem CapabilityReport.tidy (r : CapabilityReport) : r.toJson.Tidy :=
  tidy_obj (by simp only [map]; rfl) (by simp)

@[simp] theorem NetworkTarget.tidy (r : NetworkTarget) : r.toJson.Tidy :=
  tidy_obj (by simp only [map]; rfl) (by simp)

@[simp] theorem NetworkPolicy.tidy (r : NetworkPolicy) : r.toJson.Tidy := by
  refine tidy_obj_of_sublist
    ["targets", "public_https_only", "block_metadata", "cross_origin_authorization",
      "project_network"]
    rfl ?_ (by simp)
  rw [map_append]
  exact (keys_optional _ _).append (.refl _)

@[simp] theorem SecretReference.tidy (r : SecretReference) : r.toJson.Tidy :=
  tidy_obj (by simp only [map]; rfl) (by simp)

@[simp] theorem ProviderConfig.tidy (r : ProviderConfig) : r.toJson.Tidy :=
  tidy_obj (by simp only [map]; rfl) (by simp)

@[simp] theorem RequiredCheck.tidy (r : RequiredCheck) : r.toJson.Tidy :=
  tidy_obj (by simp only [map]; rfl) (by simp)

@[simp] theorem RepositoryConfig.tidy (r : RepositoryConfig) : r.toJson.Tidy := by
  refine tidy_obj_of_sublist
    ["id", "owner_user_id", "runner_id", "workspace_alias", "canonical_origin", "allowed_refs",
      "base_ref", "base_commit", "policy_version", "required_checks"]
    rfl ?_ (by simp)
  rw [map_append]
  exact (List.Sublist.refl _).append (keys_optional _ _)

@[simp] theorem ConversationScope.tidy (r : ConversationScope) : r.toJson.Tidy := by
  refine tidy_obj_of_sublist
    ["kind", "stream_id", "topic", "participant_user_ids", "anchor_message_id"]
    rfl ?_ (by simp)
  rw [map_append, map_append]
  exact ((List.Sublist.refl _).append (keys_optional _ _)).append (.refl _)

@[simp] theorem AudienceBinding.tidy (r : AudienceBinding) : r.toJson.Tidy :=
  tidy_obj (by simp only [map]; rfl) (by simp)

@[simp] theorem AdapterConfig.tidy (r : AdapterConfig) : r.toJson.Tidy :=
  tidy_obj (by simp only [map]; rfl) (by simp)

@[simp] theorem SandboxConfig.tidy (r : SandboxConfig) : r.toJson.Tidy :=
  tidy_obj (by simp only [map]; rfl) (by simp)

@[simp] theorem tidy_actions (actions : List ExecutionAction) : (actionsJson actions).Tidy :=
  tidy_listed fun _ => tidy_named _

@[simp] theorem Policy.tidy (r : Policy) : r.toJson.Tidy := by
  refine tidy_obj_of_sublist
    ["version", "actions", "grant_ids", "scope", "sandbox", "network", "hard_cost_cap"]
    rfl ?_ (by simp)
  rw [map_append, map_append]
  exact ((List.Sublist.refl _).append (keys_optional _ _)).append (.refl _)

@[simp] theorem Budget.tidy (r : Budget) : r.toJson.Tidy :=
  tidy_obj (by simp only [map]; rfl) (by simp)

@[simp] theorem ContextReference.tidy (r : ContextReference) : r.toJson.Tidy :=
  tidy_obj (by simp only [map]; rfl) (by simp)

@[simp] theorem InputRecord.tidy (r : InputRecord) : r.toJson.Tidy :=
  tidy_obj (by simp only [map]; rfl) (by simp)

@[simp] theorem Checkpoint.tidy (r : Checkpoint) : r.toJson.Tidy := by
  refine tidy_obj_of_sublist
    ["id", "source_attempt_id", "base_commit", "tree_hash", "summary", "context_ref_ids",
      "artifact_ids", "remaining_work", "next_step", "adapter_session_ref", "input_cursor"]
    rfl ?_ (by simp)
  rw [map_append, map_append, map_append, map_append]
  exact ((((List.Sublist.refl _).append (keys_optional _ _)).append (keys_optional _ _)).append
    (keys_optional _ _)).append (.refl _)

@[simp] theorem WorkspaceBinding.tidy (r : WorkspaceBinding) : r.toJson.Tidy :=
  tidy_obj (by simp only [map]; rfl) (by simp)

@[simp] theorem EffectiveProvider.tidy (r : EffectiveProvider) : r.toJson.Tidy :=
  tidy_obj (by simp only [map]; rfl) (by simp)

@[simp] theorem InstructionText.tidy (r : InstructionText) : r.toJson.Tidy :=
  tidy_obj (by simp only [map]; rfl) (by simp)

@[simp] theorem AttemptInstructions.tidy (r : AttemptInstructions) : r.toJson.Tidy :=
  tidy_obj (by simp only [map]; rfl) (by simp)

@[simp] theorem ExecutionConfiguration.tidy (r : ExecutionConfiguration) : r.toJson.Tidy := by
  refine tidy_obj_of_sublist
    ["schema_version", "runner_id", "profile_revision", "adapter", "provider",
      "workspace_binding", "policy_version", "actions", "sandbox", "network", "hard_cost_cap",
      "budget", "instructions_digest"]
    rfl ?_ (by simp)
  rw [map_append]
  exact (List.Sublist.refl _).append (keys_member _ _ _)

variable (r : AttemptDescriptor)

theorem AttemptDescriptor.members_tidy : MembersTidy r.members := by
  simp [AttemptDescriptor.members]

def AttemptDescriptor.keys : List String :=
  ["schema_version", "job_id", "attempt_id", "lease_epoch", "audience", "tested_configuration",
    "profile_id", "profile_revision", "configuration_digest", "lease_expires_at", "job_kind",
    "delivery_target", "request", "runner_id", "adapter", "provider", "repository", "policy",
    "budget", "context_refs", "inputs", "checkpoint", "instructions"]

theorem AttemptDescriptor.members_keys :
    (r.members.map Prod.fst).Sublist AttemptDescriptor.keys := by
  rw [AttemptDescriptor.members, map_append, map_append, map_append, map_append]
  exact ((((List.Sublist.refl _).append (keys_optional _ _)).append (keys_optional _ _)).append
    (.refl _)).append (keys_member _ _ _)

/-- The JSON of the members alone. -/
theorem AttemptDescriptor.tidy_members : (obj r.members).Tidy :=
  tidy_obj_of_sublist AttemptDescriptor.keys rfl r.members_keys r.members_tidy

/-! ## Values -/

variable (checks : List RequiredCheck)

def checksJson : Json := listed RequiredCheck.toJson checks

theorem tidy_checks : (checksJson checks).Tidy :=
  tidy_listed RequiredCheck.tidy

def checksValue : Value := ⟨checksJson checks, (tidy_checks checks).nodup⟩

def ExecutionConfiguration.toValue (r : ExecutionConfiguration) : Value := ⟨r.toJson, r.tidy.nodup⟩

/-- What the digest of a descriptor is taken of. -/
def AttemptDescriptor.toValue : Value :=
  ⟨obj r.members, r.tidy_members.nodup⟩

end GrowTeam.Descriptors
