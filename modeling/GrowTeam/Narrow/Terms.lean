/-
# Terms only leave messages out

Whatever the operator and its operand are, and negated or not, a term keeps the conditions of a
query and adds its own.  A term that is not negated and names channels adds the condition that a
message is in them.
-/
import GrowTeam.Narrow.Fetch

namespace GrowTeam.Narrow

open Chat List

/-! ## Computations that succeed -/

theorem bind_eq_ok {α β : Type} {x : Except NarrowError α} {f : α → Except NarrowError β} {y : β} :
    (x >>= f) = .ok y ↔ ∃ a, x = .ok a ∧ f a = .ok y := by
  cases x <;> simp [bind, Except.bind]

/-! ## Terms only leave messages out -/

/-- A query has all conditions of another one, about the same messages. -/
structure Query.Narrows (q' q : Query) : Prop where
  source : q'.source = q.source
  wheres : q.wheres ⊆ q'.wheres

namespace Query.Narrows

variable {q q' q'' : Query}

theorem refl : q.Narrows q := ⟨rfl, fun _ hc => hc⟩

theorem trans (h' : q''.Narrows q') (h : q'.Narrows q) : q''.Narrows q :=
  ⟨h'.source.trans h.source, fun _ hc => h'.wheres (h.wheres hc)⟩

theorem filtered {c : Condition} : (q.filtered c).Narrows q :=
  ⟨rfl, fun _ hc => mem_append_left _ hc⟩

theorem filteredByFlags {c : Condition} : (q.filteredByFlags c).Narrows q :=
  ⟨rfl, fun _ hc => mem_append_left _ hc⟩

theorem rows_subset (h : q'.Narrows q) : q'.rows ⊆ q.rows := by
  intro m hm
  obtain ⟨hsource, hall⟩ := mem_filter.mp hm
  refine mem_filter.mpr ⟨h.source ▸ hsource, ?_⟩
  rw [all_eq_true] at hall ⊢
  exact fun c hc => hall c (h.wheres hc)

end Query.Narrows

/-- A message that a query selects is true of each of its conditions. -/
theorem Query.mem_rows {q : Query} {m : Message} :
    m ∈ q.rows ↔ m ∈ q.source ∧ ∀ c ∈ q.wheres, c m = some true := by
  unfold Query.rows
  simp

section Terms

variable {engine : TextEngine} {s : Store} {n n' : NarrowBuilder} {q q' : Query}
  {narrowed narrowed' : Narrowed} {operand : Operand} {negated : Bool}

/-- What a builder keeps. -/
structure NarrowBuilder.Kept (n' n : NarrowBuilder) : Prop where
  userProfile : n'.userProfile = n.userProfile
  realmId : n'.realmId = n.realmId
  isWebPublicQuery : n'.isWebPublicQuery = n.isWebPublicQuery

/-- A term was added: the query has further conditions. -/
structure Added (n : NarrowBuilder) (q : Query) (narrowed : Narrowed) : Prop where
  kept : narrowed.1.Kept n
  narrows : narrowed.2.Narrows q

theorem NarrowBuilder.Kept.refl : n.Kept n := ⟨rfl, rfl, rfl⟩

theorem Added.refl : Added n q (n, q) := ⟨.refl, .refl⟩

theorem Added.trans (h : Added n q narrowed) (h' : Added narrowed.1 narrowed.2 narrowed') :
    Added n q narrowed' where
  kept := ⟨h'.kept.userProfile.trans h.kept.userProfile, h'.kept.realmId.trans h.kept.realmId,
    h'.kept.isWebPublicQuery.trans h.kept.isWebPublicQuery⟩
  narrows := h'.narrows.trans h.narrows

theorem kept_of_check {isDm isChannel : Bool}
    (h : n.checkNotBothChannelAndDmNarrow negated isDm isChannel = .ok n') : n'.Kept n := by
  unfold NarrowBuilder.checkNotBothChannelAndDmNarrow at h
  split at h
  · cases h
    exact .refl
  · split at h
    · cases h
    · cases h
      exact ⟨rfl, rfl, rfl⟩

theorem added_condition {p : Message → Bool} (hkept : n'.Kept n)
    (h : .ok (addCondition n' q negated p) = (.ok narrowed : Except NarrowError Narrowed)) :
    Added n q narrowed := by
  cases h
  exact ⟨hkept, .filtered⟩

theorem added_flagCondition {p : Message → Bool} (hkept : n'.Kept n)
    (h : .ok (addFlagCondition n' q negated p) = (.ok narrowed : Except NarrowError Narrowed)) :
    Added n q narrowed := by
  cases h
  exact ⟨hkept, .filteredByFlags⟩

/-! ### The operators, one by one -/

theorem byHas_added (h : byHas s n q operand negated = .ok narrowed) : Added n q narrowed := by
  unfold byHas at h
  split at h
  case h_5 => cases h
  case h_6 => cases h
  all_goals
    exact added_condition .refl h

theorem byIn_added (h : byIn engine s n q operand negated = .ok narrowed) :
    Added n q narrowed := by
  obtain ⟨user, -, h⟩ := bind_eq_ok.mp h
  split at h
  · exact added_condition .refl h
  · cases h
    exact .refl
  · cases h
  · cases h

theorem byIsDm_added {user : UserProfile} (h : byIsDm s n q user negated = .ok narrowed) :
    Added n q narrowed := by
  obtain ⟨n', hcheck, h⟩ := bind_eq_ok.mp h
  exact added_flagCondition (kept_of_check hcheck) h

theorem byIs_added (h : byIs engine s n q operand negated = .ok narrowed) :
    Added n q narrowed := by
  unfold byIs at h
  split at h
  · exact added_condition .refl h
  · obtain ⟨user, -, h⟩ := bind_eq_ok.mp h
    split at h
    · exact byIsDm_added h
    · split at h
      · exact added_flagCondition .refl h
      · split at h
        · exact added_condition .refl h
        · split at h
          · exact added_condition .refl h
          · cases h
  · cases h

/-- A channel is looked up in the realm; of a web-public query it is web-public. -/
theorem byChannel_eq_ok (h : byChannel engine s n q operand negated = .ok narrowed) :
    ∃ n' channel, n'.Kept n ∧
      getStreamByNarrowOperandAccessUnchecked engine s operand n.realmId = some channel ∧
      (n.isWebPublicQuery = true → channel.isWebPublic = true) ∧
      narrowed = addCondition n' q negated
        (fun message => message.recipient.id = channel.recipientId) := by
  obtain ⟨n', hcheck, h⟩ := bind_eq_ok.mp h
  have hkept := kept_of_check hcheck
  rw [hkept.realmId] at h
  cases hchannel : getStreamByNarrowOperandAccessUnchecked engine s operand n.realmId with
  | none =>
    rw [hchannel] at h
    cases h
  | some channel =>
    rw [hchannel, hkept.isWebPublicQuery] at h
    dsimp only at h
    split at h
    · cases h
    · next hpublic =>
      refine ⟨n', channel, hkept, rfl, fun hquery => ?_, (Except.ok.inj h).symm⟩
      simpa [hquery] using hpublic

theorem byChannel_added (h : byChannel engine s n q operand negated = .ok narrowed) :
    Added n q narrowed := by
  obtain ⟨n', channel, hkept, -, -, rfl⟩ := byChannel_eq_ok h
  exact added_condition hkept rfl

theorem byChannels_eq_ok (h : byChannels s n q operand negated = .ok narrowed) :
    ∃ n' streams, n'.Kept n ∧ channelsOperand s n.realmId operand = .ok streams ∧
      narrowed = addCondition n' q negated
        (fun message => decide (message.recipient.id ∈ streams.map (·.recipientId))) := by
  obtain ⟨n', hcheck, h⟩ := bind_eq_ok.mp h
  obtain ⟨streams, hstreams, h⟩ := bind_eq_ok.mp h
  have hkept := kept_of_check hcheck
  rw [hkept.realmId] at hstreams
  exact ⟨n', streams, hkept, hstreams, (Except.ok.inj h).symm⟩

theorem byChannels_added (h : byChannels s n q operand negated = .ok narrowed) :
    Added n q narrowed := by
  obtain ⟨n', streams, hkept, -, rfl⟩ := byChannels_eq_ok h
  exact added_condition hkept rfl

theorem byTopic_added (h : byTopic engine s n q operand negated = .ok narrowed) :
    Added n q narrowed := by
  obtain ⟨n', hcheck, h⟩ := bind_eq_ok.mp h
  split at h
  · exact added_condition (kept_of_check hcheck) h
  · cases h

theorem bySender_added (h : bySender engine s n q operand negated = .ok narrowed) :
    Added n q narrowed := by
  obtain ⟨sender, -, h⟩ := bind_eq_ok.mp h
  exact added_condition .refl h

theorem byId_added (h : byId engine n q operand negated = .ok narrowed) : Added n q narrowed := by
  obtain ⟨id, -, h⟩ := bind_eq_ok.mp h
  exact added_condition .refl h

theorem byDm_added (h : byDm engine s n q operand negated = .ok narrowed) :
    Added n q narrowed := by
  obtain ⟨sender, -, h⟩ := bind_eq_ok.mp h
  obtain ⟨n', hcheck, h⟩ := bind_eq_ok.mp h
  have hkept := kept_of_check hcheck
  split at h
  · cases h
  · exact added_condition hkept h
  · split at h
    · cases h
    · split at h
      · exact added_condition hkept h
      · exact added_condition hkept h

theorem byDmIncluding_added (h : byDmIncluding engine s n q operand negated = .ok narrowed) :
    Added n q narrowed := by
  obtain ⟨user, -, h⟩ := bind_eq_ok.mp h
  obtain ⟨n', hcheck, h⟩ := bind_eq_ok.mp h
  obtain ⟨other, -, h⟩ := bind_eq_ok.mp h
  split at h
  · exact added_flagCondition (kept_of_check hcheck) h
  · exact added_flagCondition (kept_of_check hcheck) h

theorem byMention_added (h : byMention engine s n q operand negated = .ok narrowed) :
    Added n q narrowed := by
  unfold byMention at h
  split at h
  · cases h
  · obtain ⟨target, -, h⟩ := bind_eq_ok.mp h
    exact added_condition .refl h

theorem byGroupPmWith_added (h : byGroupPmWith engine s n q operand negated = .ok narrowed) :
    Added n q narrowed := by
  obtain ⟨user, -, h⟩ := bind_eq_ok.mp h
  obtain ⟨n', hcheck, h⟩ := bind_eq_ok.mp h
  obtain ⟨other, -, h⟩ := bind_eq_ok.mp h
  exact added_flagCondition (kept_of_check hcheck) h

theorem bySearch_added {operand : String} : Added n q (bySearch engine s n q operand negated) := by
  have hterms : ∀ (terms : List (List Char)) (q' : Query), q'.Narrows q →
      (terms.foldl (fun q term =>
        q.filtered ((Condition.of fun message =>
          engine.ilike ("%" ++ engine.prepForLikeQuery (String.ofList term) ++ "%")
              message.content ||
            (engine.ilike ("%" ++ engine.prepForLikeQuery (String.ofList term) ++ "%")
                (s.topicName message.id) &&
              message.recipient.type = .stream)).maybeNegate negated)) q').Narrows q := by
    intro terms
    induction terms with
    | nil => exact fun q' h => h
    | cons term terms ih => exact fun q' h => ih _ (Query.Narrows.filtered.trans h)
  unfold bySearch
  split
  · exact ⟨.refl, .filtered⟩
  · exact ⟨.refl, Query.Narrows.filtered.trans (hterms _ q .refl)⟩

variable {term : NarrowParameter}

/-- **No term adds messages.** -/
theorem addTerm_added (h : addTerm engine s n q term = .ok narrowed) : Added n q narrowed := by
  unfold addTerm at h
  split at h
  · exact byHas_added h
  · exact byIn_added h
  · exact byIs_added h
  · exact byChannel_added h
  · exact byChannel_added h
  · exact byChannels_added h
  · exact byChannels_added h
  · exact byTopic_added h
  · exact bySender_added h
  · cases h
    exact .refl
  · exact byId_added h
  · split at h
    · cases h
      exact bySearch_added
    · cases h
  · exact byDm_added h
  · exact byDm_added h
  · exact byDm_added h
  · exact byDmIncluding_added h
  · exact byMention_added h
  · exact byGroupPmWith_added h
  · exact byGroupPmWith_added h
  · cases h

/-! ### Terms that select channels -/

/-- The query asks for the channels that a term names. -/
structure Selects (engine : TextEngine) (s : Store) (realmId : ℕ) (q : Query)
    (term : NarrowParameter) : Prop where
  channel : term.operator ∈ channelOperators → ∃ channel,
    getStreamByNarrowOperandAccessUnchecked engine s term.operand realmId = some channel ∧
      Condition.of (fun message => message.recipient.id = channel.recipientId) ∈ q.wheres
  channels : term.operator ∈ channelsOperators → ∃ streams,
    channelsOperand s realmId term.operand = .ok streams ∧
      Condition.of (fun message => decide (message.recipient.id ∈ streams.map (·.recipientId)))
        ∈ q.wheres

theorem Selects.narrows {realmId : ℕ}
    (h : Selects engine s realmId q term) (hq : q'.Narrows q) :
    Selects engine s realmId q' term where
  channel := fun hop => (h.channel hop).imp fun _ hc => ⟨hc.1, hq.wheres hc.2⟩
  channels := fun hop => (h.channels hop).imp fun _ hc => ⟨hc.1, hq.wheres hc.2⟩

/-- A term that is not negated selects its channels. -/
theorem addTerm_selects
    (h : addTerm engine s n q term = .ok narrowed) (hnegated : term.negated = false) :
    Selects engine s n.realmId narrowed.2 term := by
  constructor
  · intro hop
    have hchannel : byChannel engine s n q term.operand term.negated = .ok narrowed := by
      rcases mem_pair.mp hop with hname | hname <;> rwa [addTerm, hname] at h
    obtain ⟨n', channel, -, hlookup, -, rfl⟩ := byChannel_eq_ok hchannel
    refine ⟨channel, hlookup, ?_⟩
    rw [hnegated]
    exact mem_append_right _ (mem_singleton.mpr rfl)
  · intro hop
    have hchannels : byChannels s n q term.operand term.negated = .ok narrowed := by
      rcases mem_pair.mp hop with hname | hname <;> rwa [addTerm, hname] at h
    obtain ⟨n', streams, -, hstreams, rfl⟩ := byChannels_eq_ok hchannels
    refine ⟨streams, hstreams, ?_⟩
    rw [hnegated]
    exact mem_append_right _ (mem_singleton.mpr rfl)

/-- The terms of a narrow leave messages out, and those that are not negated select their
channels. -/
theorem addTerms_spec {terms : List NarrowParameter} {searchOperands operands : List String}
    (h : addTerms engine s narrowed searchOperands terms = .ok (narrowed', operands)) :
    Added narrowed.1 narrowed.2 narrowed' ∧
      ∀ term ∈ terms, term.negated = false →
        Selects engine s narrowed.1.realmId narrowed'.2 term := by
  induction terms generalizing narrowed searchOperands with
  | nil =>
    obtain ⟨rfl, -⟩ := Prod.mk.inj (Except.ok.inj h)
    exact ⟨.refl, by simp⟩
  | cons term terms ih =>
    unfold addTerms at h
    by_cases hsearch : term.operator = "search"
    · rw [if_pos hsearch] at h
      obtain ⟨hadded, hselects⟩ := ih h
      refine ⟨hadded, fun term' hmem hnegated => ?_⟩
      rcases mem_cons.mp hmem with rfl | hmem
      · exact ⟨fun hop => by simp [hsearch, channelOperators] at hop,
          fun hop => by simp [hsearch, channelsOperators] at hop⟩
      · exact hselects term' hmem hnegated
    · rw [if_neg hsearch] at h
      obtain ⟨first, hfirst, h⟩ := bind_eq_ok.mp h
      have hfirstAdded := addTerm_added hfirst
      obtain ⟨hadded, hselects⟩ := ih h
      refine ⟨hfirstAdded.trans hadded, fun term' hmem hnegated => ?_⟩
      rcases mem_cons.mp hmem with rfl | hmem
      · exact (addTerm_selects hfirst hnegated).narrows hadded.narrows
      · rw [← hfirstAdded.kept.realmId]
        exact hselects term' hmem hnegated

theorem addNarrowConditions_spec {userProfile : Option UserProfile}
    {narrow : Option (List NarrowParameter)} {isWebPublicQuery : Bool} {realmId : ℕ}
    {result : Query × Bool × Bool}
    (h : addNarrowConditions engine s userProfile q narrow isWebPublicQuery realmId = .ok result) :
    result.1.Narrows q ∧ ∀ term ∈ narrow.getD [], term.negated = false →
      Selects engine s realmId result.1 term := by
  cases narrow with
  | none =>
    cases h
    exact ⟨.refl, by simp⟩
  | some terms =>
    obtain ⟨⟨narrowed, operands⟩, hterms, h⟩ := bind_eq_ok.mp h
    obtain ⟨hadded, hselects⟩ := addTerms_spec hterms
    dsimp only at h
    split at h
    · cases h
      exact ⟨hadded.narrows, hselects⟩
    · cases h
      have hsearch : Added narrowed.1 narrowed.2
          (bySearch engine s narrowed.1 narrowed.2 (" ".intercalate operands) false) :=
        bySearch_added
      exact ⟨hsearch.narrows.trans hadded.narrows, fun term hmem hnegated =>
        (hselects term hmem hnegated).narrows hsearch.narrows⟩

end Terms

end GrowTeam.Narrow
