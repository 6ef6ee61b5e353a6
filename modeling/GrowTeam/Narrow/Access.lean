/-
# What a fetch returns

A fetch returns messages of its base query that all conditions are true of.  With the rows of the
user these are messages that the user has received.  Without them the narrow has a term that
selects channels whose history the user may access, and the messages are in these channels.
-/
import GrowTeam.Narrow.Terms

namespace GrowTeam.Narrow

open Chat List Bool

/-- The user has received the message, or may access the history of its channel. -/
def MayRead (s : Store) (user : UserProfile) (message : Message) : Prop :=
  s.hasUserMessage user.id message.id = true ∨
    ∃ stream ∈ s.streams.rows, stream.realmId = user.realmId ∧
      stream.recipientId = message.recipient.id ∧ s.canAccessStreamHistory user stream = true

section Rows

variable {engine : TextEngine} {s : Store} {user : UserProfile} {m : Message}

/-! ## Ranges -/

variable {rows : List Message} {numBefore numAfter : ℕ} {realmId : ℕ}

theorem mem_lastRows {n : ℕ} (h : m ∈ lastRows rows n) : m ∈ rows := by
  unfold lastRows at h
  split at h
  · exact h
  · exact mem_of_mem_drop h

theorem mem_firstRows {n : ℕ} (h : m ∈ firstRows rows n) : m ∈ rows := by
  unfold firstRows at h
  split at h
  · exact h
  · exact mem_of_mem_take h

theorem mem_visibleRows {n : ℕ} (h : m ∈ visibleRows rows n) : m ∈ rows := by
  unfold visibleRows at h
  split at h
  · exact mem_of_mem_filter h
  · exact h

variable {includeAnchor anchoredToLeft anchoredToRight includeHistory isSearch : Bool}

theorem mem_limitQueryToRange {anchor : ℤ}
    {firstVisibleMessageId : ℕ}
    (h : m ∈ limitQueryToRange rows numBefore numAfter anchor includeAnchor anchoredToLeft
      anchoredToRight firstVisibleMessageId) : m ∈ rows := by
  have hbefore : ∀ (p : Message → Bool) (n : ℕ), m ∈ (rows.filter p).reverse.take n → m ∈ rows :=
    fun p n hm => mem_of_mem_filter (mem_reverse.mp (mem_of_mem_take hm))
  have hafter : ∀ (p : Message → Bool) (n : ℕ), m ∈ (rows.filter p).take n → m ∈ rows :=
    fun p n hm => mem_of_mem_filter (mem_of_mem_take hm)
  unfold limitQueryToRange at h
  dsimp only at h
  split at h
  · rcases mem_append.mp h with h | h
    · exact hbefore _ _ h
    · exact hafter _ _ h
  · split at h
    · exact hbefore _ _ h
    · split at h
      · exact hafter _ _ h
      · exact mem_of_mem_filter h

theorem mem_postProcessLimitedQuery {anchor : ℤ}
    {firstVisibleMessageId : ℕ}

    (h : m ∈ (postProcessLimitedQuery rows numBefore numAfter anchor anchoredToLeft
      anchoredToRight firstVisibleMessageId includeHistory isSearch).rows) : m ∈ rows := by
  have hpart : ∀ (p : Message → Bool) (others : List Message), (∀ m ∈ others, m ∈ rows) →
      m ∈ (if anchoredToRight = true then others
        else (visibleRows rows firstVisibleMessageId).filter p) → m ∈ rows := by
    intro p others hothers hm
    split at hm
    · exact hothers m hm
    · exact mem_visibleRows (mem_of_mem_filter hm)
  rcases mem_append.mp h with h | h
  · rcases mem_append.mp h with h | h
    · exact hpart _ _ (fun m hm => mem_visibleRows hm) (mem_lastRows h)
    · exact hpart _ _ (by simp) h
  · exact hpart _ _ (by simp) (mem_firstRows h)

theorem mem_of_execute {q : Query} (h : q.execute = .ok rows) (hm : m ∈ rows) : m ∈ q.rows := by
  unfold Query.execute at h
  split at h
  · cases h
  · rwa [Except.ok.inj h]

variable {narrow : Option (List NarrowParameter)}

/-- The rows of a fetch are rows of its query. -/
theorem mem_fetchRows {userProfile : Option UserProfile} {query : Query} {isDmNarrow : Bool}
    {anchorInfo : AnchorInfo}
    {clientRequestedMessageIds : Option (List ℕ)} {f : FetchedMessages}
    (h : fetchRows engine s userProfile narrow realmId query isSearch isDmNarrow includeHistory
      anchorInfo includeAnchor numBefore numAfter clientRequestedMessageIds = .ok f)
    (hm : m ∈ f.rows) : m ∈ query.rows := by
  cases clientRequestedMessageIds with
  | some ids =>
    obtain ⟨rows, hrows, h⟩ := bind_eq_ok.mp h
    cases h
    exact Query.Narrows.filtered.rows_subset (mem_of_execute hrows (mem_visibleRows hm))
  | none =>
    obtain ⟨anchor, -, h⟩ := bind_eq_ok.mp h
    cases anchor with
    | none =>
      cases h
      cases hm
    | some anchor =>
      obtain ⟨rows, hrows, h⟩ := bind_eq_ok.mp h
      cases h
      have hlimited := mem_postProcessLimitedQuery hm
      exact mem_of_execute hrows
        (mem_limitQueryToRange ((mem_insertionSort _).mp hlimited))

/-! ## Histories -/

/-- Where the loop ends with history, a term that is not negated has asked for it. -/
theorem term_of_includeHistory {terms : List NarrowParameter}
    (h : terms.foldl (includeHistoryStep engine s user) includeHistory = true) :
    includeHistory = true ∨ ∃ term ∈ terms, term.negated = false ∧
      ((term.operator ∈ channelOperators ∧
          canAccessStreamHistoryByOperand engine s user term.operand = true) ∨
        (term.operator ∈ channelsOperators ∧ term.operand ∈ [.text "public", .text "web-public"] ∧
          user.canAccessPublicStreams = true)) := by
  induction terms generalizing includeHistory with
  | nil => exact .inl h
  | cons term terms ih =>
    rcases ih h with hstep | ⟨term', hmem, hterm'⟩
    · unfold includeHistoryStep at hstep
      split at hstep
      · next hop =>
        exact .inr ⟨term, mem_cons_self, by simpa using hop.2, .inl ⟨hop.1, hstep⟩⟩
      · split at hstep
        · next hop =>
          exact .inr ⟨term, mem_cons_self, by simpa using hop.2.2.1,
            .inr ⟨hop.1, hop.2.1, hop.2.2.2⟩⟩
        · exact .inl hstep
    · exact .inr ⟨term', mem_cons_of_mem _ hmem, hterm'⟩

/-- A channel that was looked up is one of the realm. -/
theorem mem_of_lookup {operand : Operand} {channel : Stream}
    (h : getStreamByNarrowOperandAccessUnchecked engine s operand realmId = some channel) :
    channel ∈ s.streams.rows ∧ channel.realmId = realmId := by
  cases operand with
  | text name =>
    have hfound := find?_some h
    rw [and_eq_true, decide_eq_true_eq] at hfound
    exact ⟨mem_of_find?_eq_some h, hfound.1⟩
  | number id =>
    have hfound := find?_some h
    rw [and_eq_true, decide_eq_true_eq, decide_eq_true_eq] at hfound
    exact ⟨mem_of_find?_eq_some h, hfound.2⟩
  | numbers ids => cases h

/-- Full members may access the history of the channels that `channels:public` and
`channels:web-public` select. -/
theorem history_of_channelsOperand {operand : Operand} {streams : List Stream}
    (hoperand : operand ∈ [.text "public", .text "web-public"])
    (h : channelsOperand s realmId operand = .ok streams)
    (hfull : user.canAccessPublicStreams = true) {stream : Stream} (hs : stream ∈ streams) :
    stream ∈ s.streams.rows ∧ stream.realmId = realmId ∧
      s.canAccessStreamHistory user stream = true := by
  unfold UserProfile.canAccessPublicStreams at hfull
  unfold Tables.canAccessStreamHistory Stream.isPublic
  rcases mem_pair.mp hoperand with rfl | rfl
  · cases h
    obtain ⟨hrow, hp⟩ := mem_filter.mp hs
    rw [and_eq_true, and_eq_true, decide_eq_true_eq] at hp
    refine ⟨hrow, hp.1.1, ?_⟩
    rw [hp.1.2, hfull]
    simp
  · cases h
    obtain ⟨hrow, hp⟩ := mem_filter.mp hs
    rw [and_eq_true, and_eq_true, and_eq_true, decide_eq_true_eq] at hp
    exact ⟨hrow, hp.1.1.1, by rw [if_pos hp.1.1.2]⟩

/-- A message of a query with history is in a channel whose history the user may access. -/
theorem mayRead_of_history {query : Query}
    (hhistory : okToIncludeHistory engine s narrow (some user) false = .ok true)
    (hselects : ∀ term ∈ narrow.getD [], term.negated = false →
      Selects engine s user.realmId query term)
    (hm : m ∈ query.rows) : MayRead s user m := by
  have hfold := Except.ok.inj hhistory
  rw [and_eq_true] at hfold
  obtain ⟨-, hall⟩ := Query.mem_rows.mp hm
  rcases term_of_includeHistory hfold.1 with hfalse | ⟨term, hmem, hnegated, hterm⟩
  · cases hfalse
  · have hterm' := hselects term hmem hnegated
    right
    rcases hterm with ⟨hop, haccess⟩ | ⟨hop, hoperand, hfull⟩
    · obtain ⟨channel, hlookup, hcond⟩ := hterm'.channel hop
      unfold canAccessStreamHistoryByOperand at haccess
      rw [hlookup] at haccess
      obtain ⟨hrow, hrealm⟩ := mem_of_lookup hlookup
      have hin : m.recipient.id = channel.recipientId := by
        simpa [Condition.of] using hall _ hcond
      exact ⟨channel, hrow, hrealm, hin.symm, haccess⟩
    · obtain ⟨streams, hstreams, hcond⟩ := hterm'.channels hop
      have hin : m.recipient.id ∈ streams.map (·.recipientId) := by
        simpa [Condition.of] using hall _ hcond
      obtain ⟨stream, hs, hrecipient⟩ := mem_map.mp hin
      obtain ⟨hrow, hrealm, haccess⟩ := history_of_channelsOperand hoperand hstreams hfull hs
      exact ⟨stream, hrow, hrealm, hrecipient, haccess⟩

/-! ## Fetches -/

/-- **Reads keep to the access rules.**  Each message that a user fetches was received or is in a
channel whose history the user may access, and it is of the user's realm, unless it is one that
a cross-realm bot has received. -/
theorem fetchMessages_mayRead (huser : user ∈ s.users.rows)
    {narrow : Option (List NarrowParameter)} {anchorInfo : Option AnchorInfo}
    {includeAnchor : Bool} {numBefore numAfter : ℕ}
    {clientRequestedMessageIds : Option (List ℕ)} {f : FetchedMessages}
    (h : fetchMessages engine s narrow (some user) user.realmId false anchorInfo includeAnchor
      numBefore numAfter clientRequestedMessageIds = .ok f) :
    ∀ m ∈ f.rows, m ∈ s.messages.rows ∧ MayRead s user m ∧
      (m.realmId = user.realmId ∨
        (user.id ∈ s.crossRealmBots ∧ s.hasUserMessage user.id m.id = true)) := by
  intro m hm
  unfold fetchMessages at h
  split at h
  · cases h
    cases hm
  · obtain ⟨includeHistory, hhistory, h⟩ := bind_eq_ok.mp h
    obtain ⟨base, hbase, h⟩ := bind_eq_ok.mp h
    obtain ⟨⟨query, isSearch, isDmNarrow⟩, hquery, h⟩ := bind_eq_ok.mp h
    obtain ⟨hnarrows, hselects⟩ := addNarrowConditions_spec hquery
    have hrow := mem_fetchRows h hm
    have hsource : m ∈ base.source := (Query.mem_rows.mp (hnarrows.rows_subset hrow)).1
    cases includeHistory with
    | true =>
      cases hbase
      obtain ⟨hmessage, hrealm⟩ := mem_filter.mp hsource
      exact ⟨hmessage, mayRead_of_history hhistory hselects hrow, .inl (of_decide_eq_true hrealm)⟩
    | false =>
      cases hbase
      obtain ⟨hmessage, hp⟩ := mem_filter.mp hsource
      rw [and_eq_true] at hp
      refine ⟨hmessage, .inl hp.1, ?_⟩
      obtain ⟨um, hum, hmine⟩ := any_eq_true.mp hp.1
      rw [and_eq_true, decide_eq_true_eq, decide_eq_true_eq] at hmine
      refine (s.received um hum user huser hmine.1.symm m hmessage hmine.2.symm).imp_right ?_
      exact fun hbot => ⟨hbot, hp.1⟩

end Rows

/-! ## A public channel and a bot of another realm -/

section Examples

/-- Search finds nothing here. -/
def noSearch : TextEngine where
  upper := id
  isdigit := fun text => text.toList.all Char.isDigit
  int := fun text => text.toInt?
  escapeHtml := id
  prepForLikeQuery := id
  ilike := fun _ _ => false
  usingPgroonga := false
  searchPgroonga := fun _ _ => some false
  searchTsvector := fun _ _ => some false

def welcomeBot : UserProfile := ⟨1, 1, true, .member⟩

def newcomer : UserProfile := ⟨2, 2, true, .member⟩

def general : Stream := ⟨4, 2, 9, false, false, true, false, 8, 8⟩

def greeting : Message := ⟨6, 2, ⟨5, .directMessageGroup, 3⟩, "welcome"⟩

def announcement : Message := ⟨7, 2, ⟨9, .stream, 4⟩, "lunch"⟩

theorem users_sorted : ([welcomeBot, newcomer].map UserProfile.id).Pairwise (· < ·) := by decide

theorem messages_sorted : ([greeting, announcement].map Message.id).Pairwise (· < ·) := by decide

theorem general_sorted : ([general].map Stream.id).Pairwise (· < ·) := by decide

theorem general_recipients :
    ∀ t ∈ [general], ∀ t' ∈ [general], t.recipientId = t'.recipientId → t = t' := by decide

theorem messages_channels : ∀ message ∈ [greeting, announcement],
    message.recipient.type = .stream → ∃ t ∈ [general], t.id = message.recipient.typeId ∧
      t.recipientId = message.recipient.id ∧ t.realmId = message.realmId := by decide

theorem greeting_received : ∀ um ∈ [(⟨1, 6⟩ : UserMessage), ⟨2, 6⟩],
    ∀ user ∈ [welcomeBot, newcomer], user.id = um.userProfileId →
      ∀ message ∈ [greeting, announcement], message.id = um.messageId →
        message.realmId = user.realmId ∨ user.id ∈ [1] := by decide

/-- The welcome bot, which is of the system realm, has greeted a newcomer of another realm, who
is not in its public channel. -/
def welcome : Store where
  users := ⟨[welcomeBot, newcomer], users_sorted⟩
  streams := ⟨[general], general_sorted⟩
  messages := ⟨[greeting, announcement], messages_sorted⟩
  userMessages := [⟨1, 6⟩, ⟨2, 6⟩]
  subscriptions := []
  groupMemberships := []
  subgroups := []
  recipients := general_recipients
  channels := messages_channels
  topicName := fun _ => "food"
  dateSent := fun id => id
  senderId := fun _ => 1
  hasAttachment := fun _ => false
  hasImage := fun _ => false
  hasLink := fun _ => false
  reactions := []
  flags := fun _ _ => ⟨false, false, false, false, false, false, false, false⟩
  userTopics := []
  mutedRecipientIds := fun _ => []
  directMessageGroups := []
  streamName := fun _ => "general"
  email := fun id => if id = 1 then "welcome-bot" else "newcomer"
  realmDeactivated := fun _ => false
  crossRealmBots := [1]
  firstVisibleMessageId := fun _ => 0
  received := greeting_received

/-- The newest messages of a narrow. -/
def newest (narrow : List NarrowParameter) (user : UserProfile) :
    Except NarrowError FetchedMessages :=
  fetchMessages noSearch welcome (some narrow) (some user) user.realmId false
    (some (.messageId largerThanMaxMessageId)) true 10 0 none

/-- The newcomer reads the channel without its topic of gossip. -/
theorem fetchMessages_mayRead_newcomer :
    (newest [⟨"channel", .text "general", false⟩, ⟨"topic", .text "gossip", true⟩] newcomer =
        .ok ⟨[announcement], false, true, true, false, some largerThanMaxMessageId, true, false⟩) ∧
      (MayRead welcome newcomer announcement ∧ announcement.realmId = 2) := by
  have hfetch : newest [⟨"channel", .text "general", false⟩, ⟨"topic", .text "gossip", true⟩]
      newcomer = .ok ⟨[announcement], false, true, true, false, some largerThanMaxMessageId, true,
        false⟩ := by decide
  have hread := fetchMessages_mayRead (mem_cons_of_mem _ (mem_singleton.mpr rfl)) hfetch
    announcement (mem_singleton.mpr rfl)
  exact ⟨hfetch, hread.2.1, rfl⟩

/-- The welcome bot fetches its greeting, which is not a message of its realm. -/
theorem fetchMessages_otherRealm : ∃ f, newest [] welcomeBot = .ok f ∧
    ∃ m ∈ f.rows, m.realmId ≠ welcomeBot.realmId :=
  ⟨⟨[greeting], false, true, true, false, some largerThanMaxMessageId, false, false⟩,
    by decide, greeting, mem_singleton.mpr rfl, by decide⟩

end Examples

end GrowTeam.Narrow
