/-
# Whom the selected context reaches

An audience is the set of users who can see something, and whether the web can.  Audiences
are ordered by inclusion, and what a job reads may only flow from a larger audience to a
smaller one.  `require_reference_audience` compares the accepted audience with that of the
whole conversation a message is in; who may read the message is decided message by message.
The difference is named here: it is what the check leaves open.
-/
import GrowTeam.Context.Audience
import Mathlib.Order.Lattice

namespace GrowTeam.Context

open Server (Result bind_eq_ok pure_eq_ok ensure_eq_ok present_eq_ok)
open Chat List Table

variable {site : Site} {t : Tables} {job : Job} {refIds : List Uuid}
  {contextRefs : Table ContextRef.id} {attachments attachments' : Attachments}

/-! ## Audiences and their order -/

/-- Who sees something: which users, and whether the web does. -/
abbrev Audience := Set UserProfile × Prop

/-- The audience a binding stands for. -/
def accepted (t : Tables) (b : AudienceBinding) : Audience :=
  ({user | user ∈ t.users.rows ∧ user.id ∈ b.audienceUserIds}, b.isWebPublic = some true)

/-- The message is in a web-public channel. -/
def WebPublic (t : Tables) (m : Message) : Prop :=
  m.recipient.type = .stream ∧
    ∃ stream, t.streams.get? m.recipient.typeId = some stream ∧ stream.isWebPublic = true

/-- Who may read a message. -/
def readers (t : Tables) (m : Message) : Audience :=
  ({user | t.MayRead user m}, WebPublic t m)

/-- The result holds the text of the message, or a file of it. -/
def Discloses (contextRefs : Table ContextRef.id) (result : List Reference) (m : Message) : Prop :=
  ∃ ref ∈ contextRefs.rows, ref.messageId = some m.id ∧
    (.message ref.id m.id m.content ∈ result ∨
      ∃ attachmentId name size, .attachment ref.id attachmentId name size ∈ result)

/-- What the audience check leaves open about a message of a channel: who is in the audience
only because the channel is web-public, and who has not received the message. -/
def ChannelCovers (t : Tables) (stream : Stream) (m : Message) (user : UserProfile) : Prop :=
  (stream.isPublic = true ∧ user.canAccessPublicStreams = true) ∨
    ((stream.isWebPublic = true → t.hasChannelContentAccessHelper stream user none = true) ∧
      (stream.isHistoryPublicToSubscribers = false → t.hasUserMessage user.id m.id = true))

/-- What the audience check leaves open about a message. -/
def Covers (t : Tables) (m : Message) (user : UserProfile) : Prop :=
  match m.recipient.type with
  | .directMessageGroup => t.hasUserMessage user.id m.id = true
  | .stream => ∀ stream, t.streams.get? m.recipient.typeId = some stream →
      ChannelCovers t stream m user

/-- Each message that a selected reference points at covers the accepted audience. -/
def RefsCover (t : Tables) (contextRefs : Table ContextRef.id) (job : Job) (refIds : List Uuid) :
    Prop :=
  ∀ ref ∈ selectedRefs contextRefs job refIds, ref.kind = .message ∨ ref.kind = .attachment →
    ∀ m ∈ t.messages.rows, ref.messageId = some m.id →
      ∀ b, job.conversation.audienceBinding = some b →
        ∀ user ∈ (accepted t b).1, Covers t m user

/-! ## What the audience check shows -/

theorem validate_ok {b b' : AudienceBinding} (h : validate b = .ok b') : b' = b := by
  unfold validate at h
  simp only [bind_eq_ok, pure_eq_ok] at h
  obtain ⟨_, -, _, -, _, -, _, -, _, -, rfl⟩ := h
  rfl

variable {m : Message} {result : List Reference} {refs : List ContextRef}

theorem accessMessage_ok {user : UserProfile} {id : ℕ} {b : Bool}
    (h : t.accessMessage user id b = .ok m) : t.messages.get? id = some m := by
  unfold Tables.accessMessage at h
  split at h
  · cases h
  · next message hmessage =>
    obtain ⟨allowed, -, h⟩ := bind_eq_ok.mp h
    split at h
    · rw [hmessage]
      exact congrArg some (pure_eq_ok.mp h)
    · cases h

theorem accessAnchor_ok {requester bot : UserProfile} {id : ℕ}
    (h : accessAnchor t requester bot id = .ok m) : t.messages.get? id = some m := by
  unfold accessAnchor at h
  dsimp only at h
  split at h
  · cases h
  · obtain ⟨anchor, hanchor, h⟩ := bind_eq_ok.mp h
    obtain ⟨_, -, h⟩ := bind_eq_ok.mp h
    rw [accessMessage_ok hanchor]
    exact congrArg some (pure_eq_ok.mp h)

theorem liveStream_ok {id realmId : ℕ} {stream : Stream}
    (h : liveStream t id realmId = .ok stream) :
    t.streams.get? id = some stream ∧ stream.realmId = realmId := by
  unfold liveStream at h
  split at h
  · next found hget =>
    cases h
    have hrow := (find_eq_some.mp hget).2.2
    rw [Bool.and_eq_true, decide_eq_true_eq] at hrow
    exact ⟨get?_of_find hget, hrow.1⟩
  · cases h

theorem decide_eq_isSubscribed (userId recipientId : ℕ) :
    decide (userId ∈ (t.subscriptions.filter fun sub =>
      sub.recipientId = recipientId && sub.active).map (·.userProfileId)) =
      t.isSubscribed userId recipientId := by
  rw [Bool.eq_iff_iff]
  unfold Tables.isSubscribed
  simp only [mem_map, mem_filter, any_eq_true, Bool.and_eq_true, decide_eq_true_eq]
  constructor
  · rintro ⟨sub, ⟨hsub, hrecipient, hactive⟩, huser⟩
    exact ⟨sub, hsub, ⟨huser, hactive⟩, hrecipient⟩
  · rintro ⟨sub, hsub, ⟨huser, hactive⟩, hrecipient⟩
    exact ⟨sub, ⟨hsub, hrecipient, hactive⟩, huser⟩

/-- The members of a channel's audience are the active users with content access. -/
theorem mem_streamMembers {realmId : ℕ} {stream : Stream} {members : List ℕ}
    (h : streamMembers t realmId stream = .ok members) {user : UserProfile}
    (huser : user ∈ t.users.rows) (hmem : user.id ∈ members) :
    user.realmId = realmId ∧
      t.userHasContentAccess user stream (t.isSubscribed user.id stream.recipientId) = true := by
  obtain ⟨_, -, h⟩ := bind_eq_ok.mp h
  obtain rfl := pure_eq_ok.mp h
  obtain ⟨member, hmember, hid⟩ := mem_map.mp hmem
  simp only [mem_filter, Bool.and_eq_true, decide_eq_true_eq] at hmember
  obtain ⟨⟨hrow, hrealm, -⟩, haccess⟩ := hmember
  obtain rfl := ext_key hrow huser hid
  refine ⟨hrealm, ?_⟩
  rwa [decide_eq_isSubscribed] at haccess

/-- What the audience of a message says: of a direct message nothing about who has received
it, of a channel message who has content access. -/
theorem currentAudience_ok {conversation : Conversation} {requesterId botId : ℕ}
    {source : AudienceBinding} (h : currentAudience t conversation requesterId botId = .ok source)
    (hm : m ∈ t.messages.rows) (hanchor : conversation.anchorMessageId = some m.id) :
    (m.recipient.type = .directMessageGroup ∧ source.isWebPublic = none) ∨
      ∃ stream, m.recipient.type = .stream ∧
        t.streams.get? m.recipient.typeId = some stream ∧
        source.isWebPublic = some stream.isWebPublic ∧
        ∀ user ∈ t.users.rows, user.id ∈ source.audienceUserIds →
          stream.realmId = user.realmId ∧
            t.userHasContentAccess user stream (t.isSubscribed user.id stream.recipientId) =
              true := by
  obtain ⟨id, hid, h⟩ := bind_eq_ok.mp h
  obtain ⟨requester, -, h⟩ := bind_eq_ok.mp h
  obtain ⟨bot, -, h⟩ := bind_eq_ok.mp h
  obtain ⟨anchor, hfound, h⟩ := bind_eq_ok.mp h
  obtain ⟨⟨members, stream⟩, hmembers, h⟩ := bind_eq_ok.mp h
  have hsource := validate_ok h
  rw [present_eq_ok, hanchor, Option.some.injEq] at hid
  have hrow := get?_eq_some.mp (accessAnchor_ok hfound)
  obtain rfl := ext_key hrow.1 hm (hrow.2.trans hid.symm)
  unfold membersOf at hmembers
  split at hmembers
  · next htype =>
    obtain ⟨stream', hstream, hmembers⟩ := bind_eq_ok.mp hmembers
    obtain ⟨ids, hids, hmembers⟩ := bind_eq_ok.mp hmembers
    cases pure_eq_ok.mp hmembers
    obtain ⟨hget, hrealm⟩ := liveStream_ok hstream
    refine .inr ⟨stream', htype, hget, by rw [hsource]; rfl, ?_⟩
    intro user huser hmem
    rw [hsource] at hmem
    have hmember := mem_streamMembers hids huser hmem
    exact ⟨hrealm.trans hmember.1.symm, hmember.2⟩
  · next htype =>
    cases pure_eq_ok.mp hmembers
    exact .inl ⟨htype, by rw [hsource]; rfl⟩

theorem requireAudience_ok {b : AudienceBinding} (h : requireAudience t job = .ok b) :
    job.conversation.audienceBinding = some b := by
  obtain ⟨binding, hbinding, h⟩ := bind_eq_ok.mp h
  obtain ⟨valid, hvalid, h⟩ := bind_eq_ok.mp h
  obtain ⟨current, -, h⟩ := bind_eq_ok.mp h
  rw [present_eq_ok] at hbinding
  split at h
  · cases h
  · next hsame =>
    obtain rfl := pure_eq_ok.mp h
    rw [hbinding, not_not.mp hsame, validate_ok hvalid]

/-- Where the audience check lets a message through, its readers contain the accepted
audience exactly when the message covers each of its users. -/
theorem accepted_le_readers_iff {b : AudienceBinding} {u : Unit}
    (hb : job.conversation.audienceBinding = some b) (hm : m ∈ t.messages.rows)
    (h : requireReferenceAudience t job m.id = .ok u) :
    accepted t b ≤ readers t m ↔ ∀ user ∈ (accepted t b).1, Covers t m user := by
  obtain ⟨b', hb', h⟩ := bind_eq_ok.mp h
  obtain rfl : b = b' := Option.some.inj (hb.symm.trans (requireAudience_ok hb'))
  obtain ⟨source, hsource, h⟩ := bind_eq_ok.mp h
  rw [ensure_eq_ok, not_or, not_not, not_and, not_not] at h
  obtain ⟨hsubset, hweb⟩ := h
  rw [Prod.le_def]
  rcases currentAudience_ok hsource hm rfl with ⟨htype, hnone⟩ | ⟨stream, htype, hget, hopen, hall⟩
  · -- a direct message: the destination is not web-public, and reading is having received
    have hclosed : (accepted t b).2 ≤ (readers t m).2 := by
      intro hpublic
      rw [hnone] at hweb
      cases hweb hpublic
    have hread : ∀ user, t.MayRead user m ↔ Covers t m user := by
      intro user
      rw [Tables.mayRead_direct htype, Covers, htype]
    simp only [hclosed, and_true]
    exact forall₂_congr fun user _ => hread user
  · have hpublic : (accepted t b).2 ≤ (readers t m).2 := by
      intro haccepted
      have hsome := hweb haccepted
      rw [hopen] at hsome
      exact ⟨htype, stream, hget, Option.some.inj hsome⟩
    have hread : ∀ user ∈ (accepted t b).1, (t.MayRead user m ↔ Covers t m user) := by
      rintro user ⟨huser, hmem⟩
      obtain ⟨hrealm, haccess⟩ := hall user huser (hsubset hmem)
      have hcovers : Covers t m user ↔ ChannelCovers t stream m user := by
        rw [Covers, htype]
        simp only [hget, Option.some.injEq, forall_eq']
      rw [Tables.mayRead_channel htype hget hrealm, hcovers, ChannelCovers]
      rw [Tables.userHasContentAccess_iff] at haccess
      grind
    simp only [hpublic, and_true]
    exact forall₂_congr hread

/-! ## What the loop returns -/

/-- A returned reference comes from a row that passed the audience check of its message. -/
def Returned (t : Tables) (job : Job) (ref : ContextRef) : Reference → Prop
  | .message id messageId text =>
    id = ref.id ∧ ref.kind = .message ∧ ref.messageId = some messageId ∧
      (∃ m ∈ t.messages.rows, m.id = messageId ∧ m.content = text) ∧
      ∃ u, requireReferenceAudience t job messageId = .ok u
  | .attachment id _ _ _ =>
    id = ref.id ∧ ref.kind = .attachment ∧ ∃ messageId, ref.messageId = some messageId ∧
      ∃ u, requireReferenceAudience t job messageId = .ok u
  | .repository id _ => id = ref.id ∧ ref.kind = .repository

theorem selectReference_ok {ref : ContextRef} {reference : Reference}
    (h : selectReference t job ref attachments = .ok (reference, attachments')) :
    Returned t job ref reference := by
  unfold selectReference at h
  split at h
  · next messageId hkind hid =>
    obtain ⟨reference', hselect, h⟩ := bind_eq_ok.mp h
    cases pure_eq_ok.mp h
    obtain ⟨u, hcheck, hselect⟩ := bind_eq_ok.mp hselect
    obtain ⟨requester, -, hselect⟩ := bind_eq_ok.mp hselect
    obtain ⟨message, hmessage, hselect⟩ := bind_eq_ok.mp hselect
    obtain ⟨bot, -, hselect⟩ := bind_eq_ok.mp hselect
    obtain ⟨_, -, hselect⟩ := bind_eq_ok.mp hselect
    cases pure_eq_ok.mp hselect
    obtain ⟨hrow, rfl⟩ := get?_eq_some.mp (accessMessage_ok hmessage)
    exact ⟨rfl, hkind, hid, ⟨message, hrow, rfl, rfl⟩, u, hcheck⟩
  · next attachment hkind _ =>
    obtain ⟨messageId, hid, h⟩ := bind_eq_ok.mp h
    obtain ⟨_, -, h⟩ := bind_eq_ok.mp h
    obtain ⟨u, hcheck, h⟩ := bind_eq_ok.mp h
    obtain ⟨requester, -, h⟩ := bind_eq_ok.mp h
    obtain ⟨_, -, h⟩ := bind_eq_ok.mp h
    obtain ⟨bot, -, h⟩ := bind_eq_ok.mp h
    obtain ⟨_, -, h⟩ := bind_eq_ok.mp h
    cases pure_eq_ok.mp h
    exact ⟨rfl, hkind, messageId, present_eq_ok.mp hid, u, hcheck⟩
  · next hkind =>
    split at h
    · cases h
      exact ⟨rfl, hkind⟩
    · cases h
  · cases h

theorem selectReferences_ok
    (h : selectReferences t job refs attachments = .ok (result, attachments')) :
    List.Forall₂ (Returned t job) refs result := by
  induction refs generalizing attachments result with
  | nil =>
    cases h
    exact .nil
  | cons ref refs ih =>
    obtain ⟨⟨reference, attachments₁⟩, hselect, h⟩ := bind_eq_ok.mp h
    obtain ⟨⟨references, attachments₂⟩, hrest, h⟩ := bind_eq_ok.mp h
    cases pure_eq_ok.mp h
    exact .cons (selectReference_ok hselect) (ih hrest)

/-- The rows of a returned entry that points at a message. -/
theorem selected_of_discloses
    (hrefs : ∀ ref ∈ refs, ref ∈ contextRefs.rows) (hall : List.Forall₂ (Returned t job) refs result)
    (h : Discloses contextRefs result m) :
    ∃ ref ∈ refs, (ref.kind = .message ∨ ref.kind = .attachment) ∧ ref.messageId = some m.id ∧
      ∃ u, requireReferenceAudience t job m.id = .ok u := by
  obtain ⟨row, hrow, hid, hmem⟩ := h
  have hfrom : ∀ entry ∈ result, ∃ ref ∈ refs, Returned t job ref entry := fun entry hentry => by
    obtain ⟨i, hi, rfl⟩ := getElem_of_mem hentry
    have hlen := hall.length_eq
    exact ⟨refs[i], getElem_mem _, hall.get (by omega) hi⟩
  rcases hmem with hmem | ⟨attachmentId, name, size, hmem⟩
  · obtain ⟨ref, href, hkey, hkind, hmessage, -, hcheck⟩ := hfrom _ hmem
    exact ⟨ref, href, .inl hkind, hmessage, hcheck⟩
  · obtain ⟨ref, href, hkey, hkind, messageId, hmessage, hcheck⟩ := hfrom _ hmem
    obtain rfl := ext_key hrow (hrefs ref href) hkey
    cases hmessage.symm.trans hid
    exact ⟨row, href, .inr hkind, hmessage, hcheck⟩

/-- A selected row that points at a message is among what is returned. -/
theorem discloses_of_selected {ref : ContextRef} (hrefs : ∀ ref ∈ refs, ref ∈ contextRefs.rows)
    (hall : List.Forall₂ (Returned t job) refs result) (href : ref ∈ refs)
    (hm : m ∈ t.messages.rows) (hid : ref.messageId = some m.id)
    (hkind : ref.kind = .message ∨ ref.kind = .attachment) : Discloses contextRefs result m := by
  obtain ⟨i, hi, rfl⟩ := getElem_of_mem href
  have hlen := hall.length_eq
  have hentry : Returned t job refs[i] result[i] := hall.get hi (by omega)
  have hmem : result[i] ∈ result := getElem_mem _
  cases h : result[i] with
  | message id messageId text =>
    rw [h] at hentry hmem
    obtain ⟨rfl, -, hmessage, ⟨m', hm', hkey, rfl⟩, -⟩ := hentry
    cases hmessage.symm.trans hid
    obtain rfl := ext_key hm' hm hkey
    exact ⟨refs[i], hrefs _ href, hid, .inl hmem⟩
  | attachment id attachmentId name size =>
    rw [h] at hentry hmem
    obtain ⟨rfl, -⟩ := hentry
    exact ⟨refs[i], hrefs _ href, hid, .inr ⟨attachmentId, name, size, hmem⟩⟩
  | repository id repositoryId =>
    rw [h] at hentry
    rcases hkind with hkind | hkind <;> cases hkind.symm.trans hentry.2

/-- **Whom a message of the selected context reaches.** -/
theorem disclosed_iff {result : List Reference}
    (h : selectedContext site t contextRefs job refIds attachments = .ok (result, attachments')) :
    (∀ m ∈ t.messages.rows, Discloses contextRefs result m →
        ∀ b, job.conversation.audienceBinding = some b → accepted t b ≤ readers t m) ↔
      RefsCover t contextRefs job refIds := by
  obtain ⟨_, -, h⟩ := bind_eq_ok.mp h
  obtain ⟨_, -, h⟩ := bind_eq_ok.mp h
  obtain ⟨_, -, h⟩ := bind_eq_ok.mp h
  obtain ⟨⟨result', attachments₁⟩, hselect, h⟩ := bind_eq_ok.mp h
  obtain ⟨_, -, h⟩ := bind_eq_ok.mp h
  cases pure_eq_ok.mp h
  have hall := selectReferences_ok hselect
  have hrefs : ∀ ref ∈ selectedRefs contextRefs job refIds, ref ∈ contextRefs.rows :=
    fun _ href => mem_of_mem_filter href
  constructor
  · intro hkept ref href hkind m hm hid b hb
    have hdiscloses := discloses_of_selected hrefs hall href hm hid hkind
    obtain ⟨_, -, -, -, u, hcheck⟩ := selected_of_discloses hrefs hall hdiscloses
    exact (accepted_le_readers_iff hb hm hcheck).mp (hkept m hm hdiscloses b hb)
  · intro hcover m hm hdiscloses b hb
    obtain ⟨ref, href, hkind, hid, u, hcheck⟩ := selected_of_discloses hrefs hall hdiscloses
    exact (accepted_le_readers_iff hb hm hcheck).mpr (hcover ref href hkind m hm hid b hb)

/-! ## A late subscriber of a private channel -/

/-- A private channel with protected history: the third subscriber came after the first
message. -/
def lateSubscriber : Tables where
  users :=
    { rows := [⟨1, 1, true, .member⟩, ⟨2, 1, true, .member⟩, ⟨3, 1, true, .member⟩]
      sorted := by decide }
  streams := { rows := [⟨7, 1, 5, false, true, false, false, 90, 91⟩], sorted := by decide }
  messages :=
    { rows := [⟨10, 1, ⟨5, .stream, 7⟩, "before"⟩, ⟨11, 1, ⟨5, .stream, 7⟩, "@bot"⟩]
      sorted := by decide }
  userMessages := [⟨1, 10⟩, ⟨2, 10⟩, ⟨1, 11⟩, ⟨2, 11⟩, ⟨3, 11⟩]
  subscriptions := [⟨1, 5, true⟩, ⟨2, 5, true⟩, ⟨3, 5, true⟩]
  groupMemberships := []
  subgroups := []

/-- The binding of a job asked for at the second message. -/
def lateBinding : AudienceBinding where
  conversationId := 30
  epoch := 1
  realmId := 1
  profileId := 31
  requesterUserId := 1
  botUserId := 2
  anchorMessageId := 11
  recipientId := 5
  streamId := some 7
  inviteOnly := some true
  isWebPublic := some false
  historyPublicToSubscribers := some false
  audienceUserIds := [1, 2, 3]

/-- A job asked for at the second message. -/
def lateJob : Job where
  id := 40
  realmId := 1
  requesterId := 1
  profileId := 31
  botUserId := 2
  repositoryId := none
  sourceMessageId := some 11
  conversation := ⟨30, 1, 31, some 11, 1, some lateBinding⟩
  inputTokens := 1000

/-- References of that job to both messages. -/
def lateRefs : Table ContextRef.id where
  rows := [⟨20, 40, 1, .message, some 10, none, none⟩, ⟨21, 40, 1, .message, some 11, none, none⟩]
  sorted := by decide

/-- A site on which the requester has every grant; a reference takes a hundred bytes. -/
def grantedSite : Site where
  checkAgentAccess := fun _ _ => .ok ()
  canonicalSize := fun result => 100 * result.length

/-- No files. -/
def noAttachments : Attachments := { rows := [], sorted := by decide }

/-- The anchor covers its audience. -/
theorem disclosed_anchor :
    (∀ m ∈ lateSubscriber.messages.rows, Discloses lateRefs [.message 21 11 "@bot"] m →
        ∀ b, lateJob.conversation.audienceBinding = some b →
          accepted lateSubscriber b ≤ readers lateSubscriber m) ↔
      RefsCover lateSubscriber lateRefs lateJob [21] := by
  have hreturned : selectedContext grantedSite lateSubscriber lateRefs lateJob [21] noAttachments =
      .ok ([.message 21 11 "@bot"], noAttachments) := by decide
  exact disclosed_iff hreturned

/-- The first message goes to an audience with a user who may not read it. -/
theorem disclosed_lateSubscriber :
    selectedContext grantedSite lateSubscriber lateRefs lateJob [20] noAttachments =
        .ok ([.message 20 10 "before"], noAttachments) ∧
      ∃ m ∈ lateSubscriber.messages.rows, Discloses lateRefs [.message 20 10 "before"] m ∧
        ¬accepted lateSubscriber lateBinding ≤ readers lateSubscriber m := by
  refine ⟨by decide, ⟨10, 1, ⟨5, .stream, 7⟩, "before"⟩, by decide, ?_, ?_⟩
  · exact ⟨⟨20, 40, 1, .message, some 10, none, none⟩, by decide, rfl, .inl (by decide)⟩
  · intro hle
    have hread : lateSubscriber.MayRead ⟨3, 1, true, .member⟩ ⟨10, 1, ⟨5, .stream, 7⟩, "before"⟩ :=
      hle.1 ⟨by decide, by decide⟩
    exact absurd hread (by decide)

end GrowTeam.Context
