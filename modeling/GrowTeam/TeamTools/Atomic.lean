/-
# What a failed team tool leaves behind

`run` gives a receipt that reports a failure exactly when the handler ends with a `JsonableError`.
Such a handler is torn when it has written before.  For each tool the torn runs are those whose
first failing call comes after a write.
-/
import GrowTeam.TeamTools.Handlers

namespace GrowTeam.TeamTools

open Attempts List Site Fault Team

variable {site : Site} {c : Call} {g : Team → Team} {s : Team} {channel : Channel}

/-- The exception becomes a failed receipt. -/
def Fault.reported : Fault → Prop
  | .jsonable _ => True
  | .raised => False

/-- The calls all succeed. -/
def Site.passes (site : Site) (calls : List Call) : Prop := ∀ c ∈ calls, site.fault c = none

/-- The first of the calls that fails ends with a `JsonableError`. -/
def Site.refuses (site : Site) : List Call → Prop
  | [] => False
  | c :: calls =>
    (∃ text, site.fault c = some (.jsonable text)) ∨ site.fault c = none ∧ site.refuses calls

@[simp] theorem passes_nil : site.passes [] ↔ True := by simp [passes]

@[simp] theorem passes_cons {calls : List Call} :
    site.passes (c :: calls) ↔ site.fault c = none ∧ site.passes calls := by
  simp [passes]

@[simp] theorem refuses_nil : site.refuses [] ↔ False := .rfl

@[simp] theorem refuses_cons {calls : List Call} :
    site.refuses (c :: calls) ↔ (∃ text, site.fault c = some (.jsonable text)) ∨
      site.fault c = none ∧ site.refuses calls := .rfl

/-- What only grows, unless a tool takes subscriptions away. -/
def Team.weight (s : Team) : ℕ :=
  s.channels.length + s.subscriptions.length + s.messages.length

/-! ## One call -/

section Calls

variable {α : Type} {f : Unit → Handler α}

theorem call_of_none (h : site.fault c = none) : site.call c s = (.ok (), s) := by
  rw [call, h]

theorem call_of_some {fault : Fault} (h : site.fault c = some fault) :
    site.call c s = (.error fault, s) := by
  rw [call, h]

theorem write_of_none (h : site.fault c = none) : site.write c g s = (.ok (), g s) := by
  rw [write, h]

theorem write_of_jsonable {text : Text} (h : site.fault c = some (.jsonable text)) :
    site.write c g s = (.error (.jsonable text), s) := by
  rw [write, h]

theorem write_of_raised (h : site.fault c = some .raised) :
    site.write c g s = (.error .raised, if site.committed c then g s else s) := by
  rw [write, h]

theorem tears_call :
    Tears reported (site.call c >>= f) s ↔
      site.fault c = none ∧ Tears reported (f ()) s := by
  cases h : site.fault c with
  | none => simp [tears_bind_of_ok (call_of_none h)]
  | some fault => simp [not_tears_of_error (call_of_some h)]

theorem refuses_call :
    Refuses reported (site.call c >>= f) s ↔
      (∃ text, site.fault c = some (.jsonable text)) ∨
        site.fault c = none ∧ Refuses reported (f ()) s := by
  cases h : site.fault c with
  | none => simp [refuses_bind_of_ok (call_of_none h)]
  | some fault =>
    rw [refuses_bind_of_error (call_of_some h)]
    cases fault <;> simp [reported]

theorem refuses_write :
    Refuses reported (site.write c g >>= f) s ↔
      (∃ text, site.fault c = some (.jsonable text)) ∨
        site.fault c = none ∧ Refuses reported (f ()) (g s) := by
  cases h : site.fault c with
  | none => simp [refuses_bind_of_ok (write_of_none h)]
  | some fault =>
    cases fault with
    | jsonable text =>
      rw [refuses_bind_of_error (write_of_jsonable h)]
      simp [reported]
    | raised =>
      rw [refuses_bind_of_error (write_of_raised h)]
      simp [reported]

/-- A write that adds something is torn where the rest is refused. -/
theorem tears_write (hlt : s.weight < (g s).weight) (hgrows : Grows weight (f ())) :
    Tears reported (site.write c g >>= f) s ↔
      site.fault c = none ∧ Refuses reported (f ()) (g s) := by
  cases h : site.fault c with
  | none => simp [tears_after_write (write_of_none h) hlt hgrows]
  | some fault =>
    cases fault with
    | jsonable text => simp [not_tears_of_error (write_of_jsonable h)]
    | raised => simp [not_tears_of_raised (write_of_raised h) (show ¬ reported .raised from id)]

/-- A write of nothing is as torn as the rest. -/
theorem tears_write_nothing (hsame : g s = s) : Tears reported (site.write c g >>= f) s ↔
    site.fault c = none ∧ Tears reported (f ()) s := by
  cases h : site.fault c with
  | none =>
    have hrun : site.write c g s = (.ok (), s) := by rw [write_of_none h, hsame]
    simp [tears_bind_of_ok hrun]
  | some fault =>
    cases fault with
    | jsonable text => simp [not_tears_of_error (write_of_jsonable h)]
    | raised => simp [not_tears_of_raised (write_of_raised h) (show ¬ reported .raised from id)]

/-- The last write of a handler is not torn. -/
theorem not_tears_last_write (hrest : ¬ Refuses reported (f ()) (g s)) :
    ¬ Tears reported (site.write c g >>= f) s := by
  cases h : site.fault c with
  | none =>
    rintro ⟨hr, -⟩
    exact hrest ((refuses_bind_of_ok (write_of_none h)).mp hr)
  | some fault =>
    cases fault with
    | jsonable text => exact not_tears_of_error (write_of_jsonable h)
    | raised => exact not_tears_of_raised (write_of_raised h) id

/-- After the last write only exceptions of other kinds follow. -/
theorem not_refuses_callRaising (hrest : ¬ Refuses reported (f ()) s) :
    ¬ Refuses reported (site.callRaising c >>= f) s := by
  cases h : site.fault c with
  | none =>
    have hrun : site.callRaising c s = (.ok (), s) := by rw [callRaising, h]
    rw [refuses_bind_of_ok hrun]
    exact hrest
  | some fault =>
    have hrun : site.callRaising c s = (.error .raised, s) := by rw [callRaising, h]
    rw [refuses_bind_of_error hrun]
    exact id

theorem tears_look {f : Team → Handler α} :
    Tears reported (look >>= f) s ↔ Tears reported (f s) s :=
  tears_bind_of_ok rfl

theorem refuses_look {f : Team → Handler α} :
    Refuses reported (look >>= f) s ↔ Refuses reported (f s) s :=
  refuses_bind_of_ok rfl

theorem grows_look : Grows weight (look : Handler Team) := fun _ => le_rfl

theorem grows_call : Grows weight (site.call c) := by
  intro s
  unfold call
  cases site.fault c <;> exact le_rfl

theorem grows_write (hg : ∀ s, s.weight ≤ (g s).weight) : Grows weight (site.write c g) := by
  intro s
  unfold write
  cases site.fault c with
  | none => exact hg s
  | some fault =>
    cases fault with
    | jsonable text => exact le_rfl
    | raised =>
      dsimp only
      split
      · exact hg s
      · exact le_rfl

end Calls

/-! ## The actions -/

variable (sender_id : ℕ) (items : List (Place × Text))

theorem send_fields (s : Team) : (s.send sender_id items).channels = s.channels ∧
      (s.send sender_id items).subscriptions = s.subscriptions ∧
      (s.send sender_id items).messages.length = s.messages.length + items.length := by
  induction items generalizing s with
  | nil => exact ⟨rfl, rfl, rfl⟩
  | cons item rest ih =>
    obtain ⟨place, content⟩ := item
    obtain ⟨hchannels, hsubscriptions, hmessages⟩ := ih
      { s with
        messages := s.messages ++ [⟨freshId (s.messages.map (·.id)), sender_id, place, content⟩] }
    refine ⟨hchannels, hsubscriptions, ?_⟩
    rw [send, hmessages]
    simp only [List.length_append, length_cons, length_nil]
    omega

theorem weight_send (s : Team) : (s.send sender_id items).weight = s.weight + items.length := by
  obtain ⟨hchannels, hsubscriptions, hmessages⟩ := send_fields sender_id items s
  unfold weight
  rw [hchannels, hsubscriptions]
  omega

theorem weight_le_send (s : Team) : s.weight ≤ (s.send sender_id items).weight := by
  rw [weight_send]
  exact Nat.le_add_right _ _

theorem sortedSet_eq_nil {user_ids : List ℕ} : sortedSet user_ids = [] ↔ user_ids = [] := by
  unfold sortedSet
  rw [← length_eq_zero_iff, length_insertionSort, length_eq_zero_iff, dedup_eq_nil]

section Actions

variable {α : Type}

theorem tears_accessStreamById {channel_id : ℕ} {f : Channel → Handler α} :
    Tears reported (accessStreamById site channel_id >>= f) s ↔
      ∃ channel, s.channels.find? (fun channel => channel.id = channel_id) = some channel ∧
        site.fault .accessStreamById = none ∧ Tears reported (f channel) s := by
  cases hfind : s.channels.find? fun channel => channel.id = channel_id with
  | none =>
    have hrun : accessStreamById site channel_id s =
        (.error (.jsonable (site.language (.message "Invalid channel ID"))), s) := by
      show (look >>= _) s = _
      rw [bind_of_ok (look_run s)]
      simp [hfind, refuse]
    simp [not_tears_of_error hrun]
  | some channel =>
    have hrun : accessStreamById site channel_id s =
        (site.call .accessStreamById >>= fun _ => pure channel) s := by
      show (look >>= _) s = _
      rw [bind_of_ok (look_run s)]
      simp [hfind]
    cases h : site.fault .accessStreamById with
    | none =>
      have hok : accessStreamById site channel_id s = (.ok channel, s) := by
        rw [hrun, bind_of_ok (call_of_none h)]
        rfl
      simp [tears_bind_of_ok hok]
    | some fault =>
      have herror : accessStreamById site channel_id s = (.error fault, s) := by
        rw [hrun, bind_of_error (call_of_some h)]
      simp [not_tears_of_error herror]

variable {user_ids : List ℕ} {f : List ℕ → Handler α} {people : List ℕ}

theorem tears_bulkPrincipals : Tears reported (bulkPrincipals site user_ids >>= f) s ↔
      user_ids ≠ [] ∧ site.fault .bulkPrincipalsToUserProfiles = none ∧
        Tears reported (f (sortedSet user_ids)) s := by
  by_cases hne : user_ids = []
  · have hrun : bulkPrincipals site user_ids s = (.error .raised, s) := by
      rw [bulkPrincipals, if_pos hne]
      rfl
    exact iff_of_false (not_tears_of_error hrun) fun h => h.1 hne
  · rw [bulkPrincipals, if_neg hne, bind_bind, tears_call, pure_then]
    exact (and_iff_right hne).symm

theorem refuses_bulkPrincipals (hne : user_ids ≠ []) :
    Refuses reported (bulkPrincipals site user_ids >>= f) s ↔
      (∃ text, site.fault .bulkPrincipalsToUserProfiles = some (.jsonable text)) ∨
        site.fault .bulkPrincipalsToUserProfiles = none ∧
          Refuses reported (f (sortedSet user_ids)) s := by
  rw [bulkPrincipals, if_neg hne, bind_bind, refuses_call, pure_then]

/-- The state with the people subscribed. -/
def Team.subscribe (s : Team) (channel : Channel) (people : List ℕ) : Team :=
  { s with
    subscriptions := s.subscriptions ++
      (s.newcomers channel people).map fun user_id => ⟨channel.id, user_id⟩ }

theorem bulkAddSubscriptions_run (people : List ℕ) :
    bulkAddSubscriptions site channel people s =
      (site.write .bulkAddSubscriptions (fun s => s.subscribe channel people) >>= fun _ =>
        pure (s.newcomers channel people)) s := rfl

theorem subscribe_of_none (h : s.newcomers channel people = []) :
    s.subscribe channel people = s := by
  rw [subscribe, h, map_nil, append_nil]

theorem weight_subscribe (people : List ℕ) :
    (s.subscribe channel people).weight = s.weight + (s.newcomers channel people).length := by
  simp only [weight, subscribe, List.length_append, length_map]
  omega

theorem grows_bulkAddSubscriptions (people : List ℕ) :
    Grows weight (bulkAddSubscriptions site channel people) := by
  intro s
  rw [bulkAddSubscriptions_run]
  refine grows_bind (grows_write ?_) (fun _ => grows_pure _) s
  intro s
  rw [weight_subscribe]
  exact Nat.le_add_right _ _

theorem bulkAddSubscriptions_bind : (bulkAddSubscriptions site channel people >>= f) s =
    (site.write .bulkAddSubscriptions (fun s => s.subscribe channel people) >>= fun _ =>
      f (s.newcomers channel people)) s := by
  have hbind := bind_bind (site.write .bulkAddSubscriptions fun s => s.subscribe channel people)
    (fun _ => pure (s.newcomers channel people)) f
  exact congrFun hbind s

/-- Subscribing people is torn where somebody was subscribed and the rest is refused. -/
theorem tears_bulkAddSubscriptions (hgrows : ∀ l, Grows weight (f l)) :
    Tears reported (bulkAddSubscriptions site channel people >>= f) s ↔
      site.fault .bulkAddSubscriptions = none ∧
        (s.newcomers channel people = [] ∧ Tears reported (f []) s ∨
          s.newcomers channel people ≠ [] ∧ Refuses reported
            (f (s.newcomers channel people)) (s.subscribe channel people)) := by
  rw [tears_congr bulkAddSubscriptions_bind]
  by_cases hnone : s.newcomers channel people = []
  · rw [tears_write_nothing (subscribe_of_none hnone)]
    simp [hnone]
  · have hlt : s.weight < (s.subscribe channel people).weight := by
      rw [weight_subscribe]
      have hpos := length_pos_iff.mpr hnone
      omega
    rw [tears_write hlt (hgrows _)]
    simp [hnone]

theorem refuses_bulkAddSubscriptions :
    Refuses reported (bulkAddSubscriptions site channel people >>= f) s ↔
      (∃ text, site.fault .bulkAddSubscriptions = some (.jsonable text)) ∨
        site.fault .bulkAddSubscriptions = none ∧ Refuses reported
          (f (s.newcomers channel people)) (s.subscribe channel people) := by
  rw [refuses_congr bulkAddSubscriptions_bind, refuses_write]

theorem grows_notifySubscribed (subscribed : List ℕ) :
    Grows weight (notifySubscribed site channel subscribed) := by
  unfold notifySubscribed
  split
  · exact grows_pure _
  · exact grows_write fun s => weight_le_send _ _ s

theorem grows_notifyCreated : Grows weight (notifyCreated site channel) := by
  apply grows_write
  intro s
  split
  · exact weight_le_send _ _ s
  · exact le_rfl

/-! ## The bot posts -/

theorem warns_eq_of_subscriptions {s' : Team} (h : s'.subscriptions = s.subscriptions) :
    s'.warns site channel = s.warns site channel := by
  rw [warns, warns, h]

/-- A channel to which somebody is subscribed needs no warning. -/
theorem warns_of_subscribed {user_id : ℕ} (h : ⟨channel.id, user_id⟩ ∈ s.subscriptions) :
    s.warns site channel = false := by
  have hany : s.subscriptions.any (fun sub => sub.channel_id = channel.id) = true :=
    any_eq_true.mpr ⟨_, h, by simp⟩
  rw [warns, hany]
  simp

/-- After people were subscribed somebody is. -/
theorem warns_subscribe (hne : people ≠ []) :
    (s.subscribe channel people).warns site channel = false := by
  obtain ⟨user_id, hmem⟩ := exists_mem_of_ne_nil people hne
  have hsubscribed : ⟨channel.id, user_id⟩ ∈ (s.subscribe channel people).subscriptions := by
    by_cases hin : s.subscriptions.contains ⟨channel.id, user_id⟩ = true
    · exact mem_append_left _ (contains_iff_mem.mp hin)
    · refine mem_append_right _ (mem_map.mpr ⟨user_id, ?_, rfl⟩)
      exact mem_filter.mpr ⟨hmem, by simpa using hin⟩
  exact warns_of_subscribed hsubscribed

theorem grows_sendPmIfEmptyStream : Grows weight (sendPmIfEmptyStream site channel) := by
  apply grows_bind grows_look
  intro s
  split
  · exact grows_write fun s => weight_le_send _ _ s
  · exact grows_pure _

theorem grows_botPosts (topic content : Text) :
    Grows weight (botPosts site channel topic content) := by
  refine grows_bind grows_call fun _ => grows_bind grows_call fun _ =>
    grows_bind grows_sendPmIfEmptyStream fun _ => grows_bind grows_call fun _ =>
      grows_bind grows_look fun s => grows_bind (grows_write ?_) fun _ => grows_pure _
  exact fun s => weight_le_send _ _ s

variable {topic content : Text} {f : ℕ → Handler α}

/-- **A message of the bot is torn** where the owner was warned and the message is refused. -/
theorem tears_botPosts (hf : ∀ n s, ¬ Refuses reported (f n) s)
    (hgrows : ∀ n, Grows weight (f n)) :
    Tears reported (botPosts site channel topic content >>= f) s ↔
      site.passes [.getClient, .normalizeBody, .sendPmIfEmptyStream] ∧
        s.warns site channel = true ∧ site.refuses [.checkMessage, .doSendMessages] := by
  unfold botPosts sendPmIfEmptyStream
  simp only [bind_bind]
  rw [tears_call, tears_call, tears_look]
  by_cases hwarns : s.warns site channel = true
  · rw [if_pos hwarns, tears_write, refuses_call, refuses_look, refuses_write]
    · simp [pure_then, hf, hwarns, and_assoc]
    · rw [weight_send]
      simp
    · refine grows_bind grows_call fun _ => grows_bind grows_look fun s =>
        grows_bind (grows_write ?_) fun _ => grows_bind (grows_pure _) hgrows
      exact fun s => weight_le_send _ _ s
  · rw [if_neg hwarns, pure_then, tears_call, tears_look]
    have hlast : ¬ Tears reported
        (site.write .doSendMessages
          (fun s => s.send site.bot_user_id [(.topic channel.id topic, content)]) >>= fun _ =>
            pure (freshId (s.messages.map (·.id))) >>= f) s :=
      not_tears_last_write (hf _ _)
    simp [hlast, hwarns]

/-- Without a warning the message is refused by the checks on its way. -/
theorem refuses_botPosts (hf : ∀ n s, ¬ Refuses reported (f n) s)
    (hwarns : s.warns site channel = false) :
    Refuses reported (botPosts site channel topic content >>= f) s ↔
      site.refuses [.getClient, .normalizeBody, .checkMessage, .doSendMessages] := by
  unfold botPosts sendPmIfEmptyStream
  simp only [bind_bind]
  rw [refuses_call, refuses_call, refuses_look, if_neg (by simp [hwarns]), pure_then, refuses_call,
    refuses_look, refuses_write]
  simp [hf, pure_then]

end Actions

/-! ## The tools -/

/-- **A failure after a write.**  The calls up to the write succeed, and the first one that fails
after it ends with a `JsonableError`. -/
def Torn (site : Site) (s : Team) : TeamToolInput → Prop
  | .channelCreate name _ _ subscriber_user_ids =>
    site.passes [.checkStreamName, .checkChannelCreationPermissions, .createStreamIfNeeded] ∧
      s.named site name = none ∧ subscriber_user_ids ≠ [] ∧
      site.refuses [.bulkPrincipalsToUserProfiles, .bulkAddSubscriptions,
        .sendUserSubscribedAndNewChannelNotifications]
  | .channelSubscribe channel_id user_ids =>
    ∃ channel, s.channels.find? (fun channel => channel.id = channel_id) = some channel ∧
      user_ids ≠ [] ∧ s.newcomers channel (sortedSet user_ids) ≠ [] ∧
      site.passes [.accessStreamById, .bulkPrincipalsToUserProfiles,
        .filterStreamAuthorizationForAddingSubscribers, .bulkAddSubscriptions] ∧
      site.refuses [.sendUserSubscribedAndNewChannelNotifications]
  | .topicPost channel_id _ _ =>
    ∃ channel, s.channels.find? (fun channel => channel.id = channel_id) = some channel ∧
      s.warns site channel = true ∧
      site.passes [.accessStreamById, .sendCheck, .getClient, .normalizeBody,
        .sendPmIfEmptyStream] ∧
      site.refuses [.checkMessage, .doSendMessages]
  | .topicAddPerson channel_id _ user_ids =>
    ∃ channel, s.channels.find? (fun channel => channel.id = channel_id) = some channel ∧
      user_ids ≠ [] ∧ s.newcomers channel (sortedSet user_ids) ≠ [] ∧
      site.passes [.accessStreamById, .bulkPrincipalsToUserProfiles,
        .filterStreamAuthorizationForAddingSubscribers, .sendCheck, .bulkAddSubscriptions] ∧
      site.refuses [.sendUserSubscribedAndNewChannelNotifications, .getClient, .normalizeBody,
        .checkMessage, .doSendMessages]
  | _ => False

variable {α : Type}

theorem refuses_notifySubscribed {subscribed : List ℕ} {f : Unit → Handler α}
    (hne : subscribed ≠ []) :
    Refuses reported (notifySubscribed site channel subscribed >>= f) s ↔
      (∃ text, site.fault .sendUserSubscribedAndNewChannelNotifications = some (.jsonable text)) ∨
        site.fault .sendUserSubscribedAndNewChannelNotifications = none ∧
          Refuses reported (f ()) (s.send site.notification_bot_id
            ((subscribed.filter fun user_id =>
              user_id ≠ site.commander_id ∧ ¬ site.is_bot user_id).map
                fun user_id => (.direct user_id, site.notice (.subscribed channel)))) := by
  rw [notifySubscribed, if_neg hne, refuses_write]

theorem refuses_subscribeCreated {subscriber_user_ids : List ℕ}
    {f : List ℕ → Handler α} (hf : ∀ l s, ¬ Refuses reported (f l) s) :
    Refuses reported (subscribeCreated site channel subscriber_user_ids >>= f) s ↔
      subscriber_user_ids ≠ [] ∧
        site.refuses [.bulkPrincipalsToUserProfiles, .bulkAddSubscriptions,
          .sendUserSubscribedAndNewChannelNotifications] := by
  unfold subscribeCreated
  by_cases hne : subscriber_user_ids = []
  · rw [if_pos hne]
    exact iff_of_false (hf _ _) fun h => h.1 hne
  · rw [if_neg hne, bind_bind, refuses_bulkPrincipals hne, bind_bind, refuses_bulkAddSubscriptions,
      bind_bind, notifyCreated, refuses_write, pure_then]
    simp [hf, hne]

theorem grows_bulkPrincipals (user_ids : List ℕ) :
    Grows weight (bulkPrincipals site user_ids) := by
  unfold bulkPrincipals
  split
  · exact fun _ => le_rfl
  · exact grows_bind grows_call fun _ => grows_pure _

theorem grows_subscribeCreated (subscriber_user_ids : List ℕ) :
    Grows weight (subscribeCreated site channel subscriber_user_ids) := by
  unfold subscribeCreated
  split
  · exact grows_pure _
  · exact grows_bind (grows_bulkPrincipals _) fun people =>
      grows_bind (grows_bulkAddSubscriptions people) fun _ =>
        grows_bind grows_notifyCreated fun _ => grows_pure _

theorem tears_channelCreate (name description : Text) (is_private : Bool)
    (subscriber_user_ids : List ℕ) :
    Tears reported (channelCreate site name description is_private subscriber_user_ids) s ↔
      Torn site s (.channelCreate name description is_private subscriber_user_ids) := by
  unfold channelCreate createStreamIfNeeded Torn
  rw [tears_call, tears_call, bind_bind, tears_look]
  cases hnamed : s.named site name with
  | some channel =>
    rw [bind_bind]
    rw [tears_call, pure_then]
    simp [refuse, not_tears_fail, hnamed]
  | none =>
    rw [bind_bind]
    rw [tears_write, pure_then]
    · rw [if_pos rfl, refuses_subscribeCreated]
      · simp [and_assoc, hnamed]
      · exact fun _ _ => not_refuses_pure
    · simp only [weight, List.length_append, length_singleton]
      omega
    · rw [pure_then]
      exact grows_bind (grows_subscribeCreated _) fun _ => grows_pure _

variable (channel_id : ℕ)

theorem tears_channelSubscribe (user_ids : List ℕ) :
    Tears reported (channelSubscribe site channel_id user_ids) s ↔
      Torn site s (.channelSubscribe channel_id user_ids) := by
  unfold channelSubscribe Torn
  rw [tears_accessStreamById]
  refine exists_congr fun channel => and_congr_right fun _ => ?_
  rw [tears_bulkPrincipals, tears_call, tears_bulkAddSubscriptions]
  · have hnotify : Tears reported
        (notifySubscribed site channel [] >>= fun _ => (pure
          (site.language (.subscribed ([] : List ℕ).length (sortedSet user_ids).length channel.name
            ((sortedSet user_ids).length - ([] : List ℕ).length)),
          { channel_id := some channel.id, user_ids := some (orNone []) }) :
            Handler (Text × Objects))) s ↔ False := by
      exact iff_of_false not_tears_pure id
    rw [hnotify]
    by_cases hnew : s.newcomers channel (sortedSet user_ids) = []
    · simp [hnew]
    · rw [refuses_notifySubscribed hnew]
      simp only [passes_cons, passes_nil, refuses_cons, refuses_nil, not_refuses_pure]
      tauto
  · exact fun l => grows_bind (grows_notifySubscribed l) fun _ => grows_pure _

theorem tears_topicPost (topic content : Text) :
    Tears reported (topicPost site channel_id topic content) s ↔
      Torn site s (.topicPost channel_id topic content) := by
  unfold topicPost Torn
  rw [tears_accessStreamById]
  refine exists_congr fun channel => and_congr_right fun _ => ?_
  rw [tears_call, tears_botPosts]
  · simp only [passes_cons, passes_nil]
    tauto
  · exact fun _ _ => not_refuses_pure
  · exact fun _ => grows_pure _

section Invitation

variable {α : Type} {people : List ℕ} {topic content : Text} {f : ℕ → Handler α}

/-- Somebody who is mentioned is subscribed already: no warning is sent, and nothing is torn. -/
theorem not_tears_mention (hne : people ≠ []) (hnew : s.newcomers channel people = [])
    (hf : ∀ n s, ¬ Refuses reported (f n) s) (hgrows : ∀ n, Grows weight (f n)) :
    ¬ Tears reported
      (notifySubscribed site channel [] >>= fun _ => botPosts site channel topic content >>= f)
      s := by
  have hwarns : s.warns site channel = false := by
    rw [← subscribe_of_none hnew]
    exact warns_subscribe hne
  rw [notifySubscribed, if_pos rfl, pure_then, tears_botPosts hf hgrows, hwarns]
  simp

/-- After somebody was subscribed every later call may refuse. -/
theorem refuses_mention (hne : people ≠ []) (hnew : s.newcomers channel people ≠ [])
    (hf : ∀ n s, ¬ Refuses reported (f n) s) :
    Refuses reported
      (notifySubscribed site channel (s.newcomers channel people) >>= fun _ =>
        botPosts site channel topic content >>= f) (s.subscribe channel people) ↔
      site.refuses [.sendUserSubscribedAndNewChannelNotifications, .getClient, .normalizeBody,
        .checkMessage, .doSendMessages] := by
  rw [refuses_notifySubscribed hnew, refuses_botPosts hf]
  · rfl
  · rw [warns_eq_of_subscriptions (send_fields _ _ _).2.1]
    exact warns_subscribe hne

end Invitation

theorem tears_topicAddPerson (topic : Text) (user_ids : List ℕ) :
    Tears reported (topicAddPerson site channel_id topic user_ids) s ↔
      Torn site s (.topicAddPerson channel_id topic user_ids) := by
  unfold topicAddPerson Torn
  rw [tears_accessStreamById]
  refine exists_congr fun channel => and_congr_right fun _ => ?_
  rw [tears_bulkPrincipals, tears_call, tears_call, tears_bulkAddSubscriptions]
  · by_cases hne : user_ids = []
    · simp [hne]
    have hpeople : sortedSet user_ids ≠ [] := fun h => hne (sortedSet_eq_nil.mp h)
    by_cases hnew : s.newcomers channel (sortedSet user_ids) = []
    · refine iff_of_false ?_ fun h => h.2.1 hnew
      intro h
      rcases h.2.2.2.2.2.2 with ⟨-, htears⟩ | ⟨hsome, -⟩
      · exact not_tears_mention hpeople hnew (fun _ _ => not_refuses_pure) (fun _ => grows_pure _)
          htears
      · exact hsome hnew
    · rw [refuses_mention hpeople hnew fun _ _ => not_refuses_pure]
      simp only [passes_cons, passes_nil]
      tauto
  · exact fun l => grows_bind (grows_notifySubscribed l) fun _ =>
      grows_bind (grows_botPosts _ _) fun _ => grows_pure _

/-! ### Tools that write once -/

theorem not_tears_find (query : Text) (kinds : List Kind) :
    ¬ Tears reported (find site query kinds) s := by
  unfold find
  rw [tears_call]
  exact fun h => not_tears_pure h.2

theorem not_tears_channelUnsubscribe (user_ids : List ℕ) :
    ¬ Tears reported (channelUnsubscribe site channel_id user_ids) s := by
  unfold channelUnsubscribe
  rw [tears_accessStreamById]
  rintro ⟨channel, -, -, htears⟩
  rw [tears_bulkPrincipals, tears_call, tears_look] at htears
  refine not_tears_last_write ?_ htears.2.2.2
  refine not_refuses_callRaising ?_
  exact not_refuses_pure

theorem tears_refuseGuest {f : Unit → Handler α} : Tears reported (refuseGuest site >>= f) s ↔
      site.commander_is_guest = false ∧ Tears reported (f ()) s := by
  unfold refuseGuest
  by_cases hguest : site.commander_is_guest = true
  · rw [hguest]
    exact iff_of_false (not_tears_of_error rfl) fun h => Bool.noConfusion h.1
  · rw [if_neg hguest, pure_then]
    simp [hguest]

theorem not_tears_groupCreate (name description : Text) (member_user_ids : List ℕ) :
    ¬ Tears reported (groupCreate site name description member_user_ids) s := by
  unfold groupCreate
  rw [tears_refuseGuest, tears_call, tears_call, tears_call, tears_call]
  intro htears
  refine not_tears_last_write ?_ htears.2.2.2.2.2
  exact not_refuses_pure

/-- A transaction whose value is the end of the handler. -/
theorem not_tears_transaction {α β : Type} (h : Handler α) (f : α → β) :
    ¬ Tears reported (atomically h >>= fun a => pure (f a)) s := by
  cases hs : h s with
  | mk r s' =>
    cases r with
    | ok a =>
      have hrun : atomically h s = (.ok a, s') := by rw [atomically, hs]
      intro ht
      have hpure := (refuses_bind_of_ok hrun).mp ht.1
      exact not_refuses_pure hpure
    | error e =>
      have hrun : atomically h s = (.error e, s) := by rw [atomically, hs]
      exact not_tears_of_error hrun

theorem tears_latestMessageIdInTopic {topic : Text} {f : ℕ → Handler α} :
    Tears reported (latestMessageIdInTopic site channel topic >>= f) s →
      ∃ n, Tears reported (f n) s := by
  unfold latestMessageIdInTopic
  rw [bind_bind, tears_look]
  cases s.messages.filter (inTopic site channel.id topic) with
  | nil => exact fun h => absurd h (not_tears_of_error rfl)
  | cons m rest => exact fun h => ⟨_, h⟩

theorem not_tears_topicResolve (topic : Text) (resolved : Bool) :
    ¬ Tears reported (topicResolve site channel_id topic resolved) s := by
  unfold topicResolve
  rw [tears_accessStreamById]
  rintro ⟨channel, -, -, htears⟩
  obtain ⟨n, htears⟩ := tears_latestMessageIdInTopic htears
  refine not_tears_last_write ?_ htears
  exact not_refuses_pure

theorem not_tears_topicMove (topic new_topic : Text) (new_channel_id : Option ℕ) :
    ¬ Tears reported (topicMove site channel_id topic new_topic new_channel_id) s := by
  unfold topicMove
  rw [tears_accessStreamById]
  rintro ⟨channel, -, -, htears⟩
  obtain ⟨n, htears⟩ := tears_latestMessageIdInTopic htears
  refine not_tears_last_write ?_ htears
  cases new_channel_id.filter fun id => id ≠ channel.id with
  | none => exact not_refuses_pure
  | some id =>
    refine not_refuses_callRaising ?_
    exact not_refuses_pure

theorem tears_handler (site : Site) (tool_input : TeamToolInput) (s : Team) :
    Tears reported (handler site tool_input) s ↔ Torn site s tool_input := by
  cases tool_input with
  | teamFind query kinds => exact iff_of_false (not_tears_find query kinds) id
  | channelCreate name description is_private ids =>
    exact tears_channelCreate name description is_private ids
  | channelSubscribe channel_id ids => exact tears_channelSubscribe channel_id ids
  | channelUnsubscribe channel_id ids =>
    exact iff_of_false (not_tears_channelUnsubscribe channel_id ids) id
  | groupCreate name description ids =>
    exact iff_of_false (not_tears_groupCreate name description ids) id
  | groupAddMembers group_id ids | groupRemoveMembers group_id ids =>
    exact iff_of_false (not_tears_transaction _ _) id
  | topicPost channel_id topic content => exact tears_topicPost channel_id topic content
  | topicAddPerson channel_id topic ids => exact tears_topicAddPerson channel_id topic ids
  | topicResolve channel_id topic resolved =>
    exact iff_of_false (not_tears_topicResolve channel_id topic resolved) id
  | topicMove channel_id topic new_topic new_channel_id =>
    exact iff_of_false (not_tears_topicMove channel_id topic new_topic new_channel_id) id

/-! ## The receipt -/

/-- A receipt reports a failure where the handler ended with a `JsonableError`. -/
theorem failed_receipt_iff (language : Language) (dir : Directory) (tool_input : TeamToolInput)
    (outcome : Except Fault (Text × Objects)) :
    (∃ r, executeTeamTool language dir tool_input outcome = some r ∧ r.succeeded = false) ↔
      ∃ fault, outcome = .error fault ∧ fault.reported := by
  cases outcome with
  | ok result => simp [executeTeamTool]
  | error fault => cases fault <;> simp [executeTeamTool, reported]

/-- **A failed team tool changed nothing**, exactly when it did not fail after a write. -/
theorem failed_unchanged_iff (site : Site) (tool_input : TeamToolInput) (s : Team) :
    (∀ r, (run site tool_input s).1 = some r → r.succeeded = false →
      (run site tool_input s).2 = s) ↔
    ¬ (site.fault .getCommander = none ∧ Torn site s tool_input) := by
  rw [← tears_handler]
  unfold run
  cases site.fault .getCommander with
  | some fault => simp
  | none =>
    have hfailed := failed_receipt_iff site.language site.directory tool_input
      (handler site tool_input s).1
    unfold Tears Refuses
    rw [← hfailed]
    constructor
    · rintro h ⟨-, ⟨r, hr, hfail⟩, hne⟩
      exact hne (h r hr hfail)
    · intro h r hr hfail
      by_contra hne
      exact h ⟨rfl, ⟨r, hr, hfail⟩, hne⟩

/-! ## A subscriber who does not exist -/

/-- A site where somebody among the subscribers does not exist. -/
def strangers : Site where
  fault c := if c = .bulkPrincipalsToUserProfiles then some (.jsonable (lit "No such user")) else none
  committed _ := true
  commander_id := 1
  bot_user_id := 2
  bot_owner_id := 1
  notification_bot_id := 3
  is_bot id := 1 < id && id < 4
  full_name _ := lit "Iago"
  language := english
  directory := ⟨fun _ => none, fun _ => none, fun _ => none⟩
  fold := id
  notice _ := []
  events_topic := lit "channel events"
  send_channel_events_messages := true
  may_remind := false
  matching_people _ := []
  matching_channels _ := []
  matching_groups _ := []
  commander_is_guest := false

/-- The channel exists, and its receipt reports a failure. -/
theorem channel_of_strangers_stays :
    ¬ ∀ (site : Site) (tool_input : TeamToolInput) (s : Team) (r : Receipt),
      tool_input.accepted = true → (run site tool_input s).1 = some r → r.succeeded = false →
        (run site tool_input s).2 = s := by
  intro h
  have hfails : (run strangers (.channelCreate (lit "design") [] false [9])
      ⟨[], [], [], []⟩).1.any (fun r => !r.succeeded) = true := by decide
  have hstays : (run strangers (.channelCreate (lit "design") [] false [9])
      ⟨[], [], [], []⟩).2 ≠ ⟨[], [], [], []⟩ := by decide
  obtain ⟨r, hr, hfailed⟩ := (Option.any_eq_true _ _).mp hfails
  exact hstays (h _ _ _ r (by decide) hr (by simpa using hfailed))

end GrowTeam.TeamTools
