/-
# The newest messages of a view

Every visible message whose event has been processed is in the view, in a response under way, below
the first message of the view, or beyond its last one while the newest is not found (`Sound.place`).
What a response skips between two of its messages has to be in the view or to come (`Sound.skipped`),
and what is beyond a response that has found the newest is remembered by the largest id that is
expected (`Sound.newest`).  Neither is so when an event is discarded that such a response has
skipped, and a message that is put at the top must leave nothing out (`Proper`).
-/
import GrowTeam.MessageList.Whole
import Mathlib.Data.List.Pairwise
import Mathlib.Data.Nat.Cast.Order.Ring

namespace GrowTeam.MessageFetch

open History MessageList List MessageListData View FetchStatus Fetch
open Bool (and_eq_true not_eq_true' eq_false_iff)

variable {d : MessageListData} {messages : List Message} {msg : Message}

/-! ## Lists of messages with ids of the server -/

/-- A whole list without local echoes. -/
structure Served (d : MessageListData) : Prop where
  whole : Whole d
  server : ∀ x ∈ d.allItems, isLocalonlyId x.id = false

theorem Served.sorted (h : Served d) : d.allItems.Pairwise fun a b => a.id < b.id := by
  refine h.whole.order.imp_of_mem fun {a b} ha hb hab => ?_
  exact hab.2 (h.server a ha) (h.server b hb)

theorem isBottom_iff (h : Served d) : d.isBottom msg = true ↔ ∀ x ∈ d.allItems, x.id < msg.id := by
  have hsorted := h.sorted
  unfold isBottom
  cases hlast : d.allItems.getLast? with
  | none =>
    rw [getLast?_eq_none_iff] at hlast
    rw [hlast]
    simp
  | some last =>
    obtain ⟨front, hfront⟩ := getLast?_eq_some_iff.mp hlast
    rw [hfront] at hsorted ⊢
    rw [decide_eq_true_eq]
    constructor
    · intro hlt x hx
      rcases mem_append.mp hx with hx | hx
      · exact lt_trans ((pairwise_append.mp hsorted).2.2 x hx last (mem_singleton_self _)) hlt
      · rwa [mem_singleton.mp hx]
    · exact fun hall => hall last (mem_append_right _ (mem_singleton_self _))

theorem isTop_iff (h : Served d) :
    d.isTop msg = true ↔ d.allItems ≠ [] ∧ ∀ x ∈ d.allItems, msg.id < x.id := by
  have hsorted := h.sorted
  unfold isTop
  cases hall : d.allItems with
  | nil => simp
  | cons first rest =>
    rw [hall] at hsorted
    have hfirst := (pairwise_cons.mp hsorted).1
    rw [and_eq_true, not_eq_true', head?_cons]
    rw [decide_eq_true_eq]
    constructor
    · rintro ⟨-, hlt⟩
      refine ⟨cons_ne_nil _ _, fun x hx => ?_⟩
      rcases mem_cons.mp hx with rfl | hx
      · exact hlt
      · exact lt_trans hlt (hfirst x hx)
    · rintro ⟨-, hlt⟩
      refine ⟨eq_false_iff.mpr fun hbottom => ?_, hlt first mem_cons_self⟩
      have hfirst' := (isBottom_iff h).mp hbottom first (by rw [hall]; exact mem_cons_self)
      exact lt_asymm hfirst' (hlt first mem_cons_self)

theorem Served.placed (h : Served d) (msg : Message) : Placed d msg :=
  fun _ old hold _ => ⟨fun hbottom => (isBottom_iff h).mp hbottom old hold,
    fun htop => ((isTop_iff h).mp htop).2 old hold⟩

/-! ## What is added -/

/-- A message that is new to the list and belongs to it. -/
def New (d : MessageListData) (messages : List Message) (msg : Message) : Prop :=
  msg ∈ messages ∧ d.hash msg.id = none ∧ d.settings.predicate msg = true

theorem mem_valid : msg ∈ d.validNonDuplicatedMessages messages ↔ New d messages msg := by
  unfold validNonDuplicatedMessages New
  rw [mem_filter, and_eq_true, decide_eq_true_eq]

theorem foldl_max (messages : List Message) (start : ℚ) :
    start ≤ messages.foldl (fun maxId msg => if maxId < msg.id then msg.id else maxId) start ∧
      ∀ msg ∈ messages,
        msg.id ≤ messages.foldl (fun maxId msg => if maxId < msg.id then msg.id else maxId) start := by
  induction messages generalizing start with
  | nil => exact ⟨le_refl _, by rintro msg ⟨⟩⟩
  | cons first messages ih =>
    obtain ⟨hstart, hrest⟩ := ih (if start < first.id then first.id else start)
    have hboth : start ≤ (if start < first.id then first.id else start) ∧
        first.id ≤ (if start < first.id then first.id else start) := by
      split
      · next hlt => exact ⟨le_of_lt hlt, le_refl _⟩
      · next hle => exact ⟨le_refl _, not_lt.mp hle⟩
    refine ⟨le_trans hboth.1 hstart, fun msg hmsg => ?_⟩
    rcases mem_cons.mp hmsg with rfl | hmsg
    · exact le_trans hboth.2 hstart
    · exact hrest msg hmsg

theorem le_maxId (hmsg : msg ∈ messages) : msg.id ≤ maxIdForMessages messages :=
  (foldl_max messages 0).2 msg hmsg

theorem foldl_max_lt (messages : List Message) {start bound : ℚ} (hstart : start < bound)
    (h : ∀ msg ∈ messages, msg.id < bound) :
    messages.foldl (fun maxId msg => if maxId < msg.id then msg.id else maxId) start < bound := by
  induction messages generalizing start with
  | nil => exact hstart
  | cons first messages ih =>
    rw [foldl_cons]
    refine ih ?_ fun msg hmsg => h msg (mem_cons_of_mem _ hmsg)
    split
    · exact h first mem_cons_self
    · exact hstart

theorem maxId_lt {bound : ℚ} (hbound : 0 < bound) (h : ∀ msg ∈ messages, msg.id < bound) :
    maxIdForMessages messages < bound :=
  foldl_max_lt messages hbound h

/-- **What `add_messages` does**: all that is new is added, apart from what is at the bottom while
the end of the history is open; and of that the largest id is remembered. -/
structure Adds (d d' : MessageListData) (messages : List Message) (isContiguousHistory : Bool)
    (expected : ℚ) : Prop where
  mem : ∀ msg, msg ∈ d'.allItems ↔ msg ∈ d.allItems ∨ (New d messages msg ∧
    (isContiguousHistory = true ∨ d.fetchStatus.foundNewest = true ∨ d.isBottom msg = false))
  settings : d'.settings = d.settings
  fetchStatus : d'.fetchStatus = { d.fetchStatus with expectedMaxMessageId := expected }
  le : d.fetchStatus.expectedMaxMessageId ≤ expected
  contiguous : isContiguousHistory = true → expected = d.fetchStatus.expectedMaxMessageId
  discarded : ∀ msg, New d messages msg → isContiguousHistory = false →
    d.fetchStatus.foundNewest = false → d.isBottom msg = true → msg.id ≤ expected

theorem addMessages_spec (d : MessageListData) (messages : List Message)
    (isContiguousHistory : Bool) :
    ∃ expected,
      Adds d (d.addMessages messages isContiguousHistory) messages isContiguousHistory expected := by
  unfold addMessages
  dsimp only
  generalize hbottom : (d.validNonDuplicatedMessages messages).filter d.isBottom = bottom
  generalize htop : (d.validNonDuplicatedMessages messages).filter d.isTop = top
  generalize hinterior : ((d.validNonDuplicatedMessages messages).filter fun msg =>
    !d.isBottom msg && !d.isTop msg) = interior
  have hmemBottom : ∀ msg, msg ∈ bottom ↔ New d messages msg ∧ d.isBottom msg = true := by
    intro msg
    rw [← hbottom, mem_filter, mem_valid]
  have hmemRest : ∀ msg, msg ∈ top ∨ msg ∈ interior ↔
      New d messages msg ∧ d.isBottom msg = false := by
    intro msg
    rw [← htop, ← hinterior, mem_filter, mem_filter, mem_valid, and_eq_true, not_eq_true']
    constructor
    · rintro (⟨hnew, hmsgTop⟩ | ⟨hnew, hnot, -⟩)
      · exact ⟨hnew, not_bottom_of_top hmsgTop⟩
      · exact ⟨hnew, hnot⟩
    · rintro ⟨hnew, hnot⟩
      cases hmsgTop : d.isTop msg with
      | true => exact .inl ⟨hnew, rfl⟩
      | false => exact .inr ⟨hnew, hnot, rfl⟩
  have hinner := extends_whenAny interior (d := d) (extends_addAnywhere interior)
  have houter := extends_whenAny top (extends_prepend top
    (d := d.whenAny interior addAnywhere))
  have hmem : ∀ msg, msg ∈ ((d.whenAny interior addAnywhere).whenAny top
      prepend).allItems ↔ msg ∈ d.allItems ∨
        (New d messages msg ∧ d.isBottom msg = false) := by
    intro msg
    rw [houter.mem, hinner.mem, ← or_assoc, hmemRest, or_comm]
  have hstatus := houter.fetchStatus.trans hinner.fetchStatus
  have hsettings := houter.settings.trans hinner.settings
  generalize (d.whenAny interior addAnywhere).whenAny top
    prepend = d₂ at hmem hstatus hsettings
  by_cases hopen : (!isContiguousHistory && !d₂.fetchStatus.foundNewest) = true
  · rw [if_pos hopen]
    rw [and_eq_true, not_eq_true', not_eq_true', hstatus] at hopen
    obtain ⟨hcont, hnotFound⟩ := hopen
    refine ⟨_, ?_, hsettings, congrArg (·.updateExpectedMaxMessageId bottom) hstatus, ?_, ?_, ?_⟩
    · intro msg
      rw [hmem, hcont, hnotFound]
      simp
    · split
      · next hlt => exact le_of_lt hlt
      · exact le_refl _
    · intro htrue
      rw [hcont] at htrue
      cases htrue
    · intro msg hnew _ _ hmsgBottom
      have hle := le_maxId ((hmemBottom msg).mpr ⟨hnew, hmsgBottom⟩)
      split
      · exact hle
      · next hnlt => exact le_trans hle (not_lt.mp hnlt)
  · rw [if_neg hopen]
    have hlast := extends_whenAny bottom (extends_append bottom (d := d₂))
    refine ⟨d.fetchStatus.expectedMaxMessageId, ?_, hlast.settings.trans hsettings,
      hlast.fetchStatus.trans hstatus, le_refl _, fun _ => rfl, ?_⟩
    · intro msg
      rw [hlast.mem, hmem, hmemBottom]
      have hclosed : isContiguousHistory = true ∨ d.fetchStatus.foundNewest = true := by
        rw [hstatus] at hopen
        cases isContiguousHistory with
        | true => exact .inl rfl
        | false =>
          cases hfound : d.fetchStatus.foundNewest with
          | true => exact .inr rfl
          | false =>
            rw [hfound] at hopen
            exact absurd rfl hopen
      cases hmsgBottom : d.isBottom msg with
      | true | false => tauto
    · intro msg _ hcont hnotFound
      rw [hstatus, hcont, hnotFound] at hopen
      exact absurd rfl hopen

theorem Served.addMessages (h : Served d) {isContiguousHistory : Bool}
    (hsorted : messages.Pairwise fun a b => a.id < b.id)
    (hserver : ∀ msg ∈ messages, isLocalonlyId msg.id = false) :
    Served (d.addMessages messages isContiguousHistory) := by
  obtain ⟨expected, hadds⟩ := addMessages_spec d messages isContiguousHistory
  refine ⟨h.whole.addMessages hsorted fun msg _ => h.placed msg, fun x hx => ?_⟩
  rcases (hadds.mem x).mp hx with hx | ⟨hnew, -⟩
  · exact h.server x hx
  · exact hserver x hnew.1

/-! ## What the server answers -/

/-- In the order of the ids. -/
def Sorted (rows : List Message) : Prop := rows.Pairwise fun a b => a.id < b.id

theorem lastOf_suffix (n : ℕ) (rows : List Message) : (lastOf n rows).Sublist rows :=
  drop_sublist _ _

variable {rows : List Message} {fetch : Fetch} {response : Response} {visible : List Message}
  {status : FetchStatus}

variable {b x : Message}

variable {n i : ℕ}

/-- What comes after one of the last is one of the last. -/
theorem mem_lastOf (h : Sorted rows) {a : Message}
    (ha : a ∈ lastOf n rows) (hb : b ∈ rows) (hlt : a.id < b.id) : b ∈ lastOf n rows := by
  rw [Sorted, ← take_append_drop (rows.length - n) rows, pairwise_append] at h
  rw [← take_append_drop (rows.length - n) rows, mem_append] at hb
  rcases hb with hb | hb
  · exact absurd (h.2.2 b hb a ha) (lt_asymm hlt)
  · exact hb

theorem mem_take_of_lt (h : Sorted rows) {a : Message}
    (ha : a ∈ rows.take n) (hb : b ∈ rows) (hlt : b.id < a.id) : b ∈ rows.take n := by
  rw [Sorted, ← take_append_drop n rows, pairwise_append] at h
  rw [← take_append_drop n rows, mem_append] at hb
  rcases hb with hb | hb
  · exact hb
  · exact absurd (h.2.2 a ha b hb) (lt_asymm hlt)

/-- There is nothing before the last ones, or something among them. -/
theorem exists_lastOf (hn : 0 < n) (hb : b ∈ rows) :
    ∃ a, a ∈ lastOf n rows := by
  refine exists_mem_of_ne_nil _ fun hnil => ?_
  have hlength := length_pos_of_mem hb
  unfold lastOf at hnil
  rw [drop_eq_nil_iff] at hnil
  omega

/-- An answer to a query of these options. -/
structure Answers (visible : List Message) (fetch : Fetch) (response : Response) : Prop where
  subset : ∀ x ∈ response.messages, x ∈ visible
  sorted : Sorted response.messages
  noGap : ∀ v ∈ visible, ∀ a ∈ response.messages, ∀ b ∈ response.messages, a.id < v.id →
    v.id < b.id → v ∈ response.messages
  anchor : ∀ x ∈ visible, fetch.anchor = .id x.id → x ∈ response.messages
  ahead : response.foundNewest = true →
    0 < fetch.numAfter ∨ fetch.anchor = .newest ∨ fetch.anchor = .found
  newest : (fetch.numBefore = 0 → fetch.anchor = .oldest ∨ ∃ x ∈ visible, fetch.anchor = .id x.id) →
    response.foundNewest = true → ∀ v ∈ visible, (∀ x ∈ response.messages, x.id < v.id) → False
  oldest : 0 < fetch.numBefore → response.messages = [] → response.foundOldest = true

theorem mem_around {anchor : ℚ} {m : ℕ} : msg ∈ (around rows anchor n m).messages ↔
      msg ∈ lastOf n (rows.filter fun x => x.id < anchor) ∨ (msg ∈ rows ∧ msg.id = anchor) ∨
        msg ∈ (rows.filter fun x => anchor < x.id).take m := by
  unfold around
  rw [mem_append, mem_append, mem_filter, decide_eq_true_eq, or_assoc]

section

variable (hids : visible.Pairwise fun a b => a.id ≠ b.id)

include hids

/-- The anchor is one that the server has found, or that of the fetch. -/
theorem answers_around (anchor : ℚ) (hanchor : ∀ id, fetch.anchor = .id id → id = anchor)
    (holdest : fetch.anchor = .oldest → ∀ v ∈ visible, anchor < v.id)
    (hmessages : response.messages =
      (around (sortById visible) anchor fetch.numBefore fetch.numAfter).messages)
    (hfoundNewest : response.foundNewest =
      (around (sortById visible) anchor fetch.numBefore fetch.numAfter).foundNewest)
    (hfoundOldest : (around (sortById visible) anchor fetch.numBefore
      fetch.numAfter).foundOldest = true → response.foundOldest = true) :
    Answers visible fetch response := by
  have hmem : ∀ x, x ∈ sortById visible ↔ x ∈ visible :=
    fun x => (perm_sortById visible).mem_iff
  have hrows : Sorted (sortById visible) := pairwise_sortById hids
  generalize sortById visible = rows at *
  have hbefore : ∀ x, x ∈ lastOf fetch.numBefore (rows.filter fun x => x.id < anchor) →
      x ∈ rows ∧ x.id < anchor := by
    intro x hx
    have hx := mem_filter.mp ((lastOf_suffix _ _).subset hx)
    exact ⟨hx.1, of_decide_eq_true hx.2⟩
  have hafter : ∀ x, x ∈ (rows.filter fun x => anchor < x.id).take fetch.numAfter →
      x ∈ rows ∧ anchor < x.id := by
    intro x hx
    have hx := mem_filter.mp (mem_of_mem_take hx)
    exact ⟨hx.1, of_decide_eq_true hx.2⟩
  have hsortedBefore : Sorted (rows.filter fun x => x.id < anchor) := hrows.sublist filter_sublist
  have hsortedAfter : Sorted (rows.filter fun x => anchor < x.id) := hrows.sublist filter_sublist
  exact {
    subset := by
      intro x hx
      rw [hmessages, mem_around] at hx
      rcases hx with hx | ⟨hx, -⟩ | hx
      · exact (hmem x).mp (hbefore x hx).1
      · exact (hmem x).mp hx
      · exact (hmem x).mp (hafter x hx).1
    sorted := by
      rw [hmessages]
      refine pairwise_append.mpr ⟨pairwise_append.mpr
        ⟨hsortedBefore.sublist (lastOf_suffix _ _), hrows.sublist filter_sublist, ?_⟩,
          hsortedAfter.sublist (take_sublist _ _), ?_⟩
      · intro a ha b hb
        rw [of_decide_eq_true (mem_filter.mp hb).2]
        exact (hbefore a ha).2
      · intro a ha b hb
        refine lt_of_le_of_lt ?_ (hafter b hb).2
        rcases mem_append.mp ha with ha | ha
        · exact le_of_lt (hbefore a ha).2
        · exact le_of_eq (of_decide_eq_true (mem_filter.mp ha).2)
    noGap := by
      intro v hv a ha b hb hav hvb
      rw [hmessages, mem_around] at ha hb ⊢
      have hin := (hmem v).mpr hv
      rcases lt_trichotomy v.id anchor with hlt | heq | hgt
      · refine .inl (mem_lastOf hsortedBefore (a := a) ?_ ?_ hav)
        · rcases ha with ha | ⟨-, ha⟩ | ha
          · exact ha
          · exact absurd (ha ▸ hav) (lt_asymm hlt)
          · exact absurd (lt_trans (hafter a ha).2 hav) (lt_asymm hlt)
        · exact mem_filter.mpr ⟨hin, decide_eq_true hlt⟩
      · exact .inr (.inl ⟨hin, heq⟩)
      · refine .inr (.inr (mem_take_of_lt hsortedAfter (a := b) ?_ ?_ hvb))
        · rcases hb with hb | ⟨-, hb⟩ | hb
          · exact absurd (lt_trans hvb (hbefore b hb).2) (lt_asymm hgt)
          · exact absurd (hb ▸ hvb) (lt_asymm hgt)
          · exact hb
        · exact mem_filter.mpr ⟨hin, decide_eq_true hgt⟩
    anchor := by
      intro x hx hfetch
      rw [hmessages, mem_around]
      exact .inr (.inl ⟨(hmem x).mpr hx, hanchor _ hfetch⟩)
    ahead := by
      intro hfound
      rw [hfoundNewest] at hfound
      have hlength := of_decide_eq_true hfound
      exact .inl (Nat.lt_of_le_of_lt (Nat.zero_le _) hlength)
    newest := by
      intro hzero hfound v hv habove
      rw [hfoundNewest] at hfound
      have hlength := of_decide_eq_true hfound
      have hall : (rows.filter fun x => anchor < x.id).take fetch.numAfter =
          rows.filter fun x => anchor < x.id := by
        rw [length_take] at hlength
        exact take_of_length_le (by omega)
      have hin := (hmem v).mpr hv
      have hself : v ∉ response.messages := fun hmsg => lt_irrefl _ (habove v hmsg)
      rw [hmessages, mem_around, hall] at hself
      rcases lt_trichotomy v.id anchor with hlt | heq | hgt
      · rcases Nat.eq_zero_or_pos fetch.numBefore with hnone | hpos
        · rcases hzero hnone with hold | ⟨x, hx, hfetch⟩
          · exact lt_asymm hlt (holdest hold v hv)
          · have hxid := hanchor _ hfetch
            have hxmem : x ∈ response.messages := by
              rw [hmessages, mem_around]
              exact .inr (.inl ⟨(hmem x).mpr hx, hxid⟩)
            exact lt_asymm hlt (hxid ▸ habove x hxmem)
        · -- One of the last messages before the anchor is below it, so it is one of them.
          have hcandidate : v ∈ rows.filter fun x => x.id < anchor :=
            mem_filter.mpr ⟨hin, decide_eq_true hlt⟩
          obtain ⟨a, ha⟩ := exists_lastOf hpos hcandidate
          have hamem : a ∈ response.messages := by
            rw [hmessages, mem_around]
            exact .inl ha
          exact hself (.inl (mem_lastOf hsortedBefore ha hcandidate (habove a hamem)))
      · exact hself (.inr (.inl ⟨hin, heq⟩))
      · exact hself (.inr (.inr (mem_filter.mpr ⟨hin, decide_eq_true hgt⟩)))
    oldest := by
      intro hpos hnil
      refine hfoundOldest (decide_eq_true ?_)
      have hempty : lastOf fetch.numBefore (rows.filter fun x => x.id < anchor) = [] := by
        rw [hmessages] at hnil
        exact (append_eq_nil_iff.mp (append_eq_nil_iff.mp hnil).1).1
      rw [hempty]
      exact hpos }

theorem answers_latest (hpos : 0 < fetch.numBefore) (hanchor : fetch.anchor = .newest ∨
      fetch.anchor = .found) :
    Answers visible fetch (latest (sortById visible) fetch.numBefore) := by
  have hmem : ∀ x, x ∈ sortById visible ↔ x ∈ visible :=
    fun x => (perm_sortById visible).mem_iff
  have hrows : Sorted (sortById visible) := pairwise_sortById hids
  generalize sortById visible = rows at *
  exact {
    subset := fun x hx => (hmem x).mp ((lastOf_suffix _ _).subset hx)
    sorted := hrows.sublist (lastOf_suffix _ _)
    noGap := fun v hv a ha b _ hav _ => mem_lastOf hrows ha ((hmem v).mpr hv) hav
    anchor := by
      intro x _ hfetch
      rcases hanchor with hanchor | hanchor
      · rw [hanchor] at hfetch
        cases hfetch
      · rw [hanchor] at hfetch
        cases hfetch
    ahead := fun _ => .inr hanchor
    newest := by
      intro _ _ v hv habove
      obtain ⟨a, ha⟩ := exists_lastOf hpos ((hmem v).mpr hv)
      exact lt_irrefl _ (habove v (mem_lastOf hrows ha ((hmem v).mpr hv) (habove a ha)))
    oldest := by
      intro hpos hnil
      refine decide_eq_true ?_
      have hempty : lastOf fetch.numBefore rows = [] := hnil
      rw [hempty]
      exact hpos }

/-- The server answers what it is asked. -/
theorem answers_fetchMessages (hpos : ∀ v ∈ visible, 0 < v.id)
    (hbefore : fetch.anchor = .newest ∨ fetch.anchor = .found → 0 < fetch.numBefore)
    (found : Option ℚ) : Answers visible fetch
      (fetchMessages visible fetch.anchor fetch.numBefore fetch.numAfter found) := by
  obtain ⟨anchor, numBefore, numAfter, response⟩ := fetch
  cases anchor with
  | id id =>
    refine answers_around hids id ?_ ?_ rfl rfl fun h => h
    · intro id' hid
      exact (Anchor.id.inj hid).symm
    · rintro ⟨⟩
  | oldest =>
    refine answers_around hids 0 ?_ (fun _ => hpos) rfl rfl fun _ => rfl
    rintro id ⟨⟩
  | newest => exact answers_latest hids (hbefore (.inl rfl)) (.inl rfl)
  | found =>
    cases found with
    | none => exact answers_latest hids (hbefore (.inr rfl)) (.inr rfl)
    | some id =>
      refine answers_around hids id ?_ ?_ rfl rfl fun h => h
      · rintro id' ⟨⟩
      · rintro ⟨⟩

end

/-! ## What holds of every state -/

variable {s : View}

/-- The response leaves the message out between two of its own. -/
def Response.Skips (response : Response) (v : Message) : Prop :=
  v ∉ response.messages ∧ (∃ a ∈ response.messages, a.id < v.id) ∧ ∃ b ∈ response.messages, v.id < b.id

/-- A response under way has the message. -/
def View.Coming (s : View) (v : Message) : Prop :=
  ∃ fetch ∈ s.fetches, ∃ response ∈ fetch.response, v ∈ response.messages

/-- The fetch may find the newest message. -/
def Fetch.Ahead (fetch : Fetch) : Prop :=
  0 < fetch.numAfter ∨ fetch.anchor = .newest ∨ fetch.anchor = .found

/-- The message is before the first one of the view. -/
def Below (d : MessageListData) (v : Message) : Prop :=
  d.allItems ≠ [] ∧ ∀ x ∈ d.allItems, v.id < x.id

/-- The message is after the last one of the view, which may be empty. -/
def Beyond (d : MessageListData) (v : Message) : Prop := ∀ x ∈ d.allItems, x.id < v.id

/-- What holds of a fetch that has been answered. -/
structure Answered (s : View) (fetch : Fetch) (response : Response) : Prop where
  subset : ∀ x ∈ response.messages, x ∈ s.visible
  sorted : Sorted response.messages
  skipped : ∀ v ∈ s.visible, response.Skips v → v ∈ s.pending ∨ v ∈ s.data.allItems
  ahead : response.foundNewest = true → fetch.Ahead
  newest : response.foundNewest = true → ∀ v ∈ s.visible, (∀ x ∈ response.messages, x.id < v.id) →
    v ∈ s.pending ∨ v ∈ s.data.allItems ∨ v.id ≤ s.data.fetchStatus.expectedMaxMessageId
  oldest : 0 < fetch.numBefore → response.messages = [] → response.foundOldest = true
  joined : s.data.allItems ≠ [] → ∃ x ∈ response.messages, x ∈ s.data.allItems

/-- What holds of a fetch that has not. -/
structure Asked (s : View) (fetch : Fetch) : Prop where
  last : fetch.anchor = .newest ∨ fetch.anchor = .found → 0 < fetch.numBefore
  first : fetch.numBefore = 0 → fetch.anchor = .oldest ∨ ∃ x ∈ s.visible, fetch.anchor = .id x.id
  joined : s.data.allItems ≠ [] → ∃ x ∈ s.data.allItems, fetch.anchor = .id x.id

structure Sound (s : View) : Prop where
  ids : s.visible.Pairwise fun a b => a.id ≠ b.id
  visible : ∀ v ∈ s.visible, 0 < v.id ∧ isLocalonlyId v.id = false ∧
    s.data.settings.predicate v = true
  pending : ∀ v ∈ s.pending, v ∈ s.visible
  served : Served s.data
  inView : ∀ x ∈ s.data.allItems, x ∈ s.visible
  place : ∀ v ∈ s.visible, v ∉ s.pending → v ∈ s.data.allItems ∨ s.Coming v ∨ Below s.data v ∨
    (Beyond s.data v ∧ s.data.fetchStatus.foundNewest = false)
  answered : ∀ fetch ∈ s.fetches, ∀ response, fetch.response = some response →
    Answered s fetch response
  asked : ∀ fetch ∈ s.fetches, fetch.response = none → Asked s fetch
  /-- An empty view has one fetch under way at most. -/
  alone : s.data.allItems = [] → s.fetches.length ≤ 1 ∧ ∀ fetch ∈ s.fetches, fetch.Ahead
  one : s.fetches.Pairwise fun f g => f.Ahead → ¬g.Ahead
  loading : ∀ fetch ∈ s.fetches, fetch.Ahead →
    s.data.fetchStatus.loadingNewer = true ∨ s.opening = some .recentView
  unfound : ∀ fetch ∈ s.fetches, fetch.Ahead → s.data.fetchStatus.foundNewest = false
  empty : s.data.allItems = [] → s.opening ≠ none →
    s.data.fetchStatus.loadingOlder = true ∨ s.data.fetchStatus.foundOldest = true
  closed : s.opening = none → s.fetches = [] ∧ s.data.allItems = [] ∧
    s.data.fetchStatus.foundNewest = false

theorem sound_start (settings : Settings) (mutes : Mutes) : Sound (.start settings mutes) where
  ids := .nil
  visible := by rintro v ⟨⟩
  pending := by rintro v ⟨⟩
  served := ⟨whole_new settings mutes, by rintro x ⟨⟩⟩
  inView := by rintro x ⟨⟩
  place := by rintro v ⟨⟩
  answered := by rintro fetch ⟨⟩
  asked := by rintro fetch ⟨⟩
  alone := fun _ => ⟨Nat.zero_le _, by rintro fetch ⟨⟩⟩
  one := .nil
  loading := by rintro fetch ⟨⟩
  unfound := by rintro fetch ⟨⟩
  empty := fun _ hopen => absurd rfl hopen
  closed := fun _ => ⟨rfl, rfl, rfl⟩

theorem Sound.eq_of_id (h : Sound s) {y : Message} (hx : x ∈ s.visible) (hy : y ∈ s.visible)
    (hid : x.id = y.id) : x = y := by
  by_contra hne
  have hsymm : Std.Symm fun a b : Message => a.id ≠ b.id := ⟨fun _ _ => Ne.symm⟩
  exact h.ids.forall hx hy hne hid

theorem Sound.new_iff (h : Sound s) (hx : x ∈ s.visible) :
    New s.data messages x ↔ x ∈ messages ∧ x ∉ s.data.allItems := by
  unfold New
  rw [h.served.whole.hash_eq_none]
  constructor
  · rintro ⟨hmem, hnone, -⟩
    exact ⟨hmem, fun hin => hnone x hin rfl⟩
  · rintro ⟨hmem, hout⟩
    refine ⟨hmem, fun y hy hid => ?_, (h.visible x hx).2.2⟩
    exact hout (h.eq_of_id (h.inView y hy) hx hid ▸ hy)

/-! ## Steps -/

/-- A message becomes visible, and its event is to come. -/
theorem Sound.commit (h : Sound s) {id : ℕ} {content : Content} (haccepts : s.accepts id content = true) :
    Sound { s with
      visible := s.visible ++ [⟨id, content⟩]
      pending := s.pending ++ [⟨id, content⟩] } := by
  unfold accepts at haccepts
  rw [and_eq_true, and_eq_true, decide_eq_true_eq, all_eq_true] at haccepts
  obtain ⟨⟨hpos, hpredicate⟩, hfresh⟩ := haccepts
  have hold : ∀ {v : Message}, v ∈ s.visible ++ [⟨id, content⟩] → v ∉ s.pending ++ [⟨id, content⟩] →
      v ∈ s.visible ∧ v ∉ s.pending := by
    intro v hv hnot
    rw [mem_append] at hv hnot
    rw [not_or] at hnot
    exact ⟨hv.resolve_right hnot.2, hnot.1⟩
  exact { h with
    ids := by
      refine pairwise_append.mpr ⟨h.ids, pairwise_singleton _ _, fun v hv w hw => ?_⟩
      rw [mem_singleton.mp hw]
      exact of_decide_eq_true (hfresh v hv)
    visible := by
      intro v hv
      rcases mem_append.mp hv with hv | hv
      · exact h.visible v hv
      · rw [mem_singleton.mp hv]
        refine ⟨Nat.cast_pos.mpr hpos, ?_, hpredicate⟩
        exact decide_eq_false (by simp)
    pending := by
      intro v hv
      rcases mem_append.mp hv with hv | hv
      · exact mem_append_left _ (h.pending v hv)
      · exact mem_append_right _ hv
    inView := fun x hx => mem_append_left _ (h.inView x hx)
    place := by
      intro v hv hnot
      obtain ⟨hv, hnot⟩ := hold hv hnot
      exact h.place v hv hnot
    answered := by
      intro fetch hfetch response hresponse
      have hans := h.answered fetch hfetch response hresponse
      have hmono : ∀ {P : Prop}, ∀ v ∈ s.visible ++ [⟨id, content⟩],
          (v ∈ s.visible → v ∈ s.pending ∨ P) → v ∈ s.pending ++ [⟨id, content⟩] ∨ P := by
        intro P v hv hP
        rcases mem_append.mp hv with hv | hv
        · exact (hP hv).imp_left (mem_append_left _)
        · exact .inl (mem_append_right _ hv)
      exact { hans with
        subset := fun x hx => mem_append_left _ (hans.subset x hx),
        skipped := fun v hv hskips => hmono v hv fun hv => hans.skipped v hv hskips,
        newest := fun hfound v hv habove => hmono v hv fun hv => hans.newest hfound v hv habove }
    asked := by
      intro fetch hfetch hnone
      have hask := h.asked fetch hfetch hnone
      refine ⟨hask.last, fun hzero => (hask.first hzero).imp_right ?_, hask.joined⟩
      rintro ⟨x, hx, hanchor⟩
      exact ⟨x, mem_append_left _ hx, hanchor⟩ }

/-- What is asked of a batch of events.  One that is discarded is not skipped by a response under way.
One that is put at the top leaves nothing out between it and the first message, unless that is still
to come. -/
structure Proper (s : View) (messages : List Message) : Prop where
  discarded : ∀ v ∈ messages, s.data.fetchStatus.foundNewest = false → s.data.isBottom v = true →
    ∀ fetch ∈ s.fetches, ∀ response ∈ fetch.response, ¬response.Skips v
  top : ∀ v ∈ messages, s.data.isTop v = true → ∀ w ∈ s.visible, v.id < w.id →
    (∀ x ∈ s.data.allItems, w.id < x.id) → w ∈ s.pending ∨ s.Coming w

theorem mem_insertNewMessages (hopen : s.opening ≠ none) (h : Sound s)
    (hmessages : ∀ v ∈ messages, v ∈ s.pending) :
    x ∈ (s.insertNewMessages messages).data.allItems ↔ x ∈ s.data.allItems ∨ (x ∈ messages ∧
      (s.data.fetchStatus.foundNewest = true ∨ s.data.isBottom x = false)) := by
  obtain ⟨expected, hadds⟩ := addMessages_spec s.data (sortById messages) false
  unfold insertNewMessages
  rw [if_neg hopen]
  rw [hadds.mem]
  have hnew : ∀ {x}, New s.data (sortById messages) x →
      x ∈ messages := fun hnew => (perm_sortById messages).mem_iff.mp hnew.1
  constructor
  · rintro (hx | ⟨hx, hfalse | hplace⟩)
    · exact .inl hx
    · cases hfalse
    · exact .inr ⟨hnew hx, hplace⟩
  · rintro (hx | ⟨hx, hplace⟩)
    · exact .inl hx
    · by_cases hin : x ∈ s.data.allItems
      · exact .inl hin
      · refine .inr ⟨(h.new_iff (h.pending x (hmessages x hx))).mpr ⟨?_, hin⟩, .inr hplace⟩
        exact (perm_sortById messages).mem_iff.mpr hx

section

variable (h : Sound s)

include h

theorem Sound.insert (hopen : s.opening ≠ none) (hnodup : messages.Nodup)
    (hmessages : ∀ v ∈ messages, v ∈ s.pending) (hproper : Proper s messages) :
    Sound (s.insertNewMessages messages) := by
  let s' := s.insertNewMessages messages
  have hmem := fun x => mem_insertNewMessages (x := x) hopen h hmessages
  obtain ⟨expected, hadds⟩ := addMessages_spec s.data (sortById messages) false
  have hdata : s'.data =
      s.data.addMessages (sortById messages) false := if_neg hopen
  have hstatus := hdata ▸ hadds.fetchStatus
  have hpending : ∀ v, v ∈ s'.pending ↔ v ∈ s.pending ∧ v ∉ messages := by
    intro v
    show v ∈ s.pending.filter _ ↔ _
    simp
  have hgrow : ∀ {x}, x ∈ s.data.allItems → x ∈ s'.data.allItems :=
    fun hx => (hmem _).mpr (.inl hx)
  have hbottom : ∀ {x}, s.data.isBottom x = true ↔ Beyond s.data x := isBottom_iff h.served
  have htop : ∀ {x}, s.data.isTop x = true ↔ Below s.data x := isTop_iff h.served
  -- An event that is not pending any more is in the view, or discarded at the bottom.
  have hprocessed : ∀ v, v ∉ s'.pending →
      v ∉ s'.data.allItems → v ∈ s.pending → v ∈ messages ∧
        s.data.fetchStatus.foundNewest = false ∧ s.data.isBottom v = true := by
    intro v hnot hout hpend
    have hin : v ∈ messages := by
      by_contra hnone
      exact hnot ((hpending v).mpr ⟨hpend, hnone⟩)
    rw [hmem, not_or, not_and, not_or] at hout
    obtain ⟨hfound, hplace⟩ := hout.2 hin
    exact ⟨hin, eq_false_iff.mpr hfound, by simpa using hplace⟩
  have hbeyond : ∀ {v}, Beyond s.data v → s.data.fetchStatus.foundNewest = false →
      Beyond s'.data v := by
    intro v hv hfound x hx
    rcases (hmem x).mp hx with hx | ⟨-, hfound' | hplace⟩
    · exact hv x hx
    · rw [hfound] at hfound'
      cases hfound'
    · rw [eq_false_iff, ne_eq, hbottom, Beyond] at hplace
      push Not at hplace
      obtain ⟨y, hy, hle⟩ := hplace
      exact lt_of_le_of_lt hle (hv y hy)
  have hempty : s'.data.allItems = [] → s.data.allItems = [] := by
    intro hnil
    exact eq_nil_of_subset_nil fun x hx => hnil ▸ hgrow hx
  have hjoined : ∀ fetch ∈ s.fetches, s'.data.allItems ≠ [] →
      s.data.allItems ≠ [] := by
    intro fetch hfetch hne hnil
    obtain ⟨x, hx⟩ := exists_mem_of_ne_nil _ hne
    have hahead := (h.alone hnil).2 fetch hfetch
    rcases (hmem x).mp hx with hx | ⟨-, hfound | hplace⟩
    · rw [hnil] at hx
      cases hx
    · rw [h.unfound fetch hfetch hahead] at hfound
      cases hfound
    · rw [hbottom.mpr (by rw [Beyond, hnil]; rintro x ⟨⟩)] at hplace
      cases hplace
  exact { h with
    visible := by
      rw [hdata, hadds.settings]
      exact h.visible
    pending := fun v hv => h.pending v ((hpending v).mp hv).1
    served := by
      rw [hdata]
      refine h.served.addMessages (pairwise_sortById ?_) fun v hv => ?_
      · refine List.Pairwise.imp_of_mem (fun {a b} ha hb hne hid => hne ?_) hnodup
        exact h.eq_of_id (h.pending a (hmessages a ha)) (h.pending b (hmessages b hb)) hid
      · have hv := (perm_sortById messages).mem_iff.mp hv
        exact (h.visible v (h.pending v (hmessages v hv))).2.1
    inView := by
      intro x hx
      rcases (hmem x).mp hx with hx | ⟨hx, -⟩
      · exact h.inView x hx
      · exact h.pending x (hmessages x hx)
    place := by
      intro v hv hnot
      refine or_iff_not_imp_left.mpr fun hout => ?_
      have hfound' : s'.data.fetchStatus.foundNewest =
          s.data.fetchStatus.foundNewest := by rw [hstatus]
      rw [hfound']
      by_cases hpend : v ∈ s.pending
      · obtain ⟨-, hfound, hplace⟩ := hprocessed v hnot hout hpend
        exact .inr (.inr ⟨hbeyond (hbottom.mp hplace) hfound, hfound⟩)
      · rcases h.place v hv hpend with hin | hcoming | hbelow | ⟨hplace, hfound⟩
        · exact absurd (hgrow hin) hout
        · exact .inl hcoming
        · by_cases hall : ∀ x ∈ s'.data.allItems, v.id < x.id
          · obtain ⟨x, hx⟩ := exists_mem_of_ne_nil _ hbelow.1
            exact .inr (.inl ⟨ne_nil_of_mem (hgrow hx), hall⟩)
          · -- Something is put between it and the first message.
            push Not at hall
            obtain ⟨x, hx, hle⟩ := hall
            rcases (hmem x).mp hx with hold | ⟨hmsg, -⟩
            · exact absurd (hbelow.2 x hold) (not_lt.mpr hle)
            · have hne : x.id ≠ v.id := by
                intro hid
                rw [h.eq_of_id (h.pending x (hmessages x hmsg)) hv hid] at hx
                exact hout hx
              have hlt := lt_of_le_of_ne hle hne
              have hxtop := htop.mpr ⟨hbelow.1, fun y hy => lt_trans hlt (hbelow.2 y hy)⟩
              exact .inl ((hproper.top x hmsg hxtop v hv hlt hbelow.2).resolve_left hpend)
        · exact .inr (.inr ⟨hbeyond hplace hfound, hfound⟩)
    answered := by
      intro fetch hfetch response hresponse
      have hans := h.answered fetch hfetch response hresponse
      refine { hans with
        skipped := fun v hv hskips => ?_, newest := fun hfound v hv habove => ?_,
        joined := fun hne => ?_ }
      · refine or_iff_not_imp_left.mpr fun hnot => ?_
        by_contra hout
        rcases hans.skipped v hv hskips with hpend | hin
        · obtain ⟨hmsg, hfound, hplace⟩ := hprocessed v hnot hout hpend
          exact hproper.discarded v hmsg hfound hplace fetch hfetch response hresponse hskips
        · exact hout (hgrow hin)
      · refine or_iff_not_imp_left.mpr fun hnot => or_iff_not_imp_left.mpr fun hout => ?_
        rw [hstatus]
        rcases hans.newest hfound v hv habove with hpend | hin | hle
        · obtain ⟨hmsg, hfound, hplace⟩ := hprocessed v hnot hout hpend
          refine hadds.discarded v ((h.new_iff hv).mpr ⟨?_, fun hin => hout (hgrow hin)⟩) rfl hfound
            hplace
          exact (perm_sortById messages).mem_iff.mpr hmsg
        · exact absurd (hgrow hin) hout
        · exact le_trans hle hadds.le
      · obtain ⟨x, hx, hin⟩ := hans.joined (hjoined fetch hfetch hne)
        exact ⟨x, hx, hgrow hin⟩
    asked := by
      intro fetch hfetch hnone
      have hask := h.asked fetch hfetch hnone
      refine ⟨hask.last, hask.first, fun hne => ?_⟩
      obtain ⟨x, hin, hanchor⟩ := hask.joined (hjoined fetch hfetch hne)
      exact ⟨x, hgrow hin, hanchor⟩
    alone := fun hnil => h.alone (hempty hnil)
    loading := by
      rw [hstatus]
      exact h.loading
    unfound := by
      rw [hstatus]
      exact h.unfound
    empty := by
      intro hnil
      rw [hstatus]
      exact h.empty (hempty hnil)
    closed := fun hnone => absurd hnone hopen }

/-- Events that are processed before the view is opened. -/
theorem Sound.before (hclosed : s.opening = none) : Sound (s.insertNewMessages messages) := by
  obtain ⟨hfetches, hnil, hfound⟩ := h.closed hclosed
  have hdata : (s.insertNewMessages messages).data = s.data := if_pos hclosed
  have hnone : ∀ fetch, fetch ∉ s.fetches := by
    rw [hfetches]
    rintro fetch ⟨⟩
  exact { h with
    visible := hdata ▸ h.visible
    pending := fun v hv => h.pending v (mem_of_mem_filter hv)
    served := hdata ▸ h.served
    inView := hdata ▸ h.inView
    place := by
      intro v _ _
      rw [hdata]
      refine .inr (.inr (.inr ⟨?_, hfound⟩))
      rw [Beyond, hnil]
      rintro x ⟨⟩
    answered := fun fetch hfetch => absurd hfetch (hnone fetch)
    asked := fun fetch hfetch => absurd hfetch (hnone fetch)
    alone := hdata ▸ h.alone
    loading := hdata ▸ h.loading
    unfound := hdata ▸ h.unfound
    empty := fun _ hopen => absurd hclosed hopen
    closed := fun _ => hdata ▸ ⟨hfetches, hnil, hfound⟩ }

/-- A fetch is started, possibly the one that opens the view. -/
theorem Sound.load {opening : Option Opening}
    (hnone : fetch.response = none) (hask : Asked s fetch) (hopen : opening ≠ none)
    (hsame : opening = s.opening ∨ s.fetches = []) (hfree : fetch.Ahead → ∀ f ∈ s.fetches, ¬f.Ahead)
    (hahead : fetch.Ahead → s.data.fetchStatus.foundNewest = false ∧
      (0 < fetch.numAfter ∨ opening = some .recentView))
    (hempty : s.data.allItems = [] → s.fetches = [] ∧ fetch.Ahead ∧ (0 < fetch.numBefore ∨
      s.data.fetchStatus.loadingOlder = true ∨ s.data.fetchStatus.foundOldest = true)) :
    Sound (loadMessages { s with opening := opening } fetch) := by
  have hstatus : ∀ status : FetchStatus,
      let status' := if 0 < fetch.numBefore then status.startOlderBatch else status
      let status' := if 0 < fetch.numAfter then status'.startNewerBatch else status'
      status'.foundNewest = status.foundNewest ∧ status'.foundOldest = status.foundOldest ∧
        status'.expectedMaxMessageId = status.expectedMaxMessageId ∧
        (status.loadingNewer = true ∨ 0 < fetch.numAfter → status'.loadingNewer = true) ∧
        (status.loadingOlder = true ∨ 0 < fetch.numBefore → status'.loadingOlder = true) := by
    intro status
    by_cases hbefore : 0 < fetch.numBefore <;> by_cases hafter : 0 < fetch.numAfter <;>
      simp [hbefore, hafter, startOlderBatch, startNewerBatch]
  obtain ⟨hfound, hfoundOldest, hexpected, hnewer, holder⟩ := hstatus s.data.fetchStatus
  unfold loadMessages
  have hmem : ∀ f, f ∈ s.fetches ++ [fetch] → f ∈ s.fetches ∨ f = fetch := by
    intro f hf
    rw [mem_append, mem_singleton] at hf
    exact hf
  exact { h with
    served := ⟨⟨h.served.whole.order, h.served.whole.hash, h.served.whole.localOnly,
      h.served.whole.items⟩, h.served.server⟩
    place := by
      intro v hv hnot
      rcases h.place v hv hnot with hin | ⟨f, hf, response, hresponse, hin⟩ | hbelow | ⟨hbeyond, hopen'⟩
      · exact .inl hin
      · exact .inr (.inl ⟨f, mem_append_left _ hf, response, hresponse, hin⟩)
      · exact .inr (.inr (.inl hbelow))
      · exact .inr (.inr (.inr ⟨hbeyond, hfound.trans hopen'⟩))
    answered := by
      intro f hf response hresponse
      rcases hmem f hf with hf | rfl
      · have hans := h.answered f hf response hresponse
        refine { hans with newest := fun hnew v hv habove => ?_ }
        rw [hexpected]
        exact hans.newest hnew v hv habove
      · rw [hnone] at hresponse
        cases hresponse
    asked := by
      intro f hf hresponse
      rcases hmem f hf with hf | rfl
      · have hask := h.asked f hf hresponse
        exact { hask with }
      · exact { hask with }
    alone := by
      intro hnil
      obtain ⟨hfetches, hself, -⟩ := hempty hnil
      rw [hfetches]
      refine ⟨Nat.le_refl 1, fun f hf => ?_⟩
      rw [nil_append, mem_singleton] at hf
      rw [hf]
      exact hself
    one := by
      refine pairwise_append.mpr ⟨h.one, pairwise_singleton _ _, fun f hf g hg => ?_⟩
      rw [mem_singleton.mp hg]
      exact fun hfa hga => hfree hga f hf hfa
    loading := by
      intro f hf hfa
      rcases hmem f hf with hold | rfl
      · rcases hsame with rfl | hfetches
        · exact (h.loading f hold hfa).imp_left fun hl => hnewer (.inl hl)
        · rw [hfetches] at hold
          cases hold
      · exact (hahead hfa).2.imp_left fun hpos => hnewer (.inr hpos)
    unfound := by
      intro f hf hfa
      rcases hmem f hf with hf | rfl
      · exact hfound.trans (h.unfound f hf hfa)
      · exact hfound.trans (hahead hfa).1
    empty := by
      intro hnil _
      rcases (hempty hnil).2.2 with hpos | hl | hf
      · exact .inl (holder (.inr hpos))
      · exact .inl (holder (.inl hl))
      · exact .inr (hfoundOldest.trans hf)
    closed := fun hclosed => absurd hclosed hopen }

theorem Sound.openView (hclosed : s.opening = none) (opening : Opening) :
    Sound (loadMessages { s with opening := some opening } opening.fetch) := by
  obtain ⟨hfetches, hnil, hfound⟩ := h.closed hclosed
  have hfetch : opening.fetch.response = none ∧ 0 < opening.fetch.numBefore ∧
      (0 < opening.fetch.numAfter ∨
        (some opening = some .recentView ∧ opening.fetch.anchor = .newest)) := by
    cases opening with
    | narrow anchor | aroundAnchor anchor =>
      exact ⟨rfl, by simp [Opening.fetch], .inl (by simp [Opening.fetch])⟩
    | recentView => exact ⟨rfl, by simp [Opening.fetch], .inr ⟨rfl, rfl⟩⟩
  obtain ⟨hnone, hpos, hafter⟩ := hfetch
  refine h.load hnone ⟨fun _ => hpos, fun hzero => ?_, fun hne => absurd hnil hne⟩ (by simp)
    (.inr hfetches) (fun _ f hf => ?_) (fun _ => ⟨hfound, hafter.imp_right And.left⟩)
    fun _ => ⟨hfetches, hafter.imp_right fun hrecent => .inl hrecent.2, .inl hpos⟩
  · rw [hzero] at hpos
    cases hpos
  · rw [hfetches] at hf
    cases hf

theorem Sound.loadOlder (hopen : s.opening ≠ none) {numBefore : ℕ}
    (hpos : numBefore ≠ 0) : Sound (s.maybeLoadOlderMessages numBefore) := by
  unfold maybeLoadOlderMessages
  dsimp only
  split
  · next hcan =>
    rw [and_eq_true, not_eq_true', not_eq_true'] at hcan
    have hne : s.data.allItems ≠ [] := by
      intro hnil
      rcases h.empty hnil hopen with hl | hf
      · rw [hcan.1] at hl
        cases hl
      · rw [hcan.2] at hf
        cases hf
    obtain ⟨first, rest, hall⟩ := exists_cons_of_ne_nil hne
    have hanchor : s.backfillAnchor = .id first.id := by
      unfold backfillAnchor
      rw [hall]
      rfl
    have hbehind : ¬Fetch.Ahead ⟨s.backfillAnchor, numBefore, 0, none⟩ := by
      rw [hanchor]
      rintro (hlt | hbad | hbad)
      · cases hlt
      · cases hbad
      · cases hbad
    refine h.load rfl ⟨fun _ => Nat.pos_of_ne_zero hpos, fun hzero => absurd hzero hpos,
      fun _ => ⟨first, by rw [hall]; exact mem_cons_self, hanchor⟩⟩ hopen (.inl rfl)
      (fun hahead => absurd hahead hbehind) (fun hahead => absurd hahead hbehind)
      fun hnil => absurd hnil hne
  · exact h

theorem Sound.loadNewer (hopen : s.opening ≠ none)
    (hfeed : s.opening ≠ some .recentView) : Sound s.maybeLoadNewerMessages := by
  unfold maybeLoadNewerMessages
  dsimp only
  split
  · next hcan =>
    rw [and_eq_true, not_eq_true', not_eq_true'] at hcan
    have hfree : ∀ f ∈ s.fetches, ¬f.Ahead := by
      intro f hf hfa
      rcases h.loading f hf hfa with hl | hrecent
      · rw [hcan.1] at hl
        cases hl
      · exact hfeed hrecent
    have hahead : Fetch.Ahead ⟨s.frontfillAnchor, 0, 100, none⟩ := .inl (by simp)
    have hanchor : (s.data.allItems = [] ∧ s.frontfillAnchor = .oldest) ∨
        ∃ last ∈ s.data.allItems, s.frontfillAnchor = .id last.id := by
      unfold frontfillAnchor
      cases hlast : s.data.allItems.getLast? with
      | none => exact .inl ⟨getLast?_eq_none_iff.mp hlast, rfl⟩
      | some last => exact .inr ⟨last, mem_of_getLast? hlast, rfl⟩
    have hfetches : s.data.allItems = [] → s.fetches = [] := by
      intro hnil
      refine eq_nil_iff_forall_not_mem.mpr fun f hf => ?_
      exact hfree f hf ((h.alone hnil).2 f hf)
    refine h.load rfl ⟨?_, fun _ => ?_, fun hne => ?_⟩ hopen (.inl rfl) (fun _ => hfree)
      (fun _ => ⟨hcan.2, .inl (by simp)⟩) fun hnil =>
        ⟨hfetches hnil, hahead, .inr (h.empty hnil hopen)⟩
    · rcases hanchor with ⟨-, hold⟩ | ⟨last, -, hid⟩
      · rw [hold]
        rintro (hbad | hbad) <;> cases hbad
      · rw [hid]
        rintro (hbad | hbad) <;> cases hbad
    · rcases hanchor with ⟨-, hold⟩ | ⟨last, hlast, hid⟩
      · exact .inl hold
      · exact .inr ⟨last, h.inView last hlast, hid⟩
    · rcases hanchor with ⟨hnil, -⟩ | ⟨last, hlast, hid⟩
      · exact absurd hnil hne
      · exact ⟨last, hlast, hid⟩
  · exact h

end

theorem map_modify_of_eq {α β : Type} {l : List α} {g : α → α} {k : α → β}
    (hg : ∀ x, k (g x) = k x) : (l.modify i g).map k = l.map k := by
  refine ext_getElem? fun j => ?_
  rw [getElem?_map, getElem?_map, getElem?_modify]
  cases l[j]? with
  | none => rfl
  | some x =>
    show some (k (if i = j then g x else x)) = some (k x)
    split
    · rw [hg]
    · rfl

/-- `Ahead` is about the options of a fetch. -/
def Fetch.options (fetch : Fetch) : Anchor × ℕ × ℕ := (fetch.anchor, fetch.numBefore, fetch.numAfter)

theorem ahead_congr {f g : Fetch} (h : f.options = g.options) : f.Ahead ↔ g.Ahead := by
  obtain ⟨anchor, numBefore, numAfter, response⟩ := f
  obtain ⟨rfl, hrest⟩ := Prod.mk.inj h
  obtain ⟨-, rfl⟩ := Prod.mk.inj hrest
  exact .rfl

/-- The server answers a fetch. -/
theorem Sound.answer (h : Sound s) (i : ℕ) (found : Option ℚ) :
    Sound (step (.answer i found) s).2 := by
  have hget : ∀ f', f' ∈ (step (.answer i found) s).2.fetches → f' ∈ s.fetches ∨
      ∃ f ∈ s.fetches, f.response = none ∧ f' = { f with
        response := some (fetchMessages s.visible f.anchor f.numBefore f.numAfter found) } := by
    intro f' hf'
    obtain ⟨j, hj⟩ := mem_iff_getElem?.mp hf'
    replace hj : (s.fetches.modify i _)[j]? = some f' := hj
    rw [getElem?_modify] at hj
    obtain ⟨f, hf, rfl⟩ := Option.map_eq_some_iff.mp hj
    have hin := mem_of_getElem? hf
    split
    · split
      · exact .inl hin
      · next hnone => exact .inr ⟨f, hin, Option.not_isSome_iff_eq_none.mp hnone, rfl⟩
    · exact .inl hin
  have hkeep : ∀ f ∈ s.fetches, f.response ≠ none → f ∈ (step (.answer i found) s).2.fetches := by
    intro f hf hsome
    obtain ⟨j, hj⟩ := mem_iff_getElem?.mp hf
    refine mem_iff_getElem?.mpr ⟨j, ?_⟩
    show (s.fetches.modify i _)[j]? = some f
    rw [getElem?_modify, hj, Option.map_eq_map, Option.map_some]
    split
    · rw [if_pos (Option.isSome_iff_ne_none.mpr hsome)]
    · rfl
  have hoptions : (step (.answer i found) s).2.fetches.map options =
      s.fetches.map options := by
    refine map_modify_of_eq fun f => ?_
    split
    · rfl
    · rfl
  have hahead : ∀ f' ∈ (step (.answer i found) s).2.fetches, f'.Ahead →
      ∃ f ∈ s.fetches, f.Ahead := by
    intro f' hf' hfa
    rcases hget f' hf' with hf | ⟨f, hf, -, rfl⟩
    · exact ⟨f', hf, hfa⟩
    · exact ⟨f, hf, (ahead_congr rfl).mp hfa⟩
  exact { h with
    place := by
      intro v hv hnot
      refine (h.place v hv hnot).imp_right (Or.imp_left ?_)
      rintro ⟨f, hf, response, hresponse, hin⟩
      exact ⟨f, hkeep f hf (by rw [hresponse]; simp), response, hresponse, hin⟩
    answered := by
      intro f' hf' response hresponse
      rcases hget f' hf' with hf | ⟨f, hf, hnone, rfl⟩
      · have hans := h.answered f' hf response hresponse
        exact { hans with }
      · have hask := h.asked f hf hnone
        have hans := answers_fetchMessages h.ids (fun v hv => (h.visible v hv).1) hask.last found
        cases hresponse
        refine { hans with skipped := ?_, newest := ?_, joined := ?_ }
        · rintro v hv ⟨hout, ⟨a, ha, hav⟩, b, hb, hvb⟩
          exact absurd (hans.noGap v hv a ha b hb hav hvb) hout
        · exact fun hfound v hv habove => absurd habove (hans.newest hask.first hfound v hv)
        · intro hne
          obtain ⟨x, hx, hanchor⟩ := hask.joined hne
          exact ⟨x, hans.anchor x (h.inView x hx) hanchor, hx⟩
    asked := by
      intro f' hf' hnone
      rcases hget f' hf' with hf | ⟨f, -, -, rfl⟩
      · have hask := h.asked f' hf hnone
        exact { hask with }
      · cases hnone
    alone := by
      intro hnil
      obtain ⟨hlength, hall⟩ := h.alone hnil
      refine ⟨?_, fun f' hf' => ?_⟩
      · rw [← length_map (f := options), hoptions, length_map]
        exact hlength
      · rcases hget f' hf' with hf | ⟨f, hf, -, rfl⟩
        · exact hall f' hf
        · exact (ahead_congr rfl).mp (hall f hf)
    one := by
      have hiff : ∀ l : List Fetch, (l.Pairwise fun f g => f.Ahead → ¬g.Ahead) ↔
          (l.map options).Pairwise fun o o' =>
            (∀ f, options f = o → f.Ahead) → ∀ g, options g = o' → ¬g.Ahead := by
        intro l
        rw [pairwise_map]
        refine List.Pairwise.iff fun {f g} => ?_
        constructor
        · intro hfg hf g' hg' hga
          exact hfg (hf f rfl) ((ahead_congr hg').mp hga)
        · intro hfg hfa
          exact hfg (fun f' hf' => (ahead_congr hf').mpr hfa) g rfl
      rw [hiff, hoptions, ← hiff]
      exact h.one
    loading := by
      intro f' hf' hfa
      obtain ⟨f, hf, hfa⟩ := hahead f' hf' hfa
      exact h.loading f hf hfa
    unfound := by
      intro f' hf' hfa
      obtain ⟨f, hf, hfa⟩ := hahead f' hf' hfa
      exact h.unfound f hf hfa
    closed := by
      intro hclosed
      obtain ⟨hfetches, hrest⟩ := h.closed hclosed
      refine ⟨?_, hrest⟩
      show s.fetches.modify i _ = []
      rw [hfetches]
      cases i with
      | zero => rfl
      | succ i => rfl }

/-- A fetch that was not answered is given up. -/
theorem Sound.refuse (h : Sound s) (hfetch : s.fetches[i]? = some fetch)
    (hnone : fetch.response = none) : Sound { s with fetches := s.fetches.eraseIdx i } := by
  have hsub : (s.fetches.eraseIdx i).Sublist s.fetches := eraseIdx_sublist _ _
  exact { h with
    place := by
      intro v hv hnot
      refine (h.place v hv hnot).imp_right (Or.imp_left ?_)
      rintro ⟨f, hf, response, hresponse, hin⟩
      refine ⟨f, ?_, response, hresponse, hin⟩
      obtain ⟨j, hj⟩ := mem_iff_getElem?.mp hf
      refine mem_eraseIdx_iff_getElem?.mpr ⟨j, fun hji => ?_, hj⟩
      rw [hji, hfetch] at hj
      cases hj
      rw [hnone] at hresponse
      cases hresponse
    answered := by
      intro f hf response hresponse
      have hans := h.answered f (hsub.subset hf) response hresponse
      exact { hans with }
    asked := by
      intro f hf hresponse
      have hask := h.asked f (hsub.subset hf) hresponse
      exact { hask with }
    alone := fun hnil => ⟨Nat.le_trans hsub.length_le (h.alone hnil).1,
      fun f hf => (h.alone hnil).2 f (hsub.subset hf)⟩
    one := h.one.sublist hsub
    loading := fun f hf => h.loading f (hsub.subset hf)
    unfound := fun f hf => h.unfound f (hsub.subset hf)
    closed := by
      intro hclosed
      obtain ⟨hfetches, hrest⟩ := h.closed hclosed
      refine ⟨?_, hrest⟩
      rw [hfetches]
      rfl }

/-! ## A response arrives -/

/-- The status after a response. -/
def receivedStatus (status : FetchStatus) (fetch : Fetch) (response : Response) : FetchStatus :=
  let currentFetchFoundOldest := !status.foundOldest && response.foundOldest
  let currentFetchFoundNewest := !status.foundNewest && response.foundNewest
  let status := if decide (0 < fetch.numBefore) || currentFetchFoundOldest then
    status.finishOlderBatch response.foundOldest false else status
  if decide (0 < fetch.numAfter) || currentFetchFoundNewest then
    (status.finishNewerBatch response.messages response.foundNewest).2 else status

theorem getMessagesSuccess_eq (s : View) (fetch : Fetch) (response : Response) :
    s.getMessagesSuccess fetch response = if response.messages = [] then
      { s.data with fetchStatus := receivedStatus s.data.fetchStatus fetch response }
    else addMessages
      { s.data with fetchStatus := receivedStatus s.data.fetchStatus fetch response }
        response.messages true := rfl

theorem getMessagesSuccess_spec (s : View) (fetch : Fetch) (response : Response) :
    ∃ expected, Adds { s.data with fetchStatus := receivedStatus s.data.fetchStatus fetch response }
      (s.getMessagesSuccess fetch response) response.messages true expected := by
  rw [getMessagesSuccess_eq]
  split
  · next hnil =>
    rw [hnil]
    refine ⟨_, fun msg => ?_, rfl, rfl, le_refl _, fun _ => rfl, fun msg hnew => ?_⟩
    · refine (or_iff_left ?_).symm
      rintro ⟨⟨hbad, -⟩, -⟩
      cases hbad
    · cases hnew.1
  · exact addMessages_spec _ _ _

/-- The newest is found by a response that reaches what is expected. -/
theorem found_of_received (h : (receivedStatus status fetch response).foundNewest = true) :
    status.foundNewest = true ∨ (response.foundNewest = true ∧
      status.expectedMaxMessageId ≤ maxIdForMessages response.messages) := by
  unfold receivedStatus at h
  dsimp only at h
  generalize holder : (if decide (0 < fetch.numBefore) || (!status.foundOldest && response.foundOldest)
    then status.finishOlderBatch response.foundOldest false else status) = older at h
  have hsame : older.foundNewest = status.foundNewest ∧
      older.expectedMaxMessageId = status.expectedMaxMessageId := by
    rw [← holder]
    split
    · exact ⟨rfl, rfl⟩
    · exact ⟨rfl, rfl⟩
  split at h
  · unfold finishNewerBatch at h
    split at h
    · cases h
    · next hnot =>
      refine .inr ⟨h, ?_⟩
      have hfound : response.foundNewest = true := h
      rw [hfound, Bool.true_and, decide_eq_true_eq, not_lt, hsame.2] at hnot
      exact hnot
  · exact .inl (hsame.1 ▸ h)

theorem received_behind (hnone : ¬0 < fetch.numAfter) (hnot : response.foundNewest = false) :
    (receivedStatus status fetch response).foundNewest = status.foundNewest ∧
      (receivedStatus status fetch response).loadingNewer = status.loadingNewer ∧
      (receivedStatus status fetch response).expectedMaxMessageId = status.expectedMaxMessageId := by
  unfold receivedStatus
  rw [decide_eq_false hnone, hnot, if_neg (by simp)]
  split
  · exact ⟨rfl, rfl, rfl⟩
  · exact ⟨rfl, rfl, rfl⟩

theorem received_oldest (h : status.loadingOlder = true ∨ status.foundOldest = true)
    (hfound : 0 < fetch.numBefore → response.foundOldest = true) :
    (receivedStatus status fetch response).loadingOlder = true ∨
      (receivedStatus status fetch response).foundOldest = true := by
  unfold receivedStatus
  dsimp only
  generalize holder : (if decide (0 < fetch.numBefore) || (!status.foundOldest && response.foundOldest)
    then status.finishOlderBatch response.foundOldest false else status) = older
  have hold : older.loadingOlder = true ∨ older.foundOldest = true := by
    rw [← holder]
    split
    · next hcond =>
      refine .inr ?_
      rw [Bool.or_eq_true, decide_eq_true_eq, and_eq_true] at hcond
      exact hcond.elim hfound And.right
    · exact h
  split
  · unfold finishNewerBatch
    split
    · exact hold
    · exact hold
  · exact hold

theorem Sound.apart (h : Sound s) {j : ℕ} {f g : Fetch} (hf : s.fetches[i]? = some f)
    (hg : s.fetches[j]? = some g) (hne : j ≠ i) (hahead : f.Ahead) : ¬g.Ahead := by
  obtain ⟨hi, rfl⟩ := List.getElem?_eq_some_iff.mp hf
  obtain ⟨hj, rfl⟩ := List.getElem?_eq_some_iff.mp hg
  have hone := pairwise_iff_getElem.mp h.one
  rcases Nat.lt_or_gt_of_ne hne with hlt | hlt
  · exact fun hg' => hone j i hj hi hlt hg' hahead
  · exact hone i j hi hj hlt hahead

theorem Sound.receive (h : Sound s)
    (hfetch : s.fetches[i]? = some fetch) (hresponse : fetch.response = some response) :
    Sound { s with
      data := s.getMessagesSuccess fetch response
      fetches := s.fetches.eraseIdx i } := by
  let d' := s.getMessagesSuccess fetch response
  have hfetchIn := mem_of_getElem? hfetch
  have hans := h.answered fetch hfetchIn response hresponse
  obtain ⟨expected, hadds⟩ := getMessagesSuccess_spec s fetch response
  have hexpected := hadds.contiguous rfl
  have hstatus : d'.fetchStatus =
      receivedStatus s.data.fetchStatus fetch response := by
    rw [hadds.fetchStatus, hexpected]
  have hmem : ∀ x, x ∈ d'.allItems ↔
      x ∈ s.data.allItems ∨ x ∈ response.messages := by
    intro x
    rw [hadds.mem]
    constructor
    · exact Or.imp_right fun hnew => hnew.1.1
    · rintro (hin | hin)
      · exact .inl hin
      · by_cases hold : x ∈ s.data.allItems
        · exact .inl hold
        · exact .inr ⟨(h.new_iff (hans.subset x hin)).mpr ⟨hin, hold⟩, .inl rfl⟩
  have hgrow : ∀ {x}, x ∈ s.data.allItems → x ∈ d'.allItems :=
    fun hx => (hmem _).mpr (.inl hx)
  have hothers : ∀ g ∈ s.fetches.eraseIdx i, g ∈ s.fetches ∧ (fetch.Ahead → ¬g.Ahead) ∧
      s.data.allItems ≠ [] := by
    intro g hg
    obtain ⟨j, hne, hj⟩ := mem_eraseIdx_iff_getElem?.mp hg
    refine ⟨mem_of_getElem? hj, h.apart hfetch hj hne, fun hnil => ?_⟩
    have hi := (List.getElem?_eq_some_iff.mp hfetch).1
    have hj := (List.getElem?_eq_some_iff.mp hj).1
    have hlength := (h.alone hnil).1
    omega
  have hbehind : ¬fetch.Ahead →
      d'.fetchStatus.foundNewest = s.data.fetchStatus.foundNewest ∧
      d'.fetchStatus.loadingNewer =
        s.data.fetchStatus.loadingNewer ∧
      d'.fetchStatus.expectedMaxMessageId =
        s.data.fetchStatus.expectedMaxMessageId := by
    intro hnot
    rw [hstatus]
    exact received_behind (fun hpos => hnot (.inl hpos))
      (eq_false_iff.mpr fun hfound => hnot (hans.ahead hfound))
  have hempty : d'.allItems = [] →
      s.data.allItems = [] ∧ response.messages = [] := by
    intro hnil
    exact ⟨eq_nil_of_subset_nil fun x hx => hnil ▸ hgrow hx,
      eq_nil_of_subset_nil fun x hx => hnil ▸ (hmem x).mpr (.inr hx)⟩
  -- Whatever is after the new end of the view keeps the newest from being found.
  have hunfound : ∀ v ∈ s.visible, v ∉ s.pending → Beyond d' v →
      s.data.fetchStatus.foundNewest = false →
        d'.fetchStatus.foundNewest = false := by
    intro v hv hnot hbeyond hopen
    refine eq_false_iff.mpr fun hfound => ?_
    rw [hstatus] at hfound
    rcases found_of_received hfound with hold | ⟨hnew, hreach⟩
    · rw [hopen] at hold
      cases hold
    · have habove : ∀ x ∈ response.messages, x.id < v.id := fun x hx => hbeyond x ((hmem x).mpr (.inr hx))
      rcases hans.newest hnew v hv habove with hpend | hin | hle
      · exact hnot hpend
      · exact lt_irrefl _ (hbeyond v (hgrow hin))
      · exact absurd (le_trans hle hreach) (not_le.mpr (maxId_lt (h.visible v hv).1 habove))
  exact { h with
    visible := by
      rw [hadds.settings]
      exact h.visible
    served := by
      have hserved : Served
          { s.data with fetchStatus := receivedStatus s.data.fetchStatus fetch response } :=
        ⟨⟨h.served.whole.order, h.served.whole.hash, h.served.whole.localOnly,
          h.served.whole.items⟩, h.served.server⟩
      show Served (s.getMessagesSuccess fetch response)
      rw [getMessagesSuccess_eq]
      split
      · exact hserved
      · exact hserved.addMessages hans.sorted fun x hx => (h.visible x (hans.subset x hx)).2.1
    inView := by
      intro x hx
      rcases (hmem x).mp hx with hx | hx
      · exact h.inView x hx
      · exact hans.subset x hx
    place := by
      intro v hv hnot
      refine or_iff_not_imp_left.mpr fun hout => ?_
      replace hout : v ∉ s.data.allItems ∧ v ∉ response.messages :=
        ⟨fun hin => hout (hgrow hin), fun hin => hout ((hmem v).mpr (.inr hin))⟩
      have hdiff : ∀ x ∈ response.messages, x.id ≠ v.id :=
        fun x hx hid => hout.2 (h.eq_of_id (hans.subset x hx) hv hid ▸ hx)
      have hbetween : ∀ a ∈ response.messages, ∀ b ∈ response.messages, a.id < v.id → ¬v.id < b.id := by
        intro a ha b hb hav hvb
        rcases hans.skipped v hv ⟨hout.2, ⟨a, ha, hav⟩, b, hb, hvb⟩ with hpend | hin
        · exact hnot hpend
        · exact hout.1 hin
      rcases h.place v hv hnot with hin | ⟨g, hg, response', hresponse', hin⟩ | hbelow | ⟨hbeyond, hopen⟩
      · exact absurd hin hout.1
      · obtain ⟨j, hj⟩ := mem_iff_getElem?.mp hg
        refine .inl ⟨g, mem_eraseIdx_iff_getElem?.mpr ⟨j, fun hji => ?_, hj⟩, response',
          hresponse', hin⟩
        rw [hji, hfetch] at hj
        cases hj
        cases hresponse.symm.trans hresponse'
        exact hout.2 hin
      · refine .inr (.inl ⟨?_, fun x hx => ?_⟩)
        · obtain ⟨x, hx⟩ := exists_mem_of_ne_nil _ hbelow.1
          exact ne_nil_of_mem (hgrow hx)
        · rcases (hmem x).mp hx with hx | hx
          · exact hbelow.2 x hx
          · obtain ⟨y, hy, hyin⟩ := hans.joined hbelow.1
            by_contra hle
            exact hbetween x hx y hy (lt_of_le_of_ne (not_lt.mp hle) (hdiff x hx)) (hbelow.2 y hyin)
      · by_cases hall : Beyond d' v
        · exact .inr (.inr ⟨hall, hunfound v hv hnot hall hopen⟩)
        · -- The response goes on after it, so it begins after it.
          rw [Beyond] at hall
          push Not at hall
          obtain ⟨x, hx, hle⟩ := hall
          rcases (hmem x).mp hx with hold | hin
          · exact absurd (hbeyond x hold) (not_lt.mpr hle)
          · have hvx := lt_of_le_of_ne hle (hdiff x hin).symm
            refine .inr (.inl ⟨ne_nil_of_mem hx, fun y hy => ?_⟩)
            have hafter : ∀ a ∈ response.messages, v.id < a.id := by
              intro a ha
              by_contra hnlt
              exact hbetween a ha x hin (lt_of_le_of_ne (not_lt.mp hnlt) (hdiff a ha)) hvx
            rcases (hmem y).mp hy with hold | hyin
            · obtain ⟨z, hz, hzin⟩ := hans.joined (ne_nil_of_mem hold)
              exact absurd (hbeyond z hzin) (lt_asymm (hafter z hz))
            · exact hafter y hyin
    answered := by
      intro g hg response' hresponse'
      obtain ⟨hgin, hapart, hne⟩ := hothers g hg
      have hansG := h.answered g hgin response' hresponse'
      refine { hansG with
        skipped := fun v hv hskips => (hansG.skipped v hv hskips).imp_right hgrow,
        newest := fun hfound v hv habove => ?_, joined := fun _ => ?_ }
      · have hsame := hbehind fun hahead => hapart hahead (hansG.ahead hfound)
        rw [hsame.2.2]
        exact (hansG.newest hfound v hv habove).imp_right (Or.imp_left hgrow)
      · obtain ⟨x, hx, hin⟩ := hansG.joined hne
        exact ⟨x, hx, hgrow hin⟩
    asked := by
      intro g hg hnone
      obtain ⟨hgin, -, hne⟩ := hothers g hg
      have hask := h.asked g hgin hnone
      refine ⟨hask.last, hask.first, fun _ => ?_⟩
      obtain ⟨x, hin, hanchor⟩ := hask.joined hne
      exact ⟨x, hgrow hin, hanchor⟩
    alone := by
      intro hnil
      have hnone : s.fetches.eraseIdx i = [] := by
        refine eq_nil_iff_forall_not_mem.mpr fun g hg => (hothers g hg).2.2 (hempty hnil).1
      refine ⟨by rw [hnone]; exact Nat.zero_le _, fun g hg => ?_⟩
      rw [hnone] at hg
      cases hg
    one := h.one.sublist (eraseIdx_sublist _ _)
    loading := by
      intro g hg hahead
      obtain ⟨hgin, hapart, -⟩ := hothers g hg
      have hsame := hbehind fun hfa => hapart hfa hahead
      exact (h.loading g hgin hahead).imp_left hsame.2.1.trans
    unfound := by
      intro g hg hahead
      obtain ⟨hgin, hapart, -⟩ := hothers g hg
      exact (hbehind fun hfa => hapart hfa hahead).1.trans (h.unfound g hgin hahead)
    empty := by
      intro hnil hopen
      rw [hstatus]
      exact received_oldest (h.empty (hempty hnil).1 hopen) fun hpos => hans.oldest hpos (hempty hnil).2
    closed := by
      intro hclosed
      rw [(h.closed hclosed).1] at hfetchIn
      cases hfetchIn }

/-! ## Runs -/

/-- What is asked of a step. -/
def ProperStep (s : View) : Input → Prop
  | .events messages => s.opening ≠ none → (∀ v ∈ messages, v ∈ s.pending) → Proper s messages
  | .commit _ _ => True
  | .openView _ => True
  | .loadOlder _ => True
  | .loadNewer => True
  | .answer _ _ => True
  | .receive _ => True
  | .refuse _ => True

theorem Sound.step (h : Sound s) {input : Input} (hproper : ProperStep s input) :
    Sound (MessageFetch.step input s).2 := by
  cases input with
  | commit id content =>
    dsimp only [MessageFetch.step]
    split
    · next haccepts => exact h.commit haccepts
    · exact h
  | events messages =>
    dsimp only [MessageFetch.step]
    split
    · next hvalid =>
      have hpending : ∀ v ∈ messages, v ∈ s.pending := by
        intro v hv
        simpa using all_eq_true.mp hvalid.2 v hv
      by_cases hopen : s.opening = none
      · exact h.before hopen
      · exact h.insert hopen hvalid.1 hpending (hproper hopen hpending)
    · exact h
  | openView opening =>
    dsimp only [MessageFetch.step]
    split
    · next hclosed => exact h.openView hclosed opening
    · exact h
  | loadOlder numBefore =>
    dsimp only [MessageFetch.step]
    split
    · exact h
    · next hcan =>
      rw [not_or] at hcan
      exact h.loadOlder hcan.1 hcan.2
  | loadNewer =>
    dsimp only [MessageFetch.step]
    split
    · exact h
    · next hcan =>
      rw [not_or] at hcan
      exact h.loadNewer hcan.1 hcan.2
  | answer i found => exact h.answer i found
  | receive i =>
    dsimp only [MessageFetch.step]
    split
    · exact h
    · next fetch hfetch =>
      split
      · exact h
      · next response hresponse => exact h.receive hfetch hresponse
  | refuse i =>
    dsimp only [MessageFetch.step]
    split
    · exact h
    · next fetch hfetch =>
      split
      · exact h
      · next hnone => exact h.refuse hfetch (Option.not_isSome_iff_eq_none.mp hnone)

/-- When nothing is under way and the status says that the newest is found, no visible message above
the first one of the view is missing. -/
def Newest (s : View) : Prop :=
  s.fetches = [] → s.pending = [] → s.data.fetchStatus.foundNewest = true →
    ∀ v ∈ s.visible, (∀ first ∈ s.data.allItems.head?, first.id < v.id) → v ∈ s.data.allItems

theorem Sound.newest (h : Sound s) : Newest s := by
  intro hfetches hpending hfound v hv habove
  rcases h.place v hv (by rw [hpending]; simp) with hin | ⟨fetch, hfetch, -⟩ | hbelow | ⟨-, hopen⟩
  · exact hin
  · rw [hfetches] at hfetch
    cases hfetch
  · obtain ⟨first, rest, hall⟩ := exists_cons_of_ne_nil hbelow.1
    have hlt := hbelow.2 first (by rw [hall]; exact mem_cons_self)
    exact absurd (habove first (by rw [hall]; rfl)) (lt_asymm hlt)
  · rw [hfound] at hopen
    cases hopen

instance instDecidableSkips (response : Response) (v : Message) : Decidable (response.Skips v) :=
  inferInstanceAs (Decidable (v ∉ response.messages ∧ (∃ a ∈ response.messages, a.id < v.id) ∧
    ∃ b ∈ response.messages, v.id < b.id))

instance instDecidableComing (s : View) (v : Message) : Decidable (s.Coming v) :=
  inferInstanceAs (Decidable (∃ fetch ∈ s.fetches, ∃ response ∈ fetch.response, v ∈ response.messages))

instance instDecidableProper (s : View) (messages : List Message) : Decidable (Proper s messages) :=
  decidable_of_iff
    ((∀ v ∈ messages, s.data.fetchStatus.foundNewest = false → s.data.isBottom v = true →
      ∀ fetch ∈ s.fetches, ∀ response ∈ fetch.response, ¬response.Skips v) ∧
    ∀ v ∈ messages, s.data.isTop v = true → ∀ w ∈ s.visible, v.id < w.id →
      (∀ x ∈ s.data.allItems, w.id < x.id) → w ∈ s.pending ∨ s.Coming w)
    ⟨fun h => ⟨h.1, h.2⟩, fun h => ⟨h.discarded, h.top⟩⟩

def notes : Content := .stream 1 "notes" false

/-- Message 11 becomes visible after message 12 and after the answer, and its event arrives before
the response. -/
def lateMessage : List Input :=
  [.commit 10 notes, .openView (.narrow .newest), .commit 12 notes, .answer 0 none, .commit 11 notes,
    .events [⟨10, notes⟩, ⟨12, notes⟩], .events [⟨11, notes⟩], .receive 0]

/-- The same with message 11 before message 12, and a message 13 that is sent after the answer. -/
def laterMessage : List Input :=
  [.commit 10 notes, .openView (.narrow .newest), .commit 11 notes, .events [⟨11, notes⟩],
    .commit 12 notes, .answer 0 none, .commit 13 notes, .events [⟨10, notes⟩, ⟨13, notes⟩],
    .events [⟨12, notes⟩], .receive 0, .loadNewer, .answer 0 none, .receive 0]

end GrowTeam.MessageFetch
