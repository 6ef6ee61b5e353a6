/-
# Missed messages

A message that a user is to be notified of stays in a queue of the user until the user is
notified or has acknowledged it.  The hook that notifies looks only at the queue that departs as
the last one, so what other queues held goes with them, and what several queues hold goes out
several times when they depart in one sweep.
-/
import GrowTeam.Tornado.Arrival

namespace GrowTeam.Tornado

open List ClientDescriptor
open Bool (and_eq_true not_eq_true)

/-! ## What happened so far -/

/-- A step of the server in a run. -/
abbrev Served : Type := History.Event Server Request Answer

variable (past : List Served)

def Arrived (messageId : ℕ) : Prop :=
  ∃ e ∈ past, ∃ template users, e.input = .message template users ∧ template.messageId = messageId

/-- A message arrived that the user is to be notified of. -/
def Due (queue : NoticeQueue) (userProfileId messageId : ℕ) : Prop :=
  ∃ e ∈ past, ∃ template users, e.input = .message template users ∧
    template.messageId = messageId ∧
    ∃ user ∈ users, user.id = userProfileId ∧ due template user queue = true

/-- A client of the user acknowledged the message. -/
def Read (userProfileId messageId : ℕ) : Prop :=
  ∃ e ∈ past, e.pre.Acknowledges e.input userProfileId messageId

section Past

variable {past : List Served} {e : Served} {queue : NoticeQueue} {user m : ℕ}

theorem Due.arrived (h : Due past queue user m) : Arrived past m := by
  obtain ⟨e, he, template, users, hinput, hid, -⟩ := h
  exact ⟨e, he, template, users, hinput, hid⟩

theorem read_snoc : Read (past ++ [e]) user m ↔ Read past user m ∨ e.pre.Acknowledges e.input user m := by
  constructor
  · rintro ⟨f, hf, hack⟩
    rcases mem_append.mp hf with hf | hf
    · exact .inl ⟨f, hf, hack⟩
    · rw [mem_singleton.mp hf] at hack
      exact .inr hack
  · rintro (⟨f, hf, hack⟩ | hack)
    · exact ⟨f, mem_append_left _ hf, hack⟩
    · exact ⟨e, mem_append_right _ (mem_singleton_self e), hack⟩

theorem Arrived.snoc (h : Arrived past m) : Arrived (past ++ [e]) m := by
  obtain ⟨f, hf, hmessage⟩ := h
  exact ⟨f, mem_append_left _ hf, hmessage⟩

/-- What is due after a step was due before, or came with the step. -/
theorem due_snoc (h : Due (past ++ [e]) queue user m) : Due past queue user m ∨
    ∃ template users, e.input = .message template users ∧ template.messageId = m ∧
      ∃ recipient ∈ users, recipient.id = user ∧ due template recipient queue = true := by
  obtain ⟨f, hf, template, users, hinput, hid, hrecipient⟩ := h
  rcases mem_append.mp hf with hf | hf
  · exact .inl ⟨f, hf, template, users, hinput, hid, hrecipient⟩
  · rw [mem_singleton.mp hf] at hinput
    exact .inr ⟨template, users, hinput, hid, hrecipient⟩

end Past

/-- A user who is there once is counted once. -/
theorem countP_of_nodup {users : List UserData} {recipient : UserData}
    (hnodup : (users.map (·.id)).Nodup) (hmem : recipient ∈ users) (p : UserData → Bool) :
    users.countP (fun user => decide (user.id = recipient.id) && p user) =
      if p recipient = true then 1 else 0 := by
  induction users with
  | nil => cases hmem
  | cons first users ih =>
    rw [map_cons, nodup_cons] at hnodup
    rw [countP_cons]
    rcases mem_cons.mp hmem with rfl | hmem
    · rw [countP_eq_zero.mpr fun user huser hcounted => hnodup.1 ?_]
      · simp
      · rw [and_eq_true] at hcounted
        exact of_decide_eq_true hcounted.1 ▸ mem_map_of_mem huser
    · have hne : first.id ≠ recipient.id := fun heq => hnodup.1 (heq ▸ mem_map_of_mem hmem)
      rw [ih hnodup.2 hmem]
      simp [hne]

/-! ## Notices that wait, and notices that were sent -/

/-- No notice was enqueued, and an active client would miss the message. -/
def Server.Pending (s : Server) (queue : NoticeQueue) (userProfileId messageId : ℕ) : Prop :=
  s.notices queue userProfileId messageId = 0 ∧ ∃ c ∈ s.clients,
    c.userProfileId = userProfileId ∧ c.offline = false ∧ c.misses queue messageId = true

/-- One notice was enqueued, and only clients that are offline still hold it. -/
def Server.Sent (s : Server) (queue : NoticeQueue) (userProfileId messageId : ℕ) : Prop :=
  s.notices queue userProfileId messageId = 1 ∧ ∀ c ∈ s.clients,
    c.userProfileId = userProfileId → c.misses queue messageId = true → c.offline = true

/-- What a run keeps whose steps are all orderly. -/
structure Notified.Kept (uuid4 : ℕ → String) (past : List Served) (s : Server) : Prop where
  indexed : Indexed uuid4 s
  accepts : ∀ c ∈ s.clients, c.heldMessages ≠ [] → c.acceptsMessages = true
  nodup : ∀ c ∈ s.clients, (c.heldMessages.map (·.messageId)).Nodup
  seen : ∀ c ∈ s.clients, ∀ event ∈ c.heldMessages, Arrived past event.messageId
  noticed : ∀ queue user m, ¬ Arrived past m → s.notices queue user m = 0
  due : ∀ queue user m, Due past queue user m → ¬ Read past user m →
    s.Pending queue user m ∨ s.Sent queue user m

section Follow

variable {acked : ℕ → Prop} {c d : ClientDescriptor} {queue : NoticeQueue} {m : ℕ}

theorem acceptsMessages_congr (h : d.eventTypes = c.eventTypes) :
    d.acceptsMessages = c.acceptsMessages := by
  unfold acceptsMessages
  rw [h]

theorem Follows.misses_of (h : Follows acked c d) (hd : d.misses queue m = true) :
    c.misses queue m = true := by
  rw [misses_iff] at hd ⊢
  obtain ⟨event, hevent, hid, hmissed⟩ := hd
  exact ⟨event, h.held.subset hevent, hid, h.user ▸ hmissed⟩

theorem Follows.misses (h : Follows acked c d) (hunread : ¬ acked m)
    (hc : c.misses queue m = true) : d.misses queue m = true := by
  rw [misses_iff] at hc ⊢
  obtain ⟨event, hevent, rfl, hmissed⟩ := hc
  exact ⟨event, h.kept event hevent hunread, rfl, h.user ▸ hmissed⟩

theorem held_of_misses (h : c.misses queue m = true) :
    ∃ event ∈ c.heldMessages, event.messageId = m := by
  obtain ⟨event, hevent, hid, -⟩ := misses_iff.mp h
  exact ⟨event, hevent, hid⟩

end Follow

/-! ## Orderly steps -/

section Orderly

variable (lower : String → String) (narrowPredicate : List (List String) → MessageEvent → Bool)

/-- The step loses no notice and sends none twice.  When a message arrives, an active client of
each user who is to be notified and is not at once takes it.  And when clients depart, each unread
message that an active one would miss is held by another active one that stays, or goes out from
exactly one client. -/
def Orderly (past : List Served) (e : Served) : Prop :=
  match e.input with
  | .message template users => ∀ user ∈ users, ∀ queue, due template user queue = true →
    e.pre.atOnce template user queue = false → ∃ c ∈ e.pre.clients, c.userProfileId = user.id ∧
      c.active = true ∧ e.pre.takes lower narrowPredicate template users user c = true
  | request => ∀ queue user m, Due past queue user m → ¬ Read past user m →
    (∃ c ∈ e.pre.clients, c.userProfileId = user ∧ c.active = true ∧ c.misses queue m = true) →
      (∃ c ∈ e.pre.clients, c.userProfileId = user ∧ c.active = true ∧
        c.misses queue m = true ∧ e.pre.departs request c = false) ∨
      e.pre.clients.countP (fun c => e.pre.notifies request c &&
        (decide (c.userProfileId = user) && c.misses queue m)) = 1

namespace Notified.Kept

variable {uuid4 : ℕ → String} {past : List Served} {e : Served}

theorem start : Kept uuid4 [] .start where
  indexed := Indexed.start
  accepts _ hc := by cases hc
  nodup _ hc := by cases hc
  seen _ hc := by cases hc
  noticed _ _ _ _ := rfl
  due _ _ _ hdue := by
    obtain ⟨e, he, -⟩ := hdue
    cases he

variable {queue : NoticeQueue} {template : EventTemplate} {users : List UserData}

section

variable (h : Kept uuid4 past e.pre)

include h

/-- An active client that misses a message is one that is not offline. -/
theorem active {c : ClientDescriptor} (hc : c ∈ e.pre.clients) {m : ℕ} (hmisses : c.misses queue m = true) (hoff : c.offline = false) :
    c.active = true := by
  obtain ⟨event, hevent, -⟩ := held_of_misses hmisses
  rw [ClientDescriptor.active, h.accepts c hc (ne_nil_of_mem hevent), hoff]
  rfl

/-- **A step that moves what is held.** -/
theorem moved (hindexed : Indexed uuid4 e.post)
    (hmoved : Moved (e.pre.departs e.input) (e.pre.notifies e.input)
      (e.pre.Acknowledges e.input) e.pre e.post)
    (hinput : ∀ template users, e.input ≠ .message template users)
    (horderly : ∀ queue user m, Due past queue user m → ¬ Read past user m →
      (∃ c ∈ e.pre.clients, c.userProfileId = user ∧ c.active = true ∧ c.misses queue m = true) →
        (∃ c ∈ e.pre.clients, c.userProfileId = user ∧ c.active = true ∧
          c.misses queue m = true ∧ e.pre.departs e.input c = false) ∨
        e.pre.clients.countP (fun c => e.pre.notifies e.input c &&
          (decide (c.userProfileId = user) && c.misses queue m)) = 1) :
    Kept uuid4 (past ++ [e]) e.post where
  indexed := hindexed
  accepts d hd hne := by
    rcases hmoved.back d hd with hnil | ⟨c, hc, hfollows, -⟩
    · exact absurd hnil hne
    · rw [acceptsMessages_congr hfollows.eventTypes]
      obtain ⟨event, hevent⟩ := exists_mem_of_ne_nil _ hne
      exact h.accepts c hc (ne_nil_of_mem (hfollows.held.subset hevent))
  nodup d hd := by
    rcases hmoved.back d hd with hnil | ⟨c, hc, hfollows, -⟩
    · rw [hnil]
      exact nodup_nil
    · obtain ⟨l, hperm, hsub⟩ := hfollows.held
      exact (hperm.map _).nodup_iff.mp ((h.nodup c hc).sublist (hsub.map _))
  seen d hd event hevent := by
    rcases hmoved.back d hd with hnil | ⟨c, hc, hfollows, -⟩
    · rw [hnil] at hevent
      cases hevent
    · exact (h.seen c hc event (hfollows.held.subset hevent)).snoc
  noticed queue user m hnot := by
    rw [hmoved.notices, h.noticed queue user m fun harrived => hnot harrived.snoc, Nat.zero_add,
      countP_eq_zero]
    intro c hc hcounted
    rw [and_eq_true, and_eq_true] at hcounted
    obtain ⟨event, hevent, rfl⟩ := held_of_misses hcounted.2.2
    exact hnot (h.seen c hc event hevent).snoc
  due queue user m hdue hunread := by
    have hbefore : Due past queue user m := by
      rcases due_snoc hdue with hdue | ⟨template, users, heq, -⟩
      · exact hdue
      · exact absurd heq (hinput template users)
    rw [read_snoc, not_or] at hunread
    obtain ⟨hunread, hkept⟩ := hunread
    have hnotices := hmoved.notices queue user m
    replace horderly := horderly queue user m hbefore hunread
    generalize hcount : e.pre.clients.countP _ = count at hnotices horderly
    rcases h.due queue user m hbefore hunread with ⟨hzero, c, hc, hcu, hoff, hmisses⟩ | ⟨hone, hall⟩
    · rcases horderly ⟨c, hc, hcu, h.active hc hmisses hoff, hmisses⟩ with
        ⟨d, hd, hdu, hactive, hdmisses, hstay⟩ | rfl
      · -- An active client that holds the message stays, so that nobody is notified.
        have hnone : count = 0 := by
          rw [← hcount, countP_eq_zero]
          intro b hb hcounted
          rw [and_eq_true, and_eq_true] at hcounted
          have hbu := of_decide_eq_true hcounted.2.1
          have hgone := (hmoved.noneLeft b hb hcounted.1).2 d hd (hdu.trans hbu.symm) hactive
          rw [hstay] at hgone
          cases hgone
        obtain ⟨f, hf, hfollows, hsame⟩ := hmoved.forth d hd hstay
        have hfmisses := hfollows.misses (by rw [hdu]; exact hkept) hdmisses
        obtain ⟨event, hevent, -⟩ := held_of_misses hfmisses
        refine .inl ⟨?_, f, hf, hfollows.user.trans hdu, ?_, hfmisses⟩
        · rw [hnotices, hzero, hnone]
        · rw [hsame (ne_nil_of_mem hevent)]
          rw [ClientDescriptor.active, and_eq_true, Bool.not_eq_true'] at hactive
          exact hactive.2
      · -- Exactly one client sends the notice, and no active one is left.
        refine .inr ⟨by rw [hnotices, hzero], ?_⟩
        obtain ⟨b, hb, hcounted⟩ := countP_pos_iff.mp (hcount ▸ Nat.one_pos)
        rw [and_eq_true, and_eq_true] at hcounted
        have hbu := of_decide_eq_true hcounted.2.1
        intro d hd hdu hdmisses
        by_contra honline
        rw [not_eq_true] at honline
        rcases hmoved.back d hd with hnil | ⟨a, ha, hfollows, hstay⟩
        · obtain ⟨event, hevent, -⟩ := held_of_misses hdmisses
          rw [hnil] at hevent
          cases hevent
        · obtain ⟨haoff, hadeparts⟩ := hstay honline
          have hau := hfollows.user.symm.trans hdu
          have hgone := (hmoved.noneLeft b hb hcounted.1).2 a ha (hau.trans hbu.symm)
            (h.active ha (hfollows.misses_of hdmisses) haoff)
          rw [hadeparts] at hgone
          cases hgone
    · have hnone : count = 0 := by
        rw [← hcount, countP_eq_zero]
        intro b hb hcounted
        rw [and_eq_true, and_eq_true] at hcounted
        have hoff := hall b hb (of_decide_eq_true hcounted.2.1) hcounted.2.2
        rw [(hmoved.noneLeft b hb hcounted.1).1] at hoff
        cases hoff
      refine .inr ⟨by rw [hnotices, hone, hnone], ?_⟩
      intro d hd hdu hdmisses
      by_contra honline
      rw [not_eq_true] at honline
      rcases hmoved.back d hd with hnil | ⟨a, ha, hfollows, hstay⟩
      · obtain ⟨event, hevent, -⟩ := held_of_misses hdmisses
        rw [hnil] at hevent
        cases hevent
      · have hoff := hall a ha (hfollows.user.symm.trans hdu) (hfollows.misses_of hdmisses)
        rw [(hstay honline).1] at hoff
        cases hoff

variable {f : ClientDescriptor → ClientDescriptor}

/-- A message that arrived before is held and noticed as before. -/
theorem due_earlier
    (hclients : e.post.clients = e.pre.clients.map f)
    (hreceived : ∀ c ∈ e.pre.clients,
      Received lower narrowPredicate e.pre template users c (f c)) {user m : ℕ} (hm : template.messageId ≠ m)
    (hnotices : e.post.notices queue user m = e.pre.notices queue user m)
    (hdue : Due past queue user m) (hunread : ¬ Read past user m) :
    e.post.Pending queue user m ∨ e.post.Sent queue user m := by
  have hmisses : ∀ c ∈ e.pre.clients, (f c).misses queue m = c.misses queue m := by
    intro c hc
    have hr := hreceived c hc
    rw [Bool.eq_iff_iff, misses_iff, misses_iff, hr.user]
    rcases hr.held with hperm | ⟨event, hperm, -, hid, -⟩
    · simp only [hperm.mem_iff]
    · constructor
      · rintro ⟨other, hother, hotherId, hmissed⟩
        rcases mem_append.mp (hperm.subset hother) with hother | hother
        · exact ⟨other, hother, hotherId, hmissed⟩
        · rw [mem_singleton.mp hother, hid] at hotherId
          exact absurd hotherId hm
      · rintro ⟨other, hother, hrest⟩
        exact ⟨other, hperm.symm.subset (mem_append_left _ hother), hrest⟩
  rcases h.due queue user m hdue hunread with ⟨hzero, c, hc, hcu, hoff, hcm⟩ | ⟨hone, hall⟩
  · refine .inl ⟨hnotices.trans hzero, f c, ?_, ?_, ?_, ?_⟩
    · rw [hclients]
      exact mem_map_of_mem hc
    · exact (hreceived c hc).user.trans hcu
    · exact (hreceived c hc).offline.trans hoff
    · rw [hmisses c hc]
      exact hcm
  · refine .inr ⟨hnotices.trans hone, ?_⟩
    intro d hd hdu hdm
    rw [hclients] at hd
    obtain ⟨c, hc, rfl⟩ := mem_map.mp hd
    rw [hmisses c hc] at hdm
    exact (hreceived c hc).offline.trans (hall c hc ((hreceived c hc).user.symm.trans hdu) hdm)

/-- A message that has just arrived is noticed at once or held by an active client. -/
theorem due_now
    (hclients : e.post.clients = e.pre.clients.map f)
    (hreceived : ∀ c ∈ e.pre.clients, Received lower narrowPredicate e.pre template users c (f c))
    (hnew : ¬ Arrived past template.messageId) {user : UserData}
    (huser : user ∈ users) (hdue : GrowTeam.Tornado.due template user queue = true)
    (hnotices : e.post.notices queue user.id template.messageId =
      if e.pre.atOnce template user queue = true then 1 else 0)
    (horderly : e.pre.atOnce template user queue = false → ∃ c ∈ e.pre.clients,
      c.userProfileId = user.id ∧ c.active = true ∧
        e.pre.takes lower narrowPredicate template users user c = true) :
    e.post.Pending queue user.id template.messageId ∨ e.post.Sent queue user.id template.messageId := by
  by_cases hat : e.pre.atOnce template user queue = true
  · rw [if_pos hat] at hnotices
    refine .inr ⟨hnotices, ?_⟩
    intro d hd hdu hdm
    -- What was handed out says that the notice was sent.
    rw [hclients] at hd
    obtain ⟨c, hc, rfl⟩ := mem_map.mp hd
    have hr := hreceived c hc
    have hcu : user.id = c.userProfileId := hdu.symm.trans hr.user
    obtain ⟨event, hevent, hid, hmissed⟩ := misses_iff.mp hdm
    have hold : event ∉ c.heldMessages := fun hin => hnew (hid ▸ h.seen c hc event hin)
    rcases hr.held with hperm | ⟨got, hperm, -, -, hgot⟩
    · exact absurd (hperm.subset hevent) hold
    · rcases mem_append.mp (hperm.subset hevent) with hevent | hevent
      · exact absurd hevent hold
      · rw [mem_singleton.mp hevent, hr.user, hgot user huser hcu queue, hat] at hmissed
        simp at hmissed
  · rw [if_neg hat] at hnotices
    rw [not_eq_true] at hat
    obtain ⟨c, hc, hcu, hactive, htakes⟩ := horderly hat
    have hr := hreceived c hc
    rcases hr.held with hperm | ⟨got, hperm, -, hid, hgot⟩
    · exact absurd hperm (hr.taken user huser hcu.symm htakes)
    · refine .inl ⟨hnotices, f c, ?_, hr.user.trans hcu, ?_, ?_⟩
      · rw [hclients]
        exact mem_map_of_mem hc
      · rw [hr.offline]
        rw [ClientDescriptor.active, and_eq_true, Bool.not_eq_true'] at hactive
        exact hactive.2
      · refine misses_iff.mpr ⟨got, ?_, hid, ?_⟩
        · exact hperm.symm.subset (mem_append_right _ (mem_singleton_self _))
        · rw [hr.user, hgot user huser hcu.symm queue, hdue, hat]
          rfl

/-- **The arrival of a message.** -/
theorem arrival (hindexed : Indexed uuid4 e.post) (hinput : e.input = .message template users)
    (hpost : e.post = e.pre.processMessageEvent lower narrowPredicate template users)
    (husers : (users.map (·.id)).Nodup) (hnew : ¬ Arrived past template.messageId)
    (horderly : ∀ user ∈ users, ∀ queue, GrowTeam.Tornado.due template user queue = true →
      e.pre.atOnce template user queue = false → ∃ c ∈ e.pre.clients, c.userProfileId = user.id ∧
        c.active = true ∧ e.pre.takes lower narrowPredicate template users user c = true) :
    Kept uuid4 (past ++ [e]) e.post := by
  obtain ⟨hnotices, f, hclients, hreceived⟩ :=
    h.indexed.arrival lower narrowPredicate template husers
  rw [← hpost] at hnotices hclients
  have hnow : Arrived (past ++ [e]) template.messageId :=
    ⟨e, mem_append_right _ (mem_singleton_self e), template, users, hinput, rfl⟩
  have hback : ∀ d ∈ e.post.clients, ∃ c ∈ e.pre.clients,
      Received lower narrowPredicate e.pre template users c d := by
    intro d hd
    rw [hclients] at hd
    obtain ⟨c, hc, rfl⟩ := mem_map.mp hd
    exact ⟨c, hc, hreceived c hc⟩
  refine ⟨hindexed, ?_, ?_, ?_, ?_, ?_⟩
  · intro d hd hne
    obtain ⟨c, hc, hr⟩ := hback d hd
    rw [acceptsMessages_congr hr.eventTypes]
    rcases hr.held with hperm | ⟨_, _, haccepts, _⟩
    · exact h.accepts c hc fun hnil => hne (by rw [hnil] at hperm; exact hperm.eq_nil)
    · exact haccepts
  · intro d hd
    obtain ⟨c, hc, hr⟩ := hback d hd
    rcases hr.held with hperm | ⟨event, hperm, -, hid, -⟩
    · exact (hperm.map _).nodup_iff.mpr (h.nodup c hc)
    · rw [(hperm.map _).nodup_iff, map_append, nodup_append]
      refine ⟨h.nodup c hc, nodup_singleton _, ?_⟩
      rintro _ ha b hb rfl
      obtain ⟨other, hother, hotherId⟩ := mem_map.mp ha
      have hsame : other.messageId = template.messageId :=
        hotherId.trans ((mem_singleton.mp hb).trans hid)
      exact hnew (hsame ▸ h.seen c hc other hother)
  · intro d hd event hevent
    obtain ⟨c, hc, hr⟩ := hback d hd
    rcases hr.held with hperm | ⟨got, hperm, -, hid, -⟩
    · exact (h.seen c hc event (hperm.subset hevent)).snoc
    · rcases mem_append.mp (hperm.subset hevent) with hevent | hevent
      · exact (h.seen c hc event hevent).snoc
      · rw [mem_singleton.mp hevent, hid]
        exact hnow
  · intro queue user m hnot
    rw [hnotices, h.noticed queue user m fun harrived => hnot harrived.snoc, Nat.zero_add,
      countP_eq_zero]
    intro recipient _ hcounted
    rw [and_eq_true, and_eq_true] at hcounted
    exact hnot (of_decide_eq_true hcounted.1.2 ▸ hnow)
  · intro queue user m hdue hunread
    rw [read_snoc, not_or] at hunread
    rcases due_snoc hdue with hbefore | ⟨template', users', heq, rfl, recipient, hrecipient, rfl, hq⟩
    · have hm : template.messageId ≠ m := fun heq => hnew (heq ▸ hbefore.arrived)
      refine h.due_earlier lower narrowPredicate hclients hreceived hm ?_ hbefore hunread.1
      rw [hnotices, Nat.add_eq_left, countP_eq_zero]
      intro recipient _ hcounted
      rw [and_eq_true, and_eq_true] at hcounted
      exact hm (of_decide_eq_true hcounted.1.2)
    · obtain ⟨rfl, rfl⟩ := Request.message.inj (hinput.symm.trans heq)
      refine h.due_now lower narrowPredicate hclients hreceived hnew hrecipient hq ?_
        (horderly recipient hrecipient queue hq)
      rw [hnotices, h.noticed queue recipient.id template.messageId hnew, Nat.zero_add]
      simpa [Bool.and_assoc] using
        countP_of_nodup husers hrecipient fun user => e.pre.atOnce template user queue

end

end Notified.Kept

/-! ## Runs -/

def Request.messageId : Request → Option ℕ
  | .message template _ => some template.messageId
  | _ => none

/-- What the callers promise: no message arrives twice, and no user is named twice for one. -/
structure Proper (requests : List Request) : Prop where
  messages : (requests.filterMap Request.messageId).Nodup
  users : ∀ template users, Request.message template users ∈ requests → (users.map (·.id)).Nodup

theorem history_input {step : Request → Server → Answer × Server} (s : Server)
    (requests : List Request) : (History.history step s requests).map (·.input) = requests := by
  induction requests generalizing s with
  | nil => rfl
  | cons request requests ih => exact congrArg _ (ih _)

/-- In a proper run a message has not arrived before. -/
theorem Proper.fresh {requests : List Request} (h : Proper requests) (past later : List Served)
    (e : Served) (hsplit : requests = past.map (·.input) ++ e.input :: later.map (·.input))
    {template : EventTemplate} {users : List UserData} (hinput : e.input = .message template users) :
    ¬ Arrived past template.messageId ∧ (users.map (·.id)).Nodup := by
  constructor
  · rintro ⟨f, hf, template', users', hfinput, hid⟩
    have hnodup := h.messages
    rw [hsplit, hinput, filterMap_append, nodup_append] at hnodup
    refine hnodup.2.2 template.messageId ?_ template.messageId ?_ rfl
    · refine mem_filterMap.mpr ⟨f.input, mem_map_of_mem hf, ?_⟩
      rw [hfinput]
      exact congrArg some hid
    · exact mem_filterMap.mpr ⟨_, mem_cons_self, rfl⟩
  · refine h.users template users ?_
    rw [hsplit, hinput]
    exact mem_append_right _ mem_cons_self

/-- **Exactly one notice.**  In a run whose steps are all orderly, each user who is to be notified
of a message and has not acknowledged it gets at most one notice on each queue, and exactly one by
the time when no client of the user is active. -/
theorem notified_once {uuid4 : ℕ → String} (huuid : Function.Injective uuid4)
    {requests : List Request} (hproper : Proper requests)
    (horderly : ∀ past e later, History.history (serve uuid4 lower narrowPredicate) .start requests =
      past ++ e :: later → Orderly lower narrowPredicate past e) :
    let history := History.history (serve uuid4 lower narrowPredicate) .start requests
    let s := History.run (serve uuid4 lower narrowPredicate) .start requests
    ∀ queue user m, Due history queue user m → ¬ Read history user m →
      s.notices queue user m ≤ 1 ∧
        ((∀ c ∈ s.clients, c.userProfileId = user → c.active = false) →
          s.notices queue user m = 1) := by
  intro history s queue user m hdue hunread
  have hinputs : requests = history.map (·.input) := (history_input .start requests).symm
  -- The invariant speaks of the steps so far as long as they are steps of this run.
  have hend := (History.history_past (serve uuid4 lower narrowPredicate)
    (J := fun past t => (∃ later, history = past ++ later) → Notified.Kept uuid4 past t) .start
    requests (fun _ => Notified.Kept.start) (by
      rintro past e he hJ ⟨later, hsplit⟩
      rw [append_assoc, singleton_append] at hsplit
      have hkept := hJ ⟨e :: later, hsplit⟩
      have hpost : (serve uuid4 lower narrowPredicate e.input e.pre).2 = e.post := by rw [he]
      have hindexed := (indexed_serve lower narrowPredicate huuid hkept.indexed e.input).1
      rw [hpost] at hindexed
      have hstep := horderly past e later hsplit
      by_cases hmessage : ∃ template users, e.input = .message template users
      · obtain ⟨template, users, hinput⟩ := hmessage
        obtain ⟨hnew, husers⟩ := hproper.fresh past later e
          (by rw [hinputs, hsplit, map_append, map_cons]) hinput
        rw [Orderly, hinput] at hstep
        refine hkept.arrival lower narrowPredicate hindexed hinput ?_ husers hnew hstep
        rw [← hpost, hinput]
        rfl
      · have hother : ∀ template users, e.input ≠ .message template users :=
          fun template users heq => hmessage ⟨template, users, heq⟩
        have hmoved := hkept.indexed.moved_serve lower narrowPredicate hkept.nodup hother
        rw [hpost] at hmoved
        refine hkept.moved hindexed hmoved hother ?_
        rw [Orderly] at hstep
        split at hstep
        · next template users hinput => exact absurd hinput (hother template users)
        · exact hstep)).1 ⟨[], (append_nil _).symm⟩
  rcases hend.due queue user m hdue hunread with ⟨hzero, c, hc, hcu, hoff, hmisses⟩ | ⟨hone, -⟩
  · refine ⟨Nat.le_of_eq hzero |>.trans (Nat.zero_le _), fun hgone => ?_⟩
    obtain ⟨event, hevent, -⟩ := held_of_misses hmisses
    have hactive := hgone c hc hcu
    rw [ClientDescriptor.active, hend.accepts c hc (ne_nil_of_mem hevent), hoff] at hactive
    cases hactive
  · exact ⟨Nat.le_of_eq hone, fun _ => hone⟩

end Orderly

/-! ## One queue, and two queues -/

/-- A direct message to a user who has a push device. -/
def directMessage (messageId senderId : ℕ) : EventTemplate where
  messageId := messageId
  senderId := senderId
  privateMessage := true
  sendingClient := "website"
  body _ := ""
  streamName := none
  inviteOnly := false
  isWebPublic := false
  realmId := 1
  realmGuestUserIds := []
  presenceIdleUserIds := []
  disableExternalNotifications := false
  userIdSets := { pushDeviceRegisteredUserIds := some [7] }

/-- A user with one web client, a direct message, and the sweep when the client has expired. -/
def oneQueue : List Request :=
  [.allocate (webClient 7 0), .message (directMessage 1 9) [⟨7, [], none⟩], .gcEventQueues 600]

/-- The steps of a run of three. -/
theorem split_three {α : Type} {a b c e : α} {past later : List α}
    (h : [a, b, c] = past ++ e :: later) :
    (past = [] ∧ e = a) ∨ (past = [a] ∧ e = b) ∨ (past = [a, b] ∧ e = c) := by
  rcases past with _ | ⟨x, _ | ⟨y, _ | ⟨z, past⟩⟩⟩
  · obtain ⟨ha, -⟩ := List.cons.inj h
    exact .inl ⟨rfl, ha.symm⟩
  · obtain ⟨ha, hrest⟩ := List.cons.inj h
    obtain ⟨hb, -⟩ := List.cons.inj hrest
    exact .inr (.inl ⟨by rw [ha], hb.symm⟩)
  · obtain ⟨ha, hrest⟩ := List.cons.inj h
    obtain ⟨hb, hlast⟩ := List.cons.inj hrest
    obtain ⟨hc, -⟩ := List.cons.inj hlast
    exact .inr (.inr ⟨by rw [ha, hb], hc.symm⟩)
  · have hlength := congrArg List.length h
    simp at hlength

theorem notified_once_oneQueue :
    let history := History.history (serve queueName id fun _ _ => true) .start oneQueue
    let s := History.run (serve queueName id fun _ _ => true) .start oneQueue
    ∀ queue user m, Due history queue user m → ¬ Read history user m →
      s.notices queue user m ≤ 1 ∧
        ((∀ c ∈ s.clients, c.userProfileId = user → c.active = false) →
          s.notices queue user m = 1) := by
  refine notified_once id (fun _ _ => true) queueName_injective ⟨by decide, ?_⟩ ?_
  · intro template users hmem
    rcases mem_cons.mp hmem with heq | hmem
    · cases heq
    · rcases mem_cons.mp hmem with heq | hmem
      · obtain ⟨-, rfl⟩ := Request.message.inj heq
        decide
      · rcases mem_cons.mp hmem with heq | hmem
        · cases heq
        · cases hmem
  · intro past e later hsplit
    rcases split_three hsplit with ⟨rfl, rfl⟩ | ⟨rfl, rfl⟩ | ⟨rfl, rfl⟩
    · intro queue user m hdue
      obtain ⟨f, hf, -⟩ := hdue
      cases hf
    · intro user huser queue _ _
      obtain rfl := mem_singleton.mp huser
      cases queue <;> decide
    · -- The only client is the one that is removed and notified.
      intro queue user m _ _ hclient
      refine .inr ?_
      obtain ⟨c, hc, hcu, -, hmisses⟩ := hclient
      have hone : ∀ (l : List ClientDescriptor) (notifies : ClientDescriptor → Bool),
          l.length = 1 → l.all notifies = true → c ∈ l →
          l.countP (fun c => notifies c &&
            (decide (c.userProfileId = user) && c.misses queue m)) = 1 := by
        intro l notifies hlength hall hmem
        obtain ⟨d, rfl⟩ := length_eq_one_iff.mp hlength
        obtain rfl := mem_singleton.mp hmem
        have hnotify : notifies c = true := by simpa using hall
        simp [hnotify, hcu, hmisses]
      exact hone _ _ (by decide) (by decide) hc

/-- The user has two tabs open, and the sweep removes the queues of both. -/
def twoQueues : List Request :=
  [.allocate (webClient 7 0), .allocate (webClient 7 0),
    .message (directMessage 1 9) [⟨7, [], none⟩], .gcEventQueues 600]

/-- The message is enqueued for an e-mail twice. -/
theorem twoQueues_twice :
    ¬ ∀ requests, Proper requests →
      let history := History.history (serve queueName id fun _ _ => true) .start requests
      let s := History.run (serve queueName id fun _ _ => true) .start requests
      ∀ queue user m, Due history queue user m → ¬ Read history user m →
        (∀ c ∈ s.clients, c.userProfileId = user → c.active = false) →
          s.notices queue user m = 1 := by
  intro hall
  have hone := hall twoQueues ⟨by decide, ?_⟩ .missedmessageEmails 7 1 ?_ ?_ ?_
  · cases hone
  · intro template users hmem
    rcases mem_cons.mp hmem with heq | hmem
    · cases heq
    · rcases mem_cons.mp hmem with heq | hmem
      · cases heq
      · rcases mem_cons.mp hmem with heq | hmem
        · obtain ⟨-, rfl⟩ := Request.message.inj heq
          decide
        · rcases mem_cons.mp hmem with heq | hmem
          · cases heq
          · cases hmem
  · refine ⟨_, mem_of_getElem? (i := 2) rfl, directMessage 1 9, [⟨7, [], none⟩], rfl, rfl,
      ⟨7, [], none⟩, mem_singleton_self _, rfl, by decide⟩
  · rintro ⟨e, he, queueId, lastEventId, dontBlock, handler, clientName, now, client, hfetch, -⟩
    have hinput : e.input ∈ twoQueues := by
      exact mem_map_of_mem he
    rw [hfetch] at hinput
    simp [twoQueues] at hinput
  · intro c hc
    cases hc

end GrowTeam.Tornado
