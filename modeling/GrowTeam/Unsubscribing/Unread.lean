/-
# Unread rows are only in subscribed channels

In a run whose transactions are not in each other's way (`Orderly`) every state is sound, so when
nothing is open and the queue is empty each unread row is in a channel that its user is subscribed
to.  The queue knows the channel only: work that is still waiting when the user receives messages
again marks them as read, so a message must not be received then.
-/
import GrowTeam.Unsubscribing.Kept

namespace GrowTeam.Unsubscribing

open History List Bool Database

variable {site : Site} {d d' : Database} {i j : ℕ} {t t' : Transaction} {move : Move}

/-! ## Subscriptions -/

variable {pairs : List (ℕ × ℕ)} {u c : ℕ} {keys : List Key}

theorem mem_workFor {w : Work} {next : ℕ} (h : w ∈ workFor next pairs) :
    (w.userId, w.channel) ∈ pairs ∧ next ≤ w.id ∧ w.id < next + pairs.length := by
  induction pairs generalizing next with
  | nil => cases h
  | cons p pairs ih =>
    rw [workFor, mem_cons] at h
    rw [length_cons]
    rcases h with rfl | h
    · exact ⟨mem_cons_self, Nat.le_refl _, by dsimp only; omega⟩
    · obtain ⟨hin, hle, hlt⟩ := ih h
      exact ⟨mem_cons_of_mem _ hin, by omega, by omega⟩

theorem exists_workFor {p : ℕ × ℕ} (next : ℕ) (h : p ∈ pairs) :
    ∃ w ∈ workFor next pairs, w.userId = p.1 ∧ w.channel = p.2 := by
  induction pairs generalizing next with
  | nil => cases h
  | cons q pairs ih =>
    rcases mem_cons.mp h with rfl | h
    · exact ⟨_, mem_cons_self, rfl, rfl⟩
    · obtain ⟨w, hw, hpair⟩ := ih (next + 1) h
      exact ⟨w, mem_cons_of_mem _ hw, hpair⟩

theorem isSubscribed_activate (h : d.isSubscribed u c = true) :
    isSubscribed { d with subscriptions := activate d.subscriptions pairs } u c = true := by
  obtain ⟨s, hs, heq⟩ := any_eq_true.mp h
  refine any_eq_true.mpr ⟨_, mem_append_left _ (mem_map_of_mem hs), ?_⟩
  rw [and_eq_true] at heq ⊢
  split
  · exact ⟨heq.1, rfl⟩
  · exact heq

theorem hasSubscription_activate (h : d.hasSubscription u c = true) :
    hasSubscription { d with subscriptions := activate d.subscriptions pairs } u c =
      true := by
  obtain ⟨s, hs, heq⟩ := any_eq_true.mp h
  refine any_eq_true.mpr ⟨_, mem_append_left _ (mem_map_of_mem hs), ?_⟩
  split
  · exact heq
  · exact heq

theorem isSubscribed_deactivate (h : d.isSubscribed u c = true) (hout : (u, c) ∉ pairs) :
    isSubscribed { d with subscriptions := deactivate d.subscriptions pairs } u c =
      true := by
  obtain ⟨s, hs, heq⟩ := any_eq_true.mp h
  refine any_eq_true.mpr ⟨_, mem_map_of_mem hs, ?_⟩
  rw [and_eq_true, and_eq_true, decide_eq_true_eq, decide_eq_true_eq] at heq
  rw [if_neg]
  · rw [and_eq_true, and_eq_true, decide_eq_true_eq, decide_eq_true_eq]
    exact heq
  · rw [heq.1.1, heq.1.2, contains_iff_mem]
    exact hout

theorem hasSubscription_deactivate (h : d.hasSubscription u c = true) :
    hasSubscription { d with subscriptions := deactivate d.subscriptions pairs } u c =
      true := by
  obtain ⟨s, hs, heq⟩ := any_eq_true.mp h
  refine any_eq_true.mpr ⟨_, mem_map_of_mem hs, ?_⟩
  split
  · exact heq
  · exact heq

variable {found : Option (List (ℕ × ℕ))}

theorem Sound.subscribe
    (h : Sound site d) (hs : d.transactions i = some (.subscribe pairs found))
    (hapart : Apart site d (statement site d i (.subscribe pairs found)).2 i) :
    Sound site (statement site d i (.subscribe pairs found)).2 := by
  have hold := unmarked_of hs (by rintro ⟨w, ids, ⟨⟩⟩)
  cases found with
  | none =>
    refine h.proceed free_nil hold ?_ (by simp) trivial (by rintro u c ⟨⟩)
    rintro ⟨w, ids, heq⟩
    cases heq
  | some found =>
    have hc : Commits d (statement site d i (.subscribe pairs (some found))).2 i :=
      ⟨rfl, rfl, rfl, fun _ hm => hm, fun _ hm => .inl hm, fun _ hw _ => hw,
        fun _ _ hl => hasSubscription_activate hl⟩
    have hcovered : ∀ u c, d.Covered u c →
        (statement site d i (.subscribe pairs (some found))).2.Covered u c :=
      fun u c hcov => hcov.imp isSubscribed_activate fun hcome =>
        hc.toCome hcome fun w hw _ => hw
    refine h.commit hc hapart h.rows_exist h.messages_lt h.unique h.pending_lt
      (fun w hw => hc.listed _ _ (h.listed w hw)) hcovered fun um hum hread msg hmsg hid => ?_
    exact (h.rows um hum hread msg hmsg hid).imp (hcovered _ _) (hc.marking hold rfl rfl)

theorem Sound.unsubscribe
    (h : Sound site d) (hs : d.transactions i = some (.unsubscribe pairs found))
    (hapart : Apart site d (statement site d i (.unsubscribe pairs found)).2 i) :
    Sound site (statement site d i (.unsubscribe pairs found)).2 := by
  have hold := unmarked_of hs (by rintro ⟨w, ids, ⟨⟩⟩)
  have hshape := h.shape i _ hs
  cases found with
  | none =>
    refine h.proceed free_nil hold ?_ (by simp) ?_ (by rintro u c ⟨⟩)
    · rintro ⟨w, ids, heq⟩
      cases heq
    · intro p hp
      exact hasSubscription_of_isSubscribed (mem_filter.mp hp).2
  | some found =>
    have hc : Commits d (statement site d i (.unsubscribe pairs (some found))).2 i :=
      ⟨rfl, rfl, rfl, fun _ hm => hm, fun _ hm => .inl hm,
        fun _ hw _ => mem_append_left _ hw, fun _ _ hl => hasSubscription_deactivate hl⟩
    have hcome : ∀ u c, d.ToCome u c →
        (statement site d i (.unsubscribe pairs (some found))).2.ToCome u c :=
      fun u c hcome => hc.toCome hcome fun w hw _ => mem_append_left _ hw
    have hcovered : ∀ u c, d.Covered u c →
        (statement site d i (.unsubscribe pairs (some found))).2.Covered u c := by
      rintro u c (hsub | hwork)
      · by_cases hin : (u, c) ∈ found
        · -- The new work is in no transaction yet.
          obtain ⟨w, hw, hu, hchannel⟩ := exists_workFor d.nextWork hin
          refine .inr ⟨w, mem_append_right _ hw, hu, hchannel, fun j ids hj => ?_⟩
          have hpending := (h.shape j _ (hc.transactions_of hj).2).2
          exact absurd (h.pending_lt w hpending) (Nat.not_lt.mpr (mem_workFor hw).2.1)
        · exact .inl (isSubscribed_deactivate hsub hin)
      · exact .inr (hcome u c hwork)
    refine h.commit hc hapart h.rows_exist h.messages_lt h.unique ?_ ?_ hcovered
      fun um hum hread msg hmsg hid => ?_
    · intro w hw
      rcases mem_append.mp hw with hw | hw
      · exact Nat.lt_of_lt_of_le (h.pending_lt w hw) (Nat.le_add_right _ _)
      · exact (mem_workFor hw).2.2
    · intro w hw
      rcases mem_append.mp hw with hw | hw
      · exact hc.listed _ _ (h.listed w hw)
      · exact hc.listed _ _ (hshape _ (mem_workFor hw).1)
    · exact (h.rows um hum hread msg hmsg hid).imp (hcovered _ _) (hc.marking hold rfl rfl)

/-! ## Runs -/

/-- No statement comes in the way of another transaction: no commit makes it leave an unread row
that rests on nothing, and no work looks at a channel for the last time while the transaction
relies on the subscription that is gone. -/
structure Orderly (site : Site) (d : Database) (move : Move) : Prop where
  apart : Apart site d (step site move d).2 move.id
  looks : ∀ w ids,
    (step site move d).2.transactions move.id = some (.markAsRead w (.marked ids)) →
    ∀ j s, j ≠ move.id → d.transactions j = some s → s.Leaves site d w.userId w.channel →
      (step site move d).2.Covered w.userId w.channel

theorem Sound.begin (h : Sound site d) (hnone : d.transactions i = none)
    (hopens : move.opens = some t) (hmay : t.mayOpen d = true) :
    Sound site (d.await i t t.firstKeys).2 := by
  have hold : ∀ s, d.transactions i = some s → ¬s.IsMarked := by
    intro s hs
    rw [hnone] at hs
    cases hs
  refine h.await fun hfree => h.proceed hfree hold ?_ ?_ ?_ ?_
  · rintro ⟨w, ids, rfl⟩
    cases move <;> cases hopens
  · intro id hin
    cases t with
    | markAsRead w stage => cases mem_singleton.mp hin
    | _ => cases hin
  · cases move with
    | consume k w =>
      cases hopens
      exact ⟨if_pos mem_cons_self, of_decide_eq_true hmay⟩
    | next k => cases hopens
    | _ =>
      cases hopens
      trivial
  · intro u c hleft
    cases move with
    | updateFlags k r =>
      cases hopens
      obtain ⟨-, -, ⟨m, hm, -⟩, -⟩ := hleft
      cases hm
    | next k => cases hopens
    | _ =>
      cases hopens
      exact hleft.elim

/-- Every step that is orderly keeps the invariant. -/
theorem Sound.step (h : Sound site d) (hord : Orderly site d move) :
    Sound site (step site move d).2 := by
  obtain ⟨hapart, hlooks⟩ := hord
  unfold Unsubscribing.step at hapart hlooks ⊢
  cases hs : d.transactions move.id with
  | none =>
    cases hopens : move.opens with
    | none => exact h
    | some t =>
      dsimp only
      split
      · next hmay => exact h.begin hs hopens hmay
      · exact h
  | some t =>
    cases hopens : move.opens with
    | some t' => exact h
    | none =>
      rw [hs, hopens] at hapart hlooks
      cases t with
      | subscribe pairs found => exact h.subscribe hs hapart
      | unsubscribe pairs found => exact h.unsubscribe hs hapart
      | send r stage => exact h.sendStatement hs hapart
      | updateFlags r stage => exact h.flagsStatement hs hapart
      | move r stage => exact h.moveStatement hs hapart
      | markAsRead w stage => exact h.workStatement hs hapart fun ids hids => hlooks w ids hids

/-- Nothing is open and no work is pending. -/
structure Database.Quiet (d : Database) : Prop where
  transactions : ∀ i, d.transactions i = none
  pending : d.pending = []

/-- Every unread row is in a channel that its user is subscribed to. -/
def Database.Kept (d : Database) : Prop :=
  ∀ um ∈ d.rows, um.read = false → ∀ msg ∈ d.messages, msg.id = um.messageId →
    d.isSubscribed um.userId msg.channel = true

/-- The keys of the tables, and the sequence of the message ids. -/
structure Database.Keyed (d : Database) : Prop where
  rows_exist : ∀ um ∈ d.rows, d.Exists um.messageId
  messages_lt : ∀ msg ∈ d.messages, msg.id < d.nextMessage
  unique : ∀ msg ∈ d.messages, ∀ msg' ∈ d.messages, msg.id = msg'.id → msg = msg'
  unlocked : ∀ k, d.locks k = none

theorem sound_quiet (hkeyed : d.Keyed) (hquiet : d.Quiet) (hkept : d.Kept) : Sound site d where
  rows_exist := hkeyed.rows_exist
  messages_lt := hkeyed.messages_lt
  unique := hkeyed.unique
  locks_lt := by
    intro id j hj
    rw [hkeyed.unlocked] at hj
    cases hj
  pending_lt := by
    rw [hquiet.pending]
    rintro w ⟨⟩
  listed := by
    rw [hquiet.pending]
    rintro w ⟨⟩
  shape := by
    intro i t ht
    rw [hquiet.transactions] at ht
    cases ht
  leaves := by
    intro i t ht
    rw [hquiet.transactions] at ht
    cases ht
  rows := fun um hum hread msg hmsg hid => .inl (.inl (hkept um hum hread msg hmsg hid))

theorem Sound.kept (h : Sound site d) (hquiet : d.Quiet) : d.Kept := by
  intro um hum hread msg hmsg hid
  rcases h.rows um hum hread msg hmsg hid with (hsub | ⟨w, hw, -⟩) | ⟨j, w, ids, hj, -⟩
  · exact hsub
  · rw [hquiet.pending] at hw
    cases hw
  · rw [hquiet.transactions] at hj
    cases hj

theorem sound_run (h : Sound site d) (moves : List Move)
    (hord : ∀ e ∈ history (step site) d moves, Orderly site e.pre e.input) :
    Sound site (run (step site) d moves) ∧
      ∀ e ∈ history (step site) d moves, Sound site e.pre := by
  induction moves generalizing d with
  | nil => exact ⟨h, by rintro e ⟨⟩⟩
  | cons move moves ih =>
    have hnext : Sound site (step site move d).2 := h.step (hord _ mem_cons_self)
    obtain ⟨hend, hpre⟩ := ih hnext fun e he => hord e (mem_cons_of_mem _ he)
    refine ⟨hend, fun e he => ?_⟩
    rcases mem_cons.mp he with rfl | he
    · exact h
    · exact hpre e he

/-! ## The queue -/

/-- What is in the queue has been there, or is new. -/
def Later (d d' : Database) : Prop :=
  d.nextWork ≤ d'.nextWork ∧ ∀ w ∈ d'.pending, w.id < d.nextWork → w ∈ d.pending

theorem Later.refl (d : Database) : Later d d := ⟨Nat.le_refl _, fun _ hw _ => hw⟩

theorem Later.trans {d'' : Database} (h : Later d d') (h' : Later d' d'') : Later d d'' :=
  ⟨Nat.le_trans h.1 h'.1, fun w hw hlt => h.2 w (h'.2 w hw (Nat.lt_of_lt_of_le hlt h.1)) hlt⟩

theorem later_of_eq (hnext : d'.nextWork = d.nextWork) (hpending : d'.pending = d.pending) :
    Later d d' :=
  ⟨Nat.le_of_eq hnext.symm, fun _ hw _ => hpending ▸ hw⟩

theorem later_await : Later d (d.await i t keys).2 := by
  unfold await
  split
  · exact later_of_eq rfl rfl
  · exact .refl d

theorem later_statement (site : Site) (d : Database) (i : ℕ) (t : Transaction) :
    Later d (statement site d i t).2 := by
  cases t with
  | subscribe pairs found => cases found <;> exact later_of_eq rfl rfl
  | unsubscribe pairs found =>
    cases found with
    | none => exact later_of_eq rfl rfl
    | some found =>
      refine ⟨Nat.le_add_right _ _, fun w hw hlt => ?_⟩
      refine (mem_append.mp hw).resolve_right fun hnew => ?_
      exact absurd hlt (Nat.not_lt.mpr (mem_workFor hnew).2.1)
  | send r stage => cases stage <;> exact later_of_eq rfl rfl
  | updateFlags r stage =>
    cases stage with
    | considered messages | accessed messages ums => exact later_await
    | start =>
      unfold statement FlagsRequest.statement
      dsimp only
      split <;> exact later_of_eq rfl rfl
    | selected messages ums =>
      unfold statement FlagsRequest.statement
      dsimp only
      split
      · exact later_of_eq rfl rfl
      · split <;> exact later_of_eq rfl rfl
    | _ => exact later_of_eq rfl rfl
  | move r stage =>
    cases stage with
    | start =>
      unfold statement MoveRequest.statement
      dsimp only
      split
      · exact later_of_eq rfl rfl
      · split
        · exact later_of_eq rfl rfl
        · exact later_await
    | changed m | inserted m | saved m => exact later_await
    | _ => exact later_of_eq rfl rfl
  | markAsRead _ stage =>
    cases stage with
    | start | selected ids => exact later_await
    | marked ids => exact ⟨Nat.le_refl _, fun w' hw' _ => mem_of_mem_filter hw'⟩

theorem later_step (site : Site) (move : Move) (d : Database) : Later d (step site move d).2 := by
  unfold step
  split
  · split
    · exact later_await
    · exact .refl d
  · exact later_statement site d _ _
  · exact .refl d

/-! ## Messages after subscribing again -/

abbrev Step := Event Database Move Answer

/-- The user is subscribed to the channel again while the work is waiting. -/
def Resubscribes (e : Step) (w : Work) : Prop :=
  w ∈ e.pre.pending ∧
    ∃ pairs found, e.answer = .committed (.subscribe pairs (some found)) ∧
      (w.userId, w.channel) ∈ found

/-- A message is sent to the channel, and the user of the work receives it. -/
def Receives (e : Step) (w : Work) (m : ℕ) : Prop :=
  ∃ r message ums, e.answer = .committed (.send r (.inserted message ums)) ∧
    message.channel = w.channel ∧ message.id = m ∧ ∃ um ∈ ums, um.userId = w.userId

/-- Nobody who has subscribed again receives a message while the work is waiting. -/
def WorkFirst (steps : List Step) : Prop :=
  ∀ past mid later e₁ e₂ w m, steps = past ++ e₁ :: (mid ++ e₂ :: later) →
    Resubscribes e₁ w → w ∈ e₂.pre.pending → ¬Receives e₂ w m

/-- Work never marks a message that its user received after subscribing again. -/
def Spares (steps : List Step) : Prop :=
  ∀ past mid mid' later e₁ e₂ e₃ w m ids,
    steps = past ++ e₁ :: (mid ++ e₂ :: (mid' ++ e₃ :: later)) →
    Resubscribes e₁ w → Receives e₂ w m → e₃.answer = .committed (.markAsRead w (.marked ids)) →
      m ∉ ids

theorem await_not_committed : (d.await i t keys).1 ≠ .committed t' := by
  unfold await
  split
  · rintro ⟨⟩
  · rintro ⟨⟩

/-- A statement commits its own transaction. -/
theorem statement_committed (h : (statement site d i t).1 = .committed t') : t = t' := by
  cases t with
  | subscribe pairs found | unsubscribe pairs found =>
    cases found with
    | none => cases h
    | some found => exact Answer.committed.inj h
  | send r stage =>
    cases stage with
    | inserted message ums => exact Answer.committed.inj h
    | _ => cases h
  | updateFlags r stage =>
    cases stage with
    | start =>
      unfold statement FlagsRequest.statement at h
      dsimp only at h
      split at h <;> cases h
    | subscribed | inserted => cases h
    | considered | accessed => exact absurd h await_not_committed
    | selected messages ums =>
      unfold statement FlagsRequest.statement at h
      dsimp only at h
      split at h
      · cases h
      · split at h <;> cases h
    | updated messages toUpdate historical => exact Answer.committed.inj h
  | move r stage =>
    cases stage with
    | start =>
      unfold statement MoveRequest.statement at h
      dsimp only at h
      split at h
      · cases h
      · split at h
        · cases h
        · exact absurd h await_not_committed
    | changed m | inserted m | saved m => exact absurd h await_not_committed
    | propagated m => exact Answer.committed.inj h
    | _ => cases h
  | markAsRead w stage =>
    cases stage with
    | start | selected ids => exact absurd h await_not_committed
    | marked ids => exact Answer.committed.inj h

theorem committed_transaction {e : Step} (he : step site e.input e.pre = (e.answer, e.post))
    (ht : e.answer = .committed t) : e.pre.transactions e.input.id = some t := by
  obtain ⟨move, d, answer, d'⟩ := e
  subst ht
  unfold step at he
  cases hs : d.transactions move.id with
  | none =>
    rw [hs] at he
    cases hopens : move.opens with
    | none =>
      rw [hopens] at he
      cases he
    | some t' =>
      rw [hopens] at he
      dsimp only at he
      split at he
      · exact absurd (congrArg Prod.fst he) await_not_committed
      · cases he
  | some s =>
    rw [hs] at he
    cases hopens : move.opens with
    | some t' =>
      rw [hopens] at he
      cases he
    | none =>
      rw [hopens] at he
      have hanswer : (statement site d move.id s).1 = .committed t := congrArg Prod.fst he
      rw [statement_committed hanswer]

/-- **Unread rows and subscriptions.**  In a run whose transactions are not in each other's way, and
in which nobody receives messages again before the work of unsubscribing is done: whenever nothing
is open or pending, every unread row is in a channel that its user is subscribed to, and no work has
marked what its user received after subscribing again. -/
theorem unread_in_subscribed (site : Site) (d : Database) (moves : List Move) (hkeyed : d.Keyed)
    (hquiet : d.Quiet) (hkept : d.Kept)
    (hord : ∀ e ∈ history (step site) d moves, Orderly site e.pre e.input)
    (hfirst : WorkFirst (history (step site) d moves)) :
    ((run (step site) d moves).Quiet → (run (step site) d moves).Kept) ∧
      Spares (history (step site) d moves) := by
  have hsound : Sound site d := sound_quiet hkeyed hquiet hkept
  obtain ⟨hend, hpre⟩ := sound_run hsound moves hord
  refine ⟨hend.kept, ?_⟩
  intro past mid mid' later e₁ e₂ e₃ w m ids hsplit hagain hreceives hmarks
  exfalso
  have he₁ : e₁ ∈ history (step site) d moves := by rw [hsplit]; simp
  have he₂ : e₂ ∈ history (step site) d moves := by rw [hsplit]; simp
  have he₃ : e₃ ∈ history (step site) d moves := by rw [hsplit]; simp
  -- The work is in the queue until it is done.
  have hpending : w ∈ e₃.pre.pending :=
    ((hpre e₃ he₃).shape _ _ (committed_transaction (step_of_mem he₃) hmarks)).2
  have hstep : ∀ e ∈ history (step site) d moves, Later e.pre e.post := by
    intro e he
    have hlater := later_step site e.input e.pre
    rwa [step_of_mem he] at hlater
  have h₁₂ : Later e₁.pre e₂.pre :=
    (hstep e₁ he₁).trans (history_rel (step site) Later.refl (fun _ _ _ => Later.trans)
      (fun move t => later_step site move t) hsplit)
  have hsplit' : history (step site) d moves = (past ++ e₁ :: mid) ++ e₂ :: (mid' ++ e₃ :: later) := by
    rw [hsplit]
    simp
  have h₂₃ : Later e₂.pre e₃.pre :=
    (hstep e₂ he₂).trans (history_rel (step site) Later.refl (fun _ _ _ => Later.trans)
      (fun move t => later_step site move t) hsplit')
  have hlt : w.id < e₂.pre.nextWork :=
    Nat.lt_of_lt_of_le ((hpre e₁ he₁).pending_lt w hagain.1) h₁₂.1
  exact hfirst past mid _ e₁ e₂ w m hsplit hagain (h₂₃.2 w hpending hlt) hreceives

/-! ## Runs of a few transactions -/

theorem transactions_await (h : j ≠ i) :
    (d.await i t keys).2.transactions j = d.transactions j := by
  unfold await
  split
  · rw [transactions_proceed, if_neg h]
  · rfl

/-- A statement changes its own transaction only. -/
theorem transactions_statement (h : j ≠ i) :
    (statement site d i t).2.transactions j = d.transactions j := by
  have hproceed : ∀ s keys, (d.proceed i s keys).transactions j = d.transactions j := by
    intro s keys
    rw [transactions_proceed, if_neg h]
  have hfinish : (d.finish i).transactions j = d.transactions j := by
    rw [transactions_finish, if_neg h]
  cases t with
  | subscribe pairs found | unsubscribe pairs found =>
    cases found with
    | none => exact hproceed _ _
    | some found => exact hfinish
  | send r stage =>
    cases stage with
    | informed users => exact hproceed _ [.message d.nextMessage]
    | inserted message ums => exact hfinish
    | _ => exact hproceed _ _
  | updateFlags r stage =>
    cases stage with
    | start =>
      unfold statement FlagsRequest.statement
      dsimp only
      split
      · exact hproceed _ _
      · exact hproceed _ _
    | considered messages | accessed messages ums => exact transactions_await h
    | selected messages ums =>
      unfold statement FlagsRequest.statement
      dsimp only
      split
      · exact hproceed _ _
      · split
        · exact hproceed _ _
        · exact hfinish
    | updated messages toUpdate historical => exact hfinish
    | _ => exact hproceed _ _
  | move r stage =>
    cases stage with
    | start =>
      unfold statement MoveRequest.statement
      dsimp only
      split
      · exact hfinish
      · split
        · exact hfinish
        · exact transactions_await h
    | changed m | inserted m | saved m => exact transactions_await h
    | propagated m => exact hfinish
    | _ => exact hproceed _ _
  | markAsRead w stage =>
    cases stage with
    | start | selected ids => exact transactions_await h
    | marked ids => exact hfinish

theorem transactions_step (h : j ≠ move.id) :
    (step site move d).2.transactions j = d.transactions j := by
  unfold step
  split
  · split
    · exact transactions_await h
    · rfl
  · exact transactions_statement h
  · rfl

theorem transactions_history {moves : List Move} (h : ∀ move ∈ moves, j ≠ move.id) :
    (run (step site) d moves).transactions j = d.transactions j ∧
      ∀ e ∈ history (step site) d moves, e.pre.transactions j = d.transactions j := by
  induction moves generalizing d with
  | nil => exact ⟨rfl, by rintro e ⟨⟩⟩
  | cons move moves ih =>
    have hfirst : (step site move d).2.transactions j = d.transactions j :=
      transactions_step (h move mem_cons_self)
    obtain ⟨hend, hpre⟩ := ih (d := (step site move d).2) fun later hin =>
      h later (mem_cons_of_mem _ hin)
    refine ⟨hend.trans hfirst, fun e he => ?_⟩
    rcases mem_cons.mp he with rfl | he
    · rfl
    · exact (hpre e he).trans hfirst

/-- Transactions that never leave an unread row. -/
def Transaction.leavesNothing : Transaction → Bool
  | .send _ .start => true
  | .send _ _ => false
  | .updateFlags r _ => r.isAdding
  | .move _ _ => false
  | _ => true

theorem not_leaves (h : t.leavesNothing = true) : ¬t.Leaves site d u c := by
  intro hleft
  cases t with
  | send r stage =>
    cases stage with
    | start => exact hleft
    | _ => cases h
  | updateFlags r stage =>
    have hremoving := hleft.1
    rw [show r.isAdding = true from h] at hremoving
    cases hremoving
  | move r stage => cases h
  | _ => exact hleft

/-- Statements that run while the other open transactions leave nothing. -/
theorem orderly_of_nothing {ids : List ℕ} (hnone : ∀ j ∉ ids, d.transactions j = none)
    (hall : (ids.all fun j => j = move.id || (d.transactions j).all (·.leavesNothing)) = true) :
    Orderly site d move := by
  have hnothing : ∀ j s, j ≠ move.id → d.transactions j = some s → s.leavesNothing = true := by
    intro j s hj hs
    have hin : j ∈ ids := by
      by_contra hout
      rw [hnone j hout] at hs
      cases hs
    have htest := all_eq_true.mp hall j hin
    rw [hs] at htest
    simpa [hj] using htest
  exact {
    apart := fun j s hj hs u c hleft => absurd hleft (not_leaves (hnothing j s hj hs))
    looks := fun w ids _ j s hj hs hleft => absurd hleft (not_leaves (hnothing j s hj hs)) }

theorem quiet_of_ids (ids : List ℕ) {moves : List Move} (hquiet : d.Quiet)
    (hids : ∀ id ∈ moves.map Move.id, id ∈ ids)
    (hend : (ids.all fun j => ((run (step site) d moves).transactions j).isNone) = true)
    (hpending : (run (step site) d moves).pending = []) : (run (step site) d moves).Quiet where
  transactions := by
    intro j
    by_cases hj : j ∈ ids
    · exact Option.isNone_iff_eq_none.mp (all_eq_true.mp hend j hj)
    · rw [(transactions_history fun move hmove heq => hj ?_).1, hquiet.transactions j]
      rw [heq]
      exact hids _ (mem_map_of_mem hmove)
  pending := hpending

/-- Everything is public. -/
def publicSite : Site := ⟨id, fun _ => true, fun _ _ _ => true, fun _ _ _ => .all⟩

/-- One user is subscribed to a channel without messages. -/
def oneSubscriber : Database :=
  ⟨[], [], [⟨1, 5, true⟩], [], 100, 0, fun _ => none, fun _ => none⟩

theorem keyed_oneSubscriber : oneSubscriber.Keyed where
  rows_exist := by rintro um ⟨⟩
  messages_lt := by rintro msg ⟨⟩
  unique := by rintro msg ⟨⟩
  unlocked := fun _ => rfl

theorem quiet_oneSubscriber : oneSubscriber.Quiet := ⟨fun _ => rfl, rfl⟩

theorem kept_oneSubscriber : oneSubscriber.Kept := by
  rintro um ⟨⟩

/-- A message that is sent while its recipient unsubscribes and the work is done. -/
def slowSend : List Move :=
  [.send 1 ⟨5, "t", [], []⟩, .next 1, .unsubscribe 2 [(1, 5)], .next 2, .next 2,
    .consume 3 ⟨0, 1, 5⟩, .next 3, .next 3, .next 1, .next 1, .next 1]

/-- A message that is received after subscribing again, before the work is done. -/
def slowWork : List Move :=
  [.unsubscribe 2 [(1, 5)], .next 2, .next 2, .subscribe 4 [(1, 5)], .next 4, .next 4,
    .send 1 ⟨5, "t", [], []⟩, .next 1, .next 1, .next 1, .next 1,
    .consume 3 ⟨0, 1, 5⟩, .next 3, .next 3, .next 3]

def slowSteps : List Step := history (step publicSite) oneSubscriber slowWork

/-- The row of the message is unread in the channel that is left, and work marks a message that was
received after subscribing again. -/
theorem slow_not_kept :
    ((run (step publicSite) oneSubscriber slowSend).Quiet ∧
      ¬(run (step publicSite) oneSubscriber slowSend).Kept) ∧ ¬Spares slowSteps := by
  refine ⟨⟨quiet_of_ids [1, 2, 3] quiet_oneSubscriber (by decide) (by decide)
    (by decide), ?_⟩, ?_⟩
  · intro hkept
    have hsub := hkept ⟨1, 100, false⟩ (by decide) rfl ⟨100, 5, "t"⟩ (by decide) rfl
    exact absurd hsub (by decide)
  · intro hspares
    have hmarked := hspares (slowSteps.take 5) ((slowSteps.drop 6).take 4)
      ((slowSteps.drop 11).take 3) [] (slowSteps.get ⟨5, by decide⟩)
      (slowSteps.get ⟨10, by decide⟩) (slowSteps.get ⟨14, by decide⟩)
      ⟨0, 1, 5⟩ 100 [100] rfl ⟨by decide, [(1, 5)], [(1, 5)], rfl, by decide⟩
      ⟨⟨5, "t", [], []⟩, ⟨100, 5, "t"⟩, [⟨1, 100, false⟩], rfl, rfl, rfl, ⟨1, 100, false⟩,
        mem_cons_self, rfl⟩ rfl
    exact hmarked mem_cons_self

/-- A message is sent while its recipient unsubscribes, and another after subscribing again. -/
def twoSends : List Move :=
  [.unsubscribe 2 [(1, 5)], .next 2, .send 1 ⟨5, "t", [], []⟩, .next 1, .next 1, .next 1, .next 1,
    .next 2, .consume 3 ⟨0, 1, 5⟩, .next 3, .next 3, .next 3, .subscribe 4 [(1, 5)], .next 4,
    .next 4, .send 5 ⟨5, "t", [], []⟩, .next 5, .next 5, .next 5, .next 5]

/-- Nobody subscribes while work is waiting. -/
def subscribesLate (e : Step) : Bool :=
  match e.answer with
  | .committed (.subscribe _ _) => e.pre.pending = []
  | _ => true

theorem workFirst_of_late {steps : List Step} (h : steps.all subscribesLate = true) :
    WorkFirst steps := by
  rintro past mid later e₁ e₂ w m hsplit ⟨hpending, pairs, found, hanswer, -⟩
  have hlate : subscribesLate e₁ = true := all_eq_true.mp h e₁ (by rw [hsplit]; simp)
  unfold subscribesLate at hlate
  rw [hanswer] at hlate
  rw [of_decide_eq_true hlate] at hpending
  cases hpending

theorem unread_in_subscribed_twoSends :
    (run (step publicSite) oneSubscriber twoSends).rows = [⟨1, 100, true⟩, ⟨1, 101, false⟩] ∧
    ((run (step publicSite) oneSubscriber twoSends).Quiet →
        (run (step publicSite) oneSubscriber twoSends).Kept) ∧
      Spares (history (step publicSite) oneSubscriber twoSends) := by
  refine ⟨by decide, ?_⟩
  refine unread_in_subscribed publicSite oneSubscriber twoSends keyed_oneSubscriber
    quiet_oneSubscriber kept_oneSubscriber ?_ (workFirst_of_late (by decide))
  have hids : ∀ id ∈ twoSends.map Move.id, id ∈ [1, 2, 3, 4, 5] := by decide
  have hall : (history (step publicSite) oneSubscriber twoSends).all (fun e =>
      [1, 2, 3, 4, 5].all fun j =>
        j = e.input.id || (e.pre.transactions j).all (·.leavesNothing)) = true := by
    decide
  intro e he
  refine orderly_of_nothing (fun j hj => ?_) (all_eq_true.mp hall e he)
  refine (transactions_history fun move hmove heq => hj ?_).2 e he
  rw [heq]
  exact hids _ (mem_map_of_mem hmove)

end GrowTeam.Unsubscribing
