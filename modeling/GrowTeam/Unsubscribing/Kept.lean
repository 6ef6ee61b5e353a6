/-
# Unread rows are only in subscribed channels

Every statement keeps `Sound`: what an open transaction leaves unread, and every unread row that is
committed, rests on a subscription, on work to come, or is about to be marked.  The queue knows the
channel only, and nothing but the row of the message is locked while a transaction relies on what
it has read, so this needs that transactions do not come in each other's way (`Orderly`).
-/
import GrowTeam.Unsubscribing.Transactions

namespace GrowTeam.Unsubscribing

open History List Database Transaction
open Bool (and_eq_true)

variable {site : Site} {d d' : Database} {i j : ℕ} {t t' : Transaction} {keys : List Key}

/-- The invariant of all runs. -/
structure Sound (site : Site) (d : Database) : Prop where
  rows_exist : ∀ um ∈ d.rows, d.Exists um.messageId
  messages_lt : ∀ msg ∈ d.messages, msg.id < d.nextMessage
  unique : ∀ msg ∈ d.messages, ∀ msg' ∈ d.messages, msg.id = msg'.id → msg = msg'
  locks_lt : ∀ id j, d.locks (.message id) = some j → id < d.nextMessage
  pending_lt : ∀ w ∈ d.pending, w.id < d.nextWork
  listed : ∀ w ∈ d.pending, d.hasSubscription w.userId w.channel = true
  shape : ∀ i t, d.transactions i = some t → t.Shape d i
  leaves : ∀ i t, d.transactions i = some t → ∀ u c, t.Leaves site d u c → d.Covered u c
  rows : ∀ um ∈ d.rows, um.read = false → ∀ msg ∈ d.messages, msg.id = um.messageId →
    d.Covered um.userId msg.channel ∨ d.Marking um msg.channel

/-! ## A transaction goes on -/

theorem free_iff : d.free i keys = true ↔ ∀ k ∈ keys, ∀ j, d.locks k = some j → j = i := by
  unfold free
  simp only [all_eq_true, Bool.or_eq_true, decide_eq_true_eq]
  refine forall₂_congr fun k _ => ?_
  cases d.locks k with
  | none | some => simp

theorem transactions_proceed :
    (d.proceed i t keys).transactions j = if j = i then some t else d.transactions j := by
  unfold proceed
  by_cases h : j = i
  · subst h
    simp
  · simp [h]

theorem locks_proceed {k : Key} :
    (d.proceed i t keys).locks k = if k ∈ keys then some i else d.locks k := rfl

theorem frame_proceed (hfree : d.free i keys = true) (hji : j ≠ i) :
    Frame d (d.proceed i t keys) j where
  locks := by
    intro k hk
    rw [locks_proceed, if_neg fun hin => hji (free_iff.mp hfree k hin j hk), hk]
  exists_id := fun _ h => h
  messages := fun _ h _ => h
  pending := fun _ h _ => h
  listed := fun _ _ h => h

/-- The transaction has not marked rows. -/
def Transaction.IsMarked (t : Transaction) : Prop := ∃ w ids, t = .markAsRead w (.marked ids)

variable {u c : ℕ} {um : Row} {m : Moving} {r : MoveRequest}

theorem unmarked_of (hs : d.transactions i = some t) (ht : ¬t.IsMarked) :
    ∀ s, d.transactions i = some s → ¬s.IsMarked :=
  fun _ hs' => Option.some.inj (hs.symm.trans hs') ▸ ht

theorem toCome_proceed (ht : ¬t.IsMarked) (h : d.ToCome u c) : (d.proceed i t keys).ToCome u c := by
  obtain ⟨w, hw, hu, hc, hlooks⟩ := h
  refine ⟨w, hw, hu, hc, fun j ids hj => ?_⟩
  rw [transactions_proceed] at hj
  by_cases hji : j = i
  · rw [if_pos hji, Option.some.injEq] at hj
    exact ht ⟨w, ids, hj⟩
  · rw [if_neg hji] at hj
    exact hlooks j ids hj

theorem marking_proceed {c : ℕ}
    (hold : ∀ s, d.transactions i = some s → ¬s.IsMarked) (h : d.Marking um c) :
    (d.proceed i t keys).Marking um c := by
  obtain ⟨j, w, ids, hj, hrest⟩ := h
  refine ⟨j, w, ids, ?_, hrest⟩
  rw [transactions_proceed, if_neg, hj]
  rintro rfl
  exact hold _ hj ⟨w, ids, rfl⟩

/-- A statement that writes nothing that is seen by others, and does not mark rows. -/
theorem Sound.proceed (h : Sound site d) (hfree : d.free i keys = true)
    (hold : ∀ s, d.transactions i = some s → ¬s.IsMarked) (ht : ¬t.IsMarked)
    (hkeys : ∀ id, Key.message id ∈ keys → id < d.nextMessage)
    (hshape : t.Shape (d.proceed i t keys) i)
    (hleaves : ∀ u c, t.Leaves site d u c → d.Covered u c) : Sound site (d.proceed i t keys) where
  rows_exist := h.rows_exist
  messages_lt := h.messages_lt
  unique := h.unique
  locks_lt := by
    intro id j hid
    rw [locks_proceed] at hid
    by_cases hin : Key.message id ∈ keys
    · exact hkeys id hin
    · rw [if_neg hin] at hid
      exact h.locks_lt id j hid
  pending_lt := h.pending_lt
  listed := h.listed
  shape := by
    intro j s hs
    rw [transactions_proceed] at hs
    by_cases hji : j = i
    · subst hji
      rw [if_pos rfl, Option.some.injEq] at hs
      rwa [← hs]
    · rw [if_neg hji] at hs
      exact (h.shape j s hs).frame (frame_proceed hfree hji)
  leaves := by
    intro j s hs u c hleft
    refine Or.imp_right (toCome_proceed ht) ?_
    rw [transactions_proceed] at hs
    by_cases hji : j = i
    · rw [if_pos hji, Option.some.injEq] at hs
      subst hs
      exact hleaves u c hleft
    · rw [if_neg hji] at hs
      exact h.leaves j s hs u c hleft
  rows := by
    intro um hum hread msg hmsg hid
    exact (h.rows um hum hread msg hmsg hid).imp (Or.imp_right (toCome_proceed ht))
      (marking_proceed hold)

theorem Sound.await (h : Sound site d)
    (hproceed : d.free i keys = true → Sound site (d.proceed i t keys)) :
    Sound site (d.await i t keys).2 := by
  unfold Database.await
  split
  · next hfree => exact hproceed hfree
  · exact h

theorem free_nil : d.free i [] = true := rfl

/-! ## A transaction ends -/

theorem transactions_finish :
    (d.finish i).transactions j = if j = i then none else d.transactions j := by
  unfold finish
  by_cases h : j = i
  · subst h
    simp
  · simp [h]

/-- What a commit writes. -/
structure Commits (d d' : Database) (i : ℕ) : Prop where
  transactions : d'.transactions = (d.finish i).transactions
  locks : d'.locks = (d.finish i).locks
  nextMessage : d'.nextMessage = d.nextMessage
  exists_id : ∀ m, d.Exists m → d'.Exists m
  messages : ∀ msg ∈ d'.messages, msg ∈ d.messages ∨ d.locks (.message msg.id) = some i
  pending : ∀ w ∈ d.pending, d.locks (.work w.id) ≠ some i → w ∈ d'.pending
  listed : ∀ u c, d.hasSubscription u c = true → d'.hasSubscription u c = true

theorem Commits.frame (h : Commits d d' i) (hji : j ≠ i) : Frame d d' j := { h with
  locks := by
    intro k hk
    rw [h.locks]
    unfold finish
    dsimp only
    rw [if_neg fun heq => hji (Option.some.inj (hk.symm.trans heq)), hk]
  messages := by
    intro msg hmsg hlocked
    refine (h.messages msg hmsg).resolve_right fun heq => hji ?_
    exact Option.some.inj (hlocked.symm.trans heq)
  pending := fun w hw hlocked =>
    h.pending w hw fun heq => hji (Option.some.inj (hlocked.symm.trans heq)) }

theorem Commits.transactions_of (h : Commits d d' i) {s : Transaction}
    (hs : d'.transactions j = some s) : j ≠ i ∧ d.transactions j = some s := by
  rw [h.transactions, transactions_finish] at hs
  by_cases hji : j = i
  · rw [if_pos hji] at hs
    cases hs
  · rw [if_neg hji] at hs
    exact ⟨hji, hs⟩

theorem Commits.marking (h : Commits d d' i) {um um' : Row} {c : ℕ}
    (hi : ∀ s, d.transactions i = some s → ¬s.IsMarked) (hu : um'.userId = um.userId)
    (hm : um'.messageId = um.messageId) (hmark : d.Marking um c) : d'.Marking um' c := by
  obtain ⟨j, w, ids, hj, huser, hc, hin⟩ := hmark
  refine ⟨j, w, ids, ?_, huser.trans hu.symm, hc, hm ▸ hin⟩
  rw [h.transactions, transactions_finish, if_neg, hj]
  rintro rfl
  exact hi _ hj ⟨w, ids, rfl⟩

/-- Work is still to come when what it waits for stays in the queue. -/
theorem Commits.toCome (h : Commits d d' i) (hcome : d.ToCome u c)
    (hkept : ∀ w ∈ d.pending, (∀ j ids, d.transactions j ≠ some (.markAsRead w (.marked ids))) →
      w ∈ d'.pending) : d'.ToCome u c := by
  obtain ⟨w, hw, hu, hc, hlooks⟩ := hcome
  exact ⟨w, hkept w hw hlooks, hu, hc, fun j ids hj => hlooks j ids (h.transactions_of hj).2⟩

/-- No commit makes another transaction leave a row that rests on nothing. -/
def Apart (site : Site) (d d' : Database) (i : ℕ) : Prop :=
  ∀ j s, j ≠ i → d.transactions j = some s → ∀ u c, s.Leaves site d' u c →
    s.Leaves site d u c ∨ d.Covered u c

/-- A commit keeps the invariant, if what it writes does. -/
theorem Sound.commit (h : Sound site d) (hc : Commits d d' i) (hapart : Apart site d d' i)
    (hexist : ∀ um ∈ d'.rows, d'.Exists um.messageId)
    (hlt : ∀ msg ∈ d'.messages, msg.id < d'.nextMessage)
    (hunique : ∀ msg ∈ d'.messages, ∀ msg' ∈ d'.messages, msg.id = msg'.id → msg = msg')
    (hwork : ∀ w ∈ d'.pending, w.id < d'.nextWork)
    (hlisted : ∀ w ∈ d'.pending, d'.hasSubscription w.userId w.channel = true)
    (hcovered : ∀ u c, d.Covered u c → d'.Covered u c)
    (hrows : ∀ um ∈ d'.rows, um.read = false → ∀ msg ∈ d'.messages, msg.id = um.messageId →
      d'.Covered um.userId msg.channel ∨ d'.Marking um msg.channel) : Sound site d' where
  rows_exist := hexist
  messages_lt := hlt
  unique := hunique
  locks_lt := by
    intro id j hid
    rw [hc.locks] at hid
    rw [hc.nextMessage]
    unfold finish at hid
    dsimp only at hid
    by_cases hmine : d.locks (.message id) = some i
    · exact h.locks_lt id i hmine
    · rw [if_neg hmine] at hid
      exact h.locks_lt id j hid
  pending_lt := hwork
  listed := hlisted
  shape := by
    intro j s hs
    obtain ⟨hji, hs⟩ := hc.transactions_of hs
    exact (h.shape j s hs).frame (hc.frame hji)
  leaves := by
    intro j s hs u c hleft
    obtain ⟨hji, hs⟩ := hc.transactions_of hs
    refine hcovered u c ?_
    rcases hapart j s hji hs u c hleft with hold | hnew
    · exact h.leaves j s hs u c hold
    · exact hnew
  rows := hrows

/-! ## Messages -/

theorem locks_own {k : Key} (h : d.locks k = some i) : (d.proceed i t keys).locks k = some i := by
  rw [locks_proceed, h, ite_self]

theorem mem_subscribers : u ∈ d.subscribers c ↔ d.isSubscribed u c = true := by
  unfold subscribers isSubscribed
  rw [mem_map, any_eq_true]
  refine exists_congr fun s => ?_
  rw [mem_filter]
  simp only [and_eq_true, decide_eq_true_eq]
  constructor
  · rintro ⟨⟨hs, hc, ha⟩, hu⟩
    exact ⟨hs, ⟨hu, hc⟩, ha⟩
  · rintro ⟨hs, ⟨hu, hc⟩, ha⟩
    exact ⟨⟨hs, hc, ha⟩, hu⟩

/-- A new id is taken from the sequence. -/
theorem Sound.bump (h : Sound site d) :
    Sound site { d with nextMessage := d.nextMessage + 1 } := { h with
  messages_lt := fun msg hmsg => Nat.lt_succ_of_lt (h.messages_lt msg hmsg)
  locks_lt := fun id j hid => Nat.lt_succ_of_lt (h.locks_lt id j hid)
  shape := fun j s hs => (h.shape j s hs).frame
    ⟨fun _ hk => hk, fun _ hm => hm, fun _ hm _ => hm, fun _ hw _ => hw, fun _ _ hl => hl⟩ }

theorem Sound.sendStatement {r : SendRequest} {stage : SendStage} (h : Sound site d)
    (hs : d.transactions i = some (.send r stage))
    (hapart : Apart site d (r.statement d i stage).2 i) :
    Sound site (r.statement d i stage).2 := by
  have hold := unmarked_of hs (by rintro ⟨w, ids, ⟨⟩⟩)
  have hmine := h.leaves i _ hs
  have hshape := h.shape i _ hs
  cases stage with
  | start =>
    refine h.proceed free_nil hold (by rintro ⟨w, ids, h⟩; cases h) (by simp) trivial ?_
    rintro u c ⟨rfl, hu, -⟩
    exact .inl (mem_subscribers.mp (mem_of_mem_filter hu))
  | informed users =>
    have hlocks : ∀ j, d.locks (.message d.nextMessage) ≠ some j :=
      fun j hj => Nat.lt_irrefl _ (h.locks_lt _ j hj)
    refine h.bump.proceed ?_ hold (by rintro ⟨w, ids, h⟩; cases h) ?_ ?_ hmine
    · exact free_iff.mpr fun k hk j hj => by
        rw [mem_singleton.mp hk] at hj
        exact absurd hj (hlocks j)
    · intro id hid
      obtain rfl := Key.message.inj (mem_singleton.mp hid)
      exact Nat.lt_succ_self _
    · exact ⟨if_pos mem_cons_self, fun msg hmsg => Nat.ne_of_lt (h.messages_lt msg hmsg)⟩
  | created message users =>
    refine h.proceed free_nil hold (by rintro ⟨w, ids, h⟩; cases h) (by simp) ?_ ?_
    · refine ⟨⟨locks_own hshape.locked, hshape.new⟩, fun um hum => ?_⟩
      obtain ⟨userId, -, rfl⟩ := mem_map.mp hum
      rfl
    · rintro u c ⟨rfl, um, hum, rfl, hread⟩
      obtain ⟨userId, huser, rfl⟩ := mem_map.mp hum
      exact hmine _ _ ⟨rfl, huser, of_decide_eq_false hread⟩
  | inserted message ums =>
    obtain ⟨hfresh, hids⟩ := hshape
    have hc : Commits d (r.statement d i (.inserted message ums)).2 i := {
      transactions := rfl
      locks := rfl
      nextMessage := rfl
      exists_id := by
        rintro m ⟨msg, hmsg, hid⟩
        exact ⟨msg, mem_append_left _ hmsg, hid⟩
      messages := by
        intro msg hmsg
        rcases mem_append.mp hmsg with hmsg | hmsg
        · exact .inl hmsg
        · obtain rfl := mem_singleton.mp hmsg
          exact .inr hfresh.locked
      pending := fun _ hw _ => hw
      listed := fun _ _ hl => hl }
    have hcovered : ∀ u c, d.Covered u c → (r.statement d i (.inserted message ums)).2.Covered u c :=
      fun u c hcov => hcov.imp id fun hcome => hc.toCome hcome fun w hw _ => hw
    refine h.commit hc hapart ?_ ?_ ?_ h.pending_lt h.listed hcovered ?_
    · intro um hum
      rcases mem_append.mp hum with hum | hum
      · exact hc.exists_id _ (h.rows_exist um hum)
      · exact ⟨message, mem_append_right _ mem_cons_self, (hids um hum).symm⟩
    · intro msg hmsg
      rcases mem_append.mp hmsg with hmsg | hmsg
      · exact h.messages_lt msg hmsg
      · obtain rfl := mem_singleton.mp hmsg
        exact h.locks_lt _ _ hfresh.locked
    · intro msg hmsg msg' hmsg' hid
      rcases mem_append.mp hmsg with hmsg | hmsg
      · rcases mem_append.mp hmsg' with hmsg' | hmsg'
        · exact h.unique msg hmsg msg' hmsg' hid
        · rw [mem_singleton.mp hmsg'] at hid
          exact absurd hid (hfresh.new msg hmsg)
      · rw [mem_singleton.mp hmsg] at hid ⊢
        rcases mem_append.mp hmsg' with hmsg' | hmsg'
        · exact absurd hid.symm (hfresh.new msg' hmsg')
        · exact (mem_singleton.mp hmsg').symm
    · intro um hum hread msg hmsg hid
      rcases mem_append.mp hum with hthere | hnew
      · -- The rows there were are of other messages.
        rcases mem_append.mp hmsg with hmsg | hmsg
        · exact (h.rows um hthere hread msg hmsg hid).imp (hcovered _ _)
            (hc.marking hold rfl rfl)
        · obtain ⟨other, hother, hsame⟩ := h.rows_exist um hthere
          rw [mem_singleton.mp hmsg] at hid
          exact absurd (hsame.trans hid.symm) (hfresh.new other hother)
      · rcases mem_append.mp hmsg with hmsg | hmsg
        · exact absurd (hid.trans (hids um hnew)) (hfresh.new msg hmsg)
        · rw [mem_singleton.mp hmsg]
          exact .inl (hcovered _ _ (hmine _ _ ⟨rfl, um, hnew, rfl, hread⟩))

/-! ## Flags -/

theorem mem_subscribedChannels : c ∈ d.subscribedChannels u ↔ d.isSubscribed u c = true := by
  unfold subscribedChannels isSubscribed
  rw [mem_map, any_eq_true]
  refine exists_congr fun s => ?_
  rw [mem_filter]
  simp only [and_eq_true, decide_eq_true_eq]
  constructor
  · rintro ⟨⟨hs, hu, ha⟩, hc⟩
    exact ⟨hs, ⟨hu, hc⟩, ha⟩
  · rintro ⟨hs, ⟨hu, hc⟩, ha⟩
    exact ⟨⟨hs, hu, ha⟩, hc⟩

theorem isIn_iff {c m : ℕ} : d.isIn c m = true ↔ ∃ msg ∈ d.messages, msg.id = m ∧ msg.channel = c := by
  unfold isIn
  rw [any_eq_true]
  refine exists_congr fun msg => and_congr_right fun _ => ?_
  rw [and_eq_true, decide_eq_true_eq, decide_eq_true_eq]

theorem mem_insertNew {rows new : List Row} (h : um ∈ insertNew rows new) : um ∈ rows ∨ um ∈ new :=
  (mem_append.mp h).imp_right mem_of_mem_filter

/-- A request that considers fewer messages leaves no more. -/
theorem FlagsRequest.Leaves.of_subset {r : FlagsRequest} {stage stage' : FlagsStage}
    (h : r.Leaves d stage' u c) (hsub : ∀ m ∈ r.named stage', m ∈ r.named stage)
    (hstage : ∀ channels, stage ≠ .subscribed channels := by rintro cs ⟨⟩) : r.Leaves d stage u c := by
  obtain ⟨hadding, hu, ⟨m, hm, hin⟩, -⟩ := h
  exact ⟨hadding, hu, ⟨m, hsub m hm, hin⟩, fun channels heq => absurd heq (hstage channels)⟩

/-- A transaction fails. -/
theorem Sound.rollback (h : Sound site d)
    (hold : ∀ s, d.transactions i = some s → ¬s.IsMarked) : Sound site (d.finish i) := by
  have hc : Commits d (d.finish i) i :=
    ⟨rfl, rfl, rfl, fun _ hm => hm, fun _ hm => .inl hm, fun _ hw _ => hw,
      fun _ _ hl => hl⟩
  have hcovered : ∀ u c, d.Covered u c → (d.finish i).Covered u c :=
    fun u c hcov => hcov.imp id fun hcome => hc.toCome hcome fun w hw _ => hw
  refine h.commit hc (fun j s _ _ u c hleft => .inl hleft) h.rows_exist h.messages_lt
    h.unique h.pending_lt h.listed hcovered fun um hum hread msg hmsg hid => ?_
  exact (h.rows um hum hread msg hmsg hid).imp (hcovered _ _) (hc.marking hold rfl rfl)

theorem Sound.flagsStatement {r : FlagsRequest} {stage : FlagsStage} (h : Sound site d)
    (hs : d.transactions i = some (.updateFlags r stage))
    (hapart : Apart site d (r.statement site d i stage).2 i) :
    Sound site (r.statement site d i stage).2 := by
  have hold := unmarked_of hs (by rintro ⟨w, ids, ⟨⟩⟩)
  have hnot : ∀ stage, ¬(updateFlags r stage).IsMarked := by
    rintro stage ⟨w, ids, h⟩
    cases h
  have hrow : ∀ (ms : List ℕ) (id : ℕ), Key.message id ∈ ms.map (Key.row r.userId) →
      id < d.nextMessage := by
    intro ms id hid
    obtain ⟨m, -, hm⟩ := mem_map.mp hid
    cases hm
  have hmine := h.leaves i _ hs
  have hshape := h.shape i _ hs
  cases stage with
  | start =>
    unfold FlagsRequest.statement
    dsimp only
    split
    · next hadding =>
      refine h.proceed free_nil hold (hnot _) (by simp) trivial ?_
      rintro u c ⟨hremoving, -⟩
      rw [hadding] at hremoving
      cases hremoving
    · refine h.proceed free_nil hold (hnot _) (by simp) trivial ?_
      rintro u c ⟨-, rfl, -, hchannels⟩
      exact .inl (mem_subscribedChannels.mp (hchannels _ rfl))
  | subscribed channels =>
    refine h.proceed free_nil hold (hnot _) (by simp) trivial ?_
    rintro u c ⟨hadding, rfl, ⟨m, hm, hin⟩, -⟩
    obtain ⟨hnamed, helsewhere⟩ := mem_filter.mp hm
    refine hmine _ _ ⟨hadding, rfl, ⟨m, hnamed, hin⟩, ?_⟩
    rintro _ ⟨⟩
    -- Messages elsewhere are not considered.
    obtain ⟨msg, hmsg, hid, rfl⟩ := isIn_iff.mp hin
    by_contra hout
    rw [Bool.not_eq_true', isElsewhere, any_eq_false] at helsewhere
    exact helsewhere msg hmsg (by simp [hid, hout])
  | considered messages =>
    refine h.await fun hfree => h.proceed hfree hold (hnot _) (hrow _) trivial fun u c hleft => ?_
    exact hmine u c (FlagsRequest.Leaves.of_subset hleft fun m hm => mem_of_mem_filter hm)
  | selected messages ums =>
    unfold FlagsRequest.statement
    dsimp only
    split
    · refine h.proceed free_nil hold (hnot _) (by simp) (by rintro m ⟨⟩) fun u c hleft => ?_
      exact hmine u c (FlagsRequest.Leaves.of_subset hleft fun m hm => hm)
    · split
      · next hall =>
        refine h.proceed free_nil hold (hnot _) (by simp) ?_ fun u c hleft => ?_
        · intro m hm
          obtain ⟨msg, hmsg, heq⟩ := any_eq_true.mp (all_eq_true.mp hall m hm)
          exact ⟨msg, hmsg, of_decide_eq_true (and_eq_true _ _ ▸ heq).1⟩
        · exact hmine u c (FlagsRequest.Leaves.of_subset hleft fun m hm => hm)
      · exact h.rollback hold
  | accessed messages ums =>
    refine h.await fun hfree => h.proceed hfree hold (hnot _) (hrow _) ?_ fun u c hleft => ?_
    · exact fun m hm => ⟨hshape m hm, mem_of_mem_filter hm⟩
    · exact hmine u c (FlagsRequest.Leaves.of_subset hleft fun m hm => hm)
  | inserted messages ums historical =>
    refine h.proceed free_nil hold (hnot _) (by simp) ?_ fun u c hleft => ?_
    · exact ⟨hshape, fun m hm => mem_of_mem_filter hm⟩
    · exact hmine u c (FlagsRequest.Leaves.of_subset hleft fun m hm => hm)
  | updated messages toUpdate historical =>
    obtain ⟨hhistorical, hupdate⟩ := hshape
    have hc : Commits d (r.statement site d i (.updated messages toUpdate historical)).2 i :=
      ⟨rfl, rfl, rfl, fun _ hm => hm, fun _ hm => .inl hm, fun _ hw _ => hw,
      fun _ _ hl => hl⟩
    have hcovered : ∀ u c, d.Covered u c →
        (r.statement site d i (.updated messages toUpdate historical)).2.Covered u c :=
      fun u c hcov => hcov.imp id fun hcome => hc.toCome hcome fun w hw _ => hw
    -- What the request has made unread rests on what it has read.
    have hnew : ∀ m, m ∈ toUpdate ∨ m ∈ historical → r.isAdding = false →
        ∀ msg ∈ d.messages, msg.id = m → d.Covered r.userId msg.channel := by
      intro m hm hadding msg hmsg hid
      have hnamed : m ∈ messages := hm.elim (hupdate m) fun hin => (hhistorical m hin).2
      exact hmine _ _ ⟨hadding, rfl, ⟨m, hnamed, isIn_iff.mpr ⟨msg, hmsg, hid, rfl⟩⟩,
        fun _ heq => by cases heq⟩
    refine h.commit hc hapart ?_ h.messages_lt h.unique h.pending_lt h.listed hcovered ?_
    · intro um hum
      rcases mem_insertNew hum with hum | hum
      · obtain ⟨old, hin, rfl⟩ := mem_map.mp hum
        have hexists := h.rows_exist old hin
        split
        · exact hexists
        · exact hexists
      · obtain ⟨m, hm, rfl⟩ := mem_map.mp hum
        exact (hhistorical m hm).1
    · intro um hum hread msg hmsg hid
      rcases mem_insertNew hum with hum | hum
      · obtain ⟨old, hin, rfl⟩ := mem_map.mp hum
        by_cases hcond : (old.userId = r.userId &&
            (old.messageId ∈ toUpdate || old.messageId ∈ historical)) = true
        · rw [if_pos hcond] at hread hid ⊢
          rw [and_eq_true, decide_eq_true_eq, Bool.or_eq_true, decide_eq_true_eq,
            decide_eq_true_eq] at hcond
          left
          rw [hcond.1]
          exact hcovered _ _ (hnew old.messageId hcond.2 hread msg hmsg hid)
        · rw [if_neg hcond] at hread hid ⊢
          exact (h.rows old hin hread msg hmsg hid).imp (hcovered _ _) (hc.marking hold rfl rfl)
      · obtain ⟨m, hm, rfl⟩ := mem_map.mp hum
        exact .inl (hcovered _ _ (hnew m (.inr hm) hread msg hmsg hid))

/-! ## Moves -/

theorem mem_allSubscribers : u ∈ d.allSubscribers c ↔ d.hasSubscription u c = true := by
  unfold allSubscribers hasSubscription
  rw [mem_map, any_eq_true]
  refine exists_congr fun s => ?_
  rw [mem_filter]
  simp only [and_eq_true, decide_eq_true_eq]
  rw [and_assoc, and_comm (a := s.channel = c)]

theorem hasSubscription_of_isSubscribed (h : d.isSubscribed u c = true) :
    d.hasSubscription u c = true := by
  obtain ⟨s, hs, heq⟩ := any_eq_true.mp h
  exact any_eq_true.mpr ⟨s, hs, (and_eq_true _ _ ▸ heq).1⟩

/-- What an unread row rests on has left a subscription. -/
theorem Sound.hasSubscription (h : Sound site d) {c : ℕ}
    (hrests : d.Covered um.userId c ∨ d.Marking um c) : d.hasSubscription um.userId c = true := by
  rcases hrests with (hsub | ⟨w, hw, hu, rfl, -⟩) | ⟨j, w, ids, hj, hu, rfl, -⟩
  · exact hasSubscription_of_isSubscribed hsub
  · rw [← hu]
    exact h.listed w hw
  · rw [← hu]
    exact h.listed w (h.shape j _ hj).2

theorem mem_view {rows : List Row} (h : um ∈ m.view rows) :
    (um ∈ rows ∨ um ∈ m.gained) ∧ (um.userId, um.messageId) ∉ m.deleted := by
  obtain ⟨hin, hout⟩ := mem_filter.mp h
  refine ⟨mem_insertNew hin, fun hmem => ?_⟩
  rw [contains_iff_mem.mpr hmem] at hout
  cases hout

theorem channel_of_changes {msg : Message}
    (h : r.changes site d m msg = true) : msg.channel = m.channel := by
  unfold MoveRequest.changes at h
  rw [and_eq_true, and_eq_true, and_eq_true, decide_eq_true_eq] at h
  exact h.1.1.1

/-- With fewer rows no more messages can be moved. -/
theorem changes_of_deleted {keys : List (ℕ × ℕ)} {msg : Message}
    (hnone : m.deleted = []) (h : r.changes site d { m with deleted := keys } msg = true) :
    r.changes site d m msg = true := by
  have hrow : hasRow (Moving.view { m with deleted := keys } d.rows) r.userId msg.id = true →
      hasRow (m.view d.rows) r.userId msg.id = true := by
    intro hin
    obtain ⟨um, hum, heq⟩ := any_eq_true.mp hin
    refine any_eq_true.mpr ⟨um, mem_filter.mpr ⟨(mem_filter.mp hum).1, ?_⟩, heq⟩
    rw [hnone]
    rfl
  unfold MoveRequest.changes at h ⊢
  rw [and_eq_true] at h ⊢
  refine ⟨h.1, ?_⟩
  have haccess := h.2
  cases hcase : site.streamAccess r.userId d.subscriptions m.channel with
  | none =>
    rw [hcase] at haccess
    cases haccess
  | withRow =>
    rw [hcase] at haccess
    exact hrow haccess
  | all => rfl

theorem Moving.Located.proceed (h : m.Located d i r) : m.Located (d.proceed i t keys) i r where
  locked := locks_own h.locked
  channel := h.channel
  exists_id := h.exists_id
  changed := h.changed
  gained := h.gained
  moved := fun id hid => locks_own (h.moved id hid)

/-- Rows are deleted of all who do not keep them through the target. -/
theorem Sound.covered_of_keeps (h : Sound site d) {u : ℕ}
    {keys : List (ℕ × ℕ)} (hlocated : m.Located d i r) (hnone : m.deleted = [])
    (hkeys : keys = ((m.view d.rows).filter fun um =>
      um.userId ∈ (d.allSubscribers m.channel).filter (· ∉ d.subscribers r.targetChannel) &&
        um.messageId ∈ r.changedMessages site d m).map fun um => (um.userId, um.messageId))
    (hkeeps : Moving.Keeps { m with deleted := keys } d
      (r.Selects site d { m with deleted := keys }) u) : d.Covered u r.targetChannel := by
  obtain ⟨um, hum, rfl, hread, hkept, msg, hmsg, hid, hselects⟩ := hkeeps
  have hchannel : msg.channel = m.channel := by
    rcases hselects with htarget | hchanges
    · exact hlocated.channel msg hmsg htarget
    · exact channel_of_changes (changes_of_deleted hnone hchanges)
  have hchanged : um.messageId ∈ r.changedMessages site d m := by
    rw [← hid]
    rcases hselects with htarget | hchanges
    · rw [htarget]
      exact mem_cons_self
    · refine mem_cons_of_mem _ (mem_map_of_mem (mem_filter.mpr ⟨hmsg, ?_⟩))
      exact changes_of_deleted hnone hchanges
  have hall : um.userId ∈ d.allSubscribers m.channel := by
    rw [mem_allSubscribers, ← hchannel]
    exact h.hasSubscription (h.rows um hum hread msg hmsg hid)
  by_cases hcurrent : um.userId ∈ d.subscribers r.targetChannel
  · exact .inl (mem_subscribers.mp hcurrent)
  · refine absurd ?_ hkept
    rw [hkeys]
    refine mem_map_of_mem (mem_filter.mpr ⟨?_, ?_⟩)
    · refine mem_filter.mpr ⟨mem_append_left _ hum, ?_⟩
      rw [hnone]
      rfl
    · rw [and_eq_true, decide_eq_true_eq, decide_eq_true_eq]
      exact ⟨mem_filter.mpr ⟨hall, decide_eq_true hcurrent⟩, hchanged⟩

/-- A move is committed: the rows that are kept rest on the target, or are of other messages. -/
theorem Sound.commitMove (h : Sound site d) (hs : d.transactions i = some (.move r (.propagated m)))
    (hapart : Apart site d (r.statement site d i (.propagated m)).2 i) :
    Sound site (r.statement site d i (.propagated m)).2 := by
  have hold := unmarked_of hs (by rintro ⟨w, ids, ⟨⟩⟩)
  have hmine := h.leaves i _ hs
  have hlocated : m.Located d i r := h.shape i _ hs
  have hid : ∀ msg : Message,
      (if msg.id ∈ m.moved then (⟨msg.id, r.targetChannel, r.targetTopic⟩ : Message) else msg).id =
        msg.id := by
    intro msg
    split
    · rfl
    · rfl
  have hc : Commits d (r.statement site d i (.propagated m)).2 i := {
    transactions := rfl
    locks := rfl
    nextMessage := rfl
    exists_id := by
      rintro id ⟨msg, hmsg, rfl⟩
      exact ⟨_, mem_map_of_mem hmsg, hid msg⟩
    messages := by
      intro msg' hmsg'
      obtain ⟨msg, hmsg, rfl⟩ := mem_map.mp hmsg'
      by_cases hmoved : msg.id ∈ m.moved
      · right
        rw [hid]
        exact hlocated.moved _ hmoved
      · rw [if_neg hmoved]
        exact .inl hmsg
    pending := fun _ hw _ => hw
    listed := fun _ _ hl => hl }
  have hcovered : ∀ u c, d.Covered u c →
      (r.statement site d i (.propagated m)).2.Covered u c :=
    fun u c hcov => hcov.imp id fun hcome => hc.toCome hcome fun w hw _ => hw
  refine h.commit hc hapart ?_ ?_ ?_ h.pending_lt h.listed hcovered ?_
  · intro um hum
    rcases (mem_view hum).1 with hum | hum
    · exact hc.exists_id _ (h.rows_exist um hum)
    · exact hc.exists_id _ (hlocated.gained um hum).2
  · intro msg' hmsg'
    obtain ⟨msg, hmsg, rfl⟩ := mem_map.mp hmsg'
    rw [hid]
    exact h.messages_lt msg hmsg
  · intro msg₁ hmsg₁ msg₂ hmsg₂ heq
    obtain ⟨old₁, hold₁, rfl⟩ := mem_map.mp hmsg₁
    obtain ⟨old₂, hold₂, rfl⟩ := mem_map.mp hmsg₂
    rw [hid, hid] at heq
    rw [h.unique old₁ hold₁ old₂ hold₂ heq]
  · intro um hum hread msg' hmsg' hidrow
    obtain ⟨msg, hmsg, rfl⟩ := mem_map.mp hmsg'
    rw [hid] at hidrow
    obtain ⟨hin, hkept⟩ := mem_view hum
    have hthere : um ∈ d.rows := by
      refine hin.resolve_right fun hgained => ?_
      rw [(hlocated.gained um hgained).1] at hread
      cases hread
    by_cases hmoved : msg.id ∈ m.moved
    · rw [if_pos hmoved]
      left
      exact hcovered _ _ (hmine _ _ ⟨rfl, um, hthere, rfl, hread, hkept, msg, hmsg, hidrow, hmoved⟩)
    · rw [if_neg hmoved]
      exact (h.rows um hthere hread msg hmsg hidrow).imp (hcovered _ _) (hc.marking hold rfl rfl)

theorem Sound.moveStatement {stage : MoveStage} (h : Sound site d)
    (hs : d.transactions i = some (.move r stage))
    (hapart : Apart site d (r.statement site d i stage).2 i) :
    Sound site (r.statement site d i stage).2 := by
  have hold := unmarked_of hs (by rintro ⟨w, ids, ⟨⟩⟩)
  have hnot : ∀ stage, ¬(move r stage).IsMarked := by
    rintro stage ⟨w, ids, h⟩
    cases h
  have hmine := h.leaves i _ hs
  have hshape := h.shape i _ hs
  cases stage with
  | start =>
    unfold MoveRequest.statement
    cases hfind : d.messages.find? fun msg => msg.id = r.messageId with
    | none => exact h.rollback hold
    | some msg =>
      have hmsg := mem_of_find?_eq_some hfind
      have hid : msg.id = r.messageId := by simpa using find?_some hfind
      dsimp only
      split
      · exact h.rollback hold
      · refine h.await fun hfree => h.proceed hfree hold (hnot _) ?_ ?_ (by rintro u c ⟨⟩)
        · intro id hin
          obtain rfl := Key.message.inj (mem_singleton.mp hin)
          rw [← hid]
          exact h.messages_lt msg hmsg
        · refine ⟨?_, rfl⟩
          exact {
            locked := if_pos mem_cons_self
            channel := by
              intro msg' hmsg' hid'
              rw [h.unique msg' hmsg' msg hmsg (hid'.trans hid.symm)]
            exists_id := ⟨msg, hmsg, hid⟩
            changed := by simp
            gained := by simp
            moved := by simp }
  | locked m =>
    obtain ⟨hlocated, hnone⟩ := hshape
    refine h.proceed free_nil hold (hnot _) (by simp) ⟨?_, hnone⟩ (by rintro u c ⟨⟩)
    exact { hlocated.proceed with }
  | gaining m =>
    obtain ⟨hlocated, hnone⟩ := hshape
    refine h.proceed free_nil hold (hnot _) (by simp) ⟨?_, hnone⟩ (by rintro u c ⟨⟩)
    exact { hlocated.proceed with
      changed := by
        intro id hid
        rcases mem_cons.mp hid with rfl | hid
        · exact hlocated.exists_id
        · obtain ⟨msg, hmsg, rfl⟩ := mem_map.mp hid
          exact ⟨msg, mem_of_mem_filter hmsg, rfl⟩ }
  | changed m =>
    obtain ⟨hlocated, hnone⟩ := hshape
    refine h.await fun hfree => h.proceed hfree hold (hnot _) ?_ ⟨?_, hnone⟩ (by rintro u c ⟨⟩)
    · intro id hin
      obtain ⟨um, -, hum⟩ := mem_map.mp hin
      cases hum
    · exact { hlocated.proceed with
        gained := by
          intro um hum
          obtain ⟨userId, -, hum⟩ := mem_flatMap.mp (mem_of_mem_filter hum)
          obtain ⟨messageId, hin, rfl⟩ := mem_map.mp hum
          exact ⟨rfl, hlocated.changed _ hin⟩ }
  | inserted m =>
    obtain ⟨hlocated, hnone⟩ := hshape
    refine h.await fun hfree => h.proceed hfree hold (hnot _) ?_ ?_ ?_
    · intro id hin
      obtain ⟨k, -, hk⟩ := mem_map.mp hin
      cases hk
    · exact { hlocated.proceed with }
    · rintro u c ⟨rfl, hkeeps⟩
      exact h.covered_of_keeps hlocated hnone rfl hkeeps
  | deleted m =>
    have hlocated : m.Located d i r := hshape
    refine h.proceed free_nil hold (hnot _) (by simp) ⟨?_, ?_⟩ hmine
    · exact { hlocated.proceed with
        moved := by
          intro id hid
          rw [mem_singleton.mp hid]
          exact locks_own hlocated.locked }
    · intro id hid
      exact mem_singleton.mp hid
  | saved m =>
    obtain ⟨hlocated, hsaved⟩ := hshape
    refine h.await fun hfree => h.proceed hfree hold (hnot _) ?_ ?_ ?_
    · intro id hin
      obtain ⟨k, hk, hkey⟩ := mem_map.mp hin
      obtain ⟨msg, hmsg, rfl⟩ := mem_map.mp hk
      obtain rfl := Key.message.inj hkey
      exact h.messages_lt msg (mem_of_mem_filter hmsg)
    · exact { hlocated.proceed with
        moved := by
          intro id hid
          rcases mem_append.mp hid with hid | hid
          · exact locks_own (hlocated.moved id hid)
          · exact if_pos (mem_map_of_mem hid) }
    · rintro u c ⟨rfl, um, hum, rfl, hread, hkept, msg, hmsg, hid, hmoved⟩
      refine hmine _ _ ⟨rfl, um, hum, rfl, hread, hkept, msg, hmsg, hid, ?_⟩
      rcases mem_append.mp hmoved with hmoved | hmoved
      · exact .inl (hsaved _ hmoved)
      · obtain ⟨msg', hmsg', hsame⟩ := mem_map.mp hmoved
        obtain ⟨hin, hchanges⟩ := mem_filter.mp hmsg'
        rw [h.unique msg hmsg msg' hin hsame.symm]
        exact .inr hchanges
  | propagated m => exact h.commitMove hs hapart

/-! ## Deferred work -/

/-- Who is covered stays covered, but for the user and the channel at which the work looks. -/
theorem covered_look (w : Work) (ids : List ℕ) (h : d.Covered u c) :
    (d.proceed i (.markAsRead w (.marked ids)) keys).Covered u c ∨
      (u = w.userId ∧ c = w.channel) := by
  rcases h with hsub | ⟨w', hw', hu, hc, hlooks⟩
  · exact .inl (.inl hsub)
  · by_cases hsame : w' = w
    · subst hsame
      exact .inr ⟨hu.symm, hc.symm⟩
    · refine .inl (.inr ⟨w', hw', hu, hc, fun j ids' hj => ?_⟩)
      rw [transactions_proceed] at hj
      by_cases hji : j = i
      · rw [if_pos hji, Option.some.injEq, markAsRead.injEq] at hj
        exact hsame hj.1.symm
      · rw [if_neg hji] at hj
        exact hlooks j ids' hj

/-- The statement that looks at the channel for the last time. -/
theorem Sound.look {w : Work} {stage : WorkStage} (h : Sound site d)
    (hs : d.transactions i = some (.markAsRead w stage)) (hstage : ∀ ids, stage ≠ .marked ids)
    (hfree : d.free i ((w.unread d).map (.row w.userId)) = true)
    (hlooks : ∀ j s, j ≠ i → d.transactions j = some s → s.Leaves site d w.userId w.channel →
      (d.proceed i (.markAsRead w (.marked (w.unread d)))
        ((w.unread d).map (.row w.userId))).Covered w.userId w.channel) :
    Sound site (d.proceed i (.markAsRead w (.marked (w.unread d)))
      ((w.unread d).map (.row w.userId))) := { h with
  locks_lt := by
    intro id j hid
    rw [locks_proceed, if_neg] at hid
    · exact h.locks_lt id j hid
    · intro hin
      obtain ⟨m, -, hm⟩ := mem_map.mp hin
      cases hm
  shape := by
    intro j s hs'
    rw [transactions_proceed] at hs'
    by_cases hji : j = i
    · subst hji
      rw [if_pos rfl, Option.some.injEq] at hs'
      subst hs'
      exact ⟨locks_own (h.shape j _ hs).1, (h.shape j _ hs).2⟩
    · rw [if_neg hji] at hs'
      exact (h.shape j s hs').frame (frame_proceed hfree hji)
  leaves := by
    intro j s hs' u c hleft
    rw [transactions_proceed] at hs'
    by_cases hji : j = i
    · rw [if_pos hji, Option.some.injEq] at hs'
      subst hs'
      exact hleft.elim
    · rw [if_neg hji] at hs'
      rcases covered_look w (w.unread d) (h.leaves j s hs' u c hleft) with hcov | ⟨rfl, rfl⟩
      · exact hcov
      · exact hlooks j s hji hs' hleft
  rows := by
    intro um hum hread msg hmsg hid
    rcases h.rows um hum hread msg hmsg hid with hcov | hmark
    · refine (covered_look w (w.unread d) hcov).imp_right ?_
      rintro ⟨hu, hc⟩
      refine ⟨i, w, w.unread d, ?_, hu.symm, hc.symm, ?_⟩
      · rw [transactions_proceed, if_pos rfl]
      · refine mem_map_of_mem (mem_filter.mpr ⟨hum, ?_⟩)
        rw [hread, and_eq_true, and_eq_true]
        exact ⟨⟨decide_eq_true hu, rfl⟩, isIn_iff.mpr ⟨msg, hmsg, hid, hc⟩⟩
    · refine .inr (marking_proceed ?_ hmark)
      rintro s hs' ⟨w', ids, rfl⟩
      rw [hs, Option.some.injEq, markAsRead.injEq] at hs'
      exact hstage ids hs'.2 }

/-- What is marked is written, and the item leaves the queue. -/
theorem Sound.commitWork {w : Work} {ids : List ℕ} (h : Sound site d)
    (hs : d.transactions i = some (.markAsRead w (.marked ids)))
    (hapart : Apart site d (w.statement d i (.marked ids)).2 i) :
    Sound site (w.statement d i (.marked ids)).2 := by
  have hlocked := (h.shape i _ hs).1
  have hc : Commits d (w.statement d i (.marked ids)).2 i := {
    transactions := rfl
    locks := rfl
    nextMessage := rfl
    exists_id := fun _ hm => hm
    messages := fun _ hm => .inl hm
    pending := by
      intro w' hw' hother
      refine mem_filter.mpr ⟨hw', decide_eq_true ?_⟩
      rintro rfl
      exact hother hlocked
    listed := fun _ _ hl => hl }
  have hcovered : ∀ u c, d.Covered u c → (w.statement d i (.marked ids)).2.Covered u c := by
    intro u c hcov
    refine hcov.imp id fun hcome => hc.toCome hcome fun w' hw' hlooks => ?_
    refine mem_filter.mpr ⟨hw', decide_eq_true ?_⟩
    rintro rfl
    exact hlooks i ids hs
  refine h.commit hc hapart ?_ h.messages_lt h.unique ?_ ?_ hcovered ?_
  · intro um hum
    obtain ⟨old, hin, rfl⟩ := mem_map.mp hum
    have hexists := h.rows_exist old hin
    split
    · exact hexists
    · exact hexists
  · exact fun w' hw' => h.pending_lt w' (mem_of_mem_filter hw')
  · exact fun w' hw' => h.listed w' (mem_of_mem_filter hw')
  · intro um hum hread msg hmsg hid
    obtain ⟨old, hin, rfl⟩ := mem_map.mp hum
    by_cases hcond : (old.userId = w.userId && old.messageId ∈ ids) = true
    · rw [if_pos hcond] at hread
      cases hread
    · rw [if_neg hcond] at hread hid ⊢
      refine (h.rows old hin hread msg hmsg hid).imp (hcovered _ _) ?_
      rintro ⟨j, w', ids', hj, hu, hchannel, hmem⟩
      refine ⟨j, w', ids', ?_, hu, hchannel, hmem⟩
      rw [hc.transactions, transactions_finish, if_neg, hj]
      rintro rfl
      rw [hs, Option.some.injEq, markAsRead.injEq, WorkStage.marked.injEq] at hj
      obtain ⟨rfl, rfl⟩ := hj
      refine hcond ?_
      rw [and_eq_true, decide_eq_true_eq, decide_eq_true_eq]
      exact ⟨hu.symm, hmem⟩

theorem Sound.workStatement {w : Work} {stage : WorkStage} (h : Sound site d)
    (hs : d.transactions i = some (.markAsRead w stage))
    (hapart : Apart site d (w.statement d i stage).2 i)
    (hlooks : ∀ ids, (w.statement d i stage).2.transactions i = some (.markAsRead w (.marked ids)) →
      ∀ j s, j ≠ i → d.transactions j = some s → s.Leaves site d w.userId w.channel →
        (w.statement d i stage).2.Covered w.userId w.channel) :
    Sound site (w.statement d i stage).2 := by
  have hshape := h.shape i _ hs
  have hlook : (∀ ids, stage ≠ .marked ids) → ∀ new, new = .marked (w.unread d) →
      (w.statement d i stage) = d.await i (.markAsRead w new) ((w.unread d).map (.row w.userId)) →
      Sound site (w.statement d i stage).2 := by
    rintro hstage new rfl heq
    rw [heq] at hlooks ⊢
    unfold Database.await at hlooks ⊢
    by_cases hfree : d.free i ((w.unread d).map (.row w.userId)) = true
    · rw [if_pos hfree] at hlooks ⊢
      refine h.look hs hstage hfree (hlooks (w.unread d) ?_)
      rw [transactions_proceed, if_pos rfl]
    · rw [if_neg hfree]
      exact h
  cases stage with
  | start =>
    by_cases hids : w.unread d = []
    · refine hlook (fun ids heq => by cases heq) _ rfl ?_
      show d.await i _ _ = _
      rw [if_pos hids, hids]
    · have hstatement : w.statement d i .start = d.await i (.markAsRead w (.selected (w.unread d)))
          ((w.unread d).map (.row w.userId)) := by
        show d.await i _ _ = _
        rw [if_neg hids]
      rw [hstatement]
      refine h.await fun hfree => h.proceed hfree ?_ ?_ ?_ ?_ (by rintro u c ⟨⟩)
      · rintro s hs' ⟨w', ids, rfl⟩
        rw [hs] at hs'
        cases hs'
      · rintro ⟨w', ids, heq⟩
        cases heq
      · intro id hin
        obtain ⟨m, -, hm⟩ := mem_map.mp hin
        cases hm
      · exact ⟨locks_own hshape.1, hshape.2⟩
  | selected ids => exact hlook (fun ids heq => by cases heq) _ rfl rfl
  | marked ids => exact h.commitWork hs hapart

end GrowTeam.Unsubscribing
