/-
# A send key sends once

Every interleaving of the statements keeps the invariants of the committed rows and of all
transactions: the rows of others only grow, and a key that a transaction has inserted is held by it
until it ends.
-/
import GrowTeam.SendKeys.Sends

namespace GrowTeam.SendKeys

open History Function Option World

variable {δ : Type} (digest : Payload → δ) (legacy : SendKey → Option δ)

/-- The invariant of a transaction. -/
structure TxnOk (db : Db δ) (index : SendKey → Option ℕ) (t : ℕ) (txn : Txn δ) : Prop where
  held : ∀ key, txn.intents key ≠ none → index key = some t
  state : txn.stage ≠ .sent ∧ (∃ done, Claiming digest db txn done) ∨
    txn.stage = .sent ∧ Sending digest db txn

/-- The invariant of the world. -/
structure WorldOk (w : World δ) : Prop where
  db : DbOk digest legacy w.db
  txns : ∀ t txn, w.txns t = some txn → TxnOk digest w.db w.index t txn

variable {digest legacy} {db db' : Db δ} {index index' : SendKey → Option ℕ} {t : ℕ}
  {txn : Txn δ} {w : World δ}

/-! ## What the others do -/

theorem Bound.mono (h : Bound digest db txn)
    (hgrow : ∀ key intent, db.intents key = some intent → db'.intents key = some intent)
    (hfree : ∀ key, txn.intents key ≠ none → db.intents key = none → db'.intents key = none) :
    Bound digest db' txn := { h with
  replayed r m hr := by
    obtain ⟨key, hkey, hintent⟩ := h.replayed r m hr
    exact ⟨key, hkey, hgrow key _ hintent⟩
  free key hne := hfree key hne (h.free key hne) }

theorem TxnOk.mono (h : TxnOk digest db index t txn)
    (hgrow : ∀ key intent, db.intents key = some intent → db'.intents key = some intent)
    (hfree : ∀ key, index key = some t → db.intents key = none → db'.intents key = none)
    (hindex : ∀ key, index key = some t → index' key = some t) :
    TxnOk digest db' index' t txn where
  held key hne := hindex key (h.held key hne)
  state := by
    have hfree' : ∀ key, txn.intents key ≠ none → db.intents key = none →
        db'.intents key = none := fun key hne => hfree key (h.held key hne)
    rcases h.state with ⟨hstage, done, hc⟩ | ⟨hstage, hs⟩
    · exact .inl ⟨hstage, done,
        { toBound := hc.toBound.mono hgrow hfree'
          split := hc.split
          unsent := hc.unsent
          covered := hc.covered
          once := hc.once
          creating := hc.creating }⟩
    · exact .inr ⟨hstage,
        { toBound := hs.toBound.mono hgrow hfree'
          created := hs.created
          once := hs.once }⟩

theorem worldOk_proceed (h : WorldOk digest legacy w)
    (htxn : TxnOk digest w.db w.index t txn) : WorldOk digest legacy (w.proceed t txn).2 where
  db := h.db
  txns t' txn' ht' := by
    unfold proceed at ht'
    dsimp only at ht'
    by_cases heq : t' = t
    · rw [heq, update_self] at ht'
      cases ht'
      rw [heq]
      exact htxn
    · rw [update_of_ne heq] at ht'
      exact h.txns t' txn' ht'

/-- A transaction ends, and the others go on with the rows that are there now. -/
theorem worldOk_end (hdb : DbOk digest legacy db')
    (hothers : ∀ t' txn', t' ≠ t → w.txns t' = some txn' → TxnOk digest db' w.index t' txn')
    (answer : Answer) :
    WorldOk digest legacy (rollback { w with db := db' } t answer).2 where
  db := hdb
  txns t' txn' ht' := by
    unfold rollback at ht' ⊢
    dsimp only at ht' ⊢
    by_cases heq : t' = t
    · rw [heq, update_self] at ht'
      cases ht'
    · rw [update_of_ne heq] at ht'
      refine (hothers t' txn' heq ht').mono (fun _ _ hi => hi) (fun _ _ hi => hi) ?_
      intro key hkey
      rw [if_neg, hkey]
      rw [hkey]
      exact fun hsome => heq (some.inj hsome)

theorem worldOk_rollback (h : WorldOk digest legacy w) (t : ℕ) (answer : Answer) :
    WorldOk digest legacy (w.rollback t answer).2 :=
  worldOk_end h.db (fun t' txn' _ ht' => h.txns t' txn' ht') answer

/-! ## The statements of a transaction -/

section Statements

variable [DecidableEq δ] {done rest : List ℕ} {r : ℕ} {key : SendKey} {intent : Intent δ}

theorem worldOk_claim (h : WorldOk digest legacy w) (hheld : ∀ key, txn.intents key ≠ none →
      w.index key = some t) (hc : Claiming digest w.db txn done) (htodo : txn.todo = r :: rest)
    (hkey : txn.call.key r = some key) (hvisible : visible txn.intents w.db key = some intent) :
    WorldOk digest legacy (claim digest w t txn r rest key intent).2 := by
  unfold claim
  split
  · exact worldOk_rollback h _ _
  next hdigest =>
    split
    · exact worldOk_rollback h _ _
    next hunavailable =>
      have hd : intent.payload_digest = digest (txn.call.payload r) := not_not.mp hdigest
      have hu : intent.identity_unavailable = false := by simpa using hunavailable
      split
      next m hm =>
        exact worldOk_proceed h ⟨hheld, .inl ⟨by simp, _,
          claiming_replay hc htodo hkey hvisible hd hu hm⟩⟩
      next hm =>
        split
        next o ho =>
          exact worldOk_proceed h ⟨hheld, .inl ⟨by simp, _,
            claiming_alias hc htodo hkey hvisible hd ho⟩⟩
        next ho => exact absurd (not_first h.db hc hvisible hu hm ho) id

theorem worldOk_create (h : WorldOk digest legacy w)
    (hheld : ∀ key, txn.intents key ≠ none → w.index key = some t)
    (hc : Claiming digest w.db txn done) (htodo : txn.todo = r :: rest)
    (hkey : txn.call.key r = some key) (hown : txn.intents key = none) :
    WorldOk digest legacy (create digest w t txn r rest key).2 := by
  unfold create
  split
  · exact h
  next hindex =>
    split
    next i hi =>
      refine worldOk_proceed h ⟨hheld, .inl ⟨by simp, done, ?_⟩⟩
      exact
        { toBound := { hc with }
          split := hc.split
          unsent := hc.unsent
          covered := hc.covered
          once := hc.once
          creating := by
            intro hagain
            cases hagain }
    next hfree =>
      have hnew : txn.batch_keys key = none := by
        by_contra hne
        obtain ⟨o, ho⟩ := ne_none_iff_exists'.mp hne
        exact (hc.claimed key o ho).2.2 hown
      -- The key is nobody else's, and the others hold on to theirs.
      have hindex' : ∀ t' key', w.index key' = some t' →
          update w.index key (some t) key' = some t' := by
        intro t' key' ht'
        by_cases heq : key' = key
        · subst heq
          rw [ht'] at hindex
          have hsame : t' = t := by simpa using hindex
          rw [update_self, hsame]
        · rw [update_of_ne heq, ht']
      have hworld : WorldOk digest legacy
          { w with index := update w.index key (some t) } :=
        ⟨h.db, fun t' txn' ht' => (h.txns t' txn' ht').mono (fun _ _ hi => hi)
          (fun _ _ hi => hi) (hindex' t')⟩
      have hclaim : claim digest { w with index := update w.index key (some t) } t
          { txn with
            intents := update txn.intents key
              (some ⟨digest (txn.call.payload r), false, none⟩) } r rest key
            ⟨digest (txn.call.payload r), false, none⟩ =
          proceed { w with index := update w.index key (some t) } t
            { txn with
              stage := .getting
              todo := rest
              intents := update txn.intents key
                (some ⟨digest (txn.call.payload r), false, none⟩)
              batch_keys := update txn.batch_keys key (some r) } := by
        unfold claim
        simp [hnew]
      rw [hclaim]
      refine worldOk_proceed hworld ⟨?_, .inl ⟨by simp, _,
        claiming_create hc htodo hkey hown hfree⟩⟩
      intro key' hne
      dsimp only at hne ⊢
      by_cases heq : key' = key
      · rw [heq, update_self]
      · rw [update_of_ne heq] at hne ⊢
        exact hheld key' hne

omit [DecidableEq δ] in
theorem worldOk_send (h : WorldOk digest legacy w) (hheld : ∀ key, txn.intents key ≠ none →
      w.index key = some t) (hc : Claiming digest w.db txn done) (htodo : txn.todo = [])
    (targets : ℕ → List String) : WorldOk digest legacy (send w t txn targets).2 := by
  unfold send
  split
  · have hworld : WorldOk digest legacy
        { w with db := { w.db with next_id := w.db.next_id +
            (txn.left.zipIdx w.db.next_id).length } } := by
      refine ⟨⟨h.db.recorded, h.db.kept, h.db.once⟩, ?_⟩
      exact fun t' txn' ht' => (h.txns t' txn' ht').mono (fun _ _ hi => hi) (fun _ _ hi => hi)
        fun _ hi => hi
    have hsending := sending_send hc htodo w.db.next_id
    refine worldOk_proceed hworld ⟨?_, .inr ⟨rfl, ?_⟩⟩
    · intro key hne
      obtain ⟨intent, hi⟩ := ne_none_iff_exists'.mp hne
      obtain ⟨r, hr, -⟩ := hsending.own key intent hi
      exact hheld key (hc.claimed key r hr).2.2
    · exact
        { toBound := hsending.toBound.mono (fun _ _ hi => hi) fun _ _ hi => hi
          created := hsending.created
          once := hsending.once }
  · exact worldOk_rollback h _ _

omit [DecidableEq δ] in
theorem worldOk_finish (h : WorldOk digest legacy w)
    (hheld : ∀ key, txn.intents key ≠ none → w.index key = some t)
    (hs : Sending digest w.db txn) : WorldOk digest legacy (finish w t txn).2 := by
  unfold finish
  split
  · exact worldOk_rollback h _ _
  next results hresults =>
    refine worldOk_end (dbOk_commit h.db hs (answers_of_results hresults)) ?_ _
    intro t' txn' hne ht'
    refine (h.txns t' txn' ht').mono (fun _ _ => commit_intents hs.toBound) ?_ fun _ hi => hi
    intro key hindex hfree
    show visible txn.intents w.db key = none
    have hnone : txn.intents key = none := by
      by_contra hmine
      rw [hheld key hmine] at hindex
      exact hne (some.inj hindex).symm
    rw [visible, hnone]
    exact hfree

theorem worldOk_advance (h : WorldOk digest legacy w) (ht : w.txns t = some txn)
    (targets : ℕ → List String) : WorldOk digest legacy (advance digest w t txn targets).2 := by
  obtain ⟨hheld, hstate⟩ := h.txns t txn ht
  unfold advance
  rcases hstate with ⟨hstage, done, hc⟩ | ⟨hstage, hs⟩
  · split
    next hsent => exact absurd hsent hstage
    next htodo _ => exact worldOk_send h hheld hc htodo targets
    next r rest htodo _ =>
      split
      next hkey =>
        exact worldOk_proceed h ⟨hheld, .inl ⟨by simp, _, claiming_skip hc htodo hkey⟩⟩
      next key hkey =>
        split
        next hcreating =>
          exact worldOk_create h hheld hc htodo hkey (hc.creating hcreating _ _ _ htodo hkey)
        next intent hvisible _ => exact worldOk_claim h hheld hc htodo hkey hvisible
        next => exact worldOk_rollback h _ _
        next hvisible _ _ =>
          refine worldOk_proceed h ⟨hheld, .inl ⟨by simp, done, ?_⟩⟩
          exact
            { toBound := { hc with }
              split := hc.split
              unsent := hc.unsent
              covered := hc.covered
              once := hc.once
              creating := by
                intro _ r' rest' key' htodo' hkey'
                rw [htodo] at htodo'
                cases htodo'
                rw [hkey] at hkey'
                cases hkey'
                unfold visible at hvisible
                split at hvisible
                · cases hvisible
                · assumption }
  · rw [hstage]
    exact worldOk_finish h hheld hs

omit [DecidableEq δ] in
theorem claiming_start (call : Call) : Claiming digest db (Txn.start call) [] := by
  constructor
  · refine ⟨?_, ?_, ?_, ?_, fun _ hne => absurd rfl hne⟩
    · intro r m hr
      cases hr
    · intro key r hr
      cases hr
    · intro key intent hi
      cases hi
    · intro r o hr
      cases hr
  · rfl
  · intro key intent hi
    cases hi
  · intro r hr
    cases hr
  · exact fun _ => Nat.zero_le _
  · intro hstage
    cases hstage

/-- **Every step** keeps the invariant. -/
theorem worldOk_step (input : Input) (h : WorldOk digest legacy w) :
    WorldOk digest legacy (step digest input w).2 := by
  cases input with
  | begin t call =>
    dsimp only [step]
    split
    · exact h
    · refine worldOk_proceed h ⟨fun _ hne => absurd rfl hne, .inl ⟨?_, [], claiming_start call⟩⟩
      intro hstage
      cases hstage
  | advance t targets =>
    dsimp only [step]
    split
    · exact h
    next txn ht => exact worldOk_advance h ht targets
  | fail t => exact worldOk_rollback h t _
  | delete message_id =>
    refine ⟨⟨h.db.recorded, h.db.kept, h.db.once⟩, ?_⟩
    exact fun t' txn' ht' => (h.txns t' txn' ht').mono (fun _ _ hi => hi) (fun _ _ hi => hi)
      fun _ hi => hi

end Statements

/-! # What the calls answer -/

open History

variable {δ : Type} {digest : Payload → δ} {legacy : SendKey → Option δ} {db : Db δ} {t r : ℕ}
  {txn : Txn δ} {w : World δ} {rest : List ℕ} {key : SendKey} {intent : Intent δ}

/-- The step is no end with results, and the committed rows stay. -/
def Quiet (db : Db δ) (outcome : Answer × World δ) : Prop :=
  (∀ call results, outcome.1 ≠ .accepted call results) ∧
    outcome.2.db.intents = db.intents ∧ outcome.2.db.sent = db.sent

theorem quiet_proceed : Quiet w.db (w.proceed t txn) :=
  ⟨(fun _ _ h => by cases h), rfl, rfl⟩

theorem quiet_rollback {answer : Answer} (h : ∀ call results, answer ≠ .accepted call results) :
    Quiet w.db (w.rollback t answer) :=
  ⟨h, rfl, rfl⟩

section Statements

variable [DecidableEq δ]

theorem quiet_claim : Quiet w.db (claim digest w t txn r rest key intent) := by
  unfold claim
  split
  · exact quiet_rollback fun _ _ h => by cases h
  · split
    · exact quiet_rollback fun _ _ h => by cases h
    · split
      · exact quiet_proceed
      · split <;> exact quiet_proceed

theorem quiet_create : Quiet w.db (create digest w t txn r rest key) := by
  unfold create
  split
  · exact ⟨(fun _ _ h => by cases h), rfl, rfl⟩
  · split
    · exact quiet_proceed
    · exact quiet_claim

omit [DecidableEq δ] in
theorem quiet_send (targets : ℕ → List String) : Quiet w.db (send w t txn targets) := by
  unfold send
  split
  · exact ⟨(fun _ _ h => by cases h), rfl, rfl⟩
  · exact quiet_rollback fun _ _ h => by cases h

/-- **Rows are written by an end with results** only, and such an end answers all requests. -/
theorem quiet_or_answered (hinj : Function.Injective digest) (input : Input)
    (h : WorldOk digest legacy w) :
    Quiet w.db (step digest input w) ∨
      ∃ call results, (step digest input w).1 = .accepted call results ∧
        Answered call results (step digest input w).2.db := by
  cases input with
  | begin t call =>
    left
    dsimp only [step]
    split
    · exact ⟨(fun _ _ h => by cases h), rfl, rfl⟩
    · exact quiet_proceed
  | fail t => exact .inl (quiet_rollback fun _ _ h => by cases h)
  | delete message_id => exact .inl ⟨(fun _ _ h => by cases h), rfl, rfl⟩
  | advance t targets =>
    dsimp only [step]
    split
    · exact .inl ⟨(fun _ _ h => by cases h), rfl, rfl⟩
    next txn ht =>
      obtain ⟨-, hstate⟩ := h.txns t txn ht
      unfold advance
      split
      next hstage =>
        rcases hstate with ⟨hne, -⟩ | ⟨-, hs⟩
        · exact absurd hstage hne
        · unfold finish
          split
          · exact .inl (quiet_rollback fun _ _ h => by cases h)
          next results hresults =>
            exact .inr ⟨txn.call, results, rfl, answered_commit hinj h.db hs hresults⟩
      · exact .inl (quiet_send targets)
      · left
        split
        · exact quiet_proceed
        · split
          · exact quiet_create
          · exact quiet_claim
          · exact quiet_rollback fun _ _ h => by cases h
          · exact quiet_proceed

/-- The next request of the transaction is another one than the message of its key was sent for. -/
def Conflicts (w : World δ) : Input → Prop
  | .advance t _ => ∃ txn r rest key s,
    w.txns t = some txn ∧ txn.stage ≠ .sent ∧ txn.stage ≠ .creating ∧ txn.todo = r :: rest ∧
      txn.call.key r = some key ∧ s ∈ w.db.sent ∧ s.key = some key ∧
        s.payload ≠ txn.call.payload r
  | _ => False

/-- **Another request** under the key is rejected. -/
theorem rejected_of_conflicts (hinj : Function.Injective digest) {input : Input}
    (h : WorldOk digest legacy w) (hconflict : Conflicts w input) :
    (step digest input w).1 =
      .rejected "Agent send key conflicts with an earlier message." := by
  cases input with
  | begin t call | fail t | delete message_id => exact hconflict.elim
  | advance t targets =>
    obtain ⟨txn, r, rest, key, s, ht, hsent, hcreating, htodo, hkey, hs, hskey, hne⟩ := hconflict
    obtain ⟨hheld, hstate⟩ := h.txns t txn ht
    have hintent := h.db.recorded s hs key hskey
    have hvisible : visible txn.intents w.db key = some ⟨digest s.payload, false, some s.id⟩ := by
      unfold visible
      split
      next own hown =>
        have hbound : Bound digest w.db txn := by
          rcases hstate with ⟨-, done, hc⟩ | ⟨-, hsending⟩
          · exact hc.toBound
          · exact hsending.toBound
        rw [hbound.free key (by rw [hown]; simp)] at hintent
        cases hintent
      next => exact hintent
    dsimp only [step]
    rw [ht]
    dsimp only
    unfold advance
    split
    next hstage => exact absurd hstage hsent
    next hnil _ =>
      rw [htodo] at hnil
      cases hnil
    next r' rest' htodo' _ =>
      rw [htodo] at htodo'
      cases htodo'
      rw [hkey]
      dsimp only
      split
      next hstage => exact absurd hstage hcreating
      next intent hi _ =>
        rw [hvisible] at hi
        cases hi
        unfold claim
        rw [if_pos fun heq => hne (hinj heq)]
        rfl
      next _ hi =>
        rw [hvisible] at hi
        cases hi
      next hi _ _ =>
        rw [hvisible] at hi
        cases hi

/-! ## A retry -/

/-- A call that nothing interrupts. -/
def attempt (t : ℕ) (call : Call) (targets : ℕ → List String) : List Input :=
  [.begin t call, .advance t targets, .advance t targets, .advance t targets, .advance t targets]

theorem retry_accepted {call : Call} {targets : ℕ → List String} (ht : w.txns t = none)
    (hrequests : call.requests = [r]) (hkey : call.key r = some key)
    (hfree : w.db.intents key = none) (hindex : w.index key = none)
    (htargets : targetsAgree targets call r = true) :
    ∃ e ∈ history (step digest) w (attempt t call targets),
      e.answer = .accepted call [w.db.next_id] := by
  refine ⟨_, List.mem_of_getElem? (i := 4) rfl, ?_⟩
  -- Begin, look for the intent, create it, send, and end.
  simp [step, ht, proceed, advance, Txn.start, hrequests, hkey, visible, hfree,
    create, hindex, claim, send, Txn.left, htargets, finish, Txn.result, Txn.base, allResults,
    rollback]

/-! ## All interleavings -/

omit [DecidableEq δ] in
theorem worldOk_start : WorldOk digest legacy (start legacy) where
  db :=
    { recorded := fun s hs => by cases hs
      kept := by
        intro key intent hintent
        obtain ⟨d, hd, rfl⟩ := map_eq_some_iff.mp hintent
        left
        exact ⟨rfl, by rw [hd]; simp⟩
      once := fun _ => Nat.zero_le _ }
  txns t txn ht := by cases ht

/-- **A send key sends once.**  Under every interleaving of the statements of any calls, which may
fail anywhere, and of deletions:

* at most one message is ever created under a key;
* a call that is accepted answers each request with a key with the message of that key, at its
  position, and that message was created for the same request;
* no other step writes a row, and a request that differs from the one its key was used for is
  rejected;
* a key without a message is free: a call with it alone sends it, unless another transaction holds
  the key. -/
theorem sends_once (hinj : Function.Injective digest) (legacy : SendKey → Option δ)
    (inputs : List Input) :
    (∀ key, ((run (step digest) (start legacy) inputs).db.sent.filter
      fun s => s.key = some key).length ≤ 1) ∧
    (∀ e ∈ history (step digest) (start legacy) inputs,
      (∀ call results, e.answer = .accepted call results → Answered call results e.post.db) ∧
      ((∀ call results, e.answer ≠ .accepted call results) →
        e.post.db.intents = e.pre.db.intents ∧ e.post.db.sent = e.pre.db.sent) ∧
      (Conflicts e.pre e.input →
        e.answer = .rejected "Agent send key conflicts with an earlier message.")) ∧
    ∀ key, legacy key = none →
      (∀ s ∈ (run (step digest) (start legacy) inputs).db.sent, s.key ≠ some key) →
      (run (step digest) (start legacy) inputs).index key = none →
      ∀ t call r targets, (run (step digest) (start legacy) inputs).txns t = none →
        call.requests = [r] → call.key r = some key → targetsAgree targets call r = true →
        ∃ e ∈ history (step digest) (run (step digest) (start legacy) inputs)
            (attempt t call targets),
          ∃ message_id, e.answer = .accepted call [message_id] := by
  obtain ⟨hend, hsteps⟩ := history_inv (step digest) (J := WorldOk digest legacy) (start legacy)
    inputs worldOk_start fun i w h => worldOk_step i h
  refine ⟨hend.db.once, ?_, ?_⟩
  · intro e he
    obtain ⟨hpre, -⟩ := hsteps e he
    have hstep := step_of_mem he
    have hcases := quiet_or_answered hinj e.input hpre
    rw [hstep] at hcases
    refine ⟨?_, ?_, ?_⟩
    · intro call results haccepted
      rcases hcases with ⟨hquiet, -⟩ | ⟨call', results', haccepted', hanswered⟩
      · exact absurd haccepted (hquiet call results)
      · rw [haccepted] at haccepted'
        cases haccepted'
        exact hanswered
    · intro hnot
      rcases hcases with ⟨-, hrows⟩ | ⟨call, results, haccepted, -⟩
      · exact hrows
      · exact absurd haccepted (hnot call results)
    · intro hconflict
      have hrejected := rejected_of_conflicts hinj hpre hconflict
      rwa [hstep] at hrejected
  · intro key hlegacy hnone hindex t call r targets ht hrequests hkey htargets
    have hfree : (run (step digest) (start legacy) inputs).db.intents key = none := by
      by_contra hne
      obtain ⟨intent, hi⟩ := ne_none_iff_exists'.mp hne
      rcases hend.db.kept key intent hi with ⟨-, hl⟩ | ⟨-, s, hs, hskey, -⟩
      · exact hl hlegacy
      · exact hnone s hs hskey
    have hretry : ∃ e ∈ history (step digest) _ (attempt t call targets),
        e.answer = .accepted call [_] :=
      retry_accepted ht hrequests hkey hfree hindex htargets
    obtain ⟨e, he, hanswer⟩ := hretry
    exact ⟨e, he, _, hanswer⟩

end Statements

/-- Somebody sends a message under a key, the answer is lost, and it is sent again. -/
def retried : Call where
  objects _ := ⟨1, 7, 3, 1, "", "Please answer", [], none, none, 1, some 5, none, none⟩
  send_message_requests_maybe_none := [some 0]
  mark_as_read := []

def lostAnswer : List Input :=
  attempt 1 retried (fun _ => []) ++
    [.begin 2 retried, .advance 2 fun _ => [], .advance 2 fun _ => [], .advance 2 fun _ => []]

theorem sends_once_retried :
    ∃ e ∈ history (step fun p : Payload => p) (start fun _ => none) lostAnswer,
      Answered retried [1] e.post.db ∧ e.input = .advance 2 fun _ => [] := by
  refine ⟨_, List.mem_of_getElem? (i := 8) rfl, ?_, rfl⟩
  refine ((sends_once (fun _ _ h => h) (fun _ => none) lostAnswer).2.1 _
    (List.mem_of_getElem? (i := 8) rfl)).1 retried [1] ?_
  rfl

end GrowTeam.SendKeys
