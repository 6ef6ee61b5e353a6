/-
# What a transaction knows about its keys

The invariant of a transaction that claims keys: a replayed request has its message in a committed
row, a row of its own belongs to the first request with that key, and later requests with the key
point to that one.
-/
import GrowTeam.SendKeys.Transactions

namespace GrowTeam.SendKeys

open List Function Option

variable {δ : Type} (digest : Payload → δ)

/-- The committed rows: an intent has the message that was created under its key. -/
structure DbOk (legacy : SendKey → Option δ) (db : Db δ) : Prop where
  recorded : ∀ s ∈ db.sent, ∀ key, s.key = some key →
    db.intents key = some ⟨digest s.payload, false, some s.id⟩
  kept : ∀ key intent, db.intents key = some intent →
    intent.identity_unavailable = true ∧ legacy key ≠ none ∨
      intent.identity_unavailable = false ∧
        ∃ s ∈ db.sent, s.key = some key ∧ intent.sent_message_id = some s.id
  once : ∀ key, (db.sent.filter fun s => s.key = some key).length ≤ 1

/-- The variables of a transaction. -/
structure Bound (db : Db δ) (txn : Txn δ) : Prop where
  replayed : ∀ r m, txn.replayed_results r = some m → ∃ key,
    txn.call.key r = some key ∧
      db.intents key = some ⟨digest (txn.call.payload r), false, some m⟩
  claimed : ∀ key r, txn.batch_keys key = some r →
    r ∈ txn.call.requests ∧ txn.call.key r = some key ∧ txn.intents key ≠ none
  own : ∀ key intent, txn.intents key = some intent → ∃ r, txn.batch_keys key = some r ∧
    intent.payload_digest = digest (txn.call.payload r) ∧ intent.identity_unavailable = false
  aliased : ∀ r o, txn.aliases r = some o → ∃ key, txn.call.key r = some key ∧
    txn.batch_keys key = some o ∧
      digest (txn.call.payload r) = digest (txn.call.payload o)
  free : ∀ key, txn.intents key ≠ none → db.intents key = none

/-- The request has the key and is neither replayed nor an alias. -/
def openFor (txn : Txn δ) (key : SendKey) (r : ℕ) : Bool :=
  txn.call.key r = some key && (txn.replayed_results r).isNone && (txn.aliases r).isNone

/-- A transaction that has looked at the requests in `done`. -/
structure Claiming (db : Db δ) (txn : Txn δ) (done : List ℕ) : Prop extends
    Bound digest db txn where
  split : done ++ txn.todo = txn.call.requests
  unsent : ∀ key intent, txn.intents key = some intent → intent.sent_message_id = none
  covered : ∀ r ∈ done, ∀ key, openFor txn key r = true → txn.batch_keys key = some r
  once : ∀ key, (done.filter (openFor txn key)).length ≤ 1
  creating : txn.stage = .creating → ∀ r rest key, txn.todo = r :: rest →
    txn.call.key r = some key → txn.intents key = none

variable {digest} {legacy : SendKey → Option δ} {db : Db δ} {txn : Txn δ} {done rest : List ℕ}
  {r : ℕ} {key : SendKey} {intent : Intent δ}

theorem openFor_iff : openFor txn key r = true ↔
    txn.call.key r = some key ∧ txn.replayed_results r = none ∧ txn.aliases r = none := by
  simp [openFor, isNone_iff_eq_none, and_assoc]

theorem mem_requests (h : done ++ r :: rest = txn.call.requests) : r ∈ txn.call.requests := by
  rw [← h]
  simp

/-- A committed row that can be claimed has its message. -/
theorem DbOk.sent_of_intent (hdb : DbOk digest legacy db) (h : db.intents key = some intent)
    (hunavailable : intent.identity_unavailable = false) :
    ∃ s ∈ db.sent, s.key = some key ∧ intent = ⟨digest s.payload, false, some s.id⟩ := by
  rcases hdb.kept key intent h with ⟨htrue, -⟩ | ⟨-, s, hs, hkey, -⟩
  · rw [hunavailable] at htrue
    cases htrue
  · refine ⟨s, hs, hkey, ?_⟩
    have hrecorded := hdb.recorded s hs key hkey
    rw [h] at hrecorded
    exact some.inj hrecorded

/-- One more request is closed: it is open for no key, and no other is open that was not. -/
theorem claiming_closed (h : Claiming digest db txn done) (htodo : txn.todo = r :: rest)
    {replayed aliases : ℕ → Option ℕ}
    (hreplayed : ∀ r' m, replayed r' = some m → ∃ key, txn.call.key r' = some key ∧
      db.intents key = some ⟨digest (txn.call.payload r'), false, some m⟩)
    (haliased : ∀ r' o, aliases r' = some o → ∃ key, txn.call.key r' = some key ∧
      txn.batch_keys key = some o ∧ digest (txn.call.payload r') = digest (txn.call.payload o))
    (hopen : ∀ r', replayed r' = none → aliases r' = none →
      txn.replayed_results r' = none ∧ txn.aliases r' = none)
    (hclosed : txn.call.key r = none ∨ replayed r ≠ none ∨ aliases r ≠ none) :
    Claiming digest db
      { txn with
        stage := .getting
        todo := rest
        replayed_results := replayed
        aliases := aliases } (done ++ [r]) := by
  let txn' : Txn δ :=
    { txn with stage := .getting, todo := rest, replayed_results := replayed, aliases := aliases }
  have hopen' : ∀ key r', openFor txn' key r' = true → openFor txn key r' = true := by
    intro key r' hr'
    obtain ⟨hk, hr, ha⟩ := openFor_iff.mp hr'
    exact openFor_iff.mpr ⟨hk, hopen r' hr ha⟩
  have hclosed' : ∀ key, ¬ openFor txn' key r = true := by
    intro key hr'
    obtain ⟨hk, hr, ha⟩ := openFor_iff.mp hr'
    rcases hclosed with hnone | hne | hne
    · exact some_ne_none key (hk.symm.trans hnone)
    · exact hne hr
    · exact hne ha
  exact { h with
    replayed := hreplayed
    aliased := haliased
    split := by
      rw [append_assoc, singleton_append, ← htodo]
      exact h.split
    covered := by
      intro r' hr' key hr
      rcases mem_append.mp hr' with hr' | hr'
      · exact h.covered r' hr' key (hopen' key r' hr)
      · obtain rfl := mem_singleton.mp hr'
        exact absurd hr (hclosed' key)
    once := by
      intro key
      rw [filter_append, filter_cons_of_neg (hclosed' key), filter_nil, append_nil]
      refine Nat.le_trans (List.Sublist.length_le ?_) (h.once key)
      exact monotone_filter_right done (hopen' key)
    creating := fun hstage => by cases hstage }

/-- A request without a key is passed by. -/
theorem claiming_skip (h : Claiming digest db txn done) (htodo : txn.todo = r :: rest)
    (hkey : txn.call.key r = none) :
    Claiming digest db { txn with stage := .getting, todo := rest } (done ++ [r]) :=
  claiming_closed h htodo h.replayed h.aliased (fun _ hr ha => ⟨hr, ha⟩) (.inl hkey)

theorem update_eq_none {f : ℕ → Option ℕ} {r' m : ℕ} (h : update f r (some m) r' = none) :
    f r' = none := by
  by_cases heq : r' = r
  · rw [heq, update_self] at h
    cases h
  · rwa [update_of_ne heq] at h

/-- A replayed request is done. -/
theorem claiming_replay (h : Claiming digest db txn done)
    (htodo : txn.todo = r :: rest) (hkey : txn.call.key r = some key)
    (hvisible : visible txn.intents db key = some intent)
    (hdigest : intent.payload_digest = digest (txn.call.payload r))
    (hunavailable : intent.identity_unavailable = false) {m : ℕ}
    (hm : intent.sent_message_id = some m) :
    Claiming digest db
      { txn with
        stage := .getting
        todo := rest
        replayed_results := update txn.replayed_results r (some m) } (done ++ [r]) := by
  refine claiming_closed h htodo (fun r' m' hr' => ?_) h.aliased
    (fun r' hr ha => ⟨update_eq_none hr, ha⟩) (.inr (.inl (by simp)))
  by_cases heq : r' = r
  · subst heq
    rw [update_self] at hr'
    cases hr'
    refine ⟨key, hkey, ?_⟩
    unfold visible at hvisible
    split at hvisible
    next own hown =>
      cases hvisible
      rw [h.unsent key intent hown] at hm
      cases hm
    · obtain ⟨d, u, s⟩ := intent
      dsimp only at hdigest hunavailable hm
      rw [hvisible, hdigest, hunavailable, hm]
  · rw [update_of_ne heq] at hr'
    exact h.replayed r' m' hr'

/-- A request whose key the batch has already is done. -/
theorem claiming_alias (h : Claiming digest db txn done) (htodo : txn.todo = r :: rest)
    (hkey : txn.call.key r = some key) (hvisible : visible txn.intents db key = some intent)
    (hdigest : intent.payload_digest = digest (txn.call.payload r)) {o : ℕ}
    (ho : txn.batch_keys key = some o) :
    Claiming digest db
      { txn with
        stage := .getting
        todo := rest
        aliases := update txn.aliases r (some o) } (done ++ [r]) := by
  refine claiming_closed h htodo h.replayed (fun r' o' hr' => ?_)
    (fun r' hr ha => ⟨hr, update_eq_none ha⟩) (.inr (.inr (by simp)))
  by_cases heq : r' = r
  · subst heq
    rw [update_self] at hr'
    cases hr'
    refine ⟨key, hkey, ho, ?_⟩
    obtain ⟨-, -, hown⟩ := h.claimed key o ho
    obtain ⟨own, hown⟩ := ne_none_iff_exists'.mp hown
    obtain ⟨o', ho', hd, -⟩ := h.own key own hown
    rw [ho] at ho'
    cases ho'
    have hsame : own = intent := by
      rw [visible, hown] at hvisible
      exact some.inj hvisible
    rw [← hdigest, ← hd, hsame]
  · rw [update_of_ne heq] at hr'
    exact h.aliased r' o' hr'

/-- A row that is there is of an earlier request of the batch, or has its message. -/
theorem not_first (hdb : DbOk digest legacy db) (h : Claiming digest db txn done)
    (hvisible : visible txn.intents db key = some intent)
    (hunavailable : intent.identity_unavailable = false) (hsent : intent.sent_message_id = none)
    (hnew : txn.batch_keys key = none) : False := by
  unfold visible at hvisible
  split at hvisible
  next own hown =>
    obtain ⟨o, ho, -⟩ := h.own key own hown
    rw [hnew] at ho
    cases ho
  next =>
    obtain ⟨s, -, -, hs⟩ := hdb.sent_of_intent hvisible hunavailable
    rw [hs] at hsent
    cases hsent

/-- The first request with its key is the one to be sent. -/
theorem claiming_create (h : Claiming digest db txn done) (htodo : txn.todo = r :: rest)
    (hkey : txn.call.key r = some key) (hown : txn.intents key = none)
    (hfree : db.intents key = none) :
    Claiming digest db
      { txn with
        stage := .getting
        todo := rest
        intents := update txn.intents key
          (some ⟨digest (txn.call.payload r), false, none⟩)
        batch_keys := update txn.batch_keys key (some r) } (done ++ [r]) := by
  have hsplit : done ++ r :: rest = txn.call.requests := by
    rw [← htodo]
    exact h.split
  have hnew : txn.batch_keys key = none := by
    by_contra hne
    obtain ⟨o, ho⟩ := ne_none_iff_exists'.mp hne
    exact (h.claimed key o ho).2.2 hown
  -- A key with a request is another one.
  have hother : ∀ key' o, txn.batch_keys key' = some o → key' ≠ key := by
    rintro key' o ho rfl
    rw [hnew] at ho
    cases ho
  constructor
  · refine ⟨h.replayed, ?_, ?_, ?_, ?_⟩
    · intro key' r' hr'
      dsimp only at hr' ⊢
      by_cases heq : key' = key
      · subst heq
        rw [update_self] at hr' ⊢
        cases hr'
        exact ⟨mem_requests hsplit, hkey, by simp⟩
      · rw [update_of_ne heq] at hr' ⊢
        exact h.claimed key' r' hr'
    · intro key' own hi
      dsimp only at hi ⊢
      by_cases heq : key' = key
      · subst heq
        rw [update_self] at hi ⊢
        cases hi
        exact ⟨r, rfl, rfl, rfl⟩
      · rw [update_of_ne heq] at hi ⊢
        exact h.own key' own hi
    · intro r' o hr'
      obtain ⟨key', hk, ho, hd⟩ := h.aliased r' o hr'
      refine ⟨key', hk, ?_, hd⟩
      dsimp only
      rw [update_of_ne (hother key' o ho)]
      exact ho
    · intro key' hi
      dsimp only at hi
      by_cases heq : key' = key
      · rw [heq]
        exact hfree
      · rw [update_of_ne heq] at hi
        exact h.free key' hi
  · rw [append_assoc]
    exact hsplit
  · intro key' own hi
    dsimp only at hi
    by_cases heq : key' = key
    · rw [heq, update_self] at hi
      cases hi
      rfl
    · rw [update_of_ne heq] at hi
      exact h.unsent key' own hi
  · intro r' hr' key' hopen
    dsimp only
    rcases mem_append.mp hr' with hr' | hr'
    · have ho := h.covered r' hr' key' hopen
      rw [update_of_ne (hother key' r' ho)]
      exact ho
    · obtain rfl := mem_singleton.mp hr'
      have hk : txn.call.key r' = some key' := (openFor_iff.mp hopen).1
      rw [hkey] at hk
      cases hk
      rw [update_self]
  · intro key'
    show ((done ++ [r]).filter (openFor txn key')).length ≤ 1
    rw [filter_append, List.length_append]
    by_cases heq : key' = key
    · subst heq
      have hnone : done.filter (openFor txn key') = [] := by
        refine filter_eq_nil_iff.mpr fun r' hr' hopen => ?_
        exact hother key' r' (h.covered r' hr' key' hopen) rfl
      rw [hnone]
      have hle := length_filter_le (openFor txn key') [r]
      simpa using hle
    · have hnot : openFor txn key' r = false := by
        simp [openFor, hkey, Ne.symm heq]
      rw [filter_cons_of_neg (by simp [hnot])]
      exact h.once key'
  · intro hstage
    cases hstage

end GrowTeam.SendKeys
