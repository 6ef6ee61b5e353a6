/-
# What a transaction sends

At the end of the claims each key of the batch has one request that is left, so the intents of the
transaction get the messages that it creates.
-/
import GrowTeam.SendKeys.Claims

namespace GrowTeam.SendKeys

open List Function

variable {δ : Type} (digest : Payload → δ)

/-- A transaction that has created its messages. -/
structure Sending (db : Db δ) (txn : Txn δ) : Prop extends Bound digest db txn where
  created : ∀ m ∈ txn.messages, txn.aliases m.1 = none ∧ ∀ key, txn.call.key m.1 = some key →
    txn.intents key = some ⟨digest (txn.call.payload m.1), false, some m.2⟩
  once : ∀ key, (txn.messages.filter fun m => txn.call.key m.1 = some key).length ≤ 1

variable {digest} {legacy : SendKey → Option δ} {db : Db δ} {txn : Txn δ} {done rest : List ℕ}
  {r : ℕ} {key : SendKey} {call : Call} {own : SendKey → Option (Intent δ)}
  {messages : List (ℕ × ℕ)}

/-! ## The update of the intents -/

variable {m : ℕ × ℕ}

theorem recordSent_other (h : call.key m.1 ≠ some key) :
    recordSent call db own m key = own key := by
  unfold recordSent
  cases hkey' : call.key m.1 with
  | none => rfl
  | some key' =>
    have hne : key ≠ key' := by
      rintro rfl
      exact h hkey'
    dsimp only
    cases visible own db key' with
    | none => rfl
    | some intent =>
      dsimp only
      by_cases hsent : intent.sent_message_id.isNone = true
      · rw [if_pos hsent, update_of_ne hne]
      · rw [if_neg hsent]

theorem recordSent_self {d : δ} (hkey : call.key m.1 = some key)
    (hown : own key = some ⟨d, false, none⟩) :
    recordSent call db own m = update own key (some ⟨d, false, some m.2⟩) := by
  unfold recordSent
  rw [hkey]
  dsimp only
  rw [visible, hown]
  rfl

theorem record_other (h : ∀ m ∈ messages, call.key m.1 ≠ some key) :
    messages.foldl (recordSent call db) own key = own key := by
  induction messages generalizing own with
  | nil => rfl
  | cons m messages ih =>
    rw [foldl_cons, ih fun m' hm' => h m' (mem_cons_of_mem _ hm'),
      recordSent_other (h m mem_cons_self)]

/-- A key occurs once among the messages. -/
theorem not_mem_of_once (hkey : call.key m.1 = some key)
    (honce : ((m :: messages).filter fun m => call.key m.1 = some key).length ≤ 1) :
    ∀ m' ∈ messages, call.key m'.1 ≠ some key := by
  intro m' hm' hkey'
  rw [filter_cons_of_pos (by simpa using hkey), length_cons] at honce
  have hmem : m' ∈ messages.filter fun m => call.key m.1 = some key :=
    mem_filter.mpr ⟨hm', by simpa using hkey'⟩
  have hpos := length_pos_of_mem hmem
  omega

/-- Every message is recorded in the intent of its key. -/
theorem record_self (hown : ∀ m ∈ messages, ∀ key, call.key m.1 = some key →
      own key = some ⟨digest (call.payload m.1), false, none⟩)
    (honce : ∀ key, (messages.filter fun m => call.key m.1 = some key).length ≤ 1)
    (hm : m ∈ messages) (hkey : call.key m.1 = some key) :
    messages.foldl (recordSent call db) own key =
      some ⟨digest (call.payload m.1), false, some m.2⟩ := by
  induction messages generalizing own with
  | nil => cases hm
  | cons first messages ih =>
    rw [foldl_cons]
    have hrest : ∀ key, (messages.filter fun m => call.key m.1 = some key).length ≤ 1 := by
      intro key
      refine Nat.le_trans (List.Sublist.length_le ?_) (honce key)
      exact List.Sublist.filter _ (sublist_cons_self _ _)
    rcases mem_cons.mp hm with rfl | hm
    · have hnone := not_mem_of_once hkey (honce key)
      rw [record_other hnone, recordSent_self hkey (hown m mem_cons_self key hkey), update_self]
    · refine ih ?_ hrest hm
      intro m' hm' key' hkey'
      have hne : call.key first.1 ≠ some key' := by
        intro hfirst
        exact not_mem_of_once hfirst (honce key') m' hm' hkey'
      rw [recordSent_other hne]
      exact hown m' (mem_cons_of_mem _ hm') key' hkey'

/-! ## The send -/

theorem mem_left : r ∈ txn.left ↔ r ∈ txn.call.requests ∧ txn.replayed_results r = none ∧
    txn.aliases r = none := by
  simp [Txn.left, Option.isNone_iff_eq_none]

/-- The row of a request that is left. -/
theorem intent_of_left (h : Claiming digest db txn txn.call.requests) (hr : r ∈ txn.left)
    (hkey : txn.call.key r = some key) :
    txn.intents key = some ⟨digest (txn.call.payload r), false, none⟩ := by
  obtain ⟨hmem, hreplayed, halias⟩ := mem_left.mp hr
  have ho := h.covered r hmem key (openFor_iff.mpr ⟨hkey, hreplayed, halias⟩)
  obtain ⟨own, hown⟩ := Option.ne_none_iff_exists'.mp (h.claimed key r ho).2.2
  obtain ⟨o, ho', hdigest, hunavailable⟩ := h.own key own hown
  rw [ho] at ho'
  cases ho'
  have hunsent := h.unsent key own hown
  obtain ⟨d, u, s⟩ := own
  dsimp only at hdigest hunavailable hunsent
  rw [hown, hdigest, hunavailable, hunsent]

theorem fst_mem_zipIdx {l : List ℕ} {n : ℕ} (h : m ∈ l.zipIdx n) : m.1 ∈ l := by
  have hmap : m.1 ∈ (l.zipIdx n).map Prod.fst := mem_map_of_mem h
  rwa [zipIdx_map_fst] at hmap

/-- **After the send** the intents of the transaction have its messages. -/
theorem sending_send (h : Claiming digest db txn done) (htodo : txn.todo = []) (n : ℕ) :
    Sending digest db
      { txn with
        stage := .sent
        messages := txn.left.zipIdx n
        intents := (txn.left.zipIdx n).foldl (recordSent txn.call db) txn.intents } := by
  have hdone : done = txn.call.requests := by
    have hsplit := h.split
    rw [htodo, append_nil] at hsplit
    exact hsplit
  subst hdone
  have hown : ∀ m ∈ txn.left.zipIdx n, ∀ key, txn.call.key m.1 = some key →
      txn.intents key = some ⟨digest (txn.call.payload m.1), false, none⟩ :=
    fun m hm key hkey => intent_of_left h (fst_mem_zipIdx hm) hkey
  have honce : ∀ key,
      ((txn.left.zipIdx n).filter fun m => txn.call.key m.1 = some key).length ≤ 1 := by
    intro key
    have hlength : ((txn.left.zipIdx n).filter fun m => txn.call.key m.1 = some key).length =
        (txn.left.filter fun r => txn.call.key r = some key).length := by
      conv_rhs => rw [← zipIdx_map_fst n txn.left, filter_map, length_map]
      rfl
    rw [hlength]
    refine Nat.le_trans (Nat.le_of_eq (congrArg List.length ?_)) (h.once key)
    unfold Txn.left
    rw [filter_filter]
    apply filter_congr
    intro r _
    simp [openFor, Bool.and_assoc]
  -- An intent of the transaction stays one, with the same digest.
  have hkeep : ∀ key intent,
      (txn.left.zipIdx n).foldl (recordSent txn.call db) txn.intents key = some intent →
        ∃ own, txn.intents key = some own ∧ intent.payload_digest = own.payload_digest ∧
          intent.identity_unavailable = own.identity_unavailable := by
    intro key intent hi
    by_cases hin : ∃ m ∈ txn.left.zipIdx n, txn.call.key m.1 = some key
    · obtain ⟨m, hm, hkey⟩ := hin
      rw [record_self hown honce hm hkey] at hi
      cases hi
      exact ⟨_, hown m hm key hkey, rfl, rfl⟩
    · rw [record_other fun m hm hkey => hin ⟨m, hm, hkey⟩] at hi
      exact ⟨intent, hi, rfl, rfl⟩
  have hsome : ∀ key,
      (txn.left.zipIdx n).foldl (recordSent txn.call db) txn.intents key ≠ none ↔
        txn.intents key ≠ none := by
    intro key
    by_cases hin : ∃ m ∈ txn.left.zipIdx n, txn.call.key m.1 = some key
    · obtain ⟨m, hm, hkey⟩ := hin
      rw [record_self hown honce hm hkey, hown m hm key hkey]
      simp
    · rw [record_other fun m hm hkey => hin ⟨m, hm, hkey⟩]
  constructor
  · refine ⟨h.replayed, ?_, ?_, h.aliased, ?_⟩
    · intro key r hr
      obtain ⟨hmem, hkey, hne⟩ := h.claimed key r hr
      exact ⟨hmem, hkey, (hsome key).mpr hne⟩
    · intro key intent hi
      obtain ⟨own, hi', hd, hu⟩ := hkeep key intent hi
      obtain ⟨r, hr, hd', hu'⟩ := h.own key own hi'
      exact ⟨r, hr, hd.trans hd', hu.trans hu'⟩
    · exact fun key hne => h.free key ((hsome key).mp hne)
  · intro m hm
    refine ⟨(mem_left.mp (fst_mem_zipIdx hm)).2.2, ?_⟩
    exact fun key hkey => record_self hown honce hm hkey
  · exact honce

/-! # What a transaction commits -/

variable {δ : Type} {digest : Payload → δ} {legacy : SendKey → Option δ} {db : Db δ}
  {txn : Txn δ} {r o m : ℕ} {key : SendKey} {requests results : List ℕ}

/-! ## The results -/

/-- Each request has its result at its position. -/
theorem allResults_spec {result : ℕ → Option ℕ} (h : allResults result requests = some results) :
    results.length = requests.length ∧
      ∀ (i r : ℕ), requests[i]? = some r → ∃ m, result r = some m ∧ results[i]? = some m := by
  induction requests generalizing results with
  | nil =>
    cases h
    refine ⟨rfl, ?_⟩
    intro i r hr
    simp at hr
  | cons first requests ih =>
    unfold allResults at h
    split at h
    next m ms hm hms =>
      cases h
      obtain ⟨hlength, hrest⟩ := ih hms
      refine ⟨by rw [length_cons, length_cons, hlength], ?_⟩
      intro i r hr
      cases i with
      | zero =>
        cases hr
        exact ⟨m, hm, rfl⟩
      | succ i => exact hrest i r hr
    · cases h

theorem base_of_not_replayed (hreplayed : txn.replayed_results r = none)
    (h : txn.base r = some m) : (r, m) ∈ txn.messages := by
  unfold Txn.base at h
  rw [hreplayed] at h
  obtain ⟨message, hfind, rfl⟩ := Option.map_eq_some_iff.mp h
  have hfst : message.1 = r := by simpa using find?_some hfind
  subst hfst
  exact mem_reverse.mp (mem_of_find?_eq_some hfind)

/-- The request of an own key is not replayed. -/
theorem not_replayed_of_claimed (h : Bound digest db txn) (ho : txn.batch_keys key = some o) :
    txn.replayed_results o = none := by
  obtain ⟨-, hkey, hne⟩ := h.claimed key o ho
  by_contra hreplayed
  obtain ⟨m, hm⟩ := Option.ne_none_iff_exists'.mp hreplayed
  obtain ⟨key', hkey', hintent⟩ := h.replayed o m hm
  rw [hkey] at hkey'
  cases hkey'
  rw [h.free key hne] at hintent
  cases hintent

/-- Its result is a message of the transaction. -/
theorem message_of_claimed (h : Sending digest db txn) (ho : txn.batch_keys key = some o)
    (hm : txn.result o = some m) : (o, m) ∈ txn.messages := by
  have hreplayed := not_replayed_of_claimed h.toBound ho
  unfold Txn.result at hm
  split at hm
  next o' halias =>
    obtain ⟨key', hkey', ho', -⟩ := h.aliased o o' halias
    rw [(h.claimed key o ho).2.1] at hkey'
    cases hkey'
    rw [ho] at ho'
    cases ho'
    exact base_of_not_replayed hreplayed hm
  next => exact base_of_not_replayed hreplayed hm

/-! ## The commit -/

/-- All requests have results. -/
def Answers (txn : Txn δ) : Prop := ∀ r ∈ txn.call.requests, ∃ m, txn.result r = some m

theorem answers_of_results (h : allResults txn.result txn.call.requests = some results) :
    Answers txn := by
  intro r hr
  obtain ⟨i, hi⟩ := mem_iff_getElem?.mp hr
  obtain ⟨m, hm, -⟩ := (allResults_spec h).2 i r hi
  exact ⟨m, hm⟩

theorem mem_created {message : ℕ × ℕ} (h : message ∈ txn.messages) :
    (⟨txn.call.key message.1, txn.call.payload message.1, message.2⟩ : Sent) ∈ txn.created :=
  mem_map.mpr ⟨message, h, rfl⟩

/-- An intent of the transaction has a message that it created. -/
theorem own_has_message (h : Sending digest db txn) (hanswers : Answers txn)
    {intent : Intent δ} (hintent : txn.intents key = some intent) :
    ∃ message ∈ txn.messages, txn.call.key message.1 = some key ∧
      intent = ⟨digest (txn.call.payload message.1), false, some message.2⟩ := by
  obtain ⟨o, ho, -⟩ := h.own key intent hintent
  obtain ⟨hmem, hkey, -⟩ := h.claimed key o ho
  obtain ⟨m, hm⟩ := hanswers o hmem
  have hmessage := message_of_claimed h ho hm
  refine ⟨(o, m), hmessage, hkey, ?_⟩
  have hrow := (h.created (o, m) hmessage).2 key hkey
  rw [hintent] at hrow
  exact Option.some.inj hrow

/-- The rows that were committed before stay. -/
theorem commit_intents (h : Bound digest db txn) {intent : Intent δ}
    (hintent : db.intents key = some intent) : (txn.commit db).intents key = some intent := by
  show visible txn.intents db key = some intent
  unfold visible
  split
  next own hown =>
    have hfree := h.free key (by rw [hown]; simp)
    rw [hfree] at hintent
    cases hintent
  next => exact hintent

/-- **A commit** keeps the rows in order. -/
theorem dbOk_commit (hdb : DbOk digest legacy db) (h : Sending digest db txn)
    (hanswers : Answers txn) : DbOk digest legacy (txn.commit db) where
  recorded s hs key hkey := by
    rcases mem_append.mp hs with hs | hs
    · exact commit_intents h.toBound (hdb.recorded s hs key hkey)
    · obtain ⟨message, hmessage, rfl⟩ := mem_map.mp hs
      show visible txn.intents db key = _
      rw [visible, (h.created message hmessage).2 key hkey]
  kept key intent hintent := by
    have hvisible : visible txn.intents db key = some intent := hintent
    unfold visible at hvisible
    split at hvisible
    next own hown =>
      cases hvisible
      obtain ⟨message, hmessage, hkey, rfl⟩ := own_has_message h hanswers hown
      right
      exact ⟨rfl, _, mem_append_right _ (mem_created hmessage), hkey, rfl⟩
    next =>
      rcases hdb.kept key intent hvisible with hlegacy | ⟨hu, s, hs, hkey, hsent⟩
      · exact .inl hlegacy
      · exact .inr ⟨hu, s, mem_append_left _ hs, hkey, hsent⟩
  once key := by
    show ((db.sent ++ txn.created).filter _).length ≤ 1
    rw [filter_append]
    have hold := hdb.once key
    have hnew : (txn.created.filter fun s => s.key = some key).length ≤ 1 := by
      unfold Txn.created
      rw [filter_map, length_map]
      exact h.once key
    by_cases hin : ∃ s ∈ txn.created, s.key = some key
    · -- A key that the transaction has sent under had no message.
      obtain ⟨s, hs, hkey⟩ := hin
      obtain ⟨message, hmessage, rfl⟩ := mem_map.mp hs
      have hrow := (h.created message hmessage).2 key hkey
      have hfree := h.free key (by rw [hrow]; simp)
      have hnone : (db.sent.filter fun s => s.key = some key) = [] := by
        refine filter_eq_nil_iff.mpr fun s hs hkey => ?_
        have hrecorded := hdb.recorded s hs key (by simpa using hkey)
        rw [hfree] at hrecorded
        cases hrecorded
      rw [hnone]
      simpa using hnew
    · have hnone : (txn.created.filter fun s => s.key = some key) = [] := by
        refine filter_eq_nil_iff.mpr fun s hs hkey => hin ⟨s, hs, by simpa using hkey⟩
      rw [hnone]
      simpa using hold

/-- The results of a call are the messages of its keys. -/
def Answered (call : Call) (results : List ℕ) (db : Db δ) : Prop :=
  results.length = call.requests.length ∧
    ∀ (i r : ℕ), call.requests[i]? = some r → ∀ key, call.key r = some key →
      ∃ s ∈ db.sent, s.key = some key ∧ s.payload = call.payload r ∧ results[i]? = some s.id

/-- **The results of a call** are the messages of its keys, for the same requests. -/
theorem answered_commit (hinj : Function.Injective digest) (hdb : DbOk digest legacy db)
    (h : Sending digest db txn)
    (hresults : allResults txn.result txn.call.requests = some results) :
    Answered txn.call results (txn.commit db) := by
  obtain ⟨hlength, hspec⟩ := allResults_spec hresults
  refine ⟨hlength, ?_⟩
  intro i r hi key hkey
  obtain ⟨m, hm, hresult⟩ := hspec i r hi
  -- A message of the transaction is one that the commit creates.
  have hmine : ∀ o, (o, m) ∈ txn.messages → txn.call.key o = some key →
      digest (txn.call.payload r) = digest (txn.call.payload o) →
        ∃ s ∈ (txn.commit db).sent, s.key = some key ∧ s.payload = txn.call.payload r ∧
          results[i]? = some s.id := by
    intro o ho hko hdigest
    exact ⟨_, mem_append_right _ (mem_created ho), hko, (hinj hdigest).symm, hresult⟩
  cases halias : txn.aliases r with
  | some o =>
    obtain ⟨key', hkey', ho, hdigest⟩ := h.aliased r o halias
    rw [hkey] at hkey'
    cases hkey'
    have hbase : txn.base o = some m := by
      rw [Txn.result, halias] at hm
      exact hm
    exact hmine o (base_of_not_replayed (not_replayed_of_claimed h.toBound ho) hbase)
      (h.claimed key o ho).2.1 hdigest
  | none =>
    have hbase : txn.base r = some m := by
      rw [Txn.result, halias] at hm
      exact hm
    cases hreplayed : txn.replayed_results r with
    | none => exact hmine r (base_of_not_replayed hreplayed hbase) hkey rfl
    | some m' =>
      have hsame : m' = m := by
        rw [Txn.base, hreplayed] at hbase
        exact Option.some.inj hbase
      subst hsame
      obtain ⟨key', hkey', hintent⟩ := h.replayed r m' hreplayed
      rw [hkey] at hkey'
      cases hkey'
      obtain ⟨s, hs, hks, hrow⟩ := hdb.sent_of_intent hintent rfl
      injection hrow with hdigest _ hid
      refine ⟨s, mem_append_left _ hs, hks, (hinj hdigest).symm, ?_⟩
      rw [hresult, Option.some.inj hid]

end GrowTeam.SendKeys
