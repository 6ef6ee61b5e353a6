import GrowTeam.Retention.Database

/-!
# What every step keeps

Numbers are given out once, so a live row and an archived one with the same number belong to the
same message, and a live attachment and an archived one with the same number have the same path.
A message in the archive is live exactly when its transaction was restored.
-/

namespace GrowTeam.Retention

open Depot List

/-- The attachments and those that were archived. -/
structure PathsKept (live archived : List Attachment) (next : ℕ) : Prop where
  live_lt : ∀ a ∈ live, a.id < next
  archived_lt : ∀ a ∈ archived, a.id < next
  path_iff : ∀ a ∈ live, ∀ b ∈ archived, a.id = b.id ↔ a.path_id = b.path_id

/-- The messages, those that were archived, and the transactions. -/
structure RecordsKept (messages : List Message) (archived : List ArchivedMessage)
    (nextMessage : ℕ) (transactions : List ArchiveTransaction) (nextTransaction : ℕ) : Prop where
  message_lt : ∀ m ∈ messages, m.id < nextMessage
  archived_lt : ∀ a ∈ archived, a.message.id < nextMessage
  transaction_lt : ∀ t ∈ transactions, t.id < nextTransaction
  back : ∀ a ∈ archived, a.message.id ∈ messages.map Message.id ↔
    ∃ t ∈ transactions, t.id = a.archive_transaction_id ∧ t.restored = true

structure Kept (db : Database) : Prop where
  valid : db.Valid
  sound : db.related.Each fun s => s.Sound
  paths : PathsKept db.attachments db.archivedAttachments db.nextAttachment
  records : RecordsKept db.messages db.archivedMessages db.nextMessage db.transactions
    db.nextTransaction

theorem kept_empty : Kept empty := by
  have hconstrained : ∀ {α : Type} [UniqueTogether α], (Depot.empty : Depot α).Constrained := by
    intro α _
    exact ⟨⟨nodup_nil, nodup_nil⟩, .nil, .nil⟩
  have hrefers : ∀ {α : Type}, (Depot.empty : Depot α).Refers [] [] := by
    intro α
    exact ⟨fun r hr => (by cases hr), fun r hr => (by cases hr)⟩
  have hsound : ∀ {α : Type}, (Depot.empty : Depot α).Sound := by
    intro α
    exact ⟨fun r hr => (by cases hr), fun r hr => (by cases hr), fun r hr => (by cases hr)⟩
  constructor
  · constructor
    · exact nodup_nil
    · exact nodup_nil
    · exact ⟨hconstrained, hconstrained, hconstrained, hconstrained⟩
    · exact ⟨hrefers, hrefers, hrefers, hrefers⟩
    · exact nodup_nil
    · exact nodup_nil
    · exact nodup_nil
    · exact nodup_nil
    · exact fun l hl => (by cases hl)
    · exact fun l hl => (by cases hl)
    · exact nodup_nil
    · exact fun a ha => (by cases ha)
  · exact ⟨hsound, hsound, hsound, hsound⟩
  · exact ⟨fun a ha => (by cases ha), fun a ha => (by cases ha), fun a ha => (by cases ha)⟩
  · exact ⟨fun a ha => (by cases ha), fun a ha => (by cases ha), fun a ha => (by cases ha),
      fun a ha => (by cases ha)⟩

/-! ## Attachments -/

namespace PathsKept

variable {live archived : List Attachment} {next : ℕ} (h : PathsKept live archived next)

include h

theorem upload {path_id : String} {data : AttachmentData}
    (hnew : path_id ∉ (live ++ archived).map Attachment.path_id) :
    PathsKept (live ++ [⟨next, path_id, data⟩]) archived (next + 1) := by
  constructor
  · intro a ha
    rcases mem_append.mp ha with ha | ha
    · exact Nat.lt_succ_of_lt (h.live_lt a ha)
    · rw [mem_singleton.mp ha]
      exact Nat.lt_succ_self next
  · exact fun a ha => Nat.lt_succ_of_lt (h.archived_lt a ha)
  · intro a ha b hb
    rcases mem_append.mp ha with ha | ha
    · exact h.path_iff a ha b hb
    · rw [mem_singleton.mp ha]
      have hpath : path_id ≠ b.path_id := by
        rintro rfl
        exact hnew (mem_map_of_mem (mem_append_right _ hb))
      have hid : next ≠ b.id := fun hid => Nat.ne_of_lt (h.archived_lt b hb) hid.symm
      exact iff_of_false hid hpath

/-- Changes of the columns, and fewer attachments. -/
theorem of_live {live' : List Attachment}
    (hsub : ∀ a ∈ live', ∃ b ∈ live, a.id = b.id ∧ a.path_id = b.path_id) :
    PathsKept live' archived next := by
  constructor
  · intro a ha
    obtain ⟨b, hb, hid, -⟩ := hsub a ha
    rw [hid]
    exact h.live_lt b hb
  · exact h.archived_lt
  · intro a ha c hc
    obtain ⟨b, hb, hid, hpath⟩ := hsub a ha
    rw [hid, hpath]
    exact h.path_iff b hb c hc

theorem archive (hids : (live.map Attachment.id).Nodup)
    (hpaths : (live.map Attachment.path_id).Nodup) {moved : List Attachment}
    (hmoved : ∀ a ∈ moved, a ∈ live) :
    PathsKept live (insertNew Attachment.id archived moved) next := by
  constructor
  · exact h.live_lt
  · intro a ha
    rcases mem_insertNew.mp ha with ha | ⟨ha, -⟩
    · exact h.archived_lt a ha
    · exact h.live_lt a (hmoved a ha)
  · intro a ha b hb
    rcases mem_insertNew.mp hb with hb | ⟨hb, -⟩
    · exact h.path_iff a ha b hb
    · -- two live attachments
      constructor
      · intro hid
        rw [eq_of_key hids ha (hmoved b hb) hid]
      · intro hpath
        rw [eq_of_key hpaths ha (hmoved b hb) hpath]

theorem restore (hids : (archived.map Attachment.id).Nodup)
    (hpaths : (archived.map Attachment.path_id).Nodup) {moved : List Attachment}
    (hmoved : ∀ a ∈ moved, a ∈ archived) :
    PathsKept (insertNew Attachment.id live moved) archived next := by
  constructor
  · intro a ha
    rcases mem_insertNew.mp ha with ha | ⟨ha, -⟩
    · exact h.live_lt a ha
    · exact h.archived_lt a (hmoved a ha)
  · exact h.archived_lt
  · intro a ha b hb
    rcases mem_insertNew.mp ha with ha | ⟨ha, -⟩
    · exact h.path_iff a ha b hb
    · constructor
      · intro hid
        rw [eq_of_key hids (hmoved a ha) hb hid]
      · intro hpath
        rw [eq_of_key hpaths (hmoved a ha) hb hpath]

end PathsKept

/-! ## Messages and transactions -/

namespace RecordsKept

variable {messages : List Message} {archived : List ArchivedMessage} {nextMessage : ℕ}
  {transactions : List ArchiveTransaction} {nextTransaction : ℕ}
  (h : RecordsKept messages archived nextMessage transactions nextTransaction)

include h

theorem send (data : MessageData) :
    RecordsKept (messages ++ [⟨nextMessage, data⟩]) archived (nextMessage + 1) transactions
      nextTransaction := by
  constructor
  · intro m hm
    rcases mem_append.mp hm with hm | hm
    · exact Nat.lt_succ_of_lt (h.message_lt m hm)
    · rw [mem_singleton.mp hm]
      exact Nat.lt_succ_self nextMessage
  · exact fun a ha => Nat.lt_succ_of_lt (h.archived_lt a ha)
  · exact h.transaction_lt
  · intro a ha
    rw [← h.back a ha, map_append, mem_append]
    have hne : a.message.id ≠ nextMessage := Nat.ne_of_lt (h.archived_lt a ha)
    constructor
    · rintro (hid | hid)
      · exact hid
      · exact absurd (mem_singleton.mp hid) hne
    · exact .inl

theorem edit (message_id : ℕ) (data : MessageData) :
    RecordsKept (messages.map fun m => if m.id = message_id then { m with data := data } else m)
      archived nextMessage transactions nextTransaction := by
  have hids : (messages.map fun m => if m.id = message_id then { m with data := data } else m).map
      Message.id = messages.map Message.id := by
    rw [map_map]
    apply map_congr_left
    intro m _
    rw [Function.comp]
    split <;> rfl
  constructor
  · intro m hm
    have hid := mem_map_of_mem (f := Message.id) hm
    rw [hids] at hid
    obtain ⟨n, hn, hnm⟩ := mem_map.mp hid
    rw [← hnm]
    exact h.message_lt n hn
  · exact h.archived_lt
  · exact h.transaction_lt
  · intro a ha
    rw [hids]
    exact h.back a ha

/-- A change of a transaction that does not restore it. -/
theorem protect (f : ArchiveTransaction → ArchiveTransaction) (hid : ∀ t, (f t).id = t.id)
    (hrestored : ∀ t, (f t).restored = t.restored) :
    RecordsKept messages archived nextMessage (transactions.map f) nextTransaction := by
  constructor
  · exact h.message_lt
  · exact h.archived_lt
  · intro t ht
    obtain ⟨u, hu, rfl⟩ := mem_map.mp ht
    rw [hid]
    exact h.transaction_lt u hu
  · intro a ha
    rw [h.back a ha]
    constructor
    · rintro ⟨t, ht, hta, hr⟩
      exact ⟨f t, mem_map_of_mem ht, (hid t).trans hta, (hrestored t).trans hr⟩
    · rintro ⟨t, ht, hta, hr⟩
      obtain ⟨u, hu, rfl⟩ := mem_map.mp ht
      exact ⟨u, hu, (hid u).symm.trans hta, (hrestored u).symm.trans hr⟩

/-- A vacuuming takes the messages of the transactions that go. -/
theorem vacuum (doomed : List ℕ) :
    RecordsKept messages (archived.filter fun a => !doomed.contains a.archive_transaction_id)
      nextMessage (transactions.filter fun t => !doomed.contains t.id) nextTransaction := by
  constructor
  · exact h.message_lt
  · exact fun a ha => h.archived_lt a (mem_filter.mp ha).1
  · exact fun t ht => h.transaction_lt t (mem_filter.mp ht).1
  · intro a ha
    obtain ⟨ha, hstays⟩ := mem_filter.mp ha
    rw [h.back a ha]
    constructor
    · rintro ⟨t, ht, hta, hr⟩
      exact ⟨t, mem_filter.mpr ⟨ht, hta ▸ hstays⟩, hta, hr⟩
    · rintro ⟨t, ht, hta, hr⟩
      exact ⟨t, (mem_filter.mp ht).1, hta, hr⟩

/-- Archived messages are gone, and their new transaction is not restored. -/
theorem archive {chunk : List Message} (hchunk : ∀ m ∈ chunk, m ∈ messages) {t : ArchiveTransaction}
    (ht : t.id = nextTransaction) (hr : t.restored = false) {archived' : List ArchivedMessage}
    (harchived : ∀ a ∈ archived', (a ∈ archived ∧ a.message.id ∉ chunk.map Message.id) ∨
      a.archive_transaction_id = nextTransaction ∧ a.message.id ∈ chunk.map Message.id) :
    RecordsKept (messages.filter fun m => !(chunk.map Message.id).contains m.id) archived'
      nextMessage (transactions ++ [t]) (nextTransaction + 1) := by
  have hlt : ∀ n ∈ chunk.map Message.id, n < nextMessage := by
    intro n hn
    obtain ⟨m, hm, rfl⟩ := mem_map.mp hn
    exact h.message_lt m (hchunk m hm)
  constructor
  · exact fun m hm => h.message_lt m (mem_filter.mp hm).1
  · intro a ha
    rcases harchived a ha with ⟨ha, -⟩ | ⟨-, hin⟩
    · exact h.archived_lt a ha
    · exact hlt _ hin
  · intro u hu
    rcases mem_append.mp hu with hu | hu
    · exact Nat.lt_succ_of_lt (h.transaction_lt u hu)
    · rw [mem_singleton.mp hu, ht]
      exact Nat.lt_succ_self nextTransaction
  · intro a ha
    have hlive : a.message.id ∈ (messages.filter fun m =>
        !(chunk.map Message.id).contains m.id).map Message.id ↔
        a.message.id ∈ messages.map Message.id ∧ a.message.id ∉ chunk.map Message.id := by
      simp only [mem_map, mem_filter, Bool.not_eq_true', ← Bool.not_eq_true, contains_iff_mem]
      constructor
      · rintro ⟨m, ⟨hm, hnot⟩, hid⟩
        exact ⟨⟨m, hm, hid⟩, hid ▸ hnot⟩
      · rintro ⟨⟨m, hm, hid⟩, hnot⟩
        exact ⟨m, ⟨hm, hid ▸ hnot⟩, hid⟩
    rw [hlive]
    rcases harchived a ha with ⟨ha, hout⟩ | ⟨hta, hin⟩
    · -- recorded before, and so in an older transaction
      rw [and_iff_left hout, h.back a ha]
      constructor
      · rintro ⟨u, hu, hua, hur⟩
        exact ⟨u, mem_append_left _ hu, hua, hur⟩
      · rintro ⟨u, hu, hua, hur⟩
        rcases mem_append.mp hu with hu | hu
        · exact ⟨u, hu, hua, hur⟩
        · rw [mem_singleton.mp hu, hr] at hur
          cases hur
    · refine iff_of_false (fun hl => hl.2 hin) ?_
      rintro ⟨u, hu, hua, hur⟩
      rcases mem_append.mp hu with hu | hu
      · exact Nat.ne_of_lt (h.transaction_lt u hu) (hua.trans hta)
      · rw [mem_singleton.mp hu, hr] at hur
        cases hur

/-- The messages of a restored transaction are live. -/
theorem restore (hids : (archived.map fun a => a.message.id).Nodup) {archive_transaction_id : ℕ}
    (hexists : archive_transaction_id ∈ transactions.map ArchiveTransaction.id)
    (now : ℤ) :
    RecordsKept
      (insertNew Message.id messages ((archived.filter fun a =>
        a.archive_transaction_id = archive_transaction_id).map ArchivedMessage.message))
      archived nextMessage
      (transactions.map fun t => if t.id = archive_transaction_id then
        { t with restored := true, restored_timestamp := some now } else t)
      nextTransaction := by
  have hrow : ∀ t : ArchiveTransaction, (if t.id = archive_transaction_id then
      { t with restored := true, restored_timestamp := some now } else t).id = t.id := by
    intro t
    split <;> rfl
  constructor
  · intro m hm
    rcases mem_insertNew.mp hm with hm | ⟨hm, -⟩
    · exact h.message_lt m hm
    · obtain ⟨a, ha, rfl⟩ := mem_map.mp hm
      exact h.archived_lt a (mem_filter.mp ha).1
  · exact h.archived_lt
  · intro t ht
    obtain ⟨u, hu, rfl⟩ := mem_map.mp ht
    rw [hrow]
    exact h.transaction_lt u hu
  · intro a ha
    by_cases hta : a.archive_transaction_id = archive_transaction_id
    · -- its message was inserted or was there, and its transaction is marked
      refine iff_of_true ?_ ?_
      · by_cases hthere : a.message.id ∈ messages.map Message.id
        · obtain ⟨m, hm, hid⟩ := mem_map.mp hthere
          exact mem_map.mpr ⟨m, mem_insertNew.mpr (.inl hm), hid⟩
        · refine mem_map.mpr ⟨a.message, mem_insertNew.mpr (.inr ⟨?_, ?_⟩), rfl⟩
          · exact mem_map_of_mem (mem_filter.mpr ⟨ha, by simp [hta]⟩)
          · exact fun d hd hid => hthere (mem_map.mpr ⟨d, hd, hid⟩)
      · obtain ⟨t, ht, hid⟩ := mem_map.mp hexists
        refine ⟨_, mem_map_of_mem ht, ?_⟩
        rw [if_pos hid]
        exact ⟨hid.trans hta.symm, rfl⟩
    · have hlive : a.message.id ∈ (insertNew Message.id messages ((archived.filter fun b =>
          b.archive_transaction_id = archive_transaction_id).map
            ArchivedMessage.message)).map Message.id ↔
          a.message.id ∈ messages.map Message.id := by
        constructor
        · intro hin
          obtain ⟨m, hm, hid⟩ := mem_map.mp hin
          rcases mem_insertNew.mp hm with hm | ⟨hm, -⟩
          · exact mem_map.mpr ⟨m, hm, hid⟩
          · obtain ⟨b, hb, rfl⟩ := mem_map.mp hm
            obtain ⟨hb, hbt⟩ := mem_filter.mp hb
            rw [eq_of_key hids hb ha hid] at hbt
            exact absurd (of_decide_eq_true hbt) hta
        · intro hin
          obtain ⟨m, hm, hid⟩ := mem_map.mp hin
          exact mem_map.mpr ⟨m, mem_insertNew.mpr (.inl hm), hid⟩
      rw [hlive, h.back a ha]
      constructor
      · rintro ⟨t, ht, hid, hr⟩
        refine ⟨_, mem_map_of_mem ht, ?_⟩
        rw [if_neg (fun hid' => hta (hid.symm.trans hid'))]
        exact ⟨hid, hr⟩
      · rintro ⟨u, hu, hid, hr⟩
        obtain ⟨t, ht, rfl⟩ := mem_map.mp hu
        rw [hrow] at hid
        rw [if_neg (fun hid' => hta (hid.symm.trans hid'))] at hr
        exact ⟨t, ht, hid, hr⟩

end RecordsKept

/-! ## Every step -/

variable {db db' : Database}

/-- A transaction is committed, or changes nothing. -/
theorem commit_cases (db : Database) (answer : Answer) (db' : Database) :
    db'.Valid ∧ db.commit answer db' = (answer, db') ∨
      ¬ db'.Valid ∧ db.commit answer db' = (.integrityError, db) := by
  by_cases h : db'.Valid
  · exact .inl ⟨h, if_pos h⟩
  · exact .inr ⟨h, if_neg h⟩

theorem Kept.commit (h : Kept db) {answer : Answer} (h' : db'.Valid → Kept db') :
    Kept (db.commit answer db').2 := by
  rcases commit_cases db answer db' with ⟨hvalid, heq⟩ | ⟨-, heq⟩
  · rw [heq]
    exact h' hvalid
  · rw [heq]
    exact h

theorem insertAll_sound {α : Type} {s : Depot α} (h : s.Sound) (owner : ℕ) (rows : List α) :
    (insertAll owner rows s).Sound := by
  induction rows generalizing s with
  | nil => exact h
  | cons data rows ih => exact ih (h.change (.insert owner data))

/-- A chunk is taken from the messages. -/
theorem select_subset (db : Database) (query : Query) (limit : Option (ℕ × List ℕ)) :
    ∀ m ∈ db.select query limit, m ∈ db.messages := by
  intro m hm
  unfold Database.select at hm
  split at hm
  · exact (mem_filter.mp hm).1
  · exact (mem_filter.mp (mem_filter.mp (mem_of_mem_take hm)).1).1

/-- A message in the archive was there before, or comes from the chunk. -/
theorem mem_moveMessages {db : Database} {txn : ℕ} {chunk : List Message} {a : ArchivedMessage} :
    a ∈ db.moveMessages txn chunk ↔
      (a ∈ db.archivedMessages ∧ a.message.id ∉ chunk.map Message.id) ∨
      (a.archive_transaction_id = txn ∧ a.message.id ∈ chunk.map Message.id ∧
        ∃ b ∈ db.archivedMessages, b.message = a.message) ∨
      a.archive_transaction_id = txn ∧ a.message ∈ chunk ∧ a.message.id ∉ db.archivedIds := by
  rw [Database.moveMessages, mem_append]
  constructor
  · rintro (ha | ha)
    · obtain ⟨b, hb, rfl⟩ := mem_map.mp ha
      by_cases hin : (chunk.map Message.id).contains b.message.id = true
      · rw [if_pos hin]
        exact .inr (.inl ⟨rfl, contains_iff_mem.mp hin, b, hb, rfl⟩)
      · rw [if_neg hin]
        exact .inl ⟨hb, fun h => hin (contains_iff_mem.mpr h)⟩
    · obtain ⟨m, hm, rfl⟩ := mem_map.mp ha
      obtain ⟨hm, hnew⟩ := mem_filter.mp hm
      refine .inr (.inr ⟨rfl, hm, fun h => ?_⟩)
      rw [contains_iff_mem.mpr h] at hnew
      cases hnew
  · rintro (⟨ha, hout⟩ | ⟨htxn, hin, b, hb, hba⟩ | ⟨htxn, ha, hnew⟩)
    · refine .inl (mem_map.mpr ⟨a, ha, ?_⟩)
      rw [if_neg fun h => hout (contains_iff_mem.mp h)]
    · refine .inl (mem_map.mpr ⟨b, hb, ?_⟩)
      rw [if_pos (contains_iff_mem.mpr (hba ▸ hin)), hba, ← htxn]
    · refine .inr (mem_map.mpr ⟨a.message, mem_filter.mpr ⟨ha, ?_⟩, ?_⟩)
      · simpa using hnew
      · rw [← htxn]

theorem Kept.archiveChunk (h : Kept db) (query : Query) (realm_id : ℕ) (now : ℤ)
    {chunk : List Message} (hchunk : ∀ m ∈ chunk, m ∈ db.messages)
    (hv : (db.archiveChunk query realm_id now chunk).Valid) :
    Kept (db.archiveChunk query realm_id now chunk) := by
  constructor
  · exact hv
  · exact (h.sound.and h.valid.constrained).map fun s hs => (hs.1.putAway hs.2.1.1 _).remove _
  · exact h.paths.archive h.valid.attachments h.valid.paths fun a ha => (mem_filter.mp ha).1
  · refine h.records.archive hchunk rfl rfl ?_
    intro a ha
    rcases mem_moveMessages.mp ha with hold | ⟨htxn, hin, -⟩ | ⟨htxn, ha, -⟩
    · exact .inl hold
    · exact .inr ⟨htxn, hin⟩
    · exact .inr ⟨htxn, mem_map_of_mem ha⟩

theorem Kept.restoreData (h : Kept db) {archive_transaction_id : ℕ}
    (hexists : archive_transaction_id ∈ db.transactions.map ArchiveTransaction.id) (now : ℤ)
    (hv : (db.restoreData archive_transaction_id now).Valid) :
    Kept (db.restoreData archive_transaction_id now) := by
  constructor
  · exact hv
  · exact (h.sound.and h.valid.constrained).map fun s hs => hs.1.takeOut hs.2.1.2 _
  · exact h.paths.restore h.valid.archivedAttachments h.valid.archivedPaths
      fun a ha => (mem_filter.mp ha).1
  · exact h.records.restore h.valid.archivedMessages hexists now

/-- **Every step keeps the invariant.** -/
theorem step_kept (i : Input) (h : Kept db) : Kept (step i db).2 := by
  cases i with
  | send data rows =>
    exact h.commit fun hv => ⟨hv, ⟨insertAll_sound h.sound.1 _ _, h.sound.2⟩, h.paths,
      h.records.send data⟩
  | edit message_id data =>
    exact h.commit fun hv => ⟨hv, h.sound, h.paths, h.records.edit message_id data⟩
  | userMessage c =>
    exact h.commit fun hv => ⟨hv, ⟨h.sound.1.change c, h.sound.2⟩, h.paths, h.records⟩
  | reaction c =>
    exact h.commit fun hv =>
      ⟨hv, ⟨h.sound.1, h.sound.2.1.change c, h.sound.2.2⟩, h.paths, h.records⟩
  | submessage c =>
    exact h.commit fun hv =>
      ⟨hv, ⟨h.sound.1, h.sound.2.1, h.sound.2.2.1.change c, h.sound.2.2.2⟩, h.paths, h.records⟩
  | link c =>
    exact h.commit fun hv =>
      ⟨hv, ⟨h.sound.1, h.sound.2.1, h.sound.2.2.1, h.sound.2.2.2.change c⟩, h.paths, h.records⟩
  | upload path_id data =>
    dsimp only [step]
    split
    · exact h
    · next hnew => exact h.commit fun hv => ⟨hv, h.sound, h.paths.upload hnew, h.records⟩
  | updateAttachment id data =>
    refine h.commit fun hv => ⟨hv, h.sound, h.paths.of_live ?_, h.records⟩
    intro a ha
    obtain ⟨b, hb, rfl⟩ := mem_map.mp ha
    refine ⟨b, hb, ?_⟩
    split <;> exact ⟨rfl, rfl⟩
  | deleteAttachment id =>
    refine h.commit fun hv => ⟨hv, ⟨h.sound.1, h.sound.2.1, h.sound.2.2.1, ?_⟩, ?_, h.records⟩
    · have hs := h.sound.2.2.2
      exact ⟨fun r hr => hs.live_lt r (mem_filter.mp hr).1, hs.archived_lt,
        fun r hr => hs.owner_eq r (mem_filter.mp hr).1⟩
    · exact h.paths.of_live fun a ha => ⟨a, (mem_filter.mp ha).1, rfl, rfl⟩
  | archive query realm_id limit now =>
    dsimp only [step]
    have hchunk := select_subset db query limit
    split
    · exact h
    · next hne => exact h.commit fun hv => h.archiveChunk query realm_id now hchunk hv
  | cleanAttachments candidates scheduled =>
    exact h.commit fun hv =>
      ⟨hv, h.sound, h.paths.of_live fun a ha => ⟨a, (mem_filter.mp ha).1, rfl, rfl⟩, h.records⟩
  | restore archive_transaction_id now =>
    dsimp only [step]
    split
    · next hexists => exact h.commit fun hv => h.restoreData hexists now hv
    · exact h
  | protect archive_transaction_id protect_from_deletion =>
    refine h.commit fun hv => ⟨hv, h.sound, h.paths, h.records.protect _ ?_ ?_⟩
    · intro t
      split <;> rfl
    · intro t
      split <;> rfl
  | vacuum check_date transaction_block =>
    exact h.commit fun hv =>
      ⟨hv, h.sound.map fun s hs => hs.lose _, h.paths, h.records.vacuum _⟩

end GrowTeam.Retention
