import GrowTeam.Retention.Kept

/-!
# One archiving and one restoring

Archiving a message puts it away as it is exactly when all that an earlier archiving left of it
in the archive is still live and unchanged.  Restoring gives back what the archive holds of it.
-/

namespace GrowTeam.Retention

open Depot List Database

/-- A message with all that belongs to it. -/
structure View where
  message : List Message
  userMessages : List (Row UserMessageData)
  reactions : List (Row ReactionData)
  submessages : List (Row SubMessageData)
  links : List (Row LinkData)

/-- The live rows of a message. -/
def Database.view (db : Database) (m : ℕ) : View :=
  ⟨db.messages.filter fun n => n.id = m, db.related.userMessages.liveOf m,
    db.related.reactions.liveOf m, db.related.submessages.liveOf m,
    db.related.attachmentMessages.liveOf m⟩

/-- The archived rows of a message. -/
def Database.archivedView (db : Database) (m : ℕ) : View :=
  ⟨(db.archivedMessages.map ArchivedMessage.message).filter fun n => n.id = m,
    db.related.userMessages.archivedOf m, db.related.reactions.archivedOf m,
    db.related.submessages.archivedOf m, db.related.attachmentMessages.archivedOf m⟩

def SameRows {ρ : Type} (a b : List ρ) : Prop := ∀ r, r ∈ a ↔ r ∈ b

/-- The same rows, in any order. -/
structure View.Same (v w : View) : Prop where
  message : SameRows v.message w.message
  userMessages : SameRows v.userMessages w.userMessages
  reactions : SameRows v.reactions w.reactions
  submessages : SameRows v.submessages w.submessages
  links : SameRows v.links w.links

theorem View.Same.refl (v : View) : v.Same v :=
  ⟨fun _ => .rfl, fun _ => .rfl, fun _ => .rfl, fun _ => .rfl, fun _ => .rfl⟩

theorem View.Same.trans {u v w : View} (h : u.Same v) (h' : v.Same w) : u.Same w :=
  ⟨fun r => (h.message r).trans (h'.message r),
    fun r => (h.userMessages r).trans (h'.userMessages r),
    fun r => (h.reactions r).trans (h'.reactions r),
    fun r => (h.submessages r).trans (h'.submessages r),
    fun r => (h.links r).trans (h'.links r)⟩

theorem View.Same.symm {v w : View} (h : v.Same w) : w.Same v :=
  ⟨fun r => (h.message r).symm, fun r => (h.userMessages r).symm,
    fun r => (h.reactions r).symm, fun r => (h.submessages r).symm, fun r => (h.links r).symm⟩

/-- All that is archived of a message is live as it is. -/
def Fresh (db : Database) (m : ℕ) : Prop :=
  (∀ a ∈ db.archivedMessages, a.message.id = m → a.message ∈ db.messages) ∧
    db.related.Each fun s => ∀ r ∈ s.archivedOf m, r ∈ s.live

variable {db : Database}

/-! ## Archiving -/

section Archiving

variable {query : Query} {realm_id : ℕ} {now : ℤ} {chunk : List Message} {m : ℕ}

theorem mem_messageIds_archiveChunk :
    m ∈ (db.archiveChunk query realm_id now chunk).messageIds ↔
      m ∈ db.messageIds ∧ m ∉ chunk.map Message.id := by
  show m ∈ (db.messages.filter fun n => !(chunk.map Message.id).contains n.id).map Message.id ↔ _
  rw [messageIds]
  simp only [mem_map, mem_filter, Bool.not_eq_true', ← Bool.not_eq_true, contains_iff_mem]
  constructor
  · rintro ⟨n, ⟨hn, hnot⟩, rfl⟩
    exact ⟨⟨n, hn, rfl⟩, hnot⟩
  · rintro ⟨⟨n, hn, rfl⟩, hnot⟩
    exact ⟨n, ⟨hn, hnot⟩, rfl⟩

/-- The message itself is put away as it is, or its older row stays. -/
theorem archived_message_iff (h : Kept db) (hchunk : ∀ n ∈ chunk, n ∈ db.messages)
    (hm : m ∈ chunk.map Message.id) :
    SameRows ((db.archiveChunk query realm_id now chunk).archivedView m).message
        (db.view m).message ↔
      ∀ a ∈ db.archivedMessages, a.message.id = m → a.message ∈ db.messages := by
  have hleft : ∀ n, n ∈ ((db.archiveChunk query realm_id now chunk).archivedView m).message ↔
      (∃ a ∈ db.moveMessages db.nextTransaction chunk, a.message = n) ∧ n.id = m := by
    intro n
    show n ∈ ((db.moveMessages db.nextTransaction chunk).map
      ArchivedMessage.message).filter (fun n => n.id = m) ↔ _
    simp
  have hright : ∀ n, n ∈ (db.view m).message ↔ n ∈ db.messages ∧ n.id = m := by
    intro n
    show n ∈ db.messages.filter (fun n => n.id = m) ↔ _
    simp
  constructor
  · intro hsame a ha hid
    have hmoved : ∃ b ∈ db.moveMessages db.nextTransaction chunk, b.message = a.message :=
      ⟨⟨a.message, db.nextTransaction⟩,
        mem_moveMessages.mpr (.inr (.inl ⟨rfl, by rwa [hid], a, ha, rfl⟩)), rfl⟩
    exact ((hright _).mp ((hsame a.message).mp ((hleft _).mpr ⟨hmoved, hid⟩))).1
  · intro hcurrent n
    rw [hleft, hright]
    constructor
    · rintro ⟨⟨a, ha, rfl⟩, hid⟩
      rcases mem_moveMessages.mp ha with ⟨-, hout⟩ | ⟨-, -, b, hb, hba⟩ | ⟨-, ha, -⟩
      · exact absurd (hid ▸ hm) hout
      · exact ⟨hba ▸ hcurrent b hb (hba ▸ hid), hid⟩
      · exact ⟨hchunk _ ha, hid⟩
    · rintro ⟨hn, hid⟩
      refine ⟨?_, hid⟩
      obtain ⟨c, hc, hcm⟩ := mem_map.mp hm
      have hcn : c = n := eq_of_key h.valid.messages (hchunk c hc) hn (hcm.trans hid.symm)
      by_cases hold : n.id ∈ db.archivedIds
      · obtain ⟨a, ha, han⟩ := mem_map.mp hold
        have hsame : a.message = n :=
          eq_of_key h.valid.messages (hcurrent a ha (han.trans hid)) hn han
        exact ⟨⟨n, db.nextTransaction⟩,
          mem_moveMessages.mpr (.inr (.inl ⟨rfl, hid ▸ hm, a, ha, hsame⟩)), rfl⟩
      · exact ⟨⟨n, db.nextTransaction⟩,
          mem_moveMessages.mpr (.inr (.inr ⟨rfl, hcn ▸ hc, hold⟩)), rfl⟩

/-- **A message is put away as it is** exactly if nothing older of it in the archive differs. -/
theorem archiveChunk_iff (h : Kept db) (hchunk : ∀ n ∈ chunk, n ∈ db.messages)
    (hm : m ∈ chunk.map Message.id) :
    ((db.archiveChunk query realm_id now chunk).archivedView m).Same (db.view m) ↔ Fresh db m := by
  have hrows : ∀ {α : Type} [UniqueTogether α] (s : Depot α), s.Sound ∧ s.Constrained →
      (SameRows ((s.putAway (chunk.map Message.id)).archivedOf m) (s.liveOf m) ↔
        ∀ r ∈ s.archivedOf m, r ∈ s.live) := by
    intro α _ s hs
    exact hs.1.putAway_iff hs.2.1.1 hm
  obtain ⟨hu, hr, hs, hl⟩ := h.sound.and h.valid.constrained
  have hmessage : SameRows ((db.archiveChunk query realm_id now chunk).archivedView m).message
      (db.view m).message ↔ _ := archived_message_iff h hchunk hm
  constructor
  · intro hsame
    exact ⟨hmessage.mp hsame.message, (hrows _ hu).mp hsame.userMessages,
      (hrows _ hr).mp hsame.reactions, (hrows _ hs).mp hsame.submessages,
      (hrows _ hl).mp hsame.links⟩
  · rintro ⟨hfirst, hfu, hfr, hfs, hfl⟩
    exact ⟨hmessage.mpr hfirst, (hrows _ hu).mpr hfu, (hrows _ hr).mpr hfr, (hrows _ hs).mpr hfs,
      (hrows _ hl).mpr hfl⟩

/-- Of the other messages the archive holds what it held. -/
theorem archiveChunk_other (hm : m ∉ chunk.map Message.id) :
    ((db.archiveChunk query realm_id now chunk).archivedView m).Same (db.archivedView m) := by
  have hmessage : SameRows ((db.archiveChunk query realm_id now chunk).archivedView m).message
      (db.archivedView m).message := by
    intro n
    show n ∈ ((db.moveMessages db.nextTransaction chunk).map
      ArchivedMessage.message).filter (fun n => n.id = m) ↔
        n ∈ (db.archivedMessages.map ArchivedMessage.message).filter fun n => n.id = m
    simp only [mem_filter, mem_map, decide_eq_true_eq]
    constructor
    · rintro ⟨⟨a, ha, rfl⟩, hid⟩
      rcases mem_moveMessages.mp ha with ⟨ha, -⟩ | ⟨-, hin, -⟩ | ⟨-, ha, -⟩
      · exact ⟨⟨a, ha, rfl⟩, hid⟩
      · exact absurd (hid ▸ hin) hm
      · exact absurd (hid ▸ mem_map_of_mem ha) hm
    · rintro ⟨⟨a, ha, rfl⟩, hid⟩
      exact ⟨⟨a, mem_moveMessages.mpr (.inl ⟨ha, hid ▸ hm⟩), rfl⟩, hid⟩
  exact ⟨hmessage, fun _ => mem_putAway_other hm, fun _ => mem_putAway_other hm,
    fun _ => mem_putAway_other hm, fun _ => mem_putAway_other hm⟩

end Archiving

/-! ## Restoring -/

/-- The archive is valid after a restoring of messages none of which is live. -/
theorem valid_restoreData (h : Kept db) {txn : ℕ} (now : ℤ)
    (hgone : ∀ m ∈ (db.recorded txn).map Message.id, m ∉ db.messageIds) :
    (db.restoreData txn now).Valid := by
  have hrows : db.related.Each fun s => ∀ m ∈ (db.recorded txn).map Message.id,
      ∀ r ∈ s.live, r.owner ≠ m := by
    have hnone : ∀ {α : Type} [UniqueTogether α] (s : Depot α),
        s.Refers db.messageIds db.archivedIds → ∀ m ∈ (db.recorded txn).map Message.id,
          ∀ r ∈ s.live, r.owner ≠ m := by
      intro α _ s hs m hm r hr howner
      exact hgone m hm (howner ▸ hs.1 r hr)
    obtain ⟨hu, hr, hs, hl⟩ := h.valid.refers
    exact ⟨hnone _ hu, hnone _ hr, hnone _ hs, hnone _ hl⟩
  have hids : ∀ m, m ∈ (db.restoreData txn now).messageIds ↔
      m ∈ db.messageIds ∨ m ∈ (db.recorded txn).map Message.id := by
    intro m
    show m ∈ (insertNew Message.id db.messages (db.recorded txn)).map Message.id ↔ _
    rw [messageIds]
    simp only [mem_map, mem_insertNew]
    constructor
    · rintro ⟨n, hn | ⟨hn, -⟩, rfl⟩
      · exact .inl ⟨n, hn, rfl⟩
      · exact .inr ⟨n, hn, rfl⟩
    · rintro (⟨n, hn, rfl⟩ | ⟨n, hn, rfl⟩)
      · exact ⟨n, .inl hn, rfl⟩
      · refine ⟨n, .inr ⟨hn, ?_⟩, rfl⟩
        intro d hd hid
        exact hgone n.id (mem_map_of_mem hn) (mem_map.mpr ⟨d, hd, hid⟩)
  have hattached : ∀ a, a ∈ (db.restoreData txn now).attachments ↔ a ∈ db.attachments ∨
      a ∈ db.archivedAttachmentsOf ((db.recorded txn).map Message.id) ∧
        ∀ d ∈ db.attachments, d.id ≠ a.id := fun a => mem_insertNew
  constructor
  · refine nodup_insertNew h.valid.messages ?_ fun _ _ _ _ hid => hid
    have hsub := h.valid.archivedMessages
    rw [recorded, map_map]
    exact hsub.sublist (filter_sublist.map _)
  · exact h.valid.archivedMessages
  · exact (h.valid.constrained.and hrows).map fun s hs => hs.1.takeOut hs.2
  · have hrefers : ∀ {α : Type} [UniqueTogether α] (s : Depot α),
        s.Refers db.messageIds db.archivedIds →
        (s.takeOut ((db.recorded txn).map Message.id)).Refers
          (db.restoreData txn now).messageIds db.archivedIds := by
      intro α _ s hs
      refine ⟨?_, hs.2⟩
      intro r hr
      rcases mem_insertNew.mp hr with hr | ⟨hr, -⟩
      · exact (hids _).mpr (.inl (hs.1 r hr))
      · exact (hids _).mpr (.inr (contains_iff_mem.mp (mem_filter.mp hr).2))
    obtain ⟨hu, hr, hs, hl⟩ := h.valid.refers
    exact ⟨hrefers _ hu, hrefers _ hr, hrefers _ hs, hrefers _ hl⟩
  · exact nodup_insertNew h.valid.attachments
      (h.valid.archivedAttachments.sublist (filter_sublist.map _)) fun _ _ _ _ hid => hid
  · exact h.valid.archivedAttachments
  · refine nodup_insertNew h.valid.paths
      (h.valid.archivedPaths.sublist (filter_sublist.map _)) ?_
    intro d hd r hr hid hpath
    exact hid ((h.paths.path_iff d hd r (mem_filter.mp hr).1).mpr hpath)
  · exact h.valid.archivedPaths
  · intro l hl
    rcases mem_insertNew.mp hl with hl | ⟨hl, -⟩
    · obtain ⟨a, ha, hid⟩ := mem_map.mp (h.valid.links l hl)
      exact mem_map.mpr ⟨a, (hattached a).mpr (.inl ha), hid⟩
    · -- the attachment of a restored link is live, or is restored with it
      obtain ⟨hl, howner⟩ := mem_filter.mp hl
      obtain ⟨a, ha, hid⟩ := mem_map.mp (h.valid.archivedLinks l hl)
      by_cases hlive : ∃ d ∈ db.attachments, d.id = a.id
      · obtain ⟨d, hd, hda⟩ := hlive
        exact mem_map.mpr ⟨d, (hattached d).mpr (.inl hd), hda.trans hid⟩
      · refine mem_map.mpr ⟨a, (hattached a).mpr (.inr ⟨?_, ?_⟩), hid⟩
        · refine mem_filter.mpr ⟨ha, any_eq_true.mpr ⟨l, hl, ?_⟩⟩
          rw [howner, hid]
          simp
        · exact fun d hd hda => hlive ⟨d, hd, hda⟩
  · exact h.valid.archivedLinks
  · have hrow : (db.transactions.map fun t => if t.id = txn then
        { t with restored := true, restored_timestamp := some now } else t).map
          ArchiveTransaction.id = db.transactions.map ArchiveTransaction.id := by
      rw [map_map]
      apply map_congr_left
      intro t _
      rw [Function.comp]
      split <;> rfl
    show ((db.transactions.map fun t => if t.id = txn then
      { t with restored := true, restored_timestamp := some now } else t).map
        ArchiveTransaction.id).Nodup
    rw [hrow]
    exact h.valid.transactions
  · intro a ha
    obtain ⟨t, ht, hid⟩ := mem_map.mp (h.valid.archivedBy a ha)
    refine mem_map.mpr ⟨_, mem_map_of_mem ht, ?_⟩
    split <;> exact hid

/-- **A deleted message comes back** as the archive holds it. -/
theorem restore_view (h : Kept db) {a : ArchivedMessage} (ha : a ∈ db.archivedMessages)
    (hdeleted : a.message.id ∉ db.messageIds) (now : ℤ) :
    ∃ db', step (.restore a.archive_transaction_id now) db =
        (.restored (db.restoredIds a.archive_transaction_id), db') ∧
      (db'.view a.message.id).Same (db.archivedView a.message.id) := by
  -- the transaction was not restored, and so none of its messages is live
  have hgone : ∀ m ∈ (db.recorded a.archive_transaction_id).map Message.id,
      m ∉ db.messageIds := by
    intro m hm hlive
    rw [recorded, map_map] at hm
    obtain ⟨b, hb, rfl⟩ := mem_map.mp hm
    obtain ⟨hb, htxn⟩ := mem_filter.mp hb
    have hrestored := (h.records.back b hb).mp hlive
    rw [of_decide_eq_true htxn] at hrestored
    exact hdeleted ((h.records.back a ha).mpr hrestored)
  have hin : a.message.id ∈ (db.recorded a.archive_transaction_id).map Message.id := by
    refine mem_map_of_mem (mem_map_of_mem (mem_filter.mpr ⟨ha, ?_⟩))
    exact decide_eq_true rfl
  refine ⟨db.restoreData a.archive_transaction_id now, ?_, ?_⟩
  · have hvalid := valid_restoreData h now hgone
    show (if a.archive_transaction_id ∈ db.transactions.map ArchiveTransaction.id then _ else _) = _
    rw [if_pos (h.valid.archivedBy a ha), commit, if_pos hvalid]
  · have hrows : ∀ {α : Type} [UniqueTogether α] (s : Depot α),
        s.Sound ∧ s.Refers db.messageIds db.archivedIds →
        SameRows ((s.takeOut ((db.recorded a.archive_transaction_id).map Message.id)).liveOf
          a.message.id) (s.archivedOf a.message.id) := by
      intro α _ s hs r
      refine hs.1.mem_takeOut hin ?_
      intro d hd howner
      exact hdeleted (howner ▸ hs.2.1 d hd)
    have hmessage : SameRows
        ((db.restoreData a.archive_transaction_id now).view a.message.id).message
        (db.archivedView a.message.id).message := by
      intro n
      show n ∈ (insertNew Message.id db.messages
          (db.recorded a.archive_transaction_id)).filter (fun n => n.id = a.message.id) ↔
        n ∈ (db.archivedMessages.map ArchivedMessage.message).filter fun n => n.id = a.message.id
      simp only [mem_filter, mem_insertNew, decide_eq_true_eq]
      constructor
      · rintro ⟨hn | ⟨hn, -⟩, hid⟩
        · exact absurd (hid ▸ mem_map_of_mem hn) hdeleted
        · obtain ⟨b, hb, rfl⟩ := mem_map.mp hn
          exact ⟨mem_map_of_mem (mem_filter.mp hb).1, hid⟩
      · rintro ⟨hn, hid⟩
        obtain ⟨b, hb, rfl⟩ := mem_map.mp hn
        have hba : b = a := eq_of_key h.valid.archivedMessages hb ha hid
        refine ⟨.inr ⟨?_, ?_⟩, hid⟩
        · rw [hba]
          exact mem_map_of_mem (mem_filter.mpr ⟨ha, decide_eq_true rfl⟩)
        · intro d hd hdb
          exact hdeleted (mem_map.mpr ⟨d, hd, hdb.trans hid⟩)
    obtain ⟨hu, hr, hs, hl⟩ := h.sound.and h.valid.refers
    exact ⟨hmessage, hrows _ hu, hrows _ hr, hrows _ hs, hrows _ hl⟩

end GrowTeam.Retention
