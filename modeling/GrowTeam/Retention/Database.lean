/-
# Deleted messages (`zerver/lib/retention.py`)

A message that is deleted moves to an archive, with its user rows, reactions, submessages and
attachment links, in one transaction for each chunk of messages.  Restoring a transaction copies
the rows back; the archive keeps them until the transaction is vacuumed.  When a message is
archived again, a row that the archive has already is not copied: `ON CONFLICT (id)` changes the
transaction of the message, and nothing else.

Each step is a database transaction, which is rolled back if a constraint is broken.
-/
import GrowTeam.History
import GrowTeam.Depot
import Mathlib.Data.Int.Notation

namespace GrowTeam.Retention

open Depot

/-! ## Rows -/

/-- The columns of a message. -/
structure MessageData where
  sender_id : ℕ
  recipient_id : ℕ
  realm_id : ℕ
  type : ℕ
  subject : String
  content : String
  rendered_content : Option String
  rendered_content_version : Option ℕ
  date_sent : ℤ
  sending_client_id : ℕ
  last_edit_time : Option ℤ
  edit_history : Option String
  has_attachment : Bool
  has_image : Bool
  has_link : Bool
  is_channel_message : Bool

structure Message where
  id : ℕ
  data : MessageData

structure ArchivedMessage where
  message : Message
  archive_transaction_id : ℕ

structure UserMessageData where
  user_profile_id : ℕ
  /-- The flags, one bit each. -/
  flags : ℕ

structure ReactionData where
  user_profile_id : ℕ
  emoji_name : String
  emoji_code : String
  reaction_type : String

structure SubMessageData where
  sender_id : ℕ
  msg_type : String
  content : String

/-- A row of `attachment_messages`. -/
structure LinkData where
  attachment_id : ℕ

instance uniqueUserMessage : UniqueTogether UserMessageData where
  same a b := a.user_profile_id = b.user_profile_id

instance uniqueReaction : UniqueTogether ReactionData where
  same a b := a.user_profile_id = b.user_profile_id && a.reaction_type = b.reaction_type &&
    a.emoji_code = b.emoji_code

instance uniqueSubMessage : UniqueTogether SubMessageData where
  same _ _ := false

instance uniqueLink : UniqueTogether LinkData where
  same a b := a.attachment_id = b.attachment_id

structure AttachmentData where
  file_name : String
  owner_id : ℕ
  realm_id : ℕ
  create_time : ℤ
  size : ℕ
  content_type : Option String
  is_realm_public : Option Bool
  is_web_public : Option Bool

structure Attachment where
  id : ℕ
  path_id : String
  data : AttachmentData

inductive ArchiveType
  | retentionPolicyBased
  | manual

structure ArchiveTransaction where
  id : ℕ
  timestamp : ℤ
  restored : Bool
  restored_timestamp : Option ℤ
  protect_from_deletion : Bool
  type : ArchiveType
  realm_id : ℕ

/-- The tables with a foreign key to a message. -/
structure Related where
  userMessages : Depot UserMessageData
  reactions : Depot ReactionData
  submessages : Depot SubMessageData
  attachmentMessages : Depot LinkData

/-- The same for each table. -/
def Related.map (f : {α : Type} → Depot α → Depot α) (r : Related) : Related :=
  ⟨f r.userMessages, f r.reactions, f r.submessages, f r.attachmentMessages⟩

/-- A fact about each table. -/
def Related.Each (P : {α : Type} → [UniqueTogether α] → Depot α → Prop) (r : Related) : Prop :=
  P r.userMessages ∧ P r.reactions ∧ P r.submessages ∧ P r.attachmentMessages

theorem Related.Each.map {P Q : {α : Type} → [UniqueTogether α] → Depot α → Prop}
    {f : {α : Type} → Depot α → Depot α} {r : Related} (h : r.Each P)
    (hf : ∀ {α : Type} [UniqueTogether α] (s : Depot α), P s → Q (f s)) : (r.map f).Each Q :=
  ⟨hf _ h.1, hf _ h.2.1, hf _ h.2.2.1, hf _ h.2.2.2⟩

theorem Related.Each.and {P Q : {α : Type} → [UniqueTogether α] → Depot α → Prop} {r : Related}
    (hp : r.Each P) (hq : r.Each Q) : r.Each fun s => P s ∧ Q s :=
  ⟨⟨hp.1, hq.1⟩, ⟨hp.2.1, hq.2.1⟩, ⟨hp.2.2.1, hq.2.2.1⟩, ⟨hp.2.2.2, hq.2.2.2⟩⟩

structure Database where
  messages : List Message
  archivedMessages : List ArchivedMessage
  nextMessage : ℕ
  related : Related
  attachments : List Attachment
  archivedAttachments : List Attachment
  nextAttachment : ℕ
  transactions : List ArchiveTransaction
  nextTransaction : ℕ

variable (db : Database)

def Database.messageIds : List ℕ := db.messages.map Message.id

def Database.archivedIds : List ℕ := db.archivedMessages.map (·.message.id)

/-- The constraints of the database. -/
structure Database.Valid (db : Database) : Prop where
  messages : db.messageIds.Nodup
  archivedMessages : db.archivedIds.Nodup
  constrained : db.related.Each fun s => s.Constrained
  refers : db.related.Each fun s => s.Refers db.messageIds db.archivedIds
  attachments : (db.attachments.map Attachment.id).Nodup
  archivedAttachments : (db.archivedAttachments.map Attachment.id).Nodup
  paths : (db.attachments.map Attachment.path_id).Nodup
  archivedPaths : (db.archivedAttachments.map Attachment.path_id).Nodup
  links : ∀ l ∈ db.related.attachmentMessages.live,
    l.data.attachment_id ∈ db.attachments.map Attachment.id
  archivedLinks : ∀ l ∈ db.related.attachmentMessages.archived,
    l.data.attachment_id ∈ db.archivedAttachments.map Attachment.id
  transactions : (db.transactions.map ArchiveTransaction.id).Nodup
  archivedBy : ∀ a ∈ db.archivedMessages,
    a.archive_transaction_id ∈ db.transactions.map ArchiveTransaction.id

instance decidableEach (P : {α : Type} → [UniqueTogether α] → Depot α → Prop)
    [∀ (α : Type) [UniqueTogether α] (s : Depot α), Decidable (P s)] (r : Related) :
    Decidable (r.Each P) :=
  inferInstanceAs (Decidable (_ ∧ _))

instance decidableValid (db : Database) : Decidable db.Valid :=
  decidable_of_iff
    (db.messageIds.Nodup ∧ db.archivedIds.Nodup ∧ (db.related.Each fun s => s.Constrained) ∧
      (db.related.Each fun s => s.Refers db.messageIds db.archivedIds) ∧
      (db.attachments.map Attachment.id).Nodup ∧ (db.archivedAttachments.map Attachment.id).Nodup ∧
      (db.attachments.map Attachment.path_id).Nodup ∧
      (db.archivedAttachments.map Attachment.path_id).Nodup ∧
      (∀ l ∈ db.related.attachmentMessages.live,
        l.data.attachment_id ∈ db.attachments.map Attachment.id) ∧
      (∀ l ∈ db.related.attachmentMessages.archived,
        l.data.attachment_id ∈ db.archivedAttachments.map Attachment.id) ∧
      (db.transactions.map ArchiveTransaction.id).Nodup ∧
      ∀ a ∈ db.archivedMessages,
        a.archive_transaction_id ∈ db.transactions.map ArchiveTransaction.id)
    ⟨fun ⟨h1, h2, h3, h4, h5, h6, h7, h8, h9, h10, h11, h12⟩ =>
        ⟨h1, h2, h3, h4, h5, h6, h7, h8, h9, h10, h11, h12⟩,
      fun ⟨h1, h2, h3, h4, h5, h6, h7, h8, h9, h10, h11, h12⟩ =>
        ⟨h1, h2, h3, h4, h5, h6, h7, h8, h9, h10, h11, h12⟩⟩

/-! ## Archiving -/

/-- Which messages an archiving selects. -/
inductive Query
  /-- `move_expired_messages_to_archive_by_recipient`. -/
  | byRecipient (realm_id recipient_id : ℕ) (check_date : ℤ)
  /-- `move_expired_direct_messages_to_archive`. -/
  | directMessages (realm_id : ℕ) (check_date : ℤ)
  /-- `move_messages_to_archive`, of a chunk of ids. -/
  | byId (message_ids : List ℕ)

def Query.selects (query : Query) (m : Message) : Bool :=
  match query with
  | .byRecipient realm_id recipient_id check_date =>
    m.data.realm_id = realm_id && m.data.recipient_id = recipient_id &&
      decide (m.data.date_sent < check_date)
  | .directMessages realm_id check_date =>
    m.data.realm_id = realm_id && !m.data.is_channel_message &&
      decide (m.data.date_sent < check_date)
  | .byId message_ids => message_ids.contains m.id

def Query.type : Query → ArchiveType
  | .byId _ => .manual
  | _ => .retentionPolicyBased

/-- The selected messages; with a `LIMIT`, those of them that the database picks. -/
def Database.select (query : Query) (limit : Option (ℕ × List ℕ)) : List Message :=
  let found := db.messages.filter query.selects
  match limit with
  | none => found
  | some (chunk_size, picked) => (found.filter fun m => picked.contains m.id).take chunk_size

variable (archive_transaction_id : ℕ)

/-- `INSERT … ON CONFLICT (id) DO UPDATE SET archive_transaction_id`. -/
def Database.moveMessages (chunk : List Message) : List ArchivedMessage :=
  (db.archivedMessages.map fun a =>
    if (chunk.map Message.id).contains a.message.id then
      { a with archive_transaction_id := archive_transaction_id }
    else a) ++
  (chunk.filter fun m => !db.archivedIds.contains m.id).map fun m => ⟨m, archive_transaction_id⟩

/-- The attachments of some messages. -/
def Database.attachmentsOf (msg_ids : List ℕ) : List Attachment :=
  db.attachments.filter fun a => db.related.attachmentMessages.live.any fun l =>
    msg_ids.contains l.owner && l.data.attachment_id = a.id

/-- A chunk of messages moves to the archive with all that belongs to it, and is deleted. -/
def Database.archiveChunk (query : Query) (realm_id : ℕ) (now : ℤ)
    (chunk : List Message) : Database :=
  let archive_transaction : ArchiveTransaction :=
    ⟨db.nextTransaction, now, false, none, false, query.type, realm_id⟩
  let msg_ids := chunk.map Message.id
  { db with
    transactions := db.transactions ++ [archive_transaction]
    nextTransaction := db.nextTransaction + 1
    archivedMessages := db.moveMessages archive_transaction.id chunk
    archivedAttachments :=
      insertNew Attachment.id db.archivedAttachments (db.attachmentsOf msg_ids)
    related := db.related.map fun s => (s.putAway msg_ids).remove msg_ids
    messages := db.messages.filter fun m => !msg_ids.contains m.id }

/-! ## Restoring -/

/-- The messages that are recorded in a transaction. -/
def Database.recorded : List Message :=
  (db.archivedMessages.filter fun a => a.archive_transaction_id = archive_transaction_id).map
    ArchivedMessage.message

/-- The archived attachments of some messages. -/
def Database.archivedAttachmentsOf (msg_ids : List ℕ) : List Attachment :=
  db.archivedAttachments.filter fun a => db.related.attachmentMessages.archived.any fun l =>
    msg_ids.contains l.owner && l.data.attachment_id = a.id

/-- `restore_data_from_archive`. -/
def Database.restoreData (now : ℤ) : Database :=
  let msg_ids := (db.recorded archive_transaction_id).map Message.id
  { db with
    messages := insertNew Message.id db.messages (db.recorded archive_transaction_id)
    related := db.related.map fun s => s.takeOut msg_ids
    attachments := insertNew Attachment.id db.attachments (db.archivedAttachmentsOf msg_ids)
    transactions := db.transactions.map fun t =>
      if t.id = archive_transaction_id then
        { t with restored := true, restored_timestamp := some now }
      else t }

/-- The messages that the restoring transaction inserts. -/
def Database.restoredIds : List ℕ :=
  ((db.recorded archive_transaction_id).map Message.id).filter fun id => !db.messageIds.contains id

/-! ## Vacuuming -/

/-- A block of `clean_archived_data`: old transactions that are not protected go, and with them
all that was archived but the attachments. -/
def Database.vacuum (check_date : ℤ) (transaction_block : List ℕ) : Database :=
  let doomed := (db.transactions.filter fun t =>
    transaction_block.contains t.id && decide (t.timestamp < check_date) &&
      !t.protect_from_deletion).map ArchiveTransaction.id
  let msg_ids := (db.archivedMessages.filter fun a =>
    doomed.contains a.archive_transaction_id).map (·.message.id)
  { db with
    transactions := db.transactions.filter fun t => !doomed.contains t.id
    archivedMessages := db.archivedMessages.filter fun a =>
      !doomed.contains a.archive_transaction_id
    related := db.related.map fun s => s.lose msg_ids }

/-! ## Steps -/

inductive Input
  | send (data : MessageData) (rows : List UserMessageData)
  | edit (message_id : ℕ) (data : MessageData)
  | userMessage (c : Change UserMessageData)
  | reaction (c : Change ReactionData)
  | submessage (c : Change SubMessageData)
  | link (c : Change LinkData)
  | upload (path_id : String) (data : AttachmentData)
  | updateAttachment (id : ℕ) (data : AttachmentData)
  | deleteAttachment (id : ℕ)
  /-- One chunk of an archiving; `limit` is the chunk size and what the database picks. -/
  | archive (query : Query) (realm_id : ℕ) (limit : Option (ℕ × List ℕ)) (now : ℤ)
  /-- The attachments that no message and none of the scheduled ones claims any more. -/
  | cleanAttachments (candidates scheduled : List ℕ)
  | restore (archive_transaction_id : ℕ) (now : ℤ)
  | protect (archive_transaction_id : ℕ) (protect_from_deletion : Bool)
  | vacuum (check_date : ℤ) (transaction_block : List ℕ)

inductive Answer
  | done
  | archived (msg_ids : List ℕ)
  | restored (msg_ids : List ℕ)
  | doesNotExist
  | integrityError

/-- The end of a transaction. -/
def Database.commit (answer : Answer) (db' : Database) : Answer × Database :=
  if db'.Valid then (answer, db') else (.integrityError, db)

/-- The rows of a new message. -/
def insertAll {α : Type} (owner : ℕ) (rows : List α) (s : Depot α) : Depot α :=
  rows.foldl (fun s data => s.change (.insert owner data)) s

def step : Input → Database → Answer × Database
  | .send data rows, db =>
    db.commit .done
      { db with
        messages := db.messages ++ [⟨db.nextMessage, data⟩]
        nextMessage := db.nextMessage + 1
        related := { db.related with
          userMessages := insertAll db.nextMessage rows db.related.userMessages } }
  | .edit message_id data, db =>
    db.commit .done
      { db with
        messages := db.messages.map fun m =>
          if m.id = message_id then { m with data := data } else m }
  | .userMessage c, db =>
    db.commit .done
      { db with
        related := { db.related with userMessages := db.related.userMessages.change c } }
  | .reaction c, db =>
    db.commit .done
      { db with related := { db.related with reactions := db.related.reactions.change c } }
  | .submessage c, db =>
    db.commit .done
      { db with related := { db.related with submessages := db.related.submessages.change c } }
  | .link c, db =>
    db.commit .done
      { db with
        related := { db.related with attachmentMessages := db.related.attachmentMessages.change c } }
  | .upload path_id data, db =>
    -- a path is random, and so none that was used before
    if path_id ∈ (db.attachments ++ db.archivedAttachments).map Attachment.path_id then
      (.integrityError, db)
    else
      db.commit .done
        { db with
          attachments := db.attachments ++ [⟨db.nextAttachment, path_id, data⟩]
          nextAttachment := db.nextAttachment + 1 }
  | .updateAttachment id data, db =>
    db.commit .done
      { db with
        attachments := db.attachments.map fun a => if a.id = id then { a with data := data } else a }
  | .deleteAttachment id, db =>
    db.commit .done
      { db with
        attachments := db.attachments.filter fun a => a.id ≠ id
        related := { db.related with
          attachmentMessages := { db.related.attachmentMessages with
            live := db.related.attachmentMessages.live.filter fun l =>
              l.data.attachment_id ≠ id } } }
  | .archive query realm_id limit now, db =>
    match db.select query limit with
    | [] => (.archived [], db)
    | chunk =>
      db.commit (.archived (chunk.map Message.id)) (db.archiveChunk query realm_id now chunk)
  | .cleanAttachments candidates scheduled, db =>
    db.commit .done
      { db with
        attachments := db.attachments.filter fun a =>
          !(candidates.contains a.id && (db.archivedAttachments.map Attachment.id).contains a.id &&
            !scheduled.contains a.id &&
            db.related.attachmentMessages.live.all fun l => l.data.attachment_id ≠ a.id) }
  | .restore archive_transaction_id now, db =>
    if archive_transaction_id ∈ db.transactions.map ArchiveTransaction.id then
      db.commit (.restored (db.restoredIds archive_transaction_id))
        (db.restoreData archive_transaction_id now)
    else (.doesNotExist, db)
  | .protect archive_transaction_id protect_from_deletion, db =>
    db.commit .done
      { db with
        transactions := db.transactions.map fun t =>
          if t.id = archive_transaction_id then
            { t with protect_from_deletion := protect_from_deletion }
          else t }
  | .vacuum check_date transaction_block, db =>
    db.commit .done (db.vacuum check_date transaction_block)

/-- A database without rows. -/
def empty : Database := ⟨[], [], 0, ⟨.empty, .empty, .empty, .empty⟩, [], [], 0, [], 0⟩

end GrowTeam.Retention
