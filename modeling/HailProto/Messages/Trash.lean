import HailProto.Codec.Base64Url
import HailProto.Codec.Text
import HailProto.Core.References
import HailProto.Messages.Atomicity

/-!
# The trash of an account

`message-trash.ts` on the tables of delivered messages, of their bodies and of attachments. A
body is kept once for all messages of one sender to one recipient that carry it, and an attachment
once for the whole provider, so a message is deleted together with its body only when no other
message has it. Every call is one transaction under the lock of its account, except for
`purgeExpired`: it commits each account for itself and collects what nothing refers to afterwards.
-/

namespace HailProto.Messages

open Server
open Codec (didPattern encodeBase64Url uuidV7Pattern)

/-- `BodyReference`: the body of a deleted message. -/
structure BodyReference where
  senderDid : Did
  bodyDigest : Bytes
  mediaType : String
  profile : BodyProfile

/-- The body's key for its recipient. -/
def BodyReference.key (did : Did) (row : BodyReference) : ProvenanceKey :=
  ⟨did, row.senderDid, row.bodyDigest, row.mediaType, row.profile⟩

/-- What a deletion of the message returns. -/
def DeliveredMessage.reference (key : MessageKey) (m : DeliveredMessage) : BodyReference :=
  ⟨key.1, m.bodyDigest, m.mediaType, m.profile⟩

/-- The key under which the recipient keeps the body of the message. -/
def DeliveredMessage.body (key : MessageKey) (m : DeliveredMessage) : ProvenanceKey :=
  ⟨m.recipientDid, key.1, m.bodyDigest, m.mediaType, m.profile⟩

/-- The kinds of a sent item. -/
inductive SentKind
  | category
  | connections
  | message
  deriving DecidableEq

/-- A row of `account_sent_dispositions`. -/
structure SentDisposition where
  trashedAt : Nat
  deleted : Bool

/-- A row of `account_message_drafts`, with the digests that the attachments of its content
name. -/
structure KeptDraft where
  trashedAt : Option Nat
  attachments : List (Option String)

/-- The tables that the trash reads and writes. -/
structure Mailbox where
  store : Store
  /-- The column `trashed_at` of `delivered_messages`, where it is not null. -/
  trashedAt : Table MessageKey Nat
  /-- The column `trash_enabled` of `account_message_preferences`. -/
  trashEnabled : Table Uuid Bool
  drafts : Table (Uuid × Uuid) KeptDraft
  sentDispositions : Table (Uuid × SentKind × Uuid) SentDisposition
  /-- `attachment_uploads` with `created_at`, by account and digest. -/
  uploads : Table (Uuid × Bytes) Nat
  /-- `body_attachment_refs`: the account, the digest of its outgoing body and the attachment. -/
  bodyRefs : Table (Uuid × Bytes × Bytes) Unit

instance : EmptyCollection Mailbox := ⟨⟨∅, ∅, ∅, ∅, ∅, ∅, ∅⟩⟩

/-- `interval '30 days'`. -/
def thirtyDays : Nat := 30 * 86400 * second

/-- `interval '24 hours'`. -/
def oneDay : Nat := 86400 * second

namespace Ambient

variable (ambient : Ambient)

/-- `hail_assert_unfenced_account`, which refuses a closed account first. -/
def guardAccount (accountId : Uuid) : Except Fault Unit :=
  if (ambient.accounts.find accountId).any Account.closed then
    .error ⟨some "55000", "Account is closed"⟩
  else ambient.assertUnfencedAccount accountId

/-- `hail_assert_unfenced_did`. -/
def guardDid (did : Did) : Except Fault Unit :=
  match ambient.accountByDid did with
  | none => .ok ()
  | some (accountId, _) => ambient.guardAccount accountId

/-- `lock`: the account of the session is active and may be written. The triggers of the tables
that the call writes ask the same again under this lock. -/
def lockTrash (session : Owner) : Except Fault Unit :=
  if (ambient.accounts.find session.accountId).any fun account =>
      account.did = some session.did && account.active then
    ambient.guardAccount session.accountId
  else .error (.error "Account is unavailable")

end Ambient

namespace Store

variable (s : Store)

/-- Delete the row of a body that no delivered message has, and with it the references to its
attachments. -/
def releaseBody (body : ProvenanceKey) : Store :=
  if s.delivered.unreferenced DeliveredMessage.body body then
    { s with
      provenance := s.provenance.deleteWhere fun key _ => decide (key = body)
      attachmentRefs := s.attachmentRefs.deleteWhere fun key _ => decide (key.1 = body) }
  else s

/-- `cleanBodies`. -/
def cleanBodies (did : Did) (removed : List BodyReference) : Store :=
  removed.foldl (fun s row => s.releaseBody (row.key did)) s

/-- A pass of the loop in `hail_collect_received_blobs`, which asks again under the row lock. -/
def collectReceivedBlob (candidate : Bytes) : Store :=
  if s.provenance.unreferenced (fun key _ => key.digest) candidate then
    { s with blobs := s.blobs.deleteWhere fun digest _ => decide (digest = candidate) }
  else s

/-- `hail_collect_received_blobs`; blobs that another transaction locks are skipped. -/
def collectReceivedBlobs (batchSize : Nat) (locked : List Bytes) : Store :=
  let free := s.blobs.rows.filter fun (digest, _) =>
    s.provenance.unreferenced (fun key _ => key.digest) digest && !locked.contains digest
  let candidates := ((free.map Prod.fst).insertionSort (· ≤ ·)).take batchSize
  candidates.foldl (·.collectReceivedBlob ·) s

end Store

/-- What a removal of a message answers. -/
inductive RemovalState
  | deleted
  | trashed
  deriving DecidableEq

/-- An object among the items of a request to restore: its keys, and the texts under two of
them. -/
structure RestoreItem where
  keys : List String
  sender : Option String
  messageId : Option String

/-- The message that a well-formed item names. -/
def RestoreItem.message (item : RestoreItem) : Option MessageKey :=
  match item.sender, item.messageId with
  | some sender, some messageId =>
    if item.keys.all (fun key => key == "sender" || key == "messageId") && didPattern sender &&
        uuidV7Pattern messageId then some (sender, messageId)
    else none
  | _, _ => none

/-- The messages of a request to restore: an array of 1 to 100 well-formed items. -/
def restoreMessages (items : Option (List (Option RestoreItem))) : Option (List MessageKey) := do
  let items ← items
  if items.length < 1 ∨ 100 < items.length then none
  else items.mapM fun item => item.bind RestoreItem.message

/-- The readings of `clock_timestamp()` in statements that read it for each row. -/
structure Readings where
  messages : MessageKey → Nat
  drafts : Uuid × Uuid → Nat
  uploads : Uuid × Bytes → Nat

/-- An account that `purgeExpired` visits. -/
structure Purge where
  accountId : Uuid
  did : Did
  generation : Nat

/-- What the transaction of one account in `purgeExpired` meets. -/
structure PurgeContext where
  ambient : Ambient
  /-- What `hail_check_generation_snapshot` raises for the generations admitted so far. -/
  stale : Option Fault
  readings : Readings

namespace Mailbox

variable (s : Mailbox) (ambient : Ambient) (session : Owner)

/-- The message is in the trash. -/
def isTrashed (key : MessageKey) : Bool := (s.trashedAt.find key).isSome

/-- `DELETE FROM delivered_messages`, with the bodies of the deleted rows. -/
def deleteMessages (condition : MessageKey → DeliveredMessage → Bool) :
    List BodyReference × Mailbox :=
  ((s.store.delivered.rows.filter fun (key, m) => condition key m).map fun (key, m) =>
      m.reference key,
    { s with
      store := { s.store with delivered := s.store.delivered.deleteWhere condition }
      trashedAt := s.trashedAt.deleteWhere fun key _ =>
        (s.store.delivered.find key).any (condition key) })

/-- `cleanBodies`. -/
def cleanBodies (did : Did) (removed : List BodyReference) : Mailbox :=
  { s with store := s.store.cleanBodies did removed }

/-- `DELETE FROM account_message_drafts`, with the number of deleted rows. -/
def deleteDrafts (condition : Uuid × Uuid → KeptDraft → Bool) : Nat × Mailbox :=
  ((s.drafts.rows.filter fun (key, draft) => condition key draft).length,
    { s with drafts := s.drafts.deleteWhere condition })

/-- Mark the account's sent items in the trash as deleted, with their number. -/
def deleteSent (accountId : Uuid) : Nat × Mailbox :=
  ((s.sentDispositions.rows.filter fun (key, row) => key.1 = accountId && !row.deleted).length,
    { s with
      sentDispositions := s.sentDispositions.mapRows fun key row =>
        if key.1 = accountId then { row with deleted := true } else row })

/-- `saveSettings`; the input is absent when it is not a boolean. -/
def saveSettings (input : Option Bool) : Except Fault (Bool × Mailbox) :=
  match input with
  | none => .error (.error "Invalid Trash preference")
  | some enabled => do
      ambient.lockTrash session
      let s := { s with trashEnabled := s.trashEnabled.insert session.accountId enabled }
      if enabled then .ok (enabled, s)
      else
        let (_, s) := s.deleteDrafts fun key draft =>
          key.1 = session.accountId && draft.trashedAt.isSome
        let (_, s) := s.deleteSent session.accountId
        let (removed, s) := s.deleteMessages fun key m =>
          m.recipientDid = session.did && s.isTrashed key
        .ok (enabled, s.cleanBodies session.did removed)

/-- `remove`. -/
def remove (sender messageId : String) (permanent : Bool) :
    Except Fault ((String × RemovalState) × Mailbox) :=
  if !didPattern sender ∨ !uuidV7Pattern messageId then .error (.error "Invalid message identity")
  else do
    ambient.lockTrash session
    let key : MessageKey := (sender, messageId)
    if permanent ∨ s.trashEnabled.find session.accountId = some false then
      let (removed, s) := s.deleteMessages fun other m =>
        m.recipientDid = session.did && other = key
      .ok ((messageId, .deleted), s.cleanBodies session.did removed)
    else
      match s.store.delivered.find key with
      | some m =>
        if m.recipientDid = session.did then
          -- Retrying deletion never extends the original retention period.
          .ok ((messageId, .trashed),
            { s with trashedAt := s.trashedAt.insertNew key (ambient.clock 0) })
        else .ok ((messageId, .deleted), s)
      | none => .ok ((messageId, .deleted), s)

/-- The update of `restore` for one message, with the number of restored rows. -/
def restoreMessage (did : Did) (now : Nat) (key : MessageKey) : Nat × Mailbox :=
  match s.store.delivered.find key, s.trashedAt.find key with
  | some m, some instant =>
    if m.recipientDid = did ∧ now < instant + thirtyDays then
      (1, { s with trashedAt := s.trashedAt.deleteWhere fun other _ => decide (other = key) })
    else (0, s)
  | _, _ => (0, s)

/-- The loop of `restore`: the clock is read again for each message. -/
def restoreAll (did : Did) (clock : Nat → Nat) (s : Mailbox) (restored index : Nat) :
    List MessageKey → Nat × Mailbox
  | [] => (restored, s)
  | key :: rest =>
    let (rows, s) := s.restoreMessage did (clock index) key
    restoreAll did clock s (restored + rows) (index + 1) rest

/-- `restore`. -/
def restore (items : Option (List (Option RestoreItem))) : Except Fault (Nat × Mailbox) :=
  match restoreMessages items with
  | none => .error (.error "Choose 1 to 100 messages to restore")
  | some keys => do
      ambient.lockTrash session
      .ok (restoreAll session.did ambient.clock s 0 0 keys)

/-- `empty`, with the number of deleted items. -/
def empty : Except Fault (Nat × Mailbox) := do
  ambient.lockTrash session
  let (removed, s) := s.deleteMessages fun key m =>
    m.recipientDid = session.did && s.isTrashed key
  let s := s.cleanBodies session.did removed
  let (sent, s) := s.deleteSent session.accountId
  let (drafts, s) := s.deleteDrafts fun key draft =>
    key.1 = session.accountId && draft.trashedAt.isSome
  .ok (removed.length + sent + drafts, s)

/-- The trashed messages of a recipient that are past their retention, with `trashed_at`. -/
def expiredMessages (did : Did) (clock : MessageKey → Nat) : List (MessageKey × Nat) :=
  s.trashedAt.rows.filter fun (key, instant) =>
    (s.store.delivered.find key).any (·.recipientDid = did) &&
      decide (instant + thirtyDays ≤ clock key)

/-- A draft of the account that is past its retention. -/
def draftExpired (accountId : Uuid) (clock : Uuid × Uuid → Nat) (key : Uuid × Uuid)
    (draft : KeptDraft) : Bool :=
  key.1 = accountId && draft.trashedAt.any fun instant => instant + thirtyDays ≤ clock key

/-- An upload of the account that is a day old and that none of its drafts names. -/
def uploadStale (accountId : Uuid) (clock : Uuid × Bytes → Nat) (key : Uuid × Bytes)
    (createdAt : Nat) : Bool :=
  key.1 = accountId && decide (createdAt + oneDay < clock key) &&
    !s.drafts.rows.any fun (other, draft) => other.1 = key.1 &&
      draft.attachments.contains (some (String.ofList (encodeBase64Url key.2)))

/-- The accounts that `purgeExpired` visits. -/
def expiredAccounts (readings : Readings) : List Purge :=
  let purges := ambient.accounts.rows.filterMap fun (accountId, account) =>
    match account.did, ambient.generations.find accountId with
    | some did, some generation =>
      if account.active && !ambient.isFenced accountId &&
          (!(s.expiredMessages did readings.messages).isEmpty ||
            s.drafts.rows.any (fun (key, draft) =>
              draftExpired accountId readings.drafts key draft) ||
            s.uploads.rows.any fun (key, createdAt) =>
              s.uploadStale accountId readings.uploads key createdAt) then
        some ⟨accountId, did, generation⟩
      else none
    | _, _ => none
  (purges.insertionSort fun a b => a.accountId ≤ b.accountId).take 100

/-- The transaction of `purgeExpired` for one account, with the number of deleted items. -/
def purgeAccount (context : PurgeContext) (purge : Purge) : Except Fault (Nat × Mailbox) := do
  Grants.raise context.stale
  if context.ambient.isFenced purge.accountId then .ok (0, s)
  else
    let due := ((s.expiredMessages purge.did context.readings.messages).insertionSort
      fun a b => a.2 ≤ b.2).take 500
    let (rows, s) := s.deleteMessages fun key _ => (due.map Prod.fst).contains key
    checkWhen (!rows.isEmpty) (context.ambient.guardDid purge.did)
    let (drafts, s) := s.deleteDrafts (draftExpired purge.accountId context.readings.drafts)
    checkWhen (drafts ≠ 0) (context.ambient.guardAccount purge.accountId)
    let stale := s.uploadStale purge.accountId context.readings.uploads
    checkWhen (s.uploads.rows.any fun (key, createdAt) => stale key createdAt)
      (context.ambient.guardAccount purge.accountId)
    let s := { s with uploads := s.uploads.deleteWhere stale }
    .ok (rows.length + drafts, s.cleanBodies purge.did rows)

/-- No upload, outgoing body or received message refers to the attachment. -/
def attachmentFree (digest : Bytes) : Bool :=
  s.uploads.unreferenced (fun key _ => key.2) digest &&
    s.bodyRefs.unreferenced (fun key _ => key.2.2) digest &&
    s.store.attachmentRefs.unreferenced (fun key _ => key.2) digest

/-- The last statement of `purgeExpired`; blobs that another transaction locks are skipped. -/
def collectAttachments (locked : List Bytes) : Mailbox :=
  let digests := ((s.store.attachmentBlobs.rows.map Prod.fst).filter fun digest =>
    s.attachmentFree digest && !locked.contains digest).take 500
  { s with
    store := { s.store with
      attachmentBlobs := s.store.attachmentBlobs.deleteWhere fun digest _ =>
        digests.contains digest && s.attachmentFree digest } }

/-- Visit the accounts in order. What an earlier account committed stays when a later one
raises. -/
def purgeAccounts (context : Uuid → PurgeContext) (s : Mailbox) (deleted : Nat) :
    List Purge → Except Fault Nat × Mailbox
  | [] => (.ok deleted, s)
  | purge :: rest =>
    match s.purgeAccount (context purge.accountId) purge with
    | .error fault => (.error fault, s)
    | .ok (rows, s) => purgeAccounts context s (deleted + rows) rest

/-- `purgeExpired`: what it answers, and what it has committed. -/
def purgeExpired (readings : Readings) (context : Uuid → PurgeContext)
    (lockedBodies lockedFiles : List Bytes) : Except Fault Nat × Mailbox :=
  match purgeAccounts context s 0 (s.expiredAccounts ambient readings) with
  | (.error fault, s) => (.error fault, s)
  | (.ok deleted, s) =>
    let s := { s with store := s.store.collectReceivedBlobs 500 lockedBodies }
    (.ok deleted, s.collectAttachments lockedFiles)

end Mailbox

end HailProto.Messages
