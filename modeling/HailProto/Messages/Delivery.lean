import HailProto.Messages.Store

/-!
# The delivery repository

The transactions of `delivery/repository.ts` on the work that acceptance creates. A worker
claims due work under a fresh lease token, acts outside the database, and comes back with its
claim; every later transaction first finds the row that still carries the claim's token. The
triggers of `0013_migration_fence.sql` and `0037_generation_admission.sql` on the written rows
only ever raise.
-/

namespace HailProto.Messages

open Server

structure DeliveryClaim where
  senderDid : Did
  messageId : Uuid
  leaseToken : Uuid
  attemptCount : Nat
  envelope : HailEnvelope
  deriving DecidableEq

def DeliveryClaim.key (claim : DeliveryClaim) : MessageKey := (claim.senderDid, claim.messageId)

inductive DeliverOutcome
  | delivered
  | expired
  | lostLease
  | unauthorized
  deriving DecidableEq

/-- The error of `finish` for a claim that does not own its reply capability. -/
def notOwner : Fault := .error "Delivery claim does not own the reply capability"

/-- The state in which the end of a reply leaves its capability. -/
def TerminalState.capabilityState (state : TerminalState) (key : MessageKey) : CapabilityState :=
  if state = .delivered then .consumed key else .available

/-- The greatest body, in bytes. -/
def bodyMaxBytes : Nat := 1048576

variable (platform : Platform)

/-- Check bytes as a body of the expected profile and read its attachments. -/
def validateBodyBytes (bytes : Bytes) (expected : BodyProfile) : Except Fault (List Attachment) :=
  if bytes.length < 1 ∨ bodyMaxBytes < bytes.length then
    .error (.error "Body exceeds the 1 MiB limit")
  else
    match platform.decodeBody bytes with
    | none => .error (.error "Body bytes are not deterministic CBOR")
    | some document =>
      if document.profile ≠ expected then
        .error (.error "Body profile does not match its envelope")
      else .ok document.attachments

/-- Check an attachment against its description in the body. -/
def validateAttachmentBytes (file : Attachment) (bytes : Bytes) : Except Fault Unit :=
  if bytes.length ≠ file.size ∨ platform.sha256 bytes ≠ file.digest then
    .error (.error "Attachment integrity failure")
  else if !platform.attachmentShape file.mediaType bytes then
    .error (.error "Invalid attachment")
  else .ok ()

/-- Check each attachment of a body in order. -/
def validateAttachments : List (Attachment × Bytes) → Except Fault Unit
  | [] => .ok ()
  | (file, bytes) :: rest => do
      validateAttachmentBytes platform file bytes
      validateAttachments rest

/-- The checks of `deliver` before its transaction. -/
def checkBody (envelope : HailEnvelope) (bytes : Bytes) (attachments : List Bytes) :
    Except Fault (List (Attachment × Bytes)) := do
  if bytes.length ≠ envelope.body.size ∨ platform.sha256 bytes ≠ envelope.body.digest then
    .error (.error "Body does not match the accepted envelope")
  else
    let files ← validateBodyBytes platform bytes envelope.body.profile
    if files.length ≠ attachments.length then .error (.error "Required attachments missing")
    else
      validateAttachments platform (files.zip attachments)
      .ok (files.zip attachments)

namespace Store

variable (s : Store) (ambient : Ambient)

/-- The lease is running at the start of the transaction. -/
def leaseRunning (work : DeliveryWork) (now : Nat) : Bool :=
  !work.state.isTerminal && work.lease.any (now < ·.expiresAt)

/-- The `WHERE` clause of `claimDue`. -/
def claimable (key : MessageKey) (work : DeliveryWork) (row : ReceivedEnvelope) : Bool :=
  let now := ambient.start
  let running := s.work.rows.filter fun (_, w) => leaseRunning w now
  !work.state.isTerminal && decide (work.nextAttemptAt ≤ now) &&
    work.lease.all (·.expiresAt ≤ now) && (ambient.fences.find row.recipientDid).isNone &&
    !running.any (fun (k, _) => k.1 = key.1) &&
    decide ((running.filter fun (k, _) =>
      (s.received.find k).any (·.recipientDid = row.recipientDid)).length < 2)

/-- A claimable row with what it is ordered by. -/
structure Due where
  key : MessageKey
  work : DeliveryWork
  row : ReceivedEnvelope
  recipientAttempt : Option Nat
  senderAttempt : Option Nat

/-- The joined rows that `claimDue` selects from; rows another transaction locks are skipped. -/
def due (locked : List MessageKey) : List Due :=
  s.work.rows.filterMap fun (key, work) =>
    match s.received.find key with
    | none => none
    | some row =>
      if s.claimable ambient key work row ∧ key ∉ locked then
        some ⟨key, work, row, s.scheduling.find (.recipient, row.recipientDid),
          s.scheduling.find (.sender, key.1)⟩
      else none

/-- `ASC NULLS FIRST`. -/
def nullsFirst (a b : Option Nat) : Ordering :=
  match a, b with
  | none, none => .eq
  | none, some _ => .lt
  | some _, none => .gt
  | some a, some b => compare a b

/-- The `ORDER BY` clause of `claimDue`. -/
def Due.before (a b : Due) : Bool :=
  (nullsFirst a.recipientAttempt b.recipientAttempt).then
    ((nullsFirst a.senderAttempt b.senderAttempt).then
      ((compare a.work.nextAttemptAt b.work.nextAttemptAt).then
        (compare a.key.2 b.key.2))) ≠ .gt

/-- The trigger `hail_worker_lease` on a change of the lease token. -/
def bindWorkerLease (key : MessageKey) (old new : Option Uuid) :
    Except Fault (Table Uuid (Uuid × Nat)) :=
  match s.received.find key with
  | none => .ok s.workerLeases
  | some row => do
      let owner := row.localAccountId
      ambient.assertUnfencedAccount owner
      match ambient.generations.find owner with
      | none => .error ⟨some "55000", "Worker lease belongs to another serving generation"⟩
      | some serving =>
        if old.any (fun token => s.workerLeases.find token ≠ some (owner, serving)) then
          .error ⟨some "55000", "Worker lease belongs to another serving generation"⟩
        else if old = new then .ok s.workerLeases
        else
          let kept := s.workerLeases.deleteWhere fun token _ => decide (some token = old)
          match new with
          | none => .ok kept
          | some token =>
            if (kept.find token).isSome then
              .error (.uniqueViolation "serving_worker_leases_pkey")
            else .ok (kept.insert token (owner, serving))

/-- `UPDATE delivery_work` on one row, with its triggers. -/
def updateWork (key : MessageKey) (work next : DeliveryWork) : Except Fault Store := do
  let leases ← s.bindWorkerLease ambient key (work.lease.map Lease.token)
    (next.lease.map Lease.token)
  .ok { s with
    workerLeases := leases
    work := s.work.insert key next }

/-- Claim the first due work under a fresh token. -/
def claimDue (leaseToken : Uuid) (leaseSeconds : Nat) (locked : List MessageKey) :
    Except Fault (Option DeliveryClaim × Store) := do
  match ((s.due ambient locked).insertionSort fun a b => a.before b).head? with
  | none => .ok (none, s)
  | some due =>
    match platform.inspectEnvelope due.row.envelopeCose with
    | none => .error (.error "Signed payload is invalid")
    | some envelope =>
      if envelope.key ≠ due.key then
        .error (.error "Persisted envelope does not match delivery work")
      else
        let lease : Lease := ⟨leaseToken, ambient.start + leaseSeconds * second⟩
        let s ← s.updateWork ambient due.key due.work
          { due.work with
            lease := some lease
            attemptCount := due.work.attemptCount + 1 }
        let scheduling := (s.scheduling.insert (.sender, due.key.1) (ambient.clock 0)).insert
          (.recipient, due.row.recipientDid) (ambient.clock 0)
        .ok (some ⟨due.key.1, due.key.2, leaseToken, due.work.attemptCount + 1, envelope⟩,
          { s with scheduling := scheduling })

/-- The row that still carries the claim's token. -/
def lockClaim (claim : DeliveryClaim) : Option DeliveryWork :=
  (s.work.find claim.key).filter fun work =>
    work.lease.any (·.token = claim.leaseToken) && !work.state.isTerminal

/-- The capability's part of `finish`: a delivery consumes it and any other end releases it. -/
def settleCapability (capabilities : Table MessageKey ReplyCapability) (claim : DeliveryClaim)
    (state : TerminalState) : Except Fault (Table MessageKey ReplyCapability) :=
  match claim.envelope.authorization with
  | .reply replyTo =>
    let key := (claim.envelope.toDid, replyTo)
    match capabilities.find key with
    | none => .error notOwner
    | some capability =>
      if capability.state ≠ .claimed claim.key then .error notOwner
      else do
        ambient.assertUnfencedDid claim.envelope.toDid
        .ok (capabilities.insert key
          { capability with
            state := state.capabilityState claim.key
            updatedAt := ambient.clock 3 })
  | _ => .ok capabilities

/-- End the work, settle its capability and queue its final status. -/
def finish (claim : DeliveryClaim) (work : DeliveryWork) (state : TerminalState) :
    Except Fault Store := do
  let capabilities ← settleCapability ambient s.capabilities claim state
  let s ← { s with capabilities := capabilities }.updateWork ambient claim.key work
    { work with
      state := .finished state
      statusRevision := work.statusRevision + 1
      lease := none
      transitionedAt := ambient.clock 3 }
  if (s.publications.find claim.key).isSome then
    .error (.uniqueViolation "terminal_status_publications_pkey")
  else .ok { s with publications := s.publications.insert claim.key ambient.start }

/-- The policy a delivery is checked against again, after the earlier answer `authorized`. -/
def deliveryPermitted (envelope : HailEnvelope) (authorized : Bool) : Except Fault Bool :=
  match envelope.authorization with
  | .connection connectionId epoch =>
    if !authorized then .ok false
    else ambient.connectionMessageAllowed envelope.toDid envelope.fromDid connectionId epoch
      true false
  | .conversation creator conversationId descriptorHash =>
    if !authorized then .ok false
    else s.conversations.conversationMessageAllowed ambient envelope.toDid envelope.fromDid
      (creator, conversationId) descriptorHash true (ambient.clock 1)
  | _ => .ok true

/-- The key under which a recipient keeps a verified body. -/
def provenanceKey (envelope : HailEnvelope) : ProvenanceKey :=
  ⟨envelope.toDid, envelope.fromDid, envelope.body.digest, envelope.body.mediaType,
    envelope.body.profile⟩

/-- Keep the verified bytes; equal digests share one blob. -/
def storeBody (envelope : HailEnvelope) (bytes : Bytes) : Except Fault Store := do
  ambient.assertUnfencedDid envelope.toDid
  let digest := envelope.body.digest
  if bytes.length < 1 ∨ bodyMaxBytes < bytes.length ∨ platform.sha256 bytes ≠ digest then
    .error ⟨some "P0001", "Verified body size or digest mismatch"⟩
  else if (s.blobs.find digest).any (· ≠ bytes) then
    .error ⟨some "P0001", "Shared body conflicts with exact bytes"⟩
  else
    .ok { s with
      blobs := s.blobs.insertNew digest bytes
      provenance := s.provenance.insertNew (provenanceKey envelope) () }

/-- Keep the attachments and the references to them. -/
def storeAttachments (s : Store) (envelope : HailEnvelope) :
    List (Attachment × Bytes) → Except Fault Store
  | [] => .ok s
  | (file, bytes) :: rest => do
      if (s.attachmentBlobs.find file.digest).any (· ≠ bytes) then
        .error (.error "Attachment digest collision")
      else
        let s := { s with
          attachmentBlobs := s.attachmentBlobs.insertNew file.digest bytes
          attachmentRefs := s.attachmentRefs.insertNew (provenanceKey envelope, file.digest) () }
        s.storeAttachments envelope rest

/-- The trigger `connection_handover_final_delivery`. -/
def guardHandoverDelivery (envelope : HailEnvelope) (row : ReceivedEnvelope) :
    Except Fault Unit :=
  match row.authorization with
  | .connection connectionId epoch => do
      let _ ← ambient.connectionMessagePermission envelope.toDid envelope.fromDid connectionId
        epoch true
      if ambient.connectionHandoverBlocked envelope.toDid envelope.fromDid then
        .error ⟨some "55000", "Connection delivery is paused for account handover"⟩
      else .ok ()
  | _ => .ok ()

/-- `INSERT INTO delivered_messages`, with its triggers. -/
def insertDelivered (envelope : HailEnvelope) : Except Fault Store :=
  match s.received.find envelope.key with
  | none => .ok s
  | some row => do
      ambient.assertUnfencedDid envelope.toDid
      checkWhen (row.recipientDid = envelope.toDid) (guardHandoverDelivery ambient envelope row)
      if (s.delivered.find envelope.key).isSome then
        .error (.uniqueViolation "delivered_messages_pkey")
      else
        let message : DeliveredMessage := ⟨envelope.toDid, row.envelopeDigest,
          envelope.body.digest, envelope.body.mediaType, envelope.body.profile⟩
        .ok { s with delivered := s.delivered.insert envelope.key message }

/-- Store a retrieved body and end the work. The deadline is read before and after the writes. -/
def deliver (claim : DeliveryClaim) (bytes : Bytes) (attachments : List Bytes)
    (authorized : Bool) : Except Fault (DeliverOutcome × Store) := do
  let envelope := claim.envelope
  let files ← checkBody platform envelope bytes attachments
  match s.lockClaim claim with
  | none => .ok (.lostLease, s)
  | some work =>
    if pastDeadline envelope (ambient.clock 0) then
      let s ← s.finish ambient claim work (.failed .deliveryExpired)
      .ok (.expired, s)
    else
      let permitted ← s.deliveryPermitted ambient envelope authorized
      if !permitted then
        let s ← s.finish ambient claim work (.failed .receiverPolicyRejected)
        .ok (.unauthorized, s)
      else
        let s ← s.storeBody platform ambient envelope bytes
        let s ← s.storeAttachments envelope files
        if s.blobs.find envelope.body.digest ≠ some bytes then
          .error (.error "Verified-body provenance conflicts with exact bytes")
        else if pastDeadline envelope (ambient.clock 2) then
          let s ← s.finish ambient claim work (.failed .deliveryExpired)
          .ok (.expired, s)
        else
          let s ← s.insertDelivered ambient envelope
          let s ← s.finish ambient claim work .delivered
          .ok (.delivered, s)

def fail (claim : DeliveryClaim) (reason : FailureReason) : Except Fault Store :=
  match s.lockClaim claim with
  | none => .ok s
  | some work =>
    let late := pastDeadline claim.envelope (ambient.clock 0)
    s.finish ambient claim work (.failed (if late then .deliveryExpired else reason))

def cancel (claim : DeliveryClaim) (reason : CancellationReason) : Except Fault Store :=
  match s.lockClaim claim with
  | none => .ok s
  | some work => s.finish ambient claim work (.cancelled reason)

/-- Release the lease and retry later, unless the deadline has passed. -/
def hold (claim : DeliveryClaim) (reason : HoldReason) (retryAt : JsDate) : Except Fault Store :=
  match s.lockClaim claim with
  | none => .ok s
  | some work =>
    if pastDeadline claim.envelope (ambient.clock 0) then
      s.finish ambient claim work (.failed .deliveryExpired)
    else
      s.updateWork ambient claim.key work
        { work with
          state := .onHold reason
          statusRevision := work.statusRevision + 1
          nextAttemptAt := retryAt.ms * 1000
          lease := none
          transitionedAt := ambient.clock 3 }

end Store

end HailProto.Messages
