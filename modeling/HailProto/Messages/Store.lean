import HailProto.Messages.Conversation

/-!
# The envelope repository

The tables of one provider's messages and the transactions of `envelopes/repository.ts` on
them, with the budgets of `envelopes/admission.ts`. All acceptances take one advisory lock, so
an acceptance is one step on the store, and one that raises leaves no trace. The database clock
is read several times in a transaction: a conversation is admitted and checked against earlier
readings than the one the deadline is compared with.
-/

namespace HailProto.Messages

open Server

inductive ScheduleScope
  | sender
  | recipient
  deriving DecidableEq

/-- The message tables of one provider. -/
structure Store where
  received : Table MessageKey ReceivedEnvelope
  work : Table MessageKey DeliveryWork
  /-- `reply_capabilities`, by the original message. -/
  capabilities : Table MessageKey ReplyCapability
  sent : Table MessageKey SentEnvelope
  delivered : Table MessageKey DeliveredMessage
  /-- `terminal_status_publications`, with the instant of the first attempt. -/
  publications : Table MessageKey Nat
  /-- `verified_body_provenance`; the bytes are in `shared_content_blobs`. -/
  provenance : Table ProvenanceKey Unit
  blobs : Table Bytes Bytes
  attachmentBlobs : Table Bytes Bytes
  attachmentRefs : Table (ProvenanceKey × Bytes) Unit
  scheduling : Table (ScheduleScope × Did) Nat
  /-- `serving_worker_leases`: the account and generation a lease token belongs to. -/
  workerLeases : Table Uuid (Uuid × Nat)
  conversations : Conversations

instance : EmptyCollection Store := ⟨⟨∅, ∅, ∅, ∅, ∅, ∅, ∅, ∅, ∅, ∅, ∅, ∅, ∅⟩⟩

/-- What `acceptWithinBudget` raises: `EnvelopeCapacityError`, which `accept` answers, or any
other error. -/
inductive AcceptFailure
  | capacity (message : String)
  | fault (fault : Fault)

instance : MonadLift (Except Fault) (Except AcceptFailure) := ⟨Except.mapError AcceptFailure.fault⟩

inductive EnvelopeOutcome
  | accepted
  | duplicate
  | conflict
  | unauthorized
  | messageExpired
  | rateLimited
  deriving DecidableEq

def ReceivedOutcome.answer : ReceivedOutcome → EnvelopeOutcome
  | .accepted => .accepted
  | .unauthorized => .unauthorized
  | .messageExpired => .messageExpired

/-- A verified submission. Its representation is the signed form of its payload. -/
structure EnvelopeDecision (platform : Platform) where
  payload : HailEnvelope
  representation : Bytes
  payloadDigest : Bytes
  envelopeDigest : Bytes
  localAccountId : Uuid
  signingPublicKey : String
  /-- The size of the PLC evidence as the database stores it. -/
  evidenceBytes : Nat
  /-- What `retainAuthority` raises. -/
  retainAuthority : Option Fault
  /-- What `retainPublicEnvelopeAuthority` raises. -/
  envelopeAuthority : Option Fault
  conversationDescriptor : Option VerifiedConversation
  inspected : platform.inspectEnvelope representation = some payload

structure EnvelopeAdmissionLimits where
  pendingSender : Nat
  pendingRecipient : Nat
  pendingProvider : Nat
  rejectedSender : Nat
  rejectedProvider : Nat
  rejectedSenderBytes : Nat
  rejectedProviderBytes : Nat

def envelopeAdmission : EnvelopeAdmissionLimits where
  pendingSender := 16
  pendingRecipient := 64
  pendingProvider := 256
  rejectedSender := 64
  rejectedProvider := 4096
  rejectedSenderBytes := 1048576
  rejectedProviderBytes := 67108864

variable {platform : Platform}

def EnvelopeDecision.admissionBytes (input : EnvelopeDecision platform) : Nat :=
  input.representation.length + input.evidenceBytes

/-- The row `insertReceived` writes. -/
def EnvelopeDecision.row (input : EnvelopeDecision platform) (outcome : ReceivedOutcome)
    (now : Nat) : ReceivedEnvelope where
  recipientDid := input.payload.toDid
  authorization := input.payload.authorization
  localAccountId := input.localAccountId
  envelopeCose := input.representation
  envelopeDigest := input.envelopeDigest
  payloadDigest := input.payloadDigest
  signingPublicKey := input.signingPublicKey
  outcome := outcome
  acceptedAt := if outcome = .accepted then some (now / 1000 * 1000) else none
  parent := input.payload.inReplyTo
  conversationMessageId := input.payload.conversationMessageId
  admissionBytes := input.admissionBytes

/-- The constraint of `received_envelopes` a row breaks. -/
def ReceivedEnvelope.check (row : ReceivedEnvelope) : Option Fault :=
  if row.envelopeCose.length < 1 ∨ 16384 < row.envelopeCose.length then
    some (.checkViolation "received_envelopes_envelope_cose_check")
  else if row.envelopeDigest.length ≠ 32 then
    some (.checkViolation "received_envelopes_envelope_digest_check")
  else if row.payloadDigest.length ≠ 32 then
    some (.checkViolation "received_envelopes_payload_digest_check")
  else none

/-- Work as `delivery_work` defaults it. -/
def newWork (start : Nat) : DeliveryWork := ⟨.accepted, 1, 0, start, none, start⟩

namespace Store

variable (s : Store)

/-- The deliveries that are not finished, with their received rows. -/
def pending : List (MessageKey × ReceivedEnvelope) :=
  s.work.rows.filterMap fun (key, work) =>
    if work.state.isTerminal then none else (s.received.find key).map fun row => (key, row)

/-- The submissions recorded without acceptance. -/
def rejected : List (MessageKey × ReceivedEnvelope) :=
  s.received.rows.filter fun (_, row) => row.outcome ≠ .accepted

/-- The total `admission_bytes` of rows. -/
def totalBytes (rows : List (MessageKey × ReceivedEnvelope)) : Nat :=
  (rows.map fun (_, row) => row.admissionBytes).sum

/-- The outstanding-delivery and rejected-replay budgets. -/
def admitEnvelope (input : EnvelopeDecision platform) (accepted : Bool)
    (limits : EnvelopeAdmissionLimits) : Except AcceptFailure Unit :=
  let p := input.payload
  if (s.received.find p.key).isSome then .ok ()
  else if accepted then
    let pending := s.pending
    if limits.pendingProvider ≤ pending.length ∨
        limits.pendingSender ≤ (pending.filter fun (key, _) => key.1 = p.fromDid).length ∨
        limits.pendingRecipient ≤
          (pending.filter fun (_, row) => row.recipientDid = p.toDid).length then
      .error (.capacity "Outstanding delivery budget exhausted")
    else .ok ()
  else
    let rejected := s.rejected
    let own := rejected.filter fun (key, _) => key.1 = p.fromDid
    if limits.rejectedProvider ≤ rejected.length ∨ limits.rejectedSender ≤ own.length ∨
        limits.rejectedProviderBytes < totalBytes rejected + input.admissionBytes ∨
        limits.rejectedSenderBytes < totalBytes own + input.admissionBytes then
      .error (.capacity "Rejected replay budget exhausted")
    else .ok ()

/-- What an earlier submission under the same key makes of this one. -/
def previousOutcome (payload : HailEnvelope) (digest : Bytes) : Option EnvelopeOutcome :=
  (s.received.find payload.key).map fun row =>
    if row.payloadDigest = digest then .duplicate else .conflict

/-- Another received message has this identity in the conversation, which the unique index
`received_conversation_message_identity` refuses. -/
def conversationIdentityTaken (sender : Did) (row : ReceivedEnvelope) : Bool :=
  match row.authorization with
  | .conversation creator conversationId _ =>
    s.received.rows.any fun (key, other) => decide (key.1 = sender ∧
      other.localAccountId = row.localAccountId ∧
      other.conversationMessageId = row.conversationMessageId) &&
        match other.authorization with
        | .conversation c id _ => decide (c = creator ∧ id = conversationId)
        | _ => false
  | _ => false

/-- Record a decision under the message's key, and start its delivery work. -/
def insertReceived (ambient : Ambient) (limits : EnvelopeAdmissionLimits)
    (input : EnvelopeDecision platform) (outcome : ReceivedOutcome) (now : Nat)
    (authorityRetained : Bool) : Except AcceptFailure (Bool × Store) := do
  let key := input.payload.key
  s.admitEnvelope input (outcome = .accepted) limits
  checkWhen (outcome = .accepted && !authorityRetained) (Grants.raise input.retainAuthority)
  ambient.assertUnfencedAccount input.localAccountId
  Grants.raise (input.row outcome now).check
  if (s.received.find key).isSome then .ok (false, s)
  else if s.conversationIdentityTaken input.payload.fromDid (input.row outcome now) then
    .error (.fault (.uniqueViolation "received_conversation_message_identity"))
  else
    let received := s.received.insert key (input.row outcome now)
    if outcome ≠ .accepted then .ok (true, { s with received := received })
    else
      Grants.raise input.envelopeAuthority
      if (s.work.find key).isSome then .error (.fault (.uniqueViolation "delivery_work_pkey"))
      else
        .ok (true, { s with
          received := received
          work := s.work.insert key (newWork ambient.start) })

/-- The grant's current revision lets the sender deliver in the envelope's category. -/
def grantPermits (lineage : Grants.Lineage) (revision : Grants.Revision) (payload : HailEnvelope)
    (now : Nat) : Bool :=
  decide (lineage.currentStatus = .active ∧ ∀ e ∈ revision.expiresAt, now ≤ e * second) &&
    match payload.category with
    | none => false
    | some category => revision.scope.values.contains category

/-- The decision on a submission that is allowed to ask. -/
def decision (payload : HailEnvelope) (now : Nat) (permitted : Bool) : ReceivedOutcome :=
  if pastDeadline payload now then .messageExpired
  else if permitted then .accepted
  else .unauthorized

/-- Record the decision; a submission that lost a race answers as the winner's duplicate. -/
def settle (ambient : Ambient) (limits : EnvelopeAdmissionLimits)
    (input : EnvelopeDecision platform) (outcome : ReceivedOutcome) (now : Nat)
    (authorityRetained : Bool) : Except AcceptFailure (EnvelopeOutcome × Store) := do
  let (inserted, s') ← s.insertReceived ambient limits input outcome now authorityRetained
  if inserted then .ok (outcome.answer, s')
  else .ok ((s'.previousOutcome input.payload input.payloadDigest).getD .conflict, s')

/-- The original message a reply capability was issued with. -/
def originalPermitsReply (original : HailEnvelope) (payload : HailEnvelope) (replyUntil : Nat) :
    Bool :=
  decide (original.reply = .allowed replyUntil ∧ original.fromDid = payload.toDid ∧
    original.toDid = payload.fromDid)

/-- The capability row after `reply` claimed it. -/
def claimCapability (ambient : Ambient) (original reply : MessageKey) : Store :=
  { s with
    capabilities := s.capabilities.update original fun capability =>
      { capability with
        state := .claimed reply
        updatedAt := ambient.clock 5 } }

/-- The branch for a reply: the capability row is locked from the first statement on. -/
def acceptReply (ambient : Ambient) (limits : EnvelopeAdmissionLimits)
    (input : EnvelopeDecision platform) (replyTo : Uuid) :
    Except AcceptFailure (EnvelopeOutcome × Store) :=
  let payload := input.payload
  let key := (payload.toDid, replyTo)
  match s.capabilities.find key, s.sent.find key with
  | some capability, some sent =>
    if capability.permittedRecipientDid ≠ payload.fromDid ∨
        sent.senderAccountId ≠ input.localAccountId then .ok (.unauthorized, s)
    else
      match platform.inspectEnvelope sent.envelopeCose with
      | none => .error (.fault (.error "Signed payload is invalid"))
      | some original =>
        if !originalPermitsReply original payload capability.replyUntil then
          .ok (.unauthorized, s)
        else
          match s.previousOutcome payload input.payloadDigest with
          | some previous => .ok (previous, s)
          | none => do
              let now := ambient.clock 4
              let permitted := decide (capability.state = .available ∧
                now ≤ (capability.replyUntil + 300) * second)
              let outcome := decision payload now permitted
              let (inserted, s') ← s.insertReceived ambient limits input outcome now false
              if inserted then
                if outcome = .accepted then
                  ambient.assertUnfencedDid payload.toDid
                  .ok (.accepted, s'.claimCapability ambient key payload.key)
                else .ok (outcome.answer, s')
              else
                .ok ((s'.previousOutcome payload input.payloadDigest).getD .conflict, s')
  | _, _ => .ok (.unauthorized, s)

/-- The branch for a grant. -/
def acceptGrant (ambient : Ambient) (limits : EnvelopeAdmissionLimits)
    (input : EnvelopeDecision platform) (grantId : Uuid) :
    Except AcceptFailure (EnvelopeOutcome × Store) :=
  let payload := input.payload
  match ambient.grants.current grantId with
  | none => .ok (.unauthorized, s)
  | some (lineage, revision) =>
    if lineage.grantorDid ≠ payload.toDid ∨ lineage.granteeDid ≠ payload.fromDid ∨
        lineage.localRole ≠ .grantor ∨ lineage.localAccountId ≠ input.localAccountId then
      .ok (.unauthorized, s)
    else
      match s.previousOutcome payload input.payloadDigest with
      | some previous => .ok (previous, s)
      | none =>
        let now := ambient.clock 4
        let permitted := grantPermits lineage revision payload now
        s.settle ambient limits input (decision payload now permitted) now false

/-- The local account is the recipient's. -/
def isRecipient (ambient : Ambient) (input : EnvelopeDecision platform) : Bool :=
  (ambient.accounts.find input.localAccountId).any (·.did = some input.payload.toDid)

/-- The branch for a connection; a paused one is accepted and delivered later. -/
def acceptConnection (ambient : Ambient) (limits : EnvelopeAdmissionLimits)
    (input : EnvelopeDecision platform) (connectionId : Uuid) (epoch : Nat) :
    Except AcceptFailure (EnvelopeOutcome × Store) := do
  let payload := input.payload
  if !isRecipient ambient input then .ok (.unauthorized, s)
  else
    let permitted ← ambient.connectionMessageAllowed payload.toDid payload.fromDid connectionId
      epoch true true
    match s.previousOutcome payload input.payloadDigest with
    | some previous => .ok (previous, s)
    | none =>
      let now := ambient.clock 4
      s.settle ambient limits input (decision payload now permitted) now false

/-- Admit the conversation an envelope introduces. -/
def introduce (ambient : Ambient) (limits : EnvelopeAdmissionLimits)
    (input : EnvelopeDecision platform) : Except AcceptFailure Store :=
  match input.payload.conversationIntroduction, input.conversationDescriptor with
  | some introduction, some descriptor => do
      s.admitEnvelope input true limits
      Grants.raise input.retainAuthority
      let (_, conversations) ← s.conversations.admitConversation platform ambient
        ⟨input.localAccountId, input.payload.toDid⟩ descriptor
        (some ⟨introduction.connectionId, introduction.epoch⟩)
        (ambient.clock 0) (ambient.clock 1) (ambient.clock 2)
      .ok { s with conversations := conversations }
  | _, _ => .ok s

/-- The branch for a conversation. A reply may race the introduction, so a refusal does not
reserve the message's key. -/
def acceptConversation (ambient : Ambient) (limits : EnvelopeAdmissionLimits)
    (input : EnvelopeDecision platform) (identity : ConversationKey) (descriptorHash : Bytes) :
    Except AcceptFailure (EnvelopeOutcome × Store) := do
  let payload := input.payload
  if !isRecipient ambient input then .ok (.unauthorized, s)
  else
    match s.previousOutcome payload input.payloadDigest with
    | some previous => .ok (previous, s)
    | none =>
      let s ← s.introduce ambient limits input
      let permitted ← s.conversations.conversationMessageAllowed ambient payload.toDid
        payload.fromDid identity descriptorHash true (ambient.clock 3)
      if !permitted then .ok (.unauthorized, s)
      else
        let now := ambient.clock 4
        s.settle ambient limits input (decision payload now true) now
          (payload.conversationIntroduction.isSome && input.conversationDescriptor.isSome)

def acceptWithinBudget (ambient : Ambient) (limits : EnvelopeAdmissionLimits)
    (input : EnvelopeDecision platform) : Except AcceptFailure (EnvelopeOutcome × Store) :=
  match input.payload.authorization with
  | .conversation creator conversationId descriptorHash =>
    s.acceptConversation ambient limits input (creator, conversationId) descriptorHash
  | .connection connectionId epoch => s.acceptConnection ambient limits input connectionId epoch
  | .reply replyTo => s.acceptReply ambient limits input replyTo
  | .grant grantId => s.acceptGrant ambient limits input grantId

/-- Accept a submission. An exhausted budget rolls the transaction back and is answered. -/
def accept (ambient : Ambient) (limits : EnvelopeAdmissionLimits)
    (input : EnvelopeDecision platform) : Except Fault (EnvelopeOutcome × Store) :=
  match s.acceptWithinBudget ambient limits input with
  | .ok result => .ok result
  | .error (.capacity _) => .ok (.rateLimited, s)
  | .error (.fault fault) => .error fault

/-- The sender may still use the authorization it signed the envelope under. -/
def sendPermitted (ambient : Ambient) (payload : HailEnvelope) :
    Except Fault Unit :=
  match payload.authorization with
  | .connection connectionId epoch => do
      let allowed ← ambient.connectionMessageAllowed payload.fromDid payload.toDid connectionId
        epoch true false
      if allowed then .ok () else .error (.error "Connection ended before envelope persistence")
  | .conversation creator conversationId descriptorHash => do
      let allowed ← s.conversations.conversationMessageAllowed ambient payload.fromDid
        payload.toDid (creator, conversationId) descriptorHash true (ambient.clock 0)
      if allowed then .ok ()
      else .error (.error "Conversation participation ended before envelope persistence")
  | _ => .ok ()

/-- The received message a sent reply refers to is stored. -/
def replyReferenceHeld (payload : HailEnvelope) : Bool :=
  match payload.authorization with
  | .reply replyTo => (s.received.find (payload.toDid, replyTo)).isSome
  | _ => true

/-- Store a signed envelope and, where it allows a reply, the capability for it. -/
def createSent (platform : Platform) (ambient : Ambient) (payload : HailEnvelope)
    (representation : Bytes) (accountId : Uuid) : Except Fault Store := do
  if platform.inspectEnvelope representation ≠ some payload ∨ 16384 < representation.length then
    .error (.error "Invalid signed envelope")
  else
    s.sendPermitted ambient payload
    let account := ambient.accounts.find accountId
    if !account.any fun a => a.did = some payload.fromDid && a.serving then
      .error (.error "Sender is not publicly active")
    else if ambient.publishedBodies.find (accountId, payload.body.digest) ≠
        some payload.body.size then
      .error (.error "Signed body is not published")
    else
      ambient.assertUnfencedAccount accountId
      if (s.sent.find payload.key).isSome then .error (.uniqueViolation "sent_envelopes_pkey")
      else if !s.replyReferenceHeld payload then
        .error ⟨some "23503", "insert or update violates sent_envelopes_reply_reference"⟩
      else
        let row : SentEnvelope :=
          ⟨payload.toDid, payload.authorization, representation, accountId⟩
        let sent := s.sent.insert payload.key row
        match payload.reply with
        | .denied => .ok { s with sent := sent }
        | .allowed deadline =>
          if (s.capabilities.find payload.key).isSome then
            .error (.uniqueViolation "reply_capabilities_pkey")
          else
            let capability : ReplyCapability :=
              ⟨payload.toDid, deadline, .available, ambient.start⟩
            .ok { s with
              sent := sent
              capabilities := s.capabilities.insert payload.key capability }

end Store

end HailProto.Messages
