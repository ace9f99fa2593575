import HailProto.Server.Basic

/-!
# Envelopes and what a provider keeps of them

`hail.envelope` as the codec validates it, with the fields the envelope and delivery
repositories read, and the rows of `0009_envelopes.sql`, `0010_delivery_work.sql`,
`0011_delivery_status.sql` and `0012_reply_capabilities.sql`. Where a `CHECK` ties columns to
each other the row holds them as one value. Payloads count seconds, the database clock
microseconds.
-/

namespace HailProto.Messages

open Server

/-- Microseconds in a second. -/
def second : Nat := 1000000

/-- The last instant a `Date` can hold. -/
def maxInstant : Nat := 8640000000000000 * 1000

/-- A `Date`, in milliseconds. -/
structure JsDate where
  ms : Int
  valid : |ms| ≤ 8640000000000000

inductive BodyProfile
  | spt1
  | spt2
  | spt3
  deriving DecidableEq

/-- The detached body an envelope names, with the bearer access to it. -/
structure BodyDescriptor where
  digest : Bytes
  size : Nat
  mediaType : String
  profile : BodyProfile
  availableUntil : Nat
  accessToken : Bytes
  accessExpiresAt : Nat
  deriving DecidableEq

inductive ReplyPermission
  | denied
  | allowed (deadline : Nat)
  deriving DecidableEq

/-- What entitles the sender to address the recipient. -/
inductive EnvelopeAuthorization
  | grant (grantId : Uuid)
  | reply (replyTo : Uuid)
  | connection (connectionId : Uuid) (epoch : Nat)
  | conversation (creator : Did) (conversationId : Uuid) (descriptorHash : Bytes)
  deriving DecidableEq

structure ConversationIntroduction where
  descriptor : Bytes
  connectionId : Uuid
  epoch : Nat
  deriving DecidableEq

/-- A message is named by its sender and the sender's identifier for it. -/
abbrev MessageKey := Did × Uuid

/-- A `hail.envelope` payload. -/
structure HailEnvelope where
  messageId : Uuid
  fromDid : Did
  toDid : Did
  authorization : EnvelopeAuthorization
  category : Option String
  inReplyTo : Option MessageKey
  conversationMessageId : Option Uuid
  conversationIntroduction : Option ConversationIntroduction
  expiresAt : Nat
  body : BodyDescriptor
  reply : ReplyPermission
  deriving DecidableEq

def HailEnvelope.key (envelope : HailEnvelope) : MessageKey := (envelope.fromDid, envelope.messageId)

/-- The last second in which a message may be accepted or delivered. -/
def deliveryDeadline (envelope : HailEnvelope) : Nat :=
  min (min (envelope.expiresAt + 300) envelope.body.availableUntil) envelope.body.accessExpiresAt

/-- `now > deliveryDeadline(envelope)`, on a clock in microseconds. -/
def pastDeadline (envelope : HailEnvelope) (now : Nat) : Bool :=
  decide (deliveryDeadline envelope * second < now)

inductive ReceivedOutcome
  | accepted
  | unauthorized
  | messageExpired
  deriving DecidableEq

/-- A row of `received_envelopes`, without the PLC evidence. -/
structure ReceivedEnvelope where
  recipientDid : Did
  authorization : EnvelopeAuthorization
  localAccountId : Uuid
  envelopeCose : Bytes
  envelopeDigest : Bytes
  payloadDigest : Bytes
  signingPublicKey : String
  outcome : ReceivedOutcome
  acceptedAt : Option Nat
  parent : Option MessageKey
  conversationMessageId : Option Uuid
  admissionBytes : Nat

inductive HoldReason
  | senderUnreachable
  | bodyTemporarilyUnavailable
  | bodyTransferInterrupted
  | senderRateLimited
  | receiverResourceConstrained
  deriving DecidableEq

inductive FailureReason
  | bodyAuthorizationFailed
  | bodyIntegrityFailed
  | bodyInvalid
  | bodyUnsupported
  | deliveryExpired
  | receiverPolicyRejected
  deriving DecidableEq

inductive CancellationReason
  | recipientCancelled
  | receiverAdministrativeCancellation
  deriving DecidableEq

/-- The delivery states that end the work. -/
inductive TerminalState
  | delivered
  | failed (reason : FailureReason)
  | cancelled (reason : CancellationReason)
  deriving DecidableEq

/-- The state of delivery work with its reason; exactly the states that need one carry one. -/
inductive DeliveryState
  | accepted
  | onHold (reason : HoldReason)
  | finished (state : TerminalState)
  deriving DecidableEq

def DeliveryState.isTerminal : DeliveryState → Bool
  | .finished _ => true
  | _ => false

/-- A lease is present or absent as a whole. -/
structure Lease where
  token : Uuid
  expiresAt : Nat
  deriving DecidableEq

/-- A row of `delivery_work`. -/
structure DeliveryWork where
  state : DeliveryState
  statusRevision : Nat
  attemptCount : Nat
  /-- In microseconds; a retry may be scheduled at any date. -/
  nextAttemptAt : Int
  lease : Option Lease
  transitionedAt : Nat

/-- The state of a reply capability with the reply that claimed it. -/
inductive CapabilityState
  | available
  | claimed (claimant : MessageKey)
  | consumed (claimant : MessageKey)
  deriving DecidableEq

/-- The recorded claimant, kept when the capability is consumed. -/
def CapabilityState.claimant : CapabilityState → Option MessageKey
  | .available => none
  | .claimed key => some key
  | .consumed key => some key

/-- A row of `reply_capabilities`. -/
structure ReplyCapability where
  permittedRecipientDid : Did
  replyUntil : Nat
  state : CapabilityState
  updatedAt : Nat

/-- A row of `sent_envelopes`, as far as acceptance reads it. -/
structure SentEnvelope where
  recipientDid : Did
  authorization : EnvelopeAuthorization
  envelopeCose : Bytes
  senderAccountId : Uuid

/-- A row of `delivered_messages`. -/
structure DeliveredMessage where
  recipientDid : Did
  envelopeDigest : Bytes
  bodyDigest : Bytes
  mediaType : String
  profile : BodyProfile

/-- The key of `verified_body_provenance`. -/
structure ProvenanceKey where
  recipientDid : Did
  senderDid : Did
  digest : Bytes
  mediaType : String
  profile : BodyProfile
  deriving DecidableEq

/-- An attachment as a body names it. -/
structure Attachment where
  digest : Bytes
  size : Nat
  mediaType : String

/-- A decoded body: its profile and its attachments. -/
structure BodyDocument where
  profile : BodyProfile
  attachments : List Attachment

/-- What the repositories call outside them: the codec, the digest and calendar arithmetic. -/
structure Platform where
  /-- `inspectSignedPayload("hail.envelope", representation)`. -/
  inspectEnvelope : Bytes → Option HailEnvelope
  sha256 : Bytes → Bytes
  /-- The document that encodes to exactly these bytes, in the first profile that decodes. -/
  decodeBody : Bytes → Option BodyDocument
  /-- The structure checks of `validateAttachmentBytes` for a media type. -/
  attachmentShape : String → Bytes → Bool
  /-- `clock_timestamp() + interval '24 months'`. -/
  after24Months : Nat → Nat

end HailProto.Messages
