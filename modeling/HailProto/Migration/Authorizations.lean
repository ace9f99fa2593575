import HailProto.Migration.Fence
import HailProto.Migration.ManagedHandshake

/-!
# The source's transfer authorizations

The calls that write `provider_transfer_authorizations`: `TransferInvitationService.issue`,
`TransferInvitationDelivery.deliver`, `TransferCancellationService.cancel`, the source's part of
`TransferCleanup.runOnce`, and `authorize` and `deliver` of a managed transfer. One row is kept for
a DID. Each transaction locks it, and what a call read or fetched before its transaction is an
argument of the transaction. The leases and attempts of the delivery worker are left out.
-/

namespace HailProto.Migration

open Server Codec
open Cbor (Value)

inductive CustodyProfile
  | portable
  | managed
  deriving DecidableEq

/-- The columns of `provider_transfer_authorizations` that no fence reads, under the DID of the
row. -/
structure AuthorizationCustody where
  custodyProfile : CustodyProfile
  ownerRecoveryPublicKey : Option String
  /-- `cancellation_bytes` and `cancellation_signature`, set with `cancelled_at`. -/
  cancellation : Option SignedHandshake
  receipt : Option SignedHandshake
  deriving DecidableEq

structure SourceStore extends FenceStore where
  custody : Table Did AuthorizationCustody

/-- What the transfers call outside the server, with the owner's ES256 signatures. -/
structure TransferPlatform extends Platform where
  /-- `verifySignature` of `@atproto/crypto`: a key, a message and a signature. -/
  verifySignature : String → Bytes → Bytes → Except Fault Bool

/-- A row of `managed_custody_evidence`. -/
structure ManagedEvidence where
  ownerRecoveryPublicKey : String
  providerIdentityPublicKey : String
  /-- `verification_mode IN ('poc-local','strict-public-v1')`. -/
  verified : Bool

/-- What a call of the source meets outside its tables. -/
structure SourceSurroundings extends Surroundings where
  managed : Uuid → Option ManagedEvidence
  /-- The decrypted messaging key of an account, as what signs with it. -/
  privateKey : Uuid → Except Fault (Bytes → Bytes)

/-- What the DID resolver answers, with the strict reading of a managed transfer. -/
structure StrictResolution extends Resolution where
  /-- `def.documentData.parse(evidence.data).rotationKeys`. -/
  documentRotationKeys : Except Fault (List String)
  /-- `evidence.verification`. -/
  verification : Bool

/-- `getKey(account.id, "hail-messaging")`. -/
def messagingKey (w : Surroundings) (account : SourceAccount) : Except Fault AccountKey :=
  match (w.keys account.id).find? (·.role == "hail-messaging") with
  | some key =>
    if account.closed then .error (.error "Account key hail-messaging does not exist")
    else .ok key
  | none => .error (.error "Account key hail-messaging does not exist")

section Signing

variable (platform : Platform)

/-- `signHandshake`. -/
def signHandshake (kind : Kind) (value : Record) (sign : Bytes → Bytes) :
    Except Fault SignedHandshake := do
  let value ← validate platform kind (.map value)
  let payloadBytes ← encodeDeterministic platform (.map value)
  .ok ⟨payloadBytes, sign (signatureInput (kind.type ++ ".v1") payloadBytes)⟩

/-- `TransferInvitation` for a grant. -/
def invitationRecord (grant : TransferGrant) (grantBytes challenge : Bytes) : Record :=
  [(.text "type", .text Kind.invitation.type), (.text "version", .int 1),
    (.text "did", .text grant.did), (.text "nonce", .text grant.nonce),
    (.text "source_service_base", .text grant.sourceServiceBase),
    (.text "destination_service_base", .text grant.destinationServiceBase),
    (.text "grant_digest", .bytes (platform.sha256 grantBytes)),
    (.text "challenge", .bytes challenge), (.text "expires_at", .int grant.expiresAt)]

/-- `TransferCancellationReceipt`. -/
def receiptRecord (w : Surroundings) (did : Did) (nonce : Uuid)
    (grantDigest invitationBytes : Bytes) (destinationDomain : String) : Record :=
  [(.text "type", .text Kind.cancellationReceipt.type), (.text "version", .int 1),
    (.text "did", .text did), (.text "nonce", .text nonce),
    (.text "grant_digest", .bytes grantDigest),
    (.text "invitation_digest", .bytes (platform.sha256 invitationBytes)),
    (.text "destination_domain", .text destinationDomain),
    (.text "source_service_base", .text w.sourceServiceBase),
    (.text "issued_at", .int (seconds w.now)),
    (.text "expires_at", .int (seconds w.now + 7 * 86400))]

end Signing

/-- What a call writes into the row of a DID. -/
structure Entry where
  did : Did
  nonce : Uuid
  destinationServiceBase : String
  /-- `grant.expires_at`, in seconds. -/
  expiresAt : Int
  grant : SignedHandshake
  invitation : SignedHandshake
  custodyProfile : CustodyProfile
  ownerRecoveryPublicKey : Option String

/-- The row that an `INSERT` of the entry writes. -/
def Entry.authorization (e : Entry) : Authorization where
  nonce := e.nonce
  destinationServiceBase := e.destinationServiceBase
  expiresAt := e.expiresAt * 1000
  grantBytes := e.grant.payloadBytes
  grantSignature := e.grant.signature
  invitationBytes := e.invitation.payloadBytes
  invitationSignature := e.invitation.signature
  consumedTransferId := none
  originRequestBytes := none
  originRequestSignature := none
  originConfirmedAt := none
  finalRequest := none
  selection := none
  reservation := none
  cancelledAt := none

def Entry.custody (e : Entry) : AuthorizationCustody :=
  ⟨e.custodyProfile, e.ownerRecoveryPublicKey, none, none⟩

/-- The condition of `ON CONFLICT (did) DO UPDATE`: the row is unconsumed, is expired without a
confirmed origin or cancelled, and holds another signed grant. -/
def Authorization.Replaceable (w : Surroundings) (row : Authorization) (grant : SignedHandshake) :
    Prop :=
  row.consumedTransferId = none ∧
    (row.expiresAt ≤ w.databaseNow ∧ row.originConfirmedAt = none ∨ row.cancelledAt.isSome) ∧
    (row.grantBytes ≠ grant.payloadBytes ∨ row.grantSignature ≠ grant.signature)

instance (w : Surroundings) (row : Authorization) (grant : SignedHandshake) :
    Decidable (row.Replaceable w grant) :=
  inferInstanceAs (Decidable (_ ∧ _))

/-- The statement writes the row, where no other DID holds its nonce. -/
def writeEntry (w : Surroundings) (s : SourceStore) (e : Entry) (row : Authorization) :
    Except Fault (Option SourceStore) :=
  match w.refusal with
  | some fault => .error fault
  | none =>
    if s.authorizations.rows.any fun r => r.1 != e.did && r.2.nonce == e.nonce then
      .error (.uniqueViolation "provider_transfer_authorizations_nonce_key")
    else .ok (some { s with
      authorizations := s.authorizations.insert e.did row
      custody := s.custody.insert e.did e.custody })

/-- `INSERT INTO provider_transfer_authorizations … ON CONFLICT (did) DO UPDATE … RETURNING did`:
nothing where the row of the DID stays. -/
def recordEntry (w : Surroundings) (s : SourceStore) (e : Entry) :
    Except Fault (Option SourceStore) :=
  match s.authorizations.find e.did with
  | none => writeEntry w s e e.authorization
  | some row =>
    if row.Replaceable w e.grant then
      writeEntry w s e { e.authorization with
        finalRequest := row.finalRequest
        selection := row.selection
        reservation := row.reservation }
    else .ok none

section Portable

variable (platform : Platform)

/-- `issue` before its transaction: the grant, and the invitation signed for it. -/
def acknowledgeGrant (w : Surroundings) (resolved : Resolution) (grantSigned : SignedHandshake)
    (sign : Bytes → Bytes) (challenge : Bytes) : Except Fault (TransferGrant × SignedHandshake) := do
  let raw ← decodeDeterministic platform grantSigned.payloadBytes
  let value ← validate platform .grant raw
  let grant := TransferGrant.of value
  if resolved.did ≠ grant.did ∨ resolved.serviceBase ≠ w.sourceServiceBase ∨
      grant.sourceServiceBase ≠ w.sourceServiceBase ∨
      seconds w.now + 300 < integerOf value "issued_at" ∨ grant.expiresAt ≤ seconds w.now then
    .error (.error "Transfer grant source or lifetime is invalid")
  else
    let _ ← verifyHandshake platform .grant grantSigned resolved.identityDidKey
    let signed ← signHandshake platform .invitation
      (invitationRecord platform grant grantSigned.payloadBytes challenge) sign
    let _ ← verifyHandshake platform .invitation signed resolved.messagingDidKey
    .ok (grant, signed)

/-- The account of a grant is active and public, and its owner holds the identity key. -/
def checkOwner (w : Surroundings) (did : Did) (resolved : Resolution) : Except Fault Unit :=
  match w.account did with
  | none => .error (.error "Source has no active public account for transfer")
  | some account =>
    if !account.active || !account.publicActivation then
      .error (.error "Source has no active public account for transfer")
    else if (w.custody account.id).map (·.userIdentityPublicKey) ≠ some resolved.identityDidKey ∨
        (w.keys account.id).any (·.role == "hail-identity") then
      .error (.error "Transfer requires user-controlled identity custody")
    else .ok ()

/-- The stored invitation, when the same signed grant is presented again. -/
def priorInvitation (w : Surroundings) (s : SourceStore) (resolved : Resolution)
    (grant : TransferGrant) (grantSigned : SignedHandshake) : Except Fault SignedHandshake :=
  let message := "A different or unresolved transfer grant already exists for this DID"
  match s.authorizations.find grant.did with
  | none => .error (.error message)
  | some row =>
    if row.cancelledAt.isSome ∨ row.expiresAt ≤ w.now ∨
        row.grantBytes ≠ grantSigned.payloadBytes ∨ row.grantSignature ≠ grantSigned.signature then
      .error (.error message)
    else do
      let prior : SignedHandshake := ⟨row.invitationBytes, row.invitationSignature⟩
      let parsed ← verifyHandshake platform .invitation prior resolved.messagingDidKey
      let parsed := TransferInvitation.of parsed
      if parsed.did ≠ grant.did ∨ parsed.nonce ≠ grant.nonce ∨
          parsed.grantDigest ≠ platform.sha256 grantSigned.payloadBytes then
        .error (.error "Stored transfer invitation conflicts with user grant")
      else .ok prior

/-- `TransferInvitationService.issue`; `sign` is the source's messaging key and `challenge` what
`randomBytes` answers. -/
def issue (w : Surroundings) (s : SourceStore) (resolved : Resolution)
    (grantSigned : SignedHandshake) (sign : Bytes → Bytes) (challenge : Bytes) :
    Except Fault (SourceStore × SignedHandshake) := do
  let (grant, signed) ← acknowledgeGrant platform w resolved grantSigned sign challenge
  checkOwner w grant.did resolved
  let recorded ← recordEntry w s ⟨grant.did, grant.nonce, grant.destinationServiceBase,
    grant.expiresAt, grantSigned, signed, .portable, none⟩
  match recorded with
  | some t => .ok (t, signed)
  | none =>
    let prior ← priorInvitation platform w s resolved grant grantSigned
    .ok (s, prior)

/-- An invitation that `deliver` has read and sends to the destination. -/
structure Delivery where
  did : Did
  grantSigned : SignedHandshake
  invitationSigned : SignedHandshake
  grant : TransferGrant
  challenge : Bytes
  sourceMessagingKey : String

/-- The `expires_at` of a stored offer. -/
def offerExpiry (message : String) (offer : Bytes) : Except Fault Int := do
  let raw ← decodeDeterministic platform offer
  match raw with
  | .map entries =>
    match Record.get entries "expires_at" with
    | some (.int n) => .ok n
    | _ => .error (.error message)
  | _ => .error (.error message)

/-- `verifyResponse`; `again` is what the resolver answers when the grant is verified once more. -/
def verifyResponse (w : Surroundings) (again : Resolution) (d : Delivery)
    (signed : SignedHandshake) : Except Fault TransferOffer := do
  let raw ← decodeDeterministic platform signed.payloadBytes
  match raw with
  | .map entries =>
    if !isText entries "destination_messaging_key" fun _ => true then
      .error (.error "Invalid destination key claim")
    else
      let value ← verifyHandshake platform .offer signed
        (textOf entries "destination_messaging_key")
      let grant ← verifyHandshake platform .grant d.grantSigned again.identityDidKey
      let _ ← verifyHandshake platform .invitation d.invitationSigned d.sourceMessagingKey
      let request := TransferOffer.of value
      let grant := TransferGrant.of grant
      if request.did ≠ d.did ∨ request.nonce ≠ grant.nonce ∨
          request.sourceServiceBase ≠ w.sourceServiceBase ∨
          request.destinationServiceBase ≠ d.grant.destinationServiceBase ∨
          request.grantDigest ≠ platform.sha256 d.grantSigned.payloadBytes ∨
          request.invitationDigest ≠ platform.sha256 d.invitationSigned.payloadBytes ∨
          request.invitationChallenge ≠ d.challenge ∨ seconds w.now + 300 < request.issuedAt ∨
          request.expiresAt ≤ seconds w.now ∨ grant.expiresAt < request.expiresAt then
        .error (.error "Target response did not bind the user grant and invitation challenge")
      else .ok request
  | _ => .error (.error "Invalid destination key claim")

/-- `deliver` up to its request: the stored offer that is still good, or the invitation to send. -/
def readInvitation (w : Surroundings) (s : SourceStore) (did : Did) (resolved again : Resolution) :
    Except Fault (Delivery ⊕ SignedHandshake) :=
  if !didPattern did then .error (.error "Invalid transfer DID")
  else if resolved.did ≠ did ∨ resolved.serviceBase ≠ w.sourceServiceBase then
    .error (.error "Source service is no longer current")
  else
    match s.authorizations.find did with
    | none => .error (.error "Transfer grant expired, cancelled or absent")
    | some row =>
      if row.cancelledAt.isSome ∨ row.expiresAt ≤ w.now then
        .error (.error "Transfer grant expired, cancelled or absent")
      else do
        let grantSigned : SignedHandshake := ⟨row.grantBytes, row.grantSignature⟩
        let invitationSigned : SignedHandshake := ⟨row.invitationBytes, row.invitationSignature⟩
        let grant ← verifyHandshake platform .grant grantSigned resolved.identityDidKey
        let invitation ← verifyHandshake platform .invitation invitationSigned
          resolved.messagingDidKey
        let grant := TransferGrant.of grant
        let invitation := TransferInvitation.of invitation
        if grant.did ≠ did ∨ grant.sourceServiceBase ≠ w.sourceServiceBase ∨
            grant.destinationServiceBase ≠ row.destinationServiceBase ∨
            grant.expiresAt ≠ seconds row.expiresAt ∨ invitation.did ≠ did ∨
            invitation.nonce ≠ grant.nonce ∨
            invitation.sourceServiceBase ≠ w.sourceServiceBase ∨
            invitation.destinationServiceBase ≠ grant.destinationServiceBase ∨
            invitation.expiresAt ≠ grant.expiresAt ∨
            invitation.grantDigest ≠ platform.sha256 row.grantBytes then
          .error (.error "Stored invitation does not match the current user grant")
        else
          let delivery : Delivery := ⟨did, grantSigned, invitationSigned, grant,
            invitation.challenge, resolved.messagingDidKey⟩
          match row.originRequestBytes, row.originRequestSignature with
          | some bytes, some signature =>
            let expiresAt ← offerExpiry platform "Stored origin response is invalid" bytes
            if seconds w.now + 15 < expiresAt then
              let _ ← verifyResponse platform w again delivery ⟨bytes, signature⟩
              .ok (.inr ⟨bytes, signature⟩)
            else if row.consumedTransferId.isSome then
              .error (.error "Transfer authorization was already consumed")
            else .ok (.inl delivery)
          | _, _ =>
            if row.consumedTransferId.isSome then
              .error (.error "Transfer authorization was already consumed")
            else .ok (.inl delivery)

/-- The stored offer may be replaced by the response: it is the same one, or about to expire and
not consumed. -/
def checkPriorOffer (w : Surroundings) (row : Authorization) (signed : SignedHandshake) :
    Except Fault Bool := do
  match row.originRequestBytes, row.originRequestSignature with
  | none, none => .ok true
  | some bytes, some signature =>
    if bytes = signed.payloadBytes ∧ signature = signed.signature then .ok false
    else
      let message := "Conflicting destination responses for one invitation"
      let expiresAt ← offerExpiry platform message bytes
      if seconds w.now + 15 < expiresAt ∨ row.consumedTransferId.isSome then
        .error (.error message)
      else .ok true
  | _, _ => .error (.error "Incomplete origin response state")

/-- The rest of `deliver`, with the response of the destination. -/
def recordOffer (w : Surroundings) (s : SourceStore) (again : Resolution) (d : Delivery)
    (signed : SignedHandshake) : Except Fault (SourceStore × SignedHandshake) := do
  let request ← verifyResponse platform w again d signed
  let message := "Source invitation changed during HTTPS delivery"
  match s.authorizations.find d.did with
  | none => .error (.error message)
  | some row =>
    if row.cancelledAt.isSome ∨ row.expiresAt ≤ w.now ∨
        row.destinationServiceBase ≠ d.grant.destinationServiceBase ∨
        row.grantBytes ≠ d.grantSigned.payloadBytes ∨
        row.grantSignature ≠ d.grantSigned.signature ∨
        row.invitationBytes ≠ d.invitationSigned.payloadBytes ∨
        row.invitationSignature ≠ d.invitationSigned.signature ∨
        row.consumedTransferId.any (· != request.transferId) then
      .error (.error message)
    else
      let replaces ← checkPriorOffer platform w row signed
      if !replaces then .ok (s, signed)
      else
        match w.refusal with
        | some fault => .error fault
        | none => .ok ({ s with authorizations := s.authorizations.insert d.did { row with
            originRequestBytes := some signed.payloadBytes
            originRequestSignature := some signed.signature
            originConfirmedAt := some w.databaseNow } }, signed)

/-- A verified `hail.transfer-cancellation`. -/
structure TransferCancellation where
  did : Did
  nonce : Uuid
  grantDigest : Bytes
  deriving DecidableEq

def TransferCancellation.of (value : Record) : TransferCancellation where
  did := textOf value "did"
  nonce := textOf value "nonce"
  grantDigest := bytesOf value "grant_digest"

/-- `cancel` before its transaction: the verified cancellation and the source's signing key. -/
def admitCancellation (w : SourceSurroundings) (resolved : Resolution) (signed : SignedHandshake) :
    Except Fault (TransferCancellation × (Bytes → Bytes)) := do
  if 4096 < signed.payloadBytes.length then
    .error (.error "Transfer cancellation exceeds limit")
  else
    let raw ← decodeDeterministic platform signed.payloadBytes
    match raw with
    | .map entries =>
      if !isText entries "did" didPattern then
        .error (.error "Invalid transfer cancellation DID")
      else if resolved.did ≠ textOf entries "did" ∨
          resolved.serviceBase ≠ w.sourceServiceBase then
        .error (.error "Only the current source can cancel a pending transfer")
      else
        let value ← verifyHandshake platform .cancellation signed resolved.identityDidKey
        if seconds w.now + 300 < integerOf value "issued_at" ∨
            integerOf value "expires_at" ≤ seconds w.now then
          .error (.error "Transfer cancellation is stale")
        else
          let cancellation := TransferCancellation.of value
          match (w.account cancellation.did).filter (·.active) with
          | none => .error (.error "Source account is no longer active")
          | some account =>
            let key ← messagingKey w.toSurroundings account
            if key.publicKey ≠ resolved.messagingDidKey ∨ key.algorithm ≠ "ed25519" then
              .error (.error "Source cancellation signer is no longer current")
            else
              let sign ← w.privateKey account.id
              .ok (cancellation, sign)
    | _ => .error (.error "Invalid transfer cancellation DID")

/-- `TransferCancellationService.cancel`. -/
def cancel (w : SourceSurroundings) (s : SourceStore) (resolved : Resolution)
    (signed : SignedHandshake) : Except Fault (SourceStore × SignedHandshake) := do
  let (cancellation, sign) ← admitCancellation platform w resolved signed
  match s.authorizations.find cancellation.did with
  | none => .error (.error "Cancellation does not match a user-authorized grant")
  | some stored =>
    if stored.nonce ≠ cancellation.nonce ∨
        platform.sha256 stored.grantBytes ≠ cancellation.grantDigest then
      .error (.error "Cancellation does not match a user-authorized grant")
    else
      let grant ← verifyHandshake platform .grant ⟨stored.grantBytes, stored.grantSignature⟩
        resolved.identityDidKey
      let columns := s.custody.find cancellation.did
      if stored.cancelledAt.isSome then
        match columns.bind (·.receipt) with
        | none => .error (.error "Another cancellation was already recorded")
        | some receipt =>
          if columns.bind (·.cancellation) ≠ some signed then
            .error (.error "Another cancellation was already recorded")
          else .ok (s, receipt)
      else if stored.consumedTransferId.isSome ∨ (s.fences.find cancellation.did).isSome then
        .error (.error "Cancellation requires authenticated rollback after the source fence")
      else
        let receipt ← signHandshake platform .cancellationReceipt
          (receiptRecord platform w.toSurroundings cancellation.did cancellation.nonce
            cancellation.grantDigest stored.invitationBytes
            (TransferGrant.of grant).destinationDomain) sign
        match w.refusal with
        | some fault => .error fault
        | none => .ok ({ s with
            authorizations := s.authorizations.insert cancellation.did { stored with
              cancelledAt := some w.databaseNow }
            custody := s.custody.update cancellation.did fun row => { row with
              cancellation := some signed
              receipt := some receipt } }, receipt)

end Portable

/-- The rows that the source's part of `runOnce` deletes. -/
def Authorization.Stale (w : Surroundings) (row : Authorization) : Prop :=
  row.expiresAt < w.databaseNow - 3600000 ∧ row.consumedTransferId = none ∧
    row.originConfirmedAt = none ∧ row.cancelledAt = none

instance (w : Surroundings) (row : Authorization) : Decidable (row.Stale w) :=
  inferInstanceAs (Decidable (_ ∧ _))

/-- The source's part of `TransferCleanup.runOnce`, on the row that it has locked. -/
def cleanupSource (w : Surroundings) (s : SourceStore) (did : Did) : SourceStore :=
  match s.authorizations.find did with
  | none => s
  | some row =>
    if row.Stale w then { s with
      authorizations := s.authorizations.deleteWhere fun key _ => key == did
      custody := s.custody.deleteWhere fun key _ => key == did }
    else s

section Managed

variable (platform : TransferPlatform)

/-- `ManagedTransferGrant`, with what its checks read. -/
structure ManagedTransferGrant where
  did : Did
  nonce : Uuid
  sourceServiceBase : String
  destinationServiceBase : String
  sourceIdentityKey : String
  issuedAt : Int
  expiresAt : Int

def ManagedTransferGrant.of (value : Record) : ManagedTransferGrant where
  did := textOf value "did"
  nonce := textOf value "nonce"
  sourceServiceBase := textOf value "source_service_base"
  destinationServiceBase := textOf value "destination_service_base"
  sourceIdentityKey := textOf value "source_identity_key"
  issuedAt := integerOf value "issued_at"
  expiresAt := integerOf value "expires_at"

/-- The DID that an untrusted managed grant names. -/
def managedSubject (signed : SignedHandshake) : Except Fault Did := do
  if signed.payloadBytes.length = 0 ∨ 8192 < signed.payloadBytes.length ∨
      signed.signature.length ≠ 64 then
    .error (.error "Managed transfer grant exceeds its limit")
  else
    let decoded ← decodeDeterministic platform.toPlatform signed.payloadBytes
    match decoded with
    | .map entries =>
      if isText entries "did" didPattern then .ok (textOf entries "did")
      else .error (.error "Managed transfer grant has no canonical DID")
    | _ => .error (.error "Managed transfer grant has no canonical DID")

/-- `ManagedTransferAcknowledgement`. -/
def acknowledgementRecord (w : Surroundings) (grant : ManagedTransferGrant) (grantBytes : Bytes)
    (sourceMessagingKey : String) : Record :=
  [(.text "type", .text ManagedKind.acknowledgement.type), (.text "version", .int 1),
    (.text "did", .text grant.did), (.text "nonce", .text grant.nonce),
    (.text "source_service_base", .text grant.sourceServiceBase),
    (.text "destination_service_base", .text grant.destinationServiceBase),
    (.text "grant_digest", .bytes (platform.sha256 grantBytes)),
    (.text "source_messaging_key", .text sourceMessagingKey),
    (.text "issued_at", .int (seconds w.now)), (.text "expires_at", .int grant.expiresAt)]

/-- The account that holds the managed authority of a grant. -/
def managedAccount (w : SourceSurroundings) (did : Did) : Option (SourceAccount × ManagedEvidence) :=
  (w.account did).bind fun account =>
    (w.managed account.id).bind fun evidence =>
      if account.active && account.publicActivation && evidence.verified &&
          (w.keys account.id).any (fun key => key.role == "hail-identity" &&
            key.publicKey == evidence.providerIdentityPublicKey) then some (account, evidence)
      else none

/-- `authorize` before its transaction: the grant, its owner's key and the acknowledgement. -/
def acknowledgeManaged (w : SourceSurroundings) (resolved : StrictResolution)
    (signed : SignedHandshake) :
    Except Fault (ManagedTransferGrant × String × SignedHandshake) := do
  let did ← managedSubject platform signed
  let rotationKeys ← resolved.documentRotationKeys
  match rotationKeys[0]? with
  | none => .error (.error "Managed transfer requires strict current source authority")
  | some ownerRecoveryKey =>
    if !resolved.verification ∨ resolved.did ≠ did ∨
        resolved.serviceBase ≠ w.sourceServiceBase then
      .error (.error "Managed transfer requires strict current source authority")
    else
      let value ← verifyManagedOwnerHandshake platform.toPlatform platform.verifySignature .grant
        signed ownerRecoveryKey
      let grant := ManagedTransferGrant.of value
      if grant.sourceServiceBase ≠ w.sourceServiceBase ∨
          grant.sourceIdentityKey ≠ resolved.identityDidKey ∨
          seconds w.now + 300 < grant.issuedAt ∨ grant.expiresAt ≤ seconds w.now then
        .error (.error "Managed transfer grant is stale or for another authority")
      else
        match managedAccount w grant.did with
        | none => .error (.error "Source does not hold the strict managed account authority")
        | some (account, evidence) =>
          if evidence.ownerRecoveryPublicKey ≠ ownerRecoveryKey ∨
              evidence.providerIdentityPublicKey ≠ resolved.identityDidKey then
            .error (.error "Source does not hold the strict managed account authority")
          else
            let messaging ← messagingKey w.toSurroundings account
            if messaging.algorithm ≠ "ed25519" ∨
                messaging.publicKey ≠ resolved.messagingDidKey then
              .error (.error "Source messaging authority is no longer current")
            else
              let sign ← w.privateKey account.id
              let acknowledged ← signManagedProviderHandshake platform.toPlatform
                .acknowledgement (acknowledgementRecord platform w.toSurroundings grant
                  signed.payloadBytes messaging.publicKey) sign
              .ok (grant, ownerRecoveryKey, acknowledged)

/-- The stored acknowledgement, when the same signed grant is presented again. -/
def priorAcknowledgement (w : Surroundings) (s : SourceStore) (resolved : Resolution)
    (grant : ManagedTransferGrant) (ownerRecoveryKey : String) (signed : SignedHandshake) :
    Except Fault SignedHandshake :=
  let message := "A different or unresolved transfer authorization already exists for this DID"
  match s.authorizations.find grant.did, s.custody.find grant.did with
  | some row, some columns =>
    if columns.custodyProfile ≠ .managed ∨
        columns.ownerRecoveryPublicKey ≠ some ownerRecoveryKey ∨ row.cancelledAt.isSome ∨
        row.consumedTransferId.isSome ∨ row.expiresAt ≤ seconds w.now * 1000 ∨
        row.grantBytes ≠ signed.payloadBytes ∨ row.grantSignature ≠ signed.signature then
      .error (.error message)
    else do
      let prior : SignedHandshake := ⟨row.invitationBytes, row.invitationSignature⟩
      let parsed ← verifyManagedProviderHandshake platform.toPlatform .acknowledgement prior
        resolved.messagingDidKey
      if textOf parsed "did" ≠ grant.did ∨ textOf parsed "nonce" ≠ grant.nonce ∨
          bytesOf parsed "grant_digest" ≠ platform.sha256 signed.payloadBytes then
        .error (.error "Stored managed acknowledgement conflicts with owner grant")
      else .ok prior
  | _, _ => .error (.error message)

/-- `ManagedTransferAuthorization.authorize`. -/
def authorize (w : SourceSurroundings) (s : SourceStore) (resolved : StrictResolution)
    (signed : SignedHandshake) : Except Fault (SourceStore × SignedHandshake) := do
  let (grant, ownerRecoveryKey, acknowledged) ← acknowledgeManaged platform w resolved signed
  let recorded ← recordEntry w.toSurroundings s ⟨grant.did, grant.nonce,
    grant.destinationServiceBase, grant.expiresAt, signed, acknowledged, .managed,
    some ownerRecoveryKey⟩
  match recorded with
  | some t => .ok (t, acknowledged)
  | none =>
    let prior ← priorAcknowledgement platform w.toSurroundings s resolved.toResolution grant
      ownerRecoveryKey signed
    .ok (s, prior)

/-- An acknowledgement that a managed `deliver` has read and sends to the destination. -/
structure ManagedDelivery where
  grantSigned : SignedHandshake
  acknowledgementSigned : SignedHandshake
  grant : ManagedTransferGrant
  sourceKeys : List String

/-- `verifyOffer`. -/
def verifyManagedOffer (w : Surroundings) (d : ManagedDelivery) (signed : SignedHandshake) :
    Except Fault Record := do
  let raw ← decodeDeterministic platform.toPlatform signed.payloadBytes
  match raw with
  | .map entries =>
    if !isText entries "destination_messaging_key" fun _ => true then
      .error (.error "Managed Offer lacks a destination messaging key")
    else
      let offer ← verifyManagedProviderHandshake platform.toPlatform .offer signed
        (textOf entries "destination_messaging_key")
      if destinationKeys.any (fun key => d.sourceKeys.contains (textOf offer key)) ∨
          textOf offer "did" ≠ d.grant.did ∨ textOf offer "nonce" ≠ d.grant.nonce ∨
          textOf offer "source_service_base" ≠ d.grant.sourceServiceBase ∨
          textOf offer "destination_service_base" ≠ d.grant.destinationServiceBase ∨
          seconds w.now + 300 < integerOf offer "issued_at" ∨
          integerOf offer "expires_at" ≤ seconds w.now ∨
          d.grant.expiresAt < integerOf offer "expires_at" ∨
          bytesOf offer "grant_digest" ≠ platform.sha256 d.grantSigned.payloadBytes ∨
          bytesOf offer "acknowledgement_digest" ≠
            platform.sha256 d.acknowledgementSigned.payloadBytes then
        .error (.error "Managed Offer does not bind the admitted source artifacts")
      else .ok offer
  | _ => .error (.error "Managed Offer lacks a destination messaging key")

/-- The managed `deliver` up to its request. -/
def readAcknowledgement (w : Surroundings) (s : SourceStore) (did : Did)
    (resolved : StrictResolution) : Except Fault (ManagedDelivery ⊕ SignedHandshake) := do
  let message := "Managed transfer authorization is absent, stale, or no longer current"
  if !didPattern did then .error (.error "Invalid managed transfer DID")
  else
    let rotationKeys ← resolved.documentRotationKeys
    match s.authorizations.find did, s.custody.find did with
    | some row, some columns =>
      if columns.custodyProfile ≠ .managed ∨ columns.ownerRecoveryPublicKey = none ∨
          row.cancelledAt.isSome ∨ row.expiresAt ≤ w.now ∨ resolved.did ≠ did ∨
          resolved.serviceBase ≠ w.sourceServiceBase ∨ !resolved.verification ∨
          rotationKeys[0]? ≠ columns.ownerRecoveryPublicKey then
        .error (.error message)
      else
        let grantSigned : SignedHandshake := ⟨row.grantBytes, row.grantSignature⟩
        let acknowledgementSigned : SignedHandshake :=
          ⟨row.invitationBytes, row.invitationSignature⟩
        let grant ← verifyManagedOwnerHandshake platform.toPlatform platform.verifySignature
          .grant grantSigned (columns.ownerRecoveryPublicKey.getD "")
        let acknowledgement ← verifyManagedProviderHandshake platform.toPlatform .acknowledgement
          acknowledgementSigned resolved.messagingDidKey
        let grant := ManagedTransferGrant.of grant
        if grant.did ≠ did ∨ grant.sourceIdentityKey ≠ resolved.identityDidKey ∨
            grant.sourceServiceBase ≠ w.sourceServiceBase ∨
            grant.destinationServiceBase ≠ row.destinationServiceBase ∨
            grant.expiresAt ≠ seconds row.expiresAt ∨ textOf acknowledgement "did" ≠ did ∨
            textOf acknowledgement "nonce" ≠ grant.nonce ∨
            textOf acknowledgement "source_service_base" ≠ w.sourceServiceBase ∨
            textOf acknowledgement "destination_service_base" ≠ grant.destinationServiceBase ∨
            integerOf acknowledgement "expires_at" ≠ grant.expiresAt ∨
            bytesOf acknowledgement "grant_digest" ≠ platform.sha256 row.grantBytes then
          .error (.error "Stored managed acknowledgement does not match its owner grant")
        else
          let delivery : ManagedDelivery := ⟨grantSigned, acknowledgementSigned, grant,
            resolved.identityDidKey :: resolved.messagingDidKey :: rotationKeys⟩
          match row.originRequestBytes, row.originRequestSignature with
          | some bytes, some signature =>
            let _ ← verifyManagedOffer platform w delivery ⟨bytes, signature⟩
            .ok (.inr ⟨bytes, signature⟩)
          | _, _ =>
            if row.consumedTransferId.isSome then
              .error (.error "Managed transfer authorization was already consumed")
            else .ok (.inl delivery)
    | _, _ => .error (.error message)

/-- The rest of the managed `deliver`, with the response of the destination. -/
def recordManagedOffer (w : Surroundings) (s : SourceStore) (d : ManagedDelivery)
    (signed : SignedHandshake) : Except Fault (SourceStore × SignedHandshake) := do
  let offer ← verifyManagedOffer platform w d signed
  let message := "Managed authorization changed during destination delivery"
  match s.authorizations.find d.grant.did, s.custody.find d.grant.did with
  | some row, some columns =>
    if columns.custodyProfile ≠ .managed ∨ row.cancelledAt.isSome ∨
        row.consumedTransferId.any (· != textOf offer "transfer_id") ∨
        row.grantBytes ≠ d.grantSigned.payloadBytes ∨
        row.grantSignature ≠ d.grantSigned.signature ∨
        row.invitationBytes ≠ d.acknowledgementSigned.payloadBytes ∨
        row.invitationSignature ≠ d.acknowledgementSigned.signature then
      .error (.error message)
    else
      match row.originRequestBytes, row.originRequestSignature with
      | none, none =>
        match w.refusal with
        | some fault => .error fault
        | none => .ok ({ s with authorizations := s.authorizations.insert d.grant.did { row with
            originRequestBytes := some signed.payloadBytes
            originRequestSignature := some signed.signature
            originConfirmedAt := some w.databaseNow } }, signed)
      | some bytes, some signature =>
        if bytes ≠ signed.payloadBytes ∨ signature ≠ signed.signature then
          .error (.error "Conflicting managed destination Offers")
        else .ok (s, signed)
      | _, _ => .error (.error "Conflicting managed destination Offers")
  | _, _ => .error (.error message)

end Managed

end HailProto.Migration
