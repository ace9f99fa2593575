import HailProto.Core.Table
import HailProto.Core.Transition
import HailProto.Migration.Handshake

/-!
# The source's migration fence

`MigrationFenceService` of `fence.ts` and `exportFenced` of `transfer.ts`, over the tables they
write: `provider_migration_fences`, `provider_transfer_authorizations`,
`provider_migration_exports` and the history of retired transfers. Each call is one transaction:
`begin` locks the account and its authorization, the others lock the fence, and a transaction that
raises leaves the tables as they were. What a call found before its transaction (the resolved
DID, the messaging key) may be stale by then: it is an argument of the transaction.
-/

namespace HailProto.Migration

open Server Codec
open Cbor (Value)

inductive FenceState
  | fenced
  | exported
  | retired
  deriving DecidableEq

/-- A row of `provider_migration_fences`, under its DID; times are in milliseconds. -/
structure Fence where
  accountId : Uuid
  transferId : Uuid
  destinationServiceBase : String
  destinationRotationPublicKey : Option String
  destinationMessagingPublicKey : Option String
  state : FenceState
  snapshotDigest : Option Bytes
  fencedAt : Int
  retirementReceiptBytes : Option Bytes
  deriving DecidableEq

/-- A row of `provider_transfer_authorizations`, under its DID. -/
structure Authorization where
  nonce : Uuid
  destinationServiceBase : String
  expiresAt : Int
  grantBytes : Bytes
  grantSignature : Bytes
  invitationBytes : Bytes
  invitationSignature : Bytes
  consumedTransferId : Option Uuid
  originRequestBytes : Option Bytes
  originRequestSignature : Option Bytes
  originConfirmedAt : Option Int
  /-- The final request with the selection and the reservation it names, set together. -/
  finalRequest : Option SignedHandshake
  selection : Option SignedHandshake
  reservation : Option SignedHandshake
  cancelledAt : Option Int
  deriving DecidableEq

/-- A row of `provider_migration_exports`, under its transfer id. -/
structure Export where
  did : Did
  manifestBytes : Bytes
  manifestDigest : Bytes
  sourceMessagingPublicKey : String
  signature : Bytes
  deriving DecidableEq

/-- A row of `provider_retired_transfer_history`, under its transfer id. -/
structure RetiredTransfer where
  accountId : Uuid
  did : Did
  servingGeneration : Nat
  fence : Fence
  exported : Export
  authorization : Option Authorization
  deriving DecidableEq

structure FenceStore where
  fences : Table Did Fence
  authorizations : Table Did Authorization
  exports : Table Uuid Export
  history : Table Uuid RetiredTransfer

/-- What the DID resolver answers. -/
structure Resolution where
  did : Did
  serviceBase : String
  identityDidKey : String
  messagingDidKey : String
  /-- `evidence.data.rotationKeys`, when it is an array. -/
  rotationKeys : Option (List String)

/-- A row of `provider_accounts`. -/
structure SourceAccount where
  id : Uuid
  canonicalAddress : String
  active : Bool
  publicActivation : Bool
  addressReleased : Bool
  closed : Bool

/-- A row of `portable_custody_evidence`. -/
structure CustodyEvidence where
  userRecoveryPublicKey : String
  userIdentityPublicKey : String

/-- A row of `account_keys`: its role, algorithm and public key. -/
structure AccountKey where
  role : String
  algorithm : String
  publicKey : String

/-- What a call meets outside the tables of this module: the clocks, the account with its custody,
keys and serving generation, and the triggers of the other tables. -/
structure Surroundings where
  sourceServiceBase : String
  /-- `this.now().getTime()`. -/
  now : Int
  /-- `clock_timestamp()`. -/
  databaseNow : Int
  account : Did → Option SourceAccount
  custody : Uuid → Option CustodyEvidence
  keys : Uuid → List AccountKey
  generation : Uuid → Nat
  /-- What the triggers on an authorization and before a fence raise: a nonce that was abandoned
  or cancelled, pending publications, connection messages, handovers or revivals. -/
  refusal : Option Fault
  /-- What revoking the codes, the credentials and the bindings of the account raises. -/
  withdrawal : Option Fault

/-- `MigrationFence`. -/
structure MigrationFence where
  did : Did
  accountId : Uuid
  transferId : Uuid
  destinationServiceBase : String
  destinationRotationPublicKey : String
  destinationMessagingPublicKey : String
  state : FenceState
  snapshotDigest : Option Bytes
  deriving DecidableEq

/-- `fromRow`. -/
def fromRow (did : Did) (row : Fence) : MigrationFence where
  did := did
  accountId := row.accountId
  transferId := row.transferId
  destinationServiceBase := row.destinationServiceBase
  destinationRotationPublicKey := row.destinationRotationPublicKey.getD ""
  destinationMessagingPublicKey := row.destinationMessagingPublicKey.getD ""
  state := row.state
  snapshotDigest := row.snapshotDigest

/-- `Math.floor(milliseconds / 1000)`. -/
def seconds (milliseconds : Int) : Int := milliseconds / 1000

variable (platform : Platform)

/-- The DID that an untrusted request names. -/
def requestSubject (request : SignedHandshake) : Except Fault Did := do
  let raw ← decodeDeterministic platform request.payloadBytes
  match raw with
  | .map entries =>
    if isText entries "did" didPattern then .ok (textOf entries "did")
    else .error (.error "Transfer request has no canonical DID")
  | _ => .error (.error "Transfer request has no canonical DID")

/-- The account behind the DID may move, and its owner holds the identity key. -/
def checkSource (w : Surroundings) (did : Did) (resolved : Resolution) :
    Except Fault (SourceAccount × List String) :=
  match w.account did with
  | none => .error (.error "Migration source DID requires public activation")
  | some account =>
    if !account.active || !account.publicActivation then
      .error (.error "Migration source DID requires public activation")
    else if account.addressReleased || account.closed then
      .error (.error "Released addresses cannot begin provider transfer")
    else if (account.canonicalAddress.toList.splitOn '@')[1]? ≠
        some (platform.hostname w.sourceServiceBase).toList then
      .error (.error "Custom-domain provider transfer is not supported yet")
    else
      match w.custody account.id, resolved.rotationKeys with
      | some evidence, some rotationKeys =>
        let keys := w.keys account.id
        if evidence.userIdentityPublicKey ≠ resolved.identityDidKey ∨
            rotationKeys[0]? ≠ some evidence.userRecoveryPublicKey ∨
            !keys.any (fun key => key.role == "plc-rotation" &&
              (rotationKeys.drop 1).contains key.publicKey) ∨
            !keys.any (fun key => key.role == "hail-messaging" &&
              key.publicKey == resolved.messagingDidKey) ∨
            keys.any (fun key => key.role == "hail-identity") then
          .error (.error "Source does not satisfy portable custody")
        else .ok (account, rotationKeys)
      | _, _ => .error (.error "Source does not satisfy portable custody")

/-- The key that a stored offer names for its own verification. -/
def offeredKey (offer : Bytes) : Except Fault String := do
  let raw ← decodeDeterministic platform offer
  match raw with
  | .map entries =>
    if isText entries "destination_messaging_key" fun _ => true then
      .ok (textOf entries "destination_messaging_key")
    else .error (.error "Invalid origin offer")
  | _ => .error (.error "Invalid origin offer")

/-- `address.slice(address.indexOf("@") + 1)`. -/
def afterAt (address : String) : List Char :=
  match address.toList.dropWhile (· != '@') with
  | [] => address.toList
  | _ :: domain => domain

/-- The six records of a transfer, with the bytes they are digested from. -/
structure Agreement where
  grant : TransferGrant
  invitation : TransferInvitation
  offer : TransferOffer
  request : TransferRequest
  selection : TransferAddressSelection
  reservation : TransferReservation
  offerBytes : Bytes
  selectionBytes : Bytes
  reservationBytes : Bytes

section Agreement

variable (a : Agreement) (w : Surroundings) (did : Did) (stored : Authorization)
  (destination : String)

/-- The grant is not the stored authorization's, or was consumed by another transfer. -/
def Agreement.GrantDiffers : Prop :=
  stored.consumedTransferId.any (· != a.request.transferId) = true ∨ a.grant.did ≠ did ∨
    a.grant.nonce ≠ stored.nonce ∨ a.grant.sourceServiceBase ≠ w.sourceServiceBase ∨
    a.grant.destinationServiceBase ≠ destination ∨ a.grant.expiresAt ≠ seconds stored.expiresAt

def Agreement.InvitationDiffers : Prop :=
  a.invitation.did ≠ did ∨ a.invitation.nonce ≠ stored.nonce ∨
    a.invitation.sourceServiceBase ≠ w.sourceServiceBase ∨
    a.invitation.destinationServiceBase ≠ destination ∨
    a.invitation.expiresAt ≠ a.grant.expiresAt ∨
    a.invitation.challenge ≠ a.offer.invitationChallenge ∨
    a.invitation.grantDigest ≠ platform.sha256 stored.grantBytes

def Agreement.OfferDiffers : Prop :=
  a.offer.did ≠ did ∨ a.offer.nonce ≠ a.grant.nonce ∨
    a.offer.transferId ≠ a.request.transferId ∨
    a.offer.sourceServiceBase ≠ w.sourceServiceBase ∨
    a.offer.destinationServiceBase ≠ destination ∨
    a.offer.grantDigest ≠ platform.sha256 stored.grantBytes ∨
    a.offer.invitationDigest ≠ platform.sha256 stored.invitationBytes ∨
    a.offer.destinationRotationKey ≠ a.request.destinationRotationKey ∨
    a.offer.destinationMessagingKey ≠ a.request.destinationMessagingKey

def Agreement.RequestDiffers : Prop :=
  a.request.did ≠ did ∨ a.request.nonce ≠ stored.nonce ∨
    a.request.sourceServiceBase ≠ w.sourceServiceBase ∨
    destination ≠ stored.destinationServiceBase ∨
    a.request.grantDigest ≠ platform.sha256 stored.grantBytes ∨
    a.request.invitationDigest ≠ platform.sha256 stored.invitationBytes ∨
    a.request.invitationChallenge ≠ a.invitation.challenge ∨
    a.request.offerDigest ≠ platform.sha256 a.offerBytes

def Agreement.SelectionDiffers : Prop :=
  a.selection.did ≠ did ∨ a.selection.nonce ≠ a.grant.nonce ∨
    a.selection.transferId ≠ a.request.transferId ∨
    a.selection.grantDigest ≠ platform.sha256 stored.grantBytes ∨
    a.selection.offerDigest ≠ platform.sha256 a.offerBytes ∨
    afterAt a.selection.address ≠ a.grant.destinationDomain.toList ∨
    a.request.destinationAddress ≠ a.selection.address ∨
    a.request.selectionDigest ≠ platform.sha256 a.selectionBytes

def Agreement.ReservationDiffers : Prop :=
  a.reservation.did ≠ did ∨ a.reservation.nonce ≠ a.grant.nonce ∨
    a.reservation.transferId ≠ a.request.transferId ∨
    a.reservation.address ≠ a.selection.address ∨
    a.reservation.offerDigest ≠ platform.sha256 a.offerBytes ∨
    a.reservation.selectionDigest ≠ platform.sha256 a.selectionBytes ∨
    a.request.reservationDigest ≠ platform.sha256 a.reservationBytes

def Agreement.Untimely : Prop :=
  seconds w.now + 300 < a.selection.issuedAt ∨ a.selection.expiresAt ≤ seconds w.now ∨
    a.reservation.expiresAt ≤ seconds w.now ∨ seconds w.now + 300 < a.request.issuedAt ∨
    a.request.expiresAt ≤ seconds w.now ∨ a.grant.expiresAt < a.request.expiresAt

instance : Decidable (a.GrantDiffers w did stored destination) :=
  inferInstanceAs (Decidable (_ ∨ _))

instance : Decidable (a.InvitationDiffers platform w did stored destination) :=
  inferInstanceAs (Decidable (_ ∨ _))

instance : Decidable (a.OfferDiffers platform w did stored destination) :=
  inferInstanceAs (Decidable (_ ∨ _))

instance : Decidable (a.RequestDiffers platform w did stored destination) :=
  inferInstanceAs (Decidable (_ ∨ _))

instance : Decidable (a.SelectionDiffers platform did stored) :=
  inferInstanceAs (Decidable (_ ∨ _))

instance : Decidable (a.ReservationDiffers platform did) := inferInstanceAs (Decidable (_ ∨ _))

instance : Decidable (a.Untimely w) := inferInstanceAs (Decidable (_ ∨ _))

/-- Some record does not fit the others, the stored authorization or the time. -/
def Agreement.Differs : Prop :=
  a.GrantDiffers w did stored destination ∨ a.InvitationDiffers platform w did stored destination ∨
    a.OfferDiffers platform w did stored destination ∨
    a.RequestDiffers platform w did stored destination ∨ a.SelectionDiffers platform did stored ∨
    a.ReservationDiffers platform did ∨ a.Untimely w

instance : Decidable (a.Differs platform w did stored destination) :=
  inferInstanceAs (Decidable (_ ∨ _))

end Agreement

/-- The stored authorization and the records of the call, each under the key it must carry. -/
def verifyAgreement (resolved : Resolution) (stored : Authorization)
    (signedRequest signedSelection signedReservation : SignedHandshake) :
    Except Fault Agreement := do
  let grant ← verifyHandshake platform .grant ⟨stored.grantBytes, stored.grantSignature⟩
    resolved.identityDidKey
  let invitation ← verifyHandshake platform .invitation
    ⟨stored.invitationBytes, stored.invitationSignature⟩ resolved.messagingDidKey
  match stored.originRequestBytes, stored.originRequestSignature, stored.originConfirmedAt with
  | some offerBytes, some offerSignature, some _ =>
    let key ← offeredKey platform offerBytes
    let offer ← verifyHandshake platform .offer ⟨offerBytes, offerSignature⟩ key
    let offer := TransferOffer.of offer
    let request ← verifyHandshake platform .request signedRequest offer.destinationMessagingKey
    let selection ← verifyHandshake platform .addressSelection signedSelection
      resolved.identityDidKey
    let reservation ← verifyHandshake platform .reservation signedReservation
      offer.destinationMessagingKey
    .ok ⟨.of grant, .of invitation, offer, .of request, .of selection, .of reservation,
      offerBytes, signedSelection.payloadBytes, signedReservation.payloadBytes⟩
  | _, _, _ => .error (.error "Transfer request lacks an authenticated destination-origin offer")

/-- The destination's keys are its own, and new to the DID. -/
def checkDestination (w : Surroundings) (resolved : Resolution) (rotationKeys : List String)
    (destination : String) (request : TransferRequest) : Except Fault Unit :=
  if !uuidPattern request.transferId then
    .error (.error "Destination preparation requires a canonical transfer ID")
  else if destination = w.sourceServiceBase then
    .error (.error "Migration destination must differ from the source")
  else if !request.destinationRotationKey.startsWith "did:key:z" ||
      request.destinationRotationKey == request.destinationMessagingKey then
    .error (.error "Destination provider must supply a distinct PLC rotation key")
  else do
    let _ ← platform.ed25519PublicKey request.destinationMessagingKey
    if rotationKeys.contains request.destinationRotationKey ||
        request.destinationMessagingKey == resolved.messagingDidKey then
      .error (.error "Source does not satisfy destination-key separation")
    else .ok ()

/-- What a call of `begin` may fence: the account, its authorization, the destination and the
agreement. -/
structure Admitted where
  account : SourceAccount
  stored : Authorization
  destination : String
  agreement : Agreement

/-- The transaction of `begin` up to its last reading: every check but those of an existing
fence. -/
def admitTransfer (w : Surroundings) (s : FenceStore) (did : Did) (resolved : Resolution)
    (signedRequest signedSelection signedReservation : SignedHandshake) :
    Except Fault Admitted := do
  let (account, rotationKeys) ← checkSource platform w did resolved
  match s.authorizations.find did with
  | none => .error (.error "No valid user-authorized invitation for this DID")
  | some stored =>
    if stored.cancelledAt.isSome ∨ stored.expiresAt ≤ w.now then
      .error (.error "No valid user-authorized invitation for this DID")
    else
      let agreement ← verifyAgreement platform resolved stored signedRequest signedSelection
        signedReservation
      let destination ←
        platform.canonicalizeHailServiceBase agreement.request.destinationServiceBase
      if agreement.Differs platform w did stored destination then
        .error (.error "Destination request does not accept the exact user-authorized invitation")
      else
        checkDestination platform w resolved rotationKeys destination agreement.request
        .ok ⟨account, stored, destination, agreement⟩

/-- `INSERT INTO provider_migration_fences`. -/
def insertFence (w : Surroundings) (s : FenceStore) (did : Did) (row : Fence) :
    Except Fault FenceStore :=
  match w.refusal with
  | some fault => .error fault
  | none =>
    if (s.fences.find did).isSome then .error (.uniqueViolation "provider_migration_fences_pkey")
    else if s.fences.rows.any fun e => e.2.accountId == row.accountId then
      .error (.uniqueViolation "provider_migration_fences_account_id_key")
    else if s.fences.rows.any fun e => e.2.transferId == row.transferId then
      .error (.uniqueViolation "provider_migration_fences_transfer_id_key")
    else .ok { s with fences := s.fences.insert did row }

/-- `UPDATE provider_transfer_authorizations SET consumed_transfer_id = …`. -/
def consume (w : Surroundings) (s : FenceStore) (did : Did) (row : Authorization)
    (transferId : Uuid) (signedRequest signedSelection signedReservation : SignedHandshake) :
    Except Fault FenceStore :=
  match w.refusal with
  | some fault => .error fault
  | none =>
    if s.authorizations.rows.any fun e => e.2.consumedTransferId == some transferId then
      .error (.uniqueViolation "provider_transfer_authorizations_consumed_transfer_id_key")
    else .ok { s with
      authorizations := s.authorizations.insert did { row with
        consumedTransferId := some transferId
        finalRequest := some signedRequest
        selection := some signedSelection
        reservation := some signedReservation } }

/-- The last part of `begin`: the existing fence is answered to the same request, a new one is
inserted once. -/
def fenceOnce (w : Surroundings) (s : FenceStore) (did : Did) (admitted : Admitted)
    (signedRequest signedSelection signedReservation : SignedHandshake) :
    Except Fault (FenceStore × MigrationFence) :=
  let request := admitted.agreement.request
  match s.fences.find did with
  | some existing =>
    if existing.destinationServiceBase ≠ admitted.destination ∨
        existing.destinationRotationPublicKey ≠ some request.destinationRotationKey ∨
        existing.destinationMessagingPublicKey ≠ some request.destinationMessagingKey ∨
        existing.transferId ≠ request.transferId then
      .error (.error "DID is already fenced for another destination")
    else if admitted.stored.finalRequest ≠ some signedRequest then
      .error (.error "Fenced DID has another final transfer request")
    else .ok (s, fromRow did existing)
  | none =>
    if admitted.stored.consumedTransferId.isSome then
      .error (.error "Transfer grant was already consumed")
    else do
      let s ← consume w s did admitted.stored request.transferId signedRequest signedSelection
        signedReservation
      let row : Fence := ⟨admitted.account.id, request.transferId, admitted.destination,
        some request.destinationRotationKey, some request.destinationMessagingKey, .fenced, none,
        w.databaseNow, none⟩
      let s ← insertFence w s did row
      .ok (s, fromRow did row)

/-- `begin`, where the resolver answers `resolved` for the DID of the request. -/
def begin (w : Surroundings) (s : FenceStore) (resolved : Resolution)
    (signedRequest signedSelection signedReservation : SignedHandshake) :
    Except Fault (FenceStore × MigrationFence) := do
  let did ← requestSubject platform signedRequest
  if resolved.did ≠ did ∨ resolved.serviceBase ≠ w.sourceServiceBase then
    .error (.error "Current PLC state does not authorize this provider as the source")
  else
    let admitted ← admitTransfer platform w s did resolved signedRequest signedSelection signedReservation
    fenceOnce w s did admitted signedRequest signedSelection signedReservation

/-- `releaseBeforeExport`. -/
def releaseBeforeExport (s : FenceStore) (did : Did) (transferId : Uuid) :
    Except Fault FenceStore :=
  match s.fences.find did with
  | none => .error (.error "Only an unexported matching migration fence can be released")
  | some row =>
    if row.transferId ≠ transferId ∨ row.state ≠ .fenced then
      .error (.error "Only an unexported matching migration fence can be released")
    else if (s.exports.find transferId).isSome then
      .error ⟨some "23503", "provider_migration_exports_transfer_id_fkey"⟩
    else .ok { s with
      fences := s.fences.deleteWhere fun key _ => key == did
      authorizations := s.authorizations.deleteWhere fun key row =>
        key == did && row.consumedTransferId == some transferId }

/-- A snapshot that `exportFenced` answers. -/
structure SignedTransferSnapshot where
  bytes : Bytes
  digest : Bytes
  signature : Bytes
  sourceMessagingPublicKey : String
  deriving DecidableEq

def Export.snapshot (row : Export) : SignedTransferSnapshot :=
  ⟨row.manifestBytes, row.manifestDigest, row.signature, row.sourceMessagingPublicKey⟩

/-- `exportFenced` for a fence that the caller read before. `manifest` collects, encodes and
validates the account's rows; `sign` signs a digest with the account's messaging key. -/
def exportFenced (w : Surroundings) (s : FenceStore) (fence : MigrationFence)
    (resolved : Resolution) (messagingKey : AccountKey) (manifest : Except Fault Bytes)
    (sign : Bytes → Except Fault Bytes) : Except Fault (FenceStore × SignedTransferSnapshot) :=
  if resolved.did ≠ fence.did ∨ resolved.serviceBase ≠ w.sourceServiceBase then
    .error (.error "Current PLC does not designate this export source")
  else if messagingKey.algorithm ≠ "ed25519" ∨
      messagingKey.publicKey ≠ resolved.messagingDidKey then
    .error (.error "Current PLC does not authorize the source messaging key")
  else
    match (s.fences.find fence.did).filter (·.transferId == fence.transferId) with
    | none => .error (.error "Migration fence changed")
    | some current =>
      if current.accountId ≠ fence.accountId ∨
          current.destinationServiceBase ≠ fence.destinationServiceBase ∨
          current.destinationRotationPublicKey ≠ some fence.destinationRotationPublicKey ∨
          current.destinationMessagingPublicKey ≠ some fence.destinationMessagingPublicKey then
        .error (.error "Migration fence changed")
      else
        match current.state with
        | .exported =>
          match s.exports.find fence.transferId with
          | none => .error (.error "Exported migration snapshot is missing")
          | some existing => .ok (s, existing.snapshot)
        | .retired => .error (.error "Migration source has retired")
        | .fenced => do
            let bytes ← manifest
            let digest := platform.sha256 bytes
            let signature ← sign digest
            if bytes.length < 1 ∨ 67108864 < bytes.length then
              .error (.checkViolation "provider_migration_exports_manifest_bytes_check")
            else if signature.length ≠ 64 then
              .error (.checkViolation "provider_migration_exports_signature_check")
            else if (s.exports.find fence.transferId).isSome then
              .error (.uniqueViolation "provider_migration_exports_pkey")
            else
              let row : Export :=
                ⟨fence.did, bytes, digest, messagingKey.publicKey, signature⟩
              .ok ({ s with
                exports := s.exports.insert fence.transferId row
                fences := s.fences.insert fence.did { current with
                  state := .exported
                  snapshotDigest := some digest } }, row.snapshot)

/-- `hail_archive_retired_transfer`. -/
def archive (w : Surroundings) (s : FenceStore) (did : Did) (row : Fence) :
    Except Fault FenceStore :=
  match (s.exports.find row.transferId).filter fun e =>
    e.did == did && some e.manifestDigest == row.snapshotDigest with
  | none => .error ⟨some "55000", "Retired transfer has no matching retained export"⟩
  | some exported =>
    let retired : RetiredTransfer := ⟨row.accountId, did, w.generation row.accountId, row,
      exported, (s.authorizations.find did).filter (·.consumedTransferId == some row.transferId)⟩
    if (s.history.find row.transferId).any (· != retired) then
      .error ⟨some "55000", "Retired transfer conflicts with immutable history"⟩
    else .ok { s with history := s.history.insert row.transferId retired }

/-- `encodeDeterministic({ payload, signature })`. -/
def receiptBytes (signed : SignedHandshake) : Except Fault Bytes :=
  encodeDeterministic platform (.map [(.text "payload", .bytes signed.payloadBytes),
    (.text "signature", .bytes signed.signature)])

/-- The receipt names this fence. -/
def Names (receipt : MigrationActivationReceipt) (did : Did) (transferId : Uuid) (fence : Fence) :
    Prop :=
  receipt.did = did ∧ receipt.transferId = transferId ∧
    receipt.destinationServiceBase = fence.destinationServiceBase ∧
    seconds fence.fencedAt ≤ receipt.activatedAt ∧
    some receipt.snapshotDigest = fence.snapshotDigest

instance (receipt : MigrationActivationReceipt) (did : Did) (transferId : Uuid) (fence : Fence) :
    Decidable (Names receipt did transferId fence) :=
  inferInstanceAs (Decidable (_ ∧ _))

/-- `retire`, where the resolver answers `resolved` for the DID. -/
def retire (w : Surroundings) (s : FenceStore) (did : Did) (transferId : Uuid)
    (resolved : Resolution) (signed : SignedHandshake) : Except Fault FenceStore :=
  match (s.fences.find did).filter (·.transferId == transferId) with
  | none => .error (.error "Old provider cannot retire before authenticated destination cutover")
  | some fence =>
    if fence.state = .fenced ∨ fence.snapshotDigest = none ∨ resolved.did ≠ did ∨
        resolved.serviceBase ≠ fence.destinationServiceBase ∨
        some resolved.messagingDidKey ≠ fence.destinationMessagingPublicKey then
      .error (.error "Old provider cannot retire before authenticated destination cutover")
    else do
      let receipt ← verifyActivationReceipt platform signed resolved.messagingDidKey
        (seconds w.now)
      if ¬Names receipt did transferId fence then
        .error (.error "Destination activation receipt does not match the fenced snapshot")
      else
        let bytes ← receiptBytes platform signed
        match w.withdrawal with
        | some fault => .error fault
        | none =>
          if fence.state = .retired then
            if fence.retirementReceiptBytes ≠ some bytes then
              .error (.error "Retired transfer has another activation receipt")
            else .ok s
          else if bytes.length < 1 ∨ 16384 < bytes.length then
            .error (.checkViolation "provider_migration_retirement_shape")
          else
            let row := { fence with
              state := .retired
              retirementReceiptBytes := some bytes }
            archive w { s with fences := s.fences.insert did row } did row

end HailProto.Migration
