import HailProto.Grants.Store
import HailProto.Messages.Ambient

/-!
# Controls and consent bundles

The signed objects two providers exchange about a connection, and the checks of
`connection-federation.ts` that do not touch its tables. Signatures, digests and the codec are
one `Platform`; a phase of a request reads the clock, the DID resolver and the public authority
evidence as its `Reads`.
-/

namespace HailProto.Federation

open Server
open Messages (PairState)

/-- What a handler raises: an error for the client, the codec's or the resolver's refusal, or
one of the database. -/
inductive Failure
  | connection (status : Nat) (message : String)
  | codec
  | resolver
  | fault (fault : Fault)
  deriving DecidableEq

/-- The message of a `ConnectionError` raised with a status alone. -/
def defaultMessage : String :=
  "Connection not changed. Check the original approval before retrying."

/-- `new ConnectionError(status)`. -/
def Failure.status (status : Nat) : Failure := .connection status defaultMessage

/-- The epoch, state and connection of a pair. The `CHECK` of the pair table and the codec's
rule for controls admit the same combinations. -/
@[ext] structure Standing where
  epoch : Nat
  state : PairState
  connectionId : Option Uuid
  shape : (state = .empty ∧ connectionId = none ∧ epoch = 0) ∨
    (state ≠ .empty ∧ connectionId.isSome = true ∧ 0 < epoch)
  deriving DecidableEq

/-- Where a pair begins. -/
def Standing.start : Standing := ⟨0, .empty, none, .inl ⟨rfl, rfl, rfl⟩⟩

/-- A positive epoch with an open connection. -/
def Standing.opened (epoch : Nat) (connectionId : Uuid) (h : 0 < epoch) : Standing :=
  ⟨epoch, .active, some connectionId, .inr ⟨by decide, rfl, h⟩⟩

/-- A positive epoch with a closed connection. -/
def Standing.closed (epoch : Nat) (connectionId : Uuid) (h : 0 < epoch) : Standing :=
  ⟨epoch, .disconnected, some connectionId, .inr ⟨by decide, rfl, h⟩⟩

inductive ControlOperation
  | probe
  | offer
  | connect
  | disconnect
  | snapshot
  | admission
  | ack
  deriving DecidableEq

/-- A `hail.connection-control` payload. -/
structure Control extends Standing where
  operation : ControlOperation
  fromDid : Did
  toDid : Did
  requestId : Uuid
  proofHash : Bytes
  issuedAt : Nat
  expiresAt : Option Nat
  keyId : String
  deriving DecidableEq

/-- A `hail.connection-invitation` payload. -/
structure Invitation where
  invitationId : Uuid
  fromDid : Did
  tokenHash : Bytes
  issuedAt : Nat
  expiresAt : Option Nat
  keyId : String
  deriving DecidableEq

/-- A `hail.connection-confirmation` payload. -/
structure Confirmation where
  confirmationId : Uuid
  fromDid : Did
  toDid : Did
  invitationId : Uuid
  invitationHash : Bytes
  issuedAt : Nat
  expiresAt : Nat
  keyId : String
  deriving DecidableEq

/-- The signed representations a connection rests on. -/
structure Bundle where
  invitation : Bytes
  confirmation : Bytes
  inviterBinding : Bytes
  scannerBinding : Bytes
  snapshot : Bytes
  deriving DecidableEq

/-- The codec, the digest and the signature check. -/
structure Platform where
  sha256 : Bytes → Bytes
  /-- `decodeDeterministic` of a record: its keys, each with its value when that is bytes. -/
  decodeRecord : Bytes → Option (List (String × Option Bytes))
  inspectControl : Bytes → Option Control
  inspectInvitation : Bytes → Option Invitation
  inspectConfirmation : Bytes → Option Confirmation
  inspectBinding : Bytes → Option Grants.AddressBinding
  /-- The representation's signature verifies under a public key. -/
  signatureValid : String → Bytes → Bool
  /-- `encoded({connection_id})`. -/
  encodeConnection : Uuid → Bytes

/-- `EMPTY`, the digest of no bytes. -/
def Platform.emptyHash (platform : Platform) : Bytes := platform.sha256 []

inductive KeyRole
  | identity
  | messaging
  deriving DecidableEq

/-- `did#hail-identity` or `did#hail-messaging`. -/
def keyId (did : Did) : KeyRole → String
  | .identity => did ++ "#hail-identity"
  | .messaging => did ++ "#hail-messaging"

/-- What the resolver answers for a DID. -/
structure Resolved where
  did : Did
  serviceBase : String
  identityDidKey : String
  messagingDidKey : String
  deriving DecidableEq

/-- What a phase of a request reads outside the connection tables. -/
structure Reads where
  /-- `now()`, in seconds. -/
  now : Nat
  resolve : Did → Except Failure Resolved
  /-- `requireFreshPublicAuthority` for the DID under the resolved key of the role. -/
  requireFresh : Did → Resolved → KeyRole → Except Failure Unit

/-- `[a, b].sort()`. -/
def sortDids (a b : Did) : Did × Did := if a < b then (a, b) else (b, a)

variable (platform : Platform)

/-- `inspectSignedPayload`. -/
def inspected {α : Type} (payload : Option α) : Except Failure α :=
  match payload with
  | some value => .ok value
  | none => .error .codec

/-- `verifySignedPayload` of an inspected payload whose key must be the one of `kid`. -/
def verifySigned (payloadKeyId kid key : String) (bytes : Bytes) : Except Failure Unit :=
  if payloadKeyId ≠ kid then .error (.status 400)
  else if !platform.signatureValid key bytes then .error .codec
  else .ok ()

def checkedControl (reads : Reads) (bytes : Bytes) (operation : ControlOperation)
    (fresh : Bool) : Except Failure (Control × Resolved) := do
  let payload ← inspected (platform.inspectControl bytes)
  if payload.operation ≠ operation then
    .error (.connection 400 "Connection control purpose differs.")
  else do
    let state ← reads.resolve payload.fromDid
    reads.requireFresh payload.fromDid state .messaging
    verifySigned platform payload.keyId (keyId payload.fromDid .messaging)
      state.messagingDidKey bytes
    if reads.now + 300 < payload.issuedAt ∨ (fresh = true ∧
        payload.expiresAt.all (· ≤ reads.now) = true) then
      .error (.connection 410 "Connection transport approval expired.")
    else .ok (payload, state)

/-- `verify`; the proof it retains is read by no handler. -/
def verify (reads : Reads) (bytes : Bytes) (operation : ControlOperation) (fresh : Bool) :
    Except Failure Control := do
  let (payload, _) ← checkedControl platform reads bytes operation fresh
  .ok payload

def bundleFields : List String :=
  ["invitation", "confirmation", "inviterBinding", "scannerBinding", "snapshot"]

/-- The five byte strings of a bundle, each of at most 16384 bytes. -/
def decodeBundle (bytes : Bytes) : Except Failure Bundle :=
  match platform.decodeRecord bytes with
  | none => .error .codec
  | some record =>
    if !(record.map Prod.fst).isPerm bundleFields then .error (.status 400)
    else if record.any fun field => field.2.all (16384 < ·.length) then .error (.status 400)
    else
      match record.lookup "invitation", record.lookup "confirmation",
          record.lookup "inviterBinding", record.lookup "scannerBinding",
          record.lookup "snapshot" with
      | some (some invitation), some (some confirmation), some (some inviterBinding),
          some (some scannerBinding), some (some snapshot) =>
          .ok ⟨invitation, confirmation, inviterBinding, scannerBinding, snapshot⟩
      | _, _, _, _, _ => .error .codec

/-- What `verifyBundle` returns. -/
structure Verified where
  b : Bundle
  invitation : Invitation
  confirmation : Confirmation
  inviter : Resolved
  scanner : Resolved
  ib : Grants.AddressBinding
  sb : Grants.AddressBinding
  snapshot : Control
  coordinator : Resolved
  proof : Bytes

/-- The clock checks on consent and address proofs. -/
def consentExpired (now : Nat) (invitation : Invitation) (confirmation : Confirmation)
    (ib sb : Grants.AddressBinding) (fresh : Bool) : Bool :=
  decide (now + 300 < invitation.issuedAt ∨ now + 300 < confirmation.issuedAt ∨
    now + 300 < ib.issuedAt ∨ now + 300 < sb.issuedAt) ||
  (fresh && (decide (confirmation.expiresAt ≤ now) || invitation.expiresAt.any (· ≤ now)))

/-- `verifyBundle`; the coordinator's snapshot is checked in a phase of its own. -/
def verifyBundle (reads snapshotReads : Reads) (bytes : Bytes) (fresh : Bool) :
    Except Failure Verified := do
  let b ← decodeBundle platform bytes
  let invitation ← inspected (platform.inspectInvitation b.invitation)
  let confirmation ← inspected (platform.inspectConfirmation b.confirmation)
  let inviter ← reads.resolve invitation.fromDid
  let scanner ← reads.resolve confirmation.fromDid
  if inviter.did ≠ invitation.fromDid ∨ scanner.did ≠ confirmation.fromDid ∨
      confirmation.toDid ≠ invitation.fromDid ∨
      confirmation.invitationId ≠ invitation.invitationId ∨
      confirmation.invitationHash ≠ platform.sha256 b.invitation then
    .error (.connection 400 "Connection consent linkage differs.")
  else do
    verifySigned platform invitation.keyId (keyId inviter.did .identity) inviter.identityDidKey
      b.invitation
    verifySigned platform confirmation.keyId (keyId scanner.did .identity)
      scanner.identityDidKey b.confirmation
    let ib ← inspected (platform.inspectBinding b.inviterBinding)
    verifySigned platform ib.keyId (keyId inviter.did .identity) inviter.identityDidKey
      b.inviterBinding
    let sb ← inspected (platform.inspectBinding b.scannerBinding)
    verifySigned platform sb.keyId (keyId scanner.did .identity) scanner.identityDidKey
      b.scannerBinding
    if ib.did ≠ inviter.did ∨ sb.did ≠ scanner.did ∨
        consentExpired reads.now invitation confirmation ib sb fresh = true then
      .error (.connection 410 "Connection consent or address proof expired.")
    else do
      let (snapshot, coordinator) ← checkedControl platform snapshotReads b.snapshot .snapshot false
      if snapshot.fromDid ≠ (sortDids inviter.did scanner.did).1 ∨
          snapshot.toDid ≠ (sortDids inviter.did scanner.did).2 ∨
          snapshot.requestId ≠ confirmation.confirmationId ∨
          snapshot.proofHash ≠ platform.emptyHash then
        .error (.connection 400 "Connection epoch proposal differs.")
      else do
        reads.requireFresh inviter.did inviter .identity
        reads.requireFresh scanner.did scanner .identity
        .ok ⟨b, invitation, confirmation, inviter, scanner, ib, sb, snapshot, coordinator,
          platform.sha256 bytes⟩

/-- `matches`: a control of one of the parties binds the consent and its epoch. -/
def Control.checkMatches (control : Control) (v : Verified) (actor : Did) :
    Except Failure Unit :=
  let peer := if actor = v.inviter.did then v.scanner.did else v.inviter.did
  if control.fromDid ≠ actor ∨ control.toDid ≠ peer ∨
      control.requestId ≠ v.confirmation.confirmationId ∨ control.proofHash ≠ v.proof ∨
      control.toStanding ≠ v.snapshot.toStanding then
    .error (.connection 400 "Provider admission does not bind this consent and epoch.")
  else if control.operation = .admission ∧ (v.confirmation.expiresAt ≤ control.issuedAt ∨
      v.invitation.expiresAt.any (· ≤ control.issuedAt) = true) then
    .error (.connection 400 "Admission was not issued within the consent window.")
  else .ok ()

end HailProto.Federation
