import HailProto.Migration.Handshake

/-!
# The signed records of a managed transfer

`managed-handshake.ts`: the records of a transfer whose identity key is held by the provider. The
owner signs with the recovery key of the DID, the providers with their messaging keys, and a
provider's record names the key it is signed with.
-/

namespace HailProto.Migration

open Server Codec
open Cbor (Value)

/-- The kinds of managed handshake, up to the approval of a snapshot. -/
inductive ManagedKind
  | grant
  | acknowledgement
  | offer
  | addressSelection
  | reservation
  | fenceRequest
  deriving DecidableEq

def ManagedKind.type : ManagedKind → String
  | .grant => "hail.managed-transfer-grant"
  | .acknowledgement => "hail.managed-transfer-acknowledgement"
  | .offer => "hail.managed-transfer-offer"
  | .addressSelection => "hail.managed-transfer-address-selection"
  | .reservation => "hail.managed-transfer-reservation"
  | .fenceRequest => "hail.managed-transfer-fence-request"

/-- `fields[kind]`. -/
def ManagedKind.fields : ManagedKind → List String
  | .grant =>
    ["type", "version", "did", "nonce", "source_service_base", "destination_service_base",
      "destination_domain", "owner_recovery_key", "source_identity_key", "issued_at",
      "expires_at"]
  | .acknowledgement =>
    ["type", "version", "did", "nonce", "source_service_base", "destination_service_base",
      "grant_digest", "source_messaging_key", "issued_at", "expires_at"]
  | .offer =>
    ["type", "version", "did", "nonce", "transfer_id", "source_service_base",
      "destination_service_base", "grant_digest", "acknowledgement_digest",
      "destination_rotation_key", "destination_identity_key", "destination_messaging_key",
      "issued_at", "expires_at"]
  | .addressSelection =>
    ["type", "version", "did", "nonce", "transfer_id", "grant_digest", "offer_digest", "address",
      "selection_nonce", "issued_at", "expires_at"]
  | .reservation =>
    ["type", "version", "did", "nonce", "transfer_id", "offer_digest", "selection_digest",
      "address", "destination_rotation_key", "destination_identity_key",
      "destination_messaging_key", "issued_at", "expires_at"]
  | .fenceRequest =>
    ["type", "version", "did", "nonce", "transfer_id", "source_service_base",
      "destination_service_base", "destination_address", "owner_recovery_key",
      "source_identity_key", "destination_rotation_key", "destination_identity_key",
      "destination_messaging_key", "grant_digest", "acknowledgement_digest", "offer_digest",
      "selection_digest", "reservation_digest", "issued_at", "expires_at"]

/-- The kinds that carry both service bases. -/
def ManagedKind.hasBases : ManagedKind → Bool
  | .addressSelection | .reservation => false
  | .grant | .acknowledgement | .offer | .fenceRequest => true

/-- The kinds that name a transfer. -/
def ManagedKind.namesTransfer : ManagedKind → Bool
  | .grant | .acknowledgement => false
  | .offer | .addressSelection | .reservation | .fenceRequest => true

/-- The kinds whose grant digest is checked before their own members. -/
def ManagedKind.linksGrant : ManagedKind → Bool
  | .offer | .addressSelection | .fenceRequest => true
  | .grant | .acknowledgement | .reservation => false

/-- `didKey`. -/
def isDidKey (value : Record) (key : String) : Bool := isText value key (·.startsWith "did:key:z")

/-- The members are DID keys, no two of them the same. -/
def distinctKeys (value : Record) (keys : List String) : Bool :=
  keys.all (isDidKey value) && decide (keys.map (textOf value)).Nodup

/-- The three roles of the destination. -/
def destinationKeys : List String :=
  ["destination_rotation_key", "destination_identity_key", "destination_messaging_key"]

variable (platform : Platform)

/-- `serviceBaseForDomain`. -/
def serviceBaseForDomain (domain : String) : Except Fault String := do
  let canonical ← platform.canonicalizeHailAddress ("a@" ++ domain)
  if canonical ≠ "a@" ++ domain ∨ includes domain ":" ∨ includes domain "/" then
    .error (.error "Managed transfer destination domain is not canonical")
  else .ok ("https://" ++ domain ++ "/hail")

/-- The identity and the lifetime that every kind checks. -/
def managedIdentity (kind : ManagedKind) (value : Record) : Bool :=
  isText value "type" (· == kind.type) && isVersion1 value && isText value "did" didPattern &&
    isText value "nonce" uuidPattern && isSafeInteger value "issued_at" &&
    isSafeInteger value "expires_at" &&
    integerOf value "issued_at" < integerOf value "expires_at" &&
    integerOf value "expires_at" - integerOf value "issued_at" ≤ 3600

/-- The two providers of a kind that names them. -/
def managedProviders (value : Record) : Bool :=
  isText value "source_service_base" (validBase platform) &&
    isText value "destination_service_base" (validBase platform) &&
    textOf value "source_service_base" != textOf value "destination_service_base"

/-- The checks of one kind, after the common ones. -/
def validateManagedKind (kind : ManagedKind) (value : Record) : Except Fault Unit :=
  match kind with
  | .grant =>
    let message := "Invalid managed transfer authority"
    if !isText value "destination_domain" fun _ => true then .error (.error message)
    else do
      let base ← serviceBaseForDomain platform (textOf value "destination_domain")
      if base ≠ textOf value "destination_service_base" ∨
          !distinctKeys value ["owner_recovery_key", "source_identity_key"] then
        .error (.error message)
      else .ok ()
  | .acknowledgement =>
    if !isDigest value "grant_digest" || !isDidKey value "source_messaging_key" then
      .error (.error "Invalid managed source acknowledgement")
    else .ok ()
  | .offer =>
    if !isDigest value "acknowledgement_digest" || !distinctKeys value destinationKeys then
      .error (.error "Managed destination roles must be distinct DID keys")
    else .ok ()
  | .addressSelection =>
    let message := "Invalid managed transfer address selection"
    if !isDigest value "offer_digest" || !isText value "selection_nonce" uuidPattern then
      .error (.error message)
    else checkAddress platform value "address" message
  | .reservation =>
    let message := "Invalid managed transfer reservation"
    if !isDigest value "offer_digest" || !isDigest value "selection_digest" then
      .error (.error message)
    else do
      checkAddress platform value "address" message
      if !distinctKeys value destinationKeys then .error (.error message) else .ok ()
  | .fenceRequest =>
    let message := "Invalid managed transfer fence request"
    if !distinctKeys value (["owner_recovery_key", "source_identity_key"] ++ destinationKeys) ||
        !isDigest value "acknowledgement_digest" || !isDigest value "offer_digest" ||
        !isDigest value "selection_digest" || !isDigest value "reservation_digest" then
      .error (.error message)
    else checkAddress platform value "destination_address" message

/-- `validate` of a managed handshake. -/
def validateManaged (kind : ManagedKind) : Value → Except Fault Record
  | .map value =>
    if !fields value kind.fields then .error (.error "Invalid managed transfer fields")
    else if !managedIdentity kind value then
      .error (.error "Invalid managed transfer identity or lifetime")
    else if kind.hasBases ∧ !managedProviders platform value then
      .error (.error "Invalid managed transfer providers")
    else if kind.namesTransfer ∧ !isText value "transfer_id" uuidPattern then
      .error (.error "Invalid managed transfer linkage")
    else if kind.linksGrant ∧ !isDigest value "grant_digest" then
      .error (.error "Invalid managed transfer grant linkage")
    else do
      validateManagedKind platform kind value
      .ok value
  | _ => .error (.error "Invalid managed transfer fields")

/-- `decode`. -/
def decodeManaged (signed : SignedHandshake) (kind : ManagedKind) : Except Fault Record := do
  if signed.payloadBytes.length = 0 ∨ 8192 < signed.payloadBytes.length ∨
      signed.signature.length ≠ 64 then
    .error (.error "Managed transfer signature representation exceeds limit")
  else
    let decoded ← decodeDeterministic platform signed.payloadBytes
    let value ← validateManaged platform kind decoded
    let encoded ← encodeDeterministic platform (.map value)
    if encoded ≠ signed.payloadBytes then
      .error (.error "Managed transfer payload is not deterministic")
    else .ok value

/-- `managedHandshakeSignatureInput`. -/
def managedSignatureInput (kind : ManagedKind) (bytes : Bytes) : Bytes :=
  signatureInput (kind.type ++ ".v1") bytes

/-- `verifyManagedOwnerHandshake`; `verifySignature` is the ES256 verification of a signature over
a message under a key. -/
def verifyManagedOwnerHandshake (verifySignature : String → Bytes → Bytes → Except Fault Bool)
    (kind : ManagedKind) (signed : SignedHandshake) (ownerRecoveryKey : String) :
    Except Fault Record := do
  let value ← decodeManaged platform signed kind
  let message := "Managed transfer owner signature is invalid"
  if (value.get "owner_recovery_key").isSome ∧
      textOf value "owner_recovery_key" ≠ ownerRecoveryKey then .error (.error message)
  else
    let valid ← verifySignature ownerRecoveryKey
      (managedSignatureInput kind signed.payloadBytes) signed.signature
    if !valid then .error (.error message) else .ok value

/-- The member that names the key of a provider's record. -/
def ManagedKind.claimedKey : ManagedKind → String
  | .acknowledgement => "source_messaging_key"
  | .grant | .offer | .addressSelection | .reservation | .fenceRequest =>
    "destination_messaging_key"

/-- `verifyManagedProviderHandshake`. -/
def verifyManagedProviderHandshake (kind : ManagedKind) (signed : SignedHandshake)
    (publicKey : String) : Except Fault Record := do
  let value ← decodeManaged platform signed kind
  let message := "Managed transfer provider signature is invalid"
  if textOf value kind.claimedKey ≠ publicKey then .error (.error message)
  else
    let key ← platform.ed25519PublicKey publicKey
    if !platform.verify key signed.signature
        (managedSignatureInput kind signed.payloadBytes) then .error (.error message)
    else .ok value

/-- `signManagedProviderHandshake`. -/
def signManagedProviderHandshake (kind : ManagedKind) (value : Record) (sign : Bytes → Bytes) :
    Except Fault SignedHandshake := do
  let value ← validateManaged platform kind (.map value)
  let payloadBytes ← encodeDeterministic platform (.map value)
  .ok ⟨payloadBytes, sign (managedSignatureInput kind payloadBytes)⟩

end HailProto.Migration
