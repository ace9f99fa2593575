import HailProto.Server.Basic
import HailProto.Codec.Decoder

/-!
# The signed records of a transfer

`handshake.ts` and `activation-receipt.ts`: the records that the owner and the two providers sign
before a provider fences an account, and the receipt with which the destination retires it. A
record is accepted when it has exactly the fields of its kind, is its own deterministic encoding
and carries a signature under its context.
-/

namespace HailProto.Migration

open Server Codec
open Cbor (Value maxSafe)

/-- `SignedHandshake`, also `SignedActivationReceipt`. -/
structure SignedHandshake where
  payloadBytes : Bytes
  signature : Bytes
  deriving DecidableEq

/-- The kinds of handshake. -/
inductive Kind
  | grant
  | invitation
  | offer
  | addressSelection
  | reservation
  | request
  | cancellation
  | cancellationReceipt
  deriving DecidableEq

def Kind.type : Kind → String
  | .grant => "hail.transfer-grant"
  | .invitation => "hail.transfer-invitation"
  | .offer => "hail.transfer-offer"
  | .addressSelection => "hail.transfer-address-selection"
  | .reservation => "hail.transfer-reservation"
  | .request => "hail.transfer-request"
  | .cancellation => "hail.transfer-cancellation"
  | .cancellationReceipt => "hail.transfer-cancellation-receipt"

/-- The kinds that carry both service bases. -/
def Kind.hasBases : Kind → Bool
  | .grant | .invitation | .offer | .request => true
  | .addressSelection | .reservation | .cancellation | .cancellationReceipt => false

/-- `extra`: the fields of a kind beside the common ones. -/
def Kind.extra : Kind → List String
  | .grant => ["issued_at", "destination_domain"]
  | .invitation => ["grant_digest", "challenge"]
  | .cancellation => ["grant_digest", "issued_at"]
  | .cancellationReceipt =>
    ["grant_digest", "invitation_digest", "destination_domain", "source_service_base",
      "issued_at"]
  | .addressSelection =>
    ["transfer_id", "grant_digest", "offer_digest", "address", "selection_nonce", "issued_at"]
  | .reservation => ["transfer_id", "offer_digest", "selection_digest", "address", "issued_at"]
  | .offer =>
    ["transfer_id", "grant_digest", "invitation_digest", "invitation_challenge",
      "destination_rotation_key", "destination_messaging_key", "issued_at"]
  | .request =>
    ["transfer_id", "grant_digest", "invitation_digest", "invitation_challenge",
      "destination_rotation_key", "destination_messaging_key", "issued_at", "offer_digest",
      "destination_address", "selection_digest", "reservation_digest"]

/-- `fieldsForKind`. -/
def Kind.fields (kind : Kind) : List String :=
  if kind.hasBases then
    ["type", "version", "did", "nonce", "source_service_base", "destination_service_base",
      "expires_at"] ++ kind.extra
  else ["type", "version", "did", "nonce", "expires_at"] ++ kind.extra

/-- What the transfer calls outside the server: the CBOR library, hashing, Ed25519, URLs and
domain names. -/
structure Platform where
  cborg : TypeScript.Cborg
  sha256 : Bytes → Bytes
  sha256_length : ∀ bytes, (sha256 bytes).length = 32
  /-- `ed25519PublicKeyFromDidKey`. -/
  ed25519PublicKey : String → Except Fault Bytes
  /-- Verification under a key, of a signature, over a message. -/
  verify : Bytes → Bytes → Bytes → Bool
  canonicalizeHailServiceBase : String → Except Fault String
  canonicalizeHailAddress : String → Except Fault String
  /-- `new URL(input).hostname`. -/
  hostname : String → String

/-- `^[0-9a-f]{8}-(?:[0-9a-f]{4}-){3}[0-9a-f]{12}$`. -/
def uuidPattern (s : String) : Bool :=
  matchesShape (List.replicate 8 isHex ++ [(· == '-')] ++
    (List.replicate 3 (List.replicate 4 isHex ++ [(· == '-')])).flatten ++
    List.replicate 12 isHex) s.toList

/-- `^[0-9a-f-]{36}$`. -/
def hyphenatedPattern (s : String) : Bool :=
  matchesShape (List.replicate 36 fun c => isHex c || c == '-') s.toList

/-- `typeof value[key] === "string" && condition(value[key])`. -/
def isText (value : Record) (key : String) (condition : String → Bool) : Bool :=
  match value.get key with
  | some (.text s) => condition s
  | _ => false

/-- `Number.isSafeInteger(value[key])`. -/
def isSafeInteger (value : Record) (key : String) : Bool :=
  match value.get key with
  | some (.int n) => n.natAbs ≤ maxSafe
  | _ => false

/-- `value.version === 1`. -/
def isVersion1 (value : Record) : Bool :=
  match value.get "version" with
  | some (.int n) => n == 1
  | _ => false

/-- `digest(value[key])`. -/
def isDigest (value : Record) (key : String) : Bool :=
  match value.get key with
  | some (.bytes b) => b.length == 32
  | _ => false

/-- A text member of a validated record. -/
def textOf (value : Record) (key : String) : String :=
  match value.get key with
  | some (.text s) => s
  | _ => ""

def integerOf (value : Record) (key : String) : Int :=
  match value.get key with
  | some (.int n) => n
  | _ => 0

def bytesOf (value : Record) (key : String) : Bytes :=
  match value.get key with
  | some (.bytes b) => b
  | _ => []

/-- `fields(value, names)`: exactly these members. -/
def fields (value : Record) (names : List String) : Bool :=
  value.length == names.length && names.all fun name => (value.get name).isSome

/-- What `decodeDeterministic` raises reaches the caller as an error. -/
def codecFault (e : TypeScript.HailCodecError) : Fault := .error e.message

variable (platform : Platform)

def decodeDeterministic (bytes : Bytes) : Except Fault Value :=
  (TypeScript.decodeDeterministic platform.cborg bytes defaultResourceLimits).mapError codecFault

def encodeDeterministic (value : Value) : Except Fault Bytes :=
  (TypeScript.encodeDeterministic platform.cborg value defaultResourceLimits).mapError codecFault

/-- `validBase`. -/
def validBase (input : String) : Bool :=
  decide (platform.canonicalizeHailServiceBase input = .ok input)

def serviceBaseForProviderDomain (domain : String) : Except Fault String := do
  let canonical ← platform.canonicalizeHailAddress ("a@" ++ domain)
  if canonical ≠ "a@" ++ domain ∨ includes domain ":" ∨ includes domain "/" then
    .error (.error "Provider domain is not canonical")
  else .ok ("https://" ++ domain ++ "/hail")

/-- The address member is its own canonical form. -/
def checkAddress (value : Record) (key message : String) : Except Fault Unit :=
  match value.get key with
  | some (.text address) => do
      let canonical ← platform.canonicalizeHailAddress address
      if canonical ≠ address then .error (.error message) else .ok ()
  | _ => .error (.error message)

/-- The longest life of an issued record, in seconds. -/
def Kind.maximumAge : Kind → Int
  | .cancellationReceipt => 7 * 86400
  | _ => 3600

/-- The fields every kind checks. -/
def commonFields (kind : Kind) (value : Record) : Bool :=
  fields value kind.fields && isText value "type" (· == kind.type) &&
    isVersion1 value && isText value "did" didPattern &&
    isText value "nonce" uuidPattern &&
    (!kind.hasBases || isText value "source_service_base" (validBase platform) &&
      isText value "destination_service_base" (validBase platform) &&
      textOf value "source_service_base" != textOf value "destination_service_base") &&
    isSafeInteger value "expires_at"

/-- An issued record expires after it is issued, and soon. -/
def shortLived (kind : Kind) (value : Record) : Bool :=
  isSafeInteger value "issued_at" && integerOf value "issued_at" < integerOf value "expires_at" &&
    integerOf value "expires_at" - integerOf value "issued_at" ≤ kind.maximumAge

/-- The destination that an offer and a request name. -/
def namesDestination (value : Record) : Bool :=
  isText value "transfer_id" uuidPattern && isDigest value "invitation_digest" &&
    isDigest value "invitation_challenge" &&
    isText value "destination_rotation_key" (·.startsWith "did:key:z") &&
    isText value "destination_messaging_key" (·.startsWith "did:key:z") &&
    textOf value "destination_rotation_key" != textOf value "destination_messaging_key"

/-- The transfer that an address selection and a reservation name. -/
def namesTransfer (kind : Kind) (value : Record) : Bool :=
  isText value "transfer_id" uuidPattern && isDigest value "offer_digest" &&
    (kind != .addressSelection ||
      isDigest value "grant_digest" && isText value "selection_nonce" uuidPattern) &&
    (kind != .reservation || isDigest value "selection_digest")

/-- The checks of one kind, after the common ones. -/
def validateKind (kind : Kind) (value : Record) : Except Fault Unit :=
  match kind with
  | .grant =>
    if !isText value "destination_domain" fun _ => true then
      .error (.error "Transfer grant does not match the destination provider domain")
    else do
      let base ← serviceBaseForProviderDomain platform (textOf value "destination_domain")
      if base ≠ textOf value "destination_service_base" then
        .error (.error "Transfer grant does not match the destination provider domain")
      else .ok ()
  | .invitation =>
    if !isDigest value "challenge" then .error (.error "Missing invitation challenge")
    else .ok ()
  | .offer =>
    if !namesDestination value then .error (.error "Invalid destination transfer request")
    else .ok ()
  | .request =>
    let message := "Final transfer request lacks the user-selected address"
    if !namesDestination value then .error (.error "Invalid destination transfer request")
    else if !isDigest value "offer_digest" || !isDigest value "selection_digest" ||
        !isDigest value "reservation_digest" then .error (.error message)
    else checkAddress platform value "destination_address" message
  | .addressSelection | .reservation =>
    let message := "Invalid transfer address selection or reservation"
    if !namesTransfer kind value then .error (.error message)
    else checkAddress platform value "address" message
  | .cancellation => .ok ()
  | .cancellationReceipt =>
    let message := "Invalid source cancellation receipt"
    if !isDigest value "invitation_digest" || !isText value "destination_domain" (fun _ => true) ||
        !isText value "source_service_base" (validBase platform) then .error (.error message)
    else do
      let base ← serviceBaseForProviderDomain platform (textOf value "destination_domain")
      if base = textOf value "source_service_base" then .error (.error message) else .ok ()

/-- `validate`. -/
def validate (kind : Kind) : Value → Except Fault Record
  | .map value =>
    if !commonFields platform kind value then
      .error (.error "Invalid transfer handshake fields")
    else if kind ≠ .invitation ∧ ¬shortLived kind value then
      .error (.error "Transfer authorization must be short-lived")
    else if kind ≠ .grant ∧ kind ≠ .reservation ∧ !isDigest value "grant_digest" then
      .error (.error "Missing grant digest")
    else do
      validateKind platform kind value
      .ok value
  | _ => .error (.error "Invalid transfer handshake fields")

/-- `new TextEncoder().encode(context + "\0")` before the payload. -/
def signatureInput (context : String) (bytes : Bytes) : Bytes := Cbor.asBytes context ++ 0 :: bytes

/-- `verifyHandshake`. -/
def verifyHandshake (kind : Kind) (signed : SignedHandshake) (publicKey : String) :
    Except Fault Record := do
  if 4096 < signed.payloadBytes.length ∨ signed.payloadBytes.length = 0 ∨
      signed.signature.length ≠ 64 then
    .error (.error "Transfer signature representation exceeds limit")
  else
    let decoded ← decodeDeterministic platform signed.payloadBytes
    let value ← validate platform kind decoded
    let encoded ← encodeDeterministic platform (.map value)
    if encoded ≠ signed.payloadBytes then
      .error (.error "Transfer handshake signature is invalid")
    else
      let key ← platform.ed25519PublicKey publicKey
      if !platform.verify key signed.signature
          (signatureInput (kind.type ++ ".v1") signed.payloadBytes) then
        .error (.error "Transfer handshake signature is invalid")
      else .ok value

/-- The fields of `TransferGrant` that a fence reads. -/
structure TransferGrant where
  did : Did
  nonce : Uuid
  sourceServiceBase : String
  destinationServiceBase : String
  destinationDomain : String
  expiresAt : Int

def TransferGrant.of (value : Record) : TransferGrant where
  did := textOf value "did"
  nonce := textOf value "nonce"
  sourceServiceBase := textOf value "source_service_base"
  destinationServiceBase := textOf value "destination_service_base"
  destinationDomain := textOf value "destination_domain"
  expiresAt := integerOf value "expires_at"

structure TransferInvitation where
  did : Did
  nonce : Uuid
  sourceServiceBase : String
  destinationServiceBase : String
  grantDigest : Bytes
  challenge : Bytes
  expiresAt : Int

def TransferInvitation.of (value : Record) : TransferInvitation where
  did := textOf value "did"
  nonce := textOf value "nonce"
  sourceServiceBase := textOf value "source_service_base"
  destinationServiceBase := textOf value "destination_service_base"
  grantDigest := bytesOf value "grant_digest"
  challenge := bytesOf value "challenge"
  expiresAt := integerOf value "expires_at"

structure TransferOffer where
  did : Did
  nonce : Uuid
  transferId : Uuid
  sourceServiceBase : String
  destinationServiceBase : String
  grantDigest : Bytes
  invitationDigest : Bytes
  invitationChallenge : Bytes
  destinationRotationKey : String
  destinationMessagingKey : String
  issuedAt : Int
  expiresAt : Int

def TransferOffer.of (value : Record) : TransferOffer where
  did := textOf value "did"
  nonce := textOf value "nonce"
  transferId := textOf value "transfer_id"
  sourceServiceBase := textOf value "source_service_base"
  destinationServiceBase := textOf value "destination_service_base"
  grantDigest := bytesOf value "grant_digest"
  invitationDigest := bytesOf value "invitation_digest"
  invitationChallenge := bytesOf value "invitation_challenge"
  destinationRotationKey := textOf value "destination_rotation_key"
  destinationMessagingKey := textOf value "destination_messaging_key"
  issuedAt := integerOf value "issued_at"
  expiresAt := integerOf value "expires_at"

structure TransferAddressSelection where
  did : Did
  nonce : Uuid
  transferId : Uuid
  grantDigest : Bytes
  offerDigest : Bytes
  address : String
  issuedAt : Int
  expiresAt : Int

def TransferAddressSelection.of (value : Record) : TransferAddressSelection where
  did := textOf value "did"
  nonce := textOf value "nonce"
  transferId := textOf value "transfer_id"
  grantDigest := bytesOf value "grant_digest"
  offerDigest := bytesOf value "offer_digest"
  address := textOf value "address"
  issuedAt := integerOf value "issued_at"
  expiresAt := integerOf value "expires_at"

structure TransferReservation where
  did : Did
  nonce : Uuid
  transferId : Uuid
  offerDigest : Bytes
  selectionDigest : Bytes
  address : String
  expiresAt : Int

def TransferReservation.of (value : Record) : TransferReservation where
  did := textOf value "did"
  nonce := textOf value "nonce"
  transferId := textOf value "transfer_id"
  offerDigest := bytesOf value "offer_digest"
  selectionDigest := bytesOf value "selection_digest"
  address := textOf value "address"
  expiresAt := integerOf value "expires_at"

/-- A request is an offer for a selected and reserved address. -/
structure TransferRequest extends TransferOffer where
  offerDigest : Bytes
  destinationAddress : String
  selectionDigest : Bytes
  reservationDigest : Bytes

def TransferRequest.of (value : Record) : TransferRequest where
  toTransferOffer := .of value
  offerDigest := bytesOf value "offer_digest"
  destinationAddress := textOf value "destination_address"
  selectionDigest := bytesOf value "selection_digest"
  reservationDigest := bytesOf value "reservation_digest"

/-- `MigrationActivationReceipt`, as far as a fence reads it. -/
structure MigrationActivationReceipt where
  did : Did
  transferId : Uuid
  snapshotDigest : Bytes
  destinationServiceBase : String
  destinationMessagingKey : String
  activatedAt : Int
  deriving DecidableEq

def MigrationActivationReceipt.of (value : Record) : MigrationActivationReceipt where
  did := textOf value "did"
  transferId := textOf value "transfer_id"
  snapshotDigest := bytesOf value "snapshot_digest"
  destinationServiceBase := textOf value "destination_service_base"
  destinationMessagingKey := textOf value "destination_messaging_key"
  activatedAt := integerOf value "activated_at"

/-- `assertReceipt`. -/
def assertReceipt : Value → Except Fault Record
  | .map row =>
    if !fields row ["type", "version", "did", "transfer_id", "snapshot_digest",
        "destination_service_base", "destination_messaging_key", "destination_address",
        "address_binding_digest", "activated_at"] ||
      !isText row "type" (· == "hail.portable-migration-activated") ||
      !isVersion1 row || !isText row "did" didPattern ||
      !isText row "transfer_id" hyphenatedPattern || !isDigest row "snapshot_digest" ||
      !isText row "destination_service_base" (fun _ => true) ||
      !isText row "destination_messaging_key" (fun _ => true) ||
      !isText row "destination_address" (fun _ => true) ||
      !isDigest row "address_binding_digest" || !isSafeInteger row "activated_at" then
      .error (.error "Invalid activation receipt fields")
    else .ok row
  | _ => .error (.error "Invalid activation receipt")

/-- `verifyActivationReceipt`. -/
def verifyActivationReceipt (signed : SignedHandshake) (currentMessagingDidKey : String)
    (now : Int) : Except Fault MigrationActivationReceipt := do
  if signed.payloadBytes.length < 1 ∨ 16384 < signed.payloadBytes.length ∨
      signed.signature.length ≠ 64 then
    .error (.error "Activation receipt representation exceeds its limit")
  else
    let decoded ← decodeDeterministic platform signed.payloadBytes
    let row ← assertReceipt decoded
    let payload := MigrationActivationReceipt.of row
    let encoded ← encodeDeterministic platform (.map row)
    if payload.destinationMessagingKey ≠ currentMessagingDidKey ∨ now + 300 < payload.activatedAt ∨
        encoded ≠ signed.payloadBytes then
      .error (.error "Activation receipt does not match current destination authority")
    else
      let key ← platform.ed25519PublicKey currentMessagingDidKey
      if !platform.verify key signed.signature
          (signatureInput "hail.portable-migration-activated.v1" signed.payloadBytes) then
        .error (.error "Activation receipt signature is invalid")
      else .ok payload

end HailProto.Migration
