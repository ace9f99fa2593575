import HailProto.Core.Selection
import HailProto.Codec.Base64Url
import HailProto.Codec.Text
import HailProto.Migration.Handshake

/-!
# Tables of the account ceremonies

The tables of `0034`, `0037`, `0054`, `0055`, `0056` and `0058` that passkeys, browser
authorizations and owner-key logins read and write. Times are in milliseconds. The accounts and
what the libraries answer are read anew at every step of a call.
-/

namespace HailProto.Access

open Server
open Migration (uuidPattern)

/-- `AccountApiScope`. -/
inductive Scope
  | accountRead
  | grantsRead
  | grantsWrite
  | credentialsWrite
  | messagesRead
  | messagesWrite
  | accountWrite
  deriving DecidableEq

def Scope.text : Scope → String
  | .accountRead => "account:read"
  | .grantsRead => "grants:read"
  | .grantsWrite => "grants:write"
  | .credentialsWrite => "credentials:write"
  | .messagesRead => "messages:read"
  | .messagesWrite => "messages:write"
  | .accountWrite => "account:write"

/-- `ALL_ACCOUNT_SCOPES`. -/
def allAccountScopes : List Scope :=
  [.accountRead, .grantsRead, .grantsWrite, .credentialsWrite, .messagesRead, .messagesWrite,
    .accountWrite]

/-- `SESSION_SCOPES`. -/
def sessionScopes : List Scope := [.accountRead, .grantsRead, .messagesRead, .messagesWrite]

/-- `BROWSER_SCOPES`. -/
def browserScopes : List Scope := sessionScopes

/-- The scopes of a list that the texts name, in the order of the list. -/
def selectScopes (scopes : List Scope) (requested : List String) : List Scope :=
  scopes.filter fun scope => requested.contains scope.text

def minute : Int := 60 * 1000

def day : Int := 24 * 60 * minute

/-! ### Rows -/

inductive Purpose
  | registration
  | authentication
  deriving DecidableEq

/-- A row of `account_passkey_challenges`. -/
structure PasskeyChallenge where
  challenge : String
  purpose : Purpose
  accountId : Option Uuid
  servingGeneration : Option Nat
  expiresAt : Int
  enrollmentCapabilityId : Option Uuid
  deriving DecidableEq

/-- A row of `account_passkeys`, under its credential ID. -/
structure Passkey where
  accountId : Uuid
  servingGeneration : Nat
  publicKey : Bytes
  signatureCounter : Nat
  deviceType : String
  backedUp : Bool
  transports : List String
  label : String
  lastUsedAt : Option Int
  revokedAt : Option Int
  deriving DecidableEq

/-- A row of `account_passkey_sessions`. -/
structure PasskeySession where
  tokenHash : Bytes
  accountId : Uuid
  credentialId : String
  servingGeneration : Nat
  scopes : List Scope
  expiresAt : Int
  revokedAt : Option Int
  deriving DecidableEq

/-- A row of `account_passkey_enrollment_capabilities`; `consumed_at` goes with the passkey. -/
structure EnrollmentCapability where
  tokenHash : Bytes
  accountId : Uuid
  servingGeneration : Nat
  expiresAt : Int
  credentialId : Option String
  deriving DecidableEq

/-- A row of `account_browser_authorizations`. The account and the generation are set when it is
completed, and `exchanged_at` goes with the credential. -/
structure BrowserAuthorization where
  clientId : String
  redirectUri : String
  state : String
  codeHash : Bytes
  codeChallenge : String
  scopes : List Scope
  expiresAt : Int
  completed : Option (Uuid × Nat)
  credentialId : Option Uuid
  deriving DecidableEq

/-- A row of `account_api_credentials` with the generation it was bound to. -/
structure ApiCredential where
  accountId : Uuid
  tokenHash : Bytes
  scopes : List Scope
  expiresAt : Int
  revokedAt : Option Int
  generation : Option Nat
  deriving DecidableEq

inductive AccessPurpose
  | newApiCredential
  | passkeyEnrollment
  deriving DecidableEq

inductive Signer
  | identity
  | ownerRecovery
  deriving DecidableEq

/-- `Challenge`: what an owner key signs; its times are in seconds. -/
structure Challenge where
  purpose : AccessPurpose
  challengeId : Uuid
  provider : String
  accountId : Uuid
  did : Did
  signer : Signer
  publicKey : String
  scopes : List Scope
  tokenHash : String
  nonce : String
  issuedAt : Int
  expiresAt : Int
  deriving DecidableEq

/-- A row of `account_access_challenges` with the generation it was bound to. -/
structure AccessChallenge where
  tokenHash : Bytes
  payload : Challenge
  expiresAt : Int
  completionHash : Option Bytes
  credentialId : Option Uuid
  enrollmentCapabilityId : Option Uuid
  generation : Nat
  deriving DecidableEq

/-- What a ceremony of `account_signup_ceremonies` holds of its enrollment. -/
structure SignupEnrollment where
  accountId : Uuid
  enrollmentCapabilityId : Uuid
  enrollmentGeneration : Nat
  /-- `enrolled_at` and `enrolled_credential_id`. -/
  enrolled : Option (Int × String)
  deriving DecidableEq

structure Tables where
  passkeyChallenges : Table Uuid PasskeyChallenge
  passkeys : Table String Passkey
  sessions : Table Uuid PasskeySession
  capabilities : Table Uuid EnrollmentCapability
  authorizations : Table Uuid BrowserAuthorization
  credentials : Table Uuid ApiCredential
  accessChallenges : Table Uuid AccessChallenge
  signups : Table Uuid SignupEnrollment

def Tables.empty : Tables := ⟨∅, ∅, ∅, ∅, ∅, ∅, ∅, ∅⟩

/-! ### What a step is answered -/

/-- An account with its serving generation and whether it is fenced. -/
structure AccountView where
  did : Option Did
  canonicalAddress : String
  active : Bool
  closed : Bool
  fenced : Bool
  generation : Option Nat
  deriving DecidableEq

/-- The owner's keys of an account in portable or managed custody. -/
structure CustodyEvidence where
  recovery : String
  identity : String
  deriving DecidableEq

inductive KeyRole
  | hailIdentity
  | hailMessaging
  | plcRotation
  deriving DecidableEq

/-- What a DID resolves to. -/
structure Resolution where
  did : Did
  serviceBase : String
  identityDidKey : String
  messagingDidKey : String
  rotationKeys : Option (List String)
  deriving DecidableEq

/-- What a step reads outside the tables. Where a transaction reads the clock or the signal more
than once, the readings are numbered. -/
structure Answers where
  /-- `now()`. -/
  now : Int
  /-- `clock_timestamp()`. -/
  clock : Nat → Int
  /-- `Date.now()`. -/
  host : Int
  /-- `randomUUID()`. -/
  uuid : Uuid
  /-- A second one, for the account that an unknown DID is given. -/
  unknown : Uuid
  /-- Random bytes in base64url: a challenge, a nonce or a token. -/
  random : String
  accounts : Uuid → Option AccountView
  /-- The account with the DID. -/
  accountOf : Did → Option Uuid
  /-- What `hail_assert_unfenced_account` raises. -/
  refusal : Uuid → Option Fault
  portable : Uuid → Option CustodyEvidence
  managed : Uuid → Option CustodyEvidence
  keys : Uuid → List (KeyRole × String)
  resolve : Did → Option Resolution
  /-- `signal.aborted`. -/
  aborted : Nat → Bool

/-- A passkey as an authenticator reports it. -/
structure RegistrationInfo where
  credentialId : String
  publicKey : Bytes
  counter : Nat
  transports : List String
  deviceType : String
  backedUp : Bool
  deriving DecidableEq

/-- A response of an authenticator: the ID it names, and the rest as one text. -/
structure AuthenticatorResponse where
  id : String
  content : String
  deriving DecidableEq

structure AuthenticationInfo where
  newCounter : Nat
  backedUp : Bool
  deriving DecidableEq

/-- `new URL(value)`; the port is zero where the URL has none. -/
structure Url where
  protocol : String
  hostname : String
  pathname : String
  username : String
  password : String
  search : String
  hash : String
  port : Nat
  deriving DecidableEq

/-- The libraries and the configuration of a provider. -/
structure Platform where
  /-- SHA-256. -/
  digest : Bytes → Bytes
  parseUrl : String → Option Url
  /-- `verifyRegistrationResponse`, against an expected challenge. -/
  verifyRegistration : AuthenticatorResponse → String → Option RegistrationInfo
  /-- `verifyAuthenticationResponse`, against an expected challenge and a passkey. -/
  verifyAuthentication : AuthenticatorResponse → String → String → Passkey →
    Option AuthenticationInfo
  /-- The owner key signed the challenge. -/
  verifyOwner : Challenge → Bytes → Bool
  /-- `PasskeyAuth.origin`. -/
  origin : String
  /-- `AccountAccess.provider`. -/
  provider : String
  absoluteSeconds : Nat

/-- `tokenHash`. -/
def Platform.tokenHash (platform : Platform) (token : String) : Bytes :=
  platform.digest (Cbor.asBytes token)

/-- The session of a request. -/
structure AccountApiSession where
  accountId : Uuid
  scopes : List Scope
  canonicalAddress : String
  servingGeneration : Option Nat
  passkeyCredentialId : Option String
  passkeyVerifiedAt : Option Int
  deriving DecidableEq

/-- `session.serving_generation ?? 1`. -/
def AccountApiSession.generation (session : AccountApiSession) : Nat :=
  session.servingGeneration.getD 1

/-! ### Failures and texts -/

/-- What a call throws: a `PasskeyError`, another error, or an error of the database. -/
inductive Failure
  | passkey (status : Nat)
  | fault (fault : Fault)
  deriving DecidableEq

def Failure.error (message : String) : Failure := .fault (.error message)

/-- `uniqueConflict` in a `catch`: a duplicate key is answered with 409. -/
def answerConflict {α : Type} : Except Failure α → Except Failure α
  | .error (.fault ⟨some "23505", _⟩) => .error (.passkey 409)
  | result => result

/-- `INSERT`: the key and the unique columns must be free. -/
def insertRow {κ ρ : Type} [DecidableEq κ] (t : Table κ ρ) (constraint : String)
    (clash : ρ → ρ → Bool) (key : κ) (row : ρ) : Except Failure (Table κ ρ) :=
  match t.insertUnique clash key row with
  | some u => .ok u
  | none => .error (.fault (.uniqueViolation constraint))

def isBase64UrlChar (c : Char) : Bool := c.isAlphanum || c == '_' || c == '-'

/-- `^[A-Za-z0-9_-]{length}$`, after a prefix. -/
def base64UrlPattern (head : String) (length : Nat) (s : String) : Bool :=
  head.toList.isPrefixOf s.toList && (s.toList.drop head.length).length == length &&
    (s.toList.drop head.length).all isBase64UrlChar

/-- `ID`. -/
def idPattern (s : String) : Bool :=
  decide (1 ≤ s.toList.length ∧ s.toList.length ≤ 1366) && s.toList.all isBase64UrlChar

/-- What `trim` removes. -/
def isTrimmed (c : Char) : Bool :=
  decide (c.toNat ∈ [9, 10, 11, 12, 13, 32, 0xa0, 0x1680, 0x2028, 0x2029, 0x202f, 0x205f, 0x3000,
    0xfeff]) || decide (0x2000 ≤ c.toNat ∧ c.toNat ≤ 0x200a)

/-- `label.trim()`. -/
def trim (label : String) : String :=
  String.ofList (((label.toList.dropWhile isTrimmed).reverse.dropWhile isTrimmed).reverse)

/-- The label is not blank, and not longer than eighty code units. -/
def labelAccepted (label : String) : Bool :=
  decide ((trim label) ≠ "" ∧ (Codec.utf16 (trim label)).length ≤ 80)

end HailProto.Access
