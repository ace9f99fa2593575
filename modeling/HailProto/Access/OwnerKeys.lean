import HailProto.Access.Passkeys

/-!
# Logins with an owner key

`access.ts`: a client prepares a challenge for a token that it chose, the owner signs it, and the
completion issues an API credential or an enrollment capability for that token.
-/

namespace HailProto.Access

open Server Codec
open Migration (uuidPattern)

variable (platform : Platform) (w : Answers) (s : Tables)

/-- The input of `prepare`, with exactly its keys. -/
structure AccessRequest where
  did : Did
  signer : Signer
  publicKey : String
  scopes : List String
  tokenHash : String
  purpose : Option AccessPurpose
  deriving DecidableEq

def AccessRequest.purposeOrDefault (input : AccessRequest) : AccessPurpose :=
  input.purpose.getD .newApiCredential

/-- The scopes of a request, in the order of all scopes. -/
def AccessRequest.selected (input : AccessRequest) : List Scope :=
  selectScopes allAccountScopes input.scopes

/-- `^did:key:z[1-9A-HJ-NP-Za-km-z]+$`, at most 256 long. -/
def didKeyPattern (s : String) : Bool :=
  decide (s.toList.length ≤ 256) && "did:key:z".toList.isPrefixOf s.toList &&
    decide (9 < s.toList.length) &&
    (s.toList.drop 9).all fun c => c.isAlphanum && c != '0' && c != 'I' && c != 'O' && c != 'l'

/-- The token hash of a request: 32 bytes in canonical base64url. -/
def accessToken (input : AccessRequest) : Except Failure Bytes := do
  if !didPattern input.did || !didKeyPattern input.publicKey ||
      !base64UrlPattern "" 43 input.tokenHash || input.scopes.isEmpty ||
      !decide input.scopes.Nodup ||
      input.scopes.any (fun text => !(allAccountScopes.map Scope.text).contains text) then
    .error (.error "Invalid account-access request")
  else
    match decodeBase64Url input.tokenHash.toList with
    | none => .error (.error "Invalid base64url")
    | some token =>
      if token.length ≠ 32 ∨ String.ofList (encodeBase64Url token) ≠ input.tokenHash then
        .error (.error "Invalid token hash")
      else if input.purposeOrDefault = .passkeyEnrollment ∧
          input.selected ≠ [.credentialsWrite] then
        .error (.error "Invalid enrollment authority")
      else .ok token

/-- The challenge carries what was requested. -/
def Challenge.Requests (challenge : Challenge) (input : AccessRequest) : Prop :=
  challenge.did = input.did ∧ challenge.publicKey = input.publicKey ∧
    challenge.signer = input.signer ∧ challenge.purpose = input.purposeOrDefault ∧
    challenge.scopes = input.selected

instance (challenge : Challenge) (input : AccessRequest) :
    Decidable (challenge.Requests input) := inferInstanceAs (Decidable (_ ∧ _))

/-- `DELETE FROM account_access_challenges WHERE expires_at<clock_timestamp()-interval '1 day'`. -/
def deleteStaleAccess : Tables :=
  { s with
    accessChallenges := s.accessChallenges.deleteWhere fun _ row =>
      decide (row.expiresAt < w.clock 0 - day) }

/-- The challenge that a request is given. -/
def newChallenge (input : AccessRequest) : Challenge :=
  let issuedAt := w.host / 1000
  ⟨input.purposeOrDefault, w.uuid, platform.provider, (w.accountOf input.did).getD w.unknown,
    input.did, input.signer, input.publicKey, input.selected, input.tokenHash, w.random, issuedAt,
    issuedAt + 300⟩

/-- The row of a new challenge, which its trigger binds to the generation of its account. -/
def newAccessRow (token : Bytes) (challenge : Challenge) : AccessChallenge :=
  let generation := (w.accounts challenge.accountId).bind AccountView.generation
  ⟨token, challenge, challenge.expiresAt * 1000, none, none, none, generation.getD 1⟩

/-- The transaction of `prepare`. -/
def accessPrepare (input : AccessRequest) : Except Failure (Tables × Challenge) := do
  let token ← accessToken input
  let s := deleteStaleAccess w s
  let prior := s.accessChallenges.select fun _ row =>
    row.tokenHash == token && decide (w.clock 1 < row.expiresAt)
  match prior with
  | some (_, row) =>
    if row.payload.provider ≠ platform.provider ∨ ¬row.payload.Requests input then
      .error (.error "Changed login request")
    else .ok (s, row.payload)
  | none =>
    if s.accessChallenges.any (fun _ row => row.tokenHash == token) || tokenUsed s token ||
        s.capabilities.any (fun _ row => row.tokenHash == token) ||
        decide (4096 ≤ s.accessChallenges.rows.length) then
      .error (.error "Login request unavailable")
    else do
      let challenge := newChallenge platform w input
      let row := newAccessRow w token challenge
      if ¬(w.clock 2 < row.expiresAt ∧ row.expiresAt ≤ w.clock 2 + 5 * minute) then
        .error (.fault (.checkViolation "account_access_challenges_check"))
      else do
        let challenges ← insertRow s.accessChallenges "account_access_challenges_token_hash_key"
          (fun row other => row.tokenHash == other.tokenHash) challenge.challengeId row
        .ok ({ s with accessChallenges := challenges }, challenge)

/-! ### Completion -/

/-- What `complete` carries to its transaction. -/
structure AccessProof where
  id : Uuid
  token : String
  challenge : Challenge
  /-- The digest of the signature. -/
  completionHash : Bytes
  deriving DecidableEq

/-- `complete`, up to its transaction: the owner signed the challenge. -/
def accessComplete (id : Uuid) (token encodedSignature : String) : Except Failure AccessProof := do
  if !uuidPattern id || !base64UrlPattern "racr_" 43 token ||
      !base64UrlPattern "" 86 encodedSignature then .error (.error "Invalid login proof")
  else
    match decodeBase64Url encodedSignature.toList with
    | none => .error (.error "Invalid base64url")
    | some signature =>
      if signature.length ≠ 64 then .error (.error "Invalid login signature")
      else
        match s.accessChallenges.find id with
        | none => .error (.error "Login challenge unavailable")
        | some row =>
          if row.tokenHash ≠ platform.tokenHash token ∨ row.expiresAt ≤ w.clock 0 then
            .error (.error "Login challenge unavailable")
          else if row.payload.provider ≠ platform.provider then
            .error (.error "Challenge belongs to another provider")
          else if !platform.verifyOwner row.payload signature then
            .error (.error "Invalid owner proof")
          else .ok ⟨id, token, row.payload, platform.digest signature⟩

/-- The owner's keys, from exactly one kind of custody, and independent of the provider's. -/
def independentOwner (challenge : Challenge) : Except Failure CustodyEvidence :=
  let owner := w.portable challenge.accountId
  let managed := w.managed challenge.accountId
  let keys := w.keys challenge.accountId
  match owner.or managed with
  | none => .error (.error "Independent owner authority required")
  | some evidence =>
    if owner.isSome = managed.isSome ∨ keys.any (fun key => key.2 == evidence.recovery) ∨
        (if owner.isSome then keys.any (fun key => key.1 == .hailIdentity)
          else !keys.any fun key => key.1 == .hailIdentity && key.2 == evidence.identity) ∨
        challenge.signer = .identity ∧ owner.isNone then
      .error (.error "Independent owner authority required")
    else .ok evidence

/-- The DID still names the owner's keys and this provider, and the challenge is signed with the
owner's key. -/
def ownerMatches (challenge : Challenge) (evidence : CustodyEvidence) (current : Resolution) :
    Bool :=
  let keys := w.keys challenge.accountId
  let rotations := current.rotationKeys.getD []
  current.did == challenge.did && current.serviceBase == platform.provider ++ "/hail" &&
    current.identityDidKey == evidence.identity && rotations.head? == some evidence.recovery &&
    keys.any (fun key => key.1 == .plcRotation && rotations.tail.contains key.2) &&
    keys.any (fun key => key.1 == .hailMessaging && key.2 == current.messagingDidKey) &&
    challenge.publicKey ==
      match challenge.signer with
      | .identity => current.identityDidKey
      | .ownerRecovery => evidence.recovery

/-- The challenge as the transaction locks it: its account can log in, its generation is the
current one, and the owner has the key it was signed with. -/
def lockAccess (p : AccessProof) : Except Failure AccessChallenge := do
  match w.accounts p.challenge.accountId with
  | none => .error (.error "Account unavailable")
  | some account =>
    if account.did ≠ some p.challenge.did ∨ !account.active then
      .error (.error "Account unavailable")
    else if account.fenced then .error (.error "Account fenced")
    else
      match s.accessChallenges.find p.id with
      | none => .error (.error "Challenge expired")
      | some stored =>
        if account.generation ≠ some stored.generation ∨ stored.expiresAt ≤ w.clock 0 then
          .error (.error "Challenge expired")
        else do
          let evidence ← independentOwner w p.challenge
          match w.resolve p.challenge.did with
          | none => .error (.error "Hail DID resolution failed")
          | some current =>
            if w.aborted 0 ∨ !ownerMatches platform w p.challenge evidence current then
              .error (.error "Owner authority no longer matches")
            else if stored.completionHash.any fun hash => hash ≠ p.completionHash then
              .error (.error "Changed completion proof")
            else .ok stored

/-- `racr.passkey-enrollment`. -/
structure IssuedEnrollment where
  provider : String
  accountId : Uuid
  token : String
  expiresAt : Int
  deriving DecidableEq

inductive AccessResult
  | enrollment (issued : IssuedEnrollment)
  | credential (issued : IssuedCredential)
  deriving DecidableEq

/-- The row of a challenge that issued a credential. -/
def AccessChallenge.loggedIn (row : AccessChallenge) (p : AccessProof) (credentialId : Uuid) :
    AccessChallenge :=
  { row with completionHash := some p.completionHash, credentialId := some credentialId }

/-- The row of a challenge that issued an enrollment capability. -/
def AccessChallenge.enrolled (row : AccessChallenge) (p : AccessProof) (capabilityId : Uuid) :
    AccessChallenge :=
  { row with completionHash := some p.completionHash, enrollmentCapabilityId := some capabilityId }

/-- `UPDATE account_access_challenges`, while the challenge is open. A completed challenge has
exactly one target. -/
def consumeAccess (s : Tables) (p : AccessProof) (complete : AccessChallenge → AccessChallenge) :
    Except Failure Tables :=
  match s.accessChallenges.find p.id with
  | none => .error (.error "Challenge expired")
  | some row =>
    if row.expiresAt ≤ w.clock 1 ∨ w.aborted 1 then .error (.error "Challenge expired")
    else if (complete row).credentialId.isSome = (complete row).enrollmentCapabilityId.isSome then
      .error (.fault (.checkViolation "account_access_challenges_completion_target_check"))
    else .ok { s with accessChallenges := s.accessChallenges.insert p.id (complete row) }

/-- The capability that an enrollment is answered with, while it is unused. -/
def issuedEnrollment (p : AccessProof) (capabilityId : Uuid) : Except Failure AccessResult :=
  let terminal : Failure := .error "Enrollment capability is terminal"
  match s.capabilities.find capabilityId with
  | none => .error terminal
  | some row =>
    if row.tokenHash ≠ platform.tokenHash p.token ∨ row.credentialId.isSome ∨
        row.expiresAt ≤ w.clock 2 ∨ w.aborted 2 then .error terminal
    else .ok (.enrollment ⟨platform.provider, p.challenge.accountId, p.token, row.expiresAt⟩)

/-- The completion for `passkey-enrollment`. -/
def completeEnrollment (p : AccessProof) (stored : AccessChallenge) :
    Except Failure (Tables × AccessResult) := do
  match stored.enrollmentCapabilityId with
  | some id => do
      let result ← issuedEnrollment platform w s p id
      .ok (s, result)
  | none => do
      let capabilities ← (insertRow s.capabilities
        "account_passkey_enrollment_capabilities_token_hash_key"
        (fun row other => row.tokenHash == other.tokenHash) w.uuid
        ⟨platform.tokenHash p.token, p.challenge.accountId, stored.generation,
          w.now + 10 * minute, none⟩).mapError fun _ => .error "Token already used"
      let t ← consumeAccess w { s with capabilities := capabilities } p (·.enrolled p w.uuid)
      let result ← issuedEnrollment platform w t p w.uuid
      .ok (t, result)

/-- The credential that a login is answered with, while it and its challenge are open. -/
def accessCredential (p : AccessProof) (credentialId : Uuid) : Except Failure AccessResult :=
  let terminal : Failure := .error "Credential or challenge is terminal"
  match s.credentials.find credentialId, s.accessChallenges.find p.id with
  | some row, some stored =>
    if row.accountId ≠ p.challenge.accountId ∨ row.tokenHash ≠ platform.tokenHash p.token ∨
        row.revokedAt.isSome ∨ row.expiresAt ≤ w.clock 2 ∨ stored.expiresAt ≤ w.clock 2 ∨
        w.aborted 2 then .error terminal
    else .ok (.credential ⟨platform.provider, p.challenge.accountId, credentialId, p.token,
      p.challenge.scopes, row.expiresAt⟩)
  | _, _ => .error terminal

/-- The completion for `new-api-credential`. -/
def completeLogin (p : AccessProof) (stored : AccessChallenge) :
    Except Failure (Tables × AccessResult) := do
  match stored.credentialId with
  | some id => do
      let result ← accessCredential platform w s p id
      .ok (s, result)
  | none =>
    if tokenUsed s (platform.tokenHash p.token) then .error (.error "Token already used")
    else do
      let t ← insertCredential w s p.challenge.accountId (platform.tokenHash p.token)
        p.challenge.scopes
      let t ← consumeAccess w t p (·.loggedIn p w.uuid)
      let result ← accessCredential platform w t p w.uuid
      .ok (t, result)

/-- The transaction of `complete`. -/
def completeAccess (p : AccessProof) : Except Failure (Tables × AccessResult) := do
  let stored ← lockAccess platform w s p
  match p.challenge.purpose with
  | .passkeyEnrollment => completeEnrollment platform w s p stored
  | .newApiCredential => completeLogin platform w s p stored

end HailProto.Access
