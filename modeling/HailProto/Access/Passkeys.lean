import HailProto.Access.Tables

/-!
# Passkeys and browser authorizations

`passkeys.ts`. A call takes one statement or one transaction at a time and carries what it has read
to the next; a function of this module is one of these steps.
-/

namespace HailProto.Access

open Server
open Migration (uuidPattern)

/-- The options of a ceremony: its challenge and the credentials it names. -/
structure CeremonyOptions where
  challengeId : Uuid
  challenge : String
  credentials : List (String × List String)
  deriving DecidableEq

/-- What `register` and `recover` return. -/
structure Registered where
  credentialId : String
  label : String
  deriving DecidableEq

/-- What `completeRegistration` is called with. -/
structure Registration where
  accountId : Uuid
  generation : Nat
  challengeId : Uuid
  challenge : String
  response : AuthenticatorResponse
  info : RegistrationInfo
  label : String
  capabilityId : Option Uuid
  deriving DecidableEq

variable (platform : Platform) (w : Answers) (s : Tables)

def recentPasskeyWindow : Int := 10 * minute

/-- The passkey of the session was verified a short time ago. -/
def recentlyVerified (session : AccountApiSession) : Bool :=
  session.passkeyVerifiedAt.any fun verified => decide (w.host - recentPasskeyWindow < verified)

def management (session : AccountApiSession) : Except Failure Unit :=
  if session.scopes.contains .credentialsWrite || recentlyVerified w session then .ok ()
  else .error (.passkey 403)

/-- The account can use the keys of the generation: it is open, active and not fenced, and the
generation is its current one. -/
def eligible (accountId : Uuid) (generation : Nat) : Bool :=
  (w.accounts accountId).any fun account =>
    account.generation == some generation && !account.closed && account.active &&
      account.did.isSome && !account.fenced

/-! ### Challenges -/

/-- `DELETE FROM account_passkey_challenges WHERE expires_at<=now()`. -/
def deleteExpiredChallenges : Tables :=
  { s with
    passkeyChallenges := s.passkeyChallenges.deleteWhere fun _ row =>
      decide (row.expiresAt ≤ w.now) }

/-- `DELETE FROM account_passkey_enrollment_capabilities WHERE expires_at<=now()`, with the rows
that refer to a deleted one. -/
def deleteExpiredCapabilities : Tables :=
  let expired (id : Uuid) : Bool :=
    (s.capabilities.find id).any fun row => decide (row.expiresAt ≤ w.now)
  { s with
    capabilities := s.capabilities.deleteWhere fun _ row => decide (row.expiresAt ≤ w.now)
    passkeyChallenges := s.passkeyChallenges.deleteWhere fun _ row =>
      row.enrollmentCapabilityId.any expired
    accessChallenges := s.accessChallenges.deleteWhere fun _ row =>
      row.enrollmentCapabilityId.any expired }

/-- The insertion of a challenge that is open for five minutes. -/
def insertChallenge (purpose : Purpose) (owner : Option (Uuid × Nat))
    (capabilityId : Option Uuid) : Except Failure Tables := do
  -- The capability is a foreign key.
  if capabilityId.any fun id => (s.capabilities.find id).isNone then
    .error (.fault ⟨some "23503", "insert violates foreign key constraint"⟩)
  else do
    let challenges ← insertRow s.passkeyChallenges "account_passkey_challenges_challenge_key"
      (fun row other => row.challenge == other.challenge) w.uuid
      ⟨w.random, purpose, owner.map Prod.fst, owner.map Prod.snd, w.now + 5 * minute,
        capabilityId⟩
    .ok { s with passkeyChallenges := challenges }

/-- The keys of an account that are not revoked, with their transports. -/
def currentKeys (condition : Passkey → Bool) : List (String × List String) :=
  (s.passkeys.rows.filter fun e => e.2.revokedAt.isNone && condition e.2).map fun e =>
    (e.1, e.2.transports)

/-- `challenge`: the text of an open challenge. -/
def findChallenge (id : Uuid) (purpose : Purpose) (owner : Option (Uuid × Nat)) :
    Except Failure String :=
  match s.passkeyChallenges.find id with
  | none => .error (.passkey 400)
  | some row =>
    if row.purpose ≠ purpose ∨ row.expiresAt ≤ w.now ∨
        owner.any (fun owner => decide (row.accountId ≠ some owner.1 ∨
          row.servingGeneration ≠ some owner.2)) then .error (.passkey 400)
    else .ok row.challenge

/-! ### Registration -/

/-- The first statement of `registrationOptions`. -/
def registrationOptions (session : AccountApiSession) :
    Except Failure (List (String × List String)) := do
  management w session
  .ok (currentKeys s fun key => key.accountId == session.accountId)

/-- `register`, up to its transaction. -/
def register (session : AccountApiSession) (challengeId : Uuid)
    (response : AuthenticatorResponse) (label : String) : Except Failure Registration := do
  management w session
  if !uuidPattern challengeId || !labelAccepted label || !idPattern response.id then
    .error (.passkey 400)
  else do
    let challenge ← findChallenge w s challengeId .registration
      (some (session.accountId, session.generation))
    match platform.verifyRegistration response challenge with
    | none => .error (.passkey 400)
    | some info =>
      .ok ⟨session.accountId, session.generation, challengeId, challenge, response, info, label,
        none⟩

/-- `CHECK` constraints of `account_passkeys` that a library's key may fail. -/
def passkeyCheck (credentialId : String) (row : Passkey) : Bool :=
  idPattern credentialId && decide (32 ≤ row.publicKey.length ∧ row.publicKey.length ≤ 2048)

/-- The row of the passkey that was registered. -/
def Registration.passkey (r : Registration) : Passkey :=
  ⟨r.accountId, r.generation, r.info.publicKey, r.info.counter, r.info.deviceType, r.info.backedUp,
    r.info.transports, trim r.label, none, none⟩

/-- The insertion of the passkey that was registered. -/
def insertPasskey (r : Registration) : Except Failure Tables := do
  if !passkeyCheck r.info.credentialId r.passkey then
    .error (.fault (.checkViolation "account_passkeys_check"))
  else do
    let passkeys ← insertRow s.passkeys "account_passkeys_pkey" (fun _ _ => false)
      r.info.credentialId r.passkey
    .ok { s with passkeys := passkeys }

/-- The capability of a recovery, locked, while its challenge is open. -/
def lockCapability (r : Registration) (id : Uuid) : Except Failure EnrollmentCapability :=
  match s.capabilities.find id, s.passkeyChallenges.find r.challengeId with
  | some capability, some challenge =>
    if capability.accountId = r.accountId ∧ capability.servingGeneration = r.generation ∧
        w.now < capability.expiresAt ∧ challenge.enrollmentCapabilityId = some id ∧
        challenge.challenge = r.challenge ∧ w.now < challenge.expiresAt then .ok capability
    else .error (.passkey 400)
  | _, _ => .error (.passkey 400)

/-- The capability and the signup that it belongs to hold the passkey. -/
def consumeCapability (s : Tables) (r : Registration) (id : Uuid) : Tables :=
  { s with
    capabilities := s.capabilities.update id fun row =>
      { row with credentialId := some r.info.credentialId }
    signups := s.signups.updateWhere
      (fun _ row => row.enrollmentCapabilityId == id && row.accountId == r.accountId &&
        row.enrollmentGeneration == r.generation)
      fun row => { row with
        enrolled := some (row.enrolled.getD (w.clock 0, r.info.credentialId)) } }

/-- The transaction of `completeRegistration`. -/
def registerPasskey (r : Registration) : Except Failure (Tables × Registered) :=
  let registered : Registered := ⟨r.info.credentialId, trim r.label⟩
  match r.capabilityId with
  | some id => do
      let capability ← lockCapability w s r id
      match capability.credentialId with
      | some credentialId =>
        -- An exact retry is answered with the passkey that was registered.
        match s.passkeys.find credentialId with
        | none => .error (.passkey 400)
        | some key =>
          if credentialId = r.response.id then .ok (s, ⟨credentialId, key.label⟩)
          else .error (.passkey 400)
      | none => do
          let t ← insertPasskey s r
          .ok (consumeCapability w t r id, registered)
  | none =>
    match s.passkeyChallenges.find r.challengeId with
    | none => .error (.passkey 400)
    | some row =>
      if row.challenge ≠ r.challenge ∨ row.expiresAt ≤ w.now ∨
          row.enrollmentCapabilityId.isSome then .error (.passkey 400)
      else do
        let challenges := s.passkeyChallenges.deleteWhere fun id _ => id = r.challengeId
        let t ← insertPasskey { s with passkeyChallenges := challenges } r
        .ok (t, registered)

/-- `completeRegistration`. -/
def completeRegistration (r : Registration) : Except Failure (Tables × Registered) :=
  answerConflict (registerPasskey w s r)

/-! ### Recovery -/

/-- The capability that `recoveryOptions` selects, with its account and generation. -/
def recoveryCapability (token : String) : Except Failure (Uuid × Uuid × Nat) :=
  let selected := s.capabilities.select fun _ row =>
    row.tokenHash == platform.tokenHash token && row.credentialId.isNone &&
      decide (w.now < row.expiresAt) && eligible w row.accountId row.servingGeneration
  match selected with
  | some (id, row) => .ok (id, row.accountId, row.servingGeneration)
  | none => .error (.passkey 401)

/-- `recover`, up to the transaction of `completeRegistration`. -/
def recover (token : String) (challengeId : Uuid) (response : AuthenticatorResponse)
    (label : String) : Except Failure Registration := do
  if !base64UrlPattern "racr_" 43 token || !uuidPattern challengeId || !labelAccepted label ||
      !idPattern response.id then .error (.passkey 400)
  else
    match s.passkeyChallenges.find challengeId with
    | none => .error (.passkey 401)
    | some challenge =>
      let capability := challenge.enrollmentCapabilityId.bind fun id =>
        (s.capabilities.find id).map fun row => (id, row)
      match capability with
      | none => .error (.passkey 401)
      | some (id, row) =>
        if challenge.accountId = some row.accountId ∧
            challenge.servingGeneration = some row.servingGeneration ∧
            challenge.purpose = .registration ∧ w.now < challenge.expiresAt ∧
            row.tokenHash = platform.tokenHash token ∧ w.now < row.expiresAt ∧
            eligible w row.accountId row.servingGeneration then
          match platform.verifyRegistration response challenge.challenge with
          | none => .error (.passkey 400)
          | some info =>
            .ok ⟨row.accountId, row.servingGeneration, challengeId, challenge.challenge,
              response, info, label, some id⟩
        else .error (.passkey 401)

/-! ### Browser authorizations -/

/-- The URL of a redirect is a callback of the local machine. -/
def loopback (value : String) : Except Failure Unit :=
  let accepted := (platform.parseUrl value).any fun url =>
    decide (url.protocol = "http:" ∧ url.hostname = "127.0.0.1" ∧ url.pathname = "/callback" ∧
      url.username = "" ∧ url.password = "" ∧ url.search = "" ∧ url.hash = "" ∧
      1024 ≤ url.port ∧ url.port ≤ 65535)
  if accepted then .ok () else .error (.passkey 400)

/-- The input of `prepareAuthorization`, with exactly its keys. -/
structure AuthorizationRequest where
  clientId : String
  redirectUri : String
  state : String
  code : String
  codeChallenge : String
  scopes : List String
  deriving DecidableEq

/-- What `prepareAuthorization` returns; the URL is made of the ID, the state and the code. -/
structure PreparedAuthorization where
  requestId : Uuid
  state : String
  code : String
  expiresAt : Int
  deriving DecidableEq

/-- The scopes of a request, which names them in their order. -/
def requestedScopes (input : AuthorizationRequest) : List Scope :=
  selectScopes browserScopes input.scopes

/-- The row of a new authorization, which is open for five minutes. -/
def newAuthorization (input : AuthorizationRequest) : BrowserAuthorization :=
  ⟨input.clientId, input.redirectUri, input.state, platform.tokenHash input.code,
    input.codeChallenge, requestedScopes input, w.now + 5 * minute, none, none⟩

/-- The authorization that a code was prepared for. -/
def findAuthorization (code : String) : Option (Uuid × BrowserAuthorization) :=
  s.authorizations.select fun _ row => row.codeHash == platform.tokenHash code

def authorizationAccepted (input : AuthorizationRequest) : Bool :=
  input.clientId == "racr-cli-v1" && base64UrlPattern "" 43 input.state &&
    base64UrlPattern "hailc_" 43 input.code && base64UrlPattern "" 43 input.codeChallenge &&
    decide input.scopes.Nodup && !(requestedScopes input).isEmpty &&
    (requestedScopes input).map Scope.text == input.scopes

/-- `DELETE FROM account_browser_authorizations WHERE expires_at<now()-interval '1 day'`. -/
def deleteStaleAuthorizations : Tables :=
  { s with
    authorizations := s.authorizations.deleteWhere fun _ row =>
      decide (row.expiresAt < w.now - day) }

/-- The transaction of `prepareAuthorization`. -/
def prepareAuthorization (input : AuthorizationRequest) :
    Except Failure (Tables × PreparedAuthorization) := do
  if !authorizationAccepted input then .error (.passkey 400)
  else do
    loopback platform input.redirectUri
    let s := deleteStaleAuthorizations w s
    match findAuthorization platform s input.code with
    | some (id, row) =>
      if row.clientId ≠ input.clientId ∨ row.redirectUri ≠ input.redirectUri ∨
          row.state ≠ input.state ∨ row.codeChallenge ≠ input.codeChallenge ∨
          row.scopes ≠ requestedScopes input ∨ row.expiresAt ≤ w.host then
        .error (.passkey 409)
      else .ok (s, ⟨id, input.state, input.code, row.expiresAt⟩)
    | none => do
        let authorizations ← insertRow s.authorizations
          "account_browser_authorizations_code_hash_key"
          (fun row other => row.codeHash == other.codeHash) w.uuid
          (newAuthorization platform w input)
        .ok ({ s with authorizations := authorizations },
          ⟨w.uuid, input.state, input.code, w.now + 5 * minute⟩)

/-- The callback that a completed authorization is redirected to. -/
structure Redirect where
  uri : String
  code : String
  state : String
  deriving DecidableEq

/-- The transaction of `completeAuthorization`. -/
def completeAuthorization (session : AccountApiSession) (requestId : Uuid) (state code : String) :
    Except Failure (Tables × Redirect) := do
  if session.passkeyCredentialId.isNone || !recentlyVerified w session then .error (.passkey 403)
  else if !uuidPattern requestId || !base64UrlPattern "" 43 state ||
      !base64UrlPattern "hailc_" 43 code then .error (.passkey 400)
  else
    match s.authorizations.find requestId with
    | none => .error (.passkey 404)
    | some row =>
      if row.state ≠ state ∨ row.codeHash ≠ platform.tokenHash code ∨
          row.credentialId.isSome ∨ row.expiresAt ≤ w.now then .error (.passkey 404)
      else
        let owner := (session.accountId, session.generation)
        if row.completed.any fun completed => completed ≠ owner then .error (.passkey 409)
        else do
          loopback platform row.redirectUri
          let completed := row.completed.getD owner
          .ok ({ s with
              authorizations := s.authorizations.update requestId fun row =>
                { row with completed := some completed } },
            ⟨row.redirectUri, code, state⟩)

/-- The input of `exchangeAuthorization`, with exactly its keys. -/
structure ExchangeRequest where
  clientId : String
  redirectUri : String
  code : String
  verifier : String
  token : String
  deriving DecidableEq

/-- `racr.api-credential`. -/
structure IssuedCredential where
  provider : String
  accountId : Uuid
  credentialId : Uuid
  token : String
  scopes : List Scope
  expiresAt : Int
  deriving DecidableEq

/-- The row of a new API credential, which is bound to the generation of its account. -/
def newCredential (accountId : Uuid) (tokenHash : Bytes) (scopes : List Scope) : ApiCredential :=
  ⟨accountId, tokenHash, scopes, w.now + 30 * day, none,
    (w.accounts accountId).bind AccountView.generation⟩

/-- The insertion of an API credential for thirty days, with its trigger. -/
def insertCredential (accountId : Uuid) (tokenHash : Bytes) (scopes : List Scope) :
    Except Failure Tables := do
  let credentials ← insertRow s.credentials "account_api_credentials_token_hash_key"
    (fun row other => row.tokenHash == other.tokenHash) w.uuid
    (newCredential w accountId tokenHash scopes)
  match w.refusal accountId with
  | some fault => .error (.fault fault)
  | none => .ok { s with credentials := credentials }

/-- A credential has the token. -/
def tokenUsed (tokenHash : Bytes) : Bool :=
  s.credentials.any fun _ row => row.tokenHash == tokenHash

/-- The code challenge that a verifier proves. -/
def Platform.codeChallenge (platform : Platform) (verifier : String) : String :=
  String.ofList (Codec.encodeBase64Url (platform.tokenHash verifier))

def exchangeAccepted (input : ExchangeRequest) : Bool :=
  input.clientId == "racr-cli-v1" && base64UrlPattern "hailc_" 43 input.code &&
    base64UrlPattern "" 43 input.verifier && base64UrlPattern "racr_" 43 input.token

/-- The credential that the exchange of an authorization answers with. -/
def exchangedCredential (input : ExchangeRequest) (accountId : Uuid) (scopes : List Scope)
    (credentialId : Uuid) : Except Failure IssuedCredential :=
  match s.credentials.find credentialId with
  | none => .error (.passkey 401)
  | some credential =>
    if credential.accountId ≠ accountId ∨
        credential.tokenHash ≠ platform.tokenHash input.token ∨
        credential.revokedAt.isSome ∨ credential.expiresAt ≤ w.now then .error (.passkey 401)
    else .ok ⟨platform.origin, accountId, credentialId, input.token, scopes,
      credential.expiresAt⟩

/-- The transaction of `exchangeAuthorization`, before its errors are answered. -/
def exchange (input : ExchangeRequest) : Except Failure (Tables × IssuedCredential) := do
  match findAuthorization platform s input.code with
  | none => .error (.passkey 401)
  | some (id, row) =>
    match row.completed with
    | none => .error (.passkey 401)
    | some (accountId, generation) =>
      if row.clientId ≠ input.clientId ∨ row.redirectUri ≠ input.redirectUri ∨
          row.codeChallenge ≠ platform.codeChallenge input.verifier ∨
          row.expiresAt ≤ w.now ∨ !eligible w accountId generation then
        .error (.passkey 401)
      else
        match row.credentialId with
        | some credentialId => do
            let issued ← exchangedCredential platform w s input accountId row.scopes
              credentialId
            .ok (s, issued)
        | none =>
          if tokenUsed s (platform.tokenHash input.token) then .error (.passkey 409)
          else do
            let t ← insertCredential w s accountId (platform.tokenHash input.token)
              row.scopes
            let t := { t with
              authorizations := t.authorizations.update id fun row =>
                { row with credentialId := some w.uuid } }
            let issued ← exchangedCredential platform w t input accountId row.scopes w.uuid
            .ok (t, issued)

/-- `exchangeAuthorization`. -/
def exchangeAuthorization (input : ExchangeRequest) :
    Except Failure (Tables × IssuedCredential) :=
  if !exchangeAccepted input then .error (.passkey 400)
  else do
    loopback platform input.redirectUri
    answerConflict (exchange platform w s input)

/-! ### Authentication -/

/-- What `authenticate` carries to its transaction. -/
structure Assertion where
  challengeId : Uuid
  challenge : String
  response : AuthenticatorResponse
  key : Passkey
  info : AuthenticationInfo
  deriving DecidableEq

/-- The first statement of `authenticate`. -/
def authenticate (challengeId : Uuid) (response : AuthenticatorResponse) :
    Except Failure String :=
  if !uuidPattern challengeId || !idPattern response.id then .error (.passkey 400)
  else findChallenge w s challengeId .authentication none

/-- `verifyAssertion`. -/
def verifyAssertion (challenge : String) (response : AuthenticatorResponse) :
    Except Failure (Passkey × AuthenticationInfo) :=
  match s.passkeys.find response.id with
  | none => .error (.passkey 401)
  | some key =>
    if key.revokedAt.isSome ∨ !eligible w key.accountId key.servingGeneration then
      .error (.passkey 401)
    else
      match platform.verifyAuthentication response challenge response.id key with
      | none => .error (.passkey 401)
      | some info => .ok (key, info)

/-- The passkey after an assertion. -/
def Passkey.asserted (w : Answers) (row : Passkey) (info : AuthenticationInfo) : Passkey :=
  { row with
    signatureCounter := info.newCounter
    backedUp := info.backedUp
    lastUsedAt := some w.now }

/-- `recordAssertion`: the counter moves only from the value that was verified. -/
def recordAssertion (credentialId : String) (key : Passkey) (info : AuthenticationInfo) :
    Except Failure Tables :=
  match s.passkeys.find credentialId with
  | none => .error (.passkey 401)
  | some row =>
    if row.revokedAt.isSome ∨ row.servingGeneration ≠ key.servingGeneration ∨
        row.signatureCounter ≠ key.signatureCounter then .error (.passkey 401)
    else .ok { s with passkeys := s.passkeys.insert credentialId (row.asserted w info) }

/-- What `authenticate` returns. -/
structure IssuedSession where
  token : String
  expiresAt : Int
  deriving DecidableEq

/-- The row of a new session. -/
def newSession (a : Assertion) : PasskeySession :=
  ⟨platform.tokenHash ("hails_" ++ w.random), a.key.accountId, a.response.id,
    a.key.servingGeneration, sessionScopes, w.now + platform.absoluteSeconds * 1000, none⟩

/-- The transaction of `authenticate`. -/
def openSession (a : Assertion) : Except Failure (Tables × IssuedSession) :=
  match s.passkeyChallenges.find a.challengeId with
  | none => .error (.passkey 401)
  | some row =>
    if row.challenge ≠ a.challenge ∨ row.expiresAt ≤ w.now then .error (.passkey 401)
    else do
      let challenges := s.passkeyChallenges.deleteWhere fun id _ => id = a.challengeId
      let t ← recordAssertion w { s with passkeyChallenges := challenges } a.response.id a.key
        a.info
      let sessions ← insertRow t.sessions "account_passkey_sessions_token_hash_key"
        (fun row other => row.tokenHash == other.tokenHash) w.uuid (newSession platform w a)
      .ok ({ t with sessions := sessions },
        ⟨"hails_" ++ w.random, w.host + platform.absoluteSeconds * 1000⟩)

/-! ### Revocation -/

/-- The keys of the session's account and generation that are not revoked. -/
def liveKeys (accountId : Uuid) (generation : Nat) : List (String × Passkey) :=
  s.passkeys.rows.filter fun e => e.2.accountId == accountId &&
    e.2.servingGeneration == generation && e.2.revokedAt.isNone

/-- The transaction of `revoke`, after its checks. -/
def revoke (session : AccountApiSession) (credentialId : String) : Except Failure Tables := do
  management w session
  if !idPattern credentialId then .error (.passkey 400)
  else
    let keys := liveKeys s session.accountId session.generation
    if !keys.any (fun e => e.1 == credentialId) then .error (.passkey 404)
    else if some credentialId = session.passkeyCredentialId ∨ keys.length = 1 then
      .error (.passkey 409)
    else .ok { s with
      passkeys := s.passkeys.update credentialId fun row => { row with revokedAt := some w.now }
      sessions := s.sessions.updateWhere
        (fun _ row => row.credentialId == credentialId && row.revokedAt.isNone)
        fun row => { row with revokedAt := some w.now } }

end HailProto.Access
