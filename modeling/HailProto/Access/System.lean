import HailProto.Access.OwnerKeys
import HailProto.Core.Transition

/-!
# Ceremonies that run together

Any number of calls are under way. A call takes one statement or transaction at a time, on the
accounts, clocks and library answers of that moment, and may be lost between two of them; other
services write the same tables meanwhile. An identifier from `randomUUID()` does not repeat. Every
step that took effect is kept with the tables before and after it.
-/

namespace HailProto.Access

open Server

/-- A request that a route passes on. -/
inductive Request
  | registrationOptions (session : AccountApiSession)
  | register (session : AccountApiSession) (challengeId : Uuid) (response : AuthenticatorResponse)
      (label : String)
  | recoveryOptions (token : String)
  | recover (token : String) (challengeId : Uuid) (response : AuthenticatorResponse)
      (label : String)
  | authenticationOptions
  | authenticate (challengeId : Uuid) (response : AuthenticatorResponse)
  | prepareAuthorization (input : AuthorizationRequest)
  | completeAuthorization (session : AccountApiSession) (requestId : Uuid) (state code : String)
  | exchangeAuthorization (input : ExchangeRequest)
  | revoke (session : AccountApiSession) (credentialId : String)
  | accessPrepare (input : AccessRequest)
  | accessComplete (id : Uuid) (token encodedSignature : String)
  deriving DecidableEq

/-- A call: the request, or what is left of it with what it has read. -/
inductive Call
  | request (request : Request)
  | registrationDelete (session : AccountApiSession) (keys : List (String × List String))
  | registrationInsert (session : AccountApiSession) (keys : List (String × List String))
  | completeRegistration (r : Registration)
  | recoverySelect (token : String)
  | recoveryKeys (capabilityId accountId : Uuid) (generation : Nat)
  | recoveryInsert (capabilityId accountId : Uuid) (generation : Nat)
      (keys : List (String × List String))
  | authenticationInsert
  | verifyAssertion (challengeId : Uuid) (challenge : String) (response : AuthenticatorResponse)
  | openSession (a : Assertion)
  | completeAccess (p : AccessProof)
  deriving DecidableEq

inductive Response
  | options (options : CeremonyOptions)
  | registered (registered : Registered)
  | prepared (prepared : PreparedAuthorization)
  | redirect (redirect : Redirect)
  | credential (issued : IssuedCredential)
  | session (issued : IssuedSession)
  | revoked
  | challenge (challenge : Challenge)
  | access (result : AccessResult)
  deriving DecidableEq

/-- What a step leaves: the rest of the call, or its response. -/
inductive Progress
  | next (call : Call)
  | done (response : Response)
  deriving DecidableEq

section Steps

variable (platform : Platform) (w : Answers) (s : Tables)

/-- The last statement of the options for a new passkey or a login. -/
def insertOptions (purpose : Purpose) (owner : Option (Uuid × Nat)) (capabilityId : Option Uuid)
    (keys : List (String × List String)) : Except Failure (Tables × Progress) := do
  let t ← insertChallenge w s purpose owner capabilityId
  .ok (t, .done (.options ⟨w.uuid, w.random, keys⟩))

/-- The first step of a request. -/
def startRequest : Request → Except Failure (Tables × Progress)
  | .registrationOptions session => do
      let keys ← registrationOptions w s session
      .ok (s, .next (.registrationDelete session keys))
  | .register session challengeId response label => do
      let r ← register platform w s session challengeId response label
      .ok (s, .next (.completeRegistration r))
  | .recoveryOptions token =>
    if !base64UrlPattern "racr_" 43 token then .error (.passkey 401)
    else .ok (deleteExpiredCapabilities w s, .next (.recoverySelect token))
  | .recover token challengeId response label => do
      let r ← recover platform w s token challengeId response label
      .ok (s, .next (.completeRegistration r))
  | .authenticationOptions => .ok (deleteExpiredChallenges w s, .next .authenticationInsert)
  | .authenticate challengeId response => do
      let challenge ← authenticate w s challengeId response
      .ok (s, .next (.verifyAssertion challengeId challenge response))
  | .prepareAuthorization input => do
      let (t, prepared) ← prepareAuthorization platform w s input
      .ok (t, .done (.prepared prepared))
  | .completeAuthorization session requestId state code => do
      let (t, redirect) ← completeAuthorization platform w s session requestId state code
      .ok (t, .done (.redirect redirect))
  | .exchangeAuthorization input => do
      let (t, issued) ← exchangeAuthorization platform w s input
      .ok (t, .done (.credential issued))
  | .revoke session credentialId => do
      let t ← revoke w s session credentialId
      .ok (t, .done .revoked)
  | .accessPrepare input => do
      let (t, challenge) ← accessPrepare platform w s input
      .ok (t, .done (.challenge challenge))
  | .accessComplete id token encodedSignature => do
      let p ← accessComplete platform w s id token encodedSignature
      .ok (s, .next (.completeAccess p))

/-- One step of a call. -/
def advanceCall : Call → Except Failure (Tables × Progress)
  | .request request => startRequest platform w s request
  | .registrationDelete session keys =>
    .ok (deleteExpiredChallenges w s, .next (.registrationInsert session keys))
  | .registrationInsert session keys =>
    insertOptions w s .registration (some (session.accountId, session.generation)) none keys
  | .completeRegistration r => do
      let (t, registered) ← completeRegistration w s r
      .ok (t, .done (.registered registered))
  | .recoverySelect token => do
      let (id, accountId, generation) ← recoveryCapability platform w s token
      .ok (s, .next (.recoveryKeys id accountId generation))
  | .recoveryKeys id accountId generation =>
    let keys := currentKeys s fun key =>
      key.accountId == accountId && key.servingGeneration == generation
    .ok (s, .next (.recoveryInsert id accountId generation keys))
  | .recoveryInsert id accountId generation keys =>
    insertOptions w s .registration (some (accountId, generation)) (some id) keys
  | .authenticationInsert => insertOptions w s .authentication none none []
  | .verifyAssertion challengeId challenge response => do
      let (key, info) ← verifyAssertion platform w s challenge response
      .ok (s, .next (.openSession ⟨challengeId, challenge, response, key, info⟩))
  | .openSession a => do
      let (t, issued) ← openSession platform w s a
      .ok (t, .done (.session issued))
  | .completeAccess p => do
      let (t, result) ← completeAccess platform w s p
      .ok (t, .done (.access result))

/-- What other services write to the tables. -/
inductive OtherWrite
  /-- `AccountApiRepository.issue`. -/
  | issueCredential (accountId : Uuid) (tokenHash : Bytes) (scopes : List Scope)
  /-- `AccountApiRepository.revoke`, a fence, a transfer or a closure. -/
  | revokeCredentials (condition : Uuid → ApiCredential → Bool)
  /-- The closure of an account. -/
  | revokePasskeys (accountId : Uuid)
  /-- `revokeSessions`, `logout` or a closure. -/
  | revokeSessions (condition : Uuid → PasskeySession → Bool)
  | rename (credentialId label : String)
  /-- `approveAction`. -/
  | approveAction (credentialId : String) (key : Passkey) (info : AuthenticationInfo)
  /-- The enrollment of a signup or of a registration. -/
  | issueCapability (tokenHash : Bytes) (accountId : Uuid) (generation : Nat)
  /-- The completion of a signup. -/
  | expireCapability (id : Uuid)
  /-- A signup issues its enrollment. -/
  | putSignup (id : Uuid) (row : SignupEnrollment)

def writeOther : OtherWrite → Except Failure Tables
  | .issueCredential accountId tokenHash scopes => insertCredential w s accountId tokenHash scopes
  | .revokeCredentials condition => .ok { s with
      credentials := s.credentials.updateWhere condition fun row =>
        { row with revokedAt := some (row.revokedAt.getD w.now) } }
  | .revokePasskeys accountId => .ok { s with
      passkeys := s.passkeys.updateWhere (fun _ row => row.accountId == accountId) fun row =>
        { row with revokedAt := some (row.revokedAt.getD w.now) } }
  | .revokeSessions condition => .ok { s with
      sessions := s.sessions.updateWhere condition fun row =>
        { row with revokedAt := some (row.revokedAt.getD w.now) } }
  | .rename credentialId label => .ok { s with
      passkeys := s.passkeys.update credentialId fun row => { row with label := label } }
  | .approveAction credentialId key info => recordAssertion w s credentialId key info
  | .issueCapability tokenHash accountId generation => do
      let capabilities ← insertRow s.capabilities
        "account_passkey_enrollment_capabilities_token_hash_key"
        (fun row other => row.tokenHash == other.tokenHash) w.uuid
        ⟨tokenHash, accountId, generation, w.clock 0 + 10 * minute, none⟩
      .ok { s with capabilities := capabilities }
  | .expireCapability id => .ok { s with
      capabilities := s.capabilities.update id fun row =>
        { row with expiresAt := min row.expiresAt (w.clock 0) } }
  | .putSignup id row => .ok { s with signups := s.signups.insert id row }

end Steps

/-- A step that took effect. -/
structure Committed where
  answers : Answers
  before : Tables
  call : Call
  after : Tables
  progress : Progress

structure State where
  tables : Tables
  calls : List Call
  history : List Committed
  /-- The identifiers that `randomUUID()` has returned. -/
  drawn : List Uuid

inductive Event
  | begin (request : Request)
  /-- A step of a call; one that throws ends it. -/
  | advance (index : Nat) (w : Answers)
  /-- The call is lost. -/
  | drop (index : Nat)
  | other (w : Answers) (write : OtherWrite)

/-- The identifiers that a step draws are new. -/
def Answers.Fresh (w : Answers) (drawn : List Uuid) : Prop :=
  w.uuid ∉ drawn ∧ w.unknown ∉ drawn

instance (w : Answers) (drawn : List Uuid) : Decidable (w.Fresh drawn) :=
  inferInstanceAs (Decidable (_ ∧ _))

/-- The calls after a step of one of them. -/
def Progress.resume (calls : List Call) (index : Nat) : Progress → List Call
  | .next call => calls.set index call
  | .done _ => calls.eraseIdx index

def State.step (platform : Platform) (s : State) : Event → Option State
  | .begin request => some { s with calls := s.calls ++ [.request request] }
  | .advance index w =>
    if w.Fresh s.drawn then
      s.calls[index]?.map fun call =>
        let drawn := w.uuid :: w.unknown :: s.drawn
        match advanceCall platform w s.tables call with
        | .error _ => { s with calls := s.calls.eraseIdx index, drawn := drawn }
        | .ok (t, progress) =>
          { tables := t
            calls := progress.resume s.calls index
            history := s.history ++ [⟨w, s.tables, call, t, progress⟩]
            drawn := drawn }
    else none
  | .drop index => some { s with calls := s.calls.eraseIdx index }
  | .other w write =>
    if w.Fresh s.drawn then
      let drawn := w.uuid :: w.unknown :: s.drawn
      match writeOther w s.tables write with
      | .error _ => some { s with drawn := drawn }
      | .ok t => some { s with tables := t, drawn := drawn }
    else none

/-- A provider before any call. -/
def State.start : State := ⟨.empty, [], [], []⟩

end HailProto.Access
