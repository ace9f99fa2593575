import HailProto.Access.System

/-!
# What a step of a call does

One inversion lemma for each transaction, and over them what a step of any call does to the tables.
-/

namespace HailProto.Access

open Server

variable {platform : Platform} {w : Answers} {s t : Tables}

theorem insertRow_eq_ok {κ ρ : Type} [DecidableEq κ] {table table' : Table κ ρ}
    {constraint : String} {clash : ρ → ρ → Bool} {key : κ} {row : ρ} :
    insertRow table constraint clash key row = .ok table' ↔
      table.find key = none ∧
        (∀ key' other, table.find key' = some other → clash row other = false) ∧
        table' = table.insert key row := by
  rw [← Table.insertUnique_eq_some, insertRow]
  cases table.insertUnique clash key row <;> simp

@[simp] theorem answerConflict_eq_ok {α : Type} {x : Except Failure α} {a : α} :
    answerConflict x = .ok a ↔ x = .ok a := by
  unfold answerConflict
  split <;> simp

@[simp] theorem mapError_eq_ok {α : Type} {x : Except Failure α} {f : Failure → Failure} {a : α} :
    x.mapError f = .ok a ↔ x = .ok a := by
  cases x <;> simp [Except.mapError]

/-! ### Registrations -/

/-- A passkey was registered for a challenge, which is gone. -/
structure Registers (s : Tables) (r : Registration) (t : Tables) : Prop where
  capability : r.capabilityId = none
  challenge : ∃ row, s.passkeyChallenges.find r.challengeId = some row ∧
    row.enrollmentCapabilityId = none
  free : s.passkeys.find r.info.credentialId = none
  result : t = { s with
    passkeyChallenges := s.passkeyChallenges.deleteWhere fun id _ => id = r.challengeId
    passkeys := s.passkeys.insert r.info.credentialId r.passkey }

/-- The challenge of a registration belongs to the capability. -/
structure HoldsCapability (s : Tables) (r : Registration) (id : Uuid)
    (capability : EnrollmentCapability) : Prop where
  named : r.capabilityId = some id
  found : s.capabilities.find id = some capability
  account : capability.accountId = r.accountId
  challenge : ∃ row, s.passkeyChallenges.find r.challengeId = some row ∧
    row.enrollmentCapabilityId = some id

/-- A passkey was registered for a capability, which holds it now. -/
structure Recovers (w : Answers) (s : Tables) (r : Registration) (id : Uuid) (t : Tables) :
    Prop where
  capability : ∃ capability, HoldsCapability s r id capability ∧ capability.credentialId = none
  free : s.passkeys.find r.info.credentialId = none
  result : t = consumeCapability w
    { s with passkeys := s.passkeys.insert r.info.credentialId r.passkey } r id

/-- The answer names the passkey that the capability holds. -/
structure RecoversAgain (s : Tables) (r : Registration) (id : Uuid) (registered : Registered) :
    Prop where
  capability : ∃ capability, HoldsCapability s r id capability ∧
    capability.credentialId = some registered.credentialId
  same : registered.credentialId = r.response.id
  label : ∃ key, s.passkeys.find registered.credentialId = some key ∧ key.label = registered.label

theorem insertPasskey_eq_ok {r : Registration} (h : insertPasskey s r = .ok t) :
    s.passkeys.find r.info.credentialId = none ∧
      t = { s with passkeys := s.passkeys.insert r.info.credentialId r.passkey } := by
  simp only [insertPasskey, guard_eq_ok, bind_eq_ok, insertRow_eq_ok] at h
  obtain ⟨-, passkeys, ⟨hfree, -, rfl⟩, hresult⟩ := h
  cases hresult
  exact ⟨hfree, rfl⟩

theorem lockCapability_eq_ok {r : Registration} {id : Uuid} {capability : EnrollmentCapability}
    (hnamed : r.capabilityId = some id) (h : lockCapability w s r id = .ok capability) :
    HoldsCapability s r id capability := by
  unfold lockCapability at h
  split at h
  · rename_i row challenge hcapability hchallenge
    split at h
    · rename_i hconditions
      cases h
      exact ⟨hnamed, hcapability, hconditions.1, challenge, hchallenge, hconditions.2.2.2.1⟩
    · cases h
  · cases h

theorem completeRegistration_eq_ok {r : Registration} {registered : Registered}
    (h : completeRegistration w s r = .ok (t, registered)) :
    registered.credentialId = r.info.credentialId ∧ Registers s r t ∨
      (∃ id, registered.credentialId = r.info.credentialId ∧ Recovers w s r id t) ∨
      ∃ id, t = s ∧ RecoversAgain s r id registered := by
  rw [completeRegistration, answerConflict_eq_ok, registerPasskey] at h
  split at h
  · rename_i id hnamed
    obtain ⟨capability, hlock, h⟩ := bind_eq_ok.1 h
    have hholds := lockCapability_eq_ok hnamed hlock
    split at h
    · rename_i credentialId hcredential
      split at h
      · cases h
      · rename_i key hkey
        split at h
        · rename_i hsame
          cases h
          exact .inr (.inr ⟨id, rfl, ⟨⟨capability, hholds, hcredential⟩, hsame, key, hkey, rfl⟩⟩)
        · cases h
    · rename_i hunused
      obtain ⟨u, hinsert, h⟩ := bind_eq_ok.1 h
      obtain ⟨hfree, rfl⟩ := insertPasskey_eq_ok hinsert
      cases h
      exact .inr (.inl ⟨id, rfl, ⟨⟨capability, hholds, hunused⟩, hfree, rfl⟩⟩)
  · rename_i hnone
    split at h
    · cases h
    · rename_i row hrow
      obtain ⟨hconditions, h⟩ := guard_eq_ok.1 h
      obtain ⟨u, hinsert, h⟩ := bind_eq_ok.1 h
      obtain ⟨hfree, rfl⟩ := insertPasskey_eq_ok hinsert
      cases h
      simp only [not_or, Option.not_isSome_iff_eq_none] at hconditions
      exact .inl ⟨rfl, hnone, ⟨row, hrow, hconditions.2.2⟩, hfree, rfl⟩

/-! ### Challenges -/

/-- A new challenge was inserted. -/
structure InsertsChallenge (w : Answers) (s : Tables) (purpose : Purpose)
    (capabilityId : Option Uuid) (t : Tables) : Prop where
  capability : ∀ id, capabilityId = some id → ∃ row, s.capabilities.find id = some row
  result : ∃ row : PasskeyChallenge, row.purpose = purpose ∧
    row.enrollmentCapabilityId = capabilityId ∧
    t = { s with passkeyChallenges := s.passkeyChallenges.insert w.uuid row }

theorem insertOptions_eq_ok {purpose : Purpose} {owner : Option (Uuid × Nat)}
    {capabilityId : Option Uuid} {keys : List (String × List String)} {progress : Progress}
    (h : insertOptions w s purpose owner capabilityId keys = .ok (t, progress)) :
    InsertsChallenge w s purpose capabilityId t ∧
      progress = .done (.options ⟨w.uuid, w.random, keys⟩) := by
  obtain ⟨u, hinsert, h⟩ := bind_eq_ok.1 h
  cases h
  simp only [insertChallenge, guard_eq_ok, bind_eq_ok, insertRow_eq_ok] at hinsert
  obtain ⟨hforeign, challenges, ⟨-, -, rfl⟩, hresult⟩ := hinsert
  cases hresult
  refine ⟨⟨fun id hid => ?_, _, rfl, rfl, rfl⟩, rfl⟩
  rw [hid, Option.any_some, Bool.not_eq_true, Option.isNone_eq_false_iff] at hforeign
  exact Option.isSome_iff_exists.1 hforeign

/-! ### Sessions -/

theorem recordAssertion_eq_ok {credentialId : String} {key : Passkey} {info : AuthenticationInfo}
    (h : recordAssertion w s credentialId key info = .ok t) :
    ∃ row, s.passkeys.find credentialId = some row ∧ row.revokedAt = none ∧
      row.servingGeneration = key.servingGeneration ∧
      t = { s with passkeys := s.passkeys.insert credentialId (row.asserted w info) } := by
  unfold recordAssertion at h
  split at h
  · cases h
  · rename_i row hrow
    obtain ⟨hconditions, h⟩ := guard_eq_ok.1 h
    cases h
    simp only [not_or, ne_eq, not_not, Option.not_isSome_iff_eq_none] at hconditions
    exact ⟨row, hrow, hconditions.1, hconditions.2.1, rfl⟩

/-- A session was opened for a challenge, which is gone. -/
structure OpensSession (platform : Platform) (w : Answers) (s : Tables) (a : Assertion)
    (t : Tables) : Prop where
  challenge : ∃ row, s.passkeyChallenges.find a.challengeId = some row
  free : s.sessions.find w.uuid = none
  result : ∃ key, s.passkeys.find a.response.id = some key ∧ key.revokedAt = none ∧
    t = { s with
      passkeyChallenges := s.passkeyChallenges.deleteWhere fun id _ => id = a.challengeId
      passkeys := s.passkeys.insert a.response.id (key.asserted w a.info)
      sessions := s.sessions.insert w.uuid (newSession platform w a) }

theorem openSession_eq_ok {a : Assertion} {issued : IssuedSession}
    (h : openSession platform w s a = .ok (t, issued)) : OpensSession platform w s a t := by
  unfold openSession at h
  split at h
  · cases h
  · rename_i row hrow
    obtain ⟨-, h⟩ := guard_eq_ok.1 h
    obtain ⟨u, hrecord, h⟩ := bind_eq_ok.1 h
    obtain ⟨key, hkey, hlive, -, rfl⟩ := recordAssertion_eq_ok hrecord
    simp only [bind_eq_ok, insertRow_eq_ok] at h
    obtain ⟨sessions, ⟨hfree, -, rfl⟩, h⟩ := h
    cases h
    exact ⟨⟨row, hrow⟩, hfree, key, hkey, hlive, rfl⟩

/-! ### Browser authorizations -/

/-- The authorization carries what was requested. -/
structure BrowserAuthorization.Carries (platform : Platform) (row : BrowserAuthorization)
    (input : AuthorizationRequest) : Prop where
  clientId : row.clientId = input.clientId
  redirectUri : row.redirectUri = input.redirectUri
  state : row.state = input.state
  codeHash : row.codeHash = platform.tokenHash input.code
  codeChallenge : row.codeChallenge = input.codeChallenge
  scopes : row.scopes.map Scope.text = input.scopes

/-- The authorization of a code. -/
theorem findAuthorization_eq_some {code : String} {id : Uuid} {row : BrowserAuthorization}
    (h : findAuthorization platform s code = some (id, row)) :
    s.authorizations.find id = some row ∧ row.codeHash = platform.tokenHash code := by
  obtain ⟨hfound, hhash⟩ := Table.select_eq_some h
  exact ⟨hfound, beq_iff_eq.1 hhash⟩

/-- A new authorization was prepared, or the one of the code is answered again. -/
theorem prepareAuthorization_eq_ok {input : AuthorizationRequest}
    {prepared : PreparedAuthorization}
    (h : prepareAuthorization platform w s input = .ok (t, prepared)) :
    (∃ row, (deleteStaleAuthorizations w s).authorizations.find prepared.requestId = some row ∧
        row.Carries platform input ∧ t = deleteStaleAuthorizations w s) ∨
      (prepared.requestId = w.uuid ∧ (newAuthorization platform w input).Carries platform input ∧
        (∀ key other, (deleteStaleAuthorizations w s).authorizations.find key = some other →
          other.codeHash ≠ platform.tokenHash input.code) ∧
        t = { deleteStaleAuthorizations w s with
          authorizations := (deleteStaleAuthorizations w s).authorizations.insert w.uuid
            (newAuthorization platform w input) }) := by
  simp only [prepareAuthorization, guard_eq_ok, bind_eq_ok] at h
  obtain ⟨haccepted, -, -, h⟩ := h
  have hscopes : (requestedScopes input).map Scope.text = input.scopes := by
    rw [Bool.not_eq_true, Bool.not_eq_false'] at haccepted
    simp only [authorizationAccepted, Bool.and_eq_true, beq_iff_eq] at haccepted
    exact haccepted.2
  split at h
  · rename_i id row hfind
    obtain ⟨hconditions, h⟩ := guard_eq_ok.1 h
    cases h
    simp only [not_or, ne_eq, not_not] at hconditions
    obtain ⟨hclient, hredirect, hstate, hcodeChallenge, hrowScopes, -⟩ := hconditions
    obtain ⟨hfound, hhash⟩ := findAuthorization_eq_some hfind
    exact .inl ⟨row, hfound, ⟨hclient, hredirect, hstate, hhash, hcodeChallenge,
      (congrArg _ hrowScopes).trans hscopes⟩, rfl⟩
  · simp only [bind_eq_ok, insertRow_eq_ok] at h
    obtain ⟨authorizations, ⟨-, hunique, rfl⟩, h⟩ := h
    cases h
    refine .inr ⟨rfl, ⟨rfl, rfl, rfl, rfl, rfl, hscopes⟩, fun key other hother heq => ?_, rfl⟩
    have hclash := hunique key other hother
    rw [heq] at hclash
    exact absurd hclash (by simp [newAuthorization])

/-- The authorization was completed for the account of the session, now or before. -/
structure Completes (platform : Platform) (s : Tables) (session : AccountApiSession)
    (requestId : Uuid) (code : String) (t : Tables) : Prop where
  found : ∃ row, s.authorizations.find requestId = some row ∧
    row.codeHash = platform.tokenHash code ∧ row.credentialId = none ∧
    (row.completed = none ∨ row.completed = some (session.accountId, session.generation))
  result : t = { s with
    authorizations := s.authorizations.update requestId fun row =>
      { row with completed := some (session.accountId, session.generation) } }

theorem completeAuthorization_eq_ok {session : AccountApiSession} {requestId : Uuid}
    {state code : String} {redirect : Redirect}
    (h : completeAuthorization platform w s session requestId state code = .ok (t, redirect)) :
    Completes platform s session requestId code t := by
  simp only [completeAuthorization, guard_eq_ok] at h
  obtain ⟨-, -, h⟩ := h
  split at h
  · cases h
  · rename_i row hrow
    obtain ⟨hconditions, h⟩ := guard_eq_ok.1 h
    obtain ⟨howner, h⟩ := guard_eq_ok.1 h
    obtain ⟨_, -, h⟩ := bind_eq_ok.1 h
    cases h
    simp only [not_or, ne_eq, not_not, Option.not_isSome_iff_eq_none] at hconditions
    have hcompleted : row.completed = none ∨
        row.completed = some (session.accountId, session.generation) := by
      cases hcases : row.completed with
      | none => exact .inl rfl
      | some completed =>
        rw [hcases] at howner
        exact .inr (congrArg some (by simpa using howner))
    refine ⟨⟨row, hrow, hconditions.2.1, hconditions.2.2.1, hcompleted⟩, ?_⟩
    rcases hcompleted with hnone | hsome
    · rw [hnone]
      rfl
    · rw [hsome]
      rfl

theorem insertCredential_eq_ok {accountId : Uuid} {tokenHash : Bytes} {scopes : List Scope}
    (h : insertCredential w s accountId tokenHash scopes = .ok t) :
    s.credentials.find w.uuid = none ∧
      (∀ key other, s.credentials.find key = some other → other.tokenHash ≠ tokenHash) ∧
      t = { s with
        credentials := s.credentials.insert w.uuid
          (newCredential w accountId tokenHash scopes) } := by
  simp only [insertCredential, bind_eq_ok, insertRow_eq_ok] at h
  obtain ⟨credentials, ⟨hfree, hunique, rfl⟩, h⟩ := h
  split at h
  · cases h
  · cases h
    refine ⟨hfree, fun key other hother heq => ?_, rfl⟩
    have hclash := hunique key other hother
    rw [heq] at hclash
    exact absurd hclash (by simp [newCredential])

theorem exchangedCredential_eq_ok {input : ExchangeRequest} {accountId credentialId : Uuid}
    {scopes : List Scope} {issued : IssuedCredential} :
    exchangedCredential platform w s input accountId scopes credentialId = .ok issued ↔
      ∃ row, s.credentials.find credentialId = some row ∧ row.accountId = accountId ∧
        row.tokenHash = platform.tokenHash input.token ∧ row.revokedAt = none ∧
        w.now < row.expiresAt ∧
        issued = ⟨platform.origin, accountId, credentialId, input.token, scopes,
          row.expiresAt⟩ := by
  unfold exchangedCredential
  constructor
  · intro h
    split at h
    · cases h
    · rename_i row hrow
      obtain ⟨hconditions, h⟩ := guard_eq_ok.1 h
      cases h
      simp only [not_or, ne_eq, not_not, Option.not_isSome_iff_eq_none, not_le] at hconditions
      exact ⟨row, hrow, hconditions.1, hconditions.2.1, hconditions.2.2.1, hconditions.2.2.2, rfl⟩
  · rintro ⟨row, hrow, haccount, htoken, hlive, hopen, rfl⟩
    rw [hrow]
    refine guard_eq_ok.2 ⟨?_, rfl⟩
    simp only [not_or, ne_eq, not_not, Option.not_isSome_iff_eq_none, not_le]
    exact ⟨haccount, htoken, hlive, hopen⟩

/-- A code can be exchanged: its authorization was completed for an account that is open, and the
request names what it was prepared with. -/
structure Exchangeable (platform : Platform) (w : Answers) (s : Tables) (input : ExchangeRequest)
    (id : Uuid) (row : BrowserAuthorization) (accountId : Uuid) : Prop where
  accepted : exchangeAccepted input = true
  redirect : loopback platform input.redirectUri = .ok ()
  found : findAuthorization platform s input.code = some (id, row)
  completed : ∃ generation, row.completed = some (accountId, generation) ∧
    eligible w accountId generation = true
  redirectUri : row.redirectUri = input.redirectUri
  clientId : row.clientId = input.clientId
  codeChallenge : row.codeChallenge = platform.codeChallenge input.verifier
  isOpen : w.now < row.expiresAt

/-- The exchange of an authorization issued a credential for it. -/
structure Exchanges (platform : Platform) (w : Answers) (s : Tables) (input : ExchangeRequest)
    (id : Uuid) (row : BrowserAuthorization) (accountId : Uuid) (t : Tables) : Prop where
  unused : row.credentialId = none
  free : s.credentials.find w.uuid = none
  token : ∀ key other, s.credentials.find key = some other →
    other.tokenHash ≠ platform.tokenHash input.token
  result : t = { s with
    credentials := s.credentials.insert w.uuid
      (newCredential w accountId (platform.tokenHash input.token) row.scopes)
    authorizations := s.authorizations.update id fun row =>
      { row with credentialId := some w.uuid } }

theorem exchangeAuthorization_eq_ok {input : ExchangeRequest} {r : Tables × IssuedCredential} :
    exchangeAuthorization platform w s input = .ok r ↔
      exchangeAccepted input = true ∧ loopback platform input.redirectUri = .ok () ∧
        exchange platform w s input = .ok r := by
  simp only [exchangeAuthorization, guard_eq_ok, bind_eq_ok, answerConflict_eq_ok,
    Bool.not_eq_true, Bool.not_eq_false']
  refine and_congr_right fun _ => ⟨?_, ?_⟩
  · rintro ⟨_, hloopback, h⟩
    exact ⟨hloopback, h⟩
  · rintro ⟨hloopback, h⟩
    exact ⟨(), hloopback, h⟩

theorem effect_of_exchange {input : ExchangeRequest} {issued : IssuedCredential}
    (h : exchangeAuthorization platform w s input = .ok (t, issued)) :
    ∃ id row accountId, Exchangeable platform w s input id row accountId ∧
      ((t = s ∧ row.credentialId = some issued.credentialId ∧
          exchangedCredential platform w s input accountId row.scopes issued.credentialId =
            .ok issued) ∨
        (Exchanges platform w s input id row accountId t ∧
          exchangedCredential platform w t input accountId row.scopes w.uuid = .ok issued)) := by
  obtain ⟨haccepted, hloopback, h⟩ := exchangeAuthorization_eq_ok.1 h
  unfold exchange at h
  split at h
  · cases h
  · rename_i id row hfind
    split at h
    · cases h
    · rename_i accountId generation hcompleted
      obtain ⟨hconditions, h⟩ := guard_eq_ok.1 h
      simp only [not_or, ne_eq, not_not, not_le, Bool.not_eq_true, Bool.not_eq_false'] at hconditions
      obtain ⟨hclient, hredirect, hcodeChallenge, hopen, heligible⟩ := hconditions
      refine ⟨id, row, accountId, ⟨haccepted, hloopback, hfind, ⟨generation, hcompleted, heligible⟩,
        hredirect, hclient, hcodeChallenge, hopen⟩, ?_⟩
      split at h
      · rename_i credentialId hcredential
        obtain ⟨issued', hissued, h⟩ := bind_eq_ok.1 h
        cases h
        have hid : issued.credentialId = credentialId := by
          obtain ⟨_, -, -, -, -, -, rfl⟩ := exchangedCredential_eq_ok.1 hissued
          rfl
        rw [hid]
        exact .inl ⟨rfl, hcredential, hissued⟩
      · rename_i hunused
        obtain ⟨-, h⟩ := guard_eq_ok.1 h
        obtain ⟨u, hinsert, h⟩ := bind_eq_ok.1 h
        obtain ⟨issued', hissued, h⟩ := bind_eq_ok.1 h
        cases h
        obtain ⟨hfree, htoken, rfl⟩ := insertCredential_eq_ok hinsert
        exact .inr ⟨⟨hunused, hfree, htoken, rfl⟩, hissued⟩

/-- A live key that is not the only one was revoked, with its sessions. -/
structure Revokes (w : Answers) (s : Tables) (session : AccountApiSession) (credentialId : String)
    (t : Tables) : Prop where
  live : ∃ row, (credentialId, row) ∈ liveKeys s session.accountId session.generation
  another : (liveKeys s session.accountId session.generation).length ≠ 1
  result : t = { s with
    passkeys := s.passkeys.update credentialId fun row => { row with revokedAt := some w.now }
    sessions := s.sessions.updateWhere
      (fun _ row => row.credentialId == credentialId && row.revokedAt.isNone)
      fun row => { row with revokedAt := some w.now } }

theorem revoke_eq_ok {session : AccountApiSession} {credentialId : String}
    (h : revoke w s session credentialId = .ok t) : Revokes w s session credentialId t := by
  simp only [revoke, bind_eq_ok, guard_eq_ok] at h
  obtain ⟨-, -, -, hlive, hanother, h⟩ := h
  cases h
  rw [Bool.not_eq_true, Bool.not_eq_false', List.any_eq_true] at hlive
  obtain ⟨⟨credentialId', row⟩, hmem, hid⟩ := hlive
  obtain rfl := beq_iff_eq.1 hid
  exact ⟨⟨row, hmem⟩, fun hone => hanother (.inr hone), rfl⟩

/-! ### Logins with an owner key -/

/-- A request was given a new challenge, or the one that its token already has. -/
theorem accessPrepare_eq_ok {input : AccessRequest} {challenge : Challenge}
    (h : accessPrepare platform w s input = .ok (t, challenge)) :
    ∃ token, accessToken input = .ok token ∧
      ((∃ id row, (deleteStaleAccess w s).accessChallenges.find id = some row ∧
          row.tokenHash = token ∧ row.payload = challenge ∧ challenge.Requests input ∧
          t = deleteStaleAccess w s) ∨
        (challenge = newChallenge platform w input ∧
          (∀ key other, (deleteStaleAccess w s).accessChallenges.find key = some other →
            other.tokenHash ≠ token) ∧
          t = { deleteStaleAccess w s with
            accessChallenges := (deleteStaleAccess w s).accessChallenges.insert w.uuid
              (newAccessRow w token challenge) })) := by
  obtain ⟨token, htoken, h⟩ := bind_eq_ok.1 h
  refine ⟨token, htoken, ?_⟩
  dsimp only at h
  split at h
  · rename_i id row hselect
    obtain ⟨hconditions, h⟩ := guard_eq_ok.1 h
    cases h
    obtain ⟨hfound, hcondition⟩ := Table.select_eq_some hselect
    simp only [not_or, not_not, ne_eq] at hconditions
    simp only [Bool.and_eq_true, beq_iff_eq] at hcondition
    exact .inl ⟨id, row, hfound, hcondition.1, rfl, hconditions.2, rfl⟩
  · simp only [guard_eq_ok, bind_eq_ok, insertRow_eq_ok] at h
    obtain ⟨-, -, challenges, ⟨-, hunique, rfl⟩, h⟩ := h
    cases h
    refine .inr ⟨rfl, fun key other hother heq => ?_, rfl⟩
    have hclash := hunique key other hother
    rw [heq] at hclash
    exact absurd hclash (by simp [newAccessRow])

theorem requests_newChallenge (input : AccessRequest) :
    (newChallenge platform w input).Requests input := ⟨rfl, rfl, rfl, rfl, rfl⟩

/-- The owner signed an open challenge. -/
structure ProvesOwner (platform : Platform) (s : Tables) (token : String) (p : AccessProof) :
    Prop where
  token : p.token = token
  found : ∃ row, s.accessChallenges.find p.id = some row ∧ row.payload = p.challenge ∧
    row.tokenHash = platform.tokenHash p.token
  signed : ∃ signature, platform.verifyOwner p.challenge signature = true ∧
    p.completionHash = platform.digest signature

theorem accessComplete_eq_ok {id : Uuid} {token encodedSignature : String} {p : AccessProof}
    (h : accessComplete platform w s id token encodedSignature = .ok p) :
    ProvesOwner platform s token p := by
  simp only [accessComplete, guard_eq_ok] at h
  obtain ⟨-, h⟩ := h
  split at h
  · cases h
  · rename_i signature hsignature
    obtain ⟨-, h⟩ := guard_eq_ok.1 h
    split at h
    · cases h
    · rename_i row hrow
      simp only [guard_eq_ok, not_or, ne_eq, not_not, Bool.not_eq_true, Bool.not_eq_false'] at h
      obtain ⟨⟨htoken, -⟩, -, hverify, h⟩ := h
      cases h
      exact ⟨rfl, ⟨row, hrow, rfl, htoken⟩, signature, hverify, rfl⟩

/-- The account of a challenge can log in now, and its owner has the key that signed it. -/
structure Approves (platform : Platform) (w : Answers) (challenge : Challenge)
    (generation : Nat) : Prop where
  account : ∃ account, w.accounts challenge.accountId = some account ∧
    account.did = some challenge.did ∧ account.active = true ∧ account.fenced = false ∧
    account.generation = some generation
  owner : ∃ evidence current, independentOwner w challenge = .ok evidence ∧
    w.resolve challenge.did = some current ∧
    ownerMatches platform w challenge evidence current = true

/-- The challenge was locked for its completion. -/
structure Locks (platform : Platform) (w : Answers) (s : Tables) (p : AccessProof)
    (stored : AccessChallenge) : Prop where
  found : s.accessChallenges.find p.id = some stored
  approves : Approves platform w p.challenge stored.generation
  completion : ∀ hash, stored.completionHash = some hash → hash = p.completionHash

theorem lockAccess_eq_ok {p : AccessProof} {stored : AccessChallenge}
    (h : lockAccess platform w s p = .ok stored) : Locks platform w s p stored := by
  unfold lockAccess at h
  split at h
  · cases h
  · rename_i account haccount
    obtain ⟨hactive, h⟩ := guard_eq_ok.1 h
    obtain ⟨hfenced, h⟩ := guard_eq_ok.1 h
    split at h
    · cases h
    · rename_i row hrow
      obtain ⟨hcurrent, h⟩ := guard_eq_ok.1 h
      obtain ⟨evidence, hevidence, h⟩ := bind_eq_ok.1 h
      split at h
      · cases h
      · rename_i current hresolve
        obtain ⟨hmatches, h⟩ := guard_eq_ok.1 h
        obtain ⟨hcompletion, h⟩ := guard_eq_ok.1 h
        cases h
        simp only [not_or, ne_eq, not_not, Bool.not_eq_true, Bool.not_eq_false'] at hactive
        simp only [not_or, ne_eq, not_not] at hcurrent
        simp only [not_or, Bool.not_eq_true, Bool.not_eq_false'] at hmatches
        refine ⟨hrow, ⟨⟨account, haccount, hactive.1, hactive.2, by simpa using hfenced,
          hcurrent.1⟩, evidence, current, hevidence, hresolve, hmatches.2⟩, fun hash hhash => ?_⟩
        rw [hhash] at hcompletion
        simpa using hcompletion

theorem consumeAccess_eq_ok {p : AccessProof} {complete : AccessChallenge → AccessChallenge}
    (h : consumeAccess w s p complete = .ok t) :
    ∃ row, s.accessChallenges.find p.id = some row ∧
      t = { s with accessChallenges := s.accessChallenges.insert p.id (complete row) } := by
  unfold consumeAccess at h
  split at h
  · cases h
  · rename_i row hrow
    simp only [guard_eq_ok] at h
    obtain ⟨-, -, h⟩ := h
    cases h
    exact ⟨row, hrow, rfl⟩

theorem accessCredential_eq_ok {p : AccessProof} {credentialId : Uuid} {result : AccessResult} :
    accessCredential platform w s p credentialId = .ok result ↔
      ∃ row stored, s.credentials.find credentialId = some row ∧
        s.accessChallenges.find p.id = some stored ∧ row.accountId = p.challenge.accountId ∧
        row.tokenHash = platform.tokenHash p.token ∧ row.revokedAt = none ∧
        w.clock 2 < row.expiresAt ∧ w.clock 2 < stored.expiresAt ∧ w.aborted 2 = false ∧
        result = .credential ⟨platform.provider, p.challenge.accountId, credentialId, p.token,
          p.challenge.scopes, row.expiresAt⟩ := by
  unfold accessCredential
  constructor
  · intro h
    split at h
    · rename_i row stored hrow hstored
      obtain ⟨hconditions, h⟩ := guard_eq_ok.1 h
      cases h
      simp only [not_or, ne_eq, not_not, not_le, Bool.not_eq_true,
        Option.isSome_eq_false_iff, Option.isNone_iff_eq_none] at hconditions
      obtain ⟨haccount, htoken, hlive, hopen, hstoredOpen, haborted⟩ := hconditions
      exact ⟨row, stored, hrow, hstored, haccount, htoken, hlive, hopen, hstoredOpen, haborted,
        rfl⟩
    · cases h
  · rintro ⟨row, stored, hrow, hstored, haccount, htoken, hlive, hopen, hstoredOpen, haborted, rfl⟩
    rw [hrow, hstored]
    refine guard_eq_ok.2 ⟨?_, rfl⟩
    simp only [not_or, ne_eq, not_not, not_le, Bool.not_eq_true,
      Option.isSome_eq_false_iff, Option.isNone_iff_eq_none]
    exact ⟨haccount, htoken, hlive, hopen, hstoredOpen, haborted⟩

theorem issuedEnrollment_eq_ok {p : AccessProof} {capabilityId : Uuid} {result : AccessResult} :
    issuedEnrollment platform w s p capabilityId = .ok result ↔
      ∃ row, s.capabilities.find capabilityId = some row ∧
        row.tokenHash = platform.tokenHash p.token ∧ row.credentialId = none ∧
        w.clock 2 < row.expiresAt ∧ w.aborted 2 = false ∧
        result = .enrollment ⟨platform.provider, p.challenge.accountId, p.token,
          row.expiresAt⟩ := by
  unfold issuedEnrollment
  constructor
  · intro h
    split at h
    · cases h
    · rename_i row hrow
      obtain ⟨hconditions, h⟩ := guard_eq_ok.1 h
      cases h
      simp only [not_or, ne_eq, not_not, not_le, Bool.not_eq_true,
        Option.isSome_eq_false_iff, Option.isNone_iff_eq_none] at hconditions
      obtain ⟨htoken, hunused, hopen, haborted⟩ := hconditions
      exact ⟨row, hrow, htoken, hunused, hopen, haborted, rfl⟩
  · rintro ⟨row, hrow, htoken, hunused, hopen, haborted, rfl⟩
    rw [hrow]
    refine guard_eq_ok.2 ⟨?_, rfl⟩
    simp only [not_or, ne_eq, not_not, not_le, Bool.not_eq_true,
      Option.isSome_eq_false_iff, Option.isNone_iff_eq_none]
    exact ⟨htoken, hunused, hopen, haborted⟩

/-- The completion issued an API credential for the challenge. -/
structure LogsIn (platform : Platform) (w : Answers) (s : Tables) (p : AccessProof)
    (stored : AccessChallenge) (t : Tables) : Prop where
  unused : stored.credentialId = none
  free : s.credentials.find w.uuid = none
  token : ∀ key other, s.credentials.find key = some other →
    other.tokenHash ≠ platform.tokenHash p.token
  result : t = { s with
    credentials := s.credentials.insert w.uuid
      (newCredential w p.challenge.accountId (platform.tokenHash p.token) p.challenge.scopes)
    accessChallenges := s.accessChallenges.insert p.id
      (stored.loggedIn p w.uuid) }

/-- The completion issued an enrollment capability for the challenge. -/
structure Enrolls (platform : Platform) (w : Answers) (s : Tables) (p : AccessProof)
    (stored : AccessChallenge) (t : Tables) : Prop where
  unused : stored.enrollmentCapabilityId = none
  free : s.capabilities.find w.uuid = none
  token : ∀ key other, s.capabilities.find key = some other →
    other.tokenHash ≠ platform.tokenHash p.token
  result : ∃ row : EnrollmentCapability, row.accountId = p.challenge.accountId ∧
    row.tokenHash = platform.tokenHash p.token ∧ row.credentialId = none ∧
    t = { s with
      capabilities := s.capabilities.insert w.uuid row
      accessChallenges := s.accessChallenges.insert p.id
        (stored.enrolled p w.uuid) }

/-- A completion issues what the purpose of its challenge says, or answers with what it issued. -/
inductive CompletesAccess (platform : Platform) (w : Answers) (s : Tables) (p : AccessProof)
    (stored : AccessChallenge) : Tables → AccessResult → Prop
  | login {t : Tables} {result : AccessResult} (purpose : p.challenge.purpose = .newApiCredential)
      (h : LogsIn platform w s p stored t)
      (issued : accessCredential platform w t p w.uuid = .ok result) :
      CompletesAccess platform w s p stored t result
  | loginAgain {id : Uuid} {result : AccessResult}
      (purpose : p.challenge.purpose = .newApiCredential) (h : stored.credentialId = some id)
      (issued : accessCredential platform w s p id = .ok result) :
      CompletesAccess platform w s p stored s result
  | enroll {t : Tables} {result : AccessResult} (purpose : p.challenge.purpose = .passkeyEnrollment)
      (h : Enrolls platform w s p stored t)
      (issued : issuedEnrollment platform w t p w.uuid = .ok result) :
      CompletesAccess platform w s p stored t result
  | enrollAgain {id : Uuid} {result : AccessResult}
      (purpose : p.challenge.purpose = .passkeyEnrollment)
      (h : stored.enrollmentCapabilityId = some id)
      (issued : issuedEnrollment platform w s p id = .ok result) :
      CompletesAccess platform w s p stored s result

theorem completeLogin_eq_ok {p : AccessProof} {stored : AccessChallenge} {result : AccessResult}
    (hpurpose : p.challenge.purpose = .newApiCredential)
    (hfound : s.accessChallenges.find p.id = some stored)
    (h : completeLogin platform w s p stored = .ok (t, result)) :
    CompletesAccess platform w s p stored t result := by
  unfold completeLogin at h
  split at h
  · rename_i id hid
    obtain ⟨result', hissued, h⟩ := bind_eq_ok.1 h
    cases h
    exact .loginAgain hpurpose hid hissued
  · rename_i hunused
    obtain ⟨-, h⟩ := guard_eq_ok.1 h
    obtain ⟨u, hinsert, h⟩ := bind_eq_ok.1 h
    obtain ⟨v, hconsume, h⟩ := bind_eq_ok.1 h
    obtain ⟨result', hissued, h⟩ := bind_eq_ok.1 h
    cases h
    obtain ⟨hfree, htoken, rfl⟩ := insertCredential_eq_ok hinsert
    obtain ⟨row, hrow, rfl⟩ := consumeAccess_eq_ok hconsume
    cases hfound.symm.trans hrow
    exact .login hpurpose ⟨hunused, hfree, htoken, rfl⟩ hissued

theorem completeEnrollment_eq_ok {p : AccessProof} {stored : AccessChallenge}
    {result : AccessResult} (hpurpose : p.challenge.purpose = .passkeyEnrollment)
    (hfound : s.accessChallenges.find p.id = some stored)
    (h : completeEnrollment platform w s p stored = .ok (t, result)) :
    CompletesAccess platform w s p stored t result := by
  unfold completeEnrollment at h
  split at h
  · rename_i id hid
    obtain ⟨result', hissued, h⟩ := bind_eq_ok.1 h
    cases h
    exact .enrollAgain hpurpose hid hissued
  · rename_i hunused
    obtain ⟨capabilities, hinsert, h⟩ := bind_eq_ok.1 h
    obtain ⟨v, hconsume, h⟩ := bind_eq_ok.1 h
    obtain ⟨result', hissued, h⟩ := bind_eq_ok.1 h
    cases h
    have hinserted := mapError_eq_ok.1 hinsert
    obtain ⟨hfree, htoken, rfl⟩ := insertRow_eq_ok.1 hinserted
    obtain ⟨row, hrow, rfl⟩ := consumeAccess_eq_ok hconsume
    cases hfound.symm.trans hrow
    refine .enroll hpurpose
      ⟨hunused, hfree, fun key other hother heq => ?_, _, rfl, rfl, rfl, rfl⟩ hissued
    have hclash := htoken key other hother
    rw [heq] at hclash
    exact absurd hclash (by simp)

theorem completeAccess_eq_ok {p : AccessProof} {result : AccessResult}
    (h : completeAccess platform w s p = .ok (t, result)) :
    ∃ stored, Locks platform w s p stored ∧ CompletesAccess platform w s p stored t result := by
  obtain ⟨stored, hlock, h⟩ := bind_eq_ok.1 h
  have hlocks := lockAccess_eq_ok hlock
  refine ⟨stored, hlocks, ?_⟩
  split at h
  · rename_i hpurpose
    exact completeEnrollment_eq_ok hpurpose hlocks.found h
  · rename_i hpurpose
    exact completeLogin_eq_ok hpurpose hlocks.found h

end HailProto.Access
