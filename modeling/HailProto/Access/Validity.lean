import HailProto.Access.Origins

/-!
# What the tables remember

The tables agree with the requests that were answered: an authorization carries what its code was
prepared with and the account that completed it, a challenge what its client asked for, and a
credential what it was issued for. Calls that are under way and responses that were given stay in
agreement with the tables while others work on them.
-/

namespace HailProto.Access

open Server

variable {platform : Platform} {w : Answers} {s t : State}

/-! ### What was answered -/

/-- A request to prepare an authorization was answered with the ID. -/
def State.Requested (s : State) (id : Uuid) (input : AuthorizationRequest) : Prop :=
  ∃ e ∈ s.history, ∃ prepared, e.call = .request (.prepareAuthorization input) ∧
    e.progress = .done (.prepared prepared) ∧ prepared.requestId = id

/-- A session of the account completed the authorization. -/
def State.ApprovedFor (s : State) (id accountId : Uuid) (generation : Nat) : Prop :=
  ∃ e ∈ s.history, ∃ session state code redirect,
    e.call = .request (.completeAuthorization session id state code) ∧
    e.progress = .done (.redirect redirect) ∧ session.accountId = accountId ∧
    session.generation = generation

/-- A request for a login was answered with the challenge, which carries it. -/
def State.RequestedLogin (s : State) (challenge : Challenge) : Prop :=
  ∃ e ∈ s.history, ∃ input, e.call = .request (.accessPrepare input) ∧
    e.progress = .done (.challenge challenge) ∧ challenge.Requests input

/-- The owner of the challenge signed it. -/
def SignedByOwner (platform : Platform) (p : AccessProof) : Prop :=
  ∃ signature, platform.verifyOwner p.challenge signature = true ∧
    p.completionHash = platform.digest signature

/-! ### Rows -/

/-- The credential is in the table as it was issued. -/
structure Holds (platform : Platform) (s : Tables) (token : String) (issued : IssuedCredential) :
    Prop where
  same : issued.token = token
  row : ∃ row, s.credentials.find issued.credentialId = some row ∧
    row.accountId = issued.accountId ∧ row.scopes = issued.scopes ∧
    row.tokenHash = platform.tokenHash token ∧ row.expiresAt = issued.expiresAt

/-- The row of an authorization agrees with what was answered. -/
structure AuthorizationSound (platform : Platform) (s : State) (id : Uuid)
    (row : BrowserAuthorization) : Prop where
  requested : ∃ input, s.Requested id input ∧ row.Carries platform input
  approved : ∀ accountId generation, row.completed = some (accountId, generation) →
    s.ApprovedFor id accountId generation
  credential : ∀ credentialId, row.credentialId = some credentialId →
    ∃ credential accountId generation, s.tables.credentials.find credentialId = some credential ∧
      row.completed = some (accountId, generation) ∧ credential.accountId = accountId ∧
      credential.scopes = row.scopes

/-- The row of a challenge agrees with what was answered. -/
structure AccessSound (s : State) (row : AccessChallenge) : Prop where
  requested : s.RequestedLogin row.payload
  credential : ∀ credentialId, row.credentialId = some credentialId →
    ∃ credential, s.tables.credentials.find credentialId = some credential ∧
      credential.accountId = row.payload.accountId ∧ credential.scopes = row.payload.scopes

/-! ### Calls and responses -/

/-- The challenge is one for a login, or gone. -/
structure AuthenticationChallenge (s : State) (id : Uuid) : Prop where
  drawn : id ∈ s.drawn
  purpose : ∀ row, s.tables.passkeyChallenges.find id = some row → row.purpose = .authentication

/-- The proof is for the challenge as it is stored, unless that is gone. -/
structure ProofSound (platform : Platform) (s : State) (p : AccessProof) : Prop where
  drawn : p.id ∈ s.drawn
  stored : ∀ row, s.tables.accessChallenges.find p.id = some row →
    row.payload = p.challenge ∧ row.tokenHash = platform.tokenHash p.token
  requested : s.RequestedLogin p.challenge
  signed : SignedByOwner platform p

def Call.Sound (platform : Platform) (s : State) : Call → Prop
  | .verifyAssertion challengeId _ _ => AuthenticationChallenge s challengeId
  | .openSession a => AuthenticationChallenge s a.challengeId
  | .completeAccess p => ProofSound platform s p
  | _ => True

/-- What an exchange answered was requested and approved, and the credential is held. -/
structure ExchangeSound (platform : Platform) (s : State) (input : ExchangeRequest)
    (issued : IssuedCredential) : Prop where
  holds : Holds platform s.tables input.token issued
  granted : ∃ id request generation, s.Requested id request ∧
    platform.tokenHash request.code = platform.tokenHash input.code ∧
    request.redirectUri = input.redirectUri ∧
    request.codeChallenge = platform.codeChallenge input.verifier ∧
    issued.scopes.map Scope.text = request.scopes ∧
    s.ApprovedFor id issued.accountId generation
  provider : issued.provider = platform.origin

/-- What a login answered was requested and proved, for the account whose owner signed it. -/
structure LoginSound (platform : Platform) (s : State) (w : Answers) (p : AccessProof)
    (issued : IssuedCredential) : Prop where
  holds : Holds platform s.tables p.token issued
  requested : s.RequestedLogin p.challenge
  signed : SignedByOwner platform p
  approved : ∃ generation, Approves platform w p.challenge generation
  account : issued.accountId = p.challenge.accountId
  scopes : issued.scopes = p.challenge.scopes
  provider : issued.provider = platform.provider
  purpose : p.challenge.purpose = .newApiCredential
  stored : ∀ row, s.tables.accessChallenges.find p.id = some row →
    row.credentialId = some issued.credentialId ∧ row.payload = p.challenge ∧
      row.tokenHash = platform.tokenHash p.token

/-- A response is in agreement with the tables. -/
structure Committed.Sound (platform : Platform) (s : State) (e : Committed) : Prop where
  exchanged : ∀ input issued, e.call = .request (.exchangeAuthorization input) →
    e.progress = .done (.credential issued) → ExchangeSound platform s input issued
  loggedIn : ∀ p issued, e.call = .completeAccess p →
    e.progress = .done (.access (.credential issued)) →
    p.id ∈ s.drawn ∧ LoginSound platform s e.answers p issued
  recovered : ∀ r capabilityId registered, e.call = .completeRegistration r →
    r.capabilityId = some capabilityId → e.progress = .done (.registered registered) →
    capabilityId ∈ s.drawn ∧
      (∃ key, s.tables.passkeys.find registered.credentialId = some key) ∧
      ∀ row, s.tables.capabilities.find capabilityId = some row →
        row.credentialId = some registered.credentialId

/-- Identifiers of rows were drawn. -/
structure State.Drawn (s : State) : Prop where
  passkeyChallenges : ∀ id row, s.tables.passkeyChallenges.find id = some row → id ∈ s.drawn
  capabilities : ∀ id row, s.tables.capabilities.find id = some row → id ∈ s.drawn
  authorizations : ∀ id row, s.tables.authorizations.find id = some row → id ∈ s.drawn
  accessChallenges : ∀ id row, s.tables.accessChallenges.find id = some row → id ∈ s.drawn

/-- The tables, the calls and the responses agree. -/
structure State.Valid (platform : Platform) (s : State) : Prop where
  ids : s.Drawn
  purposes : ∀ id row, s.tables.passkeyChallenges.find id = some row →
    row.enrollmentCapabilityId.isSome → row.purpose = .registration
  foreign : s.tables.Foreign
  tokens : s.tables.credentials.UniqueOn ApiCredential.tokenHash
  codes : s.tables.authorizations.UniqueOn BrowserAuthorization.codeHash
  authorizations : ∀ id row, s.tables.authorizations.find id = some row →
    AuthorizationSound platform s id row
  accessChallenges : ∀ id row, s.tables.accessChallenges.find id = some row → AccessSound s row
  calls : ∀ call ∈ s.calls, call.Sound platform s
  history : ∀ e ∈ s.history, e.Sound platform s

/-! ### Later states -/

/-- A state after one step: the tables evolved, and nothing that was answered or drawn is gone. -/
structure State.Later (w : Answers) (s t : State) : Prop where
  evolves : s.tables.Evolves w t.tables
  history : ∀ e ∈ s.history, e ∈ t.history
  drawn : ∀ id ∈ s.drawn, id ∈ t.drawn
  fresh : w.uuid ∉ s.drawn
  new : w.uuid ∈ t.drawn

section Later

variable (hlater : s.Later w t)
include hlater

theorem State.Requested.mono {id : Uuid} {input : AuthorizationRequest}
    (h : s.Requested id input) : t.Requested id input := by
  obtain ⟨e, he, hrest⟩ := h
  exact ⟨e, hlater.history e he, hrest⟩

theorem State.ApprovedFor.mono {id accountId : Uuid} {generation : Nat}
    (h : s.ApprovedFor id accountId generation) : t.ApprovedFor id accountId generation := by
  obtain ⟨e, he, hrest⟩ := h
  exact ⟨e, hlater.history e he, hrest⟩

theorem State.RequestedLogin.mono {challenge : Challenge} (h : s.RequestedLogin challenge) :
    t.RequestedLogin challenge := by
  obtain ⟨e, he, hrest⟩ := h
  exact ⟨e, hlater.history e he, hrest⟩

omit hlater in
theorem Holds.mono {u v : Tables} {token : String} {issued : IssuedCredential}
    (hevolves : u.Evolves w v) (h : Holds platform u token issued) :
    Holds platform v token issued := by
  obtain ⟨row, hrow, haccount, hscopes, htoken, hexpires⟩ := h.row
  obtain ⟨row', hrow', hgrows, -⟩ := hevolves.keepsCredentials _ row hrow
  refine ⟨h.same, row', hrow', ?_⟩
  rw [hgrows]
  exact ⟨haccount, hscopes, htoken, hexpires⟩

theorem AuthorizationSound.mono {id : Uuid} {row : BrowserAuthorization}
    (h : AuthorizationSound platform s id row) : AuthorizationSound platform t id row where
  requested := by
    obtain ⟨input, hrequested, hcarries⟩ := h.requested
    exact ⟨input, hrequested.mono hlater, hcarries⟩
  approved accountId generation hcompleted :=
    (h.approved accountId generation hcompleted).mono hlater
  credential credentialId hcredential := by
    obtain ⟨credential, accountId, generation, hfound, hcompleted, haccount, hscopes⟩ :=
      h.credential credentialId hcredential
    obtain ⟨row', hrow', hgrows, -⟩ := hlater.evolves.keepsCredentials _ credential hfound
    refine ⟨row', accountId, generation, hrow', hcompleted, ?_⟩
    rw [hgrows]
    exact ⟨haccount, hscopes⟩

theorem AccessSound.mono {row : AccessChallenge} (h : AccessSound s row) : AccessSound t row where
  requested := h.requested.mono hlater
  credential credentialId hcredential := by
    obtain ⟨credential, hfound, haccount, hscopes⟩ := h.credential credentialId hcredential
    obtain ⟨row', hrow', hgrows, -⟩ := hlater.evolves.keepsCredentials _ credential hfound
    refine ⟨row', hrow', ?_⟩
    rw [hgrows]
    exact ⟨haccount, hscopes⟩

/-- The row of a drawn challenge was there before. -/
theorem State.Later.passkeyChallenge {id : Uuid} {row : PasskeyChallenge} (hid : id ∈ s.drawn)
    (h : t.tables.passkeyChallenges.find id = some row) :
    s.tables.passkeyChallenges.find id = some row := by
  rcases hlater.evolves.passkeyChallenges id row h with ⟨rfl, -⟩ | ⟨old, hold, rfl⟩
  · exact absurd hid hlater.fresh
  · exact hold

/-- The row of a drawn access challenge grew from the one before. -/
theorem State.Later.accessChallenge {id : Uuid} {row : AccessChallenge} (hid : id ∈ s.drawn)
    (h : t.tables.accessChallenges.find id = some row) :
    ∃ old, s.tables.accessChallenges.find id = some old ∧ old.Grows row := by
  rcases hlater.evolves.accessChallenges id row h with ⟨rfl, -⟩ | hold
  · exact absurd hid hlater.fresh
  · exact hold

theorem State.Later.capability {id : Uuid} {row : EnrollmentCapability} (hid : id ∈ s.drawn)
    (h : t.tables.capabilities.find id = some row) :
    ∃ old, s.tables.capabilities.find id = some old ∧ old.Grows row := by
  rcases hlater.evolves.capabilities id row h with rfl | hold
  · exact absurd hid hlater.fresh
  · exact hold

theorem State.Later.authorization {id : Uuid} {row : BrowserAuthorization} (hid : id ∈ s.drawn)
    (h : t.tables.authorizations.find id = some row) :
    ∃ old, s.tables.authorizations.find id = some old ∧ old.Grows row := by
  rcases hlater.evolves.authorizations id row h with ⟨rfl, -, -⟩ | hold
  · exact absurd hid hlater.fresh
  · exact hold

theorem AuthenticationChallenge.mono {id : Uuid} (h : AuthenticationChallenge s id) :
    AuthenticationChallenge t id :=
  ⟨hlater.drawn id h.drawn, fun row hrow => h.purpose row (hlater.passkeyChallenge h.drawn hrow)⟩

theorem ProofSound.mono {p : AccessProof} (h : ProofSound platform s p) :
    ProofSound platform t p where
  drawn := hlater.drawn p.id h.drawn
  stored row hrow := by
    obtain ⟨old, hold, hgrows, -⟩ := hlater.accessChallenge h.drawn hrow
    rw [hgrows]
    exact h.stored old hold
  requested := h.requested.mono hlater
  signed := h.signed

theorem Call.Sound.mono {call : Call} (h : call.Sound platform s) : call.Sound platform t := by
  cases call with
  | verifyAssertion challengeId challenge response => exact AuthenticationChallenge.mono hlater h
  | openSession a => exact AuthenticationChallenge.mono hlater h
  | completeAccess p => exact ProofSound.mono hlater h
  | request | registrationDelete | registrationInsert | completeRegistration | recoverySelect
  | recoveryKeys | recoveryInsert | authenticationInsert => trivial

theorem Committed.Sound.mono {e : Committed} (h : e.Sound platform s) : e.Sound platform t where
  exchanged input issued hcall hprogress := by
    obtain ⟨hholds, ⟨id, request, generation, hrequested, hcode, hredirect, hchallenge, hscopes,
      happroved⟩, hprovider⟩ := h.exchanged input issued hcall hprogress
    exact ⟨hholds.mono hlater.evolves, ⟨id, request, generation, hrequested.mono hlater, hcode,
      hredirect, hchallenge, hscopes, happroved.mono hlater⟩, hprovider⟩
  loggedIn p issued hcall hprogress := by
    obtain ⟨hdrawn, hsound⟩ := h.loggedIn p issued hcall hprogress
    refine ⟨hlater.drawn p.id hdrawn, { hsound with
      holds := hsound.holds.mono hlater.evolves
      requested := hsound.requested.mono hlater
      stored := fun row hrow => ?_ }⟩
    obtain ⟨old, hold, hgrows, hstays⟩ := hlater.accessChallenge hdrawn hrow
    obtain ⟨hcredential, hstored⟩ := hsound.stored old hold
    refine ⟨hstays _ hcredential, ?_⟩
    rw [hgrows]
    exact hstored
  recovered r capabilityId registered hcall hnamed hprogress := by
    obtain ⟨hdrawn, ⟨key, hkey⟩, hholds⟩ :=
      h.recovered r capabilityId registered hcall hnamed hprogress
    obtain ⟨key', hkey', -⟩ := hlater.evolves.passkeys _ key hkey
    refine ⟨hlater.drawn capabilityId hdrawn, ⟨key', hkey'⟩, fun row hrow => ?_⟩
    obtain ⟨old, hold, -, hstays⟩ := hlater.capability hdrawn hrow
    exact hstays _ (hholds old hold)

theorem State.Drawn.mono (h : s.Drawn) : t.Drawn where
  passkeyChallenges id row hrow := by
    rcases hlater.evolves.passkeyChallenges id row hrow with ⟨rfl, -⟩ | ⟨old, hold, -⟩
    · exact hlater.new
    · exact hlater.drawn id (h.passkeyChallenges id old hold)
  capabilities id row hrow := by
    rcases hlater.evolves.capabilities id row hrow with rfl | ⟨old, hold, -⟩
    · exact hlater.new
    · exact hlater.drawn id (h.capabilities id old hold)
  authorizations id row hrow := by
    rcases hlater.evolves.authorizations id row hrow with ⟨rfl, -, -⟩ | ⟨old, hold, -⟩
    · exact hlater.new
    · exact hlater.drawn id (h.authorizations id old hold)
  accessChallenges id row hrow := by
    rcases hlater.evolves.accessChallenges id row hrow with ⟨rfl, -⟩ | ⟨old, hold, -⟩
    · exact hlater.new
    · exact hlater.drawn id (h.accessChallenges id old hold)

/-- A later state is valid when its new rows, calls and responses agree with it. -/
theorem State.Valid.later (h : s.Valid platform)
    (hauthorizations : ∀ id row, t.tables.authorizations.find id = some row →
      s.tables.authorizations.find id = some row ∨ AuthorizationSound platform t id row)
    (haccess : ∀ id row, t.tables.accessChallenges.find id = some row →
      s.tables.accessChallenges.find id = some row ∨ AccessSound t row)
    (hcalls : ∀ call ∈ t.calls, call ∈ s.calls ∨ call.Sound platform t)
    (hhistory : ∀ e ∈ t.history, e ∈ s.history ∨ e.Sound platform t) : t.Valid platform where
  ids := h.ids.mono hlater
  purposes id row hrow hsome := by
    rcases hlater.evolves.passkeyChallenges id row hrow with ⟨-, hpurpose⟩ | ⟨old, hold, rfl⟩
    · exact hpurpose hsome
    · exact h.purposes id old hold hsome
  foreign := hlater.evolves.foreign h.foreign
  tokens := hlater.evolves.tokens h.tokens
  codes := hlater.evolves.codes h.codes
  authorizations id row hrow :=
    (hauthorizations id row hrow).elim (fun hold => (h.authorizations id row hold).mono hlater)
      fun hnew => hnew
  accessChallenges id row hrow :=
    (haccess id row hrow).elim (fun hold => (h.accessChallenges id row hold).mono hlater)
      fun hnew => hnew
  calls call hcall := 
    (hcalls call hcall).elim (fun hold => (h.calls call hold).mono hlater) fun hnew => hnew
  history e he := 
    (hhistory e he).elim (fun hold => (h.history e hold).mono hlater) fun hnew => hnew

end Later

end HailProto.Access
