import HailProto.Access.Validity

/-!
# Runs of the ceremonies

Every step keeps the tables, the calls and the responses in agreement, and so does every run.
-/

namespace HailProto.Access

open Server

variable {platform : Platform} {w : Answers} {s t : State} {tables : Tables} {call : Call}
  {progress : Progress}

/-- What is left of a call is sound in the state that it read. -/
theorem sound_next {next : Call} (hs : s.Valid platform) (hcall : call.Sound platform s)
    (h : advanceCall platform w s.tables call = .ok (tables, .next next)) :
    next.Sound platform s := by
  cases call with
  | request request =>
    cases request with
    | registrationOptions session | register session challengeId response label
    | recover token challengeId response label =>
      obtain ⟨_, -, h⟩ := bind_eq_ok.1 h
      cases h
      trivial
    | recoveryOptions token =>
      obtain ⟨-, h⟩ := guard_eq_ok.1 h
      cases h
      trivial
    | authenticationOptions =>
      cases h
      trivial
    | authenticate challengeId response =>
      obtain ⟨challenge, hread, h⟩ := bind_eq_ok.1 h
      cases h
      obtain ⟨-, hread⟩ := guard_eq_ok.1 hread
      unfold findChallenge at hread
      split at hread
      · cases hread
      · rename_i row hrow
        obtain ⟨hconditions, -⟩ := guard_eq_ok.1 hread
        simp only [not_or, ne_eq, not_not] at hconditions
        refine ⟨hs.ids.passkeyChallenges challengeId row hrow, fun row' hrow' => ?_⟩
        cases hrow.symm.trans hrow'
        exact hconditions.1
    | prepareAuthorization | completeAuthorization | exchangeAuthorization | revoke
    | accessPrepare =>
      obtain ⟨_, -, h⟩ := bind_eq_ok.1 h
      cases h
    | accessComplete id token encodedSignature =>
      obtain ⟨p, hread, h⟩ := bind_eq_ok.1 h
      cases h
      obtain ⟨-, ⟨row, hrow, hpayload, htoken⟩, hsigned⟩ := accessComplete_eq_ok hread
      refine ⟨hs.ids.accessChallenges p.id row hrow, fun row' hrow' => ?_, ?_, hsigned⟩
      · cases hrow.symm.trans hrow'
        exact ⟨hpayload, htoken⟩
      · rw [← hpayload]
        exact (hs.accessChallenges p.id row hrow).requested
  | registrationDelete session keys | recoveryKeys id accountId generation =>
    cases h
    trivial
  | registrationInsert | completeRegistration | recoveryInsert | authenticationInsert
  | openSession | completeAccess =>
    obtain ⟨_, -, h⟩ := bind_eq_ok.1 h
    cases h
  | recoverySelect token =>
    obtain ⟨_, -, h⟩ := bind_eq_ok.1 h
    cases h
    trivial
  | verifyAssertion challengeId challenge response =>
    obtain ⟨_, -, h⟩ := bind_eq_ok.1 h
    cases h
    exact hcall

/-- The state after a step of a call. -/
def State.after (s : State) (index : Nat) (w : Answers) (call : Call) (tables : Tables)
    (progress : Progress) : State where
  tables := tables
  calls := progress.resume s.calls index
  history := s.history ++ [⟨w, s.tables, call, tables, progress⟩]
  drawn := w.uuid :: w.unknown :: s.drawn

section Advance

variable {index : Nat}

theorem later_after (hs : s.Valid platform) (hfresh : w.Fresh s.drawn)
    (heffect : Effect platform w s.tables call tables progress) (index : Nat) :
    s.Later w (s.after index w call tables progress) where
  evolves := heffect.evolves <| Option.eq_none_iff_forall_ne_some.2 fun row hrow =>
    hfresh.1 (hs.ids.authorizations _ row hrow)
  history _ he := List.mem_append_left _ he
  drawn _ hid := List.mem_cons_of_mem _ (List.mem_cons_of_mem _ hid)
  fresh := hfresh.1
  new := List.mem_cons_self

/-- The new occurrence is in the history. -/
theorem mem_history_after : ⟨w, s.tables, call, tables, progress⟩ ∈
    (s.after index w call tables progress).history := List.mem_append_right _ List.mem_cons_self

theorem authorizationSound_after (hs : s.Valid platform)
    (hlater : s.Later w (s.after index w call tables progress)) {id : Uuid}
    {row : BrowserAuthorization}
    (h : AuthorizationOrigin platform w s.tables tables id row call progress) :
    s.tables.authorizations.find id = some row ∨
      AuthorizationSound platform (s.after index w call tables progress) id row := by
  cases h with
  | kept h => exact .inl h
  | prepared hid h =>
    exact .inr ⟨⟨_, ⟨_, mem_history_after, _, rfl, rfl, hid⟩, h⟩, nofun, nofun⟩
  | completed hold hunused =>
    have hsound := (hs.authorizations id _ hold).mono hlater
    obtain ⟨input, hrequested, hcarries⟩ := hsound.requested
    refine .inr ⟨⟨input, hrequested, ⟨hcarries.clientId, hcarries.redirectUri, hcarries.state,
      hcarries.codeHash, hcarries.codeChallenge, hcarries.scopes⟩⟩,
      fun accountId generation hcompleted => ?_, fun credentialId hcredential => ?_⟩
    · cases hcompleted
      exact ⟨_, mem_history_after, _, _, _, _, rfl, rfl, rfl, rfl⟩
    · change _ = some credentialId at hcredential
      rw [hunused] at hcredential
      cases hcredential
  | exchanged hcan hcredential =>
    have hsound := (hs.authorizations id _ (findAuthorization_eq_some hcan.found).1).mono hlater
    obtain ⟨input, hrequested, hcarries⟩ := hsound.requested
    refine .inr ⟨⟨input, hrequested, ⟨hcarries.clientId, hcarries.redirectUri, hcarries.state,
      hcarries.codeHash, hcarries.codeChallenge, hcarries.scopes⟩⟩, hsound.approved,
      fun credentialId hsome => ?_⟩
    cases hsome
    obtain ⟨generation, hcompleted, -⟩ := hcan.completed
    exact ⟨_, _, generation, hcredential, hcompleted, rfl, rfl⟩

theorem accessSound_after (hs : s.Valid platform) (hcall : call.Sound platform s)
    (hlater : s.Later w (s.after index w call tables progress)) {id : Uuid}
    {row : AccessChallenge} (h : AccessOrigin platform w s.tables tables id row call progress) :
    s.tables.accessChallenges.find id = some row ∨
      AccessSound (s.after index w call tables progress) row := by
  cases h with
  | kept h => exact .inl h
  | prepared htoken hid =>
    exact .inr ⟨⟨_, mem_history_after, _, rfl, rfl, requests_newChallenge _⟩, nofun⟩
  | enrolled hid hold =>
    have hsound := (hs.accessChallenges id _ hold).mono hlater
    exact .inr ⟨hsound.requested, hsound.credential⟩
  | loggedIn hid hold hcredential =>
    have hsound := (hs.accessChallenges id _ hold).mono hlater
    have hproof : ProofSound platform s _ := hcall
    have hpayload := (hproof.stored _ (hid ▸ hold)).1
    refine .inr ⟨hsound.requested, fun credentialId hsome => ?_⟩
    cases hsome
    refine ⟨_, hcredential, ?_, ?_⟩
    · exact (congrArg Challenge.accountId hpayload).symm
    · exact (congrArg Challenge.scopes hpayload).symm

/-- The credential that an exchange answers with is held. -/
theorem holds_of_exchanged {input : ExchangeRequest} {accountId credentialId : Uuid}
    {scopes : List Scope} {issued : IssuedCredential} {u : Tables}
    (h : exchangedCredential platform w u input accountId scopes credentialId = .ok issued)
    (hscopes : ∀ row, u.credentials.find credentialId = some row → row.scopes = scopes) :
    Holds platform u input.token issued ∧ issued.accountId = accountId ∧ issued.scopes = scopes ∧
      issued.credentialId = credentialId ∧ issued.provider = platform.origin := by
  obtain ⟨row, hrow, haccount, htoken, -, -, rfl⟩ := exchangedCredential_eq_ok.1 h
  exact ⟨⟨rfl, row, hrow, haccount, hscopes row hrow, htoken, rfl⟩, rfl, rfl, rfl, rfl⟩

/-- What the authorization of an exchange says of its answer. -/
theorem exchangeSound_of_held {input : ExchangeRequest} {id accountId : Uuid}
    {row : BrowserAuthorization} {issued : IssuedCredential} (hs : s.Valid platform)
    (hlater : s.Later w t) (hcan : Exchangeable platform w s.tables input id row accountId)
    (hholds : Holds platform t.tables input.token issued) (haccount : issued.accountId = accountId)
    (hscopes : issued.scopes = row.scopes) (hprovider : issued.provider = platform.origin) :
    ExchangeSound platform t input issued := by
  obtain ⟨hfound, hcode⟩ := findAuthorization_eq_some hcan.found
  have hsound := (hs.authorizations id row hfound).mono hlater
  obtain ⟨request, hrequested, hcarries⟩ := hsound.requested
  obtain ⟨generation, hcompleted, -⟩ := hcan.completed
  refine ⟨hholds, ⟨id, request, generation, hrequested, ?_, ?_, ?_, ?_, ?_⟩, hprovider⟩
  · rw [← hcarries.codeHash, hcode]
  · rw [← hcarries.redirectUri, hcan.redirectUri]
  · rw [← hcarries.codeChallenge, hcan.codeChallenge]
  · rw [hscopes, hcarries.scopes]
  · rw [haccount]
    exact hsound.approved accountId generation hcompleted

/-- The credential that a login answers with is held. -/
theorem holds_of_login {p : AccessProof} {credentialId : Uuid} {issued : IssuedCredential}
    {u : Tables} (h : accessCredential platform w u p credentialId = .ok (.credential issued))
    (hscopes : ∀ row, u.credentials.find credentialId = some row →
      row.scopes = p.challenge.scopes) :
    Holds platform u p.token issued ∧ issued.accountId = p.challenge.accountId ∧
      issued.scopes = p.challenge.scopes ∧ issued.credentialId = credentialId ∧
      issued.provider = platform.provider := by
  obtain ⟨row, stored, hrow, -, haccount, htoken, -, -, -, -, hissued⟩ :=
    accessCredential_eq_ok.1 h
  cases hissued
  exact ⟨⟨rfl, row, hrow, haccount, hscopes row hrow, htoken, rfl⟩, rfl, rfl, rfl, rfl⟩

/-- The response of the step is sound. -/
theorem committedSound_after (hs : s.Valid platform) (hcall : call.Sound platform s)
    (hlater : s.Later w (s.after index w call tables progress))
    (heffect : Effect platform w s.tables call tables progress) :
    Committed.Sound platform (s.after index w call tables progress)
      ⟨w, s.tables, call, tables, progress⟩ := by
  constructor
  case exchanged =>
    rintro input issued rfl rfl
    cases heffect with
    | exchanges hcan h hissued =>
      obtain ⟨hholds, haccount, hscopes, -, hprovider⟩ :=
        holds_of_exchanged hissued fun row hrow => by
          cases h.credential.symm.trans hrow
          rfl
      exact exchangeSound_of_held hs hlater hcan hholds haccount hscopes hprovider
    | exchangesAgain hcan hcredential hissued =>
      have hfound := (findAuthorization_eq_some hcan.found).1
      obtain ⟨hholds, haccount, hscopes, -, hprovider⟩ :=
        holds_of_exchanged hissued fun row hrow => by
          obtain ⟨credential, _, _, hcredential', -, -, hscopes⟩ :=
            (hs.authorizations _ _ hfound).credential _ hcredential
          cases hcredential'.symm.trans hrow
          exact hscopes
      exact exchangeSound_of_held hs hlater hcan hholds haccount hscopes hprovider
  case loggedIn =>
    rintro p issued rfl rfl
    have hproof : ProofSound platform s p := hcall
    refine ⟨hlater.drawn p.id hproof.drawn, ?_⟩
    cases heffect with
    | completesAccess hlocks h =>
      have hpayload := (hproof.stored _ hlocks.found).1
      have hrequested := hproof.requested.mono hlater
      cases h with
      | login hpurpose h hissued =>
        obtain ⟨hholds, haccount, hscopes, hid, hprovider⟩ :=
          holds_of_login hissued fun row hrow => by
            cases h.credential.symm.trans hrow
            rfl
        refine ⟨hholds, hrequested, hproof.signed, ⟨_, hlocks.approves⟩, haccount, hscopes,
          hprovider, hpurpose, fun row hrow => ?_⟩
        change tables.accessChallenges.find p.id = some row at hrow
        rw [h.result, Table.find_insert_self] at hrow
        cases hrow
        have hstored := hproof.stored _ hlocks.found
        exact ⟨congrArg some hid.symm, hstored⟩
      | loginAgain hpurpose hcredential hissued =>
        obtain ⟨hholds, haccount, hscopes, hid, hprovider⟩ :=
          holds_of_login hissued fun row hrow => by
            obtain ⟨credential, hcredential', -, hscopes⟩ :=
              (hs.accessChallenges _ _ hlocks.found).credential _ hcredential
            cases hcredential'.symm.trans hrow
            rw [hscopes, hpayload]
        refine ⟨hholds, hrequested, hproof.signed, ⟨_, hlocks.approves⟩, haccount, hscopes,
          hprovider, hpurpose, fun row hrow => ?_⟩
        cases hlocks.found.symm.trans hrow
        exact ⟨by rw [hcredential, hid], hproof.stored _ hlocks.found⟩
      | enroll _ h hissued =>
        obtain ⟨_, -, -, -, -, -, hresult⟩ := issuedEnrollment_eq_ok.1 hissued
        cases hresult
      | enrollAgain _ h hissued =>
        obtain ⟨_, -, -, -, -, -, hresult⟩ := issuedEnrollment_eq_ok.1 hissued
        cases hresult
  case recovered =>
    rintro r capabilityId registered rfl hnamed rfl
    cases heffect with
    | registers _ h =>
      have hnone := h.capability
      rw [hnamed] at hnone
      cases hnone
    | recovers hid h =>
      obtain ⟨capability, hholds, -⟩ := h.capability
      cases hnamed.symm.trans hholds.named
      refine ⟨hlater.drawn _ (hs.ids.capabilities _ _ hholds.found), ?_, fun row hrow => ?_⟩
      · change ∃ key, tables.passkeys.find registered.credentialId = some key
        rw [h.result, hid]
        exact ⟨r.passkey, Table.find_insert_self _ _ _⟩
      · change tables.capabilities.find capabilityId = some row at hrow
        rw [h.result] at hrow
        change (Table.update _ capabilityId _).find capabilityId = some row at hrow
        rw [Table.find_update, if_pos rfl] at hrow
        obtain ⟨old, -, rfl⟩ := Option.map_eq_some_iff.1 hrow
        exact congrArg some hid.symm
    | recoversAgain h =>
      obtain ⟨capability, hholds, hcredential⟩ := h.capability
      cases hnamed.symm.trans hholds.named
      obtain ⟨key, hkey, -⟩ := h.label
      refine ⟨hlater.drawn _ (hs.ids.capabilities _ _ hholds.found), ⟨key, hkey⟩,
        fun row hrow => ?_⟩
      cases hholds.found.symm.trans hrow
      exact hcredential

theorem mem_resume {calls : List Call} {other : Call} (h : other ∈ progress.resume calls index) :
    other ∈ calls ∨ progress = .next other := by
  cases progress with
  | next call =>
    rcases List.mem_or_eq_of_mem_set h with hold | rfl
    · exact .inl hold
    · exact .inr rfl
  | done response => exact .inl (List.mem_of_mem_eraseIdx h)

/-- A step of a call keeps a valid state valid. -/
theorem State.Valid.advance (hs : s.Valid platform) (hmem : call ∈ s.calls)
    (hfresh : w.Fresh s.drawn)
    (h : advanceCall platform w s.tables call = .ok (tables, progress)) :
    (s.after index w call tables progress).Valid platform := by
  have heffect := effect_of_advance h
  have hcall := hs.calls call hmem
  have hlater := later_after hs hfresh heffect index
  refine hs.later hlater (fun id row hrow => ?_) (fun id row hrow => ?_) (fun other hother => ?_)
    fun e he => ?_
  · exact authorizationSound_after hs hlater (heffect.authorization hrow)
  · exact accessSound_after hs hcall hlater (heffect.accessChallenge hrow)
  · rcases mem_resume hother with hold | rfl
    · exact .inl hold
    · exact .inr ((sound_next hs hcall h).mono hlater)
  · rcases List.mem_append.1 he with hold | hnew
    · exact .inl hold
    · rw [List.mem_singleton.1 hnew]
      exact .inr (committedSound_after hs hcall hlater heffect)

end Advance

/-! ### Other steps -/

/-- Drawing identifiers and losing calls keeps a valid state valid. -/
theorem State.Valid.of_same_tables (hs : s.Valid platform) {calls : List Call} {drawn : List Uuid}
    (hcalls : ∀ call ∈ calls, call ∈ s.calls ∨ ∃ request, call = .request request)
    (hdrawn : ∀ id ∈ s.drawn, id ∈ drawn) :
    State.Valid platform { s with calls := calls, drawn := drawn } where
  ids := ⟨fun id row hrow => hdrawn id (hs.ids.passkeyChallenges id row hrow),
    fun id row hrow => hdrawn id (hs.ids.capabilities id row hrow),
    fun id row hrow => hdrawn id (hs.ids.authorizations id row hrow),
    fun id row hrow => hdrawn id (hs.ids.accessChallenges id row hrow)⟩
  purposes := hs.purposes
  foreign := hs.foreign
  tokens := hs.tokens
  codes := hs.codes
  authorizations id row hrow := by
    obtain ⟨hrequested, happroved, hcredential⟩ := hs.authorizations id row hrow
    exact ⟨hrequested, happroved, hcredential⟩
  accessChallenges id row hrow := by
    obtain ⟨hrequested, hcredential⟩ := hs.accessChallenges id row hrow
    exact ⟨hrequested, hcredential⟩
  calls call hcall := by
    rcases hcalls call hcall with hold | ⟨request, rfl⟩
    · have hsound := hs.calls call hold
      cases call with
      | verifyAssertion challengeId challenge response => exact ⟨hdrawn _ hsound.1, hsound.2⟩
      | openSession a => exact ⟨hdrawn _ hsound.1, hsound.2⟩
      | completeAccess p =>
        exact ⟨hdrawn _ hsound.drawn, hsound.stored, hsound.requested, hsound.signed⟩
      | request | registrationDelete | registrationInsert | completeRegistration
      | recoverySelect | recoveryKeys | recoveryInsert | authenticationInsert => trivial
    · trivial
  history e he := by
    obtain ⟨hexchanged, hloggedIn, hrecovered⟩ := hs.history e he
    refine ⟨fun input issued hcall hprogress => ?_, fun p issued hcall hprogress => ?_,
      fun r capabilityId registered hcall hnamed hprogress => ?_⟩
    · obtain ⟨hholds, hgranted, hprovider⟩ := hexchanged input issued hcall hprogress
      exact ⟨hholds, hgranted, hprovider⟩
    · obtain ⟨hid, hsound⟩ := hloggedIn p issued hcall hprogress
      exact ⟨hdrawn _ hid, ⟨hsound.holds, hsound.requested, hsound.signed, hsound.approved,
        hsound.account, hsound.scopes, hsound.provider, hsound.purpose, hsound.stored⟩⟩
    · obtain ⟨hid, hholds⟩ := hrecovered r capabilityId registered hcall hnamed hprogress
      exact ⟨hdrawn _ hid, hholds⟩

/-- What a step of the system does to the tables and the history. -/
inductive StepEffect (platform : Platform) (s : State) : Event → State → Prop
  | keeps {event : Event} {calls : List Call} {drawn : List Uuid}
      (hcalls : ∀ call ∈ calls, call ∈ s.calls ∨ ∃ request, call = .request request)
      (hdrawn : ∀ id ∈ s.drawn, id ∈ drawn) :
      StepEffect platform s event { s with calls := calls, drawn := drawn }
  | advances {index : Nat} {w : Answers} {call : Call} {tables : Tables} {progress : Progress}
      (hmem : call ∈ s.calls) (hfresh : w.Fresh s.drawn)
      (h : advanceCall platform w s.tables call = .ok (tables, progress)) :
      StepEffect platform s (.advance index w) (s.after index w call tables progress)
  | other {w : Answers} {write : OtherWrite} {tables : Tables} (hfresh : w.Fresh s.drawn)
      (h : writeOther w s.tables write = .ok tables) :
      StepEffect platform s (.other w write)
        { s with tables := tables, drawn := w.uuid :: w.unknown :: s.drawn }

theorem stepEffect_of_step {event : Event} (h : s.step platform event = some t) :
    StepEffect platform s event t := by
  have hdraw : ∀ (w : Answers), ∀ id ∈ s.drawn, id ∈ w.uuid :: w.unknown :: s.drawn :=
    fun _ _ hid => List.mem_cons_of_mem _ (List.mem_cons_of_mem _ hid)
  cases event with
  | begin request =>
    cases h
    refine @StepEffect.keeps platform s _ _ s.drawn (fun call hcall => ?_) fun _ hid => hid
    rcases List.mem_append.1 hcall with hold | hnew
    · exact .inl hold
    · exact .inr ⟨request, List.mem_singleton.1 hnew⟩
  | advance index w =>
    simp only [State.step] at h
    split at h
    · rename_i hfresh
      obtain ⟨call, hcall, h⟩ := Option.map_eq_some_iff.1 h
      have hmem := List.mem_of_getElem? hcall
      cases hresult : advanceCall platform w s.tables call with
      | error failure =>
        rw [hresult] at h
        cases h
        exact .keeps (fun other hother => .inl (List.mem_of_mem_eraseIdx hother)) (hdraw w)
      | ok r =>
        rw [hresult] at h
        cases h
        exact .advances hmem hfresh hresult
    · cases h
  | drop index =>
    cases h
    exact @StepEffect.keeps platform s _ _ s.drawn
      (fun other hother => .inl (List.mem_of_mem_eraseIdx hother)) fun _ hid => hid
  | other w write =>
    simp only [State.step] at h
    split at h
    · rename_i hfresh
      cases hresult : writeOther w s.tables write with
      | error failure =>
        rw [hresult] at h
        cases h
        exact @StepEffect.keeps platform s _ s.calls _ (fun _ hother => .inl hother) (hdraw w)
      | ok tables =>
        rw [hresult] at h
        cases h
        exact .other hfresh hresult
    · cases h

theorem later_other {write : OtherWrite} (hfresh : w.Fresh s.drawn)
    (h : writeOther w s.tables write = .ok tables) :
    s.Later w { s with tables := tables, drawn := w.uuid :: w.unknown :: s.drawn } where
  evolves := evolves_of_writeOther h
  history _ he := he
  drawn _ hid := List.mem_cons_of_mem _ (List.mem_cons_of_mem _ hid)
  fresh := hfresh.1
  new := List.mem_cons_self

/-- Other services write neither authorizations nor access challenges. -/
theorem writeOther_eq_ok {u v : Tables} {write : OtherWrite} (h : writeOther w u write = .ok v) :
    v.authorizations = u.authorizations ∧ v.accessChallenges = u.accessChallenges := by
  cases write with
  | issueCredential accountId tokenHash scopes =>
    obtain ⟨-, -, rfl⟩ := insertCredential_eq_ok h
    exact ⟨rfl, rfl⟩
  | approveAction credentialId key info =>
    obtain ⟨row, -, -, -, rfl⟩ := recordAssertion_eq_ok h
    exact ⟨rfl, rfl⟩
  | issueCapability tokenHash accountId generation =>
    obtain ⟨capabilities, -, h⟩ := bind_eq_ok.1 h
    cases h
    exact ⟨rfl, rfl⟩
  | revokeCredentials | revokePasskeys | revokeSessions | rename | expireCapability | putSignup =>
    cases h
    exact ⟨rfl, rfl⟩

/-- Every step keeps a valid state valid. -/
theorem State.Valid.step {event : Event} (hs : s.Valid platform)
    (h : StepEffect platform s event t) : t.Valid platform := by
  cases h with
  | keeps hcalls hdrawn => exact hs.of_same_tables hcalls hdrawn
  | advances hmem hfresh h => exact hs.advance hmem hfresh h
  | other hfresh h =>
    obtain ⟨hauthorizations, haccess⟩ := writeOther_eq_ok h
    refine hs.later (later_other hfresh h) (fun id row hrow => .inl ?_)
      (fun id row hrow => .inl ?_) (fun _ hcall => .inl hcall) fun _ he => .inl he
    · exact hauthorizations ▸ hrow
    · exact haccess ▸ hrow

end HailProto.Access
