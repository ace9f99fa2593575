import HailProto.Access.Growth

/-!
# Where rows come from

For each table, what a step of a call added to it and which rows it changed.
-/

namespace HailProto.Access

open Server

variable {platform : Platform} {w : Answers} {s t : Tables} {call : Call} {progress : Progress}

/-! ### Yields -/

/-- The passkeys that a step added. -/
def addedPasskeys (s t : Tables) : List (String × Passkey) := s.passkeys.added t.passkeys

/-- The sessions that a step added. -/
def addedSessions (s t : Tables) : List (Uuid × PasskeySession) := s.sessions.added t.sessions

/-- The API credentials that a step added. -/
def addedCredentials (s t : Tables) : List (Uuid × ApiCredential) :=
  s.credentials.added t.credentials

theorem Exchanges.credential {input : ExchangeRequest} {id accountId : Uuid}
    {row : BrowserAuthorization} (h : Exchanges platform w s input id row accountId t) :
    t.credentials.find w.uuid =
      some (newCredential w accountId (platform.tokenHash input.token) row.scopes) := by
  rw [h.result, Table.find_insert_self]

theorem LogsIn.credential {p : AccessProof} {stored : AccessChallenge}
    (h : LogsIn platform w s p stored t) :
    t.credentials.find w.uuid = some (newCredential w p.challenge.accountId
      (platform.tokenHash p.token) p.challenge.scopes) := by
  rw [h.result, Table.find_insert_self]

/-- Where the row of an authorization comes from. -/
inductive AuthorizationOrigin (platform : Platform) (w : Answers) (s t : Tables) (id : Uuid) :
    BrowserAuthorization → Call → Progress → Prop
  | kept {row : BrowserAuthorization} {call : Call} {progress : Progress}
      (h : s.authorizations.find id = some row) :
      AuthorizationOrigin platform w s t id row call progress
  | prepared {input : AuthorizationRequest} {prepared : PreparedAuthorization}
      (hid : prepared.requestId = id)
      (h : (newAuthorization platform w input).Carries platform input) :
      AuthorizationOrigin platform w s t id (newAuthorization platform w input)
        (.request (.prepareAuthorization input)) (.done (.prepared prepared))
  | completed {session : AccountApiSession} {state code : String} {redirect : Redirect}
      {old : BrowserAuthorization} (hold : s.authorizations.find id = some old)
      (hunused : old.credentialId = none) :
      AuthorizationOrigin platform w s t id
        { old with completed := some (session.accountId, session.generation) }
        (.request (.completeAuthorization session id state code)) (.done (.redirect redirect))
  | exchanged {input : ExchangeRequest} {accountId : Uuid} {old : BrowserAuthorization}
      {issued : IssuedCredential} (hcan : Exchangeable platform w s input id old accountId)
      (hcredential : t.credentials.find w.uuid = some (newCredential w accountId
        (platform.tokenHash input.token) old.scopes)) :
      AuthorizationOrigin platform w s t id { old with credentialId := some w.uuid }
        (.request (.exchangeAuthorization input)) (.done (.credential issued))

theorem find_of_update {κ ρ : Type} [DecidableEq κ] {table : Table κ ρ} {key key' : κ}
    {change : ρ → ρ} {row : ρ} (h : (table.update key change).find key' = some row) :
    key' = key ∧ (∃ old, table.find key = some old ∧ row = change old) ∨
      table.find key' = some row := by
  rw [Table.find_update] at h
  split at h
  · rename_i hkey
    obtain ⟨old, hold, rfl⟩ := Option.map_eq_some_iff.1 h
    exact .inl ⟨hkey, old, hold, rfl⟩
  · exact .inr h

theorem Effect.authorization (h : Effect platform w s call t progress) {id : Uuid}
    {row : BrowserAuthorization} (hrow : t.authorizations.find id = some row) :
    AuthorizationOrigin platform w s t id row call progress := by
  cases h with
  | reads | deletesChallenges | deletesCapabilities | recoversAgain _ | exchangesAgain _ _ _
  | preparesAccess _ | preparesAccessAgain _ _ => exact .kept hrow
  | insertsChallenge h _ =>
    obtain ⟨challenge, -, -, rfl⟩ := h.result
    exact .kept hrow
  | registers _ h | recovers _ h | revokes h =>
    rw [h.result] at hrow
    exact .kept hrow
  | prepares hid h _ =>
    change (Table.insert _ _ _).find id = some row at hrow
    rw [Table.find_insert] at hrow
    split at hrow
    · rename_i hkey
      cases hrow
      exact .prepared (hid.trans hkey.symm) h
    · exact .kept (find_of_deleteWhere hrow).1
  | preparesAgain _ _ => exact .kept (find_of_deleteWhere hrow).1
  | completes h =>
    obtain ⟨found, hfound, -, hunused, -⟩ := h.found
    rw [h.result] at hrow
    rcases find_of_update hrow with ⟨rfl, old, hold, rfl⟩ | hkept
    · cases hfound.symm.trans hold
      exact .completed hfound hunused
    · exact .kept hkept
  | exchanges hcan h _ =>
    have hcredential := h.credential
    rw [h.result] at hrow
    rcases find_of_update hrow with ⟨rfl, old, hold, rfl⟩ | hkept
    · cases (findAuthorization_eq_some hcan.found).1.symm.trans hold
      exact .exchanged hcan hcredential
    · exact .kept hkept
  | opensSession h =>
    obtain ⟨key, -, -, hresult⟩ := h.result
    rw [hresult] at hrow
    exact .kept hrow
  | completesAccess hlocks h =>
    cases h with
    | login _ h _ =>
      rw [h.result] at hrow
      exact .kept hrow
    | loginAgain _ _ _ | enrollAgain _ _ _ => exact .kept hrow
    | enroll _ h _ =>
      obtain ⟨capability, -, -, -, hresult⟩ := h.result
      rw [hresult] at hrow
      exact .kept hrow

/-! ### Access challenges -/

/-- Where the row of an access challenge comes from. -/
inductive AccessOrigin (platform : Platform) (w : Answers) (s t : Tables) (id : Uuid) :
    AccessChallenge → Call → Progress → Prop
  | kept {row : AccessChallenge} {call : Call} {progress : Progress}
      (h : s.accessChallenges.find id = some row) :
      AccessOrigin platform w s t id row call progress
  | prepared {input : AccessRequest} {token : Bytes} (htoken : accessToken input = .ok token)
      (hid : id = w.uuid) :
      AccessOrigin platform w s t id (newAccessRow w token (newChallenge platform w input))
        (.request (.accessPrepare input)) (.done (.challenge (newChallenge platform w input)))
  | enrolled {p : AccessProof} {old : AccessChallenge} {result : AccessResult} (hid : id = p.id)
      (hold : s.accessChallenges.find id = some old) :
      AccessOrigin platform w s t id (old.enrolled p w.uuid) (.completeAccess p)
        (.done (.access result))
  | loggedIn {p : AccessProof} {old : AccessChallenge} {result : AccessResult} (hid : id = p.id)
      (hold : s.accessChallenges.find id = some old)
      (hcredential : t.credentials.find w.uuid = some (newCredential w p.challenge.accountId
        (platform.tokenHash p.token) p.challenge.scopes)) :
      AccessOrigin platform w s t id (old.loggedIn p w.uuid) (.completeAccess p)
        (.done (.access result))

theorem Effect.accessChallenge (h : Effect platform w s call t progress) {id : Uuid}
    {row : AccessChallenge} (hrow : t.accessChallenges.find id = some row) :
    AccessOrigin platform w s t id row call progress := by
  cases h with
  | reads | deletesChallenges | recoversAgain _ | exchangesAgain _ _ _ | prepares _ _ _
  | preparesAgain _ _ => exact .kept hrow
  | deletesCapabilities => exact .kept (find_of_deleteWhere hrow).1
  | insertsChallenge h _ =>
    obtain ⟨challenge, -, -, rfl⟩ := h.result
    exact .kept hrow
  | registers _ h | recovers _ h | revokes h | completes h | exchanges _ h _ =>
    rw [h.result] at hrow
    exact .kept hrow
  | opensSession h =>
    obtain ⟨key, -, -, hresult⟩ := h.result
    rw [hresult] at hrow
    exact .kept hrow
  | preparesAccess htoken =>
    change (Table.insert _ _ _).find id = some row at hrow
    rw [Table.find_insert] at hrow
    split at hrow
    · rename_i hkey
      cases hrow
      exact .prepared htoken hkey
    · exact .kept (find_of_deleteWhere hrow).1
  | preparesAccessAgain _ _ => exact .kept (find_of_deleteWhere hrow).1
  | completesAccess hlocks h =>
    cases h with
    | loginAgain _ _ _ | enrollAgain _ _ _ => exact .kept hrow
    | login _ h _ =>
      have hcredential := h.credential
      rw [h.result] at hrow
      change (Table.insert _ _ _).find id = some row at hrow
      rw [Table.find_insert] at hrow
      split at hrow
      · rename_i hkey
        cases hrow
        exact .loggedIn hkey (hkey ▸ hlocks.found) hcredential
      · exact .kept hrow
    | enroll _ h _ =>
      obtain ⟨capability, -, -, -, hresult⟩ := h.result
      rw [hresult] at hrow
      change (Table.insert _ _ _).find id = some row at hrow
      rw [Table.find_insert] at hrow
      split at hrow
      · rename_i hkey
        cases hrow
        exact .enrolled hkey (hkey ▸ hlocks.found)
      · exact .kept hrow

end HailProto.Access
