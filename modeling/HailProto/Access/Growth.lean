import HailProto.Access.Steps
import HailProto.Core.Evolution

/-!
# How the tables of the ceremonies grow

Rows are created under an identifier that was drawn for them. A passkey keeps its account, a
capability and a challenge the product that they hold, an authorization and a credential what they
were issued with; a revocation stays. No step of a call and no other write does otherwise.
-/

namespace HailProto.Access

open Server

/-- A value that is set stays. -/
def Stays {α : Type} (old new : Option α) : Prop := ∀ a, old = some a → new = some a

theorem Stays.refl {α : Type} (o : Option α) : Stays o o := fun _ h => h

theorem stays_none {α : Type} (o : Option α) : Stays none o := nofun

def Passkey.Grows (old row : Passkey) : Prop :=
  row.accountId = old.accountId ∧ row.servingGeneration = old.servingGeneration ∧
    (old.revokedAt.isSome → row.revokedAt.isSome)

def EnrollmentCapability.Grows (old row : EnrollmentCapability) : Prop :=
  row = { old with expiresAt := row.expiresAt, credentialId := row.credentialId } ∧
    Stays old.credentialId row.credentialId

def BrowserAuthorization.Grows (old row : BrowserAuthorization) : Prop :=
  row = { old with completed := row.completed, credentialId := row.credentialId } ∧
    Stays old.completed row.completed ∧ Stays old.credentialId row.credentialId

def ApiCredential.Grows (old row : ApiCredential) : Prop :=
  row = { old with revokedAt := row.revokedAt } ∧ Stays old.revokedAt row.revokedAt

def AccessChallenge.Grows (old row : AccessChallenge) : Prop :=
  row = { old with
      completionHash := row.completionHash
      credentialId := row.credentialId
      enrollmentCapabilityId := row.enrollmentCapabilityId } ∧
    Stays old.credentialId row.credentialId

theorem Passkey.Grows.refl (row : Passkey) : row.Grows row := ⟨rfl, rfl, id⟩

theorem EnrollmentCapability.Grows.refl (row : EnrollmentCapability) : row.Grows row :=
  ⟨rfl, .refl _⟩

theorem BrowserAuthorization.Grows.refl (row : BrowserAuthorization) : row.Grows row :=
  ⟨rfl, .refl _, .refl _⟩

theorem ApiCredential.Grows.refl (row : ApiCredential) : row.Grows row := ⟨rfl, .refl _⟩

theorem AccessChallenge.Grows.refl (row : AccessChallenge) : row.Grows row := ⟨rfl, .refl _⟩

/-- The capability of every challenge is a row. -/
def Tables.Foreign (s : Tables) : Prop :=
  ∀ id row capabilityId, s.passkeyChallenges.find id = some row →
    row.enrollmentCapabilityId = some capabilityId →
    ∃ capability, s.capabilities.find capabilityId = some capability

/-- What one step may do to the tables; new rows have the identifier that it drew. -/
structure Tables.Evolves (w : Answers) (s t : Tables) : Prop where
  passkeyChallenges : Table.Changes Eq (fun id row => id = w.uuid ∧
    (row.enrollmentCapabilityId.isSome → row.purpose = .registration))
    s.passkeyChallenges t.passkeyChallenges
  passkeys : Table.Keeps Passkey.Grows s.passkeys t.passkeys
  capabilities : Table.Changes EnrollmentCapability.Grows (fun id _ => id = w.uuid)
    s.capabilities t.capabilities
  authorizations : Table.Changes BrowserAuthorization.Grows (fun id row => id = w.uuid ∧
    row.completed = none ∧ row.credentialId = none) s.authorizations t.authorizations
  /-- An authorization is deleted more than a day after it expired. -/
  keepsAuthorizations : ∀ id old, s.authorizations.find id = some old →
    (∃ row, t.authorizations.find id = some row ∧ old.Grows row) ∨ old.expiresAt < w.now - day
  credentials : Table.Changes ApiCredential.Grows (fun id _ => id = w.uuid)
    s.credentials t.credentials
  keepsCredentials : Table.Keeps ApiCredential.Grows s.credentials t.credentials
  accessChallenges : Table.Changes AccessChallenge.Grows
    (fun id row => id = w.uuid ∧ row.credentialId = none) s.accessChallenges t.accessChallenges
  foreign : s.Foreign → t.Foreign
  tokens : s.credentials.UniqueOn ApiCredential.tokenHash →
    t.credentials.UniqueOn ApiCredential.tokenHash
  codes : s.authorizations.UniqueOn BrowserAuthorization.codeHash →
    t.authorizations.UniqueOn BrowserAuthorization.codeHash

variable {platform : Platform} {w : Answers} {s t : Tables}

theorem Tables.Evolves.refl (w : Answers) (s : Tables) : s.Evolves w s where
  passkeyChallenges := .refl (fun _ => rfl) _
  passkeys := .refl Passkey.Grows.refl _
  capabilities := .refl EnrollmentCapability.Grows.refl _
  authorizations := .refl BrowserAuthorization.Grows.refl _
  keepsAuthorizations _ old hold := .inl ⟨old, hold, .refl old⟩
  credentials := .refl ApiCredential.Grows.refl _
  keepsCredentials := .refl ApiCredential.Grows.refl _
  accessChallenges := .refl AccessChallenge.Grows.refl _
  foreign h := h
  tokens h := h
  codes h := h

/-- Challenges that were there keep their capabilities where no capability is deleted. -/
theorem Tables.Foreign.of_kept (h : s.Foreign)
    (hchallenges : ∀ id row, t.passkeyChallenges.find id = some row →
      s.passkeyChallenges.find id = some row)
    (hcapabilities : ∀ id row, s.capabilities.find id = some row →
      ∃ row', t.capabilities.find id = some row') : t.Foreign := by
  intro id row capabilityId hfound hcapability
  obtain ⟨capability, hheld⟩ := h id row capabilityId (hchallenges id row hfound) hcapability
  exact hcapabilities capabilityId capability hheld

theorem find_of_deleteWhere {κ ρ : Type} [DecidableEq κ] {table : Table κ ρ}
    {condition : κ → ρ → Bool} {key : κ} {row : ρ}
    (h : (table.deleteWhere condition).find key = some row) :
    table.find key = some row ∧ condition key row = false := by
  rw [Table.find_deleteWhere, Option.filter_eq_some_iff] at h
  exact ⟨h.1, by simpa using h.2⟩

/-! ### Challenges -/

theorem evolves_deleteExpiredChallenges : s.Evolves w (deleteExpiredChallenges w s) :=
  { Tables.Evolves.refl w s with
    passkeyChallenges := Table.changes_deleteWhere (fun _ => rfl) _ _
    foreign := fun h => h.of_kept (fun _ _ hfound => (find_of_deleteWhere hfound).1)
      fun _ row hfound => ⟨row, hfound⟩ }

theorem evolves_deleteExpiredCapabilities : s.Evolves w (deleteExpiredCapabilities w s) :=
  { Tables.Evolves.refl w s with
    passkeyChallenges := Table.changes_deleteWhere (fun _ => rfl) _ _
    capabilities := Table.changes_deleteWhere EnrollmentCapability.Grows.refl _ _
    accessChallenges := Table.changes_deleteWhere AccessChallenge.Grows.refl _ _
    foreign := by
      intro h id row capabilityId hfound hcapability
      obtain ⟨hold, hkept⟩ := find_of_deleteWhere hfound
      obtain ⟨capability, hheld⟩ := h id row capabilityId hold hcapability
      -- An expired capability would have taken the challenge with it.
      rw [hcapability, Option.any_some, hheld, Option.any_some] at hkept
      refine ⟨capability, ?_⟩
      rw [deleteExpiredCapabilities, Table.find_deleteWhere, hheld, Option.filter_some, hkept]
      rfl }

theorem InsertsChallenge.evolves {purpose : Purpose} {capabilityId : Option Uuid}
    (h : InsertsChallenge w s purpose capabilityId t)
    (hpurpose : capabilityId.isSome → purpose = .registration) : s.Evolves w t := by
  obtain ⟨row, hrowPurpose, hrowCapability, rfl⟩ := h.result
  refine { Tables.Evolves.refl w s with
    passkeyChallenges := (Table.Changes.refl (fun _ => rfl) _).insert (.inl ⟨rfl, fun hsome => ?_⟩)
    foreign := fun hforeign => ?_ }
  · rw [hrowPurpose]
    exact hpurpose (hrowCapability ▸ hsome)
  · intro id other held hfound hheld
    rw [Table.find_insert] at hfound
    split at hfound
    · cases hfound
      exact h.capability held (hrowCapability ▸ hheld)
    · exact hforeign id other held hfound hheld

/-! ### Passkeys -/

theorem Registers.evolves {r : Registration} (h : Registers s r t) : s.Evolves w t := by
  rw [h.result]
  exact { Tables.Evolves.refl w s with
    passkeyChallenges := Table.changes_deleteWhere (fun _ => rfl) _ _
    passkeys := Table.keeps_insert Passkey.Grows.refl fun old hold => by
      rw [h.free] at hold
      cases hold
    foreign := fun hforeign => hforeign.of_kept (fun _ _ hfound => (find_of_deleteWhere hfound).1)
      fun _ row hfound => ⟨row, hfound⟩ }

theorem Recovers.evolves {r : Registration} {id : Uuid} (h : Recovers w s r id t) :
    s.Evolves w t := by
  obtain ⟨capability, hholds, hunused⟩ := h.capability
  have hgrows : ∀ row, s.capabilities.find id = some row →
      row.Grows { row with credentialId := some r.info.credentialId } := by
    intro row hrow
    cases hholds.found.symm.trans hrow
    exact ⟨rfl, hunused ▸ stays_none _⟩
  rw [h.result]
  exact { Tables.Evolves.refl w s with
    passkeys := Table.keeps_insert Passkey.Grows.refl fun old hold => by
      rw [h.free] at hold
      cases hold
    capabilities := Table.changes_update EnrollmentCapability.Grows.refl _ _ hgrows
    foreign := fun hforeign => hforeign.of_kept (fun _ _ hfound => hfound) fun key row hfound => by
      obtain ⟨row', hrow', -⟩ :=
        Table.keeps_update EnrollmentCapability.Grows.refl _ _ hgrows key row hfound
      exact ⟨row', hrow'⟩ }

theorem Passkey.grows_asserted (row : Passkey) (info : AuthenticationInfo) :
    row.Grows (row.asserted w info) := ⟨rfl, rfl, id⟩

theorem OpensSession.evolves {a : Assertion} (h : OpensSession platform w s a t) :
    s.Evolves w t := by
  obtain ⟨key, hkey, -, hresult⟩ := h.result
  rw [hresult]
  exact { Tables.Evolves.refl w s with
    passkeyChallenges := Table.changes_deleteWhere (fun _ => rfl) _ _
    passkeys := Table.keeps_insert Passkey.Grows.refl fun old hold => by
      cases hkey.symm.trans hold
      exact key.grows_asserted a.info
    foreign := fun hforeign => hforeign.of_kept (fun _ _ hfound => (find_of_deleteWhere hfound).1)
      fun _ row hfound => ⟨row, hfound⟩ }

theorem Revokes.evolves {session : AccountApiSession} {credentialId : String}
    (h : Revokes w s session credentialId t) : s.Evolves w t := by
  rw [h.result]
  exact { Tables.Evolves.refl w s with
    passkeys := Table.keeps_update Passkey.Grows.refl _ _ fun _ _ => ⟨rfl, rfl, fun _ => rfl⟩ }

/-! ### Browser authorizations -/

theorem keeps_deleteStaleAuthorizations (id : Uuid) (old : BrowserAuthorization)
    (hold : s.authorizations.find id = some old) :
    (deleteStaleAuthorizations w s).authorizations.find id = some old ∨
      old.expiresAt < w.now - day := by
  by_cases hstale : old.expiresAt < w.now - day
  · exact .inr hstale
  · left
    rw [deleteStaleAuthorizations, Table.find_deleteWhere, hold, Option.filter_some]
    exact if_pos (by simpa using hstale)

theorem codes_deleteStaleAuthorizations
    (h : s.authorizations.UniqueOn BrowserAuthorization.codeHash) :
    (deleteStaleAuthorizations w s).authorizations.UniqueOn BrowserAuthorization.codeHash :=
  h.of_rows fun _ row hrow => ⟨row, (find_of_deleteWhere hrow).1, rfl⟩

theorem evolves_deleteStaleAuthorizations : s.Evolves w (deleteStaleAuthorizations w s) :=
  { Tables.Evolves.refl w s with
    authorizations := Table.changes_deleteWhere BrowserAuthorization.Grows.refl _ _
    keepsAuthorizations := fun id old hold =>
      (keeps_deleteStaleAuthorizations id old hold).imp_left fun hkept => ⟨old, hkept, .refl old⟩
    codes := codes_deleteStaleAuthorizations }

theorem evolves_prepare {input : AuthorizationRequest} (hfree : s.authorizations.find w.uuid = none)
    (hcode : ∀ key other, (deleteStaleAuthorizations w s).authorizations.find key = some other →
      other.codeHash ≠ platform.tokenHash input.code) :
    s.Evolves w { deleteStaleAuthorizations w s with
      authorizations := (deleteStaleAuthorizations w s).authorizations.insert w.uuid
        (newAuthorization platform w input) } :=
  { Tables.Evolves.refl w s with
    authorizations := (Table.changes_deleteWhere BrowserAuthorization.Grows.refl _ _).insert
      (.inl ⟨rfl, rfl, rfl⟩)
    keepsAuthorizations := fun id old hold => by
      refine (keeps_deleteStaleAuthorizations id old hold).imp_left fun hkept =>
        ⟨old, ?_, .refl old⟩
      rw [Table.find_insert, if_neg, hkept]
      rintro rfl
      rw [hfree] at hold
      cases hold
    codes := fun h => (codes_deleteStaleAuthorizations h).insert fun key other hother heq =>
      hcode key other hother heq.symm }

/-- The row of an authorization grows in its place. -/
theorem evolves_updateAuthorization {change : BrowserAuthorization → BrowserAuthorization}
    {id : Uuid} (hgrows : ∀ old, s.authorizations.find id = some old → old.Grows (change old))
    (hcode : ∀ old, (change old).codeHash = old.codeHash) :
    s.Evolves w { s with authorizations := s.authorizations.update id change } :=
  { Tables.Evolves.refl w s with
    authorizations := Table.changes_update BrowserAuthorization.Grows.refl _ _ hgrows
    keepsAuthorizations := fun key old hold =>
      .inl (Table.keeps_update BrowserAuthorization.Grows.refl _ _ hgrows key old hold)
    codes := fun h => h.of_rows fun key row hrow => by
      rw [Table.find_update] at hrow
      split at hrow
      · rename_i hkey
        obtain ⟨old, hold, rfl⟩ := Option.map_eq_some_iff.1 hrow
        exact ⟨old, hkey ▸ hold, (hcode old).symm⟩
      · exact ⟨row, hrow, rfl⟩ }

theorem Completes.evolves {session : AccountApiSession} {requestId : Uuid} {code : String}
    (h : Completes platform s session requestId code t) : s.Evolves w t := by
  obtain ⟨row, hrow, -, -, hcompleted⟩ := h.found
  rw [h.result]
  refine evolves_updateAuthorization (fun old hold => ⟨rfl, ?_, .refl _⟩) fun _ => rfl
  cases hrow.symm.trans hold
  rcases hcompleted with hnone | hsome
  · rw [hnone]
    exact stays_none _
  · rw [hsome]
    exact .refl _

/-- A new credential with a new token. -/
theorem evolves_insertCredential {accountId : Uuid} {tokenHash : Bytes} {scopes : List Scope}
    (hfree : s.credentials.find w.uuid = none)
    (htoken : ∀ key other, s.credentials.find key = some other → other.tokenHash ≠ tokenHash) :
    s.Evolves w { s with
      credentials := s.credentials.insert w.uuid (newCredential w accountId tokenHash scopes) } :=
  { Tables.Evolves.refl w s with
    credentials := (Table.Changes.refl ApiCredential.Grows.refl _).insert (.inl rfl)
    keepsCredentials := Table.keeps_insert ApiCredential.Grows.refl fun old hold => by
      rw [hfree] at hold
      cases hold
    tokens := fun h => h.insert fun key other hother heq => htoken key other hother heq.symm }

theorem Exchanges.evolves {input : ExchangeRequest} {id accountId : Uuid}
    {row : BrowserAuthorization} (hcan : Exchangeable platform w s input id row accountId)
    (h : Exchanges platform w s input id row accountId t) : s.Evolves w t := by
  have hgrows : ∀ old, s.authorizations.find id = some old →
      old.Grows { old with credentialId := some w.uuid } := by
    refine fun old hold => ⟨rfl, .refl _, ?_⟩
    cases (findAuthorization_eq_some hcan.found).1.symm.trans hold
    rw [h.unused]
    exact stays_none _
  have hupdate : s.Evolves w _ := evolves_updateAuthorization hgrows fun _ => rfl
  rw [h.result]
  exact { evolves_insertCredential h.free h.token with
    authorizations := hupdate.authorizations
    keepsAuthorizations := hupdate.keepsAuthorizations
    codes := hupdate.codes }

/-! ### Logins with an owner key -/

theorem evolves_deleteStaleAccess : s.Evolves w (deleteStaleAccess w s) :=
  { Tables.Evolves.refl w s with
    accessChallenges := Table.changes_deleteWhere AccessChallenge.Grows.refl _ _ }

theorem evolves_accessPrepare (token : Bytes) (challenge : Challenge) :
    s.Evolves w { deleteStaleAccess w s with
      accessChallenges := (deleteStaleAccess w s).accessChallenges.insert w.uuid
        (newAccessRow w token challenge) } :=
  { Tables.Evolves.refl w s with
    accessChallenges := (Table.changes_deleteWhere AccessChallenge.Grows.refl _ _).insert
      (.inl ⟨rfl, rfl⟩) }

theorem LogsIn.evolves {p : AccessProof} {stored : AccessChallenge}
    (hfound : s.accessChallenges.find p.id = some stored) (h : LogsIn platform w s p stored t) :
    s.Evolves w t := by
  rw [h.result]
  exact { evolves_insertCredential h.free h.token with
    accessChallenges := (Table.Changes.refl AccessChallenge.Grows.refl _).insert
      (.inr ⟨stored, hfound, rfl, h.unused ▸ stays_none _⟩) }

theorem Enrolls.evolves {p : AccessProof} {stored : AccessChallenge}
    (hfound : s.accessChallenges.find p.id = some stored) (h : Enrolls platform w s p stored t) :
    s.Evolves w t := by
  obtain ⟨row, -, -, -, hresult⟩ := h.result
  rw [hresult]
  exact { Tables.Evolves.refl w s with
    capabilities := (Table.Changes.refl EnrollmentCapability.Grows.refl _).insert (.inl rfl)
    accessChallenges := (Table.Changes.refl AccessChallenge.Grows.refl _).insert
      (.inr ⟨stored, hfound, rfl, .refl _⟩)
    foreign := fun hforeign => hforeign.of_kept (fun _ _ hrow => hrow) fun key old hold => by
      obtain ⟨row', hrow', -⟩ := Table.keeps_insert EnrollmentCapability.Grows.refl
        (fun old' hold' => by
          rw [h.free] at hold'
          cases hold') key old hold
      exact ⟨row', hrow'⟩ }

theorem CompletesAccess.evolves {p : AccessProof} {stored : AccessChallenge}
    {result : AccessResult} (hfound : s.accessChallenges.find p.id = some stored)
    (h : CompletesAccess platform w s p stored t result) : s.Evolves w t := by
  cases h with
  | login _ h _ => exact h.evolves hfound
  | loginAgain _ _ _ => exact .refl w _
  | enroll _ h _ => exact h.evolves hfound
  | enrollAgain _ _ _ => exact .refl w _

/-! ### Steps -/

/-- A step of a call lets the tables grow. -/
theorem Effect.evolves {call : Call} {progress : Progress}
    (h : Effect platform w s call t progress) (hfree : s.authorizations.find w.uuid = none) :
    s.Evolves w t := by
  cases h with
  | reads => exact .refl w s
  | deletesChallenges => exact evolves_deleteExpiredChallenges
  | deletesCapabilities => exact evolves_deleteExpiredCapabilities
  | insertsChallenge h hpurpose => exact h.evolves hpurpose
  | registers _ h => exact h.evolves
  | recovers _ h => exact h.evolves
  | recoversAgain _ => exact .refl w s
  | prepares _ _ hcode => exact evolves_prepare hfree hcode
  | preparesAgain _ _ => exact evolves_deleteStaleAuthorizations
  | completes h => exact h.evolves
  | exchanges hcan h _ => exact h.evolves hcan
  | exchangesAgain _ _ _ => exact .refl w s
  | opensSession h => exact h.evolves
  | revokes h => exact h.evolves
  | preparesAccess _ => exact evolves_accessPrepare _ _
  | preparesAccessAgain _ _ => exact evolves_deleteStaleAccess
  | completesAccess hlocks h => exact h.evolves hlocks.found

/-- What other services write lets the tables grow. -/
theorem evolves_of_writeOther {write : OtherWrite} (h : writeOther w s write = .ok t) :
    s.Evolves w t := by
  cases write with
  | issueCredential accountId tokenHash scopes =>
    obtain ⟨hfree, htoken, rfl⟩ := insertCredential_eq_ok h
    exact evolves_insertCredential hfree htoken
  | revokeCredentials condition =>
    cases h
    have hgrows : ∀ row : ApiCredential,
        row.Grows { row with revokedAt := some (row.revokedAt.getD w.now) } := by
      refine fun row => ⟨rfl, fun at' hat => ?_⟩
      rw [hat]
      rfl
    exact { Tables.Evolves.refl w s with
      credentials := Table.changes_updateWhere ApiCredential.Grows.refl _ _ hgrows
      keepsCredentials := Table.keeps_updateWhere ApiCredential.Grows.refl _ _ hgrows
      tokens := fun hunique => hunique.of_rows fun key row hfound => by
        rw [Table.find_updateWhere, Option.map_eq_some_iff] at hfound
        obtain ⟨old, hold, rfl⟩ := hfound
        refine ⟨old, hold, ?_⟩
        split <;> rfl }
  | revokePasskeys accountId =>
    cases h
    exact { Tables.Evolves.refl w s with
      passkeys := Table.keeps_updateWhere Passkey.Grows.refl _ _
        fun _ => ⟨rfl, rfl, fun _ => rfl⟩ }
  | revokeSessions condition =>
    cases h
    exact { Tables.Evolves.refl w s with }
  | rename credentialId label =>
    cases h
    exact { Tables.Evolves.refl w s with
      passkeys := Table.keeps_update Passkey.Grows.refl _ _ fun _ _ => ⟨rfl, rfl, id⟩ }
  | approveAction credentialId key info =>
    obtain ⟨row, hrow, -, -, rfl⟩ := recordAssertion_eq_ok h
    exact { Tables.Evolves.refl w s with
      passkeys := Table.keeps_insert Passkey.Grows.refl fun old hold => by
        cases hrow.symm.trans hold
        exact row.grows_asserted info }
  | issueCapability tokenHash accountId generation =>
    simp only [writeOther, bind_eq_ok, insertRow_eq_ok] at h
    obtain ⟨capabilities, ⟨hfree, -, rfl⟩, h⟩ := h
    cases h
    exact { Tables.Evolves.refl w s with
      capabilities := (Table.Changes.refl EnrollmentCapability.Grows.refl _).insert (.inl rfl)
      foreign := fun hforeign => hforeign.of_kept (fun _ _ hrow => hrow) fun key old hold => by
        obtain ⟨row', hrow', -⟩ := Table.keeps_insert EnrollmentCapability.Grows.refl
          (fun old' hold' => by
            rw [hfree] at hold'
            cases hold') key old hold
        exact ⟨row', hrow'⟩ }
  | expireCapability id =>
    cases h
    have hgrows : ∀ row : EnrollmentCapability,
        row.Grows { row with expiresAt := min row.expiresAt (w.clock 0) } :=
      fun _ => ⟨rfl, .refl _⟩
    exact { Tables.Evolves.refl w s with
      capabilities := Table.changes_update EnrollmentCapability.Grows.refl _ _
        fun row _ => hgrows row
      foreign := fun hforeign => hforeign.of_kept (fun _ _ hrow => hrow) fun key old hold => by
        obtain ⟨row', hrow', -⟩ := Table.keeps_update EnrollmentCapability.Grows.refl _ _
          (fun row _ => hgrows row) key old hold
        exact ⟨row', hrow'⟩ }
  | putSignup id row =>
    cases h
    exact { Tables.Evolves.refl w s with }

end HailProto.Access
