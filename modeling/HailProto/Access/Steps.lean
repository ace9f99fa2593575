import HailProto.Access.Effects

/-!
# The steps of calls

What a step of any call does to the tables, in one inductive relation: every fact about runs is a
case analysis over it.
-/

namespace HailProto.Access

open Server

/-- A step of a call that took effect. -/
inductive Effect (platform : Platform) (w : Answers) (s : Tables) : Call → Tables → Progress → Prop
  | reads {call next : Call} : Effect platform w s call s (.next next)
  | deletesChallenges {call next : Call} :
      Effect platform w s call (deleteExpiredChallenges w s) (.next next)
  | deletesCapabilities {call next : Call} :
      Effect platform w s call (deleteExpiredCapabilities w s) (.next next)
  | insertsChallenge {call : Call} {purpose : Purpose} {capabilityId : Option Uuid} {t : Tables}
      {options : CeremonyOptions} (h : InsertsChallenge w s purpose capabilityId t)
      (hpurpose : capabilityId.isSome → purpose = .registration) :
      Effect platform w s call t (.done (.options options))
  | registers {r : Registration} {t : Tables} {registered : Registered}
      (hid : registered.credentialId = r.info.credentialId) (h : Registers s r t) :
      Effect platform w s (.completeRegistration r) t (.done (.registered registered))
  | recovers {r : Registration} {id : Uuid} {t : Tables} {registered : Registered}
      (hid : registered.credentialId = r.info.credentialId) (h : Recovers w s r id t) :
      Effect platform w s (.completeRegistration r) t (.done (.registered registered))
  | recoversAgain {r : Registration} {id : Uuid} {registered : Registered}
      (h : RecoversAgain s r id registered) :
      Effect platform w s (.completeRegistration r) s (.done (.registered registered))
  | prepares {input : AuthorizationRequest} {prepared : PreparedAuthorization}
      (hid : prepared.requestId = w.uuid)
      (h : (newAuthorization platform w input).Carries platform input)
      (hcode : ∀ key other,
        (deleteStaleAuthorizations w s).authorizations.find key = some other →
          other.codeHash ≠ platform.tokenHash input.code) :
      Effect platform w s (.request (.prepareAuthorization input))
        { deleteStaleAuthorizations w s with
          authorizations := (deleteStaleAuthorizations w s).authorizations.insert w.uuid
            (newAuthorization platform w input) }
        (.done (.prepared prepared))
  | preparesAgain {input : AuthorizationRequest} {prepared : PreparedAuthorization}
      {row : BrowserAuthorization}
      (hfound : (deleteStaleAuthorizations w s).authorizations.find prepared.requestId = some row)
      (h : row.Carries platform input) :
      Effect platform w s (.request (.prepareAuthorization input)) (deleteStaleAuthorizations w s)
        (.done (.prepared prepared))
  | completes {session : AccountApiSession} {requestId : Uuid} {state code : String} {t : Tables}
      {redirect : Redirect} (h : Completes platform s session requestId code t) :
      Effect platform w s (.request (.completeAuthorization session requestId state code)) t
        (.done (.redirect redirect))
  | exchanges {input : ExchangeRequest} {id accountId : Uuid} {row : BrowserAuthorization}
      {t : Tables} {issued : IssuedCredential}
      (hcan : Exchangeable platform w s input id row accountId)
      (h : Exchanges platform w s input id row accountId t)
      (hissued : exchangedCredential platform w t input accountId row.scopes w.uuid = .ok issued) :
      Effect platform w s (.request (.exchangeAuthorization input)) t (.done (.credential issued))
  | exchangesAgain {input : ExchangeRequest} {id accountId : Uuid} {row : BrowserAuthorization}
      {issued : IssuedCredential} (hcan : Exchangeable platform w s input id row accountId)
      (h : row.credentialId = some issued.credentialId)
      (hissued : exchangedCredential platform w s input accountId row.scopes issued.credentialId =
        .ok issued) :
      Effect platform w s (.request (.exchangeAuthorization input)) s (.done (.credential issued))
  | opensSession {a : Assertion} {t : Tables} {issued : IssuedSession}
      (h : OpensSession platform w s a t) :
      Effect platform w s (.openSession a) t (.done (.session issued))
  | revokes {session : AccountApiSession} {credentialId : String} {t : Tables}
      (h : Revokes w s session credentialId t) :
      Effect platform w s (.request (.revoke session credentialId)) t (.done .revoked)
  | preparesAccess {input : AccessRequest} {token : Bytes} (htoken : accessToken input = .ok token) :
      Effect platform w s (.request (.accessPrepare input))
        { deleteStaleAccess w s with
          accessChallenges := (deleteStaleAccess w s).accessChallenges.insert w.uuid
            (newAccessRow w token (newChallenge platform w input)) }
        (.done (.challenge (newChallenge platform w input)))
  | preparesAccessAgain {input : AccessRequest} {id : Uuid} {row : AccessChallenge}
      (hfound : (deleteStaleAccess w s).accessChallenges.find id = some row)
      (h : row.payload.Requests input) :
      Effect platform w s (.request (.accessPrepare input)) (deleteStaleAccess w s)
        (.done (.challenge row.payload))
  | completesAccess {p : AccessProof} {stored : AccessChallenge} {t : Tables} {result : AccessResult}
      (hlocks : Locks platform w s p stored)
      (h : CompletesAccess platform w s p stored t result) :
      Effect platform w s (.completeAccess p) t (.done (.access result))

variable {platform : Platform} {w : Answers} {s t : Tables} {progress : Progress}

theorem effect_of_start {request : Request}
    (h : startRequest platform w s request = .ok (t, progress)) :
    Effect platform w s (.request request) t progress := by
  cases request with
  | registrationOptions session =>
    obtain ⟨keys, -, h⟩ := bind_eq_ok.1 h
    cases h
    exact .reads
  | register session challengeId response label =>
    obtain ⟨r, -, h⟩ := bind_eq_ok.1 h
    cases h
    exact .reads
  | recoveryOptions token =>
    obtain ⟨-, h⟩ := guard_eq_ok.1 h
    cases h
    exact .deletesCapabilities
  | recover token challengeId response label =>
    obtain ⟨r, -, h⟩ := bind_eq_ok.1 h
    cases h
    exact .reads
  | authenticationOptions =>
    cases h
    exact .deletesChallenges
  | authenticate challengeId response =>
    obtain ⟨challenge, -, h⟩ := bind_eq_ok.1 h
    cases h
    exact .reads
  | prepareAuthorization input =>
    obtain ⟨⟨u, prepared⟩, hprepare, h⟩ := bind_eq_ok.1 h
    cases h
    rcases prepareAuthorization_eq_ok hprepare with ⟨row, hfound, hcarries, rfl⟩ |
      ⟨hid, hcarries, hcode, rfl⟩
    · exact .preparesAgain hfound hcarries
    · exact .prepares hid hcarries hcode
  | completeAuthorization session requestId state code =>
    obtain ⟨⟨u, redirect⟩, hcomplete, h⟩ := bind_eq_ok.1 h
    cases h
    exact .completes (completeAuthorization_eq_ok hcomplete)
  | exchangeAuthorization input =>
    obtain ⟨⟨u, issued⟩, hexchange, h⟩ := bind_eq_ok.1 h
    cases h
    obtain ⟨id, row, accountId, hcan, ⟨rfl, hcredential, hissued⟩ | ⟨hexchanges, hissued⟩⟩ :=
      effect_of_exchange hexchange
    · exact .exchangesAgain hcan hcredential hissued
    · exact .exchanges hcan hexchanges hissued
  | revoke session credentialId =>
    obtain ⟨u, hrevoke, h⟩ := bind_eq_ok.1 h
    cases h
    exact .revokes (revoke_eq_ok hrevoke)
  | accessPrepare input =>
    obtain ⟨⟨u, challenge⟩, hprepare, h⟩ := bind_eq_ok.1 h
    cases h
    obtain ⟨token, htoken, ⟨id, row, hfound, -, rfl, hrequests, rfl⟩ | ⟨rfl, -, rfl⟩⟩ :=
      accessPrepare_eq_ok hprepare
    · exact .preparesAccessAgain hfound hrequests
    · exact .preparesAccess htoken
  | accessComplete id token encodedSignature =>
    obtain ⟨p, -, h⟩ := bind_eq_ok.1 h
    cases h
    exact .reads

/-- A step that took effect did one of these things. -/
theorem effect_of_advance {call : Call} (h : advanceCall platform w s call = .ok (t, progress)) :
    Effect platform w s call t progress := by
  cases call with
  | request request => exact effect_of_start h
  | registrationDelete session keys =>
    cases h
    exact .deletesChallenges
  | registrationInsert session keys =>
    obtain ⟨hinserts, rfl⟩ := insertOptions_eq_ok h
    exact .insertsChallenge hinserts fun _ => rfl
  | completeRegistration r =>
    obtain ⟨⟨u, registered⟩, hregister, h⟩ := bind_eq_ok.1 h
    cases h
    rcases completeRegistration_eq_ok hregister with ⟨hid, hregisters⟩ |
      ⟨id, hid, hrecovers⟩ | ⟨id, rfl, hagain⟩
    · exact .registers hid hregisters
    · exact .recovers hid hrecovers
    · exact .recoversAgain hagain
  | recoverySelect token =>
    obtain ⟨⟨id, accountId, generation⟩, -, h⟩ := bind_eq_ok.1 h
    cases h
    exact .reads
  | recoveryKeys id accountId generation =>
    cases h
    exact .reads
  | recoveryInsert id accountId generation keys =>
    obtain ⟨hinserts, rfl⟩ := insertOptions_eq_ok h
    exact .insertsChallenge hinserts fun _ => rfl
  | authenticationInsert =>
    obtain ⟨hinserts, rfl⟩ := insertOptions_eq_ok h
    exact .insertsChallenge hinserts fun hsome => nomatch hsome
  | verifyAssertion challengeId challenge response =>
    obtain ⟨⟨key, info⟩, -, h⟩ := bind_eq_ok.1 h
    cases h
    exact .reads
  | openSession a =>
    obtain ⟨⟨u, issued⟩, hopen, h⟩ := bind_eq_ok.1 h
    cases h
    exact .opensSession (openSession_eq_ok hopen)
  | completeAccess p =>
    obtain ⟨⟨u, result⟩, hcomplete, h⟩ := bind_eq_ok.1 h
    cases h
    obtain ⟨stored, hlocks, hcompletes⟩ := completeAccess_eq_ok hcomplete
    exact .completesAccess hlocks hcompletes

end HailProto.Access
