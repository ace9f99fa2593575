import HailProto.Core.Transition
import HailProto.Grants.Lineage
import HailProto.Grants.Publisher

/-!
# Replicating grants to the grantee's provider

The grantor's provider and the grantee's, joined by publication attempts. A request can reach
the receiver at any time after its claim, any number of times or never; an answer can be lost or
arrive late; a publisher can stop anywhere. Both accounts may also live at one provider, and
then the receiver works on the grantor's own store.
-/

namespace HailProto.Grants.Replication

open Server

/-- The receiving side: its codec and service base, the account of each DID, and whether it is
the grantor's own provider. An account keeps its DID, and a DID its account. -/
structure Deployment where
  codec : Codec
  serviceBase : String
  accountId : Did → Uuid
  collocated : Bool

/-- How far `publishOne` has come with an attempt. -/
inductive Stage
  | requesting
  /-- About to write a conclusion, inside the `try` block. -/
  | finishing (conclusion : Conclusion)
  /-- About to write a retry, in the `catch` block. -/
  | recovering (message : String) (nextAttemptAt : Nat)
  | ended

structure Attempt where
  claim : GrantPublicationClaim
  stage : Stage

/-- A call of `finishPublication`, whether or not it raised. -/
structure Finish where
  attempt : Nat
  state : PublicationState
  httpStatus : Option Nat
  deriving DecidableEq

/-- Attempts are never dropped, so that their requests can still be delivered; calls and
responses name the attempt they belong to. -/
structure System where
  origin : Store
  remote : Store
  attempts : List Attempt
  calls : List (Nat × Call)
  responses : List (Nat × Response)
  finishes : List Finish

/-- The stores before the first grant. -/
def System.initial : System := ⟨∅, ∅, [], [], [], []⟩

inductive Event
  | insertAuthoritativeRevision1 (ambient : Ambient) (input : AuthoritativeGrantRevision1)
  | appendAuthoritativeUpdate (ambient : Ambient) (input : AuthoritativeGrantUpdate)
  | claim (context : QueueContext) (locked : List (Uuid × Nat)) (leaseToken : Uuid)
  /-- The request of an attempt reaches the receiver, for the first time or again. -/
  | deliver (attempt : Nat) (auth : Authentication) (wallClock : Nat)
  | advance (call : Nat) (ambient : Ambient)
  /-- A response of the receiver reaches its attempt. -/
  | conclude (attempt response now : Nat) (jitter : Nat → Nat)
  /-- Something on the way answers instead: a rate limit, a gateway, an outage. -/
  | interrupt (attempt : Nat) (response : Response) (now : Nat) (jitter : Nat → Nat)
  /-- The request fails without an answer. -/
  | fail (attempt now : Nat) (jitter : Nat → Nat) (message : String)
  | finish (attempt : Nat) (context : QueueContext) (jitter : Nat → Nat)

namespace System

variable (d : Deployment) (s : System)

/-- The store the receiver works on. -/
def receiver : Store := if d.collocated then s.origin else s.remote

def withReceiver (store : Store) : System :=
  if d.collocated then { s with origin := store } else { s with remote := store }

/-- The grantor's store after a transaction, which leaves no trace when it raises. -/
def commit : Except Fault Store → System
  | .ok origin => { s with origin }
  | .error _ => s

def setStage (index : Nat) (a : Attempt) (stage : Stage) : System :=
  { s with attempts := s.attempts.set index { a with stage } }

/-- An attempt reads a response. -/
def read (index : Nat) (a : Attempt) (now : Nat) (jitter : Nat → Nat) (response : Response) :
    System :=
  match conclude d.serviceBase a.claim now jitter response with
  | .ok conclusion => s.setStage index a (.finishing conclusion)
  | .error message =>
    s.setStage index a (.recovering message (nextAttempt a.claim now jitter))

/-- An attempt calls `finishPublication`, and goes on to `next` when that raises. -/
def write (index : Nat) (a : Attempt) (conclusion : Conclusion) (context : QueueContext)
    (next : Fault → Stage) : System :=
  let called : Finish := ⟨index, conclusion.state, (conclusion.result a.claim).httpStatus⟩
  let s := { s with finishes := s.finishes ++ [called] }
  match conclusion.finish s.origin context a.claim with
  | .ok origin => { s.setStage index a .ended with origin }
  | .error fault => s.setStage index a (next fault)

/-- One event. An answer that did not come from the receiver is neither a success nor a
conflict; an active account stays active. -/
def step : Event → Option System
  | .insertAuthoritativeRevision1 ambient input =>
    some (s.commit (s.origin.insertAuthoritativeRevision1 d.codec ambient input))
  | .appendAuthoritativeUpdate ambient input =>
    some (s.commit (s.origin.appendAuthoritativeUpdate d.codec ambient input))
  | .claim context locked leaseToken =>
    -- Tokens are random UUIDs, so no two attempts share one.
    if s.attempts.any (fun a => a.claim.leaseToken = leaseToken) then none
    else
      match s.origin.claimDuePublication d.codec context locked leaseToken 30000 with
      | (origin, .ok (some claim)) =>
        some { s with origin, attempts := s.attempts ++ [⟨claim, .requesting⟩] }
      | (origin, _) => some { s with origin }
  | .deliver attempt auth wallClock => do
      let a ← s.attempts[attempt]?
      let request ← publicationRequest a.claim
      if auth.account.any (fun account =>
        account.id ≠ d.accountId a.claim.grant.payload.grantee) then none
      else
        match receive d.codec d.serviceBase auth wallClock request with
        | .ok call => some { s with calls := s.calls ++ [(attempt, call)] }
        | .error answer =>
          let response := answer.response d.serviceBase request.pathGrantId
          some { s with responses := s.responses ++ [(attempt, response)] }
  | .advance index ambient => do
      let (attempt, call) ← s.calls[index]?
      if ambient.account call.input.localAccountId ≠
          some ⟨some call.input.payload.grantee, true⟩ then none
      else
        match call.advance d.codec (s.receiver d) ambient with
        | (store, .inl call') =>
          some { s.withReceiver d store with calls := s.calls.set index (attempt, call') }
        | (store, .inr answer) =>
          let response := answer.response d.serviceBase call.input.payload.grantId
          some { s.withReceiver d store with
            calls := s.calls.eraseIdx index
            responses := s.responses ++ [(attempt, response)] }
  | .conclude attempt response now jitter => do
      let a ← s.attempts[attempt]?
      let (sender, response) ← s.responses[response]?
      match a.stage with
      | .requesting =>
        if sender ≠ attempt then none else some (s.read d attempt a now jitter response)
      | _ => none
  | .interrupt attempt response now jitter => do
      let a ← s.attempts[attempt]?
      match a.stage with
      | .requesting =>
        if [201, 204, 409, 412].contains response.status then none
        else some (s.read d attempt a now jitter response)
      | _ => none
  | .fail attempt now jitter message => do
      let a ← s.attempts[attempt]?
      match a.stage with
      | .requesting =>
        some (s.setStage attempt a (.recovering message (nextAttempt a.claim now jitter)))
      | _ => none
  | .finish attempt context jitter => do
      let a ← s.attempts[attempt]?
      match a.stage with
      | .finishing conclusion =>
        some (s.write attempt a conclusion context fun fault =>
          .recovering fault.message (nextAttempt a.claim context.now jitter))
      | .recovering message nextAttemptAt =>
        some (s.write attempt a (.retry none message nextAttemptAt) context fun _ => .ended)
      | _ => none

end System

/-- What an event can do, one rule for each way it ends. -/
inductive Step (d : Deployment) (s : System) : Event → System → Prop
  | raised (event : Event) : Step d s event s
  | inserted {ambient input origin}
      (hok : s.origin.insertAuthoritativeRevision1 d.codec ambient input = .ok origin) :
      Step d s (.insertAuthoritativeRevision1 ambient input) { s with origin }
  | appended {ambient input origin}
      (hok : s.origin.appendAuthoritativeUpdate d.codec ambient input = .ok origin) :
      Step d s (.appendAuthoritativeUpdate ambient input) { s with origin }
  | leased {context locked leaseToken key p lease attemptCount}
      (hfind : s.origin.publications.find key = some p) (hopen : p.unfinished)
      (hfresh : ∀ a ∈ s.attempts, a.claim.leaseToken ≠ leaseToken)
      (hlease : lease = some (leaseToken, context.now + 30000)) :
      Step d s (.claim context locked leaseToken)
        { s with origin := s.origin.withPublication key { p with lease, attemptCount } }
  | claimed {context locked leaseToken key p lease attemptCount claim}
      (hfind : s.origin.publications.find key = some p) (hopen : p.unfinished)
      (hfresh : ∀ a ∈ s.attempts, a.claim.leaseToken ≠ leaseToken)
      (hlease : lease = some (leaseToken, context.now + 30000))
      (hpriors : s.origin.priorsAcknowledged key) (hkey : claim.key = key)
      (htoken : claim.leaseToken = leaseToken) (hstored : claim.grant.StoredIn d.codec s.origin) :
      Step d s (.claim context locked leaseToken)
        { s with
          origin := s.origin.withPublication key { p with lease, attemptCount }
          attempts := s.attempts ++ [⟨claim, .requesting⟩] }
  | delivered {attempt auth wallClock a request call} (hattempt : s.attempts[attempt]? = some a)
      (hrequest : publicationRequest a.claim = some request)
      (haccount : ∀ account, auth.account = some account →
        account.id = d.accountId a.claim.grant.payload.grantee)
      (hok : receive d.codec d.serviceBase auth wallClock request = .ok call) :
      Step d s (.deliver attempt auth wallClock) { s with calls := s.calls ++ [(attempt, call)] }
  | refused {attempt auth wallClock a request answer} (hattempt : s.attempts[attempt]? = some a)
      (hrequest : publicationRequest a.claim = some request)
      (herror : receive d.codec d.serviceBase auth wallClock request = .error answer) :
      Step d s (.deliver attempt auth wallClock)
        { s with responses :=
            s.responses ++ [(attempt, answer.response d.serviceBase request.pathGrantId)] }
  | advanced {index ambient attempt call store call'} (hcall : s.calls[index]? = some (attempt, call))
      (haccount : ambient.account call.input.localAccountId =
        some ⟨some call.input.payload.grantee, true⟩)
      (hadvance : call.advance d.codec (s.receiver d) ambient = (store, .inl call')) :
      Step d s (.advance index ambient)
        { s.withReceiver d store with calls := s.calls.set index (attempt, call') }
  | answered {index ambient attempt call store answer}
      (hcall : s.calls[index]? = some (attempt, call))
      (haccount : ambient.account call.input.localAccountId =
        some ⟨some call.input.payload.grantee, true⟩)
      (hadvance : call.advance d.codec (s.receiver d) ambient = (store, .inr answer)) :
      Step d s (.advance index ambient)
        { s.withReceiver d store with
          calls := s.calls.eraseIdx index
          responses := s.responses ++
            [(attempt, answer.response d.serviceBase call.input.payload.grantId)] }
  | concluded {attempt index now jitter a response} (hattempt : s.attempts[attempt]? = some a)
      (hresponse : s.responses[index]? = some (attempt, response)) :
      Step d s (.conclude attempt index now jitter) (s.read d attempt a now jitter response)
  | interrupted {attempt response now jitter a} (hattempt : s.attempts[attempt]? = some a)
      (hstatus : [201, 204, 409, 412].contains response.status = false) :
      Step d s (.interrupt attempt response now jitter) (s.read d attempt a now jitter response)
  | failed {attempt now jitter message a} (hattempt : s.attempts[attempt]? = some a) :
      Step d s (.fail attempt now jitter message)
        (s.setStage attempt a (.recovering message (nextAttempt a.claim now jitter)))
  | finishing {attempt context jitter a conclusion} (hattempt : s.attempts[attempt]? = some a)
      (hstage : a.stage = .finishing conclusion) :
      Step d s (.finish attempt context jitter)
        (s.write attempt a conclusion context fun fault =>
          .recovering fault.message (nextAttempt a.claim context.now jitter))
  | recovering {attempt context jitter a message nextAttemptAt}
      (hattempt : s.attempts[attempt]? = some a)
      (hstage : a.stage = .recovering message nextAttemptAt) :
      Step d s (.finish attempt context jitter)
        (s.write attempt a (.retry none message nextAttemptAt) context fun _ => .ended)

variable {d : Deployment} {s t : System}

theorem storedIn_of_grantFromRow {codec : Codec} {store : Store} {key : Uuid × Nat}
    {lineage : Lineage} {row : Revision} {signed : SignedGrantRevision}
    (hrow : store.revisions.find key = some row)
    (h : grantFromRow codec key.1 lineage key.2 row = .ok signed) :
    (signed.payload.grantId, signed.payload.revision) = key ∧ signed.StoredIn codec store := by
  obtain ⟨payload, hof, hid, -, -, hrevision, rfl⟩ := grantFromRow_eq_ok.mp h
  have hkey : (payload.grantId, payload.revision) = key := Prod.ext hid hrevision
  exact ⟨hkey, row, hkey ▸ hrow, hof, rfl, rfl⟩

/-- Every event follows one of the rules. -/
theorem step_of_eq {event : Event} (h : s.step d event = some t) : Step d s event t := by
  cases event with
  | insertAuthoritativeRevision1 ambient input =>
    cases h
    cases hok : s.origin.insertAuthoritativeRevision1 d.codec ambient input with
    | error _ => exact .raised _
    | ok origin => exact .inserted hok
  | appendAuthoritativeUpdate ambient input =>
    cases h
    cases hok : s.origin.appendAuthoritativeUpdate d.codec ambient input with
    | error _ => exact .raised _
    | ok origin => exact .appended hok
  | claim context locked leaseToken =>
    simp only [System.step] at h
    split at h
    · cases h
    · rename_i hfresh
      simp only [List.any_eq_true, decide_eq_true_eq, not_exists, not_and] at hfresh
      rcases hclaim : s.origin.claimDuePublication d.codec context locked leaseToken 30000 with
        ⟨origin, result⟩
      rw [hclaim] at h
      obtain ⟨rfl, hnone⟩ | ⟨key, p, hfind, hopen, hpriors, rfl, hsome⟩ :=
        Store.claimDuePublication_eq hclaim
      · split at h
        · rename_i claim heq
          cases heq
          exact absurd rfl (hnone claim)
        · rename_i heq
          cases heq
          cases h
          exact .raised _
      · split at h
        · rename_i claim heq
          cases heq
          cases h
          obtain ⟨htoken, lineage, row, -, hrow, hread⟩ := hsome claim rfl
          obtain ⟨hkey, hstored⟩ := storedIn_of_grantFromRow hrow hread
          exact .claimed hfind hopen hfresh rfl hpriors hkey htoken hstored
        · rename_i heq
          cases heq
          cases h
          exact .leased hfind hopen hfresh rfl
  | deliver attempt auth wallClock =>
    simp only [System.step, Option.bind_eq_bind, Option.bind_eq_some_iff] at h
    obtain ⟨a, hattempt, request, hrequest, h⟩ := h
    split at h
    · cases h
    · rename_i haccount
      cases hreceive : receive d.codec d.serviceBase auth wallClock request with
      | error answer =>
        simp only [hreceive, Option.some.injEq] at h
        subst h
        exact .refused hattempt hrequest hreceive
      | ok call =>
        simp only [hreceive, Option.some.injEq] at h
        subst h
        refine .delivered hattempt hrequest (fun account heq => ?_) hreceive
        simpa [heq] using haccount
  | advance index ambient =>
    simp only [System.step, Option.bind_eq_bind, Option.bind_eq_some_iff] at h
    obtain ⟨⟨attempt, call⟩, hcall, h⟩ := h
    split at h
    · cases h
    · rename_i haccount
      rw [not_not] at haccount
      rcases hadvance : call.advance d.codec (s.receiver d) ambient with ⟨store, call' | answer⟩
      · simp only [hadvance, Option.some.injEq] at h
        subst h
        exact .advanced hcall haccount hadvance
      · simp only [hadvance, Option.some.injEq] at h
        subst h
        exact .answered hcall haccount hadvance
  | conclude attempt index now jitter =>
    simp only [System.step, Option.bind_eq_bind, Option.bind_eq_some_iff] at h
    obtain ⟨a, hattempt, ⟨sender, response⟩, hresponse, h⟩ := h
    split at h
    · split at h
      · cases h
      · rename_i hsender
        rw [not_not] at hsender
        subst hsender
        cases h
        exact .concluded hattempt hresponse
    · cases h
  | interrupt attempt response now jitter =>
    simp only [System.step, Option.bind_eq_bind, Option.bind_eq_some_iff] at h
    obtain ⟨a, hattempt, h⟩ := h
    split at h
    · split at h
      · cases h
      · rename_i hstatus
        cases h
        exact .interrupted hattempt (by simpa using hstatus)
    · cases h
  | fail attempt now jitter message =>
    simp only [System.step, Option.bind_eq_bind, Option.bind_eq_some_iff] at h
    obtain ⟨a, hattempt, h⟩ := h
    split at h
    · cases h
      exact .failed hattempt
    · cases h
  | finish attempt context jitter =>
    simp only [System.step, Option.bind_eq_bind, Option.bind_eq_some_iff] at h
    obtain ⟨a, hattempt, h⟩ := h
    split at h
    · rename_i hstage
      cases h
      exact .finishing hattempt hstage
    · rename_i hstage
      cases h
      exact .recovering hattempt hstage
    · cases h

end HailProto.Grants.Replication
