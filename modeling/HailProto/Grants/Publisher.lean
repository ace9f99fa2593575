import HailProto.Grants.Receiver

/-!
# Publishing a grant revision

The publication queue of `grants/repository.ts`, the publisher of `grants/publisher.ts` and the
route that answers it. A claim leases one due publication under a fresh token; the outcome is
written only while the row still carries that token. An exception on the way (no route, a
timeout, an oversized body) reaches the publisher as a failed request.
-/

namespace HailProto.Grants

open Server

/-- What the statements on `grant_publications` read outside the grant tables: the migration
fences, what the row's triggers raise for the owning account, and a clock. -/
structure QueueContext where
  fenced : Uuid → Bool
  triggers : Uuid → Option Fault
  now : Nat

/-- A leased publication. -/
structure GrantPublicationClaim where
  grant : SignedGrantRevision
  destinationServiceBase : String
  leaseToken : Uuid
  leaseExpiresAt : Nat
  attemptCount : Nat

/-- The primary key of the claimed publication. -/
def GrantPublicationClaim.key (claim : GrantPublicationClaim) : Uuid × Nat :=
  (claim.grant.payload.grantId, claim.grant.payload.revision)

/-- A publication that can still be claimed and finished. -/
def Publication.unfinished (p : Publication) : Bool :=
  decide (p.state = .pending ∨ p.state = .retry)

namespace Store

/-- Every earlier revision of the grant is acknowledged. -/
def priorsAcknowledged (s : Store) (key : Uuid × Nat) : Bool :=
  s.publications.rows.all fun (prior, p) =>
    decide (prior.1 = key.1 ∧ prior.2 < key.2 → p.state = .acknowledged)

/-- The `WHERE` clause of the candidate; `locked` are the rows other transactions hold. -/
def due (s : Store) (context : QueueContext) (locked : List (Uuid × Nat)) :
    List ((Uuid × Nat) × Publication) :=
  s.publications.rows.filter fun (key, p) =>
    p.unfinished && decide (p.nextAttemptAt ≤ context.now) &&
      p.lease.all (fun lease => decide (lease.2 ≤ context.now)) &&
      (s.lineages.find key.1).any (fun owner => !context.fenced owner.localAccountId) &&
      s.priorsAcknowledged key && !locked.contains key

/-- `ORDER BY next_attempt_at, created_at LIMIT 1`. -/
def candidate (s : Store) (context : QueueContext) (locked : List (Uuid × Nat)) :
    Option ((Uuid × Nat) × Publication) :=
  ((s.due context locked).insertionSort fun a b => a.2.nextAttemptAt < b.2.nextAttemptAt ∨
    (a.2.nextAttemptAt = b.2.nextAttemptAt ∧ a.2.createdAt ≤ b.2.createdAt)).head?

/-- What the triggers of a publication's row raise for its owner. -/
def publicationTriggers (s : Store) (context : QueueContext) (grantId : Uuid) : Option Fault :=
  (s.lineages.find grantId).bind fun owner => context.triggers owner.localAccountId

/-- The store with a publication's row changed. -/
def withPublication (s : Store) (key : Uuid × Nat) (p : Publication) : Store :=
  { s with publications := s.publications.insert key p }

/-- Lease the next due publication. The statement commits before its row is read back. -/
def claimDuePublication (codec : Codec) (s : Store) (context : QueueContext)
    (locked : List (Uuid × Nat)) (leaseToken : Uuid) (leaseDurationMs : Nat) :
    Store × Except Fault (Option GrantPublicationClaim) :=
  if leaseDurationMs = 0 then
    (s, .error (.error "Publication lease duration must be a positive integer"))
  else
    match s.candidate context locked with
    | none => (s, .ok none)
    | some (key, p) =>
      match s.publicationTriggers context key.1 with
      | some fault => (s, .error fault)
      | none =>
        let leaseExpiresAt := context.now + leaseDurationMs
        let claimed : Publication :=
          { p with
            lease := some (leaseToken, leaseExpiresAt)
            attemptCount := p.attemptCount + 1 }
        let s' := s.withPublication key claimed
        match s.lineages.find key.1, s.revisions.find key with
        | some lineage, some row =>
          (s', (grantFromRow codec key.1 lineage key.2 row).map fun grant =>
            some ⟨grant, p.destinationServiceBase, leaseToken, leaseExpiresAt,
              p.attemptCount + 1⟩)
        | _, _ => (s', .ok none)

/-- `ClaimedPublicationResult`. -/
structure ClaimedPublicationResult where
  grantId : Uuid
  revision : Nat
  leaseToken : Uuid
  httpStatus : Option Nat
  error : Option String

def lostClaim : Fault := .error "Publication claim is no longer owned by this lease"

/-- Write the outcome of an attempt, while its lease is still the row's. -/
def finishPublication (s : Store) (context : QueueContext) (input : ClaimedPublicationResult)
    (state : PublicationState) (nextAttemptAt : Option Nat) (etag : Option (List Char)) :
    Except Fault Store :=
  let key := (input.grantId, input.revision)
  match s.publications.find key with
  | none => .error lostClaim
  | some p =>
    if p.lease.any (fun lease => lease.1 = input.leaseToken ∧ context.now < lease.2) ∧
        p.unfinished then do
      raise (s.publicationTriggers context input.grantId)
      let finished : Publication :=
        { p with
          state := state
          nextAttemptAt := nextAttemptAt.getD p.nextAttemptAt
          lease := none
          lastHttpStatus := input.httpStatus
          lastError := input.error
          acknowledgedEtag := etag }
      .ok (s.withPublication key finished)
    else .error lostClaim

end Store

/-- The tag a successful answer must carry. -/
def expectedEtag (claim : GrantPublicationClaim) : List Char := etag claim.grant.digest

/-- The conditional headers of an attempt; an update without a predecessor raises. -/
def conditionHeaders (claim : GrantPublicationClaim) : Option GrantConditions :=
  if claim.grant.payload.revision = 1 then some ⟨none, some ['*']⟩
  else claim.grant.payload.previous.map fun previous => ⟨some (etag previous), none⟩

/-- The `PUT` request of an attempt. -/
def publicationRequest (claim : GrantPublicationClaim) : Option Request :=
  (conditionHeaders claim).map fun conditions =>
    ⟨claim.grant.payload.grantId, claim.grant.representation, conditions⟩

/-- A `Retry-After` header that parses. -/
inductive RetryAfter
  | seconds (value : Nat)
  | date (instant : Nat)
  deriving DecidableEq

/-- An HTTP answer, as far as the publisher reads it. -/
structure Response where
  status : Nat
  etag : Option (List Char)
  location : Option String
  retryAfter : Option RetryAfter
  hasContent : Bool
  deriving DecidableEq

/-- The resource of a grant at a service. -/
def grantUrl (serviceBase : String) (grantId : Uuid) : String :=
  serviceBase ++ "/grants/" ++ grantId

/-- The route's response to what `receive` returned or raised. -/
def Answer.response (serviceBase : String) (grantId : Uuid) (answer : Answer) : Response :=
  match answer.etag with
  | some tag =>
    ⟨answer.status, some tag,
      if answer.created then some (grantUrl serviceBase grantId) else none, none,
      decide (answer.status = 412)⟩
  | none =>
    ⟨answer.status, none, none, if answer.status = 503 then some (.seconds 30) else none, true⟩

/-- When the response itself says to retry, at most an hour ahead. -/
def retryAfter (response : Response) (now : Nat) : Option Nat :=
  match response.retryAfter with
  | none => none
  | some (.seconds value) => some (now + min value 3600 * 1000)
  | some (.date instant) => if instant ≤ now then none else some (min instant (now + 3600000))

/-- The next attempt after `now`; `jitter` turns the base delay in seconds into the random
delay in milliseconds. -/
def nextAttempt (claim : GrantPublicationClaim) (now : Nat) (jitter : Nat → Nat) : Nat :=
  now + jitter (min 3600 (30 * 2 ^ min (claim.attemptCount - 1) 7))

/-- What the publisher does with an attempt. -/
inductive Conclusion
  | acknowledge (httpStatus : Nat) (etag : List Char)
  | block (httpStatus : Nat) (error : String)
  | retry (httpStatus : Option Nat) (error : String) (nextAttemptAt : Nat)
  deriving DecidableEq

/-- The statuses that end a publication for good. -/
def permanentStatuses : List Nat := [400, 405, 409, 412, 413, 415, 428]

/-- What `publishOne` makes of the response to its request at `serviceBase`. -/
def conclude (serviceBase : String) (claim : GrantPublicationClaim) (now : Nat)
    (jitter : Nat → Nat) (response : Response) : Except String Conclusion :=
  let revision := claim.grant.payload.revision
  let normalSuccess := decide ((revision = 1 ∧ response.status = 201) ∨
    (revision > 1 ∧ response.status = 204))
  let convergedCreation := decide (revision = 1 ∧ response.status = 412)
  if (normalSuccess || convergedCreation) ∧ response.etag = some (expectedEtag claim) then
    if normalSuccess ∧ response.hasContent then
      .error "Successful Grant publication response must have no content"
    else if response.status = 201 ∧
        response.location ≠ some (grantUrl serviceBase claim.grant.payload.grantId) then
      .error "Created Grant response has an invalid Location"
    else .ok (.acknowledge response.status (expectedEtag claim))
  else if permanentStatuses.contains response.status then
    .ok (.block response.status
      ("Grant publication was permanently rejected with HTTP " ++ toString response.status))
  else
    .ok (.retry (some response.status)
      ("Grant publication returned transient HTTP " ++ toString response.status)
      ((retryAfter response now).getD (nextAttempt claim now jitter)))

/-- The result an attempt writes. -/
def Conclusion.result (claim : GrantPublicationClaim) (conclusion : Conclusion) :
    Store.ClaimedPublicationResult :=
  let written := fun httpStatus error =>
    (⟨claim.grant.payload.grantId, claim.grant.payload.revision, claim.leaseToken, httpStatus,
      error⟩ : Store.ClaimedPublicationResult)
  match conclusion with
  | .acknowledge httpStatus _ => written (some httpStatus) none
  | .block httpStatus error => written (some httpStatus) (some error)
  | .retry httpStatus error _ => written httpStatus (some error)

/-- The state an attempt asks for. -/
def Conclusion.state : Conclusion → PublicationState
  | .acknowledge _ _ => .acknowledged
  | .block _ _ => .blocked
  | .retry _ _ _ => .retry

/-- `acknowledgePublication`, `blockPublication` or `retryPublication`. -/
def Conclusion.finish (conclusion : Conclusion) (s : Store) (context : QueueContext)
    (claim : GrantPublicationClaim) : Except Fault Store :=
  match conclusion with
  | .acknowledge _ tag =>
    s.finishPublication context (conclusion.result claim) .acknowledged none (some tag)
  | .block _ _ => s.finishPublication context (conclusion.result claim) .blocked none none
  | .retry _ _ nextAttemptAt =>
    s.finishPublication context (conclusion.result claim) .retry (some nextAttemptAt) none

namespace Store

variable {codec : Codec} {s t : Store} {context : QueueContext}

theorem priorsAcknowledged_eq_true {key : Uuid × Nat} :
    s.priorsAcknowledged key = true ↔ ∀ k p, s.publications.find (key.1, k) = some p →
      k < key.2 → p.state = .acknowledged := by
  simp only [priorsAcknowledged, List.all_eq_true, decide_eq_true_eq, Prod.forall, Table.mem_rows]
  constructor
  · intro h k p hp hk
    exact h key.1 k p hp ⟨rfl, hk⟩
  · rintro h id k p hp ⟨rfl, hk⟩
    exact h k p hp hk

/-- A candidate is an unfinished publication without an unacknowledged predecessor. -/
theorem candidate_eq_some {locked : List (Uuid × Nat)} {key : Uuid × Nat} {p : Publication}
    (h : s.candidate context locked = some (key, p)) :
    s.publications.find key = some p ∧ p.unfinished ∧ s.priorsAcknowledged key := by
  have hmem := List.mem_of_mem_head? h
  rw [List.mem_insertionSort, due, List.mem_filter, Table.mem_rows] at hmem
  simp only [Bool.and_eq_true] at hmem
  obtain ⟨hfind, ⟨⟨⟨⟨hopen, -⟩, -⟩, -⟩, hpriors⟩, -⟩ := hmem
  exact ⟨hfind, hopen, hpriors⟩

/-- A claim leases one candidate or changes nothing, and what it returns is that candidate. -/
theorem claimDuePublication_eq {locked : List (Uuid × Nat)} {token : Uuid} {duration : Nat}
    {result : Except Fault (Option GrantPublicationClaim)}
    (h : s.claimDuePublication codec context locked token duration = (t, result)) :
    (t = s ∧ ∀ claim, result ≠ .ok (some claim)) ∨
    ∃ key p, s.publications.find key = some p ∧ p.unfinished ∧ s.priorsAcknowledged key ∧
      t = s.withPublication key
        { p with
          lease := some (token, context.now + duration)
          attemptCount := p.attemptCount + 1 } ∧
      ∀ claim, result = .ok (some claim) → claim.leaseToken = token ∧
        ∃ lineage row, s.lineages.find key.1 = some lineage ∧ s.revisions.find key = some row ∧
          grantFromRow codec key.1 lineage key.2 row = .ok claim.grant := by
  simp only [claimDuePublication] at h
  split at h
  · cases h
    exact .inl ⟨rfl, by simp⟩
  · cases hcandidate : s.candidate context locked with
    | none =>
      simp only [hcandidate, Prod.mk.injEq] at h
      obtain ⟨rfl, rfl⟩ := h
      exact .inl ⟨rfl, by simp⟩
    | some pair =>
      obtain ⟨key, p⟩ := pair
      obtain ⟨hfind, hopen, hpriors⟩ := candidate_eq_some hcandidate
      simp only [hcandidate] at h
      cases htriggers : s.publicationTriggers context key.1 with
      | some fault =>
        simp only [htriggers, Prod.mk.injEq] at h
        obtain ⟨rfl, rfl⟩ := h
        exact .inl ⟨rfl, by simp⟩
      | none =>
        right
        simp only [htriggers] at h
        split at h
        · rename_i lineage row hlineage hrow
          simp only [Prod.mk.injEq] at h
          obtain ⟨rfl, rfl⟩ := h
          refine ⟨key, p, hfind, hopen, hpriors, rfl, fun claim hclaim => ?_⟩
          cases hread : grantFromRow codec key.1 lineage key.2 row with
          | error fault => simp [hread, Except.map] at hclaim
          | ok grant =>
            simp only [hread, Except.map, Except.ok.injEq, Option.some.injEq] at hclaim
            subst hclaim
            exact ⟨rfl, lineage, row, hlineage, hrow, hread⟩
        · simp only [Prod.mk.injEq] at h
          obtain ⟨rfl, rfl⟩ := h
          exact ⟨key, p, hfind, hopen, hpriors, rfl, by simp⟩

/-- The publication's row still carries the claim's lease. -/
def Leases (s : Store) (claim : GrantPublicationClaim) : Prop :=
  ∃ p expires, s.publications.find claim.key = some p ∧
    p.lease = some (claim.leaseToken, expires) ∧ p.unfinished

theorem finishPublication_ok {input : ClaimedPublicationResult} {state : PublicationState}
    {nextAttemptAt : Option Nat} {etag : Option (List Char)}
    (h : s.finishPublication context input state nextAttemptAt etag = .ok t) :
    ∃ p p' expires, s.publications.find (input.grantId, input.revision) = some p ∧
      p.lease = some (input.leaseToken, expires) ∧ p.unfinished ∧ p'.state = state ∧
      p'.lease = none ∧ t = s.withPublication (input.grantId, input.revision) p' := by
  simp only [finishPublication] at h
  cases hfind : s.publications.find (input.grantId, input.revision) with
  | none => simp [hfind] at h
  | some p =>
    simp only [hfind] at h
    split at h
    case isFalse => cases h
    case isTrue hheld =>
      obtain ⟨hlease, hopen⟩ := hheld
      simp only [bind_eq_ok, Except.ok.injEq] at h
      obtain ⟨_, _, rfl⟩ := h
      cases hp : p.lease with
      | none => simp [hp] at hlease
      | some lease =>
        obtain ⟨token, expires⟩ := lease
        simp only [hp, Option.any_some, decide_eq_true_eq] at hlease
        obtain ⟨rfl, -⟩ := hlease
        exact ⟨p, _, expires, rfl, hp, hopen, rfl, rfl, rfl⟩

end Store

/-- An attempt that writes its conclusion held the lease, and the row then has its state. -/
theorem Conclusion.finish_ok {conclusion : Conclusion} {s t : Store} {context : QueueContext}
    {claim : GrantPublicationClaim} (h : conclusion.finish s context claim = .ok t) :
    s.Leases claim ∧ ∃ p, p.state = conclusion.state ∧ p.lease = none ∧
      t = s.withPublication claim.key p := by
  cases conclusion <;>
  · obtain ⟨p, p', expires, hfind, hlease, hopen, hstate, hfree, rfl⟩ :=
      Store.finishPublication_ok h
    exact ⟨⟨p, expires, hfind, hlease, hopen⟩, p', hstate, hfree, rfl⟩

end HailProto.Grants
