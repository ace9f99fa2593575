import HailProto.Codec.Base64Url
import HailProto.Grants.Store

/-!
# Receiving a grant revision

`GrantReceiver.receive` of `grants/receiver.ts`. A call authenticates the request, reads the
current revision in two statements outside any transaction, compares, runs the storing
transaction, and reads again when that transaction reports a conflict. Other calls run between
these steps, so a call under way is a value of its own and each step meets the store of its
moment.
-/

namespace HailProto.Grants

open HailProto.Server HailProto.Codec

/-- A strong entity tag. -/
def etag (bytes : Bytes) : List Char := '"' :: encodeBase64Url bytes ++ ['"']

/-- `STRONG_ETAG` and the decoding of what it quotes. -/
def parseStrongEtag (value : List Char) : Option Bytes :=
  match value with
  | '"' :: rest =>
    let quoted := rest.dropLast
    if rest.getLast? = some '"' ∧ quoted.length = 43 ∧ quoted.all alphabet.contains then
      match decodeBase64Url quoted with
      | some bytes => if bytes.length = 32 then some bytes else none
      | none => none
    else none
  | _ => none

/-- A digest's own tag is a strong entity tag. -/
theorem parseStrongEtag_etag {bytes : Bytes} (h : bytes.length = 32) :
    parseStrongEtag (etag bytes) = some bytes := by
  have hlength : (encodeBase64Url bytes).length = 43 := by
    rw [length_encodeBase64Url, h]
  have hall : (encodeBase64Url bytes).all alphabet.contains = true := by
    rw [List.all_eq_true]
    intro c hc
    exact List.contains_iff_mem.mpr (encodeBase64Url_alphabet bytes c hc)
  simp only [parseStrongEtag, etag, List.cons_append, List.dropLast_concat,
    List.getLast?_concat, decode_encodeBase64Url]
  rw [if_pos ⟨trivial, hlength, hall⟩, if_pos h]

structure GrantConditions where
  ifMatch : Option (List Char)
  ifNoneMatch : Option (List Char)
  deriving DecidableEq

/-- What a call answers: a result with its entity tag, or an error. -/
structure Answer where
  status : Nat
  etag : Option (List Char)
  created : Bool
  message : String
  deriving DecidableEq

/-- `new GrantReceiveError(status, message)`. -/
def Answer.error (status : Nat) (message : String) : Answer := ⟨status, none, false, message⟩

/-- The local account of the grantee, as `getAccountByDid` finds it. -/
structure LocalAccount where
  id : Uuid
  active : Bool
  publicMode : Bool

/-- What the DID resolver and the account lookup answer: the key the signature verifies under,
the grantee's service base, and its account. -/
structure Authentication where
  identityDidKey : Option String
  granteeServiceBase : Option String
  account : Option LocalAccount

/-- A request as the route hands it over. -/
structure Request where
  pathGrantId : Uuid
  representation : Bytes
  conditions : GrantConditions

/-- Where a call under way stands. -/
inductive Phase
  /-- Before the first statement of `findReceivedForSender`. -/
  | reading
  /-- Before its second statement. -/
  | looking (current : Option SignedGrantRevision)
  /-- Before the storing transaction. -/
  | storing
  /-- The transaction reported a conflict; the winner is read in two statements. -/
  | rereading
  | relooking (winner : Option SignedGrantRevision)

/-- A call that has authenticated its request. -/
structure Call where
  input : Store.ReceivedGrantRevision
  phase : Phase

variable (codec : Codec)

/-- The `try` block: everything but a wrong provider is one undisclosed error. -/
def authenticate (expectedServiceBase : String) (auth : Authentication) (request : Request) :
    Except Answer Store.ReceivedGrantRevision :=
  let badRequest := Answer.error 400 "Bad Request"
  match codec.inspectGrant request.representation, auth.identityDidKey,
      auth.granteeServiceBase with
  | some payload, some key, some base =>
    if payload.grantId ≠ request.pathGrantId then .error badRequest
    else if base ≠ expectedServiceBase then .error (.error 421 "Misdirected Request")
    else
      match auth.account with
      | none => .error badRequest
      | some account =>
        if !account.active ∨ !account.publicMode then .error badRequest
        else .ok ⟨account.id, payload, request.representation,
          codec.sha256 request.representation, key⟩
  | _, _, _ => .error badRequest

/-- The timestamps a receiver accepts at its wall clock, in seconds. -/
def checkTimestamps (payload : HailGrant) (wallClock : Nat) : Except Answer Unit :=
  if payload.issuedAt > wallClock + 300 ∨ payload.updatedAt > wallClock + 300 ∨
      payload.expiresAt.any (· < payload.issuedAt) then
    .error (.error 400 "Grant timestamps are invalid")
  else .ok ()

/-- The conditional headers a revision must come with. -/
def checkConditions (payload : HailGrant) (conditions : GrantConditions) : Except Answer Unit :=
  if payload.revision = 1 then
    if conditions.ifMatch ≠ none ∨ (conditions.ifNoneMatch ≠ none ∧
        conditions.ifNoneMatch ≠ some ['*']) then
      .error (.error 400 "Initial Grant condition is invalid")
    else if conditions.ifNoneMatch = none then
      .error (.error 428 "If-None-Match is required for an initial Grant")
    else .ok ()
  else if conditions.ifNoneMatch ≠ none ∨
      conditions.ifMatch.any fun value => parseStrongEtag value = none then
    .error (.error 400 "Grant update condition is invalid")
  else if conditions.ifMatch = none then
    .error (.error 428 "If-Match is required for a Grant update")
  else if payload.previous = none ∨ conditions.ifMatch ≠ payload.previous.map etag then
    .error (.error 412 "Grant update precondition failed")
  else .ok ()

/-- Everything `receive` does before it reads the store. -/
def receive (expectedServiceBase : String) (auth : Authentication) (wallClock : Nat)
    (request : Request) : Except Answer Call := do
  let input ← authenticate codec expectedServiceBase auth request
  checkTimestamps input.payload wallClock
  checkConditions input.payload request.conditions
  .ok ⟨input, .reading⟩

/-- The second statement of `findReceivedForSender`: at the grantor's own provider the grantee
holds the lineage through `collocated_grant_receivers`. -/
def Store.receivedForSender (s : Store) (ambient : Ambient)
    (current : Option SignedGrantRevision) (grantId : Uuid) (senderDid : Did) :
    Option SignedGrantRevision :=
  match current with
  | none => none
  | some current =>
    if current.payload.grantee ≠ senderDid then none
    else
      match current.localRole with
      | .grantee => some current
      | .grantor =>
        match s.collocated.find grantId with
        | none => none
        | some accountId =>
          match ambient.account accountId with
          | none => none
          | some account =>
            if account.did = some senderDid ∧ account.active then
              some { current with localAccountId := accountId, localRole := .grantee }
            else none

/-- `exactRepresentation`. -/
def exactRepresentation (current : Option SignedGrantRevision) (representation : Bytes) : Bool :=
  current.any fun c => c.representation = representation

/-- The answer for a revision that is already the current one. -/
def settledAnswer (input : Store.ReceivedGrantRevision) : Answer :=
  ⟨if input.payload.revision = 1 then 412 else 204, some (etag input.digest), false, ""⟩

/-- The answer for a revision that was just stored. -/
def storedAnswer (input : Store.ReceivedGrantRevision) : Answer :=
  ⟨if input.payload.revision = 1 then 201 else 204, some (etag input.digest),
    decide (input.payload.revision = 1), ""⟩

def conflictAnswer : Answer :=
  .error 409 "The submitted revision conflicts with stored state"

def unavailableAnswer : Answer :=
  .error 503 "Grant storage is temporarily unavailable"

/-- The comparison with the current revision that was read: an answer, or go on to store. -/
def compare (current : Option SignedGrantRevision) (input : Store.ReceivedGrantRevision) :
    Except Answer Unit :=
  let payload := input.payload
  if exactRepresentation current input.representation then .error (settledAnswer input)
  else
    match current with
    | some current =>
      if restrictsAuthorization current.payload payload ∧
          current.payload.consentContext ≠ payload.consentContext then
        .error (.error 409 "Restrictions must retain prior consent")
      else if current.localRole ≠ .grantee ∨ current.payload.grantor ≠ payload.grantor ∨
          current.payload.grantee ≠ payload.grantee ∨
          payload.issuedAt ≠ current.payload.issuedAt ∨
          payload.revision ≠ current.payload.revision + 1 ∨
          current.payload.status = .revoked ∨ payload.previous ≠ some current.digest ∨
          payload.updatedAt ≤ current.payload.updatedAt then
        .error conflictAnswer
      else if payload.revision = 1 then .error (.error 409 "Grant ID is already in use")
      else .ok ()
    | none =>
      if payload.revision ≠ 1 ∨ payload.status ≠ .active then
        .error (.error 409 "The submitted Grant does not begin a valid lineage")
      else .ok ()

/-- `conflictFromPersistence`. -/
def conflictFromPersistence (fault : Fault) : Bool :=
  decide (fault.code = some "23505") || includes fault.message "Grant revision" ||
    includes fault.message "Grant lineage" || includes fault.message "Grant parties" ||
    includes fault.message "terminal" || includes fault.message "active pair"

/-- One step of a call: the store after it, and how the call goes on or what it answers. -/
def Call.advance (call : Call) (s : Store) (ambient : Ambient) : Store × (Call ⊕ Answer) :=
  let input := call.input
  match call.phase with
  | .reading =>
    match s.findCurrentByGrantId codec input.payload.grantId with
    | .error _ => (s, .inr unavailableAnswer)
    | .ok current => (s, .inl ⟨input, .looking current⟩)
  | .looking current =>
    match compare (s.receivedForSender ambient current input.payload.grantId
        input.payload.grantee) input with
    | .error answer => (s, .inr answer)
    | .ok () => (s, .inl ⟨input, .storing⟩)
  | .storing =>
    match s.acceptReceivedRevision codec ambient input with
    | .ok s' => (s', .inr (storedAnswer input))
    | .error fault =>
      if conflictFromPersistence fault then (s, .inl ⟨input, .rereading⟩)
      else (s, .inr unavailableAnswer)
  | .rereading =>
    -- An error here is not a `GrantReceiveError`; the route answers 503 for it as well.
    match s.findCurrentByGrantId codec input.payload.grantId with
    | .error _ => (s, .inr unavailableAnswer)
    | .ok winner => (s, .inl ⟨input, .relooking winner⟩)
  | .relooking winner =>
    let winner := s.receivedForSender ambient winner input.payload.grantId input.payload.grantee
    if exactRepresentation winner input.representation then (s, .inr (settledAnswer input))
    else (s, .inr conflictAnswer)

end HailProto.Grants
