import HailProto.Core.Table
import HailProto.Grants.Payload

/-!
# The grant repository

The tables of `0007_grants.sql` and `0031_collocated_grant_receiver.sql` and the transactions
of `grants/repository.ts` on them. Each transaction runs under row and advisory locks, so it is
one step on the store; when it raises, it leaves no trace. What a transaction reads from tables
this model does not own is its `Ambient`.
-/

namespace HailProto.Grants

open Server

inductive LocalRole
  | grantor
  | grantee
  deriving DecidableEq, Repr

/-- A row of `grant_lineages`. -/
structure Lineage where
  localAccountId : Uuid
  localRole : LocalRole
  grantorDid : Did
  granteeDid : Did
  currentRevision : Nat
  currentDigest : Bytes
  currentStatus : GrantStatus
  deriving DecidableEq

/-- A row of `grant_revisions`, without the PLC evidence that no check reads. -/
structure Revision where
  status : GrantStatus
  issuedAt : Nat
  updatedAt : Nat
  expiresAt : Option Nat
  previousDigest : Option Bytes
  scope : GrantScope
  consentAddressBinding : Bytes
  consentSenderProfile : Bytes
  cose : Bytes
  representationDigest : Bytes
  signingPublicKey : String
  deriving DecidableEq

/-- A row of `grant_consent_evidence`. -/
structure ConsentRow where
  granteeAddress : String
  bindingCose : Bytes
  bindingDigest : Bytes
  profileRevision : Nat
  profileCose : Bytes
  profileDigest : Bytes
  deriving DecidableEq

inductive PublicationState
  | pending
  | retry
  | acknowledged
  | blocked
  deriving DecidableEq, Repr

/-- A row of `grant_publications`; the lease is present or absent as a whole. -/
structure Publication where
  destinationServiceBase : String
  state : PublicationState
  attemptCount : Nat
  nextAttemptAt : Nat
  lease : Option (Uuid × Nat)
  lastHttpStatus : Option Nat
  lastError : Option String
  acknowledgedEtag : Option (List Char)
  createdAt : Nat
  deriving DecidableEq

/-- The grant tables of one provider. -/
structure Store where
  lineages : Table Uuid Lineage
  revisions : Table (Uuid × Nat) Revision
  consent : Table (Uuid × Nat) ConsentRow
  publications : Table (Uuid × Nat) Publication
  /-- `collocated_grant_receivers`: the grantee's account at the grantor's own provider. -/
  collocated : Table Uuid Uuid

instance : EmptyCollection Store := ⟨⟨∅, ∅, ∅, ∅, ∅⟩⟩

/-- A `hail.address-binding` payload. -/
structure AddressBinding where
  address : String
  did : Did
  issuedAt : Nat
  keyId : String
  deriving DecidableEq

structure SenderCategory where
  id : String
  label : String
  description : Option String
  deriving DecidableEq

/-- A `hail.sender-profile` payload; the assets are kept encoded. -/
structure SenderProfile where
  did : Did
  revision : Nat
  displayName : String
  description : Option String
  categories : List SenderCategory
  updatedAt : Nat
  keyId : String
  assets : List Bytes
  deriving DecidableEq

/-- The codec's inspection of signed representations and the digest over them. -/
structure Codec where
  inspectGrant : Bytes → Option HailGrant
  inspectBinding : Bytes → Option AddressBinding
  inspectProfile : Bytes → Option SenderProfile
  sha256 : Bytes → Bytes
  sha256_length : ∀ bytes, (sha256 bytes).length = 32

structure SignedGrantRevision where
  localAccountId : Uuid
  localRole : LocalRole
  payload : HailGrant
  representation : Bytes
  digest : Bytes
  signingPublicKey : String
  deriving DecidableEq

/-- The lineage row after `revision` became its current one. -/
def Lineage.advance (lineage : Lineage) (revision : SignedGrantRevision) : Lineage :=
  { lineage with
    currentRevision := revision.payload.revision
    currentDigest := revision.digest
    currentStatus := revision.payload.status }

structure VerifiedAddress where
  address : String
  did : Did
  binding : AddressBinding
  representation : Bytes
  digest : Bytes

structure VerifiedSenderProfile where
  did : Did
  profile : SenderProfile
  representation : Bytes
  digest : Bytes

structure GrantConsentEvidence where
  address : VerifiedAddress
  senderProfile : VerifiedSenderProfile

/-- A row of `provider_accounts`, as far as grants read it. -/
structure Account where
  did : Option Did
  active : Bool
  deriving DecidableEq

/-- What a transaction reads outside the grant tables: accounts, migration fences, the public
authority evidence, and its start time. -/
structure Ambient where
  account : Uuid → Option Account
  fence : Uuid → Option FenceFault
  authority : Option AuthorityFault
  now : Nat

/-- A statement's trigger or check raises, or the transaction goes on. -/
def raise (fault : Option Fault) : Except Fault Unit :=
  match fault with
  | none => .ok ()
  | some fault => .error fault

variable (codec : Codec)

/-- `inspectSignedPayload("hail.grant", representation).payload`. -/
def inspect (representation : Bytes) : Except Fault HailGrant :=
  match codec.inspectGrant representation with
  | none => .error (.error "Signed payload is invalid")
  | some payload => .ok payload

/-- Read a stored revision back and compare it with its exact representation. -/
def grantFromRow (grantId : Uuid) (lineage : Lineage) (revision : Nat) (row : Revision) :
    Except Fault SignedGrantRevision := do
  let payload ← inspect codec row.cose
  if codec.sha256 row.cose ≠ row.representationDigest ∨ payload.grantId ≠ grantId ∨
      payload.grantor ≠ lineage.grantorDid ∨ payload.grantee ≠ lineage.granteeDid ∨
      payload.revision ≠ revision ∨ payload.status ≠ row.status ∨
      payload.issuedAt ≠ row.issuedAt ∨ payload.updatedAt ≠ row.updatedAt ∨
      payload.expiresAt ≠ row.expiresAt ∨ payload.previous ≠ row.previousDigest ∨
      payload.scope ≠ row.scope ∨
      payload.consentContext.addressBindingHash ≠ row.consentAddressBinding ∨
      payload.consentContext.senderProfileHash ≠ row.consentSenderProfile then
    .error (.error "Persisted Grant metadata does not match its exact representation")
  else
    .ok ⟨lineage.localAccountId, lineage.localRole, payload, row.cose, row.representationDigest,
      row.signingPublicKey⟩

/-- An input is for the expected role and is what its representation says. -/
def checkedInput (input : SignedGrantRevision) (expectedRole : LocalRole) :
    Except Fault Unit := do
  if input.localRole ≠ expectedRole then
    .error (.error ("Grant local role must be " ++
      match expectedRole with | .grantor => "grantor" | .grantee => "grantee"))
  else
    let parsed ← inspect codec input.representation
    if codec.sha256 input.representation ≠ input.digest ∨ parsed ≠ input.payload then
      .error (.error "Grant payload or digest does not match its exact representation")
    else .ok ()

/-- The retained evidence is the evidence the signed consent context names. -/
def assertConsent (payload : HailGrant) (evidence : GrantConsentEvidence) : Except Fault Unit :=
  match codec.inspectBinding evidence.address.representation,
      codec.inspectProfile evidence.senderProfile.representation with
  | some bindingPayload, some profilePayload =>
    if evidence.address.address ≠ payload.consentContext.granteeAddress ∨
        evidence.address.did ≠ payload.grantee ∨
        evidence.senderProfile.did ≠ payload.grantee ∨
        bindingPayload ≠ evidence.address.binding ∨
        profilePayload ≠ evidence.senderProfile.profile ∨
        bindingPayload.address ≠ evidence.address.address ∨
        bindingPayload.did ≠ evidence.address.did ∨
        profilePayload.did ≠ evidence.senderProfile.did ∨
        codec.sha256 evidence.address.representation ≠ evidence.address.digest ∨
        codec.sha256 evidence.senderProfile.representation ≠ evidence.senderProfile.digest ∨
        payload.consentContext.addressBindingHash ≠ evidence.address.digest ∨
        payload.consentContext.senderProfileHash ≠ evidence.senderProfile.digest then
      .error (.error "Grant consent evidence does not match the signed grant")
    else .ok ()
  | _, _ => .error (.error "Signed payload is invalid")

namespace Store

variable (s : Store)

/-- Another active lineage holds the pair, so `grant_lineages_one_active_pair_idx` refuses. -/
def pairTaken (grantId : Uuid) (grantor grantee : Did) : Bool :=
  s.lineages.rows.any fun (id, l) => decide (id ≠ grantId ∧ l.currentStatus = .active ∧
    l.grantorDid = grantor ∧ l.granteeDid = grantee)

/-- Another revision of the grant has this digest, which `grant_revisions` keeps unique. -/
def digestTaken (grantId : Uuid) (digest : Bytes) : Bool :=
  s.revisions.rows.any fun ((id, _), r) => decide (id = grantId ∧ r.representationDigest = digest)

/-- `INSERT INTO grant_lineages`, at revision 1 and active. -/
def insertLineage (ambient : Ambient) (input : SignedGrantRevision) (role : LocalRole) :
    Except Fault Store := do
  raise ((ambient.fence input.localAccountId).map FenceFault.fault)
  if (s.lineages.find input.payload.grantId).isSome then
    .error (.uniqueViolation "grant_lineages_pkey")
  else if input.payload.grantor = input.payload.grantee then
    .error (.checkViolation "grant_lineages_distinct_parties")
  else if s.pairTaken input.payload.grantId input.payload.grantor input.payload.grantee then
    .error (.uniqueViolation "grant_lineages_one_active_pair_idx")
  else
    let row : Lineage := ⟨input.localAccountId, role, input.payload.grantor,
      input.payload.grantee, 1, input.digest, .active⟩
    .ok { s with lineages := s.lineages.insert input.payload.grantId row }

/-- The row `insertRevision` writes. -/
def revisionRow (input : SignedGrantRevision) : Revision :=
  let payload := input.payload
  ⟨payload.status, payload.issuedAt, payload.updatedAt, payload.expiresAt, payload.previous,
    payload.scope, payload.consentContext.addressBindingHash,
    payload.consentContext.senderProfileHash, input.representation, input.digest,
    input.signingPublicKey⟩

/-- The constraint of `grant_revisions` a row breaks; the codec rules the other ones out. -/
def revisionCheck (row : Revision) : Option Fault :=
  if row.expiresAt.any (· < row.issuedAt) then
    some (.checkViolation "grant_revisions_timestamps")
  else if row.consentAddressBinding.length ≠ 32 ∨ row.consentSenderProfile.length ≠ 32 then
    some (.checkViolation "grant_revisions_consent_digest_sizes")
  else if row.representationDigest.length ≠ 32 then
    some (.checkViolation "grant_revisions_digest_size")
  else if row.cose.length < 1 ∨ 262144 < row.cose.length then
    some (.checkViolation "grant_revisions_representation_size")
  else none

/-- `INSERT INTO grant_revisions`; its fence trigger finds the owner through the lineage. -/
def insertRevision (ambient : Ambient) (input : SignedGrantRevision) : Except Fault Store := do
  let key := (input.payload.grantId, input.payload.revision)
  let owner := (s.lineages.find input.payload.grantId).map Lineage.localAccountId
  raise ((owner.bind ambient.fence).map FenceFault.fault)
  raise (revisionCheck (revisionRow input))
  if (s.revisions.find key).isSome then .error (.uniqueViolation "grant_revisions_pkey")
  else if s.digestTaken input.payload.grantId input.digest then
    .error (.uniqueViolation "grant_revisions_grant_id_representation_digest_key")
  else .ok { s with revisions := s.revisions.insert key (revisionRow input) }

/-- `INSERT INTO grant_consent_evidence`. -/
def insertConsent (payload : HailGrant) (evidence : GrantConsentEvidence) : Store :=
  let row : ConsentRow := ⟨evidence.address.address, evidence.address.representation,
    evidence.address.digest, evidence.senderProfile.profile.revision,
    evidence.senderProfile.representation, evidence.senderProfile.digest⟩
  { s with consent := s.consent.insert (payload.grantId, payload.revision) row }

/-- `INSERT INTO grant_publications`, with the column defaults. -/
def insertPublication (ambient : Ambient) (payload : HailGrant) (destination : String) : Store :=
  let row : Publication :=
    ⟨destination, .pending, 0, ambient.now, none, none, none, none, ambient.now⟩
  { s with publications := s.publications.insert (payload.grantId, payload.revision) row }

/-- The current revision of a lineage, read with its row. -/
def current (grantId : Uuid) : Option (Lineage × Revision) := do
  let lineage ← s.lineages.find grantId
  let row ← s.revisions.find (grantId, lineage.currentRevision)
  some (lineage, row)

/-- `findCurrentByGrantId`. -/
def findCurrentByGrantId (grantId : Uuid) : Except Fault (Option SignedGrantRevision) :=
  match s.current grantId with
  | none => .ok none
  | some (lineage, row) =>
    (grantFromRow codec grantId lineage lineage.currentRevision row).map some

end Store

/-- `AuthoritativeGrantRevision1`. -/
structure AuthoritativeGrantRevision1 where
  revision : SignedGrantRevision
  consent : GrantConsentEvidence
  destinationServiceBase : String

/-- `AuthoritativeGrantUpdate`; a revocation is an update without consent. -/
structure AuthoritativeGrantUpdate where
  revision : SignedGrantRevision
  expectedCurrentRevision : Nat
  expectedCurrentDigest : Bytes
  consent : Option GrantConsentEvidence
  destinationServiceBase : Option String

namespace Store

/-- Begin an authoritative lineage. -/
def insertAuthoritativeRevision1 (s : Store) (ambient : Ambient)
    (input : AuthoritativeGrantRevision1) : Except Fault Store := do
  let revision := input.revision
  checkedInput codec revision .grantor
  assertConsent codec revision.payload input.consent
  if revision.payload.revision ≠ 1 ∨ revision.payload.status ≠ .active then
    .error (.error "An authoritative Grant must begin at active revision 1")
  else
    match ambient.account revision.localAccountId with
    | none => .error (.error "Active local grantor account does not match the Grant")
    | some account =>
      if !account.active ∨ account.did ≠ some revision.payload.grantor then
        .error (.error "Active local grantor account does not match the Grant")
      else
        let s ← s.insertLineage ambient revision .grantor
        let s ← s.insertRevision ambient revision
        raise (ambient.authority.map AuthorityFault.fault)
        .ok ((s.insertConsent revision.payload input.consent).insertPublication ambient
          revision.payload input.destinationServiceBase)

/-- The checks of `appendAuthoritativeUpdate` against the current revision. -/
def checkUpdate (current : SignedGrantRevision) (input : AuthoritativeGrantUpdate) :
    Except Fault Unit :=
  let revision := input.revision
  if current.localAccountId ≠ revision.localAccountId ∨ current.localRole ≠ .grantor ∨
      current.payload.status ≠ .active ∨ current.payload.issuedAt ≠ revision.payload.issuedAt then
    .error (.error "Grant immutable/current state conflicts")
  else if current.signingPublicKey ≠ revision.signingPublicKey then
    .error (.error "Historical-key reconciliation required for signer changes")
  else if restrictsAuthorization current.payload revision.payload ∧
      current.payload.consentContext ≠ revision.payload.consentContext then
    .error (.error "Restrictions must retain prior consent")
  else
    match input.consent with
    | some consent => assertConsent codec revision.payload consent
    | none =>
      if !restrictsAuthorization current.payload revision.payload ∨
          current.payload.consentContext ≠ revision.payload.consentContext then
        .error (.error "Fresh consent evidence required")
      else .ok ()

/-- The compare-and-set of the lineage row, with its `WHERE` clause. -/
def advanceLineage (s : Store) (ambient : Ambient) (input : AuthoritativeGrantUpdate) :
    Except Fault Store :=
  let revision := input.revision
  let payload := revision.payload
  match s.current payload.grantId with
  | none => .error (.error "Authoritative Grant revision conflict")
  | some (lineage, row) =>
    if lineage.localAccountId = revision.localAccountId ∧ lineage.localRole = .grantor ∧
        lineage.grantorDid = payload.grantor ∧ lineage.granteeDid = payload.grantee ∧
        lineage.currentStatus = .active ∧
        lineage.currentRevision = input.expectedCurrentRevision ∧
        lineage.currentDigest = input.expectedCurrentDigest ∧
        row.updatedAt < payload.updatedAt then do
      raise ((ambient.fence lineage.localAccountId).map FenceFault.fault)
      .ok { s with lineages := s.lineages.insert payload.grantId (lineage.advance revision) }
    else .error (.error "Authoritative Grant revision conflict")

/-- The destination of the lineage's first publication. -/
def firstDestination (s : Store) (grantId : Uuid) : Option String :=
  let rows := s.publications.rows.filter fun ((id, _), _) => id = grantId
  (rows.insertionSort fun a b => a.1.2 ≤ b.1.2).head?.map fun (_, p) => p.destinationServiceBase

/-- Append a revision to an authoritative lineage. -/
def appendAuthoritativeUpdate (s : Store) (ambient : Ambient) (input : AuthoritativeGrantUpdate) :
    Except Fault Store := do
  let revision := input.revision
  checkedInput codec revision .grantor
  if revision.payload.revision ≠ input.expectedCurrentRevision + 1 ∨
      revision.payload.previous ≠ some input.expectedCurrentDigest then
    .error (.error "Grant revocation does not follow the expected current revision")
  else
    match s.current revision.payload.grantId with
    | none => .error (.error "Grant immutable/current state conflicts")
    | some (lineage, row) =>
      let current ← grantFromRow codec revision.payload.grantId lineage
        lineage.currentRevision row
      checkUpdate codec current input
      let s ← s.advanceLineage ambient input
      let s ← s.insertRevision ambient revision
      raise (ambient.authority.map AuthorityFault.fault)
      let s := match input.consent with
        | some consent => s.insertConsent revision.payload consent
        | none => s
      match s.firstDestination revision.payload.grantId with
      | none =>
        .error (.error "Authoritative Grant is missing its publication destination evidence")
      | some first =>
        .ok (s.insertPublication ambient revision.payload
          (input.destinationServiceBase.getD first))

/-- A received revision, before its role is fixed to the grantee's. -/
structure ReceivedGrantRevision where
  localAccountId : Uuid
  payload : HailGrant
  representation : Bytes
  digest : Bytes
  signingPublicKey : String

/-- The same input with `localRole: "grantee"`. -/
def ReceivedGrantRevision.signed (input : ReceivedGrantRevision) : SignedGrantRevision :=
  ⟨input.localAccountId, .grantee, input.payload, input.representation, input.digest,
    input.signingPublicKey⟩

/-- The collocated branch: the authoritative revision is already stored, and only the
grantee's ownership reference is added. -/
def acceptCollocated (s : Store) (input : ReceivedGrantRevision) (existing : Option Revision) :
    Except Fault Store :=
  match existing with
  | none => .error (.error "Collocated Grant must match the authoritative revision")
  | some existing =>
    if existing.cose ≠ input.representation then
      .error (.error "Collocated Grant must match the authoritative revision")
    else
      let collocated := s.collocated.insertNew input.payload.grantId input.localAccountId
      if collocated.find input.payload.grantId ≠ some input.localAccountId then
        .error (.error "Grant parties or local ownership cannot change")
      else .ok { s with collocated }

/-- The branch for a lineage this provider already received. -/
def acceptNext (s : Store) (ambient : Ambient) (lineage : Lineage) (input : ReceivedGrantRevision)
    (existing : Option Revision) : Except Fault Store :=
  let payload := input.payload
  if lineage.localAccountId ≠ input.localAccountId then
    .error (.error "Grant parties or local ownership cannot change")
  else
    match existing with
    | some existing =>
      if existing.cose ≠ input.representation then
        .error (.error "Grant revision conflicts with previously received exact bytes")
      else do
        let _ ← grantFromRow codec payload.grantId lineage payload.revision existing
        .ok s
    | none =>
      match s.revisions.find (payload.grantId, lineage.currentRevision) with
      | none =>
        .error (.error "Received Grant revision does not advance the current lineage")
      | some current =>
        if lineage.currentStatus = .revoked ∨
            payload.revision ≠ lineage.currentRevision + 1 ∨
            payload.previous ≠ some lineage.currentDigest ∨
            payload.updatedAt ≤ current.updatedAt then
          .error (.error "Received Grant revision does not advance the current lineage")
        else do
          let s ← s.insertRevision ambient input.signed
          raise ((ambient.fence lineage.localAccountId).map FenceFault.fault)
          raise (ambient.authority.map AuthorityFault.fault)
          .ok { s with
            lineages := s.lineages.insert payload.grantId (lineage.advance input.signed) }

/-- The branch for a grant this provider does not hold yet. -/
def acceptFirst (s : Store) (ambient : Ambient) (input : ReceivedGrantRevision) :
    Except Fault Store := do
  if input.payload.revision ≠ 1 ∨ input.payload.status ≠ .active then
    .error (.error "A received Grant lineage must begin at active revision 1")
  else
    let s ← s.insertLineage ambient input.signed .grantee
    let s ← s.insertRevision ambient input.signed
    raise (ambient.authority.map AuthorityFault.fault)
    .ok s

/-- Store a revision received for a local grantee. -/
def acceptReceivedRevision (s : Store) (ambient : Ambient) (input : ReceivedGrantRevision) :
    Except Fault Store := do
  checkedInput codec input.signed .grantee
  match ambient.account input.localAccountId with
  | none => .error (.error "Active local grantee account does not match the Grant")
  | some account =>
    if !account.active ∨ account.did ≠ some input.payload.grantee then
      .error (.error "Active local grantee account does not match the Grant")
    else
      match s.lineages.find input.payload.grantId with
      | none => s.acceptFirst ambient input
      | some lineage =>
        if lineage.grantorDid ≠ input.payload.grantor ∨
            lineage.granteeDid ≠ input.payload.grantee then
          .error (.error "Grant parties or local ownership cannot change")
        else
          let existing := s.revisions.find (input.payload.grantId, input.payload.revision)
          match lineage.localRole with
          | .grantor => s.acceptCollocated input existing
          | .grantee => s.acceptNext codec ambient lineage input existing

end Store

end HailProto.Grants
