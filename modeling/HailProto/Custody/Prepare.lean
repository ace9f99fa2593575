import HailProto.Custody.Store

/-!
# Preparing a custody transition

`prepare`, `reviewOwner` and `prepareOwner` of `accounts/custody-transition.ts`. Both paths
read an open preparation first and answer with it; otherwise they read the current authority
and journal a new preparation in one transaction. `prepare` signs the successors of the active
grants inside that transaction, `prepareOwner` takes the owner's signatures over grants it read
before it. Instants are in milliseconds, signed times in seconds.
-/

namespace HailProto.Custody

open Server Grants

/-- The current row of an authoritative lineage with its publication, as `grants` reads it. -/
structure GrantRow where
  grantId : Uuid
  currentRevision : Nat
  currentDigest : Bytes
  currentStatus : GrantStatus
  cose : Bytes
  publication : Option Publication

/-- A revision of an authoritative lineage, as `history` reads it. -/
structure HistoryRow where
  grantId : Uuid
  revision : Nat
  lineageCurrentRevision : Nat
  lineageCurrentStatus : GrantStatus
  row : Revision
  publication : Option Publication

/-- What the owner approves as the account's history. -/
structure Checkpoint where
  did : Did
  revisions : List HistoryRow
  bindings : List (Uuid × BindingRow)
  connections : Bytes
  successors : List (Uuid × Successor)

/-- A signed PLC operation, as parsed from its bytes. -/
structure Operation where
  kind : String
  prev : Option String
  state : PlcState
  deriving DecidableEq

/-- `CustodyTransitionApproval`. -/
structure Approval where
  kind : String
  version : Nat
  transitionId : Uuid
  did : Did
  direction : Direction
  providerServiceBase : String
  ownerRecoveryKey : String
  oldIdentityKey : String
  newIdentityKey : String
  previousOperationCid : String
  operationCid : String
  historyCheckpoint : Bytes
  binding : Bytes
  generationFrom : Nat
  generationTo : Nat
  nonce : String
  issuedAt : Int
  expiresAt : Int
  deriving DecidableEq

/-- The codec, the signatures and the PLC library, as far as transitions call them. -/
structure Platform extends Grants.Codec where
  /-- `signPayload("hail.grant", …)` under a key id, with the private key of a DID key. -/
  signGrant : String → String → HailGrant → Option Bytes
  signBinding : String → String → AddressBinding → Option Bytes
  /-- `verifySignedPayload` for a key id and a DID key. -/
  verifyGrant : String → String → Bytes → Option HailGrant
  verifyBinding : String → String → Bytes → Option AddressBinding
  ed25519Key : String → Bool
  encodeCheckpoint : Checkpoint → Bytes
  parseOperation : Bytes → Option Operation
  operationCid : Bytes → String
  validSignature : String → Bytes → Bool
  decodeApproval : Bytes → Option Approval
  verifyApproval : String → Bytes → Bytes → Bool
  verify_sign : ∀ {kid key payload bytes}, signGrant kid key payload = some bytes →
    verifyGrant kid key bytes = some payload
  inspect_verify : ∀ {kid key payload bytes}, verifyGrant kid key bytes = some payload →
    inspectGrant bytes = some payload

/-- What the DID resolver answers for a DID. -/
structure Resolution where
  serviceBase : String
  /-- The operation CID of strict public verification. -/
  verification : Option String
  identityKey : String
  messagingKey : String
  data : DocumentData
  lastOperationCid : String
  /-- The log is not empty and its validation yields the data. -/
  historyValid : Bool

/-- A fresh managed identity key. -/
structure GeneratedKey where
  didKey : String
  material : KeyMaterial

/-- `CustodyTransitionPreparation`. -/
structure CustodyTransitionPreparation where
  transitionId : Uuid
  accountId : Uuid
  did : Did
  direction : Direction
  ownerRecoveryKey : String
  oldIdentityKey : String
  newIdentityKey : String
  currentState : DocumentData
  unsignedOperation : UnsignedOperation
  previousOperationCid : String
  historyCheckpointDigest : Bytes
  bindingCose : Bytes
  bindingDigest : Bytes
  generationFrom : Nat
  generationTo : Nat
  expiresAt : Nat
  deriving DecidableEq

/-- `preparation`: the answer that a journaled row amounts to. -/
def preparation (id : Uuid) (row : TransitionEvidence) : CustodyTransitionPreparation where
  transitionId := id
  accountId := row.accountId
  did := row.did
  direction := row.direction
  ownerRecoveryKey := row.ownerRecoveryKey
  oldIdentityKey := row.oldIdentityKey
  newIdentityKey := row.newIdentityKey
  currentState := row.expectedState.withIdentity row.oldIdentityKey
  unsignedOperation := ⟨"plc_operation", row.previousOperationCid, row.expectedState.state⟩
  previousOperationCid := row.previousOperationCid
  historyCheckpointDigest := row.historyCheckpointDigest
  bindingCose := row.bindingCose
  bindingDigest := row.bindingDigest
  generationFrom := row.generationFrom
  generationTo := row.generationTo
  expiresAt := row.expiresAt

/-- What a step meets outside the modelled tables: other components' checks and triggers, the
directory, and freshly generated values. -/
structure External where
  /-- `requireCustomDomainAuthority`. -/
  domainAuthority : Option Fault
  /-- The connection triggers: open connection work, another writer, other generations. -/
  connections : Option Fault
  /-- The digest of the account's connection and conversation history. -/
  connectionDigest : Bytes
  /-- `provider_migration_fences`. -/
  migrationFenced : Did → Bool
  /-- The resolver's answer, when it does not raise. -/
  resolution : Option Resolution
  generated : GeneratedKey
  /-- `randomUUID()`. -/
  freshId : Uuid
  /-- What submitting the operation to the directory raises. -/
  submission : Option Fault
  /-- What retaining the public authority evidence and the operation raises. -/
  evidence : Option Fault
  /-- What verifying the published binding raises. -/
  published : Option Fault

def identityKid (did : Did) : String := did ++ "#hail-identity"

/-- The successor of a grant revision: the same authorization under the next revision. It is
no payload when the digest it names as its predecessor is no digest. -/
def successorPayload (payload : HailGrant) (digest : Bytes) (updatedAt : Nat) :
    Option HailGrant :=
  if h : digest.length = 32 ∧ payload.issuedAt ≤ updatedAt then
    some { payload with
      revision := payload.revision + 1
      previous := some digest
      updatedAt := updatedAt
      revision_pos := Nat.succ_pos _
      previous_shape := ⟨Nat.succ_lt_succ payload.revision_pos, h.1⟩
      issuedAt_le := h.2 }
  else none

/-- An active grant needs a predecessor its destination acknowledged. -/
def acknowledgedPredecessor (row : GrantRow) : Except Fault Publication :=
  match row.publication with
  | none => .error (.error "Every active authoritative Grant needs an acknowledged predecessor")
  | some publication =>
    if publication.state ≠ .acknowledged ∨ publication.destinationServiceBase = "" ∨
        publication.acknowledgedEtag.all List.isEmpty then
      .error (.error "Every active authoritative Grant needs an acknowledged predecessor")
    else .ok publication

variable (platform : Platform)

/-- The successor that `prepare` signs for an active grant. -/
def signSuccessor (did : Did) (key : String) (now : Nat) (row : GrantRow) :
    Except Fault (Uuid × Successor) := do
  let publication ← acknowledgedPredecessor row
  let payload ← inspect platform.toCodec row.cose
  let updated := max now (payload.updatedAt + 1)
  if now + 300 < updated then
    .error (.error "Grant successor timestamp is too far ahead")
  else
    match (successorPayload payload row.currentDigest updated).bind
        (platform.signGrant (identityKid did) key) with
    | none => .error (.error "Signed payload is invalid")
    | some cose =>
      .ok (row.grantId, ⟨row.currentRevision, row.currentDigest, payload.revision + 1, cose,
        platform.sha256 cose, publication.destinationServiceBase⟩)

/-- An active grant of `OwnerCustodyReview`: the successor the owner has to sign. -/
structure ReviewedGrant where
  grantId : Uuid
  payload : Option HailGrant
  predecessorDigest : Bytes
  destinationServiceBase : String
  deriving DecidableEq

/-- The successor that `reviewOwner` proposes for an active grant. -/
def reviewGrant (now : Nat) (row : GrantRow) : Except Fault ReviewedGrant := do
  let publication ← acknowledgedPredecessor row
  let payload ← inspect platform.toCodec row.cose
  .ok ⟨row.grantId, successorPayload payload row.currentDigest (max now (payload.updatedAt + 1)),
    row.currentDigest, publication.destinationServiceBase⟩

/-- What `reviewOwner` has read of the account's authority. -/
structure OwnerAuthority where
  did : Did
  canonicalAddress : String
  ownerRecoveryKey : String
  oldIdentityKey : String
  state : PlcState
  previousOperationCid : String

/-- `OwnerCustodyReview`, with the binding the owner has to sign. -/
structure OwnerReview where
  authority : OwnerAuthority
  generationFrom : Nat
  binding : AddressBinding
  activeGrants : List ReviewedGrant

/-- A supplied successor is the reviewed one under the new key. -/
def ownerSuccessor (did : Did) (key : String) (signedGrants : List (Uuid × Bytes))
    (expected : ReviewedGrant) : Except Fault (Uuid × Successor) :=
  match signedGrants.find? fun value => value.1 = expected.grantId with
  | none => .error (.error "Owner Grant successor is missing")
  | some (_, cose) =>
    match platform.verifyGrant (identityKid did) key cose with
    | none => .error (.error "Signature verification failed")
    | some payload =>
      if some payload ≠ expected.payload then
        .error (.error "Owner Grant successor differs from the reviewed predecessor")
      else
        .ok (expected.grantId, ⟨payload.revision - 1, expected.predecessorDigest,
          payload.revision, cose, platform.sha256 cose, expected.destinationServiceBase⟩)

/-- What a call of `prepare` brings to its transaction. -/
structure PrepareDraft where
  did : Did
  current : Resolution
  generated : GeneratedKey
  expectedState : DocumentData
  now : Nat
  bindingCose : Bytes
  transitionId : Uuid
  expiresAt : Nat

/-- What a call of `prepareOwner` brings to its transaction. -/
structure OwnerDraft where
  review : OwnerReview
  newIdentityKey : String
  bindingCose : Bytes
  successors : List (Uuid × Successor)
  transitionId : Uuid
  expiresAt : Nat

namespace Store

variable (s : Store)

/-- `grants`: the account's authoritative lineages with their current revision. -/
def grantRows (accountId : Uuid) : List GrantRow :=
  let owned := s.grants.lineages.rows.filterMap fun (id, lineage) =>
    if lineage.localAccountId = accountId ∧ lineage.localRole = .grantor then
      (s.grants.revisions.find (id, lineage.currentRevision)).map fun revision =>
        ⟨id, lineage.currentRevision, lineage.currentDigest, lineage.currentStatus,
          revision.cose, s.grants.publications.find (id, lineage.currentRevision)⟩
    else none
  owned.insertionSort fun a b => a.grantId ≤ b.grantId

/-- The active ones among them. -/
def activeGrants (accountId : Uuid) : List GrantRow :=
  (s.grantRows accountId).filter fun row => row.currentStatus = .active

/-- The revisions `history` reads. -/
def historyRows (accountId : Uuid) : List HistoryRow :=
  let owned := s.grants.revisions.rows.filterMap fun ((id, revision), row) =>
    (s.grants.lineages.find id).bind fun lineage =>
      if lineage.localAccountId = accountId ∧ lineage.localRole = .grantor then
        some (⟨id, revision, lineage.currentRevision, lineage.currentStatus, row,
          s.grants.publications.find (id, revision)⟩ : HistoryRow)
      else none
  owned.insertionSort fun a b =>
    a.grantId < b.grantId ∨ (a.grantId = b.grantId ∧ a.revision ≤ b.revision)

/-- The bindings `history` reads. -/
def bindingRows (accountId : Uuid) : List (Uuid × BindingRow) :=
  (s.bindings.rows.filter fun (_, row) => row.accountId = accountId).insertionSort fun a b =>
    a.2.createdAt < b.2.createdAt ∨ (a.2.createdAt = b.2.createdAt ∧ a.1 ≤ b.1)

/-- The digest of the history checkpoint. -/
def checkpoint (accountId : Uuid) (did : Did) (connections : Bytes)
    (successors : List (Uuid × Successor)) : Bytes :=
  platform.sha256 (platform.encodeCheckpoint
    ⟨did, s.historyRows accountId, s.bindingRows accountId, connections, successors⟩)

/-- `INSERT INTO custody_transition_preparations`, with its constraints and triggers. -/
def insertTransition (external : External) (id : Uuid) (evidence : TransitionEvidence) :
    Except Fault Store := do
  raise external.connections
  if evidence.generationTo ≠ evidence.generationFrom + 1 ∨
      s.generations.find evidence.accountId ≠ some evidence.generationFrom then
    .error ⟨some "55000", "Connection custody source generation differs"⟩
  else if evidence.expiresAt ≤ evidence.createdAt ∨
      evidence.createdAt + 3600000 < evidence.expiresAt then
    .error (.checkViolation "custody_transition_preparations_expires_at_check")
  else if (s.transitions.find id).isSome then
    .error (.uniqueViolation "custody_transition_preparations_pkey")
  else if (s.openTransition evidence.accountId).isSome then
    .error (.uniqueViolation "custody_transition_one_open_account")
  else
    let row : Transition := ⟨evidence, .prepared⟩
    .ok { s with transitions := s.transitions.insert id row }

/-- Another successor row of the grant has this revision. -/
def successorTaken (grantId : Uuid) (revision : Nat) : Bool :=
  s.successors.rows.any fun ((_, id), row) =>
    decide (id = grantId ∧ row.successorRevision = revision)

/-- `INSERT INTO custody_transition_grant_successors`. -/
def insertSuccessor (id : Uuid) (successor : Uuid × Successor) : Except Fault Store :=
  let (grantId, row) := successor
  if row.predecessorRevision = 0 ∨ row.successorRevision ≠ row.predecessorRevision + 1 ∨
      row.predecessorDigest.length ≠ 32 ∨ row.successorCose.length < 1 ∨
      262144 < row.successorCose.length then
    .error (.checkViolation "custody_transition_grant_successors")
  else if (s.successors.find (id, grantId)).isSome then
    .error (.uniqueViolation "custody_transition_grant_successors_pkey")
  else if s.successorTaken grantId row.successorRevision then
    .error (.uniqueViolation "custody_transition_grant_successors_grant_id_successor_revision_key")
  else .ok { s with successors := s.successors.insert (id, grantId) row }

/-- Journal a preparation with its successors and read it back. -/
def journal (external : External) (id : Uuid) (evidence : TransitionEvidence)
    (successors : List (Uuid × Successor)) :
    Except Fault (Store × CustodyTransitionPreparation) := do
  let s ← s.insertTransition external id evidence
  let s ← successors.foldlM (fun s successor => s.insertSuccessor id successor) s
  .ok (s, preparation id evidence)

/-- The public active account a transition starts from. -/
def publicAccount (accountId : Uuid) : Except Fault (Did × String) :=
  match s.accounts.find accountId with
  | none => .error (.error "A public active account is required")
  | some account =>
    match account.did with
    | none => .error (.error "A public active account is required")
    | some did =>
      if !account.active ∨ !account.publicMode then
        .error (.error "A public active account is required")
      else .ok (did, account.canonicalAddress)

/-- What `prepare` does before its transaction once there is no open preparation. -/
def prepareDraft (serviceBase : String) (external : External) (clock : Nat) (accountId : Uuid) :
    Except Fault PrepareDraft := do
  let (did, address) ← s.publicAccount accountId
  match external.resolution with
  | none => .error (.error "DID resolution failed")
  | some current =>
    if current.serviceBase ≠ serviceBase ∨ current.verification = none then
      .error (.error "Strict current PLC authority is required")
    else if !current.historyValid then
      .error (.error "Current PLC history is invalid")
    else
      let generated := external.generated
      if generated.didKey = current.identityKey ∨ generated.didKey = current.messagingKey then
        .error (.error "Fresh managed identity generation failed")
      else
        let now := clock / 1000
        match platform.signBinding (identityKid did) generated.didKey
            ⟨address, did, now, identityKid did⟩ with
        | none => .error (.error "Signed payload is invalid")
        | some bindingCose =>
          .ok ⟨did, current, generated, current.data.withIdentity generated.didKey, now,
            bindingCose, external.freshId, clock + 3600000⟩

/-- The provider's operational keys are those of the current PLC state. -/
def operationalKeysMatch (accountId : Uuid) (draft : PrepareDraft) : Bool :=
  (s.keys.find (accountId, .hailIdentity)).isNone &&
    (s.keys.find (accountId, .hailMessaging)).any
      (fun key => key.publicKey = draft.current.messagingKey) &&
    (s.keys.find (accountId, .plcRotation)).any fun key =>
      (draft.expectedState.state.rotationKeys.drop 1).contains key.publicKey

/-- The row that `prepare` journals. -/
def prepareEvidence (accountId : Uuid) (draft : PrepareDraft) (portable : PortableCustody)
    (generation clock : Nat) (checkpoint : Bytes) : TransitionEvidence where
  accountId := accountId
  did := draft.did
  direction := .ownerToManaged
  ownerRecoveryKey := portable.userRecoveryKey
  oldIdentityKey := portable.userIdentityKey
  newIdentityKey := draft.generated.didKey
  previousOperationCid := draft.current.lastOperationCid
  expectedState := draft.expectedState
  historyCheckpointDigest := checkpoint
  bindingCose := draft.bindingCose
  bindingDigest := platform.sha256 draft.bindingCose
  identity := some draft.generated.material
  generationFrom := generation
  generationTo := generation + 1
  createdAt := clock
  expiresAt := draft.expiresAt

/-- The transaction of `prepare`. -/
def prepareTransaction (external : External) (clock : Nat) (accountId : Uuid)
    (draft : PrepareDraft) : Except Fault (Store × CustodyTransitionPreparation) := do
  raise external.domainAuthority
  match s.openTransition accountId with
  | some (id, raced) => .ok (s, preparation id raced.evidence)
  | none =>
    if (s.accounts.find accountId).bind Account.did ≠ some draft.did ∨
        (s.managed.find accountId).isSome then
      .error (.error "Account custody changed")
    else
      match s.portable.find accountId with
      | none =>
        .error (.error "Portable custody evidence does not match current PLC authority")
      | some portable =>
        if portable.userIdentityKey ≠ draft.current.identityKey ∨
            draft.expectedState.state.rotationKeys.head? ≠ some portable.userRecoveryKey then
          .error (.error "Portable custody evidence does not match current PLC authority")
        else if !s.operationalKeysMatch accountId draft then
          .error (.error "Provider operational keys do not match current PLC authority")
        else
          match s.generations.find accountId with
          | none => .error (.error "Invalid serving generation")
          | some generation =>
            let successors ← (s.activeGrants accountId).mapM
              (signSuccessor platform draft.did draft.generated.didKey draft.now)
            s.journal external draft.transitionId
              (prepareEvidence platform accountId draft portable generation clock
                (s.checkpoint platform accountId draft.did external.connectionDigest
                  successors))
              successors

/-- The first part of `reviewOwner`: the account, its custody record and the directory. -/
def reviewAuthority (serviceBase : String) (external : External) (accountId : Uuid)
    (newIdentityKey : String) : Except Fault OwnerAuthority := do
  raise external.domainAuthority
  if !platform.ed25519Key newIdentityKey then
    .error (.error "Invalid did:key")
  else
    let (did, address) ← s.publicAccount accountId
    match s.managed.find accountId with
    | none =>
      .error (.error "Independent-monitor managed custody is required for this transition")
    | some managed =>
      if managed.verificationMode ≠ "strict-public-v1" then
        .error (.error "Independent-monitor managed custody is required for this transition")
      else
        match external.resolution with
        | none => .error (.error "DID resolution failed")
        | some current =>
          if current.serviceBase ≠ serviceBase ∨ current.verification = none ∨
              current.identityKey ≠ managed.providerIdentityKey ∨
              current.data.state.rotationKeys.head? ≠ some managed.ownerRecoveryKey then
            .error (.error "Strict managed PLC authority is required")
          else if (current.identityKey :: current.messagingKey ::
              current.data.state.rotationKeys).contains newIdentityKey then
            .error (.error "Owner custody requires a fresh identity key")
          else if !current.historyValid then
            .error (.error "Current PLC history is invalid")
          else
            .ok ⟨did, address, managed.ownerRecoveryKey, managed.providerIdentityKey,
              (current.data.withIdentity newIdentityKey).state, current.lastOperationCid⟩

/-- The second part: the serving generation. -/
def reviewGeneration (accountId : Uuid) : Except Fault Nat :=
  match s.generations.find accountId with
  | none => .error (.error "Invalid serving generation")
  | some generation => .ok generation

/-- The last part: the successors of the active grants. -/
def reviewGrants (accountId : Uuid) (authority : OwnerAuthority) (generation now : Nat) :
    Except Fault OwnerReview := do
  let activeGrants ← (s.activeGrants accountId).mapM (reviewGrant platform now)
  .ok ⟨authority, generation, ⟨authority.canonicalAddress, authority.did, now,
    identityKid authority.did⟩, activeGrants⟩

end Store

/-- When the owner signed, within a quarter of an hour before and five minutes after now. -/
def reviewedAt (bindingCose : Bytes) (clock : Nat) : Except Fault Nat :=
  match platform.inspectBinding bindingCose with
  | none => .error (.error "Signed payload is invalid")
  | some binding =>
    if binding.issuedAt + 900 < clock / 1000 ∨ clock / 1000 + 300 < binding.issuedAt then
      .error (.error "Owner custody review expired or is not yet valid")
    else .ok binding.issuedAt

/-- The owner's signatures are over exactly what was reviewed. -/
def ownerDraft (external : External) (clock : Nat) (newIdentityKey : String)
    (bindingCose : Bytes) (signedGrants : List (Uuid × Bytes)) (review : OwnerReview) :
    Except Fault OwnerDraft :=
  let did := review.authority.did
  match platform.verifyBinding (identityKid did) newIdentityKey bindingCose with
  | none => .error (.error "Signature verification failed")
  | some binding => do
      if binding ≠ review.binding then
        .error (.error "Owner binding differs from the reviewed transition")
      else if signedGrants.length ≠ review.activeGrants.length ∨
          ¬(signedGrants.map Prod.fst).Nodup then
        .error (.error "Owner Grant successor set is incomplete")
      else
        let successors ← review.activeGrants.mapM
          (ownerSuccessor platform did newIdentityKey signedGrants)
        .ok ⟨review, newIdentityKey, bindingCose, successors, external.freshId,
          clock + 3600000⟩

/-- The row that `prepareOwner` journals. -/
def ownerEvidence (accountId : Uuid) (draft : OwnerDraft) (clock : Nat) (checkpoint : Bytes) :
    TransitionEvidence where
  accountId := accountId
  did := draft.review.authority.did
  direction := .managedToOwner
  ownerRecoveryKey := draft.review.authority.ownerRecoveryKey
  oldIdentityKey := draft.review.authority.oldIdentityKey
  newIdentityKey := draft.newIdentityKey
  previousOperationCid := draft.review.authority.previousOperationCid
  expectedState := ⟨draft.review.authority.did, draft.review.authority.state⟩
  historyCheckpointDigest := checkpoint
  bindingCose := draft.bindingCose
  bindingDigest := platform.sha256 draft.bindingCose
  identity := none
  generationFrom := draft.review.generationFrom
  generationTo := draft.review.generationFrom + 1
  createdAt := clock
  expiresAt := draft.expiresAt

/-- The transaction of `prepareOwner`. Of what was reviewed it reads only the custody record
again. -/
def Store.ownerTransaction (s : Store) (external : External) (clock : Nat) (accountId : Uuid)
    (draft : OwnerDraft) : Except Fault (Store × CustodyTransitionPreparation) := do
  raise external.domainAuthority
  match s.openTransition accountId with
  | some (id, raced) => .ok (s, preparation id raced.evidence)
  | none =>
    match s.managed.find accountId with
    | none => .error (.error "Managed custody changed")
    | some managed =>
      if managed.providerIdentityKey ≠ draft.review.authority.oldIdentityKey then
        .error (.error "Managed custody changed")
      else
        s.journal external draft.transitionId
          (ownerEvidence platform accountId draft clock
            (s.checkpoint platform accountId draft.review.authority.did
              external.connectionDigest draft.successors))
          draft.successors

end HailProto.Custody
