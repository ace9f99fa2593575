import HailProto.Custody.Prepare

/-!
# Committing a custody transition

`commit` and `materialize` of `accounts/custody-transition.ts`. The first transaction journals
the owner-approved operation, the directory is asked in between, and the second transaction
exchanges the custody record, the identity key and every prepared grant revision, or nothing.
-/

namespace HailProto.Custody

open Server Grants

/-- What the owner sends to `commit`. -/
structure CommitInput where
  accountId : Uuid
  transitionId : Uuid
  operationBytes : Bytes
  approvalBytes : Bytes
  approvalSignature : Bytes

/-- The operation of a commit with the identifier computed from it. -/
def CommitInput.signed (platform : Platform) (input : CommitInput) : SignedOperation :=
  ⟨input.operationBytes, platform.operationCid input.operationBytes, input.approvalBytes,
    input.approvalSignature⟩

variable (platform : Platform)

/-- `reviewApproval`: the approval names the row and nothing but the row. Seconds are signed. -/
def reviewApproval (serviceBase : String) (clock : Nat) (id : Uuid) (row : TransitionEvidence)
    (value : Approval) (cid : String) (accepted : Bool) : Except Fault Unit :=
  let now : Int := clock / 1000
  if value.kind ≠ "racr.custody-transition" ∨ value.version ≠ 1 ∨ value.transitionId ≠ id ∨
      value.did ≠ row.did ∨ value.direction ≠ row.direction ∨
      value.providerServiceBase ≠ serviceBase ∨
      value.ownerRecoveryKey ≠ row.ownerRecoveryKey ∨
      value.oldIdentityKey ≠ row.oldIdentityKey ∨ value.newIdentityKey ≠ row.newIdentityKey ∨
      value.previousOperationCid ≠ row.previousOperationCid ∨ value.operationCid ≠ cid ∨
      value.historyCheckpoint ≠ row.historyCheckpointDigest ∨
      value.binding ≠ row.bindingDigest ∨ value.generationFrom ≠ row.generationFrom ∨
      value.generationTo ≠ row.generationTo ∨ value.nonce.length < 16 ∨
      value.issuedAt > now + 300 ∨ (accepted = false ∧ value.expiresAt ≤ now) ∨
      value.expiresAt - value.issuedAt > 3600 then
    .error (.error "Owner approval does not match the exact prepared custody transition")
  else .ok ()

/-- The operation sets the prepared state on the approved predecessor. -/
def Operation.isPrepared (operation : Operation) (row : TransitionEvidence) : Bool :=
  decide (operation = ⟨"plc_operation", some row.previousOperationCid, row.expectedState.state⟩)

/-- What `commit` checks before its transaction, on the row it read. -/
def checkCommit (serviceBase : String) (clock : Nat) (input : CommitInput) (row : Transition) :
    Except Fault Unit :=
  match platform.parseOperation input.operationBytes with
  | none => .error (.error "Invalid PLC operation")
  | some operation =>
    if !operation.isPrepared row.evidence then
      .error (.error "Signed PLC operation differs from the prepared full state")
    else if !platform.validSignature row.evidence.ownerRecoveryKey input.operationBytes then
      .error (.error "Invalid PLC signature")
    else
      match platform.decodeApproval input.approvalBytes with
      | none => .error (.error "Invalid owner approval")
      | some approval => do
          reviewApproval serviceBase clock input.transitionId row.evidence approval
            (platform.operationCid input.operationBytes) row.state.signed.isSome
          if !platform.verifyApproval row.evidence.ownerRecoveryKey input.approvalBytes
              input.approvalSignature then
            .error (.error "Invalid owner custody-transition approval")
          else .ok ()

namespace Store

variable (s : Store)

/-- `row`: the transition, read for its account. -/
def transitionRow (accountId id : Uuid) : Except Fault Transition :=
  match s.transitions.find id with
  | none => .error (.error "Custody transition does not exist")
  | some row =>
    if row.evidence.accountId ≠ accountId then
      .error (.error "Custody transition does not exist")
    else .ok row

/-- Everything of `commit` before its first transaction. -/
def readCommit (serviceBase : String) (clock : Nat) (input : CommitInput) :
    Except Fault Transition := do
  if input.operationBytes.length < 1 ∨ 16000 < input.operationBytes.length ∨
      input.approvalBytes.length < 1 ∨ 16384 < input.approvalBytes.length ∨
      input.approvalSignature.length ≠ 64 then
    .error (.error "Custody transition evidence exceeds its limit")
  else
    let row ← s.transitionRow input.accountId input.transitionId
    if row.evidence.direction = .managedToOwner ∧ row.state.isOpen = true ∧
        ¬(s.managed.find input.accountId).any
          (fun managed => managed.verificationMode = "strict-public-v1") then
      .error (.error "Independent-monitor managed custody is required for this transition")
    else
      checkCommit platform serviceBase clock input row
      .ok row

/-- The first transaction of `commit`: journal the operation, or recognize its exact retry. -/
def recordCommit (external : External) (clock : Nat) (input : CommitInput) :
    Except Fault Store :=
  match s.transitions.find input.transitionId with
  | none => .error (.error "Custody transition does not exist")
  | some current => do
      raise (if current.state.isOpen then external.domainAuthority else none)
      match current.state.signed with
      | some signed =>
        if signed ≠ input.signed platform then
          .error (.error "Custody transition retry changed exact owner-approved bytes")
        else .ok s
      | none =>
        if current.evidence.expiresAt ≤ clock then
          .error (.error "Custody transition preparation expired")
        else
          raise external.connections
          let row : Transition := ⟨current.evidence, .submissionUnknown (input.signed platform)⟩
          .ok { s with transitions := s.transitions.insert input.transitionId row }

end Store

/-- What `commit` asks the directory between its transactions. -/
def confirmCommit (serviceBase : String) (external : External) (input : CommitInput)
    (row : Transition) : Except Fault Unit := do
  raise (if row.state.isOpen then external.submission else none)
  match external.resolution with
  | none => .error (.error "DID resolution failed")
  | some observed =>
    if observed.verification ≠ some (platform.operationCid input.operationBytes) ∨
        observed.identityKey ≠ row.evidence.newIdentityKey ∨
        observed.serviceBase ≠ serviceBase ∨ observed.data ≠ row.evidence.expectedState then
      .error (.error "Validated public reader does not confirm the approved custody state")
    else .ok ()

namespace Store

variable (s : Store)

/-- The successors of a transition, in the order of their grants. -/
def successorRows (id : Uuid) : List (Uuid × Successor) :=
  let rows := s.successors.rows.filterMap fun ((transition, grantId), row) =>
    if transition = id then some (grantId, row) else none
  rows.insertionSort fun a b => a.1 ≤ b.1

/-- The predecessor of a successor is still the current, active, acknowledged revision. -/
def predecessorCurrent (accountId grantId : Uuid) (row : Successor) : Bool :=
  (s.grants.lineages.find grantId).any (fun lineage =>
    decide (lineage.localAccountId = accountId ∧ lineage.localRole = .grantor ∧
      lineage.currentStatus = .active ∧ lineage.currentRevision = row.predecessorRevision ∧
      lineage.currentDigest = row.predecessorDigest)) &&
  (s.grants.publications.find (grantId, row.predecessorRevision)).any fun publication =>
    decide (publication.state = .acknowledged) &&
      !publication.acknowledgedEtag.all List.isEmpty

/-- The check of all predecessors. -/
def checkPredecessors (accountId : Uuid) (successors : List (Uuid × Successor)) :
    Except Fault Unit :=
  if successors.all (fun (grantId, row) => s.predecessorCurrent accountId grantId row) then .ok ()
  else .error (.error "Acknowledged Grant predecessor changed before custody materialization")

/-- The custody records the transition starts from. -/
def retiredCustody (row : TransitionEvidence) : Except Fault RetiredCustody :=
  match row.direction with
  | .ownerToManaged =>
    match s.portable.find row.accountId with
    | none => .error (.error "Account custody changed before materialization")
    | some portable => .ok (.portable portable)
  | .managedToOwner =>
    match s.managed.find row.accountId with
    | none => .error (.error "Account custody changed before materialization")
    | some managed =>
      if managed.providerIdentityKey ≠ row.oldIdentityKey ∨
          managed.verificationMode ≠ "strict-public-v1" then
        .error (.error "Account custody changed before materialization")
      else .ok (.managed managed)

/-- `INSERT INTO account_keys` for the identity role. -/
def insertIdentityKey (accountId : Uuid) (key : AccountKey) : Except Fault Store :=
  if (s.portable.find accountId).isSome then
    .error ⟨none, "Portable custody forbids provider identity private-key storage"⟩
  else if (s.keys.find (accountId, .hailIdentity)).isSome then
    .error (.uniqueViolation "account_keys_pkey")
  else .ok { s with keys := s.keys.insert (accountId, .hailIdentity) key }

/-- `INSERT INTO managed_custody_evidence`, with its consistency trigger. -/
def insertManaged (accountId : Uuid) (row : ManagedCustody) : Except Fault Store :=
  if (s.portable.find accountId).isSome ∨ ¬(s.keys.find (accountId, .hailIdentity)).any
      (fun key => key.publicKey = row.providerIdentityKey) then
    .error ⟨some "55000", "Managed custody requires one matching provider identity and no " ++
      "portable custody"⟩
  else if (s.managed.find accountId).isSome then
    .error (.uniqueViolation "managed_custody_evidence_pkey")
  else .ok { s with managed := s.managed.insert accountId row }

/-- `INSERT INTO portable_custody_evidence`, with its separation trigger. -/
def insertPortable (accountId : Uuid) (row : PortableCustody) : Except Fault Store :=
  if (s.keys.find (accountId, .hailIdentity)).isSome ∨ (s.managed.find accountId).isSome then
    .error ⟨none, "Portable custody forbids provider identity storage or managed custody"⟩
  else if row.userRecoveryKey = row.userIdentityKey then
    .error (.checkViolation "portable_custody_evidence_check")
  else if (s.portable.find accountId).isSome then
    .error (.uniqueViolation "portable_custody_evidence_pkey")
  else .ok { s with portable := s.portable.insert accountId row }

/-- The portable record retired by the account's last completed transition to managed custody. -/
def previousPortable (accountId : Uuid) : Option PortableCustody :=
  let completed := s.transitions.rows.filterMap fun (_, row) =>
    match row.state with
    | .complete _ (.portable retired) completedAt =>
      if row.evidence.accountId = accountId ∧ row.evidence.direction = .ownerToManaged then
        some (completedAt, retired)
      else none
    | _ => none
  (completed.insertionSort fun a b => b.1 ≤ a.1).head?.map Prod.snd

/-- The monitor of a portable record, with the time it was confirmed. -/
def monitorFor (accountId : Uuid) : Option (String × String × Nat) :=
  let previous := s.previousPortable accountId
  let onboarding := s.onboarding.find accountId
  do
    let origin ← (previous.map PortableCustody.monitorOrigin).or
      (onboarding.map MonitorEvidence.origin)
    let key ← (previous.bind PortableCustody.monitorPublicKey).or
      (onboarding.map MonitorEvidence.publicKey)
    let confirmed ← (previous.map PortableCustody.monitorConfirmedAt).or
      (onboarding.map MonitorEvidence.activatedAt)
    if origin = "" ∨ key = "" then none else some (origin, key, confirmed)

/-- Exchange the custody record and the identity key. -/
def exchangeCustody (clock : Nat) (row : TransitionEvidence) : Except Fault Store :=
  match row.direction with
  | .ownerToManaged =>
    match row.identity with
    | none => .error (.error "Managed identity material is missing")
    | some material =>
      if material.encryptionVersion ≠ 1 then
        .error (.error "Managed identity material is missing")
      else do
        let s : Store := { s with
          portable := s.portable.deleteWhere fun id _ => id = row.accountId }
        let s ← s.insertIdentityKey row.accountId ⟨row.newIdentityKey, material⟩
        s.insertManaged row.accountId
          ⟨row.ownerRecoveryKey, row.newIdentityKey, "strict-public-v1"⟩
  | .managedToOwner =>
    match s.monitorFor row.accountId with
    | none => .error (.error "Independent monitor evidence is required for portable custody")
    | some (origin, key, confirmed) =>
      let s : Store := { s with
        managed := s.managed.deleteWhere fun id _ => id = row.accountId
        keys := s.keys.deleteWhere fun id stored => id = (row.accountId, .hailIdentity) &&
          stored.publicKey = row.oldIdentityKey }
      s.insertPortable row.accountId
        ⟨row.ownerRecoveryKey, row.newIdentityKey, origin, some key, confirmed, clock⟩

/-- The grant tables after a prepared successor became current. -/
def installedGrants (grants : Grants.Store) (clock : Nat) (grantId : Uuid) (row : Successor)
    (input : SignedGrantRevision) : Grants.Store :=
  let publication : Publication := ⟨row.destinationServiceBase, .pending, 0, clock * 1000, none,
    none, none, none, clock * 1000⟩
  { grants with
    revisions := grants.revisions.insert (grantId, row.successorRevision)
      (Grants.Store.revisionRow input)
    lineages := grants.lineages.update grantId fun lineage =>
      { lineage with
        currentRevision := row.successorRevision
        currentDigest := row.successorDigest }
    publications := grants.publications.insert (grantId, row.successorRevision) publication }

/-- Install a prepared successor: its revision, the lineage's pointer and its publication. -/
def installSuccessor (clock : Nat) (evidence : TransitionEvidence)
    (successor : Uuid × Successor) : Except Fault Store := do
  let (grantId, row) := successor
  let payload ← inspect platform.toCodec row.successorCose
  let input : SignedGrantRevision := ⟨evidence.accountId, .grantor, payload, row.successorCose,
    row.successorDigest, evidence.newIdentityKey⟩
  raise (Grants.Store.revisionCheck (Grants.Store.revisionRow input))
  if (s.grants.revisions.find (grantId, row.successorRevision)).isSome then
    .error (.uniqueViolation "grant_revisions_pkey")
  else if s.grants.digestTaken grantId row.successorDigest then
    .error (.uniqueViolation "grant_revisions_grant_id_representation_digest_key")
  else if (s.grants.publications.find (grantId, row.successorRevision)).isSome then
    .error (.uniqueViolation "grant_publications_pkey")
  else .ok { s with grants := installedGrants s.grants clock grantId row input }

/-- Select the prepared binding in place of every earlier one of the account. -/
def selectBinding (clock : Nat) (id : Uuid) (address : String) (issuedAt : Nat)
    (row : TransitionEvidence) : Except Fault Store :=
  if (s.bindings.find id).isSome then .error (.uniqueViolation "address_bindings_pkey")
  else if s.bindings.rows.any (fun (_, stored) => decide (stored.accountId = row.accountId ∧
      stored.digest = row.bindingDigest)) then
    .error (.uniqueViolation "address_bindings_account_id_representation_digest_key")
  else
    let unselected := s.bindings.mapRows fun _ stored =>
      if stored.accountId = row.accountId then { stored with selectedAt := none } else stored
    let binding : BindingRow := ⟨row.accountId, address, row.did, row.bindingCose,
      row.bindingDigest, issuedAt, some clock, some clock, clock⟩
    .ok { s with bindings := unselected.insert id binding }

/-- End the publication leases that workers hold for the account. -/
def endLeases (accountId : Uuid) : Store :=
  { s with
    grants := { s.grants with
      publications := s.grants.publications.mapRows fun key publication =>
        if (s.grants.lineages.find key.1).any (fun lineage =>
            lineage.localAccountId = accountId) then
          { publication with lease := none }
        else publication } }

/-- Complete the transition and pass the account to the next serving generation. -/
def completeTransition (clock : Nat) (id : Uuid) (row : TransitionEvidence)
    (current : TransitionEvidence) (signed : SignedOperation) (retired : RetiredCustody) :
    Store :=
  let complete : Transition := ⟨current, .complete signed retired clock⟩
  { s with
    accounts := s.accounts.update row.accountId fun account =>
      { account with activationBindingDigest := some row.bindingDigest }
    transitions := s.transitions.insert id complete
    generations := s.generations.update row.accountId (· + 1) }

/-- The session of a transition's own writes. -/
def transitionSession (external : External) (accountId : Uuid) (generation : Nat) : Session where
  admitted := fun id => if id = accountId then some generation else none
  custodyTransition := some accountId
  migrationFenced := external.migrationFenced

/-- `materialize`; it answers with the store, whether or not there was something to do. -/
def materialize (external : External) (clock : Nat) (id : Uuid) (row : TransitionEvidence) :
    Except Fault Store :=
  match s.transitions.find id with
  | none => .error (.error "Custody transition disappeared")
  | some current =>
    match current.state with
    | .complete .. => .ok s
    | .prepared => .error (.checkViolation "custody_transition_preparations_check")
    | .submissionUnknown signed =>
      match s.accounts.find row.accountId with
      | none => .error (.error "Account custody changed before materialization")
      | some account => do
          if account.did ≠ some row.did then
            .error (.error "Account custody changed before materialization")
          else
            let retired ← s.retiredCustody row
            match s.generations.find row.accountId with
            | none => .error (.error "Invalid generation")
            | some generation =>
              if generation ≠ row.generationFrom then
                .error (.error
                  "Serving generation changed before custody materialization")
              else
                let successors := s.successorRows id
                s.checkPredecessors row.accountId successors
                raise ((s.assertUnfencedAccount
                  (transitionSession external row.accountId generation)
                  row.accountId).map FenceFault.fault)
                let s ← s.exchangeCustody clock row
                let s ← successors.foldlM (fun s successor =>
                  s.installSuccessor platform clock row successor) s
                raise external.domainAuthority
                match platform.inspectBinding row.bindingCose with
                | none => .error (.error "Signed payload is invalid")
                | some binding =>
                  let s ← s.selectBinding clock external.freshId account.canonicalAddress
                    binding.issuedAt row
                  raise external.evidence
                  raise external.connections
                  if 2147483647 ≤ generation then
                    .error (.checkViolation "account_serving_generations_generation_check")
                  else
                    .ok ((s.endLeases row.accountId).completeTransition clock id row
                      current.evidence signed retired)

end Store

end HailProto.Custody
