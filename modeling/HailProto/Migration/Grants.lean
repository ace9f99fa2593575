import HailProto.Custody.Prepare

/-!
# The grants of a transferred account

The grant tables of a transfer manifest, as `collect` reads them at the source, and `importGrants`
of the portable and of the managed activation, which merges them with what the destination
already stores for the other party. The two functions differ in one message, and the managed one
ends by signing a successor of every active grant under the destination's identity key.
-/

namespace HailProto.Migration

open Server Grants

/-- The grant tables of a manifest. -/
structure GrantTables where
  grantLineages : List (Uuid × Lineage)
  grantRevisions : List ((Uuid × Nat) × Revision)
  grantConsentEvidence : List ((Uuid × Nat) × ConsentRow)
  grantPublications : List ((Uuid × Nat) × Publication)

section Collect

variable (s : Store) (accountId : Uuid)

/-- The account owns the lineage's row. -/
def owns (grantId : Uuid) : Bool :=
  (s.lineages.find grantId).any fun lineage => lineage.localAccountId = accountId

/-- The account is the collocated grantee of a lineage that the grantor's account owns. -/
def receivesCollocated (grantId : Uuid) : Bool :=
  (s.lineages.find grantId).isSome && decide (s.collocated.find grantId = some accountId)

/-- `ORDER BY grant_id`. -/
def byGrant {ρ : Type} (rows : List (Uuid × ρ)) : List (Uuid × ρ) :=
  rows.insertionSort fun a b => a.1 ≤ b.1

/-- `ORDER BY grant_id, revision`. -/
def byRevision {ρ : Type} (rows : List ((Uuid × Nat) × ρ)) : List ((Uuid × Nat) × ρ) :=
  rows.insertionSort fun a b => a.1.1 < b.1.1 ∨ a.1.1 = b.1.1 ∧ a.1.2 ≤ b.1.2

/-- The rows of a table of revisions whose grant the account owns, then those it received
collocated. -/
def ownedThenReceived {ρ : Type} (rows : List ((Uuid × Nat) × ρ)) : List ((Uuid × Nat) × ρ) :=
  byRevision (rows.filter fun row => owns s accountId row.1.1) ++
    byRevision (rows.filter fun row => receivesCollocated s accountId row.1.1)

/-- The grant queries of `collect`: a grantee whose lineage its grantor's account owns exports it
under its own account and role. -/
def collectGrants : GrantTables where
  grantLineages :=
    byGrant (s.lineages.rows.filter fun row => owns s accountId row.1) ++
      (byGrant (s.lineages.rows.filter fun row => receivesCollocated s accountId row.1)).map
        fun row => (row.1, { row.2 with localAccountId := accountId, localRole := .grantee })
  grantRevisions := ownedThenReceived s accountId s.revisions.rows
  grantConsentEvidence := ownedThenReceived s accountId s.consent.rows
  grantPublications := byRevision (s.publications.rows.filter fun row => owns s accountId row.1.1)

end Collect

/-- PostgreSQL's answer to a row whose reference is absent. -/
def foreignKeyViolation (constraint : String) : Fault :=
  ⟨some "23503", "insert or update violates foreign key constraint " ++ constraint⟩

/-! ### `insertRow`, for each grant table -/

section InsertRow

variable (ambient : Ambient) (s : Store)

/-- The fence trigger of the tables that find their owner through the lineage. -/
def ownerFence (grantId : Uuid) : Option Fault :=
  (((s.lineages.find grantId).map Lineage.localAccountId).bind ambient.fence).map FenceFault.fault

def insertLineageRow (grantId : Uuid) (row : Lineage) : Except Fault Store := do
  raise ((ambient.fence row.localAccountId).map FenceFault.fault)
  if row.grantorDid = row.granteeDid then
    .error (.checkViolation "grant_lineages_distinct_parties")
  else if row.currentRevision = 0 then .error (.checkViolation "grant_lineages_revision")
  else if row.currentDigest.length ≠ 32 then
    .error (.checkViolation "grant_lineages_digest_size")
  else if (s.lineages.find grantId).isSome then .error (.uniqueViolation "grant_lineages_pkey")
  else if row.currentStatus = .active ∧ s.pairTaken grantId row.grantorDid row.granteeDid then
    .error (.uniqueViolation "grant_lineages_one_active_pair_idx")
  else .ok { s with lineages := s.lineages.insert grantId row }

/-- The constraint of `grant_revisions` that a transferred row breaks. -/
def transferredCheck (revision : Nat) (row : Revision) : Option Fault :=
  if revision = 0 then some (.checkViolation "grant_revisions_revision")
  else if row.updatedAt < row.issuedAt then some (.checkViolation "grant_revisions_timestamps")
  else if ¬((revision = 1 ∧ row.previousDigest = none) ∨
      (1 < revision ∧ row.previousDigest.map List.length = some 32)) then
    some (.checkViolation "grant_revisions_previous")
  else Store.revisionCheck row

def insertRevisionRow (key : Uuid × Nat) (row : Revision) : Except Fault Store := do
  raise (ownerFence ambient s key.1)
  raise (transferredCheck key.2 row)
  if (s.revisions.find key).isSome then .error (.uniqueViolation "grant_revisions_pkey")
  else if s.digestTaken key.1 row.representationDigest then
    .error (.uniqueViolation "grant_revisions_grant_id_representation_digest_key")
  else if (s.lineages.find key.1).isNone then
    .error (foreignKeyViolation "grant_revisions_grant_id_fkey")
  else .ok { s with revisions := s.revisions.insert key row }

def insertConsentRow (key : Uuid × Nat) (row : ConsentRow) : Except Fault Store := do
  raise (ownerFence ambient s key.1)
  if row.bindingDigest.length ≠ 32 ∨ row.profileDigest.length ≠ 32 then
    .error (.checkViolation "grant_consent_evidence_digests")
  else if row.profileRevision = 0 then
    .error (.checkViolation "grant_consent_evidence_profile_revision")
  else if (s.consent.find key).isSome then .error (.uniqueViolation "grant_consent_evidence_pkey")
  else if (s.revisions.find key).isNone then
    .error (foreignKeyViolation "grant_consent_evidence_grant_id_revision_fkey")
  else .ok { s with consent := s.consent.insert key row }

def insertPublicationRow (key : Uuid × Nat) (row : Publication) : Except Fault Store := do
  raise (ownerFence ambient s key.1)
  if (s.publications.find key).isSome then .error (.uniqueViolation "grant_publications_pkey")
  else if (s.revisions.find key).isNone then
    .error (foreignKeyViolation "grant_publications_grant_id_revision_fkey")
  else .ok { s with publications := s.publications.insert key row }

/-- `INSERT INTO collocated_grant_receivers`. -/
def insertCollocated (grantId granteeAccountId : Uuid) : Except Fault Store :=
  if (s.collocated.find grantId).isSome then
    .error (.uniqueViolation "collocated_grant_receivers_pkey")
  else .ok { s with collocated := s.collocated.insert grantId granteeAccountId }

/-- An `UPDATE` of a lineage row, with its fence trigger and the index on active pairs. -/
def updateLineage (grantId : Uuid) (prior row : Lineage) : Except Fault Store := do
  raise ((ambient.fence row.localAccountId).map FenceFault.fault)
  raise (if prior.localAccountId = row.localAccountId then none
    else (ambient.fence prior.localAccountId).map FenceFault.fault)
  if row.currentStatus = .active ∧ s.pairTaken grantId row.grantorDid row.granteeDid then
    .error (.uniqueViolation "grant_lineages_one_active_pair_idx")
  else .ok { s with lineages := s.lineages.insert grantId row }

end InsertRow

/-- The account that moves in, and whether it was served here before. -/
structure Arrival where
  accountId : Uuid
  did : Did
  returning : Bool

/-- An imported row is inserted, unless its key is taken: then the two rows have to agree. -/
def keepOrInsert {ρ : Type} (s : Store) (existing : Option ρ) (agrees : ρ → Bool)
    (conflict : String) (insert : Except Fault Store) : Except Fault Store :=
  match existing with
  | some existing => if agrees existing then .ok s else .error (.error conflict)
  | none => insert

section Import

variable (ambient : Ambient)

/-- One round of the first loop of `importGrants`. -/
def importLineage (differs : String) (arrival : Arrival) (s : Store) (entry : Uuid × Lineage) :
    Except Fault Store :=
  let grantId := entry.1
  let row := entry.2
  match s.lineages.find grantId with
  | none => insertLineageRow ambient s grantId row
  | some prior =>
    if arrival.returning ∧ prior.localAccountId = arrival.accountId ∧
        prior.localRole = row.localRole ∧ prior.grantorDid = row.grantorDid ∧
        prior.granteeDid = row.granteeDid ∧ prior.currentRevision ≤ row.currentRevision then
      updateLineage ambient s grantId prior { prior with
        currentRevision := row.currentRevision
        currentStatus := row.currentStatus
        currentDigest := row.currentDigest }
    else
      let counterpart := ambient.account prior.localAccountId
      if prior.grantorDid ≠ row.grantorDid ∨ prior.granteeDid ≠ row.granteeDid ∨
          prior.currentRevision ≠ row.currentRevision ∨
          prior.currentStatus ≠ row.currentStatus ∨
          prior.currentDigest ≠ row.currentDigest ∨ ¬counterpart.any Account.active ∨
          row.localAccountId ≠ arrival.accountId then
        .error (.error differs)
      else if row.localRole = .grantor ∧ prior.localRole = .grantee ∧
          counterpart.bind Account.did = some prior.granteeDid ∧
          row.grantorDid = arrival.did then do
        let s ← insertCollocated s grantId prior.localAccountId
        updateLineage ambient s grantId prior
          { prior with localAccountId := arrival.accountId, localRole := .grantor }
      else if row.localRole = .grantee ∧ prior.localRole = .grantor ∧
          counterpart.bind Account.did = some prior.grantorDid ∧
          row.granteeDid = arrival.did then
        insertCollocated s grantId arrival.accountId
      else .error (.error "Grant cannot have two owners of the same local role")

def importRevision (s : Store) (entry : (Uuid × Nat) × Revision) : Except Fault Store :=
  keepOrInsert s (s.revisions.find entry.1)
    (fun existing => existing.cose = entry.2.cose ∧
      existing.representationDigest = entry.2.representationDigest)
    "Collocated Grant revision conflicts with retained exact bytes"
    (insertRevisionRow ambient s entry.1 entry.2)

def importConsent (s : Store) (entry : (Uuid × Nat) × ConsentRow) : Except Fault Store :=
  keepOrInsert s (s.consent.find entry.1)
    (fun existing => existing.bindingCose = entry.2.bindingCose ∧
      existing.profileCose = entry.2.profileCose)
    "Collocated Grant consent evidence differs from source"
    (insertConsentRow ambient s entry.1 entry.2)

/-- A publication that is still due is resumed without the source's lease. -/
def resumed (row : Publication) : Publication :=
  if row.state = .pending ∨ row.state = .retry then { row with lease := none } else row

def importPublication (s : Store) (entry : (Uuid × Nat) × Publication) : Except Fault Store :=
  keepOrInsert s (s.publications.find entry.1)
    (fun existing => existing.destinationServiceBase = entry.2.destinationServiceBase)
    "Collocated Grant publication has another destination"
    (insertPublicationRow ambient s entry.1 (resumed entry.2))

/-- The loops that the two activations share. -/
def mergeGrants (differs : String) (arrival : Arrival) (tables : GrantTables) (s : Store) :
    Except Fault Store := do
  let s ← tables.grantLineages.foldlM (importLineage ambient differs arrival) s
  let s ← tables.grantRevisions.foldlM (importRevision ambient) s
  let s ← tables.grantConsentEvidence.foldlM (importConsent ambient) s
  tables.grantPublications.foldlM (importPublication ambient) s

/-- `importGrants` of the portable activation. -/
def importGrants (arrival : Arrival) (tables : GrantTables) (s : Store) : Except Fault Store :=
  mergeGrants ambient "Collocated Grant differs from the signed source snapshot" arrival tables s

end Import

namespace Managed

variable (platform : Custody.Platform) (ambient : Ambient)

/-- The key that the destination signs with, and the activation's time in seconds. -/
structure Signer where
  destinationIdentityPublicKey : String
  now : Nat

/-- The successor that the managed activation signs for the current revision of a lineage. -/
def successor (signer : Signer) (arrival : Arrival) (current : Revision) :
    Option (HailGrant × Bytes) := do
  let prior ← platform.inspectGrant current.cose
  let payload ← Custody.successorPayload prior current.representationDigest
    (max signer.now (prior.updatedAt + 1))
  let payload := { payload with keyId := Custody.identityKid arrival.did }
  let cose ← platform.signGrant (Custody.identityKid arrival.did)
    signer.destinationIdentityPublicKey payload
  some (payload, cose)

/-- The managed activation continues this lineage: an active grant of the grantor. -/
def Continues (row : Lineage) : Prop := row.localRole = .grantor ∧ row.currentStatus = .active

instance (row : Lineage) : Decidable (Continues row) := inferInstanceAs (Decidable (_ ∧ _))

/-- One round of the last loop of the managed `importGrants`: the lineage is continued under the
destination's identity key. -/
def reissue (signer : Signer) (arrival : Arrival) (tables : GrantTables) (s : Store)
    (entry : Uuid × Lineage) : Except Fault Store :=
  let key := (entry.1, entry.2.currentRevision)
  if ¬Continues entry.2 then .ok s
  else
    match tables.grantRevisions.lookup key, tables.grantPublications.lookup key with
    | some priorRow, some predecessor =>
      match successor platform signer arrival priorRow with
      | none => .error (.error "Signed payload is invalid")
      | some (payload, cose) => do
          let s ← s.insertRevision ambient ⟨arrival.accountId, .grantor, payload, cose,
            platform.sha256 cose, signer.destinationIdentityPublicKey⟩
          match s.lineages.find payload.grantId with
          | none => .error (foreignKeyViolation "grant_publications_grant_id_revision_fkey")
          | some current =>
            let s ← updateLineage ambient s payload.grantId current { current with
              currentRevision := payload.revision
              currentDigest := platform.sha256 cose }
            raise (ownerFence ambient s payload.grantId)
            let s := s.insertPublication ambient payload predecessor.destinationServiceBase
            raise (ambient.authority.map AuthorityFault.fault)
            .ok s
    | _, _ => .error (.error "undefined is not an object")

/-- `importGrants` of the managed activation. -/
def importGrants (signer : Signer) (arrival : Arrival) (tables : GrantTables) (s : Store) :
    Except Fault Store := do
  let s ← mergeGrants ambient "Collocated Grant differs from the signed managed snapshot" arrival
    tables s
  tables.grantLineages.foldlM (reissue platform ambient signer arrival tables) s

end Managed

end HailProto.Migration
