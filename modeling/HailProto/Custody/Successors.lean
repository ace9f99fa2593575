import HailProto.Core.Pairing
import HailProto.Custody.Fence

/-!
# The prepared successors

What a preparation says about the grants of its account: every active authoritative grant has a
successor row, and every successor row continues the current, acknowledged revision of its grant
with the same authorization under the new key. A materialization makes exactly these successors
current and leaves every other grant as it is.
-/

namespace HailProto.Custody

open Server Grants

variable {platform : Platform} {serviceBase : String} {external : External} {clock : Nat}

/-- `next` continues `payload`: the following revision, and nothing else but its time. -/
structure Reissued (payload next : HailGrant) (digest : Bytes) : Prop where
  grantId : next.grantId = payload.grantId
  revision : next.revision = payload.revision + 1
  previous : next.previous = some digest
  grantor : next.grantor = payload.grantor
  grantee : next.grantee = payload.grantee
  scope : next.scope = payload.scope
  status : next.status = payload.status
  issuedAt : next.issuedAt = payload.issuedAt
  expiresAt : next.expiresAt = payload.expiresAt
  consentContext : next.consentContext = payload.consentContext

theorem successorPayload_reissues {payload next : HailGrant} {digest : Bytes} {updatedAt : Nat}
    (h : successorPayload payload digest updatedAt = some next) :
    Reissued payload next digest := by
  unfold successorPayload at h
  split at h
  · cases h
    exact ⟨rfl, rfl, rfl, rfl, rfl, rfl, rfl, rfl, rfl, rfl⟩
  · cases h

/-- The current revision of every lineage is stored, and its payload carries its number. -/
def GrantsRooted (platform : Platform) (grants : Grants.Store) : Prop :=
  ∀ id lineage, grants.lineages.find id = some lineage → ∃ revision payload,
    grants.revisions.find (id, lineage.currentRevision) = some revision ∧
    platform.inspectGrant revision.cose = some payload ∧
    payload.revision = lineage.currentRevision

/-- A successor row continues the current, acknowledged revision of an active lineage of the
account, signed with the new key. -/
structure Succeeds (platform : Platform) (grants : Grants.Store) (evidence : TransitionEvidence)
    (grantId : Uuid) (row : Successor) (lineage : Lineage) (revision : Revision)
    (payload next : HailGrant) : Prop where
  lineage_eq : grants.lineages.find grantId = some lineage
  owner : lineage.localAccountId = evidence.accountId
  role : lineage.localRole = .grantor
  active : lineage.currentStatus = .active
  revision_eq : lineage.currentRevision = row.predecessorRevision
  digest_eq : lineage.currentDigest = row.predecessorDigest
  stored : grants.revisions.find (grantId, row.predecessorRevision) = some revision
  inspected : platform.inspectGrant revision.cose = some payload
  acknowledged : ∃ publication,
    grants.publications.find (grantId, row.predecessorRevision) = some publication ∧
    publication.state = .acknowledged ∧ publication.acknowledgedEtag.all List.isEmpty = false
  signed : platform.verifyGrant (identityKid evidence.did) evidence.newIdentityKey
    row.successorCose = some next
  reissued : Reissued payload next row.predecessorDigest
  next_revision : next.revision = row.successorRevision
  follows : row.successorRevision = row.predecessorRevision + 1
  digest : row.successorDigest = platform.sha256 row.successorCose

/-- A successor row that continues its grant. -/
def PreparedFrom (platform : Platform) (grants : Grants.Store) (evidence : TransitionEvidence)
    (grantId : Uuid) (row : Successor) : Prop :=
  ∃ lineage revision payload next,
    Succeeds platform grants evidence grantId row lineage revision payload next

/-- A preparation covers exactly the active authoritative grants of its account. -/
structure Covered (platform : Platform) (s : Store) (id : Uuid) (evidence : TransitionEvidence) :
    Prop where
  complete : ∀ grantId lineage, s.grants.lineages.find grantId = some lineage →
    lineage.localAccountId = evidence.accountId → lineage.localRole = .grantor →
    lineage.currentStatus = .active → ∃ row, s.successors.find (id, grantId) = some row
  prepared : ∀ grantId row, s.successors.find (id, grantId) = some row →
    PreparedFrom platform s.grants evidence grantId row

theorem PreparedFrom.mono {grants grants' : Grants.Store} {evidence : TransitionEvidence}
    {grantId : Uuid} {row : Successor} (h : PreparedFrom platform grants evidence grantId row)
    (hkept : GrantsKept grants grants' evidence.accountId) :
    PreparedFrom platform grants' evidence grantId row := by
  obtain ⟨lineage, revision, payload, next, h⟩ := h
  refine ⟨lineage, revision, payload, next, { h with
    lineage_eq := (hkept.lineages grantId lineage h.owner).2 h.lineage_eq
    stored := ?_
    acknowledged := ?_ }⟩
  · rw [hkept.revisions grantId lineage h.lineage_eq h.owner]
    exact h.stored
  · rw [hkept.publications grantId lineage h.lineage_eq h.owner]
    exact h.acknowledged

/-- A preparation keeps covering its account while the account's grants stay. -/
theorem Covered.mono {s t : Store} {id : Uuid} {evidence : TransitionEvidence}
    (h : Covered platform s id evidence)
    (hkept : GrantsKept s.grants t.grants evidence.accountId)
    (hsuccessors : ∀ grantId, t.successors.find (id, grantId) =
      s.successors.find (id, grantId)) : Covered platform t id evidence := by
  refine ⟨fun grantId lineage hlineage howner hrole hactive => ?_, fun grantId row hrow => ?_⟩
  · rw [hsuccessors]
    exact h.complete grantId lineage ((hkept.lineages grantId lineage howner).1 hlineage) howner
      hrole hactive
  · rw [hsuccessors] at hrow
    exact (h.prepared grantId row hrow).mono hkept

section Preparing

variable {s : Store} {accountId : Uuid}

/-- The current revision of an active authoritative lineage of the account, as it is read. -/
structure ActiveRow (s : Store) (accountId : Uuid) (row : GrantRow) (lineage : Lineage)
    (revision : Revision) : Prop where
  lineage_eq : s.grants.lineages.find row.grantId = some lineage
  owner : lineage.localAccountId = accountId
  role : lineage.localRole = .grantor
  active : lineage.currentStatus = .active
  stored : s.grants.revisions.find (row.grantId, lineage.currentRevision) = some revision
  row_eq : row = ⟨row.grantId, lineage.currentRevision, lineage.currentDigest,
    lineage.currentStatus, revision.cose,
    s.grants.publications.find (row.grantId, lineage.currentRevision)⟩

theorem mem_activeGrants {row : GrantRow} : row ∈ s.activeGrants accountId ↔
    ∃ lineage revision, ActiveRow s accountId row lineage revision := by
  simp only [Store.activeGrants, Store.grantRows, List.mem_filter, List.mem_insertionSort,
    List.mem_filterMap, Prod.exists, Table.mem_rows, decide_eq_true_eq]
  constructor
  · rintro ⟨⟨id, lineage, hlineage, hrow⟩, hactive⟩
    split at hrow
    · rename_i howner
      obtain ⟨revision, hrevision, rfl⟩ := Option.map_eq_some_iff.1 hrow
      exact ⟨lineage, revision, hlineage, howner.1, howner.2, hactive, hrevision, rfl⟩
    · cases hrow
  · rintro ⟨lineage, revision, h⟩
    refine ⟨⟨row.grantId, lineage, h.lineage_eq, ?_⟩, ?_⟩
    · rw [if_pos ⟨h.owner, h.role⟩, h.stored, Option.map_some, ← h.row_eq]
    · rw [h.row_eq]
      exact h.active

theorem acknowledgedPredecessor_ok {row : GrantRow} {publication : Publication}
    (h : acknowledgedPredecessor row = .ok publication) :
    row.publication = some publication ∧ publication.state = .acknowledged ∧
      publication.acknowledgedEtag.all List.isEmpty = false := by
  unfold acknowledgedPredecessor at h
  cases hp : row.publication with
  | none => simp [hp] at h
  | some p =>
    simp only [hp, guard_eq_ok, not_or, not_not, Bool.not_eq_true, Except.ok.injEq] at h
    obtain ⟨⟨hstate, _, hetag⟩, rfl⟩ := h
    exact ⟨rfl, hstate, hetag⟩

theorem signSuccessor_ok {did : Did} {key : String} {now : Nat} {row : GrantRow}
    {successor : Uuid × Successor}
    (h : signSuccessor platform did key now row = .ok successor) :
    ∃ publication payload next, row.publication = some publication ∧
      publication.state = .acknowledged ∧
      publication.acknowledgedEtag.all List.isEmpty = false ∧
      platform.inspectGrant row.cose = some payload ∧
      Reissued payload next row.currentDigest ∧ successor.1 = row.grantId ∧
      successor.2.predecessorRevision = row.currentRevision ∧
      successor.2.predecessorDigest = row.currentDigest ∧
      successor.2.successorRevision = next.revision ∧
      successor.2.successorDigest = platform.sha256 successor.2.successorCose ∧
      platform.verifyGrant (identityKid did) key successor.2.successorCose = some next := by
  simp only [signSuccessor, bind_eq_ok, inspect_eq_ok, guard_eq_ok] at h
  obtain ⟨publication, hpublication, payload, hpayload, _, h⟩ := h
  obtain ⟨hp, hstate, hetag⟩ := acknowledgedPredecessor_ok hpublication
  split at h
  · cases h
  · rename_i cose hcose
    obtain ⟨next, hnext, hsigned⟩ := Option.bind_eq_some_iff.1 hcose
    cases h
    have hreissued := successorPayload_reissues hnext
    exact ⟨publication, payload, next, hp, hstate, hetag, hpayload, hreissued, rfl, rfl, rfl,
      hreissued.revision.symm, rfl, platform.verify_sign hsigned⟩

theorem reviewGrant_ok {now : Nat} {row : GrantRow} {reviewed : ReviewedGrant}
    (h : reviewGrant platform now row = .ok reviewed) :
    ∃ publication payload updatedAt, row.publication = some publication ∧
      publication.state = .acknowledged ∧
      publication.acknowledgedEtag.all List.isEmpty = false ∧
      platform.inspectGrant row.cose = some payload ∧ reviewed.grantId = row.grantId ∧
      reviewed.payload = successorPayload payload row.currentDigest updatedAt ∧
      reviewed.predecessorDigest = row.currentDigest := by
  simp only [reviewGrant, bind_eq_ok, inspect_eq_ok, Except.ok.injEq] at h
  obtain ⟨publication, hpublication, payload, hpayload, rfl⟩ := h
  obtain ⟨hp, hstate, hetag⟩ := acknowledgedPredecessor_ok hpublication
  exact ⟨publication, payload, _, hp, hstate, hetag, hpayload, rfl, rfl, rfl⟩

theorem ownerSuccessor_ok {did : Did} {key : String} {signedGrants : List (Uuid × Bytes)}
    {expected : ReviewedGrant} {successor : Uuid × Successor}
    (h : ownerSuccessor platform did key signedGrants expected = .ok successor) :
    ∃ next, expected.payload = some next ∧ successor.1 = expected.grantId ∧
      successor.2.predecessorRevision = next.revision - 1 ∧
      successor.2.predecessorDigest = expected.predecessorDigest ∧
      successor.2.successorRevision = next.revision ∧
      successor.2.successorDigest = platform.sha256 successor.2.successorCose ∧
      platform.verifyGrant (identityKid did) key successor.2.successorCose = some next := by
  unfold ownerSuccessor at h
  split at h
  · cases h
  · rename_i cose _
    split at h
    · cases h
    · rename_i next hverified
      simp only [guard_eq_ok, not_not, Except.ok.injEq] at h
      obtain ⟨hpayload, rfl⟩ := h
      exact ⟨next, hpayload.symm, rfl, rfl, rfl, rfl, rfl, hverified⟩

/-- A journaled preparation covers its account when its successors are, row by row, those of
the account's active grants. -/
theorem Store.Journaled.covered {t : Store} {id : Uuid} {evidence : TransitionEvidence}
    {successors : List (Uuid × Successor)} (h : s.Journaled t id evidence successors)
    (hfresh : ∀ grantId, s.successors.find (id, grantId) = none)
    (hrooted : GrantsRooted platform s.grants)
    (hrows : List.Forall₂ (fun row successor => successor.1 = row.grantId ∧
      ∀ lineage revision, ActiveRow s evidence.accountId row lineage revision →
        successor ∈ successors → PreparedFrom platform s.grants evidence row.grantId successor.2)
      (s.activeGrants evidence.accountId) successors) : Covered platform t id evidence := by
  have hgrants : t.grants = s.grants := by rw [h.store]; rfl
  refine ⟨fun grantId lineage hlineage howner hrole hactive => ?_, fun grantId row hrow => ?_⟩
  · rw [hgrants] at hlineage
    obtain ⟨revision, payload, hrevision, _⟩ := hrooted grantId lineage hlineage
    have hmem : (⟨grantId, lineage.currentRevision, lineage.currentDigest,
        lineage.currentStatus, revision.cose,
        s.grants.publications.find (grantId, lineage.currentRevision)⟩ : GrantRow) ∈
          s.activeGrants evidence.accountId :=
      mem_activeGrants.2 ⟨lineage, revision, hlineage, howner, hrole, hactive, hrevision, rfl⟩
    obtain ⟨⟨successorId, row⟩, hsuccessor, hid, _⟩ := forall₂_left hrows hmem
    simp only at hid
    subst hid
    exact ⟨row, (h.rows _ _).2 (.inr ⟨rfl, hsuccessor⟩)⟩
  · rw [hgrants]
    obtain hold | ⟨_, hmem⟩ := (h.rows _ _).1 hrow
    · rw [hfresh] at hold
      cases hold
    · obtain ⟨grant, hgrant, hid, hprepared⟩ := forall₂_right hrows hmem
      obtain ⟨lineage, revision, hactive⟩ := mem_activeGrants.1 hgrant
      simp only at hid
      subst hid
      exact hprepared lineage revision hactive hmem

/-- The successors that `prepare` signs continue the grants they are signed for. -/
theorem Store.Journaled.covered_prepare {t : Store} {draft : PrepareDraft}
    {portable : PortableCustody} {generation : Nat} {checkpoint : Bytes}
    {successors : List (Uuid × Successor)}
    (h : s.Journaled t draft.transitionId (prepareEvidence platform accountId draft portable
      generation clock checkpoint) successors)
    (hfresh : ∀ grantId, s.successors.find (draft.transitionId, grantId) = none)
    (hrooted : GrantsRooted platform s.grants)
    (hsigned : (s.activeGrants accountId).mapM (signSuccessor platform draft.did
      draft.generated.didKey draft.now) = .ok successors) :
    Covered platform t draft.transitionId (prepareEvidence platform accountId draft portable
      generation clock checkpoint) := by
  refine h.covered hfresh hrooted ((mapM_eq_ok.1 hsigned).imp fun row successor hrow => ?_)
  obtain ⟨publication, payload, next, hp, hstate, hetag, hpayload, hreissued, hid, hrevision,
    hdigest, hnext, hsha, hverified⟩ := signSuccessor_ok hrow
  refine ⟨hid, fun lineage revision hactive hmem => ?_⟩
  have hrow := hactive.row_eq
  have hcurrent : row.currentRevision = lineage.currentRevision := by rw [hrow]
  have hpublication : row.publication =
      s.grants.publications.find (row.grantId, lineage.currentRevision) := by rw [hrow]
  exact ⟨lineage, revision, payload, next,
    { lineage_eq := hactive.lineage_eq
      owner := hactive.owner
      role := hactive.role
      active := hactive.active
      revision_eq := by rw [hrevision, hcurrent]
      digest_eq := by rw [hdigest, hrow]
      stored := by rw [hrevision, hcurrent]; exact hactive.stored
      inspected := by rw [hrow] at hpayload; exact hpayload
      acknowledged := ⟨publication, by rw [hrevision, hcurrent, ← hpublication]; exact hp,
        hstate, hetag⟩
      signed := hverified
      reissued := hdigest.symm ▸ hreissued
      next_revision := hnext.symm
      follows := h.revisions successor hmem
      digest := hsha }⟩

/-- The successors the owner signed continue the account's grants when these are still the ones
that were reviewed. -/
theorem Store.Journaled.covered_owner {t : Store} {draft : OwnerDraft} {checkpoint : Bytes}
    {signedGrants : List (Uuid × Bytes)} {now : Nat}
    (h : s.Journaled t draft.transitionId (ownerEvidence platform accountId draft clock
      checkpoint) draft.successors)
    (hfresh : ∀ grantId, s.successors.find (draft.transitionId, grantId) = none)
    (hrooted : GrantsRooted platform s.grants)
    (hreviewed : (s.activeGrants accountId).mapM (reviewGrant platform now) =
      .ok draft.review.activeGrants)
    (hsigned : draft.review.activeGrants.mapM (ownerSuccessor platform
      draft.review.authority.did draft.newIdentityKey signedGrants) = .ok draft.successors) :
    Covered platform t draft.transitionId (ownerEvidence platform accountId draft clock
      checkpoint) := by
  refine h.covered hfresh hrooted ?_
  have hcomp := forall₂_comp (mapM_eq_ok.1 hreviewed) (mapM_eq_ok.1 hsigned)
  refine hcomp.imp fun row successor hpair => ?_
  obtain ⟨reviewed, hreview, hsuccessor⟩ := hpair
  obtain ⟨publication, payload, updatedAt, hp, hstate, hetag, hpayload, hgrant, hexpected,
    hpredecessor⟩ := reviewGrant_ok hreview
  obtain ⟨next, hnext, hid, hrevision, hdigest, hsuccessorRevision, hsha, hverified⟩ :=
    ownerSuccessor_ok hsuccessor
  refine ⟨hid.trans hgrant, fun lineage revision hactive hmem => ?_⟩
  have hrow := hactive.row_eq
  have hcurrent : row.currentRevision = lineage.currentRevision := by rw [hrow]
  have hpublication : row.publication =
      s.grants.publications.find (row.grantId, lineage.currentRevision) := by rw [hrow]
  have hreissued : Reissued payload next row.currentDigest :=
    successorPayload_reissues (hexpected.symm.trans hnext)
  obtain ⟨revision', payload', hstored', hinspected', hnumber⟩ :=
    hrooted row.grantId lineage hactive.lineage_eq
  rw [hactive.stored] at hstored'
  cases hstored'
  have hcose : row.cose = revision.cose := by rw [hrow]
  rw [hcose, hinspected'] at hpayload
  cases hpayload
  have hpredecessorRevision : successor.2.predecessorRevision = lineage.currentRevision := by
    have := hreissued.revision
    omega
  exact ⟨lineage, revision, payload, next,
    { lineage_eq := hactive.lineage_eq
      owner := hactive.owner
      role := hactive.role
      active := hactive.active
      revision_eq := hpredecessorRevision.symm
      digest_eq := by rw [hdigest, hpredecessor, hrow]
      stored := by rw [hpredecessorRevision]; exact hactive.stored
      inspected := hinspected'
      acknowledged := ⟨publication, by rw [hpredecessorRevision, ← hpublication]; exact hp,
        hstate, hetag⟩
      signed := hverified
      reissued := by rw [hdigest, hpredecessor]; exact hreissued
      next_revision := hsuccessorRevision.symm
      follows := h.revisions successor hmem
      digest := hsha }⟩

end Preparing

end HailProto.Custody
