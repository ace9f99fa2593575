import HailProto.Grants.Store

/-!
# What the grant transactions do

One specification for each transaction of the repository: when it succeeds, and the store it
then leaves. A successful transaction begins a lineage, extends one by a revision, or leaves the
lineages and revisions as they are; the proofs above this module never unfold a transaction.
-/

namespace HailProto.Grants

open Server

variable {codec : Codec} {ambient : Ambient}

/-- A revision that is what its representation says. -/
structure SignedGrantRevision.Genuine (codec : Codec) (input : SignedGrantRevision) : Prop where
  inspected : codec.inspectGrant input.representation = some input.payload
  digest_eq : input.digest = codec.sha256 input.representation

@[simp] theorem raise_eq_ok {fault : Option Fault} {u : Unit} :
    raise fault = .ok u ↔ fault = none := by
  cases fault <;> simp [raise]

theorem inspect_eq_ok {representation : Bytes} {payload : HailGrant} :
    inspect codec representation = .ok payload ↔
      codec.inspectGrant representation = some payload := by
  unfold inspect
  cases h : codec.inspectGrant representation <;> simp

theorem checkedInput_eq_ok {input : SignedGrantRevision} {role : LocalRole} {u : Unit} :
    checkedInput codec input role = .ok u ↔ input.localRole = role ∧ input.Genuine codec := by
  simp only [checkedInput, guard_eq_ok, bind_eq_ok, inspect_eq_ok, not_or, not_not, ne_eq,
    and_true]
  constructor
  · rintro ⟨hrole, parsed, hparsed, hdigest, rfl⟩
    exact ⟨hrole, hparsed, hdigest.symm⟩
  · rintro ⟨hrole, hinspected, hdigest⟩
    exact ⟨hrole, _, hinspected, hdigest.symm, rfl⟩

/-- A stored row carries the metadata of the payload its representation holds. -/
structure Revision.Of (codec : Codec) (row : Revision) (payload : HailGrant) : Prop where
  inspected : codec.inspectGrant row.cose = some payload
  digest_eq : row.representationDigest = codec.sha256 row.cose
  status_eq : row.status = payload.status
  issuedAt_eq : row.issuedAt = payload.issuedAt
  updatedAt_eq : row.updatedAt = payload.updatedAt
  expiresAt_eq : row.expiresAt = payload.expiresAt
  previous_eq : row.previousDigest = payload.previous
  scope_eq : row.scope = payload.scope
  binding_eq : row.consentAddressBinding = payload.consentContext.addressBindingHash
  profile_eq : row.consentSenderProfile = payload.consentContext.senderProfileHash

theorem SignedGrantRevision.Genuine.of_row {input : SignedGrantRevision}
    (h : input.Genuine codec) : (Store.revisionRow input).Of codec input.payload :=
  ⟨h.inspected, h.digest_eq, rfl, rfl, rfl, rfl, rfl, rfl, rfl, rfl⟩

/-- The signed revision a stored row reads back as. -/
def Revision.signed (lineage : Lineage) (row : Revision) (payload : HailGrant) :
    SignedGrantRevision :=
  ⟨lineage.localAccountId, lineage.localRole, payload, row.cose, row.representationDigest,
    row.signingPublicKey⟩

theorem grantFromRow_eq_ok {grantId : Uuid} {lineage : Lineage} {revision : Nat}
    {row : Revision} {signed : SignedGrantRevision} :
    grantFromRow codec grantId lineage revision row = .ok signed ↔
      ∃ payload, row.Of codec payload ∧ payload.grantId = grantId ∧
        payload.grantor = lineage.grantorDid ∧ payload.grantee = lineage.granteeDid ∧
        payload.revision = revision ∧ signed = row.signed lineage payload := by
  simp only [grantFromRow, bind_eq_ok, inspect_eq_ok, guard_eq_ok, not_or, not_not, ne_eq,
    Except.ok.injEq]
  constructor
  · rintro ⟨payload, hi, ⟨hd, hid, hor, hee, hrev, hst, his, hup, hex, hpr, hsc, hb, hp⟩, rfl⟩
    exact ⟨payload, ⟨hi, hd.symm, hst.symm, his.symm, hup.symm, hex.symm, hpr.symm, hsc.symm,
      hb.symm, hp.symm⟩, hid, hor, hee, hrev, rfl⟩
  · rintro ⟨payload, ⟨hi, hd, hst, his, hup, hex, hpr, hsc, hb, hp⟩, hid, hor, hee, hrev, rfl⟩
    exact ⟨payload, hi, ⟨hd.symm, hid, hor, hee, hrev, hst.symm, his.symm, hup.symm, hex.symm,
      hpr.symm, hsc.symm, hb.symm, hp.symm⟩, rfl⟩

namespace Store

variable {s t : Store}

/-- The store with a new lineage at its first revision. -/
def begun (s : Store) (input : SignedGrantRevision) (role : LocalRole) : Store :=
  { s with
    lineages := s.lineages.insert input.payload.grantId ⟨input.localAccountId, role,
      input.payload.grantor, input.payload.grantee, 1, input.digest, .active⟩
    revisions := s.revisions.insert (input.payload.grantId, input.payload.revision)
      (revisionRow input) }

/-- The store with a lineage advanced by one revision. -/
def extended (s : Store) (lineage : Lineage) (input : SignedGrantRevision) : Store :=
  { s with
    lineages := s.lineages.insert input.payload.grantId (lineage.advance input)
    revisions := s.revisions.insert (input.payload.grantId, input.payload.revision)
      (revisionRow input) }

/-- No other active lineage holds the pair. -/
def PairFree (s : Store) (grantId : Uuid) (grantor grantee : Did) : Prop :=
  ∀ id l, s.lineages.find id = some l → l.currentStatus = .active → l.grantorDid = grantor →
    l.granteeDid = grantee → id = grantId

/-- No revision of the grant has the digest. -/
def DigestFree (s : Store) (grantId : Uuid) (digest : Bytes) : Prop :=
  ∀ k r, s.revisions.find (grantId, k) = some r → r.representationDigest ≠ digest

theorem pairTaken_eq_false {grantId : Uuid} {grantor grantee : Did} :
    s.pairTaken grantId grantor grantee = false ↔ s.PairFree grantId grantor grantee := by
  simp only [pairTaken, List.any_eq_false, decide_eq_true_eq, Prod.forall, Table.mem_rows]
  constructor
  · intro h id l hl hactive hgrantor hgrantee
    by_contra hne
    exact h id l hl ⟨hne, hactive, hgrantor, hgrantee⟩
  · intro h id l hl ⟨hne, hactive, hgrantor, hgrantee⟩
    exact hne (h id l hl hactive hgrantor hgrantee)

theorem digestTaken_eq_false {grantId : Uuid} {digest : Bytes} :
    s.digestTaken grantId digest = false ↔ s.DigestFree grantId digest := by
  simp only [digestTaken, List.any_eq_false, decide_eq_true_eq, Prod.forall, Table.mem_rows]
  constructor
  · intro h k r hr hd
    exact h grantId k r hr ⟨rfl, hd⟩
  · rintro h id k r hr ⟨rfl, hd⟩
    exact h k r hr hd

theorem insertLineage_eq_ok {input : SignedGrantRevision} {role : LocalRole} :
    s.insertLineage ambient input role = .ok t ↔
      ambient.fence input.localAccountId = none ∧
      s.lineages.find input.payload.grantId = none ∧
      input.payload.grantor ≠ input.payload.grantee ∧
      s.PairFree input.payload.grantId input.payload.grantor input.payload.grantee ∧
      t = { s with
        lineages := s.lineages.insert input.payload.grantId ⟨input.localAccountId, role,
          input.payload.grantor, input.payload.grantee, 1, input.digest, .active⟩ } := by
  simp only [insertLineage, bind_eq_ok, raise_eq_ok, guard_eq_ok, Option.map_eq_none_iff,
    Bool.not_eq_true, Option.isSome_eq_false_iff, Option.isNone_iff_eq_none, pairTaken_eq_false,
    Except.ok.injEq, exists_const, eq_comm (b := t), ne_eq]

theorem insertRevision_eq_ok {input : SignedGrantRevision} :
    s.insertRevision ambient input = .ok t ↔
      ((s.lineages.find input.payload.grantId).map Lineage.localAccountId).bind ambient.fence =
        none ∧
      revisionCheck (revisionRow input) = none ∧
      s.revisions.find (input.payload.grantId, input.payload.revision) = none ∧
      s.DigestFree input.payload.grantId input.digest ∧
      t = { s with
        revisions := s.revisions.insert (input.payload.grantId, input.payload.revision)
          (revisionRow input) } := by
  simp only [insertRevision, bind_eq_ok, raise_eq_ok, guard_eq_ok, Option.map_eq_none_iff,
    Bool.not_eq_true, Option.isSome_eq_false_iff, Option.isNone_iff_eq_none,
    digestTaken_eq_false, Except.ok.injEq, exists_const, eq_comm (b := t)]

theorem current_eq_some {grantId : Uuid} {lineage : Lineage} {row : Revision} :
    s.current grantId = some (lineage, row) ↔ s.lineages.find grantId = some lineage ∧
      s.revisions.find (grantId, lineage.currentRevision) = some row := by
  simp only [current, Option.bind_eq_bind, Option.bind_eq_some_iff, Option.some.injEq,
    Prod.mk.injEq]
  constructor
  · rintro ⟨l, hl, r, hr, rfl, rfl⟩
    exact ⟨hl, hr⟩
  · rintro ⟨hl, hr⟩
    exact ⟨lineage, hl, row, hr, rfl, rfl⟩

/-- The conditions under which a lineage begins in a store. -/
structure CanBegin (codec : Codec) (s : Store) (input : SignedGrantRevision) : Prop where
  genuine : input.Genuine codec
  first : input.payload.revision = 1
  active : input.payload.status = .active
  absent : s.lineages.find input.payload.grantId = none
  unstored : s.revisions.find (input.payload.grantId, 1) = none
  pairFree : s.PairFree input.payload.grantId input.payload.grantor input.payload.grantee
  digestFree : s.DigestFree input.payload.grantId input.digest
  checked : revisionCheck (revisionRow input) = none

/-- The conditions under which a revision extends a lineage. -/
structure CanExtend (codec : Codec) (s : Store) (lineage : Lineage) (row : Revision)
    (input : SignedGrantRevision) : Prop where
  genuine : input.Genuine codec
  lineage_eq : s.lineages.find input.payload.grantId = some lineage
  row_eq : s.revisions.find (input.payload.grantId, lineage.currentRevision) = some row
  grantor_eq : lineage.grantorDid = input.payload.grantor
  grantee_eq : lineage.granteeDid = input.payload.grantee
  active : lineage.currentStatus = .active
  next : input.payload.revision = lineage.currentRevision + 1
  previous_eq : input.payload.previous = some lineage.currentDigest
  later : row.updatedAt < input.payload.updatedAt
  unstored : s.revisions.find (input.payload.grantId, input.payload.revision) = none
  digestFree : s.DigestFree input.payload.grantId input.digest
  checked : revisionCheck (revisionRow input) = none

/-- Insert a lineage and its first revision. -/
theorem begin_eq_ok {input : SignedGrantRevision} {role : LocalRole} {t₁ t₂ : Store}
    (hgenuine : input.Genuine codec) (hfirst : input.payload.revision = 1)
    (hactive : input.payload.status = .active)
    (h₁ : s.insertLineage ambient input role = .ok t₁)
    (h₂ : t₁.insertRevision ambient input = .ok t₂) :
    s.CanBegin codec input ∧ t₂ = s.begun input role := by
  obtain ⟨_, habsent, _, hpair, rfl⟩ := insertLineage_eq_ok.mp h₁
  obtain ⟨_, hchecked, hunstored, hdigest, rfl⟩ := insertRevision_eq_ok.mp h₂
  rw [hfirst] at hunstored
  exact ⟨⟨hgenuine, hfirst, hactive, habsent, hunstored, hpair, hdigest, hchecked⟩, rfl⟩

theorem insertAuthoritativeRevision1_ok {input : AuthoritativeGrantRevision1}
    (h : s.insertAuthoritativeRevision1 codec ambient input = .ok t) :
    s.CanBegin codec input.revision ∧
      t = ((s.begun input.revision .grantor).insertConsent input.revision.payload
        input.consent).insertPublication ambient input.revision.payload
          input.destinationServiceBase := by
  simp only [insertAuthoritativeRevision1, bind_eq_ok, checkedInput_eq_ok, guard_eq_ok, not_or,
    not_not, ne_eq] at h
  obtain ⟨_, ⟨_, hgenuine⟩, _, _, ⟨hfirst, hactive⟩, h⟩ := h
  cases haccount : ambient.account input.revision.localAccountId with
  | none => simp [haccount] at h
  | some account =>
    simp only [haccount, guard_eq_ok, bind_eq_ok, Except.ok.injEq] at h
    obtain ⟨_, t₁, h₁, t₂, h₂, _, _, rfl⟩ := h
    obtain ⟨hcan, rfl⟩ := begin_eq_ok hgenuine hfirst hactive h₁ h₂
    exact ⟨hcan, rfl⟩

/-- The evidence an update retains, when it brings some. -/
def withConsent (s : Store) (payload : HailGrant) : Option GrantConsentEvidence → Store
  | some consent => s.insertConsent payload consent
  | none => s

@[simp] theorem withConsent_lineages (payload : HailGrant)
    (consent : Option GrantConsentEvidence) :
    (s.withConsent payload consent).lineages = s.lineages := by
  cases consent <;> rfl

@[simp] theorem withConsent_revisions (payload : HailGrant)
    (consent : Option GrantConsentEvidence) :
    (s.withConsent payload consent).revisions = s.revisions := by
  cases consent <;> rfl

@[simp] theorem withConsent_publications (payload : HailGrant)
    (consent : Option GrantConsentEvidence) :
    (s.withConsent payload consent).publications = s.publications := by
  cases consent <;> rfl

@[simp] theorem withConsent_collocated (payload : HailGrant)
    (consent : Option GrantConsentEvidence) :
    (s.withConsent payload consent).collocated = s.collocated := by
  cases consent <;> rfl

/-- What `checkUpdate` establishes about an update and the revision it follows. -/
structure UpdateChecked (current next : HailGrant) (consent : Option GrantConsentEvidence) :
    Prop where
  issuedAt_eq : next.issuedAt = current.issuedAt
  /-- A restriction retains the prior consent. -/
  retained : restrictsAuthorization current next → next.consentContext = current.consentContext
  /-- An update without fresh evidence is a restriction. -/
  restricts : consent = none → restrictsAuthorization current next

theorem checkUpdate_ok {current : SignedGrantRevision} {input : AuthoritativeGrantUpdate}
    {u : Unit} (h : checkUpdate codec current input = .ok u) :
    UpdateChecked current.payload input.revision.payload input.consent := by
  simp only [checkUpdate, guard_eq_ok, not_or, not_and, not_not, ne_eq] at h
  obtain ⟨⟨_, _, _, hissued⟩, _, hretained, hconsent⟩ := h
  refine ⟨hissued.symm, fun hr => (hretained hr).symm, fun hnone => ?_⟩
  rw [hnone] at hconsent
  simp only [guard_eq_ok, not_or, not_not, Bool.not_eq_true', Bool.not_eq_false] at hconsent
  exact hconsent.1.1

theorem appendAuthoritativeUpdate_ok {input : AuthoritativeGrantUpdate}
    (h : s.appendAuthoritativeUpdate codec ambient input = .ok t) :
    ∃ lineage row current destination,
      s.CanExtend codec lineage row input.revision ∧ lineage.localRole = .grantor ∧
      row.Of codec current ∧ UpdateChecked current input.revision.payload input.consent ∧
      t = ((s.extended lineage input.revision).withConsent input.revision.payload
        input.consent).insertPublication ambient input.revision.payload destination := by
  simp only [appendAuthoritativeUpdate, bind_eq_ok, checkedInput_eq_ok, guard_eq_ok, not_or,
    not_not, ne_eq] at h
  obtain ⟨_, ⟨_, hgenuine⟩, ⟨hnext, hprevious⟩, h⟩ := h
  cases hcurrent : s.current input.revision.payload.grantId with
  | none => simp [hcurrent] at h
  | some pair =>
    obtain ⟨lineage, row⟩ := pair
    simp only [hcurrent, bind_eq_ok] at h
    obtain ⟨current, hread, _, hcheck, t₁, hadvance, t₂, hinsert, _, _, h⟩ := h
    obtain ⟨payload, hof, -, -, -, -, rfl⟩ := grantFromRow_eq_ok.mp hread
    obtain ⟨hlineage, hrow⟩ := current_eq_some.mp hcurrent
    have hchecked := checkUpdate_ok hcheck
    simp only [advanceLineage, hcurrent] at hadvance
    split at hadvance
    case isFalse => simp at hadvance
    case isTrue hcas =>
      obtain ⟨-, hrole, hgrantor, hgrantee, hactive, hrevision, hdigest, hlater⟩ := hcas
      simp only [bind_eq_ok, Except.ok.injEq] at hadvance
      obtain ⟨_, _, rfl⟩ := hadvance
      obtain ⟨_, hrowcheck, hunstored, hfree, rfl⟩ := insertRevision_eq_ok.mp hinsert
      split at h
      · simp at h
      · rename_i first _
        cases h
        refine ⟨lineage, row, payload, input.destinationServiceBase.getD first,
          ⟨hgenuine, hlineage, hrow, hgrantor, hgrantee, hactive, ?_, ?_, hlater, hunstored,
            hfree, hrowcheck⟩, hrole, hof, hchecked, ?_⟩
        · rw [hnext, hrevision]
        · rw [hprevious, hdigest]
        · cases hconsent : input.consent <;> rfl

/-- The ways a received revision can be stored. -/
theorem acceptReceivedRevision_ok {input : ReceivedGrantRevision}
    (h : s.acceptReceivedRevision codec ambient input = .ok t) :
    input.signed.Genuine codec ∧
    ((s.CanBegin codec input.signed ∧ t = s.begun input.signed .grantee) ∨
    ∃ lineage, s.lineages.find input.payload.grantId = some lineage ∧
      lineage.grantorDid = input.payload.grantor ∧ lineage.granteeDid = input.payload.grantee ∧
      ((lineage.localRole = .grantor ∧ (∃ existing,
          s.revisions.find (input.payload.grantId, input.payload.revision) = some existing ∧
          existing.cose = input.representation) ∧
        t = { s with collocated :=
                s.collocated.insertNew input.payload.grantId input.localAccountId }) ∨
      (lineage.localRole = .grantee ∧ (∃ existing,
          s.revisions.find (input.payload.grantId, input.payload.revision) = some existing ∧
          existing.cose = input.representation) ∧ t = s) ∨
      (lineage.localRole = .grantee ∧ ∃ row, s.CanExtend codec lineage row input.signed ∧
        t = s.extended lineage input.signed))) := by
  simp only [acceptReceivedRevision, bind_eq_ok, checkedInput_eq_ok] at h
  obtain ⟨_, ⟨_, hgenuine⟩, h⟩ := h
  refine ⟨hgenuine, ?_⟩
  cases haccount : ambient.account input.localAccountId with
  | none => simp [haccount] at h
  | some account =>
    simp only [haccount, guard_eq_ok] at h
    obtain ⟨_, h⟩ := h
    cases hlineage : s.lineages.find input.payload.grantId with
    | none =>
      left
      simp only [hlineage, acceptFirst, guard_eq_ok, not_or, not_not, ne_eq, bind_eq_ok,
        Except.ok.injEq] at h
      obtain ⟨⟨hfirst, hactive⟩, t₁, h₁, t₂, h₂, _, _, rfl⟩ := h
      exact begin_eq_ok hgenuine hfirst hactive h₁ h₂
    | some lineage =>
      right
      simp only [hlineage, guard_eq_ok, not_or, not_not, ne_eq] at h
      obtain ⟨⟨hgrantor, hgrantee⟩, h⟩ := h
      refine ⟨lineage, rfl, hgrantor, hgrantee, ?_⟩
      cases hrole : lineage.localRole with
      | grantor =>
        left
        cases hex : s.revisions.find (input.payload.grantId, input.payload.revision) with
        | none => simp [hrole, hex, acceptCollocated] at h
        | some existing =>
          simp only [hrole, hex, acceptCollocated, guard_eq_ok, not_not, ne_eq,
            Except.ok.injEq] at h
          exact ⟨rfl, ⟨existing, rfl, h.1⟩, h.2.2.symm⟩
      | grantee =>
        right
        simp only [hrole, acceptNext, guard_eq_ok, not_not, ne_eq] at h
        obtain ⟨_, h⟩ := h
        cases hex : s.revisions.find (input.payload.grantId, input.payload.revision) with
        | some existing =>
          left
          simp only [hex, guard_eq_ok, not_not, bind_eq_ok, Except.ok.injEq] at h
          obtain ⟨hcose, _, _, rfl⟩ := h
          exact ⟨rfl, ⟨existing, rfl, hcose⟩, rfl⟩
        | none =>
          right
          simp only [hex] at h
          cases hrow : s.revisions.find
              (input.payload.grantId, lineage.currentRevision) with
          | none => simp [hrow] at h
          | some row =>
            simp only [hrow, guard_eq_ok, not_or, not_not, not_le, bind_eq_ok,
              Except.ok.injEq] at h
            obtain ⟨⟨hactive, hnext, hprevious, hlater⟩, t₁, h₁, _, _, _, _, rfl⟩ := h
            obtain ⟨_, hchecked, hunstored, hdigest, rfl⟩ := insertRevision_eq_ok.mp h₁
            have hstatus : lineage.currentStatus = .active := by
              cases hs : lineage.currentStatus with
              | active => rfl
              | revoked => exact absurd hs hactive
            exact ⟨rfl, row, ⟨hgenuine, hlineage, hrow, hgrantor, hgrantee, hstatus,
              hnext, hprevious, hlater, hunstored, hdigest, hchecked⟩, rfl⟩

end Store

end HailProto.Grants
