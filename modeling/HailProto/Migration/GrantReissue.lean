import HailProto.Custody.Successors
import HailProto.Migration.GrantImport

/-!
# Activating beside the other party

The managed activation's successors, and the two activations together: level copies are merged,
a lagging copy is refused.
-/

namespace HailProto.Migration

open Server Grants

variable {platform : Custody.Platform} {ambient : Ambient} {arrival : Arrival} {s t m : Store}

namespace Managed

/-- The key signs every successor within the size of a representation, under a digest that no
earlier revision of the grant has, and every active grant has a publication to continue. -/
structure Signs (platform : Custody.Platform) (signer : Signer) (arrival : Arrival) (s : Store) :
    Prop where
  signed : ∀ id row current, exported s arrival.accountId id = some row → Continues row →
    s.revisions.find (id, row.currentRevision) = some current → ∃ payload cose,
      successor platform signer arrival current = some (payload, cose) ∧
      0 < cose.length ∧ cose.length ≤ 262144 ∧ s.DigestFree id (platform.sha256 cose)
  published : ∀ id row, exported s arrival.accountId id = some row → Continues row →
    ∃ publication, s.publications.find (id, row.currentRevision) = some publication

/-- A lineage after the managed activation: an active grant of the grantor has one more revision,
signed under the destination's identity key and waiting to be published. -/
structure Continued (platform : Custody.Platform) (signer : Signer) (arrival : Arrival)
    (s m b : Store) (id : Uuid) (row : Lineage) : Prop where
  kept : ¬Continues row → b.lineages.find id = m.lineages.find id
  continued : Continues row → ∃ lineage current payload cose publication,
    m.lineages.find id = some lineage ∧
    s.revisions.find (id, row.currentRevision) = some current ∧
    successor platform signer arrival current = some (payload, cose) ∧
    b.lineages.find id = some { lineage with
      currentRevision := row.currentRevision + 1
      currentDigest := platform.sha256 cose } ∧
    b.revisions.find (id, row.currentRevision + 1) = some (Store.revisionRow ⟨arrival.accountId,
      .grantor, payload, cose, platform.sha256 cose, signer.destinationIdentityPublicKey⟩) ∧
    b.publications.find (id, row.currentRevision + 1) = some publication ∧
    publication.state = .pending

/-- The last loop, over the lineages done so far. -/
structure ReissuedDone (platform : Custody.Platform) (signer : Signer) (arrival : Arrival)
    (s m : Store) (done : List (Uuid × Lineage)) (b : Store) : Prop where
  lineage : ∀ id row, (id, row) ∈ done → Continued platform signer arrival s m b id row
  other : ∀ id, (∀ row, (id, row) ∉ done) → b.lineages.find id = m.lineages.find id ∧
    ∀ k, b.revisions.find (id, k) = m.revisions.find (id, k)
  parties : ∀ id lineage, b.lineages.find id = some lineage → ∃ before,
    m.lineages.find id = some before ∧ lineage.grantorDid = before.grantorDid ∧
      lineage.granteeDid = before.granteeDid ∧ lineage.currentStatus = before.currentStatus
  retained : ∀ key revision, m.revisions.find key = some revision →
    b.revisions.find key = some revision
  collocated : b.collocated = m.collocated

/-- What a signed successor carries. -/
theorem successor_some {signer : Signer} {current : Revision} {payload : HailGrant} {cose : Bytes}
    (h : successor platform signer arrival current = some (payload, cose)) :
    ∃ prior, platform.inspectGrant current.cose = some prior ∧
      payload.grantId = prior.grantId ∧ payload.revision = prior.revision + 1 ∧
      payload.issuedAt = prior.issuedAt ∧ payload.expiresAt = prior.expiresAt ∧
      payload.consentContext = prior.consentContext ∧ payload.status = prior.status := by
  simp only [successor, Option.bind_eq_bind, Option.bind_eq_some_iff, Option.some.injEq,
    Prod.mk.injEq] at h
  obtain ⟨prior, hprior, next, hnext, _, _, rfl, rfl⟩ := h
  have hreissued := Custody.successorPayload_reissues hnext
  exact ⟨prior, hprior, hreissued.grantId, hreissued.revision, hreissued.issuedAt,
    hreissued.expiresAt, hreissued.consentContext, hreissued.status⟩

section Step

variable {codec : Codec} {signer : Signer} {done : List (Uuid × Lineage)} {b c : Store} {id : Uuid} {row : Lineage}

/-- Two stores hold the same rows of a grant. -/
def SameGrant (b c : Store) (id : Uuid) : Prop :=
  c.lineages.find id = b.lineages.find id ∧
    (∀ k, c.revisions.find (id, k) = b.revisions.find (id, k)) ∧
    ∀ k, c.publications.find (id, k) = b.publications.find (id, k)

theorem Continued.congr (h : Continued platform signer arrival s m b id row)
    (hsame : SameGrant b c id) : Continued platform signer arrival s m c id row := by
  obtain ⟨hlineage, hrevisions, hpublications⟩ := hsame
  refine ⟨fun hkept => hlineage.trans (h.kept hkept), fun hcontinues => ?_⟩
  simpa only [hlineage, hrevisions, hpublications] using h.continued hcontinues

/-- One more lineage is done when the rows of its grant are. -/
theorem ReissuedDone.next (hdone : ReissuedDone platform signer arrival s m done b)
    (hfresh : ∀ row', (id, row') ∉ done) (hsame : ∀ id', id' ≠ id → SameGrant b c id')
    (hcontinued : Continued platform signer arrival s m c id row)
    (hparties : ∀ lineage, c.lineages.find id = some lineage → ∃ before,
      b.lineages.find id = some before ∧ lineage.grantorDid = before.grantorDid ∧
        lineage.granteeDid = before.granteeDid ∧ lineage.currentStatus = before.currentStatus)
    (hretained : ∀ key revision, b.revisions.find key = some revision →
      c.revisions.find key = some revision)
    (hcollocated : c.collocated = b.collocated) :
    ReissuedDone platform signer arrival s m (done ++ [(id, row)]) c := by
  refine ⟨fun id' row' hmem => ?_, fun id' hnot => ?_, fun id' lineage hlineage => ?_,
    fun key revision hfound => hretained key revision (hdone.retained key revision hfound),
    hcollocated.trans hdone.collocated⟩
  · rw [List.mem_append, List.mem_singleton, Prod.mk.injEq] at hmem
    obtain hmem | ⟨rfl, rfl⟩ := hmem
    · refine (hdone.lineage id' row' hmem).congr (hsame id' ?_)
      rintro rfl
      exact hfresh row' hmem
    · exact hcontinued
  · obtain ⟨hlineage, hrevisions⟩ :=
      hdone.other id' fun row' hmem => hnot row' (List.mem_append_left _ hmem)
    obtain ⟨hl, hr, _⟩ := hsame id' fun he =>
      hnot row (List.mem_append_right _ (List.mem_singleton.2 (he ▸ rfl)))
    exact ⟨hl.trans hlineage, fun k => (hr k).trans (hrevisions k)⟩
  · by_cases hid : id' = id
    · subst hid
      obtain ⟨before, hbefore, hgrantor, hgrantee, hstatus⟩ := hparties lineage hlineage
      obtain ⟨first, hfirst, hgrantor', hgrantee', hstatus'⟩ := hdone.parties id' before hbefore
      exact ⟨first, hfirst, hgrantor.trans hgrantor', hgrantee.trans hgrantee',
        hstatus.trans hstatus'⟩
    · rw [(hsame id' hid).1] at hlineage
      exact hdone.parties id' lineage hlineage

/-- The row of a successor satisfies the constraints that its predecessor's row does. -/
theorem successor_check {k : Nat} {current : Revision} {prior payload : HailGrant} {cose : Bytes}
    {key : String} (hof : current.Of platform.toCodec prior)
    (hcurrent : transferredCheck k current = none)
    (hsuccessor : successor platform signer arrival current = some (payload, cose))
    (hpos : 0 < cose.length) (hsize : cose.length ≤ 262144) :
    Store.revisionCheck (Store.revisionRow ⟨arrival.accountId, .grantor, payload, cose,
      platform.sha256 cose, key⟩) = none := by
  obtain ⟨prior', hprior', _, _, hissued, hexpires, hconsent, _⟩ := successor_some hsuccessor
  obtain rfl : prior' = prior := Option.some.inj (hprior'.symm.trans hof.inspected)
  have hcheck : Store.revisionCheck current = none := by
    unfold transferredCheck at hcurrent
    split at hcurrent
    · cases hcurrent
    · split at hcurrent
      · cases hcurrent
      · split at hcurrent
        · cases hcurrent
        · exact hcurrent
  unfold Store.revisionCheck at hcheck ⊢
  simp only [Store.revisionRow, hissued, hexpires, hconsent]
  rw [hof.expiresAt_eq, hof.issuedAt_eq, hof.binding_eq, hof.profile_eq] at hcheck
  split at hcheck
  · cases hcheck
  · rename_i htimes
    rw [if_neg htimes]
    split at hcheck
    · cases hcheck
    · rename_i hdigests
      rw [if_neg hdigests, if_neg (by simp [platform.sha256_length]), if_neg (by omega)]

/-- The signed continuation of a lineage is stored. -/
theorem reissue_ok {lineage : Lineage} {current : Revision} {publication : Publication}
    {prior payload : HailGrant} {cose : Bytes} (tables : GrantTables)
    (hcontinues : Continues row) (hrow : tables.grantRevisions.lookup (id, row.currentRevision) =
      some current)
    (hpublication : tables.grantPublications.lookup (id, row.currentRevision) = some publication)
    (hof : current.Of platform.toCodec prior) (hid : prior.grantId = id)
    (hnumber : prior.revision = row.currentRevision)
    (hcheck : transferredCheck row.currentRevision current = none)
    (hsuccessor : successor platform signer arrival current = some (payload, cose))
    (hpos : 0 < cose.length) (hsize : cose.length ≤ 262144)
    (hlineage : b.lineages.find id = some lineage)
    (hfence : ambient.fence lineage.localAccountId = none) (hauthority : ambient.authority = none)
    (hfree : b.revisions.find (id, row.currentRevision + 1) = none)
    (hdigest : b.DigestFree id (platform.sha256 cose))
    (hpair : lineage.currentStatus = .active →
      b.PairFree id lineage.grantorDid lineage.granteeDid) :
    reissue platform ambient signer arrival tables b (id, row) = .ok { b with
      lineages := b.lineages.insert id { lineage with
        currentRevision := row.currentRevision + 1
        currentDigest := platform.sha256 cose }
      revisions := b.revisions.insert (id, row.currentRevision + 1) (Store.revisionRow
        ⟨arrival.accountId, .grantor, payload, cose, platform.sha256 cose,
          signer.destinationIdentityPublicKey⟩)
      publications := b.publications.insert (id, row.currentRevision + 1)
        ⟨publication.destinationServiceBase, .pending, 0, ambient.now, none, none, none, none,
          ambient.now⟩ } := by
  obtain ⟨prior', hprior', hgrant, hrevision, _⟩ := successor_some hsuccessor
  obtain rfl : prior' = prior := Option.some.inj (hprior'.symm.trans hof.inspected)
  rw [hid] at hgrant
  rw [hnumber] at hrevision
  have hinsert : b.insertRevision ambient ⟨arrival.accountId, .grantor, payload, cose,
      platform.sha256 cose, signer.destinationIdentityPublicKey⟩ = .ok _ :=
    Store.insertRevision_eq_ok.2
      ⟨by simp only [hgrant, hlineage, Option.map_some, Option.bind_some, hfence],
        successor_check hof hcheck hsuccessor hpos hsize,
        by simp only [hgrant, hrevision, hfree], by simpa only [hgrant] using hdigest, rfl⟩
  simp only [reissue, not_true_eq_false, hcontinues, if_false, hrow, hpublication, hsuccessor,
    hinsert, ok_bind, hgrant, hrevision, hlineage]
  rw [updateLineage_ok (by exact hfence) hfence (by exact hpair)]
  simp [ownerFence, hfence, hauthority, raise, Store.insertPublication, hgrant, hrevision]

/-- No other active lineage is on the pair of an imported active one. -/
theorem Merged.pairFree (hm : Merged arrival s t m) (h : Copies codec ambient arrival s t)
    (hlevel : Level ambient arrival s t) (hrow : exported s arrival.accountId id = some row)
    (hactive : row.currentStatus = .active) : m.PairFree id row.grantorDid row.granteeDid := by
  intro id' lineage hlineage hactive' hgrantor hgrantee
  cases hexported : exported s arrival.accountId id' with
  | none =>
    rw [hm.otherLineage id' hexported] at hlineage
    exact hlevel.pairs id id' row lineage hrow hlineage hactive hactive' hgrantor hgrantee
  | some row' =>
    rw [hm.lineage id' row' hexported, Option.some.injEq] at hlineage
    have hsettled := h.settles hlevel hexported
    rw [hlineage] at hsettled
    exact h.source.exported_pairs hexported hrow (hsettled.status ▸ hactive') hactive
      (hsettled.grantor.symm.trans hgrantor) (hsettled.grantee.symm.trans hgrantee)

/-- One round of the last loop. -/
theorem ReissuedDone.step (hdone : ReissuedDone platform signer arrival s m done b)
    (h : Copies platform.toCodec ambient arrival s t) (hlevel : Level ambient arrival s t)
    (hm : Merged arrival s t m) (hsigns : Signs platform signer arrival s)
    (hauthority : ambient.authority = none)
    (hrow : exported s arrival.accountId id = some row) (hfresh : ∀ row', (id, row') ∉ done) :
    ∃ c, reissue platform ambient signer arrival (collectGrants s arrival.accountId) b (id, row) =
        .ok c ∧
      ReissuedDone platform signer arrival s m (done ++ [(id, row)]) c := by
  by_cases hcontinues : Continues row
  · have himported := hm.imported h hlevel hrow
    obtain ⟨hbefore, hrevisions⟩ := hdone.other id hfresh
    obtain ⟨stored, hfind, _, _, _, hnumber, _⟩ := exported_lineage hrow
    obtain ⟨current, _, hcurrent, _⟩ := h.source.current hrow
    obtain ⟨prior, hof, hid, hprior, _⟩ :=
      (h.source.integrity.sound id stored hfind).payload _ current hcurrent
    obtain ⟨payload, cose, hsuccessor, hpos, hsize, hdigest⟩ :=
      hsigns.signed id row current hrow hcontinues hcurrent
    obtain ⟨publication, hpublication⟩ := hsigns.published id row hrow hcontinues
    have hfree : b.revisions.find (id, row.currentRevision + 1) = none := by
      rw [hrevisions, Option.eq_none_iff_forall_ne_some]
      intro revision hrevision
      have hbound := ((himported.revisions _).1 ⟨revision, hrevision⟩).2
      rw [himported.settled.revision] at hbound
      omega
    have hnew : b.DigestFree id (platform.sha256 cose) := by
      intro k revision hrevision hsame
      rw [hrevisions] at hrevision
      obtain ⟨hfirst, hlast⟩ := (himported.revisions k).1 ⟨revision, hrevision⟩
      rw [himported.settled.revision, hnumber] at hlast
      obtain ⟨original, horiginal⟩ :=
        ((h.source.integrity.sound id stored hfind).stored k).2 ⟨hfirst, hlast⟩
      obtain ⟨kept, hkept, _, hkeptDigest⟩ := himported.exact k original horiginal
      rw [hrevision, Option.some.injEq] at hkept
      subst hkept
      exact hdigest k original horiginal (hkeptDigest.symm.trans hsame)
    have hpair : (settled arrival (t.lineages.find id) row).currentStatus = .active →
        b.PairFree id (settled arrival (t.lineages.find id) row).grantorDid
          (settled arrival (t.lineages.find id) row).granteeDid := by
      rintro - id' lineage hlineage hactive hgrantor hgrantee
      obtain ⟨before, hfound, hg, hge, hst⟩ := hdone.parties id' lineage hlineage
      refine Merged.pairFree hm h hlevel hrow hcontinues.2 id' before hfound (hst ▸ hactive) ?_ ?_
      · rw [← hg, hgrantor, himported.settled.grantor]
      · rw [← hge, hgrantee, himported.settled.grantee]
    have hlineage := hbefore.trans himported.found
    have howned : (exported s arrival.accountId id).isSome = true := by rw [hrow]; rfl
    refine ⟨_, reissue_ok (collectGrants s arrival.accountId) hcontinues
      ((keyed_ownedThenReceived h.source _).lookup (mem_ownedThenReceived.2 ⟨hcurrent, howned⟩))
      (lookupPublication hrow hcontinues.1 hpublication) hof hid hprior
      (h.source.checks id _ current hcurrent) hsuccessor hpos hsize hlineage
      (hlevel.fence_settled hrow) hauthority hfree hnew hpair, ?_⟩
    refine hdone.next hfresh (fun id' hne => ⟨?_, fun k => ?_, fun k => ?_⟩)
      ⟨fun hnot => (hnot hcontinues).elim, fun _ => ?_⟩ (fun lineage hfound => ?_)
      (fun key revision hrevision => ?_) rfl
    · exact Table.find_insert_of_ne _ _ hne
    · exact Table.find_insert_of_ne _ _ fun he => hne (congrArg Prod.fst he)
    · exact Table.find_insert_of_ne _ _ fun he => hne (congrArg Prod.fst he)
    · exact ⟨_, current, payload, cose, _, himported.found, hcurrent, hsuccessor,
        Table.find_insert_self .., Table.find_insert_self .., Table.find_insert_self .., rfl⟩
    · rw [Table.find_insert_self] at hfound
      cases hfound
      exact ⟨_, hlineage, rfl, rfl, rfl⟩
    · rw [Table.find_insert_of_ne]
      · exact hrevision
      · rintro rfl
        rw [hfree] at hrevision
        cases hrevision
  · refine ⟨b, by simp only [reissue, hcontinues, not_false_eq_true, if_true], ?_⟩
    exact hdone.next hfresh (fun _ _ => ⟨rfl, fun _ => rfl, fun _ => rfl⟩)
      ⟨fun _ => (hdone.other id hfresh).1, fun hc => (hcontinues hc).elim⟩
      (fun lineage hlineage => ⟨lineage, hlineage, rfl, rfl, rfl⟩) (fun _ _ h => h) rfl

end Step

/-- The last loop continues the exported active grants. -/
theorem reissues {signer : Signer} (h : Copies platform.toCodec ambient arrival s t)
    (hlevel : Level ambient arrival s t) (hm : Merged arrival s t m)
    (hsigns : Signs platform signer arrival s) (hauthority : ambient.authority = none) :
    ∃ b, (collectGrants s arrival.accountId).grantLineages.foldlM
        (reissue platform ambient signer arrival (collectGrants s arrival.accountId)) m = .ok b ∧
      ReissuedDone platform signer arrival s m (collectGrants s arrival.accountId).grantLineages
        b := by
  refine foldlM_ok ⟨fun _ _ hmem => (List.not_mem_nil hmem).elim,
    fun _ _ => ⟨rfl, fun _ => rfl⟩, fun _ lineage hlineage => ⟨lineage, hlineage, rfl, rfl, rfl⟩,
    fun _ _ hfound => hfound, rfl⟩ ?_
  rintro done ⟨id, row⟩ rest b hrows hdone
  have hrow : exported s arrival.accountId id = some row :=
    (mem_collectLineages h.source).1 (hrows ▸ List.mem_append_right _ List.mem_cons_self)
  exact hdone.step h hlevel hm hsigns hauthority hrow
    ((keyed_collectLineages h.source).not_mem hrows)

end Managed

/-- Beside the other party, an account's grants are imported where the copies are level: each
lineage then is the longer copy, owned by the grantor's account with the grantee's as its
collocated receiver, and the managed activation continues the active ones. Where the
destination's copy is at another revision, both activations refuse. -/
theorem import_grants_when_level {signer : Managed.Signer}
    (h : Copies platform.toCodec ambient arrival s t) :
    (Level ambient arrival s t →
      (∃ m, importGrants ambient arrival (collectGrants s arrival.accountId) t = .ok m ∧
        ∀ id row, exported s arrival.accountId id = some row →
          ∃ lineage, Imported arrival s t m id row lineage) ∧
      (Managed.Signs platform signer arrival s → ambient.authority = none →
        ∃ m b, Managed.importGrants platform ambient signer arrival
            (collectGrants s arrival.accountId) t = .ok b ∧
          m.collocated = b.collocated ∧
          (∀ key revision, m.revisions.find key = some revision →
            b.revisions.find key = some revision) ∧
          ∀ id row, exported s arrival.accountId id = some row →
            (∃ lineage, Imported arrival s t m id row lineage) ∧
              Managed.Continued platform signer arrival s m b id row)) ∧
    (Lags arrival s t → ∀ m,
      importGrants ambient arrival (collectGrants s arrival.accountId) t ≠ .ok m ∧
      Managed.importGrants platform ambient signer arrival (collectGrants s arrival.accountId) t ≠
        .ok m) := by
  refine ⟨fun hlevel => ⟨?_, fun hsigns hauthority => ?_⟩, fun hlags m => ⟨?_, fun himport => ?_⟩⟩
  · obtain ⟨m, hmerge, hm⟩ :=
      h.merge "Collocated Grant differs from the signed source snapshot" hlevel
    exact ⟨m, hmerge, fun id row hrow => ⟨_, hm.imported h hlevel hrow⟩⟩
  · obtain ⟨m, hmerge, hm⟩ :=
      h.merge "Collocated Grant differs from the signed managed snapshot" hlevel
    obtain ⟨b, hreissue, hb⟩ := Managed.reissues h hlevel hm hsigns hauthority
    refine ⟨m, b, ?_, hb.collocated.symm, hb.retained, fun id row hrow =>
      ⟨⟨_, hm.imported h hlevel hrow⟩,
        hb.lineage id row ((mem_collectLineages h.source).2 hrow)⟩⟩
    simp only [Managed.importGrants, hmerge, ok_bind, hreissue]
  · exact mergeGrants_lags h hlags m
  · simp only [Managed.importGrants, bind_eq_ok] at himport
    obtain ⟨merged, hmerge, _⟩ := himport
    exact mergeGrants_lags h hlags merged hmerge

namespace Sample

open Grants.Sample Custody.Sample

/-- The platform of the custody sample, with the destination's signature on Alice's successor. -/
def signing : Custody.Platform :=
  { Custody.Sample.platform with
    signGrant := fun kid key payload =>
      if kid = Custody.identityKid alice ∧ key = ownerKey ∧ payload = Custody.Sample.successor then
        some successorCose
      else none
    verify_sign := fun {kid key payload bytes} h => by
      split at h
      · rename_i hcondition
        obtain ⟨hkid, hkey, hpayload⟩ := hcondition
        rw [hpayload]
        exact if_pos ⟨hkid, hkey, (Option.some.inj h).symm⟩
      · cases h }

def signer : Managed.Signer := ⟨ownerKey, 1787851300⟩

theorem granted_signs : Managed.Signs signing signer arriving granted where
  signed id row current h _ hcurrent := by
    obtain ⟨rfl, rfl⟩ := granted_single.exported h
    have hfirst : granted.revisions.find (grantId, 1) =
        some (Store.revisionRow grantInput.revision) := by decide +kernel
    obtain rfl := Option.some.inj (hfirst.symm.trans hcurrent)
    have hsuccessor : Managed.successor signing signer arriving
        (Store.revisionRow grantInput.revision) = some (Custody.Sample.successor, successorCose) ∧
        0 < successorCose.length ∧ successorCose.length ≤ 262144 ∧
        granted.digestTaken grantId successorDigest = false := by
      decide +kernel
    obtain ⟨hsigned, hpos, hsize, hfree⟩ := hsuccessor
    refine ⟨Custody.Sample.successor, successorCose, hsigned, hpos, hsize, ?_⟩
    rw [show signing.sha256 successorCose = successorDigest from grants_checked.2.2.1]
    exact Store.digestTaken_eq_false.1 hfree
  published id row h _ := by
    obtain ⟨rfl, rfl⟩ := granted_single.exported h
    exact Option.isSome_iff_exists.1 (by decide +kernel)

end Sample

/-- Alice moves in beside the store, which has her grant's only revision; the managed activation
signs the second one. -/
theorem import_grants_when_level_sample :
    (∃ m lineage, importGrants Grants.Sample.ambient Sample.arriving
        (collectGrants Custody.Sample.granted Grants.Sample.aliceAccount) Sample.received = .ok m ∧
      Imported Sample.arriving Custody.Sample.granted Sample.received m Grants.Sample.grantId
        (Sample.aliceRow 1 Grants.Sample.firstDigest) lineage) ∧
    ∃ m b, Managed.importGrants Sample.signing Grants.Sample.ambient Sample.signer Sample.arriving
        (collectGrants Custody.Sample.granted Grants.Sample.aliceAccount) Sample.received = .ok b ∧
      Managed.Continued Sample.signing Sample.signer Sample.arriving Custody.Sample.granted m b
        Grants.Sample.grantId (Sample.aliceRow 1 Grants.Sample.firstDigest) := by
  have hcopies : Copies Sample.signing.toCodec Grants.Sample.ambient Sample.arriving
      Custody.Sample.granted Sample.received := Sample.copies_granted
  obtain ⟨hlevel, _⟩ := @import_grants_when_level _ _ _ _ _ Sample.signer hcopies
  obtain ⟨⟨m, himport, hm⟩, hmanaged⟩ := hlevel Sample.granted_level
  obtain ⟨m', b, hmanagedImport, _, _, hb⟩ := hmanaged Sample.granted_signs rfl
  have hrow : exported Custody.Sample.granted Grants.Sample.aliceAccount Grants.Sample.grantId =
      some (Sample.aliceRow 1 Grants.Sample.firstDigest) := by decide +kernel
  obtain ⟨lineage, hlineage⟩ := hm _ _ hrow
  exact ⟨⟨m, lineage, himport, hlineage⟩, m', b, hmanagedImport, (hb _ _ hrow).2⟩

end HailProto.Migration
