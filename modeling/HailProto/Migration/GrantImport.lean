import HailProto.Custody.System
import HailProto.Migration.GrantMerge

/-!
# Importing grants beside the other party

`importGrants` accepts level copies and leaves one lineage with both parties' accounts; the
managed activation then continues every active grant of the grantor. It refuses a lineage whose
two copies are at different revisions: the row is compared field by field with the one that the
destination keeps for the other party.
-/

namespace HailProto.Migration

open Server Grants

variable {codec : Codec} {ambient : Ambient} {arrival : Arrival} {s t m : Store}

theorem Keyed.lookup {κ ρ : Type} [BEq κ] [LawfulBEq κ] {rows : List (κ × ρ)} {key : κ} {row : ρ}
    (h : Keyed rows) (hmem : (key, row) ∈ rows) : rows.lookup key = some row := by
  obtain ⟨before, after, rfl⟩ := List.append_of_mem hmem
  refine List.lookup_eq_some_iff.2 ⟨before, after, rfl, fun entry hentry => ?_⟩
  rw [bne_iff_ne]
  rintro rfl
  exact h.not_mem rfl entry.2 hentry

/-- The publication of a grant whose grantor exports it. -/
theorem lookupPublication {id : Uuid} {row : Lineage} {publication : Publication} {k : Nat}
    (hrow : exported s arrival.accountId id = some row) (hrole : row.localRole = .grantor)
    (hpublication : s.publications.find (id, k) = some publication) :
    (collectGrants s arrival.accountId).grantPublications.lookup (id, k) = some publication := by
  have howns : owns s arrival.accountId id = true := by
    obtain ⟨lineage, hfind, ⟨howner, rfl⟩ | ⟨_, _, rfl⟩⟩ := exported_eq_some.1 hrow
    · simp [owns, hfind, howner]
    · cases hrole
  exact (keyed_collectPublications _).lookup (mem_collectPublications.2 ⟨hpublication, howns⟩)

/-- An imported lineage: it has the parties of the export, its revisions up to the later of the
two copies, and the accounts of the parties that are served here. -/
structure Imported (arrival : Arrival) (s t m : Store) (id : Uuid) (row lineage : Lineage) :
    Prop where
  found : m.lineages.find id = some lineage
  settled : Settled row lineage
  notBehind : ∀ prior, t.lineages.find id = some prior →
    prior.currentRevision ≤ lineage.currentRevision
  revisions : ∀ k, (∃ revision, m.revisions.find (id, k) = some revision) ↔
    1 ≤ k ∧ k ≤ lineage.currentRevision
  exact : ∀ k revision, s.revisions.find (id, k) = some revision →
    ∃ stored, m.revisions.find (id, k) = some stored ∧ stored.cose = revision.cose ∧
      stored.representationDigest = revision.representationDigest
  arrived : t.lineages.find id = none → lineage = row
  self : ∀ prior, t.lineages.find id = some prior → prior.localAccountId = arrival.accountId →
    lineage.localAccountId = arrival.accountId ∧ lineage.localRole = row.localRole ∧
      m.collocated.find id = t.collocated.find id
  beside : ∀ prior, t.lineages.find id = some prior → prior.localAccountId ≠ arrival.accountId →
    lineage.localRole = .grantor ∧
      (row.localRole = .grantor → lineage.localAccountId = arrival.accountId ∧
        m.collocated.find id = some prior.localAccountId) ∧
      (row.localRole = .grantee → lineage.localAccountId = prior.localAccountId ∧
        m.collocated.find id = some arrival.accountId)

theorem Merged.imported (hm : Merged arrival s t m) (h : Copies codec ambient arrival s t)
    (hlevel : Level ambient arrival s t) {id : Uuid} {row : Lineage}
    (hrow : exported s arrival.accountId id = some row) :
    Imported arrival s t m id row (Migration.settled arrival (t.lineages.find id) row) := by
  obtain ⟨lineage, hfind, _, _, _, hcurrent, _⟩ := exported_lineage hrow
  have hsound := h.source.integrity.sound id lineage hfind
  have hsettled := h.settles hlevel hrow
  have hexact : ∀ k revision, s.revisions.find (id, k) = some revision →
      ∃ stored, m.revisions.find (id, k) = some stored ∧ stored.cose = revision.cose ∧
        stored.representationDigest = revision.representationDigest := by
    intro k revision hrevision
    have hmem : ((id, k), revision) ∈ (collectGrants s arrival.accountId).grantRevisions :=
      mem_ownedThenReceived.2 ⟨hrevision, Option.isSome_iff_exists.2 ⟨row, hrow⟩⟩
    have hstored := hm.revisions.1 _ revision hmem
    cases hbefore : t.revisions.find (id, k) with
    | none => exact ⟨revision, by rw [hstored, hbefore]; rfl, rfl, rfl⟩
    | some existing =>
      exact ⟨existing, by rw [hstored, hbefore]; rfl,
        h.revisions _ revision existing hrevision hbefore, (h.same hrevision hbefore).1⟩
  refine
    { found := hm.lineage id row hrow
      settled := hsettled
      notBehind := fun prior hprior => ?_
      revisions := fun k => ?_
      exact := hexact
      arrived := fun hnone => by rw [hnone, Migration.settled]
      self := fun prior hprior hself => ?_
      beside := fun prior hprior hother => ?_ }
  · have hrevision := hlevel.revision id row prior hrow hprior
    rw [hsettled.revision]
    split at hrevision <;> omega
  · rw [hsettled.revision, hcurrent, ← hsound.stored k]
    constructor
    · rintro ⟨stored, hstored⟩
      by_cases hmem : ∃ revision, ((id, k), revision) ∈
          (collectGrants s arrival.accountId).grantRevisions
      · obtain ⟨revision, hmem⟩ := hmem
        exact ⟨revision, (mem_ownedThenReceived.1 hmem).1⟩
      · rw [hm.revisions.2 _ fun revision hr => hmem ⟨revision, hr⟩] at hstored
        exact h.held hlevel hrow hstored
    · rintro ⟨revision, hrevision⟩
      obtain ⟨stored, hstored, _⟩ := hexact k revision hrevision
      exact ⟨stored, hstored⟩
  · have hcollocated := hm.collocated id row hrow
    cases h.hosted id row prior hrow hprior with
    | self _ _ hrole =>
      simp only [hprior, receiver, if_pos hself] at hcollocated
      simp only [hprior, Migration.settled, if_pos hself]
      exact ⟨hself, hrole, hcollocated⟩
    | grantee _ hother | grantor _ hother => exact (hother hself).elim
  · have hcollocated := hm.collocated id row hrow
    simp only [hprior, receiver, if_neg hother] at hcollocated
    simp only [hprior, Migration.settled, if_neg hother]
    cases h.hosted id row prior hrow hprior with
    | self _ hself _ => exact (hother hself).elim
    | grantee _ _ hrole _ _ _ _ =>
      rw [hrole] at hcollocated ⊢
      exact ⟨rfl, fun _ => ⟨rfl, hcollocated⟩, fun h => by cases h⟩
    | grantor _ _ hrole hprior' _ _ _ _ =>
      rw [hrole] at hcollocated ⊢
      exact ⟨hprior', (fun h => by cases h), fun _ => ⟨rfl, hcollocated⟩⟩

theorem updateLineage_eq {id : Uuid} {prior row : Lineage}
    (h : updateLineage ambient s id prior row = .ok t) :
    t = { s with lineages := s.lineages.insert id row } := by
  simp only [updateLineage, bind_eq_ok, guard_eq_ok, Except.ok.injEq] at h
  obtain ⟨_, _, _, _, _, rfl⟩ := h
  rfl

theorem insertCollocated_eq {id account : Uuid} (h : insertCollocated s id account = .ok t) :
    t = { s with collocated := s.collocated.insert id account } := by
  simp only [insertCollocated, guard_eq_ok, Except.ok.injEq] at h
  exact h.2.symm

theorem insertLineageRow_eq {id : Uuid} {row : Lineage}
    (h : insertLineageRow ambient s id row = .ok t) :
    t = { s with lineages := s.lineages.insert id row } := by
  simp only [insertLineageRow, bind_eq_ok, guard_eq_ok, Except.ok.injEq] at h
  obtain ⟨_, _, _, _, _, _, _, rfl⟩ := h
  rfl

/-- One round of the first loop leaves the other lineages as they are. -/
theorem importLineage_frame {differs : String} {id id' : Uuid} {row : Lineage}
    (h : importLineage ambient differs arrival s (id', row) = .ok t) (hne : id ≠ id') :
    t.lineages.find id = s.lineages.find id := by
  simp only [importLineage] at h
  split at h
  · rw [insertLineageRow_eq h]
    exact Table.find_insert_of_ne _ _ hne
  · split at h
    · rw [updateLineage_eq h]
      exact Table.find_insert_of_ne _ _ hne
    · split at h
      · cases h
      · split at h
        · rw [bind_eq_ok] at h
          obtain ⟨c, hcollocated, hupdate⟩ := h
          rw [updateLineage_eq hupdate, insertCollocated_eq hcollocated]
          exact Table.find_insert_of_ne _ _ hne
        · split at h
          · rw [insertCollocated_eq h]
          · cases h

/-- The first loop refuses a lineage that is at another revision at the destination. -/
theorem mergeGrants_lags {differs : String} (h : Copies codec ambient arrival s t)
    (hlags : Lags arrival s t) (m : Store) :
    mergeGrants ambient differs arrival (collectGrants s arrival.accountId) t ≠ .ok m := by
  obtain ⟨id, row, prior, hrow, hprior, hother, hrevision⟩ := hlags
  intro hmerge
  simp only [mergeGrants, bind_eq_ok] at hmerge
  obtain ⟨b, hfirst, _⟩ := hmerge
  have hkeyed : Keyed (collectGrants s arrival.accountId).grantLineages :=
    keyed_collectLineages h.source
  have hmem := (mem_collectLineages h.source).2 hrow
  obtain ⟨before, after, hrows⟩ := List.append_of_mem hmem
  rw [hrows, List.foldlM_append, bind_eq_ok] at hfirst
  obtain ⟨c, hbefore, hrest⟩ := hfirst
  -- the rounds before this one leave the lineage as it is
  have hkept : c.lineages.find id = some prior := by
    refine foldlM_invariant (I := fun c => c.lineages.find id = some prior) hbefore hprior ?_
    rintro ⟨id', row'⟩ hmem' c d hc hstep
    have hne : id' ≠ id := by
      rintro rfl
      exact hkeyed.not_mem hrows row' hmem'
    exact importLineage_frame hstep hne.symm ▸ hc
  rw [List.foldlM_cons, bind_eq_ok] at hrest
  obtain ⟨d, hstep, _⟩ := hrest
  simp [importLineage, hkept, hother, hrevision] at hstep

namespace Sample

open Grants.Sample Custody.Sample

/-- Alice moves to the provider of the store that she granted. -/
def arriving : Arrival := ⟨aliceAccount, alice, false⟩

/-- The store's copy of Alice's grant. -/
def received : Grants.Store :=
  (∅ : Grants.Store).begun ⟨storeAccount, .grantee, first, firstCose, firstDigest, managedKey⟩
    .grantee

/-- The lineage in Alice's tables and in the store's. -/
def aliceRow (revision : Nat) (digest : Bytes) : Lineage :=
  ⟨aliceAccount, .grantor, alice, store, revision, digest, .active⟩

def storeRow : Lineage := ⟨storeAccount, .grantee, alice, store, 1, firstDigest, .active⟩

/-- Alice's grant, continued before the store has heard of it. -/
def continued : Grants.Store :=
  { granted.extended (aliceRow 1 firstDigest)
      ⟨aliceAccount, .grantor, Custody.Sample.successor, successorCose, successorDigest,
        managedKey⟩ with
    publications := granted.publications.insert (grantId, 2)
      ⟨"https://store.example.com/hail", .pending, 0, 1787851300000, none, none, none, none,
        1787851300000⟩ }

/-- What the codec says of both representations, and the constraints on their rows. -/
theorem grants_checked :
    (Custody.Sample.codec.inspectGrant firstCose = some first ∧
      Custody.Sample.codec.sha256 firstCose = firstDigest ∧
      Store.revisionCheck (Store.revisionRow grantInput.revision) = none) ∧
    Custody.Sample.codec.inspectGrant successorCose = some successor ∧
      Custody.Sample.codec.sha256 successorCose = successorDigest ∧
      Store.revisionCheck (Store.revisionRow ⟨aliceAccount, .grantor, successor, successorCose,
        successorDigest, managedKey⟩) = none := by
  decide +kernel

theorem granted_integrity : granted.Integrity Custody.Sample.codec := by
  obtain ⟨hinspect, hdigest, hcheck⟩ := grants_checked.1
  have hcan : (∅ : Grants.Store).CanBegin Custody.Sample.codec grantInput.revision :=
    ⟨⟨hinspect, hdigest.symm⟩, rfl, rfl, rfl, rfl, nofun, nofun, hcheck⟩
  exact (Store.empty_integrity.begun hcan).of_eq rfl rfl

theorem received_integrity : received.Integrity Custody.Sample.codec := by
  obtain ⟨hinspect, hdigest, hcheck⟩ := grants_checked.1
  exact Store.empty_integrity.begun
    ⟨⟨hinspect, hdigest.symm⟩, rfl, rfl, rfl, rfl, nofun, nofun, hcheck⟩

theorem continued_integrity : continued.Integrity Custody.Sample.codec := by
  obtain ⟨hinspect, hdigest, hcheck⟩ := grants_checked.2
  have hgranted : granted.lineages.find grantId = some (aliceRow 1 firstDigest) ∧
      granted.revisions.find (grantId, 1) = some (Store.revisionRow grantInput.revision) ∧
      granted.revisions.find (grantId, 2) = none ∧
      granted.digestTaken grantId successorDigest = false := by
    decide +kernel
  obtain ⟨hlineage, hrow, hnext, hfree⟩ := hgranted
  have hcan : granted.CanExtend Custody.Sample.codec (aliceRow 1 firstDigest)
      (Store.revisionRow grantInput.revision)
      ⟨aliceAccount, .grantor, successor, successorCose, successorDigest, managedKey⟩ :=
    { genuine := ⟨hinspect, hdigest.symm⟩
      lineage_eq := hlineage
      row_eq := hrow
      grantor_eq := rfl
      grantee_eq := rfl
      active := rfl
      next := rfl
      previous_eq := rfl
      later := by decide
      unstored := hnext
      digestFree := Store.digestTaken_eq_false.1 hfree
      checked := hcheck }
  exact (granted_integrity.extended hcan rfl).of_eq rfl rfl

/-- The store has one lineage, and its rows satisfy the constraints of their tables. -/
def Single (s : Grants.Store) (lineage : Lineage) : Prop :=
  (∀ entry ∈ s.lineages.rows, entry = (grantId, lineage)) ∧
    (∀ entry ∈ s.revisions.rows, transferredCheck entry.1.2 entry.2 = none) ∧
    (∀ entry ∈ s.revisions.rows, ∀ entry' ∈ s.revisions.rows,
      entry.2.representationDigest = entry'.2.representationDigest → entry.1.2 = entry'.1.2) ∧
    ∀ entry ∈ s.publications.rows, (s.revisions.find entry.1).isSome

instance (s : Grants.Store) (lineage : Lineage) : Decidable (Single s lineage) :=
  inferInstanceAs (Decidable (_ ∧ _))

/-- The rows of two copies under one key hold one representation. -/
def SameCose (s t : Grants.Store) : Prop :=
  ∀ entry ∈ t.revisions.rows, ∀ entry' ∈ s.revisions.rows,
    entry'.1 = entry.1 → entry.2.cose = entry'.2.cose

instance (s t : Grants.Store) : Decidable (SameCose s t) :=
  inferInstanceAs (Decidable (∀ entry ∈ _, _))

/-- The rows of the three copies, and what the continued one exports. -/
theorem copies_rows : Single granted (aliceRow 1 firstDigest) ∧ Single received storeRow ∧
    Single continued (aliceRow 2 successorDigest) ∧ SameCose granted received ∧
    SameCose continued received ∧
    exported continued aliceAccount grantId = some (aliceRow 2 successorDigest) ∧
    received.lineages.find grantId = some storeRow := by
  decide +kernel

theorem granted_single : Single granted (aliceRow 1 firstDigest) := copies_rows.1

theorem received_single : Single received storeRow := copies_rows.2.1

theorem continued_single : Single continued (aliceRow 2 successorDigest) := copies_rows.2.2.1

theorem Single.find {s : Grants.Store} {lineage found : Lineage} {id : Uuid}
    (h : Single s lineage) (hfound : s.lineages.find id = some found) :
    id = grantId ∧ found = lineage :=
  Prod.mk.injEq .. ▸ h.1 _ (Table.mem_rows.2 hfound)

/-- A store with one lineage and no consent satisfies the constraints of its tables. -/
theorem Single.stored {s : Grants.Store} {lineage : Lineage} (h : Single s lineage)
    (integrity : s.Integrity Custody.Sample.codec) (hparties : lineage.grantorDid ≠ lineage.granteeDid)
    (hconsent : s.consent = ∅) (hcollocated : s.collocated = ∅) : Stored Custody.Sample.codec s where
  integrity := integrity
  parties id found hfound := by
    rw [(h.find hfound).2]
    exact hparties
  checks id k row hfound := h.2.1 _ (Table.mem_rows.2 hfound)
  digests id k k' row row' hfound hfound' hsame :=
    h.2.2.1 _ (Table.mem_rows.2 hfound) _ (Table.mem_rows.2 hfound') hsame
  consent key row hfound := by
    rw [hconsent] at hfound
    cases hfound
  publications key row hfound := h.2.2.2 _ (Table.mem_rows.2 hfound)
  pairs id id' found found' hfound hfound' _ _ _ _ :=
    (h.find hfound).1.trans (h.find hfound').1.symm
  collocated id account hfound := by
    rw [hcollocated] at hfound
    cases hfound

theorem granted_stored : Stored Custody.Sample.codec granted :=
  granted_single.stored granted_integrity (by decide) rfl rfl

theorem received_stored : Stored Custody.Sample.codec received :=
  received_single.stored received_integrity (by decide) rfl rfl

theorem continued_stored : Stored Custody.Sample.codec continued :=
  continued_single.stored continued_integrity (by decide) rfl rfl

/-- What a copy of Alice's with one lineage exports. -/
theorem Single.exported {s : Grants.Store} {k : Nat} {digest : Bytes}
    (hs : Single s (aliceRow k digest)) {id : Uuid} {row : Lineage}
    (h : exported s aliceAccount id = some row) : id = grantId ∧ row = aliceRow k digest := by
  obtain ⟨lineage, hfind, ⟨_, rfl⟩ | ⟨hother, _⟩⟩ := exported_eq_some.1 h
  · exact hs.find hfind
  · exact (hother (by rw [(hs.find hfind).2]; rfl)).elim

/-- A copy of Alice's and the store's copy are honest copies of one grant. -/
theorem Single.copies {s : Grants.Store} {k : Nat} {digest : Bytes}
    (hs : Single s (aliceRow k digest)) (source : Stored Custody.Sample.codec s)
    (hrevisions : SameCose s received) :
    Copies Custody.Sample.codec Grants.Sample.ambient arriving s received where
  source := source
  destination := received_stored
  party id row h := by
    rw [(hs.exported h).2]
    exact ⟨fun _ => rfl, nofun⟩
  parties id row prior h h' := by
    rw [(hs.exported h).2, (received_single.find h').2]
    exact ⟨rfl, rfl⟩
  hosted id row prior h h' := by
    rw [(hs.exported h).2, (received_single.find h').2]
    exact .grantee ⟨some store, true⟩ (by decide) rfl rfl (by decide) rfl rfl
  revisions key revision revision' h h' :=
    hrevisions _ (Table.mem_rows.2 h') _ (Table.mem_rows.2 h) rfl
  consent key found found' _ h' := by cases h'
  publications key found found' _ h' := by cases h'

theorem copies_granted : Copies Custody.Sample.codec Grants.Sample.ambient arriving granted received :=
  granted_single.copies granted_stored copies_rows.2.2.2.1

theorem granted_level : Level Grants.Sample.ambient arriving granted received where
  revision id row prior h h' := by
    rw [(granted_single.exported h).2, (received_single.find h').2]
    rfl
  pairs id id' row prior' h h' _ _ _ _ :=
    (received_single.find h').1.trans (granted_single.exported h).1.symm
  unfenced := rfl
  unfencedHost _ _ _ _ _ := rfl

end Sample

/-- Alice moves in after continuing her grant, before the store has heard of the second
revision. -/
theorem import_grants_lagging_copy : ¬∀ (codec : Codec) (ambient : Ambient) (arrival : Arrival)
    (s t : Store), Copies codec ambient arrival s t →
    ∃ m, importGrants ambient arrival (collectGrants s arrival.accountId) t = .ok m := by
  intro h
  have hcopies : Copies Custody.Sample.codec Grants.Sample.ambient Sample.arriving
      Sample.continued Sample.received :=
    Sample.continued_single.copies Sample.continued_stored Sample.copies_rows.2.2.2.2.1
  obtain ⟨m, himport⟩ := h Custody.Sample.codec _ _ _ _ hcopies
  obtain ⟨hexported, hstored⟩ := Sample.copies_rows.2.2.2.2.2
  exact mergeGrants_lags hcopies ⟨Grants.Sample.grantId, _, Sample.storeRow, hexported, hstored,
    by decide, by decide⟩ m himport

end HailProto.Migration
