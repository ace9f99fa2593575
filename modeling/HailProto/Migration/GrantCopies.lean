import HailProto.Core.Loop
import HailProto.Grants.Lineage
import HailProto.Migration.Grants

/-!
# Two copies of an account's grants

The copy that the source exports and the copy that the destination holds for the other party.
Grant replication makes one a prefix of the other; what it does not give is that they are at the
same revision.
-/

namespace HailProto.Migration

open Server Grants

/-- The row a source exports for a lineage. -/
def exported (s : Store) (accountId : Uuid) (grantId : Uuid) : Option Lineage :=
  if owns s accountId grantId then s.lineages.find grantId
  else if receivesCollocated s accountId grantId then
    (s.lineages.find grantId).map fun lineage =>
      { lineage with localAccountId := accountId, localRole := .grantee }
  else none

/-- The constraints of the grant tables and the integrity of their lineages. -/
structure Stored (codec : Codec) (s : Store) : Prop where
  integrity : s.Integrity codec
  parties : ∀ id lineage, s.lineages.find id = some lineage →
    lineage.grantorDid ≠ lineage.granteeDid
  checks : ∀ id k row, s.revisions.find (id, k) = some row → transferredCheck k row = none
  digests : ∀ id k k' row row', s.revisions.find (id, k) = some row →
    s.revisions.find (id, k') = some row' →
    row.representationDigest = row'.representationDigest → k = k'
  consent : ∀ key row, s.consent.find key = some row → (s.revisions.find key).isSome ∧
    row.bindingDigest.length = 32 ∧ row.profileDigest.length = 32 ∧ row.profileRevision ≠ 0
  publications : ∀ key row, s.publications.find key = some row → (s.revisions.find key).isSome
  pairs : ∀ id id' lineage lineage', s.lineages.find id = some lineage →
    s.lineages.find id' = some lineage' → lineage.currentStatus = .active →
    lineage'.currentStatus = .active → lineage.grantorDid = lineage'.grantorDid →
    lineage.granteeDid = lineage'.granteeDid → id = id'
  collocated : ∀ id accountId, s.collocated.find id = some accountId →
    ∃ lineage, s.lineages.find id = some lineage ∧ lineage.localRole = .grantor ∧
      lineage.localAccountId ≠ accountId

/-- The account is the party its role says, in every lineage it exports. -/
def PartyTo (s : Store) (arrival : Arrival) : Prop :=
  ∀ id row, exported s arrival.accountId id = some row →
    (row.localRole = .grantor → row.grantorDid = arrival.did) ∧
    (row.localRole = .grantee → row.granteeDid = arrival.did)

/-- Who holds the destination's copy of an exported lineage: an active account of the other
party, or the returning account itself. -/
inductive Hosted (ambient : Ambient) (arrival : Arrival) (t : Store) (id : Uuid)
    (row prior : Lineage) : Prop
  | grantee (account : Account) : prior.localAccountId ≠ arrival.accountId →
      row.localRole = .grantor → prior.localRole = .grantee →
      ambient.account prior.localAccountId = some account → account.active = true →
      account.did = some prior.granteeDid → Hosted ambient arrival t id row prior
  | grantor (account : Account) : prior.localAccountId ≠ arrival.accountId →
      row.localRole = .grantee → prior.localRole = .grantor →
      ambient.account prior.localAccountId = some account → account.active = true →
      account.did = some prior.grantorDid → t.collocated.find id = none →
      Hosted ambient arrival t id row prior
  | self : arrival.returning = true → prior.localAccountId = arrival.accountId →
      prior.localRole = row.localRole → Hosted ambient arrival t id row prior

/-- An honest source `s` and an honest destination `t`: where both hold a lineage they agree on
its parties, and where both hold a revision they hold the same bytes. -/
structure Copies (codec : Codec) (ambient : Ambient) (arrival : Arrival) (s t : Store) : Prop where
  source : Stored codec s
  destination : Stored codec t
  party : PartyTo s arrival
  parties : ∀ id row prior, exported s arrival.accountId id = some row →
    t.lineages.find id = some prior →
    prior.grantorDid = row.grantorDid ∧ prior.granteeDid = row.granteeDid
  hosted : ∀ id row prior, exported s arrival.accountId id = some row →
    t.lineages.find id = some prior → Hosted ambient arrival t id row prior
  revisions : ∀ key row row', s.revisions.find key = some row → t.revisions.find key = some row' →
    row'.cose = row.cose
  consent : ∀ key row row', s.consent.find key = some row → t.consent.find key = some row' →
    row'.bindingCose = row.bindingCose ∧ row'.profileCose = row.profileCose
  publications : ∀ key row row', s.publications.find key = some row →
    t.publications.find key = some row' → row'.destinationServiceBase = row.destinationServiceBase

/-- The copies are level: at the same revision, or behind the export where the returning account
itself holds the destination's copy; and the destination admits the writes of the import. -/
structure Level (ambient : Ambient) (arrival : Arrival) (s t : Store) : Prop where
  revision : ∀ id row prior, exported s arrival.accountId id = some row →
    t.lineages.find id = some prior → if prior.localAccountId = arrival.accountId then
      prior.currentRevision ≤ row.currentRevision
    else prior.currentRevision = row.currentRevision
  pairs : ∀ id id' row prior', exported s arrival.accountId id = some row →
    t.lineages.find id' = some prior' → row.currentStatus = .active →
    prior'.currentStatus = .active → prior'.grantorDid = row.grantorDid →
    prior'.granteeDid = row.granteeDid → id' = id
  unfenced : ambient.fence arrival.accountId = none
  unfencedHost : ∀ id row prior, exported s arrival.accountId id = some row →
    t.lineages.find id = some prior → ambient.fence prior.localAccountId = none

/-- Some lineage that the destination holds for the other party is at another revision there. -/
def Lags (arrival : Arrival) (s t : Store) : Prop :=
  ∃ id row prior, exported s arrival.accountId id = some row ∧ t.lineages.find id = some prior ∧
    prior.localAccountId ≠ arrival.accountId ∧ prior.currentRevision ≠ row.currentRevision

section Collect

variable {codec : Codec} {s : Store} {accountId : Uuid}

theorem exported_eq_some {id : Uuid} {row : Lineage} :
    exported s accountId id = some row ↔ ∃ lineage, s.lineages.find id = some lineage ∧
      ((lineage.localAccountId = accountId ∧ row = lineage) ∨
        (lineage.localAccountId ≠ accountId ∧ s.collocated.find id = some accountId ∧
          row = { lineage with localAccountId := accountId, localRole := .grantee })) := by
  unfold exported owns receivesCollocated
  cases hfind : s.lineages.find id with
  | none => simp
  | some lineage =>
    by_cases howner : lineage.localAccountId = accountId
    · simp [howner, eq_comm (a := lineage)]
    · by_cases hreceiver : s.collocated.find id = some accountId
      · simp only [Option.any_some, howner, decide_false, Bool.false_eq_true, if_false,
          Option.isSome_some, hreceiver, decide_true, Bool.and_self, if_true, Option.map_some,
          Option.some.injEq, exists_eq_left', false_and, true_and, false_or, ne_eq,
          not_false_eq_true]
        exact eq_comm
      · simp [howner, hreceiver]

theorem exported_isSome {id : Uuid} : (exported s accountId id).isSome =
    (owns s accountId id || receivesCollocated s accountId id) := by
  unfold exported owns receivesCollocated
  cases hfind : s.lineages.find id with
  | none => simp
  | some lineage =>
    by_cases howner : lineage.localAccountId = accountId
    · simp [howner]
    · by_cases hreceiver : s.collocated.find id = some accountId <;> simp [howner, hreceiver]

/-- What the export says of a lineage is what the source stores, under the account's role. -/
theorem exported_lineage {id : Uuid} {row : Lineage} (h : exported s accountId id = some row) :
    ∃ lineage, s.lineages.find id = some lineage ∧ row.localAccountId = accountId ∧
      row.grantorDid = lineage.grantorDid ∧ row.granteeDid = lineage.granteeDid ∧
      row.currentRevision = lineage.currentRevision ∧
      row.currentDigest = lineage.currentDigest ∧ row.currentStatus = lineage.currentStatus := by
  obtain ⟨lineage, hfind, ⟨howner, rfl⟩ | ⟨_, _, rfl⟩⟩ := exported_eq_some.1 h
  · exact ⟨_, hfind, howner, rfl, rfl, rfl, rfl, rfl⟩
  · exact ⟨_, hfind, rfl, rfl, rfl, rfl, rfl, rfl⟩

/-- No two exported active lineages are on one pair. -/
theorem Stored.exported_pairs (h : Stored codec s) {id id' : Uuid} {row row' : Lineage}
    (hrow : exported s accountId id = some row) (hrow' : exported s accountId id' = some row')
    (hactive : row.currentStatus = .active) (hactive' : row'.currentStatus = .active)
    (hgrantor : row.grantorDid = row'.grantorDid) (hgrantee : row.granteeDid = row'.granteeDid) :
    id = id' := by
  obtain ⟨stored, hfind, _, hg, hge, _, _, hst⟩ := exported_lineage hrow
  obtain ⟨stored', hfind', _, hg', hge', _, _, hst'⟩ := exported_lineage hrow'
  exact h.pairs id id' stored stored' hfind hfind' (hst ▸ hactive) (hst' ▸ hactive')
    (by rw [← hg, hgrantor, hg']) (by rw [← hge, hgrantee, hge'])

/-- No account owns a lineage that it also received collocated. -/
theorem Stored.disjoint (h : Stored codec s) {id : Uuid} (howns : owns s accountId id = true) :
    receivesCollocated s accountId id = false := by
  cases hreceives : receivesCollocated s accountId id with
  | false => rfl
  | true =>
    simp only [owns, Option.any_eq_true, decide_eq_true_eq] at howns
    simp only [receivesCollocated, Bool.and_eq_true, decide_eq_true_eq] at hreceives
    obtain ⟨lineage, hfind, howner⟩ := howns
    obtain ⟨lineage', hfind', _, hother⟩ := h.collocated id accountId hreceives.2
    rw [hfind] at hfind'
    cases hfind'
    exact (hother howner).elim

theorem mem_collectLineages {id : Uuid} {row : Lineage} (h : Stored codec s) :
    (id, row) ∈ (collectGrants s accountId).grantLineages ↔
      exported s accountId id = some row := by
  simp only [collectGrants, byGrant, List.mem_append, List.mem_map, List.mem_insertionSort,
    List.mem_filter, Prod.mk.injEq, Prod.exists, Table.mem_rows, exported_eq_some]
  constructor
  · rintro (⟨hfind, howns⟩ | ⟨id, lineage, ⟨hfind, hreceives⟩, rfl, rfl⟩)
    · simp only [owns, hfind, Option.any_some, decide_eq_true_eq] at howns
      exact ⟨row, hfind, .inl ⟨howns, rfl⟩⟩
    · refine ⟨lineage, hfind, .inr ⟨fun howner => ?_, ?_, rfl⟩⟩
      · have howns : owns s accountId id = true := by simp [owns, hfind, howner]
        rw [h.disjoint howns] at hreceives
        cases hreceives
      · simp only [receivesCollocated, Bool.and_eq_true, decide_eq_true_eq] at hreceives
        exact hreceives.2
  · rintro ⟨lineage, hfind, ⟨howner, rfl⟩ | ⟨_, hreceiver, rfl⟩⟩
    · exact .inl ⟨hfind, by simp [owns, hfind, howner]⟩
    · exact .inr ⟨id, lineage, ⟨hfind, by simp [receivesCollocated, hfind, hreceiver]⟩, rfl, rfl⟩

theorem mem_ownedThenReceived {ρ : Type} {t : Table (Uuid × Nat) ρ} {key : Uuid × Nat} {row : ρ} :
    (key, row) ∈ ownedThenReceived s accountId t.rows ↔
      t.find key = some row ∧ (exported s accountId key.1).isSome = true := by
  rw [exported_isSome, Bool.or_eq_true]
  simp only [ownedThenReceived, byRevision, List.mem_append, List.mem_insertionSort,
    List.mem_filter, Table.mem_rows]
  tauto

/-- A list of rows with their keys, each key once. -/
def Keyed {κ ρ : Type} (rows : List (κ × ρ)) : Prop := rows.Pairwise fun a b => a.1 ≠ b.1

theorem Keyed.sorted {κ ρ : Type} {rows : List (κ × ρ)} (h : Keyed rows)
    (r : κ × ρ → κ × ρ → Prop) [DecidableRel r] : Keyed (rows.insertionSort r) :=
  (List.perm_insertionSort r rows).symm.pairwise h Ne.symm

/-- The rows before a row of the list do not hold its key. -/
theorem Keyed.not_mem {κ ρ : Type} {rows done rest : List (κ × ρ)} {key : κ} {row : ρ}
    (h : Keyed rows) (hrows : rows = done ++ (key, row) :: rest) (row' : ρ) :
    (key, row') ∉ done := by
  subst hrows
  intro hmem
  exact (List.pairwise_append.1 h).2.2 _ hmem _ List.mem_cons_self rfl

theorem keyed_ownedThenReceived {ρ : Type} (h : Stored codec s) (t : Table (Uuid × Nat) ρ) :
    Keyed (ownedThenReceived s accountId t.rows) := by
  have hkeyed (condition : (Uuid × Nat) × ρ → Bool) : Keyed (t.rows.filter condition) :=
    t.pairwise_rows.filter condition
  refine List.pairwise_append.2 ⟨(hkeyed _).sorted _, (hkeyed _).sorted _, ?_⟩
  rintro ⟨key, row⟩ hmem ⟨key', row'⟩ hmem' rfl
  simp only [byRevision, List.mem_insertionSort, List.mem_filter] at hmem hmem'
  rw [h.disjoint hmem.2] at hmem'
  cases hmem'.2

theorem keyed_collectLineages (h : Stored codec s) :
    Keyed (collectGrants s accountId).grantLineages := by
  have hkeyed (condition : Uuid × Lineage → Bool) : Keyed (s.lineages.rows.filter condition) :=
    s.lineages.pairwise_rows.filter condition
  refine List.pairwise_append.2 ⟨(hkeyed _).sorted _, ?_, ?_⟩
  · exact List.pairwise_map.2 ((hkeyed _).sorted _)
  · rintro ⟨id, row⟩ hmem ⟨id', row'⟩ hmem' rfl
    simp only [byGrant, List.mem_insertionSort, List.mem_filter, List.mem_map, Prod.mk.injEq,
      Prod.exists] at hmem hmem'
    obtain ⟨id, lineage, ⟨_, hreceives⟩, rfl, _⟩ := hmem'
    rw [h.disjoint hmem.2] at hreceives
    cases hreceives

end Collect

end HailProto.Migration
