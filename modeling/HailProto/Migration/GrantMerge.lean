import HailProto.Migration.GrantCopies

/-!
# The merge of level copies

What the loops of `importGrants` do when the two copies are level: each exported lineage ends up
as one row, owned by the grantor's account, with the grantee's account as its collocated receiver
where both parties are served here, and every exported revision, consent and publication is kept
or inserted.
-/

namespace HailProto.Migration

open Server Grants

/-- The destination's row of an exported lineage after the import. -/
def settled (arrival : Arrival) (prior : Option Lineage) (row : Lineage) : Lineage :=
  match prior with
  | none => row
  | some prior =>
    if prior.localAccountId = arrival.accountId then { prior with
      currentRevision := row.currentRevision
      currentStatus := row.currentStatus
      currentDigest := row.currentDigest }
    else
      match row.localRole with
      | .grantor => { prior with localAccountId := arrival.accountId, localRole := .grantor }
      | .grantee => prior

/-- The collocated receiver of an exported lineage after the import. -/
def receiver (arrival : Arrival) (prior : Option Lineage) (existing : Option Uuid)
    (row : Lineage) : Option Uuid :=
  match prior with
  | none => existing
  | some prior =>
    if prior.localAccountId = arrival.accountId then existing
    else
      match row.localRole with
      | .grantor => some prior.localAccountId
      | .grantee => some arrival.accountId

/-- The rows of `done`, changed, were added to a table where their keys were free. -/
def Joins {κ ρ : Type} [DecidableEq κ] (before after : Table κ ρ) (done : List (κ × ρ))
    (change : ρ → ρ) : Prop :=
  (∀ key row, (key, row) ∈ done → after.find key = some ((before.find key).getD (change row))) ∧
  ∀ key, (∀ row, (key, row) ∉ done) → after.find key = before.find key

section Joins

variable {κ ρ σ : Type} [DecidableEq κ] {before after : Table κ ρ} {change : ρ → ρ}

theorem Joins.nil (t : Table κ ρ) (change : ρ → ρ) : Joins t t [] change :=
  ⟨fun _ _ hmem => (List.not_mem_nil hmem).elim, fun _ _ => rfl⟩

theorem Joins.keep {done : List (κ × ρ)} {key : κ} {row existing : ρ}
    (h : Joins before after done change) (hfresh : ∀ row', (key, row') ∉ done)
    (hfound : before.find key = some existing) :
    Joins before after (done ++ [(key, row)]) change := by
  refine ⟨fun key' row' hmem => ?_, fun key' hnot => ?_⟩
  · rw [List.mem_append, List.mem_singleton, Prod.mk.injEq] at hmem
    obtain hmem | ⟨rfl, rfl⟩ := hmem
    · exact h.1 key' row' hmem
    · rw [h.2 key' hfresh, hfound, Option.getD_some]
  · exact h.2 key' fun row' hmem => hnot row' (List.mem_append_left _ hmem)

theorem Joins.insert {done : List (κ × ρ)} {key : κ} {row : ρ}
    (h : Joins before after done change) (hfresh : ∀ row', (key, row') ∉ done)
    (hfree : before.find key = none) :
    Joins before (after.insert key (change row)) (done ++ [(key, row)]) change := by
  refine ⟨fun key' row' hmem => ?_, fun key' hnot => ?_⟩
  · rw [List.mem_append, List.mem_singleton, Prod.mk.injEq] at hmem
    obtain hmem | ⟨rfl, rfl⟩ := hmem
    · rw [Table.find_insert_of_ne]
      · exact h.1 key' row' hmem
      · rintro rfl
        exact hfresh row' hmem
    · rw [Table.find_insert_self, hfree, Option.getD_none]
  · rw [Table.find_insert_of_ne]
    · exact h.2 key' fun row' hmem => hnot row' (List.mem_append_left _ hmem)
    · rintro rfl
      exact hnot row (List.mem_append_right _ (List.mem_singleton.2 rfl))

/-- A loop that keeps the rows it finds and inserts the others joins the two tables. -/
theorem joins_of_loop (table : σ → Table κ ρ) (change : ρ → ρ) (frame : σ → Prop)
    {f : σ → κ × ρ → Except Fault σ} {rows : List (κ × ρ)} {b : σ} (hkeyed : Keyed rows)
    (hframe : frame b)
    (keep : ∀ key row existing c, (key, row) ∈ rows → (table b).find key = some existing →
      (table c).find key = some existing → frame c → f c (key, row) = .ok c)
    (insert : ∀ done rest key row c, rows = done ++ (key, row) :: rest → frame c →
      Joins (table b) (table c) done change → (table b).find key = none →
      ∃ d, f c (key, row) = .ok d ∧ frame d ∧
        table d = (table c).insert key (change row)) :
    ∃ c, rows.foldlM f b = .ok c ∧ Joins (table b) (table c) rows change ∧ frame c := by
  refine foldlM_ok (I := fun done c => Joins (table b) (table c) done change ∧ frame c)
    ⟨Joins.nil _ _, hframe⟩ ?_
  rintro done ⟨key, row⟩ rest c hrows ⟨hjoins, hc⟩
  have hfresh := hkeyed.not_mem hrows
  have hmem : (key, row) ∈ rows := by
    rw [hrows]
    exact List.mem_append_right _ List.mem_cons_self
  cases hbefore : (table b).find key with
  | some existing =>
    have hfound : (table c).find key = some existing := by
      rw [hjoins.2 key hfresh, hbefore]
    exact ⟨c, keep key row existing c hmem hbefore hfound hc,
      hjoins.keep hfresh hbefore, hc⟩
  | none =>
    obtain ⟨d, hd, hframe', htable⟩ := insert done rest key row c hrows hc hjoins hbefore
    exact ⟨d, hd, htable ▸ hjoins.insert hfresh hbefore, hframe'⟩

end Joins

variable {codec : Codec} {ambient : Ambient} {arrival : Arrival} {s t : Store}

theorem Stored.current {accountId id : Uuid} {row : Lineage} (h : Stored codec s)
    (hrow : exported s accountId id = some row) : ∃ revision payload,
      s.revisions.find (id, row.currentRevision) = some revision ∧ revision.Of codec payload ∧
      revision.representationDigest = row.currentDigest ∧
      revision.status = row.currentStatus ∧ 1 ≤ row.currentRevision := by
  obtain ⟨lineage, hfind, _, _, _, hrevision, hdigest, hstatus⟩ := exported_lineage hrow
  have hsound := h.integrity.sound id lineage hfind
  obtain ⟨revision, hcurrent, hd, hs⟩ := hsound.current
  obtain ⟨payload, hof, _⟩ := hsound.payload _ _ hcurrent
  obtain ⟨hpos, _⟩ := (hsound.stored lineage.currentRevision).1 ⟨revision, hcurrent⟩
  exact ⟨revision, payload, hrevision ▸ hcurrent, hof, hdigest ▸ hd, hstatus ▸ hs,
    hrevision ▸ hpos⟩

/-- Copies of one revision have one digest and one status. -/
theorem Copies.same {id : Uuid} {k : Nat} {row row' : Revision}
    (h : Copies codec ambient arrival s t) (hs : s.revisions.find (id, k) = some row)
    (ht : t.revisions.find (id, k) = some row') :
    row'.representationDigest = row.representationDigest ∧ row'.status = row.status := by
  obtain ⟨lineage, hl⟩ := h.source.integrity.owned id k row hs
  obtain ⟨lineage', hl'⟩ := h.destination.integrity.owned id k row' ht
  obtain ⟨payload, hof, _⟩ := (h.source.integrity.sound id lineage hl).payload k row hs
  obtain ⟨payload', hof', _⟩ := (h.destination.integrity.sound id lineage' hl').payload k row' ht
  have hcose := h.revisions (id, k) row row' hs ht
  have hpayload : payload' = payload := by
    have hinspected := hof'.inspected
    rw [hcose, hof.inspected] at hinspected
    exact (Option.some.inj hinspected).symm
  exact ⟨by rw [hof.digest_eq, hof'.digest_eq, hcose],
    by rw [hof.status_eq, hof'.status_eq, hpayload]⟩

/-- Where the other party holds the destination's copy, level copies have one current row. -/
theorem Copies.current {id : Uuid} {row prior : Lineage} (h : Copies codec ambient arrival s t)
    (hrow : exported s arrival.accountId id = some row) (hprior : t.lineages.find id = some prior)
    (hlevel : prior.currentRevision = row.currentRevision) :
    prior.currentStatus = row.currentStatus ∧ prior.currentDigest = row.currentDigest := by
  obtain ⟨revision, _, hs, _, hdigest, hstatus, _⟩ := h.source.current hrow
  obtain ⟨revision', ht, hdigest', hstatus'⟩ :=
    (h.destination.integrity.sound id prior hprior).current
  rw [hlevel] at ht
  obtain ⟨hsame, hsameStatus⟩ := h.same hs ht
  exact ⟨by rw [← hstatus', ← hstatus, hsameStatus], by rw [← hdigest', ← hdigest, hsame]⟩

/-- What the import leaves as the row of a lineage agrees with the export on everything but the
local account and role. -/
structure Settled (row lineage : Lineage) : Prop where
  grantor : lineage.grantorDid = row.grantorDid
  grantee : lineage.granteeDid = row.granteeDid
  revision : lineage.currentRevision = row.currentRevision
  digest : lineage.currentDigest = row.currentDigest
  status : lineage.currentStatus = row.currentStatus

theorem Copies.settles {id : Uuid} {row : Lineage} (h : Copies codec ambient arrival s t)
    (hlevel : Level ambient arrival s t) (hrow : exported s arrival.accountId id = some row) :
    Settled row (settled arrival (t.lineages.find id) row) := by
  unfold settled
  cases hprior : t.lineages.find id with
  | none => exact ⟨rfl, rfl, rfl, rfl, rfl⟩
  | some prior =>
    obtain ⟨hgrantor, hgrantee⟩ := h.parties id row prior hrow hprior
    have hrevision := hlevel.revision id row prior hrow hprior
    by_cases hself : prior.localAccountId = arrival.accountId
    · simp only [hself, if_true]
      exact ⟨hgrantor, hgrantee, rfl, rfl, rfl⟩
    · rw [if_neg hself] at hrevision
      obtain ⟨hstatus, hdigest⟩ := h.current hrow hprior hrevision
      simp only [if_neg hself]
      cases row.localRole with
      | grantor => exact ⟨hgrantor, hgrantee, hrevision, hdigest, hstatus⟩
      | grantee => exact ⟨hgrantor, hgrantee, hrevision, hdigest, hstatus⟩

/-- The account of a settled row admits writes. -/
theorem Level.fence_settled {id : Uuid} {row : Lineage} (hlevel : Level ambient arrival s t)
    (hrow : exported s arrival.accountId id = some row) :
    ambient.fence (settled arrival (t.lineages.find id) row).localAccountId = none := by
  obtain ⟨_, _, howner, _⟩ := exported_lineage hrow
  unfold settled
  cases hprior : t.lineages.find id with
  | none =>
    rw [howner]
    exact hlevel.unfenced
  | some prior =>
    have hhost := hlevel.unfencedHost id row prior hrow hprior
    dsimp only
    split
    · exact hhost
    · cases row.localRole with
      | grantor => exact hlevel.unfenced
      | grantee => exact hhost

/-- A revision that the destination holds of an exported lineage, the source holds too. -/
theorem Copies.held {id : Uuid} {row : Lineage} {k : Nat} {stored : Revision}
    (h : Copies codec ambient arrival s t) (hlevel : Level ambient arrival s t)
    (hrow : exported s arrival.accountId id = some row)
    (hstored : t.revisions.find (id, k) = some stored) :
    ∃ revision, s.revisions.find (id, k) = some revision := by
  obtain ⟨prior, hprior⟩ := h.destination.integrity.owned id k stored hstored
  obtain ⟨hpos, hle⟩ := ((h.destination.integrity.sound id prior hprior).stored k).1 ⟨_, hstored⟩
  obtain ⟨lineage, hfind, _, _, _, hcurrent, _⟩ := exported_lineage hrow
  have hrevision := hlevel.revision id row prior hrow hprior
  refine ((h.source.integrity.sound id lineage hfind).stored k).2 ⟨hpos, ?_⟩
  split at hrevision <;> omega

/-- The first loop, over the lineages done so far. -/
structure LineagesDone (arrival : Arrival) (t : Store) (done : List (Uuid × Lineage))
    (b : Store) : Prop where
  lineage : ∀ id row, (id, row) ∈ done →
    b.lineages.find id = some (settled arrival (t.lineages.find id) row)
  otherLineage : ∀ id, (∀ row, (id, row) ∉ done) → b.lineages.find id = t.lineages.find id
  collocated : ∀ id row, (id, row) ∈ done →
    b.collocated.find id = receiver arrival (t.lineages.find id) (t.collocated.find id) row
  otherCollocated : ∀ id, (∀ row, (id, row) ∉ done) → b.collocated.find id = t.collocated.find id
  revisions : b.revisions = t.revisions
  consent : b.consent = t.consent
  publications : b.publications = t.publications

section Lineages

variable {done rest : List (Uuid × Lineage)} {b : Store} {id : Uuid} {row : Lineage}

/-- No other active lineage is on the pair of an exported active one. -/
theorem LineagesDone.pairFree (hdone : LineagesDone arrival t done b)
    (h : Copies codec ambient arrival s t) (hlevel : Level ambient arrival s t)
    (hexported : ∀ entry ∈ done, exported s arrival.accountId entry.1 = some entry.2)
    (hrow : exported s arrival.accountId id = some row) (hactive : row.currentStatus = .active) :
    b.PairFree id row.grantorDid row.granteeDid := by
  intro id' lineage hlineage hactive' hgrantor hgrantee
  by_cases hmem : ∃ row', (id', row') ∈ done
  · obtain ⟨row', hmem⟩ := hmem
    have hrow' := hexported _ hmem
    rw [hdone.lineage id' row' hmem, Option.some.injEq] at hlineage
    have hsettled := h.settles hlevel hrow'
    rw [hlineage] at hsettled
    exact h.source.exported_pairs hrow' hrow (hsettled.status ▸ hactive') hactive
      (hsettled.grantor.symm.trans hgrantor) (hsettled.grantee.symm.trans hgrantee)
  · rw [hdone.otherLineage id' fun row' hrow' => hmem ⟨row', hrow'⟩] at hlineage
    exact hlevel.pairs id id' row lineage hrow hlineage hactive hactive' hgrantor hgrantee

/-- One more lineage is done when its row and its receiver are written. -/
theorem LineagesDone.next {c : Store} (hdone : LineagesDone arrival t done b)
    (hfresh : ∀ row', (id, row') ∉ done)
    (hlineages : ∀ id', c.lineages.find id' = if id' = id then
      some (settled arrival (t.lineages.find id) row) else b.lineages.find id')
    (hcollocated : ∀ id', c.collocated.find id' = if id' = id then
      receiver arrival (t.lineages.find id) (t.collocated.find id) row
      else b.collocated.find id')
    (hrevisions : c.revisions = b.revisions) (hconsent : c.consent = b.consent)
    (hpublications : c.publications = b.publications) :
    LineagesDone arrival t (done ++ [(id, row)]) c := by
  have hne {id' : Uuid} {row' : Lineage} (hmem : (id', row') ∈ done) : id' ≠ id := by
    rintro rfl
    exact hfresh row' hmem
  have hout {id' : Uuid} (hnot : ∀ row', (id', row') ∉ done ++ [(id, row)]) :
      id' ≠ id ∧ ∀ row', (id', row') ∉ done :=
    ⟨fun he => hnot row (List.mem_append_right _ (List.mem_singleton.2 (he ▸ rfl))),
      fun row' hmem => hnot row' (List.mem_append_left _ hmem)⟩
  refine ⟨fun id' row' hmem => ?_, fun id' hnot => ?_, fun id' row' hmem => ?_,
    fun id' hnot => ?_, hrevisions.trans hdone.revisions, hconsent.trans hdone.consent,
    hpublications.trans hdone.publications⟩
  · rw [hlineages]
    rw [List.mem_append, List.mem_singleton, Prod.mk.injEq] at hmem
    obtain hmem | ⟨rfl, rfl⟩ := hmem
    · rw [if_neg (hne hmem), hdone.lineage id' row' hmem]
    · rw [if_pos rfl]
  · rw [hlineages, if_neg (hout hnot).1]
    exact hdone.otherLineage id' (hout hnot).2
  · rw [hcollocated]
    rw [List.mem_append, List.mem_singleton, Prod.mk.injEq] at hmem
    obtain hmem | ⟨rfl, rfl⟩ := hmem
    · rw [if_neg (hne hmem), hdone.collocated id' row' hmem]
    · rw [if_pos rfl]
  · rw [hcollocated, if_neg (hout hnot).1]
    exact hdone.otherCollocated id' (hout hnot).2

theorem updateLineage_ok {prior : Lineage} (hfence : ambient.fence row.localAccountId = none)
    (hprior : ambient.fence prior.localAccountId = none)
    (hpair : row.currentStatus = .active → b.PairFree id row.grantorDid row.granteeDid) :
    updateLineage ambient b id prior row =
      .ok { b with lineages := b.lineages.insert id row } := by
  have htaken : ¬(row.currentStatus = .active ∧
      b.pairTaken id row.grantorDid row.granteeDid = true) := by
    rintro ⟨hactive, htaken⟩
    rw [Store.pairTaken_eq_false.2 (hpair hactive)] at htaken
    cases htaken
  simp only [updateLineage, hfence, hprior, Option.map_none, raise, ok_bind, if_neg htaken,
    ite_self]

theorem insertLineageRow_ok (hfence : ambient.fence row.localAccountId = none)
    (hparties : row.grantorDid ≠ row.granteeDid) (hrevision : row.currentRevision ≠ 0)
    (hdigest : row.currentDigest.length = 32) (hfree : b.lineages.find id = none)
    (hpair : row.currentStatus = .active → b.PairFree id row.grantorDid row.granteeDid) :
    insertLineageRow ambient b id row =
      .ok { b with lineages := b.lineages.insert id row } := by
  have htaken : ¬(row.currentStatus = .active ∧
      b.pairTaken id row.grantorDid row.granteeDid = true) := by
    rintro ⟨hactive, htaken⟩
    rw [Store.pairTaken_eq_false.2 (hpair hactive)] at htaken
    cases htaken
  simp [insertLineageRow, hfence, raise, hparties, hrevision, hdigest, hfree, htaken]

theorem insertCollocated_ok {account : Uuid} (hfree : b.collocated.find id = none) :
    insertCollocated b id account =
      .ok { b with collocated := b.collocated.insert id account } := by
  simp [insertCollocated, hfree]

/-- One round of the first loop: the next exported lineage is merged. -/
theorem LineagesDone.step {differs : String} (hdone : LineagesDone arrival t done b)
    (h : Copies codec ambient arrival s t) (hlevel : Level ambient arrival s t)
    (hexported : ∀ entry ∈ done, exported s arrival.accountId entry.1 = some entry.2)
    (hrow : exported s arrival.accountId id = some row) (hfresh : ∀ row', (id, row') ∉ done) :
    ∃ c, importLineage ambient differs arrival b (id, row) = .ok c ∧
      LineagesDone arrival t (done ++ [(id, row)]) c := by
  have hpair (hactive : row.currentStatus = .active) :
      b.PairFree id row.grantorDid row.granteeDid :=
    hdone.pairFree h hlevel hexported hrow hactive
  have hsettled := h.settles hlevel hrow
  obtain ⟨_, _, howner, hgrantor, hgrantee, _⟩ := exported_lineage hrow
  have hbefore : b.lineages.find id = t.lineages.find id := hdone.otherLineage id hfresh
  have hreceiver : b.collocated.find id = t.collocated.find id := hdone.otherCollocated id hfresh
  cases hprior : t.lineages.find id with
  | none =>
    obtain ⟨stored, hstored, _⟩ := exported_lineage hrow
    obtain ⟨revision, payload, _, hof, hdigest, _, hpos⟩ := h.source.current hrow
    have hlength : row.currentDigest.length = 32 := by
      rw [← hdigest, hof.digest_eq, codec.sha256_length]
    refine ⟨{ b with lineages := b.lineages.insert id row }, ?_, ?_⟩
    · rw [importLineage, hbefore, hprior]
      exact insertLineageRow_ok (howner ▸ hlevel.unfenced)
        (by
          obtain ⟨lineage, hfind, _, hg, hge, _⟩ := exported_lineage hrow
          rw [hg, hge]
          exact h.source.parties id lineage hfind)
        (Nat.pos_iff_ne_zero.1 hpos) hlength (hbefore.trans hprior) hpair
    · refine hdone.next hfresh (fun id' => by rw [Table.find_insert, hprior, settled])
        (fun id' => ?_) rfl rfl rfl
      split
      · rename_i he
        subst he
        rw [hprior, hreceiver]
        rfl
      · rfl
  | some prior =>
    obtain ⟨hg, hge⟩ := h.parties id row prior hrow hprior
    have hrevision := hlevel.revision id row prior hrow hprior
    have hhost := hlevel.unfencedHost id row prior hrow hprior
    rw [hprior] at hsettled
    rw [importLineage, hbefore, hprior]
    cases h.hosted id row prior hrow hprior with
    | self hreturning hself hrole =>
      rw [if_pos hself] at hrevision
      have hcondition : arrival.returning = true ∧
          prior.localAccountId = arrival.accountId ∧ prior.localRole = row.localRole ∧
          prior.grantorDid = row.grantorDid ∧ prior.granteeDid = row.granteeDid ∧
          prior.currentRevision ≤ row.currentRevision :=
        ⟨hreturning, hself, hrole, hg, hge, hrevision⟩
      refine ⟨{ b with lineages := b.lineages.insert id { prior with
        currentRevision := row.currentRevision
        currentStatus := row.currentStatus
        currentDigest := row.currentDigest } }, ?_, ?_⟩
      · simp only [if_pos hcondition]
        exact updateLineage_ok hhost hhost fun hactive => by
          rw [hg, hge]
          exact hpair hactive
      · refine hdone.next hfresh
          (fun id' => by rw [Table.find_insert, hprior, settled, if_pos hself])
          (fun id' => ?_) rfl rfl rfl
        split
        · rename_i he
          subst he
          simp only [hprior, receiver, if_pos hself, hreceiver]
        · rfl
    | grantee account hother hrow' hprior' haccount hactive hdid =>
      rw [if_neg hother] at hrevision
      obtain ⟨hstatus, hdigest⟩ := h.current hrow hprior hrevision
      have hfree : b.collocated.find id = none := by
        rw [hreceiver, Option.eq_none_iff_forall_ne_some]
        intro account' hcollocated
        obtain ⟨lineage, hfind, hrole, _⟩ := h.destination.collocated id account' hcollocated
        rw [hprior, Option.some.injEq] at hfind
        rw [← hfind, hprior'] at hrole
        cases hrole
      have hmoved : row.grantorDid = arrival.did := (h.party id row hrow).1 hrow'
      refine ⟨{ b with
        lineages := b.lineages.insert id
          { prior with localAccountId := arrival.accountId, localRole := .grantor }
        collocated := b.collocated.insert id prior.localAccountId }, ?_, ?_⟩
      · simp only [hother, false_and, and_false, if_false, hg, hge, hrevision, hstatus, hdigest,
          haccount, Option.any_some, hactive, howner, ne_eq, not_true_eq_false, or_self,
          hrow', hprior', Option.bind_some, hdid, hmoved, and_self, if_true,
          insertCollocated_ok hfree, ok_bind]
        rw [hmoved] at hpair
        exact updateLineage_ok hlevel.unfenced hhost fun hactive' => hpair hactive'
      · refine hdone.next hfresh
          (fun id' => by
            simp only [Table.find_insert, hprior, settled, if_neg hother, hrow'])
          (fun id' => ?_) rfl rfl rfl
        simp only [Table.find_insert, hprior, receiver, if_neg hother, hrow']
    | grantor account hother hrow' hprior' haccount hactive hdid hfree =>
      rw [if_neg hother] at hrevision
      obtain ⟨hstatus, hdigest⟩ := h.current hrow hprior hrevision
      have hmoved : row.granteeDid = arrival.did := (h.party id row hrow).2 hrow'
      refine ⟨{ b with collocated := b.collocated.insert id arrival.accountId }, ?_, ?_⟩
      · simp only [hother, false_and, and_false, if_false, hg, hge, hrevision, hstatus, hdigest,
          haccount, Option.any_some, hactive, howner, ne_eq, not_true_eq_false, or_self,
          hrow', hprior', Option.bind_some, hdid, hmoved, and_self, if_true, reduceCtorEq]
        exact insertCollocated_ok (hreceiver.trans hfree)
      · refine hdone.next hfresh (fun id' => ?_) (fun id' => ?_) rfl rfl rfl
        · split
          · rename_i he
            subst he
            simp only [hbefore, hprior, settled, if_neg hother, hrow']
          · rfl
        · simp only [Table.find_insert, hprior, receiver, if_neg hother, hrow']

end Lineages

/-- The first loop merges the exported lineages. -/
theorem Copies.mergeLineages (differs : String) (h : Copies codec ambient arrival s t)
    (hlevel : Level ambient arrival s t) :
    ∃ b, (collectGrants s arrival.accountId).grantLineages.foldlM
        (importLineage ambient differs arrival) t = .ok b ∧
      LineagesDone arrival t (collectGrants s arrival.accountId).grantLineages b := by
  refine foldlM_ok ⟨fun _ _ hmem => (List.not_mem_nil hmem).elim, fun _ _ => rfl,
    fun _ _ hmem => (List.not_mem_nil hmem).elim, fun _ _ => rfl, rfl, rfl, rfl⟩ ?_
  rintro done ⟨id, row⟩ rest b hrows hdone
  have hall : ∀ entry ∈ done ++ [(id, row)], exported s arrival.accountId entry.1 = some entry.2 := by
    rintro ⟨id', row'⟩ hmem
    refine (mem_collectLineages h.source).1 ?_
    rw [hrows]
    obtain hmem | hmem := List.mem_append.1 hmem
    · exact List.mem_append_left _ hmem
    · rw [List.mem_singleton] at hmem
      exact hmem ▸ List.mem_append_right _ List.mem_cons_self
  exact hdone.step h hlevel (fun entry hmem => hall entry (List.mem_append_left _ hmem))
    (hall (id, row) (List.mem_append_right _ (List.mem_singleton.2 rfl)))
    ((keyed_collectLineages h.source).not_mem hrows)

/-- The grant tables of the destination after the import of level copies. -/
structure Merged (arrival : Arrival) (s t m : Store) : Prop where
  lineage : ∀ id row, exported s arrival.accountId id = some row →
    m.lineages.find id = some (settled arrival (t.lineages.find id) row)
  otherLineage : ∀ id, exported s arrival.accountId id = none →
    m.lineages.find id = t.lineages.find id
  collocated : ∀ id row, exported s arrival.accountId id = some row →
    m.collocated.find id = receiver arrival (t.lineages.find id) (t.collocated.find id) row
  otherCollocated : ∀ id, exported s arrival.accountId id = none →
    m.collocated.find id = t.collocated.find id
  revisions : Joins t.revisions m.revisions (collectGrants s arrival.accountId).grantRevisions id
  consent : Joins t.consent m.consent (collectGrants s arrival.accountId).grantConsentEvidence id
  publications : Joins t.publications m.publications
    (collectGrants s arrival.accountId).grantPublications resumed

section Rows

variable {b c : Store}

theorem ownerFence_merged {id : Uuid}
    (hb : LineagesDone arrival t (collectGrants s arrival.accountId).grantLineages b)
    (h : Copies codec ambient arrival s t) (hlevel : Level ambient arrival s t)
    (hframe : c.lineages = b.lineages)
    (hexported : (exported s arrival.accountId id).isSome = true) :
    ownerFence ambient c id = none ∧ (c.lineages.find id).isNone = false := by
  obtain ⟨row, hrow⟩ := Option.isSome_iff_exists.1 hexported
  have hfind := hb.lineage id row ((mem_collectLineages h.source).2 hrow)
  simp only [ownerFence, hframe, hfind, Option.map_some, Option.bind_some,
    hlevel.fence_settled hrow, Option.map_none, Option.isNone_some, and_self]

/-- The second loop. -/
theorem Copies.mergeRevisions (h : Copies codec ambient arrival s t)
    (hlevel : Level ambient arrival s t)
    (hb : LineagesDone arrival t (collectGrants s arrival.accountId).grantLineages b) :
    ∃ c, (collectGrants s arrival.accountId).grantRevisions.foldlM (importRevision ambient) b =
        .ok c ∧
      Joins t.revisions c.revisions (collectGrants s arrival.accountId).grantRevisions id ∧
      c.lineages = b.lineages ∧ c.collocated = b.collocated ∧ c.consent = b.consent ∧
      c.publications = b.publications := by
  have hrows {key : Uuid × Nat} {row : Revision}
      (hmem : (key, row) ∈ (collectGrants s arrival.accountId).grantRevisions) :
      s.revisions.find key = some row ∧ (exported s arrival.accountId key.1).isSome = true :=
    mem_ownedThenReceived.1 hmem
  rw [← hb.revisions]
  refine joins_of_loop Store.revisions id
    (fun c => c.lineages = b.lineages ∧ c.collocated = b.collocated ∧
      c.consent = b.consent ∧ c.publications = b.publications)
    (keyed_ownedThenReceived h.source _) ⟨rfl, rfl, rfl, rfl⟩ ?_ ?_
  · rintro ⟨grantId, k⟩ row existing c hmem hbefore hfound _
    rw [hb.revisions] at hbefore
    have hcose := h.revisions _ row existing (hrows hmem).1 hbefore
    have hdigest := (h.same (hrows hmem).1 hbefore).1
    simp [importRevision, keepOrInsert, hfound, hcose, hdigest]
  · rintro done rest ⟨grantId, k⟩ row c hlist ⟨hlineages, hcollocated, hconsent, hpublications⟩
      hjoins hfree
    have hmem : ((grantId, k), row) ∈ (collectGrants s arrival.accountId).grantRevisions := by
      rw [hlist]
      exact List.mem_append_right _ List.mem_cons_self
    obtain ⟨hstored, hexported⟩ := hrows hmem
    obtain ⟨hfence, hlineage⟩ := ownerFence_merged hb h hlevel hlineages hexported
    have hfresh := (keyed_ownedThenReceived h.source s.revisions).not_mem hlist
    have hnone : c.revisions.find (grantId, k) = none := by rw [hjoins.2 _ hfresh, hfree]
    obtain ⟨exportedRow, hrow⟩ := Option.isSome_iff_exists.1 hexported
    have hdigest : c.DigestFree grantId row.representationDigest := by
      intro k' row' hrow' hsame
      by_cases hdone : ∃ r, ((grantId, k'), r) ∈ done
      · obtain ⟨r, hdone⟩ := hdone
        have hr : s.revisions.find (grantId, k') = some r :=
          (hrows (hlist ▸ List.mem_append_left _ hdone)).1
        have hdigest' : row'.representationDigest = r.representationDigest := by
          rw [hjoins.1 _ r hdone, Option.some.injEq] at hrow'
          cases hbefore : b.revisions.find (grantId, k') with
          | none =>
            rw [hbefore] at hrow'
            exact hrow' ▸ rfl
          | some existing =>
            rw [hbefore] at hrow'
            rw [hb.revisions] at hbefore
            exact hrow' ▸ (h.same hr hbefore).1
        have hk : k' = k :=
          h.source.digests grantId k' k r row hr hstored (hdigest'.symm.trans hsame)
        exact hfresh r (hk ▸ hdone)
      · rw [hjoins.2 _ fun r hr => hdone ⟨r, hr⟩, hb.revisions] at hrow'
        obtain ⟨r, hr⟩ := h.held hlevel hrow hrow'
        have hk : k' = k := h.source.digests grantId k' k r row hr hstored
          ((h.same hr hrow').1.symm.trans hsame)
        rw [hk, ← hb.revisions, hfree] at hrow'
        cases hrow'
    refine ⟨{ c with revisions := c.revisions.insert (grantId, k) row }, ?_,
      ⟨hlineages, hcollocated, hconsent, hpublications⟩, rfl⟩
    simp [importRevision, keepOrInsert, hnone, insertRevisionRow, hfence, raise,
      h.source.checks _ _ _ hstored, Store.digestTaken_eq_false.2 hdigest, hlineage]

/-- The third loop. -/
theorem Copies.mergeConsent (h : Copies codec ambient arrival s t)
    (hlevel : Level ambient arrival s t)
    (hb : LineagesDone arrival t (collectGrants s arrival.accountId).grantLineages b)
    (hlineages : c.lineages = b.lineages) (hconsent : c.consent = b.consent)
    (hrevisions : Joins t.revisions c.revisions
      (collectGrants s arrival.accountId).grantRevisions id) :
    ∃ d, (collectGrants s arrival.accountId).grantConsentEvidence.foldlM (importConsent ambient) c =
        .ok d ∧
      Joins t.consent d.consent (collectGrants s arrival.accountId).grantConsentEvidence id ∧
      d.lineages = c.lineages ∧ d.collocated = c.collocated ∧ d.revisions = c.revisions ∧
      d.publications = c.publications := by
  have hrows {key : Uuid × Nat} {row : ConsentRow}
      (hmem : (key, row) ∈ (collectGrants s arrival.accountId).grantConsentEvidence) :
      s.consent.find key = some row ∧ (exported s arrival.accountId key.1).isSome = true :=
    mem_ownedThenReceived.1 hmem
  rw [← hb.consent, ← hconsent]
  refine joins_of_loop Store.consent id
    (fun d => d.lineages = c.lineages ∧ d.collocated = c.collocated ∧
      d.revisions = c.revisions ∧ d.publications = c.publications)
    (keyed_ownedThenReceived h.source _) ⟨rfl, rfl, rfl, rfl⟩ ?_ ?_
  · intro key row existing d hmem hbefore hfound _
    rw [hconsent, hb.consent] at hbefore
    obtain ⟨hbinding, hprofile⟩ := h.consent key row existing (hrows hmem).1 hbefore
    simp [importConsent, keepOrInsert, hfound, hbinding, hprofile]
  · rintro done rest key row d hlist ⟨hl, hc, hr, hp⟩ hjoins hfree
    have hmem : (key, row) ∈ (collectGrants s arrival.accountId).grantConsentEvidence := by
      rw [hlist]
      exact List.mem_append_right _ List.mem_cons_self
    obtain ⟨hstored, hexported⟩ := hrows hmem
    obtain ⟨hfence, _⟩ := ownerFence_merged hb h hlevel (hl.trans hlineages) hexported
    obtain ⟨hrevision, hbinding, hprofile, hnumber⟩ := h.source.consent key row hstored
    have hnone : d.consent.find key = none := by
      rw [hjoins.2 key ((keyed_ownedThenReceived h.source s.consent).not_mem hlist), hfree]
    have hreferenced : (d.revisions.find key).isNone = false := by
      obtain ⟨revision, hrevision⟩ := Option.isSome_iff_exists.1 hrevision
      rw [hr, hrevisions.1 key revision (mem_ownedThenReceived.2 ⟨hrevision, hexported⟩)]
      rfl
    refine ⟨{ d with consent := d.consent.insert key row }, ?_, ⟨hl, hc, hr, hp⟩, rfl⟩
    simp [importConsent, keepOrInsert, hnone, insertConsentRow, hfence, raise, hbinding, hprofile,
      hnumber, hreferenced]

theorem mem_collectPublications {accountId : Uuid} {key : Uuid × Nat} {row : Publication} :
    (key, row) ∈ (collectGrants s accountId).grantPublications ↔
      s.publications.find key = some row ∧ owns s accountId key.1 = true := by
  simp only [collectGrants, byRevision, List.mem_insertionSort, List.mem_filter, Table.mem_rows]

theorem keyed_collectPublications (accountId : Uuid) :
    Keyed (collectGrants s accountId).grantPublications :=
  (show Keyed (s.publications.rows.filter _) from s.publications.pairwise_rows.filter _).sorted _

/-- The fourth loop. -/
theorem Copies.mergePublications (h : Copies codec ambient arrival s t)
    (hlevel : Level ambient arrival s t)
    (hb : LineagesDone arrival t (collectGrants s arrival.accountId).grantLineages b)
    (hlineages : c.lineages = b.lineages) (hpublications : c.publications = b.publications)
    (hrevisions : Joins t.revisions c.revisions
      (collectGrants s arrival.accountId).grantRevisions id) :
    ∃ d, (collectGrants s arrival.accountId).grantPublications.foldlM (importPublication ambient) c =
        .ok d ∧
      Joins t.publications d.publications (collectGrants s arrival.accountId).grantPublications
        resumed ∧
      d.lineages = c.lineages ∧ d.collocated = c.collocated ∧ d.revisions = c.revisions ∧
      d.consent = c.consent := by
  have hrows {key : Uuid × Nat} {row : Publication}
      (hmem : (key, row) ∈ (collectGrants s arrival.accountId).grantPublications) :
      s.publications.find key = some row ∧ (exported s arrival.accountId key.1).isSome = true := by
    obtain ⟨hfind, howns⟩ := mem_collectPublications.1 hmem
    exact ⟨hfind, by rw [exported_isSome, howns, Bool.true_or]⟩
  have hkeyed := keyed_collectPublications (s := s) arrival.accountId
  rw [← hb.publications, ← hpublications]
  refine joins_of_loop Store.publications resumed
    (fun d => d.lineages = c.lineages ∧ d.collocated = c.collocated ∧
      d.revisions = c.revisions ∧ d.consent = c.consent) hkeyed ⟨rfl, rfl, rfl, rfl⟩ ?_ ?_
  · intro key row existing d hmem hbefore hfound _
    rw [hpublications, hb.publications] at hbefore
    have hdestination := h.publications key row existing (hrows hmem).1 hbefore
    simp [importPublication, keepOrInsert, hfound, hdestination]
  · rintro done rest key row d hlist ⟨hl, hc, hr, hcon⟩ hjoins hfree
    have hmem : (key, row) ∈ (collectGrants s arrival.accountId).grantPublications := by
      rw [hlist]
      exact List.mem_append_right _ List.mem_cons_self
    obtain ⟨hstored, hexported⟩ := hrows hmem
    obtain ⟨hfence, _⟩ := ownerFence_merged hb h hlevel (hl.trans hlineages) hexported
    have hnone : d.publications.find key = none := by
      rw [hjoins.2 key (hkeyed.not_mem hlist), hfree]
    have hreferenced : (d.revisions.find key).isNone = false := by
      obtain ⟨revision, hrevision⟩ :=
        Option.isSome_iff_exists.1 (h.source.publications key row hstored)
      rw [hr, hrevisions.1 key revision (mem_ownedThenReceived.2 ⟨hrevision, hexported⟩)]
      rfl
    refine ⟨{ d with publications := d.publications.insert key (resumed row) }, ?_,
      ⟨hl, hc, hr, hcon⟩, rfl⟩
    simp [importPublication, keepOrInsert, hnone, insertPublicationRow, hfence, raise, hreferenced]

end Rows

/-- Level copies merge. -/
theorem Copies.merge (differs : String) (h : Copies codec ambient arrival s t)
    (hlevel : Level ambient arrival s t) :
    ∃ m, mergeGrants ambient differs arrival (collectGrants s arrival.accountId) t = .ok m ∧
      Merged arrival s t m := by
  obtain ⟨b, hfirst, hb⟩ := h.mergeLineages differs hlevel
  obtain ⟨c, hsecond, hrevisions, hcl, hcc, hccon, hcp⟩ := h.mergeRevisions hlevel hb
  obtain ⟨d, hthird, hconsent, hdl, hdc, hdr, hdp⟩ :=
    h.mergeConsent hlevel hb hcl hccon hrevisions
  obtain ⟨m, hfourth, hpublications, hml, hmc, hmr, hmcon⟩ :=
    h.mergePublications hlevel hb (hdl.trans hcl) (hdp.trans hcp) (hdr ▸ hrevisions)
  have hlineages : m.lineages = b.lineages := hml.trans (hdl.trans hcl)
  have hcollocated : m.collocated = b.collocated := hmc.trans (hdc.trans hcc)
  refine ⟨m, ?_, ⟨fun id row hrow => ?_, fun id hnone => ?_, fun id row hrow => ?_,
    fun id hnone => ?_, hmr ▸ hdr ▸ hrevisions, hmcon ▸ hconsent, hpublications⟩⟩
  · simp only [mergeGrants, hfirst, hsecond, hthird, ok_bind]
    exact hfourth
  · rw [hlineages]
    exact hb.lineage id row ((mem_collectLineages h.source).2 hrow)
  · rw [hlineages]
    refine hb.otherLineage id fun row hmem => ?_
    rw [mem_collectLineages h.source, hnone] at hmem
    cases hmem
  · rw [hcollocated]
    exact hb.collocated id row ((mem_collectLineages h.source).2 hrow)
  · rw [hcollocated]
    refine hb.otherCollocated id fun row hmem => ?_
    rw [mem_collectLineages h.source, hnone] at hmem
    cases hmem

end HailProto.Migration
