import HailProto.Grants.Lineage

/-!
# Consent covers every authorization

An authoritative update is compared with its immediate predecessor only. Along a lineage these
comparisons compose: every revision stays within the latest one that came with fresh consent
evidence, and carries its consent context.
-/

namespace HailProto.Grants

open Server

variable {codec : Codec} {s t : Store}

/-- Revision `k` of a grant, as its stored representation reads. -/
def Store.Holds (codec : Codec) (s : Store) (id : Uuid) (k : Nat) (payload : HailGrant) : Prop :=
  ∃ row, s.revisions.find (id, k) = some row ∧ codec.inspectGrant row.cose = some payload

/-- Revision `k` is covered by the latest revision up to it that has consent evidence. -/
def Store.CoveredAt (codec : Codec) (s : Store) (id : Uuid) (k : Nat) (payload : HailGrant) :
    Prop :=
  ∃ k' payload', k' ≤ k ∧ s.Holds codec id k' payload' ∧ (s.consent.find (id, k')).isSome ∧
    (∀ q, k' < q → q ≤ k → s.consent.find (id, q) = none) ∧
    payload.consentContext = payload'.consentContext ∧
    (payload.status = .active → payload'.status = .active ∧ Within payload payload')

/-- Every revision of an authoritative lineage is covered, and evidence is of stored revisions. -/
structure Store.Covered (codec : Codec) (s : Store) : Prop where
  covered : ∀ id lineage, s.lineages.find id = some lineage → lineage.localRole = .grantor →
    ∀ k payload, s.Holds codec id k payload → s.CoveredAt codec id k payload
  stored : ∀ id k, (s.consent.find (id, k)).isSome → ∃ row, s.revisions.find (id, k) = some row

namespace Store

theorem Holds.mono {id : Uuid} {k : Nat} {payload : HailGrant} (h : s.Holds codec id k payload)
    (hretains : s.Retains t) : t.Holds codec id k payload := by
  obtain ⟨row, hrow, hpayload⟩ := h
  exact ⟨row, hretains _ _ hrow, hpayload⟩

/-- Coverage of a revision survives evidence for later revisions only. -/
theorem CoveredAt.mono {id : Uuid} {k : Nat} {payload : HailGrant}
    (h : s.CoveredAt codec id k payload) (hretains : s.Retains t)
    (hconsent : ∀ q, q ≤ k → t.consent.find (id, q) = s.consent.find (id, q)) :
    t.CoveredAt codec id k payload := by
  obtain ⟨k', payload', hle, hholds, hsome, hnone, hrest⟩ := h
  refine ⟨k', payload', hle, hholds.mono hretains, ?_, fun q hlt hq => ?_, hrest⟩
  · rw [hconsent k' hle]
    exact hsome
  · rw [hconsent q hq]
    exact hnone q hlt hq

theorem empty_covered : (∅ : Store).Covered codec := by
  constructor
  · intro id lineage hl
    exact absurd (hl.symm.trans (Table.find_empty id)) (by simp)
  · intro id k hk
    exact absurd ((Table.find_empty (id, k)) ▸ hk) (by simp)

/-- A store that only gains revisions of grants it is the grantee of keeps its coverage. -/
theorem Covered.frame (h : s.Covered codec) (hretains : s.Retains t)
    (hconsent : t.consent = s.consent)
    (hlineage : ∀ id lineage, t.lineages.find id = some lineage → lineage.localRole = .grantor →
      ∃ lineage', s.lineages.find id = some lineage' ∧ lineage'.localRole = .grantor ∧
        ∀ k, t.revisions.find (id, k) = s.revisions.find (id, k)) : t.Covered codec := by
  constructor
  · intro id lineage hl hrole k payload ⟨row, hrow, hpayload⟩
    obtain ⟨lineage', hl', hrole', hsame⟩ := hlineage id lineage hl hrole
    rw [hsame] at hrow
    have hcovered := h.covered id lineage' hl' hrole' k payload ⟨row, hrow, hpayload⟩
    exact hcovered.mono hretains fun q _ => by rw [hconsent]
  · intro id k hk
    rw [hconsent] at hk
    obtain ⟨row, hrow⟩ := h.stored id k hk
    exact ⟨row, hretains _ _ hrow⟩

variable {ambient : Ambient}

theorem Covered.insertAuthoritativeRevision1 (h : s.Covered codec) (hs : s.Integrity codec)
    {input : AuthoritativeGrantRevision1}
    (hok : s.insertAuthoritativeRevision1 codec ambient input = .ok t) : t.Covered codec := by
  obtain ⟨hcan, rfl⟩ := insertAuthoritativeRevision1_ok hok
  have hretains : s.Retains _ := hcan.retains .grantor
  have hnone : ∀ k, s.revisions.find (input.revision.payload.grantId, k) = none := by
    intro k
    cases hrow : s.revisions.find (input.revision.payload.grantId, k) with
    | none => rfl
    | some row =>
      obtain ⟨l, hl⟩ := hs.owned _ _ _ hrow
      rw [hcan.absent] at hl
      cases hl
  constructor
  · rintro id lineage hl hrole k payload ⟨row, hrow, hpayload⟩
    by_cases hid : id = input.revision.payload.grantId
    · -- The only revision of the new lineage has the evidence it came with.
      subst hid
      have hk : k = 1 := by
        by_contra hk
        have hold : s.revisions.find (input.revision.payload.grantId, k) = some row := by
          rwa [insertPublication, insertConsent, begun, hcan.first,
            Table.find_insert_of_ne _ _ (by simp [hk])] at hrow
        rw [hnone] at hold
        cases hold
      subst hk
      refine ⟨1, payload, le_refl 1, ⟨row, hrow, hpayload⟩, ?_, fun q h1 h2 => by omega, rfl,
        fun hactive => ⟨hactive, .refl payload⟩⟩
      simp [insertPublication, insertConsent, hcan.first]
    · have hl' : s.lineages.find id = some lineage := by
        rwa [insertPublication, insertConsent, begun, Table.find_insert_of_ne _ _ hid] at hl
      have hrow' : s.revisions.find (id, k) = some row := by
        rwa [insertPublication, insertConsent, begun, find_insert_other hid] at hrow
      refine (h.covered id lineage hl' hrole k payload ⟨row, hrow', hpayload⟩).mono hretains ?_
      intro q _
      rw [insertPublication, insertConsent, Table.find_insert_of_ne _ _ (by simp [hid])]
      rfl
  · intro id k hk
    by_cases hkey : (id, k) = (input.revision.payload.grantId, input.revision.payload.revision)
    · rw [hkey]
      exact ⟨_, Table.find_insert_self _ _ _⟩
    · have hk' : (s.consent.find (id, k)).isSome := by
        rwa [insertPublication, insertConsent, Table.find_insert_of_ne _ _ hkey] at hk
      obtain ⟨row, hrow⟩ := h.stored id k hk'
      exact ⟨row, hretains _ _ hrow⟩

/-- Evidence is written for the updated revision alone, and only when there is some. -/
theorem find_withConsent {payload : HailGrant} {consent : Option GrantConsentEvidence}
    {key : Uuid × Nat} : ((s.withConsent payload consent).consent.find key).isSome ↔
      (key = (payload.grantId, payload.revision) ∧ consent.isSome) ∨
        (s.consent.find key).isSome := by
  cases consent with
  | none => simp [withConsent]
  | some evidence =>
    by_cases hkey : key = (payload.grantId, payload.revision)
    · simp [withConsent, insertConsent, hkey]
    · simp [withConsent, insertConsent, Table.find_insert_of_ne _ _ hkey, hkey]

/-- A revision that extends a covered lineage under `checkUpdate` is covered. -/
theorem CoveredAt.next {id : Uuid} {n : Nat} {current next : HailGrant}
    {consent : Option GrantConsentEvidence} (h : s.CoveredAt codec id n current)
    (hactive : current.status = .active) (hchecked : UpdateChecked current next consent)
    (hnone : consent = none) (hretains : s.Retains t)
    (hconsent : ∀ q, t.consent.find (id, q) = s.consent.find (id, q))
    (hlast : s.consent.find (id, n + 1) = none) : t.CoveredAt codec id (n + 1) next := by
  have hrestricts := hchecked.restricts hnone
  obtain ⟨k', payload', hle, hholds, hsome, hgap, hcontext, hwithin⟩ := h
  refine ⟨k', payload', by omega, hholds.mono hretains, by rwa [hconsent], fun q hlt hq => ?_,
    (hchecked.retained hrestricts).trans hcontext, fun hnext => ?_⟩
  · rw [hconsent]
    rcases Nat.lt_or_ge n q with hq' | hq'
    · obtain rfl : q = n + 1 := by omega
      exact hlast
    · exact hgap q hlt hq'
  · obtain ⟨hactive', hcurrent⟩ := hwithin hactive
    have hexpands : expandsAuthorization current next = false := by
      simp only [restrictsAuthorization, Bool.and_eq_true, Bool.not_eq_true'] at hrestricts
      exact hrestricts.1
    exact ⟨hactive', (within_of_not_expands hnext hexpands).trans hcurrent⟩

theorem Covered.appendAuthoritativeUpdate (h : s.Covered codec) (hs : s.Integrity codec)
    {input : AuthoritativeGrantUpdate}
    (hok : s.appendAuthoritativeUpdate codec ambient input = .ok t) : t.Covered codec := by
  obtain ⟨lineage, row, current, destination, hcan, hgrantor, hof, hchecked, rfl⟩ :=
    appendAuthoritativeUpdate_ok hok
  have hsound := hs.sound _ _ hcan.lineage_eq
  have hunstored : s.consent.find
      (input.revision.payload.grantId, input.revision.payload.revision) = none := by
    cases hfind : s.consent.find
        (input.revision.payload.grantId, input.revision.payload.revision) with
    | none => rfl
    | some evidence =>
      obtain ⟨r, hr⟩ := h.stored _ _ (by rw [hfind]; rfl)
      rw [hcan.unstored] at hr
      cases hr
  have hretains : s.Retains (((s.extended lineage input.revision).withConsent
      input.revision.payload input.consent).insertPublication ambient input.revision.payload
        destination) := by
    intro key r hr
    simp only [insertPublication, withConsent_revisions]
    exact hcan.retains key r hr
  have hother : ∀ key, key ≠ (input.revision.payload.grantId, input.revision.payload.revision) →
      (((s.extended lineage input.revision).withConsent input.revision.payload
        input.consent).insertPublication ambient input.revision.payload
          destination).consent.find key = s.consent.find key := by
    intro key hkey
    cases input.consent with
    | none => rfl
    | some evidence => exact Table.find_insert_of_ne _ _ hkey
  constructor
  · rintro id l hl hrole k payload ⟨r, hr, hpayload⟩
    simp only [insertPublication, withConsent_lineages, withConsent_revisions] at hl hr
    by_cases hid : id = input.revision.payload.grantId
    · subst hid
      by_cases hk : k = input.revision.payload.revision
      · subst hk
        have heq : payload = input.revision.payload := by
          simp only [extended, Table.find_insert_self, Option.some.injEq] at hr
          rw [← hr] at hpayload
          exact Option.some.inj (hpayload.symm.trans hcan.genuine.inspected)
        subst heq
        cases hconsent : input.consent with
        | none =>
          have hcurrent := h.covered _ _ hcan.lineage_eq hgrantor _ current
            ⟨row, hcan.row_eq, hof.inspected⟩
          obtain ⟨last, hlast, -, hstatus⟩ := hsound.current
          obtain rfl : row = last := Option.some.inj (hcan.row_eq.symm.trans hlast)
          have hactive : current.status = .active :=
            hof.status_eq.symm.trans (hstatus.trans hcan.active)
          rw [hcan.next]
          rw [hcan.next] at hunstored
          rw [hconsent] at hretains
          exact hcurrent.next hactive hchecked hconsent hretains (fun q => rfl) hunstored
        | some evidence =>
          refine ⟨_, input.revision.payload, le_refl _, ⟨r, ?_, hpayload⟩, ?_,
            fun q h1 h2 => by omega, rfl, fun hactive => ⟨hactive, .refl _⟩⟩
          · exact hr
          · exact find_withConsent.mpr (.inl ⟨rfl, rfl⟩)
      · have hr' : s.revisions.find (input.revision.payload.grantId, k) = some r := by
          rwa [extended, Table.find_insert_of_ne _ _ (by simp [hk])] at hr
        have hbound := (hsound.stored k).mp ⟨r, hr'⟩
        have hnext := hcan.next
        refine (h.covered _ _ hcan.lineage_eq hgrantor k payload ⟨r, hr', hpayload⟩).mono
          hretains fun q hq => hother _ ?_
        simp only [ne_eq, Prod.mk.injEq, true_and]
        omega
    · have hl' : s.lineages.find id = some l := by
        rwa [extended, Table.find_insert_of_ne _ _ hid] at hl
      have hr' : s.revisions.find (id, k) = some r := by
        rwa [extended, find_insert_other hid] at hr
      refine (h.covered id l hl' hrole k payload ⟨r, hr', hpayload⟩).mono hretains fun q _ =>
        hother _ ?_
      simp [hid]
  · intro id k hk
    rcases find_withConsent.mp hk with ⟨hkey, -⟩ | hold
    · rw [hkey]
      simp only [insertPublication, withConsent_revisions]
      exact ⟨_, Table.find_insert_self _ _ _⟩
    · obtain ⟨r, hr⟩ := h.stored id k hold
      exact ⟨r, hretains _ _ hr⟩

/-- Receiving writes no evidence and no revision of an authoritative lineage. -/
theorem Covered.acceptReceivedRevision (h : s.Covered codec) {input : ReceivedGrantRevision}
    (hok : s.acceptReceivedRevision codec ambient input = .ok t) : t.Covered codec := by
  obtain ⟨-, ⟨hcan, rfl⟩ | ⟨lineage, hlineage, -, -, hcase⟩⟩ := acceptReceivedRevision_ok hok
  · refine h.frame (hcan.retains .grantee) rfl fun id l hl hrole => ?_
    by_cases hid : id = input.signed.payload.grantId
    · subst hid
      rw [begun, Table.find_insert_self] at hl
      cases hl
      cases hrole
    · refine ⟨l, ?_, hrole, find_insert_other hid⟩
      rwa [begun, Table.find_insert_of_ne _ _ hid] at hl
  · obtain ⟨-, -, rfl⟩ | ⟨-, -, rfl⟩ | ⟨hgrantee, row, hcan, rfl⟩ := hcase
    · exact h.frame (.refl s) rfl fun id l hl hrole => ⟨l, hl, hrole, fun k => rfl⟩
    · exact h
    · refine h.frame hcan.retains rfl fun id l hl hrole => ?_
      by_cases hid : id = input.signed.payload.grantId
      · subst hid
        rw [extended, Table.find_insert_self] at hl
        cases hl
        simp only [Lineage.advance] at hrole
        rw [hgrantee] at hrole
        cases hrole
      · refine ⟨l, ?_, hrole, find_insert_other hid⟩
        rwa [extended, Table.find_insert_of_ne _ _ hid] at hl

end Store

/-- Coverage through every event at a provider. -/
theorem Provider.covered_of_reachable {serviceBase : String} {p : Provider}
    (h : Reachable (Provider.step codec serviceBase) ⟨∅, []⟩ p) :
    p.Sound codec ∧ p.store.Covered codec := by
  refine h.invariant (I := fun p => p.Sound codec ∧ p.store.Covered codec)
    ⟨⟨Store.empty_integrity, by simp⟩, Store.empty_covered⟩ ?_
  intro p q event hinvariant _ hstep
  obtain ⟨hsound, hcovered⟩ := hinvariant
  refine ⟨hsound.step event hstep, ?_⟩
  cases event with
  | insertAuthoritativeRevision1 ambient input =>
    cases hstep
    cases hok : p.store.insertAuthoritativeRevision1 codec ambient input with
    | error _ => exact hcovered
    | ok t => exact hcovered.insertAuthoritativeRevision1 hsound.store hok
  | appendAuthoritativeUpdate ambient input =>
    cases hstep
    cases hok : p.store.appendAuthoritativeUpdate codec ambient input with
    | error _ => exact hcovered
    | ok t => exact hcovered.appendAuthoritativeUpdate hsound.store hok
  | receive auth wallClock request =>
    simp only [Provider.step] at hstep
    cases hreceive : Grants.receive codec serviceBase auth wallClock request with
    | error _ =>
      simp only [hreceive, Option.some.injEq] at hstep
      exact hstep ▸ hcovered
    | ok call =>
      simp only [hreceive, Option.some.injEq] at hstep
      exact hstep ▸ hcovered
  | advance index ambient =>
    simp only [Provider.step] at hstep
    cases hcall : p.calls[index]? with
    | none => simp [hcall] at hstep
    | some call =>
      have hnext : (call.advance codec p.store ambient).1.Covered codec := by
        rcases call.advance_store codec p.store ambient with heq | ⟨t, hok, heq⟩
        · rw [heq]
          exact hcovered
        · rw [heq]
          exact hcovered.acceptReceivedRevision hok
      rw [hcall] at hstep
      rcases hadvance : call.advance codec p.store ambient with ⟨store, call' | answer⟩ <;>
        simp only [hadvance, Option.some.injEq] at hstep hnext <;>
        exact hstep ▸ hnext

/-- At every stored revision of an authoritative lineage, what the revision authorizes is
authorized by the latest revision up to it that has consent evidence, and both carry the same
consent context; an active revision keeps within its categories and its expiry. -/
theorem consent_covers_authorization {serviceBase : String} {p : Provider}
    (h : Reachable (Provider.step codec serviceBase) ⟨∅, []⟩ p) {id : Uuid} {lineage : Lineage}
    (hlineage : p.store.lineages.find id = some lineage) (hrole : lineage.localRole = .grantor)
    {r : Nat} {payload : HailGrant} (hpayload : p.store.Holds codec id r payload) :
    ∃ r' payload', r' ≤ r ∧ p.store.Holds codec id r' payload' ∧
      (p.store.consent.find (id, r')).isSome ∧
      (∀ q, r' < q → q ≤ r → p.store.consent.find (id, q) = none) ∧
      payload.authorizes ⊆ payload'.authorizes ∧
      payload.consentContext = payload'.consentContext ∧
      (payload.status = .active → Within payload payload') := by
  obtain ⟨-, hcovered⟩ := Provider.covered_of_reachable h
  obtain ⟨r', payload', hle, hholds, hsome, hnone, hcontext, hwithin⟩ :=
    hcovered.covered id lineage hlineage hrole r payload hpayload
  refine ⟨r', payload', hle, hholds, hsome, hnone, ?_, hcontext, fun ha => (hwithin ha).2⟩
  cases hstatus : payload.status with
  | active =>
    obtain ⟨hactive, hin⟩ := hwithin hstatus
    exact hin.authorizes_subset hactive
  | revoked =>
    rw [authorizes_of_revoked hstatus]
    exact Set.empty_subset _

/-- Alice's restriction without fresh evidence stays within the grant she consented to. -/
theorem consent_covers_restriction : ∃ p lineage payload,
    exec (Provider.step Sample.sampleCodec "https://alice.example/hail") ⟨∅, []⟩
      Sample.grantAndRestrict = some p ∧
    p.store.lineages.find Sample.grantId = some lineage ∧ lineage.localRole = .grantor ∧
    p.store.Holds Sample.sampleCodec Sample.grantId 2 payload ∧
    ∃ r' payload', r' ≤ 2 ∧ p.store.Holds Sample.sampleCodec Sample.grantId r' payload' ∧
      payload.authorizes ⊆ payload'.authorizes := by
  have hrun : ((exec (Provider.step Sample.sampleCodec "https://alice.example/hail") ⟨∅, []⟩
      Sample.grantAndRestrict).bind fun p =>
        (p.store.lineages.find Sample.grantId).bind fun lineage =>
          (p.store.revisions.find (Sample.grantId, 2)).map fun row =>
            (lineage.localRole, (Sample.sampleCodec.inspectGrant row.cose).isSome)) =
      some (.grantor, true) := by decide +kernel
  simp only [Option.bind_eq_some_iff, Option.map_eq_some_iff, Prod.mk.injEq,
    Option.isSome_iff_exists] at hrun
  obtain ⟨p, hp, lineage, hlineage, row, hrow, hrole, payload, hinspect⟩ := hrun
  have hholds : p.store.Holds Sample.sampleCodec Sample.grantId 2 payload := ⟨row, hrow, hinspect⟩
  obtain ⟨r', payload', hle, hholds', -, -, hsubset, -⟩ :=
    consent_covers_authorization (reachable_of_exec hp) hlineage hrole hholds
  exact ⟨p, lineage, payload, hp, hlineage, hrole, hholds, r', payload', hle, hholds', hsubset⟩

end HailProto.Grants
