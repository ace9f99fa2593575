import HailProto.Custody.Successors

/-!
# A transition re-signs the grants of its account

The successors a materialization installs are the prepared ones, over the revisions they were
prepared from: the fence keeps every other writer out between the two. The one gap is before the
fence, between the review of `prepareOwner` and its transaction, so the results below are about
runs in which what the owner reviewed is still there when it is journaled.
-/

namespace HailProto.Custody

open Server Grants

variable {platform : Platform} {serviceBase : String} {external : External} {clock : Nat}

namespace Store

variable {s t : Store}

theorem HasCustody.congr {accountId : Uuid} {key : String} {direction : Direction}
    (h : s.HasCustody accountId key direction) (hportable : t.portable = s.portable)
    (hmanaged : t.managed = s.managed) : t.HasCustody accountId key direction := by
  cases h with
  | managed hrow hkey hnone =>
    exact .managed (by rw [hmanaged]; exact hrow) hkey (by rw [hportable]; exact hnone)
  | portable hrow hkey hnone =>
    exact .portable (by rw [hportable]; exact hrow) hkey (by rw [hmanaged]; exact hnone)

theorem mem_successorRows {id grantId : Uuid} {row : Successor} :
    (grantId, row) ∈ s.successorRows id ↔ s.successors.find (id, grantId) = some row := by
  simp only [successorRows, List.mem_insertionSort, List.mem_filterMap, Prod.exists,
    Table.mem_rows]
  constructor
  · rintro ⟨id', grantId', row', hrow, he⟩
    split at he
    · rename_i hid
      cases he
      exact hid ▸ hrow
    · cases he
  · intro hrow
    exact ⟨id, grantId, row, hrow, if_pos rfl⟩

/-- A transition has one successor for a grant. -/
theorem nodup_successorRows (id : Uuid) : ((s.successorRows id).map Prod.fst).Nodup := by
  unfold successorRows
  refine ((List.perm_insertionSort _ _).map Prod.fst).nodup_iff.2 (List.pairwise_map.2 ?_)
  refine List.Pairwise.filterMap _ ?_ s.successors.pairwise_rows
  rintro ⟨⟨a, g⟩, row⟩ ⟨⟨a', g'⟩, row'⟩ hne b hb b' hb' heq
  simp only [Option.ite_none_right_eq_some, Option.some.injEq] at hb hb'
  obtain ⟨rfl, rfl⟩ := hb
  obtain ⟨rfl, rfl⟩ := hb'
  exact hne (congrArg (Prod.mk _) heq)

/-- The payload and the stored row of an installed successor. -/
structure Installed (platform : Platform) (evidence : TransitionEvidence)
    (before after : Grants.Store) (grantId : Uuid) (row : Successor) : Prop where
  lineage : after.lineages.find grantId = (before.lineages.find grantId).map fun lineage =>
    { lineage with
      currentRevision := row.successorRevision
      currentDigest := row.successorDigest }
  revision : ∃ payload, platform.inspectGrant row.successorCose = some payload ∧
    ∀ k, after.revisions.find (grantId, k) = if k = row.successorRevision then
      some (Grants.Store.revisionRow ⟨evidence.accountId, .grantor, payload, row.successorCose,
        row.successorDigest, evidence.newIdentityKey⟩)
      else before.revisions.find (grantId, k)

/-- Installing successors advances exactly their grants. -/
theorem installSuccessors_ok {evidence : TransitionEvidence}
    {successors : List (Uuid × Successor)} (hnodup : (successors.map Prod.fst).Nodup)
    (h : successors.foldlM (fun s successor =>
      s.installSuccessor platform clock evidence successor) s = .ok t) :
    (∀ grantId, grantId ∉ successors.map Prod.fst →
      t.grants.lineages.find grantId = s.grants.lineages.find grantId ∧
      (∀ k, t.grants.revisions.find (grantId, k) = s.grants.revisions.find (grantId, k)) ∧
      ∀ k, t.grants.publications.find (grantId, k) = s.grants.publications.find (grantId, k)) ∧
    ∀ successor ∈ successors,
      Installed platform evidence s.grants t.grants successor.1 successor.2 := by
  induction successors generalizing s with
  | nil =>
    simp only [List.foldlM_nil, pure_eq_ok, Except.ok.injEq] at h
    subst h
    simp
  | cons successor rest ih =>
    rw [List.foldlM_cons, bind_eq_ok] at h
    obtain ⟨s', hfirst, hrest⟩ := h
    obtain ⟨payload, hpayload, rfl⟩ := installSuccessor_ok hfirst
    rw [List.map_cons, List.nodup_cons] at hnodup
    obtain ⟨hother, hinstalled⟩ := ih hnodup.2 hrest
    have hframe : ∀ grantId, grantId ≠ successor.1 →
        (installedGrants s.grants clock successor.1 successor.2
          ⟨evidence.accountId, .grantor, payload, successor.2.successorCose,
            successor.2.successorDigest, evidence.newIdentityKey⟩).lineages.find grantId =
          s.grants.lineages.find grantId ∧
        (∀ k, (installedGrants s.grants clock successor.1 successor.2
          ⟨evidence.accountId, .grantor, payload, successor.2.successorCose,
            successor.2.successorDigest, evidence.newIdentityKey⟩).revisions.find (grantId, k) =
          s.grants.revisions.find (grantId, k)) ∧
        ∀ k, (installedGrants s.grants clock successor.1 successor.2
          ⟨evidence.accountId, .grantor, payload, successor.2.successorCose,
            successor.2.successorDigest, evidence.newIdentityKey⟩).publications.find
              (grantId, k) = s.grants.publications.find (grantId, k) := by
      intro grantId hne
      refine ⟨?_, fun k => ?_, fun k => ?_⟩
      · rw [installedGrants, Table.find_update, if_neg hne]
      · rw [installedGrants, Table.find_insert_of_ne]
        exact fun he => hne (congrArg Prod.fst he)
      · rw [installedGrants, Table.find_insert_of_ne]
        exact fun he => hne (congrArg Prod.fst he)
    refine ⟨fun grantId hmem => ?_, ?_⟩
    · rw [List.map_cons, List.mem_cons, not_or] at hmem
      obtain ⟨hlineage, hrevisions, hpublications⟩ := hother grantId hmem.2
      obtain ⟨hlineage', hrevisions', hpublications'⟩ := hframe grantId hmem.1
      exact ⟨hlineage.trans hlineage', fun k => (hrevisions k).trans (hrevisions' k),
        fun k => (hpublications k).trans (hpublications' k)⟩
    · refine List.forall_mem_cons.2 ⟨?_, fun other hmem => ?_⟩
      · obtain ⟨hlineage, hrevisions, _⟩ := hother successor.1 hnodup.1
        refine ⟨?_, payload, hpayload, fun k => ?_⟩
        · rw [hlineage]
          simp only [installedGrants, Table.find_update, if_true]
        · rw [hrevisions]
          simp only [installedGrants, Table.find_insert, Prod.mk.injEq, true_and]
      · have hne : other.1 ≠ successor.1 := by
          intro he
          exact hnodup.1 (he ▸ List.mem_map_of_mem hmem)
        obtain ⟨hlineage', hrevisions', _⟩ := hframe other.1 hne
        obtain ⟨hlineage, payload', hpayload', hrevisions⟩ := hinstalled other hmem
        refine ⟨?_, payload', hpayload', fun k => ?_⟩
        · rw [hlineage]
          exact congrArg _ hlineage'
        · rw [hrevisions]
          split
          · rfl
          · exact hrevisions' k

/-- The tables after a materialization. -/
structure Resigns (platform : Platform) (s t : Store) (id : Uuid) (row : TransitionEvidence) :
    Prop where
  other : ∀ grantId, s.successors.find (id, grantId) = none →
    t.grants.lineages.find grantId = s.grants.lineages.find grantId ∧
    (∀ k, t.grants.revisions.find (grantId, k) = s.grants.revisions.find (grantId, k)) ∧
    ((∀ lineage, s.grants.lineages.find grantId = some lineage →
        lineage.localAccountId ≠ row.accountId) →
      ∀ k, t.grants.publications.find (grantId, k) = s.grants.publications.find (grantId, k))
  installed : ∀ grantId successor, s.successors.find (id, grantId) = some successor →
    Installed platform row s.grants t.grants grantId successor
  custody : t.HasCustody row.accountId row.newIdentityKey row.direction
  generation : ∃ n, s.generations.find row.accountId = some n ∧
    t.generations.find row.accountId = some (n + 1)

theorem Materialized.resigns {id : Uuid} {row current : TransitionEvidence}
    (h : Materialized platform external clock s t id row current) :
    Resigns platform s t id row := by
  obtain ⟨signed, retired, generation, s₁, s₂, s₃, binding, address, _, _, hgeneration, _, _, h₁,
    h₂, h₃, rfl⟩ := h.run
  obtain ⟨hcustody, h₁⟩ := exchangeCustody_ok h₁
  obtain ⟨hother, hinstalled⟩ := installSuccessors_ok (s.nodup_successorRows id) h₂
  have h₂ := installSuccessors_frame h₂
  have h₃ := selectBinding_ok h₃
  have hgrants₁ : s₁.grants = s.grants := by rw [h₁]
  have hgrants₃ : s₃.grants = s₂.grants := by rw [h₃]
  rw [hgrants₁] at hother hinstalled
  refine ⟨fun grantId habsent => ?_, fun grantId successor hrow => ?_, ?_, generation,
    hgeneration, ?_⟩
  · have hmem : grantId ∉ (s.successorRows id).map Prod.fst := by
      intro hmem
      obtain ⟨⟨_, successor⟩, hsuccessor, rfl⟩ := List.mem_map.1 hmem
      rw [mem_successorRows.1 hsuccessor] at habsent
      cases habsent
    obtain ⟨hlineage, hrevisions, hpublications⟩ := hother grantId hmem
    refine ⟨?_, fun k => ?_, fun hnot k => ?_⟩
    · simp only [completeTransition, endLeases, hgrants₃, hlineage]
    · simp only [completeTransition, endLeases, hgrants₃, hrevisions]
    · have howner : ((s.grants.lineages.find grantId).any fun lineage =>
          decide (lineage.localAccountId = row.accountId)) = false := by
        cases hfind : s.grants.lineages.find grantId with
        | none => rfl
        | some lineage => simpa using hnot lineage hfind
      simp only [completeTransition, endLeases, hgrants₃, Table.find_mapRows, hlineage,
        hpublications, howner, Bool.false_eq_true, if_false, Option.map_id']
  · have hmem : (grantId, successor) ∈ s.successorRows id := mem_successorRows.2 hrow
    obtain ⟨hlineage, payload, hpayload, hrevisions⟩ := hinstalled _ hmem
    refine ⟨?_, payload, hpayload, fun k => ?_⟩
    · simp only [completeTransition, endLeases, hgrants₃, hlineage]
    · simp only [completeTransition, endLeases, hgrants₃, hrevisions]
  · have hportable : s₃.portable = s₁.portable := by rw [h₃, h₂]
    have hmanaged : s₃.managed = s₁.managed := by rw [h₃, h₂]
    exact hcustody.congr hportable hmanaged
  · have hgenerations : s₃.generations = s.generations := by rw [h₃, h₂, h₁]
    simp only [completeTransition, endLeases, hgenerations, Table.find_update, if_true,
      hgeneration, Option.map_some]

end Store

section Rooted

variable {grants grants' : Grants.Store}

theorem GrantsRooted.of_eq (h : GrantsRooted platform grants)
    (hlineages : grants'.lineages = grants.lineages)
    (hrevisions : grants'.revisions = grants.revisions) : GrantsRooted platform grants' := by
  intro id lineage hlineage
  rw [hlineages] at hlineage
  rw [hrevisions]
  exact h id lineage hlineage

/-- A lineage whose new current revision is stored leaves every lineage rooted. -/
theorem GrantsRooted.insert (h : GrantsRooted platform grants) {grantId : Uuid}
    {lineage : Lineage} {revision : Revision} {payload : HailGrant}
    (hinspected : platform.inspectGrant revision.cose = some payload)
    (hnumber : payload.revision = lineage.currentRevision)
    (hlineages : grants'.lineages = grants.lineages.insert grantId lineage)
    (hrevisions : grants'.revisions =
      grants.revisions.insert (grantId, lineage.currentRevision) revision) :
    GrantsRooted platform grants' := by
  intro id found hfound
  rw [hlineages, Table.find_insert] at hfound
  split at hfound
  · rename_i hid
    cases hfound
    subst hid
    exact ⟨revision, payload, by rw [hrevisions, Table.find_insert_self], hinspected, hnumber⟩
  · rename_i hid
    obtain ⟨revision', payload', hstored, hrest⟩ := h id found hfound
    refine ⟨revision', payload', ?_, hrest⟩
    rw [hrevisions, Table.find_insert_of_ne]
    · exact hstored
    · exact fun he => hid (congrArg Prod.fst he)

theorem GrantsRooted.begun (h : GrantsRooted platform grants) {input : SignedGrantRevision}
    {role : LocalRole} (hcan : grants.CanBegin platform.toCodec input)
    (hlineages : grants'.lineages = (grants.begun input role).lineages)
    (hrevisions : grants'.revisions = (grants.begun input role).revisions) :
    GrantsRooted platform grants' := by
  have hinspected : platform.inspectGrant (Grants.Store.revisionRow input).cose =
      some input.payload := hcan.genuine.inspected
  refine h.insert hinspected hcan.first hlineages ?_
  rw [hrevisions, Grants.Store.begun, hcan.first]

theorem GrantsRooted.extended (h : GrantsRooted platform grants) {input : SignedGrantRevision}
    {lineage : Lineage} (hinspected : platform.inspectGrant input.representation =
      some input.payload)
    (hlineages : grants'.lineages = (grants.extended lineage input).lineages)
    (hrevisions : grants'.revisions = (grants.extended lineage input).revisions) :
    GrantsRooted platform grants' := by
  have hstored : platform.inspectGrant (Grants.Store.revisionRow input).cose =
      some input.payload := hinspected
  exact h.insert hstored rfl hlineages hrevisions

/-- Every write of the grant repository leaves every lineage rooted. -/
theorem GrantWrite.run_rooted {ambient : Grants.Ambient} {context : QueueContext}
    {write : GrantWrite} (hrooted : GrantsRooted platform grants)
    (h : write.run platform grants ambient context = .ok grants') :
    GrantsRooted platform grants' := by
  cases write with
  | create input =>
    obtain ⟨hcan, rfl⟩ := Grants.Store.insertAuthoritativeRevision1_ok h
    exact hrooted.begun hcan rfl rfl
  | update input =>
    obtain ⟨lineage, row, current, destination, hcan, _, _, _, rfl⟩ :=
      Grants.Store.appendAuthoritativeUpdate_ok h
    exact hrooted.extended hcan.genuine.inspected (Grants.Store.withConsent_lineages _ _)
      (Grants.Store.withConsent_revisions _ _)
  | receive input =>
    obtain ⟨hgenuine, ⟨hcan, rfl⟩ | ⟨lineage, _, _, _, ⟨_, _, rfl⟩ | ⟨_, _, rfl⟩ |
      ⟨_, row, hcan, rfl⟩⟩⟩ := Grants.Store.acceptReceivedRevision_ok h
    · exact hrooted.begun hcan rfl rfl
    · exact hrooted.of_eq rfl rfl
    · exact hrooted
    · exact hrooted.extended hgenuine.inspected rfl rfl
  | claim locked leaseToken leaseDurationMs =>
    cases h
    unfold Grants.Store.claimDuePublication
    split
    · exact hrooted
    · split
      · exact hrooted
      · split
        · exact hrooted
        · split <;> exact hrooted.of_eq rfl rfl
  | finish result state nextAttemptAt etag =>
    simp only [GrantWrite.run, Grants.Store.finishPublication] at h
    split at h
    · cases h
    · split at h
      · simp only [bind_eq_ok, Except.ok.injEq] at h
        obtain ⟨_, _, rfl⟩ := h
        exact hrooted.of_eq rfl rfl
      · cases h

end Rooted

/-- The owner's signatures in a draft are over the grants it reviewed. -/
def DraftSigned (platform : Platform) (request : OwnerRequest) (draft : OwnerDraft) : Prop :=
  draft.review.activeGrants.mapM (ownerSuccessor platform draft.review.authority.did
    draft.newIdentityKey request.signedGrants) = .ok draft.successors

theorem Call.next_drafts {call : Call} {s t : Store} {request : OwnerRequest}
    {draft : OwnerDraft}
    (h : call.next platform serviceBase s external clock = .ok (t, .ownerStoring request draft)) :
    DraftSigned platform request draft := by
  cases call with
  | ownerGrants request' signed authority generation =>
    simp only [Call.next, bind_eq_ok, Except.ok.injEq, Prod.mk.injEq,
      Call.ownerStoring.injEq] at h
    obtain ⟨review, _, draft', hdraft, _, rfl, rfl⟩ := h
    obtain ⟨rfl, hkey, hsuccessors⟩ := ownerDraft_ok hdraft
    unfold DraftSigned
    rw [hkey]
    exact hsuccessors
  | prepareReading accountId =>
    simp only [Call.next, bind_eq_ok] at h
    obtain ⟨_, _, h⟩ := h
    cases hopen : s.openTransition accountId <;> simp [hopen] at h
  | ownerReading request' =>
    simp only [Call.next, bind_eq_ok] at h
    obtain ⟨_, _, h⟩ := h
    cases hopen : s.openTransition request'.accountId <;> simp [hopen] at h
  | _ => simp [Call.next] at h

namespace System

/-- Where an event is the transaction of `prepareOwner`, reviewing the account's grants again
still yields what the owner reviewed and signed. -/
def ReviewCurrent (platform : Platform) (p : System) : Event → Prop
  | .advance id _ => ∀ request draft, p.calls.find id = some (.ownerStoring request draft) →
      p.store.openTransition request.accountId = none →
      (p.store.activeGrants request.accountId).mapM
        (reviewGrant platform draft.review.binding.issuedAt) = .ok draft.review.activeGrants
  | _ => True

/-- The invariant of a run whose reviews are current. -/
structure Prepared (platform : Platform) (p : System) : Prop where
  sound : p.Sound
  rooted : GrantsRooted platform p.store.grants
  journaled : ∀ id grantId row, p.store.successors.find (id, grantId) = some row →
    ∃ transition, p.store.transitions.find id = some transition
  covered : ∀ id row, p.store.transitions.find id = some row → row.state.isOpen = true →
    Covered platform p.store id row.evidence
  drafts : ∀ callId request draft, p.calls.find callId = some (.ownerStoring request draft) →
    DraftSigned platform request draft

theorem Initial.prepared {p : System} (h : p.Initial)
    (hrooted : GrantsRooted platform p.store.grants) : p.Prepared platform := by
  refine ⟨h.sound, hrooted, fun id grantId row hrow => ?_, fun id row hrow => ?_,
    fun callId request draft hcall => ?_⟩
  · rw [h.successors, Table.find_empty] at hrow
    cases hrow
  · rw [h.transitions, Table.find_empty] at hrow
    cases hrow
  · rw [h.calls, Table.find_empty] at hcall
    cases hcall

/-- A write of another component leaves the account of an open preparation alone. -/
theorem Prepared.grant {p : System} (h : p.Prepared platform) {session : Session}
    {authority : Option AuthorityFault} {leaseFault : Uuid → Option Fault} {write : GrantWrite}
    {grants : Grants.Store} (hordinary : session.Ordinary)
    (hrun : write.run platform p.store.grants
      (p.store.ambient session authority (p.clock * 1000))
      (p.store.queueContext session leaseFault (p.clock * 1000)) = .ok grants) :
    ({ p with store := { p.store with grants } } : System).Prepared platform := by
  refine ⟨⟨⟨h.sound.journal.unique, h.sound.journal.owner⟩, fun id call hcall => ?_⟩,
    GrantWrite.run_rooted h.rooted hrun, h.journaled, fun id row hrow hopen => ?_, h.drafts⟩
  · have hretains : p.store.Retains { p.store with grants } :=
      ⟨fun _ => rfl, fun _ row hrow => ⟨row.state, hrow⟩⟩
    exact (h.sound.calls id call hcall).mono hretains
  · obtain ⟨account, haccount, hdid⟩ :=
      Option.bind_eq_some_iff.1 (h.sound.journal.owner id row hrow)
    have hnone : session.custodyTransition = none := hordinary
    have hfenced : p.store.custodyFenced session row.evidence.accountId = true := by
      simp [Store.custodyFenced, hnone, h.sound.journal.openTransition_eq hrow hopen]
    have hfence := p.store.assertUnfencedAccount_ne_none haccount hdid hfenced
    have htriggers : (p.store.queueContext session leaseFault (p.clock * 1000)).triggers
        row.evidence.accountId ≠ none := by
      obtain ⟨fault, hfault⟩ := Option.ne_none_iff_exists'.1 hfence
      simp [Store.queueContext, hfault]
    exact (h.covered id row hrow hopen).mono (GrantWrite.run_keeps hfence htriggers hrun)
      fun _ => rfl

/-- Journaling covers the new preparation and keeps the cover of the others. -/
theorem Prepared.journal {p : System} {t : Store} (h : p.Prepared platform) {id : Uuid}
    {evidence : TransitionEvidence} {successors : List (Uuid × Successor)}
    (hjournal : p.store.Journaled t id evidence successors)
    (hcovered : Covered platform t id evidence) (id' : Uuid) (row : Transition)
    (hrow : t.transitions.find id' = some row) (hopen : row.state.isOpen = true) :
    Covered platform t id' row.evidence := by
  rw [hjournal.transitions_eq, Table.find_insert] at hrow
  split at hrow
  · rename_i hid
    cases hrow
    exact hid ▸ hcovered
  · rename_i hid
    have hgrants : t.grants = p.store.grants := by rw [hjournal.store]; rfl
    refine (h.covered id' row hrow hopen).mono (hgrants ▸ .refl _ _) fun grantId => ?_
    ext successor
    rw [hjournal.rows]
    exact ⟨fun hor => hor.resolve_right fun hnew => hid hnew.1, .inl⟩

/-- What a materialization leaves of the grants of another account. -/
theorem Prepared.materialize_keeps {p : System} {t : Store} (h : p.Prepared platform)
    {id : Uuid} {row : TransitionEvidence} {signed : SignedOperation}
    (hcurrent : p.store.transitions.find id = some ⟨row, .submissionUnknown signed⟩)
    (hresigns : Store.Resigns platform p.store t id row) {accountId : Uuid}
    (hne : accountId ≠ row.accountId) : GrantsKept p.store.grants t.grants accountId := by
  have hcovered := h.covered id _ hcurrent rfl
  have hfree : ∀ grantId lineage, p.store.grants.lineages.find grantId = some lineage →
      lineage.localAccountId = accountId → p.store.successors.find (id, grantId) = none := by
    intro grantId lineage hlineage howner
    cases hrow : p.store.successors.find (id, grantId) with
    | none => rfl
    | some successor =>
      obtain ⟨lineage', _, _, _, hsucceeds⟩ := hcovered.prepared grantId successor hrow
      rw [hsucceeds.lineage_eq] at hlineage
      cases hlineage
      exact absurd (howner.symm.trans hsucceeds.owner) hne
  refine ⟨fun grantId lineage howner => ?_, fun grantId lineage hlineage howner k => ?_,
    fun grantId lineage hlineage howner k => ?_⟩
  · cases hrow : p.store.successors.find (id, grantId) with
    | none => rw [(hresigns.other grantId hrow).1]
    | some successor =>
      obtain ⟨lineage', _, _, _, hsucceeds⟩ := hcovered.prepared grantId successor hrow
      have hother : lineage'.localAccountId ≠ lineage.localAccountId := by
        rw [hsucceeds.owner, howner]
        exact hne.symm
      rw [(hresigns.installed grantId successor hrow).lineage, hsucceeds.lineage_eq,
        Option.map_some]
      constructor
      · intro he
        cases he
        exact absurd rfl hother
      · intro he
        cases he
        exact absurd rfl hother
  · exact (hresigns.other grantId (hfree grantId lineage hlineage howner)).2.1 k
  · refine (hresigns.other grantId (hfree grantId lineage hlineage howner)).2.2 ?_ k
    intro found hfound
    rw [hlineage] at hfound
    cases hfound
    rw [howner]
    exact hne

/-- A materialization leaves every lineage rooted. -/
theorem Prepared.materialize_rooted {p : System} {t : Store} (h : p.Prepared platform)
    {id : Uuid} {row : TransitionEvidence} {signed : SignedOperation}
    (hcurrent : p.store.transitions.find id = some ⟨row, .submissionUnknown signed⟩)
    (hresigns : Store.Resigns platform p.store t id row) : GrantsRooted platform t.grants := by
  have hcovered := h.covered id _ hcurrent rfl
  intro grantId lineage hlineage
  cases hrow : p.store.successors.find (id, grantId) with
  | none =>
    obtain ⟨hlineages, hrevisions, _⟩ := hresigns.other grantId hrow
    rw [hlineages] at hlineage
    rw [hrevisions]
    exact h.rooted grantId lineage hlineage
  | some successor =>
    obtain ⟨old, revision, payload, next, hsucceeds⟩ := hcovered.prepared grantId successor hrow
    obtain ⟨hnew, payload', hpayload', hrevisions⟩ := hresigns.installed grantId successor hrow
    rw [hnew, hsucceeds.lineage_eq, Option.map_some] at hlineage
    cases hlineage
    have hinspected := platform.inspect_verify hsucceeds.signed
    have hnext : payload' = next := Option.some.inj (hpayload'.symm.trans hinspected)
    exact ⟨_, payload', by rw [hrevisions, if_pos rfl], hpayload',
      hnext ▸ hsucceeds.next_revision⟩

theorem Prepared.step {p q : System} {e : Event} (h : p.Prepared platform)
    (hreview : p.ReviewCurrent platform e)
    (hstep : p.step platform serviceBase e = some q) : q.Prepared platform := by
  have hsound := h.sound.step hstep
  cases e with
  | tick milliseconds =>
    cases hstep
    exact ⟨hsound, h.rooted, h.journaled, h.covered, h.drafts⟩
  | grant session authority leaseFault write =>
    obtain ⟨hordinary, grants, hrun, rfl⟩ := step_grant hstep
    exact h.grant hordinary hrun
  | account session owner =>
    simp only [System.step, Option.ite_none_right_eq_some, Option.some.injEq] at hstep
    exact hstep.2 ▸ h
  | call id call =>
    simp only [System.step, Option.ite_none_right_eq_some, Option.some.injEq] at hstep
    obtain ⟨⟨hstart, _⟩, rfl⟩ := hstep
    refine ⟨hsound, h.rooted, h.journaled, h.covered, fun callId request draft hcall => ?_⟩
    rw [Table.find_insert] at hcall
    split at hcall
    · cases hcall
      cases hstart
    · exact h.drafts callId request draft hcall
  | advance id external =>
    obtain ⟨call, hcall, _, ⟨fault, rfl⟩ | ⟨t, next, hnext, rfl⟩⟩ := step_advance hstep
    · refine ⟨hsound, h.rooted, h.journaled, h.covered, fun callId request draft hfound => ?_⟩
      rw [Table.find_insert] at hfound
      split at hfound
      · cases hfound
      · exact h.drafts callId request draft hfound
    · have hdrafts : ∀ callId request draft,
          (p.calls.insert id next).find callId = some (.ownerStoring request draft) →
            DraftSigned platform request draft := by
        intro callId request draft hfound
        rw [Table.find_insert] at hfound
        split at hfound
        · cases hfound
          exact Call.next_drafts hnext
        · exact h.drafts callId request draft hfound
      have hfresh : ∀ {id' : Uuid}, p.store.transitions.find id' = none →
          ∀ grantId, p.store.successors.find (id', grantId) = none := by
        intro id' habsent grantId
        cases hrow : p.store.successors.find (id', grantId) with
        | none => rfl
        | some row =>
          obtain ⟨transition, htransition⟩ := h.journaled id' grantId row hrow
          rw [habsent] at htransition
          cases htransition
      have hjournaled : ∀ {id' : Uuid} {evidence : TransitionEvidence}
          {successors : List (Uuid × Successor)},
          p.store.Journaled t id' evidence successors → ∀ id'' grantId row,
            t.successors.find (id'', grantId) = some row →
              ∃ transition, t.transitions.find id'' = some transition := by
        intro id' evidence successors hjournal id'' grantId row hrow
        obtain hold | ⟨rfl, _⟩ := (hjournal.rows _ _).1 hrow
        · obtain ⟨transition, htransition⟩ := h.journaled id'' grantId row hold
          obtain ⟨state, hfound⟩ := hjournal.retains.evidence id'' transition htransition
          exact ⟨_, hfound⟩
        · exact ⟨_, by rw [hjournal.transitions_eq, Table.find_insert_self]⟩
      have hchanged := Call.next_changed hnext
      cases hchanged with
      | same => exact ⟨hsound, h.rooted, h.journaled, h.covered, hdrafts⟩
      | prepared _ hsigned hjournal =>
        have hgrants : t.grants = p.store.grants := by rw [hjournal.store]; rfl
        have hcovered := hjournal.covered_prepare (hfresh hjournal.can.absent) h.rooted hsigned
        exact ⟨hsound, hgrants ▸ h.rooted, hjournaled hjournal, h.journal hjournal hcovered,
          hdrafts⟩
      | ownerPrepared hjournal =>
        have hgrants : t.grants = p.store.grants := by rw [hjournal.store]; rfl
        have hcurrent := hreview _ _ hcall hjournal.can.noOpen
        have hcovered := hjournal.covered_owner (hfresh hjournal.can.absent) h.rooted hcurrent
          (h.drafts id _ _ hcall)
        exact ⟨hsound, hgrants ▸ h.rooted, hjournaled hjournal, h.journal hjournal hcovered,
          hdrafts⟩
      | @recorded input row current hcurrent hexpires =>
        refine ⟨hsound, h.rooted, fun id' grantId row hrow => ?_, fun id' row hrow hopen => ?_,
          hdrafts⟩
        · obtain ⟨transition, htransition⟩ := h.journaled id' grantId row hrow
          obtain ⟨state, hfound⟩ := (Store.evidence_insert (t := p.store.withTransition
            input.transitionId _) hcurrent rfl) id' transition htransition
          exact ⟨_, hfound⟩
        · rw [Store.withTransition_transitions, Table.find_insert] at hrow
          split at hrow
          · rename_i hid
            cases hrow
            exact (h.covered id' ⟨current, .prepared⟩ (hid ▸ hcurrent) rfl).mono (.refl _ _)
              fun _ => rfl
          · exact (h.covered id' row hrow hopen).mono (.refl _ _) fun _ => rfl
      | @materialized input row current _ hrun =>
        obtain ⟨signed, retired, hcurrent, htransitions, _, hsuccessors⟩ := hrun.frame
        obtain ⟨state, hremembered⟩ := h.sound.calls id _ hcall
        rw [hcurrent] at hremembered
        cases hremembered
        have hresigns := hrun.resigns
        refine ⟨hsound, h.materialize_rooted hcurrent hresigns,
          fun id' grantId row hrow => ?_, fun id' row' hrow hopen => ?_, hdrafts⟩
        · rw [hsuccessors] at hrow
          obtain ⟨transition, htransition⟩ := h.journaled id' grantId row hrow
          obtain ⟨state, hfound⟩ := Store.evidence_insert hcurrent htransitions id'
            transition htransition
          exact ⟨_, hfound⟩
        · rw [htransitions, Table.find_insert] at hrow
          split at hrow
          · cases hrow
            cases hopen
          · rename_i hid
            refine (h.covered id' row' hrow hopen).mono (h.materialize_keeps hcurrent hresigns
              fun haccount => hid ?_) fun grantId => by rw [hsuccessors]
            exact h.sound.journal.unique id' _ row' _ hrow hcurrent haccount hopen rfl

/-- A step that completes a transition is its materialization. -/
theorem step_completes {p q : System} {e : Event} (hs : p.Sound)
    (hstep : p.step platform serviceBase e = some q) {id : Uuid} {row row' : Transition}
    (hrow : p.store.transitions.find id = some row) (hopen : row.state.isOpen = true)
    (hrow' : q.store.transitions.find id = some row') (hdone : row'.state.isOpen = false) :
    (∃ signed, row.state = .submissionUnknown signed) ∧
      Store.Resigns platform p.store q.store id row.evidence := by
  have hsame : q.store.transitions = p.store.transitions → False := by
    intro he
    rw [he, hrow] at hrow'
    cases hrow'
    rw [hopen] at hdone
    cases hdone
  cases e with
  | tick milliseconds =>
    cases hstep
    exact (hsame rfl).elim
  | grant session authority leaseFault write =>
    obtain ⟨_, grants, _, rfl⟩ := step_grant hstep
    exact (hsame rfl).elim
  | account session owner =>
    simp only [System.step, Option.ite_none_right_eq_some, Option.some.injEq] at hstep
    exact (hsame (by rw [hstep.2])).elim
  | call callId call =>
    simp only [System.step, Option.ite_none_right_eq_some, Option.some.injEq] at hstep
    obtain ⟨_, rfl⟩ := hstep
    exact (hsame rfl).elim
  | advance callId external =>
    obtain ⟨call, hcall, _, ⟨fault, rfl⟩ | ⟨t, next, hnext, rfl⟩⟩ := step_advance hstep
    · exact (hsame rfl).elim
    · have hjournaled : ∀ {id' : Uuid} {evidence : TransitionEvidence}
          {successors : List (Uuid × Successor)},
          p.store.Journaled t id' evidence successors → False := by
        intro id' evidence successors hjournal
        have hnew := hrow'
        rw [hjournal.transitions_eq, Table.find_insert_of_ne, hrow] at hnew
        · cases hnew
          rw [hopen] at hdone
          cases hdone
        · rintro rfl
          rw [hjournal.can.absent] at hrow
          cases hrow
      have hchanged := Call.next_changed hnext
      cases hchanged with
      | same => exact (hsame rfl).elim
      | prepared _ _ hjournal => exact (hjournaled hjournal).elim
      | ownerPrepared hjournal => exact (hjournaled hjournal).elim
      | recorded _ _ =>
        rw [Store.withTransition_transitions, Table.find_insert] at hrow'
        split at hrow'
        · cases hrow'
          cases hdone
        · rw [hrow] at hrow'
          cases hrow'
          rw [hopen] at hdone
          cases hdone
      | @materialized input remembered current _ hrun =>
        obtain ⟨signed, retired, hcurrent, htransitions, _⟩ := hrun.frame
        obtain ⟨state, hremembered⟩ := hs.calls callId _ hcall
        rw [hcurrent] at hremembered
        cases hremembered
        rw [htransitions, Table.find_insert] at hrow'
        split at hrow'
        · rename_i hid
          subst hid
          rw [hcurrent] at hrow
          cases hrow
          exact ⟨⟨signed, rfl⟩, hrun.resigns⟩
        · rw [hrow] at hrow'
          cases hrow'
          rw [hopen] at hdone
          cases hdone

end System

/-- The account after a completed transition, compared with the state it was completed in. -/
structure Completed (platform : Platform) (s t : Store) (id : Uuid)
    (evidence : TransitionEvidence) : Prop where
  /-- Every active authoritative grant has the prepared successor as its current revision. -/
  active : ∀ grantId lineage, t.grants.lineages.find grantId = some lineage →
    lineage.localAccountId = evidence.accountId → lineage.localRole = .grantor →
    lineage.currentStatus = .active → ∃ row old revision payload next stored,
      s.successors.find (id, grantId) = some row ∧
      Succeeds platform s.grants evidence grantId row old revision payload next ∧
      lineage = { old with
        currentRevision := row.successorRevision
        currentDigest := row.successorDigest } ∧
      t.grants.revisions.find (grantId, lineage.currentRevision) = some stored ∧
      stored.cose = row.successorCose ∧ stored.signingPublicKey = evidence.newIdentityKey
  revoked : ∀ grantId lineage, s.grants.lineages.find grantId = some lineage →
    lineage.localAccountId = evidence.accountId → lineage.currentStatus = .revoked →
    t.grants.lineages.find grantId = some lineage ∧
      ∀ k, t.grants.revisions.find (grantId, k) = s.grants.revisions.find (grantId, k)
  custody : t.HasCustody evidence.accountId evidence.newIdentityKey evidence.direction
  generation : ∃ n, s.generations.find evidence.accountId = some n ∧
    t.generations.find evidence.accountId = some (n + 1)

/-- What was prepared over the account's grants and installed is a completed transition. -/
theorem Covered.completed {s t : Store} {id : Uuid} {evidence : TransitionEvidence}
    (h : Covered platform s id evidence) (hresigns : Store.Resigns platform s t id evidence) :
    Completed platform s t id evidence := by
  refine ⟨fun grantId lineage hlineage howner hrole hactive => ?_,
    fun grantId lineage hlineage howner hrevoked => ?_, hresigns.custody, hresigns.generation⟩
  · cases hrow : s.successors.find (id, grantId) with
    | none =>
      rw [(hresigns.other grantId hrow).1] at hlineage
      obtain ⟨row, hsome⟩ := h.complete grantId lineage hlineage howner hrole hactive
      rw [hrow] at hsome
      cases hsome
    | some row =>
      obtain ⟨old, revision, payload, next, hsucceeds⟩ := h.prepared grantId row hrow
      obtain ⟨hnew, payload', _, hrevisions⟩ := hresigns.installed grantId row hrow
      rw [hnew, hsucceeds.lineage_eq, Option.map_some] at hlineage
      cases hlineage
      exact ⟨row, old, revision, payload, next, _, rfl, hsucceeds, rfl,
        by rw [hrevisions, if_pos rfl], rfl, rfl⟩
  · cases hrow : s.successors.find (id, grantId) with
    | none =>
      obtain ⟨hlineages, hrevisions, _⟩ := hresigns.other grantId hrow
      exact ⟨hlineages.trans hlineage, hrevisions⟩
    | some row =>
      obtain ⟨old, revision, payload, next, hsucceeds⟩ := h.prepared grantId row hrow
      have hactive := hsucceeds.active
      rw [hsucceeds.lineage_eq] at hlineage
      cases hlineage
      rw [hrevoked] at hactive
      cases hactive

theorem Covered.predecessors {s : Store} {id : Uuid} {evidence : TransitionEvidence}
    (h : Covered platform s id evidence) :
    s.checkPredecessors evidence.accountId (s.successorRows id) = .ok () := by
  rw [Store.checkPredecessors_eq_ok]
  rintro ⟨grantId, row⟩ hmem
  obtain ⟨lineage, revision, payload, next, hsucceeds⟩ :=
    h.prepared grantId row (Store.mem_successorRows.1 hmem)
  obtain ⟨publication, hpublication, hstate, hetag⟩ := hsucceeds.acknowledged
  simp [Store.predecessorCurrent, hsucceeds.lineage_eq, hsucceeds.owner, hsucceeds.role,
    hsucceeds.active, hsucceeds.revision_eq, hsucceeds.digest_eq, hpublication, hstate, hetag]

/-- In a run in which every transaction of `prepareOwner` still finds the grants its owner
reviewed: the predecessors of an open preparation pass the check of its materialization, and
a completed transition has re-signed exactly the active authoritative grants. -/
theorem custody_transition_resigns {start p : System} (initial : start.Initial)
    (hrooted : GrantsRooted platform start.store.grants)
    (run : Reaches (System.step platform serviceBase) (System.ReviewCurrent platform) start p) :
    (∀ id row, p.store.transitions.find id = some row → row.state.isOpen = true →
      p.store.checkPredecessors row.evidence.accountId (p.store.successorRows id) = .ok ()) ∧
    ∀ e q id row row', p.step platform serviceBase e = some q →
      p.store.transitions.find id = some row → row.state.isOpen = true →
      q.store.transitions.find id = some row' → row'.state.isOpen = false →
      Completed platform p.store q.store id row.evidence := by
  have hprepared : p.Prepared platform :=
    run.invariant (initial.prepared hrooted) fun _ h hreview hstep => h.step hreview hstep
  refine ⟨fun id row hrow hopen => (hprepared.covered id row hrow hopen).predecessors,
    fun e q id row row' hstep hrow hopen hrow' hdone => ?_⟩
  obtain ⟨_, hresigns⟩ := System.step_completes hprepared.sound hstep hrow hopen hrow' hdone
  exact (hprepared.covered id row hrow hopen).completed hresigns

instance (p : System) (e : Event) : Decidable (p.ReviewCurrent platform e) :=
  match e with
  | .tick _ | .grant .. | .account .. | .call .. => isTrue trivial
  | .advance id _ =>
    match hcall : p.calls.find id with
    | some (.ownerStoring request draft) =>
      decidable_of_iff ((p.store.openTransition request.accountId).isNone = true →
          ((p.store.activeGrants request.accountId).mapM
            (reviewGrant platform draft.review.binding.issuedAt)).toOption =
              some draft.review.activeGrants) <| by
        rw [Option.isNone_iff_eq_none, toOption_eq_some]
        constructor
        · intro h request' draft' hfound
          rw [hcall] at hfound
          cases hfound
          exact h
        · exact fun h => h request draft hcall
    | none => isTrue fun _ _ hfound => by rw [hcall] at hfound; cases hfound
    | some (.prepareReading _) | some (.prepareDrafting _) | some (.prepareStoring ..)
    | some (.ownerReading _) | some (.ownerReviewing ..) | some (.ownerGeneration ..)
    | some (.ownerGrants ..) | some (.commitReading _) | some (.commitRecording ..)
    | some (.commitSubmitting ..) | some (.commitMaterializing ..) | some (.commitPublishing _)
    | some (.prepared ..) | some (.committed _) | some (.failed _) =>
      isTrue fun _ _ hfound => by rw [hcall] at hfound; cases hfound

namespace Sample

/-- Alice's transition, with her one grant reviewed and signed again. -/
def transition : List Event :=
  review [(Grants.Sample.grantId, successorCose)] ++ [.advance prepareCall before] ++
    commit fullApproval fullApprovalSignature

/-- Alice's transition, with a grant made after she reviewed that there was none. -/
def missedTransition : List Event :=
  review [] ++ grantMade ++ [.advance prepareCall before] ++
    commit missedApproval missedApprovalSignature

theorem granted_rooted : GrantsRooted Sample.platform granted := by
  intro id lineage h
  simp only [granted, Table.find_insert, Table.find_empty] at h
  split at h
  · rename_i hid
    cases h
    subst hid
    exact ⟨Grants.Store.revisionRow grantInput.revision, Grants.Sample.first, by decide +kernel,
      by decide +kernel, by decide +kernel⟩
  · cases h

/-- The transition is completed between the two states. -/
def completes (p q : System) : Bool :=
  match p.store.transitions.find transitionId, q.store.transitions.find transitionId with
  | some row, some row' => row.state.isOpen && !row'.state.isOpen
  | _, _ => false

end Sample

theorem custody_transition_resigns_sample : ∃ p q row,
    Reaches (System.step Sample.platform Sample.providerBase) (System.ReviewCurrent Sample.platform)
      (Sample.start Sample.granted) p ∧
    p.step Sample.platform Sample.providerBase (.advance Sample.commitCall Sample.after) = some q ∧
    p.store.transitions.find Sample.transitionId = some row ∧
    Completed Sample.platform p.store q.store Sample.transitionId row.evidence := by
  have hrun : ((execWhere (System.step Sample.platform Sample.providerBase)
      (fun s e => decide (s.ReviewCurrent Sample.platform e)) (Sample.start Sample.granted)
      Sample.transition).bind fun p =>
        (p.step Sample.platform Sample.providerBase (.advance Sample.commitCall Sample.after)).map
          fun q => Sample.completes p q) = some true := by
    decide +kernel
  simp only [Option.bind_eq_some_iff, Option.map_eq_some_iff] at hrun
  obtain ⟨p, hexec, q, hstep, hcompletes⟩ := hrun
  unfold Sample.completes at hcompletes
  split at hcompletes
  · rename_i row row' hrow hrow'
    simp only [Bool.and_eq_true, Bool.not_eq_true'] at hcompletes
    obtain ⟨hopen, hdone⟩ := hcompletes
    have hreached : Reaches (System.step Sample.platform Sample.providerBase)
        (System.ReviewCurrent Sample.platform) (Sample.start Sample.granted) p :=
      (reaches_of_execWhere hexec).mono fun _ _ => of_decide_eq_true
    obtain ⟨_, hcompleted⟩ :=
      custody_transition_resigns ⟨rfl, rfl, rfl⟩ Sample.granted_rooted hreached
    exact ⟨p, q, row, hreached, hstep, hrow,
      hcompleted _ q _ row row' hstep hrow hopen hrow' hdone⟩
  · cases hcompletes

/-- The grant made between Alice's review and its transaction is active, published and
acknowledged when her transition completes, and nothing has signed it again. -/
theorem custody_transition_misses_grant : ¬∀ (platform : Platform) (serviceBase : String)
    (start p : System), start.Initial → GrantsRooted platform start.store.grants →
    Reachable (System.step platform serviceBase) start p →
    ∀ e q id row row', p.step platform serviceBase e = some q →
      p.store.transitions.find id = some row → row.state.isOpen = true →
      q.store.transitions.find id = some row' → row'.state.isOpen = false →
      Completed platform p.store q.store id row.evidence := by
  intro h
  have hrun : ((exec (System.step Sample.platform Sample.providerBase) (Sample.start ∅)
      Sample.missedTransition).bind fun p =>
        (p.step Sample.platform Sample.providerBase (.advance Sample.commitCall Sample.after)).bind
          fun q => (p.store.transitions.find Sample.transitionId).bind fun row =>
            (q.store.transitions.find Sample.transitionId).bind fun row' =>
              (q.store.grants.lineages.find Grants.Sample.grantId).map fun lineage =>
                decide (row.state.isOpen = true ∧ row'.state.isOpen = false ∧
                  lineage.localAccountId = row.evidence.accountId ∧
                  lineage.localRole = .grantor ∧ lineage.currentStatus = .active ∧
                  (p.store.successors.find (Sample.transitionId, Grants.Sample.grantId)).isNone)) =
        some true := by
    decide +kernel
  simp only [Option.bind_eq_some_iff, Option.map_eq_some_iff, decide_eq_true_eq,
    Option.isNone_iff_eq_none] at hrun
  obtain ⟨p, hexec, q, hstep, row, hrow, row', hrow', lineage, hlineage, hopen, hdone, howner,
    hrole, hactive, hnone⟩ := hrun
  have hrooted : GrantsRooted Sample.platform (Sample.start ∅).store.grants := by
    intro id lineage hfound
    cases hfound
  have hcompleted := h _ _ _ p ⟨rfl, rfl, rfl⟩ hrooted (reachable_of_exec hexec) _ q _ row row'
    hstep hrow hopen hrow' hdone
  obtain ⟨successor, _, _, _, _, _, hsome, _⟩ :=
    hcompleted.active _ lineage hlineage howner hrole hactive
  rw [hnone] at hsome
  cases hsome

end HailProto.Custody
