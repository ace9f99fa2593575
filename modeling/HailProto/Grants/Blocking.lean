import HailProto.Grants.Conflicts
import HailProto.Grants.Convergence

/-!
# When a publication is blocked

A publication is blocked for good by a conflict answer. The receiver gives one where it compares
with something else than the revision's predecessor: at the grantor's own provider it compares
with the grantor's current revision, which may already be a later one, and anywhere it refuses a
first revision while another lineage of the pair is active. Away from these two places an
attempt that holds its lease is never answered with a conflict.
-/

namespace HailProto.Grants.Replication

open Server

variable {d : Deployment} {s t : System}

/-- Every publication of the grant before this one is acknowledged. -/
def PriorsAcknowledged (store : Store) (key : Uuid × Nat) : Prop :=
  ∀ k p, store.publications.find (key.1, k) = some p → k < key.2 → p.state = .acknowledged

/-- The grantee's own provider knows the lineage, when it is the grantor's. -/
def Referenced (d : Deployment) (s : System) (grantId : Uuid) : Prop :=
  d.collocated = true → ∃ account, s.origin.collocated.find grantId = some account

/-- The revision a call read as the current one is one its own revision can be compared with. -/
def Comparable (d : Deployment) (claim : GrantPublicationClaim)
    (current : Option SignedGrantRevision) : Prop :=
  match current with
  | none => claim.grant.payload.revision = 1
  | some c =>
    match c.localRole with
    | .grantor => d.collocated = true
    | .grantee => c.payload.revision = claim.grant.payload.revision ∨
        c.payload.revision + 1 = claim.grant.payload.revision

/-- A call that has not met a conflict. -/
def Proceeding (d : Deployment) (claim : GrantPublicationClaim) (call : Call) : Prop :=
  match call.phase with
  | .reading => True
  | .looking current => Comparable d claim current
  | .storing => True
  | .rereading => False
  | .relooking _ => False

/-- A response that is no conflict, or the converged creation of the claim's own revision. -/
def Agreeable (claim : GrantPublicationClaim) (response : Response) : Prop :=
  response.status = 409 ∨ response.status = 412 →
    claim.grant.payload.revision = 1 ∧ response.status = 412 ∧
      response.etag = some (expectedEtag claim)

/-- The statuses of a conflict. -/
def conflictStatus (status : Nat) : Bool := status = 409 || status = 412

/-- An attempt has met no conflict. -/
structure Smooth (d : Deployment) (s : System) (i : Nat) (claim : GrantPublicationClaim) :
    Prop where
  calls : ∀ call, (i, call) ∈ s.calls → Proceeding d claim call
  responses : ∀ response, (i, response) ∈ s.responses → Agreeable claim response
  stage : ∀ a status error, s.attempts[i]? = some a → a.stage = .finishing (.block status error) →
    conflictStatus status = false

/-- A call of `finishPublication` that is not a block by a conflict. -/
def Finish.Harmless (finish : Finish) : Prop :=
  finish.state = .blocked → ∀ status, finish.httpStatus = some status →
    conflictStatus status = false

/-- The invariant of runs that keep away from the conflicts. -/
structure Unblocked (d : Deployment) (s : System) : Prop where
  consistent : Consistent d s
  origin : s.origin.Authoritative d.codec
  /-- A reference at the grantor's own provider belongs to the grantee's account. -/
  references : ∀ id account, s.origin.collocated.find id = some account →
    ∃ lineage, s.origin.lineages.find id = some lineage ∧
      account = d.accountId lineage.granteeDid
  claims : ∀ claim ∈ s.claims, PriorsAcknowledged s.origin claim.key
  /-- The other provider stores a revision only after its predecessors were acknowledged. -/
  remote : d.collocated = false → ∀ key row, s.remote.revisions.find key = some row →
    PriorsAcknowledged s.origin key
  roles : d.collocated = true → ∀ p ∈ s.calls, ∀ c,
    p.2.phase = .looking (some c) ∨ p.2.phase = .relooking (some c) → c.localRole = .grantor
  responses : ∀ p ∈ s.responses, p.2.etag.isSome → ∀ claim, s.claims[p.1]? = some claim →
    Referenced d s claim.grant.payload.grantId
  stages : ∀ a ∈ s.attempts, ∀ conclusion, a.stage = .finishing conclusion →
    conclusion.state = .acknowledged → Referenced d s a.claim.grant.payload.grantId
  acknowledged : ∀ key p, s.origin.publications.find key = some p → p.state = .acknowledged →
    Referenced d s key.1
  attempts : ∀ (i : Nat) claim, s.claims[i]? = some claim → s.origin.Leases claim →
    Smooth d s i claim
  finishes : ∀ finish ∈ s.finishes, finish.Harmless

section Conflicts

variable {claim : GrantPublicationClaim} {call : Call}

theorem not_acknowledged_of_leases {store : Store} (h : store.Leases claim) {p : Publication}
    (hp : store.publications.find claim.key = some p) : p.state ≠ .acknowledged := by
  obtain ⟨p', expires, hfind, -, hopen⟩ := h
  rw [hp] at hfind
  cases hfind
  simp only [Publication.unfinished, decide_eq_true_eq] at hopen
  rcases hopen with hopen | hopen <;> rw [hopen] <;> decide

/-- The revision before a claimed one is in both stores. -/
theorem Unblocked.predecessor (h : Unblocked d s) (hclaim : claim ∈ s.claims)
    (hlater : 1 < claim.grant.payload.revision) : ∃ row row',
      s.origin.revisions.find (claim.grant.payload.grantId, claim.grant.payload.revision - 1) =
        some row ∧
      (s.receiver d).revisions.find
        (claim.grant.payload.grantId, claim.grant.payload.revision - 1) = some row' ∧
      row.cose = row'.cose ∧ Referenced d s claim.grant.payload.grantId := by
  obtain ⟨last, hlast, -⟩ := h.consistent.claims claim hclaim
  obtain ⟨lineage, hlineage⟩ := h.consistent.origin.owned _ _ _ hlast
  have hsound := h.consistent.origin.sound _ _ hlineage
  have hle := (hsound.stored _).mp ⟨last, hlast⟩
  obtain ⟨row, hrow⟩ := (hsound.stored (claim.grant.payload.revision - 1)).mpr ⟨by omega, by omega⟩
  obtain ⟨p, hp⟩ := h.origin.published _ _ hrow
  have hacked := h.claims claim hclaim _ p hp (by simp only [GrantPublicationClaim.key]; omega)
  obtain ⟨row₁, row', hrow₁, hrow', heq⟩ := h.consistent.acknowledged _ p hp hacked
  rw [hrow] at hrow₁
  cases hrow₁
  exact ⟨row, row', hrow, hrow', heq, h.acknowledged _ p hp hacked⟩

/-- While a claim holds its lease, the other provider has nothing beyond its revision. -/
theorem Unblocked.not_beyond (h : Unblocked d s) (hremote : d.collocated = false)
    (hlease : s.origin.Leases claim) {k : Nat} {row : Revision}
    (hrow : s.remote.revisions.find (claim.grant.payload.grantId, k) = some row) :
    k ≤ claim.grant.payload.revision := by
  by_contra hbeyond
  have hlease' := hlease
  obtain ⟨p, expires, hp, -⟩ := hlease'
  refine not_acknowledged_of_leases hlease hp (h.remote hremote _ row hrow _ p hp ?_)
  simp only
  omega

/-- Reading the current revision for a claim that holds its lease. -/
theorem Unblocked.comparable (h : Unblocked d s) (hclaim : claim ∈ s.claims)
    (hlease : s.origin.Leases claim) {current : Option SignedGrantRevision}
    (hread : (s.receiver d).findCurrentByGrantId d.codec claim.grant.payload.grantId =
      .ok current) : Comparable d claim current := by
  have hpos := claim.grant.payload.revision_pos
  have hintegrity := h.consistent.receiver
  cases hlineage : (s.receiver d).lineages.find claim.grant.payload.grantId with
  | none =>
    have hnone : (s.receiver d).current claim.grant.payload.grantId = none := by
      rw [Store.current, hlineage]
      rfl
    rw [Store.findCurrentByGrantId, hnone] at hread
    cases hread
    simp only [Comparable]
    by_contra hlater
    obtain ⟨-, row', -, hrow', -⟩ := h.predecessor hclaim (by omega)
    obtain ⟨lineage, hfind⟩ := hintegrity.owned _ _ _ hrow'
    rw [hlineage] at hfind
    cases hfind
  | some lineage =>
    obtain ⟨row, payload, hrow, hof, hrevision, heq⟩ :=
      findCurrentByGrantId_of_lineage hintegrity hlineage
    rw [hread] at heq
    cases heq
    simp only [Comparable, Revision.signed]
    cases hcollocated : d.collocated with
    | true =>
      have horigin : s.receiver d = s.origin := by rw [System.receiver, hcollocated]; rfl
      rw [horigin] at hlineage
      rw [h.origin.roles _ _ hlineage]
    | false =>
      have hremote : s.receiver d = s.remote := by rw [System.receiver, hcollocated]; rfl
      rw [hremote] at hlineage hrow
      rw [(h.consistent.remote _ _ hlineage).1]
      simp only [hrevision]
      have hle := h.not_beyond hcollocated hlease hrow
      by_cases hfirst : claim.grant.payload.revision = 1
      · have hsound := (hremote ▸ hintegrity).sound _ _ hlineage
        have hone := (hsound.stored _).mp ⟨row, hrow⟩
        omega
      · obtain ⟨-, row', -, hrow', -⟩ := h.predecessor hclaim (by omega)
        rw [hremote] at hrow'
        have hsound := (hremote ▸ hintegrity).sound _ _ hlineage
        have hstored := (hsound.stored _).mp ⟨row', hrow'⟩
        omega

/-- The grantor's lineage of a claim. -/
theorem Unblocked.lineage (h : Unblocked d s) (hclaim : claim ∈ s.claims) : ∃ lineage,
    s.origin.lineages.find claim.grant.payload.grantId = some lineage ∧
      lineage.grantorDid = claim.grant.payload.grantor ∧
      lineage.granteeDid = claim.grant.payload.grantee := by
  obtain ⟨b, hb, hofb, -⟩ := h.consistent.claims claim hclaim
  obtain ⟨lineage, hlineage⟩ := h.consistent.origin.owned _ _ _ hb
  obtain ⟨payload, hof, -, -, hgrantor, hgrantee⟩ :=
    (h.consistent.origin.sound _ _ hlineage).payload _ _ hb
  have hpayload : payload = claim.grant.payload :=
    Option.some.inj (hof.inspected.symm.trans hofb.inspected)
  subst hpayload
  exact ⟨lineage, hlineage, hgrantor.symm, hgrantee.symm⟩

/-- The reference of a claim's lineage belongs to its grantee's account. -/
theorem Unblocked.reference (h : Unblocked d s) (hclaim : claim ∈ s.claims) {account : Uuid}
    (haccount : s.origin.collocated.find claim.grant.payload.grantId = some account) :
    account = d.accountId claim.grant.payload.grantee := by
  obtain ⟨lineage, hlineage, -, hgrantee⟩ := h.lineage hclaim
  obtain ⟨lineage', hlineage', heq⟩ := h.references _ _ haccount
  rw [hlineage] at hlineage'
  cases hlineage'
  rw [heq, hgrantee]

/-- A row of the receiver is the grantor's row, with the same payload and digest. -/
theorem Unblocked.original (h : Unblocked d s) {id : Uuid} {k : Nat} {row' : Revision}
    {payload : HailGrant} (hrow' : (s.receiver d).revisions.find (id, k) = some row')
    (hof' : row'.Of d.codec payload) : ∃ row, s.origin.revisions.find (id, k) = some row ∧
      row.Of d.codec payload ∧ row.representationDigest = row'.representationDigest := by
  obtain ⟨row, hrow, hcose⟩ := h.consistent.replicates _ _ hrow'
  obtain ⟨lineage, hlineage⟩ := h.consistent.origin.owned _ _ _ hrow
  obtain ⟨payload₁, hof, -⟩ := (h.consistent.origin.sound _ _ hlineage).payload _ _ hrow
  have hpayload : payload₁ = payload :=
    Option.some.inj (hof.inspected.symm.trans ((congrArg _ hcose).trans hof'.inspected))
  subst hpayload
  exact ⟨row, hrow, hof, by rw [hof.digest_eq, hof'.digest_eq, hcose]⟩

/-- The parties of every revision of the receiver's copy are the claim's. -/
theorem Unblocked.parties (h : Unblocked d s) (hclaim : claim ∈ s.claims) {k : Nat}
    {row' : Revision} {payload : HailGrant}
    (hrow' : (s.receiver d).revisions.find (claim.grant.payload.grantId, k) = some row')
    (hof' : row'.Of d.codec payload) :
    payload.grantor = claim.grant.payload.grantor ∧
      payload.grantee = claim.grant.payload.grantee := by
  obtain ⟨row, hrow, hof, -⟩ := h.original hrow' hof'
  obtain ⟨lineage, hlineage, hgrantor, hgrantee⟩ := h.lineage hclaim
  obtain ⟨payload₁, hof₁, -, -, hgrantor₁, hgrantee₁⟩ :=
    (h.consistent.origin.sound _ _ hlineage).payload _ _ hrow
  have hpayload : payload₁ = payload :=
    Option.some.inj (hof₁.inspected.symm.trans hof.inspected)
  subst hpayload
  exact ⟨hgrantor₁.trans hgrantor, hgrantee₁.trans hgrantee⟩

/-- Consecutive revisions of the grantor's store pass the receiver's comparison. -/
theorem Unblocked.follows (h : Unblocked d s) (hclaim : claim ∈ s.claims)
    (hcarries : Carries d (s.receiver d) claim call) {c : SignedGrantRevision}
    (hrole : c.localRole = .grantee) (hid : c.payload.grantId = claim.grant.payload.grantId)
    (hstored : c.StoredIn d.codec (s.receiver d))
    (hrevision : c.payload.revision + 1 = claim.grant.payload.revision) :
    compare (some c) call.input = .error (settledAnswer call.input) ∨
      compare (some c) call.input = .ok () := by
  obtain ⟨b, hb, hofb, -⟩ := h.consistent.claims claim hclaim
  obtain ⟨row', hrow', hof', -, hdigest'⟩ := hstored
  rw [hid] at hrow'
  rw [← hrevision] at hb
  obtain ⟨a, ha, hofa, hdigest⟩ := h.original hrow' hof'
  obtain ⟨hgrantor, hgrantee⟩ := h.parties hclaim hrow' hof'
  obtain ⟨lineage, hlineage⟩ := h.consistent.origin.owned _ _ _ hb
  have hprecedes := (h.consistent.origin.sound _ _ hlineage).precedes _ _ _ ha hb
  have hactive : c.payload.status = .active := hofa.status_eq ▸ hprecedes.active
  refine compare_follows hrole ?_ ?_ ?_ ?_ hactive ?_ ?_ ?_ <;> rw [hcarries.payload_eq]
  · exact hgrantor
  · exact hgrantee
  · rw [← hofb.issuedAt_eq, hprecedes.issuedAt_eq, hofa.issuedAt_eq]
  · exact hrevision.symm
  · rw [← hofb.previous_eq, hprecedes.previous_eq, hdigest, hdigest']
  · rw [← hofa.updatedAt_eq, ← hofb.updatedAt_eq]
    exact hprecedes.updatedAt_lt
  · exact h.origin.retained _ _ _ _ _ _ ha hb hofa hofb

/-- A stored revision with the claim's number has the claim's bytes. -/
theorem Unblocked.same_bytes (h : Unblocked d s) (hclaim : claim ∈ s.claims) {row' : Revision}
    (hrow' : (s.receiver d).revisions.find
      (claim.grant.payload.grantId, claim.grant.payload.revision) = some row') :
    row'.cose = claim.grant.representation := by
  obtain ⟨b, hb, -, hrepresentation, -⟩ := h.consistent.claims claim hclaim
  obtain ⟨row, hrow, hcose⟩ := h.consistent.replicates _ _ hrow'
  rw [hb] at hrow
  cases hrow
  rw [← hcose, hrepresentation]

/-- Without a revision in the sender's name, a first revision begins the lineage. -/
theorem Unblocked.begins (h : Unblocked d s) (hclaim : claim ∈ s.claims)
    (hcarries : Carries d (s.receiver d) claim call)
    (hfirst : claim.grant.payload.revision = 1) : compare none call.input = .ok () := by
  obtain ⟨b, hb, hofb, -⟩ := h.consistent.claims claim hclaim
  have hactive : claim.grant.payload.status = .active := by
    rw [← hofb.status_eq]
    exact h.origin.first _ b (hfirst ▸ hb)
  simp [compare, exactRepresentation, hcarries.payload_eq, hfirst, hactive]

theorem compare_exact {received : SignedGrantRevision}
    (hcarries : Carries d (s.receiver d) claim call)
    (heq : received.representation = claim.grant.representation) :
    compare (some received) call.input = .error (settledAnswer call.input) := by
  simp [compare, exactRepresentation, heq, hcarries.representation_eq]

/-- The first place of a conflict: at the grantor's own provider, the revision that was read as
the current one is not the call's own, and the grantee already holds the lineage. -/
def overtaken (store : Store) (call : Call) : Bool :=
  match call.phase with
  | .looking (some c) => decide (c.localRole = .grantor ∧
      (store.collocated.find call.input.payload.grantId).isSome ∧
      c.payload.revision ≠ call.input.payload.revision)
  | _ => false

/-- The comparison of a call that was not overtaken is answered as settled or goes on to store. -/
theorem Unblocked.compares (h : Unblocked d s) (hclaim : claim ∈ s.claims)
    (hcarries : Carries d (s.receiver d) claim call) {current : Option SignedGrantRevision}
    (hphase : call.phase = .looking current) (hcomparable : Comparable d claim current)
    (hclear : overtaken (s.receiver d) call = false) {ambient : Ambient}
    (haccount : ambient.account call.input.localAccountId =
      some ⟨some call.input.payload.grantee, true⟩) {answer : Answer}
    (hcompare : compare ((s.receiver d).receivedForSender ambient current
      call.input.payload.grantId call.input.payload.grantee) call.input = .error answer) :
    answer = settledAnswer call.input := by
  have hpos := claim.grant.payload.revision_pos
  cases current with
  | none =>
    simp only [Store.receivedForSender] at hcompare
    rw [h.begins hclaim hcarries hcomparable] at hcompare
    cases hcompare
  | some c =>
    obtain ⟨hid, hstored⟩ := hcarries.sound.looking c hphase
    rw [hcarries.payload_eq] at hid
    have hread := hstored
    obtain ⟨row', hrow', hof', hrepresentation', -⟩ := hread
    have hgrantee : c.payload.grantee = call.input.payload.grantee := by
      rw [hcarries.payload_eq]
      exact (h.parties hclaim (hid ▸ hrow') hof').2
    have hbytes : c.payload.revision = claim.grant.payload.revision →
        c.representation = claim.grant.representation := by
      intro hrevision
      rw [hrepresentation']
      exact h.same_bytes hclaim (by rw [← hrevision, ← hid, hrow'])
    cases hrole : c.localRole with
    | grantee =>
      simp only [Store.receivedForSender, hgrantee, hrole, ne_eq, not_true_eq_false,
        if_false] at hcompare
      simp only [Comparable, hrole] at hcomparable
      rcases hcomparable with hsame | hbefore
      · rw [compare_exact hcarries (hbytes hsame)] at hcompare
        cases hcompare
        rfl
      · rcases h.follows hclaim hcarries hrole hid hstored hbefore with hsettled | hok
        · rw [hsettled] at hcompare
          cases hcompare
          rfl
        · rw [hok] at hcompare
          cases hcompare
    | grantor =>
      simp only [Comparable, hrole] at hcomparable
      have horigin : s.receiver d = s.origin := by rw [System.receiver, hcomparable]; rfl
      simp only [Store.receivedForSender, hgrantee, hrole, ne_eq, not_true_eq_false,
        if_false] at hcompare
      cases hreference : (s.receiver d).collocated.find call.input.payload.grantId with
      | none =>
        simp only [hreference] at hcompare
        by_cases hfirst : claim.grant.payload.revision = 1
        · rw [h.begins hclaim hcarries hfirst] at hcompare
          cases hcompare
        · obtain ⟨-, -, -, -, -, hheld⟩ := h.predecessor hclaim (by omega)
          obtain ⟨account, haccount⟩ := hheld hcomparable
          rw [horigin, hcarries.payload_eq, haccount] at hreference
          cases hreference
      | some account =>
        have hown : account = call.input.localAccountId := by
          rw [horigin, hcarries.payload_eq] at hreference
          rw [h.reference hclaim hreference, hcarries.account_eq]
        have hsame : c.payload.revision = claim.grant.payload.revision := by
          rw [← hcarries.payload_eq]
          simpa [overtaken, hphase, hrole, hreference] using hclear
        simp only [hreference, hown, haccount, and_self, if_true] at hcompare
        rw [compare_exact hcarries] at hcompare
        · cases hcompare
          rfl
        · exact hbytes hsame

/-- The second place of a conflict: a lineage is about to begin while another one of the same
pair is active. -/
def contested (store : Store) (call : Call) : Bool :=
  match call.phase with
  | .storing => (store.lineages.find call.input.payload.grantId).isNone &&
      store.pairTaken call.input.payload.grantId call.input.payload.grantor
        call.input.payload.grantee
  | _ => false

/-- The grantor's own store admits each of its revisions. -/
theorem Unblocked.admits_collocated (h : Unblocked d s) (hcollocated : d.collocated = true)
    (hclaim : claim ∈ s.claims) (hcarries : Carries d (s.receiver d) claim call) :
    (s.receiver d).Admits d.codec call.input := by
  have horigin : s.receiver d = s.origin := by rw [System.receiver, hcollocated]; rfl
  obtain ⟨lineage, hlineage, hgrantor, hgrantee⟩ := h.lineage hclaim
  obtain ⟨b, hb, -, hrepresentation, -⟩ := h.consistent.claims claim hclaim
  have hrole := h.origin.roles _ _ hlineage
  rw [← hcarries.payload_eq] at hlineage hgrantor hgrantee hb
  rw [horigin]
  refine .collocated hlineage hgrantor hgrantee hrole hb ?_ fun account haccount => ?_
  · rw [← hrepresentation, hcarries.representation_eq]
  · rw [hcarries.payload_eq] at haccount
    rw [h.reference hclaim haccount, hcarries.account_eq]

/-- The other provider's copy ends right before the claim's revision, or holds it. -/
theorem Unblocked.admits_next (h : Unblocked d s) (hremote : d.collocated = false)
    (hclaim : claim ∈ s.claims) (hcarries : Carries d (s.receiver d) claim call)
    {lineage' : Lineage}
    (hlineage' : s.remote.lineages.find claim.grant.payload.grantId = some lineage')
    (hunstored : s.remote.revisions.find
      (claim.grant.payload.grantId, claim.grant.payload.revision) = none) :
    s.remote.Admits d.codec call.input := by
  have hreceiver : s.receiver d = s.remote := by rw [System.receiver, hremote]; rfl
  have hpos := claim.grant.payload.revision_pos
  have hsound' := (hreceiver ▸ h.consistent.receiver).sound _ _ hlineage'
  obtain ⟨hrole, haccount⟩ := h.consistent.remote _ _ hlineage'
  obtain ⟨row', hrow', hdigest', hstatus'⟩ := hsound'.current
  obtain ⟨payload', hof', -, -, hgrantor', hgrantee'⟩ := hsound'.payload _ _ hrow'
  obtain ⟨hgrantor, hgrantee⟩ := h.parties hclaim (hreceiver ▸ hrow') hof'
  have hone := (hsound'.stored _).mp ⟨row', hrow'⟩
  have hshort : lineage'.currentRevision < claim.grant.payload.revision := by
    by_contra hnot
    obtain ⟨row, hrow⟩ := (hsound'.stored claim.grant.payload.revision).mpr ⟨hpos, by omega⟩
    rw [hunstored] at hrow
    cases hrow
  have hnext : claim.grant.payload.revision = lineage'.currentRevision + 1 := by
    obtain ⟨-, prior, -, hprior, -⟩ := h.predecessor hclaim (by omega)
    have hle := (hsound'.stored _).mp ⟨prior, hreceiver ▸ hprior⟩
    omega
  obtain ⟨b, hb, hofb, -, hclaimDigest⟩ := h.consistent.claims claim hclaim
  obtain ⟨a, ha, hofa, hdigest⟩ := h.original (hreceiver ▸ hrow') hof'
  obtain ⟨lineage, hlineage, -⟩ := h.lineage hclaim
  have hsound := h.consistent.origin.sound _ _ hlineage
  have hprecedes := hsound.precedes _ _ _ ha (hnext ▸ hb)
  have hinput : call.input.digest = b.representationDigest := by
    have hgenuine := hcarries.sound.genuine.digest_eq
    simp only [Store.ReceivedGrantRevision.signed] at hgenuine
    rw [hgenuine, hcarries.representation_eq,
      ← (storedIn_digest (h.consistent.claims claim hclaim)).digest_eq, hclaimDigest]
  rw [← hcarries.payload_eq] at hlineage' hunstored hrow'
  refine .next hlineage' ?_ ?_ hrole ?_ hrow' ?_ ?_ ?_ ?_ hunstored fun j r hr heq => ?_
  · rw [hcarries.payload_eq, ← hgrantor, hgrantor']
  · rw [hcarries.payload_eq, ← hgrantee, hgrantee']
  · rw [haccount, hcarries.account_eq, ← hgrantee', hgrantee]
  · rw [← hstatus', hof'.status_eq, ← hofa.status_eq, hprecedes.active]
  · rw [hcarries.payload_eq, hnext]
  · rw [hcarries.payload_eq, ← hofb.previous_eq, hprecedes.previous_eq, hdigest, hdigest']
  · rw [hcarries.payload_eq, hof'.updatedAt_eq, ← hofa.updatedAt_eq, ← hofb.updatedAt_eq]
    exact hprecedes.updatedAt_lt
  · rw [hcarries.payload_eq] at hr hunstored
    obtain ⟨payload, hof, -⟩ := hsound'.payload _ _ hr
    obtain ⟨row, hrow, -, hrowDigest⟩ := h.original (hreceiver ▸ hr) hof
    have hsame := h.origin.digests _ _ _ _ _ hrow hb (by rw [hrowDigest, heq, hinput])
    rw [hsame, hunstored] at hr
    cases hr

/-- The receiver's store admits the revision of a claim, where no other lineage contests it. -/
theorem Unblocked.admits (h : Unblocked d s) (hclaim : claim ∈ s.claims)
    (hcarries : Carries d (s.receiver d) claim call) (hphase : call.phase = .storing)
    (hclear : contested (s.receiver d) call = false) : (s.receiver d).Admits d.codec call.input := by
  have hpos := claim.grant.payload.revision_pos
  cases hcollocated : d.collocated with
  | true => exact h.admits_collocated hcollocated hclaim hcarries
  | false =>
    have hreceiver : s.receiver d = s.remote := by rw [System.receiver, hcollocated]; rfl
    have hintegrity := h.consistent.receiver
    cases hlineage : s.remote.lineages.find claim.grant.payload.grantId with
    | some lineage =>
      cases hstored : s.remote.revisions.find
          (claim.grant.payload.grantId, claim.grant.payload.revision) with
      | none =>
        rw [hreceiver]
        exact h.admits_next hcollocated hclaim hcarries hlineage hstored
      | some existing =>
        obtain ⟨hrole, haccount⟩ := h.consistent.remote _ _ hlineage
        have hsound := (hreceiver ▸ hintegrity).sound _ _ hlineage
        obtain ⟨payload, hof, -, -, hgrantor', hgrantee'⟩ := hsound.payload _ _ hstored
        obtain ⟨hgrantor, hgrantee⟩ := h.parties hclaim (hreceiver ▸ hstored) hof
        have hcose := h.same_bytes hclaim (hreceiver ▸ hstored)
        rw [hreceiver]
        rw [← hcarries.payload_eq] at hlineage hstored hgrantor
        refine .again hlineage (hgrantor'.symm.trans hgrantor) ?_ hrole ?_ hstored ?_
        · rw [hcarries.payload_eq, ← hgrantee, hgrantee']
        · rw [haccount, hcarries.account_eq, ← hgrantee', hgrantee]
        · rw [hcose, hcarries.representation_eq]
    | none =>
      have hunstored : ∀ k, s.remote.revisions.find (claim.grant.payload.grantId, k) =
          none := by
        intro k
        cases hrow : s.remote.revisions.find (claim.grant.payload.grantId, k) with
        | none => rfl
        | some row =>
          obtain ⟨lineage, hfind⟩ := (hreceiver ▸ hintegrity).owned _ _ _ hrow
          rw [hlineage] at hfind
          cases hfind
      have hfirst : claim.grant.payload.revision = 1 := by
        by_contra hlater
        obtain ⟨-, row', -, hrow', -⟩ := h.predecessor hclaim (by omega)
        rw [hreceiver, hunstored] at hrow'
        cases hrow'
      obtain ⟨b, hb, hofb, -⟩ := h.consistent.claims claim hclaim
      have hactive : claim.grant.payload.status = .active := by
        rw [← hofb.status_eq]
        exact h.origin.first _ b (hfirst ▸ hb)
      rw [hreceiver] at hclear ⊢
      rw [← hcarries.payload_eq] at hlineage hunstored hfirst hactive
      refine .first hlineage hunstored hfirst hactive (Store.pairTaken_eq_false.mp ?_)
      simpa [contested, hphase, hlineage] using hclear

theorem agreeable_settled (hcarries : Carries d (s.receiver d) claim call)
    (hclaim : claim.grant.Genuine d.codec) (serviceBase : String) (grantId : Uuid) :
    Agreeable claim ((settledAnswer call.input).response serviceBase grantId) := by
  have hdigest : call.input.digest = claim.grant.digest := by
    have hgenuine := hcarries.sound.genuine.digest_eq
    simp only [Store.ReceivedGrantRevision.signed] at hgenuine
    rw [hgenuine, hcarries.representation_eq, hclaim.digest_eq]
  intro hstatus
  simp only [settledAnswer, Answer.response, hcarries.payload_eq] at hstatus ⊢
  by_cases hfirst : claim.grant.payload.revision = 1
  · simp [hfirst, expectedEtag, hdigest]
  · simp [hfirst] at hstatus

/-- A step of a call whose claim holds its lease, away from the two conflicts. -/
theorem Unblocked.call_step (h : Unblocked d s) (hclaim : claim ∈ s.claims)
    (hlease : s.origin.Leases claim) (hcarries : Carries d (s.receiver d) claim call)
    (hproceeding : Proceeding d claim call) (hovertaken : overtaken (s.receiver d) call = false)
    (hcontested : contested (s.receiver d) call = false) {ambient : Ambient}
    (haccount : ambient.account call.input.localAccountId =
      some ⟨some call.input.payload.grantee, true⟩) {store : Store} {next : Call ⊕ Answer}
    (hadvance : call.advance d.codec (s.receiver d) ambient = (store, next)) :
    (∀ call', next = .inl call' → Proceeding d claim call') ∧
      ∀ answer, next = .inr answer →
        Agreeable claim (answer.response d.serviceBase call.input.payload.grantId) := by
  have hunavailable : ∀ {answer : Answer}, answer = unavailableAnswer →
      Agreeable claim (answer.response d.serviceBase call.input.payload.grantId) := by
    rintro answer rfl hstatus
    simp [unavailableAnswer, Answer.error, Answer.response] at hstatus
  simp only [Call.advance] at hadvance
  cases hphase : call.phase with
  | reading =>
    simp only [hphase] at hadvance
    cases hread : (s.receiver d).findCurrentByGrantId d.codec call.input.payload.grantId <;>
      simp only [hread, Prod.mk.injEq] at hadvance <;> obtain ⟨-, rfl⟩ := hadvance
    · exact ⟨by simp, fun answer ha => hunavailable (Sum.inr.inj ha).symm⟩
    · refine ⟨fun call' hcall => ?_, by simp⟩
      cases hcall
      exact h.comparable hclaim hlease (hcarries.payload_eq ▸ hread)
  | looking current =>
    simp only [Proceeding, hphase] at hproceeding
    simp only [hphase] at hadvance
    cases hcompare : compare ((s.receiver d).receivedForSender ambient current
        call.input.payload.grantId call.input.payload.grantee) call.input <;>
      simp only [hcompare, Prod.mk.injEq] at hadvance <;> obtain ⟨-, rfl⟩ := hadvance
    · refine ⟨by simp, fun answer ha => ?_⟩
      obtain rfl := h.compares hclaim hcarries hphase hproceeding hovertaken haccount hcompare
      cases ha
      exact agreeable_settled hcarries (storedIn_digest (h.consistent.claims claim hclaim)) _ _
    · refine ⟨fun call' hcall => ?_, by simp⟩
      cases hcall
      trivial
  | storing =>
    simp only [hphase] at hadvance
    have hquiet := Store.acceptReceivedRevision_quiet h.consistent.receiver
      hcarries.sound.genuine haccount (h.admits hclaim hcarries hphase hcontested)
    cases hstore : (s.receiver d).acceptReceivedRevision d.codec ambient call.input with
    | ok accepted =>
      simp only [hstore, Prod.mk.injEq] at hadvance
      obtain ⟨-, rfl⟩ := hadvance
      refine ⟨by simp, fun answer ha hstatus => ?_⟩
      cases ha
      simp only [storedAnswer, Answer.response] at hstatus
      split at hstatus <;> simp at hstatus
    | error fault =>
      simp only [hstore, hquiet fault hstore] at hadvance
      obtain ⟨-, rfl⟩ := hadvance
      exact ⟨by simp, fun answer ha => hunavailable (Sum.inr.inj ha).symm⟩
  | rereading => simp only [Proceeding, hphase] at hproceeding
  | relooking winner => simp only [Proceeding, hphase] at hproceeding

theorem receivedForSender_reference {store : Store} {ambient : Ambient}
    {c received : SignedGrantRevision} {grantId : Uuid} {sender : Did}
    (hrole : c.localRole = .grantor)
    (h : store.receivedForSender ambient (some c) grantId sender = some received) :
    ∃ account, store.collocated.find grantId = some account := by
  simp only [Store.receivedForSender, hrole] at h
  split at h
  · cases h
  · cases hfind : store.collocated.find grantId with
    | none => simp [hfind] at h
    | some account => exact ⟨account, rfl⟩

/-- At the grantor's own provider, storing a claim's revision only adds the reference. -/
theorem Unblocked.accept_collocated (h : Unblocked d s) (hclaim : claim ∈ s.claims)
    (hcarries : Carries d (s.receiver d) claim call) {ambient : Ambient} {store : Store}
    (hok : s.origin.acceptReceivedRevision d.codec ambient call.input = .ok store) :
    store = { s.origin with
      collocated := s.origin.collocated.insertNew call.input.payload.grantId
        call.input.localAccountId } := by
  obtain ⟨lineage, hlineage, -⟩ := h.lineage hclaim
  have hrole := h.origin.roles _ _ hlineage
  rw [← hcarries.payload_eq] at hlineage
  obtain ⟨-, ⟨hcan, -⟩ | ⟨lineage', hlineage', -, -, hcase⟩⟩ := Store.acceptReceivedRevision_ok hok
  · have habsent : s.origin.lineages.find call.input.payload.grantId = none := hcan.absent
    rw [hlineage] at habsent
    cases habsent
  · rw [hlineage] at hlineage'
    cases hlineage'
    obtain ⟨-, -, rfl⟩ | ⟨hgrantee, -⟩ | ⟨hgrantee, -⟩ := hcase
    · rfl
    · rw [hrole] at hgrantee
      cases hgrantee
    · rw [hrole] at hgrantee
      cases hgrantee

/-- What a step of a call does at the grantor's own provider. -/
theorem Unblocked.collocated_step (h : Unblocked d s) (hcollocated : d.collocated = true)
    {i : Nat} (hmem : (i, call) ∈ s.calls) (hclaim : claim ∈ s.claims)
    (hcarries : Carries d (s.receiver d) claim call) {ambient : Ambient} {store : Store}
    {next : Call ⊕ Answer}
    (hadvance : call.advance d.codec (s.receiver d) ambient = (store, next)) :
    (store = s.origin ∨ store = { s.origin with
      collocated := s.origin.collocated.insertNew call.input.payload.grantId
        call.input.localAccountId }) ∧
    (∀ call', next = .inl call' → ∀ c, call'.phase = .looking (some c) ∨
      call'.phase = .relooking (some c) → c.localRole = .grantor) ∧
    ∀ answer, next = .inr answer → answer.etag.isSome →
      ∃ account, store.collocated.find claim.grant.payload.grantId = some account := by
  have horigin : s.receiver d = s.origin := by rw [System.receiver, hcollocated]; rfl
  have hread : ∀ c, s.origin.findCurrentByGrantId d.codec call.input.payload.grantId =
      .ok (some c) → c.localRole = .grantor := by
    intro c hc
    obtain ⟨lineage, row, hlineage, -, -, -, -, heq⟩ := findCurrentByGrantId_ok hc
    rw [heq]
    exact h.origin.roles _ _ hlineage
  -- A revision found in the sender's name is found through its reference.
  have hfound : ∀ current, (∀ c, current = some c → c.localRole = .grantor) →
      exactRepresentation (s.origin.receivedForSender ambient current
        call.input.payload.grantId call.input.payload.grantee) call.input.representation = true →
      ∃ account, s.origin.collocated.find claim.grant.payload.grantId = some account := by
    intro current hroles hexact
    obtain ⟨received, hreceived, -⟩ := exactRepresentation_eq_true hexact
    obtain ⟨c, rfl, -⟩ := receivedForSender_eq_some hreceived
    rw [← hcarries.payload_eq]
    exact receivedForSender_reference (hroles c rfl) hreceived
  have hroles := h.roles hcollocated _ hmem
  rw [horigin] at hadvance
  simp only [Call.advance] at hadvance
  cases hphase : call.phase with
  | reading =>
    simp only [hphase] at hadvance
    cases hcurrent : s.origin.findCurrentByGrantId d.codec call.input.payload.grantId <;>
      simp only [hcurrent, Prod.mk.injEq] at hadvance <;> obtain ⟨rfl, rfl⟩ := hadvance
    · refine ⟨.inl rfl, by simp, fun answer ha htag => ?_⟩
      cases ha
      simp [unavailableAnswer, Answer.error] at htag
    · refine ⟨.inl rfl, fun call' hcall c hc => ?_, by simp⟩
      cases hcall
      simp only [Phase.looking.injEq, reduceCtorEq, or_false] at hc
      exact hread c (hc ▸ hcurrent)
  | looking current =>
    simp only [hphase] at hadvance
    cases hcompare : compare (s.origin.receivedForSender ambient current
        call.input.payload.grantId call.input.payload.grantee) call.input <;>
      simp only [hcompare, Prod.mk.injEq] at hadvance <;> obtain ⟨rfl, rfl⟩ := hadvance
    · refine ⟨.inl rfl, by simp, fun answer ha htag => ?_⟩
      cases ha
      exact hfound current (fun c hc => hroles c (.inl (hc ▸ hphase)))
        (compare_error hcompare htag)
    · refine ⟨.inl rfl, fun call' hcall c hc => ?_, by simp⟩
      cases hcall
      simp at hc
  | storing =>
    simp only [hphase] at hadvance
    cases hstore : s.origin.acceptReceivedRevision d.codec ambient call.input with
    | ok accepted =>
      simp only [hstore, Prod.mk.injEq] at hadvance
      obtain ⟨rfl, rfl⟩ := hadvance
      obtain rfl := h.accept_collocated hclaim hcarries hstore
      refine ⟨.inr rfl, by simp, fun answer ha _ => ?_⟩
      rw [← hcarries.payload_eq]
      exact ⟨_, by rw [Table.find_insertNew, if_pos rfl]⟩
    | error fault =>
      simp only [hstore] at hadvance
      split at hadvance <;> simp only [Prod.mk.injEq] at hadvance <;>
        obtain ⟨rfl, rfl⟩ := hadvance
      · refine ⟨.inl rfl, fun call' hcall c hc => ?_, by simp⟩
        cases hcall
        simp at hc
      · refine ⟨.inl rfl, by simp, fun answer ha htag => ?_⟩
        cases ha
        simp [unavailableAnswer, Answer.error] at htag
  | rereading =>
    simp only [hphase] at hadvance
    cases hcurrent : s.origin.findCurrentByGrantId d.codec call.input.payload.grantId <;>
      simp only [hcurrent, Prod.mk.injEq] at hadvance <;> obtain ⟨rfl, rfl⟩ := hadvance
    · refine ⟨.inl rfl, by simp, fun answer ha htag => ?_⟩
      cases ha
      simp [unavailableAnswer, Answer.error] at htag
    · refine ⟨.inl rfl, fun call' hcall c hc => ?_, by simp⟩
      cases hcall
      simp only [Phase.relooking.injEq, reduceCtorEq, false_or] at hc
      exact hread c (hc ▸ hcurrent)
  | relooking winner =>
    simp only [hphase] at hadvance
    split at hadvance <;> simp only [Prod.mk.injEq] at hadvance <;>
      obtain ⟨rfl, rfl⟩ := hadvance
    · rename_i hexact
      refine ⟨.inl rfl, by simp, fun _ _ _ => ?_⟩
      exact hfound winner (fun c hc => hroles c (.inr (hc ▸ hphase))) hexact
    · refine ⟨.inl rfl, by simp, fun answer ha htag => ?_⟩
      cases ha
      simp [conflictAnswer, Answer.error] at htag

end Conflicts

/-- How the grantor's store moves on: acknowledgements stay, new publications come last, and a
lease that is lost is lost. -/
structure Moves (d : Deployment) (s t : System) : Prop where
  priors : ∀ key row, s.origin.revisions.find key = some row →
    PriorsAcknowledged s.origin key → PriorsAcknowledged t.origin key
  leases : ∀ claim ∈ s.claims, t.origin.Leases claim → s.origin.Leases claim
  references : ∀ id account, s.origin.collocated.find id = some account →
    t.origin.collocated.find id = some account

theorem Moves.of_eq (horigin : t.origin = s.origin) : Moves d s t := by
  refine ⟨?_, ?_, ?_⟩ <;> rw [horigin]
  · exact fun _ _ _ h => h
  · exact fun _ _ h => h
  · exact fun _ _ h => h

theorem Referenced.mono {id : Uuid} (h : Referenced d s id) (hmoves : Moves d s t) :
    Referenced d t id := by
  intro hcollocated
  obtain ⟨account, haccount⟩ := h hcollocated
  exact ⟨account, hmoves.references id account haccount⟩

/-- Acknowledged predecessors stay so, when a changed row keeps its acknowledgement and a new
row is the last of its grant. -/
theorem priors_of_publications {store store' : Store}
    (h : ∀ key p', store'.publications.find key = some p' →
      (∃ p, store.publications.find key = some p ∧
        (p.state = .acknowledged → p'.state = .acknowledged)) ∨
      ∀ k row, store.revisions.find (key.1, k) = some row → k < key.2)
    {key : Uuid × Nat} {row : Revision} (hrow : store.revisions.find key = some row)
    (hpriors : PriorsAcknowledged store key) : PriorsAcknowledged store' key := by
  intro k p' hp' hlt
  rcases h _ p' hp' with ⟨p, hp, hkeeps⟩ | hlast
  · exact hkeeps (hpriors k p hp hlt)
  · have hk := hlast key.2 row hrow
    simp only at hk
    omega

/-- The invariant after a step, from what the step added. -/
theorem Unblocked.of_moves (h : Unblocked d s) (hconsistent : Consistent d t)
    (hmoves : Moves d s t) (horigin : t.origin.Authoritative d.codec)
    (hreferences : ∀ id account, t.origin.collocated.find id = some account →
      ∃ lineage, t.origin.lineages.find id = some lineage ∧
        account = d.accountId lineage.granteeDid)
    (hclaims : ∀ (i : Nat) claim, t.claims[i]? = some claim → s.claims[i]? = some claim ∨
      (PriorsAcknowledged t.origin claim.key ∧ Smooth d t i claim))
    (hextends : ∀ (i : Nat) claim, s.claims[i]? = some claim → t.claims[i]? = some claim)
    (hremote : d.collocated = false → ∀ key row, t.remote.revisions.find key = some row →
      s.remote.revisions.find key = some row ∨ PriorsAcknowledged t.origin key)
    (hcalls : ∀ p ∈ t.calls, p ∈ s.calls ∨ ((d.collocated = true → ∀ c,
        p.2.phase = .looking (some c) ∨ p.2.phase = .relooking (some c) →
        c.localRole = .grantor) ∧
      ∀ claim, s.claims[p.1]? = some claim → s.origin.Leases claim → Proceeding d claim p.2))
    (hresponses : ∀ p ∈ t.responses, p ∈ s.responses ∨
      ∀ claim, t.claims[p.1]? = some claim →
        (p.2.etag.isSome → Referenced d t claim.grant.payload.grantId) ∧
        (s.origin.Leases claim → Agreeable claim p.2))
    (hstages : ∀ (i : Nat) a, t.attempts[i]? = some a → s.attempts[i]? = some a ∨
      ((∀ conclusion, a.stage = .finishing conclusion →
        conclusion.state = .acknowledged → Referenced d t a.claim.grant.payload.grantId) ∧
      (s.origin.Leases a.claim → ∀ status error, a.stage = .finishing (.block status error) →
        conflictStatus status = false)))
    (hacknowledged : ∀ key p, t.origin.publications.find key = some p →
      p.state = .acknowledged → (∃ p, s.origin.publications.find key = some p ∧
        p.state = .acknowledged) ∨ Referenced d t key.1)
    (hfinishes : ∀ finish ∈ t.finishes, finish ∈ s.finishes ∨ finish.Harmless) :
    Unblocked d t := by
  have hclaimed : ∀ p ∈ s.responses, ∃ claim, s.claims[p.1]? = some claim :=
    fun p hp => (h.consistent.responses p hp).imp fun _ hc => hc.1
  refine ⟨hconsistent, horigin, hreferences, fun claim hclaim => ?_, fun hc key row hrow => ?_,
    fun hc p hp c hphase => ?_, fun p hp htag claim hclaim => ?_,
    fun a ha conclusion hstage hstate => ?_, fun key p hp hstate => ?_,
    fun i claim hclaim hlease => ?_, fun finish hfinish => ?_⟩
  · obtain ⟨i, hi⟩ := List.mem_iff_getElem?.mp hclaim
    rcases hclaims i claim hi with hold | ⟨hnew, -⟩
    · have hmem := List.mem_of_getElem? hold
      obtain ⟨row, hrow, -⟩ := h.consistent.claims claim hmem
      exact hmoves.priors _ row hrow (h.claims claim hmem)
    · exact hnew
  · rcases hremote hc key row hrow with hold | hnew
    · have hreceiver : s.receiver d = s.remote := by rw [System.receiver, hc]; rfl
      obtain ⟨row', hrow', -⟩ := h.consistent.replicates key row (hreceiver ▸ hold)
      exact hmoves.priors key row' hrow' (h.remote hc key row hold)
    · exact hnew
  · rcases hcalls p hp with hold | ⟨hnew, -⟩
    · exact h.roles hc p hold c hphase
    · exact hnew hc c hphase
  · rcases hresponses p hp with hold | hnew
    · obtain ⟨claim', hclaim'⟩ := hclaimed p hold
      have heq := hextends _ _ hclaim'
      rw [hclaim] at heq
      cases heq
      exact (h.responses p hold htag claim hclaim').mono hmoves
    · exact (hnew claim hclaim).1 htag
  · obtain ⟨i, hi⟩ := List.mem_iff_getElem?.mp ha
    rcases hstages i a hi with hold | ⟨hnew, -⟩
    · exact (h.stages a (List.mem_of_getElem? hold) conclusion hstage hstate).mono hmoves
    · exact hnew conclusion hstage hstate
  · rcases hacknowledged key p hp hstate with ⟨q, hq, hqstate⟩ | hnew
    · exact (h.acknowledged key q hq hqstate).mono hmoves
    · exact hnew
  · rcases hclaims i claim hclaim with hold | ⟨-, hsmooth⟩
    · have hlease' := hmoves.leases claim (List.mem_of_getElem? hold) hlease
      have hsmooth := h.attempts i claim hold hlease'
      refine ⟨fun call hcall => ?_, fun response hresponse => ?_, fun a status error ha hstage => ?_⟩
      · rcases hcalls _ hcall with hmem | ⟨-, hnew⟩
        · exact hsmooth.calls call hmem
        · exact hnew claim hold hlease'
      · rcases hresponses _ hresponse with hmem | hnew
        · exact hsmooth.responses response hmem
        · exact (hnew claim hclaim).2 hlease'
      · have heq := System.claims_of_attempt ha
        rw [hclaim] at heq
        cases heq
        rcases hstages i a ha with hmem | ⟨-, hnew⟩
        · exact hsmooth.stage a status error hmem hstage
        · exact hnew hlease' status error hstage
    · exact hsmooth
  · rcases hfinishes finish hfinish with hold | hnew
    · exact h.finishes finish hold
    · exact hnew

/-- The grantor's store moves on by itself. -/
theorem Unblocked.of_origin (h : Unblocked d s) {origin : Store}
    (hconsistent : Consistent d { s with origin }) (hmoves : Moves d s { s with origin })
    (horigin : origin.Authoritative d.codec) (hcollocated : origin.collocated = s.origin.collocated)
    (hlineages : ∀ id lineage, s.origin.lineages.find id = some lineage → ∃ lineage',
      origin.lineages.find id = some lineage' ∧ lineage'.granteeDid = lineage.granteeDid)
    (hacknowledged : ∀ key p, origin.publications.find key = some p → p.state = .acknowledged →
      (∃ p, s.origin.publications.find key = some p ∧ p.state = .acknowledged) ∨
        Referenced d s key.1) :
    Unblocked d { s with origin } := by
  refine h.of_moves hconsistent hmoves horigin (fun id account haccount => ?_)
    (fun _ _ hc => .inl hc) (fun _ _ hc => hc) (fun _ _ _ hrow => .inl hrow)
    (fun _ hp => .inl hp) (fun _ hp => .inl hp) (fun _ _ ha => .inl ha)
    (fun key p hp hstate => (hacknowledged key p hp hstate).imp_right fun hr => hr.mono hmoves)
    (fun _ hf => .inl hf)
  simp only [hcollocated] at haccount
  obtain ⟨lineage, hlineage, heq⟩ := h.references id account haccount
  obtain ⟨lineage', hlineage', hgrantee⟩ := hlineages id lineage hlineage
  exact ⟨lineage', hlineage', by rw [heq, hgrantee]⟩

/-- A new publication neither takes a lease nor an acknowledgement away. -/
theorem moves_of_insertPublication {store : Store} {ambient : Ambient} {payload : HailGrant}
    {destination : String} (hpublications : store.publications = s.origin.publications)
    (hcollocated : store.collocated = s.origin.collocated)
    (hlast : ∀ k row, s.origin.revisions.find (payload.grantId, k) = some row →
      k < payload.revision) :
    Moves d s { s with origin := store.insertPublication ambient payload destination } := by
  refine ⟨fun key row hrow hpriors => ?_, fun claim _ hlease => ?_, fun id account h => ?_⟩
  · refine priors_of_publications (fun key' p' hp' => ?_) hrow hpriors
    rcases find_insertPublication hp' with ⟨rfl, -⟩ | hold
    · exact .inr hlast
    · exact .inl ⟨p', hpublications ▸ hold, id⟩
  · obtain ⟨p, expires, hp, hheld, hopen⟩ := hlease
    rcases find_insertPublication hp with ⟨-, -, hfree⟩ | hold
    · rw [hfree] at hheld
      cases hheld
    · exact ⟨p, expires, hpublications ▸ hold, hheld, hopen⟩
  · exact hcollocated ▸ h

/-- A row of the queue changes: its acknowledgement stays, and no claim made before holds it. -/
theorem moves_of_withPublication {key : Uuid × Nat} {p p' : Publication}
    (horigin : t.origin = s.origin.withPublication key p')
    (hfind : s.origin.publications.find key = some p)
    (hstate : p.state = .acknowledged → p'.state = .acknowledged)
    (hlease : ∀ claim ∈ s.claims, ∀ expires, claim.key = key →
      p'.lease ≠ some (claim.leaseToken, expires)) : Moves d s t := by
  refine ⟨fun key row hrow hpriors => ?_, fun claim hclaim hleases => ?_, fun id account h => ?_⟩
  · refine priors_of_publications (fun key' q hq => .inl ?_) hrow hpriors
    rw [horigin] at hq
    rcases find_withPublication hq with ⟨rfl, rfl⟩ | hold
    · exact ⟨p, hfind, hstate⟩
    · exact ⟨q, hold, id⟩
  · obtain ⟨q, expires, hq, hheld, hopen⟩ := hleases
    rw [horigin] at hq
    rcases find_withPublication hq with ⟨hkey, rfl⟩ | hold
    · exact absurd hheld (hlease claim hclaim expires hkey)
    · exact ⟨q, expires, hold, hheld, hopen⟩
  · rw [horigin]
    exact h

/-- An agreeable response does not block by a conflict. -/
theorem conclude_block {serviceBase : String} {claim : GrantPublicationClaim} {now : Nat}
    {jitter : Nat → Nat} {response : Response} {status : Nat} {error : String}
    (h : conclude serviceBase claim now jitter response = .ok (.block status error))
    (hagreeable : Agreeable claim response) : conflictStatus status = false := by
  simp only [conclude] at h
  split at h
  · split at h
    · cases h
    · split at h <;> cases h
  · rename_i hfailed
    split at h
    · cases h
      by_contra hconflict
      simp only [conflictStatus, Bool.or_eq_false_iff, decide_eq_false_iff_not, not_and_or,
        not_not] at hconflict
      obtain ⟨hfirst, hstatus, htag⟩ := hagreeable hconflict
      exact hfailed ⟨by simp [hfirst, hstatus], htag⟩
    · cases h

/-- An attempt moves on. -/
theorem Unblocked.of_stage (h : Unblocked d s) {i : Nat} {a : Attempt} {stage : Stage}
    (hconsistent : Consistent d (s.setStage i a stage)) (hattempt : s.attempts[i]? = some a)
    (hreferenced : ∀ conclusion, stage = .finishing conclusion →
      conclusion.state = .acknowledged → Referenced d s a.claim.grant.payload.grantId)
    (hblock : s.origin.Leases a.claim → ∀ status error,
      stage = .finishing (.block status error) → conflictStatus status = false) :
    Unblocked d (s.setStage i a stage) := by
  have hclaims : (s.setStage i a stage).claims = s.claims := System.setStage_claims hattempt stage
  refine h.of_moves hconsistent (.of_eq rfl) h.origin h.references
    (fun _ _ hc => .inl (hclaims ▸ hc)) (fun _ _ hc => hclaims ▸ hc) (fun _ _ _ hrow => .inl hrow)
    (fun _ hp => .inl hp) (fun _ hp => .inl hp) (fun j b hb => ?_)
    (fun key p hp hstate => .inl ⟨p, hp, hstate⟩) (fun _ hf => .inl hf)
  rw [System.setStage, List.getElem?_set] at hb
  split at hb
  · split at hb
    · cases hb
      exact .inr ⟨hreferenced, hblock⟩
    · cases hb
  · exact .inl hb

theorem Unblocked.of_read (h : Unblocked d s) {i now : Nat} {jitter : Nat → Nat} {a : Attempt}
    {response : Response} (hconsistent : Consistent d (s.read d i a now jitter response))
    (hattempt : s.attempts[i]? = some a)
    (hreferenced : response.etag.isSome →
      [201, 204, 409, 412].contains response.status = true →
      Referenced d s a.claim.grant.payload.grantId)
    (hagreeable : s.origin.Leases a.claim → Agreeable a.claim response) :
    Unblocked d (s.read d i a now jitter response) := by
  unfold System.read at hconsistent ⊢
  cases hconclude : conclude d.serviceBase a.claim now jitter response with
  | error message =>
    rw [hconclude] at hconsistent
    exact h.of_stage hconsistent hattempt (by simp) (by simp)
  | ok concluded =>
    rw [hconclude] at hconsistent
    refine h.of_stage hconsistent hattempt (fun conclusion hstage hstate => ?_)
      fun hlease status error hstage => ?_
    · cases hstage
      obtain ⟨htag, hstatus⟩ := conclude_acknowledged hconclude hstate
      exact hreferenced (by rw [htag, Option.isSome_some]) hstatus
    · cases hstage
      exact conclude_block hconclude (hagreeable hlease)

/-- An attempt writes a conclusion that is no block by a conflict. -/
theorem Unblocked.of_write (h : Unblocked d s) {i : Nat} {a : Attempt} {conclusion : Conclusion}
    {context : QueueContext} {next : Fault → Stage}
    (hconsistent : Consistent d (s.write i a conclusion context next))
    (hattempt : s.attempts[i]? = some a)
    (hstage : conclusion.state = .acknowledged → a.stage = .finishing conclusion)
    (hnext : ∀ fault conclusion, next fault ≠ .finishing conclusion)
    (hharmless : Finish.Harmless ⟨i, conclusion.state, (conclusion.result a.claim).httpStatus⟩) :
    Unblocked d (s.write i a conclusion context next) := by
  unfold System.write at hconsistent ⊢
  set called : Finish := ⟨i, conclusion.state, (conclusion.result a.claim).httpStatus⟩
  have hlogged : Unblocked d { s with finishes := s.finishes ++ [called] } := by
    refine ⟨⟨h.consistent.origin, h.consistent.receiver, h.consistent.replicates,
      h.consistent.remote, h.consistent.claims, h.consistent.calls, h.consistent.responses,
      h.consistent.stages, h.consistent.acknowledged⟩, h.origin, h.references, h.claims, h.remote,
      h.roles, h.responses, h.stages, h.acknowledged, fun j claim hj hlease => ?_,
      fun finish hfinish => ?_⟩
    · have hsmooth := h.attempts j claim hj hlease
      exact ⟨hsmooth.calls, hsmooth.responses, hsmooth.stage⟩
    · rcases List.mem_append.mp hfinish with hold | hnew
      · exact h.finishes finish hold
      · exact List.mem_singleton.mp hnew ▸ hharmless
  cases hfinish : conclusion.finish s.origin context a.claim with
  | error fault =>
    simp only [hfinish] at hconsistent ⊢
    exact hlogged.of_stage hconsistent hattempt
      (fun next' hnext' => absurd hnext' (hnext fault next'))
      fun _ status error hnext' => absurd hnext' (hnext fault _)
  | ok origin =>
    simp only [hfinish] at hconsistent ⊢
    obtain ⟨⟨p, expires, hfind, hlease, hopen⟩, p', hstate, hfree, rfl⟩ :=
      Conclusion.finish_ok hfinish
    have hstaged : Consistent d
        (({ s with finishes := s.finishes ++ [called] } : System).setStage i a .ended) :=
      hlogged.consistent.of_stage hattempt (by simp)
    have hended := hlogged.of_stage hstaged hattempt (by simp) (by simp)
    have hunacknowledged : p.state ≠ .acknowledged :=
      not_acknowledged_of_leases ⟨p, expires, hfind, hlease, hopen⟩ hfind
    refine hended.of_origin hconsistent ?_ (h.origin.withPublication _ _) rfl
      (fun id lineage hl => ⟨lineage, hl, rfl⟩) fun key q hq hacked => ?_
    · refine moves_of_withPublication rfl hfind (fun hacked => absurd hacked hunacknowledged) ?_
      simp [hfree]
    · rcases find_withPublication hq with ⟨rfl, rfl⟩ | hold
      · rw [hstate] at hacked
        exact .inr (h.stages a (List.mem_of_getElem? hattempt) conclusion (hstage hacked) hacked)
      · exact .inl ⟨q, hold, hacked⟩

/-- The queue leases a publication to a fresh token. -/
theorem moves_of_lease {key : Uuid × Nat} {p : Publication} {lease : Option (Uuid × Nat)}
    {attemptCount now : Nat} {leaseToken : Uuid}
    (horigin : t.origin = s.origin.withPublication key { p with lease, attemptCount })
    (hfind : s.origin.publications.find key = some p)
    (hfresh : ∀ a ∈ s.attempts, a.claim.leaseToken ≠ leaseToken)
    (hlease : lease = some (leaseToken, now)) : Moves d s t := by
  refine moves_of_withPublication horigin hfind (fun h => h) fun claim hclaim expires _ heq => ?_
  obtain ⟨a, ha, rfl⟩ := List.mem_map.mp hclaim
  simp only [hlease, Option.some.injEq, Prod.mk.injEq] at heq
  exact hfresh a ha heq.1.symm

theorem Unblocked.of_lease (h : Unblocked d s) {key : Uuid × Nat} {p : Publication}
    {lease : Option (Uuid × Nat)} {attemptCount now : Nat} {leaseToken : Uuid}
    (hfind : s.origin.publications.find key = some p)
    (hfresh : ∀ a ∈ s.attempts, a.claim.leaseToken ≠ leaseToken)
    (hlease : lease = some (leaseToken, now)) :
    Unblocked d
      { s with origin := s.origin.withPublication key { p with lease, attemptCount } } := by
  refine h.of_origin (h.consistent.of_lease hfind) (moves_of_lease rfl hfind hfresh hlease)
    (h.origin.withPublication _ _) rfl (fun id lineage hl => ⟨lineage, hl, rfl⟩)
    fun key' q hq hacked => .inl ?_
  rcases find_withPublication hq with ⟨rfl, rfl⟩ | hold
  · exact ⟨p, hfind, hacked⟩
  · exact ⟨q, hold, hacked⟩

/-- A new attempt has no call and no response yet. -/
theorem Unblocked.of_attempt (h : Unblocked d s) {claim : GrantPublicationClaim}
    (hstored : claim.grant.StoredIn d.codec s.origin)
    (hpriors : PriorsAcknowledged s.origin claim.key) :
    Unblocked d { s with attempts := s.attempts ++ [⟨claim, .requesting⟩] } := by
  set t : System := { s with attempts := s.attempts ++ [⟨claim, .requesting⟩] } with ht
  have hclaims : t.claims = s.claims ++ [claim] := List.map_append
  have hcases : ∀ (i : Nat) c, t.claims[i]? = some c →
      s.claims[i]? = some c ∨ (i = s.claims.length ∧ c = claim) := by
    intro i c hc
    rw [hclaims, List.getElem?_append] at hc
    split at hc
    · exact .inl hc
    · right
      rw [List.getElem?_singleton] at hc
      split at hc
      · cases hc
        exact ⟨by omega, rfl⟩
      · cases hc
  have hnone : s.claims[s.claims.length]? = none := List.getElem?_eq_none (le_refl _)
  refine h.of_moves (h.consistent.of_attempt hstored) (.of_eq rfl) h.origin h.references
    (fun i c hc => ?_) (fun i c hc => ?_) (fun _ _ _ hrow => .inl hrow)
    (fun _ hp => .inl hp) (fun _ hp => .inl hp) (fun i a ha => ?_)
    (fun key p hp hstate => .inl ⟨p, hp, hstate⟩) (fun _ hf => .inl hf)
  · rcases hcases i c hc with hold | ⟨rfl, rfl⟩
    · exact .inl hold
    · refine .inr ⟨hpriors, fun call hcall => ?_, fun response hresponse => ?_,
        fun a status error ha hstage => ?_⟩
      · obtain ⟨c', hc', -⟩ := h.consistent.calls _ hcall
        rw [hnone] at hc'
        cases hc'
      · obtain ⟨c', hc', -⟩ := h.consistent.responses _ hresponse
        rw [hnone] at hc'
        cases hc'
      · have hlength : s.claims.length = s.attempts.length := List.length_map _
        rw [ht, hlength] at ha
        simp only [List.getElem?_concat_length, Option.some.injEq] at ha
        subst ha
        cases hstage
  · obtain ⟨hlt, -⟩ := List.getElem?_eq_some_iff.mp hc
    rw [hclaims, List.getElem?_append_left hlt, hc]
  · rw [ht] at ha
    simp only [List.getElem?_append] at ha
    split at ha
    · exact .inl ha
    · rw [List.getElem?_singleton] at ha
      split at ha
      · cases ha
        exact .inr ⟨by simp, by simp⟩
      · cases ha

/-- A request of the publisher is refused before the store is read only as a bad request or a
misdirected one. -/
theorem receive_error_status {codec : Codec} {claim : GrantPublicationClaim} {serviceBase : String}
    {auth : Authentication} {wallClock : Nat} {request : Request} {answer : Answer}
    (hgenuine : claim.grant.Genuine codec) (hrequest : publicationRequest claim = some request)
    (h : receive codec serviceBase auth wallClock request = .error answer) :
    answer.status = 400 ∨ answer.status = 421 := by
  obtain ⟨conditions, hconditions, rfl⟩ := Option.map_eq_some_iff.mp hrequest
  simp only [receive, bind, Except.bind] at h
  split at h
  · rename_i herror
    cases h
    simp only [authenticate] at herror
    split at herror
    · split at herror
      · cases herror
        exact .inl rfl
      · split at herror
        · cases herror
          exact .inr rfl
        · split at herror
          · cases herror
            exact .inl rfl
          · split at herror <;> cases herror
            exact .inl rfl
    · cases herror
      exact .inl rfl
  · rename_i input hauthenticate
    obtain ⟨hinput, hrepresentation, -⟩ := authenticate_ok hauthenticate
    have hpayload : input.payload = claim.grant.payload :=
      Option.some.inj (hinput.inspected.symm.trans
        ((congrArg _ hrepresentation).trans hgenuine.inspected))
    split at h
    · rename_i herror
      cases h
      simp only [checkTimestamps] at herror
      split at herror <;> cases herror
      exact .inl rfl
    · -- The publisher's own conditions are the ones its revision must come with.
      have hmet : checkConditions input.payload conditions = .ok () := by
        rw [hpayload]
        have hshape := claim.grant.payload.previous_shape
        simp only [conditionHeaders] at hconditions
        by_cases hfirst : claim.grant.payload.revision = 1
        · simp only [hfirst, if_true, Option.some.injEq] at hconditions
          subst hconditions
          simp [checkConditions, hfirst]
        · simp only [hfirst, if_false] at hconditions
          obtain ⟨previous, hprevious, rfl⟩ := Option.map_eq_some_iff.mp hconditions
          rw [hprevious] at hshape
          simp [checkConditions, hfirst, hprevious, parseStrongEtag_etag hshape.2]
      simp only [hmet] at h
      cases h

/-- A reference is added at most. -/
theorem moves_of_reference {id account : Uuid}
    (horigin : t.origin = s.origin ∨ t.origin =
      { s.origin with collocated := s.origin.collocated.insertNew id account }) : Moves d s t := by
  rcases horigin with horigin | horigin
  · exact .of_eq horigin
  · refine ⟨?_, ?_, fun id' account' h => ?_⟩
    · rw [horigin]
      exact fun _ _ _ h => h
    · rw [horigin]
      exact fun _ _ h => h
    · rw [horigin, Table.find_insertNew]
      split
      · rename_i heq
        rw [← heq, h, Option.getD_some]
      · exact h

/-- A step of a call away from the two conflicts. -/
theorem Unblocked.of_call (h : Unblocked d s) {attempt index : Nat} {call : Call}
    {ambient : Ambient} {store : Store} {next : Call ⊕ Answer}
    (hcall : s.calls[index]? = some (attempt, call))
    (haccount : ambient.account call.input.localAccountId =
      some ⟨some call.input.payload.grantee, true⟩)
    (hovertaken : overtaken (s.receiver d) call = false)
    (hcontested : contested (s.receiver d) call = false)
    (hadvance : call.advance d.codec (s.receiver d) ambient = (store, next))
    {calls : List (Nat × Call)} {responses : List (Nat × Response)}
    (hcalls : ∀ p ∈ calls, p ∈ s.calls ∨ ∃ call', next = .inl call' ∧ p = (attempt, call'))
    (hresponses : ∀ p ∈ responses, p ∈ s.responses ∨ ∃ answer, next = .inr answer ∧
      p = (attempt, answer.response d.serviceBase call.input.payload.grantId)) :
    Unblocked d { s.withReceiver d store with calls, responses } := by
  have hconsistent := h.consistent.of_call hcall hadvance hcalls hresponses
  have hmem := List.mem_of_getElem? hcall
  obtain ⟨claim, hclaim, hcarries⟩ := h.consistent.calls _ hmem
  have hclaim' := List.mem_of_getElem? hclaim
  have hstep := callStep h.consistent.receiver hcarries.sound hcarries.winner hadvance
  set t : System := { s.withReceiver d store with calls, responses } with ht
  have horigin : t.origin = if d.collocated then store else s.origin := System.origin_withReceiver
  have hattempts : t.attempts = s.attempts := System.attempts_withReceiver
  have hclaims : t.claims = s.claims := by rw [System.claims, System.claims, hattempts]
  have hfinishes : t.finishes = s.finishes := by
    simp only [ht, System.withReceiver]
    split <;> rfl
  -- The grantor's store changes only where it is also the receiver's, by a reference.
  have hchange : t.origin = s.origin ∨ t.origin = { s.origin with
      collocated := s.origin.collocated.insertNew call.input.payload.grantId
        call.input.localAccountId } := by
    rw [horigin]
    split
    · rename_i hc
      exact (h.collocated_step hc hmem hclaim' hcarries hadvance).1
    · exact .inl rfl
  have hpublications : t.origin.publications = s.origin.publications := by
    rcases hchange with heq | heq <;> rw [heq]
  have hsame : t.origin.lineages = s.origin.lineages ∧
      t.origin.revisions = s.origin.revisions := by
    rcases hchange with heq | heq <;> rw [heq] <;> exact ⟨rfl, rfl⟩
  have hproceeds := fun hlease => h.call_step hclaim' hlease hcarries
    ((h.attempts attempt claim hclaim hlease).calls call hmem) hovertaken hcontested haccount
    hadvance
  refine h.of_moves hconsistent (moves_of_reference hchange)
    (h.origin.of_eq hsame.1 hsame.2 fun key p hp => ⟨p, hpublications ▸ hp⟩)
    (fun id account haccount => ?_) (fun _ _ hc => .inl (hclaims ▸ hc))
    (fun _ _ hc => hclaims ▸ hc) (fun hc key row hrow => ?_) (fun p hp => ?_) (fun p hp => ?_)
    (fun _ _ ha => .inl (hattempts ▸ ha)) (fun key p hp hstate => .inl ⟨p, hpublications ▸ hp, hstate⟩)
    (fun finish hfinish => .inl (hfinishes ▸ hfinish))
  · rw [hsame.1]
    rcases hchange with heq | heq <;> rw [heq] at haccount
    · exact h.references id account haccount
    · rw [Table.find_insertNew] at haccount
      split at haccount
      · rename_i hid
        cases hold : s.origin.collocated.find call.input.payload.grantId with
        | some old =>
          rw [hold, Option.getD_some, Option.some.injEq] at haccount
          exact h.references id account (by rw [hid, hold, haccount])
        | none =>
          rw [hold, Option.getD_none, Option.some.injEq] at haccount
          obtain ⟨lineage, hlineage, -, hgrantee⟩ := h.lineage hclaim'
          refine ⟨lineage, ?_, ?_⟩
          · rw [hid, hcarries.payload_eq, hlineage]
          · rw [← haccount, hcarries.account_eq, hgrantee]
      · exact h.references id account haccount
  · have hremote : t.remote = store := by
      simp only [ht, System.withReceiver, hc, Bool.false_eq_true, if_false]
    have hreceiver : s.receiver d = s.remote := by rw [System.receiver, hc]; rfl
    have hunchanged : t.origin = s.origin := by rw [horigin, hc]; rfl
    rw [hremote] at hrow
    rcases hstep.added key row hrow with hold | ⟨hkey, -⟩
    · exact .inl (hreceiver ▸ hold)
    · right
      rw [hunchanged, hkey, hcarries.payload_eq]
      exact h.claims claim hclaim'
  · rcases hcalls p hp with hold | ⟨call', rfl, rfl⟩
    · exact .inl hold
    · refine .inr ⟨fun hc => ?_, fun claim₁ hclaim₁ hlease => ?_⟩
      · exact (h.collocated_step hc hmem hclaim' hcarries hadvance).2.1 call' rfl
      · rw [hclaim] at hclaim₁
        cases hclaim₁
        exact (hproceeds hlease).1 call' rfl
  · rcases hresponses p hp with hold | ⟨answer, rfl, rfl⟩
    · exact .inl hold
    · refine .inr fun claim₁ hclaim₁ => ?_
      rw [hclaims, hclaim] at hclaim₁
      cases hclaim₁
      refine ⟨fun htag hc => ?_, fun hlease => (hproceeds hlease).2 answer rfl⟩
      rw [horigin, if_pos hc]
      refine (h.collocated_step hc hmem hclaim' hcarries hadvance).2.2 answer rfl ?_
      unfold Answer.response at htag
      split at htag
      · rename_i hetag
        rw [hetag, Option.isSome_some]
      · cases htag

/-- The row of a claim still carries its lease. -/
def leases (store : Store) (claim : GrantPublicationClaim) : Bool :=
  match store.publications.find claim.key with
  | some p => p.lease.any (fun lease => lease.1 = claim.leaseToken) && p.unfinished
  | none => false

theorem leases_of_eq_true {store : Store} {claim : GrantPublicationClaim}
    (h : leases store claim = true) : store.Leases claim := by
  unfold leases at h
  cases hfind : store.publications.find claim.key with
  | none => simp [hfind] at h
  | some p =>
    cases hlease : p.lease with
    | none => simp [hfind, hlease] at h
    | some lease =>
      simp only [hfind, hlease, Option.any_some, Bool.and_eq_true, decide_eq_true_eq] at h
      obtain ⟨htoken, hopen⟩ := h
      exact ⟨p, lease.2, hfind, by rw [hlease, ← htoken], hopen⟩

/-- The events that keep away from the conflicts: a call steps neither overtaken nor contested,
and a rejection is written only by an attempt that still holds its lease. -/
def clear (d : Deployment) (s : System) : Event → Bool
  | .advance index _ =>
    match s.calls[index]? with
    | some (_, call) => !overtaken (s.receiver d) call && !contested (s.receiver d) call
    | none => true
  | .finish attempt _ _ =>
    match s.attempts[attempt]? with
    | some ⟨claim, .finishing (.block _ _)⟩ => leases s.origin claim
    | _ => true
  | _ => true

theorem clear_advance {index : Nat} {ambient : Ambient} {attempt : Nat} {call : Call}
    (h : clear d s (.advance index ambient) = true)
    (hcall : s.calls[index]? = some (attempt, call)) :
    overtaken (s.receiver d) call = false ∧ contested (s.receiver d) call = false := by
  simpa [clear, hcall] using h

theorem clear_finish {attempt : Nat} {context : QueueContext} {jitter : Nat → Nat} {a : Attempt}
    {status : Nat} {error : String} (h : clear d s (.finish attempt context jitter) = true)
    (hattempt : s.attempts[attempt]? = some a)
    (hstage : a.stage = .finishing (.block status error)) : s.origin.Leases a.claim := by
  obtain ⟨claim, stage⟩ := a
  simp only at hstage
  subst hstage
  simp only [clear, hattempt] at h
  exact leases_of_eq_true h

theorem Unblocked.step (h : Unblocked d s) {event : Event} (hclear : clear d s event = true)
    (hstep : Step d s event t) : Unblocked d t := by
  have hconsistent := h.consistent.step hstep
  cases hstep with
  | raised => exact h
  | inserted hok =>
    have hauthoritative := h.origin.insertAuthoritativeRevision1 h.consistent.origin hok
    obtain ⟨hcan, rfl⟩ := Store.insertAuthoritativeRevision1_ok hok
    refine h.of_origin hconsistent (moves_of_insertPublication rfl rfl fun k row hrow => ?_)
      hauthoritative rfl (fun id lineage hl => ⟨lineage, ?_, rfl⟩) fun key p hp hacked => .inl ?_
    · obtain ⟨lineage, hlineage⟩ := h.consistent.origin.owned _ _ _ hrow
      rw [hcan.absent] at hlineage
      cases hlineage
    · simp only [Store.insertPublication, Store.insertConsent, Store.begun]
      rw [Table.find_insert_of_ne _ _ ?_, hl]
      rintro rfl
      rw [hcan.absent] at hl
      cases hl
    · obtain ⟨-, hpending, -⟩ | hold := find_insertPublication hp
      · rw [hpending] at hacked
        cases hacked
      · exact ⟨p, hold, hacked⟩
  | appended hok =>
    have hauthoritative := h.origin.appendAuthoritativeUpdate h.consistent.origin hok
    obtain ⟨lineage, row, current, destination, hcan, -, -, -, rfl⟩ :=
      Store.appendAuthoritativeUpdate_ok hok
    have hstored := (h.consistent.origin.sound _ _ hcan.lineage_eq).stored
    refine h.of_origin hconsistent (moves_of_insertPublication
        (Store.withConsent_publications _ _) (Store.withConsent_collocated _ _)
        fun k r hr => ?_)
      hauthoritative (Store.withConsent_collocated _ _) (fun id l hl => ?_)
      fun key p hp hacked => .inl ?_
    · have hle := (hstored k).mp ⟨r, hr⟩
      have hnext := hcan.next
      omega
    · simp only [Store.insertPublication, Store.withConsent_lineages]
      rw [Store.extended, Table.find_insert]
      split
      · rename_i hid
        rw [hid, hcan.lineage_eq] at hl
        cases hl
        exact ⟨_, rfl, rfl⟩
      · exact ⟨l, hl, rfl⟩
    · obtain ⟨-, hpending, -⟩ | hold := find_insertPublication hp
      · rw [hpending] at hacked
        cases hacked
      · rw [Store.withConsent_publications] at hold
        exact ⟨p, hold, hacked⟩
  | leased hfind _ hfresh hlease => exact h.of_lease hfind hfresh hlease
  | @claimed context locked leaseToken key p lease attemptCount claim hfind _ hfresh hlease hpriors
      hkey _ hstored =>
      refine (h.of_lease hfind hfresh hlease).of_attempt hstored ?_
      have hpriors' : PriorsAcknowledged s.origin claim.key :=
        hkey ▸ Store.priorsAcknowledged_eq_true.mp hpriors
      obtain ⟨row, hrow, -⟩ := hstored
      exact (moves_of_lease (d := d) (t := { s with origin := _ }) rfl hfind hfresh hlease).priors
        _ row hrow hpriors'
  | @delivered attempt auth wallClock a request call hattempt hrequest haccount hok =>
    obtain ⟨hphase, -⟩ := receive_ok hok
    refine h.of_moves hconsistent (.of_eq rfl) h.origin h.references (fun _ _ hc => .inl hc)
      (fun _ _ hc => hc) (fun _ _ _ hrow => .inl hrow) (fun p hp => ?_) (fun _ hp => .inl hp)
      (fun _ _ ha => .inl ha) (fun key p hp hstate => .inl ⟨p, hp, hstate⟩)
      (fun _ hf => .inl hf)
    rcases List.mem_append.mp hp with hold | hnew
    · exact .inl hold
    · obtain rfl := List.mem_singleton.mp hnew
      exact .inr ⟨by simp [hphase], fun _ _ _ => by simp [Proceeding, hphase]⟩
  | @refused attempt auth wallClock a request answer hattempt hrequest herror =>
    refine h.of_moves hconsistent (.of_eq rfl) h.origin h.references (fun _ _ hc => .inl hc)
      (fun _ _ hc => hc) (fun _ _ _ hrow => .inl hrow) (fun _ hp => .inl hp) (fun p hp => ?_)
      (fun _ _ ha => .inl ha) (fun key p hp hstate => .inl ⟨p, hp, hstate⟩)
      (fun _ hf => .inl hf)
    rcases List.mem_append.mp hp with hold | hnew
    · exact .inl hold
    · obtain rfl := List.mem_singleton.mp hnew
      have hgenuine := storedIn_digest (h.consistent.claims _
        (List.mem_map_of_mem (List.mem_of_getElem? hattempt)))
      have hstatus := receive_error_status hgenuine hrequest herror
      have htag := receive_error herror
      refine .inr fun claim hclaim => ⟨fun hsome => ?_, fun _ hconflict => ?_⟩
      · simp [Answer.response, htag] at hsome
      · simp only [Answer.response, htag] at hconflict
        rcases hstatus with hstatus | hstatus <;> simp [hstatus] at hconflict
  | @advanced index ambient attempt call store call' hcall haccount hadvance =>
    obtain ⟨hovertaken, hcontested⟩ := clear_advance hclear hcall
    refine h.of_call hcall haccount hovertaken hcontested hadvance (fun p hp => ?_) fun p hp =>
      .inl (System.responses_withReceiver ▸ hp)
    rcases List.mem_or_eq_of_mem_set hp with hold | rfl
    · exact .inl hold
    · exact .inr ⟨call', rfl, rfl⟩
  | answered hcall haccount hadvance =>
    obtain ⟨hovertaken, hcontested⟩ := clear_advance hclear hcall
    refine h.of_call hcall haccount hovertaken hcontested hadvance
      (fun p hp => .inl (List.mem_of_mem_eraseIdx hp)) fun p hp => ?_
    rcases List.mem_append.mp hp with hold | hnew
    · exact .inl hold
    · exact .inr ⟨_, rfl, List.mem_singleton.mp hnew⟩
  | concluded hattempt hresponse =>
    have hmem := List.mem_of_getElem? hresponse
    have hclaim := System.claims_of_attempt hattempt
    exact h.of_read hconsistent hattempt (fun htag _ => h.responses _ hmem htag _ hclaim)
      fun hlease => (h.attempts _ _ hclaim hlease).responses _ hmem
  | interrupted hattempt hstatus =>
    refine h.of_read hconsistent hattempt (fun _ hcontains => ?_) fun _ hconflict => ?_
    · rw [hstatus] at hcontains
      cases hcontains
    · rcases hconflict with hconflict | hconflict <;> simp [hconflict] at hstatus
  | failed hattempt => exact h.of_stage hconsistent hattempt (by simp) (by simp)
  | @finishing attempt context jitter a conclusion hattempt hstage =>
    refine h.of_write hconsistent hattempt (fun _ => hstage) (by simp) fun hblocked status hs => ?_
    cases conclusion with
    | acknowledge _ _ => cases hblocked
    | retry _ _ _ => cases hblocked
    | block code error =>
      cases hs
      have hclaim := System.claims_of_attempt hattempt
      have hlease := clear_finish hclear hattempt hstage
      exact (h.attempts _ _ hclaim hlease).stage a _ _ hattempt hstage
  | recovering hattempt hstage =>
    refine h.of_write hconsistent hattempt (fun hstate => ?_) (by simp) fun hblocked => ?_
    · cases hstate
    · cases hblocked

theorem unblocked_initial : Unblocked d .initial := by
  have hempty : ∀ {κ ρ : Type} [DecidableEq κ] {key : κ} {row : ρ},
      (∅ : Table κ ρ).find key ≠ some row := by
    intro κ ρ _ key row
    rw [Table.find_empty]
    simp
  have horigin : System.initial.origin.Authoritative d.codec :=
    ⟨fun _ _ h => absurd h hempty, fun _ _ h => absurd h hempty,
      fun _ _ _ _ _ _ h => absurd h hempty, fun _ _ h => absurd h hempty,
      fun _ _ _ _ _ h => absurd h hempty⟩
  exact ⟨consistent_initial, horigin, fun _ _ h => absurd h hempty,
    by simp [System.initial, System.claims], fun _ _ _ h => absurd h hempty,
    by simp [System.initial], by simp [System.initial], by simp [System.initial],
    fun _ _ h => absurd h hempty, by simp [System.initial, System.claims],
    by simp [System.initial]⟩

/-- `finishPublication` was never called with `blocked` because of a 409 or a 412 answer. -/
def NeverBlocked (s : System) : Prop :=
  ∀ finish ∈ s.finishes, finish.state = .blocked →
    finish.httpStatus ≠ some 409 ∧ finish.httpStatus ≠ some 412

/-- In every run that keeps away from the conflicts, no publication is blocked by one. -/
theorem never_blocked_when_clear
    (h : Reaches (System.step d) (fun s event => clear d s event = true) .initial s) :
    NeverBlocked s := by
  have hunblocked : Unblocked d s :=
    h.invariant unblocked_initial fun _ hs hclear hstep => hs.step hclear (step_of_eq hstep)
  intro finish hfinish hblocked
  have hharmless := hunblocked.finishes finish hfinish hblocked
  constructor
  · intro hstatus
    exact absurd (hharmless 409 hstatus) (by decide)
  · intro hstatus
    exact absurd (hharmless 412 hstatus) (by decide)

namespace Scenario

/-- The first revision is delivered again, and its attempt ends with the answer. -/
def retried : List Event := lostAnswer ++
  [.deliver 1 authentication 1787851260,
    .advance 0 Sample.ambient,
    .advance 0 Sample.ambient,
    .conclude 1 1 (start + 60000) (fun base => base * 1000),
    .finish 1 (queue (start + 60000)) (fun base => base * 1000)]

end Scenario

/-- At another provider the retry converges, in a run without a conflict. -/
theorem never_blocked_retry : ∃ s,
    execWhere (System.step (Scenario.deployment false)) (clear (Scenario.deployment false)) .initial
      Scenario.retried = some s ∧
    s.finishes = [⟨0, .retry, none⟩, ⟨1, .acknowledged, some 412⟩] ∧ NeverBlocked s := by
  have hrun : (execWhere (System.step (Scenario.deployment false))
      (clear (Scenario.deployment false)) .initial Scenario.retried).map System.finishes =
        some [⟨0, .retry, none⟩, ⟨1, .acknowledged, some 412⟩] := by decide +kernel
  simp only [Option.map_eq_some_iff] at hrun
  obtain ⟨s, hs, hfinishes⟩ := hrun
  exact ⟨s, hs, hfinishes, never_blocked_when_clear (reaches_of_execWhere hs)⟩

/-- At the grantor's own provider the retry finds the restriction as the current revision; its
409 blocks the publication, and with it every later one. -/
theorem blocked_at_own_provider : ∃ s,
    Reachable (System.step (Scenario.deployment true)) .initial s ∧
    ⟨1, .blocked, some 409⟩ ∈ s.finishes ∧ ¬NeverBlocked s := by
  have hrun : (exec (System.step (Scenario.deployment true)) .initial Scenario.retried).map
      System.finishes = some [⟨0, .retry, none⟩, ⟨1, .blocked, some 409⟩] := by decide +kernel
  simp only [Option.map_eq_some_iff] at hrun
  obtain ⟨s, hs, hfinishes⟩ := hrun
  have hmem : (⟨1, .blocked, some 409⟩ : Finish) ∈ s.finishes := by simp [hfinishes]
  refine ⟨s, reachable_of_exec hs, hmem, fun hnever => ?_⟩
  exact (hnever _ hmem rfl).1 rfl

end HailProto.Grants.Replication
