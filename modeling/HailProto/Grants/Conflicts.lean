import HailProto.Grants.Publisher
import HailProto.Grants.Lineage

/-!
# What keeps a received revision from a conflict

The failures of the storing transaction that the receiver reports as conflicts, and the states
of a store in which none of them occurs. The grantor's own store supplies the rest: each of its
revisions was published, and each passes the receiver's comparison with its predecessor.
-/

namespace HailProto.Grants

open Server

variable {codec : Codec}

/-- A transaction whose failures the receiver answers as outages. -/
def Quiet {α : Type} (result : Except Fault α) : Prop :=
  ∀ fault, result = .error fault → conflictFromPersistence fault = false

namespace Quiet

variable {α β : Type}

theorem ok (a : α) : Quiet (.ok a) := by
  intro fault h
  cases h

theorem error {fault : Fault} (h : conflictFromPersistence fault = false) :
    Quiet (.error fault : Except Fault α) := by
  intro fault' h'
  cases h'
  exact h

theorem bind {x : Except Fault α} {f : α → Except Fault β} (hx : Quiet x)
    (hf : ∀ a, x = .ok a → Quiet (f a)) : Quiet (x >>= f) := by
  intro fault h
  cases hx' : x with
  | error e =>
    rw [hx'] at h
    cases h
    exact hx fault hx'
  | ok a =>
    rw [hx'] at h
    exact hf a hx' fault h

theorem fence (fault : Option FenceFault) : Quiet (raise (fault.map FenceFault.fault)) := by
  cases fault with
  | none => exact ok ()
  | some fault =>
    refine error ?_
    cases fault <;> decide +kernel

theorem authority (fault : Option AuthorityFault) :
    Quiet (raise (fault.map AuthorityFault.fault)) := by
  cases fault with
  | none => exact ok ()
  | some fault =>
    refine error ?_
    cases fault <;> decide +kernel

theorem revisionCheck (row : Revision) : Quiet (raise (Store.revisionCheck row)) := by
  unfold Store.revisionCheck
  split
  · exact error (by decide +kernel)
  · split
    · exact error (by decide +kernel)
    · split
      · exact error (by decide +kernel)
      · split
        · exact error (by decide +kernel)
        · exact ok ()

end Quiet

namespace Store

variable {s t : Store} {ambient : Ambient}

theorem insertLineage_quiet {input : SignedGrantRevision} {role : LocalRole}
    (habsent : s.lineages.find input.payload.grantId = none)
    (hpair : s.PairFree input.payload.grantId input.payload.grantor input.payload.grantee) :
    Quiet (s.insertLineage ambient input role) := by
  refine Quiet.bind (.fence _) fun _ _ => ?_
  rw [habsent, Option.isSome_none, if_neg Bool.false_ne_true]
  split
  · exact .error (by decide +kernel)
  · rw [pairTaken_eq_false.mpr hpair, if_neg Bool.false_ne_true]
    exact .ok _

theorem insertRevision_quiet {input : SignedGrantRevision}
    (hunstored : s.revisions.find (input.payload.grantId, input.payload.revision) = none)
    (hdigest : s.DigestFree input.payload.grantId input.digest) :
    Quiet (s.insertRevision ambient input) := by
  refine Quiet.bind (.fence _) fun _ _ => Quiet.bind (.revisionCheck _) fun _ _ => ?_
  rw [hunstored, Option.isSome_none, if_neg Bool.false_ne_true,
    digestTaken_eq_false.mpr hdigest, if_neg Bool.false_ne_true]
  exact .ok _

/-- The store can take a received revision: it begins a lineage, repeats a stored revision, or
is the next one. -/
inductive Admits (codec : Codec) (s : Store) (input : ReceivedGrantRevision) : Prop
  | first (absent : s.lineages.find input.payload.grantId = none)
      (unstored : ∀ k, s.revisions.find (input.payload.grantId, k) = none)
      (isFirst : input.payload.revision = 1) (active : input.payload.status = .active)
      (pairFree : s.PairFree input.payload.grantId input.payload.grantor input.payload.grantee)
  | collocated {lineage : Lineage} {existing : Revision}
      (lineage_eq : s.lineages.find input.payload.grantId = some lineage)
      (grantor_eq : lineage.grantorDid = input.payload.grantor)
      (grantee_eq : lineage.granteeDid = input.payload.grantee)
      (role : lineage.localRole = .grantor)
      (stored : s.revisions.find (input.payload.grantId, input.payload.revision) = some existing)
      (cose_eq : existing.cose = input.representation)
      (reference : ∀ account, s.collocated.find input.payload.grantId = some account →
        account = input.localAccountId)
  | again {lineage : Lineage} {existing : Revision}
      (lineage_eq : s.lineages.find input.payload.grantId = some lineage)
      (grantor_eq : lineage.grantorDid = input.payload.grantor)
      (grantee_eq : lineage.granteeDid = input.payload.grantee)
      (role : lineage.localRole = .grantee)
      (account_eq : lineage.localAccountId = input.localAccountId)
      (stored : s.revisions.find (input.payload.grantId, input.payload.revision) = some existing)
      (cose_eq : existing.cose = input.representation)
  | next {lineage : Lineage} {row : Revision}
      (lineage_eq : s.lineages.find input.payload.grantId = some lineage)
      (grantor_eq : lineage.grantorDid = input.payload.grantor)
      (grantee_eq : lineage.granteeDid = input.payload.grantee)
      (role : lineage.localRole = .grantee)
      (account_eq : lineage.localAccountId = input.localAccountId)
      (row_eq : s.revisions.find (input.payload.grantId, lineage.currentRevision) = some row)
      (active : lineage.currentStatus = .active)
      (isNext : input.payload.revision = lineage.currentRevision + 1)
      (previous_eq : input.payload.previous = some lineage.currentDigest)
      (later : row.updatedAt < input.payload.updatedAt)
      (unstored : s.revisions.find (input.payload.grantId, input.payload.revision) = none)
      (digestFree : s.DigestFree input.payload.grantId input.digest)

/-- Storing a revision the store admits ends in a success or an outage. -/
theorem acceptReceivedRevision_quiet (hs : s.Integrity codec) {input : ReceivedGrantRevision}
    (hgenuine : input.signed.Genuine codec)
    (haccount : ambient.account input.localAccountId = some ⟨some input.payload.grantee, true⟩)
    (h : s.Admits codec input) : Quiet (s.acceptReceivedRevision codec ambient input) := by
  have hchecked : checkedInput codec input.signed .grantee = .ok () :=
    checkedInput_eq_ok.mpr ⟨rfl, hgenuine⟩
  unfold acceptReceivedRevision
  refine Quiet.bind (hchecked ▸ .ok ()) fun _ _ => ?_
  simp only [haccount, Bool.not_true, Bool.false_eq_true, ne_eq, not_true_eq_false, or_self,
    if_false]
  cases h with
  | first absent unstored isFirst active pairFree =>
    simp only [absent, acceptFirst, isFirst, active, ne_eq, not_true_eq_false, or_self, if_false]
    refine Quiet.bind (insertLineage_quiet absent pairFree) fun t ht => ?_
    obtain ⟨-, -, -, -, rfl⟩ := insertLineage_eq_ok.mp ht
    refine Quiet.bind (insertRevision_quiet (unstored _) fun k r hr => ?_) fun _ _ => ?_
    · exact absurd (hr.symm.trans (unstored k)) (by simp)
    · exact Quiet.bind (.authority _) fun _ _ => .ok _
  | collocated lineage_eq grantor_eq grantee_eq role stored cose_eq reference =>
    simp only [lineage_eq, grantor_eq, grantee_eq, role, stored, acceptCollocated, cose_eq,
      ne_eq, not_true_eq_false, or_self, if_false]
    have hreference : (s.collocated.insertNew input.payload.grantId
        input.localAccountId).find input.payload.grantId = some input.localAccountId := by
      rw [Table.find_insertNew, if_pos rfl]
      cases hfind : s.collocated.find input.payload.grantId with
      | none => rfl
      | some account => rw [Option.getD_some, reference account hfind]
    simp only [hreference, not_true_eq_false, if_false]
    exact .ok _
  | again lineage_eq grantor_eq grantee_eq role account_eq stored cose_eq =>
    simp only [lineage_eq, grantor_eq, grantee_eq, role, stored, acceptNext, account_eq, cose_eq,
      ne_eq, not_true_eq_false, or_self, if_false]
    refine Quiet.bind ?_ fun _ _ => .ok _
    have hsound := hs.sound _ _ lineage_eq
    obtain ⟨payload, hof, hid, hrevision, hgrantor, hgrantee⟩ := hsound.payload _ _ stored
    rw [grantFromRow_eq_ok.mpr ⟨payload, hof, hid, hgrantor, hgrantee, hrevision, rfl⟩]
    exact .ok _
  | next lineage_eq grantor_eq grantee_eq role account_eq row_eq active isNext previous_eq later
      unstored digestFree =>
      have hlater := Nat.not_le.mpr later
      have hquiet : Quiet (s.insertRevision ambient input.signed) :=
        insertRevision_quiet unstored digestFree
      simp only [lineage_eq, grantor_eq, grantee_eq, role, unstored, acceptNext, account_eq,
        row_eq, ne_eq, not_true_eq_false, or_self, if_false]
      simp only [active, isNext, previous_eq, hlater, reduceCtorEq, not_true_eq_false, or_self,
        if_false]
      refine Quiet.bind hquiet fun _ _ => ?_
      exact Quiet.bind (.fence _) fun _ _ => Quiet.bind (.authority _) fun _ _ => .ok _

end Store

/-- A revision that follows the current one passes the comparison. -/
theorem compare_follows {c : SignedGrantRevision} {input : Store.ReceivedGrantRevision}
    (hrole : c.localRole = .grantee) (hgrantor : c.payload.grantor = input.payload.grantor)
    (hgrantee : c.payload.grantee = input.payload.grantee)
    (hissued : input.payload.issuedAt = c.payload.issuedAt)
    (hrevision : input.payload.revision = c.payload.revision + 1)
    (hactive : c.payload.status = .active) (hprevious : input.payload.previous = some c.digest)
    (hlater : c.payload.updatedAt < input.payload.updatedAt)
    (hretained : restrictsAuthorization c.payload input.payload →
      input.payload.consentContext = c.payload.consentContext) :
    compare (some c) input = .error (settledAnswer input) ∨ compare (some c) input = .ok () := by
  simp only [compare]
  split
  · exact .inl rfl
  · right
    have hconsent : ¬(restrictsAuthorization c.payload input.payload = true ∧
        c.payload.consentContext ≠ input.payload.consentContext) := by
      rintro ⟨hrestricts, hne⟩
      exact hne (hretained hrestricts).symm
    have hpos := Nat.pos_iff_ne_zero.mp c.payload.revision_pos
    rw [if_neg hconsent]
    simp [hrole, hgrantor, hgrantee, hissued, hrevision, hactive, hprevious, hpos,
      Nat.not_le.mpr hlater]

/-- What the grantor's own transactions establish of its store. -/
structure Store.Authoritative (codec : Codec) (s : Store) : Prop where
  roles : ∀ id lineage, s.lineages.find id = some lineage → lineage.localRole = .grantor
  published : ∀ key row, s.revisions.find key = some row → ∃ p, s.publications.find key = some p
  /-- A restriction retains the consent of its predecessor. -/
  retained : ∀ id k a b pa pb, s.revisions.find (id, k) = some a →
    s.revisions.find (id, k + 1) = some b → a.Of codec pa → b.Of codec pb →
    restrictsAuthorization pa pb → pb.consentContext = pa.consentContext
  first : ∀ id row, s.revisions.find (id, 1) = some row → row.status = .active
  digests : ∀ id j k a b, s.revisions.find (id, j) = some a → s.revisions.find (id, k) = some b →
    a.representationDigest = b.representationDigest → j = k

namespace Store.Authoritative

variable {s t : Store} {ambient : Ambient}

theorem of_eq (h : s.Authoritative codec) (hl : t.lineages = s.lineages)
    (hr : t.revisions = s.revisions)
    (hp : ∀ key p, s.publications.find key = some p → ∃ p, t.publications.find key = some p) :
    t.Authoritative codec := by
  refine ⟨?_, ?_, ?_, ?_, ?_⟩
  · rw [hl]
    exact h.roles
  · rw [hr]
    intro key row hrow
    obtain ⟨p, hfind⟩ := h.published key row hrow
    exact hp key p hfind
  · rw [hr]
    exact h.retained
  · rw [hr]
    exact h.first
  · rw [hr]
    exact h.digests

theorem withPublication (h : s.Authoritative codec) (key : Uuid × Nat) (p : Publication) :
    (s.withPublication key p).Authoritative codec := by
  refine h.of_eq rfl rfl fun key' p' hp' => ?_
  rw [Store.withPublication, Table.find_insert]
  split
  · exact ⟨p, rfl⟩
  · exact ⟨p', hp'⟩

/-- A new row, which is the first of its grant or follows the one before it. -/
theorem insert (h : s.Authoritative codec) {id : Uuid} {n : Nat} {row : Revision}
    {payload : HailGrant} (hof : row.Of codec payload)
    (hlineages : ∀ id lineage, t.lineages.find id = some lineage → lineage.localRole = .grantor)
    (hrevisions : t.revisions = s.revisions.insert (id, n) row)
    (hpublished : ∀ key p, s.publications.find key = some p → ∃ p, t.publications.find key = some p)
    (hnew : ∃ p, t.publications.find (id, n) = some p)
    (hlast : ∀ k r, s.revisions.find (id, k) = some r → k < n)
    (hfirst : n = 1 → row.status = .active)
    (hdigest : s.DigestFree id row.representationDigest)
    (hretained : ∀ k a pa, n = k + 1 → s.revisions.find (id, k) = some a → a.Of codec pa →
      restrictsAuthorization pa payload → payload.consentContext = pa.consentContext) :
    t.Authoritative codec := by
  have hcases : ∀ key r, t.revisions.find key = some r →
      (key = (id, n) ∧ r = row) ∨ s.revisions.find key = some r := by
    intro key r hr
    rw [hrevisions, Table.find_insert] at hr
    split at hr
    · rename_i hkey
      cases hr
      exact .inl ⟨hkey, rfl⟩
    · exact .inr hr
  refine ⟨hlineages, fun key r hr => ?_, ?_, fun id' r hr => ?_, fun id' j k a b ha hb heq => ?_⟩
  · rcases hcases key r hr with ⟨rfl, -⟩ | hold
    · exact hnew
    · obtain ⟨p, hp⟩ := h.published key r hold
      exact hpublished key p hp
  · intro id' k a b pa pb ha hb hofa hofb hrestricts
    rcases hcases _ _ hb with ⟨hkey, rfl⟩ | hb'
    · obtain ⟨rfl, rfl⟩ := Prod.mk.inj hkey
      have hpb : pb = payload := Option.some.inj (hofb.inspected.symm.trans hof.inspected)
      subst hpb
      rcases hcases _ _ ha with ⟨hkey', -⟩ | ha'
      · cases hkey'
      · exact hretained k a pa rfl ha' hofa hrestricts
    · rcases hcases _ _ ha with ⟨hkey', rfl⟩ | ha'
      · obtain ⟨rfl, rfl⟩ := Prod.mk.inj hkey'
        exact absurd (hlast _ _ hb') (by omega)
      · exact h.retained id' k a b pa pb ha' hb' hofa hofb hrestricts
  · rcases hcases _ _ hr with ⟨hkey, rfl⟩ | hold
    · exact hfirst (Prod.mk.inj hkey).2.symm
    · exact h.first id' r hold
  · rcases hcases _ _ ha with ⟨hkey, rfl⟩ | ha' <;> rcases hcases _ _ hb with ⟨hkey', rfl⟩ | hb'
    · exact (Prod.mk.inj hkey).2.trans (Prod.mk.inj hkey').2.symm
    · obtain ⟨rfl, rfl⟩ := Prod.mk.inj hkey
      exact absurd heq.symm (hdigest k b hb')
    · obtain ⟨rfl, rfl⟩ := Prod.mk.inj hkey'
      exact absurd heq (hdigest j a ha')
    · exact h.digests id' j k a b ha' hb' heq

theorem insertAuthoritativeRevision1 (h : s.Authoritative codec) (hs : s.Integrity codec)
    {input : AuthoritativeGrantRevision1}
    (hok : s.insertAuthoritativeRevision1 codec ambient input = .ok t) :
    t.Authoritative codec := by
  obtain ⟨hcan, rfl⟩ := insertAuthoritativeRevision1_ok hok
  have hnone : ∀ k r, s.revisions.find (input.revision.payload.grantId, k) = some r → False := by
    intro k r hr
    obtain ⟨l, hl⟩ := hs.owned _ _ _ hr
    rw [hcan.absent] at hl
    cases hl
  refine h.insert hcan.genuine.of_row (fun id lineage hl => ?_) rfl (fun key p hp => ?_) ?_
    (fun k r hr => (hnone k r hr).elim) (fun _ => hcan.active) hcan.digestFree
    fun k a pa _ ha => (hnone k a ha).elim
  · simp only [insertPublication, insertConsent, begun, Table.find_insert] at hl
    split at hl
    · cases hl
      rfl
    · exact h.roles id lineage hl
  · simp only [insertPublication, insertConsent, begun, Table.find_insert]
    split
    · exact ⟨_, rfl⟩
    · exact ⟨p, hp⟩
  · exact ⟨_, Table.find_insert_self _ _ _⟩

theorem appendAuthoritativeUpdate (h : s.Authoritative codec) (hs : s.Integrity codec)
    {input : AuthoritativeGrantUpdate}
    (hok : s.appendAuthoritativeUpdate codec ambient input = .ok t) :
    t.Authoritative codec := by
  obtain ⟨lineage, row, current, destination, hcan, hrole, hof, hchecked, rfl⟩ :=
    appendAuthoritativeUpdate_ok hok
  have hstored := (hs.sound _ _ hcan.lineage_eq).stored
  have hpos := (hstored lineage.currentRevision).mp ⟨row, hcan.row_eq⟩
  have hrevisions : (((s.extended lineage input.revision).withConsent input.revision.payload
      input.consent).insertPublication ambient input.revision.payload destination).revisions =
        s.revisions.insert (input.revision.payload.grantId, input.revision.payload.revision)
          (revisionRow input.revision) := withConsent_revisions _ _
  refine h.insert hcan.genuine.of_row (fun id l hfind => ?_) hrevisions (fun key p hfind => ?_) ?_
    (fun k r hk => ?_) (fun hone => ?_) hcan.digestFree fun k a pa hnext ha hofa hrestricts => ?_
  · rw [insertPublication, withConsent_lineages, extended, Table.find_insert] at hfind
    split at hfind
    · cases hfind
      exact hrole
    · exact h.roles id l hfind
  · rw [insertPublication, withConsent_publications, Table.find_insert]
    split
    · exact ⟨_, rfl⟩
    · exact ⟨p, hfind⟩
  · exact ⟨_, Table.find_insert_self _ _ _⟩
  · have hle := (hstored k).mp ⟨r, hk⟩
    have hnext := hcan.next
    omega
  · have hnext := hcan.next
    omega
  · have hk : k = lineage.currentRevision := by
      have hnext' := hcan.next
      omega
    rw [hk, hcan.row_eq] at ha
    cases ha
    have hpa : pa = current := Option.some.inj (hofa.inspected.symm.trans hof.inspected)
    subst hpa
    exact hchecked.retained hrestricts

end Store.Authoritative

end HailProto.Grants
