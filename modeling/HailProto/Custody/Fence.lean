import HailProto.Custody.Journal

/-!
# The grants of a fenced account

While an account has an open preparation, no transaction of the grant repository changes a
lineage of the account, its revisions or its publications, and none adds a lineage to it.
-/

namespace HailProto.Custody

open Server Grants

variable {platform : Platform}

/-- Every grant of the account is as it was, and the account has no other grant. -/
structure GrantsKept (s t : Grants.Store) (accountId : Uuid) : Prop where
  lineages : ∀ id lineage, lineage.localAccountId = accountId →
    (t.lineages.find id = some lineage ↔ s.lineages.find id = some lineage)
  revisions : ∀ id lineage, s.lineages.find id = some lineage →
    lineage.localAccountId = accountId → ∀ k, t.revisions.find (id, k) = s.revisions.find (id, k)
  publications : ∀ id lineage, s.lineages.find id = some lineage →
    lineage.localAccountId = accountId →
    ∀ k, t.publications.find (id, k) = s.publications.find (id, k)

namespace GrantsKept

variable {s t : Grants.Store} {accountId : Uuid}

theorem refl (s : Grants.Store) (accountId : Uuid) : GrantsKept s s accountId :=
  ⟨fun _ _ _ => Iff.rfl, fun _ _ _ _ _ => rfl, fun _ _ _ _ _ => rfl⟩

/-- Everything a write changes lies under one grant that the account does not own. -/
theorem of_other (grantId : Uuid)
    (hfree : ∀ lineage, s.lineages.find grantId = some lineage →
      lineage.localAccountId ≠ accountId)
    (hnew : ∀ lineage, t.lineages.find grantId = some lineage →
      lineage.localAccountId ≠ accountId)
    (hlineages : ∀ id, id ≠ grantId → t.lineages.find id = s.lineages.find id)
    (hrevisions : ∀ id, id ≠ grantId → ∀ k, t.revisions.find (id, k) = s.revisions.find (id, k))
    (hpublications : ∀ id, id ≠ grantId →
      ∀ k, t.publications.find (id, k) = s.publications.find (id, k)) :
    GrantsKept s t accountId := by
  refine ⟨fun id lineage howner => ?_, fun id lineage hlineage howner => hrevisions id ?_,
    fun id lineage hlineage howner => hpublications id ?_⟩
  · by_cases hid : id = grantId
    · subst hid
      exact ⟨fun h => absurd howner (hnew lineage h), fun h => absurd howner (hfree lineage h)⟩
    · rw [hlineages id hid]
  · rintro rfl
    exact hfree lineage hlineage howner
  · rintro rfl
    exact hfree lineage hlineage howner

end GrantsKept

section Writes

variable {codec : Grants.Codec} {ambient : Grants.Ambient} {s t : Grants.Store}
  {accountId : Uuid}

theorem insertLineage_unfenced {input : SignedGrantRevision} {role : LocalRole}
    (h : s.insertLineage ambient input role = .ok t) :
    ambient.fence input.localAccountId = none :=
  (Grants.Store.insertLineage_eq_ok.1 h).1

theorem insertAuthoritativeRevision1_unfenced {input : AuthoritativeGrantRevision1}
    (h : s.insertAuthoritativeRevision1 codec ambient input = .ok t) :
    ambient.fence input.revision.localAccountId = none := by
  simp only [Grants.Store.insertAuthoritativeRevision1, bind_eq_ok, guard_eq_ok] at h
  obtain ⟨_, _, _, _, _, h⟩ := h
  cases haccount : ambient.account input.revision.localAccountId with
  | none => simp [haccount] at h
  | some account =>
    simp only [haccount, guard_eq_ok, bind_eq_ok] at h
    obtain ⟨_, _, h₁, _⟩ := h
    exact insertLineage_unfenced h₁

/-- The account that owns the lineage of an appended update is not fenced. -/
theorem appendAuthoritativeUpdate_unfenced {input : AuthoritativeGrantUpdate}
    {lineage : Lineage} (hlineage : s.lineages.find input.revision.payload.grantId = some lineage)
    (h : s.appendAuthoritativeUpdate codec ambient input = .ok t) :
    ambient.fence lineage.localAccountId = none := by
  simp only [Grants.Store.appendAuthoritativeUpdate, bind_eq_ok, guard_eq_ok] at h
  obtain ⟨_, _, _, h⟩ := h
  cases hcurrent : s.current input.revision.payload.grantId with
  | none => simp [hcurrent] at h
  | some pair =>
    obtain ⟨current, row⟩ := pair
    obtain ⟨hcurrent', _⟩ := Grants.Store.current_eq_some.1 hcurrent
    rw [hlineage] at hcurrent'
    cases hcurrent'
    simp only [hcurrent, bind_eq_ok] at h
    obtain ⟨_, _, _, _, t₁, hadvance, _⟩ := h
    simp only [Grants.Store.advanceLineage, hcurrent] at hadvance
    split at hadvance
    · simp only [bind_eq_ok, raise_eq_ok, Option.map_eq_none_iff] at hadvance
      obtain ⟨_, hfence, _⟩ := hadvance
      exact hfence
    · cases hadvance

/-- A received revision that advances a lineage, or begins one, is of an unfenced account. -/
theorem acceptReceivedRevision_unfenced {input : Grants.Store.ReceivedGrantRevision}
    (h : s.acceptReceivedRevision codec ambient input = .ok t) :
    t.lineages = s.lineages ∨
      (s.lineages.find input.payload.grantId = none ∧
        ambient.fence input.localAccountId = none) ∨
      ∃ lineage, s.lineages.find input.payload.grantId = some lineage ∧
        ambient.fence lineage.localAccountId = none := by
  simp only [Grants.Store.acceptReceivedRevision, bind_eq_ok] at h
  obtain ⟨_, _, h⟩ := h
  cases haccount : ambient.account input.localAccountId with
  | none => simp [haccount] at h
  | some account =>
    simp only [haccount, guard_eq_ok] at h
    obtain ⟨_, h⟩ := h
    cases hlineage : s.lineages.find input.payload.grantId with
    | none =>
      simp only [hlineage, Grants.Store.acceptFirst, guard_eq_ok, bind_eq_ok] at h
      obtain ⟨_, _, h₁, _⟩ := h
      exact .inr (.inl ⟨rfl, insertLineage_unfenced h₁⟩)
    | some lineage =>
      simp only [hlineage, guard_eq_ok] at h
      obtain ⟨_, h⟩ := h
      cases hrole : lineage.localRole with
      | grantor =>
        cases hex : s.revisions.find (input.payload.grantId, input.payload.revision) with
        | none => simp [hrole, hex, Grants.Store.acceptCollocated] at h
        | some existing =>
          simp only [hrole, hex, Grants.Store.acceptCollocated, guard_eq_ok,
            Except.ok.injEq] at h
          obtain ⟨_, _, rfl⟩ := h
          exact .inl rfl
      | grantee =>
        simp only [hrole, Grants.Store.acceptNext, guard_eq_ok] at h
        obtain ⟨_, h⟩ := h
        cases hex : s.revisions.find (input.payload.grantId, input.payload.revision) with
        | some existing =>
          simp only [hex, guard_eq_ok, bind_eq_ok, Except.ok.injEq] at h
          obtain ⟨_, _, _, rfl⟩ := h
          exact .inl rfl
        | none =>
          simp only [hex] at h
          cases hrow : s.revisions.find
              (input.payload.grantId, lineage.currentRevision) with
          | none => simp [hrow] at h
          | some row =>
            simp only [hrow, guard_eq_ok, bind_eq_ok, raise_eq_ok,
              Option.map_eq_none_iff] at h
            obtain ⟨_, _, _, _, hfence, _⟩ := h
            exact .inr (.inr ⟨lineage, rfl, hfence⟩)

/-- Beginning a lineage of another account. -/
theorem begun_keeps {input : SignedGrantRevision} {role : LocalRole}
    (hcan : s.CanBegin codec input) (howner : input.localAccountId ≠ accountId)
    (hlineages : t.lineages = (s.begun input role).lineages)
    (hrevisions : t.revisions = (s.begun input role).revisions)
    (hpublications : ∀ id, id ≠ input.payload.grantId →
      ∀ k, t.publications.find (id, k) = s.publications.find (id, k)) :
    GrantsKept s t accountId := by
  refine .of_other input.payload.grantId ?_ ?_ ?_ ?_ hpublications
  · intro lineage hlineage
    rw [hcan.absent] at hlineage
    cases hlineage
  · intro lineage hlineage
    rw [hlineages, Grants.Store.begun, Table.find_insert_self] at hlineage
    cases hlineage
    exact howner
  · intro id hid
    rw [hlineages, Grants.Store.begun, Table.find_insert_of_ne _ _ hid]
  · intro id hid k
    rw [hrevisions, Grants.Store.begun, Table.find_insert_of_ne]
    exact fun he => hid (congrArg Prod.fst he)

/-- Extending a lineage of another account. -/
theorem extended_keeps {input : SignedGrantRevision} {lineage : Lineage} {row : Revision}
    (hcan : s.CanExtend codec lineage row input) (howner : lineage.localAccountId ≠ accountId)
    (hlineages : t.lineages = (s.extended lineage input).lineages)
    (hrevisions : t.revisions = (s.extended lineage input).revisions)
    (hpublications : ∀ id, id ≠ input.payload.grantId →
      ∀ k, t.publications.find (id, k) = s.publications.find (id, k)) :
    GrantsKept s t accountId := by
  refine .of_other input.payload.grantId ?_ ?_ ?_ ?_ hpublications
  · intro lineage' hlineage
    rw [hcan.lineage_eq] at hlineage
    cases hlineage
    exact howner
  · intro lineage' hlineage
    rw [hlineages, Grants.Store.extended, Table.find_insert_self] at hlineage
    cases hlineage
    exact howner
  · intro id hid
    rw [hlineages, Grants.Store.extended, Table.find_insert_of_ne _ _ hid]
  · intro id hid k
    rw [hrevisions, Grants.Store.extended, Table.find_insert_of_ne]
    exact fun he => hid (congrArg Prod.fst he)

theorem find_insertPublication {payload : HailGrant} {destination : String} {id : Uuid}
    (hid : id ≠ payload.grantId) (k : Nat) :
    (s.insertPublication ambient payload destination).publications.find (id, k) =
      s.publications.find (id, k) := by
  rw [Grants.Store.insertPublication, Table.find_insert_of_ne]
  exact fun he => hid (congrArg Prod.fst he)

/-- A publication statement of an unfenced owner leaves other owners' publications. -/
theorem withPublication_keeps {context : QueueContext} {key : Uuid × Nat} {p : Publication}
    (h : s.publicationTriggers context key.1 = none) (hfence : context.triggers accountId ≠ none) :
    GrantsKept s (s.withPublication key p) accountId := by
  have hother : ∀ lineage, s.lineages.find key.1 = some lineage →
      lineage.localAccountId ≠ accountId := by
    rintro lineage hlineage rfl
    rw [Grants.Store.publicationTriggers, hlineage, Option.bind_some] at h
    exact hfence h
  refine .of_other key.1 hother hother (fun _ _ => rfl) (fun _ _ _ => rfl) ?_
  intro id hid k
  rw [Grants.Store.withPublication, Table.find_insert_of_ne]
  exact fun he => hid (congrArg Prod.fst he)

theorem claimDuePublication_keeps {context : QueueContext} {locked : List (Uuid × Nat)}
    {leaseToken : Uuid} {leaseDurationMs : Nat} (hfence : context.triggers accountId ≠ none) :
    GrantsKept s (s.claimDuePublication codec context locked leaseToken leaseDurationMs).1
      accountId := by
  unfold Grants.Store.claimDuePublication
  split
  · exact .refl s accountId
  cases hcandidate : s.candidate context locked with
  | none => exact .refl s accountId
  | some found =>
    obtain ⟨key, p⟩ := found
    simp only
    cases htriggers : s.publicationTriggers context key.1 with
    | some fault => exact .refl s accountId
    | none =>
      simp only
      split
      · exact withPublication_keeps htriggers hfence
      · exact withPublication_keeps htriggers hfence

theorem finishPublication_keeps {context : QueueContext}
    {input : Grants.Store.ClaimedPublicationResult} {state : PublicationState}
    {nextAttemptAt : Option Nat} {etag : Option (List Char)}
    (hfence : context.triggers accountId ≠ none)
    (h : s.finishPublication context input state nextAttemptAt etag = .ok t) :
    GrantsKept s t accountId := by
  simp only [Grants.Store.finishPublication] at h
  cases hp : s.publications.find (input.grantId, input.revision) with
  | none => simp [hp] at h
  | some p =>
    simp only [hp] at h
    split at h
    · simp only [bind_eq_ok, raise_eq_ok, Except.ok.injEq] at h
      obtain ⟨_, htriggers, rfl⟩ := h
      exact withPublication_keeps htriggers hfence
    · cases h

/-- A write of the grant repository leaves the grants of a fenced account as they are. -/
theorem GrantWrite.run_keeps {context : QueueContext} {write : GrantWrite}
    (hfence : ambient.fence accountId ≠ none) (htriggers : context.triggers accountId ≠ none)
    (h : write.run platform s ambient context = .ok t) : GrantsKept s t accountId := by
  cases write with
  | create input =>
    have howner : input.revision.localAccountId ≠ accountId := by
      rintro rfl
      exact hfence (insertAuthoritativeRevision1_unfenced h)
    obtain ⟨hcan, rfl⟩ := Grants.Store.insertAuthoritativeRevision1_ok h
    exact begun_keeps hcan howner rfl rfl fun id hid k => find_insertPublication hid k
  | update input =>
    obtain ⟨lineage, row, current, destination, hcan, _, _, _, rfl⟩ :=
      Grants.Store.appendAuthoritativeUpdate_ok h
    have howner : lineage.localAccountId ≠ accountId := by
      rintro rfl
      exact hfence (appendAuthoritativeUpdate_unfenced hcan.lineage_eq h)
    refine extended_keeps hcan howner ?_ ?_ fun id hid k => ?_
    · exact Grants.Store.withConsent_lineages _ _
    · exact Grants.Store.withConsent_revisions _ _
    · rw [find_insertPublication hid, Grants.Store.withConsent_publications]
      rfl
  | receive input =>
    have hunfenced := acceptReceivedRevision_unfenced h
    obtain ⟨_, ⟨hcan, rfl⟩ | ⟨lineage, hlineage, _, _, ⟨_, _, rfl⟩ | ⟨_, _, rfl⟩ |
      ⟨_, row, hcan, rfl⟩⟩⟩ := Grants.Store.acceptReceivedRevision_ok h
    · have howner : input.localAccountId ≠ accountId := by
        rintro rfl
        obtain hsame | ⟨_, hnone⟩ | ⟨lineage, hlineage, _⟩ := hunfenced
        · have habsent : s.lineages.find input.payload.grantId = none := hcan.absent
          rw [← hsame] at habsent
          simp [Grants.Store.begun, Grants.Store.ReceivedGrantRevision.signed] at habsent
        · exact hfence hnone
        · have habsent : s.lineages.find input.payload.grantId = none := hcan.absent
          rw [habsent] at hlineage
          cases hlineage
      exact begun_keeps hcan howner rfl rfl fun _ _ _ => rfl
    · exact ⟨fun _ _ _ => Iff.rfl, fun _ _ _ _ _ => rfl, fun _ _ _ _ _ => rfl⟩
    · exact .refl _ accountId
    · by_cases howner : lineage.localAccountId = accountId
      · exfalso
        obtain hsame | ⟨hnone, _⟩ | ⟨lineage', hlineage', hnone⟩ := hunfenced
        · have hnew : (s.extended lineage input.signed).lineages.find input.payload.grantId =
              some (lineage.advance input.signed) := Table.find_insert_self _ _ _
          rw [hsame, hlineage] at hnew
          have hrevision := congrArg Lineage.currentRevision (Option.some.inj hnew)
          have hnext := hcan.next
          simp only [Lineage.advance] at hrevision
          omega
        · rw [hlineage] at hnone
          cases hnone
        · rw [hlineage] at hlineage'
          cases hlineage'
          exact hfence (howner ▸ hnone)
      · exact extended_keeps hcan howner rfl rfl fun _ _ _ => rfl
  | claim locked leaseToken leaseDurationMs =>
    cases h
    exact claimDuePublication_keeps htriggers
  | finish result state nextAttemptAt etag => exact finishPublication_keeps htriggers h

end Writes

end HailProto.Custody
