import HailProto.Grants.Effects
import HailProto.Custody.System

/-!
# What the transactions of a custody transition do

One inversion lemma for each transaction. The invariants of the following modules use these
lemmas and never unfold a transaction again.
-/

namespace HailProto.Custody

open Server Grants

variable {platform : Platform} {serviceBase : String} {external : External} {clock : Nat}

namespace Store

variable {s t : Store}

/-- The store with a new preparation. -/
def withTransition (s : Store) (id : Uuid) (row : Transition) : Store :=
  { s with transitions := s.transitions.insert id row }

@[simp] theorem withTransition_transitions (id : Uuid) (row : Transition) :
    (s.withTransition id row).transitions = s.transitions.insert id row := rfl

/-- What journaling a preparation requires of the store. -/
structure CanJournal (s : Store) (id : Uuid) (evidence : TransitionEvidence) : Prop where
  generationTo : evidence.generationTo = evidence.generationFrom + 1
  generation : s.generations.find evidence.accountId = some evidence.generationFrom
  absent : s.transitions.find id = none
  noOpen : s.openTransition evidence.accountId = none

theorem insertTransition_ok {id : Uuid} {evidence : TransitionEvidence}
    (h : s.insertTransition external id evidence = .ok t) :
    s.CanJournal id evidence ∧ t = s.withTransition id ⟨evidence, .prepared⟩ := by
  simp only [insertTransition, bind_eq_ok, guard_eq_ok, not_or, not_not, Bool.not_eq_true,
    Option.isSome_eq_false_iff, Option.isNone_iff_eq_none, Except.ok.injEq] at h
  obtain ⟨_, _, ⟨hto, hgeneration⟩, _, habsent, hopen, rfl⟩ := h
  exact ⟨⟨hto, hgeneration, habsent, hopen⟩, rfl⟩

theorem insertSuccessor_ok {id : Uuid} {successor : Uuid × Successor}
    (h : s.insertSuccessor id successor = .ok t) :
    successor.2.successorRevision = successor.2.predecessorRevision + 1 ∧
      s.successors.find (id, successor.1) = none ∧
      t = { s with successors := s.successors.insert (id, successor.1) successor.2 } := by
  simp only [insertSuccessor, guard_eq_ok, not_or, not_not, Bool.not_eq_true,
    Option.isSome_eq_false_iff, Option.isNone_iff_eq_none, Except.ok.injEq] at h
  obtain ⟨⟨_, hrevision, _⟩, habsent, _, rfl⟩ := h
  exact ⟨hrevision, habsent, rfl⟩

/-- The successor rows of a transition after they were all inserted. -/
theorem insertSuccessors_ok {id : Uuid} {successors : List (Uuid × Successor)}
    (h : successors.foldlM (fun s successor => s.insertSuccessor id successor) s = .ok t) :
    (∀ successor ∈ successors,
      successor.2.successorRevision = successor.2.predecessorRevision + 1) ∧
      t = { s with successors := t.successors } ∧
      ∀ key row, t.successors.find key = some row ↔
        s.successors.find key = some row ∨ (key.1 = id ∧ (key.2, row) ∈ successors) := by
  induction successors generalizing s with
  | nil =>
    simp only [List.foldlM_nil, pure_eq_ok, Except.ok.injEq] at h
    subst h
    simp
  | cons successor rest ih =>
    rw [List.foldlM_cons, bind_eq_ok] at h
    obtain ⟨s', hfirst, hrest⟩ := h
    obtain ⟨hrevision, habsent, rfl⟩ := insertSuccessor_ok hfirst
    obtain ⟨hrevisions, hframe, hfind⟩ := ih hrest
    refine ⟨List.forall_mem_cons.2 ⟨hrevision, hrevisions⟩, hframe, fun key row => ?_⟩
    rw [hfind, Table.find_insert, List.mem_cons]
    by_cases hkey : key = (id, successor.1)
    · subst hkey
      simp only [if_true, Option.some.injEq, habsent, reduceCtorEq, false_or, true_and]
      constructor
      · rintro (rfl | hmem)
        · exact .inl rfl
        · exact .inr hmem
      · rintro (he | hmem)
        · exact .inl (congrArg Prod.snd he).symm
        · exact .inr hmem
    · rw [if_neg hkey]
      constructor
      · rintro (hold | ⟨hid, hmem⟩)
        · exact .inl hold
        · exact .inr ⟨hid, .inr hmem⟩
      · rintro (hold | ⟨hid, he | hmem⟩)
        · exact .inl hold
        · exact absurd (Prod.ext hid (congrArg Prod.fst he)) hkey
        · exact .inr ⟨hid, hmem⟩

/-- A preparation was journaled with its successors. -/
structure Journaled (s t : Store) (id : Uuid) (evidence : TransitionEvidence)
    (successors : List (Uuid × Successor)) : Prop where
  can : s.CanJournal id evidence
  revisions : ∀ successor ∈ successors,
    successor.2.successorRevision = successor.2.predecessorRevision + 1
  store : t = { s.withTransition id ⟨evidence, .prepared⟩ with successors := t.successors }
  rows : ∀ key row, t.successors.find key = some row ↔
    s.successors.find key = some row ∨ (key.1 = id ∧ (key.2, row) ∈ successors)

theorem journal_ok {id : Uuid} {evidence : TransitionEvidence}
    {successors : List (Uuid × Successor)} {answer : CustodyTransitionPreparation}
    (h : s.journal external id evidence successors = .ok (t, answer)) :
    s.Journaled t id evidence successors ∧ answer = preparation id evidence := by
  simp only [journal, bind_eq_ok, Except.ok.injEq, Prod.mk.injEq] at h
  obtain ⟨s₁, h₁, s₂, h₂, rfl, rfl⟩ := h
  obtain ⟨hcan, rfl⟩ := insertTransition_ok h₁
  obtain ⟨hrevisions, hframe, hrows⟩ := insertSuccessors_ok h₂
  exact ⟨⟨hcan, hrevisions, hframe, hrows⟩, rfl⟩

/-- The transaction of `prepare` answers with the open preparation or journals a new one. -/
theorem prepareTransaction_ok {accountId : Uuid} {draft : PrepareDraft}
    {answer : CustodyTransitionPreparation}
    (h : s.prepareTransaction platform external clock accountId draft = .ok (t, answer)) :
    (∃ id raced, s.openTransition accountId = some (id, raced) ∧ t = s ∧
        answer = preparation id raced.evidence) ∨
      ∃ portable generation successors,
        (s.accounts.find accountId).bind Account.did = some draft.did ∧
        s.managed.find accountId = none ∧ s.portable.find accountId = some portable ∧
        (s.activeGrants accountId).mapM (signSuccessor platform draft.did
          draft.generated.didKey draft.now) = .ok successors ∧
        s.Journaled t draft.transitionId (prepareEvidence platform accountId draft portable
          generation clock (s.checkpoint platform accountId draft.did external.connectionDigest
            successors)) successors ∧
        answer = preparation draft.transitionId (prepareEvidence platform accountId draft portable
          generation clock (s.checkpoint platform accountId draft.did external.connectionDigest
            successors)) := by
  simp only [prepareTransaction, bind_eq_ok] at h
  obtain ⟨_, _, h⟩ := h
  cases hopen : s.openTransition accountId with
  | some found =>
    obtain ⟨id, raced⟩ := found
    simp only [hopen, Except.ok.injEq, Prod.mk.injEq] at h
    obtain ⟨rfl, rfl⟩ := h
    exact .inl ⟨id, raced, rfl, rfl, rfl⟩
  | none =>
    simp only [hopen, guard_eq_ok, not_or, not_not, Bool.not_eq_true,
      Option.isSome_eq_false_iff, Option.isNone_iff_eq_none] at h
    obtain ⟨⟨hdid, hmanaged⟩, h⟩ := h
    cases hportable : s.portable.find accountId with
    | none => simp [hportable] at h
    | some portable =>
      simp only [hportable, guard_eq_ok] at h
      obtain ⟨_, _, h⟩ := h
      cases hgeneration : s.generations.find accountId with
      | none => simp [hgeneration] at h
      | some generation =>
        simp only [hgeneration, bind_eq_ok] at h
        obtain ⟨successors, hsuccessors, h⟩ := h
        obtain ⟨hjournal, hanswer⟩ := journal_ok h
        exact .inr ⟨portable, generation, successors, hdid, hmanaged, rfl, hsuccessors,
          hjournal, hanswer⟩

/-- The transaction of `prepareOwner` answers with the open preparation or journals its draft. -/
theorem ownerTransaction_ok {accountId : Uuid} {draft : OwnerDraft}
    {answer : CustodyTransitionPreparation}
    (h : s.ownerTransaction platform external clock accountId draft = .ok (t, answer)) :
    (∃ id raced, s.openTransition accountId = some (id, raced) ∧ t = s ∧
        answer = preparation id raced.evidence) ∨
      ∃ managed, s.managed.find accountId = some managed ∧
        managed.providerIdentityKey = draft.review.authority.oldIdentityKey ∧
        s.Journaled t draft.transitionId (ownerEvidence platform accountId draft clock
          (s.checkpoint platform accountId draft.review.authority.did external.connectionDigest
            draft.successors)) draft.successors ∧
        answer = preparation draft.transitionId (ownerEvidence platform accountId draft clock
          (s.checkpoint platform accountId draft.review.authority.did external.connectionDigest
            draft.successors)) := by
  simp only [ownerTransaction, bind_eq_ok] at h
  obtain ⟨_, _, h⟩ := h
  cases hopen : s.openTransition accountId with
  | some found =>
    obtain ⟨id, raced⟩ := found
    simp only [hopen, Except.ok.injEq, Prod.mk.injEq] at h
    obtain ⟨rfl, rfl⟩ := h
    exact .inl ⟨id, raced, rfl, rfl, rfl⟩
  | none =>
    cases hmanaged : s.managed.find accountId with
    | none => simp [hopen, hmanaged] at h
    | some managed =>
      simp only [hopen, hmanaged, guard_eq_ok, not_not] at h
      obtain ⟨hkey, h⟩ := h
      obtain ⟨hjournal, hanswer⟩ := journal_ok h
      exact .inr ⟨managed, rfl, hkey, hjournal, hanswer⟩

/-- The first transaction of `commit` recognizes an exact retry or journals the operation of a
preparation that has not expired. -/
theorem recordCommit_ok {input : CommitInput}
    (h : s.recordCommit platform external clock input = .ok t) :
    ∃ current, s.transitions.find input.transitionId = some current ∧
      ((current.state.signed = some (input.signed platform) ∧ t = s) ∨
        (current.state = .prepared ∧ clock < current.evidence.expiresAt ∧
          t = s.withTransition input.transitionId
            ⟨current.evidence, .submissionUnknown (input.signed platform)⟩)) := by
  unfold recordCommit at h
  cases hcurrent : s.transitions.find input.transitionId with
  | none => simp [hcurrent] at h
  | some current =>
    refine ⟨current, rfl, ?_⟩
    simp only [hcurrent, bind_eq_ok] at h
    obtain ⟨_, _, h⟩ := h
    cases hsigned : current.state.signed with
    | some signed =>
      simp only [hsigned, guard_eq_ok, not_not, Except.ok.injEq] at h
      exact .inl ⟨congrArg some h.1, h.2.symm⟩
    | none =>
      simp only [hsigned, guard_eq_ok, not_le, bind_eq_ok, Except.ok.injEq] at h
      obtain ⟨hexpires, _, _, rfl⟩ := h
      have hstate : current.state = .prepared := by
        cases hst : current.state with
        | prepared => rfl
        | submissionUnknown signed => simp [hst, TransitionState.signed] at hsigned
        | complete signed retired completedAt => simp [hst, TransitionState.signed] at hsigned
      exact .inr ⟨hstate, hexpires, rfl⟩

theorem checkPredecessors_eq_ok {accountId : Uuid} {successors : List (Uuid × Successor)}
    {u : Unit} : s.checkPredecessors accountId successors = .ok u ↔
      ∀ successor ∈ successors, s.predecessorCurrent accountId successor.1 successor.2 = true := by
  unfold checkPredecessors
  split
  · rename_i h
    simpa using List.all_eq_true.1 h
  · rename_i h
    simpa using h

theorem insertIdentityKey_ok {accountId : Uuid} {key : AccountKey}
    (h : s.insertIdentityKey accountId key = .ok t) :
    t = { s with keys := s.keys.insert (accountId, .hailIdentity) key } := by
  simp only [insertIdentityKey, guard_eq_ok, Except.ok.injEq] at h
  exact h.2.2.symm

theorem insertManaged_ok {accountId : Uuid} {row : ManagedCustody}
    (h : s.insertManaged accountId row = .ok t) :
    s.portable.find accountId = none ∧
      t = { s with managed := s.managed.insert accountId row } := by
  simp only [insertManaged, guard_eq_ok, not_or, Bool.not_eq_true, Option.isSome_eq_false_iff,
    Option.isNone_iff_eq_none, Except.ok.injEq] at h
  exact ⟨h.1.1, h.2.2.symm⟩

theorem insertPortable_ok {accountId : Uuid} {row : PortableCustody}
    (h : s.insertPortable accountId row = .ok t) :
    s.managed.find accountId = none ∧
      t = { s with portable := s.portable.insert accountId row } := by
  simp only [insertPortable, guard_eq_ok, not_or, Bool.not_eq_true, Option.isSome_eq_false_iff,
    Option.isNone_iff_eq_none, Except.ok.injEq] at h
  exact ⟨h.1.2, h.2.2.2.symm⟩

/-- Exactly one custody record of the account exists, and it names the key. -/
inductive HasCustody (s : Store) (accountId : Uuid) (key : String) : Direction → Prop
  | managed {row : ManagedCustody} : s.managed.find accountId = some row →
      row.providerIdentityKey = key → s.portable.find accountId = none →
      HasCustody s accountId key .ownerToManaged
  | portable {row : PortableCustody} : s.portable.find accountId = some row →
      row.userIdentityKey = key → s.managed.find accountId = none →
      HasCustody s accountId key .managedToOwner

/-- The exchange leaves one custody record, for the new key, and touches only custody. -/
theorem exchangeCustody_ok {row : TransitionEvidence} (h : s.exchangeCustody clock row = .ok t) :
    t.HasCustody row.accountId row.newIdentityKey row.direction ∧
      t = { s with portable := t.portable, managed := t.managed, keys := t.keys } := by
  unfold exchangeCustody at h
  cases hdirection : row.direction with
  | ownerToManaged =>
    cases hmaterial : row.identity with
    | none => simp [hdirection, hmaterial] at h
    | some material =>
      simp only [hdirection, hmaterial, guard_eq_ok, bind_eq_ok] at h
      obtain ⟨_, s₁, h₁, h⟩ := h
      obtain rfl := insertIdentityKey_ok h₁
      obtain ⟨hportable, rfl⟩ := insertManaged_ok h
      exact ⟨.managed (Table.find_insert_self _ _ _) rfl hportable, rfl⟩
  | managedToOwner =>
    cases hmonitor : s.monitorFor row.accountId with
    | none => simp [hdirection, hmonitor] at h
    | some monitor =>
      obtain ⟨origin, key, confirmed⟩ := monitor
      simp only [hdirection, hmonitor] at h
      obtain ⟨hmanaged, rfl⟩ := insertPortable_ok h
      exact ⟨.portable (Table.find_insert_self _ _ _) rfl hmanaged, rfl⟩

theorem installSuccessor_ok {evidence : TransitionEvidence} {successor : Uuid × Successor}
    (h : s.installSuccessor platform clock evidence successor = .ok t) :
    ∃ payload, platform.inspectGrant successor.2.successorCose = some payload ∧
      t = { s with
        grants := installedGrants s.grants clock successor.1 successor.2
          ⟨evidence.accountId, .grantor, payload, successor.2.successorCose,
            successor.2.successorDigest, evidence.newIdentityKey⟩ } := by
  simp only [installSuccessor, bind_eq_ok, inspect_eq_ok, raise_eq_ok, guard_eq_ok,
    Except.ok.injEq] at h
  obtain ⟨payload, hpayload, _, _, _, _, _, rfl⟩ := h
  exact ⟨payload, hpayload, rfl⟩

theorem selectBinding_ok {id : Uuid} {address : String} {issuedAt : Nat}
    {row : TransitionEvidence} (h : s.selectBinding clock id address issuedAt row = .ok t) :
    t = { s with bindings := t.bindings } := by
  simp only [selectBinding, guard_eq_ok, Except.ok.injEq] at h
  obtain ⟨_, _, rfl⟩ := h
  rfl

/-- The steps of a `materialize` that changes the store. -/
structure Materialized (platform : Platform) (external : External) (clock : Nat)
    (s t : Store) (id : Uuid) (row current : TransitionEvidence) : Prop where
  run : ∃ signed retired generation s₁ s₂ s₃ binding address,
    s.transitions.find id = some ⟨current, .submissionUnknown signed⟩ ∧
    s.retiredCustody row = .ok retired ∧
    s.generations.find row.accountId = some generation ∧ generation = row.generationFrom ∧
    (∀ successor ∈ s.successorRows id,
      s.predecessorCurrent row.accountId successor.1 successor.2 = true) ∧
    s.exchangeCustody clock row = .ok s₁ ∧
    (s.successorRows id).foldlM (fun s successor =>
      s.installSuccessor platform clock row successor) s₁ = .ok s₂ ∧
    s₂.selectBinding clock external.freshId address binding row = .ok s₃ ∧
    t = (s₃.endLeases row.accountId).completeTransition clock id row current signed retired

theorem materialize_ok {id : Uuid} {row : TransitionEvidence}
    (h : s.materialize platform external clock id row = .ok t) :
    (t = s ∧ ∃ current, s.transitions.find id = some current ∧ current.state.isOpen = false) ∨
      ∃ current, Materialized platform external clock s t id row current := by
  unfold materialize at h
  cases hcurrent : s.transitions.find id with
  | none => simp [hcurrent] at h
  | some current =>
    obtain ⟨evidence, state⟩ := current
    cases state with
    | prepared => simp [hcurrent] at h
    | complete signed retired completedAt =>
      simp only [hcurrent, Except.ok.injEq] at h
      exact .inl ⟨h.symm, _, rfl, rfl⟩
    | submissionUnknown signed =>
      refine .inr ⟨evidence, ?_⟩
      cases haccount : s.accounts.find row.accountId with
      | none => simp [hcurrent, haccount] at h
      | some account =>
        simp only [hcurrent, haccount, guard_eq_ok, bind_eq_ok] at h
        obtain ⟨_, retired, hretired, h⟩ := h
        cases hgeneration : s.generations.find row.accountId with
        | none => simp [hgeneration] at h
        | some generation =>
          simp only [hgeneration, guard_eq_ok, not_not, bind_eq_ok,
            checkPredecessors_eq_ok] at h
          obtain ⟨hfrom, _, hpredecessors, _, _, s₁, h₁, s₂, h₂, _, _, h⟩ := h
          cases hbinding : platform.inspectBinding row.bindingCose with
          | none => simp [hbinding] at h
          | some binding =>
            simp only [hbinding, guard_eq_ok, bind_eq_ok, Except.ok.injEq] at h
            obtain ⟨s₃, h₃, _, _, _, _, _, rfl⟩ := h
            exact ⟨signed, retired, generation, s₁, s₂, s₃, binding.issuedAt,
              account.canonicalAddress, hcurrent, hretired, hgeneration, hfrom,
              hpredecessors, h₁, h₂, h₃, rfl⟩

end Store

end HailProto.Custody
