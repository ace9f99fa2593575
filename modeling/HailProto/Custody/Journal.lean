import HailProto.Custody.Effects

/-!
# The transition journal over a run

Whatever a call or another writer does, journaled evidence stays and an account keeps its DID;
an account has at most one open preparation, and a call under way remembers rows that are still
there. This holds in every state that a run reaches from an empty journal.
-/

namespace HailProto.Custody

open Server Grants

variable {platform : Platform} {serviceBase : String} {external : External} {clock : Nat}

namespace Store

/-- Journaled evidence stays, and every account keeps its DID. -/
structure Retains (s t : Store) : Prop where
  dids : ∀ id, (t.accounts.find id).bind Account.did = (s.accounts.find id).bind Account.did
  evidence : ∀ id row, s.transitions.find id = some row →
    ∃ state, t.transitions.find id = some ⟨row.evidence, state⟩

theorem Retains.refl (s : Store) : s.Retains s := ⟨fun _ => rfl, fun _ row h => ⟨row.state, h⟩⟩

/-- An account has at most one open preparation, and its rows carry its DID. -/
structure Journal (s : Store) : Prop where
  unique : ∀ id id' row row', s.transitions.find id = some row →
    s.transitions.find id' = some row' → row.evidence.accountId = row'.evidence.accountId →
    row.state.isOpen = true → row'.state.isOpen = true → id = id'
  owner : ∀ id row, s.transitions.find id = some row →
    (s.accounts.find row.evidence.accountId).bind Account.did = some row.evidence.did

/-- The open preparation of an account is the one that is read. -/
theorem Journal.openTransition_eq {s : Store} (h : s.Journal) {id : Uuid} {row : Transition}
    (hrow : s.transitions.find id = some row) (hopen : row.state.isOpen = true) :
    s.openTransition row.evidence.accountId = some (id, row) := by
  have hsome := s.openTransition_isSome hrow hopen
  obtain ⟨⟨id', row'⟩, hfound⟩ := Option.isSome_iff_exists.1 hsome
  obtain ⟨hrow', haccount, hopen'⟩ := s.openTransition_eq_some hfound
  obtain rfl := h.unique id' id row' row hrow' hrow haccount hopen' hopen
  rw [hrow] at hrow'
  cases hrow'
  exact hfound

/-- What the step of a call does to the store. -/
inductive Changed (platform : Platform) (external : External) (clock : Nat) (s : Store) :
    Call → Store → Prop
  | same {call : Call} : Changed platform external clock s call s
  | prepared {accountId : Uuid} {draft : PrepareDraft} {portable : PortableCustody}
      {generation : Nat} {checkpoint : Bytes} {successors : List (Uuid × Successor)} {t : Store} :
      (s.accounts.find accountId).bind Account.did = some draft.did →
      (s.activeGrants accountId).mapM (signSuccessor platform draft.did
        draft.generated.didKey draft.now) = .ok successors →
      s.Journaled t draft.transitionId (prepareEvidence platform accountId draft portable
        generation clock checkpoint) successors →
      Changed platform external clock s (.prepareStoring accountId draft) t
  | ownerPrepared {request : OwnerRequest} {draft : OwnerDraft} {checkpoint : Bytes} {t : Store} :
      s.Journaled t draft.transitionId (ownerEvidence platform request.accountId draft clock
        checkpoint) draft.successors →
      Changed platform external clock s (.ownerStoring request draft) t
  | recorded {input : CommitInput} {row : Transition} {current : TransitionEvidence} :
      s.transitions.find input.transitionId = some ⟨current, .prepared⟩ →
      clock < current.expiresAt →
      Changed platform external clock s (.commitRecording input row)
        (s.withTransition input.transitionId ⟨current, .submissionUnknown (input.signed platform)⟩)
  | materialized {input : CommitInput} {row : Transition} {current : TransitionEvidence}
      {t : Store} :
      Materialized platform external clock s t input.transitionId row.evidence current →
      Changed platform external clock s (.commitMaterializing input row) t

end Store

/-- Every step of a call leaves the store as it is, journals, records or materializes. -/
theorem Call.next_changed {call next : Call} {s t : Store}
    (h : call.next platform serviceBase s external clock = .ok (t, next)) :
    Store.Changed platform external clock s call t := by
  cases call with
  | prepareReading accountId =>
    simp only [Call.next, bind_eq_ok] at h
    obtain ⟨_, _, h⟩ := h
    cases hopen : s.openTransition accountId <;> simp only [hopen, Except.ok.injEq,
      Prod.mk.injEq] at h <;> obtain ⟨rfl, _⟩ := h <;> exact .same
  | prepareDrafting accountId =>
    simp only [Call.next, bind_eq_ok, Except.ok.injEq, Prod.mk.injEq] at h
    obtain ⟨_, _, rfl, _⟩ := h
    exact .same
  | prepareStoring accountId draft =>
    simp only [Call.next, bind_eq_ok, Except.ok.injEq, Prod.mk.injEq] at h
    obtain ⟨⟨t', answer⟩, htransaction, rfl, _⟩ := h
    obtain ⟨_, _, _, rfl, _⟩ | ⟨portable, generation, successors, hdid, _, _, hsuccessors,
      hjournal, _⟩ := Store.prepareTransaction_ok htransaction
    · exact .same
    · exact .prepared hdid hsuccessors hjournal
  | ownerReading request =>
    simp only [Call.next, bind_eq_ok] at h
    obtain ⟨_, _, h⟩ := h
    cases hopen : s.openTransition request.accountId with
    | some found =>
      simp only [hopen, Except.ok.injEq, Prod.mk.injEq] at h
      obtain ⟨rfl, _⟩ := h
      exact .same
    | none =>
      simp only [hopen, bind_eq_ok, Except.ok.injEq, Prod.mk.injEq] at h
      obtain ⟨_, _, rfl, _⟩ := h
      exact .same
  | ownerReviewing request signed =>
    simp only [Call.next, bind_eq_ok, Except.ok.injEq, Prod.mk.injEq] at h
    obtain ⟨_, _, rfl, _⟩ := h
    exact .same
  | ownerGeneration request signed authority =>
    simp only [Call.next, bind_eq_ok, Except.ok.injEq, Prod.mk.injEq] at h
    obtain ⟨_, _, rfl, _⟩ := h
    exact .same
  | ownerGrants request signed authority generation =>
    simp only [Call.next, bind_eq_ok, Except.ok.injEq, Prod.mk.injEq] at h
    obtain ⟨_, _, _, _, rfl, _⟩ := h
    exact .same
  | ownerStoring request draft =>
    simp only [Call.next, bind_eq_ok, Except.ok.injEq, Prod.mk.injEq] at h
    obtain ⟨⟨t', answer⟩, htransaction, rfl, _⟩ := h
    obtain ⟨_, _, _, rfl, _⟩ | ⟨_, _, _, hjournal, _⟩ := Store.ownerTransaction_ok htransaction
    · exact .same
    · exact .ownerPrepared hjournal
  | commitReading input =>
    simp only [Call.next, bind_eq_ok, Except.ok.injEq, Prod.mk.injEq] at h
    obtain ⟨_, _, rfl, _⟩ := h
    exact .same
  | commitRecording input row =>
    simp only [Call.next, bind_eq_ok, Except.ok.injEq, Prod.mk.injEq] at h
    obtain ⟨t', hrecord, rfl, _⟩ := h
    obtain ⟨⟨current, state⟩, hcurrent, ⟨_, rfl⟩ | ⟨hstate, hexpires, rfl⟩⟩ :=
      Store.recordCommit_ok hrecord
    · exact .same
    · simp only at hstate
      subst hstate
      exact .recorded hcurrent hexpires
  | commitSubmitting input row =>
    simp only [Call.next, bind_eq_ok, Except.ok.injEq, Prod.mk.injEq] at h
    obtain ⟨_, _, rfl, _⟩ := h
    exact .same
  | commitMaterializing input row =>
    simp only [Call.next, bind_eq_ok, Except.ok.injEq, Prod.mk.injEq] at h
    obtain ⟨t', hmaterialize, rfl, _⟩ := h
    obtain ⟨rfl, _⟩ | ⟨current, hrun⟩ := Store.materialize_ok hmaterialize
    · exact .same
    · exact .materialized hrun
  | commitPublishing input =>
    simp only [Call.next, bind_eq_ok, Except.ok.injEq, Prod.mk.injEq] at h
    obtain ⟨_, _, rfl, _⟩ := h
    exact .same
  | prepared accountId answer => simp [Call.next] at h
  | committed id => simp [Call.next] at h
  | failed fault => simp [Call.next] at h

namespace Store

variable {s t : Store}

/-- Installing successors touches the grant tables only. -/
theorem installSuccessors_frame {evidence : TransitionEvidence}
    {successors : List (Uuid × Successor)}
    (h : successors.foldlM (fun s successor =>
      s.installSuccessor platform clock evidence successor) s = .ok t) :
    t = { s with grants := t.grants } := by
  induction successors generalizing s with
  | nil =>
    simp only [List.foldlM_nil, pure_eq_ok, Except.ok.injEq] at h
    subst h
    rfl
  | cons successor rest ih =>
    rw [List.foldlM_cons, bind_eq_ok] at h
    obtain ⟨s', hfirst, hrest⟩ := h
    obtain ⟨_, _, rfl⟩ := installSuccessor_ok hfirst
    have hframe := ih hrest
    exact hframe

/-- The journal and the accounts after a materialization. -/
theorem Materialized.frame {id : Uuid} {row current : TransitionEvidence}
    (h : Materialized platform external clock s t id row current) :
    ∃ signed retired, s.transitions.find id = some ⟨current, .submissionUnknown signed⟩ ∧
      t.transitions = s.transitions.insert id ⟨current, .complete signed retired clock⟩ ∧
      t.accounts = s.accounts.update row.accountId (fun account =>
        { account with activationBindingDigest := some row.bindingDigest }) ∧
      t.successors = s.successors := by
  obtain ⟨signed, retired, generation, s₁, s₂, s₃, binding, address, hcurrent, _, _, _, _, h₁,
    h₂, h₃, rfl⟩ := h.run
  obtain ⟨_, h₁⟩ := exchangeCustody_ok h₁
  have h₂ := installSuccessors_frame h₂
  have h₃ := selectBinding_ok h₃
  have haccounts : s₃.accounts = s.accounts := by rw [h₃, h₂, h₁]
  have htransitions : s₃.transitions = s.transitions := by rw [h₃, h₂, h₁]
  have hsuccessors : s₃.successors = s.successors := by rw [h₃, h₂, h₁]
  refine ⟨signed, retired, hcurrent, ?_, ?_, ?_⟩
  · simp only [completeTransition, endLeases, htransitions]
  · simp only [completeTransition, endLeases, haccounts]
  · simp only [completeTransition, endLeases, hsuccessors]

/-- A row that is written over a row with the same evidence keeps all evidence. -/
theorem evidence_insert {id : Uuid} {evidence : TransitionEvidence}
    {state state' : TransitionState}
    (hcurrent : s.transitions.find id = some ⟨evidence, state⟩)
    (ht : t.transitions = s.transitions.insert id ⟨evidence, state'⟩) (id' : Uuid)
    (row : Transition) (hrow : s.transitions.find id' = some row) :
    ∃ state, t.transitions.find id' = some ⟨row.evidence, state⟩ := by
  rw [ht, Table.find_insert]
  by_cases he : id' = id
  · subst he
    rw [hcurrent] at hrow
    cases hrow
    exact ⟨state', if_pos rfl⟩
  · exact ⟨row.state, by rw [if_neg he]; exact hrow⟩

theorem Journaled.transitions_eq {id : Uuid} {evidence : TransitionEvidence}
    {successors : List (Uuid × Successor)} (h : s.Journaled t id evidence successors) :
    t.transitions = s.transitions.insert id ⟨evidence, .prepared⟩ := by
  rw [h.store]
  rfl

theorem Journaled.retains {id : Uuid} {evidence : TransitionEvidence}
    {successors : List (Uuid × Successor)} (h : s.Journaled t id evidence successors) :
    s.Retains t := by
  refine ⟨fun id => by rw [h.store]; rfl, fun id' row hrow => ⟨row.state, ?_⟩⟩
  rw [h.transitions_eq, Table.find_insert_of_ne]
  · exact hrow
  · rintro rfl
    rw [h.can.absent] at hrow
    cases hrow

theorem Changed.retains {call : Call} (h : Changed platform external clock s call t) :
    s.Retains t := by
  cases h with
  | same => exact Retains.refl s
  | prepared _ _ hjournal => exact hjournal.retains
  | ownerPrepared hjournal => exact hjournal.retains
  | recorded hcurrent _ => exact ⟨fun _ => rfl, evidence_insert hcurrent rfl⟩
  | materialized hrun =>
    obtain ⟨signed, retired, hcurrent, htransitions, haccounts, _⟩ := hrun.frame
    refine ⟨fun id => ?_, evidence_insert hcurrent htransitions⟩
    rw [haccounts, Table.find_update]
    split
    · rename_i he
      subst he
      cases s.accounts.find _ <;> rfl
    · rfl

/-- A new row keeps the journal when its account has no open one and carries the row's DID. -/
theorem Journal.journaled (h : s.Journal) {id : Uuid} {evidence : TransitionEvidence}
    {successors : List (Uuid × Successor)} (hjournal : s.Journaled t id evidence successors)
    (hdid : (s.accounts.find evidence.accountId).bind Account.did = some evidence.did) :
    t.Journal := by
  have hclosed := s.openTransition_eq_none.1 hjournal.can.noOpen
  have hfind : ∀ id' row, t.transitions.find id' = some row →
      (id' = id ∧ row = ⟨evidence, .prepared⟩) ∨ s.transitions.find id' = some row := by
    intro id' row hrow
    rw [hjournal.transitions_eq, Table.find_insert] at hrow
    split at hrow
    · rename_i he
      exact .inl ⟨he, (Option.some.inj hrow).symm⟩
    · exact .inr hrow
  refine ⟨fun a b row row' ha hb haccount hopen hopen' => ?_, fun a row ha => ?_⟩
  · obtain ⟨rfl, rfl⟩ | ha := hfind a row ha
    · obtain ⟨rfl, rfl⟩ | hb := hfind b row' hb
      · rfl
      · rw [hclosed b row' hb haccount.symm] at hopen'
        cases hopen'
    · obtain ⟨rfl, rfl⟩ | hb := hfind b row' hb
      · rw [hclosed a row ha haccount] at hopen
        cases hopen
      · exact h.unique a b row row' ha hb haccount hopen hopen'
  · rw [hjournal.retains.dids]
    obtain ⟨_, rfl⟩ | ha := hfind a row ha
    · exact hdid
    · exact h.owner a row ha

/-- Rewriting the state of an open row keeps the journal. -/
theorem Journal.rewrite (h : s.Journal) {id : Uuid} {evidence : TransitionEvidence}
    {state state' : TransitionState}
    (hcurrent : s.transitions.find id = some ⟨evidence, state⟩) (hopen : state.isOpen = true)
    (ht : t.transitions = s.transitions.insert id ⟨evidence, state'⟩)
    (hretains : s.Retains t) : t.Journal := by
  have hfind : ∀ id' row, t.transitions.find id' = some row → ∃ old,
      s.transitions.find id' = some old ∧ row.evidence = old.evidence ∧
        (row.state.isOpen = true → old.state.isOpen = true) := by
    intro id' row hrow
    rw [ht, Table.find_insert] at hrow
    split at hrow
    · rename_i he
      subst he
      cases hrow
      exact ⟨_, hcurrent, rfl, fun _ => hopen⟩
    · exact ⟨row, hrow, rfl, fun h => h⟩
  refine ⟨fun a b row row' ha hb haccount hopena hopenb => ?_, fun a row ha => ?_⟩
  · obtain ⟨old, hold, he, ho⟩ := hfind a row ha
    obtain ⟨old', hold', he', ho'⟩ := hfind b row' hb
    exact h.unique a b old old' hold hold' (he ▸ he' ▸ haccount) (ho hopena) (ho' hopenb)
  · obtain ⟨old, hold, he, _⟩ := hfind a row ha
    rw [hretains.dids, he]
    exact h.owner a old hold

end Store

/-- What a call under way remembers of the store. -/
def Call.Sound (s : Store) : Call → Prop
  | .ownerGeneration request _ authority | .ownerGrants request _ authority _ =>
    (s.accounts.find request.accountId).bind Account.did = some authority.did
  | .ownerStoring request draft =>
    (s.accounts.find request.accountId).bind Account.did = some draft.review.authority.did
  | .commitRecording input row | .commitSubmitting input row | .commitMaterializing input row =>
    ∃ state, s.transitions.find input.transitionId = some ⟨row.evidence, state⟩
  | _ => True

theorem Call.Sound.mono {call : Call} {s t : Store} (h : call.Sound s) (hretains : s.Retains t) :
    call.Sound t := by
  have hevidence : ∀ id (evidence : TransitionEvidence),
      (∃ state, s.transitions.find id = some ⟨evidence, state⟩) →
        ∃ state, t.transitions.find id = some ⟨evidence, state⟩ := by
    rintro id evidence ⟨state, hrow⟩
    exact hretains.evidence id _ hrow
  cases call with
  | ownerGeneration request signed authority => exact (hretains.dids _).trans h
  | ownerGrants request signed authority generation => exact (hretains.dids _).trans h
  | ownerStoring request draft => exact (hretains.dids _).trans h
  | commitRecording input row => exact hevidence _ _ h
  | commitSubmitting input row => exact hevidence _ _ h
  | commitMaterializing input row => exact hevidence _ _ h
  | _ => trivial

theorem publicAccount_ok {s : Store} {accountId : Uuid} {found : Did × String}
    (h : s.publicAccount accountId = .ok found) :
    (s.accounts.find accountId).bind Account.did = some found.1 := by
  unfold Store.publicAccount at h
  cases haccount : s.accounts.find accountId with
  | none => simp [haccount] at h
  | some account =>
    cases hdid : account.did with
    | none => simp [haccount, hdid] at h
    | some did =>
      simp only [haccount, hdid, guard_eq_ok, Except.ok.injEq] at h
      obtain ⟨_, rfl⟩ := h
      simpa using hdid

/-- A review starts with the DID of the account. -/
theorem reviewAuthority_ok {s : Store} {accountId : Uuid} {key : String}
    {authority : OwnerAuthority}
    (h : s.reviewAuthority platform serviceBase external accountId key = .ok authority) :
    (s.accounts.find accountId).bind Account.did = some authority.did := by
  simp only [Store.reviewAuthority, bind_eq_ok, guard_eq_ok] at h
  obtain ⟨_, _, _, found, hfound, h⟩ := h
  have hdid := publicAccount_ok hfound
  cases hmanaged : s.managed.find accountId with
  | none => simp [hmanaged] at h
  | some managed =>
    cases hresolution : external.resolution with
    | none => simp [hmanaged, hresolution] at h
    | some current =>
      simp only [hmanaged, hresolution, guard_eq_ok, Except.ok.injEq] at h
      obtain ⟨_, _, _, _, rfl⟩ := h
      exact hdid

/-- The signatures are over the review that was read. -/
theorem reviewGrants_ok {s : Store} {accountId : Uuid} {authority : OwnerAuthority}
    {generation now : Nat} {review : OwnerReview}
    (h : s.reviewGrants platform accountId authority generation now = .ok review) :
    review.authority = authority ∧
      (s.activeGrants accountId).mapM (reviewGrant platform now) = .ok review.activeGrants := by
  simp only [Store.reviewGrants, bind_eq_ok, Except.ok.injEq] at h
  obtain ⟨grants, hgrants, rfl⟩ := h
  exact ⟨rfl, hgrants⟩

theorem ownerDraft_ok {key : String} {bindingCose : Bytes} {signedGrants : List (Uuid × Bytes)}
    {review : OwnerReview} {draft : OwnerDraft}
    (h : ownerDraft platform external clock key bindingCose signedGrants review = .ok draft) :
    draft.review = review ∧ draft.newIdentityKey = key ∧
      review.activeGrants.mapM (ownerSuccessor platform review.authority.did key signedGrants) =
        .ok draft.successors := by
  unfold ownerDraft at h
  cases hbinding : platform.verifyBinding (identityKid review.authority.did) key bindingCose with
  | none => simp [hbinding] at h
  | some binding =>
    simp only [hbinding, guard_eq_ok, bind_eq_ok, Except.ok.injEq] at h
    obtain ⟨_, _, successors, hsuccessors, rfl⟩ := h
    exact ⟨rfl, rfl, hsuccessors⟩

theorem readCommit_ok {s : Store} {input : CommitInput} {row : Transition}
    (h : s.readCommit platform serviceBase clock input = .ok row) :
    s.transitions.find input.transitionId = some row := by
  simp only [Store.readCommit, bind_eq_ok, guard_eq_ok, Except.ok.injEq] at h
  obtain ⟨_, row', hrow, _, _, _, rfl⟩ := h
  unfold Store.transitionRow at hrow
  cases hfind : s.transitions.find input.transitionId with
  | none => simp [hfind] at hrow
  | some found =>
    simp only [hfind, guard_eq_ok, Except.ok.injEq] at hrow
    rw [hrow.2]

/-- A call stays sound over its own step, in the store the step leaves. -/
theorem Call.Sound.next {call next : Call} {s t : Store} (hsound : call.Sound s)
    (h : call.next platform serviceBase s external clock = .ok (t, next))
    (hretains : s.Retains t) : next.Sound t := by
  cases call with
  | prepareReading accountId =>
    simp only [Call.next, bind_eq_ok] at h
    obtain ⟨_, _, h⟩ := h
    cases hopen : s.openTransition accountId <;> simp only [hopen, Except.ok.injEq,
      Prod.mk.injEq] at h <;> obtain ⟨_, rfl⟩ := h <;> trivial
  | prepareDrafting accountId =>
    simp only [Call.next, bind_eq_ok, Except.ok.injEq, Prod.mk.injEq] at h
    obtain ⟨_, _, _, rfl⟩ := h
    trivial
  | prepareStoring accountId draft =>
    simp only [Call.next, bind_eq_ok, Except.ok.injEq, Prod.mk.injEq] at h
    obtain ⟨_, _, _, rfl⟩ := h
    trivial
  | ownerReading request =>
    simp only [Call.next, bind_eq_ok] at h
    obtain ⟨_, _, h⟩ := h
    cases hopen : s.openTransition request.accountId with
    | some found =>
      simp only [hopen, Except.ok.injEq, Prod.mk.injEq] at h
      obtain ⟨_, rfl⟩ := h
      trivial
    | none =>
      simp only [hopen, bind_eq_ok, Except.ok.injEq, Prod.mk.injEq] at h
      obtain ⟨_, _, _, rfl⟩ := h
      trivial
  | ownerReviewing request signed =>
    simp only [Call.next, bind_eq_ok, Except.ok.injEq, Prod.mk.injEq] at h
    obtain ⟨authority, hauthority, rfl, rfl⟩ := h
    exact reviewAuthority_ok hauthority
  | ownerGeneration request signed authority =>
    simp only [Call.next, bind_eq_ok, Except.ok.injEq, Prod.mk.injEq] at h
    obtain ⟨_, _, rfl, rfl⟩ := h
    exact hsound
  | ownerGrants request signed authority generation =>
    simp only [Call.next, bind_eq_ok, Except.ok.injEq, Prod.mk.injEq] at h
    obtain ⟨review, hreview, draft, hdraft, rfl, rfl⟩ := h
    obtain ⟨hauthority, _⟩ := reviewGrants_ok hreview
    obtain ⟨rfl, _⟩ := ownerDraft_ok hdraft
    change (s.accounts.find request.accountId).bind Account.did =
      some draft.review.authority.did
    rw [hauthority]
    exact hsound
  | ownerStoring request draft =>
    simp only [Call.next, bind_eq_ok, Except.ok.injEq, Prod.mk.injEq] at h
    obtain ⟨_, _, _, rfl⟩ := h
    trivial
  | commitReading input =>
    simp only [Call.next, bind_eq_ok, Except.ok.injEq, Prod.mk.injEq] at h
    obtain ⟨row, hrow, rfl, rfl⟩ := h
    exact ⟨row.state, readCommit_ok hrow⟩
  | commitRecording input row =>
    simp only [Call.next, bind_eq_ok, Except.ok.injEq, Prod.mk.injEq] at h
    obtain ⟨_, _, rfl, rfl⟩ := h
    have hsubmitting : (Call.commitSubmitting input row).Sound s := hsound
    exact hsubmitting.mono hretains
  | commitSubmitting input row =>
    simp only [Call.next, bind_eq_ok, Except.ok.injEq, Prod.mk.injEq] at h
    obtain ⟨_, _, rfl, rfl⟩ := h
    exact hsound
  | commitMaterializing input row =>
    simp only [Call.next, bind_eq_ok, Except.ok.injEq, Prod.mk.injEq] at h
    obtain ⟨_, _, _, rfl⟩ := h
    trivial
  | commitPublishing input =>
    simp only [Call.next, bind_eq_ok, Except.ok.injEq, Prod.mk.injEq] at h
    obtain ⟨_, _, _, rfl⟩ := h
    trivial
  | prepared accountId answer => simp [Call.next] at h
  | committed id => simp [Call.next] at h
  | failed fault => simp [Call.next] at h

/-- The invariant of a run. -/
structure System.Sound (p : System) : Prop where
  journal : p.store.Journal
  calls : ∀ id call, p.calls.find id = some call → call.Sound p.store

theorem Store.Changed.journal {s t : Store} {call : Call}
    (h : Store.Changed platform external clock s call t) (hs : s.Journal)
    (hsound : call.Sound s) : t.Journal := by
  have hretains := h.retains
  cases h with
  | same => exact hs
  | prepared hdid _ hjournal => exact hs.journaled hjournal hdid
  | ownerPrepared hjournal => exact hs.journaled hjournal hsound
  | recorded hcurrent _ => exact hs.rewrite hcurrent rfl rfl hretains
  | materialized hrun =>
    obtain ⟨signed, retired, hcurrent, htransitions, _⟩ := hrun.frame
    exact hs.rewrite hcurrent rfl htransitions hretains

theorem System.Initial.sound {p : System} (h : p.Initial) : p.Sound := by
  refine ⟨⟨fun id id' row row' hrow => ?_, fun id row hrow => ?_⟩, fun id call hcall => ?_⟩
  · rw [h.transitions, Table.find_empty] at hrow
    cases hrow
  · rw [h.transitions, Table.find_empty] at hrow
    cases hrow
  · rw [h.calls, Table.find_empty] at hcall
    cases hcall

/-- What the advance of a call does to the system. -/
theorem System.step_advance {p q : System} {id : Uuid}
    (h : p.step platform serviceBase (.advance id external) = some q) :
    ∃ call, p.calls.find id = some call ∧ call.isDone = false ∧
      ((∃ fault, q = { p with calls := p.calls.insert id (.failed fault) }) ∨
        ∃ store next, call.next platform serviceBase p.store external p.clock = .ok (store, next) ∧
          q = { p with store, calls := p.calls.insert id next }) := by
  cases hcall : p.calls.find id with
  | none => simp [System.step, hcall] at h
  | some call =>
    refine ⟨call, rfl, ?_⟩
    cases hdone : call.isDone with
    | true => simp [System.step, hcall, hdone] at h
    | false =>
      refine ⟨rfl, ?_⟩
      cases hnext : call.next platform serviceBase p.store external p.clock with
      | error fault =>
        simp only [System.step, hcall, hdone, hnext, Bool.false_eq_true, ite_false,
          Option.some.injEq] at h
        exact .inl ⟨fault, h.symm⟩
      | ok result =>
        obtain ⟨store, next⟩ := result
        simp only [System.step, hcall, hdone, hnext, Bool.false_eq_true, ite_false,
          Option.some.injEq] at h
        exact .inr ⟨store, next, rfl, h.symm⟩

/-- A grant write of another component leaves everything but the grant tables. -/
theorem System.step_grant {p q : System} {session : Session} {authority : Option AuthorityFault}
    {leaseFault : Uuid → Option Fault} {write : GrantWrite}
    (h : p.step platform serviceBase (.grant session authority leaseFault write) = some q) :
    session.Ordinary ∧ ∃ grants, write.run platform p.store.grants
        (p.store.ambient session authority (p.clock * 1000))
        (p.store.queueContext session leaseFault (p.clock * 1000)) = .ok grants ∧
      q = { p with store := { p.store with grants } } := by
  simp only [System.step] at h
  split at h
  · rename_i hordinary
    simp only [Option.map_eq_some_iff, toOption_eq_some] at h
    obtain ⟨grants, hrun, rfl⟩ := h
    exact ⟨hordinary, grants, hrun, rfl⟩
  · cases h

theorem System.Sound.step {p q : System} {e : Event} (hs : p.Sound)
    (h : p.step platform serviceBase e = some q) : q.Sound := by
  cases e with
  | tick milliseconds =>
    cases h
    exact ⟨hs.journal, hs.calls⟩
  | grant session authority leaseFault write =>
    obtain ⟨_, grants, _, rfl⟩ := System.step_grant h
    have hretains : p.store.Retains { p.store with grants } :=
      ⟨fun _ => rfl, fun _ row hrow => ⟨row.state, hrow⟩⟩
    exact ⟨⟨hs.journal.unique, hs.journal.owner⟩,
      fun id call hcall => (hs.calls id call hcall).mono hretains⟩
  | account session owner =>
    simp only [System.step, Option.ite_none_right_eq_some, Option.some.injEq] at h
    exact h.2 ▸ hs
  | call id call =>
    simp only [System.step, Option.ite_none_right_eq_some, Option.some.injEq] at h
    obtain ⟨⟨hstart, _⟩, rfl⟩ := h
    refine ⟨hs.journal, fun id' call' hcall => ?_⟩
    rw [Table.find_insert] at hcall
    split at hcall
    · cases hcall
      cases call <;> trivial
    · exact hs.calls id' call' hcall
  | advance id external =>
    obtain ⟨call, hcall, _, ⟨fault, rfl⟩ | ⟨store, next, hnext, rfl⟩⟩ := System.step_advance h
    · refine ⟨hs.journal, fun id' call' hcall' => ?_⟩
      rw [Table.find_insert] at hcall'
      split at hcall'
      · cases hcall'
        trivial
      · exact hs.calls id' call' hcall'
    · have hsound := hs.calls id call hcall
      have hchanged := Call.next_changed hnext
      refine ⟨hchanged.journal hs.journal hsound, fun id' call' hcall' => ?_⟩
      rw [Table.find_insert] at hcall'
      split at hcall'
      · cases hcall'
        exact hsound.next hnext hchanged.retains
      · exact (hs.calls id' call' hcall').mono hchanged.retains

/-- The invariant holds in every state reached from an empty journal. -/
theorem System.sound_of_reachable {start p : System} (initial : start.Initial)
    (h : Reachable (System.step platform serviceBase) start p) : p.Sound :=
  h.invariant initial.sound fun _ hs _ hstep => hs.step hstep

end HailProto.Custody
