import HailProto.Custody.Journal

/-!
# An abandoned preparation

A preparation that the owner does not approve within its hour expires, but it stays open: its
row cannot be deleted, both prepare paths answer with it, and `commit` refuses it. So the fence
it holds on the account is never lifted.
-/

namespace HailProto.Custody

open Server Grants

variable {platform : Platform} {serviceBase : String}

namespace System

/-- The account's open preparation is unsigned and past its expiry. -/
structure Abandoned (p : System) (accountId id : Uuid) (row : Transition) : Prop where
  found : p.store.transitions.find id = some row
  account : row.evidence.accountId = accountId
  unsigned : row.state = .prepared
  expired : row.evidence.expiresAt ≤ p.clock

/-- Some ordinary session may write the account. -/
def Admits (p : System) (accountId : Uuid) : Prop :=
  ∃ session : Session, session.Ordinary ∧ p.store.assertUnfencedAccount session accountId = none

/-- A call of `prepare` or `prepareOwner` for the account that has not answered yet goes on to
answer with a preparation, and a `commit` goes on to accept that preparation. -/
def Recovers (platform : Platform) (serviceBase : String) (p : System) (accountId : Uuid) :
    Prop :=
  ∃ q callId answer, Reachable (System.step platform serviceBase) p q ∧
    (∀ call, p.calls.find callId = some call → call.isDone = false) ∧
    q.calls.find callId = some (.prepared accountId answer) ∧
    ∃ r row, Reachable (System.step platform serviceBase) q r ∧
      r.store.transitions.find answer.transitionId = some row ∧ row.state.signed.isSome = true

end System

/-- The step of a call leaves an expired unsigned preparation as it is. -/
theorem Store.Changed.keeps_expired {external : External} {clock : Nat} {s t : Store} {call : Call}
    (h : Store.Changed platform external clock s call t) {id : Uuid}
    {evidence : TransitionEvidence} (hrow : s.transitions.find id = some ⟨evidence, .prepared⟩)
    (hexpired : evidence.expiresAt ≤ clock) :
    t.transitions.find id = some ⟨evidence, .prepared⟩ := by
  have hjournaled : ∀ {id' : Uuid} {evidence' : TransitionEvidence}
      {successors : List (Uuid × Successor)}, s.Journaled t id' evidence' successors →
        t.transitions.find id = some ⟨evidence, .prepared⟩ := by
    intro id' evidence' successors hjournal
    rw [hjournal.transitions_eq, Table.find_insert_of_ne]
    · exact hrow
    · rintro rfl
      rw [hjournal.can.absent] at hrow
      cases hrow
  cases h with
  | same => exact hrow
  | prepared _ _ hjournal => exact hjournaled hjournal
  | ownerPrepared hjournal => exact hjournaled hjournal
  | @recorded input row current hcurrent hexpires =>
    rw [Store.withTransition_transitions, Table.find_insert_of_ne]
    · exact hrow
    · rintro rfl
      rw [hrow] at hcurrent
      cases hcurrent
      omega
  | @materialized input row current _ hrun =>
    obtain ⟨signed, retired, hcurrent, htransitions, _⟩ := hrun.frame
    rw [htransitions, Table.find_insert_of_ne]
    · exact hrow
    · rintro rfl
      rw [hrow] at hcurrent
      cases hcurrent

/-- While an account has an open preparation, a call can only answer with that one. -/
theorem Call.next_answer {external : External} {clock : Nat} {s t : Store} {call : Call}
    {accountId id : Uuid} {row : Transition} {answer : CustodyTransitionPreparation}
    (hs : s.Journal) (hrow : s.transitions.find id = some row)
    (hopen : row.state.isOpen = true) (haccount : row.evidence.accountId = accountId)
    (h : call.next platform serviceBase s external clock = .ok (t, .prepared accountId answer)) :
    answer.transitionId = id := by
  subst haccount
  have hfound := hs.openTransition_eq hrow hopen
  cases call with
  | prepareReading accountId =>
    simp only [Call.next, bind_eq_ok] at h
    obtain ⟨_, _, h⟩ := h
    cases hopen' : s.openTransition accountId with
    | none => simp [hopen'] at h
    | some found =>
      simp only [hopen', Except.ok.injEq, Prod.mk.injEq, Call.prepared.injEq] at h
      obtain ⟨_, rfl, rfl⟩ := h
      rw [hfound] at hopen'
      cases hopen'
      rfl
  | prepareStoring accountId draft =>
    simp only [Call.next, bind_eq_ok, Except.ok.injEq, Prod.mk.injEq, Call.prepared.injEq] at h
    obtain ⟨⟨t', answer'⟩, htransaction, _, rfl, rfl⟩ := h
    obtain ⟨_, _, hraced, _, rfl⟩ | ⟨_, _, _, _, _, _, _, hjournal, _⟩ :=
      Store.prepareTransaction_ok htransaction
    · rw [hfound] at hraced
      cases hraced
      rfl
    · have hnone : s.openTransition row.evidence.accountId = none := hjournal.can.noOpen
      rw [hfound] at hnone
      cases hnone
  | ownerReading request =>
    simp only [Call.next, bind_eq_ok] at h
    obtain ⟨_, _, h⟩ := h
    cases hopen' : s.openTransition request.accountId with
    | none => simp [hopen'] at h
    | some found =>
      simp only [hopen', Except.ok.injEq, Prod.mk.injEq, Call.prepared.injEq] at h
      obtain ⟨_, hrequest, rfl⟩ := h
      rw [hrequest, hfound] at hopen'
      cases hopen'
      rfl
  | ownerStoring request draft =>
    simp only [Call.next, bind_eq_ok, Except.ok.injEq, Prod.mk.injEq, Call.prepared.injEq] at h
    obtain ⟨⟨t', answer'⟩, htransaction, _, hrequest, rfl⟩ := h
    obtain ⟨_, _, hraced, _, rfl⟩ | ⟨_, _, _, hjournal, _⟩ :=
      Store.ownerTransaction_ok htransaction
    · rw [hrequest, hfound] at hraced
      cases hraced
      rfl
    · have hnone : s.openTransition request.accountId = none := hjournal.can.noOpen
      rw [hrequest, hfound] at hnone
      cases hnone
  | _ => simp [Call.next] at h

namespace System

variable {start p q : System} {accountId id : Uuid} {row : Transition}

theorem Abandoned.step (h : p.Abandoned accountId id row) {e : Event}
    (hstep : p.step platform serviceBase e = some q) : q.Abandoned accountId id row := by
  obtain ⟨evidence, state⟩ := row
  obtain ⟨hfound, haccount, hunsigned, hexpired⟩ := h
  cases hunsigned
  cases e with
  | tick milliseconds =>
    cases hstep
    exact ⟨hfound, haccount, rfl, Nat.le_add_right_of_le hexpired⟩
  | grant session authority leaseFault write =>
    obtain ⟨_, grants, _, rfl⟩ := step_grant hstep
    exact ⟨hfound, haccount, rfl, hexpired⟩
  | account session owner =>
    simp only [System.step, Option.ite_none_right_eq_some, Option.some.injEq] at hstep
    exact hstep.2 ▸ ⟨hfound, haccount, rfl, hexpired⟩
  | call callId call =>
    simp only [System.step, Option.ite_none_right_eq_some, Option.some.injEq] at hstep
    obtain ⟨_, rfl⟩ := hstep
    exact ⟨hfound, haccount, rfl, hexpired⟩
  | advance callId external =>
    obtain ⟨call, _, _, ⟨fault, rfl⟩ | ⟨store, next, hnext, rfl⟩⟩ := step_advance hstep
    · exact ⟨hfound, haccount, rfl, hexpired⟩
    · exact ⟨(Call.next_changed hnext).keeps_expired hfound hexpired, haccount, rfl, hexpired⟩

/-- An abandoned preparation stays so in every later state. -/
theorem Abandoned.forever (h : p.Abandoned accountId id row)
    (run : Reachable (System.step platform serviceBase) p q) : q.Abandoned accountId id row :=
  run.invariant (I := fun q => q.Abandoned accountId id row) h fun _ h _ hstep => h.step hstep

/-- A call that has answered keeps its answer. -/
theorem step_calls {e : Event} (hstep : p.step platform serviceBase e = some q) {callId : Uuid}
    {answer : CustodyTransitionPreparation}
    (h : q.calls.find callId = some (.prepared accountId answer)) :
    p.calls.find callId = some (.prepared accountId answer) ∨
      ∃ external call store, p.calls.find callId = some call ∧ call.isDone = false ∧
        call.next platform serviceBase p.store external p.clock =
          .ok (store, .prepared accountId answer) := by
  cases e with
  | tick milliseconds =>
    cases hstep
    exact .inl h
  | grant session authority leaseFault write =>
    obtain ⟨_, grants, _, rfl⟩ := step_grant hstep
    exact .inl h
  | account session owner =>
    simp only [System.step, Option.ite_none_right_eq_some, Option.some.injEq] at hstep
    exact .inl (hstep.2 ▸ h)
  | call callId' call =>
    simp only [System.step, Option.ite_none_right_eq_some, Option.some.injEq] at hstep
    obtain ⟨⟨hstart, _⟩, rfl⟩ := hstep
    rw [Table.find_insert] at h
    split at h
    · cases h
      cases hstart
    · exact .inl h
  | advance callId' external =>
    obtain ⟨call, hcall, hdone, ⟨fault, rfl⟩ | ⟨store, next, hnext, rfl⟩⟩ := step_advance hstep
    · rw [Table.find_insert] at h
      split at h
      · cases h
      · exact .inl h
    · rw [Table.find_insert] at h
      split at h
      · rename_i he
        cases h
        exact .inr ⟨external, call, store, he ▸ hcall, hdone, hnext⟩
      · exact .inl h

/-- After an abandoned preparation, every new answer for the account is that preparation. -/
theorem Abandoned.answers (h : p.Abandoned accountId id row) (hs : p.Sound)
    (run : Reachable (System.step platform serviceBase) p q) {callId : Uuid}
    {answer : CustodyTransitionPreparation}
    (hanswer : q.calls.find callId = some (.prepared accountId answer)) :
    p.calls.find callId = some (.prepared accountId answer) ∨ answer.transitionId = id := by
  induction run with
  | refl => exact .inl hanswer
  | @next m q e hrun _ hstep ih =>
    have hm : m.Abandoned accountId id row := h.forever hrun
    have hsound : m.Sound := hrun.invariant hs fun _ hs _ hstep => hs.step hstep
    obtain hold | ⟨external, call, store, _, _, hnext⟩ := step_calls hstep hanswer
    · exact ih hold
    · exact .inr (Call.next_answer hsound.journal hm.found (by rw [hm.unsigned]; rfl)
        hm.account hnext)

/-- An abandoned preparation fences the account for good. -/
theorem Abandoned.locks (h : p.Abandoned accountId id row) (hs : p.Sound) :
    ¬(p.Admits accountId ∨ p.Recovers platform serviceBase accountId) := by
  rintro (⟨session, hordinary, hadmitted⟩ |
    ⟨q, callId, answer, hq, hpending, hanswer, r, row', hr, hrow', hsigned⟩)
  · have howner := hs.journal.owner id row h.found
    obtain ⟨account, haccount, hdid⟩ := Option.bind_eq_some_iff.1 howner
    have hopen : row.state.isOpen = true := by rw [h.unsigned]; rfl
    refine p.store.assertUnfencedAccount_ne_none haccount hdid ?_ (h.account ▸ hadmitted)
    have hordinary : session.custodyTransition = none := hordinary
    simp [Store.custodyFenced, hordinary, hs.journal.openTransition_eq h.found hopen]
  · obtain hold | rfl := h.answers hs hq hanswer
    · cases hpending _ hold
    · have hlater := (h.forever hq).forever hr
      rw [hlater.found] at hrow'
      cases hrow'
      rw [hlater.unsigned] at hsigned
      cases hsigned

end System

/-- In every reachable state in which an account's open preparation is unsigned and past its
expiry, ordinary writes stay refused and no call prepares what `commit` could still accept. -/
theorem abandoned_preparation_locks {start p : System} (initial : start.Initial)
    (run : Reachable (System.step platform serviceBase) start p) {accountId id : Uuid}
    {row : Transition} (h : p.Abandoned accountId id row) :
    ¬(p.Admits accountId ∨ p.Recovers platform serviceBase accountId) :=
  h.locks (System.sound_of_reachable initial run)

namespace Sample

/-- Alice prepares her transition and lets its hour pass. -/
def abandonment : List Event :=
  review [(Grants.Sample.grantId, successorCose)] ++
    [.advance prepareCall before, .tick 3600000]

theorem abandonment_reached : ∃ p row, Reachable (System.step Sample.platform providerBase)
    (start granted) p ∧ p.Abandoned Grants.Sample.aliceAccount transitionId row := by
  have hrun : ((exec (System.step Sample.platform providerBase) (start granted) abandonment).bind fun p =>
      (p.store.transitions.find transitionId).map fun row =>
        decide (row.evidence.accountId = Grants.Sample.aliceAccount ∧ row.state = .prepared ∧
          row.evidence.expiresAt ≤ p.clock)) = some true := by
    decide +kernel
  simp only [Option.bind_eq_some_iff, Option.map_eq_some_iff, decide_eq_true_eq] at hrun
  obtain ⟨p, hexec, row, hfound, haccount, hunsigned, hexpired⟩ := hrun
  exact ⟨p, row, reachable_of_exec hexec, hfound, haccount, hunsigned, hexpired⟩

end Sample

theorem abandoned_preparation_locks_sample : ∃ p row,
    Reachable (System.step Sample.platform Sample.providerBase) (Sample.start Sample.granted) p ∧
    p.Abandoned Grants.Sample.aliceAccount Sample.transitionId row ∧
    ¬(p.Admits Grants.Sample.aliceAccount ∨
      p.Recovers Sample.platform Sample.providerBase Grants.Sample.aliceAccount) := by
  obtain ⟨p, row, hreached, habandoned⟩ := Sample.abandonment_reached
  exact ⟨p, row, hreached, habandoned,
    abandoned_preparation_locks ⟨rfl, rfl, rfl⟩ hreached habandoned⟩

/-- The hour passes once, and Alice's account is locked. -/
theorem abandoned_preparation_never_lifted : ¬∀ (platform : Platform) (serviceBase : String)
    (start p : System) (accountId id : Uuid) (row : Transition), start.Initial →
    Reachable (System.step platform serviceBase) start p → p.Abandoned accountId id row →
    p.Admits accountId ∨ p.Recovers platform serviceBase accountId := by
  intro h
  obtain ⟨p, row, hreached, habandoned⟩ := Sample.abandonment_reached
  have hsound := System.sound_of_reachable ⟨rfl, rfl, rfl⟩ hreached
  exact habandoned.locks hsound (h _ _ _ p _ _ row ⟨rfl, rfl, rfl⟩ hreached habandoned)

end HailProto.Custody
