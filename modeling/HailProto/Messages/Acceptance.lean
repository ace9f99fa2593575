import HailProto.Messages.System

/-!
# What an acceptance can do

Every successful acceptance is one of a few changes of the store: nothing, the admission of a
conversation alone, or one new row under a key that had none, with delivery work when the
outcome is `accepted`. The permission an acceptance rests on is stated at the clock readings the
code takes it at.
-/

namespace HailProto.Messages

open Server

@[simp] theorem liftFault_eq_ok {α : Type} {x : Except Fault α} {a : α} :
    (liftM x : Except AcceptFailure α) = .ok a ↔ x = .ok a := by
  cases x with
  | error e =>
    constructor
    · intro h
      cases h
    · intro h
      cases h
  | ok b =>
    constructor
    · intro h
      cases h
      rfl
    · intro h
      cases h
      rfl

/-- The original message an envelope replies to by capability. -/
def HailEnvelope.repliesTo (envelope : HailEnvelope) : Option MessageKey :=
  match envelope.authorization with
  | .reply replyTo => some (envelope.toDid, replyTo)
  | _ => none

namespace Store

variable {platform : Platform} {ambient : Ambient} {limits : EnvelopeAdmissionLimits}
variable {s t : Store} {input : EnvelopeDecision platform}

/-- The grant named by an envelope permits its sender at `now`. -/
def GrantPermitted (ambient : Ambient) (input : EnvelopeDecision platform) (grantId : Uuid)
    (now : Nat) : Prop :=
  ∃ lineage revision, ambient.grants.current grantId = some (lineage, revision) ∧
    lineage.grantorDid = input.payload.toDid ∧ lineage.granteeDid = input.payload.fromDid ∧
    lineage.localRole = .grantor ∧ lineage.localAccountId = input.localAccountId ∧
    grantPermits lineage revision input.payload now = true

/-- The reply capability named by an envelope permits its sender at `now`. -/
def ReplyPermitted (s : Store) (input : EnvelopeDecision platform) (replyTo : Uuid)
    (now : Nat) : Prop :=
  ∃ capability sent original,
    s.capabilities.find (input.payload.toDid, replyTo) = some capability ∧
    s.sent.find (input.payload.toDid, replyTo) = some sent ∧
    platform.inspectEnvelope sent.envelopeCose = some original ∧
    capability.permittedRecipientDid = input.payload.fromDid ∧
    sent.senderAccountId = input.localAccountId ∧
    originalPermitsReply original input.payload capability.replyUntil = true ∧
    capability.state = .available ∧ now ≤ (capability.replyUntil + 300) * second

/-- What the envelope names permits its sender: a grant or a reply capability at `now`, a
connection in the transaction, a conversation membership at the reading `checked`. -/
def Permitted (s : Store) (ambient : Ambient) (input : EnvelopeDecision platform)
    (checked now : Nat) : Prop :=
  match input.payload.authorization with
  | .grant grantId => GrantPermitted ambient input grantId now
  | .reply replyTo => s.ReplyPermitted input replyTo now
  | .connection connectionId epoch =>
    ambient.connectionMessagePermission input.payload.toDid input.payload.fromDid connectionId
      epoch true = .ok true
  | .conversation creator conversationId descriptorHash =>
    s.conversations.conversationMessageAllowed ambient input.payload.toDid
      input.payload.fromDid (creator, conversationId) descriptorHash true checked = .ok true

/-- The conversation tables after the introduction an envelope carries, if it carries one. -/
def Introduces (s : Store) (ambient : Ambient) (input : EnvelopeDecision platform)
    (c : Conversations) : Prop :=
  c = s.conversations ∨
    ∃ introduction descriptor answer, input.payload.conversationIntroduction = some introduction ∧
      input.conversationDescriptor = some descriptor ∧
      s.conversations.admitConversation platform ambient
        ⟨input.localAccountId, input.payload.toDid⟩ descriptor
        (some ⟨introduction.connectionId, introduction.epoch⟩)
        (ambient.clock 0) (ambient.clock 1) (ambient.clock 2) = .ok (answer, c)

/-- The store with a decision recorded under the message's key. -/
def recorded (s : Store) (ambient : Ambient) (input : EnvelopeDecision platform)
    (outcome : ReceivedOutcome) : Store :=
  { s with received := s.received.insert input.payload.key (input.row outcome (ambient.clock 4)) }

/-- The store with an accepted message and its delivery work. -/
def admitted (s : Store) (ambient : Ambient) (input : EnvelopeDecision platform) : Store :=
  { s.recorded ambient input .accepted with
    work := s.work.insert input.payload.key (newWork ambient.start) }

/-- What an acceptance answers and leaves behind. -/
inductive Acceptance (s : Store) (ambient : Ambient) (input : EnvelopeDecision platform) :
    EnvelopeOutcome → Store → Prop
  | refused : Acceptance s ambient input .unauthorized s
  | limited : s.received.find input.payload.key = none →
      Acceptance s ambient input .rateLimited s
  | replayed {row : ReceivedEnvelope} : s.received.find input.payload.key = some row →
      Acceptance s ambient input
        (if row.payloadDigest = input.payloadDigest then .duplicate else .conflict) s
  | unadmitted {c : Conversations} : s.received.find input.payload.key = none →
      s.Introduces ambient input c →
      Acceptance s ambient input .unauthorized { s with conversations := c }
  | rejected {c : Conversations} {outcome : ReceivedOutcome} :
      s.received.find input.payload.key = none → s.Introduces ambient input c →
      outcome ≠ .accepted →
      Acceptance s ambient input outcome.answer
        ({ s with conversations := c }.recorded ambient input outcome)
  | accepted {c : Conversations} : s.received.find input.payload.key = none →
      s.work.find input.payload.key = none → s.Introduces ambient input c →
      pastDeadline input.payload (ambient.clock 4) = false →
      { s with conversations := c }.Permitted ambient input (ambient.clock 3) (ambient.clock 4) →
      input.payload.repliesTo = none →
      Acceptance s ambient input .accepted ({ s with conversations := c }.admitted ambient input)
  | acceptedReply {original : MessageKey} : s.received.find input.payload.key = none →
      s.work.find input.payload.key = none →
      pastDeadline input.payload (ambient.clock 4) = false →
      s.Permitted ambient input (ambient.clock 3) (ambient.clock 4) →
      input.payload.repliesTo = some original →
      Acceptance s ambient input .accepted
        ((s.admitted ambient input).claimCapability ambient original input.payload.key)

/-- What `insertReceived` does: nothing to a key that is taken, or one row. -/
theorem insertReceived_ok {outcome : ReceivedOutcome} {retained inserted : Bool}
    (h : s.insertReceived ambient limits input outcome (ambient.clock 4) retained =
      .ok (inserted, t)) :
    (inserted = false ∧ t = s ∧ (s.received.find input.payload.key).isSome) ∨
      (inserted = true ∧ s.received.find input.payload.key = none ∧
        ((outcome ≠ .accepted ∧ t = s.recorded ambient input outcome) ∨
          (outcome = .accepted ∧ s.work.find input.payload.key = none ∧
            t = s.admitted ambient input))) := by
  simp only [insertReceived, bind_eq_ok] at h
  obtain ⟨_, _, _, _, _, _, _, _, h⟩ := h
  split at h
  · rename_i hsome
    simp only [Except.ok.injEq, Prod.mk.injEq] at h
    exact .inl ⟨h.1.symm, h.2.symm, hsome⟩
  · rename_i hnone
    simp only [Bool.not_eq_true, Option.isSome_eq_false_iff, Option.isNone_iff_eq_none] at hnone
    split at h
    · cases h
    · split at h
      · rename_i hne
        simp only [Except.ok.injEq, Prod.mk.injEq] at h
        exact .inr ⟨h.1.symm, hnone, .inl ⟨hne, h.2.symm⟩⟩
      · rename_i haccepted
        simp only [ne_eq, not_not] at haccepted
        simp only [bind_eq_ok, guard_eq_ok, Except.ok.injEq, Prod.mk.injEq, Bool.not_eq_true,
          Option.isSome_eq_false_iff, Option.isNone_iff_eq_none] at h
        obtain ⟨_, _, hwork, hinserted, ht⟩ := h
        subst haccepted
        exact .inr ⟨hinserted.symm, hnone, .inr ⟨rfl, hwork, ht.symm⟩⟩

theorem previousOutcome_none (h : s.previousOutcome input.payload input.payloadDigest = none) :
    s.received.find input.payload.key = none := by
  rw [previousOutcome, Option.map_eq_none_iff] at h
  exact h

/-- An earlier submission under the key decides the answer and nothing changes. -/
theorem Acceptance.of_previous {answer : EnvelopeOutcome}
    (h : s.previousOutcome input.payload input.payloadDigest = some answer) :
    Acceptance s ambient input answer s := by
  rw [previousOutcome, Option.map_eq_some_iff] at h
  obtain ⟨row, hrow, rfl⟩ := h
  exact .replayed hrow

/-- The decision is `accepted` only before the deadline and with permission. -/
theorem decision_eq_accepted {payload : HailEnvelope} {now : Nat} {permitted : Bool} :
    decision payload now permitted = .accepted ↔
      pastDeadline payload now = false ∧ permitted = true := by
  unfold decision
  cases pastDeadline payload now <;> cases permitted <;> simp

/-- Recording a decision on a key without a row, in the branches that claim no capability. -/
theorem Acceptance.of_settle {c : Conversations} {answer : EnvelopeOutcome}
    {permitted retained : Bool}
    (h : { s with conversations := c }.settle ambient limits input
      (decision input.payload (ambient.clock 4) permitted) (ambient.clock 4) retained =
        .ok (answer, t))
    (fresh : s.received.find input.payload.key = none) (hc : s.Introduces ambient input c)
    (hpermit : permitted = true →
      { s with conversations := c }.Permitted ambient input (ambient.clock 3) (ambient.clock 4))
    (hreply : input.payload.repliesTo = none) : Acceptance s ambient input answer t := by
  simp only [settle, bind_eq_ok] at h
  obtain ⟨⟨inserted, s'⟩, hins, h⟩ := h
  obtain ⟨_, _, hsome⟩ | ⟨rfl, _, ⟨hne, rfl⟩ | ⟨heq, hwork, rfl⟩⟩ := insertReceived_ok hins
  · rw [show ({ s with conversations := c } : Store).received = s.received from rfl, fresh]
      at hsome
    cases hsome
  · simp only [ite_true, Except.ok.injEq, Prod.mk.injEq] at h
    obtain ⟨rfl, rfl⟩ := h
    exact .rejected fresh hc hne
  · simp only [ite_true, Except.ok.injEq, Prod.mk.injEq] at h
    obtain ⟨rfl, rfl⟩ := h
    obtain ⟨hdeadline, hp⟩ := decision_eq_accepted.1 heq
    rw [heq]
    exact .accepted fresh hwork hc hdeadline (hpermit hp) hreply

theorem acceptGrant_acceptance {grantId : Uuid} {answer : EnvelopeOutcome}
    (hauth : input.payload.authorization = .grant grantId)
    (h : s.acceptGrant ambient limits input grantId = .ok (answer, t)) :
    Acceptance s ambient input answer t := by
  simp only [acceptGrant] at h
  split at h
  · cases h
    exact .refused
  · rename_i lineage revision hcurrent
    split at h
    · cases h
      exact .refused
    · rename_i hparties
      simp only [not_or, ne_eq, not_not] at hparties
      split at h
      · rename_i previous hprevious
        cases h
        exact .of_previous hprevious
      · rename_i hprevious
        refine Acceptance.of_settle (c := s.conversations) h (previousOutcome_none hprevious)
          (.inl rfl) ?_ (by simp only [HailEnvelope.repliesTo, hauth])
        intro hp
        simp only [Permitted, hauth]
        exact ⟨lineage, revision, hcurrent, hparties.1, hparties.2.1, hparties.2.2.1,
          hparties.2.2.2, hp⟩

theorem acceptConnection_acceptance {connectionId : Uuid} {epoch : Nat}
    {answer : EnvelopeOutcome}
    (hauth : input.payload.authorization = .connection connectionId epoch)
    (h : s.acceptConnection ambient limits input connectionId epoch = .ok (answer, t)) :
    Acceptance s ambient input answer t := by
  simp only [acceptConnection] at h
  split at h
  · cases h
    exact .refused
  · simp only [bind_eq_ok, liftFault_eq_ok] at h
    obtain ⟨permitted, hallowed, h⟩ := h
    split at h
    · rename_i previous hprevious
      cases h
      exact .of_previous hprevious
    · rename_i hprevious
      refine Acceptance.of_settle (c := s.conversations) h (previousOutcome_none hprevious)
        (.inl rfl) ?_ (by simp only [HailEnvelope.repliesTo, hauth])
      intro hp
      subst hp
      simp only [Permitted, hauth]
      exact ambient.permission_of_allowed hallowed

/-- An introduction changes the conversation tables alone. -/
theorem introduce_ok (h : s.introduce ambient limits input = .ok t) :
    ∃ c, t = { s with conversations := c } ∧ s.Introduces ambient input c := by
  simp only [introduce] at h
  split at h
  · rename_i introduction descriptor hintroduction hdescriptor
    simp only [bind_eq_ok, liftFault_eq_ok, Except.ok.injEq] at h
    obtain ⟨_, _, _, _, ⟨answer, c⟩, hadmit, rfl⟩ := h
    exact ⟨c, rfl, .inr ⟨introduction, descriptor, answer, hintroduction, hdescriptor, hadmit⟩⟩
  · cases h
    exact ⟨s.conversations, rfl, .inl rfl⟩

theorem acceptConversation_acceptance {creator : Did} {conversationId : Uuid}
    {descriptorHash : Bytes} {answer : EnvelopeOutcome}
    (hauth : input.payload.authorization = .conversation creator conversationId descriptorHash)
    (h : s.acceptConversation ambient limits input (creator, conversationId) descriptorHash =
      .ok (answer, t)) : Acceptance s ambient input answer t := by
  simp only [acceptConversation] at h
  split at h
  · cases h
    exact .refused
  · split at h
    · rename_i previous hprevious
      cases h
      exact .of_previous hprevious
    · rename_i hprevious
      simp only [bind_eq_ok, liftFault_eq_ok] at h
      obtain ⟨s₁, hintroduce, permitted, hallowed, h⟩ := h
      obtain ⟨c, rfl, hc⟩ := introduce_ok hintroduce
      have fresh := previousOutcome_none hprevious
      split at h
      · cases h
        exact .unadmitted fresh hc
      · rename_i hpermitted
        simp only [Bool.not_eq_true', Bool.not_eq_false] at hpermitted
        subst hpermitted
        refine Acceptance.of_settle h fresh hc ?_ (by simp only [HailEnvelope.repliesTo, hauth])
        intro _
        simp only [Permitted, hauth]
        exact hallowed

theorem acceptReply_acceptance {replyTo : Uuid} {answer : EnvelopeOutcome}
    (hauth : input.payload.authorization = .reply replyTo)
    (h : s.acceptReply ambient limits input replyTo = .ok (answer, t)) :
    Acceptance s ambient input answer t := by
  simp only [acceptReply] at h
  split at h
  · rename_i capability sent hcapability hsent
    split at h
    · cases h
      exact .refused
    · rename_i hparties
      simp only [not_or, ne_eq, not_not] at hparties
      split at h
      · cases h
      · rename_i original horiginal
        split at h
        · cases h
          exact .refused
        · rename_i hpermits
          simp only [Bool.not_eq_true', Bool.not_eq_false] at hpermits
          split at h
          · rename_i previous hprevious
            cases h
            exact .of_previous hprevious
          · rename_i hprevious
            have fresh := previousOutcome_none hprevious
            simp only [bind_eq_ok] at h
            obtain ⟨⟨inserted, s'⟩, hins, h⟩ := h
            obtain ⟨_, _, hsome⟩ | ⟨rfl, _, ⟨hne, rfl⟩ | ⟨heq, hwork, rfl⟩⟩ :=
              insertReceived_ok hins
            · rw [fresh] at hsome
              cases hsome
            · simp only [ite_true, if_neg hne, Except.ok.injEq, Prod.mk.injEq] at h
              obtain ⟨rfl, rfl⟩ := h
              exact .rejected (c := s.conversations) fresh (.inl rfl) hne
            · simp only [ite_true, heq, bind_eq_ok, liftFault_eq_ok, Except.ok.injEq,
                Prod.mk.injEq] at h
              obtain ⟨_, _, rfl, rfl⟩ := h
              obtain ⟨hdeadline, hp⟩ := decision_eq_accepted.1 heq
              simp only [decide_eq_true_eq] at hp
              refine .acceptedReply fresh hwork hdeadline ?_
                (by simp only [HailEnvelope.repliesTo, hauth])
              simp only [Permitted, hauth]
              exact ⟨capability, sent, original, hcapability, hsent, horiginal, hparties.1,
                hparties.2, hpermits, hp.1, hp.2⟩
  · cases h
    exact .refused

theorem acceptWithinBudget_acceptance {answer : EnvelopeOutcome}
    (h : s.acceptWithinBudget ambient limits input = .ok (answer, t)) :
    Acceptance s ambient input answer t := by
  unfold acceptWithinBudget at h
  split at h
  · rename_i hauth
    exact acceptConversation_acceptance hauth h
  · rename_i hauth
    exact acceptConnection_acceptance hauth h
  · rename_i hauth
    exact acceptReply_acceptance hauth h
  · rename_i hauth
    exact acceptGrant_acceptance hauth h

/-- A submission under a key that is taken is not charged to a budget. -/
theorem acceptWithinBudget_ne_capacity {row : ReceivedEnvelope} {message : String}
    (hrow : s.received.find input.payload.key = some row) :
    s.acceptWithinBudget ambient limits input ≠ .error (.capacity message) := by
  intro h
  have hprevious : ∃ answer, s.previousOutcome input.payload input.payloadDigest = some answer := by
    rw [previousOutcome, hrow, Option.map_some]
    exact ⟨_, rfl⟩
  obtain ⟨answer, hprevious⟩ := hprevious
  unfold acceptWithinBudget at h
  split at h
  · simp only [acceptConversation, hprevious] at h
    split at h <;> cases h
  · rename_i connectionId epoch hauth
    simp only [acceptConnection, hprevious] at h
    split at h
    · cases h
    · cases hallowed : ambient.connectionMessageAllowed input.payload.toDid
          input.payload.fromDid connectionId epoch true true with
      | error fault =>
        rw [hallowed] at h
        cases h
      | ok permitted =>
        rw [hallowed] at h
        cases h
  · simp only [acceptReply, hprevious] at h
    split at h
    · split at h
      · cases h
      · split at h
        · cases h
        · split at h <;> cases h
    · cases h
  · simp only [acceptGrant, hprevious] at h
    split at h
    · cases h
    · split at h <;> cases h

/-- Every answer of `accept` is one of the listed changes. -/
theorem accept_acceptance {answer : EnvelopeOutcome}
    (h : s.accept ambient limits input = .ok (answer, t)) :
    Acceptance s ambient input answer t := by
  unfold accept at h
  cases hbudget : s.acceptWithinBudget ambient limits input with
  | ok result =>
    rw [hbudget] at h
    cases h
    exact acceptWithinBudget_acceptance hbudget
  | error failure =>
    cases failure with
    | capacity message =>
      simp only [hbudget, Except.ok.injEq, Prod.mk.injEq] at h
      obtain ⟨rfl, rfl⟩ := h
      cases hrow : s.received.find input.payload.key with
      | none => exact .limited hrow
      | some row => exact absurd hbudget (acceptWithinBudget_ne_capacity hrow)
    | fault fault =>
      rw [hbudget] at h
      cases h

end Store

end HailProto.Messages
