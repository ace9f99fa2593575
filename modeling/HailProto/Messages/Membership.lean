import HailProto.Messages.Work
import HailProto.Messages.Frame

/-!
# What a transaction does to one membership

Memberships are created by an admission inside the descriptor's window, left and renewed by
their owner, renewed by a creator's revival, and deleted by pruning. Every transaction of the
provider makes one of these moves on a given membership, or none; the readings of the clock at
which a move is decided and written are part of it.
-/

namespace HailProto.Messages

open Server

/-- A membership is found by the account and the conversation. -/
abbrev ParticipationKey := Uuid × ConversationKey

variable {platform : Platform} {limits : EnvelopeAdmissionLimits}

/-- The descriptor a transaction may open a conversation with. -/
def Operation.presents : Operation platform → Option HailConversation
  | .accept input => input.conversationDescriptor.map VerifiedConversation.payload
  | .createConversation _ descriptor => some descriptor.payload
  | _ => none

/-- The membership after the owner renewed it. -/
def renewedAt (platform : Platform) (clock : Nat) : Membership :=
  ⟨none, platform.after24Months clock, some clock⟩

/-- The owner's action renews a membership in this state. -/
def Renews (owner : Owner) (identity : ConversationKey) (m : Membership) (clock : Nat) :
    MembershipAction → Prop
  | .opened => m.stateAt clock = .active
  | .leave => False
  | .rejoin => m.leftAt.isSome
  | .revive => owner.did = identity.1 ∧ m.stateAt clock = .expired

/-- A revival request that renews the membership, over a connection that is permitted and whose
policy allows introductions. -/
def Revives (e : Event platform) (c : Conversations) (k : ParticipationKey) : Prop :=
  ∃ owner request connection c', e.operation = .reviveConversation owner request connection ∧
    k = (owner.accountId, request.payload.fromDid, request.payload.conversationId) ∧
    c.reviveConversation platform e.ambient owner request connection (e.ambient.clock 0)
      (e.ambient.clock 1) (e.ambient.clock 2) = .ok (.renewed, c') ∧
    e.ambient.connectionMessageAllowed owner.did request.payload.fromDid connection.connectionId
      connection.epoch true false = .ok true ∧
    e.ambient.conversationIntroductionAllowed owner.accountId connection.connectionId
      connection.epoch = true

/-- What a transaction does to the membership at `k`. -/
inductive MembershipMove (e : Event platform) (c : Conversations) (k : ParticipationKey) :
    Option Membership → Prop
  | same : MembershipMove e c k (c.memberships.find k)
  | admitted (d : HailConversation) : c.memberships.find k = none →
      e.operation.presents = some d → d.key = k.2 →
      Conversations.admissionOpen d (e.ambient.clock 0) = true →
      MembershipMove e c k (some (Conversations.newMembership platform (e.ambient.clock 1)))
  | left (m : Membership) (leftAt : Nat) : c.memberships.find k = some m →
      MembershipMove e c k (some ⟨some leftAt, m.expiresAt, m.lastActivityAt⟩)
  | renewed (m : Membership) (owner : Owner) (action : MembershipAction) :
      c.memberships.find k = some m → e.operation = .changeMembership owner k.2 action →
      owner.accountId = k.1 → e.ambient.lockOwner owner = .ok () →
      Renews owner k.2 m (e.ambient.clock 0) action →
      MembershipMove e c k (some (renewedAt platform (e.ambient.clock 1)))
  | revived (m : Membership) : c.memberships.find k = some m → m.leftAt = none →
      m.expiresAt ≤ e.ambient.clock 1 → Revives e c k →
      MembershipMove e c k (some ⟨none, platform.after24Months (e.ambient.clock 2), none⟩)
  | pruned (m : Membership) (d : DescriptorRow) : c.memberships.find k = some m →
      c.descriptors.find k.2 = some d →
      Conversations.windowClosed d (e.ambient.clock 1) = true →
      (m.leftAt.isSome ∨ m.expiresAt < e.ambient.clock 1) → MembershipMove e c k none

/-- The stored descriptors are those stored before and the one the transaction presents. -/
def DescriptorsFrom (e : Event platform) (c c' : Conversations) : Prop :=
  ∀ {key row}, c'.descriptors.find key = some row → c.descriptors.find key = some row ∨
    ∃ d, e.operation.presents = some d ∧ d.key = key ∧ row.admissionUntil = d.admissionUntil

namespace Conversations

variable {ambient : Ambient} {c c' : Conversations}

/-- An admission does nothing, or adds the rows that are missing. -/
theorem admitConversation_ok {owner : Owner} {descriptor : VerifiedConversation}
    {connection : Option ConnectionAuthorization} {window inserted read : Nat} {answer : Bool}
    (h : c.admitConversation platform ambient owner descriptor connection window inserted read =
      .ok (answer, c')) :
    c' = c ∨ (admissionOpen descriptor.payload window = true ∧ c' = { c with
      descriptors := c.descriptors.insertNew descriptor.payload.key
        (descriptorRow platform descriptor)
      memberships := c.memberships.insertNew (owner.accountId, descriptor.payload.key)
        (newMembership platform inserted) }) := by
  simp only [admitConversation] at h
  split at h
  · cases h
    exact .inl rfl
  · simp only [bind_eq_ok] at h
    obtain ⟨permitted, _, h⟩ := h
    split at h
    · cases h
      exact .inl rfl
    · simp only [bind_eq_ok, guard_eq_ok] at h
      obtain ⟨_, _, _, h⟩ := h
      split at h
      · cases h
        exact .inl rfl
      · rename_i hopen
        simp only [Bool.not_eq_true', Bool.not_eq_false] at hopen
        simp only [Except.ok.injEq, Prod.mk.injEq] at h
        exact .inr ⟨hopen, h.2.symm⟩

/-- What an admission does to one membership. -/
theorem admitConversation_move {e : Event platform} {owner : Owner}
    {descriptor : VerifiedConversation} {connection : Option ConnectionAuthorization}
    {read : Nat} {answer : Bool} (hpresents : e.operation.presents = some descriptor.payload)
    (h : c.admitConversation platform e.ambient owner descriptor connection (e.ambient.clock 0)
      (e.ambient.clock 1) read = .ok (answer, c')) (k : ParticipationKey) :
    MembershipMove e c k (c'.memberships.find k) ∧ DescriptorsFrom e c c' := by
  obtain rfl | ⟨hopen, rfl⟩ := admitConversation_ok h
  · exact ⟨.same, fun hrow => .inl hrow⟩
  · constructor
    · simp only [Table.find_insertNew]
      split
      · rename_i hk
        subst hk
        cases hfind : c.memberships.find (owner.accountId, descriptor.payload.key) with
        | none => exact .admitted descriptor.payload hfind hpresents rfl hopen
        | some m =>
          rw [Option.getD_some, ← hfind]
          exact .same
      · exact .same
    · intro key row hrow
      simp only [Table.find_insertNew] at hrow
      split at hrow
      · rename_i hk
        subst hk
        cases hfind : c.descriptors.find descriptor.payload.key with
        | none =>
          rw [hfind, Option.getD_none, Option.some.injEq] at hrow
          subst hrow
          exact .inr ⟨descriptor.payload, hpresents, rfl, rfl⟩
        | some old =>
          rw [hfind, Option.getD_some] at hrow
          exact .inl hrow
      · exact .inl hrow

/-- A membership that is found by `conversationState` is stored. -/
theorem conversationState_some {owner : Owner} {identity : ConversationKey} {clock : Nat}
    {state : MembershipState} (h : c.conversationState owner identity clock = some state) :
    ∃ m, c.memberships.find (owner.accountId, identity) = some m ∧ m.stateAt clock = state := by
  unfold conversationState at h
  split at h
  · rename_i m d hm hd
    rw [Option.some.injEq] at h
    exact ⟨m, hm, h⟩
  · cases h

theorem stateAt_eq_left {m : Membership} {clock : Nat} : m.stateAt clock = .left ↔
    m.leftAt.isSome := by
  unfold Membership.stateAt
  cases m.leftAt with
  | none =>
    simp only [Option.isSome_none, Bool.false_eq_true, if_false, iff_false]
    split <;> simp
  | some at_ => simp

theorem stateAt_eq_active {m : Membership} {clock : Nat} : m.stateAt clock = .active ↔
    m.leftAt = none ∧ clock < m.expiresAt := by
  unfold Membership.stateAt
  cases m.leftAt with
  | none =>
    simp only [Option.isSome_none, Bool.false_eq_true, if_false, true_and]
    split
    · simp only [reduceCtorEq, false_iff]
      omega
    · simp only [true_iff]
      omega
  | some at_ => simp

theorem stateAt_eq_expired {m : Membership} {clock : Nat} : m.stateAt clock = .expired ↔
    m.leftAt = none ∧ m.expiresAt ≤ clock := by
  unfold Membership.stateAt
  cases m.leftAt with
  | none =>
    simp only [Option.isSome_none, Bool.false_eq_true, if_false, true_and]
    split <;> simp_all
  | some at_ => simp

/-- What the owner's action does to one membership. -/
theorem changeConversationMembership_move {e : Event platform} {owner : Owner}
    {identity : ConversationKey} {action : MembershipAction}
    (hop : e.operation = .changeMembership owner identity action)
    (h : c.changeConversationMembership platform e.ambient owner identity action
      (e.ambient.clock 0) (e.ambient.clock 1) = .ok c') (k : ParticipationKey) :
    MembershipMove e c k (c'.memberships.find k) ∧ c'.descriptors = c.descriptors := by
  simp only [changeConversationMembership, bind_eq_ok] at h
  obtain ⟨_, hlock, h⟩ := h
  split at h
  · cases h
  · rename_i current hcurrent
    obtain ⟨m, hm, hstate⟩ := conversationState_some hcurrent
    simp only [guard_eq_ok] at h
    obtain ⟨hrejoin, hrevive, h⟩ := h
    split at h
    · cases h
      refine ⟨?_, rfl⟩
      simp only [Table.find_update]
      split
      · rename_i hk
        subst hk
        rw [hm, Option.map_some]
        exact .left m _ hm
      · exact .same
    · rename_i hleave
      split at h
      · rename_i haction
        cases h
        refine ⟨?_, rfl⟩
        simp only [Table.find_update]
        split
        · rename_i hk
          subst hk
          rw [hm, Option.map_some]
          unfold renewMembership
          split
          · refine .renewed m owner action hm hop rfl hlock ?_
            cases action with
            | opened =>
              have hactive : current = .active := by simpa using haction
              exact hstate.trans hactive
            | leave => exact hleave rfl
            | rejoin =>
              have hleft : current = .left := by simpa using hrejoin
              exact stateAt_eq_left.1 (hstate.trans hleft)
            | revive =>
              have hexpired : owner.did = identity.1 ∧ current = .expired := by
                simpa using hrevive
              exact ⟨hexpired.1, hstate.trans hexpired.2⟩
          · rw [← hm]
            exact .same
        · exact .same
      · cases h
        exact ⟨.same, rfl⟩

/-- What a revival request does to one membership. -/
theorem reviveConversation_move {e : Event platform} {owner : Owner} {request : VerifiedRevival}
    {connection : ConnectionAuthorization} {outcome : RevivalOutcome}
    (hop : e.operation = .reviveConversation owner request connection)
    (h : c.reviveConversation platform e.ambient owner request connection (e.ambient.clock 0)
      (e.ambient.clock 1) (e.ambient.clock 2) = .ok (outcome, c')) (k : ParticipationKey) :
    MembershipMove e c k (c'.memberships.find k) ∧ c'.descriptors = c.descriptors := by
  have hresult := h
  simp only [reviveConversation] at h
  split at h
  · cases h
  · simp only [bind_eq_ok] at h
    obtain ⟨connected, hconnected, _, _, h⟩ := h
    split at h
    · rename_i m d hm hd
      simp only [guard_eq_ok] at h
      obtain ⟨_, h⟩ := h
      split at h
      · simp only [guard_eq_ok, Except.ok.injEq, Prod.mk.injEq] at h
        obtain ⟨_, _, rfl⟩ := h
        exact ⟨.same, rfl⟩
      · simp only [guard_eq_ok, Except.ok.injEq, Prod.mk.injEq] at h
        obtain ⟨_, houtcome, rfl⟩ := h
        refine ⟨?_, rfl⟩
        simp only [houtcome]
        split
        · rename_i hrenewed
          subst hrenewed
          -- Only an expired membership is renewed, and only with permission.
          have hexpired : m.stateAt (e.ambient.clock 1) = .expired ∧
              (connected && e.ambient.conversationIntroductionAllowed owner.accountId
                connection.connectionId connection.epoch) = true := by
            unfold revivalOutcome at houtcome
            split at houtcome
            · cases houtcome
            · cases houtcome
            · rename_i hstate
              split at houtcome
              · rename_i hpermitted
                exact ⟨hstate, hpermitted⟩
              · cases houtcome
          obtain ⟨hleft, hexpires⟩ := stateAt_eq_expired.1 hexpired.1
          rw [Bool.and_eq_true] at hexpired
          simp only [Table.find_insert, hleft]
          split
          · rename_i hk
            subst hk
            obtain ⟨rfl, hallowed⟩ := hexpired.2
            exact .revived m hm hleft hexpires
              ⟨owner, request, connection, _, hop, rfl, hresult, hconnected, hallowed⟩
          · exact .same
        · exact .same
    · cases h

end Conversations

namespace Store

variable {s t : Store} {ambient : Ambient} {claim : DeliveryClaim}

/-- An acceptance changes the conversation tables by the introduction it carries alone. -/
theorem Acceptance.introduces {input : EnvelopeDecision platform} {answer : EnvelopeOutcome}
    (h : Acceptance s ambient input answer t) : s.Introduces ambient input t.conversations := by
  cases h with
  | refused => exact .inl rfl
  | limited => exact .inl rfl
  | replayed => exact .inl rfl
  | unadmitted _ hc => exact hc
  | rejected _ hc => exact hc
  | accepted _ _ hc => exact hc
  | acceptedReply => exact .inl rfl

/-- What an owner's pruning does to one membership. -/
theorem pruneOwner_move {e : Event platform} {owner : Owner}
    {selected : List (Uuid × Did × Uuid)} (h : s.pruneOwner e.ambient owner selected = .ok t)
    (k : ParticipationKey) :
    MembershipMove e s.conversations k (t.conversations.memberships.find k) ∧
      t.conversations.descriptors = s.conversations.descriptors := by
  simp only [pruneOwner, bind_eq_ok, Except.ok.injEq] at h
  obtain ⟨_, _, rfl⟩ := h
  refine ⟨?_, rfl⟩
  simp only [Table.find_deleteWhere]
  cases hfind : s.conversations.memberships.find k with
  | none =>
    rw [Option.filter_none, ← hfind]
    exact .same
  | some m =>
    rw [Option.filter_some]
    split
    · rw [← hfind]
      exact .same
    · rename_i hprune
      simp only [membershipPrunable, Bool.not_eq_true', Bool.not_eq_false, Bool.and_eq_true,
        decide_eq_true_eq, Bool.or_eq_true, Option.any_eq_true] at hprune
      obtain ⟨_, ⟨⟨⟨⟨⟨d, hd, hclosed⟩, hended⟩, _⟩, _⟩, _⟩, _⟩ := hprune
      exact .pruned m d hfind hd hclosed hended

/-- Pruning descriptors adds none. -/
theorem pruneDescriptors_from {e : Event platform} {selected : List ConversationKey} :
    DescriptorsFrom e s.conversations (s.pruneDescriptors e.ambient selected).conversations := by
  intro key row hrow
  simp only [pruneDescriptors, Table.find_deleteWhere, Option.filter_eq_some_iff] at hrow
  exact .inl hrow.1

end Store

theorem MembershipMove.of_eq {e : Event platform} {c c' : Conversations} (h : c' = c)
    (k : ParticipationKey) :
    MembershipMove e c k (c'.memberships.find k) ∧ DescriptorsFrom e c c' := by
  subst h
  exact ⟨.same, fun hrow => .inl hrow⟩

theorem MembershipMove.of_descriptors {e : Event platform} {c c' : Conversations}
    {k : ParticipationKey}
    (h : MembershipMove e c k (c'.memberships.find k) ∧ c'.descriptors = c.descriptors) :
    MembershipMove e c k (c'.memberships.find k) ∧ DescriptorsFrom e c c' := by
  refine ⟨h.1, ?_⟩
  intro key row hrow
  rw [h.2] at hrow
  exact .inl hrow

/-- Every transaction of the provider makes one of the moves on a membership. -/
theorem perform_membership {s t : Store} {e : Event platform} {handed : Option DeliveryClaim}
    (h : perform limits s e = .ok (handed, t)) (k : ParticipationKey) :
    MembershipMove e s.conversations k (t.conversations.memberships.find k) ∧
      DescriptorsFrom e s.conversations t.conversations := by
  simp only [perform] at h
  cases hop : e.operation with
  | accept input =>
    simp only [hop, map_eq_ok] at h
    obtain ⟨r, haccept, heq⟩ := h
    cases heq
    obtain hsame | ⟨introduction, descriptor, answer, _, hdescriptor, hadmit⟩ :=
      (Store.accept_acceptance haccept).introduces
    · exact MembershipMove.of_eq hsame k
    · refine Conversations.admitConversation_move ?_ hadmit k
      rw [hop, Operation.presents, hdescriptor, Option.map_some]
  | createSent payload representation accountId =>
    simp only [hop, map_eq_ok] at h
    obtain ⟨r, hsent, heq⟩ := h
    cases heq
    exact MembershipMove.of_eq (Store.createSent_frames hsent).conversations k
  | createConversation accountId descriptor =>
    simp only [hop, map_eq_ok] at h
    obtain ⟨r, hadmit, heq⟩ := h
    cases heq
    refine Conversations.admitConversation_move ?_ hadmit k
    rw [hop, Operation.presents]
  | claimDue leaseToken leaseSeconds locked =>
    simp only [hop] at h
    exact MembershipMove.of_eq (Store.claimDue_frames h).conversations k
  | deliver claim bytes attachments authorized =>
    simp only [hop, map_eq_ok] at h
    obtain ⟨r, hdeliver, heq⟩ := h
    cases heq
    exact MembershipMove.of_eq (Store.deliver_frames hdeliver).conversations k
  | fail claim reason =>
    simp only [hop, map_eq_ok] at h
    obtain ⟨r, hfail, heq⟩ := h
    cases heq
    exact MembershipMove.of_eq (Store.fail_frames hfail).conversations k
  | cancel claim reason =>
    simp only [hop, map_eq_ok] at h
    obtain ⟨r, hcancel, heq⟩ := h
    cases heq
    exact MembershipMove.of_eq (Store.cancel_frames hcancel).conversations k
  | hold claim reason retryAt =>
    simp only [hop, map_eq_ok] at h
    obtain ⟨r, hhold, heq⟩ := h
    cases heq
    exact MembershipMove.of_eq (Store.hold_frames hhold).conversations k
  | changeMembership owner identity action =>
    simp only [hop, map_eq_ok] at h
    obtain ⟨c, hchange, heq⟩ := h
    cases heq
    exact MembershipMove.of_descriptors
      (Conversations.changeConversationMembership_move hop hchange k)
  | reviveConversation owner request connection =>
    simp only [hop, map_eq_ok] at h
    obtain ⟨r, hrevive, heq⟩ := h
    cases heq
    exact MembershipMove.of_descriptors (Conversations.reviveConversation_move hop hrevive k)
  | pruneOwner owner selected =>
    simp only [hop, map_eq_ok] at h
    obtain ⟨r, hprune, heq⟩ := h
    cases heq
    exact MembershipMove.of_descriptors (Store.pruneOwner_move hprune k)
  | pruneDescriptors selected =>
    simp only [hop, Except.ok.injEq, Prod.mk.injEq] at h
    obtain ⟨rfl, rfl⟩ := h
    exact ⟨.same, Store.pruneDescriptors_from⟩

/-- One transaction of a run makes one of the moves; a rolled back one makes none. -/
theorem step_membership {sys sys' : System} {e : Event platform}
    (h : sys.step limits e = some sys') (k : ParticipationKey) :
    MembershipMove e sys.store.conversations k (sys'.store.conversations.memberships.find k) ∧
      DescriptorsFrom e sys.store.conversations sys'.store.conversations ∧
      sys'.time = e.ambient.clock lastReading := by
  simp only [System.step, Option.ite_none_right_eq_some] at h
  obtain ⟨_, h⟩ := h
  split at h
  · rename_i hperform
    cases h
    have hmove := perform_membership hperform k
    exact ⟨hmove.1, hmove.2, rfl⟩
  · cases h
    exact ⟨.same, fun hrow => .inl hrow, rfl⟩

end HailProto.Messages
