import HailProto.Messages.Work

/-!
# Reply capabilities are used once

A message that allows a reply comes with one capability. The first accepted reply claims it,
any end of that reply other than a delivery releases it, and a delivery consumes it. The row is
written by acceptance and by every terminal transition; what ties them together is that the
capability names exactly the reply whose work is still open, or was delivered.
-/

namespace HailProto.Messages

open Server

/-- The message is an accepted reply under the capability of `original`. -/
def Life.AcceptedReply (platform : Platform) (l : Life) (key original : MessageKey) : Prop :=
  ∃ row envelope, l.received.find key = some row ∧ row.outcome = .accepted ∧
    platform.inspectEnvelope row.envelopeCose = some envelope ∧
    envelope.repliesTo = some original

/-- The work of a message is in a state. -/
def Life.InState (l : Life) (key : MessageKey) (state : DeliveryState → Prop) : Prop :=
  ∃ work, l.work.find key = some work ∧ state work.state

/-- The delivery has not ended. -/
def DeliveryState.Open (state : DeliveryState) : Prop := state.isTerminal = false

/-- The message was delivered. -/
def DeliveryState.Delivered (state : DeliveryState) : Prop := state = .finished .delivered

/-- A capability and the reply that owns it agree. -/
structure Life.Owned (platform : Platform) (l : Life) : Prop where
  pending : ∀ {key original}, l.AcceptedReply platform key original →
    l.InState key DeliveryState.Open →
    ∃ capability, l.capabilities.find original = some capability ∧ capability.state = .claimed key
  delivered : ∀ {key original}, l.AcceptedReply platform key original →
    l.InState key DeliveryState.Delivered →
    ∃ capability, l.capabilities.find original = some capability ∧ capability.state = .consumed key
  claimed : ∀ {key original capability}, l.capabilities.find original = some capability →
    capability.state = .claimed key →
    l.AcceptedReply platform key original ∧ l.InState key DeliveryState.Open
  consumed : ∀ {key original capability}, l.capabilities.find original = some capability →
    capability.state = .consumed key →
    l.AcceptedReply platform key original ∧ l.InState key DeliveryState.Delivered

namespace Life

variable {platform : Platform} {issued : List DeliveryClaim} {l l' : Life}
variable {handed : Option DeliveryClaim}

theorem Owned.initial : Owned platform ⟨∅, ∅, ∅, ∅, ∅⟩ where
  pending h := by
    obtain ⟨row, _, hrow, _⟩ := h
    cases hrow
  delivered h := by
    obtain ⟨row, _, hrow, _⟩ := h
    cases hrow
  claimed h := by cases h
  consumed h := by cases h

/-- An accepted reply names one original. -/
theorem AcceptedReply.unique {key original other : MessageKey}
    (h : l.AcceptedReply platform key original) (h' : l.AcceptedReply platform key other) :
    original = other := by
  obtain ⟨row, envelope, hrow, _, hinspect, hreply⟩ := h
  obtain ⟨row', envelope', hrow', _, hinspect', hreply'⟩ := h'
  rw [hrow, Option.some.injEq] at hrow'
  subst hrow'
  rw [hinspect, Option.some.injEq] at hinspect'
  subst hinspect'
  rw [hreply, Option.some.injEq] at hreply'
  exact hreply'

/-- A held claim of an accepted reply names the reply's original. -/
theorem AcceptedReply.of_held {claim : DeliveryClaim} {original : MessageKey}
    (h : l.AcceptedReply platform claim.key original) (hheld : l.Held platform claim) :
    claim.envelope.repliesTo = some original := by
  obtain ⟨row, envelope, hrow, _, hinspect, hreply⟩ := h
  obtain ⟨row', hrow', hinspect', _⟩ := hheld
  rw [hrow, Option.some.injEq] at hrow'
  subst hrow'
  rw [hinspect, Option.some.injEq] at hinspect'
  subst hinspect'
  exact hreply

/-- Ownership depends on the capabilities, the accepted replies and the states of their work. -/
theorem Owned.of_same (ho : Owned platform l) (hcapabilities : l'.capabilities = l.capabilities)
    (hreply : ∀ key original, l'.AcceptedReply platform key original ↔
      l.AcceptedReply platform key original)
    (hopen : ∀ key original, l.AcceptedReply platform key original →
      (l'.InState key DeliveryState.Open ↔ l.InState key DeliveryState.Open))
    (hdelivered : ∀ key original, l.AcceptedReply platform key original →
      (l'.InState key DeliveryState.Delivered ↔ l.InState key DeliveryState.Delivered)) :
    Owned platform l' where
  pending := by
    intro key original h hstate
    rw [hreply] at h
    rw [hcapabilities]
    exact ho.pending h ((hopen key original h).1 hstate)
  delivered := by
    intro key original h hstate
    rw [hreply] at h
    rw [hcapabilities]
    exact ho.delivered h ((hdelivered key original h).1 hstate)
  claimed := by
    intro key original capability hfind hstate
    rw [hcapabilities] at hfind
    obtain ⟨h, hwork⟩ := ho.claimed hfind hstate
    exact ⟨(hreply key original).2 h, (hopen key original h).2 hwork⟩
  consumed := by
    intro key original capability hfind hstate
    rw [hcapabilities] at hfind
    obtain ⟨h, hwork⟩ := ho.consumed hfind hstate
    exact ⟨(hreply key original).2 h, (hdelivered key original h).2 hwork⟩

/-- Writing one row of work leaves the states of the others. -/
theorem inState_insert_of_ne {key changed : MessageKey} {next : DeliveryWork}
    {state : DeliveryState → Prop} (hwork : l'.work = l.work.insert changed next)
    (hne : key ≠ changed) : l'.InState key state ↔ l.InState key state := by
  unfold InState
  rw [hwork, Table.find_insert_of_ne _ _ hne]

theorem inState_insert_self {key : MessageKey} {next : DeliveryWork}
    {state : DeliveryState → Prop} (hwork : l'.work = l.work.insert key next) :
    l'.InState key state ↔ state next.state := by
  unfold InState
  rw [hwork, Table.find_insert_self]
  simp only [Option.some.injEq, exists_eq_left']

/-- The states of a row whose work is open before and after the move. -/
theorem inState_open {key : MessageKey} {work next : DeliveryWork}
    (hwork : l.work.find key = some work) (hstate : work.state.isTerminal = false)
    (hwork' : l'.work.find key = some next) (hstate' : next.state.isTerminal = false) :
    (l'.InState key DeliveryState.Open ↔ l.InState key DeliveryState.Open) ∧
      (l'.InState key DeliveryState.Delivered ↔ l.InState key DeliveryState.Delivered) := by
  have hne : ∀ {w : DeliveryWork}, w.state.isTerminal = false → w.state ≠ .finished .delivered := by
    intro w hw he
    rw [he] at hw
    cases hw
  unfold InState
  rw [hwork, hwork']
  simp only [Option.some.injEq, exists_eq_left', DeliveryState.Open, DeliveryState.Delivered,
    hstate, hstate', hne hstate, hne hstate', iff_self, and_self]

/-- A claim that goes on with open work keeps the ownership. -/
theorem Owned.continued {key : MessageKey} {work next : DeliveryWork} (ho : Owned platform l)
    (hwork : l.work.find key = some work) (hstate : work.state.isTerminal = false)
    (hstate' : next.state.isTerminal = false) :
    Owned platform { l with work := l.work.insert key next } := by
  have hsame : ∀ other, (InState { l with work := l.work.insert key next } other
        DeliveryState.Open ↔ l.InState other DeliveryState.Open) ∧
      (InState { l with work := l.work.insert key next } other
        DeliveryState.Delivered ↔ l.InState other DeliveryState.Delivered) := by
    intro other
    by_cases hk : other = key
    · subst hk
      exact inState_open hwork hstate (Table.find_insert_self _ _ _) hstate'
    · exact ⟨inState_insert_of_ne rfl hk, inState_insert_of_ne rfl hk⟩
  exact ho.of_same rfl (fun _ _ => Iff.rfl) (fun other _ _ => (hsame other).1)
    (fun other _ _ => (hsame other).2)

/-- The end of a claim settles exactly the capability its reply owns. -/
theorem Owned.ended {claim : DeliveryClaim} {work : DeliveryWork} {state : TerminalState}
    {settled : Table MessageKey ReplyCapability} {next : Int} {transitionedAt : Nat}
    (ho : Owned platform l) (hs : Sound platform issued l) (hissued : claim ∈ issued)
    (hsettles : Settles claim state l.capabilities settled)
    (hreceived : l'.received = l.received) (hcapabilities : l'.capabilities = settled)
    (hwork : l'.work = l.work.insert claim.key
      (work.transition (.finished state) next transitionedAt)) :
    Owned platform l' := by
  have hheld := hs.held claim hissued
  have hreply : ∀ key original, l'.AcceptedReply platform key original ↔
      l.AcceptedReply platform key original := by
    intro key original
    unfold AcceptedReply
    rw [hreceived]
  have hself : ∀ {P : DeliveryState → Prop}, l'.InState claim.key P ↔ P (.finished state) :=
    inState_insert_self hwork
  unfold Settles at hsettles
  cases hto : claim.envelope.repliesTo with
  | none =>
    -- The claim is not a reply, so no capability and no reply's state changes.
    rw [hto] at hsettles
    have hne : ∀ key original, l.AcceptedReply platform key original → key ≠ claim.key := by
      rintro key original h rfl
      rw [h.of_held hheld] at hto
      cases hto
    exact ho.of_same (hcapabilities.trans hsettles) hreply
      (fun key original h => inState_insert_of_ne hwork (hne key original h))
      (fun key original h => inState_insert_of_ne hwork (hne key original h))
  | some original₀ =>
    rw [hto] at hsettles
    obtain ⟨capability, updatedAt, hfind, hclaimed, rfl⟩ := hsettles
    obtain ⟨hmine, _⟩ := ho.claimed hfind hclaimed
    refine ⟨?_, ?_, ?_, ?_⟩
    · intro key original h hstate
      rw [hreply] at h
      have hk : key ≠ claim.key := by
        rintro rfl
        cases hself.1 hstate
      rw [inState_insert_of_ne hwork hk] at hstate
      obtain ⟨other, hother, hotherState⟩ := ho.pending h hstate
      have ho' : original ≠ original₀ := by
        rintro rfl
        rw [hfind, Option.some.injEq] at hother
        subst hother
        rw [hclaimed, CapabilityState.claimed.injEq] at hotherState
        exact hk hotherState.symm
      exact ⟨other, by rw [hcapabilities, Table.find_insert_of_ne _ _ ho', hother],
        hotherState⟩
    · intro key original h hstate
      rw [hreply] at h
      by_cases hk : key = claim.key
      · subst hk
        have horiginal := h.unique hmine
        have hdelivered : state = .delivered := by
          have hfinished := hself.1 hstate
          exact DeliveryState.finished.inj hfinished
        subst horiginal hdelivered
        exact ⟨_, by rw [hcapabilities, Table.find_insert_self], rfl⟩
      · rw [inState_insert_of_ne hwork hk] at hstate
        obtain ⟨other, hother, hotherState⟩ := ho.delivered h hstate
        have ho' : original ≠ original₀ := by
          rintro rfl
          rw [hfind, Option.some.injEq] at hother
          subst hother
          rw [hclaimed] at hotherState
          cases hotherState
        exact ⟨other, by rw [hcapabilities, Table.find_insert_of_ne _ _ ho', hother],
          hotherState⟩
    · intro key original other hother hstate
      rw [hcapabilities, Table.find_insert] at hother
      split at hother
      · cases hother
        unfold TerminalState.capabilityState at hstate
        split at hstate <;> cases hstate
      · rename_i hne
        obtain ⟨h, hopen⟩ := ho.claimed hother hstate
        have hk : key ≠ claim.key := by
          rintro rfl
          exact hne (h.unique hmine)
        exact ⟨(hreply key original).2 h, (inState_insert_of_ne hwork hk).2 hopen⟩
    · intro key original other hother hstate
      rw [hcapabilities, Table.find_insert] at hother
      split at hother
      · rename_i horiginal
        subst horiginal
        cases hother
        simp only [TerminalState.capabilityState] at hstate
        split at hstate
        · rename_i hdelivered
          cases hstate
          subst hdelivered
          exact ⟨(hreply claim.key original).2 hmine, hself.2 rfl⟩
        · cases hstate
      · rename_i hne
        obtain ⟨h, hdelivered⟩ := ho.consumed hother hstate
        have hk : key ≠ claim.key := by
          rintro rfl
          exact hne (h.unique hmine)
        exact ⟨(hreply key original).2 h, (inState_insert_of_ne hwork hk).2 hdelivered⟩

/-- A recorded submission that is no accepted reply changes no ownership. -/
theorem Owned.recorded {key : MessageKey} {row : ReceivedEnvelope} (ho : Owned platform l)
    (fresh : l.received.find key = none)
    (hreceived : l'.received = l.received.insert key row)
    (hcapabilities : l'.capabilities = l.capabilities)
    (hnoReply : ∀ original, ¬l'.AcceptedReply platform key original)
    (hwork : ∀ other, other ≠ key → l'.work.find other = l.work.find other) :
    Owned platform l' := by
  have hreply : ∀ other original, l'.AcceptedReply platform other original ↔
      l.AcceptedReply platform other original := by
    intro other original
    by_cases hk : other = key
    · subst hk
      refine ⟨fun h => absurd h (hnoReply original), ?_⟩
      rintro ⟨old, _, hold, _⟩
      rw [fresh] at hold
      cases hold
    · unfold AcceptedReply
      rw [hreceived, Table.find_insert_of_ne _ _ hk]
  have hne : ∀ other original, l.AcceptedReply platform other original → other ≠ key := by
    rintro other original ⟨old, _, hold, _⟩ rfl
    rw [fresh] at hold
    cases hold
  have hstate : ∀ other original, l.AcceptedReply platform other original →
      ∀ P, l'.InState other P ↔ l.InState other P := by
    intro other original h P
    unfold InState
    rw [hwork other (hne other original h)]
  exact ho.of_same hcapabilities hreply (fun other original h => hstate other original h _)
    (fun other original h => hstate other original h _)

/-- An accepted reply claims the capability, which was available. -/
theorem Owned.replied {input : EnvelopeDecision platform} {now start updatedAt : Nat}
    {original₀ : MessageKey} {capability : ReplyCapability} (ho : Owned platform l)
    (hwork : l.work.find input.payload.key = none)
    (hto : input.payload.repliesTo = some original₀)
    (hfind : l.capabilities.find original₀ = some capability)
    (havailable : capability.state = .available) :
    Owned platform { l with
      received := l.received.insert input.payload.key (input.row .accepted now)
      work := l.work.insert input.payload.key (newWork start)
      capabilities := l.capabilities.insert original₀
        { capability with
          state := .claimed input.payload.key
          updatedAt := updatedAt } } := by
  set l' : Life := { l with
    received := l.received.insert input.payload.key (input.row .accepted now)
    work := l.work.insert input.payload.key (newWork start)
    capabilities := l.capabilities.insert original₀
      { capability with
        state := .claimed input.payload.key
        updatedAt := updatedAt } } with hl'
  have hnew : l'.AcceptedReply platform input.payload.key original₀ :=
    ⟨input.row .accepted now, input.payload, Table.find_insert_self _ _ _, rfl, input.inspected,
      hto⟩
  have hinsert : l'.work = l.work.insert input.payload.key (newWork start) := rfl
  have hself : ∀ {P : DeliveryState → Prop}, l'.InState input.payload.key P ↔ P .accepted :=
    inState_insert_self hinsert
  have hother : ∀ {key original}, key ≠ input.payload.key →
      (l'.AcceptedReply platform key original ↔ l.AcceptedReply platform key original) := by
    intro key original hk
    unfold AcceptedReply
    rw [hl', Table.find_insert_of_ne _ _ hk]
  have hunowned : ∀ {key original other}, l.capabilities.find original = some other →
      (other.state = .claimed key ∨ other.state = .consumed key) → original ≠ original₀ := by
    rintro key original other hold hstate rfl
    rw [hfind, Option.some.injEq] at hold
    subst hold
    rw [havailable] at hstate
    obtain hstate | hstate := hstate <;> cases hstate
  have hkept : ∀ {key original P}, l.AcceptedReply platform key original → l.InState key P →
      l'.AcceptedReply platform key original ∧ l'.InState key P := by
    rintro key original P h ⟨work, hold, hP⟩
    have hk : key ≠ input.payload.key := by
      rintro rfl
      rw [hwork] at hold
      cases hold
    exact ⟨(hother hk).2 h, (inState_insert_of_ne rfl hk).2 ⟨work, hold, hP⟩⟩
  refine ⟨?_, ?_, ?_, ?_⟩
  · intro key original h hstate
    by_cases hk : key = input.payload.key
    · subst hk
      rw [h.unique hnew]
      exact ⟨_, Table.find_insert_self _ _ _, rfl⟩
    · obtain ⟨other, hold, hclaimed⟩ :=
        ho.pending ((hother hk).1 h) ((inState_insert_of_ne rfl hk).1 hstate)
      exact ⟨other, (Table.find_insert_of_ne _ _ (hunowned hold (.inl hclaimed))).trans hold,
        hclaimed⟩
  · intro key original h hstate
    by_cases hk : key = input.payload.key
    · subst hk
      cases hself.1 hstate
    · obtain ⟨other, hold, hconsumed⟩ :=
        ho.delivered ((hother hk).1 h) ((inState_insert_of_ne rfl hk).1 hstate)
      exact ⟨other, (Table.find_insert_of_ne _ _ (hunowned hold (.inr hconsumed))).trans hold,
        hconsumed⟩
  · intro key original other hfound hclaimed
    rw [hl', Table.find_insert] at hfound
    split at hfound
    · rename_i horiginal
      subst horiginal
      cases hfound
      cases hclaimed
      exact ⟨hnew, hself.2 rfl⟩
    · obtain ⟨h, hstate⟩ := ho.claimed hfound hclaimed
      exact hkept h hstate
  · intro key original other hfound hconsumed
    rw [hl', Table.find_insert] at hfound
    split at hfound
    · cases hfound
      cases hconsumed
    · obtain ⟨h, hstate⟩ := ho.consumed hfound hconsumed
      exact hkept h hstate

/-- A new capability belongs to a message that nobody replied to. -/
theorem Owned.offered {original₀ : MessageKey} {capability : ReplyCapability}
    (ho : Owned platform l) (hnone : l.capabilities.find original₀ = none)
    (havailable : capability.state = .available) :
    Owned platform { l with capabilities := l.capabilities.insert original₀ capability } := by
  have hkept : ∀ {original other}, l.capabilities.find original = some other →
      (l.capabilities.insert original₀ capability).find original = some other := by
    intro original other hfound
    have hne : original ≠ original₀ := by
      rintro rfl
      rw [hnone] at hfound
      cases hfound
    rw [Table.find_insert_of_ne _ _ hne, hfound]
  refine ⟨?_, ?_, ?_, ?_⟩
  · intro key original h hstate
    obtain ⟨other, hfound, hclaimed⟩ := ho.pending h hstate
    exact ⟨other, hkept hfound, hclaimed⟩
  · intro key original h hstate
    obtain ⟨other, hfound, hconsumed⟩ := ho.delivered h hstate
    exact ⟨other, hkept hfound, hconsumed⟩
  · intro key original other hfound hclaimed
    rw [Table.find_insert] at hfound
    split at hfound
    · cases hfound
      rw [havailable] at hclaimed
      cases hclaimed
    · exact ho.claimed hfound hclaimed
  · intro key original other hfound hconsumed
    rw [Table.find_insert] at hfound
    split at hfound
    · cases hfound
      rw [havailable] at hconsumed
      cases hconsumed
    · exact ho.consumed hfound hconsumed

/-- Every move keeps capabilities and replies in agreement. -/
theorem Owned.move (ho : Owned platform l) (hs : Sound platform issued l)
    (h : Move platform issued l handed l') : Owned platform l' := by
  cases h with
  | idle => exact ho
  | reject input outcome now fresh hne =>
    refine ho.recorded fresh rfl rfl ?_ (fun _ _ => rfl)
    rintro original ⟨row, _, hrow, haccepted, _⟩
    rw [Table.find_insert_self, Option.some.injEq] at hrow
    subst hrow
    exact hne haccepted
  | accept input now start fresh hwork hnoReply =>
    refine ho.recorded fresh rfl rfl ?_ (fun other hk => Table.find_insert_of_ne _ _ hk)
    rintro original ⟨row, envelope, hrow, _, hinspect, hto⟩
    rw [Table.find_insert_self, Option.some.injEq] at hrow
    subst hrow
    have hpayload := input.inspected.symm.trans hinspect
    cases hpayload
    rw [hnoReply] at hto
    cases hto
  | admitReply input now start updatedAt original capability fresh hwork hto hfind havailable =>
    exact ho.replied hwork hto hfind havailable
  | lease claim work expiresAt hwork hstate => exact ho.continued hwork hstate hstate
  | hold claim work reason next transitionedAt hissued hlocked =>
    exact ho.continued hlocked.1 hlocked.2.2 rfl
  | finish claim work state settled transitionedAt start hissued hlocked hne hsettles =>
    exact ho.ended hs hissued hsettles rfl rfl rfl
  | deliver claim work message settled transitionedAt start hissued hlocked hnone hsettles =>
    exact ho.ended hs hissued hsettles rfl rfl rfl
  | issue original capability hnone havailable => exact ho.offered hnone havailable

end Life

namespace Ambient

variable (ambient : Ambient)

theorem assertUnfencedAccount_ne_notOwner (accountId : Uuid) :
    ambient.assertUnfencedAccount accountId ≠ .error notOwner := by
  unfold assertUnfencedAccount
  split
  · simp
  · exact guard_ne_error (by decide) (guard_ne_error (by decide) (by simp))

theorem assertUnfencedDid_ne_notOwner (did : Did) :
    ambient.assertUnfencedDid did ≠ .error notOwner := by
  unfold assertUnfencedDid
  split
  · simp
  · exact ambient.assertUnfencedAccount_ne_notOwner _

theorem lockPair_ne_notOwner (owner : Uuid) (peer : Option Uuid) :
    ambient.lockPair owner peer ≠ .error notOwner := by
  have hmember : ∀ member, ambient.lockMember owner member ≠ .error notOwner := by
    intro member
    unfold lockMember
    split
    · exact ambient.assertUnfencedAccount_ne_notOwner _
    · split
      · simp
      · exact ambient.assertUnfencedAccount_ne_notOwner _
  unfold lockPair
  split
  · exact hmember _
  · split
    · exact hmember _
    · split
      · exact bind_ne_error (hmember _) fun _ _ => hmember _
      · exact bind_ne_error (hmember _) fun _ _ => hmember _

theorem connectionMessagePermission_ne_notOwner (owner other : Did) (connection : Uuid)
    (epoch : Nat) (lock : Bool) :
    ambient.connectionMessagePermission owner other connection epoch lock ≠ .error notOwner := by
  unfold connectionMessagePermission
  split
  · simp
  · split
    · simp
    · split
      · simp
      · refine bind_ne_error ?_ (fun _ _ => by simp)
        unfold checkWhen
        split
        · exact ambient.lockPair_ne_notOwner _ _
        · simp

theorem connectionMessageAllowed_ne_notOwner (owner peer : Did) (connection : Uuid) (epoch : Nat)
    (lock paused : Bool) :
    ambient.connectionMessageAllowed owner peer connection epoch lock paused ≠
      .error notOwner := by
  refine bind_ne_error (ambient.connectionMessagePermission_ne_notOwner _ _ _ _ _) ?_
  intro allowed _
  split
  · simp
  · exact guard_ne_error (by decide) (by simp)

theorem lockOwner_ne_notOwner (owner : Owner) : ambient.lockOwner owner ≠ .error notOwner := by
  unfold lockOwner
  split
  · decide
  · exact guard_ne_error (by decide) (ambient.assertUnfencedAccount_ne_notOwner _)

end Ambient

theorem Conversations.conversationMessageAllowed_ne_notOwner (ambient : Ambient)
    (c : Conversations) (ownerDid senderDid : Did) (identity : ConversationKey)
    (descriptorHash : Bytes) (lock : Bool) (clock : Nat) :
    c.conversationMessageAllowed ambient ownerDid senderDid identity descriptorHash lock clock ≠
      .error notOwner := by
  unfold Conversations.conversationMessageAllowed
  split
  · simp
  · split
    · simp
    · refine bind_ne_error ?_ ?_
      · unfold checkWhen
        split
        · exact ambient.lockOwner_ne_notOwner _
        · simp
      · intro _ _
        split <;> simp

theorem validateAttachments_ne_notOwner (platform : Platform) (files : List (Attachment × Bytes)) :
    validateAttachments platform files ≠ .error notOwner := by
  induction files with
  | nil => simp [validateAttachments]
  | cons file files ih =>
    refine bind_ne_error ?_ (fun _ _ => ih)
    unfold validateAttachmentBytes
    exact guard_ne_error (by decide) (guard_ne_error (by decide) (by simp))

theorem checkBody_ne_notOwner (platform : Platform) (envelope : HailEnvelope) (bytes : Bytes)
    (attachments : List Bytes) :
    checkBody platform envelope bytes attachments ≠ .error notOwner := by
  refine guard_ne_error (by decide) (bind_ne_error ?_ ?_)
  · unfold validateBodyBytes
    refine guard_ne_error (by decide) ?_
    split
    · exact error_ne_error (by decide)
    · exact guard_ne_error (by decide) (by simp)
  · intro files _
    refine guard_ne_error (by decide) (bind_ne_error ?_ (fun _ _ => by simp))
    exact validateAttachments_ne_notOwner platform _

namespace Store

variable {platform : Platform} {ambient : Ambient} {s : Store} {claim : DeliveryClaim}

theorem bindWorkerLease_ne_notOwner (key : MessageKey) (old new : Option Uuid) :
    s.bindWorkerLease ambient key old new ≠ .error notOwner := by
  unfold bindWorkerLease
  split
  · simp
  · refine bind_ne_error (ambient.assertUnfencedAccount_ne_notOwner _) ?_
    intro _ _
    split
    · exact error_ne_error (by decide)
    · refine guard_ne_error (by decide) ?_
      split
      · simp
      · split
        · simp
        · exact guard_ne_error (by simp [Fault.uniqueViolation, notOwner, Fault.error]) (by simp)

theorem updateWork_ne_notOwner (key : MessageKey) (work next : DeliveryWork) :
    s.updateWork ambient key work next ≠ .error notOwner :=
  bind_ne_error (bindWorkerLease_ne_notOwner _ _ _) fun _ _ => by simp

/-- The claim owns the capability its reply uses. -/
def OwnsCapability (s : Store) (claim : DeliveryClaim) : Prop :=
  ∀ original ∈ claim.envelope.repliesTo, ∃ capability,
    s.capabilities.find original = some capability ∧ capability.state = .claimed claim.key

theorem finish_ne_notOwner {work : DeliveryWork} {state : TerminalState}
    (howns : s.OwnsCapability claim) : s.finish ambient claim work state ≠ .error notOwner := by
  refine bind_ne_error ?_ ?_
  · simp only [settleCapability]
    split
    · rename_i replyTo hauth
      obtain ⟨capability, hfind, hclaimed⟩ := howns (claim.envelope.toDid, replyTo)
        (by simp only [HailEnvelope.repliesTo, hauth, Option.mem_def])
      simp only [hfind, hclaimed, ne_eq, not_true_eq_false, ite_false]
      exact bind_ne_error (ambient.assertUnfencedDid_ne_notOwner _) fun _ _ => by simp
    · simp
  · intro settled _
    refine bind_ne_error (updateWork_ne_notOwner _ _ _) ?_
    intro s' _
    exact guard_ne_error (by simp [Fault.uniqueViolation, notOwner, Fault.error]) (by simp)

theorem storeAttachments_ne_notOwner (envelope : HailEnvelope)
    (files : List (Attachment × Bytes)) (s : Store) :
    s.storeAttachments envelope files ≠ .error notOwner := by
  induction files generalizing s with
  | nil => simp [storeAttachments]
  | cons file files ih => exact guard_ne_error (by decide) (ih _)

theorem insertDelivered_ne_notOwner (envelope : HailEnvelope) :
    s.insertDelivered ambient envelope ≠ .error notOwner := by
  unfold insertDelivered
  split
  · simp
  · refine bind_ne_error (ambient.assertUnfencedDid_ne_notOwner _) fun _ _ => bind_ne_error ?_ ?_
    · unfold checkWhen guardHandoverDelivery
      split
      · split
        · refine bind_ne_error (ambient.connectionMessagePermission_ne_notOwner _ _ _ _ _) ?_
          intro _ _
          exact guard_ne_error (by decide) (by simp)
        · simp
      · simp
    · intro _ _
      exact guard_ne_error (by simp [Fault.uniqueViolation, notOwner, Fault.error]) (by simp)

theorem deliveryPermitted_ne_notOwner (envelope : HailEnvelope) (authorized : Bool) :
    s.deliveryPermitted ambient envelope authorized ≠ .error notOwner := by
  unfold deliveryPermitted
  split
  · split
    · simp
    · exact ambient.connectionMessageAllowed_ne_notOwner _ _ _ _ _ _
  · split
    · simp
    · exact Conversations.conversationMessageAllowed_ne_notOwner _ _ _ _ _ _ _ _
  · simp

/-- Storing a body leaves the capability to its owner. -/
theorem OwnsCapability.of_life {t : Store} (h : s.OwnsCapability claim) (hlife : t.life = s.life) :
    t.OwnsCapability claim := by
  have hcapabilities : t.capabilities = s.capabilities := congrArg Life.capabilities hlife
  intro original horiginal
  rw [hcapabilities]
  exact h original horiginal

theorem deliver_ne_notOwner {bytes : Bytes} {attachments : List Bytes} {authorized : Bool}
    (howns : ∀ work, s.lockClaim claim = some work → s.OwnsCapability claim) :
    s.deliver platform ambient claim bytes attachments authorized ≠ .error notOwner := by
  refine bind_ne_error (checkBody_ne_notOwner _ _ _ _) ?_
  intro files _
  split
  · simp
  · rename_i work hlock
    have howns := howns work hlock
    split
    · exact bind_ne_error (finish_ne_notOwner howns) fun _ _ => by simp
    · refine bind_ne_error (deliveryPermitted_ne_notOwner _ _) fun permitted _ => ?_
      split
      · exact bind_ne_error (finish_ne_notOwner howns) fun _ _ => by simp
      · refine bind_ne_error ?_ ?_
        · refine bind_ne_error (ambient.assertUnfencedDid_ne_notOwner _) fun _ _ => ?_
          exact guard_ne_error (by decide) (guard_ne_error (by decide) (by simp))
        · intro s₁ hbody
          refine bind_ne_error (storeAttachments_ne_notOwner _ _ _) ?_
          intro s₂ hattachments
          refine guard_ne_error (by decide) ?_
          have howns₂ : s₂.OwnsCapability claim := howns.of_life
            ((storeAttachments_life hattachments).1.trans (storeBody_life hbody).1)
          split
          · exact bind_ne_error (finish_ne_notOwner howns₂) fun _ _ => by simp
          · refine bind_ne_error (insertDelivered_ne_notOwner _) ?_
            intro s₃ hinsert
            have howns₃ : s₃.OwnsCapability claim := by
              unfold insertDelivered at hinsert
              split at hinsert
              · cases hinsert
                exact howns₂
              · simp only [bind_eq_ok, guard_eq_ok, Except.ok.injEq] at hinsert
                obtain ⟨_, _, _, _, _, rfl⟩ := hinsert
                exact howns₂
            exact bind_ne_error (finish_ne_notOwner howns₃) fun _ _ => by simp

end Store

section Runs

variable {platform : Platform} {limits : EnvelopeAdmissionLimits} {sys sys' : System}

/-- Capabilities and replies agree in every reachable state. -/
theorem reachable_owned (h : System.Reached platform limits sys) :
    sys.store.life.Owned platform := by
  refine (h.invariant (I := fun sys => sys.store.life.Sound platform sys.issued ∧
    sys.store.life.Owned platform) ⟨.initial, .initial⟩ ?_).2
  intro s t e hs _ hstep
  obtain ⟨handed, _, hmove⟩ := step_move hs.1 hstep
  exact ⟨step_sound hs.1 hstep, hs.2.move hs.1 hmove⟩

/-- A claim whose token is still on its row owns the capability its reply uses. -/
theorem ownsCapability_of_lock {claim : DeliveryClaim} {work : DeliveryWork}
    (hs : sys.store.life.Sound platform sys.issued) (ho : sys.store.life.Owned platform)
    (hissued : claim ∈ sys.issued) (hlock : sys.store.lockClaim claim = some work) :
    sys.store.OwnsCapability claim := by
  intro original horiginal
  obtain ⟨hwork, _, hstate⟩ := Store.lockClaim_some hlock
  obtain ⟨row, _, hrow, haccepted, _⟩ := hs.accepted hwork
  obtain ⟨row', hrow', hinspect, _⟩ := hs.held claim hissued
  rw [hrow, Option.some.injEq] at hrow'
  subst hrow'
  exact ho.pending ⟨row, claim.envelope, hrow, haccepted, hinspect, horiginal⟩
    ⟨work, hwork, hstate⟩

/-- No operation on a claim meets a capability it does not own. -/
theorem perform_ne_notOwner {e : Event platform} {claim : DeliveryClaim}
    (hs : sys.store.life.Sound platform sys.issued) (ho : sys.store.life.Owned platform)
    (henabled : sys.enabled e.operation = true) (hclaim : e.operation.claim? = some claim) :
    perform limits sys.store e ≠ .error notOwner := by
  have hissued : claim ∈ sys.issued := by
    unfold System.enabled at henabled
    rw [hclaim, Bool.and_eq_true, Option.all_some, decide_eq_true_eq] at henabled
    exact henabled.1
  have howns : ∀ work, sys.store.lockClaim claim = some work → sys.store.OwnsCapability claim :=
    fun work hlock => ownsCapability_of_lock hs ho hissued hlock
  have hmap : ∀ {α β : Type} {x : Except Fault α} {f : α → β}, x ≠ .error notOwner →
      x.map f ≠ .error notOwner := by
    intro α β x f hx
    cases x with
    | ok a => simp [Except.map]
    | error fault => simpa [Except.map] using hx
  simp only [perform]
  cases hop : e.operation with
  | deliver other bytes attachments authorized =>
    rw [hop] at hclaim
    cases hclaim
    exact hmap (Store.deliver_ne_notOwner howns)
  | fail other reason =>
    rw [hop] at hclaim
    cases hclaim
    refine hmap ?_
    unfold Store.fail
    split
    · simp
    · rename_i work hlock
      exact Store.finish_ne_notOwner (howns work hlock)
  | cancel other reason =>
    rw [hop] at hclaim
    cases hclaim
    refine hmap ?_
    unfold Store.cancel
    split
    · simp
    · rename_i work hlock
      exact Store.finish_ne_notOwner (howns work hlock)
  | hold other reason retryAt =>
    rw [hop] at hclaim
    cases hclaim
    refine hmap ?_
    unfold Store.hold
    split
    · simp
    · rename_i work hlock
      split
      · exact Store.finish_ne_notOwner (howns work hlock)
      · exact Store.updateWork_ne_notOwner _ _ _
  | _ =>
    rw [hop] at hclaim
    cases hclaim

/-- A reply capability is used once. In every reachable state at most one reply was delivered
through it; it is `claimed` exactly when one accepted reply with open delivery is its recorded
claimant, and `consumed` exactly when its recorded claimant was delivered; and no operation on a
claim finds the capability owned by another. -/
theorem reply_capability_single_use (h : System.Reached platform limits sys) :
    (∀ original first second, sys.store.life.AcceptedReply platform first original →
      sys.store.life.AcceptedReply platform second original →
      sys.store.life.InState first DeliveryState.Delivered →
      sys.store.life.InState second DeliveryState.Delivered → first = second) ∧
    (∀ original capability, sys.store.capabilities.find original = some capability →
      ((∃ key, capability.state = .claimed key) ↔
        ∃! key, capability.state.claimant = some key ∧
          sys.store.life.AcceptedReply platform key original ∧
          sys.store.life.InState key DeliveryState.Open) ∧
      ((∃ key, capability.state = .consumed key) ↔
        ∃ key, capability.state.claimant = some key ∧
          sys.store.life.InState key DeliveryState.Delivered)) ∧
    (∀ (e : Event platform) claim, sys.enabled e.operation = true →
      e.operation.claim? = some claim → perform limits sys.store e ≠ .error notOwner) := by
  have hs := reachable_sound h
  have ho := reachable_owned h
  refine ⟨?_, ?_, fun e claim henabled hclaim => perform_ne_notOwner hs ho henabled hclaim⟩
  · intro original first second hfirst hsecond hdelivered hdelivered'
    obtain ⟨capability, hfind, hstate⟩ := ho.delivered hfirst hdelivered
    obtain ⟨capability', hfind', hstate'⟩ := ho.delivered hsecond hdelivered'
    rw [hfind, Option.some.injEq] at hfind'
    subst hfind'
    rw [hstate, CapabilityState.consumed.injEq] at hstate'
    exact hstate'
  · intro original capability hfind
    have hexclusive : ∀ {key}, sys.store.life.InState key DeliveryState.Open →
        ¬sys.store.life.InState key DeliveryState.Delivered := by
      rintro key ⟨work, hwork, hopen⟩ ⟨work', hwork', hdelivered⟩
      rw [hwork, Option.some.injEq] at hwork'
      subst hwork'
      unfold DeliveryState.Open at hopen
      rw [hdelivered] at hopen
      cases hopen
    cases hstate : capability.state with
    | available => simp [CapabilityState.claimant]
    | claimed key =>
      obtain ⟨hreply, hopen⟩ := ho.claimed hfind hstate
      simp only [CapabilityState.claimant, Option.some.injEq, reduceCtorEq, exists_false,
        false_iff, not_exists, not_and]
      refine ⟨⟨fun _ => ⟨key, ⟨rfl, hreply, hopen⟩, fun other ho => ho.1.symm⟩,
        fun _ => ⟨key, rfl⟩⟩, ?_⟩
      rintro other rfl
      exact hexclusive hopen
    | consumed key =>
      obtain ⟨hreply, hdelivered⟩ := ho.consumed hfind hstate
      simp only [CapabilityState.claimant, Option.some.injEq, reduceCtorEq, exists_false,
        false_iff]
      refine ⟨?_, fun _ => ⟨key, rfl, hdelivered⟩, fun _ => ⟨key, rfl⟩⟩
      rintro ⟨other, ⟨rfl, _, hopen⟩, _⟩
      exact hexclusive hopen hdelivered

end Runs

namespace Sample

def secondDecision : EnvelopeDecision platform where
  payload := secondReply
  representation := [2]
  payloadDigest := List.replicate 32 2
  envelopeDigest := List.replicate 32 2
  localAccountId := aliceAccount
  signingPublicKey := "did:key:bob"
  evidenceBytes := 100
  retainAuthority := none
  envelopeAuthority := none
  conversationDescriptor := none
  inspected := by decide +kernel

/-- Bob replies a second time after his first reply was delivered. -/
def repliedTwice : List (Event platform) :=
  replyDelivered ++ [⟨provider 1787851400 answered_le, .accept secondDecision⟩]

end Sample

theorem reply_capability_second_reply : ∃ sys capability,
    Sample.run Sample.repliedTwice = some sys ∧
    sys.store.capabilities.find Sample.question.key = some capability ∧
    capability.state.claimant = some Sample.firstReply.key ∧
    sys.store.life.InState Sample.firstReply.key DeliveryState.Delivered ∧
    sys.store.work.find Sample.secondReply.key = none := by
  have hrun : (Sample.run Sample.repliedTwice).isSome := by decide +kernel
  obtain ⟨sys, hsys⟩ := Option.isSome_iff_exists.1 hrun
  have hstate : (Sample.run Sample.repliedTwice).bind (fun sys =>
    (sys.store.capabilities.find Sample.question.key).map ReplyCapability.state) =
      some (.consumed Sample.firstReply.key) := by decide +kernel
  have hsecond : (Sample.run Sample.repliedTwice).all (fun sys =>
    (sys.store.work.find Sample.secondReply.key).isNone) := by decide +kernel
  rw [hsys, Option.bind_some, Option.map_eq_some_iff] at hstate
  rw [hsys, Option.all_some, Option.isNone_iff_eq_none] at hsecond
  obtain ⟨capability, hfind, hconsumed⟩ := hstate
  obtain ⟨_, hstates, _⟩ := reply_capability_single_use (reachable_of_exec hsys)
  obtain ⟨key, hclaimant, hdelivered⟩ := (hstates _ _ hfind).2.1 ⟨_, hconsumed⟩
  rw [hconsumed, CapabilityState.claimant, Option.some.injEq] at hclaimant
  subst hclaimant
  exact ⟨sys, capability, hsys, hfind, by rw [hconsumed]; rfl, hdelivered, hsecond⟩

end HailProto.Messages
