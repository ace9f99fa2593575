import HailProto.Messages.Acceptance

/-!
# The life of a message

Five tables follow a message from its acceptance to its last status: the received row, its
delivery work, the reply capability it uses, the delivered message and the queued final status.
Every transaction of the provider makes one of nine moves on them. The invariants of the later
modules look at the moves only.
-/

namespace HailProto.Messages

open Server

/-- The tables a message goes through. -/
structure Life where
  received : Table MessageKey ReceivedEnvelope
  work : Table MessageKey DeliveryWork
  capabilities : Table MessageKey ReplyCapability
  delivered : Table MessageKey DeliveredMessage
  publications : Table MessageKey Nat

def Store.life (s : Store) : Life :=
  ⟨s.received, s.work, s.capabilities, s.delivered, s.publications⟩

/-- The claim's envelope is the one received and accepted under its key. -/
def Life.Held (platform : Platform) (l : Life) (claim : DeliveryClaim) : Prop :=
  ∃ row, l.received.find claim.key = some row ∧
    platform.inspectEnvelope row.envelopeCose = some claim.envelope ∧
    claim.envelope.key = claim.key

/-- The row a claim's token still holds. -/
def Life.Locked (l : Life) (claim : DeliveryClaim) (work : DeliveryWork) : Prop :=
  l.work.find claim.key = some work ∧ (∃ lease, work.lease = some lease ∧
    lease.token = claim.leaseToken) ∧ work.state.isTerminal = false

/-- The work row after an operation on its claim. -/
def DeliveryWork.transition (work : DeliveryWork) (state : DeliveryState) (nextAttemptAt : Int)
    (transitionedAt : Nat) : DeliveryWork :=
  { work with
    state := state
    statusRevision := work.statusRevision + 1
    nextAttemptAt := nextAttemptAt
    lease := none
    transitionedAt := transitionedAt }

/-- The end of a claim settles the capability the claim owns, if it is a reply. -/
def Settles (claim : DeliveryClaim) (state : TerminalState)
    (capabilities settled : Table MessageKey ReplyCapability) : Prop :=
  match claim.envelope.repliesTo with
  | none => settled = capabilities
  | some original => ∃ capability updatedAt, capabilities.find original = some capability ∧
      capability.state = .claimed claim.key ∧
      settled = capabilities.insert original
        { capability with
          state := state.capabilityState claim.key
          updatedAt := updatedAt }

/-- What one transaction does to the tables, and the claim it hands out. -/
inductive Life.Move (platform : Platform) (issued : List DeliveryClaim) (l : Life) :
    Option DeliveryClaim → Life → Prop
  | idle : Move platform issued l none l
  | reject (input : EnvelopeDecision platform) (outcome : ReceivedOutcome) (now : Nat) :
      l.received.find input.payload.key = none → outcome ≠ .accepted →
      Move platform issued l none { l with
        received := l.received.insert input.payload.key (input.row outcome now) }
  | accept (input : EnvelopeDecision platform) (now start : Nat) :
      l.received.find input.payload.key = none → l.work.find input.payload.key = none →
      input.payload.repliesTo = none →
      Move platform issued l none { l with
        received := l.received.insert input.payload.key (input.row .accepted now)
        work := l.work.insert input.payload.key (newWork start) }
  | admitReply (input : EnvelopeDecision platform) (now start updatedAt : Nat)
      (original : MessageKey) (capability : ReplyCapability) :
      l.received.find input.payload.key = none → l.work.find input.payload.key = none →
      input.payload.repliesTo = some original →
      l.capabilities.find original = some capability → capability.state = .available →
      Move platform issued l none { l with
        received := l.received.insert input.payload.key (input.row .accepted now)
        work := l.work.insert input.payload.key (newWork start)
        capabilities := l.capabilities.insert original
          { capability with
            state := .claimed input.payload.key
            updatedAt := updatedAt } }
  | lease (claim : DeliveryClaim) (work : DeliveryWork) (expiresAt : Nat) :
      l.work.find claim.key = some work → work.state.isTerminal = false →
      l.Held platform claim → (∀ other ∈ issued, other.leaseToken ≠ claim.leaseToken) →
      Move platform issued l (some claim) { l with
        work := l.work.insert claim.key
          { work with
            lease := some ⟨claim.leaseToken, expiresAt⟩
            attemptCount := work.attemptCount + 1 } }
  | hold (claim : DeliveryClaim) (work : DeliveryWork) (reason : HoldReason)
      (nextAttemptAt : Int) (transitionedAt : Nat) :
      claim ∈ issued → l.Locked claim work →
      Move platform issued l none { l with
        work := l.work.insert claim.key
          (work.transition (.onHold reason) nextAttemptAt transitionedAt) }
  | finish (claim : DeliveryClaim) (work : DeliveryWork) (state : TerminalState)
      (settled : Table MessageKey ReplyCapability) (transitionedAt start : Nat) :
      claim ∈ issued → l.Locked claim work → state ≠ .delivered →
      Settles claim state l.capabilities settled → l.publications.find claim.key = none →
      Move platform issued l none { l with
        work := l.work.insert claim.key
          (work.transition (.finished state) work.nextAttemptAt transitionedAt)
        capabilities := settled
        publications := l.publications.insert claim.key start }
  | deliver (claim : DeliveryClaim) (work : DeliveryWork) (message : DeliveredMessage)
      (settled : Table MessageKey ReplyCapability) (transitionedAt start : Nat) :
      claim ∈ issued → l.Locked claim work → l.delivered.find claim.key = none →
      Settles claim .delivered l.capabilities settled → l.publications.find claim.key = none →
      Move platform issued l none { l with
        work := l.work.insert claim.key
          (work.transition (.finished .delivered) work.nextAttemptAt transitionedAt)
        capabilities := settled
        delivered := l.delivered.insert claim.key message
        publications := l.publications.insert claim.key start }
  | issue (original : MessageKey) (capability : ReplyCapability) :
      l.capabilities.find original = none → capability.state = .available →
      Move platform issued l none { l with
        capabilities := l.capabilities.insert original capability }

namespace Store

variable {platform : Platform} {ambient : Ambient} {limits : EnvelopeAdmissionLimits}
variable {s t : Store} {issued : List DeliveryClaim} {claim : DeliveryClaim}

/-- `UPDATE delivery_work` changes the row and the lease bookkeeping. -/
theorem updateWork_ok {key : MessageKey} {work next : DeliveryWork}
    (h : s.updateWork ambient key work next = .ok t) :
    ∃ leases, t = { s with
      workerLeases := leases
      work := s.work.insert key next } := by
  simp only [updateWork, bind_eq_ok, Except.ok.injEq] at h
  obtain ⟨leases, _, rfl⟩ := h
  exact ⟨leases, rfl⟩

/-- The row `lockClaim` finds. -/
theorem lockClaim_some {work : DeliveryWork} (h : s.lockClaim claim = some work) :
    s.life.Locked claim work := by
  rw [lockClaim, Option.filter_eq_some_iff] at h
  obtain ⟨hfind, hcond⟩ := h
  simp only [Bool.and_eq_true, Option.any_eq_true, decide_eq_true_eq, Bool.not_eq_true'] at hcond
  obtain ⟨⟨lease, hlease, htoken⟩, hstate⟩ := hcond
  exact ⟨hfind, ⟨lease, hlease, htoken⟩, hstate⟩

/-- What settling a capability does. -/
theorem settleCapability_settles {capabilities settled : Table MessageKey ReplyCapability}
    {state : TerminalState}
    (h : settleCapability ambient capabilities claim state = .ok settled) :
    Settles claim state capabilities settled := by
  simp only [settleCapability] at h
  unfold Settles HailEnvelope.repliesTo
  cases hauth : claim.envelope.authorization with
  | reply replyTo =>
    simp only [hauth] at h
    split at h
    · cases h
    · rename_i capability hfind
      simp only [guard_eq_ok, ne_eq, not_not, bind_eq_ok, Except.ok.injEq] at h
      obtain ⟨hclaimed, _, _, rfl⟩ := h
      exact ⟨capability, ambient.clock 3, hfind, hclaimed, rfl⟩
  | grant grantId =>
    simp only [hauth, Except.ok.injEq] at h
    exact h.symm
  | connection connectionId epoch =>
    simp only [hauth, Except.ok.injEq] at h
    exact h.symm
  | conversation creator conversationId descriptorHash =>
    simp only [hauth, Except.ok.injEq] at h
    exact h.symm

/-- What `finish` does: it settles the capability, ends the work and queues the status. -/
theorem finish_ok {work : DeliveryWork} {state : TerminalState}
    (h : s.finish ambient claim work state = .ok t) :
    ∃ settled leases, Settles claim state s.capabilities settled ∧
      s.publications.find claim.key = none ∧ t = { s with
        capabilities := settled
        workerLeases := leases
        work := s.work.insert claim.key
          (work.transition (.finished state) work.nextAttemptAt (ambient.clock 3))
        publications := s.publications.insert claim.key ambient.start } := by
  simp only [finish, bind_eq_ok, guard_eq_ok, Bool.not_eq_true, Option.isSome_eq_false_iff,
    Option.isNone_iff_eq_none, Except.ok.injEq] at h
  obtain ⟨settled, hsettle, s₁, hupdate, hnone, rfl⟩ := h
  obtain ⟨leases, rfl⟩ := updateWork_ok hupdate
  exact ⟨settled, leases, settleCapability_settles hsettle, hnone, rfl⟩

/-- An end without a delivery is a move of its own. -/
theorem finish_move {work : DeliveryWork} {state : TerminalState} (hissued : claim ∈ issued)
    (hlocked : s.life.Locked claim work) (hstate : state ≠ .delivered)
    (h : s.finish ambient claim work state = .ok t) :
    Life.Move platform issued s.life none t.life := by
  obtain ⟨settled, leases, hsettles, hnone, rfl⟩ := finish_ok h
  exact .finish claim work state settled (ambient.clock 3) ambient.start hissued hlocked hstate
    hsettles hnone

theorem storeBody_life {envelope : HailEnvelope} {bytes : Bytes}
    (h : s.storeBody platform ambient envelope bytes = .ok t) :
    t.life = s.life ∧ t.conversations = s.conversations := by
  simp only [storeBody, bind_eq_ok, guard_eq_ok, Except.ok.injEq] at h
  obtain ⟨_, _, _, _, rfl⟩ := h
  exact ⟨rfl, rfl⟩

theorem storeAttachments_life {envelope : HailEnvelope} {files : List (Attachment × Bytes)}
    (h : s.storeAttachments envelope files = .ok t) :
    t.life = s.life ∧ t.conversations = s.conversations := by
  induction files generalizing s with
  | nil =>
    cases h
    exact ⟨rfl, rfl⟩
  | cons file files ih =>
    simp only [storeAttachments, guard_eq_ok] at h
    have hrest := ih h.2
    exact hrest

/-- A delivered message is inserted under a key that has none. -/
theorem insertDelivered_ok {envelope : HailEnvelope} {row : ReceivedEnvelope}
    (hrow : s.received.find envelope.key = some row)
    (h : s.insertDelivered ambient envelope = .ok t) :
    s.delivered.find envelope.key = none ∧
      ∃ message, t = { s with delivered := s.delivered.insert envelope.key message } := by
  simp only [insertDelivered, hrow, bind_eq_ok, guard_eq_ok, Bool.not_eq_true,
    Option.isSome_eq_false_iff, Option.isNone_iff_eq_none, Except.ok.injEq] at h
  obtain ⟨_, _, _, _, hnone, rfl⟩ := h
  exact ⟨hnone, _, rfl⟩

/-- The end of a delivery is one move, whatever the body brought along. -/
theorem delivered_move {work : DeliveryWork} {s₁ s₂ : Store} (hissued : claim ∈ issued)
    (hheld : s.life.Held platform claim) (hlocked : s.life.Locked claim work)
    (hlife : s₁.life = s.life) (hinsert : s₁.insertDelivered ambient claim.envelope = .ok s₂)
    (h : s₂.finish ambient claim work .delivered = .ok t) :
    Life.Move platform issued s.life none t.life := by
  obtain ⟨row, hrow, _, hkey⟩ := hheld
  rw [← hlife] at hrow hlocked ⊢
  have hrow' : s₁.received.find claim.envelope.key = some row := by
    rw [hkey]
    exact hrow
  obtain ⟨hnone, message, rfl⟩ := insertDelivered_ok hrow' hinsert
  obtain ⟨settled, leases, hsettles, hpublication, rfl⟩ := finish_ok h
  rw [hkey] at hnone
  have hmove : Life.Move platform issued s₁.life none _ := .deliver claim work message settled
    (ambient.clock 3) ambient.start hissued hlocked hnone hsettles hpublication
  simpa only [life, hkey] using hmove

theorem deliver_move {bytes : Bytes} {attachments : List Bytes} {authorized : Bool}
    {outcome : DeliverOutcome} (hissued : claim ∈ issued) (hheld : s.life.Held platform claim)
    (h : s.deliver platform ambient claim bytes attachments authorized = .ok (outcome, t)) :
    Life.Move platform issued s.life none t.life := by
  simp only [deliver, bind_eq_ok] at h
  obtain ⟨files, _, h⟩ := h
  split at h
  · cases h
    exact .idle
  · rename_i work hlock
    have hlocked := lockClaim_some hlock
    split at h
    · simp only [bind_eq_ok, Except.ok.injEq, Prod.mk.injEq] at h
      obtain ⟨s₁, hfinish, _, rfl⟩ := h
      exact finish_move hissued hlocked (by simp) hfinish
    · simp only [bind_eq_ok] at h
      obtain ⟨permitted, _, h⟩ := h
      split at h
      · simp only [bind_eq_ok, Except.ok.injEq, Prod.mk.injEq] at h
        obtain ⟨s₁, hfinish, _, rfl⟩ := h
        exact finish_move hissued hlocked (by simp) hfinish
      · simp only [bind_eq_ok, guard_eq_ok] at h
        obtain ⟨s₁, hbody, s₂, hattachments, _, h⟩ := h
        have hlife : s₂.life = s.life :=
          (storeAttachments_life hattachments).1.trans (storeBody_life hbody).1
        split at h
        · simp only [bind_eq_ok, Except.ok.injEq, Prod.mk.injEq] at h
          obtain ⟨s₃, hfinish, _, rfl⟩ := h
          rw [← hlife] at hlocked ⊢
          exact finish_move hissued hlocked (by simp) hfinish
        · simp only [bind_eq_ok, Except.ok.injEq, Prod.mk.injEq] at h
          obtain ⟨s₃, hinsert, s₄, hfinish, _, rfl⟩ := h
          exact delivered_move hissued hheld hlocked hlife hinsert hfinish

theorem fail_move {reason : FailureReason} (hissued : claim ∈ issued)
    (h : s.fail ambient claim reason = .ok t) :
    Life.Move platform issued s.life none t.life := by
  simp only [fail] at h
  split at h
  · cases h
    exact .idle
  · rename_i work hlock
    exact finish_move hissued (lockClaim_some hlock) (by simp) h

theorem cancel_move {reason : CancellationReason} (hissued : claim ∈ issued)
    (h : s.cancel ambient claim reason = .ok t) :
    Life.Move platform issued s.life none t.life := by
  simp only [cancel] at h
  split at h
  · cases h
    exact .idle
  · rename_i work hlock
    exact finish_move hissued (lockClaim_some hlock) (by simp) h

theorem hold_move {reason : HoldReason} {retryAt : JsDate} (hissued : claim ∈ issued)
    (h : s.hold ambient claim reason retryAt = .ok t) :
    Life.Move platform issued s.life none t.life := by
  simp only [hold] at h
  split at h
  · cases h
    exact .idle
  · rename_i work hlock
    split at h
    · exact finish_move hissued (lockClaim_some hlock) (by simp) h
    · obtain ⟨leases, rfl⟩ := updateWork_ok h
      exact .hold claim work reason (retryAt.ms * 1000) (ambient.clock 3) hissued
        (lockClaim_some hlock)

/-- The rows `claimDue` chooses from. -/
theorem mem_due {locked : List MessageKey} {due : Due} (h : due ∈ s.due ambient locked) :
    s.work.find due.key = some due.work ∧ s.received.find due.key = some due.row ∧
      due.work.state.isTerminal = false := by
  simp only [Store.due, List.mem_filterMap] at h
  obtain ⟨⟨key, work⟩, hmem, h⟩ := h
  split at h
  · cases h
  · rename_i row hrow
    simp only [Option.ite_none_right_eq_some, Option.some.injEq] at h
    obtain ⟨⟨hclaimable, _⟩, rfl⟩ := h
    simp only [claimable, Bool.and_eq_true, Bool.not_eq_true'] at hclaimable
    exact ⟨Table.mem_rows.1 hmem, hrow, hclaimable.1.1.1.1.1⟩

theorem claimDue_move {leaseToken : Uuid} {leaseSeconds : Nat} {locked : List MessageKey}
    {handed : Option DeliveryClaim}
    (hfresh : ∀ other ∈ issued, other.leaseToken ≠ leaseToken)
    (h : s.claimDue platform ambient leaseToken leaseSeconds locked = .ok (handed, t)) :
    Life.Move platform issued s.life handed t.life := by
  simp only [claimDue] at h
  split at h
  · cases h
    exact .idle
  · rename_i due hhead
    have hmem := List.mem_of_mem_head? (Option.mem_def.2 hhead)
    rw [List.mem_insertionSort] at hmem
    obtain ⟨hwork, hrow, hstate⟩ := mem_due hmem
    split at h
    · cases h
    · rename_i envelope hinspect
      simp only [guard_eq_ok, ne_eq, not_not, bind_eq_ok, Except.ok.injEq, Prod.mk.injEq] at h
      obtain ⟨hkey, s₁, hupdate, rfl, rfl⟩ := h
      obtain ⟨leases, rfl⟩ := updateWork_ok hupdate
      exact .lease ⟨due.key.1, due.key.2, leaseToken, due.work.attemptCount + 1, envelope⟩
        due.work (ambient.start + leaseSeconds * second) hwork hstate
        ⟨due.row, hrow, hinspect, hkey⟩ hfresh

theorem Acceptance.move {input : EnvelopeDecision platform} {answer : EnvelopeOutcome}
    (h : Acceptance s ambient input answer t) :
    Life.Move platform issued s.life none t.life := by
  cases h with
  | refused => exact .idle
  | limited => exact .idle
  | replayed => exact .idle
  | unadmitted => exact .idle
  | rejected fresh _ hne => exact .reject input _ (ambient.clock 4) fresh hne
  | accepted fresh hwork _ _ _ hreply =>
    exact .accept input (ambient.clock 4) ambient.start fresh hwork hreply
  | acceptedReply fresh hwork _ hpermitted hreply =>
    rename_i original
    unfold HailEnvelope.repliesTo at hreply
    unfold Permitted at hpermitted
    split at hreply
    · rename_i replyTo hauth
      cases hreply
      simp only [hauth] at hpermitted
      obtain ⟨capability, _, _, hfind, _, _, _, _, _, hstate, _⟩ := hpermitted
      have hmove : Life.Move platform issued s.life none _ := .admitReply input
        (ambient.clock 4) ambient.start (ambient.clock 5) (input.payload.toDid, replyTo)
        capability fresh hwork (by simp only [HailEnvelope.repliesTo, hauth]) hfind hstate
      simpa only [life, claimCapability, admitted, recorded, Table.update, hfind] using hmove
    · cases hreply

theorem createSent_move {payload : HailEnvelope} {representation : Bytes} {accountId : Uuid}
    (h : s.createSent platform ambient payload representation accountId = .ok t) :
    Life.Move platform issued s.life none t.life := by
  simp only [createSent, guard_eq_ok, bind_eq_ok] at h
  obtain ⟨_, _, _, _, _, _, _, _, _, h⟩ := h
  split at h
  · cases h
    exact .idle
  · simp only [guard_eq_ok, Bool.not_eq_true, Option.isSome_eq_false_iff,
      Option.isNone_iff_eq_none, Except.ok.injEq] at h
    obtain ⟨hnone, rfl⟩ := h
    exact .issue payload.key _ hnone rfl

end Store

variable {platform : Platform} {limits : EnvelopeAdmissionLimits}

/-- Every transaction of the provider is one of the moves. -/
theorem perform_move {s t : Store} {issued : List DeliveryClaim} {e : Event platform}
    {handed : Option DeliveryClaim} {time : Nat}
    (henabled : System.enabled ⟨s, issued, time⟩ e.operation = true)
    (hheld : ∀ claim ∈ issued, s.life.Held platform claim)
    (h : perform limits s e = .ok (handed, t)) :
    Life.Move platform issued s.life handed t.life := by
  simp only [perform] at h
  unfold System.enabled at henabled
  cases hop : e.operation with
  | accept input =>
    simp only [hop, map_eq_ok] at h
    obtain ⟨r, haccept, heq⟩ := h
    cases heq
    exact (Store.accept_acceptance haccept).move
  | createSent payload representation accountId =>
    simp only [hop, map_eq_ok] at h
    obtain ⟨r, hsent, heq⟩ := h
    cases heq
    exact Store.createSent_move hsent
  | createConversation accountId descriptor =>
    simp only [hop, map_eq_ok] at h
    obtain ⟨r, _, heq⟩ := h
    cases heq
    exact .idle
  | claimDue leaseToken leaseSeconds locked =>
    simp only [hop] at h
    simp only [hop, Bool.and_eq_true, List.all_eq_true, decide_eq_true_eq] at henabled
    exact Store.claimDue_move henabled.2 h
  | deliver claim bytes attachments authorized =>
    simp only [hop, map_eq_ok] at h
    obtain ⟨r, hdeliver, heq⟩ := h
    cases heq
    simp only [hop, Operation.claim?, Option.all_some, Bool.and_true,
      decide_eq_true_eq] at henabled
    exact Store.deliver_move henabled (hheld claim henabled) hdeliver
  | fail claim reason =>
    simp only [hop, map_eq_ok] at h
    obtain ⟨r, hfail, heq⟩ := h
    cases heq
    simp only [hop, Operation.claim?, Option.all_some, Bool.and_true,
      decide_eq_true_eq] at henabled
    exact Store.fail_move henabled hfail
  | cancel claim reason =>
    simp only [hop, map_eq_ok] at h
    obtain ⟨r, hcancel, heq⟩ := h
    cases heq
    simp only [hop, Operation.claim?, Option.all_some, Bool.and_true,
      decide_eq_true_eq] at henabled
    exact Store.cancel_move henabled hcancel
  | hold claim reason retryAt =>
    simp only [hop, map_eq_ok] at h
    obtain ⟨r, hhold, heq⟩ := h
    cases heq
    simp only [hop, Operation.claim?, Option.all_some, Bool.and_true,
      decide_eq_true_eq] at henabled
    exact Store.hold_move henabled hhold
  | changeMembership owner identity action =>
    simp only [hop, map_eq_ok] at h
    obtain ⟨c, _, heq⟩ := h
    cases heq
    exact .idle
  | reviveConversation owner request connection =>
    simp only [hop, map_eq_ok] at h
    obtain ⟨r, _, heq⟩ := h
    cases heq
    exact .idle
  | pruneOwner owner selected =>
    simp only [hop, map_eq_ok] at h
    obtain ⟨r, hprune, heq⟩ := h
    cases heq
    simp only [Store.pruneOwner, bind_eq_ok, Except.ok.injEq] at hprune
    obtain ⟨_, _, rfl⟩ := hprune
    exact .idle
  | pruneDescriptors selected =>
    simp only [hop, Except.ok.injEq, Prod.mk.injEq] at h
    obtain ⟨rfl, rfl⟩ := h
    exact .idle

end HailProto.Messages
