import HailProto.Core.Count
import HailProto.Messages.Work
import HailProto.Messages.Frame

/-!
# The admission budgets

`admitEnvelope` counts the outstanding deliveries or the rejected submissions and refuses a
submission that would exceed a budget. The one row an acceptance adds is charged in the same
transaction, and every other transaction leaves the counts alone or lowers them, so the budgets
hold in every reachable state.
-/

namespace HailProto.Messages

open Server

namespace Store

variable (s : Store) (limits : EnvelopeAdmissionLimits)

/-- The deliveries that are accepted or on hold, among those that satisfy a condition. -/
def outstanding (condition : MessageKey → Bool) : Nat :=
  s.work.count fun key work => !work.state.isTerminal && condition key

/-- The message is for the recipient. -/
def isFor (recipient : Did) (key : MessageKey) : Bool :=
  (s.received.find key).any (·.recipientDid = recipient)

/-- The rejected submissions of one sender. -/
def rejectedFrom (sender : Did) : List (MessageKey × ReceivedEnvelope) :=
  s.rejected.filter fun (key, _) => key.1 = sender

/-- Every budget holds. -/
structure WithinBudgets : Prop where
  pendingProvider : s.outstanding (fun _ => true) ≤ limits.pendingProvider
  pendingSender : ∀ sender, s.outstanding (fun key => key.1 = sender) ≤ limits.pendingSender
  pendingRecipient : ∀ recipient, s.outstanding (s.isFor recipient) ≤ limits.pendingRecipient
  rejectedProvider : s.rejected.length ≤ limits.rejectedProvider
  rejectedSender : ∀ sender, (s.rejectedFrom sender).length ≤ limits.rejectedSender
  rejectedProviderBytes : totalBytes s.rejected ≤ limits.rejectedProviderBytes
  rejectedSenderBytes : ∀ sender,
    totalBytes (s.rejectedFrom sender) ≤ limits.rejectedSenderBytes

variable {s limits} {t : Store} {platform : Platform} {ambient : Ambient}
variable {input : EnvelopeDecision platform}

/-- The rows `admitEnvelope` counts are the outstanding ones. -/
theorem pending_count (condition : MessageKey → ReceivedEnvelope → Bool) :
    (s.pending.filter fun r => condition r.1 r.2).length =
      s.work.count fun key work =>
        !work.state.isTerminal && (s.received.find key).any (condition key) := by
  rw [← List.countP_eq_length_filter, pending, List.countP_filterMap, Table.count]
  apply List.countP_congr
  rintro ⟨key, work⟩ _
  cases hstate : work.state.isTerminal with
  | true => simp [hstate]
  | false => cases hrow : s.received.find key <;> simp [hstate, hrow]

/-- Each outstanding delivery has its received row, so the join loses none. -/
theorem outstanding_le {issued : List DeliveryClaim} (hs : s.life.Sound platform issued)
    (condition : MessageKey → Bool) (joined : MessageKey → ReceivedEnvelope → Bool)
    (h : ∀ key row, s.received.find key = some row → condition key = true →
      joined key row = true) :
    s.outstanding condition ≤ (s.pending.filter fun r => joined r.1 r.2).length := by
  rw [pending_count]
  apply Table.count_le_count
  intro key work hwork hopen
  simp only [Bool.and_eq_true] at hopen
  obtain ⟨row, _, hrow, _⟩ := hs.accepted hwork
  have hrow' : s.received.find key = some row := hrow
  refine ⟨work, hwork, ?_⟩
  rw [hopen.1, hrow', Option.any_some, h key row hrow' hopen.2]
  rfl

/-- What an acceptance does to the counted tables: nothing, or one row that was charged. -/
inductive Charged (s : Store) (limits : EnvelopeAdmissionLimits) (input : EnvelopeDecision platform)
    (t : Store) : Prop
  | unchanged : t.received = s.received → t.work = s.work → Charged s limits input t
  | rejected (outcome : ReceivedOutcome) (now : Nat) :
      s.received.find input.payload.key = none → outcome ≠ .accepted →
      s.admitEnvelope input false limits = .ok () →
      t.received = s.received.insert input.payload.key (input.row outcome now) →
      t.work = s.work → Charged s limits input t
  | accepted (now start : Nat) :
      s.received.find input.payload.key = none →
      s.admitEnvelope input true limits = .ok () →
      t.received = s.received.insert input.payload.key (input.row .accepted now) →
      t.work = s.work.insert input.payload.key (newWork start) → Charged s limits input t

theorem insertReceived_charged {outcome : ReceivedOutcome} {retained inserted : Bool} {now : Nat}
    (h : s.insertReceived ambient limits input outcome now retained = .ok (inserted, t)) :
    Charged s limits input t := by
  simp only [insertReceived, bind_eq_ok] at h
  obtain ⟨_, hcapacity, _, _, _, _, _, _, h⟩ := h
  split at h
  · cases h
    exact .unchanged rfl rfl
  · rename_i hnone
    simp only [Bool.not_eq_true, Option.isSome_eq_false_iff, Option.isNone_iff_eq_none] at hnone
    split at h
    · cases h
    · split at h
      · rename_i hne
        cases h
        rw [decide_eq_false hne] at hcapacity
        exact .rejected outcome now hnone hne hcapacity rfl rfl
      · rename_i haccepted
        simp only [ne_eq, not_not] at haccepted
        subst haccepted
        simp only [bind_eq_ok, guard_eq_ok, Except.ok.injEq, Prod.mk.injEq] at h
        obtain ⟨_, _, _, _, rfl⟩ := h
        rw [decide_eq_true rfl] at hcapacity
        exact .accepted now ambient.start hnone hcapacity rfl rfl

/-- The conversation tables are not counted. -/
theorem Charged.of_conversations {c : Conversations}
    (h : Charged { s with conversations := c } limits input t) : Charged s limits input t := by
  cases h with
  | unchanged hreceived hwork => exact .unchanged hreceived hwork
  | rejected outcome now fresh hne hcapacity hreceived hwork =>
    exact .rejected outcome now fresh hne hcapacity hreceived hwork
  | accepted now start fresh hcapacity hreceived hwork =>
    exact .accepted now start fresh hcapacity hreceived hwork

theorem settle_charged {outcome : ReceivedOutcome} {retained : Bool} {now : Nat}
    {answer : EnvelopeOutcome}
    (h : s.settle ambient limits input outcome now retained = .ok (answer, t)) :
    Charged s limits input t := by
  simp only [settle, bind_eq_ok] at h
  obtain ⟨⟨inserted, s'⟩, hinsert, h⟩ := h
  have hcharged := insertReceived_charged hinsert
  split at h
  · cases h
    exact hcharged
  · cases h
    exact hcharged

theorem acceptReply_charged {replyTo : Uuid} {answer : EnvelopeOutcome}
    (h : s.acceptReply ambient limits input replyTo = .ok (answer, t)) :
    Charged s limits input t := by
  simp only [acceptReply] at h
  split at h
  · split at h
    · cases h
      exact .unchanged rfl rfl
    · split at h
      · cases h
      · split at h
        · cases h
          exact .unchanged rfl rfl
        · split at h
          · cases h
            exact .unchanged rfl rfl
          · simp only [bind_eq_ok] at h
            obtain ⟨⟨inserted, s'⟩, hinsert, h⟩ := h
            have hcharged := insertReceived_charged hinsert
            split at h
            · split at h
              · simp only [bind_eq_ok, Except.ok.injEq, Prod.mk.injEq] at h
                obtain ⟨_, _, _, rfl⟩ := h
                -- Claiming the capability touches neither table.
                cases hcharged with
                | unchanged hreceived hwork => exact .unchanged hreceived hwork
                | rejected outcome now fresh hne hcapacity hreceived hwork =>
                  exact .rejected outcome now fresh hne hcapacity hreceived hwork
                | accepted now start fresh hcapacity hreceived hwork =>
                  exact .accepted now start fresh hcapacity hreceived hwork
              · cases h
                exact hcharged
            · cases h
              exact hcharged
  · cases h
    exact .unchanged rfl rfl

theorem acceptGrant_charged {grantId : Uuid} {answer : EnvelopeOutcome}
    (h : s.acceptGrant ambient limits input grantId = .ok (answer, t)) :
    Charged s limits input t := by
  simp only [acceptGrant] at h
  split at h
  · cases h
    exact .unchanged rfl rfl
  · split at h
    · cases h
      exact .unchanged rfl rfl
    · split at h
      · cases h
        exact .unchanged rfl rfl
      · exact settle_charged h

theorem acceptConnection_charged {connectionId : Uuid} {epoch : Nat} {answer : EnvelopeOutcome}
    (h : s.acceptConnection ambient limits input connectionId epoch = .ok (answer, t)) :
    Charged s limits input t := by
  simp only [acceptConnection] at h
  split at h
  · cases h
    exact .unchanged rfl rfl
  · simp only [bind_eq_ok] at h
    obtain ⟨_, _, h⟩ := h
    split at h
    · cases h
      exact .unchanged rfl rfl
    · exact settle_charged h

theorem acceptConversation_charged {identity : ConversationKey} {descriptorHash : Bytes}
    {answer : EnvelopeOutcome}
    (h : s.acceptConversation ambient limits input identity descriptorHash = .ok (answer, t)) :
    Charged s limits input t := by
  simp only [acceptConversation] at h
  split at h
  · cases h
    exact .unchanged rfl rfl
  · split at h
    · cases h
      exact .unchanged rfl rfl
    · simp only [bind_eq_ok] at h
      obtain ⟨s₁, hintroduce, _, _, h⟩ := h
      obtain ⟨c, rfl, _⟩ := introduce_ok hintroduce
      split at h
      · cases h
        exact .unchanged rfl rfl
      · exact (settle_charged h).of_conversations

/-- An acceptance charges what it adds; an exhausted budget changes nothing. -/
theorem accept_charged {answer : EnvelopeOutcome}
    (h : s.accept ambient limits input = .ok (answer, t)) : Charged s limits input t := by
  unfold accept at h
  split at h
  · rename_i result hbudget
    cases h
    unfold acceptWithinBudget at hbudget
    split at hbudget
    · exact acceptConversation_charged hbudget
    · exact acceptConnection_charged hbudget
    · exact acceptReply_charged hbudget
    · exact acceptGrant_charged hbudget
  · cases h
    exact .unchanged rfl rfl
  · cases h

/-- An answer `rate-limited` leaves every table as it was. -/
theorem eq_of_rateLimited (h : s.accept ambient limits input = .ok (.rateLimited, t)) :
    t = s := by
  have hanswer : ∀ {answer : EnvelopeOutcome}, Acceptance s ambient input answer t →
      answer = .rateLimited → t = s := by
    intro answer hacceptance heq
    cases hacceptance with
    | refused => rfl
    | limited => rfl
    | replayed => rfl
    | unadmitted => cases heq
    | @rejected _ outcome => cases outcome <;> cases heq
    | accepted => cases heq
    | acceptedReply => cases heq
  exact hanswer (accept_acceptance h) rfl

section Charges

variable {issued : List DeliveryClaim}

/-- What `admitEnvelope` found of the outstanding deliveries. -/
theorem admitEnvelope_pending (fresh : s.received.find input.payload.key = none)
    (h : s.admitEnvelope input true limits = .ok ()) :
    s.pending.length < limits.pendingProvider ∧
      (s.pending.filter fun r => decide (r.1.1 = input.payload.fromDid)).length <
        limits.pendingSender ∧
      (s.pending.filter fun r => decide (r.2.recipientDid = input.payload.toDid)).length <
        limits.pendingRecipient := by
  simp only [admitEnvelope, fresh, Option.isSome_none, Bool.false_eq_true, if_false, if_true,
    guard_eq_ok, not_or, not_le] at h
  exact h.1

/-- What `admitEnvelope` found of the rejected submissions. -/
theorem admitEnvelope_rejected (fresh : s.received.find input.payload.key = none)
    (h : s.admitEnvelope input false limits = .ok ()) :
    s.rejected.length < limits.rejectedProvider ∧
      (s.rejectedFrom input.payload.fromDid).length < limits.rejectedSender ∧
      totalBytes s.rejected + input.admissionBytes ≤ limits.rejectedProviderBytes ∧
      totalBytes (s.rejectedFrom input.payload.fromDid) + input.admissionBytes ≤
        limits.rejectedSenderBytes := by
  simp only [admitEnvelope, fresh, Option.isSome_none, Bool.false_eq_true, if_false,
    guard_eq_ok, not_or, not_le, not_lt] at h
  exact h.1

/-- Outstanding deliveries that were outstanding before, under a condition that has not grown. -/
theorem outstanding_mono {p q : MessageKey → Bool}
    (hwork : ∀ key work, t.work.find key = some work → work.state.isTerminal = false →
      ∃ old, s.work.find key = some old ∧ old.state.isTerminal = false)
    (h : ∀ key work, s.work.find key = some work → p key = true → q key = true) :
    t.outstanding p ≤ s.outstanding q := by
  apply Table.count_le_count
  intro key work hfind hopen
  simp only [Bool.and_eq_true, Bool.not_eq_true'] at hopen
  obtain ⟨old, hold, hstate⟩ := hwork key work hfind hopen.1
  exact ⟨old, hold, by rw [hstate, h key old hold hopen.2]; rfl⟩

/-- A new delivery adds one to the conditions its key satisfies. -/
theorem outstanding_insert {key : MessageKey} {next : DeliveryWork}
    (hwork : t.work = s.work.insert key next) (condition : MessageKey → Bool) :
    t.outstanding condition ≤ s.outstanding condition + if condition key then 1 else 0 := by
  rw [outstanding, hwork]
  refine (s.work.count_insert_le key next _).trans (Nat.add_le_add_left ?_ _)
  cases hstate : next.state.isTerminal <;> simp

/-- The recipient of a message with work is read from a row that a new submission leaves. -/
theorem isFor_insert (hs : s.life.Sound platform issued) {row : ReceivedEnvelope}
    {new : MessageKey} (fresh : s.received.find new = none)
    (hreceived : t.received = s.received.insert new row) {key : MessageKey} {work : DeliveryWork}
    (hwork : s.work.find key = some work) (recipient : Did) :
    t.isFor recipient key = s.isFor recipient key := by
  obtain ⟨old, _, hold, _⟩ := hs.accepted hwork
  have hne : key ≠ new := by
    rintro rfl
    have hnone : s.life.received.find key = none := fresh
    rw [hnone] at hold
    cases hold
  rw [isFor, hreceived, Table.find_insert_of_ne _ _ hne, isFor]

theorem WithinBudgets.rejecting (hb : s.WithinBudgets limits)
    (hs : s.life.Sound platform issued) {outcome : ReceivedOutcome} {now : Nat}
    (fresh : s.received.find input.payload.key = none) (hne : outcome ≠ .accepted)
    (hcapacity : s.admitEnvelope input false limits = .ok ())
    (hreceived : t.received = s.received.insert input.payload.key (input.row outcome now))
    (hwork : t.work = s.work) : t.WithinBudgets limits := by
  obtain ⟨hcount, hsender, hbytes, hsenderBytes⟩ := admitEnvelope_rejected fresh hcapacity
  have hrejected : t.rejected = (input.payload.key, input.row outcome now) :: s.rejected := by
    rw [rejected, hreceived, Table.rows_insert_new _ fresh, List.filter_cons_of_pos]
    · rfl
    · exact decide_eq_true hne
  have hfrom : ∀ sender, t.rejectedFrom sender = if input.payload.fromDid = sender then
      (input.payload.key, input.row outcome now) :: s.rejectedFrom sender
      else s.rejectedFrom sender := by
    intro sender
    rw [rejectedFrom, hrejected]
    by_cases h : input.payload.fromDid = sender
    · rw [if_pos h, List.filter_cons_of_pos]
      · rfl
      · exact decide_eq_true h
    · rw [if_neg h, List.filter_cons_of_neg]
      · rfl
      · exact fun hd => h (of_decide_eq_true hd)
  have htotal : ∀ rows, totalBytes ((input.payload.key, input.row outcome now) :: rows) =
      input.admissionBytes + totalBytes rows := by
    intro rows
    rw [totalBytes, List.map_cons, List.sum_cons]
    rfl
  have hkept : ∀ key work, t.work.find key = some work → work.state.isTerminal = false →
      ∃ old, s.work.find key = some old ∧ old.state.isTerminal = false := by
    intro key work hfind hstate
    rw [hwork] at hfind
    exact ⟨work, hfind, hstate⟩
  constructor
  · exact (outstanding_mono hkept fun _ _ _ h => h).trans hb.pendingProvider
  · intro sender
    exact (outstanding_mono hkept fun _ _ _ h => h).trans (hb.pendingSender sender)
  · intro recipient
    refine (outstanding_mono hkept fun key work hfind h => ?_).trans (hb.pendingRecipient recipient)
    rwa [← isFor_insert hs fresh hreceived hfind]
  · rw [hrejected, List.length_cons]
    omega
  · intro sender
    rw [hfrom]
    have hold := hb.rejectedSender sender
    split
    · subst sender
      rw [List.length_cons]
      omega
    · exact hold
  · rw [hrejected, htotal]
    omega
  · intro sender
    rw [hfrom]
    have hold := hb.rejectedSenderBytes sender
    split
    · subst sender
      rw [htotal]
      omega
    · exact hold

theorem WithinBudgets.accepting (hb : s.WithinBudgets limits)
    (hs : s.life.Sound platform issued) {now start : Nat}
    (fresh : s.received.find input.payload.key = none)
    (hcapacity : s.admitEnvelope input true limits = .ok ())
    (hreceived : t.received = s.received.insert input.payload.key (input.row .accepted now))
    (hwork : t.work = s.work.insert input.payload.key (newWork start)) :
    t.WithinBudgets limits := by
  obtain ⟨hcount, hsender, hrecipient⟩ := admitEnvelope_pending fresh hcapacity
  have hrejected : t.rejected = s.rejected := by
    rw [rejected, hreceived, Table.rows_insert_new _ fresh, List.filter_cons_of_neg]
    · rfl
    · simp [EnvelopeDecision.row]
  have hfrom : ∀ sender, t.rejectedFrom sender = s.rejectedFrom sender := by
    intro sender
    rw [rejectedFrom, hrejected, rejectedFrom]
  constructor
  · have hinsert := outstanding_insert hwork fun _ => true
    have hjoined := outstanding_le hs (fun _ => true) (fun _ _ => true) fun _ _ _ _ => rfl
    simp only [List.filter_true, if_true] at hinsert hjoined
    omega
  · intro sender
    have hinsert := outstanding_insert hwork fun key => decide (key.1 = sender)
    by_cases h : input.payload.fromDid = sender
    · have hjoined := outstanding_le hs (fun key => decide (key.1 = sender))
        (fun key _ => decide (key.1 = sender)) fun _ _ _ h => h
      rw [h] at hsender
      split at hinsert <;> omega
    · have hold := hb.pendingSender sender
      simp only [HailEnvelope.key, h, decide_false, Bool.false_eq_true, if_false] at hinsert
      omega
  · intro recipient
    have hinsert := outstanding_insert hwork (t.isFor recipient)
    have hsame : s.outstanding (t.isFor recipient) ≤ s.outstanding (s.isFor recipient) := by
      refine outstanding_mono (fun key work hfind hstate => ⟨work, hfind, hstate⟩)
        fun key work hfind h => ?_
      rwa [← isFor_insert hs fresh hreceived hfind]
    by_cases h : input.payload.toDid = recipient
    · have hjoined := outstanding_le hs (s.isFor recipient)
        (fun _ row => decide (row.recipientDid = recipient)) (by
          intro key row hrow hfor
          rwa [isFor, hrow, Option.any_some] at hfor)
      rw [h] at hrecipient
      split at hinsert <;> omega
    · have hold := hb.pendingRecipient recipient
      have hnew : t.isFor recipient input.payload.key = false := by
        rw [isFor, hreceived, Table.find_insert_self]
        simpa [EnvelopeDecision.row] using h
      rw [hnew] at hinsert
      simp only [Bool.false_eq_true, if_false] at hinsert
      omega
  · rw [hrejected]
    exact hb.rejectedProvider
  · intro sender
    rw [hfrom]
    exact hb.rejectedSender sender
  · rw [hrejected]
    exact hb.rejectedProviderBytes
  · intro sender
    rw [hfrom]
    exact hb.rejectedSenderBytes sender

/-- The budgets hold on when no submission is recorded and no delivery starts. -/
theorem WithinBudgets.kept (hb : s.WithinBudgets limits) (hreceived : t.received = s.received)
    (hwork : ∀ key work, t.work.find key = some work → work.state.isTerminal = false →
      ∃ old, s.work.find key = some old ∧ old.state.isTerminal = false) :
    t.WithinBudgets limits := by
  have hrejected : t.rejected = s.rejected := by rw [rejected, hreceived, rejected]
  have hfrom : ∀ sender, t.rejectedFrom sender = s.rejectedFrom sender := by
    intro sender
    rw [rejectedFrom, hrejected, rejectedFrom]
  constructor
  · exact (outstanding_mono hwork fun _ _ _ h => h).trans hb.pendingProvider
  · intro sender
    exact (outstanding_mono hwork fun _ _ _ h => h).trans (hb.pendingSender sender)
  · intro recipient
    refine (outstanding_mono hwork fun key _ _ h => ?_).trans (hb.pendingRecipient recipient)
    rwa [isFor, hreceived] at h
  · rw [hrejected]
    exact hb.rejectedProvider
  · intro sender
    rw [hfrom]
    exact hb.rejectedSender sender
  · rw [hrejected]
    exact hb.rejectedProviderBytes
  · intro sender
    rw [hfrom]
    exact hb.rejectedSenderBytes sender

theorem WithinBudgets.charged (hb : s.WithinBudgets limits) (hs : s.life.Sound platform issued)
    (h : Charged s limits input t) : t.WithinBudgets limits := by
  cases h with
  | unchanged hreceived hwork =>
    refine hb.kept hreceived fun key work hfind hstate => ?_
    rw [hwork] at hfind
    exact ⟨work, hfind, hstate⟩
  | rejected outcome now fresh hne hcapacity hreceived hwork =>
    exact hb.rejecting hs fresh hne hcapacity hreceived hwork
  | accepted now start fresh hcapacity hreceived hwork =>
    exact hb.accepting hs fresh hcapacity hreceived hwork

end Charges

end Store

section Runs

variable {platform : Platform} {limits : EnvelopeAdmissionLimits} {sys sys' : System}
variable {s t : Store} {issued : List DeliveryClaim} {handed : Option DeliveryClaim}

/-- A move that records no submission starts no delivery. -/
theorem Life.Move.outstanding (h : Life.Move platform issued s.life handed t.life)
    (hs : s.life.Sound platform issued) (hreceived : t.received = s.received) {key : MessageKey}
    {work : DeliveryWork} (hwork : t.work.find key = some work)
    (hstate : work.state.isTerminal = false) :
    ∃ old, s.work.find key = some old ∧ old.state.isTerminal = false := by
  have hwork' : t.life.work.find key = some work := hwork
  obtain hsame | ⟨hnone, input, now, _, _, hrow, _⟩ | ⟨_, old, _, _, _, hold, hopen, _⟩ |
    ⟨claim, old, _, _, _, _, hkey, hlocked, _, _⟩ := h.work_cases key
  · exact ⟨work, hsame.symm.trans hwork', hstate⟩
  · -- The row of new work is recorded with it.
    have hstored : s.life.received.find key = some (input.row .accepted now) := by
      rw [← hrow]
      exact congrArg (Table.find · key) hreceived.symm
    obtain ⟨old, hold⟩ := hs.worked hstored rfl
    rw [hnone] at hold
    cases hold
  · exact ⟨old, hold, hopen⟩
  · subst hkey
    exact ⟨old, hlocked.1, hlocked.2.2⟩

/-- A transaction other than an acceptance records no submission. -/
theorem perform_received {e : Event platform} (hop : ∀ input, e.operation ≠ .accept input)
    (h : perform limits s e = .ok (handed, t)) : t.received = s.received := by
  simp only [perform] at h
  cases hcase : e.operation with
  | accept input => exact absurd hcase (hop input)
  | createSent payload representation accountId =>
    simp only [hcase, map_eq_ok] at h
    obtain ⟨r, hsent, heq⟩ := h
    cases heq
    exact (Store.createSent_frames hsent).received
  | createConversation accountId descriptor =>
    simp only [hcase, map_eq_ok] at h
    obtain ⟨r, _, heq⟩ := h
    cases heq
    rfl
  | claimDue leaseToken leaseSeconds locked =>
    simp only [hcase] at h
    exact (Store.claimDue_frames h).received
  | deliver claim bytes attachments authorized =>
    simp only [hcase, map_eq_ok] at h
    obtain ⟨r, hdeliver, heq⟩ := h
    cases heq
    exact (Store.deliver_frames hdeliver).received
  | fail claim reason =>
    simp only [hcase, map_eq_ok] at h
    obtain ⟨r, hfail, heq⟩ := h
    cases heq
    exact (Store.fail_frames hfail).received
  | cancel claim reason =>
    simp only [hcase, map_eq_ok] at h
    obtain ⟨r, hcancel, heq⟩ := h
    cases heq
    exact (Store.cancel_frames hcancel).received
  | hold claim reason retryAt =>
    simp only [hcase, map_eq_ok] at h
    obtain ⟨r, hhold, heq⟩ := h
    cases heq
    exact (Store.hold_frames hhold).received
  | changeMembership owner identity action =>
    simp only [hcase, map_eq_ok] at h
    obtain ⟨c, _, heq⟩ := h
    cases heq
    rfl
  | reviveConversation owner request connection =>
    simp only [hcase, map_eq_ok] at h
    obtain ⟨r, _, heq⟩ := h
    cases heq
    rfl
  | pruneOwner owner selected =>
    simp only [hcase, map_eq_ok] at h
    obtain ⟨r, hprune, heq⟩ := h
    cases heq
    simp only [Store.pruneOwner, bind_eq_ok, Except.ok.injEq] at hprune
    obtain ⟨_, _, rfl⟩ := hprune
    rfl
  | pruneDescriptors selected =>
    simp only [hcase, Except.ok.injEq, Prod.mk.injEq] at h
    obtain ⟨_, rfl⟩ := h
    rfl

/-- Every transaction keeps the budgets. -/
theorem budgets_step {e : Event platform} (hs : sys.store.life.Sound platform sys.issued)
    (hb : sys.store.WithinBudgets limits) (h : sys.step limits e = some sys') :
    sys'.store.WithinBudgets limits := by
  simp only [System.step] at h
  split at h
  · rename_i henabled
    cases hperform : perform limits sys.store e with
    | error fault =>
      simp only [hperform, Option.some.injEq] at h
      subst h
      exact hb
    | ok result =>
      obtain ⟨handed, t⟩ := result
      simp only [hperform, Option.some.injEq] at h
      subst h
      by_cases hop : ∃ input, e.operation = .accept input
      · obtain ⟨input, hop⟩ := hop
        simp only [perform, hop, map_eq_ok] at hperform
        obtain ⟨r, haccept, heq⟩ := hperform
        cases heq
        exact hb.charged hs (Store.accept_charged haccept)
      · rw [not_exists] at hop
        have hreceived := perform_received hop hperform
        have hmove := perform_move henabled (fun claim hc => hs.held claim hc) hperform
        exact hb.kept hreceived fun key work hfind hstate =>
          hmove.outstanding hs hreceived hfind hstate
  · cases h

/-- The budgets hold in every reachable state, and a submission answered `rate-limited` leaves
every table as it was. -/
theorem admission_budgets (h : System.Reached platform limits sys) :
    sys.store.WithinBudgets limits ∧
      ∀ (ambient : Ambient) (input : EnvelopeDecision platform) (t : Store),
        sys.store.accept ambient limits input = .ok (.rateLimited, t) → t = sys.store := by
  have hinvariant : sys.store.life.Sound platform sys.issued ∧
      sys.store.WithinBudgets limits := by
    refine h.invariant (I := fun sys =>
      sys.store.life.Sound platform sys.issued ∧ sys.store.WithinBudgets limits) ?_ ?_
    · exact ⟨Life.Sound.initial, ⟨Nat.zero_le _, fun _ => Nat.zero_le _, fun _ => Nat.zero_le _,
        Nat.zero_le _, fun _ => Nat.zero_le _, Nat.zero_le _, fun _ => Nat.zero_le _⟩⟩
    · intro s t e hs _ hstep
      exact ⟨step_sound hs.1 hstep, budgets_step hs.1 hs.2 hstep⟩
  exact ⟨hinvariant.2, fun _ _ _ => Store.eq_of_rateLimited⟩

end Runs

/-- After his reply is accepted Bob has one outstanding delivery, within the budget. -/
theorem admission_budgets_reply :
    ∃ sys, Sample.run (Sample.replyDelivered.take 2) = some sys ∧
      sys.store.outstanding (fun key => key.1 = Sample.bob) = 1 ∧
      sys.store.WithinBudgets envelopeAdmission := by
  have hbob : (Sample.run (Sample.replyDelivered.take 2)).map (fun sys =>
    sys.store.outstanding fun key => key.1 = Sample.bob) = some 1 := by decide +kernel
  rw [Option.map_eq_some_iff] at hbob
  obtain ⟨sys, hsys, hbob⟩ := hbob
  exact ⟨sys, hsys, hbob, (admission_budgets (reachable_of_exec hsys)).1⟩

end HailProto.Messages
