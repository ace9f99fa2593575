import HailProto.Messages.ReplyCapability

/-!
# Submissions are decided once

The first submission under a message key that is allowed to ask is recorded, and every later one
is answered from that record. The permission of a grant or a reply capability is read at the
clock reading the deadline is compared with; a conversation membership is read at an earlier one
of the same transaction.
-/

namespace HailProto.Messages

open Server

section Runs

variable {platform : Platform} {limits : EnvelopeAdmissionLimits} {sys sys' : System}

/-- A recorded submission stays as it is along every run. -/
theorem received_stays {key : MessageKey} {row : ReceivedEnvelope}
    (hs : sys.store.life.Sound platform sys.issued)
    (hrow : sys.store.received.find key = some row)
    (h : Reachable (fun sys (e : Event platform) => sys.step limits e) sys sys') :
    sys'.store.received.find key = some row := by
  refine (h.invariant (I := fun t => t.store.life.Sound platform t.issued ∧
    t.store.received.find key = some row) ⟨hs, hrow⟩ ?_).2
  intro t u e ht _ hstep
  obtain ⟨handed, _, hmove⟩ := step_move ht.1 hstep
  exact ⟨step_sound ht.1 hstep, hmove.received ht.2⟩

/-- A submission under a key that is taken leaves the store as it is. -/
theorem accept_replayed {s t : Store} {ambient : Ambient} {input : EnvelopeDecision platform}
    {answer : EnvelopeOutcome} {row : ReceivedEnvelope}
    (h : s.accept ambient limits input = .ok (answer, t))
    (hrow : s.received.find input.payload.key = some row) :
    t = s ∧ (answer = .unauthorized ∨
      answer = if row.payloadDigest = input.payloadDigest then .duplicate else .conflict) := by
  have hnone : s.received.find input.payload.key ≠ none := by
    rw [hrow]
    simp
  cases Store.accept_acceptance h with
  | refused => exact ⟨rfl, .inl rfl⟩
  | limited fresh => exact absurd fresh hnone
  | replayed hrow' =>
    rw [hrow, Option.some.injEq] at hrow'
    subst hrow'
    exact ⟨rfl, .inr rfl⟩
  | unadmitted fresh => exact absurd fresh hnone
  | rejected fresh => exact absurd fresh hnone
  | accepted fresh => exact absurd fresh hnone
  | acceptedReply fresh => exact absurd fresh hnone

/-- An acceptance is recorded before the deadline, for a sender who is permitted. -/
theorem accept_permitted {s t : Store} {ambient : Ambient} {input : EnvelopeDecision platform}
    {answer : EnvelopeOutcome} {row : ReceivedEnvelope}
    (h : s.accept ambient limits input = .ok (answer, t))
    (fresh : s.received.find input.payload.key = none)
    (hrow : t.received.find input.payload.key = some row) (haccepted : row.outcome = .accepted) :
    pastDeadline input.payload (ambient.clock 4) = false ∧
      ∃ c, s.Introduces ambient input c ∧
        { s with conversations := c }.Permitted ambient input (ambient.clock 3)
          (ambient.clock 4) := by
  have hunrecorded : ∀ {row : ReceivedEnvelope},
      s.received.find input.payload.key ≠ some row := by
    intro row
    rw [fresh]
    simp
  cases Store.accept_acceptance h with
  | refused => exact absurd hrow hunrecorded
  | limited => exact absurd hrow hunrecorded
  | replayed hrow' => exact absurd hrow' hunrecorded
  | unadmitted => exact absurd hrow hunrecorded
  | rejected _ _ hne =>
    simp only [Store.recorded, Table.find_insert_self, Option.some.injEq] at hrow
    subst hrow
    exact absurd haccepted hne
  | accepted _ _ hintroduces hdeadline hpermitted _ =>
    exact ⟨hdeadline, _, hintroduces, hpermitted⟩
  | acceptedReply _ _ hdeadline hpermitted _ =>
    exact ⟨hdeadline, s.conversations, .inl rfl, hpermitted⟩

/-- Submissions are decided once. In every reachable state a message key has at most one recorded
submission, which no run changes; a later submission under the key is a duplicate or a conflict
by its digest, or is refused before the lookup, and leaves the store as it is; delivery work
exists exactly for the accepted submissions; and an acceptance is recorded only before the
deadline and with the permission the envelope names: of a grant or a reply capability at the
clock reading of the deadline, of a connection in the same transaction, of a conversation
membership at a reading of the same transaction that is not later. -/
theorem submissions_decided_once (h : System.Reached platform limits sys) :
    (∀ key row row', (key, row) ∈ sys.store.received.rows →
      (key, row') ∈ sys.store.received.rows → row = row') ∧
    (∀ key row, sys.store.received.find key = some row → ∀ sys',
      Reachable (fun sys (e : Event platform) => sys.step limits e) sys sys' →
      sys'.store.received.find key = some row) ∧
    (∀ ambient (input : EnvelopeDecision platform) answer t row,
      sys.store.accept ambient limits input = .ok (answer, t) →
      sys.store.received.find input.payload.key = some row →
      t = sys.store ∧ (answer = .unauthorized ∨
        answer = if row.payloadDigest = input.payloadDigest then .duplicate else .conflict)) ∧
    (∀ key, (sys.store.work.find key).isSome ↔
      ∃ row, sys.store.received.find key = some row ∧ row.outcome = .accepted) ∧
    (∀ ambient (input : EnvelopeDecision platform) answer t row,
      sys.store.accept ambient limits input = .ok (answer, t) →
      sys.store.received.find input.payload.key = none →
      t.received.find input.payload.key = some row → row.outcome = .accepted →
      pastDeadline input.payload (ambient.clock 4) = false ∧
        ambient.clock 3 ≤ ambient.clock 4 ∧ ∃ c, sys.store.Introduces ambient input c ∧
          { sys.store with conversations := c }.Permitted ambient input (ambient.clock 3)
            (ambient.clock 4)) := by
  have hs := reachable_sound h
  refine ⟨?_, fun key row hrow sys' hreach => received_stays hs hrow hreach,
    fun ambient input answer t row haccept hrow => accept_replayed haccept hrow, ?_, ?_⟩
  · intro key row row' hrow hrow'
    rw [Table.mem_rows] at hrow hrow'
    rw [hrow, Option.some.injEq] at hrow'
    exact hrow'
  · intro key
    rw [Option.isSome_iff_exists]
    constructor
    · rintro ⟨work, hwork⟩
      obtain ⟨row, _, hrow, haccepted, _⟩ := hs.accepted hwork
      exact ⟨row, hrow, haccepted⟩
    · rintro ⟨row, hrow, haccepted⟩
      exact hs.worked hrow haccepted
  · intro ambient input answer t row haccept fresh hrow haccepted
    obtain ⟨hdeadline, c, hintroduces, hpermitted⟩ :=
      accept_permitted haccept fresh hrow haccepted
    exact ⟨hdeadline, ambient.clock_mono (by decide), c, hintroduces, hpermitted⟩

end Runs

theorem submissions_decided_reply : ∃ sys row, Sample.run Sample.replyDelivered = some sys ∧
    sys.store.received.find Sample.firstReply.key = some row ∧ row.outcome = .accepted := by
  have hrun : (Sample.run Sample.replyDelivered).isSome := by decide +kernel
  obtain ⟨sys, hsys⟩ := Option.isSome_iff_exists.1 hrun
  have hwork : (Sample.run Sample.replyDelivered).all (fun sys =>
    (sys.store.work.find Sample.firstReply.key).isSome) := by decide +kernel
  rw [hsys, Option.all_some] at hwork
  obtain ⟨_, _, _, haccepted, _⟩ := submissions_decided_once (reachable_of_exec hsys)
  obtain ⟨row, hrow, houtcome⟩ := (haccepted _).1 hwork
  exact ⟨sys, row, hsys, hrow, houtcome⟩

namespace Sample

/-- Alice's conversation with Bob and a third party. -/
def roster : HailConversation where
  fromDid := alice
  conversationId := "01954144-0000-7000-8000-0000000000cc"
  participants := [alice, bob, "did:plc:cccccccccccccccccccccccc"]
  createdAt := 1787851200
  admissionUntil := 1787937600
  window_pos := by decide
  window_le := by decide

/-- The second in which Alice's membership expires, 24 months after her admission. -/
def lapse : Nat := 1787851200 + 730 * 86400

/-- Bob's message in the conversation, sent shortly before Alice's membership expires. -/
def lateMessage : HailEnvelope where
  messageId := "01954144-0000-7000-8000-000000000009"
  fromDid := bob
  toDid := alice
  authorization := .conversation alice roster.conversationId digest
  category := none
  inReplyTo := none
  conversationMessageId := some "01954144-0000-7000-8000-000000000009"
  conversationIntroduction := none
  expiresAt := lapse + 86400
  body := ⟨digest, 3, "application/hail-body+cbor", .spt1, lapse + 2592000, [1, 2, 3],
    lapse + 2592000⟩
  reply := .denied

def conversationPlatform : Platform :=
  { platform with inspectEnvelope := fun bytes => if bytes = [9] then some lateMessage else none }

def lateDecision : EnvelopeDecision conversationPlatform where
  payload := lateMessage
  representation := [9]
  payloadDigest := List.replicate 32 9
  envelopeDigest := List.replicate 32 9
  localAccountId := aliceAccount
  signingPublicKey := "did:key:bob"
  evidenceBytes := 100
  retainAuthority := none
  envelopeAuthority := none
  conversationDescriptor := none
  inspected := by decide +kernel

/-- The clock passes the expiry between the permission check and the next reading. -/
def crossing : Ambient :=
  { provider lapse (by decide) with
    start := lapse * second - 1
    clock := fun i => if i ≤ 3 then lapse * second - 1 else lapse * second
    start_le := by decide
    clock_mono := by
      intro i j hij
      dsimp only
      split_ifs <;> omega
    clock_le := by
      intro i
      split_ifs <;> decide }

/-- Alice starts the conversation. -/
def conversationStarted : List (Event conversationPlatform) :=
  [⟨provider 1787851200 sent_le, .createConversation aliceAccount ⟨roster, [8], "did:key:alice"⟩⟩]

end Sample

/-- A membership that expires between the two readings: the message is accepted, and at the clock
reading of the deadline the membership does not permit its sender. -/
theorem accepted_after_membership_expired : ∃ sys t,
    exec (fun sys e => System.step envelopeAdmission sys e) System.initial
      Sample.conversationStarted = some sys ∧
    sys.store.accept Sample.crossing envelopeAdmission Sample.lateDecision = .ok (.accepted, t) ∧
    ∀ c, sys.store.Introduces Sample.crossing Sample.lateDecision c →
      ¬{ sys.store with conversations := c }.Permitted Sample.crossing Sample.lateDecision
        (Sample.crossing.clock 4) (Sample.crossing.clock 4) := by
  have hanswer : (exec (fun sys e => System.step envelopeAdmission sys e) System.initial
      Sample.conversationStarted).bind (fun sys =>
        (sys.store.accept Sample.crossing envelopeAdmission Sample.lateDecision).toOption.map
          Prod.fst) = some .accepted := by decide +kernel
  have hallowed : (exec (fun sys e => System.step envelopeAdmission sys e) System.initial
      Sample.conversationStarted).bind (fun sys =>
        (sys.store.conversations.conversationMessageAllowed Sample.crossing Sample.alice
          Sample.bob (Sample.alice, Sample.roster.conversationId) Sample.digest true
          (Sample.crossing.clock 4)).toOption) = some false := by decide +kernel
  rw [Option.bind_eq_some_iff] at hanswer
  obtain ⟨sys, hsys, hanswer⟩ := hanswer
  rw [hsys, Option.bind_some] at hallowed
  cases haccept : sys.store.accept Sample.crossing envelopeAdmission Sample.lateDecision with
  | error fault =>
    rw [haccept] at hanswer
    cases hanswer
  | ok result =>
    obtain ⟨answer, t⟩ := result
    rw [haccept] at hanswer
    cases hanswer
    refine ⟨sys, t, hsys, haccept, ?_⟩
    rintro c (rfl | ⟨introduction, _, _, hintroduction, _⟩) hpermitted
    · have hok : sys.store.conversations.conversationMessageAllowed Sample.crossing Sample.alice
          Sample.bob (Sample.alice, Sample.roster.conversationId) Sample.digest true
          (Sample.crossing.clock 4) = .ok true := hpermitted
      rw [hok] at hallowed
      cases hallowed
    · cases hintroduction

end HailProto.Messages
