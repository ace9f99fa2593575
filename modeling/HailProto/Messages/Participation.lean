import HailProto.Messages.Membership
import HailProto.Messages.Replay

/-!
# Participation over a run

A descriptor admits inside a window of at most a week, and a membership lasts two years, so a
membership that has lapsed is past its window. This module follows one membership through any
interleaving of the provider's transactions: what brings a lapsed participation back, and what
brings back one that its owner left.
-/

namespace HailProto.Messages

open Server

section Windows

variable {platform : Platform} {limits : EnvelopeAdmissionLimits}

/-- The clock does not run backwards, and the descriptors of a conversation close their windows
together. -/
structure Event.Timely (window : ConversationKey → Nat) (sys : System) (e : Event platform) :
    Prop where
  time_le : sys.time ≤ e.ambient.clock 0
  window_eq : ∀ d, e.operation.presents = some d → d.admissionUntil = window d.key

/-- The account of the membership is not the creator's. -/
def Event.NonCreator (e : Event platform) (k : ParticipationKey) : Prop :=
  ∀ account, e.ambient.accounts.find k.1 = some account → account.did ≠ some k.2.1

/-- The owner asks to rejoin. -/
def Event.Rejoins (e : Event platform) (k : ParticipationKey) : Prop :=
  ∃ owner, e.operation = .changeMembership owner k.2 .rejoin ∧ owner.accountId = k.1

/-- The owner asks to rejoin what it left, past the membership's expiry. -/
def Event.RejoinsLapsed (e : Event platform) (c : Conversations) (k : ParticipationKey) : Prop :=
  e.Rejoins k ∧ ∃ m, c.memberships.find k = some m ∧ m.leftAt.isSome ∧
    m.expiresAt ≤ e.ambient.clock 0

/-- The window is not read in the millisecond after it closes, which the `Date` of the reading
does not tell from the closing second. -/
def Event.ClearOfClosing (e : Event platform) : Prop :=
  ∀ d, e.operation.presents = some d → e.ambient.clock 0 ≤ (d.admissionUntil + 300) * second ∨
    (d.admissionUntil + 300) * 1000 < e.ambient.clock 0 / 1000

/-- What a timely run keeps of the windows and the memberships. -/
structure System.Windowed (window : ConversationKey → Nat) (sys : System) : Prop where
  descriptor : ∀ {key row}, sys.store.conversations.descriptors.find key = some row →
    row.admissionUntil = window key
  opened : ∀ {k m}, sys.store.conversations.memberships.find k = some m →
    window k.2 * second ≤ sys.time + 605100 * second
  expires : ∀ {k m}, sys.store.conversations.memberships.find k = some m →
    (window k.2 + 300) * second + 1000 ≤ m.expiresAt

/-- Twenty-four months are close to two years. -/
def Platform.MonthsLast (platform : Platform) : Prop :=
  ∀ clock, clock + 729 * 86400 * second ≤ platform.after24Months clock

variable {window : ConversationKey → Nat} {sys sys' : System} {e : Event platform}

theorem Conversations.opened_of_admissionOpen {d : HailConversation} {clock : Nat}
    (h : admissionOpen d clock = true) :
    d.admissionUntil * second ≤ clock + 605100 * second := by
  simp only [admissionOpen, Bool.not_eq_true', Bool.or_eq_false_iff, decide_eq_false_iff_not,
    not_lt] at h
  have hcreated := h.1
  have huntil : d.admissionUntil ≤ d.createdAt + 604800 := by
    have hwindow := d.window_le
    omega
  have hdate : clock / 1000 * 1000 ≤ clock := Nat.div_mul_le_self clock 1000
  simp only [second]
  linarith

theorem Conversations.admissionOpen_le {d : HailConversation} {clock : Nat}
    (h : admissionOpen d clock = true) : clock / 1000 ≤ (d.admissionUntil + 300) * 1000 := by
  simp only [admissionOpen, Bool.not_eq_true', Bool.or_eq_false_iff, decide_eq_false_iff_not,
    not_lt] at h
  exact h.2

theorem Event.clock_le_time (h : sys.step limits e = some sys') (i : Nat) (hi : i ≤ lastReading) :
    e.ambient.clock i ≤ sys'.time := by
  rw [(step_membership h (default, default)).2.2]
  exact e.ambient.clock_mono hi

theorem Event.Timely.time_le_time (ht : e.Timely window sys) (h : sys.step limits e = some sys') :
    sys.time ≤ sys'.time :=
  ht.time_le.trans (Event.clock_le_time h 0 (by decide))

/-- The stored descriptors keep the window of their conversation. -/
theorem descriptor_step (ht : e.Timely window sys) (h : sys.step limits e = some sys')
    (hs : ∀ {key row}, sys.store.conversations.descriptors.find key = some row →
      row.admissionUntil = window key) {key : ConversationKey} {row : DescriptorRow}
    (hrow : sys'.store.conversations.descriptors.find key = some row) :
    row.admissionUntil = window key := by
  obtain hold | ⟨d, hpresents, rfl, huntil⟩ := (step_membership h (default, default)).2.1 hrow
  · exact hs hold
  · rw [huntil]
    exact ht.window_eq d hpresents

/-- A membership that a transaction leaves was there before, or the window is open. -/
theorem opened_step (hs : sys.Windowed window) (ht : e.Timely window sys)
    (h : sys.step limits e = some sys') {k : ParticipationKey} {m : Membership}
    (hm : sys'.store.conversations.memberships.find k = some m) :
    window k.2 * second ≤ sys'.time + 605100 * second := by
  have htime := ht.time_le_time h
  have hold : ∀ {old}, sys.store.conversations.memberships.find k = some old →
      window k.2 * second ≤ sys'.time + 605100 * second := by
    intro old hfind
    have hopened := hs.opened hfind
    omega
  have hmove := (step_membership h k).1
  generalize hnext : sys'.store.conversations.memberships.find k = next at hm hmove
  cases hmove with
  | same => exact hold hm
  | admitted d _ hpresents hkey hopen =>
    have hopened := Conversations.opened_of_admissionOpen hopen
    have hwindow := ht.window_eq d hpresents
    have hclock := Event.clock_le_time h 0 (by decide)
    rw [hwindow, hkey] at hopened
    omega
  | left old _ hfind => exact hold hfind
  | renewed old _ _ hfind => exact hold hfind
  | revived old hfind => exact hold hfind
  | pruned => cases hm

/-- A membership lasts past its window. -/
theorem expires_step (hmonths : platform.MonthsLast) (hs : sys.Windowed window)
    (ht : e.Timely window sys) (h : sys.step limits e = some sys') {k : ParticipationKey}
    {m : Membership} (hm : sys'.store.conversations.memberships.find k = some m) :
    (window k.2 + 300) * second + 1000 ≤ m.expiresAt := by
  have hrenewed : ∀ {old i}, sys.store.conversations.memberships.find k = some old →
      (window k.2 + 300) * second + 1000 ≤ platform.after24Months (e.ambient.clock i) := by
    intro old i hfind
    have hopened := hs.opened hfind
    have hmonth := hmonths (e.ambient.clock i)
    have hclock := ht.time_le.trans (e.ambient.clock_mono (Nat.zero_le i))
    simp only [second] at *
    linarith
  have hmove := (step_membership h k).1
  generalize hnext : sys'.store.conversations.memberships.find k = next at hm hmove
  cases hmove with
  | same => exact hs.expires hm
  | admitted d _ hpresents hkey hopen =>
    have hopened := Conversations.opened_of_admissionOpen hopen
    have hwindow := ht.window_eq d hpresents
    have hmonth := hmonths (e.ambient.clock 1)
    have hclock := e.ambient.clock_mono (Nat.zero_le 1)
    rw [hwindow, hkey] at hopened
    cases hm
    simp only [Conversations.newMembership]
    simp only [second] at *
    linarith
  | left old _ hfind =>
    cases hm
    have hkept := hs.expires hfind
    exact hkept
  | renewed old _ _ hfind =>
    cases hm
    exact hrenewed hfind
  | revived old hfind =>
    cases hm
    exact hrenewed hfind
  | pruned => cases hm

/-- A timely step keeps what a run keeps of the windows. -/
theorem windowed_step (hmonths : platform.MonthsLast) (hs : sys.Windowed window)
    (ht : e.Timely window sys) (h : sys.step limits e = some sys') : sys'.Windowed window where
  descriptor := descriptor_step ht h hs.descriptor
  opened := opened_step hs ht h
  expires := expires_step hmonths hs ht h

theorem windowed_initial : System.initial.Windowed window where
  descriptor h := by cases h
  opened h := by cases h
  expires h := by cases h

/-- A timely run keeps the windows. -/
theorem reaches_windowed (hmonths : platform.MonthsLast)
    (h : Reaches (fun sys (e : Event platform) => sys.step limits e)
      (fun sys e => e.Timely window sys) System.initial sys) : sys.Windowed window :=
  h.invariant windowed_initial fun _ hs ht hstep => windowed_step hmonths hs ht hstep

/-- The membership at `k` has lapsed, or was deleted after it had. -/
structure System.Lapsed (window : ConversationKey → Nat) (k : ParticipationKey) (sys : System) :
    Prop where
  closed : (window k.2 + 300) * second + 1000 ≤ sys.time
  expired : ∀ m, sys.store.conversations.memberships.find k = some m → m.expiresAt ≤ sys.time

/-- Past its window no descriptor admits. -/
theorem System.Lapsed.not_admitted {k : ParticipationKey} {d : HailConversation}
    (hs : sys.Lapsed window k) (ht : e.Timely window sys) (hpresents : e.operation.presents = some d)
    (hkey : d.key = k.2) : Conversations.admissionOpen d (e.ambient.clock 0) ≠ true := by
  intro hopen
  have hbound := Conversations.admissionOpen_le hopen
  have hclosed := hs.closed.trans ht.time_le
  rw [ht.window_eq d hpresents, hkey] at hbound
  simp only [second] at hclosed
  omega

/-- Without a revival and without a late rejoin, what has lapsed stays so. -/
theorem lapsed_step {k : ParticipationKey} (hs : sys.Lapsed window k) (ht : e.Timely window sys)
    (hcreator : e.NonCreator k) (hrejoin : ¬e.RejoinsLapsed sys.store.conversations k)
    (hrevive : ¬Revives e sys.store.conversations k) (h : sys.step limits e = some sys') :
    sys'.Lapsed window k := by
  have htime := ht.time_le_time h
  refine ⟨hs.closed.trans htime, ?_⟩
  intro m hm
  have hmove := (step_membership h k).1
  generalize hnext : sys'.store.conversations.memberships.find k = next at hm hmove
  cases hmove with
  | same => exact (hs.expired m hm).trans htime
  | admitted d _ hpresents hkey hopen => exact absurd hopen (hs.not_admitted ht hpresents hkey)
  | left old _ hfind =>
    cases hm
    exact (hs.expired old hfind).trans htime
  | renewed old owner action hfind hop howner hlock hrenews =>
    have hexpired := (hs.expired old hfind).trans ht.time_le
    cases action with
    | opened =>
      have hactive := (Conversations.stateAt_eq_active.1 hrenews).2
      omega
    | leave => exact hrenews.elim
    | rejoin => exact absurd ⟨⟨owner, hop, howner⟩, old, hfind, hrenews, hexpired⟩ hrejoin
    | revive =>
      -- The owner's lock says whose account it is.
      simp only [Ambient.lockOwner, howner] at hlock
      split at hlock
      · cases hlock
      · rename_i account haccount
        simp only [guard_eq_ok, not_or, not_not] at hlock
        have hdid := hlock.1.1
        rw [hrenews.1] at hdid
        exact absurd hdid (hcreator account haccount)
  | revived old hfind _ _ hrevives => exact absurd hrevives hrevive
  | pruned => cases hm

/-- Only a creator's revival brings back a lapsed participation of another account, as long as
the account does not leave and rejoin it after its expiry and the conversation has one window. -/
theorem expired_participation_renewed_by_creator (hmonths : platform.MonthsLast)
    (h : Reaches (fun sys (e : Event platform) => sys.step limits e)
      (fun sys e => e.Timely window sys) System.initial sys)
    {k : ParticipationKey} {m : Membership}
    (hm : sys.store.conversations.memberships.find k = some m) (hlapsed : m.expiresAt ≤ sys.time)
    (hrun : Reaches (fun sys (e : Event platform) => sys.step limits e)
      (fun sys e => e.Timely window sys ∧ e.NonCreator k ∧
        ¬e.RejoinsLapsed sys.store.conversations k ∧ ¬Revives e sys.store.conversations k)
      sys sys')
    {m' : Membership} (hm' : sys'.store.conversations.memberships.find k = some m') {clock : Nat}
    (hclock : sys'.time ≤ clock) : m'.stateAt clock ≠ .active := by
  have hstart : sys.Lapsed window k := by
    refine ⟨((reaches_windowed hmonths h).expires hm).trans hlapsed, ?_⟩
    intro old hold
    rw [hm, Option.some.injEq] at hold
    subst hold
    exact hlapsed
  have hend : sys'.Lapsed window k := by
    refine hrun.invariant hstart ?_
    rintro s t e hs ⟨ht, hcreator, hrejoin, hrevive⟩ hstep
    exact lapsed_step hs ht hcreator hrejoin hrevive hstep
  intro hactive
  have hexpires := (Conversations.stateAt_eq_active.1 hactive).2
  have hexpired := hend.expired m' hm'
  omega

end Windows

namespace Sample

/-- Bob's conversation, to which Alice is introduced over their connection. -/
def bobRoster : HailConversation :=
  { roster with
    fromDid := bob
    conversationId := "01954144-0000-7000-8000-0000000000dd"
    participants := [bob, alice, "did:plc:cccccccccccccccccccccccc"] }

def participation : ParticipationKey := (aliceAccount, bobRoster.key)

def connectionId : Uuid := "01954144-0000-7000-8000-0000000000ee"

/-- Bob's first message in the conversation, with the descriptor. -/
def introduction : HailEnvelope where
  messageId := "01954144-0000-7000-8000-000000000011"
  fromDid := bob
  toDid := alice
  authorization := .conversation bob bobRoster.conversationId digest
  category := none
  inReplyTo := none
  conversationMessageId := some "01954144-0000-7000-8000-000000000011"
  conversationIntroduction := some ⟨[10], connectionId, 1⟩
  expiresAt := 1788000000
  body := body
  reply := .denied

def introductionPlatform : Platform :=
  { platform with inspectEnvelope := fun bytes => if bytes = [11] then some introduction else none }

def introductionDecision : EnvelopeDecision introductionPlatform where
  payload := introduction
  representation := [11]
  payloadDigest := List.replicate 32 11
  envelopeDigest := List.replicate 32 11
  localAccountId := aliceAccount
  signingPublicKey := "did:key:bob"
  evidenceBytes := 100
  retainAuthority := none
  envelopeAuthority := none
  conversationDescriptor := some ⟨bobRoster, [10], "did:key:bob"⟩
  inspected := by decide +kernel

/-- The provider while Alice and Bob are connected. -/
def connected (now : Nat) (h : now * second ≤ maxInstant) : Ambient :=
  { provider now h with
    pairs := (∅ : Table Uuid PairRow).insert "pair"
      ⟨aliceAccount, 1, alice, bob, 1, .active, some connectionId⟩ }

def introduced : Event introductionPlatform :=
  ⟨connected 1787851200 sent_le, .accept introductionDecision⟩

/-- Alice's action on her membership, from the second in which it expires. -/
def lapsedAction (later : Nat) (h : (lapse + later) * second ≤ maxInstant)
    (action : MembershipAction) : Event introductionPlatform :=
  ⟨connected (lapse + later) h,
    .changeMembership ⟨aliceAccount, alice⟩ participation.2 action⟩

/-- The state after the events, from empty tables. -/
def introductionRun (events : List (Event introductionPlatform)) : Option System :=
  exec (fun sys e => System.step envelopeAdmission sys e) System.initial events

end Sample

/-- Alice leaves Bob's conversation after her membership has expired, and rejoins it. -/
theorem expired_participation_rejoined : ∃ sys sys' m m',
    Sample.introductionRun [Sample.introduced, Sample.lapsedAction 0 (by decide) .opened] =
      some sys ∧
    sys.store.conversations.memberships.find Sample.participation = some m ∧
    m.expiresAt ≤ sys.time ∧
    exec (fun sys e => System.step envelopeAdmission sys e) sys
      [Sample.lapsedAction 1 (by decide) .leave, Sample.lapsedAction 2 (by decide) .rejoin] =
      some sys' ∧
    sys'.store.conversations.memberships.find Sample.participation = some m' ∧
    m'.stateAt sys'.time = .active := by
  have hlapsed : (Sample.introductionRun
      [Sample.introduced, Sample.lapsedAction 0 (by decide) .opened]).any (fun sys =>
        (sys.store.conversations.memberships.find Sample.participation).any (fun m =>
          decide (m.expiresAt ≤ sys.time)) &&
        (exec (fun sys e => System.step envelopeAdmission sys e) sys
          [Sample.lapsedAction 1 (by decide) .leave, Sample.lapsedAction 2 (by decide) .rejoin]).any
          fun sys' => (sys'.store.conversations.memberships.find Sample.participation).any
            fun m' => decide (m'.stateAt sys'.time = .active)) = true := by decide +kernel
  simp only [Option.any_eq_true, Bool.and_eq_true, decide_eq_true_eq] at hlapsed
  obtain ⟨sys, hsys, ⟨m, hm, hexpired⟩, sys', hsys', m', hm', hactive⟩ := hlapsed
  exact ⟨sys, sys', m, m', hsys, hm, hexpired, hsys', hm', hactive⟩

namespace Sample

theorem months_last : introductionPlatform.MonthsLast := by
  intro clock
  simp only [introductionPlatform, platform, second]
  linarith

/-- The one window of every conversation here. -/
def window (_ : ConversationKey) : Nat := bobRoster.admissionUntil

theorem introduced_timely : introduced.Timely window System.initial where
  time_le := Nat.zero_le _
  window_eq d hpresents := by
    cases hpresents
    rfl

theorem lapsedAction_timely {sys : System} {later : Nat}
    {h : (lapse + later) * second ≤ maxInstant} {action : MembershipAction}
    (htime : sys.time ≤ (lapse + later) * second) :
    (lapsedAction later h action).Timely window sys where
  time_le := htime
  window_eq d hpresents := by cases hpresents

end Sample

theorem expired_participation_opened : ∃ sys sys' m',
    Sample.introductionRun [Sample.introduced, Sample.lapsedAction 0 (by decide) .opened] =
      some sys ∧
    sys.step envelopeAdmission (Sample.lapsedAction 1 (by decide) .opened) = some sys' ∧
    sys'.store.conversations.memberships.find Sample.participation = some m' ∧
    m'.stateAt sys'.time ≠ .active := by
  have hrun : ((System.initial.step envelopeAdmission Sample.introduced).bind fun sys₁ =>
      (sys₁.step envelopeAdmission (Sample.lapsedAction 0 (by decide) .opened)).bind fun sys =>
        (sys.step envelopeAdmission (Sample.lapsedAction 1 (by decide) .opened)).bind fun sys' =>
          (sys.store.conversations.memberships.find Sample.participation).bind fun m =>
            (sys'.store.conversations.memberships.find Sample.participation).bind fun _ =>
              if m.leftAt = none ∧ m.expiresAt ≤ sys.time then some () else none) = some () := by
    decide +kernel
  simp only [Option.bind_eq_some_iff, Option.ite_none_right_eq_some] at hrun
  obtain ⟨sys₁, hstep₁, sys, hstep, sys', hstep', m, hm, m', hm', ⟨hleft, hexpired⟩, _⟩ := hrun
  have htime₁ := (step_membership hstep₁ Sample.participation).2.2
  have htime := (step_membership hstep Sample.participation).2.2
  have hreached : Reaches (fun sys (e : Event Sample.introductionPlatform) =>
      sys.step envelopeAdmission e) (fun sys e => e.Timely Sample.window sys) System.initial sys :=
    .next _ (.next _ .refl Sample.introduced_timely hstep₁)
      (Sample.lapsedAction_timely (htime₁.trans_le (by decide))) hstep
  refine ⟨sys, sys', m', by simp only [Sample.introductionRun, exec, hstep₁, hstep,
    Option.bind_some], hstep', hm', ?_⟩
  refine expired_participation_renewed_by_creator Sample.months_last hreached hm hexpired
    (.next _ .refl ⟨Sample.lapsedAction_timely (htime.trans_le (by decide)), ?_, ?_, ?_⟩ hstep')
    hm' le_rfl
  · intro account haccount
    have hdid : account = ⟨some Sample.alice, true, true, false⟩ := by
      simpa [Sample.lapsedAction, Sample.connected, Sample.provider, Sample.participation] using
        haccount.symm
    rw [hdid]
    decide
  · rintro ⟨_, old, hold, hleft', _⟩
    rw [hm, Option.some.injEq] at hold
    rw [← hold, hleft] at hleft'
    cases hleft'
  · rintro ⟨owner, request, connection, _, hop, _⟩
    cases hop

section Left

variable {platform : Platform} {limits : EnvelopeAdmissionLimits}
variable {window : ConversationKey → Nat} {sys sys' : System} {e : Event platform}

/-- The membership at `k` was left, or deleted once its window had closed. -/
def System.LeftOrClosed (window : ConversationKey → Nat) (k : ParticipationKey) (sys : System) :
    Prop :=
  match sys.store.conversations.memberships.find k with
  | some m => m.leftAt.isSome
  | none => (window k.2 + 300) * second < sys.time

/-- Once its window has closed, no descriptor admits outside the closing millisecond. -/
theorem Event.ClearOfClosing.not_admitted {k : ParticipationKey} {d : HailConversation}
    (hclear : e.ClearOfClosing) (ht : e.Timely window sys)
    (hclosed : (window k.2 + 300) * second < sys.time) (hpresents : e.operation.presents = some d)
    (hkey : d.key = k.2) : Conversations.admissionOpen d (e.ambient.clock 0) ≠ true := by
  intro hopen
  have hbound := Conversations.admissionOpen_le hopen
  have hclock := hclosed.trans_le ht.time_le
  have hoff := hclear d hpresents
  rw [ht.window_eq d hpresents, hkey] at hbound hoff
  omega

/-- Without the owner's rejoin, what was left is not brought back. -/
theorem leftOrClosed_step {k : ParticipationKey} (hs : sys.LeftOrClosed window k)
    (hdescriptor : ∀ {key row}, sys.store.conversations.descriptors.find key = some row →
      row.admissionUntil = window key)
    (ht : e.Timely window sys) (hclear : e.ClearOfClosing) (hrejoin : ¬e.Rejoins k)
    (h : sys.step limits e = some sys') : sys'.LeftOrClosed window k := by
  have htime := ht.time_le_time h
  have hmove := (step_membership h k).1
  unfold System.LeftOrClosed at hs ⊢
  generalize hnext : sys'.store.conversations.memberships.find k = next at hmove
  cases hmove with
  | same =>
    split at hs
    · exact hs
    · exact hs.trans_le htime
  | admitted d hfind hpresents hkey hopen =>
    rw [hfind] at hs
    exact absurd hopen (hclear.not_admitted ht hs hpresents hkey)
  | left => rfl
  | renewed old owner action hfind hop howner _ hrenews =>
    simp only [hfind] at hs
    cases action with
    | opened =>
      have hnone := (Conversations.stateAt_eq_active.1 hrenews).1
      rw [hnone] at hs
      cases hs
    | leave => exact hrenews.elim
    | rejoin => exact absurd ⟨owner, hop, howner⟩ hrejoin
    | revive =>
      have hnone := (Conversations.stateAt_eq_expired.1 hrenews.2).1
      rw [hnone] at hs
      cases hs
  | revived old hfind hnone =>
    simp only [hfind, hnone, Option.isSome_none, Bool.false_eq_true] at hs
  | pruned old d _ hd hclosed =>
    simp only [Conversations.windowClosed, decide_eq_true_eq] at hclosed
    rw [hdescriptor hd] at hclosed
    exact hclosed.trans_le (Event.clock_le_time h 1 (by decide))

/-- A deleted membership stays deleted. -/
theorem gone_step {k : ParticipationKey}
    (hs : sys.store.conversations.memberships.find k = none ∧
      (window k.2 + 300) * second < sys.time)
    (ht : e.Timely window sys) (hclear : e.ClearOfClosing) (h : sys.step limits e = some sys') :
    sys'.store.conversations.memberships.find k = none ∧
      (window k.2 + 300) * second < sys'.time := by
  refine ⟨?_, hs.2.trans_le (ht.time_le_time h)⟩
  have hmove := (step_membership h k).1
  generalize hnext : sys'.store.conversations.memberships.find k = next at hmove
  cases hmove with
  | same => exact hs.1
  | admitted d hfind hpresents hkey hopen =>
    exact absurd hopen (hclear.not_admitted ht hs.2 hpresents hkey)
  | left old _ hfind => exact absurd (hfind.symm.trans hs.1) (by simp)
  | renewed old _ _ hfind => exact absurd (hfind.symm.trans hs.1) (by simp)
  | revived old hfind => exact absurd (hfind.symm.trans hs.1) (by simp)
  | pruned => rfl

/-- A run that keeps its windows keeps the windows of its stored descriptors. -/
theorem reaches_descriptor {allowed : System → Event platform → Prop}
    (hallowed : ∀ {sys e}, allowed sys e → e.Timely window sys)
    (h : Reaches (fun sys (e : Event platform) => sys.step limits e) allowed System.initial sys)
    {key : ConversationKey} {row : DescriptorRow}
    (hrow : sys.store.conversations.descriptors.find key = some row) :
    row.admissionUntil = window key := by
  have hall : ∀ key row, sys.store.conversations.descriptors.find key = some row →
      row.admissionUntil = window key := by
    refine h.invariant (I := fun sys => ∀ key row,
      sys.store.conversations.descriptors.find key = some row → row.admissionUntil = window key)
      ?_ ?_
    · intro key row hfind
      cases hfind
    · intro s t e hs ht hstep key row hfind
      exact descriptor_step (hallowed ht) hstep (fun {key row} => hs key row) hfind
  exact hall key row hrow

/-- A run of timely steps outside closing milliseconds. -/
def System.ClearRun (platform : Platform) (limits : EnvelopeAdmissionLimits)
    (window : ConversationKey → Nat) : System → System → Prop :=
  Reaches (fun sys (e : Event platform) => sys.step limits e)
    (fun sys e => e.Timely window sys ∧ e.ClearOfClosing)

/-- A left membership is not active before the owner's rejoin. -/
theorem left_until_rejoin {k : ParticipationKey} {m : Membership}
    (hdescriptor : ∀ key row, sys.store.conversations.descriptors.find key = some row →
      row.admissionUntil = window key)
    (hm : sys.store.conversations.memberships.find k = some m) (hleft : m.leftAt.isSome)
    (hrun : Reaches (fun sys (e : Event platform) => sys.step limits e)
      (fun sys e => e.Timely window sys ∧ e.ClearOfClosing ∧ ¬e.Rejoins k) sys sys')
    {m' : Membership} (hm' : sys'.store.conversations.memberships.find k = some m')
    (clock : Nat) : m'.stateAt clock ≠ .active := by
  intro hactive
  have hend : sys'.LeftOrClosed window k ∧ ∀ key row,
      sys'.store.conversations.descriptors.find key = some row →
      row.admissionUntil = window key := by
    refine hrun.invariant (I := fun sys => sys.LeftOrClosed window k ∧ ∀ key row,
      sys.store.conversations.descriptors.find key = some row →
      row.admissionUntil = window key) ⟨?_, hdescriptor⟩ ?_
    · simp only [System.LeftOrClosed, hm]
      exact hleft
    · rintro s t e ⟨hs, hd⟩ ⟨ht, hclear, hrejoin⟩ hstep
      exact ⟨leftOrClosed_step hs (fun {key row} => hd key row) ht hclear hrejoin hstep,
        fun key row => descriptor_step ht hstep (fun {key row} => hd key row)⟩
  have hstays := hend.1
  simp only [System.LeftOrClosed, hm', (Conversations.stateAt_eq_active.1 hactive).1,
    Option.isSome_none, Bool.false_eq_true] at hstays

/-- A membership is deleted after its window has closed. -/
theorem deleted_closed {k : ParticipationKey}
    (hdescriptor : ∀ key row, sys.store.conversations.descriptors.find key = some row →
      row.admissionUntil = window key)
    (h : sys.step limits e = some sys')
    (hsome : (sys.store.conversations.memberships.find k).isSome)
    (hnone : sys'.store.conversations.memberships.find k = none) :
    (window k.2 + 300) * second < sys'.time := by
  have hmove := (step_membership h k).1
  generalize hnext : sys'.store.conversations.memberships.find k = next at hnone hmove
  cases hmove with
  | same =>
    rw [hnone] at hsome
    cases hsome
  | pruned old d _ hd hclosed =>
    simp only [Conversations.windowClosed, decide_eq_true_eq] at hclosed
    rw [hdescriptor _ _ hd] at hclosed
    exact hclosed.trans_le (Event.clock_le_time h 1 (by decide))
  | admitted => cases hnone
  | left => cases hnone
  | renewed => cases hnone
  | revived => cases hnone

/-- The expiry moves only by the owner's action or by a revival that renews. -/
theorem expiry_kept {k : ParticipationKey} {m m' : Membership}
    (h : sys.step limits e = some sys')
    (hchange : ∀ owner identity action, e.operation ≠ .changeMembership owner identity action)
    (hrevive : ¬Revives e sys.store.conversations k)
    (hm : sys.store.conversations.memberships.find k = some m)
    (hm' : sys'.store.conversations.memberships.find k = some m') :
    m'.expiresAt = m.expiresAt := by
  have hmove := (step_membership h k).1
  generalize hnext : sys'.store.conversations.memberships.find k = next at hm' hmove
  cases hmove with
  | same =>
    rw [hm, Option.some.injEq] at hm'
    rw [hm']
  | admitted _ hfind => exact absurd (hfind.symm.trans hm) (by simp)
  | left old _ hfind =>
    cases hm'
    rw [hm, Option.some.injEq] at hfind
    rw [hfind]
  | renewed _ owner action _ hop => exact absurd hop (hchange owner k.2 action)
  | revived _ _ _ _ hrevives => exact absurd hrevives hrevive
  | pruned => cases hm'

/-- What a run keeps of a left membership, of a deleted one and of every expiry, as long as the
conversation has one window and no window is read in the millisecond after it closes. -/
theorem left_participation_stays_left
    (h : System.ClearRun platform limits window System.initial sys) (k : ParticipationKey) :
    (∀ m, sys.store.conversations.memberships.find k = some m → m.leftAt.isSome →
      ∀ sys', Reaches (fun sys (e : Event platform) => sys.step limits e)
        (fun sys e => e.Timely window sys ∧ e.ClearOfClosing ∧ ¬e.Rejoins k) sys sys' →
      ∀ m', sys'.store.conversations.memberships.find k = some m' →
      ∀ clock, m'.stateAt clock ≠ .active) ∧
    (∀ (e : Event platform) sys₁, sys.step limits e = some sys₁ →
      (sys.store.conversations.memberships.find k).isSome →
      sys₁.store.conversations.memberships.find k = none →
      ∀ sys', System.ClearRun platform limits window sys₁ sys' →
      sys'.store.conversations.memberships.find k = none) ∧
    (∀ (e : Event platform) sys₁, sys.step limits e = some sys₁ →
      (∀ owner identity action, e.operation ≠ .changeMembership owner identity action) →
      ¬Revives e sys.store.conversations k →
      ∀ m m', sys.store.conversations.memberships.find k = some m →
      sys₁.store.conversations.memberships.find k = some m' → m'.expiresAt = m.expiresAt) := by
  have hdescriptor : ∀ key row, sys.store.conversations.descriptors.find key = some row →
      row.admissionUntil = window key := fun key row => reaches_descriptor And.left h
  refine ⟨?_, ?_, ?_⟩
  · intro m hm hleft sys' hrun m' hm' clock
    exact left_until_rejoin hdescriptor hm hleft hrun hm' clock
  · intro e sys₁ hstep hsome hnone sys' hrun
    have hclosed := deleted_closed hdescriptor hstep hsome hnone
    have hend := hrun.invariant (I := fun sys =>
      sys.store.conversations.memberships.find k = none ∧
        (window k.2 + 300) * second < sys.time) ⟨hnone, hclosed⟩
      fun _ hs ht hstep => gone_step hs ht.1 ht.2 hstep
    exact hend.1
  · intro e sys₁ hstep hchange hrevive m m' hm hm'
    exact expiry_kept hstep hchange hrevive hm hm'

end Left

namespace Sample

/-- The provider at a microsecond. -/
def instant (clock : Nat) (h : clock ≤ maxInstant) : Ambient :=
  { provider 0 (by decide) with
    start := clock
    clock := fun _ => clock
    start_le := le_rfl
    clock_mono := fun _ _ _ => le_rfl
    clock_le := fun _ => h }

/-- Alice presents the descriptor of her conversation. -/
def presented (clock : Nat) (h : clock ≤ maxInstant) : Event platform :=
  ⟨instant clock h, .createConversation aliceAccount ⟨roster, [8], "did:key:alice"⟩⟩

def ownLeave (clock : Nat) (h : clock ≤ maxInstant) : Event platform :=
  ⟨instant clock h, .changeMembership ⟨aliceAccount, alice⟩ roster.key .leave⟩

def ownPrune (clock : Nat) (h : clock ≤ maxInstant) : Event platform :=
  ⟨instant clock h, .pruneOwner ⟨aliceAccount, alice⟩ []⟩

/-- The second in which the window of Alice's conversation closes. -/
def closing : Nat := roster.admissionUntil + 300

/-- Alice starts the conversation, and leaves it. -/
def leftRun : Option System :=
  run [presented (1787851200 * second) sent_le, ownLeave (1787851201 * second) accepted_le]

def prunedAtClosing : Event platform := ownPrune (closing * second + 100) (by decide)

def presentedAtClosing : Event platform := presented (closing * second + 200) (by decide)

def presentedAgain : Event platform := presented (1787851202 * second) claimed_le

end Sample

/-- In the millisecond after the window closes, a left membership is deleted, and the original
descriptor admits its owner again. -/
theorem left_participation_recreated : ∃ sys m m',
    Sample.leftRun = some sys ∧
    sys.store.conversations.memberships.find (Sample.aliceAccount, Sample.roster.key) = some m ∧
    m.leftAt.isSome ∧
    ∃ sys₁ sys₂,
      sys.step envelopeAdmission Sample.prunedAtClosing = some sys₁ ∧
      sys₁.store.conversations.memberships.find (Sample.aliceAccount, Sample.roster.key) = none ∧
      sys₁.step envelopeAdmission Sample.presentedAtClosing = some sys₂ ∧
      sys₂.store.conversations.memberships.find (Sample.aliceAccount, Sample.roster.key) =
        some m' ∧
      m'.stateAt sys₂.time = .active := by
  have hrun : (Sample.leftRun.any fun sys =>
    (sys.store.conversations.memberships.find (Sample.aliceAccount, Sample.roster.key)).any
      (fun m => m.leftAt.isSome) &&
    (sys.step envelopeAdmission Sample.prunedAtClosing).any fun sys₁ =>
      (sys₁.store.conversations.memberships.find
        (Sample.aliceAccount, Sample.roster.key)).isNone &&
      (sys₁.step envelopeAdmission Sample.presentedAtClosing).any fun sys₂ =>
        (sys₂.store.conversations.memberships.find
          (Sample.aliceAccount, Sample.roster.key)).any fun m' =>
            decide (m'.stateAt sys₂.time = .active)) = true := by decide +kernel
  simp only [Option.any_eq_true, Bool.and_eq_true, decide_eq_true_eq,
    Option.isNone_iff_eq_none] at hrun
  obtain ⟨sys, hsys, ⟨m, hm, hleft⟩, sys₁, hstep₁, hnone, sys₂, hstep₂, m', hm', hactive⟩ := hrun
  exact ⟨sys, m, m', hsys, hm, hleft, sys₁, sys₂, hstep₁, hnone, hstep₂, hm', hactive⟩

theorem left_participation_presented : ∃ sys sys' m',
    Sample.leftRun = some sys ∧
    sys.step envelopeAdmission Sample.presentedAgain = some sys' ∧
    sys'.store.conversations.memberships.find (Sample.aliceAccount, Sample.roster.key) = some m' ∧
    ∀ clock, m'.stateAt clock ≠ .active := by
  have hrun : ((System.initial.step envelopeAdmission
      (Sample.presented (1787851200 * second) (by decide))).bind fun sys₁ =>
      (sys₁.step envelopeAdmission
        (Sample.ownLeave (1787851201 * second) (by decide))).bind fun sys =>
        (sys.step envelopeAdmission Sample.presentedAgain).bind fun sys' =>
          (sys.store.conversations.memberships.find
            (Sample.aliceAccount, Sample.roster.key)).bind fun m =>
            (sys'.store.conversations.memberships.find
              (Sample.aliceAccount, Sample.roster.key)).bind fun _ =>
                if m.leftAt.isSome then some () else none) = some () := by decide +kernel
  simp only [Option.bind_eq_some_iff, Option.ite_none_right_eq_some] at hrun
  obtain ⟨sys₁, hstep₁, sys, hstep, sys', hstep', m, hm, m', hm', hleft, _⟩ := hrun
  have htime₁ := (step_membership hstep₁ (Sample.aliceAccount, Sample.roster.key)).2.2
  have htime := (step_membership hstep (Sample.aliceAccount, Sample.roster.key)).2.2
  have hpresented : ∀ {s : System} {clock : Nat} {h : clock ≤ maxInstant}, s.time ≤ clock →
      clock ≤ Sample.closing * second →
      (Sample.presented clock h).Timely (fun _ => Sample.roster.admissionUntil) s ∧
        (Sample.presented clock h).ClearOfClosing := by
    intro s clock h hs hclock
    refine ⟨⟨hs, ?_⟩, ?_⟩
    · intro d hd
      cases hd
      rfl
    · intro d hd
      cases hd
      exact .inl hclock
  have hreached : System.ClearRun Sample.platform envelopeAdmission
      (fun _ => Sample.roster.admissionUntil) System.initial sys := by
    refine .next _ (.next _ .refl (hpresented (Nat.zero_le _) (by decide)) hstep₁) ⟨⟨?_, ?_⟩, ?_⟩
      hstep
    · exact htime₁.trans_le (by decide)
    · intro d hd
      cases hd
    · intro d hd
      cases hd
  refine ⟨sys, sys', m', by simp only [Sample.leftRun, Sample.run, exec, hstep₁, hstep,
    Option.bind_some],
    hstep', hm', ?_⟩
  have hlater : sys.time ≤ 1787851202 * second := by
    rw [htime]
    decide
  have hagain := hpresented (h := by decide) hlater (by decide)
  refine (left_participation_stays_left hreached (Sample.aliceAccount, Sample.roster.key)).1 m hm
    hleft sys' (.next _ .refl ⟨hagain.1, hagain.2, ?_⟩ hstep') m' hm'
  rintro ⟨owner, hop, _⟩
  cases hop

end HailProto.Messages
