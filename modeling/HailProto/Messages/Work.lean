import HailProto.Messages.Life

/-!
# The states of delivery work

The work of an accepted message starts in the state `accepted` at revision 1, is held any
number of times, and ends once. Each transition is made by the holder of the row's current lease
token and raises the revision by one. The delivered message and the queued final status exist
exactly when the state says so.
-/

namespace HailProto.Messages

open Server

/-- What the tables say about each other in every reachable state. -/
structure Life.Sound (platform : Platform) (issued : List DeliveryClaim) (l : Life) : Prop where
  /-- Work belongs to an accepted message, whose row is the signed envelope of its key. -/
  accepted : ∀ {key work}, l.work.find key = some work → ∃ row envelope,
    l.received.find key = some row ∧ row.outcome = .accepted ∧
    platform.inspectEnvelope row.envelopeCose = some envelope ∧ envelope.key = key
  worked : ∀ {key row}, l.received.find key = some row → row.outcome = .accepted →
    ∃ work, l.work.find key = some work
  revision : ∀ {key work}, l.work.find key = some work →
    0 < work.statusRevision ∧ (work.statusRevision = 1 ↔ work.state = .accepted)
  delivered : ∀ key, (l.delivered.find key).isSome ↔
    ∃ work, l.work.find key = some work ∧ work.state = .finished .delivered
  published : ∀ key, (l.publications.find key).isSome ↔
    ∃ work, l.work.find key = some work ∧ work.state.isTerminal = true
  held : ∀ claim ∈ issued, l.Held platform claim
  /-- A lease belongs to the last claim handed out for its message. -/
  leased : ∀ {key work lease}, l.work.find key = some work → work.lease = some lease →
    ∃ claim, issued.find? (·.key = key) = some claim ∧ claim.leaseToken = lease.token
  tokens : (issued.map DeliveryClaim.leaseToken).Nodup

namespace Life

variable {platform : Platform} {issued : List DeliveryClaim} {l l' : Life}
variable {handed : Option DeliveryClaim}

theorem Sound.initial : Sound platform [] ⟨∅, ∅, ∅, ∅, ∅⟩ where
  accepted h := by cases h
  worked h := by cases h
  revision h := by cases h
  delivered key := by simp
  published key := by simp
  held claim h := by cases h
  leased h := by cases h
  tokens := List.nodup_nil

/-- A received row stays as it is. -/
theorem Move.received (h : Move platform issued l handed l') {key : MessageKey}
    {row : ReceivedEnvelope} (hrow : l.received.find key = some row) :
    l'.received.find key = some row := by
  cases h <;> grind

/-- So a claim stays the claim of an accepted envelope. -/
theorem Held.move {claim : DeliveryClaim} (h : l.Held platform claim)
    (hmove : Move platform issued l handed l') : l'.Held platform claim := by
  obtain ⟨row, hrow, hinspect, hkey⟩ := h
  exact ⟨row, hmove.received hrow, hinspect, hkey⟩

/-- What a move makes of one row of work: nothing, its start, a new lease, or a transition of
the row that the claim locked. -/
theorem Move.work_cases (h : Move platform issued l handed l') (key : MessageKey) :
    l'.work.find key = l.work.find key ∨
    (l.work.find key = none ∧ ∃ input : EnvelopeDecision platform, ∃ now start,
      input.payload.key = key ∧
      l'.received.find key = some (input.row .accepted now) ∧
      l'.work.find key = some (newWork start)) ∨
    (∃ claim work expiresAt, handed = some claim ∧ claim.key = key ∧
      l.work.find key = some work ∧ work.state.isTerminal = false ∧
      l'.work.find key = some
        { work with
          lease := some ⟨claim.leaseToken, expiresAt⟩
          attemptCount := work.attemptCount + 1 }) ∨
    (∃ claim work state next transitionedAt, claim ∈ issued ∧ claim.key = key ∧
      l.Locked claim work ∧ state ≠ .accepted ∧
      l'.work.find key = some (work.transition state next transitionedAt)) := by
  cases h with
  | idle => exact .inl rfl
  | reject => exact .inl rfl
  | accept input now start hrow hwork hreply =>
    by_cases hk : key = input.payload.key
    · subst hk
      exact .inr (.inl ⟨hwork, input, now, start, rfl, by simp, by simp⟩)
    · exact .inl (Table.find_insert_of_ne _ _ hk)
  | admitReply input now start updatedAt original capability hrow hwork =>
    by_cases hk : key = input.payload.key
    · subst hk
      exact .inr (.inl ⟨hwork, input, now, start, rfl, by simp, by simp⟩)
    · exact .inl (Table.find_insert_of_ne _ _ hk)
  | lease claim work expiresAt hwork hstate =>
    by_cases hk : key = claim.key
    · subst hk
      exact .inr (.inr (.inl ⟨claim, work, expiresAt, rfl, rfl, hwork, hstate, by simp⟩))
    · exact .inl (Table.find_insert_of_ne _ _ hk)
  | hold claim work reason next transitionedAt hissued hlocked =>
    by_cases hk : key = claim.key
    · subst hk
      exact .inr (.inr (.inr ⟨claim, work, .onHold reason, next, transitionedAt, hissued, rfl,
        hlocked, by simp, by simp⟩))
    · exact .inl (Table.find_insert_of_ne _ _ hk)
  | finish claim work state settled transitionedAt start hissued hlocked =>
    by_cases hk : key = claim.key
    · subst hk
      exact .inr (.inr (.inr ⟨claim, work, .finished state, work.nextAttemptAt,
        transitionedAt, hissued, rfl, hlocked, by simp, by simp⟩))
    · exact .inl (Table.find_insert_of_ne _ _ hk)
  | deliver claim work message settled transitionedAt start hissued hlocked =>
    by_cases hk : key = claim.key
    · subst hk
      exact .inr (.inr (.inr ⟨claim, work, .finished .delivered, work.nextAttemptAt,
        transitionedAt, hissued, rfl, hlocked, by simp, by simp⟩))
    · exact .inl (Table.find_insert_of_ne _ _ hk)
  | issue => exact .inl rfl

theorem Sound.move_accepted (hs : Sound platform issued l)
    (h : Move platform issued l handed l') {key : MessageKey} {work : DeliveryWork}
    (hwork : l'.work.find key = some work) : ∃ row envelope,
    l'.received.find key = some row ∧ row.outcome = .accepted ∧
    platform.inspectEnvelope row.envelopeCose = some envelope ∧ envelope.key = key := by
  obtain hsame | ⟨_, input, now, start, hkey, hrow, _⟩ | ⟨_, old, _, _, _, hold, _, _⟩ |
    ⟨claim, old, _, _, _, _, hkey, hlocked, _, _⟩ := h.work_cases key
  · rw [hsame] at hwork
    obtain ⟨row, envelope, hrow, hrest⟩ := hs.accepted hwork
    exact ⟨row, envelope, h.received hrow, hrest⟩
  · exact ⟨_, input.payload, hrow, rfl, input.inspected, hkey⟩
  · obtain ⟨row, envelope, hrow, hrest⟩ := hs.accepted hold
    exact ⟨row, envelope, h.received hrow, hrest⟩
  · subst hkey
    obtain ⟨row, envelope, hrow, hrest⟩ := hs.accepted hlocked.1
    exact ⟨row, envelope, h.received hrow, hrest⟩

theorem Sound.move_worked (hs : Sound platform issued l)
    (h : Move platform issued l handed l') {key : MessageKey} {row : ReceivedEnvelope}
    (hrow : l'.received.find key = some row) (houtcome : row.outcome = .accepted) :
    ∃ work, l'.work.find key = some work := by
  have hkept : (∃ work, l.work.find key = some work) → ∃ work, l'.work.find key = some work := by
    rintro ⟨work, hwork⟩
    obtain hsame | ⟨_, _, _, _, _, _, hnew⟩ | ⟨_, _, _, _, _, _, _, hnew⟩ |
      ⟨_, _, _, _, _, _, _, _, _, hnew⟩ := h.work_cases key
    · exact ⟨work, hsame.trans hwork⟩
    · exact ⟨_, hnew⟩
    · exact ⟨_, hnew⟩
    · exact ⟨_, hnew⟩
  have hold : l.received.find key = some row → ∃ work, l'.work.find key = some work :=
    fun hrow => hkept (hs.worked hrow houtcome)
  cases h with
  | reject input outcome now _ hne =>
    simp only [Table.find_insert] at hrow
    split at hrow
    · cases hrow
      exact absurd houtcome hne
    · exact hold hrow
  | accept input now start =>
    simp only [Table.find_insert] at hrow ⊢
    split at hrow
    · exact ⟨_, by simp only [*, ite_true]; rfl⟩
    · simpa only [Table.find_insert] using hold hrow
  | admitReply input now start =>
    simp only [Table.find_insert] at hrow ⊢
    split at hrow
    · exact ⟨_, by simp only [*, ite_true]; rfl⟩
    · simpa only [Table.find_insert] using hold hrow
  | _ => exact hold hrow

theorem Sound.move_revision (hs : Sound platform issued l)
    (h : Move platform issued l handed l') {key : MessageKey} {work : DeliveryWork}
    (hwork : l'.work.find key = some work) :
    0 < work.statusRevision ∧ (work.statusRevision = 1 ↔ work.state = .accepted) := by
  obtain hsame | ⟨_, _, _, _, _, _, hnew⟩ | ⟨_, old, _, _, _, hold, _, hnew⟩ |
    ⟨claim, old, state, _, _, _, hkey, hlocked, hstate, hnew⟩ := h.work_cases key
  · rw [hsame] at hwork
    exact hs.revision hwork
  · rw [hnew, Option.some.injEq] at hwork
    subst hwork
    simp [newWork]
  · rw [hnew, Option.some.injEq] at hwork
    subst hwork
    have hrevision := hs.revision hold
    exact hrevision
  · rw [hnew, Option.some.injEq] at hwork
    subst hwork hkey
    have hpos := (hs.revision hlocked.1).1
    refine ⟨Nat.succ_pos _, ?_⟩
    simp only [DeliveryWork.transition, hstate, iff_false]
    omega

theorem Sound.move_delivered (hs : Sound platform issued l)
    (h : Move platform issued l handed l') (key : MessageKey) :
    (l'.delivered.find key).isSome ↔
      ∃ work, l'.work.find key = some work ∧ work.state = .finished .delivered := by
  have hold := hs.delivered key
  cases h with
  | idle => exact hold
  | reject => exact hold
  | issue => exact hold
  | accept input now start hrow hwork =>
    simp only [Table.find_insert]
    split
    · subst key
      simpa [newWork, hwork] using hold
    · exact hold
  | admitReply input now start updatedAt original capability hrow hwork =>
    simp only [Table.find_insert]
    split
    · subst key
      simpa [newWork, hwork] using hold
    · exact hold
  | lease claim work expiresAt hwork hstate =>
    simp only [Table.find_insert]
    split
    · subst key
      simpa [hwork] using hold
    · exact hold
  | hold claim work reason next transitionedAt hissued hlocked =>
    simp only [Table.find_insert]
    split
    · subst key
      have hstate : work.state ≠ .finished .delivered := by
        intro he
        simpa [he, DeliveryState.isTerminal] using hlocked.2.2
      simpa [hlocked.1, DeliveryWork.transition, hstate] using hold
    · exact hold
  | finish claim work state settled transitionedAt start hissued hlocked hne =>
    simp only [Table.find_insert]
    split
    · subst key
      have hstate : work.state ≠ .finished .delivered := by
        intro he
        simpa [he, DeliveryState.isTerminal] using hlocked.2.2
      simpa [hlocked.1, DeliveryWork.transition, hstate, hne] using hold
    · exact hold
  | deliver claim work message settled transitionedAt start hissued hlocked =>
    simp only [Table.find_insert]
    split
    · simp [DeliveryWork.transition]
    · exact hold

theorem Sound.move_published (hs : Sound platform issued l)
    (h : Move platform issued l handed l') (key : MessageKey) :
    (l'.publications.find key).isSome ↔
      ∃ work, l'.work.find key = some work ∧ work.state.isTerminal = true := by
  have hold := hs.published key
  cases h with
  | idle => exact hold
  | reject => exact hold
  | issue => exact hold
  | accept input now start hrow hwork =>
    simp only [Table.find_insert]
    split
    · subst key
      simpa [newWork, hwork, DeliveryState.isTerminal] using hold
    · exact hold
  | admitReply input now start updatedAt original capability hrow hwork =>
    simp only [Table.find_insert]
    split
    · subst key
      simpa [newWork, hwork, DeliveryState.isTerminal] using hold
    · exact hold
  | lease claim work expiresAt hwork hstate =>
    simp only [Table.find_insert]
    split
    · subst key
      simpa [hwork] using hold
    · exact hold
  | hold claim work reason next transitionedAt hissued hlocked =>
    simp only [Table.find_insert]
    split
    · subst key
      have hheld : (DeliveryState.onHold reason).isTerminal = false := rfl
      simpa [hlocked.1, hlocked.2.2, DeliveryWork.transition, hheld] using hold
    · exact hold
  | finish claim work state settled transitionedAt start hissued hlocked hne =>
    simp only [Table.find_insert]
    split
    · simp [DeliveryWork.transition, DeliveryState.isTerminal]
    · exact hold
  | deliver claim work message settled transitionedAt start hissued hlocked =>
    simp only [Table.find_insert]
    split
    · simp [DeliveryWork.transition, DeliveryState.isTerminal]
    · exact hold

theorem Sound.move_leased (hs : Sound platform issued l)
    (h : Move platform issued l handed l') {key : MessageKey} {work : DeliveryWork}
    {lease : Lease} (hwork : l'.work.find key = some work) (hlease : work.lease = some lease) :
    ∃ claim, (handed.toList ++ issued).find? (·.key = key) = some claim ∧
      claim.leaseToken = lease.token := by
  have hearlier : ∀ {old : DeliveryWork}, l.work.find key = some old → old.lease = some lease →
      (∀ claim, handed = some claim → claim.key ≠ key) →
      ∃ claim, (handed.toList ++ issued).find? (·.key = key) = some claim ∧
        claim.leaseToken = lease.token := by
    intro old hold holdLease hother
    obtain ⟨claim, hfind, htoken⟩ := hs.leased hold holdLease
    refine ⟨claim, ?_, htoken⟩
    cases handed with
    | none => exact hfind
    | some other =>
      rw [Option.toList_some, List.singleton_append, List.find?_cons_of_neg]
      · exact hfind
      · simpa using hother other rfl
  cases h with
  | lease claim old expiresAt hold hstate =>
    simp only [Table.find_insert] at hwork
    split at hwork
    · rename_i hk
      cases hwork
      cases hlease
      refine ⟨claim, ?_, rfl⟩
      rw [Option.toList_some, List.singleton_append, List.find?_cons_of_pos]
      simpa using hk.symm
    · rename_i hk
      exact hearlier hwork hlease (fun other heq => by cases heq; exact Ne.symm hk)
  | idle => exact hearlier hwork hlease (by simp)
  | reject => exact hearlier hwork hlease (by simp)
  | issue => exact hearlier hwork hlease (by simp)
  | accept input now start =>
    simp only [Table.find_insert] at hwork
    split at hwork
    · cases hwork
      cases hlease
    · exact hearlier hwork hlease (by simp)
  | admitReply input now start =>
    simp only [Table.find_insert] at hwork
    split at hwork
    · cases hwork
      cases hlease
    · exact hearlier hwork hlease (by simp)
  | hold claim old reason next transitionedAt =>
    simp only [Table.find_insert] at hwork
    split at hwork
    · cases hwork
      cases hlease
    · exact hearlier hwork hlease (by simp)
  | finish claim old state settled transitionedAt start =>
    simp only [Table.find_insert] at hwork
    split at hwork
    · cases hwork
      cases hlease
    · exact hearlier hwork hlease (by simp)
  | deliver claim old message settled transitionedAt start =>
    simp only [Table.find_insert] at hwork
    split at hwork
    · cases hwork
      cases hlease
    · exact hearlier hwork hlease (by simp)

/-- Every move keeps the tables sound. -/
theorem Sound.move (hs : Sound platform issued l) (h : Move platform issued l handed l') :
    Sound platform (handed.toList ++ issued) l' where
  accepted := hs.move_accepted h
  worked := hs.move_worked h
  revision := hs.move_revision h
  delivered := hs.move_delivered h
  published := hs.move_published h
  held := by
    intro claim hclaim
    rw [List.mem_append, Option.mem_toList] at hclaim
    obtain hnew | hold := hclaim
    · have hmove := h
      cases h with
      | lease other work expiresAt _ _ hheld =>
        cases hnew
        exact Held.move hheld hmove
      | _ => cases hnew
    · exact (hs.held claim hold).move h
  leased := hs.move_leased h
  tokens := by
    cases h with
    | lease claim work expiresAt _ _ _ hfresh =>
      rw [Option.toList_some, List.singleton_append, List.map_cons, List.nodup_cons]
      refine ⟨?_, hs.tokens⟩
      rw [List.mem_map]
      rintro ⟨other, hmem, heq⟩
      exact hfresh other hmem heq
    | _ => exact hs.tokens

end Life

section Runs

variable {platform : Platform} {limits : EnvelopeAdmissionLimits} {sys sys' : System}

/-- A step of the run is a move of the tables, or leaves them alone. -/
theorem step_move {e : Event platform} (hs : sys.store.life.Sound platform sys.issued)
    (h : sys.step limits e = some sys') :
    ∃ handed, sys'.issued = handed.toList ++ sys.issued ∧
      Life.Move platform sys.issued sys.store.life handed sys'.store.life := by
  unfold System.step at h
  split at h
  · rename_i henabled
    cases hperform : perform limits sys.store e with
    | ok result =>
      obtain ⟨handed, store⟩ := result
      simp only [hperform, Option.some.injEq] at h
      subst h
      exact ⟨handed, rfl, perform_move henabled hs.held hperform⟩
    | error fault =>
      simp only [hperform, Option.some.injEq] at h
      subst h
      exact ⟨none, rfl, .idle⟩
  · cases h

theorem step_sound {e : Event platform} (hs : sys.store.life.Sound platform sys.issued)
    (h : sys.step limits e = some sys') : sys'.store.life.Sound platform sys'.issued := by
  obtain ⟨handed, hissued, hmove⟩ := step_move hs h
  rw [hissued]
  exact hs.move hmove

/-- The tables are sound in every reachable state. -/
theorem reachable_sound
    (h : System.Reached platform limits sys) :
    sys.store.life.Sound platform sys.issued :=
  h.invariant (I := fun sys => sys.store.life.Sound platform sys.issued) Life.Sound.initial
    fun _ hs _ hstep => step_sound hs hstep

/-- A move leaves a row's state and revision, or raises the revision of a row that is not
finished by one. -/
theorem Life.Move.progress {issued : List DeliveryClaim} {l l' : Life}
    {handed : Option DeliveryClaim} (h : Life.Move platform issued l handed l') {key : MessageKey}
    {work : DeliveryWork} (hwork : l.work.find key = some work) :
    ∃ next, l'.work.find key = some next ∧
      (next.state = work.state ∧ next.statusRevision = work.statusRevision ∨
        work.state.isTerminal = false ∧ next.statusRevision = work.statusRevision + 1) := by
  obtain hsame | ⟨hnone, _⟩ | ⟨_, old, _, _, _, hold, _, hnew⟩ |
    ⟨claim, old, _, _, _, _, hkey, hlocked, _, hnew⟩ := h.work_cases key
  · exact ⟨work, hsame.trans hwork, .inl ⟨rfl, rfl⟩⟩
  · rw [hnone] at hwork
    cases hwork
  · rw [hold, Option.some.injEq] at hwork
    subst hwork
    exact ⟨_, hnew, .inl ⟨rfl, rfl⟩⟩
  · subst hkey
    rw [hlocked.1, Option.some.injEq] at hwork
    subst hwork
    exact ⟨_, hnew, .inr ⟨hlocked.2.2, rfl⟩⟩

/-- A finished row does not change. -/
theorem Life.Move.terminal {issued : List DeliveryClaim} {l l' : Life}
    {handed : Option DeliveryClaim} (h : Life.Move platform issued l handed l') {key : MessageKey}
    {work : DeliveryWork} (hwork : l.work.find key = some work)
    (hterminal : work.state.isTerminal = true) : l'.work.find key = some work := by
  obtain hsame | ⟨hnone, _⟩ | ⟨_, old, _, _, _, hold, hstate, _⟩ |
    ⟨claim, old, _, _, _, _, hkey, hlocked, _, _⟩ := h.work_cases key
  · exact hsame.trans hwork
  · rw [hnone] at hwork
    cases hwork
  · rw [hold, Option.some.injEq] at hwork
    rw [hwork, hterminal] at hstate
    cases hstate
  · subst hkey
    rw [hlocked.1, Option.some.injEq] at hwork
    have hstate := hlocked.2.2
    rw [hwork, hterminal] at hstate
    cases hstate

/-- A later claim was handed out for the claim's message. -/
def System.Superseded (sys : System) (claim : DeliveryClaim) : Prop :=
  ∃ newer older, sys.issued = newer ++ claim :: older ∧ ∃ other ∈ newer, other.key = claim.key

/-- The token of a superseded claim is on no row. -/
theorem lockClaim_of_superseded {claim : DeliveryClaim}
    (hs : sys.store.life.Sound platform sys.issued) (h : sys.Superseded claim) :
    sys.store.lockClaim claim = none := by
  obtain ⟨newer, older, hissued, other, hother, hkey⟩ := h
  cases hlock : sys.store.lockClaim claim with
  | none => rfl
  | some work =>
    obtain ⟨hwork, ⟨lease, hlease, htoken⟩, _⟩ := Store.lockClaim_some hlock
    obtain ⟨latest, hfind, hlatest⟩ := hs.leased hwork hlease
    -- The last claim for the message is among the newer ones, and tokens are not repeated.
    have hnewer : latest ∈ newer := by
      rw [hissued, List.find?_append] at hfind
      cases hfirst : newer.find? (·.key = claim.key) with
      | none =>
        rw [List.find?_eq_none] at hfirst
        exact absurd hkey (by simpa using hfirst other hother)
      | some first =>
        rw [hfirst, Option.some_or, Option.some.injEq] at hfind
        subst hfind
        exact List.mem_of_find?_eq_some hfirst
    have htokens := hs.tokens
    rw [hissued, List.map_append, List.map_cons] at htokens
    have hne := List.disjoint_of_nodup_append htokens (List.mem_map_of_mem hnewer)
    rw [hlatest, htoken] at hne
    exact absurd List.mem_cons_self hne

/-- An operation on a claim that locks no row leaves the store as it is. -/
theorem perform_of_lost {s t : Store} {e : Event platform} {claim : DeliveryClaim}
    {handed : Option DeliveryClaim} (hclaim : e.operation.claim? = some claim)
    (hlost : s.lockClaim claim = none) (h : perform limits s e = .ok (handed, t)) : t = s := by
  simp only [perform] at h
  cases hop : e.operation with
  | deliver other bytes attachments authorized =>
    rw [hop] at hclaim
    cases hclaim
    simp only [hop, map_eq_ok, Store.deliver, bind_eq_ok, hlost] at h
    obtain ⟨r, ⟨files, _, hr⟩, heq⟩ := h
    cases hr
    cases heq
    rfl
  | fail other reason =>
    rw [hop] at hclaim
    cases hclaim
    simp only [hop, Store.fail, hlost] at h
    cases h
    rfl
  | cancel other reason =>
    rw [hop] at hclaim
    cases hclaim
    simp only [hop, Store.cancel, hlost] at h
    cases h
    rfl
  | hold other reason retryAt =>
    rw [hop] at hclaim
    cases hclaim
    simp only [hop, Store.hold, hlost] at h
    cases h
    rfl
  | _ =>
    rw [hop] at hclaim
    cases hclaim

theorem step_of_superseded {e : Event platform} {claim : DeliveryClaim}
    (hs : sys.store.life.Sound platform sys.issued) (hclaim : e.operation.claim? = some claim)
    (hold : sys.Superseded claim) (h : sys.step limits e = some sys') :
    sys'.store = sys.store := by
  have hlost := lockClaim_of_superseded hs hold
  unfold System.step at h
  split at h
  · cases hperform : perform limits sys.store e with
    | ok result =>
      simp only [hperform, Option.some.injEq] at h
      subst h
      exact perform_of_lost hclaim hlost hperform
    | error fault =>
      simp only [hperform, Option.some.injEq] at h
      subst h
      rfl
  · cases h

/-- The run from a reachable state keeps every finished row. -/
theorem terminal_stays {key : MessageKey} {work : DeliveryWork}
    (hs : sys.store.life.Sound platform sys.issued) (hwork : sys.store.work.find key = some work)
    (hterminal : work.state.isTerminal = true)
    (h : Reachable (fun sys (e : Event platform) => sys.step limits e) sys sys') :
    sys'.store.work.find key = some work := by
  refine (h.invariant (I := fun t => t.store.life.Sound platform t.issued ∧
    t.store.work.find key = some work) ⟨hs, hwork⟩ ?_).2
  intro t u e ht _ hstep
  obtain ⟨handed, _, hmove⟩ := step_move ht.1 hstep
  exact ⟨step_sound ht.1 hstep, hmove.terminal ht.2 hterminal⟩

/-- The delivery work of a provider is a state machine: the revision is 1 exactly in the state
`accepted` and grows by one at each transition, a finished row never changes again, the delivered
message and the queued status exist exactly when the state says so, and the holder of a
superseded lease token changes nothing. -/
theorem delivery_work_state_machine (h : System.Reached platform limits sys) :
    (∀ key work, sys.store.work.find key = some work →
      (work.statusRevision = 1 ↔ work.state = .accepted)) ∧
    (∀ (e : Event platform) sys', sys.step limits e = some sys' → ∀ key,
      (∀ work, sys.store.work.find key = some work →
        ∃ next, sys'.store.work.find key = some next ∧
          (next.state = work.state ∧ next.statusRevision = work.statusRevision ∨
            work.state.isTerminal = false ∧ next.statusRevision = work.statusRevision + 1)) ∧
      ∀ next, sys.store.work.find key = none → sys'.store.work.find key = some next →
        next.state = .accepted) ∧
    (∀ sys', Reachable (fun sys (e : Event platform) => sys.step limits e) sys sys' →
      ∀ key work, sys.store.work.find key = some work → work.state.isTerminal = true →
        sys'.store.work.find key = some work) ∧
    (∀ key, (sys.store.delivered.find key).isSome ↔
      ∃ work, sys.store.work.find key = some work ∧ work.state = .finished .delivered) ∧
    (∀ key, (sys.store.publications.find key).isSome ↔
      ∃ work, sys.store.work.find key = some work ∧ work.state.isTerminal = true) ∧
    (∀ claim, sys.Superseded claim → ∀ e : Event platform, e.operation.claim? = some claim →
      ∀ sys', sys.step limits e = some sys' → sys'.store = sys.store) := by
  have hs := reachable_sound h
  refine ⟨fun key work hwork => (hs.revision hwork).2, ?_, ?_, hs.delivered, hs.published, ?_⟩
  · intro e sys' hstep key
    obtain ⟨handed, _, hmove⟩ := step_move hs hstep
    refine ⟨fun work hwork => hmove.progress hwork, fun next hnone hnext => ?_⟩
    obtain hsame | ⟨_, _, _, _, _, _, hnew⟩ | ⟨_, _, _, _, _, hold, _⟩ |
      ⟨claim, _, _, _, _, _, hkey, hlocked, _⟩ := hmove.work_cases key
    · have hfound := hsame.symm.trans hnext
      have hstored : sys.store.life.work.find key = none := hnone
      rw [hstored] at hfound
      cases hfound
    · have hfound := hnew.symm.trans hnext
      cases hfound
      rfl
    · have hfound := hold.symm.trans hnone
      cases hfound
    · subst hkey
      have hfound := hlocked.1.symm.trans hnone
      cases hfound
  · intro sys' hreach key work hwork hterminal
    exact terminal_stays hs hwork hterminal hreach
  · intro claim hold e hclaim sys' hstep
    exact step_of_superseded hs hclaim hold hstep

end Runs

namespace Sample

def alice : Did := "did:plc:aaaaaaaaaaaaaaaaaaaaaaaa"

def bob : Did := "did:plc:bbbbbbbbbbbbbbbbbbbbbbbb"

/-- Alice's account at this provider; Bob is served elsewhere. -/
def aliceAccount : Uuid := "01954144-0000-7000-8000-00000000000a"

def digest : Bytes := List.replicate 32 7

def body : BodyDescriptor :=
  ⟨digest, 3, "application/hail-body+cbor", .spt1, 1790000000, [1, 2, 3], 1790000000⟩

/-- Alice's message, to which Bob may reply. -/
def question : HailEnvelope where
  messageId := "01954144-0000-7000-8000-000000000001"
  fromDid := alice
  toDid := bob
  authorization := .grant "01954144-0000-7000-8000-0000000000aa"
  category := some "news"
  inReplyTo := none
  conversationMessageId := none
  conversationIntroduction := none
  expiresAt := 1788000000
  body := body
  reply := .allowed 1789000000

/-- A reply of Bob's under the capability that came with the question. -/
def replyOf (messageId : Uuid) : HailEnvelope where
  messageId := messageId
  fromDid := bob
  toDid := alice
  authorization := .reply question.messageId
  category := none
  inReplyTo := some question.key
  conversationMessageId := none
  conversationIntroduction := none
  expiresAt := 1788000000
  body := body
  reply := .denied

def firstReply : HailEnvelope := replyOf "01954144-0000-7000-8000-000000000002"

def secondReply : HailEnvelope := replyOf "01954144-0000-7000-8000-000000000003"

def platform : Platform where
  inspectEnvelope bytes :=
    if bytes = [0] then some question
    else if bytes = [1] then some firstReply
    else if bytes = [2] then some secondReply
    else none
  sha256 _ := digest
  decodeBody _ := some ⟨.spt1, []⟩
  attachmentShape _ _ := true
  after24Months t := t + 730 * 86400 * second

theorem clock_le_self (now : Nat) : now * second ≤ now * second := le_refl _

/-- The provider at a second, as long as nothing else changes. -/
def provider (now : Nat) (h : now * second ≤ maxInstant) : Ambient where
  accounts := (∅ : Table Uuid Account).insert aliceAccount ⟨some alice, true, true, false⟩
  fences := ∅
  generations := (∅ : Table Uuid Nat).insert aliceAccount 1
  admittedGenerations _ := none
  pairs := ∅
  tombstones := []
  accountConnections := []
  barriers := []
  connectionPreferences := ∅
  accountPreferences := ∅
  grants := ∅
  publishedBodies := (∅ : Table (Uuid × Bytes) Nat).insert (aliceAccount, digest) 3
  conversationBatches := []
  revivalBatches := []
  start := now * second
  clock _ := now * second
  start_le := clock_le_self now
  clock_mono _ _ _ := clock_le_self now
  clock_le _ := h

def firstDecision : EnvelopeDecision platform where
  payload := firstReply
  representation := [1]
  payloadDigest := List.replicate 32 1
  envelopeDigest := List.replicate 32 1
  localAccountId := aliceAccount
  signingPublicKey := "did:key:bob"
  evidenceBytes := 100
  retainAuthority := none
  envelopeAuthority := none
  conversationDescriptor := none
  inspected := by decide +kernel

/-- A worker's claim of the first reply under a token. -/
def firstClaim (leaseToken : Uuid) (attemptCount : Nat) : DeliveryClaim :=
  ⟨bob, firstReply.messageId, leaseToken, attemptCount, firstReply⟩

theorem sent_le : 1787851200 * second ≤ maxInstant := by decide

theorem accepted_le : 1787851201 * second ≤ maxInstant := by decide

theorem claimed_le : 1787851202 * second ≤ maxInstant := by decide

theorem delivered_le : 1787851302 * second ≤ maxInstant := by decide

theorem answered_le : 1787851400 * second ≤ maxInstant := by decide

/-- The question is sent, a reply is accepted and claimed, the lease runs out, another worker
claims the reply again, the first worker comes back too late, and the second one delivers. -/
def replyDelivered : List (Event platform) :=
  [⟨provider 1787851200 sent_le, .createSent question [0] aliceAccount⟩,
    ⟨provider 1787851201 accepted_le, .accept firstDecision⟩,
    ⟨provider 1787851202 claimed_le, .claimDue "token-1" 60 []⟩,
    ⟨provider 1787851300 (by decide), .claimDue "token-2" 60 []⟩,
    ⟨provider 1787851301 (by decide), .fail (firstClaim "token-1" 1) .bodyInvalid⟩,
    ⟨provider 1787851302 delivered_le, .deliver (firstClaim "token-2" 2) [1, 2, 3] [] true⟩]

/-- The state after the events, from empty tables. -/
def run (events : List (Event platform)) : Option System :=
  exec (fun sys e => sys.step envelopeAdmission e) System.initial events

end Sample

theorem delivery_work_reply_delivered : ∃ sys, Sample.run Sample.replyDelivered = some sys ∧
    (sys.store.delivered.find Sample.firstReply.key).isSome ∧
    (sys.store.publications.find Sample.firstReply.key).isSome := by
  have hrun : (Sample.run Sample.replyDelivered).isSome := by decide +kernel
  obtain ⟨sys, hsys⟩ := Option.isSome_iff_exists.1 hrun
  have hstate : (Sample.run Sample.replyDelivered).bind (fun sys =>
    (sys.store.work.find Sample.firstReply.key).map DeliveryWork.state) =
      some (.finished .delivered) := by decide +kernel
  rw [hsys, Option.bind_some, Option.map_eq_some_iff] at hstate
  obtain ⟨work, hwork, hdelivered⟩ := hstate
  obtain ⟨_, _, _, hdeliveredRows, hpublished, _⟩ :=
    delivery_work_state_machine (reachable_of_exec hsys)
  exact ⟨sys, hsys, (hdeliveredRows _).2 ⟨work, hwork, hdelivered⟩,
    (hpublished _).2 ⟨work, hwork, by rw [hdelivered]; rfl⟩⟩

end HailProto.Messages
