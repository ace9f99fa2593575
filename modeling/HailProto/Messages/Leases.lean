import HailProto.Core.Count
import HailProto.Messages.Work

/-!
# How many deliveries run at once

A delivery runs while its lease has not expired. `claimDue` looks for a free sender and
recipient at the start of its transaction, which may be long past when it gets the advisory lock.
A lease that has not expired at a later instant had not expired at that start either, so the
rows it counted include all that matter from then on.
-/

namespace HailProto.Messages

open Server

/-- The deliveries of a sender that run at an instant. -/
def Life.senderRuns (l : Life) (now : Nat) (sender : Did) : Nat :=
  l.work.count fun key work => Store.leaseRunning work now && decide (key.1 = sender)

/-- The deliveries to a recipient that run at an instant. -/
def Life.recipientRuns (l : Life) (now : Nat) (recipient : Did) : Nat :=
  l.work.count fun key work => Store.leaseRunning work now &&
    (l.received.find key).any (·.recipientDid = recipient)

/-- At the instant no sender has two running deliveries and no recipient three. -/
structure Life.Bounded (l : Life) (now : Nat) : Prop where
  sender : ∀ did, l.senderRuns now did ≤ 1
  recipient : ∀ did, l.recipientRuns now did ≤ 2

/-- A lease that runs at an instant ran before it. -/
theorem leaseRunning_earlier {work : DeliveryWork} {start now : Nat} (hle : start ≤ now)
    (h : Store.leaseRunning work now = true) : Store.leaseRunning work start = true := by
  simp only [Store.leaseRunning, Bool.and_eq_true, Option.any_eq_true,
    decide_eq_true_eq] at h ⊢
  obtain ⟨hstate, lease, hlease, hexpires⟩ := h
  exact ⟨hstate, lease, hlease, hle.trans_lt hexpires⟩

namespace Life

variable {platform : Platform} {issued : List DeliveryClaim} {l l' : Life} {start now : Nat}

/-- Fewer deliveries run later. -/
theorem senderRuns_later (hle : start ≤ now) (did : Did) :
    l.senderRuns now did ≤ l.senderRuns start did := by
  apply Table.count_le_count
  intro key work hwork h
  simp only [Bool.and_eq_true] at h
  refine ⟨work, hwork, ?_⟩
  rw [leaseRunning_earlier hle h.1, h.2]
  rfl

theorem recipientRuns_later (hle : start ≤ now) (did : Did) :
    l.recipientRuns now did ≤ l.recipientRuns start did := by
  apply Table.count_le_count
  intro key work hwork h
  simp only [Bool.and_eq_true] at h
  refine ⟨work, hwork, ?_⟩
  rw [leaseRunning_earlier hle h.1, h.2]
  rfl

/-- A move that hands out no claim starts no delivery. -/
theorem Move.running (h : Move platform issued l none l') {key : MessageKey}
    {work : DeliveryWork} (hwork : l'.work.find key = some work)
    (hrunning : Store.leaseRunning work now = true) : l.work.find key = some work := by
  obtain hsame | ⟨_, _, _, start, _, _, hnew⟩ | ⟨_, _, _, hhanded, _⟩ |
    ⟨_, old, state, next, transitionedAt, _, _, _, _, hnew⟩ := h.work_cases key
  · exact hsame.symm.trans hwork
  · rw [hnew, Option.some.injEq] at hwork
    subst hwork
    simp [newWork, Store.leaseRunning] at hrunning
  · cases hhanded
  · rw [hnew, Option.some.injEq] at hwork
    subst hwork
    simp [DeliveryWork.transition, Store.leaseRunning] at hrunning

theorem Bounded.kept (hb : l.Bounded now) (hs : l.Sound platform issued)
    (h : Move platform issued l none l') : l'.Bounded now where
  sender did := by
    refine le_trans (Table.count_le_count ?_) (hb.sender did)
    intro key work hwork hrunning
    simp only [Bool.and_eq_true] at hrunning
    exact ⟨work, h.running hwork hrunning.1, by rw [hrunning.1, hrunning.2]; rfl⟩
  recipient did := by
    refine le_trans (Table.count_le_count ?_) (hb.recipient did)
    intro key work hwork hrunning
    simp only [Bool.and_eq_true] at hrunning
    have hold := h.running hwork hrunning.1
    obtain ⟨row, _, hrow, _⟩ := hs.accepted hold
    rw [h.received hrow] at hrunning
    exact ⟨work, hold, by rw [hrunning.1, hrow, hrunning.2]; rfl⟩

/-- Writing one row adds a running delivery to one sender at most. -/
theorem senderRuns_insert (now : Nat) (key : MessageKey) (next : DeliveryWork) (did : Did) :
    ({ l with work := l.work.insert key next } : Life).senderRuns now did ≤
      l.senderRuns now did + if key.1 = did then 1 else 0 := by
  have hinsert := l.work.count_insert_le key next fun key work =>
    Store.leaseRunning work now && decide (key.1 = did)
  refine hinsert.trans (Nat.add_le_add_left ?_ _)
  by_cases hdid : key.1 = did
  · rw [if_pos hdid]
    split <;> omega
  · simp [hdid]

/-- Writing one row adds a running delivery to its recipient at most. -/
theorem recipientRuns_insert (now : Nat) {key : MessageKey} {row : ReceivedEnvelope}
    (next : DeliveryWork) (did : Did) (hrow : l.received.find key = some row) :
    ({ l with work := l.work.insert key next } : Life).recipientRuns now did ≤
      l.recipientRuns now did + if row.recipientDid = did then 1 else 0 := by
  have hinsert := l.work.count_insert_le key next fun key work =>
    Store.leaseRunning work now && (l.received.find key).any (·.recipientDid = did)
  refine hinsert.trans (Nat.add_le_add_left ?_ _)
  by_cases hdid : row.recipientDid = did
  · rw [if_pos hdid]
    split <;> omega
  · simp [hrow, hdid]

/-- A new lease keeps the bounds when its sender and recipient were free at an earlier start. -/
theorem Bounded.leased (hb : l.Bounded now) (hle : start ≤ now) {key : MessageKey}
    {row : ReceivedEnvelope} (next : DeliveryWork) (hrow : l.received.find key = some row)
    (hsender : l.senderRuns start key.1 = 0)
    (hrecipient : l.recipientRuns start row.recipientDid < 2) :
    Bounded { l with work := l.work.insert key next } now where
  sender did := by
    have hinsert := senderRuns_insert (l := l) now key next did
    by_cases hdid : key.1 = did
    · have hlater := senderRuns_later (l := l) hle did
      rw [← hdid, hsender] at hlater
      rw [if_pos hdid, ← hdid] at hinsert
      rw [← hdid]
      omega
    · have hold := hb.sender did
      rw [if_neg hdid] at hinsert
      omega
  recipient did := by
    have hinsert := recipientRuns_insert now next did hrow
    by_cases hdid : row.recipientDid = did
    · have hlater := recipientRuns_later (l := l) hle did
      rw [← hdid] at hlater
      rw [if_pos hdid, ← hdid] at hinsert
      rw [← hdid]
      omega
    · have hold := hb.recipient did
      rw [if_neg hdid] at hinsert
      omega

end Life

section Runs

variable {platform : Platform} {limits : EnvelopeAdmissionLimits} {ambient : Ambient}
variable {s t : Store} {sys sys' : System} {now : Nat}

/-- The row that `claimDue` leases has a free sender and a free recipient at the start. -/
theorem claimDue_leases {leaseToken : Uuid} {leaseSeconds : Nat} {locked : List MessageKey}
    {claim : DeliveryClaim}
    (h : s.claimDue platform ambient leaseToken leaseSeconds locked = .ok (some claim, t)) :
    ∃ key row next, s.received.find key = some row ∧
      s.life.senderRuns ambient.start key.1 = 0 ∧
      s.life.recipientRuns ambient.start row.recipientDid < 2 ∧
      t.life = { s.life with work := s.work.insert key next } := by
  simp only [Store.claimDue] at h
  split at h
  · cases h
  · rename_i due hhead
    have hmem := List.mem_of_mem_head? (Option.mem_def.2 hhead)
    rw [List.mem_insertionSort] at hmem
    obtain ⟨hwork, hrow, _⟩ := Store.mem_due hmem
    have hclaimable : s.claimable ambient due.key due.work due.row = true := by
      simp only [Store.due, List.mem_filterMap] at hmem
      obtain ⟨⟨key, work⟩, _, hmem⟩ := hmem
      split at hmem
      · cases hmem
      · simp only [Option.ite_none_right_eq_some, Option.some.injEq] at hmem
        obtain ⟨⟨hclaimable, _⟩, rfl⟩ := hmem
        exact hclaimable
    simp only [Store.claimable, Bool.and_eq_true, decide_eq_true_eq] at hclaimable
    obtain ⟨⟨_, hsender⟩, hrecipient⟩ := hclaimable
    split at h
    · cases h
    · simp only [guard_eq_ok, bind_eq_ok, Except.ok.injEq, Prod.mk.injEq] at h
      obtain ⟨_, s₁, hupdate, _, rfl⟩ := h
      obtain ⟨leases, rfl⟩ := Store.updateWork_ok hupdate
      refine ⟨due.key, due.row, _, hrow, ?_, ?_, rfl⟩
      · rw [Life.senderRuns, Table.count, List.countP_eq_zero]
        intro r hr hrunning
        rw [Bool.and_eq_true, decide_eq_true_eq] at hrunning
        simp only [Bool.not_eq_true', List.any_eq_false, List.mem_filter, and_imp,
          decide_eq_true_eq] at hsender
        exact hsender r hr hrunning.1 hrunning.2
      · rw [Life.recipientRuns, Table.count, List.countP_eq_length_filter]
        rw [List.filter_filter] at hrecipient
        simpa only [Bool.and_comm, Store.life] using hrecipient

/-- Only `claimDue` hands out a claim. -/
theorem perform_leases {e : Event platform} {claim : DeliveryClaim}
    (h : perform limits s e = .ok (some claim, t)) :
    ∃ key row next, s.received.find key = some row ∧
      s.life.senderRuns e.ambient.start key.1 = 0 ∧
      s.life.recipientRuns e.ambient.start row.recipientDid < 2 ∧
      t.life = { s.life with work := s.work.insert key next } := by
  simp only [perform] at h
  cases hop : e.operation with
  | claimDue leaseToken leaseSeconds locked =>
    simp only [hop] at h
    exact claimDue_leases h
  | _ => simp [hop] at h

/-- A transaction that began by the instant keeps the bounds at the instant. -/
theorem bounded_step {e : Event platform} (hs : sys.store.life.Sound platform sys.issued)
    (hb : sys.store.life.Bounded now) (hstart : e.ambient.start ≤ now)
    (h : sys.step limits e = some sys') : sys'.store.life.Bounded now := by
  have hmove := step_move hs h
  simp only [System.step] at h
  split at h
  · cases hperform : perform limits sys.store e with
    | error fault =>
      simp only [hperform, Option.some.injEq] at h
      subst h
      exact hb
    | ok result =>
      obtain ⟨handed, t⟩ := result
      simp only [hperform, Option.some.injEq] at h
      subst h
      cases handed with
      | none =>
        obtain ⟨handed, hissued, hmove⟩ := hmove
        cases handed with
        | none => exact hb.kept hs hmove
        | some claim => simp at hissued
      | some claim =>
        obtain ⟨key, row, next, hrow, hsender, hrecipient, hlife⟩ := perform_leases hperform
        simp only [hlife]
        exact hb.leased hstart next hrow hsender hrecipient
  · cases h

/-- In a store that transactions begun by an instant leave behind, at most one delivery of a
sender and at most two to a recipient run at the instant. -/
theorem delivery_concurrency
    (h : Reaches (fun sys (e : Event platform) => sys.step limits e)
      (fun _ e => e.ambient.start ≤ now) System.initial sys) :
    (∀ sender, sys.store.life.senderRuns now sender ≤ 1) ∧
      ∀ recipient, sys.store.life.recipientRuns now recipient ≤ 2 := by
  have hinvariant : sys.store.life.Sound platform sys.issued ∧ sys.store.life.Bounded now := by
    refine h.invariant (I := fun sys =>
      sys.store.life.Sound platform sys.issued ∧ sys.store.life.Bounded now) ?_ ?_
    · exact ⟨Life.Sound.initial, ⟨fun _ => Nat.zero_le 1, fun _ => Nat.zero_le 2⟩⟩
    · intro s t e hs hstart hstep
      exact ⟨step_sound hs.1 hstep, bounded_step hs.1 hs.2 hstart hstep⟩
  exact ⟨hinvariant.2.sender, hinvariant.2.recipient⟩

end Runs

/-- While the second worker has the reply, Bob has one running delivery and no more. -/
theorem delivery_concurrency_second_worker :
    ∃ sys, Sample.run (Sample.replyDelivered.take 4) = some sys ∧
      sys.store.life.senderRuns (1787851301 * second) Sample.bob = 1 ∧
      ∀ sender, sys.store.life.senderRuns (1787851301 * second) sender ≤ 1 := by
  have hruns : (Sample.run (Sample.replyDelivered.take 4)).map (fun sys =>
    sys.store.life.senderRuns (1787851301 * second) Sample.bob) = some 1 := by decide +kernel
  rw [Option.map_eq_some_iff] at hruns
  obtain ⟨sys, hsys, hbob⟩ := hruns
  have hall : (Sample.replyDelivered.take 4).all
      (fun e => decide (e.ambient.start ≤ 1787851301 * second)) = true := by decide +kernel
  have hreach := reaches_of_exec hsys fun e he => by
    simpa only [decide_eq_true_eq] using List.all_eq_true.1 hall e he
  exact ⟨sys, hsys, hbob, (delivery_concurrency hreach).1⟩

end HailProto.Messages
