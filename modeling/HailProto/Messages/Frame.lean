import HailProto.Messages.Life

/-!
# What sending and delivery leave alone

Only an acceptance records a submission, and only acceptances and the conversation operations
write the conversation tables. Every transaction of the delivery repository, and the storing of
a sent envelope, keep both.
-/

namespace HailProto.Messages.Store

open Server

/-- The received rows and the conversation tables are the same in both stores. -/
structure Frames (s t : Store) : Prop where
  received : t.received = s.received
  conversations : t.conversations = s.conversations

theorem Frames.refl (s : Store) : Frames s s := ⟨rfl, rfl⟩

theorem Frames.trans {s t u : Store} (h : Frames s t) (h' : Frames t u) : Frames s u :=
  ⟨h'.received.trans h.received, h'.conversations.trans h.conversations⟩

variable {platform : Platform} {s t : Store} {ambient : Ambient} {claim : DeliveryClaim}

theorem updateWork_frames {key : MessageKey} {work next : DeliveryWork}
    (h : s.updateWork ambient key work next = .ok t) : Frames s t := by
  obtain ⟨leases, rfl⟩ := updateWork_ok h
  exact ⟨rfl, rfl⟩

theorem finish_frames {work : DeliveryWork} {state : TerminalState}
    (h : s.finish ambient claim work state = .ok t) : Frames s t := by
  obtain ⟨settled, leases, _, _, rfl⟩ := finish_ok h
  exact ⟨rfl, rfl⟩

theorem insertDelivered_frames {envelope : HailEnvelope}
    (h : s.insertDelivered ambient envelope = .ok t) : Frames s t := by
  simp only [insertDelivered] at h
  split at h
  · cases h
    exact .refl s
  · simp only [bind_eq_ok, guard_eq_ok, Except.ok.injEq] at h
    obtain ⟨_, _, _, _, _, rfl⟩ := h
    exact ⟨rfl, rfl⟩

theorem deliver_frames {bytes : Bytes} {attachments : List Bytes} {authorized : Bool}
    {outcome : DeliverOutcome}
    (h : s.deliver platform ambient claim bytes attachments authorized = .ok (outcome, t)) :
    Frames s t := by
  simp only [deliver, bind_eq_ok] at h
  obtain ⟨files, _, h⟩ := h
  split at h
  · cases h
    exact .refl s
  · split at h
    · simp only [bind_eq_ok, Except.ok.injEq, Prod.mk.injEq] at h
      obtain ⟨s₁, hfinish, _, rfl⟩ := h
      exact finish_frames hfinish
    · simp only [bind_eq_ok] at h
      obtain ⟨permitted, _, h⟩ := h
      split at h
      · simp only [bind_eq_ok, Except.ok.injEq, Prod.mk.injEq] at h
        obtain ⟨s₁, hfinish, _, rfl⟩ := h
        exact finish_frames hfinish
      · simp only [bind_eq_ok, guard_eq_ok] at h
        obtain ⟨s₁, hbody, s₂, hattachments, _, h⟩ := h
        have hlife := (storeAttachments_life hattachments).1.trans (storeBody_life hbody).1
        have hstored : Frames s s₂ := ⟨congrArg Life.received hlife,
          (storeAttachments_life hattachments).2.trans (storeBody_life hbody).2⟩
        split at h
        · simp only [bind_eq_ok, Except.ok.injEq, Prod.mk.injEq] at h
          obtain ⟨s₃, hfinish, _, rfl⟩ := h
          exact hstored.trans (finish_frames hfinish)
        · simp only [bind_eq_ok, Except.ok.injEq, Prod.mk.injEq] at h
          obtain ⟨s₃, hinsert, s₄, hfinish, _, rfl⟩ := h
          exact (hstored.trans (insertDelivered_frames hinsert)).trans (finish_frames hfinish)

theorem hold_frames {reason : HoldReason} {retryAt : JsDate}
    (h : s.hold ambient claim reason retryAt = .ok t) : Frames s t := by
  simp only [hold] at h
  split at h
  · cases h
    exact .refl s
  · split at h
    · exact finish_frames h
    · exact updateWork_frames h

theorem fail_frames {reason : FailureReason} (h : s.fail ambient claim reason = .ok t) :
    Frames s t := by
  simp only [fail] at h
  split at h
  · cases h
    exact .refl s
  · exact finish_frames h

theorem cancel_frames {reason : CancellationReason}
    (h : s.cancel ambient claim reason = .ok t) : Frames s t := by
  simp only [cancel] at h
  split at h
  · cases h
    exact .refl s
  · exact finish_frames h

theorem claimDue_frames {leaseToken : Uuid} {leaseSeconds : Nat}
    {locked : List MessageKey} {handed : Option DeliveryClaim}
    (h : s.claimDue platform ambient leaseToken leaseSeconds locked = .ok (handed, t)) :
    Frames s t := by
  simp only [claimDue] at h
  split at h
  · cases h
    exact .refl s
  · split at h
    · cases h
    · simp only [guard_eq_ok, bind_eq_ok, Except.ok.injEq, Prod.mk.injEq] at h
      obtain ⟨_, s₁, hupdate, _, rfl⟩ := h
      obtain ⟨leases, rfl⟩ := updateWork_ok hupdate
      exact ⟨rfl, rfl⟩

theorem createSent_frames {payload : HailEnvelope} {representation : Bytes}
    {accountId : Uuid}
    (h : s.createSent platform ambient payload representation accountId = .ok t) :
    Frames s t := by
  simp only [createSent, guard_eq_ok, bind_eq_ok] at h
  obtain ⟨_, _, _, _, _, _, _, _, _, h⟩ := h
  split at h
  · cases h
    exact ⟨rfl, rfl⟩
  · simp only [guard_eq_ok, Except.ok.injEq] at h
    obtain ⟨_, rfl⟩ := h
    exact ⟨rfl, rfl⟩

end HailProto.Messages.Store
