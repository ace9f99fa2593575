import HailProto.Federation.Effects

/-!
# The outcomes of the coordinator's transactions

A request the coordinator accepts is answered from one event: that of an earlier result, one
the pair already has, or a new one that advances the pair by an epoch.
-/

namespace HailProto.Federation

open Server
open Messages (PairState)

namespace Store

variable {platform : Platform} {s t : Store}

/-- A request converged on the event of the active epoch. -/
structure Converges (s : Store) (call : ConnectCall) (row : Pair) (event : Event) : Prop where
  active : row.state = .active
  epoch : call.request.epoch = row.epoch ∨ call.request.epoch + 1 = row.epoch
  isOpen : row.connectionId.any (s.closed call.key) = false
  event_eq : s.events.find (call.key, row.epoch) = some event

/-- The control of the coordinator's own snapshot of a new epoch. -/
def ConnectCall.opening (call : ConnectCall) (row : Pair) : Control :=
  ownSnapshot call.owner call.peer call.request
    (.opened (row.epoch + 1) call.connectionId row.next_pos)

def DisconnectCall.closing (call : DisconnectCall) (row : Pair) (connectionId : Uuid) : Control :=
  ownSnapshot call.owner call.peer call.request
    (.closed (row.epoch + 1) connectionId row.next_pos)

/-- A request opened a new epoch. -/
structure Opens (s t : Store) (call : ConnectCall) (v : Verified) (row : Pair) (event : Event) :
    Prop where
  standing : call.request.toStanding = row.toStanding
  inactive : row.state ≠ .active
  unexpired : call.tx.now < v.confirmation.expiresAt
  advanced : Advanced call.tx s t call.key row call.request (ConnectCall.opening call row) event

theorem resolveConnect_ok {call : ConnectCall} {v : Verified} {row : Pair} {epoch : Nat}
    {event : Event} (hrow : s.pairs.find call.key = some row)
    (h : s.resolveConnect call v row = .ok (t, epoch, event)) :
    (t = s ∧ epoch = row.epoch ∧ s.Converges call row event) ∨
      epoch = row.epoch + 1 ∧ s.Opens t call v row event := by
  unfold resolveConnect at h
  by_cases hactive : row.state = .active ∧ (call.request.epoch = row.epoch ∨
      call.request.epoch + 1 = row.epoch)
  · rw [if_pos hactive, guard_eq_ok, bind_eq_ok] at h
    obtain ⟨hopen, found, hfound, h⟩ := h
    cases h
    exact .inl ⟨rfl, rfl, hactive.1, hactive.2, Bool.eq_false_iff.2 hopen, eventRow_ok hfound⟩
  · rw [if_neg hactive] at h
    simp only [guard_eq_ok, bind_eq_ok, not_not, not_le, ne_eq, Except.ok.injEq,
      Prod.mk.injEq, Prod.exists] at h
    obtain ⟨hstanding, hexpires, u, event', hevent, u', happly, rfl, rfl, rfl⟩ := h
    refine .inr ⟨rfl, hstanding, ?_, hexpires, event_apply_ok hrow hevent happly⟩
    intro hstate
    exact hactive ⟨hstate, .inl (by rw [hstanding])⟩

/-- What a verified bundle and its admission established before the transaction. -/
structure Admitted (platform : Platform) (call : ConnectCall) (v : Verified)
    (admission : Control) : Prop where
  bundle_eq : verifyBundle platform call.bundleReads call.snapshotReads call.bytes true = .ok v
  admission_eq : verify platform call.admissionReads call.admissionBytes .admission false =
    .ok admission
  request_matches : call.request.checkMatches v v.scanner.did = .ok ()
  admission_matches : admission.checkMatches v v.inviter.did = .ok ()

/-- The rows a fresh result adds beside the event it is answered from. -/
structure Settles (platform : Platform) (s t : Store) (call : ConnectCall) (epoch : Nat) :
    Prop where
  free : s.results.find call.request.requestId = none
  store : ∃ outbox, t = { s with
    results := s.results.insert call.request.requestId
      ⟨call.key, .connect, call.requestBytes, platform.sha256 call.bytes, (call.key, epoch)⟩
    outbox := outbox }

/-- How an accepted connect request came to its answer. -/
inductive ConnectOutcome (platform : Platform) (s : Store) (call : ConnectCall) :
    Store → Event → Prop
  /-- The result was there before the request was looked at. -/
  | prior {result : ResultRow} {event : Event} :
      s.results.find call.request.requestId = some result → result.action = .connect →
      result.pair = call.key → result.proofDigest = platform.sha256 call.bytes →
      s.events.find result.event = some event → ConnectOutcome platform s call s event
  /-- Another call stored the result meanwhile. -/
  | raced {v : Verified} {admission : Control} {u : Store} {row : Pair} {attempt : Attempt}
      {result : ResultRow} {event : Event} {address : String} :
      Admitted platform call v admission →
      s.pair call.tx call.owner call.peer (some address) = .ok (u, row) →
      u.attempts.find (call.owner.id, call.request.requestId) = some attempt →
      attempt.pair = call.key → attempt.proofDigest = platform.sha256 call.bytes →
      u.results.find call.request.requestId = some result →
      result.proofDigest = platform.sha256 call.bytes →
      u.events.find result.event = some event → ConnectOutcome platform s call u event
  /-- The request has a result of its own from now on. -/
  | settled {v : Verified} {admission : Control} {u w t : Store} {row : Pair}
      {attempt : Attempt} {epoch : Nat} {event : Event} {address : String} :
      Admitted platform call v admission →
      s.pair call.tx call.owner call.peer (some address) = .ok (u, row) →
      u.attempts.find (call.owner.id, call.request.requestId) = some attempt →
      attempt.pair = call.key → attempt.proofDigest = platform.sha256 call.bytes →
      (w = u ∧ epoch = row.epoch ∧ u.Converges call row event ∨
        epoch = row.epoch + 1 ∧ u.Opens w call v row event) →
      Settles platform w t call epoch → ConnectOutcome platform s call t event

theorem coordinatorConnect_ok {call : ConnectCall} {answer : Answer}
    (h : s.coordinatorConnect platform call = .ok (t, answer)) :
    ∃ event, ConnectOutcome platform s call t event ∧
      answer.control.toStanding = event.toStanding ∧ answer.control.fromDid = call.owner.did ∧
      answer.control.toDid = call.peer := by
  unfold coordinatorConnect at h
  cases hprior : s.priorConnect call with
  | some prior =>
    obtain ⟨hfind, hfilter⟩ := Option.filter_eq_some_iff.1 hprior
    simp only [Bool.and_eq_true, decide_eq_true_eq] at hfilter
    simp only [hprior, bind_eq_ok, guard_eq_ok, not_or, not_not, ne_eq, Except.ok.injEq,
      Prod.mk.injEq, Prod.exists] at h
    obtain ⟨_, _, _, _, _, ⟨hpair, hproof⟩, event, hevent, answer', hanswer, rfl, rfl⟩ := h
    obtain ⟨hstanding, hfrom, hto, _⟩ := connectionResponse_ok hanswer
    exact ⟨event, .prior hfind hfilter.2 hpair hproof (eventRow_ok hevent), hstanding, hfrom,
      hto⟩
  | none =>
    simp only [hprior, bind_eq_ok] at h
    obtain ⟨v, hbundle, admission, hadmission, _, hrequest, _, hmatches, h⟩ := h
    have hadmitted : Admitted platform call v admission :=
      ⟨hbundle, hadmission, hrequest, hmatches⟩
    simp only [commitConnect, bind_eq_ok, Prod.exists, guard_eq_ok, Bool.not_eq_true,
      Option.isNone_eq_false_iff, Option.isSome_iff_exists, Option.filter_eq_some_iff,
      decide_eq_true_eq] at h
    obtain ⟨_, _, u, row, hpair, ⟨attempt, hattempt, hattemptPair, hattemptProof⟩, h⟩ := h
    cases hraced : u.results.find call.request.requestId with
    | some raced =>
      simp only [hraced, guard_eq_ok, bind_eq_ok, not_not, ne_eq, Except.ok.injEq,
        Prod.mk.injEq] at h
      obtain ⟨hproof, event, hevent, answer', hanswer, rfl, rfl⟩ := h
      obtain ⟨hstanding, hfrom, hto, _⟩ := connectionResponse_ok hanswer
      exact ⟨event, .raced hadmitted hpair hattempt hattemptPair hattemptProof hraced hproof
        (eventRow_ok hevent), hstanding, hfrom, hto⟩
    | none =>
      simp only [hraced, bind_eq_ok, Except.ok.injEq, Prod.mk.injEq, Prod.exists] at h
      obtain ⟨w, epoch, event, hresolve, x, hresult, y, houtbox, answer', hanswer, rfl, rfl⟩ :=
        h
      obtain ⟨hfree, rfl⟩ := insertResult_ok hresult
      obtain ⟨_, rfl⟩ := insertOutbox_ok houtbox
      obtain ⟨hrow, _⟩ := pair_ok hpair
      obtain ⟨hstanding, hfrom, hto, _⟩ := connectionResponse_ok hanswer
      exact ⟨event, .settled hadmitted hpair hattempt hattemptPair hattemptProof
        (resolveConnect_ok hrow hresolve) ⟨hfree, _, rfl⟩, hstanding, hfrom, hto⟩

/-- The event found for an old closing closed that connection. -/
theorem closingEvent_eq_some {key : PairKey} {id : Uuid} {epoch : Nat} {event : Event}
    (h : s.closingEvent key id = some (epoch, event)) :
    s.events.find (key, epoch) = some event ∧ event.connectionId = some id ∧
      event.state = .disconnected := by
  have hmem := List.argmax_mem h
  obtain ⟨⟨⟨k, n⟩, found⟩, hrow, hfound⟩ := List.mem_filterMap.1 hmem
  simp only [Option.ite_none_right_eq_some, Option.some.injEq, Prod.mk.injEq] at hfound
  obtain ⟨⟨rfl, hid, hstate⟩, rfl, rfl⟩ := hfound
  exact ⟨Table.mem_rows.1 hrow, hid, hstate⟩

theorem closingEvent_eq_none {key : PairKey} {id : Uuid} (h : s.closingEvent key id = none)
    {epoch : Nat} {event : Event} (hfind : s.events.find (key, epoch) = some event)
    (hstate : event.state = .disconnected) : event.connectionId ≠ some id := by
  intro hid
  have hempty := List.argmax_eq_none.1 h
  refine absurd hempty (List.ne_nil_of_mem (a := (epoch, event)) (List.mem_filterMap.2
    ⟨((key, epoch), event), Table.mem_rows.2 hfind, ?_⟩))
  simp only [hid, hstate, and_self, if_true]

/-- A request closed the current epoch. -/
structure Closes (s t : Store) (call : DisconnectCall) (row : Pair) (connectionId : Uuid)
    (event : Event) : Prop where
  current : row.connectionId = some connectionId
  unclosed : s.closingEvent call.key connectionId = none
  advanced : Advanced call.tx s t call.key row call.request
    (DisconnectCall.closing call row connectionId) event

/-- How an accepted disconnect request came to its answer. -/
inductive DisconnectOutcome (platform : Platform) (s : Store) (call : DisconnectCall) :
    Store → Event → Prop
  | prior {result : ResultRow} {event : Event} :
      s.results.find call.request.requestId = some result → result.pair = call.key →
      result.proofDigest = call.request.proofHash → s.events.find result.event = some event →
      DisconnectOutcome platform s call s event
  | settled {w t : Store} {row : Pair} {connectionId : Uuid} {epoch : Nat} {event : Event} :
      s.pairs.find call.key = some row → row.localDid = call.owner.did →
      call.request.connectionId = some connectionId →
      call.request.proofHash = platform.sha256 (platform.encodeConnection connectionId) →
      (w = s ∧ s.closingEvent call.key connectionId = some (epoch, event) ∨
        epoch = row.epoch + 1 ∧ s.Closes w call row connectionId event) →
      w.results.find call.request.requestId = none →
      t = { w with
        results := w.results.insert call.request.requestId
          ⟨call.key, .disconnect, call.requestBytes, call.request.proofHash, (call.key, epoch)⟩ } →
      DisconnectOutcome platform s call t event

theorem resolveDisconnect_ok {call : DisconnectCall} {row : Pair} {connectionId : Uuid}
    {epoch : Nat} {event : Event} (hrow : s.pairs.find call.key = some row)
    (h : s.resolveDisconnect call row connectionId = .ok (t, epoch, event)) :
    t = s ∧ s.closingEvent call.key connectionId = some (epoch, event) ∨
      epoch = row.epoch + 1 ∧ s.Closes t call row connectionId event := by
  unfold resolveDisconnect at h
  cases hold : s.closingEvent call.key connectionId with
  | some found =>
    obtain ⟨epoch', old⟩ := found
    rw [hold] at h
    cases h
    exact .inl ⟨rfl, rfl⟩
  | none =>
    simp only [hold, guard_eq_ok, bind_eq_ok, not_or, not_not, ne_eq, Except.ok.injEq,
      Prod.mk.injEq, Prod.exists] at h
    obtain ⟨⟨hcurrent, _⟩, u, event', hevent, u', happly, rfl, rfl, rfl⟩ := h
    exact .inr ⟨rfl, hcurrent, hold, event_apply_ok hrow hevent happly⟩

theorem coordinatorDisconnect_ok {call : DisconnectCall} {answer : Answer}
    (h : s.coordinatorDisconnect platform call = .ok (t, answer)) :
    ∃ event, DisconnectOutcome platform s call t event ∧
      answer.control.toStanding = event.toStanding ∧ answer.control.fromDid = call.owner.did ∧
      answer.control.toDid = call.peer := by
  unfold coordinatorDisconnect at h
  cases hid : call.request.connectionId with
  | none => simp [hid] at h
  | some connectionId =>
    simp only [hid, guard_eq_ok, bind_eq_ok, Prod.exists, not_or, not_not, ne_eq] at h
    obtain ⟨⟨_, hconnection⟩, _, _, u, row, hpair, h⟩ := h
    obtain ⟨rfl, hrow, hlocal⟩ := pair_none_ok hpair
    cases hprior : u.results.find call.request.requestId with
    | some prior =>
      simp only [hprior, guard_eq_ok, bind_eq_ok, not_or, not_not, Except.ok.injEq,
        Prod.mk.injEq] at h
      obtain ⟨⟨hkey, hproof⟩, event, hevent, control, hcontrol, rfl, rfl⟩ := h
      obtain ⟨hstanding, _, hfrom, hto, _⟩ := snapshot_ok hcontrol
      exact ⟨event, .prior hprior hkey hproof (eventRow_ok hevent), hstanding, hfrom, hto⟩
    | none =>
      simp only [hprior, bind_eq_ok, Except.ok.injEq, Prod.mk.injEq, Prod.exists] at h
      obtain ⟨w, epoch, event, hresolve, x, hresult, control, hcontrol, rfl, rfl⟩ := h
      obtain ⟨hfree, rfl⟩ := insertResult_ok hresult
      obtain ⟨hstanding, _, hfrom, hto, _⟩ := snapshot_ok hcontrol
      exact ⟨event, .settled hrow hlocal hid hconnection (resolveDisconnect_ok hrow hresolve) hfree rfl,
        hstanding, hfrom, hto⟩

end Store

end HailProto.Federation
