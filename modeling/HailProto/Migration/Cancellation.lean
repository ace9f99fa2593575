import HailProto.Core.Transition
import HailProto.Migration.AuthorizationEffects
import HailProto.Migration.FenceLifecycle

/-!
# Cancelled grants

The runs of a source provider: grants are issued and authorized, invitations are delivered, grants
are cancelled, stale authorizations are cleaned up and accounts are fenced, in any order and with
any delay between reading an invitation and the destination's answer to it. A cancellation receipt
promises that its grant stays cancelled. The row that remembers the cancellation is the only one of
its DID, so the promise holds as long as no cancelled grant finds its row given away.
-/

namespace HailProto.Migration

open Server Codec
open Cbor (Value)

/-- A source provider, with the grants that `cancel` has returned a receipt for and those that a
fence was begun under. -/
structure SourceState where
  store : SourceStore
  deliveries : List Delivery
  managedDeliveries : List ManagedDelivery
  clock : Int
  receipts : List (Did × Bytes)
  begun : List (Did × Bytes)

/-- A provider before its first transfer. -/
def SourceState.initial : SourceState := ⟨⟨⟨∅, ∅, ∅, ∅⟩, ∅⟩, [], [], 0, [], []⟩

/-- The calls of a source provider. A delivery is two events: its reading and the transaction that
follows the destination's answer. -/
inductive SourceCall
  | issue (resolved : Resolution) (grant : SignedHandshake) (sign : Bytes → Bytes)
      (challenge : Bytes)
  | read (did : Did) (resolved again : Resolution)
  | respond (again : Resolution) (index : Nat) (offer : SignedHandshake)
  | authorize (resolved : StrictResolution) (grant : SignedHandshake)
  | readManaged (did : Did) (resolved : StrictResolution)
  | respondManaged (index : Nat) (offer : SignedHandshake)
  | cancel (resolved : Resolution) (cancellation : SignedHandshake)
  | cleanup (did : Did)
  | begin (resolved : Resolution) (request selection reservation : SignedHandshake)

structure SourceEvent where
  surroundings : SourceSurroundings
  call : SourceCall

variable (platform : TransferPlatform)

/-- The authorization that a request names, with the DID it is stored under. -/
def namedGrant (s : SourceStore) (signed : SignedHandshake) : Option (Did × Bytes) :=
  match requestSubject platform.toPlatform signed with
  | .ok did => (s.authorizations.find did).map fun row => (did, row.grantBytes)
  | .error _ => none

/-- The fence of the DID that a request names. -/
def namedFence (s : SourceStore) (signed : SignedHandshake) : Option Fence :=
  match requestSubject platform.toPlatform signed with
  | .ok did => s.fences.find did
  | .error _ => none

/-- One call, on the state that it finds. -/
def SourceCall.run (w : SourceSurroundings) (s : SourceState) :
    SourceCall → Except Fault SourceState
  | .issue resolved grant sign challenge => do
      let (t, _) ← Migration.issue platform.toPlatform w.toSurroundings s.store resolved grant sign
        challenge
      .ok { s with store := t }
  | .read did resolved again => do
      let found ← readInvitation platform.toPlatform w.toSurroundings s.store did resolved again
      .ok { s with deliveries := s.deliveries ++ (found.getLeft?).toList }
  | .respond again index offer =>
    match s.deliveries[index]? with
    | none => .error (.error "No such delivery")
    | some d => do
        let (t, _) ← recordOffer platform.toPlatform w.toSurroundings s.store again d offer
        .ok { s with store := t }
  | .authorize resolved grant => do
      let (t, _) ← Migration.authorize platform w s.store resolved grant
      .ok { s with store := t }
  | .readManaged did resolved => do
      let found ← readAcknowledgement platform w.toSurroundings s.store did resolved
      .ok { s with managedDeliveries := s.managedDeliveries ++ (found.getLeft?).toList }
  | .respondManaged index offer =>
    match s.managedDeliveries[index]? with
    | none => .error (.error "No such delivery")
    | some d => do
        let (t, _) ← recordManagedOffer platform w.toSurroundings s.store d offer
        .ok { s with store := t }
  | .cancel resolved cancellation => do
      let (t, _) ← Migration.cancel platform.toPlatform w s.store resolved cancellation
      .ok { s with
        store := t
        receipts := (namedGrant platform s.store cancellation).toList ++ s.receipts }
  | .cleanup did => .ok { s with store := cleanupSource w.toSurroundings s.store did }
  | .begin resolved request selection reservation => do
      let (t, _) ← Migration.begin platform.toPlatform w.toSurroundings s.store.toFenceStore
        resolved request selection reservation
      .ok { s with
        store := { s.store with toFenceStore := t }
        begun :=
          if (namedFence platform s.store request).isSome then s.begun
          else (namedGrant platform s.store request).toList ++ s.begun }

/-- The clock does not go back, and the database reads the same one. -/
def SourceState.Timely (s : SourceState) (w : Surroundings) : Prop :=
  s.clock ≤ w.now ∧ w.databaseNow = w.now

instance (s : SourceState) (w : Surroundings) : Decidable (s.Timely w) :=
  inferInstanceAs (Decidable (_ ∧ _))

/-- A call that raises leaves the state; a step is a call that does not. -/
def sourceStep (s : SourceState) (e : SourceEvent) : Option SourceState :=
  if s.Timely e.surroundings.toSurroundings then
    (e.call.run platform e.surroundings { s with clock := e.surroundings.now }).toOption
  else none

/-- No grant with a receipt is stored uncancelled, and none has been fenced under. -/
def SourceState.Irrevocable (s : SourceState) : Prop :=
  ∀ did grant, (did, grant) ∈ s.receipts →
    (∀ row, s.store.authorizations.find did = some row → row.grantBytes = grant →
      row.cancelledAt.isSome) ∧ (did, grant) ∉ s.begun

/-- The `expires_at` of a grant, in seconds. -/
def grantExpiry (grant : Bytes) : Int :=
  match decodeDeterministic platform.toPlatform grant with
  | .ok (.map entries) => integerOf entries "expires_at"
  | _ => 0

/-- When a grant that has a receipt is presented to `issue` once more, it has expired, or the
authorization stored for its DID is not one that it replaces. -/
def Unrepeated (s : SourceState) (e : SourceEvent) : Prop :=
  match e.call with
  | .issue _ grant _ _ =>
    ∀ r ∈ s.receipts, r.2 = grant.payloadBytes →
      grantExpiry platform grant.payloadBytes ≤ seconds e.surroundings.now ∨
        (s.store.authorizations.find r.1).any
          (fun row => ¬row.Replaceable e.surroundings.toSurroundings grant) = true
  | _ => True

instance (s : SourceState) (e : SourceEvent) : Decidable (Unrepeated platform s e) := by
  unfold Unrepeated
  split <;> infer_instance

variable {platform : TransferPlatform} {s t : SourceState}

/-- What a run under the condition keeps: cancelled grants stay cancelled where they are stored,
and a grant that was fenced under stays consumed and uncancelled. -/
structure SourceState.Kept (platform : TransferPlatform) (s : SourceState) : Prop where
  cancelled : ∀ did grant, (did, grant) ∈ s.receipts →
    ∀ row, s.store.authorizations.find did = some row → row.grantBytes = grant →
      row.cancelledAt.isSome
  typed : ∀ did grant, (did, grant) ∈ s.receipts →
    IsTyped platform.toPlatform Kind.grant.type grant
  fenced : ∀ did grant, (did, grant) ∈ s.begun →
    ∃ row, s.store.authorizations.find did = some row ∧ row.grantBytes = grant ∧
      row.consumedTransferId.isSome ∧ row.cancelledAt = none

theorem SourceState.Kept.irrevocable (h : s.Kept platform) : s.Irrevocable := by
  intro did grant hreceipt
  refine ⟨h.cancelled did grant hreceipt, fun hbegun => ?_⟩
  obtain ⟨row, hrow, hgrant, _, huncancelled⟩ := h.fenced did grant hbegun
  have hcancelled := h.cancelled did grant hreceipt row hrow hgrant
  rw [huncancelled] at hcancelled
  cases hcancelled

/-- A row that a step wrote holds the grant of the row before it, cancelled as before, or a grant
without a receipt. -/
def Preserves (s : SourceState) (store : SourceStore) : Prop :=
  ∀ did row', store.authorizations.find did = some row' →
    (∃ row, s.store.authorizations.find did = some row ∧ row.grantBytes = row'.grantBytes ∧
      (row.cancelledAt.isSome → row'.cancelledAt.isSome)) ∨ (did, row'.grantBytes) ∉ s.receipts

/-- A step leaves the consumed and uncancelled rows. -/
def LeavesConsumed (s : SourceState) (store : SourceStore) : Prop :=
  ∀ did row, s.store.authorizations.find did = some row → row.consumedTransferId.isSome →
    row.cancelledAt = none → ∃ row', store.authorizations.find did = some row' ∧
      row'.grantBytes = row.grantBytes ∧ row'.consumedTransferId.isSome ∧ row'.cancelledAt = none

/-- The invariant depends on the rows, the receipts and the fences alone. -/
theorem SourceState.Kept.changed (h : s.Kept platform) (hreceipts : t.receipts = s.receipts)
    (hbegun : t.begun = s.begun) (hrows : Preserves s t.store)
    (hconsumed : LeavesConsumed s t.store) : t.Kept platform := by
  constructor
  · intro did grant hreceipt row' hrow' hgrant
    rw [hreceipts] at hreceipt
    rcases hrows did row' hrow' with ⟨row, hrow, hsame, hcancelled⟩ | hnew
    · exact hcancelled (h.cancelled did grant hreceipt row hrow (hsame.trans hgrant))
    · rw [hgrant] at hnew
      exact absurd hreceipt hnew
  · intro did grant hreceipt
    rw [hreceipts] at hreceipt
    exact h.typed did grant hreceipt
  · intro did grant hfenced
    rw [hbegun] at hfenced
    obtain ⟨row, hrow, hgrant, hspent, huncancelled⟩ := h.fenced did grant hfenced
    obtain ⟨row', hrow', hsame, hspent', huncancelled'⟩ :=
      hconsumed did row hrow hspent huncancelled
    exact ⟨row', hrow', hsame.trans hgrant, hspent', huncancelled'⟩

theorem SourceState.Kept.same (h : s.Kept platform) (hstore : t.store = s.store)
    (hreceipts : t.receipts = s.receipts) (hbegun : t.begun = s.begun) : t.Kept platform := by
  refine h.changed hreceipts hbegun (fun did row' hrow' => .inl ?_) fun did row hrow hspent
    huncancelled => ?_
  · rw [hstore] at hrow'
    exact ⟨row', hrow', rfl, id⟩
  · rw [hstore]
    exact ⟨row, hrow, rfl, hspent, huncancelled⟩

/-- A row of one DID is rewritten under the same grant, as cancelled as before. -/
theorem preserves_insert {did : Did} {row row' : Authorization} {store : SourceStore}
    (hfound : s.store.authorizations.find did = some row)
    (hresult : store.authorizations = s.store.authorizations.insert did row')
    (hgrant : row'.grantBytes = row.grantBytes)
    (hcancelled : row.cancelledAt.isSome → row'.cancelledAt.isSome) : Preserves s store := by
  intro did' found hrow
  rw [hresult, Table.find_insert] at hrow
  split at hrow
  · rename_i heq
    subst heq
    cases hrow
    exact .inl ⟨row, hfound, hgrant.symm, hcancelled⟩
  · exact .inl ⟨found, hrow, rfl, id⟩

theorem leavesConsumed_insert {did : Did} {row' : Authorization} {store : SourceStore}
    (hresult : store.authorizations = s.store.authorizations.insert did row')
    (hkeeps : ∀ row, s.store.authorizations.find did = some row →
      row.consumedTransferId.isSome → row.cancelledAt = none →
      row'.grantBytes = row.grantBytes ∧ row'.consumedTransferId.isSome ∧
        row'.cancelledAt = none) : LeavesConsumed s store := by
  intro did' row hrow hspent huncancelled
  rw [hresult, Table.find_insert]
  split
  · rename_i heq
    subst heq
    exact ⟨row', rfl, hkeeps row hrow hspent huncancelled⟩
  · exact ⟨row, hrow, rfl, hspent, huncancelled⟩

/-- A written entry keeps the invariant where its grant has no receipt. -/
theorem SourceState.Kept.written {w : Surroundings} {e : Entry} {row : Authorization}
    (h : s.Kept platform) (hreceipts : t.receipts = s.receipts) (hbegun : t.begun = s.begun)
    (hwritten : Written w s.store t.store e row)
    (hnew : (e.did, e.grant.payloadBytes) ∉ s.receipts) : t.Kept platform := by
  have hresult : t.store.authorizations = s.store.authorizations.insert e.did row := by
    rw [hwritten.result]
  refine h.changed hreceipts hbegun ?_ (leavesConsumed_insert hresult ?_)
  · intro did row' hrow'
    rw [hresult, Table.find_insert] at hrow'
    split at hrow'
    · rename_i heq
      subst heq
      cases hrow'
      rw [hwritten.grant]
      exact .inr hnew
    · exact .inl ⟨row', hrow', rfl, id⟩
  · intro old hold hspent _
    have hfree := (hwritten.free old hold).1
    rw [hfree] at hspent
    cases hspent

theorem SourceState.Kept.offered {did : Did} {row : Authorization} (h : s.Kept platform)
    (hreceipts : t.receipts = s.receipts) (hbegun : t.begun = s.begun)
    (hoffered : Offered s.store t.store did row) : t.Kept platform := by
  obtain ⟨hfound, _, bytes, signature, at', ht⟩ := hoffered
  have hresult : t.store.authorizations = s.store.authorizations.insert did { row with
      originRequestBytes := some bytes
      originRequestSignature := some signature
      originConfirmedAt := some at' } := by
    rw [ht]
  refine h.changed hreceipts hbegun (preserves_insert hfound hresult rfl id)
    (leavesConsumed_insert hresult fun old hold hspent huncancelled => ?_)
  obtain rfl : row = old := Option.some.inj (hfound.symm.trans hold)
  exact ⟨rfl, hspent, huncancelled⟩

/-- An issued grant has no receipt, under the condition. -/
theorem unrepeated_new {w : SourceSurroundings} {resolved : Resolution}
    {signed invitation : SignedHandshake} {sign : Bytes → Bytes} {challenge : Bytes}
    {grant : TransferGrant} {row : Authorization} {store : SourceStore}
    (hpresented : Presented platform.toPlatform w.toSurroundings resolved signed grant)
    (hwritten : Written w.toSurroundings s.store store ⟨grant.did, grant.nonce,
      grant.destinationServiceBase, grant.expiresAt, signed, invitation, .portable, none⟩ row)
    (hcondition : Unrepeated platform s ⟨w, .issue resolved signed sign challenge⟩) :
    (grant.did, signed.payloadBytes) ∉ s.receipts := by
  intro hreceipt
  rcases hcondition _ hreceipt rfl with hexpired | hstays
  · obtain ⟨value, hdecode, rfl⟩ := hpresented.grant_eq
    have hcurrent := hpresented.current
    simp only [grantExpiry, hdecode] at hexpired
    simp only [TransferGrant.of] at hcurrent
    omega
  · rw [Option.any_eq_true] at hstays
    obtain ⟨old, hold, hkept⟩ := hstays
    simp only [decide_eq_true_eq] at hkept
    exact hkept (hwritten.free old hold)

theorem namedGrant_eq {store : SourceStore} {signed : SignedHandshake} {did : Did}
    {row : Authorization} (hsubject : requestSubject platform.toPlatform signed = .ok did)
    (hfound : store.authorizations.find did = some row) :
    namedGrant platform store signed = some (did, row.grantBytes) := by
  simp only [namedGrant, hsubject, hfound, Option.map_some]

theorem namedFence_eq {store : SourceStore} {signed : SignedHandshake} {did : Did}
    (hsubject : requestSubject platform.toPlatform signed = .ok did) :
    namedFence platform store signed = store.fences.find did := by
  simp only [namedFence, hsubject]

/-- A returned receipt keeps the invariant: its grant is cancelled where it is stored, and no
fence was begun under it. -/
theorem SourceState.Kept.receipted {resolved : Resolution} {signed : SignedHandshake} {did : Did}
    {row : Authorization} (h : s.Kept platform)
    (hcancels : Cancels platform.toPlatform s.store resolved signed did row)
    (hreceipts : t.receipts = (namedGrant platform s.store signed).toList ++ s.receipts)
    (hbegun : t.begun = s.begun)
    (hcases : t.store = s.store ∧ row.cancelledAt.isSome ∨
      row.cancelledAt = none ∧ CancelsFirst s.store t.store did row) : t.Kept platform := by
  rw [namedGrant_eq hcancels.subject hcancels.found, Option.toList_some,
    List.singleton_append] at hreceipts
  have hstored : ∃ row', t.store.authorizations.find did = some row' ∧
      row'.grantBytes = row.grantBytes ∧ row'.cancelledAt.isSome := by
    rcases hcases with ⟨hsame, hcancelled⟩ | ⟨_, hfirst⟩
    · exact ⟨row, by rw [hsame, hcancels.found], rfl, hcancelled⟩
    · obtain ⟨at', hat⟩ := hfirst.authorizations
      exact ⟨{ row with cancelledAt := some at' }, by rw [hat, Table.find_insert_self], rfl, rfl⟩
  have hbefore : ({ t with receipts := s.receipts } : SourceState).Kept platform := by
    rcases hcases with ⟨hsame, _⟩ | ⟨huncancelled, hfirst⟩
    · exact h.same hsame rfl hbegun
    · obtain ⟨at', hat⟩ := hfirst.authorizations
      refine h.changed rfl hbegun (preserves_insert hcancels.found hat rfl fun _ => rfl)
        (leavesConsumed_insert hat fun old hold hspent _ => ?_)
      obtain rfl : row = old := Option.some.inj (hcancels.found.symm.trans hold)
      rw [hfirst.unconsumed] at hspent
      cases hspent
  constructor
  · intro did' grant hreceipt row' hrow' hgrant
    rw [hreceipts, List.mem_cons] at hreceipt
    rcases hreceipt with heq | hreceipt
    · cases heq
      obtain ⟨found, hfound, _, hcancelled⟩ := hstored
      obtain rfl : found = row' := Option.some.inj (hfound.symm.trans hrow')
      exact hcancelled
    · exact hbefore.cancelled did' grant hreceipt row' hrow' hgrant
  · intro did' grant hreceipt
    rw [hreceipts, List.mem_cons] at hreceipt
    rcases hreceipt with heq | hreceipt
    · cases heq
      obtain ⟨value, hvalue⟩ := isOk_iff.1 hcancels.verified
      exact verifyHandshake_typed hvalue
    · exact h.typed did' grant hreceipt
  · exact hbefore.fenced

/-- What `begin` admits is not cancelled. -/
theorem begin_uncancelled {w : Surroundings} {store store' : FenceStore} {resolved : Resolution}
    {request selection reservation : SignedHandshake} {fence : MigrationFence} {did : Did}
    {row : Authorization}
    (h : Migration.begin platform.toPlatform w store resolved request selection reservation =
      .ok (store', fence))
    (hsubject : requestSubject platform.toPlatform request = .ok did)
    (hfound : store.authorizations.find did = some row) : row.cancelledAt = none := by
  simp only [Migration.begin, hsubject, bind_eq_ok, guard_eq_ok, Except.ok.injEq,
    exists_eq_left'] at h
  obtain ⟨_, admitted, hadmits, _⟩ := h
  simp only [admitTransfer, bind_eq_ok, hfound, guard_eq_ok, not_or] at hadmits
  obtain ⟨_, _, ⟨huncancelled, _⟩, _⟩ := hadmits
  simpa using huncancelled

/-- A begun fence keeps the invariant: its grant has no receipt, and is consumed from then on. -/
theorem SourceState.Kept.begun_fence {did : Did} {row row' : Authorization} (h : s.Kept platform)
    (hfound : s.store.authorizations.find did = some row) (huncancelled : row.cancelledAt = none)
    (hresult : t.store.authorizations = s.store.authorizations.insert did row')
    (hgrant : row'.grantBytes = row.grantBytes) (hspent : row'.consumedTransferId.isSome)
    (huncancelled' : row'.cancelledAt = none) (hreceipts : t.receipts = s.receipts)
    (hbegun : t.begun = (did, row.grantBytes) :: s.begun) : t.Kept platform := by
  have hbefore : ({ t with begun := s.begun } : SourceState).Kept platform := by
    refine h.changed hreceipts rfl (preserves_insert hfound hresult hgrant ?_)
      (leavesConsumed_insert hresult fun old hold _ _ => ?_)
    · rw [huncancelled]
      nofun
    · obtain rfl : row = old := Option.some.inj (hfound.symm.trans hold)
      exact ⟨hgrant, hspent, huncancelled'⟩
  refine ⟨hbefore.cancelled, hbefore.typed, fun did' grant hfenced => ?_⟩
  rw [hbegun, List.mem_cons] at hfenced
  rcases hfenced with heq | hfenced
  · cases heq
    exact ⟨row', by rw [hresult, Table.find_insert_self], hgrant, hspent, huncancelled'⟩
  · exact hbefore.fenced did' grant hfenced

/-- Each call keeps the invariant, where a grant with a receipt is not presented again. -/
theorem SourceState.Kept.run {w : SourceSurroundings} {call : SourceCall} (h : s.Kept platform)
    (hcondition : Unrepeated platform s ⟨w, call⟩) (hrun : call.run platform w s = .ok t) :
    t.Kept platform := by
  cases call with
  | issue resolved grant sign challenge =>
    simp only [SourceCall.run, bind_eq_ok, Except.ok.injEq] at hrun
    obtain ⟨⟨store, _⟩, hissue, rfl⟩ := hrun
    obtain ⟨parsed, hpresented, rfl | ⟨invitation, row, hwritten⟩⟩ := issue_ok hissue
    · exact h
    · exact h.written rfl rfl hwritten (unrepeated_new hpresented hwritten hcondition)
  | read did resolved again =>
    simp only [SourceCall.run, bind_eq_ok, Except.ok.injEq] at hrun
    obtain ⟨_, _, rfl⟩ := hrun
    exact h.same rfl rfl rfl
  | respond again index offer =>
    simp only [SourceCall.run] at hrun
    split at hrun
    · cases hrun
    · simp only [bind_eq_ok, Except.ok.injEq] at hrun
      obtain ⟨⟨store, _⟩, hrecord, rfl⟩ := hrun
      obtain rfl | ⟨row, hoffered⟩ := recordOffer_ok hrecord
      · exact h
      · exact h.offered rfl rfl hoffered
  | authorize resolved grant =>
    simp only [SourceCall.run, bind_eq_ok, Except.ok.injEq] at hrun
    obtain ⟨⟨store, _⟩, hauthorize, rfl⟩ := hrun
    obtain ⟨htyped, rfl | ⟨e, row, rfl, hwritten⟩⟩ := authorize_ok hauthorize
    · exact h
    · refine h.written rfl rfl hwritten fun hreceipt => ?_
      have htypes := (h.typed _ _ hreceipt).unique htyped
      exact absurd htypes (by decide)
  | readManaged did resolved =>
    simp only [SourceCall.run, bind_eq_ok, Except.ok.injEq] at hrun
    obtain ⟨_, _, rfl⟩ := hrun
    exact h.same rfl rfl rfl
  | respondManaged index offer =>
    simp only [SourceCall.run] at hrun
    split at hrun
    · cases hrun
    · simp only [bind_eq_ok, Except.ok.injEq] at hrun
      obtain ⟨⟨store, _⟩, hrecord, rfl⟩ := hrun
      obtain rfl | ⟨row, hoffered⟩ := recordManagedOffer_ok hrecord
      · exact h
      · exact h.offered rfl rfl hoffered
  | cancel resolved cancellation =>
    simp only [SourceCall.run, bind_eq_ok, Except.ok.injEq] at hrun
    obtain ⟨⟨store, _⟩, hcancel, rfl⟩ := hrun
    obtain ⟨did, row, hcancels, hcases⟩ := cancel_ok hcancel
    exact h.receipted hcancels rfl rfl hcases
  | cleanup did =>
    simp only [SourceCall.run, Except.ok.injEq] at hrun
    subst hrun
    rcases cleanupSource_cases w.toSurroundings s.store did with
      hsame | ⟨row, hfound, hstale, hdeleted⟩
    · exact h.same hsame rfl rfl
    · refine h.changed rfl rfl (fun did' row' hrow' => .inl ?_)
        fun did' old hold hspent huncancelled => ?_
      · simp only [hdeleted, find_deleteRow, Option.ite_none_left_eq_some] at hrow'
        exact ⟨row', hrow'.2, rfl, id⟩
      · have hother : did' ≠ did := by
          rintro rfl
          obtain rfl : row = old := Option.some.inj (hfound.symm.trans hold)
          rw [hstale.2.1] at hspent
          cases hspent
        refine ⟨old, ?_, rfl, hspent, huncancelled⟩
        simp only [hdeleted, find_deleteRow, if_neg hother]
        exact hold
  | begin resolved request selection reservation =>
    simp only [SourceCall.run, bind_eq_ok, Except.ok.injEq] at hrun
    obtain ⟨⟨store, fence⟩, hbegin, rfl⟩ := hrun
    obtain ⟨did, admitted, hsubject, hadmitted, row, hreplayed | hfenced⟩ := begin_ok hbegin
    · have hfence : namedFence platform s.store request = s.store.fences.find did :=
        namedFence_eq hsubject
      rw [hreplayed.found] at hfence
      exact h.same (by rw [hreplayed.same]) rfl (by simp [hfence])
    · have hfence : namedFence platform s.store request = s.store.fences.find did :=
        namedFence_eq hsubject
      rw [hfenced.absent] at hfence
      have huncancelled := begin_uncancelled hbegin hsubject hadmitted.stored
      have hresult : store.authorizations = s.store.authorizations.insert did
          { admitted.stored with
            consumedTransferId := some row.transferId
            finalRequest := some request
            selection := some selection
            reservation := some reservation } := by
        rw [hfenced.result]
      refine h.begun_fence hadmitted.stored huncancelled hresult rfl rfl huncancelled rfl ?_
      simp [hfence, namedGrant_eq hsubject hadmitted.stored]

theorem SourceState.Kept.step {e : SourceEvent} (h : s.Kept platform)
    (hcondition : Unrepeated platform s e) (hstep : sourceStep platform s e = some t) :
    t.Kept platform := by
  unfold sourceStep at hstep
  split at hstep
  · rw [toOption_eq_some] at hstep
    have hclock : ({ s with clock := e.surroundings.now } : SourceState).Kept platform :=
      h.same rfl rfl rfl
    exact hclock.run (show Unrepeated platform _ ⟨e.surroundings, e.call⟩ from hcondition) hstep
  · cases hstep

/-- In every run that presents no grant again after its receipt, unless it has expired or cannot
replace what is stored, a receipted grant is never stored uncancelled or fenced under. -/
theorem cancellation_irrevocable
    (h : Reaches (sourceStep platform) (Unrepeated platform) .initial s) : s.Irrevocable := by
  refine (h.invariant (I := SourceState.Kept platform) ?_ ?_).irrevocable
  · exact ⟨nofun, nofun, nofun⟩
  · intro s t e hs hcondition hstep
    exact hs.step hcondition hstep

namespace Sample

open Grants Grants.Sample Custody.Sample

def shortNonce : Uuid := "01954144-5555-4555-8555-00000000000b"

def shortChallenge : Nat := 0xa92a30e1bfcccd5c4abe986fda3f70acaa6acb2d6450dfb1546e6b8d86fd794c

def shortDigest : Nat := 0x9e88e616a7a2804ddc7bef49b7b809be566137dc6489ddc53f994c6241c4c507

/-- Another grant of Alice, for one minute. -/
def shortGrant : Bytes := transferGrant shortNonce 1787851330 1787851400

def shortGrantSignature : Bytes := words
  [0x84a1951197d1a33606d069790cdc4caa30ea30d4108b4b6ede55b02d7e9be6c2,
   0xb762b7d0902d57c59f1efd8d853af85389eccbbc189682f24d3104a819cd360d]

/-- The source's acknowledgement of it. -/
def shortInvitation : Bytes :=
  transferInvitation shortNonce shortChallenge 1787851400 shortDigest

def shortInvitationSignature : Bytes := words
  [0xb65a9bcec7147867ee47c17b7fef3db3b2757f55f0ab927045c882ee54eccdcf,
   0xe274796d19233db98be66b5018e799f18f3eb6bf442c296402d388b4fe5df600]

def repeatedChallenge : Nat :=
  0xee808b6ce1360703f82e9dddb484a527ad003635044ac6434e80e01cac9d65bf

/-- The source's acknowledgement of the first grant, presented again. -/
def repeatedInvitation : Bytes :=
  transferInvitation firstNonce repeatedChallenge 1787854700 grantDigest

def repeatedInvitationSignature : Bytes := words
  [0x8b9c41ae7fe4e96118566d695b68e6886ab1c728754ef92ce4dbfb7adf0808e3,
   0xd71849b881b0acb26f22e35fa70635308f805cd5a23ac05778f1f37f3222050a]

/-- A cancellation of the first grant. -/
def transferCancellation (issuedAt expiresAt : Int) : Bytes :=
  transferBytes "cancellation" firstNonce
    [("issued_at", .int issuedAt), ("expires_at", .int expiresAt),
     ("grant_digest", .bytes (beBytes 32 grantDigest))]

/-- The receipt for a cancellation of the first grant, for a week. -/
def cancellationReceipt (issuedAt : Int) : Bytes :=
  transferBytes "cancellation-receipt" firstNonce
    [("issued_at", .int issuedAt), ("expires_at", .int (issuedAt + 604800)),
     ("grant_digest", .bytes (beBytes 32 grantDigest)),
     ("invitation_digest", .bytes (beBytes 32 invitationDigest)),
     ("destination_domain", .text "beta.example"),
     ("source_service_base", .text "https://alice.example/hail")]

/-- Alice's cancellation of the first grant. -/
def cancellationPayload : Bytes := transferCancellation 1787851310 1787854800

def cancellationSignature : Bytes := words
  [0x022ba5000d6b2327bf965041a507991c3abb854dd2ad8ee05b3b52e9b38843aa,
   0x00d8edf27a96dd5949bee654eda5d9cfb8f56f8963a68e1114ddab0370bda300]

/-- The source's receipt for the cancellation. -/
def receiptPayload : Bytes := cancellationReceipt 1787851320

def receiptSignature : Bytes := words
  [0x94d7325a56d51cc5bdd6ff6df79a5004fe3e2eaa9e9191db595b617432a1d685,
   0x3fb03be5ccd9c6a2a01e5664424ccdf19eaa5b3d73bef46edaf93c5829b31e02]

def messagingKey : String := "did:key:z6Mknvtzny16bz4AAAJ3M34X55zU6KbtkMUjqedMnPPPnehX"

def nextKey : String := "did:key:z6MktNc1xBieks3ugfLpQve19rJFEd6AJiG7pCLKsKRXkJxL"

def betaKey : String := "did:key:z6MkmUzv7ZoUVgoiKw8aicQHDpz46WhKgZ69fVLKeVbcvkyT"

/-- The keys of the samples with their raw form: Alice's identity key and her next one, the
messaging keys of the source and of the destination. -/
def publicKeys : List (String × Bytes) :=
  [(ownerKey, beBytes 32 0x9a31f31bfe434a26c6d669d99fae95c051b7853aeac20987c31ad729e360e5a6),
    (nextKey, beBytes 32 0xced24b87ff59608fd97d2164d7e3aa39bac1b5a7aa5e8746528a40dba8c78105),
    (messagingKey, beBytes 32 0x7df1f5703c2ee63998157705ef42f4dbf84d72b315ef6a8cff16ce9f4666958a),
    (betaKey, beBytes 32 0x6873dd20b81c62326884dd88d0f7d2fdfbec76790f14f47ddbe6822ef858080e)]

def publicKey (key : String) : Except Fault Bytes :=
  match publicKeys.lookup key with
  | some bytes => .ok bytes
  | none => .error (.error "Unsupported did:key")

/-- A key, and what it has signed: the context, the payload and the signature. -/
abbrev Signature := String × Kind × Bytes × Bytes

def Signature.message (e : Signature) : Bytes := signatureInput (e.2.1.type ++ ".v1") e.2.2.1

/-- A platform that knows these signatures and SHA-256 digests. -/
def platformWith (signatures : List Signature) (digests : List (Bytes × Nat)) : TransferPlatform where
  cborg := commandLineCborg
  sha256 bytes := beBytes 32 ((digests.lookup bytes).getD 0)
  sha256_length _ := length_beBytes _ _
  ed25519PublicKey := publicKey
  verify key signature message := signatures.any fun e =>
    decide (publicKey e.1 = .ok key) && e.2.2.2 == signature && e.message == message
  canonicalizeHailServiceBase base := .ok base
  canonicalizeHailAddress address := .ok address
  hostname _ := "alice.example"
  verifySignature _ _ _ := .ok false

/-- What a key signs. -/
def signsWith (signatures : List Signature) (key : String) (message : Bytes) : Bytes :=
  ((signatures.find? fun e => e.1 == key && e.message == message).map (·.2.2.2)).getD []

def signatures : List Signature :=
  [(ownerKey, .grant, grantPayload, grantSignature),
    (ownerKey, .grant, shortGrant, shortGrantSignature),
    (ownerKey, .cancellation, cancellationPayload, cancellationSignature),
    (messagingKey, .invitation, invitationPayload, invitationSignature),
    (messagingKey, .invitation, shortInvitation, shortInvitationSignature),
    (messagingKey, .invitation, repeatedInvitation, repeatedInvitationSignature),
    (messagingKey, .cancellationReceipt, receiptPayload, receiptSignature)]

/-- A platform that knows the signatures above. -/
def transferPlatform : TransferPlatform := platformWith signatures
  [(grantPayload, grantDigest), (shortGrant, shortDigest), (invitationPayload, invitationDigest)]

/-- Alice holds this identity key; the time is in seconds. -/
def ownedAt (identityKey : String) (signatures : List Signature) (time : Int) :
    SourceSurroundings where
  sourceServiceBase := "https://alice.example/hail"
  now := time * 1000
  databaseNow := time * 1000
  account did := if did = alice then some ⟨aliceAccount, "alice@alice.example", true, true, false,
    false⟩ else none
  custody _ := some ⟨recoveryKey, identityKey⟩
  keys _ := [⟨"hail-messaging", "ed25519", messagingKey⟩]
  generation _ := 1
  refusal := none
  withdrawal := none
  managed _ := none
  privateKey _ := .ok (signsWith signatures messagingKey)

def resolution (identityKey : String) : Resolution :=
  ⟨alice, "https://alice.example/hail", identityKey, messagingKey, some [recoveryKey]⟩

def sourceSign : Bytes → Bytes := signsWith signatures messagingKey

def firstGrant : SignedHandshake := ⟨grantPayload, grantSignature⟩

def issueFirst : SourceCall := .issue (resolution ownerKey) firstGrant sourceSign
  (beBytes 32 firstChallenge)

def cancelFirst : SourceCall := .cancel (resolution ownerKey)
  ⟨cancellationPayload, cancellationSignature⟩

def issueShort : SourceCall := .issue (resolution ownerKey) ⟨shortGrant, shortGrantSignature⟩ sourceSign
  (beBytes 32 shortChallenge)

def repeatFirst : SourceCall := .issue (resolution ownerKey) firstGrant sourceSign
  (beBytes 32 repeatedChallenge)

/-- Alice cancels a grant, and replaces it with one for a minute. -/
def cancelledEvents : List SourceEvent :=
  [⟨ownedAt ownerKey signatures 1787851300, issueFirst⟩,
    ⟨ownedAt ownerKey signatures 1787851320, cancelFirst⟩,
    ⟨ownedAt ownerKey signatures 1787851340, issueShort⟩]

/-- The cancelled grant is presented again, before it expires. -/
def repeated : SourceEvent := ⟨ownedAt ownerKey signatures 1787851500, repeatFirst⟩

/-- The first events meet the condition and return the receipt; the last one stores its grant. -/
theorem cancelled_run : ∃ s t,
    execWhere (sourceStep transferPlatform) (fun s e => decide (Unrepeated transferPlatform s e))
      .initial cancelledEvents = some s ∧
    (alice, grantPayload) ∈ s.receipts ∧ sourceStep transferPlatform s repeated = some t ∧
    (alice, grantPayload) ∈ t.receipts ∧ ∃ row, t.store.authorizations.find alice = some row ∧
      row.grantBytes = grantPayload ∧ row.cancelledAt = none := by
  have hrun : (execWhere (sourceStep transferPlatform)
      (fun s e => decide (Unrepeated transferPlatform s e)) .initial cancelledEvents).any
      (fun s => decide ((alice, grantPayload) ∈ s.receipts) &&
        (sourceStep transferPlatform s repeated).any fun t =>
          decide ((alice, grantPayload) ∈ t.receipts) &&
            (t.store.authorizations.find alice).any fun row =>
              decide (row.grantBytes = grantPayload) && row.cancelledAt.isNone) = true := by
    decide +kernel
  obtain ⟨s, hs, hfound⟩ := (Option.any_eq_true _ _).1 hrun
  simp only [Bool.and_eq_true, decide_eq_true_eq, Option.any_eq_true, Option.isNone_iff_eq_none]
    at hfound
  obtain ⟨hreceipt, t, ht, hreceipt', row, hrow⟩ := hfound
  exact ⟨s, t, hs, hreceipt, ht, hreceipt', row, hrow⟩

end Sample

/-- Under the condition, the first grant stays cancelled when the second takes its row. -/
theorem cancellation_irrevocable_replaced : ∃ s,
    execWhere (sourceStep Sample.transferPlatform)
      (fun s e => decide (Unrepeated Sample.transferPlatform s e)) .initial
      Sample.cancelledEvents = some s ∧
    (Grants.Sample.alice, Sample.grantPayload) ∈ s.receipts ∧ s.Irrevocable := by
  obtain ⟨s, _, hs, hreceipt, _⟩ := Sample.cancelled_run
  have hreaches := (reaches_of_execWhere hs).mono fun s e => of_decide_eq_true
  exact ⟨s, hs, hreceipt, cancellation_irrevocable hreaches⟩

/-- A receipt is not irrevocable in every run: its grant is stored uncancelled again when it is
presented after another grant has taken its row. -/
theorem cancelled_grant_restored : ¬∀ s,
    Reachable (sourceStep Sample.transferPlatform) .initial s → s.Irrevocable := by
  intro hall
  obtain ⟨s, t, hs, _, ht, hreceipt, row, hrow, hgrant, huncancelled⟩ := Sample.cancelled_run
  have hreached : Reachable (sourceStep Sample.transferPlatform) .initial t :=
    .next _ (reaches_of_execWhere hs).unrestricted trivial ht
  have hcancelled := (hall t hreached _ _ hreceipt).1 row hrow hgrant
  rw [huncancelled] at hcancelled
  cases hcancelled

end HailProto.Migration
