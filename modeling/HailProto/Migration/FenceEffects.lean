import HailProto.Migration.Fence

/-!
# What each call of the fence does

One lemma for each call: what an accepted `begin`, `releaseBeforeExport`, `exportFenced` or
`retire` found and what it left behind. No proof about runs looks inside a call again.
-/

namespace HailProto.Migration

open Server Codec
open Cbor (Value)

variable {platform : Platform} {w : Surroundings} {s t : FenceStore} {did : Did}
  {transferId : Uuid} {resolved : Resolution} {request selection reservation : SignedHandshake}

theorem mapError_eq_ok {ε ε' α : Type} {x : Except ε α} {f : ε → ε'} {a : α} :
    x.mapError f = .ok a ↔ x = .ok a := by
  cases x <;> simp [Except.mapError]

/-- The final request names the selection and the reservation by their digests. -/
def Binds (platform : Platform) (request selection reservation : SignedHandshake) : Prop :=
  ∃ value : Record, decodeDeterministic platform request.payloadBytes = .ok (.map value) ∧
    bytesOf value "selection_digest" = platform.sha256 selection.payloadBytes ∧
    bytesOf value "reservation_digest" = platform.sha256 reservation.payloadBytes

/-- One final request binds selections and reservations of one digest. -/
theorem Binds.digests {selection' reservation' : SignedHandshake}
    (h : Binds platform request selection reservation)
    (h' : Binds platform request selection' reservation') :
    platform.sha256 selection.payloadBytes = platform.sha256 selection'.payloadBytes ∧
      platform.sha256 reservation.payloadBytes = platform.sha256 reservation'.payloadBytes := by
  obtain ⟨value, hdecode, hselection, hreservation⟩ := h
  obtain ⟨value', hdecode', hselection', hreservation'⟩ := h'
  obtain rfl : value = value' := by
    rw [hdecode] at hdecode'
    injection hdecode' with hdecode'
    injection hdecode'
  exact ⟨hselection.symm.trans hselection', hreservation.symm.trans hreservation'⟩

theorem validate_ok {kind : Kind} {value : Value} {r : Record}
    (h : validate platform kind value = .ok r) : value = .map r := by
  cases value with
  | map entries =>
    simp only [validate, guard_eq_ok, bind_eq_ok, Except.ok.injEq] at h
    obtain ⟨_, _, _, _, _, rfl⟩ := h
    rfl
  | _ => cases h

theorem verifyHandshake_ok {kind : Kind} {signed : SignedHandshake} {key : String} {r : Record}
    (h : verifyHandshake platform kind signed key = .ok r) :
    decodeDeterministic platform signed.payloadBytes = .ok (.map r) := by
  simp only [verifyHandshake, guard_eq_ok, bind_eq_ok, Except.ok.injEq] at h
  obtain ⟨_, decoded, hdecoded, value, hvalue, _, _, _, _, _, _, rfl⟩ := h
  rw [← validate_ok hvalue, hdecoded]

theorem verifyAgreement_ok {stored : Authorization} {a : Agreement}
    (h : verifyAgreement platform resolved stored request selection reservation = .ok a) :
    ∃ value, decodeDeterministic platform request.payloadBytes = .ok (.map value) ∧
      a.request = .of value ∧ a.selectionBytes = selection.payloadBytes ∧
      a.reservationBytes = reservation.payloadBytes := by
  simp only [verifyAgreement, bind_eq_ok] at h
  obtain ⟨_, _, _, _, h⟩ := h
  split at h
  · simp only [bind_eq_ok, Except.ok.injEq] at h
    obtain ⟨_, _, _, _, value, hrequest, _, _, _, _, rfl⟩ := h
    exact ⟨value, verifyHandshake_ok hrequest, rfl, rfl, rfl⟩
  · cases h

/-- What `begin` found when it admitted a request. -/
structure IsAdmitted (platform : Platform) (s : FenceStore) (did : Did) (admitted : Admitted)
    (request selection reservation : SignedHandshake) : Prop where
  stored : s.authorizations.find did = some admitted.stored
  unspent : ∀ transferId, admitted.stored.consumedTransferId = some transferId →
    transferId = admitted.agreement.request.transferId
  binds : Binds platform request selection reservation

theorem admitTransfer_ok {admitted : Admitted}
    (h : admitTransfer platform w s did resolved request selection reservation = .ok admitted) :
    IsAdmitted platform s did admitted request selection reservation := by
  simp only [admitTransfer, bind_eq_ok] at h
  obtain ⟨⟨account, rotationKeys⟩, _, h⟩ := h
  cases hstored : s.authorizations.find did with
  | none => simp [hstored] at h
  | some stored =>
    simp only [hstored, guard_eq_ok, bind_eq_ok, Except.ok.injEq] at h
    obtain ⟨_, a, ha, destination, _, hsame, _, _, rfl⟩ := h
    obtain ⟨value, hdecode, hrequest, hselectionBytes, hreservationBytes⟩ :=
      verifyAgreement_ok ha
    simp only [Agreement.Differs, not_or] at hsame
    obtain ⟨hgrant, _, _, _, hselection, hreservation, _⟩ := hsame
    simp only [Agreement.GrantDiffers, not_or] at hgrant
    simp only [Agreement.SelectionDiffers, not_or, not_not] at hselection
    simp only [Agreement.ReservationDiffers, not_or, not_not] at hreservation
    refine ⟨hstored, fun transferId hconsumed => ?_, value, hdecode, ?_, ?_⟩
    · have hunspent := hgrant.1
      change stored.consumedTransferId = some transferId at hconsumed
      rw [hconsumed] at hunspent
      simpa using hunspent
    · obtain ⟨_, _, _, _, _, _, _, hdigest⟩ := hselection
      rwa [hrequest, hselectionBytes] at hdigest
    · obtain ⟨_, _, _, _, _, _, hdigest⟩ := hreservation
      rwa [hrequest, hreservationBytes] at hdigest

/-- `begin` answers an existing fence to its own final request. -/
structure Replayed (s t : FenceStore) (did : Did) (admitted : Admitted) (existing : Fence)
    (request : SignedHandshake) (fence : MigrationFence) : Prop where
  found : s.fences.find did = some existing
  same : t = s
  transfer : existing.transferId = admitted.agreement.request.transferId
  final : admitted.stored.finalRequest = some request
  answer : fence = fromRow did existing

/-- `begin` fences the account and consumes its authorization. -/
structure Fenced (s t : FenceStore) (did : Did) (admitted : Admitted) (row : Fence)
    (request selection reservation : SignedHandshake) (fence : MigrationFence) : Prop where
  absent : s.fences.find did = none
  unconsumed : admitted.stored.consumedTransferId = none
  unclaimed : ∀ did' row', s.authorizations.find did' = some row' →
    row'.consumedTransferId ≠ some row.transferId
  otherAccounts : ∀ did' row', s.fences.find did' = some row' → row'.accountId ≠ row.accountId
  otherTransfers : ∀ did' row', s.fences.find did' = some row' → row'.transferId ≠ row.transferId
  state : row.state = .fenced
  snapshot : row.snapshotDigest = none
  receipt : row.retirementReceiptBytes = none
  answer : fence = fromRow did row
  result : t = { s with
    fences := s.fences.insert did row
    authorizations := s.authorizations.insert did { admitted.stored with
      consumedTransferId := some row.transferId
      finalRequest := some request
      selection := some selection
      reservation := some reservation } }

theorem begin_ok {fence : MigrationFence}
    (h : begin platform w s resolved request selection reservation = .ok (t, fence)) :
    ∃ did admitted, requestSubject platform request = .ok did ∧
      IsAdmitted platform s did admitted request selection reservation ∧
      ∃ row, Replayed s t did admitted row request fence ∨
        Fenced s t did admitted row request selection reservation fence := by
  simp only [begin, bind_eq_ok, guard_eq_ok] at h
  obtain ⟨did, hdid, _, admitted, hadmits, h⟩ := h
  refine ⟨did, admitted, hdid, admitTransfer_ok hadmits, ?_⟩
  unfold fenceOnce at h
  cases hfound : s.fences.find did with
  | some existing =>
    simp only [hfound, guard_eq_ok, not_or, not_not, Except.ok.injEq, Prod.mk.injEq] at h
    obtain ⟨⟨_, _, _, htransfer⟩, hfinal, rfl, rfl⟩ := h
    exact ⟨existing, .inl ⟨hfound, rfl, htransfer, hfinal, rfl⟩⟩
  | none =>
    simp only [hfound, guard_eq_ok, bind_eq_ok, Except.ok.injEq, Prod.mk.injEq] at h
    obtain ⟨hunconsumed, c, hconsume, c', hinsert, rfl, rfl⟩ := h
    unfold consume at hconsume
    split at hconsume
    · cases hconsume
    · simp only [guard_eq_ok, Except.ok.injEq, List.any_eq_true, beq_iff_eq, not_exists,
        not_and] at hconsume
      obtain ⟨hunclaimed, rfl⟩ := hconsume
      unfold insertFence at hinsert
      split at hinsert
      · cases hinsert
      · simp only [guard_eq_ok, Except.ok.injEq, List.any_eq_true, beq_iff_eq, not_exists,
          not_and] at hinsert
        obtain ⟨_, haccounts, htransfers, rfl⟩ := hinsert
        refine ⟨_, .inr ⟨hfound, by simpa using hunconsumed, fun did' row' hrow =>
          hunclaimed _ (Table.mem_rows.2 hrow), fun did' row' hrow =>
          haccounts _ (Table.mem_rows.2 hrow), fun did' row' hrow =>
          htransfers _ (Table.mem_rows.2 hrow), rfl, rfl, rfl, rfl, rfl⟩⟩

theorem releaseBeforeExport_ok (h : releaseBeforeExport s did transferId = .ok t) :
    ∃ row, s.fences.find did = some row ∧ row.transferId = transferId ∧ row.state = .fenced ∧
      t = { s with
        fences := s.fences.deleteWhere fun key _ => key == did
        authorizations := s.authorizations.deleteWhere fun key row =>
          key == did && row.consumedTransferId == some transferId } := by
  unfold releaseBeforeExport at h
  cases hfound : s.fences.find did with
  | none => simp [hfound] at h
  | some row =>
    simp only [hfound, guard_eq_ok, not_or, not_not, Except.ok.injEq] at h
    obtain ⟨⟨htransfer, hstate⟩, _, rfl⟩ := h
    exact ⟨row, rfl, htransfer, hstate, rfl⟩

/-- `exportFenced` stores the export of a fenced account. -/
structure Exported (platform : Platform) (s t : FenceStore) (did : Did) (current : Fence)
    (row : Export) : Prop where
  fenced : current.state = .fenced
  did_eq : row.did = did
  digest : row.manifestDigest = platform.sha256 row.manifestBytes
  signed : row.signature.length = 64
  absent : s.exports.find current.transferId = none
  result : t = { s with
    exports := s.exports.insert current.transferId row
    fences := s.fences.insert did { current with
      state := .exported
      snapshotDigest := some row.manifestDigest } }

theorem exportFenced_ok {fence : MigrationFence} {messagingKey : AccountKey}
    {manifest : Except Fault Bytes} {sign : Bytes → Except Fault Bytes}
    {snapshot : SignedTransferSnapshot}
    (h : exportFenced platform w s fence resolved messagingKey manifest sign = .ok (t, snapshot)) :
    ∃ current, s.fences.find fence.did = some current ∧ current.transferId = fence.transferId ∧
      ∃ row, snapshot = row.snapshot ∧
        (current.state = .exported ∧ s.exports.find fence.transferId = some row ∧ t = s ∨
          Exported platform s t fence.did current row) := by
  simp only [exportFenced, guard_eq_ok] at h
  obtain ⟨_, _, h⟩ := h
  cases hfound : (s.fences.find fence.did).filter (·.transferId == fence.transferId) with
  | none => simp [hfound] at h
  | some current =>
    simp only [Option.filter_eq_some_iff, beq_iff_eq] at hfound
    obtain ⟨hfound, htransfer⟩ := hfound
    simp only [hfound, Option.filter_some, htransfer, beq_self_eq_true, if_true, guard_eq_ok] at h
    obtain ⟨_, h⟩ := h
    refine ⟨current, hfound, htransfer, ?_⟩
    cases hstate : current.state with
    | exported =>
      simp only [hstate] at h
      cases hexport : s.exports.find fence.transferId with
      | none => simp [hexport] at h
      | some row =>
        simp only [hexport, Except.ok.injEq, Prod.mk.injEq] at h
        obtain ⟨rfl, rfl⟩ := h
        exact ⟨row, rfl, .inl ⟨rfl, rfl, rfl⟩⟩
    | retired => simp [hstate] at h
    | fenced =>
      simp only [hstate, bind_eq_ok, guard_eq_ok, Except.ok.injEq, Prod.mk.injEq,
        not_not] at h
      obtain ⟨bytes, _, signature, _, _, hsigned, hfree, rfl, rfl⟩ := h
      refine ⟨⟨fence.did, bytes, platform.sha256 bytes, messagingKey.publicKey, signature⟩, rfl,
        .inr ⟨hstate, rfl, rfl, hsigned, ?_, ?_⟩⟩
      · rw [htransfer]
        simpa using hfree
      · rw [htransfer]

/-- A receipt with which `retire` retires a fence: it carries the destination's signature and names
the transfer, the destination and the snapshot. -/
structure Receipt (platform : Platform) (did : Did) (fence : Fence) (signed : SignedHandshake)
    (bytes : Bytes) : Prop where
  verified : ∃ key now receipt, fence.destinationMessagingPublicKey = some key ∧
    verifyActivationReceipt platform signed key now = .ok receipt ∧
    Names receipt did fence.transferId fence
  encoded : receiptBytes platform signed = .ok bytes

theorem archive_ok {row : Fence} (h : archive w s did row = .ok t) :
    ∃ retired, t = { s with history := s.history.insert row.transferId retired } := by
  unfold archive at h
  split at h
  · cases h
  · simp only [guard_eq_ok, Except.ok.injEq] at h
    exact ⟨_, h.2.symm⟩

theorem retire_ok {signed : SignedHandshake}
    (h : retire platform w s did transferId resolved signed = .ok t) :
    ∃ fence bytes, s.fences.find did = some fence ∧ fence.transferId = transferId ∧
      Receipt platform did fence signed bytes ∧
      (fence.state = .retired ∧ fence.retirementReceiptBytes = some bytes ∧ t = s ∨
        fence.state = .exported ∧ ∃ history, t = { s with
          fences := s.fences.insert did { fence with
            state := .retired
            retirementReceiptBytes := some bytes }
          history := history }) := by
  unfold retire at h
  cases hfound : (s.fences.find did).filter (·.transferId == transferId) with
  | none => simp [hfound] at h
  | some fence =>
    simp only [Option.filter_eq_some_iff, beq_iff_eq] at hfound
    obtain ⟨hfound, rfl⟩ := hfound
    simp only [hfound, Option.filter_some, beq_self_eq_true, if_true, guard_eq_ok, bind_eq_ok,
      not_or, not_not] at h
    obtain ⟨⟨hstate, _, _, _, hkey⟩, receipt, hreceipt, hnames, bytes, hbytes, h⟩ := h
    refine ⟨fence, bytes, hfound, rfl, ⟨⟨_, _, receipt, hkey.symm, hreceipt, hnames⟩, hbytes⟩, ?_⟩
    split at h
    · cases h
    · split at h
      · rename_i hretired
        simp only [guard_eq_ok, not_not, Except.ok.injEq] at h
        exact .inl ⟨hretired, h.1, h.2.symm⟩
      · rename_i hnot
        simp only [guard_eq_ok] at h
        obtain ⟨_, h⟩ := h
        obtain ⟨retired, rfl⟩ := archive_ok h
        refine .inr ⟨?_, _, rfl⟩
        cases hs : fence.state with
        | fenced => exact (hstate hs).elim
        | exported => rfl
        | retired => exact (hnot hs).elim

end HailProto.Migration
