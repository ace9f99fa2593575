import HailProto.Migration.Authorizations
import HailProto.Migration.FenceEffects

/-!
# What each call does to an authorization

One lemma for each call of the source: the row that it found, and the row that it left.
-/

namespace HailProto.Migration

open Server Codec
open Cbor (Value)

variable {platform : Platform} {w : Surroundings} {s t : SourceStore} {resolved : Resolution}
  {signed answer : SignedHandshake}

/-- The bytes of a signed record decode to a map of this type. -/
def IsTyped (platform : Platform) (type : String) (bytes : Bytes) : Prop :=
  ∃ value : Record, decodeDeterministic platform bytes = .ok (.map value) ∧
    isText value "type" (· == type) = true

/-- Bytes have one type. -/
theorem IsTyped.unique {bytes : Bytes} {type type' : String} (h : IsTyped platform type bytes)
    (h' : IsTyped platform type' bytes) : type = type' := by
  obtain ⟨value, hdecode, htype⟩ := h
  obtain ⟨value', hdecode', htype'⟩ := h'
  rw [hdecode] at hdecode'
  cases hdecode'
  unfold isText at htype htype'
  cases hget : Record.get value "type" with
  | none => simp [hget] at htype
  | some v =>
    cases v with
    | text found =>
      simp only [hget, beq_iff_eq] at htype htype'
      exact htype.symm.trans htype'
    | _ => simp [hget] at htype

theorem validate_typed {kind : Kind} {value : Value} {r : Record}
    (h : validate platform kind value = .ok r) : isText r "type" (· == kind.type) = true := by
  cases value with
  | map entries =>
    simp only [validate, guard_eq_ok, bind_eq_ok, Except.ok.injEq] at h
    obtain ⟨hcommon, _, _, _, _, rfl⟩ := h
    simp only [commonFields, Bool.not_eq_true, Bool.not_eq_false', Bool.and_eq_true] at hcommon
    exact hcommon.1.1.1.1.1.2
  | _ => cases h

/-- A verified handshake is of its kind. -/
theorem verifyHandshake_typed {kind : Kind} {key : String} {r : Record}
    (h : verifyHandshake platform kind signed key = .ok r) :
    IsTyped platform kind.type signed.payloadBytes := by
  refine ⟨r, verifyHandshake_ok h, ?_⟩
  simp only [verifyHandshake, guard_eq_ok, bind_eq_ok, Except.ok.injEq] at h
  obtain ⟨_, _, _, value, hvalue, _, _, _, _, _, _, rfl⟩ := h
  exact validate_typed hvalue

theorem decodeManaged_typed {kind : ManagedKind} {r : Record}
    (h : decodeManaged platform signed kind = .ok r) :
    IsTyped platform kind.type signed.payloadBytes := by
  simp only [decodeManaged, guard_eq_ok, bind_eq_ok, Except.ok.injEq] at h
  obtain ⟨_, decoded, hdecoded, value, hvalue, _, _, _, rfl⟩ := h
  cases decoded with
  | map entries =>
    simp only [validateManaged, guard_eq_ok, bind_eq_ok, Except.ok.injEq] at hvalue
    obtain ⟨_, hidentity, _, _, _, _, _, rfl⟩ := hvalue
    simp only [managedIdentity, Bool.not_eq_true, Bool.not_eq_false', Bool.and_eq_true]
      at hidentity
    exact ⟨entries, hdecoded, hidentity.1.1.1.1.1.1.1⟩
  | _ => cases hvalue

/-- The row of an entry that was written: new, unconsumed and uncancelled. -/
structure Written (w : Surroundings) (s t : SourceStore) (e : Entry) (row : Authorization) :
    Prop where
  grant : row.grantBytes = e.grant.payloadBytes
  signature : row.grantSignature = e.grant.signature
  expiresAt : row.expiresAt = e.expiresAt * 1000
  unconsumed : row.consumedTransferId = none
  unconfirmed : row.originConfirmedAt = none
  uncancelled : row.cancelledAt = none
  free : ∀ old, s.authorizations.find e.did = some old → old.Replaceable w e.grant
  result : t = { s with
    authorizations := s.authorizations.insert e.did row
    custody := s.custody.insert e.did e.custody }

theorem writeEntry_ok {e : Entry} {row : Authorization} {r : Option SourceStore}
    (h : writeEntry w s e row = .ok r) :
    r = some { s with
      authorizations := s.authorizations.insert e.did row
      custody := s.custody.insert e.did e.custody } := by
  unfold writeEntry at h
  split at h
  · cases h
  · simp only [guard_eq_ok, Except.ok.injEq] at h
    exact h.2.symm

theorem recordEntry_ok {e : Entry} (h : recordEntry w s e = .ok (some t)) :
    ∃ row, Written w s t e row := by
  unfold recordEntry at h
  cases hfound : s.authorizations.find e.did with
  | none =>
    rw [hfound] at h
    have ht := writeEntry_ok h
    injection ht with ht
    refine ⟨e.authorization, rfl, rfl, rfl, rfl, rfl, rfl, fun old hold => ?_, ht⟩
    rw [hfound] at hold
    cases hold
  | some row =>
    rw [hfound] at h
    by_cases hfree : row.Replaceable w e.grant
    · simp only [hfree, if_true] at h
      have ht := writeEntry_ok h
      injection ht with ht
      refine ⟨_, rfl, rfl, rfl, rfl, rfl, rfl, fun old hold => ?_, ht⟩
      rw [hfound] at hold
      cases hold
      exact hfree
    · simp [hfree] at h

/-- What `issue` verified of its grant. -/
structure Presented (platform : Platform) (w : Surroundings) (resolved : Resolution)
    (signed : SignedHandshake) (grant : TransferGrant) : Prop where
  verified : (verifyHandshake platform .grant signed resolved.identityDidKey).isOk
  current : seconds w.now < grant.expiresAt
  grant_eq : ∃ value, decodeDeterministic platform signed.payloadBytes = .ok (.map value) ∧
    grant = .of value

theorem issue_ok {sign : Bytes → Bytes} {challenge : Bytes}
    (h : issue platform w s resolved signed sign challenge = .ok (t, answer)) :
    ∃ grant, Presented platform w resolved signed grant ∧
      (t = s ∨ ∃ invitation row, Written w s t ⟨grant.did, grant.nonce,
        grant.destinationServiceBase, grant.expiresAt, signed, invitation, .portable, none⟩ row) := by
  simp only [issue, bind_eq_ok] at h
  obtain ⟨⟨grant, invitation⟩, hgrant, _, _, recorded, hrecorded, h⟩ := h
  refine ⟨grant, ?_, ?_⟩
  · simp only [acknowledgeGrant, bind_eq_ok, guard_eq_ok, not_or, not_le, Except.ok.injEq,
      Prod.mk.injEq] at hgrant
    obtain ⟨raw, hraw, value, hvalue, ⟨_, _, _, _, hcurrent⟩, verified, hverified, _, _, _, _, rfl,
      _⟩ := hgrant
    exact ⟨by rw [hverified]; rfl, hcurrent, value, by rw [hraw, validate_ok hvalue], rfl⟩
  · cases recorded with
    | none =>
      simp only [bind_eq_ok, Except.ok.injEq, Prod.mk.injEq] at h
      obtain ⟨_, _, rfl, _⟩ := h
      exact .inl rfl
    | some t' =>
      simp only [Except.ok.injEq, Prod.mk.injEq] at h
      obtain ⟨rfl, _⟩ := h
      obtain ⟨row, hrow⟩ := recordEntry_ok hrecorded
      exact .inr ⟨invitation, row, hrow⟩

theorem authorize_ok {platform : TransferPlatform} {w : SourceSurroundings}
    {resolved : StrictResolution}
    (h : authorize platform w s resolved signed = .ok (t, answer)) :
    IsTyped platform.toPlatform ManagedKind.grant.type signed.payloadBytes ∧
      (t = s ∨ ∃ e row, e.grant = signed ∧ Written w.toSurroundings s t e row) := by
  simp only [authorize, bind_eq_ok] at h
  obtain ⟨⟨grant, key, acknowledged⟩, hgrant, recorded, hrecorded, h⟩ := h
  refine ⟨?_, ?_⟩
  · simp only [acknowledgeManaged, bind_eq_ok] at hgrant
    obtain ⟨_, _, rotationKeys, _, hgrant⟩ := hgrant
    split at hgrant
    · cases hgrant
    · simp only [guard_eq_ok, bind_eq_ok] at hgrant
      obtain ⟨_, value, hvalue, _⟩ := hgrant
      simp only [verifyManagedOwnerHandshake, bind_eq_ok] at hvalue
      obtain ⟨decoded, hdecoded, _⟩ := hvalue
      exact decodeManaged_typed hdecoded
  · cases recorded with
    | none =>
      simp only [bind_eq_ok, Except.ok.injEq, Prod.mk.injEq] at h
      obtain ⟨_, _, rfl, _⟩ := h
      exact .inl rfl
    | some t' =>
      simp only [Except.ok.injEq, Prod.mk.injEq] at h
      obtain ⟨rfl, _⟩ := h
      obtain ⟨row, hrow⟩ := recordEntry_ok hrecorded
      exact .inr ⟨_, row, rfl, hrow⟩

/-- An offer was stored in the uncancelled row of the DID. -/
structure Offered (s t : SourceStore) (did : Did) (row : Authorization) : Prop where
  found : s.authorizations.find did = some row
  uncancelled : row.cancelledAt = none
  result : ∃ bytes signature at', t = { s with
    authorizations := s.authorizations.insert did { row with
      originRequestBytes := some bytes
      originRequestSignature := some signature
      originConfirmedAt := some at' } }

theorem recordOffer_ok {again : Resolution} {d : Delivery}
    (h : recordOffer platform w s again d signed = .ok (t, answer)) :
    t = s ∨ ∃ row, Offered s t d.did row := by
  simp only [recordOffer, bind_eq_ok] at h
  obtain ⟨_, _, h⟩ := h
  cases hfound : s.authorizations.find d.did with
  | none => simp [hfound] at h
  | some row =>
    simp only [hfound, guard_eq_ok, not_or, bind_eq_ok] at h
    obtain ⟨⟨huncancelled, _⟩, replaces, _, h⟩ := h
    split at h
    · simp only [Except.ok.injEq, Prod.mk.injEq] at h
      exact .inl h.1.symm
    · split at h
      · cases h
      · simp only [Except.ok.injEq, Prod.mk.injEq] at h
        exact .inr ⟨row, hfound, by simpa using huncancelled, _, _, _, h.1.symm⟩

theorem recordManagedOffer_ok {platform : TransferPlatform} {d : ManagedDelivery}
    (h : recordManagedOffer platform w s d signed = .ok (t, answer)) :
    t = s ∨ ∃ row, Offered s t d.grant.did row := by
  simp only [recordManagedOffer, bind_eq_ok] at h
  obtain ⟨_, _, h⟩ := h
  cases hfound : s.authorizations.find d.grant.did with
  | none => simp [hfound] at h
  | some row =>
    cases hcolumns : s.custody.find d.grant.did with
    | none => simp [hfound, hcolumns] at h
    | some columns =>
      simp only [hfound, hcolumns, guard_eq_ok, not_or] at h
      obtain ⟨⟨_, huncancelled, _⟩, h⟩ := h
      split at h
      · split at h
        · cases h
        · simp only [Except.ok.injEq, Prod.mk.injEq] at h
          exact .inr ⟨row, hfound, by simpa using huncancelled, _, _, _, h.1.symm⟩
      · simp only [guard_eq_ok, Except.ok.injEq, Prod.mk.injEq] at h
        exact .inl h.2.1.symm
      · cases h

/-- A cancellation of the stored grant of a DID. -/
structure Cancels (platform : Platform) (s : SourceStore) (resolved : Resolution)
    (signed : SignedHandshake) (did : Did) (row : Authorization) : Prop where
  subject : requestSubject platform signed = .ok did
  found : s.authorizations.find did = some row
  verified : (verifyHandshake platform .grant ⟨row.grantBytes, row.grantSignature⟩
    resolved.identityDidKey).isOk

/-- The first cancellation of an unconsumed grant without a fence. -/
structure CancelsFirst (s t : SourceStore) (did : Did) (row : Authorization) : Prop where
  unconsumed : row.consumedTransferId = none
  unfenced : s.fences.find did = none
  fences : t.fences = s.fences
  authorizations : ∃ at', t.authorizations =
    s.authorizations.insert did { row with cancelledAt := some at' }

theorem cancel_ok {w : SourceSurroundings}
    (h : cancel platform w s resolved signed = .ok (t, answer)) :
    ∃ did row, Cancels platform s resolved signed did row ∧
      (t = s ∧ row.cancelledAt.isSome ∨ row.cancelledAt = none ∧ CancelsFirst s t did row) := by
  simp only [cancel, bind_eq_ok] at h
  obtain ⟨⟨cancellation, sign⟩, hadmitted, h⟩ := h
  have hsubject : requestSubject platform signed = .ok cancellation.did := by
    simp only [admitCancellation, bind_eq_ok, guard_eq_ok] at hadmitted
    obtain ⟨_, raw, hraw, hadmitted⟩ := hadmitted
    cases raw with
    | map entries =>
      simp only [bind_eq_ok, guard_eq_ok] at hadmitted
      obtain ⟨hdid, _, value, hvalue, _, hadmitted⟩ := hadmitted
      obtain rfl : entries = value := by
        have hdecoded := verifyHandshake_ok hvalue
        rw [hraw] at hdecoded
        injection hdecoded with hdecoded
        injection hdecoded
      split at hadmitted
      · cases hadmitted
      · simp only [bind_eq_ok, guard_eq_ok, Except.ok.injEq, Prod.mk.injEq] at hadmitted
        obtain ⟨_, _, _, _, _, rfl, _⟩ := hadmitted
        simp only [Bool.not_eq_true, Bool.not_eq_false'] at hdid
        simp only [requestSubject, hraw, bind_eq_ok, Except.ok.injEq, exists_eq_left', hdid,
          if_true]
        rfl
    | _ => cases hadmitted
  cases hfound : s.authorizations.find cancellation.did with
  | none => simp [hfound] at h
  | some row =>
    simp only [hfound, guard_eq_ok, bind_eq_ok] at h
    obtain ⟨_, grant, hgrant, h⟩ := h
    refine ⟨cancellation.did, row, ⟨hsubject, hfound, by rw [hgrant]; rfl⟩, ?_⟩
    split at h
    · rename_i hcancelled
      split at h
      · cases h
      · simp only [guard_eq_ok, Except.ok.injEq, Prod.mk.injEq] at h
        exact .inl ⟨h.2.1.symm, hcancelled⟩
    · rename_i huncancelled
      simp only [guard_eq_ok, bind_eq_ok, not_or] at h
      obtain ⟨⟨hconsumed, hfence⟩, receipt, _, h⟩ := h
      split at h
      · cases h
      · simp only [Except.ok.injEq, Prod.mk.injEq] at h
        obtain ⟨rfl, _⟩ := h
        exact .inr ⟨by simpa using huncancelled, by simpa using hconsumed, by simpa using hfence,
          rfl, _, rfl⟩

/-- Deleting the row of one key. -/
theorem find_deleteRow {ρ : Type} (table : Table Did ρ) (did other : Did) :
    (table.deleteWhere fun key _ => key == did).find other =
      if other = did then none else table.find other := by
  rw [Table.find_deleteWhere]
  by_cases h : other = did <;> cases table.find other <;> simp [h, Option.filter_some]

theorem cleanupSource_cases (w : Surroundings) (s : SourceStore) (did : Did) :
    cleanupSource w s did = s ∨ ∃ row, s.authorizations.find did = some row ∧ row.Stale w ∧
      cleanupSource w s did = { s with
        authorizations := s.authorizations.deleteWhere fun key _ => key == did
        custody := s.custody.deleteWhere fun key _ => key == did } := by
  unfold cleanupSource
  cases hfound : s.authorizations.find did with
  | none => exact .inl rfl
  | some row =>
    by_cases hstale : row.Stale w
    · exact .inr ⟨row, rfl, hstale, by simp only [hstale, if_true]⟩
    · exact .inl (by simp only [hstale, if_false])

end HailProto.Migration
