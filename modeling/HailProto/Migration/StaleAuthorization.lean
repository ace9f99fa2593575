import HailProto.Migration.Cancellation

/-!
# Stale authorizations

An authorization that has expired unconsumed gives way to a new grant when `issue` or `authorize`
may replace its row, which an unconfirmed or a cancelled one lets them do. A confirmed one has to be
cancelled first, and `cancel` verifies the stored grant once more, as a portable grant under the
identity key that the DID has by then. A row that fails this stays, whatever its owner signs.
-/

namespace HailProto.Migration

open Server Codec
open Cbor (Value)

/-- A cleanup run, or a call that the owner signs under the identity key of the DID. -/
def OwnerCall (identityKey : String) (e : SourceEvent) : Prop :=
  match e.call with
  | .cleanup _ => True
  | .cancel resolved _ => resolved.identityDidKey = identityKey
  | .issue resolved _ _ _ => resolved.identityDidKey = identityKey
  | .authorize resolved _ => resolved.identityDidKey = identityKey
  | _ => False

/-- The row holds another signed grant. -/
def Authorization.HoldsOther (row stale : Authorization) : Prop :=
  row.grantBytes ≠ stale.grantBytes ∨ row.grantSignature ≠ stale.grantSignature

/-- The signed grant that a call presents. -/
def SourceCall.presented : SourceCall → Option SignedHandshake
  | .issue _ grant _ _ => some grant
  | .authorize _ grant => some grant
  | _ => none

/-- The store without the authorization of a DID. -/
def SourceState.without (s : SourceState) (did : Did) : SourceState :=
  { s with store := { s.store with
      authorizations := s.store.authorizations.deleteWhere fun key _ => key == did
      custody := s.store.custody.deleteWhere fun key _ => key == did } }

variable (platform : TransferPlatform)

/-- Cleanup runs and calls of the owner lead to a state that holds another grant of the DID. -/
def Released (s : SourceState) (did : Did) (stale : Authorization) (identityKey : String) : Prop :=
  ∃ t, Reaches (sourceStep platform) (fun _ e => OwnerCall identityKey e) s t ∧
    ∃ row, t.store.authorizations.find did = some row ∧ row.HoldsOther stale

/-- A new grant of the DID that the provider accepts when it holds no authorization of it. -/
structure Welcome (s : SourceState) (did : Did) (stale : Authorization) (identityKey : String)
    (e : SourceEvent) : Prop where
  owner : OwnerCall identityKey e
  new : ∃ grant, e.call.presented = some grant ∧
    (grant.payloadBytes ≠ stale.grantBytes ∨ grant.signature ≠ stale.grantSignature)
  accepted : ∃ t, sourceStep platform (s.without did) e = some t ∧
    (t.store.authorizations.find did).isSome

/-- The owner's cancellation of the stored grant, for which the source can sign a receipt. -/
structure OwnerCancellation (s : SourceState) (did : Did) (stale : Authorization)
    (identityKey : String) (w : SourceSurroundings) (resolved : Resolution)
    (signed : SignedHandshake) : Prop where
  timely : s.Timely w.toSurroundings
  current : resolved.identityDidKey = identityKey
  unrefused : w.refusal = none
  admitted : ∃ sign, admitCancellation platform.toPlatform w resolved signed =
      .ok (⟨did, stale.nonce, platform.sha256 stale.grantBytes⟩, sign) ∧
    ∀ value, decodeDeterministic platform.toPlatform stale.grantBytes = .ok (.map value) →
      (signHandshake platform.toPlatform .cancellationReceipt
        (receiptRecord platform.toPlatform w.toSurroundings did stale.nonce
          (platform.sha256 stale.grantBytes) stale.invitationBytes
          (textOf value "destination_domain")) sign).isOk

/-- The stale row gives way: it is unconfirmed or cancelled, or it holds a portable grant that
verifies under the identity key. -/
def GivesWay (stale : Authorization) (identityKey : String) : Prop :=
  stale.originConfirmedAt = none ∨ stale.cancelledAt.isSome ∨
    (verifyHandshake platform.toPlatform .grant ⟨stale.grantBytes, stale.grantSignature⟩
      identityKey).isOk

variable {platform : TransferPlatform} {s t : SourceState} {did : Did} {stale : Authorization}
  {identityKey : String} {w : Surroundings}

/-- Two stores hold the same authorizations beside one DID's. -/
def SameOthers (did : Did) (a b : SourceStore) : Prop :=
  ∀ other, other ≠ did → a.authorizations.find other = b.authorizations.find other

/-- An entry written where its DID has no row is written over a row that it may replace. -/
theorem recordEntry_over {a b t : SourceStore} {e : Entry} (hothers : SameOthers e.did a b)
    (habsent : a.authorizations.find e.did = none)
    (hfree : ∀ row, b.authorizations.find e.did = some row → row.Replaceable w e.grant)
    (h : recordEntry w a e = .ok (some t)) : ∃ t' row, recordEntry w b e = .ok (some t') ∧
      Written w b t' e row := by
  have hunique : (b.authorizations.rows.any fun r => r.1 != e.did && r.2.nonce == e.nonce) =
      a.authorizations.rows.any fun r => r.1 != e.did && r.2.nonce == e.nonce := by
    rw [Bool.eq_iff_iff, List.any_eq_true, List.any_eq_true]
    simp only [Prod.exists, Table.mem_rows, Bool.and_eq_true, bne_iff_ne, ne_eq]
    constructor <;> rintro ⟨other, row, hrow, hother, hnonce⟩ <;>
      refine ⟨other, row, ?_, hother, hnonce⟩
    · rw [hothers other hother, hrow]
    · rw [← hothers other hother, hrow]
  have hwrites : ∀ row, ∃ t', writeEntry w b e row = .ok (some t') := by
    intro row
    simp only [recordEntry, habsent] at h
    unfold writeEntry at h ⊢
    split at h
    · cases h
    · rw [hunique]
      simp only [guard_eq_ok] at h
      exact ⟨_, by rw [if_neg h.1]⟩
  have hrecords : ∃ t', recordEntry w b e = .ok (some t') := by
    unfold recordEntry
    cases hfound : b.authorizations.find e.did with
    | none => exact hwrites _
    | some row =>
      simp only [hfree row hfound, if_true]
      exact hwrites _
  obtain ⟨t', ht'⟩ := hrecords
  obtain ⟨row, hrow⟩ := recordEntry_ok ht'
  exact ⟨t', row, ht', hrow⟩

/-- A grant that is accepted where the DID has no row is accepted over a row that it may
replace. -/
theorem issue_over {a b t : SourceStore} {resolved : Resolution} {grant answer : SignedHandshake}
    {sign : Bytes → Bytes} {challenge : Bytes} (hothers : SameOthers did a b)
    (habsent : a.authorizations.find did = none)
    (hfree : ∀ row, b.authorizations.find did = some row → row.Replaceable w grant)
    (h : issue platform.toPlatform w a resolved grant sign challenge = .ok (t, answer))
    (hstored : (t.authorizations.find did).isSome) :
    ∃ t' answer' row, issue platform.toPlatform w b resolved grant sign challenge =
      .ok (t', answer') ∧ t'.authorizations.find did = some row ∧
      row.grantBytes = grant.payloadBytes ∧ row.grantSignature = grant.signature := by
  simp only [issue, bind_eq_ok] at h
  obtain ⟨⟨parsed, signed⟩, hparsed, _, howner, recorded, hrecorded, h⟩ := h
  cases recorded with
  | none =>
    simp only [bind_eq_ok, Except.ok.injEq, Prod.mk.injEq] at h
    obtain ⟨_, _, rfl, _⟩ := h
    rw [habsent] at hstored
    cases hstored
  | some t₁ =>
    simp only [Except.ok.injEq, Prod.mk.injEq] at h
    obtain ⟨rfl, rfl⟩ := h
    obtain ⟨written, hwritten⟩ := recordEntry_ok hrecorded
    obtain rfl : did = parsed.did := by
      by_contra hne
      rw [hwritten.result] at hstored
      simp only [Table.find_insert, hne, if_false, habsent] at hstored
      cases hstored
    obtain ⟨t', row, hrecord, hrow⟩ := recordEntry_over hothers habsent hfree hrecorded
    refine ⟨t', signed, row, ?_, ?_, hrow.grant, hrow.signature⟩
    · simp only [issue, hparsed, howner, hrecord, ok_bind]
    · rw [hrow.result]
      exact Table.find_insert_self _ _ _

theorem authorize_over {w : SourceSurroundings} {a b t : SourceStore} {resolved : StrictResolution}
    {grant answer : SignedHandshake} (hothers : SameOthers did a b)
    (habsent : a.authorizations.find did = none)
    (hfree : ∀ row, b.authorizations.find did = some row → row.Replaceable w.toSurroundings grant)
    (h : authorize platform w a resolved grant = .ok (t, answer))
    (hstored : (t.authorizations.find did).isSome) :
    ∃ t' answer' row, authorize platform w b resolved grant = .ok (t', answer') ∧
      t'.authorizations.find did = some row ∧ row.grantBytes = grant.payloadBytes ∧
      row.grantSignature = grant.signature := by
  simp only [authorize, bind_eq_ok] at h
  obtain ⟨⟨parsed, key, signed⟩, hparsed, recorded, hrecorded, h⟩ := h
  cases recorded with
  | none =>
    simp only [bind_eq_ok, Except.ok.injEq, Prod.mk.injEq] at h
    obtain ⟨_, _, rfl, _⟩ := h
    rw [habsent] at hstored
    cases hstored
  | some t₁ =>
    simp only [Except.ok.injEq, Prod.mk.injEq] at h
    obtain ⟨rfl, rfl⟩ := h
    obtain ⟨written, hwritten⟩ := recordEntry_ok hrecorded
    obtain rfl : did = parsed.did := by
      by_contra hne
      rw [hwritten.result] at hstored
      simp only [Table.find_insert, hne, if_false, habsent] at hstored
      cases hstored
    obtain ⟨t', row, hrecord, hrow⟩ := recordEntry_over hothers habsent hfree hrecorded
    refine ⟨t', signed, row, ?_, ?_, hrow.grant, hrow.signature⟩
    · simp only [authorize, hparsed, hrecord, ok_bind]
    · rw [hrow.result]
      exact Table.find_insert_self _ _ _

/-- A welcome grant is accepted in a later state whose row of the DID it may replace. -/
theorem Welcome.accepted_over {e : SourceEvent} (h : Welcome platform s did stale identityKey e)
    (hothers : SameOthers did (s.without did).store t.store) (hclock : t.clock ≤ e.surroundings.now)
    (hfree : ∀ row grant, t.store.authorizations.find did = some row →
      e.call.presented = some grant → row.Replaceable e.surroundings.toSurroundings grant) :
    ∃ t', sourceStep platform t e = some t' ∧
      ∃ row, t'.store.authorizations.find did = some row ∧ row.HoldsOther stale := by
  obtain ⟨w, call⟩ := e
  obtain ⟨howner, ⟨grant, hpresented, hnew⟩, clean, hstep, hstored⟩ := h
  have habsent : (s.without did).store.authorizations.find did = none := by
    simp only [SourceState.without, find_deleteRow, if_true]
  unfold sourceStep at hstep
  split at hstep
  · rename_i htimely
    rw [toOption_eq_some] at hstep
    have htimely' : t.Timely w.toSurroundings := ⟨hclock, htimely.2⟩
    cases call with
    | issue resolved grant' sign challenge =>
      cases hpresented
      simp only [SourceCall.run, bind_eq_ok, Except.ok.injEq] at hstep
      obtain ⟨⟨store, answer⟩, hissue, rfl⟩ := hstep
      obtain ⟨store', answer', row, hissue', hrow, hbytes, hsignature⟩ :=
        issue_over hothers habsent (fun row hrow => hfree row _ hrow rfl) hissue hstored
      refine ⟨{ t with store := store', clock := w.now }, ?_, row, hrow, ?_⟩
      · simp only [sourceStep, if_pos htimely', SourceCall.run, hissue', ok_bind]
        rfl
      · rwa [Authorization.HoldsOther, hbytes, hsignature]
    | authorize resolved grant' =>
      cases hpresented
      simp only [SourceCall.run, bind_eq_ok, Except.ok.injEq] at hstep
      obtain ⟨⟨store, answer⟩, hauthorize, rfl⟩ := hstep
      obtain ⟨store', answer', row, hauthorize', hrow, hbytes, hsignature⟩ :=
        authorize_over hothers habsent (fun row hrow => hfree row _ hrow rfl) hauthorize hstored
      refine ⟨{ t with store := store', clock := w.now }, ?_, row, hrow, ?_⟩
      · simp only [sourceStep, if_pos htimely', SourceCall.run, hauthorize', ok_bind]
        rfl
      · rwa [Authorization.HoldsOther, hbytes, hsignature]
    | _ => cases hpresented
  · cases hstep

theorem sameOthers_without (s : SourceState) (did : Did) :
    SameOthers did (s.without did).store s.store := by
  intro other hother
  simp only [SourceState.without, find_deleteRow, if_neg hother]

/-- An unconfirmed or a cancelled row gives way at once. -/
theorem Welcome.released {e : SourceEvent} (h : Welcome platform s did stale identityKey e)
    (hfound : s.store.authorizations.find did = some stale) (hexpired : stale.expiresAt ≤ s.clock)
    (hunconsumed : stale.consumedTransferId = none)
    (hfree : stale.originConfirmedAt = none ∨ stale.cancelledAt.isSome) :
    Released platform s did stale identityKey := by
  have htimely : s.clock ≤ e.surroundings.now ∧
      e.surroundings.databaseNow = e.surroundings.now := by
    obtain ⟨t, hstep, _⟩ := h.accepted
    unfold sourceStep at hstep
    split at hstep
    · rename_i htimely
      exact htimely
    · cases hstep
  obtain ⟨t, hstep, row, hrow, hother⟩ := h.accepted_over (sameOthers_without s did) htimely.1 (by
    intro row grant hrow hpresented
    obtain rfl : stale = row := Option.some.inj (hfound.symm.trans hrow)
    obtain ⟨grant', hpresented', hnew⟩ := h.new
    obtain rfl : grant = grant' := Option.some.inj (hpresented.symm.trans hpresented')
    refine ⟨hunconsumed, hfree.imp_left fun hunconfirmed => ⟨?_, hunconfirmed⟩, ?_⟩
    · have hnow := htimely.2
      omega
    · exact hnew.imp Ne.symm Ne.symm)
  exact ⟨t, .next e .refl h.owner hstep, row, hrow, hother⟩

/-- The owner's cancellation of an uncancelled grant that verifies is accepted. -/
theorem OwnerCancellation.accepted {w : SourceSurroundings} {resolved : Resolution}
    {signed : SignedHandshake}
    (h : OwnerCancellation platform s did stale identityKey w resolved signed)
    (hfound : s.store.authorizations.find did = some stale)
    (hunfenced : s.store.fences.find did = none) (hunconsumed : stale.consumedTransferId = none)
    (huncancelled : stale.cancelledAt = none)
    (hverified : (verifyHandshake platform.toPlatform .grant
      ⟨stale.grantBytes, stale.grantSignature⟩ identityKey).isOk) :
    ∃ t, sourceStep platform s ⟨w, .cancel resolved signed⟩ = some t ∧ t.clock = w.now ∧
      t.store.authorizations = s.store.authorizations.insert did
        { stale with cancelledAt := some w.databaseNow } := by
  obtain ⟨sign, hadmitted, hreceipts⟩ := h.admitted
  obtain ⟨grant, hgrant⟩ := isOk_iff.1 hverified
  obtain ⟨receipt, hreceipt⟩ := isOk_iff.1 (hreceipts grant (verifyHandshake_ok hgrant))
  have hcancel : ∃ store, cancel platform.toPlatform w s.store resolved signed =
      .ok (store, receipt) ∧ store.authorizations = s.store.authorizations.insert did
        { stale with cancelledAt := some w.databaseNow } := by
    refine ⟨{ s.store with
      authorizations := s.store.authorizations.insert did
        { stale with cancelledAt := some w.databaseNow }
      custody := s.store.custody.update did fun row => { row with
        cancellation := some signed
        receipt := some receipt } }, ?_, ?_⟩
    · simp only [cancel, hadmitted, ok_bind, hfound, ne_eq, not_true_eq_false, or_self, if_false,
        h.current, hgrant, huncancelled, Option.isSome_none, Bool.false_eq_true, hunconsumed,
        hunfenced, TransferGrant.of, hreceipt, h.unrefused]
    · rfl
  obtain ⟨store, hstore, hauthorizations⟩ := hcancel
  refine ⟨{ s with
    store := store
    clock := w.now
    receipts := (namedGrant platform s.store signed).toList ++ s.receipts }, ?_, rfl,
    hauthorizations⟩
  simp only [sourceStep, if_pos h.timely, SourceCall.run, hstore, ok_bind]
  rfl

/-- A confirmed grant that verifies gives way once it is cancelled. -/
theorem Welcome.released_cancelled {e : SourceEvent} {w : SourceSurroundings}
    {resolved : Resolution} {signed : SignedHandshake}
    (h : Welcome platform s did stale identityKey e)
    (hcancellation : OwnerCancellation platform s did stale identityKey w resolved signed)
    (hlater : w.now ≤ e.surroundings.now)
    (hfound : s.store.authorizations.find did = some stale)
    (hunfenced : s.store.fences.find did = none) (hunconsumed : stale.consumedTransferId = none)
    (huncancelled : stale.cancelledAt = none)
    (hverified : (verifyHandshake platform.toPlatform .grant
      ⟨stale.grantBytes, stale.grantSignature⟩ identityKey).isOk) :
    Released platform s did stale identityKey := by
  obtain ⟨u, hcancel, hclock, hrows⟩ :=
    hcancellation.accepted hfound hunfenced hunconsumed huncancelled hverified
  have hothers : SameOthers did (s.without did).store u.store := by
    intro other hother
    rw [sameOthers_without s did other hother, hrows, Table.find_insert_of_ne _ _ hother]
  obtain ⟨t, hstep, row, hrow, hother⟩ := h.accepted_over hothers (hclock ▸ hlater) (by
    intro row grant hrow hpresented
    rw [hrows, Table.find_insert_self] at hrow
    cases hrow
    obtain ⟨grant', hpresented', hnew⟩ := h.new
    obtain rfl : grant = grant' := Option.some.inj (hpresented.symm.trans hpresented')
    exact ⟨hunconsumed, .inr rfl, hnew.imp Ne.symm Ne.symm⟩)
  have howner : OwnerCall identityKey ⟨w, .cancel resolved signed⟩ := hcancellation.current
  exact ⟨t, .next e (.next _ .refl howner hcancel) h.owner hstep, row, hrow, hother⟩

/-- A written entry leaves a row that does not give way. -/
theorem Written.keeps_blocked {a b : SourceStore} {e : Entry} {row : Authorization}
    (h : Written w a b e row) (hfound : a.authorizations.find did = some stale)
    (hconfirmed : stale.originConfirmedAt ≠ none) (huncancelled : stale.cancelledAt = none) :
    b.authorizations.find did = some stale := by
  have hne : did ≠ e.did := by
    rintro rfl
    obtain ⟨_, hfree, _⟩ := h.free stale hfound
    rcases hfree with ⟨_, hunconfirmed⟩ | hcancelled
    · exact hconfirmed hunconfirmed
    · rw [huncancelled] at hcancelled
      cases hcancelled
  rw [h.result]
  exact (Table.find_insert_of_ne _ _ hne).trans hfound

/-- No cleanup run and no call of the owner changes a row that does not give way. -/
theorem ownerCall_blocked {e : SourceEvent} (howner : OwnerCall identityKey e)
    (hfound : s.store.authorizations.find did = some stale)
    (hblocked : ¬GivesWay platform stale identityKey) (hstep : sourceStep platform s e = some t) :
    t.store.authorizations.find did = some stale := by
  simp only [GivesWay, not_or] at hblocked
  obtain ⟨hconfirmed, hnotCancelled, hunverified⟩ := hblocked
  have huncancelled : stale.cancelledAt = none := by simpa using hnotCancelled
  obtain ⟨w, call⟩ := e
  unfold sourceStep at hstep
  split at hstep
  · rw [toOption_eq_some] at hstep
    cases call with
    | issue resolved grant sign challenge =>
      simp only [SourceCall.run, bind_eq_ok, Except.ok.injEq] at hstep
      obtain ⟨⟨store, _⟩, hissue, rfl⟩ := hstep
      obtain ⟨_, _, rfl | ⟨_, row, hwritten⟩⟩ := issue_ok hissue
      · exact hfound
      · exact hwritten.keeps_blocked hfound hconfirmed huncancelled
    | authorize resolved grant =>
      simp only [SourceCall.run, bind_eq_ok, Except.ok.injEq] at hstep
      obtain ⟨⟨store, _⟩, hauthorize, rfl⟩ := hstep
      obtain ⟨_, rfl | ⟨_, row, _, hwritten⟩⟩ := authorize_ok hauthorize
      · exact hfound
      · exact hwritten.keeps_blocked hfound hconfirmed huncancelled
    | cancel resolved signed =>
      simp only [SourceCall.run, bind_eq_ok, Except.ok.injEq] at hstep
      obtain ⟨⟨store, _⟩, hcancel, rfl⟩ := hstep
      obtain ⟨other, row, hcancels, ⟨rfl, _⟩ | ⟨_, hfirst⟩⟩ := cancel_ok hcancel
      · exact hfound
      · obtain ⟨at', hat⟩ := hfirst.authorizations
        have hne : did ≠ other := by
          rintro rfl
          obtain rfl : stale = row := Option.some.inj (hfound.symm.trans hcancels.found)
          have hverified := hcancels.verified
          rw [show resolved.identityDidKey = identityKey from howner] at hverified
          exact hunverified hverified
        exact hat ▸ (Table.find_insert_of_ne _ _ hne).trans hfound
    | cleanup other =>
      simp only [SourceCall.run, Except.ok.injEq] at hstep
      subst hstep
      rcases cleanupSource_cases w.toSurroundings s.store other with
        hsame | ⟨row, hrow, hstale, hdeleted⟩
      · rw [hsame]
        exact hfound
      · have hne : did ≠ other := by
          rintro rfl
          obtain rfl : stale = row := Option.some.inj (hfound.symm.trans hrow)
          exact hconfirmed hstale.2.2.1
        simp only [hdeleted, find_deleteRow, if_neg hne]
        exact hfound
    | _ => exact absurd howner id
  · cases hstep

/-- A row that does not give way stays in every run of cleanups and calls of the owner. -/
theorem not_released (hfound : s.store.authorizations.find did = some stale)
    (hblocked : ¬GivesWay platform stale identityKey) :
    ¬Released platform s did stale identityKey := by
  rintro ⟨t, hrun, row, hrow, hother⟩
  have hkept := hrun.invariant (I := fun u => u.store.authorizations.find did = some stale) hfound
    fun e hs howner hstep => ownerCall_blocked howner hs hblocked hstep
  obtain rfl : stale = row := Option.some.inj (hkept.symm.trans hrow)
  exact hother.elim (· rfl) (· rfl)

/-- An authorization that expired unconsumed, without a fence, is released by some sequence of
cleanup runs and calls of the owner exactly when it gives way: whenever the owner has a new grant
that a provider without the stale row accepts, and a cancellation of the stale one. -/
theorem stale_authorization_released {e : SourceEvent} {w : SourceSurroundings}
    {resolved : Resolution} {signed : SignedHandshake}
    (hfound : s.store.authorizations.find did = some stale)
    (hunfenced : s.store.fences.find did = none) (hexpired : stale.expiresAt ≤ s.clock)
    (hunconsumed : stale.consumedTransferId = none)
    (hnew : Welcome platform s did stale identityKey e)
    (hcancellation : OwnerCancellation platform s did stale identityKey w resolved signed)
    (hlater : w.now ≤ e.surroundings.now) :
    Released platform s did stale identityKey ↔ GivesWay platform stale identityKey := by
  constructor
  · intro hreleased
    by_contra hblocked
    exact not_released hfound hblocked hreleased
  · intro hgives
    by_cases hfree : stale.originConfirmedAt = none ∨ stale.cancelledAt.isSome
    · exact hnew.released hfound hexpired hunconsumed hfree
    · rw [not_or] at hfree
      have hverified := (hgives.resolve_left hfree.1).resolve_left hfree.2
      exact hnew.released_cancelled hcancellation hlater hfound hunfenced hunconsumed
        (by simpa using hfree.2) hverified

namespace Sample

open Grants Grants.Sample Custody.Sample

/-- The destination's offer for Alice's first grant. -/
def offerPayload : Bytes :=
  transferBytes "offer" firstNonce
    [("issued_at", .int 1787851350), ("expires_at", .int 1787854600),
     ("transfer_id", .text "01954144-4444-4444-8444-00000000000a"),
     ("grant_digest", .bytes (beBytes 32 grantDigest)),
     ("invitation_digest", .bytes (beBytes 32 invitationDigest)),
     ("source_service_base", .text "https://alice.example/hail"),
     ("invitation_challenge", .bytes (beBytes 32 firstChallenge)),
     ("destination_rotation_key", .text "did:key:z6MkrzJ8Q2hYCZ11BTL4YoxWQd44kx8JmvYBRY1ewVHowq2F"),
     ("destination_service_base", .text "https://beta.example/hail"),
     ("destination_messaging_key", .text betaKey)]

def offerSignature : Bytes := words
  [0xec03278be098c6acb62fc1d3833c36cc16bacaaa5d2ef3a464b3a8b358a8a1cc,
   0xd79093342646388650560182360106bd118765935e9a00262fa84d795babe70c]

def nextNonce : Uuid := "01954144-5555-4555-8555-00000000000c"

def nextChallenge : Nat := 0xd732644829dd36206f99e9728cc2a9491fb2db6e9df8f384e027a13fc7171433

def nextDigest : Nat := 0x6c7d2e9e80b1f16ac695d4ef82b15ebb2f45a70275982723eb0ae78f3d322922

/-- A grant under Alice's next identity key, after the first one has expired. -/
def nextGrant : Bytes := transferGrant nextNonce 1787854750 1787858000

def nextGrantSignature : Bytes := words
  [0x9ab0ae74dde209b5ab2fdaf92d6b6ed6d1fe0ce793b4adc20d950f5479e97beb,
   0x2583dd6f71aa99b2eee19fac36c5861eabc3adfc9c6260b1cad8d52d065fe20a]

/-- The source's acknowledgement of it. -/
def nextInvitation : Bytes :=
  transferInvitation nextNonce nextChallenge 1787858000 nextDigest

def nextInvitationSignature : Bytes := words
  [0xc8cb475201ce44bc1f320a90362cb06862fe6550c6aed75ca666dc46137c91c8,
   0xcb1b7386f86519c9ef0c1398fa5c05010753bc16c41313028a0f438127a16309]

/-- Alice's cancellation of the first grant, under her next identity key. -/
def nextCancellation : Bytes := transferCancellation 1787854750 1787858000

def nextCancellationSignature : Bytes := words
  [0x3e36015d90fd2abc492b58dc62907ca9a20beabdd494858205a5cb7ab2b836f8,
   0xb7836145b3fb2940b813dd7ae39d89a900fc167033f74d742b2c2b209f73560d]

/-- The receipt that the source would sign for it. -/
def nextReceipt : Bytes := cancellationReceipt 1787854760

def nextReceiptSignature : Bytes := words
  [0xc31557055b5d4f1a6906bde652c71ca838d63e47024ca1510b0131bad5c81920,
   0x0af989c2af9bbcd7d1161d329ddaf6df1c45cf5bf0c3160bb77e69c38f43e30c]

def laterSignatures : List Signature :=
  [(ownerKey, .grant, grantPayload, grantSignature),
    (messagingKey, .invitation, invitationPayload, invitationSignature),
    (betaKey, .offer, offerPayload, offerSignature),
    (nextKey, .grant, nextGrant, nextGrantSignature),
    (messagingKey, .invitation, nextInvitation, nextInvitationSignature),
    (nextKey, .cancellation, nextCancellation, nextCancellationSignature),
    (messagingKey, .cancellationReceipt, nextReceipt, nextReceiptSignature)]

def laterPlatform : TransferPlatform := platformWith laterSignatures
  [(grantPayload, grantDigest), (invitationPayload, invitationDigest), (nextGrant, nextDigest)]

/-- Alice's first grant is issued and delivered, and expires; a cleanup run finds nothing. -/
def staleEvents : List SourceEvent :=
  [⟨ownedAt ownerKey laterSignatures 1787851300, .issue (resolution ownerKey) firstGrant
      (signsWith laterSignatures messagingKey)
      (beBytes 32 firstChallenge)⟩,
    ⟨ownedAt ownerKey laterSignatures 1787851340, .read alice (resolution ownerKey)
      (resolution ownerKey)⟩,
    ⟨ownedAt ownerKey laterSignatures 1787851360, .respond (resolution ownerKey) 0
      ⟨offerPayload, offerSignature⟩⟩,
    ⟨ownedAt nextKey laterSignatures 1787854750, .cleanup alice⟩]

/-- The first grant, with the offer that the destination answered. -/
def confirmed : Authorization := { invited with
  originRequestBytes := some offerPayload
  originRequestSignature := some offerSignature
  originConfirmedAt := some 1787851360000 }

def issueNext : SourceEvent := ⟨ownedAt nextKey laterSignatures 1787854760,
  .issue (resolution nextKey) ⟨nextGrant, nextGrantSignature⟩
    (signsWith laterSignatures messagingKey)
    (beBytes 32 nextChallenge)⟩

/-- The first grant is stored, confirmed and expired; the provider would accept Alice's next grant
if it held no authorization of hers. -/
theorem staleEvents_run : ∃ s, exec (sourceStep laterPlatform) .initial staleEvents = some s ∧
    s.store.authorizations.find alice = some confirmed ∧ s.store.fences.find alice = none ∧
    s.clock = 1787854750000 ∧ Welcome laterPlatform s alice confirmed nextKey issueNext := by
  have hrun : (exec (sourceStep laterPlatform) .initial staleEvents).any (fun s =>
      decide (s.store.authorizations.find alice = some confirmed) &&
        decide (s.store.fences.find alice = none) && decide (s.clock = 1787854750000) &&
        (sourceStep laterPlatform (s.without alice) issueNext).any
          fun t => (t.store.authorizations.find alice).isSome) = true := by
    decide +kernel
  obtain ⟨s, hs, hfacts⟩ := (Option.any_eq_true _ _).1 hrun
  simp only [Bool.and_eq_true, decide_eq_true_eq, Option.any_eq_true] at hfacts
  obtain ⟨⟨⟨hfound, hfence⟩, hclock⟩, haccepted⟩ := hfacts
  have hnew : nextGrant ≠ grantPayload := by decide +kernel
  exact ⟨s, hs, hfound, hfence, hclock, rfl, ⟨_, rfl, .inl hnew⟩, haccepted⟩

/-- The next cancellation is admitted, and its receipt is signed. -/
def nextCancellationSigned : Bool :=
  match admitCancellation laterPlatform.toPlatform
      (ownedAt nextKey laterSignatures 1787854760) (resolution nextKey)
        ⟨nextCancellation, nextCancellationSignature⟩,
    decodeDeterministic laterPlatform.toPlatform confirmed.grantBytes with
  | .ok (cancellation, sign), .ok (.map value) =>
    decide (cancellation =
      ⟨alice, confirmed.nonce, laterPlatform.sha256 confirmed.grantBytes⟩) &&
    (signHandshake laterPlatform.toPlatform .cancellationReceipt
      (receiptRecord laterPlatform.toPlatform
        (ownedAt nextKey laterSignatures 1787854760).toSurroundings alice confirmed.nonce
        (laterPlatform.sha256 confirmed.grantBytes) confirmed.invitationBytes
        (textOf value "destination_domain")) sign).isOk
  | _, _ => false

/-- Alice cancels her first grant under her next identity key, and the source can sign. -/
theorem nextCancellation_ready :
    ∃ sign, admitCancellation laterPlatform.toPlatform (ownedAt nextKey laterSignatures 1787854760)
      (resolution nextKey) ⟨nextCancellation, nextCancellationSignature⟩ =
        .ok (⟨alice, confirmed.nonce, laterPlatform.sha256 confirmed.grantBytes⟩, sign) ∧
    ∀ value, decodeDeterministic laterPlatform.toPlatform confirmed.grantBytes =
        .ok (.map value) →
      (signHandshake laterPlatform.toPlatform .cancellationReceipt
        (receiptRecord laterPlatform.toPlatform
          (ownedAt nextKey laterSignatures 1787854760).toSurroundings alice confirmed.nonce
          (laterPlatform.sha256 confirmed.grantBytes) confirmed.invitationBytes
          (textOf value "destination_domain")) sign).isOk := by
  have hready : nextCancellationSigned = true := by decide +kernel
  unfold nextCancellationSigned at hready
  split at hready
  · rename_i cancellation sign entries hadmitted hdecoded
    rw [Bool.and_eq_true, decide_eq_true_eq] at hready
    obtain ⟨rfl, hsigned⟩ := hready
    refine ⟨sign, hadmitted, fun value hvalue => ?_⟩
    rw [hdecoded] at hvalue
    cases hvalue
    exact hsigned
  · cases hready

theorem confirmed_blocked : ¬GivesWay laterPlatform confirmed nextKey := by
  unfold GivesWay
  decide +kernel

end Sample

/-- After a change of the identity key, a confirmed grant that has expired is not released, though
the provider would accept the owner's next grant without it. -/
theorem stale_authorization_released_changed : ∃ s,
    exec (sourceStep Sample.laterPlatform) .initial Sample.staleEvents = some s ∧
    (Released Sample.laterPlatform s Grants.Sample.alice Sample.confirmed Sample.nextKey ↔
      GivesWay Sample.laterPlatform Sample.confirmed Sample.nextKey) := by
  obtain ⟨s, hs, hfound, hunfenced, hclock, hnew⟩ := Sample.staleEvents_run
  have hcancellation : OwnerCancellation Sample.laterPlatform s Grants.Sample.alice
      Sample.confirmed Sample.nextKey
      (Sample.ownedAt Sample.nextKey Sample.laterSignatures 1787854760)
      (Sample.resolution Sample.nextKey)
      ⟨Sample.nextCancellation, Sample.nextCancellationSignature⟩ := by
    refine ⟨⟨?_, rfl⟩, rfl, rfl, Sample.nextCancellation_ready⟩
    rw [hclock]
    decide
  exact ⟨s, hs, stale_authorization_released hfound hunfenced (by rw [hclock]; decide) rfl hnew
    hcancellation (by decide)⟩

/-- Not every stale authorization is released by cleanup runs and calls of the owner. -/
theorem stale_authorization_blocks : ¬∀ s did stale identityKey e,
    Reachable (sourceStep Sample.laterPlatform) .initial s →
    s.store.fences.find did = none → s.store.authorizations.find did = some stale →
    stale.expiresAt ≤ s.clock → stale.consumedTransferId = none →
    Welcome Sample.laterPlatform s did stale identityKey e →
    Released Sample.laterPlatform s did stale identityKey := by
  intro hall
  obtain ⟨s, hs, hfound, hunfenced, hclock, hnew⟩ := Sample.staleEvents_run
  have hreleased := hall s _ _ _ _ (reachable_of_exec hs) hunfenced hfound
    (by rw [hclock]; decide) rfl hnew
  exact not_released hfound Sample.confirmed_blocked hreleased

end HailProto.Migration
