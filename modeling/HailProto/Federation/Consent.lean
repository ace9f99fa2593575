import HailProto.Federation.Discipline

/-!
# Dual consent binds every activation

An active event is inserted only under a bundle both parties signed, which the inviter's
provider admitted and which names the epoch the pair stands at. The checks are made in three
places: on the bundle, on the two controls that bind it, and in the transaction against the
row. Results remember the bundle by its digest, so every request on one base epoch is answered
from the same event.
-/

namespace HailProto.Federation

open Server
open Messages (PairState)

variable {platform : Platform}

theorem inspected_ok {α : Type} {payload : Option α} {value : α}
    (h : inspected payload = .ok value) : payload = some value := by
  cases payload with
  | none => cases h
  | some found =>
    cases h
    rfl

/-- A representation whose payload names a DID is signed by the key the resolver has for it. -/
def SignedBy (platform : Platform) (reads : Reads) (role : KeyRole) (did : Did)
    (bytes : Bytes) : Prop :=
  ∃ resolved, reads.resolve did = .ok resolved ∧
    platform.signatureValid (match role with
      | .identity => resolved.identityDidKey
      | .messaging => resolved.messagingDidKey) bytes = true

theorem verifySigned_ok {payloadKeyId kid key : String} {bytes : Bytes} {u : Unit}
    (h : verifySigned platform payloadKeyId kid key bytes = .ok u) :
    payloadKeyId = kid ∧ platform.signatureValid key bytes = true := by
  simp only [verifySigned, guard_eq_ok, not_not, ne_eq, Bool.not_eq_true', Bool.not_eq_false] at h
  exact ⟨h.1, h.2.1⟩

theorem checkedControl_ok {reads : Reads} {bytes : Bytes} {operation : ControlOperation}
    {fresh : Bool} {payload : Control} {state : Resolved}
    (h : checkedControl platform reads bytes operation fresh = .ok (payload, state)) :
    platform.inspectControl bytes = some payload ∧ payload.operation = operation ∧
      SignedBy platform reads .messaging payload.fromDid bytes := by
  simp only [checkedControl, bind_eq_ok, guard_eq_ok, not_not, ne_eq, Except.ok.injEq,
    Prod.mk.injEq] at h
  obtain ⟨payload', hpayload, hoperation, state', hstate, _, _, _, hsigned, _, rfl, rfl⟩ := h
  exact ⟨inspected_ok hpayload, hoperation, state', hstate, (verifySigned_ok hsigned).2⟩

theorem verify_ok {reads : Reads} {bytes : Bytes} {operation : ControlOperation} {fresh : Bool}
    {payload : Control} (h : verify platform reads bytes operation fresh = .ok payload) :
    platform.inspectControl bytes = some payload ∧ payload.operation = operation ∧
      SignedBy platform reads .messaging payload.fromDid bytes := by
  simp only [verify, bind_eq_ok, Prod.exists, Except.ok.injEq] at h
  obtain ⟨payload', state, hchecked, rfl⟩ := h
  exact checkedControl_ok hchecked

/-- What a verified bundle proves of the two parties and the coordinator. -/
structure BundleVerified (platform : Platform) (reads snapshotReads : Reads) (bytes : Bytes)
    (v : Verified) : Prop where
  decoded : decodeBundle platform bytes = .ok v.b
  invitation : platform.inspectInvitation v.b.invitation = some v.invitation
  invitation_signed : SignedBy platform reads .identity v.invitation.fromDid v.b.invitation
  invitation_unexpired : ∀ e, v.invitation.expiresAt = some e → reads.now < e
  confirmation : platform.inspectConfirmation v.b.confirmation = some v.confirmation
  confirmation_signed : SignedBy platform reads .identity v.confirmation.fromDid v.b.confirmation
  confirmation_unexpired : reads.now < v.confirmation.expiresAt
  linked : v.confirmation.toDid = v.invitation.fromDid ∧
    v.confirmation.invitationId = v.invitation.invitationId ∧
    v.confirmation.invitationHash = platform.sha256 v.b.invitation
  inviter : v.inviter.did = v.invitation.fromDid
  scanner : v.scanner.did = v.confirmation.fromDid
  snapshot : platform.inspectControl v.b.snapshot = some v.snapshot
  snapshot_operation : v.snapshot.operation = .snapshot
  snapshot_signed : SignedBy platform snapshotReads .messaging v.snapshot.fromDid v.b.snapshot
  snapshot_parties : (v.snapshot.fromDid, v.snapshot.toDid) = sortDids v.inviter.did v.scanner.did
  snapshot_request : v.snapshot.requestId = v.confirmation.confirmationId
  snapshot_proof : v.snapshot.proofHash = platform.emptyHash
  proof : v.proof = platform.sha256 bytes

theorem verifyBundle_ok {reads snapshotReads : Reads} {bytes : Bytes} {v : Verified}
    (h : verifyBundle platform reads snapshotReads bytes true = .ok v) :
    BundleVerified platform reads snapshotReads bytes v := by
  simp only [verifyBundle, bind_eq_ok, guard_eq_ok, not_or, not_not, ne_eq, Except.ok.injEq,
    Prod.exists] at h
  obtain ⟨b, hb, invitation, hinvitation, confirmation, hconfirmation, inviter, hinviter, scanner,
    hscanner, ⟨hinviterDid, hscannerDid, hto, hid, hhash⟩, _, hinvitationSigned, _,
    hconfirmationSigned, ib, _, _, _, sb, _, _, _, ⟨_, _, hexpired⟩, snapshot, coordinator,
    hsnapshot, ⟨hfrom, hsnapshotTo, hrequest, hproof⟩, _, _, _, _, rfl⟩ := h
  obtain ⟨hcontrol, hoperation, hsigned⟩ := checkedControl_ok hsnapshot
  simp only [consentExpired, Bool.true_and, Bool.or_eq_true, decide_eq_true_eq, not_or, not_le,
    Bool.not_eq_true] at hexpired
  obtain ⟨_, hconfirmationLive, hinvitationLive⟩ := hexpired
  refine ⟨hb, inspected_ok hinvitation, ⟨inviter, hinviter, (verifySigned_ok hinvitationSigned).2⟩,
    ?_, inspected_ok hconfirmation, ⟨scanner, hscanner, (verifySigned_ok hconfirmationSigned).2⟩,
    hconfirmationLive, ⟨hto, hid, hhash⟩, hinviterDid, hscannerDid, hcontrol, hoperation, hsigned,
    Prod.ext hfrom hsnapshotTo, hrequest, hproof, rfl⟩
  intro e he
  rw [he, Option.any_some, decide_eq_false_iff_not, not_le] at hinvitationLive
  exact hinvitationLive

theorem checkMatches_ok {control : Control} {v : Verified} {actor : Did} {u : Unit}
    (h : control.checkMatches v actor = .ok u) :
    control.fromDid = actor ∧
      control.toDid = (if actor = v.inviter.did then v.scanner.did else v.inviter.did) ∧
      control.requestId = v.confirmation.confirmationId ∧ control.proofHash = v.proof ∧
      control.toStanding = v.snapshot.toStanding ∧
      (control.operation = .admission → control.issuedAt < v.confirmation.expiresAt ∧
        ∀ e, v.invitation.expiresAt = some e → control.issuedAt < e) := by
  simp only [Control.checkMatches, guard_eq_ok, not_or, not_not, ne_eq, not_and] at h
  obtain ⟨⟨hfrom, hto, hrequest, hproof, hstanding⟩, hissued, _⟩ := h
  refine ⟨hfrom, hto, hrequest, hproof, hstanding, ?_⟩
  intro hadmission
  obtain ⟨hlive, hinvitation⟩ := hissued hadmission
  refine ⟨not_le.1 hlive, ?_⟩
  intro e he
  rw [he, Option.any_some, decide_eq_true_eq, not_le] at hinvitation
  exact hinvitation

theorem sortDids_comm {a b : Did} (h : a ≠ b) : sortDids a b = sortDids b a := by
  unfold sortDids
  rcases lt_trichotomy a b with hlt | heq | hgt
  · rw [if_pos hlt, if_neg (not_lt_of_gt hlt)]
  · exact absurd heq h
  · rw [if_neg (not_lt_of_gt hgt), if_pos hgt]

/-- The consent a connect request was admitted under, for a pair that stands at `base`. -/
structure DualConsent (platform : Platform) (call : ConnectCall) (base : Standing)
    (v : Verified) (admission : Control) : Prop where
  bundle : BundleVerified platform call.bundleReads call.snapshotReads call.bytes v
  /-- The two signers are the parties of the pair. -/
  parties : sortDids v.invitation.fromDid v.confirmation.fromDid = (call.owner.did, call.peer)
  distinct : v.invitation.fromDid ≠ v.confirmation.fromDid
  /-- The confirmation is also unexpired when the event is inserted. -/
  confirmation_unexpired : call.tx.now < v.confirmation.expiresAt
  /-- The inviter's provider admitted this bundle at this epoch, within the consent window. -/
  admission_signed : platform.inspectControl call.admissionBytes = some admission ∧
    admission.operation = .admission ∧ admission.fromDid = v.invitation.fromDid ∧
    SignedBy platform call.admissionReads .messaging v.invitation.fromDid call.admissionBytes
  admission_binds : admission.requestId = call.request.requestId ∧
    admission.proofHash = platform.sha256 call.bytes ∧ admission.toStanding = base ∧
    admission.issuedAt < v.confirmation.expiresAt
  /-- The coordinator's snapshot in the bundle is what the pair stands at. -/
  snapshot : v.snapshot.fromDid = call.owner.did ∧ v.snapshot.toDid = call.peer ∧
    v.snapshot.toStanding = base
  request : call.request.requestId = v.confirmation.confirmationId

/-- The coordinator's snapshot in a bundle: its parties and the epoch the consent is for. -/
def bundleSnapshot (platform : Platform) (bytes : Bytes) : Option Control :=
  (decodeBundle platform bytes).toOption.bind fun b => platform.inspectControl b.snapshot

theorem BundleVerified.bundleSnapshot {reads snapshotReads : Reads} {bytes : Bytes}
    {v : Verified} (h : BundleVerified platform reads snapshotReads bytes v) :
    bundleSnapshot platform bytes = some v.snapshot := by
  rw [Federation.bundleSnapshot, h.decoded]
  exact h.snapshot

/-- The epoch that answers a consent: the base itself while it is active, else the next. -/
def answerEpoch (base : Nat) : Nat := if base % 2 = 1 then base else base + 1

/-- No two inputs the platform digests collide. -/
def CollisionFree (platform : Platform) : Prop := Function.Injective platform.sha256

/-- The codec reads a record that it wrote: the one of a disconnect proof has one text field. -/
def ReadsConnection (platform : Platform) : Prop :=
  ∀ id, platform.decodeRecord (platform.encodeConnection id) = some [("connection_id", none)]

/-- A result answers the consent its digest stands for. -/
def ResultSound (platform : Platform) (accounts : Did → Uuid) (row : ResultRow) : Prop :=
  match row.action with
  | .connect => ∃ bytes base, row.proofDigest = platform.sha256 bytes ∧
      bundleSnapshot platform bytes = some base ∧
      row.pair = (accounts base.fromDid, base.toDid) ∧
      row.event = (row.pair, answerEpoch base.epoch)
  | .disconnect => ∃ id, row.proofDigest = platform.sha256 (platform.encodeConnection id)

/-- The bundle of a disconnect's proof does not decode. -/
theorem bundleSnapshot_encodeConnection (h : ReadsConnection platform) (id : Uuid) :
    bundleSnapshot platform (platform.encodeConnection id) = none := by
  have hfields : (!(["connection_id"] : List String).isPerm bundleFields) = true := by decide
  have hdecode : decodeBundle platform (platform.encodeConnection id) = .error (.status 400) := by
    simp only [decodeBundle, h id, List.map_cons, List.map_nil, hfields, if_true]
  rw [bundleSnapshot, hdecode]
  rfl

namespace Store

variable {s t : Store}

/-- The parties of an admitted request. -/
theorem Admitted.parties {call : ConnectCall} {v : Verified} {admission : Control}
    (h : Admitted platform call v admission) :
    sortDids v.inviter.did v.scanner.did = (call.owner.did, call.peer) ∧
      v.inviter.did ≠ v.scanner.did := by
  obtain ⟨hfrom, hto, _⟩ := checkMatches_ok h.request_matches
  have hinviter : call.request.toDid = v.inviter.did := by
    rw [hto]
    by_cases heq : v.scanner.did = v.inviter.did
    · rw [if_pos heq, heq]
    · rw [if_neg heq]
  have hne : v.inviter.did ≠ v.scanner.did := by
    rw [← hinviter, ← hfrom]
    exact call.distinct.symm
  refine ⟨?_, hne⟩
  rw [sortDids_comm hne, ← hinviter, ← hfrom, call.routed]

/-- A request that opens an epoch was admitted under the consent of both parties. -/
theorem Admitted.dualConsent {call : ConnectCall} {v : Verified} {admission : Control}
    {row : Pair} {event : Event} (h : Admitted platform call v admission)
    (hopens : s.Opens t call v row event) :
    DualConsent platform call row.toStanding v admission := by
  have hbundle := verifyBundle_ok h.bundle_eq
  obtain ⟨hparties, hne⟩ := h.parties
  obtain ⟨hcontrol, hoperation, hsigned⟩ := verify_ok h.admission_eq
  obtain ⟨_, _, hrequest, _, hstanding, _⟩ := checkMatches_ok h.request_matches
  obtain ⟨hfrom, _, hrequest', hproof', hstanding', hwindow⟩ :=
    checkMatches_ok h.admission_matches
  have hbase : v.snapshot.toStanding = row.toStanding := by
    rw [← hstanding, hopens.standing]
  have hsnapshot := hbundle.snapshot_parties
  rw [hparties] at hsnapshot
  have hinviter : admission.fromDid = v.invitation.fromDid := by rw [hfrom, hbundle.inviter]
  refine ⟨hbundle, ?_, ?_, hopens.unexpired, ⟨hcontrol, hoperation, hinviter, hinviter ▸ hsigned⟩,
    ⟨?_, ?_, ?_, (hwindow hoperation).1⟩,
    ⟨congrArg Prod.fst hsnapshot, congrArg Prod.snd hsnapshot, hbase⟩, hrequest⟩
  · rw [← hbundle.inviter, ← hbundle.scanner, hparties]
  · rw [← hbundle.inviter, ← hbundle.scanner]
    exact hne
  · rw [hrequest', hrequest]
  · rw [hproof', hbundle.proof]
  · rw [hstanding', hbase]

/-- The epoch a connect request is answered at. -/
theorem answerEpoch_eq {l : Ledger Uuid} {call : ConnectCall} {v : Verified} {row : Pair}
    {epoch : Nat} {event : Event} (h : s.Records call.key l)
    (hrow : s.pairs.find call.key = some row)
    (hstanding : call.request.toStanding = v.snapshot.toStanding)
    (hevent : epoch = row.epoch ∧ s.Converges call row event ∨
      epoch = row.epoch + 1 ∧ s.Opens t call v row event) :
    epoch = answerEpoch v.snapshot.epoch := by
  have hsame := h.row row hrow
  have hepoch : row.epoch = l.epoch := by rw [hsame, standingAt_epoch (le_refl _)]
  have hbase : call.request.epoch = v.snapshot.epoch := by rw [hstanding]
  rcases hevent with ⟨rfl, hconverges⟩ | ⟨rfl, hopens⟩
  · have hactive : (standingAt l l.epoch).state = .active := by
      rw [← hsame]
      exact hconverges.active
    have hpos : 0 < l.epoch := by
      by_contra hzero
      have : l.epoch = 0 := by omega
      rw [this] at hactive
      cases hactive
    have hodd := (standingAt_active hpos (le_refl _)).1 hactive
    unfold answerEpoch
    rcases hconverges.epoch with heq | heq
    · rw [if_pos (by omega)]
      omega
    · rw [if_neg (by omega)]
      omega
  · have heven : l.epoch % 2 = 0 := even_of_inactive (by rw [← hsame]; exact hopens.inactive)
    have heq : v.snapshot.epoch = row.epoch := by rw [← hbase, hopens.standing]
    rw [answerEpoch, if_neg (by omega), heq]

/-- An accepted connect request is answered at the epoch its consent stands for, and leaves
results that answer theirs. -/
theorem ConnectOutcome.sound {accounts : Did → Uuid} {l : Ledger Uuid} {call : ConnectCall}
    {event : Event} (hhash : CollisionFree platform) (hrecord : ReadsConnection platform)
    (hsound : ∀ id row, s.results.find id = some row → ResultSound platform accounts row)
    (hrecords : s.Records call.key l) (haccount : call.owner.id = accounts call.owner.did)
    (h : ConnectOutcome platform s call t event) :
    (∀ id row, t.results.find id = some row → ResultSound platform accounts row) ∧
      ∃ base, bundleSnapshot platform call.bytes = some base ∧
        t.events.find (call.key, answerEpoch base.epoch) = some event := by
  cases h with
  | @prior result event hfind haction hpair hproof hevent =>
    refine ⟨hsound, ?_⟩
    have hresult := hsound _ result hfind
    simp only [ResultSound, haction] at hresult
    obtain ⟨bytes, base, hbytes, hbase, _, hat⟩ := hresult
    rw [hproof] at hbytes
    rw [hhash hbytes]
    refine ⟨base, hbase, ?_⟩
    rw [← hpair, ← hat]
    exact hevent
  | @raced v admission u row attempt result event address hadmitted hpair _ _ _ hfind hproof
      hevent =>
      have hresults := (pair_frames hpair).results
      refine ⟨fun id row hrow => hsound id row (by rw [← hresults]; exact hrow), ?_⟩
      have hbundle := verifyBundle_ok hadmitted.bundle_eq
      have hsnapshot := hbundle.bundleSnapshot
      refine ⟨v.snapshot, hsnapshot, ?_⟩
      have hresult := hsound _ result (by rw [← hresults]; exact hfind)
      cases haction : result.action with
      | connect =>
        simp only [ResultSound, haction] at hresult
        obtain ⟨bytes, base, hbytes, hbase, hparties, hat⟩ := hresult
        rw [hproof] at hbytes
        rw [← hhash hbytes, hsnapshot, Option.some.injEq] at hbase
        subst hbase
        have hsorted := hbundle.snapshot_parties
        rw [hadmitted.parties.1, Prod.mk.injEq] at hsorted
        have hkey : result.pair = call.key := by
          rw [hparties, hsorted.1, hsorted.2, ← haccount]
        rw [← hkey, ← hat]
        exact hevent
      | disconnect =>
        -- the digest of a disconnect proof is not the digest of a bundle
        simp only [ResultSound, haction] at hresult
        obtain ⟨id, hid⟩ := hresult
        rw [hproof] at hid
        rw [hhash hid, bundleSnapshot_encodeConnection hrecord] at hsnapshot
        cases hsnapshot
  | @settled v admission u w t row attempt epoch event address hadmitted hpair _ _ _ hevent
      hsettles =>
      have hbundle := verifyBundle_ok hadmitted.bundle_eq
      have hsnapshot := hbundle.bundleSnapshot
      obtain ⟨_, _, _, _, hstanding, _⟩ := checkMatches_ok hadmitted.request_matches
      obtain ⟨hrow, _⟩ := pair_ok hpair
      have hu := hrecords.of_agrees (agrees_of_pair hpair)
      have hepoch : epoch = answerEpoch v.snapshot.epoch := by
        refine answerEpoch_eq (t := w) hu hrow hstanding (hevent.imp_left And.right)
      have hresults : w.results = s.results := by
        rw [← (pair_frames hpair).results]
        rcases hevent with ⟨rfl, _⟩ | ⟨_, hopens⟩
        · rfl
        · exact hopens.advanced.results
      have hsorted := hbundle.snapshot_parties
      rw [hadmitted.parties.1, Prod.mk.injEq] at hsorted
      obtain ⟨outbox, rfl⟩ := hsettles.store
      refine ⟨?_, v.snapshot, hsnapshot, ?_⟩
      · intro id found hfound
        rw [Table.find_insert] at hfound
        by_cases hid : id = call.request.requestId
        · rw [if_pos hid, Option.some.injEq] at hfound
          subst hfound
          refine ⟨call.bytes, v.snapshot, rfl, hsnapshot, ?_, ?_⟩
          · rw [hsorted.1, hsorted.2, ← haccount]
          · rw [hepoch]
        · rw [if_neg hid, hresults] at hfound
          exact hsound id found hfound
      · rw [← hepoch]
        rcases hevent with ⟨rfl, rfl, hconverges⟩ | ⟨rfl, hopens⟩
        · exact hconverges.event_eq
        · simp only [hopens.advanced.events]
          exact Table.find_insert_self _ _ _

theorem DisconnectOutcome.sound {accounts : Did → Uuid} {call : DisconnectCall} {event : Event}
    (hsound : ∀ id row, s.results.find id = some row → ResultSound platform accounts row)
    (h : DisconnectOutcome platform s call t event) :
    ∀ id row, t.results.find id = some row → ResultSound platform accounts row := by
  cases h with
  | prior _ _ _ _ => exact hsound
  | settled _ _ _ hproof hevent hfree ht =>
    have hresults := hfree
    intro id row hrow
    rw [ht, Table.find_insert] at hrow
    by_cases hid : id = call.request.requestId
    · rw [if_pos hid, Option.some.injEq] at hrow
      subst hrow
      exact ⟨_, hproof⟩
    · rw [if_neg hid] at hrow
      rcases hevent with ⟨rfl, _⟩ | ⟨_, hcloses⟩
      · exact hsound id row hrow
      · rw [hcloses.advanced.results] at hrow
        exact hsound id row hrow

/-- Where a pair stands; a pair without a row stands at the start. -/
def standing (s : Store) (key : PairKey) : Standing :=
  ((s.pairs.find key).map Pair.toStanding).getD .start

theorem standing_of_pair {tx : Transaction} {owner : ConnectionOwner} {peer : Did}
    {address : Option String} {row : Pair} (h : s.pair tx owner peer address = .ok (t, row)) :
    s.standing (owner.id, peer) = row.toStanding := by
  obtain ⟨hrow, _, _, rfl | ⟨_, hnone, hstart, _⟩⟩ := pair_ok h
  · rw [standing, hrow]
    rfl
  · rw [standing, hnone, hstart]
    rfl

/-- A connect request that inserts an event does so under dual consent. -/
theorem ConnectOutcome.inserted {call : ConnectCall} {event new : Event} {k : EventKey}
    (h : ConnectOutcome platform s call t event) (hbefore : s.events.find k = none)
    (hafter : t.events.find k = some new) :
    k = (call.key, (s.standing call.key).epoch + 1) ∧ new.state = .active ∧
      ∃ v admission attempt, DualConsent platform call (s.standing call.key) v admission ∧
        s.attempts.find (call.owner.id, call.request.requestId) = some attempt ∧
        attempt.pair = call.key ∧ attempt.proofDigest = platform.sha256 call.bytes := by
  cases h with
  | prior _ _ _ _ _ =>
    rw [hbefore] at hafter
    cases hafter
  | raced _ hpair _ _ _ _ _ _ =>
    rw [(pair_frames hpair).events, hbefore] at hafter
    cases hafter
  | @settled v admission u w t row attempt epoch event address hadmitted hpair hattempt
      hattemptPair hattemptProof hevent hsettles =>
      obtain ⟨outbox, rfl⟩ := hsettles.store
      rw [← (pair_frames hpair).events] at hbefore
      rcases hevent with ⟨rfl, _⟩ | ⟨_, hopens⟩
      · rw [hbefore] at hafter
        cases hafter
      · simp only [hopens.advanced.events, Table.find_insert] at hafter
        by_cases hk : k = (call.key, (ConnectCall.opening call row).epoch)
        · rw [if_pos hk, Option.some.injEq] at hafter
          have hstanding := standing_of_pair hpair
          refine ⟨?_, ?_, v, admission, attempt, ?_, ?_, hattemptPair, hattemptProof⟩
          · rw [hk, hstanding]
            rfl
          · rw [← hafter, hopens.advanced.event_eq]
            rfl
          · rw [hstanding]
            exact hadmitted.dualConsent hopens
          · rw [← (pair_frames hpair).attempts]
            exact hattempt
        · rw [if_neg hk, hbefore] at hafter
          cases hafter

end Store

/-- Requests go to the account that has the DID; a DID has one account. -/
def CoordinatorEvent.ServedBy (accounts : Did → Uuid) : CoordinatorEvent → Prop
  | .connect call => call.owner.id = accounts call.owner.did
  | _ => True

namespace Store

variable {s t : Store} {accounts : Did → Uuid}

/-- In every run from an empty provider, results answer the consents their digests stand for. -/
theorem reaches_sound (hhash : CollisionFree platform) (hrecord : ReadsConnection platform)
    (h : Reaches (coordinatorStep platform) (fun s e => e.Fresh s ∧ e.ServedBy accounts) ∅ s) :
    (∀ key, ∃ l, s.Records key l) ∧
      ∀ id row, s.results.find id = some row → ResultSound platform accounts row := by
  refine h.invariant (I := fun s => (∀ key, ∃ l, Records s key l) ∧
    ∀ id row, s.results.find id = some row → ResultSound platform accounts row) ⟨?_, ?_⟩ ?_
  · intro key
    refine ⟨_, Unused.records ⟨?_, fun _ => rfl, fun _ => rfl⟩⟩
    intro row hrow
    cases hrow
  · intro id row hrow
    cases hrow
  · rintro s t e ⟨hrecords, hsound⟩ ⟨hfresh, hserved⟩ hstep
    cases hperform : e.perform platform s with
    | error failure =>
      simp only [coordinatorStep, hperform, Option.some.injEq] at hstep
      exact hstep ▸ ⟨hrecords, hsound⟩
    | ok u =>
      simp only [coordinatorStep, hperform, Option.some.injEq] at hstep
      subst hstep
      refine ⟨?_, ?_⟩
      · intro key
        obtain ⟨l, hl⟩ := hrecords key
        obtain ⟨l', _, hl'⟩ := hl.perform hfresh hperform
        exact ⟨l', hl'⟩
      · cases e with
        | connect call =>
          obtain ⟨answer, hcall⟩ := perform_connect_ok hperform
          obtain ⟨event, houtcome, _⟩ := coordinatorConnect_ok hcall
          obtain ⟨l, hl⟩ := hrecords call.key
          exact (houtcome.sound hhash hrecord hsound hl hserved).1
        | disconnect call =>
          obtain ⟨answer, hcall⟩ := perform_disconnect_ok hperform
          obtain ⟨event, houtcome, _⟩ := coordinatorDisconnect_ok hcall
          exact houtcome.sound hsound
        | localDisconnect call =>
          obtain ⟨_, _, _, _, _, _, _, _, _, _, rfl⟩ := disconnect_ok hperform
          exact hsound
        | retain accountId id attempt =>
          cases hperform
          exact hsound

end Store

/-- In every run of a coordinator, an active event is inserted only at the epoch after the one
the pair stands at, under a bundle whose digest the coordinator's own attempt retains, with an
unexpired invitation and confirmation of the two parties, the admission of the inviter's
provider and the coordinator's snapshot of exactly that standing. Every later accepted request
on the same base epoch is answered from the same event. -/
theorem dual_consent {accounts : Did → Uuid} (hhash : CollisionFree platform)
    (hrecord : ReadsConnection platform) {s t : Store} {call : ConnectCall} {answer : Answer}
    (h : Reaches (coordinatorStep platform) (fun s e => e.Fresh s ∧ e.ServedBy accounts) ∅ s)
    (hfresh : (CoordinatorEvent.connect call).Fresh s)
    (hserved : (CoordinatorEvent.connect call).ServedBy accounts)
    (hcall : s.coordinatorConnect platform call = .ok (t, answer)) :
    (∀ k event, s.events.find k = none → t.events.find k = some event →
      k = (call.key, (s.standing call.key).epoch + 1) ∧ event.state = .active ∧
        ∃ v admission attempt, DualConsent platform call (s.standing call.key) v admission ∧
          s.attempts.find (call.owner.id, call.request.requestId) = some attempt ∧
          attempt.pair = call.key ∧ attempt.proofDigest = platform.sha256 call.bytes) ∧
    ∀ (u u' : Store) (call' : ConnectCall) (answer' : Answer),
      Reaches (coordinatorStep platform) (fun s e => e.Fresh s ∧ e.ServedBy accounts) t u →
      (CoordinatorEvent.connect call').ServedBy accounts → call'.key = call.key →
      (bundleSnapshot platform call'.bytes).map (·.epoch) =
        (bundleSnapshot platform call.bytes).map (·.epoch) →
      u.coordinatorConnect platform call' = .ok (u', answer') →
      ∃ epoch event, t.events.find (call.key, epoch) = some event ∧
        u'.events.find (call.key, epoch) = some event ∧
        answer.control.toStanding = event.toStanding ∧
        answer'.control.toStanding = event.toStanding := by
  obtain ⟨event, houtcome, hstanding, _⟩ := Store.coordinatorConnect_ok hcall
  refine ⟨fun k new hbefore hafter => houtcome.inserted hbefore hafter, ?_⟩
  intro u u' call' answer' hrun hserved' hkey hbase hcall'
  have hperform : (CoordinatorEvent.connect call).perform platform s = .ok t := by
    simp only [CoordinatorEvent.perform, hcall, Except.map]
  have hstep : coordinatorStep platform s (.connect call) = some t := by
    simp only [coordinatorStep, hperform]
  obtain ⟨hrecords, hsound⟩ := Store.reaches_sound hhash hrecord h
  obtain ⟨hrecords', hsound'⟩ := Store.reaches_sound hhash hrecord
    ((Reaches.next _ h ⟨hfresh, hserved⟩ hstep).trans hrun)
  obtain ⟨event', houtcome', hstanding', _⟩ := Store.coordinatorConnect_ok hcall'
  obtain ⟨l, hl⟩ := hrecords call.key
  obtain ⟨l', hl'⟩ := hrecords' call'.key
  obtain ⟨_, base, hsnapshot, hevent⟩ := houtcome.sound hhash hrecord hsound hl hserved
  obtain ⟨_, base', hsnapshot', hevent'⟩ := houtcome'.sound hhash hrecord hsound' hl' hserved'
  rw [hsnapshot, hsnapshot', Option.map_some, Option.map_some, Option.some.injEq] at hbase
  rw [hkey, hbase] at hevent'
  -- the event of the base epoch stays where the first request found it
  have hlater := ((Store.reaches_retains hrun).trans houtcome'.retains).events _ _ hevent
  rw [hevent', Option.some.injEq] at hlater
  subst hlater
  exact ⟨_, event', hevent, hevent', hstanding, hstanding'⟩

/-- The sample consent opens epoch one, and a repetition of the request is answered from the same
event. -/
theorem dual_consent_opened : ∃ s t u answer answer',
    coordinatorStep Sample.platform ∅ Sample.consent = some s ∧
    s.coordinatorConnect Sample.platform Sample.connectCall = .ok (t, answer) ∧
    t.coordinatorConnect Sample.platform Sample.connectCall = .ok (u, answer') ∧
    (∃ event v admission, t.events.find (Sample.key, 1) = some event ∧ event.state = .active ∧
      DualConsent Sample.platform Sample.connectCall .start v admission) ∧
    answer.control.toStanding = answer'.control.toStanding := by
  have hrun : ((coordinatorStep Sample.platform ∅ Sample.consent).bind fun s =>
      (s.coordinatorConnect Sample.platform Sample.connectCall).toOption.bind fun r =>
        (r.1.coordinatorConnect Sample.platform Sample.connectCall).toOption.map fun _ =>
          decide (s.standing Sample.key = .start ∧ s.events.find (Sample.key, 1) = none ∧
            (r.1.events.find (Sample.key, 1)).isSome = true)) = some true := by
    decide +kernel
  simp only [Option.bind_eq_some_iff, Option.map_eq_some_iff, decide_eq_true_eq,
    Option.isSome_iff_exists, toOption_eq_some] at hrun
  obtain ⟨s, hconsent, ⟨t, answer⟩, hcall, ⟨u, answer'⟩, hcall', hstanding, hbefore, event,
    hafter⟩ := hrun
  have hfresh : CoordinatorEvent.Fresh s (.connect Sample.connectCall) := by
    cases hconsent
    intro k found hfound
    cases hfound
  have hreached : Reaches (coordinatorStep Sample.platform)
      (fun s e => e.Fresh s ∧ e.ServedBy fun _ => Sample.aliceAccount) ∅ s :=
    .next Sample.consent .refl ⟨trivial, trivial⟩ hconsent
  have hhash : CollisionFree Sample.platform := fun _ _ h => List.append_cancel_right h
  obtain ⟨hinserted, hsame⟩ := dual_consent hhash (fun _ => rfl) hreached hfresh rfl hcall
  obtain ⟨_, hactive, v, admission, _, hconsented, _⟩ := hinserted _ event hbefore hafter
  obtain ⟨_, found, _, _, hfirst, hsecond⟩ :=
    hsame t u Sample.connectCall answer' .refl rfl rfl rfl hcall'
  have hstart : s.standing Sample.connectCall.key = .start := hstanding
  rw [hstart] at hconsented
  exact ⟨s, t, u, answer, answer', hconsent, hcall, hcall', ⟨event, v, admission, hafter, hactive,
    hconsented⟩, hfirst.trans hsecond.symm⟩

end HailProto.Federation
