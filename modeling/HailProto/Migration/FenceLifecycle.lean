import HailProto.Codec.Reference
import HailProto.Custody.System
import HailProto.Migration.FenceEffects

/-!
# The life of a migration fence

Runs of the four calls, with whatever the other transfer services do to authorizations that are
not consumed. A fence only moves from fenced to exported to retired, or is released before the
export; what it consumed, exported and was retired with stays.
-/

namespace HailProto.Migration

open Server Codec
open Cbor (Value)

inductive Call
  | begin (resolved : Resolution) (request selection reservation : SignedHandshake)
  | releaseBeforeExport (did : Did) (transferId : Uuid)
  | exportFenced (fence : MigrationFence) (resolved : Resolution) (messagingKey : AccountKey)
      (manifest : Except Fault Bytes) (sign : Bytes → Except Fault Bytes)
  | retire (did : Did) (transferId : Uuid) (resolved : Resolution) (signed : SignedHandshake)

/-- The tables after a call that is accepted. -/
def Call.run (platform : Platform) (w : Surroundings) (s : FenceStore) : Call → Except Fault FenceStore
  | .begin resolved request selection reservation =>
    (Migration.begin platform w s resolved request selection reservation).map Prod.fst
  | .releaseBeforeExport did transferId => Migration.releaseBeforeExport s did transferId
  | .exportFenced fence resolved messagingKey manifest sign =>
    (Migration.exportFenced platform w s fence resolved messagingKey manifest sign).map Prod.fst
  | .retire did transferId resolved signed => Migration.retire platform w s did transferId resolved signed

/-- No transfer has consumed the authorization, if there is one. -/
def Unspent (row : Option Authorization) : Prop := row.bind Authorization.consumedTransferId = none

instance (row : Option Authorization) : Decidable (Unspent row) :=
  inferInstanceAs (Decidable (_ = _))

inductive FenceEvent
  | call (w : Surroundings) (c : Call)
  /-- An invitation, an offer, a cancellation or a cleanup writes an authorization. -/
  | authorize (did : Did) (row : Option Authorization)

/-- A call that raises is rolled back; an authorization is written only while it is unspent. -/
def fenceStep (platform : Platform) (s : FenceStore) : FenceEvent → Option FenceStore
  | .call w c => some (match c.run platform w s with
      | .ok t => t
      | .error _ => s)
  | .authorize did row =>
    if Unspent (s.authorizations.find did) ∧ Unspent row then
      some { s with authorizations := match row with
        | some row => s.authorizations.insert did row
        | none => s.authorizations.deleteWhere fun key _ => key == did }
    else none

/-- How the fence of one DID changes. -/
inductive FenceMove : Option Fence → Option Fence → Prop
  | stay (row : Option Fence) : FenceMove row row
  | begun (row : Fence) : row.state = .fenced → FenceMove none (some row)
  | exported (row : Fence) (digest : Bytes) : row.state = .fenced →
      FenceMove (some row) (some { row with state := .exported, snapshotDigest := some digest })
  | retired (row : Fence) (bytes : Bytes) : row.state = .exported →
      FenceMove (some row) (some { row with
        state := .retired
        retirementReceiptBytes := some bytes })
  | released (row : Fence) : row.state = .fenced → FenceMove (some row) none

/-- A fence between the authorization it consumed and the export it retired with. -/
structure Standing (platform : Platform) (s : FenceStore) (did : Did) (row : Fence) : Prop where
  consumed : ∃ stored request selection reservation, s.authorizations.find did = some stored ∧
    stored.consumedTransferId = some row.transferId ∧ stored.finalRequest = some request ∧
    stored.selection = some selection ∧ stored.reservation = some reservation ∧
    Binds platform request selection reservation
  unexported : row.state = .fenced → row.snapshotDigest = none ∧
    s.exports.find row.transferId = none
  exported : row.state ≠ .fenced → ∃ e, s.exports.find row.transferId = some e ∧ e.did = did ∧
    row.snapshotDigest = some e.manifestDigest ∧
    e.manifestDigest = platform.sha256 e.manifestBytes
  unretired : row.state ≠ .retired → row.retirementReceiptBytes = none
  retired : row.state = .retired → ∃ signed bytes, row.retirementReceiptBytes = some bytes ∧
    Receipt platform did row signed bytes

/-- What holds between the tables. -/
structure FenceStore.Sound (platform : Platform) (s : FenceStore) : Prop where
  standing : ∀ did row, s.fences.find did = some row → Standing platform s did row
  /-- What a transfer has consumed is fenced for it. -/
  fenced : ∀ did stored transferId, s.authorizations.find did = some stored →
    stored.consumedTransferId = some transferId →
    ∃ row, s.fences.find did = some row ∧ row.transferId = transferId
  transfers : ∀ did did' row row', s.fences.find did = some row → s.fences.find did' = some row' →
    row.transferId = row'.transferId → did = did'
  accounts : ∀ did did' row row', s.fences.find did = some row → s.fences.find did' = some row' →
    row.accountId = row'.accountId → did = did'
  /-- Every export is some fence's. -/
  owned : ∀ transferId e, s.exports.find transferId = some e →
    ∃ did row, s.fences.find did = some row ∧ row.transferId = transferId

section Preserved

variable {platform : Platform} {w : Surroundings} {s t : FenceStore} {did : Did} {row : Fence}

theorem Standing.congr (h : Standing platform s did row)
    (hauthorization : t.authorizations.find did = s.authorizations.find did)
    (hexport : t.exports.find row.transferId = s.exports.find row.transferId) :
    Standing platform t did row where
  consumed := hauthorization ▸ h.consumed
  unexported := hexport ▸ h.unexported
  exported := hexport ▸ h.exported
  unretired := h.unretired
  retired := h.retired

/-- A fence is begun. -/
theorem FenceStore.Sound.begun {admitted : Admitted}
    {request selection reservation : SignedHandshake} {fence : MigrationFence}
    (h : s.Sound platform) (hadmitted : IsAdmitted platform s did admitted request selection reservation)
    (hfenced : Fenced s t did admitted row request selection reservation fence) :
    t.Sound platform := by
  have hexports : t.exports = s.exports := by rw [hfenced.result]
  have hfences : ∀ did', t.fences.find did' = if did' = did then some row else s.fences.find did' := by
    intro did'
    rw [hfenced.result]
    exact Table.find_insert ..
  have hauthorizations : ∀ did' ≠ did, t.authorizations.find did' = s.authorizations.find did' := by
    intro did' hne
    rw [hfenced.result]
    exact Table.find_insert_of_ne _ _ hne
  have hself : t.authorizations.find did = some { admitted.stored with
      consumedTransferId := some row.transferId
      finalRequest := some request
      selection := some selection
      reservation := some reservation } := by
    rw [hfenced.result]
    exact Table.find_insert_self ..
  -- no export is left from an earlier fence of this transfer
  have hfree : s.exports.find row.transferId = none := by
    rw [Option.eq_none_iff_forall_ne_some]
    intro e he
    obtain ⟨did', row', hrow', htransfer⟩ := h.owned _ e he
    exact hfenced.otherTransfers did' row' hrow' htransfer
  refine ⟨fun did' row' hrow' => ?_, fun did' stored transferId hstored hconsumed => ?_,
    fun did₁ did₂ row₁ row₂ h₁ h₂ hsame => ?_, fun did₁ did₂ row₁ row₂ h₁ h₂ hsame => ?_,
    fun transferId e he => ?_⟩
  · rw [hfences] at hrow'
    split at hrow'
    · rename_i hdid
      subst hdid
      cases hrow'
      exact ⟨⟨_, request, selection, reservation, hself, rfl, rfl, rfl, rfl, hadmitted.binds⟩,
        fun _ => ⟨hfenced.snapshot, hexports ▸ hfree⟩, fun hnot => (hnot hfenced.state).elim,
        fun _ => hfenced.receipt, fun hretired => by simp [hfenced.state] at hretired⟩
    · rename_i hne
      exact (h.standing did' row' hrow').congr (hauthorizations did' hne) (by rw [hexports])
  · by_cases hdid : did' = did
    · subst hdid
      rw [hself, Option.some.injEq] at hstored
      subst hstored
      exact ⟨row, by rw [hfences, if_pos rfl], Option.some.inj hconsumed⟩
    · rw [hauthorizations did' hdid] at hstored
      obtain ⟨row', hrow', htransfer⟩ := h.fenced did' stored transferId hstored hconsumed
      exact ⟨row', by rw [hfences, if_neg hdid, hrow'], htransfer⟩
  · rw [hfences] at h₁ h₂
    split at h₁ <;> split at h₂
    · rename_i hd₁ hd₂
      exact hd₁.trans hd₂.symm
    · cases h₁
      exact (hfenced.otherTransfers did₂ row₂ h₂ hsame.symm).elim
    · cases h₂
      exact (hfenced.otherTransfers did₁ row₁ h₁ hsame).elim
    · exact h.transfers did₁ did₂ row₁ row₂ h₁ h₂ hsame
  · rw [hfences] at h₁ h₂
    split at h₁ <;> split at h₂
    · rename_i hd₁ hd₂
      exact hd₁.trans hd₂.symm
    · cases h₁
      exact (hfenced.otherAccounts did₂ row₂ h₂ hsame.symm).elim
    · cases h₂
      exact (hfenced.otherAccounts did₁ row₁ h₁ hsame).elim
    · exact h.accounts did₁ did₂ row₁ row₂ h₁ h₂ hsame
  · rw [hexports] at he
    obtain ⟨did', row', hrow', htransfer⟩ := h.owned transferId e he
    refine ⟨did', row', ?_, htransfer⟩
    rw [hfences, if_neg, hrow']
    rintro rfl
    rw [hfenced.absent] at hrow'
    cases hrow'

/-- A fence changes within its transfer. -/
theorem FenceStore.Sound.changed (h : s.Sound platform) (row' : Fence)
    (hfound : s.fences.find did = some row) (htransfer : row'.transferId = row.transferId)
    (haccount : row'.accountId = row.accountId) (hfences : t.fences = s.fences.insert did row')
    (hauthorizations : t.authorizations = s.authorizations)
    (hexports : ∀ id, id ≠ row.transferId → t.exports.find id = s.exports.find id)
    (hstanding : Standing platform t did row') : t.Sound platform := by
  have hfind : ∀ did', t.fences.find did' =
      if did' = did then some row' else s.fences.find did' := by
    intro did'
    rw [hfences]
    exact Table.find_insert ..
  -- each row had a row of the same transfer and account before
  have hbefore : ∀ did' r, t.fences.find did' = some r → ∃ r', s.fences.find did' = some r' ∧
      r.transferId = r'.transferId ∧ r.accountId = r'.accountId := by
    intro did' r hr
    rw [hfind] at hr
    split at hr
    · rename_i hdid
      cases hr
      exact ⟨row, hdid ▸ hfound, htransfer, haccount⟩
    · exact ⟨r, hr, rfl, rfl⟩
  have hafter : ∀ did' r, s.fences.find did' = some r → ∃ r', t.fences.find did' = some r' ∧
      r'.transferId = r.transferId := by
    intro did' r hr
    rw [hfind]
    split
    · rename_i hdid
      rw [hdid, hfound, Option.some.injEq] at hr
      exact ⟨row', rfl, hr ▸ htransfer⟩
    · exact ⟨r, hr, rfl⟩
  refine ⟨fun did' r hr => ?_, fun did' stored transferId hstored hconsumed => ?_,
    fun did₁ did₂ row₁ row₂ h₁ h₂ hsame => ?_, fun did₁ did₂ row₁ row₂ h₁ h₂ hsame => ?_,
    fun transferId e he => ?_⟩
  · rw [hfind] at hr
    split at hr
    · rename_i hdid
      cases hr
      exact hdid ▸ hstanding
    · rename_i hne
      refine (h.standing did' r hr).congr (by rw [hauthorizations]) (hexports _ fun hsame => ?_)
      exact hne (h.transfers did' did r row hr hfound hsame)
  · rw [hauthorizations] at hstored
    obtain ⟨r, hr, htransfer'⟩ := h.fenced did' stored transferId hstored hconsumed
    obtain ⟨r', hr', hsame⟩ := hafter did' r hr
    exact ⟨r', hr', hsame.trans htransfer'⟩
  · obtain ⟨r₁, hr₁, ht₁, _⟩ := hbefore did₁ row₁ h₁
    obtain ⟨r₂, hr₂, ht₂, _⟩ := hbefore did₂ row₂ h₂
    exact h.transfers did₁ did₂ r₁ r₂ hr₁ hr₂ (by rw [← ht₁, ← ht₂, hsame])
  · obtain ⟨r₁, hr₁, _, ha₁⟩ := hbefore did₁ row₁ h₁
    obtain ⟨r₂, hr₂, _, ha₂⟩ := hbefore did₂ row₂ h₂
    exact h.accounts did₁ did₂ r₁ r₂ hr₁ hr₂ (by rw [← ha₁, ← ha₂, hsame])
  · by_cases hid : transferId = row.transferId
    · exact ⟨did, row', by rw [hfind, if_pos rfl], htransfer.trans hid.symm⟩
    · rw [hexports transferId hid] at he
      obtain ⟨did', r, hr, hsame⟩ := h.owned transferId e he
      obtain ⟨r', hr', hsame'⟩ := hafter did' r hr
      exact ⟨did', r', hr', hsame'.trans hsame⟩

theorem FenceStore.Sound.exported {e : Export} (h : s.Sound platform)
    (hfound : s.fences.find did = some row) (hexported : Exported platform s t did row e) :
    t.Sound platform := by
  refine h.changed { row with state := .exported, snapshotDigest := some e.manifestDigest } hfound
    rfl rfl (by rw [hexported.result]) (by rw [hexported.result]) (fun id hne => ?_) ?_
  · rw [hexported.result]
    exact Table.find_insert_of_ne _ _ hne
  · have hstanding := h.standing did row hfound
    have hunretired : row.retirementReceiptBytes = none :=
      hstanding.unretired (by rw [hexported.fenced]; nofun)
    rw [hexported.result]
    exact ⟨hstanding.consumed, nofun, fun _ => ⟨e, Table.find_insert_self .., hexported.did_eq,
      rfl, hexported.digest⟩, fun _ => hunretired, nofun⟩

/-- A receipt is about the parts of a fence that do not change. -/
theorem Receipt.retired {signed : SignedHandshake} {bytes : Bytes}
    (h : Receipt platform did row signed bytes) :
    Receipt platform did { row with state := .retired, retirementReceiptBytes := some bytes } signed
      bytes := ⟨h.verified, h.encoded⟩

theorem FenceStore.Sound.retired {signed : SignedHandshake} {bytes : Bytes}
    {history : Table Uuid RetiredTransfer} (h : s.Sound platform)
    (hfound : s.fences.find did = some row) (hstate : row.state = .exported)
    (hreceipt : Receipt platform did row signed bytes)
    (ht : t = { s with
      fences := s.fences.insert did { row with
        state := .retired
        retirementReceiptBytes := some bytes }
      history := history }) : t.Sound platform := by
  have hstanding := h.standing did row hfound
  subst ht
  exact h.changed { row with state := .retired, retirementReceiptBytes := some bytes } hfound rfl
    rfl rfl rfl (fun _ _ => rfl) ⟨hstanding.consumed, nofun,
    fun _ => hstanding.exported (by rw [hstate]; nofun), fun hnot => (hnot rfl).elim,
    fun _ => ⟨signed, bytes, rfl, hreceipt.retired⟩⟩

/-- A released fence leaves with its authorization. -/
theorem FenceStore.Sound.released (h : s.Sound platform) (hfound : s.fences.find did = some row)
    (hstate : row.state = .fenced)
    (ht : t = { s with
      fences := s.fences.deleteWhere fun key _ => key == did
      authorizations := s.authorizations.deleteWhere fun key stored =>
        key == did && stored.consumedTransferId == some row.transferId }) : t.Sound platform := by
  have hfences : ∀ did' r, t.fences.find did' = some r ↔ s.fences.find did' = some r ∧ did' ≠ did := by
    intro did' r
    subst ht
    simp [Table.find_deleteWhere, Option.filter_eq_some_iff]
  have hauthorizations : ∀ did' stored, t.authorizations.find did' = some stored ↔
      s.authorizations.find did' = some stored ∧
        ¬(did' = did ∧ stored.consumedTransferId = some row.transferId) := by
    intro did' stored
    subst ht
    simp only [Table.find_deleteWhere, Option.filter_eq_some_iff, Bool.not_eq_true',
      Bool.and_eq_false_iff, beq_eq_false_iff_ne, ne_eq]
    tauto
  have hexports : t.exports = s.exports := by rw [ht]
  refine ⟨fun did' r hr => ?_, fun did' stored transferId hstored hconsumed => ?_,
    fun did₁ did₂ row₁ row₂ h₁ h₂ hsame => ?_, fun did₁ did₂ row₁ row₂ h₁ h₂ hsame => ?_,
    fun transferId e he => ?_⟩
  · obtain ⟨hr, hne⟩ := (hfences did' r).1 hr
    refine (h.standing did' r hr).congr (Option.ext fun stored => ?_) (by rw [hexports])
    rw [hauthorizations]
    exact ⟨fun hs => hs.1, fun hs => ⟨hs, fun hd => hne hd.1⟩⟩
  · obtain ⟨hstored, hkept⟩ := (hauthorizations did' stored).1 hstored
    obtain ⟨r, hr, htransfer⟩ := h.fenced did' stored transferId hstored hconsumed
    refine ⟨r, (hfences did' r).2 ⟨hr, ?_⟩, htransfer⟩
    rintro rfl
    rw [hfound, Option.some.injEq] at hr
    subst hr
    exact hkept ⟨rfl, htransfer ▸ hconsumed⟩
  · exact h.transfers did₁ did₂ row₁ row₂ ((hfences _ _).1 h₁).1 ((hfences _ _).1 h₂).1 hsame
  · exact h.accounts did₁ did₂ row₁ row₂ ((hfences _ _).1 h₁).1 ((hfences _ _).1 h₂).1 hsame
  · rw [hexports] at he
    obtain ⟨did', r, hr, htransfer⟩ := h.owned transferId e he
    refine ⟨did', r, (hfences did' r).2 ⟨hr, ?_⟩, htransfer⟩
    rintro rfl
    -- a fence that has not been exported has no export
    rw [hfound, Option.some.injEq] at hr
    subst hr
    have hnone := ((h.standing did' row hfound).unexported hstate).2
    rw [htransfer, he] at hnone
    cases hnone

/-- The other services write authorizations that nothing has consumed. -/
theorem FenceStore.Sound.authorized {table : Table Did Authorization} (h : s.Sound platform)
    (hother : ∀ did' ≠ did, table.find did' = s.authorizations.find did')
    (hunspent : Unspent (s.authorizations.find did)) (hunspent' : Unspent (table.find did)) :
    FenceStore.Sound platform { s with authorizations := table } := by
  refine ⟨fun did' r hr => ?_, fun did' stored transferId hstored hconsumed => ?_, h.transfers,
    h.accounts, h.owned⟩
  · have hstanding := h.standing did' r hr
    refine hstanding.congr (hother did' ?_) rfl
    rintro rfl
    obtain ⟨stored, _, _, _, hstored, hconsumed, _⟩ := hstanding.consumed
    simp [Unspent, hstored, hconsumed] at hunspent
  · by_cases hdid : did' = did
    · subst hdid
      change table.find did' = some stored at hstored
      simp [Unspent, hstored, hconsumed] at hunspent'
    · exact h.fenced did' stored transferId ((hother did' hdid).symm.trans hstored) hconsumed

end Preserved

section Step

variable {platform : Platform} {w : Surroundings} {s t u : FenceStore}

/-- What an accepted call may do to the tables. -/
inductive Does (platform : Platform) (s : FenceStore) : FenceStore → Prop
  | nothing : Does platform s s
  | begun {t : FenceStore} (did : Did) (admitted : Admitted) (row : Fence)
      (request selection reservation : SignedHandshake) (fence : MigrationFence) :
      IsAdmitted platform s did admitted request selection reservation →
      Fenced s t did admitted row request selection reservation fence → Does platform s t
  | released {t : FenceStore} (did : Did) (row : Fence) : s.fences.find did = some row →
      row.state = .fenced → t = { s with
        fences := s.fences.deleteWhere fun key _ => key == did
        authorizations := s.authorizations.deleteWhere fun key stored =>
          key == did && stored.consumedTransferId == some row.transferId } → Does platform s t
  | exported {t : FenceStore} (did : Did) (row : Fence) (e : Export) :
      s.fences.find did = some row → Exported platform s t did row e → Does platform s t
  | retired {t : FenceStore} (did : Did) (row : Fence) (signed : SignedHandshake) (bytes : Bytes)
      (history : Table Uuid RetiredTransfer) : s.fences.find did = some row →
      row.state = .exported → Receipt platform did row signed bytes → t = { s with
        fences := s.fences.insert did { row with
          state := .retired
          retirementReceiptBytes := some bytes }
        history := history } → Does platform s t

/-- Every accepted call does one of these. -/
theorem Call.does {c : Call} (h : c.run platform w s = .ok t) : Does platform s t := by
  cases c with
  | begin resolved request selection reservation =>
    simp only [run, map_eq_ok, Prod.exists] at h
    obtain ⟨t, fence, h, rfl⟩ := h
    obtain ⟨did, admitted, _, hadmitted, row, hreplayed | hfenced⟩ := begin_ok h
    · exact hreplayed.same ▸ .nothing
    · exact .begun did admitted row request selection reservation fence hadmitted hfenced
  | releaseBeforeExport did transferId =>
    obtain ⟨row, hfound, rfl, hstate, ht⟩ := releaseBeforeExport_ok h
    exact .released did row hfound hstate ht
  | exportFenced fence resolved messagingKey manifest sign =>
    simp only [run, map_eq_ok, Prod.exists] at h
    obtain ⟨t, snapshot, h, rfl⟩ := h
    obtain ⟨current, hfound, _, e, _, ⟨_, _, rfl⟩ | hexported⟩ := exportFenced_ok h
    · exact .nothing
    · exact .exported fence.did current e hfound hexported
  | retire did transferId resolved signed =>
    obtain ⟨row, bytes, hfound, _, hreceipt, ⟨_, _, rfl⟩ | ⟨hstate, history, ht⟩⟩ := retire_ok h
    · exact .nothing
    · exact .retired did row signed bytes history hfound hstate hreceipt ht

theorem Does.sound (h : Does platform s t) (hs : s.Sound platform) : t.Sound platform := by
  cases h with
  | nothing => exact hs
  | begun did admitted row request selection reservation fence hadmitted hfenced =>
    exact hs.begun hadmitted hfenced
  | released did row hfound hstate ht => exact hs.released hfound hstate ht
  | exported did row e hfound hexported => exact hs.exported hfound hexported
  | retired did row signed bytes history hfound hstate hreceipt ht =>
    exact hs.retired hfound hstate hreceipt ht

/-- A step is an accepted call, a rejected one or a write of an unspent authorization. -/
theorem fenceStep_cases {e : FenceEvent} (h : fenceStep platform s e = some t) :
    Does platform s t ∨ ∃ did table, Unspent (s.authorizations.find did) ∧
      Unspent (table.find did) ∧ (∀ did' ≠ did, table.find did' = s.authorizations.find did') ∧
      t = { s with authorizations := table } := by
  cases e with
  | call w c =>
    simp only [fenceStep, Option.some.injEq] at h
    subst h
    cases hrun : c.run platform w s with
    | error _ => exact .inl .nothing
    | ok t => exact .inl (Call.does hrun)
  | authorize did row =>
    simp only [fenceStep, Option.ite_none_right_eq_some, Option.some.injEq] at h
    obtain ⟨⟨hunspent, hunspent'⟩, rfl⟩ := h
    refine .inr ⟨did, _, hunspent, ?_, ?_, rfl⟩
    · cases row with
      | none => simp [Unspent, Table.find_deleteWhere]
      | some row => simpa using hunspent'
    · intro did' hne
      cases row with
      | none =>
        rw [Table.find_deleteWhere]
        cases s.authorizations.find did' <;> simp [hne]
      | some row => exact Table.find_insert_of_ne _ _ hne

theorem fenceStep_sound {e : FenceEvent} (h : fenceStep platform s e = some t)
    (hs : s.Sound platform) : t.Sound platform := by
  obtain hdoes | ⟨did, table, hunspent, hunspent', hother, rfl⟩ := fenceStep_cases h
  · exact hdoes.sound hs
  · exact hs.authorized hother hunspent hunspent'

end Step

/-- A provider before its first fence. -/
structure FenceStore.Unfenced (s : FenceStore) : Prop where
  fences : ∀ did, s.fences.find did = none
  exports : ∀ transferId, s.exports.find transferId = none
  authorizations : ∀ did, Unspent (s.authorizations.find did)

theorem FenceStore.Unfenced.sound {platform : Platform} {s : FenceStore} (h : s.Unfenced) :
    s.Sound platform where
  standing did row hrow := by
    rw [h.fences] at hrow
    cases hrow
  fenced did stored transferId hstored hconsumed := by
    have hunspent := h.authorizations did
    simp [Unspent, hstored, hconsumed] at hunspent
  transfers did did' row row' hrow := by
    rw [h.fences] at hrow
    cases hrow
  accounts did did' row row' hrow := by
    rw [h.fences] at hrow
    cases hrow
  owned transferId e he := by
    rw [h.exports] at he
    cases he

theorem reachable_sound {platform : Platform} {start s : FenceStore} (hstart : start.Unfenced)
    (hrun : Reachable (fenceStep platform) start s) : s.Sound platform :=
  hrun.invariant hstart.sound fun _ hs _ hstep => fenceStep_sound hstep hs

/-- What one step keeps of a state. -/
structure Keeps (s t : FenceStore) : Prop where
  moves : ∀ did, FenceMove (s.fences.find did) (t.fences.find did)
  consumed : ∀ did stored transferId, s.authorizations.find did = some stored →
    stored.consumedTransferId = some transferId →
    t.authorizations.find did = some stored ∨
      t.authorizations.find did = none ∧ t.fences.find did = none ∧
        ∃ row, s.fences.find did = some row ∧ row.state = .fenced ∧ row.transferId = transferId

namespace Sample

open Grants Grants.Sample Custody.Sample

/-- A payload of the transfer protocol that names Alice. -/
def transferBytes (type : String) (nonce : Uuid) (fields : List (String × Cbor.Value)) : Bytes :=
  recordBytes ([("did", .text alice), ("type", .text ("hail.transfer-" ++ type)),
    ("nonce", .text nonce), ("version", .int 1)] ++ fields)

def transferGrant (nonce : Uuid) (issuedAt expiresAt : Int) : Bytes :=
  transferBytes "grant" nonce
    [("issued_at", .int issuedAt), ("expires_at", .int expiresAt),
     ("destination_domain", .text "beta.example"),
     ("source_service_base", .text "https://alice.example/hail"),
     ("destination_service_base", .text "https://beta.example/hail")]

/-- The source's acknowledgement of a grant. -/
def transferInvitation (nonce : Uuid) (challenge : Nat) (expiresAt : Int) (grantDigest : Nat) :
    Bytes :=
  transferBytes "invitation" nonce
    [("challenge", .bytes (beBytes 32 challenge)), ("expires_at", .int expiresAt),
     ("grant_digest", .bytes (beBytes 32 grantDigest)),
     ("source_service_base", .text "https://alice.example/hail"),
     ("destination_service_base", .text "https://beta.example/hail")]

def firstNonce : Uuid := "01954144-5555-4555-8555-00000000000a"

def firstChallenge : Nat := 0x2dd00bd77e0222ced882665481a9c1d9f907309d16e05ed007a1ea63928477a9

/-- The SHA-256 digests of the first grant and of its acknowledgement. -/
def grantDigest : Nat := 0xb369845d9a445222dde28f853d05e6e30c134844e83a5b6b928b8d6eec414097

def invitationDigest : Nat := 0xccbdc1e47bd76cc079bf9898a876ae9b2209c88c8317bf54bba650b495b1cb37

/-- Alice's grant for her move to the other provider, signed with her identity key. -/
def grantPayload : Bytes := transferGrant firstNonce 1787851200 1787854700

def grantSignature : Bytes := words
  [0x2a36b4108dab03bd7f792c955ddabd7964c990605a6d233d2e031cc9f06ae5d4,
   0x9d764ac2cca327b8d5da1326a933c479c4eccd75fa8ef25a97c16a07f8c1710b]

/-- The source's acknowledgement of the grant. -/
def invitationPayload : Bytes :=
  transferInvitation firstNonce firstChallenge 1787854700 grantDigest

def invitationSignature : Bytes := words
  [0x5092cb7758269b1579c68e5c904672c3195e28a7c80607e1325255dabf6465de,
   0xe6932c74fd6ae858cd272c42ffe9a151b2333706b70e3f21644c08d755ec9904]

/-- The stored grant with its acknowledgement, before the destination's offer. -/
def invited : Authorization where
  nonce := "01954144-5555-4555-8555-00000000000a"
  destinationServiceBase := "https://beta.example/hail"
  expiresAt := 1787854700000
  grantBytes := grantPayload
  grantSignature := grantSignature
  invitationBytes := invitationPayload
  invitationSignature := invitationSignature
  consumedTransferId := none
  originRequestBytes := none
  originRequestSignature := none
  originConfirmedAt := none
  finalRequest := none
  selection := none
  reservation := none
  cancelledAt := none

/-- A platform that verifies nothing. -/
def unsigned : Platform where
  cborg := commandLineCborg
  sha256 _ := List.replicate 32 0
  sha256_length _ := rfl
  ed25519PublicKey key := .ok (Cbor.asBytes key)
  verify _ _ _ := false
  canonicalizeHailServiceBase base := .ok base
  canonicalizeHailAddress address := .ok address
  hostname _ := "alice.example"

/-- A provider without fences. -/
def unfenced : FenceStore := ⟨∅, ∅, ∅, ∅⟩

def surroundings : Surroundings where
  sourceServiceBase := "https://alice.example/hail"
  now := 1787851300000
  databaseNow := 1787851300000
  account _ := none
  custody _ := none
  keys _ := []
  generation _ := 1
  refusal := none
  withdrawal := none

/-- Alice's grant is stored; a release without a fence is refused. -/
def events : List FenceEvent :=
  [.authorize alice (some invited),
    .call surroundings (.releaseBeforeExport alice "01954144-4444-4444-8444-00000000000a")]

end Sample

end HailProto.Migration
