import HailProto.Cbor.Canonical
import HailProto.Core.Bytes
import HailProto.Core.Transition
import HailProto.Grants.Effects
import HailProto.Grants.Receiver

/-!
# Grant lineages stay intact

One provider's store under any interleaving of its three writers: a new authoritative lineage,
an authoritative update, and the steps of any number of `receive` calls under way. A received
revision is compared with its predecessor before the storing transaction, so the comparison is
carried by the call until then; stored revisions never change, which keeps it true.
-/

namespace HailProto.Grants

open Server

variable {codec : Codec}

/-- What a revision's row requires of the next one's. -/
structure Revision.Precedes (a b : Revision) : Prop where
  previous_eq : b.previousDigest = some a.representationDigest
  updatedAt_lt : a.updatedAt < b.updatedAt
  issuedAt_eq : b.issuedAt = a.issuedAt
  active : a.status = .active

/-- The rows of one lineage. -/
structure LineageSound (codec : Codec) (s : Store) (id : Uuid) (lineage : Lineage) : Prop where
  stored : ∀ k, (∃ row, s.revisions.find (id, k) = some row) ↔
    1 ≤ k ∧ k ≤ lineage.currentRevision
  payload : ∀ k row, s.revisions.find (id, k) = some row → ∃ payload, row.Of codec payload ∧
    payload.grantId = id ∧ payload.revision = k ∧ payload.grantor = lineage.grantorDid ∧
    payload.grantee = lineage.granteeDid
  precedes : ∀ k a b, s.revisions.find (id, k) = some a → s.revisions.find (id, k + 1) = some b →
    a.Precedes b
  current : ∃ row, s.revisions.find (id, lineage.currentRevision) = some row ∧
    row.representationDigest = lineage.currentDigest ∧ row.status = lineage.currentStatus

/-- Every lineage is sound and owns all the revisions stored under its id. -/
structure Store.Integrity (codec : Codec) (s : Store) : Prop where
  sound : ∀ id lineage, s.lineages.find id = some lineage → LineageSound codec s id lineage
  owned : ∀ id k row, s.revisions.find (id, k) = some row → ∃ l, s.lineages.find id = some l

/-- Stored revisions stay as they are. -/
def Store.Retains (s t : Store) : Prop :=
  ∀ key row, s.revisions.find key = some row → t.revisions.find key = some row

namespace Store

variable {s : Store}

theorem Retains.refl (s : Store) : s.Retains s := fun _ _ h => h

theorem retains_insert {t : Store} {key : Uuid × Nat} {row : Revision}
    (hfree : s.revisions.find key = none) (ht : t.revisions = s.revisions.insert key row) :
    s.Retains t := by
  intro key' row' h
  have hne : key' ≠ key := by
    rintro rfl
    rw [hfree] at h
    cases h
  rw [ht, Table.find_insert_of_ne _ _ hne, h]

theorem CanBegin.retains {input : SignedGrantRevision} (h : s.CanBegin codec input)
    (role : LocalRole) : s.Retains (s.begun input role) := by
  refine retains_insert ?_ rfl
  rw [h.first]
  exact h.unstored

theorem CanExtend.retains {lineage : Lineage} {row : Revision} {input : SignedGrantRevision}
    (h : s.CanExtend codec lineage row input) : s.Retains (s.extended lineage input) :=
  retains_insert h.unstored rfl

theorem empty_integrity : (∅ : Store).Integrity codec := by
  constructor
  · intro id lineage h
    exact absurd (h.symm.trans (Table.find_empty id)) (by simp)
  · intro id k row h
    exact absurd (h.symm.trans (Table.find_empty (id, k))) (by simp)

end Store

variable {s t : Store}

/-- A lineage is sound wherever its own rows are the same. -/
theorem LineageSound.congr {id : Uuid} {lineage : Lineage} (h : LineageSound codec s id lineage)
    (hrows : ∀ k, t.revisions.find (id, k) = s.revisions.find (id, k)) :
    LineageSound codec t id lineage := by
  constructor
  · simpa only [hrows] using h.stored
  · simpa only [hrows] using h.payload
  · simpa only [hrows] using h.precedes
  · simpa only [hrows] using h.current

namespace Store

/-- The rows of other lineages are out of reach of an insertion. -/
theorem find_insert_other {id id' : Uuid} {n : Nat} {row : Revision} (hne : id' ≠ id) (k : Nat) :
    (s.revisions.insert (id, n) row).find (id', k) = s.revisions.find (id', k) := by
  apply Table.find_insert_of_ne
  simp [hne]

theorem Integrity.begun (h : s.Integrity codec) {input : SignedGrantRevision} {role : LocalRole}
    (hcan : s.CanBegin codec input) : (s.begun input role).Integrity codec := by
  have hrow : ∀ k, (s.begun input role).revisions.find (input.payload.grantId, k) =
      if k = 1 then some (revisionRow input) else none := by
    intro k
    by_cases hk : k = 1
    · rw [hk, if_pos rfl]
      simp [Store.begun, hcan.first]
    · rw [if_neg hk]
      simp only [Store.begun, hcan.first]
      rw [Table.find_insert_of_ne _ _ (by simp [hk])]
      cases hold : s.revisions.find (input.payload.grantId, k) with
      | none => rfl
      | some row =>
        obtain ⟨l, hl⟩ := h.owned _ _ _ hold
        rw [hcan.absent] at hl
        cases hl
  constructor
  · intro id lineage hl
    by_cases hid : id = input.payload.grantId
    · subst hid
      simp only [Store.begun, Table.find_insert_self, Option.some.injEq] at hl
      subst hl
      constructor
      · intro k
        rw [hrow]
        by_cases hk : k = 1 <;> simp [hk]
        omega
      · intro k row hk
        rw [hrow] at hk
        split at hk
        case isTrue hone =>
          cases hk
          exact ⟨input.payload, hcan.genuine.of_row, rfl, by rw [hcan.first, hone], rfl, rfl⟩
        case isFalse => cases hk
      · intro k a b ha hb
        rw [hrow] at ha hb
        split at ha
        case isTrue hone => simp [hone] at hb
        case isFalse => cases ha
      · exact ⟨revisionRow input, by rw [hrow, if_pos rfl], rfl, hcan.active⟩
    · have hold : s.lineages.find id = some lineage := by
        rwa [Store.begun, Table.find_insert_of_ne _ _ hid] at hl
      exact (h.sound id lineage hold).congr (find_insert_other hid)
  · intro id k row hk
    by_cases hid : id = input.payload.grantId
    · subst hid
      exact ⟨_, Table.find_insert_self _ _ _⟩
    · rw [Store.begun, find_insert_other hid] at hk
      obtain ⟨l, hl⟩ := h.owned _ _ _ hk
      exact ⟨l, by rw [Store.begun, Table.find_insert_of_ne _ _ hid, hl]⟩

theorem Integrity.extended (h : s.Integrity codec) {lineage : Lineage} {row : Revision}
    {input : SignedGrantRevision} (hcan : s.CanExtend codec lineage row input)
    (hissued : input.payload.issuedAt = row.issuedAt) :
    (s.extended lineage input).Integrity codec := by
  have hsound := h.sound _ _ hcan.lineage_eq
  have hrow : ∀ k, (s.extended lineage input).revisions.find (input.payload.grantId, k) =
      if k = lineage.currentRevision + 1 then some (revisionRow input)
      else s.revisions.find (input.payload.grantId, k) := by
    intro k
    simp only [Store.extended, hcan.next, Table.find_insert, Prod.mk.injEq, true_and]
  obtain ⟨row', hrow', hdigest, hstatus⟩ := hsound.current
  obtain rfl : row = row' := Option.some.inj (hcan.row_eq.symm.trans hrow')
  have hlast : row.Precedes (revisionRow input) :=
    ⟨hcan.previous_eq.trans (congrArg some hdigest.symm), hcan.later, hissued,
      hstatus.trans hcan.active⟩
  constructor
  · intro id l hl
    by_cases hid : id = input.payload.grantId
    · subst hid
      simp only [Store.extended, Table.find_insert_self, Option.some.injEq] at hl
      subst hl
      have hnext : (lineage.advance input).currentRevision = lineage.currentRevision + 1 :=
        hcan.next
      constructor
      · intro k
        rw [hrow, hnext]
        split
        case isTrue hk =>
          simp only [Option.some.injEq, exists_eq', true_iff]
          omega
        case isFalse hk =>
          rw [hsound.stored k]
          omega
      · intro k r hr
        rw [hrow] at hr
        split at hr
        case isTrue hk =>
          cases hr
          exact ⟨input.payload, hcan.genuine.of_row, rfl, hcan.next.trans hk.symm,
            hcan.grantor_eq.symm, hcan.grantee_eq.symm⟩
        case isFalse hk => exact hsound.payload k r hr
      · intro k a b ha hb
        rw [hrow] at ha hb
        split at ha
        case isTrue hk =>
          have hbeyond := (hsound.stored (k + 1)).mp ⟨b, by
            rwa [if_neg (by omega)] at hb⟩
          omega
        case isFalse hk =>
          split at hb
          case isTrue hk' =>
            cases hb
            obtain rfl : k = lineage.currentRevision := by omega
            obtain rfl : row = a := Option.some.inj (hcan.row_eq.symm.trans ha)
            exact hlast
          case isFalse hk' => exact hsound.precedes k a b ha hb
      · exact ⟨revisionRow input, by rw [hrow, if_pos hnext], rfl, rfl⟩
    · have hold : s.lineages.find id = some l := by
        rwa [Store.extended, Table.find_insert_of_ne _ _ hid] at hl
      exact (h.sound id l hold).congr (find_insert_other hid)
  · intro id k r hr
    by_cases hid : id = input.payload.grantId
    · subst hid
      exact ⟨_, Table.find_insert_self _ _ _⟩
    · rw [Store.extended, find_insert_other hid] at hr
      obtain ⟨l, hl⟩ := h.owned _ _ _ hr
      exact ⟨l, by rw [Store.extended, Table.find_insert_of_ne _ _ hid, hl]⟩

/-- The tables beside lineages and revisions do not matter to integrity. -/
theorem Integrity.of_eq (h : s.Integrity codec) (hl : t.lineages = s.lineages)
    (hr : t.revisions = s.revisions) : t.Integrity codec := by
  constructor
  · intro id lineage hid
    rw [hl] at hid
    exact (h.sound id lineage hid).congr fun k => by rw [hr]
  · intro id k row hk
    rw [hr] at hk
    rw [hl]
    exact h.owned id k row hk

variable {ambient : Ambient}

theorem Integrity.insertAuthoritativeRevision1 (h : s.Integrity codec)
    {input : AuthoritativeGrantRevision1}
    (hok : s.insertAuthoritativeRevision1 codec ambient input = .ok t) :
    t.Integrity codec ∧ s.Retains t := by
  obtain ⟨hcan, rfl⟩ := insertAuthoritativeRevision1_ok hok
  exact ⟨(h.begun hcan).of_eq rfl rfl, hcan.retains .grantor⟩

theorem Integrity.appendAuthoritativeUpdate (h : s.Integrity codec)
    {input : AuthoritativeGrantUpdate}
    (hok : s.appendAuthoritativeUpdate codec ambient input = .ok t) :
    t.Integrity codec ∧ s.Retains t := by
  obtain ⟨lineage, row, current, destination, hcan, -, hof, hchecked, rfl⟩ :=
    appendAuthoritativeUpdate_ok hok
  have hissued : input.revision.payload.issuedAt = row.issuedAt :=
    hchecked.issuedAt_eq.trans hof.issuedAt_eq.symm
  have hextended := h.extended hcan hissued
  cases input.consent with
  | none => exact ⟨hextended.of_eq rfl rfl, hcan.retains⟩
  | some consent => exact ⟨hextended.of_eq rfl rfl, hcan.retains⟩

/-- A received revision needs its issue time compared with the predecessor beforehand. -/
theorem Integrity.acceptReceivedRevision (h : s.Integrity codec) {input : ReceivedGrantRevision}
    (hissued : 1 < input.payload.revision → ∃ row,
      s.revisions.find (input.payload.grantId, input.payload.revision - 1) = some row ∧
        input.payload.issuedAt = row.issuedAt)
    (hok : s.acceptReceivedRevision codec ambient input = .ok t) :
    t.Integrity codec ∧ s.Retains t := by
  obtain ⟨-, ⟨hcan, rfl⟩ | ⟨lineage, hlineage, -, -, hcase⟩⟩ := acceptReceivedRevision_ok hok
  · exact ⟨h.begun hcan, hcan.retains .grantee⟩
  · obtain ⟨-, -, rfl⟩ | ⟨-, -, rfl⟩ | ⟨-, row, hcan, rfl⟩ := hcase
    · exact ⟨h.of_eq rfl rfl, Retains.refl s⟩
    · exact ⟨h, Retains.refl _⟩
    · have hpos := ((h.sound _ _ hlineage).stored lineage.currentRevision).mp ⟨row, hcan.row_eq⟩
      have hnext : input.payload.revision = lineage.currentRevision + 1 := hcan.next
      obtain ⟨row', hrow', heq⟩ := hissued (by omega)
      have hrow : s.revisions.find (input.payload.grantId, lineage.currentRevision) = some row :=
        hcan.row_eq
      rw [hnext, Nat.add_sub_cancel, hrow] at hrow'
      cases hrow'
      exact ⟨h.extended hcan heq, hcan.retains⟩

end Store

/-- A revision that was read is a stored one. -/
def SignedGrantRevision.StoredIn (codec : Codec) (s : Store) (signed : SignedGrantRevision) :
    Prop :=
  ∃ row, s.revisions.find (signed.payload.grantId, signed.payload.revision) = some row ∧
    row.Of codec signed.payload ∧ signed.representation = row.cose ∧
    signed.digest = row.representationDigest

theorem SignedGrantRevision.StoredIn.mono {signed : SignedGrantRevision}
    (h : signed.StoredIn codec s) (hretains : s.Retains t) : signed.StoredIn codec t := by
  obtain ⟨row, hrow, hrest⟩ := h
  exact ⟨row, hretains _ _ hrow, hrest⟩

theorem findCurrentByGrantId_ok {grantId : Uuid} {current : SignedGrantRevision}
    (h : s.findCurrentByGrantId codec grantId = .ok (some current)) :
    ∃ lineage row, s.lineages.find grantId = some lineage ∧
      s.revisions.find (grantId, lineage.currentRevision) = some row ∧
      row.Of codec current.payload ∧ current.payload.grantId = grantId ∧
      current.payload.revision = lineage.currentRevision ∧
      current = row.signed lineage current.payload := by
  unfold Store.findCurrentByGrantId at h
  cases hcurrent : s.current grantId with
  | none => simp [hcurrent] at h
  | some pair =>
    obtain ⟨lineage, row⟩ := pair
    rw [hcurrent] at h
    cases hread : grantFromRow codec grantId lineage lineage.currentRevision row with
    | error fault => simp [hread, Except.map] at h
    | ok signed =>
      simp only [hread, Except.map, Except.ok.injEq, Option.some.injEq] at h
      subst h
      obtain ⟨payload, hof, hid, -, -, hrevision, rfl⟩ := grantFromRow_eq_ok.mp hread
      obtain ⟨hlineage, hrow⟩ := Store.current_eq_some.mp hcurrent
      exact ⟨lineage, row, hlineage, hrow, hof, hid, hrevision, rfl⟩

theorem storedIn_of_findCurrent {grantId : Uuid} {current : SignedGrantRevision}
    (h : s.findCurrentByGrantId codec grantId = .ok (some current)) :
    current.payload.grantId = grantId ∧ current.StoredIn codec s := by
  obtain ⟨lineage, row, -, hrow, hof, hid, hrevision, heq⟩ := findCurrentByGrantId_ok h
  refine ⟨hid, row, ?_, hof, ?_, ?_⟩
  · rw [hid, hrevision, hrow]
  · rw [heq]
    rfl
  · rw [heq]
    rfl

/-- The second statement changes at most in whose name the current revision is read. -/
theorem receivedForSender_eq_some {ambient : Ambient} {current : Option SignedGrantRevision}
    {grantId : Uuid} {sender : Did} {received : SignedGrantRevision}
    (h : s.receivedForSender ambient current grantId sender = some received) :
    ∃ c, current = some c ∧ received.payload = c.payload ∧
      received.representation = c.representation ∧ received.digest = c.digest ∧
      received.localRole = .grantee := by
  unfold Store.receivedForSender at h
  cases current with
  | none => simp at h
  | some c =>
    refine ⟨c, rfl, ?_⟩
    simp only at h
    split at h
    · cases h
    · split at h
      case h_1 hrole =>
        cases h
        exact ⟨rfl, rfl, rfl, hrole⟩
      case h_2 =>
        split at h
        · cases h
        · split at h
          · cases h
          · split at h
            · cases h
              exact ⟨rfl, rfl, rfl, rfl⟩
            · cases h

/-- What the comparison before the transaction establishes. -/
theorem compare_ok {current : Option SignedGrantRevision} {input : Store.ReceivedGrantRevision}
    {u : Unit} (h : compare current input = .ok u) :
    (current = none ∧ input.payload.revision = 1 ∧ input.payload.status = .active) ∨
    ∃ c, current = some c ∧ input.payload.issuedAt = c.payload.issuedAt ∧
      input.payload.revision = c.payload.revision + 1 := by
  simp only [compare, guard_eq_ok] at h
  obtain ⟨-, h⟩ := h
  cases current with
  | none =>
    simp only [guard_eq_ok, not_or, not_not, ne_eq] at h
    exact .inl ⟨rfl, h.1⟩
  | some c =>
    simp only [guard_eq_ok, not_or, not_not, ne_eq] at h
    obtain ⟨-, ⟨-, -, -, hissued, hnext, -⟩, -⟩ := h
    exact .inr ⟨c, rfl, hissued, hnext⟩

/-- What a call under way knows of the store. -/
structure Call.Sound (codec : Codec) (s : Store) (call : Call) : Prop where
  genuine : call.input.signed.Genuine codec
  looking : ∀ c, call.phase = .looking (some c) →
    c.payload.grantId = call.input.payload.grantId ∧ c.StoredIn codec s
  storing : call.phase = .storing → 1 < call.input.payload.revision → ∃ row,
    s.revisions.find (call.input.payload.grantId, call.input.payload.revision - 1) = some row ∧
      call.input.payload.issuedAt = row.issuedAt

theorem Call.Sound.mono {call : Call} (h : call.Sound codec s) (hretains : s.Retains t) :
    call.Sound codec t := by
  refine ⟨h.genuine, fun c hc => ?_, fun hphase hlt => ?_⟩
  · exact ⟨(h.looking c hc).1, (h.looking c hc).2.mono hretains⟩
  · obtain ⟨row, hrow, heq⟩ := h.storing hphase hlt
    exact ⟨row, hretains _ _ hrow, heq⟩

theorem authenticate_ok {serviceBase : String} {auth : Authentication} {request : Request}
    {input : Store.ReceivedGrantRevision}
    (h : authenticate codec serviceBase auth request = .ok input) :
    input.signed.Genuine codec ∧ input.representation = request.representation ∧
      input.payload.grantId = request.pathGrantId := by
  unfold authenticate at h
  cases hinspect : codec.inspectGrant request.representation with
  | none => simp [hinspect] at h
  | some payload =>
    cases hkey : auth.identityDidKey with
    | none => simp [hinspect, hkey] at h
    | some key =>
      cases hbase : auth.granteeServiceBase with
      | none => simp [hinspect, hkey, hbase] at h
      | some base =>
        simp only [hinspect, hkey, hbase, guard_eq_ok, not_not, ne_eq] at h
        obtain ⟨hid, -, h⟩ := h
        cases haccount : auth.account with
        | none => simp [haccount] at h
        | some account =>
          simp only [haccount, guard_eq_ok, Except.ok.injEq] at h
          obtain ⟨-, rfl⟩ := h
          exact ⟨⟨hinspect, rfl⟩, rfl, hid⟩

theorem receive_ok {serviceBase : String} {auth : Authentication} {wallClock : Nat}
    {request : Request} {call : Call}
    (h : receive codec serviceBase auth wallClock request = .ok call) :
    call.phase = .reading ∧ call.input.signed.Genuine codec ∧
      call.input.representation = request.representation ∧
      call.input.payload.grantId = request.pathGrantId := by
  simp only [receive, bind_eq_ok, Except.ok.injEq] at h
  obtain ⟨input, hauth, _, _, _, _, rfl⟩ := h
  exact ⟨rfl, authenticate_ok hauth⟩

/-- One step of a call keeps the store intact and the call sound. -/
theorem Call.Sound.advance {call : Call} (h : call.Sound codec s) (hs : s.Integrity codec)
    (ambient : Ambient) :
    let next := call.advance codec s ambient
    next.1.Integrity codec ∧ s.Retains next.1 ∧
      ∀ call', next.2 = .inl call' → call'.Sound codec next.1 := by
  unfold Call.advance
  cases hphase : call.phase with
  | reading =>
    simp only
    cases hread : s.findCurrentByGrantId codec call.input.payload.grantId with
    | error _ => exact ⟨hs, .refl s, by simp⟩
    | ok current =>
      refine ⟨hs, .refl s, fun call' hcall => ?_⟩
      cases hcall
      refine ⟨h.genuine, fun c hc => ?_, by simp⟩
      simp only [Phase.looking.injEq] at hc
      exact storedIn_of_findCurrent (hc ▸ hread)
  | looking current =>
    simp only
    cases hcompare : compare (s.receivedForSender ambient current call.input.payload.grantId
        call.input.payload.grantee) call.input with
    | error _ => exact ⟨hs, .refl s, by simp⟩
    | ok _ =>
      refine ⟨hs, .refl s, fun call' hcall => ?_⟩
      cases hcall
      refine ⟨h.genuine, by simp, fun _ hlt => ?_⟩
      obtain ⟨-, hfirst, -⟩ | ⟨received, hreceived, hissued, hnext⟩ := compare_ok hcompare
      · simp only at hlt
        omega
      · obtain ⟨c, rfl, hpayload, -⟩ := receivedForSender_eq_some hreceived
        obtain ⟨hid, row, hrow, hof, -⟩ := h.looking c hphase
        refine ⟨row, ?_, ?_⟩
        · simp only [hnext, Nat.add_sub_cancel, hpayload, ← hid, hrow]
        · simp only [hissued, hpayload, hof.issuedAt_eq]
  | storing =>
    simp only
    cases hstore : s.acceptReceivedRevision codec ambient call.input with
    | ok s' =>
      obtain ⟨hintegrity, hretains⟩ := hs.acceptReceivedRevision (h.storing hphase) hstore
      exact ⟨hintegrity, hretains, by simp⟩
    | error fault =>
      simp only
      split
      · refine ⟨hs, .refl s, fun call' hcall => ?_⟩
        cases hcall
        exact ⟨h.genuine, by simp, by simp⟩
      · exact ⟨hs, .refl s, by simp⟩
  | rereading =>
    simp only
    cases hread : s.findCurrentByGrantId codec call.input.payload.grantId with
    | error _ => exact ⟨hs, .refl s, by simp⟩
    | ok winner =>
      refine ⟨hs, .refl s, fun call' hcall => ?_⟩
      cases hcall
      exact ⟨h.genuine, by simp, by simp⟩
  | relooking winner =>
    simp only
    split <;> exact ⟨hs, .refl s, by simp⟩

/-- A call changes the store only by its storing transaction. -/
theorem Call.advance_store (call : Call) (codec : Codec) (s : Store) (ambient : Ambient) :
    (call.advance codec s ambient).1 = s ∨ ∃ t,
      s.acceptReceivedRevision codec ambient call.input = .ok t ∧
        (call.advance codec s ambient).1 = t := by
  unfold Call.advance
  cases call.phase with
  | storing =>
    simp only
    cases hstore : s.acceptReceivedRevision codec ambient call.input with
    | ok t => exact .inr ⟨t, rfl, rfl⟩
    | error fault =>
      left
      simp only
      split <;> rfl
  | reading =>
    left
    simp only
    split <;> rfl
  | looking current =>
    left
    simp only
    split <;> rfl
  | rereading =>
    left
    simp only
    split <;> rfl
  | relooking winner =>
    left
    simp only
    split <;> rfl

/-- A provider's grant store and the `receive` calls under way at it. -/
structure Provider where
  store : Store
  calls : List Call

/-- What happens at a provider. A transaction that raises is an event as well. -/
inductive Event
  | insertAuthoritativeRevision1 (ambient : Ambient) (input : AuthoritativeGrantRevision1)
  | appendAuthoritativeUpdate (ambient : Ambient) (input : AuthoritativeGrantUpdate)
  | receive (auth : Authentication) (wallClock : Nat) (request : Request)
  | advance (index : Nat) (ambient : Ambient)

/-- Keep the store when the transaction raises. -/
def Provider.commit (p : Provider) : Except Fault Store → Provider
  | .ok store => { p with store }
  | .error _ => p

/-- One event at a provider that serves `serviceBase`. -/
def Provider.step (codec : Codec) (serviceBase : String) (p : Provider) : Event → Option Provider
  | .insertAuthoritativeRevision1 ambient input =>
    some (p.commit (p.store.insertAuthoritativeRevision1 codec ambient input))
  | .appendAuthoritativeUpdate ambient input =>
    some (p.commit (p.store.appendAuthoritativeUpdate codec ambient input))
  | .receive auth wallClock request =>
    match receive codec serviceBase auth wallClock request with
    | .ok call => some { p with calls := p.calls ++ [call] }
    | .error _ => some p
  | .advance index ambient =>
    match p.calls[index]? with
    | none => none
    | some call =>
      match call.advance codec p.store ambient with
      | (store, .inl call') => some ⟨store, p.calls.set index call'⟩
      | (store, .inr _) => some ⟨store, p.calls.eraseIdx index⟩

/-- The store is intact and every call under way is sound. -/
structure Provider.Sound (codec : Codec) (p : Provider) : Prop where
  store : p.store.Integrity codec
  calls : ∀ call ∈ p.calls, call.Sound codec p.store

theorem Provider.Sound.commit {p : Provider} (h : p.Sound codec) {result : Except Fault Store}
    (hresult : ∀ t, result = .ok t → t.Integrity codec ∧ p.store.Retains t) :
    (p.commit result).Sound codec := by
  cases result with
  | error _ => exact h
  | ok t =>
    obtain ⟨hintegrity, hretains⟩ := hresult t rfl
    exact ⟨hintegrity, fun call hcall => (h.calls call hcall).mono hretains⟩

theorem Provider.Sound.step {serviceBase : String} {p q : Provider} (h : p.Sound codec)
    (event : Event) (hstep : p.step codec serviceBase event = some q) : q.Sound codec := by
  cases event with
  | insertAuthoritativeRevision1 ambient input =>
    cases hstep
    exact h.commit fun t ht => h.store.insertAuthoritativeRevision1 ht
  | appendAuthoritativeUpdate ambient input =>
    cases hstep
    exact h.commit fun t ht => h.store.appendAuthoritativeUpdate ht
  | receive auth wallClock request =>
    simp only [Provider.step] at hstep
    cases hreceive : Grants.receive codec serviceBase auth wallClock request with
    | error _ =>
      simp only [hreceive, Option.some.injEq] at hstep
      exact hstep ▸ h
    | ok call =>
      simp only [hreceive, Option.some.injEq] at hstep
      subst hstep
      refine ⟨h.store, fun call' hcall => ?_⟩
      rcases List.mem_append.mp hcall with hold | hnew
      · exact h.calls call' hold
      · obtain rfl := List.mem_singleton.mp hnew
        obtain ⟨hphase, hgenuine, -⟩ := receive_ok hreceive
        exact ⟨hgenuine, by simp [hphase], by simp [hphase]⟩
  | advance index ambient =>
    simp only [Provider.step] at hstep
    cases hcall : p.calls[index]? with
    | none => simp [hcall] at hstep
    | some call =>
      have hmem := List.mem_of_getElem? hcall
      obtain ⟨hintegrity, hretains, hnext⟩ := (h.calls call hmem).advance h.store ambient
      have hothers : ∀ call' ∈ p.calls,
          call'.Sound codec (call.advance codec p.store ambient).1 :=
        fun call' h' => (h.calls call' h').mono hretains
      rw [hcall] at hstep
      rcases hadvance : call.advance codec p.store ambient with ⟨store, call' | answer⟩
      · simp only [hadvance, Option.some.injEq] at hstep hintegrity hnext hothers
        subst hstep
        refine ⟨hintegrity, fun call'' hmem'' => ?_⟩
        rcases List.mem_or_eq_of_mem_set hmem'' with hold | rfl
        · exact hothers call'' hold
        · exact hnext _ rfl
      · simp only [hadvance, Option.some.injEq] at hstep hintegrity hothers
        subst hstep
        refine ⟨hintegrity, fun call'' hmem'' => ?_⟩
        exact hothers call'' (List.mem_of_mem_eraseIdx hmem'')

/-- The invariant holds in every state a provider reaches. -/
theorem Provider.sound_of_reachable {serviceBase : String} {p : Provider}
    (h : Reachable (Provider.step codec serviceBase) ⟨∅, []⟩ p) : p.Sound codec :=
  h.invariant ⟨Store.empty_integrity, by simp⟩ fun event hs _ hstep => hs.step event hstep

/-- An intact lineage, in the terms of its rows and their signed representations. -/
structure LineageIntact (codec : Codec) (s : Store) (id : Uuid) (lineage : Lineage) : Prop where
  /-- The stored revisions are exactly `1..n`. -/
  revisions : 1 ≤ lineage.currentRevision ∧
    ∀ k, (s.revisions.find (id, k)).isSome ↔ 1 ≤ k ∧ k ≤ lineage.currentRevision
  /-- Every revision names the digest of its predecessor's stored bytes. -/
  previous : ∀ k a b, s.revisions.find (id, k) = some a → s.revisions.find (id, k + 1) = some b →
    b.previousDigest = some (codec.sha256 a.cose)
  updatedAt : ∀ j k a b, j < k → s.revisions.find (id, j) = some a →
    s.revisions.find (id, k) = some b → a.updatedAt < b.updatedAt
  issuedAt : ∀ j k a b, s.revisions.find (id, j) = some a → s.revisions.find (id, k) = some b →
    a.issuedAt = b.issuedAt
  /-- Every row is the metadata of a payload between the lineage's two parties. -/
  parties : ∀ k row, s.revisions.find (id, k) = some row → ∃ payload, row.Of codec payload ∧
    payload.grantId = id ∧ payload.revision = k ∧ payload.grantor = lineage.grantorDid ∧
    payload.grantee = lineage.granteeDid
  revoked : ∀ k row, s.revisions.find (id, k) = some row → row.status = .revoked →
    k = lineage.currentRevision
  /-- The lineage row describes the last revision. -/
  current : ∃ row, s.revisions.find (id, lineage.currentRevision) = some row ∧
    lineage.currentDigest = codec.sha256 row.cose ∧ lineage.currentStatus = row.status

namespace LineageSound

variable {id : Uuid} {lineage : Lineage}

/-- Between two stored revisions, everything a step fixes holds across all of them. -/
theorem chain (h : LineageSound codec s id lineage) {j k : Nat} {a b : Revision} (hjk : j < k)
    (ha : s.revisions.find (id, j) = some a) (hb : s.revisions.find (id, k) = some b) :
    a.updatedAt < b.updatedAt ∧ b.issuedAt = a.issuedAt ∧ a.status = .active := by
  -- Induction on the later revision; its predecessor is stored as well.
  induction k generalizing b with
  | zero => omega
  | succ k ih =>
    have hj := (h.stored j).mp ⟨a, ha⟩
    have hk := (h.stored (k + 1)).mp ⟨b, hb⟩
    obtain ⟨c, hc⟩ := (h.stored k).mpr ⟨by omega, by omega⟩
    have hcb := h.precedes k c b hc hb
    rcases Nat.lt_succ_iff_lt_or_eq.mp hjk with hlt | rfl
    · obtain ⟨hupdated, hissued, hactive⟩ := ih hlt hc
      exact ⟨hupdated.trans hcb.updatedAt_lt, hcb.issuedAt_eq.trans hissued, hactive⟩
    · obtain rfl : a = c := Option.some.inj (ha.symm.trans hc)
      exact ⟨hcb.updatedAt_lt, hcb.issuedAt_eq, hcb.active⟩

theorem intact (h : LineageSound codec s id lineage) : LineageIntact codec s id lineage := by
  obtain ⟨last, hlast, hdigest, hstatus⟩ := h.current
  obtain ⟨_, hof, _⟩ := h.payload _ last hlast
  have hpos := (h.stored _).mp ⟨last, hlast⟩
  constructor
  · refine ⟨hpos.1, fun k => ?_⟩
    rw [Option.isSome_iff_exists]
    exact h.stored k
  · intro k a b ha hb
    obtain ⟨_, hofa, _⟩ := h.payload k a ha
    rw [(h.precedes k a b ha hb).previous_eq, hofa.digest_eq]
  · intro j k a b hjk ha hb
    exact (h.chain hjk ha hb).1
  · intro j k a b ha hb
    rcases Nat.lt_trichotomy j k with hjk | rfl | hkj
    · exact (h.chain hjk ha hb).2.1.symm
    · rw [Option.some.inj (ha.symm.trans hb)]
    · exact (h.chain hkj hb ha).2.1
  · exact h.payload
  · intro k row hrow hrevoked
    by_contra hne
    have hk := (h.stored k).mp ⟨row, hrow⟩
    have hactive := (h.chain (by omega) hrow hlast).2.2
    rw [hactive] at hrevoked
    cases hrevoked
  · exact ⟨last, hlast, hdigest.symm.trans hof.digest_eq, hstatus.symm⟩

end LineageSound

/-- In every reachable state of a provider, every stored revision belongs to a lineage and every
lineage, of either role, is intact. -/
theorem lineages_intact {serviceBase : String} {p : Provider}
    (h : Reachable (Provider.step codec serviceBase) ⟨∅, []⟩ p) :
    (∀ id k row, p.store.revisions.find (id, k) = some row →
      ∃ lineage, p.store.lineages.find id = some lineage) ∧
    ∀ id lineage, p.store.lineages.find id = some lineage →
      LineageIntact codec p.store id lineage := by
  have hsound := Provider.sound_of_reachable h
  exact ⟨hsound.store.owned, fun id lineage hl => (hsound.store.sound id lineage hl).intact⟩

/-! ## A signed grant and its restriction

An address binding, a sender profile and two grant revisions, signed with test keys; the profile
is the one of `hail-codec-ts/vectors/v0.json`. The digests are their SHA-256 values. -/

/-- Bytes written as 32-byte words. -/
def words (values : List Nat) : Bytes := values.flatMap (beBytes 32)

/-- A record, encoded. -/
def recordBytes (fields : List (String × Cbor.Value)) : Bytes :=
  (Cbor.Value.map (fields.map fun field => (.text field.1, field.2))).encoding

/-- A signed object of a type, under the identifier of a key. -/
def signedBytes (type keyId : String) (fields : List (String × Cbor.Value)) (signature : List Nat) :
    Bytes :=
  (Cbor.Value.tag 18 (.array
    [.bytes (Cbor.Value.map [(.int 1, .int (-19)), (.int 3, .text ("application/" ++ type ++ "+cbor")),
      (.int 4, .bytes (Cbor.asBytes keyId))]).encoding,
    .map [], .bytes (recordBytes fields), .bytes (words signature)])).encoding

namespace Sample

def bindingDigest : Bytes :=
  beBytes 32 0x14897c46c63a001e6b4427d57f3336bf16bf7bb706e49f5a3b6f9af57923da5a

def profileDigest : Bytes :=
  beBytes 32 0x7ed3377ce7442de6f38644df908fa7c0fe7a2d15e607f38af736fb5b2bd93d1d

def firstDigest : Bytes :=
  beBytes 32 0x8f2888c5620ff10c9e44ad4431ed74ecfd8d3241c8a7e8e6a5cf722ae114ed93

def secondDigest : Bytes :=
  beBytes 32 0xfc3c7b0c3fbd6c88ad2fabfd170c0a0c2e7854ac37100e25b5205a41cd4bdd38

def alice : Did := "did:plc:aaaaaaaaaaaaaaaaaaaaaaaa"

def store : Did := "did:plc:bbbbbbbbbbbbbbbbbbbbbbbb"

def grantId : Uuid := "01954144-8097-7a9d-a7a8-ef29a823eaf1"

def binding : AddressBinding :=
  ⟨"updates@store.example.com", store, 1787851200, store ++ "#hail-identity"⟩

def profile : SenderProfile :=
  ⟨store, 1, "Example Store", some "Receipts and account notifications",
    [⟨"receipts", "Receipts", none⟩, ⟨"security-alerts", "Security alerts", none⟩],
    1787851200, store ++ "#hail-messaging", []⟩

def consentContext : ConsentContext :=
  ⟨"updates@store.example.com", bindingDigest, profileDigest⟩

def first : HailGrant where
  grantId := grantId
  revision := 1
  previous := none
  grantor := alice
  grantee := store
  scope := .categories ["receipts", "security-alerts"]
  status := .active
  issuedAt := 1787851200
  updatedAt := 1787851200
  expiresAt := none
  consentContext := consentContext
  keyId := alice ++ "#hail-identity"
  revision_pos := by decide
  previous_shape := rfl
  issuedAt_le := le_refl _

def second : HailGrant where
  grantId := grantId
  revision := 2
  previous := some firstDigest
  grantor := alice
  grantee := store
  scope := .categories ["receipts"]
  status := .active
  issuedAt := 1787851200
  updatedAt := 1787851260
  expiresAt := none
  consentContext := consentContext
  keyId := alice ++ "#hail-identity"
  revision_pos := by decide
  previous_shape := by decide +kernel
  issuedAt_le := by decide

/-- A signed address binding. -/
def bindingBytes (binding : AddressBinding) : List Nat → Bytes :=
  signedBytes "hail-address-binding" binding.keyId
    [("did", .text binding.did), ("type", .text "hail.address-binding"),
     ("key_id", .text binding.keyId), ("address", .text binding.address), ("version", .int 2),
     ("issued_at", .int binding.issuedAt)]

/-- A SHA-256 digest in a record. -/
def digestValue (digest : Bytes) : Cbor.Value :=
  .map [(.text "value", .bytes digest), (.text "algorithm", .text "sha-256")]

/-- A signed active grant of some categories. -/
def grantBytes (grant : HailGrant) (categories : List String) : List Nat → Bytes :=
  signedBytes "hail-grant" grant.keyId
    [("type", .text "hail.grant"),
     ("scope", .array [.map [(.text "type", .text "categories"),
       (.text "values", .array (categories.map .text))]]),
     ("key_id", .text grant.keyId), ("status", .text "active"), ("grantee", .text grant.grantee),
     ("grantor", .text grant.grantor), ("version", .int 1), ("grant_id", .text grant.grantId),
     ("previous", (grant.previous.map .bytes).getD .null), ("revision", .int grant.revision),
     ("issued_at", .int grant.issuedAt), ("expires_at", .null),
     ("updated_at", .int grant.updatedAt),
     ("consent_context", .map [(.text "grantee_address", .text binding.address),
       (.text "sender_profile_hash", digestValue profileDigest),
       (.text "address_binding_hash", digestValue bindingDigest)])]

/-- The grantee's signed address binding. -/
def bindingCose : Bytes :=
  bindingBytes binding
    [0x4b99d621537a36927a2fbcc659e8b413dd305ac0f5ac1df9484c28390c3ae4e0,
     0x9b23f26d0009e1f262b03af3760bedc0cde0b8b5bf70aff51a23081576108d09]

/-- The grantee's signed sender profile. -/
def profileCose : Bytes :=
  signedBytes "hail-sender-profile" profile.keyId
    [("did", .text store), ("type", .text "hail.sender-profile"), ("key_id", .text profile.keyId),
     ("version", .int 1), ("revision", .int 1),
     ("categories", .array (profile.categories.map fun category =>
       .map [(.text "id", .text category.id), (.text "label", .text category.label)])),
     ("updated_at", .int profile.updatedAt),
     ("description", .text "Receipts and account notifications"),
     ("display_name", .text profile.displayName)]
    [0xc35504d707cd78cf25b82315c6ca7ce342cad28910e4ac58e65498b507891e64,
     0xfca0cc032c7f779b4f4fc6473ac97ebb0a8c2ef430800ace96a07f47d9dc9e02]

/-- Revision 1: receipts and security alerts. -/
def firstCose : Bytes :=
  grantBytes first ["receipts", "security-alerts"]
    [0x9439b471c3a82bf008e523ef1f6f034ce6ae9b429315862be2d508d5a17071c3,
     0x258d560bb4108d8a286e89660f1df414903d8d05541df9cf75d154a2b3d08400]

/-- Revision 2: receipts only. -/
def secondCose : Bytes :=
  grantBytes second ["receipts"]
    [0x07fd1f4cda7ca4f1c85551b20df741a01025f4730e6631b6fd3e993e2bbc5e1f,
     0xe990697e0f8feff2c6049e44f25d0de44fdf4e8d0d8b065efeca0b82b370ca01]

/-- The codec on the representations above. -/
def sampleCodec : Codec where
  inspectGrant bytes :=
    if bytes = firstCose then some first else if bytes = secondCose then some second else none
  inspectBinding bytes := if bytes = bindingCose then some binding else none
  inspectProfile bytes := if bytes = profileCose then some profile else none
  sha256 bytes :=
    if bytes = firstCose then firstDigest
    else if bytes = secondCose then secondDigest
    else if bytes = bindingCose then bindingDigest
    else if bytes = profileCose then profileDigest
    else List.replicate 32 0
  sha256_length bytes := by
    have hfirst : firstDigest.length = 32 := by decide +kernel
    have hsecond : secondDigest.length = 32 := by decide +kernel
    have hbinding : bindingDigest.length = 32 := by decide +kernel
    have hprofile : profileDigest.length = 32 := by decide +kernel
    split_ifs <;> simp [hfirst, hsecond, hbinding, hprofile]

/-- Alice's account and the store's account, wherever they are hosted. -/
def aliceAccount : Uuid := "01954144-0000-7000-8000-00000000000a"

def storeAccount : Uuid := "01954144-0000-7000-8000-00000000000b"

def ambient : Ambient where
  account id :=
    if id = aliceAccount then some ⟨some alice, true⟩
    else if id = storeAccount then some ⟨some store, true⟩ else none
  fence _ := none
  authority := none
  now := 1787851200000

def firstInput : AuthoritativeGrantRevision1 where
  revision := ⟨aliceAccount, .grantor, first, firstCose, firstDigest, "did:key:alice"⟩
  consent := ⟨⟨binding.address, store, binding, bindingCose, bindingDigest⟩,
    ⟨store, profile, profileCose, profileDigest⟩⟩
  destinationServiceBase := "https://store.example.com/hail"

def secondInput : AuthoritativeGrantUpdate where
  revision := ⟨aliceAccount, .grantor, second, secondCose, secondDigest, "did:key:alice"⟩
  expectedCurrentRevision := 1
  expectedCurrentDigest := firstDigest
  consent := none
  destinationServiceBase := none

/-- The grant and its restriction at Alice's provider. -/
def grantAndRestrict : List Event :=
  [.insertAuthoritativeRevision1 ambient firstInput, .appendAuthoritativeUpdate ambient secondInput]

end Sample

theorem lineages_intact_sample : ∃ p lineage,
    exec (Provider.step Sample.sampleCodec "https://alice.example/hail") ⟨∅, []⟩
      Sample.grantAndRestrict = some p ∧
    p.store.lineages.find Sample.grantId = some lineage ∧ lineage.currentRevision = 2 ∧
    LineageIntact Sample.sampleCodec p.store Sample.grantId lineage := by
  have hrun : ((exec (Provider.step Sample.sampleCodec "https://alice.example/hail") ⟨∅, []⟩
      Sample.grantAndRestrict).bind fun p => p.store.lineages.find Sample.grantId).map
        Lineage.currentRevision = some 2 := by decide +kernel
  simp only [Option.map_eq_some_iff, Option.bind_eq_some_iff] at hrun
  obtain ⟨lineage, ⟨p, hp, hlineage⟩, hrevision⟩ := hrun
  exact ⟨p, lineage, hp, hlineage, hrevision,
    (lineages_intact (reachable_of_exec hp)).2 _ _ hlineage⟩

end HailProto.Grants
