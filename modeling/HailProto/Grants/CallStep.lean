import HailProto.Grants.Lineage

/-!
# One step of a receive call

What a call does to the store it works on, in one statement: the store stays intact and keeps
what it has, at most the call's own revision is added, and only a stored revision is answered
with an entity tag.
-/

namespace HailProto.Grants

open Server

variable {codec : Codec} {store store' : Store} {ambient : Ambient}

theorem storedIn_digest {signed : SignedGrantRevision} (h : signed.StoredIn codec store) :
    signed.Genuine codec := by
  obtain ⟨row, -, hof, hrepresentation, hdigest⟩ := h
  refine ⟨hrepresentation ▸ hof.inspected, ?_⟩
  rw [hdigest, hof.digest_eq, hrepresentation]

/-- Two genuine revisions with one representation are the same revision. -/
theorem storedIn_of_representation {a b : SignedGrantRevision} (h : a.StoredIn codec store)
    (hb : b.Genuine codec) (heq : a.representation = b.representation) :
    b.StoredIn codec store := by
  have ha := storedIn_digest h
  have hpayload : a.payload = b.payload :=
    Option.some.inj (ha.inspected.symm.trans ((congrArg _ heq).trans hb.inspected))
  obtain ⟨row, hrow, hof, hrepresentation, hdigest⟩ := h
  refine ⟨row, hpayload ▸ hrow, hpayload ▸ hof, heq ▸ hrepresentation, ?_⟩
  rw [hb.digest_eq, ← heq, ← ha.digest_eq, hdigest]

theorem storedIn_insert {input : SignedGrantRevision} (h : input.Genuine codec)
    (hrevisions : store'.revisions = store.revisions.insert
      (input.payload.grantId, input.payload.revision) (Store.revisionRow input)) :
    input.StoredIn codec store' :=
  ⟨Store.revisionRow input, by rw [hrevisions, Table.find_insert_self], h.of_row, rfl, rfl⟩

/-- A stored row with the input's bytes is the input. -/
theorem storedIn_of_row {input : SignedGrantRevision} {row : Revision}
    (hs : store.Integrity codec) (h : input.Genuine codec)
    (hrow : store.revisions.find (input.payload.grantId, input.payload.revision) = some row)
    (hcose : row.cose = input.representation) : input.StoredIn codec store := by
  obtain ⟨lineage, hlineage⟩ := hs.owned _ _ _ hrow
  obtain ⟨payload, hof, -⟩ := (hs.sound _ _ hlineage).payload _ _ hrow
  have hpayload : payload = input.payload :=
    Option.some.inj (hof.inspected.symm.trans ((congrArg _ hcose).trans h.inspected))
  refine ⟨row, hrow, hpayload ▸ hof, hcose.symm, ?_⟩
  rw [h.digest_eq, hof.digest_eq, hcose]

/-- An accepted revision is stored, and it is the only one that was added. -/
theorem acceptReceivedRevision_stores {input : Store.ReceivedGrantRevision}
    (hs : store.Integrity codec)
    (hok : store.acceptReceivedRevision codec ambient input = .ok store') :
    input.signed.StoredIn codec store' ∧ store'.publications = store.publications ∧
      ∀ key row, store'.revisions.find key = some row → store.revisions.find key = some row ∨
        (key = (input.payload.grantId, input.payload.revision) ∧
          row.cose = input.representation) := by
  have hadded : ∀ key row, (store.revisions.insert
      (input.payload.grantId, input.payload.revision)
      (Store.revisionRow input.signed)).find key = some row →
      store.revisions.find key = some row ∨
        (key = (input.payload.grantId, input.payload.revision) ∧
          row.cose = input.representation) := by
    intro key row h
    by_cases hkey : key = (input.payload.grantId, input.payload.revision)
    · rw [hkey, Table.find_insert_self] at h
      cases h
      exact .inr ⟨hkey, rfl⟩
    · rw [Table.find_insert_of_ne _ _ hkey] at h
      exact .inl h
  obtain ⟨hgenuine, ⟨hcan, rfl⟩ | ⟨lineage, -, -, -, hcase⟩⟩ := Store.acceptReceivedRevision_ok hok
  · exact ⟨storedIn_insert hgenuine rfl, rfl, hadded⟩
  · obtain ⟨-, ⟨row, hrow, hcose⟩, rfl⟩ | ⟨-, ⟨row, hrow, hcose⟩, rfl⟩ | ⟨-, row, hcan, rfl⟩ := hcase
    · exact ⟨storedIn_of_row (hs.of_eq rfl rfl) hgenuine hrow hcose, rfl, fun _ _ h => .inl h⟩
    · exact ⟨storedIn_of_row hs hgenuine hrow hcose, rfl, fun _ _ h => .inl h⟩
    · exact ⟨storedIn_insert hgenuine rfl, rfl, hadded⟩

/-- An accepted revision leaves every lineage with its owner. -/
theorem acceptReceivedRevision_owners {input : Store.ReceivedGrantRevision}
    (hok : store.acceptReceivedRevision codec ambient input = .ok store') {id : Uuid}
    {lineage : Lineage} (hlineage : store'.lineages.find id = some lineage) :
    (∃ old, store.lineages.find id = some old ∧ lineage.localRole = old.localRole ∧
      lineage.localAccountId = old.localAccountId ∧ lineage.granteeDid = old.granteeDid) ∨
    (lineage.localRole = .grantee ∧ lineage.localAccountId = input.localAccountId ∧
      lineage.granteeDid = input.payload.grantee) := by
  have hkept : store.lineages.find id = some lineage →
      ∃ old, store.lineages.find id = some old ∧ lineage.localRole = old.localRole ∧
        lineage.localAccountId = old.localAccountId ∧ lineage.granteeDid = old.granteeDid :=
    fun h => ⟨lineage, h, rfl, rfl, rfl⟩
  obtain ⟨-, ⟨hcan, rfl⟩ | ⟨old, hold, -, -, hcase⟩⟩ := Store.acceptReceivedRevision_ok hok
  · rw [Store.begun, Table.find_insert] at hlineage
    split at hlineage
    · cases hlineage
      exact .inr ⟨rfl, rfl, rfl⟩
    · exact .inl (hkept hlineage)
  · obtain ⟨-, -, rfl⟩ | ⟨-, -, rfl⟩ | ⟨-, row, hcan, rfl⟩ := hcase
    · exact .inl (hkept hlineage)
    · exact .inl (hkept hlineage)
    · rw [Store.extended, Table.find_insert] at hlineage
      split at hlineage
      · rename_i hid
        cases hlineage
        exact .inl ⟨old, hid ▸ hold, rfl, rfl, rfl⟩
      · exact .inl (hkept hlineage)

theorem exactRepresentation_eq_true {current : Option SignedGrantRevision}
    {representation : Bytes} (h : exactRepresentation current representation = true) :
    ∃ c, current = some c ∧ c.representation = representation := by
  cases current with
  | none => simp [exactRepresentation] at h
  | some c => exact ⟨c, rfl, by simpa [exactRepresentation] using h⟩

/-- A comparison answers with an entity tag only the exact current revision. -/
theorem compare_error {current : Option SignedGrantRevision}
    {input : Store.ReceivedGrantRevision} {answer : Answer}
    (h : compare current input = .error answer) (htag : answer.etag.isSome) :
    exactRepresentation current input.representation = true := by
  by_contra hexact
  simp only [compare, hexact] at h
  cases current with
  | none =>
    simp only [if_false] at h
    split at h <;> cases h
    simp [Answer.error] at htag
  | some c =>
    simp only [if_false] at h
    split at h
    · cases h
      simp [Answer.error] at htag
    · split at h
      · cases h
        simp [conflictAnswer, Answer.error] at htag
      · split at h <;> cases h
        simp [Answer.error] at htag

/-- What one step of a call does to the store, the call and the answer. -/
structure CallStep (codec : Codec) (store : Store) (call : Call) (store' : Store)
    (next : Call ⊕ Answer) : Prop where
  integrity : store'.Integrity codec
  retains : store.Retains store'
  publications : store'.publications = store.publications
  added : ∀ key row, store'.revisions.find key = some row → store.revisions.find key = some row ∨
    (key = (call.input.payload.grantId, call.input.payload.revision) ∧
      row.cose = call.input.representation)
  /-- A lineage keeps its owner, and a new one belongs to the call's grantee. -/
  owners : ∀ id lineage, store'.lineages.find id = some lineage →
    (∃ old, store.lineages.find id = some old ∧ lineage.localRole = old.localRole ∧
      lineage.localAccountId = old.localAccountId ∧ lineage.granteeDid = old.granteeDid) ∨
    (lineage.localRole = .grantee ∧ lineage.localAccountId = call.input.localAccountId ∧
      lineage.granteeDid = call.input.payload.grantee)
  proceeds : ∀ call', next = .inl call' → call'.input = call.input ∧ call'.Sound codec store' ∧
    ∀ c, call'.phase = .relooking (some c) → c.StoredIn codec store'
  answers : ∀ answer, next = .inr answer → answer.etag.isSome →
    call.input.signed.StoredIn codec store'

theorem CallStep.unchanged {call : Call} {next : Call ⊕ Answer} (hs : store.Integrity codec)
    (hproceeds : ∀ call', next = .inl call' → call'.input = call.input ∧
      call'.Sound codec store ∧ ∀ c, call'.phase = .relooking (some c) → c.StoredIn codec store)
    (hanswers : ∀ answer, next = .inr answer → answer.etag.isSome →
      call.input.signed.StoredIn codec store) : CallStep codec store call store next :=
  ⟨hs, .refl store, rfl, fun _ _ h => .inl h, fun _ l h => .inl ⟨l, h, rfl, rfl, rfl⟩, hproceeds,
    hanswers⟩

/-- What was read in the sender's name is stored, and when it has the call's bytes it is the
call's revision. -/
theorem storedIn_of_exact {call : Call} {current : Option SignedGrantRevision}
    (hgenuine : call.input.signed.Genuine codec)
    (hcurrent : ∀ c, current = some c → c.StoredIn codec store)
    (hexact : exactRepresentation (store.receivedForSender ambient current
      call.input.payload.grantId call.input.payload.grantee) call.input.representation = true) :
    call.input.signed.StoredIn codec store := by
  obtain ⟨received, hreceived, hrepresentation⟩ := exactRepresentation_eq_true hexact
  obtain ⟨c, hc, -, heq, -⟩ := receivedForSender_eq_some hreceived
  exact storedIn_of_representation (hcurrent c hc) hgenuine (heq ▸ hrepresentation)

/-- One step of a sound call. -/
theorem callStep {call : Call} (hs : store.Integrity codec) (h : call.Sound codec store)
    (hwinner : ∀ c, call.phase = .relooking (some c) → c.StoredIn codec store)
    {next : Call ⊕ Answer} (hadvance : call.advance codec store ambient = (store', next)) :
    CallStep codec store call store' next := by
  have hsound := h.advance hs ambient
  simp only [hadvance] at hsound
  obtain ⟨hintegrity, hretains, hcalls⟩ := hsound
  simp only [Call.advance] at hadvance
  cases hphase : call.phase with
  | reading =>
    simp only [hphase] at hadvance
    cases hread : store.findCurrentByGrantId codec call.input.payload.grantId <;>
      simp only [hread, Prod.mk.injEq] at hadvance <;> obtain ⟨rfl, rfl⟩ := hadvance
    · refine .unchanged hs (by simp) fun answer ha htag => ?_
      cases ha
      simp [unavailableAnswer, Answer.error] at htag
    · refine .unchanged hs (fun call' hcall => ⟨?_, hcalls call' hcall, ?_⟩) (by simp)
      · cases hcall
        rfl
      · cases hcall
        simp
  | looking current =>
    simp only [hphase] at hadvance
    cases hcompare : compare (store.receivedForSender ambient current
        call.input.payload.grantId call.input.payload.grantee) call.input <;>
      simp only [hcompare, Prod.mk.injEq] at hadvance <;> obtain ⟨rfl, rfl⟩ := hadvance
    · refine .unchanged hs (by simp) fun answer ha htag => ?_
      cases ha
      refine storedIn_of_exact h.genuine (fun c hc => ?_) (compare_error hcompare htag)
      exact (h.looking c (hc ▸ hphase)).2
    · refine .unchanged hs (fun call' hcall => ⟨?_, hcalls call' hcall, ?_⟩) (by simp)
      · cases hcall
        rfl
      · cases hcall
        simp
  | storing =>
    simp only [hphase] at hadvance
    cases hstore : store.acceptReceivedRevision codec ambient call.input with
    | ok accepted =>
      simp only [hstore, Prod.mk.injEq] at hadvance
      obtain ⟨rfl, rfl⟩ := hadvance
      obtain ⟨hstored, hpublications, hadded⟩ := acceptReceivedRevision_stores hs hstore
      exact ⟨hintegrity, hretains, hpublications, hadded,
        fun _ _ hl => acceptReceivedRevision_owners hstore hl, by simp, fun _ _ _ => hstored⟩
    | error fault =>
      simp only [hstore] at hadvance
      split at hadvance <;> simp only [Prod.mk.injEq] at hadvance <;>
        obtain ⟨rfl, rfl⟩ := hadvance
      · refine .unchanged hs (fun call' hcall => ⟨?_, hcalls call' hcall, ?_⟩) (by simp)
        · cases hcall
          rfl
        · cases hcall
          simp
      · refine .unchanged hs (by simp) fun answer ha htag => ?_
        cases ha
        simp [unavailableAnswer, Answer.error] at htag
  | rereading =>
    simp only [hphase] at hadvance
    cases hread : store.findCurrentByGrantId codec call.input.payload.grantId <;>
      simp only [hread, Prod.mk.injEq] at hadvance <;> obtain ⟨rfl, rfl⟩ := hadvance
    · refine .unchanged hs (by simp) fun answer ha htag => ?_
      cases ha
      simp [unavailableAnswer, Answer.error] at htag
    · refine .unchanged hs (fun call' hcall => ⟨?_, hcalls call' hcall, ?_⟩) (by simp)
      · cases hcall
        rfl
      · cases hcall
        intro c hc
        cases hc
        exact (storedIn_of_findCurrent hread).2
  | relooking winner =>
    simp only [hphase] at hadvance
    split at hadvance <;> simp only [Prod.mk.injEq] at hadvance <;>
      obtain ⟨rfl, rfl⟩ := hadvance
    · rename_i hexact
      refine .unchanged hs (by simp) fun _ _ _ => ?_
      exact storedIn_of_exact h.genuine (fun c hc => hwinner c (hc ▸ hphase)) hexact
    · refine .unchanged hs (by simp) fun answer ha htag => ?_
      cases ha
      simp [conflictAnswer, Answer.error] at htag

/-- A refusal before the store is read carries no entity tag. -/
theorem receive_error {serviceBase : String} {auth : Authentication}
    {wallClock : Nat} {request : Request} {answer : Answer}
    (h : receive codec serviceBase auth wallClock request = .error answer) :
    answer.etag = none := by
  have hauthenticate : ∀ answer, authenticate codec serviceBase auth request = .error answer →
      answer.etag = none := by
    intro answer h
    unfold authenticate at h
    split at h
    · split at h
      · cases h
        rfl
      · split at h
        · cases h
          rfl
        · split at h
          · cases h
            rfl
          · split at h <;> cases h
            rfl
    · cases h
      rfl
  simp only [receive, bind, Except.bind] at h
  split at h
  · cases h
    exact hauthenticate _ ‹_›
  · split at h
    · rename_i herror
      cases h
      simp only [checkTimestamps] at herror
      split at herror <;> cases herror
      rfl
    · split at h
      · rename_i herror
        cases h
        simp only [checkConditions] at herror
        repeat' split at herror
        all_goals cases herror
        all_goals rfl
      · cases h

/-- A call stores for the account that was looked up. -/
theorem receive_account {serviceBase : String} {auth : Authentication}
    {wallClock : Nat} {request : Request} {call : Call}
    (h : receive codec serviceBase auth wallClock request = .ok call) :
    ∃ account, auth.account = some account ∧ call.input.localAccountId = account.id := by
  simp only [receive, bind_eq_ok, Except.ok.injEq] at h
  obtain ⟨input, hauth, _, _, _, _, rfl⟩ := h
  unfold authenticate at hauth
  split at hauth
  · simp only [guard_eq_ok] at hauth
    obtain ⟨-, -, hauth⟩ := hauth
    cases haccount : auth.account with
    | none => simp [haccount] at hauth
    | some account =>
      simp only [haccount, guard_eq_ok, Except.ok.injEq] at hauth
      obtain ⟨-, rfl⟩ := hauth
      exact ⟨account, rfl, rfl⟩
  · cases hauth

/-- An intact lineage's current revision is read back. -/
theorem findCurrentByGrantId_of_lineage {grantId : Uuid} {lineage : Lineage}
    (hs : store.Integrity codec)
    (hlineage : store.lineages.find grantId = some lineage) :
    ∃ row payload, store.revisions.find (grantId, lineage.currentRevision) = some row ∧
      row.Of codec payload ∧ payload.revision = lineage.currentRevision ∧
      store.findCurrentByGrantId codec grantId = .ok (some (row.signed lineage payload)) := by
  have hsound := hs.sound grantId lineage hlineage
  obtain ⟨row, hrow, -⟩ := hsound.current
  obtain ⟨payload, hof, hid, hrevision, hgrantor, hgrantee⟩ := hsound.payload _ _ hrow
  refine ⟨row, payload, hrow, hof, hrevision, ?_⟩
  have hread : grantFromRow codec grantId lineage lineage.currentRevision row =
      .ok (row.signed lineage payload) :=
    grantFromRow_eq_ok.mpr ⟨payload, hof, hid, hgrantor, hgrantee, hrevision, rfl⟩
  have hcurrent : store.current grantId = some (lineage, row) :=
    Store.current_eq_some.mpr ⟨hlineage, hrow⟩
  rw [Store.findCurrentByGrantId, hcurrent]
  simp only [hread, Except.map]

end HailProto.Grants
