import HailProto.Monitor.Coverage

/-!
# Sound attestations

The rows of a watched DID agree with its history in every state that a run reaches: its audits form
a chain, a gap between two of its polls is alerted, and so is every operation that was not there at
the enrollment. An attestation is given only where the rows show no gap, so it holds of the whole
history.
-/

namespace HailProto.Monitor

open Server Codec Directory

variable {ρ ω δ : Type}

/-! ### Valid audits -/

theorem nullify_cids {cid : String} {history result : List (IndexedOperation ω)}
    (h : nullify history cid = .ok result) :
    result.map IndexedOperation.cid = history.map IndexedOperation.cid := by
  induction history generalizing result with
  | nil => cases h
  | cons operation history ih =>
    unfold nullify at h
    split at h
    · cases h
      rfl
    · obtain ⟨rest, hrest, hresult⟩ := bind_eq_ok.1 h
      cases hresult
      rw [List.map_cons, List.map_cons, ih hrest]

theorem foldlM_nullify_cids {nullified : List String} {history result : List (IndexedOperation ω)}
    (h : nullified.foldlM nullify history = .ok result) :
    result.map IndexedOperation.cid = history.map IndexedOperation.cid := by
  induction nullified generalizing history with
  | nil =>
    cases h
    rfl
  | cons cid nullified ih =>
    rw [List.foldlM_cons] at h
    obtain ⟨next, hnext, hrest⟩ := bind_eq_ok.1 h
    exact (ih hrest).trans (nullify_cids hnext)

section Audits

variable [DecidableEq ω] [DecidableEq δ] {platform : Platform ρ ω δ} {did : Did}
  {current : Current ω δ} {source : List ρ}

omit [DecidableEq ω] [DecidableEq δ] in
theorem replay_cids {history result : List (IndexedOperation ω)} {audit : List (ExportedOp ω)}
    (h : replay platform did history audit = .ok result) :
    result.map IndexedOperation.cid = history.map IndexedOperation.cid ++ cids audit := by
  induction audit generalizing history with
  | nil =>
    cases h
    rw [cids, List.map_nil, List.append_nil]
  | cons entry audit ih =>
    unfold replay at h
    split at h
    · cases h
    · split at h
      · cases h
      · obtain ⟨nullified, -, hrest⟩ := bind_eq_ok.1 h
        obtain ⟨next, hnext, hrest⟩ := bind_eq_ok.1 hrest
        rw [ih hrest, List.map_append, foldlM_nullify_cids hnext, List.append_assoc]
        rfl

omit [DecidableEq ω] [DecidableEq δ] in
/-- The current operation of a valid audit is in it. -/
theorem readState_mem (h : readState platform did source = .ok current) :
    current.cid ∈ cids current.audit := by
  unfold readState at h
  obtain ⟨audit, -, h⟩ := bind_eq_ok.1 h
  obtain ⟨-, h⟩ := guard_eq_ok.1 h
  obtain ⟨history, hhistory, h⟩ := bind_eq_ok.1 h
  obtain ⟨-, h⟩ := guard_eq_ok.1 h
  obtain ⟨state, -, h⟩ := bind_eq_ok.1 h
  split at h
  · rename_i last hlast
    cases h
    have hmem : last ∈ history := (List.mem_filter.1 (List.mem_of_getLast? hlast)).1
    have hcids := replay_cids hhistory
    rw [List.map_nil, List.nil_append] at hcids
    exact hcids ▸ List.mem_map_of_mem hmem
  · cases h

omit [DecidableEq δ] in
/-- An audit that a poll accepts is valid, and it contains the last one. -/
theorem continued_eq_ok {row : Watched ω δ} (h : continued platform did row source = .ok current) :
    readState platform did source = .ok current ∧
      ∀ previous, row.lastAudit = some previous → Contains previous current.audit := by
  unfold continued at h
  obtain ⟨read, hread, h⟩ := bind_eq_ok.1 h
  cases hlast : row.lastAudit with
  | none =>
    rw [hlast] at h
    cases h
    exact ⟨hread, fun previous hprevious => by cases hprevious⟩
  | some previous =>
    rw [hlast] at h
    have hcompared : (assertNoHistoryRegression previous read.audit >>=
        fun _ => .ok read) = .ok current := h
    obtain ⟨_, hregression, hread'⟩ := bind_eq_ok.1 hcompared
    cases hread'
    refine ⟨hread, fun _ hprevious => ?_⟩
    cases hprevious
    obtain ⟨hkept, -⟩ := guard_eq_ok.1 hregression
    exact contains_of_not_regressed (Bool.eq_false_iff.2 hkept)

end Audits

theorem Contains.cids {earlier later : List (ExportedOp ω)} (h : Contains earlier later)
    {cid : String} (hcid : cid ∈ cids earlier) : cid ∈ Monitor.cids later := by
  obtain ⟨prior, hprior, rfl⟩ := List.mem_map.1 hcid
  obtain ⟨next, hnext, hkeeps⟩ := h prior hprior
  exact List.mem_map.2 ⟨next, hnext, hkeeps.cid⟩

/-! ### Histories -/

section Histories

variable (h : History ω δ) (now : Int) (audit : List (ExportedOp ω))

@[simp] theorem History.polled_times : (h.polled now audit).times = h.times ++ [now] := by
  simp [History.polled, History.times]

@[simp] theorem History.polled_audits : (h.polled now audit).audits = h.audits ++ [audit] := by
  simp [History.polled, History.audits]

@[simp] theorem History.polled_lastAt : (h.polled now audit).lastAt = now := by
  simp [History.polled, History.lastAt]

@[simp] theorem History.polled_lastAudit : (h.polled now audit).lastAudit = audit := by
  simp [History.polled, History.lastAudit]

theorem History.getLast?_times : h.times.getLast? = some h.lastAt := by
  rw [History.times, History.lastAt, List.getLast?_cons, List.getLast?_map]

theorem History.getLast?_audits : h.audits.getLast? = some h.lastAudit := by
  rw [History.audits, History.lastAudit, List.getLast?_cons, List.getLast?_map]

/-- A chain goes on from its last element. -/
theorem isChain_concat {α : Type} {R : α → α → Prop} {l : List α} {a b : α} (hl : l.IsChain R)
    (hlast : l.getLast? = some a) (hab : R a b) : (l ++ [b]).IsChain R := by
  refine hl.append (.singleton b) fun x hx y hy => ?_
  cases hlast.symm.trans hx
  cases hy
  exact hab

end Histories

/-! ### The invariant -/

/-- The rows of a watched DID agree with its history. -/
structure Covered (did : Did) (row : Watched ω δ) (h : History ω δ) (clock : Int)
    (s : Store ω δ) : Prop where
  enrolledAt : row.enrolledAt = h.enrolledAt
  lastAudit : row.lastAudit = some h.lastAudit
  lastPolledAt : row.lastPolledAt = h.polls.getLast?.map Prod.fst
  since : h.enrolledAt ≤ h.lastAt
  past : h.lastAt ≤ clock
  spaced : (∀ baseline, s.alerts.find (.coverage did baseline) = none) →
    h.times.IsChain fun a b => b - a ≤ 86400000
  chain : h.audits.IsChain Contains
  expected : row.expectedCid ∈ cids h.lastAudit
  observed : ∀ cid, (s.observations.find (did, cid)).isSome → cid ∈ cids h.lastAudit
  alerted : ∀ entry ∈ h.lastAudit, entry.cid ∉ cids h.enrolledAudit →
    (s.alerts.find (.operation did entry.cid)).isSome
  approvals : ∀ cid, h.approvals.filter (·.1 == cid) =
    ((s.approvals.find (did, cid)).map fun a => (cid, a.approvedState)).toList
  approved : ∀ a, s.approvals.find (did, row.expectedCid) = some a →
    a.approvedState = row.expectedState

/-- What a call leaves of a DID that it is not about. -/
structure Frames (did : Did) (s t : Store ω δ) : Prop where
  approvals : ∀ cid, t.approvals.find (did, cid) = s.approvals.find (did, cid)
  observations : ∀ cid, t.observations.find (did, cid) = s.observations.find (did, cid)
  alerts : ∀ correlation, (s.alerts.find correlation).isSome →
    (t.alerts.find correlation).isSome

section Agreement

variable {did : Did} {row : Watched ω δ} {hist : History ω δ} {clock now : Int} {s t : Store ω δ}

theorem Extends.frames {other : Did} (h : Extends did s t) (hother : other ≠ did) :
    Frames other s t :=
  ⟨fun _ => by rw [h.approvals], fun cid => h.observations other cid hother, h.alerts⟩

/-- An alert that is not there was not there before. -/
theorem find_eq_none_of_grows {correlation : Correlation}
    (h : (s.alerts.find correlation).isSome → (t.alerts.find correlation).isSome)
    (hnone : t.alerts.find correlation = none) : s.alerts.find correlation = none := by
  cases hfound : s.alerts.find correlation with
  | none => rfl
  | some alert =>
    rw [hfound, hnone] at h
    cases h rfl

theorem Covered.frame (h : Covered did row hist clock s) (hf : Frames did s t)
    (hnow : clock ≤ now) : Covered did row hist now t where
  enrolledAt := h.enrolledAt
  lastAudit := h.lastAudit
  lastPolledAt := h.lastPolledAt
  since := h.since
  past := h.past.trans hnow
  spaced hnone := h.spaced fun baseline => find_eq_none_of_grows (hf.alerts _) (hnone baseline)
  chain := h.chain
  expected := h.expected
  observed cid hfound := h.observed cid (hf.observations cid ▸ hfound)
  alerted entry hentry hnew := hf.alerts _ (h.alerted entry hentry hnew)
  approvals cid := by rw [hf.approvals, h.approvals]
  approved a ha := h.approved a (hf.approvals _ ▸ ha)

/-- The baseline of a row is the last poll of its history. -/
theorem Covered.baseline (h : Covered did row hist clock s) : row.baseline = hist.lastAt := by
  have hsince := h.since
  unfold Watched.baseline
  rw [h.lastPolledAt, h.enrolledAt]
  unfold History.lastAt at hsince ⊢
  cases hlast : hist.polls.getLast? with
  | none => rfl
  | some last =>
    rw [hlast] at hsince
    simp only [Option.map_some, Option.getD_some] at hsince ⊢
    split <;> omega

/-- A poll that continues the last audit keeps the agreement. -/
theorem Covered.polled {platform : Platform ρ ω δ} [DecidableEq ω] [DecidableEq δ]
    {current : Current ω δ} {l : List ρ} {u : Store ω δ} (h : Covered did row hist clock s)
    (hnow : clock ≤ now) (hcontinued : continued platform did row l = .ok current)
    (hpolled : Polled did row current now (alertGap did row now s) t u) :
    ∃ row', t.watched.find did = some row' ∧
      Covered did row' (hist.polled now current.audit) now t := by
  obtain ⟨hgap, hobservations, hgapped⟩ : Extends did s (alertGap did row now s) ∧ _ ∧ _ :=
    extends_alertGap
  obtain ⟨hextends, hobserved, halerted, row', rfl, hexpectedCid, hexpectedState, henrolled, haudit,
    hpolledAt⟩ := hpolled
  have hgrows := (hgap.trans hextends).alerts
  have hcontains : Contains hist.lastAudit current.audit :=
    (continued_eq_ok hcontinued).2 _ h.lastAudit
  refine ⟨row', Table.find_insert_self .., ?_⟩
  constructor
  case enrolledAt => exact henrolled.trans h.enrolledAt
  case lastAudit => rw [haudit, History.polled_lastAudit]
  case lastPolledAt => simp [hpolledAt, History.polled]
  case since =>
    rw [History.polled_lastAt]
    exact h.since.trans (h.past.trans hnow)
  case past => rw [History.polled_lastAt]
  case spaced =>
    intro hnone
    have hspaced := h.spaced fun baseline =>
      find_eq_none_of_grows (hgrows _) (hnone baseline)
    have hclose : ¬row.CoverageGap now := fun hlate => by
      have hfound := hextends.alerts _ (hgapped hlate)
      rw [hnone] at hfound
      cases hfound
    rw [Watched.CoverageGap, h.baseline, not_lt] at hclose
    rw [History.polled_times]
    exact isChain_concat hspaced hist.getLast?_times hclose
  case chain =>
    rw [History.polled_audits]
    exact isChain_concat h.chain hist.getLast?_audits hcontains
  case expected =>
    rw [History.polled_lastAudit, hexpectedCid]
    exact Contains.cids hcontains h.expected
  case observed =>
    intro cid hfound
    rw [History.polled_lastAudit]
    rcases hobserved cid hfound with hold | hmem
    · rw [hobservations] at hold
      exact Contains.cids hcontains (h.observed cid hold)
    · exact hmem
  case alerted =>
    intro entry hentry hnew
    rw [History.polled_lastAudit] at hentry
    by_cases hknown : entry.cid ∈ cids hist.lastAudit
    · obtain ⟨prior, hprior, hcid⟩ := List.mem_map.1 hknown
      rw [← hcid] at hnew ⊢
      exact hgrows _ (h.alerted prior hprior hnew)
    · refine halerted entry hentry ?_ fun hcid => hknown (hcid ▸ h.expected)
      rw [h.lastAudit, Option.getD_some]
      exact hknown
  case approvals =>
    intro cid
    rw [hextends.approvals, hgap.approvals]
    exact h.approvals cid
  case approved =>
    intro a ha
    rw [hextends.approvals, hgap.approvals, hexpectedCid] at ha
    rw [hexpectedState]
    exact h.approved a ha

/-- A poll that is not accepted keeps the agreement. -/
theorem Covered.unready (h : Covered did row hist clock s) (hnow : clock ≤ now)
    (hunready : Unready did row (alertGap did row now s) t) :
    ∃ row', t.watched.find did = some row' ∧ Covered did row' hist now t := by
  obtain ⟨hgap, hobservations, -⟩ : Extends did s (alertGap did row now s) ∧ _ ∧ _ :=
    extends_alertGap
  obtain ⟨happrovals, hobservations', halerts, -, hwatched⟩ := hunready
  have hframes : Frames did s t :=
    ⟨fun _ => by rw [happrovals, hgap.approvals],
      fun _ => by rw [hobservations', hobservations],
      fun correlation hfound => halerts correlation (hgap.alerts correlation hfound)⟩
  have hcovered := h.frame hframes hnow
  refine ⟨{ row with pollReady := false }, ?_, ?_⟩
  · rw [hwatched, Table.find_insert_self]
  · exact ⟨hcovered.enrolledAt, hcovered.lastAudit, hcovered.lastPolledAt, hcovered.since,
      hcovered.past, hcovered.spaced, hcovered.chain, hcovered.expected, hcovered.observed,
      hcovered.alerted, hcovered.approvals, hcovered.approved⟩

/-- The rows of every watched DID agree with its history, and the other DIDs have no rows. -/
structure Retained (s : MonitorState ω δ) : Prop where
  typed : s.store.Typed
  covered : ∀ did row, s.store.watched.find did = some row →
    ∃ h, s.histories.find did = some h ∧ Covered did row h s.clock s.store
  unwatched : ∀ did, s.store.watched.find did = none → ∀ cid,
    s.store.approvals.find (did, cid) = none ∧ s.store.observations.find (did, cid) = none

/-- What holds of the rows of one DID holds of all, where the others are framed. -/
theorem Retained.of_frames {s t : MonitorState ω δ} {did : Did} {row : Watched ω δ}
    {hist : History ω δ} (h : Retained s) (hclock : s.clock ≤ t.clock) (htyped : t.store.Typed)
    (hrow : t.store.watched.find did = some row) (hhist : t.histories.find did = some hist)
    (hcovered : Covered did row hist t.clock t.store)
    (hwatched : ∀ other, other ≠ did →
      t.store.watched.find other = s.store.watched.find other)
    (hhistories : ∀ other, other ≠ did → t.histories.find other = s.histories.find other)
    (hframes : ∀ other, other ≠ did → Frames other s.store t.store) : Retained t where
  typed := htyped
  covered other row' hrow' := by
    by_cases hother : other = did
    · subst hother
      rw [hrow] at hrow'
      cases hrow'
      exact ⟨hist, hhist, hcovered⟩
    · rw [hwatched other hother] at hrow'
      obtain ⟨hist', hhist', hcovered'⟩ := h.covered other row' hrow'
      exact ⟨hist', (hhistories other hother).trans hhist',
        hcovered'.frame (hframes other hother) hclock⟩
  unwatched other hnone cid := by
    have hother : other ≠ did := fun heq => by
      rw [heq, hrow] at hnone
      cases hnone
    rw [hwatched other hother] at hnone
    rw [(hframes other hother).approvals, (hframes other hother).observations]
    exact h.unwatched other hnone cid

section Steps

variable [DecidableEq ω] [DecidableEq δ] {platform : Platform ρ ω δ}
  {answers : Did → Except Fault (List ρ)} {s t : MonitorState ω δ}

/-- The poll of one DID keeps the agreement. -/
theorem Retained.pollOne (h : Retained s) (did : Did) :
    Retained (s.pollOne platform s.clock answers did) := by
  cases hrow : s.store.watched.find did with
  | none =>
    have hsame : s.pollOne platform s.clock answers did =
        { s with histories := s.histories.update did id } := by
      simp only [MonitorState.pollOne, Monitor.pollOne, accepted, hrow, Option.bind_none]
      rfl
    rw [hsame]
    refine ⟨h.typed, fun other row' hrow' => ?_, h.unwatched⟩
    obtain ⟨hist, hhist, hcovered⟩ := h.covered other row' hrow'
    refine ⟨hist, ?_, hcovered⟩
    rw [Table.find_update]
    split
    · rename_i heq
      rw [← heq, hhist]
      rfl
    · exact hhist
  | some row =>
    obtain ⟨hist, hhist, hcovered⟩ := h.covered did row hrow
    have hgap : Extends did s.store (alertGap did row s.clock s.store) := extends_alertGap.1
    have hother (other : Did) (hne : other ≠ did) :
        (s.pollOne platform s.clock answers did).histories.find other =
          s.histories.find other := by
      rw [MonitorState.pollOne, Table.find_update, if_neg hne]
    rcases pollOne_cases platform (answers did) s.clock hrow with
      ⟨hrejected, hunready⟩ | ⟨l, current, u, haccepted, hcontinued, hpolled⟩
    · obtain ⟨row', hrow', hcovered'⟩ := hcovered.unready le_rfl hunready
      refine h.of_frames le_rfl (hunready.typed (hgap.typed h.typed)) hrow' ?_
        hcovered' (fun other hne => ?_) hother fun other hne => ?_
      · rw [MonitorState.pollOne, Table.find_update, if_pos rfl, hhist, hrejected]
        rfl
      · rw [MonitorState.pollOne, hunready.watched, Table.find_insert_of_ne _ _ hne, hgap.watched]
      · have hframes := hgap.frames hne
        exact ⟨fun cid => by rw [MonitorState.pollOne, hunready.approvals, hframes.approvals],
          fun cid => by rw [MonitorState.pollOne, hunready.observations, hframes.observations],
          fun _ hfound => hunready.alerts _ (hframes.alerts _ hfound)⟩
    · obtain ⟨row', hrow', hcovered'⟩ := hcovered.polled le_rfl hcontinued hpolled
      obtain ⟨hextends, -, -, row'', hstore, -⟩ := hpolled
      have hframes (other : Did) (hne : other ≠ did) : Frames other s.store
          (s.pollOne platform s.clock answers did).store := by
        have hframes := (hgap.trans hextends).frames hne
        rw [MonitorState.pollOne, hstore]
        exact ⟨hframes.approvals, hframes.observations, hframes.alerts⟩
      refine h.of_frames le_rfl ?_ hrow' ?_ hcovered'
        (fun other hne => ?_) hother hframes
      · rw [MonitorState.pollOne, hstore]
        exact hextends.typed (hgap.typed h.typed)
      · rw [MonitorState.pollOne, Table.find_update, if_pos rfl, hhist, haccepted]
        rfl
      · rw [MonitorState.pollOne, hstore]
        exact (Table.find_insert_of_ne _ _ hne).trans
          (by rw [hextends.watched, hgap.watched])

/-- A sweep keeps the agreement. -/
theorem Retained.sweep (h : Retained s) (dids : List Did) :
    Retained (dids.foldl (MonitorState.pollOne platform s.clock answers) s) := by
  induction dids generalizing s with
  | nil => exact h
  | cons did dids ih => exact ih (h.pollOne did)

/-- The tables of a sweep with histories are those of a sweep. -/
theorem sweep_store (dids : List Did) (now : Int) (found : PollState) :
    (dids.foldl (MonitorState.pollOne platform now answers) s).store =
      (dids.foldl (fun r did =>
        ((Monitor.pollOne platform now (answers did) did r.1).1,
          r.2.after (Monitor.pollOne platform now (answers did) did r.1).2)) (s.store, found)).1 := by
  induction dids generalizing s found with
  | nil => rfl
  | cons did dids ih => exact ih _

/-- A sweep writes the tables, and the cursor at its end. -/
theorem pollWatched_store {now : Int} {only : Option Did} :
    ∃ cursor, (pollWatched platform now only answers s.store).1 =
      { ((monitored s.store only).foldl (MonitorState.pollOne platform now answers)
          { s with clock := now }).store with cursor := cursor } := by
  rw [sweep_store _ now .current]
  cases only with
  | none => exact ⟨_, rfl⟩
  | some did => exact ⟨_, rfl⟩

/-! ### The other calls -/

omit [DecidableEq ω] in
/-- What an enrollment does: a retry nothing, else it writes the first row of the DID. -/
theorem enroll_cases {s t : Store ω δ} {expectedCid alertWebhookUrl : String}
    {reviewed : Option δ} {source : Except Fault (List ρ)} {now : Int}
    (h : enroll platform s did expectedCid alertWebhookUrl reviewed source now = .ok t) :
    (s.watched.find did).isSome ∧ t = s ∨
      s.watched.find did = none ∧ ∃ l current row bootstraps,
        readState platform did l = .ok current ∧ row.expectedCid = current.cid ∧
        row.enrolledAt = now ∧ row.lastAudit = some current.audit ∧ row.lastPolledAt = none ∧
        t.observations = s.observations ∧
        Extends did { s with watched := s.watched.insert did row, bootstraps := bootstraps } t := by
  unfold enroll at h
  obtain ⟨-, h⟩ := guard_eq_ok.1 h
  obtain ⟨_, -, h⟩ := bind_eq_ok.1 h
  obtain ⟨l, -, h⟩ := bind_eq_ok.1 h
  obtain ⟨current, hcurrent, h⟩ := bind_eq_ok.1 h
  obtain ⟨hcid, h⟩ := guard_eq_ok.1 h
  obtain ⟨_, -, h⟩ := bind_eq_ok.1 h
  obtain ⟨-, h⟩ := guard_eq_ok.1 h
  cases hrow : s.watched.find did with
  | some prior =>
    simp only [hrow] at h
    obtain ⟨-, h⟩ := guard_eq_ok.1 h
    cases h
    exact .inl ⟨rfl, rfl⟩
  | none =>
    refine .inr ⟨rfl, l, current, ?_⟩
    simp only [hrow] at h
    cases reviewed with
    | none =>
      cases h
      exact ⟨_, s.bootstraps, hcurrent, (not_not.1 hcid).symm, rfl, rfl, rfl, rfl, .refl did _⟩
    | some reviewed =>
      cases h
      exact ⟨_, _, hcurrent, (not_not.1 hcid).symm, rfl, rfl, rfl, rfl, extends_alert rfl rfl⟩

omit [DecidableEq ω] in
/-- What an approval does: it was not there, the operation was observed, and the row expects it. -/
theorem approveExpected_eq_ok {s t : Store ω δ} {cid : String} {reviewed : δ}
    {source : Except Fault (List ρ)} {now : Int}
    (h : approveExpected platform s did cid reviewed source now = .ok t) :
    ∃ row, s.watched.find did = some row ∧ (s.observations.find (did, cid)).isSome ∧
      s.approvals.find (did, cid) = none ∧
      t = { s with
        approvals := s.approvals.insert (did, cid) ⟨row.expectedCid, reviewed⟩
        watched := s.watched.insert did { row with
          expectedCid := cid
          expectedState := reviewed
          lastVerifiedCid := some cid
          lastVerifiedAt := some now } } := by
  unfold approveExpected at h
  obtain ⟨l, -, h⟩ := bind_eq_ok.1 h
  obtain ⟨current, -, h⟩ := bind_eq_ok.1 h
  obtain ⟨-, h⟩ := guard_eq_ok.1 h
  cases hrow : s.watched.find did with
  | none =>
    simp only [hrow] at h
    cases h
  | some row =>
    simp only [hrow] at h
    obtain ⟨-, h⟩ := guard_eq_ok.1 h
    obtain ⟨hobserved, h⟩ := guard_eq_ok.1 h
    obtain ⟨happroved, h⟩ := guard_eq_ok.1 h
    cases h
    exact ⟨row, rfl, by simpa [Option.isSome_iff_ne_none] using hobserved,
      by simpa using happroved, rfl⟩

end Steps

section Sends

variable {s : Store ω δ} {correlation : Correlation} {status : Option Nat} {now : Int}

/-- A delivery changes no more than the time at which an alert was sent. -/
theorem recordSent_cases (s : Store ω δ) (correlation : Correlation) (status : Option Nat)
    (now : Int) : recordSent s correlation status now = s ∨
    ∃ alert, s.alerts.find correlation = some alert ∧ recordSent s correlation status now =
      { s with alerts := s.alerts.insert correlation { alert with sentAt := some now } } := by
  unfold recordSent
  split
  · rename_i alert _ halert
    split
    · exact .inr ⟨alert, halert, rfl⟩
    · exact .inl rfl
  · exact .inl rfl

theorem recordSent_watched : (recordSent s correlation status now).watched = s.watched := by
  rcases recordSent_cases s correlation status now with hsame | ⟨alert, -, hsent⟩
  · rw [hsame]
  · rw [hsent]

theorem typed_recordSent (h : s.Typed) : (recordSent s correlation status now).Typed := by
  rcases recordSent_cases s correlation status now with hsame | ⟨alert, halert, hsent⟩
  · rwa [hsame]
  · intro other row hrow
    rw [hsent, Table.find_insert] at hrow
    split at hrow
    · rename_i heq
      cases hrow
      exact heq ▸ h correlation alert halert
    · exact h other row hrow

theorem frames_recordSent (did : Did) : Frames did s (recordSent s correlation status now) := by
  rcases recordSent_cases s correlation status now with hsame | ⟨alert, halert, hsent⟩
  · rw [hsame]
    exact ⟨fun _ => rfl, fun _ => rfl, fun _ => id⟩
  · rw [hsent]
    refine ⟨fun _ => rfl, fun _ => rfl, fun other hfound => ?_⟩
    rw [Table.find_insert]
    split
    · rfl
    · exact hfound

end Sends

/-! ### Runs -/

section Runs

variable [DecidableEq ω] [DecidableEq δ] {platform : Platform ρ ω δ} {s t : MonitorState ω δ}

omit [DecidableEq ω] [DecidableEq δ] in
/-- A call that frames every DID keeps the agreement, at a later time. -/
theorem Retained.frame {store : Store ω δ} (h : Retained s) (hnow : s.clock ≤ now)
    (hwatched : store.watched = s.store.watched) (htyped : store.Typed)
    (hframes : ∀ did, Frames did s.store store) :
    Retained { s with store := store, clock := now } where
  typed := htyped
  covered did row hrow := by
    obtain ⟨hist, hhist, hcovered⟩ := h.covered did row (hwatched ▸ hrow)
    exact ⟨hist, hhist, hcovered.frame (hframes did) hnow⟩
  unwatched did hnone cid := by
    rw [(hframes did).approvals, (hframes did).observations]
    exact h.unwatched did (hwatched ▸ hnone) cid

omit [DecidableEq ω] [DecidableEq δ] in
theorem Frames.refl (did : Did) (s : Store ω δ) : Frames did s s :=
  ⟨fun _ => rfl, fun _ => rfl, fun _ => id⟩

omit [DecidableEq ω] [DecidableEq δ] in
theorem retained_initial : Retained (.initial : MonitorState ω δ) where
  typed _ row hrow := by
    rw [MonitorState.initial, Table.find_empty] at hrow
    cases hrow
  covered _ row hrow := by
    rw [MonitorState.initial, Table.find_empty] at hrow
    cases hrow
  unwatched _ _ _ := ⟨Table.find_empty _, Table.find_empty _⟩

omit [DecidableEq ω] in
/-- An enrollment keeps the agreement. -/
theorem Retained.enroll {expectedCid alertWebhookUrl : String} {reviewed : Option δ}
    {source : Except Fault (List ρ)} {store : Store ω δ} (h : Retained s) (hnow : s.clock ≤ now)
    (hcall : enroll platform s.store did expectedCid alertWebhookUrl reviewed source now =
      .ok store) :
    Retained ⟨store, now, if (s.store.watched.find did).isSome then s.histories
      else s.histories.insert did
        ⟨now, ((store.watched.find did).bind (·.lastAudit)).getD [], [], []⟩⟩ := by
  rcases enroll_cases hcall with ⟨hsome, rfl⟩ | ⟨hnone, l, current, row, bootstraps, hcurrent,
    hcid, henrolledAt, haudit, hpolledAt, hobservations, hextends⟩
  · rw [if_pos hsome]
    exact h.frame hnow rfl h.typed fun did => .refl did _
  · have hrow : store.watched.find did = some row := by
      rw [hextends.watched]
      exact Table.find_insert_self ..
    have hempty := h.unwatched did hnone
    rw [hnone, hrow, Option.bind_some, haudit]
    refine h.of_frames hnow (hextends.typed h.typed) hrow (Table.find_insert_self ..) ?_
      (fun other hother => ?_) (fun other hother => Table.find_insert_of_ne _ _ hother)
      fun other hother => ?_
    · constructor
      case enrolledAt => exact henrolledAt
      case lastAudit => exact haudit
      case lastPolledAt => exact hpolledAt
      case since => exact le_rfl
      case past => exact le_rfl
      case spaced => exact fun _ => .singleton _
      case chain => exact .singleton _
      case expected => exact hcid ▸ readState_mem hcurrent
      case observed =>
        intro cid hfound
        rw [hobservations, (hempty cid).2] at hfound
        cases hfound
      case alerted => exact fun entry hentry hnew => absurd (List.mem_map_of_mem hentry) hnew
      case approvals =>
        intro cid
        rw [hextends.approvals]
        simp [(hempty cid).1]
      case approved =>
        intro a ha
        rw [hextends.approvals, (hempty _).1] at ha
        cases ha
    · rw [hextends.watched]
      exact Table.find_insert_of_ne _ _ hother
    · have hframes := hextends.frames hother
      exact ⟨hframes.approvals, hframes.observations, hframes.alerts⟩

omit [DecidableEq ω] in
/-- An approval keeps the agreement: the operation was observed, so it is in the last audit. -/
theorem Retained.approveExpected {cid : String} {reviewed : δ} {source : Except Fault (List ρ)}
    {store : Store ω δ} (h : Retained s) (hnow : s.clock ≤ now)
    (hcall : approveExpected platform s.store did cid reviewed source now = .ok store) :
    Retained ⟨store, now, s.histories.update did fun hist => hist.approved cid reviewed⟩ := by
  obtain ⟨row, hrow, hobserved, hfresh, rfl⟩ := approveExpected_eq_ok hcall
  obtain ⟨hist, hhist, hcovered⟩ := h.covered did row hrow
  have hhist' : (s.histories.update did fun hist => hist.approved cid reviewed).find did =
      some (hist.approved cid reviewed) := by
    rw [Table.find_update, if_pos rfl, hhist]
    rfl
  refine h.of_frames hnow h.typed (Table.find_insert_self ..) hhist' ?_
    (fun other hother => Table.find_insert_of_ne _ _ hother) (fun other hother => ?_)
    fun other hother => ?_
  · constructor
    case enrolledAt => exact hcovered.enrolledAt
    case lastAudit => exact hcovered.lastAudit
    case lastPolledAt => exact hcovered.lastPolledAt
    case since => exact hcovered.since
    case past => exact hcovered.past.trans hnow
    case spaced => exact hcovered.spaced
    case chain => exact hcovered.chain
    case expected => exact hcovered.observed cid hobserved
    case observed => exact hcovered.observed
    case alerted => exact hcovered.alerted
    case approvals =>
      intro other
      have hold := hcovered.approvals other
      by_cases hother : other = cid
      · subst hother
        rw [hfresh] at hold
        simp only [History.approved, List.filter_append, hold, Table.find_insert_self]
        simp
      · rw [Table.find_insert_of_ne _ _ (fun heq => hother (congrArg Prod.snd heq)), ← hold]
        simp [History.approved, List.filter_append, Ne.symm hother]
    case approved =>
      intro a ha
      rw [Table.find_insert_self] at ha
      cases ha
      rfl
  · rw [Table.find_update, if_neg hother]
  · refine ⟨fun other' => ?_, fun _ => rfl, fun _ => id⟩
    exact Table.find_insert_of_ne _ _ fun heq => hother (congrArg Prod.fst heq)

/-- Every call keeps the agreement. -/
theorem Retained.step {e : MonitorEvent ρ δ} (h : Retained s)
    (hstep : monitorStep platform s e = some t) : Retained t := by
  unfold monitorStep at hstep
  split at hstep
  · cases hstep
  · rename_i hlate
    have hnow : s.clock ≤ e.now := not_lt.1 hlate
    cases e with
    | enroll now did expectedCid alertWebhookUrl reviewed source =>
      obtain ⟨store, hcall, rfl⟩ := Option.map_eq_some_iff.1 hstep
      exact h.enroll hnow (toOption_eq_some.1 hcall)
    | poll now only answers =>
      cases hstep
      have hlater : Retained { s with clock := now } :=
        h.frame hnow rfl h.typed fun did => .refl did _
      let swept := (monitored s.store only).foldl (MonitorState.pollOne platform now answers)
        { s with clock := now }
      have hswept : Retained swept := hlater.sweep _
      obtain ⟨cursor, hstore⟩ : ∃ cursor, (pollWatched platform now only answers s.store).1 =
          { swept.store with cursor := cursor } := pollWatched_store
      have hframed : Retained { swept with store := { swept.store with cursor := cursor } } :=
        hswept.frame le_rfl rfl hswept.typed fun did => ⟨fun _ => rfl, fun _ => rfl, fun _ => id⟩
      rwa [← hstore] at hframed
    | approveExpected now did cid reviewed source =>
      obtain ⟨store, hcall, rfl⟩ := Option.map_eq_some_iff.1 hstep
      exact h.approveExpected hnow (toOption_eq_some.1 hcall)
    | send now correlation status =>
      cases hstep
      exact h.frame hnow recordSent_watched (typed_recordSent h.typed) frames_recordSent

/-- The rows agree with the histories in every state that a run reaches. -/
theorem retained_of_reachable (h : Reachable (monitorStep platform) .initial s) : Retained s :=
  h.invariant retained_initial fun _ hretained _ hstep => hretained.step hstep

omit [DecidableEq ω] [DecidableEq δ] in
/-- In a chain of audits each is contained in the last. -/
theorem contains_lastAudit {h : History ω δ} (hchain : h.audits.IsChain Contains)
    {audit : List (ExportedOp ω)} (hmem : audit ∈ h.audits) : Contains audit h.lastAudit := by
  have : IsTrans (List (ExportedOp ω)) Contains := ⟨fun _ _ _ => Contains.trans⟩
  have hpairwise : h.audits.Pairwise Contains := List.isChain_iff_pairwise.1 hchain
  obtain ⟨init, hinit⟩ := List.getLast?_eq_some_iff.1 h.getLast?_audits
  rw [hinit, List.pairwise_append] at hpairwise
  rw [hinit, List.mem_append, List.mem_singleton] at hmem
  rcases hmem with hearlier | rfl
  · exact hpairwise.2.2 audit hearlier _ List.mem_cons_self
  · exact .refl _

/-- What an attestation was given for. -/
theorem attest_eq_ok {s : Store ω δ} {transferId : Uuid} {operationCid origin : String}
    {source : Except Fault (List ρ)} {attestation : Attestation}
    (h : attest platform s did transferId operationCid origin source now = .ok attestation) :
    ∃ l current row, source = .ok l ∧ readState platform did l = .ok current ∧
      current.cid = operationCid ∧ s.watched.find did = some row ∧
      Attestable s did operationCid row current.state now ∧ row.lastAudit = some current.audit := by
  unfold attest at h
  obtain ⟨-, h⟩ := guard_eq_ok.1 h
  obtain ⟨_, -, h⟩ := bind_eq_ok.1 h
  obtain ⟨-, h⟩ := guard_eq_ok.1 h
  obtain ⟨l, hsource, h⟩ := bind_eq_ok.1 h
  obtain ⟨current, hcurrent, h⟩ := bind_eq_ok.1 h
  obtain ⟨hcid, h⟩ := guard_eq_ok.1 h
  cases hrow : s.watched.find did with
  | none =>
    simp only [hrow] at h
    cases h
  | some row =>
    simp only [hrow] at h
    obtain ⟨hattestable, h⟩ := guard_eq_ok.1 h
    cases hretained : row.lastAudit with
    | none =>
      simp only [hretained] at h
      cases h
    | some retained =>
      simp only [hretained] at h
      obtain ⟨_, -, h⟩ := bind_eq_ok.1 h
      obtain ⟨hsame, -⟩ := guard_eq_ok.1 h
      exact ⟨l, current, row, hsource, hcurrent, not_not.1 hcid, rfl, not_not.1 hattestable,
        hretained.trans (congrArg some (not_not.1 hsame))⟩

omit [DecidableEq ω] [DecidableEq δ] in
/-- Where no gap is counted, no gap of coverage is alerted. -/
theorem find_coverage_of_gaps {s : Store ω δ} (htyped : s.Typed) (hgaps : s.gaps did = 0)
    (baseline : Int) : s.alerts.find (.coverage did baseline) = none := by
  cases hfound : s.alerts.find (.coverage did baseline) with
  | none => rfl
  | some alert =>
    obtain ⟨hdid, hcategory⟩ := htyped _ alert hfound
    have hcount := List.countP_eq_zero.1 hgaps (.coverage did baseline, alert)
      (Table.mem_rows.2 hfound)
    simp only [hdid, hcategory, Correlation.did, Correlation.category, Category.isGap, beq_self_eq_true,
      Bool.and_self, not_true_eq_false] at hcount

/-- An attestation is given for a DID whose polls since its enrollment left no gap of more than a
day and end at most 300 seconds before; whose audits form a chain; each of whose later operations
has an alert; and whose current operation was approved once, with the current state, and its alert
delivered. -/
theorem attestation_sound {transferId : Uuid} {operationCid origin : String}
    {source : Except Fault (List ρ)} {attestation : Attestation}
    (hrun : Reachable (monitorStep platform) .initial s)
    (hattest : attest platform s.store did transferId operationCid origin source now =
      .ok attestation) :
    ∃ h last l current alert, s.histories.find did = some h ∧
      h.times.IsChain (fun a b => b - a ≤ 86400000) ∧
      h.polls.getLast? = some last ∧ now - last.1 ≤ 300000 ∧ h.audits.IsChain Contains ∧
      (∀ audit ∈ h.audits, ∀ entry ∈ audit, entry.cid ∉ cids h.enrolledAudit →
        (s.store.alerts.find (.operation did entry.cid)).isSome) ∧
      source = .ok l ∧ readState platform did l = .ok current ∧ current.cid = operationCid ∧
      current.audit = last.2 ∧
      h.approvals.filter (·.1 == operationCid) = [(operationCid, current.state)] ∧
      s.store.alerts.find (.operation did operationCid) = some alert ∧ alert.sentAt.isSome := by
  obtain ⟨l, current, row, hsource, hcurrent, hcid, hrow, hattestable, haudit⟩ :=
    attest_eq_ok hattest
  obtain ⟨hexpected, hstate, -, -, happroved, hnotified, hgaps, hpolled, -⟩ := hattestable
  have hretained := retained_of_reachable hrun
  obtain ⟨h, hhist, hcovered⟩ := hretained.covered did row hrow
  rw [hcovered.lastPolledAt] at hpolled
  cases hlast : h.polls.getLast? with
  | none =>
    rw [hlast] at hpolled
    cases hpolled
  | some last =>
    rw [hlast, Option.map_some, Option.any_some, decide_eq_true_eq] at hpolled
    have hretainedAudit : current.audit = last.2 := by
      have hsame := haudit.symm.trans hcovered.lastAudit
      rw [History.lastAudit, hlast] at hsame
      exact Option.some.inj hsame
    have hstates : h.approvals.filter (·.1 == operationCid) = [(operationCid, current.state)] := by
      obtain ⟨⟨key, approval⟩, hmem, hkey⟩ :=
        List.countP_pos_iff.1 (happroved.symm ▸ Nat.one_pos : 0 < s.store.approved did operationCid)
      cases of_decide_eq_true hkey
      have hfound := Table.mem_rows.1 hmem
      have hreviewed := hcovered.approved approval (hexpected ▸ hfound)
      rw [hcovered.approvals, hfound, hstate, ← hreviewed]
      rfl
    obtain ⟨⟨key, alert⟩, hmem, hkey⟩ := List.countP_pos_iff.1 hnotified
    simp only [Bool.and_eq_true, decide_eq_true_eq] at hkey
    obtain ⟨⟨-, rfl⟩, hsent⟩ := hkey
    refine ⟨h, last, l, current, alert, hhist,
      hcovered.spaced (find_coverage_of_gaps hretained.typed hgaps), hlast, hpolled.1,
      hcovered.chain, fun audit haudit entry hentry hnew => ?_, hsource, hcurrent, hcid,
      hretainedAudit, hstates, Table.mem_rows.1 hmem, hsent⟩
    obtain ⟨kept, hkept, hkeeps⟩ := contains_lastAudit hcovered.chain haudit entry hentry
    rw [← hkeeps.cid] at hnew ⊢
    exact hcovered.alerted kept hkept hnew

end Runs

end Agreement

namespace Sample

/-- The DID of the sample, and two operations under their CIDs. -/
def did : Did := "did:plc:aaaaaaaaaaaaaaaaaaaaaaaa"
def genesis : ExportedOp String := ⟨did, "bafyreigenesis", "genesis", false, "2026-01-01T00:00:00Z"⟩
def update : ExportedOp String := ⟨did, "bafyreiupdate", "update", false, "2026-01-02T00:00:00Z"⟩

def origin : String := "https://monitor.example"

/-- A directory of these two operations, whose states are named after them. -/
def platform : Platform (ExportedOp String) String String where
  parse := .ok
  cidForCbor operation := if operation = "genesis" then genesis.cid else update.cid
  time text := if text = genesis.createdAt then some 1767225600000 else some 1767312000000
  assureValidNextOp _ _ _ _ := .ok []
  validateOperationLog _ operations := .ok operations.getLast?
  documentData := .ok
  type _ := "plc_operation"
  prev operation := if operation = "genesis" then none else some genesis.cid
  normalizeOp operation := ⟨[operation], [], [], []⟩
  plcStateDigest := id
  url text := .ok ⟨"https:", "", "", "", "", "monitor.example", text⟩
  isIP _ := false

/-- The update is polled, its alert delivered, and it is approved and polled again. -/
def events : List (MonitorEvent (ExportedOp String) String) :=
  [.enroll 1767300000000 did genesis.cid origin none (.ok [genesis]),
    .poll 1767312100000 none fun _ => .ok [genesis, update],
    .send 1767312200000 (.operation did update.cid) (some 204),
    .approveExpected 1767312300000 did update.cid "update" (.ok [genesis, update]),
    .poll 1767312400000 (some did) fun _ => .ok [genesis, update]]

def transferId : Uuid := "00000000-0000-4000-8000-000000000000"

end Sample

/-- A run after which the update is attested. -/
theorem update_attested : ∃ s attestation, Reachable (monitorStep Sample.platform) .initial s ∧
    attest Sample.platform s.store Sample.did Sample.transferId Sample.update.cid Sample.origin
      (.ok [Sample.genesis, Sample.update]) 1767312500000 = .ok attestation ∧
    ∃ h last, s.histories.find Sample.did = some h ∧ h.polls.getLast? = some last ∧
      1767312500000 - last.1 ≤ 300000 := by
  have hevaluated : (exec (monitorStep Sample.platform) .initial Sample.events).any (fun s =>
      (attest Sample.platform s.store Sample.did Sample.transferId Sample.update.cid Sample.origin
        (.ok [Sample.genesis, Sample.update]) 1767312500000).isOk) = true := by
    decide +kernel
  obtain ⟨s, hexec, hok⟩ := (Option.any_eq_true _ _).1 hevaluated
  obtain ⟨attestation, hattest⟩ := isOk_iff.1 hok
  have hrun := reachable_of_exec hexec
  obtain ⟨h, last, _, _, _, hhist, -, hlast, hrecent, -⟩ := attestation_sound hrun hattest
  exact ⟨s, attestation, hrun, hattest, h, last, hhist, hlast, hrecent⟩

end HailProto.Monitor
