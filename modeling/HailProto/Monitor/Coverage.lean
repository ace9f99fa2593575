import HailProto.Monitor.PlcMonitor

/-!
# What an attestation stands for

Along a run of the monitor, the polls that succeeded for a DID since its enrollment are kept beside
the tables. The tables agree with them: a gap between two polls leaves an alert that nothing
removes, each audit contains the one before it, and every operation that was not there at the
enrollment has an alert. An attestation is signed only where no gap is recorded, so it vouches for
the whole history.
-/

namespace HailProto.Monitor

open Server Codec Directory

variable {ρ ω δ : Type}

/-- The enrollment of a DID, its successful polls, each with its time and its audit, and its
approvals, each with the CID and the state that was reviewed. -/
structure History (ω δ : Type) where
  enrolledAt : Int
  enrolledAudit : List (ExportedOp ω)
  polls : List (Int × List (ExportedOp ω))
  approvals : List (String × δ)

def History.polled (h : History ω δ) (now : Int) (audit : List (ExportedOp ω)) : History ω δ :=
  { h with polls := h.polls ++ [(now, audit)] }

def History.approved (h : History ω δ) (cid : String) (reviewed : δ) : History ω δ :=
  { h with approvals := h.approvals ++ [(cid, reviewed)] }

/-- The time of the enrollment, then those of the polls. -/
def History.times (h : History ω δ) : List Int := h.enrolledAt :: h.polls.map Prod.fst

/-- The audit of the enrollment, then those of the polls. -/
def History.audits (h : History ω δ) : List (List (ExportedOp ω)) :=
  h.enrolledAudit :: h.polls.map Prod.snd

def History.lastAt (h : History ω δ) : Int := (h.polls.getLast?.map Prod.fst).getD h.enrolledAt

/-- The audit that was retained last. -/
def History.lastAudit (h : History ω δ) : List (ExportedOp ω) :=
  (h.polls.getLast?.map Prod.snd).getD h.enrolledAudit

structure MonitorState (ω δ : Type) where
  store : Store ω δ
  clock : Int
  histories : Table Did (History ω δ)

def MonitorState.initial : MonitorState ω δ := ⟨⟨∅, ∅, ∅, ∅, ∅, ⟨false, none, 0⟩⟩, 0, ∅⟩

/-- The calls of the monitor, each at its time, with what the directory or the webhook answered. -/
inductive MonitorEvent (ρ δ : Type)
  | enroll (now : Int) (did : Did) (expectedCid alertWebhookUrl : String) (reviewed : Option δ)
      (source : Except Fault (List ρ))
  | poll (now : Int) (only : Option Did) (answers : Did → Except Fault (List ρ))
  | approveExpected (now : Int) (did : Did) (cid : String) (reviewed : δ)
      (source : Except Fault (List ρ))
  | send (now : Int) (correlation : Correlation) (status : Option Nat)

def MonitorEvent.now : MonitorEvent ρ δ → Int
  | .enroll now _ _ _ _ _ | .poll now _ _ | .approveExpected now _ _ _ _ | .send now _ _ => now

/-- The CIDs of an audit. -/
def cids (audit : List (ExportedOp ω)) : List String := audit.map ExportedOp.cid

variable [DecidableEq ω] [DecidableEq δ] (platform : Platform ρ ω δ)

/-- The audit that a poll of the DID accepts, if it does. -/
def accepted (s : Store ω δ) (source : Except Fault (List ρ)) (did : Did) :
    Option (Current ω δ) :=
  (s.watched.find did).bind fun row =>
    source.toOption.bind fun source => (continued platform did row source).toOption

/-- The poll of one DID, with its history. -/
def MonitorState.pollOne (now : Int) (answers : Did → Except Fault (List ρ))
    (s : MonitorState ω δ) (did : Did) : MonitorState ω δ :=
  { s with
    store := (Monitor.pollOne platform now (answers did) did s.store).1
    histories := s.histories.update did fun h =>
      match accepted platform s.store (answers did) did with
      | some current => h.polled now current.audit
      | none => h }

/-- One call; the clock does not go back. -/
def monitorStep (s : MonitorState ω δ) (e : MonitorEvent ρ δ) : Option (MonitorState ω δ) :=
  if e.now < s.clock then none
  else
    match e with
    | .enroll now did expectedCid alertWebhookUrl reviewed source =>
      (enroll platform s.store did expectedCid alertWebhookUrl reviewed source now).toOption.map
        fun t => { s with
          store := t
          clock := now
          histories :=
            if (s.store.watched.find did).isSome then s.histories
            else s.histories.insert did
              ⟨now, ((t.watched.find did).bind (·.lastAudit)).getD [], [], []⟩ }
    | .poll now only answers =>
      let swept := (monitored s.store only).foldl (MonitorState.pollOne platform now answers)
        { s with clock := now }
      some { swept with store := (pollWatched platform now only answers s.store).1 }
    | .approveExpected now did cid reviewed source =>
      (approveExpected platform s.store did cid reviewed source now).toOption.map
        fun t => { s with
          store := t
          clock := now
          histories := s.histories.update did fun h => h.approved cid reviewed }
    | .send now correlation status =>
      some { s with store := recordSent s.store correlation status now, clock := now }

/-! ### Alerts only grow -/

def Correlation.did : Correlation → Did
  | .operation did _ | .status did _ _ | .coverage did _ | .restored did _ | .invalid did
  | .onboarding did _ => did

def Correlation.category : Correlation → Category
  | .operation _ _ => .unexpectedOperation
  | .status _ _ _ => .operationStatus
  | .coverage _ _ => .coverageLost
  | .restored _ _ => .monitoringRestored
  | .invalid _ => .invalidOperationLog
  | .onboarding _ _ => .onboardingEnrollment

variable {platform} {s t : Store ω δ} {did : Did}

omit [DecidableEq ω] [DecidableEq δ]

/-- Every alert is of the DID and the category that its correlation says. -/
def Store.Typed (s : Store ω δ) : Prop :=
  ∀ correlation row, s.alerts.find correlation = some row →
    row.did = correlation.did ∧ row.category = correlation.category

/-- What a call does beside the rows of the watched DIDs: approvals stay, alerts are only added,
and operations are observed of one DID alone. -/
structure Extends (did : Did) (s t : Store ω δ) : Prop where
  watched : t.watched = s.watched
  approvals : t.approvals = s.approvals
  observations : ∀ other cid, other ≠ did →
    t.observations.find (other, cid) = s.observations.find (other, cid)
  alerts : ∀ correlation, (s.alerts.find correlation).isSome →
    (t.alerts.find correlation).isSome
  typed : s.Typed → t.Typed

theorem Extends.refl (did : Did) (s : Store ω δ) : Extends did s s :=
  ⟨rfl, rfl, fun _ _ _ => rfl, fun _ => id, id⟩

theorem Extends.trans {u : Store ω δ} (h : Extends did s t) (h' : Extends did t u) :
    Extends did s u where
  watched := h'.watched.trans h.watched
  approvals := h'.approvals.trans h.approvals
  observations other cid hother :=
    (h'.observations other cid hother).trans (h.observations other cid hother)
  alerts correlation hfound := h'.alerts correlation (h.alerts correlation hfound)
  typed htyped := h'.typed (h.typed htyped)

/-- Steps that extend, one after another, extend. -/
theorem Extends.foldl {α : Type} {f : Store ω δ → α → Store ω δ}
    (hf : ∀ s a, Extends did s (f s a)) (l : List α) (s : Store ω δ) :
    Extends did s (l.foldl f s) := by
  induction l generalizing s with
  | nil => exact .refl did s
  | cons a l ih => exact (hf s a).trans (ih _)

theorem Store.alert_find (s : Store ω δ) (did : Did) (category : Category)
    (correlation other : Correlation) (detail : Detail) :
    ((s.alert did category correlation detail).alerts.find other).isSome =
      (decide (other = correlation) || (s.alerts.find other).isSome) := by
  simp only [Store.alert, Table.find_insertNew]
  by_cases h : other = correlation <;> simp [h]

theorem extends_alert {category : Category} {correlation : Correlation} {detail : Detail}
    (hdid : correlation.did = did) (hcategory : correlation.category = category) :
    Extends did s (s.alert did category correlation detail) where
  watched := rfl
  approvals := rfl
  observations _ _ _ := rfl
  alerts other hfound := by
    rw [Store.alert_find, hfound, Bool.or_true]
  typed htyped other row hrow := by
    simp only [Store.alert, Table.find_insertNew] at hrow
    split at hrow
    · rename_i heq
      subst heq
      cases hold : s.alerts.find other with
      | none =>
        rw [hold, Option.getD_none, Option.some.injEq] at hrow
        subst hrow
        exact ⟨hdid.symm, hcategory.symm⟩
      | some old =>
        rw [hold, Option.getD_some, Option.some.injEq] at hrow
        subst hrow
        exact htyped other old hold
    · exact htyped other row hrow

theorem extends_observe {expectedCid : String} {current : Current ω δ} {expected : Bool}
    {now : Int} {entry : ExportedOp ω} :
    Extends did s (observe platform did expectedCid current expected now s entry) := by
  have hobserved : Extends did s { s with
      observations := s.observations.insertNew (did, entry.cid) ⟨entry.operation, expected⟩ } := by
    refine ⟨rfl, rfl, fun other cid hother => ?_, fun _ => id, id⟩
    rw [Table.find_insertNew, if_neg]
    intro h
    exact hother (congrArg Prod.fst h)
  unfold observe
  split
  · exact hobserved
  · exact hobserved.trans (extends_alert rfl rfl)

theorem extends_reportStatus {expectedCid : String} {previousCurrentCid : Option String}
    {current : Current ω δ} {now : Int} {prior : ExportedOp ω} :
    Extends did s (reportStatus platform did expectedCid previousCurrentCid current now s prior) := by
  unfold reportStatus
  split
  · exact .refl did s
  · split
    · exact extends_alert rfl rfl
    · exact .refl did s

/-! ### One poll -/

theorem reportStatus_observations {expectedCid : String} {previousCurrentCid : Option String}
    {current : Current ω δ} {now : Int} (l : List (ExportedOp ω)) (s : Store ω δ) :
    (l.foldl (reportStatus platform did expectedCid previousCurrentCid current now) s).observations =
      s.observations := by
  induction l generalizing s with
  | nil => rfl
  | cons prior l ih =>
    rw [List.foldl_cons, ih]
    unfold reportStatus
    split
    · rfl
    · split <;> rfl

/-- Observing entries adds the observations of these alone. -/
theorem observe_observations {expectedCid : String} {current : Current ω δ} {expected : Bool}
    {now : Int} (l : List (ExportedOp ω)) (s : Store ω δ) (cid : String)
    (h : ((l.foldl (observe platform did expectedCid current expected now) s).observations.find
      (did, cid)).isSome) : (s.observations.find (did, cid)).isSome ∨ cid ∈ cids l := by
  induction l generalizing s with
  | nil => exact .inl h
  | cons entry l ih =>
    rw [List.foldl_cons] at h
    rcases ih _ h with hfound | hmem
    · by_cases hcid : cid = entry.cid
      · exact .inr (hcid ▸ List.mem_cons_self)
      · have hobservations : (observe platform did expectedCid current expected now s
            entry).observations = s.observations.insertNew (did, entry.cid)
              ⟨entry.operation, expected⟩ := by
          unfold observe
          split <;> rfl
        rw [hobservations, Table.find_insertNew, if_neg fun h => hcid (congrArg Prod.snd h)]
          at hfound
        exact .inl hfound
    · exact .inr (List.mem_cons_of_mem _ hmem)

/-- Each observed entry but the expected one has an alert. -/
theorem observe_alerts {expectedCid : String} {current : Current ω δ} {expected : Bool} {now : Int}
    (l : List (ExportedOp ω)) (s : Store ω δ) {entry : ExportedOp ω} (hentry : entry ∈ l)
    (hunexpected : entry.cid ≠ expectedCid) :
    ((l.foldl (observe platform did expectedCid current expected now) s).alerts.find
      (.operation did entry.cid)).isSome := by
  induction l generalizing s with
  | nil => exact absurd hentry List.not_mem_nil
  | cons first l ih =>
    rw [List.foldl_cons]
    rcases List.mem_cons.1 hentry with rfl | hrest
    · refine (Extends.foldl (fun s a => extends_observe) l _).alerts _ ?_
      simp only [observe, if_neg hunexpected, Store.alert_find, decide_true, Bool.true_or]
    · exact ih _ hrest

variable [DecidableEq δ] {row : Watched ω δ} {current : Current ω δ} {now : Int}

/-- What a successful poll writes: the row of the DID, and before it observations and alerts. -/
structure Polled (did : Did) (row : Watched ω δ) (current : Current ω δ) (now : Int)
    (s t u : Store ω δ) : Prop where
  extending : Extends did s u
  observed : ∀ cid, (u.observations.find (did, cid)).isSome →
    (s.observations.find (did, cid)).isSome ∨ cid ∈ cids current.audit
  alerted : ∀ entry ∈ current.audit, entry.cid ∉ cids (row.lastAudit.getD []) →
    entry.cid ≠ row.expectedCid → (u.alerts.find (.operation did entry.cid)).isSome
  result : ∃ row', t = { u with watched := u.watched.insert did row' } ∧
    row'.expectedCid = row.expectedCid ∧ row'.expectedState = row.expectedState ∧
    row'.enrolledAt = row.enrolledAt ∧ row'.lastAudit = some current.audit ∧
    row'.lastPolledAt = some now

omit [DecidableEq δ] in
theorem extends_alertGap :
    Extends did s (alertGap did row now s) ∧ (alertGap did row now s).observations = s.observations ∧
      (row.CoverageGap now →
        ((alertGap did row now s).alerts.find (.coverage did row.baseline)).isSome) := by
  unfold alertGap
  split
  · exact ⟨extends_alert rfl rfl, rfl, fun _ => by simp [Store.alert_find]⟩
  · rename_i hgap
    exact ⟨.refl did s, rfl, fun h => absurd h hgap⟩

theorem extends_alertCurrent :
    Extends did s (alertCurrent platform did row current now s) ∧
      (alertCurrent platform did row current now s).observations = s.observations := by
  unfold alertCurrent
  split
  · exact ⟨.refl did s, rfl⟩
  · split
    · exact ⟨.refl did s, rfl⟩
    · exact ⟨extends_alert rfl rfl, rfl⟩

theorem extends_alertRestored :
    Extends did s (alertRestored did row current now s) ∧
      (alertRestored did row current now s).observations = s.observations := by
  unfold alertRestored
  split
  · exact ⟨extends_alert rfl rfl, rfl⟩
  · exact ⟨.refl did s, rfl⟩

theorem recordPoll_polled : ∃ u, Polled did row current now s
    (recordPoll platform did row current now s) u := by
  let s₁ := (newEntries row current).foldl
    (observe platform did row.expectedCid current (row.expects current) now) s
  let s₂ := alertCurrent platform did row current now s₁
  let s₃ := reportStatuses platform did row current now s₂
  have h₁ : Extends did s s₁ := Extends.foldl (fun _ _ => extends_observe) _ s
  have h₂ : Extends did s₁ s₂ := extends_alertCurrent.1
  have h₃ : Extends did s₂ s₃ := Extends.foldl (fun _ _ => extends_reportStatus) _ s₂
  have h₄ : Extends did s₃ (alertRestored did row current now s₃) := extends_alertRestored.1
  have h₃' : s₃.observations = s₂.observations := reportStatus_observations _ s₂
  have hobservations : (alertRestored did row current now s₃).observations = s₁.observations := by
    rw [extends_alertRestored.2, h₃', extends_alertCurrent.2]
  refine ⟨alertRestored did row current now s₃, ((h₁.trans h₂).trans h₃).trans h₄, ?_, ?_, _, rfl,
    rfl, rfl, rfl, rfl, rfl⟩
  · intro cid hfound
    rw [hobservations] at hfound
    refine (observe_observations _ s cid hfound).imp_right fun hmem => ?_
    obtain ⟨entry, hentry, rfl⟩ := List.mem_map.1 hmem
    exact List.mem_map_of_mem (List.mem_filter.1 hentry).1
  · intro entry hentry hnew hunexpected
    have hfresh : entry ∈ newEntries row current := by
      refine List.mem_filter.2 ⟨hentry, ?_⟩
      rw [Bool.not_eq_true', List.any_eq_false]
      intro prior hprior hcid
      exact hnew (List.mem_map.2 ⟨prior, hprior, by simpa using hcid⟩)
    exact ((h₂.trans h₃).trans h₄).alerts _ (observe_alerts _ s hfresh hunexpected)

/-- What a poll that is not accepted leaves: the row of the DID, but for its readiness. -/
structure Unready (did : Did) (row : Watched ω δ) (s t : Store ω δ) : Prop where
  approvals : t.approvals = s.approvals
  observations : t.observations = s.observations
  alerts : ∀ correlation, (s.alerts.find correlation).isSome →
    (t.alerts.find correlation).isSome
  typed : s.Typed → t.Typed
  watched : t.watched = s.watched.insert did { row with pollReady := false }

variable [DecidableEq ω]

/-- What the poll of a watched DID does, once its gap is alerted. -/
theorem pollOne_cases (platform : Platform ρ ω δ) (source : Except Fault (List ρ)) (now : Int)
    (hfound : s.watched.find did = some row) :
    accepted platform s source did = none ∧
        Unready did row (alertGap did row now s) (pollOne platform now source did s).1 ∨
      ∃ l current u, accepted platform s source did = some current ∧
        continued platform did row l = .ok current ∧
        Polled did row current now (alertGap did row now s)
          (pollOne platform now source did s).1 u := by
  cases source with
  | error fault =>
    refine .inl ⟨?_, ?_⟩
    · simp [accepted, hfound, Except.toOption]
    · simp only [pollOne, hfound]
      exact ⟨rfl, rfl, fun _ => id, id, rfl⟩
  | ok l =>
    cases hcontinued : continued platform did row l with
    | ok current =>
      obtain ⟨u, hu⟩ : ∃ u, Polled did row current now (alertGap did row now s)
          (recordPoll platform did row current now (alertGap did row now s)) u :=
        recordPoll_polled
      refine .inr ⟨l, current, u, ?_, hcontinued, ?_⟩
      · simp [accepted, hfound, Except.toOption, hcontinued]
      · simp only [pollOne, hfound, hcontinued]
        exact hu
    | error fault =>
      refine .inl ⟨?_, ?_⟩
      · simp [accepted, hfound, Except.toOption, hcontinued]
      · have hextends (u : Store ω δ) : Extends did u (u.alert did .invalidOperationLog
            (.invalid did) (.invalid now)) := extends_alert rfl rfl
        simp only [pollOne, hfound, hcontinued]
        exact ⟨rfl, rfl, (hextends _).alerts, (hextends _).typed, rfl⟩

end HailProto.Monitor
