import HailProto.Codec.Text
import HailProto.Core.Table
import HailProto.Core.Transition
import HailProto.Directory.Audit

/-!
# The PLC monitor

`monitor.ts` and `operation-detail.ts` of the monitor, with what `notifier.ts` writes: enrolled
DIDs are polled for their audit logs, every operation that was not known is observed and alerted,
an operator approves operations that were observed, and an attestation is signed while the record
shows no gap. Each call that writes is one transaction, which locks the rows of the DIDs it reads;
what it fetched from the directory before is an argument.
-/

namespace HailProto.Monitor

open Server Codec Directory

/-- The parts of `new URL(value)` that `assertWebhookUrl` reads. -/
structure Url where
  protocol : String
  username : String
  password : String
  hash : String
  search : String
  hostname : String
  origin : String

/-- `normalizeOp`: the state that an operation declares. -/
structure NormalOp where
  rotationKeys : List String
  alsoKnownAs : List String
  verificationMethods : List (String × String)
  services : List (String × String × String)
  deriving DecidableEq

/-- `IndexedOperation`. -/
structure IndexedOperation (ω : Type) where
  did : Did
  cid : String
  operation : ω
  createdAt : Int
  nullified : Bool

/-- What the monitor calls: `@did-plc/lib`, the CID of an operation, dates, URLs and digests. `ρ` is
an entry as the directory returns it, `ω` an operation and `δ` the `DocumentData` of a state. -/
structure Platform (ρ ω δ : Type) where
  /-- `def.exportedOp.parse`. -/
  parse : ρ → Except Fault (ExportedOp ω)
  /-- `(await cidForCbor(operation)).toString()`. -/
  cidForCbor : ω → String
  /-- `new Date(text).getTime()`, when it is finite. -/
  time : String → Option Int
  /-- The nullified CIDs of `assureValidNextOp`. -/
  assureValidNextOp : Did → List (IndexedOperation ω) → ω → Int → Except Fault (List String)
  validateOperationLog : Did → List ω → Except Fault (Option δ)
  /-- `def.documentData.strict().parse`. -/
  documentData : δ → Except Fault δ
  type : ω → String
  prev : ω → Option String
  /-- `normalizeOp`, for an operation that is no tombstone. -/
  normalizeOp : ω → NormalOp
  plcStateDigest : δ → String
  url : String → Except Fault Url
  isIP : String → Bool

variable {ρ ω δ : Type} [DecidableEq ω] [DecidableEq δ] (platform : Platform ρ ω δ)

/-- `^b[a-z2-7]+$`. -/
def cidPattern (s : String) : Bool :=
  match s.toList with
  | 'b' :: c :: cs => (c :: cs).all fun c => ('a' ≤ c && c ≤ 'z') || ('2' ≤ c && c ≤ '7')
  | _ => false

/-- `^[0-9a-f]{8}-(?:[0-9a-f]{4}-){3}[0-9a-f]{12}$`. -/
def transferIdPattern (s : String) : Bool :=
  matchesShape (List.replicate 8 isHex ++ [(· == '-')] ++
    (List.replicate 3 (List.replicate 4 isHex ++ [(· == '-')])).flatten ++
    List.replicate 12 isHex) s.toList

def assertWebhookUrl (value : String) : Except Fault Url := do
  let url ← platform.url value
  if url.protocol ≠ "https:" ∨ url.username ≠ "" ∨ url.password ≠ "" ∨ url.hash ≠ "" ∨
      url.search ≠ "" ∨ url.hostname = "" ∨ platform.isIP url.hostname ∨
      253 < url.hostname.length ∨
      !((url.hostname.toList.map Char.toNat).splitOn 46).all domainLabel then
    .error (.error "Monitor alert destination must be a canonical HTTPS DNS URL")
  else .ok url

/-! ### Audit logs -/

/-- A validated audit log: its current operation and state. -/
structure Current (ω δ : Type) where
  cid : String
  state : δ
  audit : List (ExportedOp ω)

/-- `for (const nullified of accepted.nullified)`: the operation with the CID is nullified. -/
def nullify : List (IndexedOperation ω) → String → Except Fault (List (IndexedOperation ω))
  | [], _ => .error (.error "PLC audit recovery is incomplete")
  | operation :: history, cid =>
    if operation.cid = cid then .ok ({ operation with nullified := true } :: history)
    else do
      let rest ← nullify history cid
      .ok (operation :: rest)

/-- The loop over an audit log: each entry is the next operation of the history before it. -/
def replay (did : Did) : List (IndexedOperation ω) → List (ExportedOp ω) →
    Except Fault (List (IndexedOperation ω))
  | history, [] => .ok history
  | history, entry :: audit =>
    match platform.time entry.createdAt with
    | none => .error (.error "PLC audit bytes or annotations are invalid")
    | some createdAt =>
      if entry.did ≠ did ∨ platform.cidForCbor entry.operation ≠ entry.cid ∨
          history.any (·.cid == entry.cid) ∨
          history.getLast?.any (fun last => createdAt < last.createdAt) then
        .error (.error "PLC audit bytes or annotations are invalid")
      else do
        let nullified ← platform.assureValidNextOp did (history.filter (!·.nullified))
          entry.operation createdAt
        let history ← nullified.foldlM nullify history
        replay did (history ++ [⟨did, entry.cid, entry.operation, createdAt, false⟩]) audit

/-- `readState`, on what the directory returned. -/
def readState (did : Did) (source : List ρ) : Except Fault (Current ω δ) := do
  let audit ← source.mapM platform.parse
  if audit.isEmpty ∨ 1000 < audit.length then
    .error (.error "PLC audit is incomplete or exceeds the monitor limit")
  else
    let history ← replay platform did [] audit
    if (history.zip audit).any fun e => e.1.nullified != e.2.nullified then
      .error (.error "PLC audit nullification is invalid")
    else
      let log := history.filter (!·.nullified)
      let state ← platform.validateOperationLog did (log.map IndexedOperation.operation)
      match state, log.getLast? with
      | some state, some last => .ok ⟨last.cid, state, audit⟩
      | _, _ => .error (.error "PLC audit has no valid current state")

def assertNoHistoryRegression (previous current : List (ExportedOp ω)) : Except Fault Unit :=
  if previous.any (regressed current) then .error (.error "PLC audit history regressed") else .ok ()

/-! ### Alerts -/

/-- The categories of the alerts that a monitor writes. -/
inductive Category
  | unexpectedOperation
  | coverageLost
  | invalidOperationLog
  | exportGap
  | onboardingEnrollment
  | operationStatus
  | monitoringRestored
  deriving DecidableEq

/-- The correlation of an alert. The code writes it as one text, its kind and its DID first; a DID
has 32 characters, so the text determines the parts. -/
inductive Correlation
  | operation (did : Did) (cid : String)
  | status (did : Did) (cid : String) (nullified : Bool)
  | coverage (did : Did) (baseline : Int)
  | restored (did : Did) (baseline : Int)
  | invalid (did : Did)
  | onboarding (did : Did) (cid : String)
  deriving DecidableEq

/-- A value of a change, `null` where the operation has none. -/
inductive Shown
  | texts (values : List String)
  | method (key : String)
  | service (type endpoint : String)
  | null
  deriving DecidableEq

structure Change where
  field : String
  before : Shown
  after : Shown
  deriving DecidableEq

/-- What `operationDetail` returns; times are in milliseconds. -/
structure OperationDetail where
  operationCid : String
  expectedCid : String
  currentCid : String
  operationType : String
  operationRecordedAt : String
  observedAt : Int
  status : String
  comparisonAvailable : Bool
  changes : List Change
  deriving DecidableEq

/-- The `detail` of an alert. -/
inductive Detail
  | operation (detail : OperationDetail)
  | coverage (lastHealthyAt : Option Int) (enrolledAt observedAt : Int)
  | restored (observedAt : Int) (lastHealthyAt : Option Int) (matchesApprovedState : Bool)
      (currentCid : String)
  | invalid (observedAt : Int)
  | onboarding (operationCid : String) (enrolledAt : Int)
  deriving DecidableEq

/-- The changes of one group: the keys before, then those that were added. -/
def groupChanges {α : Type} [DecidableEq α] (group : String) (render : α → Shown)
    (before after : List (String × α)) : List Change :=
  let keys := before.map Prod.fst ++
    (after.map Prod.fst).filter fun key => !(before.map Prod.fst).contains key
  keys.filterMap fun key =>
    if before.lookup key = after.lookup key then none
    else some ⟨group ++ "." ++ key, ((before.lookup key).map render).getD .null,
      ((after.lookup key).map render).getD .null⟩

/-- The changes of an operation against its declared parent. -/
def operationChanges (before after : NormalOp) : List Change :=
  (if before.rotationKeys = after.rotationKeys then []
    else [⟨"rotationKeys", .texts before.rotationKeys, .texts after.rotationKeys⟩]) ++
  (if before.alsoKnownAs = after.alsoKnownAs then []
    else [⟨"alsoKnownAs", .texts before.alsoKnownAs, .texts after.alsoKnownAs⟩]) ++
  groupChanges "verificationMethods" .method before.verificationMethods
    after.verificationMethods ++
  groupChanges "services" (fun s => .service s.1 s.2) before.services after.services

def operationDetail (entry : ExportedOp ω) (audit : List (ExportedOp ω))
    (currentCid expectedCid : String) (observedAt : Int) : OperationDetail :=
  let declares (operation : ω) : Option NormalOp :=
    if platform.type operation = "plc_tombstone" then none
    else some (platform.normalizeOp operation)
  let parent := audit.find? fun candidate => some candidate.cid == platform.prev entry.operation
  let before := parent.bind fun parent => declares parent.operation
  let after := declares entry.operation
  { operationCid := entry.cid
    expectedCid := expectedCid
    currentCid := currentCid
    operationType := platform.type entry.operation
    operationRecordedAt := entry.createdAt
    observedAt := observedAt
    status :=
      if entry.nullified then "nullified"
      else if entry.cid = currentCid then "current" else "superseded"
    comparisonAvailable := before.isSome && after.isSome
    changes :=
      match before, after with
      | some before, some after => operationChanges before after
      | _, _ => [] }

/-! ### Tables -/

/-- A row of `monitored_dids`, under its DID; times are in milliseconds. -/
structure Watched (ω δ : Type) where
  expectedCid : String
  expectedState : δ
  alertWebhookUrl : String
  enrolledAt : Int
  lastVerifiedCid : Option String
  lastVerifiedAt : Option Int
  lastAudit : Option (List (ExportedOp ω))
  coverageSince : Option Int
  lastPolledAt : Option Int
  pollReady : Bool

/-- A row of `monitor_observations`, under its DID and CID. -/
structure Observation (ω : Type) where
  operation : ω
  expected : Bool

/-- A row of `monitor_alerts`, under its correlation; the leases and attempts of the notifier are
left out. -/
structure Alert where
  did : Did
  category : Category
  detail : Detail
  sentAt : Option Int

/-- A row of `monitor_approvals`, under its DID and operation. -/
structure Approval (δ : Type) where
  previousExpectedCid : String
  approvedState : δ

/-- A row of `monitor_bootstrap_checkpoints`, under its DID. -/
structure Bootstrap (δ : Type) where
  operationCid : String
  reviewedState : δ
  reviewedAt : Int

/-- `monitor_cursor`. -/
structure Cursor where
  caughtUp : Bool
  lastHealthyAt : Option Int
  updatedAt : Int

structure Store (ω δ : Type) where
  watched : Table Did (Watched ω δ)
  observations : Table (Did × String) (Observation ω)
  alerts : Table Correlation Alert
  approvals : Table (Did × String) (Approval δ)
  bootstraps : Table Did (Bootstrap δ)
  cursor : Cursor

/-- `alert`: the row is inserted unless the correlation has one. -/
def Store.alert (s : Store ω δ) (did : Did) (category : Category) (correlation : Correlation)
    (detail : Detail) : Store ω δ :=
  { s with alerts := s.alerts.insertNew correlation ⟨did, category, detail, none⟩ }

/-! ### Calls -/

/-- `enroll`, on what the directory returned. -/
def enroll (s : Store ω δ) (did : Did) (expectedCid alertWebhookUrl : String)
    (reviewed : Option δ) (source : Except Fault (List ρ)) (enrolledAt : Int) :
    Except Fault (Store ω δ) := do
  if !didPattern did ∨ !cidPattern expectedCid then
    .error (.error "Monitor DID or expected PLC CID is not canonical")
  else
    let _ ← assertWebhookUrl platform alertWebhookUrl
    let source ← source
    let current ← readState platform did source
    if current.cid ≠ expectedCid then
      .error (.error "Expected PLC CID does not match current valid state")
    else
      let checkpoint ← reviewed.mapM platform.documentData
      if checkpoint.any (· != current.state) then
        .error (.error "Reviewed bootstrap checkpoint does not match the complete current PLC state")
      else
        match s.watched.find did with
        | some prior =>
          let bootstrap := s.bootstraps.find did
          if prior.expectedCid ≠ expectedCid ∨ prior.alertWebhookUrl ≠ alertWebhookUrl ∨
              prior.expectedState ≠ current.state ∨ bootstrap.isSome ≠ reviewed.isSome ∨
              bootstrap.any (fun b => b.operationCid != expectedCid ||
                decide (some b.reviewedState ≠ reviewed)) then
            .error (.error
              "Monitor enrollment retry differs from retained bootstrap or alert destination")
          else .ok s
        | none =>
          let row : Watched ω δ := ⟨expectedCid, current.state, alertWebhookUrl, enrolledAt,
            some expectedCid, some enrolledAt, some current.audit, some enrolledAt, none, false⟩
          let s := { s with watched := s.watched.insert did row }
          match reviewed with
          | none => .ok s
          | some _ =>
            let s := { s with
              bootstraps := s.bootstraps.insert did ⟨expectedCid, current.state, enrolledAt⟩ }
            .ok (s.alert did .onboardingEnrollment (.onboarding did expectedCid)
              (.onboarding expectedCid enrolledAt))

/-- What a sweep has found so far. -/
inductive PollState
  | current
  | unavailable
  | invalidLog
  deriving DecidableEq

/-- One operation of the audit that the last audit lacks. -/
def observe (did : Did) (expectedCid : String) (current : Current ω δ) (expected : Bool)
    (now : Int) (s : Store ω δ) (entry : ExportedOp ω) : Store ω δ :=
  let s := { s with
    observations := s.observations.insertNew (did, entry.cid) ⟨entry.operation, expected⟩ }
  if entry.cid = expectedCid then s
  else s.alert did .unexpectedOperation (.operation did entry.cid)
    (.operation (operationDetail platform entry current.audit current.cid expectedCid now))

/-- An operation that the last audit had: nullified since, or no longer current. -/
def reportStatus (did : Did) (expectedCid : String) (previousCurrentCid : Option String)
    (current : Current ω δ) (now : Int) (s : Store ω δ) (prior : ExportedOp ω) : Store ω δ :=
  match current.audit.find? fun entry => entry.cid == prior.cid with
  | none => s
  | some entry =>
    if (!prior.nullified && entry.nullified ||
        some prior.cid == previousCurrentCid && entry.cid != current.cid) &&
        (s.alerts.find (.operation did entry.cid)).any (·.did == did) then
      s.alert did .operationStatus (.status did entry.cid entry.nullified)
        (.operation (operationDetail platform entry current.audit current.cid expectedCid now))
    else s

/-- `row.last_polled_at && row.last_polled_at > row.enrolled_at ? … : row.enrolled_at`. -/
def Watched.baseline (row : Watched ω δ) : Int :=
  match row.lastPolledAt with
  | some at' => if row.enrolledAt < at' then at' else row.enrolledAt
  | none => row.enrolledAt

/-- The poll comes more than a day after the last one. -/
def Watched.CoverageGap (row : Watched ω δ) (now : Int) : Prop := 86400000 < now - row.baseline

instance (row : Watched ω δ) (now : Int) : Decidable (row.CoverageGap now) :=
  inferInstanceAs (Decidable (_ < _))

/-- `if (coverageGap)`. -/
def alertGap (did : Did) (row : Watched ω δ) (now : Int) (s : Store ω δ) : Store ω δ :=
  if row.CoverageGap now then
    s.alert did .coverageLost (.coverage did row.baseline)
      (.coverage row.lastPolledAt row.enrolledAt now)
  else s

/-- The audit's current operation and state are the expected ones. -/
def Watched.expects (row : Watched ω δ) (current : Current ω δ) : Bool :=
  decide (current.cid = row.expectedCid ∧ current.state = row.expectedState)

/-- The entries that the last audit lacks. -/
def newEntries (row : Watched ω δ) (current : Current ω δ) : List (ExportedOp ω) :=
  current.audit.filter fun entry => !(row.lastAudit.getD []).any (·.cid == entry.cid)

/-- `if (!expected)`: the current operation is alerted. -/
def alertCurrent (did : Did) (row : Watched ω δ) (current : Current ω δ) (now : Int)
    (s : Store ω δ) : Store ω δ :=
  match current.audit.find? fun entry => entry.cid == current.cid with
  | none => s
  | some entry =>
    if row.expects current then s
    else s.alert did .unexpectedOperation (.operation did current.cid)
      (.operation (operationDetail platform entry current.audit current.cid row.expectedCid now))

/-- The loop over the last audit. -/
def reportStatuses (did : Did) (row : Watched ω δ) (current : Current ω δ) (now : Int)
    (s : Store ω δ) : Store ω δ :=
  let previous := row.lastAudit.getD []
  let previousCurrentCid := (previous.filter (!·.nullified)).getLast?.map ExportedOp.cid
  previous.foldl (reportStatus platform did row.expectedCid previousCurrentCid current now) s

/-- A poll after a gap or a failed poll. -/
def alertRestored (did : Did) (row : Watched ω δ) (current : Current ω δ) (now : Int)
    (s : Store ω δ) : Store ω δ :=
  if row.CoverageGap now ∨ !row.pollReady ∧ row.lastPolledAt.isSome then
    s.alert did .monitoringRestored (.restored did row.baseline)
      (.restored now row.lastPolledAt (row.expects current) current.cid)
  else s

/-- A poll of one DID whose audit continues the last one. -/
def recordPoll (did : Did) (row : Watched ω δ) (current : Current ω δ) (now : Int)
    (s : Store ω δ) : Store ω δ :=
  let expected := row.expects current
  let s := (newEntries row current).foldl
    (observe platform did row.expectedCid current expected now) s
  let s := alertCurrent platform did row current now s
  let s := reportStatuses platform did row current now s
  let s := alertRestored did row current now s
  { s with watched := s.watched.insert did { row with
      lastAudit := some current.audit
      lastPolledAt := some now
      coverageSince := some (row.coverageSince.getD now)
      pollReady := true
      lastVerifiedCid := if expected then some current.cid else row.lastVerifiedCid
      lastVerifiedAt := if expected then some now else row.lastVerifiedAt } }

/-- The audit that a poll of a DID accepts: it is valid and continues the last one. -/
def continued (did : Did) (row : Watched ω δ) (source : List ρ) : Except Fault (Current ω δ) := do
  let current ← readState platform did source
  match row.lastAudit with
  | some previous => assertNoHistoryRegression previous current.audit
  | none => .ok ()
  .ok current

/-- One DID of `pollWatched`, with what the directory returned for it. -/
def pollOne (now : Int) (source : Except Fault (List ρ)) (did : Did) (s : Store ω δ) :
    Store ω δ × PollState :=
  match s.watched.find did with
  | none => (s, .current)
  | some row =>
    let s := alertGap did row now s
    let unready := { s with watched := s.watched.insert did { row with pollReady := false } }
    match source with
    | .error _ => (unready, .unavailable)
    | .ok source =>
      match continued platform did row source with
      | .ok current => (recordPoll platform did row current now s, .current)
      | .error _ =>
        (unready.alert did .invalidOperationLog (.invalid did) (.invalid now), .invalidLog)

/-- The state of a sweep after one more DID. -/
def PollState.after : PollState → PollState → PollState
  | state, .current => state
  | .invalidLog, .unavailable => .invalidLog
  | _, .unavailable => .unavailable
  | _, .invalidLog => .invalidLog

/-- The DIDs of a sweep in its order: every DID, or the one that is given. -/
def monitored (s : Store ω δ) (only : Option Did) : List Did :=
  ((s.watched.rows.map Prod.fst).filter fun did => only.all (· == did)).mergeSort
    fun a b => decide (a ≤ b)

/-- `pollWatched`. -/
def pollWatched (now : Int) (only : Option Did) (answers : Did → Except Fault (List ρ))
    (s : Store ω δ) : Store ω δ × PollState :=
  let (s, state) := (monitored s only).foldl (fun r did =>
    let (s, found) := pollOne platform now (answers did) did r.1
    (s, r.2.after found)) (s, .current)
  if only.isNone then
    ({ s with cursor :=
      { caughtUp := state = .current
        lastHealthyAt := if state = .current then some now else s.cursor.lastHealthyAt
        updatedAt := now } }, state)
  else (s, state)

/-- `approveExpected`, on what the directory returned. -/
def approveExpected (s : Store ω δ) (did : Did) (cid : String) (reviewed : δ)
    (source : Except Fault (List ρ)) (now : Int) : Except Fault (Store ω δ) := do
  let source ← source
  let current ← readState platform did source
  if current.cid ≠ cid ∨ current.state ≠ reviewed then
    .error (.error "Reviewed PLC CID or complete expected state does not match the validated log")
  else
    match s.watched.find did with
    | none => .error (.error "No new monitored operation to approve")
    | some previous =>
      if previous.expectedCid = cid then
        .error (.error "No new monitored operation to approve")
      else if (s.observations.find (did, cid)).isNone then
        .error (.error "Operation has not been observed in the sequenced export")
      else if (s.approvals.find (did, cid)).isSome then
        .error (.uniqueViolation "monitor_approvals_pkey")
      else .ok { s with
        approvals := s.approvals.insert (did, cid) ⟨previous.expectedCid, reviewed⟩
        watched := s.watched.insert did { previous with
          expectedCid := cid
          expectedState := reviewed
          lastVerifiedCid := some cid
          lastVerifiedAt := some now } }

/-- What `sendOne` writes after the webhook answered a claimed alert with a status; `none` when it
did not answer. -/
def recordSent (s : Store ω δ) (correlation : Correlation) (status : Option Nat) (now : Int) :
    Store ω δ :=
  match s.alerts.find correlation, status with
  | some row, some status =>
    if row.sentAt.isNone ∧ 200 ≤ status ∧ status < 300 then
      { s with alerts := s.alerts.insert correlation { row with sentAt := some now } }
    else s
  | _, _ => s

/-- `hail.plc-monitor-attestation`; times are in seconds. -/
structure Attestation where
  version : Nat
  did : Did
  transferId : Uuid
  operationCid : String
  monitorOrigin : String
  coverageSince : Int
  observedAt : Int
  /-- The CID and the state digest of the bootstrap checkpoint. -/
  bootstrap : Option (String × String)

/-- The gaps that an attestation counts. -/
def Category.isGap : Category → Bool
  | .coverageLost | .exportGap | .invalidOperationLog => true
  | .unexpectedOperation | .onboardingEnrollment | .operationStatus | .monitoringRestored => false

/-- The alerts of a DID in a category of gaps. -/
def Store.gaps (s : Store ω δ) (did : Did) : Nat :=
  s.alerts.rows.countP fun e => e.2.did == did && e.2.category.isGap

/-- The delivered alerts of an operation. -/
def Store.notified (s : Store ω δ) (did : Did) (cid : String) : Nat :=
  s.alerts.rows.countP fun e =>
    e.2.did == did && decide (e.1 = .operation did cid) && e.2.sentAt.isSome

def Store.approved (s : Store ω δ) (did : Did) (cid : String) : Nat :=
  s.approvals.rows.countP fun e => decide (e.1 = (did, cid))

/-- The row of an attested DID shows no gap, and its approval and its alert are there. -/
def Attestable (s : Store ω δ) (did : Did) (operationCid : String) (row : Watched ω δ)
    (state : δ) (now : Int) : Prop :=
  row.expectedCid = operationCid ∧ state = row.expectedState ∧ row.coverageSince.isSome ∧
    row.pollReady ∧ s.approved did operationCid = 1 ∧ 1 ≤ s.notified did operationCid ∧
    s.gaps did = 0 ∧ row.lastPolledAt.any (fun at' =>
      decide (now - at' ≤ 300000 ∧ at' ≤ now + 300000)) = true ∧ row.enrolledAt ≤ now + 300000

instance (s : Store ω δ) (did : Did) (operationCid : String) (row : Watched ω δ) (state : δ)
    (now : Int) : Decidable (Attestable s did operationCid row state now) :=
  inferInstanceAs (Decidable (_ ∧ _))

/-- `attest`: the attestation that the signer signs. -/
def attest (s : Store ω δ) (did : Did) (transferId : Uuid) (operationCid origin : String)
    (source : Except Fault (List ρ)) (now : Int) : Except Fault Attestation := do
  let malformed : Fault :=
    .error "Monitor attestation needs a canonical DID, transfer ID, CID and HTTPS origin"
  if !didPattern did ∨ !transferIdPattern transferId ∨ !cidPattern operationCid then
    .error malformed
  else
    let url ← assertWebhookUrl platform origin
    if url.origin ≠ origin then .error malformed
    else
      let source ← source
      let current ← readState platform did source
      if current.cid ≠ operationCid then
        .error (.error "Monitor cannot attest a noncurrent PLC operation")
      else
        match s.watched.find did with
        | none =>
          .error (.error "Independent monitor approval or uninterrupted coverage is unavailable")
        | some row =>
          if ¬Attestable s did operationCid row current.state now then
            .error (.error
              "Independent monitor approval or uninterrupted coverage is unavailable")
          else
            match row.lastAudit with
            | none => .error (.error "Independent monitor has no retained DID audit")
            | some retained => do
                assertNoHistoryRegression retained current.audit
                if retained ≠ current.audit then
                  .error (.error "Independent monitor has not polled the current DID audit")
                else
                  let bootstrap := s.bootstraps.find did
                  .ok
                    { version := if bootstrap.isSome then 3 else 1
                      did := did
                      transferId := transferId
                      operationCid := operationCid
                      monitorOrigin := origin
                      coverageSince := (row.coverageSince.getD 0) / 1000
                      observedAt := now / 1000
                      bootstrap := bootstrap.map fun b =>
                        (b.operationCid, platform.plcStateDigest b.reviewedState) }

end HailProto.Monitor
