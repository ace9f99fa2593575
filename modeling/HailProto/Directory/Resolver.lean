import HailProto.Core.Transition
import HailProto.Directory.Audit

/-!
# Retained resolutions

`public-resolver.ts` with the storage of `evidence-storage.ts`: a resolution of a DID asks the
configured readers in order, compares the audit log of the first one that answers with the evidence
retained last, and is later retained itself. Resolutions run concurrently: what one read at its
start may be stale when it ends, and the observations of several can be retained in any order.
-/

namespace HailProto.Directory

open Server

/-- A witness of a bundle: the reader that was asked, and its audit log. -/
structure PlcWitness (ω : Type) where
  origin : String
  operator : String
  audit : List (ExportedOp ω)
  deriving DecidableEq

/-- The bundle of a resolution, without the document, the state and the log, which the audit
determines; times are in milliseconds. -/
structure Bundle (ω : Type) where
  did : Did
  operationCid : String
  readStartedAt : Int
  verifiedAt : Int
  providerOperators : List String
  witnesses : List (PlcWitness ω)
  deriving DecidableEq

/-- `PublicResolutionRow`; the versions are the same constants in every row. -/
structure PublicResolutionRow where
  evidenceDigest : Bytes
  did : Did
  operationCid : String
  verifiedAt : Int
  bundleBytes : Bytes
  deriving DecidableEq

/-- What `validatePlcAudit` returns: the audit as it was parsed and its current operation. -/
structure Checked (ω : Type) where
  audit : List (ExportedOp ω)
  operationCid : String

/-- What a reader answered before its share of the deadline: its audit log, or how it failed, and
what its health says. -/
structure Reading (ω : Type) where
  origin : String
  operator : String
  audit : Except Fault (List (ExportedOp ω))
  health : Except Fault Unit

/-- What the resolver calls: the evidence codec with its hash, and the validation of an audit. -/
structure Platform (ω : Type) where
  encodePublicEvidence : Bundle ω → Except Fault Bytes
  decodePublicEvidence : Bytes → Except Fault (Bundle ω)
  /-- Decoding gives back what was encoded. -/
  decode_encode : ∀ bundle bytes, encodePublicEvidence bundle = .ok bytes →
    decodePublicEvidence bytes = .ok bundle
  evidenceHash : Bytes → Bytes
  validatePlcAudit : Did → List (ExportedOp ω) → Except Fault (Checked ω)
  /-- The keys and the service of the audit's state are canonical and distinct. -/
  checkRoles : Did → Checked ω → Except Fault Unit

variable {ω : Type} [DecidableEq ω] (platform : Platform ω)

/-- The audit of the first witness of a retained bundle. -/
def retainedAudit (previousBytes : Bytes) : Except Fault (List (ExportedOp ω)) := do
  let bundle ← platform.decodePublicEvidence previousBytes
  match bundle.witnesses with
  | witness :: _ => .ok witness.audit
  | [] => .error (.error "Retained PLC authority evidence has no audit history")

def assertNoHistoryRegression (previousBytes : Bytes) (current : List (ExportedOp ω)) :
    Except Fault Unit := do
  let rawAudit ← retainedAudit platform previousBytes
  if rawAudit.any (regressed current) then
    .error (.error "PLC reader history regressed from retained evidence")
  else .ok ()

/-- `if (previous) assertNoHistoryRegression(previous.bundle_bytes, audit)`. -/
def assertContinues (previous : Option Bytes) (current : List (ExportedOp ω)) :
    Except Fault Unit :=
  match previous with
  | some bytes => assertNoHistoryRegression platform bytes current
  | none => .ok ()

/-- A resolution under way: what `resolveFresh` read before it asked a reader. -/
structure Pending where
  did : Did
  started : Int
  previous : Option Bytes

/-- One reader of the loop. -/
def tryReader (pending : Pending) (reading : Reading ω) : Except Fault (Checked ω) := do
  let audit ← reading.audit
  if reading.origin ≠ "https://plc.directory" then reading.health else .ok ()
  let checked ← platform.validatePlcAudit pending.did audit
  assertContinues platform pending.previous checked.audit
  platform.checkRoles pending.did checked
  .ok checked

/-- The loop over the readers: the first answer that passes is selected. -/
def selectReader (pending : Pending) :
    List Fault → List (Reading ω) → Except Fault (Reading ω × Checked ω)
  | [failure], [] => .error failure
  | _, [] => .error (.error "No configured PLC reader returned fresh valid evidence")
  | failures, reading :: readings =>
    match tryReader platform pending reading with
    | .ok checked => .ok (reading, checked)
    | .error failure => selectReader pending (failures ++ [failure]) readings

/-- An entry of `observations`. -/
structure Observation (ω : Type) where
  row : PublicResolutionRow
  audit : List (ExportedOp ω)

/-- The end of `resolveFresh`. -/
def observe (timeoutMs : Int) (providerOperators : List String) (pending : Pending)
    (readings : List (Reading ω)) (verifiedAt : Int) : Except Fault (Observation ω) := do
  let (reading, checked) ← selectReader platform pending [] readings
  if verifiedAt < pending.started ∨ timeoutMs < verifiedAt - pending.started then
    .error (.error "Public PLC verification clock/deadline is invalid")
  else
    let bytes ← platform.encodePublicEvidence
      { did := pending.did
        operationCid := checked.operationCid
        readStartedAt := pending.started
        verifiedAt := verifiedAt
        providerOperators := providerOperators
        witnesses := [⟨reading.origin, reading.operator, checked.audit⟩] }
    .ok ⟨⟨platform.evidenceHash bytes, pending.did, checked.operationCid, verifiedAt, bytes⟩,
      checked.audit⟩

/-- `storePublicResolution`: a row whose digest is taken has to be the retained one. -/
def storePublicResolution (rows : List PublicResolutionRow) (row : PublicResolutionRow) :
    Except Fault (List PublicResolutionRow) :=
  match rows.find? fun retained => retained.evidenceDigest == row.evidenceDigest with
  | none => .ok (rows ++ [row])
  | some retained =>
    if retained ≠ row then .error (.error "Retained public PLC resolution conflicts")
    else .ok rows

/-- The transaction of `retainAuthenticatedResolution`, given the row its query found. -/
def retain (rows : List PublicResolutionRow) (observation : Observation ω) (now : Int)
    (previous : Option PublicResolutionRow) : Except Fault (List PublicResolutionRow) :=
  if 30000 < (now - observation.row.verifiedAt).natAbs then
    .error (.error "Resolution expired before retention")
  else do
    assertContinues platform (previous.map PublicResolutionRow.bundleBytes) observation.audit
    storePublicResolution rows observation.row

/-- `ORDER BY verified_at DESC LIMIT 1`: a row of the DID that none is later than. Which one of
several equally late ones it is, the query leaves open. -/
def IsLatest (rows : List PublicResolutionRow) (did : Did) : Option PublicResolutionRow → Prop
  | none => ∀ row ∈ rows, row.did ≠ did
  | some latest => latest ∈ rows ∧ latest.did = did ∧
      ∀ row ∈ rows, row.did = did → row.verifiedAt ≤ latest.verifiedAt

instance (rows : List PublicResolutionRow) (did : Did) (latest : Option PublicResolutionRow) :
    Decidable (IsLatest rows did latest) := by
  cases latest <;> unfold IsLatest <;> infer_instance

/-- The retained rows in the order of their retention, with what the processes hold in memory. -/
structure Resolutions (ω : Type) where
  rows : List PublicResolutionRow
  pending : List Pending
  observations : List (Observation ω)

def Resolutions.initial : Resolutions ω := ⟨[], [], []⟩

/-- A resolution starts, a resolution ends, and an observation is retained. The positions are those
of the resolution and of the observation in memory, `latest` is what the query answered. -/
inductive ResolverEvent (ω : Type)
  | start (did : Did) (now : Int) (latest : Option PublicResolutionRow)
  | finish (position : Nat) (timeoutMs : Int) (providerOperators : List String)
      (readings : List (Reading ω)) (now : Int)
  | retain (position : Nat) (now : Int) (latest : Option PublicResolutionRow)

/-- A call that raises is not a step. -/
def resolverStep (s : Resolutions ω) : ResolverEvent ω → Option (Resolutions ω)
  | .start did now latest =>
    if IsLatest s.rows did latest then
      some { s with pending := s.pending ++
        [⟨did, now, latest.map PublicResolutionRow.bundleBytes⟩] }
    else none
  | .finish position timeoutMs providerOperators readings now => do
      let pending ← s.pending[position]?
      let observation ←
        (observe platform timeoutMs providerOperators pending readings now).toOption
      some { s with observations := s.observations ++ [observation] }
  | .retain position now latest => do
      let observation ← s.observations[position]?
      if IsLatest s.rows observation.row.did latest then do
        let rows ← (retain platform s.rows observation now latest).toOption
        some { s with rows := rows }
      else none

end HailProto.Directory
