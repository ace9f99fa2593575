import HailProto.Core.Count
import HailProto.Federation.Control

/-!
# The connection tables of one provider

The tables of `0064_connection_federation.sql` as later migrations leave them, the triggers on
the pair row, and the functions every transaction of `connection-federation.ts` shares. A pair
is named by its unique key, the account and the peer, and an event by its pair and epoch; the
surrogate ids of both are left out. A transaction holds the account row locked, so it is one
step on the store, and one that raises leaves no trace.
-/

namespace HailProto.Federation

open Server
open Messages (PairState)

/-- `UNIQUE(account_id, peer_did)`. -/
abbrev PairKey := Uuid × Did

/-- `UNIQUE(pair_id, epoch)`. -/
abbrev EventKey := PairKey × Nat

/-- A row of `federated_connection_pairs`. -/
structure Pair extends Standing where
  servingGeneration : Nat
  localDid : Did
  peerAddress : String
  peerServiceBase : String
  coordinatorServiceBase : String
  cutoffAt : Option Nat
  deriving DecidableEq

theorem Pair.next_pos (row : Pair) : 0 < row.epoch + 1 := Nat.succ_pos _

inductive AttemptDirection
  | outbound
  | admitted
  deriving DecidableEq

inductive AttemptState
  | pending
  | admitted
  | active
  | expired
  | conflict
  deriving DecidableEq

/-- A row of `federated_connection_attempts`, without the encrypted token. -/
structure Attempt where
  pair : PairKey
  direction : AttemptDirection
  bundle : Bytes
  proofDigest : Bytes
  admissionCose : Option Bytes
  resultCose : Option Bytes
  state : AttemptState
  expiresAt : Nat
  deriving DecidableEq

/-- A row of `federated_connection_events`. -/
structure Event extends Standing where
  requestId : Uuid
  proofDigest : Bytes
  createdAt : Nat
  deriving DecidableEq

inductive ResultAction
  | connect
  | disconnect
  deriving DecidableEq

/-- A row of `federated_connection_results`. -/
structure ResultRow where
  pair : PairKey
  action : ResultAction
  requestCose : Bytes
  proofDigest : Bytes
  event : EventKey
  deriving DecidableEq

/-- A row of `federated_connection_tombstones`. -/
structure Tombstone where
  epoch : Nat
  createdAt : Nat
  deriving DecidableEq

/-- A row of `federated_connection_outbox`. -/
structure OutboxRow where
  requestId : Option Uuid
  ackCose : Option Bytes
  deriving DecidableEq

/-- A row of `federated_connection_disconnects`. -/
structure DisconnectRow where
  pair : PairKey
  connectionId : Uuid
  epoch : Nat
  resultCose : Option Bytes
  deriving DecidableEq

structure Store where
  pairs : Table PairKey Pair
  attempts : Table (Uuid × Uuid) Attempt
  events : Table EventKey Event
  results : Table Uuid ResultRow
  tombstones : Table (PairKey × Uuid) Tombstone
  /-- By event and request; no request counts as the zero UUID. -/
  outbox : Table (EventKey × Uuid) OutboxRow
  disconnects : Table Uuid DisconnectRow

instance : EmptyCollection Store := ⟨⟨∅, ∅, ∅, ∅, ∅, ∅, ∅⟩⟩

/-- The account a transaction acts for. -/
structure ConnectionOwner where
  id : Uuid
  did : Did
  generation : Nat
  deriving DecidableEq

/-- What a transaction reads outside the connection tables. -/
structure Transaction where
  /-- The recheck of the owner, its serving generation and its migration fence. -/
  opening : Except Failure Unit
  /-- The provider's own service base. -/
  base : String
  resolve : Did → Except Failure Resolved
  /-- `now()`, in seconds. -/
  now : Nat
  /-- `clock_timestamp()` where a tombstone is inserted, in microseconds. -/
  clock : Nat
  /-- `clock_timestamp()` where the cutoff is set after it. -/
  cutoffClock : Nat
  clock_le : clock ≤ cutoffClock
  /-- The authority checks and the key a signature needs. -/
  signing : Except Failure Unit
  /-- `hail_connection_handover_blocked` for the pair. -/
  handoverBlocked : Bool
  /-- Obsolete native rows exist for the pair. -/
  nativeHistory : Bool

def handoverPaused : Failure :=
  .fault ⟨some "55000", "Connection activation is paused for account handover"⟩

def obsoleteHistory : Failure :=
  .fault ⟨some "55000",
    "Obsolete local connection history blocks this pair until explicitly scoped cleanup"⟩

def historyReplaced : Failure :=
  .fault (.error "Federated pair identity and history cannot be replaced")

def epochReopened : Failure :=
  .fault (.error "A terminal connection epoch cannot be reopened")

/-- The zero UUID stands for a missing request in the outbox index. -/
def zeroUuid : Uuid := "00000000-0000-0000-0000-000000000000"

namespace Store

variable (tx : Transaction) (s : Store)

/-- The tombstone of a connection exists. -/
def closed (key : PairKey) (connectionId : Uuid) : Bool :=
  (s.tombstones.find (key, connectionId)).isSome

/-- `UPDATE federated_connection_pairs` of the standing and the cutoff, under the triggers. -/
def updatePair (key : PairKey) (change : Pair → Pair) : Except Failure Store :=
  match s.pairs.find key with
  | none => .ok s
  | some old =>
    let new := change old
    if new.state = .active ∧ new.toStanding ≠ old.toStanding ∧ tx.handoverBlocked = true then
      .error handoverPaused
    else if tx.nativeHistory then .error obsoleteHistory
    else if new.epoch < old.epoch ∨ old.cutoffAt.any (fun cutoff =>
      new.cutoffAt.all (· < cutoff)) = true then .error historyReplaced
    else if new.state = .active ∧ (new.state ≠ old.state ∨
        new.connectionId ≠ old.connectionId ∨ old.epoch < new.epoch) ∧
        new.connectionId.any (s.closed key) = true then .error epochReopened
    else .ok { s with pairs := s.pairs.insert key new }

/-- The message of a full pair table. -/
def pairLimit : Failure :=
  .connection 429
    "The federation preview supports up to 100 retained peer relationships per account."

/-- `pair`: the row of a peer, created when there is none and an address is known. -/
def pair (owner : ConnectionOwner) (peer : Did) (address : Option String) :
    Except Failure (Store × Pair) := do
  let remote ← tx.resolve peer
  let coordinatorBase := if owner.did < peer then tx.base else remote.serviceBase
  match s.pairs.find (owner.id, peer), address with
  | some row, _ =>
    if row.servingGeneration ≠ owner.generation ∨ row.localDid ≠ owner.did then
      .error (.status 409)
    else if row.peerServiceBase ≠ remote.serviceBase ∨
        row.coordinatorServiceBase ≠ coordinatorBase then
      .error (.connection 409
        "Provider location changed; portable history reconciliation is required.")
    else .ok (s, row)
  | none, some address =>
    if 100 ≤ s.pairs.count (fun key _ => key.1 = owner.id) then .error pairLimit
    else if tx.nativeHistory then .error obsoleteHistory
    else if peer = owner.did then
      .error (.fault (.checkViolation "federated_connection_pairs_check"))
    else
      let row : Pair := ⟨.start, owner.generation, owner.did, address, remote.serviceBase,
        coordinatorBase, none⟩
      .ok ({ s with pairs := s.pairs.insert (owner.id, peer) row }, row)
  | none, none => .error (.status 404)

/-- `pairById`. -/
def pairById (key : PairKey) (owner : ConnectionOwner) : Except Failure Pair :=
  match s.pairs.find key with
  | some row =>
    if key.1 ≠ owner.id ∨ row.servingGeneration ≠ owner.generation then .error (.status 404)
    else .ok row
  | none => .error (.status 404)

/-- The first half of `apply`: a disconnected snapshot leaves its tombstone, and the cutoff
moves when the tombstone is new and the snapshot is not behind the row. -/
def recordClosing (key : PairKey) (row : Pair) (snapshot : Control) (connectionId : Uuid) :
    Except Failure Store :=
  if snapshot.state = .disconnected ∧ !s.closed key connectionId then
    let s' := { s with
      tombstones := s.tombstones.insert (key, connectionId) ⟨snapshot.epoch, tx.clock⟩ }
    if row.epoch ≤ snapshot.epoch then
      s'.updatePair tx key fun p => { p with cutoffAt := some tx.cutoffClock }
    else .ok s'
  else .ok s

def conflictingEpoch : Failure := .connection 409 "Conflicting coordinator epoch."

/-- The second half of `apply`: a snapshot that is not behind the row becomes its standing. -/
def adoptSnapshot (key : PairKey) (row : Pair) (snapshot : Control) (connectionId : Uuid) :
    Except Failure Store :=
  if snapshot.epoch < row.epoch ∨ snapshot.state = .active ∧ s.closed key connectionId = true then
    .ok s
  else if snapshot.epoch = row.epoch ∧ row.connectionId ≠ none ∧
      row.connectionId ≠ some connectionId then .error conflictingEpoch
  else if snapshot.toStanding = row.toStanding then .ok s
  else s.updatePair tx key fun p => { p with toStanding := snapshot.toStanding }

/-- `apply`: what a provider learns from a coordinator's snapshot. -/
def apply (key : PairKey) (row : Pair) (snapshot : Control) : Except Failure Store :=
  if snapshot.fromDid ≠ (sortDids row.localDid key.2).1 ∨
      snapshot.toDid ≠ (sortDids row.localDid key.2).2 then .error (.status 400)
  else
    match snapshot.connectionId with
    -- no connection: the state is empty
    | none => .ok s
    | some connectionId => do
        let s ← s.recordClosing tx key row snapshot connectionId
        s.adoptSnapshot tx key row snapshot connectionId

end Store

/-- The fields a caller of `sign` chooses. -/
structure ControlFields extends Standing where
  operation : ControlOperation
  toDid : Did
  requestId : Uuid
  proofHash : Bytes

/-- `sign`: the payload a provider signs for one of its accounts. -/
def sign (tx : Transaction) (owner : ConnectionOwner) (fields : ControlFields) (issued : Nat) :
    Except Failure Control := do
  tx.signing
  let receipt := fields.operation = .snapshot ∨ fields.operation = .admission ∨
    fields.operation = .ack
  .ok ⟨fields.toStanding, fields.operation, owner.did, fields.toDid, fields.requestId,
    fields.proofHash, issued, if receipt then none else some (issued + 300),
    keyId owner.did .messaging⟩

/-- `snapshot` of an event, or of the pair's row when no event is given. -/
def snapshot (tx : Transaction) (owner : ConnectionOwner) (peer : Did) (request : Control)
    (event : Option Event) (row : Option Pair) : Except Failure Control :=
  let standing := ((event.map Event.toStanding).or (row.map Pair.toStanding)).getD .start
  sign tx owner ⟨standing, .snapshot, peer, request.requestId,
    (event.map Event.proofDigest).getD request.proofHash⟩
    ((event.map fun e => e.createdAt / Messages.second).getD tx.now)

end HailProto.Federation
