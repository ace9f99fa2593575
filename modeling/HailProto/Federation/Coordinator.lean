import HailProto.Federation.Store

/-!
# The coordinator's transactions

`event`, `coordinatorConnect` and `coordinatorDisconnect`, and the local `disconnect` that hides
a connection before the coordinator closes it. A result is never deleted, so the lookup that
`coordinatorConnect` makes before its transaction either sees the result that is there or came
too early; the call says which.
-/

namespace HailProto.Federation

open Server

/-- A response of the coordinator: the event under the request's proof, and for `commit` the
pair's current snapshot. -/
structure Answer where
  control : Control
  current : Option Control
  deriving DecidableEq

/-- A `commit` request after `handle` verified its control and looked up the account of the
lesser party. -/
structure ConnectCall where
  owner : ConnectionOwner
  peer : Did
  request : Control
  /-- The codec accepts no control to its own sender. -/
  distinct : request.fromDid ≠ request.toDid
  routed : sortDids request.fromDid request.toDid = (owner.did, peer)
  bytes : Bytes
  admissionBytes : Bytes
  requestBytes : Bytes
  /-- The first lookup came before another call stored the result. -/
  missed : Bool
  bundleReads : Reads
  snapshotReads : Reads
  admissionReads : Reads
  tx : Transaction
  /-- The `uuidV7()` of a new connection. -/
  connectionId : Uuid

/-- The pair a request is about. -/
abbrev ConnectCall.key (call : ConnectCall) : PairKey := (call.owner.id, call.peer)

/-- A `disconnect` request after `handle` verified its control and looked up the account of the
lesser party. -/
structure DisconnectCall where
  owner : ConnectionOwner
  peer : Did
  request : Control
  distinct : request.fromDid ≠ request.toDid
  routed : sortDids request.fromDid request.toDid = (owner.did, peer)
  requestBytes : Bytes
  tx : Transaction

abbrev DisconnectCall.key (call : DisconnectCall) : PairKey := (call.owner.id, call.peer)

/-- A local disconnect of one of the provider's accounts. -/
structure LocalDisconnect where
  owner : ConnectionOwner
  key : PairKey
  connectionId : Uuid
  operationId : Uuid
  tx : Transaction

namespace Store

variable (platform : Platform) (s : Store)

/-- `event`: insert the event of a new epoch; a closing is queued for the peer at once. -/
def event (tx : Transaction) (key : PairKey) (request : Control) (standing : Standing) :
    Except Failure (Store × Event) :=
  let event : Event := ⟨standing, request.requestId, request.proofHash, tx.clock⟩
  if (s.events.find (key, standing.epoch)).isSome then
    .error (.fault (.uniqueViolation "federated_connection_events_pair_id_epoch_key"))
  else
    let s' := { s with events := s.events.insert (key, standing.epoch) event }
    if standing.state = .disconnected then
      .ok ({ s' with
        outbox := s'.outbox.insert ((key, standing.epoch), zeroUuid) ⟨none, none⟩ }, event)
    else .ok (s', event)

/-- `INSERT INTO federated_connection_results`. -/
def insertResult (id : Uuid) (row : ResultRow) : Except Failure Store :=
  if (s.results.find id).isSome then
    .error (.fault (.uniqueViolation "federated_connection_results_pkey"))
  else .ok { s with results := s.results.insert id row }

/-- `INSERT INTO federated_connection_outbox` for a request. -/
def insertOutbox (event : EventKey) (requestId : Uuid) : Except Failure Store :=
  if (s.outbox.find (event, requestId)).isSome then
    .error (.fault (.uniqueViolation "federated_connection_outbox_intent"))
  else .ok { s with outbox := s.outbox.insert (event, requestId) ⟨some requestId, none⟩ }

/-- `(await tx... )[0]!` of an event; a missing row raises where it is read. -/
def eventRow (key : EventKey) : Except Failure Event :=
  match s.events.find key with
  | some event => .ok event
  | none => .error (.fault (.error "undefined is not an object"))

def connectionResponse (tx : Transaction) (owner : ConnectionOwner) (peer : Did)
    (request : Control) (event : Event) (proof : Bytes) : Except Failure Answer := do
  let (_, row) ← s.pair tx owner peer none
  let control ← snapshot tx owner peer request (some { event with proofDigest := proof }) none
  let current ← snapshot tx owner peer { request with proofHash := platform.emptyHash } none
    (some row)
  .ok ⟨control, some current⟩

def superseded : Failure :=
  .connection 409 "The reviewed connection epoch was superseded."

/-- The snapshot `coordinatorConnect` and `coordinatorDisconnect` apply to their own row. -/
def ownSnapshot (owner : ConnectionOwner) (peer : Did) (request : Control)
    (standing : Standing) : Control :=
  { request with
    toStanding := standing
    operation := .snapshot
    fromDid := owner.did
    toDid := peer
    expiresAt := none }

/-- The event a verified request converges on, or the new one it advances the pair to, with its
epoch. -/
def resolveConnect (call : ConnectCall) (v : Verified) (row : Pair) :
    Except Failure (Store × Nat × Event) :=
  if row.state = .active ∧ (call.request.epoch = row.epoch ∨
      call.request.epoch + 1 = row.epoch) then
    if row.connectionId.any (s.closed call.key) = true then .error (.status 409)
    else do
      let event ← s.eventRow (call.key, row.epoch)
      .ok (s, row.epoch, event)
  else if call.request.toStanding ≠ row.toStanding then .error superseded
  else if v.confirmation.expiresAt ≤ call.tx.now then .error (.status 410)
  else do
    let opened := Standing.opened (row.epoch + 1) call.connectionId row.next_pos
    let (s, event) ← s.event call.tx call.key call.request opened
    let s ← s.apply call.tx call.key row (ownSnapshot call.owner call.peer call.request opened)
    .ok (s, row.epoch + 1, event)

def noLocalConsent : Failure :=
  .connection 409 "Coordinator has no local consent for this pair."

/-- The transaction of a request whose result was not there at first. -/
def commitConnect (call : ConnectCall) (v : Verified) : Except Failure (Store × Answer) := do
  let proof := platform.sha256 call.bytes
  call.tx.opening
  let address := if call.owner.did = v.inviter.did then v.sb.address else v.ib.address
  let (s, row) ← s.pair call.tx call.owner call.peer (some address)
  if ((s.attempts.find (call.owner.id, call.request.requestId)).filter fun a =>
    a.pair = call.key ∧ a.proofDigest = proof).isNone then .error noLocalConsent
  else
    match s.results.find call.request.requestId with
    | some raced =>
      if raced.proofDigest ≠ proof then .error (.status 409)
      else do
        let event ← s.eventRow raced.event
        let answer ← s.connectionResponse platform call.tx call.owner call.peer call.request
          event proof
        .ok (s, answer)
    | none => do
        let (s, epoch, event) ← s.resolveConnect call v row
        let s ← s.insertResult call.request.requestId
          ⟨call.key, .connect, call.requestBytes, proof, (call.key, epoch)⟩
        let s ← s.insertOutbox (call.key, epoch) call.request.requestId
        let answer ← s.connectionResponse platform call.tx call.owner call.peer call.request
          event proof
        .ok (s, answer)

/-- The result a connect request's first lookup finds. -/
def priorConnect (call : ConnectCall) : Option ResultRow :=
  (s.results.find call.request.requestId).filter fun row =>
    !call.missed && row.pair.1 = call.owner.id && row.action = .connect

def coordinatorConnect (call : ConnectCall) : Except Failure (Store × Answer) :=
  let proof := platform.sha256 call.bytes
  match s.priorConnect call with
  | some prior => do
      call.tx.opening
      let (_, _) ← s.pair call.tx call.owner call.peer none
      if prior.pair ≠ call.key ∨ prior.proofDigest ≠ proof then
        .error (.status 409)
      else do
        let event ← s.eventRow prior.event
        let answer ← s.connectionResponse platform call.tx call.owner call.peer call.request
          event prior.proofDigest
        .ok (s, answer)
  | none => do
      let v ← verifyBundle platform call.bundleReads call.snapshotReads call.bytes true
      let admission ← verify platform call.admissionReads call.admissionBytes .admission false
      call.request.checkMatches v v.scanner.did
      admission.checkMatches v v.inviter.did
      s.commitConnect platform call v

def differentEpoch : Failure :=
  .connection 409 "Disconnect targets a different connection epoch."

/-- The latest event that closed a connection of the pair. -/
def closingEvent (key : PairKey) (connectionId : Uuid) : Option (Nat × Event) :=
  (s.events.rows.filterMap fun (eventKey, event) =>
    if eventKey.1 = key ∧ event.connectionId = some connectionId ∧
        event.state = .disconnected then some (eventKey.2, event) else none).argmax Prod.fst

/-- The event a disconnect request is answered from, when no result is there. -/
def resolveDisconnect (call : DisconnectCall) (row : Pair) (connectionId : Uuid) :
    Except Failure (Store × Nat × Event) :=
  match s.closingEvent call.key connectionId with
  | some (epoch, old) => .ok (s, epoch, old)
  | none =>
    if row.connectionId ≠ some connectionId ∨ row.state = .empty then .error differentEpoch
    else do
      let closing := Standing.closed (row.epoch + 1) connectionId (Nat.succ_pos _)
      let (s, event) ← s.event call.tx call.key call.request closing
      let s ← s.apply call.tx call.key row (ownSnapshot call.owner call.peer call.request closing)
      .ok (s, row.epoch + 1, event)

def coordinatorDisconnect (call : DisconnectCall) : Except Failure (Store × Answer) :=
  match call.request.connectionId with
  | none => .error (.status 400)
  | some connectionId =>
    if call.request.state ≠ .active ∨
        call.request.proofHash ≠ platform.sha256 (platform.encodeConnection connectionId) then
      .error (.status 400)
    else do
      call.tx.opening
      let (_, row) ← s.pair call.tx call.owner call.peer none
      match s.results.find call.request.requestId with
      | some prior =>
        if prior.pair ≠ call.key ∨ prior.proofDigest ≠ call.request.proofHash then
          .error (.status 409)
        else do
          let event ← s.eventRow prior.event
          let control ← snapshot call.tx call.owner call.peer call.request (some event) none
          .ok (s, ⟨control, none⟩)
      | none => do
          let (s, epoch, event) ← s.resolveDisconnect call row connectionId
          let s ← s.insertResult call.request.requestId
            ⟨call.key, .disconnect, call.requestBytes, call.request.proofHash, (call.key, epoch)⟩
          let control ← snapshot call.tx call.owner call.peer call.request (some event) none
          .ok (s, ⟨control, none⟩)

def noLongerActive : Failure := .connection 409 "The connection is no longer active."

/-- `disconnect`: hide the connection and queue its closing at the coordinator. -/
def disconnect (call : LocalDisconnect) : Except Failure Store := do
  let row ← s.pairById call.key call.owner
  if row.connectionId ≠ some call.connectionId ∨ row.state ≠ .active then .error noLongerActive
  else do
    let s : Store := { s with
      tombstones := s.tombstones.insertNew (call.key, call.connectionId)
        ⟨row.epoch, call.tx.clock⟩ }
    let s ← s.updatePair call.tx call.key fun p =>
      { p with cutoffAt := some call.tx.cutoffClock }
    if (s.disconnects.find call.operationId).isSome then
      .error (.fault (.uniqueViolation "federated_connection_disconnects_pkey"))
    else .ok { s with
      disconnects := s.disconnects.insert call.operationId
        ⟨call.key, call.connectionId, row.epoch, none⟩ }

end Store

end HailProto.Federation
