import HailProto.Grants.Store
import HailProto.Messages.Envelope

/-!
# What a message transaction reads of the rest of the provider

Accounts, migration fences, serving generations, federated connections and grants belong to
other subsystems. A transaction reads them under the account locks it takes, so they do not
change while it runs; its `Ambient` holds them together with the answers of the database clock,
which does advance from one statement to the next. The permission function is the one of
`0072_retired_peer_messages.sql`.
-/

namespace HailProto.Messages

open Server

/-- A row of `provider_accounts`. -/
structure Account where
  did : Option Did
  active : Bool
  verifiedPublic : Bool
  closed : Bool

/-- The account is served under its public identity. -/
def Account.serving (account : Account) : Bool := account.active && account.verifiedPublic

inductive FenceState
  | fenced
  | exported
  | retired
  deriving DecidableEq

inductive PairState
  | empty
  | active
  | disconnected
  deriving DecidableEq

/-- A row of `federated_connection_pairs`, as far as messages read it. -/
structure PairRow where
  accountId : Uuid
  servingGeneration : Nat
  localDid : Did
  peerDid : Did
  epoch : Nat
  state : PairState
  connectionId : Option Uuid

structure Ambient where
  accounts : Table Uuid Account
  /-- `provider_migration_fences` by DID, with the account. -/
  fences : Table Did (Uuid × FenceState)
  /-- `account_serving_generations`. -/
  generations : Table Uuid Nat
  /-- The session's `hail.admitted_generations`. -/
  admittedGenerations : Uuid → Option Nat
  pairs : Table Uuid PairRow
  /-- `federated_connection_tombstones`: the pair and the closed connection. -/
  tombstones : List (Uuid × Uuid)
  /-- `account_connections`, by the two DIDs. -/
  accountConnections : List (Did × Did)
  /-- Handovers that are frozen or committed: the account and the other party. -/
  barriers : List (Uuid × Did)
  connectionPreferences : Table (Uuid × Uuid × Nat) Bool
  accountPreferences : Table Uuid Bool
  grants : Grants.Store
  /-- The size of each published `detached_bodies` row, by account and digest. -/
  publishedBodies : Table (Uuid × Bytes) Nat
  /-- The accounts with a `connection_message_batches` row that has a conversation context. -/
  conversationBatches : List Uuid
  /-- `conversation_revival_batches`: the account, the creator and the conversation. -/
  revivalBatches : List (Uuid × Did × Uuid)
  /-- `now()`, the start of the transaction. -/
  start : Nat
  /-- The successive answers of `clock_timestamp()` in the transaction. -/
  clock : Nat → Nat
  start_le : start ≤ clock 0
  clock_mono : Monotone clock
  /-- The clock's answers are dates. -/
  clock_le : ∀ i, clock i ≤ maxInstant

/-- A user of the account API, or the local party a transaction acts for. -/
structure Owner where
  accountId : Uuid
  did : Did
  deriving DecidableEq

/-- Run a check when it applies. -/
def checkWhen (applies : Bool) (check : Except Fault Unit) : Except Fault Unit :=
  if applies then check else .ok ()

namespace Ambient

variable (ambient : Ambient)

/-- The account with this DID; a DID belongs to at most one. -/
def accountByDid (did : Did) : Option (Uuid × Account) :=
  ambient.accounts.rows.find? fun (_, account) => account.did = some did

def isFenced (accountId : Uuid) : Bool :=
  ambient.fences.rows.any fun (_, fence) => fence.1 = accountId

def isRetired (accountId : Uuid) : Bool :=
  ambient.fences.rows.any fun (_, fence) => fence.1 = accountId && fence.2 = .retired

/-- `hail_assert_unfenced_account`. -/
def assertUnfencedAccount (accountId : Uuid) : Except Fault Unit :=
  match (ambient.accounts.find accountId).bind Account.did with
  | none => .ok ()
  | some did =>
    let serving := ambient.generations.find accountId
    let expected := ambient.admittedGenerations accountId
    if (expected.isSome ∧ expected ≠ serving) ∨ (serving.any (1 < ·) ∧ expected = none) then
      .error FenceFault.staleGeneration.fault
    else if (ambient.fences.find did).isSome then .error FenceFault.fenced.fault
    else .ok ()

/-- `hail_assert_unfenced_did`. -/
def assertUnfencedDid (did : Did) : Except Fault Unit :=
  match ambient.accountByDid did with
  | none => .ok ()
  | some (accountId, _) => ambient.assertUnfencedAccount accountId

/-- The account's own pair row admits messages over this connection at this epoch. -/
def pairPermits (accountId : Uuid) (localDid peerDid : Did) (connection : Uuid) (epoch : Nat) :
    Bool :=
  ambient.pairs.rows.any fun (pairId, pair) =>
    decide (pair.accountId = accountId ∧ pair.localDid = localDid ∧ pair.peerDid = peerDid ∧
      pair.connectionId = some connection ∧ pair.epoch = epoch ∧ pair.state = .active ∧
      ambient.generations.find accountId = some pair.servingGeneration ∧
      (pairId, connection) ∉ ambient.tombstones) && !ambient.isFenced accountId

/-- Lock one member of a pair; a retired peer is not asserted to be served here. -/
def lockMember (owner member : Uuid) : Except Fault Unit :=
  if member = owner then ambient.assertUnfencedAccount member
  else if ambient.isRetired member then .ok ()
  else ambient.assertUnfencedAccount member

/-- Lock the members of a pair in the order of their identifiers. -/
def lockPair (owner : Uuid) (peer : Option Uuid) : Except Fault Unit :=
  match peer with
  | none => ambient.lockMember owner owner
  | some peer =>
    if owner = peer then ambient.lockMember owner owner
    else if owner < peer then do
      ambient.lockMember owner owner
      ambient.lockMember owner peer
    else do
      ambient.lockMember owner peer
      ambient.lockMember owner owner

/-- What `hail_connection_message_permission` answers once the rows are locked. -/
def pairConnected (ownerId : Uuid) (owner other : Did) (peer : Option (Uuid × Account))
    (connection : Uuid) (epoch : Nat) : Bool :=
  ambient.pairPermits ownerId owner other connection epoch &&
    !ambient.accountConnections.any (fun c => c = (owner, other) || c = (other, owner)) &&
    match peer with
    | none => true
    | some (peerId, account) =>
      ambient.isRetired peerId ||
        (account.serving && ambient.pairPermits peerId other owner connection epoch)

/-- `hail_connection_message_permission`. -/
def connectionMessagePermission (owner other : Did) (connection : Uuid) (epoch : Nat)
    (lock : Bool) : Except Fault Bool :=
  if owner = other ∨ epoch < 1 then .ok false
  else
    match ambient.accountByDid owner with
    | none => .ok false
    | some (ownerId, account) =>
      if !account.serving then .ok false
      else do
        let peer := ambient.accountByDid other
        checkWhen lock (ambient.lockPair ownerId (peer.map Prod.fst))
        .ok (ambient.pairConnected ownerId owner other peer connection epoch)

/-- `hail_connection_handover_blocked`. -/
def connectionHandoverBlocked (owner other : Did) : Bool :=
  ambient.barriers.any fun (accountId, moving) =>
    match (ambient.accounts.find accountId).bind Account.did with
    | none => false
    | some did => (did = owner && moving = other) || (did = other && moving = owner)

/-- The pause is an error, so that it is not mistaken for a rejection. -/
def connectionMessageAllowed (owner peer : Did) (connection : Uuid) (epoch : Nat)
    (lock acceptWhilePaused : Bool) : Except Fault Bool := do
  let allowed ← ambient.connectionMessagePermission owner peer connection epoch lock
  if !allowed then .ok false
  else if !acceptWhilePaused ∧ ambient.connectionHandoverBlocked owner peer then
    .error (.error "Connection authorization is paused for account handover")
  else .ok true

/-- The choice for this connection lifetime, or the account's, or the default. -/
def conversationIntroductionAllowed (accountId connection : Uuid) (epoch : Nat) : Bool :=
  (ambient.connectionPreferences.find (accountId, connection, epoch)).getD
    ((ambient.accountPreferences.find accountId).getD true)

/-- Lock a current, open account that is not fenced. -/
def lockOwner (owner : Owner) : Except Fault Unit :=
  match ambient.accounts.find owner.accountId with
  | none => .error (.error "Current account is unavailable.")
  | some account =>
    if account.did ≠ some owner.did ∨ !account.serving ∨ account.closed then
      .error (.error "Current account is unavailable.")
    else ambient.assertUnfencedAccount owner.accountId

/-- A connection message that is allowed has the permission. -/
theorem permission_of_allowed {owner peer : Did} {connection : Uuid} {epoch : Nat}
    {lock paused : Bool}
    (h : ambient.connectionMessageAllowed owner peer connection epoch lock paused = .ok true) :
    ambient.connectionMessagePermission owner peer connection epoch lock = .ok true := by
  simp only [connectionMessageAllowed, bind_eq_ok] at h
  obtain ⟨allowed, hpermission, h⟩ := h
  cases allowed with
  | true => exact hpermission
  | false => simp at h

end Ambient

end HailProto.Messages
