import HailProto.Core.Transition
import HailProto.Messages.Delivery

/-!
# Runs of a provider's message store

A run interleaves the transactions of the envelope and delivery repositories, the conversation
operations and pruning in any order. A worker acts with a claim that `claimDue` handed out, at
any later time and as often as it likes; lease tokens are fresh. A transaction that raises is
rolled back, and the run goes on.
-/

namespace HailProto.Messages

open Server

/-- The authorization is the one of this conversation. -/
def EnvelopeAuthorization.inConversation (identity : ConversationKey) :
    EnvelopeAuthorization → Bool
  | .conversation creator conversationId _ => decide ((creator, conversationId) = identity)
  | _ => false

namespace Store

variable (s : Store) (ambient : Ambient)

/-- A stored envelope of the account belongs to the conversation. -/
def envelopeRetained (accountId : Uuid) (identity : ConversationKey) : Bool :=
  s.sent.rows.any (fun (_, e) =>
      e.senderAccountId = accountId && e.authorization.inConversation identity) ||
    s.received.rows.any fun (_, e) =>
      e.localAccountId = accountId && e.authorization.inConversation identity

/-- A stored envelope of any account belongs to the conversation. -/
def conversationReferenced (identity : ConversationKey) : Bool :=
  s.sent.rows.any (fun (_, e) => e.authorization.inConversation identity) ||
    s.received.rows.any fun (_, e) => e.authorization.inConversation identity

/-- The condition of the `DELETE` on `conversation_memberships`. -/
def membershipPrunable (c : Conversations) (accountId : Uuid) (identity : ConversationKey)
    (m : Membership) (clock : Nat) : Bool :=
  (c.descriptors.find identity).any (Conversations.windowClosed · clock) &&
    (m.leftAt.isSome || decide (m.expiresAt < clock)) &&
    !c.receipts.rows.any (fun (k, r) =>
      decide (k.1 = accountId ∧ (k.2.1, r.conversationId) = identity)) &&
    !ambient.revivalBatches.contains (accountId, identity) &&
    !s.envelopeRetained accountId identity && !ambient.conversationBatches.contains accountId

/-- One owner's transaction of `pruneConversationState`; it deletes the receipts it selected. -/
def pruneOwner (owner : Owner) (selected : List (Uuid × Did × Uuid)) : Except Fault Store := do
  ambient.lockOwner owner
  let c := { s.conversations with
    receipts := s.conversations.receipts.deleteWhere fun key receipt =>
      decide (key ∈ selected ∧ key.1 = owner.accountId ∧ receipt.expiresAt < ambient.clock 0) }
  let memberships := c.memberships.deleteWhere fun key m =>
    key.1 = owner.accountId &&
      s.membershipPrunable ambient c owner.accountId key.2 m (ambient.clock 1)
  .ok { s with conversations := { c with memberships := memberships } }

local instance conversationKey_lawfulBEq : LawfulBEq ConversationKey := inferInstance

/-- The last statement of `pruneConversationState`, on the descriptors it selected. -/
def pruneDescriptors (selected : List ConversationKey) : Store :=
  let c := s.conversations
  let descriptors := c.descriptors.deleteWhere fun key d =>
    decide (key ∈ selected) && Conversations.windowClosed d (ambient.clock 0) &&
      !c.memberships.rows.any (fun (k, _) => k.2 = key) && !s.conversationReferenced key
  { s with conversations := { c with descriptors := descriptors } }

end Store

/-- The transactions on the message store. -/
inductive Operation (platform : Platform)
  | accept (input : EnvelopeDecision platform)
  | createSent (payload : HailEnvelope) (representation : Bytes) (accountId : Uuid)
  | createConversation (accountId : Uuid) (descriptor : VerifiedConversation)
  | claimDue (leaseToken : Uuid) (leaseSeconds : Nat) (locked : List MessageKey)
  | deliver (claim : DeliveryClaim) (bytes : Bytes) (attachments : List Bytes) (authorized : Bool)
  | fail (claim : DeliveryClaim) (reason : FailureReason)
  | cancel (claim : DeliveryClaim) (reason : CancellationReason)
  | hold (claim : DeliveryClaim) (reason : HoldReason) (retryAt : JsDate)
  | changeMembership (owner : Owner) (identity : ConversationKey) (action : MembershipAction)
  | reviveConversation (owner : Owner) (request : VerifiedRevival)
      (connection : ConnectionAuthorization)
  | pruneOwner (owner : Owner) (selected : List (Uuid × Did × Uuid))
  | pruneDescriptors (selected : List ConversationKey)

/-- A transaction with what it reads of the rest of the provider. -/
structure Event (platform : Platform) where
  ambient : Ambient
  operation : Operation platform

/-- The claim a worker comes back with. -/
def Operation.claim? {platform : Platform} : Operation platform → Option DeliveryClaim
  | .deliver claim _ _ _ => some claim
  | .fail claim _ => some claim
  | .cancel claim _ => some claim
  | .hold claim _ _ => some claim
  | _ => none

/-- The store, the claims handed out so far, the latest first, and the last clock reading. -/
structure System where
  store : Store
  issued : List DeliveryClaim
  time : Nat

def System.initial : System := ⟨∅, [], 0⟩

/-- No transaction reads the clock more often than this. -/
def lastReading : Nat := 6

variable {platform : Platform} (limits : EnvelopeAdmissionLimits)

/-- Run a transaction on the store; `claimDue` also hands out a claim. -/
def perform (s : Store) (e : Event platform) : Except Fault (Option DeliveryClaim × Store) :=
  let ambient := e.ambient
  match e.operation with
  | .accept input => (s.accept ambient limits input).map fun r => (none, r.2)
  | .createSent payload representation accountId =>
    (s.createSent platform ambient payload representation accountId).map (none, ·)
  | .createConversation accountId descriptor =>
    (s.conversations.admitConversation platform ambient ⟨accountId, descriptor.payload.fromDid⟩
      descriptor none (ambient.clock 0) (ambient.clock 1) (ambient.clock 2)).map
        fun r => (none, { s with conversations := r.2 })
  | .claimDue leaseToken leaseSeconds locked =>
    s.claimDue platform ambient leaseToken leaseSeconds locked
  | .deliver claim bytes attachments authorized =>
    (s.deliver platform ambient claim bytes attachments authorized).map fun r => (none, r.2)
  | .fail claim reason => (s.fail ambient claim reason).map (none, ·)
  | .cancel claim reason => (s.cancel ambient claim reason).map (none, ·)
  | .hold claim reason retryAt => (s.hold ambient claim reason retryAt).map (none, ·)
  | .changeMembership owner identity action =>
    (s.conversations.changeConversationMembership platform ambient owner identity action
      (ambient.clock 0) (ambient.clock 1)).map
        fun c => (none, { s with conversations := c })
  | .reviveConversation owner request connection =>
    (s.conversations.reviveConversation platform ambient owner request connection
      (ambient.clock 0) (ambient.clock 1) (ambient.clock 2)).map
        fun r => (none, { s with conversations := r.2 })
  | .pruneOwner owner selected => (s.pruneOwner ambient owner selected).map (none, ·)
  | .pruneDescriptors selected => .ok (none, s.pruneDescriptors ambient selected)

/-- The claim was handed out, and a new lease token was not used before. -/
def System.enabled (sys : System) (operation : Operation platform) : Bool :=
  operation.claim?.all (· ∈ sys.issued) &&
    match operation with
    | .claimDue leaseToken _ _ => sys.issued.all (·.leaseToken ≠ leaseToken)
    | _ => true

/-- One transaction of the run; one that raises leaves the store as it was. -/
def System.step (sys : System) (e : Event platform) : Option System :=
  if sys.enabled e.operation then
    match perform limits sys.store e with
    | .ok (claim, store) =>
      some ⟨store, claim.toList ++ sys.issued, e.ambient.clock lastReading⟩
    | .error _ => some ⟨sys.store, sys.issued, e.ambient.clock lastReading⟩
  else none

/-- The states a run of the provider reaches from empty tables. -/
def System.Reached (platform : Platform) (limits : EnvelopeAdmissionLimits) : System → Prop :=
  Reachable (fun sys (e : Event platform) => sys.step limits e) System.initial

end HailProto.Messages
