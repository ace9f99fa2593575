import HailProto.Messages.Ambient

/-!
# Conversation memberships

The tables of `0093_conversation_memberships.sql` and the operations of
`conversation-memberships.ts` on them. A membership is a stored flag and an expiry, and its
state is derived from both at the clock of the query. `pruneConversationState` is a transaction
for each owner it selects and a last statement on the descriptors.
-/

namespace HailProto.Messages

open Server

/-- `ConversationIdentity`: the creator and the creator's identifier. -/
abbrev ConversationKey := Did × Uuid

/-- A `hail.conversation` payload that passed `validateConversation`. -/
structure HailConversation where
  fromDid : Did
  conversationId : Uuid
  participants : List Did
  createdAt : Nat
  admissionUntil : Nat
  window_pos : createdAt < admissionUntil
  window_le : admissionUntil - createdAt ≤ 604800

def HailConversation.key (d : HailConversation) : ConversationKey := (d.fromDid, d.conversationId)

/-- `VerifiedHailObject<HailConversation>`, with the key that verified it. -/
structure VerifiedConversation where
  payload : HailConversation
  representation : Bytes
  signingKey : String

/-- A `hail.conversation-revival` payload. -/
structure HailConversationRevival where
  conversationId : Uuid
  descriptorHash : Bytes
  fromDid : Did
  toDid : Did
  requestId : Uuid
  issuedAt : Nat
  expiresAt : Nat

/-- `VerifiedHailObject<HailConversationRevival>`: the caller verified the signature of the
payload's `from`. -/
structure VerifiedRevival where
  payload : HailConversationRevival
  representation : Bytes

/-- The exact connection a request was made over. -/
structure ConnectionAuthorization where
  connectionId : Uuid
  epoch : Nat

/-- A row of `conversation_descriptors`. -/
structure DescriptorRow where
  descriptorHash : Bytes
  descriptorCose : Bytes
  participants : List Did
  createdAt : Nat
  admissionUntil : Nat
  signingKey : String

/-- A row of `conversation_memberships`; `left_at` is set exactly in the state `left`. -/
structure Membership where
  leftAt : Option Nat
  expiresAt : Nat
  lastActivityAt : Option Nat
  deriving DecidableEq

inductive MembershipState
  | active
  | expired
  | left
  deriving DecidableEq

/-- What `conversationState` reports of a membership at a clock reading. -/
def Membership.stateAt (m : Membership) (clock : Nat) : MembershipState :=
  if m.leftAt.isSome then .left else if m.expiresAt ≤ clock then .expired else .active

inductive RevivalOutcome
  | renewed
  | active
  | left
  | denied
  deriving DecidableEq

/-- A row of `conversation_revival_receipts`. -/
structure RevivalReceipt where
  conversationId : Uuid
  requestHash : Bytes
  expiresAt : Nat
  outcome : RevivalOutcome

/-- The conversation tables. -/
structure Conversations where
  descriptors : Table ConversationKey DescriptorRow
  memberships : Table (Uuid × ConversationKey) Membership
  receipts : Table (Uuid × Did × Uuid) RevivalReceipt

instance : EmptyCollection Conversations := ⟨⟨∅, ∅, ∅⟩⟩

inductive MembershipAction
  | opened
  | leave
  | rejoin
  | revive
  deriving DecidableEq

namespace Conversations

variable (platform : Platform) (ambient : Ambient)

/-- `conversationState`, as far as its callers decide on it. -/
def conversationState (c : Conversations) (owner : Owner) (identity : ConversationKey)
    (clock : Nat) : Option MembershipState :=
  match c.memberships.find (owner.accountId, identity), c.descriptors.find identity with
  | some m, some _ => some (m.stateAt clock)
  | _, _ => none

/-- A message between the two is allowed by the owner's membership at the clock reading. -/
def conversationMessageAllowed (c : Conversations) (ownerDid senderDid : Did)
    (identity : ConversationKey) (descriptorHash : Bytes) (lock : Bool) (clock : Nat) :
    Except Fault Bool :=
  match ambient.accountByDid ownerDid with
  | none => .ok false
  | some (ownerId, account) =>
    if !account.serving ∨ account.closed ∨ ownerDid = senderDid then .ok false
    else do
      checkWhen lock (ambient.lockOwner ⟨ownerId, ownerDid⟩)
      match c.memberships.find (ownerId, identity), c.descriptors.find identity with
      | some m, some d =>
        .ok (decide (d.descriptorHash = descriptorHash ∧ senderDid ∈ d.participants ∧
          ownerDid ∈ d.participants ∧ m.leftAt = none ∧ clock < m.expiresAt) &&
            !ambient.isFenced ownerId)
      | _, _ => .ok false

/-- The window in which a descriptor may introduce its conversation; the clock is a `Date`. -/
def admissionOpen (d : HailConversation) (clock : Nat) : Bool :=
  !(decide ((clock / 1000 : Nat) + 300 * 1000 < d.createdAt * 1000) ||
    decide ((d.admissionUntil + 300) * 1000 < clock / 1000))

/-- A non-creator is introduced over a permitted connection whose policy allows it. -/
def introductionPermitted (owner : Owner) (d : HailConversation)
    (connection : Option ConnectionAuthorization) : Except Fault Bool :=
  if owner.did = d.fromDid then .ok true
  else
    match connection with
    | none => .ok false
    | some connection => do
        let allowed ← ambient.connectionMessageAllowed owner.did d.fromDid
          connection.connectionId connection.epoch true false
        .ok (allowed && ambient.conversationIntroductionAllowed owner.accountId
          connection.connectionId connection.epoch)

/-- The row a membership starts with. -/
def newMembership (clock : Nat) : Membership := ⟨none, platform.after24Months clock, none⟩

/-- The row that keeps a descriptor. -/
def descriptorRow (descriptor : VerifiedConversation) : DescriptorRow :=
  let d := descriptor.payload
  ⟨platform.sha256 descriptor.representation, descriptor.representation, d.participants,
    d.createdAt, d.admissionUntil, descriptor.signingKey⟩

/-- Admit the owner to a conversation. The clock is read for the window, for the membership's
default expiry and for the answer. -/
def admitConversation (c : Conversations) (owner : Owner) (descriptor : VerifiedConversation)
    (connection : Option ConnectionAuthorization) (window inserted answer : Nat) :
    Except Fault (Bool × Conversations) := do
  let d := descriptor.payload
  if owner.did ∉ d.participants then .ok (false, c)
  else
    let permitted ← introductionPermitted ambient owner d connection
    if !permitted then .ok (false, c)
    else
      ambient.lockOwner owner
      let digest := platform.sha256 descriptor.representation
      if (c.descriptors.find d.key).any (·.descriptorHash ≠ digest) then
        .error (.error "Conversation descriptor conflicts with its original roster.")
      else if !admissionOpen d window then .ok (false, c)
      else
        let descriptors := c.descriptors.insertNew d.key (descriptorRow platform descriptor)
        let memberships := c.memberships.insertNew (owner.accountId, d.key)
          (newMembership platform inserted)
        let c := { c with
          descriptors := descriptors
          memberships := memberships }
        .ok (c.conversationState owner d.key answer = some .active, c)

/-- The update of `open`, `rejoin` and `revive`; an opening is coalesced within an hour. -/
def renewMembership (m : Membership) (action : MembershipAction) (clock : Nat) : Membership :=
  if action = .rejoin ∨ action = .revive ∨
      m.lastActivityAt.all fun last => decide (last + 3600 * second < clock) then
    ⟨none, platform.after24Months clock, some clock⟩
  else m

/-- The owner changes its own membership. The clock is read for the state and for the update. -/
def changeConversationMembership (c : Conversations) (owner : Owner) (identity : ConversationKey)
    (action : MembershipAction) (read written : Nat) : Except Fault Conversations := do
  ambient.lockOwner owner
  match c.conversationState owner identity read with
  | none => .error (.error "Conversation unavailable.")
  | some current =>
    if action = .rejoin ∧ current ≠ .left then
      .error (.error ("Only a conversation you left can be rejoined. " ++
        "Expired participation requires creator revival."))
    else if action = .revive ∧ (owner.did ≠ identity.1 ∨ current ≠ .expired) then
      .error (.error "Only the creator can revive expired participation.")
    else if action = .leave then
      .ok { c with
        memberships := c.memberships.update (owner.accountId, identity) fun m =>
          ⟨some (m.leftAt.getD written), m.expiresAt, m.lastActivityAt⟩ }
    else if action = .rejoin ∨ action = .revive ∨ current = .active then
      .ok { c with
        memberships := c.memberships.update (owner.accountId, identity) fun m =>
          renewMembership platform m action written }
    else .ok c

/-- `validateConversationRevivalBinding` against the stored descriptor. -/
def revivalBound (d : DescriptorRow) (r : HailConversationRevival) : Bool :=
  decide (r.toDid ∈ d.participants ∧ d.createdAt ≤ r.issuedAt ∧
    r.descriptorHash = platform.sha256 d.descriptorCose)

/-- The outcome table of a revival request. -/
def revivalOutcome (state : MembershipState) (permitted : Bool) : RevivalOutcome :=
  match state with
  | .left => .left
  | .active => .active
  | .expired => if permitted then .renewed else .denied

/-- Apply a creator's request to renew an expired participation. The clock is read for the
request's window, for the state and for the update. -/
def reviveConversation (c : Conversations) (owner : Owner) (request : VerifiedRevival)
    (connection : ConnectionAuthorization) (window read written : Nat) :
    Except Fault (RevivalOutcome × Conversations) := do
  let r := request.payload
  let identity : ConversationKey := (r.fromDid, r.conversationId)
  if r.toDid ≠ owner.did then .error (.error "403")
  else
    let connected ← ambient.connectionMessageAllowed owner.did r.fromDid connection.connectionId
      connection.epoch true false
    ambient.lockOwner owner
    match c.memberships.find (owner.accountId, identity), c.descriptors.find identity with
    | some m, some d =>
      if !revivalBound platform d r then
        .error (.error
          "revival must bind the original creator, roster and exact signed descriptor")
      else
        let digest := platform.sha256 request.representation
        match c.receipts.find (owner.accountId, r.fromDid, r.requestId) with
        | some prior =>
          if prior.requestHash ≠ digest then .error (.error "Revival request ID conflict.")
          else .ok (prior.outcome, c)
        | none =>
          if (window / 1000 : Nat) + 300 * 1000 < r.issuedAt * 1000 ∨
              (r.expiresAt + 300) * 1000 < window / 1000 then
            .error (.error "Revival request expired or is not yet valid.")
          else
            let permitted := connected && ambient.conversationIntroductionAllowed
              owner.accountId connection.connectionId connection.epoch
            let outcome := revivalOutcome (m.stateAt read) permitted
            let memberships := if outcome = .renewed then
                c.memberships.insert (owner.accountId, identity)
                  ⟨m.leftAt, platform.after24Months written, none⟩
              else c.memberships
            let receipt : RevivalReceipt :=
              ⟨r.conversationId, digest, (r.expiresAt + 300) * second, outcome⟩
            .ok (outcome, { c with
              memberships := memberships
              receipts := c.receipts.insert (owner.accountId, r.fromDid, r.requestId)
                receipt })
    | _, _ => .error (.error "Unknown conversation cannot be revived.")

/-- `d.admission_until < clock_timestamp() - interval '5 minutes'`. -/
def windowClosed (d : DescriptorRow) (clock : Nat) : Bool :=
  decide ((d.admissionUntil + 300) * second < clock)

end Conversations

end HailProto.Messages
