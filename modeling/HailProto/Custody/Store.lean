import HailProto.Grants.Publisher

/-!
# The tables of a custody transition

The journal of `0045_same_provider_custody_transition.sql` beside the tables its transactions
read and write: accounts, serving generations, the two custody records, account keys, address
bindings and the grant tables. An open preparation fences its account: every trigger that
guards a write of the account goes through `hail_assert_unfenced_account`.
-/

namespace HailProto.Custody

open Server Grants

inductive Direction
  | ownerToManaged
  | managedToOwner
  deriving DecidableEq, Repr

/-- The state a PLC operation sets; verification methods beside Hail's two are kept apart. -/
structure PlcState where
  rotationKeys : List String
  identityKey : String
  messagingKey : String
  otherMethods : List (String × String)
  alsoKnownAs : List String
  services : List (String × String)
  deriving DecidableEq

/-- `DocumentData` of the PLC library. -/
structure DocumentData where
  did : Did
  state : PlcState
  deriving DecidableEq

/-- The same document under another `hail-identity` key. -/
def DocumentData.withIdentity (data : DocumentData) (key : String) : DocumentData :=
  { data with state := { data.state with identityKey := key } }

/-- `UnsignedOperation`. -/
structure UnsignedOperation where
  kind : String
  prev : String
  state : PlcState
  deriving DecidableEq

/-- The encrypted identity key of a managed account. -/
structure KeyMaterial where
  ciphertext : Bytes
  nonce : Bytes
  encryptionVersion : Nat
  kekId : String
  deriving DecidableEq

/-- A row of `portable_custody_evidence`. -/
structure PortableCustody where
  userRecoveryKey : String
  userIdentityKey : String
  monitorOrigin : String
  monitorPublicKey : Option String
  monitorConfirmedAt : Nat
  backupConfirmedAt : Nat
  deriving DecidableEq

/-- A row of `managed_custody_evidence`. -/
structure ManagedCustody where
  ownerRecoveryKey : String
  providerIdentityKey : String
  verificationMode : String
  deriving DecidableEq

/-- The monitor columns of `public_onboarding_evidence`. -/
structure MonitorEvidence where
  origin : String
  publicKey : String
  activatedAt : Nat
  deriving DecidableEq

inductive KeyRole
  | plcRotation
  | hailIdentity
  | hailMessaging
  deriving DecidableEq, Repr

/-- A row of `account_keys`. -/
structure AccountKey where
  publicKey : String
  material : KeyMaterial
  deriving DecidableEq

/-- A row of `address_bindings`. -/
structure BindingRow where
  accountId : Uuid
  canonicalAddress : String
  did : Did
  cose : Bytes
  digest : Bytes
  issuedAt : Nat
  selectedAt : Option Nat
  publishedAt : Option Nat
  createdAt : Nat
  deriving DecidableEq

/-- A row of `provider_accounts`. -/
structure Account where
  did : Option Did
  canonicalAddress : String
  active : Bool
  publicMode : Bool
  activationBindingDigest : Option Bytes
  deriving DecidableEq

/-- The columns of `custody_transition_preparations` that no update may change. -/
structure TransitionEvidence where
  accountId : Uuid
  did : Did
  direction : Direction
  ownerRecoveryKey : String
  oldIdentityKey : String
  newIdentityKey : String
  previousOperationCid : String
  expectedState : DocumentData
  historyCheckpointDigest : Bytes
  bindingCose : Bytes
  bindingDigest : Bytes
  /-- The encrypted private key; present exactly on the way to managed custody. -/
  identity : Option KeyMaterial
  generationFrom : Nat
  generationTo : Nat
  createdAt : Nat
  expiresAt : Nat
  deriving DecidableEq

/-- The owner-approved operation, journaled as a whole. -/
structure SignedOperation where
  operationBytes : Bytes
  operationCid : String
  approvalPayload : Bytes
  approvalSignature : Bytes
  deriving DecidableEq

/-- `retired_custody_evidence`. -/
inductive RetiredCustody
  | portable (row : PortableCustody)
  | managed (row : ManagedCustody)
  deriving DecidableEq

/-- The state column together with the columns that are present in it. -/
inductive TransitionState
  | prepared
  | submissionUnknown (signed : SignedOperation)
  | complete (signed : SignedOperation) (retired : RetiredCustody) (completedAt : Nat)
  deriving DecidableEq

/-- `state <> 'complete'`. -/
def TransitionState.isOpen : TransitionState → Bool
  | .complete .. => false
  | _ => true

/-- The journaled operation. -/
def TransitionState.signed : TransitionState → Option SignedOperation
  | .prepared => none
  | .submissionUnknown signed => some signed
  | .complete signed _ _ => some signed

/-- A row of `custody_transition_preparations`. -/
structure Transition where
  evidence : TransitionEvidence
  state : TransitionState
  deriving DecidableEq

/-- A row of `custody_transition_grant_successors`. -/
structure Successor where
  predecessorRevision : Nat
  predecessorDigest : Bytes
  successorRevision : Nat
  successorCose : Bytes
  successorDigest : Bytes
  destinationServiceBase : String
  deriving DecidableEq

/-- The tables of one provider that custody transitions read or write. -/
structure Store where
  accounts : Table Uuid Account
  generations : Table Uuid Nat
  portable : Table Uuid PortableCustody
  managed : Table Uuid ManagedCustody
  onboarding : Table Uuid MonitorEvidence
  keys : Table (Uuid × KeyRole) AccountKey
  bindings : Table Uuid BindingRow
  transitions : Table Uuid Transition
  /-- Successor rows, keyed by transition and grant. -/
  successors : Table (Uuid × Uuid) Successor
  grants : Grants.Store

/-- The transaction-local settings and the tables of other components that
`hail_assert_unfenced_account` reads. -/
structure Session where
  /-- `hail.admitted_generations`. -/
  admitted : Uuid → Option Nat
  /-- `hail.custody_transition`. -/
  custodyTransition : Option Uuid
  /-- `provider_migration_fences`. -/
  migrationFenced : Did → Bool

/-- The session of any writer but the custody transition itself. -/
def Session.Ordinary (session : Session) : Prop := session.custodyTransition = none

instance (session : Session) : Decidable session.Ordinary :=
  inferInstanceAs (Decidable (session.custodyTransition = none))

namespace Store

variable (s : Store)

/-- The account's open preparation; `custody_transition_one_open_account` allows one. -/
def openTransition (accountId : Uuid) : Option (Uuid × Transition) :=
  s.transitions.rows.find? fun (_, row) =>
    decide (row.evidence.accountId = accountId) && row.state.isOpen

/-- The last check of `hail_assert_unfenced_account`: the account is in custody transition and
the writer is not the transition's own. -/
def custodyFenced (session : Session) (owner : Uuid) : Bool :=
  decide (session.custodyTransition ≠ some owner) && (s.openTransition owner).isSome

/-- `hail_assert_unfenced_account`. -/
def assertUnfencedAccount (session : Session) (owner : Uuid) : Option FenceFault :=
  match (s.accounts.find owner).bind Account.did with
  | none => none
  | some ownerDid =>
    let serving := s.generations.find owner
    let expected := session.admitted owner
    if (expected.isSome ∧ expected ≠ serving) ∨ (serving.any (1 < ·) ∧ expected = none) then
      some .staleGeneration
    else if session.migrationFenced ownerDid then some .fenced
    else if s.custodyFenced session owner then some .custodyTransition
    else none

/-- A fenced account refuses every write that goes through the check. -/
theorem assertUnfencedAccount_ne_none {session : Session} {owner : Uuid} {account : Account}
    {did : Did} (haccount : s.accounts.find owner = some account) (hdid : account.did = some did)
    (h : s.custodyFenced session owner = true) : s.assertUnfencedAccount session owner ≠ none := by
  simp only [assertUnfencedAccount, haccount, Option.bind_some, hdid, h, if_true]
  split
  · exact Option.some_ne_none _
  · split
    · exact Option.some_ne_none _
    · exact Option.some_ne_none _

theorem openTransition_eq_some {accountId id : Uuid} {row : Transition}
    (h : s.openTransition accountId = some (id, row)) :
    s.transitions.find id = some row ∧ row.evidence.accountId = accountId ∧
      row.state.isOpen = true := by
  have hmem := List.mem_of_find?_eq_some h
  have hcond := List.find?_some h
  simp only [Bool.and_eq_true, decide_eq_true_eq] at hcond
  exact ⟨Table.mem_rows.1 hmem, hcond⟩

theorem openTransition_isSome {id : Uuid} {row : Transition}
    (h : s.transitions.find id = some row) (hopen : row.state.isOpen = true) :
    (s.openTransition row.evidence.accountId).isSome = true := by
  rw [openTransition, List.find?_isSome]
  exact ⟨(id, row), Table.mem_rows.2 h, by simp [hopen]⟩

theorem openTransition_eq_none {accountId : Uuid} :
    s.openTransition accountId = none ↔ ∀ id row, s.transitions.find id = some row →
      row.evidence.accountId = accountId → row.state.isOpen = false := by
  simp only [openTransition, List.find?_eq_none, Bool.and_eq_true, decide_eq_true_eq, not_and,
    Bool.not_eq_true, Prod.forall]
  exact forall₂_congr fun id row => by rw [Table.mem_rows]

/-- What a grant transaction of a session reads beside the grant tables. -/
def ambient (session : Session) (authority : Option AuthorityFault) (now : Nat) :
    Grants.Ambient :=
  ⟨fun id => (s.accounts.find id).map fun account => ⟨account.did, account.active⟩,
    s.assertUnfencedAccount session, authority, now⟩

/-- What a statement on `grant_publications` reads beside the grant tables: the account's fence
comes first, then what its worker-lease trigger raises. -/
def queueContext (session : Session) (leaseFault : Uuid → Option Fault) (now : Nat) :
    Grants.QueueContext :=
  ⟨fun id => ((s.accounts.find id).bind Account.did).any session.migrationFenced,
    fun id => ((s.assertUnfencedAccount session id).map FenceFault.fault).or (leaseFault id), now⟩

end Store

end HailProto.Custody
