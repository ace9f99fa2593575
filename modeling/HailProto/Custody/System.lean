import HailProto.Core.Transition
import HailProto.Grants.Lineage
import HailProto.Custody.Commit

/-!
# Custody transitions among other writes

A provider with its tables, its clock and the calls under way. Other writes run between the
statements of a call, so a call under way is a value that carries what it has read. A write of
another component goes through the account's guard; of those writes only the ones on the grant
tables change a table of this model.
-/

namespace HailProto.Custody

open Server Grants

/-- The body of a `prepareOwner` request. -/
structure OwnerRequest where
  accountId : Uuid
  newIdentityKey : String
  bindingCose : Bytes
  signedGrants : List (Uuid × Bytes)

/-- Where a call stands. -/
inductive Call
  /-- `prepare`, before it reads an open preparation. -/
  | prepareReading (accountId : Uuid)
  | prepareDrafting (accountId : Uuid)
  | prepareStoring (accountId : Uuid) (draft : PrepareDraft)
  /-- `prepareOwner`, before it reads an open preparation. -/
  | ownerReading (request : OwnerRequest)
  | ownerReviewing (request : OwnerRequest) (reviewedAt : Nat)
  | ownerGeneration (request : OwnerRequest) (reviewedAt : Nat) (authority : OwnerAuthority)
  | ownerGrants (request : OwnerRequest) (reviewedAt : Nat) (authority : OwnerAuthority)
      (generation : Nat)
  | ownerStoring (request : OwnerRequest) (draft : OwnerDraft)
  /-- `commit`, before it reads the transition. -/
  | commitReading (input : CommitInput)
  | commitRecording (input : CommitInput) (row : Transition)
  | commitSubmitting (input : CommitInput) (row : Transition)
  | commitMaterializing (input : CommitInput) (row : Transition)
  | commitPublishing (input : CommitInput)
  /-- A call of `prepare` or `prepareOwner` for the account has answered. -/
  | prepared (accountId : Uuid) (answer : CustodyTransitionPreparation)
  | committed (transitionId : Uuid)
  | failed (fault : Fault)

/-- A call that has just arrived. -/
def Call.isStart : Call → Bool
  | .prepareReading _ | .ownerReading _ | .commitReading _ => true
  | _ => false

section Steps

variable (platform : Platform) (serviceBase : String)

/-- The next step of a call, in a store and at a time. -/
def Call.next (s : Store) (external : External) (clock : Nat) :
    Call → Except Fault (Store × Call)
  | .prepareReading accountId => do
      raise external.domainAuthority
      match s.openTransition accountId with
      | some (id, prior) => .ok (s, .prepared accountId (preparation id prior.evidence))
      | none => .ok (s, .prepareDrafting accountId)
  | .prepareDrafting accountId => do
      let draft ← s.prepareDraft platform serviceBase external clock accountId
      .ok (s, .prepareStoring accountId draft)
  | .prepareStoring accountId draft => do
      let (s, answer) ← s.prepareTransaction platform external clock accountId draft
      .ok (s, .prepared accountId answer)
  | .ownerReading request => do
      raise external.domainAuthority
      match s.openTransition request.accountId with
      | some (id, prior) =>
        .ok (s, .prepared request.accountId (preparation id prior.evidence))
      | none =>
        let signed ← reviewedAt platform request.bindingCose clock
        .ok (s, .ownerReviewing request signed)
  | .ownerReviewing request signed => do
      let authority ← s.reviewAuthority platform serviceBase external request.accountId
        request.newIdentityKey
      .ok (s, .ownerGeneration request signed authority)
  | .ownerGeneration request signed authority => do
      let generation ← s.reviewGeneration request.accountId
      .ok (s, .ownerGrants request signed authority generation)
  | .ownerGrants request signed authority generation => do
      let review ← s.reviewGrants platform request.accountId authority generation signed
      let draft ← ownerDraft platform external clock request.newIdentityKey request.bindingCose
        request.signedGrants review
      .ok (s, .ownerStoring request draft)
  | .ownerStoring request draft => do
      let (s, answer) ← s.ownerTransaction platform external clock request.accountId draft
      .ok (s, .prepared request.accountId answer)
  | .commitReading input => do
      let row ← s.readCommit platform serviceBase clock input
      .ok (s, .commitRecording input row)
  | .commitRecording input row => do
      let s ← s.recordCommit platform external clock input
      .ok (s, .commitSubmitting input row)
  | .commitSubmitting input row => do
      confirmCommit platform serviceBase external input row
      .ok (s, .commitMaterializing input row)
  | .commitMaterializing input row => do
      let s ← s.materialize platform external clock input.transitionId row.evidence
      .ok (s, .commitPublishing input)
  | .commitPublishing input => do
      raise external.published
      .ok (s, .committed input.transitionId)
  | .prepared .. | .committed _ | .failed _ => .error (.error "The call has returned")

/-- A call that has answered or raised. -/
def Call.isDone : Call → Bool
  | .prepared .. | .committed _ | .failed _ => true
  | _ => false

/-- A write of the grant repository. -/
inductive GrantWrite
  | create (input : AuthoritativeGrantRevision1)
  /-- An update or a revocation. -/
  | update (input : AuthoritativeGrantUpdate)
  | receive (input : Grants.Store.ReceivedGrantRevision)
  | claim (locked : List (Uuid × Nat)) (leaseToken : Uuid) (leaseDurationMs : Nat)
  /-- The outcome of a publication, an acknowledgement among them. -/
  | finish (result : Grants.Store.ClaimedPublicationResult) (state : PublicationState)
      (nextAttemptAt : Option Nat) (etag : Option (List Char))

/-- What a grant write makes of the grant tables. -/
def GrantWrite.run (s : Grants.Store) (ambient : Grants.Ambient) (context : QueueContext) :
    GrantWrite → Except Fault Grants.Store
  | .create input => s.insertAuthoritativeRevision1 platform.toCodec ambient input
  | .update input => s.appendAuthoritativeUpdate platform.toCodec ambient input
  | .receive input => s.acceptReceivedRevision platform.toCodec ambient input
  | .claim locked leaseToken leaseDurationMs =>
    .ok (Grants.Store.claimDuePublication platform.toCodec s context locked leaseToken
      leaseDurationMs).1
  | .finish result state nextAttemptAt etag =>
    s.finishPublication context result state nextAttemptAt etag

/-- The provider: its tables, its clock in milliseconds and its calls. -/
structure System where
  store : Store
  clock : Nat
  calls : Table Uuid Call

inductive Event
  | tick (milliseconds : Nat)
  /-- A transaction of the grant repository. -/
  | grant (session : Session) (authority : Option AuthorityFault)
      (leaseFault : Uuid → Option Fault) (write : GrantWrite)
  /-- A guarded write of the account to a table that this model leaves out. -/
  | account (session : Session) (owner : Uuid)
  | call (id : Uuid) (call : Call)
  | advance (id : Uuid) (external : External)

/-- One event. -/
def System.step (p : System) : Event → Option System
  | .tick milliseconds => some { p with clock := p.clock + milliseconds }
  | .grant session authority leaseFault write =>
    if session.Ordinary then
      (write.run platform p.store.grants (p.store.ambient session authority (p.clock * 1000))
        (p.store.queueContext session leaseFault (p.clock * 1000))).toOption.map fun grants =>
          { p with store := { p.store with grants } }
    else none
  | .account session owner =>
    if session.Ordinary ∧ p.store.assertUnfencedAccount session owner = none then some p
    else none
  | .call id call =>
    if call.isStart ∧ p.calls.find id = none then
      some { p with calls := p.calls.insert id call }
    else none
  | .advance id external =>
    match p.calls.find id with
    | none => none
    | some call =>
      if call.isDone then none
      else
        match call.next platform serviceBase p.store external p.clock with
        | .error fault => some { p with calls := p.calls.insert id (.failed fault) }
        | .ok (store, next) => some { p with store, calls := p.calls.insert id next }

end Steps

/-- Before the first transition: nothing is journaled and no call is under way. The other tables
are arbitrary. -/
structure System.Initial (p : System) : Prop where
  transitions : p.store.transitions = ∅
  successors : p.store.successors = ∅
  calls : p.calls = ∅

/-! ### Sample data

Alice moves from managed custody to an identity key of her own. The representations are signed
with test keys, the digests are their SHA-256 values, and the identifiers of the two PLC
operations are those of their DAG-CBOR encodings. -/

namespace Sample

open Grants.Sample

def managedKey : String := "did:key:z6Mkk87uA4NSgeLJeKqm2JKByzv1AjQ2iqr9eczpt717J9iA"

def ownerKey : String := "did:key:z6MkpqB1Le5aDrBESgKaeye4UCd6kwh5JWH2MXXxUTuWKyWM"

def recoveryKey : String := "did:key:zDnaeUouWdWHkqZFSCNHDzJyMQqU8Ak5Snsc6wbcwLef3uCYY"

def previousCid : String := "bafyreia4nrdl4cwdolc6byamkw2fpewa2hritorwva2e32tdjvrgtcis7u"

def operationCid : String := "bafyreigyxzbx5qtcqtxatv3l653azpcuspi7tmx5dustbkkq3lfy2enegy"

def firstHash : String := "jyiIxWIP8QyeRK1EMe107P2NMkHIp-jmpc9yKuEU7ZM"

def providerBase : String := "https://alice.example/hail"

def transitionId : Uuid := "01954144-2222-4222-8222-00000000000a"

def ownerBinding : AddressBinding :=
  ⟨"alice@alice.example", alice, 1787851300, alice ++ "#hail-identity"⟩

/-- The payload of the signed successor. -/
def successor : HailGrant :=
  { Grants.Sample.second with
    scope := first.scope
    updatedAt := 1787851300
    issuedAt_le := by decide }

/-- The address binding that Alice signed with her own new identity key. -/
def ownerBindingCose : Bytes :=
  bindingBytes ownerBinding
    [0xe4a29b4b9a057c39ebc2575315d242aedbf86e97329778051919c0f0ecba2e2b,
     0x2fe1b014266db64071ac9fbd7b1fbf72f82830a856e27441351fcfca0188e202]

def ownerBindingDigest : Bytes :=
  beBytes 32 0xbfec71cb9ae7f23c17e838559506362fd3c817a6e8aa18bc35ad8fae5819cca0

/-- The successor of Alice's grant, signed with that key. -/
def successorCose : Bytes :=
  grantBytes successor ["receipts", "security-alerts"]
    [0x4499d57d7176216f6e57998e0b80b625c692b0f8f148e209c4bc227439c40bfd,
     0xe5085f3bcf5d80165fd10bcc112bbac8b10f004a2b7fb8a635bc044a43d5dc02]

def successorDigest : Bytes :=
  beBytes 32 0x05cba4b76ba04ed3b55d3ba8128fe8b1fb60bd850fd6de87a711dfc46b997eb9

/-- The PLC operation that installs the key, signed with the recovery key. -/
def operationBytes : Bytes := List.flatMap Cbor.asBytes
  ["\x7b\"type\":\"plc_operation\",",
   "\"prev\":\"bafyreia4nrdl4cwdolc6byamkw2fpewa2hritorwva2e32tdjvrgtcis7u\",",
   "\"rotationKeys\":[\"did:key:zDnaeUouWdWHkqZFSCNHDzJyMQqU8Ak5Snsc6wbcwLef3uCYY\",",
   "\"did:key:zDnaefK8NKhgJhkYqiP3pUszaFmY531Qo6SvDn33qd8TidwqT\"],",
   "\"verificationMethods\":\x7b",
   "\"hail-identity\":\"did:key:z6MkpqB1Le5aDrBESgKaeye4UCd6kwh5JWH2MXXxUTuWKyWM\",",
   "\"hail-messaging\":\"did:key:z6Mknvtzny16bz4AAAJ3M34X55zU6KbtkMUjqedMnPPPnehX\"\x7d,",
   "\"alsoKnownAs\":[\"hail://alice@alice.example\"],",
   "\"services\":\x7b\"hail\":\x7b\"type\":\"HailProvider\",",
   "\"endpoint\":\"https://alice.example/hail\"\x7d\x7d,",
   "\"sig\":",
   "\"1JXeT-mXz6LTylyiYOcid-AUOom3_lx-snJR0zjC_uwurZLXYe1BKFudfkyjUslpHNzrld9WQyJ64ME8rAz6bA\"\x7d"]

/-- A history checkpoint over Alice's grant, with successors. -/
def checkpointBytes (successors : List Cbor.Value) : Bytes :=
  recordBytes
    [("did", .text alice), ("type", .text "racr.custody-history-checkpoint"), ("version", .int 1),
     ("bindings", .array []),
     ("revisions", .array [.map [(.text "etag", .text ("\"" ++ firstHash ++ "\"")),
       (.text "digest", .text firstHash), (.text "signer", .text managedKey),
       (.text "grant_id", .text grantId), (.text "revision", .int 1),
       (.text "cose_sha256", .text firstHash), (.text "publication", .text "acknowledged"),
       (.text "current_status", .text "active"), (.text "current_revision", .int 1)]]),
     ("successors", .array successors),
     ("connections", .map
       [(.text "sha256", .bytes (beBytes 32
         0x1e5fac867454a4fec29be85eea63d308abd770e42b169632817b0643b508877d)),
        (.text "share_policy", .text "invalidate-at-cutover"),
        (.text "conversation_sha256", .bytes (beBytes 32
         0x5c0dc939187d4ae4bdb6abd314825f9f524c45c140b6e929ab93708e94b4f25f))])]

/-- A history checkpoint over the grant, without a successor. -/
def missedCheckpoint : Bytes := checkpointBytes []

def missedCheckpointDigest : Bytes :=
  beBytes 32 0x5eebe63ee071875582f04bc44ceb0b17819f5f090a8bdde8d72ba48ea7c98514

/-- The history checkpoint over the grant and its successor. -/
def fullCheckpoint : Bytes := checkpointBytes
  [.map [(.text "digest", .text "Bcukt2ugTtO1XTuoEo_osftgvYUP1t6HpxHfxGuZfrk"),
    (.text "grant_id", .text grantId), (.text "previous", .text firstHash),
    (.text "revision", .int 2)]]

def fullCheckpointDigest : Bytes :=
  beBytes 32 0x5f462f161fe68e9d9753d1e845fd9c387c31a644ed6b3a2db2c6029ea7a2b646

/-- The owner's approval of a checkpoint. -/
def approvalBytes (historyCheckpoint : Bytes) : Bytes :=
  recordBytes
    [("did", .text alice), ("type", .text "racr.custody-transition"),
     ("nonce", .text "01954144-3333-4333-8333-00000000000a"), ("version", .int 1),
     ("direction", .text "managed-to-owner"), ("issued_at", .int 1787851300),
     ("expires_at", .int 1787853100), ("generation_to", .int 2),
     ("operation_cid", .text operationCid), ("transition_id", .text transitionId),
     ("binding_sha256", .bytes ownerBindingDigest), ("generation_from", .int 1),
     ("new_identity_key", .text ownerKey), ("old_identity_key", .text managedKey),
     ("owner_recovery_key", .text recoveryKey), ("provider_service_base", .text providerBase),
     ("previous_operation_cid", .text previousCid),
     ("history_checkpoint_sha256", .bytes historyCheckpoint)]

/-- The owner's approval that names the first checkpoint. -/
def missedApproval : Bytes := approvalBytes missedCheckpointDigest

def missedApprovalSignature : Bytes := words
  [0x8aea012f67512322995dc10e8a27b73ea0cc2fbd8c72bdb95a948e80ff461882,
   0x630764fc850b26abc20ae59345f3741b5d4394c60d898ed842d52762ea272c21]

/-- The owner's approval that names the second checkpoint. -/
def fullApproval : Bytes := approvalBytes fullCheckpointDigest

def fullApprovalSignature : Bytes := words
  [0x53f70dea4dea6cfe37f8afc7c4b4ae59d19b978cbb74be475e78649d12582375,
   0x49524ddbbad2d1e5fad1dfa81fa113e11ffdecc8ba13767a7042645e115212d5]

/-- The PLC state with an identity key. -/
def plcState (identityKey : String) : PlcState where
  rotationKeys := [recoveryKey, "did:key:zDnaefK8NKhgJhkYqiP3pUszaFmY531Qo6SvDn33qd8TidwqT"]
  identityKey := identityKey
  messagingKey := "did:key:z6Mknvtzny16bz4AAAJ3M34X55zU6KbtkMUjqedMnPPPnehX"
  otherMethods := []
  alsoKnownAs := ["hail://alice@alice.example"]
  services := [("hail", providerBase)]

/-- The owner's approval of a history checkpoint. -/
def approval (historyCheckpoint : Bytes) : Approval where
  kind := "racr.custody-transition"
  version := 1
  transitionId := transitionId
  did := alice
  direction := .managedToOwner
  providerServiceBase := providerBase
  ownerRecoveryKey := recoveryKey
  oldIdentityKey := managedKey
  newIdentityKey := ownerKey
  previousOperationCid := previousCid
  operationCid := operationCid
  historyCheckpoint := historyCheckpoint
  binding := ownerBindingDigest
  generationFrom := 1
  generationTo := 2
  nonce := "01954144-3333-4333-8333-00000000000a"
  issuedAt := 1787851300
  expiresAt := 1787853100

/-- The grant codec on the representations above. -/
def codec : Grants.Codec where
  inspectGrant bytes :=
    if bytes = successorCose then some successor else sampleCodec.inspectGrant bytes
  inspectBinding bytes :=
    if bytes = ownerBindingCose then some ownerBinding else sampleCodec.inspectBinding bytes
  inspectProfile := sampleCodec.inspectProfile
  sha256 bytes :=
    if bytes = successorCose then successorDigest
    else if bytes = ownerBindingCose then ownerBindingDigest
    else if bytes = missedCheckpoint then missedCheckpointDigest
    else if bytes = fullCheckpoint then fullCheckpointDigest
    else sampleCodec.sha256 bytes
  sha256_length bytes := by
    have hsuccessor : successorDigest.length = 32 := by decide +kernel
    have hbinding : ownerBindingDigest.length = 32 := by decide +kernel
    have hmissed : missedCheckpointDigest.length = 32 := by decide +kernel
    have hfull : fullCheckpointDigest.length = 32 := by decide +kernel
    split_ifs <;> simp [hsuccessor, hbinding, hmissed, hfull, sampleCodec.sha256_length]

/-- The signatures and the PLC library on the representations above; the provider itself signs
nothing on the way to the owner's custody. -/
def platform : Platform where
  toCodec := codec
  signGrant _ _ _ := none
  signBinding _ _ _ := none
  verifyGrant kid key bytes :=
    if kid = identityKid alice ∧ key = ownerKey ∧ bytes = successorCose then some successor
    else none
  verifyBinding kid key bytes :=
    if kid = identityKid alice ∧ key = ownerKey ∧ bytes = ownerBindingCose then some ownerBinding
    else none
  ed25519Key key := key = ownerKey ∨ key = managedKey
  encodeCheckpoint checkpoint :=
    if checkpoint.successors.isEmpty then missedCheckpoint else fullCheckpoint
  parseOperation bytes :=
    if bytes = operationBytes then some ⟨"plc_operation", some previousCid, plcState ownerKey⟩
    else none
  operationCid bytes := if bytes = operationBytes then operationCid else ""
  validSignature key bytes := key = recoveryKey ∧ bytes = operationBytes
  decodeApproval bytes :=
    if bytes = missedApproval then some (approval missedCheckpointDigest)
    else if bytes = fullApproval then some (approval fullCheckpointDigest)
    else none
  verifyApproval key bytes signature := key = recoveryKey ∧
    ((bytes = missedApproval ∧ signature = missedApprovalSignature) ∨
      (bytes = fullApproval ∧ signature = fullApprovalSignature))
  verify_sign h := by cases h
  inspect_verify h := by
    split at h
    · rename_i hcond
      cases h
      exact if_pos hcond.2.2
    · cases h

/-- What a step meets while the directory shows the given state. -/
def external (identityKey cid : String) : External where
  domainAuthority := none
  connections := none
  connectionDigest := []
  migrationFenced _ := false
  resolution := some ⟨providerBase, some cid, identityKey, (plcState identityKey).messagingKey,
    ⟨alice, plcState identityKey⟩, cid, true⟩
  generated := ⟨"", ⟨[], [], 1, ""⟩⟩
  freshId := transitionId
  submission := none
  evidence := none
  published := none

/-- Before the transition, and after its operation was submitted. -/
def before : External := external managedKey previousCid

def after : External := external ownerKey operationCid

/-- A writer of the first serving generation. -/
def session : Session := ⟨fun _ => none, none, fun _ => false⟩

/-- Alice's managed account, with given grants. -/
def start (grants : Grants.Store) : System where
  store :=
    { accounts := (∅ : Table Uuid Account).insert aliceAccount
        ⟨some alice, "alice@alice.example", true, true, none⟩
      generations := (∅ : Table Uuid Nat).insert aliceAccount 1
      portable := ∅
      managed := (∅ : Table Uuid ManagedCustody).insert aliceAccount
        ⟨recoveryKey, managedKey, "strict-public-v1"⟩
      onboarding := (∅ : Table Uuid MonitorEvidence).insert aliceAccount
        ⟨"https://monitor.example", "did:key:monitor", 1787000000000⟩
      keys := (∅ : Table (Uuid × KeyRole) AccountKey).insert (aliceAccount, .hailIdentity)
        ⟨managedKey, ⟨[], [], 1, "kek"⟩⟩
      bindings := ∅
      transitions := ∅
      successors := ∅
      grants := grants }
  clock := 1787851300000
  calls := ∅

/-- Alice's grant, under the managed key. -/
def grantInput : AuthoritativeGrantRevision1 :=
  { firstInput with revision := { firstInput.revision with signingPublicKey := managedKey } }

/-- The grant tables with Alice's grant, published and acknowledged. -/
def granted : Grants.Store where
  lineages := (∅ : Table Uuid Lineage).insert grantId
    ⟨aliceAccount, .grantor, alice, store, 1, firstDigest, .active⟩
  revisions := (∅ : Table (Uuid × Nat) Revision).insert (grantId, 1)
    (Grants.Store.revisionRow grantInput.revision)
  consent := ∅
  publications := (∅ : Table (Uuid × Nat) Publication).insert (grantId, 1)
    ⟨"https://store.example.com/hail", .acknowledged, 1, 1787851200000000, none, some 204, none,
      some (etag firstDigest), 1787851200000000⟩
  collocated := ∅

def prepareCall : Uuid := "01954144-4444-4444-8444-00000000000a"

def commitCall : Uuid := "01954144-4444-4444-8444-00000000000b"

/-- Alice's call of `prepareOwner`, up to its transaction. -/
def review (signedGrants : List (Uuid × Bytes)) : List Event :=
  .call prepareCall (.ownerReading ⟨aliceAccount, ownerKey, ownerBindingCose, signedGrants⟩) ::
    List.replicate 4 (.advance prepareCall before)

/-- Her call of `commit`, up to its materialization. -/
def commit (approvalBytes signature : Bytes) : List Event :=
  [.call commitCall (.commitReading ⟨aliceAccount, transitionId, operationBytes, approvalBytes,
      signature⟩),
    .advance commitCall before, .advance commitCall before, .advance commitCall after]

/-- A grant that is made, published and acknowledged. -/
def grantMade : List Event :=
  [.grant session none (fun _ => none) (.create grantInput),
    .grant session none (fun _ => none) (.claim [] prepareCall 60000000),
    .grant session none (fun _ => none) (.finish ⟨grantId, 1, prepareCall, some 204, none⟩
      .acknowledged none (some (etag firstDigest)))]

end Sample

end HailProto.Custody
