import HailProto.Core.Table
import HailProto.Core.Transition
import HailProto.Server.Basic

/-!
# Saved drafts

`drafts.ts`, with the operations of `message-trash.ts` that remove drafts and the part of the three
creation paths of `publications.ts` that consumes one. Every operation is a transaction that holds
the lock of the account; a read is a single statement. Devices compare a draft by its revision
number alone.
-/

namespace HailProto.Account

open Server

variable {κ : Type}

/-- A row of `account_message_drafts`, under its account and id; times are in milliseconds. -/
structure DraftRow (κ : Type) where
  revision : Nat
  content : κ
  updatedAt : Int
  trashedAt : Option Int
  deriving DecidableEq

/-- The two tables of sealed batches. -/
inductive BatchKind
  | category
  | connections
  deriving DecidableEq

/-- The tables of an account's drafts. A sealed batch is an item of `account_sent_items`; it is
kept with the digest of its request. -/
structure DraftStore (κ : Type) where
  drafts : Table (Uuid × Uuid) (DraftRow κ)
  trashEnabled : Table Uuid Bool
  batches : Table (BatchKind × Uuid × Uuid) Bytes

/-- What a transaction meets outside these tables. -/
structure Circumstances where
  /-- `clock_timestamp()`. -/
  now : Int
  /-- The account is active under the DID of the session. -/
  available : Bool
  /-- What the fence raises. -/
  refusal : Option Fault
  /-- An envelope that belongs to no batch was sent under the id. -/
  sentAlone : Bool

/-- `Draft`: what a device is given of a row. -/
structure Draft (κ : Type) where
  id : Uuid
  revision : Nat
  content : κ
  updatedAt : Int
  trashedAt : Option Int
  deriving DecidableEq

/-- `present`. -/
def present (id : Uuid) (row : DraftRow κ) : Draft κ :=
  ⟨id, row.revision, row.content, row.updatedAt, row.trashedAt⟩

/-- Thirty days, in milliseconds. -/
def thirtyDays : Int := 30 * 86400 * 1000

variable (w : Circumstances) (s : DraftStore κ) (account : Uuid)

/-- The id is in `account_sent_items`. -/
def isSent (id : Uuid) : Bool :=
  w.sentAlone || (s.batches.find (.category, account, id)).isSome ||
    (s.batches.find (.connections, account, id)).isSome

/-- A row that `read` selects. -/
def isShown (id : Option Uuid) (trash : Bool) (after : Option Uuid)
    (row : (Uuid × Uuid) × DraftRow κ) : Bool :=
  row.1.1 == account && (id.all fun id => row.1.2 == id) &&
    (after.all fun after => decide (row.1.2 < after)) &&
    (if trash then row.2.trashedAt.any fun at' => decide (w.now - thirtyDays < at')
      else row.2.trashedAt.isNone) &&
    !isSent w s account row.1.2

/-- `read`: the draft with the id, or a page of fifty in descending order. -/
def read (id : Option Uuid) (trash : Bool) (after : Option Uuid) : List (Draft κ) :=
  let rows := (s.drafts.rows.filter (isShown w s account id trash after)).insertionSort
    fun a b => b.1.2 ≤ a.1.2
  (rows.take (if id.isSome then 1 else 50)).map fun row => present row.1.2 row.2

/-- The lock of the account and its fence. -/
def lockAccount : Except Fault Unit :=
  if !w.available then .error (.error "Account unavailable")
  else match w.refusal with
    | some fault => .error fault
    | none => .ok ()

/-- `revision + 1` in a column of 32 bits. -/
def nextRevision (revision : Nat) : Except Fault Nat :=
  if 2147483647 < revision + 1 then .error ⟨some "22003", "integer out of range"⟩
  else .ok (revision + 1)

/-- `mutate` with `save`, after the input was parsed. -/
def save (id : Uuid) (revision : Nat) (content : κ) :
    Except Fault (DraftStore κ × Draft κ) := do
  lockAccount w
  if isSent w s account id then .error (.error "Draft already sent")
  else
    match s.drafts.find (account, id) with
    | none =>
      if 0 ≠ revision then .error (.error "Draft changed on another device")
      else
        let row := ⟨1, content, w.now, none⟩
        .ok ({ s with drafts := s.drafts.insert (account, id) row }, present id row)
    | some current =>
      if current.trashedAt.isSome ∨ current.revision ≠ revision then
        .error (.error "Draft changed on another device")
      else do
        let revision ← nextRevision current.revision
        let row := { current with revision := revision, content := content, updatedAt := w.now }
        .ok ({ s with drafts := s.drafts.insert (account, id) row }, present id row)

/-- `mutate` with `restore`. -/
def restore (id : Uuid) : Except Fault (DraftStore κ) := do
  lockAccount w
  if isSent w s account id then .error (.error "Draft already sent")
  else
    match s.drafts.find (account, id) with
    | none => .ok s
    | some current =>
      if current.trashedAt.any fun at' => decide (w.now - thirtyDays < at') then do
        let revision ← nextRevision current.revision
        let row := { current with trashedAt := none, revision := revision }
        .ok { s with drafts := s.drafts.insert (account, id) row }
      else .ok s

/-- `mutate` with `delete`. -/
def delete (id : Uuid) : Except Fault (DraftStore κ) := do
  lockAccount w
  if isSent w s account id then .error (.error "Draft already sent")
  else if s.trashEnabled.find account = some false then
    .ok { s with drafts := s.drafts.deleteWhere fun key _ => key = (account, id) }
  else
    match s.drafts.find (account, id) with
    | none => .ok s
    | some current =>
      if current.trashedAt.isSome then .ok s
      else do
        let revision ← nextRevision current.revision
        let row := { current with trashedAt := some w.now, revision := revision }
        .ok { s with drafts := s.drafts.insert (account, id) row }

/-- The deletion of the trashed drafts of an account that satisfy a condition. -/
def deleteTrashed (condition : Int → Bool) : DraftStore κ :=
  { s with drafts := s.drafts.deleteWhere fun key row =>
    key.1 = account ∧ row.trashedAt.any condition }

def saveSettings (enabled : Bool) : Except Fault (DraftStore κ) := do
  lockAccount w
  let s := { s with trashEnabled := s.trashEnabled.insert account enabled }
  .ok (if enabled then s else deleteTrashed s account fun _ => true)

/-- `empty`. -/
def emptyTrash : Except Fault (DraftStore κ) := do
  lockAccount w
  .ok (deleteTrashed s account fun _ => true)

/-- `purgeExpired`, for one account. -/
def purgeExpired : Except Fault (DraftStore κ) := do
  lockAccount w
  .ok (deleteTrashed s account fun at' => decide (at' ≤ w.now - thirtyDays))

def consumeDraft (passkey : Bool) (id : Uuid) (revision : Option Nat) :
    Except Fault (DraftStore κ) :=
  match s.drafts.find (account, id) with
  | none =>
    if revision.isSome then .error (.error "Draft changed; reload before sending") else .ok s
  | some current =>
    if !passkey ∨ current.trashedAt.isSome ∨ some current.revision ≠ revision then
      .error (.error "Draft changed; reload before sending")
    else .ok { s with drafts := s.drafts.deleteWhere fun key _ => key = (account, id) }

/-- What the creation of a batch does with drafts: a batch that exists is only compared with the
request, a new one consumes the draft under its id and is sealed. Whatever else may refuse the
batch is in the circumstances. -/
def createBatch (kind : BatchKind) (passkey : Bool) (id : Uuid) (requestDigest : Bytes)
    (draftRevision : Option Nat) : Except Fault (DraftStore κ) := do
  lockAccount w
  match s.batches.find (kind, account, id) with
  | some prior =>
    if prior ≠ requestDigest then .error (.error "Publication ID already has another intent")
    else .ok s
  | none => do
      let s ← consumeDraft s account passkey id draftRevision
      .ok { s with batches := s.batches.insert (kind, account, id) requestDigest }

end HailProto.Account
