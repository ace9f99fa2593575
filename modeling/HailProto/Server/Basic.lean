import HailProto.Core.Outcome

/-!
# Values shared by the server's repositories

Identifiers are the texts the protocol and the database use. A failure is what the driver
raises: a message and, for a database error, its SQLSTATE code.
-/

namespace HailProto.Server

/-- A `did:plc` identifier. -/
abbrev Did := String

/-- A UUID in its text form. -/
abbrev Uuid := String

/-- The bytes of a signed representation, a digest or a body. -/
abbrev Bytes := List UInt8

/-- An error raised inside a transaction; the transaction is rolled back. -/
structure Fault where
  code : Option String
  message : String
  deriving DecidableEq, Repr

/-- `new Error(message)`. -/
def Fault.error (message : String) : Fault := ⟨none, message⟩

/-- PostgreSQL's answer to a duplicate key. -/
def Fault.uniqueViolation (constraint : String) : Fault :=
  ⟨some "23505", "duplicate key value violates unique constraint " ++ constraint⟩

/-- PostgreSQL's answer to a row that fails a `CHECK` constraint. -/
def Fault.checkViolation (constraint : String) : Fault :=
  ⟨some "23514", "new row violates check constraint " ++ constraint⟩

/-- `hail_assert_unfenced_account` raises in one of three ways. -/
inductive FenceFault
  | fenced
  | staleGeneration
  | custodyTransition
  deriving DecidableEq, Repr

def FenceFault.fault : FenceFault → Fault
  | .fenced => ⟨some "55000", "Hail DID is migration-fenced"⟩
  | .staleGeneration => ⟨some "55000", "Serving generation admission is stale or missing"⟩
  | .custodyTransition => ⟨some "55000", "Hail DID is custody-transition-fenced"⟩

/-- `retainPublicGrantAuthority` and `requireFreshPublicAuthority` raise in one of four ways. -/
inductive AuthorityFault
  | incomplete
  | stale
  | missing
  | mismatch
  deriving DecidableEq, Repr

def AuthorityFault.fault : AuthorityFault → Fault
  | .incomplete => .error "Public Grant commit requires complete unmixed authority evidence"
  | .stale => .error "Public authority evidence is stale or invalid"
  | .missing => .error "Public authority evidence is missing or mismatched"
  | .mismatch => .error "Public authority decision does not match retained roles/service"

/-- `text.includes(part)`. -/
def includes (text part : String) : Bool := decide (part.toList <:+: text.toList)

end HailProto.Server
