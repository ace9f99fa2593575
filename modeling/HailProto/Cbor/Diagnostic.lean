import HailProto.Cbor.Json

/-!
# The diagnostic form of the command line

`Value::diagnostic` of `codec/cbor.rs`: byte strings become texts in base64url, and what a member
named `token` holds is not shown.
-/

namespace HailProto.Cbor

/-- The base64url engine without padding. It decodes what it encodes, and encodes three bytes as
four letters. -/
structure Base64 where
  encode : List UInt8 → String
  decode : String → Option (List UInt8)
  decode_encode : ∀ b, decode (encode b) = some b
  length_encode : ∀ b, (asBytes (encode b)).length = (b.length * 4 + 2) / 3

/-- A JSON number from a signed word. -/
def JsonNumber.ofInt (n : Int) : JsonNumber :=
  if 0 ≤ n then .posInt (UInt64.ofNat n.toNat) else .negInt n

mutual

/-- Tags are unreachable here, which only ends the program. Decoded maps have distinct keys, so
that the members are collected in their order. -/
def Value.diagnostic (base64 : Base64) : Value → Option JsonValue
  | .null => some .null
  | .bool b => some (.bool b)
  | .int n => some (.number (.ofInt n))
  | .text s => some (.string s)
  | .bytes b => some (.string (base64.encode b))
  | .array values => (diagnosticValues base64 values).map .array
  | .map entries => (diagnosticEntries base64 entries).map .object
  | .tag _ _ => none

def diagnosticValues (base64 : Base64) : List Value → Option (List JsonValue)
  | [] => some []
  | v :: values =>
    match v.diagnostic base64, diagnosticValues base64 values with
    | some j, some js => some (j :: js)
    | _, _ => none

def diagnosticEntries (base64 : Base64) :
    List (Value × Value) → Option (List (String × JsonValue))
  | [] => some []
  | (.text k, v) :: entries =>
    if k = "token" then
      (diagnosticEntries base64 entries).map ((k, .string "[REDACTED]") :: ·)
    else
      match v.diagnostic base64, diagnosticEntries base64 entries with
      | some j, some js => some ((k, j) :: js)
      | _, _ => none
  | _ :: entries => diagnosticEntries base64 entries

end

end HailProto.Cbor
