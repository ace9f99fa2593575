import HailProto.Core.Bytes
import HailProto.Core.Outcome

/-!
# Values, limits and errors of the command line codec

The data model of `codec/cbor.rs`: the value tree, the resource limits with their three
presets, and the single error every refusal returns. Text is a valid UTF-8 string and is
handled through its bytes.
-/

namespace HailProto.Cbor

/-- The error record of the command line contract. -/
structure Error where
  code : String
  message : String
  status : Option Nat
  retryAfter : Option Nat
  deriving DecidableEq, Repr

def Error.new (code message : String) : Error := ⟨code, message, none, none⟩

def Error.client (message : String) : Error := .new "CLIENT_ERROR" message

/-- The one refusal of both the reader and the writer. -/
def invalid : Error := .client "Invalid signed Hail object"

/-- A decoded value. Maps keep the order of their entries, so that a value can be out of
order or hold one key twice before it is written. -/
inductive Value where
  | null
  | bool (b : Bool)
  | int (n : Int)
  | text (s : String)
  | bytes (b : List UInt8)
  | array (values : List Value)
  | map (entries : List (Value × Value))
  | tag (tag : UInt64) (value : Value)

/-- Resource limits. Sizes are machine words; `cose` also admits integer map keys. -/
structure Limits where
  bytes : UInt64
  depth : UInt64
  items : UInt64
  array : UInt64
  map : UInt64
  text : UInt64
  string : UInt64
  cose : Bool

def Limits.payload (bytes : UInt64) : Limits where
  bytes := bytes
  depth := 32
  items := 16384
  array := 4096
  map := 256
  text := 262144
  string := 262144
  cose := false

/-- The limits of a signed wrapper, whose maps may have integer keys. -/
def Limits.forCose (bytes : UInt64) : Limits where
  bytes := bytes
  depth := 8
  items := 256
  array := 8
  map := 8
  text := 1024
  string := bytes
  cose := true

/-- Keys of a map are texts, and integers too in a signed wrapper. -/
def Value.isKey (cose : Bool) : Value → Bool
  | .text _ => true
  | .int _ => cose
  | _ => false

/-- The bytes of a text. -/
def asBytes (s : String) : List UInt8 := s.toByteArray.data.toList

/-- Strict UTF-8 decoding. -/
def fromUtf8 (bytes : List UInt8) : Option String := String.fromUTF8? ⟨⟨bytes⟩⟩

theorem asBytes_injective {s t : String} (h : asBytes s = asBytes t) : s = t := by
  obtain ⟨⟨⟨xs⟩⟩, hs⟩ := s
  obtain ⟨⟨⟨ys⟩⟩, ht⟩ := t
  cases (show xs = ys from h)
  rfl

/-- Decoding succeeds on exactly the bytes of a text, and returns that text. -/
theorem fromUtf8_eq_some {bytes : List UInt8} {s : String} :
    fromUtf8 bytes = some s ↔ asBytes s = bytes := by
  constructor
  · intro h
    unfold fromUtf8 String.fromUTF8? at h
    split at h
    · cases h
      rfl
    · cases h
  · rintro rfl
    unfold fromUtf8 String.fromUTF8?
    exact dif_pos s.isValidUTF8

/-- The largest integer the format carries, `2 ^ 53 - 1`. -/
def maxSafe : Nat := 9007199254740991

end HailProto.Cbor
