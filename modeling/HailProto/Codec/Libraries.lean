import HailProto.Codec.Address

/-!
# The libraries of the validators

What the validators ask of Unicode tables, of a hash function and of URL parsers. The tables and
the hash are one function in every language; the parsers are two libraries of which each returns
the parts that its caller looks at. The texts a profile shows are checked here too, since both
languages check them with nothing but these tables.
-/

namespace HailProto.Codec

open Cbor (Value asBytes)

/-- A hash function with digests of 32 bytes. -/
structure Sha256 where
  hash : List UInt8 → List UInt8
  hash_length : ∀ data, (hash data).length = 32

/-- The parts of a `URL` that TypeScript looks at. -/
structure JsUrl where
  protocol : String
  username : String
  password : String

/-- The parts of a `url.URL` that Go looks at. -/
structure GoUrl where
  scheme : String
  host : String
  user : Option String

/-- The libraries. -/
structure Libraries where
  domains : DomainOracle
  sha256 : Sha256
  /-- The text is in normalization form C. -/
  isNormal : String → Bool
  /-- The character is in the categories `Cc` or `Cf`. -/
  controlOrFormat : Char → Bool
  /-- `new URL(href)`, or what it throws. -/
  newUrl : String → Option JsUrl
  /-- `url.Parse(href)`. -/
  urlParse : String → Option GoUrl

namespace TypeScript

def profileText (lib : Libraries) (value : Option Value) (minimum maximum : Nat) (path : String) :
    Except HailCodecError Unit := do
  let result ← text value path
  let size := (asBytes result).length
  failIf (decide (size < minimum) || decide (size > maximum) || !lib.isNormal result ||
    result.toList.any lib.controlOrFormat)
    ("must be NFC plain text from " ++ toString minimum ++ " through " ++ toString maximum ++
      " UTF-8 bytes") path

end TypeScript

namespace Go

def profileText (lib : Libraries) (v : Value) (min max : Nat) (path : String) :
    Except String Unit := do
  let s ← textValue v path
  let n := (asBytes s).length
  errorIf (decide (n < min) || decide (n > max) || !lib.isNormal s)
    (path ++ " invalid profile text")
  errorIf (s.toList.any lib.controlOrFormat) (path ++ " contains control/format")

end Go

/-- A text of this many bytes, in normal form and free of control and format characters. -/
def IsProfileText (lib : Libraries) (minimum maximum : Nat) (v : Option Value) : Prop :=
  ∃ s, v = some (.text s) ∧ minimum ≤ (asBytes s).length ∧ (asBytes s).length ≤ maximum ∧
    lib.isNormal s = true ∧ s.toList.any lib.controlOrFormat = false

section Texts

variable {lib : Libraries} {v : Option Value} {minimum maximum : Nat} {path : String} {u : Unit}

@[simp] theorem TypeScript.profileText_eq_ok :
    profileText lib v minimum maximum path = .ok u ↔ IsProfileText lib minimum maximum v := by
  simp only [profileText, IsProfileText, bind_eq_ok, text_eq_ok, failIf_eq_ok,
    Bool.or_eq_false_iff, decide_eq_false_iff_not, not_lt, Bool.not_eq_false', and_assoc]

@[simp] theorem Go.profileText_eq_ok {m : Record} {k : String} :
    profileText lib (index m k) minimum maximum path = .ok u ↔
      IsProfileText lib minimum maximum (m.get k) := by
  simp only [profileText, IsProfileText, bind_eq_ok, textValue_eq_ok, index_eq_text,
    errorIf_eq_ok, Bool.or_eq_false_iff, decide_eq_false_iff_not, not_lt, Bool.not_eq_false',
    exists_const, and_assoc]

end Texts

end HailProto.Codec
