import HailProto.Codec.Decoder
import HailProto.Codec.Diagnostic
import HailProto.Core.PrefixCode

/-!
# Diagnostic notation

The formatter of `diagnostic-notation.ts`. Texts are written as `JSON.stringify` writes them, and
then every control, format and separator character of the result is escaped by its UTF-16 units.
Members are written in the order of the bytes of their keys, shorter keys first.
-/

namespace HailProto.Codec

open Cbor (Value asBytes)

/-- The Unicode table of format characters. It grows with the versions of Unicode, outside
ASCII. -/
structure FormatTable where
  format : Char → Bool
  format_ascii : ∀ c, c.toNat < 128 → format c = false

/-- The categories `Cc`, `Cf`, `Zl` and `Zp`. -/
def FormatTable.escapes (table : FormatTable) (c : Char) : Bool :=
  decide (c.toNat < 0x20) || decide (0x7f ≤ c.toNat ∧ c.toNat ≤ 0x9f) || table.format c ||
    c.toNat == 0x2028 || c.toNat == 0x2029

def quotationMark : Char := Char.ofNat 0x22

def apostrophe : Char := Char.ofNat 0x27

def reverseSolidus : Char := Char.ofNat 0x5c

namespace TypeScript.Notation

def compareBytes : List UInt8 → List UInt8 → Int
  | left :: lefts, right :: rights =>
    let difference : Int := left.toNat - right.toNat
    if difference ≠ 0 then difference else compareBytes lefts rights
  | _, _ => 0

def compareKeys (left right : String) : Int :=
  if (asBytes left).length ≠ (asBytes right).length then
    (asBytes left).length - (asBytes right).length
  else compareBytes (asBytes left) (asBytes right)

/-- `toString(16).padStart(width, "0")`. -/
def hexadecimal (width value : Nat) : List Char := (Nat.toDigits 16 value).leftpad width '0'

def byteString (value : List UInt8) : List Char :=
  'h' :: apostrophe :: (value.flatMap (fun byte => hexadecimal 2 byte.toNat) ++ [apostrophe])

def unicodeEscape (unit : Nat) : List Char := reverseSolidus :: 'u' :: hexadecimal 4 unit

/-- The letter of the short escape of a character, if it has one. -/
def shortEscape (c : Char) : Option Char :=
  if c = quotationMark ∨ c = reverseSolidus then some c
  else if c.toNat = 8 then some 'b'
  else if c.toNat = 9 then some 't'
  else if c.toNat = 10 then some 'n'
  else if c.toNat = 12 then some 'f'
  else if c.toNat = 13 then some 'r'
  else none

/-- One character of a well-formed text, as `JSON.stringify` writes it. -/
def stringifyCharacter (c : Char) : List Char :=
  match shortEscape c with
  | some letter => [reverseSolidus, letter]
  | none => if c.toNat < 0x20 then unicodeEscape c.toNat else [c]

def stringify (value : String) : List Char :=
  quotationMark :: (value.toList.flatMap stringifyCharacter ++ [quotationMark])

/-- The replacement of one character of the stringified text. -/
def escapeCharacter (table : FormatTable) (character : Char) : List Char :=
  if table.escapes character then (utf16Char character).flatMap unicodeEscape else [character]

def textString (table : FormatTable) (value : String) : List Char :=
  (stringify value).flatMap (escapeCharacter table)

/-- `String(value)` of a safe integer. -/
def integerString (n : Int) : List Char :=
  (if n < 0 then ['-'] else []) ++ Nat.toDigits 10 n.natAbs

def indentation (depth : Nat) : List Char := List.replicate (2 * depth) ' '

/-- Lines between brackets, one level deeper than the brackets. -/
def enclose (depth : Nat) (openBracket closeBracket : Char) (entries : List (List Char)) :
    List Char :=
  if entries = [] then [openBracket, closeBracket]
  else openBracket :: '\n' :: (List.intercalate [',', '\n']
    (entries.map (indentation (depth + 1) ++ ·)) ++
      '\n' :: (indentation depth ++ [closeBracket]))

/-- A member, from its key and its rendered value. -/
def memberString (table : FormatTable) (member : String × List Char) : List Char :=
  textString table member.1 ++ ':' :: ' ' :: member.2

def redacted : List Char := quotationMark :: ("[REDACTED]".toList ++ [quotationMark])

mutual

/-- Members are rendered before they are sorted, since the order looks at the keys alone. A tag is
no value of this language. -/
def formatValue (table : FormatTable) (redactSecrets : Bool) (depth : Nat) : Value → List Char
  | .null => "null".toList
  | .bool b => (if b then "true" else "false").toList
  | .int n => integerString n
  | .text s => textString table s
  | .bytes b => byteString b
  | .array values => enclose depth '[' ']' (formatItems table redactSecrets (depth + 1) values)
  | .map entries =>
    let members := (formatEntries table redactSecrets (depth + 1) entries).insertionSort
      (fun a b => compareKeys a.1 b.1 ≤ 0)
    enclose depth (Char.ofNat 0x7b) (Char.ofNat 0x7d) (members.map (memberString table))
  | .tag _ _ => []

def formatItems (table : FormatTable) (redactSecrets : Bool) (depth : Nat) :
    List Value → List (List Char)
  | [] => []
  | v :: values =>
    formatValue table redactSecrets depth v :: formatItems table redactSecrets depth values

def formatEntries (table : FormatTable) (redactSecrets : Bool) (depth : Nat) :
    List (Value × Value) → List (String × List Char)
  | [] => []
  | (key, entry) :: entries =>
    (key.keyText, if redactSecrets && key.isText "token" then redacted
      else formatValue table redactSecrets depth entry) ::
        formatEntries table redactSecrets depth entries

end

def toDiagnosticNotation (table : FormatTable) (value : Value) (redactSecrets : Bool) :
    Except HailCodecError String := do
  assertHailValue value defaultResourceLimits
  .ok (String.ofList (formatValue table redactSecrets 0 value))

section Members

variable {table : FormatTable} {redactSecrets : Bool} {depth : Nat}

/-- What stands after a key. -/
def renderedEntry (table : FormatTable) (redactSecrets : Bool) (depth : Nat)
    (e : Value × Value) : String × List Char :=
  (e.1.keyText, if redactSecrets && e.1.isText "token" then redacted
    else formatValue table redactSecrets depth e.2)

theorem formatItems_eq_map (values : List Value) :
    formatItems table redactSecrets depth values =
      values.map (formatValue table redactSecrets depth) := by
  induction values with
  | nil => rfl
  | cons v values ih => rw [formatItems, ih, List.map_cons]

theorem formatEntries_eq_map (entries : List (Value × Value)) :
    formatEntries table redactSecrets depth entries =
      entries.map (renderedEntry table redactSecrets depth) := by
  induction entries with
  | nil => rfl
  | cons e entries ih =>
    obtain ⟨key, entry⟩ := e
    rw [formatEntries, ih, List.map_cons]
    rfl

end Members

end TypeScript.Notation

end HailProto.Codec
