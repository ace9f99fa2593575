import HailProto.Codec.Decoder
import HailProto.Codec.Diagnostic
import HailProto.Server.DeepEqual
import HailProto.Server.TextEncoding

/-!
# The validator of the content builder

`validateBody` of the builder's `core.ts`. A body is bounded as JSON, and then read as diagnostic
JSON and encoded by the codec, which refuses numbers that are no integers: the numbers of a body are
integers here.
-/

namespace HailProto.Content.Builder

open Cbor (Value)
open Codec (Libraries PayloadType)
open Codec.TypeScript (Cborg)
open Server

abbrev Js := JsValue ℤ

abbrev Properties := List (JsString × Js)

/-- What the builder throws: its own errors, and the refusals of the codec. -/
inductive Fault
  | thrown (message : JsString)
  | codec
  deriving DecidableEq

section Json

mutual

/-- The tree of a value as `JSON.stringify` writes it. -/
def tree : Js → Json
  | .null => .null
  | .boolean b => .bool b
  | .number n => .number (js (toString n))
  | .string s => .string s
  | .array l => .array (trees l)
  | .object p => .object (memberTrees p)

def trees : List Js → List Json
  | [] => []
  | v :: l => tree v :: trees l

def memberTrees : Properties → List (JsString × Json)
  | [] => []
  | (name, v) :: p => (name, tree v) :: memberTrees p

end

/-- `JSON.stringify(v)` -/
def stringify (v : Js) : JsString := Json.write (tree v)

/-- `new TextEncoder().encode(s).length` -/
def byteLength (s : JsString) : ℕ := (utf8Encode s).length

end Json

section Payloads

/-- The text of a string, if it is well-formed. -/
def textOf (s : JsString) : Option String :=
  if js (String.ofList (characters s)) = s then some (String.ofList (characters s)) else none

mutual

/-- The value that the codec reads, which refuses a string with an unpaired surrogate. -/
def hailValue : Js → Option Value
  | .null => some .null
  | .boolean b => some (.bool b)
  | .number n => some (.int n)
  | .string s => (textOf s).map .text
  | .array l => (hailValues l).map .array
  | .object p => (hailEntries p).map .map

def hailValues : List Js → Option (List Value)
  | [] => some []
  | v :: l => do
      let value ← hailValue v
      let values ← hailValues l
      some (value :: values)

def hailEntries : Properties → Option (List (Value × Value))
  | [] => some []
  | (name, v) :: p => do
      let key ← textOf name
      let value ← hailValue v
      let entries ← hailEntries p
      some ((.text key, value) :: entries)

end

variable (lib : Libraries) (cborg : Cborg)

/-- `encodePayload` -/
def encodePayload (type : PayloadType) (payload : Value) :
    Except Codec.TypeScript.HailCodecError (List UInt8) := do
  Codec.TypeScript.validatePayload lib type payload
  Codec.TypeScript.encodeDeterministic cborg payload Codec.defaultResourceLimits

/-- `encodePayload(type,fromDiagnosticJson(type,v))` -/
def encodeJson (type : PayloadType) (v : Js) : Except Fault Unit :=
  match hailValue v with
  | none => .error .codec
  | some json =>
    let encoded := do
      let payload ← Codec.TypeScript.fromDiagnosticJson lib type json
      encodePayload lib cborg type payload
    match encoded with
    | .error _ => .error .codec
    | .ok _ => .ok ()

end Payloads

section Members

/-- A property, or null where it is missing. -/
def field (p : Properties) (name : String) : Js := (Json.getProperty p name).getD .null

def elements : Js → List Js
  | .array l => l
  | _ => []

def properties : Js → Properties
  | .object p => p
  | _ => []

def string : Js → JsString
  | .string s => s
  | _ => []

/-- `v ?? other` -/
def nullish (v other : Js) : Js :=
  match v with
  | .null => other
  | v => v

def truthy : Js → Bool
  | .null => false
  | .boolean b => b
  | .number n => n != 0
  | .string s => !s.isEmpty
  | .array _ => true
  | .object _ => true

def strings (l : List JsString) : Js := .array (l.map .string)

/-- Changes a property in its place. -/
def mapProperty (p : Properties) (name : String) (f : Js → Js) : Properties :=
  p.map fun m => if m.1 = js name then (m.1, f m.2) else m

def blocks (body : Properties) : List Js := elements (field body "blocks")

def spans (block : Properties) : List Properties :=
  (elements (field block "children")).map properties

def text (span : Properties) : JsString := string (field span "text")

end Members

section Validator

/-- A bound on the JSON of a value, and how it is written. -/
structure Budget where
  maximum : ℕ
  shown : String

def bodyBudget : Budget := ⟨360000, "360,000"⟩

def budget (b : Budget) (value : Js) : Except Fault Unit :=
  if byteLength (stringify value) > b.maximum then
    .error (.thrown (js ("Content exceeds the " ++ b.shown ++ "-byte budget.")))
  else .ok ()

def object (value : Js) (path : JsString) : Except Fault Properties :=
  match value with
  | .object p => .ok p
  | _ => .error (.thrown (path ++ js ": expected an object"))

/-- Only these fields. -/
def fields (value : Properties) (allowed : List String) (path : JsString) : Except Fault Unit :=
  match (value.map Prod.fst).find? fun key => !(allowed.map js).contains key with
  | some key =>
    .error (.thrown (path ++ js "." ++ key ++
      js ": unsupported field; remove it before importing"))
  | none => .ok ()

/-- `value === text` -/
def isText (value : Option Js) (text : String) : Bool :=
  match value with
  | some (.string s) => s == js text
  | _ => false

def isImage (block : Properties) : Bool := isText (Json.getProperty block "_type") "spt.image"

/-- `validateBody`, which returns a copy of the body. -/
def validateBody (lib : Libraries) (cborg : Cborg) (value : Js) : Except Fault Js := do
  budget bodyBudget value
  let v ← object value (js "body")
  let spt3 := isText (Json.getProperty v "profile") "spt-3"
  if !isText (Json.getProperty v "profile") "spt-2" && !spt3 then
    .error (.thrown (js "body.profile: this builder supports spt-2 and spt-3"))
  else do
    -- Attachments belong to the host publication flow, never the editor document.
    fields v (["version", "profile", "blocks"] ++ if spt3 then ["assets"] else []) (js "body")
    encodeJson lib cborg (if spt3 then .bodySpt3 else .bodySpt2) value
    .ok value

end Validator

end HailProto.Content.Builder
