import HailProto.Cbor.Diagnostic
import HailProto.Codec.CommandSchema

/-!
# Signed objects on the command line

`codec/mod.rs`: parsing a signed object, showing its payload as JSON, taking a payload back from
JSON, and signing it. What JSON shows as text is taken for bytes by the name of its member.
-/

namespace HailProto.Codec.Rust

open Cbor (Value Base64 JsonValue Limits decode encode fromJson fromUtf8 asBytes)

/-- What a kind of object is wrapped with, and how long it may be. -/
structure Profile where
  contentType : String
  signer : String
  role : String
  maximum : UInt64

def profile (kind : String) : Except Cbor.Error Profile :=
  if kind = "hail.address-binding" then
    .ok ⟨"application/hail-address-binding+cbor", "did", "hail-identity", 16384⟩
  else if kind = "hail.sender-profile" then
    .ok ⟨"application/hail-sender-profile+cbor", "did", "hail-messaging", 65536⟩
  else if kind = "hail.grant" then
    .ok ⟨"application/hail-grant+cbor", "grantor", "hail-identity", 262144⟩
  else if kind = "hail.connection-invitation" then
    .ok ⟨"application/hail-connection-invitation+cbor", "from", "hail-identity", 16384⟩
  else if kind = "hail.connection-confirmation" then
    .ok ⟨"application/hail-connection-confirmation+cbor", "from", "hail-identity", 16384⟩
  else .error Cbor.invalid

structure Parsed where
  payload : Value
  protectedBytes : List UInt8
  payloadBytes : List UInt8
  signature : List UInt8

/-- The value of a protected header. -/
def header (headers : List (Value × Value)) (key : Int) : Except Cbor.Error Value :=
  match headers.find? fun e => match e.1 with | .int n => n == key | _ => false with
  | some e => .ok e.2
  | none => .error Cbor.invalid

/-- The key identifier of a wrapper with these headers. -/
def parseHeaders (contentType : String) (headers : List (Value × Value)) :
    Except Cbor.Error String := do
  let algorithm ← header headers 1
  let type ← header headers 3
  let type ← text type
  let known := match algorithm with
    | .int n => n == -19
    | _ => false
  ensure (known && type == contentType)
  let kid ← header headers 4
  let kid ← bytes kid
  match fromUtf8 kid with
  | some kid => .ok kid
  | none => .error Cbor.invalid

/-- The four parts of a wrapper. -/
def parseParts (lib : Libraries) (kind : String) (profile : Profile)
    (protectedPart unprotected payload signature : Value) : Except Cbor.Error Parsed := do
  let empty := match unprotected with
    | .map [] => true
    | _ => false
  let signature ← bytes signature
  ensure (empty && signature.length == 64)
  let protectedBytes ← bytes protectedPart
  match ← decode protectedBytes (.forCose 1024) false with
  | .map headers => do
    ensure (headers.length == 3)
    let kid ← parseHeaders profile.contentType headers
    let payloadBytes ← bytes payload
    let payload ← decode payloadBytes (.payload profile.maximum) false
    Schema.validate lib kind payload
    let signer ← text (field payload profile.signer)
    let key ← text (field payload "key_id")
    ensure (kid == signer ++ "#" ++ profile.role && key == kid)
    .ok ⟨payload, protectedBytes, payloadBytes, signature⟩
  | _ => .error Cbor.invalid

def parse (lib : Libraries) (kind : String) (b : List UInt8) : Except Cbor.Error Parsed := do
  let profile ← profile kind
  match ← decode b (.forCose profile.maximum) true with
  | .tag 18 outer => do
    match ← array outer with
    | [protectedPart, unprotected, payload, signature] =>
      parseParts lib kind profile protectedPart unprotected payload signature
    | _ => .error Cbor.invalid
  | _ => .error Cbor.invalid

/-- The JSON that shows a payload; `none` is a program that ends at an unreachable tag. -/
def inspect (lib : Libraries) (base64 : Base64) (kind : String) (b : List UInt8) :
    Except Cbor.Error (Option JsonValue) := do
  let parsed ← parse lib kind b
  .ok (parsed.payload.diagnostic base64)

def decodeBase64 (base64 : Base64) (text : String) : Except Cbor.Error (List UInt8) :=
  match base64.decode text with
  | some b => .ok b
  | none => .error (.client "Invalid canonical unpadded base64url")

/-- A map that names its algorithm holds a digest. -/
def isDigest (entries : List (Value × Value)) : Bool :=
  entries.any fun e => e.1.isText "algorithm" && e.2.isText "sha-256"

/-- The member of this name holds bytes. -/
def holdsBytes (digest : Bool) (name : String) : Bool :=
  name == "token" || name == "previous" || name == "data" || name == "value" && digest

/-- A member that holds bytes: a text is decoded, and anything else stays. -/
def convertHeld (base64 : Base64) (name : String) : Value → Except Cbor.Error Value
  | .text text => do
    let b ← decodeBase64 base64 text
    if name ≠ "data" ∧ b.length ≠ 32 then .error Cbor.invalid
    else .ok (.bytes b)
  | v => .ok v

mutual

def convert (base64 : Base64) : Value → Except Cbor.Error Value
  | .array values => do
    let values ← convertValues base64 values
    .ok (.array values)
  | .map entries => do
    let entries ← convertEntries base64 (isDigest entries) entries
    .ok (.map entries)
  | v => .ok v

def convertValues (base64 : Base64) : List Value → Except Cbor.Error (List Value)
  | [] => .ok []
  | value :: values => do
    let value ← convert base64 value
    let values ← convertValues base64 values
    .ok (value :: values)

def convertEntries (base64 : Base64) (digest : Bool) :
    List (Value × Value) → Except Cbor.Error (List (Value × Value))
  | [] => .ok []
  | (key, value) :: entries => do
    let name ← text key
    let value ← (if holdsBytes digest name then convertHeld base64 name value
      else convert base64 value)
    let entries ← convertEntries base64 digest entries
    .ok ((key, value) :: entries)

end

def fromDiagnostic (lib : Libraries) (base64 : Base64) (kind : String) (value : JsonValue) :
    Except Cbor.Error Value := do
  let result ← fromJson value
  let result ← convert base64 result
  Schema.validate lib kind result
  .ok result

def signatureInput (protectedBytes payload : List UInt8) : Except Cbor.Error (List UInt8) :=
  encode (.array [.text "Signature1", .bytes protectedBytes, .bytes [], .bytes payload])
    (.forCose 264192) false

/-- Wrap a payload. The key is the function that signs with it. -/
def sign (lib : Libraries) (kind : String) (payload : Value) (key : List UInt8 → List UInt8) :
    Except Cbor.Error (List UInt8) := do
  let profile ← profile kind
  Schema.validate lib kind payload
  let signer ← text (field payload profile.signer)
  let kid := signer ++ "#" ++ profile.role
  let protectedBytes ← encode (.map [(.int 1, .int (-19)), (.int 3, .text profile.contentType),
    (.int 4, .bytes (asBytes kid))]) (.forCose 1024) false
  let payload ← encode payload (.payload profile.maximum) false
  let input ← signatureInput protectedBytes payload
  encode (.tag 18 (.array [.bytes protectedBytes, .map [], .bytes payload, .bytes (key input)]))
    (.forCose profile.maximum) true

end HailProto.Codec.Rust
