import HailProto.Cbor.Reader
import HailProto.Codec.Assets
import HailProto.Codec.PngReads

/-!
# The schemas of the command line

`validate` of `codec/schema.rs` for the five kinds of objects that the command line signs. Every
refusal is the same error. The width and height of a picture come from the PNG reader.
-/

namespace HailProto.Codec.Rust

open Cbor (Value asBytes)

/-- The value of a member, or null. -/
def field (value : Value) (name : String) : Value :=
  match value with
  | .map entries => (Record.get entries name).getD .null
  | _ => .null

def bytes : Value → Except Cbor.Error (List UInt8)
  | .bytes b => .ok b
  | _ => .error Cbor.invalid

def array : Value → Except Cbor.Error (List Value)
  | .array values => .ok values
  | _ => .error Cbor.invalid

def uint (value : Value) (minimum : Int) : Except Cbor.Error Int :=
  match value with
  | .int n => if n ≥ minimum then .ok n else .error Cbor.invalid
  | _ => .error Cbor.invalid

namespace Schema

/-- The keys of a map are these. -/
def exact (value : Value) (required optional : List String) : Except Cbor.Error Unit :=
  match value with
  | .map entries => do
    let keys ← entries.mapM fun e => Rust.text e.1
    ensure (required.all keys.contains &&
      keys.all fun k => required.contains k || optional.contains k)
  | _ => .error Cbor.invalid

def text (lib : Libraries) (value : Value) (max : Nat) : Except Cbor.Error Unit := do
  let text ← Rust.text value
  ensure (!(asBytes text).isEmpty && decide ((asBytes text).length ≤ max) && lib.isNormal text &&
    !text.toList.any lib.controlOrFormat)

def hash (value : Value) : Except Cbor.Error Unit := do
  exact value ["algorithm", "value"] []
  let algorithm ← Rust.text (field value "algorithm")
  let b ← bytes (field value "value")
  ensure (algorithm == "sha-256" && b.length == 32)

def did (value : Value) : Except Cbor.Error Unit := do
  let text ← Rust.text value
  ensure (didPattern text)

def key (value : Value) (signer role : String) : Except Cbor.Error Unit := do
  let text ← Rust.text value
  ensure (text == signer ++ "#" ++ role)

def has (value : Value) (name : String) : Bool :=
  match value with
  | .map entries => entries.any fun e => e.1.isText name
  | _ => false

/-- A text member that may be left out. -/
def optionalText (lib : Libraries) (value : Value) (name : String) (max : Nat) :
    Except Cbor.Error Unit :=
  if has value name then text lib (field value name) max else .ok ()

/-- The loop over the categories of a profile, after the identifier before them. -/
def profileCategories (lib : Libraries) (previous : String) : List Value → Except Cbor.Error Unit
  | [] => .ok ()
  | item :: categories => do
    exact item ["id", "label"] ["description"]
    let id ← Rust.text (field item "id")
    ensure (categoryPattern id && decide (asBytes previous < asBytes id))
    text lib (field item "label") 128
    optionalText lib item "description" 1024
    profileCategories lib id categories

def avatar (lib : Libraries) (manifest : Value) : Except Cbor.Error Unit := do
  exact manifest ["version", "assets"] []
  let version ← uint (field manifest "version") 1
  ensure (version == 1)
  match ← array (field manifest "assets") with
  | [asset] => do
    exact asset ["id", "role", "media_type", "loading", "size", "digest", "width", "height",
      "data"] []
    let id ← Rust.text (field asset "id")
    let role ← Rust.text (field asset "role")
    let mediaType ← Rust.text (field asset "media_type")
    let loading ← Rust.text (field asset "loading")
    ensure (assetIdPattern id && role == "avatar" && mediaType == "image/png" &&
      loading == "bundled")
    let data ← bytes (field asset "data")
    let size ← uint (field asset "size") 1
    ensure (decide (data.length ≤ 32768) && size == data.length)
    hash (field asset "digest")
    let digest ← bytes (field (field asset "digest") "value")
    ensure (lib.sha256.hash data == digest)
    match readPng (some 64) data with
    | .ok (width, height) => do
      let assetWidth ← uint (field asset "width") 1
      let assetHeight ← uint (field asset "height") 1
      ensure (decide (width ≤ 512) && decide (height ≤ 512) && assetWidth == width &&
        assetHeight == height)
    | .error _ => .error Cbor.invalid
  | _ => .error Cbor.invalid

def profileKeys : List String :=
  ["type", "version", "did", "revision", "display_name", "categories", "updated_at", "key_id"]

def profile (lib : Libraries) (p : Value) : Except Cbor.Error Unit := do
  let version ← uint (field p "version") 1
  ensure (version == 1 || version == 2)
  exact p profileKeys (if version = 1 then ["description"] else ["description", "assets"])
  did (field p "did")
  let _ ← uint (field p "revision") 1
  let _ ← uint (field p "updated_at") 0
  text lib (field p "display_name") 128
  optionalText lib p "description" 1024
  let categories ← array (field p "categories")
  ensure (decide (categories.length ≤ 100))
  profileCategories lib "" categories
  if has p "assets" then avatar lib (field p "assets") else .ok ()
  let signer ← Rust.text (field p "did")
  key (field p "key_id") signer "hail-messaging"

/-- The loop over the categories of a grant, after the category before them. -/
def grantCategories (previous : String) : List Value → Except Cbor.Error Unit
  | [] => .ok ()
  | value :: values => do
    let value ← Rust.text value
    ensure (categoryPattern value && decide (asBytes previous < asBytes value))
    grantCategories value values

def grantScope (scope : Value) : Except Cbor.Error Unit := do
  match ← array scope with
  | [selector] => do
    let type ← Rust.text (field selector "type")
    if type = "categories" then do
      exact selector ["type", "values"] []
      let values ← array (field selector "values")
      ensure (!values.isEmpty)
      grantCategories "" values
    else .error Cbor.invalid
  | _ => .error Cbor.invalid

/-- `*value == V::Null`. -/
def isNull : Value → Bool
  | .null => true
  | _ => false

def grantPrevious (revision : Int) (previous : Value) : Except Cbor.Error Unit :=
  if revision = 1 then ensure (isNull previous)
  else do
    let b ← bytes previous
    ensure (b.length == 32)

def grantKeys : List String :=
  ["type", "version", "grant_id", "revision", "previous", "grantor", "grantee", "scope", "status",
    "issued_at", "updated_at", "expires_at", "consent_context", "key_id"]

def grantConsent (oracle : DomainOracle) (consent : Value) : Except Cbor.Error Unit := do
  exact consent ["grantee_address", "address_binding_hash", "sender_profile_hash"] []
  address oracle (field consent "grantee_address")
  hash (field consent "address_binding_hash")
  hash (field consent "sender_profile_hash")

def grant (lib : Libraries) (p : Value) : Except Cbor.Error Unit := do
  exact p grantKeys []
  let version ← uint (field p "version") 1
  let id ← Rust.text (field p "grant_id")
  ensure (version == 1 && uuidV7Pattern id)
  let revision ← uint (field p "revision") 1
  grantPrevious revision (field p "previous")
  did (field p "grantor")
  did (field p "grantee")
  grantScope (field p "scope")
  let status ← Rust.text (field p "status")
  ensure (status == "active" || status == "revoked")
  let updated ← uint (field p "updated_at") 0
  let issued ← uint (field p "issued_at") 0
  ensure (decide (updated ≥ issued))
  let _ ← if isNull (field p "expires_at") then .ok 0 else uint (field p "expires_at") 0
  grantConsent lib.domains (field p "consent_context")
  let signer ← Rust.text (field p "grantor")
  key (field p "key_id") signer "hail-identity"

def confirmationKeys : List String :=
  ["type", "version", "confirmation_id", "from", "to", "invitation_id", "invitation_hash",
    "issued_at", "expires_at", "key_id"]

def invitationKeys : List String :=
  ["type", "version", "invitation_id", "from", "token_hash", "issued_at", "expires_at", "key_id"]

/-- What a confirmation says beyond an invitation. -/
def confirmationParties (p : Value) : Except Cbor.Error Unit := do
  let id ← Rust.text (field p "confirmation_id")
  ensure (uuidV7Pattern id)
  did (field p "to")
  let source ← Rust.text (field p "from")
  let target ← Rust.text (field p "to")
  ensure (source != target)
  hash (field p "invitation_hash")

def connectionExpiry (confirmation : Bool) (issued : Int) (expires : Value) :
    Except Cbor.Error Unit :=
  if isNull expires then ensure (!confirmation)
  else do
    let expiry ← uint expires 0
    ensure (decide (expiry > issued) && (!confirmation || decide (expiry - issued ≤ 300)))

def connection (kind : String) (p : Value) : Except Cbor.Error Unit := do
  let confirmation := kind == "hail.connection-confirmation"
  exact p (if confirmation then confirmationKeys else invitationKeys) []
  let version ← uint (field p "version") 1
  let id ← Rust.text (field p "invitation_id")
  ensure (version == 1 && uuidV7Pattern id)
  did (field p "from")
  if confirmation then confirmationParties p else hash (field p "token_hash")
  let issued ← uint (field p "issued_at") 0
  connectionExpiry confirmation issued (field p "expires_at")
  let signer ← Rust.text (field p "from")
  key (field p "key_id") signer "hail-identity"

def addressBinding (oracle : DomainOracle) (p : Value) : Except Cbor.Error Unit := do
  exact p ["version", "type", "address", "did", "issued_at", "key_id"] []
  let version ← uint (field p "version") 1
  ensure (version == 2)
  did (field p "did")
  address oracle (field p "address")
  let _ ← uint (field p "issued_at") 0
  let signer ← Rust.text (field p "did")
  key (field p "key_id") signer "hail-identity"

def validate (lib : Libraries) (kind : String) (p : Value) : Except Cbor.Error Unit := do
  let type ← Rust.text (field p "type")
  ensure (type == kind)
  if kind = "hail.sender-profile" then profile lib p
  else if kind = "hail.address-binding" then addressBinding lib.domains p
  else if kind = "hail.grant" then grant lib p
  else if kind = "hail.connection-invitation" ∨ kind = "hail.connection-confirmation" then
    connection kind p
  else .error Cbor.invalid

end Schema

end HailProto.Codec.Rust
