import HailProto.Codec.Assets
import HailProto.Codec.Conversations

/-!
# Address bindings, sender profiles and grants in two languages

The validators of the objects an account publishes about itself, and of the grants it signs, in
`validation.ts` and in `payload.go`. A profile of the second version may have an avatar, which is
a manifest of one asset; categories come in ascending order wherever they are listed.
-/

namespace HailProto.Codec

open Cbor (Value)

def senderProfileRequired : List String :=
  ["type", "version", "did", "revision", "display_name", "categories", "updated_at", "key_id"]

def grantRequired : List String :=
  ["type", "version", "grant_id", "revision", "previous", "grantor", "grantee", "scope", "status",
    "issued_at", "updated_at", "expires_at", "consent_context", "key_id"]

def consentRequired : List String :=
  ["grantee_address", "address_binding_hash", "sender_profile_hash"]

def grantStatuses : List String := ["active", "revoked"]

namespace TypeScript

def validateAddressBinding (oracle : DomainOracle) (payload : Record) :
    Except HailCodecError Unit := do
  exactKeys payload ["version", "type", "address", "did", "issued_at", "key_id"] [] "$"
  let signer ← did (payload.get "did") "$.did"
  let _ ← hailAddress oracle (payload.get "address") "$.address"
  failIf (!strictEqual (payload.get "version") (some (.int 2))) "must equal integer 2" "$.version"
  let _ ← integer (payload.get "issued_at") "$.issued_at" 0
  keyId (payload.get "key_id") signer "hail-identity" "$.key_id"

/-- A check of a member that may be absent. -/
def optionalText (lib : Libraries) (value : Option Value) (maximum : Nat) (path : String) :
    Except HailCodecError Unit :=
  if value.isSome then profileText lib value 1 maximum path else .ok ()

/-- The loop over the categories of a profile. -/
def profileCategories (lib : Libraries) :
    String → Nat → List Value → Except HailCodecError Unit
  | _, _, [] => .ok ()
  | previous, index, entry :: entries => do
      let path := "$.categories[" ++ toString index ++ "]"
      let item ← record (some entry) path
      exactKeys item ["id", "label"] ["description"] path
      let id ← category (item.get "id") (path ++ ".id")
      failIf (decide (utf16 id ≤ utf16 previous)) "IDs must be unique and bytewise ascending"
        (path ++ ".id")
      profileText lib (item.get "label") 1 128 (path ++ ".label")
      optionalText lib (item.get "description") 1024 (path ++ ".description")
      profileCategories lib id (index + 1) entries

/-- The avatar of a profile, when the version admits one and there is one. -/
def profileAssets (lib : Libraries) (version : Int) (assets : Option Value) :
    Except HailCodecError Unit :=
  if version = 2 ∧ assets.isSome then do
    validateAssetManifest lib assets
    let manifest ← record assets "$.assets"
    let entries ← array (manifest.get "assets") "$.assets"
    match entries with
    | [.map asset] =>
      failIf (!strictEqual (Record.get asset "role") (some (.text "avatar")))
        "must contain exactly one avatar asset" "$.assets"
    | _ => fail "must contain exactly one avatar asset" "$.assets"
  else .ok ()

def validateSenderProfile (lib : Libraries) (payload : Record) : Except HailCodecError Unit := do
  let version ← integer (payload.get "version") "$.version" 1
  failIf (version != 1 && version != 2) "must equal integer 1 or 2" "$.version"
  exactKeys payload senderProfileRequired
    (if version = 1 then ["description"] else ["description", "assets"]) "$"
  let signer ← did (payload.get "did") "$.did"
  let _ ← integer (payload.get "revision") "$.revision" 1
  profileText lib (payload.get "display_name") 1 128 "$.display_name"
  optionalText lib (payload.get "description") 1024 "$.description"
  let categories ← array (payload.get "categories") "$.categories"
  failIf (decide (categories.length > 100)) "must contain at most 100 entries" "$.categories"
  profileCategories lib "" 0 categories
  profileAssets lib version (payload.get "assets")
  let _ ← integer (payload.get "updated_at") "$.updated_at" 0
  keyId (payload.get "key_id") signer "hail-messaging" "$.key_id"

/-- The predecessor of a subscription grant. -/
def previousGrant (payload : Record) (revision : Int) : Except HailCodecError Unit := do
  failIf (if revision = 1 then !strictEqual (payload.get "previous") (some .null)
    else match payload.get "previous" with
      | some (.bytes _) => false
      | _ => true)
    "must be null for revision 1 and a digest for later revisions" "$.previous"
  if revision > 1 then do
    let _ ← bytes (payload.get "previous") 32 "$.previous"
    .ok ()
  else .ok ()

/-- The single selector of a scope. -/
def grantSelector (entry : Option Value) : Except HailCodecError Unit := do
  let selector ← record entry "$.scope[0]"
  let selectorType ← text (selector.get "type") "$.scope[0].type"
  if selectorType = "categories" then do
    exactKeys selector ["type", "values"] [] "$.scope[0]"
    let values ← array (selector.get "values") "$.scope[0].values"
    failIf values.isEmpty "must not be empty" "$.scope[0].values"
    let _ ← ascending category (fun index => "$.scope[0].values[" ++ toString index ++ "]")
      "must be unique and bytewise ascending"
      (fun index => "$.scope[0].values[" ++ toString index ++ "]") "" 0 values
    .ok ()
  else fail "unknown scope selector" "$.scope[0].type"

def grantConsent (oracle : DomainOracle) (value : Option Value) :
    Except HailCodecError Unit := do
  let consent ← record value "$.consent_context"
  exactKeys consent consentRequired [] "$.consent_context"
  let _ ← hailAddress oracle (consent.get "grantee_address") "$.consent_context.grantee_address"
  digest (consent.get "address_binding_hash") "$.consent_context.address_binding_hash"
  digest (consent.get "sender_profile_hash") "$.consent_context.sender_profile_hash"

/-- A time that may be null. -/
def expiresAt (value : Option Value) : Except HailCodecError Unit :=
  if !strictEqual value (some .null) then do
    let _ ← integer value "$.expires_at" 0
    .ok ()
  else .ok ()

def validateGrant (oracle : DomainOracle) (payload : Record) : Except HailCodecError Unit := do
  exactKeys payload grantRequired [] "$"
  let _ ← uuid (payload.get "grant_id") "$.grant_id"
  let revision ← integer (payload.get "revision") "$.revision" 1
  previousGrant payload revision
  let signer ← did (payload.get "grantor") "$.grantor"
  let _ ← did (payload.get "grantee") "$.grantee"
  let scope ← array (payload.get "scope") "$.scope"
  failIf (scope.length != 1) "must contain exactly one selector" "$.scope"
  grantSelector scope.head?
  let status ← text (payload.get "status") "$.status"
  failIf (!grantStatuses.contains status) "unknown grant status" "$.status"
  let issuedAt ← integer (payload.get "issued_at") "$.issued_at" 0
  let updatedAt ← integer (payload.get "updated_at") "$.updated_at" 0
  failIf (decide (updatedAt < issuedAt)) "must not precede issued_at" "$.updated_at"
  expiresAt (payload.get "expires_at")
  grantConsent oracle (payload.get "consent_context")
  keyId (payload.get "key_id") signer "hail-identity" "$.key_id"

end TypeScript

namespace Go

def validateAddressBinding (oracle : DomainOracle) (m : Record) : Except String Unit := do
  exact m ["version", "type", "address", "did", "issued_at", "key_id"] [] "$"
  let signer ← did (index m "did") "$.did"
  hailAddress oracle (index m "address") "$.address"
  let _ ← intValue (index m "issued_at") "$.issued_at" 0
  keyID (index m "key_id") signer "hail-identity" "$.key_id"

def optionalText (lib : Libraries) (m : Record) (k : String) (max : Nat) (path : String) :
    Except String Unit :=
  if has m k then profileText lib (index m k) 1 max path else .ok ()

/-- `category`, or a refusal with the message of the order of the identifiers. -/
def categoryAfter (v : Value) (prev message : String) : Except String String :=
  match category v "" with
  | .ok id => if utf8 id ≤ utf8 prev then .error message else .ok id
  | .error _ => .error message

/-- The loop over the categories of a profile. -/
def profileCategories (lib : Libraries) : String → Nat → List Value → Except String Unit
  | _, _, [] => .ok ()
  | prev, i, v :: rest => do
      let path := "$.categories[" ++ toString i ++ "]"
      let c ← mapValue v path
      exact c ["id", "label"] ["description"] path
      let id ← categoryAfter (index c "id") prev (path ++ " IDs not ascending")
      profileText lib (index c "label") 1 128 (path ++ ".label")
      optionalText lib c "description" 1024 (path ++ ".description")
      profileCategories lib id (i + 1) rest

/-- The avatar of a profile, when there is one. -/
def profileAssets (lib : Libraries) (m : Record) : Except String Unit :=
  if has m "assets" then do
    let manifest ← assetManifestFromMap lib (index m "assets")
    match manifest with
    | [asset] => errorIf (asset.role != "avatar") "$.assets must contain exactly one avatar asset"
    | _ => .error "$.assets must contain exactly one avatar asset"
  else .ok ()

/-- The version of a profile; any refusal has the same message. -/
def profileVersion (v : Value) : Except String Int :=
  match intValue v "$.version" 1 with
  | .ok version =>
    if version != 1 && version != 2 then .error "$.version must equal 1 or 2" else .ok version
  | .error _ => .error "$.version must equal 1 or 2"

def validateSenderProfile (lib : Libraries) (m : Record) : Except String Unit := do
  let version ← profileVersion (index m "version")
  exact m senderProfileRequired
    (if version = 2 then ["description", "assets"] else ["description"]) "$"
  let signer ← did (index m "did") "$.did"
  let _ ← intValue (index m "revision") "$.revision" 1
  profileText lib (index m "display_name") 1 128 "$.display_name"
  optionalText lib m "description" 1024 "$.description"
  let cats ← arrayValue (index m "categories") "$.categories"
  errorIf (decide (cats.length > 100)) "too many categories"
  profileCategories lib "" 0 cats
  profileAssets lib m
  let _ ← intValue (index m "updated_at") "$.updated_at" 0
  keyID (index m "key_id") signer "hail-messaging" "$.key_id"

/-- The predecessor of a subscription grant. -/
def previousGrant (m : Record) (rev : Int) : Except String Unit :=
  if rev = 1 then
    errorIf (!interfaceEqual (index m "previous") .null) "$.previous must be null"
  else byteValue (index m "previous") 32 "$.previous"

/-- The loop over the categories of a scope. -/
def scopeCategories : String → List Value → Except String Unit
  | _, [] => .ok ()
  | prev, v :: rest => do
      let s ← categoryAfter v prev "scope categories not ascending"
      scopeCategories s rest

/-- The single selector of a scope. -/
def grantSelector (v : Value) : Except String Unit := do
  let sel ← mapValue v "$.scope[0]"
  let typ ← textValue (index sel "type") "$.scope[0].type"
  if typ = "categories" then do
    exact sel ["type", "values"] [] "$.scope[0]"
    match index sel "values" with
    | .array (first :: rest) => scopeCategories "" (first :: rest)
    | _ => .error "category scope empty"
  else .error "unknown scope selector"

/-- A scope has one selector; any refusal has the same message. -/
def grantScope (v : Value) : Except String Value :=
  match v with
  | .array [selector] => .ok selector
  | _ => .error "$.scope must have one selector"

/-- The status of a grant; any refusal has the same message. -/
def grantStatus (v : Value) : Except String Unit :=
  match v with
  | .text status => errorIf (!grantStatuses.contains status) "unknown grant status"
  | _ => .error "unknown grant status"

/-- The time of a revision, which is not before the grant's; any refusal has the same message. -/
def updatedAt (v : Value) (issued : Int) : Except String Unit :=
  match intValue v "$.updated_at" 0 with
  | .ok updated => errorIf (decide (updated < issued)) "$.updated_at precedes issued_at"
  | .error _ => .error "$.updated_at precedes issued_at"

def grantConsent (oracle : DomainOracle) (v : Value) : Except String Unit := do
  let c ← mapValue v "$.consent_context"
  exact c consentRequired [] "$.consent_context"
  hailAddress oracle (index c "grantee_address") "$.consent_context.grantee_address"
  digest (index c "address_binding_hash") "$.consent_context.address_binding_hash"
  digest (index c "sender_profile_hash") "$.consent_context.sender_profile_hash"

/-- A time that may be null. -/
def expiresAt (v : Value) : Except String Unit :=
  if !interfaceEqual v .null then do
    let _ ← intValue v "$.expires_at" 0
    .ok ()
  else .ok ()

def validateGrant (oracle : DomainOracle) (m : Record) : Except String Unit := do
  exact m grantRequired [] "$"
  uuid (index m "grant_id") "$.grant_id"
  let rev ← intValue (index m "revision") "$.revision" 1
  previousGrant m rev
  let signer ← did (index m "grantor") "$.grantor"
  let _ ← did (index m "grantee") "$.grantee"
  let selector ← grantScope (index m "scope")
  grantSelector selector
  grantStatus (index m "status")
  let issued ← intValue (index m "issued_at") "$.issued_at" 0
  updatedAt (index m "updated_at") issued
  expiresAt (index m "expires_at")
  grantConsent oracle (index m "consent_context")
  keyID (index m "key_id") signer "hail-identity" "$.key_id"

end Go

end HailProto.Codec
