import HailProto.Core.Table
import HailProto.Codec.Assets
import HailProto.Codec.Attachments

/-!
# Body validators in two languages

`validateSpt1Body`, `validateSpt2Body` and `validateSpt3Body` of `validation.ts` and of
`payload.go`. A body has a header and blocks; a block of the first profile is plain text, one of
the second has links, marks, lists and calls to action, and the third profile takes image blocks
out of its list and has the rest checked as a body of the second.
-/

namespace HailProto.Codec

open Cbor (Value asBytes)

/-- The marks that are no links. -/
def decorators : List String := ["strong", "em", "code"]

def blockStyles : List String := ["normal", "h1", "h2", "h3", "blockquote", "caption", "cta"]

def alignments : List String := ["left", "center", "right"]

def listItems : List String := ["bullet", "number"]

/-- `^[A-Za-z0-9_-]{1,64}$`. -/
def markKeyPattern (s : String) : Bool :=
  decide (1 ≤ s.toList.length) && decide (s.toList.length ≤ 64) &&
    s.toList.all fun c => isAlnum c.toNat || decide ('A' ≤ c) && decide (c ≤ 'Z') || c == '-' ||
      c == '_'

/-- Blank characters of a call to action. -/
def isBlank (c : Char) : Bool := c == ' ' || c == '\t' || c == '\r' || c == '\n'

def isLineBreak (c : Char) : Bool := c == '\r' || c == '\n'

def spt3Body (blocks : List Value) : Record :=
  [(.text "version", .int 1), (.text "profile", .text "spt-2"), (.text "blocks", .array blocks)]

/-- What the loop over the blocks counts: the assets in use, the images and their pixels. -/
structure ImageTotals where
  used : List String
  imageCount : Nat
  pixels : Int

section Loops

variable {ε α σ : Type}

/-- Check the entries in order, each with its position. -/
def forEach (check : Nat → α → Except ε Unit) : Nat → List α → Except ε Unit
  | _, [] => .ok ()
  | position, x :: xs => do
      check position x
      forEach check (position + 1) xs

/-- Take the entries that change the state out of a list, and keep the others. -/
def filterEntries (take : Nat → σ → α → Except ε (Option σ)) :
    Nat → σ → List α → Except ε (σ × List α)
  | _, state, [] => .ok (state, [])
  | position, state, x :: xs => do
      match ← take position state x with
      | some state => filterEntries take (position + 1) state xs
      | none => do
          let (state, kept) ← filterEntries take (position + 1) state xs
          .ok (state, x :: kept)

/-- Read one key from each entry, given the keys of the entries before it. -/
def collectKeys (read : List String → Nat → α → Except ε String) :
    List String → Nat → List α → Except ε (List String)
  | keys, _, [] => .ok keys
  | keys, position, x :: xs => do
      let key ← read keys position x
      collectKeys read (keys ++ [key]) (position + 1) xs

end Loops

namespace TypeScript

/-- `names.includes(value as string)`. -/
def includes (names : List String) : Option Value → Bool
  | some (.text s) => names.contains s
  | _ => false

/-- `value as string` of a member that was found to be text. -/
def asString : Option Value → String
  | some (.text s) => s
  | _ => ""

/-- `value as number` of a member that was found to be an integer. -/
def asNumber : Option Value → Int
  | some (.int n) => n
  | _ => 0

/-- `value as HailRecord[]` of a member that was found to be an array of maps. -/
def asRecords : Option Value → List Record
  | some (.array entries) => entries.filterMap fun
      | .map r => some r
      | _ => none
  | _ => []

def startsWithHttps (href : String) : Bool := "https://".toList.isPrefixOf href.toList

/-- The last condition on a link, on the URL that was parsed from it. -/
def plainHttps (href : String) (url : JsUrl) : Bool :=
  startsWithHttps href && url.protocol == "https:" && url.username == "" && url.password == ""

/-- The address passes both conditions on a link. -/
def linkHref (lib : Libraries) (href : String) : Bool :=
  match lib.newUrl href with
  | some url => plainHttps href url
  | none => false

/-- The two conditions on a link, each with its own error. -/
def checkHref (lib : Libraries) (href path : String) : Except HailCodecError Unit :=
  match lib.newUrl href with
  | none => fail "must be an absolute HTTPS URL" path
  | some url => failIf (!plainHttps href url) "must be an HTTPS URL without credentials" path

/-- A check of a member that may be absent. -/
def optional (value : Option Value) (check : Option Value → Except HailCodecError Unit) :
    Except HailCodecError Unit :=
  if value.isSome then check value else .ok ()

/-- The checks of a body before its blocks. -/
def bodyHeader (lib : Libraries) (required : List String) (profile : String) (payload : Record) :
    Except HailCodecError Unit := do
  exactKeys payload required ["attachments"] "$"
  optional (payload.get "attachments") (validateAttachments lib)
  failIf (!strictEqual (payload.get "version") (some (.int 1))) "must equal integer 1" "$.version"
  failIf (!strictEqual (payload.get "profile") (some (.text profile))) ("must equal " ++ profile)
    "$.profile"

def spt1Span (path : String) (child : Value) : Except HailCodecError Unit := do
  let span ← record (some child) path
  exactKeys span ["_type", "text", "marks"] [] path
  failIf (!strictEqual (span.get "_type") (some (.text "span"))) "must equal span"
    (path ++ "._type")
  let _ ← text (span.get "text") (path ++ ".text")
  let marks ← array (span.get "marks") (path ++ ".marks")
  failIf (!marks.isEmpty) "must be empty in spt-1" (path ++ ".marks")

def spt1Block (blockIndex : Nat) (entry : Value) : Except HailCodecError Unit := do
  let path := "$.blocks[" ++ toString blockIndex ++ "]"
  let block ← record (some entry) path
  exactKeys block ["_type", "style", "children", "markDefs"] [] path
  failIf (!strictEqual (block.get "_type") (some (.text "block")) ||
    !strictEqual (block.get "style") (some (.text "normal"))) "unsupported text block" path
  let markDefs ← array (block.get "markDefs") (path ++ ".markDefs")
  failIf (!markDefs.isEmpty) "must be empty in spt-1" (path ++ ".markDefs")
  let children ← array (block.get "children") (path ++ ".children")
  failIf children.isEmpty "must contain at least one span" (path ++ ".children")
  forEach (fun childIndex => spt1Span (path ++ ".children[" ++ toString childIndex ++ "]")) 0
    children

def validateSpt1Body (lib : Libraries) (payload : Record) : Except HailCodecError Unit := do
  bodyHeader lib ["version", "profile", "blocks"] "spt-1" payload
  let blocks ← array (payload.get "blocks") "$.blocks"
  forEach spt1Block 0 blocks

/-- One mark definition, given the keys of those before it. -/
def markDefinition (lib : Libraries) (definitionKeys : List String) (path : String)
    (entry : Value) : Except HailCodecError String := do
  let definition ← record (some entry) path
  exactKeys definition ["_key", "_type", "href"] ["title"] path
  let key ← text (definition.get "_key") (path ++ "._key")
  failIf (!markKeyPattern key || decorators.contains key || definitionKeys.contains key)
    "invalid or duplicate mark key" (path ++ "._key")
  failIf (!strictEqual (definition.get "_type") (some (.text "spt.link")))
    "unsupported mark definition" (path ++ "._type")
  let href ← text (definition.get "href") (path ++ ".href")
  checkHref lib href (path ++ ".href")
  optional (definition.get "title") fun title => do
    let _ ← text title (path ++ ".title")
    .ok ()
  .ok key

/-- The loop over the mark definitions. -/
def markDefinitions (lib : Libraries) (path : String) (entries : List Value) :
    Except HailCodecError (List String) :=
  collectKeys (fun definitionKeys position =>
    markDefinition lib definitionKeys (path ++ ".markDefs[" ++ toString position ++ "]")) [] 0
    entries

/-- `map` over the marks. -/
def markTexts (path : String) : Nat → List Value → Except HailCodecError (List String)
  | _, [] => .ok []
  | position, mark :: rest => do
      let mark ← text (some mark) (path ++ ".marks[" ++ toString position ++ "]")
      let rest ← markTexts path (position + 1) rest
      .ok (mark :: rest)

def spt2Span (definitionKeys : List String) (path : String) (child : Value) :
    Except HailCodecError Unit := do
  let span ← record (some child) path
  exactKeys span ["_type", "text", "marks"] [] path
  failIf (!strictEqual (span.get "_type") (some (.text "span"))) "must equal span"
    (path ++ "._type")
  let _ ← text (span.get "text") (path ++ ".text")
  let entries ← array (span.get "marks") (path ++ ".marks")
  let marks ← markTexts path 0 entries
  failIf (marks.dedup.length != marks.length ||
    marks.any (fun mark => !decorators.contains mark && !definitionKeys.contains mark) ||
    decide ((marks.filter definitionKeys.contains).length > 1))
    "invalid, duplicate, or conflicting span mark" (path ++ ".marks")

/-- The text of a span, in the call to action. -/
def spanText (path : String) (entry : Value) : Except HailCodecError String := do
  let span ← record (some entry) path
  .ok (asString (span.get "text"))

/-- The only mark of a span is this key. -/
def onlyMark (key : Option Value) (path : String) (entry : Value) :
    Except HailCodecError Unit := do
  let span ← record (some entry) path
  match span.get "marks" with
  | some (.array [mark]) =>
    failIf (!strictEqual (some mark) key)
      "every call-to-action span must use its single link, without decorators" path
  | _ => fail "every call-to-action span must use its single link, without decorators" path

/-- The label: the texts of the spans, joined. -/
def label (path : String) : List Value → Except HailCodecError String
  | [] => .ok ""
  | child :: children => do
      let first ← spanText path child
      let rest ← label path children
      .ok (first ++ rest)

def callToAction (path : String) (block : Record) (children : List Value) :
    Except HailCodecError Unit := do
  let defs ← array (block.get "markDefs") (path ++ ".markDefs")
  failIf ((block.get "listItem").isSome || (block.get "level").isSome || defs.length != 1)
    "call to action requires one link and cannot be a list" path
  let link ← record defs.head? path
  let label ← label path children
  failIf ((label.toList.filter (!isBlank ·)).isEmpty || label.toList.any isLineBreak ||
    decide ((asBytes label).length > 128))
    "call-to-action label must be one line of 1–128 UTF-8 bytes" path
  forEach (fun _ => onlyMark (link.get "_key") path) 0 children
  failIf (decide ((asBytes (asString (link.get "href"))).length > 2048))
    "call-to-action URL exceeds 2048 UTF-8 bytes" path

def spt2Block (lib : Libraries) (blockIndex : Nat) (entry : Value) :
    Except HailCodecError Unit := do
  let path := "$.blocks[" ++ toString blockIndex ++ "]"
  let block ← record (some entry) path
  exactKeys block ["_type", "style", "children", "markDefs"] ["listItem", "level", "alignment"]
    path
  failIf (!strictEqual (block.get "_type") (some (.text "block")) ||
    !includes blockStyles (block.get "style")) "unsupported text block" path
  failIf ((block.get "alignment").isSome && !includes alignments (block.get "alignment"))
    "unsupported text alignment" (path ++ ".alignment")
  failIf ((block.get "listItem").isSome && !includes listItems (block.get "listItem"))
    "unsupported list type" (path ++ ".listItem")
  optional (block.get "level") fun level => do
    failIf (block.get "listItem").isNone "invalid list level" (path ++ ".level")
    let n ← integer level (path ++ ".level") 1
    failIf (!([1, 2, 3] : List Int).contains n) "invalid list level" (path ++ ".level")
  let markDefs ← array (block.get "markDefs") (path ++ ".markDefs")
  let definitionKeys ← markDefinitions lib path markDefs
  let children ← array (block.get "children") (path ++ ".children")
  failIf children.isEmpty "must contain at least one span" (path ++ ".children")
  forEach (fun childIndex => spt2Span definitionKeys
    (path ++ ".children[" ++ toString childIndex ++ "]")) 0 children
  if strictEqual (block.get "style") (some (.text "cta")) then callToAction path block children
  else .ok ()

def validateSpt2Body (lib : Libraries) (payload : Record) : Except HailCodecError Unit := do
  bodyHeader lib ["version", "profile", "blocks"] "spt-2" payload
  let blocks ← array (payload.get "blocks") "$.blocks"
  forEach (spt2Block lib) 0 blocks

/-- The callback on one block: an image is taken out of the list. -/
def imageBlock (lib : Libraries) (assets : List Record) (index : Nat) (totals : ImageTotals)
    (entry : Value) : Except HailCodecError (Option ImageTotals) := do
  let path := "$.blocks[" ++ toString index ++ "]"
  let block ← record (some entry) path
  if !strictEqual (block.get "_type") (some (.text "spt.image")) then .ok none
  else do
    failIf (decide (totals.imageCount + 1 > 8)) "at most eight image blocks are allowed" path
    exactKeys block ["_type", "asset", "alt"] ["caption"] path
    let id ← text (block.get "asset") (path ++ ".asset")
    match assets.find? fun asset => strictEqual (asset.get "id") (some (.text id)) with
    | none => fail "image must reference a bundled image, or a leading header" (path ++ ".asset")
    | some asset => do
        failIf (strictEqual (asset.get "role") (some (.text "header")) && index != 0)
          "image must reference a bundled image, or a leading header" (path ++ ".asset")
        profileText lib (block.get "alt") 1 1024 (path ++ ".alt")
        optional (block.get "caption") fun caption =>
          profileText lib caption 1 1024 (path ++ ".caption")
        .ok (some ⟨totals.used.insert id, totals.imageCount + 1, number (totals.pixels +
          number (asNumber (asset.get "width") * asNumber (asset.get "height")))⟩)

def validateSpt3Body (lib : Libraries) (payload : Record) : Except HailCodecError Unit := do
  bodyHeader lib ["version", "profile", "assets", "blocks"] "spt-3" payload
  validateAssetManifest lib (payload.get "assets")
  let manifest ← record (payload.get "assets") "$.assets"
  let assets := asRecords (manifest.get "assets")
  failIf (assets.any fun asset => !includes ["header", "image"] (asset.get "role"))
    "message assets must have header or image role" "$.assets"
  let blocks ← array (payload.get "blocks") "$.blocks"
  let (totals, textBlocks) ← filterEntries (imageBlock lib assets) 0 ⟨[], 0, 0⟩ blocks
  failIf (totals.imageCount == 0 || totals.used.length != assets.length)
    "all assets must be referenced by image blocks" "$.assets"
  failIf (decide (totals.pixels > 8000000)) "image blocks exceed eight million decoded pixels"
    "$.blocks"
  validateSpt2Body lib (spt3Body textBlocks)

end TypeScript

namespace Go

/-- `textValue` of an entry whose type was checked before. -/
def textOf (v : Value) : String :=
  match textValue v "" with
  | .ok s => s
  | .error _ => ""

def arrayOf (v : Value) : List Value :=
  match arrayValue v "" with
  | .ok values => values
  | .error _ => []

def mapOf (v : Value) : Record :=
  match mapValue v "" with
  | .ok m => m
  | .error _ => []

/-- The version; any refusal has the same message. -/
def versionOne (v : Value) : Except String Unit :=
  match intValue v "$.version" 0 with
  | .ok n => errorIf (n != 1) "$.version must equal 1"
  | .error _ => .error "$.version must equal 1"

/-- The checks of a body before its blocks. -/
def bodyHeader (lib : Libraries) (required : List String) (profile : String) (m : Record) :
    Except String Unit := do
  validateAttachments lib m
  exact m required ["attachments"] "$"
  versionOne (index m "version")
  expectText m "profile" profile "$.profile"

/-- An array that is empty; any other value has the same refusal. -/
def emptyArray (v : Value) (message : String) : Except String Unit :=
  match v with
  | .array [] => .ok ()
  | _ => .error message

/-- The children of a block. -/
def blockChildren (block : Record) : Except String (List Value) :=
  match index block "children" with
  | .array (child :: children) => .ok (child :: children)
  | _ => .error "block children must not be empty"

def spt1Span (path : String) (child : Value) : Except String Unit := do
  let span ← mapValue child path
  exact span ["_type", "text", "marks"] [] path
  expectText span "_type" "span" (path ++ "._type")
  let _ ← textValue (index span "text") (path ++ ".text")
  emptyArray (index span "marks") "spt-1 marks must be empty"

def spt1Block (i : Nat) (value : Value) : Except String Unit := do
  let path := "$.blocks[" ++ toString i ++ "]"
  let block ← mapValue value path
  exact block ["_type", "style", "children", "markDefs"] [] path
  expectText block "_type" "block" (path ++ "._type")
  expectText block "style" "normal" (path ++ ".style")
  emptyArray (index block "markDefs") "spt-1 markDefs must be empty"
  let children ← blockChildren block
  forEach (fun j => spt1Span (path ++ ".children[" ++ toString j ++ "]")) 0 children

def validateSpt1Body (lib : Libraries) (m : Record) : Except String Unit := do
  bodyHeader lib ["version", "profile", "blocks"] "spt-1" m
  let blocks ← arrayValue (index m "blocks") "$.blocks"
  forEach spt1Block 0 blocks

/-- A text with some property; any other value has the same refusal. -/
def textSuch (v : Value) (property : String → Bool) (message : String) : Except String String :=
  match v with
  | .text s => if property s then .ok s else .error message
  | _ => .error message

/-- A check of a member that may be absent. -/
def optional (m : Record) (k : String) (check : Value → Except String Unit) :
    Except String Unit :=
  if has m k then check (index m k) else .ok ()

/-- The conditions on a link and the URL that was parsed from it. -/
def linkHref (lib : Libraries) (href : String) : Bool :=
  match lib.urlParse href with
  | some parsed => parsed.scheme == "https" && parsed.host != "" && parsed.user.isNone
  | none => false

/-- One mark definition, given the keys of those before it. -/
def markDefinition (lib : Libraries) (definitionKeys : List String) (path : String)
    (value : Value) : Except String String := do
  let definition ← mapValue value path
  exact definition ["_key", "_type", "href"] ["title"] path
  let key ← textSuch (index definition "_key")
    (fun key => markKeyPattern key && !decorators.contains key && !definitionKeys.contains key)
    "invalid or duplicate mark key"
  expectText definition "_type" "spt.link" (path ++ "._type")
  let _ ← textSuch (index definition "href") (linkHref lib)
    "link must be an absolute HTTPS URL without credentials"
  optional definition "title" fun title => do
    let _ ← textValue title (path ++ ".title")
    .ok ()
  .ok key

/-- The loop over the mark definitions. -/
def markDefinitions (lib : Libraries) (path : String) (values : List Value) :
    Except String (List String) :=
  collectKeys (fun definitionKeys j =>
    markDefinition lib definitionKeys (path ++ ".markDefs[" ++ toString j ++ "]")) [] 0 values

/-- The loop over the marks, with those seen so far, to the number of annotations. -/
def spanMarks (definitionKeys : List String) :
    List String → Nat → List Value → Except String Nat
  | _, annotations, [] => .ok annotations
  | seen, annotations, .text mark :: marks =>
    if seen.contains mark || !decorators.contains mark && !definitionKeys.contains mark then
      .error "invalid or duplicate span mark"
    else spanMarks definitionKeys (mark :: seen)
      (if definitionKeys.contains mark then annotations + 1 else annotations) marks
  | _, _, _ :: _ => .error "invalid or duplicate span mark"

def spt2Span (definitionKeys : List String) (path : String) (child : Value) :
    Except String Unit := do
  let span ← mapValue child path
  exact span ["_type", "text", "marks"] [] path
  expectText span "_type" "span" (path ++ "._type")
  let _ ← textValue (index span "text") (path ++ ".text")
  let marks ← arrayValue (index span "marks") (path ++ ".marks")
  let annotations ← spanMarks definitionKeys [] 0 marks
  errorIf (decide (annotations > 1)) "span has conflicting annotations"

/-- The loop over the spans of a call to action, with the label so far. -/
def ctaSpans (key : Value) : String → List Value → Except String String
  | label, [] => .ok label
  | label, child :: children =>
    match arrayOf (index (mapOf child) "marks") with
    | [mark] =>
      if interfaceEqual mark key then
        ctaSpans key (label ++ textOf (index (mapOf child) "text")) children
      else .error "every call-to-action span must use its single link, without decorators"
    | _ => .error "every call-to-action span must use its single link, without decorators"

/-- `strings.Trim(label, " \t\r\n") == ""`. -/
def trimsToEmpty (label : String) : Bool :=
  ((label.toList.dropWhile isBlank).reverse.dropWhile isBlank).isEmpty

def callToAction (b : Record) (defs children : List Value) : Except String Unit := do
  errorIf (has b "listItem" || has b "level" || defs.length != 1)
    "call to action requires one link and cannot be a list"
  let definition := mapOf (defs.headD .null)
  let label ← ctaSpans (index definition "_key") "" children
  errorIf (trimsToEmpty label || label.toList.any isLineBreak ||
    decide ((asBytes label).length > 128)) "invalid call-to-action label"
  errorIf (decide ((asBytes (textOf (index definition "href"))).length > 2048))
    "call-to-action URL exceeds 2048 UTF-8 bytes"

/-- The level of a list; any refusal has the same message. -/
def listLevel (b : Record) (v : Value) (path : String) : Except String Unit :=
  match intValue v (path ++ ".level") 1 with
  | .ok level => errorIf (!has b "listItem" || decide (level > 3)) "invalid list level"
  | .error _ => .error "invalid list level"

def spt2Block (lib : Libraries) (i : Nat) (value : Value) : Except String Unit := do
  let path := "$.blocks[" ++ toString i ++ "]"
  let b ← mapValue value path
  exact b ["_type", "style", "children", "markDefs"] ["listItem", "level", "alignment"] path
  expectText b "_type" "block" (path ++ "._type")
  let style ← textSuch (index b "style") blockStyles.contains "unsupported text block style"
  optional b "alignment" fun alignment => do
    let _ ← textSuch alignment alignments.contains "unsupported text alignment"
    .ok ()
  let defs ← arrayValue (index b "markDefs") (path ++ ".markDefs")
  let definitionKeys ← markDefinitions lib path defs
  optional b "listItem" fun listItem => do
    let _ ← textSuch listItem listItems.contains "unsupported list type"
    .ok ()
  optional b "level" fun level => listLevel b level path
  let children ← blockChildren b
  forEach (fun j => spt2Span definitionKeys (path ++ ".children[" ++ toString j ++ "]")) 0 children
  if style = "cta" then callToAction b defs children else .ok ()

def validateSpt2Body (lib : Libraries) (m : Record) : Except String Unit := do
  bodyHeader lib ["version", "profile", "blocks"] "spt-2" m
  let blocks ← arrayValue (index m "blocks") "$.blocks"
  forEach (spt2Block lib) 0 blocks

/-- The assets by their identifiers. -/
def assetMap : Table String BundledImageAsset → List BundledImageAsset →
    Except String (Table String BundledImageAsset)
  | assets, [] => .ok assets
  | assets, asset :: rest =>
    if asset.role != "header" && asset.role != "image" then .error "invalid message asset role"
    else assetMap (assets.insert asset.id asset) rest

/-- One round of the loop over the blocks: an image is taken out of the list. -/
def imageBlock (lib : Libraries) (assets : Table String BundledImageAsset) (position : Nat)
    (totals : ImageTotals) (entry : Value) : Except String (Option ImageTotals) := do
  let path := "$.blocks[" ++ toString position ++ "]"
  let block ← mapValue entry path
  if !interfaceEqual (index block "_type") (.text "spt.image") then .ok none
  else do
    errorIf (decide (totals.imageCount + 1 > 8)) "at most eight image blocks are allowed"
    exact block ["_type", "asset", "alt"] ["caption"] path
    match index block "asset" with
    | .text id =>
      match assets.find id with
      | some asset => do
          errorIf (asset.role == "header" && position != 0)
            "image must reference a bundled image, or a leading header"
          profileText lib (index block "alt") 1 1024 (path ++ ".alt")
          optional block "caption" fun caption =>
            profileText lib caption 1 1024 (path ++ ".caption")
          .ok (some ⟨totals.used.insert id, totals.imageCount + 1,
            int64 (totals.pixels + int64 (asset.width * asset.height))⟩)
      | none => .error "image must reference a bundled image, or a leading header"
    | _ => .error "image must reference a bundled image, or a leading header"

def validateSpt3Body (lib : Libraries) (m : Record) : Except String Unit := do
  bodyHeader lib ["version", "profile", "assets", "blocks"] "spt-3" m
  let manifest ← assetManifestFromMap lib (index m "assets")
  let assets ← assetMap ∅ manifest
  let blocks ← arrayValue (index m "blocks") "$.blocks"
  let (totals, textBlocks) ← filterEntries (imageBlock lib assets) 0 ⟨[], 0, 0⟩ blocks
  errorIf (totals.imageCount == 0 || totals.used.length != assets.rows.length)
    "all assets must be referenced by image blocks"
  errorIf (decide (totals.pixels > 8000000)) "image blocks exceed eight million decoded pixels"
  validateSpt2Body lib (spt3Body textBlocks)

end Go

end HailProto.Codec
