import HailProto.Codec.Agreement
import HailProto.Codec.Diagnostic

/-!
# The renderer of message bodies

`rendering.ts` of the content builder: a second validator, over the diagnostic JSON of a body,
that turns it into the blocks a message shows. A leading image of the header role is shown apart
from the blocks; every other entry becomes one block.
-/

namespace HailProto.Content

open Cbor (Value asBytes)
open Codec (Record Libraries JsUrl PayloadType alphabet)
open Codec.TypeScript (strictEqual includes)

/-- The styles of a text block. -/
inductive MessageStyle
  | normal
  | h1
  | h2
  | h3
  | blockquote
  | caption
  | cta
  deriving DecidableEq

def MessageStyle.all : List MessageStyle := [.normal, .h1, .h2, .h3, .blockquote, .caption, .cta]

def MessageStyle.name : MessageStyle → String
  | .normal => "normal"
  | .h1 => "h1"
  | .h2 => "h2"
  | .h3 => "h3"
  | .blockquote => "blockquote"
  | .caption => "caption"
  | .cta => "cta"

inductive Alignment
  | left
  | center
  | right
  deriving DecidableEq

def Alignment.all : List Alignment := [.left, .center, .right]

def Alignment.name : Alignment → String
  | .left => "left"
  | .center => "center"
  | .right => "right"

inductive ListKind
  | bullet
  | number
  deriving DecidableEq

def ListKind.all : List ListKind := [.bullet, .number]

def ListKind.name : ListKind → String
  | .bullet => "bullet"
  | .number => "number"

structure MessageLink where
  href : String
  title : Option String
  hostname : String
  deriving DecidableEq

structure MessageImage where
  src : String
  alt : String
  caption : Option String
  width : Int
  height : Int
  deriving DecidableEq

structure MessageSpan where
  text : String
  strong : Bool
  emphasis : Bool
  code : Bool
  link : Option MessageLink
  deriving DecidableEq

structure MessageBlock where
  image : Option MessageImage
  style : MessageStyle
  alignment : Option Alignment
  listItem : Option ListKind
  level : Int
  spans : List MessageSpan
  deriving DecidableEq

/-- The result of `renderBody`. -/
structure RenderedBody where
  blocks : List MessageBlock
  header : Option MessageImage
  paragraphs : List String

/-- The libraries of the validators, and the host name of a parsed URL. -/
structure RendererLibraries extends Libraries where
  hostname : String → String

/-- The member of an enumeration with this name. -/
def named {α : Type} (all : List α) (name : α → String) (value : Option Value) : Option α :=
  all.find? fun a => strictEqual value (some (.text (name a)))

def object (value : Option Value) (label : String) : Except String Record :=
  match value with
  | some (.map entries) => .ok entries
  | some (.bytes b) => .ok (Codec.TypeScript.byteEntries b)
  | _ => .error ("Invalid " ++ label)

def text (value : Option Value) (label : String) : Except String String :=
  match value with
  | some (.text s) => .ok s
  | _ => .error ("Invalid " ++ label)

/-- A member that may be absent. -/
def optionalText (value : Option Value) (label : String) : Except String (Option String) :=
  match value with
  | none => .ok none
  | some _ => do
      let s ← text value label
      .ok (some s)

/-- `String(value)`. -/
def stringOf (value : Option Value) : Except String String :=
  match Codec.TypeScript.string value with
  | .ok s => .ok s
  | .error e => .error e.message

/-- `if (condition) throw new Error(message)`. -/
def throwIf (condition : Bool) (message : String) : Except String Unit :=
  if condition then .error message else .ok ()

section Images

/-- `array.find`, with a callback that can throw. -/
def findObject (test : Record → Bool) (label : String) :
    List Value → Except String (Option Record)
  | [] => .ok none
  | entry :: entries => do
      let o ← object (some entry) label
      if test o then .ok (some o) else findObject test label entries

/-- The characters of unpadded base64url in the alphabet of base64. -/
def standardLetter (c : Char) : Char := if c = '-' then '+' else if c = '_' then '/' else c

/-- The letters in the alphabet of base64, padded to a multiple of four. -/
def standardBase64 (data : List Char) : String :=
  String.ofList (data.map standardLetter ++
    List.replicate ((data.length + 3) / 4 * 4 - data.length) '=')

/-- The number of this member is within the bounds. -/
def isWithin (value : Option Value) (minimum maximum : Int) : Bool :=
  match value with
  | some (.int n) => decide (minimum ≤ n) && decide (n ≤ maximum)
  | _ => false

/-- The conditions on an asset, whose data has these letters. -/
def supportedAsset (asset : Record) (role : String) (data : List Char) : Bool :=
  ["header", "image"].contains role &&
    strictEqual (asset.get "media_type") (some (.text "image/png")) &&
    strictEqual (asset.get "loading") (some (.text "bundled")) &&
    (!data.isEmpty && data.all alphabet.contains) &&
    isWithin (asset.get "size") 1 196608 &&
    strictEqual (some (.int (data.length * 6 / 8 : Nat))) (asset.get "size") &&
    isWithin (asset.get "width") 1 2400 &&
    isWithin (asset.get "height") 1
      (if strictEqual (asset.get "role") (some (.text "image")) then 2400 else 1200) &&
    decide (number (Codec.TypeScript.asNumber (asset.get "width") *
      Codec.TypeScript.asNumber (asset.get "height")) ≤ 2000000)

/-- The assets of the manifest, in a body of the profile with images. -/
def imageAssets (body manifest : Record) : Except String (List Value) :=
  match manifest.get "assets" with
  | some (.array assets) => do
      throwIf (!strictEqual (body.get "profile") (some (.text "spt-3")) ||
        !strictEqual (manifest.get "version") (some (.int 1)) || decide (assets.length > 8))
        "Unsupported image body"
      .ok assets
  | _ => .error "Unsupported image body"

def imageFor (body : Record) (entry : Value) : Except String MessageImage := do
  let image ← object (some entry) "image block"
  let manifest ← object (body.get "assets") "asset manifest"
  let assets ← imageAssets body manifest
  let found ← findObject (fun a => strictEqual (a.get "id") (image.get "asset")) "asset" assets
  let asset ← object (found.map .map) "image asset"
  let data ← text (asset.get "data") "asset data"
  let role ← stringOf (asset.get "role")
  throwIf (!supportedAsset asset role data.toList) "Unsupported image asset"
  let alt ← text (image.get "alt") "image alt"
  let caption ← optionalText (image.get "caption") "image caption"
  .ok {
    src := "data:image/png;base64," ++ standardBase64 data.toList
    alt := alt
    caption := caption
    width := Codec.TypeScript.asNumber (asset.get "width")
    height := Codec.TypeScript.asNumber (asset.get "height") }

/-- The block that shows an image. -/
def imageBlock (image : MessageImage) : MessageBlock where
  image := some image
  style := .normal
  alignment := none
  listItem := none
  level := 1
  spans := []

end Images

section Texts

variable (lib : RendererLibraries)

/-- `definitions.get(key)`. -/
def definitionOf (definitions : List (String × MessageLink)) (key : String) : Option MessageLink :=
  (definitions.find? fun d => d.1 == key).map Prod.snd

/-- The address is one that a link may have. -/
def supportedUrl (url : JsUrl) : Bool :=
  url.protocol == "https:" && url.username == "" && url.password == ""

/-- The loop over the mark definitions. -/
def linkDefinitions :
    List (String × MessageLink) → List Value → Except String (List (String × MessageLink))
  | definitions, [] => .ok definitions
  | definitions, entry :: entries => do
      let definition ← object (some entry) "mark definition"
      let key ← text (definition.get "_key") "mark key"
      let href ← text (definition.get "href") "link URL"
      match lib.newUrl href with
      | none => .error "Invalid URL"
      | some url => do
          throwIf (!strictEqual (definition.get "_type") (some (.text "spt.link")) ||
            !supportedUrl url || (definitionOf definitions key).isSome) "Unsupported link"
          let title ← optionalText (definition.get "title") "link title"
          linkDefinitions (definitions ++ [(key, ⟨href, title, lib.hostname href⟩)]) entries

/-- One span, given the links of its block. -/
def renderSpan (definitions : List (String × MessageLink)) (entry : Value) :
    Except String MessageSpan := do
  let span ← object (some entry) "body span"
  match strictEqual (span.get "_type") (some (.text "span")), span.get "marks" with
  | true, some (.array entries) => do
      let marks ← entries.mapM fun mark => text (some mark) "span mark"
      let links := marks.filterMap (definitionOf definitions)
      throwIf (marks.dedup.length != marks.length || decide (links.length > 1) ||
        marks.any fun mark => !Codec.decorators.contains mark &&
          (definitionOf definitions mark).isNone) "Unsupported span marks"
      let spanText ← text (span.get "text") "body text"
      .ok {
        text := spanText
        strong := marks.contains "strong"
        emphasis := marks.contains "em"
        code := marks.contains "code"
        link := links.head? }
  | _, _ => .error "Unsupported body span"

/-- The texts of the spans, joined. -/
def plain (spans : List MessageSpan) : String := (spans.map MessageSpan.text).foldr (· ++ ·) ""

/-- The conditions on a call to action. -/
def unsupportedAction (listItem : Option ListKind) (definitions : List (String × MessageLink))
    (spans : List MessageSpan) : Bool :=
  listItem.isSome || definitions.length != 1 ||
    spans.any (fun span => span.link.isNone || span.strong || span.emphasis || span.code) ||
    ((plain spans).toList.filter (!Codec.isBlank ·)).isEmpty ||
    (plain spans).toList.any Codec.isLineBreak || decide ((asBytes (plain spans)).length > 128) ||
    decide ((asBytes ((spans.head?.bind MessageSpan.link).elim "" MessageLink.href)).length > 2048)

/-- The list a block belongs to. -/
def listItemOf (value : Option Value) : Except String (Option ListKind) :=
  match value with
  | none => .ok none
  | some .null => .ok none
  | some v =>
    match named ListKind.all ListKind.name (some v) with
    | some kind => .ok (some kind)
    | none => .error "Unsupported list type"

/-- The level of a block in its list. -/
def levelOf (value : Option Value) (listItem : Option ListKind) : Except String Int :=
  match value with
  | none => .ok 1
  | some (.int n) =>
    if n < 1 ∨ n > 3 ∨ listItem.isNone then .error "Unsupported list level" else .ok n
  | some _ => .error "Unsupported list level"

/-- The alignment of a block, which is read through `String`. -/
def alignmentOf (value : Option Value) : Except String (Option Alignment) :=
  match value with
  | none => .ok none
  | some v => do
      let s ← stringOf (some v)
      match named Alignment.all Alignment.name (some (.text s)) with
      | some alignment => .ok (some alignment)
      | none => .error "Unsupported text alignment"

def renderText (body block : Record) : Except String MessageBlock :=
  match strictEqual (block.get "_type") (some (.text "block")),
    named MessageStyle.all MessageStyle.name (block.get "style"), block.get "children",
    block.get "markDefs" with
  | true, some style, some (.array children), some (.array markDefs) => do
      let definitions ← linkDefinitions lib [] markDefs
      let spans ← children.mapM (renderSpan definitions)
      let listItem ← listItemOf (block.get "listItem")
      let level ← levelOf (block.get "level") listItem
      let alignment ← alignmentOf (block.get "alignment")
      throwIf (style == .cta && unsupportedAction listItem definitions spans)
        "Unsupported call to action"
      throwIf (strictEqual (body.get "profile") (some (.text "spt-1")) &&
        (style != .normal || listItem.isSome || (block.get "level").isSome ||
          (block.get "alignment").isSome || !markDefs.isEmpty ||
          spans.any fun span => span.strong || span.emphasis || span.code || span.link.isSome))
        "Unsupported spt-1 extension"
      .ok {
        image := none
        style := style
        alignment := alignment
        listItem := listItem
        level := level
        spans := spans }
  | _, _, _, _ => .error "Unsupported message block"

/-- One entry of the body. -/
def renderEntry (body : Record) (entry : Value) : Except String MessageBlock := do
  let block ← object (some entry) "body block"
  if strictEqual (block.get "_type") (some (.text "spt.image")) then do
    let image ← imageFor body (.map block)
    .ok (imageBlock image)
  else renderText lib body block

end Texts

section Bodies

/-- The first entry is an image that the manifest has as a header. -/
def isHeader (body : Record) (entry : Record) : Except String Bool :=
  if strictEqual (body.get "profile") (some (.text "spt-3")) &&
      strictEqual (entry.get "_type") (some (.text "spt.image")) then do
    let manifest ← object (body.get "assets") "asset manifest"
    match manifest.get "assets" with
    | some (.array assets) => do
        let found ← findObject (fun a => strictEqual (a.get "id") (entry.get "asset") &&
          strictEqual (a.get "role") (some (.text "header"))) "asset" assets
        .ok found.isSome
    | _ => .ok false
  else .ok false

/-- The leading header, if there is one, and the entries after it. -/
def splitHeader (body : Record) (entries : List Value) :
    Except String (Option MessageImage × List Value) :=
  match entries with
  | .map first :: rest => do
      let header ← isHeader body first
      if header then do
        let image ← imageFor body (.map first)
        .ok (some image, rest)
      else .ok (none, entries)
  | _ => .ok (none, entries)

def bodyProfiles : List String := ["spt-1", "spt-2", "spt-3"]

def renderBody (lib : RendererLibraries) (value : Value) : Except String RenderedBody := do
  let body ← object (some value) "message body"
  match strictEqual (body.get "version") (some (.int 1)), includes bodyProfiles (body.get "profile"),
    body.get "blocks" with
  | true, true, some (.array all) => do
      let (header, entries) ← splitHeader body all
      let blocks ← entries.mapM (renderEntry lib body)
      .ok {
        blocks := blocks
        header := header
        paragraphs := (blocks.filter fun b => b.image.isNone).map fun b => plain b.spans }
  | _, _, _ => .error "Unsupported message body"

end Bodies

end HailProto.Content
