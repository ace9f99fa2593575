import HailProto.Core.Numbers
import HailProto.Codec.HailValue
import HailProto.Codec.Libraries
import HailProto.Codec.Png

/-!
# Asset manifests in two languages

`validateAssetManifest` of `validation.ts`, which checks the records as they are, and
`assetManifestFromMap` of `payload.go`, which first reads the whole manifest into structures and
then checks those with `ValidateAssetManifest` of `assets.go`. The two are compared through the
structures: `ReadsAsset` says which structure a record reads as and `AssetValid` what a structure
must satisfy.
-/

namespace HailProto.Codec

open Cbor (Value)

/-- `BundledImageAsset`. -/
structure BundledImageAsset where
  id : String
  role : String
  mediaType : String
  loading : String
  size : Int
  algorithm : String
  digest : List UInt8
  width : Int
  height : Int
  data : List UInt8

/-- The bounds of an image by its role: bytes, width, height and pixels. -/
structure ImageBounds where
  bytes : Int
  width : Int
  height : Int
  pixels : Int

def assetKeys : List String :=
  ["id", "role", "media_type", "loading", "size", "digest", "width", "height", "data"]

def assetRoles : List String := ["avatar", "header", "image"]

/-- `^[a-z][a-z0-9-]{0,63}$`. -/
def assetIdPattern (s : String) : Bool :=
  match s.toList with
  | [] => false
  | c :: cs => decide ('a' ≤ c) && decide (c ≤ 'z') && decide (cs.length ≤ 63) &&
      cs.all fun c => isAlnum c.toNat || c == '-'

namespace TypeScript

def maximum (role : String) : ImageBounds :=
  if role = "avatar" then ⟨32768, 512, 512, 262144⟩
  else ⟨196608, 2400, if role = "image" then 2400 else 1200, 2000000⟩

/-- `asset.data instanceof Uint8Array`. -/
def byteString (value : Option Value) (path : String) : Except HailCodecError (List UInt8) :=
  match value with
  | some (.bytes data) => .ok data
  | _ => fail "must be a byte string" path

/-- One asset, given the identifiers and roles of those before it. -/
def assetEntry (lib : Libraries) (ids roles : List String) (path : String) (entry : Value) :
    Except HailCodecError (String × String) := do
  let asset ← record (some entry) path
  exactKeys asset assetKeys [] path
  let id ← text (asset.get "id") (path ++ ".id")
  let role ← text (asset.get "role") (path ++ ".role")
  failIf (!assetIdPattern id || ids.contains id) "must be a unique canonical asset ID"
    (path ++ ".id")
  failIf (!assetRoles.contains role || role != "image" && roles.contains role)
    "must be a unique supported asset role" (path ++ ".role")
  failIf (!strictEqual (asset.get "media_type") (some (.text "image/png")))
    "must equal image/png" (path ++ ".media_type")
  failIf (!strictEqual (asset.get "loading") (some (.text "bundled")))
    "must equal bundled" (path ++ ".loading")
  let data ← byteString (asset.get "data") (path ++ ".data")
  let size ← integer (asset.get "size") (path ++ ".size") 1
  failIf (size != data.length || decide (size > (maximum role).bytes))
    "does not match the bounded asset bytes" (path ++ ".size")
  digest (asset.get "digest") (path ++ ".digest")
  let digestRecord ← record (asset.get "digest") (path ++ ".digest")
  let expected ← bytes (digestRecord.get "value") 32 (path ++ ".digest.value")
  failIf (!(lib.sha256.hash data).isPrefixOf expected) "does not match the asset bytes"
    (path ++ ".digest.value")
  let dimensions ← validatePngStructure data (path ++ ".data")
  let width ← integer (asset.get "width") (path ++ ".width") 1
  let height ← integer (asset.get "height") (path ++ ".height") 1
  failIf (width != dimensions.1 || height != dimensions.2 ||
    decide (width > (maximum role).width) || decide (height > (maximum role).height) ||
    decide (number (width * height) > (maximum role).pixels))
    "does not match bounded PNG dimensions" (path ++ ".width")
  .ok (id, role)

/-- The loop over the assets. -/
def assetEntries (lib : Libraries) :
    List String → List String → Nat → List Value → Except HailCodecError Unit
  | _, _, _, [] => .ok ()
  | ids, roles, position, entry :: entries => do
      let (id, role) ← assetEntry lib ids roles ("$.assets[" ++ toString position ++ "]") entry
      assetEntries lib (id :: ids) (role :: roles) (position + 1) entries

def validateAssetManifest (lib : Libraries) (value : Option Value) :
    Except HailCodecError Unit := do
  (match value with
  | some v => assertHailValue v defaultResourceLimits
  | none => .error ⟨"invalid-value", "unsupported Hail value", "$"⟩)
  let manifest ← record value "$"
  exactKeys manifest ["version", "assets"] [] "$"
  failIf (!strictEqual (manifest.get "version") (some (.int 1))) "must equal integer 1" "$.version"
  let assets ← array (manifest.get "assets") "$.assets"
  failIf (decide (assets.length < 1) || decide (assets.length > 8))
    "must contain one to eight assets" "$.assets"
  assetEntries lib [] [] 0 assets

end TypeScript

namespace Go

/-- The `for` loop that reads the assets. -/
def readAsset (path : String) (value : Value) : Except String BundledImageAsset := do
  let item ← mapValue value path
  exact item assetKeys [] path
  let id ← textValue (index item "id") (path ++ ".id")
  let role ← textValue (index item "role") (path ++ ".role")
  let mediaType ← textValue (index item "media_type") (path ++ ".media_type")
  let loading ← textValue (index item "loading") (path ++ ".loading")
  let size ← intValue (index item "size") (path ++ ".size") 1
  let width ← intValue (index item "width") (path ++ ".width") 1
  let height ← intValue (index item "height") (path ++ ".height") 1
  let digestMap ← mapValue (index item "digest") (path ++ ".digest")
  exact digestMap ["algorithm", "value"] [] (path ++ ".digest")
  let algorithm ← textValue (index digestMap "algorithm") (path ++ ".digest.algorithm")
  match index digestMap "value", index item "data" with
  | .bytes digest, .bytes data =>
    .ok ⟨id, role, mediaType, loading, size, algorithm, digest, width, height, data⟩
  | .bytes _, _ => .error "asset data must be bytes"
  | _, _ => .error "asset digest must be bytes"

def readAssets : Nat → List Value → Except String (List BundledImageAsset)
  | _, [] => .ok []
  | position, value :: entries => do
      let asset ← readAsset ("$.assets.assets[" ++ toString position ++ "]") value
      let assets ← readAssets (position + 1) entries
      .ok (asset :: assets)

def maximum (role : String) : ImageBounds :=
  if role = "avatar" then ⟨32768, 512, 512, 262144⟩
  else if role = "image" then ⟨196608, 2400, 2400, 2000000⟩
  else ⟨196608, 2400, 1200, 2000000⟩

/-- `fmt.Errorf("%s: %w", path, err)`. -/
def wrapError {α : Type} (path : String) : Except String α → Except String α
  | .ok a => .ok a
  | .error e => .error (path ++ ": " ++ e)

/-- One turn of the loop of `ValidateAssetManifest`. -/
def validateAsset (lib : Libraries) (ids roles : List String) (path : String)
    (asset : BundledImageAsset) : Except String Unit := do
  errorIf (!assetIdPattern asset.id || ids.contains asset.id)
    (path ++ " has invalid or duplicate id")
  errorIf (asset.role != "avatar" && asset.role != "header" && asset.role != "image" ||
    asset.role != "image" && roles.contains asset.role) (path ++ " has invalid or duplicate role")
  errorIf (asset.mediaType != "image/png" || asset.loading != "bundled")
    (path ++ " uses an unsupported image profile")
  errorIf (asset.size != asset.data.length || decide (asset.size < 1) ||
    decide (asset.size > (maximum asset.role).bytes) || asset.algorithm != "sha-256" ||
    asset.digest.length != 32) (path ++ " has invalid size or digest")
  errorIf (lib.sha256.hash asset.data != asset.digest) (path ++ " digest does not match data")
  let dimensions ← wrapError path (pngDimensions asset.data)
  let width : Int := dimensions.1
  let height : Int := dimensions.2
  errorIf (asset.width != width || asset.height != height ||
    decide (width > (maximum asset.role).width) || decide (height > (maximum asset.role).height) ||
    decide (int64 (width * height) > (maximum asset.role).pixels))
    (path ++ " has invalid PNG dimensions")

def validateAssets (lib : Libraries) :
    List String → List String → Nat → List BundledImageAsset → Except String Unit
  | _, _, _, [] => .ok ()
  | ids, roles, position, asset :: assets => do
      validateAsset lib ids roles ("assets[" ++ toString position ++ "]") asset
      validateAssets lib (asset.id :: ids) (asset.role :: roles) (position + 1) assets

/-- `ValidateAssetManifest`, on the version and the assets of a manifest. -/
def validateAssetManifest (lib : Libraries) (version : Int) (assets : List BundledImageAsset) :
    Except String Unit := do
  errorIf (version != 1 || decide (assets.length < 1) || decide (assets.length > 8))
    "invalid asset manifest header or count"
  validateAssets lib [] [] 0 assets

def assetManifestFromMap (lib : Libraries) (value : Value) :
    Except String (List BundledImageAsset) := do
  let m ← mapValue value "$.assets"
  exact m ["version", "assets"] [] "$.assets"
  let version ← intValue (index m "version") "$.assets.version" 0
  let entries ← arrayValue (index m "assets") "$.assets.assets"
  let assets ← readAssets 0 entries
  validateAssetManifest lib version assets
  .ok assets

end Go

/-- The record reads as this structure. -/
def ReadsAsset (v : Value) (asset : BundledImageAsset) : Prop :=
  ∃ r : Record, v = .map r ∧ Exact r assetKeys [] ∧ r.get "id" = some (.text asset.id) ∧
    r.get "role" = some (.text asset.role) ∧ r.get "media_type" = some (.text asset.mediaType) ∧
    r.get "loading" = some (.text asset.loading) ∧ IsInteger 1 (r.get "size") asset.size ∧
    IsInteger 1 (r.get "width") asset.width ∧ IsInteger 1 (r.get "height") asset.height ∧
    (∃ d : Record, r.get "digest" = some (.map d) ∧ Exact d ["algorithm", "value"] [] ∧
      d.get "algorithm" = some (.text asset.algorithm) ∧
      d.get "value" = some (.bytes asset.digest)) ∧
    r.get "data" = some (.bytes asset.data)

/-- The structure is a bounded image of its role, with the digest and the dimensions of its
data. -/
def AssetValid (lib : Libraries) (asset : BundledImageAsset) : Prop :=
  assetIdPattern asset.id = true ∧ asset.role ∈ assetRoles ∧
    asset.mediaType = "image/png" ∧ asset.loading = "bundled" ∧
    asset.size = asset.data.length ∧ asset.size ≤ (TypeScript.maximum asset.role).bytes ∧
    asset.algorithm = "sha-256" ∧ asset.digest = lib.sha256.hash asset.data ∧
    (∃ width height, Go.pngDimensions asset.data = .ok (width, height) ∧
      asset.width = width ∧ asset.height = height) ∧
    asset.width ≤ (TypeScript.maximum asset.role).width ∧
    asset.height ≤ (TypeScript.maximum asset.role).height ∧
    asset.width * asset.height ≤ (TypeScript.maximum asset.role).pixels

/-- No identifier comes twice, and no role but that of a plain image. -/
def UniqueAssets : List String → List String → List BundledImageAsset → Prop
  | _, _, [] => True
  | ids, roles, asset :: assets =>
    (asset.id ∉ ids ∧ (asset.role ≠ "image" → asset.role ∉ roles)) ∧
      UniqueAssets (asset.id :: ids) (asset.role :: roles) assets

/-- A manifest of these assets. -/
def ManifestSchema (lib : Libraries) (v : Option Value) (assets : List BundledImageAsset) : Prop :=
  ∃ m : Record, v = some (.map m) ∧ Exact m ["version", "assets"] [] ∧
    m.get "version" = some (.int 1) ∧
    ∃ entries, m.get "assets" = some (.array entries) ∧
      (1 ≤ entries.length ∧ entries.length ≤ 8) ∧ List.Forall₂ ReadsAsset entries assets ∧
      UniqueAssets [] [] assets ∧ ∀ asset ∈ assets, AssetValid lib asset

section Entries

variable {lib : Libraries} {ids roles : List String} {path : String} {entry : Value}

theorem TypeScript.byteString_eq_ok {v : Option Value} {b : List UInt8} :
    byteString v path = .ok b ↔ v = some (.bytes b) := by
  unfold byteString
  split <;> simp_all

theorem Go.wrapError_eq_ok {α : Type} {x : Except String α} {a : α} :
    wrapError path x = .ok a ↔ x = .ok a := by
  cases x <;> simp [wrapError]

theorem isPrefixOf_hash {lib : Libraries} {data expected : List UInt8}
    (h : expected.length = 32) :
    (lib.sha256.hash data).isPrefixOf expected = true ↔ expected = lib.sha256.hash data := by
  rw [List.isPrefixOf_iff_prefix]
  constructor
  · intro hstart
    exact (hstart.eq_of_length (by rw [lib.sha256.hash_length, h])).symm
  · rintro rfl
    exact List.prefix_refl _

theorem maximum_le (role : String) :
    (TypeScript.maximum role).width ≤ 2400 ∧ (TypeScript.maximum role).height ≤ 2400 := by
  unfold TypeScript.maximum
  split
  · decide
  · split <;> decide

theorem Go.maximum_eq (role : String) : Go.maximum role = TypeScript.maximum role := by
  unfold Go.maximum TypeScript.maximum
  split
  · rfl
  · split <;> rfl

/-- Dimensions within the bounds have a small product. -/
theorem pixels_lt {role : String} {width height : Int} (hw : 0 ≤ width) (hh : 0 ≤ height)
    (hwidth : width ≤ (TypeScript.maximum role).width)
    (hheight : height ≤ (TypeScript.maximum role).height) :
    0 ≤ width * height ∧ width * height ≤ 5760000 := by
  have hbounds := maximum_le role
  have hproduct : width * height ≤ 2400 * 2400 :=
    mul_le_mul (by omega) (by omega) hh (by decide)
  exact ⟨mul_nonneg hw hh, by omega⟩

theorem TypeScript.assetEntry_eq_ok {id role : String} :
    assetEntry lib ids roles path entry = .ok (id, role) ↔
      ∃ asset, ReadsAsset entry asset ∧ AssetValid lib asset ∧
        (asset.id ∉ ids ∧ (asset.role ≠ "image" → asset.role ∉ roles)) ∧
        asset.id = id ∧ asset.role = role := by
  simp only [assetEntry, bind_eq_ok, record_eq_ok, exactKeys_eq_ok, text_eq_ok, failIf_eq_ok,
    byteString_eq_ok, integer_eq_ok, digest_eq_ok, bytes_eq_ok, Bool.or_eq_false_iff,
    Bool.and_eq_false_iff, Bool.not_eq_false', List.contains_eq_mem, decide_eq_true_eq,
    bne_eq_false_iff_eq, strictEqual_text, decide_eq_false_iff_not, not_lt, Option.some.injEq,
    Except.ok.injEq, Prod.mk.injEq, exists_const]
  constructor
  · rintro ⟨r, rfl, hexact, id, hid, role, hrole, ⟨hpattern, hnew⟩, ⟨hknown, hunique⟩, hmedia,
      hloading, data, hdata, size, hsize, ⟨hlength, hbytes⟩, hdigest, d, hd, expected,
      ⟨hexpected, h32⟩, hhash, ⟨w, h⟩, hpng, width, hwidth, height, hheight,
      ⟨⟨⟨⟨rfl, rfl⟩, hw⟩, hh⟩, hpixels⟩, rfl, rfl⟩
    obtain ⟨d', hd', hdexact, halgorithm, _⟩ := hdigest
    rw [hd] at hd'
    cases hd'
    rw [isPrefixOf_hash h32] at hhash
    have hproduct := pixels_lt (by omega) (by omega) hw hh
    rw [number_of_le (by omega)] at hpixels
    refine ⟨⟨id, role, "image/png", "bundled", size, "sha-256", expected, w, h, data⟩,
      ⟨r, rfl, hexact, hid, hrole, hmedia, hloading, hsize, hwidth, hheight,
        ⟨d, hd, hdexact, halgorithm, hexpected⟩, hdata⟩,
      ⟨hpattern, hknown, rfl, rfl, hlength, hbytes, rfl, hhash, ⟨w, h, ?_, rfl, rfl⟩, hw, hh,
        hpixels⟩, ⟨hnew, fun hne => hunique.resolve_left hne⟩, rfl, rfl⟩
    exact (png_agree data _).ok_iff.1 hpng
  · rintro ⟨asset, ⟨r, rfl, hexact, hid, hrole, hmedia, hloading, hsize, hwidth, hheight,
      ⟨d, hd, hdexact, halgorithm, hexpected⟩, hdata⟩,
      ⟨hpattern, hknown, hpng, hbundled, hlength, hbytes, hsha, hhash,
        ⟨w, h, hdimensions, hwidthEq, hheightEq⟩, hw, hh, hpixels⟩, ⟨hnew, hunique⟩, rfl, rfl⟩
    have h32 : asset.digest.length = 32 := by rw [hhash, lib.sha256.hash_length]
    have hproduct := pixels_lt (by omega) (by omega) hw hh
    rw [hpng] at hmedia
    rw [hbundled] at hloading
    rw [hsha] at halgorithm
    refine ⟨r, rfl, hexact, asset.id, hid, asset.role, hrole, ⟨hpattern, hnew⟩, ⟨hknown, ?_⟩,
      hmedia, hloading, asset.data, hdata, asset.size, hsize, ⟨hlength, hbytes⟩,
      ⟨d, hd, hdexact, halgorithm, _, hexpected, h32⟩, d, hd, _, ⟨hexpected, h32⟩,
      (isPrefixOf_hash h32).2 hhash, ⟨w, h⟩, (png_agree asset.data _).ok_iff.2 hdimensions,
      asset.width, hwidth, asset.height, hheight,
      ⟨⟨⟨⟨hwidthEq, hheightEq⟩, hw⟩, hh⟩, ?_⟩, rfl, rfl⟩
    · rw [or_iff_not_imp_left]
      exact hunique
    · rw [number_of_le (by omega)]
      exact hpixels

theorem Go.readAsset_eq_ok {asset : BundledImageAsset} :
    readAsset path entry = .ok asset ↔ ReadsAsset entry asset := by
  simp only [readAsset, bind_eq_ok, mapValue_eq_ok, exact_eq_ok, textValue_eq_ok, index_eq_text,
    intValue_index_eq_ok zero_le_one, index_eq_map, exists_const]
  constructor
  · rintro ⟨r, rfl, hexact, id, hid, role, hrole, media, hmedia, loading, hloading, size, hsize,
      width, hwidth, height, hheight, d, hd, hdexact, algorithm, halgorithm, h⟩
    split at h
    · rename_i digest data hdigest hdata
      rw [index_eq_bytes] at hdigest hdata
      cases h
      exact ⟨r, rfl, hexact, hid, hrole, hmedia, hloading, hsize, hwidth, hheight,
        ⟨d, hd, hdexact, halgorithm, hdigest⟩, hdata⟩
    · cases h
    · cases h
  · rintro ⟨r, rfl, hexact, hid, hrole, hmedia, hloading, hsize, hwidth, hheight,
      ⟨d, hd, hdexact, halgorithm, hdigest⟩, hdata⟩
    refine ⟨r, rfl, hexact, _, hid, _, hrole, _, hmedia, _, hloading, _, hsize, _, hwidth, _,
      hheight, d, hd, hdexact, _, halgorithm, ?_⟩
    rw [index_eq_bytes.2 hdigest, index_eq_bytes.2 hdata]

theorem Go.validateAsset_eq_ok {asset : BundledImageAsset} {u : Unit}
    (hreads : ReadsAsset entry asset) :
    validateAsset lib ids roles path asset = .ok u ↔
      AssetValid lib asset ∧
        (asset.id ∉ ids ∧ (asset.role ≠ "image" → asset.role ∉ roles)) := by
  obtain ⟨r, _, _, _, _, _, _, hsize, hwidth, hheight, _⟩ := hreads
  simp only [validateAsset, bind_eq_ok, errorIf_eq_ok, Bool.or_eq_false_iff,
    Bool.and_eq_false_iff, Bool.not_eq_false', List.contains_eq_mem, bne_eq_false_iff_eq,
    decide_eq_false_iff_not, not_lt, exists_const, maximum_eq, wrapError_eq_ok]
  constructor
  · rintro ⟨⟨hpattern, hnew⟩, ⟨hknown, hunique⟩, ⟨hpng, hbundled⟩,
      ⟨⟨⟨⟨hlength, _⟩, hbytes⟩, hsha⟩, _⟩, hhash, ⟨w, h⟩, hdimensions,
      ⟨⟨⟨hwidthEq, hheightEq⟩, hw⟩, hh⟩, hpixels⟩
    dsimp only at hwidthEq hheightEq hw hh hpixels
    have hproduct := pixels_lt (by omega) (by omega) hw hh
    rw [int64_of_lt (by omega)] at hpixels
    rw [← hwidthEq] at hw hpixels
    rw [← hheightEq] at hh hpixels
    refine ⟨⟨hpattern, ?_, hpng, hbundled, hlength, hbytes, hsha, hhash.symm,
      ⟨w, h, hdimensions, hwidthEq, hheightEq⟩, hw, hh, hpixels⟩,
      hnew, fun hne => hunique.resolve_left hne⟩
    simpa [assetRoles, or_assoc] using hknown
  · rintro ⟨⟨hpattern, hknown, hpng, hbundled, hlength, hbytes, hsha, hhash,
      ⟨w, h, hdimensions, hwidthEq, hheightEq⟩, hw, hh, hpixels⟩, hnew, hunique⟩
    have h32 : asset.digest.length = 32 := by rw [hhash, lib.sha256.hash_length]
    have hproduct := pixels_lt (by omega) (by omega) hw hh
    rw [hwidthEq] at hw hpixels hproduct
    rw [hheightEq] at hh hpixels hproduct
    refine ⟨⟨hpattern, hnew⟩, ⟨?_, ?_⟩, ⟨hpng, hbundled⟩,
      ⟨⟨⟨⟨hlength, hsize.2.2⟩, hbytes⟩, hsha⟩, h32⟩, hhash.symm, ⟨w, h⟩, hdimensions,
      ⟨⟨⟨hwidthEq, hheightEq⟩, hw⟩, hh⟩, ?_⟩
    · simpa [assetRoles, or_assoc] using hknown
    · rw [or_iff_not_imp_left]
      exact hunique
    · dsimp only
      rw [int64_of_lt (by omega)]
      exact hpixels

theorem TypeScript.assetEntries_eq_ok {entries : List Value} {position : Nat} {u : Unit} :
    assetEntries lib ids roles position entries = .ok u ↔
      ∃ assets, List.Forall₂ ReadsAsset entries assets ∧ UniqueAssets ids roles assets ∧
        ∀ asset ∈ assets, AssetValid lib asset := by
  induction entries generalizing ids roles position with
  | nil => simp [assetEntries, UniqueAssets]
  | cons entry entries ih =>
    simp only [assetEntries, bind_eq_ok, Prod.exists, assetEntry_eq_ok, ih]
    constructor
    · rintro ⟨_, _, ⟨asset, hreads, hvalid, hunique, rfl, rfl⟩, assets, hall, hrest, hvalids⟩
      refine ⟨asset :: assets, .cons hreads hall, ⟨hunique, hrest⟩, ?_⟩
      rw [List.forall_mem_cons]
      exact ⟨hvalid, hvalids⟩
    · rintro ⟨_, hall, hunique, hvalids⟩
      cases hall with
      | @cons _ asset _ assets hreads hall =>
        rw [List.forall_mem_cons] at hvalids
        exact ⟨asset.id, asset.role, ⟨asset, hreads, hvalids.1, hunique.1, rfl, rfl⟩, assets,
          hall, hunique.2, hvalids.2⟩

theorem Go.readAssets_eq_ok {entries : List Value} {position : Nat}
    {assets : List BundledImageAsset} :
    readAssets position entries = .ok assets ↔ List.Forall₂ ReadsAsset entries assets := by
  induction entries generalizing position assets with
  | nil =>
    simp only [readAssets, Except.ok.injEq, List.forall₂_nil_left_iff]
    exact eq_comm
  | cons entry entries ih =>
    simp only [readAssets, bind_eq_ok, readAsset_eq_ok, ih, Except.ok.injEq,
      List.forall₂_cons_left_iff]
    constructor
    · rintro ⟨asset, hreads, rest, hrest, rfl⟩
      exact ⟨asset, rest, hreads, hrest, rfl⟩
    · rintro ⟨asset, rest, hreads, hrest, rfl⟩
      exact ⟨asset, hreads, rest, hrest, rfl⟩

theorem Go.validateAssets_eq_ok {entries : List Value} {position : Nat}
    {assets : List BundledImageAsset} {u : Unit}
    (hreads : List.Forall₂ ReadsAsset entries assets) :
    validateAssets lib ids roles position assets = .ok u ↔
      UniqueAssets ids roles assets ∧ ∀ asset ∈ assets, AssetValid lib asset := by
  induction hreads generalizing ids roles position with
  | nil => simp [validateAssets, UniqueAssets]
  | @cons entry asset entries assets hentry hentries ih =>
    simp only [validateAssets, bind_eq_ok, validateAsset_eq_ok hentry, ih, exists_const,
      UniqueAssets, List.forall_mem_cons]
    tauto

end Entries

section Manifests

variable {lib : Libraries} {v : Value}

theorem TypeScript.validateAssetManifest_eq_ok {u : Unit}
    (hv : assertHailValue v defaultResourceLimits = .ok u) :
    validateAssetManifest lib (some v) = .ok u ↔ ∃ assets, ManifestSchema lib (some v) assets := by
  simp only [validateAssetManifest, ManifestSchema, hv, bind_eq_ok, record_eq_ok, exactKeys_eq_ok,
    failIf_eq_ok, array_eq_ok, assetEntries_eq_ok, Bool.not_eq_false', strictEqual_int,
    Bool.or_eq_false_iff, decide_eq_false_iff_not, not_lt, exists_const, true_and]
  constructor
  · rintro ⟨m, hm, hexact, hversion, entries, hentries, hlength, assets, hassets⟩
    exact ⟨assets, m, hm, hexact, hversion, entries, hentries, hlength, hassets⟩
  · rintro ⟨assets, m, hm, hexact, hversion, entries, hentries, hlength, hassets⟩
    exact ⟨m, hm, hexact, hversion, entries, hentries, hlength, assets, hassets⟩

theorem Go.assetManifestFromMap_eq_ok {assets : List BundledImageAsset} :
    assetManifestFromMap lib v = .ok assets ↔ ManifestSchema lib (some v) assets := by
  simp only [assetManifestFromMap, ManifestSchema, validateAssetManifest, bind_eq_ok,
    mapValue_eq_ok, exact_eq_ok, intValue_index_eq_ok le_rfl, arrayValue_eq_ok, index_eq_array,
    readAssets_eq_ok, errorIf_eq_ok, Bool.or_eq_false_iff, bne_eq_false_iff_eq,
    decide_eq_false_iff_not, not_lt, exists_const, Except.ok.injEq, Option.some.injEq]
  refine exists_congr fun m => and_congr_right fun _ => and_congr_right fun _ => ?_
  constructor
  · rintro ⟨version, hversion, entries, hentries, assets, hreads, _,
      ⟨⟨⟨rfl, hone⟩, height⟩, hvalid⟩, rfl⟩
    rw [validateAssets_eq_ok hreads] at hvalid
    have hlength := hreads.length_eq
    exact ⟨hversion.1, entries, hentries, ⟨by omega, by omega⟩, hreads, hvalid⟩
  · rintro ⟨hversion, entries, hentries, ⟨hone, height⟩, hreads, hvalid⟩
    have hlength := hreads.length_eq
    refine ⟨1, ⟨hversion, by decide, by decide⟩, entries, hentries, assets, hreads, (),
      ⟨⟨⟨rfl, by omega⟩, by omega⟩, ?_⟩, rfl⟩
    exact (validateAssets_eq_ok hreads).2 hvalid

end Manifests

end HailProto.Codec
