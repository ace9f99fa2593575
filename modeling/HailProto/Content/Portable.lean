import HailProto.Content.Publication

/-!
# Portable Text

`toPortable` and `fromPortable` of the builder's `core.ts`. Blocks and spans are given keys by their
place, links and images the names that editors know them by, and reading a bundle takes both back.
-/

namespace HailProto.Content.Builder

open Cbor (Value)
open Codec
open Codec.TypeScript (Cborg)
open Server Server.Json

section Spread

/-- `{...p,name:v}`, which changes a property in its place and adds a new one behind the others. -/
def setProperty (p : Properties) (name : String) (v : Js) : Properties :=
  if (getProperty p name).isSome then mapProperty p name fun _ => v else p ++ [(js name, v)]

/-- `const {name,...rest}=p` -/
def removeProperty (p : Properties) (name : String) : Properties :=
  p.filter fun m => !(m.1 == js name)

/-- A function of every element and its place. -/
def mapFrom (f : ℕ → Js → Js) : ℕ → List Js → List Js
  | _, [] => []
  | index, v :: l => f index v :: mapFrom f (index + 1) l

mutual

/-- `String(v)` -/
def stringOf : Js → Except Fault JsString
  | .null => .ok (js "null")
  | .boolean b => .ok (js (if b then "true" else "false"))
  | .number n => .ok (js (toString n))
  | .string s => .ok s
  | .array l => do
      let parts ← stringsOf l
      .ok ((js ",").intercalate parts)
  | .object p =>
    if (getProperty p "toString").isSome then
      .error (.thrown (js "Cannot convert object to primitive value"))
    else .ok (js "[object Object]")

def stringsOf : List Js → Except Fault (List JsString)
  | [] => .ok []
  | v :: l => do
      -- An array joins a null as nothing.
      let part ← match v with
        | .null => .ok []
        | v => stringOf v
      let parts ← stringsOf l
      .ok (part :: parts)

end

end Spread

section Export

def keyOf (letter : String) (index : ℕ) : JsString := js (letter ++ toString index)

def portableSpan (index : ℕ) (span : Js) : Js :=
  .object (setProperty (properties span) "_key" (.string (keyOf "s" index)))

def portableLink (d : Js) : Js := .object (setProperty (properties d) "_type" (.string (js "link")))

def portableEntry (index : ℕ) (v : Js) : Js :=
  let block := properties v
  let key : Js := .string (keyOf "b" index)
  if isImage block then
    .object (setProperty (setProperty block "_type" (.string (js "hailImage"))) "_key" key)
  else
    let children := mapFrom portableSpan 0 (elements (field block "children"))
    let defs := (elements (field block "markDefs")).map portableLink
    .object (setProperty (setProperty (setProperty block "_key" key) "children" (.array children))
      "markDefs" (.array defs))

/-- A bundle with these blocks and assets. -/
def bundle (blocks assets : List Js) : Properties :=
  [(js "version", .number 1), (js "assets", .array assets), (js "blocks", .array blocks)]

/-- The assets of a body. -/
def assetList (body : Properties) : List Js :=
  if isText (getProperty body "profile") "spt-3" then
    elements (field (properties (field body "assets")) "assets")
  else []

def toPortable (lib : Libraries) (cborg : Cborg) (body : Js) : Except Fault Js := do
  let valid ← validateDraftBody lib cborg body
  .ok (.object (bundle (mapFrom portableEntry 0 (blocks (properties valid)))
    (assetList (properties valid))))

end Export

section Import

/-- `[A-Za-z0-9_-]` -/
def isKeyUnit (c : CodeUnit) : Bool :=
  decide (0x41 ≤ c.val ∧ c.val ≤ 0x5a) || decide (0x61 ≤ c.val ∧ c.val ≤ 0x7a) ||
    decide (0x30 ≤ c.val ∧ c.val ≤ 0x39) || c == 0x5f || c == 0x2d

/-- `^[A-Za-z0-9_-]{1,64}$` -/
def isKey (s : JsString) : Bool := decide (1 ≤ s.length) && decide (s.length ≤ 64) && s.all isKeyUnit

/-- The keys seen so far, with the key of this object. -/
def stableKey (p : Properties) (seen : List JsString) (path : JsString) :
    Except Fault (List JsString) :=
  match getProperty p "_key" with
  | some (.string key) =>
    if isKey key && !seen.contains key then .ok (key :: seen)
    else .error (.thrown (path ++ js "._key: supply a unique stable key"))
  | _ => .error (.thrown (path ++ js "._key: supply a unique stable key"))

def readSpans (path : JsString) : List JsString → ℕ → List Js → Except Fault (List Js)
  | _, _, [] => .ok []
  | seen, index, entry :: l => do
      let path' := path ++ js (".children[" ++ toString index ++ "]")
      let child ← object entry path'
      fields child ["_type", "_key", "text", "marks"] path'
      let seen ← stableKey child seen path'
      let rest ← readSpans path seen (index + 1) l
      .ok (.object (removeProperty child "_key") :: rest)

def readLinks (path : JsString) : ℕ → List Js → Except Fault (List Js)
  | _, [] => .ok []
  | index, entry :: l => do
      let path' := path ++ js (".markDefs[" ++ toString index ++ "]")
      let d ← object entry path'
      fields d ["_key", "_type", "href", "title"] path'
      if isText (getProperty d "_type") "link" then do
        let rest ← readLinks path (index + 1) l
        .ok (.object (setProperty d "_type" (.string (js "spt.link"))) :: rest)
      else .error (.thrown (path' ++ js ": only link annotations are supported"))

def readImage (path : JsString) (v : Properties) : Except Fault Js := do
  fields v ["_type", "_key", "asset", "alt", "caption"] path
  .ok (.object (setProperty (removeProperty v "_key") "_type" (.string (js "spt.image"))))

def readText (path : JsString) (v : Properties) : Except Fault Js := do
  fields v ["_type", "_key", "style", "listItem", "level", "alignment", "children", "markDefs"] path
  match getProperty v "children", getProperty v "markDefs" with
  | some (.array children), some (.array defs) => do
      let children ← readSpans path [] 0 children
      let markDefs ← readLinks path 0 defs
      .ok (.object (setProperty (setProperty (removeProperty v "_key") "children" (.array children))
        "markDefs" (.array markDefs)))
  | _, _ => .error (.thrown (path ++ js ": children and markDefs must be arrays"))

def readEntry (path : JsString) (v : Properties) : Except Fault Js :=
  if isText (getProperty v "_type") "hailImage" then readImage path v
  else if isText (getProperty v "_type") "block" then readText path v
  else do
    let type ← match getProperty v "_type" with
      | some type => stringOf type
      | none => .ok (js "undefined")
    .error (.thrown (path ++ js "._type: unsupported " ++ type ++
      js "; only text and bundled images are supported"))

def readEntries : List JsString → ℕ → List Js → Except Fault (List Js)
  | _, _, [] => .ok []
  | seen, index, entry :: l => do
      let path := js ("blocks[" ++ toString index ++ "]")
      let v ← object entry path
      let seen ← stableKey v seen path
      let block ← readEntry path v
      let rest ← readEntries seen (index + 1) l
      .ok (block :: rest)

def bundleBudget : Budget := ⟨1000000, "1,000,000"⟩

/-- The body of these blocks and assets. -/
def bodyOf (blocks assets : List Js) : Js :=
  .object (if assets.isEmpty then textBody blocks else imageBody blocks (.object (manifest assets)))

def fromPortable (lib : Libraries) (cborg : Cborg) (draft : Bool) (value : Js) :
    Except Fault Js := do
  budget bundleBudget value
  let bundle ← object value (js "bundle")
  fields bundle ["version", "blocks", "assets"] (js "bundle")
  match getProperty bundle "version", getProperty bundle "blocks", getProperty bundle "assets" with
  | some (.number 1), some (.array entries), some (.array assets) => do
      let blocks ← readEntries [] 0 entries
      if draft then validateDraftBody lib cborg (bodyOf blocks assets)
      else validateBody lib cborg (bodyOf blocks assets)
  | _, _, _ => .error (.thrown
      (js "Expected a version 1 Portable Text bundle with blocks and bundled assets"))

end Import

/-! ## Spreading -/

section Properties

variable {p q : Properties} {name other : String} {names : List String} {f : Js → Js} {v w : Js}

/-- The object has no properties but these. -/
def HasFields (p : Properties) (names : List String) : Prop :=
  ∀ name ∈ p.map Prod.fst, name ∈ names.map js

theorem HasFields.mono {names' : List String} (h : HasFields p names) (hsub : names ⊆ names') :
    HasFields p names' :=
  fun name hname => List.map_subset js hsub (h name hname)

theorem HasFields.mapProperty (h : HasFields p names) : HasFields (mapProperty p name f) names := by
  rw [HasFields, names_mapProperty]
  exact h

theorem HasFields.append (h : HasFields p names) (hname : name ∈ names) :
    HasFields (p ++ [(js name, v)]) names := by
  intro key hkey
  rw [List.map_append, List.mem_append] at hkey
  rcases hkey with hkey | hkey
  · exact h key hkey
  · rw [List.map_singleton, List.mem_singleton] at hkey
    rw [hkey]
    exact List.mem_map_of_mem hname

theorem HasFields.lacks (h : HasFields p names) (hname : name ∉ names) :
    js name ∉ p.map Prod.fst := by
  intro hmem
  rw [← List.mem_map_of_injective js_injective] at hname
  exact hname (h _ hmem)

theorem getProperty_of_lacks (h : js name ∉ p.map Prod.fst) : getProperty p name = none := by
  rw [← Option.not_isSome_iff_eq_none, Option.isSome_iff_exists]
  rintro ⟨v, hv⟩
  exact h (List.mem_map.2 ⟨_, mem_of_ownProperty hv, rfl⟩)

theorem getProperty_append : getProperty (p ++ [(js name, v)]) other =
    (getProperty p other).or (if other = name then some v else none) := by
  rw [getProperty_eq, getProperty_eq]
  induction p with
  | nil =>
    rw [List.nil_append, ownProperty_cons]
    by_cases hname : other = name
    · simp [hname]
    · have hne : js name ≠ js other := fun h => hname (js_inj.1 h).symm
      simp [hname, hne, ownProperty]
  | cons m p ih =>
    rw [List.cons_append, ownProperty_cons, ownProperty_cons, ih]
    split <;> rfl

theorem mapProperty_append (h : name ≠ other) :
    mapProperty (p ++ [(js other, v)]) name f = mapProperty p name f ++ [(js other, v)] := by
  have hne : js other ≠ js name := fun heq => h (js_inj.1 heq).symm
  simp [mapProperty, hne]

theorem setProperty_of_get (h : getProperty p name = some w) :
    setProperty p name v = mapProperty p name fun _ => v := by
  rw [setProperty, h]
  rfl

theorem setProperty_of_lacks (h : js name ∉ p.map Prod.fst) :
    setProperty p name v = p ++ [(js name, v)] := by
  rw [setProperty, getProperty_of_lacks h]
  rfl

theorem removeProperty_append (h : js name ∉ p.map Prod.fst) :
    removeProperty (p ++ [(js name, v)]) name = p := by
  have hkeep : p.filter (fun m => !(m.1 == js name)) = p := by
    refine List.filter_eq_self.2 fun m hm => ?_
    have hne : m.1 ≠ js name := fun heq => h (heq ▸ List.mem_map_of_mem hm)
    simpa using hne
  simp [removeProperty, hkeep]

end Properties

/-! ## Keys -/

section Keys

variable {letter : String} {index i j : ℕ} {l : List Js} {path : JsString} {seen : List JsString}

theorem isKeyUnit_digit {c : Char} (h : c.isDigit = true) :
    c.toNat < 128 ∧ isKeyUnit (Fin.ofNat 65536 c.toNat) = true := by
  rw [Char.isDigit, Bool.and_eq_true, decide_eq_true_eq, decide_eq_true_eq] at h
  have hlow : 48 ≤ c.toNat := h.1
  have hhigh : c.toNat ≤ 57 := h.2
  refine ⟨by omega, ?_⟩
  have hval : (Fin.ofNat 65536 c.toNat).val = c.toNat := Nat.mod_eq_of_lt (by omega)
  have hdigit : 0x30 ≤ (Fin.ofNat 65536 c.toNat).val ∧ (Fin.ofNat 65536 c.toNat).val ≤ 0x39 := by
    omega
  simp only [isKeyUnit, Bool.or_eq_true, decide_eq_true_eq]
  exact .inl (.inl (.inr hdigit))

theorem toList_toString (n : ℕ) : (toString n).toList = Nat.toDigits 10 n := Nat.toList_repr

theorem js_digits (n : ℕ) :
    js (toString n) = (Nat.toDigits 10 n).map fun c => Fin.ofNat 65536 c.toNat := by
  have hascii : ∀ c ∈ Nat.toDigits 10 n, c.toNat < 128 := fun c hc =>
    (isKeyUnit_digit (Nat.isDigit_of_mem_toDigits (by decide) (by decide) hc)).1
  rw [← js_ascii hascii, ← toList_toString, String.ofList_toList]

theorem keyOf_eq (letter : String) (index : ℕ) :
    keyOf letter index = js letter ++ js (toString index) := by
  have happend := js_ofList_append letter.toList (toString index).toList
  rwa [← String.toList_append, String.ofList_toList, String.ofList_toList,
    String.ofList_toList] at happend

theorem keyOf_inj : keyOf letter i = keyOf letter j ↔ i = j := by
  constructor
  · intro h
    rw [keyOf_eq, keyOf_eq, List.append_cancel_left_eq, js_inj] at h
    exact Nat.repr_injective h
  · rintro rfl
    rfl

theorem length_digits (h : index < 1000000) : (Nat.toDigits 10 index).length ≤ 6 :=
  (Nat.length_toDigits_le_iff (by decide) (by decide)).2 h

theorem all_keyOf (hletter : (js letter).all isKeyUnit = true) (index : ℕ) :
    (keyOf letter index).all isKeyUnit = true := by
  rw [keyOf_eq, List.all_append, hletter, js_digits, List.all_map, Bool.true_and, List.all_eq_true]
  intro c hc
  exact (isKeyUnit_digit (Nat.isDigit_of_mem_toDigits (by decide) (by decide) hc)).2

theorem isKey_keyOf (hletter : (js letter).all isKeyUnit = true) (hlength : (js letter).length = 1)
    (h : index < 1000000) : isKey (keyOf letter index) = true := by
  have hdigits := length_digits h
  have hcount : (keyOf letter index).length = 1 + (Nat.toDigits 10 index).length := by
    rw [keyOf_eq, List.length_append, hlength, js_digits, List.length_map]
  rw [isKey, Bool.and_eq_true, Bool.and_eq_true, decide_eq_true_eq, decide_eq_true_eq, hcount]
  exact ⟨by omega, all_keyOf hletter index⟩

/-- Objects with keys by their place. -/
inductive Keyed (letter : String) : ℕ → List Js → Prop
  | nil (index : ℕ) : Keyed letter index []
  | cons {index : ℕ} {p : Properties} {l : List Js}
      (hkey : getProperty p "_key" = some (.string (keyOf letter index)))
      (h : Keyed letter (index + 1) l) : Keyed letter index (.object p :: l)

theorem stableKey_eq_ok {p : Properties}
    (hkey : getProperty p "_key" = some (.string (keyOf letter index)))
    (hletter : (js letter).all isKeyUnit = true) (hlength : (js letter).length = 1)
    (h : index < 1000000) (hseen : keyOf letter index ∉ seen) :
    stableKey p seen path = .ok (keyOf letter index :: seen) := by
  have hfresh : seen.contains (keyOf letter index) = false := by
    simpa using hseen
  rw [stableKey, hkey]
  dsimp only
  rw [isKey_keyOf hletter hlength h, hfresh]
  rfl

end Keys

/-! ## Reading back -/

section Reading

variable {v : Js} {p : Properties} {l : List Js} {index : ℕ} {path : JsString}
  {seen : List JsString}

/-- A span, as far as the names of its properties go. -/
structure SpanShape (p : Properties) : Prop where
  names : HasFields p ["_type", "text", "marks"]
  type : getProperty p "_type" = some (.string (js "span"))
  text : ∃ s, getProperty p "text" = some (.string s)

structure LinkShape (d : Properties) : Prop where
  names : HasFields d ["_key", "_type", "href", "title"]
  type : getProperty d "_type" = some (.string (js "spt.link"))

structure TextShape (p : Properties) : Prop where
  names : HasFields p ["_type", "style", "listItem", "level", "alignment", "children", "markDefs"]
  type : getProperty p "_type" = some (.string (js "block"))
  children : ∃ l, getProperty p "children" = some (.array l) ∧
    ∀ v ∈ l, ∃ span, v = .object span ∧ SpanShape span
  links : ∃ l, getProperty p "markDefs" = some (.array l) ∧ ∀ v ∈ l, ∃ d, v = .object d ∧ LinkShape d

structure ImageShape (p : Properties) : Prop where
  names : HasFields p ["_type", "asset", "alt", "caption"]
  type : getProperty p "_type" = some (.string (js "spt.image"))

/-- A block of a draft, as far as the names of its properties go. -/
inductive Shape (v : Js) : Prop
  | image (p : Properties) (hv : v = .object p) (h : ImageShape p)
  | text (p : Properties) (hv : v = .object p) (h : TextShape p)

theorem object_eq_ok {v : Js} {path : JsString} : object v path = .ok p ↔ v = .object p := by
  cases v <;> simp [object]

theorem portableSpan_eq (h : SpanShape p) (index : ℕ) :
    portableSpan index (.object p) = .object (p ++ [(js "_key", .string (keyOf "s" index))]) := by
  rw [portableSpan, properties, setProperty_of_lacks (h.names.lacks (by decide))]

/-- Spans lose their keys when they are read. -/
theorem readSpans_portableSpan (hl : ∀ v ∈ l, ∃ span, v = .object span ∧ SpanShape span)
    (hbound : index + l.length ≤ 1000000) (hseen : ∀ i ≥ index, keyOf "s" i ∉ seen) :
    readSpans path seen index (mapFrom portableSpan index l) = .ok l := by
  induction l generalizing index seen with
  | nil => rfl
  | cons v l ih =>
    rw [List.length_cons] at hbound
    obtain ⟨⟨span, rfl, hspan⟩, hrest⟩ := List.forall_mem_cons.1 hl
    have hlacks : js "_key" ∉ span.map Prod.fst := hspan.names.lacks (by decide)
    have hfields : HasFields (span ++ [(js "_key", .string (keyOf "s" index))])
        ["_type", "_key", "text", "marks"] := (hspan.names.mono (by decide)).append (by decide)
    have hkey : getProperty (span ++ [(js "_key", .string (keyOf "s" index))]) "_key" =
        some (.string (keyOf "s" index)) := by
      rw [getProperty_append, getProperty_of_lacks hlacks]
      rfl
    have hfresh : ∀ i ≥ index + 1, keyOf "s" i ∉ keyOf "s" index :: seen := by
      intro i hi hmem
      rcases List.mem_cons.1 hmem with heq | hmem
      · have hsame := keyOf_inj.1 heq
        omega
      · exact hseen i (by omega) hmem
    rw [mapFrom, portableSpan_eq hspan, readSpans]
    simp only [bind_eq_ok, object_eq_ok, fields_eq_ok, exists_const, Except.ok.injEq]
    refine ⟨_, rfl, hfields, _, stableKey_eq_ok hkey (by decide) (by decide) (by omega)
      (hseen index le_rfl), l, ih hrest (by omega) hfresh, ?_⟩
    rw [removeProperty_append hlacks]

/-- Links get their name back when they are read. -/
theorem readLinks_portableLink (hl : ∀ v ∈ l, ∃ d, v = .object d ∧ LinkShape d)
    (hdistinct : ∀ v ∈ l, DistinctNames v) (index : ℕ) :
    readLinks path index (l.map portableLink) = .ok l := by
  induction l generalizing index with
  | nil => rfl
  | cons v l ih =>
    obtain ⟨⟨d, rfl, hd⟩, hrest⟩ := List.forall_mem_cons.1 hl
    obtain ⟨hv, hdistinct'⟩ := List.forall_mem_cons.1 hdistinct
    have htype : getProperty (mapProperty d "_type" fun _ => .string (js "link")) "_type" =
        some (.string (js "link")) := by
      rw [getProperty_mapProperty, if_pos rfl, hd.type]
      rfl
    have hfields : HasFields (mapProperty d "_type" fun _ => .string (js "link"))
        ["_key", "_type", "href", "title"] := hd.names.mapProperty
    rw [List.map_cons, portableLink, properties, setProperty_of_get hd.type, readLinks]
    simp only [bind_eq_ok, object_eq_ok, fields_eq_ok, exists_const]
    refine ⟨_, rfl, hfields, ?_⟩
    rw [isText_eq_true.2 htype, if_pos rfl, ih hrest hdistinct' (index + 1), ok_bind,
      setProperty_of_get htype, mapProperty_back hv.names hd.type]

theorem portableEntry_image (h : ImageShape p) (index : ℕ) : portableEntry index (.object p) =
    .object ((mapProperty p "_type" fun _ => .string (js "hailImage")) ++
      [(js "_key", .string (keyOf "b" index))]) := by
  have hlacks : js "_key" ∉
      (mapProperty p "_type" fun _ => .string (js "hailImage")).map Prod.fst := by
    rw [names_mapProperty]
    exact h.names.lacks (by decide)
  have himage : isImage p = true := isText_eq_true.2 h.type
  rw [portableEntry, properties, if_pos himage, setProperty_of_get h.type,
    setProperty_of_lacks hlacks]

theorem readEntry_image (h : ImageShape p) (hp : (p.map Prod.fst).Nodup) :
    readEntry path (properties (portableEntry index (.object p))) = .ok (.object p) := by
  have hfields : HasFields ((mapProperty p "_type" fun _ => .string (js "hailImage")) ++
      [(js "_key", .string (keyOf "b" index))]) ["_type", "_key", "asset", "alt", "caption"] :=
    (h.names.mapProperty.mono (by decide)).append (by decide)
  have htype : getProperty (mapProperty p "_type" fun _ => .string (js "hailImage")) "_type" =
      some (.string (js "hailImage")) := by
    rw [getProperty_mapProperty, if_pos rfl, h.type]
    rfl
  have hlacks : js "_key" ∉
      (mapProperty p "_type" fun _ => .string (js "hailImage")).map Prod.fst := by
    rw [names_mapProperty]
    exact h.names.lacks (by decide)
  have hkind : isText (getProperty ((mapProperty p "_type" fun _ => .string (js "hailImage")) ++
      [(js "_key", .string (keyOf "b" index))]) "_type") "hailImage" = true := by
    rw [isText_eq_true, getProperty_append, htype]
    rfl
  rw [portableEntry_image h, properties, readEntry, if_pos hkind, readImage,
    (fields_eq_ok (u := ())).2 hfields, ok_bind, removeProperty_append hlacks,
    setProperty_of_get htype, mapProperty_back hp h.type]

/-- A block with other spans and links. -/
def withParts (p : Properties) (children defs : List Js) : Properties :=
  mapProperty (mapProperty p "children" fun _ => .array children) "markDefs" fun _ => .array defs

theorem getProperty_withParts {children defs : List Js} {name : String} (hchildren : name ≠ "children")
    (hdefs : name ≠ "markDefs") :
    getProperty (withParts p children defs) name = getProperty p name := by
  rw [withParts, getProperty_mapProperty, if_neg hdefs, getProperty_mapProperty, if_neg hchildren]

theorem children_withParts {children defs : List Js} (h : getProperty p "children" = some v) :
    getProperty (withParts p children defs) "children" = some (.array children) := by
  rw [withParts, getProperty_mapProperty, if_neg (by decide), getProperty_mapProperty, if_pos rfl, h]
  rfl

theorem markDefs_withParts {children defs : List Js} (h : getProperty p "markDefs" = some v) :
    getProperty (withParts p children defs) "markDefs" = some (.array defs) := by
  rw [withParts, getProperty_mapProperty, if_pos rfl, getProperty_mapProperty,
    if_neg (by decide), h]
  rfl

theorem withParts_withParts {children defs children' defs' : List Js} :
    withParts (withParts p children defs) children' defs' = withParts p children' defs' := by
  have hcomm := @mapProperty_comm (mapProperty p "children" fun _ => .array children) "markDefs"
    "children" (fun _ => .array defs) (fun _ => .array children') (by decide)
  rw [withParts, withParts, withParts, hcomm, mapProperty_mapProperty, mapProperty_mapProperty]

theorem withParts_self {children defs : List Js} (hp : (p.map Prod.fst).Nodup)
    (hchildren : getProperty p "children" = some (.array children))
    (hdefs : getProperty p "markDefs" = some (.array defs)) : withParts p children defs = p := by
  have hsame : mapProperty p "children" (fun _ => .array children) = p :=
    mapProperty_self hp fun w hw => Option.some.inj (hchildren.symm.trans hw)
  rw [withParts, hsame]
  exact mapProperty_self hp fun w hw => Option.some.inj (hdefs.symm.trans hw)

theorem names_withParts {children defs : List Js} :
    (withParts p children defs).map Prod.fst = p.map Prod.fst := by
  rw [withParts, names_mapProperty, names_mapProperty]

theorem portableEntry_text (h : TextShape p) {children defs : List Js}
    (hchildren : getProperty p "children" = some (.array children))
    (hdefs : getProperty p "markDefs" = some (.array defs)) (index : ℕ) :
    portableEntry index (.object p) = .object (withParts p (mapFrom portableSpan 0 children)
      (defs.map portableLink) ++ [(js "_key", .string (keyOf "b" index))]) := by
  have himage : isImage p = false := by
    rw [isImage, h.type]
    decide
  have hkeyed : getProperty (p ++ [(js "_key", .string (keyOf "b" index))]) "children" =
      some (.array children) := by
    rw [getProperty_append, hchildren]
    rfl
  have hkeyed' : getProperty ((mapProperty p "children" fun _ =>
      .array (mapFrom portableSpan 0 children)) ++ [(js "_key", .string (keyOf "b" index))])
        "markDefs" = some (.array defs) := by
    rw [getProperty_append, getProperty_mapProperty, if_neg (by decide), hdefs]
    rfl
  rw [portableEntry, properties, himage, if_neg Bool.false_ne_true, field_of_get hchildren,
    field_of_get hdefs, elements, elements, setProperty_of_lacks (h.names.lacks (by decide))]
  dsimp only
  rw [setProperty_of_get hkeyed, mapProperty_append (by decide), setProperty_of_get hkeyed',
    mapProperty_append (by decide), withParts]

theorem readEntry_text (h : TextShape p) (hv : DistinctNames (.object p))
    (hsize : (elements (field p "children")).length ≤ 1000000) :
    readEntry path (properties (portableEntry index (.object p))) = .ok (.object p) := by
  obtain ⟨children, hchildren, hspans⟩ := h.children
  obtain ⟨defs, hdefs, hlinks⟩ := h.links
  let parts := withParts p (mapFrom portableSpan 0 children) (defs.map portableLink)
  let keyed := parts ++ [(js "_key", .string (keyOf "b" index))]
  have hget : ∀ name ≠ "_key", getProperty keyed name = getProperty parts name := by
    intro name hname
    rw [getProperty_append, if_neg hname, Option.or_none]
  have htype : getProperty keyed "_type" = some (.string (js "block")) := by
    rw [hget _ (by decide), getProperty_withParts (by decide) (by decide), h.type]
  have hfields : HasFields keyed
      ["_type", "_key", "style", "listItem", "level", "alignment", "children", "markDefs"] :=
    (h.names.mapProperty.mapProperty.mono (by decide)).append (by decide)
  have hlacks : js "_key" ∉ parts.map Prod.fst := by
    rw [names_withParts]
    exact h.names.lacks (by decide)
  have hchildren' : getProperty parts "children" = some (.array (mapFrom portableSpan 0 children)) :=
    children_withParts hchildren
  have hdefs' : getProperty parts "markDefs" = some (.array (defs.map portableLink)) :=
    markDefs_withParts hdefs
  have hread : readSpans path [] 0 (mapFrom portableSpan 0 children) = .ok children := by
    rw [field_of_get hchildren, elements] at hsize
    exact readSpans_portableSpan hspans (by omega) fun _ _ => List.not_mem_nil
  have hdistinct : ∀ v ∈ defs, DistinctNames v := fun v hd => (hv.property hdefs).element hd
  have hkind : isText (getProperty keyed "_type") "hailImage" ≠ true := by
    rw [htype]
    decide
  have hback : setProperty (setProperty parts "children" (.array children)) "markDefs"
      (.array defs) = p := by
    have hkept : getProperty (mapProperty parts "children" fun _ => .array children) "markDefs" =
        some (.array (defs.map portableLink)) := by
      rw [getProperty_mapProperty, if_neg (by decide), hdefs']
    rw [setProperty_of_get hchildren', setProperty_of_get hkept, ← withParts, withParts_withParts,
      withParts_self hv.names hchildren hdefs]
  rw [portableEntry_text h hchildren hdefs, properties, readEntry, if_neg hkind,
    if_pos (isText_eq_true.2 htype), readText, (fields_eq_ok (u := ())).2 hfields, ok_bind,
    hget _ (by decide), hget _ (by decide), hchildren', hdefs']
  dsimp only
  rw [hread, ok_bind, readLinks_portableLink hlinks hdistinct, ok_bind, removeProperty_append hlacks,
    hback]

/-- What a key is given to is read as it was. -/
theorem readEntry_portableEntry (h : Shape v) (hv : DistinctNames v)
    (hsize : (elements (field (properties v) "children")).length ≤ 1000000) :
    readEntry path (properties (portableEntry index v)) = .ok v := by
  rcases h with ⟨p, rfl, h⟩ | ⟨p, rfl, h⟩
  · exact readEntry_image h hv.names
  · exact readEntry_text h hv hsize

theorem key_portableEntry (h : Shape v) (index : ℕ) : ∃ p, portableEntry index v = .object p ∧
    getProperty p "_key" = some (.string (keyOf "b" index)) := by
  have hkey : ∀ {q : Properties} {names : List String}, HasFields q names → "_key" ∉ names →
      getProperty (q ++ [(js "_key", .string (keyOf "b" index))]) "_key" =
        some (.string (keyOf "b" index)) := by
    intro q names hq hnot
    rw [getProperty_append, getProperty_of_lacks (hq.lacks hnot), if_pos rfl]
    rfl
  rcases h with ⟨p, rfl, h⟩ | ⟨p, rfl, h⟩
  · exact ⟨_, portableEntry_image h index, hkey h.names.mapProperty (by decide)⟩
  · obtain ⟨children, hchildren, _⟩ := h.children
    obtain ⟨defs, hdefs, _⟩ := h.links
    exact ⟨_, portableEntry_text h hchildren hdefs index,
      hkey h.names.mapProperty.mapProperty (by decide)⟩

/-- Entries with keys by their place are read one by one. -/
theorem readEntries_eq_ok {entries : List Js} (hkeyed : Keyed "b" index entries)
    (hread : List.Forall₂ (fun entry v => ∀ path, readEntry path (properties entry) = .ok v) entries l)
    (hbound : index + entries.length ≤ 1000000) (hseen : ∀ i ≥ index, keyOf "b" i ∉ seen) :
    readEntries seen index entries = .ok l := by
  induction hkeyed generalizing l seen with
  | nil =>
    cases hread
    rfl
  | @cons index p entries hkey _ ih =>
    rw [List.length_cons] at hbound
    obtain ⟨v, l, hv, hrest, rfl⟩ := List.forall₂_cons_left_iff.1 hread
    have hfresh : ∀ i ≥ index + 1, keyOf "b" i ∉ keyOf "b" index :: seen := by
      intro i hi hmem
      rcases List.mem_cons.1 hmem with heq | hmem
      · have hsame := keyOf_inj.1 heq
        omega
      · exact hseen i (by omega) hmem
    rw [readEntries]
    simp only [bind_eq_ok, object_eq_ok, Except.ok.injEq]
    exact ⟨p, rfl, _, stableKey_eq_ok hkey (by decide) (by decide) (by omega)
      (hseen index le_rfl), v, hv _, l, ih hrest (by omega) hfresh, rfl⟩

end Reading

end HailProto.Content.Builder
