import HailProto.Content.RoundTrip

/-!
# The projection of the editor

`editorBlock` and `portableBlock` of the builder's `editor.tsx`. A call to action is edited as a form
with a label and an address, and comes back as one span whose link has a key of its own. It says what
it said before, but it may take more bytes.
-/

namespace HailProto.Content.Builder

open Cbor (Value Value.items itemsSum entryItems asBytes)
open Codec
open Codec.TypeScript (Cborg)
open Server Server.Json

section Projection

/-- `...(v===undefined?{}:{name:v})` -/
def optionalMember (name : String) (v : Option Js) : Properties :=
  match v with
  | some v => [(js name, v)]
  | none => []

def editorBlock (v : Js) : Except Fault Js :=
  let block := properties v
  if isCta block then
    match elements (field block "markDefs") with
    | link :: _ => .ok (.object ([(js "_type", .string (js "hailCta")),
        (js "_key", field block "_key"), (js "label", .string (label block)),
        (js "href", field (properties link) "href")] ++
        optionalMember "title" (getProperty (properties link) "title") ++
        optionalMember "alignment" (getProperty block "alignment")))
    | [] => .error (.thrown (js "Cannot read properties of undefined (reading 'href')"))
  else .ok v

def portableBlock (v : Js) : Js :=
  let block := properties v
  if isText (getProperty block "_type") "hailCta" then
    .object ([(js "_type", .string (js "block")), (js "_key", field block "_key"),
      (js "style", .string (js "cta"))] ++
      optionalMember "alignment" (getProperty block "alignment") ++
      [(js "children", .array [.object [(js "_type", .string (js "span")),
          (js "_key", .string (js "label")), (js "text", field block "label"),
          (js "marks", .array [.string (js "ctaLink")])]]),
        (js "markDefs", .array [.object ([(js "_type", .string (js "link")),
          (js "_key", .string (js "ctaLink")), (js "href", field block "href")] ++
          optionalMember "title" (getProperty block "title"))])])
  else v

def projectBlocks : List Js → Except Fault (List Js)
  | [] => .ok []
  | v :: l => do
      let edited ← editorBlock v
      let rest ← projectBlocks l
      .ok (portableBlock edited :: rest)

/-- The bundle with every block projected and brought back. -/
def throughEditor (bundle : Js) : Except Fault Js := do
  let projected ← projectBlocks (blocks (properties bundle))
  .ok (mapMember "blocks" (fun _ => .array projected) bundle)

end Projection

/-! ## Calls to action in one form -/

section Forms

def ctaSpan (key : String) (text : JsString) : Properties :=
  [(js "_type", .string (js "span")), (js "text", .string text),
    (js "marks", .array [.string (js key)])]

def ctaLink (key : String) (href : JsString) (title : Option Js) : Properties :=
  [(js "_type", .string (js "spt.link")), (js "_key", .string (js key)), (js "href", .string href)] ++
    optionalMember "title" title

/-- A call to action with one span. -/
def ctaForm (key : String) (alignment : Option Js) (text href : JsString) (title : Option Js) :
    Properties :=
  [(js "_type", .string (js "block")), (js "style", .string (js "cta"))] ++
    optionalMember "alignment" alignment ++
    [(js "children", .array [.object (ctaSpan key text)]),
      (js "markDefs", .array [.object (ctaLink key href title)])]

/-- The title of the first link. -/
def ctaTitle (block : Properties) : Option Js :=
  match elements (field block "markDefs") with
  | d :: _ => getProperty (properties d) "title"
  | [] => none

/-- The block as the editor brings it back. -/
def relinked (v : Js) : Js :=
  let block := properties v
  if isCta block then
    .object (ctaForm "ctaLink" (getProperty block "alignment") (label block) (ctaHref block)
      (ctaTitle block))
  else v

def relinkedBody (body : Js) : Js :=
  .object (withBlocks (properties body) ((blocks (properties body)).map relinked))

/-- The block that the codec looks at, with what is missing filled in. -/
def filled (spt3 : Bool) (v : Js) : Js :=
  match substituteBlock spt3 v with
  | .ok s => s.1
  | .error _ => v

def filledBody (body : Js) : Js :=
  let spt3 := isText (getProperty (properties body) "profile") "spt-3"
  .object (withBlocks (properties body) ((blocks (properties body)).map (filled spt3)))

/-- The body is within its budget, as it is and filled in. -/
def Fits (body : Js) : Prop := jsonSize body ≤ 360000 ∧ jsonSize (filledBody body) ≤ 360000

end Forms

section Forms

variable {key : String} {alignment title : Option Js} {text href : JsString} {index : ℕ}
  {path : JsString}

/-- A call to action as the editor writes it into a bundle. -/
def ctaPortable (index : ℕ) (alignment : Option Js) (text href : JsString) (title : Option Js) :
    Properties :=
  [(js "_type", .string (js "block")), (js "_key", .string (keyOf "b" index)),
    (js "style", .string (js "cta"))] ++ optionalMember "alignment" alignment ++
    [(js "children", .array [.object [(js "_type", .string (js "span")),
        (js "_key", .string (js "label")), (js "text", .string text),
        (js "marks", .array [.string (js "ctaLink")])]]),
      (js "markDefs", .array [.object ([(js "_type", .string (js "link")),
        (js "_key", .string (js "ctaLink")), (js "href", .string href)] ++
        optionalMember "title" title)])]

theorem readEntry_ctaPortable : readEntry path (ctaPortable index alignment text href title) =
    .ok (.object (ctaForm "ctaLink" alignment text href title)) := by
  cases alignment <;> cases title <;> rfl

end Forms

/-! ## Buttons -/

section Buttons

variable {lib : Libraries} {p d : Properties} {key : JsString} {v : Js} {spt3 : Bool}

/-- A call to action with the members that its type promises. -/
structure Button (p d : Properties) (key : JsString) : Prop where
  shape : TextShape p
  style : getProperty p "style" = some (.string (js "cta"))
  listItem : getProperty p "listItem" = none
  level : getProperty p "level" = none
  links : getProperty p "markDefs" = some (.array [.object d])
  name : getProperty d "_key" = some (.string key)
  href : ∃ s, getProperty d "href" = some (.string s)
  children : ∃ l, getProperty p "children" = some (.array l) ∧ l ≠ [] ∧
    ∀ v ∈ l, ∃ span, v = .object span ∧ SpanShape span ∧
      getProperty span "marks" = some (.array [.string key])

theorem Button.cta (h : Button p d key) : isCta p = true := isCta_iff.2 ⟨h.shape.type, h.style⟩

theorem Button.setHref (h : Button p d key) (s : JsString) :
    Button (properties (setHref s (.object p))) (mapProperty d "href" fun _ => .string s) key := by
  obtain ⟨old, hold⟩ := h.href
  refine ⟨h.shape.setHref s, ?_, ?_, ?_, ?_, ?_, ⟨s, ?_⟩, ?_⟩
  · exact getProperty_mapProperty.trans h.style
  · exact getProperty_mapProperty.trans h.listItem
  · exact getProperty_mapProperty.trans h.level
  · refine getProperty_mapProperty.trans ?_
    rw [if_pos rfl, h.links]
    rfl
  · rw [getProperty_mapProperty, if_neg (by decide), h.name]
  · rw [getProperty_mapProperty, if_pos rfl, hold]
    rfl
  · obtain ⟨l, hl, hne, hspans⟩ := h.children
    exact ⟨l, getProperty_mapProperty.trans hl, hne, hspans⟩

theorem Button.setText (h : Button p d key) (s : JsString) :
    Button (properties (setText s (.object p))) d key := by
  refine ⟨h.shape.setText s, ?_, ?_, ?_, ?_, h.name, h.href, ?_⟩
  · exact getProperty_mapProperty.trans h.style
  · exact getProperty_mapProperty.trans h.listItem
  · exact getProperty_mapProperty.trans h.level
  · exact getProperty_mapProperty.trans h.links
  · obtain ⟨l, hl, hne, hspans⟩ := h.children
    have hspan : ∀ q, SpanShape q ∧ getProperty q "marks" = some (.array [.string key]) →
        SpanShape (mapProperty q "text" fun _ => .string s) ∧
          getProperty (mapProperty q "text" fun _ => .string s) "marks" =
            some (.array [.string key]) :=
      fun q hq => ⟨hq.1.setText s, getProperty_mapProperty.trans hq.2⟩
    obtain ⟨l', hl', hlength, hspans'⟩ := forall_mapFirst
      (P := fun q => SpanShape q ∧ getProperty q "marks" = some (.array [.string key]))
      (f := mapMember "text" fun _ => .string s) (fun _ => rfl) hspan hspans
    refine ⟨l', ?_, ?_, hspans'⟩
    · refine getProperty_mapProperty.trans ?_
      rw [if_pos rfl, hl]
      exact congrArg some hl'
    · rw [← List.length_pos_iff, hlength, List.length_pos_iff]
      exact hne

theorem Button.setAlt (h : Button p d key) (s : JsString) :
    Button (properties (setAlt s (.object p))) d key := by
  change Button (mapProperty p "alt" fun _ => .string s) d key
  refine ⟨h.shape.setAlt s, ?_, ?_, ?_, ?_, h.name, h.href, ?_⟩
  · exact getProperty_mapProperty.trans h.style
  · exact getProperty_mapProperty.trans h.listItem
  · exact getProperty_mapProperty.trans h.level
  · exact getProperty_mapProperty.trans h.links
  · obtain ⟨l, hl, hne, hspans⟩ := h.children
    exact ⟨l, getProperty_mapProperty.trans hl, hne, hspans⟩

def IsButton (v : Js) : Prop := ∃ p d key, v = .object p ∧ Button p d key

theorem button_of_entry (h : Entry lib v) (hcta : isCta (properties v) = true) : IsButton v := by
  rcases h with ⟨value, hshow, _, _, _, b, rfl, htype, _⟩ | ⟨value, hshow, hrich⟩
  · obtain ⟨p, rfl, hp⟩ := hshow.members
    have himage : isImage p = true := isText_eq_true.2 (hp.get_text htype)
    rw [properties] at hcta
    rw [isImage_of_isCta hcta] at himage
    cases himage
  · have hshape := shape_of_entry (.text value hshow hrich)
    obtain ⟨b, rfl, _, _, hstyle, _, _, _, defs, hdefs, links, ⟨hlinks, _⟩, children, hchildren, hne,
      spans, hspans, hcall⟩ := hrich
    obtain ⟨p, rfl, hp⟩ := shows_map.1 hshow
    have hread := members_of_forall₂ hp
    obtain ⟨hitem, hlevel, link, rfl, hmarks, _⟩ := hcall (style_of_cta hread hcta hstyle)
    have htext : TextShape p := by
      rcases hshape with ⟨_, ⟨⟩, himage⟩ | ⟨_, ⟨⟩, htext⟩
      · have himage' : isImage p = true := isText_eq_true.2 himage.type
        rw [properties] at hcta
        rw [isImage_of_isCta hcta] at himage'
        cases himage'
      · exact htext
    obtain ⟨ds, hds, hdshows⟩ := hread.get_array hdefs
    obtain ⟨cs, hcs, hcshows⟩ := hread.get_array hchildren
    obtain ⟨dv, _, ⟨_, hdv, dr, rfl, _, hkey, _, _, ⟨hhref, _⟩, _⟩, hnil, rfl⟩ :=
      List.forall₂_cons_right_iff.1 (forall₂_comp hdshows hlinks)
    cases hnil
    obtain ⟨d, rfl, hd⟩ := hdv.members
    refine ⟨p, d, js link.key, rfl, htext, (isCta_iff.1 hcta).2, hread.get_none hitem,
      hread.get_none hlevel, hds, hd.get_text hkey, ⟨_, hd.get_text hhref⟩, cs, hcs, ?_, ?_⟩
    · rintro rfl
      cases hcshows
      exact hne rfl
    · intro v hv
      obtain ⟨span, hspan, s, hshow, hreads⟩ := forall₂_left (forall₂_comp hcshows hspans) hv
      obtain ⟨q, rfl, hq⟩ := spanShape_of_shows hshow hreads
      obtain ⟨r, rfl, _, _, _, hmark, _⟩ := hreads
      obtain ⟨_, ⟨⟩, hmembers⟩ := hshow.members
      obtain ⟨ms, hms, hmshows⟩ := hmembers.get_array hmark
      rw [hmarks span hspan] at hmshows
      obtain ⟨m, _, hm, hnil, rfl⟩ := List.forall₂_cons_right_iff.1 hmshows
      cases hnil
      rw [shows_text.1 hm] at hms
      exact ⟨q, rfl, hq, hms⟩

theorem isCta_setText (s : JsString) : isCta (properties (setText s v)) = isCta (properties v) := by
  cases v with
  | object p =>
    rw [setText, mapMember, properties, properties, isCta, getProperty_mapProperty,
      getProperty_mapProperty, if_neg (by decide), if_neg (by decide), isCta]
  | _ => rfl

theorem isCta_substituteBlock {s : Substituted} (h : substituteBlock spt3 v = .ok s)
    (hcta : isCta (properties v) = true) : isCta (properties s.1) = true := by
  have hhref : isCta (properties (substituteHref v).1) = true := by
    unfold substituteHref
    split
    · split
      · rw [isCta_setHref]
        exact hcta
      · exact hcta
    · exact hcta
  unfold substituteBlock at h
  dsimp only at h
  rw [isImage_of_isCta hcta, Bool.and_false, Bool.false_and, if_neg Bool.false_ne_true,
    if_pos hcta] at h
  unfold substituteLabel at h
  split at h
  · dsimp only at h
    split at h
    · split at h
      · cases h
      · cases h
        rw [isCta_setText]
        exact hhref
    · cases h
      exact hhref
  · cases h
    exact hhref

/-- The calls to action of a draft are buttons, whatever is missing of them. -/
theorem button_of_substituted {s : Substituted} (hv : DistinctNames v)
    (h : substituteBlock spt3 v = .ok s) (hentry : Entry lib s.1)
    (hcta : isCta (properties v) = true) : IsButton v := by
  refine restored_of ?_ ?_ ?_ hv h (button_of_entry hentry (isCta_substituteBlock h hcta))
  · rintro s _ ⟨p, d, key, rfl, hbutton⟩
    exact ⟨_, d, key, rfl, hbutton.setAlt s⟩
  · rintro s _ ⟨p, d, key, rfl, hbutton⟩
    exact ⟨_, _, key, rfl, hbutton.setHref s⟩
  · rintro s _ ⟨p, d, key, rfl, hbutton⟩
    exact ⟨_, d, key, rfl, hbutton.setText s⟩

end Buttons

/-! ## Through the editor -/

section Editing

variable {p d : Properties} {key : JsString} {v : Js} {l : List Js} {index : ℕ}

/-- A call to action in the editor. -/
def ctaObject (index : ℕ) (alignment : Option Js) (text href : JsString) (title : Option Js) :
    Properties :=
  [(js "_type", .string (js "hailCta")), (js "_key", .string (keyOf "b" index)),
    (js "label", .string text), (js "href", .string href)] ++ optionalMember "title" title ++
    optionalMember "alignment" alignment

theorem portableBlock_ctaObject {alignment title : Option Js} {text href : JsString} :
    portableBlock (.object (ctaObject index alignment text href title)) =
      .object (ctaPortable index alignment text href title) := by
  cases alignment <;> cases title <;> rfl

/-- Keys do not change what spans say. -/
theorem texts_portableSpan (hl : ∀ v ∈ l, ∃ span, v = .object span ∧ SpanShape span) (index : ℕ) :
    ((mapFrom portableSpan index l).map properties).flatMap text =
      (l.map properties).flatMap text := by
  induction l generalizing index with
  | nil => rfl
  | cons v l ih =>
    obtain ⟨⟨span, rfl, hspan⟩, hrest⟩ := List.forall_mem_cons.1 hl
    obtain ⟨t, ht⟩ := hspan.text
    have hkeyed : getProperty (span ++ [(js "_key", .string (keyOf "s" index))]) "text" =
        some (.string t) := by
      rw [getProperty_append, ht]
      rfl
    rw [mapFrom, List.map_cons, List.map_cons, List.flatMap_cons, List.flatMap_cons,
      ih hrest (index + 1), portableSpan_eq hspan, properties, properties, text, text,
      field_of_get hkeyed, field_of_get ht]

theorem Button.ctaHref_eq (h : Button p d key) {s : JsString}
    (hs : getProperty d "href" = some (.string s)) : ctaHref p = s :=
  ctaHref_of_soleHref (soleHref_eq_some.2 ⟨_, h.links, hs⟩)

theorem Button.ctaTitle_eq (h : Button p d key) : ctaTitle p = getProperty d "title" := by
  rw [ctaTitle, field_of_get h.links, elements]
  rfl

theorem Button.editorBlock_eq (h : Button p d key) :
    editorBlock (portableEntry index (.object p)) = .ok (.object
      (ctaObject index (getProperty p "alignment") (label p) (ctaHref p) (ctaTitle p))) := by
  obtain ⟨l, hl, _, hspans⟩ := h.children
  obtain ⟨s, hs⟩ := h.href
  have hshapes : ∀ v ∈ l, ∃ span, v = .object span ∧ SpanShape span := by
    intro v hv
    obtain ⟨span, rfl, hspan, _⟩ := hspans v hv
    exact ⟨span, rfl, hspan⟩
  have hd : LinkShape d := by
    obtain ⟨ds, hds, hlinks⟩ := h.shape.links
    cases h.links.symm.trans hds
    obtain ⟨_, ⟨⟩, hd⟩ := hlinks _ List.mem_cons_self
    exact hd
  let parts := withParts p (mapFrom portableSpan 0 l) [portableLink (.object d)]
  have hget : ∀ name ≠ "_key", getProperty
      (parts ++ [(js "_key", .string (keyOf "b" index))]) name = getProperty parts name := by
    intro name hname
    rw [getProperty_append, if_neg hname, Option.or_none]
  have hkey : getProperty (parts ++ [(js "_key", .string (keyOf "b" index))]) "_key" =
      some (.string (keyOf "b" index)) := by
    have hlacks : js "_key" ∉ parts.map Prod.fst := by
      rw [names_withParts]
      exact h.shape.names.lacks (by decide)
    rw [getProperty_append, getProperty_of_lacks hlacks]
    rfl
  have hcta : isCta (parts ++ [(js "_key", .string (keyOf "b" index))]) = true := by
    refine isCta_iff.2 ⟨?_, ?_⟩
    · rw [hget _ (by decide), getProperty_withParts (by decide) (by decide), h.shape.type]
    · rw [hget _ (by decide), getProperty_withParts (by decide) (by decide), h.style]
  have hlabel : label (parts ++ [(js "_key", .string (keyOf "b" index))]) = label p := by
    have hchildren : getProperty (parts ++ [(js "_key", .string (keyOf "b" index))]) "children" =
        some (.array (mapFrom portableSpan 0 l)) := (hget _ (by decide)).trans (children_withParts hl)
    rw [label, label, spans, spans, field_of_get hchildren, field_of_get hl]
    exact texts_portableSpan hshapes 0
  have hdefs : getProperty (parts ++ [(js "_key", .string (keyOf "b" index))]) "markDefs" =
      some (.array [portableLink (.object d)]) :=
    (hget _ (by decide)).trans (markDefs_withParts h.links)
  have halignment : getProperty (parts ++ [(js "_key", .string (keyOf "b" index))]) "alignment" =
      getProperty p "alignment" :=
    (hget _ (by decide)).trans (getProperty_withParts (by decide) (by decide))
  have hlink : ∀ name ≠ "_type", getProperty (properties (portableLink (.object d))) name =
      getProperty d name := by
    intro name hname
    rw [portableLink, properties, properties, setProperty_of_get hd.type, getProperty_mapProperty,
      if_neg hname]
  rw [portableEntry_text h.shape hl h.links, List.map_singleton, editorBlock, properties, if_pos hcta,
    field_of_get hdefs, elements]
  dsimp only
  rw [hlabel, halignment, field_of_get hkey, hlink _ (by decide), h.ctaTitle_eq, h.ctaHref_eq hs,
    field_of_get ((hlink "href" (by decide)).trans hs), ctaObject]

/-- A block that is no call to action is edited as it is. -/
theorem portableBlock_other (h : Shape v) (hcta : isCta (properties v) = false) :
    editorBlock (portableEntry index v) = .ok (portableEntry index v) ∧
      portableBlock (portableEntry index v) = portableEntry index v := by
  have hother : ∀ {q : Properties} {type : String}, getProperty q "_type" = some (.string (js type)) →
      type ≠ "hailCta" → isCta q = false → editorBlock (.object q) = .ok (.object q) ∧
        portableBlock (.object q) = .object q := by
    intro q type htype hne hq
    have hnot : isText (getProperty q "_type") "hailCta" ≠ true := by
      rw [ne_eq, isText_eq_true, htype, Option.some.injEq, JsValue.string.injEq, js_inj]
      exact hne
    exact ⟨by rw [editorBlock, properties, hq, if_neg Bool.false_ne_true],
      by rw [portableBlock, properties, if_neg hnot]⟩
  rcases h with ⟨p, rfl, h⟩ | ⟨p, rfl, h⟩
  · have htype : getProperty ((mapProperty p "_type" fun _ => .string (js "hailImage")) ++
        [(js "_key", .string (keyOf "b" index))]) "_type" = some (.string (js "hailImage")) := by
      rw [getProperty_append, getProperty_mapProperty, if_pos rfl, h.type]
      rfl
    rw [portableEntry_image h]
    refine hother htype (by decide) ?_
    rw [isCta, htype]
    rfl
  · obtain ⟨children, hchildren, _⟩ := h.children
    obtain ⟨defs, hdefs, _⟩ := h.links
    have hget : ∀ name ≠ "_key", name ≠ "children" → name ≠ "markDefs" → getProperty
        (withParts p (mapFrom portableSpan 0 children) (defs.map portableLink) ++
          [(js "_key", .string (keyOf "b" index))]) name = getProperty p name := by
      intro name hname hname' hname''
      rw [getProperty_append, if_neg hname, Option.or_none, getProperty_withParts hname' hname'']
    rw [portableEntry_text h hchildren hdefs]
    refine hother ((hget _ (by decide) (by decide) (by decide)).trans h.type) (by decide) ?_
    rw [isCta, hget _ (by decide) (by decide) (by decide), hget _ (by decide) (by decide) (by decide)]
    exact hcta

/-- The block of a bundle that comes back from the editor. -/
def projectedEntry (index : ℕ) (v : Js) : Js :=
  let block := properties v
  if isCta block then
    .object (ctaPortable index (getProperty block "alignment") (label block) (ctaHref block)
      (ctaTitle block))
  else portableEntry index v

structure Editable (v : Js) : Prop where
  shape : Shape v
  distinct : DistinctNames v
  button : isCta (properties v) = true → IsButton v

theorem projectBlocks_portableEntry (hl : ∀ v ∈ l, Editable v) (index : ℕ) :
    projectBlocks (mapFrom portableEntry index l) = .ok (mapFrom projectedEntry index l) := by
  induction l generalizing index with
  | nil => rfl
  | cons v l ih =>
    obtain ⟨hv, hrest⟩ := List.forall_mem_cons.1 hl
    have hprojected : ∃ edited, editorBlock (portableEntry index v) = .ok edited ∧
        portableBlock edited = projectedEntry index v := by
      cases hcta : isCta (properties v) with
      | true =>
        obtain ⟨p, d, key, rfl, hbutton⟩ := hv.button hcta
        refine ⟨_, hbutton.editorBlock_eq, ?_⟩
        rw [portableBlock_ctaObject, projectedEntry, if_pos hcta, properties]
      | false =>
        obtain ⟨hedited, hback⟩ := @portableBlock_other v index hv.shape hcta
        refine ⟨_, hedited, ?_⟩
        rw [hback, projectedEntry, hcta, if_neg Bool.false_ne_true]
    obtain ⟨edited, hedited, hback⟩ := hprojected
    rw [mapFrom, mapFrom, projectBlocks, hedited, ok_bind, ih hrest (index + 1), ok_bind, hback]

theorem keyed_projectedEntry (hl : ∀ v ∈ l, Shape v) (index : ℕ) :
    Keyed "b" index (mapFrom projectedEntry index l) := by
  induction l generalizing index with
  | nil => exact .nil index
  | cons v l ih =>
    obtain ⟨hv, hrest⟩ := List.forall_mem_cons.1 hl
    rw [mapFrom]
    by_cases hcta : isCta (properties v) = true
    · rw [projectedEntry, if_pos hcta]
      exact .cons rfl (ih hrest (index + 1))
    · obtain ⟨p, hp, hkey⟩ := key_portableEntry hv index
      rw [projectedEntry, if_neg hcta, hp]
      exact .cons hkey (ih hrest (index + 1))

theorem read_projectedEntry (hl : ∀ v ∈ l, Editable v) (hsize : elementSizes l ≤ 360000)
    (index : ℕ) : List.Forall₂ (fun entry v => ∀ path, readEntry path (properties entry) = .ok v)
      (mapFrom projectedEntry index l) (l.map relinked) := by
  induction l generalizing index with
  | nil => exact .nil
  | cons v l ih =>
    obtain ⟨hv, hrest⟩ := List.forall_mem_cons.1 hl
    have hchildren := length_children hv.shape
    rw [elementSizes] at hsize
    refine .cons (fun path => ?_) (ih hrest (by omega) (index + 1))
    by_cases hcta : isCta (properties v) = true
    · rw [projectedEntry, if_pos hcta, relinked, if_pos hcta, properties]
      exact readEntry_ctaPortable
    · rw [projectedEntry, if_neg hcta, relinked, if_neg hcta]
      exact readEntry_portableEntry hv.shape hv.distinct (by omega)

theorem memberSizes_optional (name : String) (v : Option Js) :
    memberSizes (optionalMember name v) =
      (v.map fun v => quoteSize (js name) + jsonSize v + 2).getD 0 := by
  cases v with
  | none => rfl
  | some v => exact Nat.add_zero _

theorem jsonSize_ctaPortable {alignment title : Option Js} {text href : JsString}
    (hindex : index < 1000000) : jsonSize (.object (ctaPortable index alignment text href title)) ≤
      2 * jsonSize (.object (ctaForm "ctaLink" alignment text href title)) := by
  have hkey := memberSizes_key (by decide : (js "b").all isKeyUnit = true) (by decide) hindex
  have hnames : quoteSize (js "_type") = 7 ∧ quoteSize (js "_key") = 6 ∧ quoteSize (js "block") = 7 ∧
      quoteSize (js "style") = 7 ∧ quoteSize (js "cta") = 5 ∧ quoteSize (js "children") = 10 ∧
      quoteSize (js "markDefs") = 10 ∧ quoteSize (js "label") = 7 ∧ quoteSize (js "ctaLink") = 9 ∧
      quoteSize (js "link") = 6 ∧ quoteSize (js "spt.link") = 10 ∧ quoteSize (js "span") = 6 := by
    decide
  simp only [ctaPortable, ctaForm, ctaSpan, ctaLink, jsonSize, memberSizes, elementSizes,
    memberSizes_append, memberSizes_optional, hnames] at hkey ⊢
  omega

theorem elementSizes_projectedEntry (hl : ∀ v ∈ l, Editable v) (hsize : elementSizes l ≤ 360000)
    (hbound : index + l.length ≤ 1000000) :
    elementSizes (mapFrom projectedEntry index l) ≤ 2 * elementSizes (l.map relinked) := by
  induction l generalizing index with
  | nil => exact le_rfl
  | cons v l ih =>
    obtain ⟨hv, hrest⟩ := List.forall_mem_cons.1 hl
    have hchildren := length_children hv.shape
    rw [List.length_cons] at hbound
    rw [elementSizes] at hsize
    have hindex : index < 1000000 := by omega
    have hone : jsonSize (projectedEntry index v) ≤ 2 * jsonSize (relinked v) := by
      by_cases hcta : isCta (properties v) = true
      · rw [projectedEntry, if_pos hcta, relinked, if_pos hcta]
        exact jsonSize_ctaPortable hindex
      · rw [projectedEntry, if_neg hcta, relinked, if_neg hcta]
        exact jsonSize_portableEntry hv.shape hv.distinct hindex (by omega)
    have hsizes := ih hrest (by omega) (by omega : index + 1 + l.length ≤ 1000000)
    rw [mapFrom, List.map_cons, elementSizes, elementSizes]
    omega

end Editing

/-! ## What a call to action says -/

section Saying

variable {p d : Properties} {key : JsString} {v : Js}

/-- A block whose spans all have the same marks. -/
theorem marked_uniform {block : Properties} {marks : List JsString}
    (h : ∀ span ∈ spans block, spanMarks block span = marks) :
    Runs.marked (pieces block) = (label block).map fun unit => (unit, marks) := by
  rw [marked_pieces, placed, label]
  generalize spans block = l at h
  induction l with
  | nil => rfl
  | cons span l ih =>
    obtain ⟨hspan, hrest⟩ := List.forall_mem_cons.1 h
    rw [List.flatMap_cons, List.flatMap_cons, List.map_append, List.map_append, ih hrest,
      List.map_map]
    simp only [Function.comp_def, hspan]

theorem Button.marks_eq (h : Button p d key) :
    ∀ span ∈ spans p, spanMarks p span = [linkText d] := by
  obtain ⟨l, hl, _, hspans⟩ := h.children
  intro span hspan
  rw [spans, field_of_get hl, elements, List.mem_map] at hspan
  obtain ⟨v, hv, rfl⟩ := hspan
  obtain ⟨q, rfl, _, hmarks⟩ := hspans v hv
  have hmarks' : marks q = [key] := by
    rw [marks, field_of_get hmarks]
    rfl
  have hdefinition : definition p key = some (.object d) := by
    rw [definition, field_of_get h.links, elements, List.find?_cons, properties,
      field_of_get h.name, string, beq_self_eq_true]
  rw [spanMarks, properties, hmarks', List.map_singleton, markText, hdefinition]
  rfl

theorem linkText_ctaLink {key : String} {href : JsString}
    (hhref : getProperty d "href" = some (.string href)) :
    linkText (ctaLink key href (getProperty d "title")) = linkText d := by
  have htitle : field (ctaLink key href (getProperty d "title")) "title" = field d "title" := by
    rw [field, field]
    cases getProperty d "title" <;> rfl
  have hhref' : field (ctaLink key href (getProperty d "title")) "href" = field d "href" := by
    rw [field_of_get hhref]
    rfl
  rw [linkText, linkText, htitle, hhref']

theorem blockRuns_button (h : Button p d key) :
    blockRuns p = Runs.join [(label p, [linkText d])] := by
  rw [blockRuns_eq, Runs.join_eq_iff, marked_uniform h.marks_eq]
  simp [Runs.marked, Runs.letters]

/-- Buttons with the same label, link and alignment say the same. -/
theorem blockSemantics_button {p' d' : Properties} {key' : JsString} (h : Button p d key)
    (h' : Button p' d' key') (halignment : field p "alignment" = field p' "alignment")
    (hlabel : label p = label p') (hlink : linkText d = linkText d') :
    blockSemantics (.object p) = blockSemantics (.object p') := by
  have hruns : blockRuns p = blockRuns p' := by
    rw [blockRuns_button h, blockRuns_button h', hlabel, hlink]
  have himage : isImage p = false := isImage_of_isCta h.cta
  have himage' : isImage p' = false := isImage_of_isCta h'.cta
  rw [blockSemantics, blockSemantics, properties, properties, himage, himage',
    if_neg Bool.false_ne_true, if_neg Bool.false_ne_true, halignment, hruns,
    field_of_get h.style, field_of_get h'.style, field_of_none h.listItem, field_of_none h'.listItem]
  rfl

variable {alignment title : Option Js} {text href : JsString} {name : String}

theorem alignment_ctaForm :
    getProperty (ctaForm name alignment text href title) "alignment" = alignment := by
  cases alignment <;> rfl

theorem label_ctaForm : label (ctaForm name alignment text href title) = text := by
  cases alignment <;> exact List.append_nil text

theorem title_ctaLink : getProperty (ctaLink name href title) "title" = title := by
  cases title <;> rfl

theorem button_ctaForm : Button (ctaForm name alignment text href title) (ctaLink name href title)
    (js name) := by
  have hlink : LinkShape (ctaLink name href title) := by
    refine ⟨?_, ?_⟩
    · cases title <;> simp [HasFields, ctaLink, optionalMember]
    · cases title <;> rfl
  have hspan : SpanShape (ctaSpan name text) :=
    ⟨by simp [HasFields, ctaSpan], rfl, text, rfl⟩
  have hchildren : getProperty (ctaForm name alignment text href title) "children" =
      some (.array [.object (ctaSpan name text)]) := by
    cases alignment <;> rfl
  have hlinks : getProperty (ctaForm name alignment text href title) "markDefs" =
      some (.array [.object (ctaLink name href title)]) := by
    cases alignment <;> rfl
  refine ⟨⟨?_, ?_, ⟨_, hchildren, ?_⟩, _, hlinks, ?_⟩, ?_, ?_, ?_, hlinks, ?_, ⟨href, ?_⟩, _,
    hchildren, List.cons_ne_nil _ _, ?_⟩
  · cases alignment <;> simp [HasFields, ctaForm, optionalMember]
  · cases alignment <;> rfl
  · rintro v hv
    rw [List.mem_singleton.1 hv]
    exact ⟨_, rfl, hspan⟩
  · rintro v hv
    rw [List.mem_singleton.1 hv]
    exact ⟨_, rfl, hlink⟩
  · cases alignment <;> rfl
  · cases alignment <;> rfl
  · cases alignment <;> rfl
  · cases title <;> rfl
  · cases title <;> rfl
  · rintro v hv
    rw [List.mem_singleton.1 hv]
    exact ⟨_, rfl, hspan, rfl⟩

/-- The block as it is brought back says what it said. -/
theorem blockSemantics_relinked (h : isCta (properties v) = true → IsButton v) :
    blockSemantics (relinked v) = blockSemantics v := by
  by_cases hcta : isCta (properties v) = true
  · obtain ⟨p, d, key, rfl, hbutton⟩ := h hcta
    obtain ⟨address, haddress⟩ := hbutton.href
    rw [relinked, if_pos hcta, properties, hbutton.ctaHref_eq haddress, hbutton.ctaTitle_eq]
    refine blockSemantics_button button_ctaForm hbutton ?_ label_ctaForm
      (linkText_ctaLink haddress)
    rw [field, alignment_ctaForm]
    rfl
  · rw [relinked, if_neg hcta]

end Saying

end HailProto.Content.Builder
