import HailProto.Content.Grouping
import HailProto.Core.Pairing

/-!
# The renderer accepts every valid body

The renderer checks again, over the JSON form, what the validators of the codec have checked over
the payload. Its checks are weaker, so it renders every valid body, and what it renders is related
to the body entry by entry: the texts, the marks and links of their spans, and the images with the
bytes of the assets they name.
-/

namespace HailProto.Content

open Cbor (Value asBytes)
open Codec
open Codec.TypeScript (strictEqual convertToDiagnostic convertEntries convertItems)

/-- The `src` that shows these bytes. -/
def imageSource (data : List UInt8) : String :=
  "data:image/png;base64," ++ standardBase64 (encodeBase64Url data)

/-- An optional text as the renderer has it. -/
def ShowsOptional (v : Option Value) (shown : Option String) : Prop := v = shown.map .text

/-- The mark definition is this link, under this key. -/
def ShowsLink (lib : RendererLibraries) (v : Value) (key : String) (link : MessageLink) : Prop :=
  ∃ d : Record, v = .map d ∧ d.get "_key" = some (.text key) ∧
    d.get "href" = some (.text link.href) ∧ ShowsOptional (d.get "title") link.title ∧
    link.hostname = lib.hostname link.href

/-- The span has this text, these marks and, where one of them is the key of a definition, its
link. -/
def ShowsSpan (lib : RendererLibraries) (defs : List Value) (v : Value) (span : MessageSpan) :
    Prop :=
  ∃ (s : Record) (marks : List String), v = .map s ∧ s.get "text" = some (.text span.text) ∧
    s.get "marks" = some (.array (marks.map .text)) ∧
    (span.strong = true ↔ "strong" ∈ marks) ∧ (span.emphasis = true ↔ "em" ∈ marks) ∧
    (span.code = true ↔ "code" ∈ marks) ∧
    ∀ link, span.link = some link ↔ ∃ d ∈ defs, ∃ key ∈ marks, ShowsLink lib d key link

/-- The entry is a text block, shown as this block. -/
def ShowsText (lib : RendererLibraries) (v : Value) (block : MessageBlock) : Prop :=
  ∃ b : Record, v = .map b ∧ b.get "_type" = some (.text "block") ∧ block.image = none ∧
    b.get "style" = some (.text block.style.name) ∧
    b.get "listItem" = block.listItem.map (fun kind => .text kind.name) ∧
    (b.get "level" = none ∧ block.level = 1 ∨ b.get "level" = some (.int block.level)) ∧
    b.get "alignment" = block.alignment.map (fun alignment => .text alignment.name) ∧
    ∃ defs children, b.get "markDefs" = some (.array defs) ∧
      b.get "children" = some (.array children) ∧
      List.Forall₂ (ShowsSpan lib defs) children block.spans

/-- The entry is an image block, shown as this image of an asset of the body. -/
def ShowsImage (m : Record) (v : Value) (image : MessageImage) : Prop :=
  ∃ b : Record, v = .map b ∧ b.get "_type" = some (.text "spt.image") ∧
    b.get "alt" = some (.text image.alt) ∧ ShowsOptional (b.get "caption") image.caption ∧
    ∃ (manifest : Record) (entries : List Value) (asset : Record) (data : List UInt8),
      m.get "assets" = some (.map manifest) ∧ manifest.get "assets" = some (.array entries) ∧
      Value.map asset ∈ entries ∧ asset.get "id" = b.get "asset" ∧
      asset.get "data" = some (.bytes data) ∧ image.src = imageSource data ∧
      asset.get "width" = some (.int image.width) ∧
      asset.get "height" = some (.int image.height)

/-- The entry of the body is shown as this block. -/
def ShowsEntry (lib : RendererLibraries) (m : Record) (v : Value) (block : MessageBlock) : Prop :=
  ShowsText lib v block ∨ ∃ image, block = imageBlock image ∧ ShowsImage m v image

/-- The header image and the blocks after it are the entries of the body, one by one. -/
def Shows (lib : RendererLibraries) (m : Record) (rendered : RenderedBody) : Prop :=
  ∃ entries, m.get "blocks" = some (.array entries) ∧
    List.Forall₂ (ShowsEntry lib m) entries
      (rendered.header.toList.map imageBlock ++ rendered.blocks)

section Json

variable {redact : Bool} {r : Record} {k : String}

/-- The conversion keeps every member but a token that is to be hidden. -/
theorem get_convertEntries (hk : k ≠ "token") :
    Record.get (convertEntries redact r) k = (r.get k).map (convertToDiagnostic redact) := by
  induction r with
  | nil => rfl
  | cons e r ih =>
    obtain ⟨key, entry⟩ := e
    simp only [Record.get, convertEntries, List.find?_cons] at ih ⊢
    cases hkey : Value.isText k key with
    | true =>
      have htoken : Value.isText "token" key = false := by
        rw [Value.isText_iff] at hkey
        rw [hkey, Bool.eq_false_iff, ne_eq, Value.isText_iff, Value.text.injEq]
        exact hk
      simp [htoken]
    | false => exact ih

theorem convertToDiagnostic_array (values : List Value) :
    convertToDiagnostic redact (.array values) =
      .array (values.map (convertToDiagnostic redact)) := by
  rw [convertToDiagnostic, TypeScript.convertItems_eq_map]

theorem map_convert_texts (texts : List String) :
    (texts.map Value.text).map (convertToDiagnostic redact) = texts.map .text := by
  simp [List.map_map, Function.comp_def, convertToDiagnostic]

theorem get_text {s : String} (hk : k ≠ "token") (h : r.get k = some (.text s)) :
    Record.get (convertEntries redact r) k = some (.text s) := by
  rw [get_convertEntries hk, h]
  rfl

theorem get_int {n : Int} (hk : k ≠ "token") (h : r.get k = some (.int n)) :
    Record.get (convertEntries redact r) k = some (.int n) := by
  rw [get_convertEntries hk, h]
  rfl

theorem get_none (hk : k ≠ "token") (h : r.get k = none) :
    Record.get (convertEntries redact r) k = none := by
  rw [get_convertEntries hk, h]
  rfl

theorem get_array {values : List Value} (hk : k ≠ "token") (h : r.get k = some (.array values)) :
    Record.get (convertEntries redact r) k =
      some (.array (values.map (convertToDiagnostic redact))) := by
  rw [get_convertEntries hk, h, Option.map_some, convertToDiagnostic_array]

theorem get_map {m : Record} (hk : k ≠ "token") (h : r.get k = some (.map m)) :
    Record.get (convertEntries redact r) k = some (.map (convertEntries redact m)) := by
  rw [get_convertEntries hk, h]
  rfl

/-- An optional text is read as it is. -/
theorem optionalText_eq_ok (redact : Bool) (label : String) (hk : k ≠ "token")
    (h : r.get k = none ∨ ∃ s, r.get k = some (.text s)) :
    ∃ shown, optionalText (Record.get (convertEntries redact r) k) label = .ok shown ∧
      ShowsOptional (r.get k) shown := by
  obtain h | ⟨s, h⟩ := h
  · rw [get_none hk h]
    exact ⟨none, rfl, h⟩
  · rw [get_text hk h]
    exact ⟨some s, rfl, h⟩

/-- A map over converted entries succeeds when it does on each of them. -/
theorem mapM_convert {β : Type} {f : Value → Except String β} {R : Value → β → Prop}
    {values : List Value}
    (h : ∀ v ∈ values, ∃ b, f (convertToDiagnostic redact v) = .ok b ∧ R v b) :
    ∃ bs, (values.map (convertToDiagnostic redact)).mapM f = .ok bs ∧
      List.Forall₂ R values bs := by
  induction values with
  | nil => exact ⟨[], rfl, .nil⟩
  | cons v values ih =>
    rw [List.forall_mem_cons] at h
    obtain ⟨⟨b, hb, hR⟩, hrest⟩ := h
    obtain ⟨bs, hbs, hall⟩ := ih hrest
    rw [mapM_eq_ok] at hbs
    refine ⟨b :: bs, ?_, .cons hR hall⟩
    rw [List.map_cons, mapM_eq_ok]
    exact .cons hb hbs

@[simp] theorem text_text (s label : String) : text (some (.text s)) label = .ok s := rfl

@[simp] theorem object_map (r : Record) (label : String) : object (some (.map r)) label = .ok r :=
  rfl

end Json

section Links

variable {lib : RendererLibraries} {redact : Bool} {defs : List Value} {links : List Link}
  {definitions : List (String × MessageLink)} {key : String} {link : MessageLink}

theorem definitionOf_eq_some (hkeys : (definitions.map Prod.fst).Nodup) :
    definitionOf definitions key = some link ↔ (key, link) ∈ definitions := by
  unfold definitionOf
  constructor
  · intro h
    obtain ⟨⟨key', link'⟩, hfind, rfl⟩ := Option.map_eq_some_iff.1 h
    have hkey := List.find?_some hfind
    rw [beq_iff_eq] at hkey
    rw [← hkey]
    exact List.mem_of_find?_eq_some hfind
  · intro h
    induction definitions with
    | nil => cases h
    | cons d definitions ih =>
      rw [List.map_cons, List.nodup_cons] at hkeys
      obtain rfl | hmem := List.mem_cons.1 h
      · simp
      · have hne : (d.1 == key) = false := by
          rw [beq_eq_false_iff_ne]
          rintro rfl
          exact hkeys.1 (List.mem_map.2 ⟨_, hmem, rfl⟩)
        rw [List.find?_cons, hne]
        exact ih hkeys.2 hmem

theorem definitionOf_isSome :
    (definitionOf definitions key).isSome = true ↔ key ∈ definitions.map Prod.fst := by
  unfold definitionOf
  rw [Option.isSome_map, List.find?_isSome, List.mem_map]
  refine exists_congr fun d => and_congr_right fun _ => ?_
  rw [beq_iff_eq]

/-- An address of the codec's rule for links is one of the renderer's. -/
theorem supportedUrl_of_linkHref {href : String} (h : TypeScript.linkHref lib.toLibraries href = true) :
    ∃ url, lib.newUrl href = some url ∧ supportedUrl url = true := by
  unfold TypeScript.linkHref at h
  split at h
  · rename_i url hurl
    refine ⟨url, hurl, ?_⟩
    simp only [TypeScript.plainHttps, Bool.and_eq_true] at h
    simp only [supportedUrl, Bool.and_eq_true]
    exact ⟨⟨h.1.1.2, h.1.2⟩, h.2⟩
  · cases h

/-- The loop reads every definition as the link it is. -/
theorem linkDefinitions_eq_ok (redact : Bool) (definitions : List (String × MessageLink))
    (hlinks : List.Forall₂
      (ReadsLink fun href => TypeScript.linkHref lib.toLibraries href = true) defs links)
    (hkeys : (definitions.map Prod.fst ++ links.map Link.key).Nodup) :
    ∃ result, linkDefinitions lib definitions (defs.map (convertToDiagnostic redact)) =
        .ok (definitions ++ result) ∧
      List.Forall₂ (fun d p => ShowsLink lib d p.1 p.2) defs result ∧
      result.map Prod.fst = links.map Link.key ∧
      result.map (fun p => p.2.href) = links.map Link.href := by
  induction hlinks generalizing definitions with
  | nil => exact ⟨[], by simp [linkDefinitions], .nil, rfl, rfl⟩
  | @cons v l defs links hlink _ ih =>
    obtain ⟨d, rfl, hexact, hkey, _, htype, ⟨hhref, hurl⟩, htitle⟩ := hlink
    obtain ⟨url, hnew, hsupported⟩ := supportedUrl_of_linkHref hurl
    obtain ⟨title, htitle', hshows⟩ :=
      optionalText_eq_ok redact "link title" (by decide) htitle
    have hfresh : (definitionOf definitions l.key).isSome = false := by
      rw [Bool.eq_false_iff, ne_eq, definitionOf_isSome]
      intro hmem
      exact (List.nodup_append.1 hkeys).2.2 _ hmem _ (by simp) rfl
    have hnext : ((definitions ++ [(l.key, MessageLink.mk l.href title (lib.hostname l.href))]).map
        Prod.fst ++ links.map Link.key).Nodup := by
      simpa [List.append_assoc] using hkeys
    obtain ⟨result, hresult, hall, hfst, hhrefs⟩ := ih _ hnext
    refine ⟨(l.key, ⟨l.href, title, lib.hostname l.href⟩) :: result, ?_, .cons ?_ hall, ?_, ?_⟩
    · rw [List.append_assoc, List.singleton_append] at hresult
      simp only [List.map_cons, convertToDiagnostic, linkDefinitions, object_map, ok_bind,
        get_text (by decide) hkey, get_text (by decide) hhref, get_text (by decide) htype, text_text,
        hnew, hsupported, hfresh, htitle', hresult, TypeScript.strictEqual_text.2, throwIf,
        Bool.not_true, Bool.or_self, Bool.false_eq_true, if_false]
    · exact ⟨d, rfl, hkey, hhref, hshows, rfl⟩
    · rw [List.map_cons, List.map_cons, hfst]
    · rw [List.map_cons, List.map_cons, hhrefs]

end Links

section Spans

variable {lib : RendererLibraries} {redact : Bool} {v : Value} {defs : List Value}
  {definitions : List (String × MessageLink)} {span : Span}

/-- The rendered form of a span that was read. -/
def spanOf (definitions : List (String × MessageLink)) (span : Span) : MessageSpan where
  text := span.text
  strong := span.marks.contains "strong"
  emphasis := span.marks.contains "em"
  code := span.marks.contains "code"
  link := (span.marks.filterMap (definitionOf definitions)).head?

theorem length_filterMap_definitionOf (marks : List String) :
    (marks.filterMap (definitionOf definitions)).length =
      (marks.filter (definitions.map Prod.fst).contains).length := by
  induction marks with
  | nil => rfl
  | cons mark marks ih =>
    have hsome : (definitionOf definitions mark).isSome = true ↔ _ := definitionOf_isSome
    rw [← List.contains_iff_mem] at hsome
    cases hdefinition : definitionOf definitions mark with
    | none =>
      rw [hdefinition] at hsome
      have hfalse : (definitions.map Prod.fst).contains mark = false := by
        rw [Bool.eq_false_iff, ne_eq, ← hsome]
        simp
      rw [List.filterMap_cons_none hdefinition, List.filter_cons, hfalse, ih]
      rfl
    | some link =>
      rw [hdefinition] at hsome
      rw [List.filterMap_cons_some hdefinition, List.filter_cons_of_pos (hsome.1 rfl),
        List.length_cons, List.length_cons, ih]

theorem mapM_marks (marks : List String) :
    ((marks.map Value.text).mapM fun mark => text (some mark) "span mark") = .ok marks := by
  rw [mapM_eq_ok]
  induction marks with
  | nil => exact .nil
  | cons mark marks ih => exact .cons rfl ih

theorem renderSpan_eq_ok (h : ReadsSpan (definitions.map Prod.fst) v span) :
    renderSpan definitions (convertToDiagnostic redact v) = .ok (spanOf definitions span) := by
  obtain ⟨s, rfl, _, htype, htext, hmarks, hnodup, hknown, hone⟩ := h
  have hdedup : (span.marks.dedup.length != span.marks.length) = false := by
    rw [bne_eq_false_iff_eq]
    exact dedup_length_iff.2 hnodup
  have hlinks : decide ((span.marks.filterMap (definitionOf definitions)).length > 1) = false := by
    rw [length_filterMap_definitionOf]
    exact decide_eq_false (by omega)
  have hnames : (span.marks.any fun mark => !decorators.contains mark &&
      (definitionOf definitions mark).isNone) = false := by
    rw [List.any_eq_false]
    intro mark hmark
    rw [Bool.and_eq_true, not_and, Bool.not_eq_true', ← Bool.not_eq_true, List.contains_iff_mem]
    intro hdecorator hnone
    obtain h | h := hknown mark hmark
    · exact hdecorator h
    · rw [← definitionOf_isSome, Option.isSome_iff_ne_none] at h
      exact h (Option.isNone_iff_eq_none.1 hnone)
  simp only [convertToDiagnostic, renderSpan, object_map, ok_bind, get_text (by decide) htype,
    get_text (by decide) htext, get_array (by decide) hmarks, map_convert_texts, mapM_marks,
    TypeScript.strictEqual_text.2, hdedup, hlinks, hnames, throwIf, text_text, Bool.or_self,
    Bool.false_eq_true, if_false, spanOf]

/-- What a span is rendered as has its marks and its link. -/
theorem showsSpan_spanOf (h : ReadsSpan (definitions.map Prod.fst) v span)
    (hkeys : (definitions.map Prod.fst).Nodup)
    (hdefs : List.Forall₂ (fun d p => ShowsLink lib d p.1 p.2) defs definitions) :
    ShowsSpan lib defs v (spanOf definitions span) := by
  obtain ⟨s, rfl, _, _, htext, hmarks, _, _, hone⟩ := h
  refine ⟨s, span.marks, rfl, htext, hmarks, List.contains_iff_mem, List.contains_iff_mem,
    List.contains_iff_mem, fun link => ?_⟩
  have hlength : (span.marks.filterMap (definitionOf definitions)).length ≤ 1 := by
    rwa [length_filterMap_definitionOf]
  have hhead : (spanOf definitions span).link = some link ↔
      link ∈ span.marks.filterMap (definitionOf definitions) := by
    simp only [spanOf]
    cases hfilter : span.marks.filterMap (definitionOf definitions) with
    | nil => simp
    | cons x xs =>
      rw [hfilter, List.length_cons] at hlength
      have hxs : xs = [] := List.length_eq_zero_iff.1 (by omega)
      subst hxs
      simp [eq_comm]
  rw [hhead, List.mem_filterMap]
  constructor
  · rintro ⟨key, hkey, hdefinition⟩
    rw [definitionOf_eq_some hkeys] at hdefinition
    obtain ⟨d, hd, hshows⟩ := forall₂_right hdefs hdefinition
    exact ⟨d, hd, key, hkey, hshows⟩
  · rintro ⟨d, hd, key, hkey, hshows⟩
    refine ⟨key, hkey, ?_⟩
    obtain ⟨⟨key', link'⟩, hmem, hshows'⟩ := forall₂_left hdefs hd
    obtain ⟨r, rfl, hk, hhref, htitle, hhost⟩ := hshows
    obtain ⟨r', hr', hk', hhref', htitle', hhost'⟩ := hshows'
    cases hr'
    -- Both readings of the definition give one key and one link.
    have hkeyEq : key' = key := by
      rw [hk] at hk'
      cases hk'
      rfl
    have hlinkEq : link' = link := by
      obtain ⟨href, title, host⟩ := link
      obtain ⟨href', title', host'⟩ := link'
      dsimp only at hhref hhref' htitle htitle' hhost hhost'
      rw [hhref] at hhref'
      cases hhref'
      have htitles : title'.map Value.text = title.map Value.text := htitle'.symm.trans htitle
      have hinjective : Function.Injective Value.text := fun _ _ h => Value.text.inj h
      rw [Option.map_injective hinjective htitles, hhost, hhost']
    rw [← hkeyEq, ← hlinkEq]
    exact (definitionOf_eq_some hkeys).2 hmem

theorem renderSpans_eq_ok {children : List Value} {spans : List Span}
    (h : List.Forall₂ (ReadsSpan (definitions.map Prod.fst)) children spans) :
    (children.map (convertToDiagnostic redact)).mapM (renderSpan definitions) =
      .ok (spans.map (spanOf definitions)) := by
  rw [mapM_eq_ok]
  induction h with
  | nil => exact .nil
  | cons hspan _ ih => exact .cons (renderSpan_eq_ok hspan) ih

theorem showsSpans_spanOf {children : List Value} {spans : List Span}
    (h : List.Forall₂ (ReadsSpan (definitions.map Prod.fst)) children spans)
    (hkeys : (definitions.map Prod.fst).Nodup)
    (hdefs : List.Forall₂ (fun d p => ShowsLink lib d p.1 p.2) defs definitions) :
    List.Forall₂ (ShowsSpan lib defs) children (spans.map (spanOf definitions)) := by
  induction h with
  | nil => exact .nil
  | cons hspan _ ih => exact .cons (showsSpan_spanOf hspan hkeys hdefs) ih

theorem plain_spanOf (spans : List Span) :
    plain (spans.map (spanOf definitions)) = joined spans := by
  induction spans with
  | nil => rfl
  | cons span spans ih =>
    simp only [plain, List.map_cons, List.foldr_cons, joined] at ih ⊢
    rw [ih]
    rfl

end Spans

section Texts

variable {lib : RendererLibraries} {redact : Bool} {body b : Record} {k : String}

theorem named_of_mem {α : Type} (all : List α) (name : α → String) {s : String}
    (h : s ∈ all.map name) : ∃ a, named all name (some (.text s)) = some a ∧ name a = s := by
  obtain ⟨a, ha, rfl⟩ := List.mem_map.1 h
  have hsome : (named all name (some (.text (name a)))).isSome = true :=
    List.find?_isSome.2 ⟨a, ha, TypeScript.strictEqual_text.2 rfl⟩
  obtain ⟨a', ha'⟩ := Option.isSome_iff_exists.1 hsome
  have hname := List.find?_some ha'
  rw [TypeScript.strictEqual_text, Option.some.injEq, Value.text.injEq] at hname
  exact ⟨a', ha', hname.symm⟩

/-- An optional member of an enumeration is read as the one it names. -/
theorem named_optional {α : Type} (all : List α) (name : α → String)
    (h : b.get k = none ∨ OneOf (all.map name) (b.get k)) :
    ∃ a : Option α, b.get k = a.map (fun a => .text (name a)) ∧
      ∀ x, a = some x → named all name (b.get k) = some x := by
  obtain h | ⟨s, hs, h⟩ := h
  · refine ⟨none, h, ?_⟩
    intro x hx
    cases hx
  · obtain ⟨a, ha, rfl⟩ := named_of_mem all name hs
    refine ⟨some a, h, ?_⟩
    rintro x ⟨⟩
    rw [h]
    exact ha

theorem listItemOf_eq_ok (redact : Bool)
    (h : b.get "listItem" = none ∨ OneOf listItems (b.get "listItem")) :
    ∃ listItem : Option ListKind,
      listItemOf (Record.get (convertEntries redact b) "listItem") = .ok listItem ∧
        b.get "listItem" = listItem.map fun kind => .text kind.name := by
  obtain ⟨a, ha, hnamed⟩ := named_optional ListKind.all ListKind.name h
  refine ⟨a, ?_, ha⟩
  cases a with
  | none =>
    rw [get_none (by decide) ha]
    rfl
  | some kind =>
    rw [get_text (by decide) ha]
    rw [ha] at hnamed
    simp only [listItemOf]
    rw [show some (Value.text kind.name) = Option.map (fun kind => .text kind.name) (some kind)
      from rfl, hnamed kind rfl]

theorem alignmentOf_eq_ok (redact : Bool)
    (h : b.get "alignment" = none ∨ OneOf alignments (b.get "alignment")) :
    ∃ alignment : Option Alignment,
      alignmentOf (Record.get (convertEntries redact b) "alignment") = .ok alignment ∧
        b.get "alignment" = alignment.map fun alignment => .text alignment.name := by
  obtain ⟨a, ha, hnamed⟩ := named_optional Alignment.all Alignment.name h
  refine ⟨a, ?_, ha⟩
  cases a with
  | none =>
    rw [get_none (by decide) ha]
    rfl
  | some alignment =>
    have hstring : stringOf (some (.text alignment.name)) = .ok alignment.name := by
      simp [stringOf, TypeScript.string, TypeScript.stringOf, Except.map]
    rw [get_text (by decide) ha]
    rw [ha] at hnamed
    simp only [alignmentOf, hstring, ok_bind]
    rw [show some (Value.text alignment.name) =
      Option.map (fun alignment => .text alignment.name) (some alignment) from rfl,
      hnamed alignment rfl]

theorem levelOf_eq_ok (redact : Bool) {listItem : Option ListKind}
    (hlist : b.get "listItem" = listItem.map fun kind => .text kind.name)
    (h : b.get "level" = none ∨ (b.get "listItem").isSome ∧
      ∃ n, IsInteger 1 (b.get "level") n ∧ n ≤ 3) :
    ∃ level, levelOf (Record.get (convertEntries redact b) "level") listItem = .ok level ∧
      (b.get "level" = none ∧ level = 1 ∨ b.get "level" = some (.int level)) := by
  obtain h | ⟨hsome, n, ⟨hn, _, hone⟩, hthree⟩ := h
  · rw [get_none (by decide) h]
    exact ⟨1, rfl, .inl ⟨h, rfl⟩⟩
  · rw [get_int (by decide) hn]
    refine ⟨n, ?_, .inr hn⟩
    rw [hlist, Option.isSome_map] at hsome
    rw [levelOf, if_neg]
    rw [Option.isNone_iff_eq_none, ← Option.not_isSome_iff_eq_none]
    simp only [hsome, not_true_eq_false, or_false, not_or, not_lt]
    omega

/-- A span of the one link of a call to action. -/
theorem spanOf_action {key t : String} {link : MessageLink} (hkey : key ∉ decorators) :
    spanOf [(key, link)] ⟨t, [key]⟩ = ⟨t, false, false, false, some link⟩ := by
  simp only [decorators, List.mem_cons, List.not_mem_nil, or_false, not_or] at hkey
  have hstrong : "strong" ≠ key := fun h => hkey.1 h.symm
  have hem : "em" ≠ key := fun h => hkey.2.1 h.symm
  have hcode : "code" ≠ key := fun h => hkey.2.2 h.symm
  simp [spanOf, definitionOf, hstrong, hem, hcode]

/-- A call to action of the codec is one of the renderer. -/
theorem unsupportedAction_eq_false {links : List Link} {spans : List Span}
    {definitions : List (String × MessageLink)} (haction : CallToAction b links spans)
    (hspans : spans ≠ []) (hkeys : definitions.map Prod.fst = links.map Link.key)
    (hhrefs : definitions.map (fun p => p.2.href) = links.map Link.href)
    (hdecorators : ∀ link ∈ links, link.key ∉ decorators) :
    unsupportedAction none definitions (spans.map (spanOf definitions)) = false := by
  obtain ⟨_, _, link, rfl, hmarks, ⟨⟨c, hc, hblank⟩, hbreak, hsize⟩, hhref⟩ := haction
  obtain ⟨⟨key, shown⟩, rfl⟩ : ∃ p, definitions = [p] := by
    refine List.length_eq_one_iff.1 ?_
    have hlength := congrArg List.length hkeys
    simpa using hlength
  simp only [List.map_cons, List.map_nil, List.cons.injEq, and_true] at hkeys hhrefs
  subst hkeys
  have hkey := hdecorators link (by simp)
  have hshown (span : Span) (hspan : span ∈ spans) :
      spanOf [(link.key, shown)] span = ⟨span.text, false, false, false, some shown⟩ := by
    obtain ⟨t, marks⟩ := span
    have hone : marks = [link.key] := hmarks _ hspan
    subst hone
    exact spanOf_action hkey
  obtain ⟨first, rest, rfl⟩ := List.exists_cons_of_ne_nil hspans
  have hlabel : ((joined (first :: rest)).toList.filter (!isBlank ·)).isEmpty = false := by
    rw [List.isEmpty_eq_false_iff_exists_mem]
    exact ⟨c, List.mem_filter.2 ⟨hc, by rw [hblank]; rfl⟩⟩
  have hlines : (joined (first :: rest)).toList.any isLineBreak = false := by
    rw [List.any_eq_false]
    intro d hd
    rw [hbreak d hd]
    exact Bool.false_ne_true
  have hplain : ((first :: rest).map (spanOf [(link.key, shown)])).any (fun span =>
      span.link.isNone || span.strong || span.emphasis || span.code) = false := by
    rw [List.any_eq_false]
    intro span hspan
    obtain ⟨read, hread, rfl⟩ := List.mem_map.1 hspan
    rw [hshown read hread]
    simp
  have hfirst : (((first :: rest).map (spanOf [(link.key, shown)])).head?.bind
      MessageSpan.link).elim "" MessageLink.href = link.href := by
    rw [List.map_cons, hshown first (by simp), ← hhrefs]
    rfl
  simp only [unsupportedAction, plain_spanOf, hplain, hlabel, hlines, hfirst, Option.isSome_none,
    List.length_singleton, bne_self_eq_false, Bool.or_false, Bool.or_eq_false_iff,
    decide_eq_false_iff_not, not_lt, true_and]
  exact ⟨hsize, hhref⟩

/-- What the first profile asks of a block, beside the form of the second. -/
def IsPlain (b : Record) : Prop :=
  b.get "style" = some (.text "normal") ∧ b.get "listItem" = none ∧ b.get "level" = none ∧
    b.get "alignment" = none ∧ b.get "markDefs" = some (.array []) ∧
    ∀ children, b.get "children" = some (.array children) → ∀ child ∈ children, PlainSpan child

/-- The spans of the first profile have no marks. -/
theorem spans_isPlain (definitions : List (String × MessageLink)) {children : List Value}
    {keys : List String} {spans : List Span} (hchildren : ∀ child ∈ children, PlainSpan child)
    (hspans : List.Forall₂ (ReadsSpan keys) children spans) :
    (spans.map (spanOf definitions)).any (fun span =>
      span.strong || span.emphasis || span.code || span.link.isSome) = false := by
  rw [List.any_eq_false]
  intro span hspan
  obtain ⟨read, hread, rfl⟩ := List.mem_map.1 hspan
  obtain ⟨child, hchild, s, rfl, _, _, _, hmarks, _⟩ := forall₂_right hspans hread
  obtain ⟨s', hs', _, _, _, hempty⟩ := hchildren _ hchild
  cases hs'
  rw [hmarks, Option.some.injEq, Value.array.injEq, List.map_eq_nil_iff] at hempty
  simp [spanOf, hempty]

theorem renderText_eq_ok (redact : Bool) {profile : String}
    (hprofile : body.get "profile" = some (.text profile))
    (hplain : profile = "spt-1" → IsPlain b)
    (h : RichBlock (fun href => TypeScript.linkHref lib.toLibraries href = true) (.map b)) :
    ∃ block, renderText lib body (convertEntries redact b) = .ok block ∧
      ShowsText lib (.map b) block := by
  obtain ⟨_, hb, _, htype, ⟨s, hs, hstyle⟩, halignment, hlist, hlevel, defs, hdefs, links,
    ⟨hlinks, hnodup⟩, children, hchildren, hne, spans, hspans, haction⟩ := h
  cases hb
  obtain ⟨style, hnamed, rfl⟩ := named_of_mem MessageStyle.all MessageStyle.name hs
  obtain ⟨definitions, hdefinitions, hshown, hkeys, hhrefs⟩ :=
    linkDefinitions_eq_ok redact [] hlinks hnodup
  rw [List.nil_append] at hdefinitions
  rw [← hkeys] at hspans hnodup
  obtain ⟨listItem, hitem, hitem'⟩ := listItemOf_eq_ok redact hlist
  obtain ⟨level, hat, hat'⟩ := levelOf_eq_ok redact hitem' hlevel
  obtain ⟨alignment, haligned, haligned'⟩ := alignmentOf_eq_ok redact halignment
  have hspans_ne : spans ≠ [] := by
    rintro rfl
    cases hspans
    exact hne rfl
  have hdecorators : ∀ link ∈ links, link.key ∉ decorators := by
    intro link hlink
    obtain ⟨_, _, _, _, _, _, hkey, _⟩ := forall₂_right hlinks hlink
    exact hkey.2
  have hcta : (style == .cta && unsupportedAction listItem definitions
      (spans.map (spanOf definitions))) = false := by
    by_cases hstyleCta : style = .cta
    · have hcall := haction (by rw [hstyle, hstyleCta]; rfl)
      have hnone : listItem = none := by
        rw [hcall.1] at hitem'
        simpa using hitem'.symm
      rw [hnone, unsupportedAction_eq_false hcall hspans_ne hkeys hhrefs hdecorators,
        Bool.and_false]
    · rw [beq_eq_false_iff_ne.2 hstyleCta, Bool.false_and]
  have hspt1 : (strictEqual (body.get "profile") (some (.text "spt-1")) &&
      (style != .normal || listItem.isSome ||
        (Record.get (convertEntries redact b) "level").isSome ||
        (Record.get (convertEntries redact b) "alignment").isSome ||
        !(defs.map (convertToDiagnostic redact)).isEmpty ||
        (spans.map (spanOf definitions)).any fun span =>
          span.strong || span.emphasis || span.code || span.link.isSome)) = false := by
    by_cases hfirst : profile = "spt-1"
    · obtain ⟨hnormal, hnolist, hnolevel, hnoalignment, hnodefs, hspansPlain⟩ := hplain hfirst
      have hstyleNormal : style = .normal := by
        rw [hstyle, Option.some.injEq, Value.text.injEq] at hnormal
        cases style <;> first | rfl | exact absurd hnormal (by decide)
      have hnone : listItem = none := by
        rw [hnolist] at hitem'
        simpa using hitem'.symm
      rw [hdefs, Option.some.injEq, Value.array.injEq] at hnodefs
      have hany := spans_isPlain definitions (hspansPlain children hchildren) hspans
      rw [hany, get_none (by decide) hnolevel, get_none (by decide) hnoalignment, hstyleNormal,
        hnone, hnodefs]
      simp
    · have hfalse : strictEqual (body.get "profile") (some (.text "spt-1")) = false := by
        rw [Bool.eq_false_iff, ne_eq, TypeScript.strictEqual_text, hprofile, Option.some.injEq,
          Value.text.injEq]
        exact hfirst
      rw [hfalse, Bool.false_and]
  refine ⟨⟨none, style, alignment, listItem, level, spans.map (spanOf definitions)⟩, ?_, ?_⟩
  · simp only [renderText, get_text (by decide) htype, get_text (by decide) hstyle,
      get_array (by decide) hchildren, get_array (by decide) hdefs, TypeScript.strictEqual_text.2,
      hnamed, hdefinitions, renderSpans_eq_ok hspans, hitem, hat, haligned, hcta, hspt1, throwIf,
      ok_bind, Bool.false_eq_true, if_false]
  · exact ⟨b, rfl, htype, rfl, hstyle, hitem', hat', haligned', defs, children, hdefs, hchildren,
      showsSpans_spanOf hspans hnodup hshown⟩

end Texts

section Images

variable {lib : Libraries} {redact : Bool} {m b : Record} {entries : List Value}
  {assets : List BundledImageAsset} {asset : BundledImageAsset}

/-- The search finds a record of the first asset with a property, if there is one. -/
theorem findObject_eq_ok (redact : Bool) (test : Record → Bool) (p : BundledImageAsset → Bool)
    (label : String)
    (hreads : List.Forall₂ ReadsAsset entries assets)
    (htest : ∀ r asset, ReadsAsset (.map r) asset → test (convertEntries redact r) = p asset) :
    (findObject test label (entries.map (convertToDiagnostic redact)) = .ok none ∧
        ∀ asset ∈ assets, p asset = false) ∨
      ∃ r asset, findObject test label (entries.map (convertToDiagnostic redact)) =
          .ok (some (convertEntries redact r)) ∧
        Value.map r ∈ entries ∧ asset ∈ assets ∧ ReadsAsset (.map r) asset ∧ p asset = true := by
  induction hreads with
  | nil => exact .inl ⟨rfl, by simp⟩
  | @cons v a entries assets hread _ ih =>
    obtain ⟨r, rfl, _⟩ := id hread
    cases hp : p a with
    | true =>
      refine .inr ⟨r, a, ?_, by simp, by simp, hread, hp⟩
      simp only [List.map_cons, convertToDiagnostic, findObject, object_map, ok_bind,
        htest r a hread, hp, if_true]
    | false =>
      have hstep : findObject test label ((Value.map r :: entries).map
          (convertToDiagnostic redact)) =
          findObject test label (entries.map (convertToDiagnostic redact)) := by
        simp only [List.map_cons, convertToDiagnostic, findObject, object_map, ok_bind,
          htest r a hread, hp, Bool.false_eq_true, if_false]
      rw [hstep]
      obtain ⟨hnone, hall⟩ | ⟨r', a', hfound, hmem, ha', hread', hp'⟩ := ih
      · exact .inl ⟨hnone, List.forall_mem_cons.2 ⟨hp, hall⟩⟩
      · exact .inr ⟨r', a', hfound, List.mem_cons_of_mem _ hmem, List.mem_cons_of_mem _ ha',
          hread', hp'⟩

/-- The identifier of an asset is compared with that of an image block. -/
theorem strictEqual_id (redact : Bool) {r : Record} (hread : ReadsAsset (.map r) asset) (id : String) :
    strictEqual (Record.get (convertEntries redact r) "id") (some (.text id)) =
      (asset.id == id) := by
  obtain ⟨_, hr, _, hid, _⟩ := hread
  cases hr
  rw [get_text (by decide) hid, Bool.eq_iff_iff, TypeScript.strictEqual_text, beq_iff_eq,
    Option.some.injEq, Value.text.injEq]

theorem strictEqual_role (redact : Bool) {r : Record} (hread : ReadsAsset (.map r) asset) (role : String) :
    strictEqual (Record.get (convertEntries redact r) "role") (some (.text role)) =
      (asset.role == role) := by
  obtain ⟨_, hr, _, _, hrole, _⟩ := hread
  cases hr
  rw [get_text (by decide) hrole, Bool.eq_iff_iff, TypeScript.strictEqual_text, beq_iff_eq,
    Option.some.injEq, Value.text.injEq]

/-- The letters of a byte string say how many bytes it has. -/
theorem letters_size (data : List UInt8) : (encodeBase64Url data).length * 6 / 8 = data.length := by
  rw [length_encodeBase64Url]
  omega

/-- An asset of a message is one that the renderer shows. -/
theorem supportedAsset_eq_true (redact : Bool) {r : Record} (hread : ReadsAsset (.map r) asset)
    (hvalid : AssetValid lib asset) (hrole : asset.role ∈ ["header", "image"]) :
    supportedAsset (convertEntries redact r) asset.role (encodeBase64Url asset.data) = true := by
  obtain ⟨_, hr, _, _, hroleText, hmedia, hloading, hsize, hwidth, hheight, _, _⟩ := id hread
  cases hr
  obtain ⟨_, _, hpng, hbundled, hlength, hbytes, _, _, _, hwidthMax, hheightMax, hpixels⟩ := hvalid
  have hmaximum : (TypeScript.maximum asset.role).bytes = 196608 ∧
      (TypeScript.maximum asset.role).width = 2400 ∧
      (TypeScript.maximum asset.role).pixels = 2000000 ∧
      (TypeScript.maximum asset.role).height = if asset.role = "image" then 2400 else 1200 := by
    simp only [List.mem_cons, List.not_mem_nil, or_false] at hrole
    obtain hrole | hrole := hrole <;> rw [hrole] <;> decide
  obtain ⟨hmaxBytes, hmaxWidth, hmaxPixels, hmaxHeight⟩ := hmaximum
  have hwidthPos := hwidth.2.2
  have hheightPos := hheight.2.2
  have hsizePos := hsize.2.2
  obtain ⟨hnonneg, hproduct⟩ := pixels_lt (by omega) (by omega) hwidthMax hheightMax
  have hnumber : number (asset.width * asset.height) = asset.width * asset.height :=
    number_of_le (by omega)
  have hletters : (encodeBase64Url asset.data).isEmpty = false := by
    rw [List.isEmpty_eq_false_iff, ne_eq, ← List.length_eq_zero_iff, length_encodeBase64Url]
    omega
  have hall : (encodeBase64Url asset.data).all alphabet.contains = true := by
    rw [List.all_eq_true]
    intro c hc
    exact List.contains_iff_mem.2 (encodeBase64Url_alphabet asset.data c hc)
  have himage : strictEqual (Record.get (convertEntries redact r) "role") (some (.text "image")) =
      (asset.role == "image") := strictEqual_role redact hread "image"
  have hheightIs : asset.height ≤ if asset.role == "image" then 2400 else 1200 := by
    rw [hmaxHeight] at hheightMax
    simpa using hheightMax
  simp only [supportedAsset, get_text (by decide) hmedia, get_text (by decide) hloading,
    get_int (by decide) hsize.1, get_int (by decide) hwidth.1, get_int (by decide) hheight.1,
    himage, hpng, hbundled, hletters, hall, letters_size, hlength, isWithin, hnumber,
    TypeScript.asNumber, TypeScript.strictEqual_text.2, TypeScript.strictEqual_int.2,
    Bool.and_eq_true, decide_eq_true_eq, List.contains_iff_mem, Bool.not_false, and_true]
  exact ⟨⟨⟨⟨hrole, by omega, by omega⟩, hwidthPos, by omega⟩, hheightPos, hheightIs⟩, by omega⟩

/-- A manifest, as the renderer reads it. -/
theorem imageAssets_eq_ok {manifest : Record} (hprofile : m.get "profile" = some (.text "spt-3"))
    (hversion : manifest.get "version" = some (.int 1))
    (hentries : manifest.get "assets" = some (.array entries)) (hlength : entries.length ≤ 8) :
    imageAssets (convertEntries redact m) (convertEntries redact manifest) =
      .ok (entries.map (convertToDiagnostic redact)) := by
  have hcount : decide ((entries.map (convertToDiagnostic redact)).length > 8) = false := by
    rw [List.length_map]
    exact decide_eq_false (by omega)
  simp only [imageAssets, get_array (by decide) hentries, get_text (by decide) hprofile,
    get_int (by decide) hversion, TypeScript.strictEqual_text.2, TypeScript.strictEqual_int.2,
    hcount, throwIf, ok_bind, Bool.not_true, Bool.or_self, Bool.false_eq_true, if_false]

/-- The image of a valid image block is shown, with the bytes of its asset. -/
theorem imageFor_eq_ok (redact : Bool) {position : Nat}
    (hprofile : m.get "profile" = some (.text "spt-3"))
    (hmanifest : ManifestSchema lib (m.get "assets") assets)
    (hroles : ∀ asset ∈ assets, asset.role ∈ ["header", "image"])
    (h : ImageEntry lib assets position (.map b) asset) :
    ∃ image, imageFor (convertEntries redact m) (.map (convertEntries redact b)) = .ok image ∧
      ShowsImage m (.map b) image := by
  have hgallery := hmanifest.gallery
  obtain ⟨manifest, hget, _, hversion, entries, hentries, ⟨_, hlength⟩, hreads, _, hvalid⟩ :=
    hmanifest
  obtain ⟨_, hb, htype, _, ⟨hasset, hmem⟩, _, ⟨alt, halt, _⟩, hcaption⟩ := h
  cases hb
  have hcaptionText : b.get "caption" = none ∨ ∃ s, b.get "caption" = some (.text s) := by
    obtain habsent | ⟨s, hs, _⟩ := hcaption
    · exact .inl habsent
    · exact .inr ⟨s, hs⟩
  obtain ⟨caption, hcaption', hshows⟩ :=
    optionalText_eq_ok redact "image caption" (by decide) hcaptionText
  have hfind := findObject_eq_ok redact (fun a => strictEqual (a.get "id") (some (.text asset.id)))
    (fun a => a.id == asset.id) "asset" hreads
    (fun r a hread => strictEqual_id redact hread asset.id)
  obtain ⟨_, hall⟩ | ⟨r, a, hfound, hr, ha, hread, hid⟩ := hfind
  · have hfalse := hall asset hmem
    simp at hfalse
  · have heq : a = asset := hgallery.eq_of_id ha hmem (by simpa using hid)
    subst heq
    obtain ⟨_, hr', _, hidText, hrole, _, _, _, hwidth, hheight, _, hdata⟩ := id hread
    cases hr'
    have hstring : stringOf (some (.text a.role)) = .ok a.role := by
      simp [stringOf, TypeScript.string, TypeScript.stringOf, Except.map]
    have hdataText : Record.get (convertEntries redact r) "data" =
        some (.text (String.ofList (encodeBase64Url a.data))) := by
      rw [get_convertEntries (by decide), hdata]
      rfl
    have hsupported := supportedAsset_eq_true redact hread (hvalid a hmem)
      (hroles a hmem)
    have hread' : text (Record.get (convertEntries redact r) "data") "asset data" =
        .ok (String.ofList (encodeBase64Url a.data)) := by
      rw [hdataText, text_text]
    have hthrow : throwIf (!supportedAsset (convertEntries redact r) a.role
        (String.ofList (encodeBase64Url a.data)).toList) "Unsupported image asset" = .ok () := by
      rw [String.toList_ofList, hsupported]
      rfl
    have hsource : "data:image/png;base64," ++
        standardBase64 (String.ofList (encodeBase64Url a.data)).toList = imageSource a.data :=
      congrArg (fun letters => "data:image/png;base64," ++ standardBase64 letters)
        String.toList_ofList
    refine ⟨⟨imageSource a.data, alt, caption, a.width, a.height⟩, ?_, ?_⟩
    · simp only [imageFor, object_map, ok_bind, get_map (by decide) hget,
        imageAssets_eq_ok hprofile hversion hentries hlength, get_text (by decide) hasset, hfound,
        Option.map_some, hread', get_text (by decide) hrole, hstring, hthrow,
        get_text (by decide) halt, text_text, hcaption', get_int (by decide) hwidth.1,
        get_int (by decide) hheight.1, hsource]
      rfl
    · exact ⟨b, rfl, htype, halt, hshows, manifest, entries, r, a.data, hget, hentries, hr,
        hidText.trans hasset.symm, hdata, rfl, hwidth.1, hheight.1⟩

/-- The first image is the header when its asset has that role. -/
theorem isHeader_eq_ok (redact : Bool) {position : Nat}
    (hprofile : m.get "profile" = some (.text "spt-3"))
    (hmanifest : ManifestSchema lib (m.get "assets") assets)
    (h : ImageEntry lib assets position (.map b) asset) :
    isHeader (convertEntries redact m) (convertEntries redact b) =
      .ok (asset.role == "header") := by
  have hgallery := hmanifest.gallery
  obtain ⟨manifest, hget, _, _, entries, hentries, _, hreads, _⟩ := hmanifest
  obtain ⟨_, hb, htype, _, ⟨hasset, hmem⟩, _⟩ := h
  cases hb
  have hfind := findObject_eq_ok redact
    (fun a => strictEqual (a.get "id") (some (.text asset.id)) &&
      strictEqual (a.get "role") (some (.text "header")))
    (fun a => a.id == asset.id && a.role == "header") "asset" hreads
    (fun r a hread => congrArg₂ and (strictEqual_id redact hread asset.id)
      (strictEqual_role redact hread "header"))
  have hheader : strictEqual (Record.get (convertEntries redact m) "profile")
        (some (.text "spt-3")) = true ∧
      strictEqual (Record.get (convertEntries redact b) "_type") (some (.text "spt.image")) =
        true := by
    rw [get_text (by decide) hprofile, get_text (by decide) htype]
    exact ⟨TypeScript.strictEqual_text.2 rfl, TypeScript.strictEqual_text.2 rfl⟩
  simp only [isHeader, hheader, Bool.and_self, if_true, get_map (by decide) hget, object_map,
    ok_bind, get_array (by decide) hentries, get_text (by decide) hasset]
  obtain ⟨hnone, hall⟩ | ⟨r, a, hfound, _, ha, _, hp⟩ := hfind
  · have hfalse := hall asset hmem
    simp only [beq_self_eq_true, Bool.true_and] at hfalse
    rw [hnone, hfalse]
    rfl
  · rw [Bool.and_eq_true, beq_iff_eq] at hp
    have heq : a = asset := hgallery.eq_of_id ha hmem hp.1
    subst heq
    rw [hfound, hp.2]
    rfl

end Images

section Bodies

variable {lib : RendererLibraries} {redact : Bool} {m b : Record} {v : Value} {profile : String}

theorem renderEntry_text (hprofile : m.get "profile" = some (.text profile))
    (hplain : profile = "spt-1" → IsPlain b)
    (h : RichBlock (fun href => TypeScript.linkHref lib.toLibraries href = true) (.map b)) :
    ∃ block, renderEntry lib (convertEntries redact m) (convertToDiagnostic redact (.map b)) =
        .ok block ∧ ShowsEntry lib m (.map b) block := by
  have hprofile' : Record.get (convertEntries redact m) "profile" = some (.text profile) :=
    get_text (by decide) hprofile
  obtain ⟨block, hblock, hshows⟩ := renderText_eq_ok redact hprofile' hplain h
  obtain ⟨_, hb, _, htype, _⟩ := h
  cases hb
  have htext : strictEqual (Record.get (convertEntries redact b) "_type")
      (some (.text "spt.image")) = false := by
    rw [get_text (by decide) htype]
    rfl
  refine ⟨block, ?_, .inl hshows⟩
  simp only [convertToDiagnostic, renderEntry, object_map, ok_bind, htext, Bool.false_eq_true,
    if_false, hblock]

theorem renderEntry_image {assets : List BundledImageAsset} {asset : BundledImageAsset}
    {position : Nat} (hprofile : m.get "profile" = some (.text "spt-3"))
    (hmanifest : ManifestSchema lib.toLibraries (m.get "assets") assets)
    (hroles : ∀ asset ∈ assets, asset.role ∈ ["header", "image"])
    (h : ImageEntry lib.toLibraries assets position (.map b) asset) :
    ∃ block, renderEntry lib (convertEntries redact m) (convertToDiagnostic redact (.map b)) =
        .ok block ∧ ShowsEntry lib m (.map b) block := by
  obtain ⟨image, himage, hshows⟩ := imageFor_eq_ok redact hprofile hmanifest hroles h
  obtain ⟨_, hb, htype, _⟩ := h
  cases hb
  refine ⟨imageBlock image, ?_, .inr ⟨image, rfl, hshows⟩⟩
  simp only [convertToDiagnostic, renderEntry, object_map, ok_bind, get_text (by decide) htype,
    TypeScript.strictEqual_text.2, if_true, himage]

/-- A body of the third profile is needed for an image block. -/
theorem isHeader_eq_false (hprofile : m.get "profile" = some (.text profile))
    (htype : profile ≠ "spt-3" ∨ b.get "_type" = some (.text "block")) :
    isHeader (convertEntries redact m) (convertEntries redact b) = .ok false := by
  have hfalse : (strictEqual (Record.get (convertEntries redact m) "profile")
      (some (.text "spt-3")) && strictEqual (Record.get (convertEntries redact b) "_type")
      (some (.text "spt.image"))) = false := by
    rw [get_text (by decide) hprofile, Bool.and_eq_false_iff]
    obtain hne | htype := htype
    · left
      rw [Bool.eq_false_iff, ne_eq, TypeScript.strictEqual_text, Option.some.injEq,
        Value.text.injEq]
      exact hne
    · right
      rw [get_text (by decide) htype]
      rfl
  simp only [isHeader, hfalse, Bool.false_eq_true, if_false]

/-- A plain block has the form of the second profile. -/
theorem plainBlock_rich (href : String → Prop) (h : PlainBlock (.map b)) :
    RichBlock href (.map b) ∧ IsPlain b := by
  obtain ⟨_, hb, hexact, htype, hstyle, hdefs, children, hchildren, hne, hall⟩ := h
  cases hb
  have hlist : b.get "listItem" = none := hexact.not_mem (by decide)
  have hlevel : b.get "level" = none := hexact.not_mem (by decide)
  have halignment : b.get "alignment" = none := hexact.not_mem (by decide)
  have hspans : ∃ spans, List.Forall₂ (ReadsSpan []) children spans := by
    clear hchildren hne
    induction children with
    | nil => exact ⟨[], .nil⟩
    | cons child children ih =>
      rw [List.forall_mem_cons] at hall
      obtain ⟨s, rfl, hspan, hspanType, ⟨t, ht⟩, hmarks⟩ := hall.1
      obtain ⟨spans, hspans⟩ := ih hall.2
      refine ⟨⟨t, []⟩ :: spans, .cons ⟨s, rfl, hspan, hspanType, ht, hmarks, ?_⟩ hspans⟩
      exact ⟨List.nodup_nil, by simp, by simp⟩
  obtain ⟨spans, hspans⟩ := hspans
  refine ⟨⟨b, rfl, ⟨?_, hexact.2⟩, htype, ⟨"normal", by decide, hstyle⟩, .inl halignment,
    .inl hlist, .inl hlevel, [], hdefs, [], ⟨.nil, List.nodup_nil⟩, children, hchildren, hne, spans,
    hspans, ?_⟩, hstyle, hlist, hlevel, halignment, hdefs, ?_⟩
  · intro e he
    obtain ⟨k, hk, hkey⟩ := hexact.1 e he
    rw [List.append_nil] at hk
    exact ⟨k, List.mem_append_left _ hk, hkey⟩
  · intro hcta
    rw [hstyle] at hcta
    simp at hcta
  · intro children' hchildren'
    rw [hchildren] at hchildren'
    cases hchildren'
    exact hall

/-- What is left of a body after its header is rendered entry by entry. -/
theorem renderBody_eq_ok (before : List Value) {entries rest : List Value}
    {header : Option MessageImage}
    (hversion : m.get "version" = some (.int 1)) (hprofile : m.get "profile" = some (.text profile))
    (hknown : profile ∈ bodyProfiles) (hblocks : m.get "blocks" = some (.array entries))
    (hsplit : splitHeader (convertEntries redact m) (entries.map (convertToDiagnostic redact)) =
      .ok (header, rest.map (convertToDiagnostic redact)))
    (hentries : entries = before ++ rest)
    (hheader : List.Forall₂ (ShowsEntry lib m) before (header.toList.map imageBlock))
    (hrest : ∀ v ∈ rest, ∃ block, renderEntry lib (convertEntries redact m)
      (convertToDiagnostic redact v) = .ok block ∧ ShowsEntry lib m v block) :
    ∃ rendered, renderBody lib (convertToDiagnostic redact (.map m)) = .ok rendered ∧
      Shows lib m rendered := by
  obtain ⟨blocks, hrendered, hshows⟩ := mapM_convert hrest
  have hincludes : TypeScript.includes bodyProfiles (some (.text profile)) = true :=
    TypeScript.includes_iff.2 ⟨profile, hknown, rfl⟩
  refine ⟨⟨blocks, header, (blocks.filter fun b => b.image.isNone).map fun b => plain b.spans⟩,
    ?_, entries, hblocks, ?_⟩
  · simp only [convertToDiagnostic, renderBody, object_map, ok_bind, get_int (by decide) hversion,
      get_text (by decide) hprofile, hincludes, get_array (by decide) hblocks,
      TypeScript.strictEqual_int.2, hsplit, hrendered]
  · rw [hentries]
    exact List.rel_append hheader hshows

/-- A body that starts with no header is left whole. -/
theorem splitHeader_eq_none {entries : List Value}
    (h : ∀ b rest, entries = Value.map b :: rest →
      isHeader (convertEntries redact m) (convertEntries redact b) = .ok false) :
    splitHeader (convertEntries redact m) (entries.map (convertToDiagnostic redact)) =
      .ok (none, entries.map (convertToDiagnostic redact)) := by
  cases entries with
  | nil => rfl
  | cons v rest =>
    cases v with
    | map b =>
      simp only [List.map_cons, convertToDiagnostic, splitHeader, h b rest rfl, ok_bind,
        Bool.false_eq_true, if_false]
    | _ => rfl

/-- A body of text blocks is shown without a header. -/
theorem renderBody_texts {filename : String → Prop} {required : List String}
    {block : Value → Prop} (hheader : BodyHeader filename required profile m)
    (hknown : profile ∈ ["spt-1", "spt-2"]) (hblocks : Blocks block m)
    (hblock : ∀ v, block v → ∃ b, v = .map b ∧ (profile = "spt-1" → IsPlain b) ∧
      RichBlock (fun href => TypeScript.linkHref lib.toLibraries href = true) (.map b)) :
    ∃ rendered, renderBody lib (convertToDiagnostic redact (.map m)) = .ok rendered ∧
      Shows lib m rendered := by
  obtain ⟨_, _, hversion, hprofile⟩ := hheader
  obtain ⟨entries, hentries, hall⟩ := hblocks
  have hprofiles : profile ∈ bodyProfiles ∧ profile ≠ "spt-3" := by
    simp only [List.mem_cons, List.not_mem_nil, or_false] at hknown
    obtain rfl | rfl := hknown <;> decide
  have hsplit : splitHeader (convertEntries redact m) (entries.map (convertToDiagnostic redact)) =
      .ok (none, entries.map (convertToDiagnostic redact)) :=
    splitHeader_eq_none fun b rest _ => isHeader_eq_false hprofile (.inl hprofiles.2)
  refine renderBody_eq_ok [] hversion hprofile hprofiles.1 hentries hsplit rfl .nil ?_
  intro v hv
  obtain ⟨b, rfl, hplain, hrich⟩ := hblock v (hall v hv)
  exact renderEntry_text hprofile hplain hrich

/-- The entries of a body with images are shown, as text or as an image. -/
theorem renderEntries_images (redact : Bool) {assets images : List BundledImageAsset} {position : Nat}
    {entries texts : List Value} (hprofile : m.get "profile" = some (.text "spt-3"))
    (hmanifest : ManifestSchema lib.toLibraries (m.get "assets") assets)
    (hroles : ∀ asset ∈ assets, asset.role ∈ ["header", "image"])
    (h : ImageBlocks lib.toLibraries assets position entries images texts)
    (htexts : ∀ v ∈ texts,
      RichBlock (fun href => TypeScript.linkHref lib.toLibraries href = true) v) :
    ∀ v ∈ entries, ∃ block, renderEntry lib (convertEntries redact m)
      (convertToDiagnostic redact v) = .ok block ∧ ShowsEntry lib m v block := by
  induction h with
  | nil => simp
  | image hentry _ ih =>
    rw [List.forall_mem_cons]
    refine ⟨?_, ih htexts⟩
    obtain ⟨b, rfl, _⟩ := id hentry
    exact renderEntry_image hprofile hmanifest hroles hentry
  | text _ _ ih =>
    rw [List.forall_mem_cons] at htexts ⊢
    refine ⟨?_, ih htexts.2⟩
    obtain ⟨b, rfl, _⟩ := id htexts.1
    exact renderEntry_text hprofile (fun h => absurd h (by decide)) htexts.1

/-- A body with images is shown with its header apart. -/
theorem renderBody_images {filename : String → Prop}
    (h : Spt3Schema lib.toLibraries filename
      (fun href => TypeScript.linkHref lib.toLibraries href = true) m) :
    ∃ rendered, renderBody lib (convertToDiagnostic redact (.map m)) = .ok rendered ∧
      Shows lib m rendered := by
  obtain ⟨⟨_, _, hversion, hprofile⟩, assets, hmanifest, hroles, entries, hentries, images, texts,
    himages, _, htexts⟩ := h
  have hall := renderEntries_images redact hprofile hmanifest hroles himages htexts
  have hknown : "spt-3" ∈ bodyProfiles := by decide
  have hwhole (hnone : ∀ b rest, entries = Value.map b :: rest →
      isHeader (convertEntries redact m) (convertEntries redact b) = .ok false) :=
    renderBody_eq_ok [] hversion hprofile hknown hentries (splitHeader_eq_none hnone)
      rfl .nil hall
  cases himages with
  | nil => exact hwhole fun _ _ hcons => by cases hcons
  | text htext hrest =>
    refine hwhole fun b rest hcons => ?_
    cases hcons
    rw [List.forall_mem_cons] at htexts
    obtain ⟨_, hb, _, htype, _⟩ := htexts.1
    cases hb
    exact isHeader_eq_false hprofile (.inr htype)
  | @image _ v rest _ asset _ hentry hrest =>
    obtain ⟨b, rfl, _⟩ := id hentry
    have hheader := isHeader_eq_ok redact hprofile hmanifest hentry
    cases hrole : asset.role == "header" with
    | false =>
      refine hwhole fun b' rest' hcons => ?_
      cases hcons
      rw [hheader, hrole]
    | true =>
      obtain ⟨image, himage, hshows⟩ := imageFor_eq_ok redact hprofile hmanifest hroles hentry
      rw [List.forall_mem_cons] at hall
      have hsplit : splitHeader (convertEntries redact m)
          ((Value.map b :: rest).map (convertToDiagnostic redact)) =
          .ok (some image, rest.map (convertToDiagnostic redact)) := by
        simp only [List.map_cons, convertToDiagnostic, splitHeader, hheader, hrole, ok_bind,
          if_true, himage]
      exact renderBody_eq_ok [.map b] hversion hprofile hknown hentries hsplit rfl
        (.cons (.inr ⟨image, rfl, hshows⟩) .nil) hall.2

/-- The renderer shows every valid body entry by entry, and its groups are its blocks, where
neighbouring list blocks are in one group exactly when they are of one kind and level. -/
theorem renderBody_accepts (lib : RendererLibraries) (type : PayloadType) (v : Value)
    (redactSecrets : Bool) (htype : type ∈ bodyTypes)
    (h : TypeScript.validatePayload lib.toLibraries type v = .ok ()) :
    (∃ m json rendered, v = .map m ∧
      TypeScript.toDiagnosticJson lib.toLibraries type v redactSecrets = .ok json ∧
      renderBody lib json = .ok rendered ∧ Shows lib m rendered) ∧
    ∀ blocks, (groupMessageBlocks blocks).flatMap MessageBlockGroup.blocks = blocks ∧
      ∀ before a b after, blocks = before ++ a :: b :: after → a.listItem ≠ none →
        b.listItem ≠ none →
        (InOneGroup (groupMessageBlocks blocks) before a b ↔
          a.listItem = b.listItem ∧ a.level = b.level) := by
  have hdecoded : Decoded v := by
    simp only [TypeScript.validatePayload, bind_eq_ok] at h
    obtain ⟨_, hassert, _⟩ := h
    exact hassert
  have hjson : TypeScript.toDiagnosticJson lib.toLibraries type v redactSecrets =
      .ok (convertToDiagnostic redactSecrets v) := by
    rw [Decoded] at hdecoded
    simp only [TypeScript.toDiagnosticJson, hdecoded, h, ok_bind]
  obtain ⟨m, rfl, hrules⟩ := (TypeScript.validateBody_eq_ok htype hdecoded).1 h
  have hrendered : ∃ rendered,
      renderBody lib (convertToDiagnostic redactSecrets (.map m)) = .ok rendered ∧
        Shows lib m rendered := by
    simp only [bodyTypes, List.mem_cons, List.not_mem_nil, or_false] at htype
    obtain rfl | rfl | rfl := htype
    · refine renderBody_texts hrules.1 (by decide) hrules.2 fun v hv => ?_
      obtain ⟨b, rfl, _⟩ := id hv
      have hrich := plainBlock_rich
        (fun href => TypeScript.linkHref lib.toLibraries href = true) hv
      exact ⟨b, rfl, fun _ => hrich.2, hrich.1⟩
    · refine renderBody_texts hrules.1 (by decide) hrules.2 fun v hv => ?_
      obtain ⟨b, rfl, _⟩ := id hv
      exact ⟨b, rfl, fun hfirst => absurd hfirst (by decide), hv⟩
    · exact renderBody_images hrules
  obtain ⟨rendered, hrender, hshows⟩ := hrendered
  refine ⟨⟨m, _, rendered, rfl, hjson, hrender, hshows⟩, fun blocks => ?_⟩
  have hgrouping := grouping_groupMessageBlocks blocks
  refine ⟨hgrouping.flat, fun before a b after hblocks ha _ => ?_⟩
  rw [hblocks] at hgrouping ⊢
  exact hgrouping.inOneGroup_iff ha

/-- The renderer with libraries for which every text is plain. -/
def plainRenderer : RendererLibraries where
  toLibraries := plainLibraries
  hostname _ := ""

/-- A body with one list block. -/
def listBody : Record :=
  [(.text "version", .int 1), (.text "profile", .text "spt-2"),
    (.text "blocks", .array [.map [(.text "_type", .text "block"), (.text "style", .text "normal"),
      (.text "children", .array [.map [(.text "_type", .text "span"), (.text "text", .text "Hello"),
        (.text "marks", .array [.text "strong"])]]), (.text "markDefs", .array []),
      (.text "listItem", .text "bullet"), (.text "level", .int 2)]])]

theorem renderBody_accepts_list :
    (∃ m json rendered, Value.map listBody = .map m ∧
      TypeScript.toDiagnosticJson plainLibraries .bodySpt2 (.map listBody) false = .ok json ∧
      renderBody plainRenderer json = .ok rendered ∧ Shows plainRenderer m rendered) ∧
    ∀ blocks, (groupMessageBlocks blocks).flatMap MessageBlockGroup.blocks = blocks ∧
      ∀ before a b after, blocks = before ++ a :: b :: after → a.listItem ≠ none →
        b.listItem ≠ none →
        (InOneGroup (groupMessageBlocks blocks) before a b ↔
          a.listItem = b.listItem ∧ a.level = b.level) :=
  renderBody_accepts plainRenderer .bodySpt2 (.map listBody) false (by decide) (by rfl)

end Bodies

end HailProto.Content
