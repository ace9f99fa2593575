import HailProto.Codec.Bodies

/-!
# What the body validators accept

One schema for the bodies of each profile, with the names an attachment may have and the
addresses a link may have as parameters. The two languages accept exactly this schema, each for
its own names and addresses, so that they can be compared by comparing those alone.
-/

namespace HailProto.Codec

open Cbor (Value asBytes)

/-- A link as it is read. -/
structure Link where
  key : String
  href : String

/-- A span as it is read. -/
structure Span where
  text : String
  marks : List String

/-- The member is a text of this list. -/
def OneOf (names : List String) (v : Option Value) : Prop := ∃ s ∈ names, v = some (.text s)

/-- The record reads as this link. -/
def ReadsLink (href : String → Prop) (v : Value) (link : Link) : Prop :=
  ∃ d : Record, v = .map d ∧ Exact d ["_key", "_type", "href"] ["title"] ∧
    d.get "_key" = some (.text link.key) ∧
    (markKeyPattern link.key = true ∧ link.key ∉ decorators) ∧
    d.get "_type" = some (.text "spt.link") ∧
    (d.get "href" = some (.text link.href) ∧ href link.href) ∧
    (d.get "title" = none ∨ ∃ s, d.get "title" = some (.text s))

/-- The marks of a span: decorators and at most one link, each once. -/
def SpanMarks (keys marks : List String) : Prop :=
  marks.Nodup ∧ (∀ mark ∈ marks, mark ∈ decorators ∨ mark ∈ keys) ∧
    (marks.filter keys.contains).length ≤ 1

/-- The record reads as this span. -/
def ReadsSpan (keys : List String) (v : Value) (span : Span) : Prop :=
  ∃ s : Record, v = .map s ∧ Exact s ["_type", "text", "marks"] [] ∧
    s.get "_type" = some (.text "span") ∧ s.get "text" = some (.text span.text) ∧
    s.get "marks" = some (.array (span.marks.map .text)) ∧ SpanMarks keys span.marks

/-- The texts of the spans, joined. -/
def joined : List Span → String
  | [] => ""
  | span :: spans => span.text ++ joined spans

/-- One line with something on it. -/
def IsLabel (label : String) : Prop :=
  (∃ c ∈ label.toList, isBlank c = false) ∧ (∀ c ∈ label.toList, isLineBreak c = false) ∧
    (asBytes label).length ≤ 128

/-- A call to action is one link and its label. -/
def CallToAction (b : Record) (links : List Link) (spans : List Span) : Prop :=
  b.get "listItem" = none ∧ b.get "level" = none ∧ ∃ link, links = [link] ∧
    (∀ span ∈ spans, span.marks = [link.key]) ∧ IsLabel (joined spans) ∧
    (asBytes link.href).length ≤ 2048

/-- A span of the first profile. -/
def PlainSpan (v : Value) : Prop :=
  ∃ s : Record, v = .map s ∧ Exact s ["_type", "text", "marks"] [] ∧
    s.get "_type" = some (.text "span") ∧ (∃ t, s.get "text" = some (.text t)) ∧
    s.get "marks" = some (.array [])

/-- A block of the first profile. -/
def PlainBlock (v : Value) : Prop :=
  ∃ b : Record, v = .map b ∧ Exact b ["_type", "style", "children", "markDefs"] [] ∧
    b.get "_type" = some (.text "block") ∧ b.get "style" = some (.text "normal") ∧
    b.get "markDefs" = some (.array []) ∧ ∃ children, b.get "children" = some (.array children) ∧
      children ≠ [] ∧ ∀ child ∈ children, PlainSpan child

/-- A block of the second profile. -/
def RichBlock (href : String → Prop) (v : Value) : Prop :=
  ∃ b : Record, v = .map b ∧
    Exact b ["_type", "style", "children", "markDefs"] ["listItem", "level", "alignment"] ∧
    b.get "_type" = some (.text "block") ∧ OneOf blockStyles (b.get "style") ∧
    (b.get "alignment" = none ∨ OneOf alignments (b.get "alignment")) ∧
    (b.get "listItem" = none ∨ OneOf listItems (b.get "listItem")) ∧
    (b.get "level" = none ∨ (b.get "listItem").isSome ∧
      ∃ n, IsInteger 1 (b.get "level") n ∧ n ≤ 3) ∧
    ∃ defs, b.get "markDefs" = some (.array defs) ∧ ∃ links,
      (List.Forall₂ (ReadsLink href) defs links ∧ (links.map Link.key).Nodup) ∧
      ∃ children, b.get "children" = some (.array children) ∧ children ≠ [] ∧ ∃ spans,
        List.Forall₂ (ReadsSpan (links.map Link.key)) children spans ∧
          (b.get "style" = some (.text "cta") → CallToAction b links spans)

/-- What a body has beside its blocks. -/
def BodyHeader (filename : String → Prop) (required : List String) (profile : String)
    (m : Record) : Prop :=
  Exact m required ["attachments"] ∧ AttachmentsSchema filename (m.get "attachments") ∧
    m.get "version" = some (.int 1) ∧ m.get "profile" = some (.text profile)

/-- The blocks of a body, each of which has this form. -/
def Blocks (block : Value → Prop) (m : Record) : Prop :=
  ∃ blocks, m.get "blocks" = some (.array blocks) ∧ ∀ v ∈ blocks, block v

/-- An image block that shows this asset. -/
def ImageEntry (lib : Libraries) (assets : List BundledImageAsset) (position : Nat) (v : Value)
    (asset : BundledImageAsset) : Prop :=
  ∃ b : Record, v = .map b ∧ b.get "_type" = some (.text "spt.image") ∧
    Exact b ["_type", "asset", "alt"] ["caption"] ∧
    (b.get "asset" = some (.text asset.id) ∧ asset ∈ assets) ∧
    (asset.role = "header" → position = 0) ∧ IsProfileText lib 1 1024 (b.get "alt") ∧
    (b.get "caption" = none ∨ IsProfileText lib 1 1024 (b.get "caption"))

/-- A block that is no image. -/
def TextEntry (v : Value) : Prop :=
  ∃ b : Record, v = .map b ∧ b.get "_type" ≠ some (.text "spt.image")

/-- The blocks from this position on show these images, beside these texts. -/
inductive ImageBlocks (lib : Libraries) (assets : List BundledImageAsset) :
    Nat → List Value → List BundledImageAsset → List Value → Prop
  | nil (position : Nat) : ImageBlocks lib assets position [] [] []
  | image {position : Nat} {v : Value} {vs texts : List Value} {asset : BundledImageAsset}
      {images : List BundledImageAsset} (h : ImageEntry lib assets position v asset)
      (hrest : ImageBlocks lib assets (position + 1) vs images texts) :
      ImageBlocks lib assets position (v :: vs) (asset :: images) texts
  | text {position : Nat} {v : Value} {vs texts : List Value}
      {images : List BundledImageAsset} (h : TextEntry v)
      (hrest : ImageBlocks lib assets (position + 1) vs images texts) :
      ImageBlocks lib assets position (v :: vs) images (v :: texts)

/-- The images of a body: one to eight blocks that use every asset, within the pixel budget. -/
def ImageBudget (assets images : List BundledImageAsset) : Prop :=
  (1 ≤ images.length ∧ images.length ≤ 8) ∧ (∀ asset ∈ assets, asset ∈ images) ∧
    (images.map fun asset => asset.width * asset.height).sum ≤ 8000000

/-- A body of the first profile. -/
def Spt1Schema (filename : String → Prop) (m : Record) : Prop :=
  BodyHeader filename ["version", "profile", "blocks"] "spt-1" m ∧ Blocks PlainBlock m

/-- A body of the second profile. -/
def Spt2Schema (filename href : String → Prop) (m : Record) : Prop :=
  BodyHeader filename ["version", "profile", "blocks"] "spt-2" m ∧ Blocks (RichBlock href) m

/-- A body of the third profile. -/
def Spt3Schema (lib : Libraries) (filename href : String → Prop) (m : Record) : Prop :=
  BodyHeader filename ["version", "profile", "assets", "blocks"] "spt-3" m ∧
    ∃ assets, ManifestSchema lib (m.get "assets") assets ∧
      (∀ asset ∈ assets, asset.role ∈ ["header", "image"]) ∧
      ∃ blocks, m.get "blocks" = some (.array blocks) ∧ ∃ images texts,
        ImageBlocks lib assets 0 blocks images texts ∧ ImageBudget assets images ∧
          ∀ v ∈ texts, RichBlock href v

section Loops

variable {ε α : Type}

/-- A loop accepts the lists of which it accepts every entry. -/
theorem forEach_eq_ok {check : Nat → α → Except ε Unit} {P : α → Prop} {position : Nat}
    {xs : List α} {u : Unit} (h : ∀ i x u, check i x = .ok u ↔ P x) :
    forEach check position xs = .ok u ↔ ∀ x ∈ xs, P x := by
  induction xs generalizing position with
  | nil => simp [forEach]
  | cons x xs ih =>
    rw [List.forall_mem_cons, forEach, bind_eq_ok]
    constructor
    · rintro ⟨_, hx, hxs⟩
      exact ⟨(h position x _).1 hx, ih.1 hxs⟩
    · rintro ⟨hx, hxs⟩
      exact ⟨(), (h position x _).2 hx, ih.2 hxs⟩

end Loops

section Members

variable {lib : Libraries} {names : List String} {path message : String} {u : Unit}

theorem TypeScript.includes_iff {v : Option Value} : includes names v = true ↔ OneOf names v := by
  unfold includes OneOf
  split
  · rename_i s
    simp
  · rename_i hv
    simp only [Bool.false_eq_true, false_iff, not_exists, not_and]
    intro s _ h
    exact hv s h

theorem Go.textSuch_index_eq_ok {m : Record} {k s : String} {property : String → Bool} :
    textSuch (index m k) property message = .ok s ↔
      m.get k = some (.text s) ∧ property s = true := by
  rw [← index_eq_text]
  unfold textSuch
  split
  · rename_i t ht
    rw [ht]
    by_cases hproperty : property t = true
    · simp only [hproperty, if_true, Except.ok.injEq, Value.text.injEq]
      constructor
      · rintro rfl
        exact ⟨rfl, hproperty⟩
      · exact fun h => h.1
    · simp only [hproperty, if_false, reduceCtorEq, Value.text.injEq, false_iff, not_and]
      rintro rfl
      exact hproperty
  · rename_i hv
    simp only [reduceCtorEq, false_iff, not_and]
    intro h
    exact absurd h (hv s)

theorem Go.oneOf_index_eq_ok {m : Record} {k : String} :
    (∃ s, textSuch (index m k) names.contains message = .ok s) ↔ OneOf names (m.get k) := by
  simp only [textSuch_index_eq_ok, OneOf, List.contains_eq_mem, decide_eq_true_eq]
  exact exists_congr fun s => and_comm

theorem Go.emptyArray_index_eq_ok {m : Record} {k : String} :
    emptyArray (index m k) message = .ok u ↔ m.get k = some (.array []) := by
  unfold emptyArray
  split
  · rename_i h
    rw [index_eq_array] at h
    simp [h]
  · rename_i hv
    simp only [reduceCtorEq, false_iff]
    intro h
    exact hv (index_eq_array.2 h)

theorem Go.blockChildren_eq_ok {b : Record} {children : List Value} :
    blockChildren b = .ok children ↔ b.get "children" = some (.array children) ∧ children ≠ [] := by
  unfold blockChildren
  split
  · rename_i child rest h
    rw [index_eq_array] at h
    simp only [h, Except.ok.injEq, Option.some.injEq, Value.array.injEq]
    constructor
    · rintro rfl
      exact ⟨rfl, List.cons_ne_nil _ _⟩
    · exact fun h => h.1
  · rename_i hv
    simp only [reduceCtorEq, false_iff, not_and, ne_eq, not_not]
    intro h
    cases children with
    | nil => rfl
    | cons child rest => exact absurd (index_eq_array.2 h) (hv child rest)

/-- An optional member is absent or accepted. -/
theorem TypeScript.optional_eq_ok {v : Option Value}
    {check : Option Value → Except HailCodecError Unit} {P : Prop}
    (h : v.isSome → (check v = .ok u ↔ P)) : optional v check = .ok u ↔ v = none ∨ P := by
  unfold optional
  cases v with
  | none => simp
  | some w => simp [h rfl]

theorem Go.optional_eq_ok {m : Record} {k : String} {check : Value → Except String Unit} {P : Prop}
    (h : (m.get k).isSome → (check (index m k) = .ok u ↔ P)) :
    optional m k check = .ok u ↔ m.get k = none ∨ P := by
  unfold optional has
  cases hk : m.get k with
  | none => simp
  | some w => simp [h (by simp [hk])]

end Members

section Plain

variable {lib : Libraries} {path : String} {v : Value} {u : Unit}

theorem TypeScript.spt1Span_eq_ok : spt1Span path v = .ok u ↔ PlainSpan v := by
  simp only [spt1Span, PlainSpan, bind_eq_ok, record_eq_ok, exactKeys_eq_ok, failIf_eq_ok,
    Bool.not_eq_false', strictEqual_text, text_eq_ok, array_eq_ok, List.isEmpty_iff,
    Option.some.injEq, exists_const, exists_and_right]
  simp only [exists_eq_right]

theorem Go.spt1Span_eq_ok : spt1Span path v = .ok u ↔ PlainSpan v := by
  simp only [spt1Span, PlainSpan, bind_eq_ok, mapValue_eq_ok, exact_eq_ok, expectText_eq_ok,
    textValue_eq_ok, index_eq_text, emptyArray_index_eq_ok, exists_const, exists_and_right]

theorem TypeScript.spt1Spans_eq_ok {path : Nat → String} {position : Nat}
    {children : List Value} :
    forEach (fun childIndex => spt1Span (path childIndex)) position children = .ok u ↔
      ∀ child ∈ children, PlainSpan child := forEach_eq_ok fun _ _ _ => spt1Span_eq_ok

theorem Go.spt1Spans_eq_ok {path : Nat → String} {position : Nat} {children : List Value} :
    forEach (fun j => spt1Span (path j)) position children = .ok u ↔
      ∀ child ∈ children, PlainSpan child := forEach_eq_ok fun _ _ _ => spt1Span_eq_ok

theorem TypeScript.spt1Block_eq_ok {position : Nat} :
    spt1Block position v = .ok u ↔ PlainBlock v := by
  simp only [spt1Block, PlainBlock, bind_eq_ok, record_eq_ok, exactKeys_eq_ok, failIf_eq_ok,
    Bool.or_eq_false_iff, Bool.not_eq_false', strictEqual_text, array_eq_ok, List.isEmpty_iff,
    Option.some.injEq, exists_const, spt1Spans_eq_ok, List.isEmpty_eq_false_iff, and_assoc]
  refine exists_congr fun b => and_congr_right fun _ => and_congr_right fun _ =>
    and_congr_right fun _ => and_congr_right fun _ => ?_
  constructor
  · rintro ⟨defs, hdefs, rfl, h⟩
    exact ⟨hdefs, h⟩
  · rintro ⟨hdefs, h⟩
    exact ⟨[], hdefs, rfl, h⟩

theorem Go.spt1Block_eq_ok {position : Nat} : spt1Block position v = .ok u ↔ PlainBlock v := by
  simp only [spt1Block, PlainBlock, bind_eq_ok, mapValue_eq_ok, exact_eq_ok, expectText_eq_ok,
    emptyArray_index_eq_ok, blockChildren_eq_ok, exists_const, spt1Spans_eq_ok, and_assoc]

end Plain

section Header

variable {lib : Libraries} {required : List String} {profile : String} {m : Record} {u : Unit}

theorem TypeScript.attachments_eq_ok {attachments : Option Value} :
    optional attachments (validateAttachments lib) = .ok u ↔
      AttachmentsSchema (fun name => attachmentFilename lib name = true) attachments := by
  cases attachments with
  | none => simp [optional, AttachmentsSchema]
  | some attachments =>
    rw [← validateAttachments_eq_ok]
    rfl

theorem TypeScript.bodyHeader_eq_ok :
    bodyHeader lib required profile m = .ok u ↔
      BodyHeader (fun name => attachmentFilename lib name = true) required profile m := by
  simp only [bodyHeader, BodyHeader, bind_eq_ok, exactKeys_eq_ok, failIf_eq_ok,
    Bool.not_eq_false', strictEqual_int, strictEqual_text, exists_const, attachments_eq_ok]

theorem Go.bodyHeader_eq_ok :
    bodyHeader lib required profile m = .ok u ↔
      BodyHeader (fun name => attachmentFilename lib name = true) required profile m := by
  simp only [bodyHeader, BodyHeader, versionOne, bind_eq_ok, exact_eq_ok, expectText_eq_ok,
    validateAttachments_eq_ok, exists_const]
  rw [and_left_comm]
  refine and_congr_right fun _ => and_congr_right fun _ => ?_
  constructor
  · rintro ⟨_, h, hprofile⟩
    split at h
    · rename_i n hn
      rw [intValue_index_eq_ok le_rfl] at hn
      rw [errorIf_eq_ok, bne_eq_false_iff_eq] at h
      rw [← h]
      exact ⟨hn.1, hprofile⟩
    · cases h
  · rintro ⟨h, hprofile⟩
    rw [(intValue_index_eq_ok le_rfl).2 ⟨h, by decide, by decide⟩]
    exact ⟨(), rfl, hprofile⟩

theorem TypeScript.spt1Blocks_eq_ok {blocks : List Value} {position : Nat} :
    forEach spt1Block position blocks = .ok u ↔ ∀ v ∈ blocks, PlainBlock v :=
  forEach_eq_ok fun _ _ _ => spt1Block_eq_ok

theorem Go.spt1Blocks_eq_ok {blocks : List Value} {position : Nat} :
    forEach spt1Block position blocks = .ok u ↔ ∀ v ∈ blocks, PlainBlock v :=
  forEach_eq_ok fun _ _ _ => spt1Block_eq_ok

theorem TypeScript.validateSpt1Body_eq_ok :
    validateSpt1Body lib m = .ok u ↔
      Spt1Schema (fun name => attachmentFilename lib name = true) m := by
  simp only [validateSpt1Body, Spt1Schema, Blocks, bind_eq_ok, bodyHeader_eq_ok, array_eq_ok,
    exists_const, spt1Blocks_eq_ok]

theorem Go.validateSpt1Body_eq_ok :
    validateSpt1Body lib m = .ok u ↔
      Spt1Schema (fun name => attachmentFilename lib name = true) m := by
  simp only [validateSpt1Body, Spt1Schema, Blocks, bind_eq_ok, bodyHeader_eq_ok, arrayValue_eq_ok,
    index_eq_array, exists_const, spt1Blocks_eq_ok]

end Header

section Links

variable {lib : Libraries} {path : String} {v : Value} {keys : List String} {u : Unit}

theorem TypeScript.checkHref_eq_ok {href : String} :
    checkHref lib href path = .ok u ↔ linkHref lib href = true := by
  unfold checkHref linkHref
  cases lib.newUrl href with
  | none => simp
  | some url => simp

theorem TypeScript.title_eq_ok {title : Option Value} :
    (optional title fun title => do
      let _ ← text title path
      .ok ()) = .ok u ↔ title = none ∨ ∃ s, title = some (.text s) :=
  optional_eq_ok fun _ => by simp only [bind_eq_ok, text_eq_ok, and_true]

theorem Go.title_eq_ok {m : Record} {k : String} :
    (optional m k fun title => do
      let _ ← textValue title path
      .ok ()) = .ok u ↔ m.get k = none ∨ ∃ s, m.get k = some (.text s) :=
  optional_eq_ok fun _ => by simp only [bind_eq_ok, textValue_eq_ok, index_eq_text, and_true]

theorem TypeScript.markDefinition_eq_ok {key : String} :
    markDefinition lib keys path v = .ok key ↔
      ∃ link, ReadsLink (fun href => linkHref lib href = true) v link ∧ link.key = key ∧
        key ∉ keys := by
  simp only [markDefinition, ReadsLink, bind_eq_ok, record_eq_ok, exactKeys_eq_ok, text_eq_ok,
    failIf_eq_ok, Bool.or_eq_false_iff, Bool.not_eq_false', strictEqual_text, checkHref_eq_ok,
    title_eq_ok, Option.some.injEq, exists_const, Except.ok.injEq, List.contains_eq_mem,
    decide_eq_false_iff_not]
  constructor
  · rintro ⟨d, hd, hexact, key, hkey, ⟨⟨hpattern, hdecorator⟩, hkeys⟩, htype, href, hhref, hurl,
      htitle, rfl⟩
    exact ⟨⟨key, href⟩, ⟨d, hd, hexact, hkey, ⟨hpattern, hdecorator⟩, htype, ⟨hhref, hurl⟩,
      htitle⟩, rfl, hkeys⟩
  · rintro ⟨⟨key, href⟩, ⟨d, hd, hexact, hkey, ⟨hpattern, hdecorator⟩, htype, ⟨hhref, hurl⟩,
      htitle⟩, rfl, hkeys⟩
    exact ⟨d, hd, hexact, key, hkey, ⟨⟨hpattern, hdecorator⟩, hkeys⟩, htype, href, hhref, hurl,
      htitle, rfl⟩

theorem Go.markDefinition_eq_ok {key : String} :
    markDefinition lib keys path v = .ok key ↔
      ∃ link, ReadsLink (fun href => linkHref lib href = true) v link ∧ link.key = key ∧
        key ∉ keys := by
  simp only [markDefinition, ReadsLink, bind_eq_ok, mapValue_eq_ok, exact_eq_ok,
    textSuch_index_eq_ok, expectText_eq_ok, title_eq_ok, exists_const, Except.ok.injEq,
    Bool.and_eq_true, Bool.not_eq_true', List.contains_eq_mem, decide_eq_false_iff_not]
  constructor
  · rintro ⟨d, hd, hexact, key, ⟨hkey, hpattern, hkeys⟩, htype, href, ⟨hhref, hurl⟩, htitle, rfl⟩
    exact ⟨⟨key, href⟩, ⟨d, hd, hexact, hkey, hpattern, htype, ⟨hhref, hurl⟩, htitle⟩, rfl, hkeys⟩
  · rintro ⟨⟨key, href⟩, ⟨d, hd, hexact, hkey, hpattern, htype, ⟨hhref, hurl⟩, htitle⟩, rfl,
      hkeys⟩
    exact ⟨d, hd, hexact, key, ⟨hkey, hpattern, hkeys⟩, htype, href, ⟨hhref, hurl⟩, htitle, rfl⟩

/-- The keys of links that are read one after the other stay distinct. -/
theorem nodup_concat {key : String} (hkeys : keys.Nodup) (hkey : key ∉ keys) :
    (keys ++ [key]).Nodup := by
  rw [List.nodup_append]
  refine ⟨hkeys, List.nodup_singleton key, ?_⟩
  intro a ha b hb
  rw [List.mem_singleton] at hb
  rintro rfl
  exact hkey (hb ▸ ha)

theorem collectKeys_eq_ok {ε : Type} {read : List String → Nat → Value → Except ε String}
    {href : String → Prop} {position : Nat} {defs : List Value} {result : List String}
    (hread : ∀ keys position v key, read keys position v = .ok key ↔
      ∃ link, ReadsLink href v link ∧ link.key = key ∧ key ∉ keys) (hkeys : keys.Nodup) :
    collectKeys read keys position defs = .ok result ↔
      ∃ links, List.Forall₂ (ReadsLink href) defs links ∧
        (keys ++ links.map Link.key).Nodup ∧ result = keys ++ links.map Link.key := by
  induction defs generalizing keys position with
  | nil =>
    simp only [collectKeys, Except.ok.injEq, List.forall₂_nil_left_iff, exists_eq_left,
      List.map_nil, List.append_nil, hkeys, true_and]
    exact eq_comm
  | cons entry defs ih =>
    simp only [collectKeys, bind_eq_ok, hread, List.forall₂_cons_left_iff]
    constructor
    · rintro ⟨_, ⟨link, hlink, rfl, hkey⟩, h⟩
      rw [ih (nodup_concat hkeys hkey)] at h
      obtain ⟨links, hlinks, hnodup, rfl⟩ := h
      rw [List.append_assoc, List.singleton_append] at hnodup ⊢
      exact ⟨_, ⟨link, links, hlink, hlinks, rfl⟩, hnodup, rfl⟩
    · rintro ⟨_, ⟨link, links, hlink, hlinks, rfl⟩, hnodup, rfl⟩
      have hkey : link.key ∉ keys := fun hmem =>
        List.disjoint_of_nodup_append hnodup hmem List.mem_cons_self
      refine ⟨link.key, ⟨link, hlink, rfl, hkey⟩, ?_⟩
      rw [ih (nodup_concat hkeys hkey)]
      refine ⟨links, hlinks, ?_, ?_⟩
      · rw [List.append_assoc]
        exact hnodup
      · rw [List.append_assoc]
        rfl

theorem TypeScript.markDefinitions_eq_ok {defs : List Value} {result : List String} :
    markDefinitions lib path defs = .ok result ↔
      ∃ links, List.Forall₂ (ReadsLink fun href => linkHref lib href = true) defs links ∧
        (links.map Link.key).Nodup ∧ result = links.map Link.key :=
  collectKeys_eq_ok (fun _ _ _ _ => markDefinition_eq_ok) List.nodup_nil

theorem Go.markDefinitions_eq_ok {defs : List Value} {result : List String} :
    markDefinitions lib path defs = .ok result ↔
      ∃ links, List.Forall₂ (ReadsLink fun href => linkHref lib href = true) defs links ∧
        (links.map Link.key).Nodup ∧ result = links.map Link.key :=
  collectKeys_eq_ok (fun _ _ _ _ => markDefinition_eq_ok) List.nodup_nil

end Links

section Spans

variable {path : String} {v : Value} {keys : List String} {u : Unit}

theorem TypeScript.markTexts_eq_ok {position : Nat} {entries : List Value} {marks : List String} :
    markTexts path position entries = .ok marks ↔ entries = marks.map .text := by
  induction entries generalizing marks position with
  | nil => cases marks <;> simp [markTexts]
  | cons entry entries ih =>
    cases marks with
    | nil => simp [markTexts]
    | cons mark marks =>
      simp only [markTexts, bind_eq_ok, text_eq_ok, ih, Option.some.injEq, Except.ok.injEq,
        List.cons.injEq, List.map_cons]
      constructor
      · rintro ⟨_, hentry, _, hentries, rfl, rfl⟩
        exact ⟨hentry, hentries⟩
      · rintro ⟨hentry, hentries⟩
        exact ⟨mark, hentry, marks, hentries, rfl, rfl⟩

theorem dedup_length_iff {marks : List String} :
    marks.dedup.length = marks.length ↔ marks.Nodup := by
  rw [← List.dedup_eq_self]
  constructor
  · exact (List.dedup_sublist marks).eq_of_length
  · exact congrArg List.length

theorem TypeScript.spt2Span_eq_ok :
    spt2Span keys path v = .ok u ↔ ∃ span, ReadsSpan keys v span := by
  simp only [spt2Span, ReadsSpan, SpanMarks, bind_eq_ok, record_eq_ok, exactKeys_eq_ok,
    failIf_eq_ok, Bool.not_eq_false', strictEqual_text, text_eq_ok, array_eq_ok, markTexts_eq_ok,
    Bool.or_eq_false_iff, bne_eq_false_iff_eq, dedup_length_iff, List.any_eq_false,
    Bool.and_eq_true, Bool.not_eq_true', List.contains_eq_mem, decide_eq_false_iff_not,
    not_lt, Option.some.injEq, exists_const, not_and, not_not]
  constructor
  · rintro ⟨s, hs, hexact, htype, t, ht, _, hentries, marks, rfl, ⟨hnodup, hmarks⟩, hlinks⟩
    refine ⟨⟨t, marks⟩, s, hs, hexact, htype, ht, hentries, hnodup, fun mark hmark => ?_, hlinks⟩
    exact or_iff_not_imp_left.2 (hmarks mark hmark)
  · rintro ⟨⟨t, marks⟩, s, hs, hexact, htype, ht, hentries, hnodup, hmarks, hlinks⟩
    refine ⟨s, hs, hexact, htype, t, ht, _, hentries, marks, rfl, ⟨hnodup, fun mark hmark => ?_⟩,
      hlinks⟩
    exact or_iff_not_imp_left.1 (hmarks mark hmark)

theorem Go.spanMarks_eq_ok {seen : List String} {annotations result : Nat}
    {entries : List Value} :
    spanMarks keys seen annotations entries = .ok result ↔
      ∃ marks : List String, entries = marks.map .text ∧
        (marks.Nodup ∧ ∀ mark ∈ marks, mark ∉ seen) ∧
        (∀ mark ∈ marks, mark ∈ decorators ∨ mark ∈ keys) ∧
        result = annotations + (marks.filter keys.contains).length := by
  fun_induction spanMarks keys seen annotations entries with
  | case1 seen annotations =>
    simp only [Except.ok.injEq]
    constructor
    · rintro rfl
      exact ⟨[], rfl, ⟨List.nodup_nil, by simp⟩, by simp, by simp⟩
    · rintro ⟨marks, hmarks, _, _, rfl⟩
      cases marks with
      | nil => simp
      | cons mark marks => cases hmarks
  | case2 seen annotations mark entries hbad =>
    simp only [reduceCtorEq, false_iff, not_exists, not_and]
    rintro marks hmarks ⟨_, hseen⟩ hknown _
    cases marks with
    | nil => cases hmarks
    | cons head marks =>
      cases hmarks
      have hseen := hseen mark List.mem_cons_self
      have hknown := hknown mark List.mem_cons_self
      simp only [List.contains_eq_mem, Bool.or_eq_true, Bool.and_eq_true, Bool.not_eq_true',
        decide_eq_true_eq, decide_eq_false_iff_not] at hbad
      obtain hbad | hbad := hbad
      · exact hseen hbad
      · exact hknown.elim hbad.1 hbad.2
  | case3 seen annotations mark entries hgood ih =>
    rw [ih]
    simp only [List.contains_eq_mem, Bool.or_eq_true, Bool.and_eq_true, Bool.not_eq_true',
      decide_eq_true_eq, decide_eq_false_iff_not, not_or, not_and_or, not_not] at hgood
    constructor
    · rintro ⟨marks, rfl, ⟨hnodup, hseen⟩, hknown, rfl⟩
      refine ⟨mark :: marks, rfl, ⟨?_, ?_⟩, ?_, ?_⟩
      · rw [List.nodup_cons]
        exact ⟨fun hmem => hseen mark hmem List.mem_cons_self, hnodup⟩
      · rw [List.forall_mem_cons]
        exact ⟨hgood.1, fun m hm hmem => hseen m hm (List.mem_cons_of_mem mark hmem)⟩
      · rw [List.forall_mem_cons]
        exact ⟨hgood.2, hknown⟩
      · rw [List.filter_cons]
        split
        · rw [List.length_cons]
          omega
        · rfl
    · rintro ⟨marks, hmarks, ⟨hnodup, hseen⟩, hknown, rfl⟩
      cases marks with
      | nil => cases hmarks
      | cons head marks =>
        cases hmarks
        rw [List.forall_mem_cons] at hseen hknown
        rw [List.nodup_cons] at hnodup
        refine ⟨marks, rfl, ⟨hnodup.2, fun m hm hmem => ?_⟩, hknown.2, ?_⟩
        · rw [List.mem_cons] at hmem
          obtain rfl | hmem := hmem
          · exact hnodup.1 hm
          · exact hseen.2 m hm hmem
        · rw [List.filter_cons]
          split
          · rw [List.length_cons]
            omega
          · rfl
  | case4 seen annotations entry entries hnot =>
    simp only [reduceCtorEq, false_iff, not_exists, not_and]
    rintro marks hmarks
    cases marks with
    | nil => cases hmarks
    | cons head marks =>
      cases hmarks
      exact absurd rfl (hnot head)

theorem Go.spt2Span_eq_ok :
    spt2Span keys path v = .ok u ↔ ∃ span, ReadsSpan keys v span := by
  simp only [spt2Span, ReadsSpan, SpanMarks, bind_eq_ok, mapValue_eq_ok, exact_eq_ok,
    expectText_eq_ok, textValue_eq_ok, index_eq_text, arrayValue_eq_ok, index_eq_array,
    spanMarks_eq_ok, errorIf_eq_ok, decide_eq_false_iff_not, not_lt, exists_const, zero_add]
  constructor
  · rintro ⟨s, hs, hexact, htype, t, ht, _, hentries, _, ⟨marks, rfl, ⟨hnodup, _⟩, hmarks, rfl⟩,
      hlinks⟩
    exact ⟨⟨t, marks⟩, s, hs, hexact, htype, ht, hentries, hnodup, hmarks, hlinks⟩
  · rintro ⟨⟨t, marks⟩, s, hs, hexact, htype, ht, hentries, hnodup, hmarks, hlinks⟩
    exact ⟨s, hs, hexact, htype, t, ht, _, hentries, _,
      ⟨marks, rfl, ⟨hnodup, fun _ _ => List.not_mem_nil⟩, hmarks, rfl⟩, hlinks⟩

/-- A list whose entries all read as something reads as a list. -/
theorem exists_forall₂_iff {α β : Type} {R : α → β → Prop} {xs : List α} :
    (∃ ys, List.Forall₂ R xs ys) ↔ ∀ x ∈ xs, ∃ y, R x y := by
  induction xs with
  | nil => simp
  | cons x xs ih =>
    rw [List.forall_mem_cons, ← ih]
    simp only [List.forall₂_cons_left_iff]
    constructor
    · rintro ⟨_, y, ys, hx, hxs, rfl⟩
      exact ⟨⟨y, hx⟩, ys, hxs⟩
    · rintro ⟨⟨y, hx⟩, ys, hxs⟩
      exact ⟨_, y, ys, hx, hxs, rfl⟩

theorem TypeScript.spt2Spans_eq_ok {path : Nat → String} {position : Nat}
    {children : List Value} :
    forEach (fun childIndex => spt2Span keys (path childIndex)) position children = .ok u ↔
      ∃ spans, List.Forall₂ (ReadsSpan keys) children spans := by
  rw [exists_forall₂_iff]
  exact forEach_eq_ok fun _ _ _ => spt2Span_eq_ok

theorem Go.spt2Spans_eq_ok {path : Nat → String} {position : Nat} {children : List Value} :
    forEach (fun j => spt2Span keys (path j)) position children = .ok u ↔
      ∃ spans, List.Forall₂ (ReadsSpan keys) children spans := by
  rw [exists_forall₂_iff]
  exact forEach_eq_ok fun _ _ _ => spt2Span_eq_ok

end Spans

section CallsToAction

variable {path : String} {keys : List String} {children : List Value} {spans : List Span} {u : Unit}

theorem TypeScript.label_eq_ok {text : String}
    (hspans : List.Forall₂ (ReadsSpan keys) children spans) :
    label path children = .ok text ↔ text = joined spans := by
  induction hspans generalizing text with
  | nil =>
    simp only [label, joined, Except.ok.injEq]
    exact eq_comm
  | cons hspan _ ih =>
    obtain ⟨s, rfl, _, _, htext, _⟩ := hspan
    simp only [label, joined, spanText, bind_eq_ok, record_eq_ok, asString, ih,
      Option.some.injEq, Value.map.injEq, Except.ok.injEq]
    constructor
    · rintro ⟨_, ⟨_, rfl, rfl⟩, _, rfl, rfl⟩
      rw [htext]
    · rintro rfl
      exact ⟨_, ⟨s, rfl, rfl⟩, _, rfl, by rw [htext]⟩

theorem TypeScript.onlyMark_eq_ok {key : String} {child : Value} {span : Span}
    (hspan : ReadsSpan keys child span) :
    onlyMark (some (.text key)) path child = .ok u ↔ span.marks = [key] := by
  obtain ⟨s, rfl, _, _, _, hmarks, _⟩ := hspan
  simp only [onlyMark, bind_eq_ok, record_eq_ok, Option.some.injEq, Value.map.injEq,
    exists_eq_left', hmarks]
  cases hlist : span.marks with
  | nil => simp
  | cons mark marks =>
    cases marks with
    | nil =>
      simp only [List.map_cons, List.map_nil, failIf_eq_ok, Bool.not_eq_false',
        strictEqual_text, Option.some.injEq, Value.text.injEq, List.cons.injEq, and_true]
    | cons second marks => simp

theorem TypeScript.onlyMarks_eq_ok {key : String} {position : Nat}
    (hspans : List.Forall₂ (ReadsSpan keys) children spans) :
    forEach (fun _ => onlyMark (some (.text key)) path) position children = .ok u ↔
      ∀ span ∈ spans, span.marks = [key] := by
  induction hspans generalizing position with
  | nil => simp [forEach]
  | cons hspan _ ih =>
    rw [forEach, bind_eq_ok, List.forall_mem_cons]
    simp only [onlyMark_eq_ok hspan, ih, exists_const]

theorem Go.ctaSpans_eq_ok {key label text : String}
    (hspans : List.Forall₂ (ReadsSpan keys) children spans) :
    ctaSpans (.text key) label children = .ok text ↔
      (∀ span ∈ spans, span.marks = [key]) ∧ text = label ++ joined spans := by
  induction hspans generalizing label with
  | nil =>
    simp only [ctaSpans, joined, Except.ok.injEq, List.not_mem_nil, false_implies, implies_true,
      true_and, String.append_empty]
    exact eq_comm
  | @cons child span children spans hspan _ ih =>
    obtain ⟨s, rfl, _, _, htext, hmarks, _⟩ := hspan
    rw [← index_eq_text] at htext
    rw [← index_eq_array] at hmarks
    rw [List.forall_mem_cons, joined, ← String.append_assoc]
    simp only [ctaSpans, mapOf, mapValue, arrayOf, arrayValue, hmarks, textOf, textValue, htext]
    cases hlist : span.marks with
    | nil => simp
    | cons mark marks =>
      cases marks with
      | nil =>
        by_cases hkey : mark = key
        · simp only [List.map_cons, List.map_nil, hkey, interfaceEqual_text, if_true, ih,
            true_and]
        · simp only [List.map_cons, List.map_nil, interfaceEqual_text, Value.text.injEq,
            hkey, if_false, reduceCtorEq, List.cons.injEq, and_true, false_and]
      | cons second marks => simp

theorem isBlank_filter {label : String} :
    (label.toList.filter (!isBlank ·)).isEmpty = false ↔ ∃ c ∈ label.toList, isBlank c = false := by
  rw [List.isEmpty_eq_false_iff, ne_eq, List.filter_eq_nil_iff]
  push Not
  simp only [Bool.not_eq_true']

/-- Trimming both ends leaves nothing exactly when every character is blank. -/
theorem Go.trimsToEmpty_eq_false {label : String} :
    trimsToEmpty label = false ↔ ∃ c ∈ label.toList, isBlank c = false := by
  rw [← not_iff_not]
  push Not
  simp only [trimsToEmpty, ne_eq, Bool.not_eq_false, List.isEmpty_iff, List.dropWhile_eq_nil_iff,
    List.mem_reverse]
  constructor
  · intro h c hc
    rw [← List.takeWhile_append_dropWhile (p := isBlank) (l := label.toList), List.mem_append] at hc
    obtain hc | hc := hc
    · exact List.mem_takeWhile_imp hc
    · exact h c hc
  · intro h c hc
    exact h c (List.dropWhile_sublist _ |>.subset hc)

theorem TypeScript.callToAction_eq_ok {b : Record} {defs : List Value} {links : List Link}
    {href : String → Prop} (hdefs : b.get "markDefs" = some (.array defs))
    (hlinks : List.Forall₂ (ReadsLink href) defs links)
    (hspans : List.Forall₂ (ReadsSpan keys) children spans) :
    callToAction path b children = .ok u ↔ CallToAction b links spans := by
  simp only [callToAction, CallToAction, bind_eq_ok, array_eq_ok, hdefs, failIf_eq_ok,
    Bool.or_eq_false_iff, bne_eq_false_iff_eq, record_eq_ok, label_eq_ok hspans, isBlank_filter,
    decide_eq_false_iff_not, not_lt, exists_const, Option.some.injEq, Value.array.injEq,
    exists_eq_left', exists_eq_left, List.any_eq_false, Bool.not_eq_true,
    Option.isSome_eq_false_iff, Option.isNone_iff_eq_none, hlinks.length_eq, and_assoc]
  refine and_congr_right fun _ => and_congr_right fun _ => ?_
  rw [List.length_eq_one_iff]
  constructor
  · rintro ⟨⟨link, rfl⟩, d, hd, hsome, hline, hsize, _, hmarks, hhref⟩
    obtain ⟨v, _, hlink, hnil, rfl⟩ := List.forall₂_cons_right_iff.1 hlinks
    obtain ⟨d', rfl, _, hkey, _, _, ⟨hhref', _⟩, _⟩ := hlink
    cases hd
    rw [hkey, onlyMarks_eq_ok hspans] at hmarks
    rw [hhref'] at hhref
    exact ⟨link, rfl, hmarks, ⟨hsome, hline, hsize⟩, hhref⟩
  · rintro ⟨link, rfl, hmarks, ⟨hsome, hline, hsize⟩, hhref⟩
    obtain ⟨v, _, hlink, hnil, rfl⟩ := List.forall₂_cons_right_iff.1 hlinks
    obtain ⟨d, rfl, _, hkey, _, _, ⟨hhref', _⟩, _⟩ := hlink
    refine ⟨⟨link, rfl⟩, d, rfl, hsome, hline, hsize, (), ?_, ?_⟩
    · rw [hkey, onlyMarks_eq_ok hspans]
      exact hmarks
    · rw [hhref']
      exact hhref

theorem Go.callToAction_eq_ok {b : Record} {defs : List Value} {links : List Link}
    {href : String → Prop} (hlinks : List.Forall₂ (ReadsLink href) defs links)
    (hspans : List.Forall₂ (ReadsSpan keys) children spans) :
    callToAction b defs children = .ok u ↔ CallToAction b links spans := by
  simp only [callToAction, CallToAction, bind_eq_ok, errorIf_eq_ok, has,
    Bool.or_eq_false_iff, bne_eq_false_iff_eq, trimsToEmpty_eq_false,
    decide_eq_false_iff_not, not_lt, exists_const, List.any_eq_false, Bool.not_eq_true,
    Option.isSome_eq_false_iff, Option.isNone_iff_eq_none, hlinks.length_eq, and_assoc]
  refine and_congr_right fun _ => and_congr_right fun _ => ?_
  rw [List.length_eq_one_iff]
  constructor
  · rintro ⟨⟨link, rfl⟩, label, hlabel, hsome, hline, hsize, hhref⟩
    obtain ⟨v, _, hlink, hnil, rfl⟩ := List.forall₂_cons_right_iff.1 hlinks
    obtain ⟨d, rfl, _, hkey, _, _, ⟨hhref', _⟩, _⟩ := hlink
    rw [← index_eq_text] at hkey hhref'
    simp only [List.headD_cons, mapOf, mapValue, hkey, hhref', textOf, textValue] at hlabel hhref
    rw [ctaSpans_eq_ok hspans, String.empty_append] at hlabel
    obtain ⟨hmarks, rfl⟩ := hlabel
    exact ⟨link, rfl, hmarks, ⟨hsome, hline, hsize⟩, hhref⟩
  · rintro ⟨link, rfl, hmarks, ⟨hsome, hline, hsize⟩, hhref⟩
    obtain ⟨v, _, hlink, hnil, rfl⟩ := List.forall₂_cons_right_iff.1 hlinks
    obtain ⟨d, rfl, _, hkey, _, _, ⟨hhref', _⟩, _⟩ := hlink
    rw [← index_eq_text] at hkey hhref'
    simp only [List.headD_cons, mapOf, mapValue, hkey, hhref', textOf, textValue]
    exact ⟨⟨link, rfl⟩, joined spans, (ctaSpans_eq_ok hspans).2 ⟨hmarks, String.empty_append⟩,
      hsome, hline, hsize, hhref⟩

end CallsToAction

section Rich

variable {lib : Libraries} {v : Value} {position : Nat} {u : Unit}

theorem TypeScript.oneOf_eq_ok {names : List String} {value : Option Value} :
    (value.isSome && !includes names value) = false ↔ value = none ∨ OneOf names value := by
  rw [← includes_iff]
  cases value <;> simp

theorem TypeScript.level_eq_ok {b : Record} {path : String} :
    (optional (b.get "level") fun level => do
      failIf (b.get "listItem").isNone "invalid list level" path
      let n ← integer level path 1
      failIf (!([1, 2, 3] : List Int).contains n) "invalid list level" path) = .ok u ↔
      b.get "level" = none ∨ (b.get "listItem").isSome ∧
        ∃ n, IsInteger 1 (b.get "level") n ∧ n ≤ 3 := by
  refine optional_eq_ok fun _ => ?_
  simp only [bind_eq_ok, failIf_eq_ok, integer_eq_ok, Option.isNone_eq_false_iff, exists_const,
    Bool.not_eq_false', List.contains_eq_mem, decide_eq_true_eq]
  refine and_congr_right fun _ => exists_congr fun n => and_congr_right fun hn => ?_
  have hpos := hn.2.2
  simp only [List.mem_cons, List.not_mem_nil, or_false]
  omega

theorem Go.level_eq_ok {b : Record} {path : String} :
    (optional b "level" fun level => listLevel b level path) = .ok u ↔
      b.get "level" = none ∨ (b.get "listItem").isSome ∧
        ∃ n, IsInteger 1 (b.get "level") n ∧ n ≤ 3 := by
  refine optional_eq_ok fun _ => ?_
  unfold listLevel
  constructor
  · intro h
    split at h
    · rename_i n hn
      rw [intValue_index_eq_ok zero_le_one] at hn
      simp only [errorIf_eq_ok, Bool.or_eq_false_iff, Bool.not_eq_false', has_eq_true,
        decide_eq_false_iff_not, not_lt] at h
      exact ⟨h.1, n, hn, h.2⟩
    · cases h
  · rintro ⟨hlist, n, hn, hthree⟩
    rw [(intValue_index_eq_ok zero_le_one).2 hn]
    simp only [errorIf_eq_ok, Bool.or_eq_false_iff, Bool.not_eq_false', has_eq_true,
      decide_eq_false_iff_not, not_lt]
    exact ⟨hlist, hthree⟩

/-- The last part of a block: the label of a call to action, once its spans are read. -/
theorem cta_congr {ε : Type} {b : Record} {links : List Link} {children : List Value}
    {callToAction : Except ε Unit} {c : Prop} [Decidable c]
    (hc : c ↔ b.get "style" = some (.text "cta"))
    (h : ∀ spans, List.Forall₂ (ReadsSpan (links.map Link.key)) children spans →
      (callToAction = .ok u ↔ CallToAction b links spans)) :
    ((∃ spans, List.Forall₂ (ReadsSpan (links.map Link.key)) children spans) ∧
        (if c then callToAction else .ok ()) = .ok u) ↔
      ∃ spans, List.Forall₂ (ReadsSpan (links.map Link.key)) children spans ∧
        (b.get "style" = some (.text "cta") → CallToAction b links spans) := by
  rw [← exists_and_right]
  refine exists_congr fun spans => and_congr_right fun hspans => ?_
  rw [← hc, ← h spans hspans]
  by_cases hstyle : c
  · simp only [hstyle, if_true, forall_const]
  · simp only [hstyle, if_false, false_implies]

theorem TypeScript.spt2Block_eq_ok :
    spt2Block lib position v = .ok u ↔ RichBlock (fun href => linkHref lib href = true) v := by
  simp only [spt2Block, RichBlock, bind_eq_ok, record_eq_ok, exactKeys_eq_ok, failIf_eq_ok,
    Bool.or_eq_false_iff, Bool.not_eq_false', strictEqual_text, includes_iff, oneOf_eq_ok,
    level_eq_ok, array_eq_ok, markDefinitions_eq_ok, spt2Spans_eq_ok, List.isEmpty_eq_false_iff,
    Option.some.injEq, exists_const, and_assoc]
  refine exists_congr fun b => and_congr_right fun _ => and_congr_right fun _ =>
    and_congr_right fun _ => and_congr_right fun _ => and_congr_right fun _ =>
    and_congr_right fun _ => and_congr_right fun _ => exists_congr fun defs =>
    and_congr_right fun hdefs => ?_
  constructor
  · rintro ⟨_, ⟨links, hlinks, hnodup, rfl⟩, children, hchildren, hnonempty, h⟩
    refine ⟨links, hlinks, hnodup, children, hchildren, hnonempty, ?_⟩
    exact (cta_congr strictEqual_text fun spans hspans => callToAction_eq_ok hdefs hlinks hspans).1 h
  · rintro ⟨links, hlinks, hnodup, children, hchildren, hnonempty, h⟩
    refine ⟨_, ⟨links, hlinks, hnodup, rfl⟩, children, hchildren, hnonempty, ?_⟩
    exact (cta_congr strictEqual_text fun spans hspans => callToAction_eq_ok hdefs hlinks hspans).2 h

theorem Go.alignment_eq_ok {b : Record} {names : List String} {k message : String} :
    (optional b k fun w => do
      let _ ← textSuch w names.contains message
      .ok ()) = .ok u ↔ b.get k = none ∨ OneOf names (b.get k) := by
  refine optional_eq_ok fun _ => ?_
  simp only [bind_eq_ok, and_true]
  exact oneOf_index_eq_ok

theorem Go.spt2Block_eq_ok :
    spt2Block lib position v = .ok u ↔ RichBlock (fun href => linkHref lib href = true) v := by
  simp only [spt2Block, RichBlock, bind_eq_ok, mapValue_eq_ok, exact_eq_ok, expectText_eq_ok,
    textSuch_index_eq_ok, alignment_eq_ok, level_eq_ok, arrayValue_eq_ok, index_eq_array,
    markDefinitions_eq_ok, blockChildren_eq_ok, spt2Spans_eq_ok, exists_const, and_assoc]
  refine exists_congr fun b => and_congr_right fun _ => and_congr_right fun _ =>
    and_congr_right fun _ => ?_
  constructor
  · rintro ⟨style, hstyle, hnames, halignment, defs, hdefs, _, ⟨links, hlinks, hnodup, rfl⟩, hlist,
      hlevel, children, hchildren, hnonempty, h⟩
    refine ⟨⟨style, by simpa using hnames, hstyle⟩, halignment, hlist, hlevel, defs, hdefs, links,
      hlinks, hnodup, children, hchildren, hnonempty, ?_⟩
    refine (cta_congr ?_ fun spans hspans => callToAction_eq_ok hlinks hspans).1 h
    rw [hstyle, Option.some.injEq, Value.text.injEq]
  · rintro ⟨⟨style, hnames, hstyle⟩, halignment, hlist, hlevel, defs, hdefs, links, hlinks, hnodup,
      children, hchildren, hnonempty, h⟩
    refine ⟨style, hstyle, by simpa using hnames, halignment, defs, hdefs, _,
      ⟨links, hlinks, hnodup, rfl⟩, hlist, hlevel, children, hchildren, hnonempty, ?_⟩
    refine (cta_congr ?_ fun spans hspans => callToAction_eq_ok hlinks hspans).2 h
    rw [hstyle, Option.some.injEq, Value.text.injEq]

theorem TypeScript.spt2Blocks_eq_ok {blocks : List Value} :
    forEach (spt2Block lib) position blocks = .ok u ↔
      ∀ v ∈ blocks, RichBlock (fun href => linkHref lib href = true) v :=
  forEach_eq_ok fun _ _ _ => spt2Block_eq_ok

theorem Go.spt2Blocks_eq_ok {blocks : List Value} :
    forEach (spt2Block lib) position blocks = .ok u ↔
      ∀ v ∈ blocks, RichBlock (fun href => linkHref lib href = true) v :=
  forEach_eq_ok fun _ _ _ => spt2Block_eq_ok

theorem TypeScript.validateSpt2Body_eq_ok {m : Record} :
    validateSpt2Body lib m = .ok u ↔
      Spt2Schema (fun name => attachmentFilename lib name = true)
        (fun href => linkHref lib href = true) m := by
  simp only [validateSpt2Body, Spt2Schema, Blocks, bind_eq_ok, bodyHeader_eq_ok, array_eq_ok,
    exists_const, spt2Blocks_eq_ok]

theorem Go.validateSpt2Body_eq_ok {m : Record} :
    validateSpt2Body lib m = .ok u ↔
      Spt2Schema (fun name => attachmentFilename lib name = true)
        (fun href => linkHref lib href = true) m := by
  simp only [validateSpt2Body, Spt2Schema, Blocks, bind_eq_ok, bodyHeader_eq_ok, arrayValue_eq_ok,
    index_eq_array, exists_const, spt2Blocks_eq_ok]

/-- The text blocks of the third profile are checked as a body of the second. -/
theorem spt2Schema_spt3Body {filename href : String → Prop} {texts : List Value} :
    Spt2Schema filename href (spt3Body texts) ↔ ∀ v ∈ texts, RichBlock href v := by
  have hblocks : (spt3Body texts).get "blocks" = some (.array texts) := rfl
  simp only [Spt2Schema, Blocks, hblocks, Option.some.injEq, Value.array.injEq, exists_eq_left']
  refine and_iff_right ⟨⟨?_, ?_⟩, .inl rfl, rfl, rfl⟩
  · intro e he
    simp only [spt3Body, List.mem_cons, List.not_mem_nil, or_false] at he
    obtain rfl | rfl | rfl := he
    · exact ⟨"version", by decide, rfl⟩
    · exact ⟨"profile", by decide, rfl⟩
    · exact ⟨"blocks", by decide, rfl⟩
  · intro k hk
    simp only [List.mem_cons, List.not_mem_nil, or_false] at hk
    obtain rfl | rfl | rfl := hk <;> rfl

end Rich

end HailProto.Codec
