import HailProto.Codec.Reference
import HailProto.Content.Reading
import HailProto.Core.Runs

/-!
# The meaning of a body

`semantics` of the builder's `core.ts`, by which bodies are compared. It forgets the keys of links,
the order of marks and how a text is cut into spans, and nothing else: bodies with equal semantics
are those with the same assets, images and marked letters.
-/

namespace HailProto.Content.Builder

open Codec
open Server Server.Json

section Semantics

/-- `block.markDefs.find(d=>d._key===mark)` -/
def definition (block : Properties) (mark : JsString) : Option Js :=
  (elements (field block "markDefs")).find? fun d => string (field (properties d) "_key") == mark

def linkText (d : Properties) : JsString :=
  stringify (.object [(js "href", field d "href"), (js "title", field d "title")])

def markText (block : Properties) (mark : JsString) : JsString :=
  match definition block mark with
  | some d => linkText (properties d)
  | none => mark

def marks (span : Properties) : List JsString := (elements (field span "marks")).map string

/-- The marks of a span, sorted. -/
def spanMarks (block span : Properties) : List JsString :=
  ((marks span).map (markText block)).insertionSort (· ≤ ·)

/-- A text and its marks. -/
abbrev Run := JsString × List JsString

def appendSpan (block : Properties) (runs : List Run) (span : Properties) : List Run :=
  match runs.getLast? with
  | some last =>
    if stringify (strings last.2) = stringify (strings (spanMarks block span)) then
      runs.dropLast ++ [(last.1 ++ text span, last.2)]
    else if (text span).isEmpty then runs
    else runs ++ [(text span, spanMarks block span)]
  | none =>
    if (text span).isEmpty then runs
    else runs ++ [(text span, spanMarks block span)]

def blockRuns (block : Properties) : List Run := (spans block).foldl (appendSpan block) []

def runValue (run : Run) : Js :=
  .object [(js "text", .string run.1), (js "marks", strings run.2)]

def blockSemantics (v : Js) : Js :=
  let block := properties v
  if isImage block then v
  else
    .object [(js "style", field block "style"),
      (js "alignment", nullish (field block "alignment") (.string (js "left"))),
      (js "listItem", field block "listItem"),
      (js "level", if truthy (field block "listItem") then nullish (field block "level") (.number 1)
        else .null),
      (js "runs", .array ((blockRuns block).map runValue))]

def assets (body : Properties) : Js :=
  if isText (getProperty body "profile") "spt-3" then field body "assets" else .null

/-- `semantics` -/
def semantics (v : Js) : Js :=
  let body := properties v
  .object [(js "assets", assets body), (js "blocks", .array ((blocks body).map blockSemantics))]

end Semantics

/-! ## What is compared -/

section Meaning

/-- A character of a block, with its decorators and the target and title of its link. -/
@[ext] structure Letter where
  unit : CodeUnit
  decorators : Finset JsString
  link : Option (JsString × Option JsString)

instance : DecidableEq Letter := fun _ _ => decidable_of_iff _ Letter.ext_iff.symm

def title (d : Properties) : Option JsString :=
  match field d "title" with
  | .string s => some s
  | _ => none

/-- The decorators of a span are the marks that no annotation defines. -/
def spanDecorators (block span : Properties) : Finset JsString :=
  ((marks span).filter fun mark => (definition block mark).isNone).toFinset

def spanLink (block span : Properties) : Option (JsString × Option JsString) :=
  ((marks span).findSome? (definition block)).map fun d =>
    (string (field (properties d) "href"), title (properties d))

/-- The letters of a block, whatever the spans they stand in. -/
def letters (block : Properties) : List Letter :=
  (spans block).flatMap fun span => (text span).map fun unit =>
    ⟨unit, spanDecorators block span, spanLink block span⟩

def alignment (block : Properties) : JsString :=
  match field block "alignment" with
  | .string s => s
  | _ => js "left"

def listKind (block : Properties) : Option JsString :=
  match field block "listItem" with
  | .string s => some s
  | _ => none

/-- The level of a list item is one where none is given, and other blocks have none. -/
def level (block : Properties) : Option ℤ :=
  (listKind block).map fun _ =>
    match field block "level" with
    | .number n => n
    | _ => 1

structure SameText (block block' : Properties) : Prop where
  style : string (field block "style") = string (field block' "style")
  alignment : alignment block = alignment block'
  listKind : listKind block = listKind block'
  level : level block = level block'
  letters : letters block = letters block'

inductive SameBlock (v w : Js) : Prop
  | image (hv : isImage (properties v) = true) (hw : isImage (properties w) = true)
      (h : DeepEqual v w)
  | text (hv : isImage (properties v) = false) (hw : isImage (properties w) = false)
      (h : SameText (properties v) (properties w))

structure SameBody (body body' : Properties) : Prop where
  assets : DeepEqual (assets body) (assets body')
  blocks : List.Forall₂ SameBlock (blocks body) (blocks body')

end Meaning

/-! ## Marks -/

section Texts

theorem tree_strings (l : List JsString) : tree (strings l) = .array (l.map .string) := by
  have htrees : trees (l.map .string) = l.map .string := by
    induction l with
    | nil => rfl
    | cons s l ih => rw [List.map_cons, List.map_cons, trees, ih, tree]
  rw [strings, tree, htrees]

/-- Lists of strings are told apart by their JSON. -/
theorem stringify_strings {l l' : List JsString} :
    stringify (strings l) = stringify (strings l') ↔ l = l' := by
  have hnumerals : ∀ l : List JsString, elementNumerals (l.map .string) = [] := by
    intro l
    induction l with
    | nil => rfl
    | cons s l ih => rw [List.map_cons, elementNumerals, ih, numerals, List.append_nil]
  have htext : ∀ l : List JsString, IsText (stringify (strings l)) (.array (l.map .string)) := by
    intro l
    rw [stringify, tree_strings]
    refine isText_write _ fun n hn => ?_
    rw [numerals, hnumerals] at hn
    cases hn
  constructor
  · intro h
    have hsame := (h ▸ htext l).unique (htext l')
    exact List.map_injective_iff.2 (fun _ _ => Json.string.inj) (Json.array.inj hsame)
  · rintro rfl
    rfl

/-- The JSON of a link. -/
def linkJson (link : JsString × Option JsString) : JsString :=
  stringify (.object [(js "href", .string link.1), (js "title", link.2.elim .null .string)])

theorem linkJson_inj {link link' : JsString × Option JsString} :
    linkJson link = linkJson link' ↔ link = link' := by
  have htext : ∀ link : JsString × Option JsString, IsText (linkJson link)
      (.object [(js "href", .string link.1), (js "title", link.2.elim .null .string)]) := by
    rintro ⟨href, _ | title⟩
    · exact isText_write (.object [(js "href", .string href), (js "title", .null)]) nofun
    · exact isText_write (.object [(js "href", .string href), (js "title", .string title)]) nofun
  constructor
  · intro h
    have hsame := (h ▸ htext link).unique (htext link')
    obtain ⟨href, title⟩ := link
    obtain ⟨href', title'⟩ := link'
    cases title <;> cases title' <;> simp_all
  · rintro rfl
    rfl

theorem head_linkJson (link : JsString × Option JsString) :
    (linkJson link).head? = some openBrace := rfl

end Texts

section Marks

/-- A link with the members that its type promises. -/
structure IsLink (d : Properties) : Prop where
  href : ∃ s, field d "href" = .string s
  title : field d "title" = .null ∨ ∃ s, field d "title" = .string s

/-- The target and title of a link. -/
def target (d : Properties) : JsString × Option JsString :=
  (string (field d "href"), title d)

theorem linkText_eq {d : Properties} (h : IsLink d) : linkText d = linkJson (target d) := by
  obtain ⟨⟨href, hhref⟩, htitle⟩ := h
  unfold linkText linkJson target title
  rcases htitle with htitle | ⟨s, htitle⟩
  · rw [hhref, htitle]
    rfl
  · rw [hhref, htitle]
    rfl

/-- The marks of an accepted span: decorators and at most one link, each once. -/
structure HasMarks (block span : Properties) : Prop where
  nodup : (marks span).Nodup
  decorators : ∀ mark ∈ marks span, definition block mark = none → mark.head? ≠ some openBrace
  links : ((marks span).filterMap (definition block)).length ≤ 1
  isLink : ∀ mark d, definition block mark = some d → IsLink (properties d)

variable {block span block' span' : Properties} {l : List JsString}

theorem spanLink_eq : spanLink block span =
    ((marks span).filterMap (definition block)).head?.map fun d => target (properties d) := by
  rw [List.head?_filterMap]
  rfl

/-- A mark is written as a link exactly when an annotation defines it. -/
theorem head_markText (hlink : ∀ mark d, definition block mark = some d → IsLink (properties d))
    {mark : JsString} (h : definition block mark = none → mark.head? ≠ some openBrace) :
    ((markText block mark).head? == some openBrace) = (definition block mark).isSome := by
  unfold markText
  cases hd : definition block mark with
  | none => simpa using h hd
  | some d =>
    dsimp only
    rw [linkText_eq (hlink mark d hd), head_linkJson]
    rfl

theorem HasMarks.filter_links (h : HasMarks block span) :
    ((marks span).map (markText block)).filter (fun s => s.head? == some openBrace) =
      (spanLink block span).toList.map linkJson := by
  have hlinks : ∀ l ⊆ marks span,
      (l.map (markText block)).filter (fun s => s.head? == some openBrace) =
        (l.filterMap (definition block)).map fun d => linkJson (target (properties d)) := by
    intro l hl
    induction l with
    | nil => rfl
    | cons mark l ih =>
      rw [List.cons_subset] at hl
      rw [List.map_cons, List.filter_cons, head_markText h.isLink (h.decorators mark hl.1),
        ih hl.2, markText]
      cases hd : definition block mark with
      | none => simp [hd]
      | some d => simp [hd, linkText_eq (h.isLink mark d hd)]
  rw [hlinks _ (List.Subset.refl _), spanLink_eq]
  have hone := h.links
  generalize (marks span).filterMap (definition block) = links at hone ⊢
  match links with
  | [] => rfl
  | [d] => rfl
  | d :: d' :: rest => simp at hone

theorem HasMarks.filter_decorators (h : HasMarks block span) :
    ((marks span).map (markText block)).filter (fun s => !(s.head? == some openBrace)) =
      (marks span).filter fun mark => (definition block mark).isNone := by
  have hdecorators : ∀ l ⊆ marks span,
      (l.map (markText block)).filter (fun s => !(s.head? == some openBrace)) =
        l.filter fun mark => (definition block mark).isNone := by
    intro l hl
    induction l with
    | nil => rfl
    | cons mark l ih =>
      rw [List.cons_subset] at hl
      rw [List.map_cons, List.filter_cons, head_markText h.isLink (h.decorators mark hl.1),
        ih hl.2, List.filter_cons, markText]
      cases definition block mark <;> rfl
  exact hdecorators _ (List.Subset.refl _)

theorem spanMarks_perm : spanMarks block span = spanMarks block' span' ↔
    ((marks span).map (markText block)).Perm ((marks span').map (markText block')) := by
  have hperm := List.perm_insertionSort (· ≤ ·) ((marks span).map (markText block))
  have hperm' := List.perm_insertionSort (· ≤ ·) ((marks span').map (markText block'))
  constructor
  · intro h
    exact hperm.symm.trans ((List.Perm.of_eq h).trans hperm')
  · intro h
    exact (hperm.trans (h.trans hperm'.symm)).eq_of_pairwise'
      (List.pairwise_insertionSort (· ≤ ·) _) (List.pairwise_insertionSort (· ≤ ·) _)

/-- The sorted marks tell spans apart by their decorators and their link. -/
theorem spanMarks_eq_iff (h : HasMarks block span) (h' : HasMarks block' span') :
    spanMarks block span = spanMarks block' span' ↔
      spanDecorators block span = spanDecorators block' span' ∧
        spanLink block span = spanLink block' span' := by
  rw [spanMarks_perm]
  constructor
  · intro hperm
    have hdecorators := hperm.filter fun s => !(s.head? == some openBrace)
    have hlinks := hperm.filter fun s => s.head? == some openBrace
    rw [h.filter_decorators, h'.filter_decorators] at hdecorators
    rw [h.filter_links, h'.filter_links] at hlinks
    have hinj : Function.Injective linkJson := fun _ _ => linkJson_inj.1
    have hsame := (List.map_perm_map_iff hinj).1 hlinks
    refine ⟨List.toFinset_eq_of_perm _ _ hdecorators, ?_⟩
    cases hlink : spanLink block' span' with
    | none =>
      rw [hlink] at hsame
      simpa using hsame
    | some link =>
      rw [hlink] at hsame
      simpa using hsame
  · rintro ⟨hdecorators, hlink⟩
    have hsame := List.perm_of_nodup_nodup_toFinset_eq (h.nodup.filter _) (h'.nodup.filter _)
      hdecorators
    rw [← h.filter_decorators, ← h'.filter_decorators] at hsame
    have hsplit := List.filter_append_perm (fun s : JsString => s.head? == some openBrace)
      ((marks span).map (markText block))
    have hsplit' := List.filter_append_perm (fun s : JsString => s.head? == some openBrace)
      ((marks span').map (markText block'))
    rw [h.filter_links, hlink, ← h'.filter_links] at hsplit
    exact hsplit.symm.trans ((hsame.append_left _).trans hsplit')

end Marks

/-! ## Runs -/

section Runs

variable {block block' : Properties}

theorem appendSpan_eq (runs : List Run) (span : Properties) :
    appendSpan block runs span = Runs.append runs (text span, spanMarks block span) := by
  unfold appendSpan Runs.append
  cases runs.getLast? with
  | none => rfl
  | some last =>
    by_cases hmarks : last.2 = spanMarks block span
    · simp only [hmarks, if_true]
    · simp only [stringify_strings, hmarks, if_false]

/-- The pieces that the runs of a block are joined from. -/
def pieces (block : Properties) : List Run :=
  (spans block).map fun span => (text span, spanMarks block span)

theorem blockRuns_eq : blockRuns block = Runs.join (pieces block) := by
  rw [blockRuns, Runs.join, pieces, List.foldl_map]
  exact congrArg (fun f => List.foldl f [] (spans block)) (funext₂ appendSpan_eq)

/-- The units of a block, each with its span. -/
def placed (block : Properties) : List (CodeUnit × Properties) :=
  (spans block).flatMap fun span => (text span).map fun unit => (unit, span)

theorem marked_pieces : Runs.marked (pieces block) =
    (placed block).map fun p => (p.1, spanMarks block p.2) := by
  simp only [Runs.marked, pieces, placed, List.flatMap_map, List.map_flatMap, Runs.letters,
    List.map_map, Function.comp_def]

theorem letters_eq : letters block =
    (placed block).map fun p => ⟨p.1, spanDecorators block p.2, spanLink block p.2⟩ := by
  simp only [letters, placed, List.map_flatMap, List.map_map, Function.comp_def]

/-- The runs of blocks are the same exactly when the letters are. -/
theorem blockRuns_eq_iff (h : ∀ span ∈ spans block, HasMarks block span)
    (h' : ∀ span ∈ spans block', HasMarks block' span) :
    blockRuns block = blockRuns block' ↔ letters block = letters block' := by
  rw [blockRuns_eq, blockRuns_eq, Runs.join_eq_iff, marked_pieces, marked_pieces, letters_eq,
    letters_eq]
  refine map_eq_map_congr ?_
  rintro ⟨unit, span⟩ hplaced ⟨unit', span'⟩ hplaced'
  simp only [placed, List.mem_flatMap, List.mem_map, Prod.mk.injEq] at hplaced hplaced'
  obtain ⟨_, hspan, _, _, rfl, rfl⟩ := hplaced
  obtain ⟨_, hspan', _, _, rfl, rfl⟩ := hplaced'
  rw [Prod.mk.injEq, Letter.mk.injEq, spanMarks_eq_iff (h _ hspan) (h' _ hspan')]

end Runs

/-! ## Blocks -/

section Blocks

/-- A text block with the members that its type promises. -/
structure Readable (block : Properties) : Prop where
  style : ∃ s, field block "style" = .string s
  alignment : field block "alignment" = .null ∨ ∃ s, field block "alignment" = .string s
  listItem : field block "listItem" = .null ∨ ∃ s ≠ [], field block "listItem" = .string s
  level : field block "level" = .null ∨ ∃ n, field block "level" = .number n
  marks : ∀ span ∈ spans block, HasMarks block span

variable {block block' : Properties} {v w : Js}

def blockNames : List JsString := ["style", "alignment", "listItem", "level", "runs"].map js

theorem js_injective : Function.Injective js := fun _ _ => js_inj.1

theorem nodup_blockNames : blockNames.Nodup := List.Nodup.map js_injective (by decide)

theorem blockSemantics_text (h : Readable block) (himage : isImage block = false) :
    blockSemantics (.object block) = .object (blockNames.zip
      [.string (string (field block "style")), .string (alignment block),
        (listKind block).elim .null .string, (level block).elim .null .number,
        .array ((blockRuns block).map runValue)]) := by
  obtain ⟨⟨style, hstyle⟩, halignment, hlist, hlevel, _⟩ := h
  have halignment' : nullish (field block "alignment") (.string (js "left")) =
      .string (alignment block) := by
    unfold alignment
    rcases halignment with h | ⟨s, h⟩
    · rw [h]
      rfl
    · rw [h]
      rfl
  have hlist' : field block "listItem" = (listKind block).elim .null .string := by
    unfold listKind
    rcases hlist with h | ⟨s, _, h⟩
    · rw [h]
      rfl
    · rw [h]
      rfl
  have hlevel' : (if truthy (field block "listItem") then nullish (field block "level") (.number 1)
      else .null) = (level block).elim .null .number := by
    unfold level listKind
    rcases hlist with h | ⟨s, hs, h⟩
    · rw [h]
      rfl
    · have htruthy : truthy (.string s) = true := by simpa [truthy] using hs
      rw [h, if_pos htruthy]
      rcases hlevel with h | ⟨n, h⟩
      · rw [h]
        rfl
      · rw [h]
        rfl
  unfold blockSemantics
  dsimp only [properties]
  rw [himage, if_neg Bool.false_ne_true, halignment', hlevel', ← hlist', hstyle]
  rfl

theorem deepEqual_runs {runs runs' : List Run} :
    DeepEqual (.array (runs.map runValue)) (.array (runs'.map runValue)) ↔ runs = runs' := by
  have hrun : ∀ run run' : Run, DeepEqual (runValue run) (runValue run') ↔ run = run' := by
    intro run run'
    have hnames : ["text", "marks"].map js |>.Nodup := List.Nodup.map js_injective (by decide)
    refine (deepEqual_object (l := [.string run.1, strings run.2])
      (r := [.string run'.1, strings run'.2]) hnames rfl rfl).trans ?_
    rw [List.forall₂_cons, List.forall₂_cons, deepEqual_string_string, strings, strings,
      deepEqual_strings, Prod.ext_iff]
    simp
  rw [deepEqual_array, List.forall₂_map_left_iff, List.forall₂_map_right_iff]
  simp only [hrun, List.forall₂_eq_eq_eq]

theorem sameText_iff (h : Readable block) (h' : Readable block')
    (himage : isImage block = false) (himage' : isImage block' = false) :
    DeepEqual (blockSemantics (.object block)) (blockSemantics (.object block')) ↔
      SameText block block' := by
  rw [blockSemantics_text h himage, blockSemantics_text h' himage',
    deepEqual_object nodup_blockNames rfl rfl]
  have hkind : DeepEqual ((listKind block).elim .null .string : Js)
      ((listKind block').elim .null .string) ↔ listKind block = listKind block' :=
    deepEqual_elim nofun fun _ _ => deepEqual_string_string
  have hnumber : DeepEqual ((level block).elim .null .number : Js)
      ((level block').elim .null .number) ↔ level block = level block' :=
    deepEqual_elim nofun fun _ _ => deepEqual_number_number
  simp only [List.forall₂_cons, List.Forall₂.nil, and_true, deepEqual_string_string, hkind,
    hnumber, deepEqual_runs, blockRuns_eq_iff h.marks h'.marks]
  constructor
  · rintro ⟨hstyle, halignment, hlist, hlevel, hletters⟩
    exact ⟨hstyle, halignment, hlist, hlevel, hletters⟩
  · rintro ⟨hstyle, halignment, hlist, hlevel, hletters⟩
    exact ⟨hstyle, halignment, hlist, hlevel, hletters⟩

/-- An image block, or a text block with the members that its type promises. -/
inductive IsEntry (v : Js) : Prop
  | image (himage : isImage (properties v) = true)
  | text (himage : isImage (properties v) = false) (block : Properties) (hv : v = .object block)
      (h : Readable block)

/-- An image names its type, which the semantics of a text does not. -/
theorem type_of_isImage (h : isImage (properties v) = true) :
    ∃ block, v = .object block ∧
      ownProperty block (js "_type") = some (.string (js "spt.image")) := by
  rw [isImage, isText_eq_true] at h
  cases v with
  | object block => exact ⟨block, rfl, h⟩
  | _ => cases h

theorem type_of_text (h : Readable block) (himage : isImage block = false) :
    ∃ result, blockSemantics (.object block) = .object result ∧
      ownProperty result (js "_type") = none := by
  refine ⟨_, blockSemantics_text h himage, ?_⟩
  rw [← Option.not_isSome_iff_eq_none, Option.isSome_iff_exists]
  rintro ⟨u, hu⟩
  have hmem := (List.of_mem_zip (mem_of_ownProperty hu)).1
  rw [blockNames, List.mem_map_of_injective js_injective] at hmem
  exact absurd hmem (by decide)

theorem blockSemantics_image (h : isImage (properties v) = true) : blockSemantics v = v := by
  unfold blockSemantics
  exact if_pos h

theorem sameBlock_iff (hv : IsEntry v) (hw : IsEntry w) :
    DeepEqual (blockSemantics v) (blockSemantics w) ↔ SameBlock v w := by
  rcases hv with himage | ⟨himage, block, rfl, h⟩
  · rcases hw with himage' | ⟨himage', block', rfl, h'⟩
    · rw [blockSemantics_image himage, blockSemantics_image himage']
      constructor
      · exact .image himage himage'
      · rintro (⟨_, _, h⟩ | ⟨hv, _, _⟩)
        · exact h
        · exact absurd (himage.symm.trans hv) (by decide)
    · refine iff_of_false ?_ ?_
      · rw [blockSemantics_image himage]
        obtain ⟨image, rfl, htype⟩ := type_of_isImage himage
        obtain ⟨result, hresult, hnone⟩ := type_of_text h' himage'
        rw [hresult]
        intro h
        have hproperty := h.property (js "_type")
        rw [htype, hnone] at hproperty
        cases hproperty
      · rintro (⟨_, hw, _⟩ | ⟨hv, _, _⟩)
        · exact absurd (himage'.symm.trans hw) (by decide)
        · exact absurd (himage.symm.trans hv) (by decide)
  · rcases hw with himage' | ⟨himage', block', rfl, h'⟩
    · refine iff_of_false ?_ ?_
      · rw [blockSemantics_image himage']
        obtain ⟨image, rfl, htype⟩ := type_of_isImage himage'
        obtain ⟨result, hresult, hnone⟩ := type_of_text h himage
        rw [hresult]
        intro h
        have hproperty := h.property (js "_type")
        rw [htype, hnone] at hproperty
        cases hproperty
      · rintro (⟨hv, _, _⟩ | ⟨_, hw, _⟩)
        · exact absurd (himage.symm.trans hv) (by decide)
        · exact absurd (himage'.symm.trans hw) (by decide)
    · refine (sameText_iff h h' himage himage').trans ⟨.text himage himage', ?_⟩
      rintro (⟨hv, _, _⟩ | ⟨_, _, h⟩)
      · exact absurd (himage.symm.trans hv) (by decide)
      · exact h

end Blocks

/-! ## Accepted bodies -/

section Accepted

variable {href : String → Prop} {p block : Properties} {b : Record} {k : String}

theorem field_of_get {v : Js} (h : getProperty p k = some v) : field p k = v := by
  rw [field, h, Option.getD_some]

theorem field_of_none (h : getProperty p k = none) : field p k = .null := by
  rw [field, h, Option.getD_none]

/-- An optional text is a string or missing. -/
theorem Members.get_optional {P : String → Prop} (h : Members p b)
    (hget : b.get k = none ∨ ∃ s, b.get k = some (.text s) ∧ P s) :
    field p k = .null ∨ ∃ s, field p k = .string (js s) ∧ P s := by
  rcases hget with hget | ⟨s, hget, hs⟩
  · exact .inl (field_of_none (h.get_none hget))
  · exact .inr ⟨s, field_of_get (h.get_text hget), hs⟩

/-- The object of a link. -/
def LinkObject (v : Js) (link : Link) : Prop :=
  string (field (properties v) "_key") = js link.key ∧ IsLink (properties v)

theorem linkObject_of_shows {v : Js} {d : Cbor.Value} {link : Link} (hv : Shows v d)
    (hd : ReadsLink href d link) : LinkObject v link := by
  obtain ⟨r, rfl, _, hkey, _, _, ⟨hhref, _⟩, htitle⟩ := hd
  obtain ⟨p, rfl, hp⟩ := hv.members
  have htitle' := hp.get_optional (P := fun _ => True)
    (htitle.imp_right fun ⟨s, hs⟩ => ⟨s, hs, trivial⟩)
  refine ⟨?_, ⟨_, field_of_get (hp.get_text hhref)⟩, ?_⟩
  · rw [properties, field_of_get (hp.get_text hkey)]
    rfl
  · exact htitle'.imp_right fun ⟨s, hs, _⟩ => ⟨_, hs⟩

/-- The definitions of a block are those of its links. -/
theorem definition_isSome {links : List Link}
    (h : List.Forall₂ LinkObject (elements (field block "markDefs")) links) (mark : String) :
    (definition block (js mark)).isSome = (links.map Link.key).contains mark := by
  unfold definition
  generalize elements (field block "markDefs") = l at h ⊢
  induction h with
  | nil => rfl
  | @cons v link vs links hv _ ih =>
    rw [List.find?_cons, hv.1, List.map_cons, List.contains_cons]
    by_cases hkey : link.key = mark
    · simp [hkey]
    · have hjs : (js link.key == js mark) = false := by
        simpa using fun h => hkey (js_inj.1 h)
      have hne : (mark == link.key) = false := by simpa using fun h => hkey h.symm
      rw [hjs, ih, hne, Bool.false_or]

theorem isLink_of_definition {links : List Link}
    (h : List.Forall₂ LinkObject (elements (field block "markDefs")) links) (mark : JsString)
    (d : Js) (hd : definition block mark = some d) : IsLink (properties d) := by
  obtain ⟨link, _, hlink⟩ := forall₂_left h (List.mem_of_find?_eq_some hd)
  exact hlink.2

theorem head_decorator {mark : String} (h : mark ∈ decorators) :
    (js mark).head? ≠ some openBrace := by
  have hall : ∀ mark ∈ decorators, (js mark).head? ≠ some openBrace := by decide
  exact hall mark h

theorem hasMarks_of_shows {links : List Link} {v : Js} {s : Cbor.Value} {span : Codec.Span}
    (h : List.Forall₂ LinkObject (elements (field block "markDefs")) links) (hv : Shows v s)
    (hs : ReadsSpan (links.map Link.key) s span) : HasMarks block (properties v) := by
  obtain ⟨r, rfl, _, _, _, hmarks, hnodup, hknown, hone⟩ := hs
  obtain ⟨p, rfl, hp⟩ := hv.members
  obtain ⟨l, hl, hshows⟩ := hp.get_array hmarks
  have hl' : l = span.marks.map fun mark => .string (js mark) := by
    rw [List.forall₂_map_right_iff] at hshows
    have htexts := hshows.imp fun v mark (hmark : Shows v (.text mark)) => shows_text.1 hmark
    rw [← List.forall₂_map_right_iff (f := fun mark => JsValue.string (js mark)),
      List.forall₂_eq_eq_eq] at htexts
    exact htexts
  have hspan : marks p = span.marks.map js := by
    rw [marks, field_of_get hl, elements, hl', List.map_map]
    rfl
  rw [properties]
  refine ⟨?_, ?_, ?_, isLink_of_definition h⟩
  · rw [hspan]
    exact hnodup.map js_injective
  · intro mark hmark hnone
    rw [hspan, List.mem_map] at hmark
    obtain ⟨name, hname, rfl⟩ := hmark
    refine head_decorator ((hknown name hname).resolve_right fun hkey => ?_)
    have hsome := definition_isSome h name
    rw [hnone, List.contains_iff_mem.2 hkey] at hsome
    cases hsome
  · rw [hspan, List.length_filterMap_eq_countP, List.countP_map, Function.comp_def]
    simp only [definition_isSome h]
    rwa [List.countP_eq_length_filter]

theorem readable_of_shows {v : Js} {value : Cbor.Value} (hv : Shows v value)
    (h : RichBlock href value) : IsEntry v := by
  obtain ⟨b, rfl, _, htype, hstyle, halignment, hlist, hlevel, defs, hdefs, links,
    ⟨hlinks, _⟩, children, hchildren, _, spans, hspans, _⟩ := h
  obtain ⟨block, rfl, hblock⟩ := hv.members
  have hobjects : List.Forall₂ LinkObject (elements (field block "markDefs")) links := by
    obtain ⟨l, hl, hshows⟩ := hblock.get_array hdefs
    rw [field_of_get hl, elements]
    refine (forall₂_comp hshows hlinks).imp ?_
    rintro v link ⟨d, hd, hlink⟩
    exact linkObject_of_shows hd hlink
  refine .text ?_ block rfl ⟨?_, ?_, ?_, ?_, ?_⟩
  · rw [properties, isImage, hblock.get_text htype]
    decide
  · obtain ⟨s, _, hs⟩ := hstyle
    exact ⟨_, field_of_get (hblock.get_text hs)⟩
  · have hget := hblock.get_optional (P := fun _ => True)
      (halignment.imp_right fun ⟨s, _, hs⟩ => ⟨s, hs, trivial⟩)
    exact hget.imp_right fun ⟨s, hs, _⟩ => ⟨_, hs⟩
  · have hget := hblock.get_optional (P := fun s => s ∈ listItems)
      (hlist.imp_right fun ⟨s, hmem, hs⟩ => ⟨s, hs, hmem⟩)
    refine hget.imp_right fun ⟨s, hs, hmem⟩ => ⟨_, ?_, hs⟩
    have hall : ∀ s ∈ listItems, js s ≠ [] := by decide
    exact hall s hmem
  · rcases hlevel with hnone | ⟨_, n, hn, _⟩
    · exact .inl (field_of_none (hblock.get_none hnone))
    · exact .inr ⟨n, field_of_get (hblock.get_int hn.1)⟩
  · intro span hspan
    obtain ⟨l, hl, hshows⟩ := hblock.get_array hchildren
    rw [Builder.spans, field_of_get hl, elements, List.mem_map] at hspan
    obtain ⟨v, hv, rfl⟩ := hspan
    obtain ⟨s, hs, hv⟩ := forall₂_left hshows hv
    obtain ⟨span, _, hspan⟩ := forall₂_left hspans hs
    exact hasMarks_of_shows hobjects hv hspan

theorem image_of_shows {lib : Libraries} {manifest : List BundledImageAsset} {position : Nat}
    {asset : BundledImageAsset} {v : Js} {value : Cbor.Value} (hv : Shows v value)
    (h : ImageEntry lib manifest position value asset) : IsEntry v := by
  obtain ⟨b, rfl, htype, _⟩ := h
  obtain ⟨block, rfl, hblock⟩ := hv.members
  refine .image ?_
  rw [properties, isImage, hblock.get_text htype]
  exact isText_eq_true.2 rfl

/-- Every block of an accepted body shows an image or is a text. -/
theorem images_or_texts {lib : Libraries} {manifest images : List BundledImageAsset}
    {position : Nat} {values texts : List Cbor.Value}
    (h : ImageBlocks lib manifest position values images texts) : ∀ value ∈ values,
      (∃ position asset, ImageEntry lib manifest position value asset) ∨ value ∈ texts := by
  induction h with
  | nil => exact nofun
  | image h _ ih =>
    intro value hvalue
    obtain rfl | hrest := List.mem_cons.1 hvalue
    · exact .inl ⟨_, _, h⟩
    · exact ih value hrest
  | text _ _ ih =>
    intro value hvalue
    obtain rfl | hrest := List.mem_cons.1 hvalue
    · exact .inr List.mem_cons_self
    · exact (ih value hrest).imp_right (List.mem_cons_of_mem _)

variable {lib : Libraries} {cborg : Codec.TypeScript.Cborg} {v w body body' : Js}

/-- A block that the codec takes, as an image of a manifest or as a text. -/
inductive Entry (lib : Libraries) (v : Js) : Prop
  | image (value : Cbor.Value) (hshow : Shows v value) (manifest : List BundledImageAsset)
      (position : Nat) (asset : BundledImageAsset) (h : ImageEntry lib manifest position value asset)
  | text (value : Cbor.Value) (hshow : Shows v value)
      (h : RichBlock (fun href => Codec.TypeScript.linkHref lib href = true) value)

theorem entry_of_accepted (h : validateBody lib cborg v = .ok body) :
    ∀ entry ∈ blocks (properties body), Entry lib entry := by
  obtain ⟨rfl, p, m, rfl, hmembers, hrules⟩ := validateBody_sound h
  have hentries : ∃ values, m.get "blocks" = some (.array values) ∧
      ∀ value ∈ values, ∀ entry, Shows entry value → Entry lib entry := by
    rcases hrules with ⟨_, _, values, hvalues, hrich⟩ | ⟨_, _, _, _, _, values, hvalues, _, _,
      himages, _, hrich⟩
    · exact ⟨values, hvalues, fun value hvalue entry hentry =>
        .text value hentry (hrich value hvalue)⟩
    · refine ⟨values, hvalues, fun value hvalue entry hentry => ?_⟩
      rcases images_or_texts himages value hvalue with ⟨position, asset, himage⟩ | htext
      · exact .image value hentry _ position asset himage
      · exact .text value hentry (hrich value htext)
  obtain ⟨values, hvalues, hentry⟩ := hentries
  obtain ⟨l, hl, hshows⟩ := hmembers.get_array hvalues
  intro entry hmem
  rw [properties, blocks, field_of_get hl, elements] at hmem
  obtain ⟨value, hvalue, hshow⟩ := forall₂_left hshows hmem
  exact hentry value hvalue entry hshow

theorem isEntry_of_accepted (h : validateBody lib cborg v = .ok body) :
    ∀ entry ∈ blocks (properties body), IsEntry entry := by
  intro entry hentry
  rcases entry_of_accepted h entry hentry with ⟨value, hshow, _, _, _, himage⟩ |
    ⟨value, hshow, htext⟩
  · exact image_of_shows hshow himage
  · exact readable_of_shows hshow htext

/-- The semantics of accepted bodies are equal exactly when their assets and images are, and their
texts say the same letter by letter, however the texts are cut into spans. -/
theorem semantics_eq_iff (h : validateBody lib cborg v = .ok body)
    (h' : validateBody lib cborg w = .ok body') :
    DeepEqual (semantics body) (semantics body') ↔
      SameBody (properties body) (properties body') := by
  have hnames : ["assets", "blocks"].map js |>.Nodup := List.Nodup.map js_injective (by decide)
  have hobject := deepEqual_object
    (l := [assets (properties body), .array ((blocks (properties body)).map blockSemantics)])
    (r := [assets (properties body'), .array ((blocks (properties body')).map blockSemantics)])
    hnames rfl rfl
  refine hobject.trans ?_
  have hblocks : List.Forall₂ (fun v w => DeepEqual (blockSemantics v) (blockSemantics w))
      (blocks (properties body)) (blocks (properties body')) ↔
        List.Forall₂ SameBlock (blocks (properties body)) (blocks (properties body')) :=
    forall₂_congr_mem fun v hv w hw =>
      sameBlock_iff (isEntry_of_accepted h v hv) (isEntry_of_accepted h' w hw)
  simp only [List.forall₂_cons, List.Forall₂.nil, and_true, deepEqual_array,
    List.forall₂_map_left_iff, List.forall₂_map_right_iff, hblocks]
  constructor
  · rintro ⟨hassets, hsame⟩
    exact ⟨hassets, hsame⟩
  · rintro ⟨hassets, hsame⟩
    exact ⟨hassets, hsame⟩

/-- A span with these marks. -/
def spanOf (t : String) (marks : List String) : Js :=
  .object [(js "_type", .string (js "span")), (js "text", .string (js t)),
    (js "marks", strings (marks.map js))]

/-- A body with one paragraph. -/
def paragraph (children : List Js) : Js :=
  .object [(js "version", .number 1), (js "profile", .string (js "spt-2")),
    (js "blocks", .array [.object [(js "_type", .string (js "block")),
      (js "style", .string (js "normal")), (js "children", .array children),
      (js "markDefs", .array [])]])]

/-- Spans may be cut at will, and their marks may stand in any order. -/
theorem semantics_segments :
    DeepEqual (semantics (paragraph [spanOf "ab" ["em", "strong"]]))
      (semantics (paragraph
        [spanOf "a" ["strong", "em"], spanOf "" [], spanOf "b" ["em", "strong"]])) := by
  have haccepted : ∀ children ∈ [[spanOf "ab" ["em", "strong"]],
      [spanOf "a" ["strong", "em"], spanOf "" [], spanOf "b" ["em", "strong"]]],
      (validateBody plainLibraries commandLineCborg (paragraph children)).isOk = true := by
    decide +kernel
  have h := validateBody_of_isOk (haccepted _ List.mem_cons_self)
  have h' := validateBody_of_isOk
    (haccepted _ (List.mem_cons_of_mem _ (List.mem_singleton_self _)))
  refine (semantics_eq_iff h h').2 ⟨.null, .cons (.text rfl rfl ?_) .nil⟩
  exact ⟨rfl, rfl, rfl, rfl, by decide +kernel⟩

end Accepted

end HailProto.Content.Builder
