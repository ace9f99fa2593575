import HailProto.Content.Accepted

/-!
# Drafts

`validateDraftBody` and `publicationIssues` of the builder's `core.ts`. A draft may have images
without a description and calls to action without a label or an address: these are filled in while the
codec looks at the body, and put back afterwards. What is missing is reported by a routine of its own.
-/

namespace HailProto.Content.Builder

open Codec
open Codec.TypeScript (Cborg)
open Server Server.Json

section Changes

/-- `value[0]` changed -/
def mapFirst (f : Js → Js) : Js → Js
  | .array (v :: l) => .array (f v :: l)
  | v => v

def mapMember (name : String) (f : Js → Js) : Js → Js
  | .object p => .object (mapProperty p name f)
  | v => v

/-- `block.alt=alt` -/
def setAlt (alt : JsString) : Js → Js := mapMember "alt" fun _ => .string alt

/-- `block.markDefs[0].href=href` -/
def setHref (href : JsString) : Js → Js :=
  mapMember "markDefs" (mapFirst (mapMember "href" fun _ => .string href))

/-- `block.children[0].text=text` -/
def setText (text : JsString) : Js → Js :=
  mapMember "children" (mapFirst (mapMember "text" fun _ => .string text))

end Changes

section Substitution

/-- `block?._type==='block'&&block.style==='cta'` -/
def isCta (block : Properties) : Bool :=
  isText (getProperty block "_type") "block" && isText (getProperty block "style") "cta"

/-- The value, if it is a string. -/
def asString : Option Js → Option JsString
  | some (.string s) => some s
  | _ => none

/-- The address of the only definition, if it is a string. -/
def soleHref (block : Properties) : Option JsString :=
  match getProperty block "markDefs" with
  | some (.array [d]) => asString (getProperty (properties d) "href")
  | _ => none

/-- The texts of the children, if all of them are strings. -/
def childTexts (block : Properties) : Option (List JsString) :=
  match getProperty block "children" with
  | some (.array l) => l.mapM fun span => asString (getProperty (properties span) "text")
  | _ => none

/-- `[ \t\r\n]` -/
def isBlankUnit (c : CodeUnit) : Bool := c == 0x20 || c == 0x09 || c == 0x0d || c == 0x0a

/-- `[\r\n]` -/
def isBreakUnit (c : CodeUnit) : Bool := c == 0x0d || c == 0x0a

def placeholder : JsString := js "https://example.invalid/"

/-- A block filled in, and what puts back what it had. -/
abbrev Substituted := Js × List (Js → Js)

def substituteHref (block : Js) : Substituted :=
  match soleHref (properties block) with
  | some href =>
    if byteLength href ≤ 2048 then (setHref placeholder block, [setHref href]) else (block, [])
  | none => (block, [])

def substituteLabel (s : Substituted) : Except Fault Substituted :=
  match childTexts (properties s.1) with
  | some (text :: texts) =>
    let label := (text :: texts).flatten
    if label.all isBlankUnit then
      if byteLength label > 128 || label.any isBreakUnit then
        .error (.thrown (js "Use a single-line button label up to 128 UTF-8 bytes."))
      else .ok (setText (js "x") s.1, s.2 ++ [setText text])
    else .ok s
  | _ => .ok s

def substituteBlock (spt3 : Bool) (block : Js) : Except Fault Substituted :=
  let p := properties block
  if spt3 && isImage p && isText (getProperty p "alt") "" then
    .ok (setAlt (js "x") block, [setAlt []])
  else if isCta p then substituteLabel (substituteHref block)
  else .ok (block, [])

def substituteBlocks (spt3 : Bool) : List Js → Except Fault (List Substituted)
  | [] => .ok []
  | block :: l => do
      let s ← substituteBlock spt3 block
      let rest ← substituteBlocks spt3 l
      .ok (s :: rest)

/-- `restore.forEach(apply=>apply(body))` -/
def restore (body : Js) (substituted : List Substituted) : Js :=
  mapMember "blocks" (fun v => .array ((elements v).zipWith
    (fun block s => s.2.foldl (fun b apply => apply b) block) substituted)) body

def validateDraftBody (lib : Libraries) (cborg : Cborg) (value : Js) : Except Fault Js := do
  budget bodyBudget value
  let candidate ← object value (js "body")
  match getProperty candidate "blocks" with
  | some (.array l) => do
      let substituted ← substituteBlocks (isText (getProperty candidate "profile") "spt-3") l
      let body ← validateBody lib cborg (.object (withBlocks candidate (substituted.map Prod.fst)))
      .ok (restore body substituted)
  | _ => validateBody lib cborg (.object candidate)

end Substitution

section Issues

structure Diagnostic where
  path : JsString
  code : JsString
  message : JsString
  deriving DecidableEq

/-- The units that `trim` removes. -/
def isWhiteSpace (c : CodeUnit) : Bool :=
  decide (c.val ∈ [9, 10, 11, 12, 13, 32, 0xa0, 0x1680, 0x2028, 0x2029, 0x202f, 0x205f, 0x3000,
    0xfeff]) || decide (0x2000 ≤ c.val ∧ c.val ≤ 0x200a)

def trim (s : JsString) : JsString :=
  ((s.dropWhile isWhiteSpace).reverse.dropWhile isWhiteSpace).reverse

/-- `new URL(href)`, which reads a surrogate without its partner as the replacement character. -/
def newUrl (lib : Libraries) (href : JsString) : Option JsUrl :=
  lib.newUrl (String.ofList (characters href))

def ctaProblem (lib : Libraries) (label href : JsString) : Option JsString :=
  if label.all isBlankUnit then some (js "Add a button label before sending.")
  else if label.any isBreakUnit || byteLength label > 128 then
    some (js "Use a single-line button label up to 128 UTF-8 bytes.")
  else if (trim href).isEmpty then some (js "Add a destination URL.")
  else
    let problem := js "Enter an HTTPS destination without login credentials before sending."
    match newUrl lib href with
    | some url =>
      if !(js "https://").isPrefixOf href || url.protocol != "https:" || url.username != "" ||
          url.password != "" || byteLength href > 2048 then some problem
      else none
    | none => some problem

/-- `block.children.map(span=>span.text).join('')` -/
def label (block : Properties) : JsString := (spans block).flatMap text

/-- `block.markDefs[0]?.href??''` -/
def ctaHref (block : Properties) : JsString :=
  match elements (field block "markDefs") with
  | d :: _ => string (field (properties d) "href")
  | [] => []

/-- The issue of one block. -/
def blockIssue (lib : Libraries) (block : Properties) (index : ℕ) : Option Diagnostic :=
  if isImage block && isText (getProperty block "alt") "" then
    some ⟨js ("blocks[" ++ toString index ++ "].alt"), js "unfinished-field",
      js ("Image (block " ++ toString (index + 1) ++ "): Add an image description.")⟩
  else if isCta block then
    (ctaProblem lib (label block) (ctaHref block)).map fun message =>
      let name := trim (label block)
      ⟨js ("blocks[" ++ toString index ++ "]"), js "unfinished-field",
        js "Button" ++ (if name.isEmpty then [] else js " “" ++ name ++ js "”") ++
          js (" (block " ++ toString (index + 1) ++ "): ") ++ message⟩
  else none

def publicationIssues (lib : Libraries) (body : Js) : List Diagnostic :=
  (blocks (properties body)).zipIdx.filterMap fun (block, index) =>
    blockIssue lib (properties block) index

end Issues

/-! ## What is put back -/

section Restoration

variable {p : Properties} {name other : String} {f g : Js → Js} {v : Js}

theorem mapProperty_mapProperty :
    mapProperty (mapProperty p name f) name g = mapProperty p name fun v => g (f v) := by
  rw [mapProperty, mapProperty, mapProperty, List.map_map]
  refine List.map_congr_left fun m _ => ?_
  rw [Function.comp_apply]
  by_cases hname : m.1 = js name
  · simp [hname]
  · simp [hname]

theorem mapProperty_comm (h : name ≠ other) :
    mapProperty (mapProperty p name f) other g = mapProperty (mapProperty p other g) name f := by
  rw [mapProperty, mapProperty, mapProperty, mapProperty, List.map_map, List.map_map]
  refine List.map_congr_left fun m _ => ?_
  rw [Function.comp_apply, Function.comp_apply]
  have hne : js name ≠ js other := mt js_inj.1 h
  by_cases hname : m.1 = js name
  · simp [hname, hne]
  · by_cases hother : m.1 = js other
    · simp [hother, hne.symm]
    · simp [hname, hother]

/-- A property that does not change. -/
theorem mapProperty_self (hp : (p.map Prod.fst).Nodup)
    (h : ∀ w, getProperty p name = some w → f w = w) : mapProperty p name f = p := by
  rw [mapProperty]
  refine (List.map_congr_left fun m hm => ?_).trans (List.map_id p)
  by_cases hname : m.1 = js name
  · have hget : getProperty p name = some m.2 := by
      rw [getProperty_eq, ownProperty_eq_some hp, ← hname]
      exact hm
    rw [if_pos hname, h m.2 hget]
    rfl
  · rw [if_neg hname]
    rfl

/-- A property is put back. -/
theorem mapProperty_back (hp : (p.map Prod.fst).Nodup) (h : getProperty p name = some v) :
    mapProperty (mapProperty p name f) name (fun _ => v) = p := by
  rw [mapProperty_mapProperty]
  exact mapProperty_self hp fun w hw => Option.some.inj (h.symm.trans hw)

theorem getProperty_mapProperty : getProperty (mapProperty p name f) other =
    if other = name then (getProperty p other).map f else getProperty p other := by
  rw [getProperty_eq, getProperty_eq, mapProperty]
  induction p with
  | nil => simp
  | cons m p ih =>
    rw [List.map_cons, ownProperty_cons, ownProperty_cons, ih]
    by_cases hname : m.1 = js name
    · by_cases hother : other = name
      · subst hother
        simp [hname]
      · have hne : js name ≠ js other := fun h => hother (js_inj.1 h).symm
        simp [hname, hother, hne]
    · by_cases hother : m.1 = js other
      · have hne : other ≠ name := by
          rintro rfl
          exact hname hother
        simp [hother, hne, js_inj]
      · simp [hname, hother]

theorem mapMember_mapMember :
    mapMember name g (mapMember name f v) = mapMember name (fun v => g (f v)) v := by
  cases v with
  | object p => rw [mapMember, mapMember, mapProperty_mapProperty, mapMember]
  | _ => rfl

theorem mapMember_comm (h : name ≠ other) :
    mapMember other g (mapMember name f v) = mapMember name f (mapMember other g v) := by
  cases v with
  | object p => rw [mapMember, mapMember, mapProperty_comm h, mapMember, mapMember]
  | _ => rfl

theorem mapMember_self (hv : DistinctNames v)
    (h : ∀ w, getProperty (properties v) name = some w → f w = w) : mapMember name f v = v := by
  cases v with
  | object p => rw [mapMember, mapProperty_self hv.names h]
  | _ => rfl

theorem mapFirst_mapFirst : mapFirst g (mapFirst f v) = mapFirst (fun v => g (f v)) v := by
  cases v with
  | array l => cases l <;> rfl
  | _ => rfl

theorem property_of_distinct (hv : DistinctNames v) {w : Js}
    (hw : getProperty (properties v) name = some w) : DistinctNames w := by
  cases v with
  | object p => exact hv.property hw
  | _ => cases hw

theorem asString_eq_some {o : Option Js} {s : JsString} :
    asString o = some s ↔ o = some (.string s) := by
  unfold asString
  split
  · simp
  · rename_i h
    exact iff_of_false nofun (h s)

theorem soleHref_eq_some {href : JsString} : soleHref p = some href ↔
    ∃ d, getProperty p "markDefs" = some (.array [d]) ∧
      getProperty (properties d) "href" = some (.string href) := by
  unfold soleHref
  split
  · rename_i d hd
    simp [hd, asString_eq_some]
  · rename_i h
    refine iff_of_false nofun ?_
    rintro ⟨d, hd, _⟩
    exact h d hd

theorem setHref_setHref (href href' : JsString) :
    setHref href (setHref href' v) = setHref href v := by
  simp only [setHref, mapMember_mapMember, mapFirst_mapFirst]

theorem setText_setText (text text' : JsString) :
    setText text (setText text' v) = setText text v := by
  simp only [setText, mapMember_mapMember, mapFirst_mapFirst]

theorem setHref_setText (href text : JsString) :
    setHref href (setText text v) = setText text (setHref href v) :=
  mapMember_comm (by decide)

/-- Setting the first element's member to what it is changes nothing. -/
theorem mapFirst_self {l : List Js} {d : Js} {s : JsString} (hd : DistinctNames d)
    (h : getProperty (properties d) name = some (.string s)) :
    mapFirst (mapMember name fun _ => .string s) (.array (d :: l)) = .array (d :: l) := by
  have hself : mapMember name (fun _ => .string s) d = d := by
    refine mapMember_self hd fun w hw => ?_
    rw [h] at hw
    exact Option.some.inj hw
  rw [mapFirst, hself]

theorem setHref_self (hv : DistinctNames v) {href : JsString}
    (h : soleHref (properties v) = some href) : setHref href v = v := by
  obtain ⟨d, hdefs, hhref⟩ := soleHref_eq_some.1 h
  refine mapMember_self hv fun w hw => ?_
  cases hdefs.symm.trans hw
  have hd := (property_of_distinct hv hdefs).element List.mem_cons_self
  exact mapFirst_self hd hhref

theorem childTexts_eq_some {texts : List JsString} : childTexts p = some texts ↔
    ∃ l, getProperty p "children" = some (.array l) ∧ List.Forall₂ (fun span text =>
      getProperty (properties span) "text" = some (.string text)) l texts := by
  unfold childTexts
  split
  · rename_i l hl
    simp only [hl, mapM_eq_some, asString_eq_some, Option.some.injEq, JsValue.array.injEq,
      exists_eq_left']
  · rename_i h
    refine iff_of_false nofun ?_
    rintro ⟨l, hl, _⟩
    exact h l hl

theorem setText_self (hv : DistinctNames v) {text : JsString} {texts : List JsString}
    (h : childTexts (properties v) = some (text :: texts)) : setText text v = v := by
  obtain ⟨l, hchildren, hl⟩ := childTexts_eq_some.1 h
  refine mapMember_self hv fun w hw => ?_
  cases hchildren.symm.trans hw
  cases hl with
  | cons htext _ =>
    have hspan := (property_of_distinct hv hchildren).element List.mem_cons_self
    exact mapFirst_self hspan htext

theorem childTexts_setHref (href : JsString) :
    childTexts (properties (setHref href v)) = childTexts (properties v) := by
  cases v with
  | object p =>
    have hchildren : getProperty (mapProperty p "markDefs"
        (mapFirst (mapMember "href" fun _ => .string href))) "children" =
          getProperty p "children" := by
      rw [getProperty_mapProperty, if_neg (by decide)]
    rw [setHref, mapMember, properties, properties, childTexts, hchildren, childTexts]
  | _ => rfl

theorem childTexts_substituteHref :
    childTexts (properties (substituteHref v).1) = childTexts (properties v) := by
  unfold substituteHref
  split
  · split
    · exact childTexts_setHref placeholder
    · rfl
  · rfl

/-- What puts a block back does. -/
def Restores (s : Substituted) (block : Js) : Prop :=
  s.2.foldl (fun b apply => apply b) s.1 = block

theorem restores_substituteHref (hv : DistinctNames v) : Restores (substituteHref v) v := by
  unfold substituteHref
  split
  · rename_i href hhref
    split
    · exact (setHref_setHref href placeholder).trans (setHref_self hv hhref)
    · rfl
  · rfl

/-- The label can be put back after the address. -/
theorem foldl_setText (text : JsString) :
    (substituteHref v).2.foldl (fun b apply => apply b) (setText text (substituteHref v).1) =
      setText text ((substituteHref v).2.foldl (fun b apply => apply b) (substituteHref v).1) := by
  unfold substituteHref
  split
  · rename_i href _
    split
    · exact setHref_setText href text
    · rfl
  · rfl

theorem restores_substituteLabel (hv : DistinctNames v) {s : Substituted}
    (h : substituteLabel (substituteHref v) = .ok s) : Restores s v := by
  have hhref := restores_substituteHref hv
  unfold substituteLabel at h
  rw [childTexts_substituteHref] at h
  split at h
  · rename_i text texts hchildren
    dsimp only at h
    split at h
    · split at h
      · cases h
      · cases h
        have hlabel : Restores (setText (js "x") (substituteHref v).1, (substituteHref v).2)
            (setText (js "x") v) := by
          rw [Restores, foldl_setText]
          exact congrArg (setText (js "x")) hhref
        rw [Restores, List.foldl_append, hlabel]
        exact (setText_setText text (js "x")).trans (setText_self hv hchildren)
    · cases h
      exact hhref
  · cases h
    exact hhref

theorem restores_substituteBlock (hv : DistinctNames v) {spt3 : Bool} {s : Substituted}
    (h : substituteBlock spt3 v = .ok s) : Restores s v := by
  unfold substituteBlock at h
  dsimp only at h
  split at h
  · rename_i himage
    cases h
    rw [Bool.and_eq_true, Bool.and_eq_true, isText_eq_true] at himage
    have halt : setAlt [] (setAlt (js "x") v) = setAlt [] v := mapMember_mapMember
    refine halt.trans (mapMember_self hv fun w hw => ?_)
    rw [himage.2] at hw
    exact Option.some.inj hw
  · split at h
    · exact restores_substituteLabel hv h
    · cases h
      rfl

theorem substituteBlocks_eq_ok {spt3 : Bool} {l : List Js} {substituted : List Substituted} :
    substituteBlocks spt3 l = .ok substituted ↔
      List.Forall₂ (fun block s => substituteBlock spt3 block = .ok s) l substituted := by
  induction l generalizing substituted with
  | nil => simp [substituteBlocks, eq_comm]
  | cons block l ih =>
    simp only [substituteBlocks, bind_eq_ok, Except.ok.injEq, List.forall₂_cons_left_iff, ih]
    constructor
    · rintro ⟨s, hs, rest, hrest, rfl⟩
      exact ⟨s, rest, hs, hrest, rfl⟩
    · rintro ⟨s, rest, hs, hrest, rfl⟩
      exact ⟨s, hs, rest, hrest, rfl⟩

theorem restore_substituted {l : List Js} {substituted : List Substituted}
    (h : List.Forall₂ (fun block s => Restores s block) l substituted) :
    (substituted.map Prod.fst).zipWith
      (fun block s => s.2.foldl (fun b apply => apply b) block) substituted = l := by
  induction h with
  | nil => rfl
  | cons hs _ ih => rw [List.map_cons, List.zipWith_cons_cons, ih, hs]

/-- The body is put back as it was. -/
theorem restore_withBlocks {l : List Js} {substituted : List Substituted}
    (hp : (p.map Prod.fst).Nodup) (hblocks : getProperty p "blocks" = some (.array l))
    (h : List.Forall₂ (fun block s => Restores s block) l substituted) :
    restore (.object (withBlocks p (substituted.map Prod.fst))) substituted = .object p := by
  rw [restore, withBlocks, mapMember, mapProperty_mapProperty, elements, restore_substituted h,
    mapProperty_self hp]
  intro w hw
  exact Option.some.inj (hblocks.symm.trans hw)

theorem blocks_withBlocks {bs : List Js} (h : getProperty p "blocks" = some v) :
    blocks (withBlocks p bs) = bs := by
  rw [blocks, field, withBlocks, getProperty_mapProperty, if_pos rfl, h]
  rfl

end Restoration

/-! ## Names -/

section Names

variable {p : Properties} {name : String} {f : Js → Js} {v : Js}

theorem distinctNames_mapProperty (hv : DistinctNames (.object p))
    (hf : ∀ w, DistinctNames w → DistinctNames (f w)) :
    DistinctNames (.object (mapProperty p name f)) := by
  refine .object ?_ fun m hm => ?_
  · rw [names_mapProperty]
    exact hv.names
  · obtain ⟨m', hm', rfl⟩ := List.mem_map.1 hm
    have hvalue := hv.property ((ownProperty_eq_some hv.names).2 hm')
    split
    · exact hf _ hvalue
    · exact hvalue

theorem distinctNames_mapMember (hv : DistinctNames v)
    (hf : ∀ w, DistinctNames w → DistinctNames (f w)) : DistinctNames (mapMember name f v) := by
  cases v with
  | object p => exact distinctNames_mapProperty hv hf
  | _ => exact hv

theorem distinctNames_mapFirst (hv : DistinctNames v)
    (hf : ∀ w, DistinctNames w → DistinctNames (f w)) : DistinctNames (mapFirst f v) := by
  cases v with
  | array l =>
    cases l with
    | nil => exact hv
    | cons w l =>
      refine .array fun u hu => ?_
      rcases List.mem_cons.1 hu with rfl | hu
      · exact hf w (hv.element List.mem_cons_self)
      · exact hv.element (List.mem_cons_of_mem _ hu)
  | _ => exact hv

theorem distinctNames_setFirst {member : String} (hv : DistinctNames v) (s : JsString) :
    DistinctNames (mapMember name (mapFirst (mapMember member fun _ => .string s)) v) :=
  distinctNames_mapMember hv fun _ hw => distinctNames_mapFirst hw fun _ hu =>
    distinctNames_mapMember hu fun _ _ => .string s

theorem distinctNames_substituteHref (hv : DistinctNames v) :
    DistinctNames (substituteHref v).1 := by
  unfold substituteHref
  split
  · split
    · exact distinctNames_setFirst hv placeholder
    · exact hv
  · exact hv

theorem distinctNames_substituteBlock (hv : DistinctNames v) {spt3 : Bool} {s : Substituted}
    (h : substituteBlock spt3 v = .ok s) : DistinctNames s.1 := by
  unfold substituteBlock at h
  dsimp only at h
  split at h
  · cases h
    exact distinctNames_mapMember hv fun _ _ => .string _
  · split at h
    · have hhref := distinctNames_substituteHref hv
      unfold substituteLabel at h
      split at h
      · dsimp only at h
        split at h
        · split at h
          · cases h
          · cases h
            exact distinctNames_setFirst hhref (js "x")
        · cases h
          exact hhref
      · cases h
        exact hhref
    · cases h
      exact hv

theorem distinctNames_withBlocks (hv : DistinctNames (.object p)) {bs : List Js}
    (hbs : ∀ b ∈ bs, DistinctNames b) : DistinctNames (.object (withBlocks p bs)) :=
  distinctNames_mapProperty hv fun _ _ => .array hbs

/-- The body that is looked at has distinct names too. -/
theorem distinctNames_candidate (hp : DistinctNames (.object p)) {l : List Js}
    {substituted : List Substituted} {spt3 : Bool}
    (hblocks : getProperty p "blocks" = some (.array l))
    (hsubstituted : List.Forall₂ (fun block s => substituteBlock spt3 block = .ok s) l substituted) :
    DistinctNames (.object (withBlocks p (substituted.map Prod.fst))) := by
  refine distinctNames_withBlocks hp fun c hc => ?_
  obtain ⟨s, hs, rfl⟩ := List.mem_map.1 hc
  obtain ⟨block, hblock, hs⟩ := forall₂_right hsubstituted hs
  exact distinctNames_substituteBlock ((hp.property hblocks).element hblock) hs

end Names

section Accepted

variable {lib : Libraries} {cborg : Cborg} {v body : Js} {p : Properties}

/-- The blocks of an accepted body are an array. -/
theorem array_of_accepted (hcborg : cborg.Strict) (hv : DistinctNames (.object p))
    (h : validateBody lib cborg (.object p) = .ok body) :
    ∃ l, getProperty p "blocks" = some (.array l) := by
  obtain ⟨_, _, _, ⟨⟩, hcases⟩ := (validateBody_eq_ok hcborg hv).1 h
  rcases hcases with ⟨_, hnames, hpayload⟩ | ⟨_, hnames, hpayload⟩
  · obtain ⟨l, hperm⟩ := textBody_of_payload hv hnames hpayload
    exact ⟨l, ownProperty_perm hperm hv.names (js "blocks")⟩
  · obtain ⟨l, _, _, hperm, _⟩ := imageBody_of_payload hv hnames hpayload
    exact ⟨l, ownProperty_perm hperm hv.names (js "blocks")⟩

/-- A draft is accepted as it is when the body that is filled in is accepted. -/
theorem validateDraftBody_eq_ok (hcborg : cborg.Strict) (hv : DistinctNames v) :
    validateDraftBody lib cborg v = .ok body ↔ body = v ∧ jsonSize v ≤ 360000 ∧ ∃ p l substituted,
      v = .object p ∧ getProperty p "blocks" = some (.array l) ∧
        List.Forall₂ (fun block s => substituteBlock (isText (getProperty p "profile") "spt-3")
          block = .ok s) l substituted ∧
        validateBody lib cborg (.object (withBlocks p (substituted.map Prod.fst))) =
          .ok (.object (withBlocks p (substituted.map Prod.fst))) := by
  have hobject : ∀ p path, object v path = .ok p ↔ v = .object p := by
    intro p path
    cases v <;> simp [object]
  have hrestore : ∀ {p l substituted}, v = .object p → getProperty p "blocks" = some (.array l) →
      List.Forall₂ (fun block s => substituteBlock (isText (getProperty p "profile") "spt-3")
        block = .ok s) l substituted →
      restore (.object (withBlocks p (substituted.map Prod.fst))) substituted = v := by
    rintro p l substituted rfl hblocks hsubstituted
    have hdistinct : ∀ block ∈ l, DistinctNames block := fun block hblock =>
      (hv.property hblocks).element hblock
    exact restore_withBlocks hv.names hblocks (forall₂_imp_mem
      (fun block hblock _ _ hs => restores_substituteBlock (hdistinct block hblock) hs) hsubstituted)
  simp only [validateDraftBody, bind_eq_ok, budget_eq_ok, bodyBudget, exists_const, hobject]
  constructor
  · rintro ⟨hsize, p, rfl, h⟩
    split at h
    · rename_i l hblocks
      simp only [bind_eq_ok, Except.ok.injEq, substituteBlocks_eq_ok] at h
      obtain ⟨substituted, hsubstituted, accepted, haccepted, rfl⟩ := h
      obtain rfl := (validateBody_sound haccepted).1
      exact ⟨hrestore rfl hblocks hsubstituted, hsize, p, l, substituted, rfl, hblocks,
        hsubstituted, haccepted⟩
    · rename_i hnot
      obtain ⟨l, hl⟩ := array_of_accepted hcborg hv h
      exact absurd hl (hnot l)
  · rintro ⟨rfl, hsize, p, l, substituted, rfl, hblocks, hsubstituted, haccepted⟩
    refine ⟨hsize, p, rfl, ?_⟩
    rw [hblocks]
    simp only [bind_eq_ok, Except.ok.injEq, substituteBlocks_eq_ok]
    exact ⟨substituted, hsubstituted, _, haccepted, hrestore rfl hblocks hsubstituted⟩

end Accepted

end HailProto.Content.Builder
