import HailProto.Content.Draft
import HailProto.Content.Semantics

/-!
# What is reported before publication

The builder's own rules for labels and addresses are the codec's on every text. They are asked of
strings, though, and the codec is asked about texts: an address with an unpaired surrogate is no text,
and only the codec refuses it.
-/

namespace HailProto.Content.Builder

open Cbor (Value entryItems asBytes)
open Codec
open Codec.TypeScript (Cborg)
open Server Server.Json

section Units

/-- The units of a character. -/
def unitsOf (c : Char) : JsString := (utf16Char c).map (Fin.ofNat 65536)

theorem mem_js {text : String} {u : CodeUnit} : u ∈ js text ↔ ∃ c ∈ text.toList, u ∈ unitsOf c := by
  rw [js, utf16, List.map_flatMap, List.mem_flatMap]
  rfl

theorem unitsOf_cases (c : Char) :
    (unitsOf c = [Fin.ofNat 65536 c.toNat] ∧ c.toNat < 65536) ∨
      0x10000 ≤ c.toNat ∧ ∃ lead trail, unitsOf c = [lead, trail] ∧
        0xd800 ≤ lead.val ∧ 0xd800 ≤ trail.val := by
  have hvalid := c.valid
  have hcode : c.toNat < 0x110000 := by
    have hval : c.toNat = c.val.toNat := rfl
    rcases hvalid with hlow | ⟨_, hhigh⟩
    · omega
    · omega
  unfold unitsOf utf16Char
  split
  · rename_i hbmp
    exact .inl ⟨rfl, hbmp⟩
  · refine .inr ⟨by omega, _, _, rfl, ?_, ?_⟩
    · simp only [Fin.ofNat]
      omega
    · simp only [Fin.ofNat]
      omega

theorem toNat_eq_iff {c : Char} {d : Char} : c.toNat = d.toNat ↔ c = d := by
  constructor
  · intro h
    exact Char.ext (UInt32.toNat_inj.1 h)
  · rintro rfl
    rfl

/-- A test of units that finds characters below the surrogates. -/
theorem test_unitsOf {codes : List Char} (hcodes : ∀ d ∈ codes, d.toNat < 0xd800) (c : Char) :
    ∀ u ∈ unitsOf c, (codes.map Char.toNat).contains u.val = codes.contains c := by
  intro u hu
  rw [Bool.eq_iff_iff, List.contains_iff_mem, List.contains_iff_mem, List.mem_map]
  rcases unitsOf_cases c with ⟨hunits, hbmp⟩ | ⟨hlarge, lead, trail, hunits, hlead, htrail⟩
  · rw [hunits, List.mem_singleton] at hu
    have hval : u.val = c.toNat := by
      rw [hu]
      exact Nat.mod_eq_of_lt hbmp
    simp only [hval, toNat_eq_iff, exists_eq_right]
  · rw [hunits] at hu
    have hhigh : 0xd800 ≤ u.val := by
      simp only [List.mem_cons, List.not_mem_nil, or_false] at hu
      rcases hu with rfl | rfl
      · exact hlead
      · exact htrail
    refine iff_of_false ?_ fun hc => ?_
    · rintro ⟨d, hd, heq⟩
      have hlow := hcodes d hd
      omega
    · have hlow := hcodes c hc
      omega

theorem unitsOf_ne_nil (c : Char) : unitsOf c ≠ [] := by
  rcases unitsOf_cases c with ⟨hunits, _⟩ | ⟨_, _, _, hunits, _⟩
  · rw [hunits]
    exact List.cons_ne_nil _ _
  · rw [hunits]
    exact List.cons_ne_nil _ _

variable {test : CodeUnit → Bool} {test' : Char → Bool}

theorem all_js (h : ∀ c, ∀ u ∈ unitsOf c, test u = test' c) (text : String) :
    (js text).all test = text.toList.all test' := by
  rw [Bool.eq_iff_iff, List.all_eq_true, List.all_eq_true]
  constructor
  · intro hall c hc
    obtain ⟨u, hu⟩ := List.exists_mem_of_ne_nil _ (unitsOf_ne_nil c)
    rw [← h c u hu]
    exact hall u (mem_js.2 ⟨c, hc, hu⟩)
  · intro hall u hu
    obtain ⟨c, hc, hunit⟩ := mem_js.1 hu
    rw [h c u hunit]
    exact hall c hc

theorem any_js (h : ∀ c, ∀ u ∈ unitsOf c, test u = test' c) (text : String) :
    (js text).any test = text.toList.any test' := by
  have hnot : ∀ c, ∀ u ∈ unitsOf c, (!test u) = !test' c := fun c u hu => by rw [h c u hu]
  rw [List.any_eq_not_all_not, List.any_eq_not_all_not, all_js hnot]

theorem isBlankUnit_eq (c : Char) : ∀ u ∈ unitsOf c, isBlankUnit u = isBlank c := by
  intro u hu
  have htest := @test_unitsOf [' ', '\t', '\r', '\n'] (by simp) c u hu
  rw [Bool.eq_iff_iff] at htest ⊢
  simpa [isBlankUnit, isBlank, or_assoc, Fin.ext_iff] using htest

theorem isBreakUnit_eq (c : Char) : ∀ u ∈ unitsOf c, isBreakUnit u = isLineBreak c := by
  intro u hu
  have htest := @test_unitsOf ['\r', '\n'] (by simp) c u hu
  rw [Bool.eq_iff_iff] at htest ⊢
  simpa [isBreakUnit, isLineBreak, Fin.ext_iff] using htest

end Units

section Rules

variable {lib : Libraries} {label href : String}

theorem isPrefixOf_js (start text : String) :
    (js start).isPrefixOf (js text) = start.toList.isPrefixOf text.toList := by
  rw [Bool.eq_iff_iff, List.isPrefixOf_iff_prefix, List.isPrefixOf_iff_prefix]
  constructor
  · rintro ⟨rest, hrest⟩
    have hchars := congrArg characters hrest
    rw [characters_js_append, characters_js] at hchars
    exact ⟨_, hchars⟩
  · rintro ⟨rest, hrest⟩
    refine ⟨js (String.ofList rest), ?_⟩
    have hjoin := js_ofList_append start.toList rest
    rw [hrest, String.ofList_toList, String.ofList_toList] at hjoin
    exact hjoin.symm

/-- Nothing is left of a string when all of it is white space. -/
theorem isEmpty_trim {s : JsString} (h : (trim s).isEmpty = true) : ∀ c ∈ s, isWhiteSpace c := by
  rw [trim, List.isEmpty_iff, List.reverse_eq_nil_iff, List.dropWhile_eq_nil_iff] at h
  intro c hc
  rw [← List.takeWhile_append_dropWhile (p := isWhiteSpace) (l := s), List.mem_append] at hc
  rcases hc with hc | hc
  · exact List.mem_takeWhile_imp hc
  · exact h c (List.mem_reverse.2 hc)

theorem isEmpty_trim_https {address : JsString} (h : js "https://" <+: address) :
    (trim address).isEmpty = false := by
  rw [Bool.eq_false_iff]
  intro hempty
  have hletter : (0x68 : CodeUnit) ∈ address := h.subset (by decide)
  exact absurd (isEmpty_trim hempty _ hletter) (by decide)

/-- A button with a label and an address as the builder asks for them. -/
structure FinishedButton (lib : Libraries) (label address : JsString) : Prop where
  visible : ∃ c ∈ label, isBlankUnit c = false
  line : ∀ c ∈ label, isBreakUnit c = false
  short : byteLength label ≤ 128
  secure : js "https://" <+: address
  url : ∃ url, newUrl lib address = some url ∧ url.protocol = "https:" ∧ url.username = "" ∧
    url.password = ""
  bounded : byteLength address ≤ 2048

theorem addressProblem_eq_false {address : JsString} (url : JsUrl) :
    (!(js "https://").isPrefixOf address || url.protocol != "https:" || url.username != "" ||
      url.password != "" || decide (byteLength address > 2048)) = false ↔
        js "https://" <+: address ∧ (url.protocol = "https:" ∧ url.username = "" ∧
          url.password = "") ∧ byteLength address ≤ 2048 := by
  simp only [Bool.or_eq_false_iff, Bool.not_eq_false', bne_eq_false_iff_eq,
    List.isPrefixOf_iff_prefix, decide_eq_false_iff_not, not_lt, and_assoc]

theorem ctaProblem_eq_none {label address : JsString} :
    ctaProblem lib label address = none ↔ FinishedButton lib label address := by
  unfold ctaProblem
  constructor
  · intro h
    split at h
    · cases h
    · rename_i hvisible
      split at h
      · cases h
      · rename_i hline
        split at h
        · cases h
        · dsimp only at h
          split at h
          · rename_i url hurl
            split at h
            · cases h
            · rename_i hproblem
              obtain ⟨hsecure, hplain, hbounded⟩ :=
                (addressProblem_eq_false url).1 (Bool.eq_false_iff.2 hproblem)
              rw [Bool.not_eq_true, List.all_eq_false] at hvisible
              rw [Bool.not_eq_true, Bool.or_eq_false_iff, List.any_eq_false,
                decide_eq_false_iff_not, not_lt] at hline
              exact ⟨by simpa using hvisible, by simpa using hline.1, hline.2, hsecure,
                ⟨url, hurl, hplain⟩, hbounded⟩
          · cases h
  · rintro ⟨⟨c, hc, hblank⟩, hline, hshort, hsecure, ⟨url, hurl, hplain⟩, hbounded⟩
    have hvisible : label.all isBlankUnit = false := by
      rw [List.all_eq_false]
      exact ⟨c, hc, by rw [hblank]; exact Bool.false_ne_true⟩
    have hone : (label.any isBreakUnit || decide (byteLength label > 128)) = false := by
      rw [Bool.or_eq_false_iff, List.any_eq_false, decide_eq_false_iff_not, not_lt]
      exact ⟨by simpa using hline, hshort⟩
    have hplain' := (addressProblem_eq_false url).2 ⟨hsecure, hplain, hbounded⟩
    rw [hvisible, hone, isEmpty_trim_https hsecure, hurl]
    dsimp only
    rw [hplain']
    rfl

theorem newUrl_js : newUrl lib (js href) = lib.newUrl href := by
  rw [newUrl, characters_js, String.ofList_toList]

theorem hrefRule_iff : HrefRule lib href ↔ js "https://" <+: js href ∧ ∃ url,
    newUrl lib (js href) = some url ∧ url.protocol = "https:" ∧ url.username = "" ∧
      url.password = "" := by
  rw [HrefRule, Codec.TypeScript.linkHref, newUrl_js, ← List.isPrefixOf_iff_prefix, isPrefixOf_js]
  cases lib.newUrl href with
  | none => simp
  | some url =>
    simp only [Codec.TypeScript.plainHttps, Codec.TypeScript.startsWithHttps, Bool.and_eq_true,
      beq_iff_eq, Option.some.injEq, exists_eq_left', and_assoc]

/-- On texts the builder asks for what the codec asks for. -/
theorem finishedButton_js : FinishedButton lib (js label) (js href) ↔
    IsLabel label ∧ HrefRule lib href ∧ (asBytes href).length ≤ 2048 := by
  have hblank : (∃ c ∈ js label, isBlankUnit c = false) ↔
      ∃ c ∈ label.toList, isBlank c = false := by
    have hall := all_js isBlankUnit_eq label
    rw [Bool.eq_iff_iff, ← not_iff_not, Bool.not_eq_true, Bool.not_eq_true, List.all_eq_false,
      List.all_eq_false] at hall
    simpa using hall
  have hline : (∀ c ∈ js label, isBreakUnit c = false) ↔
      ∀ c ∈ label.toList, isLineBreak c = false := by
    have hany := any_js isBreakUnit_eq label
    rw [Bool.eq_iff_iff, ← not_iff_not, Bool.not_eq_true, Bool.not_eq_true, List.any_eq_false,
      List.any_eq_false] at hany
    simpa using hany
  rw [IsLabel, hrefRule_iff, ← hblank, ← hline, ← byteLength_js, ← byteLength_js]
  constructor
  · rintro ⟨hvisible, hone, hshort, hsecure, hurl, hbounded⟩
    exact ⟨⟨hvisible, hone, hshort⟩, ⟨hsecure, hurl⟩, hbounded⟩
  · rintro ⟨⟨hvisible, hone, hshort⟩, ⟨hsecure, hurl⟩, hbounded⟩
    exact ⟨hvisible, hone, hshort, hsecure, hurl, hbounded⟩

end Rules

/-! ## Members -/

section Members

variable {r : Record} {k k' : String} {v w : Value} {p : Properties} {f : Js → Js} {u : Js}

/-- The record with another value for a member. -/
def setMember (r : Record) (k : String) (w : Value) : Record :=
  r.map fun e => if e.1.isText k then (e.1, w) else e

theorem get_setMember :
    (setMember r k w).get k' = if k' = k then (r.get k').map fun _ => w else r.get k' := by
  unfold setMember Record.get
  induction r with
  | nil => simp
  | cons e r ih =>
    rw [List.map_cons, List.find?_cons, List.find?_cons]
    by_cases hkey : e.1.isText k = true
    · rw [if_pos hkey]
      rw [Value.isText_iff] at hkey
      by_cases hname : k' = k
      · subst hname
        simp [hkey, Value.isText]
      · have hne : e.1.isText k' = false := by
          rw [Bool.eq_false_iff, ne_eq, Value.isText_iff, hkey]
          exact fun h => hname (Value.text.inj h).symm
        rw [hne, ih]
    · rw [if_neg hkey]
      cases hother : e.1.isText k' with
      | true =>
        have hname : k' ≠ k := by
          rintro rfl
          exact hkey hother
        simp [hname]
      | false => exact ih

theorem keys_setMember : (setMember r k w).map Prod.fst = r.map Prod.fst := by
  rw [setMember, List.map_map]
  refine List.map_congr_left fun e _ => ?_
  rw [Function.comp_apply]
  split <;> rfl

theorem exact_setMember {required optional : List String} (h : Exact r required optional) :
    Exact (setMember r k w) required optional := by
  obtain ⟨hkeys, hrequired⟩ := h
  constructor
  · intro e he
    have hmem : e.1 ∈ r.map Prod.fst := by
      rw [← keys_setMember]
      exact List.mem_map_of_mem he
    obtain ⟨e', he', heq⟩ := List.mem_map.1 hmem
    rw [← heq]
    exact hkeys e' he'
  · intro name hname
    rw [get_setMember]
    split
    · rw [Option.isSome_map]
      exact hrequired name hname
    · exact hrequired name hname

theorem within_setMember {depth : ℕ} (hr : Within defaultResourceLimits depth (.map r))
    (hw : Within defaultResourceLimits (depth + 1) w) :
    Within defaultResourceLimits depth (.map (setMember r k w)) := by
  obtain ⟨hdepth, hlength, hentries⟩ := hr
  refine ⟨hdepth, ?_, ?_⟩
  · rw [setMember, List.length_map]
    exact hlength
  · rw [withinEntries_iff] at hentries ⊢
    intro e he
    obtain ⟨e', he', rfl⟩ := List.mem_map.1 he
    obtain ⟨hkey, hbytes, hvalue⟩ := hentries e' he'
    split
    · exact ⟨hkey, hbytes, hw⟩
    · exact ⟨hkey, hbytes, hvalue⟩

theorem items_setMember (hr : (r.map Prod.fst).Nodup) (hget : r.get k = some v)
    (hitems : w.items ≤ v.items) : (Value.map (setMember r k w)).items ≤ (Value.map r).items := by
  have hentries : entryItems (setMember r k w) ≤ entryItems r := by
    rw [Cbor.entryItems_eq_sum, Cbor.entryItems_eq_sum, setMember, List.map_map]
    refine List.sum_le_sum ?_
    rintro ⟨key, value⟩ he
    rw [Function.comp_apply]
    split
    · rename_i hkey
      obtain rfl : key = .text k := Value.isText_iff.1 hkey
      have hvalue : r.get k = some value := Record.get_of_mem hr he rfl
      rw [hget, Option.some.injEq] at hvalue
      rw [← hvalue]
      exact Nat.add_le_add_left hitems _
    · exact le_rfl
  simp only [Value.items]
  omega

/-- An object shows the record whose member shows its own property. -/
theorem shows_setMember (hp : (p.map Prod.fst).Nodup)
    (h : List.Forall₂ ShowsMember (mapProperty p k f) r) (hu : getProperty p k = some u)
    (hw : Shows u w) : List.Forall₂ ShowsMember p (setMember r k w) := by
  rw [mapProperty, List.forall₂_map_left_iff] at h
  rw [setMember, List.forall₂_map_right_iff]
  refine forall₂_imp_mem ?_ h
  rintro m hm e - ⟨name, hname, hkey, hshow⟩
  by_cases hmember : m.1 = js k
  · rw [if_pos hmember] at hname
    have hk : k = name := js_inj.1 (hmember.symm.trans hname)
    have hvalue : m.2 = u := by
      have hproperty : getProperty p k = some m.2 := by
        rw [getProperty_eq, ownProperty_eq_some hp, ← hmember]
        exact hm
      exact Option.some.inj (hproperty.symm.trans hu)
    rw [if_pos (Value.isText_iff.2 (hk ▸ hkey))]
    exact ⟨name, hname, hkey, hvalue ▸ hw⟩
  · rw [if_neg hmember] at hname hshow
    have hother : e.1.isText k ≠ true := by
      rw [ne_eq, Value.isText_iff, hkey]
      rintro ⟨⟩
      exact hmember hname
    rw [if_neg hother]
    exact ⟨name, hname, hkey, hshow⟩

end Members

/-! ## Addresses -/

section Addresses

variable {lib : Libraries} {v : Js} {p : Properties} {b : Record} {href : String}

theorem isCta_iff : isCta p = true ↔ getProperty p "_type" = some (.string (js "block")) ∧
    getProperty p "style" = some (.string (js "cta")) := by
  rw [isCta, Bool.and_eq_true, isText_eq_true, isText_eq_true]

/-- The style that a button shows. -/
theorem style_of_cta (h : Members p b) (hcta : isCta p = true)
    (hstyle : OneOf blockStyles (b.get "style")) : b.get "style" = some (.text "cta") := by
  obtain ⟨style, _, hget⟩ := hstyle
  have hshown := h.get_text hget
  rw [(isCta_iff.1 hcta).2, Option.some.injEq, JsValue.string.injEq, js_inj] at hshown
  rw [hget, hshown]

theorem isCta_setHref (address : JsString) :
    isCta (properties (setHref address v)) = isCta (properties v) := by
  cases v with
  | object p =>
    rw [setHref, mapMember, properties, properties, isCta, getProperty_mapProperty,
      getProperty_mapProperty, if_neg (by decide), if_neg (by decide), isCta]
  | _ => rfl

theorem nodup_of_shows (hp : (p.map Prod.fst).Nodup) (h : List.Forall₂ ShowsMember p b) :
    (b.map Prod.fst).Nodup := by
  rw [names_of_shows h] at hp
  exact hp.of_map

theorem within_of_get {k : String} {w : Value} {depth : ℕ}
    (h : Within defaultResourceLimits depth (.map b)) (hget : b.get k = some w) :
    Within defaultResourceLimits (depth + 1) w :=
  ((withinEntries_iff _).1 h.2.2 _ (Record.mem_of_get hget)).2.2

/-- A link with another address. -/
theorem readsLink_setMember {rule : String → Prop} {d : Record} {link : Link}
    (h : ReadsLink rule (.map d) link) (hrule : rule href) :
    ReadsLink rule (.map (setMember d "href" (.text href))) { link with href } := by
  obtain ⟨_, ⟨⟩, hexact, hkey, hpattern, htype, ⟨hhref, _⟩, htitle⟩ := h
  refine ⟨_, rfl, exact_setMember hexact, ?_, hpattern, ?_, ⟨?_, hrule⟩, ?_⟩
  · rw [get_setMember, if_neg (by decide)]
    exact hkey
  · rw [get_setMember, if_neg (by decide)]
    exact htype
  · rw [get_setMember, if_pos rfl, hhref]
    rfl
  · rw [get_setMember, if_neg (by decide)]
    exact htitle

/-- A button with another address. -/
def withHref (b d : Record) (href : String) : Record :=
  setMember b "markDefs" (.array [.map (setMember d "href" (.text href))])

theorem richBlock_withHref {rule : String → Prop} (h : RichBlock rule (.map b))
    (hcta : b.get "style" = some (.text "cta")) (hrule : rule href)
    (hsize : (asBytes href).length ≤ 2048) : ∃ d : Record, b.get "markDefs" = some (.array [.map d]) ∧
      (∃ old, d.get "href" = some (.text old)) ∧ RichBlock rule (.map (withHref b d href)) := by
  obtain ⟨_, ⟨⟩, hexact, htype, hstyle, halignment, hlist, hlevel, defs, hdefs, links,
    ⟨hlinks, hkeys⟩, children, hchildren, hne, spans, hspans, hcall⟩ := h
  obtain ⟨hitem, hnolevel, link, rfl, hmarks, hlabel, _⟩ := hcall hcta
  obtain ⟨v, _, hlink, hnil, rfl⟩ := List.forall₂_cons_right_iff.1 hlinks
  cases hnil
  obtain ⟨d, rfl, _, _, _, _, ⟨hold, _⟩, _⟩ := id hlink
  have hget : ∀ k ≠ "markDefs", (withHref b d href).get k = b.get k :=
    fun k hk => get_setMember.trans (if_neg hk)
  have hdefs' : (withHref b d href).get "markDefs" =
      some (.array [.map (setMember d "href" (.text href))]) := by
    rw [withHref, get_setMember, if_pos rfl, hdefs]
    rfl
  refine ⟨d, hdefs, ⟨_, hold⟩, _, rfl, exact_setMember hexact, ?_, ?_, ?_, ?_, ?_, _, hdefs',
    [{ link with href }], ⟨.cons (readsLink_setMember hlink hrule) .nil, hkeys⟩, children, ?_, hne,
    spans, hspans, fun _ => ⟨?_, ?_, _, rfl, hmarks, hlabel, hsize⟩⟩
  · rw [hget _ (by decide)]
    exact htype
  · rw [hget _ (by decide)]
    exact hstyle
  · rw [hget _ (by decide)]
    exact halignment
  · rw [hget _ (by decide)]
    exact hlist
  · rw [hget _ (by decide), hget _ (by decide)]
    exact hlevel
  · rw [hget _ (by decide)]
    exact hchildren
  · rw [hget _ (by decide)]
    exact hitem
  · rw [hget _ (by decide)]
    exact hnolevel

/-- A button with an address that the codec takes stands for the button with the placeholder. -/
theorem replaces_setHref (hv : DistinctNames v) (hcta : isCta (properties v) = true)
    (hsole : soleHref (properties v) = some (js href)) (hrule : HrefRule lib href)
    (hsize : (asBytes href).length ≤ 2048) : Replaces lib (setHref placeholder v) v := by
  intro value hshow hrich hwithin
  obtain ⟨d, hmarkDefs, hhref⟩ := soleHref_eq_some.1 hsole
  rw [← isCta_setHref placeholder] at hcta
  cases v with
  | object p =>
    obtain ⟨b, rfl, _, _, hstyle, _⟩ := id hrich
    obtain ⟨_, ⟨⟩, hmembers⟩ := shows_map.1 hshow
    have hread := members_of_forall₂ hmembers
    obtain ⟨d', hdefs, ⟨old, hold⟩, hrich'⟩ :=
      richBlock_withHref hrich (style_of_cta hread hcta hstyle) hrule hsize
    cases d with
    | object q =>
      have hd := (hv.property hmarkDefs).element List.mem_cons_self
      obtain ⟨u, hu, hshown⟩ := hread.get_some hdefs
      rw [properties] at hmarkDefs
      rw [getProperty_mapProperty, if_pos rfl, hmarkDefs] at hu
      cases hu
      obtain ⟨_, ⟨⟩, hone⟩ := shows_array.1 hshown
      obtain ⟨_, ⟨⟩, hmember⟩ := shows_map.1 (List.forall₂_cons.1 hone).1
      have hlink := shows_setMember hd.names hmember hhref (shows_text.2 rfl)
      have hlinks : Shows (.array [.object q])
          (.array [.map (setMember d' "href" (.text href))]) :=
        shows_array.2 ⟨_, rfl, .cons (shows_map.2 ⟨_, rfl, hlink⟩) .nil⟩
      refine ⟨_, shows_map.2 ⟨_, rfl, shows_setMember hv.names hmembers hmarkDefs hlinks⟩,
        hrich', within_setMember hwithin ?_, items_setMember ?_ hdefs ?_⟩
      · obtain ⟨hdepth, hlength, hinner, _⟩ := within_of_get hwithin hdefs
        have hfits : ((asBytes href).length : ℤ) ≤ defaultResourceLimits.maximumTextBytes := by
          have hmaximum : defaultResourceLimits.maximumTextBytes = 1048576 := rfl
          omega
        exact ⟨hdepth, hlength, within_setMember hinner ⟨by decide, hfits⟩, trivial⟩
      · refine nodup_of_shows ?_ hmembers
        rw [names_mapProperty]
        exact hv.names
      · have hnames : (d'.map Prod.fst).Nodup := by
          refine nodup_of_shows ?_ hmember
          rw [names_mapProperty]
          exact hd.names
        have hitems := items_setMember (w := .text href) hnames hold le_rfl
        simp only [Value.items, Cbor.itemsSum] at hitems ⊢
        omega
    | _ => cases hhref
  | _ => cases hmarkDefs

end Addresses

/-! ## Blocks -/

section Issues

variable {lib : Libraries} {cborg : Cborg} {v w body : Js} {p block : Properties}

/-- A block with nothing left to fill in. -/
structure Finished (lib : Libraries) (block : Properties) : Prop where
  image : isImage block = true → isText (getProperty block "alt") "" = false
  button : isCta block = true → FinishedButton lib (label block) (ctaHref block)

theorem isImage_of_isCta (h : isCta block = true) : isImage block = false := by
  rw [isImage, (isCta_iff.1 h).1]
  decide

theorem blockIssue_eq_none {index : ℕ} : blockIssue lib block index = none ↔ Finished lib block := by
  unfold blockIssue
  constructor
  · intro h
    split at h
    · cases h
    · rename_i himage
      refine ⟨fun hi => ?_, fun hcta => ?_⟩
      · rwa [hi, Bool.true_and, Bool.not_eq_true] at himage
      · rw [if_pos hcta, Option.map_eq_none_iff] at h
        exact ctaProblem_eq_none.1 h
  · rintro ⟨himage, hbutton⟩
    have hdescribed : (isImage block && isText (getProperty block "alt") "") = false := by
      rw [Bool.and_eq_false_imp]
      exact himage
    rw [hdescribed, if_neg Bool.false_ne_true]
    split
    · rename_i hcta
      rw [Option.map_eq_none_iff]
      exact ctaProblem_eq_none.2 (hbutton hcta)
    · rfl

theorem publicationIssues_eq_nil : publicationIssues lib body = [] ↔
    ∀ block ∈ blocks (properties body), Finished lib (properties block) := by
  rw [publicationIssues, List.filterMap_eq_nil_iff]
  constructor
  · intro h block hblock
    obtain ⟨i, hi⟩ := List.mem_iff_getElem?.1 hblock
    exact blockIssue_eq_none.1 (h (block, i) (List.mem_zipIdx_iff_getElem?.2 hi))
  · rintro h ⟨block, index⟩ hmem
    exact blockIssue_eq_none.2 (h block (List.fst_mem_of_mem_zipIdx hmem))

theorem label_of_childTexts {texts : List JsString} (h : childTexts block = some texts) :
    label block = texts.flatten := by
  obtain ⟨l, hchildren, hl⟩ := childTexts_eq_some.1 h
  rw [label, spans, field_of_get hchildren, elements, List.flatMap_map]
  clear h hchildren
  induction hl with
  | nil => rfl
  | cons htext _ ih =>
    rw [List.flatMap_cons, List.flatten_cons, ih, text, field_of_get htext]
    rfl

theorem ctaHref_of_soleHref {address : JsString} (h : soleHref block = some address) :
    ctaHref block = address := by
  obtain ⟨d, hdefs, hhref⟩ := soleHref_eq_some.1 h
  rw [ctaHref, field_of_get hdefs, elements]
  dsimp only
  rw [field_of_get hhref]
  rfl

theorem js_joined (spans : List Span) :
    js (joined spans) = (spans.map fun span => js span.text).flatten := by
  induction spans with
  | nil => rfl
  | cons span spans ih =>
    have happend := js_ofList_append span.text.toList (joined spans).toList
    rw [← String.toList_append, String.ofList_toList, String.ofList_toList,
      String.ofList_toList] at happend
    rw [joined, happend, ih, List.map_cons, List.flatten_cons]

/-- The label that a block shows. -/
theorem label_of_shows {keys : List String} {b : Record} {children : List Value} {spans : List Span}
    (h : Members block b) (hchildren : b.get "children" = some (.array children))
    (hspans : List.Forall₂ (ReadsSpan keys) children spans) : label block = js (joined spans) := by
  obtain ⟨l, hl, hshows⟩ := h.get_array hchildren
  have htexts : childTexts block = some (spans.map fun span => js span.text) := by
    refine childTexts_eq_some.2 ⟨l, hl, ?_⟩
    rw [List.forall₂_map_right_iff]
    refine (forall₂_comp hshows hspans).imp ?_
    rintro v span ⟨s, hs, _, rfl, _, _, htext, _⟩
    obtain ⟨q, rfl, hq⟩ := hs.members
    exact hq.get_text htext
  rw [label_of_childTexts htexts, js_joined]

/-- The address that a button shows. -/
theorem ctaHref_of_shows {rule : String → Prop} {b : Record} {defs : List Value} {link : Link}
    (h : Members block b) (hdefs : b.get "markDefs" = some (.array defs))
    (hlinks : List.Forall₂ (ReadsLink rule) defs [link]) : ctaHref block = js link.href := by
  obtain ⟨l, hl, hshows⟩ := h.get_array hdefs
  obtain ⟨v, _, ⟨_, hv, d, rfl, _, _, _, _, ⟨hhref, _⟩, _⟩, hnil, rfl⟩ :=
    List.forall₂_cons_right_iff.1 (forall₂_comp hshows hlinks)
  cases hnil
  obtain ⟨q, rfl, hq⟩ := hv.members
  exact ctaHref_of_soleHref (soleHref_eq_some.2 ⟨_, hl, hq.get_text hhref⟩)

/-- Nothing is left to fill in of a block that the codec takes, and its address is a text. -/
theorem finished_of_entry (h : Entry lib v) : Finished lib (properties v) ∧
    (isCta (properties v) = true → WellFormed (ctaHref (properties v))) := by
  rcases h with ⟨value, hshow, _, _, _, b, rfl, htype, _, _, _, halt, _⟩ | ⟨value, hshow, hrich⟩
  · obtain ⟨p, rfl, hp⟩ := hshow.members
    have himage : isImage p = true := isText_eq_true.2 (hp.get_text htype)
    have hcta : isCta p ≠ true := fun h => by
      rw [isImage_of_isCta h] at himage
      cases himage
    refine ⟨⟨fun _ => ?_, fun h => absurd h hcta⟩, fun h => absurd h hcta⟩
    obtain ⟨s, halt, hlength, _⟩ := halt
    rw [properties, Bool.eq_false_iff, ne_eq, isText_eq_true, hp.get_text halt, Option.some.injEq,
      JsValue.string.injEq, js_inj]
    rintro rfl
    exact absurd hlength (by decide)
  · obtain ⟨b, rfl, _, htype, hstyle, _, _, _, defs, hdefs, links, ⟨hlinks, _⟩, children,
      hchildren, _, spans, hspans, hcall⟩ := hrich
    obtain ⟨p, rfl, hp⟩ := hshow.members
    have himage : isImage p ≠ true := by
      rw [isImage, hp.get_text htype]
      decide
    have hbutton : isCta p = true → ∃ label' href, label p = js label' ∧ ctaHref p = js href ∧
        FinishedButton lib (js label') (js href) := by
      intro hcta
      obtain ⟨_, _, link, rfl, _, hlabel, hsize⟩ := hcall (style_of_cta hp hcta hstyle)
      have hrule : HrefRule lib link.href := by
        obtain ⟨_, _, ⟨_, _, _, _, _, _, ⟨_, hrule⟩, _⟩, _, _⟩ :=
          List.forall₂_cons_right_iff.1 hlinks
        exact hrule
      exact ⟨joined spans, link.href, label_of_shows hp hchildren hspans,
        ctaHref_of_shows hp hdefs hlinks, finishedButton_js.2 ⟨hlabel, hrule, hsize⟩⟩
    refine ⟨⟨fun h => absurd h himage, fun hcta => ?_⟩, fun hcta => ?_⟩
    · obtain ⟨_, _, hlabel, haddress, hfinished⟩ := hbutton hcta
      rw [properties, hlabel, haddress]
      exact hfinished
    · obtain ⟨_, href, _, haddress, _⟩ := hbutton hcta
      exact ⟨href, haddress⟩

/-- A block with nothing left to fill in is looked at as it is, but for its address. -/
theorem substituted_of_finished {spt3 : Bool} {s : Substituted}
    (hfinished : Finished lib (properties v)) (h : substituteBlock spt3 v = .ok s) :
    s.1 = v ∨ isCta (properties v) = true ∧ s = substituteHref v := by
  unfold substituteBlock at h
  dsimp only at h
  split at h
  · rename_i himage
    rw [Bool.and_eq_true, Bool.and_eq_true] at himage
    rw [hfinished.image himage.1.2] at himage
    cases himage.2
  · split at h
    · rename_i hcta
      refine .inr ⟨hcta, ?_⟩
      unfold substituteLabel at h
      rw [childTexts_substituteHref] at h
      split at h
      · rename_i text texts htexts
        dsimp only at h
        have hvisible : (text :: texts).flatten.all isBlankUnit = false := by
          obtain ⟨c, hc, hblank⟩ := (hfinished.button hcta).visible
          rw [label_of_childTexts htexts] at hc
          rw [List.all_eq_false]
          exact ⟨c, hc, by simp [hblank]⟩
        rw [hvisible, if_neg Bool.false_ne_true] at h
        exact (Except.ok.inj h).symm
      · exact (Except.ok.inj h).symm
    · cases h
      exact .inl rfl

/-- A finished block whose address is a text stands for the block that was looked at. -/
theorem replaced_of_finished {spt3 : Bool} {s : Substituted} (hv : DistinctNames v)
    (hfinished : Finished lib (properties v))
    (haddress : isCta (properties v) = true → WellFormed (ctaHref (properties v)))
    (h : substituteBlock spt3 v = .ok s) : Replaced lib s.1 v := by
  rcases substituted_of_finished hfinished h with hsame | ⟨hcta, rfl⟩
  · exact .same hsame.symm
  · unfold substituteHref
    split
    · rename_i address hsole
      split
      · obtain ⟨href, hhref⟩ := haddress hcta
        obtain ⟨_, _, _, hsecure, hurl, hbounded⟩ := hfinished.button hcta
        rw [hhref] at hsecure hurl hbounded
        rw [ctaHref_of_soleHref hsole] at hhref
        subst hhref
        rw [byteLength_js] at hbounded
        refine .text ?_ (replaces_setHref hv hcta hsole (hrefRule_iff.2 ⟨hsecure, hurl⟩) hbounded)
        rw [← isCta_setHref placeholder] at hcta
        exact isImage_of_isCta hcta
      · exact .same rfl
    · exact .same rfl

/-- Every string that is the address of a button is a text. -/
def AddressesAreTexts (body : Js) : Prop :=
  ∀ block ∈ blocks (properties body), isCta (properties block) = true →
    WellFormed (ctaHref (properties block))

theorem validateBody_of_finished (hcborg : cborg.Strict) (hv : DistinctNames v)
    (h : validateDraftBody lib cborg v = .ok body)
    (hfinished : ∀ block ∈ blocks (properties body), Finished lib (properties block))
    (haddresses : AddressesAreTexts body) : validateBody lib cborg body = .ok body := by
  obtain ⟨rfl, hsize, p, l, substituted, rfl, hblocks, hsubstituted, haccepted⟩ :=
    (validateDraftBody_eq_ok hcborg hv).1 h
  have hl : blocks (properties (.object p)) = l := by
    rw [properties, blocks, field_of_get hblocks, elements]
  rw [hl] at hfinished
  rw [AddressesAreTexts, hl] at haddresses
  have hdistinct : ∀ block ∈ l, DistinctNames block := fun block hblock =>
    (hv.property hblocks).element hblock
  have hcandidate := distinctNames_candidate hv hblocks hsubstituted
  have hback : withBlocks (withBlocks p (substituted.map Prod.fst)) l = p :=
    mapProperty_back hv.names hblocks
  have hreplaced : List.Forall₂ (Replaced lib)
      (blocks (withBlocks p (substituted.map Prod.fst))) l := by
    rw [blocks_withBlocks hblocks, List.forall₂_map_left_iff]
    refine List.Forall₂.flip (forall₂_imp_mem (fun block hblock s _ hs => ?_) hsubstituted)
    exact replaced_of_finished (hdistinct block hblock) (hfinished block hblock)
      (haddresses block hblock) hs
  have hresult := validateBody_withBlocks hcborg hcandidate (hback.symm ▸ hv) haccepted hreplaced
    (hback.symm ▸ hsize)
  rwa [hback] at hresult

/-- Nothing is reported of an accepted draft exactly when it can be published, unless all that is
wrong with it is an address that is no text. -/
theorem publicationIssues_exact (hcborg : cborg.Strict) (hv : DistinctNames v)
    (h : validateDraftBody lib cborg v = .ok body) :
    (publicationIssues lib body = [] ↔ ∃ accepted, validateBody lib cborg body = .ok accepted) ↔
      ((∀ block ∈ blocks (properties body), Finished lib (properties block)) →
        AddressesAreTexts body) := by
  have hboth : (∃ accepted, validateBody lib cborg body = .ok accepted) ↔
      (∀ block ∈ blocks (properties body), Finished lib (properties block)) ∧
        AddressesAreTexts body := by
    constructor
    · rintro ⟨accepted, haccepted⟩
      obtain ⟨rfl, _⟩ := validateBody_sound haccepted
      have hentries := fun block hblock =>
        finished_of_entry (entry_of_accepted haccepted block hblock)
      exact ⟨fun block hblock => (hentries block hblock).1,
        fun block hblock => (hentries block hblock).2⟩
    · rintro ⟨hfinished, haddresses⟩
      exact ⟨body, validateBody_of_finished hcborg hv h hfinished haddresses⟩
  rw [publicationIssues_eq_nil, hboth]
  tauto

/-- Libraries that parse the addresses of one host. -/
def exampleLibraries : Libraries :=
  { plainLibraries with
    newUrl := fun href =>
      if "https://example.invalid/".toList.isPrefixOf href.toList then some ⟨"https:", "", ""⟩
      else none }

/-- A button with one span. -/
def button (label address : JsString) : Js :=
  .object [(js "_type", .string (js "block")), (js "style", .string (js "cta")),
    (js "children", .array [.object [(js "_type", .string (js "span")), (js "text", .string label),
      (js "marks", .array [.string (js "link")])]]),
    (js "markDefs", .array [.object [(js "_key", .string (js "link")),
      (js "_type", .string (js "spt.link")), (js "href", .string address)]])]

theorem distinctNames_button (label address : JsString) :
    DistinctNames (.object (textBody [button label address])) := by
  have hspan : ["_type", "text", "marks"].map js |>.Nodup := nodup_js (by decide)
  have hlink : ["_key", "_type", "href"].map js |>.Nodup := nodup_js (by decide)
  have hblock : ["_type", "style", "children", "markDefs"].map js |>.Nodup := nodup_js (by decide)
  have hmarks : DistinctNames (.array [.string (js "link")] : Js) := by
    refine .array fun v hv => ?_
    rw [List.mem_singleton.1 hv]
    exact .string _
  have hchildren : DistinctNames (.array [.object [(js "_type", .string (js "span")),
      (js "text", .string label), (js "marks", .array [.string (js "link")])]] : Js) := by
    refine .array fun v hv => ?_
    rw [List.mem_singleton.1 hv]
    refine .object hspan ?_
    simp only [List.forall_mem_cons]
    exact ⟨.string _, .string _, hmarks, List.forall_mem_nil _⟩
  have hdefs : DistinctNames (.array [.object [(js "_key", .string (js "link")),
      (js "_type", .string (js "spt.link")), (js "href", .string address)]] : Js) := by
    refine .array fun v hv => ?_
    rw [List.mem_singleton.1 hv]
    refine .object hlink ?_
    simp only [List.forall_mem_cons]
    exact ⟨.string _, .string _, .string _, List.forall_mem_nil _⟩
  refine .object (nodup_textBody _) ?_
  simp only [textBody, List.forall_mem_cons]
  refine ⟨.number 1, .string _, .array fun v hv => ?_, List.forall_mem_nil _⟩
  rw [List.mem_singleton.1 hv]
  refine .object hblock ?_
  simp only [List.forall_mem_cons]
  exact ⟨.string _, .string _, hchildren, hdefs, List.forall_mem_nil _⟩

theorem validateDraftBody_of_isOk (hcborg : cborg.Strict) (hv : DistinctNames v)
    (h : (validateDraftBody lib cborg v).isOk = true) : validateDraftBody lib cborg v = .ok v := by
  cases hbody : validateDraftBody lib cborg v with
  | error fault =>
    rw [hbody] at h
    cases h
  | ok body => rw [((validateDraftBody_eq_ok hcborg hv).1 hbody).1]

/-- A button without a label is reported, and cannot be published. -/
theorem publicationIssues_blank : publicationIssues exampleLibraries
      (.object (textBody [button (js " ") (js "https://example.invalid/")])) = [] ↔
    ∃ accepted, validateBody exampleLibraries commandLineCborg
      (.object (textBody [button (js " ") (js "https://example.invalid/")])) = .ok accepted := by
  have hv := distinctNames_button (js " ") (js "https://example.invalid/")
  have haccepted := validateDraftBody_of_isOk commandLineCborg_strict hv
    (by decide +kernel : (validateDraftBody exampleLibraries commandLineCborg _).isOk = true)
  refine (publicationIssues_exact commandLineCborg_strict hv haccepted).2 fun _ block hblock _ => ?_
  obtain rfl := List.mem_singleton.1 hblock
  exact ⟨"https://example.invalid/", rfl⟩

/-- Nothing is reported of an address with an unpaired surrogate, which cannot be published. -/
theorem publicationIssues_unpaired :
    ∃ draft, validateDraftBody exampleLibraries commandLineCborg draft = .ok draft ∧
      ¬(publicationIssues exampleLibraries draft = [] ↔
        ∃ accepted, validateBody exampleLibraries commandLineCborg draft = .ok accepted) := by
  refine ⟨.object (textBody [button (js "Go") (js "https://example.invalid/" ++ [0xd800])]),
    validateDraftBody_of_isOk commandLineCborg_strict (distinctNames_button _ _) (by decide +kernel),
    fun h => ?_⟩
  obtain ⟨accepted, haccepted⟩ := h.1 (by decide +kernel)
  have hrefused : (validateBody exampleLibraries commandLineCborg (.object
      (textBody [button (js "Go") (js "https://example.invalid/" ++ [0xd800])]))).isOk = false := by
    decide +kernel
  rw [haccepted] at hrefused
  cases hrefused

end Issues

end HailProto.Content.Builder
