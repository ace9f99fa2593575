import HailProto.Content.Portable

/-!
# Through a bundle and back

A draft that is written as a bundle is read back as it was, up to the order in which the object of
the body and its manifest list their properties. The bundle has a budget of its own, which the keys
stay within.
-/

namespace HailProto.Content.Builder

open Cbor (Value entryItems)
open Codec
open Codec.TypeScript (Cborg diagnosticSize diagnosticEntrySizes encodedSize encodedEntrySizes)
open Server Server.Json

/-! ## The order of a draft -/

section Order

variable {lib : Libraries} {cborg : Cborg} {p c q q' : Properties} {bs cs l : List Js} {body : Js}

theorem distinctNames_perm (h : p.Perm c) (hp : DistinctNames (.object p)) :
    DistinctNames (.object c) := by
  refine .object ((h.map Prod.fst).nodup hp.names) fun m hm => ?_
  exact hp.property ((ownProperty_eq_some hp.names).2 (h.mem_iff.2 hm))

theorem validateBody_perm (hcborg : cborg.Strict) (hp : DistinctNames (.object p)) (hperm : p.Perm c)
    (h : validateBody lib cborg (.object p) = .ok body) :
    validateBody lib cborg (.object c) = .ok (.object c) := by
  obtain ⟨_, hsize, _, ⟨⟩, hcases⟩ := (validateBody_eq_ok hcborg hp).1 h
  have hprofile : getProperty c "profile" = getProperty p "profile" :=
    (ownProperty_perm hperm hp.names (js "profile")).symm
  have hnames : ∀ {allowed : List JsString}, (∀ name ∈ p.map Prod.fst, name ∈ allowed) →
      ∀ name ∈ c.map Prod.fst, name ∈ allowed :=
    fun hall name hname => hall name ((hperm.map Prod.fst).mem_iff.2 hname)
  refine (validateBody_eq_ok hcborg (distinctNames_perm hperm hp)).2
    ⟨rfl, jsonSize_perm hperm ▸ hsize, c, rfl, ?_⟩
  rw [hprofile]
  rcases hcases with ⟨hspt2, hfields, hpayload⟩ | ⟨hspt3, hfields, hpayload⟩
  · exact .inl ⟨hspt2, hnames hfields,
      isPayload_perm (by simp [bodyTypes]) hperm hp.names hpayload⟩
  · exact .inr ⟨hspt3, hnames hfields,
      isPayload_perm (by simp [bodyTypes]) hperm hp.names hpayload⟩

/-- The manifest may list its properties in any order. -/
theorem imagePayload_perm (hq : (q.map Prod.fst).Nodup) (hperm : q.Perm q')
    (h : IsPayload lib .bodySpt3 (.object (imageBody bs (.object q)))) :
    IsPayload lib .bodySpt3 (.object (imageBody bs (.object q'))) := by
  obtain ⟨values, _, hshows, hassets, hdecoded, hsize, ⟨hexact, hattachments, hversion, hprofile⟩,
    assets, ⟨m, hm, hmanifest, hone, entries, hentries, hlist⟩, hroles, blocks, hblocks, himages⟩ :=
    imagePayload_iff.1 h
  cases hm
  obtain ⟨_, heq, hmembers⟩ := shows_map.1 hassets
  cases heq
  obtain ⟨m', hm', hmembers'⟩ := shows_perm hperm hmembers
  have hkeys : (m.map Prod.fst).Nodup := nodup_of_shows hq hmembers
  have hdecoded' : Decoded (.map (imageRecord values (.map m'))) := by
    rw [Decoded, Codec.TypeScript.assertHailValue_eq_ok] at hdecoded ⊢
    simp only [Value.items, Within, encodedSize, imageRecord, entryItems, encodedEntrySizes,
      WithinEntries, List.length_cons, entryItems_perm hm', encodedEntrySizes_perm hm',
      withinEntries_perm hm', hm'.length_eq] at hdecoded ⊢
    exact hdecoded
  have hsize' : diagnosticSize (.map (imageRecord values (.map m'))) ≤ 1048576 := by
    simp only [diagnosticSize, imageRecord, diagnosticEntrySizes, List.length_cons,
      diagnosticEntrySizes_perm hm', hm'.length_eq] at hsize ⊢
    exact hsize
  refine imagePayload_iff.2 ⟨values, .map m', hshows, shows_map.2 ⟨q', rfl, hmembers'⟩, hdecoded',
    hsize', ⟨?_, hattachments, hversion, hprofile⟩, assets, ⟨m', rfl, (exact_perm hm' hkeys _ _).1
      hmanifest, (get_perm hm' hkeys _).symm.trans hone, entries,
      (get_perm hm' hkeys _).symm.trans hentries, hlist⟩, hroles, blocks, hblocks, himages⟩
  simp [Exact, imageRecord, Record.get, Value.isText]

theorem distinctNames_textBody (hbs : ∀ b ∈ bs, DistinctNames b) :
    DistinctNames (.object (textBody bs)) := by
  refine .object (nodup_textBody _) ?_
  simp only [textBody, List.forall_mem_cons]
  exact ⟨.number 1, .string _, .array hbs, List.forall_mem_nil _⟩

theorem distinctNames_imageBody {assets : Js} (hbs : ∀ b ∈ bs, DistinctNames b)
    (hassets : DistinctNames assets) : DistinctNames (.object (imageBody bs assets)) := by
  refine .object (nodup_imageBody _ _) ?_
  simp only [imageBody, List.forall_mem_cons]
  exact ⟨.number 1, .string _, .array hbs, hassets, List.forall_mem_nil _⟩

theorem validateBody_manifest (hcborg : cborg.Strict) (hbs : ∀ b ∈ bs, DistinctNames b)
    (hq : DistinctNames (.object q)) (hperm : q.Perm q')
    (h : validateBody lib cborg (.object (imageBody bs (.object q))) = .ok body) :
    validateBody lib cborg (.object (imageBody bs (.object q'))) =
      .ok (.object (imageBody bs (.object q'))) := by
  have hv := distinctNames_imageBody hbs hq
  have hv' := distinctNames_imageBody hbs (distinctNames_perm hperm hq)
  obtain ⟨_, hsize, _, ⟨⟩, hcases⟩ := (validateBody_eq_ok hcborg hv).1 h
  have hsize' : jsonSize (.object (imageBody bs (.object q'))) ≤ 360000 := by
    simp only [jsonSize, imageBody, memberSizes, memberSizes_perm hperm] at hsize ⊢
    exact hsize
  rcases hcases with ⟨hspt2, _⟩ | ⟨hspt3, hfields, hpayload⟩
  · have hprofile : getProperty (imageBody bs (.object q)) "profile" = some (.string (js "spt-3")) :=
      rfl
    rw [hprofile] at hspt2
    exact absurd hspt2 (by decide)
  · exact (validateBody_eq_ok hcborg hv').2 ⟨rfl, hsize', _, rfl, .inr
      ⟨hspt3, hfields, imagePayload_perm hq.names hperm hpayload⟩⟩

/-- The body in the order in which it is read from a bundle. -/
structure Canonical (p : Properties) (l as : List Js) : Prop where
  blocks : getProperty p "blocks" = some (.array l)
  assets : assetList p = as
  form : (as = [] ∧ p.Perm (textBody l)) ∨
    as ≠ [] ∧ ∃ q, p.Perm (imageBody l (.object q)) ∧ q.Perm (manifest as)

theorem canonical_of_draft (hcborg : cborg.Strict) (hp : DistinctNames (.object p))
    (h : validateDraftBody lib cborg (.object p) = .ok body) : ∃ l as, Canonical p l as := by
  obtain ⟨_, _, _, l, substituted, ⟨⟩, hblocks, hsubstituted, haccepted⟩ :=
    (validateDraftBody_eq_ok hcborg hp).1 h
  have hcandidate := distinctNames_candidate hp hblocks hsubstituted
  have hback : withBlocks (withBlocks p (substituted.map Prod.fst)) l = p :=
    mapProperty_back hp.names hblocks
  obtain ⟨_, _, _, ⟨⟩, hcases⟩ := (validateBody_eq_ok hcborg hcandidate).1 haccepted
  rcases hcases with ⟨_, hnames, hpayload⟩ | ⟨_, hnames, hpayload⟩
  · obtain ⟨cs, hperm⟩ := textBody_of_payload hcandidate hnames hpayload
    have hmoved : (withBlocks (withBlocks p (substituted.map Prod.fst)) l).Perm
        (withBlocks (textBody cs) l) := withBlocks_perm hperm
    rw [hback, withBlocks_textBody] at hmoved
    have hspt2 : getProperty p "profile" = some (.string (js "spt-2")) :=
      ownProperty_perm hmoved hp.names (js "profile")
    have hprofile : isText (getProperty p "profile") "spt-3" ≠ true := by
      rw [hspt2]
      decide
    exact ⟨l, [], hblocks, if_neg hprofile, .inl ⟨rfl, hmoved⟩⟩
  · obtain ⟨cs, q, as, hperm, hmanifest, hne⟩ := imageBody_of_payload hcandidate hnames hpayload
    have hmoved : (withBlocks (withBlocks p (substituted.map Prod.fst)) l).Perm
        (withBlocks (imageBody cs (.object q)) l) := withBlocks_perm hperm
    rw [hback, withBlocks_imageBody] at hmoved
    have hassets : getProperty p "assets" = some (.object q) :=
      ownProperty_perm hmoved hp.names (js "assets")
    have hentries : getProperty q "assets" = some (.array as) :=
      ownProperty_perm hmanifest (hp.property hassets).names (js "assets")
    have hlist : assetList p = as := by
      have hprofile : isText (getProperty p "profile") "spt-3" = true :=
        isText_eq_true.2 (ownProperty_perm hmoved hp.names (js "profile"))
      rw [assetList, if_pos hprofile, field_of_get hassets, properties, field_of_get hentries,
        elements]
    exact ⟨l, as, hblocks, hlist, .inr ⟨hne, q, hmoved, hmanifest⟩⟩

theorem validateDraftBody_perm (hcborg : cborg.Strict) (hp : DistinctNames (.object p))
    (hperm : p.Perm c) (h : validateDraftBody lib cborg (.object p) = .ok body) :
    validateDraftBody lib cborg (.object c) = .ok (.object c) := by
  obtain ⟨_, hsize, _, l, substituted, ⟨⟩, hblocks, hsubstituted, haccepted⟩ :=
    (validateDraftBody_eq_ok hcborg hp).1 h
  have hget : ∀ name, getProperty c name = getProperty p name :=
    fun name => (ownProperty_perm hperm hp.names (js name)).symm
  refine (validateDraftBody_eq_ok hcborg (distinctNames_perm hperm hp)).2 ⟨rfl,
    jsonSize_perm hperm ▸ hsize, c, l, substituted, rfl, (hget "blocks").trans hblocks, ?_,
    validateBody_perm hcborg (distinctNames_candidate hp hblocks hsubstituted)
      (withBlocks_perm hperm) haccepted⟩
  rw [hget "profile"]
  exact hsubstituted

theorem validateDraftBody_manifest (hcborg : cborg.Strict) (hl : ∀ b ∈ l, DistinctNames b)
    (hq : DistinctNames (.object q)) (hperm : q.Perm q')
    (h : validateDraftBody lib cborg (.object (imageBody l (.object q))) = .ok body) :
    validateDraftBody lib cborg (.object (imageBody l (.object q'))) =
      .ok (.object (imageBody l (.object q'))) := by
  have hv := distinctNames_imageBody hl hq
  obtain ⟨_, hsize, _, _, substituted, ⟨⟩, ⟨⟩, hsubstituted, haccepted⟩ :=
    (validateDraftBody_eq_ok hcborg hv).1 h
  have hcandidate : ∀ b ∈ substituted.map Prod.fst, DistinctNames b := by
    intro b hb
    have hall := distinctNames_candidate hv rfl hsubstituted
    rw [withBlocks_imageBody] at hall
    exact (hall.property (rfl : getProperty (imageBody _ _) "blocks" = _)).element hb
  have hsize' : jsonSize (.object (imageBody l (.object q'))) ≤ 360000 := by
    simp only [jsonSize, imageBody, memberSizes, memberSizes_perm hperm] at hsize ⊢
    exact hsize
  rw [withBlocks_imageBody] at haccepted
  refine (validateDraftBody_eq_ok hcborg
    (distinctNames_imageBody hl (distinctNames_perm hperm hq))).2
      ⟨rfl, hsize', _, l, substituted, rfl, rfl, hsubstituted, ?_⟩
  rw [withBlocks_imageBody]
  exact validateBody_manifest hcborg hcandidate hq hperm haccepted

/-- A draft is accepted in the order in which it is read. -/
theorem validateDraftBody_bodyOf {as : List Js} (hcborg : cborg.Strict)
    (hp : DistinctNames (.object p)) (hc : Canonical p l as)
    (h : validateDraftBody lib cborg (.object p) = .ok body) :
    validateDraftBody lib cborg (bodyOf l as) = .ok (bodyOf l as) := by
  rcases hc.form with ⟨rfl, hperm⟩ | ⟨hne, q, hperm, hmanifest⟩
  · exact validateDraftBody_perm hcborg hp hperm h
  · have hl : ∀ b ∈ l, DistinctNames b := fun b hb => (hp.property hc.blocks).element hb
    have hassets : getProperty p "assets" = some (.object q) :=
      ownProperty_perm hperm hp.names (js "assets")
    rw [bodyOf, if_neg (by simpa using hne)]
    exact validateDraftBody_manifest hcborg hl (hp.property hassets) hmanifest
      (validateDraftBody_perm hcborg hp hperm h)

theorem deepEqual_bodyOf {as : List Js} (hp : DistinctNames (.object p)) (hc : Canonical p l as) :
    DeepEqual (bodyOf l as) (.object p) := by
  rcases hc.form with ⟨rfl, hperm⟩ | ⟨hne, q, hperm, hmanifest⟩
  · exact DeepEqual.of_perm hperm hp.names
  · have hassets : getProperty p "assets" = some (.object q) :=
      ownProperty_perm hperm hp.names (js "assets")
    have hq := DeepEqual.of_perm hmanifest (hp.property hassets).names
    have hsame : DeepEqual (.object (imageBody l (.object (manifest as))))
        (.object (imageBody l (.object q))) :=
      .of_forall₂ (.cons ⟨rfl, .refl _⟩ (.cons ⟨rfl, .refl _⟩ (.cons ⟨rfl, .refl _⟩
        (.cons ⟨rfl, hq⟩ .nil))))
    rw [bodyOf, if_neg (by simpa using hne)]
    refine .object fun name => ?_
    rw [ownProperty_perm hperm hp.names name]
    exact hsame.property name

end Order

/-! ## The blocks of a draft -/

section Shapes

variable {lib : Libraries} {cborg : Cborg} {p : Properties} {b : Record} {v : Js} {name : String}
  {f : Js → Js}

theorem hasFields_of_shows {required optional : List String} (h : List.Forall₂ ShowsMember p b)
    (hexact : Exact b required optional) : HasFields p (required ++ optional) := by
  intro key hkey
  rw [names_of_shows h, List.map_map, List.mem_map] at hkey
  obtain ⟨e, he, rfl⟩ := hkey
  obtain ⟨k, hk, hname⟩ := hexact.1 e he
  rw [Function.comp_apply, hname]
  exact List.mem_map_of_mem hk

theorem spanShape_of_shows {keys : List String} {s : Value} {span : Codec.Span} (hv : Shows v s)
    (hs : ReadsSpan keys s span) : ∃ p, v = .object p ∧ SpanShape p := by
  obtain ⟨r, rfl, hexact, htype, htext, _⟩ := hs
  obtain ⟨p, rfl, hp⟩ := shows_map.1 hv
  have hread := members_of_forall₂ hp
  exact ⟨p, rfl, hasFields_of_shows hp hexact, hread.get_text htype, _, hread.get_text htext⟩

theorem linkShape_of_shows {href : String → Prop} {d : Value} {link : Link} (hv : Shows v d)
    (hd : ReadsLink href d link) : ∃ p, v = .object p ∧ LinkShape p := by
  obtain ⟨r, rfl, hexact, _, _, htype, _⟩ := hd
  obtain ⟨p, rfl, hp⟩ := shows_map.1 hv
  exact ⟨p, rfl, hasFields_of_shows hp hexact, (members_of_forall₂ hp).get_text htype⟩

theorem shape_of_entry (h : Entry lib v) : Shape v := by
  rcases h with ⟨value, hshow, _, _, _, b, rfl, htype, hexact, _⟩ | ⟨value, hshow, b, rfl, hexact,
    htype, _, _, _, _, defs, hdefs, links, ⟨hlinks, _⟩, children, hchildren, _, spans, hspans, _⟩
  · obtain ⟨p, rfl, hp⟩ := shows_map.1 hshow
    exact .image p rfl ⟨hasFields_of_shows hp hexact, (members_of_forall₂ hp).get_text htype⟩
  · obtain ⟨p, rfl, hp⟩ := shows_map.1 hshow
    have hread := members_of_forall₂ hp
    obtain ⟨ds, hds, hdshows⟩ := hread.get_array hdefs
    obtain ⟨cs, hcs, hcshows⟩ := hread.get_array hchildren
    refine .text p rfl ⟨(hasFields_of_shows hp hexact).mono (by decide), hread.get_text htype,
      ⟨cs, hcs, fun v hv => ?_⟩, ds, hds, fun v hv => ?_⟩
    · obtain ⟨span, _, s, hshow, hspan⟩ := forall₂_left (forall₂_comp hcshows hspans) hv
      exact spanShape_of_shows hshow hspan
    · obtain ⟨link, _, d, hshow, hlink⟩ := forall₂_left (forall₂_comp hdshows hlinks) hv
      exact linkShape_of_shows hshow hlink

theorem SpanShape.setText (h : SpanShape p) (s : JsString) :
    SpanShape (mapProperty p "text" fun _ => .string s) := by
  obtain ⟨hnames, htype, t, ht⟩ := h
  refine ⟨hnames.mapProperty, ?_, s, ?_⟩
  · rw [getProperty_mapProperty, if_neg (by decide), htype]
  · rw [getProperty_mapProperty, if_pos rfl, ht]
    rfl

theorem LinkShape.setHref (h : LinkShape p) (s : JsString) :
    LinkShape (mapProperty p "href" fun _ => .string s) := by
  refine ⟨h.names.mapProperty, ?_⟩
  rw [getProperty_mapProperty, if_neg (by decide), h.type]

/-- A change of the first element keeps what holds of every element. -/
theorem forall_mapFirst {P : Properties → Prop} {l : List Js} {g : Properties → Properties}
    (hf : ∀ p, f (.object p) = .object (g p)) (hg : ∀ p, P p → P (g p))
    (hl : ∀ v ∈ l, ∃ p, v = .object p ∧ P p) : ∃ l', mapFirst f (.array l) = .array l' ∧
      l'.length = l.length ∧ ∀ v ∈ l', ∃ p, v = .object p ∧ P p := by
  cases l with
  | nil => exact ⟨[], rfl, rfl, List.forall_mem_nil _⟩
  | cons v l =>
    obtain ⟨⟨p, rfl, hp⟩, hrest⟩ := List.forall_mem_cons.1 hl
    exact ⟨f (.object p) :: l, rfl, rfl, List.forall_mem_cons.2 ⟨⟨g p, hf p, hg p hp⟩, hrest⟩⟩

theorem ImageShape.mapProperty (h : ImageShape p) (hname : "_type" ≠ name) :
    ImageShape (mapProperty p name f) := by
  refine ⟨h.names.mapProperty, ?_⟩
  rw [getProperty_mapProperty, if_neg hname, h.type]

theorem TextShape.setAlt (h : TextShape p) (s : JsString) :
    TextShape (mapProperty p "alt" fun _ => .string s) := by
  refine ⟨h.names.mapProperty, ?_, ?_, ?_⟩
  · rw [getProperty_mapProperty, if_neg (by decide), h.type]
  · rw [getProperty_mapProperty, if_neg (by decide)]
    exact h.children
  · rw [getProperty_mapProperty, if_neg (by decide)]
    exact h.links

theorem TextShape.setHref (h : TextShape p) (s : JsString) :
    TextShape (mapProperty p "markDefs" (mapFirst (mapMember "href" fun _ => .string s))) := by
  refine ⟨h.names.mapProperty, ?_, ?_, ?_⟩
  · rw [getProperty_mapProperty, if_neg (by decide), h.type]
  · rw [getProperty_mapProperty, if_neg (by decide)]
    exact h.children
  · obtain ⟨l, hl, hlinks⟩ := h.links
    obtain ⟨l', hl', _, hlinks'⟩ := forall_mapFirst (P := LinkShape)
      (f := mapMember "href" fun _ => .string s) (fun _ => rfl) (fun _ hd => hd.setHref s) hlinks
    refine ⟨l', ?_, hlinks'⟩
    rw [getProperty_mapProperty, if_pos rfl, hl]
    exact congrArg some hl'

theorem TextShape.setText (h : TextShape p) (s : JsString) :
    TextShape (mapProperty p "children" (mapFirst (mapMember "text" fun _ => .string s))) := by
  refine ⟨h.names.mapProperty, ?_, ?_, ?_⟩
  · rw [getProperty_mapProperty, if_neg (by decide), h.type]
  · obtain ⟨l, hl, hspans⟩ := h.children
    obtain ⟨l', hl', _, hspans'⟩ := forall_mapFirst (P := SpanShape)
      (f := mapMember "text" fun _ => .string s) (fun _ => rfl) (fun _ hspan => hspan.setText s)
        hspans
    refine ⟨l', ?_, hspans'⟩
    rw [getProperty_mapProperty, if_pos rfl, hl]
    exact congrArg some hl'
  · rw [getProperty_mapProperty, if_neg (by decide)]
    exact h.links

theorem Shape.setAlt (h : Shape v) (s : JsString) : Shape (setAlt s v) := by
  rcases h with ⟨p, rfl, h⟩ | ⟨p, rfl, h⟩
  · exact .image _ rfl (h.mapProperty (by decide))
  · exact .text _ rfl (h.setAlt s)

theorem Shape.setHref (h : Shape v) (s : JsString) : Shape (setHref s v) := by
  rcases h with ⟨p, rfl, h⟩ | ⟨p, rfl, h⟩
  · exact .image _ rfl (h.mapProperty (by decide))
  · exact .text _ rfl (h.setHref s)

theorem Shape.setText (h : Shape v) (s : JsString) : Shape (setText s v) := by
  rcases h with ⟨p, rfl, h⟩ | ⟨p, rfl, h⟩
  · exact .image _ rfl (h.mapProperty (by decide))
  · exact .text _ rfl (h.setText s)

/-- What holds whatever the description, the address and the label are holds of the block that is
put back. -/
theorem restored_of {P : Js → Prop} (halt : ∀ s u, P u → P (setAlt s u))
    (hhref : ∀ s u, P u → P (setHref s u)) (htext : ∀ s u, P u → P (setText s u))
    {spt3 : Bool} {s : Substituted} (hv : DistinctNames v) (h : substituteBlock spt3 v = .ok s)
    (hs : P s.1) : P v := by
  have hrestores : Restores s v := restores_substituteBlock hv h
  rw [← hrestores]
  have haddress : ∀ {u}, P u → P ((substituteHref v).2.foldl (fun b apply => apply b) u) := by
    intro u hu
    unfold substituteHref
    split
    · split
      · exact hhref _ _ hu
      · exact hu
    · exact hu
  unfold substituteBlock at h
  dsimp only at h
  split at h
  · cases h
    exact halt _ _ hs
  · split at h
    · unfold substituteLabel at h
      split at h
      · dsimp only at h
        split at h
        · split at h
          · cases h
          · cases h
            rw [List.foldl_append]
            exact htext _ _ (haddress hs)
        · cases h
          exact haddress hs
      · cases h
        exact haddress hs
    · cases h
      exact hs

theorem shape_of_draft (hcborg : cborg.Strict) (hp : DistinctNames (.object p))
    {body : Js} (h : validateDraftBody lib cborg (.object p) = .ok body) :
    ∀ block ∈ blocks p, Shape block := by
  obtain ⟨_, _, _, l, substituted, ⟨⟩, hblocks, hsubstituted, haccepted⟩ :=
    (validateDraftBody_eq_ok hcborg hp).1 h
  have hentries := entry_of_accepted haccepted
  rw [properties, blocks_withBlocks hblocks] at hentries
  intro block hblock
  rw [blocks, field_of_get hblocks, elements] at hblock
  obtain ⟨s, hs, hsubstitute⟩ := forall₂_left hsubstituted hblock
  have hshape := shape_of_entry (hentries s.1 (List.mem_map_of_mem hs))
  exact restored_of (fun s _ hu => hu.setAlt s) (fun s _ hu => hu.setHref s)
    (fun s _ hu => hu.setText s) ((hp.property hblocks).element hblock) hsubstitute hshape

end Shapes

/-! ## Sizes -/

section Sizes

variable {p c : Properties} {l l' : List Js} {v w : Js} {name : String} {index : ℕ}

theorem memberSizes_append (p q : Properties) :
    memberSizes (p ++ q) = memberSizes p + memberSizes q := by
  induction p with
  | nil => rw [List.nil_append, memberSizes, zero_add]
  | cons m p ih =>
    rw [List.cons_append, memberSizes, memberSizes, ih]
    omega

/-- Some of the members are no larger than all of them. -/
theorem memberSizes_le (hc : c.Nodup) (hsub : c ⊆ p) : memberSizes c ≤ memberSizes p := by
  have hsublist : ∀ {p q : Properties}, p.Sublist q → memberSizes p ≤ memberSizes q := by
    intro p q h
    induction h with
    | slnil => exact le_rfl
    | cons m _ ih => exact ih.trans (Nat.le_add_left _ _)
    | cons_cons m _ ih => exact Nat.add_le_add_left ih _
  obtain ⟨q, hperm, hq⟩ := List.subperm_of_subset hc hsub
  exact (memberSizes_perm hperm).symm.le.trans (hsublist hq)

theorem mem_of_getProperty (h : getProperty p name = some v) : (js name, v) ∈ p :=
  mem_of_ownProperty h

/-- Another value in the place of a property. -/
theorem memberSizes_mapProperty (hp : (p.map Prod.fst).Nodup) (h : getProperty p name = some v) :
    memberSizes (mapProperty p name fun _ => w) + jsonSize v = memberSizes p + jsonSize w := by
  induction p with
  | nil => cases h
  | cons m p ih =>
    rw [List.map_cons, List.nodup_cons] at hp
    rw [getProperty_eq, ownProperty_cons] at h
    rw [mapProperty, List.map_cons]
    by_cases hname : m.1 = js name
    · rw [if_pos hname] at h
      cases h
      have hrest : p.map (fun m => if m.1 = js name then (m.1, w) else m) = p := by
        refine (List.map_congr_left fun n hn => if_neg fun heq => ?_).trans (List.map_id p)
        exact hp.1 (hname ▸ heq ▸ List.mem_map_of_mem hn)
      rw [if_pos hname, hrest, memberSizes, memberSizes]
      omega
    · rw [if_neg hname] at h
      have hrest := ih hp.2 h
      rw [mapProperty] at hrest
      rw [if_neg hname, memberSizes, memberSizes]
      omega

theorem length_le_elementSizes (l : List Js) : l.length ≤ elementSizes l := by
  induction l with
  | nil => exact le_rfl
  | cons v l ih =>
    rw [List.length_cons, elementSizes]
    omega

theorem jsonSize_le_memberSizes (h : getProperty p name = some v) : jsonSize v ≤ memberSizes p := by
  have hone := memberSizes_le (List.nodup_singleton _)
    (List.cons_subset.2 ⟨mem_of_getProperty h, List.nil_subset p⟩)
  rw [memberSizes] at hone
  omega

theorem isKeyUnit_plain {c : CodeUnit} (h : isKeyUnit c = true) :
    escapeUnit c = [c] ∧ isLead c = false ∧ c < 0x80 := by
  have hall : ∀ n : Fin 128, isKeyUnit (Fin.ofNat 65536 n) = true →
      escapeUnit (Fin.ofNat 65536 n) = [Fin.ofNat 65536 n] ∧
        isLead (Fin.ofNat 65536 n) = false := by
    decide
  have hlow : c.val < 128 := by
    simp only [isKeyUnit, Bool.or_eq_true, decide_eq_true_eq, beq_iff_eq, Fin.ext_iff] at h
    rcases h with (((h | h) | h) | h) | h
    · omega
    · omega
    · omega
    · rw [h]
      decide
    · rw [h]
      decide
  have hc : Fin.ofNat 65536 c.val = c := Fin.ext (Nat.mod_eq_of_lt c.isLt)
  have hplain := hall ⟨c.val, hlow⟩
  dsimp only at hplain
  rw [hc] at hplain
  exact ⟨(hplain h).1, (hplain h).2, hlow⟩

theorem quoteUnits_key {s : JsString} (h : s.all isKeyUnit = true) : quoteUnits s = s := by
  fun_induction quoteUnits s with
  | case1 => rfl
  | case2 c =>
    rw [List.all_cons, Bool.and_eq_true] at h
    exact (isKeyUnit_plain h.1).1
  | case3 c d rest hpair ih =>
    rw [List.all_cons, Bool.and_eq_true] at h
    rw [(isKeyUnit_plain h.1).2.1] at hpair
    cases hpair
  | case4 c d rest hpair ih =>
    rw [List.all_cons, Bool.and_eq_true] at h
    rw [(isKeyUnit_plain h.1).1, ih h.2]
    rfl

/-- A key is quoted as it is. -/
theorem quoteSize_key {s : JsString} (h : s.all isKeyUnit = true) : quoteSize s = s.length + 2 := by
  have hascii : ∀ c ∈ s, c < 0x80 := fun c hc => (isKeyUnit_plain (List.all_eq_true.1 h c hc)).2.2
  rw [quoteSize, quoteString, quoteUnits_key h, byteLength_cons (by decide),
    byteLength_append (wellFormed_ascii hascii), byteLength_ascii hascii,
    byteLength_unit _ (by decide)]
  omega

theorem quoteSize_keyOf {letter : String} (hletter : (js letter).all isKeyUnit = true)
    (hlength : (js letter).length = 1) (h : index < 1000000) :
    quoteSize (keyOf letter index) ≤ 9 := by
  have hdigits := length_digits h
  rw [quoteSize_key (all_keyOf hletter index), keyOf_eq, List.length_append, hlength, js_digits,
    List.length_map]
  omega

/-- The size of a property that is a key. -/
theorem memberSizes_key {letter : String} (hletter : (js letter).all isKeyUnit = true)
    (hlength : (js letter).length = 1) (h : index < 1000000) :
    memberSizes [(js "_key", .string (keyOf letter index))] ≤ 17 := by
  have hname : quoteSize (js "_key") = 6 := by decide
  have hkey := quoteSize_keyOf hletter hlength h
  simp only [memberSizes, jsonSize, hname]
  omega

/-- Two properties are no larger than all of them. -/
theorem memberSizes_two {other : String} (hne : name ≠ other) (hv : getProperty p name = some v)
    (hw : getProperty p other = some w) :
    quoteSize (js name) + jsonSize v + 2 + (quoteSize (js other) + jsonSize w + 2) ≤
      memberSizes p := by
  have hdistinct : (js name, v) ≠ (js other, w) := fun h => hne (js_inj.1 (Prod.ext_iff.1 h).1)
  have htwo : memberSizes [(js name, v), (js other, w)] ≤ memberSizes p := by
    refine memberSizes_le (List.nodup_cons.2 ⟨?_, List.nodup_singleton _⟩) ?_
    · rw [List.mem_singleton]
      exact hdistinct
    · exact List.cons_subset.2 ⟨mem_of_getProperty hv,
        List.cons_subset.2 ⟨mem_of_getProperty hw, List.nil_subset p⟩⟩
  simp only [memberSizes] at htwo
  omega

theorem jsonSize_portableSpan (h : SpanShape p) (hindex : index < 1000000) :
    jsonSize (portableSpan index (.object p)) ≤ 2 * jsonSize (.object p) := by
  obtain ⟨t, ht⟩ := h.text
  have hmembers := memberSizes_two (by decide) h.type ht
  have hnames : quoteSize (js "_type") = 7 ∧ quoteSize (js "span") = 6 ∧
      quoteSize (js "text") = 6 := by
    decide
  have hkey := memberSizes_key (by decide : (js "s").all isKeyUnit = true) (by decide) hindex
  rw [portableSpan_eq h, jsonSize, jsonSize, memberSizes_append]
  simp only [jsonSize, hnames] at hmembers
  omega

theorem elementSizes_portableSpan (hl : ∀ v ∈ l, ∃ span, v = .object span ∧ SpanShape span)
    (hbound : index + l.length ≤ 1000000) :
    elementSizes (mapFrom portableSpan index l) ≤ 2 * elementSizes l := by
  induction l generalizing index with
  | nil => exact le_rfl
  | cons v l ih =>
    obtain ⟨⟨span, rfl, hspan⟩, hrest⟩ := List.forall_mem_cons.1 hl
    rw [List.length_cons] at hbound
    have hone := jsonSize_portableSpan hspan (by omega : index < 1000000)
    have hsizes := ih hrest (by omega : index + 1 + l.length ≤ 1000000)
    rw [mapFrom, elementSizes, elementSizes]
    omega

theorem jsonSize_portableLink (hp : (p.map Prod.fst).Nodup) (h : LinkShape p) :
    jsonSize (portableLink (.object p)) ≤ jsonSize (.object p) := by
  have hsizes := memberSizes_mapProperty (w := .string (js "link")) hp h.type
  have hnames : quoteSize (js "link") = 6 ∧ quoteSize (js "spt.link") = 10 := by decide
  rw [portableLink, properties, setProperty_of_get h.type, jsonSize, jsonSize]
  simp only [jsonSize, hnames] at hsizes
  omega

theorem elementSizes_portableLink (hl : ∀ v ∈ l, ∃ d, v = .object d ∧ LinkShape d)
    (hdistinct : ∀ v ∈ l, DistinctNames v) : elementSizes (l.map portableLink) ≤ elementSizes l := by
  induction l with
  | nil => exact le_rfl
  | cons v l ih =>
    obtain ⟨⟨d, rfl, hd⟩, hrest⟩ := List.forall_mem_cons.1 hl
    obtain ⟨hv, hdistinct'⟩ := List.forall_mem_cons.1 hdistinct
    have hone := jsonSize_portableLink hv.names hd
    have hsizes := ih hrest hdistinct'
    rw [List.map_cons, elementSizes, elementSizes]
    omega

theorem jsonSize_portableEntry (h : Shape v) (hv : DistinctNames v) (hindex : index < 1000000)
    (hsize : (elements (field (properties v) "children")).length ≤ 1000000) :
    jsonSize (portableEntry index v) ≤ 2 * jsonSize v := by
  have hkey := memberSizes_key (by decide : (js "b").all isKeyUnit = true) (by decide) hindex
  have hnames : quoteSize (js "_type") = 7 ∧ quoteSize (js "block") = 7 ∧
      quoteSize (js "children") = 10 ∧ quoteSize (js "spt.image") = 11 ∧
        quoteSize (js "hailImage") = 11 := by
    decide
  rcases h with ⟨p, rfl, h⟩ | ⟨p, rfl, h⟩
  · have hsizes := memberSizes_mapProperty (w := .string (js "hailImage")) hv.names h.type
    have hmember := memberSizes_le (List.nodup_singleton _)
      (List.cons_subset.2 ⟨mem_of_getProperty h.type, List.nil_subset p⟩)
    rw [portableEntry_image h, jsonSize, jsonSize, memberSizes_append]
    simp only [memberSizes, jsonSize, hnames] at hsizes hmember
    omega
  · obtain ⟨children, hchildren, hspans⟩ := h.children
    obtain ⟨defs, hdefs, hlinks⟩ := h.links
    rw [properties, field_of_get hchildren, elements] at hsize
    have hspanSizes := elementSizes_portableSpan hspans (by omega : 0 + children.length ≤ 1000000)
    have hlinkSizes := elementSizes_portableLink hlinks fun d hd => (hv.property hdefs).element hd
    have hmembers := memberSizes_two (by decide) h.type hchildren
    have hfirst := memberSizes_mapProperty (w := .array (mapFrom portableSpan 0 children)) hv.names
      hchildren
    have hkept : getProperty (mapProperty p "children" fun _ =>
        .array (mapFrom portableSpan 0 children)) "markDefs" = some (.array defs) := by
      rw [getProperty_mapProperty, if_neg (by decide), hdefs]
    have hnodup : ((mapProperty p "children" fun _ =>
        .array (mapFrom portableSpan 0 children)).map Prod.fst).Nodup := by
      rw [names_mapProperty]
      exact hv.names
    have hsecond := memberSizes_mapProperty (w := .array (defs.map portableLink)) hnodup hkept
    rw [portableEntry_text h hchildren hdefs, jsonSize, jsonSize, memberSizes_append, withParts]
    simp only [jsonSize, hnames] at hmembers hfirst hsecond
    omega

end Sizes

/-! ## Bundles -/

section Bundles

variable {lib : Libraries} {cborg : Cborg} {p : Properties} {l as entries : List Js} {body : Js}
  {index : ℕ}

/-- A bundle is read when it is within its budget, and its body is a draft. -/
theorem fromPortable_bundle (hkeyed : Keyed "b" 0 entries)
    (hread : List.Forall₂ (fun entry v => ∀ path, readEntry path (properties entry) = .ok v) entries l)
    (hbound : entries.length ≤ 1000000) :
    fromPortable lib cborg true (.object (bundle entries as)) = .ok body ↔
      jsonSize (.object (bundle entries as)) ≤ 1000000 ∧
        validateDraftBody lib cborg (bodyOf l as) = .ok body := by
  have hentries : readEntries [] 0 entries = .ok l :=
    readEntries_eq_ok hkeyed hread (by omega) fun _ _ => List.not_mem_nil
  have hfields : ∀ name ∈ (bundle entries as).map Prod.fst,
      name ∈ ["version", "blocks", "assets"].map js := by
    simp [bundle]
  have hversion : getProperty (bundle entries as) "version" = some (.number 1) := rfl
  have hblocks : getProperty (bundle entries as) "blocks" = some (.array entries) := rfl
  have hassets : getProperty (bundle entries as) "assets" = some (.array as) := rfl
  simp only [fromPortable, bind_eq_ok, budget_eq_ok, bundleBudget, object_eq_ok, fields_eq_ok,
    exists_const, JsValue.object.injEq, exists_eq_left', hversion, hblocks, hassets, hentries,
    ok_bind, if_true]
  exact and_congr_right fun _ => and_iff_right hfields

/-- The bodies of a size that fits have bundles that fit. -/
theorem jsonSize_bundle (hbody : jsonSize (bodyOf l as) ≤ 360000)
    (hentries : elementSizes entries ≤ 2 * elementSizes l) :
    jsonSize (.object (bundle entries as)) ≤ 1000000 := by
  have hnames : quoteSize (js "version") = 9 ∧ quoteSize (js "assets") = 8 ∧
      quoteSize (js "blocks") = 8 := by
    decide
  have hnumber : byteLength (js (toString (1 : ℤ))) = 1 := by decide
  have hparts : elementSizes l + elementSizes as ≤ 360000 := by
    unfold bodyOf at hbody
    split at hbody
    · rename_i hempty
      rw [List.isEmpty_iff.1 hempty]
      simp only [textBody, jsonSize, memberSizes, elementSizes] at hbody ⊢
      omega
    · simp only [imageBody, manifest, jsonSize, memberSizes] at hbody
      omega
  simp only [bundle, jsonSize, memberSizes, hnames, hnumber]
  omega

theorem keyed_portableEntry (hl : ∀ v ∈ l, Shape v) (index : ℕ) :
    Keyed "b" index (mapFrom portableEntry index l) := by
  induction l generalizing index with
  | nil => exact .nil index
  | cons v l ih =>
    obtain ⟨hv, hrest⟩ := List.forall_mem_cons.1 hl
    obtain ⟨p, hp, hkey⟩ := key_portableEntry hv index
    rw [mapFrom, hp]
    exact .cons hkey (ih hrest (index + 1))

theorem length_mapFrom {f : ℕ → Js → Js} : (mapFrom f index l).length = l.length := by
  induction l generalizing index with
  | nil => rfl
  | cons v l ih => rw [mapFrom, List.length_cons, List.length_cons, ih]

/-- A block of a body that fits has few children. -/
theorem length_children {v : Js} (h : Shape v) :
    (elements (field (properties v) "children")).length ≤ jsonSize v := by
  rcases h with ⟨p, rfl, h⟩ | ⟨p, rfl, h⟩
  · have hnone : getProperty p "children" = none := getProperty_of_lacks (h.names.lacks (by decide))
    rw [properties, field_of_none hnone]
    exact Nat.zero_le _
  · obtain ⟨children, hchildren, _⟩ := h.children
    have hlength := length_le_elementSizes children
    have hsize := jsonSize_le_memberSizes hchildren
    rw [properties, field_of_get hchildren, elements, jsonSize]
    rw [jsonSize] at hsize
    omega

theorem read_portableEntry (hl : ∀ v ∈ l, Shape v) (hdistinct : ∀ v ∈ l, DistinctNames v)
    (hsize : elementSizes l ≤ 360000) (index : ℕ) :
    List.Forall₂ (fun entry v => ∀ path, readEntry path (properties entry) = .ok v)
      (mapFrom portableEntry index l) l := by
  induction l generalizing index with
  | nil => exact .nil
  | cons v l ih =>
    obtain ⟨hv, hrest⟩ := List.forall_mem_cons.1 hl
    obtain ⟨hv', hrest'⟩ := List.forall_mem_cons.1 hdistinct
    have hchildren := length_children hv
    rw [elementSizes] at hsize
    exact .cons (fun path => readEntry_portableEntry hv hv' (by omega))
      (ih hrest hrest' (by omega) (index + 1))

theorem elementSizes_portableEntry (hl : ∀ v ∈ l, Shape v) (hdistinct : ∀ v ∈ l, DistinctNames v)
    (hsize : elementSizes l ≤ 360000) (hbound : index + l.length ≤ 1000000) :
    elementSizes (mapFrom portableEntry index l) ≤ 2 * elementSizes l := by
  induction l generalizing index with
  | nil => exact le_rfl
  | cons v l ih =>
    obtain ⟨hv, hrest⟩ := List.forall_mem_cons.1 hl
    obtain ⟨hv', hrest'⟩ := List.forall_mem_cons.1 hdistinct
    rw [List.length_cons] at hbound
    rw [elementSizes] at hsize
    have hchildren := length_children hv
    have hone := jsonSize_portableEntry hv hv' (by omega : index < 1000000) (by omega)
    have hsizes := ih hrest hrest' (by omega) (by omega : index + 1 + l.length ≤ 1000000)
    rw [mapFrom, elementSizes, elementSizes]
    omega

/-- The blocks of a body that fits fit. -/
theorem elementSizes_le (hbody : jsonSize (bodyOf l as) ≤ 360000) : elementSizes l ≤ 360000 := by
  unfold bodyOf at hbody
  split at hbody
  · simp only [textBody, jsonSize, memberSizes] at hbody
    omega
  · simp only [imageBody, jsonSize, memberSizes] at hbody
    omega

theorem size_of_draft {v : Js} (h : validateDraftBody lib cborg v = .ok body) :
    jsonSize v ≤ 360000 := by
  simp only [validateDraftBody, bind_eq_ok, budget_eq_ok, bodyBudget, exists_const] at h
  exact h.1

/-- A draft that is written as a bundle is read back. -/
theorem fromPortable_toPortable (hcborg : cborg.Strict) (hp : DistinctNames (.object p))
    (h : validateDraftBody lib cborg (.object p) = .ok body) : ∃ bundle result,
      toPortable lib cborg (.object p) = .ok bundle ∧
        fromPortable lib cborg true bundle = .ok result ∧ DeepEqual result (.object p) := by
  obtain ⟨l, as, hc⟩ := canonical_of_draft hcborg hp h
  have haccepted := validateDraftBody_bodyOf hcborg hp hc h
  obtain rfl := ((validateDraftBody_eq_ok hcborg hp).1 h).1
  have hblocks : blocks p = l := by rw [blocks, field_of_get hc.blocks, elements]
  have hshapes := shape_of_draft hcborg hp h
  rw [hblocks] at hshapes
  have hdistinct : ∀ v ∈ l, DistinctNames v := fun v hv => (hp.property hc.blocks).element hv
  have hbody : jsonSize (bodyOf l as) ≤ 360000 := size_of_draft haccepted
  have hsize := elementSizes_le hbody
  have hlength := length_le_elementSizes l
  have hbundle : toPortable lib cborg (.object p) =
      .ok (.object (bundle (mapFrom portableEntry 0 l) as)) := by
    rw [toPortable, h, ok_bind, properties, hblocks, hc.assets]
  have hsizes := elementSizes_portableEntry hshapes hdistinct hsize (by omega : 0 + l.length ≤ 1000000)
  refine ⟨_, bodyOf l as, hbundle, (fromPortable_bundle (keyed_portableEntry hshapes 0)
    (read_portableEntry hshapes hdistinct hsize 0) ?_).2
      ⟨jsonSize_bundle hbody hsizes, haccepted⟩, deepEqual_bodyOf hp hc⟩
  rw [length_mapFrom]
  omega

end Bundles

end HailProto.Content.Builder
