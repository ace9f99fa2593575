import HailProto.Codec.BodySchema

/-!
# The images of a body

The third profile takes its image blocks out of the list of blocks, looks each up among the
assets of the manifest and adds up pixels as it goes. TypeScript looks into the records of the
manifest and Go into a map of structures; since no two assets of a manifest have one identifier
both find the same asset, and since every image is small no sum is rounded or wraps around.
-/

namespace HailProto

theorem Table.rows_length_insert {κ ρ : Type} [DecidableEq κ] {t : Table κ ρ} {key : κ} {row : ρ}
    (h : t.find key = none) : (t.insert key row).rows.length = t.rows.length + 1 := by
  have hkey : key ∉ t.entries := AList.lookup_eq_none.1 h
  simp only [rows, insert, AList.entries_insert_of_notMem hkey, List.length_map,
    List.length_cons]

end HailProto

namespace HailProto.Codec

open Cbor (Value asBytes)

/-- One more image. -/
def ImageTotals.add (totals : ImageTotals) (asset : BundledImageAsset) : ImageTotals :=
  ⟨totals.used.insert asset.id, totals.imageCount + 1,
    totals.pixels + asset.width * asset.height⟩

/-- The totals of at most eight images of two million pixels. -/
def ImageTotals.Bounded (totals : ImageTotals) : Prop :=
  0 ≤ totals.pixels ∧ totals.pixels ≤ 2000000 * totals.imageCount ∧ totals.imageCount ≤ 8

/-- The assets of one manifest: small images under distinct identifiers. -/
structure Gallery (assets : List BundledImageAsset) : Prop where
  unique : (assets.map BundledImageAsset.id).Nodup
  pixels : ∀ asset ∈ assets,
    0 ≤ asset.width * asset.height ∧ asset.width * asset.height ≤ 2000000

theorem UniqueAssets.nodup {ids roles : List String} {assets : List BundledImageAsset}
    (h : UniqueAssets ids roles assets) :
    (assets.map BundledImageAsset.id).Nodup ∧ ∀ asset ∈ assets, asset.id ∉ ids := by
  induction assets generalizing ids roles with
  | nil => exact ⟨List.nodup_nil, by simp⟩
  | cons asset assets ih =>
    obtain ⟨hnodup, hids⟩ := ih h.2
    rw [List.map_cons, List.nodup_cons, List.forall_mem_cons]
    refine ⟨⟨?_, hnodup⟩, h.1.1, fun a ha hmem => hids a ha (List.mem_cons_of_mem _ hmem)⟩
    intro hmem
    obtain ⟨a, ha, hid⟩ := List.mem_map.1 hmem
    apply hids a ha
    rw [hid]
    exact List.mem_cons_self

theorem ManifestSchema.gallery {lib : Libraries} {v : Option Value}
    {assets : List BundledImageAsset} (h : ManifestSchema lib v assets) : Gallery assets := by
  obtain ⟨m, _, _, _, entries, _, _, hreads, hunique, hvalid⟩ := h
  refine ⟨hunique.nodup.1, fun asset hasset => ?_⟩
  obtain ⟨_, _, _, _, _, _, _, _, ⟨w, h, _, hw, hh⟩, _, _, hpixels⟩ := hvalid asset hasset
  refine ⟨?_, hpixels.trans ?_⟩
  · rw [hw, hh]
    positivity
  · unfold TypeScript.maximum
    split <;> norm_num

theorem Gallery.eq_of_id {assets : List BundledImageAsset} (h : Gallery assets)
    {a b : BundledImageAsset} (ha : a ∈ assets) (hb : b ∈ assets) (hid : a.id = b.id) : a = b :=
  List.inj_on_of_nodup_map h.unique ha hb hid

section Lookup

variable {lib : Libraries} {assets : List BundledImageAsset} {records : List Record}
  {id : String}

/-- The records of the manifest that was read as these assets. -/
theorem TypeScript.asRecords_reads {entries : List Value}
    (h : List.Forall₂ ReadsAsset entries assets) :
    List.Forall₂ (fun r asset => ReadsAsset (.map r) asset)
      (asRecords (some (.array entries))) assets := by
  unfold asRecords
  induction h with
  | nil => exact .nil
  | cons hentry _ ih =>
    obtain ⟨r, rfl, hr⟩ := hentry
    exact .cons ⟨r, rfl, hr⟩ ih

/-- The record found under an identifier reads as the asset with this identifier. -/
theorem TypeScript.find_asset (id : String)
    (hreads : List.Forall₂ (fun r asset => ReadsAsset (.map r) asset) records assets) :
    (∃ r asset, records.find? (fun r => strictEqual (r.get "id") (some (.text id))) = some r ∧
        ReadsAsset (.map r) asset ∧ asset ∈ assets ∧ asset.id = id) ∨
      records.find? (fun r => strictEqual (r.get "id") (some (.text id))) = none ∧
        ∀ asset ∈ assets, asset.id ≠ id := by
  induction hreads with
  | nil => exact .inr ⟨rfl, by simp⟩
  | @cons r asset records assets hr _ ih =>
    have hid : strictEqual (r.get "id") (some (.text id)) = true ↔ asset.id = id := by
      obtain ⟨r', hr', _, hid, _⟩ := hr
      cases hr'
      rw [strictEqual_text, hid, Option.some.injEq, Value.text.injEq]
    by_cases h : asset.id = id
    · refine .inl ⟨r, asset, ?_, hr, List.mem_cons_self, h⟩
      simp only [List.find?_cons, hid.2 h]
    · simp only [List.find?_cons, Bool.eq_false_iff.2 fun hr => h (hid.1 hr)]
      obtain ⟨r', a, hfind, ha, hmem, haid⟩ | ⟨hfind, hall⟩ := ih
      · exact .inl ⟨r', a, hfind, ha, List.mem_cons_of_mem asset hmem, haid⟩
      · refine .inr ⟨hfind, ?_⟩
        rw [List.forall_mem_cons]
        exact ⟨h, hall⟩

theorem Go.assetMap_eq_ok {t table : Table String BundledImageAsset} :
    assetMap t assets = .ok table ↔ (∀ asset ∈ assets, asset.role ∈ ["header", "image"]) ∧
      table = assets.foldl (fun t asset => t.insert asset.id asset) t := by
  induction assets generalizing t with
  | nil =>
    simp only [assetMap, Except.ok.injEq, List.not_mem_nil, false_implies, implies_true,
      List.foldl_nil, true_and]
    exact eq_comm
  | cons asset assets ih =>
    simp only [assetMap, guard_eq_ok, ih, List.forall_mem_cons, List.foldl_cons, Bool.and_eq_true,
      bne_iff_ne, ne_eq, not_and_or, not_not, and_assoc]
    simp only [List.mem_cons, List.not_mem_nil, or_false]

theorem find_foldl_insert {t : Table String BundledImageAsset} {asset : BundledImageAsset}
    (hunique : (assets.map BundledImageAsset.id).Nodup) :
    (assets.foldl (fun t asset => t.insert asset.id asset) t).find id = some asset ↔
      asset ∈ assets ∧ asset.id = id ∨
        id ∉ assets.map BundledImageAsset.id ∧ t.find id = some asset := by
  induction assets generalizing t with
  | nil => simp
  | cons first assets ih =>
    rw [List.map_cons, List.nodup_cons] at hunique
    rw [List.foldl_cons, ih hunique.2, Table.find_insert, List.map_cons]
    simp only [List.mem_cons, not_or]
    by_cases hid : id = first.id
    · subst hid
      rw [if_pos rfl, Option.some.injEq]
      constructor
      · rintro (h | ⟨_, rfl⟩)
        · exact .inl ⟨.inr h.1, h.2⟩
        · exact .inl ⟨.inl rfl, rfl⟩
      · rintro (⟨rfl | h, hid⟩ | ⟨⟨h, _⟩, _⟩)
        · exact .inr ⟨hunique.1, rfl⟩
        · exact .inl ⟨h, hid⟩
        · exact absurd rfl h
    · rw [if_neg hid]
      constructor
      · rintro (h | h)
        · exact .inl ⟨.inr h.1, h.2⟩
        · exact .inr ⟨⟨hid, h.1⟩, h.2⟩
      · rintro (⟨rfl | h, hid'⟩ | h)
        · exact absurd hid'.symm hid
        · exact .inl ⟨h, hid'⟩
        · exact .inr ⟨h.1.2, h.2⟩

theorem rows_foldl_insert {t : Table String BundledImageAsset}
    (hunique : (assets.map BundledImageAsset.id).Nodup)
    (hnew : ∀ asset ∈ assets, t.find asset.id = none) :
    (assets.foldl (fun t asset => t.insert asset.id asset) t).rows.length =
      t.rows.length + assets.length := by
  induction assets generalizing t with
  | nil => rfl
  | cons first assets ih =>
    rw [List.map_cons, List.nodup_cons] at hunique
    rw [List.forall_mem_cons] at hnew
    rw [List.foldl_cons, ih hunique.2, Table.rows_length_insert hnew.1, List.length_cons]
    · omega
    · intro asset hasset
      rw [Table.find_insert_of_ne]
      · exact hnew.2 asset hasset
      · intro hid
        exact hunique.1 (List.mem_map.2 ⟨asset, hasset, hid⟩)

end Lookup

section Images

variable {lib : Libraries} {assets : List BundledImageAsset} {position : Nat} {v : Value}
  {totals totals' : ImageTotals}

theorem ImageTotals.Bounded.add (h : totals.Bounded) (hcount : totals.imageCount < 8)
    {asset : BundledImageAsset} (hgallery : Gallery assets) (hasset : asset ∈ assets) :
    (totals.add asset).Bounded := by
  obtain ⟨hnonneg, hle, _⟩ := h
  have hpixels := hgallery.pixels asset hasset
  refine ⟨?_, ?_, ?_⟩ <;> simp only [ImageTotals.add] <;> push_cast <;> omega

theorem TypeScript.add_exact (h : totals.Bounded) (hgallery : Gallery assets)
    {asset : BundledImageAsset} (hasset : asset ∈ assets) :
    number (totals.pixels + number (asset.width * asset.height)) =
      totals.pixels + asset.width * asset.height := by
  obtain ⟨hnonneg, hle, hcount⟩ := h
  have hpixels := hgallery.pixels asset hasset
  rw [number_of_le (n := asset.width * asset.height) (by omega), number_of_le (by omega)]

theorem Go.add_exact (h : totals.Bounded) (hgallery : Gallery assets)
    {asset : BundledImageAsset} (hasset : asset ∈ assets) :
    int64 (totals.pixels + int64 (asset.width * asset.height)) =
      totals.pixels + asset.width * asset.height := by
  obtain ⟨hnonneg, hle, hcount⟩ := h
  have hpixels := hgallery.pixels asset hasset
  rw [int64_of_lt (n := asset.width * asset.height) (by omega), int64_of_lt (by omega)]

theorem TypeScript.caption_eq_ok {caption : Option Value} {path : String} {u : Unit} :
    (optional caption fun caption => profileText lib caption 1 1024 path) = .ok u ↔
      caption = none ∨ IsProfileText lib 1 1024 caption :=
  optional_eq_ok fun _ => profileText_eq_ok

theorem Go.caption_eq_ok {m : Record} {k path : String} {u : Unit} :
    (optional m k fun caption => profileText lib caption 1 1024 path) = .ok u ↔
      m.get k = none ∨ IsProfileText lib 1 1024 (m.get k) :=
  optional_eq_ok fun _ => profileText_eq_ok

theorem TypeScript.imageBlock_eq_text {records : List Record} :
    imageBlock lib records position totals v = .ok none ↔ TextEntry v := by
  simp only [imageBlock, TextEntry, bind_eq_ok, record_eq_ok, Option.some.injEq]
  refine exists_congr fun b => and_congr_right fun _ => ?_
  cases himage : strictEqual (b.get "_type") (some (.text "spt.image")) with
  | true =>
    rw [strictEqual_text] at himage
    simp only [himage, Bool.not_true, Bool.false_eq_true, if_false, ne_eq, not_true_eq_false,
      iff_false, bind_eq_ok, not_exists, not_and]
    intro _ _ _ _ id _ h
    split at h
    · cases h
    · simp only [bind_eq_ok, Except.ok.injEq, reduceCtorEq, and_false, exists_false] at h
  | false =>
    have hnot : b.get "_type" ≠ some (.text "spt.image") := fun h => by
      rw [strictEqual_text.2 h] at himage
      cases himage
    simp only [Bool.not_false, if_true, hnot, ne_eq, not_false_eq_true]

theorem Go.imageBlock_eq_text {table : Table String BundledImageAsset} :
    imageBlock lib table position totals v = .ok none ↔ TextEntry v := by
  simp only [imageBlock, TextEntry, bind_eq_ok, mapValue_eq_ok]
  refine exists_congr fun b => and_congr_right fun _ => ?_
  cases himage : interfaceEqual (index b "_type") (.text "spt.image") with
  | true =>
    rw [interfaceEqual_text, index_eq_text] at himage
    simp only [himage, Bool.not_true, Bool.false_eq_true, if_false, ne_eq, not_true_eq_false,
      iff_false, bind_eq_ok, not_exists, not_and]
    intro _ _ _ _ h
    split at h
    · split at h
      · simp only [bind_eq_ok, Except.ok.injEq, reduceCtorEq, and_false, exists_false] at h
      · cases h
    · cases h
  | false =>
    have hnot : b.get "_type" ≠ some (.text "spt.image") := fun h => by
      rw [interfaceEqual_text.2 (index_eq_text.2 h)] at himage
      cases himage
    simp only [Bool.not_false, if_true, hnot, ne_eq, not_false_eq_true]

/-- A header comes first: what the guard of TypeScript refuses. -/
theorem TypeScript.header_eq_false {r : Record} {role : String}
    (hrole : r.get "role" = some (.text role)) :
    (strictEqual (r.get "role") (some (.text "header")) && position != 0) = false ↔
      (role = "header" → position = 0) := by
  rw [Bool.and_eq_false_imp, strictEqual_text, hrole, Option.some.injEq, Value.text.injEq,
    bne_eq_false_iff_eq]

theorem Go.header_eq_false {role : String} :
    (role == "header" && position != 0) = false ↔ (role = "header" → position = 0) := by
  rw [Bool.and_eq_false_imp, beq_iff_eq, bne_eq_false_iff_eq]

theorem TypeScript.imageBlock_eq_image {records : List Record} (hgallery : Gallery assets)
    (hreads : List.Forall₂ (fun r asset => ReadsAsset (.map r) asset) records assets)
    (htotals : totals.Bounded) :
    imageBlock lib records position totals v = .ok (some totals') ↔
      ∃ asset, ImageEntry lib assets position v asset ∧ totals.imageCount < 8 ∧
        totals' = totals.add asset := by
  simp only [imageBlock, ImageEntry, bind_eq_ok, record_eq_ok, Option.some.injEq]
  constructor
  · rintro ⟨b, rfl, h⟩
    split at h
    · cases h
    · rename_i himage
      simp only [Bool.not_eq_true', Bool.not_eq_false, strictEqual_text] at himage
      simp only [bind_eq_ok, failIf_eq_ok, decide_eq_false_iff_not, not_lt, exactKeys_eq_ok,
        text_eq_ok, exists_const] at h
      obtain ⟨hcount, hexact, id, hid, h⟩ := h
      obtain ⟨r, asset, hfind, hr, hasset, rfl⟩ | ⟨hfind, _⟩ := find_asset id hreads
      · obtain ⟨_, hr', _, _, hrole, _, _, _, hwidth, hheight, _⟩ := hr
        cases hr'
        simp only [hfind, bind_eq_ok, failIf_eq_ok, profileText_eq_ok, caption_eq_ok,
          header_eq_false hrole, exists_const, Except.ok.injEq, Option.some.injEq] at h
        obtain ⟨hheader, halt, hcaption, rfl⟩ := h
        refine ⟨asset, ⟨b, rfl, himage, hexact, ⟨hid, hasset⟩, hheader, halt, hcaption⟩,
          by omega, ?_⟩
        rw [hwidth.1, hheight.1, asNumber, asNumber, add_exact htotals hgallery hasset]
        rfl
      · rw [hfind] at h
        cases h
  · rintro ⟨asset, ⟨b, rfl, himage, hexact, ⟨hid, hasset⟩, hheader, halt, hcaption⟩, hcount, rfl⟩
    refine ⟨b, rfl, ?_⟩
    rw [if_neg (by simp [himage])]
    simp only [bind_eq_ok, failIf_eq_ok, decide_eq_false_iff_not, not_lt, exactKeys_eq_ok,
      text_eq_ok, exists_const]
    refine ⟨by omega, hexact, asset.id, hid, ?_⟩
    obtain ⟨r, other, hfind, hr, hother, hsame⟩ | ⟨_, hall⟩ := find_asset asset.id hreads
    · have heq := hgallery.eq_of_id hother hasset hsame
      subst heq
      obtain ⟨_, hr', _, _, hrole, _, _, _, hwidth, hheight, _⟩ := hr
      cases hr'
      simp only [hfind, bind_eq_ok, failIf_eq_ok, profileText_eq_ok, caption_eq_ok,
        header_eq_false hrole, exists_const, Except.ok.injEq, Option.some.injEq]
      refine ⟨hheader, halt, hcaption, ?_⟩
      rw [hwidth.1, hheight.1, asNumber, asNumber, add_exact htotals hgallery hasset]
      rfl
    · exact absurd rfl (hall asset hasset)

/-- The map of the assets finds each under its identifier. -/
theorem Go.imageBlock_eq_image {table : Table String BundledImageAsset}
    (hgallery : Gallery assets)
    (hfind : ∀ id asset, table.find id = some asset ↔ asset ∈ assets ∧ asset.id = id)
    (htotals : totals.Bounded) :
    imageBlock lib table position totals v = .ok (some totals') ↔
      ∃ asset, ImageEntry lib assets position v asset ∧ totals.imageCount < 8 ∧
        totals' = totals.add asset := by
  simp only [imageBlock, ImageEntry, bind_eq_ok, mapValue_eq_ok]
  constructor
  · rintro ⟨b, rfl, h⟩
    split at h
    · cases h
    · rename_i himage
      simp only [Bool.not_eq_true', Bool.not_eq_false, interfaceEqual_text, index_eq_text] at himage
      simp only [bind_eq_ok, errorIf_eq_ok, decide_eq_false_iff_not, not_lt, exact_eq_ok,
        exists_const] at h
      obtain ⟨hcount, hexact, h⟩ := h
      split at h
      · rename_i id hid
        rw [index_eq_text] at hid
        split at h
        · rename_i asset hasset
          obtain ⟨hmem, rfl⟩ := (hfind id asset).1 hasset
          simp only [bind_eq_ok, errorIf_eq_ok, header_eq_false, profileText_eq_ok, caption_eq_ok,
            exists_const, Except.ok.injEq, Option.some.injEq] at h
          obtain ⟨hheader, halt, hcaption, rfl⟩ := h
          refine ⟨asset, ⟨b, rfl, himage, hexact, ⟨hid, hmem⟩, hheader, halt, hcaption⟩,
            by omega, ?_⟩
          rw [add_exact htotals hgallery hmem]
          rfl
        · cases h
      · cases h
  · rintro ⟨asset, ⟨b, rfl, himage, hexact, ⟨hid, hasset⟩, hheader, halt, hcaption⟩, hcount, rfl⟩
    refine ⟨b, rfl, ?_⟩
    rw [if_neg (by simp [himage])]
    simp only [bind_eq_ok, errorIf_eq_ok, decide_eq_false_iff_not, not_lt, exact_eq_ok,
      exists_const]
    refine ⟨by omega, hexact, ?_⟩
    rw [index_eq_text.2 hid]
    simp only [(hfind asset.id asset).2 ⟨hasset, rfl⟩, bind_eq_ok, errorIf_eq_ok,
      header_eq_false, profileText_eq_ok, caption_eq_ok, exists_const, Except.ok.injEq,
      Option.some.injEq]
    refine ⟨hheader, halt, hcaption, ?_⟩
    rw [add_exact htotals hgallery hasset]
    rfl

/-- The loop over the blocks shows images and keeps texts. -/
theorem filterEntries_eq_ok {ε : Type} {take : Nat → ImageTotals → Value →
      Except ε (Option ImageTotals)} {blocks texts : List Value} (hgallery : Gallery assets)
    (htext : ∀ position totals v, take position totals v = .ok none ↔ TextEntry v)
    (himage : ∀ position totals v totals', totals.Bounded →
      (take position totals v = .ok (some totals') ↔
        ∃ asset, ImageEntry lib assets position v asset ∧ totals.imageCount < 8 ∧
          totals' = totals.add asset)) (htotals : totals.Bounded) :
    filterEntries take position totals blocks = .ok (totals', texts) ↔
      ∃ images, ImageBlocks lib assets position blocks images texts ∧
        totals.imageCount + images.length ≤ 8 ∧ totals' = images.foldl ImageTotals.add totals := by
  induction blocks generalizing position totals texts with
  | nil =>
    simp only [filterEntries, Except.ok.injEq, Prod.mk.injEq]
    constructor
    · rintro ⟨rfl, rfl⟩
      exact ⟨[], .nil position, htotals.2.2, rfl⟩
    · rintro ⟨images, himages, _, rfl⟩
      cases himages
      exact ⟨rfl, rfl⟩
  | cons v blocks ih =>
    rw [filterEntries, bind_eq_ok]
    constructor
    · rintro ⟨taken, htake, h⟩
      cases taken with
      | none =>
        simp only [bind_eq_ok, Except.ok.injEq, Prod.mk.injEq, Prod.exists] at h
        obtain ⟨last, kept, hrest, rfl, rfl⟩ := h
        obtain ⟨images, himages, hcount, rfl⟩ := (ih htotals).1 hrest
        exact ⟨images, .text ((htext _ _ _).1 htake) himages, hcount, rfl⟩
      | some next =>
        obtain ⟨asset, hentry, hcount, rfl⟩ := (himage _ _ _ _ htotals).1 htake
        obtain ⟨_, _, _, _, ⟨_, hasset⟩, _⟩ := id hentry
        obtain ⟨images, himages, hle, rfl⟩ := (ih (htotals.add hcount hgallery hasset)).1 h
        refine ⟨asset :: images, .image hentry himages, ?_, rfl⟩
        simp only [ImageTotals.add] at hle
        rw [List.length_cons]
        omega
    · rintro ⟨images, himages, hle, rfl⟩
      cases himages with
      | text hentry hrest =>
        refine ⟨none, (htext _ _ _).2 hentry, ?_⟩
        simp only [bind_eq_ok, Except.ok.injEq, Prod.mk.injEq, Prod.exists]
        exact ⟨_, _, (ih htotals).2 ⟨images, hrest, hle, rfl⟩, rfl, rfl⟩
      | @image _ _ _ _ asset images hentry hrest =>
        rw [List.length_cons] at hle
        obtain ⟨_, _, _, _, ⟨_, hasset⟩, _⟩ := id hentry
        refine ⟨some (totals.add asset), (himage _ _ _ _ htotals).2
          ⟨asset, hentry, by omega, rfl⟩, ?_⟩
        refine (ih (htotals.add (by omega) hgallery hasset)).2 ⟨images, hrest, ?_, rfl⟩
        simp only [ImageTotals.add]
        omega

end Images

section Budget

variable {lib : Libraries} {assets images : List BundledImageAsset} {totals : ImageTotals}

theorem foldl_add_imageCount :
    (images.foldl ImageTotals.add totals).imageCount = totals.imageCount + images.length := by
  induction images generalizing totals with
  | nil => rfl
  | cons image images ih =>
    rw [List.foldl_cons, ih, List.length_cons]
    simp only [ImageTotals.add]
    omega

theorem foldl_add_pixels :
    (images.foldl ImageTotals.add totals).pixels =
      totals.pixels + (images.map fun asset => asset.width * asset.height).sum := by
  induction images generalizing totals with
  | nil => simp
  | cons image images ih =>
    rw [List.foldl_cons, ih, List.map_cons, List.sum_cons]
    simp only [ImageTotals.add]
    omega

theorem foldl_add_used (totals : ImageTotals) (images : List BundledImageAsset)
    (hused : totals.used.Nodup) :
    (images.foldl ImageTotals.add totals).used.Nodup ∧
      ∀ id, id ∈ (images.foldl ImageTotals.add totals).used ↔
        id ∈ totals.used ∨ id ∈ images.map BundledImageAsset.id := by
  induction images generalizing totals with
  | nil => exact ⟨hused, by simp⟩
  | cons image images ih =>
    obtain ⟨hnodup, hmem⟩ := ih (totals.add image) hused.insert
    refine ⟨hnodup, fun id => ?_⟩
    rw [List.foldl_cons, hmem, List.map_cons, List.mem_cons]
    simp only [ImageTotals.add, List.mem_insert_iff]
    tauto

theorem ImageBlocks.subset {position : Nat} {blocks texts : List Value}
    (h : ImageBlocks lib assets position blocks images texts) : images ⊆ assets := by
  induction h with
  | nil => exact List.nil_subset _
  | image hentry _ ih =>
    obtain ⟨_, _, _, _, ⟨_, hasset⟩, _⟩ := hentry
    exact List.cons_subset.2 ⟨hasset, ih⟩
  | text _ _ ih => exact ih

/-- The counters at the end of the loop say whether the images keep to the budget. -/
theorem budget_iff (hgallery : Gallery assets) (hsubset : images ⊆ assets)
    (hcount : images.length ≤ 8) :
    ((images.foldl ImageTotals.add ⟨[], 0, 0⟩).imageCount ≠ 0 ∧
        (images.foldl ImageTotals.add ⟨[], 0, 0⟩).used.length = assets.length) ∧
      (images.foldl ImageTotals.add ⟨[], 0, 0⟩).pixels ≤ 8000000 ↔ ImageBudget assets images := by
  obtain ⟨hnodup, hmem⟩ := foldl_add_used ⟨[], 0, 0⟩ images List.nodup_nil
  have hids : (images.foldl ImageTotals.add ⟨[], 0, 0⟩).used ⊆ assets.map BundledImageAsset.id := by
    intro id hid
    obtain h | h := (hmem id).1 hid
    · cases h
    · exact List.map_subset _ hsubset h
  have hused : (images.foldl ImageTotals.add ⟨[], 0, 0⟩).used.length = assets.length ↔
      ∀ asset ∈ assets, asset ∈ images := by
    have hlength : (assets.map BundledImageAsset.id).length = assets.length := List.length_map _
    rw [← hlength]
    constructor
    · intro hlength asset hasset
      have hperm := (hnodup.subperm hids).perm_of_length_le hlength.ge
      have hid := hperm.symm.subset (List.mem_map_of_mem hasset)
      obtain h | h := (hmem _).1 hid
      · cases h
      · obtain ⟨image, himage, hsame⟩ := List.mem_map.1 h
        rw [← hgallery.eq_of_id (hsubset himage) hasset hsame]
        exact himage
    · intro hall
      refine le_antisymm (hnodup.subperm hids).length_le (hgallery.unique.subperm ?_).length_le
      intro id hid
      obtain ⟨asset, hasset, rfl⟩ := List.mem_map.1 hid
      exact (hmem _).2 (.inr (List.mem_map_of_mem (hall asset hasset)))
  rw [hused, foldl_add_imageCount, foldl_add_pixels]
  simp only [ImageBudget, zero_add]
  constructor
  · rintro ⟨⟨hpos, hall⟩, hpixels⟩
    exact ⟨⟨by omega, hcount⟩, hall, by omega⟩
  · rintro ⟨⟨hpos, _⟩, hall, hpixels⟩
    exact ⟨⟨by omega, hall⟩, by omega⟩

end Budget

section Bodies

variable {lib : Libraries} {m : Record} {u : Unit}

theorem bounded_zero : ImageTotals.Bounded ⟨[], 0, 0⟩ := ⟨le_rfl, le_rfl, by decide⟩

theorem TypeScript.roles_iff {records : List Record} {assets : List BundledImageAsset}
    (hreads : List.Forall₂ (fun r asset => ReadsAsset (.map r) asset) records assets) :
    (records.any fun r => !includes ["header", "image"] (r.get "role")) = false ↔
      ∀ asset ∈ assets, asset.role ∈ ["header", "image"] := by
  induction hreads with
  | nil => simp
  | cons hr _ ih =>
    obtain ⟨_, hr', _, _, hrole, _⟩ := hr
    cases hr'
    rw [List.any_cons, Bool.or_eq_false_iff, List.forall_mem_cons, ih, Bool.not_eq_false',
      includes_iff, hrole]
    simp only [OneOf, Option.some.injEq, Value.text.injEq, exists_eq_right']

theorem TypeScript.validateSpt3Body_eq_ok
    (hassets : ∀ v, m.get "assets" = some v → assertHailValue v defaultResourceLimits = .ok ()) :
    validateSpt3Body lib m = .ok u ↔
      Spt3Schema lib (fun name => attachmentFilename lib name = true)
        (fun href => linkHref lib href = true) m := by
  simp only [validateSpt3Body, Spt3Schema, bind_eq_ok, bodyHeader_eq_ok, record_eq_ok,
    failIf_eq_ok, array_eq_ok, Prod.exists, exists_const, validateSpt2Body_eq_ok,
    spt2Schema_spt3Body, Bool.or_eq_false_iff, beq_eq_false_iff_ne, bne_eq_false_iff_eq,
    decide_eq_false_iff_not, not_lt]
  refine and_congr_right fun _ => ?_
  constructor
  · rintro ⟨_, hmanifest, manifest, hget, hroles, blocks, hblocks, totals, texts, hfilter, hused,
      hpixels, htexts⟩
    rw [hget, validateAssetManifest_eq_ok (hassets _ hget)] at hmanifest
    obtain ⟨assets, hassets⟩ := hmanifest
    have hgallery := hassets.gallery
    obtain ⟨r, hr, _, _, entries, hentries, _, hreads, _⟩ := id hassets
    cases hr
    have hrecords := asRecords_reads hreads
    rw [hentries] at hroles hfilter hused
    rw [filterEntries_eq_ok hgallery (fun _ _ _ => imageBlock_eq_text)
      (fun _ _ _ _ htotals => imageBlock_eq_image hgallery hrecords htotals) bounded_zero] at hfilter
    obtain ⟨images, himages, hcount, rfl⟩ := hfilter
    rw [hrecords.length_eq] at hused
    rw [zero_add] at hcount
    rw [hget]
    exact ⟨assets, hassets, (roles_iff hrecords).1 hroles, blocks, hblocks, images, texts, himages,
      (budget_iff hgallery himages.subset hcount).1 ⟨hused, hpixels⟩, htexts⟩
  · rintro ⟨assets, hmanifest, hroles, blocks, hblocks, images, texts, himages, hbudget, htexts⟩
    have hgallery := hmanifest.gallery
    obtain ⟨r, hget, _, _, entries, hentries, _, hreads, _⟩ := id hmanifest
    have hrecords := asRecords_reads hreads
    obtain ⟨hused, hpixels⟩ := (budget_iff hgallery himages.subset hbudget.1.2).2 hbudget
    rw [← hrecords.length_eq] at hused
    refine ⟨(), ?_, r, hget, ?_, blocks, hblocks, _, texts, ?_, ?_, hpixels, htexts⟩
    · rw [hget, validateAssetManifest_eq_ok (hassets _ hget), ← hget]
      exact ⟨assets, hmanifest⟩
    · rw [hentries]
      exact (roles_iff hrecords).2 hroles
    · rw [hentries, filterEntries_eq_ok hgallery (fun _ _ _ => imageBlock_eq_text)
        (fun _ _ _ _ htotals => imageBlock_eq_image hgallery hrecords htotals) bounded_zero]
      exact ⟨images, himages, by simpa using hbudget.1.2, rfl⟩
    · rw [hentries]
      exact hused

theorem manifestSchema_index {k : String} {assets : List BundledImageAsset} :
    ManifestSchema lib (some (Go.index m k)) assets ↔ ManifestSchema lib (m.get k) assets := by
  simp only [ManifestSchema, Option.some.injEq, Go.index_eq_map]

/-- The map of the assets of a manifest. -/
theorem Go.find_assetMap {assets : List BundledImageAsset} (hgallery : Gallery assets) (id : String)
    (asset : BundledImageAsset) :
    (assets.foldl (fun t asset => t.insert asset.id asset)
      (∅ : Table String BundledImageAsset)).find id = some asset ↔
      asset ∈ assets ∧ asset.id = id := by
  rw [find_foldl_insert hgallery.unique, Table.find_empty]
  simp only [reduceCtorEq, and_false, or_false]

theorem Go.rows_assetMap {assets : List BundledImageAsset} (hgallery : Gallery assets) :
    (assets.foldl (fun t asset => t.insert asset.id asset)
      (∅ : Table String BundledImageAsset)).rows.length = assets.length := by
  rw [rows_foldl_insert hgallery.unique fun _ _ => Table.find_empty _]
  exact zero_add _

theorem Go.validateSpt3Body_eq_ok :
    validateSpt3Body lib m = .ok u ↔
      Spt3Schema lib (fun name => attachmentFilename lib name = true)
        (fun href => linkHref lib href = true) m := by
  simp only [validateSpt3Body, Spt3Schema, bind_eq_ok, bodyHeader_eq_ok, errorIf_eq_ok,
    assetMap_eq_ok, arrayValue_eq_ok, index_eq_array, Prod.exists, exists_const,
    validateSpt2Body_eq_ok, spt2Schema_spt3Body, Bool.or_eq_false_iff, beq_eq_false_iff_ne,
    bne_eq_false_iff_eq, decide_eq_false_iff_not, not_lt, assetManifestFromMap_eq_ok,
    manifestSchema_index]
  refine and_congr_right fun _ => exists_congr fun assets => and_congr_right fun hmanifest => ?_
  have hgallery := hmanifest.gallery
  constructor
  · rintro ⟨_, ⟨hroles, rfl⟩, blocks, hblocks, totals, texts, hfilter, hused, hpixels, htexts⟩
    rw [filterEntries_eq_ok hgallery (fun _ _ _ => imageBlock_eq_text)
      (fun _ _ _ _ htotals => imageBlock_eq_image hgallery (find_assetMap hgallery) htotals)
      bounded_zero] at hfilter
    obtain ⟨images, himages, hcount, rfl⟩ := hfilter
    rw [rows_assetMap hgallery] at hused
    rw [zero_add] at hcount
    exact ⟨hroles, blocks, hblocks, images, texts, himages,
      (budget_iff hgallery himages.subset hcount).1 ⟨hused, hpixels⟩, htexts⟩
  · rintro ⟨hroles, blocks, hblocks, images, texts, himages, hbudget, htexts⟩
    obtain ⟨hused, hpixels⟩ := (budget_iff hgallery himages.subset hbudget.1.2).2 hbudget
    refine ⟨_, ⟨hroles, rfl⟩, blocks, hblocks, _, texts, ?_, ?_, hpixels, htexts⟩
    · rw [filterEntries_eq_ok hgallery (fun _ _ _ => imageBlock_eq_text)
        (fun _ _ _ _ htotals => imageBlock_eq_image hgallery (find_assetMap hgallery) htotals)
        bounded_zero]
      exact ⟨images, himages, by simpa using hbudget.1.2, rfl⟩
    · rw [rows_assetMap hgallery]
      exact hused

end Bodies

end HailProto.Codec
