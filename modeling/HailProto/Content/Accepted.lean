import HailProto.Codec.DiagnosticTypes
import HailProto.Codec.Decoder
import HailProto.Content.JsonSize

/-!
# The bodies that the builder accepts

A body is accepted for what it holds: the codec reads the properties of its object and of its manifest
in any order. Accepted bodies therefore have one of two forms, with or without assets, and each form is
accepted by a condition on its blocks.
-/

namespace HailProto.Content.Builder

open Cbor (Value Value.items itemsSum entryItems asBytes)
open Codec
open Codec.TypeScript (Cborg convertToDiagnostic argumentSize diagnosticSize diagnosticSizes
  diagnosticEntrySizes encodedSize encodedSizes encodedEntrySizes)
open Server Server.Json

section Payloads

variable {lib : Libraries} {cborg : Cborg} {v : Js} {value : Value} {kind : PayloadType}

/-- A value of a program within the limits can be encoded. -/
theorem plain_of_within {limits : ResourceLimits} {depth : ℕ} (hv : DistinctKeys value)
    (h : Within limits depth value) : Plain value := by
  induction hv generalizing depth with
  | null => exact .null
  | bool b => exact .bool b
  | int n => exact .int n h.2
  | text s => exact .text s
  | bytes b => exact .bytes b
  | array _ ih => exact .array _ fun v hv => ih v hv ((withinAll_iff _).1 h.2.2 v hv)
  | map hkeys _ ih =>
    exact .map _ (fun e he => (h.2.2.mem he).1) hkeys fun e he => ih e he (h.2.2.mem he).2

theorem names_of_shows {p : Properties} {r : Record} (h : List.Forall₂ ShowsMember p r) :
    p.map Prod.fst = (r.map Prod.fst).map fun key => js key.keyText := by
  induction h with
  | nil => rfl
  | cons hm _ ih =>
    obtain ⟨name, hname, hkey, _⟩ := hm
    rw [List.map_cons, List.map_cons, List.map_cons, ih, hname, hkey]
    rfl

theorem Shows.distinctKeys (h : Shows v value) (hv : DistinctNames v) : DistinctKeys value := by
  induction hv generalizing value with
  | null => cases value <;> simp_all [Shows, hailValue, convertToDiagnostic]
  | boolean b => cases value <;> simp_all [Shows, hailValue, convertToDiagnostic]
  | number n => cases value <;> simp_all [Shows, hailValue, convertToDiagnostic]
  | string s => cases value <;> simp_all [Shows, hailValue, convertToDiagnostic]
  | @array l _ ih =>
    cases value with
    | array values =>
      obtain ⟨_, hl, hshows⟩ := shows_array.1 h
      cases hl
      refine .array fun value hvalue => ?_
      obtain ⟨v, hv, hshow⟩ := forall₂_right hshows hvalue
      exact ih v hv hshow
    | _ => simp [Shows, hailValue, convertToDiagnostic] at h
  | @object p hnames _ ih =>
    cases value with
    | map r =>
      obtain ⟨_, hp, hshows⟩ := shows_map.1 h
      cases hp
      refine .map ?_ fun e he => ?_
      · rw [names_of_shows hshows] at hnames
        exact hnames.of_map
      · obtain ⟨m, hm, _, _, _, hshow⟩ := forall₂_right hshows he
        exact ih m hm hshow
    | _ => simp [Shows, hailValue, convertToDiagnostic] at h

theorem encodeJson_eq_ok (hcborg : cborg.Strict) (hv : DistinctNames v) {u : Unit} :
    encodeJson lib cborg kind v = .ok u ↔ IsPayload lib kind v := by
  refine ⟨.of_encodeJson, ?_⟩
  rintro ⟨value, hshows, hdecoded, hsize, hvalid⟩
  have hdistinct := hshows.distinctKeys hv
  have hassert := (Codec.TypeScript.assertHailValue_convertToDiagnostic hdecoded).2 hsize
  have hrecoverable := Codec.TypeScript.validatePayload_recoverable hdistinct hdecoded hvalid
  have hread : Codec.TypeScript.fromJson none none (convertToDiagnostic false value) = .ok value :=
    Codec.TypeScript.fromJson_convertToDiagnostic hrecoverable rfl
  obtain ⟨_, hwithin, hencoded⟩ := Codec.TypeScript.assertHailValue_eq_ok.1 hdecoded
  have hplain := plain_of_within hdistinct hwithin
  have hlength : ¬((cborg.encode value).length : ℤ) > defaultResourceLimits.maximumBytes := by
    rw [hcborg.encode_eq value hplain.wire, ← Codec.TypeScript.encodedSize_eq_length hplain]
    omega
  have hfits : Codec.TypeScript.assertHailValue value defaultResourceLimits = .ok () := hdecoded
  unfold encodeJson
  rw [hshows]
  simp only [Codec.TypeScript.fromDiagnosticJson, encodePayload,
    Codec.TypeScript.encodeDeterministic, hassert, hread, hvalid, hfits, hlength, ok_bind,
    if_false]

end Payloads

/-! ## Order -/

section Order

variable {lib : Libraries} {kind : PayloadType} {p p' : Properties} {r r' : Record}

theorem shows_perm (h : p.Perm p') (hshows : List.Forall₂ ShowsMember p r) :
    ∃ r', r.Perm r' ∧ List.Forall₂ ShowsMember p' r' := by
  obtain ⟨r', hshows', hperm⟩ := List.perm_comp_forall₂ h.symm hshows
  exact ⟨r', hperm.symm, hshows'⟩

theorem memberSizes_perm (h : p.Perm p') : memberSizes p = memberSizes p' := by
  induction h with
  | nil => rfl
  | cons m _ ih => simp only [memberSizes, ih]
  | swap m m' p =>
    simp only [memberSizes]
    omega
  | trans _ _ ih ih' => exact ih.trans ih'

theorem jsonSize_perm (h : p.Perm p') : jsonSize (.object p) = jsonSize (.object p') := by
  rw [jsonSize, jsonSize, memberSizes_perm h]

theorem entryItems_perm (h : r.Perm r') : entryItems r = entryItems r' := by
  induction h with
  | nil => rfl
  | cons e _ ih => simp only [entryItems, ih]
  | swap e e' r =>
    simp only [entryItems]
    omega
  | trans _ _ ih ih' => exact ih.trans ih'

theorem encodedEntrySizes_perm (h : r.Perm r') : encodedEntrySizes r = encodedEntrySizes r' := by
  induction h with
  | nil => rfl
  | cons e _ ih => simp only [encodedEntrySizes, ih]
  | swap e e' r =>
    simp only [encodedEntrySizes]
    omega
  | trans _ _ ih ih' => exact ih.trans ih'

theorem diagnosticEntrySizes_perm (h : r.Perm r') :
    diagnosticEntrySizes r = diagnosticEntrySizes r' := by
  induction h with
  | nil => rfl
  | cons e _ ih => simp only [diagnosticEntrySizes, ih]
  | swap e e' r =>
    simp only [diagnosticEntrySizes]
    omega
  | trans _ _ ih ih' => exact ih.trans ih'

theorem withinEntries_perm {limits : ResourceLimits} {depth : ℕ} (h : r.Perm r') :
    WithinEntries limits depth r ↔ WithinEntries limits depth r' := by
  induction h with
  | nil => rfl
  | cons e _ ih => simp only [WithinEntries, ih]
  | swap e e' r =>
    simp only [WithinEntries]
    tauto
  | trans _ _ ih ih' => exact ih.trans ih'

theorem decoded_perm (h : r.Perm r') : Decoded (.map r) ↔ Decoded (.map r') := by
  rw [Decoded, Decoded, Codec.TypeScript.assertHailValue_eq_ok,
    Codec.TypeScript.assertHailValue_eq_ok]
  simp only [Value.items, Within, encodedSize, entryItems_perm h, encodedEntrySizes_perm h,
    withinEntries_perm h, h.length_eq]

theorem get_perm (h : r.Perm r') (hkeys : (r.map Prod.fst).Nodup) (k : String) :
    r.get k = r'.get k := by
  have hkeys' : (r'.map Prod.fst).Nodup := (h.map Prod.fst).nodup hkeys
  have hmem : ∀ {r : Record}, (r.map Prod.fst).Nodup → ∀ v,
      r.get k = some v ↔ (Value.text k, v) ∈ r := by
    intro r hkeys v
    exact ⟨Record.mem_of_get, fun hv => Record.get_of_mem hkeys hv rfl⟩
  refine Option.ext fun v => ?_
  rw [hmem hkeys, hmem hkeys', h.mem_iff]

theorem exact_perm (h : r.Perm r') (hkeys : (r.map Prod.fst).Nodup)
    (required optional : List String) : Exact r required optional ↔ Exact r' required optional := by
  simp only [Exact, h.mem_iff, get_perm h hkeys]

theorem bodyRules_perm {filename href : String → Prop} (h : r.Perm r')
    (hkeys : (r.map Prod.fst).Nodup) :
    BodyRules lib filename href r kind ↔ BodyRules lib filename href r' kind := by
  have hget := get_perm h hkeys
  have hexact := exact_perm h hkeys
  cases kind with
  | bodySpt1 => simp only [BodyRules, Spt1Schema, BodyHeader, Blocks, hget, hexact]
  | bodySpt2 => simp only [BodyRules, Spt2Schema, BodyHeader, Blocks, hget, hexact]
  | bodySpt3 => simp only [BodyRules, Spt3Schema, BodyHeader, hget, hexact]
  | _ => rfl

end Order

section Bodies

variable {lib : Libraries} {kind : PayloadType} {p p' : Properties} {r r' : Record} {v : Js}

/-- The rules that the codec has for the body of a profile. -/
def Rules (lib : Libraries) (r : Record) (kind : PayloadType) : Prop :=
  BodyRules lib (fun name => Codec.TypeScript.attachmentFilename lib name = true)
    (fun href => Codec.TypeScript.linkHref lib href = true) r kind

theorem isPayload_iff (hkind : kind ∈ bodyTypes) : IsPayload lib kind v ↔
    ∃ r, Shows v (.map r) ∧ Decoded (.map r) ∧ diagnosticSize (.map r) ≤ 1048576 ∧
      Rules lib r kind := by
  constructor
  · rintro ⟨value, hshows, hdecoded, hsize, hvalid⟩
    obtain ⟨r, rfl, hrules⟩ := (Codec.TypeScript.validateBody_eq_ok hkind hdecoded).1 hvalid
    exact ⟨r, hshows, hdecoded, hsize, hrules⟩
  · rintro ⟨r, hshows, hdecoded, hsize, hrules⟩
    exact ⟨.map r, hshows, hdecoded, hsize,
      (Codec.TypeScript.validateBody_eq_ok hkind hdecoded).2 ⟨r, rfl, hrules⟩⟩

theorem isPayload_perm (hkind : kind ∈ bodyTypes) (h : p.Perm p') (hp : (p.map Prod.fst).Nodup)
    (hpayload : IsPayload lib kind (.object p)) : IsPayload lib kind (.object p') := by
  rw [isPayload_iff hkind] at hpayload ⊢
  obtain ⟨r, hshows, hdecoded, hsize, hrules⟩ := hpayload
  obtain ⟨_, heq, hmembers⟩ := shows_map.1 hshows
  cases heq
  obtain ⟨r', hperm, hmembers'⟩ := shows_perm h hmembers
  have hkeys : (r.map Prod.fst).Nodup := by
    rw [names_of_shows hmembers] at hp
    exact hp.of_map
  refine ⟨r', shows_map.2 ⟨p', rfl, hmembers'⟩, (decoded_perm hperm).1 hdecoded, ?_,
    (bodyRules_perm hperm hkeys).1 hrules⟩
  rwa [diagnosticSize, ← hperm.length_eq, ← diagnosticEntrySizes_perm hperm]

end Bodies

/-! ## Forms -/

section Forms

def textBody (blocks : List Js) : Properties :=
  [(js "version", .number 1), (js "profile", .string (js "spt-2")), (js "blocks", .array blocks)]

def imageBody (blocks : List Js) (assets : Js) : Properties :=
  [(js "version", .number 1), (js "profile", .string (js "spt-3")), (js "blocks", .array blocks),
    (js "assets", assets)]

def manifest (entries : List Js) : Properties :=
  [(js "version", .number 1), (js "assets", .array entries)]

theorem nodup_js {names : List String} (h : names.Nodup) : (names.map js).Nodup :=
  List.Nodup.map (fun _ _ => js_inj.1) h

theorem nodup_textBody (blocks : List Js) : ((textBody blocks).map Prod.fst).Nodup :=
  nodup_js (by decide : ["version", "profile", "blocks"].Nodup)

theorem nodup_imageBody (blocks : List Js) (assets : Js) :
    ((imageBody blocks assets).map Prod.fst).Nodup :=
  nodup_js (by decide : ["version", "profile", "blocks", "assets"].Nodup)

/-- An object that has these properties and no other name. -/
theorem perm_of_properties {p c : Properties} {names : List String}
    (hp : (p.map Prod.fst).Nodup) (hc : c.map Prod.fst = names.map js) (hnames : names.Nodup)
    (hsub : ∀ name ∈ p.map Prod.fst, name ∈ names.map js)
    (h : names.Forall fun k => getProperty p k = getProperty c k) : p.Perm c := by
  refine perm_of_ownProperty hp (hc ▸ nodup_js hnames) fun name => ?_
  by_cases hname : name ∈ names.map js
  · obtain ⟨k, hk, rfl⟩ := List.mem_map.1 hname
    exact List.forall_iff_forall_mem.1 h k hk
  · have habsent : ∀ q : Properties, name ∉ q.map Prod.fst → ownProperty q name = none := by
      intro q hq
      rw [← Option.not_isSome_iff_eq_none, Option.isSome_iff_exists]
      rintro ⟨v, hv⟩
      exact hq (List.mem_map.2 ⟨_, mem_of_ownProperty hv, rfl⟩)
    rw [habsent p (mt (hsub name) hname), habsent c (hc ▸ hname)]

theorem fields_eq_ok {p : Properties} {allowed : List String} {path : JsString} {u : Unit} :
    fields p allowed path = .ok u ↔ ∀ name ∈ p.map Prod.fst, name ∈ allowed.map js := by
  unfold fields
  split
  · rename_i key hkey
    have hmem := List.mem_of_find?_eq_some hkey
    have hnot := List.find?_some hkey
    simp only [Bool.not_eq_true', List.contains_eq_mem, decide_eq_false_iff_not] at hnot
    exact iff_of_false (by simp) fun h => hnot (h key hmem)
  · rename_i hnone
    rw [List.find?_eq_none] at hnone
    simpa using hnone

variable {lib : Libraries} {cborg : Cborg} {p q : Properties} {v body : Js} {bs as : List Js}

theorem budget_eq_ok {b : Budget} {u : Unit} :
    budget b v = .ok u ↔ jsonSize v ≤ b.maximum := by
  rw [budget, byteLength_stringify]
  split
  · simp only [reduceCtorEq, false_iff]
    omega
  · simp only [true_iff]
    omega

/-- What the checks of `validateBody` ask for. -/
theorem validateBody_eq_ok (hcborg : cborg.Strict) (hv : DistinctNames v) :
    validateBody lib cborg v = .ok body ↔ body = v ∧ jsonSize v ≤ 360000 ∧ ∃ p, v = .object p ∧
      ((isText (getProperty p "profile") "spt-2" = true ∧
          (∀ name ∈ p.map Prod.fst, name ∈ ["version", "profile", "blocks"].map js) ∧
          IsPayload lib .bodySpt2 v) ∨
        isText (getProperty p "profile") "spt-3" = true ∧
          (∀ name ∈ p.map Prod.fst, name ∈ ["version", "profile", "blocks", "assets"].map js) ∧
          IsPayload lib .bodySpt3 v) := by
  have hobject : ∀ p path, object v path = .ok p ↔ v = .object p := by
    intro p path
    cases v <;> simp [object]
  simp only [validateBody, bind_eq_ok, budget_eq_ok, bodyBudget, exists_const, hobject]
  constructor
  · rintro ⟨hsize, p, rfl, h⟩
    split at h
    · cases h
    · rename_i hprofile
      simp only [bind_eq_ok, fields_eq_ok, Except.ok.injEq, encodeJson_eq_ok hcborg hv,
        exists_const] at h
      obtain ⟨hnames, hpayload, rfl⟩ := h
      refine ⟨rfl, hsize, p, rfl, ?_⟩
      cases hspt3 : isText (getProperty p "profile") "spt-3" with
      | true =>
        rw [hspt3] at hnames hpayload
        exact .inr ⟨rfl, hnames, hpayload⟩
      | false =>
        rw [hspt3] at hnames hpayload hprofile
        exact .inl ⟨by simpa using hprofile, hnames, hpayload⟩
  · rintro ⟨rfl, hsize, p, rfl, h⟩
    refine ⟨hsize, p, rfl, ?_⟩
    rcases h with ⟨hspt2, hnames, hpayload⟩ | ⟨hspt3, hnames, hpayload⟩
    · have hspt3 : isText (getProperty p "profile") "spt-3" = false := by
        rw [isText_eq_true] at hspt2
        rw [hspt2]
        rfl
      rw [hspt2, hspt3]
      simp only [Bool.not_true, Bool.false_and, Bool.false_eq_true, if_false, bind_eq_ok,
        fields_eq_ok, encodeJson_eq_ok hcborg hv, exists_const, and_true]
      exact ⟨hnames, hpayload⟩
    · rw [hspt3]
      simp only [Bool.not_true, Bool.and_false, Bool.false_eq_true, if_false, if_true, bind_eq_ok,
        fields_eq_ok, encodeJson_eq_ok hcborg hv, exists_const, and_true]
      exact ⟨hnames, hpayload⟩

/-- The payload of a body without assets. -/
def textRecord (values : List Value) : Record :=
  [(.text "version", .int 1), (.text "profile", .text "spt-2"), (.text "blocks", .array values)]

/-- The payload of a body with assets. -/
def imageRecord (values : List Value) (assets : Value) : Record :=
  [(.text "version", .int 1), (.text "profile", .text "spt-3"), (.text "blocks", .array values),
    (.text "assets", assets)]

theorem shows_cons {k : String} {r : Record} :
    List.Forall₂ ShowsMember ((js k, v) :: p) r ↔ ∃ value r', Shows v value ∧
      List.Forall₂ ShowsMember p r' ∧ r = (.text k, value) :: r' := by
  rw [List.forall₂_cons_left_iff]
  constructor
  · rintro ⟨⟨_, value⟩, r, ⟨name, hname, rfl, hvalue⟩, hr, rfl⟩
    rw [← js_inj.1 hname]
    exact ⟨value, r, hvalue, hr, rfl⟩
  · rintro ⟨value, r, hvalue, hr, rfl⟩
    exact ⟨(.text k, value), r, ⟨k, rfl, rfl, hvalue⟩, hr, rfl⟩

theorem number_shows {n : ℤ} {value : Value} (h : Shows (.number n) value) : value = .int n := by
  cases value with
  | int m => rw [JsValue.number.inj (shows_int.1 h)]
  | _ => simp [Shows, hailValue, convertToDiagnostic] at h

theorem array_shows {l : List Js} {value : Value} (h : Shows (.array l) value) :
    ∃ values, value = .array values ∧ List.Forall₂ Shows l values := by
  cases value with
  | array values =>
    obtain ⟨_, heq, hvalues⟩ := shows_array.1 h
    cases heq
    exact ⟨values, rfl, hvalues⟩
  | _ => simp [Shows, hailValue, convertToDiagnostic] at h

theorem shows_textBody {values : List Value} (h : List.Forall₂ Shows bs values) :
    List.Forall₂ ShowsMember (textBody bs) (textRecord values) :=
  shows_cons.2 ⟨_, _, shows_int.2 rfl, shows_cons.2 ⟨_, _, shows_text.2 rfl,
    shows_cons.2 ⟨_, _, shows_array.2 ⟨_, rfl, h⟩, .nil, rfl⟩, rfl⟩, rfl⟩

theorem shows_imageBody {values : List Value} {assets : Js} {value : Value}
    (h : List.Forall₂ Shows bs values) (hassets : Shows assets value) :
    List.Forall₂ ShowsMember (imageBody bs assets) (imageRecord values value) :=
  shows_cons.2 ⟨_, _, shows_int.2 rfl, shows_cons.2 ⟨_, _, shows_text.2 rfl,
    shows_cons.2 ⟨_, _, shows_array.2 ⟨_, rfl, h⟩, shows_cons.2 ⟨_, _, hassets, .nil, rfl⟩, rfl⟩,
      rfl⟩, rfl⟩

theorem textPayload_iff : IsPayload lib .bodySpt2 (.object (textBody bs)) ↔
    ∃ values, List.Forall₂ Shows bs values ∧ Decoded (.map (textRecord values)) ∧
      diagnosticSize (.map (textRecord values)) ≤ 1048576 ∧
      Rules lib (textRecord values) .bodySpt2 := by
  rw [isPayload_iff (by simp [bodyTypes])]
  constructor
  · rintro ⟨r, hshows, hdecoded, hsize, hrules⟩
    obtain ⟨_, ⟨⟩, hmembers⟩ := shows_map.1 hshows
    obtain ⟨version, _, hversion, hrest, rfl⟩ := shows_cons.1 hmembers
    obtain ⟨profile, _, hprofile, htail, rfl⟩ := shows_cons.1 hrest
    obtain ⟨blocks, _, hblocks, hnil, rfl⟩ := shows_cons.1 htail
    cases hnil
    obtain ⟨values, rfl, hvalues⟩ := array_shows hblocks
    cases number_shows hversion
    have hget : some profile = some (Value.text "spt-2") := hrules.1.2.2.2
    cases hget
    exact ⟨values, hvalues, hdecoded, hsize, hrules⟩
  · rintro ⟨values, hvalues, hdecoded, hsize, hrules⟩
    exact ⟨textRecord values, shows_map.2 ⟨_, rfl, shows_textBody hvalues⟩, hdecoded, hsize, hrules⟩

theorem imagePayload_iff {assets : Js} :
    IsPayload lib .bodySpt3 (.object (imageBody bs assets)) ↔ ∃ values value,
      List.Forall₂ Shows bs values ∧ Shows assets value ∧
        Decoded (.map (imageRecord values value)) ∧
        diagnosticSize (.map (imageRecord values value)) ≤ 1048576 ∧
        Rules lib (imageRecord values value) .bodySpt3 := by
  rw [isPayload_iff (by simp [bodyTypes])]
  constructor
  · rintro ⟨r, hshows, hdecoded, hsize, hrules⟩
    obtain ⟨_, ⟨⟩, hmembers⟩ := shows_map.1 hshows
    obtain ⟨version, _, hversion, hrest, rfl⟩ := shows_cons.1 hmembers
    obtain ⟨profile, _, hprofile, htail, rfl⟩ := shows_cons.1 hrest
    obtain ⟨blocks, _, hblocks, hlast, rfl⟩ := shows_cons.1 htail
    obtain ⟨value, _, hassets, hnil, rfl⟩ := shows_cons.1 hlast
    cases hnil
    obtain ⟨values, rfl, hvalues⟩ := array_shows hblocks
    cases number_shows hversion
    have hget : some profile = some (Value.text "spt-3") := hrules.1.2.2.2
    cases hget
    exact ⟨values, value, hvalues, hassets, hdecoded, hsize, hrules⟩
  · rintro ⟨values, value, hvalues, hassets, hdecoded, hsize, hrules⟩
    exact ⟨imageRecord values value, shows_map.2 ⟨_, rfl, shows_imageBody hvalues hassets⟩,
      hdecoded, hsize, hrules⟩

theorem textBody_of_payload (hv : DistinctNames (.object p))
    (hnames : ∀ name ∈ p.map Prod.fst, name ∈ ["version", "profile", "blocks"].map js)
    (h : IsPayload lib .bodySpt2 (.object p)) : ∃ bs, p.Perm (textBody bs) := by
  obtain ⟨r, hshows, _, _, ⟨_, _, hversion, hprofile⟩, values, hvalues, _⟩ :=
    (isPayload_iff (by simp [bodyTypes])).1 h
  obtain ⟨_, heq, hmembers⟩ := hshows.members
  cases heq
  obtain ⟨bs, hbs, _⟩ := hmembers.get_array hvalues
  exact ⟨bs, perm_of_properties hv.names rfl (by decide) hnames
    ⟨(hmembers.get_int hversion).trans rfl, (hmembers.get_text hprofile).trans rfl,
      hbs.trans rfl⟩⟩

theorem imageBody_of_payload (hv : DistinctNames (.object p))
    (hnames : ∀ name ∈ p.map Prod.fst, name ∈ ["version", "profile", "blocks", "assets"].map js)
    (h : IsPayload lib .bodySpt3 (.object p)) :
    ∃ bs q as, p.Perm (imageBody bs (.object q)) ∧ q.Perm (manifest as) ∧ as ≠ [] := by
  obtain ⟨r, hshows, _, _, ⟨_, _, hversion, hprofile⟩, _, ⟨m, hm, hexact, hone, entries, hentries,
    ⟨hsome, _⟩, _⟩, _, values, hvalues, _⟩ := (isPayload_iff (by simp [bodyTypes])).1 h
  obtain ⟨_, heq, hmembers⟩ := hshows.members
  cases heq
  obtain ⟨bs, hbs, _⟩ := hmembers.get_array hvalues
  obtain ⟨assets, hassets, hshow⟩ := hmembers.get_some hm
  obtain ⟨q, rfl, hq⟩ := shows_map.1 hshow
  have hmanifest := members_of_forall₂ hq
  obtain ⟨as, has, hlist⟩ := hmanifest.get_array hentries
  have hne : as ≠ [] := by
    rintro rfl
    rw [← hlist.length_eq] at hsome
    exact absurd hsome (by decide)
  refine ⟨bs, q, as, perm_of_properties hv.names rfl (by decide) hnames
      ⟨(hmembers.get_int hversion).trans rfl, (hmembers.get_text hprofile).trans rfl,
        hbs.trans rfl, hassets.trans rfl⟩,
    @perm_of_properties q (manifest as) ["version", "assets"] (hv.property hassets).names rfl
      (by decide) ?_ ⟨(hmanifest.get_int hone).trans rfl, has.trans rfl⟩, hne⟩
  intro name hname
  rw [names_of_shows hq, List.map_map, List.mem_map] at hname
  obtain ⟨e, he, rfl⟩ := hname
  obtain ⟨k, hk, hkey⟩ := hexact.1 e he
  rw [List.append_nil] at hk
  rw [Function.comp_apply, hkey]
  exact List.mem_map_of_mem hk

end Forms

/-! ## Other blocks -/

section Sizes

theorem argumentSize_mono {m n : ℕ} (h : m ≤ n) : argumentSize m ≤ argumentSize n := by
  unfold argumentSize
  split_ifs <;> omega

mutual

/-- Bytes are shorter than the text that shows them. -/
theorem encodedSize_le_diagnosticSize (v : Value) : encodedSize v ≤ diagnosticSize v := by
  match v with
  | .bytes b =>
    have hmono := argumentSize_mono (m := b.length) (n := (b.length * 4 + 2) / 3) (by omega)
    simp only [encodedSize, diagnosticSize]
    omega
  | .array values =>
    have hvalues := encodedSizes_le_diagnosticSizes values
    simp only [encodedSize, diagnosticSize]
    omega
  | .map entries =>
    have hentries := encodedEntrySizes_le_diagnosticEntrySizes entries
    simp only [encodedSize, diagnosticSize]
    omega
  | .null => exact le_rfl
  | .bool _ => exact le_rfl
  | .int _ => exact le_rfl
  | .text _ => exact le_rfl
  | .tag _ _ => exact le_rfl

theorem encodedSizes_le_diagnosticSizes (values : List Value) :
    encodedSizes values ≤ diagnosticSizes values := by
  match values with
  | [] => exact le_rfl
  | v :: values =>
    have hv := encodedSize_le_diagnosticSize v
    have hvalues := encodedSizes_le_diagnosticSizes values
    simp only [encodedSizes, diagnosticSizes]
    omega

theorem encodedEntrySizes_le_diagnosticEntrySizes (entries : List (Value × Value)) :
    encodedEntrySizes entries ≤ diagnosticEntrySizes entries := by
  match entries with
  | [] => exact le_rfl
  | (k, v) :: entries =>
    have hv := encodedSize_le_diagnosticSize v
    have hentries := encodedEntrySizes_le_diagnosticEntrySizes entries
    simp only [encodedEntrySizes, diagnosticEntrySizes]
    omega

end

theorem decoded_iff {value : Value} (hsize : diagnosticSize value ≤ 1048576) :
    Decoded value ↔ value.items ≤ 16384 ∧ Within defaultResourceLimits 0 value := by
  have hencoded := encodedSize_le_diagnosticSize value
  have hitems : defaultResourceLimits.maximumItems = 16384 := rfl
  have hbytes : defaultResourceLimits.maximumBytes = 1048576 := rfl
  rw [Decoded, Codec.TypeScript.assertHailValue_eq_ok, hitems, hbytes]
  constructor
  · rintro ⟨hcount, hwithin, _⟩
    exact ⟨by omega, hwithin⟩
  · rintro ⟨hcount, hwithin⟩
    exact ⟨by omega, hwithin, by omega⟩

end Sizes

section Replacement

variable {lib : Libraries} {bs cs : List Js} {values : List Value}

/-- The codec's rule for the addresses of links. -/
def HrefRule (lib : Libraries) (href : String) : Prop :=
  Codec.TypeScript.linkHref lib href = true

/-- A text block stands for another one, where each block must be within the limits. -/
def Replaces (lib : Libraries) (c b : Js) : Prop :=
  ∀ value, Shows c value → RichBlock (HrefRule lib) value →
    Within defaultResourceLimits 2 value → ∃ value', Shows b value' ∧
      RichBlock (HrefRule lib) value' ∧ Within defaultResourceLimits 2 value' ∧
        value'.items ≤ value.items

/-- The blocks of a body in its place: the images stay, and texts may stand for others. -/
inductive Replaced (lib : Libraries) (c b : Js) : Prop
  | same (h : b = c)
  | text (himage : isImage (properties c) = false)
      (h : Replaces lib c b)

theorem textEntry_of_rich {href : String → Prop} {value : Value} (h : RichBlock href value) :
    TextEntry value := by
  obtain ⟨b, rfl, _, htype, _⟩ := h
  exact ⟨b, rfl, by simp [htype]⟩

theorem isImage_of_shows {c : Js} {b : Record} (h : Shows c (.map b)) {type : String}
    (htype : b.get "_type" = some (.text type)) :
    isImage (properties c) = decide (type = "spt.image") := by
  obtain ⟨p, rfl, hp⟩ := h.members
  rw [properties, isImage, hp.get_text htype]
  by_cases hname : type = "spt.image"
  · subst hname
    exact isText_eq_true.2 rfl
  · rw [decide_eq_false hname, Bool.eq_false_iff]
    intro htext
    exact hname (js_inj.1 (JsValue.string.inj (Option.some.inj (isText_eq_true.1 htext))))

/-- A block of a text stands for one with the same rights. -/
theorem Replaced.rich {c b : Js} {value : Value} (h : Replaced lib c b) (hshows : Shows c value)
    (hrich : RichBlock (HrefRule lib) value) (hwithin : Within defaultResourceLimits 2 value) :
    ∃ value', Shows b value' ∧ RichBlock (HrefRule lib) value' ∧
      Within defaultResourceLimits 2 value' ∧ value'.items ≤ value.items := by
  rcases h with rfl | ⟨_, h⟩
  · exact ⟨value, hshows, hrich, hwithin, le_rfl⟩
  · exact h value hshows hrich hwithin

theorem replaced_texts (hblocks : List.Forall₂ (Replaced lib) cs bs)
    (hshows : List.Forall₂ Shows cs values) (hrich : ∀ v ∈ values, RichBlock (HrefRule lib) v)
    (hwithin : WithinAll defaultResourceLimits 2 values) :
    ∃ values', List.Forall₂ Shows bs values' ∧ (∀ v ∈ values', RichBlock (HrefRule lib) v) ∧
      WithinAll defaultResourceLimits 2 values' ∧ itemsSum values' ≤ itemsSum values ∧
        values'.length = values.length := by
  induction hblocks generalizing values with
  | nil =>
    cases hshows
    exact ⟨[], .nil, nofun, trivial, le_rfl, rfl⟩
  | cons hreplaced _ ih =>
    cases hshows with
    | cons hshow hshows =>
      rw [List.forall_mem_cons] at hrich
      obtain ⟨value', hshow', hrich', hwithin', hitems⟩ :=
        hreplaced.rich hshow hrich.1 hwithin.1
      obtain ⟨values', hshows', hrich'', hwithin'', hitems', hlength⟩ :=
        ih hshows hrich.2 hwithin.2
      refine ⟨value' :: values', .cons hshow' hshows', ?_, ⟨hwithin', hwithin''⟩, ?_, ?_⟩
      · exact List.forall_mem_cons.2 ⟨hrich', hrich''⟩
      · simp only [itemsSum]
        omega
      · rw [List.length_cons, List.length_cons, hlength]

theorem replaced_images {assets images : List BundledImageAsset} {texts : List Value}
    {position : ℕ} (h : ImageBlocks lib assets position values images texts)
    (hblocks : List.Forall₂ (Replaced lib) cs bs) (hshows : List.Forall₂ Shows cs values)
    (hrich : ∀ v ∈ texts, RichBlock (HrefRule lib) v)
    (hwithin : WithinAll defaultResourceLimits 2 values) :
    ∃ values' texts', List.Forall₂ Shows bs values' ∧
      ImageBlocks lib assets position values' images texts' ∧
      (∀ v ∈ texts', RichBlock (HrefRule lib) v) ∧ WithinAll defaultResourceLimits 2 values' ∧
        itemsSum values' ≤ itemsSum values ∧ values'.length = values.length := by
  induction h generalizing cs bs with
  | nil position =>
    cases hshows
    cases hblocks
    exact ⟨[], [], .nil, .nil position, nofun, trivial, le_rfl, rfl⟩
  | @image position v vs texts asset images hentry _ ih =>
    cases hshows with
    | @cons c _ cs _ hshow hshows =>
      cases hblocks with
      | @cons _ b _ bs hreplaced hblocks =>
        have hsame : b = c := by
          rcases hreplaced with hsame | ⟨himage, _⟩
          · exact hsame
          · obtain ⟨r, rfl, htype, _⟩ := hentry
            rw [isImage_of_shows hshow htype] at himage
            cases himage
        subst hsame
        obtain ⟨values', texts', hshows', himages, hrich', hwithin', hitems, hlength⟩ :=
          ih hblocks hshows hrich hwithin.2
        refine ⟨v :: values', texts', .cons hshow hshows', .image hentry himages, hrich',
          ⟨hwithin.1, hwithin'⟩, ?_, ?_⟩
        · simp only [itemsSum]
          omega
        · rw [List.length_cons, List.length_cons, hlength]
  | @text position v vs texts images hentry _ ih =>
    cases hshows with
    | cons hshow hshows =>
      cases hblocks with
      | cons hreplaced hblocks =>
        rw [List.forall_mem_cons] at hrich
        obtain ⟨value', hshow', hrich', hwithin', hitems⟩ :=
          hreplaced.rich hshow hrich.1 hwithin.1
        obtain ⟨values', texts', hshows', himages, hrich'', hwithin'', hitems', hlength⟩ :=
          ih hblocks hshows hrich.2 hwithin.2
        refine ⟨value' :: values', value' :: texts', .cons hshow' hshows',
          .text (textEntry_of_rich hrich') himages, List.forall_mem_cons.2 ⟨hrich', hrich''⟩,
          ⟨hwithin', hwithin''⟩, ?_, ?_⟩
        · simp only [itemsSum]
          omega
        · rw [List.length_cons, List.length_cons, hlength]

/-- A payload stays within the limits with other blocks that are no more and no deeper. -/
theorem decoded_replaced {values' : List Value} {profile : String} {rest : Record}
    (h : Decoded (.map ((.text "version", .int 1) :: (.text "profile", .text profile) ::
      (.text "blocks", .array values) :: rest)))
    (hsize : diagnosticSize (.map ((.text "version", .int 1) :: (.text "profile", .text profile) ::
      (.text "blocks", .array values') :: rest)) ≤ 1048576)
    (hwithin : WithinAll defaultResourceLimits 2 values') (hitems : itemsSum values' ≤ itemsSum values)
    (hlength : values'.length = values.length) :
    Decoded (.map ((.text "version", .int 1) :: (.text "profile", .text profile) ::
      (.text "blocks", .array values') :: rest)) := by
  rw [Decoded, Codec.TypeScript.assertHailValue_eq_ok] at h
  obtain ⟨hcount, hall, _⟩ := h
  refine (decoded_iff hsize).2 ⟨?_, ?_⟩
  · have hmaximum : defaultResourceLimits.maximumItems = 16384 := rfl
    simp only [Value.items, entryItems] at hcount ⊢
    omega
  · simp only [Within, WithinEntries, List.length_cons] at hall ⊢
    obtain ⟨hdepth, hentries, hversion, hversion', hone, hprofile, hprofile', htext, hblocks,
      hblocks', ⟨hdepth', harray, _⟩, hrest⟩ := hall
    exact ⟨hdepth, hentries, hversion, hversion', hone, hprofile, hprofile', htext, hblocks,
      hblocks', ⟨hdepth', by omega, hwithin⟩, hrest⟩

theorem withinAll_of_decoded {profile : String} {rest : Record}
    (h : Decoded (.map ((.text "version", .int 1) :: (.text "profile", .text profile) ::
      (.text "blocks", .array values) :: rest))) : WithinAll defaultResourceLimits 2 values := by
  rw [Decoded, Codec.TypeScript.assertHailValue_eq_ok] at h
  obtain ⟨_, hall, _⟩ := h
  simp only [Within, WithinEntries] at hall
  exact hall.2.2.2.2.2.2.2.2.2.2.1.2.2

theorem textPayload_replaced (hblocks : List.Forall₂ (Replaced lib) cs bs)
    (h : IsPayload lib .bodySpt2 (.object (textBody cs)))
    (hsize : jsonSize (.object (textBody bs)) ≤ 360000) :
    IsPayload lib .bodySpt2 (.object (textBody bs)) := by
  rw [textPayload_iff] at h
  obtain ⟨values, hshows, hdecoded, _, hheader, _, hvalues, hrich⟩ := h
  cases hvalues
  obtain ⟨values', hshows', hrich', hwithin', hitems, hlength⟩ :=
    replaced_texts hblocks hshows hrich (withinAll_of_decoded hdecoded)
  have hshow : Shows (.object (textBody bs)) (.map (textRecord values')) :=
    shows_map.2 ⟨_, rfl, shows_textBody hshows'⟩
  have hbound := hshow.diagnosticSize_le
  have hfits : diagnosticSize (.map (textRecord values')) ≤ 1048576 := by omega
  refine textPayload_iff.2 ⟨values', hshows',
    decoded_replaced hdecoded hfits hwithin' hitems hlength, hfits,
    ⟨?_, hheader.2.1, rfl, rfl⟩, values', rfl, hrich'⟩
  simp [Exact, textRecord, Record.get, Value.isText]

theorem imagePayload_replaced {assets : Js} (hblocks : List.Forall₂ (Replaced lib) cs bs)
    (h : IsPayload lib .bodySpt3 (.object (imageBody cs assets)))
    (hsize : jsonSize (.object (imageBody bs assets)) ≤ 360000) :
    IsPayload lib .bodySpt3 (.object (imageBody bs assets)) := by
  rw [imagePayload_iff] at h
  obtain ⟨values, value, hshows, hassets, hdecoded, _, hheader, entries, hmanifest, hroles, _,
    hvalues, images, texts, himages, hbudget, hrich⟩ := h
  cases hvalues
  obtain ⟨values', texts', hshows', himages', hrich', hwithin', hitems, hlength⟩ :=
    replaced_images himages hblocks hshows hrich (withinAll_of_decoded hdecoded)
  have hshow : Shows (.object (imageBody bs assets)) (.map (imageRecord values' value)) :=
    shows_map.2 ⟨_, rfl, shows_imageBody hshows' hassets⟩
  have hbound := hshow.diagnosticSize_le
  have hfits : diagnosticSize (.map (imageRecord values' value)) ≤ 1048576 := by omega
  refine imagePayload_iff.2 ⟨values', value, hshows', hassets,
    decoded_replaced hdecoded hfits hwithin' hitems hlength, hfits,
    ⟨?_, hheader.2.1, rfl, rfl⟩, entries, hmanifest, hroles, values', rfl, images, texts', himages',
    hbudget, hrich'⟩
  simp [Exact, imageRecord, Record.get, Value.isText]

end Replacement

section Body

variable {lib : Libraries} {cborg : Cborg} {p : Properties} {bs cs : List Js} {assets body : Js}

/-- The body with other blocks. -/
def withBlocks (p : Properties) (bs : List Js) : Properties :=
  mapProperty p "blocks" fun _ => .array bs

theorem names_mapProperty {name : String} {f : Js → Js} :
    (mapProperty p name f).map Prod.fst = p.map Prod.fst := by
  rw [mapProperty, List.map_map]
  refine List.map_congr_left fun m _ => ?_
  rw [Function.comp_apply]
  split <;> rfl

theorem withBlocks_perm {c : Properties} (h : p.Perm c) :
    (withBlocks p bs).Perm (withBlocks c bs) := h.map _

theorem withBlocks_textBody : withBlocks (textBody cs) bs = textBody bs := by
  simp [withBlocks, mapProperty, textBody, js_inj]

theorem withBlocks_imageBody : withBlocks (imageBody cs assets) bs = imageBody bs assets := by
  simp [withBlocks, mapProperty, imageBody, js_inj]

theorem blocks_of_perm {c : Properties} (h : p.Perm c) (hp : (p.map Prod.fst).Nodup) :
    blocks p = blocks c := by
  rw [blocks, blocks, field, field, getProperty_eq, getProperty_eq, ownProperty_perm h hp]

/-- A body stays accepted with blocks that stand for its own. -/
theorem validateBody_withBlocks (hcborg : cborg.Strict) (hv : DistinctNames (.object p))
    (hv' : DistinctNames (.object (withBlocks p bs)))
    (h : validateBody lib cborg (.object p) = .ok body)
    (hblocks : List.Forall₂ (Replaced lib) (blocks p) bs)
    (hsize : jsonSize (.object (withBlocks p bs)) ≤ 360000) :
    validateBody lib cborg (.object (withBlocks p bs)) = .ok (.object (withBlocks p bs)) := by
  rw [validateBody_eq_ok hcborg hv] at h
  obtain ⟨_, _, _, ⟨⟩, hcases⟩ := h
  refine (validateBody_eq_ok hcborg hv').2 ⟨rfl, hsize, _, rfl, ?_⟩
  rw [withBlocks, names_mapProperty, ← withBlocks]
  have hprofiled : ∀ {c : Properties} {profile : String}, (withBlocks p bs).Perm c →
      getProperty c "profile" = some (.string (js profile)) →
        isText (getProperty (withBlocks p bs) "profile") profile = true := by
    intro c profile hperm hget
    rw [isText_eq_true, getProperty_eq, ownProperty_perm hperm hv'.names]
    exact hget
  rcases hcases with ⟨_, hnames, hpayload⟩ | ⟨_, hnames, hpayload⟩
  · obtain ⟨cs, hperm⟩ := textBody_of_payload hv hnames hpayload
    have hperm' : (withBlocks p bs).Perm (withBlocks (textBody cs) bs) := withBlocks_perm hperm
    rw [withBlocks_textBody] at hperm'
    rw [blocks_of_perm hperm hv.names] at hblocks
    have hcanonical := isPayload_perm (by simp [bodyTypes]) hperm hv.names hpayload
    have hreplaced := textPayload_replaced hblocks hcanonical (jsonSize_perm hperm' ▸ hsize)
    exact .inl ⟨hprofiled hperm' rfl, hnames,
      isPayload_perm (by simp [bodyTypes]) hperm'.symm (nodup_textBody bs) hreplaced⟩
  · obtain ⟨cs, q, _, hperm, _⟩ := imageBody_of_payload hv hnames hpayload
    have hperm' : (withBlocks p bs).Perm (withBlocks (imageBody cs (.object q)) bs) :=
      withBlocks_perm hperm
    rw [withBlocks_imageBody] at hperm'
    rw [blocks_of_perm hperm hv.names] at hblocks
    have hcanonical := isPayload_perm (by simp [bodyTypes]) hperm hv.names hpayload
    have hreplaced := imagePayload_replaced hblocks hcanonical (jsonSize_perm hperm' ▸ hsize)
    exact .inr ⟨hprofiled hperm' rfl, hnames,
      isPayload_perm (by simp [bodyTypes]) hperm'.symm (nodup_imageBody bs _) hreplaced⟩

end Body

end HailProto.Content.Builder
