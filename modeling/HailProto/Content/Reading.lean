import HailProto.Codec.Agreement
import HailProto.Content.Builder
import HailProto.Core.Pairing

/-!
# What the codec reads of a body

The payload of an accepted body, seen from the body: the body is the diagnostic form of its payload,
so that strings show texts, or bytes where the codec looks for them, and the properties of an object
show the members of a map.
-/

namespace HailProto.Content.Builder

open Cbor (Value)
open Codec
open Codec.TypeScript (fromJson fromItems fromEntries convertToDiagnostic convertItems convertEntries
  convertItems_eq_map convertEntries_eq_map decodeBase64Url_eq_ok)
open Server Server.Json

theorem js_inj {s t : String} : js s = js t ↔ s = t := by
  constructor
  · intro h
    have hchars := congrArg characters h
    rw [characters_js, characters_js] at hchars
    exact String.toList_inj.1 hchars
  · rintro rfl
    rfl

theorem textOf_eq_some {s : JsString} {t : String} : textOf s = some t ↔ s = js t := by
  unfold textOf
  constructor
  · intro h
    split at h
    · rename_i hs
      cases h
      exact hs.symm
    · cases h
  · rintro rfl
    rw [characters_js, String.ofList_toList, if_pos rfl]

section Values

variable {v : Js} {l : List Js} {p : Properties}

theorem hailValues_eq_some {values : List Value} : hailValues l = some values ↔
    List.Forall₂ (fun v value => hailValue v = some value) l values := by
  induction l generalizing values with
  | nil => simp [hailValues, eq_comm]
  | cons v l ih =>
    simp only [hailValues, Option.bind_eq_bind, Option.bind_eq_some_iff, Option.some.injEq,
      List.forall₂_cons_left_iff, ih]
    constructor
    · rintro ⟨value, hvalue, values, hvalues, rfl⟩
      exact ⟨value, values, hvalue, hvalues, rfl⟩
    · rintro ⟨value, values, hvalue, hvalues, rfl⟩
      exact ⟨value, hvalue, values, hvalues, rfl⟩

/-- A property and the entry it is read as. -/
def IsMember (m : JsString × Js) (e : Value × Value) : Prop :=
  ∃ key, m.1 = js key ∧ e.1 = .text key ∧ hailValue m.2 = some e.2

theorem hailEntries_eq_some {entries : List (Value × Value)} :
    hailEntries p = some entries ↔ List.Forall₂ IsMember p entries := by
  induction p generalizing entries with
  | nil => simp [hailEntries, eq_comm]
  | cons m p ih =>
    obtain ⟨name, v⟩ := m
    simp only [hailEntries, Option.bind_eq_bind, Option.bind_eq_some_iff, Option.some.injEq,
      List.forall₂_cons_left_iff, ih, textOf_eq_some]
    constructor
    · rintro ⟨key, hkey, value, hvalue, entries, hentries, rfl⟩
      exact ⟨(.text key, value), entries, ⟨key, hkey, rfl, hvalue⟩, hentries, rfl⟩
    · rintro ⟨⟨_, value⟩, entries, ⟨key, hkey, rfl, hvalue⟩, hentries, rfl⟩
      exact ⟨key, hkey, value, hvalue, entries, hentries, rfl⟩

end Values

/-- The value is the diagnostic form of this one. -/
def Shows (v : Js) (value : Value) : Prop := hailValue v = some (convertToDiagnostic false value)

/-- A property and the member that it shows. -/
def ShowsMember (m : JsString × Js) (e : Value × Value) : Prop :=
  ∃ name, m.1 = js name ∧ e.1 = .text name ∧ Shows m.2 e.2

section Forms

variable {v : Js} {p : Properties} {r : Record}

theorem shows_text {t : String} : Shows v (.text t) ↔ v = .string (js t) := by
  cases v with
  | string s => simp [Shows, hailValue, convertToDiagnostic, textOf_eq_some]
  | _ => simp [Shows, hailValue, convertToDiagnostic]

theorem shows_int {n : Int} : Shows v (.int n) ↔ v = .number n := by
  cases v with
  | number m => simp [Shows, hailValue, convertToDiagnostic]
  | _ => simp [Shows, hailValue, convertToDiagnostic]

theorem shows_array {values : List Value} :
    Shows v (.array values) ↔ ∃ l, v = .array l ∧ List.Forall₂ Shows l values := by
  cases v with
  | array l =>
    simp only [Shows, hailValue, convertToDiagnostic, convertItems_eq_map, Option.map_eq_some_iff,
      Value.array.injEq, exists_eq_right, hailValues_eq_some, List.forall₂_map_right_iff,
      JsValue.array.injEq, exists_eq_left']
    rfl
  | _ => simp [Shows, hailValue, convertToDiagnostic]

theorem shows_map : Shows v (.map r) ↔ ∃ p, v = .object p ∧ List.Forall₂ ShowsMember p r := by
  cases v with
  | object p =>
    simp only [Shows, hailValue, convertToDiagnostic, convertEntries_eq_map,
      Option.map_eq_some_iff, Value.map.injEq, exists_eq_right, hailEntries_eq_some,
      List.forall₂_map_right_iff, JsValue.object.injEq, exists_eq_left']
    rfl
  | _ => simp [Shows, hailValue, convertToDiagnostic]

mutual

/-- What is read of a value is shown by it. -/
theorem shows_of_fromJson {json value : Value} {parent : Option Record} {key : Option String} :
    (v : Js) → hailValue v = some json → fromJson parent key json = .ok value →
      json = convertToDiagnostic false value
  | .null, hjson, hread => by
      cases hjson
      cases hread
      rfl
  | .boolean b, hjson, hread => by
      cases hjson
      cases hread
      rfl
  | .number n, hjson, hread => by
      cases hjson
      cases hread
      rfl
  | .string s, hjson, hread => by
      simp only [hailValue, Option.map_eq_some_iff] at hjson
      obtain ⟨t, _, rfl⟩ := hjson
      simp only [fromJson] at hread
      split at hread
      · simp only [bind_eq_ok, Except.ok.injEq, decodeBase64Url_eq_ok] at hread
        obtain ⟨b, ⟨hdecode, _⟩, rfl⟩ := hread
        rw [convertToDiagnostic, ← decodeBase64Url_eq_some.1 hdecode, String.ofList_toList]
      · cases hread
        rfl
  | .array l, hjson, hread => by
      simp only [hailValue, Option.map_eq_some_iff] at hjson
      obtain ⟨items, hitems, rfl⟩ := hjson
      simp only [fromJson, bind_eq_ok, Except.ok.injEq] at hread
      obtain ⟨values, hvalues, rfl⟩ := hread
      rw [convertToDiagnostic, shows_of_fromItems l hitems hvalues]
  | .object p, hjson, hread => by
      simp only [hailValue, Option.map_eq_some_iff] at hjson
      obtain ⟨entries, hentries, rfl⟩ := hjson
      simp only [fromJson, bind_eq_ok, Except.ok.injEq] at hread
      obtain ⟨output, houtput, rfl⟩ := hread
      rw [convertToDiagnostic, shows_of_fromEntries p hentries houtput]

theorem shows_of_fromItems {items values : List Value} : (l : List Js) →
    hailValues l = some items → fromItems items = .ok values → items = convertItems false values
  | [], hitems, hvalues => by
      cases hitems
      cases hvalues
      rfl
  | v :: l, hitems, hvalues => by
      simp only [hailValues, Option.bind_eq_bind, Option.bind_eq_some_iff, Option.some.injEq]
        at hitems
      obtain ⟨item, hitem, items, hitems, rfl⟩ := hitems
      simp only [fromItems, bind_eq_ok, Except.ok.injEq] at hvalues
      obtain ⟨value, hvalue, values, hvalues, rfl⟩ := hvalues
      rw [convertItems, ← shows_of_fromJson v hitem hvalue, ← shows_of_fromItems l hitems hvalues]

theorem shows_of_fromEntries {parent entries output : Record} : (p : Properties) →
    hailEntries p = some entries → fromEntries parent entries = .ok output →
      entries = convertEntries false output
  | [], hentries, houtput => by
      cases hentries
      cases houtput
      rfl
  | (name, v) :: p, hentries, houtput => by
      simp only [hailEntries, Option.bind_eq_bind, Option.bind_eq_some_iff, Option.some.injEq]
        at hentries
      obtain ⟨key, _, json, hjson, entries, hentries, rfl⟩ := hentries
      simp only [fromEntries, bind_eq_ok, Except.ok.injEq] at houtput
      obtain ⟨value, hvalue, output, houtput, rfl⟩ := houtput
      rw [convertEntries, Bool.false_and, if_neg Bool.false_ne_true,
        ← shows_of_fromJson v hjson hvalue, ← shows_of_fromEntries p hentries houtput]

end

end Forms

section Objects

variable {p : Properties} {r : Record} {k : String}

/-- The members of a map are shown by the properties of an object. -/
def Members (p : Properties) (r : Record) : Prop :=
  ∀ k, Option.Rel Shows (getProperty p k) (r.get k)

theorem members_of_forall₂ (h : List.Forall₂ ShowsMember p r) : Members p r := by
  intro k
  induction h with
  | nil => exact .none
  | @cons m e p r hm _ ih =>
    obtain ⟨name, hname, hkey, hshows⟩ := hm
    rw [getProperty_eq, ownProperty_cons, hname]
    by_cases hk : name = k
    · subst hk
      have hget : Record.get (e :: r) name = some e.2 := by
        simp [Record.get, Value.isText_iff, hkey]
      rw [if_pos rfl, hget]
      exact .some hshows
    · have hget : Record.get (e :: r) k = Record.get r k := by
        simp [Record.get, Value.isText, hkey, hk]
      rw [if_neg (mt js_inj.1 hk), hget]
      exact ih

theorem Shows.members {v : Js} (h : Shows v (.map r)) : ∃ p, v = .object p ∧ Members p r := by
  obtain ⟨p, rfl, hp⟩ := shows_map.1 h
  exact ⟨p, rfl, members_of_forall₂ hp⟩

theorem Members.get_none (h : Members p r) (hget : r.get k = none) : getProperty p k = none := by
  have hrel := h k
  rw [hget] at hrel
  generalize getProperty p k = o at hrel ⊢
  cases hrel
  rfl

theorem Members.get_some {value : Value} (h : Members p r) (hget : r.get k = some value) :
    ∃ v, getProperty p k = some v ∧ Shows v value := by
  have hrel := h k
  rw [hget] at hrel
  generalize getProperty p k = o at hrel ⊢
  cases hrel with
  | @some v _ hv => exact ⟨v, rfl, hv⟩

theorem Members.get_text {t : String} (h : Members p r) (hget : r.get k = some (.text t)) :
    getProperty p k = some (.string (js t)) := by
  obtain ⟨v, hv, hshows⟩ := h.get_some hget
  rw [hv, shows_text.1 hshows]

theorem Members.get_int {n : Int} (h : Members p r) (hget : r.get k = some (.int n)) :
    getProperty p k = some (.number n) := by
  obtain ⟨v, hv, hshows⟩ := h.get_some hget
  rw [hv, shows_int.1 hshows]

theorem Members.get_array {values : List Value} (h : Members p r)
    (hget : r.get k = some (.array values)) :
    ∃ l, getProperty p k = some (.array l) ∧ List.Forall₂ Shows l values := by
  obtain ⟨v, hv, hshows⟩ := h.get_some hget
  obtain ⟨l, rfl, hl⟩ := shows_array.1 hshows
  exact ⟨l, hv, hl⟩

end Objects

section Accepted

variable {lib : Libraries} {cborg : Codec.TypeScript.Cborg} {v body : Js}

theorem isText_eq_true {o : Option Js} {t : String} :
    isText o t = true ↔ o = some (.string (js t)) := by
  unfold isText
  split
  · simp
  · rename_i h
    simp only [Bool.false_eq_true, false_iff]
    rintro rfl
    exact h _ rfl

/-- The value shows a payload of this type, which is within the limits as it is and as JSON. -/
def IsPayload (lib : Libraries) (kind : PayloadType) (v : Js) : Prop :=
  ∃ value, Shows v value ∧ Decoded value ∧ Codec.TypeScript.diagnosticSize value ≤ 1048576 ∧
    Codec.TypeScript.validatePayload lib kind value = .ok ()

theorem IsPayload.of_encodeJson {kind : PayloadType} {u : Unit}
    (h : encodeJson lib cborg kind v = .ok u) : IsPayload lib kind v := by
  unfold encodeJson at h
  split at h
  · cases h
  · rename_i json hjson
    dsimp only at h
    split at h
    · cases h
    · rename_i bytes hencoded
      simp only [bind_eq_ok, Codec.TypeScript.fromDiagnosticJson, encodePayload,
        Codec.TypeScript.encodeDeterministic, Except.ok.injEq] at hencoded
      obtain ⟨value, ⟨_, hassert, value, hread, _, _, rfl⟩, _, hvalid, _, hdecoded, _⟩ := hencoded
      have hshows := shows_of_fromJson v hjson hread
      rw [hshows] at hassert
      exact ⟨value, hjson.trans (congrArg some hshows), hdecoded,
        (Codec.TypeScript.assertHailValue_convertToDiagnostic hdecoded).1 hassert, hvalid⟩

/-- An accepted body follows the rules of its profile. -/
theorem validateBody_sound (h : validateBody lib cborg v = .ok body) :
    body = v ∧ ∃ p m, v = .object p ∧ Members p m ∧
      (isText (getProperty p "profile") "spt-3" = false ∧
        Spt2Schema (fun name => Codec.TypeScript.attachmentFilename lib name = true)
          (fun href => Codec.TypeScript.linkHref lib href = true) m ∨
      isText (getProperty p "profile") "spt-3" = true ∧
        Spt3Schema lib (fun name => Codec.TypeScript.attachmentFilename lib name = true)
          (fun href => Codec.TypeScript.linkHref lib href = true) m) := by
  simp only [validateBody, bind_eq_ok] at h
  obtain ⟨_, _, p, hobject, h⟩ := h
  split at h
  · cases h
  · simp only [bind_eq_ok, Except.ok.injEq] at h
    obtain ⟨_, _, _, hencode, rfl⟩ := h
    obtain ⟨value, hshows, hdecoded, _, hvalid⟩ := IsPayload.of_encodeJson hencode
    have hkind : (if isText (getProperty p "profile") "spt-3" then PayloadType.bodySpt3
        else .bodySpt2) ∈ bodyTypes := by
      split <;> simp [bodyTypes]
    obtain ⟨m, rfl, hrules⟩ := (Codec.TypeScript.validateBody_eq_ok hkind hdecoded).1 hvalid
    obtain ⟨q, rfl, hmembers⟩ := hshows.members
    cases hobject
    refine ⟨rfl, p, m, rfl, hmembers, ?_⟩
    cases hprofile : isText (getProperty p "profile") "spt-3" with
    | false =>
      rw [hprofile] at hrules
      exact .inl ⟨rfl, hrules⟩
    | true =>
      rw [hprofile] at hrules
      exact .inr ⟨rfl, hrules⟩

theorem validateBody_of_isOk (h : (validateBody lib cborg v).isOk = true) :
    validateBody lib cborg v = .ok v := by
  cases hbody : validateBody lib cborg v with
  | error fault =>
    rw [hbody] at h
    cases h
  | ok body => rw [(validateBody_sound hbody).1]

end Accepted

end HailProto.Content.Builder
