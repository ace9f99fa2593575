import HailProto.Server.JsonStringify

/-!
# Strings as UTF-8

`TextEncoder` and `Buffer` write a string as UTF-8, with the replacement character for a surrogate
without its partner. A decoder that is fatal reads back what the bytes of a text stand for.
-/

namespace HailProto.Server

open Cbor (asBytes fromUtf8)

/-- The character of a unit that is not in a pair. -/
def unitChar (c : CodeUnit) : Char :=
  if isLead c || isTrail c then Char.ofNat 0xfffd else Char.ofNat c.val

/-- The character of a pair of surrogates. -/
def pairChar (c d : CodeUnit) : Char :=
  Char.ofNat (0x10000 + (c.val - 0xd800) * 0x400 + (d.val - 0xdc00))

/-- The characters of a string. -/
def characters : JsString → List Char
  | [] => []
  | [c] => [unitChar c]
  | c :: d :: rest =>
    if isLead c && isTrail d then pairChar c d :: characters rest
    else unitChar c :: characters (d :: rest)

/-- `new TextEncoder().encode(s)` and `Buffer.from(s)` -/
def utf8Encode (s : JsString) : List UInt8 := asBytes (String.ofList (characters s))

/-- `new TextDecoder("utf-8",{fatal:true}).decode(bytes)`, which drops a byte order mark. -/
def utf8Decode (bytes : List UInt8) : Option JsString :=
  (fromUtf8 (if [0xef, 0xbb, 0xbf] <+: bytes then bytes.drop 3 else bytes)).map js

theorem characters_unit {c : CodeUnit} (hc : ¬(isLead c || isTrail c)) (rest : JsString) :
    characters (c :: rest) = Char.ofNat c.val :: characters rest := by
  have hlead : isLead c = false := by
    simp only [Bool.or_eq_true, not_or, Bool.not_eq_true] at hc
    exact hc.1
  cases rest with
  | nil => simp only [characters, unitChar, if_neg hc]
  | cons d rest =>
    have hnopair : ¬(isLead c && isTrail d) = true := by simp [hlead]
    rw [characters, if_neg hnopair, unitChar, if_neg hc]

theorem characters_pair {c d : CodeUnit} (hc : isLead c = true) (hd : isTrail d = true)
    (rest : JsString) : characters (c :: d :: rest) = pairChar c d :: characters rest := by
  rw [characters, hc, hd, Bool.and_self, if_pos rfl]

/-- The units of a character are read back as the character. -/
theorem characters_utf16Char (c : Char) (rest : JsString) :
    characters ((Codec.utf16Char c).map (Fin.ofNat 65536) ++ rest) = c :: characters rest := by
  have hvalid : c.toNat.isValidChar := c.valid
  have hself : Char.ofNat c.toNat = c := Char.ofNat_toNat c
  unfold Nat.isValidChar at hvalid
  by_cases hbmp : c.toNat < 0x10000
  · have hval : (Fin.ofNat 65536 c.toNat).val = c.toNat := Nat.mod_eq_of_lt hbmp
    have hplain : ¬(isLead (Fin.ofNat 65536 c.toNat) || isTrail (Fin.ofNat 65536 c.toNat)) := by
      rw [Bool.or_eq_true, isLead_iff, isTrail_iff, hval]
      omega
    rw [Codec.utf16Char, if_pos hbmp, List.map_singleton, List.singleton_append,
      characters_unit hplain, hval, hself]
  · have hlead : (Fin.ofNat 65536 (0xd800 + (c.toNat - 0x10000) / 0x400)).val =
        0xd800 + (c.toNat - 0x10000) / 0x400 := Nat.mod_eq_of_lt (by omega)
    have htrail : (Fin.ofNat 65536 (0xdc00 + (c.toNat - 0x10000) % 0x400)).val =
        0xdc00 + (c.toNat - 0x10000) % 0x400 := Nat.mod_eq_of_lt (by omega)
    rw [Codec.utf16Char, if_neg hbmp]
    simp only [List.map_cons, List.map_nil, List.cons_append, List.nil_append]
    rw [characters_pair, pairChar, hlead, htrail]
    · have hcode : 0x10000 + (0xd800 + (c.toNat - 0x10000) / 0x400 - 0xd800) * 0x400 +
          (0xdc00 + (c.toNat - 0x10000) % 0x400 - 0xdc00) = c.toNat := by omega
      rw [hcode, hself]
    · rw [isLead_iff, hlead]
      omega
    · rw [isTrail_iff, htrail]
      omega

/-- ASCII characters are one unit each. -/
theorem js_ascii {l : List Char} (h : ∀ c ∈ l, c.toNat < 128) :
    js (String.ofList l) = l.map fun c => Fin.ofNat 65536 c.toNat := by
  induction l with
  | nil => rfl
  | cons c l ih =>
    have hunit := Codec.utf16Char_of_ascii (h c List.mem_cons_self)
    have hcons : js (String.ofList (c :: l)) =
        (Codec.utf16Char c).map (Fin.ofNat 65536) ++ js (String.ofList l) := by
      rw [← js_ofList_singleton, ← js_ofList_append, List.singleton_append]
    rw [hcons, hunit, ih fun d hd => h d (List.mem_cons_of_mem c hd)]
    rfl

/-- The characters of the units of a text are the text. -/
theorem characters_js (text : String) : characters (js text) = text.toList := by
  have hlist : ∀ l : List Char, characters (js (String.ofList l)) = l := by
    intro l
    induction l with
    | nil => rfl
    | cons c l ih =>
      have hcons : js (String.ofList (c :: l)) =
          (Codec.utf16Char c).map (Fin.ofNat 65536) ++ js (String.ofList l) := by
        rw [← js_ofList_singleton, ← js_ofList_append, List.singleton_append]
      rw [hcons, characters_utf16Char, ih]
  have htext := hlist text.toList
  rwa [String.ofList_toList] at htext

theorem utf8Encode_js (text : String) : utf8Encode (js text) = asBytes text := by
  rw [utf8Encode, characters_js, String.ofList_toList]

/-- A well-formed string that does not begin with a byte order mark is read back. -/
theorem utf8Decode_utf8Encode {s : JsString} (h : WellFormed s)
    (hmark : ¬[0xef, 0xbb, 0xbf] <+: utf8Encode s) : utf8Decode (utf8Encode s) = some s := by
  obtain ⟨text, rfl⟩ := h
  rw [utf8Decode, if_neg hmark, utf8Encode_js, Cbor.fromUtf8_eq_some.2 rfl, Option.map_some]

/-- The units of an ASCII string are its bytes. -/
theorem utf8Encode_ascii {s : JsString} (h : ∀ c ∈ s, c < 0x80) :
    utf8Encode s = s.map fun c => UInt8.ofNat c.val := by
  have hbytes : ∀ l : List Char, asBytes (String.ofList l) = l.flatMap String.utf8EncodeChar := by
    intro l
    rw [Codec.asBytes_eq_flatMap, String.toList_ofList]
  rw [utf8Encode, hbytes]
  induction s with
  | nil => rfl
  | cons c s ih =>
    have hlt : c.val < 128 := h c List.mem_cons_self
    have hplain : ¬(isLead c || isTrail c) := by
      have hlead : ¬0xd800 ≤ c := fun hle => absurd (hle.trans_lt (h c List.mem_cons_self)) (by decide)
      have htrail : ¬0xdc00 ≤ c := fun hle => absurd (hle.trans_lt (h c List.mem_cons_self)) (by decide)
      simp [isLead, isTrail, hlead, htrail]
    have hcode : (Char.ofNat c.val).toNat = c.val :=
      toNat_ofNat (by unfold Nat.isValidChar; omega)
    have hunit : String.utf8EncodeChar (Char.ofNat c.val) = [UInt8.ofNat c.val] := by
      have hval := Codec.utf8EncodeChar_of_ascii (c := Char.ofNat c.val) (by omega)
      rw [hcode] at hval
      obtain ⟨b, rest, hcons⟩ := List.exists_cons_of_ne_nil
        (l := String.utf8EncodeChar (Char.ofNat c.val)) (by rintro hnil; simp [hnil] at hval)
      rw [hcons, List.map_cons, List.cons.injEq, List.map_eq_nil_iff] at hval
      obtain ⟨hb, rfl⟩ := hval
      rw [hcons, ← hb, UInt8.ofNat_toNat]
    rw [characters_unit hplain, List.flatMap_cons, hunit, ih fun d hd =>
      h d (List.mem_cons_of_mem c hd)]
    rfl

end HailProto.Server
