import HailProto.Codec.Base64Url
import HailProto.Server.TextEncoding

/-!
# Base64url strings

`encodeBase64Url` and `decodeBase64Url` on the strings of JavaScript. No surrogate is in the
alphabet, so that a string with one is refused as a text with another character is.
-/

namespace HailProto.Server.Base64Url

def encodeBase64Url (bytes : List UInt8) : JsString :=
  js (String.ofList (Codec.encodeBase64Url bytes))

/-- `decodeBase64Url(value)` without an expected length. -/
def decodeBase64Url (value : JsString) : Option (List UInt8) :=
  Codec.decodeBase64Url (characters value)

/-- A unit that stands for an ASCII character is the code of that character. -/
theorem eq_of_unitChar_lt {c : CodeUnit} (h : (unitChar c).toNat < 0x80) :
    c = Fin.ofNat 65536 (unitChar c).toNat := by
  unfold unitChar at h ⊢
  split at h
  · exact absurd h (by decide)
  · rename_i hplain
    rw [if_neg hplain]
    rw [toNat_ofNat (isValidChar_of_plain hplain)]
    exact Fin.ext (Nat.mod_eq_of_lt c.isLt).symm

/-- The character of a pair is not in ASCII. -/
theorem pairChar_not_lt {c d : CodeUnit} (hc : isLead c = true) (hd : isTrail d = true) :
    ¬(pairChar c d).toNat < 0x80 := by
  rw [isLead_iff] at hc
  rw [isTrail_iff] at hd
  have hvalid : (0x10000 + (c.val - 0xd800) * 0x400 + (d.val - 0xdc00)).isValidChar := by
    unfold Nat.isValidChar
    omega
  rw [pairChar, toNat_ofNat hvalid]
  omega

/-- A string with the characters of an ASCII text has their codes for its units. -/
theorem eq_map_of_characters {s : JsString} (h : ∀ c ∈ characters s, c.toNat < 0x80) :
    s = (characters s).map fun c => Fin.ofNat 65536 c.toNat := by
  induction s using characters.induct with
  | case1 => rfl
  | case2 c =>
    have hc : (unitChar c).toNat < 0x80 := h _ (by simp [characters])
    simpa [characters] using eq_of_unitChar_lt hc
  | case3 c d rest hpair ih =>
    obtain ⟨hc, hd⟩ := Bool.and_eq_true_iff.1 hpair
    rw [characters_pair hc hd] at h
    exact absurd (h _ List.mem_cons_self) (pairChar_not_lt hc hd)
  | case4 c d rest hpair ih =>
    have hcons : characters (c :: d :: rest) = unitChar c :: characters (d :: rest) := by
      rw [characters, if_neg hpair]
    rw [hcons] at h ⊢
    have hc := eq_of_unitChar_lt (h _ List.mem_cons_self)
    have hrest := ih fun e he => h e (List.mem_cons_of_mem _ he)
    rw [List.map_cons, ← hc, ← hrest]

/-- Base64url is a bijection between the byte strings and the strings that are decoded. -/
theorem decodeBase64Url_encodeBase64Url :
    (∀ bytes, decodeBase64Url (encodeBase64Url bytes) = some bytes) ∧
      ∀ value bytes, decodeBase64Url value = some bytes ↔ value = encodeBase64Url bytes := by
  have hround : ∀ bytes, decodeBase64Url (encodeBase64Url bytes) = some bytes := by
    intro bytes
    rw [decodeBase64Url, encodeBase64Url, characters_js, String.toList_ofList,
      Codec.decode_encodeBase64Url]
  refine ⟨hround, fun value bytes => ⟨fun h => ?_, ?_⟩⟩
  · have hcharacters : characters value = Codec.encodeBase64Url bytes :=
      Codec.decodeBase64Url_eq_some.1 h
    have hascii : ∀ c ∈ Codec.encodeBase64Url bytes, c.toNat < 0x80 := fun c hc =>
      (Codec.alphabet_codes c (Codec.encodeBase64Url_alphabet bytes c hc)).2.1.trans (by decide)
    have hunits := eq_map_of_characters (s := value) (by rwa [hcharacters])
    rw [hunits, hcharacters, encodeBase64Url, js_ascii hascii]
  · rintro rfl
    exact hround bytes

end HailProto.Server.Base64Url
