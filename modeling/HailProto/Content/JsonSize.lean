import HailProto.Content.Reading

/-!
# The size of a body as JSON

The budgets of the builder count the bytes of `JSON.stringify`. The size is a sum over the parts of a
value, and a payload is at most twice as large as the JSON that shows it.
-/

namespace HailProto.Content.Builder

open Cbor (Value asBytes)
open Codec
open Codec.TypeScript (argumentSize encodedSize encodedSizes encodedEntrySizes diagnosticSize)
open Server Server.Json

section Bytes

theorem characters_js_append (t : String) (s : JsString) :
    characters (js t ++ s) = t.toList ++ characters s := by
  have hlist : ∀ l : List Char, characters (js (String.ofList l) ++ s) = l ++ characters s := by
    intro l
    induction l with
    | nil => rfl
    | cons c l ih =>
      have hcons : js (String.ofList (c :: l)) =
          (Codec.utf16Char c).map (Fin.ofNat 65536) ++ js (String.ofList l) := by
        rw [← js_ofList_singleton, ← js_ofList_append, List.singleton_append]
      rw [hcons, List.append_assoc, characters_utf16Char, ih, List.cons_append]
  have htext := hlist t.toList
  rwa [String.ofList_toList] at htext

theorem byteLength_append {s : JsString} (hs : WellFormed s) (t : JsString) :
    byteLength (s ++ t) = byteLength s + byteLength t := by
  obtain ⟨text, rfl⟩ := hs
  have hsplit : utf8Encode (js text ++ t) = utf8Encode (js text) ++ utf8Encode t := by
    simp only [utf8Encode, asBytes_eq_flatMap, String.toList_ofList, characters_js_append,
      characters_js, List.flatMap_append]
  rw [byteLength, hsplit, List.length_append]
  rfl

theorem byteLength_ascii {s : JsString} (h : ∀ c ∈ s, c < 0x80) : byteLength s = s.length := by
  rw [byteLength, utf8Encode_ascii h, List.length_map]

theorem byteLength_js (t : String) : byteLength (js t) = (asBytes t).length := by
  rw [byteLength, utf8Encode_js]

theorem byteLength_unit (c : CodeUnit) (h : c < 0x80) : byteLength [c] = 1 :=
  byteLength_ascii (by simpa using h)

/-- A unit in ASCII counts one byte. -/
theorem byteLength_cons {c : CodeUnit} (h : c < 0x80) (s : JsString) :
    byteLength (c :: s) = 1 + byteLength s := by
  have hc : WellFormed [c] := wellFormed_ascii (by simpa using h)
  rw [← List.singleton_append, byteLength_append hc, byteLength_unit c h]

end Bytes

section Size

def quoteSize (s : JsString) : ℕ := byteLength (quoteString s)

mutual

/-- The number of bytes of the JSON of a value. -/
def jsonSize : Js → ℕ
  | .null => 4
  | .boolean b => if b then 4 else 5
  | .number n => byteLength (js (toString n))
  | .string s => quoteSize s
  | .array l => 1 + max 1 (elementSizes l)
  | .object p => 1 + max 1 (memberSizes p)

/-- The elements of an array, each with the comma or bracket behind it. -/
def elementSizes : List Js → ℕ
  | [] => 0
  | v :: l => jsonSize v + 1 + elementSizes l

def memberSizes : Properties → ℕ
  | [] => 0
  | (name, v) :: p => quoteSize name + jsonSize v + 2 + memberSizes p

end

mutual

theorem wellFormed_numerals : (v : Js) → ∀ n ∈ numerals (tree v), WellFormed n
  | .null, _, hn => nomatch hn
  | .boolean _, _, hn => nomatch hn
  | .number m, _, hn => ⟨toString m, List.mem_singleton.1 hn⟩
  | .string _, _, hn => nomatch hn
  | .array l, n, hn => wellFormed_elementNumerals l n hn
  | .object p, n, hn => wellFormed_memberNumerals p n hn

theorem wellFormed_elementNumerals : (l : List Js) → ∀ n ∈ elementNumerals (trees l), WellFormed n
  | [], _, hn => nomatch hn
  | v :: l, n, hn => (List.mem_append.1 hn).elim (wellFormed_numerals v n)
      (wellFormed_elementNumerals l n)

theorem wellFormed_memberNumerals : (p : Properties) →
    ∀ n ∈ memberNumerals (memberTrees p), WellFormed n
  | [], _, hn => nomatch hn
  | (_, v) :: p, n, hn => (List.mem_append.1 hn).elim (wellFormed_numerals v n)
      (wellFormed_memberNumerals p n)

end

theorem wellFormed_stringify (v : Js) : WellFormed (stringify v) :=
  wellFormed_write (tree v) (wellFormed_numerals v)

theorem byteLength_write {v : Js} (hv : byteLength (stringify v) = jsonSize v) (t : JsString) :
    byteLength (write (tree v) ++ t) = jsonSize v + byteLength t := by
  rw [← hv]
  exact byteLength_append (wellFormed_stringify v) t

mutual

theorem byteLength_stringify (v : Js) : byteLength (stringify v) = jsonSize v := by
  match v with
  | .null => rfl
  | .boolean true => rfl
  | .boolean false => rfl
  | .number n => rfl
  | .string s => rfl
  | .array l =>
    have helements := byteLength_elements l
    rw [stringify, tree, write, byteLength_cons (by decide), helements, jsonSize]
  | .object p =>
    have hmembers := byteLength_members p
    rw [stringify, tree, write, byteLength_cons (by decide), hmembers, jsonSize]

theorem byteLength_elements (l : List Js) :
    byteLength (writeElements (trees l)) = max 1 (elementSizes l) := by
  match l with
  | [] => rfl
  | [v] =>
    have hv := byteLength_stringify v
    have hclose : byteLength [closeBracket] = 1 := byteLength_unit _ (by decide)
    have hwrite : byteLength (writeElements (trees [v])) = jsonSize v + 1 := by
      rw [trees, trees, writeElements, byteLength_write hv, hclose]
    simp only [hwrite, elementSizes]
    omega
  | v :: w :: l =>
    have hv := byteLength_stringify v
    have hrest := byteLength_elements (w :: l)
    have hwrite : byteLength (writeElements (trees (v :: w :: l))) =
        jsonSize v + (1 + byteLength (writeElements (trees (w :: l)))) := by
      rw [trees, trees, writeElements, byteLength_write hv, byteLength_cons (by decide)]
    simp only [hwrite, hrest, elementSizes]
    omega

theorem byteLength_members (p : Properties) :
    byteLength (writeMembers (memberTrees p)) = max 1 (memberSizes p) := by
  match p with
  | [] => rfl
  | [(name, v)] =>
    have hv := byteLength_stringify v
    have hclose : byteLength [closeBrace] = 1 := byteLength_unit _ (by decide)
    have hwrite : byteLength (writeMembers (memberTrees [(name, v)])) =
        quoteSize name + (1 + (jsonSize v + 1)) := by
      rw [memberTrees, memberTrees, writeMembers, byteLength_append (wellFormed_quoteString name),
        byteLength_cons (by decide), byteLength_write hv, hclose]
      rfl
    simp only [hwrite, memberSizes]
    omega
  | (name, v) :: m :: p =>
    have hv := byteLength_stringify v
    have hrest := byteLength_members (m :: p)
    have hwrite : byteLength (writeMembers (memberTrees ((name, v) :: m :: p))) =
        quoteSize name + (1 + (jsonSize v +
          (1 + byteLength (writeMembers (memberTrees (m :: p)))))) := by
      rw [memberTrees, memberTrees, writeMembers, byteLength_append (wellFormed_quoteString name),
        byteLength_cons (by decide), byteLength_write hv, byteLength_cons (by decide)]
      rfl
    simp only [hwrite, hrest, memberSizes]
    omega

end

end Size

section Bounds

/-- A surrogate without its partner counts as the replacement character. -/
theorem byteLength_surrogate {c : CodeUnit} (h : (isLead c || isTrail c) = true) :
    byteLength [c] = 3 := by
  have hchar : characters [c] = [Char.ofNat 0xfffd] := by
    rw [characters, unitChar, if_pos h]
  rw [byteLength, utf8Encode, hchar]
  rfl

theorem byteLength_escapeUnit (c : CodeUnit) : byteLength [c] ≤ byteLength (escapeUnit c) := by
  have hescape : ∀ e d : CodeUnit, c = e → e < 0x80 → d < 0x80 →
      byteLength [c] ≤ byteLength [backslash, d] := by
    rintro e d rfl he hd
    rw [byteLength_unit c he, byteLength_cons (by decide), byteLength_unit d hd]
    omega
  unfold escapeUnit
  split_ifs with h₁ h₂ h₃ h₄ h₅ h₆ h₇ h₈
  · exact hescape _ _ h₁ (by decide) (by decide)
  · exact hescape _ _ h₂ (by decide) (by decide)
  · exact hescape _ _ h₃ (by decide) (by decide)
  · exact hescape _ _ h₄ (by decide) (by decide)
  · exact hescape _ _ h₅ (by decide) (by decide)
  · exact hescape _ _ h₆ (by decide) (by decide)
  · exact hescape _ _ h₇ (by decide) (by decide)
  · have hsix : byteLength (unicodeEscape c) = 6 := byteLength_ascii (unicodeEscape_ascii c)
    rw [hsix]
    rcases h₈ with hlow | hsurrogate
    · rw [byteLength_unit c (hlow.trans (by decide))]
      omega
    · rw [byteLength_surrogate hsurrogate]
      omega
  · exact le_rfl

theorem byteLength_quoteUnits (s : JsString) : byteLength s ≤ byteLength (quoteUnits s) := by
  fun_induction quoteUnits s with
  | case1 => exact le_rfl
  | case2 c => exact byteLength_escapeUnit c
  | case3 c d rest hpair ih =>
    rw [Bool.and_eq_true] at hpair
    have hwell := WellFormed.pair hpair.1 hpair.2
    have hsplit : ∀ t : JsString, byteLength (c :: d :: t) = byteLength [c, d] + byteLength t :=
      fun t => byteLength_append hwell t
    rw [hsplit rest, hsplit (quoteUnits rest)]
    omega
  | case4 c d rest hpair ih =>
    have hsplit : byteLength (c :: d :: rest) = byteLength [c] + byteLength (d :: rest) := by
      have hunit : characters [c] = [unitChar c] := rfl
      have hchars : characters (c :: d :: rest) = [unitChar c] ++ characters (d :: rest) := by
        rw [characters, if_neg hpair, List.singleton_append]
      simp only [byteLength, utf8Encode, asBytes_eq_flatMap, String.toList_ofList, hchars, hunit,
        List.flatMap_append, List.length_append]
    rw [hsplit, byteLength_append (wellFormed_escapeUnit c)]
    have hunit := byteLength_escapeUnit c
    omega

theorem byteLength_le_quoteSize (s : JsString) : byteLength s + 2 ≤ quoteSize s := by
  have hunits := byteLength_quoteUnits s
  rw [quoteSize, quoteString, byteLength_cons (by decide),
    byteLength_append (wellFormed_quoteUnits s), byteLength_unit _ (by decide)]
  omega

/-- A text is encoded in at most twice the bytes of its JSON. -/
theorem textSize_le (t : String) :
    argumentSize (asBytes t).length + (asBytes t).length ≤ 2 * quoteSize (js t) := by
  have hquote := byteLength_le_quoteSize (js t)
  rw [byteLength_js] at hquote
  unfold argumentSize
  split_ifs <;> omega

theorem length_le_asBytes (t : String) : t.toList.length ≤ (asBytes t).length := by
  rw [asBytes_eq_flatMap]
  induction t.toList with
  | nil => exact le_rfl
  | cons c l ih =>
    have hpos : 0 < (String.utf8EncodeChar c).length := by
      rw [String.length_utf8EncodeChar]
      exact c.utf8Size_pos
    rw [List.flatMap_cons, List.length_append, List.length_cons]
    omega

theorem argumentSize_le_digits {m n : ℕ} (h : m ≤ n) :
    argumentSize m ≤ 2 * (Nat.toDigits 10 n).length := by
  have hle : ∀ k : ℕ, 0 < k → (Nat.toDigits 10 n).length ≤ k → n < 10 ^ k := fun k hk hk' =>
    (Nat.length_toDigits_le_iff (by decide) hk).1 hk'
  have hpos : 0 < (Nat.toDigits 10 n).length := Nat.length_toDigits_pos
  have hone := hle 1 (by decide)
  have htwo := hle 2 (by decide)
  have hfour := hle 4 (by decide)
  unfold argumentSize
  split_ifs <;> omega

/-- A number is encoded in at most twice the bytes of its numeral. -/
theorem numberSize_le (n : ℤ) : encodedSize (.int n) ≤ 2 * jsonSize (.number n) := by
  have hbytes := length_le_asBytes (toString n)
  rw [jsonSize, byteLength_js, encodedSize]
  cases n with
  | ofNat k =>
    have hdigits : (toString (Int.ofNat k)).toList = Nat.toDigits 10 k := Nat.toList_repr
    have hsize := argumentSize_le_digits (le_refl k)
    rw [hdigits] at hbytes
    simp only [Int.ofNat_eq_natCast, Int.natCast_nonneg, if_true, Int.toNat_natCast] at hbytes ⊢
    omega
  | negSucc k =>
    have hdigits : (toString (Int.negSucc k)).toList = '-' :: Nat.toDigits 10 (k + 1) := by
      rw [← Nat.toList_repr]
      exact String.toList_append
    have hsize := argumentSize_le_digits (Nat.le_add_right k 1)
    have hcode : (-1 - Int.negSucc k).toNat = k := by omega
    rw [hdigits, List.length_cons] at hbytes
    rw [if_neg (by omega), hcode]
    omega

theorem argumentSize_le (n : ℕ) : argumentSize n ≤ 2 + 2 * n := by
  unfold argumentSize
  split_ifs <;> omega

mutual

theorem encodedSize_le {json : Value} : (v : Js) → hailValue v = some json →
    encodedSize json ≤ 2 * jsonSize v
  | .null, h => by
      cases h
      simp [encodedSize, jsonSize]
  | .boolean b, h => by
      cases h
      cases b <;> simp [encodedSize, jsonSize]
  | .number n, h => by
      cases h
      exact numberSize_le n
  | .string s, h => by
      simp only [hailValue, Option.map_eq_some_iff, textOf_eq_some] at h
      obtain ⟨t, rfl, rfl⟩ := h
      exact textSize_le t
  | .array l, h => by
      simp only [hailValue, Option.map_eq_some_iff] at h
      obtain ⟨values, hvalues, rfl⟩ := h
      obtain ⟨hsizes, hlength⟩ := encodedSizes_le l hvalues
      have hhead := argumentSize_le values.length
      simp only [encodedSize, jsonSize]
      omega
  | .object p, h => by
      simp only [hailValue, Option.map_eq_some_iff] at h
      obtain ⟨entries, hentries, rfl⟩ := h
      obtain ⟨hsizes, hlength⟩ := encodedEntrySizes_le p hentries
      have hhead := argumentSize_le entries.length
      simp only [encodedSize, jsonSize]
      omega

theorem encodedSizes_le {values : List Value} : (l : List Js) → hailValues l = some values →
    encodedSizes values + 2 * values.length ≤ 2 * elementSizes l ∧ values.length ≤ elementSizes l
  | [], h => by
      cases h
      exact ⟨le_rfl, le_rfl⟩
  | v :: l, h => by
      simp only [hailValues, Option.bind_eq_bind, Option.bind_eq_some_iff, Option.some.injEq] at h
      obtain ⟨value, hvalue, values, hvalues, rfl⟩ := h
      have hv := encodedSize_le v hvalue
      obtain ⟨hsizes, hlength⟩ := encodedSizes_le l hvalues
      simp only [encodedSizes, elementSizes, List.length_cons]
      omega

theorem encodedEntrySizes_le {entries : List (Value × Value)} : (p : Properties) →
    hailEntries p = some entries →
      encodedEntrySizes entries + 2 * entries.length ≤ 2 * memberSizes p ∧
        entries.length ≤ memberSizes p
  | [], h => by
      cases h
      exact ⟨le_rfl, le_rfl⟩
  | (name, v) :: p, h => by
      simp only [hailEntries, Option.bind_eq_bind, Option.bind_eq_some_iff, Option.some.injEq,
        textOf_eq_some] at h
      obtain ⟨key, rfl, value, hvalue, entries, hentries, rfl⟩ := h
      have hv := encodedSize_le v hvalue
      have hkey := textSize_le key
      obtain ⟨hsizes, hlength⟩ := encodedEntrySizes_le p hentries
      simp only [encodedEntrySizes, memberSizes, List.length_cons, Value.keyText]
      omega

end

/-- A payload is at most twice as large as the JSON that shows it. -/
theorem Shows.diagnosticSize_le {v : Js} {value : Value} (h : Shows v value) :
    diagnosticSize value ≤ 2 * jsonSize v := by
  rw [← Codec.TypeScript.encodedSize_convertToDiagnostic]
  exact encodedSize_le v h

end Bounds

end HailProto.Content.Builder
