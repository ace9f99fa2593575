import HailProto.Cbor.Value

/-!
# Texts and their code units

A text is a sequence of characters. JavaScript measures and slices it in UTF-16 code units, Go
and Rust in bytes, and the patterns of the format name ASCII characters alone. On an ASCII text
the three views are one list, and any other text has a unit outside ASCII in each of them.
-/

namespace HailProto.Codec

open Cbor (asBytes)

/-- The UTF-16 code units of a character. -/
def utf16Char (c : Char) : List Nat :=
  if c.toNat < 0x10000 then [c.toNat]
  else [0xd800 + (c.toNat - 0x10000) / 0x400, 0xdc00 + (c.toNat - 0x10000) % 0x400]

/-- The UTF-16 code units of a text. -/
def utf16 (s : String) : List Nat := s.toList.flatMap utf16Char

/-- The UTF-8 code units of a text. -/
def utf8 (s : String) : List Nat := (asBytes s).map UInt8.toNat

/-- The code points of a text. -/
def codes (s : String) : List Nat := s.toList.map Char.toNat

def IsAscii (s : String) : Prop := ∀ c ∈ s.toList, c.toNat < 128

theorem asBytes_eq_flatMap (s : String) :
    asBytes s = s.toList.flatMap String.utf8EncodeChar := by
  have hencode (l : List Char) : l.utf8Encode.data.toList = l.flatMap String.utf8EncodeChar := by
    simp [List.utf8Encode]
  rw [asBytes, ← String.utf8Encode_toList, hencode]

theorem utf16Char_of_ascii {c : Char} (h : c.toNat < 128) : utf16Char c = [c.toNat] := by
  rw [utf16Char, if_pos (by omega)]

theorem utf8EncodeChar_of_ascii {c : Char} (h : c.toNat < 128) :
    (String.utf8EncodeChar c).map UInt8.toNat = [c.toNat] := by
  have hval : c.val.toNat ≤ 127 := by
    have hc : c.toNat = c.val.toNat := rfl
    omega
  simp only [String.utf8EncodeChar, hval, if_true, List.map_cons, List.map_nil, List.cons.injEq,
    and_true]
  have hc : c.toNat = c.val.toNat := rfl
  rw [hc]
  simp
  omega

theorem utf16_of_ascii {s : String} (h : IsAscii s) : utf16 s = codes s := by
  unfold utf16 codes
  rw [← List.flatMap_singleton' (s.toList.map Char.toNat), List.flatMap_map]
  exact List.flatMap_congr fun c hc => utf16Char_of_ascii (h c hc)

theorem utf8_of_ascii {s : String} (h : IsAscii s) : utf8 s = codes s := by
  unfold utf8 codes
  rw [asBytes_eq_flatMap, List.map_flatMap, ← List.flatMap_singleton' (s.toList.map Char.toNat),
    List.flatMap_map]
  exact List.flatMap_congr fun c hc => utf8EncodeChar_of_ascii (h c hc)

theorem utf16Char_outside_ascii {c : Char} (h : 128 ≤ c.toNat) : ∃ x ∈ utf16Char c, 128 ≤ x := by
  unfold utf16Char
  split
  · exact ⟨c.toNat, List.mem_singleton.2 rfl, h⟩
  · exact ⟨_, List.mem_cons_self, by omega⟩

theorem utf8EncodeChar_outside_ascii {c : Char} (h : 128 ≤ c.toNat) :
    ∃ b ∈ String.utf8EncodeChar c, 128 ≤ b.toNat := by
  have hval : ¬c.val.toNat ≤ 127 := by
    have hc : c.toNat = c.val.toNat := rfl
    omega
  simp only [String.utf8EncodeChar, hval, if_false]
  split
  · refine ⟨_, List.mem_cons_self, ?_⟩
    simp only [UInt8.toNat_ofNat']
    omega
  · split
    · refine ⟨_, List.mem_cons_self, ?_⟩
      simp only [UInt8.toNat_ofNat']
      omega
    · refine ⟨_, List.mem_cons_self, ?_⟩
      simp only [UInt8.toNat_ofNat']
      omega

theorem utf16_outside_ascii {s : String} (h : ¬IsAscii s) : ∃ x ∈ utf16 s, 128 ≤ x := by
  simp only [IsAscii, not_forall, not_lt] at h
  obtain ⟨c, hc, hcode⟩ := h
  obtain ⟨x, hx, hle⟩ := utf16Char_outside_ascii hcode
  exact ⟨x, List.mem_flatMap.2 ⟨c, hc, hx⟩, hle⟩

theorem utf8_outside_ascii {s : String} (h : ¬IsAscii s) : ∃ x ∈ utf8 s, 128 ≤ x := by
  simp only [IsAscii, not_forall, not_lt] at h
  obtain ⟨c, hc, hcode⟩ := h
  obtain ⟨b, hb, hle⟩ := utf8EncodeChar_outside_ascii hcode
  refine ⟨b.toNat, List.mem_map_of_mem ?_, hle⟩
  rw [asBytes_eq_flatMap]
  exact List.mem_flatMap.2 ⟨c, hc, hb⟩

/-- `[a-z0-9]`. -/
def isAlnum (x : Nat) : Bool := (97 ≤ x && x ≤ 122) || (48 ≤ x && x ≤ 57)

/-- `[a-z0-9](?:[a-z0-9-]*[a-z0-9])?`. -/
def hostLabel (xs : List Nat) : Bool :=
  xs.head?.any isAlnum && xs.getLast?.any isAlnum && xs.all fun x => isAlnum x || x == 45

/-- The local part of an address: such labels with dots between them. -/
def localPattern (xs : List Nat) : Bool := (xs.splitOn 46).all hostLabel

/-- A label of a domain, `^[a-z0-9](?:[a-z0-9-]{0,61}[a-z0-9])?$`. -/
def domainLabel (xs : List Nat) : Bool := hostLabel xs && decide (xs.length ≤ 63)

/-- The characters match the classes one by one. -/
def matchesShape (shape : List (Char → Bool)) (cs : List Char) : Bool :=
  shape.length == cs.length && (shape.zip cs).all fun (p, c) => p c

/-- `[0-9a-f]`. -/
def isHex (c : Char) : Bool := ('0' ≤ c && c ≤ '9') || ('a' ≤ c && c ≤ 'f')

/-- `^did:plc:[a-z2-7]{24}$`. -/
def didPattern (s : String) : Bool :=
  matchesShape ("did:plc:".toList.map (fun d c => c == d) ++
    List.replicate 24 fun c => ('a' ≤ c && c ≤ 'z') || ('2' ≤ c && c ≤ '7')) s.toList

/-- `^[0-9a-f]{8}-[0-9a-f]{4}-7[0-9a-f]{3}-[89ab][0-9a-f]{3}-[0-9a-f]{12}$`. -/
def uuidV7Pattern (s : String) : Bool :=
  matchesShape (List.replicate 8 isHex ++ [(· == '-')] ++ List.replicate 4 isHex ++
    [(· == '-'), (· == '7')] ++ List.replicate 3 isHex ++
    [(· == '-'), fun c => c == '8' || c == '9' || c == 'a' || c == 'b'] ++
    List.replicate 3 isHex ++ [(· == '-')] ++ List.replicate 12 isHex) s.toList

/-- `^[a-z0-9][a-z0-9._-]{0,63}$`. -/
def categoryPattern (s : String) : Bool :=
  match s.toList with
  | [] => false
  | c :: cs => isAlnum c.toNat && decide (cs.length ≤ 63) &&
      cs.all fun c => isAlnum c.toNat || c == '.' || c == '_' || c == '-'

theorem matchesShape_ascii {shape : List (Char → Bool)} {cs : List Char}
    (hshape : ∀ p ∈ shape, ∀ c, p c = true → c.toNat < 128) (h : matchesShape shape cs = true) :
    ∀ c ∈ cs, c.toNat < 128 := by
  induction shape generalizing cs with
  | nil =>
    cases cs with
    | nil =>
      intro c hc
      cases hc
    | cons c cs => simp [matchesShape] at h
  | cons p shape ih =>
    cases cs with
    | nil => simp [matchesShape] at h
    | cons c cs =>
      simp only [matchesShape, List.length_cons, List.zip_cons_cons, List.all_cons,
        Bool.and_eq_true, beq_iff_eq, Nat.add_right_cancel_iff] at h
      obtain ⟨hlength, hc, hrest⟩ := h
      intro d hd
      obtain rfl | hd := List.mem_cons.1 hd
      · exact hshape p List.mem_cons_self d hc
      · refine ih (fun q hq => hshape q (List.mem_cons_of_mem p hq)) ?_ d hd
        simp only [matchesShape, hlength, hrest, beq_self_eq_true, Bool.and_self]

/-- A DID is an ASCII text. -/
theorem isAscii_of_didPattern {s : String} (h : didPattern s = true) : IsAscii s := by
  refine matchesShape_ascii ?_ h
  intro p hp c hc
  simp only [List.mem_append, List.mem_map, List.mem_replicate] at hp
  obtain ⟨d, hd, rfl⟩ | ⟨_, rfl⟩ := hp
  · have hall : ∀ d ∈ "did:plc:".toList, d.toNat < 128 := by simp
    rw [beq_iff_eq] at hc
    rw [hc]
    exact hall d hd
  · simp only [Bool.or_eq_true, Bool.and_eq_true, decide_eq_true_eq] at hc
    have hz : ('z' : Char).toNat = 122 := rfl
    have h7 : ('7' : Char).toNat = 55 := rfl
    obtain ⟨_, hc⟩ | ⟨_, hc⟩ := hc
    · have hle := Char.le_def.1 hc
      have hcode : c.toNat ≤ ('z' : Char).toNat := hle
      omega
    · have hle := Char.le_def.1 hc
      have hcode : c.toNat ≤ ('7' : Char).toNat := hle
      omega

end HailProto.Codec
