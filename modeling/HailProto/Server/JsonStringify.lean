import HailProto.Server.Json

/-!
# What `JSON.stringify` writes

The texts that `JSON.stringify` writes without indentation: no white space, control characters
and the surrogates without a partner as escapes, and every other unit as it is. What it writes is
a text of the value it was given, and it is well formed, so that an encoding as UTF-8 loses
nothing of it.
-/

namespace HailProto.Server

/-- A high surrogate, the first unit of a pair. -/
def isLead (c : CodeUnit) : Bool := decide (0xd800 ≤ c) && decide (c ≤ 0xdbff)

/-- A low surrogate, the second unit of a pair. -/
def isTrail (c : CodeUnit) : Bool := decide (0xdc00 ≤ c) && decide (c ≤ 0xdfff)

/-- A string whose surrogates are in pairs: the units of a text. -/
def WellFormed (s : JsString) : Prop := ∃ text : String, s = js text

theorem isLead_iff {c : CodeUnit} : isLead c = true ↔ 0xd800 ≤ c.val ∧ c.val ≤ 0xdbff := by
  have hbounds : ((0xd800 : CodeUnit).val, (0xdbff : CodeUnit).val) = (0xd800, 0xdbff) := rfl
  rw [Prod.mk.injEq] at hbounds
  simp only [isLead, Bool.and_eq_true, decide_eq_true_eq, Fin.le_def, hbounds]

theorem isTrail_iff {c : CodeUnit} : isTrail c = true ↔ 0xdc00 ≤ c.val ∧ c.val ≤ 0xdfff := by
  have hbounds : ((0xdc00 : CodeUnit).val, (0xdfff : CodeUnit).val) = (0xdc00, 0xdfff) := rfl
  rw [Prod.mk.injEq] at hbounds
  simp only [isTrail, Bool.and_eq_true, decide_eq_true_eq, Fin.le_def, hbounds]

theorem toNat_ofNat {n : ℕ} (h : n.isValidChar) : (Char.ofNat n).toNat = n := by
  rw [Char.ofNat, dif_pos h]
  rfl

theorem js_ofList_append (a b : List Char) :
    js (String.ofList (a ++ b)) = js (String.ofList a) ++ js (String.ofList b) := by
  simp [js, Codec.utf16]

theorem js_ofList_singleton (c : Char) :
    js (String.ofList [c]) = (Codec.utf16Char c).map (Fin.ofNat 65536) := by
  simp [js, Codec.utf16]

theorem WellFormed.nil : WellFormed [] := ⟨"", rfl⟩

theorem WellFormed.append {s t : JsString} (hs : WellFormed s) (ht : WellFormed t) :
    WellFormed (s ++ t) := by
  obtain ⟨a, rfl⟩ := hs
  obtain ⟨b, rfl⟩ := ht
  refine ⟨String.ofList (a.toList ++ b.toList), ?_⟩
  rw [js_ofList_append, String.ofList_toList, String.ofList_toList]

/-- A unit that is no surrogate is the code of a character. -/
theorem isValidChar_of_plain {c : CodeUnit} (hc : ¬(isLead c || isTrail c)) :
    c.val.isValidChar := by
  have hlt := c.isLt
  rw [Bool.or_eq_true, isLead_iff, isTrail_iff] at hc
  unfold Nat.isValidChar
  omega

/-- A unit that is no surrogate is a text. -/
theorem WellFormed.unit {c : CodeUnit} (hc : ¬(isLead c || isTrail c)) : WellFormed [c] := by
  have hvalid : c.val.isValidChar := isValidChar_of_plain hc
  refine ⟨String.ofList [Char.ofNat c.val], ?_⟩
  have htoNat : (Char.ofNat c.val).toNat = c.val := toNat_ofNat hvalid
  rw [js_ofList_singleton, Codec.utf16Char, htoNat, if_pos c.isLt]
  simp

/-- A pair of surrogates is a text. -/
theorem WellFormed.pair {c d : CodeUnit} (hc : isLead c = true) (hd : isTrail d = true) :
    WellFormed [c, d] := by
  rw [isLead_iff] at hc
  rw [isTrail_iff] at hd
  let code := 0x10000 + (c.val - 0xd800) * 0x400 + (d.val - 0xdc00)
  have hvalid : code.isValidChar := by
    unfold Nat.isValidChar
    omega
  refine ⟨String.ofList [Char.ofNat code], ?_⟩
  have htoNat : (Char.ofNat code).toNat = code := toNat_ofNat hvalid
  have hlead : 0xd800 + (code - 0x10000) / 0x400 = c.val := by omega
  have htrail : 0xdc00 + (code - 0x10000) % 0x400 = d.val := by omega
  rw [js_ofList_singleton, Codec.utf16Char, htoNat, if_neg (by omega), hlead, htrail]
  simp

namespace Json

/-- The hexadecimal digit of a number below sixteen. -/
def hexLetter (digit : ℕ) : CodeUnit :=
  Fin.ofNat 65536 (if digit < 10 then 0x30 + digit else 0x57 + digit)

/-- A unit as an escape with four hexadecimal digits. -/
def unicodeEscape (c : CodeUnit) : JsString :=
  [backslash, 0x75, hexLetter (c.val / 4096), hexLetter (c.val / 256 % 16),
    hexLetter (c.val / 16 % 16), hexLetter (c.val % 16)]

/-- A unit that is not the first of a pair, between quotes. -/
def escapeUnit (c : CodeUnit) : JsString :=
  if c = 0x08 then [backslash, 0x62]
  else if c = 0x09 then [backslash, 0x74]
  else if c = 0x0a then [backslash, 0x6e]
  else if c = 0x0c then [backslash, 0x66]
  else if c = 0x0d then [backslash, 0x72]
  else if c = quote then [backslash, quote]
  else if c = backslash then [backslash, backslash]
  else if c < 0x20 ∨ isLead c || isTrail c then unicodeEscape c
  else [c]

/-- The units of a string between quotes. -/
def quoteUnits : JsString → JsString
  | [] => []
  | [c] => escapeUnit c
  | c :: d :: rest =>
    if isLead c && isTrail d then c :: d :: quoteUnits rest
    else escapeUnit c ++ quoteUnits (d :: rest)

/-- `JSON.stringify` of a string. -/
def quoteString (s : JsString) : JsString := quote :: (quoteUnits s ++ [quote])

mutual

/-- `JSON.stringify` of the value with this tree. -/
def write : Json → JsString
  | .null => js "null"
  | .bool true => js "true"
  | .bool false => js "false"
  | .number text => text
  | .string text => quoteString text
  | .array l => openBracket :: writeElements l
  | .object l => openBrace :: writeMembers l

/-- The elements of an array with its closing bracket. -/
def writeElements : List Json → JsString
  | [] => [closeBracket]
  | [v] => write v ++ [closeBracket]
  | v :: w :: l => write v ++ comma :: writeElements (w :: l)

/-- The members of an object with its closing brace. -/
def writeMembers : List (JsString × Json) → JsString
  | [] => [closeBrace]
  | [(name, v)] => quoteString name ++ colon :: (write v ++ [closeBrace])
  | (name, v) :: m :: l => quoteString name ++ colon :: (write v ++ comma :: writeMembers (m :: l))

/-- The numerals of a tree. -/
def numerals : Json → List JsString
  | .null => []
  | .bool _ => []
  | .number text => [text]
  | .string _ => []
  | .array l => elementNumerals l
  | .object l => memberNumerals l

def elementNumerals : List Json → List JsString
  | [] => []
  | v :: l => numerals v ++ elementNumerals l

def memberNumerals : List (JsString × Json) → List JsString
  | [] => []
  | (_, v) :: l => numerals v ++ memberNumerals l

end

section Strings

theorem hexDigit_hexLetter {digit : ℕ} (h : digit < 16) : hexDigit (hexLetter digit) = some digit := by
  have hall : ∀ d : Fin 16, hexDigit (hexLetter d) = some d.val := by decide
  exact hall ⟨digit, h⟩

/-- The digits of an escape name the unit. -/
theorem hexUnit_digits (c : CodeUnit) :
    hexUnit (hexLetter (c.val / 4096)) (hexLetter (c.val / 256 % 16))
      (hexLetter (c.val / 16 % 16)) (hexLetter (c.val % 16)) = some c := by
  have hlt := c.isLt
  have hsum : ((c.val / 4096 * 16 + c.val / 256 % 16) * 16 + c.val / 16 % 16) * 16 + c.val % 16 =
      c.val := by omega
  simp only [hexUnit, hexDigit_hexLetter (show c.val / 4096 < 16 by omega),
    hexDigit_hexLetter (Nat.mod_lt _ (by decide : 16 > 0)), Option.bind_eq_bind, Option.bind_some,
    hsum, Fin.ofNat_val_eq_self]
  rfl

variable {s t u text : JsString}

/-- A unit stands for itself behind its escape. -/
theorem chars_escapeUnit (c : CodeUnit) (h : Chars s text t) :
    Chars (escapeUnit c ++ s) (c :: text) t := by
  unfold escapeUnit
  split_ifs with h₁ h₂ h₃ h₄ h₅ h₆ h₇ h₈
  · exact h₁ ▸ .simple (by decide) h
  · exact h₂ ▸ .simple (by decide) h
  · exact h₃ ▸ .simple (by decide) h
  · exact h₄ ▸ .simple (by decide) h
  · exact h₅ ▸ .simple (by decide) h
  · subst h₆
    exact .simple (by decide) h
  · subst h₇
    exact .simple (by decide) h
  · exact .unicode (hexUnit_digits c) h
  · exact .plain ⟨not_lt.1 (not_or.1 h₈).1, h₆, h₇⟩ h

/-- A pair of surrogates stands for itself. -/
theorem chars_pair {c d : CodeUnit} (hc : isLead c = true) (hd : isTrail d = true)
    (h : Chars s text t) : Chars (c :: d :: s) (c :: d :: text) t := by
  have hplain : ∀ e : CodeUnit, 0xd800 ≤ e → 0x20 ≤ e ∧ e ≠ quote ∧ e ≠ backslash := by
    intro e he
    refine ⟨le_trans (by decide) he, ?_, ?_⟩
    · rintro rfl
      exact absurd he (by decide)
    · rintro rfl
      exact absurd he (by decide)
  simp only [isLead, isTrail, Bool.and_eq_true, decide_eq_true_eq] at hc hd
  exact .plain (hplain c hc.1) (.plain (hplain d (le_trans (by decide) hd.1)) h)

theorem chars_quoteUnits (s : JsString) (h : Chars u text t) :
    Chars (quoteUnits s ++ u) (s ++ text) t := by
  fun_induction quoteUnits s with
  | case1 => exact h
  | case2 c => exact chars_escapeUnit c h
  | case3 c d rest hpair ih =>
    rw [Bool.and_eq_true] at hpair
    exact chars_pair hpair.1 hpair.2 ih
  | case4 c d rest hpair ih =>
    rw [List.append_assoc]
    exact chars_escapeUnit c ih

/-- What is written for a string is a string that stands for it. -/
theorem stringToken_quoteString (s t : JsString) : StringToken (quoteString s ++ t) s t := by
  have hchars := chars_quoteUnits s (.close (t := t))
  rw [List.append_nil] at hchars
  refine ⟨quoteUnits s ++ quote :: t, ?_, hchars⟩
  simp [quoteString]

theorem wellFormed_ascii {s : JsString} (h : ∀ c ∈ s, c < 0x80) : WellFormed s := by
  induction s with
  | nil => exact .nil
  | cons c s ih =>
    have hc : ¬(isLead c || isTrail c) := by
      have hlt := h c List.mem_cons_self
      have hlead : ¬0xd800 ≤ c := fun hle => absurd (hle.trans_lt hlt) (by decide)
      have htrail : ¬0xdc00 ≤ c := fun hle => absurd (hle.trans_lt hlt) (by decide)
      simp [isLead, isTrail, hlead, htrail]
    exact (WellFormed.unit hc).append (ih fun d hd => h d (List.mem_cons_of_mem c hd))

theorem hexLetter_ascii {digit : ℕ} (h : digit < 16) : hexLetter digit < 0x80 := by
  have hall : ∀ d : Fin 16, hexLetter d < 0x80 := by decide
  exact hall ⟨digit, h⟩

/-- A backslash with an ASCII unit behind it. -/
theorem wellFormed_escape {c : CodeUnit} (hc : c < 0x80) : WellFormed [backslash, c] := by
  refine wellFormed_ascii fun d hd => ?_
  rcases List.mem_pair.1 hd with rfl | rfl
  · decide
  · exact hc

theorem unicodeEscape_ascii (c : CodeUnit) : ∀ d ∈ unicodeEscape c, d < 0x80 := by
  intro d hd
  have hlt := c.isLt
  simp only [unicodeEscape, List.mem_cons, List.not_mem_nil, or_false] at hd
  rcases hd with rfl | rfl | rfl | rfl | rfl | rfl
  · decide
  · decide
  all_goals exact hexLetter_ascii (by omega)

theorem wellFormed_escapeUnit (c : CodeUnit) : WellFormed (escapeUnit c) := by
  unfold escapeUnit
  split_ifs with h₁ h₂ h₃ h₄ h₅ h₆ h₇ h₈
  all_goals try exact wellFormed_escape (by decide)
  · exact wellFormed_ascii (unicodeEscape_ascii c)
  · exact .unit (not_or.1 h₈).2

/-- No surrogate is written without its partner. -/
theorem wellFormed_quoteUnits (s : JsString) : WellFormed (quoteUnits s) := by
  fun_induction quoteUnits s with
  | case1 => exact .nil
  | case2 c => exact wellFormed_escapeUnit c
  | case3 c d rest hpair ih =>
    rw [Bool.and_eq_true] at hpair
    exact (WellFormed.pair hpair.1 hpair.2).append ih
  | case4 c d rest hpair ih => exact (wellFormed_escapeUnit c).append ih

theorem wellFormed_quoteString (s : JsString) : WellFormed (quoteString s) := by
  have hquote : WellFormed [quote] := .unit (by decide)
  exact hquote.append ((wellFormed_quoteUnits s).append hquote)

end Strings

mutual

/-- What is written for a tree is a text of it. -/
theorem value_write (v : Json) (t : JsString) (h : ∀ n ∈ numerals v, IsNumber n) :
    Value (write v ++ t) v t := by
  match v with
  | .null => exact .word rfl
  | .bool true => exact .word rfl
  | .bool false => exact .word rfl
  | .number text => exact .number (h text (List.mem_singleton_self text))
  | .string text => exact .string (stringToken_quoteString text t)
  | .array l =>
    by_cases hl : l = []
    · subst hl
      exact .emptyArray (.refl _)
    · exact .array (elements_write l t hl h)
  | .object l =>
    by_cases hl : l = []
    · subst hl
      exact .emptyObject (.refl _)
    · exact .object (members_write l t hl h)

theorem elements_write (l : List Json) (t : JsString) (hne : l ≠ [])
    (h : ∀ n ∈ elementNumerals l, IsNumber n) : Elements (writeElements l ++ t) l t := by
  match l with
  | [] => exact absurd rfl hne
  | v :: l =>
    have hv := fun t => value_write v t fun n hn => h n (List.mem_append_left _ hn)
    by_cases hl : l = []
    · subst hl
      rw [writeElements, List.append_assoc]
      exact .last (.refl _) (hv _) (.refl _)
    · have hrest := elements_write l t hl fun n hn => h n (List.mem_append_right _ hn)
      obtain ⟨w, l, rfl⟩ := List.exists_cons_of_ne_nil hl
      rw [writeElements, List.append_assoc]
      exact .more (.refl _) (hv _) (.refl _) hrest

theorem members_write (l : List (JsString × Json)) (t : JsString) (hne : l ≠ [])
    (h : ∀ n ∈ memberNumerals l, IsNumber n) : Members (writeMembers l ++ t) l t := by
  match l with
  | [] => exact absurd rfl hne
  | (name, v) :: l =>
    have hv := fun t => value_write v t fun n hn => h n (List.mem_append_left _ hn)
    have hname := stringToken_quoteString name
    by_cases hl : l = []
    · subst hl
      simp only [writeMembers, List.append_assoc, List.cons_append, List.nil_append]
      exact .last (.refl _) (hname _) (.refl _) (.refl _) (hv _) (.refl _)
    · have hrest := members_write l t hl fun n hn => h n (List.mem_append_right _ hn)
      obtain ⟨m, l, rfl⟩ := List.exists_cons_of_ne_nil hl
      simp only [writeMembers, List.append_assoc, List.cons_append]
      exact .more (.refl _) (hname _) (.refl _) (.refl _) (hv _) (.refl _) hrest

end

mutual

/-- What is written for a tree is well formed. -/
theorem wellFormed_write (v : Json) (h : ∀ n ∈ numerals v, WellFormed n) :
    WellFormed (write v) := by
  match v with
  | .null => exact ⟨"null", rfl⟩
  | .bool true => exact ⟨"true", rfl⟩
  | .bool false => exact ⟨"false", rfl⟩
  | .number text => exact h text (List.mem_singleton_self text)
  | .string text => exact wellFormed_quoteString text
  | .array l => exact WellFormed.append (.unit (by decide)) (wellFormed_writeElements l h)
  | .object l => exact WellFormed.append (.unit (by decide)) (wellFormed_writeMembers l h)

theorem wellFormed_writeElements (l : List Json) (h : ∀ n ∈ elementNumerals l, WellFormed n) :
    WellFormed (writeElements l) := by
  match l with
  | [] => exact .unit (by decide)
  | v :: l =>
    have hv := wellFormed_write v fun n hn => h n (List.mem_append_left _ hn)
    have hrest := wellFormed_writeElements l fun n hn => h n (List.mem_append_right _ hn)
    match l with
    | [] => exact hv.append (.unit (by decide))
    | w :: l =>
      have hcomma : WellFormed [comma] := .unit (by decide)
      exact hv.append (hcomma.append hrest)

theorem wellFormed_writeMembers (l : List (JsString × Json))
    (h : ∀ n ∈ memberNumerals l, WellFormed n) : WellFormed (writeMembers l) := by
  match l with
  | [] => exact .unit (by decide)
  | (name, v) :: l =>
    have hname := wellFormed_quoteString name
    have hcolon : WellFormed [colon] := .unit (by decide)
    have hv := wellFormed_write v fun n hn => h n (List.mem_append_left _ hn)
    have hrest := wellFormed_writeMembers l fun n hn => h n (List.mem_append_right _ hn)
    match l with
    | [] => exact hname.append (hcolon.append (hv.append (.unit (by decide))))
    | m :: l =>
      have hcomma : WellFormed [comma] := .unit (by decide)
      exact hname.append (hcolon.append (hv.append (hcomma.append hrest)))

end

theorem isText_write (v : Json) (h : ∀ n ∈ numerals v, IsNumber n) : IsText (write v) v := by
  have hv := value_write v [] h
  rw [List.append_nil] at hv
  exact ⟨write v, [], .refl _, hv, .refl _⟩

/-! ## Objects without repeated names -/

section Objects

variable {ν : Type}

/-- `value[name]`, of an object with these properties. -/
def getProperty (properties : List (JsString × JsValue ν)) (name : String) : Option (JsValue ν) :=
  (properties.find? fun p => p.1 = js name).map Prod.snd

theorem evaluateMembers_of_nodup (number : JsString → ν) (l : List (JsString × Json))
    (properties : List (JsString × JsValue ν))
    (h : (properties.map Prod.fst ++ l.map Prod.fst).Nodup) :
    evaluateMembers number properties l =
      properties ++ l.map fun m => (m.1, evaluate number m.2) := by
  induction l generalizing properties with
  | nil => rw [evaluateMembers, List.map_nil, List.append_nil]
  | cons m l ih =>
    obtain ⟨name, v⟩ := m
    rw [List.map_cons] at h
    have hnew : name ∉ properties.map Prod.fst := fun hmem =>
      List.disjoint_of_nodup_append h hmem List.mem_cons_self
    rw [evaluateMembers, defineProperty, if_neg hnew, ih]
    · rw [List.append_assoc, List.map_cons, List.singleton_append]
    · rwa [List.map_append, List.map_singleton, List.append_assoc, List.singleton_append]

/-- The value of an object whose names are distinct. -/
theorem evaluate_object (number : JsString → ν) {l : List (JsString × Json)}
    (h : (l.map Prod.fst).Nodup) :
    evaluate number (.object l) = .object (l.map fun m => (m.1, evaluate number m.2)) := by
  rw [evaluate, evaluateMembers_of_nodup number l [] h, List.nil_append]

end Objects

end Json

end HailProto.Server
