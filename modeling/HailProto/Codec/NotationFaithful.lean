import HailProto.Codec.Notation

/-!
# Faithfulness of diagnostic notation

Every piece that the formatter writes can be split off from what follows it: escapes by their
length, texts and byte strings by their closing mark, integers by the first character that is no
digit, and lines by the indentation that the depth fixes. So the text of a value fixes the value
up to the order of members, which has no part in its encoding.
-/

namespace HailProto.Codec.TypeScript.Notation

open Cbor (Value asBytes LengthFirst sortEntries)
open HailProto.Core (Splits append_inj_of_all)

section Digits

/-- A wider number is a narrower one and one more digit. -/
theorem hexadecimal_succ {width : Nat} (hwidth : 0 < width) (n : Nat) :
    hexadecimal (width + 1) n = hexadecimal width (n / 16) ++ [(n % 16).digitChar] := by
  unfold hexadecimal
  by_cases hn : n < 16
  · rw [Nat.toDigits_of_lt_base hn, Nat.div_eq_of_lt hn, Nat.toDigits_zero, Nat.mod_eq_of_lt hn]
    obtain ⟨k, rfl⟩ : ∃ k, width = k + 1 := ⟨width - 1, by omega⟩
    simp [List.leftpad, List.replicate_succ']
  · rw [Nat.toDigits_of_base_le (by decide) (by omega)]
    have hpos : 0 < (Nat.toDigits 16 (n / 16)).length := Nat.length_toDigits_pos
    simp only [List.leftpad, List.length_append, List.length_singleton, Nat.add_sub_add_right,
      List.append_assoc]

theorem hexadecimal_one {n : Nat} (hn : n < 16) : hexadecimal 1 n = [n.digitChar] := by
  rw [hexadecimal, Nat.toDigits_of_lt_base hn]
  rfl

theorem length_hexadecimal (width : Nat) : ∀ {n : Nat}, n < 16 ^ (width + 1) →
    (hexadecimal (width + 1) n).length = width + 1 := by
  induction width with
  | zero =>
    intro n hn
    rw [hexadecimal_one hn, List.length_singleton]
  | succ width ih =>
    intro n hn
    have hlt : n / 16 < 16 ^ (width + 1) := by
      rw [Nat.div_lt_iff_lt_mul (by decide)]
      rwa [Nat.pow_succ] at hn
    rw [hexadecimal_succ (by omega), List.length_append, ih hlt, List.length_singleton]

private theorem digitChar_inj_aux : ∀ i, i < 16 → ∀ j, j < 16 →
    Nat.digitChar i = Nat.digitChar j → i = j := by
  decide

theorem hexadecimal_inj (width : Nat) : ∀ {n m : Nat}, n < 16 ^ (width + 1) →
    m < 16 ^ (width + 1) → hexadecimal (width + 1) n = hexadecimal (width + 1) m → n = m := by
  induction width with
  | zero =>
    intro n m hn hm h
    rw [hexadecimal_one hn, hexadecimal_one hm, List.singleton_inj] at h
    exact digitChar_inj_aux n hn m hm h
  | succ width ih =>
    intro n m hn hm h
    have hlt {k : Nat} (hk : k < 16 ^ (width + 1 + 1)) : k / 16 < 16 ^ (width + 1) := by
      rw [Nat.div_lt_iff_lt_mul (by decide)]
      rwa [Nat.pow_succ] at hk
    have hpos : 0 < width + 1 := Nat.succ_pos width
    rw [hexadecimal_succ hpos n, hexadecimal_succ hpos m] at h
    obtain ⟨hhigh, hlow⟩ := List.append_inj h
      (by rw [length_hexadecimal width (hlt hn), length_hexadecimal width (hlt hm)])
    have hquotient := ih (hlt hn) (hlt hm) hhigh
    have hremainder := digitChar_inj_aux (n % 16) (Nat.mod_lt n (by decide)) (m % 16)
      (Nat.mod_lt m (by decide)) (List.singleton_inj.1 hlow)
    omega

private theorem digitChar_hex_aux : ∀ i, i < 16 → (Nat.digitChar i).toNat < 0x7f ∧
    0x20 ≤ (Nat.digitChar i).toNat ∧ Nat.digitChar i ≠ apostrophe := by
  decide

/-- Hexadecimal digits are printable, and none of them is an apostrophe. -/
theorem mem_hexadecimal (width : Nat) : ∀ {n : Nat}, n < 16 ^ (width + 1) →
    ∀ c ∈ hexadecimal (width + 1) n, ∃ i, i < 16 ∧ c = Nat.digitChar i := by
  induction width with
  | zero =>
    intro n hn c hc
    rw [hexadecimal_one hn, List.mem_singleton] at hc
    exact ⟨n, hn, hc⟩
  | succ width ih =>
    intro n hn c hc
    have hlt : n / 16 < 16 ^ (width + 1) := by
      rw [Nat.div_lt_iff_lt_mul (by decide)]
      rwa [Nat.pow_succ] at hn
    rw [hexadecimal_succ (by omega), List.mem_append, List.mem_singleton] at hc
    rcases hc with hc | rfl
    · exact ih hlt c hc
    · exact ⟨n % 16, Nat.mod_lt n (by decide), rfl⟩

/-- Numbers of one width are told apart. -/
theorem hexadecimal_splits (width : Nat) : Splits (· < 16 ^ (width + 1)) (fun _ => True)
    (hexadecimal (width + 1)) id := by
  intro n m r r' hn hm _ _ h
  obtain ⟨hdigits, hr⟩ := List.append_inj h
    (by rw [length_hexadecimal width hn, length_hexadecimal width hm])
  exact ⟨hexadecimal_inj width hn hm hdigits, hr⟩

theorem unicodeEscape_splits :
    Splits (· < 65536) (fun _ => True) unicodeEscape id := by
  intro n m r r' hn hm _ _ h
  have hdigits := (List.cons.inj (List.cons.inj h).2).2
  exact hexadecimal_splits 3 n m r r' hn hm trivial trivial hdigits

/-- A byte string ends at its apostrophe. -/
theorem byteString_splits :
    Splits (fun _ => True) (fun _ => True) byteString id := by
  intro a b r r' _ _ _ _ h
  have hcode : Splits (fun _ => True) (fun _ => True)
      (fun byte : UInt8 => hexadecimal 2 byte.toNat) id := by
    intro x y r r' _ _ _ _ h
    obtain ⟨hxy, hr⟩ := hexadecimal_splits 1 _ _ r r' x.toNat_lt y.toNat_lt trivial trivial h
    exact ⟨UInt8.toNat_inj.1 hxy, hr⟩
  have hfirst (x : UInt8) (_ : True) :
      ∃ c l, hexadecimal 2 x.toNat = c :: l ∧ c ≠ apostrophe := by
    cases hdigits : hexadecimal 2 x.toNat with
    | nil =>
      have hlength := length_hexadecimal 1 x.toNat_lt
      rw [hdigits] at hlength
      cases hlength
    | cons c l =>
      obtain ⟨i, hi, rfl⟩ := mem_hexadecimal 1 x.toNat_lt c (by rw [hdigits]; simp)
      exact ⟨_, l, rfl, (digitChar_hex_aux i hi).2.2⟩
  simp only [byteString, List.cons_append, List.append_assoc, List.nil_append,
    List.cons.injEq, true_and] at h
  simpa only [List.map_id, id] using hcode.flatMap apostrophe hfirst (by simp) (by simp) h

end Digits

section Texts

variable {table : FormatTable}

/-- The escaped categories have no printable ASCII character. -/
theorem escapes_printable {c : Char} (hlow : 0x20 ≤ c.toNat) (hhigh : c.toNat < 0x7f) :
    table.escapes c = false := by
  simp only [FormatTable.escapes, table.format_ascii c (by omega), Bool.or_eq_false_iff,
    decide_eq_false_iff_not, beq_eq_false_iff_ne, and_true]
  omega

theorem escapes_control {c : Char} (h : c.toNat < 0x20) : table.escapes c = true := by
  simp only [FormatTable.escapes, h, decide_true, Bool.true_or]

theorem escapeCharacter_printable {c : Char} (hlow : 0x20 ≤ c.toNat) (hhigh : c.toNat < 0x7f) :
    escapeCharacter table c = [c] := by
  rw [escapeCharacter, escapes_printable hlow hhigh]
  rfl

/-- The characters with a short escape, and their letters. -/
def shortEscapes : List (Char × Char) :=
  [(quotationMark, quotationMark), (reverseSolidus, reverseSolidus), (Char.ofNat 8, 'b'),
    (Char.ofNat 9, 't'), (Char.ofNat 10, 'n'), (Char.ofNat 12, 'f'), (Char.ofNat 13, 'r')]

theorem eq_ofNat {c : Char} {n : Nat} (h : c.toNat = n) : c = Char.ofNat n := by
  rw [← h, Char.ofNat_toNat]

theorem mem_shortEscapes {c letter : Char} (h : shortEscape c = some letter) :
    (c, letter) ∈ shortEscapes := by
  unfold shortEscape at h
  split_ifs at h with hself h8 h9 h10 h12 h13
  · rcases hself with rfl | rfl
    · cases h
      simp [shortEscapes]
    · cases h
      simp [shortEscapes]
  · cases h
    simp [shortEscapes, eq_ofNat h8]
  · cases h
    simp [shortEscapes, eq_ofNat h9]
  · cases h
    simp [shortEscapes, eq_ofNat h10]
  · cases h
    simp [shortEscapes, eq_ofNat h12]
  · cases h
    simp [shortEscapes, eq_ofNat h13]

theorem shortEscape_letter {c letter : Char} (h : shortEscape c = some letter) :
    0x20 ≤ letter.toNat ∧ letter.toNat < 0x7f ∧ letter ≠ 'u' := by
  have hall : shortEscapes.all (fun e => decide (0x20 ≤ e.2.toNat ∧ e.2.toNat < 0x7f ∧
      e.2 ≠ 'u')) = true := by
    decide
  exact of_decide_eq_true (List.all_eq_true.1 hall _ (mem_shortEscapes h))

/-- The letter of a short escape fixes the character. -/
theorem shortEscape_inj {c d letter : Char} (hc : shortEscape c = some letter)
    (hd : shortEscape d = some letter) : c = d := by
  have hall : shortEscapes.all (fun e => shortEscapes.all fun e' =>
      decide (e.2 = e'.2 → e.1 = e'.1)) = true := by
    decide
  have hfst := List.all_eq_true.1 hall _ (mem_shortEscapes hc)
  exact of_decide_eq_true (List.all_eq_true.1 hfst _ (mem_shortEscapes hd)) rfl

/-- What becomes of one character of a text. -/
def textCharacter (table : FormatTable) (c : Char) : List Char :=
  match shortEscape c with
  | some letter => [reverseSolidus, letter]
  | none => if table.escapes c then (utf16Char c).flatMap unicodeEscape else [c]

theorem utf16Char_lt (c : Char) : ∀ unit ∈ utf16Char c, unit < 65536 := by
  intro unit hunit
  have hlt : c.toNat < 0x110000 := by
    have hvalid := c.valid
    rcases hvalid with h | h
    · exact h.trans (by decide)
    · exact h.2
  unfold utf16Char at hunit
  split_ifs at hunit with h
  · rw [List.mem_singleton] at hunit
    omega
  · simp only [List.mem_cons, List.not_mem_nil, or_false] at hunit
    omega

theorem unicodeEscape_printable {unit : Nat} (hunit : unit < 65536) :
    ∀ c ∈ unicodeEscape unit, 0x20 ≤ c.toNat ∧ c.toNat < 0x7f := by
  intro c hc
  simp only [unicodeEscape, List.mem_cons] at hc
  rcases hc with rfl | rfl | hc
  · decide
  · decide
  · obtain ⟨i, hi, rfl⟩ := mem_hexadecimal 3 hunit c hc
    obtain ⟨hhigh, hlow, _⟩ := digitChar_hex_aux i hi
    exact ⟨hlow, hhigh⟩

theorem flatMap_escapeCharacter {l : List Char} (h : ∀ c ∈ l, 0x20 ≤ c.toNat ∧ c.toNat < 0x7f) :
    l.flatMap (escapeCharacter table) = l := by
  induction l with
  | nil => rfl
  | cons c l ih =>
    rw [List.forall_mem_cons] at h
    rw [List.flatMap_cons, escapeCharacter_printable h.1.1 h.1.2, ih h.2, List.singleton_append]

/-- The two passes over one character. -/
theorem flatMap_stringifyCharacter (c : Char) :
    (stringifyCharacter c).flatMap (escapeCharacter table) = textCharacter table c := by
  unfold stringifyCharacter textCharacter
  cases hshort : shortEscape c with
  | some letter =>
    obtain ⟨hlow, hhigh, _⟩ := shortEscape_letter hshort
    dsimp only
    refine flatMap_escapeCharacter fun d hd => ?_
    simp only [List.mem_cons, List.not_mem_nil, or_false] at hd
    rcases hd with rfl | rfl
    · decide
    · exact ⟨hlow, hhigh⟩
  | none =>
    dsimp only
    by_cases hcontrol : c.toNat < 0x20
    · have hunits : utf16Char c = [c.toNat] := by rw [utf16Char, if_pos (by omega)]
      rw [if_pos hcontrol, escapes_control hcontrol, if_pos rfl, hunits, List.flatMap_singleton]
      exact flatMap_escapeCharacter (unicodeEscape_printable (by omega))
    · rw [if_neg hcontrol, List.flatMap_singleton, escapeCharacter]

theorem textString_eq (s : String) : textString table s =
    quotationMark :: (s.toList.flatMap (textCharacter table) ++ [quotationMark]) := by
  have hmark : escapeCharacter table quotationMark = [quotationMark] :=
    escapeCharacter_printable (by decide) (by decide)
  rw [textString, stringify, List.flatMap_cons, List.flatMap_append, hmark, List.flatMap_singleton,
    hmark, List.flatMap_assoc]
  simp only [flatMap_stringifyCharacter, List.singleton_append]

/-- The units of a character tell it from every other, whatever units follow. -/
theorem utf16Char_splits : Splits (fun _ => True) (fun _ => True) utf16Char id := by
  intro c d r r' _ _ _ _ h
  have hsurrogate (c : Char) : ¬(0xd800 ≤ c.toNat ∧ c.toNat ≤ 0xdfff) := by
    have hcode : c.toNat = c.val.toNat := rfl
    rcases c.valid with hlt | ⟨hlt, _⟩
    · have hlt' : c.val.toNat < 0xd800 := hlt
      omega
    · have hlt' : 0xdfff < c.val.toNat := hlt
      omega
  have hc := hsurrogate c
  have hd := hsurrogate d
  have hbound (c : Char) : c.toNat < 0x110000 := by
    rcases c.valid with hlt | hlt
    · exact hlt.trans (by decide)
    · exact hlt.2
  have hcb := hbound c
  have hdb := hbound d
  have hinj (h : c.toNat = d.toNat) : id c = id d := by
    rw [id, id, ← Char.ofNat_toNat c, h, Char.ofNat_toNat]
  unfold utf16Char at h
  split_ifs at h with hc16 hd16 hd16
  · simp only [List.cons_append, List.nil_append, List.cons.injEq] at h
    exact ⟨hinj h.1, h.2⟩
  · simp only [List.cons_append, List.nil_append, List.cons.injEq] at h
    omega
  · simp only [List.cons_append, List.nil_append, List.cons.injEq] at h
    omega
  · simp only [List.cons_append, List.nil_append, List.cons.injEq] at h
    exact ⟨hinj (by omega), h.2.2⟩

/-- The escapes of a character tell it from every other. -/
theorem escapes_splits : Splits (fun _ => True) (fun _ => True)
    (fun c => (utf16Char c).flatMap unicodeEscape) id :=
  utf16Char_splits.comp unicodeEscape_splits fun c _ => utf16Char_lt c

theorem unicodeEscape_append (unit : Nat) (l : List Char) :
    unicodeEscape unit ++ l = reverseSolidus :: 'u' :: (hexadecimal 4 unit ++ l) := by
  rw [unicodeEscape, List.cons_append, List.cons_append]

theorem escapes_eq_cons (c : Char) :
    ∃ l, (utf16Char c).flatMap unicodeEscape = reverseSolidus :: 'u' :: l := by
  have hne : utf16Char c ≠ [] := by
    unfold utf16Char
    split_ifs <;> simp
  obtain ⟨unit, units, hunits⟩ := List.exists_cons_of_ne_nil hne
  exact ⟨_, by rw [hunits, List.flatMap_cons, unicodeEscape_append]⟩

theorem shortEscape_marks {c : Char} (h : c = quotationMark ∨ c = reverseSolidus) :
    shortEscape c = some c := if_pos h

/-- The pieces of a text are told apart. -/
theorem textCharacter_splits :
    Splits (fun _ => True) (fun _ => True) (textCharacter table) id := by
  intro c d r r' _ _ _ _ h
  unfold textCharacter at h
  obtain ⟨lc, hlc⟩ := escapes_eq_cons c
  obtain ⟨ld, hld⟩ := escapes_eq_cons d
  have hsolidus (e : Char) (he : shortEscape e = none) : e ≠ reverseSolidus := by
    rintro rfl
    rw [shortEscape_marks (.inr rfl)] at he
    cases he
  cases hc : shortEscape c with
  | some letter =>
    have hu := (shortEscape_letter hc).2.2
    cases hd : shortEscape d with
    | some letter' =>
      simp only [hc, hd, List.cons_append, List.nil_append, List.cons.injEq, true_and] at h
      obtain ⟨rfl, hr⟩ := h
      exact ⟨shortEscape_inj hc hd, hr⟩
    | none =>
      simp only [hc, hd] at h
      split_ifs at h
      · simp only [hld, List.cons_append, List.nil_append, List.cons.injEq, true_and] at h
        exact absurd h.1 hu
      · simp only [List.cons_append, List.nil_append, List.cons.injEq] at h
        exact absurd h.1.symm (hsolidus d hd)
  | none =>
    cases hd : shortEscape d with
    | some letter' =>
      have hu := (shortEscape_letter hd).2.2
      simp only [hc, hd] at h
      split_ifs at h
      · simp only [hlc, List.cons_append, List.nil_append, List.cons.injEq, true_and] at h
        exact absurd h.1.symm hu
      · simp only [List.cons_append, List.nil_append, List.cons.injEq] at h
        exact absurd h.1 (hsolidus c hc)
    | none =>
      simp only [hc, hd] at h
      split_ifs at h
      · exact escapes_splits c d r r' trivial trivial trivial trivial h
      · simp only [hlc, List.cons_append, List.nil_append, List.cons.injEq] at h
        exact absurd h.1.symm (hsolidus d hd)
      · simp only [hld, List.cons_append, List.nil_append, List.cons.injEq] at h
        exact absurd h.1 (hsolidus c hc)
      · simpa only [List.cons_append, List.nil_append, List.cons.injEq, id] using h

theorem textCharacter_eq_cons (c : Char) :
    ∃ x l, textCharacter table c = x :: l ∧ x ≠ quotationMark := by
  unfold textCharacter
  cases hc : shortEscape c with
  | some letter => exact ⟨_, _, rfl, by decide⟩
  | none =>
    obtain ⟨l, hl⟩ := escapes_eq_cons c
    dsimp only
    split_ifs
    · exact ⟨_, _, hl, by decide⟩
    · refine ⟨c, [], rfl, ?_⟩
      rintro rfl
      rw [shortEscape_marks (.inl rfl)] at hc
      cases hc

/-- A text ends at its closing mark. -/
theorem textString_splits :
    Splits (fun _ => True) (fun _ => True) (textString table) id := by
  intro s t r r' _ _ _ _ h
  simp only [textString_eq, List.cons_append, List.append_assoc, List.nil_append,
    List.cons.injEq, true_and] at h
  obtain ⟨htext, hr⟩ := textCharacter_splits.flatMap quotationMark
    (fun c _ => textCharacter_eq_cons c) (by simp) (by simp) h
  rw [List.map_id, List.map_id] at htext
  exact ⟨String.toList_inj.1 htext, hr⟩

/-- No character of a text is of an escaped category. -/
theorem textString_clean (s : String) : ∀ c ∈ textString table s, table.escapes c = false := by
  have hcharacter (c : Char) : ∀ d ∈ textCharacter table c, table.escapes d = false := by
    intro d hd
    unfold textCharacter at hd
    cases hc : shortEscape c with
    | some letter =>
      simp only [hc, List.mem_cons, List.not_mem_nil, or_false] at hd
      obtain ⟨hlow, hhigh, _⟩ := shortEscape_letter hc
      rcases hd with rfl | rfl
      · exact escapes_printable (by decide) (by decide)
      · exact escapes_printable hlow hhigh
    | none =>
      simp only [hc] at hd
      split_ifs at hd with hescapes
      · obtain ⟨unit, hunit, hd⟩ := List.mem_flatMap.1 hd
        obtain ⟨hlow, hhigh⟩ := unicodeEscape_printable (utf16Char_lt c unit hunit) d hd
        exact escapes_printable hlow hhigh
      · rw [List.mem_singleton] at hd
        rw [hd]
        exact Bool.eq_false_iff.2 hescapes
  intro c hc
  have hmark : table.escapes quotationMark = false := escapes_printable (by decide) (by decide)
  simp only [textString_eq, List.mem_cons, List.mem_append, List.mem_flatMap, List.not_mem_nil,
    or_false] at hc
  rcases hc with rfl | ⟨d, _, hd⟩ | rfl
  · exact hmark
  · exact hcharacter d c hd
  · exact hmark

end Texts

section Order

variable {table : FormatTable} {redactSecrets : Bool} {depth : Nat}

theorem compareBytes_le {a b : List UInt8} (h : a.length = b.length) :
    compareBytes a b ≤ 0 ↔ a ≤ b := by
  induction a generalizing b with
  | nil =>
    obtain rfl := List.eq_nil_of_length_eq_zero h.symm
    simp [compareBytes]
  | cons x a ih =>
    cases b with
    | nil => cases h
    | cons y b =>
      have hlength : a.length = b.length := by simpa using h
      rw [← not_lt (a := y :: b), List.cons_lt_cons_iff, compareBytes]
      obtain hxy | hxy | hxy := lt_trichotomy x.toNat y.toNat
      · have hlt : ¬y < x := by
          rw [UInt8.lt_iff_toNat_lt]
          omega
        have hne : ¬y = x := by
          rintro rfl
          exact lt_irrefl _ hxy
        rw [if_pos (by omega)]
        simp only [hlt, hne, false_and, or_false, not_false_iff, iff_true]
        omega
      · obtain rfl := UInt8.toNat_inj.1 hxy
        rw [if_neg (by omega), ih hlength]
        simp
      · have hlt : y < x := UInt8.lt_iff_toNat_lt.2 hxy
        rw [if_pos (by omega)]
        simp only [hlt, true_or, not_true, iff_false]
        omega

/-- The comparison of two keys is the order that puts shorter keys first. -/
theorem compareKeys_le (s t : String) :
    compareKeys s t ≤ 0 ↔ LengthFirst (asBytes s) (asBytes t) := by
  unfold compareKeys LengthFirst
  split_ifs with h
  · simp only [h, false_and, or_false]
    omega
  · rw [not_not] at h
    simp only [compareBytes_le h, h, lt_irrefl, true_and, false_or]

/-- Members are written in the order of their deterministic encoding. -/
theorem formatValue_map {entries : List (Value × Value)}
    (hkeys : ∀ e ∈ entries, e.1.isKey false = true)
    (hsize : ∀ e ∈ entries, (asBytes e.1.keyText).length < 2 ^ 64) :
    formatValue table redactSecrets depth (.map entries) =
      enclose depth (Char.ofNat 0x7b) (Char.ofNat 0x7d) ((sortEntries entries).map fun e =>
        memberString table (renderedEntry table redactSecrets (depth + 1) e)) := by
  rw [formatValue, formatEntries_eq_map, sortEntries,
    ← List.map_insertionSort (r := fun a b : Value × Value => a.1.encoding ≤ b.1.encoding)
      (s := fun a b : String × List Char => compareKeys a.1 b.1 ≤ 0), List.map_map]
  · rfl
  · intro a ha b hb
    obtain ⟨s, hs⟩ := isKey_iff.1 (hkeys a ha)
    obtain ⟨t, ht⟩ := isKey_iff.1 (hkeys b hb)
    have hs64 := hsize a ha
    have ht64 := hsize b hb
    simp only [renderedEntry, hs, ht, Value.keyText, compareKeys_le,
      Cbor.Value.encoding] at hs64 ht64 ⊢
    exact (Cbor.lengthFirst_head hs64 ht64).symm

end Order

section Values

variable {table : FormatTable} {limits : ResourceLimits}

/-- What may stand after a value: nothing, a comma or the end of its line. -/
def Ends (r : List Char) : Prop := ∀ c ∈ r.head?, c = ',' ∨ c = '\n'

theorem integerString_numeral (n : Int) :
    ∀ c ∈ integerString n, (c.isDigit || c == '-') = true := by
  intro c hc
  rw [integerString, List.mem_append] at hc
  rcases hc with hc | hc
  · split_ifs at hc
    · rw [List.mem_singleton.1 hc]
      rfl
    · cases hc
  · rw [Nat.isDigit_of_mem_toDigits (by decide) (by decide) hc, Bool.true_or]

theorem integerString_inj {n m : Int} (h : integerString n = integerString m) : n = m := by
  have hdigits {k : Nat} : ∃ c l, Nat.toDigits 10 k = c :: l ∧ c ≠ '-' := by
    obtain ⟨c, l, hl⟩ := List.exists_cons_of_ne_nil (Nat.toDigits_ne_nil (n := k) (b := 10))
    refine ⟨c, l, hl, ?_⟩
    rintro rfl
    have hdigit : ('-' : Char).isDigit = true :=
      Nat.isDigit_of_mem_toDigits (b := 10) (n := k) (by decide) (by decide) (by rw [hl]; simp)
    exact absurd hdigit (by decide)
  have hnat {k l : Nat} (h : Nat.toDigits 10 k = Nat.toDigits 10 l) : k = l := by
    rw [← Nat.ofDigitChars_ten_toDigits (n := k), h, Nat.ofDigitChars_ten_toDigits]
  obtain ⟨c, l, hc, hcne⟩ := @hdigits n.natAbs
  obtain ⟨d, l', hd, hdne⟩ := @hdigits m.natAbs
  unfold integerString at h
  split_ifs at h with hn hm hm
  · have hk := hnat (List.append_cancel_left h)
    omega
  · rw [hd, List.nil_append, List.singleton_append, List.cons.injEq] at h
    exact absurd h.1.symm hdne
  · rw [hc, List.nil_append, List.singleton_append, List.cons.injEq] at h
    exact absurd h.1 hcne
  · have hk := hnat h
    omega

/-- An integer ends where a value may end. -/
theorem integerString_splits : Splits (fun _ => True) Ends integerString id := by
  intro n m r r' _ _ hr hr' h
  have hends {r : List Char} (hr : Ends r) :
      ∀ c ∈ r.head?, (c.isDigit || c == '-') = false := by
    intro c hc
    rcases hr c hc with rfl | rfl <;> decide
  obtain ⟨hnm, hrest⟩ := append_inj_of_all (integerString_numeral n) (integerString_numeral m)
    (hends hr) (hends hr') h
  exact ⟨integerString_inj hnm, hrest⟩

/-- Lines between brackets are read back. -/
theorem enclose_splits {α γ : Type} {P : α → Prop} {f : α → List Char} {φ : α → γ}
    (hf : Splits P Ends f φ) (depth : Nat) {openBracket closeBracket : Char}
    (hclose : closeBracket ≠ '\n') :
    Splits (fun xs : List α => ∀ a ∈ xs, P a) (fun _ => True)
      (fun xs => enclose depth openBracket closeBracket (xs.map f)) (List.map φ) := by
  intro xs ys r r' hxs hys _ _ h
  have hlines : Splits P Ends (fun x => indentation (depth + 1) ++ f x) φ := by
    intro a b r r' ha hb hr hr' h
    rw [List.append_assoc, List.append_assoc] at h
    exact hf a b r r' ha hb hr hr' (List.append_cancel_left h)
  unfold enclose at h
  simp only [List.map_eq_nil_iff, List.map_map] at h
  split_ifs at h with hx hy hy
  · simp only [List.cons_append, List.nil_append, List.cons.injEq, true_and] at h
    rw [hx, hy]
    exact ⟨rfl, h⟩
  · simp only [List.cons_append, List.nil_append, List.cons.injEq, true_and] at h
    exact absurd h.1 hclose
  · simp only [List.cons_append, List.nil_append, List.cons.injEq, true_and] at h
    exact absurd h.1.symm hclose
  · simp only [List.cons_append, List.append_assoc, List.cons.injEq, true_and,
      List.nil_append] at h
    have hcomma (r : List Char) : Ends (',' :: ('\n' :: r)) :=
      fun c hc => .inl (Option.some.inj hc).symm
    have hnewline (r : List Char) : Ends ('\n' :: r) := fun c hc => .inr (Option.some.inj hc).symm
    obtain ⟨hmap, hrest⟩ := hlines.intercalate (by decide) hcomma (hnewline _) (hnewline _) hxs hys
      hx hy h
    refine ⟨hmap, ?_⟩
    have hcancel := List.append_cancel_left hrest
    simpa only [List.cons.injEq, true_and] using hcancel

/-- A member ends where its value ends. -/
theorem memberString_splits {P : Value → Prop} {depth : Nat}
    (hf : Splits P Ends (formatValue table false depth) Value.sorted) :
    Splits (fun e : Value × Value => e.1.isKey false = true ∧ P e.2) Ends
      (fun e => memberString table (renderedEntry table false depth e)) sortedEntry := by
  rintro ⟨k, v⟩ ⟨l, w⟩ r r' ⟨hk, hv⟩ ⟨hl, hw⟩ hr hr' h
  obtain ⟨s, rfl⟩ := isKey_iff.1 hk
  obtain ⟨t, rfl⟩ := isKey_iff.1 hl
  simp only [memberString, renderedEntry, Bool.false_and, Bool.false_eq_true, if_false,
    List.append_assoc, List.cons_append, Value.keyText] at h
  obtain ⟨hst, hrest⟩ := textString_splits s t _ _ trivial trivial trivial trivial h
  cases hst
  simp only [List.cons.injEq, true_and] at hrest
  obtain ⟨hvw, hr⟩ := hf v w r r' hv hw hr hr' hrest
  refine ⟨?_, hr⟩
  rw [sortedEntry, sortedEntry, Prod.map_apply, Prod.map_apply, hvw]

/-- The kind of a value, by the first character of its text. -/
def lead (c : Char) : Nat :=
  if c = 'n' then 0 else if c = 't' then 1 else if c = 'f' then 2 else if c = quotationMark then 3
  else if c = 'h' then 4 else if c = '[' then 5 else if c = Char.ofNat 0x7b then 6 else 7

def kind : Value → Nat
  | .null => 0
  | .bool b => if b then 1 else 2
  | .text _ => 3
  | .bytes _ => 4
  | .array _ => 5
  | .map _ => 6
  | .int _ => 7
  | .tag _ _ => 8

theorem enclose_eq_cons (depth : Nat) (openBracket closeBracket : Char)
    (entries : List (List Char)) :
    ∃ l, enclose depth openBracket closeBracket entries = openBracket :: l := by
  unfold enclose
  split_ifs
  · exact ⟨_, rfl⟩
  · exact ⟨_, rfl⟩

theorem formatValue_eq_cons {v : Value} (hv : Plain v) (depth : Nat) :
    ∃ c l, formatValue table false depth v = c :: l ∧ lead c = kind v := by
  cases hv with
  | null => exact ⟨'n', _, rfl, rfl⟩
  | bool b =>
    cases b with
    | true => exact ⟨'t', _, rfl, rfl⟩
    | false => exact ⟨'f', _, rfl, rfl⟩
  | int n _ =>
    rw [formatValue]
    have hne : integerString n ≠ [] := by
      rw [integerString]
      exact List.append_ne_nil_of_right_ne_nil _ Nat.toDigits_ne_nil
    obtain ⟨c, l, hl⟩ := List.exists_cons_of_ne_nil hne
    refine ⟨c, l, hl, ?_⟩
    have hc := integerString_numeral n c (by rw [hl]; simp)
    unfold lead
    split_ifs with h1 h2 h3 h4 h5 h6 h7
    all_goals first
      | rfl
      | (subst_vars; exact absurd hc (by decide))
  | text s =>
    rw [formatValue, textString_eq]
    exact ⟨_, _, rfl, rfl⟩
  | bytes b => exact ⟨_, _, rfl, rfl⟩
  | array values _ =>
    rw [formatValue]
    obtain ⟨l, hl⟩ := enclose_eq_cons depth '[' ']' (formatItems table false (depth + 1) values)
    exact ⟨_, l, hl, rfl⟩
  | map entries _ _ _ =>
    rw [formatValue]
    obtain ⟨l, hl⟩ := enclose_eq_cons depth (Char.ofNat 0x7b) (Char.ofNat 0x7d)
      (((formatEntries table false (depth + 1) entries).insertionSort
        (fun a b => compareKeys a.1 b.1 ≤ 0)).map (memberString table))
    exact ⟨_, l, hl, rfl⟩

/-- The text of a value ends where the value does, and fixes it up to the order of members. -/
theorem formatValue_splits (htext : limits.maximumTextBytes < 2 ^ 64) (levels : Nat) :
    ∀ depth : Nat, limits.maximumDepth < depth + levels →
      Splits (fun v => Plain v ∧ Within limits depth v) Ends (formatValue table false depth)
        Value.sorted := by
  induction levels with
  | zero =>
    intro depth hdepth v w r r' hv
    have hle := hv.2.depth_le
    omega
  | succ levels ih =>
    intro depth hdepth v w r r' hv hw hr hr' h
    have hinner := ih (depth + 1) (by omega)
    obtain ⟨c, l, hc, hkind⟩ : ∃ c l,
        formatValue table false depth v = c :: l ∧ lead c = kind v :=
      formatValue_eq_cons hv.1 depth
    obtain ⟨d, l', hd, hkind'⟩ : ∃ d l',
        formatValue table false depth w = d :: l' ∧ lead d = kind w :=
      formatValue_eq_cons hw.1 depth
    have hsame : kind v = kind w := by
      rw [hc, hd, List.cons_append, List.cons_append, List.cons.injEq] at h
      rw [← hkind, ← hkind', h.1]
    obtain ⟨hv, hwithin⟩ := hv
    obtain ⟨hw, hwithin'⟩ := hw
    clear hc hd hkind hkind'
    cases hv with
    | null =>
      cases hw with
      | null => exact ⟨rfl, List.append_cancel_left h⟩
      | bool b => cases b <;> cases hsame
      | _ => cases hsame
    | bool b =>
      cases hw with
      | bool b' =>
        obtain rfl : b = b' := by cases b <;> cases b' <;> first | rfl | cases hsame
        exact ⟨rfl, List.append_cancel_left h⟩
      | _ => cases b <;> cases hsame
    | int n _ =>
      cases hw with
      | int m _ =>
        obtain ⟨hnm, hrest⟩ := integerString_splits n m r r' trivial trivial hr hr' h
        exact ⟨congrArg Value.int hnm, hrest⟩
      | bool b => cases b <;> cases hsame
      | _ => cases hsame
    | text s =>
      cases hw with
      | text t =>
        obtain ⟨hst, hrest⟩ := textString_splits s t r r' trivial trivial trivial trivial h
        exact ⟨congrArg Value.text hst, hrest⟩
      | bool b => cases b <;> cases hsame
      | _ => cases hsame
    | bytes b =>
      cases hw with
      | bytes b' =>
        obtain ⟨hb, hrest⟩ := byteString_splits b b' r r' trivial trivial trivial trivial h
        exact ⟨congrArg Value.bytes hb, hrest⟩
      | bool b => cases b <;> cases hsame
      | _ => cases hsame
    | array values hvalues =>
      cases hw with
      | array values' hvalues' =>
        simp only [Within, withinAll_iff] at hwithin hwithin'
        rw [formatValue, formatValue, formatItems_eq_map, formatItems_eq_map] at h
        obtain ⟨hsorted, hrest⟩ := enclose_splits hinner depth (by decide) values values' r r'
          (fun v hv => ⟨hvalues v hv, hwithin.2.2 v hv⟩)
          (fun w hw => ⟨hvalues' w hw, hwithin'.2.2 w hw⟩) trivial trivial h
        rw [Cbor.sorted_array, Cbor.sorted_array, hsorted]
        exact ⟨rfl, hrest⟩
      | bool b => cases b <;> cases hsame
      | _ => cases hsame
    | map entries hkeys _ hvalues =>
      cases hw with
      | map entries' hkeys' _ hvalues' =>
        simp only [Within, withinEntries_iff, EntryWithin] at hwithin hwithin'
        have hsize : ∀ e ∈ entries, (asBytes e.1.keyText).length < 2 ^ 64 := by
          intro e he
          have hle := (hwithin.2.2 e he).2.1
          omega
        have hsize' : ∀ e ∈ entries', (asBytes e.1.keyText).length < 2 ^ 64 := by
          intro e he
          have hle := (hwithin'.2.2 e he).2.1
          omega
        rw [formatValue_map hkeys hsize, formatValue_map hkeys' hsize'] at h
        obtain ⟨hsorted, hrest⟩ := enclose_splits (memberString_splits hinner) depth
          (by decide) (sortEntries entries) (sortEntries entries') r r'
          (fun e he => ⟨hkeys e (mem_sortEntries.1 he), hvalues e (mem_sortEntries.1 he),
            (hwithin.2.2 e (mem_sortEntries.1 he)).2.2⟩)
          (fun e he => ⟨hkeys' e (mem_sortEntries.1 he), hvalues' e (mem_sortEntries.1 he),
            (hwithin'.2.2 e (mem_sortEntries.1 he)).2.2⟩) trivial trivial h
        rw [sorted_entries hkeys, sorted_entries hkeys', hsorted]
        exact ⟨rfl, hrest⟩
      | bool b => cases b <;> cases hsame
      | _ => cases hsame

end Values

section Clean

variable {table : FormatTable} {redactSecrets : Bool}

/-- Of the escaped characters, the list has newlines only. -/
def Clean (table : FormatTable) (l : List Char) : Prop :=
  ∀ c ∈ l, table.escapes c = true → c = '\n'

theorem Clean.of_printable {l : List Char} (h : ∀ c ∈ l, 0x20 ≤ c.toNat ∧ c.toNat < 0x7f) :
    Clean table l := by
  intro c hc hescapes
  rw [escapes_printable (h c hc).1 (h c hc).2] at hescapes
  cases hescapes

theorem Clean.append {l l' : List Char} (h : Clean table l) (h' : Clean table l') :
    Clean table (l ++ l') := by
  intro c hc
  rcases List.mem_append.1 hc with hc | hc
  · exact h c hc
  · exact h' c hc

theorem Clean.newline {l : List Char} (h : Clean table l) : Clean table ('\n' :: l) := by
  intro c hc hescapes
  rcases List.mem_cons.1 hc with rfl | hc
  · rfl
  · exact h c hc hescapes

theorem Clean.cons {x : Char} {l : List Char} (hlow : 0x20 ≤ x.toNat) (hhigh : x.toNat < 0x7f)
    (h : Clean table l) : Clean table (x :: l) := by
  intro c hc hescapes
  rcases List.mem_cons.1 hc with rfl | hc
  · rw [escapes_printable hlow hhigh] at hescapes
    cases hescapes
  · exact h c hc hescapes

theorem Clean.intercalate {sep : List Char} (hsep : Clean table sep) {lines : List (List Char)}
    (h : ∀ l ∈ lines, Clean table l) : Clean table (List.intercalate sep lines) := by
  induction lines with
  | nil => exact fun c hc => absurd hc (by simp)
  | cons l lines ih =>
    rw [List.forall_mem_cons] at h
    cases lines with
    | nil =>
      rw [List.intercalate_singleton]
      exact h.1
    | cons l' lines =>
      rw [List.intercalate_cons_cons]
      exact (h.1.append hsep).append (ih h.2)

theorem clean_indentation (depth : Nat) : Clean table (indentation depth) := by
  refine .of_printable fun c hc => ?_
  rw [List.eq_of_mem_replicate hc]
  decide

theorem clean_textString (s : String) : Clean table (textString table s) := by
  intro c hc hescapes
  rw [textString_clean s c hc] at hescapes
  cases hescapes

theorem clean_enclose (depth : Nat) {openBracket closeBracket : Char}
    (hopen : 0x20 ≤ openBracket.toNat ∧ openBracket.toNat < 0x7f)
    (hclose : 0x20 ≤ closeBracket.toNat ∧ closeBracket.toNat < 0x7f)
    {entries : List (List Char)} (h : ∀ l ∈ entries, Clean table l) :
    Clean table (enclose depth openBracket closeBracket entries) := by
  have hnil : Clean table [] := fun c hc => absurd hc List.not_mem_nil
  have hlast : Clean table [closeBracket] := .cons hclose.1 hclose.2 hnil
  unfold enclose
  split_ifs
  · exact .cons hopen.1 hopen.2 hlast
  · refine .cons hopen.1 hopen.2 (.newline (.append (.intercalate ?_ ?_) (.newline ?_)))
    · exact .cons (by decide) (by decide) (.newline hnil)
    · intro l hl
      obtain ⟨entry, hentry, rfl⟩ := List.mem_map.1 hl
      exact (clean_indentation (depth + 1)).append (h entry hentry)
    · exact (clean_indentation depth).append hlast

theorem clean_integerString (n : Int) : Clean table (integerString n) := by
  refine .of_printable fun c hc => ?_
  have hnumeral := integerString_numeral n c hc
  rw [Bool.or_eq_true, beq_iff_eq] at hnumeral
  rcases hnumeral with hdigit | rfl
  · obtain ⟨hlow, hhigh⟩ := Char.isDigit_iff_toNat.1 hdigit
    exact ⟨le_trans (by decide) hlow, hhigh.trans_lt (by decide)⟩
  · decide

theorem clean_byteString (b : List UInt8) : Clean table (byteString b) := by
  refine .of_printable fun c hc => ?_
  simp only [byteString, List.mem_cons, List.mem_append, List.mem_flatMap, List.not_mem_nil,
    or_false] at hc
  rcases hc with rfl | rfl | ⟨byte, _, hc⟩ | rfl
  · decide
  · decide
  · obtain ⟨i, hi, rfl⟩ := mem_hexadecimal 1 byte.toNat_lt c hc
    obtain ⟨hhigh, hlow, _⟩ := digitChar_hex_aux i hi
    exact ⟨hlow, hhigh⟩
  · decide

theorem clean_memberString {member : String × List Char} (h : Clean table member.2) :
    Clean table (memberString table member) :=
  (clean_textString member.1).append
    (.cons (by decide) (by decide) (.cons (by decide) (by decide) h))

theorem clean_word {s : String} {l : List Char} (hs : s.toList = l)
    (h : ∀ c ∈ l, 0x20 ≤ c.toNat ∧ c.toNat < 0x7f) : Clean table s.toList := by
  rw [hs]
  exact .of_printable h

mutual

/-- The formatter writes no escaped character but the newlines between its lines. -/
theorem clean_formatValue (depth : Nat) (v : Value) :
    Clean table (formatValue table redactSecrets depth v) := by
  cases v with
  | null => exact clean_word (l := ['n', 'u', 'l', 'l']) rfl (by simp)
  | bool b =>
    cases b with
    | true => exact clean_word (l := ['t', 'r', 'u', 'e']) rfl (by simp)
    | false => exact clean_word (l := ['f', 'a', 'l', 's', 'e']) rfl (by simp)
  | int n => exact clean_integerString n
  | text s => exact clean_textString s
  | bytes b => exact clean_byteString b
  | array values =>
    rw [formatValue]
    exact clean_enclose depth (by decide) (by decide) (clean_formatItems (depth + 1) values)
  | map entries =>
    rw [formatValue]
    refine clean_enclose depth (by decide) (by decide) fun l hl => ?_
    obtain ⟨member, hmember, rfl⟩ := List.mem_map.1 hl
    rw [List.mem_insertionSort] at hmember
    exact clean_memberString (clean_formatEntries (depth + 1) entries member hmember)
  | tag t v => exact fun c hc => absurd hc List.not_mem_nil

theorem clean_formatItems (depth : Nat) (values : List Value) :
    ∀ l ∈ formatItems table redactSecrets depth values, Clean table l := by
  cases values with
  | nil => exact fun l hl => absurd hl List.not_mem_nil
  | cons v values =>
    rw [formatItems, List.forall_mem_cons]
    exact ⟨clean_formatValue depth v, clean_formatItems depth values⟩

theorem clean_formatEntries (depth : Nat) (entries : List (Value × Value)) :
    ∀ member ∈ formatEntries table redactSecrets depth entries, Clean table member.2 := by
  cases entries with
  | nil => exact fun l hl => absurd hl List.not_mem_nil
  | cons e entries =>
    obtain ⟨key, entry⟩ := e
    rw [formatEntries, List.forall_mem_cons]
    refine ⟨?_, clean_formatEntries depth entries⟩
    dsimp only
    split_ifs
    · have hword : "[REDACTED]".toList = ['[', 'R', 'E', 'D', 'A', 'C', 'T', 'E', 'D', ']'] := rfl
      refine .cons (by decide) (by decide) (.append (clean_word hword (by simp)) ?_)
      exact .cons (by decide) (by decide) fun c hc => absurd hc List.not_mem_nil
    · exact clean_formatValue depth entry

end

end Clean

section Faithful

variable (table : FormatTable)

theorem plain_of_accepted {v : Value} (hv : DistinctKeys v) {u : Unit}
    (h : assertHailValue v defaultResourceLimits = .ok u) :
    Plain v ∧ Within defaultResourceLimits 0 v := by
  have hwithin := (assertHailValue_eq_ok.1 h).2.1
  have hdistinct : Distinct v := by
    clear h hwithin
    induction hv with
    | null => exact .null
    | bool b => exact .bool b
    | int n => exact .int n
    | text s => exact .text s
    | bytes b => exact .bytes b
    | array _ ih => exact .array _ ih
    | map hkeys _ ih => exact .map _ hkeys ih
  exact ⟨plain_of_within hdistinct hwithin, hwithin⟩

/-- Diagnostic notation is faithful and safe to print: values with one text have one encoding,
members stand in the order of their encoding, and of the control, format and separator characters
a text holds only the newlines between its lines, none of which comes from a text of the value. -/
theorem toDiagnosticNotation_faithful :
    (∀ (v w : HailValue) (s : String), toDiagnosticNotation table v.value false = .ok s →
      toDiagnosticNotation table w.value false = .ok s → v.value.encoding = w.value.encoding) ∧
    (∀ (entries : Record) (redactSecrets : Bool) (depth : Nat), DistinctKeys (.map entries) →
      assertHailValue (.map entries) defaultResourceLimits = .ok () →
      formatValue table redactSecrets depth (.map entries) =
        enclose depth (Char.ofNat 0x7b) (Char.ofNat 0x7d) ((sortEntries entries).map fun e =>
          memberString table (renderedEntry table redactSecrets (depth + 1) e))) ∧
    (∀ (v : Value) (redactSecrets : Bool) (s : String),
      toDiagnosticNotation table v redactSecrets = .ok s →
        ∀ c ∈ s.toList, table.escapes c = true → c = '\n') ∧
    (∀ text : String, ∀ c ∈ textString table text, table.escapes c = false) := by
  refine ⟨?_, ?_, ?_, textString_clean⟩
  · intro v w s hv hw
    simp only [toDiagnosticNotation, bind_eq_ok, Except.ok.injEq] at hv hw
    obtain ⟨_, hassert, rfl⟩ := hv
    obtain ⟨_, hassert', heq⟩ := hw
    have hplain := plain_of_accepted v.distinct hassert
    have hplain' := plain_of_accepted w.distinct hassert'
    have hnil : Ends [] := fun c hc => absurd hc (by simp)
    have hsplits : Splits (fun v => Plain v ∧ Within defaultResourceLimits 0 v) Ends
        (formatValue table false 0) Value.sorted :=
      formatValue_splits (by decide) 33 0 (by decide)
    have htext := congrArg (· ++ []) (String.ofList_injective heq)
    obtain ⟨hsorted, _⟩ := hsplits w.value v.value [] [] hplain' hplain hnil hnil htext
    rw [← hplain.1.encoding_sorted, ← hplain'.1.encoding_sorted, hsorted]
  · intro entries redactSecrets depth hdistinct hassert
    obtain ⟨hplain, hwithin⟩ := plain_of_accepted hdistinct hassert
    simp only [Within, withinEntries_iff, EntryWithin] at hwithin
    refine formatValue_map (fun e he => (hwithin.2.2 e he).1) fun e he => ?_
    have hle := (hwithin.2.2 e he).2.1
    have hlimit : defaultResourceLimits.maximumTextBytes = 1048576 := rfl
    omega
  · intro v redactSecrets s hv
    simp only [toDiagnosticNotation, bind_eq_ok, Except.ok.injEq] at hv
    obtain ⟨_, _, rfl⟩ := hv
    rw [String.toList_ofList]
    exact clean_formatValue 0 v

end Faithful

end HailProto.Codec.TypeScript.Notation
