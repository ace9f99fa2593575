import HailProto.Core.Bytes

/-!
# Unpadded base64url

The TypeScript codec of `base64url.ts`. The decoder shifts every digit into one 32-bit
accumulator that is never cleared, so that on a long input its high bits wrap; only the bits
not yet written out are ever read.
-/

namespace HailProto.Codec

/-- The base64url digits in the order of their values. -/
def alphabet : List Char :=
  "ABCDEFGHIJKLMNOPQRSTUVWXYZabcdefghijklmnopqrstuvwxyz0123456789-_".toList

/-- `ALPHABET[digit]`, for a digit below 64. -/
def letter (digit : Nat) : Char := alphabet.getD digit 'A'

/-- `(first << 16) | (second << 8) | third`. -/
def combined (first second third : UInt8) : Nat :=
  first.toNat <<< 16 ||| second.toNat <<< 8 ||| third.toNat

/-- Three bytes become four letters; a shorter tail becomes two or three. -/
def encodeBase64Url : List UInt8 → List Char
  | [] => []
  | [first] =>
    let c := combined first 0 0
    [letter (c >>> 18 &&& 63), letter (c >>> 12 &&& 63)]
  | [first, second] =>
    let c := combined first second 0
    [letter (c >>> 18 &&& 63), letter (c >>> 12 &&& 63), letter (c >>> 6 &&& 63)]
  | first :: second :: third :: rest =>
    let c := combined first second third
    letter (c >>> 18 &&& 63) :: letter (c >>> 12 &&& 63) :: letter (c >>> 6 &&& 63) ::
      letter (c &&& 63) :: encodeBase64Url rest

/-- The decoder's loop: the 32-bit accumulator, the number of bits not yet written, and the
bytes written so far. -/
structure Decoding where
  accumulator : Nat
  bits : Nat
  output : List UInt8

/-- One pass of the loop. -/
def Decoding.push (d : Decoding) (character : Char) : Decoding :=
  let digit := alphabet.idxOf character
  let accumulator := (d.accumulator <<< 6 ||| digit) % 2 ^ 32
  let bits := d.bits + 6
  if bits ≥ 8 then
    ⟨accumulator, bits - 8, d.output ++ [UInt8.ofNat (accumulator >>> (bits - 8) &&& 0xff)]⟩
  else ⟨accumulator, bits, d.output⟩

/-- `decodeBase64Url` without an expected length; every error is one refusal here. -/
def decodeBase64Url (value : List Char) : Option (List UInt8) :=
  if !value.all alphabet.contains || value.length % 4 = 1 then none
  else
    let d := value.foldl Decoding.push ⟨0, 0, []⟩
    let size := value.length * 6 / 8
    -- The output array has its final size from the start, filled with zeros.
    let output := d.output.take size ++ List.replicate (size - d.output.length) 0
    if d.bits > 0 ∧ d.accumulator &&& (1 <<< d.bits - 1) ≠ 0 then none
    else if encodeBase64Url output ≠ value then none
    else some output

attribute [local simp] encodeBase64Url

theorem letter_mem {digit : Nat} (h : digit < 64) : letter digit ∈ alphabet := by
  have hall : ∀ d : Fin 64, letter d ∈ alphabet := by decide +kernel
  exact hall ⟨digit, h⟩

@[simp] theorem idxOf_letter {digit : Nat} (h : digit < 64) :
    alphabet.idxOf (letter digit) = digit := by
  have hall : ∀ d : Fin 64, alphabet.idxOf (letter d) = d := by decide +kernel
  exact hall ⟨digit, h⟩

theorem alphabet_codes : ∀ c ∈ alphabet, 45 ≤ c.toNat ∧ c.toNat < 123 ∧ c.toNat ≠ 92 := by
  have hall : ∀ d : Fin 64,
      45 ≤ (letter d).toNat ∧ (letter d).toNat < 123 ∧ (letter d).toNat ≠ 92 := by
    decide +kernel
  intro c hc
  obtain ⟨i, hi, rfl⟩ := List.getElem_of_mem hc
  have hletter : letter i = alphabet[i] := List.getD_eq_getElem _ _ hi
  rw [← hletter]
  exact hall ⟨i, hi⟩

theorem combined_eq (first second third : UInt8) :
    combined first second third = first.toNat * 65536 + second.toNat * 256 + third.toNat := by
  have h2 := second.toNat_lt
  have h3 := third.toNat_lt
  have hhigh : first.toNat <<< 16 = first.toNat <<< 8 <<< 8 := (Nat.shiftLeft_add _ 8 8)
  unfold combined
  rw [hhigh, ← Nat.shiftLeft_or_distrib, ← Nat.shiftLeft_add_eq_or_of_lt h2,
    ← Nat.shiftLeft_add_eq_or_of_lt h3, Nat.shiftLeft_eq, Nat.shiftLeft_eq]
  omega

theorem sextet_eq (word : Nat) : word &&& 63 = word % 64 :=
  Nat.and_two_pow_sub_one_eq_mod _ 6

/-- A letter shifts its digit into the accumulator and writes a byte once eight bits wait. -/
theorem push_letter (d : Decoding) {digit : Nat} (h : digit < 64) :
    d.push (letter digit) =
      let accumulator := (d.accumulator * 64 + digit) % 2 ^ 32
      if d.bits + 6 ≥ 8 then
        ⟨accumulator, d.bits + 6 - 8,
          d.output ++ [UInt8.ofNat (accumulator / 2 ^ (d.bits + 6 - 8) % 256)]⟩
      else ⟨accumulator, d.bits + 6, d.output⟩ := by
  have hor : d.accumulator <<< 6 ||| digit = d.accumulator * 64 + digit := by
    rw [← Nat.shiftLeft_add_eq_or_of_lt h, Nat.shiftLeft_eq]
  have hand : ∀ n : Nat, n &&& 0xff = n % 256 := fun n => Nat.and_two_pow_sub_one_eq_mod n 8
  simp only [Decoding.push, idxOf_letter h, hor, Nat.shiftRight_eq_div_pow, hand]

theorem ofNat_eq_of_toNat {n : Nat} {b : UInt8} (h : n = b.toNat) : UInt8.ofNat n = b := by
  rw [h, UInt8.ofNat_toNat]

/-- The four letters of three bytes write these three bytes, whatever the accumulator held. -/
theorem push_group (first second third : UInt8) (accumulator : Nat) (output : List UInt8) :
    ∃ accumulator', (encodeBase64Url [first, second, third]).foldl Decoding.push
      ⟨accumulator, 0, output⟩ = ⟨accumulator', 0, output ++ [first, second, third]⟩ := by
  have h1 := first.toNat_lt
  have h2 := second.toNat_lt
  have h3 := third.toNat_lt
  simp only [encodeBase64Url, combined_eq, sextet_eq, List.foldl_cons,
    List.foldl_nil]
  rw [push_letter _ (Nat.mod_lt _ (by decide)), push_letter _ (Nat.mod_lt _ (by decide)),
    push_letter _ (Nat.mod_lt _ (by decide)), push_letter _ (Nat.mod_lt _ (by decide))]
  simp only [Nat.reduceAdd, Nat.reduceLeDiff, ge_iff_le, ite_true, ite_false, Nat.reduceSub,
    List.append_assoc, List.cons_append, List.nil_append, Decoding.mk.injEq, true_and,
    List.append_cancel_left_eq, List.cons.injEq, and_true]
  refine ⟨_, rfl, ofNat_eq_of_toNat ?_, ofNat_eq_of_toNat ?_, ofNat_eq_of_toNat ?_⟩ <;> omega

/-- Reading an encoding writes the encoded bytes and leaves only zero bits over. -/
theorem foldl_push_encode (bytes : List UInt8) (accumulator : Nat) (output : List UInt8) :
    let d := (encodeBase64Url bytes).foldl Decoding.push ⟨accumulator, 0, output⟩
    d.output = output ++ bytes ∧ d.accumulator % 2 ^ d.bits = 0 := by
  induction bytes using encodeBase64Url.induct generalizing accumulator output with
  | case1 => simp [Nat.mod_one]
  | case2 first =>
    have h1 := first.toNat_lt
    simp only [encodeBase64Url, combined_eq, sextet_eq, List.foldl_cons, List.foldl_nil]
    rw [push_letter _ (Nat.mod_lt _ (by decide)), push_letter _ (Nat.mod_lt _ (by decide))]
    simp only [Nat.reduceAdd, Nat.reduceLeDiff, ge_iff_le, ite_true, ite_false, Nat.reduceSub,
      UInt8.toNat_zero, List.append_cancel_left_eq, List.cons.injEq, and_true]
    exact ⟨ofNat_eq_of_toNat (by omega), by omega⟩
  | case3 first second =>
    have h1 := first.toNat_lt
    have h2 := second.toNat_lt
    simp only [encodeBase64Url, combined_eq, sextet_eq, List.foldl_cons, List.foldl_nil]
    rw [push_letter _ (Nat.mod_lt _ (by decide)), push_letter _ (Nat.mod_lt _ (by decide)),
      push_letter _ (Nat.mod_lt _ (by decide))]
    simp only [Nat.reduceAdd, Nat.reduceLeDiff, ge_iff_le, ite_true, ite_false, Nat.reduceSub,
      UInt8.toNat_zero, List.append_assoc, List.cons_append, List.nil_append,
      List.append_cancel_left_eq, List.cons.injEq, and_true]
    exact ⟨⟨ofNat_eq_of_toNat (by omega), ofNat_eq_of_toNat (by omega)⟩, by omega⟩
  | case4 first second third rest ih =>
    obtain ⟨accumulator', hgroup⟩ := push_group first second third accumulator output
    have hsplit : encodeBase64Url (first :: second :: third :: rest) =
        encodeBase64Url [first, second, third] ++ encodeBase64Url rest := rfl
    rw [hsplit, List.foldl_append, hgroup]
    simpa using ih accumulator' (output ++ [first, second, third])

theorem length_encodeBase64Url (bytes : List UInt8) :
    (encodeBase64Url bytes).length = (bytes.length * 4 + 2) / 3 := by
  induction bytes using encodeBase64Url.induct with
  | case1 => rfl
  | case2 => simp
  | case3 => simp
  | case4 first second third rest ih =>
    simp only [encodeBase64Url, List.length_cons, ih]
    omega

theorem encodeBase64Url_alphabet (bytes : List UInt8) :
    ∀ c ∈ encodeBase64Url bytes, c ∈ alphabet := by
  have hletter : ∀ word : Nat, letter (word &&& 63) ∈ alphabet := by
    intro word
    rw [sextet_eq]
    exact letter_mem (Nat.mod_lt _ (by decide))
  induction bytes using encodeBase64Url.induct with
  | case1 => simp
  | case2 => simp [hletter]
  | case3 => simp [hletter]
  | case4 first second third rest ih => simpa [hletter] using ih

/-- Every byte string is read back from its encoding. -/
theorem decode_encodeBase64Url (bytes : List UInt8) :
    decodeBase64Url (encodeBase64Url bytes) = some bytes := by
  obtain ⟨houtput, hzero⟩ := foldl_push_encode bytes 0 []
  have hlength := length_encodeBase64Url bytes
  have hsize : (encodeBase64Url bytes).length * 6 / 8 = bytes.length := by omega
  have hshape : ¬(!(encodeBase64Url bytes).all alphabet.contains ||
      (encodeBase64Url bytes).length % 4 = 1) := by
    have hall : (encodeBase64Url bytes).all alphabet.contains = true := by
      rw [List.all_eq_true]
      intro c hc
      exact List.contains_iff_mem.mpr (encodeBase64Url_alphabet bytes c hc)
    have hmod : (encodeBase64Url bytes).length % 4 ≠ 1 := by omega
    simp [hall, hmod]
  rw [List.nil_append] at houtput
  unfold decodeBase64Url
  rw [if_neg hshape]
  simp only [hsize, houtput, List.take_length, Nat.sub_self, List.replicate_zero,
    List.append_nil, ne_eq, not_true_eq_false, ite_false]
  rw [if_neg]
  rintro ⟨_, hbits⟩
  apply hbits
  rw [Nat.one_shiftLeft, Nat.and_two_pow_sub_one_eq_mod]
  exact hzero

/-- Only the encoding of a byte string is read, as that byte string. -/
theorem decodeBase64Url_eq_some {value : List Char} {bytes : List UInt8} :
    decodeBase64Url value = some bytes ↔ value = encodeBase64Url bytes := by
  constructor
  · intro h
    unfold decodeBase64Url at h
    split at h
    · cases h
    · dsimp only at h
      split at h
      · cases h
      · split at h
        · cases h
        · rename_i hcanonical
          rw [Option.some.injEq] at h
          rw [← h]
          exact (not_not.mp hcanonical).symm
  · rintro rfl
    exact decode_encodeBase64Url bytes

end HailProto.Codec
