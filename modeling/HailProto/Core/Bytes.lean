import Mathlib

/-!
# Byte strings and big-endian words

Bytes are ordered by their numeric value, so byte strings carry Mathlib's
lexicographic linear order: the order of a bytewise slice comparison, in which a
proper prefix is smaller. A big-endian word of a fixed width is a bijection between
the numbers below `256 ^ width` and the byte strings of that length.
-/

namespace HailProto

instance linearOrderByte : LinearOrder UInt8 where
  le_refl a := UInt8.le_refl a
  le_trans _ _ _ := UInt8.le_trans
  le_antisymm _ _ := UInt8.le_antisymm
  le_total a b := UInt8.le_total a b
  lt_iff_le_not_ge a b := by
    rw [UInt8.le_iff_toNat_le, UInt8.le_iff_toNat_le, UInt8.lt_iff_toNat_lt]
    omega
  toDecidableLE := inferInstance
  toDecidableLT := inferInstance
  toDecidableEq := inferInstance

/-- The `width` low bytes of a number, most significant first. -/
def beBytes : Nat → Nat → List UInt8
  | 0, _ => []
  | width + 1, n => beBytes width (n / 256) ++ [UInt8.ofNat (n % 256)]

@[simp] theorem length_beBytes (width n : Nat) : (beBytes width n).length = width := by
  induction width generalizing n with
  | zero => rfl
  | succ width ih => simp [beBytes, ih]

/-- The number a big-endian byte string stands for. -/
def beValue (bytes : List UInt8) : Nat := bytes.foldl (fun n b => n * 256 + b.toNat) 0

@[simp] theorem beValue_nil : beValue [] = 0 := rfl

theorem beValue_concat (bytes : List UInt8) (b : UInt8) :
    beValue (bytes ++ [b]) = beValue bytes * 256 + b.toNat := by
  simp [beValue, List.foldl_append]

/-- A byte string of a given width stands for a number below that many bytes. -/
theorem beValue_lt (bytes : List UInt8) : beValue bytes < 256 ^ bytes.length := by
  induction bytes using List.reverseRecOn with
  | nil => simp
  | append_singleton bytes b ih =>
    have hb := UInt8.toNat_lt b
    rw [beValue_concat, List.length_append, List.length_singleton, Nat.pow_succ]
    omega

/-- Reading back the bytes of a number that fits loses nothing. -/
theorem beValue_beBytes {width n : Nat} (hn : n < 256 ^ width) :
    beValue (beBytes width n) = n := by
  induction width generalizing n with
  | zero =>
    have h0 : n = 0 := by simpa using hn
    rw [h0, beBytes, beValue_nil]
  | succ width ih =>
    have hq : n / 256 < 256 ^ width := by
      rw [Nat.pow_succ] at hn
      omega
    rw [beBytes, beValue_concat, ih hq, UInt8.toNat_ofNat']
    omega

/-- Writing the number of a byte string at its own width gives that byte string. -/
theorem beBytes_beValue (bytes : List UInt8) : beBytes bytes.length (beValue bytes) = bytes := by
  induction bytes using List.reverseRecOn with
  | nil => rfl
  | append_singleton bytes b ih =>
    have hb := UInt8.toNat_lt b
    have hq : (beValue bytes * 256 + b.toNat) / 256 = beValue bytes := by omega
    have hr : (beValue bytes * 256 + b.toNat) % 256 = b.toNat := by omega
    rw [List.length_append, List.length_singleton, beBytes, beValue_concat, hq, hr, ih,
      UInt8.ofNat_toNat]

/-- The shift-and-or accumulation of a byte reader is the big-endian value. -/
theorem foldl_shift_or (bytes : List UInt8) (n : Nat) :
    bytes.foldl (fun n b => n <<< 8 ||| b.toNat) n =
      bytes.foldl (fun n b => n * 256 + b.toNat) n := by
  induction bytes generalizing n with
  | nil => rfl
  | cons b bytes ih =>
    have hb : b.toNat < 2 ^ 8 := UInt8.toNat_lt b
    rw [List.foldl_cons, List.foldl_cons, ih, ← Nat.shiftLeft_add_eq_or_of_lt hb,
      Nat.shiftLeft_eq]

end HailProto
