import Mathlib

/-!
# Machine numbers

The integers a double carries and those of a 64-bit word. A sum beyond `2 ^ 53` is rounded to
53 significant bits, ties to even, and a sum outside the word wraps around. Both are exact on
small results, and rounding never takes a large result below `2 ^ 53`, so a comparison with a
small bound is not disturbed by it.
-/

namespace HailProto

/-- Round to 53 significant bits, ties to even. -/
def roundBits (n : Nat) : Nat :=
  if n ≤ 2 ^ 53 then n
  else
    let shift := n.log2 - 52
    let quotient := n / 2 ^ shift
    let rest := n % 2 ^ shift
    if 2 ^ shift < 2 * rest ∨ 2 * rest = 2 ^ shift ∧ quotient % 2 = 1 then
      (quotient + 1) * 2 ^ shift
    else quotient * 2 ^ shift

/-- The double nearest to an integer. -/
def number (n : Int) : Int :=
  if 0 ≤ n then roundBits n.toNat else -(roundBits (-n).toNat : Int)

/-- The 64-bit word of an integer. -/
def int64 (n : Int) : Int := n.bmod (2 ^ 64)

theorem le_roundBits {n : Nat} (h : 2 ^ 53 < n) : 2 ^ 53 ≤ roundBits n := by
  have hlog : 53 ≤ n.log2 := (Nat.le_log2 (by omega)).2 (by omega)
  have hshift : 1 ≤ n.log2 - 52 := by omega
  have hquotient : 2 ^ 52 ≤ n / 2 ^ (n.log2 - 52) := by
    rw [Nat.le_div_iff_mul_le (by positivity), ← pow_add]
    have hexponent : 52 + (n.log2 - 52) = n.log2 := by omega
    rw [hexponent]
    exact Nat.log2_self_le (by omega)
  have hproduct : 2 ^ 52 * 2 ^ 1 ≤ n / 2 ^ (n.log2 - 52) * 2 ^ (n.log2 - 52) :=
    Nat.mul_le_mul hquotient (Nat.pow_le_pow_right (by decide) hshift)
  rw [roundBits, if_neg (by omega)]
  dsimp only
  split
  · rw [Nat.add_mul]
    omega
  · omega

/-- Small integers are doubles. -/
theorem number_of_le {n : Int} (h : n.natAbs ≤ 2 ^ 53) : number n = n := by
  unfold number roundBits
  split
  · rw [if_pos (by omega)]
    omega
  · rw [if_pos (by omega)]
    omega

/-- Rounding does not disturb the comparison with a small bound. -/
theorem lt_number_iff {a n : Int} (ha : a < 2 ^ 53) (hn : 0 ≤ n) : a < number n ↔ a < n := by
  by_cases hsmall : n.natAbs ≤ 2 ^ 53
  · rw [number_of_le hsmall]
  · have hround := le_roundBits (show 2 ^ 53 < n.toNat by omega)
    have hnumber : number n = (roundBits n.toNat : Int) := by rw [number, if_pos hn]
    constructor <;> intro <;> omega

/-- Integers within the word are unchanged. -/
theorem int64_of_lt {n : Int} (h : n.natAbs < 2 ^ 63) : int64 n = n := by
  rw [int64, Int.bmod_eq_of_le_mul_two] <;> omega

end HailProto
