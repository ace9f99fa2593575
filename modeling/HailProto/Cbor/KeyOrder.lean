import HailProto.Cbor.Roundtrip

/-!
# The two orders of map keys

RFC 8949 sorts the encoded keys of a map bytewise, RFC 7049 sorts shorter keys first and keys of
one length bytewise. The two orders differ on integers, but a head states the length of a text
before the text, so that they agree on texts.
-/

namespace HailProto.Cbor

theorem beValue_cons (b : UInt8) (bytes : List UInt8) :
    beValue (b :: bytes) = b.toNat * 256 ^ bytes.length + beValue bytes := by
  induction bytes using List.reverseRecOn with
  | nil => simp [beValue]
  | append_singleton bytes c ih =>
    rw [← List.cons_append, beValue_concat, ih, beValue_concat, List.length_append,
      List.length_singleton, Nat.pow_succ]
    ring

/-- Bytes of one length are in the order of the numbers they stand for, whatever follows them. -/
theorem append_lt_append {xs ys : List UInt8} (x y : List UInt8) (hlength : xs.length = ys.length)
    (hlt : beValue xs < beValue ys) : xs ++ x < ys ++ y := by
  induction xs generalizing ys with
  | nil =>
    obtain rfl := List.eq_nil_of_length_eq_zero hlength.symm
    exact absurd hlt (lt_irrefl _)
  | cons a xs ih =>
    cases ys with
    | nil => cases hlength
    | cons b ys =>
      have hlength' : xs.length = ys.length := by simpa using hlength
      rw [beValue_cons, beValue_cons, hlength'] at hlt
      rw [List.cons_append, List.cons_append, List.cons_lt_cons_iff]
      have hxs := beValue_lt xs
      have hys := beValue_lt ys
      rw [hlength'] at hxs
      obtain hab | hab | hab := lt_trichotomy a.toNat b.toNat
      · exact .inl (UInt8.lt_iff_toNat_lt.2 hab)
      · refine .inr ⟨UInt8.toNat_inj.1 hab, ih hlength' ?_⟩
        rw [hab] at hlt
        omega
      · have hle : (b.toNat + 1) * 256 ^ ys.length ≤ a.toNat * 256 ^ ys.length :=
          Nat.mul_le_mul_right _ hab
        rw [Nat.add_mul] at hle
        omega

private theorem initial_lt_aux : ∀ i, i < 32 → ∀ j, j < 32 → i < j →
    (3 : UInt8) <<< 5 ||| UInt8.ofNat i < (3 : UInt8) <<< 5 ||| UInt8.ofNat j := by
  decide +kernel

theorem initial_lt {info info' : UInt8} (h' : info' < 32) (h : info < info') :
    (3 : UInt8) <<< 5 ||| info < (3 : UInt8) <<< 5 ||| info' := by
  rw [UInt8.lt_iff_toNat_lt] at h h'
  have hlt := initial_lt_aux info.toNat (h.trans h') info'.toNat h' h
  simpa only [UInt8.ofNat_toNat] using hlt

/-- A smaller argument has a smaller first byte, or the same one before a smaller word. -/
theorem IsArgument.lt {info info' : UInt8} {raw raw' : List UInt8} {n n' : Nat}
    (h : IsArgument info raw n) (h' : IsArgument info' raw' n') (hlt : n < n') :
    info < info' ∨ info = info' ∧ raw.length = raw'.length ∧ beValue raw < beValue raw' := by
  obtain ⟨hsmall, rfl, rfl⟩ | ⟨hlarge, hcount, rfl, hmin⟩ := h
  · obtain ⟨_, _, rfl⟩ | ⟨hlarge', _⟩ := h'
    · exact .inl (UInt8.lt_iff_toNat_lt.2 hlt)
    · exact .inl (lt_of_lt_of_le hsmall (not_lt.1 hlarge'))
  · obtain ⟨hsmall', _, rfl⟩ | ⟨_, hcount', rfl, _⟩ := h'
    · simp only [UInt8.lt_iff_toNat_lt, UInt8.reduceToNat] at hsmall'
      obtain ⟨_, hl⟩ | ⟨_, hl⟩ | ⟨_, hl⟩ | ⟨_, hl⟩ := argumentBytes_eq_ok.1 hcount <;>
        rw [hl] at hmin <;> simp [minimumArgument] at hmin <;> omega
    · have hvalue' := beValue_lt raw'
      obtain ⟨rfl, hl⟩ | ⟨rfl, hl⟩ | ⟨rfl, hl⟩ | ⟨rfl, hl⟩ := argumentBytes_eq_ok.1 hcount <;>
        obtain ⟨rfl, hl'⟩ | ⟨rfl, hl'⟩ | ⟨rfl, hl'⟩ | ⟨rfl, hl'⟩ := argumentBytes_eq_ok.1 hcount' <;>
        rw [hl] at hmin <;> rw [hl'] at hvalue' <;> simp [minimumArgument] at hmin <;>
        first
          | exact .inl (by decide)
          | exact .inr ⟨rfl, hl.trans hl'.symm, hlt⟩
          | omega

/-- The head of a shorter text comes first. -/
theorem head_text_lt {n n' : Nat} (x y : List UInt8) (hlt : n < n') (hn' : n' < 2 ^ 64) :
    head 3 n ++ x < head 3 n' ++ y := by
  obtain ⟨info, raw, h⟩ := exists_isArgument n (hlt.trans hn')
  obtain ⟨info', raw', h'⟩ := exists_isArgument n' hn'
  rw [h.head_eq, h'.head_eq, List.cons_append, List.cons_append, List.cons_lt_cons_iff]
  obtain hinfo | ⟨rfl, hlength, hvalue⟩ := h.lt h' hlt
  · exact .inl (initial_lt h'.info_lt hinfo)
  · exact .inr ⟨rfl, append_lt_append x y hlength hvalue⟩

/-- Shorter keys first, and keys of one length bytewise. -/
def LengthFirst (a b : List UInt8) : Prop := a.length < b.length ∨ a.length = b.length ∧ a ≤ b

instance : DecidableRel LengthFirst := fun _ _ => inferInstanceAs (Decidable (_ ∨ _))

theorem length_head_mono {n n' : Nat} (h : n ≤ n') : (head 3 n).length ≤ (head 3 n').length := by
  have hlength (n : Nat) : (head 3 n).length =
      if n ≤ 23 then 1 else if n ≤ 255 then 2 else if n ≤ 65535 then 3
        else if n ≤ 4294967295 then 5 else 9 := by
    unfold head
    split_ifs <;> simp
  rw [hlength, hlength]
  split_ifs <;> omega

/-- The two orders agree on texts. -/
theorem lengthFirst_text {s t : String} (hs : (asBytes s).length < 2 ^ 64)
    (ht : (asBytes t).length < 2 ^ 64) :
    LengthFirst (Value.text s).encoding (Value.text t).encoding ↔
      (Value.text s).encoding ≤ (Value.text t).encoding := by
  simp only [LengthFirst, Value.encoding, List.length_append]
  obtain hlt | heq | hlt := lt_trichotomy (asBytes s).length (asBytes t).length
  · have hmono := length_head_mono hlt.le
    have hbytes := head_text_lt (asBytes s) (asBytes t) hlt ht
    exact iff_of_true (.inl (by omega)) hbytes.le
  · rw [heq]
    simp only [lt_self_iff_false, false_or, true_and]
  · have hmono := length_head_mono hlt.le
    have hbytes := head_text_lt (asBytes t) (asBytes s) hlt hs
    refine iff_of_false ?_ hbytes.not_ge
    rintro (h | ⟨h, _⟩) <;> omega

theorem append_le_append_iff (p a b : List UInt8) : p ++ a ≤ p ++ b ↔ a ≤ b := by
  induction p with
  | nil => rfl
  | cons x p ih =>
    rw [← ih, List.cons_append, List.cons_append, ← not_lt, ← not_lt, List.cons_lt_cons_iff]
    simp only [lt_self_iff_false, true_and, false_or]

/-- The order of encoded keys is the order of their texts, by length first. -/
theorem lengthFirst_head {a b : List UInt8} (ha : a.length < 2 ^ 64) (hb : b.length < 2 ^ 64) :
    LengthFirst a b ↔ head 3 a.length ++ a ≤ head 3 b.length ++ b := by
  obtain hlt | heq | hlt := lt_trichotomy a.length b.length
  · exact iff_of_true (.inl hlt) (head_text_lt a b hlt hb).le
  · rw [LengthFirst, heq, append_le_append_iff]
    simp
  · refine iff_of_false ?_ (head_text_lt b a hlt ha).not_ge
    rintro (h | ⟨h, _⟩) <;> omega

end HailProto.Cbor
