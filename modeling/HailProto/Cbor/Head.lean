import HailProto.Cbor.Canonical

/-!
# Item heads

The reader's argument rule and the writer's shortest head describe one relation between
the low five bits of an initial byte, the bytes that follow it and the argument. From it
come uniqueness of the head and the fact that no head is a prefix of another.
-/

namespace HailProto.Cbor

private theorem byte_forall {P : UInt8 → Prop} (h : ∀ n, n < 256 → P (UInt8.ofNat n))
    (b : UInt8) : P b := by
  have hb := h b.toNat (UInt8.toNat_lt b)
  rwa [UInt8.ofNat_toNat] at hb

set_option maxRecDepth 4096 in
/-- An initial byte is its major type and its additional information. -/
theorem initial_split (b : UInt8) : (b >>> 5) <<< 5 ||| (b &&& 31) = b :=
  byte_forall (P := fun b => (b >>> 5) <<< 5 ||| (b &&& 31) = b) (by decide +kernel) b

set_option maxRecDepth 4096 in
private theorem split_initial_aux : ∀ m, m < 8 → ∀ i, i < 32 →
    (UInt8.ofNat m <<< 5 ||| UInt8.ofNat i) >>> 5 = UInt8.ofNat m ∧
      (UInt8.ofNat m <<< 5 ||| UInt8.ofNat i) &&& 31 = UInt8.ofNat i := by
  decide +kernel

/-- Both parts of an initial byte can be read back. -/
theorem split_initial {major info : UInt8} (hm : major < 8) (hi : info < 32) :
    (major <<< 5 ||| info) >>> 5 = major ∧ (major <<< 5 ||| info) &&& 31 = info := by
  have h := split_initial_aux major.toNat (UInt8.lt_iff_toNat_lt.mp hm) info.toNat
    (UInt8.lt_iff_toNat_lt.mp hi)
  simpa only [UInt8.ofNat_toNat] using h

/-- Additional information `info` followed by `raw` states the argument `n`, at the least
width that holds it. -/
def IsArgument (info : UInt8) (raw : List UInt8) (n : Nat) : Prop :=
  (info < 24 ∧ raw = [] ∧ n = info.toNat) ∨
    ¬info < 24 ∧ argumentBytes info = .ok raw.length ∧ beValue raw = n ∧
      minimumArgument raw.length ≤ n

/-- The four widths that may follow an initial byte. -/
theorem argumentBytes_eq_ok {info : UInt8} {count : Nat} : argumentBytes info = .ok count ↔
    (info = 24 ∧ count = 1) ∨ (info = 25 ∧ count = 2) ∨ (info = 26 ∧ count = 4) ∨
      (info = 27 ∧ count = 8) := by
  unfold argumentBytes
  constructor
  · intro h
    split_ifs at h with h1 h2 h3 h4 <;> simp_all
  · rintro (⟨rfl, rfl⟩ | ⟨rfl, rfl⟩ | ⟨rfl, rfl⟩ | ⟨rfl, rfl⟩) <;> rfl

/-- The additional information fixes how many bytes follow. -/
theorem IsArgument.length_eq {info : UInt8} {raw raw' : List UInt8} {n n' : Nat}
    (h : IsArgument info raw n) (h' : IsArgument info raw' n') : raw.length = raw'.length := by
  rcases h with ⟨hlt, rfl, _⟩ | ⟨hge, hc, _⟩ <;> rcases h' with ⟨hlt', rfl, _⟩ | ⟨hge', hc', _⟩
  · rfl
  · exact absurd hlt hge'
  · exact absurd hlt' hge
  · rw [hc] at hc'
    exact Except.ok.inj hc'

/-- The bytes of a head fix its argument. -/
theorem IsArgument.unique {info : UInt8} {raw : List UInt8} {n n' : Nat}
    (h : IsArgument info raw n) (h' : IsArgument info raw n') : n = n' := by
  rcases h with ⟨hlt, _, rfl⟩ | ⟨hge, _, rfl, _⟩ <;> rcases h' with ⟨hlt', _, rfl⟩ | ⟨hge', _, rfl, _⟩
  · rfl
  · exact absurd hlt hge'
  · exact absurd hlt' hge
  · rfl

theorem IsArgument.info_lt {info : UInt8} {raw : List UInt8} {n : Nat}
    (h : IsArgument info raw n) : info < 32 := by
  rcases h with ⟨hlt, _⟩ | ⟨_, hc, _⟩
  · exact hlt.trans (by decide)
  · rcases argumentBytes_eq_ok.mp hc with ⟨rfl, _⟩ | ⟨rfl, _⟩ | ⟨rfl, _⟩ | ⟨rfl, _⟩ <;> decide

/-- A minimal argument is written by the shortest head. -/
theorem IsArgument.head_eq {info : UInt8} {raw : List UInt8} {n : Nat}
    (h : IsArgument info raw n) (major : UInt8) : head major n = (major <<< 5 ||| info) :: raw := by
  rcases h with ⟨hlt, rfl, rfl⟩ | ⟨_, hc, hv, hmin⟩
  · have hn : info.toNat ≤ 23 := by
      have := UInt8.lt_iff_toNat_lt.mp hlt
      simp only [UInt8.reduceToNat] at this
      omega
    rw [head, if_pos hn, UInt8.ofNat_toNat]
  · have hlt := beValue_lt raw
    have hback := beBytes_beValue raw
    rw [hv] at hlt hback
    unfold head
    rcases argumentBytes_eq_ok.mp hc with ⟨rfl, hl⟩ | ⟨rfl, hl⟩ | ⟨rfl, hl⟩ | ⟨rfl, hl⟩ <;>
      rw [hl] at hmin hlt hback
    · change 24 ≤ n at hmin
      rw [if_neg (by omega), if_pos (by omega), ← hback]
      simp [beBytes, Nat.mod_eq_of_lt (show n < 256 by omega)]
    · change 256 ≤ n at hmin
      rw [if_neg (by omega), if_neg (by omega), if_pos (by omega), hback]
    · change 65536 ≤ n at hmin
      rw [if_neg (by omega), if_neg (by omega), if_neg (by omega), if_pos (by omega), hback]
    · change 4294967296 ≤ n at hmin
      rw [if_neg (by omega), if_neg (by omega), if_neg (by omega), if_neg (by omega), hback]

/-- The shortest head of a machine word states its argument minimally. -/
theorem exists_isArgument (n : Nat) (hn : n < 2 ^ 64) : ∃ info raw, IsArgument info raw n := by
  have hbe (width : Nat) (h : n < 256 ^ width) := beValue_beBytes h
  by_cases h1 : n ≤ 23
  · refine ⟨UInt8.ofNat n, [], Or.inl ⟨?_, rfl, ?_⟩⟩
    · rw [UInt8.lt_iff_toNat_lt, UInt8.toNat_ofNat']
      simp only [UInt8.reduceToNat]
      omega
    · rw [UInt8.toNat_ofNat']
      omega
  by_cases h2 : n ≤ 255
  · exact ⟨24, beBytes 1 n, Or.inr ⟨by decide, by rw [length_beBytes]; rfl, hbe 1 (by omega),
      by rw [length_beBytes]; change 24 ≤ n; omega⟩⟩
  by_cases h3 : n ≤ 65535
  · exact ⟨25, beBytes 2 n, Or.inr ⟨by decide, by rw [length_beBytes]; rfl, hbe 2 (by omega),
      by rw [length_beBytes]; change 256 ≤ n; omega⟩⟩
  by_cases h4 : n ≤ 4294967295
  · exact ⟨26, beBytes 4 n, Or.inr ⟨by decide, by rw [length_beBytes]; rfl, hbe 4 (by omega),
      by rw [length_beBytes]; change 65536 ≤ n; omega⟩⟩
  · exact ⟨27, beBytes 8 n, Or.inr ⟨by decide, by rw [length_beBytes]; rfl, hbe 8 (by omega),
      by rw [length_beBytes]; change 4294967296 ≤ n; omega⟩⟩

/-- Heads are prefix free: the bytes fix major type and argument. -/
theorem head_append_inj {major major' : UInt8} {n n' : Nat} {r r' : List UInt8}
    (hm : major < 8) (hm' : major' < 8) (hn : n < 2 ^ 64) (hn' : n' < 2 ^ 64)
    (h : head major n ++ r = head major' n' ++ r') : major = major' ∧ n = n' ∧ r = r' := by
  obtain ⟨info, raw, ha⟩ := exists_isArgument n hn
  obtain ⟨info', raw', ha'⟩ := exists_isArgument n' hn'
  rw [ha.head_eq, ha'.head_eq, List.cons_append, List.cons_append, List.cons.injEq] at h
  obtain ⟨hinit, htail⟩ := h
  have hs := split_initial hm ha.info_lt
  have hs' := split_initial hm' ha'.info_lt
  rw [hinit] at hs
  obtain rfl : major = major' := hs.1.symm.trans hs'.1
  obtain rfl : info = info' := hs.2.symm.trans hs'.2
  obtain ⟨rfl, hr⟩ := List.append_inj htail (ha.length_eq ha')
  exact ⟨rfl, ha.unique ha', hr⟩

/-- The first byte of a head carries its major type. -/
theorem head_major {major : UInt8} {n : Nat} (hm : major < 8) (hn : n < 2 ^ 64) :
    ∃ b raw, head major n = b :: raw ∧ b >>> 5 = major := by
  obtain ⟨info, raw, ha⟩ := exists_isArgument n hn
  exact ⟨_, raw, ha.head_eq major, (split_initial hm ha.info_lt).1⟩

/-- Major type, argument and remaining bytes of a value that has a head with an argument. -/
def Value.opening : Value → Option (UInt8 × Nat × List UInt8)
  | .null => none
  | .bool _ => none
  | .int n => some (if n < 0 then 1 else 0, if n < 0 then (-1 - n).toNat else n.toNat, [])
  | .text s => some (3, (asBytes s).length, asBytes s)
  | .bytes b => some (2, b.length, b)
  | .array values => some (4, values.length, (values.map Value.encoding).flatten)
  | .map entries => some (5, entries.length, ((sortEntries entries).map entryEncoding).flatten)
  | .tag t value => some (6, t.toNat, value.encoding)

theorem encoding_of_opening {v : Value} {major : UInt8} {n : Nat} {body : List UInt8}
    (h : v.opening = some (major, n, body)) : v.encoding = head major n ++ body := by
  cases v with
  | null | bool b => cases h
  | array values | map entries => cases h; simp
  | text s | bytes b | tag t value => cases h; rw [Value.encoding]
  | int n => cases h; rw [Value.encoding, List.append_nil]

/-- The argument of every head within the limits is a machine word, and no such head has
the major type of the simple values. -/
theorem Shaped.opening_lt {limits : Limits} {d : Discipline} {levels : Nat} {v : Value}
    (hs : Shaped limits d levels v) {major : UInt8} {n : Nat} {body : List UInt8}
    (h : v.opening = some (major, n, body)) : major < 7 ∧ n < 2 ^ 64 := by
  cases levels with
  | zero => exact hs.elim
  | succ levels =>
    cases v with
    | null | bool b => cases h
    | int k =>
      cases h
      have hk : -(maxSafe : Int) ≤ k ∧ k ≤ maxSafe := hs
      unfold maxSafe at hk
      exact ⟨by split_ifs <;> decide, by split_ifs <;> omega⟩
    | text s | bytes b | array values | map entries =>
      cases h
      exact ⟨by decide, hs.1.trans_lt (UInt64.toNat_lt _)⟩
    | tag t value =>
      cases h
      exact ⟨by decide, UInt64.toNat_lt _⟩

/-- What the reader admits has only safe arguments. -/
theorem Shaped.opening_le {limits : Limits} {tag18 : Bool} {levels : Nat} {v : Value}
    (hs : Shaped limits (reading tag18) levels v) {major : UInt8} {n : Nat} {body : List UInt8}
    (h : v.opening = some (major, n, body)) : n ≤ maxSafe := by
  cases levels with
  | zero => exact hs.elim
  | succ levels =>
    cases v with
    | null | bool b => cases h
    | int k =>
      cases h
      have hk : -(maxSafe : Int) ≤ k ∧ k ≤ maxSafe := hs
      split_ifs <;> omega
    | text s | bytes b => cases h; exact hs.2
    | array values | map entries => cases h; exact hs.2.1
    | tag t value =>
      cases h
      rw [hs.1.2]
      decide

/-- A value without such a head is one of the three simple values. -/
theorem opening_eq_none {v : Value} : v.opening = none ↔ v = .null ∨ ∃ b, v = .bool b := by
  cases v <;> simp [Value.opening]

/-- The simple values have major type 7. -/
theorem simple_major {v : Value} (h : v.opening = none) :
    ∃ b, v.encoding = [b] ∧ b >>> 5 = 7 := by
  rcases opening_eq_none.mp h with rfl | ⟨b, rfl⟩
  · exact ⟨0xf6, rfl, by decide⟩
  · cases b
    · exact ⟨0xf4, rfl, by decide⟩
    · exact ⟨0xf5, rfl, by decide⟩

section Inversion

variable {v : Value} {n : Nat} {body : List UInt8}

theorem opening_int {major : UInt8} (hm : major < 2) (h : v.opening = some (major, n, body)) :
    ∃ k : Int, v = .int k ∧ k = (if major < 1 then (n : Int) else -1 - n) ∧ body = [] := by
  cases v with
  | int k =>
    cases h
    refine ⟨k, rfl, ?_, rfl⟩
    by_cases hk : k < 0
    · simp [hk]
      omega
    · simp [hk]
      omega
  | null | bool b => cases h
  | text s | bytes b | array vs | map es | tag t w =>
    cases h
    exact absurd hm (by decide)

private theorem int_major {k : Int} {m : UInt8} {x y : Nat × List UInt8} (hm : 1 < m)
    (h : some (if k < 0 then 1 else 0, x) = some (m, y)) : False := by
  split_ifs at h <;> cases h <;> exact absurd hm (by decide)

theorem opening_bytes (h : v.opening = some (2, n, body)) : v = .bytes body ∧ n = body.length := by
  cases v with
  | bytes b => cases h; exact ⟨rfl, rfl⟩
  | int k => exact (int_major (by decide) h).elim
  | null | bool b | text s | array vs | map es | tag t w => cases h

theorem opening_text (h : v.opening = some (3, n, body)) :
    ∃ s, v = .text s ∧ n = (asBytes s).length ∧ body = asBytes s := by
  cases v with
  | text s => cases h; exact ⟨s, rfl, rfl, rfl⟩
  | int k => exact (int_major (by decide) h).elim
  | null | bool b | bytes s | array vs | map es | tag t w => cases h

theorem opening_array (h : v.opening = some (4, n, body)) :
    ∃ vs, v = .array vs ∧ n = vs.length ∧ body = (vs.map Value.encoding).flatten := by
  cases v with
  | array vs => cases h; exact ⟨vs, rfl, rfl, rfl⟩
  | int k => exact (int_major (by decide) h).elim
  | null | bool b | bytes s | text vs | map es | tag t w => cases h

theorem opening_map (h : v.opening = some (5, n, body)) :
    ∃ es, v = .map es ∧ n = es.length ∧
      body = ((sortEntries es).map entryEncoding).flatten := by
  cases v with
  | map es => cases h; exact ⟨es, rfl, rfl, rfl⟩
  | int k => exact (int_major (by decide) h).elim
  | null | bool b | bytes s | text vs | array es | tag t w => cases h

theorem opening_tag (h : v.opening = some (6, n, body)) :
    ∃ t w, v = .tag t w ∧ n = t.toNat ∧ body = w.encoding := by
  cases v with
  | tag t w => cases h; exact ⟨t, w, rfl, rfl, rfl⟩
  | int k => exact (int_major (by decide) h).elim
  | null | bool b | bytes s | text vs | array es | map t => cases h

end Inversion

end HailProto.Cbor
