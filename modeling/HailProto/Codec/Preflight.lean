import HailProto.Codec.Scan

/-!
# The preflight of an encoder

`preflightValue` of `cbor.go`, which computes the size of an encoding while it holds the value to
the limits. Like `checkValue` and `encodedSize` of TypeScript it succeeds exactly on the values
within the limits, so a value passes before it is encoded exactly when its encoding passes the
scan before it is decoded, in both languages and for every order of the entries of a map.
-/

namespace HailProto.Codec

open Cbor (Value Value.items itemsSum entryItems maxSafe asBytes sortEntries sortEntries_perm
  entryEncoding sortEntries_map_sorted sorted_of_isKey)

namespace Go

def integerSize (value : Int) : Except String Nat :=
  if value < -(maxSafe : Int) ∨ value > maxSafe then .error "integer outside Hail safe range"
  else if value ≥ 0 then .ok (TypeScript.argumentSize value.toNat)
  else .ok (TypeScript.argumentSize (-1 - value).toNat)

/-- The counter passes this item, at this depth. -/
def preflightItem (limits : ResourceLimits) (depth count : Nat) : Except String Unit :=
  if count > limits.maximumItems then .error "resource limit: too many values"
  else if depth > limits.maximumDepth then .error "resource limit: value nesting too deep"
  else .ok ()

mutual

/-- The size of the encoding, and the counter after the value. -/
def preflightValue (limits : ResourceLimits) (depth count : Nat) :
    Value → Except String (Nat × Nat)
  | .null => do
      preflightItem limits depth (count + 1)
      .ok (1, count + 1)
  | .bool _ => do
      preflightItem limits depth (count + 1)
      .ok (1, count + 1)
  | .int n => do
      preflightItem limits depth (count + 1)
      let size ← integerSize n
      .ok (size, count + 1)
  | .text s => do
      preflightItem limits depth (count + 1)
      if (asBytes s).length > limits.maximumTextBytes then
        .error "resource limit: text string too large"
      else .ok (TypeScript.argumentSize (asBytes s).length + (asBytes s).length, count + 1)
  | .bytes b => do
      preflightItem limits depth (count + 1)
      if b.length > limits.maximumByteStringLength then
        .error "resource limit: byte string too large"
      else .ok (TypeScript.argumentSize b.length + b.length, count + 1)
  | .array values => do
      preflightItem limits depth (count + 1)
      if values.length > limits.maximumArrayLength then .error "resource limit: array too large"
      else preflightArray limits depth (count + 1) (TypeScript.argumentSize values.length) values
  | .map entries => do
      preflightItem limits depth (count + 1)
      if entries.length > limits.maximumMapEntries then .error "resource limit: map too large"
      else preflightMap limits depth (count + 1) (TypeScript.argumentSize entries.length) entries
  | .tag _ _ => do
      preflightItem limits depth (count + 1)
      .error "unsupported Hail value"

def preflightArray (limits : ResourceLimits) (depth count total : Nat) :
    List Value → Except String (Nat × Nat)
  | [] => .ok (total, count)
  | v :: values => do
      let (size, count) ← preflightValue limits (depth + 1) count v
      preflightArray limits depth count (total + size) values

/-- The entries in the order in which they are visited. -/
def preflightMap (limits : ResourceLimits) (depth count total : Nat) :
    List (Value × Value) → Except String (Nat × Nat)
  | [] => .ok (total, count)
  | (k, v) :: entries =>
    if k.isKey false = false then .error "map keys must be text"
    else do
      let (keySize, count) ← preflightValue limits (depth + 1) count k
      let (valueSize, count) ← preflightValue limits (depth + 1) count v
      preflightMap limits depth count (total + (keySize + valueSize)) entries

end

/-- What `EncodeDeterministicWithLimits` asks of a value before it is written. -/
def preflight (value : Value) (limits : ResourceLimits) : Except String Nat := do
  let (size, _) ← preflightValue limits 0 0 value
  if size > limits.maximumBytes then .error "resource limit: encoded value too large"
  else .ok size

end Go

section Check

variable {limits : ResourceLimits}

theorem Go.integerSize_eq_ok {value : Int} {size : Nat} :
    integerSize value = .ok size ↔
      value.natAbs ≤ maxSafe ∧ size = TypeScript.encodedSize (.int value) := by
  unfold integerSize TypeScript.encodedSize
  by_cases hsafe : value < -(maxSafe : Int) ∨ value > maxSafe
  · rw [if_pos hsafe]
    refine iff_of_false (fun h => by cases h) (fun h => ?_)
    omega
  · rw [if_neg hsafe, ← apply_ite Except.ok, Except.ok.injEq,
      ← apply_ite TypeScript.argumentSize]
    have hle : value.natAbs ≤ maxSafe := by omega
    rw [and_iff_right hle, eq_comm]
    by_cases hnonneg : 0 ≤ value
    · rw [if_pos hnonneg, if_pos hnonneg]
    · rw [if_neg hnonneg, if_neg hnonneg]

theorem Go.preflightItem_eq_ok {depth count : Nat} {u : Unit} :
    preflightItem limits depth count = .ok u ↔
      count ≤ limits.maximumItems ∧ depth ≤ limits.maximumDepth := by
  simp only [preflightItem, guard_eq_ok, not_lt, and_true]

mutual

/-- The preflight succeeds exactly when the items fit and the value is within the other limits, and
it computes the size of the encoding. -/
theorem Go.preflightValue_eq_ok {depth count size n : Nat} (v : Value) :
    preflightValue limits depth count v = .ok (size, n) ↔
      (size = TypeScript.encodedSize v ∧ n = count + v.items) ∧
        n ≤ limits.maximumItems ∧ Within limits depth v := by
  cases v with
  | null =>
    simp only [preflightValue, bind_eq_ok, preflightItem_eq_ok, Value.items, Within,
      TypeScript.encodedSize, Except.ok.injEq, Prod.mk.injEq, exists_const]
    omega
  | bool b =>
    simp only [preflightValue, bind_eq_ok, preflightItem_eq_ok, Value.items, Within,
      TypeScript.encodedSize, Except.ok.injEq, Prod.mk.injEq, exists_const]
    omega
  | int k =>
    simp only [preflightValue, bind_eq_ok, preflightItem_eq_ok, Value.items, Within,
      integerSize_eq_ok, Except.ok.injEq, Prod.mk.injEq, exists_const]
    constructor
    · rintro ⟨⟨hcount, hdepth⟩, _, ⟨hsafe, rfl⟩, rfl, rfl⟩
      exact ⟨⟨rfl, rfl⟩, hcount, hdepth, hsafe⟩
    · rintro ⟨⟨rfl, rfl⟩, hcount, hdepth, hsafe⟩
      exact ⟨⟨hcount, hdepth⟩, _, ⟨hsafe, rfl⟩, rfl, rfl⟩
  | text s =>
    simp only [preflightValue, bind_eq_ok, preflightItem_eq_ok, Value.items, Within,
      TypeScript.encodedSize, guard_eq_ok, Except.ok.injEq, Prod.mk.injEq, exists_const]
    omega
  | bytes b =>
    simp only [preflightValue, bind_eq_ok, preflightItem_eq_ok, Value.items, Within,
      TypeScript.encodedSize, guard_eq_ok, Except.ok.injEq, Prod.mk.injEq, exists_const]
    omega
  | array values =>
    simp only [preflightValue, bind_eq_ok, preflightItem_eq_ok, Value.items, Within,
      TypeScript.encodedSize, guard_eq_ok, exists_const]
    constructor
    · rintro ⟨⟨hcount, hdepth⟩, hlength, hvalues⟩
      obtain ⟨⟨hsize, hn⟩, hle, hall⟩ := (preflightArray_eq_ok values hcount).1 hvalues
      exact ⟨⟨hsize, by omega⟩, hle, hdepth, by omega, hall⟩
    · rintro ⟨⟨hsize, hn⟩, hle, hdepth, hlength, hall⟩
      have hcount : ((count + 1 : Nat) : Int) ≤ limits.maximumItems := by omega
      refine ⟨⟨hcount, hdepth⟩, by omega, ?_⟩
      exact (preflightArray_eq_ok values hcount).2 ⟨⟨hsize, by omega⟩, hle, hall⟩
  | map entries =>
    simp only [preflightValue, bind_eq_ok, preflightItem_eq_ok, Value.items, Within,
      TypeScript.encodedSize, guard_eq_ok, exists_const]
    constructor
    · rintro ⟨⟨hcount, hdepth⟩, hlength, hentries⟩
      obtain ⟨⟨hsize, hn⟩, hle, hall⟩ := (preflightMap_eq_ok entries hcount).1 hentries
      exact ⟨⟨hsize, by omega⟩, hle, hdepth, by omega, hall⟩
    · rintro ⟨⟨hsize, hn⟩, hle, hdepth, hlength, hall⟩
      have hcount : ((count + 1 : Nat) : Int) ≤ limits.maximumItems := by omega
      refine ⟨⟨hcount, hdepth⟩, by omega, ?_⟩
      exact (preflightMap_eq_ok entries hcount).2 ⟨⟨hsize, by omega⟩, hle, hall⟩
  | tag t v => simp [preflightValue, Within]

theorem Go.preflightArray_eq_ok {depth count total size n : Nat} (values : List Value)
    (hcount : count ≤ limits.maximumItems) :
    preflightArray limits depth count total values = .ok (size, n) ↔
      (size = total + TypeScript.encodedSizes values ∧ n = count + itemsSum values) ∧
        n ≤ limits.maximumItems ∧ WithinAll limits (depth + 1) values := by
  cases values with
  | nil =>
    simp only [preflightArray, itemsSum, WithinAll, TypeScript.encodedSizes, Except.ok.injEq,
      Prod.mk.injEq, and_true]
    omega
  | cons v values =>
    simp only [preflightArray, bind_eq_ok, Prod.exists, preflightValue_eq_ok v, itemsSum,
      WithinAll, TypeScript.encodedSizes]
    constructor
    · rintro ⟨_, m, ⟨⟨rfl, rfl⟩, hm, hv⟩, hvalues⟩
      obtain ⟨⟨hsize, hn⟩, hle, hall⟩ := (preflightArray_eq_ok values hm).1 hvalues
      exact ⟨⟨by omega, by omega⟩, hle, hv, hall⟩
    · rintro ⟨⟨hsize, hn⟩, hle, hv, hall⟩
      have hm : ((count + v.items : Nat) : Int) ≤ limits.maximumItems := by omega
      refine ⟨_, count + v.items, ⟨⟨rfl, rfl⟩, hm, hv⟩, ?_⟩
      exact (preflightArray_eq_ok values hm).2 ⟨⟨by omega, by omega⟩, hle, hall⟩

theorem Go.preflightMap_eq_ok {depth count total size n : Nat} (entries : List (Value × Value))
    (hcount : count ≤ limits.maximumItems) :
    preflightMap limits depth count total entries = .ok (size, n) ↔
      (size = total + TypeScript.encodedEntrySizes entries ∧ n = count + entryItems entries) ∧
        n ≤ limits.maximumItems ∧ WithinEntries limits (depth + 1) entries := by
  cases entries with
  | nil =>
    simp only [preflightMap, entryItems, WithinEntries, TypeScript.encodedEntrySizes,
      Except.ok.injEq, Prod.mk.injEq, and_true]
    omega
  | cons e entries =>
    obtain ⟨k, v⟩ := e
    by_cases hkey : k.isKey false = true
    · simp only [preflightMap, guard_eq_ok, bind_eq_ok, Prod.exists, preflightValue_eq_ok k,
        preflightValue_eq_ok v, entryItems, WithinEntries, TypeScript.encodedEntrySizes,
        Bool.not_eq_false, hkey, true_and]
      obtain ⟨t, rfl⟩ := isKey_iff.1 hkey
      have htext : (Value.text t).keyText = t := rfl
      simp only [Within, Value.items, TypeScript.encodedSize, htext]
      constructor
      · rintro ⟨_, _, ⟨⟨rfl, rfl⟩, _, hdepth, hlength⟩, _, m, ⟨⟨rfl, rfl⟩, hm, hv⟩, hentries⟩
        obtain ⟨⟨hsize, hn⟩, hle, hall⟩ := (preflightMap_eq_ok entries hm).1 hentries
        exact ⟨⟨by omega, by omega⟩, hle, hlength, hv, hall⟩
      · rintro ⟨⟨hsize, hn⟩, hle, hlength, hv, hall⟩
        have hdepth := hv.depth_le
        have hm : ((count + 1 + v.items : Nat) : Int) ≤ limits.maximumItems := by omega
        refine ⟨_, _, ⟨⟨rfl, rfl⟩, by omega, hdepth, hlength⟩, _, _, ⟨⟨rfl, rfl⟩, hm, hv⟩, ?_⟩
        exact (preflightMap_eq_ok entries hm).2 ⟨⟨by omega, by omega⟩, hle, hall⟩
    · simp only [Bool.not_eq_true] at hkey
      simp only [preflightMap, hkey, if_true, reduceCtorEq, WithinEntries, Bool.false_eq_true,
        false_and, and_false]

end

/-- A value passes before it is encoded exactly when it is within all seven limits. -/
theorem Go.preflight_eq_ok {v : Value} {size : Nat} :
    preflight v limits = .ok size ↔
      size = TypeScript.encodedSize v ∧ TypeScript.assertHailValue v limits = .ok () := by
  simp only [preflight, bind_eq_ok, Prod.exists, preflightValue_eq_ok, guard_eq_ok,
    Except.ok.injEq, TypeScript.assertHailValue_eq_ok, Nat.zero_add, not_lt]
  constructor
  · rintro ⟨_, _, ⟨⟨rfl, rfl⟩, hitems, hwithin⟩, hsize, rfl⟩
    exact ⟨rfl, hitems, hwithin, hsize⟩
  · rintro ⟨rfl, hitems, hwithin, hsize⟩
    exact ⟨_, _, ⟨⟨rfl, rfl⟩, hitems, hwithin⟩, hsize, rfl⟩

/-- The walk over a plain value counts what the scan of its encoding counts. -/
theorem TypeScript.checkValue_iff_scan {v : Value} {path : String} {n : Nat} (hv : Plain v)
    (hsize : v.encoding.length ≤ maxSafe) :
    checkValue limits path 0 0 v = .ok n ↔
      scan limits [] (limits.maximumDepth + 1).toNat ⟨v.encoding, 0⟩ = .ok ⟨[], n⟩ := by
  rw [checkValue_eq_ok, ((scanner []).scans hv hsize).whole, Nat.zero_add]
  simp only [Scan.mk.injEq, true_and]
  constructor
  · rintro ⟨rfl, hitems, hwithin⟩
    exact ⟨rfl, hitems, hwithin⟩
  · rintro ⟨rfl, hitems, hwithin⟩
    exact ⟨rfl, hitems, hwithin⟩

/-- A value passes before it is encoded exactly when its encoding passes before it is decoded, its
size is computed correctly, and the other language computes the same, whatever the order in which
it visits the entries of maps. -/
theorem preflight_agreement {v w : Value} (hv : Plain v) (hw : Plain w)
    (hsame : w.sorted = v.sorted) (hsize : v.encoding.length ≤ maxSafe) :
    TypeScript.encodedSize v = v.encoding.length ∧
      (TypeScript.assertHailValue v limits = .ok () ↔
        TypeScript.assertCborResourceLimits v.encoding limits [] = .ok ()) ∧
      (∀ size count, Go.preflightValue limits 0 0 w = .ok (size, count) ↔
        size = TypeScript.encodedSize v ∧ TypeScript.checkValue limits "$" 0 0 v = .ok count) ∧
      ∀ size, Go.preflight w limits = .ok size ↔
        size = TypeScript.encodedSize v ∧ TypeScript.assertHailValue v limits = .ok () := by
  have hencoding : w.encoding = v.encoding := by
    rw [← hw.encoding_sorted, hsame, hv.encoding_sorted]
  have hlength : TypeScript.encodedSize w = TypeScript.encodedSize v := by
    rw [TypeScript.encodedSize_eq_length hw, TypeScript.encodedSize_eq_length hv, hencoding]
  have hsize' : w.encoding.length ≤ maxSafe := hencoding ▸ hsize
  have hcheck (path : String) (n : Nat) : TypeScript.checkValue limits path 0 0 w = .ok n ↔
      TypeScript.checkValue limits path 0 0 v = .ok n := by
    rw [TypeScript.checkValue_iff_scan hw hsize', TypeScript.checkValue_iff_scan hv hsize, hencoding]
  have hassert {u : Value} (hu : Plain u) (hsize : u.encoding.length ≤ maxSafe) :
      TypeScript.assertHailValue u limits = .ok () ↔
        TypeScript.assertCborResourceLimits u.encoding limits [] = .ok () := by
    rw [TypeScript.assertHailValue_eq_ok, TypeScript.assertCborResourceLimits_eq_ok hu hsize,
      TypeScript.encodedSize_eq_length hu]
  refine ⟨TypeScript.encodedSize_eq_length hv, hassert hv hsize, fun size count => ?_,
    fun size => ?_⟩
  · rw [← hcheck, TypeScript.checkValue_eq_ok, Go.preflightValue_eq_ok, hlength, and_assoc]
  · rw [Go.preflight_eq_ok, hlength, hassert hw hsize', hassert hv hsize, hencoding]

theorem preflight_agreement_two_keys :
    let limits : ResourceLimits := ⟨16, 1, 5, 0, 2, 1, 0⟩
    let v : Value := .map [(.text "b", .int (-1)), (.text "a", .null)]
    let w : Value := .map [(.text "a", .null), (.text "b", .int (-1))]
    TypeScript.encodedSize v = v.encoding.length ∧
      (TypeScript.assertHailValue v limits = .ok () ↔
        TypeScript.assertCborResourceLimits v.encoding limits [] = .ok ()) ∧
      (∀ size count, Go.preflightValue limits 0 0 w = .ok (size, count) ↔
        size = TypeScript.encodedSize v ∧ TypeScript.checkValue limits "$" 0 0 v = .ok count) ∧
      ∀ size, Go.preflight w limits = .ok size ↔
        size = TypeScript.encodedSize v ∧ TypeScript.assertHailValue v limits = .ok () := by
  have hplain {k : String} {v : Value} {l : String} {w : Value} (hkl : k ≠ l) (hv : Plain v)
      (hw : Plain w) : Plain (.map [(.text k, v), (.text l, w)]) := by
    refine .map _ (by simp [Cbor.Value.isKey]) (by simp [hkl]) ?_
    simp only [List.mem_cons, List.not_mem_nil, or_false, forall_eq_or_imp, forall_eq]
    exact ⟨hv, hw⟩
  refine preflight_agreement (hplain (by decide) (.int (-1) (by decide)) .null)
    (hplain (by decide) .null (.int (-1) (by decide))) ?_ (by decide)
  rfl

end Check

end HailProto.Codec
