import HailProto.Codec.Fields
import HailProto.Cbor.Canonical

/-!
# Values a payload may hold

`checkValue`, `encodedSize` and `assertHailValue` of `cbor.ts`. The check walks the value with
one counter that every item and every key advances, and it refuses at the first item past a
limit. Since the counter only grows, a walk succeeds exactly when the whole value has few enough
items and each of its parts is `Within` the other limits.
-/

namespace HailProto.Codec

open Cbor (Value Value.items itemsSum entryItems maxSafe asBytes)

/-- `HailResourceLimits`. -/
structure ResourceLimits where
  maximumBytes : Int
  maximumDepth : Int
  maximumItems : Int
  maximumArrayLength : Int
  maximumMapEntries : Int
  maximumTextBytes : Int
  maximumByteStringLength : Int

/-- `DEFAULT_HAIL_RESOURCE_LIMITS`. -/
def defaultResourceLimits : ResourceLimits where
  maximumBytes := 1048576
  maximumDepth := 32
  maximumItems := 16384
  maximumArrayLength := 4096
  maximumMapEntries := 256
  maximumTextBytes := 1048576
  maximumByteStringLength := 1048576

namespace TypeScript

def argumentSize (value : Nat) : Nat :=
  if value < 24 then 1
  else if value ≤ 0xff then 2
  else if value ≤ 0xffff then 3
  else if value ≤ 0xffffffff then 5
  else 9

mutual

/-- The number of bytes of the encoding; a tag is no value of this language. -/
def encodedSize : Value → Nat
  | .null => 1
  | .bool _ => 1
  | .int n => argumentSize (if 0 ≤ n then n else -1 - n).toNat
  | .text s => argumentSize (asBytes s).length + (asBytes s).length
  | .bytes b => argumentSize b.length + b.length
  | .array values => argumentSize values.length + encodedSizes values
  | .map entries => argumentSize entries.length + encodedEntrySizes entries
  | .tag _ _ => 0

def encodedSizes : List Value → Nat
  | [] => 0
  | v :: values => encodedSize v + encodedSizes values

def encodedEntrySizes : List (Value × Value) → Nat
  | [] => 0
  | (k, v) :: entries =>
    argumentSize (asBytes k.keyText).length + (asBytes k.keyText).length + encodedSize v +
      encodedEntrySizes entries

end

/-- The counter passes this item, at this depth. -/
def checkItem (limits : ResourceLimits) (path : String) (depth count : Nat) :
    Except HailCodecError Unit :=
  if count > limits.maximumItems then .error ⟨"resource-limit", "too many values", path⟩
  else if depth > limits.maximumDepth then
    .error ⟨"resource-limit", "maximum nesting depth exceeded", path⟩
  else .ok ()

mutual

/-- The walk over one value, from a counter to the counter after it. -/
def checkValue (limits : ResourceLimits) (path : String) (depth count : Nat) :
    Value → Except HailCodecError Nat
  | .null => do
      checkItem limits path depth (count + 1)
      .ok (count + 1)
  | .bool _ => do
      checkItem limits path depth (count + 1)
      .ok (count + 1)
  | .int n => do
      checkItem limits path depth (count + 1)
      if n.natAbs > maxSafe then
        .error ⟨"invalid-value", "numbers must be safe, non-negative-zero integers", path⟩
      else .ok (count + 1)
  | .text s => do
      checkItem limits path depth (count + 1)
      if (asBytes s).length > limits.maximumTextBytes then
        .error ⟨"resource-limit", "text string is too large", path⟩
      else .ok (count + 1)
  | .bytes b => do
      checkItem limits path depth (count + 1)
      if b.length > limits.maximumByteStringLength then
        .error ⟨"resource-limit", "byte string is too large", path⟩
      else .ok (count + 1)
  | .array values => do
      checkItem limits path depth (count + 1)
      if values.length > limits.maximumArrayLength then
        .error ⟨"resource-limit", "array is too large", path⟩
      else checkValues limits path depth (count + 1) 0 values
  | .map entries => do
      checkItem limits path depth (count + 1)
      if entries.length > limits.maximumMapEntries then
        .error ⟨"resource-limit", "map has too many entries", path⟩
      else checkEntries limits path depth (count + 1) entries
  | .tag _ _ => do
      checkItem limits path depth (count + 1)
      .error ⟨"invalid-value", "unsupported Hail value", path⟩

/-- The elements of an array, from this index on. -/
def checkValues (limits : ResourceLimits) (path : String) (depth count index : Nat) :
    List Value → Except HailCodecError Nat
  | [] => .ok count
  | v :: values => do
      let count ← checkValue limits (path ++ "[" ++ toString index ++ "]") (depth + 1) count v
      checkValues limits path depth count (index + 1) values

/-- The members of a map; every key counts as an item. -/
def checkEntries (limits : ResourceLimits) (path : String) (depth count : Nat) :
    List (Value × Value) → Except HailCodecError Nat
  | [] => .ok count
  | (k, v) :: entries =>
    if count + 1 > limits.maximumItems then
      .error ⟨"resource-limit", "too many values", path⟩
    else if k.isKey false = false then
      .error ⟨"invalid-value", "map keys must be text", path⟩
    else if (asBytes k.keyText).length > limits.maximumTextBytes then
      .error ⟨"resource-limit", "map key is invalid or too large", path ++ "." ++ k.keyText⟩
    else do
      let count ← checkValue limits (path ++ "." ++ k.keyText) (depth + 1) (count + 1) v
      checkEntries limits path depth count entries

end

def assertHailValue (value : Value) (limits : ResourceLimits) : Except HailCodecError Unit := do
  let _ ← checkValue limits "$" 0 0 value
  if encodedSize value > limits.maximumBytes then
    .error ⟨"resource-limit", "encoded value is too large", "$"⟩
  else .ok ()

end TypeScript

mutual

/-- The value stays within every limit but the number of items and of bytes. -/
def Within (limits : ResourceLimits) (depth : Nat) : Value → Prop
  | .null => depth ≤ limits.maximumDepth
  | .bool _ => depth ≤ limits.maximumDepth
  | .int n => depth ≤ limits.maximumDepth ∧ n.natAbs ≤ maxSafe
  | .text s => depth ≤ limits.maximumDepth ∧ (asBytes s).length ≤ limits.maximumTextBytes
  | .bytes b => depth ≤ limits.maximumDepth ∧ b.length ≤ limits.maximumByteStringLength
  | .array values =>
    depth ≤ limits.maximumDepth ∧ values.length ≤ limits.maximumArrayLength ∧
      WithinAll limits (depth + 1) values
  | .map entries =>
    depth ≤ limits.maximumDepth ∧ entries.length ≤ limits.maximumMapEntries ∧
      WithinEntries limits (depth + 1) entries
  | .tag _ _ => False

def WithinAll (limits : ResourceLimits) (depth : Nat) : List Value → Prop
  | [] => True
  | v :: values => Within limits depth v ∧ WithinAll limits depth values

def WithinEntries (limits : ResourceLimits) (depth : Nat) : List (Value × Value) → Prop
  | [] => True
  | (k, v) :: entries =>
    k.isKey false = true ∧ (asBytes k.keyText).length ≤ limits.maximumTextBytes ∧
      Within limits depth v ∧ WithinEntries limits depth entries

end

section Check

variable {limits : ResourceLimits}

theorem Value.items_of_isKey {k : Value} (h : k.isKey false = true) : k.items = 1 := by
  cases k <;> simp_all [Cbor.Value.isKey, Cbor.Value.items]

theorem TypeScript.checkItem_eq_ok {path : String} {depth count : Nat} {u : Unit} :
    checkItem limits path depth count = .ok u ↔
      count ≤ limits.maximumItems ∧ depth ≤ limits.maximumDepth := by
  unfold checkItem
  split
  · simp only [reduceCtorEq, false_iff]
    omega
  · split
    · simp only [reduceCtorEq, false_iff]
      omega
    · simp only [true_iff]
      omega

mutual

/-- A walk succeeds exactly when the items fit and the value is within the other limits. -/
theorem TypeScript.checkValue_eq_ok {path : String} {depth count n : Nat} (v : Value) :
    checkValue limits path depth count v = .ok n ↔
      n = count + v.items ∧ n ≤ limits.maximumItems ∧ Within limits depth v := by
  cases v with
  | null =>
    simp only [checkValue, bind_eq_ok, checkItem_eq_ok, Value.items, Within, Except.ok.injEq,
      exists_const]
    omega
  | bool b =>
    simp only [checkValue, bind_eq_ok, checkItem_eq_ok, Value.items, Within, Except.ok.injEq,
      exists_const]
    omega
  | int k =>
    simp only [checkValue, bind_eq_ok, checkItem_eq_ok, Value.items, Within, guard_eq_ok,
      Except.ok.injEq, exists_const]
    omega
  | text s =>
    simp only [checkValue, bind_eq_ok, checkItem_eq_ok, Value.items, Within, guard_eq_ok,
      Except.ok.injEq, exists_const]
    omega
  | bytes b =>
    simp only [checkValue, bind_eq_ok, checkItem_eq_ok, Value.items, Within, guard_eq_ok,
      Except.ok.injEq, exists_const]
    omega
  | array values =>
    simp only [checkValue, bind_eq_ok, checkItem_eq_ok, Value.items, Within, guard_eq_ok,
      exists_const]
    constructor
    · rintro ⟨⟨hcount, hdepth⟩, hlength, hvalues⟩
      obtain ⟨hn, hle, hall⟩ := (checkValues_eq_ok values hcount).1 hvalues
      exact ⟨by omega, hle, hdepth, by omega, hall⟩
    · rintro ⟨hn, hle, hdepth, hlength, hall⟩
      have hcount : ((count + 1 : Nat) : Int) ≤ limits.maximumItems := by omega
      refine ⟨⟨hcount, hdepth⟩, by omega, ?_⟩
      exact (checkValues_eq_ok values hcount).2 ⟨by omega, hle, hall⟩
  | map entries =>
    simp only [checkValue, bind_eq_ok, checkItem_eq_ok, Value.items, Within, guard_eq_ok,
      exists_const]
    constructor
    · rintro ⟨⟨hcount, hdepth⟩, hlength, hentries⟩
      obtain ⟨hn, hle, hall⟩ := (checkEntries_eq_ok entries hcount).1 hentries
      exact ⟨by omega, hle, hdepth, by omega, hall⟩
    · rintro ⟨hn, hle, hdepth, hlength, hall⟩
      have hcount : ((count + 1 : Nat) : Int) ≤ limits.maximumItems := by omega
      refine ⟨⟨hcount, hdepth⟩, by omega, ?_⟩
      exact (checkEntries_eq_ok entries hcount).2 ⟨by omega, hle, hall⟩
  | tag t v => simp [checkValue, Within]

theorem TypeScript.checkValues_eq_ok {path : String} {depth count index n : Nat}
    (values : List Value) (hcount : count ≤ limits.maximumItems) :
    checkValues limits path depth count index values = .ok n ↔
      n = count + itemsSum values ∧ n ≤ limits.maximumItems ∧
        WithinAll limits (depth + 1) values := by
  cases values with
  | nil =>
    simp only [checkValues, itemsSum, WithinAll, Except.ok.injEq, and_true]
    omega
  | cons v values =>
    simp only [checkValues, bind_eq_ok, checkValue_eq_ok v, itemsSum, WithinAll]
    constructor
    · rintro ⟨m, ⟨rfl, hm, hv⟩, hvalues⟩
      obtain ⟨hn, hle, hall⟩ := (checkValues_eq_ok values hm).1 hvalues
      exact ⟨by omega, hle, hv, hall⟩
    · rintro ⟨hn, hle, hv, hall⟩
      have hm : ((count + v.items : Nat) : Int) ≤ limits.maximumItems := by omega
      refine ⟨count + v.items, ⟨rfl, hm, hv⟩, ?_⟩
      exact (checkValues_eq_ok values hm).2 ⟨by omega, hle, hall⟩

theorem TypeScript.checkEntries_eq_ok {path : String} {depth count n : Nat}
    (entries : List (Value × Value)) (hcount : count ≤ limits.maximumItems) :
    checkEntries limits path depth count entries = .ok n ↔
      n = count + entryItems entries ∧ n ≤ limits.maximumItems ∧
        WithinEntries limits (depth + 1) entries := by
  cases entries with
  | nil =>
    simp only [checkEntries, entryItems, WithinEntries, Except.ok.injEq, and_true]
    omega
  | cons e entries =>
    obtain ⟨k, v⟩ := e
    simp only [checkEntries, guard_eq_ok, bind_eq_ok, checkValue_eq_ok v, entryItems,
      WithinEntries, Bool.not_eq_false]
    constructor
    · rintro ⟨_, hkey, hlength, m, ⟨rfl, hm, hv⟩, hentries⟩
      have hone := Value.items_of_isKey hkey
      obtain ⟨hn, hle, hall⟩ := (checkEntries_eq_ok entries hm).1 hentries
      exact ⟨by omega, hle, hkey, by omega, hv, hall⟩
    · rintro ⟨hn, hle, hkey, hlength, hv, hall⟩
      have hone := Value.items_of_isKey hkey
      have hm : ((count + 1 + v.items : Nat) : Int) ≤ limits.maximumItems := by omega
      refine ⟨by omega, hkey, by omega, count + 1 + v.items, ⟨rfl, hm, hv⟩, ?_⟩
      exact (checkEntries_eq_ok entries hm).2 ⟨by omega, hle, hall⟩

end

/-- A value is admitted exactly when it is within all seven limits. -/
theorem TypeScript.assertHailValue_eq_ok {v : Value} {u : Unit} :
    assertHailValue v limits = .ok u ↔
      v.items ≤ limits.maximumItems ∧ Within limits 0 v ∧
        encodedSize v ≤ limits.maximumBytes := by
  simp only [assertHailValue, bind_eq_ok, checkValue_eq_ok, guard_eq_ok, Nat.zero_add, and_true,
    not_lt]
  constructor
  · rintro ⟨n, ⟨rfl, hitems, hwithin⟩, hsize⟩
    exact ⟨hitems, hwithin, hsize⟩
  · rintro ⟨hitems, hwithin, hsize⟩
    exact ⟨v.items, ⟨rfl, hitems, hwithin⟩, hsize⟩

mutual

/-- Less depth asks for less. -/
theorem Within.mono {d e : Nat} (hle : d ≤ e) (v : Value) (h : Within limits e v) :
    Within limits d v := by
  cases v with
  | null =>
    simp only [Within] at h ⊢
    omega
  | bool b =>
    simp only [Within] at h ⊢
    omega
  | int n =>
    simp only [Within] at h ⊢
    omega
  | text s =>
    simp only [Within] at h ⊢
    omega
  | bytes b =>
    simp only [Within] at h ⊢
    omega
  | array values =>
    simp only [Within] at h ⊢
    exact ⟨by omega, h.2.1, WithinAll.mono (by omega) values h.2.2⟩
  | map entries =>
    simp only [Within] at h ⊢
    exact ⟨by omega, h.2.1, WithinEntries.mono (by omega) entries h.2.2⟩
  | tag t v =>
    simp only [Within] at h

theorem WithinAll.mono {d e : Nat} (hle : d ≤ e) (values : List Value)
    (h : WithinAll limits e values) : WithinAll limits d values := by
  cases values with
  | nil => simp only [WithinAll]
  | cons v values =>
    simp only [WithinAll] at h ⊢
    exact ⟨Within.mono hle v h.1, WithinAll.mono hle values h.2⟩

theorem WithinEntries.mono {d e : Nat} (hle : d ≤ e) (entries : List (Value × Value))
    (h : WithinEntries limits e entries) : WithinEntries limits d entries := by
  cases entries with
  | nil => simp only [WithinEntries]
  | cons entry entries =>
    obtain ⟨k, v⟩ := entry
    simp only [WithinEntries] at h ⊢
    exact ⟨h.1, h.2.1, Within.mono hle v h.2.2.1, WithinEntries.mono hle entries h.2.2.2⟩

end

theorem WithinEntries.mem {depth : Nat} {entries : List (Value × Value)} {e : Value × Value}
    (h : WithinEntries limits depth entries) (he : e ∈ entries) :
    e.1.isKey false = true ∧ Within limits depth e.2 := by
  induction entries with
  | nil => cases he
  | cons entry entries ih =>
    obtain ⟨k, v⟩ := entry
    simp only [WithinEntries] at h
    obtain rfl | he := List.mem_cons.1 he
    · exact ⟨h.1, h.2.2.1⟩
    · exact ih h.2.2.2 he

theorem items_le_of_mem {entries : List (Value × Value)} {e : Value × Value}
    (he : e ∈ entries) : e.2.items ≤ entryItems entries := by
  induction entries with
  | nil => cases he
  | cons entry entries ih =>
    obtain ⟨k, v⟩ := entry
    simp only [entryItems]
    obtain rfl | he := List.mem_cons.1 he
    · dsimp only
      omega
    · have hle := ih he
      omega

theorem TypeScript.encodedSize_le_of_mem {entries : List (Value × Value)} {e : Value × Value}
    (he : e ∈ entries) : encodedSize e.2 ≤ encodedEntrySizes entries := by
  induction entries with
  | nil => cases he
  | cons entry entries ih =>
    obtain ⟨k, v⟩ := entry
    simp only [encodedEntrySizes]
    obtain rfl | he := List.mem_cons.1 he
    · dsimp only
      omega
    · have hle := ih he
      omega

theorem Record.mem_of_get {r : Record} {k : String} {v : Value} (h : r.get k = some v) :
    (Value.text k, v) ∈ r := by
  simp only [Record.get, Option.map_eq_some_iff] at h
  obtain ⟨e, he, rfl⟩ := h
  have hkey := List.find?_some he
  rw [Cbor.Value.isText_iff] at hkey
  rw [← hkey]
  exact List.mem_of_find?_eq_some he

/-- A member of an admitted map is admitted. -/
theorem TypeScript.assertHailValue_member {r : Record} {k : String} {v : Value} {u : Unit}
    (h : assertHailValue (.map r) limits = .ok u) (hv : r.get k = some v) :
    assertHailValue v limits = .ok u := by
  rw [assertHailValue_eq_ok] at h ⊢
  simp only [Value.items, Within, encodedSize] at h
  obtain ⟨hitems, ⟨_, _, hentries⟩, hsize⟩ := h
  have hmem := Record.mem_of_get hv
  have hi : v.items ≤ entryItems r := items_le_of_mem hmem
  have hs : encodedSize v ≤ encodedEntrySizes r := encodedSize_le_of_mem hmem
  have hw := (hentries.mem hmem).2
  exact ⟨by omega, Within.mono (by omega) v hw, by omega⟩

end Check

end HailProto.Codec
