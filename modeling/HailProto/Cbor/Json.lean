import HailProto.Cbor.KeyOrder

/-!
# From parsed JSON to values

`from_json` of `codec/cbor.rs`: a parsed JSON value becomes a codec value, under bounds on depth
and items of its own, and the writer must admit the result. Since the writer counts the keys too,
its bounds are the tighter ones: the conversion refuses nothing that the writer would admit,
except the numbers that stand for no integer.
-/

namespace HailProto.Cbor

/-- A JSON number: a word, a negative integer, or a finite double by its sign and magnitude. -/
inductive JsonNumber where
  | posInt (n : UInt64)
  | negInt (n : Int)
  | float (negative : Bool) (magnitude : Rat)
  deriving DecidableEq

/-- A parsed JSON value. Objects keep the order of their members. -/
inductive JsonValue where
  | null
  | bool (b : Bool)
  | number (n : JsonNumber)
  | string (s : String)
  | array (values : List JsonValue)
  | object (members : List (String × JsonValue))

/-- The integer of a number, if it has one. A word outside the signed range rounds to a double
of at least `2 ^ 63`, which the bound on doubles refuses. -/
def JsonNumber.integer : JsonNumber → Option Int
  | .posInt n => if n.toNat < 2 ^ 63 then some n.toNat else none
  | .negInt n => some n
  | .float negative magnitude =>
    if ¬(magnitude = 0 ∧ negative = true) ∧ magnitude.den = 1 ∧ magnitude ≤ maxSafe then
      some (if negative then -magnitude.num else magnitude.num)
    else none

mutual

/-- Convert one item, counting the items so far. -/
def convert (value : JsonValue) (depth items : Nat) : Except Error (Value × Nat) :=
  if depth > 32 ∨ items + 1 > 16384 then .error invalid
  else match value with
    | .null => .ok (.null, items + 1)
    | .bool b => .ok (.bool b, items + 1)
    | .number n =>
      match n.integer with
      | some n => .ok (.int n, items + 1)
      | none => .error invalid
    | .string s => .ok (.text s, items + 1)
    | .array values => do
      let (values, items) ← convertValues values (depth + 1) (items + 1)
      .ok (.array values, items)
    | .object members => do
      let (entries, items) ← convertMembers members (depth + 1) (items + 1)
      .ok (.map entries, items)

def convertValues : List JsonValue → Nat → Nat → Except Error (List Value × Nat)
  | [], _, items => .ok ([], items)
  | v :: values, depth, items => do
    let (r, items) ← convert v depth items
    let (rs, items) ← convertValues values depth items
    .ok (r :: rs, items)

def convertMembers :
    List (String × JsonValue) → Nat → Nat → Except Error (List (Value × Value) × Nat)
  | [], _, items => .ok ([], items)
  | (k, v) :: members, depth, items => do
    let (r, items) ← convert v depth items
    let (rs, items) ← convertMembers members depth items
    .ok ((.text k, r) :: rs, items)

end

def fromJson (value : JsonValue) : Except Error Value := do
  let (result, _) ← convert value 0 0
  let _ ← encode result (.payload 262144) false
  .ok result

mutual

/-- The value that a JSON value stands for. -/
def JsonValue.toValue : JsonValue → Option Value
  | .null => some .null
  | .bool b => some (.bool b)
  | .number n => n.integer.map .int
  | .string s => some (.text s)
  | .array values => (valuesOf values).map .array
  | .object members => (entriesOf members).map .map

def valuesOf : List JsonValue → Option (List Value)
  | [] => some []
  | v :: values =>
    match v.toValue, valuesOf values with
    | some r, some rs => some (r :: rs)
    | _, _ => none

def entriesOf : List (String × JsonValue) → Option (List (Value × Value))
  | [] => some []
  | (k, v) :: members =>
    match v.toValue, entriesOf members with
    | some r, some rs => some ((.text k, r) :: rs)
    | _, _ => none

end

/-- Induction over a JSON value: on every element of an array and every member of an object. -/
@[elab_as_elim]
theorem JsonValue.induct {P : JsonValue → Prop} (null : P .null) (bool : ∀ b, P (.bool b))
    (number : ∀ n, P (.number n)) (string : ∀ s, P (.string s))
    (array : ∀ values, (∀ v ∈ values, P v) → P (.array values))
    (object : ∀ members, (∀ m ∈ members, P m.2) → P (.object members)) (v : JsonValue) : P v :=
  @JsonValue.rec P (fun values => ∀ v ∈ values, P v) (fun members => ∀ m ∈ members, P m.2)
    (fun m => P m.2) null bool number string array object (by simp)
    (fun _ _ hv hvs => List.forall_mem_cons.2 ⟨hv, hvs⟩) (by simp)
    (fun _ _ hm hms => List.forall_mem_cons.2 ⟨hm, hms⟩) (fun _ _ hv => hv) v

@[simp] theorem valuesOf_cons {v : JsonValue} {values : List JsonValue} {rs : List Value} :
    valuesOf (v :: values) = some rs ↔
      ∃ r rs', v.toValue = some r ∧ valuesOf values = some rs' ∧ rs = r :: rs' := by
  rw [valuesOf]
  cases v.toValue <;> cases valuesOf values <;> simp [eq_comm]

@[simp] theorem entriesOf_cons {k : String} {v : JsonValue} {members : List (String × JsonValue)}
    {rs : List (Value × Value)} :
    entriesOf ((k, v) :: members) = some rs ↔
      ∃ r rs', v.toValue = some r ∧ entriesOf members = some rs' ∧ rs = (.text k, r) :: rs' := by
  rw [entriesOf]
  cases v.toValue <;> cases entriesOf members <;> simp [eq_comm]

@[simp] theorem toValue_array {values : List JsonValue} {r : Value} :
    (JsonValue.array values).toValue = some r ↔
      ∃ rs, valuesOf values = some rs ∧ r = .array rs := by
  rw [JsonValue.toValue, Option.map_eq_some_iff]
  simp only [eq_comm]

@[simp] theorem toValue_object {members : List (String × JsonValue)} {r : Value} :
    (JsonValue.object members).toValue = some r ↔
      ∃ rs, entriesOf members = some rs ∧ r = .map rs := by
  rw [JsonValue.toValue, Option.map_eq_some_iff]
  simp only [eq_comm]

/-- What the conversion returns is the value that the JSON stands for. -/
theorem toValue_of_convert (v : JsonValue) : ∀ {depth items : Nat} {r : Value} {n : Nat},
    convert v depth items = .ok (r, n) → v.toValue = some r := by
  induction v using JsonValue.induct with
  | null | bool b | string s =>
    intro depth items r n h
    rw [convert, guard_eq_ok] at h
    cases h.2
    rfl
  | number m =>
    intro depth items r n h
    rw [convert, guard_eq_ok] at h
    cases hm : m.integer with
    | none =>
      rw [hm] at h
      cases h.2
    | some k =>
      rw [hm] at h
      cases h.2
      rw [JsonValue.toValue, hm, Option.map_some]
  | array values ih =>
    intro depth items r n h
    have hvalues : ∀ {depth items : Nat} {rs : List Value} {n : Nat},
        convertValues values depth items = .ok (rs, n) → valuesOf values = some rs := by
      clear h
      induction values with
      | nil =>
        intro depth items rs n h
        cases h
        rfl
      | cons v values ihs =>
        intro depth items rs n h
        simp only [convertValues, bind_eq_ok, Prod.exists, Except.ok.injEq,
          Prod.mk.injEq] at h
        obtain ⟨r, m, hv, rs', m', hvs, rfl, rfl⟩ := h
        rw [List.forall_mem_cons] at ih
        exact valuesOf_cons.2 ⟨r, rs', ih.1 hv, ihs ih.2 hvs, rfl⟩
    simp only [convert, guard_eq_ok, bind_eq_ok, Prod.exists, Except.ok.injEq,
      Prod.mk.injEq] at h
    obtain ⟨_, rs, m, hrs, rfl, rfl⟩ := h
    exact toValue_array.2 ⟨rs, hvalues hrs, rfl⟩
  | object members ih =>
    intro depth items r n h
    have hmembers : ∀ {depth items : Nat} {rs : List (Value × Value)} {n : Nat},
        convertMembers members depth items = .ok (rs, n) → entriesOf members = some rs := by
      clear h
      induction members with
      | nil =>
        intro depth items rs n h
        cases h
        rfl
      | cons m members ihs =>
        intro depth items rs n h
        obtain ⟨k, v⟩ := m
        simp only [convertMembers, bind_eq_ok, Prod.exists, Except.ok.injEq,
          Prod.mk.injEq] at h
        obtain ⟨r, m, hv, rs', m', hvs, rfl, rfl⟩ := h
        rw [List.forall_mem_cons] at ih
        exact entriesOf_cons.2 ⟨r, rs', ih.1 hv, ihs ih.2 hvs, rfl⟩
    simp only [convert, guard_eq_ok, bind_eq_ok, Prod.exists, Except.ok.injEq,
      Prod.mk.injEq] at h
    obtain ⟨_, rs, m, hrs, rfl, rfl⟩ := h
    exact toValue_object.2 ⟨rs, hmembers hrs, rfl⟩

/-- The conversion admits a value with room for its items below its depth. -/
theorem convert_of_shaped {limits : Limits} {d : Discipline} (v : JsonValue) :
    ∀ {depth items levels : Nat} {r : Value}, v.toValue = some r → Shaped limits d levels r →
      depth + levels ≤ 33 → items + r.items ≤ 16384 →
      ∃ n, convert v depth items = .ok (r, n) ∧ n ≤ items + r.items := by
  induction v using JsonValue.induct with
  | null | bool b | string s =>
    intro depth items levels r hr hs hdepth hitems
    cases levels with
    | zero => exact hs.elim
    | succ levels =>
    cases hr
    simp only [Value.items] at hitems ⊢
    rw [convert, if_neg (by omega)]
    exact ⟨items + 1, rfl, le_rfl⟩
  | number m =>
    intro depth items levels r hr hs hdepth hitems
    cases levels with
    | zero => exact hs.elim
    | succ levels =>
    obtain ⟨k, hk, rfl⟩ := Option.map_eq_some_iff.1 hr
    simp only [Value.items] at hitems ⊢
    rw [convert, if_neg (by omega)]
    simp only [hk]
    exact ⟨items + 1, rfl, le_rfl⟩
  | array values ih =>
    intro depth items levels r hr hs hdepth hitems
    cases levels with
    | zero => exact hs.elim
    | succ levels =>
    obtain ⟨rs, hrs, rfl⟩ := toValue_array.1 hr
    have hvalues : ∀ {items : Nat} {rs : List Value}, valuesOf values = some rs →
        (∀ r ∈ rs, Shaped limits d levels r) → items + (rs.map Value.items).sum ≤ 16384 →
        ∃ n, convertValues values (depth + 1) items = .ok (rs, n) ∧
          n ≤ items + (rs.map Value.items).sum := by
      clear hr hrs hs hitems
      induction values with
      | nil =>
        intro items rs hrs _ _
        cases hrs
        exact ⟨items, rfl, by simp⟩
      | cons v values ihs =>
        intro items rs hrs hs hitems
        obtain ⟨r, rs', hv, hvs, rfl⟩ := valuesOf_cons.1 hrs
        rw [List.forall_mem_cons] at ih hs
        rw [List.map_cons, List.sum_cons] at hitems ⊢
        obtain ⟨n, hn, hle⟩ := ih.1 hv hs.1 (show depth + 1 + levels ≤ 33 by omega)
          (show items + r.items ≤ 16384 by omega)
        obtain ⟨n', hn', hle'⟩ := ihs ih.2 hvs hs.2
          (show n + (rs'.map Value.items).sum ≤ 16384 by omega)
        refine ⟨n', ?_, by omega⟩
        simp only [convertValues, hn, hn', ok_bind]
    rw [items_array] at hitems ⊢
    obtain ⟨n, hn, hle⟩ := hvalues hrs hs.2.2
      (show items + 1 + (rs.map Value.items).sum ≤ 16384 by omega)
    refine ⟨n, ?_, by omega⟩
    rw [convert, if_neg (by omega)]
    simp only [hn, ok_bind]
  | object members ih =>
    intro depth items levels r hr hs hdepth hitems
    cases levels with
    | zero => exact hs.elim
    | succ levels =>
    obtain ⟨rs, hrs, rfl⟩ := toValue_object.1 hr
    have hmembers : ∀ {items : Nat} {rs : List (Value × Value)}, entriesOf members = some rs →
        (∀ e ∈ rs, Shaped limits d levels e.2) →
        items + (rs.map fun e => e.1.items + e.2.items).sum ≤ 16384 →
        ∃ n, convertMembers members (depth + 1) items = .ok (rs, n) ∧
          n ≤ items + (rs.map fun e => e.1.items + e.2.items).sum := by
      clear hr hrs hs hitems
      induction members with
      | nil =>
        intro items rs hrs _ _
        cases hrs
        exact ⟨items, rfl, by simp⟩
      | cons m members ihs =>
        intro items rs hrs hs hitems
        obtain ⟨k, v⟩ := m
        obtain ⟨r, rs', hv, hvs, rfl⟩ := entriesOf_cons.1 hrs
        rw [List.forall_mem_cons] at ih hs
        rw [List.map_cons, List.sum_cons] at hitems ⊢
        dsimp only at hitems ⊢
        obtain ⟨n, hn, hle⟩ := ih.1 hv hs.1 (show depth + 1 + levels ≤ 33 by omega)
          (show items + r.items ≤ 16384 by omega)
        obtain ⟨n', hn', hle'⟩ := ihs ih.2 hvs hs.2
          (show n + (rs'.map fun e => e.1.items + e.2.items).sum ≤ 16384 by omega)
        refine ⟨n', ?_, by omega⟩
        simp only [convertMembers, hn, hn', ok_bind]
    rw [items_map] at hitems ⊢
    obtain ⟨n, hn, hle⟩ := hmembers hrs (fun e he => (hs.2.2.2 e he).2.2)
      (show items + 1 + (rs.map fun e => e.1.items + e.2.items).sum ≤ 16384 by omega)
    refine ⟨n, ?_, by omega⟩
    rw [convert, if_neg (by omega)]
    simp only [hn, ok_bind]

/-- What the writer does when it succeeds. -/
theorem encode_eq_ok {limits : Limits} {tag18 : Bool} {v : Value} {b : List UInt8} :
    encode v limits tag18 = .ok b ↔ Shaped limits writing (limits.depth.toNat + 1) v ∧
      v.items ≤ limits.items.toNat ∧ b = v.encoding ∧ ∃ w, decode b limits tag18 = .ok w := by
  have hw := write_writes limits (limits.depth.toNat + 1) 0 (by omega) v ⟨[], 0⟩
  simp only [encode, bind_eq_ok, Except.ok.injEq, hw, List.nil_append, Nat.zero_add]
  constructor
  · rintro ⟨_, ⟨hs, hitems, _, rfl⟩, w, hdec, rfl⟩
    exact ⟨hs, hitems, rfl, w, hdec⟩
  · rintro ⟨hs, hitems, rfl, w, hdec⟩
    exact ⟨_, ⟨hs, hitems, (decode_eq_ok.1 hdec).1, rfl⟩, w, hdec, rfl⟩

/-- The bounds of the conversion refuse nothing beyond what the writer refuses. -/
theorem fromJson_eq_ok {v : JsonValue} {r : Value} :
    fromJson v = .ok r ↔
      v.toValue = some r ∧ ∃ b, encode r (.payload 262144) false = .ok b := by
  simp only [fromJson, bind_eq_ok, Prod.exists, Except.ok.injEq]
  constructor
  · rintro ⟨r, n, hr, b, hb, rfl⟩
    exact ⟨toValue_of_convert v hr, b, hb⟩
  · rintro ⟨hr, b, hb⟩
    obtain ⟨hs, hitems, _⟩ := encode_eq_ok.1 hb
    have hdepth : (0 : Nat) + ((Limits.payload 262144).depth.toNat + 1) ≤ 33 := by decide
    have hroom : 0 + r.items ≤ 16384 := (Nat.zero_add _).trans_le hitems
    obtain ⟨n, hn, _⟩ := convert_of_shaped v hr hs hdepth hroom
    exact ⟨r, n, hn, b, hb, rfl⟩

end HailProto.Cbor
