import HailProto.Cbor.Writer

/-!
# The deterministic form of a value

The purpose of the codec, stated without buffers, offsets or counters: `Value.encoding`
is the RFC 8949 deterministic encoding with shortest heads, definite lengths and entries
in bytewise order of their encoded keys; `Value.sorted` reorders the entries of every map
accordingly; `Value.items` counts the items of a tree. `Shaped` collects what the reader
and the writer ask of a value at a bounded number of levels, up to the three points in
which they differ.
-/

namespace HailProto.Cbor

mutual

/-- The deterministic encoding of a value. -/
def Value.encoding : Value → List UInt8
  | .null => [0xf6]
  | .bool b => [if b then 0xf5 else 0xf4]
  | .int n => head (if n < 0 then 1 else 0) (if n < 0 then (-1 - n).toNat else n.toNat)
  | .text s => head 3 (asBytes s).length ++ asBytes s
  | .bytes b => head 2 b.length ++ b
  | .array values => head 4 values.length ++ (encodings values).flatten
  | .map entries =>
    head 5 entries.length ++ (((encodingPairs entries).insertionSort
      (fun a b => a.1 ≤ b.1)).map fun e => e.1 ++ e.2).flatten
  | .tag tag value => head 6 tag.toNat ++ value.encoding

def encodings : List Value → List (List UInt8)
  | [] => []
  | v :: values => v.encoding :: encodings values

def encodingPairs : List (Value × Value) → List (List UInt8 × List UInt8)
  | [] => []
  | (k, v) :: entries => (k.encoding, v.encoding) :: encodingPairs entries

end

/-- Entries in the bytewise order of their encoded keys. -/
def sortEntries (entries : List (Value × Value)) : List (Value × Value) :=
  entries.insertionSort (fun a b => a.1.encoding ≤ b.1.encoding)

mutual

/-- The number of items of a value, keys included. -/
def Value.items : Value → Nat
  | .array values => itemsSum values + 1
  | .map entries => entryItems entries + 1
  | .tag _ value => value.items + 1
  | _ => 1

def itemsSum : List Value → Nat
  | [] => 0
  | v :: values => v.items + itemsSum values

def entryItems : List (Value × Value) → Nat
  | [] => 0
  | (k, v) :: entries => k.items + v.items + entryItems entries

end

mutual

/-- The value with the entries of every map, at every depth, sorted by encoded key. -/
def Value.sorted : Value → Value
  | .array values => .array (sortedAll values)
  | .map entries => .map (sortEntries (sortedPairs entries))
  | .tag tag value => .tag tag value.sorted
  | v => v

def sortedAll : List Value → List Value
  | [] => []
  | v :: values => v.sorted :: sortedAll values

def sortedPairs : List (Value × Value) → List (Value × Value)
  | [] => []
  | (k, v) :: entries => (k.sorted, v.sorted) :: sortedPairs entries

end

section Equations

attribute [local simp] Value.encoding encodings encodingPairs
attribute [local simp] Value.items itemsSum entryItems
attribute [local simp] Value.sorted sortedAll sortedPairs

theorem encodings_eq_map (values : List Value) : encodings values = values.map Value.encoding := by
  induction values with
  | nil => rfl
  | cons v values ih => simp [ih]

theorem encodingPairs_eq_map (entries : List (Value × Value)) :
    encodingPairs entries = entries.map fun e => (e.1.encoding, e.2.encoding) := by
  induction entries with
  | nil => rfl
  | cons e entries ih =>
    obtain ⟨k, v⟩ := e
    simp [ih]

theorem itemsSum_eq_sum (values : List Value) : itemsSum values = (values.map Value.items).sum := by
  induction values with
  | nil => rfl
  | cons v values ih => simp [ih]

theorem entryItems_eq_sum (entries : List (Value × Value)) :
    entryItems entries = (entries.map fun e => e.1.items + e.2.items).sum := by
  induction entries with
  | nil => rfl
  | cons e entries ih =>
    obtain ⟨k, v⟩ := e
    simp [ih]

theorem sortedAll_eq_map (values : List Value) : sortedAll values = values.map Value.sorted := by
  induction values with
  | nil => rfl
  | cons v values ih => simp [ih]

theorem sortedPairs_eq_map (entries : List (Value × Value)) :
    sortedPairs entries = entries.map (Prod.map Value.sorted Value.sorted) := by
  induction entries with
  | nil => rfl
  | cons e entries ih =>
    obtain ⟨k, v⟩ := e
    simp [ih]

end Equations

/-- One entry as it stands in the encoding of its map. -/
def entryEncoding (e : Value × Value) : List UInt8 := e.1.encoding ++ e.2.encoding

@[simp] theorem encoding_array (values : List Value) :
    (Value.array values).encoding =
      head 4 values.length ++ (values.map Value.encoding).flatten := by
  rw [Value.encoding, encodings_eq_map]

@[simp] theorem encoding_map (entries : List (Value × Value)) :
    (Value.map entries).encoding =
      head 5 entries.length ++ ((sortEntries entries).map entryEncoding).flatten := by
  rw [Value.encoding, encodingPairs_eq_map, sortEntries,
    ← List.map_insertionSort (r := fun a b : Value × Value => a.1.encoding ≤ b.1.encoding)
      (s := fun a b : List UInt8 × List UInt8 => a.1 ≤ b.1) _ entries
      (fun _ _ _ _ => Iff.rfl), List.map_map]
  rfl

@[simp] theorem items_array (values : List Value) :
    (Value.array values).items = (values.map Value.items).sum + 1 := by
  rw [Value.items, itemsSum_eq_sum]

@[simp] theorem items_map (entries : List (Value × Value)) :
    (Value.map entries).items = (entries.map fun e => e.1.items + e.2.items).sum + 1 := by
  rw [Value.items, entryItems_eq_sum]

@[simp] theorem items_tag (tag : UInt64) (value : Value) :
    (Value.tag tag value).items = value.items + 1 := by
  rw [Value.items]

theorem items_pos (v : Value) : 0 < v.items := by
  cases v <;> simp [Value.items]

@[simp] theorem sorted_array (values : List Value) :
    (Value.array values).sorted = .array (values.map Value.sorted) := by
  rw [Value.sorted, sortedAll_eq_map]

@[simp] theorem sorted_map (entries : List (Value × Value)) :
    (Value.map entries).sorted =
      .map (sortEntries (entries.map (Prod.map Value.sorted Value.sorted))) := by
  rw [Value.sorted, sortedPairs_eq_map]

@[simp] theorem sorted_tag (tag : UInt64) (value : Value) :
    (Value.tag tag value).sorted = .tag tag value.sorted := by
  rw [Value.sorted]

/-- The points in which the reader and the writer differ: how the encoded keys of a map
must relate, which tags are admitted, and how long an item may be. -/
structure Discipline where
  keys : List (List UInt8) → Prop
  tag : UInt64 → Prop
  length : Nat → Prop

/-- The reader wants strictly ascending keys, safe lengths, and tag 18 only on request. -/
def reading (tag18 : Bool) : Discipline where
  keys := List.Pairwise (· < ·)
  tag t := tag18 = true ∧ t = 18
  length n := n ≤ maxSafe

/-- The writer wants distinct keys, and leaves the rest to the decoder it runs last. -/
def writing : Discipline where
  keys := List.Nodup
  tag _ := True
  length _ := True

/-- A value within its limits, at most `levels` levels deep. -/
def Shaped (limits : Limits) (d : Discipline) : Nat → Value → Prop
  | 0, _ => False
  | _ + 1, .null => True
  | _ + 1, .bool _ => True
  | _ + 1, .int n => -(maxSafe : Int) ≤ n ∧ n ≤ maxSafe
  | _ + 1, .text s => (asBytes s).length ≤ limits.text.toNat ∧ d.length (asBytes s).length
  | _ + 1, .bytes b => b.length ≤ limits.string.toNat ∧ d.length b.length
  | levels + 1, .array values =>
    values.length ≤ limits.array.toNat ∧ d.length values.length ∧
      ∀ v ∈ values, Shaped limits d levels v
  | levels + 1, .map entries =>
    entries.length ≤ limits.map.toNat ∧ d.length entries.length ∧
      d.keys (entries.map fun e => e.1.encoding) ∧
      ∀ e ∈ entries, e.1.isKey limits.cose = true ∧ Shaped limits d levels e.1 ∧
        Shaped limits d levels e.2
  | levels + 1, .tag tag value => d.tag tag ∧ Shaped limits d levels value

/-- What the reader admits, the writer admits. -/
theorem Shaped.writing {limits : Limits} {tag18 : Bool} {levels : Nat} {v : Value}
    (h : Shaped limits (reading tag18) levels v) : Shaped limits Cbor.writing levels v := by
  induction levels generalizing v with
  | zero => exact h.elim
  | succ levels ih =>
    cases v with
    | null | bool b | int n => exact h
    | text s | bytes b => exact ⟨h.1, trivial⟩
    | array values => exact ⟨h.1, trivial, fun v hv => ih (h.2.2 v hv)⟩
    | map entries =>
      obtain ⟨hlen, _, hkeys, hall⟩ := h
      refine ⟨hlen, trivial, hkeys.imp fun hlt => hlt.ne, fun e he => ?_⟩
      exact ⟨(hall e he).1, ih (hall e he).2.1, ih (hall e he).2.2⟩
    | tag tag value => exact ⟨trivial, ih h.2⟩

/-- Entries with ascending keys are already in order. -/
theorem sortEntries_of_ascending {entries : List (Value × Value)}
    (h : (entries.map fun e => e.1.encoding).Pairwise (· < ·)) : sortEntries entries = entries :=
  List.Pairwise.insertionSort_eq ((List.pairwise_map.mp h).imp le_of_lt)

theorem sortEntries_perm (entries : List (Value × Value)) : (sortEntries entries).Perm entries :=
  List.perm_insertionSort _ entries

end HailProto.Cbor
