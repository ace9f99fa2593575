import HailProto.Cbor.Reader

/-!
# The canonical writer

`encode` of `codec/cbor.rs`. Maps are written in the order of their encoded keys: every
key is first written to a buffer of its own, then the pairs are sorted, and duplicates
are refused. The finished bytes are read back by the same bounded decoder.
-/

namespace HailProto.Cbor

/-- The shortest head of an item with this major type and argument. -/
def head (major : UInt8) (n : Nat) : List UInt8 :=
  if n ≤ 23 then [major <<< 5 ||| UInt8.ofNat n]
  else if n ≤ 255 then [major <<< 5 ||| 24, UInt8.ofNat n]
  else if n ≤ 65535 then (major <<< 5 ||| 25) :: beBytes 2 n
  else if n ≤ 4294967295 then (major <<< 5 ||| 26) :: beBytes 4 n
  else (major <<< 5 ||| 27) :: beBytes 8 n

/-- The output buffer and the item counter. -/
structure Output where
  out : List UInt8
  items : Nat

def Output.push (o : Output) (bytes : List UInt8) : Output := { o with out := o.out ++ bytes }

/-- The key loop of a map: each key is written to a fresh buffer of its own. -/
def writeKeys (cose : Bool) (write : Value → Output → Except Error Output) :
    List (Value × Value) → Nat → Except Error (List (List UInt8 × Value) × Nat)
  | [], items => .ok ([], items)
  | (key, value) :: m, items =>
    if ¬key.isKey cose then .error invalid
    else do
      let encoded ← write key ⟨[], items⟩
      let (entries, items) ← writeKeys cose write m encoded.items
      .ok ((encoded.out, value) :: entries, items)

/-- Two neighbouring entries of the sorted list have one key. -/
def hasDuplicate : List (List UInt8 × Value) → Bool
  | a :: b :: entries => a.1 == b.1 || hasDuplicate (b :: entries)
  | _ => false

/-- The value loop of an array. -/
def writeValues (write : Value → Output → Except Error Output) :
    List Value → Output → Except Error Output
  | [], o => .ok o
  | v :: a, o => do
    let o ← write v o
    writeValues write a o

/-- The entry loop of a map, over its sorted entries. -/
def writeEntries (write : Value → Output → Except Error Output) :
    List (List UInt8 × Value) → Output → Except Error Output
  | [], o => .ok o
  | (key, value) :: entries, o => do
    let o ← write value (o.push key)
    writeEntries write entries o

/-- Append one item by its kind, given the writer of the items inside it. -/
def writeContent (limits : Limits) (element : Value → Output → Except Error Output) :
    Value → Output → Except Error Output
  | .null, o => .ok (o.push [0xf6])
  | .bool b, o => .ok (o.push [if b then 0xf5 else 0xf4])
  | .int n, o =>
    if ¬(-(maxSafe : Int) ≤ n ∧ n ≤ maxSafe) then .error invalid
    else .ok (o.push (head (if n < 0 then 1 else 0)
      (if n < 0 then (-1 - n).toNat else n.toNat)))
  | .text s, o =>
    if (asBytes s).length > limits.text.toNat then .error invalid
    else .ok ((o.push (head 3 (asBytes s).length)).push (asBytes s))
  | .bytes b, o =>
    if b.length > limits.string.toNat then .error invalid
    else .ok ((o.push (head 2 b.length)).push b)
  | .array a, o =>
    if a.length > limits.array.toNat then .error invalid
    else writeValues element a (o.push (head 4 a.length))
  | .map m, o =>
    if m.length > limits.map.toNat then .error invalid
    else do
      let (entries, items) ← writeKeys limits.cose element m o.items
      let entries := entries.insertionSort (fun a b => a.1 ≤ b.1)
      if hasDuplicate entries then .error invalid
      else writeEntries element entries (Output.push ⟨o.out, items⟩ (head 5 entries.length))
  | .tag t v, o => element v (o.push (head 6 t.toNat))

/-- Write one item. The first argument is the number of levels the depth limit leaves. -/
def write (limits : Limits) : Nat → Nat → Value → Output → Except Error Output
  | 0, _, _, _ => .error invalid
  | levels + 1, depth, value, o =>
    let o := { o with items := o.items + 1 }
    if depth > limits.depth.toNat ∨ o.items > limits.items.toNat ∨
        o.out.length > limits.bytes.toNat then .error invalid
    else do
      let o ← writeContent limits (write limits levels (depth + 1)) value o
      if o.out.length > limits.bytes.toNat then .error invalid else .ok o

/-- Encode a value, and require that the decoder admits the result. -/
def encode (value : Value) (limits : Limits) (tag18 : Bool) : Except Error (List UInt8) := do
  let o ← write limits (limits.depth.toNat + 1) 0 value ⟨[], 0⟩
  let _ ← decode o.out limits tag18
  .ok o.out

end HailProto.Cbor
