import HailProto.Cbor.Value

/-!
# The bounded reader

`decode` of `codec/cbor.rs`. The parser walks the input by an offset and counts the items
it has opened. Its recursion stops at the depth limit, so the model recurses on the
number of levels that limit still admits: running out of levels is the same refusal as
exceeding the limit.
-/

namespace HailProto.Cbor

/-- The parser state. -/
structure Parser where
  bytes : List UInt8
  offset : Nat
  items : Nat
  limits : Limits
  tag18 : Bool

/-- The unread part of the input. -/
def Parser.rest (p : Parser) : List UInt8 := p.bytes.drop p.offset

/-- Read `count` bytes, or refuse when fewer remain. -/
def Parser.take (p : Parser) (count : Nat) : Except Error (List UInt8 × Parser) :=
  if p.bytes.length < p.offset + count then .error invalid
  else .ok (p.rest.take count, { p with offset := p.offset + count })

/-- The number of argument bytes that follow an initial byte. -/
def argumentBytes (info : UInt8) : Except Error Nat :=
  if info = 24 then .ok 1
  else if info = 25 then .ok 2
  else if info = 26 then .ok 4
  else if info = 27 then .ok 8
  else .error invalid

/-- The least argument that needs this many bytes. -/
def minimumArgument (count : Nat) : Nat :=
  if count = 1 then 24 else if count = 2 then 256 else if count = 4 then 65536 else 4294967296

/-- Read the argument of an item head, refusing overlong and unsafe ones. -/
def Parser.argument (p : Parser) (info : UInt8) : Except Error (Nat × Parser) :=
  if info < 24 then .ok (info.toNat, p)
  else do
    let count ← argumentBytes info
    let (raw, p) ← p.take count
    let value := raw.foldl (fun n b => n <<< 8 ||| b.toNat) 0
    if value < minimumArgument count ∨ value > maxSafe then .error invalid
    else .ok (value, p)

/-- The loop of an array: read `length` elements in order. -/
def Parser.values (element : Parser → Except Error (Value × Parser)) :
    Nat → Parser → Except Error (List Value × Parser)
  | 0, p => .ok ([], p)
  | length + 1, p => do
    let (value, p) ← element p
    let (values, p) ← Parser.values element length p
    .ok (value :: values, p)

/-- The loop of a map: read `length` entries whose raw keys strictly ascend. -/
def Parser.entries (element : Parser → Except Error (Value × Parser)) :
    Nat → Option (List UInt8) → Parser → Except Error (List (Value × Value) × Parser)
  | 0, _, p => .ok ([], p)
  | length + 1, previous, p => do
    let start := p.offset
    let (key, p) ← element p
    if ¬key.isKey p.limits.cose then .error invalid else
      -- The raw bytes of the key just read, as they stand in the input.
      let encoded := (p.bytes.drop start).take (p.offset - start)
      if previous.any (encoded ≤ ·) then .error invalid else do
        let (value, p) ← element p
        let (entries, p) ← entries element length (some encoded) p
        .ok ((key, value) :: entries, p)

/-- Read what follows the head of an item, by its major type. -/
def Parser.content (element : Parser → Except Error (Value × Parser)) (major : UInt8)
    (argument : Nat) (p : Parser) : Except Error (Value × Parser) :=
  if major = 0 then .ok (.int argument, p)
  else if major = 1 then
    if argument = maxSafe then .error invalid else .ok (.int (-1 - argument), p)
  else if major = 2 ∧ argument ≤ p.limits.string.toNat then do
    let (raw, p) ← p.take argument
    .ok (.bytes raw, p)
  else if major = 3 ∧ argument ≤ p.limits.text.toNat then do
    let (raw, p) ← p.take argument
    match fromUtf8 raw with
    | some s => .ok (.text s, p)
    | none => .error invalid
  else if major = 4 ∧ argument ≤ p.limits.array.toNat then do
    let (values, p) ← p.values element argument
    .ok (.array values, p)
  else if major = 5 ∧ argument ≤ p.limits.map.toNat then do
    let (entries, p) ← p.entries element argument none
    .ok (.map entries, p)
  else if major = 6 ∧ p.tag18 ∧ argument = 18 then do
    let (value, p) ← element p
    .ok (.tag 18 value, p)
  else .error invalid

/-- Read one item. The first argument is the number of levels the depth limit leaves. -/
def Parser.value : Nat → Nat → Parser → Except Error (Value × Parser)
  | 0, _, _ => .error invalid
  | levels + 1, depth, p =>
    let p := { p with items := p.items + 1 }
    if depth > p.limits.depth.toNat ∨ p.items > p.limits.items.toNat then .error invalid
    else do
      let (first, p) ← p.take 1
      let initial := first.headD 0
      let major := initial >>> 5
      if major = 7 then
        if initial = 0xf4 then .ok (.bool false, p)
        else if initial = 0xf5 then .ok (.bool true, p)
        else if initial = 0xf6 then .ok (.null, p)
        else .error invalid
      else do
        let (argument, p) ← p.argument (initial &&& 31)
        p.content (value levels (depth + 1)) major argument

/-- Decode one whole byte string. -/
def decode (bytes : List UInt8) (limits : Limits) (tag18 : Bool) : Except Error Value :=
  if bytes.length > limits.bytes.toNat then .error invalid
  else do
    let (value, p) ← Parser.value (limits.depth.toNat + 1) 0 ⟨bytes, 0, 0, limits, tag18⟩
    if p.offset ≠ bytes.length then .error invalid else .ok value

end HailProto.Cbor
