import HailProto.Codec.Encoding

/-!
# Scanning an encoding against the limits

`assertCborResourceLimits` of `scan.ts` and `scanCBOR` of `cbor.go`. Both walk over the heads of
an encoding without building a value, and refuse the first item past a limit. TypeScript lets
every simple value and every key through to the decoder behind it, Go does not; on the encoding of
a plain value both succeed exactly when the value is within the limits. A scan is started with the
number of levels that its depth leaves, and what is left of the bytes stands for the offset.
-/

namespace HailProto.Codec

open Cbor (Value head maxSafe asBytes fromUtf8 IsArgument argumentBytes_eq_ok exists_isArgument
  split_initial sortEntries sortEntries_perm entryEncoding)

/-- The bytes that are left, and the items counted so far. -/
structure Scan where
  rest : List UInt8
  items : Nat

/-- A step taken this many times. -/
def times {ε σ : Type} (step : σ → Except ε σ) : Nat → σ → Except ε σ
  | 0, s => .ok s
  | n + 1, s => do
      let s ← step s
      times step n s

/-- The width of the argument behind an initial byte; zero for what has none. -/
def byteCount (additional : UInt8) : Nat :=
  if additional = 24 then 1
  else if additional = 25 then 2
  else if additional = 26 then 4
  else if additional = 27 then 8
  else 0

namespace TypeScript

def resource {α : Type} (message : String) : Except HailCodecError α :=
  .error ⟨"resource-limit", message, ""⟩

def malformed {α : Type} (message : String) : Except HailCodecError α :=
  .error ⟨"malformed-cbor", message, ""⟩

def readLength (additional : UInt8) (rest : List UInt8) :
    Except HailCodecError (Nat × List UInt8) :=
  let count := byteCount additional
  if additional < 24 then .ok (additional.toNat, rest)
  else if count = 0 then
    if additional = 31 then malformed "indefinite lengths are prohibited"
    else malformed "invalid CBOR additional information"
  else if rest.length < count then malformed "truncated CBOR argument"
  else if beValue (rest.take count) > maxSafe then resource "CBOR length or argument is too large"
  else .ok (beValue (rest.take count), rest.drop count)

/-- The item behind a head with an argument, given the scan of the items inside it. -/
def scanContent (limits : ResourceLimits) (allowedTags : List Nat)
    (element : Scan → Except HailCodecError Scan) (major : UInt8) (length : Nat) (s : Scan) :
    Except HailCodecError Scan :=
  if major = 0 ∨ major = 1 then .ok s
  else if major = 2 then
    if length > limits.maximumByteStringLength then resource "byte string is too large"
    else if s.rest.length < length then malformed "truncated CBOR string"
    else .ok ⟨s.rest.drop length, s.items⟩
  else if major = 3 then
    if length > limits.maximumTextBytes then resource "text string is too large"
    else if s.rest.length < length then malformed "truncated CBOR string"
    else .ok ⟨s.rest.drop length, s.items⟩
  else if major = 4 then
    if length > limits.maximumArrayLength then resource "array is too large"
    else times element length s
  else if major = 5 then
    if length > limits.maximumMapEntries then resource "map has too many entries"
    else times (fun s => element s >>= element) length s
  else if major = 6 then
    if !allowedTags.contains length then
      malformed ("CBOR tag " ++ toString length ++ " is prohibited")
    else element s
  else malformed "unknown CBOR major type"

/-- A simple value or a float, which is only skipped. -/
def scanSimple (additional : UInt8) (s : Scan) : Except HailCodecError Scan :=
  let count := byteCount additional
  if additional < 24 then .ok s
  else if count = 0 ∨ s.rest.length < count then
    malformed "invalid or truncated CBOR simple value"
  else .ok ⟨s.rest.drop count, s.items⟩

def scan (limits : ResourceLimits) (allowedTags : List Nat) :
    Nat → Scan → Except HailCodecError Scan
  | 0, s =>
    if (s.items + 1 : Nat) > limits.maximumItems then resource "too many CBOR items"
    else resource "maximum CBOR nesting depth exceeded"
  | levels + 1, s =>
    if (s.items + 1 : Nat) > limits.maximumItems then resource "too many CBOR items"
    else
      match s.rest with
      | [] => malformed "truncated CBOR item"
      | initial :: rest =>
        if initial >>> 5 = 7 then scanSimple (initial &&& 31) ⟨rest, s.items + 1⟩
        else do
          let (length, rest) ← readLength (initial &&& 31) rest
          scanContent limits allowedTags (scan limits allowedTags levels) (initial >>> 5)
            length ⟨rest, s.items + 1⟩

def assertCborResourceLimits (bytes : List UInt8) (limits : ResourceLimits)
    (allowedTags : List Nat) : Except HailCodecError Unit :=
  if bytes.length > limits.maximumBytes then resource "encoded value is too large"
  else do
    let s ← scan limits allowedTags (limits.maximumDepth + 1).toNat ⟨bytes, 0⟩
    if s.rest ≠ [] then malformed "trailing bytes are prohibited" else .ok ()

end TypeScript

namespace Go

def readArgument (ai : UInt8) (rest : List UInt8) : Except String (Nat × List UInt8) :=
  let n := byteCount ai
  if ai < 24 then .ok (ai.toNat, rest)
  else if ai = 31 then .error "indefinite CBOR lengths prohibited"
  else if n = 0 then .error "invalid CBOR argument"
  else if rest.length < n then .error "truncated CBOR argument"
  else .ok (beValue (rest.take n), rest.drop n)

/-- One key and its value. -/
def scanEntry (requireTextMapKeys : Bool) (element : Scan → Except String Scan) (s : Scan) :
    Except String Scan :=
  if requireTextMapKeys ∧ ¬∃ b ∈ s.rest.head?, b >>> 5 = 3 then .error "map keys must be text"
  else element s >>= element

/-- The item behind a head with an argument, given the scan of the items inside it. -/
def scanContent (limits : ResourceLimits) (allowTag requireTextMapKeys : Bool)
    (element : Scan → Except String Scan) (major : UInt8) (arg : Nat) (s : Scan) :
    Except String Scan :=
  if major = 0 ∨ major = 1 then
    if arg > maxSafe then .error "integer outside Hail safe range" else .ok s
  else if major = 2 then
    if arg > limits.maximumByteStringLength then .error "resource limit: CBOR string too large"
    else if arg > s.rest.length then .error "truncated CBOR string"
    else .ok ⟨s.rest.drop arg, s.items⟩
  else if major = 3 then
    if arg > limits.maximumTextBytes then .error "resource limit: CBOR string too large"
    else if arg > s.rest.length then .error "truncated CBOR string"
    else if (fromUtf8 (s.rest.take arg)).isNone then .error "invalid UTF-8"
    else .ok ⟨s.rest.drop arg, s.items⟩
  else if major = 4 then
    if arg > limits.maximumArrayLength then .error "resource limit: array too large"
    else times element arg s
  else if major = 5 then
    if arg > limits.maximumMapEntries then .error "resource limit: map too large"
    else times (scanEntry requireTextMapKeys element) arg s
  else if major = 6 then
    if !allowTag || arg != 18 then .error "CBOR tags are prohibited" else element s
  else .error "unknown CBOR major type"

/-- The scan of an item; only the outermost may be a tag, if tags are allowed at all. -/
def scan (limits : ResourceLimits) (requireTextMapKeys : Bool) :
    Bool → Nat → Scan → Except String Scan
  | _, 0, s =>
    if (s.items + 1 : Nat) > limits.maximumItems then
      .error "resource limit: too many CBOR items"
    else .error "resource limit: CBOR nesting too deep"
  | allowTag, levels + 1, s =>
    if (s.items + 1 : Nat) > limits.maximumItems then
      .error "resource limit: too many CBOR items"
    else
      match s.rest with
      | [] => .error "truncated CBOR item"
      | initial :: rest =>
        if initial >>> 5 = 7 then
          if initial &&& 31 = 20 ∨ initial &&& 31 = 21 ∨ initial &&& 31 = 22 then
            .ok ⟨rest, s.items + 1⟩
          else .error "CBOR floats and simple values are prohibited"
        else do
          let (arg, rest) ← readArgument (initial &&& 31) rest
          scanContent limits allowTag requireTextMapKeys
            (scan limits requireTextMapKeys false levels) (initial >>> 5) arg
            ⟨rest, s.items + 1⟩

def scanCBOR (data : List UInt8) (limits : ResourceLimits)
    (allowOuterTag18 requireTextMapKeys : Bool) : Except String Unit :=
  if data.length > limits.maximumBytes then .error "resource limit: encoded value too large"
  else do
    let s ← scan limits requireTextMapKeys allowOuterTag18 (limits.maximumDepth + 1).toNat
      ⟨data, 0⟩
    if s.rest ≠ [] then .error "trailing CBOR data prohibited" else .ok ()

end Go

section Steps

variable {ε α : Type} {step step' : Scan → Except ε Scan} {max : Int}

/-- The step takes exactly this code, provided that its items fit and the condition holds. -/
def Takes (step : Scan → Except ε Scan) (max : Int) (code : List UInt8) (size : Nat)
    (condition : Prop) : Prop :=
  ∀ rest items s, step ⟨code ++ rest, items⟩ = .ok s ↔
    s = ⟨rest, items + size⟩ ∧ ((items + size : Nat) : Int) ≤ max ∧ condition

theorem Takes.seq {code code' : List UInt8} {size size' : Nat} {P Q : Prop}
    (h : Takes step max code size P) (h' : Takes step' max code' size' Q) :
    Takes (fun s => step s >>= step') max (code ++ code') (size + size') (P ∧ Q) := by
  intro rest items s
  simp only [List.append_assoc, bind_eq_ok, h _ _ _]
  constructor
  · rintro ⟨_, ⟨rfl, hle, hp⟩, hs⟩
    obtain ⟨rfl, hle', hq⟩ := (h' _ _ _).1 hs
    rw [Nat.add_assoc] at hle' ⊢
    exact ⟨rfl, hle', hp, hq⟩
  · rintro ⟨rfl, hle, hp, hq⟩
    refine ⟨_, ⟨rfl, by omega, hp⟩, (h' _ _ _).2 ?_⟩
    rw [Nat.add_assoc]
    exact ⟨rfl, hle, hq⟩

/-- A loop takes the codes of its rounds, one after the other. -/
theorem times_eq_ok {code : α → List UInt8} {size : α → Nat} {P : α → Prop} {as : List α}
    (h : ∀ a ∈ as, Takes step max (code a) (size a) (P a)) {rest : List UInt8} {items : Nat}
    {s : Scan} (hitems : (items : Int) ≤ max) :
    times step as.length ⟨(as.map code).flatten ++ rest, items⟩ = .ok s ↔
      s = ⟨rest, items + (as.map size).sum⟩ ∧
        ((items + (as.map size).sum : Nat) : Int) ≤ max ∧ ∀ a ∈ as, P a := by
  induction as generalizing items with
  | nil =>
    simp only [List.length_nil, times, List.map_nil, List.flatten_nil, List.nil_append,
      List.sum_nil, Nat.add_zero, Except.ok.injEq, hitems, List.not_mem_nil, false_implies,
      implies_true, and_true]
    exact eq_comm
  | cons a as ih =>
    have htake := h a List.mem_cons_self
    have hrest := fun b hb => h b (List.mem_cons_of_mem a hb)
    simp only [List.length_cons, times, List.map_cons, List.flatten_cons, List.append_assoc,
      List.sum_cons, bind_eq_ok, htake _ _ _, List.forall_mem_cons]
    constructor
    · rintro ⟨_, ⟨rfl, hle, hp⟩, hs⟩
      obtain ⟨rfl, hle', hall⟩ := (ih hrest hle).1 hs
      rw [Nat.add_assoc] at hle' ⊢
      exact ⟨rfl, hle', hp, hall⟩
    · rintro ⟨rfl, hle, hp, hall⟩
      have hle' : ((items + size a : Nat) : Int) ≤ max := by omega
      refine ⟨_, ⟨rfl, hle', hp⟩, (ih hrest hle').2 ?_⟩
      rw [Nat.add_assoc]
      exact ⟨rfl, hle, hall⟩

end Steps

section Heads

theorem byteCount_eq {info : UInt8} {count : Nat} (h : Cbor.argumentBytes info = .ok count) :
    byteCount info = count ∧ count ≠ 0 ∧ info ≠ 31 := by
  obtain ⟨rfl, rfl⟩ | ⟨rfl, rfl⟩ | ⟨rfl, rfl⟩ | ⟨rfl, rfl⟩ := argumentBytes_eq_ok.1 h <;> decide

theorem TypeScript.readLength_argument {info : UInt8} {raw rest : List UInt8} {n : Nat}
    (h : IsArgument info raw n) (hn : n ≤ maxSafe) :
    readLength info (raw ++ rest) = .ok (n, rest) := by
  obtain ⟨hlt, rfl, rfl⟩ | ⟨hge, hcount, rfl, _⟩ := h
  · simp only [readLength, if_pos hlt, List.nil_append]
  · obtain ⟨hwidth, hpos, _⟩ := byteCount_eq hcount
    simp only [readLength, if_neg hge, hwidth, if_neg hpos, List.take_left, List.drop_left]
    rw [if_neg (by rw [List.length_append]; omega), if_neg (by omega)]

theorem Go.readArgument_argument {info : UInt8} {raw rest : List UInt8} {n : Nat}
    (h : IsArgument info raw n) : readArgument info (raw ++ rest) = .ok (n, rest) := by
  obtain ⟨hlt, rfl, rfl⟩ | ⟨hge, hcount, rfl, _⟩ := h
  · simp only [readArgument, if_pos hlt, List.nil_append]
  · obtain ⟨hwidth, hpos, hnot⟩ := byteCount_eq hcount
    simp only [readArgument, if_neg hge, if_neg hnot, hwidth, if_neg hpos, List.take_left,
      List.drop_left]
    rw [if_neg (by rw [List.length_append]; omega)]

variable {limits : ResourceLimits} {tags : List Nat} {levels items : Nat} {major : UInt8} {n : Nat}
  {body : List UInt8} {s : Scan}

/-- A head is read, and its item is left. -/
theorem TypeScript.scan_head (hmajor : major < 7) (hn : n ≤ maxSafe) :
    scan limits tags (levels + 1) ⟨head major n ++ body, items⟩ = .ok s ↔
      ((items + 1 : Nat) : Int) ≤ limits.maximumItems ∧
        scanContent limits tags (scan limits tags levels) major n ⟨body, items + 1⟩ = .ok s := by
  obtain ⟨info, raw, harg⟩ := exists_isArgument n (hn.trans_lt (by decide))
  obtain ⟨hsplit, hinfo⟩ := split_initial (hmajor.trans (by decide)) harg.info_lt
  simp only [scan, harg.head_eq, List.cons_append, hsplit, hinfo, if_neg hmajor.ne,
    readLength_argument harg hn, ok_bind, guard_eq_ok, resource, not_lt]

theorem Go.scan_head {text allowTag : Bool} (hmajor : major < 7) (hn : n ≤ maxSafe) :
    scan limits text allowTag (levels + 1) ⟨head major n ++ body, items⟩ = .ok s ↔
      ((items + 1 : Nat) : Int) ≤ limits.maximumItems ∧
        scanContent limits allowTag text (scan limits text false levels) major n
          ⟨body, items + 1⟩ = .ok s := by
  obtain ⟨info, raw, harg⟩ := exists_isArgument n (hn.trans_lt (by decide))
  obtain ⟨hsplit, hinfo⟩ := split_initial (hmajor.trans (by decide)) harg.info_lt
  simp only [scan, harg.head_eq, List.cons_append, hsplit, hinfo, if_neg hmajor.ne,
    readArgument_argument harg, ok_bind, guard_eq_ok, not_lt]

end Heads

section Encodings

variable {ε : Type} {limits : ResourceLimits} {f inner : Nat → Scan → Except ε Scan}
  {entry : (Scan → Except ε Scan) → Scan → Except ε Scan} {v : Value}

/-- What a scan does with the heads of plain values, given the scan of the items inside. -/
structure Scanner (limits : ResourceLimits) (f inner : Nat → Scan → Except ε Scan)
    (entry : (Scan → Except ε Scan) → Scan → Except ε Scan) : Prop where
  zero : ∀ s t, f 0 s ≠ .ok t
  simple : ∀ levels rest items s, ∀ b ∈ [(0xf4 : UInt8), 0xf5, 0xf6],
    f (levels + 1) ⟨b :: rest, items⟩ = .ok s ↔
      ((items + 1 : Nat) : Int) ≤ limits.maximumItems ∧ s = ⟨rest, items + 1⟩
  integer : ∀ levels rest items s major n, major < 2 → n ≤ maxSafe →
    (f (levels + 1) ⟨head major n ++ rest, items⟩ = .ok s ↔
      ((items + 1 : Nat) : Int) ≤ limits.maximumItems ∧ s = ⟨rest, items + 1⟩)
  bytes : ∀ levels rest items s, ∀ b : List UInt8, b.length ≤ maxSafe →
    (f (levels + 1) ⟨head 2 b.length ++ (b ++ rest), items⟩ = .ok s ↔
      ((items + 1 : Nat) : Int) ≤ limits.maximumItems ∧
        (b.length : Int) ≤ limits.maximumByteStringLength ∧ s = ⟨rest, items + 1⟩)
  text : ∀ levels rest items s, ∀ t : String, (asBytes t).length ≤ maxSafe →
    (f (levels + 1) ⟨head 3 (asBytes t).length ++ (asBytes t ++ rest), items⟩ = .ok s ↔
      ((items + 1 : Nat) : Int) ≤ limits.maximumItems ∧
        ((asBytes t).length : Int) ≤ limits.maximumTextBytes ∧ s = ⟨rest, items + 1⟩)
  array : ∀ levels rest items s n, n ≤ maxSafe →
    (f (levels + 1) ⟨head 4 n ++ rest, items⟩ = .ok s ↔
      ((items + 1 : Nat) : Int) ≤ limits.maximumItems ∧ (n : Int) ≤ limits.maximumArrayLength ∧
        times (inner levels) n ⟨rest, items + 1⟩ = .ok s)
  map : ∀ levels rest items s n, n ≤ maxSafe →
    (f (levels + 1) ⟨head 5 n ++ rest, items⟩ = .ok s ↔
      ((items + 1 : Nat) : Int) ≤ limits.maximumItems ∧ (n : Int) ≤ limits.maximumMapEntries ∧
        times (entry (inner levels)) n ⟨rest, items + 1⟩ = .ok s)
  entry_text : ∀ step rest items, ∀ t : String, (asBytes t).length ≤ maxSafe →
    entry step ⟨(Value.text t).encoding ++ rest, items⟩ =
      (step ⟨(Value.text t).encoding ++ rest, items⟩ >>= step)

/-- The scan takes the encoding of a value exactly when it is within the limits, from every
depth. -/
def Scans (f : Nat → Scan → Except ε Scan) (limits : ResourceLimits) (v : Value) : Prop :=
  ∀ levels depth : Nat, levels = (limits.maximumDepth + 1 - depth).toNat →
    Takes (f levels) limits.maximumItems v.encoding v.items (Within limits depth v)

/-- The values right inside a value. -/
def members : Value → List Value
  | .array values => values
  | .map entries => entries.map Prod.fst ++ entries.map Prod.snd
  | _ => []

theorem length_encoding_pos (v : Value) : 0 < v.encoding.length := by
  cases v with
  | null | bool b => exact Nat.one_pos
  | int n => exact length_head_pos
  | text s | bytes b | tag t w =>
    rw [Cbor.Value.encoding, List.length_append]
    exact Nat.lt_add_right _ length_head_pos
  | array values =>
    rw [Cbor.encoding_array, List.length_append]
    exact Nat.lt_add_right _ length_head_pos
  | map entries =>
    rw [Cbor.encoding_map, List.length_append]
    exact Nat.lt_add_right _ length_head_pos

theorem length_le_sum {α : Type} {size : α → Nat} {as : List α} (h : ∀ a ∈ as, 0 < size a) :
    as.length ≤ (as.map size).sum := by
  induction as with
  | nil => exact Nat.zero_le _
  | cons a as ih =>
    rw [List.forall_mem_cons] at h
    have hle := ih h.2
    rw [List.length_cons, List.map_cons, List.sum_cons]
    omega

/-- The parts of an encoding are shorter than it. -/
theorem length_array_lt {values : List Value} :
    values.length < (Value.array values).encoding.length ∧
      ∀ v ∈ values, v.encoding.length < (Value.array values).encoding.length := by
  rw [Cbor.encoding_array, List.length_append, List.length_flatten, List.map_map]
  have hhead : 0 < (head 4 values.length).length := length_head_pos
  constructor
  · have hle : values.length ≤ (values.map (List.length ∘ Value.encoding)).sum :=
      length_le_sum fun v _ => length_encoding_pos v
    omega
  · intro v hv
    have hle : v.encoding.length ≤ (values.map (List.length ∘ Value.encoding)).sum :=
      List.le_sum_of_mem (List.mem_map_of_mem (f := List.length ∘ Value.encoding) hv)
    omega

theorem length_map_lt {entries : List (Value × Value)} :
    entries.length < (Value.map entries).encoding.length ∧
      ∀ e ∈ entries, (entryEncoding e).length < (Value.map entries).encoding.length := by
  rw [Cbor.encoding_map, List.length_append, length_entries]
  have hhead : 0 < (head 5 entries.length).length := length_head_pos
  constructor
  · have hle : entries.length ≤ (entries.map fun e => (entryEncoding e).length).sum := by
      refine length_le_sum fun e _ => ?_
      have hkey := length_encoding_pos e.1
      rw [entryEncoding, List.length_append]
      omega
    omega
  · intro e he
    have hle : (entryEncoding e).length ≤ (entries.map fun e => (entryEncoding e).length).sum :=
      List.le_sum_of_mem (List.mem_map_of_mem (f := fun e => (entryEncoding e).length) he)
    omega

theorem length_member_lt {w : Value} (h : w ∈ members v) :
    w.encoding.length < v.encoding.length := by
  cases v with
  | array values => exact length_array_lt.2 w h
  | map entries =>
    rw [members, List.mem_append, List.mem_map, List.mem_map] at h
    obtain ⟨e, he, rfl⟩ | ⟨e, he, rfl⟩ := h
    · refine lt_of_le_of_lt ?_ (length_map_lt.2 e he)
      rw [entryEncoding, List.length_append]
      exact Nat.le_add_right _ _
    · refine lt_of_le_of_lt ?_ (length_map_lt.2 e he)
      rw [entryEncoding, List.length_append]
      exact Nat.le_add_left _ _
  | null | bool b | int n | text s | bytes b | tag t w => cases h

theorem Plain.member {w : Value} (hv : Plain v) (hw : w ∈ members v) : Plain w := by
  cases hv with
  | array values h => exact h w hw
  | map entries hkeys _ h =>
    rw [members, List.mem_append, List.mem_map, List.mem_map] at hw
    obtain ⟨e, he, rfl⟩ | ⟨e, he, rfl⟩ := hw
    · obtain ⟨t, ht⟩ := isKey_iff.1 (hkeys e he)
      rw [ht]
      exact .text t
    · exact h e he
  | null | bool b | int n _ | text s | bytes b => cases hw

/-- A scan takes a plain value when the scan inside it takes its members. -/
theorem Scanner.step (hf : Scanner limits f inner entry) (hv : Plain v)
    (hsize : v.encoding.length ≤ maxSafe) (hmembers : ∀ w ∈ members v, Scans inner limits w) :
    Scans f limits v := by
  intro levels depth hlevels rest items s
  cases levels with
  | zero =>
    refine iff_of_false (hf.zero _ _) ?_
    rintro ⟨_, _, hwithin⟩
    have hdepth := hwithin.depth_le
    omega
  | succ levels =>
  have hdepth : (depth : Int) ≤ limits.maximumDepth := by omega
  have hbelow : levels = (limits.maximumDepth + 1 - (depth + 1 : Nat)).toNat := by omega
  cases hv with
  | null =>
    rw [show (Value.null.encoding ++ rest) = 0xf6 :: rest from rfl, hf.simple _ _ _ _ _ (by simp)]
    simp only [Cbor.Value.items, Within]
    tauto
  | bool b =>
    have hbyte : ((Value.bool b).encoding ++ rest) = (if b then 0xf5 else 0xf4) :: rest := rfl
    rw [hbyte, hf.simple _ _ _ _ _ (by cases b <;> simp)]
    simp only [Cbor.Value.items, Within]
    tauto
  | int n hsafe =>
    have hmajor : (if n < 0 then 1 else 0 : UInt8) < 2 := by split_ifs <;> decide
    have hn : (if n < 0 then (-1 - n).toNat else n.toNat) ≤ maxSafe := by split_ifs <;> omega
    rw [Cbor.Value.encoding, hf.integer _ _ _ _ _ _ hmajor hn]
    simp only [Cbor.Value.items, Within]
    tauto
  | text t =>
    rw [Cbor.Value.encoding, List.length_append] at hsize
    rw [Cbor.Value.encoding, List.append_assoc, hf.text _ _ _ _ _ (by omega)]
    simp only [Cbor.Value.items, Within]
    tauto
  | bytes b =>
    rw [Cbor.Value.encoding, List.length_append] at hsize
    rw [Cbor.Value.encoding, List.append_assoc, hf.bytes _ _ _ _ _ (by omega)]
    simp only [Cbor.Value.items, Within]
    tauto
  | array values hvalues =>
    have hlength := length_array_lt.1.le.trans hsize
    rw [Cbor.encoding_array, List.append_assoc, hf.array _ _ _ _ _ hlength,
      Cbor.items_array, Within, withinAll_iff]
    have htakes : ∀ w ∈ values, Takes (inner levels) limits.maximumItems w.encoding w.items
        (Within limits (depth + 1) w) :=
      fun w hw => hmembers w hw levels (depth + 1) hbelow
    by_cases hitems : ((items + 1 : Nat) : Int) ≤ limits.maximumItems
    · rw [times_eq_ok htakes hitems,
        show items + ((values.map Value.items).sum + 1) =
          items + 1 + (values.map Value.items).sum by omega]
      tauto
    · refine iff_of_false (fun h => hitems h.1) (fun h => hitems ?_)
      have hle := h.2.1
      omega
  | map entries hkeys hdistinct hvalues =>
    have hlength := length_map_lt.1.le.trans hsize
    have htakes : ∀ e ∈ sortEntries entries, Takes (entry (inner levels)) limits.maximumItems
        (entryEncoding e) (e.1.items + e.2.items) (EntryWithin limits (depth + 1) e) := by
      intro e he
      have hmem := (sortEntries_perm entries).mem_iff.1 he
      have hkey := hmembers e.1 (List.mem_append_left _ (List.mem_map_of_mem hmem))
      have hvalue := hmembers e.2 (List.mem_append_right _ (List.mem_map_of_mem hmem))
      have hseq := (hkey levels (depth + 1) hbelow).seq (hvalue levels (depth + 1) hbelow)
      rw [← entryWithin_iff (hkeys e hmem)] at hseq
      obtain ⟨t, ht⟩ := isKey_iff.1 (hkeys e hmem)
      have hshort : (asBytes t).length ≤ maxSafe := by
        have hle := (length_map_lt.2 e hmem).le.trans hsize
        rw [entryEncoding, ht, Cbor.Value.encoding, List.length_append, List.length_append] at hle
        omega
      intro rest items s
      rw [← hseq rest items s, entryEncoding, List.append_assoc, ht,
        hf.entry_text _ _ _ _ hshort]
    rw [Cbor.encoding_map, List.append_assoc, hf.map _ _ _ _ _ hlength, Cbor.items_map, Within,
      withinEntries_iff, ← (sortEntries_perm entries).length_eq]
    by_cases hitems : ((items + 1 : Nat) : Int) ≤ limits.maximumItems
    · rw [times_eq_ok htakes hitems,
        ((sortEntries_perm entries).map fun e : Value × Value => e.1.items + e.2.items).sum_eq,
        show items + ((entries.map fun e => e.1.items + e.2.items).sum + 1) =
          items + 1 + (entries.map fun e => e.1.items + e.2.items).sum by omega]
      simp only [(sortEntries_perm entries).mem_iff]
      tauto
    · refine iff_of_false (fun h => hitems h.1) (fun h => hitems ?_)
      have hle := h.2.1
      omega

/-- A scan that scans members as it scans items takes every plain value. -/
theorem Scanner.scans (hf : Scanner limits inner inner entry) (hv : Plain v)
    (hsize : v.encoding.length ≤ maxSafe) : Scans inner limits v := by
  induction hv with
  | null => exact hf.step .null hsize (by simp [members])
  | bool b => exact hf.step (.bool b) hsize (by simp [members])
  | int n hsafe => exact hf.step (.int n hsafe) hsize (by simp [members])
  | text t => exact hf.step (.text t) hsize (by simp [members])
  | bytes b => exact hf.step (.bytes b) hsize (by simp [members])
  | array values hvalues ih =>
    refine hf.step (.array values hvalues) hsize fun w hw => ih w hw ?_
    exact (length_array_lt.2 w hw).le.trans hsize
  | map entries hkeys hdistinct hvalues ih =>
    refine hf.step (.map entries hkeys hdistinct hvalues) hsize fun w hw => ?_
    have hle := (length_member_lt hw).le.trans hsize
    rw [members, List.mem_append, List.mem_map, List.mem_map] at hw
    obtain ⟨e, he, rfl⟩ | ⟨e, he, rfl⟩ := hw
    · obtain ⟨t, ht⟩ := isKey_iff.1 (hkeys e he)
      rw [ht] at hle ⊢
      exact hf.step (.text t) hle (by simp [members])
    · exact ih e he hle

end Encodings

section Scanners

variable {limits : ResourceLimits} {v : Value} {u : Unit}

theorem TypeScript.scanner (tags : List Nat) :
    Scanner limits (scan limits tags) (scan limits tags) (fun step s => step s >>= step) where
  zero s t h := by
    unfold scan at h
    split at h <;> cases h
  simple levels rest items s b hb := by
    have hmajor : b >>> 5 = 7 := by fin_cases hb <;> rfl
    have hinfo : b &&& 31 < 24 := by fin_cases hb <;> decide
    simp only [scan, hmajor, if_true, scanSimple, hinfo, resource, guard_eq_ok, Except.ok.injEq,
      not_lt]
    exact and_congr_right fun _ => eq_comm
  integer levels rest items s major n hmajor hn := by
    rw [scan_head (hmajor.trans (by decide)) hn]
    have hcase : major = 0 ∨ major = 1 := by
      rw [UInt8.lt_iff_toNat_lt] at hmajor
      rw [← UInt8.toNat_inj, ← UInt8.toNat_inj]
      simp only [UInt8.reduceToNat] at hmajor ⊢
      omega
    simp only [scanContent, if_pos hcase, Except.ok.injEq]
    exact and_congr_right fun _ => eq_comm
  bytes levels rest items s b hb := by
    rw [scan_head (by decide) hb]
    simp only [scanContent, show ¬((2 : UInt8) = 0 ∨ (2 : UInt8) = 1) by decide, if_false, if_true,
      resource, malformed, guard_eq_ok, List.length_append, not_lt, Except.ok.injEq,
      List.drop_left, Nat.le_add_right, true_and]
    exact and_congr_right fun _ => and_congr_right fun _ => eq_comm
  text levels rest items s t ht := by
    rw [scan_head (by decide) ht]
    simp only [scanContent, show ¬((3 : UInt8) = 0 ∨ (3 : UInt8) = 1) by decide,
      show ¬(3 : UInt8) = 2 by decide, if_false, if_true, resource, malformed, guard_eq_ok,
      List.length_append, not_lt, Except.ok.injEq, List.drop_left, Nat.le_add_right, true_and]
    exact and_congr_right fun _ => and_congr_right fun _ => eq_comm
  array levels rest items s n hn := by
    rw [scan_head (by decide) hn]
    simp only [scanContent, show ¬((4 : UInt8) = 0 ∨ (4 : UInt8) = 1) by decide,
      show ¬(4 : UInt8) = 2 by decide, show ¬(4 : UInt8) = 3 by decide, if_false, if_true,
      resource, guard_eq_ok, not_lt]
  map levels rest items s n hn := by
    rw [scan_head (by decide) hn]
    simp only [scanContent, show ¬((5 : UInt8) = 0 ∨ (5 : UInt8) = 1) by decide,
      show ¬(5 : UInt8) = 2 by decide, show ¬(5 : UInt8) = 3 by decide,
      show ¬(5 : UInt8) = 4 by decide, if_false, if_true, resource, guard_eq_ok, not_lt]
  entry_text _ _ _ _ _ := rfl

/-- A text starts with a head of major type 3. -/
theorem Go.scanEntry_text {text : Bool} {step : Scan → Except String Scan} {rest : List UInt8}
    {items : Nat} {t : String} (ht : (asBytes t).length ≤ maxSafe) :
    scanEntry text step ⟨(Value.text t).encoding ++ rest, items⟩ =
      (step ⟨(Value.text t).encoding ++ rest, items⟩ >>= step) := by
  obtain ⟨b, raw, hhead, hmajor⟩ : ∃ b raw, head 3 (asBytes t).length = b :: raw ∧ b >>> 5 = 3 :=
    Cbor.head_major (by decide) (ht.trans_lt (by decide))
  unfold scanEntry
  refine if_neg ?_
  rintro ⟨_, hnot⟩
  refine hnot ⟨b, ?_, hmajor⟩
  rw [Cbor.Value.encoding, hhead]
  rfl

theorem Go.scanner (text allowTag : Bool) :
    Scanner limits (scan limits text allowTag) (scan limits text false) (scanEntry text) where
  zero s t h := by
    unfold scan at h
    split at h <;> cases h
  simple levels rest items s b hb := by
    have hmajor : b >>> 5 = 7 := by fin_cases hb <;> rfl
    have hinfo : b &&& 31 = 20 ∨ b &&& 31 = 21 ∨ b &&& 31 = 22 := by fin_cases hb <;> decide
    simp only [scan, hmajor, if_true, hinfo, guard_eq_ok, Except.ok.injEq, not_lt]
    exact and_congr_right fun _ => eq_comm
  integer levels rest items s major n hmajor hn := by
    rw [scan_head (hmajor.trans (by decide)) hn]
    have hcase : major = 0 ∨ major = 1 := by
      rw [UInt8.lt_iff_toNat_lt] at hmajor
      rw [← UInt8.toNat_inj, ← UInt8.toNat_inj]
      simp only [UInt8.reduceToNat] at hmajor ⊢
      omega
    simp only [scanContent, if_pos hcase, guard_eq_ok, Except.ok.injEq, not_lt, hn, true_and]
    exact and_congr_right fun _ => eq_comm
  bytes levels rest items s b hb := by
    rw [scan_head (by decide) hb]
    simp only [scanContent, show ¬((2 : UInt8) = 0 ∨ (2 : UInt8) = 1) by decide, if_false, if_true,
      guard_eq_ok, List.length_append, not_lt, Except.ok.injEq, List.drop_left, Nat.le_add_right,
      true_and]
    exact and_congr_right fun _ => and_congr_right fun _ => eq_comm
  text levels rest items s t ht := by
    rw [scan_head (by decide) ht]
    have hutf8 : (fromUtf8 (asBytes t)).isNone = false := by
      rw [Cbor.fromUtf8_eq_some.2 rfl]
      rfl
    simp only [scanContent, show ¬((3 : UInt8) = 0 ∨ (3 : UInt8) = 1) by decide,
      show ¬(3 : UInt8) = 2 by decide, if_false, if_true, guard_eq_ok, List.length_append, not_lt,
      Except.ok.injEq, List.take_left, List.drop_left, Nat.le_add_right, hutf8, Bool.false_eq_true,
      true_and]
    exact and_congr_right fun _ => and_congr_right fun _ => eq_comm
  array levels rest items s n hn := by
    rw [scan_head (by decide) hn]
    simp only [scanContent, show ¬((4 : UInt8) = 0 ∨ (4 : UInt8) = 1) by decide,
      show ¬(4 : UInt8) = 2 by decide, show ¬(4 : UInt8) = 3 by decide, if_false, if_true,
      guard_eq_ok, not_lt]
  map levels rest items s n hn := by
    rw [scan_head (by decide) hn]
    simp only [scanContent, show ¬((5 : UInt8) = 0 ∨ (5 : UInt8) = 1) by decide,
      show ¬(5 : UInt8) = 2 by decide, show ¬(5 : UInt8) = 3 by decide,
      show ¬(5 : UInt8) = 4 by decide, if_false, if_true, guard_eq_ok, not_lt]
  entry_text _ _ _ _ ht := scanEntry_text ht

theorem Scans.whole {ε : Type} {f : Nat → Scan → Except ε Scan} (h : Scans f limits v) (s : Scan) :
    f (limits.maximumDepth + 1).toNat ⟨v.encoding, 0⟩ = .ok s ↔
      s = ⟨[], v.items⟩ ∧ (v.items : Int) ≤ limits.maximumItems ∧ Within limits 0 v := by
  have htake := h (limits.maximumDepth + 1).toNat 0 (by omega) [] 0 s
  rwa [List.append_nil, Nat.zero_add] at htake

/-- TypeScript passes the encoding of a plain value exactly when the value is within the limits. -/
theorem TypeScript.assertCborResourceLimits_eq_ok {tags : List Nat} (hv : Plain v)
    (hsize : v.encoding.length ≤ maxSafe) :
    assertCborResourceLimits v.encoding limits tags = .ok u ↔
      v.items ≤ limits.maximumItems ∧ Within limits 0 v ∧
        v.encoding.length ≤ limits.maximumBytes := by
  have hscans : Scans (scan limits tags) limits v := (scanner tags).scans hv hsize
  have hscan := hscans.whole
  simp only [assertCborResourceLimits, resource, malformed, guard_eq_ok, bind_eq_ok, hscan, not_lt,
    not_not, and_true]
  constructor
  · rintro ⟨hbytes, s, ⟨rfl, hitems, hwithin⟩, _⟩
    exact ⟨hitems, hwithin, hbytes⟩
  · rintro ⟨hitems, hwithin, hbytes⟩
    exact ⟨hbytes, _, ⟨rfl, hitems, hwithin⟩, rfl⟩

/-- So does Go. -/
theorem Go.scanCBOR_eq_ok {allowTag text : Bool} (hv : Plain v)
    (hsize : v.encoding.length ≤ maxSafe) :
    scanCBOR v.encoding limits allowTag text = .ok u ↔
      v.items ≤ limits.maximumItems ∧ Within limits 0 v ∧
        v.encoding.length ≤ limits.maximumBytes := by
  have hmembers : ∀ w ∈ members v, Scans (scan limits text false) limits w := fun w hw =>
    (scanner text false).scans (hv.member hw) ((length_member_lt hw).le.trans hsize)
  have hscan := ((scanner text allowTag).step hv hsize hmembers).whole
  simp only [scanCBOR, guard_eq_ok, bind_eq_ok, hscan, not_lt, not_not, and_true]
  constructor
  · rintro ⟨hbytes, s, ⟨rfl, hitems, hwithin⟩, _⟩
    exact ⟨hitems, hwithin, hbytes⟩
  · rintro ⟨hitems, hwithin, hbytes⟩
    exact ⟨hbytes, _, ⟨rfl, hitems, hwithin⟩, rfl⟩

end Scanners

end HailProto.Codec
