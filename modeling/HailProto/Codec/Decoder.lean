import HailProto.Codec.Preflight
import HailProto.Cbor.KeyOrder

/-!
# The deterministic decoders

`decodeDeterministic` of `cbor.ts` and `DecodeDeterministicWithLimits` of `cbor.go`. Each scans the
bytes, lets a library decode them, checks the value and compares the bytes with what the library
encodes. The libraries are parameters: what they do is assumed on encodings of values only, since
the comparison at the end rejects all other bytes. Go leaves three bounds of its library at their
defaults, and within these the two decoders accept the same bytes as the same value.
-/

namespace HailProto.Codec

open Cbor (Value Value.items itemsSum entryItems head maxSafe asBytes fromUtf8 LengthFirst encodingPairs encodings)

/-- No map holds a key twice. -/
inductive Distinct : Value → Prop
  | null : Distinct .null
  | bool (b : Bool) : Distinct (.bool b)
  | int (n : Int) : Distinct (.int n)
  | text (s : String) : Distinct (.text s)
  | bytes (b : List UInt8) : Distinct (.bytes b)
  | array (values : List Value) (h : ∀ v ∈ values, Distinct v) : Distinct (.array values)
  | map (entries : List (Value × Value)) (hdistinct : (entries.map Prod.fst).Nodup)
      (h : ∀ e ∈ entries, Distinct e.2) : Distinct (.map entries)
  | tag (t : UInt64) (value : Value) (h : Distinct value) : Distinct (.tag t value)

/-- A plain value with its maps in order. -/
def Canonical (v : Value) : Prop := Plain v ∧ v.sorted = v

theorem plain_of_within {limits : ResourceLimits} {v : Value} (hv : Distinct v) {depth : Nat}
    (h : Within limits depth v) : Plain v := by
  induction hv generalizing depth with
  | null => exact .null
  | bool b => exact .bool b
  | int n =>
    simp only [Within] at h
    exact .int n h.2
  | text s => exact .text s
  | bytes b => exact .bytes b
  | array values _ ih =>
    simp only [Within, withinAll_iff] at h
    exact .array values fun v hv => ih v hv (h.2.2 v hv)
  | map entries hdistinct _ ih =>
    simp only [Within, withinEntries_iff] at h
    exact .map entries (fun e he => (h.2.2 e he).1) hdistinct
      fun e he => ih e he (h.2.2 e he).2.2
  | tag t value _ _ => simp only [Within] at h

namespace TypeScript

/-- `cborg`, with the options of the codec. The flag keeps a tag 18, and whatever is no Hail value
(a fraction, say) is decoded to a tag of another number. -/
structure Cborg where
  encode : Value → List UInt8
  decode : Bool → List UInt8 → Except String Value

/-- Encoding is deterministic, decoding is strict and takes no map with a duplicate key. -/
structure Cborg.Strict (cborg : Cborg) : Prop where
  encode_eq : ∀ v, Wire true v → cborg.encode v = v.encoding
  decode_encoding : ∀ tag18 v, Wire tag18 v → v.encoding.length ≤ maxSafe →
    cborg.decode tag18 v.encoding = .ok v.sorted
  decode_distinct : ∀ tag18 bytes v, cborg.decode tag18 bytes = .ok v → Distinct v

mutual

def mapsToObjects : Value → Except HailCodecError Value
  | .array values => do
      let output ← mapsToObjectsAll values
      .ok (.array output)
  | .map entries => do
      let output ← mapsToObjectsEntries entries
      .ok (.map output)
  | v => .ok v

def mapsToObjectsAll : List Value → Except HailCodecError (List Value)
  | [] => .ok []
  | v :: values => do
      let v ← mapsToObjects v
      let values ← mapsToObjectsAll values
      .ok (v :: values)

def mapsToObjectsEntries : List (Value × Value) → Except HailCodecError (List (Value × Value))
  | [] => .ok []
  | (k, v) :: entries =>
    if k.isKey false = false then .error ⟨"invalid-value", "map keys must be text", ""⟩
    else do
      let v ← mapsToObjects v
      let entries ← mapsToObjectsEntries entries
      .ok ((k, v) :: entries)

end

def encodeDeterministic (cborg : Cborg) (value : Value) (limits : ResourceLimits) :
    Except HailCodecError (List UInt8) := do
  assertHailValue value limits
  let encoded := cborg.encode value
  if encoded.length > limits.maximumBytes then resource "encoded value is too large"
  else .ok encoded

def decodeDeterministic (cborg : Cborg) (bytes : List UInt8) (limits : ResourceLimits) :
    Except HailCodecError Value := do
  assertCborResourceLimits bytes limits []
  match cborg.decode false bytes with
  | .error message => malformed message
  | .ok decoded => do
      let _ ← checkValue limits "$" 0 0 decoded
      if bytes ≠ cborg.encode decoded then
        .error ⟨"non-deterministic-cbor", "input is not its deterministic RFC 8949 encoding", ""⟩
      else mapsToObjects decoded

end TypeScript

namespace Go

/-- Three options of `fxamacker/cbor` that the codec does not set: the levels of nested containers,
and the numbers of elements and of pairs in one of them. -/
structure DecoderBounds where
  maxNestedLevels : Nat
  maxArrayElements : Nat
  maxMapPairs : Nat

mutual

/-- The value keeps the bounds, with this many levels left. -/
def fits (bounds : DecoderBounds) (levels : Nat) : Value → Bool
  | .array values =>
    decide (0 < levels) && decide (values.length ≤ bounds.maxArrayElements) &&
      fitsAll bounds (levels - 1) values
  | .map entries =>
    decide (0 < levels) && decide (entries.length ≤ bounds.maxMapPairs) &&
      fitsEntries bounds (levels - 1) entries
  | .tag _ value => decide (0 < levels) && fits bounds (levels - 1) value
  | _ => true

def fitsAll (bounds : DecoderBounds) (levels : Nat) : List Value → Bool
  | [] => true
  | v :: values => fits bounds levels v && fitsAll bounds levels values

def fitsEntries (bounds : DecoderBounds) (levels : Nat) : List (Value × Value) → Bool
  | [] => true
  | (k, v) :: entries =>
    fits bounds levels k && fits bounds levels v && fitsEntries bounds levels entries

end

mutual

/-- The encoding with the keys of maps in the order of `SortCanonical`. -/
def lengthFirstEncoding : Value → List UInt8
  | .array values => head 4 values.length ++ (lengthFirstEncodings values).flatten
  | .map entries =>
    head 5 entries.length ++ (((lengthFirstPairs entries).insertionSort
      (fun a b => LengthFirst a.1 b.1)).map fun e => e.1 ++ e.2).flatten
  | .tag t value => head 6 t.toNat ++ lengthFirstEncoding value
  | v => v.encoding

def lengthFirstEncodings : List Value → List (List UInt8)
  | [] => []
  | v :: values => lengthFirstEncoding v :: lengthFirstEncodings values

def lengthFirstPairs : List (Value × Value) → List (List UInt8 × List UInt8)
  | [] => []
  | (k, v) :: entries => (lengthFirstEncoding k, lengthFirstEncoding v) :: lengthFirstPairs entries

end

/-- `fxamacker/cbor`, with the options of the codec. -/
structure Fxamacker extends DecoderBounds where
  marshal : Value → Except String (List UInt8)
  unmarshal : List UInt8 → Except String Value

/-- The value keeps the bounds of the library. -/
def Fxamacker.admits (cbor : Fxamacker) (v : Value) : Bool :=
  fits cbor.toDecoderBounds cbor.maxNestedLevels v

/-- Encoding sorts shorter keys first, decoding is strict, takes no map with a duplicate key and
refuses exactly the encodings beyond its bounds. -/
structure Fxamacker.Strict (cbor : Fxamacker) : Prop where
  marshal_eq : ∀ v, Plain v → cbor.marshal v = .ok (lengthFirstEncoding v)
  unmarshal_encoding : ∀ v, Plain v → v.encoding.length ≤ maxSafe →
    cbor.admits v = true → cbor.unmarshal v.encoding = .ok v.sorted
  unmarshal_beyond : ∀ v, Plain v → v.encoding.length ≤ maxSafe →
    cbor.admits v = false → ∃ e, cbor.unmarshal v.encoding = .error e
  unmarshal_distinct : ∀ bytes v, cbor.unmarshal bytes = .ok v → Distinct v

def validateLimits (limits : ResourceLimits) : Except String Unit :=
  if limits.maximumBytes < 1 ∨ limits.maximumDepth < 0 ∨ limits.maximumItems < 1 ∨
      limits.maximumArrayLength < 0 ∨ limits.maximumMapEntries < 0 ∨
      limits.maximumTextBytes < 0 ∨ limits.maximumByteStringLength < 0 then
    .error "invalid resource limits"
  else .ok ()

/-- The counter and the depth of an item that is validated. -/
def validateItem (limits : ResourceLimits) (depth count : Nat) : Except String Unit :=
  if count > limits.maximumItems ∨ depth > limits.maximumDepth then
    .error "resource limit exceeded"
  else .ok ()

mutual

/-- The walk over a decoded value; a key is no item here. -/
def validateValue (limits : ResourceLimits) (depth count : Nat) : Value → Except String Nat
  | .int n => do
      validateItem limits depth (count + 1)
      if n > maxSafe ∨ n < -(maxSafe : Int) then .error "integer outside Hail safe range"
      else .ok (count + 1)
  | .array values => do
      validateItem limits depth (count + 1)
      if values.length > limits.maximumArrayLength then .error "array too large"
      else validateValues limits depth (count + 1) values
  | .map entries => do
      validateItem limits depth (count + 1)
      if entries.length > limits.maximumMapEntries then .error "map too large"
      else validateEntries limits depth (count + 1) entries
  | .tag _ _ => do
      validateItem limits depth (count + 1)
      .error "unsupported Hail value"
  | _ => do
      validateItem limits depth (count + 1)
      .ok (count + 1)

def validateValues (limits : ResourceLimits) (depth count : Nat) :
    List Value → Except String Nat
  | [] => .ok count
  | v :: values => do
      let count ← validateValue limits (depth + 1) count v
      validateValues limits depth count values

def validateEntries (limits : ResourceLimits) (depth count : Nat) :
    List (Value × Value) → Except String Nat
  | [] => .ok count
  | (k, v) :: entries =>
    if k.isKey false = false then .error "map keys must be text"
    else do
      let count ← validateValue limits (depth + 1) count v
      validateEntries limits depth count entries

end

/-- The value is returned as a copy. -/
def decodeDeterministicWithLimits (cbor : Fxamacker) (data : List UInt8)
    (limits : ResourceLimits) : Except String Value := do
  validateLimits limits
  if data.length > limits.maximumBytes then .error "resource limit: encoded value too large"
  else do
    scanCBOR data limits false true
    match cbor.unmarshal data with
    | .error message => .error ("malformed CBOR: " ++ message)
    | .ok value => do
        let _ ← validateValue limits 0 0 value
        match cbor.marshal value with
        | .error message => .error ("reencode CBOR: " ++ message)
        | .ok reencoded =>
          if data ≠ reencoded then .error "CBOR is not deterministic RFC 8949 encoding"
          else .ok value

end Go

section Decoding

variable {cborg : TypeScript.Cborg} {limits : ResourceLimits} {data : List UInt8} {v : Value}

mutual

/-- What a decoder returns keeps its value when it is turned into objects. -/
theorem TypeScript.eq_of_mapsToObjects {w : Value} (v : Value) (h : mapsToObjects v = .ok w) :
    w = v := by
  cases v with
  | array values =>
    simp only [mapsToObjects, bind_eq_ok, Except.ok.injEq] at h
    obtain ⟨output, houtput, rfl⟩ := h
    rw [eq_of_mapsToObjectsAll values houtput]
  | map entries =>
    simp only [mapsToObjects, bind_eq_ok, Except.ok.injEq] at h
    obtain ⟨output, houtput, rfl⟩ := h
    rw [eq_of_mapsToObjectsEntries entries houtput]
  | null | bool b | int n | text s | bytes b | tag t v =>
    simp only [mapsToObjects, Except.ok.injEq] at h
    exact h.symm

theorem TypeScript.eq_of_mapsToObjectsAll {output : List Value} (values : List Value)
    (h : mapsToObjectsAll values = .ok output) : output = values := by
  cases values with
  | nil =>
    simp only [mapsToObjectsAll, Except.ok.injEq] at h
    exact h.symm
  | cons v values =>
    simp only [mapsToObjectsAll, bind_eq_ok, Except.ok.injEq] at h
    obtain ⟨w, hw, ws, hws, rfl⟩ := h
    rw [eq_of_mapsToObjects v hw, eq_of_mapsToObjectsAll values hws]

theorem TypeScript.eq_of_mapsToObjectsEntries {output : List (Value × Value)}
    (entries : List (Value × Value)) (h : mapsToObjectsEntries entries = .ok output) :
    output = entries := by
  cases entries with
  | nil =>
    simp only [mapsToObjectsEntries, Except.ok.injEq] at h
    exact h.symm
  | cons e entries =>
    obtain ⟨k, v⟩ := e
    simp only [mapsToObjectsEntries, guard_eq_ok, bind_eq_ok, Except.ok.injEq] at h
    obtain ⟨_, w, hw, ws, hws, rfl⟩ := h
    rw [eq_of_mapsToObjects v hw, eq_of_mapsToObjectsEntries entries hws]

end

theorem TypeScript.mapsToObjectsAll_eq_ok {values : List Value}
    (h : ∀ v ∈ values, mapsToObjects v = .ok v) : mapsToObjectsAll values = .ok values := by
  induction values with
  | nil => rfl
  | cons v values ih =>
    rw [List.forall_mem_cons] at h
    rw [mapsToObjectsAll, h.1, ih h.2]
    rfl

theorem TypeScript.mapsToObjectsEntries_eq_ok {entries : List (Value × Value)}
    (hkeys : ∀ e ∈ entries, e.1.isKey false = true)
    (h : ∀ e ∈ entries, mapsToObjects e.2 = .ok e.2) :
    mapsToObjectsEntries entries = .ok entries := by
  induction entries with
  | nil => rfl
  | cons e entries ih =>
    rw [List.forall_mem_cons] at h hkeys
    rw [mapsToObjectsEntries, hkeys.1, h.1, ih hkeys.2 h.2]
    rfl

/-- Plain values can be turned into objects. -/
theorem TypeScript.mapsToObjects_eq_ok (hv : Plain v) : mapsToObjects v = .ok v := by
  induction hv with
  | null | bool b | int n _ | text s | bytes b => rfl
  | array values _ ih =>
    rw [mapsToObjects, mapsToObjectsAll_eq_ok ih]
    rfl
  | map entries hkeys _ _ ih =>
    rw [mapsToObjects, mapsToObjectsEntries_eq_ok hkeys ih]
    rfl

/-- TypeScript decodes exactly the encodings of values within the limits. -/
theorem TypeScript.decodeDeterministic_eq_ok (hcborg : cborg.Strict)
    (hdata : data.length ≤ maxSafe) :
    decodeDeterministic cborg data limits = .ok v ↔
      Canonical v ∧ data = v.encoding ∧ assertHailValue v limits = .ok () := by
  constructor
  · intro h
    simp only [decodeDeterministic, bind_eq_ok] at h
    obtain ⟨_, hscan, h⟩ := h
    cases hdecode : cborg.decode false data with
    | error message =>
      rw [hdecode] at h
      cases h
    | ok decoded =>
      rw [hdecode] at h
      simp only [bind_eq_ok, guard_eq_ok, not_not, ne_eq] at h
      obtain ⟨n, hcheck, hencode, hmaps⟩ := h
      obtain rfl := eq_of_mapsToObjects decoded hmaps
      obtain ⟨hn, hitems, hwithin⟩ := (checkValue_eq_ok v).1 hcheck
      have hplain := plain_of_within (hcborg.decode_distinct _ _ _ hdecode) hwithin
      rw [hcborg.encode_eq v hplain.wire] at hencode
      subst hencode
      rw [hcborg.decode_encoding false v hplain.wire hdata, Except.ok.injEq] at hdecode
      refine ⟨⟨hplain, hdecode⟩, rfl, ?_⟩
      rw [assertHailValue_eq_ok, encodedSize_eq_length hplain,
        ← assertCborResourceLimits_eq_ok hplain hdata]
      exact hscan
  · rintro ⟨⟨hplain, hsorted⟩, rfl, hassert⟩
    have hscan : assertCborResourceLimits v.encoding limits [] = .ok () := by
      rw [assertCborResourceLimits_eq_ok hplain hdata, ← encodedSize_eq_length hplain,
        ← assertHailValue_eq_ok]
      exact hassert
    rw [assertHailValue_eq_ok] at hassert
    simp only [decodeDeterministic, hscan, ok_bind,
      hcborg.decode_encoding false v hplain.wire hdata, hsorted]
    rw [(checkValue_eq_ok v).2 ⟨(Nat.zero_add _).symm, hassert.1, hassert.2.1⟩, ok_bind,
      hcborg.encode_eq v hplain.wire, if_neg (not_not.2 rfl), mapsToObjects_eq_ok hplain]

variable {cbor : Go.Fxamacker}

theorem Go.validateItem_eq_ok {depth count : Nat} {u : Unit} :
    validateItem limits depth count = .ok u ↔
      count ≤ limits.maximumItems ∧ depth ≤ limits.maximumDepth := by
  simp only [validateItem, guard_eq_ok, not_or, not_lt, and_true]

theorem Go.validateValues_eq_ok {depth count n : Nat} {values : List Value} {v : Value}
    (h : validateValues limits depth count values = .ok n) (hv : v ∈ values) :
    ∃ before after, validateValue limits (depth + 1) before v = .ok after := by
  induction values generalizing count with
  | nil => cases hv
  | cons w values ih =>
    simp only [validateValues, bind_eq_ok] at h
    obtain ⟨m, hw, hvalues⟩ := h
    obtain rfl | hv := List.mem_cons.1 hv
    · exact ⟨_, _, hw⟩
    · exact ih hvalues hv

theorem Go.validateEntries_eq_ok {depth count n : Nat} {entries : List (Value × Value)}
    {e : Value × Value} (h : validateEntries limits depth count entries = .ok n)
    (he : e ∈ entries) : e.1.isKey false = true ∧
      ∃ before after, validateValue limits (depth + 1) before e.2 = .ok after := by
  induction entries generalizing count with
  | nil => cases he
  | cons f entries ih =>
    obtain ⟨k, v⟩ := f
    simp only [validateEntries, guard_eq_ok, bind_eq_ok, Bool.not_eq_false] at h
    obtain ⟨hkey, m, hv, hentries⟩ := h
    obtain rfl | he := List.mem_cons.1 he
    · exact ⟨hkey, _, _, hv⟩
    · exact ih hentries he

/-- What Go validates is plain. -/
theorem Go.plain_of_validateValue (hv : Distinct v) {depth count n : Nat}
    (h : validateValue limits depth count v = .ok n) : Plain v := by
  induction hv generalizing depth count n with
  | null => exact .null
  | bool b => exact .bool b
  | int k =>
    simp only [validateValue, bind_eq_ok, guard_eq_ok] at h
    obtain ⟨_, _, hsafe, _⟩ := h
    exact .int k (by omega)
  | text s => exact .text s
  | bytes b => exact .bytes b
  | array values _ ih =>
    simp only [validateValue, bind_eq_ok, guard_eq_ok] at h
    obtain ⟨_, _, _, hvalues⟩ := h
    refine .array values fun w hw => ?_
    obtain ⟨_, _, hvalue⟩ := validateValues_eq_ok hvalues hw
    exact ih w hw hvalue
  | map entries hdistinct _ ih =>
    simp only [validateValue, bind_eq_ok, guard_eq_ok] at h
    obtain ⟨_, _, _, hentries⟩ := h
    refine .map entries (fun e he => (validateEntries_eq_ok hentries he).1) hdistinct
      fun e he => ?_
    obtain ⟨_, _, _, hvalue⟩ := validateEntries_eq_ok hentries he
    exact ih e he hvalue
  | tag t value _ _ =>
    simp only [validateValue, bind_eq_ok] at h
    obtain ⟨_, _, h⟩ := h
    cases h

mutual

/-- Go validates what is within the limits, with a counter that passes over keys. -/
theorem Go.validateValue_of_within {depth : Nat} (count : Nat) (v : Value)
    (hitems : (count + v.items : Nat) ≤ limits.maximumItems) (h : Within limits depth v) :
    ∃ n ≤ count + v.items, validateValue limits depth count v = .ok n := by
  have hdepth := h.depth_le
  have hpos := Cbor.items_pos v
  have hitem : validateItem limits depth (count + 1) = .ok () :=
    validateItem_eq_ok.2 ⟨by omega, hdepth⟩
  cases v with
  | null | bool b | text s | bytes b =>
    simp only [validateValue, hitem, ok_bind, Except.ok.injEq]
    exact ⟨_, by omega, rfl⟩
  | int n =>
    simp only [Within] at h
    simp only [validateValue, hitem, ok_bind, guard_eq_ok, Except.ok.injEq]
    exact ⟨_, by omega, by omega, rfl⟩
  | array values =>
    simp only [Within] at h
    simp only [Value.items] at hitems ⊢
    obtain ⟨n, hn, hvalues⟩ := validateValues_of_within (count + 1) values (by omega) h.2.2
    simp only [validateValue, hitem, ok_bind, guard_eq_ok, hvalues]
    exact ⟨n, by omega, by omega, rfl⟩
  | map entries =>
    simp only [Within] at h
    simp only [Value.items] at hitems ⊢
    obtain ⟨n, hn, hentries⟩ := validateEntries_of_within (count + 1) entries (by omega) h.2.2
    simp only [validateValue, hitem, ok_bind, guard_eq_ok, hentries]
    exact ⟨n, by omega, by omega, rfl⟩
  | tag t v => simp only [Within] at h

theorem Go.validateValues_of_within {depth : Nat} (count : Nat) (values : List Value)
    (hitems : (count + itemsSum values : Nat) ≤ limits.maximumItems)
    (h : WithinAll limits (depth + 1) values) :
    ∃ n ≤ count + itemsSum values, validateValues limits depth count values = .ok n := by
  cases values with
  | nil => exact ⟨count, Nat.le_add_right _ _, rfl⟩
  | cons v values =>
    simp only [WithinAll] at h
    simp only [itemsSum] at hitems ⊢
    obtain ⟨m, hm, hv⟩ := validateValue_of_within count v (by omega) h.1
    obtain ⟨n, hn, hvalues⟩ := validateValues_of_within m values (by omega) h.2
    simp only [validateValues, hv, ok_bind, hvalues]
    exact ⟨n, by omega, rfl⟩

theorem Go.validateEntries_of_within {depth : Nat} (count : Nat)
    (entries : List (Value × Value))
    (hitems : (count + entryItems entries : Nat) ≤ limits.maximumItems)
    (h : WithinEntries limits (depth + 1) entries) :
    ∃ n ≤ count + entryItems entries, validateEntries limits depth count entries = .ok n := by
  cases entries with
  | nil => exact ⟨count, Nat.le_add_right _ _, rfl⟩
  | cons e entries =>
    obtain ⟨k, v⟩ := e
    simp only [WithinEntries] at h
    simp only [entryItems] at hitems ⊢
    obtain ⟨m, hm, hv⟩ := validateValue_of_within count v (by omega) h.2.2.1
    obtain ⟨n, hn, hentries⟩ := validateEntries_of_within m entries (by omega) h.2.2.2
    simp only [validateEntries, h.1, Bool.true_eq_false, if_false, hv, ok_bind, hentries]
    exact ⟨n, by omega, rfl⟩

end

theorem Go.lengthFirstEncodings_eq_map (values : List Value) :
    lengthFirstEncodings values = values.map lengthFirstEncoding := by
  induction values with
  | nil => rfl
  | cons v values ih => rw [lengthFirstEncodings, ih, List.map_cons]

theorem Go.lengthFirstPairs_eq_map (entries : List (Value × Value)) :
    lengthFirstPairs entries =
      entries.map fun e => (lengthFirstEncoding e.1, lengthFirstEncoding e.2) := by
  induction entries with
  | nil => rfl
  | cons e entries ih =>
    obtain ⟨k, v⟩ := e
    rw [lengthFirstPairs, ih, List.map_cons]

/-- The order of the keys does not change the length of an encoding. -/
theorem Go.length_lengthFirstEncoding (hv : Plain v) :
    (lengthFirstEncoding v).length = v.encoding.length := by
  induction hv with
  | null | bool b | int n _ | text s | bytes b => rfl
  | array values _ ih =>
    rw [lengthFirstEncoding, lengthFirstEncodings_eq_map, Cbor.encoding_array,
      List.length_append, List.length_append, List.length_flatten, List.length_flatten,
      List.map_map, List.map_map]
    congr 2
    exact List.map_congr_left ih
  | map entries hkeys _ _ ih =>
    rw [lengthFirstEncoding, lengthFirstPairs_eq_map, Cbor.encoding_map, List.length_append,
      List.length_append, length_entries, List.length_flatten, List.map_map,
      ((List.perm_insertionSort _ _).map _).sum_eq, List.map_map]
    congr 2
    refine List.map_congr_left fun e he => ?_
    obtain ⟨s, hs⟩ := isKey_iff.1 (hkeys e he)
    simp only [Function.comp_apply, List.length_append, ih e he, hs, lengthFirstEncoding,
      Cbor.entryEncoding]

/-- The keys of a plain value are texts, so both orders of keys give one encoding. -/
theorem Go.lengthFirstEncoding_eq (hv : Plain v) (hsize : v.encoding.length ≤ maxSafe) :
    lengthFirstEncoding v = v.encoding := by
  induction hv with
  | null | bool b | int n _ | text s | bytes b => rfl
  | array values _ ih =>
    rw [lengthFirstEncoding, lengthFirstEncodings_eq_map, Cbor.encoding_array]
    congr 2
    exact List.map_congr_left fun w hw => ih w hw ((length_array_lt.2 w hw).le.trans hsize)
  | map entries hkeys hdistinct hvalues ih =>
    have hvalue (e : Value × Value) (he : e ∈ entries) : e.2.encoding.length ≤ maxSafe :=
      (length_member_lt (List.mem_append_right _ (List.mem_map_of_mem he))).le.trans hsize
    have hkey (e : Value × Value) (he : e ∈ entries) : ∃ s, e.1 = .text s ∧
        (asBytes s).length < 2 ^ 64 := by
      obtain ⟨s, hs⟩ := isKey_iff.1 (hkeys e he)
      have hle := (length_member_lt (v := .map entries)
        (List.mem_append_left _ (List.mem_map_of_mem he))).le.trans hsize
      rw [hs, Value.encoding, List.length_append] at hle
      exact ⟨s, hs, by unfold maxSafe at hle; omega⟩
    have hpairs : lengthFirstPairs entries = encodingPairs entries := by
      rw [lengthFirstPairs_eq_map, Cbor.encodingPairs_eq_map]
      refine List.map_congr_left fun e he => ?_
      obtain ⟨s, hs, _⟩ := hkey e he
      rw [ih e he (hvalue e he), hs]
      rfl
    have hsort : (encodingPairs entries).insertionSort (fun a b => LengthFirst a.1 b.1) =
        (encodingPairs entries).insertionSort (fun a b => a.1 ≤ b.1) := by
      have hmap := List.map_insertionSort
        (r := fun a b : List UInt8 × List UInt8 => LengthFirst a.1 b.1)
        (s := fun a b : List UInt8 × List UInt8 => a.1 ≤ b.1) id (encodingPairs entries) ?_
      · rwa [List.map_id, List.map_id] at hmap
      · rw [Cbor.encodingPairs_eq_map]
        intro a ha b hb
        obtain ⟨e, he, rfl⟩ := List.mem_map.1 ha
        obtain ⟨f, hf, rfl⟩ := List.mem_map.1 hb
        obtain ⟨s, hs, hslt⟩ := hkey e he
        obtain ⟨t, ht, htlt⟩ := hkey f hf
        rw [hs, ht]
        exact Cbor.lengthFirst_text hslt htlt
    rw [lengthFirstEncoding, Value.encoding, hpairs, hsort]

/-- Go decodes exactly the encodings of values within the limits that keep the bounds of its
library. -/
theorem Go.decodeDeterministicWithLimits_eq_ok (hcbor : cbor.Strict)
    (hlimits : validateLimits limits = .ok ()) (hdata : data.length ≤ maxSafe) :
    decodeDeterministicWithLimits cbor data limits = .ok v ↔
      (Canonical v ∧ data = v.encoding ∧ TypeScript.assertHailValue v limits = .ok ()) ∧
        cbor.admits v = true := by
  constructor
  · intro h
    simp only [decodeDeterministicWithLimits, hlimits, ok_bind, guard_eq_ok, bind_eq_ok] at h
    obtain ⟨_, _, hscan, h⟩ := h
    cases hdecode : cbor.unmarshal data with
    | error message =>
      rw [hdecode] at h
      cases h
    | ok value =>
      rw [hdecode] at h
      simp only [bind_eq_ok] at h
      obtain ⟨n, hvalidate, h⟩ := h
      have hplain := plain_of_validateValue (hcbor.unmarshal_distinct _ _ hdecode) hvalidate
      rw [hcbor.marshal_eq value hplain] at h
      simp only [guard_eq_ok, ne_eq, not_not, Except.ok.injEq] at h
      obtain ⟨hencode, rfl⟩ := h
      have hsize : value.encoding.length ≤ maxSafe := by
        rw [← length_lengthFirstEncoding hplain, ← hencode]
        exact hdata
      rw [lengthFirstEncoding_eq hplain hsize] at hencode
      subst hencode
      have hassert : TypeScript.assertHailValue value limits = .ok () := by
        rw [TypeScript.assertHailValue_eq_ok, TypeScript.encodedSize_eq_length hplain,
          ← scanCBOR_eq_ok hplain hdata]
        exact hscan
      cases hfits : cbor.admits value with
      | true =>
        rw [hcbor.unmarshal_encoding value hplain hdata hfits, Except.ok.injEq] at hdecode
        exact ⟨⟨⟨hplain, hdecode⟩, rfl, hassert⟩, rfl⟩
      | false =>
        obtain ⟨e, he⟩ := hcbor.unmarshal_beyond value hplain hdata hfits
        rw [he] at hdecode
        cases hdecode
  · rintro ⟨⟨⟨hplain, hsorted⟩, rfl, hassert⟩, hfits⟩
    have hscan : scanCBOR v.encoding limits false true = .ok () := by
      rw [scanCBOR_eq_ok hplain hdata, ← TypeScript.encodedSize_eq_length hplain,
        ← TypeScript.assertHailValue_eq_ok]
      exact hassert
    rw [TypeScript.assertHailValue_eq_ok, TypeScript.encodedSize_eq_length hplain] at hassert
    have hitems : ((0 + v.items : Nat) : Int) ≤ limits.maximumItems := by
      rw [Nat.zero_add]
      exact hassert.1
    obtain ⟨n, _, hvalidate⟩ := validateValue_of_within 0 v hitems hassert.2.1
    simp only [decodeDeterministicWithLimits, hlimits, ok_bind,
      if_neg (not_lt.2 hassert.2.2), hscan, hcbor.unmarshal_encoding v hplain hdata hfits, hsorted,
      hvalidate, hcbor.marshal_eq v hplain, lengthFirstEncoding_eq hplain hdata]
    rw [if_neg (not_not.2 rfl)]

/-- The two decoders agree on the bytes exactly when these encode no value within the limits that
is beyond the bounds of the library of Go. -/
theorem decoders_agreement (hcborg : cborg.Strict) (hcbor : cbor.Strict)
    (hlimits : Go.validateLimits limits = .ok ()) (hdata : data.length ≤ maxSafe) :
    (∀ v, TypeScript.decodeDeterministic cborg data limits = .ok v ↔
        Go.decodeDeterministicWithLimits cbor data limits = .ok v) ↔
      ∀ v, Canonical v → data = v.encoding → TypeScript.assertHailValue v limits = .ok () →
        cbor.admits v = true := by
  simp only [TypeScript.decodeDeterministic_eq_ok hcborg hdata,
    Go.decodeDeterministicWithLimits_eq_ok hcbor hlimits hdata]
  constructor
  · intro h v hcanonical hencoding hassert
    exact ((h v).1 ⟨hcanonical, hencoding, hassert⟩).2
  · intro h v
    exact ⟨fun hv => ⟨hv, h v hv.1 hv.2.1 hv.2.2⟩, fun hv => hv.1⟩

end Decoding

end HailProto.Codec
