import HailProto.Codec.Decoder
import HailProto.Cbor.Roundtrip

/-!
# The command line codec as the library of the others

The reader of the command line codec, at its widest limits, is a strict decoder, and so has what
the other two codecs ask of their libraries. Bounded to 32 levels, 131072 elements and 131072
pairs, the defaults of `fxamacker/cbor`, it shows where Go refuses what TypeScript accepts.
-/

namespace HailProto.Codec

open Cbor (Value Shaped reading head maxSafe asBytes sortEntries sortEntries_perm entryEncoding)

/-- The widest limits of the reader. -/
def widestLimits : Cbor.Limits :=
  ⟨0xffffffffffffffff, 0xffffffffffffffff, 0xffffffffffffffff, 0xffffffffffffffff,
    0xffffffffffffffff, 0xffffffffffffffff, 0xffffffffffffffff, true⟩

section Shapes

variable {tag18 : Bool} {v : Value}

/-- Every item takes a byte of the encoding. -/
theorem Wire.items_le (hv : Wire tag18 v) : v.items ≤ v.encoding.length := by
  induction hv with
  | null => exact length_encoding_pos .null
  | bool b => exact length_encoding_pos (.bool b)
  | int n _ => exact length_encoding_pos (.int n)
  | text s => exact length_encoding_pos (.text s)
  | bytes b => exact length_encoding_pos (.bytes b)
  | array values _ ih =>
    have hpos : 0 < (head 4 values.length).length := length_head_pos
    have hle : (values.map Value.items).sum ≤ (values.map (List.length ∘ Value.encoding)).sum :=
      List.sum_le_sum ih
    rw [Cbor.items_array, Cbor.encoding_array, List.length_append, List.length_flatten,
      List.map_map]
    omega
  | map entries _ _ _ _ ihfst ihsnd =>
    have hpos : 0 < (head 5 entries.length).length := length_head_pos
    have hle : (entries.map fun e => e.1.items + e.2.items).sum ≤
        (entries.map fun e => (entryEncoding e).length).sum := by
      refine List.sum_le_sum fun e he => ?_
      rw [entryEncoding, List.length_append]
      exact Nat.add_le_add (ihfst e he) (ihsnd e he)
    rw [Cbor.items_map, Cbor.encoding_map, List.length_append, length_entries]
    omega
  | tag value _ _ ih =>
    have hpos : 0 < (head 6 (18 : UInt64).toNat).length := length_head_pos
    rw [Cbor.items_tag, Value.encoding, List.length_append]
    omega

/-- A value of a signed wrapper is what the reader makes of its encoding. -/
theorem Wire.shaped (hv : Wire tag18 v) {levels : Nat} (hlevels : v.encoding.length ≤ levels)
    (hsize : v.encoding.length ≤ maxSafe) :
    Shaped widestLimits (reading tag18) levels v.sorted := by
  have hwide : maxSafe ≤ widestLimits.text.toNat := by decide
  induction hv generalizing levels with
  | null | bool b => cases levels with
    | zero => cases hlevels
    | succ levels => trivial
  | int n hsafe => cases levels with
    | zero => exact absurd hlevels (not_le.2 (length_encoding_pos _))
    | succ levels => exact ⟨by omega, by omega⟩
  | text s => cases levels with
    | zero => exact absurd hlevels (not_le.2 (length_encoding_pos _))
    | succ levels =>
      rw [Value.encoding, List.length_append] at hsize
      exact ⟨le_trans (by omega) hwide, show (asBytes s).length ≤ maxSafe by omega⟩
  | bytes b => cases levels with
    | zero => exact absurd hlevels (not_le.2 (length_encoding_pos _))
    | succ levels =>
      rw [Value.encoding, List.length_append] at hsize
      exact ⟨le_trans (by omega) hwide, show b.length ≤ maxSafe by omega⟩
  | array values _ ih => cases levels with
    | zero => exact absurd hlevels (not_le.2 (length_encoding_pos _))
    | succ levels =>
      have hlength : values.length ≤ maxSafe := length_array_lt.1.le.trans hsize
      rw [Cbor.sorted_array]
      refine ⟨?_, ?_, fun w hw => ?_⟩
      · rw [List.length_map]
        exact hlength.trans hwide
      · rw [List.length_map]
        exact hlength
      · obtain ⟨u, hu, rfl⟩ := List.mem_map.1 hw
        have hlt := length_member_lt (v := .array values) hu
        exact ih u hu (by omega) (by omega)
  | map entries hkeys hdistinct hfst hsnd ihfst ihsnd => cases levels with
    | zero => exact absurd hlevels (not_le.2 (length_encoding_pos _))
    | succ levels =>
      have hlength : entries.length ≤ maxSafe := length_map_lt.1.le.trans hsize
      have hkey {e : Value × Value} (he : e ∈ entries) :
          Shaped widestLimits (reading tag18) levels e.1 := by
        have hlt := length_member_lt (v := .map entries)
          (List.mem_append_left _ (List.mem_map_of_mem he))
        have hshaped : Shaped widestLimits (reading tag18) levels e.1.sorted :=
          ihfst e he (by omega) (by omega)
        rwa [Cbor.sorted_of_isKey (hkeys e he)] at hshaped
      have hinj : ∀ k ∈ (sortEntries entries).map Prod.fst,
          ∀ l ∈ (sortEntries entries).map Prod.fst, k.encoding = l.encoding → k = l := by
        intro k hk l hl h
        obtain ⟨e, he, rfl⟩ := List.mem_map.1 hk
        obtain ⟨f, hf, rfl⟩ := List.mem_map.1 hl
        have happend : e.1.encoding ++ [] = f.1.encoding ++ [] := by
          rw [List.append_nil, List.append_nil, h]
        have heq := (Cbor.encoding_inj levels (hkey (mem_sortEntries.1 he)).writing
          (hkey (mem_sortEntries.1 hf)) happend).1
        rw [heq, Cbor.sorted_of_isKey (hkeys e (mem_sortEntries.1 he))]
      have hnodup : ((sortEntries entries).map fun e => e.1.encoding).Nodup := by
        have h := List.Nodup.map_on hinj
          (((sortEntries_perm entries).map Prod.fst).nodup_iff.2 hdistinct)
        rwa [List.map_map] at h
      have hascending : ((sortEntries entries).map fun e => e.1.encoding).Pairwise (· < ·) := by
        have hle : ((sortEntries entries).map fun e => e.1.encoding).Pairwise (· ≤ ·) :=
          List.pairwise_map.2 (List.pairwise_insertionSort
            (fun a b : Value × Value => a.1.encoding ≤ b.1.encoding) entries)
        exact hle.imp₂ (fun _ _ h hne => lt_of_le_of_ne h hne) hnodup
      rw [sorted_entries hkeys]
      refine ⟨?_, ?_, ?_, ?_⟩
      · rw [List.length_map, (sortEntries_perm entries).length_eq]
        exact hlength.trans hwide
      · rw [List.length_map, (sortEntries_perm entries).length_eq]
        exact hlength
      · have hfst' : ((sortEntries entries).map sortedEntry).map (fun e => e.1.encoding) =
            (sortEntries entries).map fun e => e.1.encoding := by
          rw [List.map_map]
          refine List.map_congr_left fun e he => ?_
          rw [Function.comp_apply, sortedEntry_fst (hkeys e (mem_sortEntries.1 he))]
        rw [hfst']
        exact hascending
      · rintro _ hw
        obtain ⟨e, he, rfl⟩ := List.mem_map.1 hw
        have hmem := mem_sortEntries.1 he
        have hlt := length_member_lt (v := .map entries)
          (List.mem_append_right _ (List.mem_map_of_mem hmem))
        rw [sortedEntry_fst (hkeys e hmem)]
        exact ⟨hkeys e hmem, hkey hmem, ihsnd e hmem (by omega) (by omega)⟩
  | tag value htag _ ih => cases levels with
    | zero => exact absurd hlevels (not_le.2 (length_encoding_pos _))
    | succ levels =>
      have hpos : 0 < (head 6 (18 : UInt64).toNat).length := length_head_pos
      rw [Value.encoding, List.length_append] at hlevels hsize
      rw [Cbor.sorted_tag]
      exact ⟨⟨htag, rfl⟩, ih (by omega) (by omega)⟩

/-- The reader takes no map with a duplicate key. -/
theorem distinct_of_shaped {limits : Cbor.Limits} {levels : Nat}
    (h : Shaped limits (reading tag18) levels v) : Distinct v := by
  induction levels generalizing v with
  | zero => exact h.elim
  | succ levels ih =>
    cases v with
    | null => exact .null
    | bool b => exact .bool b
    | int n => exact .int n
    | text s => exact .text s
    | bytes b => exact .bytes b
    | array values => exact .array values fun w hw => ih (h.2.2 w hw)
    | map entries =>
      obtain ⟨_, _, hascending, hall⟩ := h
      have hnodup : ((entries.map Prod.fst).map Value.encoding).Nodup := by
        rw [List.map_map]
        exact hascending.imp fun hlt => hlt.ne
      exact .map entries hnodup.of_map fun e he => ih (hall e he).2.2
    | tag t value => exact .tag t value (ih h.2)

end Shapes

section Libraries

variable {tag18 : Bool} {v : Value}

/-- The reader decodes the encoding of every value of a signed wrapper. -/
theorem Wire.decode_encoding (hv : Wire tag18 v) (hsize : v.encoding.length ≤ maxSafe) :
    Cbor.decode v.encoding widestLimits tag18 = .ok v.sorted := by
  have hwide : maxSafe ≤ widestLimits.bytes.toNat := by decide
  rw [Cbor.decode_eq_ok]
  refine ⟨hsize.trans hwide, hv.shaped ?_ hsize, ?_, hv.encoding_sorted.symm⟩
  · exact (hsize.trans hwide).trans (Nat.le_succ _)
  · have hle := hv.sorted.items_le
    rw [hv.encoding_sorted] at hle
    exact (hle.trans hsize).trans hwide

/-- The command line codec, as a library of TypeScript. -/
def commandLineCborg : TypeScript.Cborg where
  encode := Value.encoding
  decode tag18 bytes :=
    match Cbor.decode bytes widestLimits tag18 with
    | .ok v => .ok v
    | .error e => .error e.message

theorem commandLineCborg_strict : commandLineCborg.Strict where
  encode_eq _ _ := rfl
  decode_encoding tag18 v hv hsize := by
    simp only [commandLineCborg, hv.decode_encoding hsize]
  decode_distinct tag18 bytes v h := by
    simp only [commandLineCborg] at h
    split at h
    · rename_i w hw
      cases h
      exact distinct_of_shaped (Cbor.decode_eq_ok.1 hw).2.1
    · cases h

/-- The defaults of `fxamacker/cbor`. -/
def defaultBounds : Go.DecoderBounds := ⟨32, 131072, 131072⟩

/-- The command line codec within these bounds, as a library of Go. -/
def commandLineFxamacker : Go.Fxamacker where
  toDecoderBounds := defaultBounds
  marshal v := .ok (Go.lengthFirstEncoding v)
  unmarshal bytes :=
    match Cbor.decode bytes widestLimits false with
    | .ok v => if Go.fits defaultBounds 32 v then .ok v else .error "exceeded decoder bounds"
    | .error e => .error e.message

theorem Go.fitsAll_iff {bounds : DecoderBounds} {levels : Nat} {values : List Value} :
    fitsAll bounds levels values = true ↔ ∀ v ∈ values, fits bounds levels v = true := by
  induction values with
  | nil => simp [fitsAll]
  | cons v values ih => rw [fitsAll, Bool.and_eq_true, ih, List.forall_mem_cons]

theorem Go.fitsEntries_iff {bounds : DecoderBounds} {levels : Nat}
    {entries : List (Value × Value)} :
    fitsEntries bounds levels entries = true ↔
      ∀ e ∈ entries, fits bounds levels e.1 = true ∧ fits bounds levels e.2 = true := by
  induction entries with
  | nil => simp [fitsEntries]
  | cons e entries ih =>
    obtain ⟨k, v⟩ := e
    rw [fitsEntries, Bool.and_eq_true, Bool.and_eq_true, ih, List.forall_mem_cons]

/-- The bounds do not ask for the order of the entries of a map. -/
theorem Go.fits_sorted {bounds : DecoderBounds} {levels : Nat} (hv : Plain v) :
    fits bounds levels v.sorted = fits bounds levels v := by
  induction hv generalizing levels with
  | null | bool b | int n _ | text s | bytes b => rfl
  | array values _ ih =>
    rw [Bool.eq_iff_iff, Cbor.sorted_array]
    simp only [fits, Bool.and_eq_true, decide_eq_true_eq, fitsAll_iff, List.length_map,
      List.forall_mem_map]
    exact and_congr_right fun _ => forall₂_congr fun w hw => by rw [ih w hw]
  | map entries hkeys _ _ ih =>
    rw [Bool.eq_iff_iff, sorted_entries hkeys]
    simp only [fits, Bool.and_eq_true, decide_eq_true_eq, fitsEntries_iff, List.length_map,
      List.forall_mem_map, (sortEntries_perm entries).length_eq, mem_sortEntries]
    refine and_congr_right fun _ => forall₂_congr fun e he => ?_
    rw [sortedEntry_fst (hkeys e he), sortedEntry, Prod.map_snd, ih e he]

theorem commandLineFxamacker_strict : commandLineFxamacker.Strict where
  marshal_eq _ _ := rfl
  unmarshal_encoding v hv hsize hadmits := by
    have hfits : Go.fits defaultBounds 32 v.sorted = true := by
      rw [Go.fits_sorted hv]
      exact hadmits
    simp only [commandLineFxamacker, hv.wire.decode_encoding hsize, hfits, if_true]
  unmarshal_beyond v hv hsize hadmits := by
    have hfits : Go.fits defaultBounds 32 v.sorted = false := by
      rw [Go.fits_sorted hv]
      exact hadmits
    simp only [commandLineFxamacker, hv.wire.decode_encoding hsize, hfits, Bool.false_eq_true,
      if_false]
    exact ⟨_, rfl⟩
  unmarshal_distinct bytes v h := by
    simp only [commandLineFxamacker] at h
    split at h
    · rename_i w hw
      split at h
      · cases h
        exact distinct_of_shaped (Cbor.decode_eq_ok.1 hw).2.1
      · cases h
    · cases h

/-- Empty arrays, one inside the other. -/
def nested : Nat → Value
  | 0 => .array []
  | n + 1 => .array [nested n]

theorem canonical_nested (n : Nat) : Canonical (nested n) := by
  induction n with
  | zero => exact ⟨.array [] (by simp), rfl⟩
  | succ n ih =>
    refine ⟨.array _ (by simpa [nested] using ih.1), ?_⟩
    rw [nested, Cbor.sorted_array, List.map_singleton, ih.2]

theorem decoders_agreement_null :
    (∀ v, TypeScript.decodeDeterministic commandLineCborg [0xf6] defaultResourceLimits = .ok v ↔
        Go.decodeDeterministicWithLimits commandLineFxamacker [0xf6] defaultResourceLimits =
          .ok v) ↔
      ∀ v, Canonical v → [0xf6] = v.encoding →
        TypeScript.assertHailValue v defaultResourceLimits = .ok () →
          commandLineFxamacker.admits v = true :=
  decoders_agreement commandLineCborg_strict commandLineFxamacker_strict rfl (by decide)

/-- 33 nested arrays keep the default limits, and Go refuses them. -/
theorem decoders_nested_arrays :
    commandLineCborg.Strict ∧ commandLineFxamacker.Strict ∧
      Go.validateLimits defaultResourceLimits = .ok () ∧
      TypeScript.decodeDeterministic commandLineCborg (nested 32).encoding
        defaultResourceLimits = .ok (nested 32) ∧
      ¬Go.decodeDeterministicWithLimits commandLineFxamacker (nested 32).encoding
        defaultResourceLimits = .ok (nested 32) := by
  have hsize : (nested 32).encoding.length ≤ maxSafe := by decide
  refine ⟨commandLineCborg_strict, commandLineFxamacker_strict, rfl, ?_, ?_⟩
  · rw [TypeScript.decodeDeterministic_eq_ok commandLineCborg_strict hsize]
    exact ⟨canonical_nested 32, rfl, rfl⟩
  · rw [Go.decodeDeterministicWithLimits_eq_ok commandLineFxamacker_strict rfl hsize]
    rintro ⟨_, hadmits⟩
    cases hadmits

end Libraries

end HailProto.Codec
