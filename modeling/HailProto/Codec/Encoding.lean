import HailProto.Codec.HailValue
import HailProto.Cbor.Roundtrip

/-!
# Plain values and the size of their encodings

A `Plain` value is what both languages hold and encode: no tags, safe integers, and maps whose
keys are distinct texts. The computed size of a plain value is the length of its deterministic
encoding, and the limits a plain value is held to do not depend on the order of map entries.
-/

namespace HailProto.Codec

open Cbor (Value head maxSafe asBytes sortEntries sortEntries_perm entryEncoding)

/-- A Hail value: safe integers, and maps with distinct texts as keys. -/
inductive Plain : Value → Prop
  | null : Plain .null
  | bool (b : Bool) : Plain (.bool b)
  | int (n : Int) (hsafe : n.natAbs ≤ maxSafe) : Plain (.int n)
  | text (s : String) : Plain (.text s)
  | bytes (b : List UInt8) : Plain (.bytes b)
  | array (values : List Value) (h : ∀ v ∈ values, Plain v) : Plain (.array values)
  | map (entries : List (Value × Value)) (hkeys : ∀ e ∈ entries, e.1.isKey false = true)
      (hdistinct : (entries.map Prod.fst).Nodup) (h : ∀ e ∈ entries, Plain e.2) :
      Plain (.map entries)

theorem isKey_iff {k : Value} : k.isKey false = true ↔ ∃ s, k = .text s := by
  cases k <;> simp [Cbor.Value.isKey]

/-- A plain value, or one of a signed wrapper: keys may be integers, and a tag 18 may be kept. -/
inductive Wire (tag18 : Bool) : Value → Prop
  | null : Wire tag18 .null
  | bool (b : Bool) : Wire tag18 (.bool b)
  | int (n : Int) (hsafe : n.natAbs ≤ maxSafe) : Wire tag18 (.int n)
  | text (s : String) : Wire tag18 (.text s)
  | bytes (b : List UInt8) : Wire tag18 (.bytes b)
  | array (values : List Value) (h : ∀ v ∈ values, Wire tag18 v) : Wire tag18 (.array values)
  | map (entries : List (Value × Value)) (hkeys : ∀ e ∈ entries, e.1.isKey true = true)
      (hdistinct : (entries.map Prod.fst).Nodup) (hfst : ∀ e ∈ entries, Wire tag18 e.1)
      (hsnd : ∀ e ∈ entries, Wire tag18 e.2) : Wire tag18 (.map entries)
  | tag (value : Value) (htag : tag18 = true) (h : Wire tag18 value) : Wire tag18 (.tag 18 value)

theorem Plain.wire {tag18 : Bool} {v : Value} (hv : Plain v) : Wire tag18 v := by
  induction hv with
  | null => exact .null
  | bool b => exact .bool b
  | int n hsafe => exact .int n hsafe
  | text s => exact .text s
  | bytes b => exact .bytes b
  | array values _ ih => exact .array values ih
  | map entries hkeys hdistinct _ ih =>
    refine .map entries (fun e he => ?_) hdistinct (fun e he => ?_) ih
    · obtain ⟨s, hs⟩ := isKey_iff.1 (hkeys e he)
      rw [hs]
      rfl
    · obtain ⟨s, hs⟩ := isKey_iff.1 (hkeys e he)
      rw [hs]
      exact .text s

section Order

variable {cose tag18 : Bool} {v : Value}

/-- An entry with the maps inside it in order. -/
def sortedEntry (e : Value × Value) : Value × Value := Prod.map Value.sorted Value.sorted e

theorem sorted_entries {entries : List (Value × Value)}
    (hkeys : ∀ e ∈ entries, e.1.isKey cose = true) :
    (Value.map entries).sorted = .map ((sortEntries entries).map sortedEntry) := by
  rw [Cbor.sorted_map, Cbor.sortEntries_map_sorted hkeys]
  rfl

theorem sortedEntry_fst {e : Value × Value} (hkey : e.1.isKey cose = true) :
    (sortedEntry e).1 = e.1 := Cbor.sorted_of_isKey hkey

theorem mem_sortEntries {entries : List (Value × Value)} {e : Value × Value} :
    e ∈ sortEntries entries ↔ e ∈ entries := (sortEntries_perm entries).mem_iff

theorem sortedEntries_fst {entries : List (Value × Value)}
    (hkeys : ∀ e ∈ entries, e.1.isKey cose = true) :
    ((sortEntries entries).map sortedEntry).map Prod.fst = (sortEntries entries).map Prod.fst := by
  rw [List.map_map]
  exact List.map_congr_left fun e he => sortedEntry_fst (hkeys e (mem_sortEntries.1 he))

/-- The order of the entries of a map does not change its encoding. -/
theorem Wire.encoding_sorted (hv : Wire tag18 v) : v.sorted.encoding = v.encoding := by
  induction hv with
  | null | bool b | int n _ | text s | bytes b => rfl
  | array values _ ih =>
    rw [Cbor.sorted_array, Cbor.encoding_array, Cbor.encoding_array, List.length_map,
      List.map_map]
    congr 2
    exact List.map_congr_left ih
  | map entries hkeys _ _ _ _ ih =>
    have hkeys' : ∀ e ∈ sortEntries entries, e.1.isKey true = true :=
      fun e he => hkeys e (mem_sortEntries.1 he)
    have hsorted : sortEntries (sortEntries entries) = sortEntries entries :=
      List.Pairwise.insertionSort_eq
        (List.pairwise_insertionSort (fun a b : Value × Value => a.1.encoding ≤ b.1.encoding) _)
    rw [sorted_entries hkeys, Cbor.encoding_map, Cbor.encoding_map, List.length_map,
      (sortEntries_perm entries).length_eq]
    have hcommute : sortEntries ((sortEntries entries).map sortedEntry) =
        (sortEntries entries).map sortedEntry := by
      have h := Cbor.sortEntries_map_sorted hkeys'
      rwa [hsorted] at h
    rw [hcommute, List.map_map]
    congr 2
    refine List.map_congr_left fun e he => ?_
    have hmem := mem_sortEntries.1 he
    rw [Function.comp_apply, entryEncoding, entryEncoding, sortedEntry_fst (hkeys e hmem)]
    congr 1
    exact ih e hmem
  | tag value _ _ ih => rw [Cbor.sorted_tag, Cbor.Value.encoding, Cbor.Value.encoding, ih]

/-- Maps in order are still maps with distinct keys. -/
theorem Wire.sorted (hv : Wire tag18 v) : Wire tag18 v.sorted := by
  induction hv with
  | null => exact .null
  | bool b => exact .bool b
  | int n hsafe => exact .int n hsafe
  | text s => exact .text s
  | bytes b => exact .bytes b
  | array values _ ih =>
    rw [Cbor.sorted_array]
    refine .array _ fun w hw => ?_
    obtain ⟨v, hv, rfl⟩ := List.mem_map.1 hw
    exact ih v hv
  | map entries hkeys hdistinct hfst _ _ ih =>
    rw [sorted_entries hkeys]
    refine .map _ ?_ ?_ ?_ ?_
    · rintro _ hw
      obtain ⟨e, he, rfl⟩ := List.mem_map.1 hw
      rw [sortedEntry_fst (hkeys e (mem_sortEntries.1 he))]
      exact hkeys e (mem_sortEntries.1 he)
    · rw [sortedEntries_fst hkeys]
      exact ((sortEntries_perm entries).map Prod.fst).nodup_iff.2 hdistinct
    · rintro _ hw
      obtain ⟨e, he, rfl⟩ := List.mem_map.1 hw
      rw [sortedEntry_fst (hkeys e (mem_sortEntries.1 he))]
      exact hfst e (mem_sortEntries.1 he)
    · rintro _ hw
      obtain ⟨e, he, rfl⟩ := List.mem_map.1 hw
      exact ih e (mem_sortEntries.1 he)
  | tag value htag _ ih =>
    rw [Cbor.sorted_tag]
    exact .tag _ htag ih

theorem Plain.encoding_sorted (hv : Plain v) : v.sorted.encoding = v.encoding :=
  Wire.encoding_sorted (hv.wire : Wire false v)

end Order

section Size

/-- The computed size of an argument is the length of the shortest head. -/
theorem length_head (major : UInt8) (n : Nat) :
    (head major n).length = TypeScript.argumentSize n := by
  unfold head TypeScript.argumentSize
  by_cases h1 : n ≤ 23
  · rw [if_pos h1, if_pos (show n < 24 by omega)]
    rfl
  rw [if_neg h1, if_neg (show ¬n < 24 by omega)]
  by_cases h2 : n ≤ 255
  · rw [if_pos h2, if_pos h2]
    rfl
  rw [if_neg h2, if_neg h2]
  by_cases h3 : n ≤ 65535
  · rw [if_pos h3, if_pos h3, List.length_cons, length_beBytes]
  rw [if_neg h3, if_neg h3]
  by_cases h4 : n ≤ 4294967295
  · rw [if_pos h4, if_pos h4, List.length_cons, length_beBytes]
  · rw [if_neg h4, if_neg h4, List.length_cons, length_beBytes]

theorem length_head_pos {major : UInt8} {n : Nat} : 0 < (head major n).length := by
  rw [length_head, TypeScript.argumentSize]
  split_ifs <;> decide

theorem TypeScript.encodedSizes_eq_sum (values : List Value) :
    encodedSizes values = (values.map encodedSize).sum := by
  induction values with
  | nil => rfl
  | cons v values ih => rw [encodedSizes, ih, List.map_cons, List.sum_cons]

/-- The size of a text key and its value. -/
def TypeScript.entrySize (e : Value × Value) : Nat :=
  argumentSize (asBytes e.1.keyText).length + (asBytes e.1.keyText).length + encodedSize e.2

theorem TypeScript.encodedEntrySizes_eq_sum (entries : List (Value × Value)) :
    encodedEntrySizes entries = (entries.map entrySize).sum := by
  induction entries with
  | nil => rfl
  | cons e entries ih =>
    obtain ⟨k, v⟩ := e
    rw [encodedEntrySizes, ih, List.map_cons, List.sum_cons, entrySize]

theorem length_entries (entries : List (Value × Value)) :
    (((sortEntries entries).map entryEncoding).flatten).length =
      (entries.map fun e => (entryEncoding e).length).sum := by
  rw [List.length_flatten, List.map_map]
  exact ((sortEntries_perm entries).map _).sum_eq

/-- The computed size of a plain value is the length of its encoding. -/
theorem TypeScript.encodedSize_eq_length {v : Value} (hv : Plain v) :
    encodedSize v = v.encoding.length := by
  induction hv with
  | null => rfl
  | bool b => rfl
  | int n _ =>
    rw [encodedSize, Cbor.Value.encoding, length_head]
    by_cases hn : n < 0
    · rw [if_neg (by omega), if_pos hn]
    · rw [if_pos (by omega), if_neg hn]
  | text s => rw [encodedSize, Cbor.Value.encoding, List.length_append, length_head]
  | bytes b => rw [encodedSize, Cbor.Value.encoding, List.length_append, length_head]
  | array values _ ih =>
    rw [encodedSize, encodedSizes_eq_sum, Cbor.encoding_array, List.length_append, length_head,
      List.length_flatten, List.map_map, List.map_congr_left ih]
    rfl
  | map entries hkeys _ _ ih =>
    rw [encodedSize, encodedEntrySizes_eq_sum, Cbor.encoding_map, List.length_append,
      length_head, length_entries]
    congr 2
    refine List.map_congr_left fun e he => ?_
    obtain ⟨s, hs⟩ := isKey_iff.1 (hkeys e he)
    rw [entrySize, ih e he, entryEncoding, List.length_append, hs, Cbor.Value.encoding,
      List.length_append, length_head]
    rfl

end Size

section Limits

variable {limits : ResourceLimits} {depth : Nat}

theorem withinAll_iff (values : List Value) :
    WithinAll limits depth values ↔ ∀ v ∈ values, Within limits depth v := by
  induction values with
  | nil => simp only [WithinAll, List.not_mem_nil, false_implies, implies_true]
  | cons v values ih => rw [WithinAll, ih, List.forall_mem_cons]

/-- What the limits ask of one entry of a map. -/
def EntryWithin (limits : ResourceLimits) (depth : Nat) (e : Value × Value) : Prop :=
  e.1.isKey false = true ∧ (asBytes e.1.keyText).length ≤ limits.maximumTextBytes ∧
    Within limits depth e.2

theorem withinEntries_iff (entries : List (Value × Value)) :
    WithinEntries limits depth entries ↔ ∀ e ∈ entries, EntryWithin limits depth e := by
  induction entries with
  | nil => simp only [WithinEntries, List.not_mem_nil, false_implies, implies_true]
  | cons e entries ih =>
    obtain ⟨k, v⟩ := e
    rw [WithinEntries, ih, List.forall_mem_cons, EntryWithin, and_assoc, and_assoc]

theorem Within.depth_le {v : Value} (h : Within limits depth v) : depth ≤ limits.maximumDepth := by
  cases v with
  | null => simpa only [Within] using h
  | bool b => simpa only [Within] using h
  | tag t v => simp only [Within] at h
  | int n | text s | bytes b | array values | map entries =>
    simp only [Within] at h
    exact h.1

/-- A key is within the limits when it is a text of a permitted size, since its value is at the
same depth. -/
theorem entryWithin_iff {e : Value × Value} (hkey : e.1.isKey false = true) :
    EntryWithin limits depth e ↔ Within limits depth e.1 ∧ Within limits depth e.2 := by
  obtain ⟨k, v⟩ := e
  obtain ⟨s, rfl⟩ := isKey_iff.1 hkey
  simp only [EntryWithin, Within]
  constructor
  · rintro ⟨_, hsize, hvalue⟩
    exact ⟨⟨hvalue.depth_le, hsize⟩, hvalue⟩
  · rintro ⟨⟨_, hsize⟩, hvalue⟩
    exact ⟨rfl, hsize, hvalue⟩

end Limits

end HailProto.Codec
