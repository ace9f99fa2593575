import HailProto.Codec.CommandLine
import HailProto.Codec.DiagnosticTypes
import HailProto.Codec.Redaction
import HailProto.Codec.Reference

/-!
# What inspection shows can be signed again

The JSON of an accepted payload is taken back as that payload: bytes stand only where the way back
looks for them, no member is a token, and the texts that stand for bytes leave the whole within the
limits of the JSON form. The largest grants need the bytes of their wrapper for that.
-/

namespace HailProto.Codec.Rust

open Cbor (Value Base64 JsonValue Limits decode encode fromJson asBytes maxSafe Shaped reading)

mutual

/-- The value that the JSON of a value stands for: its bytes are texts. -/
def shown (base64 : Base64) : Value → Value
  | .bytes b => .text (base64.encode b)
  | .array values => .array (shownAll base64 values)
  | .map entries => .map (shownEntries base64 entries)
  | v => v

def shownAll (base64 : Base64) : List Value → List Value
  | [] => []
  | v :: values => shown base64 v :: shownAll base64 values

def shownEntries (base64 : Base64) : List (Value × Value) → List (Value × Value)
  | [] => []
  | (k, v) :: entries => (k, shown base64 v) :: shownEntries base64 entries

end

/-- What a member that holds bytes may hold. -/
def HeldBytes (name : String) (v : Value) : Prop :=
  v = .null ∨ ∃ b, v = .bytes b ∧ (name ≠ "data" → b.length = 32)

/-- The bytes of a value stand where the way back looks for them, and no member is a token. -/
inductive Restorable : Value → Prop
  | null : Restorable .null
  | bool (b : Bool) : Restorable (.bool b)
  | int (n : Int) : Restorable (.int n)
  | text (s : String) : Restorable (.text s)
  | array {values : List Value} (h : ∀ v ∈ values, Restorable v) : Restorable (.array values)
  | map {entries : List (Value × Value)} (hkeys : ∀ e ∈ entries, e.1 = .text e.1.keyText)
      (htoken : ∀ e ∈ entries, e.1.keyText ≠ "token")
      (hheld : ∀ e ∈ entries, holdsBytes (isDigest entries) e.1.keyText = true →
        HeldBytes e.1.keyText e.2)
      (h : ∀ e ∈ entries, holdsBytes (isDigest entries) e.1.keyText = false → Restorable e.2) :
      Restorable (.map entries)

section Way

variable {base64 : Base64}

theorem shownAll_eq_map (values : List Value) :
    shownAll base64 values = values.map (shown base64) := by
  induction values with
  | nil => rfl
  | cons v values ih => rw [shownAll, ih, List.map_cons]

theorem shownEntries_eq_map (entries : List (Value × Value)) :
    shownEntries base64 entries = entries.map fun e => (e.1, shown base64 e.2) := by
  induction entries with
  | nil => rfl
  | cons e entries ih =>
    obtain ⟨k, v⟩ := e
    rw [shownEntries, ih, List.map_cons]

theorem integer_ofInt {n : Int} (h : n.natAbs ≤ maxSafe) :
    (Cbor.JsonNumber.ofInt n).integer = some n := by
  have hmax : maxSafe = 9007199254740991 := rfl
  unfold Cbor.JsonNumber.ofInt
  split_ifs with hn
  · have hsize : n.toNat < 2 ^ 64 := by omega
    have htoNat : (UInt64.ofNat n.toNat).toNat = n.toNat := UInt64.toNat_ofNat_of_lt' hsize
    rw [Cbor.JsonNumber.integer, htoNat, if_pos (by omega)]
    congr 1
    omega
  · rfl

/-- The JSON of a value stands for the value with its bytes as texts. -/
def ShowsAs (base64 : Base64) (v : Value) : Prop :=
  ∃ j, v.diagnostic base64 = some j ∧ j.toValue = some (shown base64 v)

theorem showsAs_values {values : List Value} (h : ∀ v ∈ values, ShowsAs base64 v) :
    ∃ js, Cbor.diagnosticValues base64 values = some js ∧
      Cbor.valuesOf js = some (shownAll base64 values) := by
  induction values with
  | nil => exact ⟨[], rfl, rfl⟩
  | cons v values ih =>
    rw [List.forall_mem_cons] at h
    obtain ⟨j, hj, hvalue⟩ := h.1
    obtain ⟨js, hjs, hvalues⟩ := ih h.2
    refine ⟨j :: js, ?_, ?_⟩
    · simp only [Cbor.diagnosticValues, hj, hjs]
    · exact Cbor.valuesOf_cons.2 ⟨_, _, hvalue, hvalues, rfl⟩

theorem showsAs_entries {entries : List (Value × Value)}
    (hkeys : ∀ e ∈ entries, e.1 = .text e.1.keyText)
    (htoken : ∀ e ∈ entries, e.1.keyText ≠ "token") (h : ∀ e ∈ entries, ShowsAs base64 e.2) :
    ∃ js, Cbor.diagnosticEntries base64 entries = some js ∧
      Cbor.entriesOf js = some (shownEntries base64 entries) := by
  induction entries with
  | nil => exact ⟨[], rfl, rfl⟩
  | cons e entries ih =>
    obtain ⟨k, v⟩ := e
    rw [List.forall_mem_cons] at h hkeys htoken
    obtain ⟨j, hj, hvalue⟩ := h.1
    obtain ⟨js, hjs, hvalues⟩ := ih hkeys.2 htoken.2 h.2
    obtain ⟨s, rfl⟩ : ∃ s, k = .text s := ⟨_, hkeys.1⟩
    have hne : s ≠ "token" := htoken.1
    refine ⟨(s, j) :: js, ?_, Cbor.entriesOf_cons.2 ⟨_, _, hvalue, hvalues, rfl⟩⟩
    rw [Cbor.diagnosticEntries, if_neg hne, hj, hjs]

theorem showsAs_bytes (b : List UInt8) : ShowsAs base64 (.bytes b) :=
  ⟨.string (base64.encode b), rfl, rfl⟩

/-- A restorable value is shown as itself with its bytes as texts. -/
theorem Restorable.showsAs {v : Value} (hv : Restorable v) (hplain : Plain v) :
    ShowsAs base64 v := by
  induction hv with
  | null => exact ⟨.null, rfl, rfl⟩
  | bool b => exact ⟨.bool b, rfl, rfl⟩
  | int n =>
    cases hplain with
    | int _ hsafe =>
      refine ⟨.number (.ofInt n), rfl, ?_⟩
      rw [Cbor.JsonValue.toValue, integer_ofInt hsafe]
      rfl
  | text s => exact ⟨.string s, rfl, rfl⟩
  | array _ ih =>
    cases hplain with
    | array _ hvalues =>
      obtain ⟨js, hjs, hvalues⟩ := showsAs_values fun v hv => ih v hv (hvalues v hv)
      refine ⟨.array js, ?_, Cbor.toValue_array.2 ⟨_, hvalues, rfl⟩⟩
      rw [Cbor.Value.diagnostic, hjs, Option.map_some]
  | @map entries hkeys htoken hheld _ ih =>
    cases hplain with
    | map _ _ _ hvalues =>
      have hentries (e : Value × Value) (he : e ∈ entries) : ShowsAs base64 e.2 := by
        cases hholds : holdsBytes (isDigest entries) e.1.keyText with
        | true =>
          rcases hheld e he hholds with hnull | ⟨b, hb, _⟩
          · rw [hnull]
            exact ⟨.null, rfl, rfl⟩
          · rw [hb]
            exact showsAs_bytes b
        | false => exact ih e he hholds (hvalues e he)
      obtain ⟨js, hjs, hshown⟩ := showsAs_entries hkeys htoken hentries
      refine ⟨.object js, ?_, Cbor.toValue_object.2 ⟨_, hshown, rfl⟩⟩
      rw [Cbor.Value.diagnostic, hjs, Option.map_some]

/-- Showing a map makes no digest of it. -/
theorem isDigest_shown {entries : List (Value × Value)} (h : ∀ e ∈ entries,
    e.1.isText "algorithm" = true → (shown base64 e.2).isText "sha-256" = e.2.isText "sha-256") :
    isDigest (shownEntries base64 entries) = isDigest entries := by
  induction entries with
  | nil => rfl
  | cons e entries ih =>
    obtain ⟨k, v⟩ := e
    rw [List.forall_mem_cons] at h
    have hrest : (shownEntries base64 entries).any
        (fun e => e.1.isText "algorithm" && e.2.isText "sha-256") =
        entries.any (fun e => e.1.isText "algorithm" && e.2.isText "sha-256") := ih h.2
    rw [isDigest, isDigest, shownEntries, List.any_cons, List.any_cons, hrest]
    dsimp only
    cases hk : k.isText "algorithm" with
    | true => rw [h.1 hk]
    | false => rfl

/-- The way back restores the bytes. -/
theorem Restorable.convert_shown {v : Value} (hv : Restorable v) :
    convert base64 (shown base64 v) = .ok v := by
  induction hv with
  | null => rfl
  | bool b => rfl
  | int n => rfl
  | text s => rfl
  | @array values _ ih =>
    have hvalues : convertValues base64 (shownAll base64 values) = .ok values := by
      clear * - ih
      induction values with
      | nil => rfl
      | cons v values ihs =>
        rw [List.forall_mem_cons] at ih
        rw [shownAll, convertValues, ih.1, ihs ih.2]
        rfl
    rw [shown, convert, hvalues]
    rfl
  | @map entries hkeys htoken hheld h ih =>
    have hdigest : isDigest (shownEntries base64 entries) = isDigest entries := by
      refine isDigest_shown fun e he hk => ?_
      have hname : holdsBytes (isDigest entries) e.1.keyText = false := by
        rw [Value.isText_iff] at hk
        rw [hk]
        rfl
      have hvalue := h e he hname
      generalize e.2 = v at hvalue ⊢
      cases hvalue <;> rfl
    have hentry : ∀ e ∈ entries, (if holdsBytes (isDigest entries) e.1.keyText = true then
        convertHeld base64 e.1.keyText (shown base64 e.2)
        else convert base64 (shown base64 e.2)) = .ok e.2 := by
      intro e he
      cases hholds : holdsBytes (isDigest entries) e.1.keyText with
      | true =>
        rw [if_pos rfl]
        rcases hheld e he hholds with hnull | ⟨b, hb, hlength⟩
        · rw [hnull]
          rfl
        · have hfits : ¬(e.1.keyText ≠ "data" ∧ b.length ≠ 32) :=
            fun hne => hne.2 (hlength hne.1)
          rw [hb, shown, convertHeld, decodeBase64, base64.decode_encode, ok_bind, if_neg hfits]
      | false => exact ih e he hholds
    have hentries (digest : Bool) : (∀ e ∈ entries, (if holdsBytes digest e.1.keyText = true then
        convertHeld base64 e.1.keyText (shown base64 e.2)
        else convert base64 (shown base64 e.2)) = .ok e.2) →
        convertEntries base64 digest (shownEntries base64 entries) = .ok entries := by
      clear * - hkeys
      intro hentry
      induction entries with
      | nil => rfl
      | cons e entries ihs =>
        obtain ⟨k, v⟩ := e
        rw [List.forall_mem_cons] at hkeys hentry
        obtain ⟨s, rfl⟩ : ∃ s, k = .text s := ⟨_, hkeys.1⟩
        have hvalue : (if holdsBytes digest s = true then
            convertHeld base64 s (shown base64 v) else convert base64 (shown base64 v)) =
            .ok v := hentry.1
        rw [shownEntries, convertEntries, Rust.text, ok_bind]
        simp only [hvalue, ok_bind, ihs hkeys.2 hentry.2]
    rw [shown, convert, hdigest, hentries _ hentry]
    rfl

end Way

section Size

open TypeScript (diagnosticSize diagnosticSizes diagnosticEntrySizes encodedSize encodedSizes
  encodedEntrySizes argumentSize)

variable {base64 : Base64}

theorem plain_of_shaped {limits : Limits} (hcose : limits.cose = false) {levels : Nat} {v : Value}
    (h : Shaped limits (reading false) levels v) : Plain v := by
  induction levels generalizing v with
  | zero => exact h.elim
  | succ levels ih =>
    cases v with
    | null => exact .null
    | bool b => exact .bool b
    | int n =>
      obtain ⟨hlow, hhigh⟩ := h
      exact .int n (by omega)
    | text s => exact .text s
    | bytes b => exact .bytes b
    | array values => exact .array values fun v hv => ih (h.2.2 v hv)
    | map entries =>
      have hdistinct := distinct_of_shaped h
      obtain ⟨_, _, _, hall⟩ := h
      cases hdistinct with
      | map _ hkeys _ =>
        refine .map entries (fun e he => ?_) hkeys fun e he => ih (hall e he).2.2
        rw [← hcose]
        exact (hall e he).1
    | tag t value => exact absurd h.1.1 Bool.false_ne_true

mutual

theorem encodedSize_shown (v : Value) : encodedSize (shown base64 v) = diagnosticSize v := by
  cases v with
  | bytes b => simp only [shown, encodedSize, base64.length_encode, diagnosticSize]
  | array values =>
    simp only [shown, encodedSize, encodedSizes_shownAll values, diagnosticSize]
    rw [shownAll_eq_map, List.length_map]
  | map entries =>
    simp only [shown, encodedSize, encodedEntrySizes_shownEntries entries, diagnosticSize]
    rw [shownEntries_eq_map, List.length_map]
  | _ => rfl

theorem encodedSizes_shownAll (values : List Value) :
    encodedSizes (shownAll base64 values) = diagnosticSizes values := by
  cases values with
  | nil => rfl
  | cons v values =>
    simp only [shownAll, encodedSizes, encodedSize_shown v, encodedSizes_shownAll values,
      diagnosticSizes]

theorem encodedEntrySizes_shownEntries (entries : List (Value × Value)) :
    encodedEntrySizes (shownEntries base64 entries) = diagnosticEntrySizes entries := by
  cases entries with
  | nil => rfl
  | cons e entries =>
    obtain ⟨k, v⟩ := e
    simp only [shownEntries, encodedEntrySizes, encodedSize_shown v,
      encodedEntrySizes_shownEntries entries, diagnosticEntrySizes]

end

mutual

theorem items_shown (v : Value) : (shown base64 v).items = v.items := by
  cases v with
  | array values => simp only [shown, Value.items, itemsSum_shownAll values]
  | map entries => simp only [shown, Value.items, entryItems_shownEntries entries]
  | _ => rfl

theorem itemsSum_shownAll (values : List Value) :
    Cbor.itemsSum (shownAll base64 values) = Cbor.itemsSum values := by
  cases values with
  | nil => rfl
  | cons v values => simp only [shownAll, Cbor.itemsSum, items_shown v, itemsSum_shownAll values]

theorem entryItems_shownEntries (entries : List (Value × Value)) :
    Cbor.entryItems (shownEntries base64 entries) = Cbor.entryItems entries := by
  cases entries with
  | nil => rfl
  | cons e entries =>
    obtain ⟨k, v⟩ := e
    simp only [shownEntries, Cbor.entryItems, items_shown v, entryItems_shownEntries entries]

end

theorem diagnosticSize_le_of_mem {values : List Value} {v : Value} (hv : v ∈ values) :
    diagnosticSize v ≤ diagnosticSizes values := by
  induction values with
  | nil => cases hv
  | cons w values ih =>
    rw [diagnosticSizes]
    obtain rfl | hv := List.mem_cons.1 hv
    · omega
    · have hle := ih hv
      omega

theorem diagnosticSize_le_of_entry {entries : List (Value × Value)} {e : Value × Value}
    (he : e ∈ entries) : diagnosticSize e.2 ≤ diagnosticEntrySizes entries := by
  induction entries with
  | nil => cases he
  | cons entry entries ih =>
    obtain ⟨k, v⟩ := entry
    rw [diagnosticEntrySizes]
    obtain rfl | he := List.mem_cons.1 he
    · dsimp only
      omega
    · have hle := ih he
      omega

/-- What is shown is within the limits of the JSON form as soon as it is short enough. -/
theorem shaped_shown {maximum : UInt64} {levels : Nat} {v : Value}
    (h : Shaped (.payload maximum) (reading false) levels v) (hsize : diagnosticSize v ≤ 262144) :
    Shaped (.payload 262144) (reading false) levels (shown base64 v) := by
  induction levels generalizing v with
  | zero => exact h.elim
  | succ levels ih =>
    cases v with
    | null | bool b | int n | text s => exact h
    | bytes b =>
      rw [diagnosticSize] at hsize
      have hlength : (asBytes (base64.encode b)).length ≤ 262144 := by
        rw [base64.length_encode]
        omega
      exact ⟨hlength, hlength.trans (by decide)⟩
    | array values =>
      rw [diagnosticSize] at hsize
      obtain ⟨hcount, hlength, hall⟩ := h
      rw [shown, shownAll_eq_map]
      refine ⟨by rwa [List.length_map], by rwa [List.length_map], fun w hw => ?_⟩
      obtain ⟨v, hv, rfl⟩ := List.mem_map.1 hw
      have hle := diagnosticSize_le_of_mem hv
      exact ih (hall v hv) (by omega)
    | map entries =>
      rw [diagnosticSize] at hsize
      obtain ⟨hcount, hlength, hkeys, hall⟩ := h
      rw [shown, shownEntries_eq_map]
      refine ⟨by rwa [List.length_map], by rwa [List.length_map], ?_, fun w hw => ?_⟩
      · rw [List.map_map]
        exact hkeys
      · obtain ⟨e, he, rfl⟩ := List.mem_map.1 hw
        obtain ⟨hkey, hfirst, hsecond⟩ := hall e he
        have hle := diagnosticSize_le_of_entry he
        refine ⟨hkey, ?_, ih hsecond (by omega)⟩
        obtain ⟨s, hs⟩ := isKey_iff.1 hkey
        rw [hs] at hfirst ⊢
        cases levels with
        | zero => exact hfirst.elim
        | succ levels => exact hfirst
    | tag t value => exact absurd h.1.1 Bool.false_ne_true

/-- The JSON of a payload is taken in if what it stands for is short enough. -/
theorem fromJson_diagnostic {b : List UInt8} {maximum : UInt64} {v : Value}
    (hdecode : decode b (.payload maximum) false = .ok v) (hv : Restorable v)
    (hsize : diagnosticSize v ≤ 262144) :
    ∃ j, v.diagnostic base64 = some j ∧ fromJson j = .ok (shown base64 v) := by
  obtain ⟨_, hshaped, hitems, _⟩ := Cbor.decode_eq_ok.1 hdecode
  obtain ⟨j, hj, hvalue⟩ : ShowsAs base64 v := hv.showsAs (plain_of_shaped rfl hshaped)
  have hshown : Shaped (.payload 262144) (reading false) 33 (shown base64 v) :=
    shaped_shown hshaped hsize
  have hlength : (shown base64 v).encoding.length ≤ 262144 := by
    rw [← TypeScript.encodedSize_eq_length (plain_of_shaped rfl hshown), encodedSize_shown]
    exact hsize
  have hagain : decode (shown base64 v).encoding (.payload 262144) false =
      .ok (shown base64 v) := by
    refine Cbor.decode_eq_ok.2 ⟨hlength, hshown, ?_, rfl⟩
    rw [items_shown]
    exact hitems
  have hencode := (Cbor.codec_canonical (.payload 262144) false).1 _ _ hagain
  exact ⟨j, hj, Cbor.fromJson_eq_ok.2 ⟨hvalue, _, hencode⟩⟩

end Size

end HailProto.Codec.Rust
