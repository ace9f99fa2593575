import HailProto.Codec.Base64Url
import HailProto.Codec.Payload

/-!
# Diagnostic JSON

The conversion of `diagnostic.ts` between payloads and JSON. Byte strings become texts in
base64url, and are found again by the names of the members that hold them, so that only a value
that is `Recoverable` comes back. On the way back the JSON form is itself held to the resource
limits, on the longer texts.
-/

namespace HailProto.Codec

open Cbor (Value Value.items itemsSum entryItems asBytes)

/-- The value of a JavaScript program: no object has two members of one name. -/
inductive DistinctKeys : Value → Prop
  | null : DistinctKeys .null
  | bool (b : Bool) : DistinctKeys (.bool b)
  | int (n : Int) : DistinctKeys (.int n)
  | text (s : String) : DistinctKeys (.text s)
  | bytes (b : List UInt8) : DistinctKeys (.bytes b)
  | array {values : List Value} (h : ∀ v ∈ values, DistinctKeys v) : DistinctKeys (.array values)
  | map {entries : List (Value × Value)} (hkeys : (entries.map Prod.fst).Nodup)
      (h : ∀ e ∈ entries, DistinctKeys e.2) : DistinctKeys (.map entries)

/-- `HailValue`: objects with distinct members, arrays, bytes and scalars. -/
structure HailValue where
  value : Value
  distinct : DistinctKeys value

namespace TypeScript

mutual

def convertToDiagnostic (redactSecrets : Bool) : Value → Value
  | .bytes b => .text (String.ofList (encodeBase64Url b))
  | .array values => .array (convertItems redactSecrets values)
  | .map entries => .map (convertEntries redactSecrets entries)
  | v => v

def convertItems (redactSecrets : Bool) : List Value → List Value
  | [] => []
  | v :: values => convertToDiagnostic redactSecrets v :: convertItems redactSecrets values

def convertEntries (redactSecrets : Bool) : List (Value × Value) → List (Value × Value)
  | [] => []
  | (key, entry) :: entries =>
    (key, if redactSecrets && key.isText "token" then .text "[REDACTED]"
      else convertToDiagnostic redactSecrets entry) :: convertEntries redactSecrets entries

end

def toDiagnosticJson (lib : Libraries) (type : PayloadType) (value : Value)
    (redactSecrets : Bool) : Except HailCodecError Value := do
  assertHailValue value defaultResourceLimits
  validatePayload lib type value
  .ok (convertToDiagnostic redactSecrets value)

def invalidDiagnostic (message : String) : HailCodecError := ⟨"invalid-diagnostic-json", message, ""⟩

/-- `decodeBase64Url`, with its refusals. -/
def decodeBase64Url (value : List Char) (expectedLength : Option Nat) :
    Except HailCodecError (List UInt8) :=
  if !value.all alphabet.contains || value.length % 4 = 1 then
    .error (invalidDiagnostic "value is not unpadded base64url")
  else
    let d := value.foldl Decoding.push ⟨0, 0, []⟩
    let size := value.length * 6 / 8
    let output := d.output.take size ++ List.replicate (size - d.output.length) 0
    if d.bits > 0 ∧ d.accumulator &&& (1 <<< d.bits - 1) ≠ 0 then
      .error (invalidDiagnostic "value uses a noncanonical base64url tail")
    else if encodeBase64Url output ≠ value then
      .error (invalidDiagnostic "value is not canonical unpadded base64url")
    else
      match expectedLength with
      | none => .ok output
      | some length =>
        if output.length ≠ length then
          .error (invalidDiagnostic
            ("decoded value must contain exactly " ++ toString length ++ " bytes"))
        else .ok output

/-- Whether the text of a member holds bytes, and the length they must have. -/
def heldBytes (parent : Option Record) (key : Option String) : Option (Option Nat) :=
  if key = some "token" then some (some 32)
  else if key = some "previous" then some (some 32)
  else if key = some "data" then some none
  else if key = some "descriptor" then some none
  else if key = some "value" ∧
      strictEqual (parent.bind fun p => p.get "algorithm") (some (.text "sha-256")) = true then
    some (some 32)
  else none

/-- What `Object.entries` lists of a byte array. -/
def byteEntries (b : List UInt8) : List (Value × Value) :=
  b.zipIdx.map fun (x, index) => (.text (toString index), .int x.toNat)

mutual

def fromJson (parent : Option Record) (key : Option String) :
    Value → Except HailCodecError Value
  | .array values => do
      let items ← fromItems values
      .ok (.array items)
  | .map entries => do
      let output ← fromEntries entries entries
      .ok (.map output)
  | .bytes b => .ok (.map (byteEntries b))
  | .text s =>
    match heldBytes parent key with
    | some expectedLength => do
        let b ← decodeBase64Url s.toList expectedLength
        .ok (.bytes b)
    | none => .ok (.text s)
  | v => .ok v

/-- The elements of an array, which are read without a parent and a key. -/
def fromItems : List Value → Except HailCodecError (List Value)
  | [] => .ok []
  | v :: values => do
      let item ← fromJson none none v
      let items ← fromItems values
      .ok (item :: items)

/-- The members of an object, each read with the whole object. -/
def fromEntries (parent : Record) :
    List (Value × Value) → Except HailCodecError (List (Value × Value))
  | [] => .ok []
  | (childKey, childValue) :: entries => do
      let child ← fromJson (some parent) (some childKey.keyText) childValue
      let output ← fromEntries parent entries
      .ok ((childKey, child) :: output)

end

def fromDiagnosticJson (lib : Libraries) (type : PayloadType) (value : Value) :
    Except HailCodecError Value := do
  assertHailValue value defaultResourceLimits
  let result ← fromJson none none value
  validatePayload lib type result
  .ok result

end TypeScript

/-- The bytes of a value stand where the way back looks for them, with the length it asks for,
and its texts do not. -/
inductive Recoverable : Option (Option Nat) → Value → Prop
  | null {held : Option (Option Nat)} : Recoverable held .null
  | bool {held : Option (Option Nat)} (b : Bool) : Recoverable held (.bool b)
  | int {held : Option (Option Nat)} (n : Int) : Recoverable held (.int n)
  | text (s : String) : Recoverable none (.text s)
  | bytes {expected : Option Nat} {b : List UInt8} (h : ∀ n ∈ expected, b.length = n) :
      Recoverable (some expected) (.bytes b)
  | array {held : Option (Option Nat)} {values : List Value} (h : ∀ v ∈ values, Recoverable none v) :
      Recoverable held (.array values)
  | map {held : Option (Option Nat)} {entries : List (Value × Value)}
      (h : ∀ e ∈ entries,
        Recoverable (TypeScript.heldBytes (some entries) (some e.1.keyText)) e.2) :
      Recoverable held (.map entries)

namespace TypeScript

section RoundTrip

theorem decodeBase64Url_eq_ok {value : List Char} {expectedLength : Option Nat} {b : List UInt8} :
    decodeBase64Url value expectedLength = .ok b ↔
      Codec.decodeBase64Url value = some b ∧ ∀ n ∈ expectedLength, b.length = n := by
  unfold decodeBase64Url Codec.decodeBase64Url
  split
  · simp only [reduceCtorEq, false_and]
  · dsimp only
    split
    · simp only [reduceCtorEq, false_and]
    · split
      · simp only [reduceCtorEq, false_and]
      · cases expectedLength with
        | none => simp
        | some length =>
          simp only [Option.some.injEq, Option.mem_def, forall_eq', guard_eq_ok, not_not,
            Except.ok.injEq]
          constructor
          · rintro ⟨hlength, rfl⟩
            exact ⟨rfl, hlength⟩
          · rintro ⟨rfl, hlength⟩
            exact ⟨hlength, rfl⟩

theorem convertItems_eq_map (redactSecrets : Bool) (values : List Value) :
    convertItems redactSecrets values = values.map (convertToDiagnostic redactSecrets) := by
  induction values with
  | nil => rfl
  | cons v values ih => rw [convertItems, ih, List.map_cons]

theorem convertEntries_eq_map (entries : List (Value × Value)) :
    convertEntries false entries = entries.map fun e => (e.1, convertToDiagnostic false e.2) := by
  induction entries with
  | nil => rfl
  | cons e entries ih =>
    obtain ⟨key, entry⟩ := e
    simp only [convertEntries, Bool.false_and, Bool.false_eq_true, if_false, ih, List.map_cons]

theorem get_convertEntries (r : Record) (k : String) :
    Record.get (convertEntries false r) k = (r.get k).map (convertToDiagnostic false) := by
  rw [convertEntries_eq_map]
  simp only [Record.get, List.find?_map, Option.map_map]
  rfl

/-- The names under which a text can hold bytes. -/
def byteNames : List String := ["token", "previous", "data", "descriptor", "value"]

theorem heldBytes_eq_none {parent : Option Record} {k : String} (h : k ∉ byteNames) :
    heldBytes parent (some k) = none := by
  simp only [byteNames, List.mem_cons, List.not_mem_nil, or_false, not_or] at h
  simp [heldBytes, h]

/-- The conversion keeps the name of an algorithm, and makes none. -/
theorem heldBytes_convertEntries {r : Record} (k : String)
    (h : ∀ v, r.get "algorithm" = some v → Recoverable none v) :
    heldBytes (some (convertEntries false r)) (some k) = heldBytes (some r) (some k) := by
  have halgorithm : strictEqual (Record.get (convertEntries false r) "algorithm")
        (some (.text "sha-256")) = true ↔
      strictEqual (r.get "algorithm") (some (.text "sha-256")) = true := by
    rw [strictEqual_text, strictEqual_text, get_convertEntries]
    cases hv : r.get "algorithm" with
    | none => simp
    | some v =>
      cases h v hv <;> simp [convertToDiagnostic]
  simp only [heldBytes, Option.bind_some, halgorithm]

theorem fromItems_eq_ok {values : List Value}
    (h : ∀ v ∈ values, fromJson none none (convertToDiagnostic false v) = .ok v) :
    fromItems (convertItems false values) = .ok values := by
  induction values with
  | nil => rfl
  | cons v values ih =>
    rw [List.forall_mem_cons] at h
    rw [convertItems, fromItems, h.1, ih h.2]
    rfl

theorem fromEntries_eq_ok {parent : Record} {entries : List (Value × Value)}
    (h : ∀ e ∈ entries, fromJson (some parent) (some e.1.keyText)
      (convertToDiagnostic false e.2) = .ok e.2) :
    fromEntries parent (convertEntries false entries) = .ok entries := by
  induction entries with
  | nil => rfl
  | cons e entries ih =>
    obtain ⟨key, entry⟩ := e
    rw [List.forall_mem_cons] at h
    have hentry : fromJson (some parent) (some key.keyText) (convertToDiagnostic false entry) =
      .ok entry := h.1
    simp only [convertEntries, Bool.false_and, Bool.false_eq_true, if_false, fromEntries,
      hentry, ih h.2, ok_bind]

theorem fromJson_bytes {parent : Option Record} {key : Option String} {expected : Option Nat}
    {b : List UInt8} (hheld : heldBytes parent key = some expected)
    (h : ∀ n ∈ expected, b.length = n) :
    fromJson parent key (convertToDiagnostic false (.bytes b)) = .ok (.bytes b) := by
  have hdecode : decodeBase64Url (encodeBase64Url b) expected = .ok b :=
    decodeBase64Url_eq_ok.2 ⟨decode_encodeBase64Url b, h⟩
  simp only [convertToDiagnostic, fromJson, hheld, String.toList_ofList, hdecode, ok_bind]

/-- A recoverable value comes back from its diagnostic form. -/
theorem fromJson_convertToDiagnostic {held : Option (Option Nat)} {v : Value}
    (h : Recoverable held v) {parent : Option Record} {key : Option String}
    (hheld : heldBytes parent key = held) :
    fromJson parent key (convertToDiagnostic false v) = .ok v := by
  induction h generalizing parent key with
  | null => rfl
  | bool b => rfl
  | int n => rfl
  | text s => simp only [convertToDiagnostic, fromJson, hheld]
  | bytes hlength => exact fromJson_bytes hheld hlength
  | array h ih =>
    have hitems := fromItems_eq_ok fun v hv => ih v hv rfl
    simp only [convertToDiagnostic, fromJson, hitems, ok_bind]
  | @map held entries h ih =>
    have halgorithm (v : Value) (hv : Record.get entries "algorithm" = some v) :
        Recoverable none v := by
      have hentry := h _ (Record.mem_of_get hv)
      have hname : "algorithm" ∉ byteNames := by decide
      rwa [show (Value.text "algorithm", v).1.keyText = "algorithm" from rfl,
        heldBytes_eq_none hname] at hentry
    have hentries : fromEntries (convertEntries false entries) (convertEntries false entries) =
        .ok entries :=
      fromEntries_eq_ok fun e he => ih e he (heldBytes_convertEntries e.1.keyText halgorithm)
    simp only [convertToDiagnostic, fromJson, hentries, ok_bind]

end RoundTrip

section Size

mutual

/-- The encoded size of a value in which every byte string is counted as a text of its base64url
letters. -/
def diagnosticSize : Value → Nat
  | .bytes b => argumentSize ((b.length * 4 + 2) / 3) + (b.length * 4 + 2) / 3
  | .array values => argumentSize values.length + diagnosticSizes values
  | .map entries => argumentSize entries.length + diagnosticEntrySizes entries
  | v => encodedSize v

def diagnosticSizes : List Value → Nat
  | [] => 0
  | v :: values => diagnosticSize v + diagnosticSizes values

def diagnosticEntrySizes : List (Value × Value) → Nat
  | [] => 0
  | (k, v) :: entries =>
    argumentSize (asBytes k.keyText).length + (asBytes k.keyText).length + diagnosticSize v +
      diagnosticEntrySizes entries

end

theorem length_asBytes_of_ascii {s : String} (h : IsAscii s) :
    (asBytes s).length = s.toList.length := by
  have hcodes := congrArg List.length (utf8_of_ascii h)
  simpa only [utf8, codes, List.length_map] using hcodes

theorem length_asBytes_encodeBase64Url (b : List UInt8) :
    (asBytes (String.ofList (encodeBase64Url b))).length = (b.length * 4 + 2) / 3 := by
  have hall : alphabet.all (fun c => decide (c.toNat < 128)) = true := by rfl
  have hascii : IsAscii (String.ofList (encodeBase64Url b)) := by
    intro c hc
    rw [String.toList_ofList] at hc
    exact of_decide_eq_true (List.all_eq_true.1 hall c (encodeBase64Url_alphabet b c hc))
  rw [length_asBytes_of_ascii hascii, String.toList_ofList, length_encodeBase64Url]

theorem length_convertEntries (entries : List (Value × Value)) :
    (convertEntries false entries).length = entries.length := by
  rw [convertEntries_eq_map, List.length_map]

mutual

theorem encodedSize_convertToDiagnostic (v : Value) :
    encodedSize (convertToDiagnostic false v) = diagnosticSize v := by
  cases v with
  | bytes b =>
    simp only [convertToDiagnostic, encodedSize, length_asBytes_encodeBase64Url, diagnosticSize]
  | array values =>
    simp only [convertToDiagnostic, encodedSize, encodedSizes_convertItems values,
      diagnosticSize]
    rw [convertItems_eq_map, List.length_map]
  | map entries =>
    simp only [convertToDiagnostic, encodedSize, length_convertEntries,
      encodedSizes_convertEntries entries, diagnosticSize]
  | _ => rfl

theorem encodedSizes_convertItems (values : List Value) :
    encodedSizes (convertItems false values) = diagnosticSizes values := by
  cases values with
  | nil => rfl
  | cons v values =>
    simp only [convertItems, encodedSizes, encodedSize_convertToDiagnostic v,
      encodedSizes_convertItems values, diagnosticSizes]

theorem encodedSizes_convertEntries (entries : List (Value × Value)) :
    encodedEntrySizes (convertEntries false entries) = diagnosticEntrySizes entries := by
  cases entries with
  | nil => rfl
  | cons e entries =>
    obtain ⟨k, v⟩ := e
    simp only [convertEntries, Bool.false_and, Bool.false_eq_true, if_false, encodedEntrySizes,
      encodedSize_convertToDiagnostic v, encodedSizes_convertEntries entries,
      diagnosticEntrySizes]

end

mutual

theorem items_convertToDiagnostic (v : Value) : (convertToDiagnostic false v).items = v.items := by
  cases v with
  | array values =>
    simp only [convertToDiagnostic, Value.items, itemsSum_convertItems values]
  | map entries =>
    simp only [convertToDiagnostic, Value.items, entryItems_convertEntries entries]
  | _ => rfl

theorem itemsSum_convertItems (values : List Value) :
    itemsSum (convertItems false values) = itemsSum values := by
  cases values with
  | nil => rfl
  | cons v values =>
    simp only [convertItems, itemsSum, items_convertToDiagnostic v,
      itemsSum_convertItems values]

theorem entryItems_convertEntries (entries : List (Value × Value)) :
    entryItems (convertEntries false entries) = entryItems entries := by
  cases entries with
  | nil => rfl
  | cons e entries =>
    obtain ⟨k, v⟩ := e
    simp only [convertEntries, Bool.false_and, Bool.false_eq_true, if_false, entryItems,
      items_convertToDiagnostic v, entryItems_convertEntries entries]

end

variable {limits : ResourceLimits}

mutual

/-- A diagnostic form that fits as a whole has no text that is too large. -/
theorem within_convertToDiagnostic {depth : Nat} (v : Value) (h : Within limits depth v)
    (hsize : diagnosticSize v ≤ limits.maximumTextBytes) :
    Within limits depth (convertToDiagnostic false v) := by
  cases v with
  | bytes b =>
    simp only [diagnosticSize] at hsize
    simp only [Within] at h
    simp only [convertToDiagnostic, Within, length_asBytes_encodeBase64Url]
    exact ⟨h.1, by omega⟩
  | array values =>
    simp only [diagnosticSize] at hsize
    simp only [Within] at h
    simp only [convertToDiagnostic, Within]
    refine ⟨h.1, ?_, within_convertItems values h.2.2 (by omega)⟩
    rw [convertItems_eq_map, List.length_map]
    exact h.2.1
  | map entries =>
    simp only [diagnosticSize] at hsize
    simp only [Within] at h
    simp only [convertToDiagnostic, Within, length_convertEntries]
    exact ⟨h.1, h.2.1, within_convertEntries entries h.2.2 (by omega)⟩
  | null => exact h
  | bool b => exact h
  | int n => exact h
  | text s => exact h
  | tag t v => exact h

theorem within_convertItems {depth : Nat} (values : List Value)
    (h : WithinAll limits depth values)
    (hsize : diagnosticSizes values ≤ limits.maximumTextBytes) :
    WithinAll limits depth (convertItems false values) := by
  cases values with
  | nil => exact h
  | cons v values =>
    simp only [diagnosticSizes] at hsize
    simp only [WithinAll] at h
    simp only [convertItems, WithinAll]
    exact ⟨within_convertToDiagnostic v h.1 (by omega),
      within_convertItems values h.2 (by omega)⟩

theorem within_convertEntries {depth : Nat} (entries : List (Value × Value))
    (h : WithinEntries limits depth entries)
    (hsize : diagnosticEntrySizes entries ≤ limits.maximumTextBytes) :
    WithinEntries limits depth (convertEntries false entries) := by
  cases entries with
  | nil => exact h
  | cons e entries =>
    obtain ⟨k, v⟩ := e
    simp only [diagnosticEntrySizes] at hsize
    simp only [WithinEntries] at h
    simp only [convertEntries, Bool.false_and, Bool.false_eq_true, if_false, WithinEntries]
    exact ⟨h.1, h.2.1, within_convertToDiagnostic v h.2.2.1 (by omega),
      within_convertEntries entries h.2.2.2 (by omega)⟩

end

/-- The diagnostic form of an admitted value is admitted exactly when it is small enough. -/
theorem assertHailValue_convertToDiagnostic {v : Value} {u : Unit}
    (h : assertHailValue v defaultResourceLimits = .ok u) :
    assertHailValue (convertToDiagnostic false v) defaultResourceLimits = .ok u ↔
      diagnosticSize v ≤ 1048576 := by
  rw [assertHailValue_eq_ok] at h ⊢
  rw [items_convertToDiagnostic, encodedSize_convertToDiagnostic]
  have hbytes : defaultResourceLimits.maximumBytes = 1048576 := rfl
  have htext : defaultResourceLimits.maximumTextBytes = 1048576 := rfl
  constructor
  · rintro ⟨_, _, hsize⟩
    omega
  · intro hsize
    exact ⟨h.1, within_convertToDiagnostic v h.2.1 (by omega), by omega⟩

end Size

end TypeScript

end HailProto.Codec
