import HailProto.Codec.Text

/-!
# Reading the fields of a payload

The helpers of `validation.ts` and of `payload.go` that read one member of a decoded map and
refuse what has the wrong type. A member that is absent is `undefined` in TypeScript; in Go an
absent member and a null one both read as `nil`. Each helper has one lemma that says what it
accepts, in terms of the member itself, so that the two languages can be compared.
-/

namespace HailProto.Cbor

/-- The key is this text. -/
def Value.isText (k : String) : Value → Bool
  | .text s => s == k
  | _ => false

theorem Value.isText_iff {k : String} {v : Value} : v.isText k = true ↔ v = .text k := by
  cases v <;> simp [Value.isText]

/-- The text of a key. -/
def Value.keyText : Value → String
  | .text s => s
  | _ => ""

end HailProto.Cbor

namespace HailProto.Codec

open Cbor (Value maxSafe asBytes)

/-- A decoded map. -/
abbrev Record := List (Value × Value)

/-- The member with this name. -/
def Record.get (r : Record) (k : String) : Option Value :=
  (r.find? fun e => e.1.isText k).map Prod.snd

/-- The record has every required member, and no member that is neither required nor optional. -/
def Exact (r : Record) (required optional : List String) : Prop :=
  (∀ e ∈ r, ∃ k ∈ required ++ optional, e.1 = .text k) ∧ ∀ k ∈ required, (r.get k).isSome

/-- A key is one of these names. -/
def allowedKey (allowed : List String) (key : Value) : Bool :=
  allowed.any fun k => key.isText k

theorem allowedKey_iff {allowed : List String} {key : Value} :
    allowedKey allowed key = true ↔ ∃ k ∈ allowed, key = .text k := by
  simp only [allowedKey, List.any_eq_true, Value.isText_iff]

/-- A digest of 32 bytes. -/
def IsDigest (v : Option Value) : Prop :=
  ∃ r : Record, v = some (.map r) ∧ Exact r ["algorithm", "value"] [] ∧
    r.get "algorithm" = some (.text "sha-256") ∧
    ∃ b, r.get "value" = some (.bytes b) ∧ b.length = 32

/-- The member is a text that matches a pattern. -/
def IsMatch (pattern : String → Bool) (v : Option Value) : Prop :=
  ∃ s, v = some (.text s) ∧ pattern s = true

/-- The member is a safe integer from a minimum on. -/
def IsInteger (minimum : Int) (v : Option Value) (n : Int) : Prop :=
  v = some (.int n) ∧ n.natAbs ≤ maxSafe ∧ minimum ≤ n

namespace TypeScript

/-- `HailCodecError`. -/
structure HailCodecError where
  code : String
  message : String
  path : String
  deriving DecidableEq

def fail {α : Type} (message path : String) : Except HailCodecError α :=
  .error ⟨"schema-violation", message, path⟩

def record (value : Option Value) (path : String) : Except HailCodecError Record :=
  match value with
  | some (.map entries) => .ok entries
  | _ => fail "must be a map" path

def exactKeys (value : Record) (required optional : List String) (path : String) :
    Except HailCodecError Unit :=
  match value.find? fun e => !allowedKey (required ++ optional) e.1 with
  | some e => fail "unknown member" (path ++ "." ++ e.1.keyText)
  | none =>
    match required.find? fun k => (value.get k).isNone with
    | some k => fail "required member is absent" (path ++ "." ++ k)
    | none => .ok ()

def text (value : Option Value) (path : String) : Except HailCodecError String :=
  match value with
  | some (.text s) => .ok s
  | _ => fail "must be text" path

def integer (value : Option Value) (path : String) (minimum : Int) :
    Except HailCodecError Int :=
  match value with
  | some (.int n) =>
    if n.natAbs ≤ maxSafe ∧ minimum ≤ n then .ok n
    else fail ("must be an integer greater than or equal to " ++ toString minimum) path
  | _ => fail ("must be an integer greater than or equal to " ++ toString minimum) path

def boolean (value : Option Value) (path : String) : Except HailCodecError Bool :=
  match value with
  | some (.bool b) => .ok b
  | _ => fail "must be a boolean" path

def bytes (value : Option Value) (length : Nat) (path : String) :
    Except HailCodecError (List UInt8) :=
  match value with
  | some (.bytes b) =>
    if b.length = length then .ok b
    else fail ("must be exactly " ++ toString length ++ " bytes") path
  | _ => fail ("must be exactly " ++ toString length ++ " bytes") path

def array (value : Option Value) (path : String) : Except HailCodecError (List Value) :=
  match value with
  | some (.array entries) => .ok entries
  | _ => fail "must be an array" path

/-- The checks of a text against a pattern. -/
def matching (pattern : String → Bool) (message : String) (value : Option Value)
    (path : String) : Except HailCodecError String := do
  let result ← text value path
  if !pattern result then fail message path else .ok result

def did : Option Value → String → Except HailCodecError String :=
  matching didPattern "must be a canonical did:plc identifier"

def uuid : Option Value → String → Except HailCodecError String :=
  matching uuidV7Pattern "must be a canonical UUIDv7"

def category : Option Value → String → Except HailCodecError String :=
  matching categoryPattern "must be a canonical category ID"

def digest (value : Option Value) (path : String) : Except HailCodecError Unit := do
  let item ← record value path
  exactKeys item ["algorithm", "value"] [] path
  let algorithm ← text (item.get "algorithm") (path ++ ".algorithm")
  if algorithm ≠ "sha-256" then fail "must equal sha-256" (path ++ ".algorithm")
  else do
    let _ ← bytes (item.get "value") 32 (path ++ ".value")
    .ok ()

def keyId (value : Option Value) (signer role path : String) : Except HailCodecError Unit := do
  let id ← text value path
  if id ≠ signer ++ "#" ++ role then fail ("must identify the signer's #" ++ role ++ " key") path
  else .ok ()

/-- `if (condition) fail(message, path)`. -/
def failIf (condition : Bool) (message path : String) : Except HailCodecError Unit :=
  if condition then fail message path else .ok ()

/-- `===` on two members: objects are never the same. -/
def strictEqual : Option Value → Option Value → Bool
  | none, none => true
  | some .null, some .null => true
  | some (.bool a), some (.bool b) => a == b
  | some (.int a), some (.int b) => a == b
  | some (.text a), some (.text b) => a == b
  | _, _ => false

variable {α : Type} {v : Option Value} {path : String}

@[simp] theorem fail_ne_ok {message : String} {a : α} :
    (fail message path : Except HailCodecError α) ≠ .ok a := by
  intro h
  cases h

@[simp] theorem failIf_eq_ok {condition : Bool} {message : String} {u : Unit} :
    failIf condition message path = .ok u ↔ condition = false := by
  cases condition <;> simp [failIf]

@[simp] theorem strictEqual_null : strictEqual v (some .null) = true ↔ v = some .null := by
  unfold strictEqual
  split <;> simp_all

@[simp] theorem strictEqual_int {n : Int} :
    strictEqual v (some (.int n)) = true ↔ v = some (.int n) := by
  unfold strictEqual
  split <;> simp_all

@[simp] theorem strictEqual_text {s : String} :
    strictEqual v (some (.text s)) = true ↔ v = some (.text s) := by
  unfold strictEqual
  split <;> simp_all

@[simp] theorem record_eq_ok {r : Record} : record v path = .ok r ↔ v = some (.map r) := by
  unfold record
  split <;> simp_all

@[simp] theorem exactKeys_eq_ok {r : Record} {required optional : List String} {u : Unit} :
    exactKeys r required optional path = .ok u ↔ Exact r required optional := by
  unfold exactKeys Exact
  split
  · rename_i e he
    simp only [fail_ne_ok, false_iff, not_and]
    intro hall
    have hkey := List.find?_some he
    obtain ⟨k, hk⟩ := hall e (List.mem_of_find?_eq_some he)
    simp only [allowedKey_iff.2 ⟨k, hk⟩, Bool.not_true, Bool.false_eq_true] at hkey
  · rename_i hkeys
    simp only [List.find?_eq_none, Bool.not_eq_true', Bool.not_eq_false, allowedKey_iff] at hkeys
    split
    · rename_i k hk
      simp only [fail_ne_ok, false_iff, not_and]
      intro _ hall
      have hnone := List.find?_some hk
      have hsome := hall k (List.mem_of_find?_eq_some hk)
      rw [Option.isSome_iff_ne_none] at hsome
      rw [Option.isNone_iff_eq_none] at hnone
      exact hsome hnone
    · rename_i hrequired
      simp only [List.find?_eq_none, Option.isNone_iff_eq_none] at hrequired
      simp only [true_iff]
      exact ⟨hkeys, fun k hk => Option.isSome_iff_ne_none.2 (hrequired k hk)⟩

@[simp] theorem text_eq_ok {s : String} : text v path = .ok s ↔ v = some (.text s) := by
  unfold text
  split <;> simp_all

@[simp] theorem integer_eq_ok {minimum n : Int} :
    integer v path minimum = .ok n ↔ IsInteger minimum v n := by
  unfold integer IsInteger
  split
  · split
    · rename_i hn
      simp only [Except.ok.injEq, Option.some.injEq, Value.int.injEq]
      constructor
      · rintro rfl
        exact ⟨rfl, hn⟩
      · exact fun h => h.1
    · rename_i hn
      simp only [fail_ne_ok, Option.some.injEq, Value.int.injEq, false_iff]
      rintro ⟨rfl, h⟩
      exact hn h
  · rename_i hv
    simp only [fail_ne_ok, false_iff, not_and]
    intro h
    exact absurd h (hv n)

@[simp] theorem boolean_eq_ok {b : Bool} : boolean v path = .ok b ↔ v = some (.bool b) := by
  unfold boolean
  split
  · simp only [Except.ok.injEq, Option.some.injEq, Value.bool.injEq]
  · rename_i hv
    simp only [fail_ne_ok, false_iff]
    exact hv b

@[simp] theorem bytes_eq_ok {length : Nat} {b : List UInt8} :
    bytes v length path = .ok b ↔ v = some (.bytes b) ∧ b.length = length := by
  unfold bytes
  split
  · split
    · simp only [Except.ok.injEq, Option.some.injEq, Value.bytes.injEq]
      constructor
      · rintro rfl
        exact ⟨rfl, ‹_›⟩
      · exact fun h => h.1
    · rename_i hlength
      simp only [fail_ne_ok, Option.some.injEq, Value.bytes.injEq, false_iff]
      rintro ⟨rfl, h⟩
      exact hlength h
  · rename_i hv
    simp only [fail_ne_ok, false_iff, not_and]
    intro h
    exact absurd h (hv b)

@[simp] theorem array_eq_ok {entries : List Value} :
    array v path = .ok entries ↔ v = some (.array entries) := by
  unfold array
  split <;> simp_all

@[simp] theorem matching_eq_ok {pattern : String → Bool} {message s : String} :
    matching pattern message v path = .ok s ↔ v = some (.text s) ∧ pattern s = true := by
  simp only [matching, bind_eq_ok, text_eq_ok]
  constructor
  · rintro ⟨result, rfl, h⟩
    split at h
    · cases h
    · rename_i hpattern
      cases h
      exact ⟨rfl, by simpa using hpattern⟩
  · rintro ⟨rfl, hpattern⟩
    exact ⟨s, rfl, by simp [hpattern]⟩

@[simp] theorem did_eq_ok {s : String} :
    did v path = .ok s ↔ v = some (.text s) ∧ didPattern s = true := matching_eq_ok

@[simp] theorem uuid_eq_ok {s : String} :
    uuid v path = .ok s ↔ v = some (.text s) ∧ uuidV7Pattern s = true := matching_eq_ok

@[simp] theorem category_eq_ok {s : String} :
    category v path = .ok s ↔ v = some (.text s) ∧ categoryPattern s = true := matching_eq_ok

@[simp] theorem digest_eq_ok {u : Unit} : digest v path = .ok u ↔ IsDigest v := by
  simp only [digest, bind_eq_ok, record_eq_ok, exactKeys_eq_ok, text_eq_ok]
  constructor
  · rintro ⟨r, rfl, _, hexact, algorithm, halgorithm, h⟩
    split at h
    · cases h
    · rename_i hsha
      simp only [bind_eq_ok, bytes_eq_ok, and_true] at h
      rw [not_not] at hsha
      rw [hsha] at halgorithm
      exact ⟨r, rfl, hexact, halgorithm, h⟩
  · rintro ⟨r, rfl, hexact, halgorithm, b, hb⟩
    refine ⟨r, rfl, (), hexact, "sha-256", halgorithm, ?_⟩
    simp only [ne_eq, not_true_eq_false, if_false, bind_eq_ok, bytes_eq_ok, and_true]
    exact ⟨b, hb⟩

@[simp] theorem keyId_eq_ok {signer role : String} {u : Unit} :
    keyId v signer role path = .ok u ↔ v = some (.text (signer ++ "#" ++ role)) := by
  simp only [keyId, bind_eq_ok, text_eq_ok]
  constructor
  · rintro ⟨id, rfl, h⟩
    split at h
    · cases h
    · rename_i hid
      rw [not_not] at hid
      rw [hid]
  · rintro rfl
    exact ⟨_, rfl, by simp⟩

end TypeScript

namespace Go

/-- `m[k]`: the zero value of a missing member is `nil`, as a null member is. -/
def index (m : Record) (k : String) : Value := (m.get k).getD .null

def has (m : Record) (k : String) : Bool := (m.get k).isSome

def mapValue (v : Value) (path : String) : Except String Record :=
  match v with
  | .map m => .ok m
  | _ => .error (path ++ " must be a map")

def textValue (v : Value) (path : String) : Except String String :=
  match v with
  | .text s => .ok s
  | _ => .error (path ++ " must be text")

/-- A decoded integer is an `int64` when it is negative and a `uint64` otherwise. -/
def intValue (v : Value) (path : String) (minimum : Int) : Except String Int :=
  match v with
  | .int n =>
    if n < 0 ∧ minimum ≤ n ∨ 0 ≤ n ∧ n ≤ maxSafe ∧ minimum ≤ n then .ok n
    else .error (path ++ " must be integer >= " ++ toString minimum)
  | _ => .error (path ++ " must be integer >= " ++ toString minimum)

def boolValue (v : Value) (path : String) : Except String Bool :=
  match v with
  | .bool b => .ok b
  | _ => .error (path ++ " must be boolean")

def arrayValue (v : Value) (path : String) : Except String (List Value) :=
  match v with
  | .array a => .ok a
  | _ => .error (path ++ " must be array")

def byteValue (v : Value) (n : Nat) (path : String) : Except String Unit :=
  match v with
  | .bytes b =>
    if b.length = n then .ok () else .error (path ++ " must be " ++ toString n ++ " bytes")
  | _ => .error (path ++ " must be " ++ toString n ++ " bytes")

def exact (m : Record) (required optional : List String) (path : String) :
    Except String Unit :=
  if m.any fun e => !allowedKey (required ++ optional) e.1 then
    .error (path ++ " has unknown member")
  else
    match required.find? fun k => !has m k with
    | some k => .error (path ++ "." ++ k ++ " is required")
    | none => .ok ()

def expectText (m : Record) (k want path : String) : Except String Unit := do
  let s ← textValue (index m k) path
  if s ≠ want then .error (path ++ " must equal " ++ want) else .ok ()

/-- The checks of a text against a pattern; any refusal has the pattern's message. -/
def matching (pattern : String → Bool) (message : String) (v : Value) (path : String) :
    Except String String :=
  match v with
  | .text s => if !pattern s then .error (path ++ message) else .ok s
  | _ => .error (path ++ message)

def did : Value → String → Except String String := matching didPattern " must be canonical did:plc"

def uuid (v : Value) (path : String) : Except String Unit := do
  let _ ← matching uuidV7Pattern " must be UUIDv7" v path
  .ok ()

def category : Value → String → Except String String := matching categoryPattern " invalid category"

def digest (v : Value) (path : String) : Except String Unit := do
  let m ← mapValue v path
  exact m ["algorithm", "value"] [] path
  expectText m "algorithm" "sha-256" (path ++ ".algorithm")
  byteValue (index m "value") 32 (path ++ ".value")

def keyID (v : Value) (signer role path : String) : Except String Unit :=
  match v with
  | .text s => if s ≠ signer ++ "#" ++ role then .error (path ++ " wrong key role") else .ok ()
  | _ => .error (path ++ " wrong key role")

/-- `if condition { return errors.New(message) }`. -/
def errorIf (condition : Bool) (message : String) : Except String Unit :=
  if condition then .error message else .ok ()

/-- `==` on two interface values of which at most one holds a map, an array or bytes. -/
def interfaceEqual : Value → Value → Bool
  | .null, .null => true
  | .bool a, .bool b => a == b
  | .int a, .int b => a == b
  | .text a, .text b => a == b
  | _, _ => false

@[simp] theorem errorIf_eq_ok {condition : Bool} {message : String} {u : Unit} :
    errorIf condition message = .ok u ↔ condition = false := by
  cases condition <;> simp [errorIf]

section Index

variable {m : Record} {k : String}

@[simp] theorem index_eq_null : index m k = .null ↔ m.get k = none ∨ m.get k = some .null := by
  unfold index
  cases m.get k <;> simp

@[simp] theorem has_eq_true : has m k = true ↔ (m.get k).isSome := Iff.rfl

@[simp] theorem index_eq_text {s : String} : index m k = .text s ↔ m.get k = some (.text s) := by
  unfold index
  cases m.get k <;> simp

@[simp] theorem index_eq_map {r : Record} : index m k = .map r ↔ m.get k = some (.map r) := by
  unfold index
  cases m.get k <;> simp

@[simp] theorem index_eq_int {n : Int} : index m k = .int n ↔ m.get k = some (.int n) := by
  unfold index
  cases m.get k <;> simp

@[simp] theorem index_eq_bool {b : Bool} : index m k = .bool b ↔ m.get k = some (.bool b) := by
  unfold index
  cases m.get k <;> simp

@[simp] theorem index_eq_array {a : List Value} :
    index m k = .array a ↔ m.get k = some (.array a) := by
  unfold index
  cases m.get k <;> simp

@[simp] theorem index_eq_bytes {b : List UInt8} :
    index m k = .bytes b ↔ m.get k = some (.bytes b) := by
  unfold index
  cases m.get k <;> simp

end Index

variable {v : Value} {path : String}

@[simp] theorem interfaceEqual_null : interfaceEqual v .null = true ↔ v = .null := by
  unfold interfaceEqual
  split <;> simp_all

@[simp] theorem interfaceEqual_bool {b : Bool} :
    interfaceEqual v (.bool b) = true ↔ v = .bool b := by
  cases b <;> unfold interfaceEqual <;> split <;> simp_all

@[simp] theorem interfaceEqual_text {s : String} :
    interfaceEqual v (.text s) = true ↔ v = .text s := by
  unfold interfaceEqual
  split <;> simp_all

@[simp] theorem mapValue_eq_ok {m : Record} : mapValue v path = .ok m ↔ v = .map m := by
  unfold mapValue
  split <;> simp_all

@[simp] theorem textValue_eq_ok {s : String} : textValue v path = .ok s ↔ v = .text s := by
  unfold textValue
  split <;> simp_all

@[simp] theorem intValue_eq_ok {minimum n : Int} (hminimum : 0 ≤ minimum) :
    intValue v path minimum = .ok n ↔ v = .int n ∧ n.natAbs ≤ maxSafe ∧ minimum ≤ n := by
  unfold intValue
  split
  · rename_i k
    split
    · rename_i hk
      simp only [Except.ok.injEq, Value.int.injEq]
      constructor
      · rintro rfl
        refine ⟨rfl, ?_, ?_⟩ <;> omega
      · exact fun h => h.1
    · rename_i hk
      simp only [reduceCtorEq, Value.int.injEq, false_iff]
      rintro ⟨rfl, h⟩
      omega
  · rename_i hv
    simp only [reduceCtorEq, false_iff, not_and]
    intro h
    exact absurd h (hv n)

theorem intValue_index_eq_ok {m : Record} {k : String} {minimum n : Int} (hminimum : 0 ≤ minimum) :
    intValue (index m k) path minimum = .ok n ↔ IsInteger minimum (m.get k) n := by
  rw [intValue_eq_ok hminimum, index_eq_int, IsInteger]

@[simp] theorem boolValue_eq_ok {b : Bool} : boolValue v path = .ok b ↔ v = .bool b := by
  unfold boolValue
  split
  · simp only [Except.ok.injEq, Value.bool.injEq]
  · rename_i hv
    simp only [reduceCtorEq, false_iff]
    exact hv b

@[simp] theorem arrayValue_eq_ok {a : List Value} : arrayValue v path = .ok a ↔ v = .array a := by
  unfold arrayValue
  split <;> simp_all

@[simp] theorem byteValue_eq_ok {n : Nat} {u : Unit} :
    byteValue v n path = .ok u ↔ ∃ b, v = .bytes b ∧ b.length = n := by
  unfold byteValue
  split
  · split <;> simp_all
  · rename_i hv
    simp only [reduceCtorEq, false_iff, not_exists, not_and]
    intro b h
    exact absurd h (hv b)

@[simp] theorem exact_eq_ok {m : Record} {required optional : List String} {u : Unit} :
    exact m required optional path = .ok u ↔ Exact m required optional := by
  unfold exact Exact
  split
  · rename_i hany
    simp only [reduceCtorEq, false_iff, not_and]
    intro hall
    simp only [List.any_eq_true, Bool.not_eq_true'] at hany
    obtain ⟨e, he, hkey⟩ := hany
    rw [allowedKey_iff.2 (hall e he)] at hkey
    cases hkey
  · rename_i hany
    simp only [List.any_eq_true, Bool.not_eq_true', not_exists, not_and, Bool.not_eq_false,
      allowedKey_iff] at hany
    split
    · rename_i k hk
      simp only [reduceCtorEq, false_iff, not_and]
      intro _ hall
      have hnone := List.find?_some hk
      have hsome := hall k (List.mem_of_find?_eq_some hk)
      simp only [has, hsome, Bool.not_true, Bool.false_eq_true] at hnone
    · rename_i hrequired
      simp only [List.find?_eq_none, Bool.not_eq_true', Bool.not_eq_false, has_eq_true] at hrequired
      simp only [true_iff]
      exact ⟨hany, hrequired⟩

@[simp] theorem expectText_eq_ok {m : Record} {k want : String} {u : Unit} :
    expectText m k want path = .ok u ↔ m.get k = some (.text want) := by
  simp only [expectText, bind_eq_ok, textValue_eq_ok, index_eq_text]
  constructor
  · rintro ⟨s, hs, h⟩
    split at h
    · cases h
    · rename_i hwant
      rw [not_not] at hwant
      rw [← hwant]
      exact hs
  · intro h
    exact ⟨want, h, by simp⟩

@[simp] theorem matching_eq_ok {pattern : String → Bool} {message s : String} :
    matching pattern message v path = .ok s ↔ v = .text s ∧ pattern s = true := by
  unfold matching
  split
  · split
    · rename_i hpattern
      simp only [reduceCtorEq, Value.text.injEq, false_iff, not_and]
      rintro rfl h
      simp only [h, Bool.not_true, Bool.false_eq_true] at hpattern
    · rename_i hpattern
      simp only [Bool.not_eq_true', Bool.not_eq_false] at hpattern
      simp only [Except.ok.injEq, Value.text.injEq]
      constructor
      · rintro rfl
        exact ⟨rfl, hpattern⟩
      · exact fun h => h.1
  · rename_i hv
    simp only [reduceCtorEq, false_iff, not_and]
    intro h
    exact absurd h (hv s)

@[simp] theorem did_eq_ok {s : String} :
    did v path = .ok s ↔ v = .text s ∧ didPattern s = true := matching_eq_ok

@[simp] theorem uuid_eq_ok {u : Unit} :
    uuid v path = .ok u ↔ ∃ s, v = .text s ∧ uuidV7Pattern s = true := by
  simp only [uuid, bind_eq_ok, matching_eq_ok, and_true]

@[simp] theorem category_eq_ok {s : String} :
    category v path = .ok s ↔ v = .text s ∧ categoryPattern s = true := matching_eq_ok

@[simp] theorem keyID_eq_ok {signer role : String} {u : Unit} :
    keyID v signer role path = .ok u ↔ v = .text (signer ++ "#" ++ role) := by
  unfold keyID
  split
  · split <;> simp_all
  · rename_i hv
    simp only [reduceCtorEq, false_iff]
    exact hv _

@[simp] theorem digest_index_eq_ok {m : Record} {k : String} {u : Unit} :
    digest (index m k) path = .ok u ↔ IsDigest (m.get k) := by
  simp only [digest, bind_eq_ok, mapValue_eq_ok, index_eq_map, exact_eq_ok, expectText_eq_ok,
    byteValue_eq_ok, index_eq_bytes]
  constructor
  · rintro ⟨r, hr, _, hexact, _, halgorithm, hvalue⟩
    exact ⟨r, hr, hexact, halgorithm, hvalue⟩
  · rintro ⟨r, hr, hexact, halgorithm, hvalue⟩
    exact ⟨r, hr, (), hexact, (), halgorithm, hvalue⟩

end Go

end HailProto.Codec
