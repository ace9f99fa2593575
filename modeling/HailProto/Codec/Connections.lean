import HailProto.Codec.Address

/-!
# Connection objects in two languages

The validators of connection invitations, confirmations, grants and controls in `validation.ts`
and in `connections.go`. Each pair is compared through one schema: a lemma for each language
says that its validator accepts exactly the records of the schema. The control object is the
exception. TypeScript tests its operation and its state after `String(…)`, which turns an array
of one element into the text of that element, so its schema reads those two members through any
number of such arrays while the schema of Go reads texts alone.
-/

namespace HailProto.Codec

open Cbor (Value)

namespace TypeScript

/-- What the runtime raises when an object without a prototype is turned into a text. -/
def typeError : HailCodecError :=
  ⟨"TypeError", "Cannot convert object to primitive value", ""⟩

mutual

/-- The characters of `String(value)`. An array is joined by commas, and so are bytes. -/
def stringOf : Value → Except HailCodecError (List Char)
  | .null => .ok "null".toList
  | .bool b => .ok (if b then "true" else "false").toList
  | .int n => .ok (toString n).toList
  | .text s => .ok s.toList
  | .bytes b => .ok ([','].intercalate (b.map fun x => (toString x.toNat).toList))
  | .array values => (stringParts values).map [','].intercalate
  | .map _ => .error typeError
  | .tag _ _ => .error typeError

/-- The parts that are joined: a null element has an empty text. -/
def stringParts : List Value → Except HailCodecError (List (List Char))
  | [] => .ok []
  | .null :: values => (stringParts values).map fun parts => [] :: parts
  | v :: values => do
      let part ← stringOf v
      let parts ← stringParts values
      .ok (part :: parts)

end

/-- `String(value)`. -/
def string : Option Value → Except HailCodecError String
  | some v => (stringOf v).map String.ofList
  | none => .ok "undefined"

def connectionExpiry (payload : Record) (confirmation : Bool) : Except HailCodecError Unit := do
  let issued ← integer (payload.get "issued_at") "$.issued_at" 0
  if !strictEqual (payload.get "expires_at") (some .null) then do
    let expires ← integer (payload.get "expires_at") "$.expires_at" 0
    failIf (decide (expires ≤ issued) || confirmation && decide (expires - issued > 300))
      "invalid connection validity window" "$.expires_at"
  else failIf confirmation "confirmation must expire" "$.expires_at"

end TypeScript

namespace Go

def connectionExpiry (m : Record) (confirmation : Bool) : Except String Unit := do
  let issued ← intValue (index m "issued_at") "$.issued_at" 0
  if interfaceEqual (index m "expires_at") .null then
    errorIf confirmation "confirmation must expire"
  else do
    let expires ← intValue (index m "expires_at") "$.expires_at" 0
    errorIf (decide (expires ≤ issued) || confirmation && decide (expires - issued > 300))
      "invalid connection validity window"

end Go

/-- A member names a word directly. -/
def NamesText (v : Option Value) (word : String) : Prop := v = some (.text word)

/-- A word inside any number of arrays of one element. -/
inductive Wraps : Value → String → Prop
  | text (word : String) : Wraps (.text word) word
  | array {v : Value} {word : String} : Wraps v word → Wraps (.array [v]) word

/-- A member names a word directly or through arrays. -/
def NamesWrapped (v : Option Value) (word : String) : Prop := ∃ w, v = some w ∧ Wraps w word

/-- The window of a connection object; a confirmation is short and always expires. -/
def ConnectionWindow (confirmation : Bool) (r : Record) : Prop :=
  ∃ issued, IsInteger 0 (r.get "issued_at") issued ∧
    (r.get "expires_at" = some .null ∧ confirmation = false ∨
      ∃ expires, IsInteger 0 (r.get "expires_at") expires ∧ issued < expires ∧
        (confirmation = true → expires - issued ≤ 300))

/-- The two parties of an object are distinct identifiers. -/
def Parties (r : Record) (source target actor : String) : Prop :=
  (r.get source = some (.text actor) ∧ didPattern actor = true) ∧
    ∃ peer, (r.get target = some (.text peer) ∧ didPattern peer = true) ∧ actor ≠ peer

section Windows

variable {r : Record} {confirmation : Bool} {u : Unit}

theorem Exact.mem {required optional : List String} {k : String} (h : Exact r required optional)
    (hk : k ∈ required) : r.get k ≠ none := Option.isSome_iff_ne_none.1 (h.2 k hk)

@[simp] theorem TypeScript.connectionExpiry_eq_ok :
    TypeScript.connectionExpiry r confirmation = .ok u ↔ ConnectionWindow confirmation r := by
  simp only [TypeScript.connectionExpiry, bind_eq_ok, TypeScript.integer_eq_ok, ConnectionWindow]
  refine exists_congr fun issued => and_congr_right fun hissued => ?_
  by_cases hnull : r.get "expires_at" = some .null
  · simp [hnull, TypeScript.strictEqual, IsInteger]
  · have hfalse : TypeScript.strictEqual (r.get "expires_at") (some .null) = false := by
      rw [Bool.eq_false_iff, ne_eq, TypeScript.strictEqual_null]
      exact hnull
    simp only [hfalse, Bool.not_false, if_true, bind_eq_ok, TypeScript.integer_eq_ok,
      TypeScript.failIf_eq_ok, hnull, false_and, false_or]
    refine exists_congr fun expires => and_congr_right fun _ => ?_
    cases confirmation <;> simp

theorem Go.connectionExpiry_eq_ok (hkey : r.get "expires_at" ≠ none) :
    Go.connectionExpiry r confirmation = .ok u ↔ ConnectionWindow confirmation r := by
  simp only [Go.connectionExpiry, bind_eq_ok, Go.intValue_eq_ok le_rfl, Go.index_eq_int,
    ConnectionWindow, IsInteger]
  refine exists_congr fun issued => and_congr_right fun hissued => ?_
  by_cases hnull : r.get "expires_at" = some .null
  · have htrue : Go.interfaceEqual (Go.index r "expires_at") .null = true := by
      rw [Go.interfaceEqual_null, Go.index_eq_null]
      exact .inr hnull
    simp [hnull, htrue]
  · have hfalse : Go.interfaceEqual (Go.index r "expires_at") .null = false := by
      rw [Bool.eq_false_iff, ne_eq, Go.interfaceEqual_null, Go.index_eq_null, not_or]
      exact ⟨hkey, hnull⟩
    simp only [hfalse, Bool.false_eq_true, if_false, bind_eq_ok, Go.intValue_eq_ok le_rfl,
      Go.index_eq_int, Go.errorIf_eq_ok, hnull, false_and, false_or]
    refine exists_congr fun expires => and_congr_right fun _ => ?_
    cases confirmation <;> simp

end Windows

section Strings

/-- A word of small letters that is not the text of a constant. -/
def IsWord (cs : List Char) : Prop :=
  (cs ≠ [] ∧ ∀ c ∈ cs, 'a' ≤ c) ∧
    cs ∉ ["null".toList, "true".toList, "false".toList, "undefined".toList]

variable {cs : List Char}

theorem digit_lt {c : Char} (h : c.isDigit = true) : c < 'a' := by
  simp only [Char.isDigit, Bool.and_eq_true, decide_eq_true_eq] at h
  exact lt_of_le_of_lt h.2 (by decide)

theorem digits_lt {n : Nat} {c : Char} (h : c ∈ (toString n).toList) : c < 'a' := by
  rw [Nat.toString_eq_repr, Nat.repr_eq_ofList_toDigits, String.toList_ofList] at h
  exact digit_lt (Nat.isDigit_of_mem_toDigits (by decide) (by decide) h)

theorem intToString_lt {n : Int} {c : Char} (h : c ∈ (toString n).toList) : c < 'a' := by
  cases n with
  | ofNat n => exact digits_lt h
  | negSucc n =>
    have hminus : (toString (Int.negSucc n)) = "-" ++ toString (n + 1) := rfl
    rw [hminus, String.toList_append, List.mem_append] at h
    obtain h | h := h
    · have hc : c = '-' := by simpa using h
      rw [hc]
      decide
    · exact digits_lt h

theorem IsWord.exists_ge (h : IsWord cs) : ∃ c ∈ cs, 'a' ≤ c := by
  obtain ⟨c, hc⟩ := List.exists_mem_of_ne_nil cs h.1.1
  exact ⟨c, hc, h.1.2 c hc⟩

theorem IsWord.ne_of_lt {ds : List Char} (h : IsWord cs) (hlt : ∀ c ∈ ds, c < 'a') : ds ≠ cs := by
  rintro rfl
  obtain ⟨c, hc, hle⟩ := h.exists_ge
  exact absurd (hlt c hc) (not_lt.2 hle)

theorem intercalate_lt {parts : List (List Char)} (h : ∀ p ∈ parts, ∀ c ∈ p, c < 'a') :
    ∀ c ∈ [','].intercalate parts, c < 'a' := by
  induction parts with
  | nil =>
    intro c hc
    simp at hc
  | cons p parts ih =>
    intro c hc
    by_cases hnil : parts = []
    · subst hnil
      rw [List.intercalate_singleton] at hc
      exact h p List.mem_cons_self c hc
    · rw [List.intercalate_cons_of_ne_nil hnil, List.append_assoc, List.mem_append,
        List.mem_append] at hc
      obtain hc | hc | hc := hc
      · exact h p List.mem_cons_self c hc
      · rw [List.mem_singleton.1 hc]
        decide
      · exact ih (fun q hq => h q (List.mem_cons_of_mem p hq)) c hc

theorem TypeScript.stringOf_wraps {v : Value} {word : String} (h : Wraps v word) :
    stringOf v = .ok word.toList := by
  induction h with
  | text word => rfl
  | @array v word hwraps ih =>
    have hparts : stringParts [v] = .ok [word.toList] := by
      cases hwraps with
      | text word => rfl
      | array hinner =>
        simp only [stringParts, ih]
        rfl
    simp only [stringOf, hparts, Except.map, List.intercalate_singleton]

theorem TypeScript.stringParts_cons {v : Value} {values : List Value} {parts : List (List Char)}
    (h : stringParts (v :: values) = .ok parts) :
    ∃ part rest, parts = part :: rest ∧ stringParts values = .ok rest ∧
      (part = [] ∨ stringOf v = .ok part) := by
  by_cases hnull : v = .null
  · subst hnull
    simp only [stringParts, map_eq_ok] at h
    obtain ⟨rest, hrest, rfl⟩ := h
    exact ⟨[], rest, rfl, hrest, .inl rfl⟩
  · rw [stringParts.eq_3 v values hnull] at h
    simp only [bind_eq_ok, Except.ok.injEq] at h
    obtain ⟨part, hpart, rest, hrest, rfl⟩ := h
    exact ⟨part, rest, rfl, hrest, .inr hpart⟩

/-- Only a text and arrays of one element around it have a word for their text. -/
theorem TypeScript.wraps_of_stringOf (hword : IsWord cs) (v : Value) (h : stringOf v = .ok cs) :
    Wraps v (String.ofList cs) := by
  match v with
  | .null =>
    simp only [stringOf, Except.ok.injEq] at h
    exact absurd (h ▸ hword.2) (by simp)
  | .bool b =>
    simp only [stringOf, Except.ok.injEq] at h
    exact absurd (h ▸ hword.2) (by cases b <;> simp)
  | .int n =>
    simp only [stringOf, Except.ok.injEq] at h
    exact absurd h (hword.ne_of_lt fun c hc => intToString_lt hc)
  | .text s =>
    simp only [stringOf, Except.ok.injEq] at h
    rw [← h, String.ofList_toList]
    exact .text s
  | .bytes b =>
    simp only [stringOf, Except.ok.injEq] at h
    refine absurd h (hword.ne_of_lt (intercalate_lt ?_))
    intro p hp c hc
    obtain ⟨x, _, rfl⟩ := List.mem_map.1 hp
    exact digits_lt hc
  | .array [] =>
    simp only [stringOf, stringParts, Except.map, List.intercalate_nil, Except.ok.injEq] at h
    exact absurd h.symm hword.1.1
  | .array (w :: values) =>
    simp only [stringOf, map_eq_ok] at h
    obtain ⟨parts, hparts, hjoin⟩ := h
    obtain ⟨part, rest, rfl, hrest, hpart⟩ := stringParts_cons hparts
    cases values with
    | nil =>
      simp only [stringParts, Except.ok.injEq] at hrest
      rw [← hrest, List.intercalate_singleton] at hjoin
      rw [hjoin] at hpart
      obtain hnil | hpart := hpart
      · exact absurd hnil hword.1.1
      · exact .array (wraps_of_stringOf hword w hpart)
    | cons w' values =>
      -- Two parts leave a comma, which no word has.
      obtain ⟨part', rest', rfl, _, _⟩ := stringParts_cons hrest
      have hcomma : ',' ∈ cs := by
        rw [← hjoin, List.intercalate_cons_cons]
        simp
      exact absurd (hword.1.2 ',' hcomma) (by decide)
  | .map _ => simp only [stringOf, reduceCtorEq] at h
  | .tag _ _ => simp only [stringOf, reduceCtorEq] at h
termination_by sizeOf v

end Strings

/-- `["probe", …].includes(…)`. -/
def connectionOperations : List String :=
  ["probe", "offer", "connect", "disconnect", "snapshot", "admission", "ack"]

def connectionStates : List String := ["empty", "active", "disconnected"]

/-- The operations that leave a durable receipt. -/
def receiptOperations : List String := ["snapshot", "admission", "ack"]

namespace TypeScript

def validateConnectionInvitation (payload : Record) : Except HailCodecError Unit := do
  exactKeys payload ["type", "version", "invitation_id", "from", "token_hash", "issued_at",
    "expires_at", "key_id"] [] "$"
  let _ ← uuid (payload.get "invitation_id") "$.invitation_id"
  let owner ← did (payload.get "from") "$.from"
  digest (payload.get "token_hash") "$.token_hash"
  connectionExpiry payload false
  keyId (payload.get "key_id") owner "hail-identity" "$.key_id"

def validateConnectionConfirmation (payload : Record) : Except HailCodecError Unit := do
  exactKeys payload ["type", "version", "confirmation_id", "from", "to", "invitation_id",
    "invitation_hash", "issued_at", "expires_at", "key_id"] [] "$"
  let _ ← uuid (payload.get "confirmation_id") "$.confirmation_id"
  let _ ← uuid (payload.get "invitation_id") "$.invitation_id"
  let actor ← did (payload.get "from") "$.from"
  let _ ← did (payload.get "to") "$.to"
  failIf (strictEqual (payload.get "from") (payload.get "to")) "cannot connect to self" "$.to"
  digest (payload.get "invitation_hash") "$.invitation_hash"
  connectionExpiry payload true
  keyId (payload.get "key_id") actor "hail-identity" "$.key_id"

/-- The members that go with the state: an empty pair has neither connection nor epoch. -/
def connectionPair (payload : Record) : Except HailCodecError Unit :=
  if strictEqual (payload.get "state") (some (.text "empty")) then
    failIf (!strictEqual (payload.get "connection_id") (some .null) ||
      !strictEqual (payload.get "epoch") (some (.int 0))) "empty pair has no epoch"
      "$.connection_id"
  else do
    let _ ← uuid (payload.get "connection_id") "$.connection_id"
    let _ ← integer (payload.get "epoch") "$.epoch" 1
    .ok ()

/-- The expiry of a control object: a receipt has none. -/
def controlExpiry (payload : Record) (receipt : Bool) : Except HailCodecError Unit :=
  if receipt then
    failIf (!strictEqual (payload.get "expires_at") (some .null))
      "durable receipts do not expire" "$.expires_at"
  else connectionExpiry payload true

def validateConnectionControl (payload : Record) : Except HailCodecError Unit := do
  exactKeys payload ["type", "version", "operation", "from", "to", "request_id",
    "connection_id", "epoch", "state", "proof_hash", "issued_at", "expires_at", "key_id"] [] "$"
  let actor ← did (payload.get "from") "$.from"
  let _ ← did (payload.get "to") "$.to"
  failIf (strictEqual (payload.get "from") (payload.get "to")) "distinct parties required" "$.to"
  let _ ← uuid (payload.get "request_id") "$.request_id"
  let _ ← integer (payload.get "epoch") "$.epoch" 0
  let operation ← string (payload.get "operation")
  failIf (!connectionOperations.contains operation) "unknown operation" "$.operation"
  let state ← string (payload.get "state")
  failIf (!connectionStates.contains state) "unknown state" "$.state"
  connectionPair payload
  digest (payload.get "proof_hash") "$.proof_hash"
  let _ ← integer (payload.get "issued_at") "$.issued_at" 0
  controlExpiry payload (receiptOperations.contains operation)
  keyId (payload.get "key_id") actor "hail-messaging" "$.key_id"

/-- The digest of the predecessor of a grant. -/
def grantPrevious (payload : Record) (revision : Int) : Except HailCodecError Unit :=
  if revision = 1 then
    failIf (!strictEqual (payload.get "previous") (some .null))
      "initial revision has no predecessor" "$.previous"
  else do
    let _ ← bytes (payload.get "previous") 32 "$.previous"
    .ok ()

def validateConnectionGrant (oracle : DomainOracle) (payload : Record) :
    Except HailCodecError Unit := do
  exactKeys payload ["type", "version", "grant_id", "connection_id", "revision", "previous",
    "grantor", "grantee", "status", "issued_at", "updated_at", "expires_at", "consent_context",
    "key_id"] [] "$"
  let _ ← uuid (payload.get "grant_id") "$.grant_id"
  let _ ← uuid (payload.get "connection_id") "$.connection_id"
  let revision ← integer (payload.get "revision") "$.revision" 1
  grantPrevious payload revision
  let owner ← did (payload.get "grantor") "$.grantor"
  let _ ← did (payload.get "grantee") "$.grantee"
  failIf (strictEqual (payload.get "grantor") (payload.get "grantee")) "cannot connect to self"
    "$.grantee"
  failIf (!strictEqual (payload.get "status") (some (.text "active")) &&
    !strictEqual (payload.get "status") (some (.text "revoked")))
    "unknown connection grant status" "$.status"
  connectionExpiry payload false
  let updated ← integer (payload.get "updated_at") "$.updated_at" 0
  -- `Number(payload.issued_at)`, of a member that the expiry has already read as an integer.
  let issued ← integer (payload.get "issued_at") "$.issued_at" 0
  failIf (decide (updated < issued)) "must not precede issued_at" "$.updated_at"
  let consent ← record (payload.get "consent_context") "$.consent_context"
  exactKeys consent ["grantee_address", "address_binding_hash", "invitation_hash",
    "confirmation_hash"] [] "$.consent_context"
  let _ ← hailAddress oracle (consent.get "grantee_address") "$.consent_context.grantee_address"
  digest (consent.get "address_binding_hash") "$.consent_context.address_binding_hash"
  digest (consent.get "invitation_hash") "$.consent_context.invitation_hash"
  digest (consent.get "confirmation_hash") "$.consent_context.confirmation_hash"
  keyId (payload.get "key_id") owner "hail-identity" "$.key_id"

end TypeScript

namespace Go

def validateConnectionInvitation (m : Record) : Except String Unit := do
  exact m ["type", "version", "invitation_id", "from", "token_hash", "issued_at",
    "expires_at", "key_id"] [] "$"
  uuid (index m "invitation_id") "$.invitation_id"
  let owner ← did (index m "from") "$.from"
  digest (index m "token_hash") "$.token_hash"
  connectionExpiry m false
  keyID (index m "key_id") owner "hail-identity" "$.key_id"

def validateConnectionConfirmation (m : Record) : Except String Unit := do
  exact m ["type", "version", "confirmation_id", "from", "to", "invitation_id",
    "invitation_hash", "issued_at", "expires_at", "key_id"] [] "$"
  uuid (index m "confirmation_id") "$.confirmation_id"
  uuid (index m "invitation_id") "$.invitation_id"
  let actor ← did (index m "from") "$.from"
  let peer ← did (index m "to") "$.to"
  errorIf (actor == peer) "cannot connect to self"
  digest (index m "invitation_hash") "$.invitation_hash"
  connectionExpiry m true
  keyID (index m "key_id") actor "hail-identity" "$.key_id"

/-- The `switch` on the operation: whether it leaves a receipt. -/
def connectionReceipt (op : String) : Except String Bool :=
  if ["probe", "offer", "connect", "disconnect"].contains op then .ok false
  else if ["snapshot", "admission", "ack"].contains op then .ok true
  else .error "unknown connection operation"

/-- The `switch` on the state. -/
def connectionPair (m : Record) (state : String) (epoch : Int) : Except String Unit :=
  if state = "empty" then
    errorIf (!interfaceEqual (index m "connection_id") .null || epoch != 0)
      "empty pair has no epoch"
  else if state = "active" ∨ state = "disconnected" then do
    errorIf (decide (epoch < 1)) "connection epoch must be positive"
    uuid (index m "connection_id") "$.connection_id"
  else .error "unknown connection state"

def controlExpiry (m : Record) (receipt : Bool) : Except String Unit :=
  if receipt then
    errorIf (!interfaceEqual (index m "expires_at") .null) "durable receipts do not expire"
  else connectionExpiry m true

def validateConnectionControl (m : Record) : Except String Unit := do
  exact m ["type", "version", "operation", "from", "to", "request_id",
    "connection_id", "epoch", "state", "proof_hash", "issued_at", "expires_at", "key_id"] [] "$"
  let actor ← did (index m "from") "$.from"
  let peer ← did (index m "to") "$.to"
  errorIf (actor == peer) "distinct parties required"
  uuid (index m "request_id") "$.request_id"
  let epoch ← intValue (index m "epoch") "$.epoch" 0
  let op ← textValue (index m "operation") "$.operation"
  let receipt ← connectionReceipt op
  let state ← textValue (index m "state") "$.state"
  connectionPair m state epoch
  digest (index m "proof_hash") "$.proof_hash"
  let _ ← intValue (index m "issued_at") "$.issued_at" 0
  controlExpiry m receipt
  keyID (index m "key_id") actor "hail-messaging" "$.key_id"

def grantPrevious (m : Record) (rev : Int) : Except String Unit :=
  if rev = 1 then
    errorIf (!interfaceEqual (index m "previous") .null) "initial revision has no predecessor"
  else byteValue (index m "previous") 32 "$.previous"

def validateConnectionGrant (oracle : DomainOracle) (m : Record) : Except String Unit := do
  exact m ["type", "version", "grant_id", "connection_id", "revision", "previous",
    "grantor", "grantee", "status", "issued_at", "updated_at", "expires_at", "consent_context",
    "key_id"] [] "$"
  uuid (index m "grant_id") "$.grant_id"
  uuid (index m "connection_id") "$.connection_id"
  let rev ← intValue (index m "revision") "$.revision" 1
  grantPrevious m rev
  let owner ← did (index m "grantor") "$.grantor"
  let peer ← did (index m "grantee") "$.grantee"
  errorIf (owner == peer) "cannot connect to self"
  errorIf (!interfaceEqual (index m "status") (.text "active") &&
    !interfaceEqual (index m "status") (.text "revoked")) "invalid connection grant status"
  connectionExpiry m false
  let issued ← intValue (index m "issued_at") "$.issued_at" 0
  let updated ← intValue (index m "updated_at") "$.updated_at" 0
  errorIf (decide (updated < issued)) "updated_at precedes issued_at"
  let c ← mapValue (index m "consent_context") "$.consent_context"
  exact c ["grantee_address", "address_binding_hash", "invitation_hash",
    "confirmation_hash"] [] "$.consent_context"
  hailAddress oracle (index c "grantee_address") "$.consent_context.grantee_address"
  digest (index c "address_binding_hash") "$.consent_context.address_binding_hash"
  digest (index c "invitation_hash") "$.consent_context.invitation_hash"
  digest (index c "confirmation_hash") "$.consent_context.confirmation_hash"
  keyID (index m "key_id") owner "hail-identity" "$.key_id"

end Go

/-- An invitation. -/
def InvitationSchema (r : Record) : Prop :=
  Exact r ["type", "version", "invitation_id", "from", "token_hash", "issued_at",
    "expires_at", "key_id"] [] ∧ IsMatch uuidV7Pattern (r.get "invitation_id") ∧
    ∃ owner, (r.get "from" = some (.text owner) ∧ didPattern owner = true) ∧
      IsDigest (r.get "token_hash") ∧ ConnectionWindow false r ∧
      r.get "key_id" = some (.text (owner ++ "#" ++ "hail-identity"))

/-- A confirmation. -/
def ConfirmationSchema (r : Record) : Prop :=
  Exact r ["type", "version", "confirmation_id", "from", "to", "invitation_id",
    "invitation_hash", "issued_at", "expires_at", "key_id"] [] ∧
    IsMatch uuidV7Pattern (r.get "confirmation_id") ∧
    IsMatch uuidV7Pattern (r.get "invitation_id") ∧
    ∃ actor, Parties r "from" "to" actor ∧ IsDigest (r.get "invitation_hash") ∧
      ConnectionWindow true r ∧ r.get "key_id" = some (.text (actor ++ "#" ++ "hail-identity"))

/-- The state of the pair and the members that go with it. -/
def PairState (r : Record) : Prop :=
  (r.get "state" = some (.text "empty") ∧ r.get "connection_id" = some .null ∧
      r.get "epoch" = some (.int 0)) ∨
    (r.get "state" ≠ some (.text "empty") ∧ IsMatch uuidV7Pattern (r.get "connection_id") ∧
      ∃ epoch, IsInteger 1 (r.get "epoch") epoch)

/-- Receipts do not expire, requests do within five minutes. -/
def ControlWindow (operation : String) (r : Record) : Prop :=
  (∃ issued, IsInteger 0 (r.get "issued_at") issued) ∧
    (operation ∈ receiptOperations ∧ r.get "expires_at" = some .null ∨
      operation ∉ receiptOperations ∧ ConnectionWindow true r)

/-- A control object, given how its operation and its state are read. -/
def ControlSchema (names : Option Value → String → Prop) (r : Record) : Prop :=
  Exact r ["type", "version", "operation", "from", "to", "request_id", "connection_id", "epoch",
    "state", "proof_hash", "issued_at", "expires_at", "key_id"] [] ∧
    ∃ actor, Parties r "from" "to" actor ∧ IsMatch uuidV7Pattern (r.get "request_id") ∧
      (∃ epoch, IsInteger 0 (r.get "epoch") epoch) ∧
      ∃ operation, (names (r.get "operation") operation ∧ operation ∈ connectionOperations) ∧
        (∃ state, names (r.get "state") state ∧ state ∈ connectionStates) ∧ PairState r ∧
        IsDigest (r.get "proof_hash") ∧ ControlWindow operation r ∧
        r.get "key_id" = some (.text (actor ++ "#" ++ "hail-messaging"))

/-- A connection grant, given the addresses it may name. -/
def ConnectionGrantSchema (address : Option Value → Prop) (r : Record) : Prop :=
  Exact r ["type", "version", "grant_id", "connection_id", "revision", "previous", "grantor",
    "grantee", "status", "issued_at", "updated_at", "expires_at", "consent_context", "key_id"] [] ∧
    IsMatch uuidV7Pattern (r.get "grant_id") ∧ IsMatch uuidV7Pattern (r.get "connection_id") ∧
    (∃ revision, IsInteger 1 (r.get "revision") revision ∧
      (revision = 1 ∧ r.get "previous" = some .null ∨
        revision ≠ 1 ∧ ∃ b, r.get "previous" = some (.bytes b) ∧ b.length = 32)) ∧
    ∃ owner, Parties r "grantor" "grantee" owner ∧
      (r.get "status" = some (.text "active") ∨ r.get "status" = some (.text "revoked")) ∧
      ConnectionWindow false r ∧
      (∃ updated, IsInteger 0 (r.get "updated_at") updated ∧
        ∃ issued, IsInteger 0 (r.get "issued_at") issued ∧ issued ≤ updated) ∧
      (∃ c : Record, r.get "consent_context" = some (.map c) ∧
        Exact c ["grantee_address", "address_binding_hash", "invitation_hash",
          "confirmation_hash"] [] ∧ address (c.get "grantee_address") ∧
        IsDigest (c.get "address_binding_hash") ∧ IsDigest (c.get "invitation_hash") ∧
        IsDigest (c.get "confirmation_hash")) ∧
      r.get "key_id" = some (.text (owner ++ "#" ++ "hail-identity"))

section Schemas

variable {r : Record} {source target : String} {P : String → Prop} {u : Unit}

theorem TypeScript.parties_iff :
    (∃ actor, (r.get source = some (.text actor) ∧ didPattern actor = true) ∧
      (∃ peer, r.get target = some (.text peer) ∧ didPattern peer = true) ∧
      strictEqual (r.get source) (r.get target) = false ∧ P actor) ↔
    ∃ actor, Parties r source target actor ∧ P actor := by
  refine exists_congr fun actor => ?_
  constructor
  · rintro ⟨hactor, ⟨peer, hpeer⟩, hne, hP⟩
    refine ⟨⟨hactor, peer, hpeer, ?_⟩, hP⟩
    rintro rfl
    rw [hactor.1, hpeer.1] at hne
    simp [strictEqual] at hne
  · rintro ⟨⟨hactor, peer, hpeer, hne⟩, hP⟩
    refine ⟨hactor, ⟨peer, hpeer⟩, ?_, hP⟩
    rw [hactor.1, hpeer.1]
    simpa [strictEqual] using hne

theorem Go.parties_iff :
    (∃ actor, (r.get source = some (.text actor) ∧ didPattern actor = true) ∧
      ∃ peer, (r.get target = some (.text peer) ∧ didPattern peer = true) ∧
      actor ≠ peer ∧ P actor) ↔
    ∃ actor, Parties r source target actor ∧ P actor := by
  refine exists_congr fun actor => ?_
  constructor
  · rintro ⟨hactor, peer, hpeer, hne, hP⟩
    exact ⟨⟨hactor, peer, hpeer, hne⟩, hP⟩
  · rintro ⟨⟨hactor, peer, hpeer, hne⟩, hP⟩
    exact ⟨hactor, peer, hpeer, hne, hP⟩

theorem TypeScript.validateConnectionInvitation_eq_ok :
    validateConnectionInvitation r = .ok u ↔ InvitationSchema r := by
  simp only [validateConnectionInvitation, InvitationSchema, IsMatch, bind_eq_ok, exactKeys_eq_ok,
    uuid_eq_ok, did_eq_ok, digest_eq_ok, connectionExpiry_eq_ok, keyId_eq_ok, exists_and_right,
    exists_const]

theorem Go.validateConnectionInvitation_eq_ok :
    validateConnectionInvitation r = .ok u ↔ InvitationSchema r := by
  simp only [validateConnectionInvitation, InvitationSchema, IsMatch, bind_eq_ok, exact_eq_ok,
    uuid_eq_ok, did_eq_ok, digest_index_eq_ok, keyID_eq_ok, index_eq_text,
    exists_const]
  refine and_congr_right fun hexact => ?_
  simp only [connectionExpiry_eq_ok (hexact.mem (by simp)), exists_const]

theorem TypeScript.validateConnectionConfirmation_eq_ok :
    validateConnectionConfirmation r = .ok u ↔ ConfirmationSchema r := by
  simp only [validateConnectionConfirmation, ConfirmationSchema, IsMatch, bind_eq_ok,
    exactKeys_eq_ok, uuid_eq_ok, did_eq_ok, failIf_eq_ok, digest_eq_ok, connectionExpiry_eq_ok,
    keyId_eq_ok, exists_and_right, exists_const, parties_iff]

theorem Go.validateConnectionConfirmation_eq_ok :
    validateConnectionConfirmation r = .ok u ↔ ConfirmationSchema r := by
  simp only [validateConnectionConfirmation, ConfirmationSchema, IsMatch, bind_eq_ok, exact_eq_ok,
    uuid_eq_ok, did_eq_ok, errorIf_eq_ok, beq_eq_false_iff_ne, digest_index_eq_ok, keyID_eq_ok,
    index_eq_text, exists_const, parties_iff]
  refine and_congr_right fun hexact => ?_
  simp only [connectionExpiry_eq_ok (hexact.mem (by simp)), exists_const]

theorem TypeScript.string_eq_ok {v : Option Value} {word : String} (hword : IsWord word.toList) :
    string v = .ok word ↔ NamesWrapped v word := by
  cases v with
  | none =>
    simp only [string, Except.ok.injEq, NamesWrapped, reduceCtorEq, false_and, exists_false,
      iff_false]
    rintro rfl
    exact hword.2 (by simp)
  | some v =>
    simp only [string, map_eq_ok, NamesWrapped, Option.some.injEq, exists_eq_left']
    constructor
    · rintro ⟨cs, hcs, rfl⟩
      rw [String.toList_ofList] at hword
      exact wraps_of_stringOf hword v hcs
    · intro h
      exact ⟨word.toList, stringOf_wraps h, String.ofList_toList⟩

theorem isWord_of_mem {word : String} (h : word ∈ connectionOperations ++ connectionStates) :
    IsWord word.toList := by
  have hall : ∀ w ∈ connectionOperations ++ connectionStates, IsWord w.toList := by
    simp [connectionOperations, connectionStates, IsWord]
  exact hall word h

theorem TypeScript.connectionPair_eq_ok : connectionPair r = .ok u ↔ PairState r := by
  unfold connectionPair PairState
  by_cases hempty : r.get "state" = some (.text "empty")
  · simp only [hempty, strictEqual_text.2, if_true, failIf_eq_ok, Bool.or_eq_false_iff,
      Bool.not_eq_false', strictEqual_null, strictEqual_int, true_and, ne_eq, not_true_eq_false,
      false_and, or_false]
  · have hfalse : strictEqual (r.get "state") (some (.text "empty")) = false := by
      rw [Bool.eq_false_iff, ne_eq, strictEqual_text]
      exact hempty
    simp only [hfalse, hempty, Bool.false_eq_true, if_false, bind_eq_ok, uuid_eq_ok, integer_eq_ok,
      exists_and_right, false_and, false_or, ne_eq, not_false_eq_true, true_and, and_true, IsMatch]

theorem TypeScript.controlExpiry_eq_ok {receipt : Bool} :
    controlExpiry r receipt = .ok u ↔
      receipt = true ∧ r.get "expires_at" = some .null ∨
        receipt = false ∧ ConnectionWindow true r := by
  cases receipt <;> simp [controlExpiry]

theorem Go.controlExpiry_eq_ok {receipt : Bool} (hkey : r.get "expires_at" ≠ none) :
    controlExpiry r receipt = .ok u ↔
      receipt = true ∧ r.get "expires_at" = some .null ∨
        receipt = false ∧ ConnectionWindow true r := by
  cases receipt <;> simp [controlExpiry, connectionExpiry_eq_ok hkey, hkey]

theorem TypeScript.grantPrevious_eq_ok {revision : Int} :
    grantPrevious r revision = .ok u ↔
      revision = 1 ∧ r.get "previous" = some .null ∨
        revision ≠ 1 ∧ ∃ b, r.get "previous" = some (.bytes b) ∧ b.length = 32 := by
  by_cases hone : revision = 1 <;> simp [grantPrevious, hone]

theorem Go.grantPrevious_eq_ok {revision : Int} (hkey : r.get "previous" ≠ none) :
    grantPrevious r revision = .ok u ↔
      revision = 1 ∧ r.get "previous" = some .null ∨
        revision ≠ 1 ∧ ∃ b, r.get "previous" = some (.bytes b) ∧ b.length = 32 := by
  by_cases hone : revision = 1 <;> simp [grantPrevious, hone, hkey]

theorem TypeScript.string_contains {v : Option Value} {word : String} {words : List String}
    (hwords : words ⊆ connectionOperations ++ connectionStates) :
    string v = .ok word ∧ (!words.contains word) = false ↔
      NamesWrapped v word ∧ word ∈ words := by
  rw [Bool.not_eq_false', List.contains_iff_mem]
  exact and_congr_left fun hmem => string_eq_ok (isWord_of_mem (hwords hmem))

theorem TypeScript.validateConnectionControl_eq_ok :
    validateConnectionControl r = .ok u ↔ ControlSchema NamesWrapped r := by
  have hoperation (v : Option Value) (word : String) :
      string v = .ok word ∧ (!connectionOperations.contains word) = false ↔
        NamesWrapped v word ∧ word ∈ connectionOperations :=
    string_contains (List.subset_append_left _ _)
  have hstate (v : Option Value) (word : String) :
      string v = .ok word ∧ (!connectionStates.contains word) = false ↔
        NamesWrapped v word ∧ word ∈ connectionStates :=
    string_contains (List.subset_append_right _ _)
  simp only [validateConnectionControl, ControlSchema, IsMatch, bind_eq_ok, exactKeys_eq_ok,
    uuid_eq_ok, did_eq_ok, integer_eq_ok, failIf_eq_ok, digest_eq_ok, connectionPair_eq_ok,
    controlExpiry_eq_ok, keyId_eq_ok, exists_and_right, exists_const, parties_iff]
  simp only [← and_assoc (a := string _ = _), hoperation, hstate, exists_and_right]
  simp only [ControlWindow, List.contains_eq_mem, decide_eq_false_iff_not, decide_eq_true_eq,
    and_assoc]

theorem Go.connectionReceipt_eq_ok {op : String} {receipt : Bool} :
    connectionReceipt op = .ok receipt ↔
      op ∈ connectionOperations ∧ receipt = decide (op ∈ receiptOperations) := by
  unfold connectionReceipt
  split
  · rename_i hmem
    have hnot : op ∉ receiptOperations := by
      simp only [List.contains_iff_mem, List.mem_cons, List.not_mem_nil, or_false] at hmem
      obtain rfl | rfl | rfl | rfl := hmem <;> decide
    have hop : op ∈ connectionOperations := by
      simp only [List.contains_iff_mem] at hmem
      exact List.mem_append_left ["snapshot", "admission", "ack"] hmem
    simp [hop, hnot, eq_comm]
  · split
    · rename_i hmem
      have hreceipt : op ∈ receiptOperations := List.contains_iff_mem.1 hmem
      have hop : op ∈ connectionOperations :=
        List.mem_append_right ["probe", "offer", "connect", "disconnect"] hreceipt
      simp [hop, hreceipt, eq_comm]
    · rename_i hleft hright
      simp only [reduceCtorEq, false_iff, not_and]
      intro hop
      simp_all [connectionOperations]

theorem Go.connectionPair_eq_ok {state : String} {epoch : Int}
    (hstate : r.get "state" = some (.text state)) (hepoch : IsInteger 0 (r.get "epoch") epoch)
    (hkey : r.get "connection_id" ≠ none) :
    connectionPair r state epoch = .ok u ↔ state ∈ connectionStates ∧ PairState r := by
  unfold connectionPair PairState
  rw [hstate, hepoch.1]
  simp only [Option.some.injEq, Value.text.injEq, Value.int.injEq]
  split
  · rename_i hempty
    subst hempty
    simp [connectionStates, hkey]
  · rename_i hempty
    split
    · rename_i hother
      have hmem : state ∈ connectionStates := by
        obtain rfl | rfl := hother <;> simp [connectionStates]
      have hbound : (∃ n, IsInteger 1 (some (.int epoch)) n) ↔ 1 ≤ epoch := by
        simp only [IsInteger, Option.some.injEq, Value.int.injEq, exists_eq_left']
        exact ⟨fun h => h.2, fun h => ⟨hepoch.2.1, h⟩⟩
      simp [hempty, hmem, IsMatch, hbound, and_comm]
    · rename_i hother
      simp only [reduceCtorEq, false_iff, not_and]
      intro hmem
      simp_all [connectionStates]

theorem Go.validateConnectionControl_eq_ok :
    validateConnectionControl r = .ok u ↔ ControlSchema NamesText r := by
  simp only [validateConnectionControl, ControlSchema, IsMatch, NamesText, bind_eq_ok, exact_eq_ok,
    uuid_eq_ok, did_eq_ok, errorIf_eq_ok, beq_eq_false_iff_ne, digest_index_eq_ok, keyID_eq_ok,
    index_eq_text, intValue_index_eq_ok le_rfl, textValue_eq_ok, connectionReceipt_eq_ok,
    exists_const, exists_and_right, parties_iff, ControlWindow]
  refine and_congr_right fun hexact => exists_congr fun actor => ?_
  simp only [controlExpiry_eq_ok (hexact.mem (by simp))]
  refine and_congr_right fun _ => and_congr_right fun _ => ?_
  constructor
  · rintro ⟨epoch, hepoch, op, hop, receipt, ⟨hmem, rfl⟩, state, hstate, ⟨_, hpair⟩, hdigest, hissued,
      hwindow, hkey⟩
    obtain ⟨hstates, hpair⟩ :=
      (connectionPair_eq_ok hstate hepoch (hexact.mem (by simp))).1 hpair
    refine ⟨⟨epoch, hepoch⟩, op, ⟨hop, hmem⟩, ⟨state, hstate, hstates⟩, hpair, hdigest,
      ⟨hissued, ?_⟩, hkey⟩
    simpa using hwindow
  · rintro ⟨⟨epoch, hepoch⟩, op, ⟨hop, hmem⟩, ⟨state, hstate, hstates⟩, hpair, hdigest,
      ⟨hissued, hwindow⟩, hkey⟩
    refine ⟨epoch, hepoch, op, hop, _, ⟨hmem, rfl⟩, state, hstate, ⟨(), ?_⟩, hdigest, hissued, ?_,
      hkey⟩
    · exact (connectionPair_eq_ok hstate hepoch (hexact.mem (by simp))).2 ⟨hstates, hpair⟩
    · simpa using hwindow

theorem TypeScript.validateConnectionGrant_eq_ok {oracle : DomainOracle} :
    validateConnectionGrant oracle r = .ok u ↔
      ConnectionGrantSchema (fun v =>
        (hailAddress oracle v "$.consent_context.grantee_address").isOk = true) r := by
  simp only [validateConnectionGrant, ConnectionGrantSchema, IsMatch, bind_eq_ok,
    exactKeys_eq_ok, uuid_eq_ok, did_eq_ok, integer_eq_ok, failIf_eq_ok, digest_eq_ok,
    connectionExpiry_eq_ok, grantPrevious_eq_ok, keyId_eq_ok, record_eq_ok, exists_and_right,
    exists_const, parties_iff, isOk_iff, Bool.and_eq_false_iff, Bool.not_eq_false',
    strictEqual_text, decide_eq_false_iff_not, not_lt]
  refine and_congr_right fun _ => and_congr_right fun _ => and_congr_right fun _ => ?_
  constructor
  · rintro ⟨revision, hrevision, hprevious, owner, hparties, hstatus, hwindow, updated, hupdated,
      issued, hissued, hle, c, hc, hexact, haddress, hbinding, hinvitation, hconfirmation, hkey⟩
    exact ⟨⟨revision, hrevision, hprevious⟩, owner, hparties, hstatus, hwindow,
      ⟨updated, hupdated, issued, hissued, hle⟩,
      ⟨c, hc, hexact, haddress, hbinding, hinvitation, hconfirmation⟩, hkey⟩
  · rintro ⟨⟨revision, hrevision, hprevious⟩, owner, hparties, hstatus, hwindow,
      ⟨updated, hupdated, issued, hissued, hle⟩,
      ⟨c, hc, hexact, haddress, hbinding, hinvitation, hconfirmation⟩, hkey⟩
    exact ⟨revision, hrevision, hprevious, owner, hparties, hstatus, hwindow, updated, hupdated,
      issued, hissued, hle, c, hc, hexact, haddress, hbinding, hinvitation, hconfirmation, hkey⟩

theorem Go.validateConnectionGrant_eq_ok {oracle : DomainOracle} :
    validateConnectionGrant oracle r = .ok u ↔
      ConnectionGrantSchema (fun v =>
        (hailAddress oracle (v.getD .null) "$.consent_context.grantee_address").isOk = true) r := by
  simp only [validateConnectionGrant, ConnectionGrantSchema, IsMatch, bind_eq_ok, exact_eq_ok,
    uuid_eq_ok, did_eq_ok, errorIf_eq_ok, beq_eq_false_iff_ne, digest_index_eq_ok, keyID_eq_ok,
    index_eq_text, index_eq_map, intValue_index_eq_ok le_rfl, intValue_index_eq_ok zero_le_one,
    mapValue_eq_ok, interfaceEqual_text, exists_const, exists_and_right, parties_iff, isOk_iff,
    Bool.and_eq_false_iff, Bool.not_eq_false', decide_eq_false_iff_not, not_lt]
  refine and_congr_right fun hexact => and_congr_right fun _ => and_congr_right fun _ => ?_
  simp only [connectionExpiry_eq_ok (hexact.mem (k := "expires_at") (by simp)),
    grantPrevious_eq_ok (hexact.mem (k := "previous") (by simp)), exists_const]
  constructor
  · rintro ⟨revision, hrevision, hprevious, owner, hparties, hstatus, hwindow, issued, hissued,
      updated, hupdated, hle, c, hc, hexact, haddress, hbinding, hinvitation, hconfirmation, hkey⟩
    exact ⟨⟨revision, hrevision, hprevious⟩, owner, hparties, hstatus, hwindow,
      ⟨updated, hupdated, issued, hissued, hle⟩,
      ⟨c, hc, hexact, haddress, hbinding, hinvitation, hconfirmation⟩, hkey⟩
  · rintro ⟨⟨revision, hrevision, hprevious⟩, owner, hparties, hstatus, hwindow,
      ⟨updated, hupdated, issued, hissued, hle⟩,
      ⟨c, hc, hexact, haddress, hbinding, hinvitation, hconfirmation⟩, hkey⟩
    exact ⟨revision, hrevision, hprevious, owner, hparties, hstatus, hwindow, issued, hissued,
      updated, hupdated, hle, c, hc, hexact, haddress, hbinding, hinvitation, hconfirmation, hkey⟩

end Schemas

end HailProto.Codec
