import HailProto.Codec.Connections

/-!
# Conversation objects in two languages

The validators of conversation descriptors and revivals in `validation.ts` and in
`conversations.go`. Both walk the roster with the previous identifier at hand and ask each one
to come strictly after it. TypeScript orders texts by their UTF-16 units and Go by their bytes;
identifiers are ASCII texts, on which the two orders are one.
-/

namespace HailProto.Codec

open Cbor (Value)

namespace TypeScript

/-- A loop over a list of texts that are strictly ascending in their UTF-16 units. -/
def ascending (check : Option Value → String → Except HailCodecError String)
    (path : Nat → String) (message : String) (errorPath : Nat → String) :
    String → Nat → List Value → Except HailCodecError (List String)
  | _, _, [] => .ok []
  | previous, position, entry :: entries => do
      let current ← check (some entry) (path position)
      failIf (decide (utf16 current ≤ utf16 previous)) message (errorPath position)
      let rest ← ascending check path message errorPath current (position + 1) entries
      .ok (current :: rest)

def validateConversation (payload : Record) : Except HailCodecError Unit := do
  exactKeys payload ["type", "version", "conversation_id", "from", "membership_revision",
    "participants", "created_at", "admission_until"] [] "$"
  let _ ← uuid (payload.get "conversation_id") "$.conversation_id"
  let creator ← did (payload.get "from") "$.from"
  failIf (!strictEqual (payload.get "membership_revision") (some (.int 1)))
    "fixed roster requires revision 1" "$.membership_revision"
  let members ← array (payload.get "participants") "$.participants"
  failIf (decide (members.length < 3) || decide (members.length > 101))
    "requires 3 to 101 participants" "$.participants"
  let roster ← ascending did (fun position => "$.participants[" ++ toString position ++ "]")
    "participants must be unique and sorted by DID" (fun _ => "$.participants") "" 0 members
  failIf (!roster.contains creator) "creator must be a participant" "$.participants"
  let created ← integer (payload.get "created_at") "$.created_at" 0
  let expires ← integer (payload.get "admission_until") "$.admission_until" 0
  failIf (decide (expires ≤ created) || decide (expires - created > 604800))
    "admission window must be positive and at most 7 days" "$.admission_until"

def validateConversationRevival (payload : Record) : Except HailCodecError Unit := do
  exactKeys payload ["type", "version", "conversation_id", "descriptor_hash", "from", "to",
    "request_id", "issued_at", "expires_at"] [] "$"
  let _ ← uuid (payload.get "conversation_id") "$.conversation_id"
  let _ ← uuid (payload.get "request_id") "$.request_id"
  digest (payload.get "descriptor_hash") "$.descriptor_hash"
  let source ← did (payload.get "from") "$.from"
  let target ← did (payload.get "to") "$.to"
  failIf (source == target) "revival requires a distinct recipient" "$.to"
  let issued ← integer (payload.get "issued_at") "$.issued_at" 0
  let expires ← integer (payload.get "expires_at") "$.expires_at" 0
  failIf (decide (expires ≤ issued) || decide (expires - issued > 86400))
    "revival window must be positive and at most 24 hours" "$.expires_at"

end TypeScript

namespace Go

/-- A loop over a list of texts that are strictly ascending in their bytes. -/
def ascending (check : Value → String → Except String String) (path : Nat → String)
    (message : Nat → String) : String → Nat → List Value → Except String (List String)
  | _, _, [] => .ok []
  | previous, position, entry :: entries => do
      let current ← check entry (path position)
      errorIf (decide (utf8 current ≤ utf8 previous)) (message position)
      let rest ← ascending check path message current (position + 1) entries
      .ok (current :: rest)

def conversationWindow (m : Record) (start finish : String) (maximum : Int) :
    Except String Unit := do
  let issued ← intValue (index m start) ("$." ++ start) 0
  let expires ← intValue (index m finish) ("$." ++ finish) 0
  errorIf (decide (expires ≤ issued) || decide (expires - issued > maximum))
    "invalid conversation request validity window"

/-- `revision, e := intValue(…, 1); if e != nil || revision != 1`. -/
def fixedRevision (v : Value) (path : String) : Except String Unit :=
  match intValue v path 1 with
  | .ok revision => errorIf (revision != 1) "fixed roster requires revision 1"
  | .error _ => .error "fixed roster requires revision 1"

/-- `members, ok := m["participants"].([]any)`, of a length from 3 to 101. -/
def rosterValue (v : Value) : Except String (List Value) :=
  match v with
  | .array members =>
    if members.length < 3 ∨ members.length > 101 then .error "requires 3 to 101 participants"
    else .ok members
  | _ => .error "requires 3 to 101 participants"

def validateConversation (m : Record) : Except String Unit := do
  exact m ["type", "version", "conversation_id", "from", "membership_revision",
    "participants", "created_at", "admission_until"] [] "$"
  uuid (index m "conversation_id") "$.conversation_id"
  let creator ← did (index m "from") "$.from"
  fixedRevision (index m "membership_revision") "$.membership_revision"
  let members ← rosterValue (index m "participants")
  let roster ← ascending did (fun _ => "$.participants")
    (fun _ => "participants must be unique and sorted by DID") "" 0 members
  -- `includesCreator`, which the loop gathers.
  errorIf (!roster.contains creator) "creator must be a participant"
  conversationWindow m "created_at" "admission_until" 604800

def validateConversationRevival (m : Record) : Except String Unit := do
  exact m ["type", "version", "conversation_id", "descriptor_hash", "from", "to",
    "request_id", "issued_at", "expires_at"] [] "$"
  uuid (index m "conversation_id") "$.conversation_id"
  uuid (index m "request_id") "$.request_id"
  digest (index m "descriptor_hash") "$.descriptor_hash"
  let source ← did (index m "from") "$.from"
  let target ← did (index m "to") "$.to"
  errorIf (source == target) "revival requires a distinct recipient"
  conversationWindow m "issued_at" "expires_at" 86400

end Go

/-- Texts that match a pattern and are strictly ascending in these units. -/
def Ascending (units : String → List Nat) (pattern : String → Bool) :
    String → List String → Prop
  | _, [] => True
  | previous, s :: texts =>
    pattern s = true ∧ units previous < units s ∧ Ascending units pattern s texts

/-- A window between two times, of at most this many seconds. -/
def BoundedWindow (maximum : Int) (r : Record) (start finish : String) : Prop :=
  ∃ issued, IsInteger 0 (r.get start) issued ∧
    ∃ expires, IsInteger 0 (r.get finish) expires ∧ issued < expires ∧ expires - issued ≤ maximum

/-- A conversation descriptor. -/
def ConversationSchema (r : Record) : Prop :=
  Exact r ["type", "version", "conversation_id", "from", "membership_revision",
    "participants", "created_at", "admission_until"] [] ∧
    IsMatch uuidV7Pattern (r.get "conversation_id") ∧
    ∃ creator, (r.get "from" = some (.text creator) ∧ didPattern creator = true) ∧
      r.get "membership_revision" = some (.int 1) ∧
      (∃ roster : List String, r.get "participants" = some (.array (roster.map .text)) ∧
        (3 ≤ roster.length ∧ roster.length ≤ 101) ∧
        Ascending codes didPattern "" roster ∧ creator ∈ roster) ∧
      BoundedWindow 604800 r "created_at" "admission_until"

/-- A revival request. -/
def RevivalSchema (r : Record) : Prop :=
  Exact r ["type", "version", "conversation_id", "descriptor_hash", "from", "to",
    "request_id", "issued_at", "expires_at"] [] ∧
    IsMatch uuidV7Pattern (r.get "conversation_id") ∧ IsMatch uuidV7Pattern (r.get "request_id") ∧
    IsDigest (r.get "descriptor_hash") ∧ ∃ actor, Parties r "from" "to" actor ∧
      BoundedWindow 86400 r "issued_at" "expires_at"

section Rosters

variable {pattern : String → Bool} {message : String} {entries : List Value}
  {texts : List String} {previous : String} {position : Nat}

theorem TypeScript.ascending_eq_ok {path errorPath : Nat → String} {tsMessage : String} :
    ascending (matching pattern message) path tsMessage errorPath previous position entries =
        .ok texts ↔
      entries = texts.map .text ∧ Ascending utf16 pattern previous texts := by
  induction entries generalizing previous position texts with
  | nil => cases texts <;> simp [ascending, Ascending]
  | cons entry entries ih =>
    simp only [ascending, bind_eq_ok, matching_eq_ok, failIf_eq_ok, decide_eq_false_iff_not,
      not_le, ih, Except.ok.injEq]
    cases texts with
    | nil => simp
    | cons s texts =>
      simp only [List.cons.injEq, List.map_cons, Ascending, Option.some.injEq, exists_const]
      constructor
      · rintro ⟨s', ⟨rfl, hs⟩, hlt, rest, ⟨rfl, hrest⟩, rfl, rfl⟩
        exact ⟨⟨rfl, rfl⟩, hs, hlt, hrest⟩
      · rintro ⟨⟨rfl, rfl⟩, hs, hlt, hrest⟩
        exact ⟨s, ⟨rfl, hs⟩, hlt, texts, ⟨rfl, hrest⟩, rfl, rfl⟩

theorem Go.ascending_eq_ok {path goMessage : Nat → String} :
    ascending (matching pattern message) path goMessage previous position entries = .ok texts ↔
      entries = texts.map .text ∧ Ascending utf8 pattern previous texts := by
  induction entries generalizing previous position texts with
  | nil => cases texts <;> simp [ascending, Ascending]
  | cons entry entries ih =>
    simp only [ascending, bind_eq_ok, matching_eq_ok, errorIf_eq_ok, decide_eq_false_iff_not,
      not_le, ih, Except.ok.injEq]
    cases texts with
    | nil => simp
    | cons s texts =>
      simp only [List.cons.injEq, List.map_cons, Ascending, exists_const]
      constructor
      · rintro ⟨s', ⟨rfl, hs⟩, hlt, rest, ⟨rfl, hrest⟩, rfl, rfl⟩
        exact ⟨⟨rfl, rfl⟩, hs, hlt, hrest⟩
      · rintro ⟨⟨rfl, rfl⟩, hs, hlt, hrest⟩
        exact ⟨s, ⟨rfl, hs⟩, hlt, texts, ⟨rfl, hrest⟩, rfl, rfl⟩

/-- Two ways to take units order ASCII texts alike. -/
theorem Ascending.congr {units units' : String → List Nat}
    (hascii : ∀ s, pattern s = true → IsAscii s) (hunits : ∀ s, IsAscii s → units s = units' s)
    (hprevious : IsAscii previous) :
    Ascending units pattern previous texts ↔ Ascending units' pattern previous texts := by
  induction texts generalizing previous with
  | nil => rfl
  | cons s texts ih =>
    refine and_congr_right fun hs => ?_
    rw [hunits previous hprevious, hunits s (hascii s hs), ih (hascii s hs)]

theorem isAscii_empty : IsAscii "" := by
  intro c hc
  simp at hc

theorem ascending_utf16 (hascii : ∀ s, pattern s = true → IsAscii s) :
    Ascending utf16 pattern "" texts ↔ Ascending codes pattern "" texts :=
  Ascending.congr hascii (fun _ hs => utf16_of_ascii hs) isAscii_empty

theorem ascending_utf8 (hascii : ∀ s, pattern s = true → IsAscii s) :
    Ascending utf8 pattern "" texts ↔ Ascending codes pattern "" texts :=
  Ascending.congr hascii (fun _ hs => utf8_of_ascii hs) isAscii_empty

end Rosters

section Schemas

variable {r : Record} {u : Unit}

theorem Go.conversationWindow_eq_ok {start finish : String} {maximum : Int} :
    conversationWindow r start finish maximum = .ok u ↔ BoundedWindow maximum r start finish := by
  simp only [conversationWindow, BoundedWindow, bind_eq_ok, intValue_index_eq_ok le_rfl,
    errorIf_eq_ok, Bool.or_eq_false_iff, decide_eq_false_iff_not, not_le, not_lt]

theorem Go.fixedRevision_eq_ok {k path : String} :
    fixedRevision (index r k) path = .ok u ↔ r.get k = some (.int 1) := by
  unfold fixedRevision
  split
  · rename_i revision hrevision
    rw [intValue_index_eq_ok zero_le_one] at hrevision
    rw [hrevision.1]
    simp
  · rename_i e he
    simp only [reduceCtorEq, false_iff]
    intro h
    have hone : intValue (index r k) path 1 = .ok 1 := by
      rw [intValue_index_eq_ok zero_le_one]
      exact ⟨h, by decide, le_rfl⟩
    rw [he] at hone
    cases hone

theorem Go.rosterValue_eq_ok {k : String} {members : List Value} :
    rosterValue (index r k) = .ok members ↔
      r.get k = some (.array members) ∧ 3 ≤ members.length ∧ members.length ≤ 101 := by
  unfold rosterValue
  split
  · rename_i a ha
    rw [index_eq_array] at ha
    rw [ha]
    simp only [guard_eq_ok, Except.ok.injEq, Option.some.injEq, Value.array.injEq, not_or, not_lt]
    constructor
    · rintro ⟨hlength, rfl⟩
      exact ⟨rfl, hlength⟩
    · rintro ⟨rfl, hlength⟩
      exact ⟨hlength, rfl⟩
  · rename_i hnot
    simp only [reduceCtorEq, false_iff, not_and]
    intro h
    exact absurd (index_eq_array.2 h) (hnot members)

theorem TypeScript.ascending_did {path errorPath : Nat → String} {message : String}
    {entries : List Value} {roster : List String} :
    ascending did path message errorPath "" 0 entries = .ok roster ↔
      entries = roster.map .text ∧ Ascending codes didPattern "" roster :=
  ascending_eq_ok.trans (and_congr_right' (ascending_utf16 fun _ => isAscii_of_didPattern))

theorem Go.ascending_did {path message : Nat → String} {entries : List Value}
    {roster : List String} :
    ascending did path message "" 0 entries = .ok roster ↔
      entries = roster.map .text ∧ Ascending codes didPattern "" roster :=
  ascending_eq_ok.trans (and_congr_right' (ascending_utf8 fun _ => isAscii_of_didPattern))

theorem TypeScript.validateConversation_eq_ok :
    validateConversation r = .ok u ↔ ConversationSchema r := by
  simp only [validateConversation, ConversationSchema, BoundedWindow, IsMatch, bind_eq_ok,
    exactKeys_eq_ok, uuid_eq_ok, did_eq_ok, array_eq_ok, ascending_did, integer_eq_ok,
    failIf_eq_ok, Bool.or_eq_false_iff, decide_eq_false_iff_not, not_le, not_lt,
    Bool.not_eq_false', strictEqual_int, List.contains_iff_mem, exists_and_right, exists_const]
  refine and_congr_right fun _ => and_congr_right fun _ => exists_congr fun creator =>
    and_congr_right fun _ => and_congr_right fun _ => ?_
  constructor
  · rintro ⟨members, hmembers, hlength, roster, ⟨rfl, hsorted⟩, hcreator, hwindow⟩
    rw [List.length_map] at hlength
    exact ⟨⟨roster, hmembers, hlength, hsorted, hcreator⟩, hwindow⟩
  · rintro ⟨⟨roster, hmembers, hlength, hsorted, hcreator⟩, hwindow⟩
    rw [← List.length_map] at hlength
    exact ⟨_, hmembers, hlength, roster, ⟨rfl, hsorted⟩, hcreator, hwindow⟩

theorem Go.validateConversation_eq_ok :
    validateConversation r = .ok u ↔ ConversationSchema r := by
  simp only [validateConversation, ConversationSchema, IsMatch, bind_eq_ok, exact_eq_ok,
    uuid_eq_ok, did_eq_ok, errorIf_eq_ok, fixedRevision_eq_ok, rosterValue_eq_ok,
    ascending_did, conversationWindow_eq_ok, index_eq_text, exists_const,
    Bool.not_eq_false', List.contains_iff_mem]
  refine and_congr_right fun _ => and_congr_right fun _ => exists_congr fun creator =>
    and_congr_right fun _ => and_congr_right fun _ => ?_
  constructor
  · rintro ⟨members, ⟨hmembers, hlength⟩, roster, ⟨rfl, hsorted⟩, hcreator, hwindow⟩
    rw [List.length_map] at hlength
    exact ⟨⟨roster, hmembers, hlength, hsorted, hcreator⟩, hwindow⟩
  · rintro ⟨⟨roster, hmembers, hlength, hsorted, hcreator⟩, hwindow⟩
    rw [← List.length_map] at hlength
    exact ⟨_, ⟨hmembers, hlength⟩, roster, ⟨rfl, hsorted⟩, hcreator, hwindow⟩

theorem TypeScript.validateConversationRevival_eq_ok :
    validateConversationRevival r = .ok u ↔ RevivalSchema r := by
  simp only [validateConversationRevival, RevivalSchema, BoundedWindow, IsMatch, bind_eq_ok,
    exactKeys_eq_ok, uuid_eq_ok, did_eq_ok, digest_eq_ok, integer_eq_ok, failIf_eq_ok,
    beq_eq_false_iff_ne, Bool.or_eq_false_iff, decide_eq_false_iff_not, not_le, not_lt,
    exists_and_right, exists_const, Go.parties_iff]

theorem Go.validateConversationRevival_eq_ok :
    validateConversationRevival r = .ok u ↔ RevivalSchema r := by
  simp only [validateConversationRevival, RevivalSchema, IsMatch, bind_eq_ok, exact_eq_ok,
    uuid_eq_ok, did_eq_ok, digest_index_eq_ok, errorIf_eq_ok, beq_eq_false_iff_ne, index_eq_text,
    conversationWindow_eq_ok, exists_const, exists_and_right, parties_iff]

end Schemas

end HailProto.Codec
