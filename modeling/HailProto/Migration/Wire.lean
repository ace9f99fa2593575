import HailProto.Codec.Base64Url
import HailProto.Directory.StrictJson
import HailProto.Migration.Handshake
import HailProto.Server.TextEncoding

/-!
# Transfer bodies (`wire.ts`)

The records of a transfer travel as one JSON object, in which each record is an object of the
base64url of its payload and of its signature. A reader bounds the whole body before it parses it,
and the payload of each record after.
-/

namespace HailProto.Migration

open Server Server.Json Directory

def maxTransferWireBytes : ℕ := 16384

/-- How reading a body fails. -/
inductive WireFault
  | thrown (message : String)
  /-- `decodeBase64Url` refuses its text. -/
  | base64
  /-- `TextDecoder` refuses the bytes. -/
  | encoding
  | json (fault : StrictJsonFault)
  deriving DecidableEq

/-- The base64url of bytes as a string. -/
def base64Text (bytes : Bytes) : JsString := js (String.ofList (Codec.encodeBase64Url bytes))

def encodeSignedRecord (signed : SignedHandshake) : Json :=
  .object [(js "payload", .string (base64Text signed.payloadBytes)),
    (js "signature", .string (base64Text signed.signature))]

def decodeText (text : JsString) : Except WireFault Bytes :=
  match Codec.decodeBase64Url (characters text) with
  | some bytes => .ok bytes
  | none => .error .base64

def decodeSignedRecord (value : JsValue JsString) (maxPayloadBytes : ℕ) :
    Except WireFault SignedHandshake :=
  match value with
  | .object properties =>
    match getProperty properties "payload", getProperty properties "signature" with
    | some (.string payload), some (.string signature) => do
        if properties.length ≠ 2 then .error (.thrown "Invalid signed transfer record")
        else
          let payloadBytes ← decodeText payload
          let signature ← decodeText signature
          if payloadBytes.length < 1 ∨ payloadBytes.length > maxPayloadBytes ∨
              signature.length ≠ 64 then
            .error (.thrown "Signed transfer record exceeds its limit")
          else .ok ⟨payloadBytes, signature⟩
    | _, _ => .error (.thrown "Invalid signed transfer record")
  | _ => .error (.thrown "Invalid signed transfer record")

def parseWire (bytes : Bytes) : Except WireFault (JsValue JsString) :=
  if bytes = [] ∨ bytes.length > maxTransferWireBytes then
    .error (.thrown "Transfer wire payload exceeds limit")
  else
    match utf8Decode bytes with
    | none => .error .encoding
    | some text => (parseJsonWithoutDuplicateKeys id text).mapError .json

/-- An object with a record for each name. -/
def recordsTree (records : List (String × SignedHandshake)) : Json :=
  .object (records.map fun entry => (js entry.1, encodeSignedRecord entry.2))

/-- The body of an object with a record for each name. -/
def recordsWire (records : List (String × SignedHandshake)) : Bytes :=
  utf8Encode (write (recordsTree records))

/-- The property of a name, decoded as a record. -/
def decodeProperty (properties : List (JsString × JsValue JsString)) (message name : String) :
    Except WireFault SignedHandshake :=
  match getProperty properties name with
  | some value => decodeSignedRecord value 4096
  | none => .error (.thrown message)

/-- The records of a body that has these properties and no others. -/
def parseRecords (names : List String) (message : String) (bytes : Bytes) :
    Except WireFault (List SignedHandshake) := do
  match ← parseWire bytes with
  | .object properties =>
    if properties.length ≠ names.length ∨
        names.any fun name => (getProperty properties name).isNone then
      .error (.thrown message)
    else names.mapM (decodeProperty properties message)
  | _ => .error (.thrown message)

def invitationWire (grant invitation : SignedHandshake) : Bytes :=
  recordsWire [("grant", grant), ("invitation", invitation)]

/-- `parseInvitationWire`: the grant and the invitation. -/
def parseInvitationWire : Bytes → Except WireFault (List SignedHandshake) :=
  parseRecords ["grant", "invitation"] "Invalid transfer invitation envelope"

def managedInvitationWire (grant acknowledgement : SignedHandshake) : Bytes :=
  recordsWire [("grant", grant), ("acknowledgement", acknowledgement)]

/-- `parseManagedInvitationWire`: the grant and the acknowledgement. -/
def parseManagedInvitationWire : Bytes → Except WireFault (List SignedHandshake) :=
  parseRecords ["grant", "acknowledgement"] "Invalid managed transfer invitation envelope"

def requestWire (request : SignedHandshake) : Bytes :=
  utf8Encode (write (encodeSignedRecord request))

def parseRequestWire (bytes : Bytes) : Except WireFault SignedHandshake := do
  decodeSignedRecord (← parseWire bytes) 4096

def finalRequestWire (selection reservation request : SignedHandshake) : Bytes :=
  recordsWire [("selection", selection), ("reservation", reservation), ("request", request)]

/-- `parseFinalRequestWire`: the selection, the reservation and the request. -/
def parseFinalRequestWire : Bytes → Except WireFault (List SignedHandshake) :=
  parseRecords ["selection", "reservation", "request"] "Invalid final transfer envelope"

def cancellationWire (cancellation receipt : SignedHandshake) : Bytes :=
  recordsWire [("cancellation", cancellation), ("receipt", receipt)]

/-- `parseCancellationWire`: the cancellation and its receipt. -/
def parseCancellationWire : Bytes → Except WireFault (List SignedHandshake) :=
  parseRecords ["cancellation", "receipt"] "Invalid transfer cancellation envelope"

/-! ## What is written -/

/-- A string that is written between quotes as it is. -/
def Plain (s : JsString) : Prop := ∀ c ∈ s, 0x20 ≤ c ∧ c < 0x80 ∧ c ≠ quote ∧ c ≠ backslash

section Writing

variable {s : JsString} {signed : SignedHandshake}

theorem Plain.ascii (h : Plain s) : ∀ c ∈ s, c < 0x80 := fun c hc => (h c hc).2.1

theorem not_surrogate {c : CodeUnit} (h : c < 0x80) : isLead c = false ∧ isTrail c = false := by
  have hlead : ¬0xd800 ≤ c := fun hle => absurd (hle.trans_lt h) (by decide)
  have htrail : ¬0xdc00 ≤ c := fun hle => absurd (hle.trans_lt h) (by decide)
  simp [isLead, isTrail, hlead, htrail]

theorem escapeUnit_plain {c : CodeUnit} (h : 0x20 ≤ c ∧ c < 0x80 ∧ c ≠ quote ∧ c ≠ backslash) :
    escapeUnit c = [c] := by
  obtain ⟨hlow, hhigh, hquote, hback⟩ := h
  have hne : ∀ d : CodeUnit, d < 0x20 → c ≠ d := fun d hd heq => absurd (heq ▸ hlow) (not_le.2 hd)
  obtain ⟨hlead, htrail⟩ := not_surrogate hhigh
  simp only [escapeUnit, if_neg (hne 0x08 (by decide)), if_neg (hne 0x09 (by decide)),
    if_neg (hne 0x0a (by decide)), if_neg (hne 0x0c (by decide)), if_neg (hne 0x0d (by decide)),
    if_neg hquote, if_neg hback, not_lt.2 hlow, hlead, htrail, Bool.or_self, Bool.false_eq_true,
    or_self, if_false]

theorem Plain.quoteUnits_eq (h : Plain s) : quoteUnits s = s := by
  fun_induction quoteUnits s with
  | case1 => rfl
  | case2 c => exact escapeUnit_plain (h c List.mem_cons_self)
  | case3 c d rest hpair ih =>
    have hlead := (not_surrogate (h c List.mem_cons_self).2.1).1
    simp [hlead] at hpair
  | case4 c d rest hpair ih =>
    rw [escapeUnit_plain (h c List.mem_cons_self),
      ih fun e he => h e (List.mem_cons_of_mem c he), List.singleton_append]

theorem Plain.quoteString_eq (h : Plain s) : quoteString s = quote :: (s ++ [quote]) := by
  rw [quoteString, h.quoteUnits_eq]

theorem Plain.quoteString_ascii (h : Plain s) : ∀ c ∈ quoteString s, c < 0x80 := by
  rw [h.quoteString_eq]
  intro c hc
  simp only [List.mem_cons, List.mem_append, List.not_mem_nil, or_false] at hc
  rcases hc with rfl | hc | rfl
  · decide
  · exact h.ascii c hc
  · decide

theorem base64Text_eq (bytes : Bytes) :
    base64Text bytes = (Codec.encodeBase64Url bytes).map fun c => Fin.ofNat 65536 c.toNat :=
  js_ascii fun c hc => by
    have hcode := Codec.alphabet_codes c (Codec.encodeBase64Url_alphabet bytes c hc)
    omega

theorem length_base64Text (bytes : Bytes) : (base64Text bytes).length = (bytes.length * 4 + 2) / 3 := by
  rw [base64Text_eq, List.length_map, Codec.length_encodeBase64Url]

/-- Characters between these codes are written as they are. -/
theorem plain_of_codes {l : List Char}
    (h : ∀ c ∈ l, 45 ≤ c.toNat ∧ c.toNat < 123 ∧ c.toNat ≠ 92) :
    Plain (l.map fun c => Fin.ofNat 65536 c.toNat) := by
  intro c hc
  obtain ⟨letter, hletter, rfl⟩ := List.mem_map.1 hc
  obtain ⟨hlow, hhigh, hback⟩ := h letter hletter
  have hval : (Fin.ofNat 65536 letter.toNat).val = letter.toNat := Nat.mod_eq_of_lt (by omega)
  have hmarks : ((0x20 : CodeUnit).val, (0x80 : CodeUnit).val, quote.val, backslash.val) =
      (32, 128, 34, 92) := rfl
  simp only [Prod.mk.injEq] at hmarks
  simp only [Fin.le_def, Fin.lt_def, ne_eq, Fin.ext_iff, hval]
  omega

theorem plain_base64Text (bytes : Bytes) : Plain (base64Text bytes) := by
  rw [base64Text_eq]
  exact plain_of_codes fun c hc => Codec.alphabet_codes c (Codec.encodeBase64Url_alphabet bytes c hc)

/-- The text of a base64url is decoded to its bytes. -/
theorem decodeText_base64Text (bytes : Bytes) : decodeText (base64Text bytes) = .ok bytes := by
  rw [decodeText, base64Text, characters_js, String.toList_ofList, Codec.decode_encodeBase64Url]

/-- A record that `decodeSignedRecord` accepts. -/
structure Transferable (signed : SignedHandshake) : Prop where
  nonempty : 1 ≤ signed.payloadBytes.length
  bounded : signed.payloadBytes.length ≤ 4096
  signature : signed.signature.length = 64

theorem js_payload_ne_signature : js "payload" ≠ js "signature" := by decide

/-- The size of a record in a body. -/
def recordSize (signed : SignedHandshake) : ℕ :=
  29 + (signed.payloadBytes.length * 4 + 2) / 3 + (signed.signature.length * 4 + 2) / 3

theorem Transferable.recordSize_le (h : Transferable signed) : recordSize signed ≤ 5577 := by
  have hbounded := h.bounded
  have hsignature := h.signature
  unfold recordSize
  omega

theorem plain_name {name : String}
    (h : ∀ c ∈ name.toList, 45 ≤ c.toNat ∧ c.toNat < 123 ∧ c.toNat ≠ 92) : Plain (js name) := by
  have hjs := js_ascii fun c hc => lt_of_lt_of_le (h c hc).2.1 (by decide)
  rw [String.ofList_toList] at hjs
  rw [hjs]
  exact plain_of_codes h

theorem plain_payload : Plain (js "payload") := plain_name (by simp)

theorem plain_signature : Plain (js "signature") := plain_name (by simp)

theorem write_encodeSignedRecord (signed : SignedHandshake) :
    write (encodeSignedRecord signed) = openBrace :: (quoteString (js "payload") ++ colon ::
      (quoteString (base64Text signed.payloadBytes) ++ comma :: (quoteString (js "signature") ++
        colon :: (quoteString (base64Text signed.signature) ++ [closeBrace])))) := rfl

theorem length_write_record (signed : SignedHandshake) :
    (write (encodeSignedRecord signed)).length = recordSize signed := by
  have hpayload : (quoteString (js "payload")).length = 9 := by
    rw [plain_payload.quoteString_eq]
    rfl
  have hsignature : (quoteString (js "signature")).length = 11 := by
    rw [plain_signature.quoteString_eq]
    rfl
  have htext : ∀ bytes : Bytes, (quoteString (base64Text bytes)).length =
      (bytes.length * 4 + 2) / 3 + 2 := by
    intro bytes
    rw [(plain_base64Text bytes).quoteString_eq]
    simp [length_base64Text]
  rw [write_encodeSignedRecord]
  simp only [List.length_cons, List.length_append, List.length_nil, hpayload, hsignature, htext,
    recordSize]
  omega

theorem ascii_write_record (signed : SignedHandshake) :
    ∀ c ∈ write (encodeSignedRecord signed), c < 0x80 := by
  rw [write_encodeSignedRecord]
  intro c hc
  simp only [List.mem_cons, List.mem_append, List.not_mem_nil, or_false] at hc
  rcases hc with rfl | hc | rfl | hc | rfl | hc | rfl | hc | rfl
  · decide
  · exact plain_payload.quoteString_ascii c hc
  · decide
  · exact (plain_base64Text _).quoteString_ascii c hc
  · decide
  · exact plain_signature.quoteString_ascii c hc
  · decide
  · exact (plain_base64Text _).quoteString_ascii c hc
  · decide

theorem evaluate_record (signed : SignedHandshake) :
    evaluate id (encodeSignedRecord signed) = .object
      [(js "payload", .string (base64Text signed.payloadBytes)),
        (js "signature", .string (base64Text signed.signature))] := by
  rw [encodeSignedRecord, evaluate_object id (by simp [js_payload_ne_signature])]
  rfl

/-- A record is decoded from its encoding. -/
theorem decodeSignedRecord_encode (h : Transferable signed) :
    decodeSignedRecord (evaluate id (encodeSignedRecord signed)) 4096 = .ok signed := by
  have hpayload : getProperty [(js "payload", JsValue.string (base64Text signed.payloadBytes)),
      (js "signature", .string (base64Text signed.signature))] "payload" =
        some (JsValue.string (ν := JsString) (base64Text signed.payloadBytes)) := by
    simp [getProperty]
  have hsignature : getProperty [(js "payload", JsValue.string (base64Text signed.payloadBytes)),
      (js "signature", .string (base64Text signed.signature))] "signature" =
        some (JsValue.string (ν := JsString) (base64Text signed.signature)) := by
    simp [getProperty, js_payload_ne_signature]
  have hlimits : ¬(signed.payloadBytes.length < 1 ∨ signed.payloadBytes.length > 4096 ∨
      signed.signature.length ≠ 64) := by
    rintro (hlt | hgt | hne)
    · exact absurd h.nonempty (not_le.2 hlt)
    · exact absurd h.bounded (not_le.2 hgt)
    · exact hne h.signature
  rw [evaluate_record]
  simp only [decodeSignedRecord, hpayload, hsignature, decodeText_base64Text]
  rw [if_neg (by simp)]
  exact if_neg hlimits

end Writing

/-! ## What is read -/

section Reading

variable {tree : Json} {records : List (String × SignedHandshake)}

/-- A body within the limit is read as the value that was written. -/
theorem parseWire_write (hascii : ∀ c ∈ write tree, c < 0x80) (hnumerals : numerals tree = [])
    (hadmitted : StrictJson.Admitted 0 tree) (hne : write tree ≠ []) :
    parseWire (utf8Encode (write tree)) =
      if (write tree).length > maxTransferWireBytes then
        .error (.thrown "Transfer wire payload exceeds limit")
      else .ok (evaluate id tree) := by
  have hbytes := utf8Encode_ascii hascii
  have hlength : (utf8Encode (write tree)).length = (write tree).length := by
    rw [hbytes, List.length_map]
  have hmark : ¬[0xef, 0xbb, 0xbf] <+: utf8Encode (write tree) := by
    obtain ⟨c, rest, hcons⟩ := List.exists_cons_of_ne_nil hne
    have hlt : c.val < 128 := hascii c (hcons ▸ List.mem_cons_self)
    rw [hbytes, hcons, List.map_cons, List.cons_prefix_cons]
    rintro ⟨hfirst, -⟩
    have hcode : 239 = c.val % 256 := congrArg UInt8.toNat hfirst
    omega
  have hread : utf8Decode (utf8Encode (write tree)) = some (write tree) :=
    utf8Decode_utf8Encode (wellFormed_write tree (by simp [hnumerals])) hmark
  have hparse : parseJsonWithoutDuplicateKeys id (write tree) = .ok (evaluate id tree) :=
    StrictJson.parse_eq_ok.2 ⟨tree, isText_write tree (by simp [hnumerals]), hadmitted, rfl⟩
  have hempty : utf8Encode (write tree) ≠ [] := by
    rw [hbytes, ne_eq, List.map_eq_nil_iff]
    exact hne
  rw [parseWire, hread]
  by_cases hlong : (write tree).length > maxTransferWireBytes
  · rw [if_pos hlong, if_pos (.inr (hlength ▸ hlong))]
  · rw [if_neg hlong, if_neg (by rw [hlength]; tauto)]
    simp only [hparse, Except.mapError]

theorem admitted_string (depth : ℕ) (hdepth : depth ≤ 32) (text : JsString) :
    StrictJson.Admitted depth (.string text) :=
  (StrictJson.admitted_scalar (by simp) (by simp)).2 hdepth

theorem admitted_record (signed : SignedHandshake) (depth : ℕ) (hdepth : depth < 32) :
    StrictJson.Admitted depth (encodeSignedRecord signed) := by
  refine StrictJson.admitted_object.2 ⟨hdepth.le, by simp [js_payload_ne_signature], fun m hm => ?_⟩
  rcases List.mem_pair.1 hm with rfl | rfl
  · exact admitted_string _ hdepth _
  · exact admitted_string _ hdepth _

/-- The names of a body: distinct, and written as they are. -/
structure DistinctNames (records : List (String × SignedHandshake)) : Prop where
  distinct : (records.map fun entry => js entry.1).Nodup
  plain : ∀ entry ∈ records, Plain (js entry.1)
  nonempty : records ≠ []

/-- The size of a body with a record for each name. -/
def recordsSize (records : List (String × SignedHandshake)) : ℕ :=
  1 + (records.map fun entry => (js entry.1).length + 4 + recordSize entry.2).sum

theorem writeMembers_cons (name : JsString) (v : Json) (l : List (JsString × Json)) :
    writeMembers ((name, v) :: l) = quoteString name ++ colon :: (write v ++
      if l = [] then [closeBrace] else comma :: writeMembers l) := by
  cases l with
  | nil => simp [writeMembers]
  | cons m l => simp [writeMembers]

theorem length_writeMembers (hplain : ∀ entry ∈ records, Plain (js entry.1)) (hne : records ≠ []) :
    (writeMembers (records.map fun entry => (js entry.1, encodeSignedRecord entry.2))).length =
      (records.map fun entry => (js entry.1).length + 4 + recordSize entry.2).sum := by
  induction records with
  | nil => exact absurd rfl hne
  | cons entry rest ih =>
    have hname : (quoteString (js entry.1)).length = (js entry.1).length + 2 := by
      rw [(hplain entry List.mem_cons_self).quoteString_eq]
      simp
    rw [List.map_cons, writeMembers_cons, List.map_cons, List.sum_cons]
    simp only [List.length_append, List.length_cons, hname, length_write_record]
    by_cases hrest : rest = []
    · subst hrest
      simp only [List.map_nil, if_true, List.length_singleton, List.sum_nil]
      omega
    · have hlength := ih (fun e he => hplain e (List.mem_cons_of_mem entry he)) hrest
      rw [if_neg (by simpa using hrest), List.length_cons, hlength]
      omega

theorem ascii_writeMembers (hplain : ∀ entry ∈ records, Plain (js entry.1)) :
    ∀ c ∈ writeMembers (records.map fun entry => (js entry.1, encodeSignedRecord entry.2)),
      c < 0x80 := by
  induction records with
  | nil =>
    intro c hc
    rw [List.map_nil, writeMembers, List.mem_singleton] at hc
    exact hc ▸ by decide
  | cons entry rest ih =>
    have hrest := ih fun e he => hplain e (List.mem_cons_of_mem entry he)
    intro c hc
    rw [List.map_cons, writeMembers_cons] at hc
    simp only [List.mem_append, List.mem_cons] at hc
    rcases hc with hc | rfl | hc | hc
    · exact (hplain entry List.mem_cons_self).quoteString_ascii c hc
    · decide
    · exact ascii_write_record entry.2 c hc
    · split_ifs at hc
      · rw [List.mem_singleton] at hc
        exact hc ▸ by decide
      · rcases List.mem_cons.1 hc with rfl | hc
        · decide
        · exact hrest c hc

theorem numerals_recordsTree (records : List (String × SignedHandshake)) :
    numerals (recordsTree records) = [] := by
  have hmembers : memberNumerals
      (records.map fun entry => (js entry.1, encodeSignedRecord entry.2)) = [] := by
    induction records with
    | nil => rfl
    | cons entry rest ih =>
      rw [List.map_cons, memberNumerals, ih]
      rfl
  rw [recordsTree, numerals, hmembers]

theorem DistinctNames.admitted (h : DistinctNames records) : StrictJson.Admitted 0 (recordsTree records) := by
  refine StrictJson.admitted_object.2 ⟨by decide, ?_, fun m hm => ?_⟩
  · rw [List.map_map]
    exact h.distinct
  · obtain ⟨entry, -, rfl⟩ := List.mem_map.1 hm
    exact admitted_record entry.2 1 (by decide)

theorem DistinctNames.evaluate_eq (h : DistinctNames records) :
    evaluate id (recordsTree records) = .object
      (records.map fun entry => (js entry.1, evaluate id (encodeSignedRecord entry.2))) := by
  rw [recordsTree, evaluate_object id (by rw [List.map_map]; exact h.distinct), List.map_map]
  rfl

theorem DistinctNames.length_recordsWire (h : DistinctNames records) :
    (recordsWire records).length = recordsSize records := by
  have hascii : ∀ c ∈ write (recordsTree records), c < 0x80 := by
    intro c hc
    rcases List.mem_cons.1 hc with rfl | hc
    · decide
    · exact ascii_writeMembers h.plain c hc
  rw [recordsWire, utf8Encode_ascii hascii, List.length_map, recordsSize,
    ← length_writeMembers h.plain h.nonempty, Nat.add_comm]
  rfl

/-- The property of a name is the record under it. -/
theorem getProperty_records (hdistinct : (records.map fun entry => js entry.1).Nodup)
    {entry : String × SignedHandshake} (hentry : entry ∈ records) :
    getProperty (records.map fun entry => (js entry.1, evaluate id (encodeSignedRecord entry.2)))
      entry.1 = some (evaluate id (encodeSignedRecord entry.2)) := by
  induction records with
  | nil => exact absurd hentry List.not_mem_nil
  | cons first rest ih =>
    rw [List.map_cons, List.nodup_cons] at hdistinct
    rcases List.mem_cons.1 hentry with rfl | hrest
    · simp [getProperty]
    · have hne : js first.1 ≠ js entry.1 := fun heq =>
        hdistinct.1 (heq ▸ List.mem_map_of_mem (f := fun e => js e.1) hrest)
      have hlater := ih hdistinct.2 hrest
      simpa [getProperty, hne] using hlater

/-- A body of acceptable records is read back when it is within the limit, and refused when not. -/
theorem parseRecords_recordsWire (h : DistinctNames records)
    (hrecords : ∀ entry ∈ records, Transferable entry.2) (message : String) :
    parseRecords (records.map Prod.fst) message (recordsWire records) =
      if recordsSize records > maxTransferWireBytes then
        .error (.thrown "Transfer wire payload exceeds limit")
      else .ok (records.map Prod.snd) := by
  have hascii : ∀ c ∈ write (recordsTree records), c < 0x80 := by
    intro c hc
    rcases List.mem_cons.1 hc with rfl | hc
    · decide
    · exact ascii_writeMembers h.plain c hc
  have hlength : (write (recordsTree records)).length = recordsSize records := by
    rw [← h.length_recordsWire, recordsWire, utf8Encode_ascii hascii, List.length_map]
  have hparse := parseWire_write hascii (numerals_recordsTree records) h.admitted (by simp [recordsTree, write])
  rw [hlength] at hparse
  rw [parseRecords, recordsWire, hparse]
  by_cases hlong : recordsSize records > maxTransferWireBytes
  · rw [if_pos hlong, if_pos hlong]
    rfl
  · have hdecode : (records.map Prod.fst).mapM (decodeProperty
        (records.map fun entry => (js entry.1, evaluate id (encodeSignedRecord entry.2))) message) =
          .ok (records.map Prod.snd) := by
      rw [mapM_eq_ok, List.forall₂_map_left_iff, List.forall₂_map_right_iff, List.forall₂_same]
      intro entry hentry
      rw [decodeProperty, getProperty_records h.distinct hentry]
      exact decodeSignedRecord_encode (hrecords entry hentry)
    have hnames : ¬((records.map fun entry =>
        (js entry.1, evaluate id (encodeSignedRecord entry.2))).length ≠
          (records.map Prod.fst).length ∨ (records.map Prod.fst).any fun name => (getProperty
            (records.map fun entry => (js entry.1, evaluate id (encodeSignedRecord entry.2)))
              name).isNone) := by
      rintro (hcount | hmissing)
      · simp at hcount
      · obtain ⟨name, hname, hnone⟩ := List.any_eq_true.1 hmissing
        obtain ⟨entry, hentry, rfl⟩ := List.mem_map.1 hname
        rw [getProperty_records h.distinct hentry] at hnone
        cases hnone
    rw [if_neg hlong, if_neg hlong, ok_bind, h.evaluate_eq]
    simp only [if_neg hnames]
    exact hdecode

end Reading

/-! ## The five bodies -/

theorem names_of_distinct {records : List (String × SignedHandshake)} (hne : records ≠ [])
    (hdistinct : (records.map fun entry => js entry.1).Nodup)
    (hcodes : ∀ entry ∈ records, ∀ c ∈ entry.1.toList,
      45 ≤ c.toNat ∧ c.toNat < 123 ∧ c.toNat ≠ 92) : DistinctNames records :=
  ⟨hdistinct, fun entry hentry => plain_name (hcodes entry hentry), hne⟩

/-- A body of two records is always within the limit. -/
theorem parseRecords_two {first second : String} {a b : SignedHandshake}
    (hnames : DistinctNames [(first, a), (second, b)]) (hfirst : (js first).length ≤ 20)
    (hsecond : (js second).length ≤ 20) (ha : Transferable a) (hb : Transferable b)
    (message : String) :
    parseRecords [first, second] message (recordsWire [(first, a), (second, b)]) =
      .ok [a, b] := by
  have hrecords : ∀ entry ∈ [(first, a), (second, b)], Transferable entry.2 := by
    intro entry hentry
    rcases List.mem_pair.1 hentry with rfl | rfl
    · exact ha
    · exact hb
  have hsize : recordsSize [(first, a), (second, b)] ≤ maxTransferWireBytes := by
    have hboundA := ha.recordSize_le
    have hboundB := hb.recordSize_le
    simp only [recordsSize, List.map_cons, List.map_nil, List.sum_cons, List.sum_nil,
      maxTransferWireBytes]
    omega
  have hread := parseRecords_recordsWire hnames hrecords message
  rw [if_neg (not_lt.2 hsize)] at hread
  exact hread

theorem parseInvitationWire_invitationWire {grant invitation : SignedHandshake}
    (hgrant : Transferable grant) (hinvitation : Transferable invitation) :
    parseInvitationWire (invitationWire grant invitation) = .ok [grant, invitation] :=
  parseRecords_two (names_of_distinct (by simp) (by simp; decide) (by simp)) (by decide) (by decide)
    hgrant hinvitation _

theorem parseManagedInvitationWire_managedInvitationWire {grant acknowledgement : SignedHandshake}
    (hgrant : Transferable grant) (hacknowledgement : Transferable acknowledgement) :
    parseManagedInvitationWire (managedInvitationWire grant acknowledgement) =
      .ok [grant, acknowledgement] :=
  parseRecords_two (names_of_distinct (by simp) (by simp; decide) (by simp)) (by decide) (by decide)
    hgrant hacknowledgement _

theorem parseCancellationWire_cancellationWire {cancellation receipt : SignedHandshake}
    (hcancellation : Transferable cancellation) (hreceipt : Transferable receipt) :
    parseCancellationWire (cancellationWire cancellation receipt) = .ok [cancellation, receipt] :=
  parseRecords_two (names_of_distinct (by simp) (by simp; decide) (by simp)) (by decide) (by decide)
    hcancellation hreceipt _

theorem parseRequestWire_requestWire {request : SignedHandshake} (h : Transferable request) :
    parseRequestWire (requestWire request) = .ok request := by
  have hsize := h.recordSize_le
  have hread := parseWire_write (ascii_write_record request) (by rfl)
    (admitted_record request 0 (by decide)) (by simp [encodeSignedRecord, write])
  rw [length_write_record, if_neg (by rw [maxTransferWireBytes]; omega)] at hread
  rw [parseRequestWire, requestWire, hread]
  exact decodeSignedRecord_encode h

theorem names_final (selection reservation request : SignedHandshake) :
    DistinctNames [("selection", selection), ("reservation", reservation), ("request", request)] :=
  names_of_distinct (by simp) (by simp; decide) (by simp)

/-- A body of three records has forty bytes beside them. -/
theorem length_finalRequestWire (selection reservation request : SignedHandshake) :
    (finalRequestWire selection reservation request).length =
      40 + recordSize selection + recordSize reservation + recordSize request := by
  have hlengths : (js "selection").length = 9 ∧ (js "reservation").length = 11 ∧
      (js "request").length = 7 := by decide
  obtain ⟨hselection, hreservation, hrequest⟩ := hlengths
  rw [finalRequestWire, (names_final selection reservation request).length_recordsWire]
  simp only [recordsSize, List.map_cons, List.map_nil, List.sum_cons, List.sum_nil, hselection,
    hreservation, hrequest]
  omega

/-- A body of three records is read back when it is within the limit, and refused when not. -/
theorem parseFinalRequestWire_finalRequestWire {selection reservation request : SignedHandshake}
    (hselection : Transferable selection) (hreservation : Transferable reservation)
    (hrequest : Transferable request) :
    parseFinalRequestWire (finalRequestWire selection reservation request) =
      if (finalRequestWire selection reservation request).length > maxTransferWireBytes then
        .error (.thrown "Transfer wire payload exceeds limit")
      else .ok [selection, reservation, request] := by
  have hnames := names_final selection reservation request
  have hrecords : ∀ entry ∈ [("selection", selection), ("reservation", reservation),
      ("request", request)], Transferable entry.2 := by
    simp [hselection, hreservation, hrequest]
  rw [finalRequestWire, hnames.length_recordsWire]
  exact parseRecords_recordsWire hnames hrecords _

/-- The bodies of a transfer are read back. For records that `decodeSignedRecord` accepts, those of
one record or two always are; the final request, of three, is exactly when its body has at most
16384 bytes, and is refused otherwise. -/
theorem transferWire_roundtrip {a b c : SignedHandshake} (ha : Transferable a)
    (hb : Transferable b) (hc : Transferable c) :
    parseInvitationWire (invitationWire a b) = .ok [a, b] ∧
    parseManagedInvitationWire (managedInvitationWire a b) = .ok [a, b] ∧
    parseRequestWire (requestWire a) = .ok a ∧
    parseCancellationWire (cancellationWire a b) = .ok [a, b] ∧
    (parseFinalRequestWire (finalRequestWire a b c) = .ok [a, b, c] ↔
      (finalRequestWire a b c).length ≤ maxTransferWireBytes) ∧
    (finalRequestWire a b c).length = 40 + recordSize a + recordSize b + recordSize c := by
  refine ⟨parseInvitationWire_invitationWire ha hb,
    parseManagedInvitationWire_managedInvitationWire ha hb, parseRequestWire_requestWire ha,
    parseCancellationWire_cancellationWire ha hb, ?_, length_finalRequestWire a b c⟩
  rw [parseFinalRequestWire_finalRequestWire ha hb hc]
  by_cases hlong : (finalRequestWire a b c).length > maxTransferWireBytes
  · simp [hlong]
  · simp [if_neg hlong, not_lt.1 hlong]

/-- A record of the largest size. -/
private def largestRecord : SignedHandshake :=
  ⟨List.replicate 4096 0, List.replicate 64 0⟩

private theorem largestRecord_lengths :
    largestRecord.payloadBytes.length = 4096 ∧ largestRecord.signature.length = 64 :=
  ⟨List.length_replicate, List.length_replicate⟩

private theorem largestRecord_transferable : Transferable largestRecord := by
  obtain ⟨hpayload, hsignature⟩ := largestRecord_lengths
  exact ⟨by omega, by omega, hsignature⟩

private def smallRecord : SignedHandshake := ⟨[1], List.replicate 64 0⟩

theorem transferWire_roundtrip_small :
    parseFinalRequestWire (finalRequestWire smallRecord smallRecord smallRecord) =
      .ok [smallRecord, smallRecord, smallRecord] := by
  have hsmall : Transferable smallRecord := ⟨by decide, by decide, by decide⟩
  obtain ⟨-, -, -, -, hfinal, hlength⟩ := transferWire_roundtrip hsmall hsmall hsmall
  exact hfinal.2 (hlength.trans_le (by decide))

/-- Three records of the largest size are each acceptable, and their body is not. -/
theorem finalRequestWire_refused : Transferable largestRecord ∧
    parseFinalRequestWire (finalRequestWire largestRecord largestRecord largestRecord) ≠
      .ok [largestRecord, largestRecord, largestRecord] := by
  refine ⟨largestRecord_transferable, ?_⟩
  have hsize : recordSize largestRecord = 5577 := by
    rw [recordSize, largestRecord_lengths.1, largestRecord_lengths.2]
  have hlong : (finalRequestWire largestRecord largestRecord largestRecord).length >
      maxTransferWireBytes := by
    rw [length_finalRequestWire, hsize]
    decide
  rw [parseFinalRequestWire_finalRequestWire largestRecord_transferable largestRecord_transferable
    largestRecord_transferable, if_pos hlong]
  simp

end HailProto.Migration
