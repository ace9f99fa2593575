import HailProto.Codec.CommandPayloads

/-!
# Signing an inspected object again

What `parse` accepts is exactly a wrapper of one form: its headers are fixed by the kind and the
signer, and its payload is the deterministic encoding of a value with the schema of the kind. The
JSON of that value is taken back as the value, so that signing it makes the same wrapper again with
another signature.
-/

namespace HailProto.Codec.Rust

open Cbor (Value Base64 Limits decode encode asBytes Shaped reading)

/-- The headers of an object of this kind by this signer. -/
def protectedHeaders (q : Profile) (signer : String) : List (Value × Value) :=
  [(.int 1, .int (-19)), (.int 3, .text q.contentType),
    (.int 4, .bytes (asBytes (signer ++ "#" ++ q.role)))]

/-- A signed wrapper. -/
def wrapper (protectedBytes payload signature : List UInt8) : Value :=
  .tag 18 (.array [.bytes protectedBytes, .map [], .bytes payload, .bytes signature])

/-- What is signed of a wrapper. -/
def signedContent (protectedBytes payload : List UInt8) : Value :=
  .array [.text "Signature1", .bytes protectedBytes, .bytes [], .bytes payload]

section Headers

variable {headers : List (Value × Value)} {key : Int} {v : Value}

theorem mem_of_header (h : header headers key = .ok v) : (Value.int key, v) ∈ headers := by
  rw [header] at h
  split at h
  next e hfind =>
      cases h
      have hkey := List.find?_some hfind
      have hmem := List.mem_of_find?_eq_some hfind
      obtain ⟨k, w⟩ := e
      cases k with
      | int n =>
        rw [beq_iff_eq] at hkey
        rwa [← hkey]
      | _ => cases hkey
  next _ => cases h

/-- Three headers that are in order and hold these are these. -/
theorem headers_eq {a b c : Value × Value} (hlength : headers.length = 3)
    (hsorted : (headers.map fun e => e.1.encoding).Pairwise (· < ·)) (ha : a ∈ headers)
    (hb : b ∈ headers) (hc : c ∈ headers)
    (habc : ([a, b, c].map fun e => e.1.encoding).Pairwise (· < ·)) : headers = [a, b, c] := by
  rw [List.pairwise_map] at hsorted habc
  have hsub : [a, b, c] ⊆ headers := by simp [ha, hb, hc]
  have hnodup : [a, b, c].Nodup := habc.imp fun hlt heq => by
    rw [heq] at hlt
    exact lt_irrefl _ hlt
  have hperm : [a, b, c].Perm headers :=
    (List.subperm_of_subset hnodup hsub).perm_of_length_le hlength.le
  refine (hperm.symm.eq_of_pairwise (fun x y _ _ hxy hyx => ?_) hsorted habc)
  exact absurd hxy (lt_asymm hyx)

end Headers

section Parsing

variable {lib : Libraries} {kind : String} {b : List UInt8} {parsed : Parsed}

theorem parseHeaders_eq_ok {q : Profile} {headers : List (Value × Value)} {kid : String}
    (hlength : headers.length = 3)
    (hsorted : (headers.map fun e => e.1.encoding).Pairwise (· < ·)) :
    parseHeaders q.contentType headers = .ok kid ↔
      headers = [(.int 1, .int (-19)), (.int 3, .text q.contentType),
        (.int 4, .bytes (asBytes kid))] := by
  constructor
  · intro h
    simp only [parseHeaders, bind_eq_ok, text_eq_ok, bytes_eq_ok, ensure_eq_ok,
      Bool.and_eq_true, beq_iff_eq] at h
    obtain ⟨algorithm, halgorithm, _, htype, _, rfl, _, ⟨hknown, rfl⟩, _, hkid, kid', rfl, h⟩ := h
    have hnumber : algorithm = .int (-19) := by
      cases algorithm with
      | int n =>
        rw [beq_iff_eq] at hknown
        rw [hknown]
      | _ => cases hknown
    subst hnumber
    cases hutf : Cbor.fromUtf8 kid' with
    | none =>
      rw [hutf] at h
      cases h
    | some s =>
      rw [hutf] at h
      cases h
      obtain rfl := Cbor.fromUtf8_eq_some.1 hutf
      have horder : ([(Value.int 1, Value.int (-19)), (.int 3, .text q.contentType),
          (.int 4, .bytes (asBytes kid))].map fun e => e.1.encoding).Pairwise (· < ·) := by
        simp only [List.map_cons, List.map_nil]
        decide
      exact headers_eq hlength hsorted (mem_of_header halgorithm) (mem_of_header htype)
        (mem_of_header hkid) horder
  · rintro rfl
    have hutf : Cbor.fromUtf8 (asBytes kid) = some kid := Cbor.fromUtf8_eq_some.2 rfl
    simp [parseHeaders, header, Rust.text, Rust.bytes, ensure, hutf]

/-- What is parsed is a wrapper of an encoded payload by its signer. -/
theorem parse_eq_ok : parse lib kind b = .ok parsed ↔ ∃ q signer, profile kind = .ok q ∧
    decode b (.forCose q.maximum) true =
      .ok (wrapper parsed.protectedBytes parsed.payloadBytes parsed.signature) ∧
    parsed.signature.length = 64 ∧
    decode parsed.protectedBytes (.forCose 1024) false = .ok (.map (protectedHeaders q signer)) ∧
    decode parsed.payloadBytes (.payload q.maximum) false = .ok parsed.payload ∧
    Schema.validate lib kind parsed.payload = .ok () ∧
    Rust.text (field parsed.payload q.signer) = .ok signer ∧
    Rust.text (field parsed.payload "key_id") = .ok (signer ++ "#" ++ q.role) := by
  constructor
  · intro h
    rw [parse, bind_eq_ok] at h
    obtain ⟨q, hq, h⟩ := h
    rw [bind_eq_ok] at h
    obtain ⟨outer, houter, h⟩ := h
    split at h
    next parts =>
        simp only [bind_eq_ok, array_eq_ok] at h
        obtain ⟨values, rfl, h⟩ := h
        split at h
        next protectedPart unprotected payload signature =>
            unfold parseParts at h
            simp only [bind_eq_ok, bytes_eq_ok, ensure_eq_ok, Bool.and_eq_true, beq_iff_eq] at h
            obtain ⟨sig, rfl, _, ⟨hempty, hlength⟩, prot, rfl, headers, hheaders, h⟩ := h
            split at hempty
            next =>
                split at h
                next headers =>
                    simp only [bind_eq_ok, bytes_eq_ok, ensure_eq_ok, Bool.and_eq_true, beq_iff_eq,
                      Except.ok.injEq] at h
                    obtain ⟨_, hthree, kid, hkid, bs, rfl, p, hp, _, hvalid, signer, hsigner, key,
                      hkey, _, ⟨rfl, rfl⟩, rfl⟩ := h
                    have hsorted := (Cbor.decode_eq_ok.1 hheaders).2.1.2.2.1
                    rw [parseHeaders_eq_ok hthree hsorted] at hkid
                    subst hkid
                    exact ⟨q, signer, hq, houter, hlength, hheaders, hp, hvalid, hsigner, hkey⟩
                next => cases h
            next => cases hempty
        next => cases h
    next => cases h
  · rintro ⟨q, signer, hq, hdecode, hlength, hheaders, hpayload, hvalid, hsigner, hkey⟩
    have hsorted := (Cbor.decode_eq_ok.1 hheaders).2.1.2.2.1
    have hkid : parseHeaders q.contentType (protectedHeaders q signer) =
        .ok (signer ++ "#" ++ q.role) := (parseHeaders_eq_ok rfl hsorted).2 rfl
    have hthree : (protectedHeaders q signer).length = 3 := rfl
    simp only [parse, hq, hdecode, ok_bind, wrapper, Rust.array, parseParts, Rust.bytes, hlength,
      ensure, BEq.rfl, Bool.and_self, if_true, hheaders, hthree, hkid, hpayload, hvalid, hsigner,
      hkey]

end Parsing

section Signing

variable {lib : Libraries} {kind : String} {b : List UInt8} {parsed : Parsed}
  {protectedBytes payload signature signature' : List UInt8} {limits : Limits}

theorem length_encoding_bytes (b : List UInt8) :
    (Value.bytes b).encoding.length = TypeScript.argumentSize b.length + b.length := by
  rw [Value.encoding, List.length_append, length_head]

theorem length_encoding_array (values : List Value) : (Value.array values).encoding.length =
    TypeScript.argumentSize values.length + (values.map fun v => v.encoding.length).sum := by
  rw [Cbor.encoding_array, List.length_append, length_head, List.length_flatten, List.map_map]
  rfl

theorem length_wrapper : (wrapper protectedBytes payload signature).encoding.length =
    (Value.bytes protectedBytes).encoding.length + (Value.bytes payload).encoding.length +
      (Value.bytes signature).encoding.length + 3 := by
  have hmap : (Value.map []).encoding.length = 1 := by rfl
  have htag : (Cbor.head 6 (18 : UInt64).toNat).length = 1 := by decide
  have hfour : TypeScript.argumentSize 4 = 1 := by decide
  have hparts : (wrapper protectedBytes payload signature).encoding =
      Cbor.head 6 (18 : UInt64).toNat ++ (Value.array [.bytes protectedBytes, .map [],
        .bytes payload, .bytes signature]).encoding := by rfl
  rw [hparts, List.length_append, htag, length_encoding_array]
  simp only [List.map_cons, List.map_nil, List.sum_cons, List.sum_nil, hmap, List.length_cons,
    List.length_nil, Nat.reduceAdd, hfour]
  omega

theorem shaped_wrapper {d : Cbor.Discipline} {levels : Nat}
    (h : Shaped limits d levels (wrapper protectedBytes payload signature))
    (hlength : signature'.length = signature.length) :
    Shaped limits d levels (wrapper protectedBytes payload signature') := by
  cases levels with
  | zero => exact h.elim
  | succ levels =>
  obtain ⟨htag, harray⟩ := h
  cases levels with
  | zero => exact harray.elim
  | succ levels =>
  obtain ⟨hcount, hsize, hall⟩ := harray
  refine ⟨htag, hcount, hsize, ?_⟩
  simp only [List.forall_mem_cons] at hall ⊢
  obtain ⟨hprotected, hmap, hpayload, hsignature, hnil⟩ := hall
  refine ⟨hprotected, hmap, hpayload, ?_, hnil⟩
  cases levels with
  | zero => exact hsignature.elim
  | succ levels =>
    rw [Shaped, hlength]
    exact hsignature

/-- A wrapper with another signature of the same length is read too. -/
theorem decode_wrapper
    (h : decode b limits true = .ok (wrapper protectedBytes payload signature))
    (hlength : signature'.length = signature.length) :
    decode (wrapper protectedBytes payload signature').encoding limits true =
      .ok (wrapper protectedBytes payload signature') := by
  obtain ⟨hbytes, hshaped, hitems, rfl⟩ := Cbor.decode_eq_ok.1 h
  refine Cbor.decode_eq_ok.2 ⟨?_, shaped_wrapper hshaped hlength, hitems, rfl⟩
  rw [length_wrapper, length_encoding_bytes signature'] 
  rw [length_wrapper, length_encoding_bytes signature] at hbytes
  rw [hlength]
  exact hbytes

theorem argumentSize_le_nine (n : Nat) : TypeScript.argumentSize n ≤ 9 := by
  unfold TypeScript.argumentSize
  split_ifs <;> omega

/-- What is signed is always short enough. -/
theorem signatureInput_eq_ok (hprotected : protectedBytes.length ≤ 1024)
    (hpayload : payload.length ≤ 262144) :
    signatureInput protectedBytes payload =
      .ok (signedContent protectedBytes payload).encoding := by
  have hitems : (signedContent protectedBytes payload).items = 5 := rfl
  have hshaped : Shaped (.forCose 264192) (reading false) 9
      (signedContent protectedBytes payload) := by
    have hsafe (n : Nat) (hn : n ≤ 264192) : n ≤ Cbor.maxSafe := hn.trans (by decide)
    have htext : (asBytes "Signature1").length = 10 := by decide
    have hfour : 4 ≤ (Limits.forCose 264192).array.toNat := by decide
    have hword : 10 ≤ (Limits.forCose 264192).text.toNat := by decide
    have hstring : (Limits.forCose 264192).string.toNat = 264192 := by decide
    refine ⟨hfour, hsafe 4 (by decide), ?_⟩
    simp only [List.forall_mem_cons, Shaped, reading, htext, List.length_nil, hstring]
    exact ⟨⟨hword, hsafe 10 (by decide)⟩, ⟨by omega, hsafe _ (by omega)⟩,
      ⟨by decide, hsafe 0 (by decide)⟩, ⟨by omega, hsafe _ (by omega)⟩, by simp⟩
  have hlength : (signedContent protectedBytes payload).encoding.length ≤ 264192 := by
    have hword : (Value.text "Signature1").encoding.length = 11 := by rfl
    have hempty : (Value.bytes []).encoding.length = 1 := by rfl
    have hfour : TypeScript.argumentSize 4 = 1 := by decide
    have hprotectedHead := argumentSize_le_nine protectedBytes.length
    have hpayloadHead := argumentSize_le_nine payload.length
    rw [signedContent, length_encoding_array]
    simp only [List.map_cons, List.map_nil, List.sum_cons, List.sum_nil, hword, hempty,
      length_encoding_bytes, List.length_cons, List.length_nil, Nat.reduceAdd, hfour]
    omega
  have hdecode : decode (signedContent protectedBytes payload).encoding (.forCose 264192) false =
      .ok (signedContent protectedBytes payload) := by
    refine Cbor.decode_eq_ok.2 ⟨hlength, hshaped, ?_, rfl⟩
    rw [hitems]
    decide
  exact (Cbor.codec_canonical (.forCose 264192) false).1 _ _ hdecode

/-- A wrapper leaves room for the bytes around its payload. -/
theorem length_payload_le {maximum : UInt64} (h : decode b (.forCose maximum) true =
    .ok (wrapper protectedBytes payload signature)) (hlength : signature.length = 64) :
    payload.length + 66 ≤ maximum.toNat := by
  obtain ⟨hbytes, _, _, rfl⟩ := Cbor.decode_eq_ok.1 h
  have hsignature : TypeScript.argumentSize 64 = 2 := by decide
  rw [length_wrapper, length_encoding_bytes signature, length_encoding_bytes payload, hlength,
    hsignature] at hbytes
  have hlimit : (Limits.forCose maximum).bytes = maximum := rfl
  rw [hlimit] at hbytes
  omega

theorem maximum_le {q : Profile} (h : profile kind = .ok q) : q.maximum.toNat ≤ 262144 := by
  unfold profile at h
  split_ifs at h <;> cases h <;> decide

/-- Signing what was parsed makes the same wrapper with another signature. -/
theorem sign_parsed (h : parse lib kind b = .ok parsed) (key : List UInt8 → List UInt8)
    (hkey : ∀ input, (key input).length = 64) :
    ∃ input b', signatureInput parsed.protectedBytes parsed.payloadBytes = .ok input ∧
      sign lib kind parsed.payload key = .ok b' ∧
      parse lib kind b' = .ok { parsed with signature := key input } := by
  obtain ⟨q, signer, hq, hdecode, hlength, hheaders, hpayload, hvalid, hsigner, hkid⟩ :=
    parse_eq_ok.1 h
  have hmaximum := maximum_le hq
  have hroom := length_payload_le hdecode hlength
  have hprotected : parsed.protectedBytes.length ≤ 1024 := (Cbor.decode_eq_ok.1 hheaders).1
  have hpayloadLength : parsed.payloadBytes.length ≤ 262144 := by omega
  have hinput := signatureInput_eq_ok hprotected hpayloadLength
  have hagain := decode_wrapper hdecode ((hkey (signedContent parsed.protectedBytes
    parsed.payloadBytes).encoding).trans hlength.symm)
  have hheaderBytes := (Cbor.codec_canonical (.forCose 1024) false).1 _ _ hheaders
  have hpayloadBytes := (Cbor.codec_canonical (.payload q.maximum) false).1 _ _ hpayload
  refine ⟨_, _, hinput, ?_, parse_eq_ok.2 ⟨q, signer, hq, hagain, hkey _, hheaders, hpayload,
    hvalid, hsigner, hkid⟩⟩
  rw [protectedHeaders] at hheaderBytes
  simp only [sign, hq, hvalid, hsigner, hheaderBytes, hpayloadBytes, hinput, ok_bind]
  exact (Cbor.codec_canonical (.forCose q.maximum) true).1 _ _ hagain

/-- The JSON of every object that is parsed is taken back as its payload, whose deterministic
encoding is the payload of the wrapper; so signing it again makes a wrapper that is parsed alike but
for its signature. -/
theorem inspected_object_signs_again (lib : Libraries) (base64 : Base64) (kind : String)
    (b : List UInt8) (parsed : Parsed) (h : parse lib kind b = .ok parsed) :
    ∃ json q, inspect lib base64 kind b = .ok (some json) ∧
      fromDiagnostic lib base64 kind json = .ok parsed.payload ∧
      profile kind = .ok q ∧
      encode parsed.payload (.payload q.maximum) false = .ok parsed.payloadBytes ∧
      ∀ key : List UInt8 → List UInt8, (∀ input, (key input).length = 64) →
        ∃ input b', signatureInput parsed.protectedBytes parsed.payloadBytes = .ok input ∧
          sign lib kind parsed.payload key = .ok b' ∧
          parse lib kind b' = .ok { parsed with signature := key input } := by
  obtain ⟨q, signer, hq, hdecode, hlength, _, hpayload, hvalid, _⟩ := parse_eq_ok.1 h
  have hplain := plain_of_shaped rfl (Cbor.decode_eq_ok.1 hpayload).2.1
  obtain ⟨growth, hshows, hgrowth⟩ := validate_shows hplain hq hvalid
  have hsize : TypeScript.diagnosticSize parsed.payload ≤ 262144 := by
    have hroom := length_payload_le hdecode hlength
    have hpayloadLength : TypeScript.encodedSize parsed.payload = parsed.payloadBytes.length := by
      rw [TypeScript.encodedSize_eq_length hplain, ← (Cbor.decode_eq_ok.1 hpayload).2.2.2]
    have hle := hshows.size
    omega
  obtain ⟨json, hjson, hvalue⟩ : ∃ json, parsed.payload.diagnostic base64 = some json ∧
      Cbor.fromJson json = .ok (shown base64 parsed.payload) :=
    fromJson_diagnostic hpayload hshows.restorable hsize
  refine ⟨json, q, ?_, ?_, hq, (Cbor.codec_canonical (.payload q.maximum) false).1 _ _ hpayload,
    sign_parsed h⟩
  · rw [inspect, h, ok_bind, hjson]
  · rw [fromDiagnostic, hvalue, ok_bind, hshows.restorable.convert_shown, ok_bind, hvalid, ok_bind]

end Signing

/-- An address binding. -/
def boundAddress : Value :=
  .map [(.text "did", .text "did:plc:aaaaaaaaaaaaaaaaaaaaaaaa"),
    (.text "type", .text "hail.address-binding"),
    (.text "key_id", .text "did:plc:aaaaaaaaaaaaaaaaaaaaaaaa#hail-identity"),
    (.text "address", .text "a@b.co"), (.text "version", .int 2), (.text "issued_at", .int 0)]

/-- The binding as its signer wraps it. -/
def boundAddressParsed : Parsed where
  payload := boundAddress
  protectedBytes := (Value.map (protectedHeaders
    ⟨"application/hail-address-binding+cbor", "did", "hail-identity", 16384⟩
    "did:plc:aaaaaaaaaaaaaaaaaaaaaaaa")).encoding
  payloadBytes := boundAddress.encoding
  signature := List.replicate 64 0

def boundAddressBytes : List UInt8 :=
  (wrapper boundAddressParsed.protectedBytes boundAddressParsed.payloadBytes
    boundAddressParsed.signature).encoding

set_option maxRecDepth 20000 in
theorem parse_boundAddress :
    parse plainLibraries "hail.address-binding" boundAddressBytes = .ok boundAddressParsed := by
  refine parse_eq_ok.2 ⟨⟨"application/hail-address-binding+cbor", "did", "hail-identity", 16384⟩,
    "did:plc:aaaaaaaaaaaaaaaaaaaaaaaa", rfl, ?_, rfl, ?_, ?_, ?_, rfl, rfl⟩
  · rfl
  · rfl
  · rfl
  · rfl

theorem inspected_object_signs_again_binding :
    ∃ json q, inspect plainLibraries codecBase64 "hail.address-binding" boundAddressBytes =
        .ok (some json) ∧
      fromDiagnostic plainLibraries codecBase64 "hail.address-binding" json = .ok boundAddress ∧
      profile "hail.address-binding" = .ok q ∧
      encode boundAddress (.payload q.maximum) false = .ok boundAddressParsed.payloadBytes ∧
      ∀ key : List UInt8 → List UInt8, (∀ input, (key input).length = 64) →
        ∃ input b', signatureInput boundAddressParsed.protectedBytes
            boundAddressParsed.payloadBytes = .ok input ∧
          sign plainLibraries "hail.address-binding" boundAddress key = .ok b' ∧
          parse plainLibraries "hail.address-binding" b' =
            .ok { boundAddressParsed with signature := key input } :=
  inspected_object_signs_again plainLibraries codecBase64 "hail.address-binding" boundAddressBytes
    boundAddressParsed parse_boundAddress

end HailProto.Codec.Rust
