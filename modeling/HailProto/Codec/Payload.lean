import HailProto.Codec.BodyImages
import HailProto.Codec.DeliveryStatus
import HailProto.Codec.EnvelopeSchema
import HailProto.Codec.Profiles

/-!
# The payload validators

`validatePayload` of `validation.ts` and `validatePayloadMap` of `payload.go`: the common checks
of the type and of the version, and the validator of each payload type. TypeScript first checks
the resource limits of the value, which every decoded value keeps.
-/

namespace HailProto.Codec

open Cbor (Value)

/-- The payload types. -/
inductive PayloadType
  | addressBinding
  | senderProfile
  | grant
  | connectionInvitation
  | connectionConfirmation
  | connectionGrant
  | connectionControl
  | conversation
  | conversationRevival
  | envelope
  | deliveryStatus
  | bodySpt1
  | bodySpt2
  | bodySpt3
  deriving DecidableEq

/-- The name of a type on the wire. -/
def PayloadType.name : PayloadType → String
  | .addressBinding => "hail.address-binding"
  | .senderProfile => "hail.sender-profile"
  | .grant => "hail.grant"
  | .connectionInvitation => "hail.connection-invitation"
  | .connectionConfirmation => "hail.connection-confirmation"
  | .connectionGrant => "hail.connection-grant"
  | .connectionControl => "hail.connection-control"
  | .conversation => "hail.conversation"
  | .conversationRevival => "hail.conversation-revival"
  | .envelope => "hail.envelope"
  | .deliveryStatus => "hail.delivery-status"
  | .bodySpt1 => "hail.body.spt-1"
  | .bodySpt2 => "hail.body.spt-2"
  | .bodySpt3 => "hail.body.spt-3"

/-- The types whose values have members for the type and for its version; a body has neither. -/
def PayloadType.isTyped : PayloadType → Bool
  | .bodySpt1 | .bodySpt2 | .bodySpt3 => false
  | _ => true

namespace TypeScript

/-- The version of a typed payload, where it is fixed for the whole type. -/
def payloadVersion (expectedType : PayloadType) (payload : Record) :
    Except HailCodecError Unit :=
  failIf (expectedType != .addressBinding && expectedType != .senderProfile &&
    !(expectedType == .envelope && (strictEqual (payload.get "version") (some (.int 2)) ||
      strictEqual (payload.get "version") (some (.int 3)) ||
      strictEqual (payload.get "version") (some (.int 4)))) &&
    !strictEqual (payload.get "version") (some (.int 1))) "must equal integer 1" "$.version"

/-- The validator of a typed payload. -/
def validateTyped (lib : Libraries) (payload : Record) :
    PayloadType → Except HailCodecError Unit
  | .addressBinding => validateAddressBinding lib.domains payload
  | .senderProfile => validateSenderProfile lib payload
  | .grant => validateGrant lib.domains payload
  | .connectionInvitation => validateConnectionInvitation payload
  | .connectionConfirmation => validateConnectionConfirmation payload
  | .connectionGrant => validateConnectionGrant lib.domains payload
  | .connectionControl => validateConnectionControl payload
  | .conversation => validateConversation payload
  | .conversationRevival => validateConversationRevival payload
  | .envelope => validateEnvelope lib.sha256 payload
  | .deliveryStatus => validateDeliveryStatus payload
  | .bodySpt1 => validateSpt1Body lib payload
  | .bodySpt2 => validateSpt2Body lib payload
  | .bodySpt3 => validateSpt3Body lib payload

def validatePayload (lib : Libraries) (expectedType : PayloadType) (value : Value) :
    Except HailCodecError Unit := do
  assertHailValue value defaultResourceLimits
  let payload ← record (some value) "$"
  if expectedType.isTyped then do
    failIf (!strictEqual (payload.get "type") (some (.text expectedType.name)))
      ("must equal " ++ expectedType.name) "$.type"
    payloadVersion expectedType payload
    validateTyped lib payload expectedType
  else validateTyped lib payload expectedType

end TypeScript

namespace Go

/-- The version of a typed payload. -/
def payloadVersion (kind : PayloadType) (m : Record) : Except String Unit :=
  let message :=
    if kind = .addressBinding then "address-binding version must equal 2"
    else if kind = .senderProfile then "$.version must equal 1 or 2" else "$.version must equal 1"
  match intValue (index m "version") "$.version" 0 with
  | .ok v =>
    if kind = .addressBinding then errorIf (v != 2) message
    else errorIf (v != 1 && !((kind == .senderProfile || kind == .envelope) && v == 2) &&
      !(kind == .envelope && (v == 3 || v == 4))) message
  | .error _ => .error message

/-- The validator of a typed payload. -/
def validateTyped (lib : Libraries) (m : Record) : PayloadType → Except String Unit
  | .addressBinding => validateAddressBinding lib.domains m
  | .senderProfile => validateSenderProfile lib m
  | .grant => validateGrant lib.domains m
  | .connectionInvitation => validateConnectionInvitation m
  | .connectionConfirmation => validateConnectionConfirmation m
  | .connectionGrant => validateConnectionGrant lib.domains m
  | .connectionControl => validateConnectionControl m
  | .conversation => validateConversation m
  | .conversationRevival => validateConversationRevival m
  | .envelope => validateEnvelope lib.sha256 m
  | .deliveryStatus => validateDelivery m
  | .bodySpt1 => validateSpt1Body lib m
  | .bodySpt2 => validateSpt2Body lib m
  | .bodySpt3 => validateSpt3Body lib m

def validatePayloadMap (lib : Libraries) (kind : PayloadType) (m : Record) :
    Except String Unit :=
  if kind.isTyped then do
    expectText m "type" kind.name "$.type"
    payloadVersion kind m
    validateTyped lib m kind
  else validateTyped lib m kind

/-- The map that `DecodePayload` validates: a decoded value of any other form is refused. -/
def validatePayloadValue (lib : Libraries) (kind : PayloadType) (v : Value) :
    Except String Unit :=
  match v with
  | .map m => validatePayloadMap lib kind m
  | _ => .error "payload must be a map"

end Go

/-- A value that a decoder returned: it keeps the default limits. -/
def Decoded (v : Value) : Prop := TypeScript.assertHailValue v defaultResourceLimits = .ok ()

section Dispatch

variable {lib : Libraries} {kind : PayloadType} {m : Record} {u : Unit}

/-- The versions a typed payload may have, but for those its own validator checks. -/
def VersionSchema (kind : PayloadType) (m : Record) : Prop :=
  if kind = .envelope then
    ∃ n, m.get "version" = some (.int n) ∧ (n = 1 ∨ n = 2 ∨ n = 3 ∨ n = 4)
  else m.get "version" = some (.int 1)

/-- A check has one result. -/
theorem exists_unit {p : Unit → Prop} : (∃ u, p u) ↔ p () := Unique.exists_iff

theorem TypeScript.validatePayload_typed (htyped : kind.isTyped = true) (hm : Decoded (.map m)) :
    validatePayload lib kind (.map m) = .ok u ↔
      m.get "type" = some (.text kind.name) ∧ payloadVersion kind m = .ok () ∧
        validateTyped lib m kind = .ok u := by
  rw [Decoded] at hm
  simp only [validatePayload, hm, ok_bind, record, htyped, if_true, bind_eq_ok, failIf_eq_ok,
    Bool.not_eq_false', strictEqual_text, exists_const, exists_unit]

theorem TypeScript.validatePayload_body (hbody : kind.isTyped = false) (hm : Decoded (.map m)) :
    validatePayload lib kind (.map m) = .ok u ↔ validateTyped lib m kind = .ok u := by
  rw [Decoded] at hm
  simp only [validatePayload, hm, ok_bind, record, hbody, Bool.false_eq_true, if_false]

theorem Go.validatePayloadMap_typed (htyped : kind.isTyped = true) :
    validatePayloadMap lib kind m = .ok u ↔
      m.get "type" = some (.text kind.name) ∧ payloadVersion kind m = .ok () ∧
        validateTyped lib m kind = .ok u := by
  simp only [validatePayloadMap, htyped, if_true, bind_eq_ok, expectText_eq_ok, exists_const,
    exists_unit]

theorem Go.validatePayloadMap_body (hbody : kind.isTyped = false) :
    validatePayloadMap lib kind m = .ok u ↔ validateTyped lib m kind = .ok u := by
  simp only [validatePayloadMap, hbody, Bool.false_eq_true, if_false]

theorem TypeScript.payloadVersion_eq_ok (hbinding : kind ≠ .addressBinding)
    (hprofile : kind ≠ .senderProfile) :
    payloadVersion kind m = .ok u ↔ VersionSchema kind m := by
  rw [payloadVersion, failIf_eq_ok, bne_iff_ne.2 hbinding, bne_iff_ne.2 hprofile]
  unfold VersionSchema
  by_cases henvelope : kind = .envelope
  · rw [if_pos henvelope]
    simp only [beq_iff_eq.2 henvelope, Bool.true_and, Bool.and_eq_false_iff, Bool.not_eq_false',
      Bool.or_eq_true, strictEqual_int]
    constructor
    · rintro (((h | h) | h) | h)
      · exact ⟨2, h, by decide⟩
      · exact ⟨3, h, by decide⟩
      · exact ⟨4, h, by decide⟩
      · exact ⟨1, h, by decide⟩
    · rintro ⟨n, h, rfl | rfl | rfl | rfl⟩
      · exact .inr h
      · exact .inl (.inl (.inl h))
      · exact .inl (.inl (.inr h))
      · exact .inl (.inr h)
  · rw [if_neg henvelope]
    simp only [beq_eq_false_iff_ne.2 henvelope, Bool.true_and, Bool.false_and, Bool.not_false,
      Bool.not_eq_false', strictEqual_int]

theorem Go.payloadVersion_eq_ok (hbinding : kind ≠ .addressBinding)
    (hprofile : kind ≠ .senderProfile) :
    payloadVersion kind m = .ok u ↔ VersionSchema kind m := by
  have hone (n : Int) : (n != 1 && !((kind == .senderProfile || kind == .envelope) && n == 2) &&
      !(kind == .envelope && (n == 3 || n == 4))) = false ↔
      if kind = .envelope then n = 1 ∨ n = 2 ∨ n = 3 ∨ n = 4 else n = 1 := by
    by_cases henvelope : kind = .envelope
    · simp [henvelope]
      omega
    · simp [henvelope, hprofile]
  simp only [payloadVersion, VersionSchema, hbinding, if_false]
  constructor
  · intro h
    split at h
    · rename_i n hn
      rw [intValue_index_eq_ok le_rfl] at hn
      rw [errorIf_eq_ok, hone] at h
      split
      · rw [if_pos ‹_›] at h
        exact ⟨n, hn.1, h⟩
      · rw [if_neg ‹_›] at h
        rw [← h]
        exact hn.1
    · cases h
  · intro h
    have hn : ∃ n, IsInteger 0 (m.get "version") n ∧
        if kind = .envelope then n = 1 ∨ n = 2 ∨ n = 3 ∨ n = 4 else n = 1 := by
      by_cases henvelope : kind = .envelope
      · simp only [henvelope, if_true] at h ⊢
        obtain ⟨n, hn, h⟩ := h
        refine ⟨n, ⟨hn, ?_, ?_⟩, h⟩
        · have hle : n.natAbs ≤ 4 := by omega
          exact hle.trans (by decide)
        · omega
      · simp only [henvelope, if_false] at h ⊢
        exact ⟨1, ⟨h, by decide, by decide⟩, rfl⟩
    obtain ⟨n, hn, h⟩ := hn
    rw [(intValue_index_eq_ok le_rfl).2 hn]
    exact errorIf_eq_ok.2 ((hone n).2 h)

end Dispatch

end HailProto.Codec
