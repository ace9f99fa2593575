import HailProto.Codec.Fields

/-!
# Delivery statuses in two languages

`validateDeliveryStatus` of `validation.ts` and `validateDelivery` of `payload.go`. The first
revision is the acceptance and no other is; a hold, a failure and a cancellation have a reason of
their own kind, and a hold alone says when it is tried again.
-/

namespace HailProto.Codec

open Cbor (Value)

/-- `DELIVERY_STATES`. -/
def deliveryStates : List String := ["accepted", "on-hold", "delivered", "failed", "cancelled"]

/-- `HOLD_REASONS`. -/
def holdReasons : List String :=
  ["sender-unreachable", "body-temporarily-unavailable", "body-transfer-interrupted",
    "sender-rate-limited", "receiver-resource-constrained"]

/-- `FAILURE_REASONS`. -/
def failureReasons : List String :=
  ["body-authorization-failed", "body-integrity-failed", "body-invalid", "body-unsupported",
    "delivery-expired", "receiver-policy-rejected"]

/-- `CANCELLATION_REASONS`. -/
def cancellationReasons : List String :=
  ["recipient-cancelled", "receiver-administrative-cancellation"]

/-- The states that carry a reason. -/
def needsReason (state : String) : Bool :=
  state == "on-hold" || state == "failed" || state == "cancelled"

/-- The reasons a state may carry. -/
def reasonsFor (state : String) : List String :=
  if state = "on-hold" then holdReasons
  else if state = "failed" then failureReasons
  else cancellationReasons

namespace TypeScript

/-- The reason, when there is one. -/
def statusReason (payload : Record) (state : String) : Except HailCodecError Unit :=
  if (payload.get "reason").isSome then do
    let reason ← text (payload.get "reason") "$.reason"
    failIf (!(reasonsFor state).contains reason) "reason is not valid for this state" "$.reason"
  else .ok ()

/-- The time of the next attempt, which a hold has and no other state. -/
def statusRetry (payload : Record) (state : String) (occurredAt : Int) :
    Except HailCodecError Unit :=
  if state = "on-hold" then do
    failIf (payload.get "retry_at").isNone "is required for on-hold" "$.retry_at"
    let retryAt ← integer (payload.get "retry_at") "$.retry_at" 0
    failIf (decide (retryAt < occurredAt)) "must not precede occurred_at" "$.retry_at"
  else failIf (payload.get "retry_at").isSome "is prohibited for this state" "$.retry_at"

def validateDeliveryStatus (payload : Record) : Except HailCodecError Unit := do
  exactKeys payload ["type", "version", "message_id", "envelope_digest", "from", "to",
    "revision", "state", "occurred_at"] ["reason", "retry_at"] "$"
  let _ ← uuid (payload.get "message_id") "$.message_id"
  digest (payload.get "envelope_digest") "$.envelope_digest"
  let _ ← did (payload.get "from") "$.from"
  let _ ← did (payload.get "to") "$.to"
  let revision ← integer (payload.get "revision") "$.revision" 1
  let state ← text (payload.get "state") "$.state"
  failIf (!deliveryStates.contains state) "unknown delivery state" "$.state"
  failIf ((revision == 1) != (state == "accepted")) "accepted is required exactly for revision 1"
    "$.state"
  failIf (needsReason state != (payload.get "reason").isSome)
    (if needsReason state then "is required for this state" else "is prohibited for this state")
    "$.reason"
  statusReason payload state
  let occurredAt ← integer (payload.get "occurred_at") "$.occurred_at" 0
  statusRetry payload state occurredAt

end TypeScript

namespace Go

/-- The reasons a state may carry: holds are the default here. -/
def reasonsFor (state : String) : List String :=
  if state = "failed" then failureReasons
  else if state = "cancelled" then cancellationReasons
  else holdReasons

def statusReason (m : Record) (state : String) : Except String Unit :=
  if needsReason state then do
    let reason ← textValue (index m "reason") "$.reason"
    errorIf (!(reasonsFor state).contains reason) "reason invalid for state"
  else .ok ()

/-- `retry, e := intValue(…); if e != nil || retry < occurred`. -/
def retryValue (v : Value) (occurred : Int) : Except String Unit :=
  match intValue v "$.retry_at" 0 with
  | .ok retry => errorIf (decide (retry < occurred)) "invalid retry_at"
  | .error _ => .error "invalid retry_at"

def statusRetry (m : Record) (state : String) (occurred : Int) : Except String Unit :=
  if state = "on-hold" then do
    errorIf (!has m "retry_at") "retry_at required"
    retryValue (index m "retry_at") occurred
  else errorIf (has m "retry_at") "retry_at prohibited"

def validateDelivery (m : Record) : Except String Unit := do
  exact m ["type", "version", "message_id", "envelope_digest", "from", "to",
    "revision", "state", "occurred_at"] ["reason", "retry_at"] "$"
  uuid (index m "message_id") "$.message_id"
  digest (index m "envelope_digest") "$.envelope_digest"
  let _ ← did (index m "from") "$.from"
  let _ ← did (index m "to") "$.to"
  let rev ← intValue (index m "revision") "$.revision" 1
  let state ← textValue (index m "state") "$.state"
  errorIf (!deliveryStates.contains state || (rev == 1) != (state == "accepted"))
    "invalid delivery state/revision"
  errorIf (needsReason state != has m "reason") "invalid delivery reason presence"
  statusReason m state
  let occurred ← intValue (index m "occurred_at") "$.occurred_at" 0
  statusRetry m state occurred

end Go

/-- A reason is there exactly when the state needs one, and is one of its own. -/
def ReasonSchema (r : Record) (state : String) : Prop :=
  needsReason state = (r.get "reason").isSome ∧
    (needsReason state = true →
      ∃ reason, r.get "reason" = some (.text reason) ∧ reason ∈ reasonsFor state)

/-- A hold is tried again, not before it occurred. -/
def RetrySchema (r : Record) (state : String) (occurred : Int) : Prop :=
  (state = "on-hold" ∧ ∃ retry, IsInteger 0 (r.get "retry_at") retry ∧ occurred ≤ retry) ∨
    (state ≠ "on-hold" ∧ r.get "retry_at" = none)

/-- A delivery status. -/
def StatusSchema (r : Record) : Prop :=
  Exact r ["type", "version", "message_id", "envelope_digest", "from", "to",
    "revision", "state", "occurred_at"] ["reason", "retry_at"] ∧
    IsMatch uuidV7Pattern (r.get "message_id") ∧ IsDigest (r.get "envelope_digest") ∧
    IsMatch didPattern (r.get "from") ∧ IsMatch didPattern (r.get "to") ∧
    ∃ revision, IsInteger 1 (r.get "revision") revision ∧
      ∃ state, r.get "state" = some (.text state) ∧
        (state ∈ deliveryStates ∧ (revision = 1 ↔ state = "accepted")) ∧
        ReasonSchema r state ∧
        ∃ occurred, IsInteger 0 (r.get "occurred_at") occurred ∧ RetrySchema r state occurred

section Status

variable {r : Record} {state : String} {occurred : Int} {u : Unit}

theorem bne_eq_false_iff {a b : Bool} : (a != b) = false ↔ a = b := by
  cases a <;> cases b <;> decide

theorem accepted_iff {revision : Int} :
    ((revision == 1) != (state == "accepted")) = false ↔ (revision = 1 ↔ state = "accepted") := by
  rw [bne_eq_false_iff, Bool.eq_iff_iff, beq_iff_eq, beq_iff_eq]

theorem TypeScript.reason_eq_ok :
    ((needsReason state != (r.get "reason").isSome) = false ∧
      ∃ u, statusReason r state = .ok u) ↔
      ReasonSchema r state := by
  rw [bne_eq_false_iff, ReasonSchema]
  refine and_congr_right fun hpresent => ?_
  rw [statusReason, ← hpresent]
  cases hneeds : needsReason state
  · simp
  · simp

theorem Go.reasonsFor_eq (hneeds : needsReason state = true) :
    Go.reasonsFor state = Codec.reasonsFor state := by
  simp only [needsReason, Bool.or_eq_true, beq_iff_eq] at hneeds
  obtain (rfl | rfl) | rfl := hneeds <;> rfl

theorem Go.reason_eq_ok :
    ((needsReason state != has r "reason") = false ∧ ∃ u, statusReason r state = .ok u) ↔
      ReasonSchema r state := by
  rw [bne_eq_false_iff, ReasonSchema, has]
  refine and_congr_right fun hpresent => ?_
  rw [statusReason]
  cases hneeds : needsReason state
  · simp
  · simp [reasonsFor_eq hneeds]

theorem TypeScript.statusRetry_eq_ok :
    statusRetry r state occurred = .ok u ↔ RetrySchema r state occurred := by
  unfold statusRetry RetrySchema
  by_cases hhold : state = "on-hold"
  · simp only [hhold, if_true, bind_eq_ok, failIf_eq_ok, integer_eq_ok, decide_eq_false_iff_not,
      not_lt, exists_const, true_and, ne_eq, not_true_eq_false, false_and, or_false]
    refine and_iff_right_of_imp ?_
    rintro ⟨retry, hretry, _⟩
    rw [hretry.1]
    rfl
  · simp [hhold]

theorem Go.retryValue_eq_ok :
    retryValue (index r "retry_at") occurred = .ok u ↔
      ∃ retry, IsInteger 0 (r.get "retry_at") retry ∧ occurred ≤ retry := by
  unfold retryValue
  split
  · rename_i retry hretry
    rw [intValue_index_eq_ok le_rfl] at hretry
    simp only [errorIf_eq_ok, decide_eq_false_iff_not, not_lt]
    constructor
    · exact fun hle => ⟨retry, hretry, hle⟩
    · rintro ⟨retry', hretry', hle⟩
      have heq := hretry'.1
      rw [hretry.1] at heq
      cases heq
      exact hle
  · rename_i e he
    simp only [reduceCtorEq, false_iff, not_exists, not_and]
    intro retry hretry
    have hvalue : intValue (index r "retry_at") "$.retry_at" 0 = .ok retry :=
      (intValue_index_eq_ok le_rfl).2 hretry
    rw [he] at hvalue
    cases hvalue

theorem Go.statusRetry_eq_ok :
    statusRetry r state occurred = .ok u ↔ RetrySchema r state occurred := by
  unfold statusRetry RetrySchema
  by_cases hhold : state = "on-hold"
  · simp only [hhold, if_true, bind_eq_ok, errorIf_eq_ok, retryValue_eq_ok, exists_const,
      true_and, ne_eq, not_true_eq_false, false_and, or_false]
    refine and_iff_right_of_imp ?_
    rintro ⟨retry, hretry, _⟩
    rw [has, hretry.1]
    rfl
  · simp [hhold, has]

theorem TypeScript.validateDeliveryStatus_eq_ok :
    validateDeliveryStatus r = .ok u ↔ StatusSchema r := by
  simp only [validateDeliveryStatus, StatusSchema, IsMatch, bind_eq_ok, exactKeys_eq_ok,
    uuid_eq_ok, digest_eq_ok, did_eq_ok, integer_eq_ok, text_eq_ok, failIf_eq_ok,
    Bool.not_eq_false', List.contains_iff_mem, accepted_iff, statusRetry_eq_ok, exists_and_right,
    exists_const]
  simp only [← reason_eq_ok, and_assoc]

theorem Go.validateDelivery_eq_ok : validateDelivery r = .ok u ↔ StatusSchema r := by
  simp only [validateDelivery, StatusSchema, IsMatch, bind_eq_ok, exact_eq_ok,
    uuid_eq_ok, digest_index_eq_ok, did_eq_ok, index_eq_text, intValue_index_eq_ok zero_le_one,
    intValue_index_eq_ok le_rfl, textValue_eq_ok, errorIf_eq_ok, Bool.or_eq_false_iff,
    Bool.not_eq_false', List.contains_iff_mem, accepted_iff, statusRetry_eq_ok, exists_and_right,
    exists_const]
  simp only [← reason_eq_ok, and_assoc]

end Status

end HailProto.Codec
