import HailProto.Server.Basic

/-!
# Grant payloads and what they authorize

`hail.grant` as the codec validates it, and the comparison of two revisions in
`grants/revision.ts`. A revision authorizes a set of categories at a set of times; a revision
that does not expand its predecessor authorizes no more than it.
-/

namespace HailProto.Grants

open Server

inductive GrantStatus
  | active
  | revoked
  deriving DecidableEq, Repr

/-- The single selector a grant's scope holds. -/
inductive GrantScope
  | categories (values : List String)
  deriving DecidableEq, Repr

def GrantScope.values : GrantScope → List String
  | .categories values => values

/-- The evidence of the grantee that the grantor consented to. -/
structure ConsentContext where
  granteeAddress : String
  addressBindingHash : Bytes
  senderProfileHash : Bytes
  deriving DecidableEq, Repr

/-- A grant revision that passed `validateGrant`. -/
structure HailGrant where
  grantId : Uuid
  revision : Nat
  previous : Option Bytes
  grantor : Did
  grantee : Did
  scope : GrantScope
  status : GrantStatus
  issuedAt : Nat
  updatedAt : Nat
  expiresAt : Option Nat
  consentContext : ConsentContext
  keyId : String
  revision_pos : 0 < revision
  /-- Exactly the first revision has no predecessor, and a predecessor is named by 32 bytes. -/
  previous_shape : match previous with
    | none => revision = 1
    | some digest => 1 < revision ∧ digest.length = 32
  issuedAt_le : issuedAt ≤ updatedAt
  deriving DecidableEq

/-- `next` authorizes something `current` does not. -/
def expandsAuthorization (current next : HailGrant) : Bool :=
  if next.status = .revoked then false
  else
    next.scope.values.any (fun value => !current.scope.values.contains value) ||
      match current.expiresAt, next.expiresAt with
      | none, _ => false
      | some _, none => true
      | some old, some new => new > old

/-- `next` changes the authorization without expanding it. -/
def restrictsAuthorization (current next : HailGrant) : Bool :=
  !expandsAuthorization current next &&
    (decide (current.scope ≠ next.scope) || decide (current.expiresAt ≠ next.expiresAt) ||
      decide (next.status = .revoked))

/-- Microseconds in a second; grants count seconds, the database clock microseconds. -/
def second : Nat := 1000000

/-- The categories and instants for which a revision lets its grantee deliver. -/
def HailGrant.authorizes (g : HailGrant) : Set (String × Nat) :=
  {p | g.status = .active ∧ (∀ e, g.expiresAt = some e → p.2 ≤ e * second) ∧
    p.1 ∈ g.scope.values}

/-- What `expandsAuthorization` rules out for a revision that is not revoked. -/
structure Within (next current : HailGrant) : Prop where
  categories : ∀ value ∈ next.scope.values, value ∈ current.scope.values
  expiry : ∀ old, current.expiresAt = some old → ∃ new, next.expiresAt = some new ∧ new ≤ old

theorem Within.refl (g : HailGrant) : Within g g :=
  ⟨fun _ h => h, fun old h => ⟨old, h, le_refl old⟩⟩

theorem Within.trans {a b c : HailGrant} (hab : Within a b) (hbc : Within b c) : Within a c := by
  refine ⟨fun value h => hbc.categories value (hab.categories value h), fun old h => ?_⟩
  obtain ⟨middle, hm, hle⟩ := hbc.expiry old h
  obtain ⟨new, hn, hle'⟩ := hab.expiry middle hm
  exact ⟨new, hn, hle'.trans hle⟩

/-- A revision that is not revoked and does not expand its predecessor stays within it. -/
theorem within_of_not_expands {current next : HailGrant} (hactive : next.status = .active)
    (h : expandsAuthorization current next = false) : Within next current := by
  simp only [expandsAuthorization, hactive, reduceCtorEq, ite_false, Bool.or_eq_false_iff,
    List.any_eq_false, Bool.not_eq_true', Bool.not_eq_false, List.contains_iff_mem] at h
  obtain ⟨hcategories, hexpiry⟩ := h
  refine ⟨hcategories, fun old hold => ?_⟩
  rw [hold] at hexpiry
  cases hnew : next.expiresAt with
  | none => simp [hnew] at hexpiry
  | some new =>
    simp only [hnew, gt_iff_lt, decide_eq_false_iff_not, not_lt] at hexpiry
    exact ⟨new, rfl, hexpiry⟩

/-- Staying within an active revision is authorizing no more than it. -/
theorem Within.authorizes_subset {current next : HailGrant} (h : Within next current)
    (hactive : current.status = .active) : next.authorizes ⊆ current.authorizes := by
  rintro ⟨category, time⟩ ⟨_, htime, hcategory⟩
  refine ⟨hactive, fun old hold => ?_, h.categories category hcategory⟩
  obtain ⟨new, hnew, hle⟩ := h.expiry old hold
  exact (htime new hnew).trans (Nat.mul_le_mul_right second hle)

theorem authorizes_of_revoked {g : HailGrant} (h : g.status = .revoked) : g.authorizes = ∅ := by
  ext p
  simp [HailGrant.authorizes, h]

end HailProto.Grants
