import Mathlib

/-!
# Sequencing of fallible computations

A computation that sequences two fallible parts succeeds exactly when both do. Every
symbolic execution of a model function goes through these inversion rules, so that no
proof unfolds the monad.
-/

namespace HailProto

variable {ε α β : Type}

/-- A sequenced computation succeeds exactly when both of its parts do. -/
@[simp] theorem bind_eq_ok {x : Except ε α} {f : α → Except ε β} {b : β} :
    (x >>= f) = .ok b ↔ ∃ a, x = .ok a ∧ f a = .ok b := by
  cases x with
  | error e =>
    constructor
    · intro h
      cases h
    · rintro ⟨a, h, _⟩
      cases h
  | ok a =>
    constructor
    · intro h
      exact ⟨a, rfl, h⟩
    · rintro ⟨_, h, hf⟩
      cases h
      exact hf

/-- A guarded computation succeeds exactly when its guard is off and the rest succeeds. -/
@[simp] theorem guard_eq_ok {c : Prop} [Decidable c] {e : ε} {x : Except ε α} {a : α} :
    (if c then .error e else x) = .ok a ↔ ¬c ∧ x = .ok a := by
  by_cases hc : c <;> simp [hc]

/-- A sequenced computation fails in its first part or in its second. -/
theorem bind_eq_error {x : Except ε α} {f : α → Except ε β} {e : ε} :
    (x >>= f) = .error e ↔ x = .error e ∨ ∃ a, x = .ok a ∧ f a = .error e := by
  cases x with
  | error e' => exact ⟨fun h => .inl (by cases h; rfl), by rintro (h | ⟨a, h, _⟩) <;> cases h; rfl⟩
  | ok a =>
    constructor
    · intro h
      exact .inr ⟨a, rfl, h⟩
    · rintro (h | ⟨_, h, hf⟩)
      · cases h
      · cases h
        exact hf

theorem error_ne_error {e e' : ε} (h : e' ≠ e) : (.error e' : Except ε α) ≠ .error e :=
  fun he => h (Except.error.inj he)

/-- A sequenced computation does not raise what neither of its parts raises. -/
theorem bind_ne_error {x : Except ε α} {f : α → Except ε β} {e : ε} (hx : x ≠ .error e)
    (hf : ∀ a, x = .ok a → f a ≠ .error e) : (x >>= f) ≠ .error e := by
  rw [ne_eq, bind_eq_error, not_or, not_exists]
  exact ⟨hx, fun a h => hf a h.1 h.2⟩

/-- A guarded computation does not raise what neither its guard nor the rest raises. -/
theorem guard_ne_error {c : Prop} [Decidable c] {e e' : ε} {x : Except ε α} (he : e' ≠ e)
    (hx : x ≠ .error e) : (if c then .error e' else x) ≠ .error e := by
  by_cases hc : c
  · rw [if_pos hc]
    exact error_ne_error he
  · rw [if_neg hc]
    exact hx

/-- A mapped computation succeeds exactly when it does. -/
@[simp] theorem map_eq_ok {x : Except ε α} {f : α → β} {b : β} :
    x.map f = .ok b ↔ ∃ a, x = .ok a ∧ f a = b := by
  cases x with
  | error e => simp [Except.map]
  | ok a => simp [Except.map]

theorem toOption_eq_some {x : Except ε α} {a : α} : x.toOption = some a ↔ x = .ok a := by
  cases x <;> simp [Except.toOption]

theorem isOk_iff {x : Except ε α} : x.isOk = true ↔ ∃ a, x = .ok a := by
  cases x <;> simp [Except.isOk, Except.toBool]

/-- Running on a successful prefix is running the rest. -/
@[simp] theorem ok_bind (a : α) (f : α → Except ε β) : ((.ok a : Except ε α) >>= f) = f a := rfl

@[simp] theorem pure_eq_ok (a : α) : (pure a : Except ε α) = .ok a := rfl

/-- A list is mapped exactly when each of its elements is. -/
theorem mapM_eq_ok {f : α → Except ε β} {l : List α} {r : List β} :
    l.mapM f = .ok r ↔ List.Forall₂ (fun a b => f a = .ok b) l r := by
  induction l generalizing r with
  | nil => cases r <;> simp
  | cons a l ih =>
    rw [List.mapM_cons, bind_eq_ok]
    constructor
    · rintro ⟨b, hb, hrest⟩
      obtain ⟨bs, hbs, hr⟩ := bind_eq_ok.1 hrest
      cases hr
      exact .cons hb (ih.1 hbs)
    · rintro (_ | ⟨hb, hbs⟩)
      exact ⟨_, hb, bind_eq_ok.2 ⟨_, ih.2 hbs, rfl⟩⟩

/-- Two computations agree: both fail, or both succeed with related results. -/
def Agree {δ : Type} (R : α → β → Prop) : Except ε α → Except δ β → Prop
  | .ok a, .ok b => R a b
  | .error _, .error _ => True
  | _, _ => False

section Agreement

variable {δ α' β' : Type} {R : α → β → Prop} {S : α' → β' → Prop}
  {x : Except ε α} {y : Except δ β}

/-- Computations that agree stay in agreement when related results continue in agreement. -/
theorem Agree.bind {f : α → Except ε α'} {g : β → Except δ β'} (h : Agree R x y)
    (hnext : ∀ a b, R a b → Agree S (f a) (g b)) : Agree S (x >>= f) (y >>= g) := by
  cases x with
  | error e =>
    cases y with
    | error e' => exact h
    | ok b => exact h.elim
  | ok a =>
    cases y with
    | error e' => exact h.elim
    | ok b => exact hnext a b h

/-- Guards that are equivalent keep computations in agreement. -/
theorem Agree.guard {c d : Prop} [Decidable c] [Decidable d] {e : ε} {e' : δ} (hcd : c ↔ d)
    (h : ¬c → Agree R x y) :
    Agree R (if c then .error e else x) (if d then .error e' else y) := by
  by_cases hc : c
  · rw [if_pos hc, if_pos (hcd.1 hc)]
    trivial
  · rw [if_neg hc, if_neg (fun hd => hc (hcd.2 hd))]
    exact h hc

theorem Agree.ok_iff {y : Except δ α} {a : α} {x : Except ε α} (h : Agree Eq x y) :
    x = .ok a ↔ y = .ok a := by
  cases x with
  | error e =>
    cases y with
    | error e' => simp
    | ok b => exact h.elim
  | ok b =>
    cases y with
    | error e' => exact h.elim
    | ok c =>
      cases (show b = c from h)
      simp

end Agreement

end HailProto
