import Mathlib

/-!
# Lists that agree element by element

What a list computed from another one, element by element, says about the members of both.
-/

namespace HailProto

variable {α β γ : Type} {R : α → β → Prop} {S : β → γ → Prop} {l : List α} {m : List β}

theorem forall₂_left (h : List.Forall₂ R l m) {a : α} (ha : a ∈ l) : ∃ b ∈ m, R a b := by
  induction h with
  | nil => cases ha
  | @cons a' b l m hab _ ih =>
    obtain rfl | ha := List.mem_cons.1 ha
    · exact ⟨b, List.mem_cons_self, hab⟩
    · obtain ⟨b', hb', hR⟩ := ih ha
      exact ⟨b', List.mem_cons_of_mem _ hb', hR⟩

theorem forall₂_right (h : List.Forall₂ R l m) {b : β} (hb : b ∈ m) : ∃ a ∈ l, R a b := by
  induction h with
  | nil => cases hb
  | @cons a b' l m hab _ ih =>
    obtain rfl | hb := List.mem_cons.1 hb
    · exact ⟨a, List.mem_cons_self, hab⟩
    · obtain ⟨a', ha', hR⟩ := ih hb
      exact ⟨a', List.mem_cons_of_mem _ ha', hR⟩

/-- Two pairings compose. -/
theorem forall₂_comp {n : List γ} (h : List.Forall₂ R l m) (h' : List.Forall₂ S m n) :
    List.Forall₂ (Relation.Comp R S) l n := by
  induction h generalizing n with
  | nil =>
    cases h'
    exact .nil
  | cons hab _ ih =>
    cases h' with
    | cons hbc hrest => exact .cons ⟨_, hab, hbc⟩ (ih hrest)

/-- A relation that follows on the elements pairs the same lists. -/
theorem forall₂_imp_mem {R' : α → β → Prop} (h : ∀ a ∈ l, ∀ b ∈ m, R a b → R' a b)
    (hR : List.Forall₂ R l m) : List.Forall₂ R' l m :=
  (List.forall₂_iff_zip.1 hR).elim fun hlength hpairs => List.forall₂_iff_zip.2
    ⟨hlength, fun hab => h _ (List.of_mem_zip hab).1 _ (List.of_mem_zip hab).2 (hpairs hab)⟩

/-- Relations that agree on the elements pair the same lists. -/
theorem forall₂_congr_mem {R' : α → β → Prop} (h : ∀ a ∈ l, ∀ b ∈ m, R a b ↔ R' a b) :
    List.Forall₂ R l m ↔ List.Forall₂ R' l m :=
  ⟨forall₂_imp_mem fun a ha b hb => (h a ha b hb).1,
    forall₂_imp_mem fun a ha b hb => (h a ha b hb).2⟩

/-- Functions that tell the elements apart alike tell the lists apart alike. -/
theorem map_eq_map_congr {δ ε : Type} {n : List α} {f f' : α → δ} {g g' : α → ε}
    (h : ∀ a ∈ l, ∀ b ∈ n, f a = f' b ↔ g a = g' b) :
    l.map f = n.map f' ↔ l.map g = n.map g' := by
  rw [← List.forall₂_eq_eq_eq, ← List.forall₂_eq_eq_eq, List.forall₂_map_left_iff,
    List.forall₂_map_right_iff, List.forall₂_map_left_iff, List.forall₂_map_right_iff]
  exact forall₂_congr_mem h

/-- A partial function that is defined on every element. -/
theorem mapM_eq_some {f : α → Option β} : l.mapM f = some m ↔
    List.Forall₂ (fun a b => f a = some b) l m := by
  induction l generalizing m with
  | nil => simp [eq_comm]
  | cons a l ih =>
    simp only [List.mapM_cons, Option.pure_def, Option.bind_eq_bind, Option.bind_eq_some_iff,
      Option.some.injEq, List.forall₂_cons_left_iff, ih]
    constructor
    · rintro ⟨b, hb, m, hm, rfl⟩
      exact ⟨b, m, hb, hm, rfl⟩
    · rintro ⟨b, m, hb, hm, rfl⟩
      exact ⟨b, hb, m, hm, rfl⟩

end HailProto
