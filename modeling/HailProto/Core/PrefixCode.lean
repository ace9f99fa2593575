import Mathlib.Data.List.Basic

/-!
# Words that can be split off

A code splits when its words can be told from whatever follows them, as long as what follows may
stand there. Runs of such words up to a terminator, and lists of them with a separator, can then
be read back. A code need not tell all symbols apart: what a word tells of its symbol is a
function of the symbol.
-/

namespace HailProto.Core

variable {α β γ : Type}

/-- The words of `f` for symbols in `P` end where they end, and each tells `φ` of its symbol, where
everything that follows satisfies `stop`. -/
def Splits (P : α → Prop) (stop : List β → Prop) (f : α → List β) (φ : α → γ) : Prop :=
  ∀ a b r r', P a → P b → stop r → stop r' → f a ++ r = f b ++ r' → φ a = φ b ∧ r = r'

variable {P : α → Prop} {stop : List β → Prop} {f : α → List β} {φ : α → γ}

/-- A run of words ends at a letter that starts none of them. -/
theorem Splits.flatMap (hf : Splits P (fun _ => True) f φ) (c : β)
    (hc : ∀ a, P a → ∃ x l, f a = x :: l ∧ x ≠ c) {xs ys : List α} {r r' : List β}
    (hxs : ∀ a ∈ xs, P a) (hys : ∀ a ∈ ys, P a)
    (h : xs.flatMap f ++ c :: r = ys.flatMap f ++ c :: r') : xs.map φ = ys.map φ ∧ r = r' := by
  induction xs generalizing ys with
  | nil =>
    cases ys with
    | nil => exact ⟨rfl, by simpa using h⟩
    | cons y ys =>
      obtain ⟨x, l, hx, hne⟩ := hc y (hys y (by simp))
      simp only [List.flatMap_nil, List.nil_append, List.flatMap_cons, hx,
        List.cons_append, List.cons.injEq] at h
      exact absurd h.1.symm hne
  | cons x xs ih =>
    rw [List.forall_mem_cons] at hxs
    cases ys with
    | nil =>
      obtain ⟨z, l, hz, hne⟩ := hc x hxs.1
      simp only [List.flatMap_nil, List.nil_append, List.flatMap_cons, hz,
        List.cons_append, List.cons.injEq] at h
      exact absurd h.1 hne
    | cons y ys =>
      rw [List.forall_mem_cons] at hys
      simp only [List.flatMap_cons, List.append_assoc] at h
      obtain ⟨hxy, htail⟩ := hf x y _ _ hxs.1 hys.1 trivial trivial h
      obtain ⟨hrest, hr⟩ := ih hxs.2 hys.2 htail
      exact ⟨by rw [List.map_cons, List.map_cons, hxy, hrest], hr⟩

/-- Words with a separator between them, up to a closing word, are read back one by one. -/
theorem Splits.intercalate (hf : Splits P stop f φ) {s c : β} (hsc : s ≠ c) {sep : List β}
    (hsep : ∀ r, stop (s :: (sep ++ r))) {r r' : List β} (hr : stop (c :: r))
    (hr' : stop (c :: r')) {xs ys : List α} (hxs : ∀ a ∈ xs, P a) (hys : ∀ a ∈ ys, P a)
    (hxs0 : xs ≠ []) (hys0 : ys ≠ [])
    (h : List.intercalate (s :: sep) (xs.map f) ++ c :: r =
      List.intercalate (s :: sep) (ys.map f) ++ c :: r') : xs.map φ = ys.map φ ∧ r = r' := by
  induction xs generalizing ys with
  | nil => exact absurd rfl hxs0
  | cons x xs ih =>
    rw [List.forall_mem_cons] at hxs
    cases ys with
    | nil => exact absurd rfl hys0
    | cons y ys =>
      rw [List.forall_mem_cons] at hys
      cases xs with
      | nil =>
        cases ys with
        | nil =>
          simp only [List.map_cons, List.map_nil, List.intercalate_singleton] at h
          obtain ⟨hxy, htail⟩ := hf x y _ _ hxs.1 hys.1 hr hr' h
          exact ⟨by rw [List.map_singleton, List.map_singleton, hxy],
            (List.cons.inj htail).2⟩
        | cons z ys =>
          simp only [List.map_cons, List.map_nil, List.intercalate_singleton,
            List.intercalate_cons_cons, List.append_assoc, List.cons_append] at h
          obtain ⟨_, htail⟩ := hf x y _ _ hxs.1 hys.1 hr (hsep _) h
          exact absurd (List.cons.inj htail).1.symm hsc
      | cons z xs =>
        cases ys with
        | nil =>
          simp only [List.map_cons, List.map_nil, List.intercalate_singleton,
            List.intercalate_cons_cons, List.append_assoc, List.cons_append] at h
          obtain ⟨_, htail⟩ := hf x y _ _ hxs.1 hys.1 (hsep _) hr' h
          exact absurd (List.cons.inj htail).1 hsc
        | cons w ys =>
          simp only [List.map_cons, List.intercalate_cons_cons, List.append_assoc,
            List.cons_append] at h ih ⊢
          obtain ⟨hxy, htail⟩ := hf x y _ _ hxs.1 hys.1 (hsep _) (hsep _) h
          have hrest := List.append_cancel_left (List.cons.inj htail).2
          obtain ⟨heq, hr⟩ := @ih (w :: ys) hxs.2 hys.2 (by simp) (by simp) hrest
          exact ⟨by rw [hxy, heq, List.map_cons], hr⟩

/-- Of two runs of words that spell the same, one continues the other. -/
theorem Splits.run {Q : α → Prop} {g : α → List β} (hg : Splits Q (fun _ => True) g id)
    {xs ys : List α} {r r' : List β} (hxs : ∀ a ∈ xs, Q a) (hys : ∀ a ∈ ys, Q a)
    (h : xs.flatMap g ++ r = ys.flatMap g ++ r') :
    (∃ rest, ys = xs ++ rest ∧ r = rest.flatMap g ++ r') ∨
      ∃ rest, xs = ys ++ rest ∧ r' = rest.flatMap g ++ r := by
  induction xs generalizing ys with
  | nil => exact .inl ⟨ys, rfl, by simpa using h⟩
  | cons x xs ih =>
    cases ys with
    | nil => exact .inr ⟨x :: xs, rfl, by simpa using h.symm⟩
    | cons y ys =>
      rw [List.forall_mem_cons] at hxs hys
      simp only [List.flatMap_cons, List.append_assoc] at h
      obtain ⟨hxy, htail⟩ := hg x y _ _ hxs.1 hys.1 trivial trivial h
      cases hxy
      rcases ih hxs.2 hys.2 htail with ⟨rest, rfl, hr⟩ | ⟨rest, rfl, hr⟩
      · exact .inl ⟨rest, rfl, hr⟩
      · exact .inr ⟨rest, rfl, hr⟩

/-- A code over the words of another code. -/
theorem Splits.comp {δ : Type} {Q : β → Prop} {g : β → List δ}
    (hf : Splits P (fun _ => True) f φ) (hg : Splits Q (fun _ => True) g id)
    (hQ : ∀ a, P a → ∀ b ∈ f a, Q b) :
    Splits P (fun _ => True) (fun a => (f a).flatMap g) φ := by
  intro a b r r' ha hb _ _ h
  rcases hg.run (hQ a ha) (hQ b hb) h with ⟨rest, hrest, hr⟩ | ⟨rest, hrest, hr⟩
  · obtain ⟨hab, hnil⟩ := hf b a [] rest hb ha trivial trivial (by rw [List.append_nil, hrest])
    cases hnil
    exact ⟨hab.symm, hr⟩
  · obtain ⟨hab, hnil⟩ := hf a b [] rest ha hb trivial trivial (by rw [List.append_nil, hrest])
    cases hnil
    exact ⟨hab, hr.symm⟩

/-- Words of letters in `p` end at the first letter outside `p`. -/
theorem append_inj_of_all {p : β → Bool} {a b r r' : List β} (ha : ∀ c ∈ a, p c = true)
    (hb : ∀ c ∈ b, p c = true) (hr : ∀ c ∈ r.head?, p c = false)
    (hr' : ∀ c ∈ r'.head?, p c = false) (h : a ++ r = b ++ r') : a = b ∧ r = r' := by
  have hspan {a r : List β} (ha : ∀ c ∈ a, p c = true) (hr : ∀ c ∈ r.head?, p c = false) :
      (a ++ r).takeWhile p = a := by
    rw [List.takeWhile_append_of_pos ha]
    cases r with
    | nil => simp
    | cons c r =>
      have hc := hr c rfl
      simp [hc]
  have heq : a = b := by
    rw [← hspan ha hr, h, hspan hb hr']
  subst heq
  exact ⟨rfl, List.append_cancel_left h⟩

end HailProto.Core
