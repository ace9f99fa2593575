import HailProto.Core.Outcome

/-!
# Loops over a list

A loop that runs one fallible step for each entry of a list, carrying a state. What holds of the
entries done so far and the state, and is kept by every step, holds of the whole list when the
loop ends; a loop one of whose entries is refused in every state it can meet raises.
-/

namespace HailProto

variable {ε α β : Type}

/-- The loop succeeds when every step does, in the states the invariant allows. -/
theorem foldlM_ok {f : β → α → Except ε β} {I : List α → β → Prop} {l : List α} {b : β}
    (initial : I [] b)
    (step : ∀ done x rest b, l = done ++ x :: rest → I done b →
      ∃ b', f b x = .ok b' ∧ I (done ++ [x]) b') :
    ∃ b', l.foldlM f b = .ok b' ∧ I l b' := by
  suffices h : ∀ rest done b, l = done ++ rest → I done b →
      ∃ b', rest.foldlM f b = .ok b' ∧ I l b' from h l [] b rfl initial
  intro rest
  induction rest with
  | nil =>
    intro done b hl hI
    rw [List.append_nil] at hl
    exact ⟨b, rfl, hl ▸ hI⟩
  | cons x rest ih =>
    intro done b hl hI
    obtain ⟨b', hf, hI'⟩ := step done x rest b hl hI
    obtain ⟨c, hfold, hc⟩ := ih (done ++ [x]) b' (by rw [hl, List.append_assoc]; rfl) hI'
    exact ⟨c, by rw [List.foldlM_cons, hf]; exact hfold, hc⟩

/-- What every successful step keeps, a successful loop keeps. -/
theorem foldlM_invariant {f : β → α → Except ε β} {I : β → Prop} {l : List α} {b c : β}
    (h : l.foldlM f b = .ok c) (initial : I b)
    (step : ∀ x ∈ l, ∀ b b', I b → f b x = .ok b' → I b') : I c := by
  induction l generalizing b with
  | nil =>
    cases h
    exact initial
  | cons x l ih =>
    rw [List.foldlM_cons, bind_eq_ok] at h
    obtain ⟨b', hf, hrest⟩ := h
    exact ih hrest (step x List.mem_cons_self b b' initial hf)
      fun y hy => step y (List.mem_cons_of_mem x hy)

end HailProto
