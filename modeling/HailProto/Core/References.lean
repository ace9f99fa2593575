import HailProto.Core.Table

/-!
# References between tables

A row of one table may refer to the key of another. A foreign key says that what is referred to
exists. Rows may be deleted where nothing refers to them, and the two facts about a deletion are
that it keeps every reference intact and that what is referred to survives it.
-/

namespace HailProto.Table

variable {κ ρ σ τ : Type} [DecidableEq κ]

/-- A row of the table refers to `key`. -/
def Refers (t : Table κ ρ) (refers : κ → ρ → σ) (key : σ) : Prop :=
  ∃ owner row, t.find owner = some row ∧ refers owner row = key

/-- No row of the table refers to `key`: the `NOT EXISTS` of a query. -/
def unreferenced [DecidableEq σ] (t : Table κ ρ) (refers : κ → ρ → σ) (key : σ) : Bool :=
  !t.rows.any fun (owner, row) => decide (refers owner row = key)

/-- `FOREIGN KEY`: whatever a row of the table refers to is a key of the other table. -/
def ForeignKey [DecidableEq σ] (t : Table κ ρ) (refers : κ → ρ → σ) (target : Table σ τ) : Prop :=
  ∀ owner row, t.find owner = some row → (target.find (refers owner row)).isSome

variable {t : Table κ ρ} {refers : κ → ρ → σ} {target target' : Table σ τ} {owner : κ} {row : ρ}
  {key : σ}

theorem find_deleteWhere_of_keep {condition : κ → ρ → Bool}
    (hkeep : ∀ row, t.find owner = some row → condition owner row = false) :
    (t.deleteWhere condition).find owner = t.find owner := by
  rw [find_deleteWhere]
  cases hfind : t.find owner with
  | none => rfl
  | some row => rw [Option.filter_some, hkeep row hfind, Bool.not_false, if_pos rfl]

theorem find_deleteWhere_of_delete {condition : κ → ρ → Bool}
    (hdelete : ∀ row, t.find owner = some row → condition owner row = true) :
    (t.deleteWhere condition).find owner = none := by
  rw [find_deleteWhere]
  cases hfind : t.find owner with
  | none => rfl
  | some row => rw [Option.filter_some, hdelete row hfind, Bool.not_true, if_neg (by simp)]

theorem unreferenced_iff [DecidableEq σ] : t.unreferenced refers key = true ↔ ¬t.Refers refers key := by
  simp only [unreferenced, Bool.not_eq_true', List.any_eq_false, decide_eq_true_eq, Prod.forall,
    mem_rows, Refers, not_exists, not_and]

namespace ForeignKey

variable [DecidableEq σ]

theorem empty : ForeignKey (∅ : Table κ ρ) refers target := by
  intro owner row h
  rw [find_empty] at h
  cases h

theorem insert (h : ForeignKey t refers target) (hrow : (target.find (refers owner row)).isSome) :
    ForeignKey (t.insert owner row) refers target := by
  intro other found hfind
  rw [find_insert] at hfind
  by_cases hsame : other = owner
  · rw [if_pos hsame, Option.some.injEq] at hfind
    subst hsame hfind
    exact hrow
  · rw [if_neg hsame] at hfind
    exact h other found hfind

theorem insertNew (h : ForeignKey t refers target)
    (hrow : (target.find (refers owner row)).isSome) :
    ForeignKey (t.insertNew owner row) refers target := by
  unfold Table.insertNew
  cases t.find owner with
  | none => exact h.insert hrow
  | some old => exact h

/-- More keys keep the references. -/
theorem grow (h : ForeignKey t refers target)
    (hgrow : ∀ key, (target.find key).isSome → (target'.find key).isSome) :
    ForeignKey t refers target' :=
  fun owner row hfind => hgrow _ (h owner row hfind)

end ForeignKey

end HailProto.Table
