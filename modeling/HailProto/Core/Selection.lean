import HailProto.Core.Table

/-!
# Selecting rows by a condition

A statement may name a row by other columns than its key, and a unique column admits one row for
each value. What a transaction added to a table are the rows whose keys the table did not have.
-/

namespace HailProto.Table

variable {κ ρ γ : Type}

/-- A row that satisfies the condition. -/
def select (t : Table κ ρ) (condition : κ → ρ → Bool) : Option (κ × ρ) :=
  t.rows.find? fun e => condition e.1 e.2

/-- Some row satisfies the condition. -/
def any (t : Table κ ρ) (condition : κ → ρ → Bool) : Bool :=
  t.rows.any fun e => condition e.1 e.2

section Keys

variable [DecidableEq κ]

/-- Change the rows that satisfy the condition. -/
def updateWhere (t : Table κ ρ) (condition : κ → ρ → Bool) (change : ρ → ρ) : Table κ ρ :=
  t.mapRows fun key row => if condition key row then change row else row

/-- Insert a row whose key and unique columns are free. -/
def insertUnique (t : Table κ ρ) (clash : ρ → ρ → Bool) (key : κ) (row : ρ) :
    Option (Table κ ρ) :=
  if (t.find key).isSome || t.any (fun _ other => clash row other) then none
  else some (t.insert key row)

/-- The rows of `u` whose keys `t` does not have. -/
def added (t u : Table κ ρ) : List (κ × ρ) :=
  u.rows.filter fun e => (t.find e.1).isNone

/-- No two rows have one value of the column. -/
def UniqueOn (t : Table κ ρ) (column : ρ → γ) : Prop :=
  ∀ key key' row row', t.find key = some row → t.find key' = some row' →
    column row = column row' → key = key'

variable {t u : Table κ ρ} {condition : κ → ρ → Bool} {key : κ} {row : ρ} {column : ρ → γ}

theorem select_eq_some (h : t.select condition = some (key, row)) :
    t.find key = some row ∧ condition key row = true :=
  ⟨mem_rows.1 (List.mem_of_find?_eq_some h), by simpa using List.find?_some h⟩

theorem any_eq_false : t.any condition = false ↔
    ∀ key row, t.find key = some row → condition key row = false := by
  simp only [any, List.any_eq_false, Bool.not_eq_true, Prod.forall, mem_rows]

theorem find_updateWhere (t : Table κ ρ) (condition : κ → ρ → Bool) (change : ρ → ρ) (key : κ) :
    (t.updateWhere condition change).find key =
      (t.find key).map fun row => if condition key row then change row else row := by
  rw [updateWhere, find_mapRows]

theorem insertUnique_eq_some {clash : ρ → ρ → Bool} :
    t.insertUnique clash key row = some u ↔
      t.find key = none ∧ (∀ key' other, t.find key' = some other → clash row other = false) ∧
        u = t.insert key row := by
  unfold insertUnique
  split
  · rename_i hclash
    constructor
    · rintro ⟨⟩
    · rintro ⟨hfree, hunique, -⟩
      rw [hfree, any_eq_false.2 hunique] at hclash
      cases hclash
  · rename_i hfree
    rw [Bool.not_eq_true, Bool.or_eq_false_iff, any_eq_false] at hfree
    constructor
    · rintro ⟨⟩
      exact ⟨by simpa using hfree.1, hfree.2, rfl⟩
    · rintro ⟨-, -, rfl⟩
      rfl

/-! ### Added rows -/

/-- A row with a new value of the column keeps the column unique. -/
theorem UniqueOn.insert (h : t.UniqueOn column)
    (hnew : ∀ key' other, t.find key' = some other → column row ≠ column other) :
    (t.insert key row).UniqueOn column := by
  intro first second row₁ row₂ h₁ h₂ heq
  rw [find_insert] at h₁ h₂
  split at h₁ <;> split at h₂
  · rename_i hfirst hsecond
    rw [hfirst, hsecond]
  · cases h₁
    exact absurd heq (hnew second row₂ h₂)
  · cases h₂
    exact absurd heq.symm (hnew first row₁ h₁)
  · exact h first second row₁ row₂ h₁ h₂ heq

/-- A column stays unique where every row has an old row with its value at its key. -/
theorem UniqueOn.of_rows (h : t.UniqueOn column)
    (hrows : ∀ key row, u.find key = some row →
      ∃ old, t.find key = some old ∧ column old = column row) : u.UniqueOn column := by
  intro key key' row row' hfound hfound' heq
  obtain ⟨old, hold, hcolumn⟩ := hrows key row hfound
  obtain ⟨old', hold', hcolumn'⟩ := hrows key' row' hfound'
  exact h key key' old old' hold hold' (hcolumn.trans (heq.trans hcolumn'.symm))

end Keys

end HailProto.Table
