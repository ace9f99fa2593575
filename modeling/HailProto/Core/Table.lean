import Mathlib

/-!
# Keyed tables

A relation with a primary key is an association list without repeated keys, which is
Mathlib's `AList`. This module adds the statements a transaction makes on one row and says
what a lookup answers after each of them; a client reads a table through `find` alone.
-/

namespace HailProto

/-- A relation whose rows are found by their primary key. -/
structure Table (κ ρ : Type) where
  /-- The rows, with the key constraint. -/
  entries : AList fun _ : κ => ρ

namespace Table

variable {κ ρ : Type}

instance : EmptyCollection (Table κ ρ) := ⟨⟨∅⟩⟩

/-- The rows of a table with their keys. -/
def rows (t : Table κ ρ) : List (κ × ρ) := t.entries.entries.map fun e => (e.1, e.2)

/-- Delete the rows that satisfy a condition. -/
def deleteWhere (t : Table κ ρ) (condition : κ → ρ → Bool) : Table κ ρ :=
  ⟨⟨t.entries.entries.filter fun e => !condition e.1 e.2,
    t.entries.nodupKeys.sublist List.filter_sublist⟩⟩

/-- Change every row. -/
def mapRows (t : Table κ ρ) (change : κ → ρ → ρ) : Table κ ρ :=
  ⟨⟨t.entries.entries.map fun e => ⟨e.1, change e.1 e.2⟩, by
    simpa only [List.NodupKeys, List.keys, List.map_map, Function.comp_def] using
      t.entries.nodupKeys⟩⟩

variable [DecidableEq κ]

/-- The row at `key`. -/
def find (t : Table κ ρ) (key : κ) : Option ρ := t.entries.lookup key

/-- Write the row at `key`, whether or not there was one. -/
def insert (t : Table κ ρ) (key : κ) (row : ρ) : Table κ ρ := ⟨t.entries.insert key row⟩

/-- Change the row at `key`, when there is one. -/
def update (t : Table κ ρ) (key : κ) (change : ρ → ρ) : Table κ ρ :=
  match t.find key with
  | some row => t.insert key (change row)
  | none => t

/-- Insert a row unless its key is taken. -/
def insertNew (t : Table κ ρ) (key : κ) (row : ρ) : Table κ ρ :=
  match t.find key with
  | some _ => t
  | none => t.insert key row

@[simp] theorem find_empty (key : κ) : (∅ : Table κ ρ).find key = none :=
  AList.lookup_empty key

@[grind =] theorem find_insert (t : Table κ ρ) (key key' : κ) (row : ρ) :
    (t.insert key row).find key' = if key' = key then some row else t.find key' := by
  unfold find insert
  by_cases h : key' = key
  · subst h
    rw [if_pos rfl, AList.lookup_insert]
  · rw [if_neg h, AList.lookup_insert_ne h]

@[simp] theorem find_insert_self (t : Table κ ρ) (key : κ) (row : ρ) :
    (t.insert key row).find key = some row := by
  rw [find_insert, if_pos rfl]

theorem find_insert_of_ne (t : Table κ ρ) {key key' : κ} (row : ρ) (h : key' ≠ key) :
    (t.insert key row).find key' = t.find key' := by
  rw [find_insert, if_neg h]

@[grind =] theorem find_update (t : Table κ ρ) (key key' : κ) (change : ρ → ρ) :
    (t.update key change).find key' =
      if key' = key then (t.find key).map change else t.find key' := by
  unfold update
  cases h : t.find key with
  | none =>
    by_cases hk : key' = key
    · rw [if_pos hk, hk, h, Option.map_none]
    · rw [if_neg hk]
  | some row => rw [find_insert, Option.map_some]

@[grind =] theorem find_insertNew (t : Table κ ρ) (key key' : κ) (row : ρ) :
    (t.insertNew key row).find key' =
      if key' = key then some ((t.find key).getD row) else t.find key' := by
  unfold insertNew
  cases h : t.find key with
  | none => rw [find_insert, Option.getD_none]
  | some old =>
    by_cases hk : key' = key
    · rw [if_pos hk, hk, h, Option.getD_some]
    · rw [if_neg hk]

/-- A pair is a row of the table exactly when its key finds it. -/
theorem mem_rows {t : Table κ ρ} {key : κ} {row : ρ} :
    (key, row) ∈ t.rows ↔ t.find key = some row := by
  rw [find, ← Option.mem_def, AList.mem_lookup_iff]
  simp only [rows, List.mem_map, Prod.mk.injEq]
  constructor
  · rintro ⟨⟨k, r⟩, hmem, rfl, rfl⟩
    exact hmem
  · intro hmem
    exact ⟨⟨key, row⟩, hmem, rfl, rfl⟩

/-- No two rows of a table have one key. -/
theorem pairwise_rows (t : Table κ ρ) : t.rows.Pairwise fun a b => a.1 ≠ b.1 := by
  have hkeys : (t.rows.map Prod.fst).Nodup := by
    simpa only [rows, List.map_map, Function.comp_def, List.NodupKeys, List.keys] using
      t.entries.nodupKeys
  exact List.pairwise_map.1 hkeys

theorem find_deleteWhere (t : Table κ ρ) (condition : κ → ρ → Bool) (key : κ) :
    (t.deleteWhere condition).find key = (t.find key).filter fun row => !condition key row := by
  ext row
  rw [← mem_rows, Option.filter_eq_some_iff, ← mem_rows]
  simp only [rows, deleteWhere, List.mem_map, List.mem_filter, Prod.mk.injEq]
  constructor
  · rintro ⟨⟨k, r⟩, ⟨hmem, hkeep⟩, rfl, rfl⟩
    exact ⟨⟨⟨k, r⟩, hmem, rfl, rfl⟩, hkeep⟩
  · rintro ⟨⟨⟨k, r⟩, hmem, rfl, rfl⟩, hkeep⟩
    exact ⟨⟨k, r⟩, ⟨hmem, hkeep⟩, rfl, rfl⟩

@[grind =] theorem find_mapRows (t : Table κ ρ) (change : κ → ρ → ρ) (key : κ) :
    (t.mapRows change).find key = (t.find key).map (change key) := by
  ext row
  rw [← mem_rows, Option.map_eq_some_iff]
  simp only [rows, mapRows, List.map_map, List.mem_map, Function.comp_apply, Prod.mk.injEq]
  constructor
  · rintro ⟨⟨k, r⟩, hmem, rfl, rfl⟩
    exact ⟨r, mem_rows.1 (List.mem_map.2 ⟨_, hmem, rfl⟩), rfl⟩
  · rintro ⟨r, hr, rfl⟩
    obtain ⟨⟨k, r'⟩, hmem, he⟩ := List.mem_map.1 (mem_rows.2 hr)
    cases he
    exact ⟨_, hmem, rfl, rfl⟩

end Table

end HailProto
