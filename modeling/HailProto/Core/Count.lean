import HailProto.Core.Table

/-!
# Counting the rows of a table

`SELECT count(*)` under a condition. A table whose matching rows all have a match in another
table has no more of them, since keys do not repeat, and one statement adds at most one.
-/

namespace HailProto.Table

variable {κ ρ σ : Type}

/-- The number of rows that satisfy a condition. -/
def count (t : Table κ ρ) (condition : κ → ρ → Bool) : Nat :=
  t.rows.countP fun r => condition r.1 r.2

theorem nodup_keys (t : Table κ ρ) : (t.rows.map Prod.fst).Nodup := by
  have h := t.entries.nodupKeys
  rw [List.NodupKeys, List.keys] at h
  rw [rows, List.map_map]
  exact h

variable [DecidableEq κ]

/-- Matching rows with a match under the same key in another table are no more than those. -/
theorem count_le_count {t : Table κ ρ} {t' : Table κ σ} {p : κ → ρ → Bool} {q : κ → σ → Bool}
    (h : ∀ key row, t.find key = some row → p key row = true →
      ∃ row', t'.find key = some row' ∧ q key row' = true) : t.count p ≤ t'.count q := by
  have hsubset : (t.rows.filter fun r => p r.1 r.2).map Prod.fst ⊆
      (t'.rows.filter fun r => q r.1 r.2).map Prod.fst := by
    intro key hkey
    obtain ⟨⟨key, row⟩, hmem, rfl⟩ := List.mem_map.1 hkey
    obtain ⟨hrow, hp⟩ := List.mem_filter.1 hmem
    obtain ⟨row', hrow', hq⟩ := h key row (mem_rows.1 hrow) hp
    exact List.mem_map.2 ⟨(key, row'), List.mem_filter.2 ⟨mem_rows.2 hrow', hq⟩, rfl⟩
  have hnodup : ((t.rows.filter fun r => p r.1 r.2).map Prod.fst).Nodup :=
    t.nodup_keys.sublist (List.filter_sublist.map _)
  have hlength := (hnodup.subperm hsubset).length_le
  rw [List.length_map, List.length_map] at hlength
  rwa [count, count, List.countP_eq_length_filter, List.countP_eq_length_filter]

/-- A new key adds its row to the others. -/
theorem rows_insert_new {t : Table κ ρ} {key : κ} (row : ρ) (h : t.find key = none) :
    (t.insert key row).rows = (key, row) :: t.rows := by
  have hkey : key ∉ t.entries := AList.lookup_eq_none.1 h
  simp only [rows, insert, AList.entries_insert_of_notMem hkey, List.map_cons]

/-- Writing one row adds at most one match. -/
theorem count_insert_le (t : Table κ ρ) (key : κ) (row : ρ) (p : κ → ρ → Bool) :
    (t.insert key row).count p ≤ t.count p + if p key row then 1 else 0 := by
  have hrest : ((t.entries.entries.kerase key).map fun e => (e.1, e.2)).countP
      (fun r : κ × ρ => p r.1 r.2) ≤ t.count p :=
    ((List.kerase_sublist key t.entries.entries).map _).countP_le
  rw [count, rows, insert, AList.entries_insert, List.map_cons, List.countP_cons]
  exact Nat.add_le_add_right hrest _

end HailProto.Table
