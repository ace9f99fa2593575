import Mathlib

/-!
# Maps in the order of insertion

A map whose entries stand in the order in which their keys were inserted. Writing an existing key
leaves its place, a new key comes last, and the oldest entry can be dropped.
-/

namespace HailProto

/-- Entries under distinct keys, the oldest first. -/
structure OrderedMap (κ ρ : Type*) where
  entries : List (κ × ρ)
  nodup : (entries.map Prod.fst).Nodup

namespace OrderedMap

variable {κ ρ : Type*}

instance : EmptyCollection (OrderedMap κ ρ) := ⟨⟨[], List.nodup_nil⟩⟩

def size (m : OrderedMap κ ρ) : ℕ := m.entries.length

/-- The key of the oldest entry. -/
def oldest (m : OrderedMap κ ρ) : Option κ := m.entries.head?.map Prod.fst

def dropOldest (m : OrderedMap κ ρ) : OrderedMap κ ρ where
  entries := m.entries.tail
  nodup := m.nodup.sublist (m.entries.tail_sublist.map _)

theorem size_dropOldest (m : OrderedMap κ ρ) : m.dropOldest.size = m.size - 1 :=
  List.length_tail

variable [DecidableEq κ]

def get (m : OrderedMap κ ρ) (key : κ) : Option ρ :=
  (m.entries.find? fun e => e.1 = key).map Prod.snd

theorem get_eq_some {m : OrderedMap κ ρ} {key : κ} {row : ρ} :
    m.get key = some row ↔ (key, row) ∈ m.entries := by
  obtain ⟨entries, hnodup⟩ := m
  simp only [get]
  induction entries with
  | nil => simp
  | cons e entries ih =>
    rw [List.map_cons, List.nodup_cons] at hnodup
    by_cases hkey : e.1 = key
    · have hfresh : ∀ row, (key, row) ∉ entries := by
        intro row hmem
        exact hnodup.1 (List.mem_map.2 ⟨(key, row), hmem, hkey.symm⟩)
      rw [List.find?_cons_of_pos (by simpa using hkey), List.mem_cons, or_iff_left (hfresh row)]
      simp only [Option.map_some, Option.some.injEq]
      constructor
      · rintro rfl
        rw [← hkey]
      · rintro hrow
        rw [← hrow]
    · have hother : (key, row) ≠ e := by
        rintro rfl
        exact hkey rfl
      rw [List.find?_cons_of_neg (by simpa using hkey), ih hnodup.2, List.mem_cons,
        or_iff_right hother]

theorem get_eq_none {m : OrderedMap κ ρ} {key : κ} :
    m.get key = none ↔ key ∉ m.entries.map Prod.fst := by
  constructor
  · intro hget hmem
    obtain ⟨⟨_, row⟩, hentry, rfl⟩ := List.mem_map.1 hmem
    rw [get_eq_some.2 hentry] at hget
    cases hget
  · intro hfresh
    cases hget : m.get key with
    | none => rfl
    | some row => exact absurd (List.mem_map_of_mem (get_eq_some.1 hget)) hfresh

/-- Write a row under its key. -/
def set (m : OrderedMap κ ρ) (key : κ) (row : ρ) : OrderedMap κ ρ where
  entries :=
    if key ∈ m.entries.map Prod.fst then
      m.entries.map fun e => if e.1 = key then (key, row) else e
    else m.entries ++ [(key, row)]
  nodup := by
    split
    · have hkeys : (m.entries.map fun e => if e.1 = key then (key, row) else e).map Prod.fst =
          m.entries.map Prod.fst := by
        rw [List.map_map]
        apply List.map_congr_left
        intro e _
        simp only [Function.comp_apply]
        split
        · rename_i hkey
          exact hkey.symm
        · rfl
      rw [hkeys]
      exact m.nodup
    · rename_i hfresh
      rw [List.map_append, List.nodup_append]
      refine ⟨m.nodup, List.nodup_singleton _, fun a ha b hb => ?_⟩
      rw [List.map_singleton, List.mem_singleton] at hb
      rw [hb]
      rintro rfl
      exact hfresh ha

variable {m : OrderedMap κ ρ} {key other : κ} {row : ρ}

theorem mem_set {e : κ × ρ} :
    e ∈ (m.set key row).entries ↔ e = (key, row) ∨ e ∈ m.entries ∧ e.1 ≠ key := by
  unfold set
  dsimp only
  split
  · rename_i hmem
    obtain ⟨found, hfound, hkey⟩ := List.mem_map.1 hmem
    rw [List.mem_map]
    constructor
    · rintro ⟨e', he', rfl⟩
      split
      · exact .inl rfl
      · rename_i hne
        exact .inr ⟨he', hne⟩
    · rintro (rfl | ⟨he, hne⟩)
      · exact ⟨found, hfound, if_pos hkey⟩
      · exact ⟨e, he, if_neg hne⟩
  · rename_i hfresh
    rw [List.mem_append, List.mem_singleton]
    constructor
    · rintro (he | rfl)
      · refine .inr ⟨he, ?_⟩
        rintro rfl
        exact hfresh (List.mem_map_of_mem he)
      · exact .inl rfl
    · rintro (rfl | ⟨he, _⟩)
      · exact .inr rfl
      · exact .inl he

@[simp] theorem get_set_self : (m.set key row).get key = some row :=
  get_eq_some.2 (mem_set.2 (.inl rfl))

theorem get_set_of_ne (h : other ≠ key) : (m.set key row).get other = m.get other := by
  ext found
  rw [get_eq_some, get_eq_some, mem_set]
  constructor
  · rintro (heq | ⟨hmem, _⟩)
    · exact absurd (congrArg Prod.fst heq) h
    · exact hmem
  · intro hmem
    exact .inr ⟨hmem, h⟩

/-- An existing key keeps its place. -/
theorem size_set_of_some {found : ρ} (h : m.get key = some found) :
    (m.set key row).size = m.size := by
  have hmem : key ∈ m.entries.map Prod.fst := List.mem_map_of_mem (get_eq_some.1 h)
  simp only [size, set, if_pos hmem, List.length_map]

/-- A new key comes last. -/
theorem size_set_of_none (h : m.get key = none) : (m.set key row).size = m.size + 1 := by
  simp only [size, set, if_neg (get_eq_none.1 h), List.length_append, List.length_singleton]

/-- Dropping the oldest entry leaves the others. -/
theorem get_dropOldest (h : m.oldest ≠ some key) : m.dropOldest.get key = m.get key := by
  obtain ⟨entries, hnodup⟩ := m
  cases entries with
  | nil => rfl
  | cons e entries =>
    have hne : e.1 ≠ key := by
      rintro rfl
      exact h rfl
    simp only [get, dropOldest, List.tail_cons]
    rw [List.find?_cons_of_neg (by simpa using hne)]

theorem get_dropOldest_self (h : m.oldest = some key) : m.dropOldest.get key = none := by
  obtain ⟨entries, hnodup⟩ := m
  cases entries with
  | nil => cases h
  | cons e entries =>
    rw [List.map_cons, List.nodup_cons] at hnodup
    cases h
    exact get_eq_none.2 hnodup.1

end OrderedMap

end HailProto
