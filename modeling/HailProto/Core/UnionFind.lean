import HailProto.Core.Count

/-!
# Union-find over ordered keys

A class of keys is a tree of parent entries in a table, and the root of the tree stands for the
class. A lookup adds a key that it has not seen, climbs to the root and then points every key of
its path at it. A join points the greater root at the smaller one, so that every class is named
by its least key. What a table means is a function from keys to the least keys of their classes.
-/

namespace HailProto

open Relation (EqvGen)

section Classes

variable {κ : Type} [LinearOrder κ] {link link' : κ → κ → Prop} {rep rep' : κ → κ} {a b : κ}

/-- The function names each class of the linked keys by its least member. -/
structure LeastRep (link : κ → κ → Prop) (rep : κ → κ) : Prop where
  linked_iff : ∀ a b, EqvGen link a b ↔ rep a = rep b
  rep_le : ∀ a, rep a ≤ a
  rep_rep : ∀ a, rep (rep a) = rep a

namespace LeastRep

theorem linked_rep (h : LeastRep link rep) (a : κ) : EqvGen link a (rep a) :=
  (h.linked_iff a (rep a)).2 (h.rep_rep a).symm

theorem rep_le_of_linked (h : LeastRep link rep) (hab : EqvGen link a b) : rep a ≤ b :=
  ((h.linked_iff a b).1 hab).trans_le (h.rep_le b)

/-- The links alone decide how the classes are named. -/
theorem unique (h : LeastRep link rep) (h' : LeastRep link rep') : rep = rep' := by
  funext a
  have hle : rep a ≤ rep' a := h.rep_le_of_linked (h'.linked_rep a)
  have hge : rep' a ≤ rep a := h'.rep_le_of_linked (h.linked_rep a)
  exact le_antisymm hle hge

/-- Without a link every key is a class of its own. -/
theorem id_of_no_links (h : ∀ a b, ¬link a b) : LeastRep link id where
  linked_iff a b := by
    refine ⟨fun hab => ?_, ?_⟩
    rotate_left
    · rintro rfl
      exact .refl _
    induction hab with
    | rel a b hlink => exact (h a b hlink).elim
    | refl a => rfl
    | symm a b _ ih => exact ih.symm
    | trans a b c _ _ ih ih' => exact ih.trans ih'
  rep_le := le_refl
  rep_rep _ := rfl

theorem congr (h : LeastRep link rep) (hlink : ∀ a b, link a b ↔ link' a b) :
    LeastRep link' rep := by
  have hsame : link = link' := funext fun a => funext fun b => propext (hlink a b)
  exact hsame ▸ h

end LeastRep

/-- Name the classes of `a` and `b` as one. -/
def mergeRep (rep : κ → κ) (a b : κ) (key : κ) : κ :=
  if rep key = max (rep a) (rep b) then min (rep a) (rep b) else rep key

theorem mergeRep_left (rep : κ → κ) (a b : κ) : mergeRep rep a b a = min (rep a) (rep b) := by
  unfold mergeRep
  by_cases hle : rep a ≤ rep b
  · by_cases heq : rep a = rep b
    · rw [heq, max_self, min_self, if_pos rfl]
    · rw [max_eq_right hle, min_eq_left hle, if_neg heq]
  · rw [max_eq_left (not_le.1 hle).le, if_pos rfl]

theorem mergeRep_comm (rep : κ → κ) (a b : κ) : mergeRep rep a b = mergeRep rep b a := by
  funext key
  rw [mergeRep, mergeRep, max_comm, min_comm]

theorem mergeRep_right (rep : κ → κ) (a b : κ) : mergeRep rep a b b = min (rep a) (rep b) := by
  rw [mergeRep_comm, mergeRep_left, min_comm]

theorem mergeRep_cases (rep : κ → κ) (a b key : κ) :
    mergeRep rep a b key = rep key ∨
      (rep key = max (rep a) (rep b) ∧ mergeRep rep a b key = min (rep a) (rep b)) := by
  unfold mergeRep
  by_cases h : rep key = max (rep a) (rep b)
  · exact .inr ⟨h, if_pos h⟩
  · exact .inl (if_neg h)

/-- One more link merges the two classes it joins. -/
theorem LeastRep.merge (h : LeastRep link rep) (a b : κ) :
    LeastRep (fun x y => link x y ∨ (x = a ∧ y = b)) (mergeRep rep a b) := by
  have hmono {x y : κ} (hxy : EqvGen link x y) :
      EqvGen (fun x y => link x y ∨ (x = a ∧ y = b)) x y :=
    hxy.mono fun _ _ hlink => .inl hlink
  have hends : EqvGen (fun x y => link x y ∨ (x = a ∧ y = b)) (rep a) (rep b) :=
    .trans _ _ _ (hmono (h.linked_rep a).symm)
      (.trans _ _ _ (.rel _ _ (.inr ⟨rfl, rfl⟩)) (hmono (h.linked_rep b)))
  have hends' : EqvGen (fun x y => link x y ∨ (x = a ∧ y = b)) (max (rep a) (rep b))
      (min (rep a) (rep b)) := by
    rcases le_total (rep a) (rep b) with hle | hle
    · rw [max_eq_right hle, min_eq_left hle]
      exact hends.symm
    · rw [max_eq_left hle, min_eq_right hle]
      exact hends
  have hclass (key : κ) : EqvGen (fun x y => link x y ∨ (x = a ∧ y = b)) key
      (mergeRep rep a b key) := by
    rcases mergeRep_cases rep a b key with heq | ⟨hmax, hmin⟩
    · rw [heq]
      exact hmono (h.linked_rep key)
    · rw [hmin]
      exact .trans _ _ _ (hmono (h.linked_rep key)) (hmax ▸ hends')
  have hle (key : κ) : mergeRep rep a b key ≤ rep key := by
    rcases mergeRep_cases rep a b key with heq | ⟨hmax, hmin⟩
    · exact heq.le
    · rw [hmin, hmax]
      exact min_le_max
  refine ⟨fun x y => ⟨fun hxy => ?_, fun hxy => ?_⟩, fun key => (hle key).trans (h.rep_le key),
    fun key => ?_⟩
  · induction hxy with
    | rel x y hlink =>
      rcases hlink with hlink | ⟨rfl, rfl⟩
      · have hsame : rep x = rep y := (h.linked_iff x y).1 (.rel _ _ hlink)
        rw [mergeRep, mergeRep, hsame]
      · rw [mergeRep_left, mergeRep_right]
    | refl x => rfl
    | symm x y _ ih => exact ih.symm
    | trans x y z _ _ ih ih' => exact ih.trans ih'
  · exact .trans _ _ _ (hclass x) (hxy ▸ (hclass y).symm)
  · -- The name of a class is in it and already least.
    have hrep : rep (mergeRep rep a b key) = mergeRep rep a b key := by
      rcases mergeRep_cases rep a b key with heq | ⟨_, hmin⟩
      · rw [heq, h.rep_rep]
      · rw [hmin]
        rcases min_choice (rep a) (rep b) with hmin' | hmin'
        · rw [hmin', h.rep_rep]
        · rw [hmin', h.rep_rep]
    rcases mergeRep_cases rep a b (mergeRep rep a b key) with heq | ⟨hmax, hmin⟩
    · rw [heq, hrep]
    · rcases mergeRep_cases rep a b key with heq | ⟨_, hmin'⟩
      · rw [hrep, heq] at hmax
        rw [hmin, mergeRep, if_pos hmax]
      · rw [hmin, hmin']

end Classes

namespace UnionFind

variable {κ : Type} [LinearOrder κ]

/-- `while(parents.get(root)!==root)root=parents.get(root)!`, in at most this many turns. -/
def climb (parents : Table κ κ) : Nat → κ → Option κ
  | 0, _ => none
  | turns + 1, root =>
    match parents.find root with
    | none => none
    | some next => if next = root then some root else climb parents turns next

/-- `while(key!==root){const next=parents.get(key)!;parents.set(key,root);key=next;}`. -/
def compress (root : κ) : Nat → κ → Table κ κ → Option (Table κ κ)
  | 0, _, _ => none
  | turns + 1, key, parents =>
    if key = root then some parents
    else
      match parents.find key with
      | none => none
      | some next => compress root turns next (parents.insert key root)

/-- The root of a key, and the table with the key's path compressed. -/
def find (parents : Table κ κ) (key : κ) : Option (κ × Table κ κ) := do
  let parents := parents.insertNew key key
  let turns := parents.rows.length
  let root ← climb parents turns key
  let parents ← compress root turns key parents
  some (root, parents)

/-- Let the smaller of the two roots stand for both classes. -/
def join (parents : Table κ κ) (a b : κ) : Option (Table κ κ) := do
  let (x, parents) ← find parents a
  let (y, parents) ← find parents b
  if x ≠ y then
    some (parents.insert (if x < y then y else x) (if x < y then x else y))
  else some parents

/-- The table stores these classes: parents are not greater, have parents themselves and are in
one class with their children, and a key without an entry is a class of its own. -/
structure Stores (parents : Table κ κ) (rep : κ → κ) : Prop where
  le : ∀ {key parent}, parents.find key = some parent → parent ≤ key
  closed : ∀ {key parent}, parents.find key = some parent → (parents.find parent).isSome
  same : ∀ {key parent}, parents.find key = some parent → rep parent = rep key
  root : ∀ {key}, parents.find key = some key → rep key = key
  unseen : ∀ {key}, parents.find key = none → rep key = key

theorem stores_empty : Stores (∅ : Table κ κ) id where
  le h := by rw [Table.find_empty] at h; cases h
  closed h := by rw [Table.find_empty] at h; cases h
  same h := by rw [Table.find_empty] at h; cases h
  root _ := rfl
  unseen _ := rfl

variable {parents : Table κ κ} {rep : κ → κ}

/-- A climb ends at the name of the class, which is its own parent. -/
theorem Stores.climb_root (h : Stores parents rep) {turns : Nat} {key root : κ}
    (hclimb : climb parents turns key = some root) :
    root = rep key ∧ parents.find root = some root ∧ root ≤ key := by
  induction turns generalizing key with
  | zero => cases hclimb
  | succ turns ih =>
    rw [climb] at hclimb
    cases hfind : parents.find key with
    | none =>
      rw [hfind] at hclimb
      cases hclimb
    | some next =>
      simp only [hfind] at hclimb
      by_cases hnext : next = key
      · rw [if_pos hnext, Option.some.injEq] at hclimb
        subst hclimb hnext
        exact ⟨(h.root hfind).symm, hfind, le_rfl⟩
      · rw [if_neg hnext] at hclimb
        obtain ⟨hroot, hself, hle⟩ := ih hclimb
        exact ⟨hroot.trans (h.same hfind), hself, hle.trans (h.le hfind)⟩

theorem countP_lt_countP {α : Type} {p q : α → Bool} {l : List α} {a : α} (ha : a ∈ l)
    (hpq : ∀ b ∈ l, p b = true → q b = true) (hq : q a = true) (hp : p a = false) :
    l.countP p < l.countP q := by
  obtain ⟨l₁, l₂, rfl⟩ := List.append_of_mem ha
  have hfirst : l₁.countP p ≤ l₁.countP q :=
    List.countP_mono_left fun b hb => hpq b (List.mem_append_left _ hb)
  have hrest : l₂.countP p ≤ l₂.countP q :=
    List.countP_mono_left fun b hb => hpq b (List.mem_append_right _ (List.mem_cons_of_mem _ hb))
  rw [List.countP_append, List.countP_append, List.countP_cons_of_neg (by simp [hp]),
    List.countP_cons_of_pos hq]
  omega

/-- A climb takes no more turns than there are keys up to its start. -/
theorem Stores.climb_some (h : Stores parents rep) {turns : Nat} {key : κ}
    (hkey : (parents.find key).isSome)
    (hturns : parents.count (fun k _ => decide (k ≤ key)) ≤ turns) :
    ∃ root, climb parents turns key = some root := by
  induction turns generalizing key with
  | zero =>
    obtain ⟨parent, hparent⟩ := Option.isSome_iff_exists.1 hkey
    have hpos : 0 < parents.count fun k _ => decide (k ≤ key) :=
      List.countP_pos_iff.2 ⟨(key, parent), Table.mem_rows.2 hparent, by simp⟩
    omega
  | succ turns ih =>
    obtain ⟨next, hfind⟩ := Option.isSome_iff_exists.1 hkey
    simp only [climb, hfind]
    by_cases hnext : next = key
    · exact ⟨key, if_pos hnext⟩
    · simp only [if_neg hnext]
      have hlt : next < key := lt_of_le_of_ne (h.le hfind) hnext
      have hfewer : parents.count (fun k _ => decide (k ≤ next)) <
          parents.count fun k _ => decide (k ≤ key) := by
        refine countP_lt_countP (Table.mem_rows.2 hfind) (fun row _ hrow => ?_) (by simp)
          (by simpa using hlt)
        simp only [decide_eq_true_eq] at hrow ⊢
        exact hrow.trans hlt.le
      exact ih (h.closed hfind) (by omega)

/-- A stored key finds its root in as many turns as there are rows. -/
theorem Stores.climb_rows (h : Stores parents rep) {key : κ} (hkey : (parents.find key).isSome) :
    climb parents parents.rows.length key = some (rep key) ∧
      parents.find (rep key) = some (rep key) ∧ rep key ≤ key := by
  obtain ⟨root, hclimb⟩ := h.climb_some hkey List.countP_le_length
  obtain ⟨rfl, hself, hle⟩ := h.climb_root hclimb
  exact ⟨hclimb, hself, hle⟩

theorem Stores.rep_le (h : Stores parents rep) (key : κ) : rep key ≤ key := by
  cases hkey : parents.find key with
  | none => exact (h.unseen hkey).le
  | some parent => exact (h.climb_rows (by rw [hkey]; rfl)).2.2

theorem Stores.rep_rep (h : Stores parents rep) (key : κ) : rep (rep key) = rep key := by
  cases hkey : parents.find key with
  | none => rw [h.unseen hkey, h.unseen hkey]
  | some parent => exact h.root (h.climb_rows (by rw [hkey]; rfl)).2.1

/-- Entries at greater keys do not matter to a climb. -/
theorem Stores.climb_insert (h : Stores parents rep) (turns : Nat) {start key : κ} (root : κ)
    (hlt : start < key) :
    climb (parents.insert key root) turns start = climb parents turns start := by
  induction turns generalizing start with
  | zero => rfl
  | succ turns ih =>
    rw [climb, climb, Table.find_insert_of_ne _ _ hlt.ne]
    cases hfind : parents.find start with
    | none => rfl
    | some next =>
      by_cases hnext : next = start
      · simp only [if_pos hnext]
      · simp only [if_neg hnext]
        exact ih ((h.le hfind).trans_lt hlt)

theorem isSome_insert {table : Table κ κ} {key key' row : κ} (h : (table.find key').isSome) :
    ((table.insert key row).find key').isSome := by
  rw [Table.find_insert]
  by_cases hkey : key' = key
  · rw [if_pos hkey]
    rfl
  · rwa [if_neg hkey]

/-- Pointing a key at its root leaves the classes as they are. -/
theorem Stores.insert_root (h : Stores parents rep) {key : κ}
    (hself : rep key ≠ key → (parents.find (rep key)).isSome) :
    Stores (parents.insert key (rep key)) rep where
  le {k p} hfind := by
    rw [Table.find_insert] at hfind
    by_cases hk : k = key
    · rw [if_pos hk, Option.some.injEq] at hfind
      rw [hk, ← hfind]
      exact h.rep_le key
    · rw [if_neg hk] at hfind
      exact h.le hfind
  closed {k p} hfind := by
    rw [Table.find_insert] at hfind
    by_cases hk : k = key
    · rw [if_pos hk, Option.some.injEq] at hfind
      rw [← hfind]
      by_cases hroot : rep key = key
      · rw [hroot, Table.find_insert_self]
        rfl
      · exact isSome_insert (hself hroot)
    · rw [if_neg hk] at hfind
      exact isSome_insert (h.closed hfind)
  same {k p} hfind := by
    rw [Table.find_insert] at hfind
    by_cases hk : k = key
    · rw [if_pos hk, Option.some.injEq] at hfind
      rw [hk, ← hfind]
      exact h.rep_rep key
    · rw [if_neg hk] at hfind
      exact h.same hfind
  root {k} hfind := by
    rw [Table.find_insert] at hfind
    by_cases hk : k = key
    · rw [if_pos hk, Option.some.injEq] at hfind
      rw [hk] at hfind ⊢
      exact hfind
    · rw [if_neg hk] at hfind
      exact h.root hfind
  unseen {k} hfind := by
    rw [Table.find_insert] at hfind
    by_cases hk : k = key
    · rw [if_pos hk] at hfind
      cases hfind
    · rw [if_neg hk] at hfind
      exact h.unseen hfind

/-- Compression ends where the climb did, with the same classes and the same keys. -/
theorem Stores.compress (h : Stores parents rep) {turns : Nat} {key : κ}
    (hclimb : climb parents turns key = some (rep key)) :
    ∃ parents', UnionFind.compress (rep key) turns key parents = some parents' ∧
      Stores parents' rep ∧ ∀ k, (parents.find k).isSome → (parents'.find k).isSome := by
  induction turns generalizing key parents with
  | zero => cases hclimb
  | succ turns ih =>
    rw [UnionFind.compress]
    by_cases hroot : key = rep key
    · exact ⟨parents, if_pos hroot, h, fun _ => id⟩
    · rw [if_neg hroot]
      obtain ⟨-, hself, -⟩ := h.climb_root hclimb
      rw [climb] at hclimb
      cases hfind : parents.find key with
      | none =>
        rw [hfind] at hclimb
        cases hclimb
      | some next =>
        simp only [hfind] at hclimb
        have hnext : next ≠ key := fun heq => by
          rw [if_pos heq, Option.some.injEq] at hclimb
          exact hroot hclimb
        rw [if_neg hnext] at hclimb
        have hlt : next < key := lt_of_le_of_ne (h.le hfind) hnext
        have hsame : rep next = rep key := h.same hfind
        have hrest : climb (parents.insert key (rep key)) turns next = some (rep next) := by
          rw [h.climb_insert turns _ hlt, hclimb, hsame]
        obtain ⟨parents', hcompress, hstores, hkeys⟩ := ih
          (h.insert_root fun _ => by rw [hself]; rfl) hrest
        rw [hsame] at hcompress
        exact ⟨parents', hcompress, hstores, fun k hk => hkeys k (isSome_insert hk)⟩

/-- A new key is a class of its own. -/
theorem Stores.insertNew (h : Stores parents rep) (key : κ) :
    Stores (parents.insertNew key key) rep := by
  cases hkey : parents.find key with
  | some parent =>
    have hkept : parents.insertNew key key = parents := by rw [Table.insertNew, hkey]
    rwa [hkept]
  | none =>
    have hrep : rep key = key := h.unseen hkey
    have hnew : parents.insertNew key key = parents.insert key key := by
      rw [Table.insertNew, hkey]
    have hstores := h.insert_root fun hne => (hne hrep).elim
    rw [hrep] at hstores
    rwa [hnew]

theorem isSome_insertNew_self (table : Table κ κ) (key : κ) :
    ((table.insertNew key key).find key).isSome := by
  rw [Table.find_insertNew, if_pos rfl]
  rfl

theorem isSome_insertNew_of_isSome {table : Table κ κ} {key key' : κ}
    (h : (table.find key').isSome) : ((table.insertNew key key).find key').isSome := by
  rw [Table.find_insertNew]
  by_cases hkey : key' = key
  · rw [if_pos hkey]
    rfl
  · rwa [if_neg hkey]

/-- A lookup always ends, with the name of the key's class; the classes stay as they are. -/
theorem Stores.find (h : Stores parents rep) (key : κ) :
    ∃ parents', UnionFind.find parents key = some (rep key, parents') ∧ Stores parents' rep ∧
      (parents'.find (rep key)).isSome ∧
      ∀ k, (parents.find k).isSome → (parents'.find k).isSome := by
  have hstores := h.insertNew key
  obtain ⟨hclimb, hself, -⟩ := hstores.climb_rows (isSome_insertNew_self parents key)
  obtain ⟨parents', hcompress, hstores', hkeys⟩ := hstores.compress hclimb
  refine ⟨parents', ?_, hstores', hkeys _ (by rw [hself]; rfl), fun k hk =>
    hkeys k (isSome_insertNew_of_isSome hk)⟩
  simp only [UnionFind.find, hclimb, hcompress, Option.bind_eq_bind, Option.bind_some]

/-- Pointing one root at a smaller one merges their classes. -/
theorem Stores.insert_merge (h : Stores parents rep) {a b : κ} (hne : rep a ≠ rep b)
    (ha : (parents.find (rep a)).isSome) (hb : (parents.find (rep b)).isSome) :
    Stores (parents.insert (max (rep a) (rep b)) (min (rep a) (rep b))) (mergeRep rep a b) := by
  have hlt : min (rep a) (rep b) < max (rep a) (rep b) := min_lt_max.2 hne
  have hmin : (parents.find (min (rep a) (rep b))).isSome := by
    rcases min_choice (rep a) (rep b) with hchoice | hchoice
    · rwa [hchoice]
    · rwa [hchoice]
  have hroot (hi : κ) (hchoice : hi = rep a ∨ hi = rep b) : rep hi = hi := by
    rcases hchoice with rfl | rfl
    · exact h.rep_rep a
    · exact h.rep_rep b
  have hrepmin := hroot _ (min_choice (rep a) (rep b))
  have hrepmax := hroot _ (max_choice (rep a) (rep b))
  have hkept {key : κ} (hkey : rep key = key) (hother : key ≠ max (rep a) (rep b)) :
      mergeRep rep a b key = key := by rw [mergeRep, hkey, if_neg hother]
  refine ⟨fun {k p} hfind => ?_, fun {k p} hfind => ?_, fun {k p} hfind => ?_,
    fun {k} hfind => ?_, fun {k} hfind => ?_⟩
  · rw [Table.find_insert] at hfind
    by_cases hk : k = max (rep a) (rep b)
    · rw [if_pos hk, Option.some.injEq] at hfind
      rw [← hfind, hk]
      exact hlt.le
    · rw [if_neg hk] at hfind
      exact h.le hfind
  · rw [Table.find_insert] at hfind
    by_cases hk : k = max (rep a) (rep b)
    · rw [if_pos hk, Option.some.injEq] at hfind
      rw [← hfind]
      exact isSome_insert hmin
    · rw [if_neg hk] at hfind
      exact isSome_insert (h.closed hfind)
  · rw [Table.find_insert] at hfind
    by_cases hk : k = max (rep a) (rep b)
    · rw [if_pos hk, Option.some.injEq] at hfind
      rw [← hfind, hkept hrepmin hlt.ne, hk, mergeRep, hrepmax, if_pos rfl]
    · rw [if_neg hk] at hfind
      rw [mergeRep, mergeRep, h.same hfind]
  · rw [Table.find_insert] at hfind
    by_cases hk : k = max (rep a) (rep b)
    · rw [if_pos hk, Option.some.injEq, hk] at hfind
      exact absurd hfind hlt.ne
    · rw [if_neg hk] at hfind
      exact hkept (h.root hfind) hk
  · rw [Table.find_insert] at hfind
    by_cases hk : k = max (rep a) (rep b)
    · rw [if_pos hk] at hfind
      cases hfind
    · rw [if_neg hk] at hfind
      exact hkept (h.unseen hfind) hk

/-- A join always ends, and merges the classes of its two keys. -/
theorem Stores.join (h : Stores parents rep) (a b : κ) :
    ∃ parents', UnionFind.join parents a b = some parents' ∧
      Stores parents' (mergeRep rep a b) := by
  obtain ⟨parents₁, hfind₁, hstores₁, ha, -⟩ := h.find a
  obtain ⟨parents₂, hfind₂, hstores₂, hb, hkeys⟩ := hstores₁.find b
  simp only [UnionFind.join, hfind₁, hfind₂, Option.bind_eq_bind, Option.bind_some]
  by_cases heq : rep a = rep b
  · rw [if_neg (not_not.2 heq)]
    have hsame : mergeRep rep a b = rep := by
      funext key
      rcases mergeRep_cases rep a b key with hkept | ⟨hmax, hmin⟩
      · exact hkept
      · rw [hmin, hmax, heq, min_self, max_self]
    rw [hsame]
    exact ⟨parents₂, rfl, hstores₂⟩
  · rw [if_pos heq]
    have hmax : (if rep a < rep b then rep b else rep a) = max (rep a) (rep b) := by
      by_cases hlt : rep a < rep b
      · rw [if_pos hlt, max_eq_right hlt.le]
      · rw [if_neg hlt, max_eq_left (not_lt.1 hlt)]
    have hmin : (if rep a < rep b then rep a else rep b) = min (rep a) (rep b) := by
      by_cases hlt : rep a < rep b
      · rw [if_pos hlt, min_eq_left hlt.le]
      · rw [if_neg hlt, min_eq_right (not_lt.1 hlt)]
    rw [hmax, hmin]
    exact ⟨_, rfl, hstores₂.insert_merge heq (hkeys _ ha) hb⟩

/-- Joining a key with several others in turn links it with each of them. -/
theorem Stores.joinAll (h : Stores parents rep) {link : κ → κ → Prop} (hrep : LeastRep link rep)
    (key : κ) (others : List κ) :
    ∃ parents' rep', others.foldlM (UnionFind.join · key ·) parents = some parents' ∧
      Stores parents' rep' ∧ LeastRep (fun a b => link a b ∨ (a = key ∧ b ∈ others)) rep' := by
  induction others generalizing parents rep link with
  | nil => exact ⟨parents, rep, rfl, h, hrep.congr fun a b => by simp⟩
  | cons other others ih =>
    obtain ⟨parents₁, hjoin, hstores⟩ := h.join key other
    obtain ⟨parents₂, rep₂, hrest, hstores₂, hrep₂⟩ := ih hstores (hrep.merge key other)
    refine ⟨parents₂, rep₂, ?_, hstores₂, hrep₂.congr fun a b => ?_⟩
    · simp only [List.foldlM_cons, hjoin, Option.bind_eq_bind, Option.bind_some, hrest]
    · rw [List.mem_cons, and_or_left, or_assoc]

end UnionFind

end HailProto
