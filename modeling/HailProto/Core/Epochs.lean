import Mathlib

/-!
# Ledgers of alternating epochs

A ledger opens identities one at a time and closes each before the next one is opened. Opening
and closing advance the epoch by one, so an odd epoch opens an identity and the even epoch after
it closes the same one. Identities are never reused, and a ledger only grows: what stands at an
epoch stays.
-/

namespace HailProto

/-- The identities opened so far, in order, and the current epoch. -/
structure Ledger (α : Type) where
  opened : List α
  epoch : Nat
  nodup : opened.Nodup
  epoch_le : epoch ≤ 2 * opened.length
  le_epoch : 2 * opened.length ≤ epoch + 1

namespace Ledger

variable {α : Type}

/-- The ledger before anything is opened. -/
def empty : Ledger α := ⟨[], 0, List.nodup_nil, le_refl 0, Nat.zero_le 1⟩

/-- The identity that an epoch opens or closes. -/
def identity (l : Ledger α) : Nat → Option α
  | 0 => none
  | n + 1 => l.opened[n / 2]?

/-- Open a new identity; every earlier one is closed. -/
def extend (l : Ledger α) (a : α) (fresh : a ∉ l.opened)
    (closed : l.epoch = 2 * l.opened.length) : Ledger α where
  opened := l.opened ++ [a]
  epoch := l.epoch + 1
  nodup := by
    rw [List.nodup_append]
    refine ⟨l.nodup, List.nodup_singleton a, fun x hx y hy => ?_⟩
    rw [List.mem_singleton.1 hy]
    rintro rfl
    exact fresh hx
  epoch_le := by
    rw [List.length_append, List.length_singleton]
    omega
  le_epoch := by
    rw [List.length_append, List.length_singleton]
    omega

/-- Close the identity opened last. -/
def close (l : Ledger α) (isOpen : l.epoch + 1 = 2 * l.opened.length) : Ledger α where
  opened := l.opened
  epoch := l.epoch + 1
  nodup := l.nodup
  epoch_le := isOpen.le
  le_epoch := by omega

/-- A later state of the same ledger. -/
structure Extends (l l' : Ledger α) : Prop where
  opened : l.opened <+: l'.opened
  epoch : l.epoch ≤ l'.epoch

theorem Extends.refl (l : Ledger α) : Extends l l := ⟨List.prefix_rfl, le_refl _⟩

theorem extends_extend (l : Ledger α) (a : α) (fresh : a ∉ l.opened)
    (closed : l.epoch = 2 * l.opened.length) : Extends l (l.extend a fresh closed) :=
  ⟨List.prefix_append _ _, Nat.le_succ _⟩

theorem extends_close (l : Ledger α) (isOpen : l.epoch + 1 = 2 * l.opened.length) :
    Extends l (l.close isOpen) := ⟨List.prefix_rfl, Nat.le_succ _⟩

/-- What stands at an epoch stays. -/
theorem Extends.identity {l l' : Ledger α} (h : Extends l l') {n : Nat} (hn : n ≤ l.epoch) :
    l'.identity n = l.identity n := by
  cases n with
  | zero => rfl
  | succ n =>
    obtain ⟨rest, hrest⟩ := h.opened
    have hlt : n / 2 < l.opened.length := by
      have := l.epoch_le
      omega
    rw [Ledger.identity, Ledger.identity, ← hrest, List.getElem?_append_left hlt]

/-- Every epoch so far has its identity. -/
theorem exists_identity (l : Ledger α) {n : Nat} (hpos : 0 < n) (hn : n ≤ l.epoch) :
    ∃ a ∈ l.opened, l.identity n = some a := by
  cases n with
  | zero => cases hpos
  | succ n =>
    have hlt : n / 2 < l.opened.length := by
      have := l.epoch_le
      omega
    exact ⟨l.opened[n / 2], List.getElem_mem hlt, List.getElem?_eq_getElem hlt⟩

/-- An opened identity has the odd epoch that opened it. -/
theorem exists_epoch (l : Ledger α) {a : α} (h : a ∈ l.opened) :
    ∃ n, n % 2 = 1 ∧ n ≤ l.epoch ∧ l.identity n = some a := by
  obtain ⟨k, hk, rfl⟩ := List.mem_iff_getElem.1 h
  refine ⟨2 * k + 1, by omega, ?_, ?_⟩
  · have := l.le_epoch
    omega
  · have hhalf : 2 * k / 2 = k := by omega
    rw [identity, hhalf, List.getElem?_eq_getElem hk]

/-- The even epoch closes what the epoch before it opened. -/
theorem identity_even (l : Ledger α) {n : Nat} (hodd : n % 2 = 1) :
    l.identity (n + 1) = l.identity n := by
  cases n with
  | zero => cases hodd
  | succ n =>
    have hhalf : (n + 1) / 2 = n / 2 := by omega
    rw [identity, identity, hhalf]

/-- Two epochs with one identity are the pair that opens and closes it. -/
theorem identity_inj (l : Ledger α) {m n : Nat} {a : α} (hm : l.identity m = some a)
    (hn : l.identity n = some a) : (m + 1) / 2 = (n + 1) / 2 := by
  cases m with
  | zero => cases hm
  | succ m =>
    cases n with
    | zero => cases hn
    | succ n =>
      obtain ⟨hlt, hget⟩ := List.getElem?_eq_some_iff.1 hm
      obtain ⟨hlt', hget'⟩ := List.getElem?_eq_some_iff.1 hn
      have heq : m / 2 = n / 2 := l.nodup.getElem_inj_iff.1 (hget.trans hget'.symm)
      omega

/-- Epochs of one parity with one identity are equal. -/
theorem epoch_eq (l : Ledger α) {m n : Nat} {a : α} (hm : l.identity m = some a)
    (hn : l.identity n = some a) (hparity : m % 2 = n % 2) : m = n := by
  have := l.identity_inj hm hn
  omega

/-- The new epoch has the opened identity. -/
theorem identity_extend (l : Ledger α) (a : α) (fresh : a ∉ l.opened)
    (closed : l.epoch = 2 * l.opened.length) :
    (l.extend a fresh closed).identity (l.epoch + 1) = some a := by
  have hhalf : l.epoch / 2 = l.opened.length := by omega
  rw [identity, extend, hhalf, List.getElem?_append_right (le_refl _), Nat.sub_self]
  rfl

/-- The new epoch closes the identity of the last. -/
theorem identity_close (l : Ledger α) (isOpen : l.epoch + 1 = 2 * l.opened.length) :
    (l.close isOpen).identity (l.epoch + 1) = l.identity l.epoch := by
  have hodd : l.epoch % 2 = 1 := by omega
  exact l.identity_even hodd

/-- Whether something is open is the parity of the epoch. -/
theorem closed_iff (l : Ledger α) : l.epoch % 2 = 0 ↔ l.epoch = 2 * l.opened.length := by
  have := l.epoch_le
  have := l.le_epoch
  omega

theorem open_iff (l : Ledger α) : l.epoch % 2 = 1 ↔ l.epoch + 1 = 2 * l.opened.length := by
  have := l.epoch_le
  have := l.le_epoch
  omega

end Ledger

end HailProto
