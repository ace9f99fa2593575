import Mathlib

/-!
# Orders that respect a dependency

Some entries of a finite list depend on another entry of it. The list can be put in an order in
which every dependent entry comes after the one it depends on exactly when each has one there and
the dependency has no cycle. One half reads the rank off the order; the other is that while some
entries remain, one of them depends on none of the others.
-/

namespace HailProto.Precedence

variable {α : Type} {r : α → α → Prop} {needy : α → Prop} {l : List α}

/-- The relation between the entries of a list. -/
def Within (r : α → α → Prop) (l : List α) (a b : α) : Prop := a ∈ l ∧ b ∈ l ∧ r a b

/-- No entry of the list depends on itself, through however many others. -/
def Acyclic (r : α → α → Prop) (l : List α) : Prop :=
  ∀ a, ¬Relation.TransGen (Within r l) a a

/-- Every entry in need has what it depends on in the list. -/
def Present (r : α → α → Prop) (needy : α → Prop) (l : List α) : Prop :=
  ∀ a ∈ l, needy a → ∃ b ∈ l, r a b

/-- Every entry in need comes after what it depends on. -/
def InOrder (r : α → α → Prop) (needy : α → Prop) (log : List α) : Prop :=
  ∀ before a after, log = before ++ a :: after → needy a → ∃ b ∈ before, r a b

theorem InOrder.nil : InOrder r needy [] := by
  intro before a after h
  simp at h

/-- One more entry keeps the order when it needs nothing or what it needs is there. -/
theorem InOrder.snoc {log : List α} {e : α} (h : InOrder r needy log)
    (he : needy e → ∃ b ∈ log, r e b) : InOrder r needy (log ++ [e]) := by
  intro before a after heq hneedy
  rcases List.eq_nil_or_concat after with rfl | ⟨rest, last, rfl⟩
  · obtain ⟨rfl, ha⟩ := List.append_inj' heq rfl
    cases ha
    exact he hneedy
  · have hlog : log = before ++ a :: rest := by
      have heq' : log ++ [e] = (before ++ a :: rest) ++ [last] := by simpa using heq
      exact (List.append_inj' heq' rfl).1
    exact h before a rest hlog hneedy

theorem InOrder.present {log : List α} (h : InOrder r needy log) : Present r needy log := by
  intro a ha hneedy
  obtain ⟨before, after, rfl⟩ := List.append_of_mem ha
  obtain ⟨b, hb, hr⟩ := h before a after rfl hneedy
  exact ⟨b, List.mem_append_left _ hb, hr⟩

/-- What an entry depends on has a smaller rank in the order. -/
theorem InOrder.idxOf_lt [DecidableEq α] {log : List α} (h : InOrder r needy log)
    (hnodup : log.Nodup) (hneedy : ∀ a b, r a b → needy a)
    (hunique : ∀ a, ∀ b ∈ log, ∀ c ∈ log, r a b → r a c → b = c) {a b : α}
    (hab : Within r log a b) : log.idxOf b < log.idxOf a := by
  obtain ⟨ha, hb, hr⟩ := hab
  obtain ⟨before, after, rfl⟩ := List.append_of_mem ha
  obtain ⟨c, hc, hrc⟩ := h before a after rfl (hneedy a b hr)
  obtain rfl := hunique a b hb c (List.mem_append_left _ hc) hr hrc
  have hnot : a ∉ before := by
    have hdisjoint := List.disjoint_of_nodup_append hnodup
    exact fun hmem => hdisjoint hmem List.mem_cons_self
  rw [List.idxOf_append_of_mem hc, List.idxOf_append_of_notMem hnot, List.idxOf_cons_self,
    Nat.add_zero]
  exact List.idxOf_lt_length_of_mem hc

/-- A list in order has no cycle. -/
theorem InOrder.acyclic {log : List α} (h : InOrder r needy log) (hnodup : log.Nodup)
    (hneedy : ∀ a b, r a b → needy a)
    (hunique : ∀ a, ∀ b ∈ log, ∀ c ∈ log, r a b → r a c → b = c) : Acyclic r log := by
  classical
  have hlt : ∀ a b, Relation.TransGen (Within r log) a b → log.idxOf b < log.idxOf a := by
    intro a b hab
    induction hab with
    | single hstep => exact h.idxOf_lt hnodup hneedy hunique hstep
    | tail _ hstep ih => exact (h.idxOf_lt hnodup hneedy hunique hstep).trans ih
  exact fun a haa => absurd (hlt a a haa) (lt_irrefl _)

theorem Within.perm {l' : List α} (hperm : l.Perm l') : Within r l = Within r l' := by
  funext a b
  simp only [Within, hperm.mem_iff]

theorem Acyclic.perm {l' : List α} (h : Acyclic r l) (hperm : l.Perm l') : Acyclic r l' := by
  unfold Acyclic
  rw [← Within.perm hperm]
  exact h

theorem Present.perm {l' : List α} (h : Present r needy l) (hperm : l.Perm l') :
    Present r needy l' := by
  intro a ha hneedy
  obtain ⟨b, hb, hr⟩ := h a (hperm.mem_iff.2 ha) hneedy
  exact ⟨b, hperm.mem_iff.1 hb, hr⟩

/-- While entries remain, one of them depends on none of the others. -/
theorem Acyclic.exists_ready (h : Acyclic r l) {waiting : List α} (hsub : waiting ⊆ l)
    (hne : waiting ≠ []) : ∃ a ∈ waiting, ∀ b ∈ waiting, ¬r a b := by
  let after : {a // a ∈ waiting} → {a // a ∈ waiting} → Prop :=
    fun b a => Relation.TransGen (Within r l) a.1 b.1
  have : Finite {a // a ∈ waiting} := (List.finite_toSet waiting).to_subtype
  have : IsTrans _ after := ⟨fun _ _ _ hba hcb => hcb.trans hba⟩
  have : Std.Irrefl after := ⟨fun a => h a.1⟩
  have hwf : WellFounded after := Finite.wellFounded_of_trans_of_irrefl after
  obtain ⟨first, hfirst⟩ := List.exists_mem_of_ne_nil waiting hne
  obtain ⟨a, -, hmin⟩ := hwf.has_min Set.univ ⟨⟨first, hfirst⟩, trivial⟩
  refine ⟨a.1, a.2, fun b hb hr => hmin ⟨b, hb⟩ trivial ?_⟩
  exact .single ⟨hsub a.2, hsub hb, hr⟩

end HailProto.Precedence
