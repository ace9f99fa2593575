import Mathlib

/-!
# Runs of a transition system

A system is a partial step function on states and events. A run takes one event after
another, each of them allowed in the state it is taken in. What holds at the start and is
preserved by every allowed step holds in every state a run reaches.
-/

namespace HailProto

variable {σ ε : Type*}

/-- The states reached from `start` by runs whose events are all `allowed` where they are
taken. -/
inductive Reaches (step : σ → ε → Option σ) (allowed : σ → ε → Prop) (start : σ) : σ → Prop
  | refl : Reaches step allowed start start
  | next {s t : σ} (e : ε) : Reaches step allowed start s → allowed s e → step s e = some t →
      Reaches step allowed start t

/-- The runs without a restriction on their events. -/
abbrev Reachable (step : σ → ε → Option σ) (start : σ) : σ → Prop :=
  Reaches step (fun _ _ => True) start

namespace Reaches

variable {step : σ → ε → Option σ} {allowed : σ → ε → Prop} {start s t : σ}

/-- The invariant rule: an inductive property holds in every state a run reaches. -/
theorem invariant {I : σ → Prop} (h : Reaches step allowed start s) (initial : I start)
    (preserved : ∀ {s t : σ} (e : ε), I s → allowed s e → step s e = some t → I t) : I s := by
  induction h with
  | refl => exact initial
  | next e _ hallowed hstep ih => exact preserved e ih hallowed hstep

/-- Runs compose. -/
theorem trans {u : σ} (h : Reaches step allowed start s) (h' : Reaches step allowed s u) :
    Reaches step allowed start u := by
  induction h' with
  | refl => exact h
  | next e _ hallowed hstep ih => exact next e ih hallowed hstep

/-- A weaker restriction keeps the run. -/
theorem mono {allowed' : σ → ε → Prop} (h : Reaches step allowed start s)
    (himp : ∀ s e, allowed s e → allowed' s e) : Reaches step allowed' start s := by
  induction h with
  | refl => exact refl
  | next e _ hallowed hstep ih => exact next e ih (himp _ e hallowed) hstep

/-- Dropping a restriction keeps the run. -/
theorem unrestricted (h : Reaches step allowed start s) : Reachable step start s := by
  induction h with
  | refl => exact refl
  | next e _ _ hstep ih => exact next e ih trivial hstep

end Reaches

/-- Take a list of events in order. -/
def exec (step : σ → ε → Option σ) : σ → List ε → Option σ
  | s, [] => some s
  | s, e :: events => (step s e).bind fun t => exec step t events

/-- A list of events that can be taken in order is a run. -/
theorem reachable_of_exec {step : σ → ε → Option σ} {start t : σ} {events : List ε}
    (h : exec step start events = some t) : Reachable step start t := by
  induction events generalizing start with
  | nil =>
    cases h
    exact .refl
  | cons e events ih =>
    simp only [exec, Option.bind_eq_some_iff] at h
    obtain ⟨s, hstep, hrest⟩ := h
    have hfirst : Reachable step start s := .next e .refl trivial hstep
    exact hfirst.trans (ih hrest)

/-- Events that satisfy a condition and can be taken in order are a run under the condition. -/
theorem reaches_of_exec {step : σ → ε → Option σ} {allowed : ε → Prop} {start t : σ}
    {events : List ε} (h : exec step start events = some t) (hall : ∀ e ∈ events, allowed e) :
    Reaches step (fun _ e => allowed e) start t := by
  induction events generalizing start with
  | nil =>
    cases h
    exact .refl
  | cons e events ih =>
    simp only [exec, Option.bind_eq_some_iff] at h
    obtain ⟨s, hstep, hrest⟩ := h
    have hfirst : Reaches step (fun _ e => allowed e) start s :=
      .next e .refl (hall e List.mem_cons_self) hstep
    exact hfirst.trans (ih hrest fun e he => hall e (List.mem_cons_of_mem _ he))

/-- Take a list of events in order, each of them where it is allowed. -/
def execWhere (step : σ → ε → Option σ) (allowed : σ → ε → Bool) : σ → List ε → Option σ :=
  exec fun s e => if allowed s e then step s e else none

theorem reaches_of_execWhere {step : σ → ε → Option σ} {allowed : σ → ε → Bool} {start t : σ}
    {events : List ε} (h : execWhere step allowed start events = some t) :
    Reaches step (fun s e => allowed s e = true) start t := by
  induction events generalizing start with
  | nil =>
    cases h
    exact .refl
  | cons e events ih =>
    simp only [execWhere, exec, Option.bind_eq_some_iff] at h
    obtain ⟨s, hstep, hrest⟩ := h
    split at hstep
    · rename_i hallowed
      have hfirst : Reaches step (fun s e => allowed s e = true) start s :=
        .next e .refl hallowed hstep
      exact hfirst.trans (ih hrest)
    · cases hstep

end HailProto
