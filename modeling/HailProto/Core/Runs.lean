import Mathlib

/-!
# Maximal runs

A marked text is a list of letters, each with its mark. Pieces of it with one mark each are joined
into runs as long as the mark stays the same, and pieces without letters are left out. The runs
depend on the marked letters alone, and not on how they were cut into pieces.
-/

namespace HailProto.Runs

variable {α β : Type*}

/-- The letters of a piece, each with the mark of the piece. -/
def letters (p : List α × β) : List (α × β) := p.1.map fun letter => (letter, p.2)

/-- The marked text of pieces. -/
def marked (pieces : List (List α × β)) : List (α × β) := pieces.flatMap letters

theorem marked_append (pieces more : List (List α × β)) :
    marked (pieces ++ more) = marked pieces ++ marked more :=
  List.flatMap_append

@[simp] theorem marked_singleton (p : List α × β) : marked [p] = letters p := by
  simp [marked]

theorem letters_append (text more : List α) (mark : β) :
    letters (text ++ more, mark) = letters (text, mark) ++ letters (more, mark) :=
  List.map_append

theorem letters_inj {r s : List α × β} (hr : r.1 ≠ []) (h : letters r = letters s) : r = s := by
  obtain ⟨text, mark⟩ := r
  obtain ⟨text', mark'⟩ := s
  have hfst := congrArg (List.map Prod.fst) h
  have hsnd := congrArg (List.map Prod.snd) h
  simp only [letters, List.map_map, Function.comp_def, List.map_id'] at hfst hsnd
  obtain ⟨letter, rest, rfl⟩ := List.exists_cons_of_ne_nil hr
  subst hfst
  simp only [List.map_cons, List.cons.injEq] at hsnd
  rw [hsnd.1]

theorem map_letters_inj {runs runs' : List (List α × β)} (hruns : ∀ r ∈ runs, r.1 ≠ [])
    (h : runs.map letters = runs'.map letters) : runs = runs' := by
  induction runs generalizing runs' with
  | nil => exact (List.map_eq_nil_iff.1 h.symm).symm
  | cons r runs ih =>
    cases runs' with
    | nil => cases h
    | cons s runs' =>
      rw [List.map_cons, List.map_cons, List.cons.injEq] at h
      rw [letters_inj (hruns r List.mem_cons_self) h.1,
        ih (fun r hr => hruns r (List.mem_cons_of_mem _ hr)) h.2]

/-- Runs have letters, and neighbours have different marks. -/
structure Maximal (runs : List (List α × β)) : Prop where
  letters : ∀ r ∈ runs, r.1 ≠ []
  marks : runs.IsChain fun r s => r.2 ≠ s.2

theorem maximal_nil : Maximal ([] : List (List α × β)) := ⟨nofun, .nil⟩

variable [DecidableEq β]

/-- The letters belong to one run. -/
def sameMark (a b : α × β) : Bool := decide (a.2 = b.2)

theorem isChain_letters (p : List α × β) :
    (letters p).IsChain fun a b => sameMark a b = true := by
  rw [letters, List.isChain_map]
  exact (List.pairwise_of_forall fun _ _ => decide_eq_true rfl).isChain

/-- Maximal runs split the marked text where the mark changes. -/
theorem Maximal.splitBy {runs : List (List α × β)} (h : Maximal runs) :
    (marked runs).splitBy sameMark = runs.map Runs.letters := by
  rw [List.splitBy_eq_iff]
  refine ⟨List.flatMap_def .., ?_, ?_, ?_⟩
  · intro hnil
    obtain ⟨r, hr, hletters⟩ := List.mem_map.1 hnil
    exact h.letters r hr (List.map_eq_nil_iff.1 hletters)
  · intro l hl
    obtain ⟨r, _, rfl⟩ := List.mem_map.1 hl
    exact isChain_letters r
  · rw [List.isChain_map]
    have hall : runs.IsChain fun r s => r.1 ≠ [] ∧ s.1 ≠ [] ∧ r.2 ≠ s.2 :=
      List.IsChain.imp_of_mem_imp (fun r s hr hs hne => ⟨h.letters r hr, h.letters s hs, hne⟩)
        h.marks
    refine hall.imp fun r s hrs => ?_
    obtain ⟨hr, hs, hne⟩ := hrs
    refine ⟨by simpa [Runs.letters] using hr, by simpa [Runs.letters] using hs, ?_⟩
    simpa [Runs.letters, sameMark] using hne

/-- Maximal runs with the same marked text are the same. -/
theorem Maximal.eq {runs runs' : List (List α × β)} (h : Maximal runs) (h' : Maximal runs')
    (hmarked : marked runs = marked runs') : runs = runs' := by
  have hsplit : runs.map Runs.letters = runs'.map Runs.letters := by
    rw [← h.splitBy, ← h'.splitBy, hmarked]
  exact map_letters_inj h.letters hsplit

/-- Join a piece to the last run, or begin a new run with it. -/
def append (runs : List (List α × β)) (p : List α × β) : List (List α × β) :=
  match runs.getLast? with
  | some last =>
    if last.2 = p.2 then runs.dropLast ++ [(last.1 ++ p.1, last.2)]
    else if p.1.isEmpty then runs
    else runs ++ [p]
  | none => if p.1.isEmpty then runs else runs ++ [p]

theorem append_cases (runs : List (List α × β)) (p : List α × β) :
    (∃ before text, runs = before ++ [(text, p.2)] ∧
      append runs p = before ++ [(text ++ p.1, p.2)]) ∨
    (∀ last ∈ runs.getLast?, last.2 ≠ p.2) ∧
      (p.1 = [] ∧ append runs p = runs ∨ p.1 ≠ [] ∧ append runs p = runs ++ [p]) := by
  rcases List.eq_nil_or_concat runs with rfl | ⟨before, ⟨text, mark⟩, rfl⟩
  · refine .inr ⟨nofun, ?_⟩
    by_cases hempty : p.1 = []
    · exact .inl ⟨hempty, by simp [append, hempty]⟩
    · exact .inr ⟨hempty, by simp [append, hempty]⟩
  · by_cases hmark : mark = p.2
    · subst hmark
      exact .inl ⟨before, text, by simp, by simp [append]⟩
    · refine .inr ⟨by simpa using hmark, ?_⟩
      by_cases hempty : p.1 = []
      · exact .inl ⟨hempty, by simp [append, hmark, hempty]⟩
      · exact .inr ⟨hempty, by simp [append, hmark, hempty]⟩

theorem marked_join (runs : List (List α × β)) (p : List α × β) :
    marked (append runs p) = marked runs ++ letters p := by
  obtain ⟨before, text, rfl, happend⟩ | ⟨_, ⟨hempty, happend⟩ | ⟨_, happend⟩⟩ :=
    append_cases runs p
  · rw [happend, marked_append, marked_append, marked_singleton, marked_singleton, letters_append,
      List.append_assoc]
  · rw [happend, letters, hempty, List.map_nil, List.append_nil]
  · rw [happend, marked_append, marked_singleton]

theorem Maximal.append {runs : List (List α × β)} (h : Maximal runs) (p : List α × β) :
    Maximal (Runs.append runs p) := by
  obtain ⟨before, text, rfl, happend⟩ | ⟨hlast, ⟨_, happend⟩ | ⟨hletters, happend⟩⟩ :=
    append_cases runs p
  · rw [happend]
    have htext : text ≠ [] := h.letters _ List.mem_concat_self
    refine ⟨fun r hr => ?_, ?_⟩
    · obtain hr | rfl := List.mem_append.1 hr |>.imp_right List.mem_singleton.1
      · exact h.letters r (List.mem_append_left _ hr)
      · exact List.append_ne_nil_of_left_ne_nil htext _
    · have hmarks := h.marks
      rw [List.isChain_append] at hmarks ⊢
      exact ⟨hmarks.1, .singleton _, by simpa using hmarks.2.2⟩
  · rwa [happend]
  · rw [happend]
    refine ⟨fun r hr => ?_, ?_⟩
    · obtain hr | rfl := List.mem_append.1 hr |>.imp_right List.mem_singleton.1
      · exact h.letters r hr
      · exact hletters
    · rw [List.isChain_append]
      exact ⟨h.marks, .singleton _, by simpa using hlast⟩

/-- The runs of pieces. -/
def join (pieces : List (List α × β)) : List (List α × β) := pieces.foldl append []

theorem join_spec (pieces : List (List α × β)) :
    Maximal (join pieces) ∧ marked (join pieces) = marked pieces := by
  have hfold : ∀ runs : List (List α × β), Maximal runs →
      Maximal (pieces.foldl append runs) ∧
        marked (pieces.foldl append runs) = marked runs ++ marked pieces := by
    induction pieces with
    | nil => exact fun runs h => ⟨h, (List.append_nil _).symm⟩
    | cons p pieces ih =>
      intro runs h
      obtain ⟨hmaximal, hmarked⟩ := ih (append runs p) (h.append p)
      refine ⟨hmaximal, ?_⟩
      rw [List.foldl_cons, hmarked, marked_join, List.append_assoc]
      rfl
  exact hfold [] maximal_nil

/-- Pieces have the same runs exactly when they have the same marked text. -/
theorem join_eq_iff {pieces pieces' : List (List α × β)} :
    join pieces = join pieces' ↔ marked pieces = marked pieces' := by
  obtain ⟨hmaximal, hmarked⟩ := join_spec pieces
  obtain ⟨hmaximal', hmarked'⟩ := join_spec pieces'
  constructor
  · intro h
    rw [← hmarked, ← hmarked', h]
  · intro h
    exact hmaximal.eq hmaximal' (by rw [hmarked, hmarked', h])

end HailProto.Runs
