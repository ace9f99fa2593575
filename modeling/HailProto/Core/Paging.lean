import Mathlib

/-!
# Paging by the key of the last entry

A service returns the entries of a descending list a page at a time: without a cursor the first
page, and with the key of an entry those with smaller keys. Where a page does not end the list, the
key of its last entry is the cursor of the next. Whoever follows the cursors to their end has seen
the list once, in its order.
-/

namespace HailProto.Paging

variable {α κ σ ε : Type} {key : α → κ} {encode : κ → σ} {size : ℕ} {l : List α}

/-- A page and the cursor behind it, if there is more. -/
def pageOf (key : α → κ) (encode : κ → σ) (size : ℕ) (l : List α) : List α × Option σ :=
  (l.take size, if size < l.length then l[size - 1]?.map fun a => encode (key a) else none)

/-- Ask for page after page until there is no next cursor, at most the given number of times. -/
def follow (fetch : Option σ → Except ε (List α × Option σ)) :
    ℕ → Option σ → Option (Except ε (List α))
  | 0, _ => none
  | asks + 1, cursor =>
    match fetch cursor with
    | .error e => some (.error e)
    | .ok (page, none) => some (.ok page)
    | .ok (page, some cursor) =>
      (follow fetch asks (some cursor)).map fun rest => rest.map fun entries => page ++ entries

/-- A page that does not end the list is followed by a smaller rest. -/
theorem pageOf_cases (key : α → κ) (encode : κ → σ) (hsize : 0 < size) (rest : List α) :
    (rest.length ≤ size ∧ pageOf key encode size rest = (rest, none)) ∨
      ∃ a, size < rest.length ∧ rest[size - 1]? = some a ∧
        pageOf key encode size rest = (rest.take size, some (encode (key a))) := by
  by_cases hmore : size < rest.length
  · have hat : rest[size - 1]? = some rest[size - 1] := List.getElem?_eq_getElem (by omega)
    exact .inr ⟨_, hmore, hat, by rw [pageOf, if_pos hmore, hat, Option.map_some]⟩
  · have hle : rest.length ≤ size := not_lt.1 hmore
    exact .inl ⟨hle, by rw [pageOf, if_neg hmore, List.take_of_length_le hle]⟩

/-- Following a service whose pages are shown in another form. -/
theorem follow_map {β : Type} (shown : α → Option β)
    (fetch : Option σ → Except ε (List α × Option σ)) (asks : ℕ) (cursor : Option σ) :
    follow (fun cursor => (fetch cursor).map fun p => (p.1.filterMap shown, p.2)) asks cursor =
      (follow fetch asks cursor).map fun r => r.map fun entries => entries.filterMap shown := by
  induction asks generalizing cursor with
  | zero => rfl
  | succ asks ih =>
    rw [follow, follow]
    rcases hfetch : fetch cursor with e | ⟨page, _ | next⟩
    · rfl
    · rfl
    · change (follow _ asks (some next)).map _ = ((follow fetch asks (some next)).map _).map _
      rw [ih]
      rcases follow fetch asks (some next) with _ | e | rest
      · rfl
      · rfl
      · simp only [Option.map_some, Except.map, List.filterMap_append]

variable [LinearOrder κ]

/-- The service pages through a list: a cursor leaves the entries with smaller keys. -/
structure Pages (fetch : Option σ → Except ε (List α × Option σ)) (key : α → κ) (encode : κ → σ)
    (size : ℕ) (l : List α) : Prop where
  first : fetch none = .ok (pageOf key encode size l)
  next : ∀ a ∈ l, fetch (some (encode (key a))) =
    .ok (pageOf key encode size (l.filter fun b => key b < key a))

/-- In a descending list the entries below one of them are those behind it. -/
theorem filter_lt_eq_drop (hsorted : l.Pairwise fun a b => key b < key a) {i : ℕ} {a : α}
    (hat : l[i]? = some a) : l.filter (fun b => key b < key a) = l.drop (i + 1) := by
  induction l generalizing i with
  | nil => simp at hat
  | cons b l ih =>
    obtain ⟨hhead, htail⟩ := List.pairwise_cons.1 hsorted
    cases i with
    | zero =>
      obtain rfl : b = a := by simpa using hat
      rw [List.filter_cons_of_neg (by simp)]
      exact List.filter_eq_self.2 fun c hc => decide_eq_true (hhead c hc)
    | succ i =>
      have hat' : l[i]? = some a := by simpa using hat
      have hlt : ¬key b < key a := (hhead a (List.mem_of_getElem? hat')).asymm
      rw [List.filter_cons_of_neg (by simpa using hlt), ih htail hat', List.drop_succ_cons]

section Following

variable {fetch : Option σ → Except ε (List α × Option σ)}

theorem Pages.follow_drop (h : Pages fetch key encode size l) (hsize : 0 < size)
    (hsorted : l.Pairwise fun a b => key b < key a) {asks done : ℕ} {cursor : Option σ}
    (hfetch : fetch cursor = .ok (pageOf key encode size (l.drop done)))
    (hasks : l.length - done < asks) : follow fetch asks cursor = some (.ok (l.drop done)) := by
  induction asks generalizing done cursor with
  | zero => omega
  | succ asks ih =>
    rcases pageOf_cases key encode hsize (l.drop done) with
      ⟨-, hpage⟩ | ⟨a, hmore, hat, hpage⟩
    · rw [follow, hfetch, hpage]
    · rw [List.length_drop] at hmore
      rw [List.getElem?_drop] at hat
      have hrest : l.filter (fun b => key b < key a) = l.drop (done + size) := by
        rw [filter_lt_eq_drop hsorted hat]
        congr 1
        omega
      have hnext := h.next a (List.mem_of_getElem? hat)
      rw [hrest] at hnext
      rw [follow, hfetch, hpage]
      simp only [ih hnext (by omega), Option.map_some, Except.map]
      rw [← List.drop_drop, List.take_append_drop]

/-- Following the cursors to their end returns the list. -/
theorem Pages.follow_eq (h : Pages fetch key encode size l) (hsize : 0 < size)
    (hsorted : l.Pairwise fun a b => key b < key a) {asks : ℕ} (hasks : l.length < asks) :
    follow fetch asks none = some (.ok l) := by
  have hstart : fetch none = .ok (pageOf key encode size (l.drop 0)) := h.first
  exact h.follow_drop hsize hsorted hstart hasks

end Following

end HailProto.Paging
