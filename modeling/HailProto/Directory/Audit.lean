import HailProto.Server.Basic

/-!
# Audit logs of the directory

The audit log of a DID, as a reader of the directory returns it, and the comparison of a log with
an earlier one: the later log has every entry of the earlier, unchanged but for a nullification
that may have been added. Being contained in this way is transitive.
-/

namespace HailProto.Directory

open Server

variable {ω : Type}

/-- `ExportedOp`: an entry of an audit log. -/
structure ExportedOp (ω : Type) where
  did : Did
  cid : String
  operation : ω
  nullified : Bool
  createdAt : String
  deriving DecidableEq

/-- The later entry is the earlier one, or the earlier one nullified. -/
structure ExportedOp.Keeps (earlier later : ExportedOp ω) : Prop where
  cid : later.cid = earlier.cid
  did : later.did = earlier.did
  createdAt : later.createdAt = earlier.createdAt
  operation : later.operation = earlier.operation
  nullified : earlier.nullified = true → later.nullified = true

theorem ExportedOp.Keeps.trans {a b c : ExportedOp ω} (h : a.Keeps b) (h' : b.Keeps c) :
    a.Keeps c where
  cid := h'.cid.trans h.cid
  did := h'.did.trans h.did
  createdAt := h'.createdAt.trans h.createdAt
  operation := h'.operation.trans h.operation
  nullified := fun ha => h'.nullified (h.nullified ha)

/-- Every entry of the earlier log is in the later one. -/
def Contains (earlier later : List (ExportedOp ω)) : Prop :=
  ∀ prior ∈ earlier, ∃ next ∈ later, prior.Keeps next

theorem Contains.refl (log : List (ExportedOp ω)) : Contains log log :=
  fun prior hprior => ⟨prior, hprior, ⟨rfl, rfl, rfl, rfl, id⟩⟩

theorem Contains.trans {a b c : List (ExportedOp ω)} (h : Contains a b) (h' : Contains b c) :
    Contains a c := by
  intro prior hprior
  obtain ⟨next, hnext, hkeeps⟩ := h prior hprior
  obtain ⟨last, hlast, hkeeps'⟩ := h' next hnext
  exact ⟨last, hlast, hkeeps.trans hkeeps'⟩

/-- `new Map(current.map(entry => [entry.cid, entry])).get(cid)`: the last entry wins. -/
def byCid (current : List (ExportedOp ω)) (cid : String) : Option (ExportedOp ω) :=
  current.reverse.find? fun entry => entry.cid == cid

theorem byCid_eq_some {current : List (ExportedOp ω)} {cid : String} {entry : ExportedOp ω}
    (h : byCid current cid = some entry) : entry ∈ current ∧ entry.cid = cid :=
  ⟨List.mem_reverse.1 (List.mem_of_find?_eq_some h), by simpa using List.find?_some h⟩

variable [DecidableEq ω]

/-- A retained entry is missing from the current log, differs there or is no longer nullified. -/
def regressed (current : List (ExportedOp ω)) (prior : ExportedOp ω) : Bool :=
  match byCid current prior.cid with
  | none => true
  | some next => decide (prior.did ≠ next.did ∨ prior.createdAt ≠ next.createdAt ∨
      prior.operation ≠ next.operation) || (prior.nullified && !next.nullified)

/-- A log no entry of which has regressed is contained in the current one. -/
theorem contains_of_not_regressed {earlier current : List (ExportedOp ω)}
    (h : earlier.any (regressed current) = false) : Contains earlier current := by
  intro prior hprior
  rw [List.any_eq_false] at h
  have hkept := h prior hprior
  unfold regressed at hkept
  split at hkept
  · exact absurd rfl hkept
  · rename_i next hnext
    obtain ⟨hmem, hcid⟩ := byCid_eq_some hnext
    simp only [Bool.or_eq_true, decide_eq_true_eq, Bool.and_eq_true, Bool.not_eq_true', not_or,
      not_and, ne_eq, not_not, Bool.not_eq_false] at hkept
    obtain ⟨⟨hdid, hcreated, hoperation⟩, hnullified⟩ := hkept
    exact ⟨next, hmem, ⟨hcid, hdid.symm, hcreated.symm, hoperation.symm, hnullified⟩⟩

end HailProto.Directory
