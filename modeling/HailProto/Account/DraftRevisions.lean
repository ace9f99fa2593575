import HailProto.Account.Drafts

/-!
# What a revision number of a draft says

A device that saves or sends a draft names the revision it was given. While no id is used for a
second draft, a number that was given out stands for one content, so that an edit that is accepted
was made with the stored content in view. A draft that was deleted and created again under its id
starts at revision 1 once more.
-/

namespace HailProto.Account

open Server

variable {κ : Type}

/-- A draft that a device was given. -/
structure Given (κ : Type) where
  device : String
  account : Uuid
  id : Uuid
  revision : Nat
  content : κ
  deriving DecidableEq

/-- The tables, and everything that devices were given. -/
structure DraftWorld (κ : Type) where
  store : DraftStore κ
  given : List (Given κ)

/-- The operations on drafts, each by a device that matters only where it is answered with a
draft. -/
inductive DraftEvent (κ : Type)
  | read (w : Circumstances) (device : String) (account : Uuid) (id : Option Uuid) (trash : Bool)
      (after : Option Uuid)
  | save (w : Circumstances) (device : String) (account id : Uuid) (revision : Nat) (content : κ)
  | restore (w : Circumstances) (account id : Uuid)
  | delete (w : Circumstances) (account id : Uuid)
  | saveSettings (w : Circumstances) (account : Uuid) (enabled : Bool)
  | emptyTrash (w : Circumstances) (account : Uuid)
  | purgeExpired (w : Circumstances) (account : Uuid)
  | createBatch (w : Circumstances) (device : String) (kind : BatchKind) (passkey : Bool)
      (account id : Uuid) (requestDigest : Bytes) (draftRevision : Option Nat)

def give (device : String) (account : Uuid) (draft : Draft κ) : Given κ :=
  ⟨device, account, draft.id, draft.revision, draft.content⟩

/-- A change of the tables that gives nothing out. -/
def DraftWorld.change (s : DraftWorld κ) (result : Except Fault (DraftStore κ)) :
    Option (DraftWorld κ) :=
  result.toOption.map fun store => { s with store := store }

/-- A call that raises is not a step. -/
def draftStep (s : DraftWorld κ) : DraftEvent κ → Option (DraftWorld κ)
  | .read w device account id trash after =>
    some { s with given := s.given ++
      (read w s.store account id trash after).map (give device account) }
  | .save w device account id revision content =>
    (save w s.store account id revision content).toOption.map fun result =>
      ⟨result.1, s.given ++ [give device account result.2]⟩
  | .restore w account id => s.change (restore w s.store account id)
  | .delete w account id => s.change (delete w s.store account id)
  | .saveSettings w account enabled => s.change (saveSettings w s.store account enabled)
  | .emptyTrash w account => s.change (emptyTrash w s.store account)
  | .purgeExpired w account => s.change (purgeExpired w s.store account)
  | .createBatch w _ kind passkey account id requestDigest draftRevision =>
    s.change (createBatch w s.store account kind passkey id requestDigest draftRevision)

/-- A draft is created only under an id that no device was given a draft of. -/
def CreatesFresh (s : DraftWorld κ) : DraftEvent κ → Prop
  | .save _ _ account id _ _ => s.store.drafts.find (account, id) = none →
      ∀ entry ∈ s.given, ¬(entry.account = account ∧ entry.id = id)
  | _ => True

instance (s : DraftWorld κ) (e : DraftEvent κ) : Decidable (CreatesFresh s e) := by
  cases e <;> unfold CreatesFresh <;> infer_instance

section Rows

/-- A stored draft stays as it is, is removed, or gets a larger revision. -/
def RowStep (old new : Option (DraftRow κ)) : Prop :=
  new = old ∨ new = none ∨ ∃ row row', old = some row ∧ new = some row' ∧
    row.revision < row'.revision

variable {s s' : DraftStore κ} {w : Circumstances} {account id : Uuid}

theorem nextRevision_ok {revision next : Nat} (h : nextRevision revision = .ok next) :
    next = revision + 1 := by
  simp only [nextRevision, guard_eq_ok, Except.ok.injEq] at h
  exact h.2.symm

/-- A larger revision of one draft is a step of every row. -/
theorem rowStep_insert {current row : DraftRow κ} (h : s.drafts.find (account, id) = some current)
    (hlt : current.revision < row.revision) (key : Uuid × Uuid) :
    RowStep (s.drafts.find key) ((s.drafts.insert (account, id) row).find key) := by
  rw [Table.find_insert]
  by_cases hkey : key = (account, id)
  · rw [if_pos hkey, hkey]
    exact .inr (.inr ⟨current, row, h, rfl, hlt⟩)
  · rw [if_neg hkey]
    exact .inl rfl

theorem rowStep_deleteWhere (condition : Uuid × Uuid → DraftRow κ → Bool) (key : Uuid × Uuid) :
    RowStep (s.drafts.find key) ((s.drafts.deleteWhere condition).find key) := by
  rw [Table.find_deleteWhere]
  cases s.drafts.find key with
  | none => exact .inl rfl
  | some row =>
    by_cases hkeep : (!condition key row) = true
    · exact .inl (Option.filter_some_pos hkeep)
    · exact .inr (.inl (Option.filter_some_neg (by simpa using hkeep)))

/-- What an operation that creates no draft does: it takes every row a step, and leaves the
batches. -/
structure Steps (s s' : DraftStore κ) : Prop where
  rows : ∀ key, RowStep (s.drafts.find key) (s'.drafts.find key)
  batches : s'.batches = s.batches

theorem Steps.refl (s : DraftStore κ) : Steps s s := ⟨fun _ => .inl rfl, rfl⟩

theorem restore_steps (h : restore w s account id = .ok s') : Steps s s' := by
  simp only [restore, bind_eq_ok, guard_eq_ok] at h
  obtain ⟨_, _, _, h⟩ := h
  split at h
  · cases h
    exact .refl s
  · rename_i current hcurrent
    split at h
    · obtain ⟨next, hnext, h⟩ := bind_eq_ok.1 h
      cases h
      obtain rfl := nextRevision_ok hnext
      exact ⟨rowStep_insert hcurrent (Nat.lt_succ_self _), rfl⟩
    · cases h
      exact .refl s

theorem delete_steps (h : delete w s account id = .ok s') : Steps s s' := by
  simp only [delete, bind_eq_ok, guard_eq_ok] at h
  obtain ⟨_, _, _, h⟩ := h
  split at h
  · cases h
    exact ⟨rowStep_deleteWhere _, rfl⟩
  · split at h
    · cases h
      exact .refl s
    · rename_i current hcurrent
      split at h
      · cases h
        exact .refl s
      · obtain ⟨next, hnext, h⟩ := bind_eq_ok.1 h
        cases h
        obtain rfl := nextRevision_ok hnext
        exact ⟨rowStep_insert hcurrent (Nat.lt_succ_self _), rfl⟩

theorem deleteTrashed_steps (condition : Int → Bool) : Steps s (deleteTrashed s account condition) :=
  ⟨rowStep_deleteWhere _, rfl⟩

theorem saveSettings_steps {enabled : Bool} (h : saveSettings w s account enabled = .ok s') :
    Steps s s' := by
  simp only [saveSettings, bind_eq_ok, Except.ok.injEq] at h
  obtain ⟨_, _, rfl⟩ := h
  cases enabled with
  | true => exact ⟨fun _ => .inl rfl, rfl⟩
  | false => exact ⟨rowStep_deleteWhere _, rfl⟩

theorem emptyTrash_steps (h : emptyTrash w s account = .ok s') : Steps s s' := by
  simp only [emptyTrash, bind_eq_ok, Except.ok.injEq] at h
  obtain ⟨_, _, rfl⟩ := h
  exact deleteTrashed_steps _

theorem purgeExpired_steps (h : purgeExpired w s account = .ok s') : Steps s s' := by
  simp only [purgeExpired, bind_eq_ok, Except.ok.injEq] at h
  obtain ⟨_, _, rfl⟩ := h
  exact deleteTrashed_steps _

/-- A draft is consumed with its revision, and none is left under its id. -/
theorem consumeDraft_ok {passkey : Bool} {revision : Option Nat}
    (h : consumeDraft s account passkey id revision = .ok s') :
    Steps s s' ∧ s'.drafts.find (account, id) = none ∧
      revision = (s.drafts.find (account, id)).map DraftRow.revision := by
  unfold consumeDraft at h
  split at h
  · rename_i hnone
    split at h
    · cases h
    · rename_i hrevision
      cases h
      exact ⟨.refl s, hnone, by simpa [hnone] using hrevision⟩
  · rename_i current hcurrent
    simp only [guard_eq_ok, not_or, ne_eq, not_not, Except.ok.injEq] at h
    obtain ⟨⟨_, _, hrevision⟩, rfl⟩ := h
    refine ⟨⟨rowStep_deleteWhere _, rfl⟩, ?_, by rw [hcurrent, ← hrevision]; rfl⟩
    rw [Table.find_deleteWhere, Option.filter_eq_none_iff]
    simp

/-- What an accepted save found and left. -/
theorem save_ok {revision : Nat} {content : κ} {draft : Draft κ}
    (h : save w s account id revision content = .ok (s', draft)) :
    isSent w s account id = false ∧ s'.batches = s.batches ∧ ∃ row : DraftRow κ,
      s'.drafts = s.drafts.insert (account, id) row ∧ row.content = content ∧
        draft = present id row ∧
        (s.drafts.find (account, id) = none ∧ revision = 0 ∨
          ∃ current, s.drafts.find (account, id) = some current ∧ current.revision = revision ∧
            row.revision = current.revision + 1) := by
  simp only [save, bind_eq_ok, guard_eq_ok, Bool.not_eq_true] at h
  obtain ⟨_, _, hsent, h⟩ := h
  refine ⟨hsent, ?_⟩
  split at h
  · rename_i hnone
    simp only [guard_eq_ok, ne_eq, not_not, Except.ok.injEq, Prod.mk.injEq] at h
    obtain ⟨hrevision, rfl, rfl⟩ := h
    exact ⟨rfl, _, rfl, rfl, rfl, .inl ⟨hnone, hrevision.symm⟩⟩
  · rename_i current hcurrent
    simp only [guard_eq_ok, not_or, ne_eq, not_not, bind_eq_ok, Except.ok.injEq,
      Prod.mk.injEq] at h
    obtain ⟨⟨_, hrevision⟩, next, hnext, rfl, rfl⟩ := h
    exact ⟨rfl, _, rfl, rfl, rfl, .inr ⟨current, hcurrent, hrevision, nextRevision_ok hnext⟩⟩

/-- A batch that is new consumes its draft; nothing else changes. -/
theorem createBatch_ok {kind : BatchKind} {passkey : Bool} {requestDigest : Bytes}
    {draftRevision : Option Nat}
    (h : createBatch w s account kind passkey id requestDigest draftRevision = .ok s') :
    s' = s ∧ (s.batches.find (kind, account, id)).isSome ∨
      ∃ consumed, consumeDraft s account passkey id draftRevision = .ok consumed ∧
        s' = { consumed with
          batches := consumed.batches.insert (kind, account, id) requestDigest } := by
  simp only [createBatch, bind_eq_ok] at h
  obtain ⟨_, _, h⟩ := h
  split at h
  · rename_i prior hprior
    simp only [guard_eq_ok, Except.ok.injEq] at h
    exact .inl ⟨h.2.symm, by rw [hprior]; rfl⟩
  · obtain ⟨consumed, hconsumed, h⟩ := bind_eq_ok.1 h
    cases h
    exact .inr ⟨consumed, hconsumed, rfl⟩

end Rows

section Runs

/-- What a device was given under the current revision of a draft is the draft's content, and a
draft that was sent is gone. -/
structure Known (s : DraftWorld κ) : Prop where
  given : ∀ entry ∈ s.given, ∀ row, s.store.drafts.find (entry.account, entry.id) = some row →
    entry.revision ≤ row.revision ∧ (entry.revision = row.revision → entry.content = row.content)
  sent : ∀ kind account id, (s.store.batches.find (kind, account, id)).isSome →
    s.store.drafts.find (account, id) = none

variable {s t : DraftWorld κ}

/-- Rows that step keep what devices know of them. -/
theorem Known.steps (h : Known s) {store : DraftStore κ} (hsteps : Steps s.store store) :
    Known { s with store := store } where
  given entry hentry row hrow := by
    obtain hsame | hnone | ⟨old, new, hold, hnew, hlt⟩ :=
      hsteps.rows (entry.account, entry.id)
    · exact h.given entry hentry row (hsame.symm.trans hrow)
    · exact absurd (hnone.symm.trans hrow) nofun
    · obtain rfl := Option.some.inj (hnew.symm.trans hrow)
      have hle := (h.given entry hentry old hold).1
      exact ⟨by omega, fun heq => by omega⟩
  sent kind account id hbatch := by
    have hnone := h.sent kind account id (hsteps.batches ▸ hbatch)
    obtain hsame | hnone' | ⟨old, new, hold, _, _⟩ := hsteps.rows (account, id)
    · exact hsame.trans hnone
    · exact hnone'
    · exact absurd (hold.symm.trans hnone) nofun

theorem Known.change (h : Known s) {result : Except Fault (DraftStore κ)}
    (hresult : ∀ store, result = .ok store → Steps s.store store)
    (hstep : s.change result = some t) : Known t := by
  simp only [DraftWorld.change, Option.map_eq_some_iff, toOption_eq_some] at hstep
  obtain ⟨store, hok, rfl⟩ := hstep
  exact h.steps (hresult store hok)

/-- A row that is shown is stored, under the account. -/
theorem mem_read {store : DraftStore κ} {w : Circumstances} {account : Uuid} {id after : Option Uuid}
    {trash : Bool} {draft : Draft κ} (h : draft ∈ read w store account id trash after) :
    ∃ row, store.drafts.find (account, draft.id) = some row ∧ draft = present draft.id row := by
  obtain ⟨row, hrow, rfl⟩ := List.mem_map.1 h
  have hmem := (List.perm_insertionSort _ _).mem_iff.1 (List.mem_of_mem_take hrow)
  obtain ⟨hrows, hshown⟩ := List.mem_filter.1 hmem
  simp only [isShown, Bool.and_eq_true, beq_iff_eq] at hshown
  obtain ⟨⟨key, id⟩, row⟩ := row
  obtain rfl : key = account := hshown.1.1.1.1
  exact ⟨row, Table.mem_rows.1 hrows, rfl⟩

theorem Known.read (h : Known s) (w : Circumstances) (device : String) (account : Uuid)
    (id : Option Uuid) (trash : Bool) (after : Option Uuid) :
    Known { s with given := s.given ++
      (Account.read w s.store account id trash after).map (give device account) } where
  given entry hentry row hrow := by
    obtain hentry | hentry := List.mem_append.1 hentry
    · exact h.given entry hentry row hrow
    · obtain ⟨draft, hdraft, rfl⟩ := List.mem_map.1 hentry
      obtain ⟨stored, hstored, hpresent⟩ := mem_read hdraft
      obtain rfl := Option.some.inj (hstored.symm.trans hrow)
      rw [hpresent]
      exact ⟨le_rfl, fun _ => rfl⟩
  sent := h.sent

theorem Known.save (h : Known s) {w : Circumstances} {device : String} {account id : Uuid}
    {revision : Nat} {content : κ} {store : DraftStore κ} {draft : Draft κ}
    (hfresh : s.store.drafts.find (account, id) = none →
      ∀ entry ∈ s.given, ¬(entry.account = account ∧ entry.id = id))
    (hsave : Account.save w s.store account id revision content = .ok (store, draft)) :
    Known ⟨store, s.given ++ [give device account draft]⟩ := by
  obtain ⟨hsent, hbatches, row, hdrafts, _, rfl, hcase⟩ := save_ok hsave
  have hbefore : ∀ entry ∈ s.given, entry.account = account → entry.id = id →
      entry.revision < row.revision := by
    intro entry hentry haccount hid
    obtain ⟨hnone, _⟩ | ⟨current, hcurrent, _, hnext⟩ := hcase
    · exact absurd ⟨haccount, hid⟩ (hfresh hnone entry hentry)
    · have hle := (h.given entry hentry current (by rw [haccount, hid, hcurrent])).1
      omega
  constructor
  · intro entry hentry found hfound
    rw [hdrafts, Table.find_insert] at hfound
    obtain hentry | hentry := List.mem_append.1 hentry
    · by_cases hkey : (entry.account, entry.id) = (account, id)
      · rw [if_pos hkey, Option.some.injEq] at hfound
        subst hfound
        obtain ⟨haccount, hid⟩ := Prod.mk.inj hkey
        have hlt := hbefore entry hentry haccount hid
        exact ⟨hlt.le, fun heq => absurd heq hlt.ne⟩
      · rw [if_neg hkey] at hfound
        exact h.given entry hentry found hfound
    · obtain rfl := List.mem_singleton.1 hentry
      have hkey : ((give device account (present id row)).account,
          (give device account (present id row)).id) = (account, id) := rfl
      rw [if_pos hkey, Option.some.injEq] at hfound
      subst hfound
      exact ⟨le_rfl, fun _ => rfl⟩
  · intro kind account' id' hbatch
    rw [hbatches] at hbatch
    rw [hdrafts, Table.find_insert]
    by_cases hkey : (account', id') = (account, id)
    · obtain ⟨rfl, rfl⟩ := Prod.mk.inj hkey
      simp only [isSent, Bool.or_eq_false_iff] at hsent
      cases kind
      · exact absurd hbatch (by rw [hsent.1.2]; exact Bool.false_ne_true)
      · exact absurd hbatch (by rw [hsent.2]; exact Bool.false_ne_true)
    · rw [if_neg hkey]
      exact h.sent kind account' id' hbatch

theorem Known.createBatch (h : Known s) {w : Circumstances} {account id : Uuid} {kind : BatchKind}
    {passkey : Bool} {requestDigest : Bytes} {draftRevision : Option Nat} {store : DraftStore κ}
    (hcreate : Account.createBatch w s.store account kind passkey id requestDigest draftRevision =
      .ok store) : Known { s with store := store } := by
  obtain ⟨rfl, _⟩ | ⟨consumed, hconsumed, rfl⟩ := createBatch_ok hcreate
  · exact h
  · obtain ⟨hsteps, hnone, _⟩ := consumeDraft_ok hconsumed
    have hknown := h.steps hsteps
    refine ⟨hknown.given, fun kind' account' id' hbatch => ?_⟩
    by_cases hkey : (kind', account', id') = (kind, account, id)
    · obtain ⟨_, hkey⟩ := Prod.mk.inj hkey
      rw [hkey]
      exact hnone
    · rw [Table.find_insert_of_ne _ _ hkey] at hbatch
      exact hknown.sent kind' account' id' hbatch

theorem Known.step (h : Known s) {e : DraftEvent κ} (hallowed : CreatesFresh s e)
    (hstep : draftStep s e = some t) : Known t := by
  cases e with
  | read w device account id trash after =>
    cases hstep
    exact h.read w device account id trash after
  | save w device account id revision content =>
    simp only [draftStep, Option.map_eq_some_iff, toOption_eq_some] at hstep
    obtain ⟨⟨store, draft⟩, hsave, rfl⟩ := hstep
    exact h.save hallowed hsave
  | restore w account id => exact h.change (fun _ => restore_steps) hstep
  | delete w account id => exact h.change (fun _ => delete_steps) hstep
  | saveSettings w account enabled => exact h.change (fun _ => saveSettings_steps) hstep
  | emptyTrash w account => exact h.change (fun _ => emptyTrash_steps) hstep
  | purgeExpired w account => exact h.change (fun _ => purgeExpired_steps) hstep
  | createBatch w device kind passkey account id requestDigest draftRevision =>
    simp only [draftStep, DraftWorld.change, Option.map_eq_some_iff, toOption_eq_some] at hstep
    obtain ⟨store, hcreate, rfl⟩ := hstep
    exact h.createBatch hcreate

/-- No draft, no batch and nothing given out. -/
def DraftWorld.initial : DraftWorld κ := ⟨⟨∅, ∅, ∅⟩, []⟩

end Runs

namespace Sample

def account : Uuid := "019a0000-0000-7000-8000-000000000001"
def id : Uuid := "019a0000-0000-7000-8000-000000000002"

def at' (now : Int) : Circumstances := ⟨now, true, none, false⟩

/-- A phone saves a draft twice, a laptop reads and sends it. -/
def sent : List (DraftEvent String) :=
  [.save (at' 1) "phone" account id 0 "one", .save (at' 2) "phone" account id 1 "two",
    .read (at' 3) "laptop" account (some id) false none,
    .createBatch (at' 4) "laptop" .connections true account id [7] (some 2)]

end Sample

end HailProto.Account
