import HailProto.Content.Rendering

/-!
# Groups of list blocks

`groupMessageBlocks` of `rendering.ts`. The loop looks at the last group only: a list block joins
it when it has the kind and the level of the group, and every other block starts a group of its
own. The invariant of the loop says that the groups are the blocks in order, that a list group
holds list blocks of its kind and level only, and that no two neighbours could be one group.
-/

namespace HailProto.Content

/-- A group: one block that is in no list, or list blocks of one kind and level. -/
inductive MessageBlockGroup where
  | single (block : MessageBlock)
  | list (listItem : ListKind) (level : Int) (blocks : List MessageBlock)

def MessageBlockGroup.blocks : MessageBlockGroup → List MessageBlock
  | .single block => [block]
  | .list _ _ blocks => blocks

/-- The group that a block starts. -/
def startGroup (block : MessageBlock) : MessageBlockGroup :=
  match block.listItem with
  | some listItem => .list listItem block.level [block]
  | none => .single block

/-- The group with this block added, if it can be. -/
def MessageBlockGroup.push (group : MessageBlockGroup) (block : MessageBlock) :
    Option MessageBlockGroup :=
  match group with
  | .single _ => none
  | .list listItem level blocks =>
    if block.listItem = some listItem ∧ level = block.level then
      some (.list listItem level (blocks ++ [block]))
    else none

/-- One pass of the loop. -/
def addBlock (groups : List MessageBlockGroup) (block : MessageBlock) : List MessageBlockGroup :=
  match groups.getLast?.bind (·.push block) with
  | some group => groups.dropLast ++ [group]
  | none => groups ++ [startGroup block]

def groupMessageBlocks (blocks : List MessageBlock) : List MessageBlockGroup :=
  blocks.foldl addBlock []

/-- The blocks of a group are the ones its kind and level say, and there is at least one. -/
def MessageBlockGroup.Uniform : MessageBlockGroup → Prop
  | .single block => block.listItem = none
  | .list listItem level blocks =>
    blocks ≠ [] ∧ ∀ b ∈ blocks, b.listItem = some listItem ∧ b.level = level

/-- Two groups of one kind and level, which the loop never leaves next to each other. -/
def MessageBlockGroup.Joins : MessageBlockGroup → MessageBlockGroup → Prop
  | .list listItem level _, .list listItem' level' _ => listItem = listItem' ∧ level = level'
  | _, _ => False

/-- These groups are a grouping of the blocks. -/
structure Grouping (groups : List MessageBlockGroup) (blocks : List MessageBlock) : Prop where
  flat : groups.flatMap MessageBlockGroup.blocks = blocks
  uniform : ∀ g ∈ groups, g.Uniform
  apart : groups.IsChain fun g g' => ¬g.Joins g'

/-- The block after the first ones and the one after it are neighbours in one group. -/
def InOneGroup (groups : List MessageBlockGroup) (before : List MessageBlock)
    (a b : MessageBlock) : Prop :=
  ∃ gs g gs' us vs, groups = gs ++ g :: gs' ∧ g.blocks = us ++ a :: b :: vs ∧
    gs.flatMap MessageBlockGroup.blocks ++ us = before

section Loop

variable {groups : List MessageBlockGroup} {group group' : MessageBlockGroup}
  {blocks : List MessageBlock} {block : MessageBlock}

theorem startGroup_blocks (block : MessageBlock) : (startGroup block).blocks = [block] := by
  unfold startGroup
  split <;> rfl

theorem startGroup_uniform (block : MessageBlock) : (startGroup block).Uniform := by
  unfold startGroup
  split
  · rename_i listItem hlist
    exact ⟨by simp, by simp [hlist]⟩
  · assumption

/-- A group with one more block has the kind and the level it had. -/
theorem MessageBlockGroup.push_eq_some (h : group.push block = some group')
    (huniform : group.Uniform) :
    group'.blocks = group.blocks ++ [block] ∧ group'.Uniform ∧
      ∀ g : MessageBlockGroup, g.Joins group' → g.Joins group := by
  cases group with
  | single b => cases h
  | list listItem level blocks =>
    simp only [push] at h
    split at h
    · rename_i hjoin
      cases h
      refine ⟨rfl, ⟨by simp, ?_⟩, ?_⟩
      · intro b hb
        obtain hb | hb := List.mem_append.1 hb
        · exact huniform.2 b hb
        · rw [List.mem_singleton.1 hb]
          exact ⟨hjoin.1, hjoin.2.symm⟩
      · intro g hg
        cases g with
        | single b => exact hg
        | list listItem' level' blocks' => exact hg
    · cases h

/-- A block that does not fit the last group starts one that is apart from it. -/
theorem MessageBlockGroup.push_eq_none (h : group.push block = none) :
    ¬group.Joins (startGroup block) := by
  unfold startGroup
  cases group with
  | single b => split <;> exact id
  | list listItem level blocks =>
    simp only [push] at h
    split at h
    · cases h
    · rename_i hjoin
      split
      · rename_i listItem' hlist
        rintro ⟨rfl, hlevel⟩
        exact hjoin ⟨hlist, hlevel⟩
      · exact id

theorem Grouping.nil : Grouping [] [] where
  flat := rfl
  uniform := by simp
  apart := List.IsChain.nil

/-- One pass keeps the grouping, of one block more. -/
theorem Grouping.addBlock (h : Grouping groups blocks) (block : MessageBlock) :
    Grouping (addBlock groups block) (blocks ++ [block]) := by
  unfold Content.addBlock
  split
  · rename_i group' hpush
    obtain ⟨group, hlast, hgroup⟩ := Option.bind_eq_some_iff.1 hpush
    obtain ⟨front, rfl⟩ := List.getLast?_eq_some_iff.1 hlast
    have hmem : group ∈ front ++ [group] := by simp
    obtain ⟨hblocks, huniform, hjoins⟩ := MessageBlockGroup.push_eq_some hgroup
      (h.uniform group hmem)
    rw [List.dropLast_concat]
    have hflat := h.flat
    have hchain := List.isChain_append.1 h.apart
    refine ⟨?_, ?_, ?_⟩
    · rw [List.flatMap_append, List.flatMap_singleton] at hflat ⊢
      rw [hblocks, ← List.append_assoc, hflat]
    · intro g hg
      obtain hg | hg := List.mem_append.1 hg
      · exact h.uniform g (List.mem_append_left _ hg)
      · rw [List.mem_singleton.1 hg]
        exact huniform
    · refine List.isChain_append.2 ⟨hchain.1, List.isChain_singleton _, ?_⟩
      intro g hg g' hg' hjoin
      rw [List.head?_cons, Option.mem_def, Option.some.injEq] at hg'
      subst hg'
      exact hchain.2.2 g hg group (by simp) (hjoins g hjoin)
  · rename_i hpush
    refine ⟨?_, ?_, ?_⟩
    · rw [List.flatMap_append, List.flatMap_singleton, startGroup_blocks, h.flat]
    · intro g hg
      obtain hg | hg := List.mem_append.1 hg
      · exact h.uniform g hg
      · rw [List.mem_singleton.1 hg]
        exact startGroup_uniform block
    · refine List.isChain_append.2 ⟨h.apart, List.isChain_singleton _, ?_⟩
      intro g hg g' hg'
      rw [List.head?_cons, Option.mem_def, Option.some.injEq] at hg'
      subst hg'
      rw [Option.mem_def.1 hg, Option.bind_some] at hpush
      exact MessageBlockGroup.push_eq_none hpush

theorem grouping_foldl (h : Grouping groups blocks) (rest : List MessageBlock) :
    Grouping (rest.foldl addBlock groups) (blocks ++ rest) := by
  induction rest generalizing groups blocks with
  | nil => simpa using h
  | cons block rest ih =>
    have hnext := ih (h.addBlock block)
    rwa [List.append_assoc, List.singleton_append] at hnext

theorem grouping_groupMessageBlocks (blocks : List MessageBlock) :
    Grouping (groupMessageBlocks blocks) blocks := grouping_foldl .nil blocks

end Loop

section Neighbours

variable {groups : List MessageBlockGroup} {blocks before after : List MessageBlock}
  {a b : MessageBlock}

theorem MessageBlockGroup.Uniform.ne_nil {g : MessageBlockGroup} (h : g.Uniform) :
    g.blocks ≠ [] := by
  cases g with
  | single block => simp [blocks]
  | list listItem level blocks => exact h.1

/-- Every block is at one place of one group. -/
theorem exists_group {rest : List MessageBlock}
    (h : groups.flatMap MessageBlockGroup.blocks = before ++ a :: rest) :
    ∃ gs g gs' us vs, groups = gs ++ g :: gs' ∧ g.blocks = us ++ a :: vs ∧
      gs.flatMap MessageBlockGroup.blocks ++ us = before ∧
      vs ++ gs'.flatMap MessageBlockGroup.blocks = rest := by
  induction groups generalizing before with
  | nil => simp at h
  | cons g groups ih =>
    rw [List.flatMap_cons] at h
    obtain ⟨us, hbefore, hrest⟩ | ⟨us, hblocks, hrest⟩ := List.append_eq_append_iff.1 h
    · obtain ⟨gs, g', gs', us', vs, rfl, hg', hflat, hvs⟩ := ih hrest
      refine ⟨g :: gs, g', gs', us', vs, rfl, hg', ?_, hvs⟩
      rw [List.flatMap_cons, List.append_assoc, hflat, hbefore]
    · cases us with
      | nil =>
        rw [List.append_nil] at hblocks
        have hrest' : groups.flatMap MessageBlockGroup.blocks = [] ++ a :: rest := hrest.symm
        obtain ⟨gs, g', gs', us', vs, rfl, hg', hflat, hvs⟩ := ih hrest'
        refine ⟨g :: gs, g', gs', us', vs, rfl, hg', ?_, hvs⟩
        rw [List.flatMap_cons, List.append_assoc, hflat, List.append_nil, hblocks]
      | cons x vs =>
        obtain ⟨rfl, hvs⟩ := List.cons.inj hrest
        exact ⟨[], g, groups, before, vs, rfl, hblocks, rfl, hvs.symm⟩

/-- Blocks that are next to each other in one group are list blocks of one kind and level. -/
theorem InOneGroup.eq (h : InOneGroup groups before a b) (huniform : ∀ g ∈ groups, g.Uniform) :
    a.listItem = b.listItem ∧ a.level = b.level := by
  obtain ⟨gs, g, gs', us, vs, rfl, hblocks, _⟩ := h
  have hg := huniform g (by simp)
  cases g with
  | single block =>
    have hlength := congrArg List.length hblocks
    simp [MessageBlockGroup.blocks] at hlength
    omega
  | list listItem level blocks =>
    simp only [MessageBlockGroup.blocks] at hblocks
    have ha := hg.2 a (by simp [hblocks])
    have hb := hg.2 b (by simp [hblocks])
    exact ⟨ha.1.trans hb.1.symm, ha.2.trans hb.2.symm⟩

/-- Two neighbouring list blocks are in one group exactly when they have one kind and level. -/
theorem Grouping.inOneGroup_iff (h : Grouping groups (before ++ a :: b :: after))
    (ha : a.listItem ≠ none) :
    InOneGroup groups before a b ↔ a.listItem = b.listItem ∧ a.level = b.level := by
  refine ⟨fun hone => hone.eq h.uniform, ?_⟩
  rintro ⟨hlist, hlevel⟩
  obtain ⟨gs, g, gs', us, vs, rfl, hblocks, hbefore, hrest⟩ := exists_group h.flat
  cases vs with
  | cons x vs =>
    obtain ⟨rfl, _⟩ := List.cons.inj hrest
    exact ⟨gs, g, gs', us, vs, rfl, hblocks, hbefore⟩
  | nil =>
    -- The second block would start the next group, which the first one could have joined.
    exfalso
    rw [List.nil_append] at hrest
    cases gs' with
    | nil => simp at hrest
    | cons g' gs' =>
      have hg := h.uniform g (by simp)
      have hg' := h.uniform g' (by simp)
      have hapart := (List.isChain_append.1 h.apart).2.1
      rw [List.isChain_cons_cons] at hapart
      obtain ⟨x, xs, hx⟩ := List.exists_cons_of_ne_nil hg'.ne_nil
      rw [List.flatMap_cons, hx, List.cons_append] at hrest
      obtain ⟨rfl, _⟩ := List.cons.inj hrest
      have hmem : a ∈ g.blocks := by simp [hblocks]
      have hmem' : x ∈ g'.blocks := by simp [hx]
      cases g with
      | single block =>
        rw [MessageBlockGroup.blocks, List.mem_singleton] at hmem
        subst hmem
        exact ha hg
      | list listItem level blocks =>
        obtain ⟨hkind, hat⟩ := hg.2 a hmem
        cases g' with
        | single block =>
          rw [MessageBlockGroup.blocks, List.mem_singleton] at hmem'
          subst hmem'
          have hnone : x.listItem = none := hg'
          exact ha (hlist.trans hnone)
        | list listItem' level' blocks' =>
          obtain ⟨hkind', hat'⟩ := hg'.2 x hmem'
          apply hapart.1
          refine ⟨?_, by rw [← hat, ← hat', hlevel]⟩
          rw [← Option.some.injEq, ← hkind, ← hkind', hlist]

end Neighbours

end HailProto.Content
