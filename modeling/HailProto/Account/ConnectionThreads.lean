import HailProto.Core.UnionFind
import HailProto.Server.JsString

/-!
# Connection threads

`groupConnectionMessages` of `accounts/connection-threads.ts`. The messages of one account are
joined into conversations over the links that are authenticated: a reply and the message it
answers, the messages of one shared conversation, and the messages of one send to many. Messages,
conversations and sends are keys of one union-find; a message is the key of its sender and its
identifier.
-/

namespace HailProto.Account

open Relation (EqvGen)
open Server

/-- A message as the inbox sees it. -/
structure ConnectionNode where
  sender : JsString
  messageId : JsString
  recipient : JsString
  sent : Bool
  visible : Bool
  isRead : Bool
  «at» : JsString
  parentSender : Option JsString
  parentId : Option JsString
  batch : Option JsString
  conversation : Option JsString
  deriving DecidableEq

/-- A string that is there and not empty: the truth of a string in a condition. -/
def truthy (s : Option JsString) : Option JsString := s.filter (· ≠ [])

def connectionKey (m : ConnectionNode) : JsString := m.sender ++ js "/" ++ m.messageId

def conversationKey (conversation : JsString) : JsString := js "conversation/" ++ conversation

def batchKey (batch : JsString) : JsString := js "batch/" ++ batch

namespace ConnectionNode

variable (node : ConnectionNode)

/-- The key of the message this one answers. -/
def parent : Option JsString :=
  match truthy node.parentSender, truthy node.parentId with
  | some sender, some id => some (sender ++ js "/" ++ id)
  | _, _ => none

/-- The send to many that this message of the account's own belongs to. -/
def ownBatch : Option JsString := if node.sent then truthy node.batch else none

/-- The shared conversation of the message. -/
def inConversation : Option JsString := truthy node.conversation

end ConnectionNode

/-- `known.has(key)`. -/
def known (nodes : List ConnectionNode) (key : JsString) : Bool :=
  nodes.any fun node => connectionKey node = key

/-- `byKey.get(key)`: of messages with one key the last. -/
def byKey (nodes : List ConnectionNode) (key : JsString) : Option ConnectionNode :=
  nodes.reverse.find? fun node => connectionKey node = key

/-- The message that this one is joined with as its answer. A missing parent cannot connect
unrelated peers, and a conversation keeps its messages apart. -/
def answered (nodes : List ConnectionNode) (node : ConnectionNode) : Option JsString :=
  node.parent.filter fun parent => known nodes parent && node.inConversation.isNone &&
    ((byKey nodes parent).bind ConnectionNode.inConversation).isNone

/-- The keys a message is joined with, in the order of the joins. -/
def joinedKeys (nodes : List ConnectionNode) (node : ConnectionNode) : List JsString :=
  (answered nodes node).toList ++ (node.inConversation.map conversationKey).toList ++
    (node.ownBatch.map batchKey).toList

/-- The first loop: every message is looked up and joined. -/
def linkNodes (nodes : List ConnectionNode) :
    List ConnectionNode → Table JsString JsString → Option (Table JsString JsString)
  | [], parents => some parents
  | node :: rest, parents => do
      let key := connectionKey node
      let (_, parents) ← UnionFind.find parents key
      let parents ← (joinedKeys nodes node).foldlM (UnionFind.join · key ·) parents
      linkNodes nodes rest parents

/-- Add a message to the group of its root, or begin the group at the end. -/
def addToGroup (grouped : List (JsString × List ConnectionNode)) (key : JsString)
    (node : ConnectionNode) : List (JsString × List ConnectionNode) :=
  match grouped with
  | [] => [(key, [node])]
  | (id, group) :: rest =>
    if id = key then (id, group ++ [node]) :: rest else (id, group) :: addToGroup rest key node

/-- The second loop: the messages by their roots. -/
def groupNodes : List ConnectionNode → Table JsString JsString →
    List (JsString × List ConnectionNode) → Option (List (JsString × List ConnectionNode))
  | [], _, grouped => some grouped
  | node :: rest, parents, grouped => do
      let (key, parents) ← UnionFind.find parents (connectionKey node)
      groupNodes rest parents (addToGroup grouped key node)

/-- A conversation of the inbox. -/
structure ConnectionGroup where
  id : JsString
  all : List ConnectionNode
  messages : List ConnectionNode
  received : List ConnectionNode
  unread : Nat
  representative : Option ConnectionNode
  activity : JsString

/-- The messages without a second one of a send: the first of each key is kept. -/
def onePerSend : List JsString → List ConnectionNode → List ConnectionNode
  | _, [] => []
  | seen, m :: rest =>
    let key := (m.ownBatch.map batchKey).getD (connectionKey m)
    if key ∈ seen then onePerSend seen rest else m :: onePerSend (key :: seen) rest

variable (localeCompare : JsString → JsString → Ordering)

/-- The latest message first, and at one instant the greater key. -/
def laterFirst (a b : ConnectionNode) : Bool :=
  (localeCompare b.at a.at).then
    (localeCompare (connectionKey b) (connectionKey a)) ≠ .gt

/-- What a group shows of its messages. -/
def connectionGroup (id : JsString) (all : List ConnectionNode) : ConnectionGroup :=
  let visible := (all.filter (·.visible)).insertionSort fun a b => laterFirst localeCompare a b
  let received := visible.filter fun m => !m.sent
  let unread := received.filter fun m => !m.isRead
  { id := id
    all := all
    messages := onePerSend [] visible
    received := received
    unread := unread.length
    representative := if received = [] then none else unread.getLast?.or visible.head?
    activity := (visible.head?.map (·.at)).getD [] }

def groupConnectionMessages (nodes : List ConnectionNode) : Option (List ConnectionGroup) := do
  let parents ← linkNodes nodes nodes ∅
  let grouped ← groupNodes nodes parents []
  some (grouped.map fun (id, all) => connectionGroup localeCompare id all)

section Groups

variable {localeCompare} {nodes : List ConnectionNode} {parents : Table JsString JsString}
  {rep : JsString → JsString}

/-- Two keys are joined on account of a message. -/
def KeyLink (nodes : List ConnectionNode) (a b : JsString) : Prop :=
  ∃ node ∈ nodes, a = connectionKey node ∧ b ∈ joinedKeys nodes node

/-- The first loop always ends, and adds the links of its messages. -/
theorem linkNodes_spec (rest : List ConnectionNode) {link : JsString → JsString → Prop}
    (h : UnionFind.Stores parents rep) (hrep : LeastRep link rep) :
    ∃ parents' rep', linkNodes nodes rest parents = some parents' ∧
      UnionFind.Stores parents' rep' ∧
      LeastRep (fun a b => link a b ∨
        ∃ node ∈ rest, a = connectionKey node ∧ b ∈ joinedKeys nodes node) rep' := by
  induction rest generalizing parents rep link with
  | nil => exact ⟨parents, rep, rfl, h, hrep.congr fun a b => by simp⟩
  | cons node rest ih =>
    obtain ⟨parents₁, hfind, hstores₁, -⟩ := h.find (connectionKey node)
    obtain ⟨parents₂, rep₂, hjoin, hstores₂, hrep₂⟩ :=
      hstores₁.joinAll hrep (connectionKey node) (joinedKeys nodes node)
    obtain ⟨parents₃, rep₃, hrest, hstores₃, hrep₃⟩ := ih hstores₂ hrep₂
    refine ⟨parents₃, rep₃, ?_, hstores₃, hrep₃.congr fun a b => ?_⟩
    · simp only [linkNodes, hfind, hjoin, hrest, Option.bind_eq_bind, Option.bind_some]
    · simp only [List.mem_cons, exists_eq_or_imp, or_assoc]

/-- The second loop always ends, with every message under the name of its class. -/
theorem groupNodes_spec (rest : List ConnectionNode) (h : UnionFind.Stores parents rep)
    (grouped : List (JsString × List ConnectionNode)) :
    groupNodes rest parents grouped = some (rest.foldl
      (fun grouped node => addToGroup grouped (rep (connectionKey node)) node) grouped) := by
  induction rest generalizing parents grouped with
  | nil => rfl
  | cons node rest ih =>
    obtain ⟨parents₁, hfind, hstores₁, -⟩ := h.find (connectionKey node)
    simp only [groupNodes, hfind, Option.bind_eq_bind, Option.bind_some, List.foldl_cons]
    exact ih hstores₁ _

end Groups

section Grouping

variable {name : ConnectionNode → JsString} {nodes : List ConnectionNode}
  {grouped : List (JsString × List ConnectionNode)} {key : JsString} {node : ConnectionNode}

/-- Messages grouped by a name, in the order in which the names come up. -/
def grouping (name : ConnectionNode → JsString) (nodes : List ConnectionNode) :
    List (JsString × List ConnectionNode) :=
  nodes.foldl (fun grouped node => addToGroup grouped (name node) node) []

/-- The messages under a name, none where there is no group. -/
def groupOf (grouped : List (JsString × List ConnectionNode)) (id : JsString) :
    List ConnectionNode := (grouped.lookup id).getD []

theorem keys_addToGroup (grouped : List (JsString × List ConnectionNode)) (key : JsString)
    (node : ConnectionNode) (id : JsString) :
    id ∈ (addToGroup grouped key node).map Prod.fst ↔ id = key ∨ id ∈ grouped.map Prod.fst := by
  induction grouped with
  | nil => simp [addToGroup]
  | cons entry rest ih =>
    obtain ⟨id', group⟩ := entry
    by_cases hid : id' = key
    · subst hid
      simp only [addToGroup, if_true, List.map_cons, List.mem_cons]
      tauto
    · simp only [addToGroup, if_neg hid, List.map_cons, List.mem_cons, ih]
      tauto

theorem nodup_addToGroup (h : (grouped.map Prod.fst).Nodup) :
    ((addToGroup grouped key node).map Prod.fst).Nodup := by
  induction grouped with
  | nil => simp [addToGroup]
  | cons entry rest ih =>
    obtain ⟨id, group⟩ := entry
    rw [List.map_cons, List.nodup_cons] at h
    by_cases hid : id = key
    · simp only [addToGroup, if_pos hid, List.map_cons, List.nodup_cons]
      exact h
    · simp only [addToGroup, if_neg hid, List.map_cons, List.nodup_cons, keys_addToGroup]
      exact ⟨not_or.2 ⟨hid, h.1⟩, ih h.2⟩

theorem groupOf_cons (id' : JsString) (group : List ConnectionNode)
    (rest : List (JsString × List ConnectionNode)) (id : JsString) :
    groupOf ((id', group) :: rest) id = if id = id' then group else groupOf rest id := by
  by_cases hid : id = id'
  · simp [groupOf, hid]
  · have hbeq : (id == id') = false := beq_eq_false_iff_ne.2 hid
    simp [groupOf, List.lookup_cons, hbeq, hid]

/-- A message is added at the end of its group and of no other. -/
theorem groupOf_addToGroup (grouped : List (JsString × List ConnectionNode)) (key : JsString)
    (node : ConnectionNode) (id : JsString) :
    groupOf (addToGroup grouped key node) id =
      groupOf grouped id ++ if id = key then [node] else [] := by
  induction grouped with
  | nil =>
    have hnil : groupOf [] id = [] := rfl
    rw [addToGroup, groupOf_cons, hnil, List.nil_append]
  | cons entry rest ih =>
    obtain ⟨id', group⟩ := entry
    by_cases hkey : id' = key
    · subst hkey
      simp only [addToGroup, if_true, groupOf_cons]
      by_cases hid : id = id'
      · simp only [if_pos hid]
      · simp only [if_neg hid, List.append_nil]
    · simp only [addToGroup, if_neg hkey, groupOf_cons, ih]
      by_cases hid : id = id'
      · have hne : id ≠ key := hid ▸ hkey
        simp only [if_pos hid, if_neg hne, List.append_nil]
      · simp only [if_neg hid]

/-- With distinct names an entry is what its name finds. -/
theorem mem_grouped (h : (grouped.map Prod.fst).Nodup) (id : JsString)
    (group : List ConnectionNode) :
    (id, group) ∈ grouped ↔ id ∈ grouped.map Prod.fst ∧ group = groupOf grouped id := by
  induction grouped with
  | nil => simp
  | cons entry rest ih =>
    obtain ⟨id', group'⟩ := entry
    rw [List.map_cons, List.nodup_cons] at h
    simp only [List.mem_cons, Prod.mk.injEq, List.map_cons, groupOf_cons]
    by_cases hid : id = id'
    · have hrest : (id, group) ∉ rest := fun hmem =>
        h.1 (hid ▸ List.mem_map.2 ⟨(id, group), hmem, rfl⟩)
      simp only [hid, true_and, if_true, true_or]
      rw [← hid]
      exact ⟨fun hmem => hmem.resolve_right hrest, .inl⟩
    · simp only [hid, false_and, false_or]
      exact ih h.2

/-- Adding a message adds just it to all of the groups together. -/
theorem flatMap_addToGroup (grouped : List (JsString × List ConnectionNode)) (key : JsString)
    (node : ConnectionNode) :
    ((addToGroup grouped key node).flatMap Prod.snd).Perm (node :: grouped.flatMap Prod.snd) := by
  induction grouped with
  | nil => exact .refl _
  | cons entry rest ih =>
    obtain ⟨id, group⟩ := entry
    by_cases hid : id = key
    · simp only [addToGroup, if_pos hid, List.flatMap_cons, List.append_assoc]
      exact List.perm_middle
    · simp only [addToGroup, if_neg hid, List.flatMap_cons]
      exact (ih.append_left group).trans List.perm_middle

/-- The three facts about grouping that go through the loop, for what is grouped already. -/
theorem foldl_addToGroup (name : ConnectionNode → JsString) (nodes : List ConnectionNode)
    (h : (grouped.map Prod.fst).Nodup) :
    ((nodes.foldl (fun g n => addToGroup g (name n) n) grouped).map Prod.fst).Nodup ∧
      (∀ id, id ∈ (nodes.foldl (fun g n => addToGroup g (name n) n) grouped).map Prod.fst ↔
        id ∈ grouped.map Prod.fst ∨ ∃ n ∈ nodes, name n = id) ∧
      (∀ id, groupOf (nodes.foldl (fun g n => addToGroup g (name n) n) grouped) id =
        groupOf grouped id ++ nodes.filter fun n => name n = id) ∧
      ((nodes.foldl (fun g n => addToGroup g (name n) n) grouped).flatMap Prod.snd).Perm
        (grouped.flatMap Prod.snd ++ nodes) := by
  induction nodes generalizing grouped with
  | nil => exact ⟨h, by simp, by simp, by simp⟩
  | cons node nodes ih =>
    obtain ⟨hnodup, hkeys, hgroups, hperm⟩ := ih (nodup_addToGroup h)
    refine ⟨hnodup, fun id => ?_, fun id => ?_, ?_⟩
    · rw [List.foldl_cons, hkeys, keys_addToGroup]
      simp only [List.mem_cons, exists_eq_or_imp]
      rw [or_left_comm, or_assoc, eq_comm]
    · rw [List.foldl_cons, hgroups, groupOf_addToGroup, List.append_assoc, List.filter_cons]
      by_cases hid : id = name node
      · simp [hid]
      · simp [hid, Ne.symm hid]
    · rw [List.foldl_cons]
      refine hperm.trans ?_
      refine ((flatMap_addToGroup grouped (name node) node).append_right nodes).trans ?_
      exact List.perm_middle.symm

/-- Every name that comes up has one group, of its messages in order, and together the groups are
the messages. -/
theorem grouping_spec (name : ConnectionNode → JsString) (nodes : List ConnectionNode) :
    ((grouping name nodes).map Prod.fst).Nodup ∧
      (∀ id, id ∈ (grouping name nodes).map Prod.fst ↔ ∃ n ∈ nodes, name n = id) ∧
      (∀ id, groupOf (grouping name nodes) id = nodes.filter fun n => name n = id) ∧
      ((grouping name nodes).flatMap Prod.snd).Perm nodes := by
  have hnil : (([] : List (JsString × List ConnectionNode)).map Prod.fst).Nodup := List.nodup_nil
  obtain ⟨hnodup, hkeys, hgroups, hperm⟩ := foldl_addToGroup name nodes hnil
  refine ⟨hnodup, fun id => ?_, fun id => ?_, hperm⟩
  · rw [grouping, hkeys, List.map_nil, List.mem_nil_iff, false_or]
  · rw [grouping, hgroups]
    exact List.nil_append _

theorem mem_grouping {name : ConnectionNode → JsString} (id : JsString)
    (group : List ConnectionNode) :
    (id, group) ∈ grouping name nodes ↔
      (∃ node ∈ nodes, name node = id) ∧ group = nodes.filter fun node => name node = id := by
  obtain ⟨hnodup, hkeys, hgroups, -⟩ := grouping_spec name nodes
  rw [mem_grouped hnodup, hkeys, hgroups]

end Grouping

/-- Grouping always ends. Its groups are the messages by the names of their classes, and a class is
named by the least of its keys. -/
theorem groupConnectionMessages_spec (localeCompare : JsString → JsString → Ordering)
    (nodes : List ConnectionNode) :
    ∃ rep, LeastRep (KeyLink nodes) rep ∧ groupConnectionMessages localeCompare nodes =
      some ((grouping (fun node => rep (connectionKey node)) nodes).map fun (id, all) =>
        connectionGroup localeCompare id all) := by
  have hnone : LeastRep (fun _ _ : JsString => False) id := .id_of_no_links fun _ _ => id
  obtain ⟨parents, rep, hlink, hstores, hrep⟩ : ∃ parents rep,
      linkNodes nodes nodes ∅ = some parents ∧ UnionFind.Stores parents rep ∧
        LeastRep (fun a b => False ∨
          ∃ node ∈ nodes, a = connectionKey node ∧ b ∈ joinedKeys nodes node) rep :=
    linkNodes_spec nodes UnionFind.stores_empty hnone
  refine ⟨rep, hrep.congr fun a b => by simp [KeyLink], ?_⟩
  simp only [groupConnectionMessages, hlink, groupNodes_spec nodes hstores, Option.bind_eq_bind,
    Option.bind_some, grouping]

/-- A key of a conversation or of a send. The sender of a message is a DID, so that its key is
neither. -/
def auxiliary (key : JsString) : Bool :=
  (js "conversation/").isPrefixOf key || (js "batch/").isPrefixOf key

/-- Two messages are linked: one answers the other and neither is in a conversation, or they are in
one conversation, or in one send of the account's own. -/
inductive Linked (n m : ConnectionNode) : Prop
  | answer (hparent : n.parent = some (connectionKey m)) (hn : n.inConversation = none)
      (hm : m.inConversation = none)
  | conversation (c : JsString) (hn : n.inConversation = some c) (hm : m.inConversation = some c)
  | batch (b : JsString) (hn : n.ownBatch = some b) (hm : m.ownBatch = some b)

/-- The links when messages may share a key: those that do are one, and the last of them says
whether they are in a conversation. -/
inductive NodeLink (nodes : List ConnectionNode) (n m : ConnectionNode) : Prop
  | same (hkey : connectionKey n = connectionKey m)
  | answer (hparent : n.parent = some (connectionKey m)) (hn : n.inConversation = none)
      (hm : (byKey nodes (connectionKey m)).bind ConnectionNode.inConversation = none)
  | conversation (c : JsString) (hn : n.inConversation = some c) (hm : m.inConversation = some c)
  | batch (b : JsString) (hn : n.ownBatch = some b) (hm : m.ownBatch = some b)

/-- The messages of a list are related by the closure of its links. -/
def Related (nodes : List ConnectionNode) : ConnectionNode → ConnectionNode → Prop :=
  EqvGen fun n m => n ∈ nodes ∧ m ∈ nodes ∧ NodeLink nodes n m

/-- The key is one that the message is joined under. -/
inductive At (n : ConnectionNode) (key : JsString) : Prop
  | message (h : key = connectionKey n)
  | conversation (c : JsString) (hn : n.inConversation = some c) (h : key = conversationKey c)
  | batch (b : JsString) (hn : n.ownBatch = some b) (h : key = batchKey b)

section Links

variable {nodes : List ConnectionNode} {n m : ConnectionNode} {key a b : JsString}

theorem auxiliary_conversationKey (c : JsString) : auxiliary (conversationKey c) = true := by
  have hprefix : (js "conversation/").isPrefixOf (conversationKey c) = true :=
    List.isPrefixOf_iff_prefix.2 (List.prefix_append _ _)
  rw [auxiliary, hprefix, Bool.true_or]

theorem auxiliary_batchKey (b : JsString) : auxiliary (batchKey b) = true := by
  have hprefix : (js "batch/").isPrefixOf (batchKey b) = true :=
    List.isPrefixOf_iff_prefix.2 (List.prefix_append _ _)
  rw [auxiliary, hprefix, Bool.or_true]

theorem conversationKey_ne_batchKey (c b : JsString) : conversationKey c ≠ batchKey b := by
  intro h
  have hhead := congrArg List.head? h
  have hleft : (conversationKey c).head? = some 99 := rfl
  have hright : (batchKey b).head? = some 98 := rfl
  rw [hleft, hright] at hhead
  exact absurd hhead (by decide)

theorem known_iff : known nodes key = true ↔ ∃ node ∈ nodes, connectionKey node = key := by
  simp [known]

theorem mem_answered : answered nodes n = some key ↔
    n.parent = some key ∧ (∃ m ∈ nodes, connectionKey m = key) ∧ n.inConversation = none ∧
      (byKey nodes key).bind ConnectionNode.inConversation = none := by
  simp only [answered, Option.filter_eq_some_iff, Bool.and_eq_true, known_iff,
    Option.isNone_iff_eq_none, and_assoc]

theorem mem_joinedKeys : key ∈ joinedKeys nodes n ↔ answered nodes n = some key ∨
    (∃ c, n.inConversation = some c ∧ conversationKey c = key) ∨
      ∃ b, n.ownBatch = some b ∧ batchKey b = key := by
  simp only [joinedKeys, List.mem_append, Option.mem_toList, Option.map_eq_some_iff, or_assoc]

/-- Messages that are joined under one key are linked. -/
theorem At.nodeLink (hn : At n key) (hm : At m key) (hkey : auxiliary (connectionKey n) = false)
    (hkey' : auxiliary (connectionKey m) = false) : NodeLink nodes n m := by
  have hmessage {node : ConnectionNode} {other : JsString} (h : other = connectionKey node)
      (hplain : auxiliary (connectionKey node) = false) : auxiliary other ≠ true := by
    rw [h, hplain]
    exact Bool.false_ne_true
  cases hn with
  | message h =>
    cases hm with
    | message h' => exact .same (h.symm.trans h')
    | conversation c _ h' =>
      exact absurd (h' ▸ auxiliary_conversationKey c) (hmessage h hkey)
    | batch b _ h' => exact absurd (h' ▸ auxiliary_batchKey b) (hmessage h hkey)
  | conversation c hc h =>
    cases hm with
    | message h' => exact absurd (h ▸ auxiliary_conversationKey c) (hmessage h' hkey')
    | conversation c' hc' h' =>
      have hsame : c = c' := List.append_cancel_left (h.symm.trans h')
      exact .conversation c hc (hsame ▸ hc')
    | batch b _ h' => exact absurd (h.symm.trans h') (conversationKey_ne_batchKey c b)
  | batch b hb h =>
    cases hm with
    | message h' => exact absurd (h ▸ auxiliary_batchKey b) (hmessage h' hkey')
    | conversation c _ h' => exact absurd (h'.symm.trans h) (conversationKey_ne_batchKey c b)
    | batch b' hb' h' =>
      have hsame : b = b' := List.append_cancel_left (h.symm.trans h')
      exact .batch b hb (hsame ▸ hb')

/-- The closure of the links of keys, seen from the messages that are joined under them. -/
theorem related_of_keys (hplain : ∀ node ∈ nodes, auxiliary (connectionKey node) = false)
    (h : EqvGen (KeyLink nodes) a b) :
    (a = b ∨ (∃ n ∈ nodes, At n a) ∧ ∃ m ∈ nodes, At m b) ∧
      ∀ n ∈ nodes, At n a → ∀ m ∈ nodes, At m b → Related nodes n m := by
  have hat {n m : ConnectionNode} {key : JsString} (hn : n ∈ nodes) (hm : m ∈ nodes)
      (hnkey : At n key) (hmkey : At m key) : Related nodes n m :=
    .rel _ _ ⟨hn, hm, hnkey.nodeLink hmkey (hplain n hn) (hplain m hm)⟩
  induction h with
  | rel a b hlink =>
    obtain ⟨node, hnode, rfl, hjoined⟩ := hlink
    rcases mem_joinedKeys.1 hjoined with hanswer | ⟨c, hc, rfl⟩ | ⟨c, hc, rfl⟩
    · obtain ⟨hparent, ⟨other, hother, rfl⟩, hnone, hnone'⟩ := mem_answered.1 hanswer
      refine ⟨.inr ⟨⟨node, hnode, .message rfl⟩, other, hother, .message rfl⟩,
        fun n hn hnkey m hm hmkey => ?_⟩
      have hlink : Related nodes node other :=
        .rel _ _ ⟨hnode, hother, .answer hparent hnone hnone'⟩
      exact .trans _ _ _ (hat hn hnode hnkey (.message rfl))
        (.trans _ _ _ hlink (hat hother hm (.message rfl) hmkey))
    · refine ⟨.inr ⟨⟨node, hnode, .message rfl⟩, node, hnode, .conversation c hc rfl⟩,
        fun n hn hnkey m hm hmkey => ?_⟩
      exact .trans _ _ _ (hat hn hnode hnkey (.message rfl))
        (hat hnode hm (.conversation c hc rfl) hmkey)
    · refine ⟨.inr ⟨⟨node, hnode, .message rfl⟩, node, hnode, .batch c hc rfl⟩,
        fun n hn hnkey m hm hmkey => ?_⟩
      exact .trans _ _ _ (hat hn hnode hnkey (.message rfl))
        (hat hnode hm (.batch c hc rfl) hmkey)
  | refl a => exact ⟨.inl rfl, fun n hn hnkey m hm hmkey => hat hn hm hnkey hmkey⟩
  | symm a b _ ih =>
    exact ⟨ih.1.imp Eq.symm And.symm, fun n hn hnkey m hm hmkey =>
      (ih.2 m hm hmkey n hn hnkey).symm⟩
  | trans a b c _ _ ih ih' =>
    rcases ih.1 with rfl | ⟨hfirst, middle, hmiddle, hmiddleKey⟩
    · exact ih'
    · rcases ih'.1 with rfl | ⟨-, hlast⟩
      · exact ih
      · exact ⟨.inr ⟨hfirst, hlast⟩, fun n hn hnkey m hm hmkey =>
          .trans _ _ _ (ih.2 n hn hnkey middle hmiddle hmiddleKey)
            (ih'.2 middle hmiddle hmiddleKey m hm hmkey)⟩

/-- A link of two messages links their keys. -/
theorem NodeLink.keys (hn : n ∈ nodes) (hm : m ∈ nodes) (h : NodeLink nodes n m) :
    EqvGen (KeyLink nodes) (connectionKey n) (connectionKey m) := by
  have hjoin {node : ConnectionNode} {key : JsString} (hnode : node ∈ nodes)
      (hkey : key ∈ joinedKeys nodes node) : EqvGen (KeyLink nodes) (connectionKey node) key :=
    .rel _ _ ⟨node, hnode, rfl, hkey⟩
  cases h with
  | same hkey => exact hkey ▸ .refl _
  | answer hparent hnone hnone' =>
    have hanswer : answered nodes n = some (connectionKey m) :=
      mem_answered.2 ⟨hparent, ⟨m, hm, rfl⟩, hnone, hnone'⟩
    exact hjoin hn (mem_joinedKeys.2 (.inl hanswer))
  | conversation c hc hc' =>
    have hleft := hjoin hn (mem_joinedKeys.2 (.inr (.inl ⟨c, hc, rfl⟩)))
    have hright := hjoin hm (mem_joinedKeys.2 (.inr (.inl ⟨c, hc', rfl⟩)))
    exact .trans _ _ _ hleft hright.symm
  | batch c hc hc' =>
    have hleft := hjoin hn (mem_joinedKeys.2 (.inr (.inr ⟨c, hc, rfl⟩)))
    have hright := hjoin hm (mem_joinedKeys.2 (.inr (.inr ⟨c, hc', rfl⟩)))
    exact .trans _ _ _ hleft hright.symm

theorem Related.keys (h : Related nodes n m) :
    EqvGen (KeyLink nodes) (connectionKey n) (connectionKey m) := by
  induction h with
  | rel n m h => exact h.2.2.keys h.1 h.2.1
  | refl n => exact .refl _
  | symm n m _ ih => exact ih.symm
  | trans n k m _ _ ih ih' => exact .trans _ _ _ ih ih'

/-- The classes of messages are those of their keys. -/
theorem related_iff (hplain : ∀ node ∈ nodes, auxiliary (connectionKey node) = false)
    (hn : n ∈ nodes) (hm : m ∈ nodes) :
    Related nodes n m ↔ EqvGen (KeyLink nodes) (connectionKey n) (connectionKey m) :=
  ⟨Related.keys, fun h =>
    (related_of_keys hplain h).2 n hn (.message rfl) m hm (.message rfl)⟩

/-- With distinct keys a message is found under its own. -/
theorem byKey_eq_some (hdistinct : (nodes.map connectionKey).Nodup) :
    byKey nodes key = some n ↔ n ∈ nodes ∧ connectionKey n = key := by
  have hinjective : ∀ a ∈ nodes, ∀ b ∈ nodes, connectionKey a = connectionKey b → a = b :=
    fun a ha b hb => List.inj_on_of_nodup_map hdistinct ha hb
  constructor
  · intro h
    have hmem := List.mem_of_find?_eq_some h
    have hkey := List.find?_some h
    exact ⟨List.mem_reverse.1 hmem, by simpa using hkey⟩
  · rintro ⟨hn, rfl⟩
    cases hfound : byKey nodes (connectionKey n) with
    | none =>
      have hnone := List.find?_eq_none.1 hfound n (List.mem_reverse.2 hn)
      simp at hnone
    | some other =>
      have hother := List.mem_reverse.1 (List.mem_of_find?_eq_some hfound)
      have hkey : connectionKey other = connectionKey n := by
        simpa using List.find?_some hfound
      rw [hinjective other hother n hn hkey]

/-- With distinct keys the order of the messages does not matter to the links. -/
theorem keyLink_perm {nodes' : List ConnectionNode} (hdistinct : (nodes.map connectionKey).Nodup)
    (hperm : nodes'.Perm nodes) (a b : JsString) : KeyLink nodes a b ↔ KeyLink nodes' a b := by
  have hmem {node : ConnectionNode} : node ∈ nodes' ↔ node ∈ nodes := hperm.mem_iff
  have hdistinct' : (nodes'.map connectionKey).Nodup :=
    (hperm.map connectionKey).nodup_iff.2 hdistinct
  have hbyKey (key : JsString) : byKey nodes' key = byKey nodes key := by
    ext node
    rw [byKey_eq_some hdistinct', byKey_eq_some hdistinct, hmem]
  have hanswered (node : ConnectionNode) (key : JsString) :
      answered nodes' node = some key ↔ answered nodes node = some key := by
    simp only [mem_answered, hmem, hbyKey]
  simp only [KeyLink, hmem, mem_joinedKeys, hanswered]

end Links

/-- The groups as sets of messages with their names. -/
def groupSets (groups : List ConnectionGroup) : Set (JsString × Set ConnectionNode) :=
  {p | ∃ g ∈ groups, p = (g.id, {n | n ∈ g.all})}

section Result

variable {localeCompare : JsString → JsString → Ordering} {nodes : List ConnectionNode}
  {rep : JsString → JsString} {groups : List ConnectionGroup}

/-- The groups of the messages under the names of their classes. -/
def groupsBy (localeCompare : JsString → JsString → Ordering) (rep : JsString → JsString)
    (nodes : List ConnectionNode) : List ConnectionGroup :=
  (grouping (fun node => rep (connectionKey node)) nodes).map fun (id, all) =>
    connectionGroup localeCompare id all

theorem mem_groupsBy {g : ConnectionGroup} : g ∈ groupsBy localeCompare rep nodes ↔
    ∃ id, (∃ node ∈ nodes, rep (connectionKey node) = id) ∧
      g = connectionGroup localeCompare id
        (nodes.filter fun node => rep (connectionKey node) = id) := by
  simp only [groupsBy, List.mem_map, Prod.exists, mem_grouping]
  constructor
  · rintro ⟨id, all, ⟨hid, rfl⟩, rfl⟩
    exact ⟨id, hid, rfl⟩
  · rintro ⟨id, hid, rfl⟩
    exact ⟨id, _, ⟨hid, rfl⟩, rfl⟩

/-- A group of a message has the name of its class and all messages of this name. -/
theorem group_of_mem {g : ConnectionGroup} {n : ConnectionNode}
    (hg : g ∈ groupsBy localeCompare rep nodes) (hn : n ∈ g.all) :
    n ∈ nodes ∧ g = connectionGroup localeCompare (rep (connectionKey n))
      (nodes.filter fun node => rep (connectionKey node) = rep (connectionKey n)) := by
  obtain ⟨id, -, rfl⟩ := mem_groupsBy.1 hg
  obtain ⟨hmem, hid⟩ := List.mem_filter.1 hn
  have hname : rep (connectionKey n) = id := by simpa using hid
  rw [hname]
  exact ⟨hmem, rfl⟩

theorem exists_group (localeCompare : JsString → JsString → Ordering)
    (rep : JsString → JsString) {n : ConnectionNode} (hn : n ∈ nodes) :
    ∃ g ∈ groupsBy localeCompare rep nodes, n ∈ g.all ∧ g.id = rep (connectionKey n) ∧
      ∀ m, m ∈ g.all ↔ m ∈ nodes ∧ rep (connectionKey m) = rep (connectionKey n) := by
  refine ⟨_, mem_groupsBy.2 ⟨_, ⟨n, hn, rfl⟩, rfl⟩, List.mem_filter.2 ⟨hn, by simp⟩, rfl,
    fun m => ?_⟩
  show m ∈ nodes.filter _ ↔ _
  rw [List.mem_filter, decide_eq_true_eq]

/-- Two messages have a group in common exactly when their classes have one name. -/
theorem same_group_iff {n m : ConnectionNode} (hn : n ∈ nodes) (hm : m ∈ nodes) :
    (∃ g ∈ groupsBy localeCompare rep nodes, n ∈ g.all ∧ m ∈ g.all) ↔
      rep (connectionKey n) = rep (connectionKey m) := by
  constructor
  · rintro ⟨g, hg, hng, hmg⟩
    have hname := congrArg ConnectionGroup.id (group_of_mem hg hng).2
    have hname' := congrArg ConnectionGroup.id (group_of_mem hg hmg).2
    exact hname.symm.trans hname'
  · intro hsame
    obtain ⟨g, hg, hng, -, hall⟩ := exists_group localeCompare rep hn
    exact ⟨g, hg, hng, (hall m).2 ⟨hm, hsame.symm⟩⟩

theorem flatMap_groupsBy : ((groupsBy localeCompare rep nodes).flatMap (·.all)).Perm nodes := by
  have hall : (groupsBy localeCompare rep nodes).flatMap (·.all) =
      (grouping (fun node => rep (connectionKey node)) nodes).flatMap Prod.snd := by
    rw [groupsBy, List.flatMap_map]
    rfl
  rw [hall]
  exact (grouping_spec _ nodes).2.2.2

theorem nodup_groupsBy : ((groupsBy localeCompare rep nodes).map (·.id)).Nodup := by
  have hids : (groupsBy localeCompare rep nodes).map (·.id) =
      (grouping (fun node => rep (connectionKey node)) nodes).map Prod.fst := by
    rw [groupsBy, List.map_map]
    rfl
  rw [hids]
  exact (grouping_spec _ nodes).1

/-- Every message is in one group. -/
theorem existsUnique_group {n : ConnectionNode} (hn : n ∈ nodes) :
    ∃! g, g ∈ groupsBy localeCompare rep nodes ∧ n ∈ g.all := by
  obtain ⟨g, hg, hng, -⟩ := exists_group localeCompare rep hn
  refine ⟨g, ⟨hg, hng⟩, fun g' ⟨hg', hng'⟩ => ?_⟩
  exact (group_of_mem hg' hng').2.trans (group_of_mem hg hng).2.symm

/-- The order of the messages does not matter to the groups as sets. -/
theorem groupSets_perm {nodes' : List ConnectionNode} (hperm : nodes'.Perm nodes) :
    groupSets (groupsBy localeCompare rep nodes') = groupSets (groupsBy localeCompare rep nodes) := by
  have hset (nodes : List ConnectionNode) : groupSets (groupsBy localeCompare rep nodes) =
      {p | (∃ node ∈ nodes, rep (connectionKey node) = p.1) ∧
        p.2 = {n | n ∈ nodes ∧ rep (connectionKey n) = p.1}} := by
    ext ⟨id, members⟩
    simp only [groupSets, Set.mem_ofPred_eq, mem_groupsBy, Prod.mk.injEq]
    constructor
    · rintro ⟨_, ⟨id', hid, rfl⟩, rfl, rfl⟩
      refine ⟨hid, ?_⟩
      ext m
      show m ∈ nodes.filter _ ↔ _
      rw [List.mem_filter, decide_eq_true_eq]
      rfl
    · rintro ⟨hid, rfl⟩
      refine ⟨_, ⟨id, hid, rfl⟩, rfl, ?_⟩
      ext m
      show _ ↔ m ∈ nodes.filter _
      rw [List.mem_filter, decide_eq_true_eq]
      rfl
  rw [hset, hset]
  simp only [hperm.mem_iff]

end Result

/-- Grouping always ends; where no message has the key of a conversation or of a send, two messages
are in one group exactly when they are related, every message is in one group and once in all of
them, a group has the least key of its class for its name, and with distinct keys the groups do not
depend on the order of the messages. -/
theorem connection_groups (localeCompare : JsString → JsString → Ordering)
    (nodes : List ConnectionNode)
    (hplain : ∀ node ∈ nodes, auxiliary (connectionKey node) = false) :
    ∃ groups, groupConnectionMessages localeCompare nodes = some groups ∧
      (∀ n ∈ nodes, ∀ m ∈ nodes,
        (∃ g ∈ groups, n ∈ g.all ∧ m ∈ g.all) ↔ Related nodes n m) ∧
      (groups.flatMap (·.all)).Perm nodes ∧ (groups.map (·.id)).Nodup ∧
      (∀ n ∈ nodes, ∃! g, g ∈ groups ∧ n ∈ g.all) ∧
      (∀ g ∈ groups, g.all ≠ [] ∧ ∀ n ∈ g.all,
        IsLeast {key | EqvGen (KeyLink nodes) (connectionKey n) key} g.id) ∧
      ((nodes.map connectionKey).Nodup → ∀ nodes' : List ConnectionNode, nodes'.Perm nodes →
        ∃ groups', groupConnectionMessages localeCompare nodes' = some groups' ∧
          groupSets groups' = groupSets groups) := by
  obtain ⟨rep, hrep, hgroups⟩ := groupConnectionMessages_spec localeCompare nodes
  refine ⟨groupsBy localeCompare rep nodes, hgroups, fun n hn m hm => ?_, flatMap_groupsBy,
    nodup_groupsBy, fun n hn => existsUnique_group hn, fun g hg => ?_, ?_⟩
  · rw [same_group_iff hn hm, related_iff hplain hn hm]
    exact (hrep.linked_iff _ _).symm
  · obtain ⟨id, ⟨node, hnode, hid⟩, hg'⟩ := mem_groupsBy.1 hg
    have hmember : node ∈ g.all := by
      rw [hg']
      exact List.mem_filter.2 ⟨hnode, by simpa using hid⟩
    refine ⟨List.ne_nil_of_mem hmember, fun n hn => ?_⟩
    have hname : g.id = rep (connectionKey n) := congrArg ConnectionGroup.id (group_of_mem hg hn).2
    rw [hname]
    exact ⟨hrep.linked_rep _, fun key hkey => hrep.rep_le_of_linked hkey⟩
  · intro hdistinct nodes' hperm
    obtain ⟨rep', hrep', hgroups'⟩ := groupConnectionMessages_spec localeCompare nodes'
    have hsame : rep' = rep :=
      (hrep'.congr fun a b => (keyLink_perm hdistinct hperm a b).symm).unique hrep
    subst hsame
    exact ⟨_, hgroups', groupSets_perm hperm⟩

namespace Sample

/-- A message that is sent and seen. -/
def node (sender messageId : String) : ConnectionNode where
  sender := js sender
  messageId := js messageId
  recipient := js "did:plc:peer"
  sent := true
  visible := true
  isRead := true
  «at» := js "2026-01-01T00:00:00.000Z"
  parentSender := none
  parentId := none
  batch := none
  conversation := none

/-- A message and its answer. -/
def answeredPair : List ConnectionNode :=
  [node "did:plc:a" "1",
    { node "did:plc:b" "2" with
      sent := false
      parentSender := some (js "did:plc:a")
      parentId := some (js "1") }]

/-- A message whose sender is no DID but the word for a send, and a message of such a send. -/
def sendLike : List ConnectionNode :=
  [node "batch" "x", { node "did:plc:a" "1" with batch := some (js "x") }]

end Sample

theorem connection_groups_answered :
    ∃ groups, groupConnectionMessages (fun _ _ => .eq) Sample.answeredPair = some groups ∧
      (groups.flatMap (·.all)).Perm Sample.answeredPair := by
  obtain ⟨groups, hgroups, -, hall, -⟩ :=
    connection_groups (fun _ _ => .eq) Sample.answeredPair (by decide +kernel)
  exact ⟨groups, hgroups, hall⟩

/-- A message whose key is that of a send is grouped with the messages of the send. -/
theorem grouped_by_key_of_send :
    ¬∀ (localeCompare : JsString → JsString → Ordering) (nodes : List ConnectionNode)
      (groups : List ConnectionGroup), groupConnectionMessages localeCompare nodes = some groups →
        ∀ n ∈ nodes, ∀ m ∈ nodes, (∃ g ∈ groups, n ∈ g.all ∧ m ∈ g.all) ↔
          EqvGen (fun a b => a ∈ nodes ∧ b ∈ nodes ∧ Linked a b) n m := by
  intro hall
  have hshape : (groupConnectionMessages (fun _ _ => .eq) Sample.sendLike).map
      (·.map ConnectionGroup.all) = some [Sample.sendLike] := by decide +kernel
  obtain ⟨groups, hgroups, halls⟩ := Option.map_eq_some_iff.1 hshape
  obtain ⟨g, hg, hgall⟩ : ∃ g ∈ groups, g.all = Sample.sendLike :=
    List.mem_map.1 (halls ▸ List.mem_singleton_self _)
  have hunlinked : ∀ a ∈ Sample.sendLike, ∀ b ∈ Sample.sendLike, Linked a b → a = b := by
    have hparent : ∀ a ∈ Sample.sendLike, a.parent = none ∧ a.inConversation = none := by
      decide +kernel
    have hbatch : ∀ a ∈ Sample.sendLike, ∀ b ∈ Sample.sendLike,
        (a.ownBatch.isSome ∧ b.ownBatch.isSome) → a = b := by decide +kernel
    rintro a ha b hb (⟨h, -, -⟩ | ⟨c, h, -⟩ | ⟨c, h, h'⟩)
    · rw [(hparent a ha).1] at h
      cases h
    · rw [(hparent a ha).2] at h
      cases h
    · exact hbatch a ha b hb ⟨by rw [h]; rfl, by rw [h']; rfl⟩
  have hsame {a b : ConnectionNode} (h : EqvGen (fun a b => a ∈ Sample.sendLike ∧
      b ∈ Sample.sendLike ∧ Linked a b) a b) : a = b := by
    induction h with
    | rel a b h => exact hunlinked a h.1 b h.2.1 h.2.2
    | refl a => rfl
    | symm a b _ ih => exact ih.symm
    | trans a b c _ _ ih ih' => exact ih.trans ih'
  have hrelated := (hall _ _ _ hgroups (Sample.node "batch" "x") (.head _)
    { Sample.node "did:plc:a" "1" with batch := some (js "x") } (.tail _ (.head _))).1
      ⟨g, hg, hgall ▸ .head _, hgall ▸ .tail _ (.head _)⟩
  exact absurd (hsame hrelated) (by decide +kernel)

end HailProto.Account
