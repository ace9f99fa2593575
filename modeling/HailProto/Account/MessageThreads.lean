import HailProto.Server.JsString

/-!
# Message threads

`messageThread` of `accounts/message-threads.ts`. From one message of an account it searches the
messages visible between the account and one peer, up and down the links to the messages they
answer, in queries that return what a frontier of references names or is answered by. A search
that meets more than fifty messages, or is not over after fifty queries, says so.
-/

namespace HailProto.Account

open Relation (EqvGen)
open Server

/-- A UUID in its text form, which has no slash. -/
@[ext] structure MessageId where
  text : JsString
  plain : (47 : CodeUnit) ∉ text
  deriving DecidableEq

/-- The name of a message. -/
@[ext] structure Reference where
  sender : JsString
  messageId : MessageId
  deriving DecidableEq

/-- `r.sender+"/"+r.messageId` -/
def Reference.key (r : Reference) : JsString := r.sender ++ 47 :: r.messageId.text

/-- A span, a block and the document of a body, as a preview reads them. -/
structure PreviewSpan where
  text : Option String

structure PreviewBlock where
  style : Option String
  children : Option (List PreviewSpan)

structure PreviewBody where
  blocks : Option (List PreviewBlock)

/-- The characters that `\s` matches and `trim` removes. -/
def isSpace (c : Char) : Bool :=
  c.toNat ∈ [9, 10, 11, 12, 13, 32, 0xa0, 0x1680, 0x2028, 0x2029, 0x202f, 0x205f, 0x3000, 0xfeff] ||
    0x2000 ≤ c.toNat && c.toNat ≤ 0x200a

/-- `replace(/\s+/g," ")` after a character that is a space or is not. -/
def collapseSpaces : Bool → List Char → List Char
  | _, [] => []
  | afterSpace, c :: rest =>
    if isSpace c then
      if afterSpace then collapseSpaces true rest else ' ' :: collapseSpaces true rest
    else c :: collapseSpaces false rest

/-- `text.trim()` -/
def trim (text : List Char) : List Char :=
  ((text.dropWhile isSpace).reverse.dropWhile isSpace).reverse

/-- The first text of a body below its heading, at most 240 characters of it. -/
def threadBodyPreview (body : PreviewBody) : String :=
  let blocks := (body.blocks.getD []).filter fun block => !(block.children.getD []).isEmpty
  let content := if blocks.head?.bind PreviewBlock.style = some "h1" then blocks.drop 1 else blocks
  let texts := content.map fun block => trim (collapseSpaces false
    ((block.children.getD []).flatMap fun span => (span.text.getD "").toList))
  let characters := (texts.find? fun text => !text.isEmpty).getD []
  if characters.length > 240 then String.ofList (characters.take 239) ++ "…"
  else String.ofList characters

/-- What entitles the sender, as far as a thread reads it. -/
inductive ThreadAuthorization
  | reply (replyTo : MessageId)
  | other

/-- The fields of a `hail.envelope` payload that a thread reads. -/
structure ThreadEnvelope where
  toDid : JsString
  authorization : ThreadAuthorization
  inReplyTo : Option Reference
  createdAt : ℕ

/-- The message that an envelope answers. -/
def messageParent (envelope : ThreadEnvelope) : Option Reference :=
  match envelope.inReplyTo, envelope.authorization with
  | some parent, _ => some parent
  | none, .reply replyTo => some ⟨envelope.toDid, replyTo⟩
  | none, .other => none

/-- A row of the `messages` of the query, of `sent_envelopes` or of `received_envelopes` with its
delivered message. The lookup columns are derived from the signed envelope. -/
structure MessageRow where
  reference : Reference
  recipientDid : JsString
  envelope : ThreadEnvelope
  body : PreviewBody
  isRead : Bool
  parentSender : Option JsString
  parentMessageId : Option MessageId
  replyToMessageId : Option MessageId
  addressed : recipientDid = envelope.toDid
  answers : parentSender = envelope.inReplyTo.map Reference.sender ∧
    parentMessageId = envelope.inReplyTo.map Reference.messageId
  replies : replyToMessageId = match envelope.authorization with
    | .reply replyTo => some replyTo
    | .other => none

namespace MessageRow

variable (m : MessageRow)

/-- `COALESCE(e.parent_sender,CASE WHEN e.authorization_type='reply' THEN e.recipient_did END)`,
where a reply is what has a reply reference. -/
def parentSenderColumn : Option JsString :=
  m.parentSender.or (if m.replyToMessageId.isSome then some m.recipientDid else none)

/-- `COALESCE(e.parent_message_id,e.reply_to_message_id)` -/
def parentIdColumn : Option MessageId := m.parentMessageId.or m.replyToMessageId

/-- The message that this one answers. -/
def parent : Option Reference := messageParent m.envelope

/-- The condition of the query on a row and a reference of the frontier. -/
def meets (f : Reference) : Bool :=
  m.reference.sender = f.sender && m.reference.messageId = f.messageId ||
    m.parentSenderColumn = some f.sender && m.parentIdColumn = some f.messageId

end MessageRow

/-- The messages that an account sees with one peer. A message is one envelope, also where the
account wrote to itself and holds it both as sent and as received. -/
structure VisibleMessages where
  rows : List MessageRow
  identity : ∀ a ∈ rows, ∀ b ∈ rows, a.reference = b.reference → a.envelope = b.envelope

/-- `visited.has(key)` -/
def visitedHas (visited : List MessageRow) (key : JsString) : Bool :=
  visited.any fun row => row.reference.key = key

/-- `next.set(key(r),r)` -/
def setReference (next : List Reference) (r : Reference) : List Reference :=
  if next.any fun other => other.key = r.key then
    next.map fun other => if other.key = r.key then r else other
  else next ++ [r]

section Search

variable (textOrder : JsString → JsString → Bool)

/-- `ORDER BY (m.sender_did=root.sender AND m.message_id=root.messageId) DESC,m.message_id,
m.sender_did`, where the database compares texts by `textOrder`. -/
def rowOrder (root : Reference) (a b : MessageRow) : Bool :=
  if decide (a.reference = root) != decide (b.reference = root) then a.reference = root
  else if a.reference.messageId ≠ b.reference.messageId then
    a.reference.messageId.text < b.reference.messageId.text
  else textOrder a.reference.sender b.reference.sender

/-- The query of one turn. -/
def frontierQuery (messages : VisibleMessages) (root : Reference) (frontier : List Reference)
    (visited : List MessageRow) : List MessageRow :=
  let found := messages.rows.filter fun m => frontier.any m.meets &&
    !visited.any fun v => m.reference = v.reference
  (found.insertionSort fun a b => rowOrder textOrder root a b).take 51

/-- The variables of the search, with the number of its queries. -/
structure Search where
  visited : List MessageRow
  frontier : List Reference
  truncated : Bool
  queries : ℕ

/-- The loop over the rows of one query; the frontier is `next`. -/
def visitRows : List MessageRow → Search → Search
  | [], s => s
  | row :: rest, s =>
    if visitedHas s.visited row.reference.key then visitRows rest s
    else if s.visited.length = 50 then { s with truncated := true }
    else
      let visited := s.visited ++ [row]
      let next := setReference s.frontier row.reference
      let next := match messageParent row.envelope with
        | some parent => if visitedHas visited parent.key then next else setReference next parent
        | none => next
      visitRows rest { s with
        visited := visited
        frontier := next }

/-- One turn of the search. -/
def expand (messages : VisibleMessages) (root : Reference) (s : Search) : Search :=
  let rows := frontierQuery textOrder messages root s.frontier s.visited
  visitRows (rows.take 50) { s with
    frontier := []
    truncated := s.truncated || decide (rows.length > 50)
    queries := s.queries + 1 }

/-- The search, for at most the given number of turns. -/
def searchFrom (messages : VisibleMessages) (root : Reference) : ℕ → Search → Search
  | 0, s => s
  | turns + 1, s =>
    if s.frontier = [] then s
    else
      let s := expand textOrder messages root s
      if s.truncated then s else searchFrom messages root turns s

/-- The search from a root. -/
def search (messages : VisibleMessages) (root : Reference) : Search :=
  searchFrom textOrder messages root 50 ⟨[], [root], false, 0⟩

/-- A message of the answer. -/
structure ThreadMessage where
  sender : JsString
  messageId : MessageId
  sent : Bool
  isRead : Bool
  createdAt : JsString
  preview : String
  inReplyTo : Option Reference
  parentAvailable : Bool

variable (toISOString : ℕ → JsString) (localeCompare : JsString → JsString → Ordering)

/-- A visited row as the answer shows it. -/
def threadMessage (did : JsString) (visited : List MessageRow) (row : MessageRow) :
    ThreadMessage where
  sender := row.reference.sender
  messageId := row.reference.messageId
  sent := row.reference.sender = did
  isRead := row.isRead
  createdAt := toISOString row.envelope.createdAt
  preview := threadBodyPreview row.body
  inReplyTo := messageParent row.envelope
  parentAvailable := (messageParent row.envelope).any fun parent => visitedHas visited parent.key

/-- The comparison that sorts the answer. -/
def threadOrder (a b : ThreadMessage) : Bool :=
  (localeCompare a.createdAt b.createdAt).then ((localeCompare a.messageId.text b.messageId.text).then
    (localeCompare a.sender b.sender)) ≠ .gt

/-- The thread of `root` between the account `did` and the peer of `messages`: its messages, and
whether there may be more. -/
def messageThread (did : JsString) (messages : VisibleMessages) (root : Reference) :
    List ThreadMessage × Bool :=
  let s := search textOrder messages root
  ((s.visited.map (threadMessage toISOString did s.visited)).insertionSort
      fun a b => threadOrder localeCompare a b,
    s.truncated || !s.frontier.isEmpty)

end Search

/-- `a` is a message that answers `b`, whether `b` is among the messages or not. -/
def Links (messages : VisibleMessages) (a b : Reference) : Prop :=
  ∃ m ∈ messages.rows, m.reference = a ∧ m.parent = some b

/-- A list splits at the last occurrence of an entry in one way. -/
theorem append_cons_inj {α : Type} {a : α} {before after before' after' : List α}
    (hafter : a ∉ after) (hafter' : a ∉ after')
    (h : before ++ a :: after = before' ++ a :: after') : before = before' ∧ after = after' := by
  rcases List.append_eq_append_iff.1 h with ⟨c, hbefore, hrest⟩ | ⟨c, hbefore, hrest⟩
  · cases c with
    | nil => exact ⟨by rw [hbefore, List.append_nil], (List.cons.inj hrest).2⟩
    | cons d c =>
      have heq : after = c ++ a :: after' := (List.cons.inj hrest).2
      exact absurd (heq ▸ List.mem_append_right c List.mem_cons_self) hafter
  · cases c with
    | nil => exact ⟨by rw [hbefore, List.append_nil], (List.cons.inj hrest).2.symm⟩
    | cons d c =>
      have heq : after' = c ++ a :: after := (List.cons.inj hrest).2
      exact absurd (heq ▸ List.mem_append_right c List.mem_cons_self) hafter'

theorem Reference.key_inj {a b : Reference} : a.key = b.key ↔ a = b := by
  constructor
  · intro h
    obtain ⟨hsender, hid⟩ := append_cons_inj a.messageId.plain b.messageId.plain h
    exact Reference.ext hsender (MessageId.ext hid)
  · rintro rfl
    rfl

theorem visitedHas_iff {visited : List MessageRow} {r : Reference} :
    visitedHas visited r.key = true ↔ r ∈ visited.map MessageRow.reference := by
  simp only [visitedHas, List.any_eq_true, decide_eq_true_eq, Reference.key_inj, List.mem_map]

theorem mem_setReference {next : List Reference} {r r' : Reference} :
    r' ∈ setReference next r ↔ r' ∈ next ∨ r' = r := by
  by_cases hmem : r ∈ next
  · have hany : (next.any fun other => other.key = r.key) = true :=
      List.any_eq_true.2 ⟨r, hmem, decide_eq_true rfl⟩
    have hsame : (next.map fun other => if other.key = r.key then r else other) = next := by
      refine (List.map_congr_left fun other _ => ?_).trans (List.map_id _)
      by_cases hkey : other.key = r.key
      · rw [if_pos hkey, Reference.key_inj.1 hkey, id]
      · rw [if_neg hkey, id]
    rw [setReference, if_pos hany, hsame]
    exact ⟨.inl, fun h => h.elim id fun heq => heq ▸ hmem⟩
  · have hany : ¬(next.any fun other => other.key = r.key) = true := by
      intro htrue
      obtain ⟨other, hother, hkey⟩ := List.any_eq_true.1 htrue
      exact hmem (Reference.key_inj.1 (of_decide_eq_true hkey) ▸ hother)
    rw [setReference, if_neg hany, List.mem_append, List.mem_singleton]

/-- The lookup columns of a row are those of the message it answers. -/
theorem MessageRow.columns_eq (m : MessageRow) :
    m.parentSenderColumn = m.parent.map Reference.sender ∧
      m.parentIdColumn = m.parent.map Reference.messageId := by
  have hanswers := m.answers
  have hreplies := m.replies
  have haddressed := m.addressed
  cases hreply : m.envelope.inReplyTo <;> cases hauth : m.envelope.authorization <;>
    simp_all [MessageRow.parentSenderColumn, MessageRow.parentIdColumn, MessageRow.parent,
      messageParent]

/-- The query returns a row for a reference that names it or that it answers. -/
theorem MessageRow.meets_iff {m : MessageRow} {f : Reference} :
    m.meets f = true ↔ m.reference = f ∨ m.parent = some f := by
  obtain ⟨hsender, hid⟩ := m.columns_eq
  obtain ⟨sender, id⟩ := f
  rw [MessageRow.meets, hsender, hid]
  cases hparent : m.parent <;> cases hreference : m.reference <;> simp [Reference.ext_iff]

section Spec

variable {textOrder : JsString → JsString → Bool} {messages : VisibleMessages} {root : Reference}
  {s : Search}

theorem mem_frontierQuery {frontier : List Reference} {visited : List MessageRow} {m : MessageRow}
    (h : m ∈ frontierQuery textOrder messages root frontier visited) :
    m ∈ messages.rows ∧ ∃ f ∈ frontier, m.reference = f ∨ m.parent = some f := by
  have hfound := (List.perm_insertionSort _ _).mem_iff.1 (List.mem_of_mem_take h)
  simp only [List.mem_filter, Bool.and_eq_true, List.any_eq_true, MessageRow.meets_iff] at hfound
  exact ⟨hfound.1, hfound.2.1⟩

/-- A query that does not reach its limit returns all that it was asked for. -/
theorem mem_frontierQuery_of_length_le {frontier : List Reference} {visited : List MessageRow}
    (hlength : (frontierQuery textOrder messages root frontier visited).length ≤ 50)
    {m : MessageRow} {f : Reference} (hm : m ∈ messages.rows) (hf : f ∈ frontier)
    (hmeets : m.reference = f ∨ m.parent = some f)
    (hnew : m.reference ∉ visited.map MessageRow.reference) :
    m ∈ frontierQuery textOrder messages root frontier visited := by
  unfold frontierQuery at hlength ⊢
  rw [List.length_take] at hlength
  rw [List.take_of_length_le (by omega), (List.perm_insertionSort _ _).mem_iff, List.mem_filter]
  refine ⟨hm, ?_⟩
  simp only [Bool.and_eq_true, List.any_eq_true, Bool.not_eq_true', List.any_eq_false,
    decide_eq_true_eq]
  refine ⟨⟨f, hf, MessageRow.meets_iff.2 hmeets⟩, fun v hv heq => hnew ?_⟩
  exact heq ▸ List.mem_map_of_mem hv

/-- Nothing is visited twice, or without a way to it from the root. -/
structure Search.Sound (messages : VisibleMessages) (root : Reference) (s : Search) : Prop where
  nodup : (s.visited.map MessageRow.reference).Nodup
  size : s.visited.length ≤ 50
  visible : ∀ m ∈ s.visited, m ∈ messages.rows
  reached : ∀ m ∈ s.visited, EqvGen (Links messages) root m.reference
  ahead : ∀ r ∈ s.frontier, EqvGen (Links messages) root r

theorem reached_parent {m : MessageRow} {p : Reference} (hm : m ∈ messages.rows)
    (h : EqvGen (Links messages) root m.reference) (hp : m.parent = some p) :
    EqvGen (Links messages) root p :=
  h.trans _ _ _ (.rel _ _ ⟨m, hm, rfl, hp⟩)

/-- The frontier after a row is visited. -/
theorem mem_next {visited : List MessageRow} {frontier : List Reference} {row : MessageRow}
    {r : Reference} :
    (r ∈ match messageParent row.envelope with
      | some parent =>
        if visitedHas visited parent.key then setReference frontier row.reference
        else setReference (setReference frontier row.reference) parent
      | none => setReference frontier row.reference) ↔
      r ∈ frontier ∨ r = row.reference ∨
        row.parent = some r ∧ r ∉ visited.map MessageRow.reference := by
  have hparent : row.parent = messageParent row.envelope := rfl
  rw [hparent]
  cases messageParent row.envelope with
  | none => simp [mem_setReference]
  | some p =>
    by_cases hvisited : visitedHas visited p.key
    · have hmem := visitedHas_iff.1 hvisited
      simp only [if_pos hvisited, mem_setReference, Option.some.injEq]
      constructor
      · rintro (h | h)
        · exact .inl h
        · exact .inr (.inl h)
      · rintro (h | h | ⟨rfl, hnot⟩)
        · exact .inl h
        · exact .inr h
        · exact absurd hmem hnot
    · have hnot : p ∉ visited.map MessageRow.reference := fun h => hvisited (visitedHas_iff.2 h)
      simp only [if_neg hvisited, mem_setReference, Option.some.injEq]
      constructor
      · rintro ((h | h) | rfl)
        · exact .inl h
        · exact .inr (.inl h)
        · exact .inr (.inr ⟨rfl, hnot⟩)
      · rintro (h | h | ⟨rfl, -⟩)
        · exact .inl (.inl h)
        · exact .inl (.inr h)
        · exact .inr rfl

theorem Search.Sound.visitRows {rows : List MessageRow} (h : s.Sound messages root)
    (hrows : ∀ m ∈ rows, m ∈ messages.rows ∧ EqvGen (Links messages) root m.reference) :
    (visitRows rows s).Sound messages root := by
  induction rows generalizing s with
  | nil => exact h
  | cons row rest ih =>
    obtain ⟨hvisible, hreached⟩ := hrows row List.mem_cons_self
    have hrest : ∀ m ∈ rest, m ∈ messages.rows ∧ EqvGen (Links messages) root m.reference :=
      fun m hm => hrows m (List.mem_cons_of_mem row hm)
    by_cases hold : visitedHas s.visited row.reference.key
    · rw [Account.visitRows, if_pos hold]
      exact ih h hrest
    · by_cases hfull : s.visited.length = 50
      · rw [Account.visitRows, if_neg hold, if_pos hfull]
        exact ⟨h.nodup, h.size, h.visible, h.reached, h.ahead⟩
      · rw [Account.visitRows, if_neg hold, if_neg hfull]
        have hnew : row.reference ∉ s.visited.map MessageRow.reference :=
          fun hmem => hold (visitedHas_iff.2 hmem)
        refine ih ⟨?_, ?_, ?_, ?_, ?_⟩ hrest
        · rw [List.map_append, List.map_singleton]
          exact h.nodup.append (List.nodup_singleton _) (List.disjoint_singleton.2 hnew)
        · have hsize := h.size
          rw [List.length_append, List.length_singleton]
          omega
        · intro m hm
          rcases List.mem_append.1 hm with hm | hm
          · exact h.visible m hm
          · exact List.mem_singleton.1 hm ▸ hvisible
        · intro m hm
          rcases List.mem_append.1 hm with hm | hm
          · exact h.reached m hm
          · exact List.mem_singleton.1 hm ▸ hreached
        · intro r hr
          rcases mem_next.1 hr with hr | rfl | ⟨hparent, -⟩
          · exact h.ahead r hr
          · exact hreached
          · exact reached_parent hvisible hreached hparent

theorem visitRows_queries (rows : List MessageRow) (s : Search) :
    (visitRows rows s).queries = s.queries := by
  induction rows generalizing s with
  | nil => rfl
  | cons row rest ih =>
    by_cases hold : visitedHas s.visited row.reference.key
    · rw [visitRows, if_pos hold, ih]
    · by_cases hfull : s.visited.length = 50
      · rw [visitRows, if_neg hold, if_pos hfull]
      · rw [visitRows, if_neg hold, if_neg hfull, ih]

theorem expand_queries : (expand textOrder messages root s).queries = s.queries + 1 :=
  visitRows_queries _ _

theorem Search.Sound.expand (h : s.Sound messages root) :
    (expand textOrder messages root s).Sound messages root := by
  refine Search.Sound.visitRows ⟨h.nodup, h.size, h.visible, h.reached, by simp⟩ fun m hm => ?_
  obtain ⟨hvisible, f, hf, hmeets⟩ := mem_frontierQuery (List.mem_of_mem_take hm)
  refine ⟨hvisible, ?_⟩
  rcases hmeets with rfl | hparent
  · exact h.ahead _ hf
  · exact (h.ahead f hf).trans _ _ _ (.symm _ _ (.rel _ _ ⟨m, hvisible, rfl, hparent⟩))

/-- Of what was visited since `old`, all is ahead: the messages and those they answer. -/
def Search.Pending (old : List MessageRow) (s : Search) : Prop :=
  ∀ v ∈ s.visited, v ∈ old ∨ v.reference ∈ s.frontier ∧
    ∀ p, v.parent = some p → p ∈ s.frontier ∨ p ∈ s.visited.map MessageRow.reference

/-- A visited row is ahead, and so is what it answers unless that was visited. -/
theorem Search.Pending.visit {old : List MessageRow} {row : MessageRow} {next : List Reference}
    (h : s.Pending old)
    (hnext : ∀ r, r ∈ next ↔ r ∈ s.frontier ∨ r = row.reference ∨
      row.parent = some r ∧ r ∉ (s.visited ++ [row]).map MessageRow.reference) :
    Search.Pending old { s with
      visited := s.visited ++ [row]
      frontier := next } := by
  intro v hv
  rcases List.mem_append.1 hv with hv | hv
  · rcases h v hv with hv | ⟨href, hparent⟩
    · exact .inl hv
    · refine .inr ⟨(hnext _).2 (.inl href), fun p hp => ?_⟩
      rcases hparent p hp with hp | hp
      · exact .inl ((hnext p).2 (.inl hp))
      · rw [List.map_append]
        exact .inr (List.mem_append_left _ hp)
  · obtain rfl := List.mem_singleton.1 hv
    refine .inr ⟨(hnext _).2 (.inr (.inl rfl)), fun p hp => ?_⟩
    by_cases hseen : p ∈ (s.visited ++ [v]).map MessageRow.reference
    · exact .inr hseen
    · exact .inl ((hnext p).2 (.inr (.inr ⟨hp, hseen⟩)))

/-- A loop over the rows that does not give up visits them all. -/
theorem visitRows_spec {old rows : List MessageRow} (h : s.Pending old)
    (hwhole : (visitRows rows s).truncated = false) :
    s.truncated = false ∧ (visitRows rows s).Pending old ∧
      (∀ v ∈ s.visited, v ∈ (visitRows rows s).visited) ∧
      ∀ m ∈ rows, m.reference ∈ (visitRows rows s).visited.map MessageRow.reference := by
  induction rows generalizing s with
  | nil => exact ⟨hwhole, h, fun v hv => hv, fun m hm => absurd hm List.not_mem_nil⟩
  | cons row rest ih =>
    by_cases hold : visitedHas s.visited row.reference.key
    · rw [visitRows, if_pos hold] at hwhole ⊢
      obtain ⟨htruncated, hpending, hkeep, hall⟩ := ih h hwhole
      refine ⟨htruncated, hpending, hkeep, fun m hm => ?_⟩
      rcases List.mem_cons.1 hm with rfl | hm
      · obtain ⟨v, hv, heq⟩ := List.mem_map.1 (visitedHas_iff.1 hold)
        exact List.mem_map.2 ⟨v, hkeep v hv, heq⟩
      · exact hall m hm
    · by_cases hfull : s.visited.length = 50
      · rw [visitRows, if_neg hold, if_pos hfull] at hwhole
        exact absurd hwhole (by simp)
      · rw [visitRows, if_neg hold, if_neg hfull] at hwhole ⊢
        obtain ⟨htruncated, hpending, hkeep, hall⟩ := ih (h.visit fun r => mem_next) hwhole
        refine ⟨htruncated, hpending, fun v hv => hkeep v (List.mem_append_left _ hv),
          fun m hm => ?_⟩
        rcases List.mem_cons.1 hm with rfl | hm
        · exact List.mem_map_of_mem (hkeep m (List.mem_append_right _ List.mem_cons_self))
        · exact hall m hm

/-- The search has asked for the references of `asked`, and has the rest of the way ahead. -/
structure Search.Explored (messages : VisibleMessages) (root : Reference) (asked : Set Reference)
    (s : Search) : Prop where
  start : root ∈ asked ∨ root ∈ s.frontier
  met : ∀ r ∈ asked, ∀ m ∈ messages.rows, m.reference = r ∨ m.parent = some r →
    m.reference ∈ s.visited.map MessageRow.reference
  ahead : ∀ v ∈ s.visited, ∀ r, v.reference = r ∨ v.parent = some r → r ∈ asked ∨ r ∈ s.frontier

/-- A turn that does not give up asks for the frontier. -/
theorem Search.Explored.expand {asked : Set Reference} (h : s.Explored messages root asked)
    (hwhole : (expand textOrder messages root s).truncated = false) :
    s.truncated = false ∧ (expand textOrder messages root s).Explored messages root
      (asked ∪ {r | r ∈ s.frontier}) := by
  let rows := frontierQuery textOrder messages root s.frontier s.visited
  have hstart : Search.Pending s.visited { s with
      frontier := []
      truncated := s.truncated || decide (rows.length > 50)
      queries := s.queries + 1 } := fun v hv => .inl hv
  obtain ⟨htruncated, hpending, hkeep, hall⟩ := visitRows_spec hstart hwhole
  obtain ⟨hold, hlength⟩ := Bool.or_eq_false_iff.1 htruncated
  have hlength : rows.length ≤ 50 := by simpa using hlength
  refine ⟨hold, .inl (h.start.imp id id), fun r hr m hm hmeets => ?_, fun v hv r hr => ?_⟩
  · by_cases hvisited : m.reference ∈ s.visited.map MessageRow.reference
    · obtain ⟨v, hv, heq⟩ := List.mem_map.1 hvisited
      exact List.mem_map.2 ⟨v, hkeep v hv, heq⟩
    · rcases hr with hr | hr
      · exact absurd (h.met r hr m hm hmeets) hvisited
      · have hmem := mem_frontierQuery_of_length_le hlength hm hr hmeets hvisited
        exact hall m (by rwa [List.take_of_length_le hlength])
  · rcases hpending v hv with hv | ⟨href, hparent⟩
    · exact .inl (h.ahead v hv r hr)
    · rcases hr with rfl | hr
      · exact .inr href
      · rcases hparent r hr with hr | hr
        · exact .inr hr
        · obtain ⟨w, hw, rfl⟩ := List.mem_map.1 hr
          rcases hpending w hw with hw | ⟨href, -⟩
          · exact .inl (h.ahead w hw _ (.inl rfl))
          · exact .inr href

/-- A search with nothing ahead has visited the whole component of the root. -/
theorem Search.Explored.complete {asked : Set Reference} (h : s.Explored messages root asked)
    (hsound : s.Sound messages root) (hdone : s.frontier = []) {m : MessageRow}
    (hm : m ∈ messages.rows) (hreached : EqvGen (Links messages) root m.reference) :
    m.reference ∈ s.visited.map MessageRow.reference := by
  have hahead : ∀ v ∈ s.visited, ∀ r, v.reference = r ∨ v.parent = some r → r ∈ asked := by
    intro v hv r hr
    rcases h.ahead v hv r hr with hasked | hfrontier
    · exact hasked
    · rw [hdone] at hfrontier
      exact absurd hfrontier List.not_mem_nil
  have hstart : root ∈ asked := by
    rcases h.start with hasked | hfrontier
    · exact hasked
    · rw [hdone] at hfrontier
      exact absurd hfrontier List.not_mem_nil
  have hlink : ∀ a b, Links messages a b → (a ∈ asked ↔ b ∈ asked) := by
    rintro a b ⟨m, hm, rfl, hparent⟩
    constructor
    · intro ha
      obtain ⟨v, hv, heq⟩ := List.mem_map.1 (h.met _ ha m hm (.inl rfl))
      have hsame : v.envelope = m.envelope := messages.identity v (hsound.visible v hv) m hm heq
      refine hahead v hv b (.inr ?_)
      rw [MessageRow.parent, hsame]
      exact hparent
    · intro hb
      obtain ⟨v, hv, heq⟩ := List.mem_map.1 (h.met b hb m hm (.inr hparent))
      exact heq ▸ hahead v hv v.reference (.inl rfl)
  have hclosed : ∀ a b, EqvGen (Links messages) a b → (a ∈ asked ↔ b ∈ asked) := by
    intro a b hab
    induction hab with
    | rel a b hlinked => exact hlink a b hlinked
    | refl a => exact Iff.rfl
    | symm a b _ ih => exact ih.symm
    | trans a b c _ _ ih ih' => exact ih.trans ih'
  exact h.met _ ((hclosed _ _ hreached).1 hstart) m hm (.inl rfl)

theorem searchFrom_spec (turns : ℕ) {asked : Set Reference} (hsound : s.Sound messages root)
    (h : s.Explored messages root asked) :
    (searchFrom textOrder messages root turns s).Sound messages root ∧
      (searchFrom textOrder messages root turns s).queries ≤ s.queries + turns ∧
      ((searchFrom textOrder messages root turns s).truncated = false →
        ∃ asked, (searchFrom textOrder messages root turns s).Explored messages root asked) := by
  induction turns generalizing s asked with
  | zero => exact ⟨hsound, le_rfl, fun _ => ⟨asked, h⟩⟩
  | succ turns ih =>
    by_cases hdone : s.frontier = []
    · rw [searchFrom, if_pos hdone]
      exact ⟨hsound, Nat.le_add_right _ _, fun _ => ⟨asked, h⟩⟩
    · rw [searchFrom, if_neg hdone]
      have hqueries : (expand textOrder messages root s).queries = s.queries + 1 := expand_queries
      cases htruncated : (expand textOrder messages root s).truncated with
      | true =>
        simp only [htruncated, if_true]
        exact ⟨hsound.expand, by omega, fun hwhole => nomatch hwhole⟩
      | false =>
        simp only [htruncated, Bool.false_eq_true, if_false]
        obtain ⟨-, hexplored⟩ := h.expand htruncated
        obtain ⟨hsound', hcount, hlater⟩ := ih hsound.expand hexplored
        exact ⟨hsound', by omega, hlater⟩

/-- The search from a root. -/
theorem search_spec (textOrder : JsString → JsString → Bool) (messages : VisibleMessages)
    (root : Reference) :
    (search textOrder messages root).Sound messages root ∧
      (search textOrder messages root).queries ≤ 50 ∧
      ((search textOrder messages root).truncated = false →
        ∃ asked, (search textOrder messages root).Explored messages root asked) := by
  have hsound : Search.Sound messages root ⟨[], [root], false, 0⟩ :=
    ⟨List.nodup_nil, Nat.zero_le _, by simp, by simp,
      fun r hr => List.mem_singleton.1 hr ▸ EqvGen.refl r⟩
  have hexplored : Search.Explored messages root ∅ ⟨[], [root], false, 0⟩ :=
    ⟨.inr List.mem_cons_self, by simp, by simp⟩
  exact searchFrom_spec 50 hsound hexplored

end Spec

section Answer

variable {textOrder : JsString → JsString → Bool} {toISOString : ℕ → JsString}
  {localeCompare : JsString → JsString → Ordering} {did : JsString} {messages : VisibleMessages}
  {root : Reference}

def ThreadMessage.reference (m : ThreadMessage) : Reference := ⟨m.sender, m.messageId⟩

/-- The answer shows what the search visited, in another order. -/
theorem messageThread_references :
    ((messageThread textOrder toISOString localeCompare did messages root).1.map
      ThreadMessage.reference).Perm
        ((search textOrder messages root).visited.map MessageRow.reference) := by
  refine ((List.perm_insertionSort _ _).map _).trans ?_
  rw [List.map_map]
  exact .refl _

theorem mem_messageThread {r : Reference} :
    (∃ m ∈ (messageThread textOrder toISOString localeCompare did messages root).1,
      m.reference = r) ↔
        r ∈ (search textOrder messages root).visited.map MessageRow.reference := by
  rw [← messageThread_references.mem_iff, List.mem_map]

end Answer

/-- `messageThread` is complete when it is not truncated. Its messages are distinct, at most fifty,
visible, and joined to the root by links between messages and those they answer, whether these
are there or not; without truncation they are all the visible messages so joined. The search
ends within fifty queries. -/
theorem messageThread_complete (textOrder : JsString → JsString → Bool)
    (toISOString : ℕ → JsString) (localeCompare : JsString → JsString → Ordering) (did : JsString)
    (messages : VisibleMessages) (root : Reference) :
    let thread := messageThread textOrder toISOString localeCompare did messages root
    (thread.1.map ThreadMessage.reference).Nodup ∧ thread.1.length ≤ 50 ∧
      (∀ m ∈ thread.1, (∃ row ∈ messages.rows, row.reference = m.reference) ∧
        EqvGen (Links messages) root m.reference) ∧
      (thread.2 = false → ∀ row ∈ messages.rows, EqvGen (Links messages) root row.reference →
        ∃ m ∈ thread.1, m.reference = row.reference) ∧
      (search textOrder messages root).queries ≤ 50 := by
  obtain ⟨hsound, hqueries, hexplored⟩ := search_spec textOrder messages root
  intro thread
  have hperm : (thread.1.map ThreadMessage.reference).Perm
      ((search textOrder messages root).visited.map MessageRow.reference) :=
    messageThread_references
  refine ⟨hperm.nodup_iff.2 hsound.nodup, ?_, fun m hm => ?_, fun hwhole row hrow hreached => ?_,
    hqueries⟩
  · have hlength := hperm.length_eq
    rw [List.length_map, List.length_map] at hlength
    exact hlength ▸ hsound.size
  · obtain ⟨row, hrow, heq⟩ := List.mem_map.1 (mem_messageThread.1 ⟨m, hm, rfl⟩)
    exact ⟨⟨row, hsound.visible row hrow, heq⟩, heq ▸ hsound.reached row hrow⟩
  · obtain ⟨hwhole, hdone⟩ := Bool.or_eq_false_iff.1 hwhole
    obtain ⟨asked, hasked⟩ := hexplored hwhole
    have hempty : (search textOrder messages root).frontier = [] := by simpa using hdone
    exact mem_messageThread.2 (hasked.complete hsound hempty hrow hreached)

end HailProto.Account
