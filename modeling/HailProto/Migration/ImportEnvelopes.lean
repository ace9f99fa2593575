import HailProto.Core.Precedence
import HailProto.Server.Basic

/-!
# Importing envelopes (`activation.ts`, `managed-activation.ts`)

A migrated account brings its sent and received envelopes along. A reply refers to the envelope
it answers by a foreign key into the other table, so `importEnvelopes` scans the waiting rows
from the last to the first, inserts those that are no replies or whose original it has inserted,
and scans again until no row waits or a scan inserts nothing.
-/

namespace HailProto.Migration

open Server Precedence

/-- A value of a `text` or `uuid` column, which never holds a NUL character. -/
structure Text where
  value : String
  clean : Char.ofNat 0 ∉ value.toList
  deriving DecidableEq

inductive EnvelopeTable
  | sentEnvelopes
  | receivedEnvelopes
  deriving DecidableEq, Repr

/-- The table a reply's original is in. -/
def EnvelopeTable.opposite : EnvelopeTable → EnvelopeTable
  | .sentEnvelopes => .receivedEnvelopes
  | .receivedEnvelopes => .sentEnvelopes

inductive AuthorizationType
  | grant
  | reply
  | connection
  | conversation
  deriving DecidableEq, Repr

/-- The columns of an envelope row that its keys read, under the half of
`authorization_shape` that ties a reply to its reference. -/
structure EnvelopeRow where
  senderDid : Text
  messageId : Text
  recipientDid : Text
  authorizationType : AuthorizationType
  replyToMessageId : Option Text
  authorizationShape : authorizationType = .reply ↔ replyToMessageId.isSome
  deriving DecidableEq

/-- A row with the table it belongs to. -/
structure TableEntry where
  table : EnvelopeTable
  row : EnvelopeRow
  deriving DecidableEq

/-- `` `${row.sender_did}\0${row.message_id}` `` -/
def EnvelopeRow.key (row : EnvelopeRow) : String :=
  row.senderDid.value ++ "\x00" ++ row.messageId.value

/-- `` `${row.recipient_did}\0${row.reply_to_message_id}` `` -/
def EnvelopeRow.dependency (row : EnvelopeRow) : String :=
  row.recipientDid.value ++ "\x00" ++ (row.replyToMessageId.map Text.value).getD "null"

/-- The primary key of both tables. -/
def EnvelopeRow.primaryKey (row : EnvelopeRow) : Text × Text := (row.senderDid, row.messageId)

/-- The rows of both envelope tables, in the order they were inserted. -/
abbrev EnvelopeTables := List TableEntry

/-- `INSERT INTO "${table}"`: refused for a taken primary key and for a reply reference
without its row in the other table. -/
def insertRow (tables : EnvelopeTables) (entry : TableEntry) : Except Fault EnvelopeTables :=
  if tables.any fun e => e.table = entry.table ∧ e.row.primaryKey = entry.row.primaryKey then
    .error (.uniqueViolation "envelopes_pkey")
  else if entry.row.replyToMessageId.any fun original => !tables.any fun e =>
      e.table = entry.table.opposite ∧ e.row.primaryKey = (entry.row.recipientDid, original) then
    .error ⟨some "23503", "insert or update violates foreign key constraint reply_reference"⟩
  else .ok (tables ++ [entry])

/-- The variables of the loop. -/
structure Import where
  tables : EnvelopeTables
  waiting : List TableEntry
  insertedSent : List String
  insertedReceived : List String
  progress : Bool

/-- The keys inserted into one of the tables. -/
def Import.inserted (s : Import) : EnvelopeTable → List String
  | .sentEnvelopes => s.insertedSent
  | .receivedEnvelopes => s.insertedReceived

/-- `(entry.table === "sent_envelopes" ? insertedSent : insertedReceived).add(key)` -/
def Import.add (s : Import) (table : EnvelopeTable) (key : String) : Import :=
  match table with
  | .sentEnvelopes => { s with insertedSent := key :: s.insertedSent }
  | .receivedEnvelopes => { s with insertedReceived := key :: s.insertedReceived }

/-- One turn of the inner loop, at `waiting[index]`. -/
def visit (s : Import) (index : ℕ) : Except Fault Import :=
  match s.waiting[index]? with
  | none => .error (.error "undefined is not an object (evaluating 'entry.row')")
  | some entry =>
    if entry.row.authorizationType = .reply ∧
        entry.row.dependency ∉ s.inserted entry.table.opposite then
      .ok s
    else do
      let tables ← insertRow s.tables entry
      let s := { s with
        tables := tables
        waiting := s.waiting.eraseIdx index
        progress := true }
      return s.add entry.table entry.row.key

/-- The inner loop, at the indices below `index` from the last to the first. -/
def scan (s : Import) : ℕ → Except Fault Import
  | 0 => .ok s
  | index + 1 => do
      let s ← visit s index
      scan s index

/-- The outer loop; `none` when it takes more than the given number of turns. -/
def scans (absent : String) : ℕ → Import → Option (Except Fault EnvelopeTables)
  | 0, _ => none
  | turns + 1, s =>
    if s.waiting = [] then some (.ok s.tables)
    else
      match scan { s with progress := false } s.waiting.length with
      | .error fault => some (.error fault)
      | .ok s =>
        if s.progress then scans absent turns s
        else some (.error (.error absent))

/-- The rows to import: the sent ones, then the received ones. -/
def entries (sent received : List EnvelopeRow) : List TableEntry :=
  sent.map (TableEntry.mk .sentEnvelopes) ++ received.map (TableEntry.mk .receivedEnvelopes)

/-- The state before the first scan. -/
def Import.start (tables : EnvelopeTables) (sent received : List EnvelopeRow) : Import where
  tables := tables
  waiting := entries sent received
  insertedSent := []
  insertedReceived := []
  progress := false

/-- `importEnvelopes` of the portable activation. -/
def importEnvelopes (turns : ℕ) (tables : EnvelopeTables) (sent received : List EnvelopeRow) :
    Option (Except Fault EnvelopeTables) :=
  scans "Imported reply envelopes contain an absent or cyclic original" turns
    (.start tables sent received)

/-- `importEnvelopes` of the managed activation. -/
def Managed.importEnvelopes (turns : ℕ) (tables : EnvelopeTables)
    (sent received : List EnvelopeRow) : Option (Except Fault EnvelopeTables) :=
  scans "Managed imported replies contain an absent or cyclic original" turns
    (.start tables sent received)

/-! ## Originals -/

/-- An entry is a reply. -/
def TableEntry.IsReply (e : TableEntry) : Prop := e.row.authorizationType = .reply

/-- `o` is the original that the reply `e` refers to: it is in the other table, under the reply's
recipient and reference. -/
def TableEntry.Answers (e o : TableEntry) : Prop :=
  o.table = e.table.opposite ∧ o.row.senderDid = e.row.recipientDid ∧
    e.row.replyToMessageId = some o.row.messageId

/-- No two entries of a table share their key. -/
def DistinctKeys (entries : List TableEntry) : Prop :=
  (entries.map fun e => (e.table, e.row.primaryKey)).Nodup

instance (entries : List TableEntry) : Decidable (DistinctKeys entries) :=
  inferInstanceAs (Decidable (List.Nodup _))

/-- The set's text of a key is as good as the key: it splits at its only NUL character. -/
theorem text_eq_iff {a b c d : Text} :
    a.value ++ "\x00" ++ b.value = c.value ++ "\x00" ++ d.value ↔ a = c ∧ b = d := by
  constructor
  · intro h
    have hlist : a.value.toList ++ Char.ofNat 0 :: b.value.toList =
        c.value.toList ++ Char.ofNat 0 :: d.value.toList := by
      have h' := congrArg String.toList h
      simpa using h'
    obtain ⟨hac, -, hbd⟩ := (List.append_cons_inj_of_notMem a.clean b.clean).1 hlist
    obtain ⟨_, _⟩ := a
    obtain ⟨_, _⟩ := b
    obtain ⟨_, _⟩ := c
    obtain ⟨_, _⟩ := d
    simpa [String.toList_inj] using And.intro hac hbd
  · rintro ⟨rfl, rfl⟩
    rfl

/-- A reply waits for the key of its original. -/
theorem key_eq_dependency {e o : TableEntry} (he : e.IsReply) :
    o.row.key = e.row.dependency ↔
      o.row.senderDid = e.row.recipientDid ∧ e.row.replyToMessageId = some o.row.messageId := by
  obtain ⟨original, horiginal⟩ := Option.isSome_iff_exists.1 (e.row.authorizationShape.1 he)
  simp only [EnvelopeRow.key, EnvelopeRow.dependency, horiginal, Option.map_some, Option.getD_some,
    text_eq_iff, Option.some.injEq, eq_comm]

theorem DistinctKeys.eq_of_key {rows : List TableEntry} (h : DistinctKeys rows) {a b : TableEntry}
    (ha : a ∈ rows) (hb : b ∈ rows) (htable : a.table = b.table)
    (hkey : a.row.primaryKey = b.row.primaryKey) : a = b :=
  List.inj_on_of_nodup_map h ha hb (by rw [htable, hkey])

/-- A reply has at most one original among rows with distinct keys. -/
theorem DistinctKeys.original_unique {rows : List TableEntry} (h : DistinctKeys rows)
    (a : TableEntry) :
    ∀ b ∈ rows, ∀ c ∈ rows, a.Answers b → a.Answers c → b = c := by
  intro b hb c hc hab hac
  obtain ⟨htable, hsender, hid⟩ := hab
  obtain ⟨htable', hsender', hid'⟩ := hac
  have hmessage : b.row.messageId = c.row.messageId := Option.some.inj (hid.symm.trans hid')
  refine h.eq_of_key hb hc (htable.trans htable'.symm) ?_
  rw [EnvelopeRow.primaryKey, EnvelopeRow.primaryKey, hsender, hsender', hmessage]

theorem TableEntry.Answers.isReply {a b : TableEntry} (h : a.Answers b) : a.IsReply := by
  rw [TableEntry.IsReply, a.row.authorizationShape, h.2.2]
  rfl

/-! ## The loop -/

/-- What holds between two turns: the rows done so far are `log`. -/
structure Underway (before : EnvelopeTables) (rows log : List TableEntry) (s : Import) : Prop where
  /-- They were added to the tables. -/
  tables : s.tables = before ++ log
  /-- They and the waiting rows are the rows to import. -/
  perm : (log ++ s.waiting).Perm rows
  /-- The sets hold their keys. -/
  inserted : ∀ table key, key ∈ s.inserted table ↔ ∃ o ∈ log, o.table = table ∧ o.row.key = key
  /-- Each came after its original. -/
  inOrder : InOrder TableEntry.Answers TableEntry.IsReply log

/-- A row that the loop passes over: a reply none of the rows done is the original of. -/
def TableEntry.Stuck (e : TableEntry) (log : List TableEntry) : Prop :=
  e.IsReply ∧ ∀ o ∈ log, ¬e.Answers o

section Loop

variable {before : EnvelopeTables} {rows log : List TableEntry} {s : Import}

theorem Underway.start (before : EnvelopeTables) (sent received : List EnvelopeRow) :
    Underway before (entries sent received) [] (.start before sent received) where
  tables := (List.append_nil _).symm
  perm := .refl _
  inserted table key := by cases table <;> simp [Import.inserted, Import.start]
  inOrder := .nil

/-- The set of the other table tells whether a reply's original is done. -/
theorem Underway.dependency_mem (h : Underway before rows log s) {e : TableEntry} (he : e.IsReply) :
    e.row.dependency ∈ s.inserted e.table.opposite ↔ ∃ o ∈ log, e.Answers o := by
  rw [h.inserted]
  constructor
  · rintro ⟨o, ho, htable, hkey⟩
    exact ⟨o, ho, htable, (key_eq_dependency he).1 hkey⟩
  · rintro ⟨o, ho, htable, hanswers⟩
    exact ⟨o, ho, htable, (key_eq_dependency he).2 hanswers⟩

/-- The tables take a waiting row whose original is done. -/
theorem Underway.insertRow_eq (h : Underway before rows log s)
    (hkeys : DistinctKeys (before ++ rows))
    {e : TableEntry} (he : e ∈ s.waiting) (hready : ¬e.Stuck log) :
    insertRow s.tables e = .ok (before ++ (log ++ [e])) := by
  have hnodup : DistinctKeys (before ++ (log ++ s.waiting)) :=
    ((h.perm.append_left before).map _).nodup_iff.2 hkeys
  have hfree : ¬s.tables.any fun o => o.table = e.table ∧ o.row.primaryKey = e.row.primaryKey := by
    intro htaken
    simp only [h.tables, List.any_eq_true, decide_eq_true_eq] at htaken
    obtain ⟨o, ho, htable, hkey⟩ := htaken
    rw [DistinctKeys, ← List.append_assoc, List.map_append] at hnodup
    refine List.disjoint_of_nodup_append hnodup (List.mem_map_of_mem ho) ?_
    exact List.mem_map.2 ⟨e, he, by rw [htable, hkey]⟩
  have hreference : ¬e.row.replyToMessageId.any fun original => !s.tables.any fun o =>
      o.table = e.table.opposite ∧ o.row.primaryKey = (e.row.recipientDid, original) := by
    intro hmissing
    cases horiginal : e.row.replyToMessageId with
    | none => simp [horiginal] at hmissing
    | some original =>
      have hreply : e.IsReply := e.row.authorizationShape.2 (by rw [horiginal]; rfl)
      obtain ⟨o, ho, hanswers⟩ : ∃ o ∈ log, e.Answers o := by
        by_contra hnone
        exact hready ⟨hreply, fun o ho hanswers => hnone ⟨o, ho, hanswers⟩⟩
      obtain ⟨htable, hsender, hid⟩ := hanswers
      rw [horiginal, Option.some.injEq] at hid
      simp only [horiginal, Option.any_some, Bool.not_eq_true', List.any_eq_false, h.tables,
        decide_eq_true_eq, not_and] at hmissing
      refine hmissing o (List.mem_append_right _ ho) htable ?_
      rw [EnvelopeRow.primaryKey, hsender, hid]
  rw [insertRow, if_neg hfree, if_neg hreference, h.tables, List.append_assoc]

theorem Import.inserted_add (s : Import) (table table' : EnvelopeTable) (key key' : String) :
    key' ∈ (s.add table key).inserted table' ↔
      key' ∈ s.inserted table' ∨ table = table' ∧ key = key' := by
  cases table <;> cases table' <;> simp [Import.add, Import.inserted, eq_comm, or_comm]

theorem Import.add_eq (s : Import) (table : EnvelopeTable) (key : String) :
    (s.add table key).tables = s.tables ∧ (s.add table key).waiting = s.waiting ∧
      (s.add table key).progress = s.progress := by
  cases table <;> exact ⟨rfl, rfl, rfl⟩

/-- A turn passes over a row that is stuck. -/
theorem Underway.visit_stuck (h : Underway before rows log s) {index : ℕ} {e : TableEntry}
    (hat : s.waiting[index]? = some e) (hstuck : e.Stuck log) : visit s index = .ok s := by
  have hnot : e.row.dependency ∉ s.inserted e.table.opposite := by
    rw [h.dependency_mem hstuck.1]
    rintro ⟨o, ho, hanswers⟩
    exact hstuck.2 o ho hanswers
  simp only [visit, hat]
  exact if_pos ⟨hstuck.1, hnot⟩

/-- A turn inserts a row that is not. -/
theorem Underway.visit_ready (h : Underway before rows log s)
    (hkeys : DistinctKeys (before ++ rows)) {index : ℕ} {e : TableEntry}
    (hat : s.waiting[index]? = some e) (hready : ¬e.Stuck log) :
    ∃ s', visit s index = .ok s' ∧ Underway before rows (log ++ [e]) s' ∧
      s'.waiting = s.waiting.eraseIdx index ∧ s'.progress = true := by
  have horiginal : e.IsReply → ∃ o ∈ log, e.Answers o := by
    intro hreply
    by_contra hnone
    exact hready ⟨hreply, fun o ho hanswers => hnone ⟨o, ho, hanswers⟩⟩
  have hguard : ¬(e.row.authorizationType = .reply ∧
      e.row.dependency ∉ s.inserted e.table.opposite) :=
    fun hskip => hskip.2 ((h.dependency_mem hskip.1).2 (horiginal hskip.1))
  have hinsert := h.insertRow_eq hkeys (List.mem_of_getElem? hat) hready
  let s₁ : Import := { s with
    tables := before ++ (log ++ [e])
    waiting := s.waiting.eraseIdx index
    progress := true }
  obtain ⟨htables, hwaiting, hprogress⟩ := s₁.add_eq e.table e.row.key
  refine ⟨s₁.add e.table e.row.key, ?_, ⟨htables, ?_, fun table key => ?_, ?_⟩, hwaiting, hprogress⟩
  · simp only [visit, hat, if_neg hguard, hinsert]
    rfl
  · have hlt : index < s.waiting.length := (List.getElem?_eq_some_iff.1 hat).1
    have hperm : s.waiting.Perm (e :: s.waiting.eraseIdx index) := by
      have hget : s.waiting[index] = e := (List.getElem?_eq_some_iff.1 hat).2
      rw [← hget]
      exact (List.getElem_cons_eraseIdx_perm hlt).symm
    rw [hwaiting, List.append_assoc]
    exact (hperm.symm.append_left log).trans h.perm
  · have hold : key ∈ s₁.inserted table ↔ ∃ o ∈ log, o.table = table ∧ o.row.key = key :=
      h.inserted table key
    rw [Import.inserted_add, hold]
    simp only [List.mem_append, List.mem_singleton, or_and_right, exists_or, exists_eq_left]
  · exact h.inOrder.snoc horiginal

/-- A scan of the rows below `n` inserts one of them, or finds them all stuck. -/
theorem Underway.scan (hkeys : DistinctKeys (before ++ rows)) (h : Underway before rows log s)
    {n : ℕ} (hn : n ≤ s.waiting.length) :
    (scan s n = .ok s ∧ ∀ i e, i < n → s.waiting[i]? = some e → e.Stuck log) ∨
    ∃ s' log', scan s n = .ok s' ∧ Underway before rows log' s' ∧ s'.progress = true ∧
      s'.waiting.length < s.waiting.length := by
  induction n generalizing s log with
  | zero => exact .inl ⟨rfl, fun i e hi => absurd hi (Nat.not_lt_zero i)⟩
  | succ n ih =>
    obtain ⟨e, hat⟩ : ∃ e, s.waiting[n]? = some e := ⟨_, List.getElem?_eq_getElem hn⟩
    by_cases hstuck : e.Stuck log
    · have hvisit := h.visit_stuck hat hstuck
      rcases ih h (Nat.le_of_succ_le hn) with ⟨hscan, hall⟩ | ⟨s', log', hscan, hs'⟩
      · refine .inl ⟨by rw [Migration.scan, hvisit]; exact hscan, fun i e' hi hat' => ?_⟩
        rcases Nat.lt_succ_iff_lt_or_eq.1 hi with hlt | rfl
        · exact hall i e' hlt hat'
        · rw [hat, Option.some.injEq] at hat'
          exact hat' ▸ hstuck
      · exact .inr ⟨s', log', by rw [Migration.scan, hvisit]; exact hscan, hs'⟩
    · obtain ⟨s₁, hvisit, h₁, hwaiting, hprogress⟩ := h.visit_ready hkeys hat hstuck
      have hlength : s₁.waiting.length = s.waiting.length - 1 := by
        rw [hwaiting, List.length_eraseIdx_of_lt hn]
      have hscan₁ : Migration.scan s (n + 1) = Migration.scan s₁ n := by
        rw [Migration.scan, hvisit]
        rfl
      rcases ih h₁ (by omega) with ⟨hscan, -⟩ | ⟨s', log', hscan, h', hprogress', hlt⟩
      · exact .inr ⟨s₁, _, hscan₁.trans hscan, h₁, hprogress, by omega⟩
      · exact .inr ⟨s', log', hscan₁.trans hscan, h', hprogress', by omega⟩

/-- Rows that have their originals and no cycle are never all stuck. -/
theorem Underway.exists_ready (h : Underway before rows log s)
    (hpresent : Present TableEntry.Answers TableEntry.IsReply rows)
    (hacyclic : Acyclic TableEntry.Answers rows)
    (hne : s.waiting ≠ []) : ∃ e ∈ s.waiting, ¬e.Stuck log := by
  have hsub : s.waiting ⊆ rows := fun e he => h.perm.mem_iff.1 (List.mem_append_right _ he)
  obtain ⟨e, he, hnone⟩ := hacyclic.exists_ready hsub hne
  refine ⟨e, he, fun hstuck => ?_⟩
  obtain ⟨o, ho, hanswers⟩ := hpresent e (hsub he) hstuck.1
  rcases List.mem_append.1 (h.perm.mem_iff.2 ho) with hdone | hwaits
  · exact hstuck.2 o hdone hanswers
  · exact hnone o hwaits hanswers

/-- The loop ends: with every row inserted after its original, or at rows that have no such
order, and it ends the same way whatever its message. -/
theorem Underway.scans (hkeys : DistinctKeys (before ++ rows)) (h : Underway before rows log s) :
    (∃ order, order.Perm rows ∧ InOrder TableEntry.Answers TableEntry.IsReply order ∧
      ∀ absent turns, s.waiting.length < turns →
        scans absent turns s = some (.ok (before ++ order))) ∨
    (¬(Present TableEntry.Answers TableEntry.IsReply rows ∧ Acyclic TableEntry.Answers rows) ∧
      ∀ absent turns, s.waiting.length < turns →
        scans absent turns s = some (.error (.error absent))) := by
  induction hlength : s.waiting.length using Nat.strong_induction_on generalizing s log with
  | _ length ih =>
    by_cases hempty : s.waiting = []
    · refine .inl ⟨log, by simpa [hempty] using h.perm, h.inOrder, fun absent turns hturns => ?_⟩
      obtain ⟨turns, rfl⟩ := Nat.exists_eq_succ_of_ne_zero (Nat.ne_zero_of_lt hturns)
      rw [Migration.scans, if_pos hempty, h.tables]
    · have h₀ : Underway before rows log { s with progress := false } :=
        ⟨h.tables, h.perm, fun table key => by rw [← h.inserted]; cases table <;> rfl, h.inOrder⟩
      rcases h₀.scan hkeys (le_refl s.waiting.length) with
        ⟨hscan, hstuck⟩ | ⟨s', log', hscan, h', hprogress, hlt⟩
      · refine .inr ⟨fun ⟨hpresent, hacyclic⟩ => ?_, fun absent turns hturns => ?_⟩
        · obtain ⟨e, he, hready⟩ := h.exists_ready hpresent hacyclic hempty
          obtain ⟨i, hi, rfl⟩ := List.getElem_of_mem he
          exact hready (hstuck i _ hi (List.getElem?_eq_getElem hi))
        · obtain ⟨turns, rfl⟩ := Nat.exists_eq_succ_of_ne_zero (Nat.ne_zero_of_lt hturns)
          simp only [Migration.scans, if_neg hempty, hscan]
          rfl
      · have hnext : ∀ absent turns, length < turns → ∃ turns', s'.waiting.length < turns' ∧
            Migration.scans absent turns s = Migration.scans absent turns' s' := by
          intro absent turns hturns
          obtain ⟨turns, rfl⟩ := Nat.exists_eq_succ_of_ne_zero (Nat.ne_zero_of_lt hturns)
          refine ⟨turns, by simp only at hlt; omega, ?_⟩
          simp only [Migration.scans, if_neg hempty, hscan, hprogress, if_true]
        rcases ih _ (hlength ▸ hlt) h' rfl with ⟨order, hperm, horder, hend⟩ | ⟨hnot, hend⟩
        · refine .inl ⟨order, hperm, horder, fun absent turns hturns => ?_⟩
          obtain ⟨turns', hlt', heq⟩ := hnext absent turns hturns
          rw [heq, hend absent turns' hlt']
        · refine .inr ⟨hnot, fun absent turns hturns => ?_⟩
          obtain ⟨turns', hlt', heq⟩ := hnext absent turns hturns
          rw [heq, hend absent turns' hlt']

end Loop

theorem DistinctKeys.nodup {rows : List TableEntry} (h : DistinctKeys rows) : rows.Nodup :=
  List.Nodup.of_map _ h

/-- Rows inserted after their originals have their originals and no cycle. -/
theorem schedulable_of_inOrder {rows order : List TableEntry} (hkeys : DistinctKeys rows)
    (hperm : order.Perm rows) (horder : InOrder TableEntry.Answers TableEntry.IsReply order) :
    Present TableEntry.Answers TableEntry.IsReply rows ∧ Acyclic TableEntry.Answers rows := by
  have hkeys' : DistinctKeys order := (hperm.map _).nodup_iff.2 hkeys
  have hacyclic : Acyclic TableEntry.Answers order :=
    horder.acyclic hkeys'.nodup (fun _ _ => TableEntry.Answers.isReply) hkeys'.original_unique
  exact ⟨horder.present.perm hperm, hacyclic.perm hperm⟩

/-- `importEnvelopes` is exact. For rows with distinct keys both versions end, within one turn
more than there are rows; they succeed exactly when every reply's original is among the rows of
the other table and no reply leads back to itself; on success every row was inserted once and
after its original; and the two versions leave the same tables. -/
theorem importEnvelopes_exact (tables : EnvelopeTables) (sent received : List EnvelopeRow)
    (hkeys : DistinctKeys (tables ++ entries sent received)) :
    ∃ portable managed : Except Fault EnvelopeTables,
      (∀ turns, (entries sent received).length < turns →
        importEnvelopes turns tables sent received = some portable ∧
          Managed.importEnvelopes turns tables sent received = some managed) ∧
      ((∃ after, portable = .ok after) ↔
        Present TableEntry.Answers TableEntry.IsReply (entries sent received) ∧
          Acyclic TableEntry.Answers (entries sent received)) ∧
      (∀ after, portable = .ok after → ∃ order, after = tables ++ order ∧
        order.Perm (entries sent received) ∧
          InOrder TableEntry.Answers TableEntry.IsReply order) ∧
      ∀ after, managed = .ok after ↔ portable = .ok after := by
  have hrows : DistinctKeys (entries sent received) := by
    rw [DistinctKeys, List.map_append] at hkeys
    exact hkeys.of_append_right
  rcases (Underway.start tables sent received).scans hkeys with
    ⟨order, hperm, horder, hend⟩ | ⟨hnot, hend⟩
  · have hyes := schedulable_of_inOrder hrows hperm horder
    refine ⟨.ok (tables ++ order), .ok (tables ++ order),
      fun turns hturns => ⟨hend _ turns hturns, hend _ turns hturns⟩,
      ⟨fun _ => hyes, fun _ => ⟨_, rfl⟩⟩, ?_, fun after => Iff.rfl⟩
    rintro after ⟨⟩
    exact ⟨order, rfl, hperm, horder⟩
  · refine ⟨_, _, fun turns hturns => ⟨hend _ turns hturns, hend _ turns hturns⟩,
      ⟨?_, fun hyes => absurd hyes hnot⟩, ?_, fun after => ?_⟩
    · rintro ⟨after, hafter⟩
      cases hafter
    · rintro after hafter
      cases hafter
    · constructor <;> intro hafter <;> cases hafter

/-- A received envelope, the reply to it, and the answer to that reply. -/
private def exchange : List EnvelopeRow × List EnvelopeRow :=
  let alice : Text := ⟨"did:plc:alice", by decide⟩
  let bob : Text := ⟨"did:plc:bob", by decide⟩
  let ids : ℕ → Text := fun i => if i = 0 then ⟨"m0", by decide⟩
    else if i = 1 then ⟨"m1", by decide⟩ else ⟨"m2", by decide⟩
  ([⟨alice, ids 1, bob, .reply, some (ids 0), by decide⟩],
    [⟨bob, ids 0, alice, .grant, none, by decide⟩,
      ⟨bob, ids 2, alice, .reply, some (ids 1), by decide⟩])

theorem importEnvelopes_exact_exchange :
    DistinctKeys (entries exchange.1 exchange.2) ∧
      Present TableEntry.Answers TableEntry.IsReply (entries exchange.1 exchange.2) ∧
        Acyclic TableEntry.Answers (entries exchange.1 exchange.2) := by
  have hkeys : DistinctKeys (entries exchange.1 exchange.2) := by decide +kernel
  obtain ⟨portable, _, hend, hiff, -⟩ := importEnvelopes_exact [] exchange.1 exchange.2 hkeys
  have hrun : (importEnvelopes 4 [] exchange.1 exchange.2).any Except.isOk = true := by
    decide +kernel
  rw [(hend 4 (by decide)).1, Option.any_some, isOk_iff] at hrun
  exact ⟨hkeys, hiff.1 hrun⟩

/-- Two replies to each other have no order. -/
example :
    let a : Text := ⟨"a", by decide⟩
    let b : Text := ⟨"b", by decide⟩
    importEnvelopes 3 [] [⟨a, a, b, .reply, some b, by decide⟩]
        [⟨b, b, a, .reply, some a, by decide⟩] =
      some (.error (.error "Imported reply envelopes contain an absent or cyclic original")) := by
  decide +kernel

end HailProto.Migration
