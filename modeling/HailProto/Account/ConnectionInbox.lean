import HailProto.Account.ConnectionThreads
import HailProto.Codec.Base64Url
import HailProto.Core.Outcome
import HailProto.Core.Paging
import HailProto.Server.TextEncoding

/-!
# The inbox of connections

`connectionInbox` of `accounts/connection-threads.ts`. The groups that have a message to show are
sorted by their latest activity, and at one instant by their name; the inbox returns five of them,
with a cursor that names the last. A cursor travels as base64url of JSON, and leaves the groups
below it in the order of code units.
-/

namespace HailProto.Account

open Server Server.Json

/-- What the runtime does with instants, texts and buffers. -/
structure Runtime where
  /-- `a.localeCompare(b)` -/
  localeCompare : JsString → JsString → Ordering
  /-- `new Date(ms).toISOString()` -/
  toISOString : ℤ → JsString
  /-- `Number.isFinite(Date.parse(text))` -/
  isDate : JsString → Bool
  isDate_toISOString : ∀ ms, isDate (toISOString ms) = true
  /-- `Buffer.from(text,'base64url')` -/
  bufferFrom : JsString → List UInt8
  bufferFrom_encode : ∀ bytes,
    bufferFrom (js (String.ofList (Codec.encodeBase64Url bytes))) = bytes
  /-- `buffer.toString()` -/
  bufferToString : List UInt8 → JsString
  bufferToString_text : ∀ text : String, bufferToString (Cbor.asBytes text) = js text

/-- `UserGrantError`, with its status. -/
structure UserGrantError where
  status : ℕ
  message : String
  deriving DecidableEq

/-- A row that `graph` reads of the sent and the received envelopes. -/
structure GraphRow where
  sender : JsString
  messageId : JsString
  recipient : JsString
  sent : Bool
  visible : Bool
  isRead : Bool
  /-- The instant in milliseconds. -/
  «at» : ℤ
  parentSender : Option JsString
  parentId : Option JsString
  batch : Option JsString
  conversationCreator : Option JsString
  conversationId : Option JsString

/-- The position an inbox goes on from. -/
structure InboxCursor where
  activity : JsString
  id : JsString

/-- The functions of `AccountMessaging` that load a message of the account. -/
structure MessageLoader (μ : Type) where
  sentMessage : JsString → μ
  read : JsString → JsString → μ

/-- A conversation of the answer, with the message that represents it. -/
structure InboxEntry (μ : Type) where
  message : μ
  sender : JsString
  messageId : JsString
  deliveredAt : JsString
  isRead : Bool
  unreadCount : ℕ
  lastActivity : JsString
  messages : List (JsString × JsString × Bool)
  deriving DecidableEq

section Inbox

variable (runtime : Runtime)

/-- A row as a message of the graph. -/
def graphNode (row : GraphRow) : ConnectionNode where
  sender := row.sender
  messageId := row.messageId
  recipient := row.recipient
  sent := row.sent
  visible := row.visible
  isRead := row.isRead
  «at» := runtime.toISOString row.at
  parentSender := row.parentSender
  parentId := row.parentId
  batch := row.batch
  conversation := (truthy row.conversationId).map fun id =>
    row.conversationCreator.getD (js "null") ++ js "/" ++ id

/-- The groups of an account's messages; grouping always ends. -/
def graph (rows : List GraphRow) : List ConnectionGroup :=
  (groupConnectionMessages runtime.localeCompare (rows.map (graphNode runtime))).getD []

def invalidCursor : UserGrantError := ⟨400, "Invalid conversation cursor"⟩

/-- The cursor of a request. A missing one and an empty one begin the inbox. -/
def parseCursor : Option JsString → Except UserGrantError (Option InboxCursor)
  | none => .ok none
  | some [] => .ok none
  | some (c :: after) =>
    match jsonParse id (runtime.bufferToString (runtime.bufferFrom (c :: after))) with
    | some (.object properties) =>
      match getProperty properties "id", getProperty properties "activity" with
      | some (.string id), some (.string activity) =>
        if runtime.isDate activity then .ok (some ⟨activity, id⟩) else .error invalidCursor
      | _, _ => .error invalidCursor
    | _ => .error invalidCursor

/-- `Buffer.from(JSON.stringify(cursor)).toString('base64url')` -/
def encodeCursor (cursor : InboxCursor) : JsString :=
  js (String.ofList (Codec.encodeBase64Url (utf8Encode (write
    (.object [(js "activity", .string cursor.activity), (js "id", .string cursor.id)])))))

/-- The comparison that sorts the groups. -/
def laterGroup (a b : ConnectionGroup) : Bool :=
  (runtime.localeCompare b.activity a.activity).then (runtime.localeCompare b.id a.id) ≠ .gt

/-- The condition of the filter that a cursor applies. -/
def belowCursor (cursor : InboxCursor) (g : ConnectionGroup) : Bool :=
  g.activity < cursor.activity || g.activity = cursor.activity && g.id < cursor.id

variable {μ : Type} (loader : MessageLoader μ)

/-- What the answer shows of a group with its representative. -/
def inboxEntry (g : ConnectionGroup) (representative : ConnectionNode) : InboxEntry μ where
  message := if representative.sent then loader.sentMessage representative.messageId
    else loader.read representative.sender representative.messageId
  sender := representative.sender
  messageId := representative.messageId
  deliveredAt := representative.at
  isRead := representative.isRead
  unreadCount := g.unread
  lastActivity := g.activity
  messages := g.received.map fun m => (m.sender, m.messageId, m.isRead)

/-- The groups that the inbox shows, in its order. -/
def inboxGroups (rows : List GraphRow) : List ConnectionGroup :=
  ((graph runtime rows).filter fun g => g.representative.isSome).insertionSort
    fun a b => laterGroup runtime a b

/-- The groups of a page, and the cursor behind it. -/
def inboxPage (rows : List GraphRow) (after : Option JsString) :
    Except UserGrantError (List ConnectionGroup × Option JsString) := do
  let cursor ← parseCursor runtime after
  let groups := (inboxGroups runtime rows).filter fun g => cursor.all fun c => belowCursor c g
  let page := groups.take 5
  return (page, if groups.length > 5 then
    page[4]?.map fun g => encodeCursor ⟨g.activity, g.id⟩ else none)

def connectionInbox (rows : List GraphRow) (after : Option JsString) :
    Except UserGrantError (List (InboxEntry μ) × Option JsString) :=
  (inboxPage runtime rows after).map fun answer =>
    (answer.1.filterMap fun g => g.representative.map (inboxEntry loader g), answer.2)

end Inbox

/-! ## The cursor -/

section Cursor

variable {runtime : Runtime} {cursor : InboxCursor}

/-- The text of a cursor. -/
def cursorTree (cursor : InboxCursor) : Json :=
  .object [(js "activity", .string cursor.activity), (js "id", .string cursor.id)]

theorem jsonParse_cursor (cursor : InboxCursor) :
    (jsonParse id (write (cursorTree cursor)) : Option (JsValue JsString)) = some (.object
      [(js "activity", .string cursor.activity), (js "id", .string cursor.id)]) := by
  have hname : js "id" ≠ js "activity" := by decide
  rw [jsonParse, parse_eq_some.2 (isText_write _ (by simp [cursorTree, numerals, memberNumerals]))]
  rw [Option.map_some, cursorTree, evaluate_object id (by simp [hname.symm])]
  rfl

/-- A cursor that names an instant is read back from its encoding. -/
theorem parseCursor_encodeCursor (hdate : runtime.isDate cursor.activity = true) :
    parseCursor runtime (some (encodeCursor cursor)) = .ok (some cursor) := by
  have hname : js "activity" ≠ js "id" := by decide
  obtain ⟨text, htext⟩ : WellFormed (write (cursorTree cursor)) :=
    wellFormed_write _ (by simp [cursorTree, numerals, memberNumerals])
  have hbytes : utf8Encode (write (cursorTree cursor)) = Cbor.asBytes text := by
    rw [htext, utf8Encode_js]
  have hread : runtime.bufferToString (runtime.bufferFrom (encodeCursor cursor)) =
      write (cursorTree cursor) := by
    rw [encodeCursor, runtime.bufferFrom_encode]
    exact (congrArg _ hbytes).trans ((runtime.bufferToString_text text).trans htext.symm)
  have hne : encodeCursor cursor ≠ [] := by
    intro hnil
    rw [hnil] at hread
    have hempty : runtime.bufferFrom [] = [] := runtime.bufferFrom_encode []
    have htext' : runtime.bufferToString [] = [] := runtime.bufferToString_text ""
    rw [hempty, htext', cursorTree, write] at hread
    cases hread
  obtain ⟨c, rest, hcons⟩ := List.exists_cons_of_ne_nil hne
  rw [hcons, parseCursor, ← hcons, hread, jsonParse_cursor]
  simp [getProperty, hname, hdate]

end Cursor

/-! ## The order of the groups -/

/-- On these strings the comparison of a locale is the order of code units. -/
def AgreesOn (localeCompare : JsString → JsString → Ordering) (strings : Set JsString) : Prop :=
  ∀ a ∈ strings, ∀ b ∈ strings,
    (localeCompare a b = .lt ↔ a < b) ∧ (localeCompare a b = .eq ↔ a = b)

/-- The place of a group in the order of the inbox. -/
def ConnectionGroup.place (g : ConnectionGroup) : JsString ×ₗ JsString := toLex (g.activity, g.id)

/-- The texts of instants. -/
def instants (runtime : Runtime) : Set JsString := Set.range runtime.toISOString

/-- The names of the groups. -/
def groupIds (runtime : Runtime) (rows : List GraphRow) : Set JsString :=
  {id | ∃ g ∈ graph runtime rows, g.id = id}

section Order

variable {runtime : Runtime} {rows : List GraphRow} {g : ConnectionGroup}

theorem graph_eq (runtime : Runtime) (rows : List GraphRow) :
    groupConnectionMessages runtime.localeCompare (rows.map (graphNode runtime)) =
        some (graph runtime rows) ∧
      ((graph runtime rows).map ConnectionGroup.id).Nodup ∧
      ∀ g ∈ graph runtime rows, ∃ id all, (∀ m ∈ all, m ∈ rows.map (graphNode runtime)) ∧
        g = connectionGroup runtime.localeCompare id all := by
  obtain ⟨rep, -, hgroups⟩ :=
    groupConnectionMessages_spec runtime.localeCompare (rows.map (graphNode runtime))
  have hgraph : graph runtime rows = _ := congrArg (·.getD []) hgroups
  refine ⟨by rw [hgraph, hgroups, Option.getD_some], ?_, fun g hg => ?_⟩
  · obtain ⟨hnodup, -⟩ := grouping_spec (fun node => rep (connectionKey node))
      (rows.map (graphNode runtime))
    rw [hgraph, Option.getD_some, List.map_map]
    exact hnodup
  · rw [hgraph, Option.getD_some, List.mem_map] at hg
    obtain ⟨⟨id, all⟩, hmem, rfl⟩ := hg
    obtain ⟨-, rfl⟩ := (mem_grouping id all).1 hmem
    exact ⟨id, _, fun m hm => (List.mem_filter.1 hm).1, rfl⟩

/-- The activity of a group that the inbox shows is the text of an instant. -/
theorem activity_mem_instants (hg : g ∈ graph runtime rows)
    (hshown : g.representative.isSome = true) : g.activity ∈ instants runtime := by
  obtain ⟨id, all, hall, rfl⟩ := (graph_eq runtime rows).2.2 g hg
  simp only [connectionGroup] at hshown ⊢
  cases hvisible : (all.filter (·.visible)).insertionSort
      fun a b => laterFirst runtime.localeCompare a b with
  | nil => simp [hvisible] at hshown
  | cons m rest =>
    have hm : m ∈ (all.filter (·.visible)).insertionSort
        fun a b => laterFirst runtime.localeCompare a b := hvisible ▸ List.mem_cons_self
    have hmem := (List.mem_filter.1 ((List.perm_insertionSort _ _).mem_iff.1 hm)).1
    obtain ⟨row, -, rfl⟩ := List.mem_map.1 (hall m hmem)
    exact ⟨row.at, rfl⟩

theorem mem_inboxGroups : g ∈ inboxGroups runtime rows ↔
    g ∈ graph runtime rows ∧ g.representative.isSome = true := by
  rw [inboxGroups, (List.perm_insertionSort _ _).mem_iff, List.mem_filter]

/-- Where the locale agrees with the code units, groups are compared by their places. -/
theorem laterGroup_iff (hinstants : AgreesOn runtime.localeCompare (instants runtime))
    (hids : AgreesOn runtime.localeCompare (groupIds runtime rows)) {a b : ConnectionGroup}
    (ha : a ∈ graph runtime rows) (hb : b ∈ graph runtime rows)
    (hashown : a.representative.isSome = true) (hbshown : b.representative.isSome = true) :
    laterGroup runtime a b = true ↔ b.place ≤ a.place := by
  obtain ⟨hlt, heq⟩ := hinstants _ (activity_mem_instants hb hbshown) _
    (activity_mem_instants ha hashown)
  obtain ⟨hidlt, hideq⟩ := hids b.id ⟨b, hb, rfl⟩ a.id ⟨a, ha, rfl⟩
  rw [ConnectionGroup.place, ConnectionGroup.place, Prod.Lex.le_iff]
  simp only [laterGroup, ofLex_toLex]
  cases hactivity : runtime.localeCompare b.activity a.activity with
  | lt => simp [Ordering.then, hlt.1 hactivity]
  | eq =>
    have hsame : b.activity = a.activity := heq.1 hactivity
    cases hid : runtime.localeCompare b.id a.id with
    | lt => simp [Ordering.then, hsame, (hidlt.1 hid).le]
    | eq => simp [Ordering.then, hsame, (hideq.1 hid).le]
    | gt =>
      have hnot : ¬b.id ≤ a.id := by
        intro hle
        rcases hle.lt_or_eq with h | h
        · exact absurd (hidlt.2 h) (by simp [hid])
        · exact absurd (hideq.2 h) (by simp [hid])
      simp [Ordering.then, hsame, hnot]
  | gt =>
    have hnot : ¬b.activity < a.activity := fun h => absurd (hlt.2 h) (by simp [hactivity])
    have hne : b.activity ≠ a.activity := fun h => absurd (heq.2 h) (by simp [hactivity])
    simp [Ordering.then, hnot, hne]

/-- The groups that the inbox shows are in strictly descending places. -/
theorem inboxGroups_descending (hinstants : AgreesOn runtime.localeCompare (instants runtime))
    (hids : AgreesOn runtime.localeCompare (groupIds runtime rows)) :
    (inboxGroups runtime rows).Pairwise fun a b => b.place < a.place := by
  let shown := (graph runtime rows).filter fun g => g.representative.isSome
  have hsort : inboxGroups runtime rows =
      shown.insertionSort fun a b => b.place ≤ a.place := by
    have hmap := List.map_insertionSort (fun a b => laterGroup runtime a b = true)
      (fun a b => b.place ≤ a.place) id shown fun a ha b hb => by
        obtain ⟨ha, hashown⟩ := List.mem_filter.1 ha
        obtain ⟨hb, hbshown⟩ := List.mem_filter.1 hb
        exact laterGroup_iff hinstants hids ha hb hashown hbshown
    rw [List.map_id, List.map_id] at hmap
    exact hmap
  have hsorted : (inboxGroups runtime rows).Pairwise fun a b => b.place ≤ a.place := by
    rw [hsort]
    exact List.pairwise_insertionSort _ _
  have hdistinct : (inboxGroups runtime rows).Pairwise fun a b => a.id ≠ b.id := by
    have hnodup : (shown.map ConnectionGroup.id).Nodup :=
      (graph_eq runtime rows).2.1.sublist (List.filter_sublist.map _)
    have hperm := ((List.perm_insertionSort (fun a b => laterGroup runtime a b = true) shown).map
      ConnectionGroup.id).nodup_iff.2 hnodup
    exact List.pairwise_map.1 hperm
  refine (hsorted.and hdistinct).imp fun {a b} ⟨hle, hne⟩ => lt_of_le_of_ne hle fun heq => hne ?_
  exact (congrArg (fun p => (ofLex p).2) heq).symm

/-- A cursor leaves the groups below its own. -/
theorem belowCursor_iff (a b : ConnectionGroup) :
    belowCursor ⟨a.activity, a.id⟩ b = true ↔ b.place < a.place := by
  rw [ConnectionGroup.place, ConnectionGroup.place, Prod.Lex.lt_iff]
  simp [belowCursor]

/-- The inbox pages through its groups. -/
theorem inbox_pages (runtime : Runtime) (rows : List GraphRow) :
    Paging.Pages (inboxPage runtime rows) ConnectionGroup.place
      (fun place => encodeCursor ⟨(ofLex place).1, (ofLex place).2⟩) 5
      (inboxGroups runtime rows) := by
  have hpage : ∀ groups : List ConnectionGroup,
      (groups.take 5, if groups.length > 5 then
        (groups.take 5)[4]?.map fun g => encodeCursor ⟨g.activity, g.id⟩ else none) =
      Paging.pageOf ConnectionGroup.place
        (fun place => encodeCursor ⟨(ofLex place).1, (ofLex place).2⟩) 5 groups := by
    intro groups
    simp [Paging.pageOf, ConnectionGroup.place]
  constructor
  · rw [← hpage]
    simp [inboxPage, parseCursor]
  · intro g hg
    obtain ⟨hgraph, hshown⟩ := mem_inboxGroups.1 hg
    obtain ⟨ms, hms⟩ := activity_mem_instants hgraph hshown
    have hdate : runtime.isDate g.activity = true := hms ▸ runtime.isDate_toISOString ms
    have hcursor : parseCursor runtime (some (encodeCursor ⟨g.activity, g.id⟩)) =
        .ok (some ⟨g.activity, g.id⟩) := parseCursor_encodeCursor hdate
    have hfilter : (inboxGroups runtime rows).filter (fun b => belowCursor ⟨g.activity, g.id⟩ b) =
        (inboxGroups runtime rows).filter fun b => b.place < g.place :=
      List.filter_congr fun b _ => by
        rw [Bool.eq_iff_iff, belowCursor_iff, decide_eq_true_iff]
    rw [← hpage, ← hfilter]
    change inboxPage runtime rows (some (encodeCursor ⟨g.activity, g.id⟩)) = _
    rw [inboxPage, hcursor]
    rfl

end Order

/-- Following the inbox from page to page neither skips nor repeats. Where the comparison of the
locale agrees with the order of code units on instants and on the names of the groups, whoever
follows the cursors until there is none has seen each group that has a representative once, the
latest activity first. -/
theorem connectionInbox_enumerates {μ : Type} (runtime : Runtime) (loader : MessageLoader μ)
    (rows : List GraphRow) (hinstants : AgreesOn runtime.localeCompare (instants runtime))
    (hids : AgreesOn runtime.localeCompare (groupIds runtime rows)) :
    ∃ (groups order : List ConnectionGroup),
      groupConnectionMessages runtime.localeCompare (rows.map (graphNode runtime)) = some groups ∧
      order.Perm (groups.filter fun g => g.representative.isSome) ∧
      (order.map ConnectionGroup.id).Nodup ∧
      order.Pairwise (fun a b => b.activity ≤ a.activity) ∧
      ∀ asks, order.length < asks →
        Paging.follow (connectionInbox runtime loader rows) asks none =
          some (.ok (order.filterMap fun g => g.representative.map (inboxEntry loader g))) := by
  obtain ⟨hgroups, hnodup, -⟩ := graph_eq runtime rows
  have hperm : (inboxGroups runtime rows).Perm
      ((graph runtime rows).filter fun g => g.representative.isSome) := List.perm_insertionSort _ _
  have hdescending := inboxGroups_descending hinstants hids
  refine ⟨graph runtime rows, inboxGroups runtime rows, hgroups, hperm, ?_, ?_, fun asks hasks => ?_⟩
  · exact (hperm.map _).nodup_iff.2 (hnodup.sublist (List.filter_sublist.map _))
  · refine hdescending.imp fun {a b} hlt => ?_
    rcases Prod.Lex.lt_iff.1 hlt with h | ⟨h, -⟩
    · exact le_of_lt h
    · exact le_of_eq h
  · have hfollow := (inbox_pages runtime rows).follow_eq (by decide) hdescending hasks
    have hshown := Paging.follow_map (fun g => g.representative.map (inboxEntry loader g))
      (inboxPage runtime rows) asks none
    rw [hfollow] at hshown
    exact hshown

/-- A runtime whose locale has the order of code units, at the first instant of all. -/
private def plainRuntime : Runtime where
  localeCompare a b := if a < b then .lt else if a = b then .eq else .gt
  toISOString _ := js "1970-01-01T00:00:00.000Z"
  isDate text := text = js "1970-01-01T00:00:00.000Z"
  isDate_toISOString _ := decide_eq_true rfl
  bufferFrom text := (Codec.decodeBase64Url (characters text)).getD []
  bufferFrom_encode bytes := by
    rw [characters_js, String.toList_ofList, Codec.decode_encodeBase64Url, Option.getD_some]
  bufferToString bytes := ((Cbor.fromUtf8 bytes).map js).getD []
  bufferToString_text text := by
    rw [Cbor.fromUtf8_eq_some.2 rfl, Option.map_some, Option.getD_some]

theorem plainRuntime_agrees (strings : Set JsString) :
    AgreesOn plainRuntime.localeCompare strings := by
  intro a _ b _
  by_cases hlt : a < b
  · simp [plainRuntime, hlt, hlt.ne]
  · by_cases heq : a = b <;> simp [plainRuntime, hlt, heq]

/-- A message of a sender, received at the first instant. -/
private def received (sender : String) : GraphRow :=
  ⟨js sender, js "m", js "me", false, true, false, 0, none, none, none, none, none⟩

theorem connectionInbox_enumerates_six :
    ∃ order : List ConnectionGroup, order.length = 6 ∧
      Paging.follow (connectionInbox plainRuntime ⟨fun _ => (), fun _ _ => ()⟩
        (["a", "b", "c", "d", "e", "f"].map received)) 7 none =
          some (.ok (order.filterMap fun g => g.representative.map
            (inboxEntry ⟨fun _ => (), fun _ _ => ()⟩ g))) := by
  let rows := ["a", "b", "c", "d", "e", "f"].map received
  obtain ⟨groups, order, hgroups, hperm, -, -, hfollow⟩ := connectionInbox_enumerates plainRuntime
    ⟨fun _ => (), fun _ _ => ()⟩ rows (plainRuntime_agrees _) (plainRuntime_agrees _)
  have hsix : ((groupConnectionMessages plainRuntime.localeCompare
      (rows.map (graphNode plainRuntime))).map fun groups =>
        (groups.filter fun g => g.representative.isSome).length) = some 6 := by
    decide +kernel
  have hlength : order.length = 6 := by
    rw [hgroups, Option.map_some, Option.some.injEq] at hsix
    exact hperm.length_eq.trans hsix
  exact ⟨order, hlength, hfollow 7 (by omega)⟩

end HailProto.Account
