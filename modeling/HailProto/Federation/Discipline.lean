import HailProto.Federation.Records

/-!
# The discipline of coordinator epochs

Whatever requests reach a coordinator, the events of a pair are the epochs of a ledger, the row
is the last of them, and a request is always answered from the event it was first answered
from.
-/

namespace HailProto.Federation

open Server

/-- What happens at the coordinator: requests, local disconnects, and consents its accounts
retain. -/
inductive CoordinatorEvent
  | connect (call : ConnectCall)
  | disconnect (call : DisconnectCall)
  | localDisconnect (call : LocalDisconnect)
  | retain (accountId id : Uuid) (attempt : Attempt)

section

variable (platform : Platform)

/-- The store a successful event leaves; a request that raises leaves none. -/
def CoordinatorEvent.perform (s : Store) : CoordinatorEvent → Except Failure Store
  | .connect call => (s.coordinatorConnect platform call).map Prod.fst
  | .disconnect call => (s.coordinatorDisconnect platform call).map Prod.fst
  | .localDisconnect call => s.disconnect call
  | .retain accountId id attempt =>
    .ok { s with attempts := s.attempts.insertNew (accountId, id) attempt }

/-- One event; a transaction that raises is rolled back. -/
def coordinatorStep (s : Store) (e : CoordinatorEvent) : Option Store :=
  match e.perform platform s with
  | .ok t => some t
  | .error _ => some s

/-- `uuidV7()` does not repeat: the identifier drawn for a new connection names no event yet. -/
def CoordinatorEvent.Fresh (s : Store) : CoordinatorEvent → Prop
  | .connect call =>
    ∀ k event, s.events.find k = some event → event.connectionId ≠ some call.connectionId
  | _ => True

/-- A pair with no history: no row yet or one at `(0, empty, null)`. -/
structure Store.Unused (s : Store) (key : PairKey) : Prop where
  row : ∀ row, s.pairs.find key = some row → row.toStanding = .start
  events : ∀ n, s.events.find (key, n) = none
  tombstones : ∀ id, s.closed key id = false

/-- The events of a pair up to an epoch, and its row. -/
structure Store.Disciplined (s : Store) (key : PairKey) (n : Nat) : Prop where
  /-- The stored epochs are exactly `1..n`. -/
  epochs : ∀ e, (∃ event, s.events.find (key, e) = some event) ↔ 1 ≤ e ∧ e ≤ n
  /-- An event's epoch is the one it is stored under. -/
  epoch : ∀ e event, s.events.find (key, e) = some event → event.epoch = e
  /-- Odd epochs are active, with a connection that no earlier epoch has. -/
  odd : ∀ e event, s.events.find (key, e) = some event → e % 2 = 1 →
    event.state = .active ∧ ∀ e' event', s.events.find (key, e') = some event' → e' < e →
      event'.connectionId ≠ event.connectionId
  /-- Even epochs are disconnected, with the connection of the epoch before. -/
  even : ∀ e event, s.events.find (key, e) = some event → e % 2 = 0 →
    event.state = .disconnected ∧ ∃ event', s.events.find (key, e - 1) = some event' ∧
      event'.connectionId = event.connectionId
  /-- The row is the last event, or stands at the start when there is none. -/
  row : ∀ row, s.pairs.find key = some row →
    (n = 0 ∧ row.toStanding = .start) ∨
      ∃ event, s.events.find (key, n) = some event ∧ row.toStanding = event.toStanding
  /-- A connection is closed by at most one event. -/
  closed_once : ∀ e e' event event', s.events.find (key, e) = some event →
    s.events.find (key, e') = some event' → event.state = .disconnected →
    event'.state = .disconnected → event.connectionId = event'.connectionId → e = e'

namespace Store

variable {platform} {s t : Store} {key : PairKey} {l : Ledger Uuid}

/-- Tables that record a ledger are disciplined up to its epoch. -/
theorem Records.disciplined (h : s.Records key l) : s.Disciplined key l.epoch where
  epochs := by
    intro e
    constructor
    · rintro ⟨event, hevent⟩
      obtain ⟨hpos, hle, _⟩ := h.event e event hevent
      exact ⟨hpos, hle⟩
    · rintro ⟨hpos, hle⟩
      exact h.exists_event e hpos hle
  epoch := by
    intro e event hevent
    obtain ⟨_, hle, hsame⟩ := h.event e event hevent
    rw [hsame, standingAt_epoch hle]
  odd := by
    intro e event hevent hodd
    obtain ⟨hpos, hle, hsame⟩ := h.event e event hevent
    refine ⟨by rw [hsame, standingAt_active hpos hle]; exact hodd, ?_⟩
    intro e' event' hevent' hlt heq
    obtain ⟨hpos', hle', hsame'⟩ := h.event e' event' hevent'
    obtain ⟨id, _, hid⟩ := l.exists_identity hpos hle
    rw [hsame, hsame', standingAt_connectionId, standingAt_connectionId, hid] at heq
    -- an earlier epoch with the same connection would be its opening or its closing
    have := l.identity_inj heq hid
    omega
  even := by
    intro e event hevent heven
    obtain ⟨hpos, hle, hsame⟩ := h.event e event hevent
    refine ⟨by rw [hsame, standingAt_disconnected hpos hle]; exact heven, ?_⟩
    obtain ⟨event', hevent'⟩ := h.exists_event (e - 1) (by omega) (by omega)
    obtain ⟨_, _, hsame'⟩ := h.event _ event' hevent'
    refine ⟨event', hevent', ?_⟩
    rw [hsame, hsame', standingAt_connectionId, standingAt_connectionId,
      ← l.identity_even (n := e - 1) (by omega), Nat.sub_add_cancel hpos]
  row := by
    intro row hrow
    have hsame := h.row row hrow
    rcases Nat.eq_zero_or_pos l.epoch with hzero | hpos
    · left
      refine ⟨hzero, ?_⟩
      rw [hsame, hzero]
      rfl
    · right
      obtain ⟨event, hevent⟩ := h.exists_event l.epoch hpos (le_refl _)
      obtain ⟨_, _, hstands⟩ := h.event _ event hevent
      exact ⟨event, hevent, by rw [hsame, hstands]⟩
  closed_once := by
    intro e e' event event' hevent hevent' hstate hstate' heq
    obtain ⟨hpos, hle, hsame⟩ := h.event e event hevent
    obtain ⟨hpos', hle', hsame'⟩ := h.event e' event' hevent'
    obtain ⟨id, _, hid⟩ := l.exists_identity hpos hle
    rw [hsame, standingAt_disconnected hpos hle] at hstate
    rw [hsame', standingAt_disconnected hpos' hle'] at hstate'
    rw [hsame, hsame', standingAt_connectionId, standingAt_connectionId, hid] at heq
    exact l.epoch_eq hid heq.symm (by omega)

theorem Unused.records (h : s.Unused key) : s.Records key .empty where
  row := h.row
  absent := fun _ => rfl
  event := by
    intro n event hevent
    rw [h.events] at hevent
    cases hevent
  exists_event := by
    intro n hpos hn
    exact absurd hn (Nat.not_le.2 hpos)
  tombstone := by
    intro id hid
    rw [h.tombstones] at hid
    cases hid

theorem perform_connect_ok {call : ConnectCall}
    (h : (CoordinatorEvent.connect call).perform platform s = .ok t) :
    ∃ answer, s.coordinatorConnect platform call = .ok (t, answer) := by
  obtain ⟨⟨t', answer⟩, hcall, rfl⟩ := map_eq_ok.1 h
  exact ⟨answer, hcall⟩

theorem perform_disconnect_ok {call : DisconnectCall}
    (h : (CoordinatorEvent.disconnect call).perform platform s = .ok t) :
    ∃ answer, s.coordinatorDisconnect platform call = .ok (t, answer) := by
  obtain ⟨⟨t', answer⟩, hcall, rfl⟩ := map_eq_ok.1 h
  exact ⟨answer, hcall⟩

/-- An event keeps a pair's tables the record of a ledger. -/
theorem Records.perform {e : CoordinatorEvent} (h : s.Records key l) (hfresh : e.Fresh s)
    (hperform : e.perform platform s = .ok t) : ∃ l', l.Extends l' ∧ t.Records key l' := by
  cases e with
  | connect call =>
    obtain ⟨answer, hcall⟩ := perform_connect_ok hperform
    obtain ⟨event, houtcome, _⟩ := coordinatorConnect_ok hcall
    exact h.connect houtcome hfresh
  | disconnect call =>
    obtain ⟨answer, hcall⟩ := perform_disconnect_ok hperform
    obtain ⟨event, houtcome, _⟩ := coordinatorDisconnect_ok hcall
    exact h.disconnect houtcome
  | localDisconnect call => exact ⟨l, .refl l, h.of_agrees (agrees_of_disconnect hperform)⟩
  | retain accountId id attempt =>
    cases hperform
    exact ⟨l, .refl l, ⟨h.row, h.absent, h.event, h.exists_event, h.tombstone⟩⟩

/-- Every run of a coordinator records a ledger for the pair. -/
theorem reaches_records {start : Store} (hstart : start.Unused key)
    (h : Reaches (coordinatorStep platform) (fun s e => e.Fresh s) start s) :
    ∃ l, s.Records key l := by
  refine h.invariant (I := fun s => ∃ l, Records s key l) ⟨_, hstart.records⟩ ?_
  rintro s t e ⟨l, hl⟩ hfresh hstep
  cases hperform : e.perform platform s with
  | error failure =>
    simp only [coordinatorStep, hperform, Option.some.injEq] at hstep
    exact ⟨l, hstep ▸ hl⟩
  | ok u =>
    simp only [coordinatorStep, hperform, Option.some.injEq] at hstep
    obtain ⟨l', _, hl'⟩ := hl.perform hfresh hperform
    exact ⟨l', hstep ▸ hl'⟩

/-- Rows that are never replaced: results and events. -/
structure Retains (s t : Store) : Prop where
  results : ∀ id row, s.results.find id = some row → t.results.find id = some row
  events : ∀ k event, s.events.find k = some event → t.events.find k = some event

theorem Retains.refl (s : Store) : s.Retains s := ⟨fun _ _ h => h, fun _ _ h => h⟩

theorem Retains.trans {u : Store} (h : s.Retains t) (h' : t.Retains u) : s.Retains u :=
  ⟨fun id row hrow => h'.results id row (h.results id row hrow),
    fun k event hevent => h'.events k event (h.events k event hevent)⟩

theorem retains_of_frames (h : s.Frames t key) : s.Retains t :=
  ⟨fun id row hrow => by rw [h.results]; exact hrow,
    fun k event hevent => by rw [h.events]; exact hevent⟩

theorem retains_of_advanced {tx : Transaction} {row : Pair} {request snapshot : Control}
    {event : Event} (h : Advanced tx s t key row request snapshot event) : s.Retains t where
  results := fun id found hfound => by rw [h.results]; exact hfound
  events := by
    intro k found hfound
    rw [h.events, Table.find_insert_of_ne]
    · exact hfound
    · rintro rfl
      rw [h.free] at hfound
      cases hfound

/-- A new result takes a free identifier. -/
theorem retains_insert_result {id : Uuid} {row : ResultRow} (hfree : s.results.find id = none)
    (hresults : t.results = s.results.insert id row) (hevents : t.events = s.events) :
    s.Retains t where
  results := by
    intro id' found hfound
    rw [hresults, Table.find_insert_of_ne]
    · exact hfound
    · rintro rfl
      rw [hfree] at hfound
      cases hfound
  events := fun k event hevent => by rw [hevents]; exact hevent

/-- The result an accepted request leaves or found, and the event it was answered from. -/
def AnsweredFrom (t : Store) (id : Uuid) (proof : Bytes) (event : Event) : Prop :=
  ∃ row, t.results.find id = some row ∧ row.proofDigest = proof ∧
    t.events.find row.event = some event

theorem ConnectOutcome.retains {call : ConnectCall} {event : Event}
    (h : ConnectOutcome platform s call t event) : s.Retains t := by
  cases h with
  | prior _ _ _ _ _ => exact .refl s
  | raced _ hpair _ _ _ _ _ _ => exact retains_of_frames (pair_frames hpair)
  | settled _ hpair _ _ _ hevent hsettles =>
    obtain ⟨outbox, rfl⟩ := hsettles.store
    refine (retains_of_frames (pair_frames hpair)).trans
      (Retains.trans ?_ (retains_insert_result hsettles.free rfl rfl))
    rcases hevent with ⟨rfl, _⟩ | ⟨_, hopens⟩
    · exact .refl _
    · exact retains_of_advanced hopens.advanced

/-- An accepted connect request is answered from the event of its result. -/
theorem ConnectOutcome.answered {call : ConnectCall} {event : Event}
    (houtcome : ConnectOutcome platform s call t event) :
    t.AnsweredFrom call.request.requestId (platform.sha256 call.bytes) event := by
  cases houtcome with
  | prior hfind _ _ hproof hevent => exact ⟨_, hfind, hproof, hevent⟩
  | raced _ _ _ _ _ hfind hproof hevent => exact ⟨_, hfind, hproof, hevent⟩
  | settled _ _ _ _ _ hevent hsettles =>
    obtain ⟨outbox, rfl⟩ := hsettles.store
    refine ⟨_, Table.find_insert_self _ _ _, rfl, ?_⟩
    rcases hevent with ⟨rfl, rfl, hconverges⟩ | ⟨rfl, hopens⟩
    · exact hconverges.event_eq
    · simp only [hopens.advanced.events]
      exact Table.find_insert_self _ _ _

theorem DisconnectOutcome.retains {call : DisconnectCall} {event : Event}
    (h : DisconnectOutcome platform s call t event) : s.Retains t := by
  cases h with
  | prior _ _ _ _ => exact .refl s
  | settled _ _ _ _ hevent hfree ht =>
    refine Retains.trans ?_ (retains_insert_result hfree (by rw [ht]) (by rw [ht]))
    rcases hevent with ⟨rfl, _⟩ | ⟨_, hcloses⟩
    · exact .refl _
    · exact retains_of_advanced hcloses.advanced

/-- An accepted disconnect request is answered from the event of its result. -/
theorem DisconnectOutcome.answered {call : DisconnectCall} {event : Event}
    (houtcome : DisconnectOutcome platform s call t event) :
    t.AnsweredFrom call.request.requestId call.request.proofHash event := by
  cases houtcome with
  | prior hfind _ hproof hevent => exact ⟨_, hfind, hproof, hevent⟩
  | settled _ _ _ _ hevent _ ht =>
    subst ht
    refine ⟨_, Table.find_insert_self _ _ _, rfl, ?_⟩
    rcases hevent with ⟨rfl, hold⟩ | ⟨rfl, hcloses⟩
    · exact (closingEvent_eq_some hold).1
    · simp only [hcloses.advanced.events]
      exact Table.find_insert_self _ _ _

/-- An event never replaces a result or an event row. -/
theorem perform_retains {e : CoordinatorEvent} (h : e.perform platform s = .ok t) :
    s.Retains t := by
  cases e with
  | connect call =>
    obtain ⟨answer, hcall⟩ := perform_connect_ok h
    obtain ⟨event, houtcome, _⟩ := coordinatorConnect_ok hcall
    exact houtcome.retains
  | disconnect call =>
    obtain ⟨answer, hcall⟩ := perform_disconnect_ok h
    obtain ⟨event, houtcome, _⟩ := coordinatorDisconnect_ok hcall
    exact houtcome.retains
  | localDisconnect call =>
    obtain ⟨_, _, _, _, _, _, _, _, _, _, rfl⟩ := disconnect_ok h
    exact ⟨fun _ _ h => h, fun _ _ h => h⟩
  | retain accountId id attempt =>
    cases h
    exact ⟨fun _ _ h => h, fun _ _ h => h⟩

theorem reaches_retains {allowed : Store → CoordinatorEvent → Prop}
    (h : Reaches (coordinatorStep platform) allowed s t) : s.Retains t := by
  refine h.invariant (I := fun t => s.Retains t) (.refl s) ?_
  intro t u e ht _ hstep
  refine ht.trans ?_
  cases hperform : e.perform platform t with
  | error failure =>
    simp only [coordinatorStep, hperform, Option.some.injEq] at hstep
    exact hstep ▸ .refl t
  | ok w =>
    simp only [coordinatorStep, hperform, Option.some.injEq] at hstep
    exact hstep ▸ perform_retains hperform

/-- A disconnect request that names another connection leaves every pair row alone. -/
theorem coordinatorDisconnect_other {call : DisconnectCall} {answer : Answer} {row : Pair}
    (h : s.coordinatorDisconnect platform call = .ok (t, answer))
    (hrow : s.pairs.find call.key = some row)
    (hother : row.connectionId ≠ call.request.connectionId) : t.pairs = s.pairs := by
  obtain ⟨event, houtcome, _⟩ := coordinatorDisconnect_ok h
  cases houtcome with
  | prior _ _ _ _ => rfl
  | settled hfound _ hid _ hevent _ ht =>
    rw [hrow, Option.some.injEq] at hfound
    subst hfound
    rcases hevent with ⟨rfl, _⟩ | ⟨_, hcloses⟩
    · rw [ht]
    · exact absurd (hcloses.current.trans hid.symm) hother

end Store

/-- The request id and the proof a request is answered under. -/
def CoordinatorEvent.request : CoordinatorEvent → Option (Uuid × Bytes)
  | .connect call => some (call.request.requestId, platform.sha256 call.bytes)
  | .disconnect call => some (call.request.requestId, call.request.proofHash)
  | _ => none

/-- The coordinator accepts a request and answers it. -/
def CoordinatorEvent.Accepted (s : Store) (e : CoordinatorEvent) (t : Store) (answer : Answer) :
    Prop :=
  match e with
  | .connect call => s.coordinatorConnect platform call = .ok (t, answer)
  | .disconnect call => s.coordinatorDisconnect platform call = .ok (t, answer)
  | _ => False

variable {platform}

theorem CoordinatorEvent.Accepted.answeredFrom {s t : Store} {e : CoordinatorEvent}
    {answer : Answer} {id : Uuid} {proof : Bytes} (h : e.Accepted platform s t answer)
    (hrequest : e.request platform = some (id, proof)) :
    ∃ event, answer.control.toStanding = event.toStanding ∧ t.AnsweredFrom id proof event ∧
      s.Retains t := by
  cases e with
  | connect call =>
    obtain ⟨event, houtcome, hstanding, _⟩ := Store.coordinatorConnect_ok h
    cases hrequest
    exact ⟨event, hstanding, houtcome.answered, houtcome.retains⟩
  | disconnect call =>
    obtain ⟨event, houtcome, hstanding, _⟩ := Store.coordinatorDisconnect_ok h
    cases hrequest
    exact ⟨event, hstanding, houtcome.answered, houtcome.retains⟩
  | localDisconnect call => exact h.elim
  | retain accountId id attempt => exact h.elim

/-- For every run of a coordinator from a pair without history: the events of the pair are the
epochs `1..n` of alternating openings and closings, its row is the last of them, a disconnect of
another connection changes no row, and requests with one id and proof are answered from one
event. -/
theorem coordinator_epochs (platform : Platform) {start s : Store} {key : PairKey}
    (hstart : start.Unused key)
    (h : Reaches (coordinatorStep platform) (fun s e => e.Fresh s) start s) :
    (∃ n, s.Disciplined key n) ∧
    (∀ (call : DisconnectCall) row t, call.key = key → s.pairs.find key = some row →
      row.connectionId ≠ call.request.connectionId →
      coordinatorStep platform s (.disconnect call) = some t → t.pairs = s.pairs) ∧
    ∀ (e e' : CoordinatorEvent) (id : Uuid) (proof : Bytes) (t u u' : Store)
      (answer answer' : Answer), e.request platform = some (id, proof) →
      e'.request platform = some (id, proof) → e.Accepted platform s t answer →
      Reaches (coordinatorStep platform) (fun s e => e.Fresh s) t u →
      e'.Accepted platform u u' answer' →
      ∃ k event, t.events.find k = some event ∧ u'.events.find k = some event ∧
        answer.control.toStanding = event.toStanding ∧
        answer'.control.toStanding = event.toStanding := by
  refine ⟨?_, ?_, ?_⟩
  · obtain ⟨l, hl⟩ := Store.reaches_records hstart h
    exact ⟨l.epoch, hl.disciplined⟩
  · rintro call row t rfl hrow hother hstep
    cases hcall : s.coordinatorDisconnect platform call with
    | error failure =>
      simp only [coordinatorStep, CoordinatorEvent.perform, hcall, Except.map,
        Option.some.injEq] at hstep
      rw [hstep]
    | ok result =>
      simp only [coordinatorStep, CoordinatorEvent.perform, hcall, Except.map,
        Option.some.injEq] at hstep
      exact hstep ▸ Store.coordinatorDisconnect_other (t := result.1) hcall hrow hother
  · intro e e' id proof t u u' answer answer' hrequest hrequest' haccepted hrun haccepted'
    obtain ⟨event, hstanding, ⟨row, hrow, _, hevent⟩, _⟩ := haccepted.answeredFrom hrequest
    obtain ⟨event', hstanding', ⟨row', hrow', _, hevent'⟩, hretains⟩ :=
      haccepted'.answeredFrom hrequest'
    have hlater := (Store.reaches_retains hrun).trans hretains
    -- results and events stay, so the second answer finds the first one's row
    rw [hlater.results id row hrow, Option.some.injEq] at hrow'
    subst hrow'
    have hsame := hlater.events row.event event hevent
    rw [hevent', Option.some.injEq] at hsame
    subst hsame
    exact ⟨row.event, event', hevent, hevent', hstanding, hstanding'⟩

end

namespace Sample

/-- Alice's provider coordinates; Bob scans her code. -/
def alice : Did := "did:plc:aaaaaaaaaaaaaaaaaaaaaaaa"
def bob : Did := "did:plc:bbbbbbbbbbbbbbbbbbbbbbbb"
def aliceAccount : Uuid := "01954144-0000-7000-8000-0000000000a1"
def aliceBase : String := "https://a.example/hail"
def bobBase : String := "https://b.example/hail"
def connectionId : Uuid := "01954144-0000-7000-8000-0000000000c1"
def invitationId : Uuid := "01954144-0000-7000-8000-0000000000e1"
def requestId : Uuid := "01954144-0000-7000-8000-0000000000f1"
def closingId : Uuid := "01954144-0000-7000-8000-0000000000f2"

/-- A digest that no two inputs share. -/
def sha256 (bytes : Bytes) : Bytes := bytes ++ List.replicate 32 0

def invitation : Invitation :=
  ⟨invitationId, alice, sha256 [9], 1000, some 5000, keyId alice .identity⟩

def confirmation : Confirmation :=
  ⟨requestId, bob, alice, invitationId, sha256 [10], 1990, 2290, keyId bob .identity⟩

def control (operation : ControlOperation) (fromDid toDid : Did) (standing : Standing)
    (requestId : Uuid) (proof : Bytes) (expiresAt : Option Nat) : Control :=
  ⟨standing, operation, fromDid, toDid, requestId, proof, 1995, expiresAt,
    keyId fromDid .messaging⟩

/-- The consent of Bob to Alice's code at the empty pair. -/
def platform : Platform where
  sha256 := sha256
  decodeRecord bytes :=
    if bytes = [1] then some [("invitation", some [10]), ("confirmation", some [11]),
      ("inviterBinding", some [12]), ("scannerBinding", some [13]), ("snapshot", some [14])]
    else if bytes.head? = some 161 then some [("connection_id", none)] else none
  inspectControl bytes :=
    if bytes = [14] then some (control .snapshot alice bob .start requestId (sha256 []) none)
    else if bytes = [15] then
      some (control .admission alice bob .start requestId (sha256 [1]) none)
    else none
  inspectInvitation bytes := if bytes = [10] then some invitation else none
  inspectConfirmation bytes := if bytes = [11] then some confirmation else none
  inspectBinding bytes :=
    if bytes = [12] then some ⟨"alice@a.example", alice, 500, keyId alice .identity⟩
    else if bytes = [13] then some ⟨"bob@b.example", bob, 500, keyId bob .identity⟩ else none
  signatureValid key bytes :=
    decide ((key, bytes) ∈ [("alice-identity", [10]), ("bob-identity", [11]),
      ("alice-identity", [12]), ("bob-identity", [13]), ("alice-messaging", [14]),
      ("alice-messaging", [15])])
  encodeConnection id := 161 :: id.toList.map fun c => UInt8.ofNat c.toNat

def resolve (did : Did) : Except Failure Resolved :=
  if did = alice then .ok ⟨alice, aliceBase, "alice-identity", "alice-messaging"⟩
  else if did = bob then .ok ⟨bob, bobBase, "bob-identity", "bob-messaging"⟩
  else .error .resolver

def reads : Reads := ⟨2000, resolve, fun _ _ _ => .ok ()⟩

/-- A transaction at a second of the clock. -/
def transaction (now : Nat) : Transaction where
  opening := .ok ()
  base := aliceBase
  resolve := resolve
  now := now
  clock := now * Messages.second
  cutoffClock := now * Messages.second
  clock_le := le_rfl
  signing := .ok ()
  handoverBlocked := false
  nativeHistory := false

def owner : ConnectionOwner := ⟨aliceAccount, alice, 1⟩

def key : PairKey := (aliceAccount, bob)

def consent : CoordinatorEvent :=
  .retain aliceAccount requestId
    ⟨key, .admitted, [1], sha256 [1], some [15], none, .admitted, 2290⟩

def connectCall : ConnectCall where
  owner := owner
  peer := bob
  request := control .connect bob alice .start requestId (sha256 [1]) (some 2295)
  distinct := by decide
  routed := by decide
  bytes := [1]
  admissionBytes := [15]
  requestBytes := [16]
  missed := false
  bundleReads := reads
  snapshotReads := reads
  admissionReads := reads
  tx := transaction 2000
  connectionId := connectionId

/-- A disconnect request for one of the pair's connections. -/
def disconnectCall (connectionId : Uuid) : DisconnectCall where
  owner := owner
  peer := bob
  request := control .disconnect bob alice (.opened 1 connectionId Nat.one_pos) closingId
    (sha256 (platform.encodeConnection connectionId)) (some 2295)
  distinct := show bob ≠ alice by decide
  routed := show sortDids bob alice = (alice, bob) by decide
  requestBytes := [17]
  tx := transaction 2100

/-- The coordinator opens a connection and closes it again. -/
def history : List CoordinatorEvent :=
  [consent, .connect connectCall, .disconnect (disconnectCall connectionId)]

end Sample

theorem coordinator_epochs_closed : ∃ s,
    exec (coordinatorStep Sample.platform) ∅ Sample.history = some s ∧
    (s.pairs.find Sample.key).map Pair.toStanding =
      some (.closed 2 Sample.connectionId (by decide)) ∧
    ∃ n, s.Disciplined Sample.key n := by
  have hrun : ((coordinatorStep Sample.platform ∅ Sample.consent).bind fun s₁ =>
      (coordinatorStep Sample.platform s₁ (.connect Sample.connectCall)).bind fun s₂ =>
        (coordinatorStep Sample.platform s₂
          (.disconnect (Sample.disconnectCall Sample.connectionId))).map fun s =>
            (s.pairs.find Sample.key).map Pair.toStanding) =
      some (some (.closed 2 Sample.connectionId (by decide))) := by
    decide +kernel
  simp only [Option.bind_eq_some_iff, Option.map_eq_some_iff] at hrun
  obtain ⟨s₁, hconsent, s₂, hconnect, s, hdisconnect, hrow⟩ := hrun
  have hstart : Store.Unused ∅ Sample.key :=
    { row := by
        intro row hrow
        cases hrow
      events := fun _ => rfl
      tombstones := fun _ => rfl }
  have hfresh : CoordinatorEvent.Fresh s₁ (.connect Sample.connectCall) := by
    cases hconsent
    intro k event hevent
    cases hevent
  have hreached : Reaches (coordinatorStep Sample.platform) (fun s e => e.Fresh s) ∅ s :=
    .next (.disconnect _) (.next (.connect _) (.next Sample.consent .refl trivial hconsent)
      hfresh hconnect) trivial hdisconnect
  refine ⟨s, ?_, Option.map_eq_some_iff.2 hrow, (coordinator_epochs Sample.platform hstart hreached).1⟩
  simp only [Sample.history, exec, hconsent, hconnect, hdisconnect, Option.bind_some]

end HailProto.Federation
