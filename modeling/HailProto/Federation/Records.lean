import HailProto.Core.Epochs
import HailProto.Core.Transition
import HailProto.Federation.Outcomes

/-!
# The coordinator's tables record a ledger

What a pair is for is a ledger of connections: each is opened once and closed before the next.
The coordinator's row, events and tombstones of a pair record such a ledger, and a request
either leaves it or extends it by one epoch.
-/

namespace HailProto.Federation

open Server
open Messages (PairState)

/-- What stands at an epoch of a ledger of connections. -/
def standingAt (l : Ledger Uuid) : Nat → Standing
  | 0 => .start
  | n + 1 =>
    match l.identity (n + 1) with
    | none => .start
    | some id =>
      if n % 2 = 0 then .opened (n + 1) id (Nat.succ_pos n)
      else .closed (n + 1) id (Nat.succ_pos n)

variable {l l' : Ledger Uuid} {n : Nat}

theorem standingAt_connectionId (l : Ledger Uuid) (n : Nat) :
    (standingAt l n).connectionId = l.identity n := by
  cases n with
  | zero => rfl
  | succ n =>
    simp only [standingAt]
    cases l.identity (n + 1) with
    | none => rfl
    | some id => by_cases hn : n % 2 = 0 <;> simp [hn, Standing.opened, Standing.closed]

theorem standingAt_epoch (h : n ≤ l.epoch) : (standingAt l n).epoch = n := by
  cases n with
  | zero => rfl
  | succ n =>
    obtain ⟨id, _, hid⟩ := l.exists_identity (Nat.succ_pos n) h
    simp only [standingAt, hid]
    by_cases hn : n % 2 = 0 <;> simp [hn, Standing.opened, Standing.closed]

/-- Odd epochs are open and even ones closed. -/
theorem standingAt_state (hpos : 0 < n) (h : n ≤ l.epoch) :
    (standingAt l n).state = if n % 2 = 1 then .active else .disconnected := by
  cases n with
  | zero => cases hpos
  | succ n =>
    obtain ⟨id, _, hid⟩ := l.exists_identity (Nat.succ_pos n) h
    simp only [standingAt, hid]
    by_cases hn : n % 2 = 0
    · have hodd : (n + 1) % 2 = 1 := by omega
      rw [if_pos hn, if_pos hodd]
      rfl
    · have heven : ¬ (n + 1) % 2 = 1 := by omega
      rw [if_neg hn, if_neg heven]
      rfl

theorem standingAt_active (hpos : 0 < n) (h : n ≤ l.epoch) :
    (standingAt l n).state = .active ↔ n % 2 = 1 := by
  rw [standingAt_state hpos h]
  by_cases hn : n % 2 = 1 <;> simp [hn]

theorem standingAt_disconnected (hpos : 0 < n) (h : n ≤ l.epoch) :
    (standingAt l n).state = .disconnected ↔ n % 2 = 0 := by
  rw [standingAt_state hpos h]
  by_cases hn : n % 2 = 1
  · simp [hn]
  · simp only [hn, if_false, true_iff]
    omega

/-- A ledger that is not active at its epoch has closed all it opened. -/
theorem even_of_inactive (h : (standingAt l l.epoch).state ≠ .active) : l.epoch % 2 = 0 := by
  by_contra hne
  refine h ((standingAt_active ?_ (le_refl _)).2 ?_)
  · omega
  · omega

/-- What stands at an epoch stays. -/
theorem standingAt_of_extends (h : l.Extends l') (hn : n ≤ l.epoch) :
    standingAt l' n = standingAt l n := by
  cases n with
  | zero => rfl
  | succ n => simp only [standingAt, h.identity hn]

theorem standingAt_extend {id : Uuid} (fresh : id ∉ l.opened)
    (closed : l.epoch = 2 * l.opened.length) :
    standingAt (l.extend id fresh closed) (l.epoch + 1) =
      .opened (l.epoch + 1) id (Nat.succ_pos _) := by
  have heven : l.epoch % 2 = 0 := by omega
  simp only [standingAt, l.identity_extend, heven, if_true]

theorem standingAt_close {id : Uuid} (isOpen : l.epoch + 1 = 2 * l.opened.length)
    (hid : l.identity l.epoch = some id) :
    standingAt (l.close isOpen) (l.epoch + 1) = .closed (l.epoch + 1) id (Nat.succ_pos _) := by
  have hodd : ¬ l.epoch % 2 = 0 := by omega
  simp only [standingAt, l.identity_close, hid, hodd, if_false]

namespace Store

variable {platform : Platform} {s t : Store} {key : PairKey}

/-- The tables of a pair record a ledger. -/
structure Records (s : Store) (key : PairKey) (l : Ledger Uuid) : Prop where
  row : ∀ row, s.pairs.find key = some row → row.toStanding = standingAt l l.epoch
  absent : s.pairs.find key = none → l.epoch = 0
  event : ∀ n event, s.events.find (key, n) = some event →
    0 < n ∧ n ≤ l.epoch ∧ event.toStanding = standingAt l n
  exists_event : ∀ n, 0 < n → n ≤ l.epoch → ∃ event, s.events.find (key, n) = some event
  tombstone : ∀ id, s.closed key id = true → id ∈ l.opened

/-- Another store says of a pair what this one says, or has its row at the start. -/
structure Agrees (s t : Store) (key : PairKey) : Prop where
  row : ∀ row, t.pairs.find key = some row →
    (∃ old, s.pairs.find key = some old ∧ row.toStanding = old.toStanding) ∨
      s.pairs.find key = none ∧ row.toStanding = .start
  present : t.pairs.find key = none → s.pairs.find key = none
  events : ∀ n, t.events.find (key, n) = s.events.find (key, n)
  tombstone : ∀ id, t.closed key id = true → s.closed key id = true ∨
    ∃ row, s.pairs.find key = some row ∧ row.connectionId = some id

theorem Agrees.refl (s : Store) (key : PairKey) : s.Agrees s key :=
  ⟨fun row h => .inl ⟨row, h, rfl⟩, fun h => h, fun _ => rfl, fun _ h => .inl h⟩

/-- Tables that say the same record the same ledger. -/
theorem Records.of_agrees (h : s.Records key l) (hagrees : s.Agrees t key) : t.Records key l where
  row := by
    intro row hrow
    rcases hagrees.row row hrow with ⟨old, hold, hsame⟩ | ⟨hnone, hstart⟩
    · rw [hsame, h.row old hold]
    · rw [hstart, h.absent hnone]
      rfl
  absent := fun hnone => h.absent (hagrees.present hnone)
  event := by
    intro n event hevent
    rw [hagrees.events] at hevent
    exact h.event n event hevent
  exists_event := by
    intro n hpos hn
    rw [hagrees.events]
    exact h.exists_event n hpos hn
  tombstone := by
    intro id hid
    rcases hagrees.tombstone id hid with hclosed | ⟨row, hrow, hconnection⟩
    · exact h.tombstone id hclosed
    · have hidentity : l.identity l.epoch = some id := by
        rw [← standingAt_connectionId, ← h.row row hrow, hconnection]
      have hpos : 0 < l.epoch := by
        have := Standing.epoch_pos hconnection
        rw [h.row row hrow, standingAt_epoch (le_refl _)] at this
        exact this
      obtain ⟨a, ha, ha'⟩ := l.exists_identity hpos (le_refl _)
      rw [hidentity, Option.some.injEq] at ha'
      rw [ha']
      exact ha

theorem agrees_of_pair {tx : Transaction} {owner : ConnectionOwner} {peer : Did}
    {address : Option String} {row : Pair}
    (h : s.pair tx owner peer address = .ok (t, row)) : s.Agrees t key := by
  obtain ⟨hrow, _, _, rfl | ⟨_, hnone, hstart, _, rfl⟩⟩ := pair_ok h
  · exact .refl _ _
  · refine ⟨?_, ?_, fun _ => rfl, fun _ hid => .inl hid⟩
    · intro found hfound
      rw [Table.find_insert] at hfound
      by_cases hk : key = (owner.id, peer)
      · rw [if_pos hk, Option.some.injEq] at hfound
        subst hk hfound
        exact .inr ⟨hnone, hstart⟩
      · rw [if_neg hk] at hfound
        exact .inl ⟨found, hfound, rfl⟩
    · intro hmissing
      rw [Table.find_insert] at hmissing
      by_cases hk : key = (owner.id, peer)
      · rw [if_pos hk] at hmissing
        cases hmissing
      · rwa [if_neg hk] at hmissing

/-- An event of another pair and the application of its snapshot say nothing of this one. -/
theorem agrees_of_advanced {tx : Transaction} {k : PairKey} {row : Pair}
    {request snapshot : Control} {event : Event}
    (h : Advanced tx s t k row request snapshot event) (hk : key ≠ k) : s.Agrees t key := by
  obtain ⟨u, hpairs, htombstones, happlied⟩ := h.applied
  refine ⟨?_, ?_, ?_, ?_⟩
  · intro found hfound
    rw [happlied.frames.pairs key hk, hpairs] at hfound
    exact .inl ⟨found, hfound, rfl⟩
  · intro hnone
    rwa [happlied.frames.pairs key hk, hpairs] at hnone
  · intro n
    rw [h.events, Table.find_insert_of_ne]
    exact fun he => hk (congrArg Prod.fst he)
  · intro id hid
    rw [closed, happlied.frames.tombstones (key, id) hk, htombstones] at hid
    exact .inl hid

/-- A new event and the row it leaves extend what the tables record. -/
theorem Records.advance {tx : Transaction} {row row' : Pair} {request snapshot : Control}
    {event : Event} (h : s.Records key l)
    (hadvanced : Advanced tx s t key row request snapshot event) (hextends : l.Extends l')
    (hepoch : l'.epoch = l.epoch + 1)
    (hsnapshot : snapshot.toStanding = standingAt l' (l.epoch + 1))
    (hrow' : t.pairs.find key = some row') (hstanding : row'.toStanding = snapshot.toStanding)
    (hopened : ∀ id, snapshot.connectionId = some id → id ∈ l'.opened) : t.Records key l' where
  row := by
    intro found hfound
    rw [hrow', Option.some.injEq] at hfound
    rw [← hfound, hstanding, hsnapshot, hepoch]
  absent := by
    intro hnone
    rw [hrow'] at hnone
    cases hnone
  event := by
    intro n found hfound
    have hat : snapshot.epoch = l.epoch + 1 := by
      rw [hsnapshot, standingAt_epoch (by omega)]
    rw [hadvanced.events, Table.find_insert, hat] at hfound
    by_cases hn : (key, n) = (key, l.epoch + 1)
    · rw [if_pos hn, Option.some.injEq] at hfound
      have hn' : n = l.epoch + 1 := congrArg Prod.snd hn
      refine ⟨by omega, by omega, ?_⟩
      rw [← hfound, hadvanced.event_eq, hn', hsnapshot]
    · rw [if_neg hn] at hfound
      obtain ⟨hpos, hle, hsame⟩ := h.event n found hfound
      refine ⟨hpos, by omega, ?_⟩
      rw [hsame, standingAt_of_extends hextends hle]
  exists_event := by
    intro n hpos hn
    have hat : snapshot.epoch = l.epoch + 1 := by
      rw [hsnapshot, standingAt_epoch (by omega)]
    rw [hadvanced.events, Table.find_insert, hat]
    by_cases hlast : (key, n) = (key, l.epoch + 1)
    · rw [if_pos hlast]
      exact ⟨_, rfl⟩
    · rw [if_neg hlast]
      have hne : n ≠ l.epoch + 1 := fun he => hlast (by rw [he])
      exact h.exists_event n hpos (by omega)
  tombstone := by
    intro id hid
    obtain ⟨u, _, htombstones, happlied⟩ := hadvanced.applied
    rw [closed, happlied.tombstones, htombstones] at hid
    by_cases hclosing : snapshot.state = .disconnected ∧ (key, id).1 = key ∧
        snapshot.connectionId = some (key, id).2
    · exact hopened id hclosing.2.2
    · rw [if_neg hclosing] at hid
      exact hextends.opened.subset (h.tombstone id hid)

/-- A connection no event names is not in the ledger. -/
theorem Records.not_mem_opened (h : s.Records key l) {id : Uuid}
    (hfresh : ∀ k event, s.events.find k = some event → event.connectionId ≠ some id) :
    id ∉ l.opened := by
  intro hmem
  obtain ⟨n, hodd, hn, hid⟩ := l.exists_epoch hmem
  obtain ⟨event, hevent⟩ := h.exists_event n (by omega) hn
  obtain ⟨_, _, hsame⟩ := h.event n event hevent
  refine hfresh _ event hevent ?_
  rw [hsame, standingAt_connectionId, hid]

/-- Opening a connection extends the ledger by it. -/
theorem Records.opens {call : ConnectCall} {v : Verified} {row : Pair} {event : Event}
    (h : s.Records call.key l) (hrow : s.pairs.find call.key = some row)
    (hopens : s.Opens t call v row event)
    (hfresh : ∀ k e, s.events.find k = some e → e.connectionId ≠ some call.connectionId) :
    ∃ fresh closed, t.Records call.key (l.extend call.connectionId fresh closed) ∧
      event.toStanding = standingAt (l.extend call.connectionId fresh closed) (l.epoch + 1) ∧
      row.toStanding = standingAt l l.epoch := by
  have hsame := h.row row hrow
  have hepoch : row.epoch = l.epoch := by rw [hsame, standingAt_epoch (le_refl _)]
  have heven : l.epoch % 2 = 0 := even_of_inactive (by rw [← hsame]; exact hopens.inactive)
  have fresh := h.not_mem_opened hfresh
  have closed := l.closed_iff.1 heven
  have hsnapshot : (ConnectCall.opening call row).toStanding =
      standingAt (l.extend call.connectionId fresh closed) (l.epoch + 1) := by
    rw [standingAt_extend]
    exact Standing.ext (congrArg (· + 1) hepoch) rfl rfl
  obtain ⟨u, hpairs, htombstones, happlied⟩ := hopens.advanced.applied
  obtain ⟨row', hrow', _, hadopted, _⟩ := happlied.row
  have hunclosed : t.closed call.key call.connectionId = false := by
    rw [Bool.eq_false_iff]
    intro hclosed
    rw [Store.closed, happlied.tombstones, if_neg, htombstones] at hclosed
    · exact fresh (h.tombstone _ hclosed)
    · rintro ⟨hstate, _⟩
      cases hstate
  have hstanding : row'.toStanding = (ConnectCall.opening call row).toStanding := by
    rw [hadopted, Pair.adopted, if_neg]
    rintro (hnone | hbehind | ⟨_, hterminal⟩)
    · cases hnone
    · exact absurd hbehind (Nat.not_lt.2 (Nat.le_succ _))
    · have : t.closed call.key call.connectionId = true := hterminal
      rw [hunclosed] at this
      cases this
  refine ⟨fresh, closed, ?_, ?_, hsame⟩
  · refine h.advance hopens.advanced (l.extends_extend _ fresh closed) rfl hsnapshot hrow'
      hstanding ?_
    intro id hid
    have : call.connectionId = id := Option.some.inj hid
    rw [← this]
    exact List.mem_append_right _ (List.mem_singleton_self _)
  · rw [hopens.advanced.event_eq, hsnapshot]

/-- Closing the current connection extends the ledger by its closing. -/
theorem Records.closes {call : DisconnectCall} {row : Pair} {id : Uuid} {event : Event}
    (h : s.Records call.key l) (hrow : s.pairs.find call.key = some row)
    (hcloses : s.Closes t call row id event) :
    ∃ isOpen, t.Records call.key (l.close isOpen) ∧ l.identity l.epoch = some id ∧
      event.toStanding = standingAt (l.close isOpen) (l.epoch + 1) := by
  have hsame := h.row row hrow
  have hepoch : row.epoch = l.epoch := by rw [hsame, standingAt_epoch (le_refl _)]
  have hid : l.identity l.epoch = some id := by
    rw [← standingAt_connectionId, ← hsame, hcloses.current]
  have hpos : 0 < l.epoch := by
    rw [← hepoch]
    exact Standing.epoch_pos hcloses.current
  -- an even epoch already has the event that closed it
  have hodd : l.epoch % 2 = 1 := by
    by_contra heven
    obtain ⟨last, hlast⟩ := h.exists_event l.epoch hpos (le_refl _)
    obtain ⟨_, _, hstands⟩ := h.event _ _ hlast
    refine closingEvent_eq_none hcloses.unclosed hlast ?_ ?_
    · rw [hstands, standingAt_disconnected hpos (le_refl _)]
      omega
    · rw [hstands, standingAt_connectionId, hid]
  have isOpen := l.open_iff.1 hodd
  have hsnapshot : (DisconnectCall.closing call row id).toStanding =
      standingAt (l.close isOpen) (l.epoch + 1) := by
    rw [standingAt_close isOpen hid]
    exact Standing.ext (congrArg (· + 1) hepoch) rfl rfl
  obtain ⟨u, _, _, happlied⟩ := hcloses.advanced.applied
  obtain ⟨row', hrow', _, hadopted, _⟩ := happlied.row
  have hstanding : row'.toStanding = (DisconnectCall.closing call row id).toStanding := by
    rw [hadopted, Pair.adopted, if_neg]
    rintro (hnone | hbehind | ⟨hactive, _⟩)
    · cases hnone
    · exact absurd hbehind (Nat.not_lt.2 (Nat.le_succ _))
    · cases hactive
  refine ⟨isOpen, ?_, hid, ?_⟩
  · refine h.advance hcloses.advanced (l.extends_close isOpen) rfl hsnapshot hrow'
      hstanding ?_
    intro id' hid'
    have hsameId : id = id' := Option.some.inj hid'
    obtain ⟨a, ha, ha'⟩ := l.exists_identity hpos (le_refl _)
    rw [hid, Option.some.injEq] at ha'
    rw [← hsameId, ha']
    exact ha
  · rw [hcloses.advanced.event_eq, hsnapshot]

/-- A connect request leaves the ledger of a pair or opens a connection in it. -/
theorem Records.connect {call : ConnectCall} {event : Event} (h : s.Records key l)
    (houtcome : ConnectOutcome platform s call t event)
    (hfresh : ∀ k e, s.events.find k = some e → e.connectionId ≠ some call.connectionId) :
    ∃ l', l.Extends l' ∧ t.Records key l' := by
  cases houtcome with
  | prior _ _ _ _ _ => exact ⟨l, .refl l, h⟩
  | raced _ hpair _ _ _ _ _ _ => exact ⟨l, .refl l, h.of_agrees (agrees_of_pair hpair)⟩
  | @settled v admission u w t row attempt epoch event address _ hpair _ _ _ hevent hsettles =>
    obtain ⟨_, outbox, rfl⟩ := hsettles
    have hu := h.of_agrees (agrees_of_pair hpair)
    obtain ⟨hrow, _⟩ := pair_ok hpair
    -- the result and its delivery do not touch the pair's tables
    have hafter : ∀ l', w.Records key l' → Records { w with
        results := w.results.insert call.request.requestId
          ⟨call.key, .connect, call.requestBytes, platform.sha256 call.bytes,
            (call.key, epoch)⟩
        outbox := outbox } key l' :=
      fun l' hw => ⟨hw.row, hw.absent, hw.event, hw.exists_event, hw.tombstone⟩
    rcases hevent with ⟨rfl, _⟩ | ⟨_, hopens⟩
    · exact ⟨l, .refl l, hafter l hu⟩
    · by_cases hk : key = call.key
      · subst hk
        have hfresh' : ∀ k e, u.events.find k = some e →
            e.connectionId ≠ some call.connectionId := by
          intro k e he
          rw [(pair_frames hpair).events] at he
          exact hfresh k e he
        obtain ⟨fresh, closed, hw, _⟩ := hu.opens hrow hopens hfresh'
        exact ⟨_, l.extends_extend _ fresh closed, hafter _ hw⟩
      · exact ⟨l, .refl l, hafter l (hu.of_agrees (agrees_of_advanced hopens.advanced hk))⟩

/-- A disconnect request leaves the ledger of a pair or closes its connection. -/
theorem Records.disconnect {call : DisconnectCall} {event : Event} (h : s.Records key l)
    (houtcome : DisconnectOutcome platform s call t event) : ∃ l', l.Extends l' ∧ t.Records key l' := by
  cases houtcome with
  | prior _ _ _ _ => exact ⟨l, .refl l, h⟩
  | @settled w t row id epoch event hrow _ _ _ hevent _ ht =>
    have hafter : ∀ l', w.Records key l' → t.Records key l' := by
      rw [ht]
      exact fun l' hw => ⟨hw.row, hw.absent, hw.event, hw.exists_event, hw.tombstone⟩
    rcases hevent with ⟨rfl, _⟩ | ⟨_, hcloses⟩
    · exact ⟨l, .refl l, hafter l h⟩
    · by_cases hk : key = call.key
      · subst hk
        obtain ⟨isOpen, hw, _⟩ := h.closes hrow hcloses
        exact ⟨_, l.extends_close isOpen, hafter _ hw⟩
      · exact ⟨l, .refl l, hafter l (h.of_agrees (agrees_of_advanced hcloses.advanced hk))⟩

/-- What a local disconnect left. -/
theorem disconnect_ok {call : LocalDisconnect} (h : s.disconnect call = .ok t) :
    ∃ row row', s.pairs.find call.key = some row ∧ call.key.1 = call.owner.id ∧
      row.connectionId = some call.connectionId ∧ row.state = .active ∧ row.Advances row' ∧
      row'.toStanding = row.toStanding ∧ row'.cutoffAt = some call.tx.cutoffClock ∧
      s.disconnects.find call.operationId = none ∧
      t = { s with
        pairs := s.pairs.insert call.key row'
        tombstones := s.tombstones.insertNew (call.key, call.connectionId)
          ⟨row.epoch, call.tx.clock⟩
        disconnects := s.disconnects.insert call.operationId
          ⟨call.key, call.connectionId, row.epoch, none⟩ } := by
  simp only [Store.disconnect, bind_eq_ok, guard_eq_ok, not_or, not_not, ne_eq, Bool.not_eq_true,
    Option.isSome_eq_false_iff, Option.isNone_iff_eq_none, Except.ok.injEq] at h
  obtain ⟨row, hrow, ⟨hid, hactive⟩, u, hupdate, hfree, rfl⟩ := h
  have hfound : s.pairs.find call.key = some row ∧ call.key.1 = call.owner.id := by
    unfold pairById at hrow
    cases hfind : s.pairs.find call.key with
    | none => simp [hfind] at hrow
    | some found =>
      simp only [hfind, guard_eq_ok, not_or, not_not, ne_eq, Except.ok.injEq] at hrow
      obtain ⟨⟨howner, _⟩, rfl⟩ := hrow
      exact ⟨rfl, howner⟩
  obtain ⟨rfl, hepoch, hcutoff, _⟩ := updatePair_ok (by exact hfound.1) hupdate
  exact ⟨row, { row with cutoffAt := some call.tx.cutoffClock }, hfound.1, hfound.2, hid, hactive,
    ⟨rfl, rfl, rfl, hepoch, hcutoff⟩, rfl, rfl, hfree, rfl⟩

/-- A local disconnect leaves the ledger. -/
theorem agrees_of_disconnect {call : LocalDisconnect} (h : s.disconnect call = .ok t) :
    s.Agrees t key := by
  obtain ⟨row, row', hrow, _, hid, _, _, hsame, _, _, rfl⟩ := disconnect_ok h
  refine ⟨?_, ?_, fun _ => rfl, ?_⟩
  · intro found hfound
    rw [Table.find_insert] at hfound
    by_cases hk : key = call.key
    · rw [if_pos hk, Option.some.injEq] at hfound
      exact .inl ⟨row, by rw [hk, hrow], by rw [← hfound, hsame]⟩
    · rw [if_neg hk] at hfound
      exact .inl ⟨found, hfound, rfl⟩
  · intro hnone
    rw [Table.find_insert] at hnone
    by_cases hk : key = call.key
    · rw [if_pos hk] at hnone
      cases hnone
    · rwa [if_neg hk] at hnone
  · intro id hclosed
    rw [closed, Table.find_insertNew] at hclosed
    by_cases hk : (key, id) = (call.key, call.connectionId)
    · obtain ⟨rfl, rfl⟩ := Prod.mk.inj hk
      exact .inr ⟨row, hrow, hid⟩
    · rw [if_neg hk] at hclosed
      exact .inl hclosed

end Store

end HailProto.Federation
