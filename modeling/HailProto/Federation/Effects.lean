import HailProto.Federation.Coordinator

/-!
# What the connection transactions do

One inversion lemma for each function of the tables: what a success says about the arguments
and what it left in the store. Later proofs go through these alone.
-/

namespace HailProto.Federation

open Server
open Messages (PairState)

theorem Standing.epoch_pos {st : Standing} {id : Uuid} (h : st.connectionId = some id) :
    0 < st.epoch := by
  rcases st.shape with ⟨_, hnone, _⟩ | ⟨_, _, hpos⟩
  · rw [h] at hnone
    cases hnone
  · exact hpos

/-- The standing a row has after `apply`. -/
def Pair.adopted (row : Pair) (snapshot : Control) (terminal : Bool) : Standing :=
  if snapshot.connectionId = none ∨ snapshot.epoch < row.epoch ∨
      snapshot.state = .active ∧ terminal = true then row.toStanding
  else snapshot.toStanding

/-- The cutoff of a row does not move backwards and the rest of its identity stays. -/
structure Pair.Advances (old new : Pair) : Prop where
  servingGeneration : new.servingGeneration = old.servingGeneration
  localDid : new.localDid = old.localDid
  peerServiceBase : new.peerServiceBase = old.peerServiceBase
  epoch : old.epoch ≤ new.epoch
  cutoff : ∀ c, old.cutoffAt = some c → ∃ c', new.cutoffAt = some c' ∧ c ≤ c'

theorem Pair.Advances.refl (row : Pair) : row.Advances row :=
  ⟨rfl, rfl, rfl, le_refl _, fun c h => ⟨c, h, le_refl c⟩⟩

theorem Pair.Advances.trans {a b c : Pair} (h : a.Advances b) (h' : b.Advances c) :
    a.Advances c where
  servingGeneration := h'.servingGeneration.trans h.servingGeneration
  localDid := h'.localDid.trans h.localDid
  peerServiceBase := h'.peerServiceBase.trans h.peerServiceBase
  epoch := h.epoch.trans h'.epoch
  cutoff := by
    intro x hx
    obtain ⟨y, hy, hxy⟩ := h.cutoff x hx
    obtain ⟨z, hz, hyz⟩ := h'.cutoff y hy
    exact ⟨z, hz, hxy.trans hyz⟩

/-- What `sign` puts into a payload. -/
theorem sign_ok {tx : Transaction} {owner : ConnectionOwner} {fields : ControlFields}
    {issued : Nat} {control : Control} (h : sign tx owner fields issued = .ok control) :
    control.toStanding = fields.toStanding ∧ control.operation = fields.operation ∧
      control.fromDid = owner.did ∧ control.toDid = fields.toDid ∧
      control.requestId = fields.requestId ∧ control.proofHash = fields.proofHash ∧
      control.issuedAt = issued := by
  simp only [sign, bind_eq_ok, Except.ok.injEq] at h
  obtain ⟨_, _, rfl⟩ := h
  exact ⟨rfl, rfl, rfl, rfl, rfl, rfl, rfl⟩

/-- A snapshot has the standing of its event, else of the row. -/
theorem snapshot_ok {tx : Transaction} {owner : ConnectionOwner} {peer : Did}
    {request control : Control} {event : Option Event} {row : Option Pair}
    (h : snapshot tx owner peer request event row = .ok control) :
    control.toStanding =
        ((event.map Event.toStanding).or (row.map Pair.toStanding)).getD .start ∧
      control.operation = .snapshot ∧ control.fromDid = owner.did ∧ control.toDid = peer ∧
      control.requestId = request.requestId ∧
      control.proofHash = (event.map Event.proofDigest).getD request.proofHash := by
  obtain ⟨hstanding, hoperation, hfrom, hto, hrequest, hproof, _⟩ := sign_ok h
  exact ⟨hstanding, hoperation, hfrom, hto, hrequest, hproof⟩

namespace Store

variable {platform : Platform} {tx : Transaction} {s t : Store} {key : PairKey}

/-- What an update of a pair row left in the store. -/
theorem updatePair_ok {change : Pair → Pair} {old : Pair} (hold : s.pairs.find key = some old)
    (h : s.updatePair tx key change = .ok t) :
    t = { s with pairs := s.pairs.insert key (change old) } ∧ old.epoch ≤ (change old).epoch ∧
      (∀ c, old.cutoffAt = some c → ∃ c', (change old).cutoffAt = some c' ∧ c ≤ c') ∧
      ((change old).state = .active → (change old).toStanding ≠ old.toStanding →
        tx.handoverBlocked = false) := by
  simp only [updatePair, hold, guard_eq_ok, Except.ok.injEq] at h
  obtain ⟨hblocked, _, hhistory, _, rfl⟩ := h
  rw [not_or, not_lt] at hhistory
  refine ⟨rfl, hhistory.1, ?_, ?_⟩
  · intro c hc
    have hcutoff := hhistory.2
    rw [hc] at hcutoff
    cases hnew : (change old).cutoffAt with
    | none => simp [hnew] at hcutoff
    | some c' =>
      refine ⟨c', rfl, ?_⟩
      simpa [hnew] using hcutoff
  · intro hactive hne
    rw [not_and, not_and] at hblocked
    exact Bool.eq_false_iff.2 (hblocked hactive hne)

/-- The row `pair` answers, which is new at the start when there was none. -/
theorem pair_ok {owner : ConnectionOwner} {peer : Did} {address : Option String} {row : Pair}
    (h : s.pair tx owner peer address = .ok (t, row)) :
    t.pairs.find (owner.id, peer) = some row ∧ row.localDid = owner.did ∧
      row.servingGeneration = owner.generation ∧
      ((t = s) ∨ (address.isSome ∧ s.pairs.find (owner.id, peer) = none ∧
        row.toStanding = .start ∧ row.cutoffAt = none ∧
        t = { s with pairs := s.pairs.insert (owner.id, peer) row })) := by
  simp only [pair, bind_eq_ok] at h
  obtain ⟨remote, _, h⟩ := h
  cases hrow : s.pairs.find (owner.id, peer) with
  | some found =>
    simp only [hrow, guard_eq_ok, not_or, not_not, Except.ok.injEq, Prod.mk.injEq] at h
    obtain ⟨⟨hgeneration, hlocal⟩, _, rfl, rfl⟩ := h
    exact ⟨hrow, hlocal, hgeneration, .inl rfl⟩
  | none =>
    cases address with
    | none =>
      rw [hrow] at h
      cases h
    | some address =>
      simp only [hrow, guard_eq_ok, Except.ok.injEq, Prod.mk.injEq] at h
      obtain ⟨_, _, _, rfl, rfl⟩ := h
      exact ⟨Table.find_insert_self _ _ _, rfl, rfl, .inr ⟨rfl, rfl, rfl, rfl, rfl⟩⟩

/-- Without an address `pair` leaves the store alone. -/
theorem pair_none_ok {owner : ConnectionOwner} {peer : Did} {row : Pair}
    (h : s.pair tx owner peer none = .ok (t, row)) :
    t = s ∧ s.pairs.find (owner.id, peer) = some row ∧ row.localDid = owner.did := by
  obtain ⟨hrow, hlocal, _, rfl | ⟨hsome, _⟩⟩ := pair_ok h
  · exact ⟨rfl, hrow, hlocal⟩
  · cases hsome

/-- What a pair transaction never touches, and the rows of other pairs. -/
structure Frames (s t : Store) (key : PairKey) : Prop where
  attempts : t.attempts = s.attempts
  events : t.events = s.events
  results : t.results = s.results
  outbox : t.outbox = s.outbox
  disconnects : t.disconnects = s.disconnects
  pairs : ∀ k, k ≠ key → t.pairs.find k = s.pairs.find k
  tombstones : ∀ k, k.1 ≠ key → t.tombstones.find k = s.tombstones.find k

theorem Frames.refl (s : Store) (key : PairKey) : s.Frames s key :=
  ⟨rfl, rfl, rfl, rfl, rfl, fun _ _ => rfl, fun _ _ => rfl⟩

theorem Frames.trans {u : Store} (h : s.Frames t key) (h' : t.Frames u key) : s.Frames u key where
  attempts := h'.attempts.trans h.attempts
  events := h'.events.trans h.events
  results := h'.results.trans h.results
  outbox := h'.outbox.trans h.outbox
  disconnects := h'.disconnects.trans h.disconnects
  pairs := fun k hk => (h'.pairs k hk).trans (h.pairs k hk)
  tombstones := fun k hk => (h'.tombstones k hk).trans (h.tombstones k hk)

theorem frames_insert_pair (row : Pair) :
    s.Frames { s with pairs := s.pairs.insert key row } key :=
  ⟨rfl, rfl, rfl, rfl, rfl, fun _ hk => Table.find_insert_of_ne _ _ hk, fun _ _ => rfl⟩

theorem pair_frames {owner : ConnectionOwner} {peer : Did} {address : Option String} {row : Pair}
    (h : s.pair tx owner peer address = .ok (t, row)) : s.Frames t (owner.id, peer) := by
  obtain ⟨_, _, _, rfl | ⟨_, _, _, _, rfl⟩⟩ := pair_ok h
  · exact .refl _ _
  · exact frames_insert_pair row

/-- What recording a closing left: the tombstone, and the cutoff when both are due. -/
structure RecordedClosing (tx : Transaction) (s t : Store) (key : PairKey) (row : Pair)
    (snapshot : Control) (connectionId : Uuid) : Prop where
  frames : s.Frames t key
  tombstones : ∀ k, t.tombstones.find k =
    if snapshot.state = .disconnected ∧ k = (key, connectionId) then
      some ((s.tombstones.find k).getD ⟨snapshot.epoch, tx.clock⟩)
    else s.tombstones.find k
  row : ∃ row', t.pairs.find key = some row' ∧ row.Advances row' ∧
    row'.toStanding = row.toStanding ∧
    (snapshot.state = .disconnected → s.closed key connectionId = false →
      row.epoch ≤ snapshot.epoch → row'.cutoffAt = some tx.cutoffClock)

theorem recordClosing_ok {row : Pair} {snapshot : Control} {connectionId : Uuid}
    (hrow : s.pairs.find key = some row)
    (h : s.recordClosing tx key row snapshot connectionId = .ok t) :
    RecordedClosing tx s t key row snapshot connectionId := by
  unfold recordClosing at h
  by_cases hclose : snapshot.state = .disconnected ∧ (!s.closed key connectionId) = true
  · rw [if_pos hclose] at h
    have hopen : s.tombstones.find (key, connectionId) = none := by
      simpa [closed] using hclose.2
    -- the tombstone is new
    have htombstones : ∀ k, (s.tombstones.insert (key, connectionId)
        ⟨snapshot.epoch, tx.clock⟩).find k =
          if snapshot.state = .disconnected ∧ k = (key, connectionId) then
            some ((s.tombstones.find k).getD ⟨snapshot.epoch, tx.clock⟩)
          else s.tombstones.find k := by
      intro k
      rw [Table.find_insert]
      by_cases hk : k = (key, connectionId)
      · rw [if_pos hk, if_pos ⟨hclose.1, hk⟩, hk, hopen, Option.getD_none]
      · rw [if_neg hk, if_neg fun hc => hk hc.2]
    have hother : ∀ k : PairKey × Uuid, k.1 ≠ key → (s.tombstones.insert (key, connectionId)
        ⟨snapshot.epoch, tx.clock⟩).find k = s.tombstones.find k := by
      intro k hk
      exact Table.find_insert_of_ne _ _ fun he => hk (congrArg Prod.fst he)
    by_cases hbehind : row.epoch ≤ snapshot.epoch
    · rw [if_pos hbehind] at h
      obtain ⟨rfl, _, hcutoff, _⟩ := updatePair_ok (by exact hrow) h
      refine ⟨⟨rfl, rfl, rfl, rfl, rfl, fun k hk => Table.find_insert_of_ne _ _ hk, hother⟩,
        htombstones, _, Table.find_insert_self _ _ _, ⟨rfl, rfl, rfl, le_refl _, hcutoff⟩, rfl,
        fun _ _ _ => rfl⟩
    · rw [if_neg hbehind, Except.ok.injEq] at h
      subst h
      exact ⟨⟨rfl, rfl, rfl, rfl, rfl, fun _ _ => rfl, hother⟩, htombstones, row, hrow, .refl _,
        rfl, fun _ _ hle => absurd hle hbehind⟩
  · rw [if_neg hclose, Except.ok.injEq] at h
    subst h
    refine ⟨.refl _ _, ?_, row, hrow, .refl _, rfl, ?_⟩
    · intro k
      by_cases hk : snapshot.state = .disconnected ∧ k = (key, connectionId)
      · rw [if_pos hk]
        obtain ⟨hstate, rfl⟩ := hk
        cases hfind : s.tombstones.find (key, connectionId) with
        | none => exact absurd ⟨hstate, by simp [closed, hfind]⟩ hclose
        | some tombstone => rfl
      · rw [if_neg hk]
    · intro hstate hopen
      exact absurd ⟨hstate, by simp [hopen]⟩ hclose

/-- What adopting a snapshot left. -/
theorem adoptSnapshot_ok {row current : Pair} {snapshot : Control} {connectionId : Uuid}
    (hid : snapshot.connectionId = some connectionId)
    (hcurrent : s.pairs.find key = some current) (hsame : current.toStanding = row.toStanding)
    (h : s.adoptSnapshot tx key row snapshot connectionId = .ok t) :
    s.Frames t key ∧ t.tombstones = s.tombstones ∧
      ∃ row', t.pairs.find key = some row' ∧ current.Advances row' ∧
        row'.toStanding = row.adopted snapshot (s.closed key connectionId) ∧
        row'.cutoffAt = current.cutoffAt ∧
        (row'.state = .active → row'.toStanding ≠ row.toStanding →
          tx.handoverBlocked = false) := by
  unfold adoptSnapshot at h
  have hne : ¬ (snapshot.connectionId = none) := by
    rw [hid]
    exact Option.some_ne_none _
  by_cases hstale : snapshot.epoch < row.epoch ∨
      snapshot.state = .active ∧ s.closed key connectionId = true
  · rw [if_pos hstale, Except.ok.injEq] at h
    subst h
    refine ⟨.refl _ _, rfl, current, hcurrent, .refl _, ?_, rfl, ?_⟩
    · rw [Pair.adopted, if_pos (Or.inr hstale), hsame]
    · intro _ hchange
      exact absurd hsame hchange
  · rw [if_neg hstale] at h
    have hadopted : row.adopted snapshot (s.closed key connectionId) = snapshot.toStanding := by
      rw [Pair.adopted, if_neg (not_or.2 ⟨hne, hstale⟩)]
    rw [guard_eq_ok] at h
    obtain ⟨_, h⟩ := h
    by_cases heq : snapshot.toStanding = row.toStanding
    · rw [if_pos heq, Except.ok.injEq] at h
      subst h
      refine ⟨.refl _ _, rfl, current, hcurrent, .refl _, ?_, rfl, ?_⟩
      · rw [hadopted, heq, hsame]
      · intro _ hchange
        exact absurd hsame hchange
    · rw [if_neg heq] at h
      obtain ⟨rfl, hepoch, hcutoff, hguard⟩ := updatePair_ok hcurrent h
      refine ⟨frames_insert_pair _, rfl, _, Table.find_insert_self _ _ _,
        ⟨rfl, rfl, rfl, hepoch, hcutoff⟩, hadopted.symm, rfl, ?_⟩
      intro hactive hchange
      refine hguard hactive ?_
      rw [hsame]
      exact hchange

/-- What `apply` left. -/
structure Applied (tx : Transaction) (s t : Store) (key : PairKey) (row : Pair)
    (snapshot : Control) : Prop where
  parties : snapshot.fromDid = (sortDids row.localDid key.2).1 ∧
    snapshot.toDid = (sortDids row.localDid key.2).2
  frames : s.Frames t key
  tombstones : ∀ k, t.tombstones.find k =
    if snapshot.state = .disconnected ∧ k.1 = key ∧ snapshot.connectionId = some k.2 then
      some ((s.tombstones.find k).getD ⟨snapshot.epoch, tx.clock⟩)
    else s.tombstones.find k
  row : ∃ row', t.pairs.find key = some row' ∧ row.Advances row' ∧
    row'.toStanding =
      row.adopted snapshot (snapshot.connectionId.any (t.closed key)) ∧
    (∀ id, snapshot.connectionId = some id → snapshot.state = .disconnected →
      s.closed key id = false → row.epoch ≤ snapshot.epoch →
        row'.cutoffAt = some tx.cutoffClock) ∧
    (row'.state = .active → row'.toStanding ≠ row.toStanding → tx.handoverBlocked = false)

theorem apply_ok {row : Pair} {snapshot : Control} (hrow : s.pairs.find key = some row)
    (h : s.apply tx key row snapshot = .ok t) : Applied tx s t key row snapshot := by
  simp only [apply, guard_eq_ok, not_or, not_not] at h
  obtain ⟨hparties, h⟩ := h
  cases hid : snapshot.connectionId with
  | none =>
    simp only [hid, Except.ok.injEq] at h
    subst h
    refine ⟨hparties, .refl _ _, ?_, row, hrow, .refl _, ?_, ?_, ?_⟩
    · intro k
      rw [if_neg]
      rintro ⟨_, _, hsome⟩
      rw [hid] at hsome
      cases hsome
    · rw [Pair.adopted, if_pos (Or.inl hid)]
    · intro id hsome
      rw [hid] at hsome
      cases hsome
    · intro _ hne
      exact absurd rfl hne
  | some connectionId =>
    simp only [hid, bind_eq_ok] at h
    obtain ⟨u, hclosing, hadopt⟩ := h
    have hrecorded := recordClosing_ok hrow hclosing
    obtain ⟨current, hcurrent, hadvances, hsame, hcutoff⟩ := hrecorded.row
    obtain ⟨hframes, htombstones, row', hrow', hadvances', hstanding, hcutoff', hguard⟩ :=
      adoptSnapshot_ok hid hcurrent hsame hadopt
    refine ⟨hparties, hrecorded.frames.trans hframes, ?_, row', hrow',
      hadvances.trans hadvances', ?_, ?_, hguard⟩
    · rintro ⟨k, id⟩
      rw [htombstones, hrecorded.tombstones, hid]
      simp only [Prod.mk.injEq, Option.some.injEq, eq_comm (a := connectionId)]
    · rw [hstanding, hid, Option.any_some, closed, closed, htombstones]
    · intro id hsome hstate hopen hle
      rw [hid, Option.some.injEq] at hsome
      subst hsome
      rw [hcutoff', hcutoff hstate hopen hle]

/-- What the insertion of an event and the application of its own snapshot left. -/
structure Advanced (tx : Transaction) (s t : Store) (key : PairKey) (row : Pair)
    (request snapshot : Control) (event : Event) : Prop where
  event_eq : event = ⟨snapshot.toStanding, request.requestId, request.proofHash, tx.clock⟩
  free : s.events.find (key, snapshot.epoch) = none
  events : t.events = s.events.insert (key, snapshot.epoch) event
  attempts : t.attempts = s.attempts
  results : t.results = s.results
  disconnects : t.disconnects = s.disconnects
  applied : ∃ u : Store, u.pairs = s.pairs ∧ u.tombstones = s.tombstones ∧
    Applied tx u t key row snapshot

theorem event_ok {request : Control} {standing : Standing} {event : Event}
    (h : s.event tx key request standing = .ok (t, event)) :
    s.events.find (key, standing.epoch) = none ∧
      event = ⟨standing, request.requestId, request.proofHash, tx.clock⟩ ∧
      ∃ outbox, t = { s with
        events := s.events.insert (key, standing.epoch) event
        outbox := outbox } := by
  simp only [Store.event, guard_eq_ok, Bool.not_eq_true, Option.isSome_eq_false_iff,
    Option.isNone_iff_eq_none] at h
  obtain ⟨hfree, h⟩ := h
  by_cases hstate : standing.state = .disconnected
  · rw [if_pos hstate, Except.ok.injEq, Prod.mk.injEq] at h
    obtain ⟨rfl, rfl⟩ := h
    exact ⟨hfree, rfl, _, rfl⟩
  · rw [if_neg hstate, Except.ok.injEq, Prod.mk.injEq] at h
    obtain ⟨rfl, rfl⟩ := h
    exact ⟨hfree, rfl, _, rfl⟩

theorem event_apply_ok {u : Store} {row : Pair} {request snapshot : Control} {event : Event}
    (hrow : s.pairs.find key = some row)
    (hevent : s.event tx key request snapshot.toStanding = .ok (u, event))
    (h : u.apply tx key row snapshot = .ok t) : Advanced tx s t key row request snapshot event := by
  obtain ⟨hfree, hevent, outbox, hu⟩ := event_ok hevent
  have hpairs : u.pairs = s.pairs := by rw [hu]
  have htombstones : u.tombstones = s.tombstones := by rw [hu]
  have happlied := apply_ok (by rw [hpairs]; exact hrow) h
  refine ⟨hevent, hfree, ?_, ?_, ?_, ?_, u, hpairs, htombstones, happlied⟩
  · rw [happlied.frames.events, hu]
  · rw [happlied.frames.attempts, hu]
  · rw [happlied.frames.results, hu]
  · rw [happlied.frames.disconnects, hu]

theorem insertResult_ok {id : Uuid} {row : ResultRow} (h : s.insertResult id row = .ok t) :
    s.results.find id = none ∧ t = { s with results := s.results.insert id row } := by
  simp only [insertResult, guard_eq_ok, Bool.not_eq_true, Option.isSome_eq_false_iff,
    Option.isNone_iff_eq_none, Except.ok.injEq] at h
  exact ⟨h.1, h.2.symm⟩

theorem insertOutbox_ok {event : EventKey} {id : Uuid} (h : s.insertOutbox event id = .ok t) :
    s.outbox.find (event, id) = none ∧
      t = { s with outbox := s.outbox.insert (event, id) ⟨some id, none⟩ } := by
  simp only [insertOutbox, guard_eq_ok, Bool.not_eq_true, Option.isSome_eq_false_iff,
    Option.isNone_iff_eq_none, Except.ok.injEq] at h
  exact ⟨h.1, h.2.symm⟩

theorem eventRow_ok {k : EventKey} {event : Event} (h : s.eventRow k = .ok event) :
    s.events.find k = some event := by
  unfold eventRow at h
  cases hfind : s.events.find k with
  | none => simp [hfind] at h
  | some found =>
    rw [hfind] at h
    cases h
    rfl

/-- A connection response reports the event, and the row beside it. -/
theorem connectionResponse_ok {owner : ConnectionOwner} {peer : Did} {request : Control}
    {event : Event} {proof : Bytes} {answer : Answer}
    (h : s.connectionResponse platform tx owner peer request event proof = .ok answer) :
    answer.control.toStanding = event.toStanding ∧ answer.control.fromDid = owner.did ∧
      answer.control.toDid = peer ∧ answer.control.operation = .snapshot ∧
      ∃ row current, s.pairs.find (owner.id, peer) = some row ∧ answer.current = some current ∧
        current.toStanding = row.toStanding ∧ current.fromDid = owner.did ∧
        current.toDid = peer ∧ current.operation = .snapshot := by
  simp only [connectionResponse, bind_eq_ok, Except.ok.injEq, Prod.exists] at h
  obtain ⟨_, row, hpair, control, hcontrol, current, hcurrent, rfl⟩ := h
  obtain ⟨rfl, hrow, _⟩ := pair_none_ok hpair
  obtain ⟨hstanding, hoperation, hfrom, hto, _⟩ := snapshot_ok hcontrol
  obtain ⟨hstanding', hoperation', hfrom', hto', _⟩ := snapshot_ok hcurrent
  exact ⟨hstanding, hfrom, hto, hoperation, row, current, hrow, rfl, hstanding', hfrom', hto',
    hoperation'⟩

end Store

end HailProto.Federation
