import HailProto.Grants.CallStep
import HailProto.Grants.Replication

/-!
# The grantee's copy is a prefix

What the receiver stores came from a claim, and a claim was read from the grantor's store, whose
revisions never change. So the copy is a byte-exact prefix, and an answer with an entity tag is
given only for a revision the receiver stores. The invariant speaks of the receiver's store
wherever that is; at the grantor's own provider it is about one store.
-/

namespace HailProto.Grants.Replication

open Server

variable {d : Deployment} {s t : System}

/-- Every revision of `replica` is one of `origin`, byte for byte. -/
def Replicates (origin replica : Store) : Prop :=
  ∀ key row', replica.revisions.find key = some row' →
    ∃ row, origin.revisions.find key = some row ∧ row.cose = row'.cose

theorem Replicates.refl (store : Store) : Replicates store store :=
  fun _ row h => ⟨row, h, rfl⟩

theorem Replicates.mono {o o' r : Store} (h : Replicates o r) (hretains : o.Retains o') :
    Replicates o' r := by
  intro key row' hrow'
  obtain ⟨row, hrow, heq⟩ := h key row' hrow'
  exact ⟨row, hretains key row hrow, heq⟩

namespace System

/-- The claims made so far, in order. -/
def claims (s : System) : List GrantPublicationClaim := s.attempts.map Attempt.claim

theorem claims_of_attempt {i : Nat} {a : Attempt} (h : s.attempts[i]? = some a) :
    s.claims[i]? = some a.claim := by
  rw [claims, List.getElem?_map, h, Option.map_some]

@[simp] theorem setStage_claims {i : Nat} {a : Attempt} (h : s.attempts[i]? = some a)
    (stage : Stage) : (s.setStage i a stage).claims = s.claims := by
  apply List.ext_getElem?
  intro j
  rw [claims, claims, setStage, List.getElem?_map, List.getElem?_map, List.getElem?_set]
  by_cases hij : i = j
  · subst hij
    obtain ⟨hlt, -⟩ := List.getElem?_eq_some_iff.mp h
    rw [if_pos rfl, if_pos hlt, h, Option.map_some, Option.map_some]
  · rw [if_neg hij]

end System

/-- What is known in `s` stays known in `t`. -/
structure Extends (d : Deployment) (s t : System) : Prop where
  origin : s.origin.Retains t.origin
  receiver : (s.receiver d).Retains (t.receiver d)
  claims : ∀ (i : Nat) claim, s.claims[i]? = some claim → t.claims[i]? = some claim

/-- A call carries the revision of a claim, and what it read is stored. -/
structure Carries (d : Deployment) (store : Store) (claim : GrantPublicationClaim) (call : Call) :
    Prop where
  payload_eq : call.input.payload = claim.grant.payload
  representation_eq : call.input.representation = claim.grant.representation
  account_eq : call.input.localAccountId = d.accountId claim.grant.payload.grantee
  sound : call.Sound d.codec store
  winner : ∀ c, call.phase = .relooking (some c) → c.StoredIn d.codec store

/-- The stored state each part of the system relies on. -/
structure Consistent (d : Deployment) (s : System) : Prop where
  origin : s.origin.Integrity d.codec
  receiver : (s.receiver d).Integrity d.codec
  replicates : Replicates s.origin (s.receiver d)
  /-- The other provider holds the grantee's role, for the grantee's account. -/
  remote : ∀ id lineage, s.remote.lineages.find id = some lineage →
    lineage.localRole = .grantee ∧ lineage.localAccountId = d.accountId lineage.granteeDid
  claims : ∀ claim ∈ s.claims, claim.grant.StoredIn d.codec s.origin
  calls : ∀ p ∈ s.calls, ∃ claim, s.claims[p.1]? = some claim ∧ Carries d (s.receiver d) claim p.2
  /-- Only a stored revision is answered with an entity tag. -/
  responses : ∀ p ∈ s.responses, ∃ claim, s.claims[p.1]? = some claim ∧
    (p.2.etag.isSome → claim.grant.StoredIn d.codec (s.receiver d))
  stages : ∀ a ∈ s.attempts, ∀ conclusion, a.stage = .finishing conclusion →
    conclusion.state = .acknowledged → a.claim.grant.StoredIn d.codec (s.receiver d)
  acknowledged : ∀ key p, s.origin.publications.find key = some p → p.state = .acknowledged →
    ∃ row row', s.origin.revisions.find key = some row ∧
      (s.receiver d).revisions.find key = some row' ∧ row.cose = row'.cose

theorem Carries.mono {store store' : Store} {claim : GrantPublicationClaim} {call : Call}
    (h : Carries d store claim call) (hretains : store.Retains store') :
    Carries d store' claim call :=
  ⟨h.payload_eq, h.representation_eq, h.account_eq, h.sound.mono hretains,
    fun c hc => (h.winner c hc).mono hretains⟩

namespace System

/-- The grantor's store changes, and the receiver's with it when they are one. -/
theorem receiver_of_origin {t : System} (hremote : t.remote = s.remote) :
    t.receiver d = if d.collocated then t.origin else s.receiver d := by
  unfold receiver
  split
  · rfl
  · exact hremote

theorem receiver_withReceiver {store : Store} {t : System}
    (horigin : t.origin = (s.withReceiver d store).origin)
    (hremote : t.remote = (s.withReceiver d store).remote) : t.receiver d = store := by
  unfold receiver withReceiver at *
  split at horigin <;> simp_all

theorem origin_withReceiver {store : Store} :
    (s.withReceiver d store).origin = if d.collocated then store else s.origin := by
  unfold withReceiver
  split <;> rfl

theorem attempts_withReceiver {store : Store} : (s.withReceiver d store).attempts = s.attempts := by
  unfold withReceiver
  split <;> rfl

theorem responses_withReceiver {store : Store} :
    (s.withReceiver d store).responses = s.responses := by
  unfold withReceiver
  split <;> rfl

end System

/-- The invariant after a step, from what the step added. -/
theorem Consistent.of_extends (h : Consistent d s) (hext : Extends d s t)
    (horigin : t.origin.Integrity d.codec) (hreceiver : (t.receiver d).Integrity d.codec)
    (hreplicates : Replicates t.origin (t.receiver d))
    (hremote : t.remote = s.remote ∨ ∀ id lineage, t.remote.lineages.find id = some lineage →
      lineage.localRole = .grantee ∧ lineage.localAccountId = d.accountId lineage.granteeDid)
    (hclaims : ∀ claim ∈ t.claims, claim ∈ s.claims ∨ claim.grant.StoredIn d.codec t.origin)
    (hcalls : ∀ p ∈ t.calls, p ∈ s.calls ∨
      ∃ claim, t.claims[p.1]? = some claim ∧ Carries d (t.receiver d) claim p.2)
    (hresponses : ∀ p ∈ t.responses, p ∈ s.responses ∨ ∃ claim, t.claims[p.1]? = some claim ∧
      (p.2.etag.isSome → claim.grant.StoredIn d.codec (t.receiver d)))
    (hstages : ∀ a ∈ t.attempts, a ∈ s.attempts ∨ ∀ conclusion,
      a.stage = .finishing conclusion → conclusion.state = .acknowledged →
      a.claim.grant.StoredIn d.codec (t.receiver d))
    (hacknowledged : ∀ key p, t.origin.publications.find key = some p →
      p.state = .acknowledged → (∃ p, s.origin.publications.find key = some p ∧
        p.state = .acknowledged) ∨
      ∃ row row', t.origin.revisions.find key = some row ∧
        (t.receiver d).revisions.find key = some row' ∧ row.cose = row'.cose) :
    Consistent d t := by
  refine ⟨horigin, hreceiver, hreplicates, ?_, ?_, ?_, ?_, ?_, ?_⟩
  · rcases hremote with hsame | hremote
    · rw [hsame]
      exact h.remote
    · exact hremote
  · intro claim hclaim
    rcases hclaims claim hclaim with hold | hnew
    · exact (h.claims claim hold).mono hext.origin
    · exact hnew
  · intro p hp
    rcases hcalls p hp with hold | hnew
    · obtain ⟨claim, hclaim, hcarries⟩ := h.calls p hold
      exact ⟨claim, hext.claims _ _ hclaim, hcarries.mono hext.receiver⟩
    · exact hnew
  · intro p hp
    rcases hresponses p hp with hold | hnew
    · obtain ⟨claim, hclaim, hstored⟩ := h.responses p hold
      exact ⟨claim, hext.claims _ _ hclaim, fun htag => (hstored htag).mono hext.receiver⟩
    · exact hnew
  · intro a ha conclusion hstage hstate
    rcases hstages a ha with hold | hnew
    · exact (h.stages a hold conclusion hstage hstate).mono hext.receiver
    · exact hnew conclusion hstage hstate
  · intro key p hp hstate
    rcases hacknowledged key p hp hstate with ⟨q, hq, hqstate⟩ | hnew
    · obtain ⟨row, row', hrow, hrow', heq⟩ := h.acknowledged key q hq hqstate
      exact ⟨row, row', hext.origin _ _ hrow, hext.receiver _ _ hrow', heq⟩
    · exact hnew

/-- The grantor's store moves on by itself: nothing that was stored changes, and a publication
becomes acknowledged only when its revision is at the receiver. -/
theorem Consistent.of_origin (h : Consistent d s) {origin : Store}
    (hintegrity : origin.Integrity d.codec) (hretains : s.origin.Retains origin)
    (hacknowledged : ∀ key p, origin.publications.find key = some p → p.state = .acknowledged →
      (∃ p, s.origin.publications.find key = some p ∧ p.state = .acknowledged) ∨
      ∃ row row', s.origin.revisions.find key = some row ∧
        (s.receiver d).revisions.find key = some row' ∧ row.cose = row'.cose) :
    Consistent d { s with origin } := by
  have hreceiver : ({ s with origin } : System).receiver d =
      if d.collocated then origin else s.receiver d := System.receiver_of_origin rfl
  have hkept : (s.receiver d).Retains (({ s with origin } : System).receiver d) := by
    rw [hreceiver]
    split
    · rename_i hcollocated
      simpa only [System.receiver, hcollocated, if_true] using hretains
    · exact .refl _
  refine h.of_extends ⟨hretains, hkept, fun _ _ hc => hc⟩ hintegrity ?_ ?_ (.inl rfl)
    (fun _ hc => .inl hc) (fun _ hp => .inl hp) (fun _ hp => .inl hp) (fun _ ha => .inl ha)
    (fun key p hp hstate => (hacknowledged key p hp hstate).imp_right
      fun ⟨row, row', hrow, hrow', heq⟩ =>
        ⟨row, row', hretains _ _ hrow, hkept _ _ hrow', heq⟩)
  · rw [hreceiver]
    split
    · exact hintegrity
    · exact h.receiver
  · rw [hreceiver]
    split
    · exact .refl _
    · exact h.replicates.mono hretains

/-- A step of a call at the receiver. -/
theorem Consistent.of_call (h : Consistent d s) {attempt index : Nat} {call : Call}
    {ambient : Ambient} {store : Store} {next : Call ⊕ Answer}
    (hcall : s.calls[index]? = some (attempt, call))
    (hadvance : call.advance d.codec (s.receiver d) ambient = (store, next))
    {calls : List (Nat × Call)} {responses : List (Nat × Response)}
    (hcalls : ∀ p ∈ calls, p ∈ s.calls ∨ ∃ call', next = .inl call' ∧ p = (attempt, call'))
    (hresponses : ∀ p ∈ responses, p ∈ s.responses ∨ ∃ answer, next = .inr answer ∧
      p = (attempt, answer.response d.serviceBase call.input.payload.grantId)) :
    Consistent d { s.withReceiver d store with calls, responses } := by
  obtain ⟨claim, hclaim, hcarries⟩ := h.calls _ (List.mem_of_getElem? hcall)
  have hstep := callStep h.receiver hcarries.sound hcarries.winner hadvance
  set t : System := { s.withReceiver d store with calls, responses } with ht
  have hreceiver : t.receiver d = store := System.receiver_withReceiver rfl rfl
  have horigin : t.origin = if d.collocated then store else s.origin := System.origin_withReceiver
  have hattempts : t.attempts = s.attempts := System.attempts_withReceiver
  have hcollocated : d.collocated = true → s.receiver d = s.origin := fun hc => by
    rw [System.receiver, if_pos hc]
  have hretains : s.origin.Retains t.origin := by
    rw [horigin]
    split
    · rename_i hc
      exact hcollocated hc ▸ hstep.retains
    · exact .refl _
  have hstored : claim.grant.StoredIn d.codec s.origin :=
    h.claims claim (List.mem_of_getElem? hclaim)
  have hsame : ∀ {store : Store}, call.input.signed.StoredIn d.codec store →
      claim.grant.StoredIn d.codec store := fun hs =>
    storedIn_of_representation hs (storedIn_digest hstored) hcarries.representation_eq
  have hclaims : t.claims = s.claims := by rw [System.claims, System.claims, hattempts]
  refine h.of_extends ⟨hretains, hreceiver ▸ hstep.retains, fun i c hc => hclaims ▸ hc⟩ ?_
    (hreceiver ▸ hstep.integrity) ?_ ?_ (fun c hc => .inl (hclaims ▸ hc)) ?_ ?_
    (fun a ha => .inl (hattempts ▸ ha)) ?_
  · rw [horigin]
    split
    · exact hstep.integrity
    · exact h.origin
  · rw [horigin, hreceiver]
    split
    · exact .refl _
    · intro key row hrow
      rcases hstep.added key row hrow with hold | ⟨hkey, hcose⟩
      · exact h.replicates key row hold
      · obtain ⟨row', hrow', -, hrepresentation, -⟩ := hstored
        refine ⟨row', ?_, ?_⟩
        · rw [hkey, hcarries.payload_eq, hrow']
        · rw [hcose, hcarries.representation_eq, hrepresentation]
  · by_cases hc : d.collocated
    · left
      simp only [ht, System.withReceiver, hc, if_true]
    · right
      have hremote : t.remote = store := by
        simp only [ht, System.withReceiver, hc, Bool.false_eq_true, if_false]
      have hold : s.receiver d = s.remote := by
        rw [System.receiver, if_neg hc]
      intro id lineage hlineage
      rw [hremote] at hlineage
      obtain ⟨old, hfind, hrole, haccount, hgrantee⟩ | ⟨hrole, haccount, hgrantee⟩ :=
        hstep.owners id lineage hlineage
      · rw [hold] at hfind
        rw [hrole, haccount, hgrantee]
        exact h.remote id old hfind
      · rw [haccount, hgrantee, hcarries.account_eq, hcarries.payload_eq]
        exact ⟨hrole, rfl⟩
  · intro p hp
    rcases hcalls p hp with hold | ⟨call', rfl, rfl⟩
    · exact .inl hold
    · obtain ⟨hinput, hsound, hwinner⟩ := hstep.proceeds call' rfl
      exact .inr ⟨claim, hclaims ▸ hclaim, hinput ▸ hcarries.payload_eq,
        hinput ▸ hcarries.representation_eq, hinput ▸ hcarries.account_eq, hreceiver ▸ hsound,
        hreceiver ▸ hwinner⟩
  · intro p hp
    rcases hresponses p hp with hold | ⟨answer, rfl, rfl⟩
    · exact .inl hold
    · refine .inr ⟨claim, hclaims ▸ hclaim, fun htag => ?_⟩
      rw [hreceiver]
      refine hsame (hstep.answers answer rfl ?_)
      unfold Answer.response at htag
      split at htag
      · rename_i hetag
        simp [hetag]
      · cases htag
  · intro key p hp hstate
    left
    refine ⟨p, ?_, hstate⟩
    rw [horigin] at hp
    split at hp
    · rename_i hc
      rw [hstep.publications, hcollocated hc] at hp
      exact hp
    · exact hp

/-- Only an answer with the expected tag is acknowledged. -/
theorem conclude_acknowledged {serviceBase : String} {claim : GrantPublicationClaim} {now : Nat}
    {jitter : Nat → Nat} {response : Response} {conclusion : Conclusion}
    (h : conclude serviceBase claim now jitter response = .ok conclusion)
    (hstate : conclusion.state = .acknowledged) :
    response.etag = some (expectedEtag claim) ∧
      [201, 204, 409, 412].contains response.status = true := by
  simp only [conclude] at h
  split at h
  · rename_i hsuccess
    obtain ⟨hstatus, htag⟩ := hsuccess
    refine ⟨htag, ?_⟩
    simp only [Bool.or_eq_true, decide_eq_true_eq] at hstatus
    obtain (⟨-, hs⟩ | ⟨-, hs⟩) | ⟨-, hs⟩ := hstatus <;> rw [hs] <;> rfl
  · split at h
    · cases h
      cases hstate
    · cases h
      cases hstate

/-- An attempt moves on. -/
theorem Consistent.of_stage (h : Consistent d s) {attempt : Nat} {a : Attempt} {stage : Stage}
    (hattempt : s.attempts[attempt]? = some a)
    (hstage : ∀ conclusion, stage = .finishing conclusion → conclusion.state = .acknowledged →
      a.claim.grant.StoredIn d.codec (s.receiver d)) :
    Consistent d (s.setStage attempt a stage) := by
  have hclaims : (s.setStage attempt a stage).claims = s.claims :=
    System.setStage_claims hattempt stage
  refine h.of_extends ⟨.refl _, .refl _, fun i c hc => hclaims ▸ hc⟩ h.origin h.receiver
    h.replicates (.inl rfl) (fun c hc => .inl (hclaims ▸ hc)) (fun _ hp => .inl hp) (fun _ hp => .inl hp)
    (fun b hb => ?_) fun key p hp hstate => .inl ⟨p, hp, hstate⟩
  rcases List.mem_or_eq_of_mem_set hb with hold | rfl
  · exact .inl hold
  · exact .inr hstage

theorem Consistent.of_read (h : Consistent d s) {attempt now : Nat} {jitter : Nat → Nat}
    {a : Attempt} {response : Response} (hattempt : s.attempts[attempt]? = some a)
    (hresponse : [201, 204, 409, 412].contains response.status = true → response.etag.isSome →
      a.claim.grant.StoredIn d.codec (s.receiver d)) :
    Consistent d (s.read d attempt a now jitter response) := by
  unfold System.read
  cases hconclude : conclude d.serviceBase a.claim now jitter response with
  | error message =>
    refine h.of_stage hattempt fun conclusion hstage => ?_
    cases hstage
  | ok concluded =>
    refine h.of_stage hattempt fun conclusion hstage hstate => ?_
    cases hstage
    obtain ⟨htag, hstatus⟩ := conclude_acknowledged hconclude hstate
    exact hresponse hstatus (by rw [htag, Option.isSome_some])

theorem find_withPublication {store : Store} {key key' : Uuid × Nat} {p p' : Publication}
    (h : (store.withPublication key p).publications.find key' = some p') :
    (key' = key ∧ p' = p) ∨ store.publications.find key' = some p' := by
  rw [Store.withPublication, Table.find_insert] at h
  split at h
  · rename_i hkey
    cases h
    exact .inl ⟨hkey, rfl⟩
  · exact .inr h

/-- An attempt writes its conclusion. -/
theorem Consistent.of_write (h : Consistent d s) {attempt : Nat} {a : Attempt}
    {conclusion : Conclusion} {context : QueueContext} {next : Fault → Stage}
    (hattempt : s.attempts[attempt]? = some a)
    (hstage : conclusion.state = .acknowledged → a.stage = .finishing conclusion)
    (hnext : ∀ fault conclusion, next fault ≠ .finishing conclusion) :
    Consistent d (s.write attempt a conclusion context next) := by
  unfold System.write
  set called : Finish := ⟨attempt, conclusion.state, (conclusion.result a.claim).httpStatus⟩
  have hlogged : Consistent d { s with finishes := s.finishes ++ [called] } :=
    ⟨h.origin, h.receiver, h.replicates, h.remote, h.claims, h.calls, h.responses, h.stages,
      h.acknowledged⟩
  cases hfinish : conclusion.finish s.origin context a.claim with
  | error fault =>
    simp only [hfinish]
    exact hlogged.of_stage hattempt fun next' hnext' => absurd hnext' (hnext fault next')
  | ok origin =>
    simp only [hfinish]
    obtain ⟨-, p, hstate, -, rfl⟩ := Conclusion.finish_ok hfinish
    have hended : Consistent d
        (({ s with finishes := s.finishes ++ [called] } : System).setStage attempt a .ended) :=
      hlogged.of_stage hattempt fun _ hstage => by cases hstage
    have hmem := List.mem_of_getElem? hattempt
    have hclaim := h.claims a.claim (List.mem_map_of_mem hmem)
    refine hended.of_origin (h.origin.of_eq rfl rfl) (fun _ _ h => h) fun key q hq hacked => ?_
    rcases find_withPublication hq with ⟨rfl, rfl⟩ | hold
    · right
      rw [hstate] at hacked
      obtain ⟨row', hrow', -, heq', -⟩ := h.stages a hmem conclusion (hstage hacked) hacked
      obtain ⟨row, hrow, -, heq, -⟩ := hclaim
      exact ⟨row, row', hrow, hrow', heq.symm.trans heq'⟩
    · exact .inl ⟨q, hold, hacked⟩

/-- The publication a new revision is queued with. -/
theorem find_insertPublication {store : Store} {ambient : Ambient} {payload : HailGrant}
    {destination : String} {key : Uuid × Nat} {p : Publication}
    (h : (store.insertPublication ambient payload destination).publications.find key = some p) :
    (key = (payload.grantId, payload.revision) ∧ p.state = .pending ∧ p.lease = none) ∨
      store.publications.find key = some p := by
  rw [Store.insertPublication, Table.find_insert] at h
  split at h
  · rename_i hkey
    cases h
    exact .inl ⟨hkey, rfl, rfl⟩
  · exact .inr h

/-- Leasing changes no state. -/
theorem Consistent.of_lease (h : Consistent d s) {key : Uuid × Nat} {p : Publication}
    {lease : Option (Uuid × Nat)} {attemptCount : Nat}
    (hfind : s.origin.publications.find key = some p) :
    Consistent d
      { s with origin := s.origin.withPublication key { p with lease, attemptCount } } := by
  refine h.of_origin (h.origin.of_eq rfl rfl) (fun _ _ h => h) fun key' q hq hacked => .inl ?_
  rcases find_withPublication hq with ⟨rfl, rfl⟩ | hold
  · exact ⟨p, hfind, hacked⟩
  · exact ⟨q, hold, hacked⟩

/-- A new attempt carries a revision of the grantor's store. -/
theorem Consistent.of_attempt (h : Consistent d s) {claim : GrantPublicationClaim}
    (hstored : claim.grant.StoredIn d.codec s.origin) :
    Consistent d { s with attempts := s.attempts ++ [⟨claim, .requesting⟩] } := by
  have hclaims : ({ s with attempts := s.attempts ++ [⟨claim, .requesting⟩] } : System).claims =
      s.claims ++ [claim] := List.map_append
  refine h.of_extends ⟨.refl _, .refl _, fun i c hc => ?_⟩ h.origin h.receiver h.replicates
    (.inl rfl) (fun c hc => ?_) (fun _ hp => .inl hp) (fun _ hp => .inl hp) (fun a ha => ?_)
    fun key p hp hacked => .inl ⟨p, hp, hacked⟩
  · obtain ⟨hlt, -⟩ := List.getElem?_eq_some_iff.mp hc
    rw [hclaims, List.getElem?_append_left hlt, hc]
  · rw [hclaims, List.mem_append, List.mem_singleton] at hc
    rcases hc with hold | rfl
    · exact .inl hold
    · exact .inr hstored
  · rcases List.mem_append.mp ha with hold | hnew
    · exact .inl hold
    · obtain rfl := List.mem_singleton.mp hnew
      exact .inr fun _ hstage => by cases hstage

/-- A call that begins carries its attempt's revision. -/
theorem carries_of_receive (h : Consistent d s) {attempt : Nat} {a : Attempt}
    {auth : Authentication} {wallClock : Nat} {request : Request} {call : Call}
    (hattempt : s.attempts[attempt]? = some a)
    (hrequest : publicationRequest a.claim = some request)
    (haccount : ∀ account, auth.account = some account →
      account.id = d.accountId a.claim.grant.payload.grantee)
    (hok : receive d.codec d.serviceBase auth wallClock request = .ok call) :
    Carries d (s.receiver d) a.claim call := by
  obtain ⟨hphase, hgenuine, hrepresentation, -⟩ := receive_ok hok
  obtain ⟨account, heq, hid⟩ := receive_account hok
  obtain ⟨conditions, -, rfl⟩ := Option.map_eq_some_iff.mp hrequest
  have hstored := storedIn_digest (h.claims _ (List.mem_map_of_mem (List.mem_of_getElem? hattempt)))
  have hpayload : call.input.payload = a.claim.grant.payload :=
    Option.some.inj (hgenuine.inspected.symm.trans
      ((congrArg _ hrepresentation).trans hstored.inspected))
  exact ⟨hpayload, hrepresentation, hid.trans (haccount account heq),
    ⟨hgenuine, by simp [hphase], by simp [hphase]⟩, by simp [hphase]⟩

/-- The invariant is preserved by every event. -/
theorem Consistent.step (h : Consistent d s) {event : Event} (hstep : Step d s event t) :
    Consistent d t := by
  cases hstep with
  | raised => exact h
  | inserted hok =>
    obtain ⟨hintegrity, hretains⟩ := h.origin.insertAuthoritativeRevision1 hok
    refine h.of_origin hintegrity hretains fun key p hp hacked => .inl ⟨p, ?_, hacked⟩
    obtain ⟨-, rfl⟩ := Store.insertAuthoritativeRevision1_ok hok
    obtain ⟨-, hpending, -⟩ | hold := find_insertPublication hp
    · rw [hpending] at hacked
      cases hacked
    · exact hold
  | @appended ambient input origin hok =>
    obtain ⟨hintegrity, hretains⟩ := h.origin.appendAuthoritativeUpdate hok
    refine h.of_origin hintegrity hretains fun key p hp hacked => .inl ⟨p, ?_, hacked⟩
    obtain ⟨lineage, row, current, destination, -, -, -, -, rfl⟩ :=
      Store.appendAuthoritativeUpdate_ok hok
    obtain ⟨-, hpending, -⟩ | hold := find_insertPublication hp
    · rw [hpending] at hacked
      cases hacked
    · cases hconsent : input.consent <;> rw [hconsent] at hold <;> exact hold
  | leased hfind => exact h.of_lease hfind
  | @claimed context locked leaseToken key p lease attemptCount claim hfind _ _ _ _ _ _ hstored =>
    exact (h.of_lease hfind).of_attempt hstored
  | @delivered attempt auth wallClock a request call hattempt hrequest haccount hok =>
    have hcarries := carries_of_receive h hattempt hrequest haccount hok
    refine h.of_extends ⟨.refl _, .refl _, fun _ _ hc => hc⟩ h.origin h.receiver h.replicates
      (.inl rfl) (fun _ hc => .inl hc) (fun p hp => ?_) (fun _ hp => .inl hp) (fun _ ha => .inl ha)
      fun key p hp hacked => .inl ⟨p, hp, hacked⟩
    rcases List.mem_append.mp hp with hold | hnew
    · exact .inl hold
    · obtain rfl := List.mem_singleton.mp hnew
      exact .inr ⟨a.claim, System.claims_of_attempt hattempt, hcarries⟩
  | @refused attempt auth wallClock a request answer hattempt hrequest herror =>
    refine h.of_extends ⟨.refl _, .refl _, fun _ _ hc => hc⟩ h.origin h.receiver h.replicates
      (.inl rfl) (fun _ hc => .inl hc) (fun _ hp => .inl hp) (fun p hp => ?_) (fun _ ha => .inl ha)
      fun key p hp hacked => .inl ⟨p, hp, hacked⟩
    rcases List.mem_append.mp hp with hold | hnew
    · exact .inl hold
    · obtain rfl := List.mem_singleton.mp hnew
      refine .inr ⟨a.claim, System.claims_of_attempt hattempt, fun htag => ?_⟩
      simp [Answer.response, receive_error herror] at htag
  | @advanced index ambient attempt call store call' hcall _ hadvance =>
    refine h.of_call hcall hadvance (fun p hp => ?_) fun p hp =>
      .inl (System.responses_withReceiver ▸ hp)
    rcases List.mem_or_eq_of_mem_set hp with hold | rfl
    · exact .inl hold
    · exact .inr ⟨call', rfl, rfl⟩
  | answered hcall _ hadvance =>
    refine h.of_call hcall hadvance (fun p hp => .inl (List.mem_of_mem_eraseIdx hp)) fun p hp => ?_
    rcases List.mem_append.mp hp with hold | hnew
    · exact .inl hold
    · exact .inr ⟨_, rfl, List.mem_singleton.mp hnew⟩
  | concluded hattempt hresponse =>
    refine h.of_read hattempt fun _ htag => ?_
    obtain ⟨claim, hclaim, hstored⟩ := h.responses _ (List.mem_of_getElem? hresponse)
    rw [System.claims_of_attempt hattempt] at hclaim
    cases hclaim
    exact hstored htag
  | interrupted hattempt hstatus =>
    refine h.of_read hattempt fun hcontains => ?_
    rw [hstatus] at hcontains
    cases hcontains
  | failed hattempt =>
    refine h.of_stage hattempt fun conclusion hstage => ?_
    cases hstage
  | finishing hattempt hstage => exact h.of_write hattempt (fun _ => hstage) (by simp)
  | recovering hattempt hstage =>
    refine h.of_write hattempt (fun hstate => ?_) (by simp)
    cases hstate

theorem consistent_initial : Consistent d .initial := by
  have hempty : System.initial.receiver d = ∅ := by
    unfold System.receiver
    split <;> rfl
  refine ⟨Store.empty_integrity, hempty ▸ Store.empty_integrity, ?_, fun id lineage hl => ?_,
    by simp [System.initial, System.claims], by simp [System.initial], by simp [System.initial],
    by simp [System.initial], fun key p hp => ?_⟩
  · rw [hempty]
    exact .refl _
  · exact absurd (hl.symm.trans (Table.find_empty id)) (by simp)
  · exact absurd (hp.symm.trans (Table.find_empty key)) (by simp)

/-- The invariant holds in every state that is reached. -/
theorem consistent_of_reaches {allowed : System → Event → Prop}
    (h : Reaches (System.step d) allowed .initial s) : Consistent d s :=
  h.invariant consistent_initial fun _ hs _ hstep => hs.step (step_of_eq hstep)

/-- The signed representations of a lineage, from its first revision to its current one. -/
def sequence (store : Store) (grantId : Uuid) : List Bytes :=
  match store.lineages.find grantId with
  | none => []
  | some lineage => (List.range lineage.currentRevision).filterMap fun k =>
    (store.revisions.find (grantId, k + 1)).map Revision.cose

/-- A copy that replicates the grantor's rows holds a prefix of its sequence. -/
theorem sequence_isPrefix {codec : Codec} {origin replica : Store} (ho : origin.Integrity codec)
    (hr : replica.Integrity codec) (h : Replicates origin replica) (grantId : Uuid) :
    sequence replica grantId <+: sequence origin grantId := by
  unfold sequence
  cases hlineage' : replica.lineages.find grantId with
  | none => exact List.nil_prefix
  | some lineage' =>
    have hsound' := hr.sound grantId lineage' hlineage'
    obtain ⟨row', hrow', -⟩ := hsound'.current
    obtain ⟨row, hrow, -⟩ := h _ _ hrow'
    obtain ⟨lineage, hlineage⟩ := ho.owned _ _ _ hrow
    have hsound := ho.sound grantId lineage hlineage
    obtain ⟨-, hle⟩ := (hsound.stored lineage'.currentRevision).mp ⟨row, hrow⟩
    rw [hlineage]
    have hagree : ∀ k ∈ List.range lineage'.currentRevision,
        (replica.revisions.find (grantId, k + 1)).map Revision.cose =
          (origin.revisions.find (grantId, k + 1)).map Revision.cose := by
      intro k hk
      have hlt := List.mem_range.mp hk
      obtain ⟨a', ha'⟩ := (hsound'.stored (k + 1)).mpr ⟨by omega, by omega⟩
      obtain ⟨a, ha, heq⟩ := h _ _ ha'
      rw [ha', ha, Option.map_some, Option.map_some, heq]
    obtain ⟨more, hmore⟩ := Nat.exists_eq_add_of_le hle
    simp only
    rw [List.filterMap_congr hagree, hmore, List.range_add, List.filterMap_append]
    exact List.prefix_append _ _

/-- The answer to an exact retry is an acknowledgement. -/
theorem conclude_settled {serviceBase : String} {claim : GrantPublicationClaim}
    {input : Store.ReceivedGrantRevision} (hpayload : input.payload = claim.grant.payload)
    (hdigest : input.digest = claim.grant.digest) (now : Nat) (jitter : Nat → Nat) :
    conclude serviceBase claim now jitter
        ((settledAnswer input).response serviceBase claim.grant.payload.grantId) =
      .ok (.acknowledge (settledAnswer input).status (expectedEtag claim)) := by
  have hpos := claim.grant.payload.revision_pos
  simp only [settledAnswer, hpayload, hdigest, Answer.response, conclude, expectedEtag]
  by_cases hfirst : claim.grant.payload.revision = 1
  · simp [hfirst]
  · have hlater : 1 < claim.grant.payload.revision := by omega
    simp [hfirst, hlater]

/-- The row can take an attempt's outcome at `context.now`. -/
def CanFinish (store : Store) (context : QueueContext) (claim : GrantPublicationClaim) : Prop :=
  ∃ p expires, store.publications.find claim.key = some p ∧
    p.lease = some (claim.leaseToken, expires) ∧ context.now < expires ∧ p.unfinished ∧
    store.publicationTriggers context claim.grant.payload.grantId = none

theorem finish_acknowledge {store : Store} {context : QueueContext}
    {claim : GrantPublicationClaim} (h : CanFinish store context claim) (status : Nat)
    (tag : List Char) : ∃ store' p,
      (Conclusion.acknowledge status tag).finish store context claim = .ok store' ∧
      store'.publications.find claim.key = some p ∧ p.state = .acknowledged := by
  obtain ⟨p, expires, hfind, hlease, hnow, hopen, htriggers⟩ := h
  simp only [GrantPublicationClaim.key] at hfind
  simp only [Conclusion.finish, Conclusion.result, Store.finishPublication, hfind, hlease,
    Option.any_some, hnow, hopen, htriggers, and_self, decide_true, if_true, raise, bind_eq_ok,
    Except.ok.injEq, exists_const]
  exact ⟨_, _, ⟨trivial, rfl⟩, Table.find_insert_self _ _ _, rfl⟩

/-- The request of a claim reaches the receiver once more: the call reads the store, answers,
and leaves every store as it was; the publisher acknowledges, and the row takes it. -/
structure ResendConverges (d : Deployment) (s : System) (claim : GrantPublicationClaim)
    (call : Call) (looked : Call) (answer : Answer) : Prop where
  reads : ∀ ambient, call.advance d.codec s.remote ambient = (s.remote, .inl looked)
  answers : ∀ store ambient, looked.advance d.codec store ambient = (store, .inr answer)
  concludes : ∀ now jitter, conclude d.serviceBase claim now jitter
    (answer.response d.serviceBase claim.grant.payload.grantId) =
      .ok (.acknowledge answer.status (expectedEtag claim))
  finishes : ∀ store context, CanFinish store context claim → ∃ store' p,
    (Conclusion.acknowledge answer.status (expectedEtag claim)).finish store context claim =
      .ok store' ∧ store'.publications.find claim.key = some p ∧ p.state = .acknowledged

/-- What holds between the two providers. -/
structure PrefixConsistent (d : Deployment) (s : System) : Prop where
  /-- The copy of a lineage is a byte-exact prefix of the grantor's. -/
  isPrefix : ∀ id, sequence s.remote id <+: sequence s.origin id
  /-- The copy has no gap. -/
  gapless : ∀ id lineage, s.remote.lineages.find id = some lineage →
    (sequence s.remote id).length = lineage.currentRevision
  /-- An acknowledged revision is stored by the grantee's provider, byte for byte. -/
  acknowledged : ∀ id k p, s.origin.publications.find (id, k) = some p → p.state = .acknowledged →
    ∃ row row', s.origin.revisions.find (id, k) = some row ∧
      s.remote.revisions.find (id, k) = some row' ∧ row.cose = row'.cose
  /-- An authenticated request for the latest stored revision is acknowledged. -/
  resend : ∀ (i : Nat) a request auth wallClock call lineage, s.attempts[i]? = some a →
    publicationRequest a.claim = some request →
    (∀ account, auth.account = some account →
      account.id = d.accountId a.claim.grant.payload.grantee) →
    receive d.codec d.serviceBase auth wallClock request = .ok call →
    s.remote.lineages.find a.claim.grant.payload.grantId = some lineage →
    lineage.currentRevision = a.claim.grant.payload.revision →
    ∃ looked answer, ResendConverges d s a.claim call looked answer

theorem length_sequence {codec : Codec} {store : Store} {id : Uuid} {lineage : Lineage}
    (hs : store.Integrity codec) (hlineage : store.lineages.find id = some lineage) :
    (sequence store id).length = lineage.currentRevision := by
  have hsound := hs.sound id lineage hlineage
  have hsome : ∀ k ∈ List.range lineage.currentRevision,
      ((store.revisions.find (id, k + 1)).map Revision.cose).isSome := by
    intro k hk
    have hlt := List.mem_range.mp hk
    obtain ⟨row, hrow⟩ := (hsound.stored (k + 1)).mpr ⟨by omega, by omega⟩
    rw [hrow, Option.map_some, Option.isSome_some]
  rw [sequence, hlineage]
  simp only
  rw [List.length_filterMap_eq_countP, List.countP_eq_length.mpr hsome, List.length_range]

theorem resend_converges (hremote : d.collocated = false) (h : Consistent d s) {i : Nat}
    {a : Attempt} {request : Request} {auth : Authentication} {wallClock : Nat} {call : Call}
    {lineage : Lineage} (hattempt : s.attempts[i]? = some a)
    (hrequest : publicationRequest a.claim = some request)
    (haccount : ∀ account, auth.account = some account →
      account.id = d.accountId a.claim.grant.payload.grantee)
    (hok : receive d.codec d.serviceBase auth wallClock request = .ok call)
    (hlineage : s.remote.lineages.find a.claim.grant.payload.grantId = some lineage)
    (hlatest : lineage.currentRevision = a.claim.grant.payload.revision) :
    ∃ looked answer, ResendConverges d s a.claim call looked answer := by
  have hreceiver : s.receiver d = s.remote := by
    rw [System.receiver, hremote]
    rfl
  have hcarries := carries_of_receive h hattempt hrequest haccount hok
  obtain ⟨hphase, hgenuine, -⟩ := receive_ok hok
  have hintegrity : s.remote.Integrity d.codec := hreceiver ▸ h.receiver
  obtain ⟨row, payload, hrow, hof, hrevision, hread⟩ :=
    findCurrentByGrantId_of_lineage hintegrity hlineage
  -- The copy's current row has the claim's bytes, because the claim's row is the grantor's.
  have hstored := h.claims _ (List.mem_map_of_mem (List.mem_of_getElem? hattempt))
  have hclaim := storedIn_digest hstored
  obtain ⟨origin, horigin, -, hrepresentation, -⟩ := hstored
  have hcose : row.cose = a.claim.grant.representation := by
    obtain ⟨row', hrow', heq⟩ := h.replicates _ _ (hreceiver ▸ hrow)
    rw [hlatest, horigin] at hrow'
    cases hrow'
    rw [hrepresentation, heq]
  have hpayload : payload = call.input.payload := by
    rw [hcarries.payload_eq]
    exact Option.some.inj (hof.inspected.symm.trans ((congrArg _ hcose).trans hclaim.inspected))
  have hid : call.input.payload.grantId = a.claim.grant.payload.grantId := by
    rw [hcarries.payload_eq]
  have hrole := (h.remote _ _ hlineage).1
  refine ⟨⟨call.input, .looking (some (row.signed lineage payload))⟩, settledAnswer call.input,
    fun ambient => ?_, fun store ambient => ?_, fun now jitter => ?_, fun store context hcan => ?_⟩
  · simp only [Call.advance, hphase, hid, hread]
  · have hreceived : store.receivedForSender ambient (some (row.signed lineage payload))
        call.input.payload.grantId call.input.payload.grantee =
          some (row.signed lineage payload) := by
      simp [Store.receivedForSender, Revision.signed, hpayload, hrole]
    have hexact : exactRepresentation (some (row.signed lineage payload))
        call.input.representation = true := by
      simp [exactRepresentation, Revision.signed, hcose, hcarries.representation_eq]
    simp only [Call.advance, hreceived, compare, hexact, if_true]
  · refine conclude_settled hcarries.payload_eq ?_ now jitter
    exact hgenuine.digest_eq.trans
      ((congrArg _ hcarries.representation_eq).trans hclaim.digest_eq.symm)
  · exact finish_acknowledge hcan _ _

/-- Toward another provider, in any interleaving of appends, attempts and receive calls, with
requests and answers lost, repeated and late. -/
theorem replication_prefix_consistent (hremote : d.collocated = false)
    (h : Reachable (System.step d) .initial s) : PrefixConsistent d s := by
  have hconsistent := consistent_of_reaches h
  have hreceiver : s.receiver d = s.remote := by
    rw [System.receiver, hremote]
    rfl
  have hintegrity : s.remote.Integrity d.codec := hreceiver ▸ hconsistent.receiver
  refine ⟨fun id => ?_, fun id lineage hl => length_sequence hintegrity hl, fun id k p hp hacked => ?_,
    fun i a request auth wallClock call lineage ha hr hacc hok hl hlatest =>
      resend_converges hremote hconsistent ha hr hacc hok hl hlatest⟩
  · exact sequence_isPrefix hconsistent.origin hintegrity (hreceiver ▸ hconsistent.replicates) id
  · have hstored := hconsistent.acknowledged (id, k) p hp hacked
    rwa [hreceiver] at hstored

namespace Scenario

/-- The store's provider, which also hosts Alice's account when `collocated`. -/
def deployment (collocated : Bool) : Deployment :=
  ⟨Sample.sampleCodec, "https://store.example.com/hail", fun _ => Sample.storeAccount, collocated⟩

def authentication : Authentication :=
  ⟨some "did:key:alice", some "https://store.example.com/hail",
    some ⟨Sample.storeAccount, true, true⟩⟩

def queue (now : Nat) : QueueContext := ⟨fun _ => false, fun _ => none, now⟩

def start : Nat := 1787851200000

/-- The first revision is stored by the receiver, but its answer is lost; Alice then restricts
the grant, and the first revision is claimed again. -/
def lostAnswer : List Event :=
  [.insertAuthoritativeRevision1 Sample.ambient Sample.firstInput,
    .claim (queue start) [] "01954144-0000-4000-8000-000000000001",
    .deliver 0 authentication 1787851200,
    .advance 0 Sample.ambient,
    .advance 0 Sample.ambient,
    .advance 0 Sample.ambient,
    .fail 0 start (fun base => base * 1000) "The operation timed out",
    .finish 0 (queue start) (fun base => base * 1000),
    .appendAuthoritativeUpdate Sample.ambient Sample.secondInput,
    .claim (queue (start + 60000)) [] "01954144-0000-4000-8000-000000000002"]

end Scenario

/-- With the answer lost, the store's copy has Alice's first revision and not yet her second. -/
theorem replication_prefix_lost_answer : ∃ s,
    exec (System.step (Scenario.deployment false)) .initial Scenario.lostAnswer = some s ∧
    (sequence s.remote Sample.grantId).length = 1 ∧
    (sequence s.origin Sample.grantId).length = 2 ∧
    PrefixConsistent (Scenario.deployment false) s := by
  have hrun : (exec (System.step (Scenario.deployment false)) .initial Scenario.lostAnswer).map
      (fun s => ((sequence s.remote Sample.grantId).length,
        (sequence s.origin Sample.grantId).length)) = some (1, 2) := by decide +kernel
  simp only [Option.map_eq_some_iff, Prod.mk.injEq] at hrun
  obtain ⟨s, hs, hcopy, horigin⟩ := hrun
  exact ⟨s, hs, hcopy, horigin, replication_prefix_consistent rfl (reachable_of_exec hs)⟩

end HailProto.Grants.Replication
