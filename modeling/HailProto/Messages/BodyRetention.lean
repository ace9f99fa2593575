import HailProto.Messages.StoredBodies

/-!
# Runs of deliveries and of the trash

Deliveries, the calls of the trash and the transactions of `purgeExpired` in any order, between
writes of other services that keep the messages received and only add attachments. Each
transaction keeps the foreign keys, and with the first rule of runs they hold in every state.
-/

namespace HailProto.Messages

open Server

/-- A transaction on the mailboxes of a provider. -/
inductive Transaction (platform : Platform)
  | deliver (ambient : Ambient) (claim : DeliveryClaim) (bytes : Bytes) (attachments : List Bytes)
      (authorized : Bool)
  | saveSettings (ambient : Ambient) (session : Owner) (input : Option Bool)
  | remove (ambient : Ambient) (session : Owner) (sender messageId : String) (permanent : Bool)
  | restore (ambient : Ambient) (session : Owner) (items : Option (List (Option RestoreItem)))
  | empty (ambient : Ambient) (session : Owner)
  | purgeAccount (context : PurgeContext) (purge : Purge)
  | collectReceivedBlobs (batchSize : Nat) (locked : List Bytes)
  | collectAttachments (locked : List Bytes)
  /-- A transaction of another service, with what it leaves. -/
  | other (next : Mailbox)

namespace Mailbox

variable {platform : Platform}

/-- The mailbox that a committed transaction leaves; one that raises commits nothing. -/
def transact (s : Mailbox) : Transaction platform → Option Mailbox
  | .deliver ambient claim bytes attachments authorized =>
    (s.store.deliver platform ambient claim bytes attachments authorized).toOption.map
      fun (_, store) => { s with store := store }
  | .saveSettings ambient session input =>
    (s.saveSettings ambient session input).toOption.map Prod.snd
  | .remove ambient session sender messageId permanent =>
    (s.remove ambient session sender messageId permanent).toOption.map Prod.snd
  | .restore ambient session items => (s.restore ambient session items).toOption.map Prod.snd
  | .empty ambient session => (s.empty ambient session).toOption.map Prod.snd
  | .purgeAccount context purge => (s.purgeAccount context purge).toOption.map Prod.snd
  | .collectReceivedBlobs batchSize locked =>
    some { s with store := s.store.collectReceivedBlobs batchSize locked }
  | .collectAttachments locked => some (s.collectAttachments locked)
  | .other next => some next

/-- Another service keeps the messages received with their bodies, and its own rows refer to
attachments that exist. -/
structure OtherWrite (s t : Mailbox) : Prop where
  delivered : t.store.delivered = s.store.delivered
  trashedAt : t.trashedAt = s.trashedAt
  provenance : t.store.provenance = s.store.provenance
  attachmentRefs : t.store.attachmentRefs = s.store.attachmentRefs
  blobs : t.store.blobs = s.store.blobs
  attachmentBlobs : ∀ digest bytes, s.store.attachmentBlobs.find digest = some bytes →
    t.store.attachmentBlobs.find digest = some bytes
  uploaded : t.uploads.ForeignKey (fun key _ => key.2) t.store.attachmentBlobs
  outgoing : t.bodyRefs.ForeignKey (fun key _ => key.2.2) t.store.attachmentBlobs

/-- The transactions a provider takes. -/
def Admits (s : Mailbox) : Transaction platform → Prop
  | .other next => OtherWrite s next
  | _ => True

end Mailbox

/-- The transaction restores the message, for which it has read the clock at `now`. -/
def Transaction.RestoresAt {platform : Platform} (e : Transaction platform) (key : MessageKey)
    (now : Nat) : Prop :=
  ∃ ambient session items keys i, e = .restore ambient session items ∧
    restoreMessages items = some keys ∧ keys[i]? = some key ∧ ambient.clock i = now

namespace Mailbox

/-- What a transaction does to the messages received and to what they share. -/
structure Follows {platform : Platform} (s : Mailbox) (e : Transaction platform) (t : Mailbox) :
    Prop where
  /-- A body whose last message is deleted is deleted with it. -/
  released : ∀ body, s.store.delivered.Refers DeliveredMessage.body body →
    ¬t.store.delivered.Refers DeliveredMessage.body body →
    t.store.provenance.find body = none
  /-- A trashed message keeps the instant its retention is counted from, unless it is deleted
  or restored within the thirty days. -/
  trashed : ∀ key instant, s.trashedAt.find key = some instant →
    t.trashedAt.find key = some instant ∨ t.store.delivered.find key = none ∨
      ∃ now, e.RestoresAt key now ∧ now < instant + thirtyDays
  /-- The bytes of a collected body are nobody's. -/
  collectedBody : ∀ digest, (s.store.blobs.find digest).isSome →
    t.store.blobs.find digest = none →
    ¬s.store.provenance.Refers (fun key _ => key.digest) digest
  /-- A collected attachment belongs to no upload, no outgoing body and no received message. -/
  collected : ∀ digest, (s.store.attachmentBlobs.find digest).isSome →
    t.store.attachmentBlobs.find digest = none →
    ¬s.uploads.Refers (fun key _ => key.2) digest ∧
      ¬s.bodyRefs.Refers (fun key _ => key.2.2) digest ∧
      ¬s.store.attachmentRefs.Refers (fun key _ => key.2) digest

variable {platform : Platform} {s t : Mailbox}

section Delivery

variable {ambient : Ambient} {claim : DeliveryClaim} {envelope : HailEnvelope} {bytes : Bytes}
  {attachments : List Bytes} {files : List (Attachment × Bytes)} {authorized : Bool}
  {outcome : DeliverOutcome} {store : Store}

theorem Intact.storedBody (hs : s.Intact) (envelope : HailEnvelope) (bytes : Bytes) :
    Intact { s with store := s.store.storedBody envelope bytes } where
  body := hs.body.grow fun _ h => (Store.isSome_insertNew _ _ _ _).2 (.inr h)
  blob := by
    have hgrown : s.store.provenance.ForeignKey (fun key _ => key.digest)
        (s.store.blobs.insertNew envelope.body.digest bytes) :=
      hs.blob.grow fun _ h => (Store.isSome_insertNew _ _ _ _).2 (.inr h)
    exact hgrown.insertNew ((Store.isSome_insertNew _ _ _ _).2 (.inl rfl))
  owner := hs.owner.grow fun _ h => (Store.isSome_insertNew _ _ _ _).2 (.inr h)
  received := hs.received
  uploaded := hs.uploaded
  outgoing := hs.outgoing
  trashed := hs.trashed

theorem Intact.storeFile (hs : s.Intact) (file : Attachment × Bytes)
    (hbody : (s.store.provenance.find (Store.provenanceKey envelope)).isSome) :
    Intact { s with store := s.store.storeFile envelope file } where
  body := hs.body
  blob := hs.blob
  owner := hs.owner.insertNew hbody
  received := by
    have hgrown : s.store.attachmentRefs.ForeignKey (fun key _ => key.2)
        (s.store.attachmentBlobs.insertNew file.1.digest file.2) :=
      hs.received.grow fun _ h => (Store.isSome_insertNew _ _ _ _).2 (.inr h)
    exact hgrown.insertNew ((Store.isSome_insertNew _ _ _ _).2 (.inl rfl))
  uploaded := hs.uploaded.grow fun _ h => (Store.isSome_insertNew _ _ _ _).2 (.inr h)
  outgoing := hs.outgoing.grow fun _ h => (Store.isSome_insertNew _ _ _ _).2 (.inr h)
  trashed := hs.trashed

theorem Intact.storeFiles (hs : s.Intact)
    (hbody : (s.store.provenance.find (Store.provenanceKey envelope)).isSome) :
    Intact { s with store := files.foldl (·.storeFile envelope ·) s.store } := by
  induction files generalizing s with
  | nil => exact hs
  | cons file files ih => exact ih (hs.storeFile file hbody) hbody

theorem Intact.stored (hs : s.Intact) (envelope : HailEnvelope) (bytes : Bytes)
    (files : List (Attachment × Bytes)) :
    Intact { s with store := s.store.stored envelope bytes files } :=
  (hs.storedBody envelope bytes).storeFiles ((Store.isSome_insertNew _ _ _ _).2 (.inl rfl))

/-- The foreign keys speak of the stored content and of the messages alone. -/
theorem Intact.congr (hs : s.Intact) (hcontent : store.content = s.store.content)
    (hdelivered : store.delivered = s.store.delivered) : Intact { s with store := store } := by
  obtain ⟨hblobs, hprovenance, hfiles, hrefs⟩ := Content.mk.inj hcontent
  constructor
  · simpa only [hdelivered, hprovenance] using hs.body
  · simpa only [hprovenance, hblobs] using hs.blob
  · simpa only [hrefs, hprovenance] using hs.owner
  · simpa only [hrefs, hfiles] using hs.received
  · simpa only [hfiles] using hs.uploaded
  · simpa only [hfiles] using hs.outgoing
  · simpa only [hdelivered] using hs.trashed

theorem Intact.insertDelivered (hs : s.Intact) (digest : Bytes)
    (hbody : (s.store.provenance.find (Store.provenanceKey envelope)).isSome) :
    Intact { s with store := { s.store with
      delivered := s.store.delivered.insert envelope.key
        (Store.deliveredRow envelope digest) } } where
  body := hs.body.insert hbody
  blob := hs.blob
  owner := hs.owner
  received := hs.received
  uploaded := hs.uploaded
  outgoing := hs.outgoing
  trashed := hs.trashed.grow fun key hkey => by
    rw [Table.find_insert]
    split
    · rfl
    · exact hkey

theorem Intact.deliver (hs : s.Intact) (h : s.store.deliver platform ambient claim bytes
    attachments authorized = .ok (outcome, store)) : Intact { s with store := store } := by
  rcases Store.deliver_writes h with ⟨hcontent, hdelivered⟩ |
    ⟨files, _, _, _, hcontent, hdelivered⟩
  · exact hs.congr hcontent hdelivered
  · have hstored := hs.stored claim.envelope bytes files
    have hsame : (s.store.stored claim.envelope bytes files).delivered = s.store.delivered := by
      rw [Store.stored_withContent]
      rfl
    rcases hdelivered with hdelivered | ⟨_, digest, hdelivered⟩
    · exact hstored.congr hcontent (hdelivered.trans hsame.symm)
    · have hbody : ((s.store.stored claim.envelope bytes files).provenance.find
          (Store.provenanceKey claim.envelope)).isSome := by
        have hprovenance : (s.store.stored claim.envelope bytes files).provenance =
            s.store.provenance.insertNew (Store.provenanceKey claim.envelope) () :=
          (Store.storeFiles_withContent _ claim.envelope files).2.2
        rw [hprovenance]
        exact (Store.isSome_insertNew _ _ _ _).2 (.inl rfl)
      have hinserted := hstored.insertDelivered digest hbody
      exact hinserted.congr hcontent (by rw [hdelivered, hsame])

/-- Stored rows are found again after a delivery. -/
theorem stored_grows (s : Store) (envelope : HailEnvelope) (bytes : Bytes)
    (files : List (Attachment × Bytes)) :
    (∀ digest b, s.blobs.find digest = some b →
      (s.stored envelope bytes files).blobs.find digest = some b) ∧
    (∀ digest b, s.attachmentBlobs.find digest = some b →
      (s.stored envelope bytes files).attachmentBlobs.find digest = some b) ∧
    (∀ key, (s.attachmentRefs.find key).isSome →
      ((s.stored envelope bytes files).attachmentRefs.find key).isSome) := by
  have hkeep {κ ρ : Type} [DecidableEq κ] (table : Table κ ρ) (key key' : κ) (row row' : ρ)
      (hfind : table.find key' = some row') : (table.insertNew key row).find key' = some row' := by
    rw [Table.find_insertNew]
    by_cases hsame : key' = key
    · rw [if_pos hsame, ← hsame, hfind, Option.getD_some]
    · rw [if_neg hsame, hfind]
  have hfiles (files : List (Attachment × Bytes)) (s : Store) :
      (∀ digest b, s.attachmentBlobs.find digest = some b →
        (files.foldl (·.storeFile envelope ·) s).attachmentBlobs.find digest = some b) ∧
      (∀ key, (s.attachmentRefs.find key).isSome →
        ((files.foldl (·.storeFile envelope ·) s).attachmentRefs.find key).isSome) := by
    induction files generalizing s with
    | nil => exact ⟨fun _ _ h => h, fun _ h => h⟩
    | cons file files ih =>
      obtain ⟨hblobs, hrefs⟩ := ih (s.storeFile envelope file)
      exact ⟨fun digest b h => hblobs digest b (hkeep _ _ _ _ _ h),
        fun key h => hrefs key ((Store.isSome_insertNew _ _ _ _).2 (.inr h))⟩
  obtain ⟨hblobs, hrefs⟩ := hfiles files (s.storedBody envelope bytes)
  refine ⟨fun digest b h => ?_, hblobs, hrefs⟩
  have hbodies : (s.stored envelope bytes files).blobs =
      s.blobs.insertNew envelope.body.digest bytes :=
    (Store.storeFiles_withContent _ envelope files).2.1
  rw [hbodies]
  exact hkeep _ _ _ _ _ h

theorem Complete.deliver (hs : s.Complete platform) (h : s.store.deliver platform ambient claim
    bytes attachments authorized = .ok (outcome, store)) :
    Complete platform { s with store := store } := by
  rcases Store.deliver_writes h with ⟨hcontent, hdelivered⟩ |
    ⟨files, hchecked, hblob, hstorable, hcontent, hdelivered⟩
  · obtain ⟨hblobs, -, hfiles, hrefs⟩ := Content.mk.inj hcontent
    simpa only [Complete, CompleteMessage, hdelivered, hblobs, hfiles, hrefs] using hs
  · obtain ⟨hblobs, -, hfiles, hrefs⟩ := Content.mk.inj hcontent
    obtain ⟨hgrowBlobs, hgrowFiles, hgrowRefs⟩ :=
      stored_grows s.store claim.envelope bytes files
    simp only [Complete, CompleteMessage, hblobs, hfiles, hrefs]
    have hold : ∀ key m, s.store.delivered.find key = some m →
        CompleteMessage platform (s.store.stored claim.envelope bytes files) key m := by
      intro key m hfind
      obtain ⟨b, document, hb, hsha, hdocument, hattached⟩ := hs key m hfind
      refine ⟨b, document, hgrowBlobs _ _ hb, hsha, hdocument, fun file hfile => ?_⟩
      obtain ⟨href, fileBytes, hfileBytes, hfileSha⟩ := hattached file hfile
      exact ⟨hgrowRefs _ href, fileBytes, hgrowFiles _ _ hfileBytes, hfileSha⟩
    intro key m hfind
    rcases hdelivered with hdelivered | ⟨_, digest, hdelivered⟩
    · rw [hdelivered] at hfind
      exact hold key m hfind
    · rw [hdelivered, Table.find_insert] at hfind
      by_cases hkey : key = claim.envelope.key
      · rw [if_pos hkey, Option.some.injEq] at hfind
        subst hkey hfind
        obtain ⟨document, hdocument, hattached⟩ := Store.checkBody_document hchecked
        obtain ⟨_, hsha⟩ := Store.checkBody_shape hchecked
        refine ⟨bytes, document, Store.find_stored_blob hblob, hsha, hdocument,
          fun file hfile => ?_⟩
        obtain ⟨b, hmem, hb⟩ := hattached file hfile
        have hstorable' : (s.store.storedBody claim.envelope bytes).Storable files :=
          ⟨hstorable.stored, hstorable.consistent⟩
        exact ⟨(Store.kept_storeFiles _ claim.envelope (file, b) hmem).2, b,
          Store.find_storeFiles hstorable' (file, b) hmem, hb⟩
      · rw [if_neg hkey] at hfind
        exact hold key m hfind

end Delivery

/-- What a transaction keeps, and what it does to the messages received. -/
structure Keeps (s : Mailbox) (e : Transaction platform) (t : Mailbox) : Prop where
  intact : t.Intact
  complete : s.Complete platform → t.Complete platform
  follows : Follows s e t

/-- What grows or stays loses nothing. -/
theorem not_lost {κ ρ : Type} [DecidableEq κ] {table table' : Table κ ρ} {key : κ} {P : Prop}
    (hgrow : (table.find key).isSome → (table'.find key).isSome)
    (hbefore : (table.find key).isSome) (hafter : table'.find key = none) : P := by
  have hfound := hgrow hbefore
  rw [hafter] at hfound
  cases hfound

section Calls

variable {ambient : Ambient} {session : Owner} {did : Did} {e : Transaction platform}

theorem keeps_discards (hs : s.Intact) (did : Did)
    (condition : MessageKey → DeliveredMessage → Bool) (h : Discards s t did condition) :
    Keeps s e t where
  intact := h.intact hs
  complete := h.complete
  follows := {
    released := fun _ => h.provenance_gone
    trashed := fun _ _ hfind => (h.trashed_or_deleted hfind).imp_right .inl
    collectedBody := fun _ => not_lost fun hbefore => by rwa [h.blobs]
    collected := fun _ => not_lost fun hbefore => by rwa [h.attachmentBlobs] }

/-- A transaction that leaves the messages received and their content alone. -/
theorem keeps_aside (hs : s.Intact) (hstore : t.store = s.store)
    (htrashed : t.trashedAt = s.trashedAt) (huploads : t.uploads = s.uploads)
    (hrefs : t.bodyRefs = s.bodyRefs) : Keeps s e t where
  intact := by
    constructor
    · simpa only [hstore] using hs.body
    · simpa only [hstore] using hs.blob
    · simpa only [hstore] using hs.owner
    · simpa only [hstore] using hs.received
    · simpa only [hstore, huploads] using hs.uploaded
    · simpa only [hstore, hrefs] using hs.outgoing
    · simpa only [hstore, htrashed] using hs.trashed
  complete hcomplete := by simpa only [Complete, hstore] using hcomplete
  follows := {
    released := fun _ hbefore hafter => absurd (hstore ▸ hbefore) hafter
    trashed := fun _ _ hfind => .inl (by rwa [htrashed])
    collectedBody := fun _ => not_lost fun hbefore => by rwa [hstore]
    collected := fun _ => not_lost fun hbefore => by rwa [hstore] }

theorem keeps_saveSettings {input : Option Bool} {enabled : Bool} (hs : s.Intact)
    (h : s.saveSettings ambient session input = .ok (enabled, t)) : Keeps s e t := by
  unfold saveSettings at h
  cases input with
  | none => cases h
  | some enabled' =>
    simp only [bind_eq_ok] at h
    obtain ⟨_, _, h⟩ := h
    cases enabled' with
    | true =>
      cases h
      exact keeps_aside hs rfl rfl rfl rfl
    | false =>
      cases h
      exact keeps_discards hs session.did
        (fun key m => m.recipientDid = session.did && s.isTrashed key)
        { own := fun key m _ hdeleted => by simpa using (Bool.and_eq_true_iff.1 hdeleted).1
          store := rfl
          trashedAt := rfl
          uploads := fun _ _ h => h
          bodyRefs := rfl }

theorem keeps_empty {count : Nat} (hs : s.Intact)
    (h : s.empty ambient session = .ok (count, t)) : Keeps s e t := by
  simp only [empty, bind_eq_ok] at h
  obtain ⟨_, _, h⟩ := h
  cases h
  exact keeps_discards hs session.did
    (fun key m => m.recipientDid = session.did && s.isTrashed key)
    { own := fun key m _ hdeleted => by simpa using (Bool.and_eq_true_iff.1 hdeleted).1
      store := rfl
      trashedAt := rfl
      uploads := fun _ _ h => h
      bodyRefs := rfl }

/-- A message is put in the trash at most once. -/
theorem keeps_trashed {key : MessageKey} {now : Nat} (hs : s.Intact)
    (hkey : (s.store.delivered.find key).isSome) :
    Keeps s e { s with trashedAt := s.trashedAt.insertNew key now } where
  intact := { hs with trashed := hs.trashed.insertNew hkey }
  complete := id
  follows := {
    released := fun _ hbefore hafter => absurd hbefore hafter
    trashed := fun other instant hfind => by
      left
      rw [Table.find_insertNew]
      by_cases hsame : other = key
      · rw [if_pos hsame, ← hsame, hfind, Option.getD_some]
      · rw [if_neg hsame, hfind]
    collectedBody := fun _ => not_lost id
    collected := fun _ => not_lost id }

theorem keeps_remove {sender messageId : String} {permanent : Bool}
    {answer : String × RemovalState} (hs : s.Intact)
    (h : s.remove ambient session sender messageId permanent = .ok (answer, t)) :
    Keeps s e t := by
  simp only [remove, guard_eq_ok, bind_eq_ok] at h
  obtain ⟨_, _, _, h⟩ := h
  split at h
  · cases h
    exact keeps_discards hs session.did
      (fun other m => m.recipientDid = session.did && other = (sender, messageId))
      { own := fun key m _ hdeleted => by simpa using (Bool.and_eq_true_iff.1 hdeleted).1
        store := rfl
        trashedAt := rfl
        uploads := fun _ _ h => h
        bodyRefs := rfl }
  · split at h
    · rename_i m hfind
      split at h
      · cases h
        exact keeps_trashed hs (by rw [hfind]; rfl)
      · cases h
        exact keeps_aside hs rfl rfl rfl rfl
    · cases h
      exact keeps_aside hs rfl rfl rfl rfl

/-- The messages due in an account's purge are its own. -/
theorem due_own {clock : MessageKey → Nat} {n : Nat} {key : MessageKey} {m : DeliveredMessage}
    (hfind : s.store.delivered.find key = some m)
    (hdue : ((((s.expiredMessages did clock).insertionSort fun a b => a.2 ≤ b.2).take n).map
      Prod.fst).contains key = true) : m.recipientDid = did := by
  rw [List.contains_iff_mem, List.mem_map] at hdue
  obtain ⟨⟨_, instant⟩, hmem, rfl⟩ := hdue
  have hexpired := (List.perm_insertionSort _ _).mem_iff.1 (List.mem_of_mem_take hmem)
  simp only [expiredMessages, List.mem_filter, hfind, Option.any_some, Bool.and_eq_true,
    decide_eq_true_eq] at hexpired
  exact hexpired.2.1

theorem keeps_purgeAccount {context : PurgeContext} {purge : Purge} {count : Nat} (hs : s.Intact)
    (h : s.purgeAccount context purge = .ok (count, t)) : Keeps s e t := by
  simp only [purgeAccount, bind_eq_ok] at h
  obtain ⟨_, _, h⟩ := h
  split at h
  · cases h
    exact keeps_aside hs rfl rfl rfl rfl
  · simp only [bind_eq_ok] at h
    obtain ⟨_, _, _, _, _, _, h⟩ := h
    cases h
    exact keeps_discards hs purge.did
      (fun key _ => ((((s.expiredMessages purge.did context.readings.messages).insertionSort
        fun a b => a.2 ≤ b.2).take 500).map Prod.fst).contains key)
      { own := fun _ _ hfind hdue => due_own hfind hdue
        store := rfl
        trashedAt := rfl
        uploads := fun key row hfind => by
          change (s.uploads.deleteWhere _).find key = some row at hfind
          rw [Table.find_deleteWhere, Option.filter_eq_some_iff] at hfind
          exact hfind.1
        bodyRefs := rfl }

theorem restoreMessage_spec (s : Mailbox) (did : Did) (now : Nat) (key : MessageKey) :
    (s.restoreMessage did now key).2 = s ∨
      (∃ instant, s.trashedAt.find key = some instant ∧ now < instant + thirtyDays) ∧
      (s.restoreMessage did now key).2 =
        { s with trashedAt := s.trashedAt.deleteWhere fun other _ => decide (other = key) } := by
  unfold restoreMessage
  split
  · rename_i m instant _ hinstant
    split
    · rename_i hrestored
      exact .inr ⟨⟨instant, hinstant, hrestored.2⟩, rfl⟩
    · exact .inl rfl
  · exact .inl rfl

/-- A restore only takes messages out of the trash, and none after thirty days. -/
theorem restoreAll_spec {did : Did} {clock : Nat → Nat} {keys : List MessageKey}
    {restored index count : Nat} (h : restoreAll did clock s restored index keys = (count, t)) :
    t = { s with trashedAt := t.trashedAt } ∧
      (∀ key instant, t.trashedAt.find key = some instant →
        s.trashedAt.find key = some instant) ∧
      ∀ key instant, s.trashedAt.find key = some instant →
        t.trashedAt.find key = some instant ∨
          ∃ i, keys[i]? = some key ∧ clock (index + i) < instant + thirtyDays := by
  induction keys generalizing s restored index with
  | nil =>
    cases h
    exact ⟨rfl, fun _ _ h => h, fun _ _ h => .inl h⟩
  | cons first rest ih =>
    simp only [restoreAll] at h
    obtain ⟨hrest, hless, hkept⟩ := ih h
    have hlater {key : MessageKey} {instant : Nat}
        (hfind : (s.restoreMessage did (clock index) first).2.trashedAt.find key =
          some instant) : t.trashedAt.find key = some instant ∨
          ∃ i, (first :: rest)[i]? = some key ∧ clock (index + i) < instant + thirtyDays := by
      refine (hkept key instant hfind).imp_right ?_
      rintro ⟨i, hget, hclock⟩
      exact ⟨i + 1, hget, by rwa [← Nat.add_assoc, Nat.add_right_comm]⟩
    rcases restoreMessage_spec s did (clock index) first with
      hsame | ⟨⟨instant, hinstant, hnow⟩, hdeleted⟩
    · rw [hsame] at hrest hless hlater
      exact ⟨hrest, hless, fun _ _ => hlater⟩
    · rw [hdeleted] at hrest hless hlater
      refine ⟨hrest, fun key other hfind => ?_, fun key other hfind => ?_⟩
      · have hfound := hless key other hfind
        rw [Table.find_deleteWhere, Option.filter_eq_some_iff] at hfound
        exact hfound.1
      · by_cases hfirst : key = first
        · subst hfirst
          rw [hinstant, Option.some.injEq] at hfind
          subst hfind
          exact .inr ⟨0, rfl, hnow⟩
        · refine hlater (Eq.trans ?_ hfind)
          exact Table.find_deleteWhere_of_keep fun _ _ => decide_eq_false hfirst

theorem keeps_restore {items : Option (List (Option RestoreItem))} {count : Nat} (hs : s.Intact)
    (h : s.restore ambient session items = .ok (count, t)) :
    Keeps s (.restore ambient session items : Transaction platform) t := by
  unfold restore at h
  split at h
  · cases h
  · rename_i keys hkeys
    simp only [bind_eq_ok, Except.ok.injEq] at h
    obtain ⟨_, _, h⟩ := h
    obtain ⟨hrest, hless, hkept⟩ := restoreAll_spec h
    rw [hrest]
    exact {
      intact := { hs with trashed := fun key instant hfind => hs.trashed key _ (hless key _ hfind) }
      complete := id
      follows := {
        released := fun _ hbefore hafter => absurd hbefore hafter
        trashed := fun key instant hfind => by
          refine (hkept key instant hfind).imp_right fun hrestored => .inr ?_
          obtain ⟨i, hget, hclock⟩ := hrestored
          rw [Nat.zero_add] at hclock
          exact ⟨_, ⟨ambient, session, items, keys, i, rfl, hkeys, hget, rfl⟩, hclock⟩
        collectedBody := fun _ => not_lost id
        collected := fun _ => not_lost id } }

end Calls

section Collection

variable {e : Transaction platform}

/-- The bytes of a body stay as long as a recipient has it. -/
theorem collectReceivedBlob_spec (s : Store) (candidate : Bytes) :
    (s.collectReceivedBlob candidate) = { s with
      blobs := (s.collectReceivedBlob candidate).blobs } ∧
    ∀ digest, (s.collectReceivedBlob candidate).blobs.find digest = s.blobs.find digest ∨
      ¬s.provenance.Refers (fun key _ => key.digest) digest := by
  unfold Store.collectReceivedBlob
  split
  · rename_i hfree
    refine ⟨rfl, fun digest => ?_⟩
    by_cases hsame : digest = candidate
    · subst hsame
      exact .inr (Table.unreferenced_iff.1 hfree)
    · exact .inl (Table.find_deleteWhere_of_keep fun _ _ => decide_eq_false hsame)
  · exact ⟨rfl, fun _ => .inl rfl⟩

theorem collectReceivedBlobs_spec (s : Store) (batchSize : Nat) (locked : List Bytes) :
    (s.collectReceivedBlobs batchSize locked) = { s with
      blobs := (s.collectReceivedBlobs batchSize locked).blobs } ∧
    ∀ digest, (s.collectReceivedBlobs batchSize locked).blobs.find digest =
        s.blobs.find digest ∨ ¬s.provenance.Refers (fun key _ => key.digest) digest := by
  have hloop (candidates : List Bytes) (s : Store) :
      candidates.foldl (·.collectReceivedBlob ·) s = { s with
        blobs := (candidates.foldl (·.collectReceivedBlob ·) s).blobs } ∧
      ∀ digest, (candidates.foldl (·.collectReceivedBlob ·) s).blobs.find digest =
          s.blobs.find digest ∨ ¬s.provenance.Refers (fun key _ => key.digest) digest := by
    induction candidates generalizing s with
    | nil => exact ⟨rfl, fun _ => .inl rfl⟩
    | cons candidate rest ih =>
      obtain ⟨hfirst, hfirstFind⟩ := collectReceivedBlob_spec s candidate
      obtain ⟨hrest, hrestFind⟩ := ih (s.collectReceivedBlob candidate)
      have hprovenance : (s.collectReceivedBlob candidate).provenance = s.provenance := by
        rw [hfirst]
      rw [List.foldl_cons]
      refine ⟨hrest.trans (by rw [hfirst]), fun digest => ?_⟩
      rcases hrestFind digest with hfind | hfree
      · rw [hfind]
        exact hfirstFind digest
      · rw [hprovenance] at hfree
        exact .inr hfree
  exact hloop _ s

theorem keeps_collectReceivedBlobs (hs : s.Intact) (batchSize : Nat) (locked : List Bytes) :
    Keeps s e { s with store := s.store.collectReceivedBlobs batchSize locked } := by
  obtain ⟨hrest, hfind⟩ := collectReceivedBlobs_spec s.store batchSize locked
  rw [hrest]
  constructor
  · refine { hs with blob := fun key row hkey => ?_ }
    refine (hfind key.digest).elim (fun hsame => ?_) fun hfree => ?_
    · exact hsame ▸ hs.blob key row hkey
    · exact absurd ⟨key, row, hkey, rfl⟩ hfree
  · intro hcomplete key m hkey
    obtain ⟨bytes, document, hblob, hmessage⟩ := hcomplete key m hkey
    refine ⟨bytes, document, ?_, hmessage⟩
    obtain ⟨row, hrow⟩ := Option.isSome_iff_exists.1 (hs.body key m hkey)
    refine (hfind m.bodyDigest).elim (fun hsame => hsame.trans hblob) fun hfree => ?_
    exact absurd ⟨m.body key, row, hrow, rfl⟩ hfree
  · exact {
      released := fun _ hbefore hafter => absurd hbefore hafter
      trashed := fun _ _ h => .inl h
      collectedBody := fun digest hbefore hafter =>
        (hfind digest).elim (fun hsame => not_lost (fun h => hsame ▸ h) hbefore hafter) id
      collected := fun _ => not_lost id }

theorem attachmentFree_iff (s : Mailbox) (digest : Bytes) :
    s.attachmentFree digest = true ↔
      ¬s.uploads.Refers (fun key _ => key.2) digest ∧
      ¬s.bodyRefs.Refers (fun key _ => key.2.2) digest ∧
      ¬s.store.attachmentRefs.Refers (fun key _ => key.2) digest := by
  simp only [attachmentFree, Bool.and_eq_true, Table.unreferenced_iff, and_assoc]

theorem find_collectAttachments (s : Mailbox) (locked : List Bytes) (digest : Bytes) :
    (s.collectAttachments locked).store.attachmentBlobs.find digest =
        s.store.attachmentBlobs.find digest ∨
      ¬s.uploads.Refers (fun key _ => key.2) digest ∧
      ¬s.bodyRefs.Refers (fun key _ => key.2.2) digest ∧
      ¬s.store.attachmentRefs.Refers (fun key _ => key.2) digest := by
  by_cases hfree : s.attachmentFree digest = true
  · exact .inr ((attachmentFree_iff s digest).1 hfree)
  · refine .inl (Table.find_deleteWhere_of_keep fun _ _ => ?_)
    rw [Bool.not_eq_true] at hfree
    rw [hfree, Bool.and_false]

theorem keeps_collectAttachments (hs : s.Intact) (locked : List Bytes) :
    Keeps s e (s.collectAttachments locked) := by
  have hfind := find_collectAttachments s locked
  constructor
  · refine { hs with received := ?_, uploaded := ?_, outgoing := ?_ }
    · intro key row hkey
      refine (hfind key.2).elim (fun hsame => ?_) fun hfree => ?_
      · rw [hsame]
        exact hs.received key row hkey
      · exact absurd ⟨key, row, hkey, rfl⟩ hfree.2.2
    · intro key row hkey
      refine (hfind key.2).elim (fun hsame => ?_) fun hfree => ?_
      · rw [hsame]
        exact hs.uploaded key row hkey
      · exact absurd ⟨key, row, hkey, rfl⟩ hfree.1
    · intro key row hkey
      refine (hfind key.2.2).elim (fun hsame => ?_) fun hfree => ?_
      · rw [hsame]
        exact hs.outgoing key row hkey
      · exact absurd ⟨key, row, hkey, rfl⟩ hfree.2.1
  · intro hcomplete key m hkey
    obtain ⟨bytes, document, hblob, hsha, hdocument, hfiles⟩ := hcomplete key m hkey
    refine ⟨bytes, document, hblob, hsha, hdocument, fun file hfile => ?_⟩
    obtain ⟨href, b, hb, hbSha⟩ := hfiles file hfile
    obtain ⟨row, hrow⟩ := Option.isSome_iff_exists.1 href
    refine ⟨href, b, ?_, hbSha⟩
    refine (hfind file.digest).elim (fun hsame => hsame.trans hb) fun hfree => ?_
    exact absurd ⟨(m.body key, file.digest), row, hrow, rfl⟩ hfree.2.2
  · exact {
      released := fun _ hbefore hafter => absurd hbefore hafter
      trashed := fun _ _ h => .inl h
      collectedBody := fun _ => not_lost id
      collected := fun digest hbefore hafter =>
        (hfind digest).elim (fun hsame => not_lost (fun h => hsame ▸ h) hbefore hafter) id }

theorem OtherWrite.keeps (hs : s.Intact) (h : OtherWrite s t) : Keeps s e t where
  intact := by
    constructor
    · simpa only [h.delivered, h.provenance] using hs.body
    · simpa only [h.provenance, h.blobs] using hs.blob
    · simpa only [h.attachmentRefs, h.provenance] using hs.owner
    · rw [h.attachmentRefs]
      refine hs.received.grow fun digest hdigest => ?_
      obtain ⟨bytes, hbytes⟩ := Option.isSome_iff_exists.1 hdigest
      rw [h.attachmentBlobs digest bytes hbytes]
      rfl
    · exact h.uploaded
    · exact h.outgoing
    · simpa only [h.trashedAt, h.delivered] using hs.trashed
  complete := by
    intro hcomplete key m hfind
    rw [h.delivered] at hfind
    obtain ⟨bytes, document, hblob, hsha, hdocument, hfiles⟩ := hcomplete key m hfind
    rw [CompleteMessage, h.blobs, h.attachmentRefs]
    refine ⟨bytes, document, hblob, hsha, hdocument, fun file hfile => ?_⟩
    obtain ⟨href, b, hb, hbSha⟩ := hfiles file hfile
    exact ⟨href, b, h.attachmentBlobs _ _ hb, hbSha⟩
  follows := {
    released := fun _ hbefore hafter => absurd (h.delivered ▸ hbefore) hafter
    trashed := fun _ _ hfind => .inl (by rwa [h.trashedAt])
    collectedBody := fun _ => not_lost fun hbefore => by rwa [h.blobs]
    collected := fun digest => not_lost fun hbefore => by
      obtain ⟨bytes, hbytes⟩ := Option.isSome_iff_exists.1 hbefore
      rw [h.attachmentBlobs digest bytes hbytes]
      rfl }

end Collection

theorem keeps_deliver {ambient : Ambient} {claim : DeliveryClaim} {bytes : Bytes}
    {attachments : List Bytes} {authorized : Bool} {outcome : DeliverOutcome} {store : Store}
    {e : Transaction platform} (hs : s.Intact) (h : s.store.deliver platform ambient claim bytes
      attachments authorized = .ok (outcome, store)) : Keeps s e { s with store := store } where
  intact := hs.deliver h
  complete hcomplete := hcomplete.deliver h
  follows := by
    have hgrows : (∀ key m, s.store.delivered.find key = some m →
        store.delivered.find key = some m) ∧
        (∀ digest, (s.store.blobs.find digest).isSome → (store.blobs.find digest).isSome) ∧
        ∀ digest, (s.store.attachmentBlobs.find digest).isSome →
          (store.attachmentBlobs.find digest).isSome := by
      rcases Store.deliver_writes h with ⟨hcontent, hdelivered⟩ |
        ⟨files, _, _, _, hcontent, hdelivered⟩
      · obtain ⟨hblobs, -, hfiles, -⟩ := Content.mk.inj hcontent
        rw [hdelivered, hblobs, hfiles]
        exact ⟨fun _ _ h => h, fun _ h => h, fun _ h => h⟩
      · obtain ⟨hblobs, -, hfiles, -⟩ := Content.mk.inj hcontent
        obtain ⟨hgrowBlobs, hgrowFiles, _⟩ := stored_grows s.store claim.envelope bytes files
        rw [hblobs, hfiles]
        refine ⟨fun key m hfind => ?_, fun digest hdigest => ?_, fun digest hdigest => ?_⟩
        · rcases hdelivered with hdelivered | ⟨hnew, digest, hdelivered⟩
          · rwa [hdelivered]
          · rw [hdelivered, Table.find_insert_of_ne _ _ (by rintro rfl; simp [hnew] at hfind)]
            exact hfind
        · obtain ⟨b, hb⟩ := Option.isSome_iff_exists.1 hdigest
          rw [hgrowBlobs digest b hb]
          rfl
        · obtain ⟨b, hb⟩ := Option.isSome_iff_exists.1 hdigest
          rw [hgrowFiles digest b hb]
          rfl
    exact {
      released := fun body hbefore hafter => by
        obtain ⟨key, m, hfind, hbody⟩ := hbefore
        exact absurd ⟨key, m, hgrows.1 key m hfind, hbody⟩ hafter
      trashed := fun _ _ hfind => .inl hfind
      collectedBody := fun digest => not_lost (hgrows.2.1 digest)
      collected := fun digest => not_lost (hgrows.2.2 digest) }

/-- The step lemma: one case for each transaction. -/
theorem keeps_transact {e : Transaction platform} (hs : s.Intact) (hadmits : s.Admits e)
    (h : s.transact e = some t) : Keeps s e t := by
  cases e with
  | deliver ambient claim bytes attachments authorized =>
    obtain ⟨⟨outcome, store⟩, hcall, rfl⟩ := Option.map_eq_some_iff.1 h
    exact keeps_deliver hs (toOption_eq_some.1 hcall)
  | saveSettings ambient session input =>
    obtain ⟨⟨enabled, t⟩, hcall, rfl⟩ := Option.map_eq_some_iff.1 h
    exact keeps_saveSettings hs (toOption_eq_some.1 hcall)
  | remove ambient session sender messageId permanent =>
    obtain ⟨⟨answer, t⟩, hcall, rfl⟩ := Option.map_eq_some_iff.1 h
    exact keeps_remove hs (toOption_eq_some.1 hcall)
  | restore ambient session items =>
    obtain ⟨⟨count, t⟩, hcall, rfl⟩ := Option.map_eq_some_iff.1 h
    exact keeps_restore hs (toOption_eq_some.1 hcall)
  | empty ambient session =>
    obtain ⟨⟨count, t⟩, hcall, rfl⟩ := Option.map_eq_some_iff.1 h
    exact keeps_empty hs (toOption_eq_some.1 hcall)
  | purgeAccount context purge =>
    obtain ⟨⟨count, t⟩, hcall, rfl⟩ := Option.map_eq_some_iff.1 h
    exact keeps_purgeAccount hs (toOption_eq_some.1 hcall)
  | collectReceivedBlobs batchSize locked =>
    cases h
    exact keeps_collectReceivedBlobs hs batchSize locked
  | collectAttachments locked =>
    cases h
    exact keeps_collectAttachments hs locked
  | other next =>
    cases h
    exact hadmits.keeps hs

/-- The states of runs from `start`. -/
abbrev Runs (platform : Platform) (start : Mailbox) : Mailbox → Prop :=
  Reaches (fun s (e : Transaction platform) => s.transact e) (fun s e => s.Admits e) start

theorem purgeAccounts_runs (platform : Platform) (context : Uuid → PurgeContext) (s : Mailbox)
    (deleted : Nat) (purges : List Purge) :
    Runs platform s (purgeAccounts context s deleted purges).2 := by
  induction purges generalizing s deleted with
  | nil => exact .refl
  | cons purge rest ih =>
    unfold purgeAccounts
    cases hcall : s.purgeAccount (context purge.accountId) purge with
    | error fault => exact .refl
    | ok answer =>
      obtain ⟨rows, t⟩ := answer
      have hstep : s.transact (.purgeAccount (context purge.accountId) purge :
          Transaction platform) = some t := by
        rw [transact, hcall]
        rfl
      have hfirst : Runs platform s t :=
        .next (.purgeAccount (context purge.accountId) purge) .refl trivial hstep
      exact hfirst.trans (ih t (deleted + rows))

/-- A call of `purgeExpired` is a run of its transactions. -/
theorem purgeExpired_runs (platform : Platform) (s : Mailbox) (ambient : Ambient)
    (readings : Readings) (context : Uuid → PurgeContext) (lockedBodies lockedFiles : List Bytes) :
    Runs platform s (s.purgeExpired ambient readings context lockedBodies lockedFiles).2 := by
  have haccounts := purgeAccounts_runs platform context s 0 (s.expiredAccounts ambient readings)
  unfold purgeExpired
  cases hcall : purgeAccounts context s 0 (s.expiredAccounts ambient readings) with
  | mk answer t =>
    rw [hcall] at haccounts
    cases answer with
    | error fault => exact haccounts
    | ok deleted =>
      have hbodies : Runs platform s { t with
          store := t.store.collectReceivedBlobs 500 lockedBodies } :=
        .next (.collectReceivedBlobs 500 lockedBodies) haccounts trivial rfl
      exact .next (.collectAttachments lockedFiles) hbodies trivial rfl

end Mailbox

/-- In every state that deliveries and the calls of the trash reach, each delivered message has the
row of its body; with bodies and attachments complete at the start they stay complete. Every
transaction follows the rules for what it deletes, and a call of `purgeExpired`, which is
several of them, is part of such a run. -/
theorem stored_bodies_follow_messages (platform : Platform) {start s : Mailbox}
    (hstart : start.Intact) (h : Mailbox.Runs platform start s) :
    (∀ key m, s.store.delivered.find key = some m →
      (s.store.provenance.find (m.body key)).isSome) ∧
    (start.Complete platform → s.Complete platform) ∧
    (∀ (e : Transaction platform) (t : Mailbox), s.Admits e → s.transact e = some t →
      Mailbox.Follows s e t) ∧
    ∀ ambient readings context lockedBodies lockedFiles,
      Mailbox.Runs platform start
        (s.purgeExpired ambient readings context lockedBodies lockedFiles).2 := by
  have hinvariant : s.Intact ∧ (start.Complete platform → s.Complete platform) := by
    refine h.invariant (I := fun s => s.Intact ∧ (start.Complete platform → s.Complete platform))
      ⟨hstart, id⟩ ?_
    intro s t e hs hadmits hstep
    have hkeeps := Mailbox.keeps_transact hs.1 hadmits hstep
    exact ⟨hkeeps.intact, fun hcomplete => hkeeps.complete (hs.2 hcomplete)⟩
  refine ⟨hinvariant.1.body, hinvariant.2, fun e t hadmits hstep => ?_, ?_⟩
  · exact (Mailbox.keeps_transact hinvariant.1 hadmits hstep).follows
  · intro ambient readings context lockedBodies lockedFiles
    exact h.trans (Mailbox.purgeExpired_runs platform s ambient readings context lockedBodies
      lockedFiles)

namespace Sample

/-- The mailboxes when the second worker holds the reply. -/
def mailbox : Mailbox := { (∅ : Mailbox) with store := held }

/-- Alice's account. -/
def session : Owner := ⟨aliceAccount, alice⟩

/-- The reply is delivered, put in the trash twice and, after thirty days, not restored. -/
def trashed : List (Transaction platform) :=
  [.deliver (provider 1787851302 delivered_le) (firstClaim "token-2" 2) [1, 2, 3] [] true,
    .remove (provider 1787851400 answered_le) session firstReply.fromDid firstReply.messageId false,
    .remove (provider 1787851500 (by decide)) session firstReply.fromDid firstReply.messageId false,
    .restore (provider 1790443400 (by decide)) session (some [some
      ⟨["sender", "messageId"], some firstReply.fromDid, some firstReply.messageId⟩])]

theorem intact_mailbox : mailbox.Intact := by
  have hnone {κ ρ σ τ : Type} [DecidableEq κ] [DecidableEq σ] {table : Table κ ρ}
      (hempty : table.rows.isEmpty = true) (refers : κ → ρ → σ) (target : Table σ τ) :
      table.ForeignKey refers target := by
    intro owner row hfind
    have hmem := Table.mem_rows.2 hfind
    rw [List.isEmpty_iff.1 hempty] at hmem
    cases hmem
  constructor
  · exact hnone (by decide +kernel) _ _
  · exact hnone (by decide +kernel) _ _
  · exact hnone (by decide +kernel) _ _
  · exact hnone (by decide +kernel) _ _
  · exact .empty
  · exact .empty
  · exact .empty

end Sample

theorem stored_bodies_follow_messages_reply :
    ∃ s, exec (fun s (e : Transaction Sample.platform) => s.transact e) Sample.mailbox
        Sample.trashed = some s ∧
      s.trashedAt.find Sample.firstReply.key = some (1787851400 * second) ∧
      ∃ m, s.store.delivered.find Sample.firstReply.key = some m ∧
        (s.store.provenance.find (m.body Sample.firstReply.key)).isSome := by
  have hrun : (exec (fun s (e : Transaction Sample.platform) => s.transact e) Sample.mailbox
      Sample.trashed).bind (fun s => (s.store.delivered.find Sample.firstReply.key).bind fun _ =>
        s.trashedAt.find Sample.firstReply.key) = some (1787851400 * second) := by
    decide +kernel
  obtain ⟨s, hs, hfound⟩ := Option.bind_eq_some_iff.1 hrun
  obtain ⟨m, hm, htrashed⟩ := Option.bind_eq_some_iff.1 hfound
  have hreaches : Reaches (fun s (e : Transaction Sample.platform) => s.transact e)
      (fun _ e => ∀ s : Mailbox, s.Admits e) Sample.mailbox s := by
    refine reaches_of_exec hs fun e he => ?_
    simp only [Sample.trashed, List.mem_cons, List.not_mem_nil, or_false] at he
    rcases he with rfl | rfl | rfl | rfl <;> exact fun _ => trivial
  have hruns : Mailbox.Runs Sample.platform Sample.mailbox s :=
    hreaches.mono fun s _ hadmits => hadmits s
  exact ⟨s, hs, htrashed, m, hm,
    (stored_bodies_follow_messages Sample.platform Sample.intact_mailbox hruns).1 _ m hm⟩

end HailProto.Messages
