import HailProto.Core.Transition
import HailProto.Messages.Trash

/-!
# Stored bodies follow their messages

The foreign keys of the tables hold in every state that deliveries and the calls of the trash
reach, a body leaves with the last message that has it, and an attachment only when nothing
refers to it. One lemma describes every deletion of messages: the calls of the trash differ in
the condition by which they choose them.
-/

namespace HailProto.Messages

open Server

theorem DeliveredMessage.key_reference {key : MessageKey} {m : DeliveredMessage} {did : Did}
    (h : m.recipientDid = did) : (m.reference key).key did = m.body key := by
  subst h
  rfl

namespace Store

variable {platform : Platform} {s t : Store} {ambient : Ambient} {claim : DeliveryClaim}
  {envelope : HailEnvelope} {bytes : Bytes} {attachments : List Bytes}
  {files : List (Attachment × Bytes)} {authorized : Bool} {outcome : DeliverOutcome}

/-- The rows of the freed bodies are gone, with the references to their attachments, and nothing
else has changed. -/
structure Released (s t : Store) (freed : ProvenanceKey → Prop) : Prop where
  gone : ∀ key, freed key → t.provenance.find key = none
  kept : ∀ key, ¬freed key → t.provenance.find key = s.provenance.find key
  refsGone : ∀ key digest, freed key → t.attachmentRefs.find (key, digest) = none
  refsKept : ∀ key digest, ¬freed key →
    t.attachmentRefs.find (key, digest) = s.attachmentRefs.find (key, digest)
  rest : t = { s with
    provenance := t.provenance
    attachmentRefs := t.attachmentRefs }

theorem Released.refl (s : Store) : Released s s fun _ => False :=
  ⟨fun _ h => h.elim, fun _ _ => rfl, fun _ _ h => h.elim, fun _ _ _ => rfl, rfl⟩

theorem Released.trans {u : Store} {freed freed' : ProvenanceKey → Prop} (h : Released s t freed)
    (h' : Released t u freed') : Released s u fun key => freed key ∨ freed' key where
  gone key hfreed := by
    by_cases hlate : freed' key
    · exact h'.gone key hlate
    · rw [h'.kept key hlate]
      exact h.gone key (hfreed.resolve_right hlate)
  kept key hfreed := by
    rw [not_or] at hfreed
    rw [h'.kept key hfreed.2, h.kept key hfreed.1]
  refsGone key digest hfreed := by
    by_cases hlate : freed' key
    · exact h'.refsGone key digest hlate
    · rw [h'.refsKept key digest hlate]
      exact h.refsGone key digest (hfreed.resolve_right hlate)
  refsKept key digest hfreed := by
    rw [not_or] at hfreed
    rw [h'.refsKept key digest hfreed.2, h.refsKept key digest hfreed.1]
  rest := by
    rw [h'.rest, h.rest]

theorem Released.congr {freed freed' : ProvenanceKey → Prop} (h : Released s t freed)
    (hiff : ∀ key, freed key ↔ freed' key) : Released s t freed' := by
  obtain rfl : freed = freed' := funext fun key => propext (hiff key)
  exact h

theorem released_releaseBody (s : Store) (body : ProvenanceKey) :
    Released s (s.releaseBody body) fun key =>
      key = body ∧ ¬s.delivered.Refers DeliveredMessage.body key := by
  unfold releaseBody
  by_cases hfree : s.delivered.Refers DeliveredMessage.body body
  · rw [if_neg (by rwa [Table.unreferenced_iff, not_not])]
    refine (Released.refl s).congr fun key => ?_
    simp only [false_iff, not_and, not_not]
    rintro rfl
    exact hfree
  · rw [if_pos (Table.unreferenced_iff.2 hfree)]
    have hfreed (key : ProvenanceKey) :
        key = body ∧ ¬s.delivered.Refers DeliveredMessage.body key ↔ key = body :=
      ⟨And.left, fun h => ⟨h, h ▸ hfree⟩⟩
    refine Released.congr ⟨?_, ?_, ?_, ?_, rfl⟩ fun key => (hfreed key).symm
    · exact fun key hkey => Table.find_deleteWhere_of_delete fun _ _ => decide_eq_true hkey
    · exact fun key hne => Table.find_deleteWhere_of_keep fun _ _ => decide_eq_false hne
    · exact fun key digest hkey => Table.find_deleteWhere_of_delete fun _ _ => decide_eq_true hkey
    · exact fun key digest hne => Table.find_deleteWhere_of_keep fun _ _ => decide_eq_false hne

/-- `cleanBodies` frees the bodies of the removed messages that no other message has. -/
theorem released_cleanBodies (s : Store) (did : Did) (removed : List BodyReference) :
    Released s (s.cleanBodies did removed) fun key =>
      (∃ row ∈ removed, row.key did = key) ∧ ¬s.delivered.Refers DeliveredMessage.body key := by
  induction removed generalizing s with
  | nil =>
    refine (Released.refl s).congr fun key => ?_
    simp
  | cons row rest ih =>
    have hfirst := released_releaseBody s (row.key did)
    have hdelivered : (s.releaseBody (row.key did)).delivered = s.delivered := by
      rw [hfirst.rest]
    have hrest := ih (s.releaseBody (row.key did))
    rw [hdelivered] at hrest
    refine (hfirst.trans hrest).congr fun key => ?_
    simp only [List.mem_cons, exists_eq_or_imp, ← or_and_right, eq_comm (a := key)]

/-- Every file is found under its digest once all of them are stored. -/
theorem find_storeFiles (h : Storable s files) : ∀ file ∈ files,
    (files.foldl (·.storeFile envelope ·) s).attachmentBlobs.find file.1.digest = some file.2 := by
  have hkept (files : List (Attachment × Bytes)) (s : Store) {digest b : Bytes}
      (hfind : s.attachmentBlobs.find digest = some b) :
      (files.foldl (·.storeFile envelope ·) s).attachmentBlobs.find digest = some b := by
    induction files generalizing s with
    | nil => exact hfind
    | cons file files ih =>
      refine ih _ ?_
      have hinsert : (s.storeFile envelope file).attachmentBlobs.find digest =
          if digest = file.1.digest then
            some ((s.attachmentBlobs.find file.1.digest).getD file.2)
          else s.attachmentBlobs.find digest := Table.find_insertNew _ _ _ _
      rw [hinsert]
      by_cases hsame : digest = file.1.digest
      · rw [if_pos hsame, ← hsame, hfind, Option.getD_some]
      · rw [if_neg hsame, hfind]
  induction files generalizing s with
  | nil => exact fun _ h => (by cases h)
  | cons file files ih =>
    obtain ⟨hfile, hrest⟩ := (storable_cons envelope).1 h
    rintro other (_ | ⟨_, hother⟩)
    · refine hkept files _ ?_
      have hinsert : (s.storeFile envelope file).attachmentBlobs.find file.1.digest =
          some ((s.attachmentBlobs.find file.1.digest).getD file.2) :=
        (Table.find_insertNew _ _ _ _).trans (if_pos rfl)
      rw [hinsert]
      cases hold : s.attachmentBlobs.find file.1.digest with
      | none => rfl
      | some old => rw [Option.getD_some, hfile old hold]
    · exact ih hrest other hother

/-- The row that a delivery inserts for its envelope. -/
def deliveredRow (envelope : HailEnvelope) (envelopeDigest : Bytes) : DeliveredMessage :=
  ⟨envelope.toDid, envelopeDigest, envelope.body.digest, envelope.body.mediaType,
    envelope.body.profile⟩

/-- What a committed call of `deliver` has written: nothing, or the body with its files and then
perhaps the message. -/
theorem deliver_writes
    (h : s.deliver platform ambient claim bytes attachments authorized = .ok (outcome, t)) :
    (t.content = s.content ∧ t.delivered = s.delivered) ∨
      ∃ files, checkBody platform claim.envelope bytes attachments = .ok files ∧
        (∀ b, s.blobs.find claim.envelope.body.digest = some b → b = bytes) ∧
        Storable s files ∧ t.content = (s.stored claim.envelope bytes files).content ∧
        (t.delivered = s.delivered ∨ s.delivered.find claim.envelope.key = none ∧
          ∃ digest, t.delivered =
            s.delivered.insert claim.envelope.key (deliveredRow claim.envelope digest)) := by
  simp only [deliver, bind_eq_ok] at h
  obtain ⟨files, hchecked, h⟩ := h
  obtain ⟨hlength, hdigest⟩ := checkBody_shape hchecked
  split at h
  · cases h
    exact .inl ⟨rfl, rfl⟩
  · rename_i work hheld
    split at h
    · simp only [bind_eq_ok, Except.ok.injEq, Prod.mk.injEq] at h
      obtain ⟨s₁, hfinish, _, rfl⟩ := h
      exact .inl (finish_content hfinish)
    · simp only [bind_eq_ok] at h
      obtain ⟨permitted, _, h⟩ := h
      split at h
      · simp only [bind_eq_ok, Except.ok.injEq, Prod.mk.injEq] at h
        obtain ⟨s₁, hfinish, _, rfl⟩ := h
        exact .inl (finish_content hfinish)
      · simp only [bind_eq_ok, guard_eq_ok, storeBody_eq_ok hlength hdigest,
          storeAttachments_eq_ok] at h
        obtain ⟨s₁, ⟨_, hblob, rfl⟩, s₂, ⟨hstorable, rfl⟩, _, h⟩ := h
        change (if _ then _ else (s.stored claim.envelope bytes files).insertDelivered _ _ >>= _) =
          _ at h
        have hdelivered : (s.stored claim.envelope bytes files).delivered = s.delivered := by
          rw [stored_withContent]
          rfl
        refine .inr ⟨files, hchecked, hblob, ⟨hstorable.stored, hstorable.consistent⟩, ?_⟩
        split at h
        · simp only [bind_eq_ok, Except.ok.injEq, Prod.mk.injEq] at h
          obtain ⟨s₃, hfinish, _, rfl⟩ := h
          obtain ⟨hcontent, hsame⟩ := finish_content hfinish
          exact ⟨hcontent, .inl (hsame.trans hdelivered)⟩
        · simp only [bind_eq_ok, Except.ok.injEq, Prod.mk.injEq] at h
          obtain ⟨s₃, hinsert, s₄, hfinish, _, rfl⟩ := h
          obtain ⟨hcontent, hsame⟩ := finish_content hfinish
          unfold insertDelivered at hinsert
          split at hinsert
          · cases hinsert
            exact ⟨hcontent, .inl (hsame.trans hdelivered)⟩
          · rename_i row _
            simp only [bind_eq_ok, guard_eq_ok, Except.ok.injEq] at hinsert
            obtain ⟨_, _, _, _, hnew, rfl⟩ := hinsert
            rw [hdelivered] at hnew
            refine ⟨hcontent, .inr ⟨?_, row.envelopeDigest, ?_⟩⟩
            · simpa using hnew
            · rw [hsame, ← hdelivered]
              rfl

theorem digests_of_validated {files : List (Attachment × Bytes)}
    (h : validateAttachments platform files = .ok ()) :
    ∀ file ∈ files, platform.sha256 file.2 = file.1.digest := by
  induction files with
  | nil => exact fun _ h => (by cases h)
  | cons file files ih =>
    simp only [validateAttachments, bind_eq_ok, validateAttachmentBytes, guard_eq_ok, not_or,
      not_not] at h
    obtain ⟨_, ⟨hfile, _⟩, hrest⟩ := h
    rintro other (_ | ⟨_, hother⟩)
    · exact hfile.2
    · exact ih hrest other hother

/-- A checked body decodes, and each file it names comes with bytes of its digest. -/
theorem checkBody_document
    (h : checkBody platform envelope bytes attachments = .ok files) :
    ∃ document, platform.decodeBody bytes = some document ∧
      ∀ file ∈ document.attachments, ∃ b, (file, b) ∈ files ∧ platform.sha256 b = file.digest := by
  simp only [checkBody, guard_eq_ok, bind_eq_ok, not_or, ne_eq, not_not] at h
  obtain ⟨_, described, hbody, hcount, _, hvalid, hfiles⟩ := h
  cases hfiles
  have hdigests := digests_of_validated hvalid
  simp only [validateBodyBytes, guard_eq_ok] at hbody
  obtain ⟨_, hbody⟩ := hbody
  cases hdocument : platform.decodeBody bytes with
  | none =>
    rw [hdocument] at hbody
    cases hbody
  | some document =>
    simp only [hdocument, guard_eq_ok, Except.ok.injEq] at hbody
    obtain ⟨_, rfl⟩ := hbody
    refine ⟨document, rfl, fun file hfile => ?_⟩
    obtain ⟨i, hi, hget⟩ := List.mem_iff_getElem.1 hfile
    have hi' : i < attachments.length := hcount ▸ hi
    have hpair : (file, attachments[i]) ∈ document.attachments.zip attachments := by
      rw [List.mem_iff_getElem]
      exact ⟨i, by rw [List.length_zip]; omega, by rw [List.getElem_zip, hget]⟩
    exact ⟨_, hpair, hdigests _ hpair⟩

end Store

namespace Mailbox

variable {platform : Platform}

/-- The foreign keys of the tables. -/
structure Intact (s : Mailbox) : Prop where
  body : s.store.delivered.ForeignKey DeliveredMessage.body s.store.provenance
  blob : s.store.provenance.ForeignKey (fun key _ => key.digest) s.store.blobs
  owner : s.store.attachmentRefs.ForeignKey (fun key _ => key.1) s.store.provenance
  received : s.store.attachmentRefs.ForeignKey (fun key _ => key.2) s.store.attachmentBlobs
  uploaded : s.uploads.ForeignKey (fun key _ => key.2) s.store.attachmentBlobs
  outgoing : s.bodyRefs.ForeignKey (fun key _ => key.2.2) s.store.attachmentBlobs
  trashed : s.trashedAt.ForeignKey (fun key _ => key) s.store.delivered

/-- The body of the message is kept, and every attachment that the body names. -/
def CompleteMessage (platform : Platform) (store : Store) (key : MessageKey)
    (m : DeliveredMessage) : Prop :=
  ∃ bytes document, store.blobs.find m.bodyDigest = some bytes ∧
    platform.sha256 bytes = m.bodyDigest ∧ platform.decodeBody bytes = some document ∧
    ∀ file ∈ document.attachments,
      (store.attachmentRefs.find (m.body key, file.digest)).isSome ∧
      ∃ b, store.attachmentBlobs.find file.digest = some b ∧ platform.sha256 b = file.digest

def Complete (platform : Platform) (s : Mailbox) : Prop :=
  ∀ key m, s.store.delivered.find key = some m → CompleteMessage platform s.store key m

/-- The mailbox after messages of the recipient are deleted with their bodies. Nothing else that
refers to a body or an attachment is added. -/
structure Discards (s t : Mailbox) (did : Did)
    (condition : MessageKey → DeliveredMessage → Bool) : Prop where
  own : ∀ key m, s.store.delivered.find key = some m → condition key m = true →
    m.recipientDid = did
  store : t.store = (s.deleteMessages condition).2.store.cleanBodies did
    (s.deleteMessages condition).1
  trashedAt : t.trashedAt = (s.deleteMessages condition).2.trashedAt
  uploads : ∀ key row, t.uploads.find key = some row → s.uploads.find key = some row
  bodyRefs : t.bodyRefs = s.bodyRefs

namespace Discards

variable {s t : Mailbox} {did : Did} {condition : MessageKey → DeliveredMessage → Bool}

/-- A body is freed when a message with it is deleted and no message with it is left. -/
def Freed (s : Mailbox) (condition : MessageKey → DeliveredMessage → Bool)
    (body : ProvenanceKey) : Prop :=
  s.store.delivered.Refers DeliveredMessage.body body ∧
    ¬(s.store.delivered.deleteWhere condition).Refers DeliveredMessage.body body

theorem freed_iff (h : Discards s t did condition) (body : ProvenanceKey) :
    ((∃ row ∈ (s.deleteMessages condition).1, row.key did = body) ∧
      ¬(s.store.delivered.deleteWhere condition).Refers DeliveredMessage.body body) ↔
      Freed s condition body := by
  refine and_congr_left fun hnone => ?_
  simp only [deleteMessages, List.mem_map, List.mem_filter]
  constructor
  · rintro ⟨_, ⟨⟨key, m⟩, ⟨hrow, hdeleted⟩, rfl⟩, rfl⟩
    have hfind := Table.mem_rows.1 hrow
    exact ⟨key, m, hfind, (DeliveredMessage.key_reference (h.own key m hfind hdeleted)).symm⟩
  · rintro ⟨key, m, hfind, rfl⟩
    -- A message that stays would still have the body.
    have hdeleted : condition key m = true := by
      by_contra hkept
      refine hnone ⟨key, m, ?_, rfl⟩
      rw [Table.find_deleteWhere, hfind, Option.filter_some, if_pos (by simpa using hkept)]
    exact ⟨_, ⟨(key, m), ⟨Table.mem_rows.2 hfind, hdeleted⟩, rfl⟩,
      DeliveredMessage.key_reference (h.own key m hfind hdeleted)⟩

theorem released (h : Discards s t did condition) :
    Store.Released (s.deleteMessages condition).2.store t.store (Freed s condition) := by
  rw [h.store]
  exact (Store.released_cleanBodies _ did _).congr h.freed_iff

theorem delivered (h : Discards s t did condition) :
    t.store.delivered = s.store.delivered.deleteWhere condition := by
  rw [h.released.rest]
  rfl

theorem blobs (h : Discards s t did condition) : t.store.blobs = s.store.blobs := by
  rw [h.released.rest]
  rfl

theorem attachmentBlobs (h : Discards s t did condition) :
    t.store.attachmentBlobs = s.store.attachmentBlobs := by
  rw [h.released.rest]
  rfl

/-- A body that a message still has is not freed. -/
theorem not_freed (h : Discards s t did condition) {body : ProvenanceKey}
    (hrefers : t.store.delivered.Refers DeliveredMessage.body body) :
    ¬Freed s condition body := by
  rw [h.delivered] at hrefers
  exact fun hfreed => hfreed.2 hrefers

theorem find_delivered (h : Discards s t did condition) {key : MessageKey}
    {m : DeliveredMessage} (hfind : t.store.delivered.find key = some m) :
    s.store.delivered.find key = some m ∧ condition key m = false := by
  rw [h.delivered, Table.find_deleteWhere, Option.filter_eq_some_iff] at hfind
  exact ⟨hfind.1, by simpa using hfind.2⟩

theorem find_trashedAt (h : Discards s t did condition) (key : MessageKey) :
    t.trashedAt.find key = if (s.store.delivered.find key).any (condition key) then none
      else s.trashedAt.find key := by
  rw [h.trashedAt, deleteMessages]
  by_cases hdeleted : (s.store.delivered.find key).any (condition key) = true
  · rw [if_pos hdeleted]
    exact Table.find_deleteWhere_of_delete fun _ _ => hdeleted
  · rw [if_neg hdeleted]
    exact Table.find_deleteWhere_of_keep fun _ _ => by simpa using hdeleted

theorem intact (h : Discards s t did condition) (hs : s.Intact) : t.Intact where
  body key m hfind := by
    rw [h.released.kept _ (h.not_freed ⟨key, m, hfind, rfl⟩)]
    exact hs.body key m (h.find_delivered hfind).1
  blob := by
    intro key row hfind
    rw [h.blobs]
    by_cases hfreed : Freed s condition key
    · rw [h.released.gone key hfreed] at hfind
      cases hfind
    · rw [h.released.kept key hfreed] at hfind
      exact hs.blob key row hfind
  owner := by
    rintro ⟨key, digest⟩ row hfind
    by_cases hfreed : Freed s condition key
    · rw [h.released.refsGone key digest hfreed] at hfind
      cases hfind
    · rw [h.released.refsKept key digest hfreed] at hfind
      rw [h.released.kept key hfreed]
      exact hs.owner _ row hfind
  received := by
    rintro ⟨key, digest⟩ row hfind
    rw [h.attachmentBlobs]
    by_cases hfreed : Freed s condition key
    · rw [h.released.refsGone key digest hfreed] at hfind
      cases hfind
    · rw [h.released.refsKept key digest hfreed] at hfind
      exact hs.received _ row hfind
  uploaded key row hfind := by
    rw [h.attachmentBlobs]
    exact hs.uploaded key row (h.uploads key row hfind)
  outgoing := by
    rw [h.bodyRefs, h.attachmentBlobs]
    exact hs.outgoing
  trashed key instant hfind := by
    rw [h.find_trashedAt] at hfind
    split at hfind
    · cases hfind
    · rename_i hkept
      obtain ⟨m, hm⟩ := Option.isSome_iff_exists.1 (hs.trashed key instant hfind)
      rw [hm, Option.any_some] at hkept
      rw [h.delivered, Table.find_deleteWhere, hm, Option.filter_some,
        if_pos (by simpa using hkept)]
      rfl

theorem complete (h : Discards s t did condition) (hs : s.Complete platform) :
    t.Complete platform := by
  intro key m hfind
  obtain ⟨bytes, document, hblob, hsha, hdocument, hfiles⟩ :=
    hs key m (h.find_delivered hfind).1
  rw [CompleteMessage, h.blobs, h.attachmentBlobs]
  refine ⟨bytes, document, hblob, hsha, hdocument, fun file hfile => ?_⟩
  rw [h.released.refsKept _ _ (h.not_freed ⟨key, m, hfind, rfl⟩)]
  exact hfiles file hfile

/-- A body whose last message is deleted is deleted with it. -/
theorem provenance_gone (h : Discards s t did condition) {body : ProvenanceKey}
    (hbefore : s.store.delivered.Refers DeliveredMessage.body body)
    (hafter : ¬t.store.delivered.Refers DeliveredMessage.body body) :
    t.store.provenance.find body = none := by
  rw [h.delivered] at hafter
  exact h.released.gone body ⟨hbefore, hafter⟩

/-- A trashed message stays so, or it is deleted. -/
theorem trashed_or_deleted (h : Discards s t did condition) {key : MessageKey} {instant : Nat}
    (hfind : s.trashedAt.find key = some instant) :
    t.trashedAt.find key = some instant ∨ t.store.delivered.find key = none := by
  rw [h.find_trashedAt, h.delivered]
  by_cases hdeleted : (s.store.delivered.find key).any (condition key) = true
  · right
    refine Table.find_deleteWhere_of_delete fun m hm => ?_
    rwa [hm, Option.any_some] at hdeleted
  · rw [if_neg hdeleted]
    exact .inl hfind

end Discards

end Mailbox

end HailProto.Messages
