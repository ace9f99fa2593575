import HailProto.Messages.Work

/-!
# What a delivery leaves behind

`deliver` reads the deadline twice: before it stores the body and its attachments, and after it.
An error rolls its transaction back, but the second answer that the message has expired returns
from the transaction and so commits what was stored in between. Here are the rows of verified
bodies, of attachments and of delivered messages before and after every call.
-/

namespace HailProto.Messages

open Server

/-- The tables a delivery stores content in. -/
structure Content where
  blobs : Table Bytes Bytes
  provenance : Table ProvenanceKey Unit
  attachmentBlobs : Table Bytes Bytes
  attachmentRefs : Table (ProvenanceKey × Bytes) Unit

namespace Store

def content (s : Store) : Content :=
  ⟨s.blobs, s.provenance, s.attachmentBlobs, s.attachmentRefs⟩

def withContent (s : Store) (content : Content) : Store :=
  { s with
    blobs := content.blobs
    provenance := content.provenance
    attachmentBlobs := content.attachmentBlobs
    attachmentRefs := content.attachmentRefs }

/-- The verified bodies, the attachments and the delivered messages are the same. -/
structure Untouched (s t : Store) : Prop where
  provenance : t.provenance = s.provenance
  attachmentRefs : t.attachmentRefs = s.attachmentRefs
  attachmentBlobs : t.attachmentBlobs = s.attachmentBlobs
  delivered : t.delivered = s.delivered

variable {platform : Platform} {s t : Store} {ambient : Ambient} {claim : DeliveryClaim}

theorem finish_content {work : DeliveryWork} {state : TerminalState}
    (h : s.finish ambient claim work state = .ok t) :
    t.content = s.content ∧ t.delivered = s.delivered := by
  obtain ⟨settled, leases, _, _, rfl⟩ := finish_ok h
  exact ⟨rfl, rfl⟩

theorem Untouched.refl (s : Store) : Untouched s s := ⟨rfl, rfl, rfl, rfl⟩

section Writes

variable {envelope : HailEnvelope} {bytes : Bytes} {files : List (Attachment × Bytes)}

/-- The store once the body is kept. -/
def storedBody (s : Store) (envelope : HailEnvelope) (bytes : Bytes) : Store :=
  { s with
    blobs := s.blobs.insertNew envelope.body.digest bytes
    provenance := s.provenance.insertNew (provenanceKey envelope) () }

/-- The body can be kept when its recipient is served here and its blob holds no other bytes. -/
theorem storeBody_eq_ok (hlength : 1 ≤ bytes.length ∧ bytes.length ≤ bodyMaxBytes)
    (hdigest : platform.sha256 bytes = envelope.body.digest) :
    s.storeBody platform ambient envelope bytes = .ok t ↔
      ambient.assertUnfencedDid envelope.toDid = .ok () ∧
        (∀ b, s.blobs.find envelope.body.digest = some b → b = bytes) ∧
        t = s.storedBody envelope bytes := by
  have hshape : ¬(bytes.length < 1 ∨ bodyMaxBytes < bytes.length ∨
      platform.sha256 bytes ≠ envelope.body.digest) := by
    rintro (h | h | h)
    · omega
    · omega
    · exact h hdigest
  have hconflict : (s.blobs.find envelope.body.digest).any (fun b => decide (b ≠ bytes)) ≠ true ↔
      ∀ b, s.blobs.find envelope.body.digest = some b → b = bytes := by
    cases s.blobs.find envelope.body.digest <;> simp
  simp only [storeBody, bind_eq_ok, if_neg hshape, guard_eq_ok, hconflict, Except.ok.injEq]
  constructor
  · rintro ⟨_, hunfenced, hblob, rfl⟩
    exact ⟨hunfenced, hblob, rfl⟩
  · rintro ⟨hunfenced, hblob, rfl⟩
    exact ⟨(), hunfenced, hblob, rfl⟩

/-- What a stored file leaves: its bytes and the reference to them. -/
def storeFile (s : Store) (envelope : HailEnvelope) (file : Attachment × Bytes) : Store :=
  { s with
    attachmentBlobs := s.attachmentBlobs.insertNew file.1.digest file.2
    attachmentRefs := s.attachmentRefs.insertNew (provenanceKey envelope, file.1.digest) () }

/-- No stored file, and no other of the files, has the digest of a file but other bytes. -/
structure Storable (s : Store) (files : List (Attachment × Bytes)) : Prop where
  stored : ∀ file ∈ files, ∀ b, s.attachmentBlobs.find file.1.digest = some b → b = file.2
  consistent : files.Pairwise fun f g => f.1.digest = g.1.digest → f.2 = g.2

theorem storable_cons (envelope : HailEnvelope) {file : Attachment × Bytes} :
    Storable s (file :: files) ↔
      (∀ b, s.attachmentBlobs.find file.1.digest = some b → b = file.2) ∧
        Storable (s.storeFile envelope file) files := by
  have hfind (digest : Bytes) : (s.storeFile envelope file).attachmentBlobs.find digest =
      if digest = file.1.digest then some ((s.attachmentBlobs.find file.1.digest).getD file.2)
      else s.attachmentBlobs.find digest := Table.find_insertNew _ _ _ _
  constructor
  · rintro ⟨hstored, hconsistent⟩
    rw [List.pairwise_cons] at hconsistent
    have hfile := hstored file List.mem_cons_self
    refine ⟨hfile, fun other hother b hb => ?_, hconsistent.2⟩
    rw [hfind] at hb
    by_cases hsame : other.1.digest = file.1.digest
    · rw [if_pos hsame, Option.some.injEq] at hb
      have hbytes : (s.attachmentBlobs.find file.1.digest).getD file.2 = file.2 := by
        cases hold : s.attachmentBlobs.find file.1.digest with
        | none => rfl
        | some old => exact hfile old hold
      rw [← hb, hbytes]
      exact hconsistent.1 other hother hsame.symm
    · rw [if_neg hsame] at hb
      exact hstored other (List.mem_cons_of_mem _ hother) b hb
  · rintro ⟨hfile, hstored, hconsistent⟩
    have hlater : ∀ other ∈ files, file.1.digest = other.1.digest → file.2 = other.2 := by
      intro other hother hsame
      have hb := hstored other hother
      rw [hfind, if_pos hsame.symm] at hb
      have hbytes := hb _ rfl
      cases hold : s.attachmentBlobs.find file.1.digest with
      | none => simpa [hold] using hbytes
      | some old =>
        rw [hold, Option.getD_some] at hbytes
        exact (hfile old hold).symm.trans hbytes
    refine ⟨?_, List.pairwise_cons.2 ⟨hlater, hconsistent⟩⟩
    rintro other (_ | ⟨_, hother⟩) b hb
    · exact hfile b hb
    · by_cases hsame : other.1.digest = file.1.digest
      · rw [hsame] at hb
        rw [hfile b hb]
        exact hlater other hother hsame.symm
      · exact hstored other hother b (by rw [hfind, if_neg hsame]; exact hb)

/-- The files are stored in order, unless one of them collides. -/
theorem storeAttachments_eq_ok :
    s.storeAttachments envelope files = .ok t ↔
      Storable s files ∧ t = files.foldl (·.storeFile envelope ·) s := by
  induction files generalizing s with
  | nil =>
    constructor
    · intro h
      cases h
      exact ⟨⟨fun _ h => (by cases h), .nil⟩, rfl⟩
    · rintro ⟨_, rfl⟩
      rfl
  | cons file files ih =>
    have hcollides : ¬(s.attachmentBlobs.find file.1.digest).any (fun b => decide (b ≠ file.2)) ↔
        ∀ b, s.attachmentBlobs.find file.1.digest = some b → b = file.2 := by
      cases s.attachmentBlobs.find file.1.digest <;> simp
    rw [storable_cons envelope]
    simp only [storeAttachments, guard_eq_ok, hcollides, List.foldl_cons, and_assoc]
    exact and_congr_right fun _ => ih

/-- A file whose bytes and reference are stored. -/
def Kept (s : Store) (envelope : HailEnvelope) (file : Attachment × Bytes) : Prop :=
  (s.attachmentBlobs.find file.1.digest).isSome ∧
    (s.attachmentRefs.find (provenanceKey envelope, file.1.digest)).isSome

theorem isSome_insertNew {κ ρ : Type} [DecidableEq κ] (table : Table κ ρ) (key key' : κ)
    (row : ρ) : ((table.insertNew key row).find key').isSome ↔
      key' = key ∨ (table.find key').isSome := by
  rw [Table.find_insertNew]
  by_cases hkey : key' = key
  · simp [hkey]
  · simp [hkey]

theorem Kept.storeFile {file other : Attachment × Bytes} (h : s.Kept envelope other) :
    (s.storeFile envelope file).Kept envelope other :=
  ⟨(isSome_insertNew _ _ _ _).2 (.inr h.1), (isSome_insertNew _ _ _ _).2 (.inr h.2)⟩

theorem kept_storeFile (s : Store) (file : Attachment × Bytes) :
    (s.storeFile envelope file).Kept envelope file :=
  ⟨(isSome_insertNew _ _ _ _).2 (.inl rfl), (isSome_insertNew _ _ _ _).2 (.inl rfl)⟩

theorem kept_storeFiles (s : Store) (envelope : HailEnvelope) :
    ∀ file ∈ files, (files.foldl (·.storeFile envelope ·) s).Kept envelope file := by
  have hmono (files : List (Attachment × Bytes)) (s : Store) (other : Attachment × Bytes)
      (h : s.Kept envelope other) : (files.foldl (·.storeFile envelope ·) s).Kept envelope other := by
    induction files generalizing s with
    | nil => exact h
    | cons file files ih => exact ih _ h.storeFile
  induction files generalizing s with
  | nil => exact fun _ h => (by cases h)
  | cons file files ih =>
    rintro other (_ | ⟨_, hother⟩)
    · exact hmono files _ _ (kept_storeFile s file)
    · exact ih _ other hother

end Writes

/-- The call has something to store: the body is not kept for its recipient and sender yet, or
one of the files is not. -/
def Fresh (s : Store) (envelope : HailEnvelope) (files : List (Attachment × Bytes)) : Prop :=
  s.provenance.find (provenanceKey envelope) = none ∨ ∃ file ∈ files, ¬s.Kept envelope file

/-- The store after the body and the files of a call. -/
def stored (s : Store) (envelope : HailEnvelope) (bytes : Bytes)
    (files : List (Attachment × Bytes)) : Store :=
  files.foldl (·.storeFile envelope ·) (s.storedBody envelope bytes)

section Calls

variable {envelope : HailEnvelope} {bytes : Bytes} {attachments : List Bytes}
  {files : List (Attachment × Bytes)} {work : DeliveryWork} {authorized : Bool}

/-- A checked body has a length it can be stored with and the digest of its envelope. -/
theorem checkBody_shape (h : checkBody platform envelope bytes attachments = .ok files) :
    (1 ≤ bytes.length ∧ bytes.length ≤ bodyMaxBytes) ∧
      platform.sha256 bytes = envelope.body.digest := by
  simp only [checkBody, guard_eq_ok, bind_eq_ok, not_or, ne_eq, not_not] at h
  obtain ⟨⟨_, hdigest⟩, described, hbody, _⟩ := h
  simp only [validateBodyBytes, guard_eq_ok, not_or, not_lt] at hbody
  exact ⟨hbody.1, hdigest⟩

/-- Files only write the tables of the attachments. -/
theorem storeFiles_withContent (s : Store) (envelope : HailEnvelope)
    (files : List (Attachment × Bytes)) :
    files.foldl (·.storeFile envelope ·) s =
        s.withContent (files.foldl (·.storeFile envelope ·) s).content ∧
      (files.foldl (·.storeFile envelope ·) s).blobs = s.blobs ∧
      (files.foldl (·.storeFile envelope ·) s).provenance = s.provenance := by
  induction files generalizing s with
  | nil => exact ⟨rfl, rfl, rfl⟩
  | cons file files ih =>
    obtain ⟨hcontent, hblobs, hprovenance⟩ := ih (s.storeFile envelope file)
    exact ⟨hcontent, hblobs, hprovenance⟩

theorem stored_withContent (s : Store) (envelope : HailEnvelope) (bytes : Bytes)
    (files : List (Attachment × Bytes)) :
    s.stored envelope bytes files = s.withContent (s.stored envelope bytes files).content :=
  (storeFiles_withContent _ envelope files).1

/-- After the writes the body is found under its digest with these bytes. -/
theorem find_stored_blob (hblob : ∀ b, s.blobs.find envelope.body.digest = some b → b = bytes) :
    (s.stored envelope bytes files).blobs.find envelope.body.digest = some bytes := by
  have hblobs : (s.stored envelope bytes files).blobs =
      s.blobs.insertNew envelope.body.digest bytes :=
    (storeFiles_withContent _ envelope files).2.1
  rw [hblobs, Table.find_insertNew, if_pos rfl]
  cases hold : s.blobs.find envelope.body.digest with
  | none => rfl
  | some old => rw [Option.getD_some, hblob old hold]

end Calls

end Store

namespace Sample

/-- The store when the second worker holds the reply. -/
def held : Store := ((run (replyDelivered.take 4)).map System.store).getD ∅

end Sample

end HailProto.Messages
