import HailProto.Codec.PngReads

/-!
# The grammar of PNG files

A file is the signature followed by chunks. The validators accept the files whose chunks are a
header, a palette where the color type wants one, one run of image data and an end, between
chunks that a reader may pass over, and nothing else.
-/

namespace HailProto.Codec

/-! ## Words -/

/-- The number that some bytes are, the highest first. -/
def bigEndian (bytes : List UInt8) : Nat := bytes.foldl (fun n b => n * 256 + b.toNat) 0

/-- A number as four bytes, the highest first. -/
def wordBytes (n : Nat) : List UInt8 :=
  [UInt8.ofNat (n / 2 ^ 24), UInt8.ofNat (n / 2 ^ 16), UInt8.ofNat (n / 2 ^ 8), UInt8.ofNat n]

section Words

variable {data rest : List UInt8} {n : Nat}

@[simp] theorem length_wordBytes : (wordBytes n).length = 4 := rfl

theorem bigEndian_wordBytes (h : n < 2 ^ 32) : bigEndian (wordBytes n) = n := by
  simp only [bigEndian, wordBytes, List.foldl_cons, List.foldl_nil, UInt8.toNat_ofNat']
  omega

theorem wordBytes_bigEndian {bytes : List UInt8} (h : bytes.length = 4) :
    wordBytes (bigEndian bytes) = bytes := by
  obtain ⟨a, b, c, d, rfl⟩ : ∃ a b c d, bytes = [a, b, c, d] := by
    match bytes, h with
    | [a, b, c, d], _ => exact ⟨a, b, c, d, rfl⟩
  have ha := a.toNat_lt
  have hb := b.toNat_lt
  have hc := c.toNat_lt
  have hd := d.toNat_lt
  simp only [bigEndian, wordBytes, List.foldl_cons, List.foldl_nil, List.cons.injEq, and_true,
    ← UInt8.toNat_inj, UInt8.toNat_ofNat']
  omega

/-- A word is read where its bytes stand. -/
theorem uint32_of_drop {offset : Nat} (hn : n < 2 ^ 32)
    (h : data.drop offset = wordBytes n ++ rest) : uint32 data offset = n := by
  have htake : (data.drop offset).take 4 = wordBytes n := by
    rw [h, List.take_append_of_le_length (by simp), List.take_of_length_le (by simp)]
  rw [uint32, htake]
  exact bigEndian_wordBytes hn

theorem wordBytes_uint32 {offset : Nat} (h : offset + 4 ≤ data.length) :
    wordBytes (uint32 data offset) = (data.drop offset).take 4 :=
  wordBytes_bigEndian (by rw [List.length_take, List.length_drop]; omega)

theorem checksum_lt (bytes : List UInt8) : checksum bytes < 2 ^ 32 := UInt32.toNat_lt _

end Words

/-! ## Chunks -/

/-- A chunk, without its length and checksum, which are functions of the rest. -/
structure PngChunk where
  type : List UInt8
  content : List UInt8
  type_length : type.length = 4
  content_length : content.length < 2 ^ 32

namespace PngChunk

/-- A chunk as it stands in a file. -/
def bytes (c : PngChunk) : List UInt8 :=
  wordBytes c.content.length ++ (c.type ++ (c.content ++ wordBytes (checksum (c.type ++ c.content))))

/-- A chunk that a reader may pass over: its type says so, and it does not begin an animation. -/
def Ancillary (c : PngChunk) : Prop :=
  ¬(65 ≤ byteAt c.type 0 ∧ byteAt c.type 0 ≤ 90) ∧ c.type ≠ actl

/-- A palette of 1 to 256 colors. -/
def IsPalette (c : PngChunk) : Prop :=
  c.type = plte ∧ c.content.length ≠ 0 ∧ c.content.length % 3 = 0 ∧ c.content.length ≤ 768

/-- A header of these dimensions and color type, in one of the permitted profiles. -/
structure IsHeader (c : PngChunk) (width height color : Nat) : Prop where
  type : c.type = ihdr
  length : c.content.length = 13
  width : uint32 c.content 0 = width
  height : uint32 c.content 4 = height
  depth : (bitDepths color).contains (byteAt c.content 8) = true
  color : byteAt c.content 9 = color
  compression : byteAt c.content 10 = 0
  filter : byteAt c.content 11 = 0
  interlace : byteAt c.content 12 ≤ 1

end PngChunk

/-- Whether there is a palette among some chunks. -/
def hasPalette (chunks : List PngChunk) : Bool := chunks.any fun c => c.type = plte

/-- A palette is there where the color type is indexed, and none where it is gray. -/
def PaletteFits (color : Nat) (palette : Bool) : Prop :=
  (color = 3 → palette = true) ∧ (color = 0 ∨ color = 4 → palette = false)

/-- Chunks to pass over, and an empty end. -/
def IsTail (chunks : List PngChunk) : Prop :=
  ∃ after last, chunks = after ++ [last] ∧ (∀ c ∈ after, c.Ancillary) ∧ last.type = iend ∧
    last.content = []

/-- Image data, and then a tail. -/
def IsImages (images rest : List PngChunk) : Prop := (∀ c ∈ images, c.type = idat) ∧ IsTail rest

/-- The bytes are a PNG file of these dimensions: the signature, a header, chunks to pass over with
a palette among them where the color type has one, a run of image data, chunks to pass over, and an
empty end. -/
def IsPng (data : List UInt8) (width height : Nat) : Prop :=
  ∃ (header : PngChunk) (before images rest : List PngChunk) (color : Nat),
    data = pngSignature ++ (header :: (before ++ (images ++ rest))).flatMap PngChunk.bytes ∧
    header.IsHeader width height color ∧ width ≠ 0 ∧ height ≠ 0 ∧
    (∀ c ∈ before, c.Ancillary ∨ c.IsPalette) ∧
    (before.filter fun c => c.type = plte).length ≤ 1 ∧ PaletteFits color (hasPalette before) ∧
    images ≠ [] ∧ IsImages images rest

namespace PngChunk

section Reading

variable {data rest : List UInt8} {offset : Nat} {c : PngChunk}

theorem length_bytes (c : PngChunk) : c.bytes.length = 12 + c.content.length := by
  have htype := c.type_length
  simp only [bytes, List.length_append, length_wordBytes]
  omega

theorem room_of_drop (h : data.drop offset = c.bytes ++ rest) :
    offset + 12 + c.content.length + rest.length = data.length := by
  have hlength := congrArg List.length h
  rw [List.length_drop, List.length_append, length_bytes] at hlength
  omega

theorem drop_next (h : data.drop offset = c.bytes ++ rest) :
    data.drop (offset + 12 + c.content.length) = rest := by
  rw [Nat.add_assoc, ← List.drop_drop, h, ← length_bytes, List.drop_left]

/-- What stands behind a part of a file. -/
theorem drop_part {part tail : List UInt8} {start stop : Nat} (h : data.drop start = part ++ tail)
    (hstop : start + part.length = stop) : data.drop stop = tail := by
  rw [← hstop, ← List.drop_drop, h, List.drop_left]

theorem drop_type (h : data.drop offset = c.bytes ++ rest) : data.drop (offset + 4) =
    c.type ++ (c.content ++ (wordBytes (checksum (c.type ++ c.content)) ++ rest)) := by
  rw [bytes, List.append_assoc] at h
  have hdrop : data.drop (offset + 4) = _ := drop_part h (by rw [length_wordBytes])
  rw [hdrop]
  simp only [List.append_assoc]

theorem drop_content (h : data.drop offset = c.bytes ++ rest) : data.drop (offset + 8) =
    c.content ++ (wordBytes (checksum (c.type ++ c.content)) ++ rest) :=
  drop_part (drop_type h) (by rw [c.type_length])

theorem uint32_length (h : data.drop offset = c.bytes ++ rest) :
    uint32 data offset = c.content.length := by
  rw [bytes, List.append_assoc] at h
  exact uint32_of_drop c.content_length h

theorem chunkType_eq (h : data.drop offset = c.bytes ++ rest) : chunkType data offset = c.type := by
  rw [chunkType, drop_type h, ← c.type_length, List.take_left]

theorem uint32_checksum (h : data.drop offset = c.bytes ++ rest) :
    uint32 data (offset + 8 + c.content.length) = checksum (c.type ++ c.content) :=
  uint32_of_drop (checksum_lt _) (drop_part (drop_content h) rfl)

theorem crc32_eq (h : data.drop offset = c.bytes ++ rest) :
    crc32 data (offset + 4) (offset + 8 + c.content.length) = checksum (c.type ++ c.content) := by
  have hlength : offset + 8 + c.content.length - (offset + 4) = (c.type ++ c.content).length := by
    rw [List.length_append, c.type_length]
    omega
  rw [← checksum_slice, hlength, drop_type h, ← List.append_assoc, List.take_left]

theorem getD_content (h : data.drop offset = c.bytes ++ rest) {i : Nat} (hi : i < c.content.length) :
    data.getD (offset + 8 + i) 0 = c.content.getD i 0 := by
  have hdrop : data[offset + 8 + i]? = (data.drop (offset + 8))[i]? := by
    rw [List.getElem?_drop]
  rw [List.getD_eq_getElem?_getD, List.getD_eq_getElem?_getD, hdrop, drop_content h,
    List.getElem?_append_left hi]

theorem byteAt_content (h : data.drop offset = c.bytes ++ rest) {i : Nat}
    (hi : i < c.content.length) : byteAt data (offset + 8 + i) = byteAt c.content i := by
  rw [byteAt, byteAt, getD_content h hi]

theorem uint32_content (h : data.drop offset = c.bytes ++ rest) {i : Nat}
    (hi : i + 4 ≤ c.content.length) : uint32 data (offset + 8 + i) = uint32 c.content i := by
  rw [uint32, uint32, ← List.drop_drop, drop_content h, List.drop_append_of_le_length (by omega),
    List.take_append_of_le_length (by rw [List.length_drop]; omega)]

theorem byteAt_type (h : data.drop offset = c.bytes ++ rest) :
    byteAt data (offset + 4) = byteAt c.type 0 := by
  have hdrop : data[offset + 4]? = (data.drop (offset + 4))[0]? := by
    rw [List.getElem?_drop]
  rw [byteAt, byteAt, List.getD_eq_getElem?_getD, List.getD_eq_getElem?_getD, hdrop, drop_type h,
    List.getElem?_append_left (by rw [c.type_length]; decide)]

/-- Where a chunk with its checksum fits into a file, one stands. -/
theorem exists_of_fits {length : Nat} (hlength : uint32 data offset = length)
    (hfit : offset + 12 + length ≤ data.length)
    (hcrc : uint32 data (offset + 8 + length) = crc32 data (offset + 4) (offset + 8 + length)) :
    ∃ (c : PngChunk) (rest : List UInt8), data.drop offset = c.bytes ++ rest := by
  have hcontent : ((data.drop (offset + 8)).take length).length = length := by
    rw [List.length_take, List.length_drop]
    omega
  refine ⟨⟨(data.drop (offset + 4)).take 4, (data.drop (offset + 8)).take length, ?_, ?_⟩,
    data.drop (offset + 12 + length), ?_⟩
  · rw [List.length_take, List.length_drop]
    omega
  · rw [hcontent, ← hlength]
    exact uint32_lt data offset
  · have hbody : (data.drop (offset + 4)).take 4 ++ (data.drop (offset + 8)).take length =
        (data.drop (offset + 4)).take (offset + 8 + length - (offset + 4)) := by
      rw [show offset + 8 + length - (offset + 4) = 4 + length by omega, List.take_add,
        List.drop_drop]
    have hsplit (start n : Nat) :
        data.drop start = (data.drop start).take n ++ data.drop (start + n) := by
      rw [← List.drop_drop, List.take_append_drop]
    have hlengthBytes : wordBytes length = (data.drop offset).take 4 :=
      hlength ▸ wordBytes_uint32 (by omega)
    have hcrcBytes : wordBytes (checksum ((data.drop (offset + 4)).take
        (offset + 8 + length - (offset + 4)))) = (data.drop (offset + 8 + length)).take 4 := by
      rw [checksum_slice, ← hcrc, wordBytes_uint32 (by omega)]
    simp only [bytes, hcontent, hbody, hlengthBytes, hcrcBytes, List.append_assoc]
    rw [show offset + 12 + length = offset + 8 + length + 4 by omega, ← hsplit, ← hsplit, ← hsplit,
      ← hsplit]

end Reading

end PngChunk

/-! ## The walk over the chunks -/

/-- The chunks that a walk still accepts after the header: whether it has seen a palette and image
data, and whether the run of image data has ended. -/
inductive AcceptsBody (color : Nat) : Bool → Bool → Bool → List PngChunk → Prop
  | palette {dataEnded : Bool} {c : PngChunk} {chunks : List PngChunk} (hc : c.IsPalette)
      (h : AcceptsBody color true false dataEnded chunks) :
      AcceptsBody color false false dataEnded (c :: chunks)
  | image {palette imageData : Bool} {c : PngChunk} {chunks : List PngChunk} (hc : c.type = idat)
      (h : AcceptsBody color palette true false chunks) :
      AcceptsBody color palette imageData false (c :: chunks)
  | last {palette dataEnded : Bool} {c : PngChunk} (hc : c.type = iend) (hcontent : c.content = [])
      (hindexed : color = 3 → palette = true) (hgray : color = 0 ∨ color = 4 → palette = false) :
      AcceptsBody color palette true dataEnded [c]
  | ancillary {palette imageData dataEnded : Bool} {c : PngChunk} {chunks : List PngChunk}
      (hc : c.Ancillary) (h : AcceptsBody color palette imageData (dataEnded || imageData) chunks) :
      AcceptsBody color palette imageData dataEnded (c :: chunks)

theorem PngChunk.Ancillary.ne_type {c : PngChunk} (h : c.Ancillary) :
    c.type ≠ ihdr ∧ c.type ≠ actl ∧ c.type ≠ plte ∧ c.type ≠ idat ∧ c.type ≠ iend := by
  obtain ⟨hfirst, hactl⟩ := h
  have hne {type : List UInt8} (htype : 65 ≤ byteAt type 0 ∧ byteAt type 0 ≤ 90) : c.type ≠ type := by
    intro heq
    rw [heq] at hfirst
    exact hfirst htype
  exact ⟨hne (by decide), hactl, hne (by decide), hne (by decide), hne (by decide)⟩

namespace Go

/-- What `pngDimensions` does after its loop. -/
def Png.finish (png : Png) : Except String (Nat × Nat) :=
  if ¬png.header ∨ ¬png.imageData ∨ ¬png.endChunk ∨ png.width = 0 ∨ png.height = 0 ∨
      png.colorType = 3 ∧ ¬png.palette ∨
      (png.colorType = 0 ∨ png.colorType = 4) ∧ png.palette then
    .error "asset data must be a complete PNG image"
  else .ok (png.width, png.height)

section Walk

variable {data rest : List UInt8} {png : Png} {c : PngChunk} {width height : Nat}

theorem Png.finish_eq_ok : png.finish = .ok (width, height) ↔
    png.header = true ∧ png.imageData = true ∧ png.endChunk = true ∧ png.width = width ∧
      png.height = height ∧ width ≠ 0 ∧ height ≠ 0 ∧ (png.colorType = 3 → png.palette = true) ∧
      (png.colorType = 0 ∨ png.colorType = 4 → png.palette = false) := by
  simp only [Png.finish, guard_eq_ok, not_or, not_and, Bool.not_eq_true, Bool.not_eq_false,
    Except.ok.injEq, Prod.mk.injEq]
  constructor
  · rintro ⟨⟨h₁, h₂, h₃, h₄, h₅, h₆, h₇⟩, rfl, rfl⟩
    exact ⟨h₁, h₂, h₃, rfl, rfl, h₄, h₅, h₆, h₇⟩
  · rintro ⟨h₁, h₂, h₃, rfl, rfl, h₄, h₅, h₆, h₇⟩
    exact ⟨⟨h₁, h₂, h₃, h₄, h₅, h₆, h₇⟩, rfl, rfl⟩

/-- A turn that stands before a chunk looks at the chunk. -/
theorem Png.step_chunk (h : data.drop png.offset = c.bytes ++ rest)
    (hheader : png.header = true ∨ c.type = ihdr) :
    png.step data =
      png.chunk data c.content.length (png.offset + 12 + c.content.length) := by
  have hroom := PngChunk.room_of_drop h
  unfold Png.step
  dsimp only
  rw [PngChunk.uint32_length h, PngChunk.uint32_checksum h, PngChunk.crc32_eq h,
    PngChunk.chunkType_eq h, if_neg (by omega), if_neg (fun hne => hne rfl), if_neg]
  rintro ⟨hnone, htype⟩
  rcases hheader with hsome | hihdr
  · exact hnone hsome
  · exact htype hihdr

/-- A turn that goes on stands before a chunk. -/
theorem Png.exists_chunk {png' : Png} (h : png.step data = .ok png') :
    ∃ (c : PngChunk) (rest : List UInt8), data.drop png.offset = c.bytes ++ rest := by
  unfold Png.step at h
  simp only [guard_eq_ok, not_not] at h
  obtain ⟨hfit, hcrc, -, -⟩ := h
  exact PngChunk.exists_of_fits rfl (by omega) hcrc

/-- What a turn makes of a chunk that is not the first. -/
theorem Png.step_eq_ok {png' : Png} (hheader : png.header = true)
    (h : data.drop png.offset = c.bytes ++ rest) :
    png.step data = .ok png' ↔
      c.IsPalette ∧ png.imageData = false ∧ png.palette = false ∧
          png' = { png with offset := png.offset + 12 + c.content.length, palette := true } ∨
        c.type = idat ∧ png.dataEnded = false ∧
          png' = { png with offset := png.offset + 12 + c.content.length, imageData := true } ∨
        c.type = iend ∧ c.content = [] ∧ rest = [] ∧
          png' = { png with offset := png.offset + 12 + c.content.length, endChunk := true } ∨
        c.Ancillary ∧ png' = { png with
          offset := png.offset + 12 + c.content.length
          dataEnded := png.dataEnded || png.imageData } := by
  have hlast : png.offset + 12 + c.content.length = data.length ↔ rest = [] := by
    have hroom := PngChunk.room_of_drop h
    rw [← List.length_eq_zero_iff]
    omega
  rw [Png.step_chunk h (.inl hheader), Png.chunk, PngChunk.chunkType_eq h, PngChunk.byteAt_type h]
  by_cases hanc : c.Ancillary
  · obtain ⟨hihdr, hactl, hplte, hidat, hiend⟩ := hanc.ne_type
    have hnot : ¬c.IsPalette := fun hp => hplte hp.1
    rw [if_neg hihdr, if_neg hactl, if_neg hplte, if_neg hidat, if_neg hiend, if_neg hanc.1]
    simp only [hnot, hidat, hiend, hanc, false_and, false_or, true_and, Except.ok.injEq, @eq_comm _ _ png']
  by_cases hihdr : c.type = ihdr
  · rw [if_pos hihdr, if_pos (.inl hheader)]
    simp [hihdr, PngChunk.IsPalette, hanc, ihdr, plte, idat, iend]
  rw [if_neg hihdr]
  by_cases hactl : c.type = actl
  · rw [if_pos hactl]
    simp [hactl, PngChunk.IsPalette, hanc, actl, plte, idat, iend]
  rw [if_neg hactl]
  by_cases hplte : c.type = plte
  · have hother : plte ≠ idat ∧ plte ≠ iend := by decide
    rw [if_pos hplte, guard_eq_ok]
    simp only [hplte, hother, hanc, PngChunk.IsPalette, not_or, Bool.not_eq_true, not_not, not_lt,
      gt_iff_lt, true_and, false_and, or_false, Except.ok.injEq, @eq_comm _ _ png', and_assoc, ne_eq]
    tauto
  rw [if_neg hplte]
  have hnot : ¬c.IsPalette := fun hp => hplte hp.1
  by_cases hidat : c.type = idat
  · have hother : idat ≠ iend := by decide
    rw [if_pos hidat, guard_eq_ok]
    simp only [hidat, hother, hanc, hnot, Bool.not_eq_true, true_and, false_and, or_false, false_or,
      Except.ok.injEq, @eq_comm _ _ png']
  rw [if_neg hidat]
  by_cases hiend : c.type = iend
  · rw [if_pos hiend, guard_eq_ok]
    simp only [hiend, hanc, hnot, hlast, not_or, not_not, true_and, false_and, or_false,
      false_or, Except.ok.injEq, List.length_eq_zero_iff, and_assoc, ne_eq]
    tauto
  rw [if_neg hiend, guard_eq_ok]
  have hcritical : 65 ≤ byteAt c.type 0 ∧ byteAt c.type 0 ≤ 90 := by
    by_contra hnone
    exact hanc ⟨hnone, hactl⟩
  simp only [hcritical, hidat, hiend, hanc, hnot, and_self, not_true_eq_false, false_and, or_self]

/-- The chunks behind a header that a walk has passed over with success are accepted. -/
theorem Png.loop_sound {turns : Nat} {png' : Png} (hheader : png.header = true)
    (hopen : png.endChunk = false) (hloop : png.loop data turns = .ok png')
    (hfinish : png'.finish = .ok (width, height)) :
    png.width = width ∧ png.height = height ∧ width ≠ 0 ∧ height ≠ 0 ∧ ∃ chunks,
      data.drop png.offset = chunks.flatMap PngChunk.bytes ∧
        AcceptsBody png.colorType png.palette png.imageData png.dataEnded chunks := by
  obtain ⟨-, himage, hend, hwidth, hheight, hwidth0, hheight0, hindexed, hgray⟩ :=
    Png.finish_eq_ok.1 hfinish
  induction turns generalizing png with
  | zero =>
    rw [Png.loop, Except.ok.injEq] at hloop
    exact absurd (hloop ▸ hend) (by simp [hopen])
  | succ turns ih =>
    rw [Png.loop] at hloop
    by_cases hroom : png.offset + 12 ≤ data.length
    swap
    · rw [if_neg hroom, Except.ok.injEq] at hloop
      exact absurd (hloop ▸ hend) (by simp [hopen])
    rw [if_pos hroom] at hloop
    obtain ⟨next, hstep, hrest⟩ := bind_eq_ok.1 hloop
    obtain ⟨c, rest, hdrop⟩ := Png.exists_chunk hstep
    have hbehind := PngChunk.drop_next hdrop
    rcases (Png.step_eq_ok hheader hdrop).1 hstep with
      ⟨hc, hdata, hpalette, rfl⟩ | ⟨hc, hended, rfl⟩ | ⟨hc, hcontent, rfl, rfl⟩ | ⟨hc, rfl⟩
    · rw [if_neg (by simp [hopen])] at hrest
      obtain ⟨hw, hh, hw0, hh0, chunks, hchunks, hbody⟩ := ih (by exact hheader) (by exact hopen) hrest
      refine ⟨hw, hh, hw0, hh0, c :: chunks, ?_, ?_⟩
      · rw [hdrop, List.flatMap_cons, ← hchunks, hbehind]
      · rw [hdata] at hbody ⊢
        rw [hpalette]
        exact .palette hc hbody
    · rw [if_neg (by simp [hopen])] at hrest
      obtain ⟨hw, hh, hw0, hh0, chunks, hchunks, hbody⟩ := ih (by exact hheader) (by exact hopen) hrest
      refine ⟨hw, hh, hw0, hh0, c :: chunks, ?_, ?_⟩
      · rw [hdrop, List.flatMap_cons, ← hchunks, hbehind]
      · rw [hended] at hbody ⊢
        exact .image hc hbody
    · rw [if_pos rfl, Except.ok.injEq] at hrest
      subst hrest
      refine ⟨hwidth, hheight, hwidth0, hheight0, [c], ?_, ?_⟩
      · rw [hdrop, List.flatMap_cons, List.flatMap_nil]
      · have hseen : png.imageData = true := himage
        rw [hseen]
        exact .last hc hcontent hindexed hgray
    · rw [if_neg (by simp [hopen])] at hrest
      obtain ⟨hw, hh, hw0, hh0, chunks, hchunks, hbody⟩ := ih (by exact hheader) (by exact hopen) hrest
      refine ⟨hw, hh, hw0, hh0, c :: chunks, ?_, .ancillary hc hbody⟩
      rw [hdrop, List.flatMap_cons, ← hchunks, hbehind]

/-- A turn that goes on leaves turns enough for the rest of the file. -/
theorem Png.loop_turn {turns : Nat} {next : Png} (hdrop : data.drop png.offset = c.bytes ++ rest)
    (hturns : data.length ≤ png.offset + turns) (hstep : png.step data = .ok next) :
    ∃ n, data.length ≤ png.offset + 12 + c.content.length + n ∧
      png.loop data turns = if next.endChunk then .ok next else next.loop data n := by
  have hroom := PngChunk.room_of_drop hdrop
  obtain ⟨n, rfl⟩ : ∃ n, turns = n + 1 := ⟨turns - 1, by omega⟩
  refine ⟨n, by omega, ?_⟩
  rw [Png.loop, if_pos (by omega), hstep, ok_bind]

/-- A walk passes over accepted chunks with success. -/
theorem Png.loop_complete {turns color : Nat} {palette imageData dataEnded : Bool}
    {chunks : List PngChunk} (hbody : AcceptsBody color palette imageData dataEnded chunks)
    (hheader : png.header = true) (hopen : png.endChunk = false) (hcolor : png.colorType = color)
    (hpalette : png.palette = palette) (himage : png.imageData = imageData)
    (hended : png.dataEnded = dataEnded)
    (hdrop : data.drop png.offset = chunks.flatMap PngChunk.bytes)
    (hturns : data.length ≤ png.offset + turns) (hwidth : png.width ≠ 0) (hheight : png.height ≠ 0) :
    (png.loop data turns >>= Png.finish) = .ok (png.width, png.height) := by
  induction hbody generalizing png turns with
  | palette hc _ ih =>
    rw [List.flatMap_cons] at hdrop
    have hstep := (Png.step_eq_ok hheader hdrop).2 (.inl ⟨hc, himage, hpalette, rfl⟩)
    obtain ⟨n, hn, hloop⟩ := Png.loop_turn hdrop hturns hstep
    rw [hloop, if_neg (by simp [hopen])]
    exact ih (by exact hheader) (by exact hopen) hcolor rfl himage hended
      (PngChunk.drop_next hdrop) hn hwidth hheight
  | image hc _ ih =>
    rw [List.flatMap_cons] at hdrop
    have hstep := (Png.step_eq_ok hheader hdrop).2 (.inr (.inl ⟨hc, hended, rfl⟩))
    obtain ⟨n, hn, hloop⟩ := Png.loop_turn hdrop hturns hstep
    rw [hloop, if_neg (by simp [hopen])]
    exact ih (by exact hheader) (by exact hopen) hcolor hpalette rfl hended
      (PngChunk.drop_next hdrop) hn hwidth hheight
  | last hc hcontent hindexed hgray =>
    rw [List.flatMap_cons, List.flatMap_nil] at hdrop
    have hstep := (Png.step_eq_ok hheader hdrop).2 (.inr (.inr (.inl ⟨hc, hcontent, rfl, rfl⟩)))
    obtain ⟨n, hn, hloop⟩ := Png.loop_turn hdrop hturns hstep
    rw [hloop, if_pos rfl, ok_bind]
    subst hcolor hpalette
    exact Png.finish_eq_ok.2 ⟨hheader, himage, rfl, rfl, rfl, hwidth, hheight, hindexed, hgray⟩
  | ancillary hc _ ih =>
    rw [List.flatMap_cons] at hdrop
    have hstep := (Png.step_eq_ok hheader hdrop).2 (.inr (.inr (.inr ⟨hc, rfl⟩)))
    obtain ⟨n, hn, hloop⟩ := Png.loop_turn hdrop hturns hstep
    rw [hloop, if_neg (by simp [hopen])]
    exact ih (by exact hheader) (by exact hopen) hcolor hpalette himage (by rw [hended, himage])
      (PngChunk.drop_next hdrop) hn hwidth hheight

/-- The first turn takes a header, and nothing else. -/
theorem Png.step_header {png' : Png} (hheader : png.header = false)
    (h : data.drop png.offset = c.bytes ++ rest) : png.step data = .ok png' ↔
      ∃ width height color, c.IsHeader width height color ∧ png' = { png with
        offset := png.offset + 12 + c.content.length, header := true, width, height,
        colorType := color } := by
  by_cases hihdr : c.type = ihdr
  swap
  · have hroom := PngChunk.room_of_drop h
    constructor
    · intro hstep
      unfold Png.step at hstep
      simp only [guard_eq_ok, not_and, not_not, ne_eq, PngChunk.chunkType_eq h] at hstep
      exact absurd (hstep.2.2.1 (by simp [hheader])) hihdr
    · rintro ⟨_, _, _, hc, -⟩
      exact absurd hc.type hihdr
  rw [Png.step_chunk h (.inr hihdr), Png.chunk, PngChunk.chunkType_eq h, if_pos hihdr]
  by_cases hlength : c.content.length = 13
  swap
  · rw [if_pos (.inr hlength)]
    constructor
    · intro hstep
      cases hstep
    · rintro ⟨_, _, _, hc, -⟩
      exact absurd hc.length hlength
  rw [if_neg (by simp [hheader, hlength])]
  have hbyte (i : Nat) (hi : i < 13) : byteAt data (png.offset + 8 + i) = byteAt c.content i :=
    PngChunk.byteAt_content h (hlength ▸ hi)
  have hword (i : Nat) (hi : i + 4 ≤ 13) :
      uint32 data (png.offset + 8 + i) = uint32 c.content i :=
    PngChunk.uint32_content h (hlength ▸ hi)
  have hwidth : uint32 data (png.offset + 8) = uint32 c.content 0 := hword 0 (by decide)
  have hheight : uint32 data (png.offset + 12) = uint32 c.content 4 := hword 4 (by decide)
  have hdepth : byteAt data (png.offset + 16) = byteAt c.content 8 := hbyte 8 (by decide)
  have hcolor : byteAt data (png.offset + 17) = byteAt c.content 9 := hbyte 9 (by decide)
  have hcompression : byteAt data (png.offset + 18) = byteAt c.content 10 := hbyte 10 (by decide)
  have hfilter : byteAt data (png.offset + 19) = byteAt c.content 11 := hbyte 11 (by decide)
  have hinterlace : byteAt data (png.offset + 20) = byteAt c.content 12 := hbyte 12 (by decide)
  rw [guard_eq_ok, hwidth, hheight, hdepth, hcolor, hcompression, hfilter, hinterlace]
  simp only [not_or, not_not, not_lt, gt_iff_lt, Except.ok.injEq, ne_eq]
  constructor
  · rintro ⟨⟨hprofile, hzero, hzero', hle⟩, rfl⟩
    exact ⟨_, _, _, ⟨hihdr, hlength, rfl, rfl, hprofile, rfl, hzero, hzero', hle⟩, rfl⟩
  · rintro ⟨width, height, color, hc, rfl⟩
    obtain ⟨-, -, rfl, rfl, hprofile, rfl, hzero, hzero', hle⟩ := hc
    exact ⟨⟨hprofile, hzero, hzero', hle⟩, rfl⟩

end Walk

end Go

/-! ## The accepted bodies -/

section Bodies

variable {color : Nat} {palette imageData dataEnded : Bool} {chunks : List PngChunk}

theorem AcceptsBody.tail (h : AcceptsBody color palette imageData dataEnded chunks)
    (himage : imageData = true) (hended : dataEnded = true) :
    IsTail chunks ∧ PaletteFits color palette := by
  induction h with
  | palette => cases himage
  | image => cases hended
  | @last _ _ c hc hcontent hindexed hgray =>
    exact ⟨⟨[], c, rfl, by simp, hc, hcontent⟩, hindexed, hgray⟩
  | @ancillary _ _ _ c chunks hc _ ih =>
    obtain ⟨⟨after, last, rfl, hafter, hlast⟩, hfits⟩ := ih himage (by rw [hended, Bool.true_or])
    exact ⟨⟨c :: after, last, rfl, List.forall_mem_cons.2 ⟨hc, hafter⟩, hlast⟩, hfits⟩

theorem AcceptsBody.images (h : AcceptsBody color palette imageData dataEnded chunks)
    (himage : imageData = true) (hended : dataEnded = false) :
    (∃ images rest, chunks = images ++ rest ∧ IsImages images rest) ∧ PaletteFits color palette := by
  induction h with
  | palette => cases himage
  | @image _ _ c chunks hc _ ih =>
    obtain ⟨⟨images, rest, rfl, himages, hrest⟩, hfits⟩ := ih rfl rfl
    exact ⟨⟨c :: images, rest, rfl, List.forall_mem_cons.2 ⟨hc, himages⟩, hrest⟩, hfits⟩
  | @last _ _ c hc hcontent hindexed hgray =>
    exact ⟨⟨[], [c], rfl, by simp, [], c, rfl, by simp, hc, hcontent⟩, hindexed, hgray⟩
  | @ancillary _ _ _ c chunks hc hrest _ =>
    obtain ⟨⟨after, last, rfl, hafter, hlast⟩, hfits⟩ :=
      hrest.tail himage (by rw [himage, Bool.or_true])
    exact ⟨⟨[], c :: (after ++ [last]), rfl, by simp, c :: after, last, rfl,
      List.forall_mem_cons.2 ⟨hc, hafter⟩, hlast⟩, hfits⟩

theorem AcceptsBody.before (h : AcceptsBody color palette imageData dataEnded chunks)
    (himage : imageData = false) (hended : dataEnded = false) :
    ∃ before images rest, chunks = before ++ (images ++ rest) ∧
      (∀ c ∈ before, c.Ancillary ∨ c.IsPalette) ∧
      (before.filter fun c => c.type = plte).length + palette.toNat ≤ 1 ∧ images ≠ [] ∧
      IsImages images rest ∧ PaletteFits color (palette || hasPalette before) := by
  induction h with
  | @palette _ c chunks hc _ ih =>
    obtain ⟨before, images, rest, rfl, hbefore, hcount, hne, himages, hfits⟩ := ih rfl hended
    refine ⟨c :: before, images, rest, rfl, List.forall_mem_cons.2 ⟨.inr hc, hbefore⟩, ?_, hne,
      himages, ?_⟩
    · rw [List.filter_cons_of_pos (by simpa using hc.1), List.length_cons]
      simpa using hcount
    · simpa [hasPalette, hc.1] using hfits
  | @image palette _ c chunks hc hrest _ =>
    obtain ⟨⟨images, rest, rfl, himages, htail⟩, hfits⟩ := hrest.images rfl rfl
    refine ⟨[], c :: images, rest, rfl, by simp, ?_, by simp,
      ⟨List.forall_mem_cons.2 ⟨hc, himages⟩, htail⟩, by simpa [hasPalette] using hfits⟩
    cases palette <;> simp
  | last => cases himage
  | @ancillary palette _ _ c chunks hc _ ih =>
    obtain ⟨before, images, rest, rfl, hbefore, hcount, hne, himages, hfits⟩ :=
      ih himage (by rw [hended, himage, Bool.false_or])
    have hplte : c.type ≠ plte := hc.ne_type.2.2.1
    refine ⟨c :: before, images, rest, rfl, List.forall_mem_cons.2 ⟨.inl hc, hbefore⟩, ?_, hne,
      himages, ?_⟩
    · rwa [List.filter_cons_of_neg (by simpa using hplte)]
    · simpa [hasPalette, hplte] using hfits

theorem acceptsBody_tail (h : IsTail chunks) (hfits : PaletteFits color palette) :
    AcceptsBody color palette true dataEnded chunks := by
  obtain ⟨after, last, rfl, hafter, hlast, hcontent⟩ := h
  induction after generalizing dataEnded with
  | nil => exact .last hlast hcontent hfits.1 hfits.2
  | cons c after ih =>
    obtain ⟨hc, hafter⟩ := List.forall_mem_cons.1 hafter
    exact .ancillary hc (ih hafter)

theorem acceptsBody_images {images rest : List PngChunk} (h : IsImages images rest)
    (hfits : PaletteFits color palette) :
    AcceptsBody color palette true false (images ++ rest) := by
  obtain ⟨himages, hrest⟩ := h
  induction images with
  | nil => exact acceptsBody_tail hrest hfits
  | cons c images ih =>
    obtain ⟨hc, himages⟩ := List.forall_mem_cons.1 himages
    exact .image hc (ih himages)

theorem acceptsBody_before {before images rest : List PngChunk}
    (hbefore : ∀ c ∈ before, c.Ancillary ∨ c.IsPalette)
    (hcount : (before.filter fun c => c.type = plte).length + palette.toNat ≤ 1) (hne : images ≠ [])
    (himages : IsImages images rest) (hfits : PaletteFits color (palette || hasPalette before)) :
    AcceptsBody color palette false false (before ++ (images ++ rest)) := by
  induction before generalizing palette with
  | nil =>
    obtain ⟨c, images, rfl⟩ := List.exists_cons_of_ne_nil hne
    obtain ⟨hc, htail⟩ := List.forall_mem_cons.1 himages.1
    refine .image hc (acceptsBody_images ⟨htail, himages.2⟩ ?_)
    simpa [hasPalette] using hfits
  | cons c before ih =>
    obtain ⟨hc, hbefore⟩ := List.forall_mem_cons.1 hbefore
    rcases hc with hc | hc
    · have hplte : c.type ≠ plte := hc.ne_type.2.2.1
      rw [List.filter_cons_of_neg (by simpa using hplte)] at hcount
      exact .ancillary hc (ih hbefore hcount (by simpa [hasPalette, hplte] using hfits))
    · rw [List.filter_cons_of_pos (by simpa using hc.1), List.length_cons] at hcount
      obtain rfl : palette = false := by
        cases palette
        · rfl
        · simp at hcount
      refine .palette hc (ih hbefore (by simpa using hcount) ?_)
      simpa [hasPalette, hc.1] using hfits

end Bodies

theorem length_le_bytes (chunks : List PngChunk) :
    12 * chunks.length ≤ (chunks.flatMap PngChunk.bytes).length := by
  induction chunks with
  | nil => simp
  | cons c chunks ih =>
    rw [List.flatMap_cons, List.length_append, PngChunk.length_bytes, List.length_cons]
    omega

/-- Go's validator accepts the PNG files, with their dimensions. -/
theorem Go.pngDimensions_eq_ok {data : List UInt8} {width height : Nat} :
    pngDimensions data = .ok (width, height) ↔ IsPng data width height := by
  have hsplit (hsignature : data.take 8 = pngSignature) : data = pngSignature ++ data.drop 8 := by
    rw [← hsignature, List.take_append_drop]
  let start : Png := ⟨8, 0, 0, false, false, false, false, false, 255⟩
  have hrun : pngDimensions data = if data.length < 45 ∨ data.take 8 ≠ pngSignature then
      .error "asset data must be a PNG image"
    else Png.loop data data.length start >>= Png.finish := rfl
  rw [hrun, guard_eq_ok, not_or, not_not, not_lt]
  constructor
  · rintro ⟨⟨hlength, hsignature⟩, hwalk⟩
    obtain ⟨png, hloop, hfinish⟩ := bind_eq_ok.1 hwalk
    obtain ⟨n, hn⟩ : ∃ n, data.length = n + 1 := ⟨data.length - 1, by omega⟩
    have hroom : start.offset + 12 ≤ data.length := by
      change 8 + 12 ≤ data.length
      omega
    rw [hn, Png.loop, if_pos hroom] at hloop
    obtain ⟨next, hstep, hrest⟩ := bind_eq_ok.1 hloop
    obtain ⟨header, rest, hdrop⟩ := Png.exists_chunk hstep
    obtain ⟨w, h, color, hheader, rfl⟩ := (Png.step_header rfl hdrop).1 hstep
    rw [if_neg (by simp [start])] at hrest
    obtain ⟨hw, hh, hwidth, hheight, chunks, hchunks, hbody⟩ :=
      Png.loop_sound (by rfl) (by rfl) hrest hfinish
    obtain ⟨before, images, tail, rfl, hbefore, hcount, hne, himages, hfits⟩ := hbody.before rfl rfl
    subst hw hh
    refine ⟨header, before, images, tail, color, ?_, hheader, hwidth, hheight, hbefore,
      by simpa [start] using hcount, by simpa [start] using hfits, hne, himages⟩
    rw [List.flatMap_cons, ← hchunks, PngChunk.drop_next hdrop, ← hdrop]
    exact hsplit hsignature
  · rintro ⟨header, before, images, tail, color, hdata, hheader, hwidth, hheight, hbefore, hcount,
      hfits, hne, himages⟩
    rw [List.flatMap_cons] at hdata
    have hdrop : data.drop start.offset = header.bytes ++
        (before ++ (images ++ tail)).flatMap PngChunk.bytes := by
      rw [hdata]
      exact List.drop_left' rfl
    have hsignature : data.take 8 = pngSignature := by
      rw [hdata]
      exact List.take_left' rfl
    have hlength : 45 ≤ data.length := by
      have hroom := PngChunk.room_of_drop hdrop
      have hbytes := length_le_bytes (before ++ (images ++ tail))
      have himage := List.length_pos_iff.2 hne
      obtain ⟨-, after, last, rfl, -⟩ := himages
      have hheaderLength := hheader.length
      simp only [List.length_append, List.length_singleton] at hbytes
      have hstart : start.offset = 8 := rfl
      omega
    refine ⟨⟨hlength, hsignature⟩, ?_⟩
    have hstep := (Png.step_header rfl hdrop).2 ⟨width, height, color, hheader, rfl⟩
    obtain ⟨n, hn, hloop⟩ := Png.loop_turn hdrop (Nat.le_add_left _ _) hstep
    rw [hloop, if_neg (by simp [start])]
    exact Png.loop_complete (acceptsBody_before hbefore (by simpa [start] using hcount) hne himages
      (by simpa [start] using hfits)) rfl rfl rfl rfl rfl rfl (PngChunk.drop_next hdrop) hn hwidth hheight

/-- The three validators accept the same byte strings with the same dimensions, namely the PNG
files of the grammar; each loop ends, and nothing is read past the end. Go and Rust compute with
words of any size that holds the length of the file. -/
theorem png_validators (data : List UInt8) (path : String) (width height : Nat) :
    ((TypeScript.readPngStructure data path = .ok (width, height) ↔ IsPng data width height) ∧
      TypeScript.readPngStructure data path ≠ .error .outOfRange ∧
      TypeScript.readPngStructure data path ≠ .error .unfinished) ∧
    ∀ size, Fits size data →
      ((Go.readPngDimensions size data = .ok (width, height) ↔ IsPng data width height) ∧
        Go.readPngDimensions size data ≠ .error .outOfRange ∧
        Go.readPngDimensions size data ≠ .error .unfinished) ∧
      (Rust.readPng size data = .ok (width, height) ↔ IsPng data width height) ∧
        Rust.readPng size data ≠ .error .outOfRange ∧
        Rust.readPng size data ≠ .error .unfinished := by
  have hgrammar : TypeScript.validatePngStructure data path = .ok (width, height) ↔
      IsPng data width height :=
    (png_agree data path).ok_iff.trans Go.pngDimensions_eq_ok
  have htypescript := TypeScript.readPngStructure_matches data path
  refine ⟨⟨htypescript.ok_iff.trans hgrammar, htypescript.ne_outOfRange,
    htypescript.ne_unfinished⟩, fun size hfits => ?_⟩
  have hgo := Go.readPngDimensions_matches hfits
  have hrust : Matches Eq (Rust.readPng size data) (TypeScript.validatePngStructure data path) :=
    Rust.readPng_matches hfits
  exact ⟨⟨hgo.ok_iff.trans Go.pngDimensions_eq_ok, hgo.ne_outOfRange, hgo.ne_unfinished⟩,
    hrust.ok_iff.trans hgrammar, hrust.ne_outOfRange, hrust.ne_unfinished⟩

end HailProto.Codec
