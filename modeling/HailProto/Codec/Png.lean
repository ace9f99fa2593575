import HailProto.Codec.Fields

/-!
# PNG structure in two languages

`validatePngStructure` of `validation.ts` and `pngDimensions` of `assets.go`. Both walk the
chunks of the file, ask for one header, a palette before the image data, consecutive image data
and an end chunk that ends the file, and return the dimensions of the header. Go keeps the color
type it read in the header; TypeScript reads it again, at the place where the header of a file
that begins with one has it.
-/

namespace HailProto.Codec

/-- The big-endian word at an offset. -/
def uint32 (data : List UInt8) (offset : Nat) : Nat :=
  ((data.drop offset).take 4).foldl (fun n b => n * 256 + b.toNat) 0

/-- The byte at an offset. -/
def byteAt (data : List UInt8) (offset : Nat) : Nat := (data.getD offset 0).toNat

/-- One byte of the checksum: eight steps of the reflected polynomial. -/
def crcByte (crc : UInt32) (byte : UInt8) : UInt32 :=
  (List.range 8).foldl
    (fun crc _ => (crc >>> 1) ^^^ (if crc &&& 1 = 1 then 0xedb88320 else 0)) (crc ^^^ byte.toUInt32)

/-- The CRC-32 of the bytes between two offsets. -/
def crc32 (data : List UInt8) (start stop : Nat) : Nat :=
  (((data.drop start).take (stop - start)).foldl crcByte 0xffffffff ^^^ 0xffffffff).toNat

def pngSignature : List UInt8 := [137, 80, 78, 71, 13, 10, 26, 10]

/-- The type of the chunk at an offset. -/
def chunkType (data : List UInt8) (offset : Nat) : List UInt8 := (data.drop (offset + 4)).take 4

def ihdr : List UInt8 := [73, 72, 68, 82]

def actl : List UInt8 := [97, 99, 84, 76]

def plte : List UInt8 := [80, 76, 84, 69]

def idat : List UInt8 := [73, 68, 65, 84]

def iend : List UInt8 := [73, 69, 78, 68]

/-- The bit depths a color type admits. -/
def bitDepths : Nat → List Nat
  | 0 => [1, 2, 4, 8, 16]
  | 2 => [8, 16]
  | 3 => [1, 2, 4, 8]
  | 4 => [8, 16]
  | 6 => [8, 16]
  | _ => []

namespace TypeScript

/-- The variables of the walk. -/
structure Png where
  offset : Nat
  width : Nat
  height : Nat
  sawHeader : Bool
  sawData : Bool
  sawEnd : Bool
  sawPalette : Bool
  dataEnded : Bool

/-- What the loop does with a chunk, by its type. -/
def Png.chunk (data : List UInt8) (path : String) (length finish : Nat) (png : Png) :
    Except HailCodecError Png :=
  let type := chunkType data png.offset
  if type = ihdr then
    if png.sawHeader ∨ length ≠ 13 then fail "contains an invalid PNG IHDR chunk" path
    else
      if ¬(bitDepths (byteAt data (png.offset + 17))).contains (byteAt data (png.offset + 16)) ∨
          byteAt data (png.offset + 18) ≠ 0 ∨ byteAt data (png.offset + 19) ≠ 0 ∨
          ¬[0, 1].contains (byteAt data (png.offset + 20)) then
        fail "contains an invalid PNG IHDR profile" path
      else .ok { png with
        offset := finish
        sawHeader := true
        width := uint32 data (png.offset + 8)
        height := uint32 data (png.offset + 12) }
  else if type = actl then fail "animated PNG is unsupported" path
  else if type = plte then
    if png.sawData ∨ png.sawPalette ∨ length = 0 ∨ length % 3 ≠ 0 ∨ length > 768 then
      fail "contains an invalid PNG palette" path
    else .ok { png with offset := finish, sawPalette := true }
  else if type = idat then
    if png.dataEnded then fail "contains nonconsecutive PNG image data" path
    else .ok { png with offset := finish, sawData := true }
  else if type = iend then
    if length ≠ 0 ∨ finish ≠ data.length then fail "contains an invalid PNG IEND chunk" path
    else .ok { png with sawEnd := true }
  else if 65 ≤ byteAt data (png.offset + 4) ∧ byteAt data (png.offset + 4) ≤ 90 then
    fail "contains an unsupported critical PNG chunk" path
  else .ok { png with offset := finish, dataEnded := png.dataEnded || png.sawData }

/-- One turn of the loop. -/
def Png.step (data : List UInt8) (path : String) (png : Png) : Except HailCodecError Png :=
  let length := uint32 data png.offset
  let finish := png.offset + 12 + length
  if finish > data.length then fail "contains a truncated PNG chunk" path
  else if uint32 data (png.offset + 8 + length) ≠
      crc32 data (png.offset + 4) (png.offset + 8 + length) then
    fail "contains an invalid PNG chunk CRC" path
  else if ¬png.sawHeader ∧ chunkType data png.offset ≠ ihdr then
    fail "must begin with a PNG IHDR chunk" path
  else png.chunk data path length finish

/-- The loop. Every turn but the last moves the offset on, so as many turns as there are bytes
are enough. -/
def Png.loop (data : List UInt8) (path : String) : Nat → Png → Except HailCodecError Png
  | 0, png => .ok png
  | turns + 1, png =>
    if png.offset + 12 ≤ data.length then do
      let png ← png.step data path
      if png.sawEnd then .ok png else Png.loop data path turns png
    else .ok png

def validatePngStructure (data : List UInt8) (path : String) :
    Except HailCodecError (Nat × Nat) :=
  if data.length < 45 ∨ data.take 8 ≠ pngSignature then fail "must be a PNG image" path
  else do
    let png ← Png.loop data path data.length ⟨8, 0, 0, false, false, false, false, false⟩
    let color := byteAt data 25
    if ¬png.sawHeader ∨ ¬png.sawData ∨ ¬png.sawEnd ∨ png.width = 0 ∨ png.height = 0 ∨
        color = 3 ∧ ¬png.sawPalette ∨ [0, 4].contains color ∧ png.sawPalette then
      fail "must be a complete PNG image" path
    else .ok (png.width, png.height)

end TypeScript

namespace Go

structure Png where
  offset : Nat
  width : Nat
  height : Nat
  header : Bool
  imageData : Bool
  endChunk : Bool
  palette : Bool
  dataEnded : Bool
  colorType : Nat

/-- The `switch` on the type of a chunk. -/
def Png.chunk (data : List UInt8) (length finish : Nat) (png : Png) : Except String Png :=
  let type := chunkType data png.offset
  if type = ihdr then
    if png.header ∨ length ≠ 13 then .error "asset PNG has invalid IHDR"
    else
      if ¬(bitDepths (byteAt data (png.offset + 17))).contains (byteAt data (png.offset + 16)) ∨
          byteAt data (png.offset + 18) ≠ 0 ∨ byteAt data (png.offset + 19) ≠ 0 ∨
          byteAt data (png.offset + 20) > 1 then
        .error "asset PNG has invalid IHDR profile"
      else .ok { png with
        offset := finish
        header := true
        width := uint32 data (png.offset + 8)
        height := uint32 data (png.offset + 12)
        colorType := byteAt data (png.offset + 17) }
  else if type = actl then .error "animated PNG is unsupported"
  else if type = plte then
    if png.imageData ∨ png.palette ∨ length = 0 ∨ length % 3 ≠ 0 ∨ length > 768 then
      .error "asset PNG has invalid palette"
    else .ok { png with offset := finish, palette := true }
  else if type = idat then
    if png.dataEnded then .error "asset PNG has nonconsecutive image data"
    else .ok { png with offset := finish, imageData := true }
  else if type = iend then
    if length ≠ 0 ∨ finish ≠ data.length then .error "asset PNG has invalid IEND"
    else .ok { png with offset := finish, endChunk := true }
  else if 65 ≤ byteAt data (png.offset + 4) ∧ byteAt data (png.offset + 4) ≤ 90 then
    .error "asset PNG has unsupported critical chunk"
  else .ok { png with offset := finish, dataEnded := png.dataEnded || png.imageData }

def Png.step (data : List UInt8) (png : Png) : Except String Png :=
  let length := uint32 data png.offset
  let finish := png.offset + 12 + length
  if finish > data.length then .error "asset data contains a truncated PNG chunk"
  else if uint32 data (png.offset + 8 + length) ≠
      crc32 data (png.offset + 4) (png.offset + 8 + length) then
    .error "asset PNG has invalid chunk CRC"
  else if ¬png.header ∧ chunkType data png.offset ≠ ihdr then
    .error "asset PNG must begin with IHDR"
  else png.chunk data length finish

def Png.loop (data : List UInt8) : Nat → Png → Except String Png
  | 0, png => .ok png
  | turns + 1, png =>
    if png.offset + 12 ≤ data.length then do
      let png ← png.step data
      if png.endChunk then .ok png else Png.loop data turns png
    else .ok png

def pngDimensions (data : List UInt8) : Except String (Nat × Nat) :=
  if data.length < 45 ∨ data.take 8 ≠ pngSignature then .error "asset data must be a PNG image"
  else do
    let png ← Png.loop data data.length ⟨8, 0, 0, false, false, false, false, false, 255⟩
    if ¬png.header ∨ ¬png.imageData ∨ ¬png.endChunk ∨ png.width = 0 ∨ png.height = 0 ∨
        png.colorType = 3 ∧ ¬png.palette ∨
        (png.colorType = 0 ∨ png.colorType = 4) ∧ png.palette then
      .error "asset data must be a complete PNG image"
    else .ok (png.width, png.height)

end Go

/-- The two walks are at one place, and Go holds the color type that TypeScript will read. -/
structure SamePng (data : List UInt8) (s : TypeScript.Png) (g : Go.Png) : Prop where
  offset : s.sawEnd = false → s.offset = g.offset
  width : s.width = g.width
  height : s.height = g.height
  header : s.sawHeader = g.header
  imageData : s.sawData = g.imageData
  endChunk : s.sawEnd = g.endChunk
  palette : s.sawPalette = g.palette
  dataEnded : s.dataEnded = g.dataEnded
  start : s.sawHeader = false → s.offset = 8
  color : s.sawHeader = true → g.colorType = byteAt data 25

section Walk

variable {data : List UInt8} {path : String} {s : TypeScript.Png} {g : Go.Png}

/-- One chunk takes the two walks from one place to one place. -/
theorem SamePng.chunk {length finish : Nat} (h : SamePng data s g) (hopen : s.sawEnd = false)
    (hfirst : s.sawHeader = true ∨ chunkType data s.offset = ihdr) :
    Agree (SamePng data) (s.chunk data path length finish) (g.chunk data length finish) := by
  obtain ⟨offset, width, height, sawHeader, sawData, sawEnd, sawPalette, dataEnded⟩ := s
  obtain ⟨offset', width', height', header, imageData, endChunk, palette, dataEnded', color⟩ := g
  obtain ⟨hoffset, hwidth, hheight, hheader, hdata, hend, hpalette, hended, hstart, hcolor⟩ := h
  dsimp only at *
  subst hwidth hheight hheader hdata hend hpalette hended hopen
  have hsame := hoffset rfl
  subst hsame
  unfold TypeScript.Png.chunk Go.Png.chunk TypeScript.fail
  dsimp only
  by_cases hihdr : chunkType data offset = ihdr
  · rw [if_pos hihdr, if_pos hihdr]
    refine Agree.guard Iff.rfl fun honce => Agree.guard ?_ fun _ => ?_
    · have hmethod : ¬[0, 1].contains (byteAt data (offset + 20)) = true ↔
          byteAt data (offset + 20) > 1 := by
        simp only [List.contains_iff_mem, List.mem_cons, List.not_mem_nil, or_false]
        omega
      rw [hmethod]
    · have hunseen : sawHeader = false := by
        cases sawHeader
        · rfl
        · exact absurd (.inl rfl) honce
      have hplace := hstart hunseen
      exact ⟨fun _ => rfl, rfl, rfl, rfl, rfl, rfl, rfl, rfl, fun h => (by cases h),
        fun _ => by rw [hplace]⟩
  · -- Past the header, a chunk leaves it and the color type alone.
    have hseen : sawHeader = true := hfirst.resolve_right hihdr
    subst hseen
    have hkept := hcolor rfl
    rw [if_neg hihdr, if_neg hihdr]
    by_cases hactl : chunkType data offset = actl
    · rw [if_pos hactl, if_pos hactl]
      trivial
    · rw [if_neg hactl, if_neg hactl]
      by_cases hplte : chunkType data offset = plte
      · rw [if_pos hplte, if_pos hplte]
        refine Agree.guard Iff.rfl fun _ => ?_
        exact ⟨fun _ => rfl, rfl, rfl, rfl, rfl, rfl, rfl, rfl, fun h => (by cases h),
          fun _ => hkept⟩
      · rw [if_neg hplte, if_neg hplte]
        by_cases hidat : chunkType data offset = idat
        · rw [if_pos hidat, if_pos hidat]
          refine Agree.guard Iff.rfl fun _ => ?_
          exact ⟨fun _ => rfl, rfl, rfl, rfl, rfl, rfl, rfl, rfl, fun h => (by cases h),
            fun _ => hkept⟩
        · rw [if_neg hidat, if_neg hidat]
          by_cases hiend : chunkType data offset = iend
          · rw [if_pos hiend, if_pos hiend]
            refine Agree.guard Iff.rfl fun _ => ?_
            exact ⟨fun h => (by cases h), rfl, rfl, rfl, rfl, rfl, rfl, rfl,
              fun h => (by cases h), fun _ => hkept⟩
          · rw [if_neg hiend, if_neg hiend]
            refine Agree.guard Iff.rfl fun _ => ?_
            exact ⟨fun _ => rfl, rfl, rfl, rfl, rfl, rfl, rfl, rfl, fun h => (by cases h),
              fun _ => hkept⟩

theorem SamePng.step (h : SamePng data s g) (hopen : s.sawEnd = false) :
    Agree (SamePng data) (s.step data path) (g.step data) := by
  unfold TypeScript.Png.step Go.Png.step TypeScript.fail
  dsimp only
  rw [← h.offset hopen, ← h.header]
  refine Agree.guard Iff.rfl fun _ => Agree.guard Iff.rfl fun _ => Agree.guard Iff.rfl fun hfirst =>
    h.chunk hopen ?_
  by_cases hheader : s.sawHeader = true
  · exact .inl hheader
  · exact .inr (by_contra fun hne => hfirst ⟨hheader, hne⟩)

theorem SamePng.loop (turns : Nat) (h : SamePng data s g) (hopen : s.sawEnd = false) :
    Agree (SamePng data) (s.loop data path turns) (g.loop data turns) := by
  induction turns generalizing s g with
  | zero => exact h
  | succ turns ih =>
    unfold TypeScript.Png.loop Go.Png.loop
    rw [← h.offset hopen]
    split
    · refine Agree.bind (h.step hopen) fun s' g' h' => ?_
      rw [← h'.endChunk]
      split
      · exact h'
      · rename_i hend
        exact ih h' (Bool.eq_false_iff.2 hend)
    · exact h

end Walk

/-- The two validators accept the same files, with the same dimensions. -/
theorem png_agree (data : List UInt8) (path : String) :
    Agree Eq (TypeScript.validatePngStructure data path) (Go.pngDimensions data) := by
  unfold TypeScript.validatePngStructure Go.pngDimensions TypeScript.fail
  refine Agree.guard Iff.rfl fun _ => ?_
  have hstart : SamePng data ⟨8, 0, 0, false, false, false, false, false⟩
      ⟨8, 0, 0, false, false, false, false, false, 255⟩ :=
    ⟨fun _ => rfl, rfl, rfl, rfl, rfl, rfl, rfl, rfl, fun _ => rfl, fun h => by cases h⟩
  refine Agree.bind (hstart.loop data.length rfl) fun s g h => ?_
  dsimp only
  rw [h.width, h.height]
  refine Agree.guard ?_ fun _ => rfl
  rw [← h.header, ← h.imageData, ← h.endChunk, ← h.palette]
  by_cases hheader : s.sawHeader = true
  · rw [h.color hheader]
    simp only [List.contains_iff_mem, List.mem_cons, List.not_mem_nil, or_false]
  · exact ⟨fun _ => .inl hheader, fun _ => .inl hheader⟩

end HailProto.Codec
