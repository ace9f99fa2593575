import HailProto.Codec.Png

/-!
# The reads of the PNG validators

The three validators with each of their reads: a read past the end of the file, and a loop that
would go on, are failures of their own. TypeScript's and Go's come out as the walks of `Png.lean`
do, Rust's as TypeScript's, so that none of them reads past the end and each loop ends.
-/

namespace HailProto.Codec

/-- How a validator ends without dimensions: the file is rejected, a read is out of range, or the
loop has not ended after as many turns as the file has bytes. -/
inductive ReadFault (ε : Type)
  | rejected (error : ε)
  | outOfRange
  | unfinished

section Reads

variable {ε δ α β α' β' : Type}

def readByte (data : List UInt8) (offset : Nat) : Except (ReadFault ε) Nat :=
  if offset < data.length then .ok (byteAt data offset) else .error .outOfRange

def readUint32 (data : List UInt8) (offset : Nat) : Except (ReadFault ε) Nat :=
  if offset + 4 ≤ data.length then .ok (uint32 data offset) else .error .outOfRange

/-- The bytes from one offset up to another. -/
def readSlice (data : List UInt8) (start stop : Nat) : Except (ReadFault ε) (List UInt8) :=
  if start ≤ stop ∧ stop ≤ data.length then .ok ((data.drop start).take (stop - start))
  else .error .outOfRange

/-- The CRC-32 of some bytes. -/
def checksum (bytes : List UInt8) : Nat := (bytes.foldl crcByte 0xffffffff ^^^ 0xffffffff).toNat

/-- `while (more) { step; if (ended) break; }`, in so many turns. -/
def chunkLoop {σ : Type} (more : σ → Prop) [DecidablePred more] (ended : σ → Bool)
    (step : σ → Except (ReadFault ε) σ) : Nat → σ → Except (ReadFault ε) σ
  | 0, s => if more s then .error .unfinished else .ok s
  | turns + 1, s =>
    if more s then do
      let s ← step s
      if ended s then .ok s else chunkLoop more ended step turns s
    else .ok s

variable {data : List UInt8} {offset start stop : Nat}

theorem readByte_ok (h : offset < data.length) :
    readByte data offset = (.ok (byteAt data offset) : Except (ReadFault ε) Nat) :=
  if_pos h

theorem readUint32_ok (h : offset + 4 ≤ data.length) :
    readUint32 data offset = (.ok (uint32 data offset) : Except (ReadFault ε) Nat) :=
  if_pos h

theorem readSlice_ok (hstart : start ≤ stop) (hstop : stop ≤ data.length) :
    readSlice data start stop =
      (.ok ((data.drop start).take (stop - start)) : Except (ReadFault ε) (List UInt8)) :=
  if_pos ⟨hstart, hstop⟩

theorem checksum_slice (data : List UInt8) (start stop : Nat) :
    checksum ((data.drop start).take (stop - start)) = crc32 data start stop := rfl

theorem uint32_lt (data : List UInt8) (offset : Nat) : uint32 data offset < 2 ^ 32 := by
  have hfold (bytes : List UInt8) (n : Nat) :
      bytes.foldl (fun n b => n * 256 + b.toNat) n < (n + 1) * 256 ^ bytes.length := by
    induction bytes generalizing n with
    | nil => simp
    | cons b bytes ih =>
      have hb : b.toNat < 256 := b.toNat_lt
      have hstep : n * 256 + b.toNat + 1 ≤ (n + 1) * 256 := by omega
      calc
        (b :: bytes).foldl (fun n b => n * 256 + b.toNat) n
            < (n * 256 + b.toNat + 1) * 256 ^ bytes.length := ih _
        _ ≤ (n + 1) * 256 * 256 ^ bytes.length := Nat.mul_le_mul_right _ hstep
        _ = (n + 1) * 256 ^ (b :: bytes).length := by rw [List.length_cons, pow_succ']; ring
  have hlength : ((data.drop offset).take 4).length ≤ 4 := List.length_take_le _ _
  calc
    uint32 data offset < (0 + 1) * 256 ^ ((data.drop offset).take 4).length := hfold _ 0
    _ ≤ (0 + 1) * 256 ^ 4 := Nat.mul_le_mul_left _ (Nat.pow_le_pow_right (by decide) hlength)
    _ = 2 ^ 32 := by norm_num

theorem slice_type (data : List UInt8) (offset : Nat) :
    (data.drop (offset + 4)).take (offset + 8 - (offset + 4)) = chunkType data offset := by
  rw [chunkType, Nat.add_sub_add_left]

theorem readByte_type (h : offset + 8 ≤ data.length) :
    readByte (chunkType data offset) 0 =
      (.ok (byteAt data (offset + 4)) : Except (ReadFault ε) Nat) := by
  have hlength : (chunkType data offset).length = 4 := by
    rw [chunkType, List.length_take, List.length_drop]
    omega
  rw [readByte_ok (by omega), byteAt, byteAt, chunkType]
  simp [List.getD_eq_getElem?_getD, List.getElem?_drop]

/-- A computation with its reads and one without come out alike, and no read is out of range. -/
def Matches (R : α → β → Prop) : Except (ReadFault ε) α → Except δ β → Prop
  | .ok a, .ok b => R a b
  | .error (.rejected _), .error _ => True
  | _, _ => False

section Matching

variable {R : α → β → Prop} {S : α' → β' → Prop} {x : Except (ReadFault ε) α} {y : Except δ β}

theorem Matches.bind {f : α → Except (ReadFault ε) α'} {g : β → Except δ β'} (h : Matches R x y)
    (hnext : ∀ a b, x = .ok a → y = .ok b → R a b → Matches S (f a) (g b)) :
    Matches S (x >>= f) (y >>= g) := by
  cases x with
  | error fault =>
    cases y with
    | error e => cases fault <;> exact h
    | ok b => cases fault <;> exact h.elim
  | ok a =>
    cases y with
    | error e => exact h.elim
    | ok b => exact hnext a b rfl rfl h

theorem Matches.guard {c d : Prop} [Decidable c] [Decidable d] {e : ε} {e' : δ} (hcd : c ↔ d)
    (h : ¬c → Matches R x y) :
    Matches R (if c then .error (.rejected e) else x) (if d then .error e' else y) := by
  by_cases hc : c
  · rw [if_pos hc, if_pos (hcd.1 hc)]
    trivial
  · rw [if_neg hc, if_neg (fun hd => hc (hcd.2 hd))]
    exact h hc

theorem Matches.ite {c : Prop} [Decidable c] {x' : Except (ReadFault ε) α} {y' : Except δ β}
    (hthen : c → Matches R x y) (helse : ¬c → Matches R x' y') :
    Matches R (if c then x else x') (if c then y else y') := by
  by_cases hc : c
  · rw [if_pos hc, if_pos hc]
    exact hthen hc
  · rw [if_neg hc, if_neg hc]
    exact helse hc

theorem Matches.ok_iff {y : Except δ α} {a : α} (h : Matches Eq x y) : x = .ok a ↔ y = .ok a := by
  cases x with
  | error fault =>
    cases y with
    | error e => simp
    | ok b => cases fault <;> exact h.elim
  | ok b =>
    cases y with
    | error e => exact h.elim
    | ok c =>
      cases (show b = c from h)
      simp

/-- What is known of the one result is known of the other. -/
theorem Matches.and {P : β → Prop} (h : Matches R x y) (hp : ∀ b, y = .ok b → P b) :
    Matches (fun a b => R a b ∧ P b) x y := by
  cases x with
  | error fault => cases y <;> cases fault <;> exact h
  | ok a =>
    cases y with
    | error e => exact h
    | ok b => exact ⟨h, hp b rfl⟩

theorem Matches.ne_outOfRange (h : Matches R x y) : x ≠ .error .outOfRange := by
  rintro rfl
  cases y <;> exact h

theorem Matches.ne_unfinished (h : Matches R x y) : x ≠ .error .unfinished := by
  rintro rfl
  cases y <;> exact h

/-- A loop with its reads and one without come out alike when each turn of theirs does and leaves
less of the file than there was. -/
theorem Matches.loop {more : α → Prop} [DecidablePred more] {ended : α → Bool}
    {step : α → Except (ReadFault ε) α} {more' : β → Prop} [DecidablePred more'] {ended' : β → Bool}
    {step' : β → Except δ β} {loop : Nat → β → Except δ β} {left : β → Nat} {R : α → β → Prop}
    (hzero : ∀ t, loop 0 t = .ok t)
    (hsucc : ∀ n t, loop (n + 1) t =
      if more' t then (do let t ← step' t; if ended' t then .ok t else loop n t) else .ok t)
    (hmore : ∀ s t, R s t → (more s ↔ more' t)) (hended : ∀ s t, R s t → ended s = ended' t)
    (hstep : ∀ s t, R s t → more' t → Matches R (step s) (step' t))
    (hleft : ∀ t, more' t → 0 < left t)
    (hnext : ∀ t t', more' t → step' t = .ok t' → ended' t' = true ∨ left t' < left t)
    {turns : Nat} {s : α} {t : β} (h : R s t) (hturns : left t ≤ turns) :
    Matches R (chunkLoop more ended step turns s) (loop turns t) := by
  induction turns generalizing s t with
  | zero =>
    have hover : ¬more s := fun hsome => by
      have hrest := hleft t ((hmore s t h).1 hsome)
      omega
    rw [chunkLoop, hzero, if_neg hover]
    exact h
  | succ turns ih =>
    rw [chunkLoop, hsucc]
    by_cases ht : more' t
    · rw [if_pos ht, if_pos ((hmore s t h).2 ht)]
      refine (hstep s t h ht).bind fun s' t' _ hturn h' => ?_
      rw [hended s' t' h']
      by_cases hend : ended' t' = true
      · rw [if_pos hend, if_pos hend]
        exact h'
      · rw [if_neg hend, if_neg hend]
        have hless := (hnext t t' ht hturn).resolve_left hend
        exact ih h' (by omega)
    · rw [if_neg ht, if_neg fun hs => ht ((hmore s t h).1 hs)]
      exact h

end Matching

end Reads

namespace TypeScript

def reject {α : Type} (message path : String) : Except (ReadFault HailCodecError) α :=
  .error (.rejected ⟨"schema-violation", message, path⟩)

/-- The body of the loop, from where it knows the length, the end and the type of the chunk. -/
def Png.readChunk (data : List UInt8) (path : String) (length finish : Nat) (type : List UInt8)
    (png : Png) : Except (ReadFault HailCodecError) Png :=
  if type = ihdr then
    if png.sawHeader ∨ length ≠ 13 then reject "contains an invalid PNG IHDR chunk" path
    else do
      let width ← readUint32 data (png.offset + 8)
      let height ← readUint32 data (png.offset + 12)
      let depth ← readByte data (png.offset + 16)
      let color ← readByte data (png.offset + 17)
      let compression ← readByte data (png.offset + 18)
      let filter ← readByte data (png.offset + 19)
      let interlace ← readByte data (png.offset + 20)
      if ¬(bitDepths color).contains depth ∨ compression ≠ 0 ∨ filter ≠ 0 ∨
          ¬[0, 1].contains interlace then
        reject "contains an invalid PNG IHDR profile" path
      else .ok { png with offset := finish, sawHeader := true, width, height }
  else if type = actl then reject "animated PNG is unsupported" path
  else if type = plte then
    if png.sawData ∨ png.sawPalette ∨ length = 0 ∨ length % 3 ≠ 0 ∨ length > 768 then
      reject "contains an invalid PNG palette" path
    else .ok { png with offset := finish, sawPalette := true }
  else if type = idat then
    if png.dataEnded then reject "contains nonconsecutive PNG image data" path
    else .ok { png with offset := finish, sawData := true }
  else if type = iend then
    if length ≠ 0 ∨ finish ≠ data.length then reject "contains an invalid PNG IEND chunk" path
    else .ok { png with sawEnd := true }
  else do
    let first ← readByte type 0
    if 65 ≤ first ∧ first ≤ 90 then reject "contains an unsupported critical PNG chunk" path
    else .ok { png with offset := finish, dataEnded := png.dataEnded || png.sawData }

def Png.readStep (data : List UInt8) (path : String) (png : Png) :
    Except (ReadFault HailCodecError) Png := do
  let length ← readUint32 data png.offset
  let finish := png.offset + 12 + length
  if finish > data.length then reject "contains a truncated PNG chunk" path
  else
    let type ← readSlice data (png.offset + 4) (png.offset + 8)
    let stored ← readUint32 data (png.offset + 8 + length)
    let bytes ← readSlice data (png.offset + 4) (png.offset + 8 + length)
    if stored ≠ checksum bytes then reject "contains an invalid PNG chunk CRC" path
    else if ¬png.sawHeader ∧ type ≠ ihdr then reject "must begin with a PNG IHDR chunk" path
    else png.readChunk data path length finish type

/-- `validatePngStructure` with its reads. -/
def readPngStructure (data : List UInt8) (path : String) :
    Except (ReadFault HailCodecError) (Nat × Nat) :=
  if data.length < 45 ∨ data.take 8 ≠ pngSignature then reject "must be a PNG image" path
  else do
    let png ← chunkLoop (fun png : Png => png.offset + 12 ≤ data.length) Png.sawEnd
      (Png.readStep data path) data.length ⟨8, 0, 0, false, false, false, false, false⟩
    let color ← readByte data 25
    if ¬png.sawHeader ∨ ¬png.sawData ∨ ¬png.sawEnd ∨ png.width = 0 ∨ png.height = 0 ∨
        color = 3 ∧ ¬png.sawPalette ∨ [0, 4].contains color ∧ png.sawPalette then
      reject "must be a complete PNG image" path
    else .ok (png.width, png.height)

section Walk

variable {data : List UInt8} {path : String} {png : Png}

theorem Png.chunk_matches {length finish : Nat} (hfinish : finish = png.offset + 12 + length)
    (hfit : finish ≤ data.length) :
    Matches Eq (png.readChunk data path length finish (chunkType data png.offset))
      (png.chunk data path length finish) := by
  unfold Png.readChunk Png.chunk reject fail
  refine Matches.ite (fun _ => ?_) fun _ => Matches.ite (fun _ => trivial) fun _ => ?_
  · refine Matches.guard Iff.rfl fun hheader => ?_
    have hlength : length = 13 := by
      by_contra hne
      exact hheader (.inr hne)
    rw [readUint32_ok (by omega), readUint32_ok (by omega), readByte_ok (by omega),
      readByte_ok (by omega), readByte_ok (by omega), readByte_ok (by omega),
      readByte_ok (by omega)]
    exact Matches.guard Iff.rfl fun _ => rfl
  refine Matches.ite (fun _ => Matches.guard Iff.rfl fun _ => rfl) fun _ => ?_
  refine Matches.ite (fun _ => Matches.guard Iff.rfl fun _ => rfl) fun _ => ?_
  refine Matches.ite (fun _ => Matches.guard Iff.rfl fun _ => rfl) fun _ => ?_
  rw [readByte_type (by omega)]
  exact Matches.guard Iff.rfl fun _ => rfl

theorem Png.step_matches (hroom : png.offset + 12 ≤ data.length) :
    Matches Eq (png.readStep data path) (png.step data path) := by
  unfold Png.readStep Png.step reject fail
  rw [readUint32_ok (by omega), ok_bind]
  refine Matches.guard Iff.rfl fun hfit => ?_
  rw [readSlice_ok (by omega) (by omega), readUint32_ok (by omega),
    readSlice_ok (by omega) (by omega), ok_bind, ok_bind, ok_bind, slice_type, checksum_slice]
  exact Matches.guard Iff.rfl fun _ => Matches.guard Iff.rfl fun _ =>
    Png.chunk_matches rfl (by omega)

theorem Png.chunk_offset {length finish : Nat} {png' : Png}
    (h : png.chunk data path length finish = .ok png') :
    png'.sawEnd = true ∨ png'.offset = finish := by
  unfold Png.chunk fail at h
  dsimp only at h
  split_ifs at h <;> cases h <;> simp

/-- A turn ends the file or passes over a chunk. -/
theorem Png.step_offset {png' : Png} (h : png.step data path = .ok png') :
    png'.sawEnd = true ∨ png.offset + 12 ≤ png'.offset := by
  unfold Png.step fail at h
  simp only [guard_eq_ok] at h
  obtain ⟨-, -, -, h⟩ := h
  rcases Png.chunk_offset h with hend | hoffset
  · exact .inl hend
  · exact .inr (by omega)

theorem Png.loop_matches (turns : Nat) (hturns : data.length ≤ png.offset + turns) :
    Matches Eq (chunkLoop (fun png : Png => png.offset + 12 ≤ data.length) Png.sawEnd
      (Png.readStep data path) turns png) (Png.loop data path turns png) := by
  let left (png : Png) : Nat := data.length - png.offset
  have hnext (t t' : Png) (ht : t.offset + 12 ≤ data.length) (hturn : t.step data path = .ok t') :
      t'.sawEnd = true ∨ left t' < left t := by
    rcases Png.step_offset hturn with hend | hoffset
    · exact .inl hend
    · exact .inr (Nat.sub_lt_sub_left (by omega) (by omega))
  refine Matches.loop (fun _ => rfl) (fun _ _ => rfl) (fun s t h => ?_) (fun s t h => ?_)
    (fun s t h hmore => ?_) (fun t hmore => ?_) hnext rfl ?_
  · rw [h]
  · rw [h]
  · rw [h]
    exact Png.step_matches hmore
  · exact Nat.sub_pos_of_lt (by omega)
  · exact Nat.sub_le_of_le_add (by omega)

/-- With its reads the validator comes out as without them. -/
theorem readPngStructure_matches (data : List UInt8) (path : String) :
    Matches Eq (readPngStructure data path) (validatePngStructure data path) := by
  unfold readPngStructure validatePngStructure reject fail
  refine Matches.guard Iff.rfl fun hsize => ?_
  refine (Png.loop_matches data.length (Nat.le_add_left _ _)).bind fun s t _ _ h => ?_
  subst h
  rw [readByte_ok (by omega), ok_bind]
  exact Matches.guard Iff.rfl fun _ => rfl

end Walk

end TypeScript

/-- The platform's integers: of any size, or of so many bits. -/
abbrev WordSize := Option Nat

/-- The words have 32 bits at least and hold an offset a chunk past the end of the file. -/
def Fits (size : WordSize) (data : List UInt8) : Prop :=
  ∀ bits, size = some bits → 32 ≤ bits ∧ data.length + 12 < 2 ^ (bits - 1)

namespace Go

/-- An `int`, which wraps. -/
def int (size : WordSize) (n : Int) : Int :=
  match size with
  | none => n
  | some bits => n.bmod (2 ^ bits)

def reject {α : Type} (message : String) : Except (ReadFault String) α :=
  .error (.rejected message)

def Png.readChunk (data : List UInt8) (length finish : Nat) (type : List UInt8) (png : Png) :
    Except (ReadFault String) Png :=
  if type = ihdr then
    if png.header ∨ length ≠ 13 then reject "asset PNG has invalid IHDR"
    else do
      let width ← readUint32 data (png.offset + 8)
      let height ← readUint32 data (png.offset + 12)
      let depth ← readByte data (png.offset + 16)
      let color ← readByte data (png.offset + 17)
      let compression ← readByte data (png.offset + 18)
      let filter ← readByte data (png.offset + 19)
      let interlace ← readByte data (png.offset + 20)
      if ¬(bitDepths color).contains depth ∨ compression ≠ 0 ∨ filter ≠ 0 ∨ interlace > 1 then
        reject "asset PNG has invalid IHDR profile"
      else .ok { png with offset := finish, header := true, width, height, colorType := color }
  else if type = actl then reject "animated PNG is unsupported"
  else if type = plte then
    if png.imageData ∨ png.palette ∨ length = 0 ∨ length % 3 ≠ 0 ∨ length > 768 then
      reject "asset PNG has invalid palette"
    else .ok { png with offset := finish, palette := true }
  else if type = idat then
    if png.dataEnded then reject "asset PNG has nonconsecutive image data"
    else .ok { png with offset := finish, imageData := true }
  else if type = iend then
    if length ≠ 0 ∨ finish ≠ data.length then reject "asset PNG has invalid IEND"
    else .ok { png with offset := finish, endChunk := true }
  else do
    let first ← readByte data (png.offset + 4)
    if 65 ≤ first ∧ first ≤ 90 then reject "asset PNG has unsupported critical chunk"
    else .ok { png with offset := finish, dataEnded := png.dataEnded || png.imageData }

def Png.readStep (size : WordSize) (data : List UInt8) (png : Png) :
    Except (ReadFault String) Png := do
  let word ← readUint32 data png.offset
  let length := int size word
  let finish := int size (png.offset + 12 + length)
  if length < 0 ∨ finish < png.offset ∨ finish > data.length then
    reject "asset data contains a truncated PNG chunk"
  else
    let type ← readSlice data (png.offset + 4) (png.offset + 8)
    let stored ← readUint32 data (png.offset + 8 + length.toNat)
    let bytes ← readSlice data (png.offset + 4) (png.offset + 8 + length.toNat)
    if stored ≠ checksum bytes then reject "asset PNG has invalid chunk CRC"
    else if ¬png.header ∧ type ≠ ihdr then reject "asset PNG must begin with IHDR"
    else png.readChunk data length.toNat finish.toNat type

/-- `pngDimensions` with its reads and its integers. -/
def readPngDimensions (size : WordSize) (data : List UInt8) :
    Except (ReadFault String) (Nat × Nat) :=
  if data.length < 45 ∨ data.take 8 ≠ pngSignature then reject "asset data must be a PNG image"
  else do
    let png ← chunkLoop (fun png : Png => int size (png.offset + 12) ≤ data.length) Png.endChunk
      (Png.readStep size data) data.length
      ⟨8, 0, 0, false, false, false, false, false, 255⟩
    if ¬png.header ∨ ¬png.imageData ∨ ¬png.endChunk ∨ png.width = 0 ∨ png.height = 0 ∨
        png.colorType = 3 ∧ ¬png.palette ∨
        (png.colorType = 0 ∨ png.colorType = 4) ∧ png.palette then
      reject "asset data must be a complete PNG image"
    else .ok (png.width, png.height)

section Walk

variable {size : WordSize} {data : List UInt8} {png : Png}

/-- An integer of so many bits, of half their range at most. -/
theorem bmod_double {half n : Int} (hn : 0 ≤ n) (hdouble : n < 2 * half) :
    n.bmod (2 * half).toNat = if n < half then n else n - 2 * half := by
  have hcast : ((2 * half).toNat : Int) = 2 * half := Int.toNat_of_nonneg (by omega)
  rw [Int.bmod, hcast, Int.emod_eq_of_lt hn hdouble]
  congr 1
  simp only [eq_iff_iff]
  omega

theorem int_of_bits {bits : Nat} (hbits : 32 ≤ bits) (n : Int) (hn : 0 ≤ n)
    (hdouble : n < 2 * 2 ^ (bits - 1)) :
    int (some bits) n = if n < 2 ^ (bits - 1) then n else n - 2 * 2 ^ (bits - 1) := by
  have hpow : (2 : Int) * 2 ^ (bits - 1) = (2 ^ bits : Nat) := by
    rw [← pow_succ', Nat.sub_add_cancel (by omega)]
    norm_num
  rw [int, ← bmod_double hn hdouble, hpow, Int.toNat_natCast]

/-- The lengths a file of the platform can hold are computed as they are, and all others are seen
to be too long. -/
theorem int_finish (hfits : Fits size data) {word : Nat} (hword : word < 2 ^ 32) {offset : Nat}
    (hroom : offset + 12 ≤ data.length) :
    (int size word < 0 ∨ int size (offset + 12 + int size word) < offset ∨
        int size (offset + 12 + int size word) > data.length ↔
      offset + 12 + word > data.length) ∧
    (offset + 12 + word ≤ data.length →
      (int size word).toNat = word ∧
        (int size (offset + 12 + int size word)).toNat = offset + 12 + word) := by
  cases size with
  | none =>
    simp only [int]
    omega
  | some bits =>
    obtain ⟨hbits, hlength⟩ := hfits bits rfl
    have hhalf : (2 : Int) ^ 31 ≤ 2 ^ (bits - 1) :=
      pow_le_pow_right₀ (by norm_num) (by omega)
    have hlength' : (data.length : Int) + 12 < 2 ^ (bits - 1) := by exact_mod_cast hlength
    have hfirst := int_of_bits hbits word (Int.natCast_nonneg word) (by omega)
    by_cases hsmall : (word : Int) < 2 ^ (bits - 1)
    · rw [if_pos hsmall] at hfirst
      rw [hfirst]
      have hsecond := int_of_bits hbits (offset + 12 + word) (by omega) (by omega)
      rw [hsecond]
      split <;> omega
    · rw [if_neg hsmall] at hfirst
      rw [hfirst]
      omega

theorem int_room (hfits : Fits size data) {offset : Nat} (hoffset : offset ≤ data.length) :
    int size (offset + 12) = offset + 12 := by
  cases size with
  | none => rfl
  | some bits =>
    obtain ⟨hbits, hlength⟩ := hfits bits rfl
    have hlength' : (data.length : Int) + 12 < 2 ^ (bits - 1) := by exact_mod_cast hlength
    rw [int_of_bits hbits _ (by omega) (by omega), if_pos (by omega)]

theorem Png.chunk_matches {length finish : Nat} (hfinish : finish = png.offset + 12 + length)
    (hfit : finish ≤ data.length) :
    Matches Eq (png.readChunk data length finish (chunkType data png.offset))
      (png.chunk data length finish) := by
  unfold Png.readChunk Png.chunk reject
  refine Matches.ite (fun _ => ?_) fun _ => Matches.ite (fun _ => trivial) fun _ => ?_
  · refine Matches.guard Iff.rfl fun hheader => ?_
    have hlength : length = 13 := by
      by_contra hne
      exact hheader (.inr hne)
    rw [readUint32_ok (by omega), readUint32_ok (by omega), readByte_ok (by omega),
      readByte_ok (by omega), readByte_ok (by omega), readByte_ok (by omega),
      readByte_ok (by omega)]
    exact Matches.guard Iff.rfl fun _ => rfl
  refine Matches.ite (fun _ => Matches.guard Iff.rfl fun _ => rfl) fun _ => ?_
  refine Matches.ite (fun _ => Matches.guard Iff.rfl fun _ => rfl) fun _ => ?_
  refine Matches.ite (fun _ => Matches.guard Iff.rfl fun _ => rfl) fun _ => ?_
  rw [readByte_ok (by omega)]
  exact Matches.guard Iff.rfl fun _ => rfl

theorem Png.step_matches (hfits : Fits size data) (hroom : png.offset + 12 ≤ data.length) :
    Matches Eq (png.readStep size data) (png.step data) := by
  have hword := uint32_lt data png.offset
  obtain ⟨htruncated, hexact⟩ := int_finish hfits hword hroom
  unfold Png.readStep Png.step reject
  rw [readUint32_ok (by omega), ok_bind]
  refine Matches.guard htruncated fun hfit => ?_
  obtain ⟨hlength, hfinish⟩ := hexact (by omega)
  rw [hlength, hfinish, readSlice_ok (by omega) (by omega), readUint32_ok (by omega),
    readSlice_ok (by omega) (by omega), ok_bind, ok_bind, ok_bind, slice_type, checksum_slice]
  exact Matches.guard Iff.rfl fun _ => Matches.guard Iff.rfl fun _ =>
    Png.chunk_matches rfl (by omega)

theorem Png.chunk_offset {length finish : Nat} {png' : Png}
    (h : png.chunk data length finish = .ok png') : png'.offset = finish := by
  unfold Png.chunk at h
  dsimp only at h
  split_ifs at h <;> cases h <;> rfl

/-- A turn passes over a chunk and stays in the file. -/
theorem Png.step_offset {png' : Png} (h : png.step data = .ok png') :
    png.offset + 12 ≤ png'.offset ∧ png'.offset ≤ data.length := by
  unfold Png.step at h
  simp only [guard_eq_ok] at h
  obtain ⟨hfit, -, -, h⟩ := h
  rw [Png.chunk_offset h]
  omega

theorem Png.loop_matches (hfits : Fits size data) (turns : Nat) (hoffset : png.offset ≤ data.length)
    (hturns : data.length ≤ png.offset + turns) :
    Matches (fun a b => a = b ∧ b.offset ≤ data.length)
      (chunkLoop (fun png : Png => int size (png.offset + 12) ≤ data.length) Png.endChunk
        (Png.readStep size data) turns png) (Png.loop data turns png) := by
  let left (png : Png) : Nat := data.length - png.offset
  have hnext (t t' : Png) (ht : t.offset + 12 ≤ data.length) (hturn : t.step data = .ok t') :
      t'.endChunk = true ∨ left t' < left t :=
    .inr (Nat.sub_lt_sub_left (by omega) (by have := (Png.step_offset hturn).1; omega))
  refine Matches.loop (fun _ => rfl) (fun _ _ => rfl) (fun s t h => ?_) (fun s t h => ?_)
    (fun s t h hmore => ?_) (fun t hmore => ?_) hnext ⟨rfl, hoffset⟩ ?_
  · rw [h.1, int_room hfits h.2]
    omega
  · rw [h.1]
  · rw [h.1]
    exact (Png.step_matches hfits hmore).and fun t' ht => (Png.step_offset ht).2
  · exact Nat.sub_pos_of_lt (by omega)
  · exact Nat.sub_le_of_le_add (by omega)

/-- With its reads, and integers of any size that the file fits, the validator comes out as
without. -/
theorem readPngDimensions_matches (hfits : Fits size data) :
    Matches Eq (readPngDimensions size data) (pngDimensions data) := by
  unfold readPngDimensions pngDimensions reject
  refine Matches.guard Iff.rfl fun hsize => ?_
  have hstart : 8 ≤ data.length := by omega
  refine (Png.loop_matches hfits data.length hstart (Nat.le_add_left _ _)).bind
    fun s t _ _ h => ?_
  obtain ⟨rfl, -⟩ := h
  exact Matches.guard Iff.rfl fun _ => rfl

end Walk

end Go

namespace Rust

/-- The variables of the walk; `endChunk` is the source's `end`. -/
structure Png where
  offset : Nat
  width : Nat
  height : Nat
  header : Bool
  image : Bool
  endChunk : Bool
  palette : Bool
  ended : Bool

/-- `as usize`. -/
def usize (size : WordSize) (n : Nat) : Nat :=
  match size with
  | none => n
  | some bits => n % 2 ^ bits

def checkedAdd (size : WordSize) (a b : Nat) : Option Nat :=
  match size with
  | none => some (a + b)
  | some bits => if a + b < 2 ^ bits then some (a + b) else none

def invalid {α : Type} : Except (ReadFault Unit) α := .error (.rejected ())

/-- The `match` on the kind of a chunk. -/
def Png.readChunk (data : List UInt8) (length next : Nat) (kind : List UInt8) (png : Png) :
    Except (ReadFault Unit) Png :=
  if kind = ihdr then
    if ¬(png.header = false ∧ length = 13) then invalid
    else do
      let width ← readUint32 data (png.offset + 8)
      let height ← readUint32 data (png.offset + 12)
      let depth ← readByte data (png.offset + 16)
      let color ← readByte data (png.offset + 17)
      let compression ← readByte data (png.offset + 18)
      let filter ← readByte data (png.offset + 19)
      let interlace ← readByte data (png.offset + 20)
      if ¬((bitDepths color).contains depth ∧ compression = 0 ∧ filter = 0 ∧ interlace ≤ 1) then
        invalid
      else .ok { png with offset := next, header := true, width, height }
  else if kind = actl then invalid
  else if kind = plte then
    if ¬(png.image = false ∧ png.palette = false ∧ length > 0 ∧ length % 3 = 0 ∧ length ≤ 768) then
      invalid
    else .ok { png with offset := next, palette := true }
  else if kind = idat then
    if ¬png.ended = false then invalid else .ok { png with offset := next, image := true }
  else if kind = iend then
    if ¬(length = 0 ∧ next = data.length) then invalid else .ok { png with endChunk := true }
  else do
    let first ← readByte kind 0
    if ¬¬(65 ≤ first ∧ first ≤ 90) then invalid
    else .ok { png with offset := next, ended := png.ended || png.image }

def Png.readStep (size : WordSize) (data : List UInt8) (png : Png) :
    Except (ReadFault Unit) Png := do
  let word ← readUint32 data png.offset
  let length := usize size word
  match (checkedAdd size png.offset 12).bind (checkedAdd size · length) with
  | none => invalid
  | some next =>
    if ¬next ≤ data.length then invalid
    else
      let kind ← readSlice data (png.offset + 4) (png.offset + 8)
      let bytes ← readSlice data (png.offset + 4) (png.offset + 8 + length)
      let stored ← readUint32 data (png.offset + 8 + length)
      if ¬(stored = checksum bytes ∧ (png.header ∨ kind = ihdr)) then invalid
      else png.readChunk data length next kind

/-- `png`. -/
def readPng (size : WordSize) (data : List UInt8) : Except (ReadFault Unit) (Nat × Nat) :=
  if ¬(data.length ≥ 45 ∧ data.take 8 = pngSignature) then invalid
  else do
    let png ← chunkLoop (fun png : Png => png.offset + 12 ≤ data.length) Png.endChunk
      (Png.readStep size data) data.length ⟨8, 0, 0, false, false, false, false, false⟩
    let color ← readByte data 25
    if ¬(png.header ∧ png.image ∧ png.endChunk ∧ png.width > 0 ∧ png.height > 0 ∧
        (color ≠ 3 ∨ png.palette) ∧ (¬[0, 4].contains color ∨ ¬png.palette)) then invalid
    else .ok (png.width, png.height)

/-- The same variables under the names of the TypeScript validator. -/
def Png.asTypeScript (png : Png) : TypeScript.Png :=
  ⟨png.offset, png.width, png.height, png.header, png.image, png.endChunk, png.palette, png.ended⟩

section Walk

variable {size : WordSize} {data : List UInt8} {path : String} {png : Png}

theorem Png.chunk_matches {length finish : Nat} (hfinish : finish = png.offset + 12 + length)
    (hfit : finish ≤ data.length) :
    Matches (fun r s => r.asTypeScript = s)
      (png.readChunk data length finish (chunkType data png.offset))
      (png.asTypeScript.chunk data path length finish) := by
  unfold Png.readChunk TypeScript.Png.chunk invalid TypeScript.fail Png.asTypeScript
  dsimp only
  refine Matches.ite (fun _ => ?_) fun _ => Matches.ite (fun _ => trivial) fun _ => ?_
  · refine Matches.guard (by simp only [not_and_or, Bool.not_eq_false, ne_eq]) fun hheader => ?_
    obtain ⟨-, hlength⟩ := not_not.1 hheader
    rw [readUint32_ok (by omega), readUint32_ok (by omega), readByte_ok (by omega),
      readByte_ok (by omega), readByte_ok (by omega), readByte_ok (by omega),
      readByte_ok (by omega)]
    refine Matches.guard ?_ fun _ => rfl
    have hmethod (n : Nat) : [0, 1].contains n = true ↔ n ≤ 1 := by
      simp only [List.contains_iff_mem, List.mem_cons, List.not_mem_nil, or_false]
      omega
    simp only [hmethod, not_and_or, ne_eq]
  refine Matches.ite (fun _ => Matches.guard ?_ fun _ => rfl) fun _ => ?_
  · simp only [not_and_or, Bool.not_eq_false, gt_iff_lt, not_lt, Nat.le_zero, not_le, ne_eq]
  refine Matches.ite (fun _ => Matches.guard (by simp) fun _ => rfl) fun _ => ?_
  refine Matches.ite (fun _ => Matches.guard not_and_or fun _ => rfl) fun _ => ?_
  rw [readByte_type (by omega)]
  exact Matches.guard not_not fun _ => rfl

theorem usize_eq (hfits : Fits size data) {word : Nat} (hword : word < 2 ^ 32) :
    usize size word = word := by
  cases size with
  | none => rfl
  | some bits =>
    have hpow : 2 ^ 32 ≤ 2 ^ bits := Nat.pow_le_pow_right (by decide) (hfits bits rfl).1
    exact Nat.mod_eq_of_lt (by omega)

theorem checkedAdd_eq_some {a b c : Nat} (h : checkedAdd size a b = some c) : c = a + b := by
  fun_cases checkedAdd size a b with
  | case1 => exact (Option.some.inj h).symm
  | case2 => simp_all [checkedAdd]
  | case3 => simp_all [checkedAdd]

theorem checkedAdd_of_le (hfits : Fits size data) {a b : Nat} (h : a + b ≤ data.length) :
    checkedAdd size a b = some (a + b) := by
  cases size with
  | none => rfl
  | some bits =>
    have hpow : 2 ^ (bits - 1) ≤ 2 ^ bits := Nat.pow_le_pow_right (by decide) (Nat.sub_le _ _)
    have hlength := (hfits bits rfl).2
    exact if_pos (by omega)

theorem Png.step_matches (hfits : Fits size data) (hroom : png.offset + 12 ≤ data.length) :
    Matches (fun r s => r.asTypeScript = s) (png.readStep size data)
      (png.asTypeScript.step data path) := by
  have hword := uint32_lt data png.offset
  have hplace : png.asTypeScript.offset = png.offset := rfl
  have hheader : png.asTypeScript.sawHeader = png.header := rfl
  unfold Png.readStep TypeScript.Png.step TypeScript.fail invalid
  rw [readUint32_ok (by omega), ok_bind, usize_eq hfits hword, hplace, hheader]
  dsimp only
  by_cases hfit : png.offset + 12 + uint32 data png.offset ≤ data.length
  · have hnext : (checkedAdd size png.offset 12).bind (checkedAdd size · (uint32 data png.offset)) =
        some (png.offset + 12 + uint32 data png.offset) := by
      rw [checkedAdd_of_le hfits (by omega), Option.bind_some, checkedAdd_of_le hfits hfit]
    rw [hnext, if_neg (not_lt.2 hfit)]
    dsimp only
    rw [if_neg (not_not.2 hfit), readSlice_ok (by omega) (by omega),
      readSlice_ok (by omega) (by omega), readUint32_ok (by omega), ok_bind, ok_bind, ok_bind,
      slice_type, checksum_slice]
    by_cases hcrc : uint32 data (png.offset + 8 + uint32 data png.offset) =
        crc32 data (png.offset + 4) (png.offset + 8 + uint32 data png.offset)
    · rw [if_neg (not_not.2 hcrc)]
      refine Matches.guard ?_ fun _ => Png.chunk_matches rfl hfit
      simp only [hcrc, true_and, not_or, ne_eq]
    · rw [if_pos hcrc, if_pos fun h => hcrc h.1]
      trivial
  · rw [if_pos (not_le.1 hfit)]
    cases hnext : (checkedAdd size png.offset 12).bind
        (checkedAdd size · (uint32 data png.offset)) with
    | none => trivial
    | some next =>
      obtain ⟨first, hfirst, hsecond⟩ := Option.bind_eq_some_iff.1 hnext
      have hvalue := checkedAdd_eq_some hsecond
      rw [checkedAdd_eq_some hfirst] at hvalue
      dsimp only
      rw [if_pos (by omega)]
      trivial

theorem Png.loop_matches (hfits : Fits size data) (png : Png) (turns : Nat)
    (hturns : data.length ≤ png.offset + turns) :
    Matches (fun r s => r.asTypeScript = s)
      (chunkLoop (fun png : Png => png.offset + 12 ≤ data.length) Png.endChunk
        (Png.readStep size data) turns png)
      (TypeScript.Png.loop data path turns png.asTypeScript) := by
  let left (png : TypeScript.Png) : Nat := data.length - png.offset
  have hnext (t t' : TypeScript.Png) (ht : t.offset + 12 ≤ data.length)
      (hturn : t.step data path = .ok t') : t'.sawEnd = true ∨ left t' < left t := by
    rcases TypeScript.Png.step_offset hturn with hend | hoffset
    · exact .inl hend
    · exact .inr (Nat.sub_lt_sub_left (by omega) (by omega))
  refine Matches.loop (fun _ => rfl) (fun _ _ => rfl) (fun s t h => ?_) (fun s t h => ?_)
    (fun s t h hmore => ?_) (fun t hmore => ?_) hnext rfl ?_
  · rw [← h]
    rfl
  · rw [← h]
    rfl
  · subst h
    exact Png.step_matches hfits hmore
  · exact Nat.sub_pos_of_lt (by omega)
  · exact Nat.sub_le_iff_le_add'.2 hturns

/-- Rust's validator comes out as TypeScript's does. -/
theorem readPng_matches (hfits : Fits size data) :
    Matches Eq (readPng size data) (TypeScript.validatePngStructure data path) := by
  unfold readPng TypeScript.validatePngStructure invalid TypeScript.fail
  refine Matches.guard (by rw [not_and_or, not_le]) fun hsize => ?_
  obtain ⟨hlength, -⟩ := not_not.1 hsize
  refine (Png.loop_matches hfits ⟨8, 0, 0, false, false, false, false, false⟩ data.length
    (Nat.le_add_left _ _)).bind fun s t _ _ h => ?_
  subst h
  rw [readByte_ok (by omega), ok_bind]
  refine Matches.guard ?_ fun _ => rfl
  simp only [Png.asTypeScript, not_and_or, not_or, not_not, gt_iff_lt, not_lt, Nat.le_zero, ne_eq]

end Walk

end Rust

end HailProto.Codec
