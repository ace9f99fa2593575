import HailProto.Core.Numbers
import HailProto.Codec.Libraries

/-!
# Attachments in two languages

`validateAttachments` of `validation.ts` and of `payload.go`. The filename is matched by one
regular expression in two dialects: TypeScript takes UTF-16 units and its dot refuses four line
terminators, Go takes characters and its dot refuses the line feed alone. The controls among
those terminators are refused by both, so the two languages differ on names with a line or
paragraph separator after the first character, and only on those.
-/

namespace HailProto.Codec

open Cbor (Value asBytes)

/-- The extensions of the filename pattern. -/
def attachmentExtensions : List String := ["pdf", "txt", "log", "png", "jpg", "jpeg", "webp"]

/-- The name ends in a dot and this extension, in any case. No other character folds to a letter
of an extension. -/
def hasExtension (extension : String) (units : List Nat) : Bool :=
  (46 :: codes extension).isSuffixOf (toLowerCase units)

/-- `^[^.].*\.(pdf|txt|log|png|jpg|jpeg|webp)$`, whatever the case, for a dot that refuses these
units. -/
def filenamePattern (lineEnds : List Nat) : List Nat → Bool
  | [] => false
  | first :: rest => first != 46 && attachmentExtensions.any fun extension =>
    hasExtension extension rest &&
      (rest.take (rest.length - (extension.length + 1))).all (!lineEnds.contains ·)

/-- The media type of a name, by its extension. -/
def mediaTypeOf (units : List Nat) : String :=
  if hasExtension "pdf" units then "application/pdf"
  else if hasExtension "png" units then "image/png"
  else if hasExtension "jpg" units || hasExtension "jpeg" units then "image/jpeg"
  else if hasExtension "webp" units then "image/webp"
  else "text/plain"

namespace TypeScript

/-- `/[\\/\x00-\x1f\x7f]/`. -/
def filenameControl (x : Nat) : Bool := x == 92 || x == 47 || decide (x ≤ 31) || x == 127

def attachmentFilename (lib : Libraries) (name : String) : Bool :=
  lib.isNormal name && decide ((asBytes name).length ≤ 255) &&
    !(utf16 name).any filenameControl && filenamePattern [10, 13, 0x2028, 0x2029] (utf16 name)

def attachmentEntry (lib : Libraries) (path : String) (entry : Value) :
    Except HailCodecError Int := do
  let a ← record (some entry) path
  exactKeys a ["filename", "media_type", "size", "digest"] [] path
  let name ← text (a.get "filename") (path ++ ".filename")
  failIf (!attachmentFilename lib name) "invalid attachment filename" path
  failIf (!strictEqual (a.get "media_type") (some (.text (mediaTypeOf (utf16 name)))))
    "unsupported attachment type" path
  let size ← integer (a.get "size") (path ++ ".size") 1
  let digest ← record (a.get "digest") (path ++ ".digest")
  exactKeys digest ["algorithm", "value"] [] (path ++ ".digest")
  (match digest.get "algorithm", digest.get "value" with
  | some (.text "sha-256"), some (.bytes value) =>
    failIf (value.length != 32) "invalid attachment digest" path
  | _, _ => fail "invalid attachment digest" path)
  .ok size

/-- The loop, with the total size as a double. -/
def attachmentEntries (lib : Libraries) :
    Int → Nat → List Value → Except HailCodecError Int
  | total, _, [] => .ok total
  | total, position, entry :: entries => do
      let size ← attachmentEntry lib ("$.attachments[" ++ toString position ++ "]") entry
      attachmentEntries lib (number (total + size)) (position + 1) entries

def validateAttachments (lib : Libraries) (value : Option Value) :
    Except HailCodecError Unit := do
  let entries ← array value "$.attachments"
  failIf (entries.isEmpty || decide (entries.length > 20)) "must contain 1 to 20 files"
    "$.attachments"
  let total ← attachmentEntries lib 0 0 entries
  failIf (decide (total > 26214400)) "attachments exceed 25 MiB per message" "$.attachments"

end TypeScript

namespace Go

def attachmentFilename (lib : Libraries) (name : String) : Bool :=
  lib.isNormal name && decide ((asBytes name).length ≤ 255) &&
    filenamePattern [10] (codes name) && !(codes name).any (fun x => x == 47 || x == 92) &&
    !(codes name).any (fun x => decide (x < 32) || x == 127)

def attachmentEntry (lib : Libraries) (entry : Value) : Except String Int := do
  let a ← mapValue entry "attachment"
  exact a ["filename", "media_type", "size", "digest"] [] "attachment"
  let name ← textValue (index a "filename") "filename"
  errorIf (!attachmentFilename lib name) "invalid attachment filename"
  errorIf (!interfaceEqual (index a "media_type") (.text (mediaTypeOf (codes name))))
    "invalid attachment media type"
  match intValue (index a "size") "size" 1 with
  | .error _ => .error "attachment too large"
  | .ok size => do
      errorIf (decide (size > 26214400)) "attachment too large"
      digest (index a "digest") "digest"
      .ok size

def attachmentEntries (lib : Libraries) : Int → List Value → Except String Int
  | total, [] => .ok total
  | total, entry :: entries => do
      let size ← attachmentEntry lib entry
      attachmentEntries lib (int64 (total + size)) entries

def validateAttachments (lib : Libraries) (m : Record) : Except String Unit :=
  if has m "attachments" then
    match index m "attachments" with
    | .array entries => do
        errorIf (decide (entries.length < 1) || decide (entries.length > 20))
          "attachments require 1 to 20 files"
        let total ← attachmentEntries lib 0 entries
        errorIf (decide (total > 26214400)) "attachments exceed 25 MiB"
    | _ => .error "attachments require 1 to 20 files"
  else .ok ()

end Go

/-- The name has a line or paragraph separator after its first character. -/
def HasSeparator (name : String) : Prop := ∃ x ∈ (codes name).tail, x = 0x2028 ∨ x = 0x2029

section Units

/-- A list of ASCII units is a suffix of one that ends in another unit only when it is empty. -/
theorem suffix_concat_large {suffix xs : List Nat} {x : Nat} (hascii : ∀ y ∈ suffix, y < 128)
    (hx : 128 ≤ x) : suffix <:+ xs ++ [x] ↔ suffix = [] := by
  rw [List.suffix_concat_iff]
  refine or_iff_left ?_
  rintro ⟨t, rfl, _⟩
  have hlt := hascii x (by simp)
  omega

theorem le_lowerCase {x : Nat} (h : 128 ≤ x) :
    128 ≤ if 65 ≤ x && x ≤ 90 then x + 32 else x := by
  split <;> omega

/-- A list of ASCII units is a suffix of the UTF-16 units exactly when it is one of the
characters. -/
theorem suffix_utf16_iff {suffix : List Nat} (hascii : ∀ x ∈ suffix, x < 128) (cs : List Char) :
    suffix <:+ toLowerCase (cs.flatMap utf16Char) ↔
      suffix <:+ toLowerCase (cs.map Char.toNat) := by
  induction cs using List.reverseRecOn generalizing suffix with
  | nil => simp
  | append_singleton cs c ih =>
    simp only [toLowerCase, List.flatMap_append, List.map_append, List.flatMap_cons,
      List.flatMap_nil, List.append_nil, List.map_cons, List.map_nil] at ih ⊢
    by_cases hbmp : c.toNat < 0x10000
    · simp only [utf16Char, hbmp, if_true, List.map_cons, List.map_nil, List.suffix_concat_iff]
      refine or_congr_right (exists_congr fun t => and_congr_right ?_)
      rintro rfl
      exact ih fun x hx => hascii x (List.mem_append_left _ hx)
    · -- Both ends are units that no ASCII list ends in.
      simp only [utf16Char, hbmp, if_false, List.map_cons, List.map_nil]
      rw [← List.singleton_append, ← List.append_assoc,
        suffix_concat_large hascii (le_lowerCase (by omega)),
        suffix_concat_large hascii (le_lowerCase (by omega))]

theorem mem_utf16_iff {x : Nat} (hx : x < 0xd800) (cs : List Char) :
    x ∈ cs.flatMap utf16Char ↔ x ∈ cs.map Char.toNat := by
  rw [List.mem_flatMap, List.mem_map]
  refine exists_congr fun c => and_congr_right fun _ => ?_
  unfold utf16Char
  split
  · rw [List.mem_singleton]
    exact eq_comm
  · simp only [List.mem_cons, List.not_mem_nil, or_false]
    constructor
    · intro h
      omega
    · intro h
      omega

theorem hasExtension_iff {extension : String} {units : List Nat} :
    hasExtension extension units = true ↔ 46 :: codes extension <:+ toLowerCase units := by
  rw [hasExtension, List.isSuffixOf_iff_suffix]

theorem extension_ascii {extension : String} (h : extension ∈ attachmentExtensions) :
    ∀ x ∈ 46 :: codes extension, x < 128 ∧ 46 ≤ x := by
  have hall : ∀ e ∈ attachmentExtensions, ∀ x ∈ 46 :: codes e, x < 128 ∧ 46 ≤ x := by
    simp [attachmentExtensions, codes]
  exact hall extension h

theorem hasExtension_utf16 {extension : String} (h : extension ∈ attachmentExtensions)
    (cs : List Char) :
    hasExtension extension (cs.flatMap utf16Char) = hasExtension extension (cs.map Char.toNat) := by
  rw [Bool.eq_iff_iff, hasExtension_iff, hasExtension_iff]
  exact suffix_utf16_iff (fun x hx => (extension_ascii h x hx).1) cs

theorem mediaTypeOf_utf16 (name : String) : mediaTypeOf (utf16 name) = mediaTypeOf (codes name) := by
  have hunits (extension : String) (h : extension ∈ attachmentExtensions) :
      hasExtension extension (utf16 name) = hasExtension extension (codes name) :=
    hasExtension_utf16 h name.toList
  unfold mediaTypeOf
  rw [hunits "pdf" (by simp [attachmentExtensions]), hunits "png" (by simp [attachmentExtensions]),
    hunits "jpg" (by simp [attachmentExtensions]), hunits "jpeg" (by simp [attachmentExtensions]),
    hunits "webp" (by simp [attachmentExtensions])]

/-- The dot of the pattern may as well be asked of everything after the first unit. -/
theorem filenamePattern_cons {lineEnds rest : List Nat} {first : Nat}
    (hends : ∀ x ∈ lineEnds, x < 46 ∨ 128 ≤ x) :
    filenamePattern lineEnds (first :: rest) = true ↔
      first ≠ 46 ∧ (∃ extension ∈ attachmentExtensions, hasExtension extension rest = true) ∧
        ∀ x ∈ rest, x ∉ lineEnds := by
  simp only [filenamePattern, Bool.and_eq_true, bne_iff_ne, ne_eq, List.any_eq_true,
    List.all_eq_true, Bool.not_eq_true', List.contains_eq_mem, decide_eq_false_iff_not]
  refine and_congr_right fun _ => ?_
  have hsplit {extension : String} (hknown : extension ∈ attachmentExtensions)
      (h : hasExtension extension rest = true) :
      (∀ x ∈ rest.take (rest.length - (extension.length + 1)), x ∉ lineEnds) ↔
        ∀ x ∈ rest, x ∉ lineEnds := by
    rw [hasExtension_iff] at h
    obtain ⟨t, ht⟩ := h
    rw [toLowerCase] at ht
    obtain ⟨before, after, rfl, -, hafter⟩ := List.append_eq_map_iff.1 ht
    have hlength : after.length = extension.length + 1 := by
      have hmap := congrArg List.length hafter
      rw [← String.length_toList]
      simpa [codes] using hmap
    have htake : (before ++ after).take ((before ++ after).length - (extension.length + 1)) =
        before := by
      rw [List.length_append, hlength, Nat.add_sub_cancel, List.take_left]
    rw [htake]
    refine ⟨fun h x hx => ?_, fun h x hx => h x (List.mem_append_left _ hx)⟩
    obtain hx | hx := List.mem_append.1 hx
    · exact h x hx
    · -- A unit of the extension is a dot or a letter.
      intro hend
      have hlower := List.mem_map_of_mem (f := fun x => if 65 ≤ x && x ≤ 90 then x + 32 else x) hx
      rw [hafter] at hlower
      have hbounds := extension_ascii hknown _ hlower
      have hsmall := hends x hend
      split at hbounds
      · rename_i hletter
        simp only [Bool.and_eq_true, decide_eq_true_eq] at hletter
        omega
      · omega
  constructor
  · rintro ⟨extension, hknown, hextension, hall⟩
    exact ⟨⟨extension, hknown, hextension⟩, (hsplit hknown hextension).1 hall⟩
  · rintro ⟨⟨extension, hknown, hextension⟩, hall⟩
    exact ⟨extension, hknown, hextension, (hsplit hknown hextension).2 hall⟩

theorem forall_utf16_iff {P : Nat → Prop} (hP : ∀ x, 0xd800 ≤ x → P x) (cs : List Char) :
    (∀ x ∈ cs.flatMap utf16Char, P x) ↔ ∀ x ∈ cs.map Char.toNat, P x := by
  constructor
  · intro h x hx
    by_cases hlarge : 0xd800 ≤ x
    · exact hP x hlarge
    · exact h x ((mem_utf16_iff (by omega) cs).2 hx)
  · intro h x hx
    by_cases hlarge : 0xd800 ≤ x
    · exact hP x hlarge
    · exact h x ((mem_utf16_iff (by omega) cs).1 hx)

/-- The filename pattern sees the same name in units and in characters. -/
theorem filenamePattern_utf16 {lineEnds : List Nat}
    (hends : ∀ x ∈ lineEnds, x < 46 ∨ 128 ≤ x ∧ x < 0xd800) (name : String) :
    filenamePattern lineEnds (utf16 name) = filenamePattern lineEnds (codes name) := by
  have hsmall : ∀ x ∈ lineEnds, x < 46 ∨ 128 ≤ x := fun x hx => (hends x hx).imp_right And.left
  have hfree (x : Nat) (hx : 0xd800 ≤ x) : x ∉ lineEnds := by
    intro hmem
    have hbound := hends x hmem
    omega
  unfold utf16 codes
  cases name.toList with
  | nil => rfl
  | cons c cs =>
    rw [Bool.eq_iff_iff, List.flatMap_cons, List.map_cons]
    have hextension : (∃ extension ∈ attachmentExtensions,
        hasExtension extension (cs.flatMap utf16Char) = true) ↔
        ∃ extension ∈ attachmentExtensions,
          hasExtension extension (cs.map Char.toNat) = true := by
      refine exists_congr fun extension => and_congr_right fun hknown => ?_
      rw [hasExtension_utf16 hknown]
    by_cases hbmp : c.toNat < 0x10000
    · simp only [utf16Char, hbmp, if_true, List.singleton_append]
      rw [filenamePattern_cons hsmall, filenamePattern_cons hsmall, hextension,
        forall_utf16_iff hfree]
    · -- The low half of the first character belongs to the rest, and matters to no test.
      simp only [utf16Char, hbmp, if_false, List.cons_append, List.nil_append]
      have hlow (extension : String) (hknown : extension ∈ attachmentExtensions) {low : Nat}
          (hlarge : 0xd800 ≤ low) : hasExtension extension (low :: cs.flatMap utf16Char) = true ↔
          hasExtension extension (cs.flatMap utf16Char) = true := by
        rw [hasExtension_iff, hasExtension_iff, toLowerCase, List.map_cons, List.suffix_cons_iff]
        refine or_iff_right ?_
        intro h
        have hhead := (List.cons.inj h).1
        have hge := le_lowerCase (show 128 ≤ low by omega)
        omega
      have hrest : (∃ extension ∈ attachmentExtensions, hasExtension extension
          ((0xdc00 + (c.toNat - 0x10000) % 0x400) :: cs.flatMap utf16Char) = true) ↔
          ∃ extension ∈ attachmentExtensions,
            hasExtension extension (cs.flatMap utf16Char) = true :=
        exists_congr fun extension => and_congr_right fun hknown =>
          hlow extension hknown (by omega)
      rw [filenamePattern_cons hsmall, filenamePattern_cons hsmall, hrest, hextension,
        List.forall_mem_cons, forall_utf16_iff hfree]
      have hfirst : 0xd800 + (c.toNat - 0x10000) / 0x400 ≠ 46 := by omega
      have hcode : c.toNat ≠ 46 := by omega
      have hlowfree := hfree (0xdc00 + (c.toNat - 0x10000) % 0x400) (by omega)
      exact and_congr (iff_of_true hfirst hcode)
        (and_congr_right fun _ => and_iff_right hlowfree)

/-- TypeScript accepts the filenames of Go that have no separator past their first character. -/
theorem attachmentFilename_iff {lib : Libraries} {name : String} :
    TypeScript.attachmentFilename lib name = true ↔
      Go.attachmentFilename lib name = true ∧ ¬HasSeparator name := by
  have hcontrol : (∀ x ∈ utf16 name, TypeScript.filenameControl x = false) ↔
      ∀ x ∈ codes name, TypeScript.filenameControl x = false := by
    refine forall_utf16_iff (fun x hx => ?_) name.toList
    simp only [TypeScript.filenameControl, Bool.or_eq_false_iff, beq_eq_false_iff_ne,
      decide_eq_false_iff_not]
    omega
  have hcodes : (∀ x ∈ codes name, TypeScript.filenameControl x = false) ↔
      (∀ x ∈ codes name, ¬(x = 47 ∨ x = 92)) ∧ ∀ x ∈ codes name, ¬(x < 32 ∨ x = 127) := by
    rw [← forall₂_and]
    refine forall₂_congr fun x _ => ?_
    simp only [TypeScript.filenameControl, Bool.or_eq_false_iff, beq_eq_false_iff_ne,
      decide_eq_false_iff_not]
    omega
  have hpattern := @filenamePattern_utf16 [10, 13, 0x2028, 0x2029] (by simp) name
  simp only [TypeScript.attachmentFilename, Go.attachmentFilename, HasSeparator, hpattern,
    Bool.and_eq_true, Bool.not_eq_true', List.any_eq_false, Bool.not_eq_true, hcontrol, hcodes,
    beq_iff_eq, Bool.or_eq_true, decide_eq_true_eq]
  cases hname : codes name with
  | nil => simp [filenamePattern]
  | cons first rest =>
    rw [filenamePattern_cons (by simp), filenamePattern_cons (by simp)]
    simp only [List.tail_cons, List.mem_singleton, not_exists, not_and]
    constructor
    · rintro ⟨⟨hsize, hslash, hlow⟩, hfirst, hextension, hall⟩
      refine ⟨⟨⟨⟨hsize, hfirst, hextension, ?_⟩, hslash⟩, hlow⟩, ?_⟩
      · intro x hx
        have hx' := hall x hx
        simp only [List.mem_cons, List.not_mem_nil, or_false] at hx'
        omega
      · intro x hx
        have hx' := hall x hx
        simp only [List.mem_cons, List.not_mem_nil, or_false] at hx'
        omega
    · rintro ⟨⟨⟨⟨hsize, hfirst, hextension, _⟩, hslash⟩, hlow⟩, hseparator⟩
      refine ⟨⟨hsize, hslash, hlow⟩, hfirst, hextension, ?_⟩
      intro x hx
      have hx' := hseparator x hx
      have hx'' := hlow x (List.mem_cons_of_mem first hx)
      simp only [List.mem_cons, List.not_mem_nil, or_false]
      omega

end Units

/-- One attachment, given the names it may have. -/
def AttachmentSchema (filename : String → Prop) (v : Value) (size : Int) : Prop :=
  ∃ a : Record, v = .map a ∧ Exact a ["filename", "media_type", "size", "digest"] [] ∧
    ∃ name, (a.get "filename" = some (.text name) ∧ filename name) ∧
      a.get "media_type" = some (.text (mediaTypeOf (codes name))) ∧
      IsInteger 1 (a.get "size") size ∧ IsDigest (a.get "digest")

/-- Up to twenty attachments of no more than 25 MiB together. -/
def AttachmentsSchema (filename : String → Prop) (v : Option Value) : Prop :=
  v = none ∨ ∃ entries, v = some (.array entries) ∧ (1 ≤ entries.length ∧ entries.length ≤ 20) ∧
    ∃ sizes, List.Forall₂ (AttachmentSchema filename) entries sizes ∧ sizes.sum ≤ 26214400

section Entries

variable {lib : Libraries} {path : String} {entry : Value} {entries : List Value} {size : Int}

theorem TypeScript.attachmentEntry_eq_ok :
    attachmentEntry lib path entry = .ok size ↔
      AttachmentSchema (fun name => attachmentFilename lib name = true) entry size := by
  simp only [attachmentEntry, AttachmentSchema, bind_eq_ok, record_eq_ok, exactKeys_eq_ok,
    text_eq_ok, failIf_eq_ok, Bool.not_eq_false', strictEqual_text, integer_eq_ok,
    Option.some.injEq, Except.ok.injEq, exists_const, mediaTypeOf_utf16]
  refine exists_congr fun a => and_congr_right fun _ => and_congr_right fun _ =>
    exists_congr fun name => ?_
  constructor
  · rintro ⟨hname, hfilename, hmedia, _, hsize, d, hd, hexact, _, hdigest, rfl⟩
    refine ⟨⟨hname, hfilename⟩, hmedia, hsize, d, hd, hexact, ?_⟩
    split at hdigest
    · rename_i value halgorithm hvalue
      exact ⟨halgorithm, value, hvalue, by simpa using hdigest⟩
    · cases hdigest
  · rintro ⟨⟨hname, hfilename⟩, hmedia, hsize, d, hd, hexact, halgorithm, value, hvalue, hlength⟩
    refine ⟨hname, hfilename, hmedia, size, hsize, d, hd, hexact, (), ?_, rfl⟩
    rw [halgorithm, hvalue]
    simp [hlength]

theorem Go.attachmentEntry_eq_ok :
    attachmentEntry lib entry = .ok size ↔
      AttachmentSchema (fun name => attachmentFilename lib name = true) entry size ∧
        size ≤ 26214400 := by
  simp only [attachmentEntry, AttachmentSchema, bind_eq_ok, mapValue_eq_ok, exact_eq_ok,
    textValue_eq_ok, index_eq_text, errorIf_eq_ok, Bool.not_eq_false', interfaceEqual_text,
    exists_const]
  constructor
  · rintro ⟨a, ha, hexact, name, hname, hfilename, hmedia, h⟩
    split at h
    · cases h
    · rename_i n hn
      rw [intValue_index_eq_ok zero_le_one] at hn
      simp only [bind_eq_ok, errorIf_eq_ok, decide_eq_false_iff_not, not_lt, digest_index_eq_ok,
        Except.ok.injEq, exists_const] at h
      obtain ⟨hbound, hdigest, rfl⟩ := h
      exact ⟨⟨a, ha, hexact, name, ⟨hname, hfilename⟩, hmedia, hn, hdigest⟩, hbound⟩
  · rintro ⟨⟨a, ha, hexact, name, ⟨hname, hfilename⟩, hmedia, hn, hdigest⟩, hbound⟩
    refine ⟨a, ha, hexact, name, hname, hfilename, hmedia, ?_⟩
    rw [(intValue_index_eq_ok zero_le_one).2 hn]
    simp only [bind_eq_ok, errorIf_eq_ok, decide_eq_false_iff_not, not_lt, digest_index_eq_ok,
      exists_const, and_true]
    exact ⟨hbound, hdigest⟩

theorem AttachmentSchema.one_le {filename : String → Prop}
    (h : AttachmentSchema filename entry size) : 1 ≤ size := by
  obtain ⟨a, _, _, name, _, _, hsize, _⟩ := h
  exact hsize.2.2

theorem AttachmentSchema.sizes {filename : String → Prop} {sizes : List Int}
    (h : List.Forall₂ (AttachmentSchema filename) entries sizes) : ∀ s ∈ sizes, 1 ≤ s := by
  induction h with
  | nil =>
    intro s hs
    cases hs
  | cons hentry _ ih =>
    rw [List.forall_mem_cons]
    exact ⟨hentry.one_le, ih⟩

theorem TypeScript.attachmentEntries_eq_ok {total result : Int} {position : Nat} :
    attachmentEntries lib total position entries = .ok result ↔
      ∃ sizes, List.Forall₂ (AttachmentSchema fun name => attachmentFilename lib name = true)
        entries sizes ∧ result = sizes.foldl (fun total size => number (total + size)) total := by
  induction entries generalizing total position with
  | nil =>
    simp only [attachmentEntries, Except.ok.injEq, List.forall₂_nil_left_iff, exists_eq_left,
      List.foldl_nil]
    exact eq_comm
  | cons entry entries ih =>
    simp only [attachmentEntries, bind_eq_ok, attachmentEntry_eq_ok, ih,
      List.forall₂_cons_left_iff]
    constructor
    · rintro ⟨size, hentry, sizes, hsizes, rfl⟩
      exact ⟨_, ⟨size, sizes, hentry, hsizes, rfl⟩, rfl⟩
    · rintro ⟨_, ⟨size, sizes, hentry, hsizes, rfl⟩, rfl⟩
      exact ⟨size, hentry, sizes, hsizes, rfl⟩

/-- A sum that is rounded at every step is exact or, like the exact sum, beyond the bound. -/
theorem foldl_number {sizes : List Int} (hsizes : ∀ s ∈ sizes, 1 ≤ s) {total exactTotal : Int}
    (htotal : 0 ≤ total)
    (hsame : total = exactTotal ∨ 26214400 < total ∧ 26214400 < exactTotal) :
    sizes.foldl (fun total size => number (total + size)) total ≤ 26214400 ↔
      exactTotal + sizes.sum ≤ 26214400 := by
  induction sizes generalizing total exactTotal with
  | nil =>
    simp only [List.foldl_nil, List.sum_nil]
    omega
  | cons size sizes ih =>
    rw [List.forall_mem_cons] at hsizes
    rw [List.foldl_cons, List.sum_cons, ← add_assoc]
    have hnonneg := (lt_number_iff (a := -1) (n := total + size) (by decide) (by omega)).2
      (by omega)
    have hlarge := lt_number_iff (a := 26214400) (n := total + size) (by decide) (by omega)
    refine ih hsizes.2 (by omega) ?_
    by_cases hsmall : (total + size).natAbs ≤ 2 ^ 53
    · rw [number_of_le hsmall]
      omega
    · refine .inr ⟨hlarge.2 (by omega), ?_⟩
      obtain rfl | hsame := hsame
      · omega
      · omega

theorem Go.attachmentEntries_eq_ok {total result : Int} (htotal : 0 ≤ total)
    (hbound : total + 26214400 * entries.length < 2 ^ 62) :
    attachmentEntries lib total entries = .ok result ↔
      ∃ sizes, List.Forall₂ (AttachmentSchema fun name => attachmentFilename lib name = true)
        entries sizes ∧ (∀ s ∈ sizes, s ≤ 26214400) ∧ result = total + sizes.sum := by
  induction entries generalizing total with
  | nil =>
    simp only [attachmentEntries, Except.ok.injEq, List.forall₂_nil_left_iff, exists_eq_left,
      List.not_mem_nil, false_implies, implies_true, true_and, List.sum_nil, add_zero]
    exact eq_comm
  | cons entry entries ih =>
    simp only [attachmentEntries, bind_eq_ok, attachmentEntry_eq_ok,
      List.forall₂_cons_left_iff]
    simp only [List.length_cons, Nat.cast_add, Nat.cast_one] at hbound
    constructor
    · rintro ⟨size, ⟨hentry, hsize⟩, h⟩
      have hpositive := hentry.one_le
      rw [int64_of_lt (by omega), ih (by omega) (by omega)] at h
      obtain ⟨sizes, hsizes, hall, rfl⟩ := h
      refine ⟨_, ⟨size, sizes, hentry, hsizes, rfl⟩, ?_, ?_⟩
      · rw [List.forall_mem_cons]
        exact ⟨hsize, hall⟩
      · rw [List.sum_cons, add_assoc]
    · rintro ⟨_, ⟨size, sizes, hentry, hsizes, rfl⟩, hall, rfl⟩
      rw [List.forall_mem_cons] at hall
      have hpositive := hentry.one_le
      refine ⟨size, ⟨hentry, hall.1⟩, ?_⟩
      rw [int64_of_lt (by omega), ih (by omega) (by omega)]
      exact ⟨sizes, hsizes, hall.2, by rw [List.sum_cons, add_assoc]⟩

theorem le_sum_of_mem {sizes : List Int} (hsizes : ∀ s ∈ sizes, 1 ≤ s) {s : Int} (hs : s ∈ sizes) :
    s ≤ sizes.sum := List.single_le_sum (fun x hx => (hsizes x hx).trans' zero_le_one) s hs

theorem TypeScript.validateAttachments_eq_ok {v : Value} {u : Unit} :
    validateAttachments lib (some v) = .ok u ↔
      AttachmentsSchema (fun name => attachmentFilename lib name = true) (some v) := by
  simp only [validateAttachments, AttachmentsSchema, bind_eq_ok, array_eq_ok, failIf_eq_ok,
    Bool.or_eq_false_iff, decide_eq_false_iff_not, not_lt, attachmentEntries_eq_ok,
    exists_const, reduceCtorEq, false_or]
  refine exists_congr fun entries => and_congr_right fun _ => and_congr ?_ ?_
  · rw [List.isEmpty_eq_false_iff, ← List.length_pos_iff]
    exact Iff.rfl
  · constructor
    · rintro ⟨_, ⟨sizes, hsizes, rfl⟩, htotal⟩
      rw [foldl_number (AttachmentSchema.sizes hsizes) le_rfl (.inl rfl), zero_add] at htotal
      exact ⟨sizes, hsizes, htotal⟩
    · rintro ⟨sizes, hsizes, htotal⟩
      refine ⟨_, ⟨sizes, hsizes, rfl⟩, ?_⟩
      rw [foldl_number (AttachmentSchema.sizes hsizes) le_rfl (.inl rfl), zero_add]
      exact htotal

theorem Go.validateAttachments_eq_ok {m : Record} {u : Unit} :
    validateAttachments lib m = .ok u ↔
      AttachmentsSchema (fun name => attachmentFilename lib name = true) (m.get "attachments") := by
  unfold validateAttachments AttachmentsSchema has index
  cases m.get "attachments" with
  | none => simp
  | some v =>
    simp only [Option.isSome_some, if_true, Option.getD_some, reduceCtorEq, false_or,
      Option.some.injEq]
    split
    · rename_i entries
      simp only [bind_eq_ok, errorIf_eq_ok, Bool.or_eq_false_iff, decide_eq_false_iff_not,
        not_lt, exists_const, Value.array.injEq, exists_eq_left']
      refine and_congr_right fun hlength => ?_
      simp only [attachmentEntries_eq_ok le_rfl
        (show 0 + 26214400 * (entries.length : Int) < 2 ^ 62 by omega), zero_add]
      constructor
      · rintro ⟨_, ⟨sizes, hsizes, _, rfl⟩, htotal⟩
        exact ⟨sizes, hsizes, htotal⟩
      · rintro ⟨sizes, hsizes, htotal⟩
        refine ⟨_, ⟨sizes, hsizes, fun s hs => ?_, rfl⟩, htotal⟩
        exact (le_sum_of_mem (AttachmentSchema.sizes hsizes) hs).trans htotal
    · rename_i hnot
      simp only [reduceCtorEq, false_iff, not_exists, not_and]
      intro entries h
      exact absurd h (hnot entries)

end Entries

end HailProto.Codec
