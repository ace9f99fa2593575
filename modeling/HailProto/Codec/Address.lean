import HailProto.Codec.Fields

/-!
# Addresses in three languages

`hailAddress` of `validation.ts` and of `payload.go`, and `address` of `schema.rs`. They split
the text at its last at-sign: TypeScript slices at the index it found, Go refuses an index below
one, Rust has no split. The canonical form of a domain and the public suffix list are libraries
of each language and stand here as one oracle.
-/

namespace HailProto.Codec

open Cbor (Value)

/-- The libraries that know domains: the canonical ASCII form, when a domain has one, and
whether it is registrable under a recognized public suffix. -/
structure DomainOracle where
  toAscii : List Nat → Option (List Nat)
  recognizedSuffix : List Nat → Bool

/-- The index of the last occurrence of a unit, or `-1`. -/
def lastIndexOf (xs : List Nat) (c : Nat) : Int :=
  match xs.reverse.idxOf? c with
  | some i => ((xs.length - 1 - i : Nat) : Int)
  | none => -1

/-- `toLowerCase`, on the letters a label can have; any other letter fails the label's pattern,
whatever its lower case. -/
def toLowerCase (xs : List Nat) : List Nat :=
  xs.map fun x => if 65 ≤ x && x ≤ 90 then x + 32 else x

/-- `xs.slice(0, stop)`: a negative index counts from the end. -/
def sliceTo (xs : List Nat) (stop : Int) : List Nat :=
  if stop < 0 then xs.take (xs.length + stop).toNat else xs.take stop.toNat

/-- `xs.slice(start)`. -/
def sliceFrom (xs : List Nat) (start : Int) : List Nat :=
  if start < 0 then xs.drop (xs.length + start).toNat else xs.drop start.toNat

/-- The labels of a domain, at least two, are well formed. -/
def domainLabels (domain : List Nat) : Bool :=
  domain.contains 46 && (domain.splitOn 46).all domainLabel

namespace TypeScript

/-- Refuse an address unless its two parts are well formed. -/
def addressParts (address localPart domain : List Nat) (path : String) :
    Except HailCodecError Unit :=
  if address.length > 254 ∨ localPart.length > 63 ∨ !localPattern localPart ∨
      domain.length = 0 ∨ domain.length > 253 ∨ !domain.contains 46 ∨
      domain ≠ toLowerCase domain ∨ (domain.splitOn 46).any (!domainLabel ·) then
    fail "must be a canonical ASCII Hail address" path
  else .ok ()

def hailAddress (oracle : DomainOracle) (value : Option Value) (path : String) :
    Except HailCodecError String := do
  let address ← text value path
  let units := utf16 address
  let separator := lastIndexOf units 64
  let localPart := sliceTo units separator
  let domain := sliceFrom units (separator + 1)
  addressParts units localPart domain path
  match oracle.toAscii domain with
  | none => fail "must contain a valid IDNA domain" path
  | some canonicalDomain =>
    if canonicalDomain ≠ domain then fail "domain must use its canonical ASCII IDNA form" path
    else if !oracle.recognizedSuffix domain then
      fail "domain must end in a recognized public suffix" path
    else .ok address

end TypeScript

namespace Go

def hailAddress (oracle : DomainOracle) (v : Value) (path : String) : Except String Unit := do
  let address ← textValue v path
  let s := utf8 address
  let at_ := lastIndexOf s 64
  if at_ < 1 then .error (path ++ " invalid address")
  else
    let localPart := s.take at_.toNat
    let domain := s.drop (at_.toNat + 1)
    if s.length > 254 ∨ localPart.length > 63 ∨ !localPattern localPart ∨ domain.length = 0 ∨
        domain.length > 253 ∨ !domain.contains 46 ∨ domain ≠ toLowerCase domain then
      .error (path ++ " invalid address")
    else if (domain.splitOn 46).any (!domainLabel ·) then .error (path ++ " invalid domain")
    else
      match oracle.toAscii domain with
      | none => .error (path ++ " noncanonical IDNA domain")
      | some canonical =>
        if canonical ≠ domain then .error (path ++ " noncanonical IDNA domain")
        else if !oracle.recognizedSuffix domain then
          .error (path ++ " requires a recognized public suffix")
        else .ok ()

end Go

namespace Rust

/-- `rsplit_once`: the parts before and after the last occurrence. -/
def rsplitOnce (s : List Nat) (c : Nat) : Option (List Nat × List Nat) :=
  match s.reverse.idxOf? c with
  | some i => some (s.take (s.length - 1 - i), s.drop (s.length - i))
  | none => none

def ensure (ok : Bool) : Except Cbor.Error Unit := if ok then .ok () else .error Cbor.invalid

def text : Value → Except Cbor.Error String
  | .text s => .ok s
  | _ => .error Cbor.invalid

def address (oracle : DomainOracle) (value : Value) : Except Cbor.Error Unit := do
  let address ← text value
  let s := utf8 address
  match rsplitOnce s 64 with
  | none => .error Cbor.invalid
  | some (localPart, domain) => do
      ensure (decide (s.length ≤ 254) && decide (localPart.length ≤ 63) &&
        localPattern localPart && !domain.isEmpty && decide (domain.length ≤ 253) &&
        domain.contains 46 && (domain.splitOn 46).all domainLabel)
      match oracle.toAscii domain with
      | none => .error Cbor.invalid
      | some ascii => ensure (decide (ascii = domain) && oracle.recognizedSuffix domain)

end Rust

/-- The parts of an address are well formed, and its domain is canonical and registrable. -/
structure AddressParts (oracle : DomainOracle) (localPart domain : List Nat) : Prop where
  local_length : localPart.length ≤ 63
  local_pattern : localPattern localPart = true
  domain_length : domain.length ≤ 253
  labels : domainLabels domain = true
  canonical : oracle.toAscii domain = some domain
  recognized : oracle.recognizedSuffix domain = true

/-- The list is split at its last at-sign. -/
def SplitsLast (xs a b : List Nat) : Prop := xs = a ++ 64 :: b ∧ 64 ∉ b

section Splitting

variable {xs a b : List Nat}

theorem exists_splitsLast (h : 64 ∈ xs) : ∃ a b, SplitsLast xs a b := by
  obtain ⟨b, a, hxs, hb⟩ := List.eq_append_cons_of_mem (List.mem_reverse.2 h)
  refine ⟨a.reverse, b.reverse, ?_, by simpa using hb⟩
  have hreverse := congrArg List.reverse hxs
  simpa using hreverse

theorem SplitsLast.idxOf (h : SplitsLast xs a b) : xs.reverse.idxOf? 64 = some b.length := by
  obtain ⟨rfl, hb⟩ := h
  rw [List.idxOf?_eq_some_iff]
  refine ⟨by simp, by simp, ?_⟩
  intro j hj
  simp only [List.reverse_append, List.reverse_cons, List.append_assoc]
  rw [List.getElem_append_left (by simpa using hj)]
  intro heq
  have hmem : 64 ∈ b.reverse := heq ▸ List.getElem_mem _
  exact hb (List.mem_reverse.1 hmem)

theorem SplitsLast.lastIndexOf (h : SplitsLast xs a b) : lastIndexOf xs 64 = a.length := by
  unfold Codec.lastIndexOf
  rw [h.idxOf]
  have hlength : xs.length = a.length + (b.length + 1) := by
    rw [h.1, List.length_append, List.length_cons]
  simp only [Nat.cast_inj]
  omega

theorem SplitsLast.take (h : SplitsLast xs a b) : xs.take a.length = a := by
  rw [h.1, List.take_left]

theorem SplitsLast.drop (h : SplitsLast xs a b) : xs.drop (a.length + 1) = b := by
  rw [h.1, ← List.drop_drop, List.drop_left, List.drop_succ_cons, List.drop_zero]

theorem SplitsLast.rsplitOnce (h : SplitsLast xs a b) : Rust.rsplitOnce xs 64 = some (a, b) := by
  unfold Rust.rsplitOnce
  rw [h.idxOf]
  have hlength : xs.length = a.length + (b.length + 1) := by
    rw [h.1, List.length_append, List.length_cons]
  have htake : xs.length - 1 - b.length = a.length := by omega
  have hdrop : xs.length - b.length = a.length + 1 := by omega
  simp only [htake, hdrop, h.take, h.drop]

theorem SplitsLast.unique {a' b' : List Nat} (h : SplitsLast xs a b) (h' : SplitsLast xs a' b') :
    a = a' ∧ b = b' := by
  have hsame := h.rsplitOnce.symm.trans h'.rsplitOnce
  simp only [Option.some.injEq, Prod.mk.injEq] at hsame
  exact hsame

theorem idxOf_of_not_mem (h : 64 ∉ xs) : xs.reverse.idxOf? 64 = none := by
  rw [List.idxOf?_eq_none_iff, List.mem_reverse]
  exact h

theorem lastIndexOf_of_not_mem (h : 64 ∉ xs) : lastIndexOf xs 64 = -1 := by
  rw [lastIndexOf, idxOf_of_not_mem h]

end Splitting

section Labels

/-- A unit of a label. -/
def labelUnit (x : Nat) : Bool := isAlnum x || x == 45

theorem labelUnit_of_hostLabel {xs : List Nat} (h : hostLabel xs = true) {x : Nat} (hx : x ∈ xs) :
    labelUnit x = true := by
  simp only [hostLabel, Bool.and_eq_true, List.all_eq_true] at h
  exact h.2 x hx

theorem mem_of_mem_intercalate {sep x : Nat} {parts : List (List Nat)}
    (h : x ∈ [sep].intercalate parts) (hne : x ≠ sep) : ∃ part ∈ parts, x ∈ part := by
  induction parts with
  | nil => cases h
  | cons part parts ih =>
    cases parts with
    | nil => exact ⟨part, List.mem_cons_self, by simpa using h⟩
    | cons next parts =>
      rw [List.intercalate_cons_cons] at h
      simp only [List.mem_append, List.mem_singleton] at h
      obtain (h | h) | h := h
      · exact ⟨part, List.mem_cons_self, h⟩
      · exact absurd h hne
      · obtain ⟨other, hother, hx⟩ := ih h
        exact ⟨other, List.mem_cons_of_mem part hother, hx⟩

/-- A unit that is no dot is in one of the parts. -/
theorem mem_splitOn_dot {xs : List Nat} {x : Nat} (hx : x ∈ xs) (hdot : x ≠ 46) :
    ∃ part ∈ xs.splitOn 46, x ∈ part := by
  have hjoin : [46].intercalate (xs.splitOn 46) = xs := List.intercalate_splitOn 46
  rw [← hjoin] at hx
  exact mem_of_mem_intercalate hx hdot

theorem labelUnit_of_localPattern {xs : List Nat} (h : localPattern xs = true) {x : Nat}
    (hx : x ∈ xs) : x = 46 ∨ labelUnit x = true := by
  by_cases hdot : x = 46
  · exact .inl hdot
  · obtain ⟨part, hpart, hmem⟩ := mem_splitOn_dot hx hdot
    rw [localPattern, List.all_eq_true] at h
    exact .inr (labelUnit_of_hostLabel (h part hpart) hmem)

theorem labelUnit_of_domainLabels {xs : List Nat} (h : domainLabels xs = true) {x : Nat}
    (hx : x ∈ xs) : x = 46 ∨ labelUnit x = true := by
  by_cases hdot : x = 46
  · exact .inl hdot
  · obtain ⟨part, hpart, hmem⟩ := mem_splitOn_dot hx hdot
    rw [domainLabels, Bool.and_eq_true, List.all_eq_true] at h
    have hlabel := h.2 part hpart
    rw [domainLabel, Bool.and_eq_true] at hlabel
    exact .inr (labelUnit_of_hostLabel hlabel.1 hmem)

theorem labelUnit_bounds {x : Nat} (h : x = 46 ∨ labelUnit x = true) :
    x < 128 ∧ x ≠ 64 ∧ ¬(65 ≤ x ∧ x ≤ 90) := by
  simp only [labelUnit, isAlnum, Bool.or_eq_true, Bool.and_eq_true, decide_eq_true_eq,
    beq_iff_eq] at h
  omega

/-- A domain with well formed labels is in lower case. -/
theorem toLowerCase_of_domainLabels {xs : List Nat} (h : domainLabels xs = true) :
    toLowerCase xs = xs := by
  have hall : ∀ x ∈ xs, (if 65 ≤ x && x ≤ 90 then x + 32 else x) = x := by
    intro x hx
    have hbounds := (labelUnit_bounds (labelUnit_of_domainLabels h hx)).2.2
    simp only [Bool.and_eq_true, decide_eq_true_eq, hbounds, if_false]
  rw [toLowerCase, List.map_congr_left hall, List.map_id']

end Labels

section Acceptance

variable {oracle : DomainOracle} {s : String} {path : String}

/-- The units of an accepted address outside its separator are ASCII. -/
theorem AddressParts.ascii {a b : List Nat} (h : AddressParts oracle a b) :
    (∀ x ∈ a, x < 128) ∧ ∀ x ∈ b, x < 128 :=
  ⟨fun _ hx => (labelUnit_bounds (labelUnit_of_localPattern h.local_pattern hx)).1,
    fun _ hx => (labelUnit_bounds (labelUnit_of_domainLabels h.labels hx)).1⟩

/-- What TypeScript accepts, on the units of the text. -/
theorem TypeScript.hailAddress_isOk :
    (TypeScript.hailAddress oracle (some (.text s)) path).isOk = true ↔
      (utf16 s).length ≤ 254 ∧ AddressParts oracle
        (sliceTo (utf16 s) (lastIndexOf (utf16 s) 64))
        (sliceFrom (utf16 s) (lastIndexOf (utf16 s) 64 + 1)) := by
  rw [isOk_iff]
  simp only [hailAddress, bind_eq_ok, text_eq_ok, Option.some.injEq, Value.text.injEq]
  constructor
  · rintro ⟨_, _, rfl, _, hparts, h⟩
    unfold addressParts at hparts
    split at hparts
    · cases hparts
    · rename_i hcheck
      simp only [not_or, Bool.not_eq_true', Bool.not_eq_false, not_lt, gt_iff_lt,
        List.any_eq_true, not_exists, not_and] at hcheck
      obtain ⟨hlength, hlocal, hpattern, _, hdomain, hdot, _, hlabels⟩ := hcheck
      split at h
      · cases h
      · rename_i canonical hcanonical
        split at h
        · cases h
        · rename_i hsame
          rw [not_not] at hsame
          split at h
          · cases h
          · rename_i hsuffix
            simp only [Bool.not_eq_true', Bool.not_eq_false] at hsuffix
            refine ⟨hlength, hlocal, hpattern, hdomain, ?_, hsame ▸ hcanonical, hsuffix⟩
            rw [domainLabels, Bool.and_eq_true, List.all_eq_true]
            exact ⟨hdot, hlabels⟩
  · rintro ⟨hlength, h⟩
    have hlabels := h.labels
    rw [domainLabels, Bool.and_eq_true, List.all_eq_true] at hlabels
    refine ⟨s, s, rfl, (), ?_, ?_⟩
    · unfold addressParts
      rw [if_neg]
      simp only [not_or, Bool.not_eq_true', Bool.not_eq_false, not_lt, gt_iff_lt,
        List.any_eq_true, not_exists, not_and]
      refine ⟨hlength, h.local_length, h.local_pattern, ?_, h.domain_length, hlabels.1, ?_,
        hlabels.2⟩
      · intro hzero
        rw [List.length_eq_zero_iff] at hzero
        rw [hzero] at hlabels
        cases hlabels.1
      · rw [toLowerCase_of_domainLabels h.labels]
        exact not_not.2 rfl
    · rw [h.canonical]
      simp only [ne_eq, not_true_eq_false, if_false, h.recognized, Bool.not_true,
        Bool.false_eq_true]

/-- An address whose units are these: they split at an at-sign into well formed parts. -/
def IsAddress (oracle : DomainOracle) (xs : List Nat) : Prop :=
  xs.length ≤ 254 ∧ ∃ a b, SplitsLast xs a b ∧ AddressParts oracle a b

/-- What Go accepts, on the bytes of the text. -/
theorem Go.hailAddress_isOk :
    (Go.hailAddress oracle (.text s) path).isOk = true ↔ IsAddress oracle (utf8 s) := by
  rw [isOk_iff]
  simp only [hailAddress, bind_eq_ok, textValue_eq_ok, Value.text.injEq, exists_eq_left']
  by_cases hat : 64 ∈ utf8 s
  · obtain ⟨a, b, hsplit⟩ := exists_splitsLast hat
    simp only [hsplit.lastIndexOf, Int.toNat_natCast, hsplit.take, hsplit.drop]
    constructor
    · rintro ⟨_, h⟩
      simp only [guard_eq_ok, not_or, Bool.not_eq_true', Bool.not_eq_false, not_lt, gt_iff_lt,
        List.any_eq_true, not_exists, not_and] at h
      obtain ⟨_, ⟨hlength, hlocal, hpattern, _, hdomain, hdot, _⟩, hlabels, h⟩ := h
      split at h
      · cases h
      · rename_i canonical hcanonical
        simp only [guard_eq_ok, ne_eq, not_not, Bool.not_eq_false, and_true] at h
        refine ⟨hlength, a, b, hsplit, hlocal, hpattern, hdomain, ?_, h.1 ▸ hcanonical, h.2⟩
        rw [domainLabels, Bool.and_eq_true, List.all_eq_true]
        exact ⟨hdot, hlabels⟩
    · rintro ⟨hlength, a', b', hsplit', h⟩
      obtain ⟨rfl, rfl⟩ := hsplit'.unique hsplit
      have hlabels := h.labels
      rw [domainLabels, Bool.and_eq_true, List.all_eq_true] at hlabels
      refine ⟨(), ?_⟩
      simp only [guard_eq_ok, not_or, Bool.not_eq_true', Bool.not_eq_false, not_lt, gt_iff_lt,
        List.any_eq_true, not_exists, not_and, h.canonical, ne_eq, not_true_eq_false, if_false,
        h.recognized, Bool.not_true, Bool.false_eq_true, and_true]
      refine ⟨?_, ⟨hlength, h.local_length, h.local_pattern, ?_, h.domain_length, hlabels.1, ?_⟩,
        hlabels.2⟩
      · have hne : a' ≠ [] := by
          rintro rfl
          cases h.local_pattern
        have hpos := List.length_pos_iff.2 hne
        omega
      · intro hzero
        rw [List.length_eq_zero_iff] at hzero
        rw [hzero] at hlabels
        cases hlabels.1
      · rw [toLowerCase_of_domainLabels h.labels]
        exact not_not.2 rfl
  · constructor
    · rintro ⟨_, h⟩
      simp only [lastIndexOf_of_not_mem hat, Int.reduceNeg, Int.reduceLT, if_true,
        reduceCtorEq] at h
    · rintro ⟨_, a, b, hsplit, _⟩
      exact absurd (by rw [hsplit.1]; simp) hat

/-- What Rust accepts, on the bytes of the text. -/
theorem Rust.address_isOk :
    (Rust.address oracle (.text s)).isOk = true ↔ IsAddress oracle (utf8 s) := by
  rw [isOk_iff]
  simp only [address, Rust.text, ok_bind]
  by_cases hat : 64 ∈ utf8 s
  · obtain ⟨a, b, hsplit⟩ := exists_splitsLast hat
    simp only [hsplit.rsplitOnce, bind_eq_ok, ensure]
    constructor
    · rintro ⟨_, _, hcheck, h⟩
      split at hcheck
      · rename_i hparts
        simp only [Bool.and_eq_true, decide_eq_true_eq] at hparts
        obtain ⟨⟨⟨⟨⟨⟨hlength, hlocal⟩, hpattern⟩, _⟩, hdomain⟩, hdot⟩, hlabels⟩ := hparts
        split at h
        · cases h
        · rename_i ascii hascii
          split at h
          · rename_i hdone
            rw [Bool.and_eq_true, decide_eq_true_eq] at hdone
            refine ⟨hlength, a, b, hsplit, hlocal, hpattern, hdomain, ?_, hdone.1 ▸ hascii,
              hdone.2⟩
            rw [domainLabels, Bool.and_eq_true]
            exact ⟨hdot, hlabels⟩
          · cases h
      · cases hcheck
    · rintro ⟨hlength, a', b', hsplit', h⟩
      obtain ⟨rfl, rfl⟩ := hsplit'.unique hsplit
      have hlabels := h.labels
      rw [domainLabels, Bool.and_eq_true] at hlabels
      have hempty : b'.isEmpty = false := by
        cases hb : b' with
        | nil =>
          rw [hb] at hlabels
          cases hlabels.1
        | cons x xs => rfl
      refine ⟨(), (), ?_, ?_⟩
      · simp only [hlength, h.local_length, h.local_pattern, hempty, h.domain_length, hlabels.1,
          hlabels.2, decide_true, Bool.not_false, Bool.and_self, if_true]
      · simp only [h.canonical, h.recognized, decide_true, Bool.and_self, if_true]
  · have hnone : Rust.rsplitOnce (utf8 s) 64 = none := by
      rw [rsplitOnce, idxOf_of_not_mem hat]
    simp only [hnone, reduceCtorEq, exists_false, false_iff]
    rintro ⟨_, a, b, hsplit, _⟩
    exact absurd (by rw [hsplit.1]; simp) hat

end Acceptance

/-- The text is a local part, an at-sign and a domain of at least two labels. -/
def AddressForm (s : String) : Prop :=
  ∃ localPart domain : String, s = localPart ++ "@" ++ domain ∧
    localPattern (codes localPart) = true ∧ 2 ≤ ((codes domain).splitOn 46).length ∧
    ∀ label ∈ (codes domain).splitOn 46, domainLabel label = true

section Agreement

variable {oracle : DomainOracle} {s : String} {path : String}

theorem two_labels {xs : List Nat} (h : domainLabels xs = true) :
    2 ≤ (xs.splitOn 46).length ∧ ∀ label ∈ xs.splitOn 46, domainLabel label = true := by
  rw [domainLabels, Bool.and_eq_true, List.all_eq_true, List.contains_iff_mem] at h
  refine ⟨?_, h.2⟩
  obtain ⟨before, after, rfl⟩ := List.append_of_mem h.1
  rw [List.splitOn_eq_splitOnP, List.splitOnP_append_cons before after (by simp),
    List.length_append]
  have hbefore := List.length_pos_iff.2 (List.splitOnP_ne_nil (· == 46) before)
  have hafter := List.length_pos_iff.2 (List.splitOnP_ne_nil (· == 46) after)
  omega

theorem at_mem_codes : 64 ∈ codes s ↔ '@' ∈ s.toList := by
  rw [codes, List.mem_map]
  constructor
  · rintro ⟨c, hc, hcode⟩
    have hat : c = '@' := Char.toNat_inj.1 hcode
    exact hat ▸ hc
  · exact fun h => ⟨'@', h, rfl⟩

theorem IsAddress.form (h : IsAddress oracle (codes s)) : AddressForm s := by
  obtain ⟨_, a, b, ⟨hsplit, _⟩, hparts⟩ := h
  rw [codes, List.map_eq_append_iff] at hsplit
  obtain ⟨la, rest, hs, rfl, hrest⟩ := hsplit
  rw [List.map_eq_cons_iff] at hrest
  obtain ⟨c, lb, rfl, hc, rfl⟩ := hrest
  have hat : c = '@' := Char.toNat_inj.1 hc
  subst hat
  refine ⟨String.ofList la, String.ofList lb, ?_, ?_, ?_⟩
  · apply String.toList_injective
    simp [hs]
  · simpa [codes] using hparts.local_pattern
  · simpa [codes] using two_labels hparts.labels

/-- An address in units has ASCII units only. -/
theorem IsAddress.ascii {xs : List Nat} (h : IsAddress oracle xs) : ∀ x ∈ xs, x < 128 := by
  obtain ⟨_, a, b, ⟨rfl, _⟩, hparts⟩ := h
  intro x hx
  simp only [List.mem_append, List.mem_cons] at hx
  obtain hx | rfl | hx := hx
  · exact hparts.ascii.1 x hx
  · decide
  · exact hparts.ascii.2 x hx

/-- With an at-sign TypeScript accepts an address; without one it takes the whole text for the
domain and the text without its last unit for the local part. -/
theorem TypeScript.hailAddress_cases :
    (TypeScript.hailAddress oracle (some (.text s)) path).isOk = true ↔
      IsAddress oracle (utf16 s) ∨
        (64 ∉ utf16 s ∧ AddressParts oracle (utf16 s).dropLast (utf16 s)) := by
  rw [hailAddress_isOk]
  by_cases hat : 64 ∈ utf16 s
  · obtain ⟨a, b, hsplit⟩ := exists_splitsLast hat
    have hlocal : sliceTo (utf16 s) (a.length : Int) = a := by
      rw [sliceTo, if_neg (by omega), Int.toNat_natCast, hsplit.take]
    have hdomain : sliceFrom (utf16 s) ((a.length : Int) + 1) = b := by
      rw [sliceFrom, if_neg (by omega), ← hsplit.drop]
      rfl
    rw [hsplit.lastIndexOf, hlocal, hdomain]
    constructor
    · rintro ⟨hlength, hparts⟩
      exact .inl ⟨hlength, a, b, hsplit, hparts⟩
    · rintro (⟨hlength, a', b', hsplit', hparts⟩ | ⟨hnone, _⟩)
      · obtain ⟨rfl, rfl⟩ := hsplit'.unique hsplit
        exact ⟨hlength, hparts⟩
      · exact absurd hat hnone
  · have hlocal : sliceTo (utf16 s) (-1) = (utf16 s).dropLast := by
      rw [sliceTo, if_pos (by omega), List.dropLast_eq_take]
      congr 1
      omega
    have hdomain : sliceFrom (utf16 s) (-1 + 1) = utf16 s := by
      rw [sliceFrom, if_neg (by omega)]
      rfl
    rw [lastIndexOf_of_not_mem hat, hlocal, hdomain]
    constructor
    · exact fun h => .inr ⟨hat, h.2⟩
    · rintro (⟨_, a, b, hsplit, _⟩ | ⟨_, hparts⟩)
      · exact absurd (by rw [hsplit.1]; simp) hat
      · exact ⟨hparts.domain_length.trans (by decide), hparts⟩

/-- The three languages agree on a text, and accept it only as an address with an at-sign,
unless it has none and is a domain that is still a local part without its last character. -/
theorem hail_address_agreement (oracle : DomainOracle) (s path : String) :
    (((TypeScript.hailAddress oracle (some (.text s)) path).isOk = true ↔
        (Go.hailAddress oracle (.text s) path).isOk = true) ∧
      ((Go.hailAddress oracle (.text s) path).isOk = true ↔
        (Rust.address oracle (.text s)).isOk = true) ∧
      ((TypeScript.hailAddress oracle (some (.text s)) path).isOk = true → AddressForm s) ∧
      ((Go.hailAddress oracle (.text s) path).isOk = true → AddressForm s) ∧
      ((Rust.address oracle (.text s)).isOk = true → AddressForm s)) ↔
    ('@' ∈ s.toList ∨ ¬AddressParts oracle (codes s).dropLast (codes s)) := by
  rw [TypeScript.hailAddress_cases, Go.hailAddress_isOk, Rust.address_isOk]
  by_cases hs : IsAscii s
  · rw [utf16_of_ascii hs, utf8_of_ascii hs, at_mem_codes]
    have hform : IsAddress oracle (codes s) → AddressForm s := IsAddress.form
    have hat : IsAddress oracle (codes s) → '@' ∈ s.toList := by
      rintro ⟨_, a, b, hsplit, _⟩
      rw [← at_mem_codes, hsplit.1]
      simp
    tauto
  · -- A text outside ASCII is refused everywhere.
    have h16 : ¬IsAddress oracle (utf16 s) := by
      intro h
      obtain ⟨x, hx, hle⟩ := utf16_outside_ascii hs
      have hlt := h.ascii x hx
      omega
    have h8 : ¬IsAddress oracle (utf8 s) := by
      intro h
      obtain ⟨x, hx, hle⟩ := utf8_outside_ascii hs
      have hlt := h.ascii x hx
      omega
    have hbare : ¬AddressParts oracle (utf16 s).dropLast (utf16 s) := by
      intro h
      obtain ⟨x, hx, hle⟩ := utf16_outside_ascii hs
      have hlt := h.ascii.2 x hx
      omega
    have hcodes : ¬AddressParts oracle (codes s).dropLast (codes s) := by
      intro h
      simp only [IsAscii, not_forall, not_lt] at hs
      obtain ⟨c, hc, hle⟩ := hs
      have hlt := h.ascii.2 c.toNat (List.mem_map_of_mem hc)
      omega
    tauto

/-- TypeScript accepts a bare domain, which Go and Rust refuse. -/
theorem hail_address_bare_domain :
    let oracle : DomainOracle := ⟨some, fun _ => true⟩
    (TypeScript.hailAddress oracle (some (.text "example.com")) "$.address").isOk = true ∧
      (Go.hailAddress oracle (.text "example.com") "$.address").isOk = false ∧
      (Rust.address oracle (.text "example.com")).isOk = false := by
  decide +kernel

end Agreement

end HailProto.Codec
