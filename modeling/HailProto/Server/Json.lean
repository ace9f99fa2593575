import HailProto.Server.JsString

/-!
# The texts of JSON

A text of JSON is white space around one value. `Value s v t` says that `s` is the value `v`
followed by `t`, so that a production passes on what is left of the string. A parser by recursive
descent reads a string as the tree of its value, and reads exactly the texts of the grammar; a
string is therefore the text of at most one tree.
-/

namespace HailProto.Server

namespace Json

abbrev quote : CodeUnit := 0x22
abbrev backslash : CodeUnit := 0x5c
abbrev comma : CodeUnit := 0x2c
abbrev colon : CodeUnit := 0x3a
abbrev openBrace : CodeUnit := 0x7b
abbrev closeBrace : CodeUnit := 0x7d
abbrev openBracket : CodeUnit := 0x5b
abbrev closeBracket : CodeUnit := 0x5d
abbrev minus : CodeUnit := 0x2d
abbrev plus : CodeUnit := 0x2b
abbrev point : CodeUnit := 0x2e

/-- A tab, a line feed, a carriage return or a space. -/
def isSpace (c : CodeUnit) : Bool := c == 0x09 || c == 0x0a || c == 0x0d || c == 0x20

def isDigit (c : CodeUnit) : Bool := decide (0x30 ≤ c) && decide (c ≤ 0x39)

/-- `e` or `E`. -/
def isExponentMark (c : CodeUnit) : Bool := c == 0x65 || c == 0x45

/-- A unit that could continue a number. -/
def continuesNumber (c : CodeUnit) : Bool := isDigit c || c == point || isExponentMark c

/-- The string is at its end or goes on with a unit outside the class. -/
def Stops (p : CodeUnit → Bool) (s : JsString) : Prop := ∀ c ∈ s.head?, p c = false

section Stops

variable {p : CodeUnit → Bool} {s t : JsString}

@[simp] theorem stops_nil : Stops p [] := by simp [Stops]

@[simp] theorem stops_cons {c : CodeUnit} : Stops p (c :: s) ↔ p c = false := by simp [Stops]

theorem dropWhile_of_stops (h : Stops p s) : s.dropWhile p = s := by
  cases s with
  | nil => rfl
  | cons c s => exact List.dropWhile_cons_of_neg (by simpa using h)

theorem takeWhile_of_stops (h : Stops p s) : s.takeWhile p = [] := by
  cases s with
  | nil => rfl
  | cons c s => exact List.takeWhile_cons_of_neg (by simpa using h)

/-- A run of a class that stops is taken whole. -/
theorem takeWhile_append (hs : ∀ c ∈ s, p c = true) (ht : Stops p t) :
    (s ++ t).takeWhile p = s := by
  rw [List.takeWhile_append_of_pos hs, takeWhile_of_stops ht, List.append_nil]

theorem dropWhile_append (hs : ∀ c ∈ s, p c = true) (ht : Stops p t) :
    (s ++ t).dropWhile p = t := by
  rw [List.dropWhile_append_of_pos hs, dropWhile_of_stops ht]

end Stops

/-! ## White space -/

/-- `s` is white space followed by `t`. -/
def Spaces (s t : JsString) : Prop := ∃ space, (∀ c ∈ space, isSpace c = true) ∧ s = space ++ t

def skip (s : JsString) : JsString := s.dropWhile isSpace

section Spaces

variable {s t u : JsString}

theorem spaces_skip (s : JsString) : Spaces s (skip s) :=
  ⟨s.takeWhile isSpace, fun _ hc => List.mem_takeWhile_imp hc, List.takeWhile_append_dropWhile.symm⟩

theorem Spaces.refl (s : JsString) : Spaces s s := ⟨[], by simp, rfl⟩

theorem Spaces.trans (h : Spaces s t) (hnext : Spaces t u) : Spaces s u := by
  obtain ⟨space, hspace, rfl⟩ := h
  obtain ⟨space', hspace', rfl⟩ := hnext
  refine ⟨space ++ space', fun c hc => ?_, (List.append_assoc _ _ _).symm⟩
  rcases List.mem_append.1 hc with h | h
  · exact hspace c h
  · exact hspace' c h

theorem Spaces.skip_eq (h : Spaces s t) : skip s = skip t := by
  obtain ⟨space, hspace, rfl⟩ := h
  exact List.dropWhile_append_of_pos hspace

/-- White space is skipped up to where it stops. -/
theorem Spaces.skip_eq_of_stops (h : Spaces s t) (ht : Stops isSpace t) : skip s = t := by
  rw [h.skip_eq, skip, dropWhile_of_stops ht]

theorem Spaces.length_le (h : Spaces s t) : t.length ≤ s.length := by
  obtain ⟨space, -, rfl⟩ := h
  simp

theorem Spaces.length_lt {c : CodeUnit} (h : Spaces s (c :: t)) : t.length < s.length :=
  h.length_le

/-- Where a number could go on, white space has not begun. -/
theorem Spaces.stops_number (h : Spaces s t) (ht : Stops continuesNumber t) :
    Stops continuesNumber s := by
  obtain ⟨space, hspace, rfl⟩ := h
  cases space with
  | nil => exact ht
  | cons c space =>
    have hc : isSpace c = true := hspace c (.head _)
    simp only [isSpace, Bool.or_eq_true, beq_iff_eq] at hc
    rw [List.cons_append, stops_cons]
    rcases hc with ((rfl | rfl) | rfl) | rfl <;> decide

end Spaces

/-! ## Strings -/

/-- The unit that a backslash and this one stand for. -/
def simpleEscape (c : CodeUnit) : Option CodeUnit :=
  if c = quote ∨ c = backslash ∨ c = 0x2f then some c
  else if c = 0x62 then some 0x08
  else if c = 0x66 then some 0x0c
  else if c = 0x6e then some 0x0a
  else if c = 0x72 then some 0x0d
  else if c = 0x74 then some 0x09
  else none

def hexDigit (c : CodeUnit) : Option Nat :=
  if isDigit c then some (c - 0x30)
  else if 0x61 ≤ c ∧ c ≤ 0x66 then some (c - 0x57)
  else if 0x41 ≤ c ∧ c ≤ 0x46 then some (c - 0x37)
  else none

/-- The unit that four hexadecimal digits name. -/
def hexUnit (a b c d : CodeUnit) : Option CodeUnit := do
  let a ← hexDigit a
  let b ← hexDigit b
  let c ← hexDigit c
  let d ← hexDigit d
  return Fin.ofNat 65536 (((a * 16 + b) * 16 + c) * 16 + d)

/-- `s` is the rest of a string with its closing quote, followed by `t`, and stands for `text`. -/
inductive Chars : JsString → JsString → JsString → Prop
  | close {t : JsString} : Chars (quote :: t) [] t
  | plain {c : CodeUnit} {s text t : JsString} (hc : 0x20 ≤ c ∧ c ≠ quote ∧ c ≠ backslash)
      (hs : Chars s text t) : Chars (c :: s) (c :: text) t
  | simple {c d : CodeUnit} {s text t : JsString} (hc : simpleEscape c = some d)
      (hs : Chars s text t) : Chars (backslash :: c :: s) (d :: text) t
  | unicode {a b c d u : CodeUnit} {s text t : JsString} (hu : hexUnit a b c d = some u)
      (hs : Chars s text t) : Chars (backslash :: 0x75 :: a :: b :: c :: d :: s) (u :: text) t

/-- Reads the rest of a string up to its closing quote. -/
def chars : JsString → Option (JsString × JsString)
  | [] => none
  | c :: s =>
    if c = quote then some ([], s)
    else if c = backslash then
      match s with
      | [] => none
      | e :: s =>
        match simpleEscape e with
        | some d => (chars s).map fun (text, t) => (d :: text, t)
        | none =>
          match s with
          | a :: b :: c :: d :: s =>
            if e = 0x75 then
              match hexUnit a b c d with
              | some u => (chars s).map fun (text, t) => (u :: text, t)
              | none => none
            else none
          | _ => none
    else if c < 0x20 then none
    else (chars s).map fun (text, t) => (c :: text, t)

/-- `s` is a string that stands for `text`, followed by `t`. -/
def StringToken (s text t : JsString) : Prop := ∃ rest, s = quote :: rest ∧ Chars rest text t

def stringToken : JsString → Option (JsString × JsString)
  | [] => none
  | c :: s => if c = quote then chars s else none

section Strings

variable {s text t : JsString}

theorem Chars.length_lt (h : Chars s text t) : t.length < s.length := by
  induction h with
  | close => simp
  | plain _ _ ih => simp only [List.length_cons]; omega
  | simple _ _ ih => simp only [List.length_cons]; omega
  | unicode _ _ ih => simp only [List.length_cons]; omega

theorem chars_of_chars (h : Chars s text t) : chars s = some (text, t) := by
  have hquote : backslash ≠ quote := by decide
  induction h with
  | close => simp [chars.eq_def]
  | plain hc _ ih => simp [chars.eq_def (_ :: _), hc.2.1, hc.2.2, not_lt.2 hc.1, ih]
  | simple hc _ ih => simp [chars.eq_def (_ :: _), hquote, hc, ih]
  | unicode hu _ ih =>
    have hsimple : simpleEscape 0x75 = none := by decide
    simp [chars.eq_def (_ :: _), hquote, hsimple, hu, ih]

theorem chars_eq_some : chars s = some (text, t) ↔ Chars s text t := by
  refine ⟨fun h => ?_, chars_of_chars⟩
  fun_induction chars s generalizing text t with
  | case1 => cases h
  | case2 s =>
    obtain ⟨rfl, rfl⟩ : [] = text ∧ s = t := by simpa using h
    exact .close
  | case3 => cases h
  | case4 e s d hd hne ih =>
    obtain ⟨text', hrest, rfl⟩ : ∃ text', chars s = some (text', t) ∧ d :: text' = text := by
      simpa [Option.map_eq_some_iff] using h
    exact .simple hd (ih hrest)
  | case5 a b c d s u hu hback hne ih =>
    obtain ⟨text', hrest, rfl⟩ : ∃ text', chars s = some (text', t) ∧ u :: text' = text := by
      simpa [Option.map_eq_some_iff] using h
    exact .unicode hu (ih hrest)
  | case6 => cases h
  | case7 => cases h
  | case8 => cases h
  | case9 => cases h
  | case10 c s hquote hback hlow ih =>
    obtain ⟨text', hrest, rfl⟩ : ∃ text', chars s = some (text', t) ∧ c :: text' = text := by
      simpa [Option.map_eq_some_iff] using h
    exact .plain ⟨not_lt.1 hlow, hquote, hback⟩ (ih hrest)

/-- What follows a string is no part of it. -/
theorem Chars.append (h : Chars s text t) (u : JsString) : Chars (s ++ u) text (t ++ u) := by
  induction h with
  | close => exact .close
  | plain hc _ ih => exact .plain hc ih
  | simple hc _ ih => exact .simple hc ih
  | unicode hu _ ih => exact .unicode hu ih

theorem stringToken_eq_some : stringToken s = some (text, t) ↔ StringToken s text t := by
  cases s with
  | nil => simp [stringToken, StringToken]
  | cons c s =>
    by_cases hc : c = quote
    · simp [stringToken, StringToken, hc, chars_eq_some]
    · simp [stringToken, StringToken, hc]

theorem StringToken.length_lt (h : StringToken s text t) : t.length + 1 < s.length := by
  obtain ⟨rest, rfl, hrest⟩ := h
  have hlength := hrest.length_lt
  simp only [List.length_cons]
  omega

end Strings

/-! ## Numbers -/

/-- One digit or more, without a zero before others. -/
def IsInteger (s : JsString) : Prop :=
  s = [0x30] ∨ ∃ d rest, s = d :: rest ∧ isDigit d = true ∧ d ≠ 0x30 ∧ ∀ c ∈ rest, isDigit c = true

/-- Nothing, or a point and digits. -/
def IsFraction (s : JsString) : Prop :=
  s = [] ∨ ∃ rest, s = point :: rest ∧ rest ≠ [] ∧ ∀ c ∈ rest, isDigit c = true

/-- Nothing, or the mark of an exponent, a sign where there is one, and digits. -/
def IsExponent (s : JsString) : Prop :=
  s = [] ∨ ∃ mark sign rest, s = mark :: (sign ++ rest) ∧ isExponentMark mark = true ∧
    (sign = [] ∨ sign = [plus] ∨ sign = [minus]) ∧ rest ≠ [] ∧ ∀ c ∈ rest, isDigit c = true

/-- The text of a number. -/
def IsNumber (s : JsString) : Prop :=
  ∃ sign integer fraction exponent, s = sign ++ integer ++ fraction ++ exponent ∧
    (sign = [] ∨ sign = [minus]) ∧ IsInteger integer ∧ IsFraction fraction ∧ IsExponent exponent

/-- A sign at the head of a string, if there is one, and the rest. -/
def matchSign (signs : CodeUnit → Bool) : JsString → JsString × JsString
  | [] => ([], [])
  | c :: s => if signs c then ([c], s) else ([], c :: s)

def matchInteger : JsString → Option (JsString × JsString)
  | [] => none
  | c :: s =>
    if c = 0x30 then some ([c], s)
    else if isDigit c then some (c :: s.takeWhile isDigit, s.dropWhile isDigit)
    else none

def matchFraction : JsString → JsString × JsString
  | [] => ([], [])
  | c :: s =>
    if c = point ∧ s.takeWhile isDigit ≠ [] then
      (c :: s.takeWhile isDigit, s.dropWhile isDigit)
    else ([], c :: s)

def matchExponent : JsString → JsString × JsString
  | [] => ([], [])
  | c :: s =>
    let signed := matchSign (fun c => c == plus || c == minus) s
    if isExponentMark c ∧ signed.2.takeWhile isDigit ≠ [] then
      (c :: (signed.1 ++ signed.2.takeWhile isDigit), signed.2.dropWhile isDigit)
    else ([], c :: s)

/-- The longest text of a number that a string begins with, and the rest: one pass over
`-?(?:0|[1-9]\d*)(?:\.\d+)?(?:[eE][+-]?\d+)?`. -/
def matchNumber (s : JsString) : Option (JsString × JsString) :=
  let signed := matchSign (· == minus) s
  (matchInteger signed.2).map fun (integer, rest) =>
    let fraction := matchFraction rest
    let exponent := matchExponent fraction.2
    (signed.1 ++ integer ++ fraction.1 ++ exponent.1, exponent.2)

section Numbers

variable {s t n : JsString}

theorem mem_takeWhile_digit : ∀ c ∈ s.takeWhile isDigit, isDigit c = true :=
  fun _ hc => List.mem_takeWhile_imp hc

theorem matchSign_append (signs : CodeUnit → Bool) (s : JsString) : (matchSign signs s).1 ++ (matchSign signs s).2 = s := by
  fun_cases matchSign signs s <;> simp

theorem matchSign_cases (signs : CodeUnit → Bool) (s : JsString) :
    (matchSign signs s).1 = [] ∨ ∃ c, signs c = true ∧ (matchSign signs s).1 = [c] := by
  fun_cases matchSign signs s with
  | case1 => exact .inl rfl
  | case2 c s hc => exact .inr ⟨c, hc, rfl⟩
  | case3 => exact .inl rfl

theorem matchSign_sign {signs : CodeUnit → Bool} {c : CodeUnit} (hc : signs c = true) :
    matchSign signs (c :: s) = ([c], s) := by
  simp [matchSign, hc]

theorem matchSign_of_stops {signs : CodeUnit → Bool} (hs : Stops signs s) :
    matchSign signs s = ([], s) := by
  cases s with
  | nil => rfl
  | cons c s => simp [matchSign, stops_cons.1 hs]

theorem matchInteger_sound (h : matchInteger s = some (n, t)) : s = n ++ t ∧ IsInteger n := by
  fun_cases matchInteger s with
  | case1 => cases h
  | case2 s =>
    obtain ⟨rfl, rfl⟩ : [0x30] = n ∧ s = t := by simpa [matchInteger] using h
    exact ⟨rfl, .inl rfl⟩
  | case3 c s hzero hdigit =>
    obtain ⟨rfl, rfl⟩ : c :: s.takeWhile isDigit = n ∧ s.dropWhile isDigit = t := by
      simpa [matchInteger, hzero, hdigit] using h
    exact ⟨by simp, .inr ⟨c, _, rfl, hdigit, hzero, mem_takeWhile_digit⟩⟩
  | case4 c s hzero hdigit => simp [matchInteger, hzero, hdigit] at h

theorem matchInteger_complete (hn : IsInteger n) (ht : Stops isDigit t) :
    matchInteger (n ++ t) = some (n, t) := by
  rcases hn with rfl | ⟨d, rest, rfl, hd, hzero, hrest⟩
  · simp [matchInteger]
  · simp [matchInteger, hd, hzero, takeWhile_append hrest ht, dropWhile_append hrest ht]

theorem matchFraction_sound (s : JsString) :
    s = (matchFraction s).1 ++ (matchFraction s).2 ∧ IsFraction (matchFraction s).1 := by
  fun_cases matchFraction s with
  | case1 => exact ⟨rfl, .inl rfl⟩
  | case2 c s hdigits =>
    obtain ⟨rfl, hne⟩ := hdigits
    exact ⟨by simp, .inr ⟨_, rfl, hne, mem_takeWhile_digit⟩⟩
  | case3 c s => exact ⟨rfl, .inl rfl⟩

theorem matchFraction_complete (hn : IsFraction n) (ht : Stops isDigit t)
    (hpoint : Stops (· == point) t) : matchFraction (n ++ t) = (n, t) := by
  rcases hn with rfl | ⟨rest, rfl, hne, hrest⟩
  · cases t with
    | nil => rfl
    | cons c t =>
      have hc : c ≠ point := by simpa using hpoint
      simp [matchFraction, hc]
  · simp [matchFraction, takeWhile_append hrest ht, dropWhile_append hrest ht, hne]

theorem matchExponent_sound (s : JsString) :
    s = (matchExponent s).1 ++ (matchExponent s).2 ∧ IsExponent (matchExponent s).1 := by
  fun_cases matchExponent s with
  | case1 => exact ⟨rfl, .inl rfl⟩
  | case2 c s signed hdigits =>
    have hsign := matchSign_cases (fun c => c == plus || c == minus) s
    refine ⟨?_, .inr ⟨c, signed.1, _, rfl, hdigits.1, ?_, hdigits.2, mem_takeWhile_digit⟩⟩
    · simp [signed, matchSign_append]
    · rcases hsign with hnone | ⟨c, hc, hsome⟩
      · exact .inl hnone
      · simp only [Bool.or_eq_true, beq_iff_eq] at hc
        rcases hc with rfl | rfl
        · exact .inr (.inl hsome)
        · exact .inr (.inr hsome)
  | case3 c s => exact ⟨rfl, .inl rfl⟩

theorem matchExponent_complete (hn : IsExponent n) (ht : Stops isDigit t)
    (hmark : Stops isExponentMark t) : matchExponent (n ++ t) = (n, t) := by
  rcases hn with rfl | ⟨mark, sign, rest, rfl, hm, hsign, hne, hrest⟩
  · cases t with
    | nil => rfl
    | cons c t =>
      have hc : isExponentMark c = false := by simpa using hmark
      simp [matchExponent, hc]
  · have hsigned : matchSign (fun c => c == plus || c == minus) (sign ++ (rest ++ t)) =
        (sign, rest ++ t) := by
      rcases hsign with rfl | rfl | rfl
      · obtain ⟨d, rest', rfl⟩ := List.exists_cons_of_ne_nil hne
        have hd : isDigit d = true := hrest d (.head _)
        refine matchSign_of_stops ?_
        rw [List.nil_append, List.cons_append, stops_cons]
        by_contra hsome
        have hcases : d = plus ∨ d = minus := by simpa [or_iff_not_imp_left] using hsome
        rcases hcases with rfl | rfl <;> exact absurd hd (by decide)
      · exact matchSign_sign rfl
      · exact matchSign_sign rfl
    simp [matchExponent, hsigned, hm, hne, takeWhile_append hrest ht, dropWhile_append hrest ht]

theorem matchNumber_sound (h : matchNumber s = some (n, t)) : s = n ++ t ∧ IsNumber n := by
  obtain ⟨⟨integer, rest⟩, hinteger, hparts⟩ := Option.map_eq_some_iff.1 h
  obtain ⟨hrest, hint⟩ := matchInteger_sound hinteger
  obtain ⟨hfraction, hfrac⟩ := matchFraction_sound rest
  obtain ⟨hexponent, hexp⟩ := matchExponent_sound (matchFraction rest).2
  obtain ⟨rfl, rfl⟩ := Prod.mk.inj hparts
  refine ⟨?_, _, _, _, _, rfl, ?_, hint, hfrac, hexp⟩
  · rw [List.append_assoc, List.append_assoc, List.append_assoc, ← hexponent, ← hfraction, ← hrest,
      matchSign_append]
  · rcases matchSign_cases (· == minus) s with hnone | ⟨c, hc, hsome⟩
    · exact .inl hnone
    · exact .inr (by rw [hsome, beq_iff_eq.1 hc])

theorem Stops.of_number {p : CodeUnit → Bool} (ht : Stops continuesNumber t)
    (hp : ∀ c, p c = true → continuesNumber c = true) : Stops p t := by
  intro c hc
  by_contra hsome
  exact absurd (hp c (by simpa using hsome)) (by simp [ht c hc])

theorem IsInteger.stops_sign (hn : IsInteger n) : Stops (· == minus) (n ++ t) := by
  rcases hn with rfl | ⟨d, rest, rfl, hd, -⟩
  · rw [List.singleton_append, stops_cons]
    decide
  · rw [List.cons_append, stops_cons]
    by_contra hminus
    obtain rfl : d = minus := by simpa using hminus
    exact absurd hd (by decide)

theorem IsFraction.stops_digit (hn : IsFraction n) (ht : Stops isDigit t) :
    Stops isDigit (n ++ t) := by
  rcases hn with rfl | ⟨rest, rfl, -⟩
  · exact ht
  · rw [List.cons_append, stops_cons]
    decide

theorem IsExponent.stops {p : CodeUnit → Bool} (hn : IsExponent n)
    (hp : ∀ c, isExponentMark c = true → p c = false) (ht : Stops p t) : Stops p (n ++ t) := by
  rcases hn with rfl | ⟨mark, sign, rest, rfl, hmark, -⟩
  · exact ht
  · rw [List.cons_append, stops_cons]
    exact hp mark hmark

/-- A number is matched whole where it cannot go on. -/
theorem matchNumber_complete (hn : IsNumber n) (ht : Stops continuesNumber t) :
    matchNumber (n ++ t) = some (n, t) := by
  obtain ⟨sign, integer, fraction, exponent, rfl, hsign, hint, hfrac, hexp⟩ := hn
  have hmark (c : CodeUnit) (hc : isExponentMark c = true) : c = 0x65 ∨ c = 0x45 := by
    simpa [isExponentMark] using hc
  have hdigit : Stops isDigit t := ht.of_number fun c hc => by simp [continuesNumber, hc]
  have hpoint : Stops (· == point) t := ht.of_number fun c hc => by simp [continuesNumber, hc]
  have hlast : Stops isExponentMark t := ht.of_number fun c hc => by simp [continuesNumber, hc]
  have hexponent := matchExponent_complete hexp hdigit hlast
  have hdigit' : Stops isDigit (exponent ++ t) :=
    hexp.stops (fun c hc => by rcases hmark c hc with rfl | rfl <;> decide) hdigit
  have hpoint' : Stops (· == point) (exponent ++ t) :=
    hexp.stops (fun c hc => by rcases hmark c hc with rfl | rfl <;> decide) hpoint
  have hfraction := matchFraction_complete hfrac hdigit' hpoint'
  have hinteger := matchInteger_complete hint (hfrac.stops_digit hdigit')
  have hsigned : matchSign (· == minus) (sign ++ (integer ++ (fraction ++ (exponent ++ t)))) =
      (sign, integer ++ (fraction ++ (exponent ++ t))) := by
    rcases hsign with rfl | rfl
    · exact matchSign_of_stops hint.stops_sign
    · exact matchSign_sign rfl
  simp only [matchNumber, List.append_assoc, hsigned, hinteger, hfraction, hexponent,
    Option.map_some]

/-- A number begins with a digit or a minus sign. -/
theorem IsNumber.head (hn : IsNumber n) :
    ∃ c rest, n = c :: rest ∧ (isDigit c = true ∨ c = minus) := by
  obtain ⟨sign, integer, fraction, exponent, rfl, hsign, hint, -⟩ := hn
  rcases hsign with rfl | rfl
  · rcases hint with rfl | ⟨d, rest, rfl, hd, -⟩
    · exact ⟨0x30, _, rfl, .inl rfl⟩
    · exact ⟨d, _, rfl, .inl hd⟩
  · exact ⟨minus, _, rfl, .inr rfl⟩

end Numbers

/-! ## Values -/

end Json

/-- The tree of a value: a number is its text, and an object its members in their order. -/
inductive Json
  | null
  | bool (value : Bool)
  | number (text : JsString)
  | string (text : JsString)
  | array (elements : List Json)
  | object (members : List (JsString × Json))

namespace Json

/-- The word for a value without parts. -/
def word : Json → Option JsString
  | .null => some (js "null")
  | .bool true => some (js "true")
  | .bool false => some (js "false")
  | _ => none

mutual

/-- `s` is the value `v` followed by `t`. -/
inductive Value : JsString → Json → JsString → Prop
  | word {v : Json} {w t : JsString} (hw : v.word = some w) : Value (w ++ t) v t
  | number {n t : JsString} (hn : IsNumber n) : Value (n ++ t) (.number n) t
  | string {s text t : JsString} (hs : StringToken s text t) : Value s (.string text) t
  | emptyArray {s t : JsString} (hs : Spaces s (closeBracket :: t)) :
      Value (openBracket :: s) (.array []) t
  | array {s t : JsString} {l : List Json} (hs : Elements s l t) :
      Value (openBracket :: s) (.array l) t
  | emptyObject {s t : JsString} (hs : Spaces s (closeBrace :: t)) :
      Value (openBrace :: s) (.object []) t
  | object {s t : JsString} {l : List (JsString × Json)} (hs : Members s l t) :
      Value (openBrace :: s) (.object l) t

/-- `s` is the elements of an array with its closing bracket, followed by `t`. -/
inductive Elements : JsString → List Json → JsString → Prop
  | last {s s₁ s₂ t : JsString} {v : Json} (hbefore : Spaces s s₁) (hv : Value s₁ v s₂)
      (hafter : Spaces s₂ (closeBracket :: t)) : Elements s [v] t
  | more {s s₁ s₂ s₃ t : JsString} {v : Json} {l : List Json} (hbefore : Spaces s s₁)
      (hv : Value s₁ v s₂) (hafter : Spaces s₂ (comma :: s₃)) (hrest : Elements s₃ l t) :
      Elements s (v :: l) t

/-- `s` is the members of an object with its closing brace, followed by `t`. -/
inductive Members : JsString → List (JsString × Json) → JsString → Prop
  | last {s s₁ s₂ s₃ s₄ s₅ t name : JsString} {v : Json} (hbefore : Spaces s s₁)
      (hname : StringToken s₁ name s₂) (hcolon : Spaces s₂ (colon :: s₃)) (hspace : Spaces s₃ s₄)
      (hv : Value s₄ v s₅) (hafter : Spaces s₅ (closeBrace :: t)) : Members s [(name, v)] t
  | more {s s₁ s₂ s₃ s₄ s₅ s₆ t name : JsString} {v : Json} {l : List (JsString × Json)}
      (hbefore : Spaces s s₁) (hname : StringToken s₁ name s₂)
      (hcolon : Spaces s₂ (colon :: s₃)) (hspace : Spaces s₃ s₄) (hv : Value s₄ v s₅)
      (hafter : Spaces s₅ (comma :: s₆)) (hrest : Members s₆ l t) :
      Members s ((name, v) :: l) t

end

section Lengths

theorem js_null : js "null" = [0x6e, 0x75, 0x6c, 0x6c] := by decide

theorem js_true : js "true" = [0x74, 0x72, 0x75, 0x65] := by decide

theorem js_false : js "false" = [0x66, 0x61, 0x6c, 0x73, 0x65] := by decide

theorem word_eq_some {v : Json} {w : JsString} : v.word = some w ↔
    v = .null ∧ w = js "null" ∨ v = .bool true ∧ w = js "true" ∨
      v = .bool false ∧ w = js "false" := by
  fun_cases word v <;> simp [eq_comm]
  next hnull htrue hfalse =>
    exact ⟨fun h => (hnull h).elim, fun h => (htrue h).elim, fun h => (hfalse h).elim⟩

mutual

theorem Value.length_lt {s t : JsString} {v : Json} : Value s v t → t.length < s.length
  | .word hw => by
      rcases word_eq_some.1 hw with ⟨-, rfl⟩ | ⟨-, rfl⟩ | ⟨-, rfl⟩
      · simp only [js_null, List.cons_append, List.length_cons, List.nil_append]
        omega
      · simp only [js_true, List.cons_append, List.length_cons, List.nil_append]
        omega
      · simp only [js_false, List.cons_append, List.length_cons, List.nil_append]
        omega
  | .number hn => by
      obtain ⟨c, rest, rfl, -⟩ := hn.head
      simp
  | .string hs => (Nat.lt_succ_self _).trans hs.length_lt
  | .emptyArray hs => hs.length_lt.trans (Nat.lt_succ_self _)
  | .array hs => hs.length_lt.trans (Nat.lt_succ_self _)
  | .emptyObject hs => hs.length_lt.trans (Nat.lt_succ_self _)
  | .object hs => hs.length_lt.trans (Nat.lt_succ_self _)

theorem Elements.length_lt {s t : JsString} {l : List Json} : Elements s l t → t.length < s.length
  | .last hbefore hv hafter =>
    hafter.length_lt.trans (hv.length_lt.trans_le hbefore.length_le)
  | .more hbefore hv hafter hrest =>
    hrest.length_lt.trans (hafter.length_lt.trans (hv.length_lt.trans_le hbefore.length_le))

theorem Members.length_lt {s t : JsString} {l : List (JsString × Json)} :
    Members s l t → t.length < s.length
  | .last hbefore hname hcolon hspace hv hafter => by
      have hvalue := hafter.length_lt.trans (hv.length_lt.trans_le hspace.length_le)
      have hmember := hname.length_lt.trans_le hbefore.length_le
      have hmark := hcolon.length_lt
      omega
  | .more hbefore hname hcolon hspace hv hafter hrest => by
      have hvalue := hafter.length_lt.trans (hv.length_lt.trans_le hspace.length_le)
      have hmember := hname.length_lt.trans_le hbefore.length_le
      have hmark := hcolon.length_lt
      have htail := hrest.length_lt
      omega

end

end Lengths

/-- `s` is a text of JSON with the value `v`. -/
def IsText (s : JsString) (v : Json) : Prop := ∃ s₁ s₂, Spaces s s₁ ∧ Value s₁ v s₂ ∧ Spaces s₂ []

/-! ## The parser -/

/-- Reads a word or a number. -/
def parseScalar (s : JsString) : Option (Json × JsString) :=
  match s.dropPrefix? (js "true") with
  | some t => some (.bool true, t)
  | none =>
    match s.dropPrefix? (js "false") with
    | some t => some (.bool false, t)
    | none =>
      match s.dropPrefix? (js "null") with
      | some t => some (.null, t)
      | none => (matchNumber s).map fun (n, t) => (.number n, t)

mutual

/-- Reads a value. The first argument bounds the depth of the recursion. -/
def parseValue : Nat → JsString → Option (Json × JsString)
  | 0, _ => none
  | n + 1, s =>
    let s := skip s
    if s.head? = some quote then (stringToken s).map fun (text, t) => (.string text, t)
    else if s.head? = some openBrace then parseObject n s
    else if s.head? = some openBracket then parseArray n s
    else parseScalar s

def parseObject : Nat → JsString → Option (Json × JsString)
  | 0, _ => none
  | n + 1, s =>
    let s := skip (s.drop 1)
    if s.head? = some closeBrace then some (.object [], s.drop 1)
    else (parseMembers n s).map fun (l, t) => (.object l, t)

def parseMembers : Nat → JsString → Option (List (JsString × Json) × JsString)
  | 0, _ => none
  | n + 1, s => do
      let (name, s) ← stringToken (skip s)
      let s := skip s
      if s.head? ≠ some colon then none
      else
        let (v, s) ← parseValue n (s.drop 1)
        let s := skip s
        if s.head? = some closeBrace then some ([(name, v)], s.drop 1)
        else if s.head? ≠ some comma then none
        else (parseMembers n (s.drop 1)).map fun (l, t) => ((name, v) :: l, t)

def parseArray : Nat → JsString → Option (Json × JsString)
  | 0, _ => none
  | n + 1, s =>
    let s := skip (s.drop 1)
    if s.head? = some closeBracket then some (.array [], s.drop 1)
    else (parseElements n s).map fun (l, t) => (.array l, t)

def parseElements : Nat → JsString → Option (List Json × JsString)
  | 0, _ => none
  | n + 1, s => do
      let (v, s) ← parseValue n s
      let s := skip s
      if s.head? = some closeBracket then some ([v], s.drop 1)
      else if s.head? ≠ some comma then none
      else (parseElements n (s.drop 1)).map fun (l, t) => (v :: l, t)

end

/-- Enough for every value that a string can hold. -/
def depthBound (s : JsString) : Nat := 3 * s.length + 2

/-- The tree of a text. -/
def parse (s : JsString) : Option Json := do
  let (v, t) ← parseValue (depthBound s) s
  if skip t = [] then some v else none

section Lists

variable {n : Nat} {s t : JsString}

theorem parseMembers_eq_some {l : List (JsString × Json)} :
    parseMembers (n + 1) s = some (l, t) ↔ ∃ name s₂ v s₅,
      stringToken (skip s) = some (name, s₂) ∧ (skip s₂).head? = some colon ∧
      parseValue n ((skip s₂).drop 1) = some (v, s₅) ∧
      ((skip s₅).head? = some closeBrace ∧ l = [(name, v)] ∧ t = (skip s₅).drop 1 ∨
        (skip s₅).head? = some comma ∧
          ∃ l', parseMembers n ((skip s₅).drop 1) = some (l', t) ∧ l = (name, v) :: l') := by
  have hbrace : closeBrace ≠ comma := by decide
  simp only [parseMembers, Option.bind_eq_bind, Option.bind_eq_some_iff, Prod.exists]
  refine exists_congr fun name => exists_congr fun s₂ => ?_
  by_cases hcolon : (skip s₂).head? = some colon
  · simp only [hcolon, ne_eq, not_true_eq_false, if_false, true_and, Option.bind_eq_some_iff,
      Prod.exists, ← exists_and_left]
    refine exists_congr fun v => exists_congr fun s₅ => and_congr_right fun _ =>
      and_congr_right fun _ => ?_
    by_cases hclose : (skip s₅).head? = some closeBrace
    · simp [hclose, hbrace.symm, eq_comm]
    · by_cases hcomma : (skip s₅).head? = some comma
      · simp [hcomma, hbrace.symm, eq_comm]
      · simp [hclose, hcomma]
  · simp [hcolon]

theorem parseElements_eq_some {l : List Json} :
    parseElements (n + 1) s = some (l, t) ↔ ∃ v s₂, parseValue n s = some (v, s₂) ∧
      ((skip s₂).head? = some closeBracket ∧ l = [v] ∧ t = (skip s₂).drop 1 ∨
        (skip s₂).head? = some comma ∧
          ∃ l', parseElements n ((skip s₂).drop 1) = some (l', t) ∧ l = v :: l') := by
  have hbracket : closeBracket ≠ comma := by decide
  simp only [parseElements, Option.bind_eq_bind, Option.bind_eq_some_iff, Prod.exists]
  refine exists_congr fun v => exists_congr fun s₂ => and_congr_right fun _ => ?_
  by_cases hclose : (skip s₂).head? = some closeBracket
  · simp [hclose, hbracket.symm, eq_comm]
  · by_cases hcomma : (skip s₂).head? = some comma
    · simp [hcomma, hbracket.symm, eq_comm]
    · simp [hclose, hcomma]

end Lists

section Scalars

variable {s t n : JsString} {v : Json}

theorem dropPrefix?_sound {w : JsString} (h : s.dropPrefix? w = some t) : s = w ++ t := by
  obtain ⟨w', hs, hw⟩ := List.dropPrefix?_eq_some_iff.1 h
  rw [hs, eq_of_beq hw]

theorem parseScalar_sound (h : parseScalar s = some (v, t)) : Value s v t := by
  fun_cases parseScalar s with
  | case1 t' ht =>
    obtain ⟨rfl, rfl⟩ : Json.bool true = v ∧ t' = t := by simpa [parseScalar, ht] using h
    exact dropPrefix?_sound ht ▸ .word rfl
  | case2 htrue t' ht =>
    obtain ⟨rfl, rfl⟩ : Json.bool false = v ∧ t' = t := by simpa [parseScalar, htrue, ht] using h
    exact dropPrefix?_sound ht ▸ .word rfl
  | case3 htrue hfalse t' ht =>
    obtain ⟨rfl, rfl⟩ : Json.null = v ∧ t' = t := by simpa [parseScalar, htrue, hfalse, ht] using h
    exact dropPrefix?_sound ht ▸ .word rfl
  | case4 htrue hfalse hnull =>
    obtain ⟨n, hn, rfl⟩ : ∃ n, matchNumber s = some (n, t) ∧ Json.number n = v := by
      simpa [parseScalar, htrue, hfalse, hnull, Option.map_eq_some_iff] using h
    obtain ⟨rfl, hnumber⟩ := matchNumber_sound hn
    exact .number hnumber

theorem dropPrefix?_cons_ne {c d : CodeUnit} {w : JsString} (h : c ≠ d) :
    (c :: s).dropPrefix? (d :: w) = none := by
  rw [List.dropPrefix?, if_neg (by simpa using h)]

theorem parseScalar_word {w : JsString} (hw : v.word = some w) :
    parseScalar (w ++ t) = some (v, t) := by
  rcases word_eq_some.1 hw with ⟨rfl, rfl⟩ | ⟨rfl, rfl⟩ | ⟨rfl, rfl⟩ <;>
    simp [parseScalar, js_null, js_true, js_false, List.dropPrefix?]

theorem parseScalar_number (hn : IsNumber n) (ht : Stops continuesNumber t) :
    parseScalar (n ++ t) = some (.number n, t) := by
  obtain ⟨c, rest, hc, hhead⟩ := hn.head
  have hword (d : CodeUnit) (hd : isDigit d = false ∧ d ≠ minus) : c ≠ d := by
    rintro rfl
    rcases hhead with hdigit | hminus
    · exact absurd hd.1 (by simp [hdigit])
    · exact hd.2 hminus
  have hnone (d : CodeUnit) (w : JsString) (hd : isDigit d = false ∧ d ≠ minus) :
      (n ++ t).dropPrefix? (d :: w) = none := by
    rw [hc, List.cons_append]
    exact dropPrefix?_cons_ne (hword d hd)
  simp only [parseScalar, js_true, js_false, js_null, hnone _ _ (by decide : isDigit 0x74 = false ∧ _),
    hnone _ _ (by decide : isDigit 0x66 = false ∧ _), hnone _ _ (by decide : isDigit 0x6e = false ∧ _),
    matchNumber_complete hn ht, Option.map_some]

/-- A unit that neither white space nor a string, an object, an array or its end begins with. -/
def BeginsScalar (c : CodeUnit) : Prop :=
  isSpace c = false ∧ c ≠ quote ∧ c ≠ openBrace ∧ c ≠ openBracket ∧ c ≠ closeBracket

theorem word_head {w : JsString} (hw : v.word = some w) :
    ∃ c rest, w = c :: rest ∧ BeginsScalar c := by
  unfold BeginsScalar
  rcases word_eq_some.1 hw with ⟨-, rfl⟩ | ⟨-, rfl⟩ | ⟨-, rfl⟩
  · exact ⟨_, _, js_null, by decide⟩
  · exact ⟨_, _, js_true, by decide⟩
  · exact ⟨_, _, js_false, by decide⟩

theorem number_head (hn : IsNumber n) : ∃ c rest, n = c :: rest ∧ BeginsScalar c := by
  obtain ⟨c, rest, rfl, hhead⟩ := hn.head
  refine ⟨c, rest, rfl, ?_⟩
  rcases hhead with hdigit | rfl
  · have hrange : 0x30 ≤ c ∧ c ≤ 0x39 := by simpa [isDigit] using hdigit
    simp only [BeginsScalar, isSpace, Bool.or_eq_false_iff, beq_eq_false_iff_ne]
    refine ⟨⟨⟨⟨?_, ?_⟩, ?_⟩, ?_⟩, ?_, ?_, ?_, ?_⟩ <;> rintro rfl <;>
      exact absurd hrange (by decide)
  · unfold BeginsScalar
    decide

end Scalars

/-! ## The parser reads every text -/

section Completeness

variable {s t : JsString} {v : Json}

/-- A value does not begin with white space, nor as an array ends. -/
theorem Value.head (h : Value s v t) :
    ∃ c rest, s = c :: rest ∧ isSpace c = false ∧ c ≠ closeBracket := by
  cases h with
  | word hw =>
    obtain ⟨c, rest, rfl, hspace, -, -, -, hclose⟩ := word_head hw
    exact ⟨c, _, rfl, hspace, hclose⟩
  | number hn =>
    obtain ⟨c, rest, rfl, hspace, -, -, -, hclose⟩ := number_head hn
    exact ⟨c, _, rfl, hspace, hclose⟩
  | string hs =>
    obtain ⟨rest, rfl, -⟩ := hs
    exact ⟨quote, _, rfl, by decide⟩
  | emptyArray => exact ⟨openBracket, _, rfl, by decide⟩
  | array => exact ⟨openBracket, _, rfl, by decide⟩
  | emptyObject => exact ⟨openBrace, _, rfl, by decide⟩
  | object => exact ⟨openBrace, _, rfl, by decide⟩

theorem Value.stops_space (h : Value s v t) : Stops isSpace s := by
  obtain ⟨c, rest, rfl, hspace, -⟩ := h.head
  exact stops_cons.2 hspace

theorem StringToken.stops_space {text : JsString} (h : StringToken s text t) : Stops isSpace s := by
  obtain ⟨rest, rfl, -⟩ := h
  exact stops_cons.2 (by decide)

theorem Spaces.skip_value {u : JsString} (h : Spaces u s) (hv : Value s v t) : skip u = s :=
  h.skip_eq_of_stops hv.stops_space

/-- What follows a value is white space or a mark that no number goes on with. -/
theorem Spaces.stops_mark {c : CodeUnit} (h : Spaces s (c :: t)) (hc : continuesNumber c = false) :
    Stops continuesNumber s :=
  h.stops_number (stops_cons.2 hc)

theorem parseObject_empty (n : Nat) (h : Spaces s (closeBrace :: t)) :
    parseObject (n + 1) (openBrace :: s) = some (.object [], t) := by
  have hskip : skip s = closeBrace :: t := h.skip_eq_of_stops (stops_cons.2 (by decide))
  simp [parseObject, hskip]

theorem parseArray_empty (n : Nat) (h : Spaces s (closeBracket :: t)) :
    parseArray (n + 1) (openBracket :: s) = some (.array [], t) := by
  have hskip : skip s = closeBracket :: t := h.skip_eq_of_stops (stops_cons.2 (by decide))
  simp [parseArray, hskip]

section ParseValue

variable (n : Nat)

theorem parseValue_quote (s : JsString) : parseValue (n + 1) (quote :: s) =
    (stringToken (quote :: s)).map fun (text, t) => (.string text, t) := by
  have hskip : skip (quote :: s) = quote :: s := dropWhile_of_stops (stops_cons.2 (by decide))
  simp only [parseValue, hskip, List.head?_cons, if_true]

theorem parseValue_brace (s : JsString) :
    parseValue (n + 1) (openBrace :: s) = parseObject n (openBrace :: s) := by
  have hskip : skip (openBrace :: s) = openBrace :: s :=
    dropWhile_of_stops (stops_cons.2 (by decide))
  have hquote : openBrace ≠ quote := by decide
  simp [parseValue, hskip, hquote]

theorem parseValue_bracket (s : JsString) :
    parseValue (n + 1) (openBracket :: s) = parseArray n (openBracket :: s) := by
  have hskip : skip (openBracket :: s) = openBracket :: s :=
    dropWhile_of_stops (stops_cons.2 (by decide))
  have hquote : openBracket ≠ quote := by decide
  have hbrace : openBracket ≠ openBrace := by decide
  simp [parseValue, hskip, hquote, hbrace]

theorem parseValue_scalar {c : CodeUnit} (hc : BeginsScalar c) :
    parseValue (n + 1) (c :: s) = parseScalar (c :: s) := by
  obtain ⟨hspace, hquote, hbrace, hbracket, -⟩ := hc
  have hskip : skip (c :: s) = c :: s := dropWhile_of_stops (stops_cons.2 hspace)
  simp [parseValue, hskip, hquote, hbrace, hbracket]

end ParseValue

/-- Runs of this depth read what the grammar derives from strings that are short enough. -/
structure Reads (n : Nat) : Prop where
  value : ∀ s v t, Value s v t → Stops continuesNumber t → 3 * s.length + 1 ≤ n →
    parseValue n s = some (v, t)
  object : ∀ s l t, Members s l t → 3 * s.length + 3 ≤ n →
    parseObject n (openBrace :: s) = some (.object l, t)
  members : ∀ s l t, Members s l t → 3 * s.length + 2 ≤ n → parseMembers n s = some (l, t)
  array : ∀ s l t, Elements s l t → 3 * s.length + 3 ≤ n →
    parseArray n (openBracket :: s) = some (.array l, t)
  elements : ∀ s l t, Elements s l t → 3 * s.length + 2 ≤ n → parseElements n s = some (l, t)

theorem Reads.value_succ {n : Nat} (h : Reads n) (hv : Value s v t) (ht : Stops continuesNumber t)
    (hn : 3 * s.length + 1 ≤ n + 1) : parseValue (n + 1) s = some (v, t) := by
  cases hv with
  | word hw =>
    have hread : parseScalar (_ ++ t) = _ := parseScalar_word hw
    obtain ⟨c, rest, rfl, hc⟩ := word_head hw
    exact (parseValue_scalar n hc).trans hread
  | number hnumber =>
    have hread := parseScalar_number hnumber ht
    obtain ⟨c, rest, rfl, hc⟩ := number_head hnumber
    exact (parseValue_scalar n hc).trans hread
  | string hs =>
    have hread := stringToken_eq_some.2 hs
    obtain ⟨rest, rfl, -⟩ := hs
    rw [parseValue_quote, hread, Option.map_some]
  | emptyArray hs =>
    obtain ⟨m, rfl⟩ : ∃ m, n = m + 1 := ⟨n - 1, by simp only [List.length_cons] at hn; omega⟩
    exact (parseValue_bracket _ _).trans (parseArray_empty m hs)
  | array hs =>
    refine (parseValue_bracket _ _).trans (h.array _ _ _ hs ?_)
    simp only [List.length_cons] at hn
    omega
  | emptyObject hs =>
    obtain ⟨m, rfl⟩ : ∃ m, n = m + 1 := ⟨n - 1, by simp only [List.length_cons] at hn; omega⟩
    exact (parseValue_brace _ _).trans (parseObject_empty m hs)
  | object hs =>
    refine (parseValue_brace _ _).trans (h.object _ _ _ hs ?_)
    simp only [List.length_cons] at hn
    omega

/-- A value is read behind white space as well. -/
theorem parseValue_skip {n : Nat} {u : JsString} (h : Spaces u s) :
    parseValue (n + 1) u = parseValue (n + 1) s := by
  simp only [parseValue, h.skip_eq]

theorem Reads.value_spaces {n : Nat} {u : JsString} (h : Reads n) (hu : Spaces u s)
    (hv : Value s v t) (ht : Stops continuesNumber t) (hn : 3 * u.length + 1 ≤ n) :
    parseValue n u = some (v, t) := by
  have hlength := hu.length_le
  obtain ⟨m, rfl⟩ : ∃ m, n = m + 1 := ⟨n - 1, by omega⟩
  rw [parseValue_skip hu]
  exact h.value _ _ _ hv ht (by omega)

/-- Whatever white space a member or an element begins with, the parser skips. -/
theorem Members.skipped {l : List (JsString × Json)} (h : Members s l t) :
    ∃ rest, skip s = quote :: rest ∧ Members (skip s) l t := by
  cases h with
  | last hbefore hname hcolon hspace hv hafter =>
    have hskip := hbefore.skip_eq_of_stops hname.stops_space
    obtain ⟨rest, hrest, -⟩ := id hname
    exact ⟨rest, hskip.trans hrest, hskip ▸ .last (.refl _) hname hcolon hspace hv hafter⟩
  | more hbefore hname hcolon hspace hv hafter hmore =>
    have hskip := hbefore.skip_eq_of_stops hname.stops_space
    obtain ⟨rest, hrest, -⟩ := id hname
    exact ⟨rest, hskip.trans hrest, hskip ▸ .more (.refl _) hname hcolon hspace hv hafter hmore⟩

theorem Elements.skipped {l : List Json} (h : Elements s l t) :
    ∃ c rest, skip s = c :: rest ∧ c ≠ closeBracket ∧ Elements (skip s) l t := by
  cases h with
  | last hbefore hv hafter =>
    have hskip := hbefore.skip_value hv
    obtain ⟨c, rest, hrest, -, hc⟩ := hv.head
    exact ⟨c, rest, hskip.trans hrest, hc, hskip ▸ .last (.refl _) hv hafter⟩
  | more hbefore hv hafter hmore =>
    have hskip := hbefore.skip_value hv
    obtain ⟨c, rest, hrest, -, hc⟩ := hv.head
    exact ⟨c, rest, hskip.trans hrest, hc, hskip ▸ .more (.refl _) hv hafter hmore⟩

theorem length_skip_le (s : JsString) : (skip s).length ≤ s.length := (spaces_skip s).length_le

theorem Reads.object_succ {n : Nat} {l : List (JsString × Json)} (h : Reads n)
    (hl : Members s l t) (hn : 3 * s.length + 3 ≤ n + 1) :
    parseObject (n + 1) (openBrace :: s) = some (.object l, t) := by
  obtain ⟨rest, hskip, hmembers⟩ := hl.skipped
  have hlength := length_skip_le s
  have hread := h.members _ _ _ hmembers (by omega)
  have hbrace : quote ≠ closeBrace := by decide
  simp only [parseObject, List.drop_one, List.tail_cons]
  rw [if_neg (by simpa [hskip] using hbrace), hread, Option.map_some]

theorem Reads.array_succ {n : Nat} {l : List Json} (h : Reads n) (hl : Elements s l t)
    (hn : 3 * s.length + 3 ≤ n + 1) :
    parseArray (n + 1) (openBracket :: s) = some (.array l, t) := by
  obtain ⟨c, rest, hskip, hc, helements⟩ := hl.skipped
  have hlength := length_skip_le s
  have hread := h.elements _ _ _ helements (by omega)
  simp only [parseArray, List.drop_one, List.tail_cons]
  rw [if_neg (by simpa [hskip] using hc), hread, Option.map_some]

theorem Reads.members_succ {n : Nat} {l : List (JsString × Json)} (h : Reads n)
    (hl : Members s l t) (hn : 3 * s.length + 2 ≤ n + 1) :
    parseMembers (n + 1) s = some (l, t) := by
  have hbrace : closeBrace ≠ comma := by decide
  cases hl with
  | @last _ s₁ s₂ s₃ s₄ s₅ _ name v hbefore hname hcolon hspace hv hafter =>
    have hstart := hbefore.skip_eq_of_stops hname.stops_space
    have hmark := hcolon.skip_eq_of_stops (stops_cons.2 (by decide))
    have hend := hafter.skip_eq_of_stops (stops_cons.2 (by decide))
    have hshort := hname.length_lt.trans_le hbefore.length_le
    have hvalue := h.value_spaces hspace hv (hafter.stops_mark (by decide)) (by
      have hrest := hcolon.length_lt
      omega)
    simp [parseMembers, hstart, stringToken_eq_some.2 hname, hmark, hvalue, hend]
  | @more _ s₁ s₂ s₃ s₄ s₅ s₆ _ name v l hbefore hname hcolon hspace hv hafter hmore =>
    have hstart := hbefore.skip_eq_of_stops hname.stops_space
    have hmark := hcolon.skip_eq_of_stops (stops_cons.2 (by decide))
    have hend := hafter.skip_eq_of_stops (stops_cons.2 (by decide))
    have hshort := hname.length_lt.trans_le hbefore.length_le
    have hrest := hcolon.length_lt
    have hlength := hafter.length_lt.trans (hv.length_lt.trans_le hspace.length_le)
    have hvalue := h.value_spaces hspace hv (hafter.stops_mark (by decide)) (by omega)
    have hread := h.members _ _ _ hmore (by omega)
    simp [parseMembers, hstart, stringToken_eq_some.2 hname, hmark, hvalue, hend, hread, hbrace.symm]

theorem Reads.elements_succ {n : Nat} {l : List Json} (h : Reads n) (hl : Elements s l t)
    (hn : 3 * s.length + 2 ≤ n + 1) : parseElements (n + 1) s = some (l, t) := by
  have hbracket : closeBracket ≠ comma := by decide
  cases hl with
  | last hbefore hv hafter =>
    have hend := hafter.skip_eq_of_stops (stops_cons.2 (by decide))
    have hvalue := h.value_spaces hbefore hv (hafter.stops_mark (by decide)) (by omega)
    simp [parseElements, hvalue, hend]
  | more hbefore hv hafter hmore =>
    have hend := hafter.skip_eq_of_stops (stops_cons.2 (by decide))
    have hlength := hafter.length_lt.trans (hv.length_lt.trans_le hbefore.length_le)
    have hvalue := h.value_spaces hbefore hv (hafter.stops_mark (by decide)) (by omega)
    have hread := h.elements _ _ _ hmore (by omega)
    simp [parseElements, hvalue, hend, hread, hbracket.symm]

/-- Runs of every depth read what the grammar derives. -/
theorem reads (n : Nat) : Reads n := by
  induction n with
  | zero =>
    refine ⟨fun _ _ _ _ _ hn => ?_, fun _ _ _ _ hn => ?_, fun _ _ _ _ hn => ?_,
      fun _ _ _ _ hn => ?_, fun _ _ _ _ hn => ?_⟩ <;> omega
  | succ n ih =>
    exact ⟨fun _ _ _ => ih.value_succ, fun _ _ _ => ih.object_succ, fun _ _ _ => ih.members_succ,
      fun _ _ _ => ih.array_succ, fun _ _ _ => ih.elements_succ⟩

end Completeness

/-! ## The parser reads nothing else -/

section Soundness

variable {s t : JsString} {v : Json}

/-- What runs of this depth read, the grammar derives. -/
structure Derives (n : Nat) : Prop where
  value : ∀ s v t, parseValue n s = some (v, t) → ∃ s₁, Spaces s s₁ ∧ Value s₁ v t
  object : ∀ s v t, parseObject n (openBrace :: s) = some (v, t) → Value (openBrace :: s) v t
  members : ∀ s l t, parseMembers n s = some (l, t) → Members s l t
  array : ∀ s v t, parseArray n (openBracket :: s) = some (v, t) → Value (openBracket :: s) v t
  elements : ∀ s l t, parseElements n s = some (l, t) → Elements s l t

theorem eq_cons_of_head? {c : CodeUnit} (h : s.head? = some c) : s = c :: s.drop 1 := by
  cases s with
  | nil => cases h
  | cons d s =>
    obtain rfl : d = c := by simpa using h
    rfl

theorem Derives.value_succ {n : Nat} (h : Derives n) (hread : parseValue (n + 1) s = some (v, t)) :
    ∃ s₁, Spaces s s₁ ∧ Value s₁ v t := by
  refine ⟨skip s, spaces_skip s, ?_⟩
  simp only [parseValue] at hread
  by_cases hquote : (skip s).head? = some quote
  · rw [if_pos hquote] at hread
    obtain ⟨⟨text, t'⟩, htoken, hpair⟩ := Option.map_eq_some_iff.1 hread
    cases hpair
    exact .string (stringToken_eq_some.1 htoken)
  rw [if_neg hquote] at hread
  by_cases hbrace : (skip s).head? = some openBrace
  · rw [if_pos hbrace, eq_cons_of_head? hbrace] at hread
    exact eq_cons_of_head? hbrace ▸ h.object _ _ _ hread
  rw [if_neg hbrace] at hread
  by_cases hbracket : (skip s).head? = some openBracket
  · rw [if_pos hbracket, eq_cons_of_head? hbracket] at hread
    exact eq_cons_of_head? hbracket ▸ h.array _ _ _ hread
  rw [if_neg hbracket] at hread
  exact parseScalar_sound hread

/-- The white space before the mark that a string goes on with. -/
theorem spaces_of_mark {c : CodeUnit} (h : (skip s).head? = some c) :
    Spaces s (c :: (skip s).drop 1) :=
  eq_cons_of_head? h ▸ spaces_skip s

theorem Members.of_skip {l : List (JsString × Json)} (h : Members (skip s) l t) : Members s l t := by
  cases h with
  | last hbefore hname hcolon hspace hv hafter =>
    exact .last ((spaces_skip s).trans hbefore) hname hcolon hspace hv hafter
  | more hbefore hname hcolon hspace hv hafter hmore =>
    exact .more ((spaces_skip s).trans hbefore) hname hcolon hspace hv hafter hmore

theorem Elements.of_skip {l : List Json} (h : Elements (skip s) l t) : Elements s l t := by
  cases h with
  | last hbefore hv hafter => exact .last ((spaces_skip s).trans hbefore) hv hafter
  | more hbefore hv hafter hmore => exact .more ((spaces_skip s).trans hbefore) hv hafter hmore

theorem Derives.object_succ {n : Nat} (h : Derives n)
    (hread : parseObject (n + 1) (openBrace :: s) = some (v, t)) : Value (openBrace :: s) v t := by
  simp only [parseObject, List.drop_one, List.tail_cons] at hread
  by_cases hclose : (skip s).head? = some closeBrace
  · rw [if_pos hclose] at hread
    cases hread
    exact .emptyObject (List.drop_one ▸ spaces_of_mark hclose)
  · rw [if_neg hclose] at hread
    obtain ⟨⟨l, t'⟩, hmembers, hpair⟩ := Option.map_eq_some_iff.1 hread
    cases hpair
    exact .object (h.members _ _ _ hmembers).of_skip

theorem Derives.array_succ {n : Nat} (h : Derives n)
    (hread : parseArray (n + 1) (openBracket :: s) = some (v, t)) :
    Value (openBracket :: s) v t := by
  simp only [parseArray, List.drop_one, List.tail_cons] at hread
  by_cases hclose : (skip s).head? = some closeBracket
  · rw [if_pos hclose] at hread
    cases hread
    exact .emptyArray (List.drop_one ▸ spaces_of_mark hclose)
  · rw [if_neg hclose] at hread
    obtain ⟨⟨l, t'⟩, helements, hpair⟩ := Option.map_eq_some_iff.1 hread
    cases hpair
    exact .array (h.elements _ _ _ helements).of_skip

theorem Derives.members_succ {n : Nat} {l : List (JsString × Json)} (h : Derives n)
    (hread : parseMembers (n + 1) s = some (l, t)) : Members s l t := by
  obtain ⟨name, s₂, v, s₅, hname, hcolon, hvalue, hend⟩ := parseMembers_eq_some.1 hread
  obtain ⟨s₄, hspace, hv⟩ := h.value _ _ _ hvalue
  have htoken := stringToken_eq_some.1 hname
  have hmark := spaces_of_mark hcolon
  rcases hend with ⟨hclose, rfl, rfl⟩ | ⟨hcomma, l', hmembers, rfl⟩
  · exact .last (spaces_skip s) htoken hmark hspace hv (spaces_of_mark hclose)
  · exact .more (spaces_skip s) htoken hmark hspace hv (spaces_of_mark hcomma)
      (h.members _ _ _ hmembers)

theorem Derives.elements_succ {n : Nat} {l : List Json} (h : Derives n)
    (hread : parseElements (n + 1) s = some (l, t)) : Elements s l t := by
  obtain ⟨v, s₂, hvalue, hend⟩ := parseElements_eq_some.1 hread
  obtain ⟨s₁, hspace, hv⟩ := h.value _ _ _ hvalue
  rcases hend with ⟨hclose, rfl, rfl⟩ | ⟨hcomma, l', helements, rfl⟩
  · exact .last hspace hv (spaces_of_mark hclose)
  · exact .more hspace hv (spaces_of_mark hcomma) (h.elements _ _ _ helements)

theorem derives (n : Nat) : Derives n := by
  induction n with
  | zero =>
    refine ⟨fun _ _ _ h => ?_, fun _ _ _ h => ?_, fun _ _ _ h => ?_, fun _ _ _ h => ?_,
      fun _ _ _ h => ?_⟩ <;> cases h
  | succ n ih =>
    exact ⟨fun _ _ _ => ih.value_succ, fun _ _ _ => ih.object_succ, fun _ _ _ => ih.members_succ,
      fun _ _ _ => ih.array_succ, fun _ _ _ => ih.elements_succ⟩

end Soundness

/-- The parser reads exactly the texts. -/
theorem parse_eq_some {s : JsString} {v : Json} : parse s = some v ↔ IsText s v := by
  simp only [parse, Option.bind_eq_bind, Option.bind_eq_some_iff, Prod.exists]
  constructor
  · rintro ⟨v', t, hread, hend⟩
    obtain ⟨s₁, hspace, hv⟩ := (derives _).value _ _ _ hread
    by_cases ht : skip t = []
    · rw [if_pos ht] at hend
      cases hend
      exact ⟨s₁, t, hspace, hv, ht ▸ spaces_skip t⟩
    · rw [if_neg ht] at hend
      cases hend
  · rintro ⟨s₁, t, hspace, hv, hend⟩
    have hread := (reads (depthBound s)).value_spaces hspace hv (hend.stops_number stops_nil)
      (by rw [depthBound]; omega)
    refine ⟨v, t, hread, if_pos ?_⟩
    exact hend.skip_eq_of_stops stops_nil

/-- A text that begins with a quote is a string. -/
theorem parse_quote {s : JsString} {v : Json} :
    parse (quote :: s) = some v ↔ ∃ text t, Chars s text t ∧ skip t = [] ∧ v = .string text := by
  have hread : parseValue (depthBound (quote :: s)) (quote :: s) =
      (stringToken (quote :: s)).map fun (text, t) => (.string text, t) := parseValue_quote _ s
  have htoken : stringToken (quote :: s) = chars s := by simp [stringToken]
  simp only [parse, hread, htoken, Option.bind_eq_bind, Option.bind_eq_some_iff,
    Option.map_eq_some_iff, Prod.exists, Prod.mk.injEq, Option.ite_none_right_eq_some,
    Option.some.injEq]
  constructor
  · rintro ⟨_, _, ⟨text, t, hchars, rfl, rfl⟩, hend, rfl⟩
    exact ⟨text, t, chars_eq_some.1 hchars, hend, rfl⟩
  · rintro ⟨text, t, hchars, hend, rfl⟩
    exact ⟨_, _, ⟨text, t, chars_eq_some.2 hchars, rfl, rfl⟩, hend, rfl⟩

/-! ## The value of a text -/

end Json

/-- A value of JavaScript over the numbers `ν`: an object is its own properties, in the order in
which they were created. -/
inductive JsValue (ν : Type)
  | null
  | boolean (value : Bool)
  | number (value : ν)
  | string (text : JsString)
  | array (elements : List (JsValue ν))
  | object (properties : List (JsString × JsValue ν))

/-- Defines a property: where the object has it already, in its place. -/
def defineProperty {α : Type} (properties : List (JsString × α)) (name : JsString) (value : α) :
    List (JsString × α) :=
  if name ∈ properties.map Prod.fst then
    properties.map fun property => if property.1 = name then (name, value) else property
  else properties ++ [(name, value)]

namespace Json

section Evaluation

variable {ν : Type} (number : JsString → ν)

mutual

/-- The value of a tree, with the number that a numeral stands for. -/
def evaluate : Json → JsValue ν
  | .null => .null
  | .bool b => .boolean b
  | .number text => .number (number text)
  | .string text => .string text
  | .array l => .array (evaluateElements l)
  | .object l => .object (evaluateMembers [] l)

def evaluateElements : List Json → List (JsValue ν)
  | [] => []
  | v :: l => evaluate v :: evaluateElements l

def evaluateMembers (properties : List (JsString × JsValue ν)) :
    List (JsString × Json) → List (JsString × JsValue ν)
  | [] => properties
  | (name, v) :: l => evaluateMembers (defineProperty properties name (evaluate v)) l

end

/-- `JSON.parse`. -/
def jsonParse (source : JsString) : Option (JsValue ν) := (parse source).map (evaluate number)

end Evaluation

/-- A string is the text of at most one tree. -/
theorem IsText.unique {s : JsString} {v w : Json} (hv : IsText s v) (hw : IsText s w) : v = w :=
  Option.some.inj ((parse_eq_some.2 hv).symm.trans (parse_eq_some.2 hw))

end Json

end HailProto.Server
