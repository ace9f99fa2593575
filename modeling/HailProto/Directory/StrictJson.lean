import HailProto.Core.Outcome
import HailProto.Server.Json

/-!
# JSON without duplicate members

`strict-json.ts` reads the answers of directories with a parser of its own, by recursive descent
over a shared position. The position is kept here as the rest of the source from it on. The parser
goes through a source as the parser of the grammar does, and stops where a value is nested too
deep or a member has a name that its object has already.
-/

namespace HailProto.Directory

open Server Server.Json

/-- How the parser ends without a value. `exhausted` is the end of the recursion that the depth of
a run bounds, which the source does not have. -/
inductive StrictJsonFault
  | thrown (message : JsString)
  | syntaxError
  | exhausted
  deriving DecidableEq

namespace StrictJson

abbrev throwMessage {α : Type} (message : String) : Except StrictJsonFault α :=
  .error (.thrown (js message))

def whitespace : JsString → JsString
  | [] => []
  | c :: source =>
    if c = 0x09 ∨ c = 0x0a ∨ c = 0x0d ∨ c = 0x20 then whitespace source else c :: source

/-- The loop of `string`: what it passes over up to the closing quote, and the rest. -/
def closing : JsString → Option (JsString × JsString)
  | [] => none
  | c :: source =>
    if c = quote then some ([c], source)
    else if c = backslash then
      match source with
      | [] => none
      | escaped :: source =>
        (closing source).map fun (token, rest) => (c :: escaped :: token, rest)
    else (closing source).map fun (token, rest) => (c :: token, rest)

def string (source : JsString) : Except StrictJsonFault (JsString × JsString) :=
  if source.head? ≠ some quote then throwMessage "Expected JSON string"
  else
    match closing (source.drop 1) with
    | none => throwMessage "Unterminated JSON string"
    | some (token, rest) =>
      match Json.parse (quote :: token) with
      | some (.string text) => .ok (text, rest)
      | _ => .error .syntaxError

section Values

variable {ν : Type} (number : JsString → ν)

/-- The three words, and else the match of `^-?(?:0|[1-9]\d*)(?:\.\d+)?(?:[eE][+-]?\d+)?`. -/
def scalar (source : JsString) : Except StrictJsonFault (JsValue ν × JsString) :=
  match source.dropPrefix? (js "true") with
  | some rest => .ok (.boolean true, rest)
  | none =>
    match source.dropPrefix? (js "false") with
    | some rest => .ok (.boolean false, rest)
    | none =>
      match source.dropPrefix? (js "null") with
      | some rest => .ok (.null, rest)
      | none =>
        match matchNumber source with
        | none => throwMessage "Invalid JSON value"
        | some (text, rest) => .ok (.number (number text), rest)

mutual

def value : Nat → Nat → JsString → Except StrictJsonFault (JsValue ν × JsString)
  | 0, _, _ => .error .exhausted
  | n + 1, depth, source =>
    if depth > 32 then throwMessage "JSON nesting is too deep"
    else
      let source := whitespace source
      if source.head? = some quote then
        (string source).map fun (text, rest) => (.string text, rest)
      else if source.head? = some openBrace then object n (depth + 1) source
      else if source.head? = some openBracket then array n (depth + 1) source
      else scalar number source

def object : Nat → Nat → JsString → Except StrictJsonFault (JsValue ν × JsString)
  | 0, _, _ => .error .exhausted
  | n + 1, depth, source =>
    let source := whitespace (source.drop 1)
    if source.head? = some closeBrace then .ok (.object [], source.drop 1)
    else members n depth source [] []

/-- The loop of `object`. -/
def members : Nat → Nat → JsString → List (JsString × JsValue ν) → List JsString →
    Except StrictJsonFault (JsValue ν × JsString)
  | 0, _, _, _, _ => .error .exhausted
  | n + 1, depth, source, result, keys => do
      let (key, source) ← string (whitespace source)
      if key ∈ keys then .error (.thrown (js "Duplicate JSON member: " ++ key))
      else
        let keys := key :: keys
        let source := whitespace source
        if source.head? ≠ some colon then throwMessage "Expected colon after JSON member name"
        else
          let (v, source) ← value n depth (source.drop 1)
          let result := defineProperty result key v
          let source := whitespace source
          if source.head? = some closeBrace then .ok (.object result, source.drop 1)
          else if source.head? ≠ some comma then throwMessage "Expected comma in JSON object"
          else members n depth (source.drop 1) result keys

def array : Nat → Nat → JsString → Except StrictJsonFault (JsValue ν × JsString)
  | 0, _, _ => .error .exhausted
  | n + 1, depth, source =>
    let source := whitespace (source.drop 1)
    if source.head? = some closeBracket then .ok (.array [], source.drop 1)
    else elements n depth source []

/-- The loop of `array`. -/
def elements : Nat → Nat → JsString → List (JsValue ν) →
    Except StrictJsonFault (JsValue ν × JsString)
  | 0, _, _, _ => .error .exhausted
  | n + 1, depth, source, result => do
      let (v, source) ← value n depth source
      let result := result ++ [v]
      let source := whitespace source
      if source.head? = some closeBracket then .ok (.array result, source.drop 1)
      else if source.head? ≠ some comma then throwMessage "Expected comma in JSON array"
      else elements n depth (source.drop 1) result

end

end Values

end StrictJson

open StrictJson in
def parseJsonWithoutDuplicateKeys {ν : Type} (number : JsString → ν) (source : JsString) :
    Except StrictJsonFault (JsValue ν) := do
  let (result, rest) ← value number (depthBound source) 0 source
  if whitespace rest ≠ [] then throwMessage "Unexpected content after JSON value"
  else .ok result

/-- The value `w` is in `v`, enclosed in `n` arrays and objects. -/
inductive Encloses : Json → Nat → Json → Prop
  | self {v : Json} : Encloses v 0 v
  | element {l : List Json} {v w : Json} {n : Nat} (hv : v ∈ l) (hw : Encloses v n w) :
      Encloses (.array l) (n + 1) w
  | member {l : List (JsString × Json)} {m : JsString × Json} {w : Json} {n : Nat} (hm : m ∈ l)
      (hw : Encloses m.2 n w) : Encloses (.object l) (n + 1) w

/-- No object in the value has two members of one name. -/
def DistinctNames (v : Json) : Prop :=
  ∀ n l, Encloses v n (.object l) → (l.map Prod.fst).Nodup

/-- No value in it is enclosed in more than `k` arrays and objects. -/
def NestedWithin (k : Nat) (v : Json) : Prop := ∀ n w, Encloses v n w → n ≤ k

namespace StrictJson

/-! ## Tokens -/

section Tokens

variable {s t text : JsString}

theorem whitespace_eq_skip (s : JsString) : whitespace s = skip s := by
  induction s with
  | nil => rfl
  | cons c s ih =>
    by_cases hc : c = 0x09 ∨ c = 0x0a ∨ c = 0x0d ∨ c = 0x20
    · have hspace : isSpace c = true := by simpa [isSpace, or_assoc] using hc
      rw [whitespace, if_pos hc, ih, skip, skip, List.dropWhile_cons_of_pos hspace]
    · have hspace : ¬isSpace c = true := by simpa [isSpace, or_assoc] using hc
      rw [whitespace, if_neg hc, skip, List.dropWhile_cons_of_neg hspace]

theorem ne_of_hexDigit {c : CodeUnit} {d : Nat} (h : hexDigit c = some d) :
    c ≠ quote ∧ c ≠ backslash := by
  have hquote : hexDigit quote = none := by decide
  have hback : hexDigit backslash = none := by decide
  constructor
  · rintro rfl
    cases hquote.symm.trans h
  · rintro rfl
    cases hback.symm.trans h

theorem hexDigits_of_hexUnit {a b c d u : CodeUnit} (h : hexUnit a b c d = some u) :
    ∀ x ∈ [a, b, c, d], x ≠ quote ∧ x ≠ backslash := by
  simp only [hexUnit, Option.bind_eq_bind, Option.bind_eq_some_iff] at h
  obtain ⟨a', ha, b', hb, c', hc, d', hd, -⟩ := h
  simp only [List.forall_mem_cons]
  exact ⟨ne_of_hexDigit ha, ne_of_hexDigit hb, ne_of_hexDigit hc, ne_of_hexDigit hd, by simp⟩

theorem closing_quote (s : JsString) : closing (quote :: s) = some ([quote], s) := by
  rw [closing.eq_def (_ :: _)]
  simp only [if_true]

theorem closing_plain {c : CodeUnit} (hc : c ≠ quote ∧ c ≠ backslash) (s : JsString) :
    closing (c :: s) = (closing s).map fun (token, rest) => (c :: token, rest) := by
  rw [closing.eq_def (_ :: _)]
  simp only [hc.1, hc.2, if_false]

theorem closing_escape (c : CodeUnit) (s : JsString) :
    closing (backslash :: c :: s) =
      (closing s).map fun (token, rest) => (backslash :: c :: token, rest) := by
  have hquote : backslash ≠ quote := by decide
  rw [closing.eq_def (_ :: _)]
  simp only [hquote, if_false, if_true]

/-- A string is passed over up to its closing quote, and stands for its text without the rest. -/
theorem closing_of_chars (h : Chars s text t) :
    ∃ token, closing s = some (token, t) ∧ Chars token text [] ∧ s = token ++ t := by
  induction h with
  | close => exact ⟨[quote], closing_quote _, .close, rfl⟩
  | plain hc _ ih =>
    obtain ⟨token, hclosing, hchars, rfl⟩ := ih
    exact ⟨_, by rw [closing_plain hc.2, hclosing]; rfl, .plain hc hchars, rfl⟩
  | simple hc _ ih =>
    obtain ⟨token, hclosing, hchars, rfl⟩ := ih
    exact ⟨_, by rw [closing_escape, hclosing]; rfl, .simple hc hchars, rfl⟩
  | @unicode a b c d u s text t hu _ ih =>
    obtain ⟨token, hclosing, hchars, rfl⟩ := ih
    have hplain := hexDigits_of_hexUnit hu
    refine ⟨backslash :: 0x75 :: a :: b :: c :: d :: token, ?_, .unicode hu hchars, rfl⟩
    rw [closing_escape, closing_plain (hplain a (by simp)), closing_plain (hplain b (by simp)),
      closing_plain (hplain c (by simp)), closing_plain (hplain d (by simp)), hclosing]
    rfl

theorem closing_append (h : closing s = some (text, t)) :
    s = text ++ t ∧ ∀ u, closing (text ++ u) = some (text, u) := by
  fun_induction closing s generalizing text t with
  | case1 => cases h
  | case2 s =>
    obtain ⟨rfl, rfl⟩ : [quote] = text ∧ s = t := by simpa using h
    exact ⟨rfl, fun u => closing_quote u⟩
  | case3 => cases h
  | case4 c s _ ih =>
    obtain ⟨token, hrest, rfl⟩ : ∃ token, closing s = some (token, t) ∧
        backslash :: c :: token = text := by
      simpa [Option.map_eq_some_iff] using h
    obtain ⟨rfl, hagain⟩ := ih hrest
    refine ⟨rfl, fun u => ?_⟩
    rw [List.cons_append, List.cons_append, closing_escape, hagain]
    rfl
  | case5 c s hquote hback ih =>
    obtain ⟨token, hrest, rfl⟩ : ∃ token, closing s = some (token, t) ∧ c :: token = text := by
      simpa [Option.map_eq_some_iff] using h
    obtain ⟨rfl, hagain⟩ := ih hrest
    refine ⟨rfl, fun u => ?_⟩
    rw [List.cons_append, closing_plain ⟨hquote, hback⟩, hagain]
    rfl

/-- `string` reads the strings of the grammar. -/
theorem string_eq_ok : string s = .ok (text, t) ↔ stringToken s = some (text, t) := by
  rw [stringToken_eq_some]
  constructor
  · intro h
    by_cases hhead : s.head? = some quote
    swap
    · simp [string, hhead, throwMessage] at h
    refine ⟨s.drop 1, eq_cons_of_head? hhead, ?_⟩
    rw [string, if_neg (not_not.2 hhead)] at h
    generalize s.drop 1 = source at h ⊢
    cases hclosing : closing source with
    | none => simp [hclosing, throwMessage] at h
    | some pair =>
      obtain ⟨token, rest⟩ := pair
      simp only [hclosing] at h
      split at h
      · next text' hparse =>
          cases h
          -- the token ends where its string does
          obtain ⟨_, s₂, hchars, -, htext⟩ := parse_quote.1 hparse
          cases htext
          obtain ⟨hsource, hagain⟩ := closing_append hclosing
          obtain ⟨token', hclosing', -, -⟩ := closing_of_chars hchars
          have hwhole : closing token = some (token, []) := by
            simpa using hagain []
          obtain rfl : s₂ = [] := by
            rw [hwhole, Option.some.injEq, Prod.mk.injEq] at hclosing'
            exact hclosing'.2.symm
          exact hsource ▸ hchars.append t
      · cases h
  · rintro ⟨rest, rfl, hrest⟩
    obtain ⟨token, hclosing, hchars, rfl⟩ := closing_of_chars hrest
    have hparse : Json.parse (quote :: token) = some (.string text) :=
      parse_quote.2 ⟨text, [], hchars, rfl, rfl⟩
    simp [string, hclosing, hparse]

theorem string_ne_exhausted (s : JsString) : string s ≠ .error .exhausted := by
  intro h
  by_cases hhead : s.head? = some quote
  · rw [string, if_neg (not_not.2 hhead)] at h
    split at h
    · cases h
    · split at h <;> cases h
  · simp [string, hhead, throwMessage] at h

end Tokens

/-! ## What is admitted -/

/-- A value at this depth is within the limit, and its objects have distinct names. -/
def Admitted (depth : Nat) (v : Json) : Prop :=
  ∀ n w, Encloses v n w → depth + n ≤ 32 ∧ ∀ l, w = .object l → (l.map Prod.fst).Nodup

section Admitted

variable {depth : Nat} {v : Json}

theorem Admitted.depth_le (h : Admitted depth v) : depth ≤ 32 := (h 0 v .self).1

theorem admitted_atom (hatom : ∀ n w, Encloses v n w → n = 0 ∧ w = v)
    (hobject : ∀ l, v ≠ .object l) : Admitted depth v ↔ depth ≤ 32 := by
  refine ⟨Admitted.depth_le, fun hdepth n w hw => ?_⟩
  obtain ⟨rfl, rfl⟩ := hatom n w hw
  exact ⟨hdepth, fun l hl => absurd hl (hobject l)⟩

theorem admitted_array {l : List Json} :
    Admitted depth (.array l) ↔ depth ≤ 32 ∧ ∀ v ∈ l, Admitted (depth + 1) v := by
  constructor
  · intro h
    refine ⟨h.depth_le, fun v hv n w hw => ?_⟩
    obtain ⟨hle, hnames⟩ := h _ _ (.element hv hw)
    exact ⟨by omega, hnames⟩
  · rintro ⟨hdepth, hall⟩ n w hw
    cases hw with
    | self => exact ⟨hdepth, fun l hl => by cases hl⟩
    | element hv hw =>
      obtain ⟨hle, hnames⟩ := hall _ hv _ _ hw
      exact ⟨by omega, hnames⟩

theorem admitted_object {l : List (JsString × Json)} : Admitted depth (.object l) ↔
    depth ≤ 32 ∧ (l.map Prod.fst).Nodup ∧ ∀ m ∈ l, Admitted (depth + 1) m.2 := by
  constructor
  · intro h
    refine ⟨h.depth_le, (h _ _ .self).2 l rfl, fun m hm n w hw => ?_⟩
    obtain ⟨hle, hnames⟩ := h _ _ (.member hm hw)
    exact ⟨by omega, hnames⟩
  · rintro ⟨hdepth, hdistinct, hall⟩ n w hw
    cases hw with
    | self =>
      refine ⟨hdepth, fun l' hl => ?_⟩
      cases hl
      exact hdistinct
    | member hm hw =>
      obtain ⟨hle, hnames⟩ := hall _ hm _ _ hw
      exact ⟨by omega, hnames⟩

/-- A value that is neither an array nor an object is admitted wherever it may stand. -/
theorem admitted_scalar (harray : ∀ l, v ≠ .array l) (hobject : ∀ l, v ≠ .object l) :
    Admitted depth v ↔ depth ≤ 32 := by
  refine admitted_atom (fun n w hw => ?_) hobject
  cases hw with
  | self => exact ⟨rfl, rfl⟩
  | element => exact absurd rfl (harray _)
  | member => exact absurd rfl (hobject _)

theorem admitted_zero : Admitted 0 v ↔ DistinctNames v ∧ NestedWithin 32 v := by
  constructor
  · intro h
    exact ⟨fun n l hl => (h n _ hl).2 l rfl, fun n w hw => by simpa using (h n w hw).1⟩
  · rintro ⟨hnames, hnested⟩ n w hw
    refine ⟨by simpa using hnested n w hw, fun l hl => ?_⟩
    subst hl
    exact hnames n l hw

end Admitted

/-! ## The parser and the parser of the grammar -/

section Simulation

variable {ν : Type} {number : JsString → ν} {n depth : Nat} {s t : JsString}

theorem scalar_eq_ok {v : JsValue ν} : scalar number s = .ok (v, t) ↔
    ∃ tree, parseScalar s = some (tree, t) ∧ v = tree.evaluate number := by
  unfold scalar parseScalar
  cases s.dropPrefix? (js "true") with
  | some rest => simp [evaluate, eq_comm, and_comm]
  | none =>
    cases s.dropPrefix? (js "false") with
    | some rest => simp [evaluate, eq_comm, and_comm]
    | none =>
      cases s.dropPrefix? (js "null") with
      | some rest => simp [evaluate, eq_comm, and_comm]
      | none =>
        cases matchNumber s with
        | none => simp [throwMessage]
        | some pair => simp [evaluate, eq_comm, and_comm]

theorem parseScalar_scalar {tree : Json} (h : parseScalar s = some (tree, t)) :
    (∀ l, tree ≠ .array l) ∧ ∀ l, tree ≠ .object l := by
  unfold parseScalar at h
  repeat' split at h
  all_goals first | (cases h; simp) | skip
  obtain ⟨_, -, hpair⟩ := Option.map_eq_some_iff.1 h
  cases hpair
  simp

/-- The members of an object that the parser admits, when its object has these keys already. -/
def AdmittedMembers (depth : Nat) (keys : List JsString) (l : List (JsString × Json)) : Prop :=
  (l.map Prod.fst).Nodup ∧ (∀ m ∈ l, m.1 ∉ keys) ∧ ∀ m ∈ l, Admitted depth m.2

theorem admittedMembers_cons {keys : List JsString} {m : JsString × Json}
    {l : List (JsString × Json)} : AdmittedMembers depth keys (m :: l) ↔
      m.1 ∉ keys ∧ Admitted depth m.2 ∧ AdmittedMembers depth (m.1 :: keys) l := by
  simp only [AdmittedMembers, List.map_cons, List.nodup_cons, List.mem_map, List.mem_cons, not_or,
    not_exists, not_and, forall_eq_or_imp]
  constructor
  · rintro ⟨⟨hfresh, hdistinct⟩, ⟨hkey, hkeys⟩, hm, hall⟩
    exact ⟨hkey, hm, hdistinct, fun x hx => ⟨fun he => hfresh x hx he, hkeys x hx⟩, hall⟩
  · rintro ⟨hkey, hm, hdistinct, hfresh, hall⟩
    exact ⟨⟨fun x hx he => (hfresh x hx).1 he, hdistinct⟩, ⟨hkey, fun x hx => (hfresh x hx).2⟩,
      hm, hall⟩

/-- Runs of this depth read what the parser of the grammar reads, where it is admitted. -/
structure Simulates (number : JsString → ν) (n : Nat) : Prop where
  value : ∀ depth s v t, value number n depth s = .ok (v, t) ↔
    ∃ tree, parseValue n s = some (tree, t) ∧ Admitted depth tree ∧ v = tree.evaluate number
  object : ∀ depth s v t, object number n (depth + 1) s = .ok (v, t) ∧ depth ≤ 32 ↔
    ∃ tree, parseObject n s = some (tree, t) ∧ Admitted depth tree ∧ v = tree.evaluate number
  members : ∀ depth s result keys v t, members number n depth s result keys = .ok (v, t) ↔
    ∃ l, parseMembers n s = some (l, t) ∧ AdmittedMembers depth keys l ∧
      v = .object (evaluateMembers number result l)
  array : ∀ depth s v t, array number n (depth + 1) s = .ok (v, t) ∧ depth ≤ 32 ↔
    ∃ tree, parseArray n s = some (tree, t) ∧ Admitted depth tree ∧ v = tree.evaluate number
  elements : ∀ depth s result v t, elements number n depth s result = .ok (v, t) ↔
    ∃ l, parseElements n s = some (l, t) ∧ (∀ w ∈ l, Admitted depth w) ∧
      v = .array (result ++ evaluateElements number l)

theorem Simulates.value_succ {v : JsValue ν} (h : Simulates number n) :
    StrictJson.value number (n + 1) depth s = .ok (v, t) ↔
      ∃ tree, parseValue (n + 1) s = some (tree, t) ∧ Admitted depth tree ∧
        v = tree.evaluate number := by
  simp only [StrictJson.value, parseValue, whitespace_eq_skip]
  by_cases hdepth : depth ≤ 32
  swap
  · rw [if_pos (not_le.1 hdepth)]
    refine ⟨fun hread => absurd hread (by simp), ?_⟩
    rintro ⟨tree, -, hadmitted, -⟩
    exact absurd hadmitted.depth_le hdepth
  rw [if_neg (not_lt.2 hdepth)]
  by_cases hquote : (skip s).head? = some quote
  · rw [if_pos hquote, if_pos hquote]
    constructor
    · intro hread
      obtain ⟨⟨text, rest⟩, hstring, hpair⟩ := map_eq_ok.1 hread
      cases hpair
      refine ⟨.string text, ?_, (admitted_scalar (by simp) (by simp)).2 hdepth, by rw [evaluate]⟩
      rw [string_eq_ok.1 hstring, Option.map_some]
    · rintro ⟨tree, hread, -, rfl⟩
      obtain ⟨⟨text, rest⟩, htoken, hpair⟩ := Option.map_eq_some_iff.1 hread
      cases hpair
      exact map_eq_ok.2 ⟨(text, rest), string_eq_ok.2 htoken, by rw [evaluate]⟩
  rw [if_neg hquote, if_neg hquote]
  by_cases hbrace : (skip s).head? = some openBrace
  · rw [if_pos hbrace, if_pos hbrace, ← h.object, and_iff_left hdepth]
  rw [if_neg hbrace, if_neg hbrace]
  by_cases hbracket : (skip s).head? = some openBracket
  · rw [if_pos hbracket, if_pos hbracket, ← h.array, and_iff_left hdepth]
  rw [if_neg hbracket, if_neg hbracket, scalar_eq_ok]
  refine exists_congr fun tree => and_congr_right fun hread => ?_
  obtain ⟨harray, hobject⟩ := parseScalar_scalar hread
  rw [admitted_scalar harray hobject, and_iff_right hdepth]

theorem Simulates.object_succ {v : JsValue ν} (h : Simulates number n) :
    StrictJson.object number (n + 1) (depth + 1) s = .ok (v, t) ∧ depth ≤ 32 ↔
      ∃ tree, parseObject (n + 1) s = some (tree, t) ∧ Admitted depth tree ∧
        v = tree.evaluate number := by
  simp only [StrictJson.object, parseObject, whitespace_eq_skip]
  by_cases hclose : (skip (s.drop 1)).head? = some closeBrace
  · rw [if_pos hclose, if_pos hclose]
    constructor
    · rintro ⟨hread, hdepth⟩
      cases hread
      exact ⟨_, rfl, admitted_object.2 ⟨hdepth, by simp⟩, by rw [evaluate, evaluateMembers]⟩
    · rintro ⟨tree, hread, hadmitted, rfl⟩
      cases hread
      exact ⟨by rw [evaluate, evaluateMembers], hadmitted.depth_le⟩
  · rw [if_neg hclose, if_neg hclose]
    constructor
    · rintro ⟨hread, hdepth⟩
      obtain ⟨l, hmembers, ⟨hdistinct, -, hall⟩, rfl⟩ := (h.members _ _ _ _ _ _).1 hread
      exact ⟨.object l, by rw [hmembers, Option.map_some],
        admitted_object.2 ⟨hdepth, hdistinct, hall⟩, by rw [evaluate]⟩
    · rintro ⟨tree, hread, hadmitted, rfl⟩
      obtain ⟨⟨l, rest⟩, hmembers, hpair⟩ := Option.map_eq_some_iff.1 hread
      cases hpair
      obtain ⟨hdepth, hdistinct, hall⟩ := admitted_object.1 hadmitted
      exact ⟨(h.members _ _ _ _ _ _).2 ⟨l, hmembers, ⟨hdistinct, by simp, hall⟩, by rw [evaluate]⟩,
        hdepth⟩

theorem Simulates.array_succ {v : JsValue ν} (h : Simulates number n) :
    StrictJson.array number (n + 1) (depth + 1) s = .ok (v, t) ∧ depth ≤ 32 ↔
      ∃ tree, parseArray (n + 1) s = some (tree, t) ∧ Admitted depth tree ∧
        v = tree.evaluate number := by
  simp only [StrictJson.array, parseArray, whitespace_eq_skip]
  by_cases hclose : (skip (s.drop 1)).head? = some closeBracket
  · rw [if_pos hclose, if_pos hclose]
    constructor
    · rintro ⟨hread, hdepth⟩
      cases hread
      exact ⟨_, rfl, admitted_array.2 ⟨hdepth, by simp⟩, by rw [evaluate, evaluateElements]⟩
    · rintro ⟨tree, hread, hadmitted, rfl⟩
      cases hread
      exact ⟨by rw [evaluate, evaluateElements], hadmitted.depth_le⟩
  · rw [if_neg hclose, if_neg hclose]
    constructor
    · rintro ⟨hread, hdepth⟩
      obtain ⟨l, helements, hall, rfl⟩ := (h.elements _ _ _ _ _).1 hread
      exact ⟨.array l, by rw [helements, Option.map_some], admitted_array.2 ⟨hdepth, hall⟩,
        by rw [evaluate, List.nil_append]⟩
    · rintro ⟨tree, hread, hadmitted, rfl⟩
      obtain ⟨⟨l, rest⟩, helements, hpair⟩ := Option.map_eq_some_iff.1 hread
      cases hpair
      obtain ⟨hdepth, hall⟩ := admitted_array.1 hadmitted
      exact ⟨(h.elements _ _ _ _ _).2 ⟨l, helements, hall, by rw [evaluate, List.nil_append]⟩, hdepth⟩

/-- One round of the loop of `object`. -/
theorem members_eq_ok {result : List (JsString × JsValue ν)} {keys : List JsString} {v : JsValue ν} :
    members number (n + 1) depth s result keys = .ok (v, t) ↔ ∃ key s₂ w s₅,
      stringToken (skip s) = some (key, s₂) ∧ (skip s₂).head? = some colon ∧
      StrictJson.value number n depth ((skip s₂).drop 1) = .ok (w, s₅) ∧ key ∉ keys ∧
      ((skip s₅).head? = some closeBrace ∧ v = .object (defineProperty result key w) ∧
          t = (skip s₅).drop 1 ∨
        (skip s₅).head? = some comma ∧ members number n depth ((skip s₅).drop 1)
          (defineProperty result key w) (key :: keys) = .ok (v, t)) := by
  have hbrace : closeBrace ≠ comma := by decide
  simp only [members, whitespace_eq_skip, bind_eq_ok, Prod.exists, string_eq_ok]
  refine exists_congr fun key => exists_congr fun s₂ => ?_
  by_cases hkey : key ∈ keys
  · simp [hkey]
  by_cases hcolon : (skip s₂).head? = some colon
  · simp only [hkey, hcolon, ne_eq, not_true_eq_false, not_false_eq_true, if_false, true_and,
      bind_eq_ok, Prod.exists, ← exists_and_left]
    refine exists_congr fun w => exists_congr fun s₅ => and_congr_right fun _ =>
      and_congr_right fun _ => ?_
    by_cases hclose : (skip s₅).head? = some closeBrace
    · simp [hclose, hbrace.symm, eq_comm]
    · by_cases hcomma : (skip s₅).head? = some comma
      · simp [hcomma, hbrace.symm]
      · simp [hclose, hcomma, throwMessage]
  · simp [hkey, hcolon, throwMessage]

/-- One round of the loop of `array`. -/
theorem elements_eq_ok {result : List (JsValue ν)} {v : JsValue ν} :
    elements number (n + 1) depth s result = .ok (v, t) ↔ ∃ w s₂,
      StrictJson.value number n depth s = .ok (w, s₂) ∧
      ((skip s₂).head? = some closeBracket ∧ v = .array (result ++ [w]) ∧ t = (skip s₂).drop 1 ∨
        (skip s₂).head? = some comma ∧
          elements number n depth ((skip s₂).drop 1) (result ++ [w]) = .ok (v, t)) := by
  have hbracket : closeBracket ≠ comma := by decide
  simp only [elements, whitespace_eq_skip, bind_eq_ok, Prod.exists]
  refine exists_congr fun w => exists_congr fun s₂ => and_congr_right fun _ => ?_
  by_cases hclose : (skip s₂).head? = some closeBracket
  · simp [hclose, hbracket.symm, eq_comm]
  · by_cases hcomma : (skip s₂).head? = some comma
    · simp [hcomma, hbracket.symm]
    · simp [hclose, hcomma, throwMessage]

theorem Simulates.members_succ {result : List (JsString × JsValue ν)} {keys : List JsString}
    {v : JsValue ν} (h : Simulates number n) :
    StrictJson.members number (n + 1) depth s result keys = .ok (v, t) ↔
      ∃ l, parseMembers (n + 1) s = some (l, t) ∧ AdmittedMembers depth keys l ∧
        v = .object (evaluateMembers number result l) := by
  rw [members_eq_ok]
  constructor
  · rintro ⟨key, s₂, w, s₅, hkey, hcolon, hvalue, hfresh, hend⟩
    obtain ⟨tree, htree, hadmitted, rfl⟩ := (h.value _ _ _ _).1 hvalue
    rcases hend with ⟨hclose, rfl, rfl⟩ | ⟨hcomma, hrest⟩
    · refine ⟨[(key, tree)], parseMembers_eq_some.2 ⟨key, s₂, tree, s₅, hkey, hcolon, htree,
        .inl ⟨hclose, rfl, rfl⟩⟩, ?_, by rw [evaluateMembers, evaluateMembers]⟩
      exact admittedMembers_cons.2 ⟨hfresh, hadmitted, by simp [AdmittedMembers]⟩
    · obtain ⟨l, hl, hmembers, rfl⟩ := (h.members _ _ _ _ _ _).1 hrest
      refine ⟨(key, tree) :: l, parseMembers_eq_some.2 ⟨key, s₂, tree, s₅, hkey, hcolon, htree,
        .inr ⟨hcomma, l, hl, rfl⟩⟩, ?_, by rw [evaluateMembers]⟩
      exact admittedMembers_cons.2 ⟨hfresh, hadmitted, hmembers⟩
  · rintro ⟨l, hread, hl, rfl⟩
    obtain ⟨key, s₂, tree, s₅, hkey, hcolon, htree, hend⟩ := parseMembers_eq_some.1 hread
    rcases hend with ⟨hclose, rfl, rfl⟩ | ⟨hcomma, l', hrest, rfl⟩
    · obtain ⟨hfresh, hadmitted, -⟩ := admittedMembers_cons.1 hl
      refine ⟨key, s₂, _, s₅, hkey, hcolon, (h.value _ _ _ _).2 ⟨tree, htree, hadmitted, rfl⟩,
        hfresh, .inl ⟨hclose, ?_, rfl⟩⟩
      rw [evaluateMembers, evaluateMembers]
    · obtain ⟨hfresh, hadmitted, hmembers⟩ := admittedMembers_cons.1 hl
      refine ⟨key, s₂, _, s₅, hkey, hcolon, (h.value _ _ _ _).2 ⟨tree, htree, hadmitted, rfl⟩,
        hfresh, .inr ⟨hcomma, (h.members _ _ _ _ _ _).2 ⟨l', hrest, hmembers, ?_⟩⟩⟩
      rw [evaluateMembers]

theorem Simulates.elements_succ {result : List (JsValue ν)} {v : JsValue ν}
    (h : Simulates number n) :
    StrictJson.elements number (n + 1) depth s result = .ok (v, t) ↔
      ∃ l, parseElements (n + 1) s = some (l, t) ∧ (∀ w ∈ l, Admitted depth w) ∧
        v = .array (result ++ evaluateElements number l) := by
  rw [elements_eq_ok]
  constructor
  · rintro ⟨w, s₂, hvalue, hend⟩
    obtain ⟨tree, htree, hadmitted, rfl⟩ := (h.value _ _ _ _).1 hvalue
    rcases hend with ⟨hclose, rfl, rfl⟩ | ⟨hcomma, hrest⟩
    · refine ⟨[tree], parseElements_eq_some.2 ⟨tree, s₂, htree, .inl ⟨hclose, rfl, rfl⟩⟩, ?_,
        by rw [evaluateElements, evaluateElements]⟩
      simpa using hadmitted
    · obtain ⟨l, hl, hall, rfl⟩ := (h.elements _ _ _ _ _).1 hrest
      refine ⟨tree :: l, parseElements_eq_some.2 ⟨tree, s₂, htree, .inr ⟨hcomma, l, hl, rfl⟩⟩,
        List.forall_mem_cons.2 ⟨hadmitted, hall⟩, ?_⟩
      rw [evaluateElements, List.append_assoc, List.singleton_append]
  · rintro ⟨l, hread, hl, rfl⟩
    obtain ⟨tree, s₂, htree, hend⟩ := parseElements_eq_some.1 hread
    rcases hend with ⟨hclose, rfl, rfl⟩ | ⟨hcomma, l', hrest, rfl⟩
    · have hvalue := (h.value depth _ _ _).2 ⟨tree, htree, hl tree (.head _), rfl⟩
      refine ⟨_, s₂, hvalue, .inl ⟨hclose, ?_, rfl⟩⟩
      rw [evaluateElements, evaluateElements]
    · obtain ⟨hadmitted, hall⟩ := List.forall_mem_cons.1 hl
      have hvalue := (h.value depth _ _ _).2 ⟨tree, htree, hadmitted, rfl⟩
      refine ⟨_, s₂, hvalue, .inr ⟨hcomma, (h.elements _ _ _ _ _).2 ⟨l', hrest, hall, ?_⟩⟩⟩
      rw [evaluateElements, List.append_assoc, List.singleton_append]

theorem simulates (number : JsString → ν) (n : Nat) : Simulates number n := by
  induction n with
  | zero =>
    constructor <;> intros <;>
      simp [value, object, members, array, elements, parseValue, parseObject, parseMembers,
        parseArray, parseElements]
  | succ n ih =>
    exact ⟨fun _ _ _ _ => ih.value_succ, fun _ _ _ _ => ih.object_succ,
      fun _ _ _ _ _ _ => ih.members_succ, fun _ _ _ _ => ih.array_succ,
      fun _ _ _ _ _ => ih.elements_succ⟩

end Simulation

/-! ## The recursion ends -/

section Termination

variable {ν : Type} {number : JsString → ν} {n depth : Nat} {s t : JsString}

theorem value_length_lt {v : JsValue ν} (h : value number n depth s = .ok (v, t)) :
    t.length < s.length := by
  obtain ⟨tree, hread, -⟩ := ((simulates number n).value _ _ _ _).1 h
  obtain ⟨s₁, hspace, htree⟩ := (derives n).value _ _ _ hread
  exact htree.length_lt.trans_le hspace.length_le

theorem string_length_lt {text : JsString} (h : string s = .ok (text, t)) :
    t.length + 1 < s.length :=
  (stringToken_eq_some.1 (string_eq_ok.1 h)).length_lt

theorem length_whitespace_le (s : JsString) : (whitespace s).length ≤ s.length :=
  whitespace_eq_skip s ▸ length_skip_le s

/-- Runs of this depth do not run out of it on strings that are short enough. -/
structure Finishes (number : JsString → ν) (n : Nat) : Prop where
  value : ∀ depth s, 3 * s.length + 1 ≤ n → value number n depth s ≠ .error .exhausted
  object : ∀ depth c s, 3 * s.length + 3 ≤ n → object number n depth (c :: s) ≠ .error .exhausted
  members : ∀ depth s result keys, 3 * s.length + 2 ≤ n →
    members number n depth s result keys ≠ .error .exhausted
  array : ∀ depth c s, 3 * s.length + 3 ≤ n → array number n depth (c :: s) ≠ .error .exhausted
  elements : ∀ depth s result, 3 * s.length + 2 ≤ n →
    elements number n depth s result ≠ .error .exhausted

theorem scalar_ne_exhausted : scalar number s ≠ .error .exhausted := by
  unfold scalar
  repeat' split
  all_goals simp

theorem Finishes.value_succ (h : Finishes number n) (hn : 3 * s.length + 1 ≤ n + 1) :
    StrictJson.value number (n + 1) depth s ≠ .error .exhausted := by
  have hlength := length_whitespace_le s
  simp only [StrictJson.value]
  refine guard_ne_error (by simp) ?_
  by_cases hquote : (whitespace s).head? = some quote
  · rw [if_pos hquote]
    intro hexhausted
    cases hstring : string (whitespace s) with
    | error fault =>
      rw [hstring] at hexhausted
      cases hexhausted
      exact string_ne_exhausted _ hstring
    | ok pair => simp [hstring, Except.map] at hexhausted
  rw [if_neg hquote]
  by_cases hbrace : (whitespace s).head? = some openBrace
  · have hsource := eq_cons_of_head? hbrace
    have hcons := congrArg List.length hsource
    rw [if_pos hbrace, hsource]
    exact h.object _ _ _ (by simp only [List.length_cons] at hcons; omega)
  rw [if_neg hbrace]
  by_cases hbracket : (whitespace s).head? = some openBracket
  · have hsource := eq_cons_of_head? hbracket
    have hcons := congrArg List.length hsource
    rw [if_pos hbracket, hsource]
    exact h.array _ _ _ (by simp only [List.length_cons] at hcons; omega)
  rw [if_neg hbracket]
  exact scalar_ne_exhausted

theorem Finishes.object_succ {c : CodeUnit} (h : Finishes number n)
    (hn : 3 * s.length + 3 ≤ n + 1) :
    StrictJson.object number (n + 1) depth (c :: s) ≠ .error .exhausted := by
  have hlength := length_whitespace_le s
  simp only [StrictJson.object, List.drop_one, List.tail_cons]
  by_cases hclose : (whitespace s).head? = some closeBrace
  · rw [if_pos hclose]
    simp
  · rw [if_neg hclose]
    exact h.members _ _ _ _ (by omega)

theorem Finishes.array_succ {c : CodeUnit} (h : Finishes number n)
    (hn : 3 * s.length + 3 ≤ n + 1) :
    StrictJson.array number (n + 1) depth (c :: s) ≠ .error .exhausted := by
  have hlength := length_whitespace_le s
  simp only [StrictJson.array, List.drop_one, List.tail_cons]
  by_cases hclose : (whitespace s).head? = some closeBracket
  · rw [if_pos hclose]
    simp
  · rw [if_neg hclose]
    exact h.elements _ _ _ (by omega)

theorem Finishes.members_succ {result : List (JsString × JsValue ν)} {keys : List JsString}
    (h : Finishes number n) (hn : 3 * s.length + 2 ≤ n + 1) :
    StrictJson.members number (n + 1) depth s result keys ≠ .error .exhausted := by
  have hstart := length_whitespace_le s
  simp only [StrictJson.members]
  refine bind_ne_error (string_ne_exhausted _) ?_
  rintro ⟨key, s₂⟩ hstring
  have hkey := string_length_lt hstring
  have hcolon := length_whitespace_le s₂
  dsimp only
  refine guard_ne_error (by simp) (guard_ne_error (by simp) ?_)
  refine bind_ne_error (h.value _ _ (by rw [List.length_drop]; omega)) ?_
  rintro ⟨v, s₅⟩ hvalue
  have hshort := value_length_lt hvalue
  have hend := length_whitespace_le s₅
  rw [List.length_drop] at hshort
  dsimp only
  split
  · simp
  · exact guard_ne_error (by simp) (h.members _ _ _ _ (by rw [List.length_drop]; omega))

theorem Finishes.elements_succ {result : List (JsValue ν)} (h : Finishes number n)
    (hn : 3 * s.length + 2 ≤ n + 1) :
    StrictJson.elements number (n + 1) depth s result ≠ .error .exhausted := by
  simp only [StrictJson.elements]
  refine bind_ne_error (h.value _ _ (by omega)) ?_
  rintro ⟨v, s₂⟩ hvalue
  have hshort := value_length_lt hvalue
  have hend := length_whitespace_le s₂
  dsimp only
  split
  · simp
  · exact guard_ne_error (by simp) (h.elements _ _ _ (by rw [List.length_drop]; omega))

theorem finishes (number : JsString → ν) (n : Nat) : Finishes number n := by
  induction n with
  | zero => constructor <;> intros <;> omega
  | succ n ih =>
    exact ⟨fun _ _ => ih.value_succ, fun _ _ _ => ih.object_succ, fun _ _ _ _ => ih.members_succ,
      fun _ _ _ => ih.array_succ, fun _ _ _ => ih.elements_succ⟩

end Termination

/-- The parser returns exactly for the texts whose objects have distinct names and whose values are
nested within the limit, and returns their values. -/
theorem parse_eq_ok {ν : Type} {number : JsString → ν} {source : JsString} {v : JsValue ν} :
    parseJsonWithoutDuplicateKeys number source = .ok v ↔
      ∃ tree, IsText source tree ∧ Admitted 0 tree ∧ v = tree.evaluate number := by
  simp only [parseJsonWithoutDuplicateKeys, bind_eq_ok, Prod.exists, guard_eq_ok, ne_eq, not_not,
    (simulates number _).value, ← parse_eq_some, Json.parse, Option.bind_eq_bind,
    Option.bind_eq_some_iff, whitespace_eq_skip]
  constructor
  · rintro ⟨w, t, ⟨tree, hread, hadmitted, rfl⟩, hend, hw⟩
    cases hw
    exact ⟨tree, ⟨tree, t, hread, if_pos hend⟩, hadmitted, rfl⟩
  · rintro ⟨tree, ⟨tree', t, hread, hreturn⟩, hadmitted, rfl⟩
    obtain ⟨hend, rfl⟩ : skip t = [] ∧ tree' = tree := by
      simpa [Option.ite_none_right_eq_some] using hreturn
    exact ⟨_, t, ⟨tree', hread, hadmitted, rfl⟩, hend, rfl⟩

end StrictJson

/-- The parser always ends. It accepts a source exactly when it is a text of JSON, no object in it
has two members of one name, and no value in it is enclosed in more than 32 arrays and objects; and
what it returns is what `JSON.parse` returns. -/
theorem parseJsonWithoutDuplicateKeys_spec {ν : Type} (number : JsString → ν) (source : JsString) :
    parseJsonWithoutDuplicateKeys number source ≠ .error .exhausted ∧
    ((parseJsonWithoutDuplicateKeys number source).isOk = true ↔
      ∃ tree, IsText source tree ∧ DistinctNames tree ∧ NestedWithin 32 tree) ∧
    ∀ v, parseJsonWithoutDuplicateKeys number source = .ok v →
      jsonParse number source = some v := by
  refine ⟨?_, ?_, fun v hv => ?_⟩
  · refine bind_ne_error ((StrictJson.finishes number _).value _ _ ?_) ?_
    · rw [depthBound]
      omega
    · rintro ⟨result, rest⟩ -
      exact guard_ne_error (by simp) (by simp)
  · simp only [isOk_iff, StrictJson.parse_eq_ok, StrictJson.admitted_zero]
    constructor
    · rintro ⟨v, tree, htext, hadmitted, -⟩
      exact ⟨tree, htext, hadmitted⟩
    · rintro ⟨tree, htext, hadmitted⟩
      exact ⟨_, tree, htext, hadmitted, rfl⟩
  · obtain ⟨tree, htext, -, rfl⟩ := StrictJson.parse_eq_ok.1 hv
    rw [jsonParse, parse_eq_some.2 htext, Option.map_some]

/-- Names are compared without their escapes. -/
example : (parseJsonWithoutDuplicateKeys id
    (js "\x7b\"a\":1,\"\\u0061\":2\x7d")).isOk = false := by
  decide +kernel

end HailProto.Directory
