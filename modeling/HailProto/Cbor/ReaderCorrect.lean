import HailProto.Cbor.Head

/-!
# What the reader accepts

The reader accepts an item exactly when the unread input begins with the deterministic
encoding of a value within the limits, and then it returns that value and has advanced by
exactly that encoding. The two loops inherit this from their element reader; the item
reader follows by induction on the levels the depth limit leaves.
-/

namespace HailProto.Cbor

/-- The parser after reading `bytes` bytes and opening `items` items. -/
def Parser.advance (p : Parser) (bytes items : Nat) : Parser :=
  { p with offset := p.offset + bytes, items := p.items + items }

@[simp] theorem advance_bytes (p : Parser) (b i : Nat) : (p.advance b i).bytes = p.bytes := rfl

@[simp] theorem advance_limits (p : Parser) (b i : Nat) : (p.advance b i).limits = p.limits := rfl

@[simp] theorem advance_tag18 (p : Parser) (b i : Nat) : (p.advance b i).tag18 = p.tag18 := rfl

@[simp] theorem advance_items (p : Parser) (b i : Nat) : (p.advance b i).items = p.items + i := rfl

@[simp] theorem advance_offset (p : Parser) (b i : Nat) :
    (p.advance b i).offset = p.offset + b := rfl

@[simp] theorem advance_advance (p : Parser) (b i c j : Nat) :
    (p.advance b i).advance c j = p.advance (b + c) (i + j) := by
  simp only [Parser.advance, Nat.add_assoc]

@[simp] theorem advance_zero (p : Parser) : p.advance 0 0 = p := rfl

@[simp] theorem rest_advance (p : Parser) (b i : Nat) : (p.advance b i).rest = p.rest.drop b := by
  simp only [Parser.rest, advance_bytes, advance_offset, List.drop_drop]

/-- The offset stays within the input. -/
def Parser.InBounds (p : Parser) : Prop := p.offset ≤ p.bytes.length

theorem Parser.InBounds.advance {p : Parser} (hp : p.InBounds) {raw : List UInt8} (items : Nat)
    (h : raw <+: p.rest) : (p.advance raw.length items).InBounds := by
  have hl := h.length_le
  simp only [Parser.rest, List.length_drop] at hl
  simp only [Parser.InBounds, advance_offset, advance_bytes] at hp ⊢
  omega

/-- A prefix splits into a first part and a prefix of what follows it. -/
theorem prefix_append_iff {a b l : List UInt8} :
    a ++ b <+: l ↔ a <+: l ∧ b <+: l.drop a.length := by
  constructor
  · rintro ⟨r, rfl⟩
    exact ⟨⟨b ++ r, by simp⟩, ⟨r, by simp⟩⟩
  · rintro ⟨⟨r, rfl⟩, hb⟩
    rw [List.drop_left] at hb
    exact (List.prefix_append_right_inj a).mpr hb

/-- Taking bytes succeeds exactly on a prefix of the unread input. -/
theorem take_eq_ok {p p' : Parser} {count : Nat} {raw : List UInt8} (hp : p.InBounds) :
    p.take count = .ok (raw, p') ↔
      raw.length = count ∧ raw <+: p.rest ∧ p' = p.advance count 0 := by
  have hl : p.rest.length = p.bytes.length - p.offset := by
    rw [Parser.rest, List.length_drop]
  simp only [Parser.InBounds] at hp
  simp only [Parser.take, guard_eq_ok, Except.ok.injEq, Prod.mk.injEq]
  constructor
  · rintro ⟨hlt, rfl, rfl⟩
    exact ⟨by rw [List.length_take]; omega, List.take_prefix _ _, rfl⟩
  · rintro ⟨rfl, hpre, rfl⟩
    have hle := hpre.length_le
    exact ⟨by omega, (List.prefix_iff_eq_take.mp hpre).symm, rfl⟩

/-- The argument of a head is read exactly when it is stated minimally and is safe. -/
theorem argument_eq_ok {p p' : Parser} {info : UInt8} {n : Nat} (hp : p.InBounds) :
    p.argument info = .ok (n, p') ↔ n ≤ maxSafe ∧
      ∃ raw, IsArgument info raw n ∧ raw <+: p.rest ∧ p' = p.advance raw.length 0 := by
  have hfold (raw : List UInt8) :
      raw.foldl (fun n b => n <<< 8 ||| b.toNat) 0 = beValue raw := foldl_shift_or raw 0
  unfold Parser.argument
  by_cases hi : info < 24
  · have hn : info.toNat < 24 := UInt8.lt_iff_toNat_lt.mp hi
    simp only [hi, if_true, Except.ok.injEq, Prod.mk.injEq]
    constructor
    · rintro ⟨rfl, rfl⟩
      exact ⟨by unfold maxSafe; omega, [], Or.inl ⟨hi, rfl, rfl⟩, List.nil_prefix, rfl⟩
    · rintro ⟨_, raw, (⟨_, rfl, rfl⟩ | ⟨hge, _⟩), _, rfl⟩
      · exact ⟨rfl, rfl⟩
      · exact absurd hi hge
  · simp only [hi, if_false, bind_eq_ok, Prod.exists, guard_eq_ok, Except.ok.injEq,
      Prod.mk.injEq, hfold, not_or, not_lt]
    constructor
    · rintro ⟨count, hc, raw, q, ht, ⟨hmin, hmax⟩, rfl, rfl⟩
      obtain ⟨rfl, hpre, rfl⟩ := (take_eq_ok hp).mp ht
      exact ⟨hmax, raw, Or.inr ⟨hi, hc, rfl, hmin⟩, hpre, rfl⟩
    · rintro ⟨hmax, raw, (⟨hlt, _⟩ | ⟨_, hc, rfl, hmin⟩), hpre, rfl⟩
      · exact absurd hlt hi
      · exact ⟨raw.length, hc, raw, _, (take_eq_ok hp).mpr ⟨rfl, hpre, rfl⟩, ⟨hmin, hmax⟩,
          rfl, rfl⟩

/-- An element reader accepts exactly the deterministic encodings of the values in `P`,
within the item budget. -/
def Reads (limits : Limits) (tag18 : Bool) (P : Value → Prop)
    (element : Parser → Except Error (Value × Parser)) : Prop :=
  ∀ p v p', p.InBounds → p.limits = limits → p.tag18 = tag18 →
    (element p = .ok (v, p') ↔ P v ∧ p.items + v.items ≤ limits.items.toNat ∧
      v.encoding <+: p.rest ∧ p' = p.advance v.encoding.length v.items)

section Loops

variable {limits : Limits} {tag18 : Bool} {P : Value → Prop}
  {element : Parser → Except Error (Value × Parser)}

/-- The array loop reads a run of elements. -/
theorem values_eq_ok (he : Reads limits tag18 P element) (length : Nat) (p p' : Parser)
    (vs : List Value) (hp : p.InBounds) (hl : p.limits = limits) (ht : p.tag18 = tag18)
    (hi : p.items ≤ limits.items.toNat) :
    p.values element length = .ok (vs, p') ↔ vs.length = length ∧ (∀ v ∈ vs, P v) ∧
      p.items + (vs.map Value.items).sum ≤ limits.items.toNat ∧
      (vs.map Value.encoding).flatten <+: p.rest ∧
      p' = p.advance (vs.map Value.encoding).flatten.length (vs.map Value.items).sum := by
  induction length generalizing p p' vs with
  | zero =>
    simp only [Parser.values, Except.ok.injEq, Prod.mk.injEq]
    constructor
    · rintro ⟨rfl, rfl⟩
      exact ⟨rfl, by simp, by simpa using hi, by simp, rfl⟩
    · rintro ⟨hlen, _, _, _, rfl⟩
      obtain rfl := List.eq_nil_of_length_eq_zero hlen
      exact ⟨rfl, rfl⟩
  | succ length ih =>
    simp only [Parser.values, bind_eq_ok, Prod.exists, Except.ok.injEq, Prod.mk.injEq]
    constructor
    · rintro ⟨v, q, hv, vs', q', hvs, rfl, rfl⟩
      obtain ⟨hPv, hiv, hpre, rfl⟩ := (he p v q hp hl ht).mp hv
      obtain ⟨hlen, hall, hits, hpres, rfl⟩ :=
        (ih _ _ _ (hp.advance v.items hpre) hl ht hiv).mp hvs
      rw [rest_advance] at hpres
      refine ⟨by simp [hlen], by simpa using ⟨hPv, hall⟩, ?_, ?_, ?_⟩
      · simp only [advance_items] at hits
        simp only [List.map_cons, List.sum_cons]
        omega
      · rw [List.map_cons, List.flatten_cons]
        exact prefix_append_iff.mpr ⟨hpre, hpres⟩
      · simp
    · rintro ⟨hlen, hall, hits, hpre, rfl⟩
      cases vs with
      | nil => simp at hlen
      | cons v vs =>
        rw [List.map_cons, List.sum_cons] at hits
        rw [List.map_cons, List.flatten_cons] at hpre
        obtain ⟨hpv, hpvs⟩ := prefix_append_iff.mp hpre
        refine ⟨v, _, (he p v _ hp hl ht).mpr ⟨hall v (by simp), by omega, hpv, rfl⟩, vs, _,
          (ih _ _ _ (hp.advance v.items hpv) hl ht ?_).mpr ⟨?_, ?_, ?_, ?_, rfl⟩, rfl, ?_⟩
        · simp only [advance_items]
          omega
        · simpa using hlen
        · exact fun w hw => hall w (List.mem_cons_of_mem _ hw)
        · simp only [advance_items]
          omega
        · rwa [rest_advance]
        · simp

/-- The map loop reads a run of entries whose encoded keys ascend from `previous`. -/
theorem entries_eq_ok (he : Reads limits tag18 P element) (length : Nat)
    (previous : Option (List UInt8)) (p p' : Parser) (es : List (Value × Value))
    (hp : p.InBounds) (hl : p.limits = limits) (ht : p.tag18 = tag18)
    (hi : p.items ≤ limits.items.toNat) :
    p.entries element length previous = .ok (es, p') ↔ es.length = length ∧
      (∀ e ∈ es, e.1.isKey limits.cose = true ∧ P e.1 ∧ P e.2) ∧
      (previous.toList ++ es.map fun e => e.1.encoding).Pairwise (· < ·) ∧
      p.items + (es.map fun e => e.1.items + e.2.items).sum ≤ limits.items.toNat ∧
      (es.map entryEncoding).flatten <+: p.rest ∧
      p' = p.advance (es.map entryEncoding).flatten.length
        (es.map fun e => e.1.items + e.2.items).sum := by
  induction length generalizing previous p p' es with
  | zero =>
    simp only [Parser.entries, Except.ok.injEq, Prod.mk.injEq]
    constructor
    · rintro ⟨rfl, rfl⟩
      refine ⟨rfl, by simp, ?_, by simpa using hi, by simp, rfl⟩
      cases previous <;> simp
    · rintro ⟨hlen, _, _, _, _, rfl⟩
      obtain rfl := List.eq_nil_of_length_eq_zero hlen
      exact ⟨rfl, rfl⟩
  | succ length ih =>
    -- The key as it stands in the input is its own encoding.
    have hraw (k : Value) (hk : k.encoding <+: p.rest) :
        (p.bytes.drop p.offset).take (p.offset + k.encoding.length - p.offset) = k.encoding := by
      rw [Nat.add_sub_cancel_left]
      exact (List.prefix_iff_eq_take.mp hk).symm
    have hchain (k : List UInt8) (ks : List (List UInt8)) :
        (previous.toList ++ k :: ks).Pairwise (· < ·) ↔
          previous.any (k ≤ ·) = false ∧ (k :: ks).Pairwise (· < ·) := by
      cases previous with
      | none => simp
      | some q =>
        simp only [Option.toList_some, List.singleton_append, Option.any_some,
          decide_eq_false_iff_not, not_le]
        rw [← List.isChain_iff_pairwise, ← List.isChain_iff_pairwise, List.isChain_cons_cons]
    simp only [Parser.entries, bind_eq_ok, Prod.exists, guard_eq_ok, Except.ok.injEq,
      Prod.mk.injEq, Bool.not_eq_true, Bool.not_eq_false]
    constructor
    · rintro ⟨k, q, hk, hkey, hprev, v, q', hv, es', q'', hes, rfl, rfl⟩
      obtain ⟨hPk, hik, hprek, rfl⟩ := (he p k q hp hl ht).mp hk
      have hqb := hp.advance k.items hprek
      obtain ⟨hPv, hiv, hprev', rfl⟩ := (he _ v q' hqb hl ht).mp hv
      simp only [advance_bytes, advance_offset, hraw k hprek] at hprev hes
      obtain ⟨hlen, hall, hord, hits, hpres, rfl⟩ :=
        (ih _ _ _ _ (hqb.advance v.items hprev') hl ht hiv).mp hes
      simp only [advance_limits, hl] at hkey
      simp only [rest_advance, List.drop_drop] at hprev' hpres
      simp only [advance_items] at hits hiv
      refine ⟨by simp [hlen], ?_, ?_, ?_, ?_, ?_⟩
      · intro e hmem
        rcases List.mem_cons.mp hmem with rfl | hmem
        · exact ⟨hkey, hPk, hPv⟩
        · exact hall e hmem
      · rw [List.map_cons, hchain]
        exact ⟨hprev, hord⟩
      · simp only [List.map_cons, List.sum_cons]
        omega
      · rw [List.map_cons, List.flatten_cons, prefix_append_iff, entryEncoding, prefix_append_iff,
          List.length_append]
        exact ⟨⟨hprek, hprev'⟩, hpres⟩
      · simp [entryEncoding, Nat.add_assoc]
    · rintro ⟨hlen, hall, hord, hits, hpre, rfl⟩
      cases es with
      | nil => simp at hlen
      | cons e es =>
        obtain ⟨k, v⟩ := e
        obtain ⟨hkey, hPk, hPv⟩ := hall (k, v) (by simp)
        rw [List.map_cons, List.sum_cons] at hits
        rw [List.map_cons, List.flatten_cons, prefix_append_iff, entryEncoding,
          prefix_append_iff, List.length_append] at hpre
        obtain ⟨⟨hprek, hprev⟩, hpres⟩ := hpre
        rw [List.map_cons, hchain] at hord
        dsimp only at hkey hPk hPv hits hprek hprev hpres hord
        have hqb := hp.advance k.items hprek
        have hprev' : v.encoding <+: (p.advance k.encoding.length k.items).rest := by
          rwa [rest_advance]
        refine ⟨k, _, (he p k _ hp hl ht).mpr ⟨hPk, by omega, hprek, rfl⟩, ?_, ?_, v, _,
          (he _ v _ hqb hl ht).mpr ⟨hPv, ?_, hprev', rfl⟩, es, _,
          (ih _ _ _ _ (hqb.advance v.items hprev') hl ht ?_).mpr
            ⟨?_, ?_, ?_, ?_, ?_, rfl⟩, rfl, ?_⟩
        · simpa only [advance_limits, hl] using hkey
        · simpa only [advance_bytes, advance_offset, hraw k hprek] using hord.1
        · simp only [advance_items]
          omega
        · simp only [advance_items]
          omega
        · simpa using hlen
        · exact fun w hw => hall w (List.mem_cons_of_mem _ hw)
        · simpa only [advance_bytes, advance_offset, hraw k hprek, Option.toList_some,
            List.singleton_append] using hord.2
        · simp only [advance_items]
          omega
        · simpa only [rest_advance, List.drop_drop] using hpres
        · simp [entryEncoding, Nat.add_assoc]

end Loops

section Items

variable {limits : Limits} {tag18 : Bool} {levels : Nat}
  {element : Parser → Except Error (Value × Parser)}

/-- After the head, exactly the remaining bytes of a value with that head are read. -/
theorem content_eq_ok (he : Reads limits tag18 (Shaped limits (reading tag18) levels) element)
    {p p' : Parser} {major : UInt8} {n : Nat} {v : Value} (hp : p.InBounds)
    (hl : p.limits = limits) (ht : p.tag18 = tag18) (hi : p.items ≤ limits.items.toNat)
    (hn : n ≤ maxSafe) :
    p.content element major n = .ok (v, p') ↔ ∃ body, v.opening = some (major, n, body) ∧
      Shaped limits (reading tag18) (levels + 1) v ∧
      p.items + v.items ≤ limits.items.toNat + 1 ∧ body <+: p.rest ∧
      p' = p.advance body.length (v.items - 1) := by
  constructor
  · intro h
    unfold Parser.content at h
    split_ifs at h with h0 h1 h1' h2 h3 h4 h5 h6
    · -- Unsigned integers end with their head.
      cases h
      subst h0
      refine ⟨[], ?_, ?_, by simpa [Value.items] using hi, List.nil_prefix, by simp [Value.items]⟩
      · simp [Value.opening]
      · exact ⟨by omega, by omega⟩
    · -- Negative integers too, and the least one is refused.
      cases h
      subst h1
      have hneg : (-1 - (n : Int)) < 0 := by omega
      refine ⟨[], ?_, ?_, by simpa [Value.items] using hi, List.nil_prefix, by simp [Value.items]⟩
      · rw [Value.opening, if_pos hneg, if_pos hneg, show (-1 - (-1 - (n : Int))).toNat = n by omega]
      · exact ⟨by omega, by omega⟩
    · simp only [bind_eq_ok, Prod.exists, Except.ok.injEq, Prod.mk.injEq] at h
      obtain ⟨raw, q, hr, rfl, rfl⟩ := h
      obtain ⟨rfl, hpre, rfl⟩ := (take_eq_ok hp).mp hr
      obtain ⟨rfl, hlen⟩ := h2
      rw [hl] at hlen
      exact ⟨raw, rfl, ⟨hlen, hn⟩, by simpa [Value.items] using hi, hpre, by simp [Value.items]⟩
    · simp only [bind_eq_ok, Prod.exists] at h
      obtain ⟨raw, q, hr, h⟩ := h
      obtain ⟨rfl, hpre, rfl⟩ := (take_eq_ok hp).mp hr
      obtain ⟨rfl, hlen⟩ := h3
      rw [hl] at hlen
      cases hu : fromUtf8 raw with
      | none => rw [hu] at h; cases h
      | some s =>
        rw [hu] at h
        cases h
        obtain rfl := fromUtf8_eq_some.mp hu
        exact ⟨asBytes s, rfl, ⟨hlen, hn⟩, by simpa [Value.items] using hi, hpre,
          by simp [Value.items]⟩
    · simp only [bind_eq_ok, Prod.exists, Except.ok.injEq, Prod.mk.injEq] at h
      obtain ⟨vs, q, hv, rfl, rfl⟩ := h
      obtain ⟨rfl, hall, hits, hpre, rfl⟩ := (values_eq_ok he _ _ _ _ hp hl ht hi).mp hv
      obtain ⟨rfl, hlen⟩ := h4
      rw [hl] at hlen
      exact ⟨_, rfl, ⟨hlen, hn, hall⟩, by simp; omega, hpre, by simp⟩
    · simp only [bind_eq_ok, Prod.exists, Except.ok.injEq, Prod.mk.injEq] at h
      obtain ⟨es, q, hv, rfl, rfl⟩ := h
      obtain ⟨rfl, hall, hord, hits, hpre, rfl⟩ := (entries_eq_ok he _ _ _ _ _ hp hl ht hi).mp hv
      obtain ⟨rfl, hlen⟩ := h5
      rw [hl] at hlen
      simp only [Option.toList_none, List.nil_append] at hord
      have hsort := sortEntries_of_ascending hord
      exact ⟨_, rfl, ⟨hlen, hn, hord, hall⟩, by rw [items_map]; omega, by rwa [hsort],
        by simp [hsort]⟩
    · simp only [bind_eq_ok, Prod.exists, Except.ok.injEq, Prod.mk.injEq] at h
      obtain ⟨w, q, hw, rfl, rfl⟩ := h
      obtain ⟨hPw, hits, hpre, rfl⟩ := (he _ _ _ hp hl ht).mp hw
      obtain ⟨rfl, htag, rfl⟩ := h6
      rw [ht] at htag
      exact ⟨_, rfl, ⟨⟨htag, rfl⟩, hPw⟩, by simp; omega, hpre, by simp⟩
  · rintro ⟨body, hopen, hs, hits, hpre, rfl⟩
    cases v with
    | null | bool b => cases hopen
    | int k =>
      obtain ⟨hlo, hhi⟩ : -(maxSafe : Int) ≤ k ∧ k ≤ maxSafe := hs
      cases hopen
      by_cases hk : k < 0
      · have hne : (-1 - k).toNat ≠ maxSafe := by omega
        have hback : -1 - max (-1 - k) 0 = k := by omega
        simp [Parser.content, hk, hne, hback, Value.items]
      · have hback : ((k.toNat : Nat) : Int) = k := by omega
        simp [Parser.content, hk, hback, Value.items]
    | text s =>
      cases hopen
      have hr := (take_eq_ok hp).mpr ⟨rfl, hpre, rfl⟩
      have hlen : (asBytes s).length ≤ p.limits.text.toNat := hl ▸ hs.1
      simp [Parser.content, hlen, hr, fromUtf8_eq_some.mpr rfl, Value.items]
    | bytes b =>
      cases hopen
      have hr := (take_eq_ok hp).mpr ⟨rfl, hpre, rfl⟩
      have hlen : body.length ≤ p.limits.string.toNat := hl ▸ hs.1
      simp [Parser.content, hlen, hr, Value.items]
    | array vs =>
      cases hopen
      simp only [items_array] at hits
      have hr := (values_eq_ok he _ _ _ _ hp hl ht hi).mpr
        ⟨rfl, hs.2.2, by omega, hpre, rfl⟩
      have hlen : vs.length ≤ p.limits.array.toNat := hl ▸ hs.1
      simp [Parser.content, hlen, hr]
    | map es =>
      cases hopen
      obtain ⟨hlen, _, hord, hall⟩ := hs
      have hsort := sortEntries_of_ascending hord
      simp only [items_map] at hits
      rw [hsort] at hpre
      have hr := (entries_eq_ok he _ none _ _ _ hp hl ht hi).mpr
        ⟨rfl, hall, hord, by omega, hpre, rfl⟩
      have hlen' : es.length ≤ p.limits.map.toNat := hl ▸ hlen
      simp [Parser.content, hlen', hr, hsort]
    | tag t w =>
      obtain ⟨⟨htag, rfl⟩, hPw⟩ := hs
      cases hopen
      simp only [items_tag] at hits
      have hr := (he p w _ hp hl ht).mpr ⟨hPw, by omega, hpre, rfl⟩
      simp [Parser.content, ht, htag, hr]

/-- The item reader accepts exactly the deterministic encodings of values within the limits. -/
theorem value_reads (limits : Limits) (tag18 : Bool) (levels : Nat) :
    ∀ depth, depth + levels = limits.depth.toNat + 1 →
      Reads limits tag18 (Shaped limits (reading tag18) levels) (Parser.value levels depth) := by
  induction levels with
  | zero =>
    intro depth _ p v p' _ _ _
    constructor
    · intro h
      cases h
    · rintro ⟨h, _⟩
      exact h.elim
  | succ levels ih =>
    intro depth hd p v p' hp hl ht
    have he := ih (depth + 1) (by omega)
    -- The parser with this item counted.
    have hq : ({ p with items := p.items + 1 } : Parser) = p.advance 0 1 := rfl
    have hqb : (p.advance 0 1).InBounds := hp
    have hqr : (p.advance 0 1).rest = p.rest := by simp
    have hdepth : ¬depth > limits.depth.toNat := by omega
    rw [Parser.value, hq]
    simp only [advance_limits, hl, advance_items, hdepth, false_or, guard_eq_ok, not_lt,
      bind_eq_ok, Prod.exists]
    constructor
    · rintro ⟨hi, first, q, hfirst, h⟩
      obtain ⟨hlen, hpre, rfl⟩ := (take_eq_ok hqb).mp hfirst
      obtain ⟨b, rfl⟩ := List.length_eq_one_iff.mp hlen
      rw [hqr] at hpre
      have hb1 : (p.advance 1 1).InBounds := hp.advance 1 hpre
      rw [List.headD_cons, advance_advance] at h
      by_cases hmajor : b >>> 5 = 7
      · rw [if_pos hmajor] at h
        split_ifs at h with h4 h5 h6 <;> cases h <;> subst b <;>
          exact ⟨trivial, hi, hpre, rfl⟩
      · rw [if_neg hmajor] at h
        simp only [bind_eq_ok, Prod.exists] at h
        obtain ⟨n, q, harg, h⟩ := h
        obtain ⟨hn, raw, ha, hraw, rfl⟩ := (argument_eq_ok hb1).mp harg
        have hb2 := hb1.advance 0 hraw
        rw [advance_advance] at h hb2
        obtain ⟨body, hopen, hs, hits, hbody, rfl⟩ :=
          (content_eq_ok he hb2 hl ht (by simpa using hi) hn).mp h
        have hhead := ha.head_eq (b >>> 5)
        rw [initial_split] at hhead
        have henc : v.encoding = b :: raw ++ body := by
          rw [encoding_of_opening hopen, hhead]
        have hpos := items_pos v
        simp only [advance_items] at hits
        simp only [rest_advance] at hraw hbody
        refine ⟨hs, by omega, ?_, ?_⟩
        · rw [henc, prefix_append_iff, ← List.singleton_append, prefix_append_iff]
          refine ⟨⟨hpre, hraw⟩, ?_⟩
          rwa [List.length_append, List.length_singleton]
        · rw [henc, advance_advance]
          simp only [List.length_append, List.length_cons]
          congr 1 <;> omega
    · rintro ⟨hs, hits, hpre, rfl⟩
      have hpos := items_pos v
      have hi : p.items + 1 ≤ limits.items.toNat := by omega
      cases hopen : v.opening with
      | none =>
        obtain ⟨b, henc, hmajor⟩ := simple_major hopen
        have hbyte : [b] <+: (p.advance 0 1).rest := by rwa [hqr, ← henc]
        have hfirst := (take_eq_ok hqb).mpr ⟨rfl, hbyte, rfl⟩
        refine ⟨hi, [b], _, hfirst, ?_⟩
        rw [List.headD_cons, if_pos hmajor]
        rcases opening_eq_none.mp hopen with rfl | ⟨c, rfl⟩
        · cases henc
          rfl
        · cases c <;> cases henc <;> rfl
      | some o =>
        obtain ⟨major, n, body⟩ := o
        have henc := encoding_of_opening hopen
        obtain ⟨hm7, hn64⟩ := hs.opening_lt hopen
        have hn : n ≤ maxSafe := hs.opening_le hopen
        obtain ⟨info, raw, ha⟩ := exists_isArgument n hn64
        have hm8 : major < 8 := hm7.trans (by decide)
        obtain ⟨hmajor, hinfo⟩ := split_initial hm8 ha.info_lt
        rw [ha.head_eq] at henc
        rw [henc, prefix_append_iff, ← List.singleton_append, prefix_append_iff] at hpre
        obtain ⟨⟨hfirst, hraw⟩, hbody⟩ := hpre
        have hb1 : (p.advance 1 1).InBounds := hp.advance 1 hfirst
        have hraw' : raw <+: (p.advance 1 1).rest := by rwa [rest_advance]
        refine ⟨hi, [major <<< 5 ||| info], _,
          (take_eq_ok hqb).mpr ⟨rfl, by rwa [hqr], rfl⟩, ?_⟩
        rw [List.headD_cons, hmajor, hinfo, if_neg hm7.ne, advance_advance,
          (argument_eq_ok hb1).mpr ⟨hn, raw, ha, hraw', rfl⟩, ok_bind, advance_advance]
        have hb2 := hb1.advance 0 hraw'
        rw [advance_advance] at hb2
        refine (content_eq_ok he hb2 hl ht (by simpa using hi) hn).mpr
          ⟨body, hopen, hs, ?_, ?_, ?_⟩
        · simp only [advance_items]
          omega
        · rw [rest_advance]
          rwa [List.length_append, List.length_singleton] at hbody
        · rw [henc, advance_advance]
          simp only [List.length_append, List.length_cons]
          congr 1 <;> omega

end Items

/-- The decoder accepts exactly the deterministic encodings of values within the limits,
and returns the encoded value. -/
theorem decode_eq_ok {bytes : List UInt8} {limits : Limits} {tag18 : Bool} {v : Value} :
    decode bytes limits tag18 = .ok v ↔ bytes.length ≤ limits.bytes.toNat ∧
      Shaped limits (reading tag18) (limits.depth.toNat + 1) v ∧
      v.items ≤ limits.items.toNat ∧ bytes = v.encoding := by
  have hr := value_reads limits tag18 (limits.depth.toNat + 1) 0 (by omega)
    ⟨bytes, 0, 0, limits, tag18⟩
  have hrest : (⟨bytes, 0, 0, limits, tag18⟩ : Parser).rest = bytes := rfl
  have hb : (⟨bytes, 0, 0, limits, tag18⟩ : Parser).InBounds := Nat.zero_le _
  simp only [decode, guard_eq_ok, not_lt, bind_eq_ok, Prod.exists, not_not, Except.ok.injEq]
  constructor
  · rintro ⟨hlen, w, q, hv, hoff, rfl⟩
    obtain ⟨hs, hits, hpre, rfl⟩ := (hr w q hb rfl rfl).mp hv
    rw [hrest] at hpre
    simp only [advance_offset, Nat.zero_add] at hoff hits
    exact ⟨hlen, hs, hits, (hpre.eq_of_length hoff).symm⟩
  · rintro ⟨hlen, hs, hits, rfl⟩
    have hpre : v.encoding <+: (⟨v.encoding, 0, 0, limits, tag18⟩ : Parser).rest := by
      rw [hrest]
    have hoff : 0 + v.encoding.length = v.encoding.length := Nat.zero_add _
    exact ⟨hlen, v, _, (hr v _ hb rfl rfl).mpr ⟨hs, by simpa using hits, hpre, rfl⟩, hoff, rfl⟩

end HailProto.Cbor
