import HailProto.Cbor.Head

/-!
# What the writer produces

The writer succeeds exactly on the values within its limits whose encoding fits the byte
limit, and then it has appended the deterministic encoding and counted every item. Keys
are counted before the values of their map, which leaves the total unchanged.
-/

namespace HailProto.Cbor

/-- An element writer appends the deterministic encoding of exactly the values in `P`,
within the item and byte budgets. -/
def Writes (limits : Limits) (P : Value → Prop)
    (element : Value → Output → Except Error Output) : Prop :=
  ∀ v o o', element v o = .ok o' ↔ P v ∧ o.items + v.items ≤ limits.items.toNat ∧
    (o.out ++ v.encoding).length ≤ limits.bytes.toNat ∧
    o' = ⟨o.out ++ v.encoding, o.items + v.items⟩

section Loops

variable {limits : Limits} {P : Value → Prop} {element : Value → Output → Except Error Output}

/-- The array loop writes a run of elements. -/
theorem writeValues_eq_ok (he : Writes limits P element) (vs : List Value) (o o' : Output)
    (hi : o.items ≤ limits.items.toNat) :
    writeValues element vs o = .ok o' ∧ o'.out.length ≤ limits.bytes.toNat ↔ (∀ v ∈ vs, P v) ∧
      o.items + (vs.map Value.items).sum ≤ limits.items.toNat ∧
      (o.out ++ (vs.map Value.encoding).flatten).length ≤ limits.bytes.toNat ∧
      o' = ⟨o.out ++ (vs.map Value.encoding).flatten, o.items + (vs.map Value.items).sum⟩ := by
  induction vs generalizing o with
  | nil =>
    simp only [writeValues, Except.ok.injEq, List.map_nil, List.sum_nil, List.flatten_nil,
      List.append_nil, Nat.add_zero]
    constructor
    · rintro ⟨rfl, hlen⟩
      exact ⟨by simp, hi, hlen, rfl⟩
    · rintro ⟨_, _, hlen, rfl⟩
      exact ⟨rfl, hlen⟩
  | cons v vs ih =>
    simp only [writeValues, bind_eq_ok, List.map_cons, List.sum_cons, List.flatten_cons,
      List.length_append]
    constructor
    · rintro ⟨⟨q, hv, hvs⟩, hlen⟩
      obtain ⟨hPv, hiv, _, rfl⟩ := (he v o q).mp hv
      obtain ⟨hall, hits, hbs, rfl⟩ := (ih _ hiv).mp ⟨hvs, hlen⟩
      simp only [List.length_append] at hbs hits
      refine ⟨by simpa using ⟨hPv, hall⟩, by omega, by omega, ?_⟩
      simp [Nat.add_assoc]
    · rintro ⟨hall, hits, hbs, rfl⟩
      have hv := (he v o _).mpr ⟨hall v (by simp), by omega,
        by rw [List.length_append]; omega, rfl⟩
      obtain ⟨hvs, hlen⟩ := (ih ⟨o.out ++ v.encoding, o.items + v.items⟩
        (by dsimp only; omega)).mpr ⟨fun w hw => hall w (List.mem_cons_of_mem _ hw),
          by dsimp only; omega, by simp only [List.length_append]; omega,
          by simp [Nat.add_assoc]⟩
      exact ⟨⟨_, hv, hvs⟩, hlen⟩

/-- The key loop returns every key's encoding beside its value. -/
theorem writeKeys_eq_ok (he : Writes limits P element) (es : List (Value × Value)) (items : Nat)
    (r : List (List UInt8 × Value) × Nat) (hi : items ≤ limits.items.toNat) :
    writeKeys limits.cose element es items = .ok r ↔
      (∀ e ∈ es, e.1.isKey limits.cose = true ∧ P e.1 ∧
        e.1.encoding.length ≤ limits.bytes.toNat) ∧
      items + (es.map fun e => e.1.items).sum ≤ limits.items.toNat ∧
      r = (es.map fun e => (e.1.encoding, e.2), items + (es.map fun e => e.1.items).sum) := by
  induction es generalizing items r with
  | nil => simp [writeKeys, hi, eq_comm (b := r)]
  | cons e es ih =>
    obtain ⟨k, x⟩ := e
    simp only [writeKeys, bind_eq_ok, guard_eq_ok, Prod.exists, Except.ok.injEq, not_not,
      List.map_cons, List.sum_cons]
    constructor
    · rintro ⟨hkey, q, hk, rest, n, hrest, rfl⟩
      obtain ⟨hPk, hik, hbk, rfl⟩ := (he k _ q).mp hk
      obtain ⟨hall, hits, hr⟩ := (ih _ _ hik).mp hrest
      cases hr
      rw [List.nil_append] at hbk
      refine ⟨?_, by dsimp only at hits; omega, by simp [Nat.add_assoc]⟩
      intro e hmem
      rcases List.mem_cons.mp hmem with rfl | hmem
      · exact ⟨hkey, hPk, hbk⟩
      · exact hall e hmem
    · rintro ⟨hall, hits, rfl⟩
      obtain ⟨hkey, hPk, hbk⟩ := hall (k, x) (by simp)
      have hk := (he k ⟨[], items⟩ _).mpr ⟨hPk, by dsimp only; omega, by simpa using hbk, rfl⟩
      refine ⟨hkey, _, hk, _, _, (ih _ _ ?_).mpr ⟨?_, ?_, rfl⟩, ?_⟩
      · dsimp only
        omega
      · exact fun w hw => hall w (List.mem_cons_of_mem _ hw)
      · dsimp only
        omega
      · simp [Nat.add_assoc]

/-- The entry loop writes every key and its value. -/
theorem writeEntries_eq_ok (he : Writes limits P element) (es : List (Value × Value))
    (o o' : Output) (hi : o.items ≤ limits.items.toNat) :
    writeEntries element (es.map fun e => (e.1.encoding, e.2)) o = .ok o' ∧
        o'.out.length ≤ limits.bytes.toNat ↔
      (∀ e ∈ es, P e.2) ∧
      o.items + (es.map fun e => e.2.items).sum ≤ limits.items.toNat ∧
      (o.out ++ (es.map entryEncoding).flatten).length ≤ limits.bytes.toNat ∧
      o' = ⟨o.out ++ (es.map entryEncoding).flatten,
        o.items + (es.map fun e => e.2.items).sum⟩ := by
  induction es generalizing o with
  | nil =>
    simp only [writeEntries, Except.ok.injEq, List.map_nil, List.sum_nil, List.flatten_nil,
      List.append_nil, Nat.add_zero]
    constructor
    · rintro ⟨rfl, hlen⟩
      exact ⟨by simp, hi, hlen, rfl⟩
    · rintro ⟨_, _, hlen, rfl⟩
      exact ⟨rfl, hlen⟩
  | cons e es ih =>
    obtain ⟨k, x⟩ := e
    simp only [List.map_cons, writeEntries, bind_eq_ok, List.sum_cons, List.flatten_cons,
      List.length_append, Output.push, entryEncoding]
    constructor
    · rintro ⟨⟨q, hx, hes⟩, hlen⟩
      obtain ⟨hPx, hix, _, rfl⟩ := (he x _ q).mp hx
      obtain ⟨hall, hits, hbs, rfl⟩ := (ih _ hix).mp ⟨hes, hlen⟩
      simp only [List.length_append] at hbs hits
      refine ⟨?_, by omega, by omega, by simp [Nat.add_assoc]⟩
      intro e hmem
      rcases List.mem_cons.mp hmem with rfl | hmem
      · exact hPx
      · exact hall e hmem
    · rintro ⟨hall, hits, hbs, rfl⟩
      have hx := (he x ⟨o.out ++ k.encoding, o.items⟩ _).mpr ⟨hall (k, x) (by simp),
        by dsimp only; omega, by simp only [List.length_append]; omega, rfl⟩
      obtain ⟨hes, hlen⟩ := (ih ⟨o.out ++ k.encoding ++ x.encoding, o.items + x.items⟩
        (by dsimp only; omega)).mpr ⟨fun w hw => hall w (List.mem_cons_of_mem _ hw),
          by dsimp only; omega, by simp only [List.length_append]; omega,
          by simp [Nat.add_assoc]⟩
      exact ⟨⟨_, hx, hes⟩, hlen⟩

end Loops

/-- Neighbours differ throughout a sorted list exactly when no key occurs twice. -/
theorem hasDuplicate_eq_false {es : List (List UInt8 × Value)}
    (hs : es.Pairwise fun a b => a.1 ≤ b.1) :
    hasDuplicate es = false ↔ (es.map Prod.fst).Nodup := by
  induction es with
  | nil => simp [hasDuplicate]
  | cons a es ih =>
    cases es with
    | nil => simp [hasDuplicate]
    | cons b es =>
      rw [hasDuplicate, Bool.or_eq_false_iff, beq_eq_false_iff_ne, ih hs.of_cons]
      change _ ∧ ((b :: es).map Prod.fst).Nodup ↔ (a.1 :: (b :: es).map Prod.fst).Nodup
      rw [List.nodup_cons]
      refine and_congr_left fun _ => ?_
      constructor
      · intro hne hmem
        -- A later copy of the first key would lie above the second, which lies above it.
        obtain ⟨c, hc, hca⟩ := List.mem_map.mp hmem
        have hab := (List.pairwise_cons.mp hs).1 b (by simp)
        rcases List.mem_cons.mp hc with rfl | hc
        · exact hne hca.symm
        · have hbc := (List.pairwise_cons.mp hs.of_cons).1 c hc
          rw [hca] at hbc
          exact hne (le_antisymm hab hbc)
      · intro hnot heq
        exact hnot (by simp [heq])

/-- The sorted buffers are the buffers of the sorted entries. -/
theorem insertionSort_encoded (es : List (Value × Value)) :
    (es.map fun e => (e.1.encoding, e.2)).insertionSort (fun a b => a.1 ≤ b.1) =
      (sortEntries es).map fun e => (e.1.encoding, e.2) :=
  (List.map_insertionSort (r := fun a b : Value × Value => a.1.encoding ≤ b.1.encoding)
    (s := fun a b : List UInt8 × Value => a.1 ≤ b.1) _ es (fun _ _ _ _ => Iff.rfl)).symm

/-- A key is no longer than the entries of its map. -/
theorem length_key_le {es : List (Value × Value)} {e : Value × Value} (he : e ∈ es) :
    e.1.encoding.length ≤ ((sortEntries es).map entryEncoding).flatten.length := by
  have hmem : entryEncoding e ∈ (sortEntries es).map entryEncoding :=
    List.mem_map_of_mem ((sortEntries_perm es).mem_iff.mpr he)
  have hle := (List.sublist_flatten_of_mem hmem).length_le
  rw [entryEncoding, List.length_append] at hle
  omega

/-- Counting the keys first leaves the total unchanged. -/
theorem sum_keys_values (es : List (Value × Value)) :
    (es.map fun e => e.1.items + e.2.items).sum =
      (es.map fun e => e.1.items).sum + ((sortEntries es).map fun e => e.2.items).sum := by
  rw [((sortEntries_perm es).map fun e => e.2.items).sum_nat]
  induction es with
  | nil => rfl
  | cons e es ih =>
    simp only [List.map_cons, List.sum_cons, ih]
    omega

/-- Every kind of item is appended as its encoding says, once the element writer does. -/
theorem writeContent_eq_ok {limits : Limits} {levels : Nat}
    {element : Value → Output → Except Error Output}
    (he : Writes limits (Shaped limits writing levels) element) {v : Value} {o o' : Output}
    (hi : o.items ≤ limits.items.toNat) :
    writeContent limits element v o = .ok o' ∧ o'.out.length ≤ limits.bytes.toNat ↔
      Shaped limits writing (levels + 1) v ∧ o.items + v.items ≤ limits.items.toNat + 1 ∧
        (o.out ++ v.encoding).length ≤ limits.bytes.toNat ∧
        o' = ⟨o.out ++ v.encoding, o.items + v.items - 1⟩ := by
  cases v with
  | null | bool b =>
    simp only [writeContent, Except.ok.injEq, Shaped, Value.items, Value.encoding, Output.push]
    constructor
    · rintro ⟨rfl, hlen⟩
      exact ⟨trivial, by omega, hlen, rfl⟩
    · rintro ⟨_, _, hlen, rfl⟩
      exact ⟨rfl, hlen⟩
  | int n | text s | bytes b =>
    simp only [writeContent, guard_eq_ok, not_not, not_lt, Except.ok.injEq, Shaped, Value.items,
      Value.encoding, Output.push, writing, and_true, List.append_assoc]
    constructor
    · rintro ⟨⟨hs, rfl⟩, hlen⟩
      exact ⟨hs, by omega, hlen, rfl⟩
    · rintro ⟨hs, _, hlen, rfl⟩
      exact ⟨⟨hs, rfl⟩, hlen⟩
  | array vs =>
    simp only [writeContent, guard_eq_ok, not_lt, Shaped, writing, true_and, items_array,
      encoding_array, Output.push]
    have hvs := writeValues_eq_ok he vs ⟨o.out ++ head 4 vs.length, o.items⟩ o' hi
    simp only [List.append_assoc] at hvs
    constructor
    · rintro ⟨⟨hs, h⟩, hlen⟩
      obtain ⟨hall, hits, hlen', rfl⟩ := hvs.mp ⟨h, hlen⟩
      exact ⟨⟨hs, hall⟩, by omega, hlen', rfl⟩
    · rintro ⟨⟨hs, hall⟩, hits, hlen, rfl⟩
      obtain ⟨h, hlen'⟩ := hvs.mpr ⟨hall, by omega, hlen, rfl⟩
      exact ⟨⟨hs, h⟩, hlen'⟩
  | map es =>
    have hsum := sum_keys_values es
    have hlength : (sortEntries es).length = es.length := (sortEntries_perm es).length_eq
    have hmem (e : Value × Value) : e ∈ sortEntries es ↔ e ∈ es := (sortEntries_perm es).mem_iff
    have hdup : hasDuplicate ((sortEntries es).map fun e => (e.1.encoding, e.2)) = false ↔
        (es.map fun e => e.1.encoding).Nodup := by
      have hsorted : ((sortEntries es).map fun e => (e.1.encoding, e.2)).Pairwise
          fun a b => a.1 ≤ b.1 :=
        List.pairwise_map.mpr (List.pairwise_insertionSort _ es)
      rw [hasDuplicate_eq_false hsorted, List.map_map]
      exact ((sortEntries_perm es).map fun e => e.1.encoding).nodup_iff
    simp only [writeContent, guard_eq_ok, not_lt, bind_eq_ok, Prod.exists, Shaped, writing,
      true_and, items_map, encoding_map, Output.push, Bool.not_eq_true]
    constructor
    · rintro ⟨⟨hs, entries, items, hkeys, hnodup, h⟩, hlen⟩
      obtain ⟨hall, hits, hr⟩ := (writeKeys_eq_ok he es _ _ hi).mp hkeys
      cases hr
      rw [insertionSort_encoded] at hnodup h
      obtain ⟨hvals, hits', hbs, rfl⟩ := (writeEntries_eq_ok he _ _ _ hits).mp ⟨h, hlen⟩
      simp only [List.length_map, hlength, List.append_assoc] at hits' hbs ⊢
      refine ⟨⟨hs, hdup.mp hnodup, fun e hmem' => ?_⟩, by omega, hbs, ?_⟩
      · exact ⟨(hall e hmem').1, (hall e hmem').2.1, hvals e ((hmem e).mpr hmem')⟩
      · congr 1
        omega
    · rintro ⟨⟨hs, hnodup, hall⟩, hits, hlen, rfl⟩
      have hkeys := (writeKeys_eq_ok he es o.items _ hi).mpr
        ⟨fun e hmem' => ⟨(hall e hmem').1, (hall e hmem').2.1, ?_⟩, by omega, rfl⟩
      · obtain ⟨h, hlen'⟩ := (writeEntries_eq_ok he (sortEntries es)
          ⟨o.out ++ head 5 es.length, o.items + (es.map fun e => e.1.items).sum⟩ _
          (by dsimp only; omega)).mpr ⟨fun e hmem' => (hall e ((hmem e).mp hmem')).2.2,
            by dsimp only; omega, by simpa only [List.append_assoc] using hlen, rfl⟩
        simp only [List.append_assoc] at h
        refine ⟨⟨hs, _, _, hkeys, ?_, ?_⟩, hlen⟩
        · rw [insertionSort_encoded]
          exact hdup.mpr hnodup
        · rw [insertionSort_encoded, List.length_map, hlength, h]
          congr 2
          omega
      · have hk := length_key_le hmem'
        simp only [List.length_append] at hlen
        omega
  | tag t w =>
    have hw := he w (o.push (head 6 t.toNat)) o'
    simp only [Output.push] at hw
    simp only [writeContent, Shaped, writing, true_and, items_tag, Value.encoding, Output.push,
      hw, List.append_assoc]
    constructor
    · rintro ⟨⟨hs, hits, hlen, rfl⟩, _⟩
      exact ⟨hs, by omega, hlen, rfl⟩
    · rintro ⟨hs, hits, hlen, rfl⟩
      exact ⟨⟨hs, by omega, hlen, rfl⟩, hlen⟩

/-- The item writer appends the deterministic encoding of exactly the values within its
limits. -/
theorem write_writes (limits : Limits) (levels : Nat) :
    ∀ depth, depth + levels = limits.depth.toNat + 1 →
      Writes limits (Shaped limits writing levels) (write limits levels depth) := by
  induction levels with
  | zero =>
    intro depth _ v o o'
    constructor
    · intro h
      cases h
    · rintro ⟨h, _⟩
      exact h.elim
  | succ levels ih =>
    intro depth hd v o o'
    have he := ih (depth + 1) (by omega)
    have hdepth : ¬depth > limits.depth.toNat := by omega
    have hpos := items_pos v
    simp only [write, hdepth, false_or, guard_eq_ok, not_or, not_lt, bind_eq_ok,
      Except.ok.injEq]
    constructor
    · rintro ⟨⟨hi, hb⟩, q, hq, hlen, rfl⟩
      obtain ⟨hs, hits, hlen', rfl⟩ :=
        (writeContent_eq_ok he (o := ⟨o.out, o.items + 1⟩) hi).mp ⟨hq, hlen⟩
      dsimp only at hits
      refine ⟨hs, by omega, hlen', ?_⟩
      congr 1
      dsimp only
      omega
    · rintro ⟨hs, hits, hlen, rfl⟩
      have hi : o.items + 1 ≤ limits.items.toNat := by omega
      obtain ⟨hq, hlen'⟩ := (writeContent_eq_ok he (o := ⟨o.out, o.items + 1⟩) hi).mpr
        ⟨hs, by dsimp only; omega, hlen, rfl⟩
      refine ⟨⟨hi, ?_⟩, _, hq, hlen', ?_⟩
      · rw [List.length_append] at hlen
        omega
      · congr 1
        dsimp only
        omega

end HailProto.Cbor
