import HailProto.Cbor.ReaderCorrect
import HailProto.Cbor.WriterCorrect

/-!
# Canonicality of the codec

The reader and the writer meet in the deterministic encoding. What is decoded is encoded
back to the same bytes; what is encoded decodes to the same value with the entries of its
maps in order. The second half needs that encodings are prefix free: the bytes of a value
fix it up to the order of map entries.
-/

namespace HailProto.Cbor

/-- Runs of encodings that fix their elements fix the run. -/
theorem flatten_inj {α : Type} (f : α → List UInt8) (φ : α → α) (xs ys : List α)
    (r r' : List UInt8) (hlen : xs.length = ys.length)
    (hφ : ∀ x ∈ xs, ∀ y ∈ ys, ∀ r r', f x ++ r = f y ++ r' → y = φ x ∧ r = r')
    (h : (xs.map f).flatten ++ r = (ys.map f).flatten ++ r') : ys = xs.map φ ∧ r = r' := by
  induction xs generalizing ys with
  | nil =>
    obtain rfl := List.eq_nil_of_length_eq_zero hlen.symm
    exact ⟨rfl, h⟩
  | cons x xs ih =>
    cases ys with
    | nil => simp at hlen
    | cons y ys =>
      simp only [List.map_cons, List.flatten_cons, List.append_assoc] at h
      obtain ⟨rfl, htail⟩ := hφ x (by simp) y (by simp) _ _ h
      obtain ⟨rfl, hr⟩ := ih ys (by simpa using hlen)
        (fun a ha b hb => hφ a (List.mem_cons_of_mem _ ha) b (List.mem_cons_of_mem _ hb)) htail
      exact ⟨rfl, hr⟩

/-- Keys hold no maps, so sorting leaves them alone. -/
theorem sorted_of_isKey {cose : Bool} {k : Value} (h : k.isKey cose = true) : k.sorted = k := by
  cases k with
  | text s | int n => rfl
  | null | bool b | bytes b | array vs | map es | tag t w => cases h

/-- Sorting the entries of a map commutes with sorting inside its values. -/
theorem sortEntries_map_sorted {cose : Bool} {es : List (Value × Value)}
    (h : ∀ e ∈ es, e.1.isKey cose = true) :
    sortEntries (es.map (Prod.map Value.sorted Value.sorted)) =
      (sortEntries es).map (Prod.map Value.sorted Value.sorted) := by
  refine (List.map_insertionSort (r := fun a b : Value × Value => a.1.encoding ≤ b.1.encoding)
    (s := fun a b : Value × Value => a.1.encoding ≤ b.1.encoding) _ es ?_).symm
  intro a ha b hb
  rw [Prod.map_fst, Prod.map_fst, sorted_of_isKey (h a ha), sorted_of_isKey (h b hb)]

/-- Values with one head and one content are equal up to sorting, given this one level
below. -/
theorem content_inj {limits : Limits} {tag18 : Bool} {levels levels' : Nat}
    (ih : ∀ {levels' : Nat} {v w : Value} {r r' : List UInt8}, Shaped limits writing levels v →
      Shaped limits (reading tag18) levels' w → v.encoding ++ r = w.encoding ++ r' →
      w = v.sorted ∧ r = r')
    {v w : Value} {major : UInt8} {n : Nat} {body body' r r' : List UInt8}
    (hv : Shaped limits writing (levels + 1) v)
    (hw : Shaped limits (reading tag18) (levels' + 1) w)
    (hov : v.opening = some (major, n, body)) (how : w.opening = some (major, n, body'))
    (h : body ++ r = body' ++ r') : w = v.sorted ∧ r = r' := by
  cases v with
  | null | bool b => cases hov
  | int k =>
    have hm : major < 2 := by
      cases hov
      split_ifs <;> decide
    obtain ⟨_, he, hk, rfl⟩ := opening_int hm hov
    cases he
    obtain ⟨k', rfl, hk', rfl⟩ := opening_int hm how
    exact ⟨congrArg Value.int (hk'.trans hk.symm), h⟩
  | text s =>
    cases hov
    obtain ⟨t, rfl, hlen, rfl⟩ := opening_text how
    obtain ⟨hbytes, hr⟩ := List.append_inj h hlen
    rw [asBytes_injective hbytes]
    exact ⟨rfl, hr⟩
  | bytes b =>
    cases hov
    obtain ⟨rfl, hlen⟩ := opening_bytes how
    obtain ⟨rfl, hr⟩ := List.append_inj h hlen
    exact ⟨rfl, hr⟩
  | array vs =>
    cases hov
    obtain ⟨ws, rfl, hlen, rfl⟩ := opening_array how
    obtain ⟨rfl, hr⟩ := flatten_inj Value.encoding Value.sorted vs ws r r' hlen
      (fun x hx y hy _ _ hxy => ih (hv.2.2 x hx) (hw.2.2 y hy) hxy) h
    exact ⟨by rw [sorted_array], hr⟩
  | map es =>
    cases hov
    obtain ⟨fs, rfl, hlen, rfl⟩ := opening_map how
    obtain ⟨_, _, _, hes⟩ := hv
    obtain ⟨_, _, hord, hfs⟩ := hw
    have hmem (e : Value × Value) : e ∈ sortEntries es → e ∈ es :=
      (sortEntries_perm es).mem_iff.mp
    rw [sortEntries_of_ascending hord] at h
    obtain ⟨rfl, hr⟩ := flatten_inj entryEncoding (Prod.map Value.sorted Value.sorted)
      (sortEntries es) fs r r' (by rw [(sortEntries_perm es).length_eq, hlen])
      (fun x hx y hy _ _ hxy => by
        rw [entryEncoding, entryEncoding, List.append_assoc, List.append_assoc] at hxy
        obtain ⟨hk, hxy⟩ := ih (hes x (hmem x hx)).2.1 (hfs y hy).2.1 hxy
        obtain ⟨hx2, hr⟩ := ih (hes x (hmem x hx)).2.2 (hfs y hy).2.2 hxy
        exact ⟨Prod.ext hk hx2, hr⟩) h
    exact ⟨by rw [sorted_map, sortEntries_map_sorted fun e he => (hes e he).1], hr⟩
  | tag t x =>
    cases hov
    obtain ⟨u, y, rfl, hu, rfl⟩ := opening_tag how
    obtain ⟨rfl, hr⟩ := ih hv.2 hw.2 h
    exact ⟨by rw [sorted_tag, UInt64.toNat_inj.mp hu], hr⟩

/-- The bytes of a value the writer admits fix the value the reader makes of them, and
where it ends. -/
theorem encoding_inj {limits : Limits} {tag18 : Bool} (levels : Nat) :
    ∀ {levels' : Nat} {v w : Value} {r r' : List UInt8}, Shaped limits writing levels v →
      Shaped limits (reading tag18) levels' w → v.encoding ++ r = w.encoding ++ r' →
      w = v.sorted ∧ r = r' := by
  induction levels with
  | zero => exact fun hv => hv.elim
  | succ levels ih =>
    intro levels' v w r r' hv hw h
    cases levels' with
    | zero => exact hw.elim
    | succ levels' =>
    cases hov : v.opening with
    | none =>
      obtain ⟨b, hb, hb7⟩ := simple_major hov
      cases how : w.opening with
      | none =>
        obtain ⟨c, hc, _⟩ := simple_major how
        rcases opening_eq_none.mp hov with rfl | ⟨x, rfl⟩ <;>
          rcases opening_eq_none.mp how with rfl | ⟨y, rfl⟩ <;>
          simp only [Value.encoding, List.singleton_append, List.cons.injEq] at h
        · exact ⟨rfl, h.2⟩
        · cases y <;> simp at h
        · cases x <;> simp at h
        · cases x <;> cases y <;> simp at h <;> exact ⟨rfl, h⟩
      | some o =>
        obtain ⟨major, n, body⟩ := o
        obtain ⟨hm, hn⟩ := hw.opening_lt how
        obtain ⟨c, raw, hhead, hc⟩ := head_major (hm.trans (by decide)) hn
        rw [hb, encoding_of_opening how, hhead] at h
        cases h
        rw [hb7] at hc
        exact absurd hc.symm hm.ne
    | some o =>
      obtain ⟨major, n, body⟩ := o
      obtain ⟨hm, hn⟩ := hv.opening_lt hov
      cases how : w.opening with
      | none =>
        obtain ⟨b, hb, hb7⟩ := simple_major how
        obtain ⟨c, raw, hhead, hc⟩ := head_major (hm.trans (by decide)) hn
        rw [hb, encoding_of_opening hov, hhead] at h
        cases h
        rw [hb7] at hc
        exact absurd hc.symm hm.ne
      | some o' =>
        obtain ⟨major', n', body'⟩ := o'
        obtain ⟨hm', hn'⟩ := hw.opening_lt how
        rw [encoding_of_opening hov, encoding_of_opening how, List.append_assoc,
          List.append_assoc] at h
        obtain ⟨rfl, rfl, hbody⟩ :=
          head_append_inj (hm.trans (by decide)) (hm'.trans (by decide)) hn hn' h
        exact content_inj ih hv hw hov how hbody

/-- The codec is canonical: what is decoded encodes to the same bytes, what is encoded
decodes to the same value with sorted maps, so that decoding is injective and accepts
nothing but deterministic encodings, with strictly ascending keys in every map. -/
theorem codec_canonical (limits : Limits) (tag18 : Bool) :
    (∀ b v, decode b limits tag18 = .ok v → encode v limits tag18 = .ok b) ∧
    (∀ v b, encode v limits tag18 = .ok b → decode b limits tag18 = .ok v.sorted) ∧
    (∀ b b' v, decode b limits tag18 = .ok v → decode b' limits tag18 = .ok v → b = b') ∧
    (∀ b v, decode b limits tag18 = .ok v →
      b = v.encoding ∧ Shaped limits (reading tag18) (limits.depth.toNat + 1) v) := by
  have hw := write_writes limits (limits.depth.toNat + 1) 0 (by omega)
  refine ⟨?_, ?_, ?_, ?_⟩
  · intro b v h
    obtain ⟨hlen, hs, hits, rfl⟩ := decode_eq_ok.mp h
    have ho := (hw v ⟨[], 0⟩ _).mpr ⟨hs.writing, by simpa using hits, by simpa using hlen, rfl⟩
    rw [List.nil_append] at ho
    simp only [encode, ho, ok_bind, h]
  · intro v b h
    simp only [encode, bind_eq_ok, Except.ok.injEq] at h
    obtain ⟨o, ho, w, hdec, rfl⟩ := h
    obtain ⟨hs, _, _, rfl⟩ := (hw v ⟨[], 0⟩ o).mp ho
    rw [List.nil_append] at hdec ⊢
    obtain ⟨_, hsw, _, henc⟩ := decode_eq_ok.mp hdec
    obtain ⟨rfl, _⟩ := encoding_inj _ hs hsw (congrArg (· ++ []) henc)
    exact hdec
  · intro b b' v h h'
    rw [(decode_eq_ok.mp h).2.2.2, (decode_eq_ok.mp h').2.2.2]
  · intro b v h
    obtain ⟨_, hs, _, rfl⟩ := decode_eq_ok.mp h
    exact ⟨rfl, hs⟩

/-- An out of order map is written in order, and read back in order. -/
theorem codec_canonical_two_keys :
    encode (.map [(.text "bb", .int (-1)), (.text "a", .array [.null])]) (.payload 64) false =
      .ok [0xa2, 0x61, 0x61, 0x81, 0xf6, 0x62, 0x62, 0x62, 0x20] ∧
    decode [0xa2, 0x61, 0x61, 0x81, 0xf6, 0x62, 0x62, 0x62, 0x20] (.payload 64) false =
      .ok (.map [(.text "a", .array [.null]), (.text "bb", .int (-1))]) := by
  have h : encode (.map [(.text "bb", .int (-1)), (.text "a", .array [.null])]) (.payload 64)
      false = .ok [0xa2, 0x61, 0x61, 0x81, 0xf6, 0x62, 0x62, 0x62, 0x20] := by rfl
  exact ⟨h, (codec_canonical (.payload 64) false).2.1 _ _ h⟩

end HailProto.Cbor
