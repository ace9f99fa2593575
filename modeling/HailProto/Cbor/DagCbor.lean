import HailProto.Cbor.Json

/-!
# The identity of an operation

`dag` and `identity` of `plc.rs`. An operation is a JSON value without numbers, and its identity
is a hash of its DAG-CBOR encoding, which orders the keys of every map by length and then
bytewise. The writer orders encoded keys instead; the two orders agree on texts, so that the
bytes are those of DAG-CBOR, they do not depend on the order in which members are given, and no
two values share them.
-/

namespace HailProto.Cbor

/-- What `plc.rs` takes from other crates: a hash function, and base 32 without padding. -/
structure Digests where
  sha256 : List UInt8 → List UInt8
  base32 : List UInt8 → String

def dag (value : JsonValue) : Except Error (List UInt8) := do
  let value ← fromJson value
  encode value (.payload 262144) false

def invalidIdentity : Error := .client "Invalid recovery identity"

/-- The letters of base 32 are ASCII, and a digest of 32 bytes has 52 of them. -/
def identity (lib : Digests) (operation : JsonValue) : Except Error (String × String) := do
  let bytes ← dag operation
  if bytes.length > 7500 then .error invalidIdentity
  else
    let digest := lib.sha256 bytes
    let base := (lib.base32 digest).toLower
    let cid := [1, 0x71, 0x12, 0x20] ++ digest
    .ok ("did:plc:" ++ String.ofList (base.toList.take 24), "b" ++ (lib.base32 cid).toLower)

/-- A value built from null, booleans, strings, arrays and objects. -/
inductive NumberFree : JsonValue → Prop
  | null : NumberFree .null
  | bool (b : Bool) : NumberFree (.bool b)
  | string (s : String) : NumberFree (.string s)
  | array (values : List JsonValue) (h : ∀ v ∈ values, NumberFree v) : NumberFree (.array values)
  | object (members : List (String × JsonValue)) (h : ∀ m ∈ members, NumberFree m.2) :
      NumberFree (.object members)

mutual

/-- DAG-CBOR: shortest heads, definite lengths, shorter keys first and keys of one length
bytewise. Operations hold no numbers, and none has an encoding here. -/
def dagCbor : JsonValue → List UInt8
  | .null => [0xf6]
  | .bool b => [if b then 0xf5 else 0xf4]
  | .number _ => []
  | .string s => head 3 (asBytes s).length ++ asBytes s
  | .array values => head 4 values.length ++ (dagValues values).flatten
  | .object members =>
    head 5 members.length ++ (((dagMembers members).insertionSort
      (fun a b => LengthFirst a.1 b.1)).map fun m => head 3 m.1.length ++ m.1 ++ m.2).flatten

def dagValues : List JsonValue → List (List UInt8)
  | [] => []
  | v :: values => dagCbor v :: dagValues values

def dagMembers : List (String × JsonValue) → List (List UInt8 × List UInt8)
  | [] => []
  | (k, v) :: members => (asBytes k, dagCbor v) :: dagMembers members

end

/-- The identifier of the operation with this encoding. -/
def operationDid (lib : Digests) (encoding : List UInt8) : String :=
  "did:plc:" ++ String.ofList ((lib.base32 (lib.sha256 encoding)).toLower.toList.take 24)

/-- The content identifier of a block: base 32, version 1, codec DAG-CBOR, SHA-256 of 32 bytes. -/
def blockCid (lib : Digests) (encoding : List UInt8) : String :=
  "b" ++ (lib.base32 (1 :: 0x71 :: 0x12 :: 0x20 :: lib.sha256 encoding)).toLower

/-- Values that differ in the order of members only, at any depth. -/
inductive Same : JsonValue → JsonValue → Prop
  | refl (v : JsonValue) : Same v v
  | trans {u v w : JsonValue} (huv : Same u v) (hvw : Same v w) : Same u w
  | element (before after : List JsonValue) {v w : JsonValue} (h : Same v w) :
      Same (.array (before ++ v :: after)) (.array (before ++ w :: after))
  | member (before after : List (String × JsonValue)) (k : String) {v w : JsonValue}
      (h : Same v w) :
      Same (.object (before ++ (k, v) :: after)) (.object (before ++ (k, w) :: after))
  | order {members members' : List (String × JsonValue)} (h : members.Perm members') :
      Same (.object members) (.object members')

section Lists

variable {α β γ : Type}

/-- An element of the left list may be replaced along with its partner. -/
theorem forall₂_replace {R : α → β → Prop} {before after : List α} {a : α} {bs : List β}
    (h : List.Forall₂ R (before ++ a :: after) bs) :
    ∃ before' b after', bs = before' ++ b :: after' ∧ R a b ∧
      ∀ a' b', R a' b' → List.Forall₂ R (before ++ a' :: after) (before' ++ b' :: after') := by
  induction before generalizing bs with
  | nil =>
    obtain ⟨b, after', hab, hafter, rfl⟩ := List.forall₂_cons_left_iff.1 h
    exact ⟨[], b, after', rfl, hab, fun a' b' hab' => .cons hab' hafter⟩
  | cons x before ih =>
    obtain ⟨y, bs, hxy, hbs, rfl⟩ := List.forall₂_cons_left_iff.1 h
    obtain ⟨before', b, after', rfl, hab, hreplace⟩ := ih hbs
    exact ⟨y :: before', b, after', rfl, hab, fun a' b' hab' => .cons hxy (hreplace a' b' hab')⟩

/-- Lists with partners in permuted lists are related after a permutation. -/
theorem forall₂_of_perm {A : α → γ → Prop} {B : β → γ → Prop} {xs : List α} {ys : List β}
    {zs zs' : List γ} (hxs : List.Forall₂ A xs zs) (hys : List.Forall₂ B ys zs')
    (hperm : zs.Perm zs') :
    ∃ ys', ys'.Perm ys ∧ List.Forall₂ (fun x y => ∃ z, A x z ∧ B y z) xs ys' := by
  obtain ⟨ys', hys', hp⟩ := List.perm_comp_forall₂ hperm hys.flip
  refine ⟨ys', hp, ?_⟩
  clear hp hys hperm
  induction hxs generalizing ys' with
  | nil =>
    cases hys'
    exact .nil
  | cons hxz _ ih =>
    cases hys' with
    | cons hyz hys' => exact .cons ⟨_, hxz, hyz⟩ (ih _ hys')

/-- Sorting forgets a permutation of elements of distinct ranks. -/
theorem insertionSort_eq_of_perm {r : α → α → Prop} [DecidableRel r] [Std.Total r] [IsTrans α r]
    {xs ys : List α} (h : xs.Perm ys) (hanti : ∀ a ∈ xs, ∀ b ∈ xs, r a b → r b a → a = b) :
    xs.insertionSort r = ys.insertionSort r := by
  have hperm := ((List.perm_insertionSort r xs).trans h).trans (List.perm_insertionSort r ys).symm
  refine hperm.eq_of_pairwise ?_ (List.pairwise_insertionSort r xs)
    (List.pairwise_insertionSort r ys)
  intro a b ha hb hab hba
  exact hanti a ((List.mem_insertionSort r).1 ha) b (h.mem_iff.2 ((List.mem_insertionSort r).1 hb))
    hab hba

end Lists

section Conversion

theorem valuesOf_eq_some {values : List JsonValue} {rs : List Value} :
    valuesOf values = some rs ↔ List.Forall₂ (fun v r => v.toValue = some r) values rs := by
  induction values generalizing rs with
  | nil => simp [valuesOf, eq_comm]
  | cons v values ih => simp only [valuesOf_cons, ih, List.forall₂_cons_left_iff]

/-- A member and its entry. -/
def IsEntry (m : String × JsonValue) (e : Value × Value) : Prop :=
  e.1 = .text m.1 ∧ m.2.toValue = some e.2

theorem entriesOf_eq_some {members : List (String × JsonValue)} {rs : List (Value × Value)} :
    entriesOf members = some rs ↔ List.Forall₂ IsEntry members rs := by
  induction members generalizing rs with
  | nil => simp [entriesOf, eq_comm]
  | cons m members ih =>
    obtain ⟨k, v⟩ := m
    simp only [entriesOf_cons, ih, List.forall₂_cons_left_iff]
    constructor
    · rintro ⟨r, rs', hr, hrs, rfl⟩
      exact ⟨(.text k, r), rs', ⟨rfl, hr⟩, hrs, rfl⟩
    · rintro ⟨⟨k', r⟩, rs', ⟨hk, hr⟩, hrs, rfl⟩
      cases hk
      exact ⟨r, rs', hr, hrs, rfl⟩

theorem dag_eq_ok {v : JsonValue} {b : List UInt8} :
    dag v = .ok b ↔ ∃ r, v.toValue = some r ∧ encode r (.payload 262144) false = .ok b := by
  simp only [dag, bind_eq_ok, fromJson_eq_ok]
  constructor
  · rintro ⟨r, ⟨hr, _⟩, hb⟩
    exact ⟨r, hr, hb⟩
  · rintro ⟨r, hr, hb⟩
    exact ⟨r, ⟨hr, b, hb⟩, hb⟩

end Conversion

section Encoding

variable {limits : Limits} {levels : Nat}

theorem dagValues_eq_map (values : List JsonValue) : dagValues values = values.map dagCbor := by
  induction values with
  | nil => rfl
  | cons v values ih => rw [dagValues, ih, List.map_cons]

theorem dagMembers_eq_map (members : List (String × JsonValue)) :
    dagMembers members = members.map fun m => (asBytes m.1, dagCbor m.2) := by
  induction members with
  | nil => rfl
  | cons m members ih =>
    obtain ⟨k, v⟩ := m
    rw [dagMembers, ih, List.map_cons]

/-- The writer's bytes are those of DAG-CBOR. -/
theorem encoding_eq_dagCbor {v : JsonValue} (hv : NumberFree v) :
    ∀ {levels : Nat} {r : Value}, v.toValue = some r → Shaped limits writing levels r →
      r.encoding = dagCbor v := by
  induction hv with
  | null | bool b | string s =>
    intro levels r hr hs
    cases hr
    rfl
  | array values hfree ih =>
    intro levels r hr hs
    cases levels with
    | zero => exact hs.elim
    | succ levels =>
    obtain ⟨rs, hrs, rfl⟩ := toValue_array.1 hr
    have hpairs := valuesOf_eq_some.1 hrs
    have hencodings : rs.map Value.encoding = values.map dagCbor := by
      have hshaped := hs.2.2
      clear hr hrs hs hfree
      induction hpairs with
      | nil => rfl
      | cons hv _ ihs =>
        rw [List.forall_mem_cons] at ih hshaped
        rw [List.map_cons, List.map_cons, ih.1 hv hshaped.1, ihs ih.2 hshaped.2]
    rw [encoding_array, dagCbor, dagValues_eq_map, hencodings, hpairs.length_eq]
  | object members hfree ih =>
    intro levels r hr hs
    cases levels with
    | zero => exact hs.elim
    | succ levels =>
    obtain ⟨rs, hrs, rfl⟩ := toValue_object.1 hr
    have hpairs := entriesOf_eq_some.1 hrs
    have hshaped := hs.2.2.2
    clear hs
    have hencodings : encodingPairs rs =
        (dagMembers members).map fun m => (head 3 m.1.length ++ m.1, m.2) := by
      rw [encodingPairs_eq_map, dagMembers_eq_map, List.map_map]
      clear hr hrs hfree
      induction hpairs with
      | nil => rfl
      | cons hm _ ihs =>
        rw [List.forall_mem_cons] at ih hshaped
        rw [List.map_cons, List.map_cons, ihs ih.2 hshaped.2, hm.1,
          ih.1 hm.2 hshaped.1.2.2]
        rfl
    have hshort : ∀ m ∈ dagMembers members, m.1.length < 2 ^ 64 := by
      rw [dagMembers_eq_map]
      clear hr hrs hfree ih hencodings
      induction hpairs with
      | nil => simp
      | cons hm _ ihs =>
        rw [List.forall_mem_cons] at hshaped
        rw [List.map_cons, List.forall_mem_cons]
        refine ⟨?_, ihs hshaped.2⟩
        obtain ⟨_, hkey, _⟩ := hshaped.1
        rw [hm.1] at hkey
        cases levels with
        | zero => exact hkey.elim
        | succ levels => exact hkey.1.trans_lt limits.text.toNat_lt
    rw [Value.encoding, dagCbor, hencodings,
      ← List.map_insertionSort (r := fun a b : List UInt8 × List UInt8 => LengthFirst a.1 b.1)
        (s := fun a b : List UInt8 × List UInt8 => a.1 ≤ b.1) _ _
        (fun a ha b hb => lengthFirst_head (hshort a ha) (hshort b hb)),
      List.map_map, hpairs.length_eq]
    rfl

/-- Values that differ in the order of members convert to values of one encoding. -/
theorem Same.toValue {v w : JsonValue} (h : Same v w) : ∀ {r : Value}, v.toValue = some r →
    ∃ r', w.toValue = some r' ∧ ∀ {levels : Nat}, Shaped limits writing levels r →
      Shaped limits writing levels r' ∧ r'.items = r.items ∧ r'.encoding = r.encoding := by
  induction h with
  | refl v => exact fun {r} hr => ⟨r, hr, fun hs => ⟨hs, rfl, rfl⟩⟩
  | trans _ _ ihuv ihvw =>
    intro r hr
    obtain ⟨r', hr', halike⟩ := ihuv hr
    obtain ⟨r'', hr'', halike'⟩ := ihvw hr'
    refine ⟨r'', hr'', fun hs => ?_⟩
    obtain ⟨hs', hitems, hencoding⟩ := halike hs
    obtain ⟨hs'', hitems', hencoding'⟩ := halike' hs'
    exact ⟨hs'', hitems'.trans hitems, hencoding'.trans hencoding⟩
  | element before after _ ih =>
    intro r hr
    obtain ⟨rs, hrs, rfl⟩ := toValue_array.1 hr
    obtain ⟨before', q, after', rfl, hq, hreplace⟩ := forall₂_replace (valuesOf_eq_some.1 hrs)
    obtain ⟨q', hq', halike⟩ := ih hq
    refine ⟨_, toValue_array.2 ⟨_, valuesOf_eq_some.2 (hreplace _ q' hq'), rfl⟩, fun hs => ?_⟩
    rename_i levels
    cases levels with
    | zero => exact hs.elim
    | succ levels =>
    obtain ⟨hlength, _, hall⟩ := hs
    simp only [List.forall_mem_append, List.forall_mem_cons] at hall
    obtain ⟨hq, hitems, hencoding⟩ := halike hall.2.1
    refine ⟨⟨?_, trivial, ?_⟩, ?_, ?_⟩
    · simpa only [List.length_append, List.length_cons] using hlength
    · simp only [List.forall_mem_append, List.forall_mem_cons]
      exact ⟨hall.1, hq, hall.2.2⟩
    · simp only [items_array, List.map_append, List.map_cons, hitems]
    · simp only [encoding_array, List.map_append, List.map_cons, hencoding, List.length_append,
        List.length_cons]
  | member before after k _ ih =>
    intro r hr
    obtain ⟨rs, hrs, rfl⟩ := toValue_object.1 hr
    obtain ⟨before', ⟨key, q⟩, after', rfl, ⟨hkey, hq⟩, hreplace⟩ :=
      forall₂_replace (entriesOf_eq_some.1 hrs)
    cases hkey
    obtain ⟨q', hq', halike⟩ := ih hq
    refine ⟨_, toValue_object.2
      ⟨_, entriesOf_eq_some.2 (hreplace (k, _) (.text k, q') ⟨rfl, hq'⟩), rfl⟩, fun hs => ?_⟩
    rename_i levels
    cases levels with
    | zero => exact hs.elim
    | succ levels =>
    obtain ⟨hlength, _, hkeys, hall⟩ := hs
    simp only [List.forall_mem_append, List.forall_mem_cons] at hall
    obtain ⟨hbefore, ⟨hkey, hk, hq⟩, hafter⟩ := hall
    obtain ⟨hq, hitems, hencoding⟩ := halike hq
    refine ⟨⟨?_, trivial, ?_, ?_⟩, ?_, ?_⟩
    · simpa only [List.length_append, List.length_cons] using hlength
    · simpa only [List.map_append, List.map_cons] using hkeys
    · simp only [List.forall_mem_append, List.forall_mem_cons]
      exact ⟨hbefore, ⟨hkey, hk, hq⟩, hafter⟩
    · simp only [items_map, List.map_append, List.map_cons, hitems]
    · simp only [Value.encoding, encodingPairs_eq_map, List.map_append, List.map_cons, hencoding,
        List.length_append, List.length_cons]
  | order h =>
    intro r hr
    obtain ⟨rs, hrs, rfl⟩ := toValue_object.1 hr
    obtain ⟨rs', hrs', hperm⟩ := List.perm_comp_forall₂ h.symm (entriesOf_eq_some.1 hrs)
    refine ⟨_, toValue_object.2 ⟨rs', entriesOf_eq_some.2 hrs', rfl⟩, fun hs => ?_⟩
    rename_i levels
    cases levels with
    | zero => exact hs.elim
    | succ levels =>
    obtain ⟨hlength, _, hkeys, hall⟩ := hs
    have hkeys' : (rs'.map fun e => e.1.encoding).Nodup := (hperm.map _).nodup_iff.2 hkeys
    have hsorted : sortEntries rs' = sortEntries rs := by
      apply insertionSort_eq_of_perm hperm
      intro a ha b hb hab hba
      exact List.inj_on_of_nodup_map hkeys' ha hb (le_antisymm hab hba)
    refine ⟨⟨?_, trivial, hkeys', fun e he => hall e (hperm.mem_iff.1 he)⟩, ?_, ?_⟩
    · rw [hperm.length_eq]
      exact hlength
    · rw [items_map, items_map, (hperm.map _).sum_nat]
    · rw [encoding_map, encoding_map, hsorted, hperm.length_eq]

end Encoding

section Injectivity

theorem Same.elements {values values' : List JsonValue} (h : List.Forall₂ Same values values') :
    ∀ before, Same (.array (before ++ values)) (.array (before ++ values')) := by
  induction h with
  | nil => exact fun before => .refl _
  | @cons v v' _ _ hv _ ih =>
    intro before
    refine .trans (.element before _ hv) ?_
    simpa only [List.append_assoc, List.singleton_append] using ih (before ++ [v'])

theorem Same.members {members members' : List (String × JsonValue)}
    (h : List.Forall₂ (fun m m' => m.1 = m'.1 ∧ Same m.2 m'.2) members members') :
    ∀ before, Same (.object (before ++ members)) (.object (before ++ members')) := by
  induction h with
  | nil => exact fun before => .refl _
  | @cons m m' _ _ hm _ ih =>
    intro before
    obtain ⟨k, v⟩ := m
    obtain ⟨k', v'⟩ := m'
    obtain ⟨rfl, hv⟩ := hm
    refine .trans (.member before _ k hv) ?_
    simpa only [List.append_assoc, List.singleton_append] using ih (before ++ [(k, v')])

/-- Values whose conversions agree up to sorting differ in the order of members only. -/
theorem same_of_sorted {v : JsonValue} (hv : NumberFree v) : ∀ {w : JsonValue} {r r' : Value},
    NumberFree w → v.toValue = some r → w.toValue = some r' → r.sorted = r'.sorted →
      Same v w := by
  induction hv with
  | null | bool b | string s =>
    intro w r r' hw hr hr' h
    cases hr
    cases hw with
    | null | bool b' | string s' =>
      cases hr'
      cases h <;> exact .refl _
    | array values' _ =>
      obtain ⟨rs', _, rfl⟩ := toValue_array.1 hr'
      rw [sorted_array] at h
      cases h
    | object members' _ =>
      obtain ⟨rs', _, rfl⟩ := toValue_object.1 hr'
      rw [sorted_map] at h
      cases h
  | array values hfree ih =>
    intro w r r' hw hr hr' h
    obtain ⟨rs, hrs, rfl⟩ := toValue_array.1 hr
    rw [sorted_array] at h
    cases hw with
    | null | bool b' | string s' =>
      cases hr'
      cases h
    | object members' _ =>
      obtain ⟨rs', _, rfl⟩ := toValue_object.1 hr'
      rw [sorted_map] at h
      cases h
    | array values' hfree' =>
      obtain ⟨rs', hrs', rfl⟩ := toValue_array.1 hr'
      rw [sorted_array, Value.array.injEq] at h
      have hpairs := valuesOf_eq_some.1 hrs
      have hpairs' := valuesOf_eq_some.1 hrs'
      refine Same.elements ?_ []
      clear hr hr' hrs hrs' hfree
      induction hpairs generalizing values' rs' with
      | nil =>
        obtain rfl := List.map_eq_nil_iff.1 h.symm
        cases hpairs'
        exact .nil
      | cons hv _ ihs =>
        cases hpairs' with
        | nil => cases h
        | cons hv' hpairs' =>
          rw [List.map_cons, List.map_cons, List.cons.injEq] at h
          rw [List.forall_mem_cons] at ih hfree'
          exact .cons (ih.1 hfree'.1 hv hv' h.1) (ihs ih.2 _ hfree'.2 _ h.2 hpairs')
  | object members hfree ih =>
    intro w r r' hw hr hr' h
    obtain ⟨rs, hrs, rfl⟩ := toValue_object.1 hr
    rw [sorted_map] at h
    cases hw with
    | null | bool b' | string s' =>
      cases hr'
      cases h
    | array values' _ =>
      obtain ⟨rs', _, rfl⟩ := toValue_array.1 hr'
      rw [sorted_array] at h
      cases h
    | object members' hfree' =>
      obtain ⟨rs', hrs', rfl⟩ := toValue_object.1 hr'
      rw [sorted_map, Value.map.injEq] at h
      let sorted (e : Value × Value) := Prod.map Value.sorted Value.sorted e
      have hperm : (rs.map sorted).Perm (rs'.map sorted) :=
        (sortEntries_perm _).symm.trans ((List.Perm.of_eq h).trans (sortEntries_perm _))
      let Partner (m : String × JsonValue) (z : Value × Value) :=
        ∃ e, IsEntry m e ∧ z = sorted e
      have hpartners {members rs} (hrs : entriesOf members = some rs) :
          List.Forall₂ Partner members (rs.map sorted) :=
        List.forall₂_map_right_iff.2
          ((entriesOf_eq_some.1 hrs).imp fun m e he => ⟨e, he, rfl⟩)
      obtain ⟨found, hfound, hpairs⟩ := forall₂_of_perm (hpartners hrs) (hpartners hrs') hperm
      refine .trans (Same.members ?_ []) (.order hfound)
      have hfree'' (m) (hm : m ∈ found) : NumberFree m.2 := hfree' m (hfound.mem_iff.1 hm)
      clear hr hr' hrs hrs' hfree h hfound hperm
      induction hpairs with
      | nil => exact .nil
      | cons hm _ ihs =>
        obtain ⟨_, ⟨e, he, rfl⟩, e', he', hsorted⟩ := hm
        rw [List.forall_mem_cons] at ih hfree''
        refine .cons ⟨?_, ?_⟩ (ihs ih.2 hfree''.2)
        · have hkey := congrArg Prod.fst hsorted
          simp only [sorted, Prod.map_fst, he.1, he'.1, Value.sorted,
            Value.text.injEq] at hkey
          exact hkey
        · have hvalue := congrArg Prod.snd hsorted
          exact ih.1 hfree''.1 he.2 he'.2 hvalue

end Injectivity

/-- The bytes of an operation are its DAG-CBOR encoding, whatever the order of its members, its
identity is the one that encoding has, and two operations share bytes only if they differ in the
order of members. -/
theorem dag_isDagCbor (lib : Digests) {v : JsonValue} (hv : NumberFree v) :
    (∀ b, dag v = .ok b → b = dagCbor v) ∧
    (∀ w b, Same v w → dag v = .ok b → dag w = .ok b) ∧
    (∀ did cid, identity lib v = .ok (did, cid) →
      did = operationDid lib (dagCbor v) ∧ cid = blockCid lib (dagCbor v)) ∧
    (∀ w b, NumberFree w → dag v = .ok b → dag w = .ok b → Same v w) := by
  have hbytes (b) (hb : dag v = .ok b) : b = dagCbor v := by
    obtain ⟨r, hr, hencode⟩ := dag_eq_ok.1 hb
    obtain ⟨hs, _, rfl, _⟩ := encode_eq_ok.1 hencode
    exact encoding_eq_dagCbor hv hr hs
  refine ⟨hbytes, ?_, ?_, ?_⟩
  · intro w b hsame hb
    obtain ⟨r, hr, hencode⟩ := dag_eq_ok.1 hb
    obtain ⟨hs, hitems, rfl, hread⟩ := encode_eq_ok.1 hencode
    obtain ⟨r', hr', halike⟩ := hsame.toValue hr
    obtain ⟨hs', hitems', hencoding⟩ := halike hs
    refine dag_eq_ok.2 ⟨r', hr', encode_eq_ok.2 ⟨hs', ?_, hencoding.symm, hread⟩⟩
    rw [hitems']
    exact hitems
  · intro did cid h
    simp only [identity, bind_eq_ok, guard_eq_ok, Except.ok.injEq, Prod.mk.injEq] at h
    obtain ⟨b, hb, _, rfl, rfl⟩ := h
    rw [hbytes b hb]
    exact ⟨rfl, rfl⟩
  · intro w b hw hb hb'
    obtain ⟨r, hr, hencode⟩ := dag_eq_ok.1 hb
    obtain ⟨r', hr', hencode'⟩ := dag_eq_ok.1 hb'
    have hdecode := (codec_canonical _ _).2.1 _ _ hencode
    have hdecode' := (codec_canonical _ _).2.1 _ _ hencode'
    have hsorted : r.sorted = r'.sorted := Except.ok.inj (hdecode.symm.trans hdecode')
    exact same_of_sorted hv hw hr hr' hsorted

private def signedOperation : JsonValue :=
  .object [("type", .string "op"), ("prev", .null), ("sig", .array [.string "é", .bool true])]

/-- The hash of that operation, and the base 32 of the hash and of its content identifier. -/
private def operationDigests : Digests where
  sha256 _ := [0xf1, 0xfd, 0x64, 0x06, 0x44, 0x69, 0x4a, 0xc5, 0x0e, 0x0b, 0x7f, 0x1d, 0xf8, 0x38,
    0x80, 0x4d, 0x22, 0xc2, 0x36, 0xa4, 0xb0, 0xd2, 0x38, 0x44, 0xc3, 0x1f, 0xba, 0x3b, 0xeb, 0x83,
    0xce, 0xf9]
  base32 b :=
    if b.length = 32 then "6H6WIBSENFFMKDQLP4O7QOEAJURMENVEWDJDQRGDD65DX24DZ34Q"
    else "AFYREIHR7VSAMRDJJLCQ4C37DX4DRACNELBDNJFQ2I4EJQY7XI56XA6O7E"

/-- An operation with its longer members first is written with them last. -/
theorem dag_isDagCbor_operation :
    dagCbor signedOperation = [0xa3, 0x63, 0x73, 0x69, 0x67, 0x82, 0x62, 0xc3, 0xa9, 0xf5, 0x64,
      0x70, 0x72, 0x65, 0x76, 0xf6, 0x64, 0x74, 0x79, 0x70, 0x65, 0x62, 0x6f, 0x70] ∧
    operationDid operationDigests (dagCbor signedOperation) = "did:plc:6h6wibsenffmkdqlp4o7qoea" ∧
    blockCid operationDigests (dagCbor signedOperation) =
      "bafyreihr7vsamrdjjlcq4c37dx4dracnelbdnjfq2i4ejqy7xi56xa6o7e" := by
  have hfree : NumberFree signedOperation := by
    refine .object _ fun m hm => ?_
    simp only [List.mem_cons, List.not_mem_nil, or_false] at hm
    rcases hm with rfl | rfl | rfl
    · exact .string "op"
    · exact .null
    · refine .array _ fun v hv => ?_
      simp only [List.mem_cons, List.not_mem_nil, or_false] at hv
      rcases hv with rfl | rfl
      · exact .string "é"
      · exact .bool true
  have hbytes : dag signedOperation = .ok [0xa3, 0x63, 0x73, 0x69, 0x67, 0x82, 0x62, 0xc3, 0xa9,
      0xf5, 0x64, 0x70, 0x72, 0x65, 0x76, 0xf6, 0x64, 0x74, 0x79, 0x70, 0x65, 0x62, 0x6f,
      0x70] := by
    rfl
  have hidentity : identity operationDigests signedOperation =
      .ok ("did:plc:6h6wibsenffmkdqlp4o7qoea",
        "bafyreihr7vsamrdjjlcq4c37dx4dracnelbdnjfq2i4ejqy7xi56xa6o7e") := by
    decide +kernel
  obtain ⟨hdag, _, hnames, _⟩ := dag_isDagCbor operationDigests hfree
  obtain ⟨hdid, hcid⟩ := hnames _ _ hidentity
  exact ⟨(hdag _ hbytes).symm, hdid.symm, hcid.symm⟩

end HailProto.Cbor
