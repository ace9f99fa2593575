import HailProto.Server.JsonStringify

/-!
# Deep equality

Values of JavaScript that are equal part by part: arrays element by element, and objects property
by property, whatever the order in which the properties were created.
-/

namespace HailProto.Server

variable {ν : Type}

/-- The property of a name. -/
def ownProperty (properties : List (JsString × JsValue ν)) (name : JsString) : Option (JsValue ν) :=
  (properties.find? fun p => p.1 = name).map Prod.snd

theorem getProperty_eq (properties : List (JsString × JsValue ν)) (name : String) :
    Json.getProperty properties name = ownProperty properties (js name) := rfl

/-- `isDeepStrictEqual`, of values with objects, arrays and scalars. -/
inductive DeepEqual : JsValue ν → JsValue ν → Prop
  | null : DeepEqual .null .null
  | boolean (value : Bool) : DeepEqual (.boolean value) (.boolean value)
  | number (value : ν) : DeepEqual (.number value) (.number value)
  | string (text : JsString) : DeepEqual (.string text) (.string text)
  | array {elements elements' : List (JsValue ν)} (h : List.Forall₂ DeepEqual elements elements') :
      DeepEqual (.array elements) (.array elements')
  | object {properties properties' : List (JsString × JsValue ν)}
      (h : ∀ name, Option.Rel DeepEqual (ownProperty properties name)
        (ownProperty properties' name)) :
      DeepEqual (.object properties) (.object properties')

section Properties

variable {properties : List (JsString × JsValue ν)} {name : JsString}

@[simp] theorem ownProperty_nil : ownProperty ([] : List (JsString × JsValue ν)) name = none := rfl

theorem ownProperty_cons (p : JsString × JsValue ν) :
    ownProperty (p :: properties) name =
      if p.1 = name then some p.2 else ownProperty properties name := by
  by_cases h : p.1 = name
  · simp [ownProperty, h]
  · simp [ownProperty, h]

theorem mem_of_ownProperty {v : JsValue ν} (h : ownProperty properties name = some v) :
    (name, v) ∈ properties := by
  induction properties with
  | nil => cases h
  | cons p properties ih =>
    rw [ownProperty_cons] at h
    split at h
    · rename_i hname
      cases h
      rw [← hname]
      exact List.mem_cons_self
    · exact List.mem_cons_of_mem _ (ih h)

theorem ownProperty_eq_some (hnames : (properties.map Prod.fst).Nodup) {v : JsValue ν} :
    ownProperty properties name = some v ↔ (name, v) ∈ properties := by
  refine ⟨mem_of_ownProperty, fun h => ?_⟩
  induction properties with
  | nil => cases h
  | cons p properties ih =>
    rw [List.map_cons, List.nodup_cons] at hnames
    rw [ownProperty_cons]
    obtain rfl | hrest := List.mem_cons.1 h
    · exact if_pos rfl
    · have hne : p.1 ≠ name := by
        rintro rfl
        exact hnames.1 (List.mem_map.2 ⟨_, hrest, rfl⟩)
      rw [if_neg hne]
      exact ih hnames.2 hrest

/-- Objects with the same properties have them in some order. -/
theorem perm_of_ownProperty {properties' : List (JsString × JsValue ν)}
    (hnames : (properties.map Prod.fst).Nodup) (hnames' : (properties'.map Prod.fst).Nodup)
    (h : ∀ name, ownProperty properties name = ownProperty properties' name) :
    properties.Perm properties' := by
  rw [List.perm_ext_iff_of_nodup hnames.of_map hnames'.of_map]
  rintro ⟨name, v⟩
  rw [← ownProperty_eq_some hnames, ← ownProperty_eq_some hnames', h]

/-- The order of properties does not matter to what they hold. -/
theorem ownProperty_perm {properties' : List (JsString × JsValue ν)}
    (h : properties.Perm properties') (hnames : (properties.map Prod.fst).Nodup)
    (name : JsString) : ownProperty properties name = ownProperty properties' name := by
  have hnames' : (properties'.map Prod.fst).Nodup := (h.map Prod.fst).nodup hnames
  refine Option.ext fun v => ?_
  rw [ownProperty_eq_some hnames, ownProperty_eq_some hnames', h.mem_iff]

end Properties

/-- The value of a program: no object has two properties of one name. -/
inductive DistinctNames : JsValue ν → Prop
  | null : DistinctNames .null
  | boolean (value : Bool) : DistinctNames (.boolean value)
  | number (value : ν) : DistinctNames (.number value)
  | string (text : JsString) : DistinctNames (.string text)
  | array {elements : List (JsValue ν)} (h : ∀ v ∈ elements, DistinctNames v) :
      DistinctNames (.array elements)
  | object {properties : List (JsString × JsValue ν)}
      (hnames : (properties.map Prod.fst).Nodup) (h : ∀ p ∈ properties, DistinctNames p.2) :
      DistinctNames (.object properties)

section Distinct

variable {properties : List (JsString × JsValue ν)} {elements : List (JsValue ν)} {v : JsValue ν}
  {name : JsString}

theorem DistinctNames.names (h : DistinctNames (.object properties)) :
    (properties.map Prod.fst).Nodup := by
  cases h with
  | object hnames _ => exact hnames

theorem DistinctNames.property (h : DistinctNames (.object properties))
    (hv : ownProperty properties name = some v) : DistinctNames v := by
  cases h with
  | object _ hproperties => exact hproperties _ (mem_of_ownProperty hv)

theorem DistinctNames.element (h : DistinctNames (.array elements)) (hv : v ∈ elements) :
    DistinctNames v := by
  cases h with
  | array helements => exact helements v hv

end Distinct

/-- Objects with the same names in the same order. -/
theorem DeepEqual.of_forall₂ {properties properties' : List (JsString × JsValue ν)}
    (h : List.Forall₂ (fun p q => p.1 = q.1 ∧ DeepEqual p.2 q.2) properties properties') :
    DeepEqual (.object properties) (.object properties') := by
  refine .object fun name => ?_
  induction h with
  | nil => exact .none
  | @cons p q properties properties' hpq _ ih =>
    obtain ⟨hname, hequal⟩ := hpq
    rw [ownProperty_cons, ownProperty_cons, hname]
    split
    · exact .some hequal
    · exact ih

mutual

theorem DeepEqual.refl : (v : JsValue ν) → DeepEqual v v
  | .null => .null
  | .boolean b => .boolean b
  | .number n => .number n
  | .string s => .string s
  | .array l => .array (DeepEqual.refl_elements l)
  | .object p => .of_forall₂ (DeepEqual.refl_properties p)

theorem DeepEqual.refl_elements : (l : List (JsValue ν)) → List.Forall₂ DeepEqual l l
  | [] => .nil
  | v :: l => .cons (DeepEqual.refl v) (DeepEqual.refl_elements l)

theorem DeepEqual.refl_properties : (p : List (JsString × JsValue ν)) →
    List.Forall₂ (fun p q => p.1 = q.1 ∧ DeepEqual p.2 q.2) p p
  | [] => .nil
  | (_, v) :: p => .cons ⟨rfl, DeepEqual.refl v⟩ (DeepEqual.refl_properties p)

end

theorem deepEqual_string {v : JsValue ν} {s : JsString} :
    DeepEqual (.string s) v ↔ v = .string s := by
  constructor
  · rintro ⟨⟩
    rfl
  · rintro rfl
    exact .string s

theorem deepEqual_number {v : JsValue ν} {n : ν} : DeepEqual (.number n) v ↔ v = .number n := by
  constructor
  · rintro ⟨⟩
    rfl
  · rintro rfl
    exact .number n

theorem deepEqual_null {v : JsValue ν} : DeepEqual .null v ↔ v = .null := by
  constructor
  · rintro ⟨⟩
    rfl
  · rintro rfl
    exact .null

theorem deepEqual_array {elements elements' : List (JsValue ν)} :
    DeepEqual (.array elements) (.array elements') ↔
      List.Forall₂ DeepEqual elements elements' := by
  constructor
  · rintro ⟨⟩
    assumption
  · exact .array

theorem deepEqual_string_string {s t : JsString} :
    DeepEqual (.string s : JsValue ν) (.string t) ↔ s = t := by
  rw [deepEqual_string, JsValue.string.injEq, eq_comm]

theorem deepEqual_number_number {m n : ν} :
    DeepEqual (.number m : JsValue ν) (.number n) ↔ m = n := by
  rw [deepEqual_number, JsValue.number.injEq, eq_comm]

/-- Scalars that may be missing. -/
theorem deepEqual_elim {α : Type} {f : α → JsValue ν} (hnull : ∀ a, f a ≠ .null)
    (hf : ∀ a b, DeepEqual (f a) (f b) ↔ a = b) {o o' : Option α} :
    DeepEqual (o.elim .null f) (o'.elim .null f) ↔ o = o' := by
  cases o with
  | none =>
    rw [Option.elim_none, deepEqual_null]
    cases o' with
    | none => simp
    | some b => simpa using hnull b
  | some a =>
    cases o' with
    | none =>
      simp only [Option.elim_some, Option.elim_none, reduceCtorEq, iff_false]
      intro h
      have hnull' := hnull a
      generalize f a = v at h hnull'
      cases h
      exact hnull' rfl
    | some b => simp [hf]

theorem deepEqual_strings {l l' : List JsString} :
    DeepEqual (.array (l.map .string) : JsValue ν) (.array (l'.map .string)) ↔ l = l' := by
  rw [deepEqual_array, List.forall₂_map_left_iff, List.forall₂_map_right_iff]
  simp only [deepEqual_string_string, List.forall₂_eq_eq_eq]

/-- The properties of equal objects are equal, one by one. -/
theorem DeepEqual.property {properties properties' : List (JsString × JsValue ν)}
    (h : DeepEqual (.object properties) (.object properties')) (name : JsString) :
    Option.Rel DeepEqual (ownProperty properties name) (ownProperty properties' name) := by
  cases h with
  | object h => exact h name

/-- The order of properties does not count. -/
theorem DeepEqual.of_perm {properties properties' : List (JsString × JsValue ν)}
    (h : properties.Perm properties') (hnames : (properties.map Prod.fst).Nodup) :
    DeepEqual (.object properties') (.object properties) := by
  refine .object fun name => ?_
  rw [ownProperty_perm h hnames name]
  cases ownProperty properties' name with
  | none => exact .none
  | some v => exact .some (.refl v)

/-- Objects with the same names, each once, are compared in their order. -/
theorem deepEqual_object {names : List JsString} {l r : List (JsValue ν)} (hnames : names.Nodup)
    (hl : l.length = names.length) (hl' : r.length = names.length) :
    DeepEqual (.object (names.zip l)) (.object (names.zip r)) ↔ List.Forall₂ DeepEqual l r := by
  constructor
  · intro h
    have hproperty := fun name => h.property name
    clear h
    induction names generalizing l r with
    | nil =>
      rw [List.length_nil, List.length_eq_zero_iff] at hl hl'
      subst hl hl'
      exact .nil
    | cons name names ih =>
      obtain ⟨v, l, rfl⟩ := List.exists_of_length_succ l hl
      obtain ⟨w, r, rfl⟩ := List.exists_of_length_succ r hl'
      obtain ⟨hname, hnames⟩ := List.nodup_cons.1 hnames
      have habsent : ∀ m : List (JsValue ν), ownProperty (names.zip m) name = none := by
        intro m
        rw [← Option.not_isSome_iff_eq_none, Option.isSome_iff_exists]
        rintro ⟨u, hu⟩
        exact hname (List.of_mem_zip (mem_of_ownProperty hu)).1
      refine .cons ?_ (ih hnames (Nat.succ.inj hl) (Nat.succ.inj hl') fun other => ?_)
      · have hfirst := hproperty name
        rw [List.zip_cons_cons, List.zip_cons_cons, ownProperty_cons, ownProperty_cons,
          if_pos rfl, if_pos rfl] at hfirst
        cases hfirst with
        | some h => exact h
      · by_cases hother : name = other
        · subst hother
          rw [habsent, habsent]
          exact .none
        · have hrest := hproperty other
          rwa [List.zip_cons_cons, List.zip_cons_cons, ownProperty_cons, ownProperty_cons,
            if_neg hother, if_neg hother] at hrest
  · intro h
    refine .of_forall₂ ?_
    clear hl hl' hnames
    induction h generalizing names with
    | nil =>
      rw [List.zip_nil_right]
      exact .nil
    | cons hvw _ ih =>
      cases names with
      | nil => exact .nil
      | cons name names => exact .cons ⟨rfl, hvw⟩ ih

end HailProto.Server
