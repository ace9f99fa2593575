import HailProto.Codec.Inspection

/-!
# What the command line accepts can be restored

The five schemas of the command line admit bytes only in members that the way back knows, and so
few of them that the texts that stand for them make a payload hardly longer.
-/

namespace HailProto.Codec.Rust

open Cbor (Value asBytes)
open TypeScript (diagnosticSize diagnosticSizes diagnosticEntrySizes encodedSize encodedSizes
  encodedEntrySizes argumentSize)

/-- A value that is restored, and whose bytes add at most this much to its size when shown. -/
structure Shows (growth : Nat) (v : Value) : Prop where
  restorable : Restorable v
  size : diagnosticSize v ≤ encodedSize v + growth

/-- The member with this name, if there is one, is restored under it. -/
def Member (growth : Nat) (r : Record) (k : String) : Prop :=
  ∀ v, r.get k = some v → diagnosticSize v ≤ encodedSize v + growth ∧
    if holdsBytes (isDigest r) k = true then HeldBytes k v else Restorable v

/-- The names under which a text can hold bytes. -/
def heldNames : List String := ["token", "previous", "data", "value"]

section Fields

variable {r : Record} {v : Value} {k s : String} {n minimum : Int} {b : List UInt8}
  {values : List Value} {u : Unit}

@[simp] theorem ensure_eq_ok {ok : Bool} : ensure ok = .ok u ↔ ok = true := by
  cases ok <;> simp [ensure]

/-- Two branches that go on alike. -/
theorem branch_eq_ok {α β : Type} {c : Prop} [Decidable c] {x y : Except Cbor.Error α}
    {f : α → Except Cbor.Error β} {result : β} :
    (if c then x >>= f else y >>= f) = .ok result ↔
      ∃ a, (if c then x else y) = .ok a ∧ f a = .ok result := by
  split_ifs <;> exact bind_eq_ok

theorem field_eq (hv : v ≠ .null) : field (.map r) k = v ↔ r.get k = some v := by
  rw [field]
  cases r.get k with
  | none =>
    rw [Option.getD_none]
    exact iff_of_false hv.symm (by simp)
  | some w => rw [Option.getD_some, Option.some.injEq]

theorem text_eq_ok : Rust.text v = .ok s ↔ v = .text s := by
  cases v <;> simp [Rust.text]

theorem bytes_eq_ok : Rust.bytes v = .ok b ↔ v = .bytes b := by
  cases v <;> simp [Rust.bytes]

theorem array_eq_ok : Rust.array v = .ok values ↔ v = .array values := by
  cases v <;> simp [Rust.array]

theorem uint_eq_ok : Rust.uint v minimum = .ok n ↔ v = .int n ∧ minimum ≤ n := by
  cases v with
  | int m =>
    rw [Rust.uint]
    split_ifs with hm
    · rw [Except.ok.injEq, Value.int.injEq]
      constructor
      · rintro rfl
        exact ⟨rfl, hm⟩
      · exact fun h => h.1
    · refine iff_of_false (by simp) ?_
      rintro ⟨h, hn⟩
      cases h
      exact hm hn
  | _ => simp [Rust.uint]

theorem text_field : Rust.text (field (.map r) k) = .ok s ↔ r.get k = some (.text s) := by
  rw [text_eq_ok, field_eq (by simp)]

theorem bytes_field : Rust.bytes (field (.map r) k) = .ok b ↔ r.get k = some (.bytes b) := by
  rw [bytes_eq_ok, field_eq (by simp)]

theorem array_field :
    Rust.array (field (.map r) k) = .ok values ↔ r.get k = some (.array values) := by
  rw [array_eq_ok, field_eq (by simp)]

theorem uint_field :
    Rust.uint (field (.map r) k) minimum = .ok n ↔ r.get k = some (.int n) ∧ minimum ≤ n := by
  rw [uint_eq_ok, field_eq (by simp)]

theorem isNull_iff : Schema.isNull v = true ↔ v = .null := by
  cases v <;> simp [Schema.isNull]

/-- The keys of a map that passes are texts of the list. -/
theorem exact_names {required optional : List String}
    (h : Schema.exact v required optional = .ok u) :
    ∃ r, v = .map r ∧ ∀ e ∈ r, ∃ k ∈ required ++ optional, e.1 = .text k := by
  cases v with
  | map r =>
    simp only [Schema.exact, bind_eq_ok, mapM_eq_ok, ensure_eq_ok, Bool.and_eq_true,
      List.all_eq_true, Bool.or_eq_true, List.contains_iff_mem, ← List.mem_append] at h
    obtain ⟨keys, hkeys, -, hnames⟩ := h
    refine ⟨r, rfl, ?_⟩
    induction hkeys with
    | nil => simp
    | cons hkey _ ih =>
      rw [List.forall_mem_cons] at hnames ⊢
      exact ⟨⟨_, hnames.1, text_eq_ok.1 hkey⟩, ih hnames.2⟩
  | _ => cases h

theorem holdsBytes_eq_false {digest : Bool} (hk : k ∉ heldNames) :
    holdsBytes digest k = false := by
  simp only [heldNames, List.mem_cons, List.not_mem_nil, or_false, not_or] at hk
  simp [holdsBytes, hk]

end Fields

section Members

variable {r : Record} {v : Value} {k s : String} {growth : Nat} {b : List UInt8}

theorem Plain.get (hr : Plain (.map r)) (hv : r.get k = some v) : Plain v := by
  cases hr with
  | map _ _ _ hall => exact hall _ (Record.mem_of_get hv)

theorem sum_le_of_distinct (bound : String → Nat) {keys names : List String} (hkeys : keys.Nodup)
    (h : ∀ k ∈ keys, k ∈ names) : (keys.map bound).sum ≤ (names.map bound).sum := by
  obtain ⟨l, hperm, hsub⟩ := List.subperm_of_subset hkeys h
  rw [← (hperm.map bound).sum_eq]
  exact (hsub.map bound).sum_le_sum fun _ _ => Nat.zero_le _

theorem diagnosticEntrySizes_le (bound : String → Nat)
    (h : ∀ e ∈ r, diagnosticSize e.2 ≤ encodedSize e.2 + bound e.1.keyText) :
    diagnosticEntrySizes r ≤
      encodedEntrySizes r + ((r.map fun e => e.1.keyText).map bound).sum := by
  induction r with
  | nil => exact Nat.zero_le _
  | cons e r ih =>
    obtain ⟨k, v⟩ := e
    rw [List.forall_mem_cons] at h
    have hle := ih h.2
    have hv := h.1
    dsimp only at hv
    simp only [diagnosticEntrySizes, encodedEntrySizes, List.map_cons, List.sum_cons]
    omega

namespace Shows

theorem int (n : Int) : Shows growth (.int n) := ⟨.int n, Nat.le_add_right _ _⟩

theorem text (s : String) : Shows growth (.text s) := ⟨.text s, Nat.le_add_right _ _⟩

/-- Each element adds at most this much. -/
theorem array {values : List Value} {total : Nat} (h : ∀ v ∈ values, Shows growth v)
    (hle : values.length * growth ≤ total) : Shows total (.array values) := by
  refine ⟨.array fun v hv => (h v hv).restorable, ?_⟩
  rw [diagnosticSize, encodedSize]
  have hsum : diagnosticSizes values ≤ encodedSizes values + values.length * growth := by
    clear hle
    induction values with
    | nil => exact Nat.zero_le _
    | cons v values ih =>
      rw [List.forall_mem_cons] at h
      have hle := ih h.2
      have hv := h.1.size
      rw [diagnosticSizes, encodedSizes, List.length_cons, Nat.succ_mul]
      omega
  omega

/-- A record adds what its members add. -/
theorem of_exact {names : List String} (bound : String → Nat) (hr : Plain (.map r))
    (hnames : ∀ e ∈ r, ∃ k ∈ names, e.1 = .text k) (htoken : "token" ∉ names)
    (h : names.Forall fun k => Member (bound k) r k) : Shows (names.map bound).sum (.map r) := by
  cases hr with
  | map _ _ hkeys _ =>
  have hkey : ∀ e ∈ r, e.1 = .text e.1.keyText ∧ e.1.keyText ∈ names := by
    intro e he
    obtain ⟨k, hk, htext⟩ := hnames e he
    rw [htext]
    exact ⟨rfl, hk⟩
  have hmember : ∀ e ∈ r, diagnosticSize e.2 ≤ encodedSize e.2 + bound e.1.keyText ∧
      if holdsBytes (isDigest r) e.1.keyText = true then HeldBytes e.1.keyText e.2
      else Restorable e.2 := fun e he =>
    List.forall_iff_forall_mem.1 h _ (hkey e he).2 _ (Record.get_of_mem hkeys he (hkey e he).1)
  constructor
  · refine .map (fun e he => (hkey e he).1) (fun e he heq => ?_) (fun e he hholds => ?_)
      fun e he hholds => ?_
    · apply htoken
      rw [← heq]
      exact (hkey e he).2
    · have hheld := (hmember e he).2
      rwa [if_pos hholds] at hheld
    · have hfree := (hmember e he).2
      rwa [hholds, if_neg Bool.false_ne_true] at hfree
  · have hdistinct : (r.map fun e => e.1.keyText).Nodup := by
      refine List.Nodup.of_map Value.text ?_
      rw [List.map_map]
      rwa [List.map_congr_left fun e he => (hkey e he).1] at hkeys
    have hsubset : ∀ k ∈ r.map fun e => e.1.keyText, k ∈ names := by
      intro k hk
      obtain ⟨e, he, rfl⟩ := List.mem_map.1 hk
      exact (hkey e he).2
    have hsum := sum_le_of_distinct bound hdistinct hsubset
    have hentries := diagnosticEntrySizes_le bound fun e he => (hmember e he).1
    rw [diagnosticSize, encodedSize]
    omega

end Shows

namespace Member

theorem plain (hk : k ∉ heldNames) (hv : r.get k = some v) (h : Shows growth v) :
    Member growth r k := by
  intro w hw
  rw [hv] at hw
  cases hw
  rw [holdsBytes_eq_false hk, if_neg Bool.false_ne_true]
  exact ⟨h.size, h.restorable⟩

theorem text (hk : k ∉ heldNames) (hv : r.get k = some (.text s)) : Member growth r k :=
  .plain hk hv (.text s)

theorem int {n : Int} (hk : k ∉ heldNames) (hv : r.get k = some (.int n)) : Member growth r k :=
  .plain hk hv (.int n)

theorem absent (h : r.get k = none) : Member growth r k := by
  intro w hw
  rw [h] at hw
  cases hw

theorem null (h : Schema.isNull (field (.map r) k) = true) : Member growth r k := by
  intro w hw
  rw [isNull_iff, field, hw, Option.getD_some] at h
  subst h
  refine ⟨Nat.le_add_right _ _, ?_⟩
  split
  · exact .inl rfl
  · exact .null

theorem bytes (hk : holdsBytes (isDigest r) k = true) (hv : r.get k = some (.bytes b))
    (hlength : k ≠ "data" → b.length = 32)
    (hsize : diagnosticSize (.bytes b) ≤ encodedSize (.bytes b) + growth) : Member growth r k := by
  intro w hw
  rw [hv] at hw
  cases hw
  rw [if_pos hk]
  exact ⟨hsize, .inr ⟨b, rfl, hlength⟩⟩

end Member

/-- The text of 32 bytes is eleven letters longer. -/
theorem size_digest (hlength : b.length = 32) :
    diagnosticSize (.bytes b) ≤ encodedSize (.bytes b) + 11 := by
  rw [diagnosticSize, encodedSize, hlength]
  decide

/-- What each member of a digest adds. -/
def digestGrowth (k : String) : Nat := if k = "value" then 11 else 0

theorem hash_shows {u : Unit} (hv : Plain v) (h : Schema.hash v = .ok u) : Shows 11 v := by
  simp only [Schema.hash, bind_eq_ok, ensure_eq_ok, Bool.and_eq_true, beq_iff_eq] at h
  obtain ⟨_, hexact, algorithm, halgorithm, b, hb, rfl, hlength⟩ := h
  obtain ⟨d, rfl, hnames⟩ := exact_names hexact
  rw [text_field] at halgorithm
  rw [bytes_field] at hb
  have hdigest : isDigest d = true := by
    rw [isDigest, List.any_eq_true]
    exact ⟨_, Record.mem_of_get halgorithm, rfl⟩
  have hholds : holdsBytes (isDigest d) "value" = true := by
    rw [hdigest]
    rfl
  refine .of_exact digestGrowth hv hnames (by decide) ?_
  exact ⟨.text (by decide) halgorithm, .bytes hholds hb (fun _ => hlength) (size_digest hlength)⟩

theorem Member.hash {u : Unit} (hr : Plain (.map r)) (hk : k ∉ heldNames)
    (h : Schema.hash (field (.map r) k) = .ok u) : Member 11 r k := by
  cases hv : r.get k with
  | none =>
    intro w hw
    rw [hv] at hw
    cases hw
  | some v =>
    rw [field, hv, Option.getD_some] at h
    exact .plain hk hv (hash_shows (Plain.get hr hv) h)

theorem did_text {u : Unit} (h : Schema.did (field (.map r) k) = .ok u) :
    ∃ s, r.get k = some (.text s) := by
  simp only [Schema.did, bind_eq_ok, text_field] at h
  obtain ⟨s, hs, _⟩ := h
  exact ⟨s, hs⟩

theorem key_text {u : Unit} {signer role : String}
    (h : Schema.key (field (.map r) k) signer role = .ok u) : ∃ s, r.get k = some (.text s) := by
  simp only [Schema.key, bind_eq_ok, text_field] at h
  obtain ⟨s, hs, _⟩ := h
  exact ⟨s, hs⟩

theorem address_text {u : Unit} {oracle : DomainOracle}
    (h : Rust.address oracle (field (.map r) k) = .ok u) : ∃ s, r.get k = some (.text s) := by
  simp only [Rust.address, bind_eq_ok, text_field] at h
  obtain ⟨s, hs, _⟩ := h
  exact ⟨s, hs⟩

theorem schemaText_text {u : Unit} {lib : Libraries} {max : Nat}
    (h : Schema.text lib (field (.map r) k) max = .ok u) : ∃ s, r.get k = some (.text s) := by
  simp only [Schema.text, bind_eq_ok, text_field] at h
  obtain ⟨s, hs, _⟩ := h
  exact ⟨s, hs⟩

end Members

section Objects

variable {r : Record} {lib : Libraries} {type : String} {u : Unit}

theorem addressBinding_shows {oracle : DomainOracle} (hr : Plain (.map r))
    (htype : r.get "type" = some (.text type))
    (h : Schema.addressBinding oracle (.map r) = .ok u) : Shows 0 (.map r) := by
  simp only [Schema.addressBinding, bind_eq_ok, uint_field, text_field] at h
  obtain ⟨_, hexact, version, ⟨hversion, _⟩, _, _, _, hdid, _, haddress, issued, ⟨hissued, _⟩,
    signer, hsigner, hkey⟩ := h
  obtain ⟨_, hmap, hnames⟩ := exact_names hexact
  cases hmap
  obtain ⟨address, haddress⟩ := address_text haddress
  obtain ⟨id, hid⟩ := key_text hkey
  refine .of_exact (fun _ => 0) hr hnames (by decide) ?_
  refine ⟨.int ?_ hversion, .text ?_ htype, .text ?_ haddress, .text ?_ hsigner, .int ?_ hissued,
    .text ?_ hid⟩ <;> decide

theorem connectionExpiry_member {confirmation : Bool} {issued : Int} {growth : Nat}
    (h : Schema.connectionExpiry confirmation issued (field (.map r) "expires_at") = .ok u) :
    Member growth r "expires_at" := by
  rw [Schema.connectionExpiry] at h
  split at h
  next hnull => exact .null hnull
  next _ =>
      simp only [bind_eq_ok, uint_field] at h
      obtain ⟨expiry, ⟨hexpiry, _⟩, _⟩ := h
      exact .int (by decide) hexpiry

/-- What each member of a connection object adds. -/
def connectionGrowth (k : String) : Nat :=
  if k = "token_hash" ∨ k = "invitation_hash" then 11 else 0

theorem connection_shows {kind : String} (hr : Plain (.map r))
    (htype : r.get "type" = some (.text type))
    (h : Schema.connection kind (.map r) = .ok u) : Shows 11 (.map r) := by
  simp only [Schema.connection, bind_eq_ok, branch_eq_ok, uint_field, text_field] at h
  obtain ⟨_, hexact, version, ⟨hversion, _⟩, id, hid, _, _, _, _, _, hrest, issued, ⟨hissued, _⟩,
    _, hexpires, signer, hsigner, hkey⟩ := h
  obtain ⟨_, hmap, hnames⟩ := exact_names hexact
  cases hmap
  obtain ⟨keyId, hkeyId⟩ := key_text hkey
  cases hconfirmation : kind == "hail.connection-confirmation" with
  | false =>
    simp only [hconfirmation, Bool.false_eq_true, if_false] at hnames hrest
    refine .of_exact connectionGrowth hr hnames (by decide) ?_
    refine ⟨.text ?_ htype, .int ?_ hversion, .text ?_ hid, .text ?_ hsigner, .hash hr ?_ hrest,
      .int ?_ hissued, connectionExpiry_member hexpires, .text ?_ hkeyId⟩ <;> decide
  | true =>
    simp only [hconfirmation, if_true, Schema.confirmationParties, bind_eq_ok,
      text_field] at hnames hrest
    obtain ⟨confirmation, hconfirmationId, _, _, _, _, _, _, target, htarget, _, _, hhash⟩ :=
      hrest
    refine .of_exact connectionGrowth hr hnames (by decide) ?_
    refine ⟨.text ?_ htype, .int ?_ hversion, .text ?_ hconfirmationId, .text ?_ hsigner,
      .text ?_ htarget, .text ?_ hid, .hash hr ?_ hhash, .int ?_ hissued,
      connectionExpiry_member hexpires, .text ?_ hkeyId⟩ <;> decide

/-- Texts alone add nothing. -/
theorem grantCategories_shows {previous : String} {values : List Value}
    (h : Schema.grantCategories previous values = .ok u) : ∀ v ∈ values, Shows 0 v := by
  induction values generalizing previous with
  | nil => simp
  | cons v values ih =>
    simp only [Schema.grantCategories, bind_eq_ok, text_eq_ok] at h
    obtain ⟨s, rfl, _, _, hrest⟩ := h
    rw [List.forall_mem_cons]
    exact ⟨.text s, ih hrest⟩

theorem grantScope_shows {v : Value} (hv : Plain v) (h : Schema.grantScope v = .ok u) :
    Shows 0 v := by
  rw [Schema.grantScope, bind_eq_ok] at h
  obtain ⟨items, hitems, h⟩ := h
  rw [array_eq_ok] at hitems
  subst hitems
  match items, h with
  | [selector], h =>
    simp only [bind_eq_ok] at h
    obtain ⟨type, htype, h⟩ := h
    split_ifs at h with hcategories
    simp only [bind_eq_ok] at h
    obtain ⟨_, hexact, values, hvalues, _, _, hloop⟩ := h
    obtain ⟨c, rfl, hnames⟩ := exact_names hexact
    rw [text_field] at htype
    rw [array_field] at hvalues
    have hc : Plain (.map c) := by
      cases hv with
      | array _ hall => exact hall _ (List.mem_singleton_self _)
    have hshows : Shows 0 (.map c) := by
      refine .of_exact (fun _ => 0) hc hnames (by decide) ?_
      exact ⟨.text (by decide) htype,
        .plain (by decide) hvalues (.array (grantCategories_shows hloop) (Nat.zero_le _))⟩
    exact .array (by simpa using hshows) (Nat.zero_le _)

theorem grantPrevious_member {revision : Int}
    (h : Schema.grantPrevious revision (field (.map r) "previous") = .ok u) :
    Member 11 r "previous" := by
  rw [Schema.grantPrevious] at h
  split_ifs at h with hrevision
  · rw [ensure_eq_ok] at h
    exact .null h
  · simp only [bind_eq_ok, bytes_field, ensure_eq_ok, beq_iff_eq] at h
    obtain ⟨b, hb, hlength⟩ := h
    exact .bytes rfl hb (fun _ => hlength) (size_digest hlength)

/-- What each member of a grant's consent adds. -/
def consentGrowth (k : String) : Nat :=
  if k = "address_binding_hash" ∨ k = "sender_profile_hash" then 11 else 0

theorem grantConsent_member {oracle : DomainOracle} (hr : Plain (.map r))
    (h : Schema.grantConsent oracle (field (.map r) "consent_context") = .ok u) :
    Member 22 r "consent_context" := by
  simp only [Schema.grantConsent, bind_eq_ok] at h
  obtain ⟨_, hexact, _, haddress, _, hbinding, hprofile⟩ := h
  obtain ⟨c, hfield, hnames⟩ := exact_names hexact
  rw [hfield] at haddress hbinding hprofile
  rw [field_eq (by simp)] at hfield
  have hc : Plain (.map c) := Plain.get hr hfield
  obtain ⟨address, haddress⟩ := address_text haddress
  have hshows : Shows 22 (.map c) := by
    refine .of_exact consentGrowth hc hnames (by decide) ?_
    exact ⟨.text (by decide) haddress, .hash hc (by decide) hbinding,
      .hash hc (by decide) hprofile⟩
  exact .plain (by decide) hfield hshows

/-- What each member of a grant adds. -/
def grantGrowth (k : String) : Nat :=
  if k = "previous" then 11 else if k = "consent_context" then 22 else 0

theorem grant_shows (hr : Plain (.map r)) (htype : r.get "type" = some (.text type))
    (h : Schema.grant lib (.map r) = .ok u) : Shows 33 (.map r) := by
  simp only [Schema.grant, bind_eq_ok, branch_eq_ok, uint_field, text_field] at h
  obtain ⟨_, hexact, version, ⟨hversion, _⟩, id, hid, _, _, revision, ⟨hrevision, _⟩, _,
    hprevious, _, hgrantor, _, hgrantee, _, hscope, status, hstatus, _, _, updated,
    ⟨hupdated, _⟩, issued, ⟨hissued, _⟩, _, _, _, hexpires, _, hconsent, signer, hsigner,
    hkey⟩ := h
  obtain ⟨_, hmap, hnames⟩ := exact_names hexact
  cases hmap
  obtain ⟨grantee, hgrantee⟩ := did_text hgrantee
  obtain ⟨keyId, hkeyId⟩ := key_text hkey
  have hscope' : Member 0 r "scope" := by
    cases hv : r.get "scope" with
    | none =>
      intro w hw
      rw [hv] at hw
      cases hw
    | some v =>
      rw [field, hv, Option.getD_some] at hscope
      exact .plain (by decide) hv (grantScope_shows (Plain.get hr hv) hscope)
  have hexpires' : Member 0 r "expires_at" := by
    split_ifs at hexpires with hnull
    · exact .null hnull
    · rw [uint_field] at hexpires
      exact .int (by decide) hexpires.1
  refine .of_exact grantGrowth hr hnames (by decide) ?_
  refine ⟨.text ?_ htype, .int ?_ hversion, .text ?_ hid, .int ?_ hrevision,
    grantPrevious_member hprevious, .text ?_ hsigner, .text ?_ hgrantee, hscope', .text ?_ hstatus,
    .int ?_ hissued, .int ?_ hupdated, hexpires', grantConsent_member hr hconsent,
    .text ?_ hkeyId⟩ <;> decide

theorem optionalText_member {k : String} {max growth : Nat} (hk : k ∉ heldNames)
    (h : Schema.optionalText lib (.map r) k max = .ok u) : Member growth r k := by
  rw [Schema.optionalText] at h
  split_ifs at h with hhas
  · obtain ⟨s, hs⟩ := schemaText_text h
    exact .text hk hs
  · refine .absent ?_
    simp only [Schema.has, List.any_eq_true, not_exists, not_and] at hhas
    rw [Record.get, List.find?_eq_none.2 hhas, Option.map_none]

theorem profileCategories_shows {previous : String} {values : List Value}
    (hvalues : ∀ v ∈ values, Plain v)
    (h : Schema.profileCategories lib previous values = .ok u) : ∀ v ∈ values, Shows 0 v := by
  induction values generalizing previous with
  | nil => simp
  | cons v values ih =>
    simp only [Schema.profileCategories, bind_eq_ok] at h
    obtain ⟨_, hexact, id, hid, _, _, _, hlabel, _, hdescription, hrest⟩ := h
    obtain ⟨c, rfl, hnames⟩ := exact_names hexact
    rw [List.forall_mem_cons] at hvalues ⊢
    rw [text_field] at hid
    obtain ⟨label, hlabel⟩ := schemaText_text hlabel
    refine ⟨.of_exact (fun _ => 0) hvalues.1 hnames (by decide) ?_, ih hvalues.2 hrest⟩
    exact ⟨.text (by decide) hid, .text (by decide) hlabel,
      optionalText_member (by decide) hdescription⟩

/-- The text of a picture is a third longer. -/
theorem size_picture {b : List UInt8} (hlength : b.length ≤ 32768) :
    diagnosticSize (.bytes b) ≤ encodedSize (.bytes b) + 10923 := by
  rw [diagnosticSize, encodedSize]
  unfold argumentSize
  split_ifs <;> omega

/-- What each member of an asset adds. -/
def assetGrowth (k : String) : Nat := if k = "digest" then 11 else if k = "data" then 10923 else 0

/-- What each member of an asset manifest, or of a profile, adds. -/
def manifestGrowth (k : String) : Nat := if k = "assets" then 10934 else 0

theorem avatar_shows {v : Value} (hv : Plain v) (h : Schema.avatar lib v = .ok u) :
    Shows 10934 v := by
  rw [Schema.avatar, bind_eq_ok] at h
  obtain ⟨_, hexact, h⟩ := h
  obtain ⟨m, rfl, hnames⟩ := exact_names hexact
  simp only [bind_eq_ok, uint_field, array_field] at h
  obtain ⟨version, ⟨hversion, _⟩, _, _, assets, hassets, h⟩ := h
  rcases assets with _ | ⟨asset, _ | ⟨second, rest⟩⟩
  case nil => cases h
  case cons.cons => cases h
  case cons.nil =>
    simp only [bind_eq_ok] at h
    obtain ⟨_, hassetExact, h⟩ := h
    obtain ⟨a, rfl, hassetNames⟩ := exact_names hassetExact
    simp only [text_field, bytes_field, uint_field, ensure_eq_ok, Bool.and_eq_true,
      decide_eq_true_eq] at h
    obtain ⟨id, hid, role, hrole, mediaType, hmediaType, loading, hloading, _, _, data, hdata,
      size, ⟨hsize, _⟩, _, ⟨hlength, _⟩, _, hdigest, _, _, _, _, h⟩ := h
    have ha : Plain (.map a) := by
      cases Plain.get hv hassets with
      | array _ hall => exact hall _ (List.mem_singleton_self _)
    have hsizes : (∃ n, Record.get a "width" = some (.int n)) ∧
        ∃ n, Record.get a "height" = some (.int n) := by
      split at h
      next width height _ =>
          simp only [bind_eq_ok, uint_field] at h
          obtain ⟨assetWidth, ⟨hwidth, _⟩, assetHeight, ⟨hheight, _⟩, _⟩ := h
          exact ⟨⟨_, hwidth⟩, _, hheight⟩
      next _ => cases h
    obtain ⟨⟨width, hwidth⟩, height, hheight⟩ := hsizes
    have hasset : Shows 10934 (.map a) := by
      refine .of_exact assetGrowth ha hassetNames (by decide) ?_
      refine ⟨.text ?_ hid, .text ?_ hrole, .text ?_ hmediaType, .text ?_ hloading, .int ?_ hsize,
        .hash ha ?_ hdigest, .int ?_ hwidth, .int ?_ hheight,
        .bytes rfl hdata (fun hne => absurd rfl hne) (size_picture hlength)⟩ <;> decide
    refine .of_exact manifestGrowth hv hnames (by decide) ?_
    have hbound : 1 * 10934 ≤ manifestGrowth "assets" := by decide
    exact ⟨.int (by decide) hversion,
      .plain (by decide) hassets (.array (by simpa using hasset) hbound)⟩

theorem profile_shows (hr : Plain (.map r)) (htype : r.get "type" = some (.text type))
    (h : Schema.profile lib (.map r) = .ok u) : Shows 10934 (.map r) := by
  simp only [Schema.profile, bind_eq_ok, branch_eq_ok, uint_field, text_field, array_field] at h
  obtain ⟨version, ⟨hversion, _⟩, _, _, _, hexact, _, _, revision, ⟨hrevision, _⟩, updated,
    ⟨hupdated, _⟩, _, hname, _, hdescription, categories, hcategories, _, _, _, hloop, _, havatar,
    signer, hsigner, hkey⟩ := h
  obtain ⟨_, hmap, hnames⟩ := exact_names hexact
  cases hmap
  have hallowed : ∀ e ∈ r, ∃ k ∈ Schema.profileKeys ++ ["description", "assets"],
      e.1 = .text k := by
    intro e he
    obtain ⟨k, hk, hkey⟩ := hnames e he
    refine ⟨k, ?_, hkey⟩
    rw [List.mem_append] at hk ⊢
    refine hk.imp_right fun hk => ?_
    split_ifs at hk with hone
    · exact List.mem_append_left ["assets"] hk
    · exact hk
  obtain ⟨name, hname⟩ := schemaText_text hname
  obtain ⟨keyId, hkeyId⟩ := key_text hkey
  have hvalues : ∀ v ∈ categories, Plain v := by
    cases Plain.get hr hcategories with
    | array _ hall => exact hall
  have hassets : Member 10934 r "assets" := by
    split_ifs at havatar with hhas
    · cases hv : r.get "assets" with
      | none => exact .absent hv
      | some v =>
        rw [field, hv, Option.getD_some] at havatar
        exact .plain (by decide) hv (avatar_shows (Plain.get hr hv) havatar)
    · refine .absent ?_
      simp only [Schema.has, List.any_eq_true, not_exists, not_and] at hhas
      rw [Record.get, List.find?_eq_none.2 hhas, Option.map_none]
  refine .of_exact manifestGrowth hr hallowed (by decide) ?_
  refine ⟨.text ?_ htype, .int ?_ hversion, .text ?_ hsigner, .int ?_ hrevision, .text ?_ hname,
    .plain ?_ hcategories (.array (profileCategories_shows hvalues hloop) (Nat.zero_le _)),
    .int ?_ hupdated, .text ?_ hkeyId, optionalText_member ?_ hdescription, hassets⟩ <;> decide

/-- What every kind of object adds leaves room for it in the JSON form, if a grant leaves out the
bytes of its wrapper. -/
theorem validate_shows {kind : String} {p : Value} {q : Profile} (hp : Plain p)
    (hprofile : profile kind = .ok q) (h : Schema.validate lib kind p = .ok u) :
    ∃ growth, Shows growth p ∧ q.maximum.toNat + growth ≤ 262144 + 66 := by
  simp only [Schema.validate, bind_eq_ok] at h
  obtain ⟨type, htype, _, _, h⟩ := h
  obtain ⟨r, rfl⟩ : ∃ r, p = .map r := by
    cases p with
    | map r => exact ⟨r, rfl⟩
    | _ => cases htype
  rw [text_field] at htype
  unfold profile at hprofile
  split_ifs at hprofile with hbinding hsender hgrant hinvitation hconfirmation
  · cases hprofile
    rw [hbinding, if_neg (by decide), if_pos rfl] at h
    exact ⟨0, addressBinding_shows hp htype h, by decide⟩
  · cases hprofile
    rw [if_pos hsender] at h
    exact ⟨10934, profile_shows hp htype h, by decide⟩
  · cases hprofile
    rw [hgrant, if_neg (by decide), if_neg (by decide), if_pos rfl] at h
    exact ⟨33, grant_shows hp htype h, by decide⟩
  · cases hprofile
    rw [if_neg hsender, if_neg hbinding, if_neg hgrant, if_pos (.inl hinvitation)] at h
    exact ⟨11, connection_shows hp htype h, by decide⟩
  · cases hprofile
    rw [if_neg hsender, if_neg hbinding, if_neg hgrant, if_pos (.inr hconfirmation)] at h
    exact ⟨11, connection_shows hp htype h, by decide⟩

end Objects

end HailProto.Codec.Rust
