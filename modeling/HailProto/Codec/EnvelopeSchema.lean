import HailProto.Codec.Envelopes

/-!
# The schema of an envelope

What both validators of an envelope accept, stated once over the record, and the lemmas that
each of them accepts exactly that. Every part of the validators has a schema of its own; the
times of the envelope are safe integers, on which neither the rounding of doubles nor the
wrapping of words changes a comparison.
-/

namespace HailProto.Codec

open Cbor (Value maxSafe)

/-- The authorization of a subscription message. -/
def GrantAuthorization (r a : Record) : Prop :=
  r.get "version" = some (.int 1) ∧ Exact a ["type", "grant_id"] [] ∧
    IsMatch uuidV7Pattern (a.get "grant_id") ∧ IsMatch categoryPattern (r.get "category")

def ReplyAuthorization (r a : Record) : Prop :=
  (r.get "version" = some (.int 1) ∨ r.get "version" = some (.int 3)) ∧
    Exact a ["type", "reply_to"] [] ∧ IsMatch uuidV7Pattern (a.get "reply_to") ∧
    r.get "category" = none

def ConnectionAuthorization (r a : Record) : Prop :=
  (r.get "version" = some (.int 2) ∨ r.get "version" = some (.int 3)) ∧
    Exact a ["type", "connection_id", "epoch"] [] ∧
    IsMatch uuidV7Pattern (a.get "connection_id") ∧
    (∃ epoch, IsInteger 1 (a.get "epoch") epoch) ∧ r.get "category" = none

/-- An introduction carries the descriptor that the authorization names by its hash. -/
def Introduction (sha256 : Sha256) (r a : Record) : Prop :=
  r.get "conversation_introduction" = none ∨
    ∃ i : Record, r.get "conversation_introduction" = some (.map i) ∧
      Exact i ["descriptor", "connection_id", "epoch"] [] ∧
      IsMatch uuidV7Pattern (i.get "connection_id") ∧
      (∃ epoch, IsInteger 1 (i.get "epoch") epoch) ∧
      ∃ b, (i.get "descriptor" = some (.bytes b) ∧ 1 ≤ b.length ∧ b.length ≤ 16384) ∧
        (r.get "from" = a.get "creator" ∧ r.get "in_reply_to" = none ∧
          r.get "conversation_message_id" = a.get "conversation_id") ∧
        ∃ d : Record, a.get "descriptor_hash" = some (.map d) ∧
          d.get "value" = some (.bytes (sha256.hash b))

def ConversationAuthorization (sha256 : Sha256) (r a : Record) : Prop :=
  r.get "version" = some (.int 4) ∧
    Exact a ["type", "creator", "conversation_id", "membership_revision",
      "descriptor_hash"] [] ∧
    IsMatch didPattern (a.get "creator") ∧ IsMatch uuidV7Pattern (a.get "conversation_id") ∧
    a.get "membership_revision" = some (.int 1) ∧ IsDigest (a.get "descriptor_hash") ∧
    IsMatch uuidV7Pattern (r.get "conversation_message_id") ∧ r.get "from" ≠ r.get "to" ∧
    Introduction sha256 r a

/-- The authorization of an envelope, by its kind. -/
def AuthorizationSchema (sha256 : Sha256) (r a : Record) (kind : String) : Prop :=
  kind = "grant" ∧ GrantAuthorization r a ∨ kind = "reply" ∧ ReplyAuthorization r a ∨
    kind = "connection" ∧ ConnectionAuthorization r a ∨
    kind = "conversation" ∧ ConversationAuthorization sha256 r a

/-- The parent an envelope names. -/
def ParentReference (r parent : Record) : Prop :=
  r.get "in_reply_to" = some (.map parent) ∧ Exact parent ["sender", "message_id"] [] ∧
    IsMatch didPattern (parent.get "sender") ∧ IsMatch uuidV7Pattern (parent.get "message_id")

def ConversationParent (r : Record) : Prop :=
  r.get "in_reply_to" = none ∨ ∃ parent, ParentReference r parent ∧
    ¬(parent.get "sender" = r.get "from" ∧
      parent.get "message_id" = r.get "conversation_message_id")

def ThreadParent (r a : Record) (kind : String) : Prop :=
  ∃ parent, ParentReference r parent ∧
    (parent.get "sender" = r.get "to" ∧ r.get "from" ≠ r.get "to") ∧
    (kind = "reply" → parent.get "message_id" = a.get "reply_to")

def LabelsSchema (r : Record) : Prop :=
  (r.get "category" = none ∨ IsMatch categoryPattern (r.get "category")) ∧
    (r.get "message_type" = none ∨
      ∃ s, r.get "message_type" = some (.text s) ∧ s ∈ messageTypes)

/-- The body stays available for thirty days, and access to it for no more than thirty-one. -/
def BodySchema (r : Record) (created expires : Int) : Prop :=
  ∃ b : Record, r.get "body" = some (.map b) ∧
    Exact b ["digest", "size", "media_type", "profile", "available_until", "access"] [] ∧
    IsDigest (b.get "digest") ∧
    (∃ size, IsInteger 1 (b.get "size") size ∧ size ≤ 1048576) ∧
    b.get "media_type" = some (.text "application/hail-body+cbor") ∧
    (∃ profile, b.get "profile" = some (.text profile) ∧ profile ∈ bodyProfiles) ∧
    ∃ available, IsInteger 0 (b.get "available_until") available ∧
      (created + 2592000 ≤ available ∧ expires + 300 ≤ available ∧
        available - created ≤ 2678400) ∧
      ∃ access : Record, b.get "access" = some (.map access) ∧
        Exact access ["type", "token", "expires_at"] [] ∧
        access.get "type" = some (.text "bearer") ∧
        (∃ token, access.get "token" = some (.bytes token) ∧ token.length = 32) ∧
        ∃ accessExpiry, IsInteger 0 (access.get "expires_at") accessExpiry ∧
          available ≤ accessExpiry ∧ accessExpiry - created ≤ 2678400

def ReplySchema (r : Record) (kind : String) (created : Int) : Prop :=
  ∃ reply : Record, r.get "reply" = some (.map reply) ∧
    ∃ allowed, reply.get "allowed" = some (.bool allowed) ∧
      (kind = "connection" ∨ kind = "conversation" → allowed = false) ∧
      Exact reply ("allowed" :: if allowed then ["until"] else []) [] ∧
      (allowed = true → ∃ t, IsInteger 0 (reply.get "until") t ∧ created < t)

/-- An envelope. -/
def EnvelopeSchema (sha256 : Sha256) (r : Record) : Prop :=
  Exact r envelopeRequired (TypeScript.envelopeOptional (r.get "version")) ∧
    IsMatch uuidV7Pattern (r.get "message_id") ∧ IsMatch didPattern (r.get "from") ∧
    IsMatch didPattern (r.get "to") ∧
    ∃ a : Record, r.get "authorization" = some (.map a) ∧
      ∃ kind, a.get "type" = some (.text kind) ∧ AuthorizationSchema sha256 r a kind ∧
        (r.get "version" = some (.int 4) → ConversationParent r) ∧
        (r.get "version" = some (.int 3) → ThreadParent r a kind) ∧ LabelsSchema r ∧
        ∃ created, IsInteger 0 (r.get "created_at") created ∧
          ∃ expires, IsInteger 0 (r.get "expires_at") expires ∧
            (created < expires ∧ expires - created ≤ 604800) ∧ BodySchema r created expires ∧
            ReplySchema r kind created

section Comparisons

variable {v w : Option Value}

theorem TypeScript.strictEqual_of_match {pattern : String → Bool} (h : IsMatch pattern v) :
    strictEqual v w = true ↔ v = w := by
  obtain ⟨s, rfl, _⟩ := h
  cases w with
  | none => simp [strictEqual]
  | some w => cases w <;> simp [strictEqual]

theorem Go.interfaceEqual_of_match {m n : Record} {k l : String} {pattern : String → Bool}
    (h : IsMatch pattern (m.get k)) :
    interfaceEqual (index m k) (index n l) = true ↔ m.get k = n.get l := by
  obtain ⟨s, hs, _⟩ := h
  unfold index
  rw [hs]
  cases n.get l with
  | none => simp [interfaceEqual]
  | some w => cases w <;> simp [interfaceEqual]

end Comparisons

section Pieces

variable {sha256 : Sha256} {r a : Record} {kind : String} {u : Unit}

theorem TypeScript.grantAuthorization_eq_ok :
    grantAuthorization r a = .ok u ↔ GrantAuthorization r a := by
  simp only [grantAuthorization, GrantAuthorization, IsMatch, bind_eq_ok, failIf_eq_ok,
    exactKeys_eq_ok, uuid_eq_ok, category_eq_ok, Bool.not_eq_false', strictEqual_int,
    exists_and_right, exists_const, and_true]

theorem TypeScript.replyAuthorization_eq_ok :
    replyAuthorization r a = .ok u ↔ ReplyAuthorization r a := by
  simp only [replyAuthorization, ReplyAuthorization, IsMatch, bind_eq_ok, failIf_eq_ok,
    exactKeys_eq_ok, uuid_eq_ok, Bool.and_eq_false_iff, Bool.not_eq_false', strictEqual_int,
    exists_and_right, exists_const, Option.isSome_eq_false_iff, Option.isNone_iff_eq_none]

theorem TypeScript.connectionAuthorization_eq_ok :
    connectionAuthorization r a = .ok u ↔ ConnectionAuthorization r a := by
  simp only [connectionAuthorization, ConnectionAuthorization, IsMatch, bind_eq_ok, failIf_eq_ok,
    exactKeys_eq_ok, uuid_eq_ok, integer_eq_ok, Bool.and_eq_false_iff, Bool.not_eq_false',
    strictEqual_int, exists_and_right, exists_const, Option.isSome_eq_false_iff,
    Option.isNone_iff_eq_none]

theorem Go.grantAuthorization_eq_ok {version : Int}
    (hversion : r.get "version" = some (.int version)) :
    grantAuthorization r a version = .ok u ↔ GrantAuthorization r a := by
  simp only [grantAuthorization, GrantAuthorization, IsMatch, bind_eq_ok, errorIf_eq_ok,
    exact_eq_ok, uuid_eq_ok, category_eq_ok, index_eq_text, bne_eq_false_iff_eq, exists_const,
    exists_and_right, hversion, Option.some.injEq, Value.int.injEq]
  tauto

theorem Go.replyAuthorization_eq_ok {version : Int}
    (hversion : r.get "version" = some (.int version)) :
    replyAuthorization r a version = .ok u ↔ ReplyAuthorization r a := by
  simp only [replyAuthorization, ReplyAuthorization, IsMatch, bind_eq_ok, errorIf_eq_ok,
    exact_eq_ok, uuid_eq_ok, index_eq_text, Bool.and_eq_false_iff, bne_eq_false_iff_eq,
    exists_const, has, hversion, Option.some.injEq, Value.int.injEq, Option.isSome_eq_false_iff,
    Option.isNone_iff_eq_none]

theorem Go.connectionAuthorization_eq_ok {version : Int}
    (hversion : r.get "version" = some (.int version)) :
    connectionAuthorization r a version = .ok u ↔ ConnectionAuthorization r a := by
  simp only [connectionAuthorization, ConnectionAuthorization, IsMatch, bind_eq_ok, errorIf_eq_ok,
    exact_eq_ok, uuid_eq_ok, index_eq_text, intValue_index_eq_ok zero_le_one, Bool.and_eq_false_iff,
    bne_eq_false_iff_eq, exists_const, has, exists_and_right, hversion, Option.some.injEq,
    Value.int.injEq, Option.isSome_eq_false_iff, Option.isNone_iff_eq_none]

theorem TypeScript.introductionDescriptor_eq_ok {v : Option Value} {b : List UInt8} :
    introductionDescriptor v = .ok b ↔
      v = some (.bytes b) ∧ 1 ≤ b.length ∧ b.length ≤ 16384 := by
  unfold introductionDescriptor
  split
  · simp only [guard_eq_ok, fail, Except.ok.injEq, Option.some.injEq, Value.bytes.injEq, not_or, not_lt]
    constructor
    · rintro ⟨hlength, rfl⟩
      exact ⟨rfl, hlength⟩
    · rintro ⟨rfl, hlength⟩
      exact ⟨hlength, rfl⟩
  · rename_i hnot
    simp only [fail_ne_ok, false_iff, not_and]
    intro h
    exact absurd h (hnot b)

theorem Go.introductionDescriptor_eq_ok {k : String} {b : List UInt8} :
    introductionDescriptor (index r k) = .ok b ↔
      r.get k = some (.bytes b) ∧ 1 ≤ b.length ∧ b.length ≤ 16384 := by
  unfold introductionDescriptor
  split
  · rename_i c hc
    rw [index_eq_bytes] at hc
    simp only [hc, guard_eq_ok, Except.ok.injEq, Option.some.injEq, Value.bytes.injEq, not_or, not_lt]
    constructor
    · rintro ⟨hlength, rfl⟩
      exact ⟨rfl, hlength⟩
    · rintro ⟨rfl, hlength⟩
      exact ⟨hlength, rfl⟩
  · rename_i hnot
    simp only [reduceCtorEq, false_iff, not_and]
    intro h
    exact absurd (index_eq_bytes.2 h) (hnot b)

theorem IsDigest.value {v : Option Value} {d : Record} (h : IsDigest v) (hd : v = some (.map d)) :
    ∃ b, d.get "value" = some (.bytes b) ∧ b.length = 32 := by
  obtain ⟨d', hd', _, _, hvalue⟩ := h
  rw [hd] at hd'
  cases hd'
  exact hvalue

theorem TypeScript.everyByte_iff {hash b : List UInt8} {v : Option Value}
    (hb : v = some (.bytes b)) (hlength : hash.length = b.length) :
    everyByte hash v = true ↔ v = some (.bytes hash) := by
  subst hb
  simp only [everyByte, List.isPrefixOf_iff_prefix, Option.some.injEq, Value.bytes.injEq]
  exact ⟨fun h => (h.eq_of_length hlength).symm, fun h => h ▸ List.prefix_refl _⟩

theorem Go.bytesEqual_iff {hash : List UInt8} {d : Record} {k : String} :
    bytesEqual hash (index d k) = true ↔ d.get k = some (.bytes hash) := by
  unfold bytesEqual
  split
  · rename_i b hb
    rw [index_eq_bytes] at hb
    simp only [hb, beq_iff_eq, Option.some.injEq, Value.bytes.injEq]
    exact eq_comm
  · rename_i hnot
    simp only [Bool.false_eq_true, false_iff]
    intro h
    exact hnot hash (index_eq_bytes.2 h)

theorem TypeScript.conversationIntroduction_eq_ok (hfrom : IsMatch didPattern (r.get "from"))
    (hmessage : IsMatch uuidV7Pattern (r.get "conversation_message_id"))
    (hdigest : IsDigest (a.get "descriptor_hash")) :
    conversationIntroduction sha256 r a = .ok u ↔ Introduction sha256 r a := by
  unfold conversationIntroduction Introduction
  cases hintro : r.get "conversation_introduction" with
  | none => simp
  | some v =>
    simp only [Option.isSome_some, if_true, bind_eq_ok, record_eq_ok, exactKeys_eq_ok,
      uuid_eq_ok, integer_eq_ok, introductionDescriptor_eq_ok, failIf_eq_ok, IsMatch,
      Bool.or_eq_false_iff, Bool.not_eq_false', strictEqual_of_match hfrom,
      strictEqual_of_match hmessage, Option.isSome_eq_false_iff, Option.isNone_iff_eq_none,
      exists_and_right, exists_const, reduceCtorEq, false_or]
    simp only [and_assoc]
    refine exists_congr fun i => and_congr_right fun _ => and_congr_right fun _ =>
      and_congr_right fun _ => and_congr_right fun _ => exists_congr fun b =>
      and_congr_right fun _ => and_congr_right fun _ => and_congr_right fun _ =>
      and_congr_right fun _ => and_congr_right fun _ => and_congr_right fun _ =>
      exists_congr fun d => and_congr_right fun hd => ?_
    obtain ⟨b', hb', hlength⟩ := hdigest.value hd
    exact everyByte_iff hb' (by rw [sha256.hash_length, hlength])

theorem Go.conversationIntroduction_eq_ok (hfrom : IsMatch didPattern (r.get "from"))
    (hmessage : IsMatch uuidV7Pattern (r.get "conversation_message_id")) :
    conversationIntroduction sha256 r a = .ok u ↔ Introduction sha256 r a := by
  unfold conversationIntroduction Introduction
  cases hintro : r.get "conversation_introduction" with
  | none => simp [has, hintro]
  | some v =>
    simp only [has, hintro, Option.isSome_some, if_true, bind_eq_ok, mapValue_eq_ok,
      index_eq_map, exact_eq_ok, uuid_eq_ok, index_eq_text, intValue_index_eq_ok zero_le_one,
      introductionDescriptor_eq_ok, errorIf_eq_ok, IsMatch, Bool.or_eq_false_iff,
      Bool.not_eq_false', interfaceEqual_of_match hfrom, interfaceEqual_of_match hmessage,
      bytesEqual_iff, Option.isSome_eq_false_iff, Option.isNone_iff_eq_none, exists_and_right,
      exists_const, reduceCtorEq, false_or, and_assoc]

theorem TypeScript.parentReference_eq_ok {parent : Record} :
    parentReference r = .ok parent ↔ ParentReference r parent := by
  simp only [parentReference, ParentReference, IsMatch, bind_eq_ok, record_eq_ok, exactKeys_eq_ok,
    did_eq_ok, uuid_eq_ok, Except.ok.injEq, exists_and_right, exists_const]
  constructor
  · rintro ⟨p, hp, hexact, hsender, hmessage, rfl⟩
    exact ⟨hp, hexact, hsender, hmessage⟩
  · rintro ⟨hp, hexact, hsender, hmessage⟩
    exact ⟨parent, hp, hexact, hsender, hmessage, rfl⟩

theorem Go.parentReference_eq_ok {parent : Record} :
    parentReference r = .ok parent ↔ ParentReference r parent := by
  simp only [parentReference, ParentReference, IsMatch, bind_eq_ok, mapValue_eq_ok, index_eq_map,
    exact_eq_ok, did_eq_ok, uuid_eq_ok, index_eq_text, Except.ok.injEq, exists_and_right,
    exists_const]
  constructor
  · rintro ⟨p, hp, hexact, hsender, hmessage, rfl⟩
    exact ⟨hp, hexact, hsender, hmessage⟩
  · rintro ⟨hp, hexact, hsender, hmessage⟩
    exact ⟨parent, hp, hexact, hsender, hmessage, rfl⟩

theorem TypeScript.conversationParent_eq_ok :
    conversationParent r = .ok u ↔ (r.get "version" = some (.int 4) → ConversationParent r) := by
  unfold conversationParent ConversationParent
  by_cases hversion : r.get "version" = some (.int 4)
  · cases hparent : r.get "in_reply_to" with
    | none => simp
    | some v =>
      simp only [hversion, strictEqual_int.2, Option.isSome_some, Bool.and_self, if_true,
        bind_eq_ok, parentReference_eq_ok, failIf_eq_ok, forall_const, reduceCtorEq, false_or]
      refine exists_congr fun parent => and_congr_right fun h => ?_
      rw [Bool.eq_false_iff, ne_eq, Bool.and_eq_true, strictEqual_of_match h.2.2.1,
        strictEqual_of_match h.2.2.2]
  · have hfalse : strictEqual (r.get "version") (some (.int 4)) = false := by
      rw [Bool.eq_false_iff, ne_eq, strictEqual_int]
      exact hversion
    simp [hfalse, hversion]

theorem Go.conversationParent_eq_ok : conversationParent r = .ok u ↔ ConversationParent r := by
  unfold conversationParent ConversationParent
  cases hparent : r.get "in_reply_to" with
  | none => simp [has, hparent]
  | some v =>
    simp only [has, hparent, Option.isSome_some, if_true, bind_eq_ok, parentReference_eq_ok,
      errorIf_eq_ok, reduceCtorEq, false_or]
    refine exists_congr fun parent => and_congr_right fun h => ?_
    rw [Bool.eq_false_iff, ne_eq, Bool.and_eq_true, interfaceEqual_of_match h.2.2.1,
      interfaceEqual_of_match h.2.2.2]

theorem TypeScript.threadParent_eq_ok (hfrom : IsMatch didPattern (r.get "from")) :
    threadParent r a kind = .ok u ↔
      (r.get "version" = some (.int 3) → ThreadParent r a kind) := by
  unfold threadParent ThreadParent
  by_cases hversion : r.get "version" = some (.int 3)
  · simp only [hversion, strictEqual_int.2, if_true, bind_eq_ok, parentReference_eq_ok,
      failIf_eq_ok, forall_const, exists_const]
    refine exists_congr fun parent => and_congr_right fun h => and_congr ?_ ?_
    · rw [Bool.or_eq_false_iff, Bool.not_eq_false', strictEqual_of_match h.2.2.1,
        Bool.eq_false_iff, ne_eq, strictEqual_of_match hfrom]
    · rw [Bool.and_eq_false_iff, Bool.not_eq_false', strictEqual_of_match h.2.2.2,
        beq_eq_false_iff_ne, ne_eq, imp_iff_not_or]
  · have hfalse : strictEqual (r.get "version") (some (.int 3)) = false := by
      rw [Bool.eq_false_iff, ne_eq, strictEqual_int]
      exact hversion
    simp [hfalse, hversion]

theorem Go.threadParent_eq_ok {version : Int} (hfrom : IsMatch didPattern (r.get "from"))
    (hversion : r.get "version" = some (.int version)) :
    threadParent r a version kind = .ok u ↔
      (r.get "version" = some (.int 3) → ThreadParent r a kind) := by
  unfold threadParent ThreadParent
  rw [hversion, Option.some.injEq, Value.int.injEq]
  by_cases hthree : version = 3
  · simp only [hthree, if_true, bind_eq_ok, parentReference_eq_ok, errorIf_eq_ok, forall_const,
      exists_const]
    refine exists_congr fun parent => and_congr_right fun h => and_congr ?_ ?_
    · rw [Bool.or_eq_false_iff, Bool.not_eq_false', interfaceEqual_of_match h.2.2.1,
        Bool.eq_false_iff, ne_eq, interfaceEqual_of_match hfrom]
    · rw [Bool.and_eq_false_iff, Bool.not_eq_false', interfaceEqual_of_match h.2.2.2,
        beq_eq_false_iff_ne, ne_eq, imp_iff_not_or]
  · simp [hthree]

@[simp] theorem Go.orElse_eq_ok {α : Type} {x : Except String α} {message : String} {b : α} :
    orElse x message = .ok b ↔ x = .ok b := by
  cases x <;> simp [orElse]

theorem TypeScript.envelopeLabels_eq_ok : envelopeLabels r = .ok u ↔ LabelsSchema r := by
  unfold envelopeLabels LabelsSchema
  rw [bind_eq_ok]
  cases hcategory : r.get "category" <;> cases htype : r.get "message_type" <;>
    simp [IsMatch]

theorem Go.envelopeLabels_eq_ok : envelopeLabels r = .ok u ↔ LabelsSchema r := by
  unfold envelopeLabels LabelsSchema
  rw [bind_eq_ok]
  cases hcategory : r.get "category" <;> cases htype : r.get "message_type" <;>
    simp [IsMatch, has, hcategory, htype]

/-- The integers the two languages compute with, for the times of an envelope. -/
def envelopeSums (created expires available accessExpiry : Int) : List Int :=
  [expires - created, created + 2592000, expires + 300, available - created,
    accessExpiry - created]

theorem IsInteger.bounds {n : Int} {v : Option Value} (h : IsInteger 0 v n) :
    0 ≤ n ∧ n < 2 ^ 53 := by
  have hsafe := h.2.1
  have hnonneg := h.2.2
  simp only [maxSafe] at hsafe
  omega

theorem IsInteger.number_sub {m n : Int} {v w : Option Value} (hm : IsInteger 0 v m)
    (hn : IsInteger 0 w n) : number (m - n) = m - n := by
  have hmb := hm.bounds
  have hnb := hn.bounds
  exact number_of_le (by omega)

theorem IsInteger.int64_sub {m n : Int} {v w : Option Value} (hm : IsInteger 0 v m)
    (hn : IsInteger 0 w n) : int64 (m - n) = m - n := by
  have hmb := hm.bounds
  have hnb := hn.bounds
  exact int64_of_lt (by omega)

theorem IsInteger.number_add_le {m n k : Int} {v w : Option Value} (hm : IsInteger 0 v m)
    (hn : IsInteger 0 w n) (hk : 0 ≤ k) : number (n + k) ≤ m ↔ n + k ≤ m := by
  have hmb := hm.bounds
  have hnb := hn.bounds
  rw [← not_lt, lt_number_iff hmb.2 (by omega), not_lt]

theorem IsInteger.int64_add {n k : Int} {w : Option Value} (hn : IsInteger 0 w n)
    (hk : 0 ≤ k) (hsmall : k < 2 ^ 53) : int64 (n + k) = n + k := by
  have hnb := hn.bounds
  exact int64_of_lt (by omega)

theorem TypeScript.envelopeBody_eq_ok {created expires : Int} {v w : Option Value}
    (hcreated : IsInteger 0 v created) (hexpires : IsInteger 0 w expires) :
    envelopeBody r created expires = .ok u ↔ BodySchema r created expires := by
  simp only [envelopeBody, BodySchema, bind_eq_ok, record_eq_ok, exactKeys_eq_ok, digest_eq_ok,
    integer_eq_ok, failIf_eq_ok, text_eq_ok, bytes_eq_ok, bne_eq_false_iff_eq,
    Bool.not_eq_false', List.contains_iff_mem, decide_eq_false_iff_not, not_lt,
    Bool.or_eq_false_iff, exists_and_right, exists_const]
  refine exists_congr fun b => and_congr_right fun _ => and_congr_right fun _ =>
    and_congr_right fun _ => ?_
  constructor
  · rintro ⟨size, hsize, hbound, _, hmedia, rfl, profile, hprofile, hknown, available, havailable,
      ⟨⟨hthirty, hgrace⟩, hlimit⟩, access, haccess, hexact, _, htype, rfl, htoken, expiry, hexpiry,
      hafter, hwithin⟩
    rw [havailable.number_add_le hcreated (by omega)] at hthirty
    rw [havailable.number_add_le hexpires (by omega)] at hgrace
    rw [havailable.number_sub hcreated] at hlimit
    rw [hexpiry.number_sub hcreated] at hwithin
    exact ⟨⟨size, hsize, hbound⟩, hmedia, ⟨profile, hprofile, hknown⟩, available, havailable,
      ⟨hthirty, hgrace, hlimit⟩, access, haccess, hexact, htype, htoken, expiry, hexpiry, hafter,
      hwithin⟩
  · rintro ⟨⟨size, hsize, hbound⟩, hmedia, ⟨profile, hprofile, hknown⟩, available, havailable,
      ⟨hthirty, hgrace, hlimit⟩, access, haccess, hexact, htype, htoken, expiry, hexpiry, hafter,
      hwithin⟩
    rw [← havailable.number_add_le hcreated (by omega)] at hthirty
    rw [← havailable.number_add_le hexpires (by omega)] at hgrace
    rw [← havailable.number_sub hcreated] at hlimit
    rw [← hexpiry.number_sub hcreated] at hwithin
    exact ⟨size, hsize, hbound, _, hmedia, rfl, profile, hprofile, hknown, available, havailable,
      ⟨⟨hthirty, hgrace⟩, hlimit⟩, access, haccess, hexact, _, htype, rfl, htoken, expiry, hexpiry,
      hafter, hwithin⟩

theorem Go.envelopeBody_eq_ok {created expires : Int} {v w : Option Value}
    (hcreated : IsInteger 0 v created) (hexpires : IsInteger 0 w expires) :
    envelopeBody r created expires = .ok u ↔ BodySchema r created expires := by
  have hsum := hcreated.int64_add (k := 2592000) (by decide) (by decide)
  have hgrace := hexpires.int64_add (k := 300) (by decide) (by decide)
  simp only [envelopeBody, BodySchema, bind_eq_ok, mapValue_eq_ok, index_eq_map, exact_eq_ok,
    digest_index_eq_ok, orElse_eq_ok, intValue_index_eq_ok zero_le_one,
    intValue_index_eq_ok le_rfl, textValue_eq_ok, index_eq_text, errorIf_eq_ok, expectText_eq_ok,
    byteValue_eq_ok, index_eq_bytes, decide_eq_false_iff_not, not_lt, Bool.or_eq_false_iff,
    Bool.and_eq_false_iff, bne_eq_false_iff_eq, hsum, hgrace, exists_const, bodyProfiles,
    List.mem_cons, List.not_mem_nil, or_false, or_assoc]
  refine exists_congr fun b => and_congr_right fun _ => and_congr_right fun _ =>
    and_congr_right fun _ => ?_
  constructor
  · rintro ⟨size, hsize, hbound, hmedia, profile, hprofile, hknown, available, havailable,
      ⟨⟨hthirty, hgrace⟩, hlimit⟩, access, haccess, hexact, htype, htoken, expiry, hexpiry,
      hafter, hwithin⟩
    rw [havailable.int64_sub hcreated] at hlimit
    rw [hexpiry.int64_sub hcreated] at hwithin
    exact ⟨⟨size, hsize, hbound⟩, hmedia, ⟨profile, hprofile, hknown⟩, available, havailable,
      ⟨hthirty, hgrace, hlimit⟩, access, haccess, hexact, htype, htoken, expiry, hexpiry, hafter,
      hwithin⟩
  · rintro ⟨⟨size, hsize, hbound⟩, hmedia, ⟨profile, hprofile, hknown⟩, available, havailable,
      ⟨hthirty, hgrace, hlimit⟩, access, haccess, hexact, htype, htoken, expiry, hexpiry, hafter,
      hwithin⟩
    rw [← havailable.int64_sub hcreated] at hlimit
    rw [← hexpiry.int64_sub hcreated] at hwithin
    exact ⟨size, hsize, hbound, hmedia, profile, hprofile, hknown, available, havailable,
      ⟨⟨hthirty, hgrace⟩, hlimit⟩, access, haccess, hexact, htype, htoken, expiry, hexpiry,
      hafter, hwithin⟩

theorem TypeScript.envelopeReply_eq_ok {created : Int} :
    envelopeReply r kind created = .ok u ↔ ReplySchema r kind created := by
  simp only [envelopeReply, ReplySchema, bind_eq_ok, record_eq_ok, boolean_eq_ok, failIf_eq_ok,
    exactKeys_eq_ok, exists_const]
  refine exists_congr fun reply => and_congr_right fun _ => exists_congr fun allowed =>
    and_congr_right fun _ => ?_
  cases allowed <;> simp

theorem Go.envelopeReply_eq_ok {created : Int} :
    (envelopeReply r kind created = .ok u ∧
      (kind = "conversation" → ∃ reply : Record, r.get "reply" = some (.map reply) ∧
        reply.get "allowed" = some (.bool false))) ↔ ReplySchema r kind created := by
  simp only [envelopeReply, ReplySchema, bind_eq_ok, mapValue_eq_ok, index_eq_map, boolValue_eq_ok,
    index_eq_bool, errorIf_eq_ok, exact_eq_ok, exists_const]
  constructor
  · rintro ⟨⟨reply, hreply, allowed, hallowed, hconnection, hexact, huntil⟩, hconversation⟩
    refine ⟨reply, hreply, allowed, hallowed, ?_, hexact, ?_⟩
    · rintro (rfl | rfl)
      · simpa using hconnection
      · obtain ⟨reply', hreply', hfalse⟩ := hconversation rfl
        rw [hreply] at hreply'
        cases hreply'
        rw [hallowed] at hfalse
        cases hfalse
        rfl
    · rintro rfl
      simpa [IsInteger] using huntil
  · rintro ⟨reply, hreply, allowed, hallowed, hkind, hexact, huntil⟩
    refine ⟨⟨reply, hreply, allowed, hallowed, ?_, hexact, ?_⟩, ?_⟩
    · rw [Bool.and_eq_false_iff, beq_eq_false_iff_ne, ← imp_iff_not_or]
      exact fun h => hkind (.inl h)
    · cases allowed
      · simp
      · simpa [IsInteger] using huntil rfl
    · intro hconversation
      rw [hkind (.inr hconversation)] at hallowed
      exact ⟨reply, hreply, hallowed⟩

theorem TypeScript.envelopeAuthorization_eq_ok (hfrom : IsMatch didPattern (r.get "from")) :
    envelopeAuthorization sha256 r a kind = .ok u ↔ AuthorizationSchema sha256 r a kind := by
  have hconversation :
      conversationAuthorization sha256 r a = .ok u ↔ ConversationAuthorization sha256 r a := by
    simp only [conversationAuthorization, ConversationAuthorization, bind_eq_ok, failIf_eq_ok,
      exactKeys_eq_ok, did_eq_ok, uuid_eq_ok, digest_eq_ok, Bool.not_eq_false', strictEqual_int,
      exists_and_right, exists_const]
    refine and_congr_right fun _ => and_congr_right fun _ => and_congr_right fun _ =>
      and_congr_right fun _ => and_congr_right fun _ => and_congr_right fun hdigest =>
      and_congr_right fun hmessage => ?_
    rw [conversationIntroduction_eq_ok hfrom hmessage hdigest, Bool.eq_false_iff, ne_eq,
      strictEqual_of_match hfrom]
  unfold envelopeAuthorization AuthorizationSchema
  by_cases hgrant : kind = "grant"
  · simp [hgrant, grantAuthorization_eq_ok]
  · by_cases hreply : kind = "reply"
    · simp [hreply, replyAuthorization_eq_ok]
    · by_cases hconnection : kind = "connection"
      · simp [hconnection, connectionAuthorization_eq_ok]
      · by_cases hkind : kind = "conversation"
        · simp [hkind, hconversation]
        · simp [hgrant, hreply, hconnection, hkind]

/-- Go tests the parent and the reply of a conversation message with its authorization. -/
theorem Go.envelopeAuthorization_eq_ok {version : Int}
    (hversion : r.get "version" = some (.int version))
    (hfrom : IsMatch didPattern (r.get "from")) :
    envelopeAuthorization sha256 r a version kind = .ok u ↔
      AuthorizationSchema sha256 r a kind ∧
        (kind = "conversation" → ConversationParent r ∧
          ∃ reply : Record, r.get "reply" = some (.map reply) ∧
            reply.get "allowed" = some (.bool false)) := by
  have hconversation : conversationAuthorization sha256 r a version = .ok u ↔
      ConversationAuthorization sha256 r a ∧ ConversationParent r ∧
        ∃ reply : Record, r.get "reply" = some (.map reply) ∧
          reply.get "allowed" = some (.bool false) := by
    simp only [conversationAuthorization, validateConversationEnvelope, ConversationAuthorization,
      bind_eq_ok, errorIf_eq_ok, exact_eq_ok, did_eq_ok, uuid_eq_ok, index_eq_text,
      fixedRevision_eq_ok, digest_index_eq_ok, conversationParent_eq_ok, mapValue_eq_ok,
      index_eq_map, bne_eq_false_iff_eq, Bool.not_eq_false', interfaceEqual_bool, index_eq_bool,
      hversion, Option.some.injEq, Value.int.injEq, exists_and_right, exists_const]
    simp only [and_assoc]
    refine and_congr_right fun _ => and_congr_right fun _ => and_congr_right fun _ =>
      and_congr_right fun _ => and_congr_right fun _ => and_congr_right fun hdigest =>
      and_congr_right fun hmessage => ?_
    simp only [conversationIntroduction_eq_ok hfrom hmessage, exists_const, Bool.eq_false_iff,
      ne_eq, interfaceEqual_of_match hfrom]
  unfold envelopeAuthorization AuthorizationSchema
  by_cases hgrant : kind = "grant"
  · simp [hgrant, grantAuthorization_eq_ok hversion]
  · by_cases hreply : kind = "reply"
    · simp [hreply, replyAuthorization_eq_ok hversion]
    · by_cases hconnection : kind = "connection"
      · simp [hconnection, connectionAuthorization_eq_ok hversion]
      · by_cases hkind : kind = "conversation"
        · simp [hkind, hconversation]
        · simp [hgrant, hreply, hconnection, hkind]

/-- Every kind of authorization names the version it belongs to. -/
theorem AuthorizationSchema.version (h : AuthorizationSchema sha256 r a kind) :
    ∃ version, IsInteger 1 (r.get "version") version ∧ (version = 4 ↔ kind = "conversation") := by
  obtain ⟨rfl, h⟩ | ⟨rfl, h⟩ | ⟨rfl, h⟩ | ⟨rfl, h⟩ := h
  · exact ⟨1, ⟨h.1, by decide, by decide⟩, by decide⟩
  · obtain h | h := h.1
    · exact ⟨1, ⟨h, by decide, by decide⟩, by decide⟩
    · exact ⟨3, ⟨h, by decide, by decide⟩, by decide⟩
  · obtain h | h := h.1
    · exact ⟨2, ⟨h, by decide, by decide⟩, by decide⟩
    · exact ⟨3, ⟨h, by decide, by decide⟩, by decide⟩
  · exact ⟨4, ⟨h.1, by decide, by decide⟩, by decide⟩

theorem TypeScript.validateEnvelope_eq_ok :
    validateEnvelope sha256 r = .ok u ↔ EnvelopeSchema sha256 r := by
  simp only [validateEnvelope, EnvelopeSchema, bind_eq_ok, exactKeys_eq_ok, uuid_eq_ok, did_eq_ok,
    record_eq_ok, text_eq_ok, conversationParent_eq_ok, envelopeLabels_eq_ok, integer_eq_ok,
    failIf_eq_ok, envelopeReply_eq_ok, Bool.or_eq_false_iff, decide_eq_false_iff_not, not_le,
    not_lt, exists_and_right, exists_const]
  refine and_congr_right fun _ => and_congr_right fun _ => and_congr_right fun hfrom =>
    and_congr_right fun _ => exists_congr fun a => and_congr_right fun _ =>
    exists_congr fun kind => and_congr_right fun _ => ?_
  simp only [envelopeAuthorization_eq_ok hfrom, threadParent_eq_ok hfrom, exists_const]
  refine and_congr_right fun _ => and_congr_right fun _ => and_congr_right fun _ =>
    and_congr_right fun _ => exists_congr fun created => and_congr_right fun hcreated =>
    exists_congr fun expires => and_congr_right fun hexpires => ?_
  rw [hexpires.number_sub hcreated]
  simp only [envelopeBody_eq_ok hcreated hexpires, exists_const]

theorem Go.envelopeOptional_eq (version : Int) :
    envelopeOptional version = TypeScript.envelopeOptional (some (.int version)) := by
  unfold envelopeOptional TypeScript.envelopeOptional
  by_cases hfour : version = 4
  · simp [hfour, TypeScript.strictEqual]
  · by_cases hthree : version = 3 <;> simp [hfour, hthree, TypeScript.strictEqual]

theorem Go.validateEnvelope_eq_ok :
    validateEnvelope sha256 r = .ok u ↔ EnvelopeSchema sha256 r := by
  simp only [validateEnvelope, EnvelopeSchema, bind_eq_ok, intValue_index_eq_ok zero_le_one,
    intValue_index_eq_ok le_rfl, exact_eq_ok, uuid_eq_ok, did_eq_ok, mapValue_eq_ok, index_eq_map,
    textValue_eq_ok, index_eq_text, envelopeLabels_eq_ok, orElse_eq_ok, errorIf_eq_ok,
    Bool.or_eq_false_iff, decide_eq_false_iff_not, not_le, not_lt, exists_and_right, exists_const]
  constructor
  · rintro ⟨version, hversion, hexact, hmessage, hfrom, hto, a, ha, kind, hkind, ⟨_, hauth⟩,
      ⟨_, hthread⟩, hlabels, created, hcreated, expires, hexpires, ⟨hlt, hwindow⟩, ⟨_, hbody⟩,
      hreply⟩
    rw [envelopeOptional_eq, ← hversion.1] at hexact
    rw [envelopeAuthorization_eq_ok hversion.1 hfrom] at hauth
    rw [threadParent_eq_ok hfrom hversion.1] at hthread
    rw [hexpires.int64_sub hcreated] at hwindow
    rw [envelopeBody_eq_ok hcreated hexpires] at hbody
    obtain ⟨version', hversion', hfour⟩ := hauth.1.version
    refine ⟨hexact, hmessage, hfrom, hto, a, ha, kind, hkind, hauth.1, ?_, hthread, hlabels,
      created, hcreated, expires, hexpires, ⟨hlt, hwindow⟩, hbody, ?_⟩
    · intro h4
      rw [hversion'.1, Option.some.injEq, Value.int.injEq] at h4
      exact (hauth.2 (hfour.1 h4)).1
    · exact envelopeReply_eq_ok.1 ⟨hreply, fun h => (hauth.2 h).2⟩
  · rintro ⟨hexact, hmessage, hfrom, hto, a, ha, kind, hkind, hauth, hparent, hthread, hlabels,
      created, hcreated, expires, hexpires, ⟨hlt, hwindow⟩, hbody, hreply⟩
    obtain ⟨version, hversion, hfour⟩ := hauth.version
    rw [← envelopeReply_eq_ok (u := u)] at hreply
    refine ⟨version, hversion, ?_, hmessage, hfrom, hto, a, ha, kind, hkind, ⟨(), ?_⟩, ⟨(), ?_⟩,
      hlabels, created, hcreated, expires, hexpires, ⟨hlt, ?_⟩, ⟨(), ?_⟩, hreply.1⟩
    · rw [envelopeOptional_eq, ← hversion.1]
      exact hexact
    · rw [envelopeAuthorization_eq_ok hversion.1 hfrom]
      refine ⟨hauth, fun h => ⟨hparent ?_, hreply.2 h⟩⟩
      rw [hversion.1, hfour.2 h]
    · exact (threadParent_eq_ok hfrom hversion.1).2 hthread
    · rw [hexpires.int64_sub hcreated]
      exact hwindow
    · exact (envelopeBody_eq_ok hcreated hexpires).2 hbody

end Pieces

end HailProto.Codec
