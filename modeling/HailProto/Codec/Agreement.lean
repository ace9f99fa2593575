import HailProto.Codec.Payload

/-!
# Where the validators of two languages agree

The schemas of the validators, compared. Envelopes and delivery statuses have one schema in both
languages. Connection objects differ in one point: TypeScript reads the operation and the state
of a control object through `String`, which also takes a word out of arrays. Bodies differ in two:
TypeScript alone refuses a link whose scheme is not written in small letters, and an attachment
with a line or paragraph separator in its name.
-/

namespace HailProto.Codec

open Cbor (Value maxSafe asBytes)

section Envelopes

/-- The times of an envelope. -/
structure EnvelopeTimes where
  created : Int
  expires : Int
  available : Int
  accessExpiry : Int

/-- The envelope has these times. -/
def HasTimes (m : Record) (t : EnvelopeTimes) : Prop :=
  m.get "created_at" = some (.int t.created) ∧ m.get "expires_at" = some (.int t.expires) ∧
    ∃ body access : Record, m.get "body" = some (.map body) ∧
      body.get "available_until" = some (.int t.available) ∧
      body.get "access" = some (.map access) ∧
      access.get "expires_at" = some (.int t.accessExpiry)

/-- The windows of an envelope, and the range of the sums that are compared for them. -/
def EnvelopeTimes.Valid (t : EnvelopeTimes) : Prop :=
  (t.created < t.expires ∧ t.expires ≤ t.created + 604800) ∧
    (t.created + 2592000 ≤ t.available ∧ t.available ≤ t.accessExpiry ∧
      t.accessExpiry ≤ t.created + 2678400) ∧ t.expires + 300 ≤ t.available ∧
    ∀ n ∈ envelopeSums t.created t.expires t.available t.accessExpiry, n.natAbs ≤ maxSafe

theorem EnvelopeSchema.times {sha256 : Sha256} {m : Record} (h : EnvelopeSchema sha256 m) :
    ∃ t, HasTimes m t ∧ t.Valid := by
  obtain ⟨_, _, _, _, a, _, kind, _, _, _, _, _, created, hcreated, expires, hexpires,
    ⟨hlt, hwindow⟩, hbody, _⟩ := h
  obtain ⟨body, hget, _, _, _, _, _, available, havailable, ⟨hthirty, hgrace, hlimit⟩, access,
    haccess, _, _, _, accessExpiry, hexpiry, hafter, hwithin⟩ := hbody
  have hweek : expires ≤ created + 604800 := by omega
  have hmonth : accessExpiry ≤ created + 2678400 := by omega
  have hnonneg := hcreated.2.2
  have hsafe := hexpiry.2.1
  refine ⟨⟨created, expires, available, accessExpiry⟩, ⟨hcreated.1, hexpires.1, body, access, hget,
    havailable.1, haccess, hexpiry.1⟩, ⟨hlt, hweek⟩, ⟨hthirty, hafter, hmonth⟩, hgrace, ?_⟩
  intro n hn
  simp only [envelopeSums, List.mem_cons, List.not_mem_nil, or_false] at hn
  omega

/-- The two languages agree on envelopes and on delivery statuses, and the times of an accepted
envelope are within their windows, without a sum that leaves the safe integers. -/
theorem envelope_and_status_agreement (lib : Libraries) (m : Record) :
    ((TypeScript.validateEnvelope lib.sha256 m = .ok () ↔
        Go.validateEnvelope lib.sha256 m = .ok ()) ∧
      (TypeScript.validateDeliveryStatus m = .ok () ↔ Go.validateDelivery m = .ok ())) ∧
    (TypeScript.validateEnvelope lib.sha256 m = .ok () → ∃ t, HasTimes m t ∧ t.Valid) := by
  rw [TypeScript.validateEnvelope_eq_ok, Go.validateEnvelope_eq_ok,
    TypeScript.validateDeliveryStatus_eq_ok, Go.validateDelivery_eq_ok]
  exact ⟨⟨Iff.rfl, Iff.rfl⟩, EnvelopeSchema.times⟩

end Envelopes

section Controls

variable {lib : Libraries} {kind : PayloadType} {m : Record}

/-- The connection and conversation objects. -/
def connectionObjects : List PayloadType :=
  [.connectionInvitation, .connectionConfirmation, .connectionGrant, .connectionControl,
    .conversation, .conversationRevival]

/-- What is to be known of an accepted control object. -/
def ControlFacts (m : Record) : Prop :=
  ∃ operation state, (m.get "operation" = some (.text operation) ∧
      operation ∈ connectionOperations) ∧
    (m.get "state" = some (.text state) ∧ state ∈ connectionStates) ∧
    (state = "empty" ↔ m.get "connection_id" = some .null) ∧
    (state = "empty" ↔ m.get "epoch" = some (.int 0)) ∧
    (operation ∈ receiptOperations ↔ m.get "expires_at" = some .null)

/-- A control object with the operation and the state as texts, unless another rule refuses it. -/
def PlainControl (kind : PayloadType) (m : Record) : Prop :=
  kind = .connectionControl → m.get "type" = some (.text kind.name) →
    m.get "version" = some (.int 1) → ControlSchema NamesWrapped m →
    (∃ operation, m.get "operation" = some (.text operation)) ∧
      ∃ state, m.get "state" = some (.text state)

/-- The two languages read the address of a grant's consent alike. -/
def SharedAddress (oracle : DomainOracle) (m : Record) : Prop :=
  ∀ c : Record, ∀ v, m.get "consent_context" = some (.map c) →
    c.get "grantee_address" = some v →
    ((TypeScript.hailAddress oracle (some v) "$.consent_context.grantee_address").isOk = true ↔
      (Go.hailAddress oracle v "$.consent_context.grantee_address").isOk = true)

theorem ControlSchema.facts (h : ControlSchema NamesText m) : ControlFacts m := by
  obtain ⟨_, _, _, _, ⟨epoch, hepoch⟩, operation, ⟨hoperation, hknown⟩, ⟨state, hstate, hstates⟩,
    hpair, _, ⟨_, hwindow⟩, _⟩ := h
  refine ⟨operation, state, ⟨hoperation, hknown⟩, ⟨hstate, hstates⟩, ?_, ?_, ?_⟩
  · obtain ⟨hempty, hid, _⟩ | ⟨hempty, ⟨id, hid, _⟩, _⟩ := hpair
    · rw [hstate] at hempty
      cases hempty
      exact iff_of_true rfl hid
    · rw [hid]
      refine iff_of_false (fun h => hempty ?_) (by simp)
      rw [hstate, h]
  · obtain ⟨hempty, _, hzero⟩ | ⟨hempty, _, n, hn⟩ := hpair
    · rw [hstate] at hempty
      cases hempty
      exact iff_of_true rfl hzero
    · refine iff_of_false (fun h => hempty ?_) ?_
      · rw [hstate, h]
      · rw [hn.1, Option.some.injEq, Value.int.injEq]
        have hone := hn.2.2
        omega
  · obtain ⟨hreceipt, hnull⟩ | ⟨hreceipt, _, _, hwindow⟩ := hwindow
    · exact iff_of_true hreceipt hnull
    · refine iff_of_false hreceipt ?_
      obtain ⟨_, hfalse⟩ | ⟨expires, hexpires, _⟩ := hwindow
      · cases hfalse
      · rw [hexpires.1]
        simp

theorem Wraps.eq_of_text {s word : String} (h : Wraps (.text s) word) : s = word := by
  cases h
  rfl

theorem ControlSchema.wrapped (h : ControlSchema NamesText m) : ControlSchema NamesWrapped m := by
  obtain ⟨hexact, actor, hparties, hrequest, hepoch, operation, ⟨hoperation, hknown⟩,
    ⟨state, hstate, hstates⟩, hrest⟩ := h
  exact ⟨hexact, actor, hparties, hrequest, hepoch, operation,
    ⟨⟨_, hoperation, .text operation⟩, hknown⟩, ⟨state, ⟨_, hstate, .text state⟩, hstates⟩, hrest⟩

/-- The two readings of a control object differ only where a name is no text. -/
theorem controlSchema_text_iff :
    ControlSchema NamesText m ↔ ControlSchema NamesWrapped m ∧
      (∃ operation, m.get "operation" = some (.text operation)) ∧
        ∃ state, m.get "state" = some (.text state) := by
  constructor
  · intro h
    obtain ⟨operation, state, hoperation, hstate, _⟩ := h.facts
    exact ⟨h.wrapped, ⟨operation, hoperation.1⟩, state, hstate.1⟩
  · rintro ⟨h, ⟨operation', hoperation'⟩, state', hstate'⟩
    obtain ⟨hexact, actor, hparties, hrequest, hepoch, operation, ⟨⟨w, hw, hwrap⟩, hknown⟩,
      ⟨state, ⟨x, hx, hxwrap⟩, hstates⟩, hrest⟩ := h
    rw [hoperation', Option.some.injEq] at hw
    rw [hstate', Option.some.injEq] at hx
    subst hw hx
    cases hwrap.eq_of_text
    cases hxwrap.eq_of_text
    exact ⟨hexact, actor, hparties, hrequest, hepoch, _, ⟨hoperation', hknown⟩,
      ⟨_, hstate', hstates⟩, hrest⟩

theorem connectionGrant_congr {address address' : Option Value → Prop}
    (h : ∀ c : Record, m.get "consent_context" = some (.map c) →
      (address (c.get "grantee_address") ↔ address' (c.get "grantee_address"))) :
    ConnectionGrantSchema address m ↔ ConnectionGrantSchema address' m := by
  unfold ConnectionGrantSchema
  refine and_congr_right fun _ => and_congr_right fun _ => and_congr_right fun _ =>
    and_congr_right fun _ => exists_congr fun owner => and_congr_right fun _ =>
    and_congr_right fun _ => and_congr_right fun _ => and_congr_right fun _ =>
    and_congr_left fun _ => exists_congr fun c => and_congr_right fun hc =>
    and_congr_right fun _ => and_congr_left fun _ => ?_
  exact h c hc

theorem hailAddress_null (oracle : DomainOracle) (path : String) :
    ((TypeScript.hailAddress oracle none path).isOk = true ↔
      (Go.hailAddress oracle .null path).isOk = true) := by
  rw [isOk_iff, isOk_iff]
  simp only [TypeScript.hailAddress, Go.hailAddress, bind_eq_ok, TypeScript.text_eq_ok,
    Go.textValue_eq_ok, reduceCtorEq, false_and, exists_false]

/-- The validators of the connection and conversation objects, but for that of control objects,
have one schema. -/
theorem validateTyped_agree (hkind : kind ∈ connectionObjects) (hcontrol : kind ≠ .connectionControl)
    (haddress : SharedAddress lib.domains m) :
    TypeScript.validateTyped lib m kind = .ok () ↔ Go.validateTyped lib m kind = .ok () := by
  simp only [connectionObjects, List.mem_cons, List.not_mem_nil, or_false] at hkind
  obtain rfl | rfl | rfl | rfl | rfl | rfl := hkind
  · exact TypeScript.validateConnectionInvitation_eq_ok.trans
      Go.validateConnectionInvitation_eq_ok.symm
  · exact TypeScript.validateConnectionConfirmation_eq_ok.trans
      Go.validateConnectionConfirmation_eq_ok.symm
  · refine (TypeScript.validateConnectionGrant_eq_ok.trans (connectionGrant_congr ?_)).trans
      Go.validateConnectionGrant_eq_ok.symm
    intro c hc
    cases hv : c.get "grantee_address" with
    | none => exact hailAddress_null lib.domains _
    | some v => exact haddress c v hc hv
  · exact absurd rfl hcontrol
  · exact TypeScript.validateConversation_eq_ok.trans Go.validateConversation_eq_ok.symm
  · exact TypeScript.validateConversationRevival_eq_ok.trans
      Go.validateConversationRevival_eq_ok.symm

/-- What both languages ask of a connection or conversation object before its own members. -/
theorem connection_header (hkind : kind ∈ connectionObjects) :
    kind.isTyped = true ∧ kind ≠ .addressBinding ∧ kind ≠ .senderProfile ∧ kind ≠ .envelope := by
  simp only [connectionObjects, List.mem_cons, List.not_mem_nil, or_false] at hkind
  obtain rfl | rfl | rfl | rfl | rfl | rfl := hkind <;> decide

/-- The two languages agree on the connection and conversation objects, and what they accept as a
control object names its operation and state as it should, unless a name is no text. -/
theorem connection_objects_agreement (hkind : kind ∈ connectionObjects)
    (hm : Decoded (.map m)) (haddress : SharedAddress lib.domains m) :
    ((TypeScript.validatePayload lib kind (.map m) = .ok () ↔
        Go.validatePayloadMap lib kind m = .ok ()) ∧
      (kind = .connectionControl → TypeScript.validatePayload lib kind (.map m) = .ok () →
        ControlFacts m) ∧
      (kind = .connectionControl → Go.validatePayloadMap lib kind m = .ok () →
        ControlFacts m)) ↔ PlainControl kind m := by
  obtain ⟨htyped, hbinding, hprofile, henvelope⟩ := connection_header hkind
  rw [TypeScript.validatePayload_typed htyped hm, Go.validatePayloadMap_typed htyped,
    TypeScript.payloadVersion_eq_ok hbinding hprofile, Go.payloadVersion_eq_ok hbinding hprofile]
  unfold PlainControl
  by_cases hcontrol : kind = .connectionControl
  · subst hcontrol
    have hversion : VersionSchema .connectionControl m ↔ m.get "version" = some (.int 1) := Iff.rfl
    have hts : TypeScript.validateTyped lib m .connectionControl = .ok () ↔
        ControlSchema NamesWrapped m := TypeScript.validateConnectionControl_eq_ok
    have hgo : Go.validateTyped lib m .connectionControl = .ok () ↔
        ControlSchema NamesText m := Go.validateConnectionControl_eq_ok
    rw [hversion, hts, hgo]
    constructor
    · rintro ⟨hagree, _⟩ _ htype hone hwrapped
      exact (controlSchema_text_iff.1 (hagree.1 ⟨htype, hone, hwrapped⟩).2.2).2
    · intro hplain
      have hagree (htype : m.get "type" = some (.text PayloadType.connectionControl.name))
          (hone : m.get "version" = some (.int 1)) (h : ControlSchema NamesWrapped m) :
          ControlSchema NamesText m :=
        controlSchema_text_iff.2 ⟨h, hplain rfl htype hone h⟩
      refine ⟨⟨?_, ?_⟩, ?_, ?_⟩
      · rintro ⟨htype, hone, h⟩
        exact ⟨htype, hone, hagree htype hone h⟩
      · rintro ⟨htype, hone, h⟩
        exact ⟨htype, hone, h.wrapped⟩
      · rintro _ ⟨htype, hone, h⟩
        exact (hagree htype hone h).facts
      · rintro _ ⟨_, _, h⟩
        exact h.facts
  · rw [validateTyped_agree hkind hcontrol haddress]
    simp only [hcontrol, false_implies, and_true]

/-- Libraries for which every text is plain and every URL is opaque. -/
def plainLibraries : Libraries where
  domains := ⟨some, fun _ => true⟩
  sha256 := ⟨fun _ => List.replicate 32 0, fun _ => List.length_replicate⟩
  isNormal _ := true
  controlOrFormat _ := false
  newUrl _ := none
  urlParse _ := none

/-- A probe whose operation is this value. -/
def probeControl (operation : Value) : Record :=
  [(.text "type", .text "hail.connection-control"), (.text "version", .int 1),
    (.text "operation", operation),
    (.text "from", .text "did:plc:aaaaaaaaaaaaaaaaaaaaaaaa"),
    (.text "to", .text "did:plc:bbbbbbbbbbbbbbbbbbbbbbbb"),
    (.text "request_id", .text "0190a000-0000-7000-8000-000000000000"),
    (.text "connection_id", .null), (.text "epoch", .int 0), (.text "state", .text "empty"),
    (.text "proof_hash", .map [(.text "algorithm", .text "sha-256"),
      (.text "value", .bytes (List.replicate 32 0))]),
    (.text "issued_at", .int 0), (.text "expires_at", .int 300),
    (.text "key_id", .text "did:plc:aaaaaaaaaaaaaaaaaaaaaaaa#hail-messaging")]

theorem connection_objects_agreement_probe :
    ((TypeScript.validatePayload plainLibraries .connectionControl
          (.map (probeControl (.text "probe"))) = .ok () ↔
        Go.validatePayloadMap plainLibraries .connectionControl
          (probeControl (.text "probe")) = .ok ()) ∧
      (PayloadType.connectionControl = .connectionControl →
        TypeScript.validatePayload plainLibraries .connectionControl
          (.map (probeControl (.text "probe"))) = .ok () →
        ControlFacts (probeControl (.text "probe"))) ∧
      (PayloadType.connectionControl = .connectionControl →
        Go.validatePayloadMap plainLibraries .connectionControl
          (probeControl (.text "probe")) = .ok () →
        ControlFacts (probeControl (.text "probe")))) ↔
    PlainControl .connectionControl (probeControl (.text "probe")) :=
  connection_objects_agreement (by decide) (by rfl) (fun _ _ h _ => by cases h)

/-- TypeScript takes the operation of a probe out of an array, and Go does not. -/
theorem connection_control_wrapped_operation :
    TypeScript.validatePayload plainLibraries .connectionControl
        (.map (probeControl (.array [.text "probe"]))) = .ok () ∧
      ¬Go.validatePayloadMap plainLibraries .connectionControl
        (probeControl (.array [.text "probe"])) = .ok () := by
  constructor
  · rfl
  · intro h
    cases h

end Controls

section Bodies

variable {lib : Libraries} {kind : PayloadType} {m : Record} {v : Value} {P Q : String → Prop}

/-- The types of bodies. -/
def bodyTypes : List PayloadType := [.bodySpt1, .bodySpt2, .bodySpt3]

/-- The filename of an attachment, if it is one, has this property. -/
def FilenameIs (P : String → Prop) (v : Value) : Prop :=
  ∀ a : Record, ∀ name, v = .map a → a.get "filename" = some (.text name) → P name

/-- The filenames of the attachments have this property. -/
def FilenamesAre (P : String → Prop) (m : Record) : Prop :=
  ∀ entries, m.get "attachments" = some (.array entries) → ∀ v ∈ entries, FilenameIs P v

/-- The address of a mark definition, if it is one, has this property. -/
def HrefIs (P : String → Prop) (v : Value) : Prop :=
  ∀ d : Record, ∀ href, v = .map d → d.get "href" = some (.text href) → P href

/-- The addresses of the links of a block have this property. -/
def BlockHrefsAre (P : String → Prop) (v : Value) : Prop :=
  ∀ b : Record, ∀ defs, v = .map b → b.get "markDefs" = some (.array defs) →
    ∀ d ∈ defs, HrefIs P d

/-- The addresses of the links of a body have this property. -/
def HrefsAre (P : String → Prop) (m : Record) : Prop :=
  ∀ blocks, m.get "blocks" = some (.array blocks) → ∀ v ∈ blocks, BlockHrefsAre P v

/-- The rules of a body of this type, given the names and addresses it may have. -/
def BodyRules (lib : Libraries) (filename href : String → Prop) (m : Record) : PayloadType → Prop
  | .bodySpt1 => Spt1Schema filename m
  | .bodySpt2 => Spt2Schema filename href m
  | .bodySpt3 => Spt3Schema lib filename href m
  | _ => False

theorem attachmentSchema_and {size : Int} :
    AttachmentSchema (fun name => P name ∧ Q name) v size ↔
      FilenameIs Q v ∧ AttachmentSchema P v size := by
  constructor
  · rintro ⟨a, rfl, hexact, name, ⟨hname, hp, hq⟩, hrest⟩
    refine ⟨?_, a, rfl, hexact, name, ⟨hname, hp⟩, hrest⟩
    rintro a' name' ha hname'
    cases ha
    rw [hname, Option.some.injEq, Value.text.injEq] at hname'
    exact hname' ▸ hq
  · rintro ⟨hq, a, rfl, hexact, name, ⟨hname, hp⟩, hrest⟩
    exact ⟨a, rfl, hexact, name, ⟨hname, hp, hq a name rfl hname⟩, hrest⟩

/-- What a relation asks of the entries alone can be asked of them one by one. -/
theorem forall₂_and_iff {α β : Type} {R S : α → β → Prop} {p : α → Prop} {xs : List α}
    {ys : List β} (h : ∀ a b, R a b ↔ p a ∧ S a b) :
    List.Forall₂ R xs ys ↔ (∀ a ∈ xs, p a) ∧ List.Forall₂ S xs ys := by
  rw [← List.forall₂_and_left]
  exact ⟨List.Forall₂.imp fun a b => (h a b).1, List.Forall₂.imp fun a b => (h a b).2⟩

theorem attachmentSchemas_and {entries : List Value} {sizes : List Int} :
    List.Forall₂ (AttachmentSchema fun name => P name ∧ Q name) entries sizes ↔
      (∀ v ∈ entries, FilenameIs Q v) ∧ List.Forall₂ (AttachmentSchema P) entries sizes :=
  forall₂_and_iff fun _ _ => attachmentSchema_and

theorem attachmentsSchema_and :
    AttachmentsSchema (fun name => P name ∧ Q name) (m.get "attachments") ↔
      FilenamesAre Q m ∧ AttachmentsSchema P (m.get "attachments") := by
  constructor
  · rintro (hnone | ⟨entries, hentries, hlength, sizes, hsizes, hsum⟩)
    · refine ⟨fun entries h => ?_, .inl hnone⟩
      rw [hnone] at h
      cases h
    · obtain ⟨hnames, hsizes⟩ := attachmentSchemas_and.1 hsizes
      refine ⟨fun entries' h => ?_, .inr ⟨entries, hentries, hlength, sizes, hsizes, hsum⟩⟩
      rw [hentries, Option.some.injEq, Value.array.injEq] at h
      exact h ▸ hnames
  · rintro ⟨hnames, hnone | ⟨entries, hentries, hlength, sizes, hsizes, hsum⟩⟩
    · exact .inl hnone
    · refine .inr ⟨entries, hentries, hlength, sizes, ?_, hsum⟩
      exact attachmentSchemas_and.2 ⟨hnames entries hentries, hsizes⟩

theorem readsLink_and {link : Link} :
    ReadsLink (fun href => P href ∧ Q href) v link ↔ HrefIs Q v ∧ ReadsLink P v link := by
  constructor
  · rintro ⟨d, rfl, hexact, hkey, hpattern, htype, ⟨hhref, hp, hq⟩, htitle⟩
    refine ⟨?_, d, rfl, hexact, hkey, hpattern, htype, ⟨hhref, hp⟩, htitle⟩
    rintro d' href' hd hhref'
    cases hd
    rw [hhref, Option.some.injEq, Value.text.injEq] at hhref'
    exact hhref' ▸ hq
  · rintro ⟨hq, d, rfl, hexact, hkey, hpattern, htype, ⟨hhref, hp⟩, htitle⟩
    exact ⟨d, rfl, hexact, hkey, hpattern, htype, ⟨hhref, hp, hq d _ rfl hhref⟩, htitle⟩

theorem readsLinks_and {defs : List Value} {links : List Link} :
    List.Forall₂ (ReadsLink fun href => P href ∧ Q href) defs links ↔
      (∀ d ∈ defs, HrefIs Q d) ∧ List.Forall₂ (ReadsLink P) defs links :=
  forall₂_and_iff fun _ _ => readsLink_and

theorem richBlock_and :
    RichBlock (fun href => P href ∧ Q href) v ↔ BlockHrefsAre Q v ∧ RichBlock P v := by
  constructor
  · rintro ⟨b, rfl, hexact, htype, hstyle, halign, hlist, hlevel, defs, hdefs, links,
      ⟨hlinks, hnodup⟩, hrest⟩
    obtain ⟨hhrefs, hlinks⟩ := readsLinks_and.1 hlinks
    refine ⟨?_, b, rfl, hexact, htype, hstyle, halign, hlist, hlevel, defs, hdefs, links,
      ⟨hlinks, hnodup⟩, hrest⟩
    rintro b' defs' hb hdefs'
    cases hb
    rw [hdefs, Option.some.injEq, Value.array.injEq] at hdefs'
    exact hdefs' ▸ hhrefs
  · rintro ⟨hhrefs, b, rfl, hexact, htype, hstyle, halign, hlist, hlevel, defs, hdefs, links,
      ⟨hlinks, hnodup⟩, hrest⟩
    refine ⟨b, rfl, hexact, htype, hstyle, halign, hlist, hlevel, defs, hdefs, links, ?_, hrest⟩
    exact ⟨readsLinks_and.2 ⟨hhrefs b defs rfl hdefs, hlinks⟩, hnodup⟩

theorem bodyHeader_and {required : List String} {profile : String} :
    BodyHeader (fun name => P name ∧ Q name) required profile m ↔
      FilenamesAre Q m ∧ BodyHeader P required profile m := by
  simp only [BodyHeader, attachmentsSchema_and, and_assoc]
  rw [and_left_comm]

/-- A member that the record may not have is absent. -/
theorem Exact.not_mem {r : Record} {required optional : List String} {k : String}
    (h : Exact r required optional) (hk : k ∉ required ++ optional) : r.get k = none := by
  unfold Record.get
  rw [Option.map_eq_none_iff, List.find?_eq_none]
  intro e he htext
  obtain ⟨k', hk', hkey⟩ := h.1 e he
  rw [Value.isText_iff, hkey, Value.text.injEq] at htext
  exact hk (htext ▸ hk')

/-- Image blocks have no links. -/
theorem ImageBlocks.hrefs {assets images : List BundledImageAsset} {position : Nat}
    {blocks texts : List Value} (h : ImageBlocks lib assets position blocks images texts) :
    (∀ v ∈ blocks, BlockHrefsAre Q v) ↔ ∀ v ∈ texts, BlockHrefsAre Q v := by
  induction h with
  | nil => rfl
  | image hentry _ ih =>
    rw [List.forall_mem_cons, ih]
    refine and_iff_right ?_
    rintro b defs hb hdefs
    obtain ⟨b', hb', _, hexact, _⟩ := hentry
    cases hb.symm.trans hb'
    rw [hexact.not_mem (k := "markDefs") (by decide)] at hdefs
    cases hdefs
  | text _ _ ih => rw [List.forall_mem_cons, List.forall_mem_cons, ih]

theorem blocks_and {block : Value → Prop} {p q : Value → Prop} (h : ∀ v, block v ↔ q v ∧ p v) :
    Blocks block m ↔
      (∀ blocks, m.get "blocks" = some (.array blocks) → ∀ v ∈ blocks, q v) ∧ Blocks p m := by
  simp only [Blocks, h]
  constructor
  · rintro ⟨blocks, hblocks, hall⟩
    refine ⟨fun blocks' h' => ?_, blocks, hblocks, fun v hv => (hall v hv).2⟩
    rw [hblocks, Option.some.injEq, Value.array.injEq] at h'
    exact h' ▸ fun v hv => (hall v hv).1
  · rintro ⟨hq, blocks, hblocks, hall⟩
    exact ⟨blocks, hblocks, fun v hv => ⟨hq blocks hblocks v hv, hall v hv⟩⟩

theorem spt3_and {P' Q' : String → Prop} :
    Spt3Schema lib (fun name => P name ∧ Q name) (fun href => P' href ∧ Q' href) m ↔
      (FilenamesAre Q m ∧ HrefsAre Q' m) ∧ Spt3Schema lib P P' m := by
  simp only [Spt3Schema, bodyHeader_and, HrefsAre]
  constructor
  · rintro ⟨⟨hnames, hheader⟩, assets, hmanifest, hroles, blocks, hblocks, images, texts, himages,
      hbudget, htexts⟩
    refine ⟨⟨hnames, fun blocks' h => ?_⟩, hheader, assets, hmanifest, hroles, blocks, hblocks,
      images, texts, himages, hbudget, fun v hv => (richBlock_and.1 (htexts v hv)).2⟩
    rw [hblocks, Option.some.injEq, Value.array.injEq] at h
    exact h ▸ himages.hrefs.2 fun v hv => (richBlock_and.1 (htexts v hv)).1
  · rintro ⟨⟨hnames, hhrefs⟩, hheader, assets, hmanifest, hroles, blocks, hblocks, images, texts,
      himages, hbudget, htexts⟩
    refine ⟨⟨hnames, hheader⟩, assets, hmanifest, hroles, blocks, hblocks, images, texts, himages,
      hbudget, fun v hv => richBlock_and.2 ⟨?_, htexts v hv⟩⟩
    exact himages.hrefs.1 (hhrefs blocks hblocks) v hv

/-- A body of the first profile has no links. -/
theorem Spt1Schema.hrefs {filename : String → Prop} (h : Spt1Schema filename m) :
    HrefsAre Q m := by
  obtain ⟨_, blocks, hblocks, hall⟩ := h
  rintro blocks' h v hv b defs rfl hdefs d hd
  rw [hblocks, Option.some.injEq, Value.array.injEq] at h
  obtain ⟨b', hb', _, _, _, hempty, _⟩ := hall _ (h ▸ hv)
  cases hb'
  rw [hempty, Option.some.injEq, Value.array.injEq] at hdefs
  rw [← hdefs] at hd
  cases hd

theorem bodyRules_and {P' Q' : String → Prop} :
    BodyRules lib (fun name => P name ∧ Q name) (fun href => P' href ∧ Q' href) m kind ↔
      (FilenamesAre Q m ∧ HrefsAre Q' m) ∧ BodyRules lib P P' m kind := by
  cases kind <;> simp only [BodyRules, and_false]
  · simp only [Spt1Schema, bodyHeader_and]
    constructor
    · rintro ⟨⟨hnames, hheader⟩, hblocks⟩
      exact ⟨⟨hnames, Spt1Schema.hrefs ⟨hheader, hblocks⟩⟩, hheader, hblocks⟩
    · rintro ⟨⟨hnames, _⟩, hheader, hblocks⟩
      exact ⟨⟨hnames, hheader⟩, hblocks⟩
  · simp only [Spt2Schema, bodyHeader_and, blocks_and fun _ => richBlock_and]
    constructor
    · rintro ⟨⟨hnames, hheader⟩, hhrefs, hblocks⟩
      exact ⟨⟨hnames, hhrefs⟩, hheader, hblocks⟩
    · rintro ⟨⟨hnames, hhrefs⟩, hheader, hblocks⟩
      exact ⟨⟨hnames, hheader⟩, hhrefs, hblocks⟩
  · exact spt3_and

theorem TypeScript.validateBody_eq_ok (hkind : kind ∈ bodyTypes) (hv : Decoded v) :
    validatePayload lib kind v = .ok () ↔ ∃ m, v = .map m ∧
      BodyRules lib (fun name => attachmentFilename lib name = true)
        (fun href => linkHref lib href = true) m kind := by
  by_cases hmap : ∃ m, v = .map m
  · obtain ⟨m, rfl⟩ := hmap
    simp only [Value.map.injEq, exists_eq_left']
    simp only [bodyTypes, List.mem_cons, List.not_mem_nil, or_false] at hkind
    obtain rfl | rfl | rfl := hkind
    · rw [validatePayload_body rfl hv]
      exact validateSpt1Body_eq_ok
    · rw [validatePayload_body rfl hv]
      exact validateSpt2Body_eq_ok
    · rw [validatePayload_body rfl hv]
      exact validateSpt3Body_eq_ok fun w hw => assertHailValue_member hv hw
  · refine iff_of_false ?_ (fun ⟨m, h, _⟩ => hmap ⟨m, h⟩)
    simp only [validatePayload, bind_eq_ok, record_eq_ok, Option.some.injEq, not_exists, not_and]
    intro _ _ m h
    exact absurd ⟨m, h⟩ hmap

theorem Go.validateBody_eq_ok (hkind : kind ∈ bodyTypes) :
    validatePayloadValue lib kind v = .ok () ↔ ∃ m, v = .map m ∧
      BodyRules lib (fun name => attachmentFilename lib name = true)
        (fun href => linkHref lib href = true) m kind := by
  unfold validatePayloadValue
  split
  · rename_i m
    simp only [Value.map.injEq, exists_eq_left']
    simp only [bodyTypes, List.mem_cons, List.not_mem_nil, or_false] at hkind
    obtain rfl | rfl | rfl := hkind
    · rw [validatePayloadMap_body rfl]
      exact validateSpt1Body_eq_ok
    · rw [validatePayloadMap_body rfl]
      exact validateSpt2Body_eq_ok
    · rw [validatePayloadMap_body rfl]
      exact validateSpt3Body_eq_ok
  · rename_i hnot
    simp only [reduceCtorEq, false_iff, not_exists, not_and]
    intro m h
    exact absurd h (hnot m)

/-- The URL parsers take the addresses with a small-letter scheme alike. -/
def SharedUrls (lib : Libraries) : Prop :=
  ∀ href, TypeScript.startsWithHttps href = true →
    (TypeScript.linkHref lib href = true ↔ Go.linkHref lib href = true)

theorem linkHref_iff (hurls : SharedUrls lib) (href : String) :
    TypeScript.linkHref lib href = true ↔
      Go.linkHref lib href = true ∧ TypeScript.startsWithHttps href = true := by
  by_cases hstart : TypeScript.startsWithHttps href = true
  · rw [hurls href hstart]
    exact (and_iff_left hstart).symm
  · refine iff_of_false ?_ (fun h => hstart h.2)
    unfold TypeScript.linkHref TypeScript.plainHttps
    intro h
    split at h
    · simp only [Bool.and_eq_true] at h
      exact hstart h.1.1.1
    · cases h

/-- The two languages agree on a body exactly when it breaks a rule that both have, or has no
separator in the names of its attachments and only links with a small-letter scheme. -/
theorem body_agreement (hkind : kind ∈ bodyTypes) (hv : Decoded v) (hurls : SharedUrls lib) :
    (TypeScript.validatePayload lib kind v = .ok () ↔
        Go.validatePayloadValue lib kind v = .ok ()) ↔
      ∀ m, v = .map m →
        BodyRules lib (fun name => Go.attachmentFilename lib name = true)
          (fun href => Go.linkHref lib href = true) m kind →
        FilenamesAre (fun name => ¬HasSeparator name) m ∧
          HrefsAre (fun href => TypeScript.startsWithHttps href = true) m := by
  rw [TypeScript.validateBody_eq_ok hkind hv, Go.validateBody_eq_ok hkind]
  simp only [attachmentFilename_iff, linkHref_iff hurls, bodyRules_and]
  constructor
  · intro h m hm hrules
    obtain ⟨m', hm', hplain, _⟩ := h.2 ⟨m, hm, hrules⟩
    cases hm.symm.trans hm'
    exact hplain
  · intro h
    constructor
    · rintro ⟨m, hm, _, hrules⟩
      exact ⟨m, hm, hrules⟩
    · rintro ⟨m, hm, hrules⟩
      exact ⟨m, hm, h m hm hrules, hrules⟩

/-- A body of the first profile with one attachment of this name. -/
def attachmentBody (filename : String) : Record :=
  [(.text "version", .int 1), (.text "profile", .text "spt-1"), (.text "blocks", .array []),
    (.text "attachments", .array [.map [(.text "filename", .text filename),
      (.text "media_type", .text "application/pdf"), (.text "size", .int 1),
      (.text "digest", .map [(.text "algorithm", .text "sha-256"),
        (.text "value", .bytes (List.replicate 32 0))])]])]

theorem sharedUrls_plainLibraries : SharedUrls plainLibraries :=
  fun _ _ => iff_of_false Bool.false_ne_true Bool.false_ne_true

theorem body_agreement_pdf :
    (TypeScript.validatePayload plainLibraries .bodySpt1 (.map (attachmentBody "a.pdf")) = .ok () ↔
        Go.validatePayloadValue plainLibraries .bodySpt1 (.map (attachmentBody "a.pdf")) =
          .ok ()) ↔
      ∀ m, Value.map (attachmentBody "a.pdf") = .map m →
        BodyRules plainLibraries (fun name => Go.attachmentFilename plainLibraries name = true)
          (fun href => Go.linkHref plainLibraries href = true) m .bodySpt1 →
        FilenamesAre (fun name => ¬HasSeparator name) m ∧
          HrefsAre (fun href => TypeScript.startsWithHttps href = true) m :=
  body_agreement (by decide) (by rfl) sharedUrls_plainLibraries

/-- Go takes an attachment with a line separator in its name, and TypeScript does not. -/
theorem attachment_with_line_separator :
    Decoded (.map (attachmentBody "a\u2028.pdf")) ∧ SharedUrls plainLibraries ∧
      Go.validatePayloadValue plainLibraries .bodySpt1
        (.map (attachmentBody "a\u2028.pdf")) = .ok () ∧
      ¬TypeScript.validatePayload plainLibraries .bodySpt1
        (.map (attachmentBody "a\u2028.pdf")) = .ok () := by
  refine ⟨by rfl, sharedUrls_plainLibraries, by rfl, ?_⟩
  intro h
  cases h

end Bodies

end HailProto.Codec
