import HailProto.Codec.Agreement
import HailProto.Codec.Diagnostic
import HailProto.Core.Pairing

/-!
# The diagnostic form of every payload type

Each of the fourteen schemas admits bytes only in members whose name, or whose sibling
`algorithm`, tells the way back that they are bytes, and admits no text there. So every accepted
payload is `Recoverable`, and the size of its diagnostic form alone decides whether it comes back.
-/

namespace HailProto.Codec

open Cbor (Value asBytes)

/-- The member with this name, if there is one, is recoverable under it. -/
def RecoverableMember (r : Record) (k : String) : Prop :=
  ∀ v, r.get k = some v → Recoverable (TypeScript.heldBytes (some r) (some k)) v

section Members

variable {r : Record} {k : String} {held : Option (Option Nat)}

theorem Record.get_of_mem {k v : Value} (hkeys : (r.map Prod.fst).Nodup) (h : (k, v) ∈ r)
    (hk : k = .text k.keyText) : r.get k.keyText = some v := by
  induction r with
  | nil => cases h
  | cons e r ih =>
    obtain ⟨k', v'⟩ := e
    rw [List.map_cons, List.nodup_cons] at hkeys
    obtain heq | hmem := List.mem_cons.1 h
    · obtain ⟨rfl, rfl⟩ := Prod.mk.inj heq
      have htext : Value.isText k.keyText k = true := Value.isText_iff.2 hk
      simp only [Record.get, List.find?_cons, htext, Option.map_some]
    · have hne : Value.isText k.keyText k' = false := by
        rw [Bool.eq_false_iff, ne_eq, Value.isText_iff]
        rintro rfl
        apply hkeys.1
        rw [← hk]
        exact List.mem_map.2 ⟨_, hmem, rfl⟩
      have hget := ih hkeys.2 hmem
      simp only [Record.get, List.find?_cons, hne] at hget ⊢
      exact hget

@[simp] theorem distinctKeys_array {values : List Value} :
    DistinctKeys (.array values) ↔ ∀ v ∈ values, DistinctKeys v := by
  constructor
  · rintro (_ | _ | _ | _ | _ | h)
    exact h
  · exact .array

@[simp] theorem distinctKeys_map :
    DistinctKeys (.map r) ↔ (r.map Prod.fst).Nodup ∧ ∀ e ∈ r, DistinctKeys e.2 := by
  constructor
  · rintro (_ | _ | _ | _ | _ | _ | ⟨hkeys, h⟩)
    exact ⟨hkeys, h⟩
  · exact fun h => .map h.1 h.2

attribute [simp] DistinctKeys.null DistinctKeys.bool DistinctKeys.int DistinctKeys.text
  DistinctKeys.bytes

theorem DistinctKeys.keys (h : DistinctKeys (.map r)) : (r.map Prod.fst).Nodup := by
  cases h with
  | map hkeys _ => exact hkeys

theorem DistinctKeys.member {v : Value} (h : DistinctKeys (.map r)) (hv : r.get k = some v) :
    DistinctKeys v := by
  cases h with
  | map _ hentries => exact hentries _ (Record.mem_of_get hv)

theorem DistinctKeys.item {values : List Value} {v : Value} (h : DistinctKeys (.array values))
    (hv : v ∈ values) : DistinctKeys v := by
  cases h with
  | array hvalues => exact hvalues v hv

/-- A record whose members are all recoverable is so itself. -/
theorem Recoverable.of_exact {required optional : List String} (hr : DistinctKeys (.map r))
    (hexact : Exact r required optional)
    (h : (required ++ optional).Forall (RecoverableMember r)) : Recoverable held (.map r) := by
  refine .map fun e he => ?_
  obtain ⟨k, hk, hkey⟩ := hexact.1 e he
  have hname : e.1.keyText = k := by rw [hkey]; rfl
  have hget : r.get e.1.keyText = some e.2 := by
    refine Record.get_of_mem hr.keys he ?_
    rw [hname]
    exact hkey
  rw [hname] at hget ⊢
  exact List.forall_iff_forall_mem.1 h k hk e.2 hget

namespace RecoverableMember

theorem of_value {v : Value} (hv : r.get k = some v)
    (h : Recoverable (TypeScript.heldBytes (some r) (some k)) v) : RecoverableMember r k := by
  intro w hw
  rw [hv] at hw
  cases hw
  exact h

theorem absent (h : r.get k = none) : RecoverableMember r k := by
  intro v hv
  rw [h] at hv
  cases hv

theorem null (h : r.get k = some .null) : RecoverableMember r k := .of_value h .null

theorem bool {b : Bool} (h : r.get k = some (.bool b)) : RecoverableMember r k :=
  .of_value h (.bool b)

theorem int {n : Int} (h : r.get k = some (.int n)) : RecoverableMember r k :=
  .of_value h (.int n)

theorem integer {minimum n : Int} (h : IsInteger minimum (r.get k) n) : RecoverableMember r k :=
  .int h.1

theorem plain {v : Value} (hk : k ∉ TypeScript.byteNames) (hv : r.get k = some v)
    (h : Recoverable none v) : RecoverableMember r k := by
  refine .of_value hv ?_
  rw [TypeScript.heldBytes_eq_none hk]
  exact h

theorem text {s : String} (hk : k ∉ TypeScript.byteNames) (h : r.get k = some (.text s)) :
    RecoverableMember r k := .plain hk h (.text s)

theorem isMatch {pattern : String → Bool} (hk : k ∉ TypeScript.byteNames)
    (h : IsMatch pattern (r.get k)) : RecoverableMember r k := by
  obtain ⟨s, hs, _⟩ := h
  exact .text hk hs

theorem oneOf {names : List String} (hk : k ∉ TypeScript.byteNames) (h : OneOf names (r.get k)) :
    RecoverableMember r k := by
  obtain ⟨s, _, hs⟩ := h
  exact .text hk hs

theorem profileText {lib : Libraries} {minimum maximum : Nat} (hk : k ∉ TypeScript.byteNames)
    (h : IsProfileText lib minimum maximum (r.get k)) : RecoverableMember r k := by
  obtain ⟨s, hs, _⟩ := h
  exact .text hk hs

theorem array {values : List Value} (hv : r.get k = some (.array values))
    (h : ∀ v ∈ values, Recoverable none v) : RecoverableMember r k := .of_value hv (.array h)

theorem texts {texts : List String} (hv : r.get k = some (.array (texts.map .text))) :
    RecoverableMember r k := by
  refine .array hv fun v hv => ?_
  obtain ⟨s, _, rfl⟩ := List.mem_map.1 hv
  exact .text s

theorem bytes {b : List UInt8} {expected : Option Nat} (hv : r.get k = some (.bytes b))
    (hheld : TypeScript.heldBytes (some r) (some k) = some expected)
    (h : ∀ n ∈ expected, b.length = n) : RecoverableMember r k := by
  refine .of_value hv ?_
  rw [hheld]
  exact .bytes h

end RecoverableMember

/-- The members of a digest: the name of the algorithm makes its sibling bytes. -/
theorem Recoverable.digest {d : Record} {b : List UInt8} (hd : DistinctKeys (.map d))
    (hexact : Exact d ["algorithm", "value"] [])
    (halgorithm : d.get "algorithm" = some (.text "sha-256"))
    (hvalue : d.get "value" = some (.bytes b)) (hlength : b.length = 32) :
    Recoverable held (.map d) := by
  have hheld : TypeScript.heldBytes (some d) (some "value") = some (some 32) := by
    simp [TypeScript.heldBytes, halgorithm]
  refine .of_exact hd hexact ?_
  exact ⟨.text (by decide) halgorithm, .bytes hvalue hheld (by simpa using hlength)⟩

theorem RecoverableMember.digest (hr : DistinctKeys (.map r)) (h : IsDigest (r.get k)) :
    RecoverableMember r k := by
  obtain ⟨d, hd, hexact, halgorithm, b, hb, hlength⟩ := h
  exact .of_value hd (.digest (hr.member hd) hexact halgorithm hb hlength)

end Members

section Connections

variable {r : Record} {held : Option (Option Nat)} {typeName : String}

theorem ConnectionWindow.members {confirmation : Bool} (h : ConnectionWindow confirmation r) :
    RecoverableMember r "issued_at" ∧ RecoverableMember r "expires_at" := by
  obtain ⟨issued, hissued, ⟨hnull, _⟩ | ⟨expires, hexpires, _⟩⟩ := h
  · exact ⟨.integer hissued, .null hnull⟩
  · exact ⟨.integer hissued, .integer hexpires⟩

theorem BoundedWindow.members {maximum : Int} {start finish : String}
    (h : BoundedWindow maximum r start finish) :
    RecoverableMember r start ∧ RecoverableMember r finish := by
  obtain ⟨issued, hissued, expires, hexpires, _⟩ := h
  exact ⟨.integer hissued, .integer hexpires⟩

theorem Parties.members {source target actor : String} (hsource : source ∉ TypeScript.byteNames)
    (htarget : target ∉ TypeScript.byteNames) (h : Parties r source target actor) :
    RecoverableMember r source ∧ RecoverableMember r target := by
  obtain ⟨⟨hactor, _⟩, peer, ⟨hpeer, _⟩, _⟩ := h
  exact ⟨.text hsource hactor, .text htarget hpeer⟩

theorem InvitationSchema.recoverable (hr : DistinctKeys (.map r))
    (htype : r.get "type" = some (.text typeName)) (hversion : r.get "version" = some (.int 1))
    (h : InvitationSchema r) : Recoverable held (.map r) := by
  obtain ⟨hexact, hid, owner, ⟨howner, _⟩, htoken, hwindow, hkey⟩ := h
  refine .of_exact hr hexact ?_
  refine ⟨.text ?_ htype, .int hversion, .isMatch ?_ hid, .text ?_ howner, .digest hr htoken,
    hwindow.members.1, hwindow.members.2, .text ?_ hkey⟩ <;> decide

theorem ConfirmationSchema.recoverable (hr : DistinctKeys (.map r))
    (htype : r.get "type" = some (.text typeName)) (hversion : r.get "version" = some (.int 1))
    (h : ConfirmationSchema r) : Recoverable held (.map r) := by
  obtain ⟨hexact, hid, hinvitation, actor, hparties, hhash, hwindow, hkey⟩ := h
  obtain ⟨hfrom, hto⟩ := hparties.members (by decide) (by decide)
  refine .of_exact hr hexact ?_
  refine ⟨.text ?_ htype, .int hversion, .isMatch ?_ hid, hfrom, hto, .isMatch ?_ hinvitation,
    .digest hr hhash, hwindow.members.1, hwindow.members.2, .text ?_ hkey⟩ <;> decide

/-- The predecessor of a grant is a digest from the second revision on. -/
theorem previous_member {revision : Int} (h : revision = 1 ∧ r.get "previous" = some .null ∨
    revision ≠ 1 ∧ ∃ b, r.get "previous" = some (.bytes b) ∧ b.length = 32) :
    RecoverableMember r "previous" := by
  obtain ⟨_, hnull⟩ | ⟨_, b, hb, hlength⟩ := h
  · exact .null hnull
  · exact .bytes hb rfl (by simpa using hlength)

theorem ConnectionGrantSchema.recoverable {oracle : DomainOracle} {path : String}
    (hr : DistinctKeys (.map r)) (htype : r.get "type" = some (.text typeName))
    (hversion : r.get "version" = some (.int 1))
    (h : ConnectionGrantSchema (fun v => (TypeScript.hailAddress oracle v path).isOk = true) r) :
    Recoverable held (.map r) := by
  obtain ⟨hexact, hid, hconnection, ⟨revision, hrevision, hprevious⟩, owner, hparties, hstatus,
    hwindow, ⟨updated, hupdated, _⟩, ⟨c, hc, hconsent, haddress, hbinding, hinvitation,
    hconfirmation⟩, hkey⟩ := h
  obtain ⟨hgrantor, hgrantee⟩ := hparties.members (by decide) (by decide)
  have haddress' : ∃ s, c.get "grantee_address" = some (.text s) := by
    obtain ⟨_, haddress⟩ := isOk_iff.1 haddress
    simp only [TypeScript.hailAddress, bind_eq_ok, TypeScript.text_eq_ok] at haddress
    obtain ⟨s, hs, _⟩ := haddress
    exact ⟨s, hs⟩
  obtain ⟨address, haddress'⟩ := haddress'
  have hdistinct := hr.member hc
  have hcontext : Recoverable none (.map c) := by
    refine .of_exact hdistinct hconsent ?_
    exact ⟨.text (by decide) haddress', .digest hdistinct hbinding, .digest hdistinct hinvitation,
      .digest hdistinct hconfirmation⟩
  have hstatus' : RecoverableMember r "status" := by
    obtain hactive | hrevoked := hstatus
    · exact .text (by decide) hactive
    · exact .text (by decide) hrevoked
  refine .of_exact hr hexact ?_
  refine ⟨.text ?_ htype, .int hversion, .isMatch ?_ hid, .isMatch ?_ hconnection,
    .integer hrevision, previous_member hprevious, hgrantor, hgrantee, hstatus',
    hwindow.members.1, .integer hupdated, hwindow.members.2, .plain ?_ hc hcontext,
    .text ?_ hkey⟩ <;> decide

theorem Wraps.recoverable {v : Value} {word : String} (h : Wraps v word) : Recoverable none v := by
  induction h with
  | text word => exact .text word
  | array _ ih =>
    refine .array ?_
    simpa using ih

theorem NamesWrapped.member {k word : String} (hk : k ∉ TypeScript.byteNames)
    (h : NamesWrapped (r.get k) word) : RecoverableMember r k := by
  obtain ⟨v, hv, hwraps⟩ := h
  exact .plain hk hv hwraps.recoverable

theorem ControlSchema.recoverable (hr : DistinctKeys (.map r))
    (htype : r.get "type" = some (.text typeName)) (hversion : r.get "version" = some (.int 1))
    (h : ControlSchema NamesWrapped r) : Recoverable held (.map r) := by
  obtain ⟨hexact, actor, hparties, hrequest, ⟨epoch, hepoch⟩, operation, ⟨hoperation, _⟩,
    ⟨state, hstate, _⟩, hpair, hproof, ⟨⟨issued, hissued⟩, hwindow⟩, hkey⟩ := h
  obtain ⟨hfrom, hto⟩ := hparties.members (by decide) (by decide)
  have hconnection : RecoverableMember r "connection_id" := by
    obtain ⟨_, hnull, _⟩ | ⟨_, hid, _⟩ := hpair
    · exact .null hnull
    · exact .isMatch (by decide) hid
  have hexpires : RecoverableMember r "expires_at" := by
    obtain ⟨_, hnull⟩ | ⟨_, hwindow⟩ := hwindow
    · exact .null hnull
    · exact hwindow.members.2
  refine .of_exact hr hexact ?_
  refine ⟨.text ?_ htype, .int hversion, hoperation.member ?_, hfrom, hto, .isMatch ?_ hrequest,
    hconnection, .integer hepoch, hstate.member ?_, .digest hr hproof, .integer hissued, hexpires,
    .text ?_ hkey⟩ <;> decide

theorem ConversationSchema.recoverable (hr : DistinctKeys (.map r))
    (htype : r.get "type" = some (.text typeName)) (hversion : r.get "version" = some (.int 1))
    (h : ConversationSchema r) : Recoverable held (.map r) := by
  obtain ⟨hexact, hid, creator, ⟨hcreator, _⟩, hrevision, ⟨roster, hroster, _⟩, hwindow⟩ := h
  refine .of_exact hr hexact ?_
  refine ⟨.text ?_ htype, .int hversion, .isMatch ?_ hid, .text ?_ hcreator, .int hrevision,
    .texts hroster, hwindow.members.1, hwindow.members.2⟩ <;> decide

theorem RevivalSchema.recoverable (hr : DistinctKeys (.map r))
    (htype : r.get "type" = some (.text typeName)) (hversion : r.get "version" = some (.int 1))
    (h : RevivalSchema r) : Recoverable held (.map r) := by
  obtain ⟨hexact, hid, hrequest, hhash, actor, hparties, hwindow⟩ := h
  obtain ⟨hfrom, hto⟩ := hparties.members (by decide) (by decide)
  refine .of_exact hr hexact ?_
  refine ⟨.text ?_ htype, .int hversion, .isMatch ?_ hid, .digest hr hhash, hfrom, hto,
    .isMatch ?_ hrequest, hwindow.members.1, hwindow.members.2⟩ <;> decide

theorem StatusSchema.recoverable (hr : DistinctKeys (.map r))
    (htype : r.get "type" = some (.text typeName)) (hversion : r.get "version" = some (.int 1))
    (h : StatusSchema r) : Recoverable held (.map r) := by
  obtain ⟨hexact, hid, hdigest, hfrom, hto, revision, hrevision, state, hstate, _, hreason,
    occurred, hoccurred, hretry⟩ := h
  have hreason' : RecoverableMember r "reason" := by
    cases hv : r.get "reason" with
    | none => exact .absent hv
    | some v =>
      have hneeds : needsReason state = true := by
        rw [hreason.1, hv]
        rfl
      obtain ⟨reason, hget, _⟩ := hreason.2 hneeds
      exact .text (by decide) hget
  have hretry' : RecoverableMember r "retry_at" := by
    obtain ⟨_, retry, hretry, _⟩ | ⟨_, habsent⟩ := hretry
    · exact .integer hretry
    · exact .absent habsent
  refine .of_exact hr hexact ?_
  refine ⟨.text ?_ htype, .int hversion, .isMatch ?_ hid, .digest hr hdigest, .isMatch ?_ hfrom,
    .isMatch ?_ hto, .integer hrevision, .text ?_ hstate, .integer hoccurred, hreason', hretry'⟩
    <;> decide

end Connections

section Envelopes

variable {sha256 : Sha256} {r a : Record} {held : Option (Option Nat)} {kind : String}

theorem GrantAuthorization.recoverable (ha : DistinctKeys (.map a))
    (htype : a.get "type" = some (.text kind)) (h : GrantAuthorization r a) :
    Recoverable held (.map a) := by
  obtain ⟨_, hexact, hid, _⟩ := h
  refine .of_exact ha hexact ?_
  exact ⟨.text (by decide) htype, .isMatch (by decide) hid⟩

theorem ReplyAuthorization.recoverable (ha : DistinctKeys (.map a))
    (htype : a.get "type" = some (.text kind)) (h : ReplyAuthorization r a) :
    Recoverable held (.map a) := by
  obtain ⟨_, hexact, hreply, _⟩ := h
  refine .of_exact ha hexact ?_
  exact ⟨.text (by decide) htype, .isMatch (by decide) hreply⟩

theorem ConnectionAuthorization.recoverable (ha : DistinctKeys (.map a))
    (htype : a.get "type" = some (.text kind)) (h : ConnectionAuthorization r a) :
    Recoverable held (.map a) := by
  obtain ⟨_, hexact, hid, ⟨epoch, hepoch⟩, _⟩ := h
  refine .of_exact ha hexact ?_
  exact ⟨.text (by decide) htype, .isMatch (by decide) hid, .integer hepoch⟩

theorem ConversationAuthorization.recoverable (ha : DistinctKeys (.map a))
    (htype : a.get "type" = some (.text kind)) (h : ConversationAuthorization sha256 r a) :
    Recoverable held (.map a) := by
  obtain ⟨_, hexact, hcreator, hid, hrevision, hhash, _⟩ := h
  refine .of_exact ha hexact ?_
  exact ⟨.text (by decide) htype, .isMatch (by decide) hcreator, .isMatch (by decide) hid,
    .int hrevision, .digest ha hhash⟩

theorem AuthorizationSchema.recoverable (ha : DistinctKeys (.map a))
    (htype : a.get "type" = some (.text kind)) (h : AuthorizationSchema sha256 r a kind) :
    Recoverable held (.map a) := by
  obtain ⟨_, h⟩ | ⟨_, h⟩ | ⟨_, h⟩ | ⟨_, h⟩ := h
  · exact h.recoverable ha htype
  · exact h.recoverable ha htype
  · exact h.recoverable ha htype
  · exact h.recoverable ha htype

/-- The members that only a conversation message has. -/
theorem ConversationAuthorization.members (hr : DistinctKeys (.map r))
    (h : ConversationAuthorization sha256 r a) :
    RecoverableMember r "conversation_message_id" ∧
      RecoverableMember r "conversation_introduction" := by
  obtain ⟨_, _, _, _, _, _, hmessage, _, hintroduction⟩ := h
  refine ⟨.isMatch (by decide) hmessage, ?_⟩
  obtain habsent | ⟨i, hi, hexact, hid, ⟨epoch, hepoch⟩, b, ⟨hb, _⟩, _⟩ := hintroduction
  · exact .absent habsent
  · refine .of_value hi (.of_exact (hr.member hi) hexact ?_)
    exact ⟨.bytes hb rfl (by simp), .isMatch (by decide) hid, .integer hepoch⟩

theorem ParentReference.member {parent : Record} (hr : DistinctKeys (.map r))
    (h : ParentReference r parent) : RecoverableMember r "in_reply_to" := by
  obtain ⟨hparent, hexact, hsender, hmessage⟩ := h
  refine .of_value hparent (.of_exact (hr.member hparent) hexact ?_)
  exact ⟨.isMatch (by decide) hsender, .isMatch (by decide) hmessage⟩

theorem LabelsSchema.members (h : LabelsSchema r) :
    RecoverableMember r "category" ∧ RecoverableMember r "message_type" := by
  obtain ⟨hcategory, hmessage⟩ := h
  constructor
  · obtain habsent | hcategory := hcategory
    · exact .absent habsent
    · exact .isMatch (by decide) hcategory
  · obtain habsent | ⟨s, hs, _⟩ := hmessage
    · exact .absent habsent
    · exact .text (by decide) hs

theorem BodySchema.member {created expires : Int} (hr : DistinctKeys (.map r))
    (h : BodySchema r created expires) : RecoverableMember r "body" := by
  obtain ⟨b, hb, hexact, hdigest, ⟨size, hsize, _⟩, hmedia, ⟨profile, hprofile, _⟩, available,
    havailable, _, access, haccess, haccessExact, hbearer, ⟨token, htoken, hlength⟩, expiry,
    hexpiry, _⟩ := h
  have hbody := hr.member hb
  have hrecoverable : Recoverable none (.map access) := by
    refine .of_exact (hbody.member haccess) haccessExact ?_
    exact ⟨.text (by decide) hbearer, .bytes htoken rfl (by simpa using hlength),
      .integer hexpiry⟩
  refine .of_value hb (.of_exact hbody hexact ?_)
  exact ⟨.digest hbody hdigest, .integer hsize, .text (by decide) hmedia,
    .text (by decide) hprofile, .integer havailable, .plain (by decide) haccess hrecoverable⟩

theorem ReplySchema.member {created : Int} (hr : DistinctKeys (.map r))
    (h : ReplySchema r kind created) : RecoverableMember r "reply" := by
  obtain ⟨reply, hreply, allowed, hallowed, _, hexact, huntil⟩ := h
  refine .of_value hreply (.of_exact (hr.member hreply) hexact ?_)
  cases allowed with
  | false => exact RecoverableMember.bool hallowed
  | true =>
    obtain ⟨t, ht, _⟩ := huntil rfl
    exact ⟨.bool hallowed, .integer ht⟩

/-- The optional members of an envelope belong to its version. -/
theorem EnvelopeSchema.optional_members (hr : DistinctKeys (.map r))
    (h : EnvelopeSchema sha256 r) :
    (TypeScript.envelopeOptional (r.get "version")).Forall (RecoverableMember r) := by
  obtain ⟨_, _, _, _, a, _, kind, _, hauthorization, hconversation, hthread, hlabels, _⟩ := h
  unfold TypeScript.envelopeOptional
  by_cases hfour : r.get "version" = some (.int 4)
  · have hkind : ConversationAuthorization sha256 r a := by
      have hversion := hauthorization.version
      obtain ⟨version, hint, hiff⟩ := hversion
      rw [hfour] at hint
      obtain ⟨heq, _⟩ := hint
      cases heq
      have hkind := hiff.1 rfl
      obtain ⟨rfl, _⟩ | ⟨rfl, _⟩ | ⟨rfl, _⟩ | ⟨_, h⟩ := hauthorization
      · exact absurd hkind (by decide)
      · exact absurd hkind (by decide)
      · exact absurd hkind (by decide)
      · exact h
    have hparent : RecoverableMember r "in_reply_to" := by
      obtain habsent | ⟨parent, hparent, _⟩ := hconversation hfour
      · exact .absent habsent
      · exact hparent.member hr
    rw [if_pos (TypeScript.strictEqual_int.2 hfour)]
    exact ⟨hlabels.members.2, hparent, (hkind.members hr).1, (hkind.members hr).2⟩
  · rw [if_neg (fun h => hfour (TypeScript.strictEqual_int.1 h))]
    by_cases hthree : r.get "version" = some (.int 3)
    · obtain ⟨parent, hparent, _⟩ := hthread hthree
      rw [if_pos (TypeScript.strictEqual_int.2 hthree)]
      exact ⟨hlabels.members.1, hlabels.members.2, hparent.member hr⟩
    · rw [if_neg (fun h => hthree (TypeScript.strictEqual_int.1 h))]
      exact hlabels.members

theorem EnvelopeSchema.recoverable {typeName : String} (hr : DistinctKeys (.map r))
    (htype : r.get "type" = some (.text typeName)) (h : EnvelopeSchema sha256 r) :
    Recoverable held (.map r) := by
  have hoptional := h.optional_members hr
  obtain ⟨hexact, hid, hfrom, hto, a, ha, kind, hkind, hauthorization, _, _, _, created, hcreated,
    expires, hexpires, _, hbody, hreply⟩ := h
  obtain ⟨version, hversion, _⟩ := hauthorization.version
  refine .of_exact hr hexact (List.forall_append.2 ⟨?_, hoptional⟩)
  exact ⟨.text (by decide) htype, .integer hversion, .isMatch (by decide) hid,
    .isMatch (by decide) hfrom, .isMatch (by decide) hto,
    .of_value ha (hauthorization.recoverable (hr.member ha) hkind), .integer hcreated,
    .integer hexpires, hbody.member hr, hreply.member hr⟩

end Envelopes

section Bodies

variable {lib : Libraries} {filename href : String → Prop} {r : Record}
  {held : Option (Option Nat)} {v : Value}

theorem AttachmentSchema.recoverable {size : Int} (hv : DistinctKeys v)
    (h : AttachmentSchema filename v size) : Recoverable held v := by
  obtain ⟨a, rfl, hexact, name, ⟨hname, _⟩, hmedia, hsize, hdigest⟩ := h
  refine .of_exact hv hexact ?_
  exact ⟨.text (by decide) hname, .text (by decide) hmedia, .integer hsize, .digest hv hdigest⟩

theorem AttachmentsSchema.member (hr : DistinctKeys (.map r))
    (h : AttachmentsSchema filename (r.get "attachments")) :
    RecoverableMember r "attachments" := by
  obtain habsent | ⟨entries, hentries, _, sizes, hsizes, _⟩ := h
  · exact .absent habsent
  · refine .array hentries fun v hv => ?_
    obtain ⟨size, _, hentry⟩ := forall₂_left hsizes hv
    exact hentry.recoverable ((hr.member hentries).item hv)

theorem BodyHeader.members {required : List String} {profile : String}
    (hr : DistinctKeys (.map r)) (h : BodyHeader filename required profile r) :
    RecoverableMember r "version" ∧ RecoverableMember r "profile" ∧
      RecoverableMember r "attachments" := by
  obtain ⟨_, hattachments, hversion, hprofile⟩ := h
  exact ⟨.int hversion, .text (by decide) hprofile, hattachments.member hr⟩

theorem PlainSpan.recoverable (hv : DistinctKeys v) (h : PlainSpan v) : Recoverable held v := by
  obtain ⟨s, rfl, hexact, htype, ⟨t, ht⟩, hmarks⟩ := h
  refine .of_exact hv hexact ?_
  exact ⟨.text (by decide) htype, .text (by decide) ht, .array hmarks (by simp)⟩

theorem PlainBlock.recoverable (hv : DistinctKeys v) (h : PlainBlock v) : Recoverable held v := by
  obtain ⟨b, rfl, hexact, htype, hstyle, hdefs, children, hchildren, _, hall⟩ := h
  have hspans (child : Value) (hchild : child ∈ children) : Recoverable none child :=
    (hall child hchild).recoverable ((hv.member hchildren).item hchild)
  refine .of_exact hv hexact ?_
  exact ⟨.text (by decide) htype, .text (by decide) hstyle, .array hchildren hspans,
    .array hdefs (by simp)⟩

theorem ReadsLink.recoverable {link : Link} (hv : DistinctKeys v) (h : ReadsLink href v link) :
    Recoverable held v := by
  obtain ⟨d, rfl, hexact, hkey, _, htype, ⟨hhref, _⟩, htitle⟩ := h
  have htitle' : RecoverableMember d "title" := by
    obtain habsent | ⟨s, hs⟩ := htitle
    · exact .absent habsent
    · exact .text (by decide) hs
  refine .of_exact hv hexact ?_
  exact ⟨.text (by decide) hkey, .text (by decide) htype, .text (by decide) hhref, htitle'⟩

theorem ReadsSpan.recoverable {keys : List String} {span : Span} (hv : DistinctKeys v)
    (h : ReadsSpan keys v span) : Recoverable held v := by
  obtain ⟨s, rfl, hexact, htype, htext, hmarks, _⟩ := h
  refine .of_exact hv hexact ?_
  exact ⟨.text (by decide) htype, .text (by decide) htext, .texts hmarks⟩

/-- A member that is one of some texts, or absent. -/
theorem oneOf_member {names : List String} {k : String} (hk : k ∉ TypeScript.byteNames)
    (h : r.get k = none ∨ OneOf names (r.get k)) : RecoverableMember r k := by
  obtain habsent | hone := h
  · exact .absent habsent
  · exact .oneOf hk hone

theorem RichBlock.recoverable (hv : DistinctKeys v) (h : RichBlock href v) :
    Recoverable held v := by
  obtain ⟨b, rfl, hexact, htype, hstyle, halignment, hlist, hlevel, defs, hdefs, links,
    ⟨hlinks, _⟩, children, hchildren, _, spans, hspans, _⟩ := h
  have hdefs' : RecoverableMember b "markDefs" := by
    refine .array hdefs fun d hd => ?_
    obtain ⟨link, _, hlink⟩ := forall₂_left hlinks hd
    exact hlink.recoverable ((hv.member hdefs).item hd)
  have hchildren' : RecoverableMember b "children" := by
    refine .array hchildren fun child hchild => ?_
    obtain ⟨span, _, hspan⟩ := forall₂_left hspans hchild
    exact hspan.recoverable ((hv.member hchildren).item hchild)
  have hlevel' : RecoverableMember b "level" := by
    obtain habsent | ⟨_, n, hn, _⟩ := hlevel
    · exact .absent habsent
    · exact .integer hn
  refine .of_exact hv hexact ?_
  exact ⟨.text (by decide) htype, .oneOf (by decide) hstyle, hchildren', hdefs',
    oneOf_member (by decide) hlist, hlevel', oneOf_member (by decide) halignment⟩

theorem ImageEntry.recoverable {assets : List BundledImageAsset} {position : Nat}
    {asset : BundledImageAsset} (hv : DistinctKeys v) (h : ImageEntry lib assets position v asset) :
    Recoverable held v := by
  obtain ⟨b, rfl, htype, hexact, ⟨hasset, _⟩, _, halt, hcaption⟩ := h
  have hcaption' : RecoverableMember b "caption" := by
    obtain habsent | hcaption := hcaption
    · exact .absent habsent
    · exact .profileText (by decide) hcaption
  refine .of_exact hv hexact ?_
  exact ⟨.text (by decide) htype, .text (by decide) hasset, .profileText (by decide) halt,
    hcaption'⟩

theorem ImageBlocks.recoverable {assets images : List BundledImageAsset} {position : Nat}
    {blocks texts : List Value} (h : ImageBlocks lib assets position blocks images texts)
    (hblocks : ∀ b ∈ blocks, DistinctKeys b) (htexts : ∀ b ∈ texts, RichBlock href b) :
    ∀ b ∈ blocks, Recoverable none b := by
  induction h with
  | nil => simp
  | image hentry _ ih =>
    rw [List.forall_mem_cons] at hblocks ⊢
    exact ⟨hentry.recoverable hblocks.1, ih hblocks.2 htexts⟩
  | text _ _ ih =>
    rw [List.forall_mem_cons] at hblocks htexts ⊢
    exact ⟨htexts.1.recoverable hblocks.1, ih hblocks.2 htexts.2⟩

theorem ReadsAsset.recoverable {asset : BundledImageAsset} (hv : DistinctKeys v)
    (h : ReadsAsset v asset) (hvalid : AssetValid lib asset) : Recoverable held v := by
  obtain ⟨r, rfl, hexact, hid, hrole, hmedia, hloading, hsize, hwidth, hheight,
    ⟨d, hd, hdexact, halgorithm, hdigest⟩, hdata⟩ := h
  obtain ⟨_, _, _, _, _, _, hsha, hhash, _⟩ := hvalid
  have hdigest' : Recoverable none (.map d) := by
    refine .digest (hv.member hd) hdexact ?_ hdigest ?_
    · rw [halgorithm, hsha]
    · rw [hhash, lib.sha256.hash_length]
  refine .of_exact hv hexact ?_
  exact ⟨.text (by decide) hid, .text (by decide) hrole, .text (by decide) hmedia,
    .text (by decide) hloading, .integer hsize, .plain (by decide) hd hdigest', .integer hwidth,
    .integer hheight, .bytes hdata rfl (by simp)⟩

theorem ManifestSchema.member {k : String} {assets : List BundledImageAsset}
    (hr : DistinctKeys (.map r)) (h : ManifestSchema lib (r.get k) assets) :
    RecoverableMember r k := by
  obtain ⟨m, hm, hexact, hversion, entries, hentries, _, hreads, _, hvalid⟩ := h
  have hdistinct := hr.member hm
  have hassets : RecoverableMember m "assets" := by
    refine .array hentries fun v hv => ?_
    obtain ⟨asset, hasset, hread⟩ := forall₂_left hreads hv
    exact hread.recoverable ((hdistinct.member hentries).item hv) (hvalid asset hasset)
  refine .of_value hm (.of_exact hdistinct hexact ?_)
  exact ⟨.int hversion, hassets⟩

/-- The blocks of a body are recoverable when each of them is. -/
theorem Blocks.member {block : Value → Prop} (hr : DistinctKeys (.map r))
    (h : Blocks block r) (hblock : ∀ v, DistinctKeys v → block v → Recoverable none v) :
    RecoverableMember r "blocks" := by
  obtain ⟨blocks, hblocks, hall⟩ := h
  exact .array hblocks fun v hv => hblock v ((hr.member hblocks).item hv) (hall v hv)

theorem Spt1Schema.recoverable (hr : DistinctKeys (.map r)) (h : Spt1Schema filename r) :
    Recoverable held (.map r) := by
  obtain ⟨hheader, hblocks⟩ := h
  obtain ⟨hversion, hprofile, hattachments⟩ := hheader.members hr
  refine .of_exact hr hheader.1 ?_
  exact ⟨hversion, hprofile, hblocks.member hr fun _ hv h => h.recoverable hv, hattachments⟩

theorem Spt2Schema.recoverable (hr : DistinctKeys (.map r)) (h : Spt2Schema filename href r) :
    Recoverable held (.map r) := by
  obtain ⟨hheader, hblocks⟩ := h
  obtain ⟨hversion, hprofile, hattachments⟩ := hheader.members hr
  refine .of_exact hr hheader.1 ?_
  exact ⟨hversion, hprofile, hblocks.member hr fun _ hv h => h.recoverable hv, hattachments⟩

theorem Spt3Schema.recoverable (hr : DistinctKeys (.map r))
    (h : Spt3Schema lib filename href r) : Recoverable held (.map r) := by
  obtain ⟨hheader, assets, hmanifest, _, blocks, hblocks, images, texts, himages, _, htexts⟩ := h
  obtain ⟨hversion, hprofile, hattachments⟩ := hheader.members hr
  have hrecoverable := himages.recoverable (fun v hv => (hr.member hblocks).item hv) htexts
  refine .of_exact hr hheader.1 ?_
  exact ⟨hversion, hprofile, hmanifest.member hr, .array hblocks hrecoverable, hattachments⟩

end Bodies

section Profiles

variable {lib : Libraries} {oracle : DomainOracle} {r : Record} {held : Option (Option Nat)}
  {typeName : String} {u : Unit}

theorem TypeScript.hailAddress_text {v : Option Value} {path s : String}
    (h : hailAddress oracle v path = .ok s) : ∃ t, v = some (.text t) := by
  simp only [hailAddress, bind_eq_ok, text_eq_ok] at h
  obtain ⟨t, ht, _⟩ := h
  exact ⟨t, ht⟩

theorem TypeScript.addressBinding_recoverable (hr : DistinctKeys (.map r))
    (htype : r.get "type" = some (.text typeName))
    (h : validateAddressBinding oracle r = .ok u) : Recoverable held (.map r) := by
  simp only [validateAddressBinding, bind_eq_ok, exactKeys_eq_ok, did_eq_ok, failIf_eq_ok,
    Bool.not_eq_false', strictEqual_int, integer_eq_ok, keyId_eq_ok, exists_const] at h
  obtain ⟨hexact, signer, ⟨hsigner, _⟩, address, haddress, hversion, issued, hissued, hkey⟩ := h
  obtain ⟨address, haddress⟩ := hailAddress_text haddress
  refine .of_exact hr hexact ?_
  exact ⟨.int hversion, .text (by decide) htype, .text (by decide) haddress,
    .text (by decide) hsigner, .integer hissued, .text (by decide) hkey⟩

theorem TypeScript.optionalText_member {k path : String} {maximum : Nat} (hk : k ∉ byteNames)
    (h : optionalText lib (r.get k) maximum path = .ok u) : RecoverableMember r k := by
  unfold optionalText at h
  split at h
  · rw [profileText_eq_ok] at h
    exact .profileText hk h
  · rename_i hnone
    exact .absent (by simpa using hnone)

theorem TypeScript.profileCategories_recoverable {previous : String} {index : Nat}
    {entries : List Value} (hentries : ∀ v ∈ entries, DistinctKeys v)
    (h : profileCategories lib previous index entries = .ok u) :
    ∀ v ∈ entries, Recoverable none v := by
  induction entries generalizing previous index with
  | nil => simp
  | cons entry entries ih =>
    rw [List.forall_mem_cons] at hentries ⊢
    simp only [profileCategories, bind_eq_ok, record_eq_ok, exactKeys_eq_ok, category_eq_ok,
      failIf_eq_ok, profileText_eq_ok, Option.some.injEq, exists_const] at h
    obtain ⟨item, rfl, hexact, id, ⟨hid, _⟩, _, hlabel, _, hdescription, hrest⟩ := h
    refine ⟨.of_exact hentries.1 hexact ?_, ih hentries.2 hrest⟩
    exact ⟨.text (by decide) hid, .profileText (by decide) hlabel,
      optionalText_member (by decide) hdescription⟩

theorem TypeScript.profileAssets_member {version : Int} (hr : DistinctKeys (.map r))
    (hassets : ∀ v, r.get "assets" = some v → assertHailValue v defaultResourceLimits = .ok ())
    (hversion : version = 2) (h : profileAssets lib version (r.get "assets") = .ok u) :
    RecoverableMember r "assets" := by
  cases hv : r.get "assets" with
  | none => exact .absent hv
  | some v =>
    simp only [profileAssets, hversion, hv, Option.isSome_some, and_self, if_true, bind_eq_ok,
      validateAssetManifest_eq_ok (hassets v hv)] at h
    obtain ⟨_, ⟨assets, hmanifest⟩, _⟩ := h
    rw [← hv] at hmanifest
    exact hmanifest.member hr

theorem TypeScript.senderProfile_recoverable (hr : DistinctKeys (.map r))
    (hassets : ∀ v, r.get "assets" = some v → assertHailValue v defaultResourceLimits = .ok ())
    (htype : r.get "type" = some (.text typeName))
    (h : validateSenderProfile lib r = .ok u) : Recoverable held (.map r) := by
  simp only [validateSenderProfile, bind_eq_ok, exactKeys_eq_ok, did_eq_ok, failIf_eq_ok,
    integer_eq_ok, profileText_eq_ok, array_eq_ok, keyId_eq_ok, exists_const] at h
  obtain ⟨version, hversion, hknown, hexact, signer, ⟨hsigner, _⟩, revision, hrevision, hname,
    _, hdescription, categories, hcategories, _, _, hloop, _, hmanifest, updated, hupdated,
    hkey⟩ := h
  have hcategories' := profileCategories_recoverable
    (fun v hv => (hr.member hcategories).item hv) hloop
  have hoptional : (if version = 1 then ["description"] else ["description", "assets"]).Forall
      (RecoverableMember r) := by
    by_cases hone : version = 1
    · rw [if_pos hone]
      exact optionalText_member (by decide) hdescription
    · have htwo : version = 2 := by
        simpa [hone] using hknown
      rw [if_neg hone]
      exact ⟨optionalText_member (by decide) hdescription,
        profileAssets_member hr hassets htwo hmanifest⟩
  refine .of_exact hr hexact (List.forall_append.2 ⟨?_, hoptional⟩)
  exact ⟨.text (by decide) htype, .integer hversion, .text (by decide) hsigner,
    .integer hrevision, .profileText (by decide) hname, .array hcategories hcategories',
    .integer hupdated, .text (by decide) hkey⟩

theorem TypeScript.grantSelector_recoverable {entry : Value} (hentry : DistinctKeys entry)
    (h : grantSelector (some entry) = .ok u) : Recoverable none entry := by
  simp only [grantSelector, bind_eq_ok, record_eq_ok, text_eq_ok, Option.some.injEq] at h
  obtain ⟨selector, rfl, kind, hkind, h⟩ := h
  split at h
  · simp only [bind_eq_ok, exactKeys_eq_ok, array_eq_ok, failIf_eq_ok, exists_const] at h
    obtain ⟨hexact, values, hvalues, _, texts, htexts, _⟩ := h
    obtain ⟨rfl, _⟩ := ascending_eq_ok.1 htexts
    refine .of_exact hentry hexact ?_
    exact ⟨.text (by decide) hkind, .texts hvalues⟩
  · cases h

theorem TypeScript.grantConsent_member (hr : DistinctKeys (.map r))
    (h : grantConsent oracle (r.get "consent_context") = .ok u) :
    RecoverableMember r "consent_context" := by
  simp only [grantConsent, bind_eq_ok, record_eq_ok, exactKeys_eq_ok, digest_eq_ok,
    exists_const] at h
  obtain ⟨consent, hconsent, hexact, _, haddress, hbinding, hprofile⟩ := h
  obtain ⟨address, haddress⟩ := hailAddress_text haddress
  have hdistinct := hr.member hconsent
  refine .of_value hconsent (.of_exact hdistinct hexact ?_)
  exact ⟨.text (by decide) haddress, .digest hdistinct hbinding, .digest hdistinct hprofile⟩

theorem TypeScript.previousGrant_member {revision : Int} (hone : 1 ≤ revision)
    (h : previousGrant r revision = .ok u) : RecoverableMember r "previous" := by
  simp only [previousGrant, bind_eq_ok, failIf_eq_ok, exists_const] at h
  obtain ⟨hfirst, hlater⟩ := h
  by_cases hrevision : revision = 1
  · rw [if_pos hrevision, Bool.not_eq_false', strictEqual_null] at hfirst
    exact .null hfirst
  · rw [if_pos (by omega)] at hlater
    simp only [bind_eq_ok, bytes_eq_ok] at hlater
    obtain ⟨b, ⟨hb, hlength⟩, _⟩ := hlater
    exact .bytes hb rfl (by simpa using hlength)

theorem TypeScript.expiresAt_member (h : expiresAt (r.get "expires_at") = .ok u) :
    RecoverableMember r "expires_at" := by
  unfold expiresAt at h
  split at h
  · simp only [bind_eq_ok, integer_eq_ok] at h
    obtain ⟨n, hn, _⟩ := h
    exact .integer hn
  · rename_i hnull
    rw [Bool.not_eq_true', Bool.not_eq_false, strictEqual_null] at hnull
    exact .null hnull

theorem TypeScript.grant_recoverable (hr : DistinctKeys (.map r))
    (htype : r.get "type" = some (.text typeName)) (hversion : r.get "version" = some (.int 1))
    (h : validateGrant oracle r = .ok u) : Recoverable held (.map r) := by
  simp only [validateGrant, bind_eq_ok, exactKeys_eq_ok, uuid_eq_ok, did_eq_ok, failIf_eq_ok,
    integer_eq_ok, array_eq_ok, text_eq_ok, keyId_eq_ok, exists_const] at h
  obtain ⟨hexact, id, ⟨hid, _⟩, revision, hrevision, _, hprevious, signer, ⟨hsigner, _⟩, grantee,
    ⟨hgrantee, _⟩, scope, hscope, hlength, _, hselector, status, hstatus, _, issued, hissued,
    updated, hupdated, _, _, hexpires, _, hconsent, hkey⟩ := h
  have hscope' : RecoverableMember r "scope" := by
    rw [bne_eq_false_iff_eq] at hlength
    obtain ⟨entry, rfl⟩ := List.length_eq_one_iff.1 hlength
    refine .array hscope ?_
    rw [List.forall_mem_singleton]
    exact grantSelector_recoverable ((hr.member hscope).item List.mem_cons_self) hselector
  refine .of_exact hr hexact ?_
  exact ⟨.text (by decide) htype, .int hversion, .text (by decide) hid, .integer hrevision,
    previousGrant_member hrevision.2.2 hprevious, .text (by decide) hsigner,
    .text (by decide) hgrantee, hscope', .text (by decide) hstatus, .integer hissued,
    .integer hupdated, expiresAt_member hexpires, grantConsent_member hr hconsent,
    .text (by decide) hkey⟩

end Profiles

namespace TypeScript

section Payloads

variable {lib : Libraries} {type : PayloadType} {m : Record} {v : Value} {u : Unit}

theorem validateTyped_recoverable (hm : DistinctKeys (.map m)) (hdecoded : Decoded (.map m))
    (hversion : payloadVersion type m = .ok ()) (htyped : type.isTyped = true)
    (htype : m.get "type" = some (.text type.name)) (h : validateTyped lib m type = .ok u) :
    Recoverable none (.map m) := by
  have hone (hbinding : type ≠ .addressBinding) (hprofile : type ≠ .senderProfile)
      (henvelope : type ≠ .envelope) : m.get "version" = some (.int 1) := by
    rw [payloadVersion_eq_ok hbinding hprofile, VersionSchema, if_neg henvelope] at hversion
    exact hversion
  cases type with
  | addressBinding => exact addressBinding_recoverable hm htype h
  | senderProfile =>
    exact senderProfile_recoverable hm (fun _ hv => assertHailValue_member hdecoded hv) htype h
  | grant => exact grant_recoverable hm htype (hone (by simp) (by simp) (by simp)) h
  | connectionInvitation =>
    exact (validateConnectionInvitation_eq_ok.1 h).recoverable hm htype
      (hone (by simp) (by simp) (by simp))
  | connectionConfirmation =>
    exact (validateConnectionConfirmation_eq_ok.1 h).recoverable hm htype
      (hone (by simp) (by simp) (by simp))
  | connectionGrant =>
    exact (validateConnectionGrant_eq_ok.1 h).recoverable hm htype
      (hone (by simp) (by simp) (by simp))
  | connectionControl =>
    exact (validateConnectionControl_eq_ok.1 h).recoverable hm htype
      (hone (by simp) (by simp) (by simp))
  | conversation =>
    exact (validateConversation_eq_ok.1 h).recoverable hm htype
      (hone (by simp) (by simp) (by simp))
  | conversationRevival =>
    exact (validateConversationRevival_eq_ok.1 h).recoverable hm htype
      (hone (by simp) (by simp) (by simp))
  | envelope => exact (validateEnvelope_eq_ok.1 h).recoverable hm htype
  | deliveryStatus =>
    exact (validateDeliveryStatus_eq_ok.1 h).recoverable hm htype
      (hone (by simp) (by simp) (by simp))
  | bodySpt1 => cases htyped
  | bodySpt2 => cases htyped
  | bodySpt3 => cases htyped

/-- Every accepted payload can be recovered from its diagnostic form. -/
theorem validatePayload_recoverable (hv : DistinctKeys v) (hdecoded : Decoded v)
    (h : validatePayload lib type v = .ok u) : Recoverable none v := by
  have hmap : ∃ m, v = .map m := by
    simp only [validatePayload, bind_eq_ok, record_eq_ok, Option.some.injEq] at h
    obtain ⟨_, _, m, hm, _⟩ := h
    exact ⟨m, hm⟩
  obtain ⟨m, rfl⟩ := hmap
  cases htyped : type.isTyped with
  | true =>
    rw [validatePayload_typed htyped hdecoded] at h
    exact validateTyped_recoverable hv hdecoded h.2.1 htyped h.1 h.2.2
  | false =>
    rw [validatePayload_body htyped hdecoded] at h
    cases type with
    | bodySpt1 => exact (validateSpt1Body_eq_ok.1 h).recoverable hv
    | bodySpt2 => exact (validateSpt2Body_eq_ok.1 h).recoverable hv
    | bodySpt3 =>
      rw [validateTyped, validateSpt3Body_eq_ok fun _ hw => assertHailValue_member hdecoded hw]
        at h
      exact h.recoverable hv
    | _ => cases htyped

/-- A payload comes back from its diagnostic form exactly when that form, in which bytes are
longer than in the payload, keeps the limit on the encoded size of a value. -/
theorem fromDiagnosticJson_toDiagnosticJson (v : HailValue) {json : Value}
    (h : toDiagnosticJson lib type v.value false = .ok json) :
    fromDiagnosticJson lib type json = .ok v.value ↔ diagnosticSize v.value ≤ 1048576 := by
  simp only [toDiagnosticJson, bind_eq_ok, Except.ok.injEq] at h
  obtain ⟨_, hassert, _, hpayload, rfl⟩ := h
  have hrecoverable := validatePayload_recoverable v.distinct hassert hpayload
  have hback : fromJson none none (convertToDiagnostic false v.value) = .ok v.value :=
    fromJson_convertToDiagnostic hrecoverable rfl
  simp only [fromDiagnosticJson, hback, hpayload, ok_bind, bind_eq_ok, and_true, exists_const,
    assertHailValue_convertToDiagnostic hassert]

/-- A body of the first profile with this text and one attachment. -/
def annotatedBody (text : String) : Record :=
  [(.text "version", .int 1), (.text "profile", .text "spt-1"),
    (.text "blocks", .array [.map [(.text "_type", .text "block"), (.text "style", .text "normal"),
      (.text "children", .array [.map [(.text "_type", .text "span"), (.text "text", .text text),
        (.text "marks", .array [])]]), (.text "markDefs", .array [])]]),
    (.text "attachments", .array [.map [(.text "filename", .text "a.pdf"),
      (.text "media_type", .text "application/pdf"), (.text "size", .int 1),
      (.text "digest", .map [(.text "algorithm", .text "sha-256"),
        (.text "value", .bytes (List.replicate 32 0))])]])]

theorem annotatedBody_distinct (text : String) : DistinctKeys (.map (annotatedBody text)) := by
  simp [annotatedBody]

/-- The text adds its own encoding to that of the rest of the body. -/
theorem encodedSize_annotatedBody (text : String) :
    encodedSize (.map (annotatedBody text)) =
      230 + (argumentSize (asBytes text).length + (asBytes text).length) := by
  have hempty : encodedSize (.map (annotatedBody "")) = 231 := by rfl
  have hone : argumentSize (asBytes "").length + (asBytes "").length = 1 := by rfl
  simp only [annotatedBody, encodedSize, encodedSizes, encodedEntrySizes, List.length_cons,
    List.length_nil] at hempty ⊢
  linarith only [hempty, hone]

theorem diagnosticSize_annotatedBody (text : String) :
    diagnosticSize (.map (annotatedBody text)) =
      241 + (argumentSize (asBytes text).length + (asBytes text).length) := by
  have hempty : diagnosticSize (.map (annotatedBody "")) = 242 := by rfl
  have hone : argumentSize (asBytes "").length + (asBytes "").length = 1 := by rfl
  simp only [annotatedBody, diagnosticSize, diagnosticSizes, diagnosticEntrySizes, encodedSize,
    List.length_cons, List.length_nil] at hempty ⊢
  linarith only [hempty, hone]

theorem argumentSize_le {n : Nat} (h : n ≤ 0xffffffff) : argumentSize n ≤ 5 := by
  unfold argumentSize
  split_ifs <;> omega

theorem annotatedBody_decoded {text : String} (htext : (asBytes text).length ≤ 1048341) :
    Decoded (.map (annotatedBody text)) := by
  have hargument : argumentSize (asBytes text).length ≤ 5 := argumentSize_le (by omega)
  have hlimit : defaultResourceLimits.maximumTextBytes = 1048576 := rfl
  have hbytes : defaultResourceLimits.maximumBytes = 1048576 := rfl
  have hitems : (Value.map (annotatedBody text)).items = (Value.map (annotatedBody "")).items := rfl
  refine assertHailValue_eq_ok.2 ⟨?_, ?_, ?_⟩
  · rw [hitems]
    decide
  · simp only [annotatedBody, Within, WithinEntries, WithinAll, List.length_cons, List.length_nil,
      and_true]
    and_intros
    all_goals first | decide | omega
  · rw [encodedSize_annotatedBody]
    omega

theorem annotatedBody_valid {text : String} (htext : (asBytes text).length ≤ 1048341) :
    toDiagnosticJson plainLibraries .bodySpt1 (.map (annotatedBody text)) false =
      .ok (convertToDiagnostic false (.map (annotatedBody text))) := by
  have hdecoded := annotatedBody_decoded htext
  have hbody : validateSpt1Body plainLibraries (annotatedBody text) = .ok () := by rfl
  have hvalid : validatePayload plainLibraries .bodySpt1 (.map (annotatedBody text)) = .ok () :=
    (validatePayload_body rfl hdecoded).2 hbody
  rw [Decoded] at hdecoded
  simp only [toDiagnosticJson, hdecoded, hvalid, ok_bind]

/-- A body with a text of this many letters. -/
def longBody (letters : Nat) : HailValue :=
  ⟨.map (annotatedBody (String.ofList (List.replicate letters 'a'))), annotatedBody_distinct _⟩

theorem length_letters (letters : Nat) :
    (asBytes (String.ofList (List.replicate letters 'a'))).length = letters := by
  have hascii : IsAscii (String.ofList (List.replicate letters 'a')) := by
    intro c hc
    rw [String.toList_ofList] at hc
    rw [List.eq_of_mem_replicate hc]
    decide
  rw [length_asBytes_of_ascii hascii, String.toList_ofList, List.length_replicate]

/-- The body without a text comes back. -/
theorem fromDiagnosticJson_toDiagnosticJson_empty :
    fromDiagnosticJson plainLibraries .bodySpt1
      (convertToDiagnostic false (longBody 0).value) = .ok (longBody 0).value := by
  have hvalid := annotatedBody_valid ((length_letters 0).trans_le (Nat.zero_le 1048341))
  refine (fromDiagnosticJson_toDiagnosticJson (longBody 0) hvalid).2 ?_
  rw [longBody, diagnosticSize_annotatedBody, length_letters]
  decide

/-- A body of exactly the size limit, whose one digest is eleven bytes longer as a text. -/
theorem diagnosticJson_too_large :
    toDiagnosticJson plainLibraries .bodySpt1 (longBody 1048341).value false =
        .ok (convertToDiagnostic false (longBody 1048341).value) ∧
      encodedSize (longBody 1048341).value = 1048576 ∧
      ¬fromDiagnosticJson plainLibraries .bodySpt1
        (convertToDiagnostic false (longBody 1048341).value) = .ok (longBody 1048341).value := by
  have hlength := length_letters 1048341
  have hdecoded := annotatedBody_decoded hlength.le
  refine ⟨annotatedBody_valid hlength.le, ?_, ?_⟩
  · rw [longBody, encodedSize_annotatedBody, hlength]
    rfl
  · intro h
    simp only [fromDiagnosticJson, bind_eq_ok] at h
    obtain ⟨_, hassert, _⟩ := h
    rw [longBody, assertHailValue_convertToDiagnostic hdecoded, diagnosticSize_annotatedBody,
      hlength] at hassert
    revert hassert
    decide

end Payloads

end TypeScript

end HailProto.Codec
