import HailProto.Core.Numbers
import HailProto.Codec.Libraries
import HailProto.Codec.Conversations

/-!
# Envelopes in two languages

`validateEnvelope` of `validation.ts`, and `validateEnvelope` of `payload.go` with
`validateConversationEnvelope` of `conversations.go`. Four versions and four kinds of
authorization share one layout; which optional members a version admits, and what the kind asks
of them, is tested at different places in the two languages. The times are compared after sums
that TypeScript rounds to doubles and Go takes in 64 bits.
-/

namespace HailProto.Codec

open Cbor (Value maxSafe)

/-- `MESSAGE_TYPES`. -/
def messageTypes : List String :=
  ["personal", "newsletter", "promotion", "receipt", "invoice", "ticket", "boarding-pass",
    "account-alert", "security-alert", "package-update", "calendar-event"]

def bodyProfiles : List String := ["spt-1", "spt-2", "spt-3"]

/-- The members every envelope has. -/
def envelopeRequired : List String :=
  ["type", "version", "message_id", "from", "to", "authorization", "created_at", "expires_at",
    "body", "reply"]

namespace TypeScript

/-- The members an envelope of this version may have. -/
def envelopeOptional (version : Option Value) : List String :=
  if strictEqual version (some (.int 4)) then
    ["message_type", "in_reply_to", "conversation_message_id", "conversation_introduction"]
  else if strictEqual version (some (.int 3)) then ["category", "message_type", "in_reply_to"]
  else ["category", "message_type"]

def grantAuthorization (payload authorization : Record) : Except HailCodecError Unit := do
  failIf (!strictEqual (payload.get "version") (some (.int 1)))
    "subscription authorization uses envelope version 1" "$.version"
  exactKeys authorization ["type", "grant_id"] [] "$.authorization"
  let _ ← uuid (authorization.get "grant_id") "$.authorization.grant_id"
  let _ ← category (payload.get "category") "$.category"
  .ok ()

def replyAuthorization (payload authorization : Record) : Except HailCodecError Unit := do
  failIf (!strictEqual (payload.get "version") (some (.int 1)) &&
    !strictEqual (payload.get "version") (some (.int 3)))
    "reply authorization uses envelope version 1 or 3" "$.version"
  exactKeys authorization ["type", "reply_to"] [] "$.authorization"
  let _ ← uuid (authorization.get "reply_to") "$.authorization.reply_to"
  failIf (payload.get "category").isSome "must be absent for replies" "$.category"

def connectionAuthorization (payload authorization : Record) : Except HailCodecError Unit := do
  failIf (!strictEqual (payload.get "version") (some (.int 2)) &&
    !strictEqual (payload.get "version") (some (.int 3)))
    "connection authorization requires envelope version 2 or 3" "$.version"
  exactKeys authorization ["type", "connection_id", "epoch"] [] "$.authorization"
  let _ ← uuid (authorization.get "connection_id") "$.authorization.connection_id"
  let _ ← integer (authorization.get "epoch") "$.authorization.epoch" 1
  failIf (payload.get "category").isSome "connections do not use subscription categories"
    "$.category"

/-- The signed descriptor of an introduction. -/
def introductionDescriptor (value : Option Value) : Except HailCodecError (List UInt8) :=
  match value with
  | some (.bytes descriptor) =>
    if descriptor.length < 1 ∨ descriptor.length > 16384 then
      fail "invalid signed descriptor bytes" "$.conversation_introduction.descriptor"
    else .ok descriptor
  | _ => fail "invalid signed descriptor bytes" "$.conversation_introduction.descriptor"

/-- `hash.every((byte, index) => byte === value[index])`. -/
def everyByte (hash : List UInt8) : Option Value → Bool
  | some (.bytes b) => hash.isPrefixOf b
  | _ => false

/-- The introduction of a conversation, checked when it is present. -/
def conversationIntroduction (sha256 : Sha256) (payload authorization : Record) :
    Except HailCodecError Unit :=
  if (payload.get "conversation_introduction").isSome then do
    let intro ← record (payload.get "conversation_introduction") "$.conversation_introduction"
    exactKeys intro ["descriptor", "connection_id", "epoch"] [] "$.conversation_introduction"
    let _ ← uuid (intro.get "connection_id") "$.conversation_introduction.connection_id"
    let _ ← integer (intro.get "epoch") "$.conversation_introduction.epoch" 1
    let descriptor ← introductionDescriptor (intro.get "descriptor")
    failIf (!strictEqual (payload.get "from") (authorization.get "creator") ||
      (payload.get "in_reply_to").isSome ||
      !strictEqual (payload.get "conversation_message_id") (authorization.get "conversation_id"))
      "only the creator can introduce the root message" "$.conversation_introduction"
    let expected ← record (authorization.get "descriptor_hash") "$.authorization.descriptor_hash"
    failIf (!everyByte (sha256.hash descriptor) (expected.get "value"))
      "descriptor hash mismatch" "$.authorization.descriptor_hash"
  else .ok ()

def conversationAuthorization (sha256 : Sha256) (payload authorization : Record) :
    Except HailCodecError Unit := do
  failIf (!strictEqual (payload.get "version") (some (.int 4)))
    "conversation authorization requires envelope version 4" "$.version"
  exactKeys authorization ["type", "creator", "conversation_id", "membership_revision",
    "descriptor_hash"] [] "$.authorization"
  let _ ← did (authorization.get "creator") "$.authorization.creator"
  let _ ← uuid (authorization.get "conversation_id") "$.authorization.conversation_id"
  failIf (!strictEqual (authorization.get "membership_revision") (some (.int 1)))
    "fixed roster requires revision 1" "$.authorization.membership_revision"
  digest (authorization.get "descriptor_hash") "$.authorization.descriptor_hash"
  let _ ← uuid (payload.get "conversation_message_id") "$.conversation_message_id"
  failIf (strictEqual (payload.get "from") (payload.get "to"))
    "distinct conversation participants required" "$.to"
  conversationIntroduction sha256 payload authorization

def envelopeAuthorization (sha256 : Sha256) (payload authorization : Record)
    (authorizationType : String) : Except HailCodecError Unit :=
  if authorizationType = "grant" then grantAuthorization payload authorization
  else if authorizationType = "reply" then replyAuthorization payload authorization
  else if authorizationType = "connection" then connectionAuthorization payload authorization
  else if authorizationType = "conversation" then
    conversationAuthorization sha256 payload authorization
  else fail "unknown authorization type" "$.authorization.type"

/-- The reference to a parent message. -/
def parentReference (payload : Record) : Except HailCodecError Record := do
  let parent ← record (payload.get "in_reply_to") "$.in_reply_to"
  exactKeys parent ["sender", "message_id"] [] "$.in_reply_to"
  let _ ← did (parent.get "sender") "$.in_reply_to.sender"
  let _ ← uuid (parent.get "message_id") "$.in_reply_to.message_id"
  .ok parent

/-- The parent of a conversation message, which may be absent. -/
def conversationParent (payload : Record) : Except HailCodecError Unit :=
  if strictEqual (payload.get "version") (some (.int 4)) && (payload.get "in_reply_to").isSome
  then do
    let parent ← parentReference payload
    failIf (strictEqual (parent.get "sender") (payload.get "from") &&
      strictEqual (parent.get "message_id") (payload.get "conversation_message_id"))
      "conversation message cannot reply to itself" "$.in_reply_to"
  else .ok ()

/-- The parent of an envelope of version 3, which it must have. -/
def threadParent (payload authorization : Record) (authorizationType : String) :
    Except HailCodecError Unit :=
  if strictEqual (payload.get "version") (some (.int 3)) then do
    let parent ← parentReference payload
    failIf (!strictEqual (parent.get "sender") (payload.get "to") ||
      strictEqual (payload.get "from") (payload.get "to"))
      "parent must be sent by the other participant" "$.in_reply_to.sender"
    failIf (authorizationType == "reply" &&
      !strictEqual (parent.get "message_id") (authorization.get "reply_to"))
      "parent must match reply authorization" "$.in_reply_to.message_id"
  else .ok ()

/-- The category and the message type, checked when they are present. -/
def envelopeLabels (payload : Record) : Except HailCodecError Unit := do
  (if (payload.get "category").isSome then do
    let _ ← category (payload.get "category") "$.category"
    .ok ()
  else .ok ())
  if (payload.get "message_type").isSome then do
    let messageType ← text (payload.get "message_type") "$.message_type"
    failIf (!messageTypes.contains messageType) "unknown message type" "$.message_type"
  else .ok ()

/-- The reference to the body, for these times of the envelope. -/
def envelopeBody (payload : Record) (createdAt expiresAt : Int) : Except HailCodecError Unit := do
  let body ← record (payload.get "body") "$.body"
  exactKeys body ["digest", "size", "media_type", "profile", "available_until", "access"] []
    "$.body"
  digest (body.get "digest") "$.body.digest"
  let size ← integer (body.get "size") "$.body.size" 1
  failIf (decide (size > 1048576)) "must not exceed 1048576 octets" "$.body.size"
  let mediaType ← text (body.get "media_type") "$.body.media_type"
  failIf (mediaType != "application/hail-body+cbor") "unsupported body media type"
    "$.body.media_type"
  let profile ← text (body.get "profile") "$.body.profile"
  failIf (!bodyProfiles.contains profile) "unsupported body profile"
    "$.body.profile"
  let availableUntil ← integer (body.get "available_until") "$.body.available_until" 0
  failIf (decide (availableUntil < number (createdAt + 2592000)) ||
    decide (availableUntil < number (expiresAt + 300)) ||
    decide (number (availableUntil - createdAt) > 2678400))
    "does not satisfy the required availability window" "$.body.available_until"
  let access ← record (body.get "access") "$.body.access"
  exactKeys access ["type", "token", "expires_at"] [] "$.body.access"
  let accessType ← text (access.get "type") "$.body.access.type"
  failIf (accessType != "bearer") "must equal bearer" "$.body.access.type"
  let _ ← bytes (access.get "token") 32 "$.body.access.token"
  let accessExpiry ← integer (access.get "expires_at") "$.body.access.expires_at" 0
  failIf (decide (accessExpiry < availableUntil) ||
    decide (number (accessExpiry - createdAt) > 2678400))
    "must be between available_until and created_at plus 31 days" "$.body.access.expires_at"

/-- Whether replies are allowed, and until when. -/
def envelopeReply (payload : Record) (authorizationType : String) (createdAt : Int) :
    Except HailCodecError Unit := do
  let reply ← record (payload.get "reply") "$.reply"
  let allowed ← boolean (reply.get "allowed") "$.reply.allowed"
  failIf ((authorizationType == "connection" || authorizationType == "conversation") && allowed)
    "connection/conversation messages do not issue independent reply capabilities"
    "$.reply.allowed"
  exactKeys reply ("allowed" :: if allowed then ["until"] else []) [] "$.reply"
  if allowed then do
    let untilTime ← integer (reply.get "until") "$.reply.until" 0
    failIf (decide (untilTime ≤ createdAt)) "must be after created_at" "$.reply.until"
  else .ok ()

def validateEnvelope (sha256 : Sha256) (payload : Record) : Except HailCodecError Unit := do
  exactKeys payload envelopeRequired (envelopeOptional (payload.get "version")) "$"
  let _ ← uuid (payload.get "message_id") "$.message_id"
  let _ ← did (payload.get "from") "$.from"
  let _ ← did (payload.get "to") "$.to"
  let authorization ← record (payload.get "authorization") "$.authorization"
  let authorizationType ← text (authorization.get "type") "$.authorization.type"
  envelopeAuthorization sha256 payload authorization authorizationType
  conversationParent payload
  threadParent payload authorization authorizationType
  envelopeLabels payload
  let createdAt ← integer (payload.get "created_at") "$.created_at" 0
  let expiresAt ← integer (payload.get "expires_at") "$.expires_at" 0
  failIf (decide (expiresAt ≤ createdAt) || decide (number (expiresAt - createdAt) > 604800))
    "must be after created_at and no more than seven days later" "$.expires_at"
  envelopeBody payload createdAt expiresAt
  envelopeReply payload authorizationType createdAt

end TypeScript

namespace Go

def envelopeOptional (version : Int) : List String :=
  if version = 4 then
    ["message_type", "in_reply_to", "conversation_message_id", "conversation_introduction"]
  else if version = 3 then ["category", "message_type"] ++ ["in_reply_to"]
  else ["category", "message_type"]

def grantAuthorization (m a : Record) (version : Int) : Except String Unit := do
  let _ ← category (index m "category") "$.category"
  errorIf (version != 1) "subscription authorization uses envelope version 1"
  exact a ["type", "grant_id"] [] "$.authorization"
  uuid (index a "grant_id") "$.authorization.grant_id"

def replyAuthorization (m a : Record) (version : Int) : Except String Unit := do
  errorIf (version != 1 && version != 3) "reply authorization uses envelope version 1 or 3"
  exact a ["type", "reply_to"] [] "$.authorization"
  uuid (index a "reply_to") "$.authorization.reply_to"
  errorIf (has m "category") "category prohibited for reply"

def connectionAuthorization (m a : Record) (version : Int) : Except String Unit := do
  errorIf (version != 2 && version != 3)
    "connection authorization requires envelope version 2 or 3"
  exact a ["type", "connection_id", "epoch"] [] "$.authorization"
  uuid (index a "connection_id") "$.authorization.connection_id"
  let _ ← intValue (index a "epoch") "$.authorization.epoch" 1
  errorIf (has m "category") "connections do not use subscription categories"

/-- `b, ok := i["descriptor"].([]byte)`, of a length from 1 to 16384. -/
def introductionDescriptor (v : Value) : Except String (List UInt8) :=
  match v with
  | .bytes b =>
    if b.length < 1 ∨ b.length > 16384 then .error "invalid signed descriptor bytes" else .ok b
  | _ => .error "invalid signed descriptor bytes"

/-- `bytes.Equal(hash[:], value.([]byte))`. -/
def bytesEqual (hash : List UInt8) : Value → Bool
  | .bytes b => hash == b
  | _ => false

def conversationIntroduction (sha256 : Sha256) (m a : Record) : Except String Unit :=
  if has m "conversation_introduction" then do
    let i ← mapValue (index m "conversation_introduction") "$.conversation_introduction"
    exact i ["descriptor", "connection_id", "epoch"] [] "$.conversation_introduction"
    uuid (index i "connection_id") "$.conversation_introduction.connection_id"
    let _ ← intValue (index i "epoch") "$.conversation_introduction.epoch" 1
    let b ← introductionDescriptor (index i "descriptor")
    errorIf (!interfaceEqual (index m "from") (index a "creator") || has m "in_reply_to" ||
      !interfaceEqual (index m "conversation_message_id") (index a "conversation_id"))
      "only creator can introduce the root message"
    let d ← mapValue (index a "descriptor_hash") "$.authorization.descriptor_hash"
    errorIf (!bytesEqual (sha256.hash b) (index d "value")) "descriptor hash mismatch"
  else .ok ()

def parentReference (m : Record) : Except String Record := do
  let parent ← mapValue (index m "in_reply_to") "$.in_reply_to"
  exact parent ["sender", "message_id"] [] "$.in_reply_to"
  let _ ← did (index parent "sender") "$.in_reply_to.sender"
  uuid (index parent "message_id") "$.in_reply_to.message_id"
  .ok parent

def conversationParent (m : Record) : Except String Unit :=
  if has m "in_reply_to" then do
    let p ← parentReference m
    errorIf (interfaceEqual (index p "sender") (index m "from") &&
      interfaceEqual (index p "message_id") (index m "conversation_message_id"))
      "conversation message cannot reply to itself"
  else .ok ()

def validateConversationEnvelope (sha256 : Sha256) (m a : Record) : Except String Unit := do
  exact a ["type", "creator", "conversation_id", "membership_revision",
    "descriptor_hash"] [] "$.authorization"
  let _ ← did (index a "creator") "$.authorization.creator"
  uuid (index a "conversation_id") "$.authorization.conversation_id"
  fixedRevision (index a "membership_revision") "$.authorization.membership_revision"
  digest (index a "descriptor_hash") "$.authorization.descriptor_hash"
  uuid (index m "conversation_message_id") "$.conversation_message_id"
  errorIf (interfaceEqual (index m "from") (index m "to"))
    "distinct conversation participants required"
  conversationIntroduction sha256 m a
  conversationParent m
  let r ← mapValue (index m "reply") "$.reply"
  errorIf (!interfaceEqual (index r "allowed") (.bool false))
    "conversation cannot issue independent replies"

def conversationAuthorization (sha256 : Sha256) (m a : Record) (version : Int) :
    Except String Unit := do
  errorIf (version != 4) "conversation requires envelope version 4"
  validateConversationEnvelope sha256 m a

/-- The `switch` on the kind of authorization. -/
def envelopeAuthorization (sha256 : Sha256) (m a : Record) (version : Int) (typ : String) :
    Except String Unit :=
  if typ = "grant" then grantAuthorization m a version
  else if typ = "reply" then replyAuthorization m a version
  else if typ = "connection" then connectionAuthorization m a version
  else if typ = "conversation" then conversationAuthorization sha256 m a version
  else .error "unknown authorization type"

def threadParent (m a : Record) (version : Int) (typ : String) : Except String Unit :=
  if version = 3 then do
    let parent ← parentReference m
    errorIf (!interfaceEqual (index parent "sender") (index m "to") ||
      interfaceEqual (index m "from") (index m "to"))
      "parent must be sent by the other participant"
    errorIf (typ == "reply" && !interfaceEqual (index parent "message_id") (index a "reply_to"))
      "parent must match reply authorization"
  else .ok ()

/-- Replace the error of a computation. -/
def orElse {α : Type} (x : Except String α) (message : String) : Except String α :=
  match x with
  | .ok a => .ok a
  | .error _ => .error message

def envelopeLabels (m : Record) : Except String Unit := do
  (if has m "category" then do
    let _ ← category (index m "category") "$.category"
    .ok ()
  else .ok ())
  if has m "message_type" then do
    let s ← orElse (textValue (index m "message_type") "$.message_type") "unknown message type"
    errorIf (!messageTypes.contains s) "unknown message type"
  else .ok ()

def envelopeBody (m : Record) (created expires : Int) : Except String Unit := do
  let b ← mapValue (index m "body") "$.body"
  exact b ["digest", "size", "media_type", "profile", "available_until", "access"] [] "$.body"
  digest (index b "digest") "$.body.digest"
  let size ← orElse (intValue (index b "size") "$.body.size" 1) "invalid body size"
  errorIf (decide (size > 1048576)) "invalid body size"
  expectText b "media_type" "application/hail-body+cbor" "$.body.media_type"
  let profile ← orElse (textValue (index b "profile") "$.body.profile") "unsupported body profile"
  errorIf (profile != "spt-1" && profile != "spt-2" && profile != "spt-3")
    "unsupported body profile"
  let available ← orElse (intValue (index b "available_until") "$.body.available_until" 0)
    "invalid body availability"
  errorIf (decide (available < int64 (created + 2592000)) ||
    decide (available < int64 (expires + 300)) ||
    decide (int64 (available - created) > 2678400)) "invalid body availability"
  let access ← mapValue (index b "access") "$.body.access"
  exact access ["type", "token", "expires_at"] [] "$.body.access"
  expectText access "type" "bearer" "$.body.access.type"
  byteValue (index access "token") 32 "$.body.access.token"
  let accessExpiry ← orElse (intValue (index access "expires_at") "$.body.access.expires_at" 0)
    "invalid access expiry"
  errorIf (decide (accessExpiry < available) || decide (int64 (accessExpiry - created) > 2678400))
    "invalid access expiry"

def envelopeReply (m : Record) (typ : String) (created : Int) : Except String Unit := do
  let r ← mapValue (index m "reply") "$.reply"
  let allowed ← boolValue (index r "allowed") "$.reply.allowed"
  errorIf (typ == "connection" && allowed)
    "connection messages do not issue independent reply capabilities"
  exact r ("allowed" :: if allowed then ["until"] else []) [] "$.reply"
  if allowed then do
    let untilTime ← orElse (intValue (index r "until") "$.reply.until" 0) "invalid reply expiry"
    errorIf (decide (untilTime ≤ created)) "invalid reply expiry"
  else .ok ()

def validateEnvelope (sha256 : Sha256) (m : Record) : Except String Unit := do
  let version ← intValue (index m "version") "$.version" 1
  exact m envelopeRequired (envelopeOptional version) "$"
  uuid (index m "message_id") "$.message_id"
  let _ ← did (index m "from") "$.from"
  let _ ← did (index m "to") "$.to"
  let a ← mapValue (index m "authorization") "$.authorization"
  let typ ← textValue (index a "type") "$.authorization.type"
  envelopeAuthorization sha256 m a version typ
  threadParent m a version typ
  envelopeLabels m
  let created ← intValue (index m "created_at") "$.created_at" 0
  let expires ← orElse (intValue (index m "expires_at") "$.expires_at" 0)
    "invalid envelope expiry"
  errorIf (decide (expires ≤ created) || decide (int64 (expires - created) > 604800))
    "invalid envelope expiry"
  envelopeBody m created expires
  envelopeReply m typ created

end Go

end HailProto.Codec
