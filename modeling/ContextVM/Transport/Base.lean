import ContextVM.Core.Serializers
import ContextVM.Core.Validation
import ContextVM.Encryption

/-!
# The base transport

`transport/base.rs`: the validating conversion of a content, the decision whether to encrypt,
the tags of outgoing messages, and the send path that the client and the server share.
-/

namespace ContextVM

variable {S : Sdk}

/-- The signer and the encryption policy of a transport. -/
structure BaseTransport (S : Sdk) where
  keys : S.Keys
  encryptionMode : EncryptionMode

/-- Convert the content of an event to a message, with validation.  Neither event loop calls
it: they call `nostrEventToMcpMessage`. -/
def convertEventToMcp (S : Sdk) (content : S.Text) : Option JsonRpcMessage :=
  if !validateMessageSize S content then none
  else do
    let value ← (S.parse content).map Value.ofJson
    validateMessage value

/-- Whether a message is to be encrypted. -/
def shouldEncrypt (mode : EncryptionMode) (kind : UInt16) (isEncrypted : Option Bool) : Bool :=
  -- announcement kinds are never encrypted
  if kind ∈ unencryptedKinds then false
  else
    match mode with
    | .disabled => false
    | .required => true
    | .optional => isEncrypted.getD true

def createRecipientTags (S : Sdk) (pubkey : S.PublicKey) : List Tag :=
  [.publicKey (S.toHex pubkey)]

def createResponseTags (S : Sdk) (pubkey : S.PublicKey) (eventId : S.EventId) : List Tag :=
  [.publicKey (S.toHex pubkey), .event (S.idToHex eventId)]

/-- `RelayPool::publish_event`: the id of the event, if `send_event` returns `Ok`.  It does so
even when every relay has answered that it does not keep the event. -/
def publishEvent (amb : Ambient S) (event : S.Event) : Except Error S.EventId :=
  match amb.relays with
  | .ok () => .ok event.id
  | .error e => .error (.transport e)

/-- Every receiver finds the id of the request in the first `e` tag of a response.  The
builder drops `p` tags only. -/
theorem getTagValue_createResponseTags (pubkey : S.PublicKey) (eventId : S.EventId)
    (author : String) :
    getTagValue ((createResponseTags S pubkey eventId).filter
      fun tag ↦ !tag.isPublicKey author) "e" = some (S.idToHex eventId) := by
  unfold createResponseTags
  rw [List.filter_cons]
  split <;> simp [Tag.isPublicKey, Tag.publicKey, Tag.event, getTagValue]

namespace BaseTransport

def createSignedEvent (base : BaseTransport S) (amb : Ambient S) (message : JsonRpcMessage)
    (kind : UInt16) (tags : List Tag) : Except Error S.Event :=
  (S.sign base.keys amb.signedAt amb.signRng (mcpToNostrEvent S message kind tags)).mapError
    .transport

/-- Send a message, in a gift wrap or as it is.  The result is the event id that the code
returns, which is the id of the published event, and the published event itself. -/
def sendMcpMessage (base : BaseTransport S) (amb : Ambient S) (message : JsonRpcMessage)
    (recipient : S.PublicKey) (kind : UInt16) (tags : List Tag) (isEncrypted : Option Bool) :
    Except Error (S.EventId × S.Event) := do
  let event ← base.createSignedEvent amb message kind tags
  if shouldEncrypt base.encryptionMode kind isEncrypted then
    let giftWrapEvent ← giftWrapSingleLayer amb recipient (S.eventToJson event)
    let eventId ← publishEvent amb giftWrapEvent
    return (eventId, giftWrapEvent)
  else
    let eventId ← publishEvent amb event
    return (eventId, event)

end BaseTransport

/-! ## What validation accepts -/

/-- Of the contents that the event loops can decode, the validating conversion accepts those
that are small enough and declare version 2.0. -/
theorem isSome_convertEventToMcp {content : S.Text} {message : JsonRpcMessage}
    (h : nostrEventToMcpMessage S content = some message) :
    (convertEventToMcp S content).isSome ↔
      S.len content ≤ maxMessageSize ∧ (S.parse content).bind Json.version = some "2.0" := by
  obtain ⟨j, hj, hm⟩ := Option.bind_eq_some_iff.1 h
  unfold convertEventToMcp validateMessageSize
  by_cases hlen : S.len content ≤ maxMessageSize
  · simp [hlen, hj, isSome_validateMessage_of_decode hm]
  · simp [hlen]

/-! ## What a successful send did -/

theorem shouldEncrypt_messages (mode : EncryptionMode) (isEncrypted : Option Bool) :
    shouldEncrypt mode ctxvmMessagesKind isEncrypted =
      match mode with
      | .disabled => false
      | .required => true
      | .optional => isEncrypted.getD true :=
  if_neg (by decide)

theorem publishEvent_ok {amb : Ambient S} {event : S.Event} {eventId : S.EventId}
    (h : publishEvent amb event = .ok eventId) : eventId = event.id := by
  unfold publishEvent at h
  split at h
  · exact (Except.ok.inj h).symm
  · cases h

/-- What is known of the event that a send of `message` published: the event that was signed
is this one, or is inside this one. -/
structure Sent (base : BaseTransport S) (amb : Ambient S) (message : JsonRpcMessage)
    (recipient : S.PublicKey) (kind : UInt16) (tags : List Tag) (encrypted : Bool)
    (signed published : S.Event) : Prop where
  signs : base.createSignedEvent amb message kind tags = .ok signed
  plain : encrypted = false → published = signed
  wraps : encrypted = true →
    giftWrapSingleLayer amb recipient (S.eventToJson signed) = .ok published

theorem BaseTransport.sendMcpMessage_ok {base : BaseTransport S} {amb : Ambient S}
    {message : JsonRpcMessage} {recipient : S.PublicKey} {kind : UInt16} {tags : List Tag}
    {isEncrypted : Option Bool} {eventId : S.EventId} {published : S.Event}
    (h : base.sendMcpMessage amb message recipient kind tags isEncrypted =
      .ok (eventId, published)) :
    eventId = published.id ∧ ∃ signed, Sent base amb message recipient kind tags
      (shouldEncrypt base.encryptionMode kind isEncrypted) signed published := by
  unfold sendMcpMessage at h
  cases hs : base.createSignedEvent amb message kind tags with
  | error e => simp [hs, bind, Except.bind] at h
  | ok signed =>
      simp only [hs, bind, Except.bind, pure, Except.pure] at h
      cases he : shouldEncrypt base.encryptionMode kind isEncrypted with
      | false =>
          simp only [he, Bool.false_eq_true, if_false] at h
          cases hp : publishEvent amb signed with
          | error e => simp [hp] at h
          | ok eid =>
              simp only [hp, Except.ok.injEq, Prod.mk.injEq] at h
              obtain ⟨rfl, rfl⟩ := h
              exact ⟨publishEvent_ok hp, signed, hs, fun _ ↦ rfl, nofun⟩
      | true =>
          simp only [he, if_true] at h
          cases hg : giftWrapSingleLayer amb recipient (S.eventToJson signed) with
          | error e => simp [hg] at h
          | ok wrap =>
              cases hp : publishEvent amb wrap with
              | error e => simp [hg, hp] at h
              | ok eid =>
                  simp only [hg, hp, Except.ok.injEq, Prod.mk.injEq] at h
                  obtain ⟨rfl, rfl⟩ := h
                  exact ⟨publishEvent_ok hp, signed, hs, nofun, fun _ ↦ hg⟩

namespace Sent

variable {base : BaseTransport S} {amb : Ambient S} {message : JsonRpcMessage}
  {recipient : S.PublicKey} {kind : UInt16} {tags : List Tag} {encrypted : Bool}
  {signed published : S.Event}

section

variable (hS : S.Lawful)
include hS

theorem signed_pubkey (h : Sent base amb message recipient kind tags encrypted signed published) :
    signed.pubkey = S.publicKey base.keys :=
  hS.sign_pubkey (Except.mapError_eq_ok.1 h.signs)

theorem signed_kind (h : Sent base amb message recipient kind tags encrypted signed published) :
    signed.kind = kind :=
  hS.sign_kind (Except.mapError_eq_ok.1 h.signs)

theorem signed_message
    (h : Sent base amb message recipient kind tags encrypted signed published) :
    nostrEventToMcpMessage S signed.content = some message.canonical := by
  rw [hS.sign_content (Except.mapError_eq_ok.1 h.signs)]
  exact hS.nostrEventToMcpMessage_content message kind tags

theorem signed_tags (h : Sent base amb message recipient kind tags encrypted signed published) :
    signed.tags = tags.filter fun tag ↦ !tag.isPublicKey (S.toHex (S.publicKey base.keys)) :=
  hS.sign_tags (Except.mapError_eq_ok.1 h.signs)

/-- The published event is a gift wrap exactly if the message was to be encrypted. -/
theorem kind_eq_giftWrap_iff (hk : kind ≠ giftWrapKind)
    (h : Sent base amb message recipient kind tags encrypted signed published) :
    published.kind = giftWrapKind ↔ encrypted = true := by
  cases encrypted with
  | true => simp [hS.giftWrap_kind (h.wraps rfl)]
  | false => simp [h.plain rfl, h.signed_kind hS, hk]

end

end Sent

end ContextVM
