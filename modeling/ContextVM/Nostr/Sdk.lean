import ContextVM.Core.Types

/-!
# What the code calls of `nostr-sdk` and `serde_json`

Both are third-party, so a development over them takes their operations as a parameter: an
`Sdk` is a choice of carrier types and operations, and `Sdk.Lawful` states the documented
behaviour the transports rely on.  `Nostr/Symbolic.lean` has an instance.

Two guarantees are kept apart on purpose.  `verify` is what the relay pool checks of an
event it hands over: the id is the hash of the event and the signature is the author's.
`eventFromJson` is `serde_json::from_str::<Event>`, which reads the fields and checks
neither.
-/

namespace ContextVM

/-- A tag: its strings, of which the first is the name. -/
abbrev Tag := List String

namespace Tag

/-- `Tag::public_key`, from the hex form of the key. -/
def publicKey (hex : String) : Tag := ["p", hex]

/-- `Tag::event`, from the hex form of the id. -/
def event (hex : String) : Tag := ["e", hex]

/-- A `p` tag that names this key. -/
def isPublicKey (hex : String) (tag : Tag) : Bool := tag.head? = some "p" && tag[1]? = some hex

end Tag

/-- A Nostr event. -/
structure Event (Key Id Sig Text : Type) where
  id : Id
  pubkey : Key
  createdAt : Nat
  kind : UInt16
  tags : List Tag
  content : Text
  sig : Sig

/-- What the id of an event is the hash of. -/
def Event.unsigned {Key Id Sig Text : Type} (ev : Event Key Id Sig Text) :
    Key × Nat × UInt16 × List Tag × Text :=
  (ev.pubkey, ev.createdAt, ev.kind, ev.tags, ev.content)

/-- An event before its author is known. -/
structure EventBuilder (Text : Type) where
  kind : UInt16
  content : Text
  tags : List Tag

/-- The operations of the two libraries. -/
structure Sdk where
  /-- Strings that hold JSON text or ciphertext. -/
  Text : Type
  PublicKey : Type
  EventId : Type
  Signature : Type
  /-- A key pair. -/
  Keys : Type
  /-- Random bits: a signature's, or a ciphertext's nonce. -/
  Rng : Type
  [decPublicKey : DecidableEq PublicKey]
  /-- `str::len`: the number of bytes. -/
  len : Text → Nat
  /-- `serde_json::from_str`, up to the tree. -/
  parse : Text → Option Json
  /-- `serde_json::to_string` of a tree. -/
  print : Json → Text
  /-- `serde_json::to_string` of an event. -/
  eventToJson : Event PublicKey EventId Signature Text → Text
  /-- `serde_json::from_str::<Event>`: fields only, neither id nor signature is checked. -/
  eventFromJson : Text → Option (Event PublicKey EventId Signature Text)
  /-- `PublicKey::to_hex`. -/
  toHex : PublicKey → String
  /-- `PublicKey::from_hex`. -/
  fromHex : String → Except String PublicKey
  /-- `EventId::to_hex`. -/
  idToHex : EventId → String
  /-- `EventId::from_hex`. -/
  idFromHex : String → Except String EventId
  publicKey : Keys → PublicKey
  /-- Build and sign, at a time and with the signature's randomness. -/
  sign : Keys → Nat → Rng → EventBuilder Text →
    Except String (Event PublicKey EventId Signature Text)
  /-- The id is the hash of the event and the signature is by its author. -/
  verify : Event PublicKey EventId Signature Text → Bool
  nip44Encrypt : Keys → PublicKey → Text → Rng → Except String Text
  nip44Decrypt : Keys → PublicKey → Text → Except String Text

attribute [instance] Sdk.decPublicKey

/-- The events of an SDK. -/
abbrev Sdk.Event (S : Sdk) : Type :=
  ContextVM.Event S.PublicKey S.EventId S.Signature S.Text

/-- What the transports rely on. -/
structure Sdk.Lawful (S : Sdk) : Prop where
  /-- An idealisation of `serde_json`, which parses nothing that is nested deeper than 127, and
  may read the text of a float as a float beside it. -/
  parse_print (j : Json) : S.parse (S.print j) = some j
  eventFromJson_eventToJson (ev : S.Event) : S.eventFromJson (S.eventToJson ev) = some ev
  fromHex_toHex (k : S.PublicKey) : S.fromHex (S.toHex k) = .ok k
  idFromHex_idToHex (i : S.EventId) : S.idFromHex (S.idToHex i) = .ok i
  /-- The recipient's keys undo the encryption, given the sender's public key. -/
  nip44Decrypt_encrypt {k k' : S.Keys} {m c : S.Text} {rng : S.Rng}
    (h : S.nip44Encrypt k (S.publicKey k') m rng = .ok c) :
    S.nip44Decrypt k' (S.publicKey k) c = .ok m
  sign_pubkey {k : S.Keys} {t : Nat} {rng : S.Rng} {b : EventBuilder S.Text} {ev : S.Event}
    (h : S.sign k t rng b = .ok ev) : ev.pubkey = S.publicKey k
  sign_kind {k : S.Keys} {t : Nat} {rng : S.Rng} {b : EventBuilder S.Text} {ev : S.Event}
    (h : S.sign k t rng b = .ok ev) : ev.kind = b.kind
  sign_content {k : S.Keys} {t : Nat} {rng : S.Rng} {b : EventBuilder S.Text} {ev : S.Event}
    (h : S.sign k t rng b = .ok ev) : ev.content = b.content
  /-- The builder drops the `p` tags that name the author. -/
  sign_tags {k : S.Keys} {t : Nat} {rng : S.Rng} {b : EventBuilder S.Text} {ev : S.Event}
    (h : S.sign k t rng b = .ok ev) :
    ev.tags = b.tags.filter fun tag ↦ !tag.isPublicKey (S.toHex (S.publicKey k))
  sign_verify {k : S.Keys} {t : Nat} {rng : S.Rng} {b : EventBuilder S.Text} {ev : S.Event}
    (h : S.sign k t rng b = .ok ev) : S.verify ev = true

namespace Sdk.Lawful

variable {S : Sdk} (hS : S.Lawful)
include hS

theorem toHex_injective : Function.Injective S.toHex := fun k k' h ↦ by
  have hk := hS.fromHex_toHex k
  rw [h, hS.fromHex_toHex] at hk
  exact (Except.ok.inj hk).symm

theorem idToHex_injective : Function.Injective S.idToHex := fun i i' h ↦ by
  have hi := hS.idFromHex_idToHex i
  rw [h, hS.idFromHex_idToHex] at hi
  exact (Except.ok.inj hi).symm

end Sdk.Lawful

end ContextVM
