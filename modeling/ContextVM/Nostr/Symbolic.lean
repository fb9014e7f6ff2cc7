import ContextVM.Core.Serializers
import ContextVM.Encryption

/-!
# A symbolic SDK

An instance of `Sdk` in the manner of symbolic cryptography: texts are terms, a ciphertext
is a term that names the two keys it is between, a signature names the key and the id it is
of.  Parsing and decryption take terms apart, so everything here can be evaluated, and
`Symbolic.lawful` shows that the assumptions of `Sdk.Lawful` are consistent.
-/

namespace ContextVM.Symbolic

/-- The key and the event id a signature is of. -/
abbrev Signature := String × String

/-- Texts as terms. -/
inductive Text where
  | json (j : Json)
  | event (ev : Event String String Signature Text)
  | cipher (sender recipient : String) (nonce : Nat) (plain : Text)

mutual

/-- The number of bytes of a tree without white space.  A number counts as one byte, and
nothing in a string is escaped. -/
def jsonLen : Json → Nat
  | .null => 4
  | .bool b => if b then 4 else 5
  | .num _ => 1
  | .str s => s.utf8ByteSize + 2
  | .arr elems => max 2 (elemsLen elems + 1)
  | .obj members => max 2 (membersLen members + 1)

/-- With one comma too many. -/
def elemsLen : List Json → Nat
  | [] => 0
  | j :: js => jsonLen j + elemsLen js + 1

def membersLen : Json.Members → Nat
  | [] => 0
  | (k, v) :: ms => k.utf8ByteSize + jsonLen v + membersLen ms + 4

end

/-- A length for terms; that of an event or a ciphertext is the length of what it is about. -/
def Text.len : Text → Nat
  | .json j => jsonLen j
  | .event ev => ev.content.len
  | .cipher _ _ _ plain => plain.len

/-- The id of an event: here its author, kind and time, instead of a hash. -/
def eventId (pubkey : String) (createdAt : Nat) (kind : UInt16) : String :=
  pubkey ++ "/" ++ toString kind.toNat ++ "/" ++ toString createdAt

/-- The event a builder gives when signed. -/
def signed (keys : String) (createdAt : Nat) (b : EventBuilder Text) :
    Event String String Signature Text :=
  let id := eventId keys createdAt b.kind
  { id
    pubkey := keys
    createdAt
    kind := b.kind
    tags := b.tags.filter fun tag ↦ !tag.isPublicKey keys
    content := b.content
    sig := (keys, id) }

/-- The symbolic SDK: a key is known by its name, which is also its hex form. -/
def sdk : Sdk where
  Text := Text
  PublicKey := String
  EventId := String
  Signature := Signature
  Keys := String
  Rng := Nat
  len := Text.len
  parse
    | .json j => some j
    | _ => none
  print := .json
  eventToJson := .event
  eventFromJson
    | .event ev => some ev
    | _ => none
  toHex := id
  fromHex := .ok
  idToHex := id
  idFromHex := .ok
  publicKey := id
  sign keys createdAt _ b := .ok (signed keys createdAt b)
  verify ev :=
    decide (ev.id = eventId ev.pubkey ev.createdAt ev.kind) &&
      decide (ev.sig = (ev.pubkey, ev.id))
  nip44Encrypt keys recipient plain nonce := .ok (.cipher keys recipient nonce plain)
  nip44Decrypt keys sender
    | .cipher s r _ plain =>
      if s = sender ∧ r = keys then .ok plain else .error "invalid MAC"
    | _ => .error "invalid payload"

theorem lawful : sdk.Lawful where
  parse_print _ := rfl
  eventFromJson_eventToJson _ := rfl
  fromHex_toHex _ := rfl
  idFromHex_idToHex _ := rfl
  nip44Decrypt_encrypt h := by
    cases h
    exact if_pos ⟨rfl, rfl⟩
  sign_pubkey h := by cases h; rfl
  sign_kind h := by cases h; rfl
  sign_content h := by cases h; rfl
  sign_tags h := by cases h; rfl
  sign_verify h := by
    cases h
    simp [sdk, signed]

instance : DecidableEq sdk.EventId := inferInstanceAs (DecidableEq String)

/-! ## Messages and events -/

def toolCall : JsonRpcMessage := .request ⟨"2.0", .str "1", "tools/call", none⟩

def emptyResponse : JsonRpcMessage := .response ⟨"2.0", .null, .null⟩

def initialized : JsonRpcMessage := .notification ⟨"2.0", "notifications/initialized", none⟩

/-- The plaintext event of a message. -/
def message (keys : String) (createdAt : Nat) (tags : List Tag) (m : JsonRpcMessage) :
    sdk.Event :=
  signed keys createdAt (mcpToNostrEvent sdk m ctxvmMessagesKind tags)

/-- A gift wrap of any event whatever, under the ephemeral key `keys`. -/
def wrap (keys recipient : String) (createdAt : Nat) (inner : sdk.Event) : sdk.Event :=
  signed keys createdAt
    { kind := giftWrapKind
      content := .cipher keys recipient 0 (.event inner)
      tags := [.publicKey recipient] }

/-- An event that claims an author and an id, and whose signature is by another key. -/
def forged (keys pubkey id : String) (m : JsonRpcMessage) : sdk.Event :=
  { message pubkey 0 [] m with id, sig := (keys, id) }

/-- Surroundings in which every send succeeds. -/
def ambient (time : Nat) : Ambient sdk where
  signedAt := time
  signRng := (0 : Nat)
  ephemeral := "ephemeral"
  nonce := (0 : Nat)
  wrappedAt := time
  wrapRng := (0 : Nat)
  relays := .ok ()

end ContextVM.Symbolic
