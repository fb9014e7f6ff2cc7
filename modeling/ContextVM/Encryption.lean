import ContextVM.Core.Constants
import ContextVM.Nostr.Sdk

/-!
# Encryption and gift wraps

`encryption/mod.rs`: NIP-44 with the error types of the crate, and the single-layer gift
wrap, an event of kind 1059 under an ephemeral key whose content is the encrypted JSON of
the inner event.
-/

namespace ContextVM

variable {S : Sdk}

/-- What the surroundings supply to one send: the clock and the randomness of the signed
event and of its gift wrap, and what comes of handing it to the relay pool. -/
structure Ambient (S : Sdk) where
  signedAt : Nat
  signRng : S.Rng
  /-- `Keys::generate()`. -/
  ephemeral : S.Keys
  nonce : S.Rng
  wrappedAt : Nat
  wrapRng : S.Rng
  /-- Whether `send_event` returns `Ok`, not whether a relay keeps the event. -/
  relays : Except String Unit

def encryptNip44 (keys : S.Keys) (receiver : S.PublicKey) (plaintext : S.Text)
    (nonce : S.Rng) : Except Error S.Text :=
  (S.nip44Encrypt keys receiver plaintext nonce).mapError .encryption

def decryptNip44 (keys : S.Keys) (sender : S.PublicKey) (ciphertext : S.Text) :
    Except Error S.Text :=
  (S.nip44Decrypt keys sender ciphertext).mapError .decryption

/-- The plaintext of a gift wrap; nothing of it is checked. -/
def decryptGiftWrapSingleLayer (keys : S.Keys) (event : S.Event) : Except Error S.Text :=
  decryptNip44 keys event.pubkey event.content

/-- Encrypt under a fresh key, and sign the wrap with that key. -/
def giftWrapSingleLayer (amb : Ambient S) (recipient : S.PublicKey) (plaintext : S.Text) :
    Except Error S.Event := do
  let encrypted ← encryptNip44 amb.ephemeral recipient plaintext amb.nonce
  let builder : EventBuilder S.Text :=
    { kind := giftWrapKind, content := encrypted, tags := [.publicKey (S.toHex recipient)] }
  (S.sign amb.ephemeral amb.wrappedAt amb.wrapRng builder).mapError .encryption

/-- Why an event loop goes on to the next event without looking at the message. -/
inductive Refusal where
  | encryptionDisabled
  | decryptionFailed (e : Error)
  | invalidInnerEvent
  | encryptionRequired
  | unexpectedPubkey
  | unknownRequest
  | invalidMessage
  | unauthorized
deriving DecidableEq

/-- The event a gift wrap carries, as both event loops read it: decrypt, then parse. -/
def innerEvent (keys : S.Keys) (event : S.Event) : Except Refusal S.Event :=
  match decryptGiftWrapSingleLayer keys event with
  | .ok decryptedJson =>
    match S.eventFromJson decryptedJson with
    | some inner => .ok inner
    | none => .error .invalidInnerEvent
  | .error e => .error (.decryptionFailed e)

theorem Except.mapError_eq_ok {ε ε' α : Type} {f : ε → ε'} {x : Except ε α} {a : α} :
    x.mapError f = .ok a ↔ x = .ok a := by
  cases x <;> simp [Except.mapError]

namespace Sdk.Lawful

variable (hS : S.Lawful)
include hS

theorem giftWrap_kind {amb : Ambient S} {recipient : S.PublicKey} {plaintext : S.Text}
    {wrap : S.Event} (h : giftWrapSingleLayer amb recipient plaintext = .ok wrap) :
    wrap.kind = giftWrapKind := by
  unfold giftWrapSingleLayer at h
  cases he : encryptNip44 amb.ephemeral recipient plaintext amb.nonce with
  | error e => simp [he, bind, Except.bind] at h
  | ok c =>
      simp only [he, bind, Except.bind, Except.mapError_eq_ok] at h
      exact hS.sign_kind h

/-- The holder of the recipient's keys opens the gift wrap of an event to that event. -/
theorem innerEvent_giftWrap {amb : Ambient S} {keys : S.Keys} {event wrap : S.Event}
    (h : giftWrapSingleLayer amb (S.publicKey keys) (S.eventToJson event) = .ok wrap) :
    innerEvent keys wrap = .ok event := by
  unfold giftWrapSingleLayer at h
  cases he : encryptNip44 amb.ephemeral (S.publicKey keys) (S.eventToJson event) amb.nonce with
  | error e => simp [he, bind, Except.bind] at h
  | ok c =>
      simp only [he, bind, Except.bind, Except.mapError_eq_ok] at h
      have hc : S.nip44Decrypt keys wrap.pubkey wrap.content =
          .ok (S.eventToJson event) := by
        rw [hS.sign_pubkey h, hS.sign_content h]
        exact hS.nip44Decrypt_encrypt (Except.mapError_eq_ok.1 he)
      simp [innerEvent, decryptGiftWrapSingleLayer, decryptNip44, hc, Except.mapError,
        hS.eventFromJson_eventToJson]

end Sdk.Lawful

/-- A gift wrap is a ciphertext for the recipient, signed with the ephemeral key. -/
theorem giftWrapSingleLayer_ok {amb : Ambient S} {recipient : S.PublicKey} {plaintext : S.Text}
    {wrap : S.Event} (h : giftWrapSingleLayer amb recipient plaintext = .ok wrap) :
    ∃ c, S.nip44Encrypt amb.ephemeral recipient plaintext amb.nonce = .ok c ∧
      S.sign amb.ephemeral amb.wrappedAt amb.wrapRng
        { kind := giftWrapKind, content := c, tags := [.publicKey (S.toHex recipient)] } =
          .ok wrap := by
  unfold giftWrapSingleLayer at h
  cases he : encryptNip44 amb.ephemeral recipient plaintext amb.nonce with
  | error e => simp [he, bind, Except.bind] at h
  | ok c =>
      simp only [he, bind, Except.bind, Except.mapError_eq_ok] at h
      exact ⟨c, Except.mapError_eq_ok.1 he, h⟩

end ContextVM
