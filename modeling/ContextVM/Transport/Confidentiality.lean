import ContextVM.Transport.Clients

/-!
# Who can read what

Everything that the parties publish is there for anyone to take from the relays.  The holder of
some keys reads of it the messages that were sent to these keys, and those that went out in
plaintext, and nothing else: `Reachable.learned_iff`.  The keys are any keys, so they can be
those of a party or of a stranger.
-/

namespace ContextVM

open Lib
open Symbolic (toolCall emptyResponse)

variable {S : Sdk} {keys : S.Keys} {m : JsonRpcMessage}

/-- The holder of the keys reads the message off the event: it is the content, or that of the
event inside. -/
def Reads (keys : S.Keys) (event : S.Event) (m : JsonRpcMessage) : Prop :=
  nostrEventToMcpMessage S event.content = some m ∨
    event.kind = giftWrapKind ∧ ∃ inner, innerEvent keys event = .ok inner ∧
      nostrEventToMcpMessage S inner.content = some m

/-- Of what a send publishes one reads the message that was sent, if one can open it. -/
theorem Sent.reads_iff (hS : S.Lawful) (hsealed : Sealed S)
    (hcipher : Net.CiphertextsAreNoJson S) {base : BaseTransport S} {amb : Ambient S}
    {message : JsonRpcMessage} {recipient : S.PublicKey} {tags : List Tag} {encrypted : Bool}
    {signed published : S.Event}
    (h : Sent base amb message recipient ctxvmMessagesKind tags encrypted signed published) :
    Reads keys published m ↔
      m = message.canonical ∧ (encrypted = true → S.publicKey keys = recipient) := by
  have hkind := h.kind_eq_giftWrap_iff hS (by decide)
  have hmessage := h.signed_message hS
  cases encrypted with
  | false =>
      obtain rfl := h.plain rfl
      constructor
      · rintro (hm | ⟨hgift, -⟩)
        · exact ⟨Option.some.inj (hm.symm.trans hmessage), nofun⟩
        · cases hkind.1 hgift
      · rintro ⟨rfl, -⟩
        exact .inl hmessage
  | true =>
      have hwrap := h.wraps rfl
      constructor
      · rintro (hm | ⟨-, inner, hinner, hm⟩)
        · cases (Net.parse_giftWrap hS hcipher hwrap).symm.trans hm
        · obtain rfl := hsealed.recipient hS hwrap hinner
          cases hinner.symm.trans (hS.innerEvent_giftWrap hwrap)
          exact ⟨Option.some.inj (hm.symm.trans hmessage), fun _ ↦ rfl⟩
      · rintro ⟨rfl, hrecipient⟩
        obtain rfl := hrecipient rfl
        exact .inr ⟨hkind.2 rfl, signed, hS.innerEvent_giftWrap hwrap, hmessage⟩

namespace Clients

variable {n : Nat} {many : Clients S n} {s : State S n}

/-- What was sent to the holder of the keys, or in plaintext. -/
inductive OpenTo (many : Clients S n) (s : State S n) (keys : S.Keys) : JsonRpcMessage → Prop
  | toServer (i : Fin n) (k : Nat) (message : JsonRpcMessage) (x : S.Event)
      (hsent : .published k message x ∈ (s.clients i).log)
      (hopen : (many.client i).encryptionMode = .disabled ∨
        S.publicKey keys = S.publicKey many.server.keys) : OpenTo many s keys message.canonical
  | toClient (p : Publication S) (hp : p ∈ Server.published s.server.log)
      (hopen : many.server.config.encryptionMode ≠ .required ∧ p.event.kind ≠ giftWrapKind ∨
        S.publicKey keys = p.recipient) : OpenTo many s keys p.message.canonical

/-- What the holder of the keys can read on the relays is what was sent to it, or in
plaintext. -/
theorem Reachable.learned_iff (hS : S.Lawful) (hsealed : Sealed S)
    (hcipher : Net.CiphertextsAreNoJson S) (hs : Reachable many s) (keys : S.Keys)
    (m : JsonRpcMessage) : (∃ x ∈ s.wire, Reads keys x m) ↔ OpenTo many s keys m := by
  constructor
  · rintro ⟨x, hx, hreads⟩
    rcases State.mem_wire.1 hx with ⟨i, hi⟩ | hserver
    · obtain ⟨t, hst, ht⟩ := hs.projects hS i
      obtain ⟨k, amb, message, signed, hmem, hsent⟩ := ht.sent hst hi
      obtain ⟨rfl, hopen⟩ := (hsent.reads_iff hS hsealed hcipher).1 hreads
      refine .toServer i k message x hmem ?_
      rw [← Net.shouldEncrypt_none, ← Bool.not_eq_true]
      by_cases henc : shouldEncrypt (many.client i).encryptionMode ctxvmMessagesKind none = true
      · exact .inr (hopen henc)
      · exact .inl henc
    · obtain ⟨p, hp, rfl⟩ := mem_events.1 hserver
      obtain ⟨amb, tags, enc, signed, -, hsent⟩ := hs.server.sentBy hp
      obtain ⟨rfl, hopen⟩ := (hsent.reads_iff hS hsealed hcipher).1 hreads
      refine .toClient p hp ?_
      rw [← hsent.kind_eq_giftWrap_iff hS (by decide)] at hopen
      by_cases hgift : p.event.kind = giftWrapKind
      · exact .inr (hopen hgift)
      · refine .inl ⟨fun hmode ↦ hgift ?_, hgift⟩
        rw [hsent.kind_eq_giftWrap_iff hS (by decide), shouldEncrypt_messages, hmode]
  · intro hopen
    cases hopen with
    | toServer i k message x hmem hopen =>
        obtain ⟨t, hst, ht⟩ := hs.projects hS i
        obtain ⟨-, amb, signed, hsent⟩ := hst.published_sent (ht.client ▸ hmem)
        have hx : x ∈ s.wire := State.mem_wire.2 (.inl ⟨i, List.mem_filterMap.2 ⟨_, hmem, rfl⟩⟩)
        refine ⟨x, hx, (hsent.reads_iff hS hsealed hcipher).2 ⟨rfl, fun henc ↦ ?_⟩⟩
        refine hopen.resolve_left fun hmode ↦ ?_
        cases henc.symm.trans ((Net.shouldEncrypt_none _).2 hmode)
    | toClient p hp hopen =>
        obtain ⟨amb, tags, enc, signed, -, hsent⟩ := hs.server.sentBy hp
        have hx : p.event ∈ s.wire := State.mem_wire.2 (.inr (mem_events.2 ⟨p, hp, rfl⟩))
        refine ⟨p.event, hx, (hsent.reads_iff hS hsealed hcipher).2 ⟨rfl, fun henc ↦ ?_⟩⟩
        refine hopen.resolve_left fun hplain ↦ hplain.2 ?_
        exact (hsent.kind_eq_giftWrap_iff hS (by decide)).2 henc

/-- The first client calls a tool, and the server answers. -/
def wrappedCall : List (Action Symbolic.sdk 2) :=
  firstAsks ++
    [.server (.call (.sendResponse "A/25910/0" emptyResponse)),
      .server (.resume 0 (Symbolic.ambient 2)), .server (.resume 0 (Symbolic.ambient 2)),
      .server (.resume 0 (Symbolic.ambient 2))]

def wrappedState : State Symbolic.sdk 2 :=
  (run (step (twoClients .required)) .init wrappedCall).get rfl

/-- The server reads the call and the client the answer, and the second client nothing. -/
theorem learned_iff_wrappedState :
    (∃ x ∈ wrappedState.wire, Reads (S := Symbolic.sdk) "server" x toolCall.canonical) ∧
      (∃ m, Client.IsAnswer m ∧ ∃ x ∈ wrappedState.wire, Reads (S := Symbolic.sdk) "A" x m) ∧
      ∀ m, ¬ ∃ x ∈ wrappedState.wire, Reads (S := Symbolic.sdk) "B" x m := by
  have hs : Reachable (twoClients .required) wrappedState := ⟨wrappedCall, rfl⟩
  have h := fun keys m ↦ Reachable.learned_iff Symbolic.lawful sealed_symbolic
    Net.ciphertextsAreNoJson_symbolic hs keys m
  refine ⟨?_, ?_, fun m hm ↦ ?_⟩
  · exact (h "server" _).2 (.toServer 0 0 toolCall _ (.tail _ (.tail _ (.head _))) (.inr rfl))
  · exact ⟨_, .inl rfl, (h "A" _).2 (.toClient _ (.head _) (.inr rfl))⟩
  · cases (h "B" m).1 hm with
    | toServer i k message x hmem hopen =>
        rcases hopen with hmode | hkeys
        · cases hmode
        · exact absurd hkeys (by decide)
    | toClient p hp hopen =>
        cases List.mem_singleton.1 hp
        exact absurd hopen (by decide)

end Clients

end ContextVM
