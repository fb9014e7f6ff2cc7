import ContextVM.Transport.Lifecycle
import ContextVM.Transport.Rpc
import ContextVM.Transport.Server.Notices

/-!
# What the subscriptions let through

A transport subscribes to messages and to gift wraps whose `p` tag names it.  A relay hands on
the events that match one of its filters, as NIP-01 has it.

What the two parties publish passes the subscription of its recipient and no other, unless it is
too old or by the recipient itself (`subscription_exact`).  So if the relays heed it, and nobody
else writes as the server, all that the client forwards was sent to it (`forwarded_addressed`).
-/

namespace ContextVM

open Lib

variable {S : Sdk}

/-! ## Matching -/

/-- NIP-01: an event matches a filter if it has the kind and the tag and is not too old. -/
def Filter.matchEvent (filter : Filter) (event : S.Event) : Bool :=
  event.kind = filter.kind && (event.tags.any fun tag ↦ tag.isPublicKey filter.pTag) &&
    filter.since ≤ event.createdAt

/-- The subscription that `subscribe_for_pubkey` makes for the key lets the event through. -/
def subscribed (answers : Answers S) (pubkey : S.PublicKey) (event : S.Event) : Bool :=
  (BaseTransport.filters answers pubkey).any fun filter ↦ filter.matchEvent event

/-- The earliest time of an event that a subscription asks for. -/
def earliest (answers : Answers S) (kind : UInt16) : Nat :=
  if kind = giftWrapKind then answers.nowWraps - 2 * 24 * 3600 else answers.now

theorem subscribed_iff {answers : Answers S} {key : S.PublicKey} {event : S.Event} :
    subscribed answers key event = true ↔
      (event.kind = ctxvmMessagesKind ∨ event.kind = giftWrapKind) ∧
      (∃ tag ∈ event.tags, tag.isPublicKey (S.toHex key) = true) ∧
      earliest answers event.kind ≤ event.createdAt := by
  have hkinds : ctxvmMessagesKind ≠ giftWrapKind := by decide
  simp only [subscribed, BaseTransport.filters, Filter.matchEvent, earliest, List.any_cons,
    List.any_nil, Bool.or_false, Bool.or_eq_true, Bool.and_eq_true, decide_eq_true_eq,
    List.any_eq_true]
  constructor
  · rintro (⟨⟨hkind, htag⟩, hsince⟩ | ⟨⟨hkind, htag⟩, hsince⟩)
    · refine ⟨.inl hkind, htag, ?_⟩
      rwa [hkind, if_neg hkinds]
    · refine ⟨.inr hkind, htag, ?_⟩
      rwa [if_pos hkind]
  · rintro ⟨hkind | hkind, htag, hsince⟩
    · rw [hkind, if_neg hkinds] at hsince
      exact .inl ⟨⟨hkind, htag⟩, hsince⟩
    · rw [if_pos hkind] at hsince
      exact .inr ⟨⟨hkind, htag⟩, hsince⟩

/-! ## Addresses -/

/-- The `p` tags name the key and no other. -/
def Names (S : Sdk) (tags : List Tag) (key : S.PublicKey) : Prop :=
  ∀ hex, (∃ tag ∈ tags, tag.isPublicKey hex = true) ↔ hex = S.toHex key

theorem Tag.isPublicKey_publicKey {hex hex' : String} :
    (Tag.publicKey hex).isPublicKey hex' = true ↔ hex' = hex := by
  simp [isPublicKey, publicKey, eq_comm]

theorem Tag.isPublicKey_unique {tag : Tag} {hex hex' : String}
    (h : tag.isPublicKey hex = true) (h' : tag.isPublicKey hex' = true) : hex = hex' := by
  simp only [isPublicKey, Bool.and_eq_true, decide_eq_true_eq] at h h'
  exact Option.some.inj (h.2.symm.trans h'.2)

theorem names_createRecipientTags (key : S.PublicKey) :
    Names S (createRecipientTags S key) key := by
  intro hex
  simp [createRecipientTags, Tag.isPublicKey_publicKey]

theorem Names.concat_event {tags : List Tag} {key : S.PublicKey} (h : Names S tags key)
    (id : String) : Names S (tags ++ [.event id]) key := by
  intro hex
  have hevent : (Tag.event id).isPublicKey hex = false := by simp [Tag.isPublicKey, Tag.event]
  rw [← h hex]
  simp [or_and_right, exists_or, hevent]

theorem names_createResponseTags (key : S.PublicKey) (eventId : S.EventId) :
    Names S (createResponseTags S key eventId) key :=
  (names_createRecipientTags key).concat_event _

/-- An event whose builder names the key passes the subscription of the key, unless it is too
old or by the key itself: then the builder drops the tag. -/
theorem Names.subscribed_iff (hS : S.Lawful) {b : EventBuilder S.Text} {recipient : S.PublicKey}
    (h : Names S b.tags recipient)
    (hkind : b.kind = ctxvmMessagesKind ∨ b.kind = giftWrapKind) {keys : S.Keys} {time : Nat}
    {rng : S.Rng} {event : S.Event} (hsign : S.sign keys time rng b = .ok event)
    (answers : Answers S) (key : S.PublicKey) :
    subscribed answers key event = true ↔ key = recipient ∧ event.pubkey ≠ recipient ∧
      earliest answers event.kind ≤ event.createdAt := by
  rw [ContextVM.subscribed_iff, hS.sign_kind hsign, hS.sign_tags hsign, hS.sign_pubkey hsign]
  constructor
  · rintro ⟨-, ⟨tag, htag, hkey⟩, hsince⟩
    obtain ⟨hmem, hauthor⟩ := List.mem_filter.1 htag
    obtain rfl := hS.toHex_injective ((h _).1 ⟨tag, hmem, hkey⟩)
    refine ⟨rfl, ?_, hsince⟩
    rintro heq
    rw [heq, hkey] at hauthor
    cases hauthor
  · rintro ⟨rfl, hauthor, hsince⟩
    obtain ⟨tag, hmem, hkey⟩ := (h _).2 rfl
    refine ⟨hkind, ⟨tag, List.mem_filter.2 ⟨hmem, ?_⟩, hkey⟩, hsince⟩
    rw [Bool.not_eq_true', ← Bool.not_eq_true]
    intro hdropped
    exact hauthor (hS.toHex_injective (Tag.isPublicKey_unique hdropped hkey))

/-- The event passes the subscription of the key and no other. -/
def AddressedTo (event : S.Event) (recipient : S.PublicKey) : Prop :=
  ∀ (answers : Answers S) key, subscribed answers key event = true ↔
    key = recipient ∧ event.pubkey ≠ recipient ∧
      earliest answers event.kind ≤ event.createdAt

/-- What a send publishes is addressed to the recipient, in a gift wrap or not. -/
theorem Sent.addressedTo (hS : S.Lawful) {base : BaseTransport S} {amb : Ambient S}
    {message : JsonRpcMessage} {recipient : S.PublicKey} {tags : List Tag} {encrypted : Bool}
    {signed published : S.Event} (hnames : Names S tags recipient)
    (h : Sent base amb message recipient ctxvmMessagesKind tags encrypted signed published) :
    AddressedTo published recipient := by
  cases encrypted with
  | false =>
      rw [h.plain rfl]
      exact Names.subscribed_iff hS hnames (.inl rfl) (Except.mapError_eq_ok.1 h.signs)
  | true =>
      obtain ⟨c, -, hsign⟩ := giftWrapSingleLayer_ok (h.wraps rfl)
      exact Names.subscribed_iff hS (names_createRecipientTags recipient) (.inr rfl) hsign

/-! ## What the two parties publish -/

namespace Server

open NostrServerTransport

variable {server : NostrServerTransport S}

/-- The server has signed the message for the recipient, whom the tags name. -/
def SentBy (server : NostrServerTransport S) (p : Publication S) : Prop :=
  ∃ amb tags enc signed, Names S tags p.recipient ∧
    Sent server.base amb p.message p.recipient ctxvmMessagesKind tags
      (shouldEncrypt server.config.encryptionMode ctxvmMessagesKind (some enc)) signed p.event

theorem sentBy_of_publishResponse {amb : Ambient S} {e c : String} {response : JsonRpcMessage}
    {enc : Bool} {p : Publication S}
    (h : server.publishResponse amb e c response enc = .ok p) : SentBy server p := by
  obtain ⟨hmessage, -, eid, signed, -, hsent⟩ := publishResponse_ok h
  exact ⟨amb, _, _, signed, names_createResponseTags p.recipient eid, hmessage ▸ hsent⟩

theorem sentBy_of_publishNotification {amb : Ambient S} {c : String} {n : JsonRpcMessage}
    {correlated : Option String} {enc : Bool} {p : Publication S}
    (h : server.publishNotification amb c n correlated enc = .ok p) : SentBy server p := by
  cases correlated with
  | some e => exact sentBy_of_publishResponse (publishNotification_some .. ▸ h)
  | none =>
      unfold publishNotification at h
      cases hc : S.fromHex c with
      | error err => simp [hc, Except.mapError, bind, Except.bind] at h
      | ok key =>
          simp only [hc, Except.mapError, bind, Except.bind, pure, Except.pure] at h
          split at h
          · cases h
          · next sent hs =>
              obtain ⟨-, signed, hsent⟩ := BaseTransport.sendMcpMessage_ok hs
              cases h
              exact ⟨amb, _, _, signed, names_createRecipientTags key, hsent⟩

theorem Reachable.sentBy {s : State S} (hs : Reachable server s) {p : Publication S}
    (hp : p ∈ published s.log) : SentBy server p := by
  obtain ⟨o, ho, hpub⟩ := List.mem_filterMap.1 hp
  cases o <;> simp only [Obs.publication?, reduceCtorEq, Option.some.injEq] at hpub
  case notified i p' =>
    subst hpub
    obtain ⟨amb, c, n, correlated, enc, h⟩ := hs.notified_published ho
    exact sentBy_of_publishNotification h
  case responded i e p' =>
    subst hpub
    obtain ⟨newer, older, hlog⟩ := List.append_of_mem ho
    obtain ⟨response, c, session, amb, -, -, -, h⟩ := hs.explained hlog
    exact sentBy_of_publishResponse h

theorem Reachable.published_addressedTo (hS : S.Lawful) {s : State S}
    (hs : Reachable server s) {p : Publication S} (hp : p ∈ published s.log) :
    AddressedTo p.event p.recipient := by
  obtain ⟨amb, tags, enc, signed, hnames, hsent⟩ := hs.sentBy hp
  exact hsent.addressedTo hS hnames

end Server

theorem Client.Origin.init {client : NostrClientTransport S} {P : S.Event → Prop} :
    Client.Origin client P .init := by
  constructor
  · intro t hloop
    cases hloop
  · intro event eTag message hmem
    cases hmem

namespace Net

variable {net : Net S} {s : State S}

theorem Reachable.published_addressedTo (hS : S.Lawful) (hs : Reachable net s) {i : Nat}
    {message : JsonRpcMessage} {event : S.Event}
    (hpub : .published i message event ∈ s.client.log) :
    AddressedTo event (S.publicKey net.server.keys) := by
  obtain ⟨-, amb, signed, hsent⟩ := hs.published_sent hpub
  exact hsent.addressedTo hS (net.serverPubkey ▸ names_createRecipientTags _)

/-- What either party has published passes the subscription of its recipient and no other,
unless it is older than the subscription asks for or by the recipient itself. -/
theorem subscription_exact (hS : S.Lawful) (hs : Reachable net s) :
    (∀ p ∈ Server.published s.server.log, AddressedTo p.event p.recipient) ∧
      ∀ i message event, .published i message event ∈ s.client.log →
        AddressedTo event (S.publicKey net.server.keys) :=
  ⟨fun _ hp ↦ hs.server.published_addressedTo hS hp,
    fun _ _ _ hpub ↦ hs.published_addressedTo hS hpub⟩

/-- The subscription of the client lets the response through, that of another does not. -/
theorem subscription_exact_answeredState : ∃ p ∈ Server.published answeredState.server.log,
    subscribed Lifecycle.compliant "A" p.event = true ∧
      subscribed Lifecycle.compliant "B" p.event = false := by
  obtain ⟨p, h, hlog, hrecipient, hauthor⟩ : ∃ p h,
      answeredState.server.log = .responded 0 "A/25910/0" p :: h ∧ p.recipient = "A" ∧
        p.event.pubkey = "server" := ⟨_, _, rfl, rfl, rfl⟩
  have hp : p ∈ Server.published answeredState.server.log :=
    List.mem_filterMap.2 ⟨.responded 0 "A/25910/0" p, hlog ▸ List.mem_cons_self, rfl⟩
  have haddressed := (subscription_exact Symbolic.lawful answeredState_reachable).1 p hp
  refine ⟨p, hp, (haddressed _ _).2 ⟨hrecipient.symm, ?_, ?_⟩, ?_⟩
  · rw [hauthor, hrecipient]
    exact (by decide : ("server" : String) ≠ "A")
  · rw [earliest]
    split <;> exact Nat.zero_le _
  · rw [← Bool.not_eq_true]
    intro hpasses
    obtain ⟨hB, -⟩ := (haddressed _ _).1 hpasses
    exact absurd (hB.trans hrecipient) (by decide : ("B" : String) ≠ "A")

/-! ## Relays that heed the subscriptions -/

/-- The relays hand the client what its subscription lets through. -/
def Heeds (net : Net S) (answers : ContextVM.Answers S) (s : State S) : Action S → Prop
  | .toClient k => ∀ event, s.wire[k]? = some event →
      subscribed answers (S.publicKey net.client.keys) event = true
  | _ => True

/-- What the client has forwarded it has read of an event that its subscription lets
through. -/
theorem origin_of_heeds {answers : ContextVM.Answers S} {as : List (Action S)}
    (hrun : run (step net) .init as = some s)
    (hheeds : Always (step net) (Heeds net answers) .init as) :
    Client.Origin net.client (fun event ↦ event ∈ s.wire ∧
      subscribed answers (S.publicKey net.client.keys) event = true) s.client := by
  refine run_invariant_of_always (fun s ↦ Client.Origin net.client (fun event ↦
    event ∈ s.wire ∧ subscribed answers (S.publicKey net.client.keys) event = true) s.client)
    ?_ Client.Origin.init hheeds hrun
  intro s a s' h hheeds hstep
  have hsub := (step_transition hstep).wire_subset
  have hmono : Client.Origin net.client (fun event ↦ event ∈ s'.wire ∧
      subscribed answers (S.publicKey net.client.keys) event = true) s.client :=
    h.mono fun event hevent ↦ ⟨hsub hevent.1, hevent.2⟩
  cases a with
  | client a =>
      simp only [step, Option.ite_none_left_eq_some, Option.map_eq_some_iff] at hstep
      obtain ⟨ha, c, hstep, rfl⟩ := hstep
      refine hmono.step ?_ (Client.step_transition hstep)
      rintro event rfl
      exact absurd rfl ha
  | toClient k =>
      simp only [step, Option.bind_eq_some_iff, Option.map_eq_some_iff] at hstep
      obtain ⟨event, hk, c, hstep, rfl⟩ := hstep
      refine hmono.step ?_ (Client.step_transition hstep)
      rintro event' ⟨⟩
      exact ⟨hsub (List.mem_of_getElem? hk), hheeds event hk⟩
  | server a =>
      simp only [step, Option.ite_none_left_eq_some, Option.map_eq_some_iff] at hstep
      obtain ⟨-, c, -, rfl⟩ := hstep
      exact hmono
  | publish event =>
      simp only [step, Option.ite_none_right_eq_some, Option.some.injEq] at hstep
      obtain ⟨-, rfl⟩ := hstep
      exact hmono
  | toServer k =>
      simp only [step, Option.bind_eq_some_iff, Option.map_eq_some_iff] at hstep
      obtain ⟨event, -, c, -, rfl⟩ := hstep
      exact hmono

/-- Nobody else writes as one of the two: what a party reads as by the other, the other has
published. -/
structure Authentic (net : Net S) (s : State S) : Prop where
  client : ∀ x ∈ s.wire, ∀ r, net.server.accept x = .ok r →
    r.clientPubkey = S.toHex (S.publicKey net.client.keys) →
      ∃ i message, .published i message x ∈ s.client.log
  server : ∀ x ∈ s.wire, ∀ read, net.client.layer x = .ok read →
    read.pubkey = net.client.serverPubkey → ∃ p ∈ Server.published s.server.log, p.event = x

/-- What the client forwards the server has sent to it. -/
theorem forwarded_addressed (hS : S.Lawful) {answers : ContextVM.Answers S} {as : List (Action S)}
    (hrun : run (step net) .init as = some s)
    (hheeds : Always (step net) (Heeds net answers) .init as) (hauth : Authentic net s)
    {event : S.Event} {eTag : Option String} {m : JsonRpcMessage}
    (hmem : .forwarded event eTag m ∈ s.client.log) :
    ∃ p ∈ Server.published s.server.log, p.event = event ∧
      p.recipient = S.publicKey net.client.keys ∧ m = p.message.canonical := by
  have hs : Reachable net s := ⟨as, hrun⟩
  obtain ⟨⟨hwire, hpasses⟩, content, read, hread, hm⟩ :=
    (origin_of_heeds hrun hheeds).log event eTag m hmem
  obtain ⟨p, hp, rfl⟩ := hauth.server event hwire read hread.layer hread.author
  obtain ⟨amb, tags, enc, signed, hnames, hsent⟩ := hs.server.sentBy hp
  obtain ⟨hrecipient, -⟩ := (hsent.addressedTo hS hnames answers _).1 hpasses
  obtain ⟨hcontent, -⟩ := hread.unique
    (Client.read_of_opened hS net.serverPubkey hsent fun _ ↦ hrecipient.symm)
  rw [hcontent, hsent.signed_message hS, Option.some.injEq] at hm
  exact ⟨p, hp, rfl, hrecipient.symm, hm.symm⟩

end Net

end ContextVM
