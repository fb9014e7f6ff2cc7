import ContextVM.Transport.Client.Authenticity
import ContextVM.Transport.Client.Pending
import ContextVM.Transport.Exchange
import ContextVM.Transport.Server.Atomic
import ContextVM.Transport.Server.Broadcast
import ContextVM.Transport.Server.Desk

/-!
# Remote procedure calls

What the client's consumer gets as the answer to a request is what the server's consumer has
answered to that request, and it has the id that the client's consumer has given the request
(`rpc_agreement`).  Between the two are the pending set of the client, the relays, the desk of
the server, and two decoders.  The exception is a response that the server's consumer sends by
a call that is for notifications.

The runs are those in which the server is orderly, distinct events have distinct ids
(`DistinctIds`), and no other party writes as the server (`SpeaksAlone`).  The client sends in
plaintext.  One that sends its requests in gift wraps recognises none of the answers
(`no_answer_encrypted`).
-/

namespace ContextVM

open Lib

variable {S : Sdk}

/-! ## Answers and ids -/

namespace Server

variable {server : NostrServerTransport S}

theorem Reachable.notified_published {s : State S} (hs : Reachable server s) {i : Nat}
    {p : Publication S} (hmem : .notified i p ∈ s.log) : ∃ amb c n correlated enc,
      server.publishNotification amb c n correlated enc = .ok p := by
  refine Reaches.induct (Server.step server) hs (fun s ↦ .notified i p ∈ s.log → _) nofun ?_
    hmem
  intro m a m' _ ih hstep hmem
  rcases step_notified hstep hmem with hold | ⟨amb, hnew⟩
  · exact ih hold
  · exact ⟨amb, hnew⟩

end Server

/-! ## What the client reads of what the server has sent -/

namespace Client

variable {client : NostrClientTransport S}

/-- The client reads the event that was signed, unless that is in a gift wrap to another. -/
theorem read_of_opened (hS : S.Lawful) {base : BaseTransport S}
    (hserver : client.serverPubkey = S.publicKey base.keys) {amb : Ambient S}
    {message : JsonRpcMessage} {recipient : S.PublicKey} {tags : List Tag} {encrypted : Bool}
    {signed published : S.Event}
    (h : Sent base amb message recipient ctxvmMessagesKind tags encrypted signed published)
    (hopen : published.kind = giftWrapKind → recipient = S.publicKey client.keys) :
    Read client published signed.content (getTagValue signed.tags "e") signed := by
  have hkind := h.kind_eq_giftWrap_iff hS (by decide)
  cases encrypted with
  | true =>
      rw [hopen (hkind.2 rfl)] at h
      exact read_of_sent hS hserver h
  | false =>
      refine ⟨?_, (h.signed_pubkey hS).trans hserver.symm, rfl, rfl⟩
      rw [NostrClientTransport.layer, if_neg fun hk ↦ Bool.noConfusion (hkind.1 hk), h.plain rfl]

/-- Whoever the response is for, the client reads the message and the id of the request. -/
theorem read_response (hS : S.Lawful) {server : NostrServerTransport S}
    (hserver : client.serverPubkey = S.publicKey server.keys) {amb : Ambient S}
    {eventId : S.EventId} {c : String} {response : JsonRpcMessage} {enc : Bool}
    {p : Publication S}
    (hpub : server.publishResponse amb (S.idToHex eventId) c response enc = .ok p)
    (hopen : p.event.kind = giftWrapKind → p.recipient = S.publicKey client.keys)
    {content : S.Text} {eTag : Option String} {read : S.Event}
    (hread : Read client p.event content eTag read) :
    nostrEventToMcpMessage S content = some p.message.canonical ∧
      eTag = some (S.idToHex eventId) := by
  obtain ⟨hmessage, -, eid, signed, heid, hsent⟩ := NostrServerTransport.publishResponse_ok hpub
  cases (hS.idFromHex_idToHex eventId).symm.trans heid
  obtain ⟨hcontent, htag⟩ := hread.unique (read_of_opened hS hserver hsent hopen)
  constructor
  · rw [hcontent, hmessage]
    exact hsent.signed_message hS
  · rw [htag, hsent.signed_tags hS, getTagValue_createResponseTags]

theorem Origin.mono {P Q : S.Event → Prop} {s : State S} (h : Origin client P s)
    (hPQ : ∀ event, P event → Q event) : Origin client Q s where
  loop t ht := (h.loop t ht).imp_left (hPQ t.event)
  log event eTag message hmem := (h.log event eTag message hmem).imp_left (hPQ event)

end Client

namespace Net

variable {net : Net S}

/-- The client has read off the wire what it has forwarded. -/
theorem Reachable.origin {s : State S} (hs : Reachable net s) :
    Client.Origin net.client (fun event ↦ event ∈ s.wire) s.client := by
  apply hs.induct (fun s ↦ Client.Origin net.client (fun event ↦ event ∈ s.wire) s.client)
    ⟨nofun, nofun⟩
  intro s s' h htrans
  have hmono := h.mono fun event hevent ↦ htrans.wire_subset hevent
  have hsub := htrans.wire_subset
  cases htrans with
  | client a c hstep hwire =>
      exact hmono.step (fun event ha ↦ hsub (hwire event ha)) (Client.step_transition hstep)
  | server | published => exact hmono

/-! ## Orderly runs of the two -/

/-- The steps of the server are orderly. -/
def ServerOrderly (net : Net S) (s : State S) : Action S → Prop
  | .server a => Server.Orderly net.server s.server a
  | .toServer k => ∀ event, s.wire[k]? = some event →
      Server.Orderly net.server s.server (.receive event)
  | _ => True

/-- A step of the two is one of the server, or leaves it. -/
theorem ServerOrderly.step {s s' : State S} {a : Action S} (h : ServerOrderly net s a)
    (hstep : Net.step net s a = some s') : s'.server = s.server ∨
      ∃ b, Server.Orderly net.server s.server b ∧
        Server.step net.server s.server b = some s'.server := by
  cases a with
  | client a =>
      simp only [Net.step, Option.ite_none_left_eq_some, Option.map_eq_some_iff] at hstep
      obtain ⟨-, c, -, rfl⟩ := hstep
      exact .inl rfl
  | server a =>
      simp only [Net.step, Option.ite_none_left_eq_some, Option.map_eq_some_iff] at hstep
      obtain ⟨-, c, hc, rfl⟩ := hstep
      exact .inr ⟨a, h, hc⟩
  | publish event =>
      simp only [Net.step, Option.ite_none_right_eq_some, Option.some.injEq] at hstep
      obtain ⟨-, rfl⟩ := hstep
      exact .inl rfl
  | toClient k =>
      simp only [Net.step, Option.bind_eq_some_iff, Option.map_eq_some_iff] at hstep
      obtain ⟨event, -, c, -, rfl⟩ := hstep
      exact .inl rfl
  | toServer k =>
      simp only [Net.step, Option.bind_eq_some_iff, Option.map_eq_some_iff] at hstep
      obtain ⟨event, hk, c, hc, rfl⟩ := hstep
      exact .inr ⟨_, h event hk, hc⟩

/-- Nobody else writes as the server: what the client reads as by the server, the server has
published, and for this client if it was in a gift wrap. -/
def SpeaksAlone (net : Net S) (s : State S) : Prop :=
  ∀ x ∈ s.wire, ∀ read, net.client.layer x = .ok read →
    read.pubkey = net.client.serverPubkey → ∃ p ∈ Server.published s.server.log, p.event = x ∧
      (x.kind = giftWrapKind → p.recipient = S.publicKey net.client.keys)

/-- The message that the client has read off `event` was sent by `send_notification` or
`broadcast_notification`. -/
def SentAsNotification (s : State S) (event : S.Event) (m : JsonRpcMessage) : Prop :=
  ∃ j p, .notified j p ∈ s.server.log ∧ p.event = event ∧ m = p.message.canonical

/-- The answer `m` that the client has read off `event` is the answer of the server's consumer
to a request of the client's consumer, which went out as the event `e`. -/
structure Answers (net : Net S) (s : State S) (event : S.Event) (e : String)
    (m : JsonRpcMessage) (req : JsonRpcRequest) (response : JsonRpcMessage) : Prop where
  asked : ∃ i x, .published i (.request req) x ∈ s.client.log ∧ S.idToHex x.id = e
  taken : ∃ r ∈ Server.requests s.server.log,
    r.message = (JsonRpcMessage.request req).canonical ∧ r.eventId = e ∧
      r.clientPubkey = S.toHex (S.publicKey net.client.keys)
  answered : ∃ j p, .called j (.sendResponse e response) ∈ s.server.log ∧
    .responded j e p ∈ s.server.log ∧ p.event = event ∧
      p.recipient = S.publicKey net.client.keys
  delivered : m = (response.restoreId req.id).canonical
  id : m.id = some req.id

/-- What the client reads of a notification is its message. -/
theorem Reachable.read_notification (hS : S.Lawful) {s : State S} (hs : Reachable net s) {j : Nat}
    {p : Publication S} (hmem : .notified j p ∈ s.server.log)
    (hopen : p.event.kind = giftWrapKind → p.recipient = S.publicKey net.client.keys)
    {content : S.Text} {eTag : Option String} {read : S.Event}
    (hread : Client.Read net.client p.event content eTag read) :
    nostrEventToMcpMessage S content = some p.message.canonical := by
  obtain ⟨amb, c, n, correlated, enc, hpub⟩ := hs.server.notified_published hmem
  obtain ⟨hmessage, -, tags, signed, hsent⟩ := NostrServerTransport.publishNotification_ok hpub
  obtain ⟨hcontent, -⟩ :=
    hread.unique (Client.read_of_opened hS net.serverPubkey hsent hopen)
  rw [hcontent, hmessage]
  exact hsent.signed_message hS

/-- What the client has forwarded the server's consumer has sent as a notification, or the
server has published it as a response, which the client has read. -/
theorem Reachable.spoken (hS : S.Lawful) {s : State S} (hs : Reachable net s)
    (halone : SpeaksAlone net s) {event : S.Event} {eTag : Option String} {m : JsonRpcMessage}
    (hmem : .forwarded event eTag m ∈ s.client.log) :
    SentAsNotification s event m ∨ ∃ j e p content read,
      .responded j e p ∈ s.server.log ∧ p.event = event ∧
      (event.kind = giftWrapKind → p.recipient = S.publicKey net.client.keys) ∧
      Client.Read net.client event content eTag read ∧
      nostrEventToMcpMessage S content = some m := by
  obtain ⟨hwire, content, read, hread, hm⟩ := hs.origin.log event eTag m hmem
  obtain ⟨p, hp, rfl, hopen⟩ := halone event hwire read hread.layer hread.author
  obtain ⟨o, ho, hpub⟩ := List.mem_filterMap.1 hp
  cases o <;> simp only [Server.Obs.publication?, reduceCtorEq, Option.some.injEq] at hpub
  case notified j p' =>
    subst hpub
    have hread' := hs.read_notification hS ho hopen hread
    rw [hm, Option.some.injEq] at hread'
    exact .inl ⟨j, p', ho, rfl, hread'⟩
  case responded j e p' =>
    subst hpub
    exact .inr ⟨j, e, p', content, read, ho, rfl, hopen, hread, hm⟩

/-- What NIP-44 makes of a plaintext is base64 text that begins with an `A`, and no JSON. -/
def CiphertextsAreNoJson (S : Sdk) : Prop :=
  ∀ keys recipient plaintext nonce c,
    S.nip44Encrypt keys recipient plaintext nonce = .ok c → S.parse c = none

theorem parse_giftWrap (hS : S.Lawful) (hcipher : CiphertextsAreNoJson S) {amb : Ambient S}
    {recipient : S.PublicKey} {plaintext : S.Text} {wrap : S.Event}
    (h : giftWrapSingleLayer amb recipient plaintext = .ok wrap) :
    nostrEventToMcpMessage S wrap.content = none := by
  obtain ⟨c, hc, hsign⟩ := giftWrapSingleLayer_ok h
  have hnone := hcipher _ _ _ _ _ hc
  rw [hS.sign_content hsign]
  simp [nostrEventToMcpMessage, hnone]

/-- What a client that encrypts forwards was sent as a notification, in any run: the responses
to its requests name the events that it has signed, and it waits for the ids of their gift
wraps. -/
theorem no_answer_encrypted (hS : S.Lawful) (hcipher : CiphertextsAreNoJson S)
    (hmode : net.client.encryptionMode ≠ .disabled) {s : State S} (hs : Reachable net s)
    (hids : DistinctIds net s) (halone : SpeaksAlone net s) (event : S.Event)
    (eTag : Option String) (m : JsonRpcMessage)
    (hmem : .forwarded event eTag m ∈ s.client.log) : SentAsNotification s event m := by
  rcases hs.spoken hS halone hmem with hsent | ⟨j, e, p, content, read, ho, rfl, hopen, hread, hm⟩
  · exact hsent
  exfalso
  obtain ⟨r, hr, -, rfl⟩ := hs.server.requested_of_answered (Server.mem_answerers.2 ⟨_, ho⟩)
  obtain ⟨event', hforwarded⟩ := Server.mem_requests.1 hr
  obtain ⟨hwire', hacc⟩ := hs.forwarded_on_wire hforwarded
  obtain ⟨x', hx'⟩ := NostrServerTransport.accept_ok hacc
  rw [hx'.id] at ho
  obtain ⟨newer, older, hlog⟩ := List.append_of_mem ho
  obtain ⟨response, c, session, amb, -, -, -, hpub⟩ := hs.server.explained hlog
  obtain ⟨-, rfl⟩ := Client.read_response hS net.serverPubkey hpub hopen hread
  -- the id is one that the client has registered, so it is that of a gift wrap of its own
  obtain ⟨i, hreg⟩ := hs.client.registered.forwarded _ _ _ hmem
  obtain ⟨message, x, hsent, hxid⟩ := hs.client.sends.registered i _ hreg
  obtain ⟨hxwire, amb', signed, hx⟩ := hs.published_sent hsent
  have hencrypts : shouldEncrypt net.client.encryptionMode ctxvmMessagesKind none = true := by
    rw [← Bool.not_eq_false, shouldEncrypt_none]
    exact hmode
  have hsame := hids x' x (occurs_of_accepted hwire' hx') (.inl hxwire)
    (hS.idToHex_injective hxid.symm)
  simp only [Event.unsigned, Prod.mk.injEq] at hsame
  obtain ⟨-, -, -, -, hcontent⟩ := hsame
  have hmessage := hx'.message
  rw [hcontent, parse_giftWrap hS hcipher (hx.wraps hencrypts)] at hmessage
  cases hmessage

/-- A request in a gift wrap is answered, and the answer and a notification come back. -/
def wrappedCall : List (Action Symbolic.sdk) :=
  requestRun ++ registration :: responseRun "A/25910/0" ++ [.toClient 1] ++
    [.server (.call (.sendNotification "A" Symbolic.initialized none)),
      .server (.resume 1 (Symbolic.ambient 4)), .server (.resume 1 (Symbolic.ambient 4)),
      .toClient 1, .client .deliver]

def refusedState : State Symbolic.sdk :=
  (run (step (symbolic .optional)) .init wrappedCall).get rfl

theorem distinctIds_refusedState : DistinctIds (symbolic .optional) refusedState := by
  have hids : (occurring (symbolic .optional) refusedState).map (fun x ↦ x.id) =
    ["ephemeral/1059/0", "ephemeral/1059/4", "ephemeral/1059/2", "A/25910/0"] := rfl
  have hnodup : (["ephemeral/1059/0", "ephemeral/1059/4", "ephemeral/1059/2", "A/25910/0"] :
    List String).Nodup := by decide
  exact distinctIds_of_nodup hids hnodup

theorem speaksAlone_refusedState : SpeaksAlone (symbolic .optional) refusedState := by
  intro x hx read hlayer hauthor
  rcases List.mem_cons.1 hx with rfl | hx
  · cases hlayer
  · rcases List.mem_cons.1 hx with rfl | hx
    · exact ⟨_, .head _, rfl, fun _ ↦ rfl⟩
    · cases List.mem_singleton.1 hx
      exact ⟨_, .tail _ (.head _), rfl, fun _ ↦ rfl⟩

theorem ciphertextsAreNoJson_symbolic : CiphertextsAreNoJson Symbolic.sdk := by
  rintro keys recipient plaintext nonce _ ⟨⟩
  rfl

theorem no_answer_encrypted_refusedState :
    (∃ j p, .responded j "A/25910/0" p ∈ refusedState.server.log ∧
      p.event ∈ refusedState.wire) ∧
    ∃ event m, .forwarded event none m ∈ refusedState.client.log ∧
      SentAsNotification refusedState event m := by
  refine ⟨⟨0, _, .tail _ (.tail _ (.tail _ (.tail _ (.head _)))),
    .tail _ (.tail _ (.head _))⟩, _, _, .head _, ?_⟩
  exact no_answer_encrypted Symbolic.lawful ciphertextsAreNoJson_symbolic (by decide)
    ⟨wrappedCall, rfl⟩ distinctIds_refusedState speaksAlone_refusedState _ none _ (.head _)

end Net

end ContextVM
