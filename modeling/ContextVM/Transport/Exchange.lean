import ContextVM.Transport.Net

/-!
# A request and its response

The client recognises the response to a request by the id that it registered when it sent
the request.  The server puts the id of the event that it read into the response.

* The two ids agree if the request travels in plaintext.  A gift wrap has an id of its own,
  and this is the one that the client registers, while the server goes by the event inside:
  `request_correlated_iff`.
* In plaintext the response is recognised if it arrives after the id was registered, which
  the client does only after it has published the request: `response_kept_iff`.

The first is under the assumption that distinct events have distinct ids.
-/

namespace ContextVM.Net

open Lib
open Symbolic (toolCall emptyResponse)

variable {S : Sdk} {net : Net S}

/-- The event is on the wire, or it is inside a gift wrap to the server that is. -/
def Occurs (net : Net S) (s : State S) (x : S.Event) : Prop :=
  x ∈ s.wire ∨ ∃ wrap ∈ s.wire, innerEvent net.server.keys wrap = .ok x

/-- Distinct events have distinct ids. -/
def DistinctIds (net : Net S) (s : State S) : Prop :=
  ∀ x y, Occurs net s x → Occurs net s y → x.id = y.id → x.unsigned = y.unsigned

theorem occurs_of_accepted {s : State S} {event read : S.Event} {r : IncomingRequest}
    (hevent : event ∈ s.wire) (hread : NostrServerTransport.Accepted net.server event r read) :
    Occurs net s read := by
  cases henc : r.isEncrypted with
  | true =>
      obtain ⟨-, -, hinner⟩ := NostrServerTransport.layer_encrypted.1 (henc ▸ hread.layer)
      exact .inr ⟨event, hevent, hinner⟩
  | false =>
      obtain ⟨-, -, rfl⟩ := NostrServerTransport.layer_plain.1 (henc ▸ hread.layer)
      exact .inl hevent

/-! ## The response -/

/-- The client reads a response to it as correlated with the event it was sent for. -/
theorem Reachable.response_correlated (hS : S.Lawful) {s : State S} (hs : Reachable net s)
    {j : Nat} {eventId : S.EventId} {p : Publication S}
    (hmem : .responded j (S.idToHex eventId) p ∈ s.server.log)
    (hrecipient : p.recipient = S.publicKey net.client.keys) :
    Client.correlated net.client (S.idToHex eventId) p.event = some p.message.canonical := by
  obtain ⟨newer, h, hlog⟩ := List.append_of_mem hmem
  obtain ⟨response, c, session, amb, -, -, -, hpub⟩ := hs.server.explained hlog
  obtain ⟨hmessage, -⟩ := NostrServerTransport.publishResponse_ok hpub
  rw [hmessage]
  exact Client.correlated_publishResponse hS net.serverPubkey hpub hrecipient

/-- A response to an event of the client goes to the client. -/
theorem Reachable.response_recipient (hS : S.Lawful) {s : State S} (hs : Reachable net s)
    (hids : DistinctIds net s) {x : S.Event} (hx : Occurs net s x)
    (hauthor : x.pubkey = S.publicKey net.client.keys) {j : Nat} {p : Publication S}
    (hmem : .responded j (S.idToHex x.id) p ∈ s.server.log) :
    p.recipient = S.publicKey net.client.keys := by
  obtain ⟨newer, h, hlog⟩ := List.append_of_mem hmem
  obtain ⟨h₀, last, hmoment, hlast, hrecipient⟩ := hs.server.recipient_latest hS hlog
  obtain ⟨hlast, -, hid⟩ := Server.lastRequest_eq_some hlast
  have hsuffix : h₀ <:+ s.server.log := by
    refine (Server.routeMoment_suffix hmoment).trans ?_
    exact ⟨newer ++ [.responded j (S.idToHex x.id) p], by simp [hlog]⟩
  obtain ⟨event, hforwarded⟩ :=
    Server.mem_requests.1 (Server.mem_requests_of_suffix hsuffix hlast)
  obtain ⟨hwire, hacc⟩ := hs.forwarded_on_wire hforwarded
  obtain ⟨read, hread⟩ := NostrServerTransport.accept_ok hacc
  rw [hread.id] at hid
  -- the request that the route is of has the id of `x`, so it has its author
  have hsame := hids read x (occurs_of_accepted hwire hread) hx (hS.idToHex_injective hid)
  have hpubkey : read.pubkey = x.pubkey := congrArg Prod.fst hsame
  rw [hread.client, hpubkey, hauthor] at hrecipient
  exact hS.toHex_injective hrecipient

/-! ## The request -/

/-- The event that the client signed for a message, with what is known of it. -/
theorem Reachable.published_sent {s : State S} (hs : Reachable net s) {i : Nat}
    {message : JsonRpcMessage} {event : S.Event}
    (hpub : .published i message event ∈ s.client.log) :
    event ∈ s.wire ∧ ∃ amb signed, Sent net.client.base amb message
      (S.publicKey net.server.keys) ctxvmMessagesKind
      (createRecipientTags S net.client.serverPubkey)
      (shouldEncrypt net.client.encryptionMode ctxvmMessagesKind none) signed event := by
  constructor
  · refine List.mem_append_left _ (List.mem_append_right _ ?_)
    exact List.mem_filterMap.2 ⟨_, hpub, rfl⟩
  · rw [← net.serverPubkey]
    exact hs.client.published hpub

theorem shouldEncrypt_none (mode : EncryptionMode) :
    shouldEncrypt mode ctxvmMessagesKind none = false ↔ mode = .disabled := by
  cases mode <;> decide

/-- The server goes by the id `e` that the client has registered, so the client recognises
the response: it is waiting for it, unless it has had a message about the request, and its
loop forwards it. -/
def Recognised (net : Net S) (s : State S) (e : String) (r : IncomingRequest) : Prop :=
  e = r.eventId ∧ ∀ j p, .responded j r.eventId p ∈ s.server.log →
    (∀ event m, .forwarded event (some e) m ∉ s.client.log) →
      e ∈ s.client.pendingRequests ∧ (s.client.loop = none →
        Client.Forwards net.client s.client p.event (some e) p.message.canonical)

/-- A request that was sent and received is recognised exactly if the client does not
encrypt. -/
theorem request_correlated_iff (hS : S.Lawful) {s : State S} (hs : Reachable net s)
    (hids : DistinctIds net s) {i : Nat} {message : JsonRpcMessage} {event : S.Event}
    {e : String} {r : IncomingRequest}
    (hpub : .published i message event ∈ s.client.log)
    (hreg : .registered i e ∈ s.client.log)
    (hforwarded : .forwarded event r ∈ s.server.log) :
    Recognised net s e r ↔ net.client.encryptionMode = .disabled := by
  obtain ⟨hwire, amb, signed, hsent⟩ := hs.published_sent hpub
  obtain ⟨-, hacc⟩ := hs.forwarded_on_wire hforwarded
  obtain ⟨read, hread⟩ := NostrServerTransport.accept_ok hacc
  have he := hs.client.registered_eq hpub hreg
  have hkind := hsent.kind_eq_giftWrap_iff hS (by decide)
  have htravel := Bool.eq_iff_iff.2 (hread.isEncrypted_iff.trans hkind)
  have hlayer := hread.layer
  rw [htravel] at hlayer
  rw [← shouldEncrypt_none]
  cases henc : shouldEncrypt net.client.encryptionMode ctxvmMessagesKind none with
  | true =>
      -- the server reads the event inside, whose kind and hence whose id is another
      refine iff_of_false ?_ (by simp)
      rintro ⟨hid, -⟩
      rw [henc] at hsent hkind hlayer
      obtain ⟨-, -, hinner⟩ := NostrServerTransport.layer_encrypted.1 hlayer
      cases hinner.symm.trans (hS.innerEvent_giftWrap (hsent.wraps rfl))
      rw [he, hread.id] at hid
      have hsame := hids event signed (.inl hwire) (occurs_of_accepted hwire hread)
        (hS.idToHex_injective hid)
      simp only [Event.unsigned, Prod.mk.injEq] at hsame
      obtain ⟨-, -, hkinds, -⟩ := hsame
      rw [hkind.2 rfl, hsent.signed_kind hS] at hkinds
      exact absurd hkinds (by decide)
  | false =>
      refine iff_of_true ?_ rfl
      rw [henc] at hsent hlayer
      cases hsent.plain rfl
      obtain ⟨-, -, rfl⟩ := NostrServerTransport.layer_plain.1 hlayer
      refine ⟨he.trans hread.id.symm, fun j p hresp hfirst ↦ ?_⟩
      have hpending : e ∈ s.client.pendingRequests :=
        (hs.client.pending_or_forwarded hreg).resolve_right
          fun ⟨event', m, hmem⟩ ↦ hfirst event' m hmem
      refine ⟨hpending, fun hidle ↦ Client.forwards_of_pending ?_ hidle hpending⟩
      rw [he]
      rw [hread.id] at hresp
      have hrecipient :=
        hs.response_recipient hS hids (.inl hwire) (hsent.signed_pubkey hS) hresp
      exact hs.response_correlated hS hresp hrecipient

/-! ## The registration -/

/-- The loop, if it goes on with the response, forwards it; or it has forwarded another
message about the request. -/
def Kept (net : Net S) (s : State S) (e : String) (p : Publication S) : Prop :=
  Client.Forwards net.client s.client p.event (some e) p.message.canonical ∨
    ∃ event m, .forwarded event (some e) m ∈ s.client.log

/-- A response to the client is kept exactly if a call of `send` has registered the id that
it is for by the time the loop goes on with it.  For a plaintext request this is the id that
`send` registers after it has published the request. -/
theorem response_kept_iff (hS : S.Lawful) {s : State S} (hs : Reachable net s) {j : Nat}
    {eventId : S.EventId} {p : Publication S}
    (hresp : .responded j (S.idToHex eventId) p ∈ s.server.log)
    (hrecipient : p.recipient = S.publicKey net.client.keys) (hidle : s.client.loop = none) :
    Kept net s (S.idToHex eventId) p ↔
      ∃ i, .registered i (S.idToHex eventId) ∈ s.client.log := by
  have hcorr := hs.response_correlated hS hresp hrecipient
  constructor
  · rintro (hforwards | ⟨event, m, hmem⟩)
    · exact hs.client.registered.pending _ (Client.pending_of_forwards hcorr hforwards)
    · exact hs.client.registered.forwarded _ _ _ hmem
  · rintro ⟨i, hreg⟩
    rcases hs.client.pending_or_forwarded hreg with hpending | hforwarded
    · exact .inl (Client.forwards_of_pending hcorr hidle hpending)
    · exact .inr hforwarded

/-! ## Runs -/

/-- The events that occur, as a list. -/
def occurring (net : Net S) (s : State S) : List S.Event :=
  s.wire ++ s.wire.filterMap fun wrap ↦ (innerEvent net.server.keys wrap).toOption

theorem distinctIds_of_nodup {s : State S} {ids : List S.EventId}
    (hids : (occurring net s).map (fun x ↦ x.id) = ids) (hnodup : ids.Nodup) :
    DistinctIds net s := by
  have hmem : ∀ x, Occurs net s x → x ∈ occurring net s := by
    rintro x (hx | ⟨wrap, hwrap, hx⟩)
    · exact List.mem_append_left _ hx
    · exact List.mem_append_right _ (List.mem_filterMap.2 ⟨wrap, hwrap, by rw [hx]; rfl⟩)
  intro x y hx hy hid
  rw [List.inj_on_of_nodup_map (hids ▸ hnodup) (hmem x hx) (hmem y hy) hid]

/-- A server that is open to all, and a client of it. -/
def symbolic (encryptionMode : EncryptionMode) : Net Symbolic.sdk where
  client := { keys := "A", serverPubkey := "server", encryptionMode, isStateless := false }
  server := Server.openServer
  serverPubkey := rfl

/-- The client sends a request, which the server receives. -/
def requestRun : List (Action Symbolic.sdk) :=
  [.client (.call toolCall), .client (.resume 0 (Symbolic.ambient 0)), .toServer 0]

/-- The client registers the id. -/
def registration : Action Symbolic.sdk := .client (.resume 0 (Symbolic.ambient 1))

/-- The server answers the request `e`. -/
def responseRun (e : String) : List (Action Symbolic.sdk) :=
  [.server (.call (.sendResponse e emptyResponse)),
    .server (.resume 0 (Symbolic.ambient 2)), .server (.resume 0 (Symbolic.ambient 2)),
    .server (.resume 0 (Symbolic.ambient 2))]

/-- A plaintext request was registered and then answered. -/
def answeredState : State Symbolic.sdk :=
  (run (step (symbolic .disabled)) .init
    (requestRun ++ registration :: responseRun "A/25910/0")).get rfl

theorem answeredState_reachable : Reachable (symbolic .disabled) answeredState :=
  ⟨requestRun ++ registration :: responseRun "A/25910/0", rfl⟩

theorem answeredState_distinctIds : DistinctIds (symbolic .disabled) answeredState := by
  have hids : (occurring (symbolic .disabled) answeredState).map (fun x ↦ x.id) =
    ["A/25910/0", "server/25910/2"] := rfl
  have hnodup : (["A/25910/0", "server/25910/2"] : List String).Nodup := by decide
  exact distinctIds_of_nodup hids hnodup

theorem answeredState_log :
    ∃ p h, answeredState.server.log = .responded 0 "A/25910/0" p :: h ∧ p.recipient = "A" :=
  ⟨_, _, rfl, rfl⟩

theorem request_correlated_iff_answeredState :
    ∃ p, .responded 0 "A/25910/0" p ∈ answeredState.server.log ∧
      Client.Forwards (symbolic .disabled).client answeredState.client p.event
        (some "A/25910/0") p.message.canonical := by
  have hno : answeredState.client.log.any Client.Obs.isForwarded = false := rfl
  rw [List.any_eq_false] at hno
  have hrecognised := (request_correlated_iff Symbolic.lawful answeredState_reachable
    answeredState_distinctIds (.tail _ (.tail _ (.head _))) (.tail _ (.head _))
    (.tail _ (.tail _ (.tail _ (.tail _ (.head _)))))).2 rfl
  obtain ⟨p, h, hlog, -⟩ := answeredState_log
  have hresp : .responded 0 "A/25910/0" p ∈ answeredState.server.log := hlog ▸ .head _
  exact ⟨p, hresp, (hrecognised.2 0 p hresp fun event m hmem ↦ hno _ hmem rfl).2 rfl⟩

theorem response_kept_iff_answeredState :
    ∃ p, .responded 0 "A/25910/0" p ∈ answeredState.server.log ∧
      Kept (symbolic .disabled) answeredState "A/25910/0" p := by
  obtain ⟨p, h, hlog, hrecipient⟩ := answeredState_log
  have hresp : .responded 0 "A/25910/0" p ∈ answeredState.server.log := hlog ▸ .head _
  exact ⟨p, hresp, (response_kept_iff Symbolic.lawful answeredState_reachable hresp hrecipient
    rfl).2 ⟨0, .tail _ (.head _)⟩⟩

/-- A gift-wrapped request was registered. -/
def wrappedState : State Symbolic.sdk :=
  (run (step (symbolic .optional)) .init (requestRun ++ [registration])).get rfl

/-- The client registers the id of its gift wrap, and the server goes by another. -/
theorem request_not_recognised :
    ¬ ∀ (S : Sdk) (_ : S.Lawful) (net : Net S) (s : State S) (i : Nat) (req : JsonRpcRequest)
      (event : S.Event) (e : String) (r : IncomingRequest), Reachable net s →
      DistinctIds net s → .published i (.request req) event ∈ s.client.log →
      .registered i e ∈ s.client.log → .forwarded event r ∈ s.server.log →
        Recognised net s e r := by
  intro h
  have hreach : Reachable (symbolic .optional) wrappedState :=
    ⟨requestRun ++ [registration], rfl⟩
  have hids : (occurring (symbolic .optional) wrappedState).map (fun x ↦ x.id) =
    ["ephemeral/1059/0", "A/25910/0"] := rfl
  have hnodup : (["ephemeral/1059/0", "A/25910/0"] : List String).Nodup := by decide
  have hrecognised := h Symbolic.sdk Symbolic.lawful (symbolic .optional) wrappedState 0 _ _ _ _
    hreach (distinctIds_of_nodup hids hnodup) (.tail _ (.tail _ (.head _)))
    (.tail _ (.head _)) (.head _)
  have hid : ("ephemeral/1059/0" : String) = "A/25910/0" := hrecognised.1
  exact absurd hid (by decide)

/-- A plaintext request was answered before it was registered. -/
def racingState : State Symbolic.sdk :=
  (run (step (symbolic .disabled)) .init (requestRun ++ responseRun "A/25910/0")).get rfl

/-- The response to a plaintext request is there before the client has registered the id,
and is refused. -/
theorem response_not_kept :
    ¬ ∀ (S : Sdk) (_ : S.Lawful) (net : Net S) (s : State S) (i j : Nat)
      (req : JsonRpcRequest) (event : S.Event) (p : Publication S), Reachable net s →
      .published i (.request req) event ∈ s.client.log → event.kind ≠ giftWrapKind →
      .responded j (S.idToHex event.id) p ∈ s.server.log →
      p.recipient = S.publicKey net.client.keys → s.client.loop = none →
        Kept net s (S.idToHex event.id) p := by
  intro h
  have hreach : Reachable (symbolic .disabled) racingState :=
    ⟨requestRun ++ responseRun "A/25910/0", rfl⟩
  have hkept := h Symbolic.sdk Symbolic.lawful (symbolic .disabled) racingState 0 0 _ _ _ hreach
    (.head _) (by decide) (.head _) rfl rfl
  have hno : racingState.client.log.any Client.Obs.isForwarded = false := rfl
  rw [List.any_eq_false] at hno
  rcases hkept with hforwards | ⟨event, m, hmem⟩
  · obtain ⟨content, eTag, htake⟩ := hforwards.take
    cases htake
  · exact hno _ hmem rfl

end ContextVM.Net
