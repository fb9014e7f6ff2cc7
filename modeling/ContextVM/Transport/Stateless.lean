import ContextVM.Transport.Subscription

/-!
# Stateless clients

A stateless client answers `initialize` itself and keeps `notifications/initialized` to itself.
So the server never takes it as initialized, and no broadcast goes to it.  The response that
it emulates announces that the lists of the server change; of such a change it never hears.

What it hears of are the responses to it and the notifications that the server's consumer
addresses to it (`forwarded_stateless`).
-/

namespace ContextVM

open Lib NostrClientTransport
open Symbolic (toolCall emptyResponse initialized)

variable {S : Sdk}

/-! ## What a stateless client keeps to itself -/

theorem JsonRpcMessage.emulate_canonical (client : NostrClientTransport S)
    (m : JsonRpcMessage) : (client.emulate m.canonical).isSome = (client.emulate m).isSome := by
  unfold NostrClientTransport.emulate
  cases client.isStateless with
  | false => rfl
  | true => cases m <;> rfl

/-- A stateless client does not send its introduction. -/
theorem IncomingRequest.emulate_of_introduces {client : NostrClientTransport S}
    (hstateless : client.isStateless = true) {r : IncomingRequest} (h : r.introduces = true) :
    (client.emulate r.message).isSome = true := by
  unfold NostrClientTransport.emulate
  rw [hstateless, if_pos rfl]
  unfold introduces at h
  split at h
  · next n hm =>
      simp [hm, of_decide_eq_true h]
  · cases h

namespace Client

variable {client : NostrClientTransport S} {s s' : State S} {a : Action S} {i : Nat}
  {message : JsonRpcMessage} {event : S.Event}

theorem step_published (h : step client s a = some s')
    (hmem : .published i message event ∈ s'.log) :
    .published i message event ∈ s.log ∨ client.emulate message = none := by
  cases a with
  | resume j amb =>
      obtain ⟨task, ht, rfl⟩ := Option.map_eq_some_iff.1 h
      cases task with
      | publish message' =>
          simp only [resume] at hmem
          cases he : client.emulate message' with
          | some answer =>
              left
              cases answer <;> simpa [he, State.finish, State.observe] using hmem
          | none =>
              simp only [he] at hmem
              split at hmem
              · rcases List.mem_cons.1 hmem with hnew | hold
                · cases hnew
                  exact .inr he
                · exact .inl hold
              · left
                simpa [State.finish] using hmem
      | register eventId =>
          left
          simpa [resume, State.finish, State.register] using hmem
  | call message' =>
      cases h
      left
      simpa [State.call] using hmem
  | receive event' =>
      left
      cases step_transition h with
      | refused | taken => exact hmem
  | deliver =>
      left
      cases step_transition h with
      | forwarded => simpa [State.forward] using hmem
      | unparsed => exact hmem

/-- What the client emulates it does not publish. -/
theorem Reachable.emulate_published (hs : Reachable client s)
    (hmem : .published i message event ∈ s.log) : client.emulate message = none := by
  refine Reaches.induct (Client.step client) hs (fun s ↦ .published i message event ∈ s.log → _)
    nofun ?_ hmem
  intro m a m' _ ih hstep hmem
  rcases step_published hstep hmem with hold | hnone
  · exact ih hold
  · exact hnone

end Client

namespace Net

variable {net : Net S} {s : State S}

/-- The server reads what the client has published as the client has sent it. -/
theorem Reachable.message_published (hS : S.Lawful) (hs : Reachable net s) {x : S.Event}
    {i : Nat} {message : JsonRpcMessage} (hpub : .published i message x ∈ s.client.log)
    {r : IncomingRequest} (hacc : net.server.accept x = .ok r) :
    r.message = message.canonical := by
  obtain ⟨-, amb, signed, hsent⟩ := hs.published_sent hpub
  obtain ⟨read, hread⟩ := NostrServerTransport.accept_ok hacc
  have hkind := hsent.kind_eq_giftWrap_iff hS (by decide)
  have htravel := Bool.eq_iff_iff.2 (hread.isEncrypted_iff.trans hkind)
  have hlayer := hread.layer
  rw [htravel] at hlayer
  have hsigned : read = signed := by
    cases henc : shouldEncrypt net.client.encryptionMode ctxvmMessagesKind none with
    | true =>
        rw [henc] at hsent hlayer
        obtain ⟨-, -, hinner⟩ := NostrServerTransport.layer_encrypted.1 hlayer
        cases hinner.symm.trans (hS.innerEvent_giftWrap (hsent.wraps rfl))
        rfl
    | false =>
        rw [henc] at hsent hlayer
        obtain ⟨-, -, rfl⟩ := NostrServerTransport.layer_plain.1 hlayer
        exact hsent.plain rfl
  have hmessage := hread.message
  rw [hsigned, hsent.signed_message hS, Option.some.injEq] at hmessage
  exact hmessage.symm

/-- The server never takes a stateless client as initialized. -/
theorem not_introduced_stateless (hS : S.Lawful) (hs : Reachable net s)
    (hstateless : net.client.isStateless = true) (hauth : Authentic net s) :
    ¬ Server.IntroducedIn (S.toHex (S.publicKey net.client.keys)) s.server.log := by
  rintro ⟨r, hr, hclient, hintroduces⟩
  obtain ⟨event, hforwarded⟩ := Server.mem_requests.1 hr
  obtain ⟨hwire, hacc⟩ := hs.forwarded_on_wire hforwarded
  obtain ⟨i, message, hpub⟩ := hauth.client event hwire r hacc hclient
  have hkept := IncomingRequest.emulate_of_introduces hstateless hintroduces
  rw [hs.message_published hS hpub hacc, JsonRpcMessage.emulate_canonical,
    hs.client.emulate_published hpub] at hkept
  cases hkept

/-- The server has meant the message for the client: it answers an event, or the consumer has
addressed it to the client. -/
inductive MeantFor (net : Net S) (s : State S) (p : Publication S) : Prop
  | response (j : Nat) (e : String) (h : .responded j e p ∈ s.server.log)
  | notification (j : Nat) (c : String) (correlated : Option String)
      (h : .notified j p ∈ s.server.log)
      (hcalled : .called j (.sendNotification c p.message correlated) ∈ s.server.log)
      (hc : S.fromHex c = .ok (S.publicKey net.client.keys))

/-- Whatever a stateless client forwards the server has meant for it, so it forwards no
broadcast. -/
theorem forwarded_stateless (hS : S.Lawful) (hstateless : net.client.isStateless = true)
    {answers : ContextVM.Answers S} {as : List (Action S)}
    (hrun : run (step net) .init as = some s)
    (hheeds : Always (step net) (Heeds net answers) .init as) (hauth : Authentic net s)
    {event : S.Event} {eTag : Option String} {m : JsonRpcMessage}
    (hmem : .forwarded event eTag m ∈ s.client.log) :
    ∃ p, p.event = event ∧ p.recipient = S.publicKey net.client.keys ∧
      m = p.message.canonical ∧ MeantFor net s p := by
  have hs : Reachable net s := ⟨as, hrun⟩
  obtain ⟨p, hp, hevent, hrecipient, hm⟩ := forwarded_addressed hS hrun hheeds hauth hmem
  refine ⟨p, hevent, hrecipient, hm, ?_⟩
  obtain ⟨o, ho, hpub⟩ := List.mem_filterMap.1 hp
  cases o <;> simp only [Server.Obs.publication?, reduceCtorEq, Option.some.injEq] at hpub
  case responded j e p' =>
    subst hpub
    exact .response j e ho
  case notified j p' =>
    subst hpub
    obtain ⟨c, hc, hcause⟩ := hs.server.caused.log j p' ho
    cases hcause with
    | addressed correlated hcalled =>
        exact .notification j c correlated ho hcalled (hrecipient ▸ hc)
    | broadcast hcalled hintroduced =>
        -- a broadcast to the client would mean that it has introduced itself
        obtain ⟨r, hr, rfl, hintroduces⟩ := hintroduced
        have hhex := hs.server.toHex_of_fromHex hS hr hc
        rw [hrecipient] at hhex
        exact absurd ⟨r, hr, hhex.symm, hintroduces⟩
          (not_introduced_stateless hS hs hstateless hauth)

def stateless : Net Symbolic.sdk where
  client :=
    { keys := "A", serverPubkey := "server", encryptionMode := .disabled, isStateless := true }
  server := Server.openServer
  serverPubkey := rfl

/-- A stateless client introduces itself, in vain, and calls a tool.  Another client introduces
itself and gets a broadcast.  The call is answered. -/
def servedRun : List (Action Symbolic.sdk) :=
  [.client (.call initialized), .client (.resume 0 (Symbolic.ambient 0)),
    .client (.call toolCall), .client (.resume 1 (Symbolic.ambient 0)),
    .client (.resume 1 (Symbolic.ambient 0)), .toServer 0,
    .publish (Symbolic.message "B" 1 [.publicKey "server"] initialized), .toServer 0,
    .server (.call (.broadcastNotification initialized)), .server (.snapshot 0 ["B"]),
    .server (.resume 0 (Symbolic.ambient 2)), .server (.resume 0 (Symbolic.ambient 2)),
    .server (.call (.sendResponse "A/25910/0" emptyResponse)),
    .server (.resume 1 (Symbolic.ambient 3)), .server (.resume 1 (Symbolic.ambient 3)),
    .server (.resume 1 (Symbolic.ambient 3))]

def servedState : State Symbolic.sdk := (run (step stateless) .init servedRun).get rfl

/-- The stateless client gets the response. -/
def statelessRun : List (Action Symbolic.sdk) := servedRun ++ [.toClient 2] ++ [.client .deliver]

def statelessState : State Symbolic.sdk := (run (step stateless) .init statelessRun).get rfl

theorem authentic_statelessState : Authentic stateless statelessState where
  client := by
    intro x hx r hacc hclient
    rcases List.mem_cons.1 hx with rfl | hx
    · cases hacc
      exact absurd hclient (by decide : ("B" : String) ≠ "A")
    rcases List.mem_cons.1 hx with rfl | hx
    · exact ⟨1, toolCall, .tail _ (.tail _ (.tail _ (.head _)))⟩
    · -- the others are by the server
      rcases List.mem_cons.1 hx with rfl | hx
      · cases hacc
        exact absurd hclient (by decide : ("server" : String) ≠ "A")
      · cases List.mem_singleton.1 hx
        cases hacc
        exact absurd hclient (by decide : ("server" : String) ≠ "A")
  server := by
    intro x hx read hlayer hauthor
    rcases List.mem_cons.1 hx with rfl | hx
    · cases hlayer
      exact absurd hauthor (by decide : ("B" : String) ≠ "server")
    rcases List.mem_cons.1 hx with rfl | hx
    · cases hlayer
      exact absurd hauthor (by decide : ("A" : String) ≠ "server")
    rcases List.mem_cons.1 hx with rfl | hx
    · exact ⟨_, .head _, rfl⟩
    · cases List.mem_singleton.1 hx
      exact ⟨_, .tail _ (.head _), rfl⟩

/-- The relays hand the client one event, which its subscription lets through. -/
theorem heeds_statelessRun :
    Always (step stateless) (Heeds stateless Lifecycle.compliant) .init statelessRun := by
  have hserved : Always (step stateless) (Heeds stateless Lifecycle.compliant) .init
      servedRun := by
    refine .of_mem fun a ha m ↦ ?_
    cases a with
    | toClient k => simp [servedRun] at ha
    | _ => trivial
  have hrun : run (step stateless) .init servedRun = some servedState := rfl
  have hresponse : Heeds stateless Lifecycle.compliant servedState (.toClient 2) := by
    rintro event ⟨⟩
    decide
  obtain ⟨m, hclient, -⟩ := (run_concat_eq_some _).1
    (rfl : run (step stateless) .init statelessRun = some statelessState)
  exact (hserved.concat hrun hresponse).concat hclient trivial

theorem forwarded_stateless_statelessState : ∃ event m p,
    .forwarded event (some "A/25910/0") m ∈ statelessState.client.log ∧ p.event = event ∧
      m = p.message.canonical ∧ MeantFor stateless statelessState p := by
  have hrun : run (step stateless) .init statelessRun = some statelessState := rfl
  obtain ⟨p, hevent, -, hm, hmeant⟩ := forwarded_stateless Symbolic.lawful rfl hrun
    heeds_statelessRun authentic_statelessState (.head _)
  exact ⟨_, _, p, .head _, hevent, hm, hmeant⟩

end Net

end ContextVM
